import CpswDriver.Lib.BitField
import CpswDriver.Kernel

/-!
Interrupt pacing. The pacer counts in pulses of four microseconds, so an
interval has a smallest and a largest value; the pulse may be dilated as far as
the prescale field holds, which moves the largest one. What is stored is what
the registers were made from, so opening the device again gives the same
registers.
-/

namespace CpswDriver.Cpsw.Pacing

def cpswIntpaceen : U32 := 0x3f#32 <<< 16
def cpswIntprescaleMask : U32 := 0x7ff#32
def cpswCmintmaxCnt : U32 := 63
def cpswCmintminCnt : U32 := 2
def cpswCmintmaxIntvl : U32 := 1000 / cpswCmintminCnt
def cpswCmintminIntvl : U32 := 1000 / cpswCmintmaxCnt + 1

/-- The registers of struct cpsw_wr_regs that pace the interrupts. -/
structure CpswWrRegs where
  intControl : U32
  rxImax : U32
  txImax : U32

structure CpswCommon where
  wrRegs : CpswWrRegs
  busFreqMhz : U32
  coalIntvl : U32

/-- An interval with what makes the pacer keep it. -/
@[ext]
structure Pace where
  coalIntvl : U32
  prescale : U32
  addnlDvdr : U32

/-- The part of cpsw_set_coalesce that fits the interval to the pacer. -/
def pace (busFreqMhz coalIntvl : U32) : Pace :=
  let prescale := busFreqMhz * 4
  let coalIntvl := if coalIntvl < cpswCmintminIntvl then cpswCmintminIntvl else coalIntvl
  if cpswCmintmaxIntvl < coalIntvl then
    let addnlDvdr := cpswIntprescaleMask / prescale
    if 1 < addnlDvdr then
      let coalIntvl :=
        if cpswCmintmaxIntvl * addnlDvdr < coalIntvl then cpswCmintmaxIntvl * addnlDvdr
        else coalIntvl
      { coalIntvl := coalIntvl, prescale := prescale * addnlDvdr, addnlDvdr := addnlDvdr }
    else { coalIntvl := cpswCmintmaxIntvl, prescale := prescale, addnlDvdr := 1 }
  else { coalIntvl := coalIntvl, prescale := prescale, addnlDvdr := 1 }

def cpswSetCoalesce (cpsw : CpswCommon) (rxCoalesceUsecs : U32) : CpswCommon × ℤ :=
  let intCtrl := cpsw.wrRegs.intControl
  if rxCoalesceUsecs = 0 then
    let intCtrl := intCtrl &&& ~~~(cpswIntprescaleMask ||| cpswIntpaceen)
    ({ cpsw with
        wrRegs := { cpsw.wrRegs with intControl := intCtrl }
        coalIntvl := rxCoalesceUsecs }, 0)
  else
    let p := pace cpsw.busFreqMhz rxCoalesceUsecs
    let numInterrupts := 1000 * p.addnlDvdr / p.coalIntvl
    let intCtrl := intCtrl ||| cpswIntpaceen
    let intCtrl := intCtrl &&& ~~~cpswIntprescaleMask
    let intCtrl := intCtrl ||| (p.prescale &&& cpswIntprescaleMask)
    ({ cpsw with
        wrRegs := { intControl := intCtrl, rxImax := numInterrupts, txImax := numInterrupts }
        coalIntvl := p.coalIntvl }, 0)

/-- The part of cpsw_ndo_open that enables pacing if it is configured. -/
def cpswNdoOpen (cpsw : CpswCommon) : CpswCommon :=
  if cpsw.coalIntvl ≠ 0 then (cpswSetCoalesce cpsw cpsw.coalIntvl).1 else cpsw

def dilation (busFreqMhz : ℕ) : ℕ := max 1 (2047 / (4 * busFreqMhz))

/-- The interval of two interrupts at the slowest pulse. -/
def largest (busFreqMhz : ℕ) : ℕ := 500 * dilation busFreqMhz

def fitted (busFreqMhz usecs : ℕ) : ℕ := min (max usecs 16) (largest busFreqMhz)

/-- The pulse is dilated just where an interval needs it. -/
def dvdr (busFreqMhz intvl : ℕ) : ℕ := if intvl ≤ 500 then 1 else dilation busFreqMhz

variable {bus usecs : ℕ}

theorem dilation_mul_le (hlo : 16 ≤ bus) (hhi : bus ≤ 511) : 4 * bus * dilation bus ≤ 2047 := by
  have hle : 4 * bus * (2047 / (4 * bus)) ≤ 2047 := Nat.mul_div_le 2047 (4 * bus)
  rcases Nat.le_total 1 (2047 / (4 * bus)) with h | h
  · rw [dilation, Nat.max_eq_right h]
    exact hle
  · rw [dilation, Nat.max_eq_left h]
    omega

theorem dilation_pos (bus : ℕ) : 1 ≤ dilation bus := Nat.le_max_left _ _

theorem dilation_le (hlo : 16 ≤ bus) (hhi : bus ≤ 511) : dilation bus ≤ 31 := by
  have hmul : 64 * dilation bus ≤ 4 * bus * dilation bus := Nat.mul_le_mul_right _ (by omega)
  have hle := dilation_mul_le hlo hhi
  omega

theorem dvdr_le (bus intvl : ℕ) : dvdr bus intvl ≤ dilation bus := by
  unfold dvdr
  split
  · exact dilation_pos bus
  · exact le_refl _

theorem fitted_mem (bus usecs : ℕ) : 16 ≤ fitted bus usecs ∧ fitted bus usecs ≤ largest bus := by
  have hpos := dilation_pos bus
  unfold fitted largest
  omega

theorem fitted_of_mem (hlo : 16 ≤ usecs) (hhi : usecs ≤ largest bus) :
    fitted bus usecs = usecs := by
  unfold fitted
  omega

theorem pulses_mem (h : usecs ≤ largest bus) (hlo : 16 ≤ usecs) (hbus : dilation bus ≤ 31) :
    2 ≤ 1000 * dvdr bus usecs / usecs ∧ 1000 * dvdr bus usecs / usecs ≤ 63 := by
  have hpos : 0 < usecs := by omega
  unfold largest at h
  unfold dvdr
  split
  · exact ⟨(Nat.le_div_iff_mul_le hpos).mpr (by omega),
      Nat.lt_succ_iff.mp ((Nat.div_lt_iff_lt_mul hpos).mpr (by omega))⟩
  · exact ⟨(Nat.le_div_iff_mul_le hpos).mpr (by omega),
      Nat.lt_succ_iff.mp ((Nat.div_lt_iff_lt_mul hpos).mpr (by omega))⟩

/-- What the driver computes is the fitted interval, with no word that wraps. -/
theorem pace_fitted {busFreqMhz : U32} (hlo : 16 ≤ busFreqMhz.toNat) (hhi : busFreqMhz.toNat ≤ 511)
    (coalIntvl : U32) : (pace busFreqMhz coalIntvl).coalIntvl.toNat =
        fitted busFreqMhz.toNat coalIntvl.toNat ∧
      (pace busFreqMhz coalIntvl).addnlDvdr.toNat =
        dvdr busFreqMhz.toNat (fitted busFreqMhz.toNat coalIntvl.toNat) ∧
      (pace busFreqMhz coalIntvl).prescale.toNat = 4 * busFreqMhz.toNat *
        dvdr busFreqMhz.toNat (fitted busFreqMhz.toNat coalIntvl.toNat) := by
  have hle := dilation_le hlo hhi
  have hfits := dilation_mul_le hlo hhi
  have hprescale : (busFreqMhz * 4).toNat = 4 * busFreqMhz.toNat := by
    rw [BitVec.toNat_mul, Nat.mul_comm]
    exact Nat.mod_eq_of_lt (by simp; omega)
  have hquot : (cpswIntprescaleMask / (busFreqMhz * 4)).toNat =
      2047 / (4 * busFreqMhz.toNat) := by
    rw [BitVec.toNat_udiv, hprescale]
    rfl
  have hmin : cpswCmintminIntvl.toNat = 16 := by decide
  have hmax : cpswCmintmaxIntvl.toNat = 500 := by decide
  have hone : (1 : U32).toNat = 1 := rfl
  have hpos := dilation_pos busFreqMhz.toNat
  have hatLeast : (if coalIntvl < cpswCmintminIntvl then cpswCmintminIntvl else coalIntvl).toNat =
      max coalIntvl.toNat 16 := by
    split <;> rename_i h <;> rw [BitVec.lt_def, hmin] at h <;> omega
  unfold pace
  dsimp only
  generalize (if coalIntvl < cpswCmintminIntvl then cpswCmintminIntvl else coalIntvl) = raised
    at hatLeast ⊢
  split <;> rename_i hlong <;> rw [BitVec.lt_def, hmax, hatLeast] at hlong
  · split <;> rename_i hslow <;> rw [BitVec.lt_def, hquot, hone] at hslow
    · have hdil : (cpswIntprescaleMask / (busFreqMhz * 4)).toNat = dilation busFreqMhz.toNat := by
        rw [hquot, dilation, Nat.max_eq_right (Nat.le_of_lt hslow)]
      have htop : (cpswCmintmaxIntvl * (cpswIntprescaleMask / (busFreqMhz * 4))).toNat =
          largest busFreqMhz.toNat := by
        rw [BitVec.toNat_mul, hmax, hdil]
        exact Nat.mod_eq_of_lt (by omega)
      have hfit : fitted busFreqMhz.toNat coalIntvl.toNat =
          min (max coalIntvl.toNat 16) (largest busFreqMhz.toNat) := rfl
      have hdvdr : dvdr busFreqMhz.toNat (fitted busFreqMhz.toNat coalIntvl.toNat) =
          dilation busFreqMhz.toNat := by
        refine if_neg ?_
        rw [hfit]
        unfold largest
        have htwo : 2 ≤ dilation busFreqMhz.toNat := hslow.trans_eq (hquot.symm.trans hdil)
        omega
      rw [hdvdr]
      refine ⟨?_, hdil, ?_⟩
      · split <;> rename_i h <;> rw [BitVec.lt_def, htop, hatLeast] at h
        · rw [htop, hfit]
          omega
        · rw [hatLeast, hfit]
          omega
      · rw [BitVec.toNat_mul, hprescale, hdil]
        exact Nat.mod_eq_of_lt (by omega)
    · have hdil : dilation busFreqMhz.toNat = 1 := Nat.max_eq_left (Nat.le_of_not_lt hslow)
      have hfit : fitted busFreqMhz.toNat coalIntvl.toNat = 500 := by
        unfold fitted largest
        omega
      rw [hfit, show dvdr busFreqMhz.toNat 500 = 1 from rfl, Nat.mul_one]
      exact ⟨hmax, rfl, hprescale⟩
  · have hfit : fitted busFreqMhz.toNat coalIntvl.toNat = max coalIntvl.toNat 16 := by
      unfold fitted largest
      omega
    have hdvdr : dvdr busFreqMhz.toNat (fitted busFreqMhz.toNat coalIntvl.toNat) = 1 :=
      if_pos (by omega)
    rw [hdvdr, hfit, hprescale, Nat.mul_one]
    exact ⟨hatLeast, rfl, rfl⟩

/-- The bit belongs to the prescale or enables pacing. -/
def PacingBit (i : ℕ) : Prop := i < 11 ∨ 16 ≤ i ∧ i < 22

instance (i : ℕ) : Decidable (PacingBit i) := inferInstanceAs (Decidable (_ ∨ _))

/-- int_control with pacing off. -/
def pacingOff (intCtrl : U32) : U32 := intCtrl &&& ~~~(cpswIntprescaleMask ||| cpswIntpaceen)

/-- int_control with pacing on. -/
def pacingOn (intCtrl prescale : U32) : U32 :=
  (intCtrl ||| cpswIntpaceen) &&& ~~~cpswIntprescaleMask ||| (prescale &&& cpswIntprescaleMask)

theorem getLsbD_intprescaleMask (i : ℕ) :
    cpswIntprescaleMask.getLsbD i = decide (i < 11) :=
  BitField.getLsbD_bitMask (by decide : 11 < 32) i

theorem getLsbD_intpaceen (i : ℕ) :
    cpswIntpaceen.getLsbD i = decide (16 ≤ i ∧ i < 22) := by
  have hmask : cpswIntpaceen = BitField.bitMask 32 6 <<< 16 := by decide
  rw [hmask, BitVec.getLsbD_shiftLeft, BitField.getLsbD_bitMask (by decide), Bool.eq_iff_iff]
  simp only [Bool.and_eq_true, Bool.not_eq_true', decide_eq_true_eq, decide_eq_false_iff_not]
  omega

theorem getLsbD_pacingOff (intCtrl : U32) {i : ℕ} (hi : i < 32) :
    (pacingOff intCtrl).getLsbD i = (intCtrl.getLsbD i && decide (¬ PacingBit i)) := by
  rw [pacingOff, BitVec.getLsbD_and, BitVec.getLsbD_not, BitVec.getLsbD_or,
    getLsbD_intprescaleMask, getLsbD_intpaceen, decide_eq_true hi, Bool.true_and]
  unfold PacingBit
  rw [decide_not, Bool.decide_or]

theorem getLsbD_pacingOn (intCtrl prescale : U32) {i : ℕ} (hi : i < 32) :
    (pacingOn intCtrl prescale).getLsbD i = if i < 11 then prescale.getLsbD i
      else if 16 ≤ i ∧ i < 22 then true else intCtrl.getLsbD i := by
  rw [pacingOn, BitVec.getLsbD_or, BitVec.getLsbD_and, BitVec.getLsbD_or, BitVec.getLsbD_not,
    BitVec.getLsbD_and, getLsbD_intprescaleMask, getLsbD_intpaceen]
  by_cases hlow : i < 11
  · simp [hlow]
  · by_cases hen : 16 ≤ i ∧ i < 22 <;> simp [hi, hlow, hen]

/-- A bit that pacing is not about stays, with pacing on and with pacing off. -/
theorem getLsbD_not_pacing (intCtrl prescale : U32) {i : ℕ} (hi : ¬ PacingBit i) :
    (pacingOn intCtrl prescale).getLsbD i = intCtrl.getLsbD i ∧
      (pacingOff intCtrl).getLsbD i = intCtrl.getLsbD i := by
  by_cases hword : i < 32
  · rw [getLsbD_pacingOn _ _ hword, getLsbD_pacingOff _ hword, decide_eq_true hi, Bool.and_true]
    unfold PacingBit at hi
    rw [if_neg (by omega), if_neg (by omega)]
    exact ⟨rfl, rfl⟩
  · rw [BitVec.getLsbD_of_ge _ _ (by omega), BitVec.getLsbD_of_ge _ _ (by omega),
      BitVec.getLsbD_of_ge _ _ (by omega)]
    exact ⟨rfl, rfl⟩

theorem pacingOff_and (intCtrl : U32) :
    pacingOff intCtrl &&& (cpswIntprescaleMask ||| cpswIntpaceen) = 0 := by
  rw [pacingOff, BitVec.and_assoc, BitVec.and_comm (~~~_), BitVec.and_not_self]
  exact BitVec.and_zero

theorem pacingOn_and_intpaceen (intCtrl prescale : U32) :
    pacingOn intCtrl prescale &&& cpswIntpaceen = cpswIntpaceen := by
  apply BitVec.eq_of_getLsbD_eq
  intro i hi
  rw [BitVec.getLsbD_and, getLsbD_pacingOn _ _ hi, getLsbD_intpaceen]
  by_cases hen : 16 ≤ i ∧ i < 22
  · rw [if_neg (by omega), if_pos hen, decide_eq_true hen]
    rfl
  · rw [decide_eq_false hen, Bool.and_false]

theorem pacingOn_and_intprescaleMask (intCtrl : U32) {prescale : U32}
    (h : prescale.toNat ≤ 2047) :
    pacingOn intCtrl prescale &&& cpswIntprescaleMask = prescale := by
  have hself : prescale &&& cpswIntprescaleMask = prescale :=
    BitField.and_bitMask_of_lt (by decide : 11 < 32) (by omega)
  rw [← hself]
  apply BitVec.eq_of_getLsbD_eq
  intro i hi
  rw [BitVec.getLsbD_and, BitVec.getLsbD_and, getLsbD_pacingOn _ _ hi, getLsbD_intprescaleMask,
    hself]
  by_cases hlow : i < 11
  · rw [if_pos hlow]
  · rw [decide_eq_false hlow, Bool.and_false, Bool.and_false]

theorem pacingOn_pacingOn (intCtrl prescale : U32) :
    pacingOn (pacingOn intCtrl prescale) prescale = pacingOn intCtrl prescale := by
  apply BitVec.eq_of_getLsbD_eq
  intro i hi
  rw [getLsbD_pacingOn _ _ hi, getLsbD_pacingOn _ _ hi]
  by_cases hlow : i < 11
  · rw [if_pos hlow, if_pos hlow]
  · by_cases hen : 16 ≤ i ∧ i < 22 <;> simp [hlow, hen]

/-- What the registers and the stored interval are after an interval was set. -/
structure Paces (busFreqMhz usecs : U32) (cpsw : CpswCommon) : Prop where
  count : cpsw.wrRegs.txImax = cpsw.wrRegs.rxImax ∧
    2 ≤ cpsw.wrRegs.rxImax.toNat ∧ cpsw.wrRegs.rxImax.toNat ≤ 63
  prescale : (pace busFreqMhz usecs).prescale.toNat ≤ 2047 ∧
    cpsw.wrRegs.intControl &&& cpswIntprescaleMask = (pace busFreqMhz usecs).prescale
  enabled : cpsw.wrRegs.intControl &&& cpswIntpaceen = cpswIntpaceen
  intvl : 16 ≤ cpsw.coalIntvl.toNat ∧ cpsw.coalIntvl.toNat ≤ largest busFreqMhz.toNat
  stored : cpsw.coalIntvl.toNat = fitted busFreqMhz.toNat usecs.toNat
  /-- Opening the device programs the same registers and stores the same interval. -/
  again : cpswNdoOpen cpsw = cpsw
  /-- It does so whatever is in the registers by then. -/
  restored : ∀ regs, (cpswNdoOpen { cpsw with wrRegs := regs }).coalIntvl = cpsw.coalIntvl ∧
    (cpswNdoOpen { cpsw with wrRegs := regs }).wrRegs =
      { cpsw.wrRegs with
        intControl := pacingOn regs.intControl (pace busFreqMhz usecs).prescale }

variable {cpsw : CpswCommon} {usecs : U32}

theorem setCoalesce_zero : (cpswSetCoalesce cpsw 0).1 =
    { cpsw with
      wrRegs := { cpsw.wrRegs with intControl := pacingOff cpsw.wrRegs.intControl }
      coalIntvl := 0 } := rfl

theorem setCoalesce_of_ne (h : usecs ≠ 0) : (cpswSetCoalesce cpsw usecs).1 =
    { cpsw with
      wrRegs :=
        { intControl := pacingOn cpsw.wrRegs.intControl (pace cpsw.busFreqMhz usecs).prescale
          rxImax := 1000 * (pace cpsw.busFreqMhz usecs).addnlDvdr /
            (pace cpsw.busFreqMhz usecs).coalIntvl
          txImax := 1000 * (pace cpsw.busFreqMhz usecs).addnlDvdr /
            (pace cpsw.busFreqMhz usecs).coalIntvl }
      coalIntvl := (pace cpsw.busFreqMhz usecs).coalIntvl } := by
  unfold cpswSetCoalesce
  dsimp only
  rw [if_neg h]
  rfl

/-- The interval that was stored is made into the same pace. -/
theorem pace_pace {busFreqMhz : U32} (hlo : 16 ≤ busFreqMhz.toNat) (hhi : busFreqMhz.toNat ≤ 511)
    (usecs : U32) : pace busFreqMhz (pace busFreqMhz usecs).coalIntvl = pace busFreqMhz usecs := by
  obtain ⟨hintvl, hdvdr, hprescale⟩ := pace_fitted hlo hhi usecs
  obtain ⟨hintvl', hdvdr', hprescale'⟩ := pace_fitted hlo hhi (pace busFreqMhz usecs).coalIntvl
  obtain ⟨hmin, hmax⟩ := fitted_mem busFreqMhz.toNat usecs.toNat
  have hsame : fitted busFreqMhz.toNat (pace busFreqMhz usecs).coalIntvl.toNat =
      fitted busFreqMhz.toNat usecs.toNat := by
    rw [hintvl]
    exact fitted_of_mem hmin hmax
  rw [hsame] at hintvl' hdvdr' hprescale'
  exact Pace.ext (BitVec.eq_of_toNat_eq (hintvl'.trans hintvl.symm))
    (BitVec.eq_of_toNat_eq (hprescale'.trans hprescale.symm))
    (BitVec.eq_of_toNat_eq (hdvdr'.trans hdvdr.symm))

/-- The number of interrupts is in the range of its field. -/
theorem pulses_fitted {busFreqMhz : U32} (hlo : 16 ≤ busFreqMhz.toNat)
    (hhi : busFreqMhz.toNat ≤ 511) (usecs : U32) :
    2 ≤ (1000 * (pace busFreqMhz usecs).addnlDvdr / (pace busFreqMhz usecs).coalIntvl).toNat ∧
      (1000 * (pace busFreqMhz usecs).addnlDvdr / (pace busFreqMhz usecs).coalIntvl).toNat ≤
        63 := by
  obtain ⟨hintvl, hdvdr, -⟩ := pace_fitted hlo hhi usecs
  obtain ⟨hmin, hmax⟩ := fitted_mem busFreqMhz.toNat usecs.toNat
  have hdil := dilation_le hlo hhi
  have hsmall : dvdr busFreqMhz.toNat (fitted busFreqMhz.toNat usecs.toNat) ≤ 31 :=
    (dvdr_le _ _).trans hdil
  have hmul : (1000 * (pace busFreqMhz usecs).addnlDvdr).toNat =
      1000 * dvdr busFreqMhz.toNat (fitted busFreqMhz.toNat usecs.toNat) := by
    rw [BitVec.toNat_mul, hdvdr]
    exact Nat.mod_eq_of_lt (by simp; omega)
  rw [BitVec.toNat_udiv, hmul, hintvl]
  exact pulses_mem hmax hmin hdil

theorem setCoalesce_paces (hlo : 16 ≤ cpsw.busFreqMhz.toNat) (hhi : cpsw.busFreqMhz.toNat ≤ 511)
    (h : usecs ≠ 0) : Paces cpsw.busFreqMhz usecs (cpswSetCoalesce cpsw usecs).1 := by
  obtain ⟨hintvl, hdvdr, hprescale⟩ := pace_fitted hlo hhi usecs
  obtain ⟨hmin, hmax⟩ := fitted_mem cpsw.busFreqMhz.toNat usecs.toNat
  have hfits : (pace cpsw.busFreqMhz usecs).prescale.toNat ≤ 2047 := by
    rw [hprescale]
    exact (Nat.mul_le_mul_left _ (dvdr_le _ _)).trans (dilation_mul_le hlo hhi)
  have hne : (pace cpsw.busFreqMhz usecs).coalIntvl ≠ 0 := by
    intro hzero
    rw [hzero] at hintvl
    rw [← hintvl] at hmin
    exact absurd hmin (by decide)
  rw [setCoalesce_of_ne h]
  refine ⟨⟨rfl, pulses_fitted hlo hhi usecs⟩,
    ⟨hfits, pacingOn_and_intprescaleMask _ hfits⟩, pacingOn_and_intpaceen _ _, ?_, hintvl, ?_, ?_⟩
  · dsimp only
    rw [hintvl]
    exact ⟨hmin, hmax⟩
  · unfold cpswNdoOpen
    rw [if_pos hne, setCoalesce_of_ne hne]
    dsimp only
    rw [pace_pace hlo hhi, pacingOn_pacingOn]
  · intro regs
    unfold cpswNdoOpen
    rw [if_pos hne, setCoalesce_of_ne hne]
    dsimp only
    rw [pace_pace hlo hhi]
    exact ⟨rfl, rfl⟩

/-- The interval is kept in the range of the pacer and survives opening the device,
zero turns pacing off, and no other bit of int_control changes. -/
theorem setCoalesce_in_range (cpsw : CpswCommon) (hlo : 16 ≤ cpsw.busFreqMhz.toNat)
    (hhi : cpsw.busFreqMhz.toNat ≤ 511) (usecs : U32) :
    (usecs ≠ 0 → Paces cpsw.busFreqMhz usecs (cpswSetCoalesce cpsw usecs).1) ∧
      (usecs = 0 → (cpswSetCoalesce cpsw usecs).1.wrRegs.intControl &&&
        (cpswIntprescaleMask ||| cpswIntpaceen) = 0 ∧
          (cpswSetCoalesce cpsw usecs).1.coalIntvl = 0) ∧
      ∀ i, ¬ PacingBit i → (cpswSetCoalesce cpsw usecs).1.wrRegs.intControl.getLsbD i =
        cpsw.wrRegs.intControl.getLsbD i := by
  refine ⟨setCoalesce_paces hlo hhi, ?_, fun i hi => ?_⟩
  · rintro rfl
    rw [setCoalesce_zero]
    exact ⟨pacingOff_and _, rfl⟩
  · by_cases hzero : usecs = 0
    · rw [hzero, setCoalesce_zero]
      exact (getLsbD_not_pacing _ 0 hi).2
    · rw [setCoalesce_of_ne hzero]
      exact (getLsbD_not_pacing _ _ hi).1

theorem setCoalesce_at_125_mhz :
    Paces 125 2000 (cpswSetCoalesce ⟨⟨0, 0, 0⟩, 125, 0⟩ 2000).1 :=
  (setCoalesce_in_range ⟨⟨0, 0, 0⟩, 125, 0⟩ (by decide) (by decide) 2000).1 (by decide)

end CpswDriver.Cpsw.Pacing
