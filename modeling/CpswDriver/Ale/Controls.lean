import CpswDriver.Ale.Control
import CpswDriver.Lib.RegField

/-!
The controls as a caller sees them, who gives the control, the port and the
value as integers. The registers are plain memory here, so nothing clears the
table or ALE_CLEAR. Every control of every port is a variable of its own.
-/

namespace CpswDriver.Ale

variable {params : AleParams} {c c' : AleControl} {regs : ℕ → U32}

/-- ale_controls is indexed by enum cpsw_ale_control. -/
def AleControl.all : List AleControl :=
  [.enable, .clear, .ageout, .p0UniFlood, .vlanNolearn, .noPortVlan, .ouiDeny, .bypass,
    .rateLimitTx, .vlanAware, .authEnable, .rateLimit, .portState, .portDropUntagged,
    .portDropUnknownVlan, .portNolearn, .portNoSaUpdate, .portUnknownVlanMember,
    .portUnknownMcastFlood, .portUnknownRegMcastFlood, .portUntaggedEgress, .portMaconly,
    .portMaconlyCaf, .portBcastLimit, .portMcastLimit, .defaultThreadId, .defaultThreadEnable]

/-- The control with this number, if it is a known one. -/
def aleControlOf (control : ℤ) : Option AleControl :=
  if control < 0 then none else AleControl.all[control.toNat]?

namespace Registers

def cpswAleControlSet (params : AleParams) (regs : ℕ → U32) (port control : ℤ) (value : U32) :
    (ℕ → U32) × ℤ :=
  match aleControlOf control with
  | none => (regs, -einval)
  | some c => cpswAleControlSetRegs params regs port c value

def cpswAleControlGet (params : AleParams) (regs : ℕ → U32) (port control : ℤ) : ℤ :=
  match aleControlOf control with
  | none => -einval
  | some c =>
    let info := aleControls params c
    -- global, port is a dont care
    let port := if info.portOffset = 0 ∧ info.portShift = 0 then 0 else port
    if port < 0 ∨ (params.alePorts : ℤ) ≤ port then -einval
    else
      let offset := info.offset + port.toNat * info.portOffset
      let shift := info.shift + port.toNat * info.portShift
      (BitField.get (regs offset) shift info.bits).toNat

end Registers

/-- A control that does not look at the port. -/
def AleControlInfo.Global (info : AleControlInfo) : Prop :=
  info.portOffset = 0 ∧ info.portShift = 0

instance (info : AleControlInfo) : Decidable info.Global :=
  inferInstanceAs (Decidable (_ ∧ _))

/-- The port is one of the engine's, or nobody looks at it. -/
def HasPort (params : AleParams) (c : AleControl) (port : ℤ) : Prop :=
  (aleControls params c).Global ∨ 0 ≤ port ∧ port < params.alePorts

/-- Where the control lies for the port. -/
def controlField (params : AleParams) (c : AleControl) (port : ℤ) : RegField ℕ :=
  let info := aleControls params c
  let port := if info.Global then 0 else port
  { reg := info.offset + port.toNat * info.portOffset
    start := info.shift + port.toNat * info.portShift
    bits := info.bits }

theorem mem_all (c : AleControl) : c ∈ AleControl.all := by
  cases c <;> decide

theorem nodup_all : AleControl.all.Nodup := by decide

theorem aleControlOf_injective {control control' : ℤ} (h : aleControlOf control = some c)
    (h' : aleControlOf control' = some c) : control = control' := by
  unfold aleControlOf at h h'
  split at h
  · cases h
  split at h'
  · cases h'
  have heq : control.toNat = control'.toNat :=
    (List.getElem?_inj (List.getElem?_eq_some_iff.mp h).1 nodup_all).mp (h.trans h'.symm)
  omega

/-- The engine with the most ports, and so with the longest fields. -/
def widest : Bool → AleParams
  | true => ⟨{ devId := "66ak2el", nuSwitchAle := true, vlanEntryTbl := vlanEntryNu }, 0, 12, 0,
      by simp [cpswAleIdMatch], by decide, by decide⟩
  | false => ⟨{ devId := "cpsw", vlanEntryTbl := vlanEntryCpsw }, 0, 12, 0,
      threePorts.dev_mem, by decide, by decide⟩

/-- A field lies where it lies for the most ports, and is no longer. -/
theorem aleControls_widest (params : AleParams) (c : AleControl) :
    (∃ bits ≤ (aleControls (widest params.nuSwitchAle) c).bits, aleControls params c =
      { aleControls (widest params.nuSwitchAle) c with bits := bits }) := by
  have hports := params.alePorts_le
  have hnu : (widest true).nuSwitchAle = true := rfl
  have hold : (widest false).nuSwitchAle = false := rfl
  cases h : params.nuSwitchAle <;> cases c <;> unfold aleControls <;>
    simp only [h, hnu, hold, if_true, Bool.false_eq_true, if_false]
  all_goals first | exact ⟨_, le_refl _, rfl⟩ | exact ⟨_, hports, rfl⟩

/-- The fields of two controls are apart, whatever the ports: they are in
registers of their own, or beside each other in one. -/
def AleControlInfo.Clear (info info' : AleControlInfo) : Prop :=
  info.offset + 11 * info.portOffset < info'.offset ∨
    info'.offset + 11 * info'.portOffset < info.offset ∨
    info.offset = info'.offset ∧ info.portOffset = info'.portOffset ∧
      (info.shift + info.bits ≤ info'.shift ∨ info'.shift + info'.bits ≤ info.shift)

instance (info info' : AleControlInfo) : Decidable (info.Clear info') :=
  inferInstanceAs (Decidable (_ ∨ _))

theorem widest_clear : ∀ nu, ∀ c ∈ AleControl.all, ∀ c' ∈ AleControl.all, c ≠ c' →
    (aleControls (widest nu) c).Clear (aleControls (widest nu) c') := by
  decide +kernel

/-- No field has its bits at a place that depends on the port, and none reaches
the sign bit of an integer. -/
theorem widest_bounds : ∀ nu, ∀ c ∈ AleControl.all, (aleControls (widest nu) c).portShift = 0 ∧
    (aleControls (widest nu) c).bits < 31 ∧
      (aleControls (widest nu) c).shift + (aleControls (widest nu) c).bits ≤ 32 := by
  decide +kernel

theorem aleControls_clear (params : AleParams) (h : c ≠ c') :
    (aleControls params c).Clear (aleControls params c') := by
  have hclear := widest_clear params.nuSwitchAle c (mem_all c) c' (mem_all c') h
  obtain ⟨bits, hbits, hc⟩ := aleControls_widest params c
  obtain ⟨bits', hbits', hc'⟩ := aleControls_widest params c'
  rw [hc, hc']
  unfold AleControlInfo.Clear at hclear ⊢
  dsimp only at hclear ⊢
  omega

theorem aleControls_bounds (params : AleParams) (c : AleControl) :
    (aleControls params c).portShift = 0 ∧ (aleControls params c).bits < 31 ∧
      (aleControls params c).shift + (aleControls params c).bits ≤ 32 := by
  obtain ⟨hstride, hlen, hfit⟩ := widest_bounds params.nuSwitchAle c (mem_all c)
  obtain ⟨bits, hbits, hc⟩ := aleControls_widest params c
  rw [hc]
  dsimp only
  omega

theorem controlField_fits (params : AleParams) (c : AleControl) (port : ℤ) :
    (controlField params c port).Fits 32 := by
  obtain ⟨hstride, hlen, hfit⟩ := aleControls_bounds params c
  unfold controlField RegField.Fits
  dsimp only
  rw [hstride, Nat.mul_zero]
  exact ⟨by omega, hfit⟩

/-- Two pairs of a control and a port that name different fields. -/
theorem controlField_apart {port port' : ℤ} (hport : HasPort params c port)
    (hport' : HasPort params c' port')
    (hne : ¬ (c' = c ∧ ((aleControls params c).Global ∨ port' = port))) :
    (controlField params c port).Apart (controlField params c' port') := by
  have hports := params.alePorts_le
  obtain ⟨hstride, -, -⟩ := aleControls_bounds params c
  obtain ⟨hstride', -, -⟩ := aleControls_bounds params c'
  have hin : ∀ (c : AleControl) (port : ℤ), HasPort params c port →
      (if (aleControls params c).Global then 0 else port).toNat ≤ 11 := by
    intro c port hport
    split
    · exact Nat.zero_le _
    · rcases hport with hglobal | hin
      · contradiction
      · omega
  have hmul : ∀ (c : AleControl) (port : ℤ), HasPort params c port →
      (if (aleControls params c).Global then 0 else port).toNat * (aleControls params c).portOffset
        ≤ 11 * (aleControls params c).portOffset :=
    fun c port hport => Nat.mul_le_mul_right _ (hin c port hport)
  intro hreg
  unfold controlField at hreg ⊢
  dsimp only at hreg ⊢
  rw [hstride, hstride', Nat.mul_zero, Nat.mul_zero]
  by_cases heq : c' = c
  · subst heq
    have hlocal : ¬ (aleControls params c').Global := fun hglobal => hne ⟨rfl, Or.inl hglobal⟩
    have hdiff : port' ≠ port := fun hcon => hne ⟨rfl, Or.inr hcon⟩
    have hpos : 0 < (aleControls params c').portOffset :=
      Nat.pos_of_ne_zero fun hzero => hlocal ⟨hzero, hstride⟩
    have hrange : 0 ≤ port ∧ port < params.alePorts := hport.resolve_left hlocal
    have hrange' : 0 ≤ port' ∧ port' < params.alePorts := hport'.resolve_left hlocal
    rw [if_neg hlocal, if_neg hlocal] at hreg
    have hsame := Nat.eq_of_mul_eq_mul_right hpos (Nat.add_left_cancel hreg)
    omega
  · have hle := hmul c port hport
    have hle' := hmul c' port' hport'
    rcases aleControls_clear params (Ne.symm heq) with hlt | hlt | ⟨-, -, hbits⟩
    · omega
    · omega
    · rw [Nat.add_zero, Nat.add_zero]
      exact hbits

namespace Registers

/-- The guard on the port, once it is taken for zero where nobody looks at it. -/
theorem hasPort_iff (params : AleParams) (c : AleControl) (port : ℤ) :
    ¬ ((if (aleControls params c).Global then 0 else port) < 0 ∨
      (params.alePorts : ℤ) ≤ if (aleControls params c).Global then 0 else port) ↔
    HasPort params c port := by
  have hpos := params.alePorts_pos
  unfold HasPort
  split
  · rename_i hglobal
    exact ⟨fun _ => Or.inl hglobal, fun _ => by omega⟩
  · rename_i hlocal
    rw [not_or, not_lt, not_le]
    exact ⟨Or.inr, fun h => h.resolve_left hlocal⟩

theorem controlSet_write {port control : ℤ} {value : U32} (hc : aleControlOf control = some c)
    (hport : HasPort params c port) (hvalue : value.toNat < 2 ^ (aleControls params c).bits) :
    cpswAleControlSet params regs port control value =
      ((controlField params c port).write regs value, 0) := by
  obtain ⟨-, hlen, -⟩ := aleControls_bounds params c
  have hbits : (aleControls params c).bits < 32 := by omega
  have hguard := (hasPort_iff params c port).mpr hport
  have hmask := (BitField.and_not_bitMask_eq_zero_iff hbits).mpr hvalue
  unfold cpswAleControlSet
  rw [hc]
  dsimp only
  refine (if_neg hguard).trans ((if_neg (not_not.mpr hmask)).trans ?_)
  unfold RegField.write BitField.put
  rw [show value &&& BitField.bitMask 32 (controlField params c port).bits = value from
    BitField.and_bitMask_of_lt hbits hvalue]
  rfl

theorem controlSet_refused {port control : ℤ} {value : U32} (hc : aleControlOf control = some c)
    (h : ¬ (HasPort params c port ∧ value.toNat < 2 ^ (aleControls params c).bits)) :
    cpswAleControlSet params regs port control value = (regs, -einval) := by
  obtain ⟨-, hlen, -⟩ := aleControls_bounds params c
  have hbits : (aleControls params c).bits < 32 := by omega
  unfold cpswAleControlSet
  rw [hc]
  dsimp only
  unfold cpswAleControlSetRegs
  dsimp only
  by_cases hport : HasPort params c port
  · have hvalue : ¬ value.toNat < 2 ^ (aleControls params c).bits := fun hv => h ⟨hport, hv⟩
    have hmask : ¬ value &&& ~~~BitField.bitMask 32 (aleControls params c).bits = 0 :=
      fun hzero => hvalue ((BitField.and_not_bitMask_eq_zero_iff hbits).mp hzero)
    rw [if_pos hmask, ite_self]
  · have hguard : _ ∨ _ := not_not.mp fun hcon => hport ((hasPort_iff params c port).mp hcon)
    exact if_pos hguard

theorem controlGet_read {port control : ℤ} (hc : aleControlOf control = some c)
    (hport : HasPort params c port) : cpswAleControlGet params regs port control =
      ((controlField params c port).read regs).toNat := by
  have hguard := (hasPort_iff params c port).mpr hport
  unfold cpswAleControlGet
  rw [hc]
  exact if_neg hguard

theorem controlGet_refused {port control : ℤ} (hc : aleControlOf control = some c)
    (hport : ¬ HasPort params c port) :
    cpswAleControlGet params regs port control = -einval := by
  have hguard : _ ∨ _ := not_not.mp fun hcon => hport ((hasPort_iff params c port).mp hcon)
  unfold cpswAleControlGet
  rw [hc]
  exact if_pos hguard

theorem toInt_of_fits {value : U32} (h : value.toNat < 2 ^ (aleControls params c).bits) :
    value.toInt = value.toNat := by
  obtain ⟨-, hlen, -⟩ := aleControls_bounds params c
  have hle : 2 ^ (aleControls params c).bits ≤ 2 ^ 30 := Nat.pow_le_pow_right (by decide) (by omega)
  exact BitVec.toInt_eq_toNat_of_lt (by omega)

/-- An integer that fits a field is not negative. -/
theorem fits_iff (params : AleParams) (c : AleControl) (value : U32) :
    value.toNat < 2 ^ (aleControls params c).bits ↔
      0 ≤ value.toInt ∧ value.toInt < 2 ^ (aleControls params c).bits := by
  constructor
  · intro h
    rw [toInt_of_fits h]
    exact ⟨Int.natCast_nonneg _, by exact_mod_cast h⟩
  · rintro ⟨hpos, hlt⟩
    have hnat : value.toInt = value.toNat := by
      have hword := value.isLt
      rw [BitVec.toInt_eq_toNat_cond] at hpos ⊢
      split at hpos <;> rename_i hsmall
      · rw [if_pos hsmall]
      · omega
    rw [hnat] at hlt
    exact_mod_cast hlt

/-- The outcome of setting a control: its field and nothing else, or an error and
no change at all. A global control has one field, which every port names. -/
structure SetsField (params : AleParams) (regs : ℕ → U32) (port control : ℤ) (value : U32)
    (r : (ℕ → U32) × ℤ) : Prop where
  ret : r.2 = 0 ↔ ∃ c, aleControlOf control = some c ∧ HasPort params c port ∧
    0 ≤ value.toInt ∧ value.toInt < 2 ^ (aleControls params c).bits
  refused : r.2 ≠ 0 → r.1 = regs
  reads : ∀ c, r.2 = 0 → aleControlOf control = some c → ∀ port',
    (aleControls params c).Global ∨ port' = port →
      cpswAleControlGet params r.1 port' control = value.toInt
  others : ∀ c, r.2 = 0 → aleControlOf control = some c → ∀ port' control',
    ¬ (control' = control ∧ ((aleControls params c).Global ∨ port' = port)) →
      cpswAleControlGet params r.1 port' control' = cpswAleControlGet params regs port' control'
  bits : ∀ c, r.2 = 0 → aleControlOf control = some c → ∀ reg i,
    ¬ (controlField params c port).Holds reg i →
      (r.1 reg).getLsbD i = (regs reg).getLsbD i

theorem controlField_same {port port' : ℤ} (h : (aleControls params c).Global ∨ port' = port) :
    controlField params c port' = controlField params c port ∧
      (HasPort params c port → HasPort params c port') := by
  rcases h with hglobal | heq
  · refine ⟨?_, fun _ => Or.inl hglobal⟩
    unfold controlField
    dsimp only
    rw [if_pos hglobal, if_pos hglobal]
  · rw [heq]
    exact ⟨rfl, id⟩

/-- A write to the field of one pair is not seen through another pair. -/
theorem controlGet_write {port port' control control' : ℤ} {value : U32}
    (hc : aleControlOf control = some c) (hport : HasPort params c port)
    (hne : ¬ (control' = control ∧ ((aleControls params c).Global ∨ port' = port))) :
    cpswAleControlGet params ((controlField params c port).write regs value) port' control' =
      cpswAleControlGet params regs port' control' := by
  cases hc' : aleControlOf control' with
  | none =>
    unfold cpswAleControlGet
    rw [hc']
  | some c' =>
    by_cases hport' : HasPort params c' port'
    · have hapart : (controlField params c port).Apart (controlField params c' port') := by
        refine controlField_apart hport hport' fun hsame => hne ⟨?_, hsame.2⟩
        obtain ⟨rfl, -⟩ := hsame
        exact aleControlOf_injective hc' hc
      rw [controlGet_read hc' hport', controlGet_read hc' hport',
        RegField.read_write_of_apart (controlField_fits _ _ _) (controlField_fits _ _ _) hapart]
    · rw [controlGet_refused hc' hport', controlGet_refused hc' hport']

/-- Every control of every port is a variable of its own. -/
theorem controlSet_setsField (params : AleParams) (regs : ℕ → U32) (port control : ℤ)
    (value : U32) : SetsField params regs port control value
      (cpswAleControlSet params regs port control value) := by
  have herr : (-einval : ℤ) ≠ 0 := by decide
  cases hc : aleControlOf control with
  | none =>
    have hset : cpswAleControlSet params regs port control value = (regs, -einval) := by
      unfold cpswAleControlSet
      rw [hc]
    rw [hset]
    refine ⟨⟨fun h => absurd h herr, ?_⟩, fun _ => rfl, fun _ h => absurd h herr,
      fun _ h => absurd h herr, fun _ h => absurd h herr⟩
    rintro ⟨c, hsome, -⟩
    rw [hc] at hsome
    cases hsome
  | some c =>
    by_cases h : HasPort params c port ∧ value.toNat < 2 ^ (aleControls params c).bits
    · obtain ⟨hport, hvalue⟩ := h
      have hfit := controlField_fits params c port
      rw [controlSet_write hc hport hvalue]
      refine ⟨⟨fun _ => ⟨c, hc, hport, (fits_iff params c value).mp hvalue⟩, fun _ => rfl⟩,
        fun hne => absurd rfl hne, ?_, ?_, ?_⟩
      · intro c' _ hc' port' hsame
        obtain rfl : c = c' := Option.some.inj (hc.symm.trans hc')
        obtain ⟨hfield, hports⟩ := controlField_same hsame
        rw [controlGet_read hc (hports hport), hfield, RegField.read_write hfit hvalue]
        exact (toInt_of_fits hvalue).symm
      · intro c' _ hc' port' control' hne
        obtain rfl : c = c' := Option.some.inj (hc.symm.trans hc')
        exact controlGet_write hc hport hne
      · intro c' _ hc' reg i hout
        obtain rfl : c = c' := Option.some.inj (hc.symm.trans hc')
        exact RegField.getLsbD_write hfit hout
    · rw [controlSet_refused hc h]
      refine ⟨⟨fun hzero => absurd hzero herr, ?_⟩, fun _ => rfl, fun _ hzero => absurd hzero herr,
        fun _ hzero => absurd hzero herr, fun _ hzero => absurd hzero herr⟩
      rintro ⟨c', hc', hport, hvalue⟩
      obtain rfl : c = c' := Option.some.inj (hc.symm.trans hc')
      exact absurd ⟨hport, (fits_iff params c value).mpr hvalue⟩ h

/-- Bypass mode is one bit for all ports: turned on through port 0 it is seen on
through port 1 as well. A port below zero is refused, although it is below the
number of ports. -/
theorem bypass_seen_through_all_ports :
    ((cpswAleControlSet threePorts (fun _ => 0) 0 7 1).2 = 0 ∧
      ¬ ∀ control port : ℤ, (control, port) ≠ (7, 0) →
        cpswAleControlGet threePorts (cpswAleControlSet threePorts (fun _ => 0) 0 7 1).1 port
          control = cpswAleControlGet threePorts (fun _ => 0) port control) ∧
    aleControlOf 12 = some .portState ∧ (-1 : ℤ) < threePorts.alePorts ∧
      (cpswAleControlSet threePorts (fun _ => 0) (-1) 12 3).2 = -einval := by
  refine ⟨⟨by decide, fun h => ?_⟩, by decide, by decide, by decide⟩
  have hseen := h 7 1 (by decide)
  revert hseen
  decide

end Registers

end CpswDriver.Ale
