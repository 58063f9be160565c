import CpswDriver.Cpsw.Cbs

/-!
The shapers after a stop and an open of their port. The open sets the stored
bandwidths up again, from the highest FIFO down, with the setter that also serves
the requests.
-/

namespace CpswDriver.Cbs

open Runs

/-- The loop of cpsw_cbs_resume, from FIFO n down. What the setter returns is ignored. -/
def cbsResumeFrom (version : CpswVersion) (p : Port) : ℕ → State → Option State
  | 0, s => some s
  | n + 1, s =>
    let bw := (s.priv p).fifoBw (n + 1)
    if bw = 0 then cbsResumeFrom version p n s
    else
      match cpswSetFifoRlimit version s p (n + 1) bw with
      | .ok s => cbsResumeFrom version p n s
      | .error (.ret _) => cbsResumeFrom version p n s
      | .error .divideByZero => none

def cpswCbsResume (version : CpswVersion) (s : State) (p : Port) : Option State :=
  cbsResumeFrom version p cpswFifoShapersNum s

/-- A reset of what the hardware keeps for the shapers of a port. -/
def resetShapers (version : CpswVersion) (s : State) (p : Port) : State :=
  let regs := Function.update (s.priv p).regs sendPercent 0
  { priv := Function.update s.priv p { s.priv p with
      regs := Function.update regs (txInCtl version)
        (regs (txInCtl version) &&& ~~~(0xf#32 <<< cpswFifoRateEnShift)) }
    ptype := s.ptype &&& ~~~(7#32 <<< (cpswFifoShapeEnShift + 3 * p.val)) }

/-- The shapers of a port are in force as they were before. -/
structure Restored (version : CpswVersion) (p : Port) (s s' : State) : Prop where
  percent : ∀ i ∈ fifos, (s.priv p).fifoBw i ≠ 0 →
    pctField ((s'.priv p).regs sendPercent) i = pctField ((s.priv p).regs sendPercent) i
  rate : ∀ i ∈ fifos, rateBit version (s'.priv p) i = rateBit version (s.priv p) i
  shape : ∀ i ∈ fifos, shapeBit s'.ptype p i = shapeBit s.ptype p i
  fifoBw : (s'.priv p).fifoBw = (s.priv p).fifoBw

/-- The shapers of a port survive a reset. -/
def Survives (version : CpswVersion) (s : State) (p : Port) : Prop :=
  ∃ s', cpswCbsResume version (resetShapers version s p) p = some s' ∧ Restored version p s s'

variable {version : CpswVersion} {priv priv' : CpswPriv} {s s₀ s' : State} {p : Port} {n : ℕ}
  {fifo i : ℕ} {bw : ℤ}

/-- The percentages that the stored bandwidths are at the recorded speed, for the
highest FIFOs as many as the argument says. -/
def storedPct (priv : CpswPriv) : ℕ → U32
  | 0 => 0
  | k + 1 =>
    if priv.fifoBw (3 - k) = 0 then storedPct priv k
    else setPct (storedPct priv k) (3 - k) (percentOf priv.shpCfgSpeed (priv.fifoBw (3 - k)))

def withPct (priv : CpswPriv) (sendPct : U32) : CpswPriv :=
  { priv with regs := Function.update priv.regs sendPercent sendPct }

/-- What is stored for a port can be set up again: for each shaped FIFO, the FIFOs
above it are shaped, its bandwidth fits the recorded speed, which is known, the
percentages down to it are less than 100, and its own is the one in the register. -/
def Replayable (priv : CpswPriv) : Prop :=
  ∀ i ∈ fifos, priv.fifoBw i ≠ 0 →
    Accepts (withPct priv (storedPct priv (3 - i))) i (priv.fifoBw i) ∧
    pctField (priv.regs sendPercent) i = pctField (storedPct priv 3) i

theorem accepts_iff : Accepts priv fifo bw ↔ bw ≤ priv.shpCfgSpeed * 1000 ∧
    (∀ i ∈ fifos, fifo < i → priv.fifoBw i ≠ 0) ∧ priv.shpCfgSpeed ≠ 0 ∧
    (pctTotal priv (priv.regs sendPercent) fifo (percentOf priv.shpCfgSpeed bw) 3).toInt < 100 :=
  ⟨fun h => ⟨h.fits, h.upper, h.known, h.total⟩, fun h => ⟨h.1, h.2.1, h.2.2.1, h.2.2.2⟩⟩

instance : Decidable (Accepts priv fifo bw) := decidable_of_iff _ accepts_iff.symm

instance : Decidable (Replayable priv) :=
  inferInstanceAs (Decidable (∀ i ∈ fifos, priv.fifoBw i ≠ 0 →
    Accepts (withPct priv (storedPct priv (3 - i))) i (priv.fifoBw i) ∧
    pctField (priv.regs sendPercent) i = pctField (storedPct priv 3) i))

/-- FIFOs n down to 1 are still to be set up. -/
structure Replaying (version : CpswVersion) (s₀ : State) (p : Port) (n : ℕ) (s : State) :
    Prop where
  fifoBw : (s.priv p).fifoBw = (s₀.priv p).fifoBw
  speed : (s.priv p).shpCfgSpeed = (s₀.priv p).shpCfgSpeed
  rate : ∀ i ∈ fifos, rateBit version (s.priv p) i = shapeBit s.ptype p i
  low : ∀ i ∈ fifos, i ≤ n → shapeBit s.ptype p i = false

theorem Accepts.congr (h : Accepts priv fifo bw) (hbw : priv'.fifoBw = priv.fifoBw)
    (hspeed : priv'.shpCfgSpeed = priv.shpCfgSpeed)
    (hpct : priv'.regs sendPercent = priv.regs sendPercent) : Accepts priv' fifo bw := by
  have htotal : ∀ (sendPct val : U32) (n : ℕ),
      pctTotal priv' sendPct fifo val n = pctTotal priv sendPct fifo val n := by
    intro sendPct val n
    induction n with
    | zero => rfl
    | succ n ih =>
      unfold pctTotal
      rw [hbw, ih]
  refine ⟨?_, ?_, ?_, ?_⟩
  · rw [hspeed]
    exact h.fits
  · rw [hbw]
    exact h.upper
  · rw [hspeed]
    exact h.known
  · rw [hspeed, hpct, htotal]
    exact h.total

theorem Accepts.rlimit (h : Accepts (s.priv p) fifo bw) (hfifo : fifo ∈ fifos) (hbw : bw ≠ 0) :
    ∃ s', cpswSetFifoRlimit version s p fifo bw = .ok s' := by
  have hset := (cpswSetFifoBw_ok_iff hfifo hbw).mpr ⟨h, rfl⟩
  unfold cpswSetFifoRlimit
  rw [hset]
  exact ⟨_, rfl⟩

theorem Replaying.skip (h : Replaying version s₀ p (n + 1) s) : Replaying version s₀ p n s :=
  ⟨h.fifoBw, h.speed, h.rate, fun i hi hle => h.low i hi (by omega)⟩

theorem Replaying.set (h : Replaying version s₀ p (n + 1) s) (hn : n + 1 ∈ fifos)
    (hbw : (s₀.priv p).fifoBw (n + 1) ≠ 0)
    (hset : cpswSetFifoRlimit version s p (n + 1) ((s₀.priv p).fifoBw (n + 1)) = .ok s') :
    Replaying version s₀ p n s' ∧
    (∀ i ∈ fifos, shapeBit s'.ptype p i = if i = n + 1 then true else shapeBit s.ptype p i) ∧
    (s'.priv p).regs sendPercent = setPct ((s.priv p).regs sendPercent) (n + 1)
      (percentOf (s₀.priv p).shpCfgSpeed ((s₀.priv p).fifoBw (n + 1))) := by
  obtain ⟨off, hr⟩ := cpswSetFifoRlimit_ok hn hset
  have hshape : ∀ i ∈ fifos, shapeBit s'.ptype p i =
      if i = n + 1 then true else shapeBit s.ptype p i := by
    intro i hi
    rw [hr.shape p i hi]
    simp [hbw]
  refine ⟨⟨?_, ?_, fun i hi => ?_, fun i hi hle => ?_⟩, hshape, ?_⟩
  · rw [hr.fifoBw, h.fifoBw, Function.update_eq_self]
  · rw [hr.speed hbw, h.speed]
  · rw [hr.rate i hi, hshape i hi, h.rate i hi]
    by_cases heq : i = n + 1
    · simp [heq, hbw]
    · rw [if_neg heq, if_neg heq]
      cases hoff : off with
      | false => simp
      | true =>
        rcases hr.off_iff.mp hoff i hi with hcon | hfalse
        · exact absurd hcon.1 hbw
        · simp [hfalse]
  · rw [hshape i hi, if_neg (by omega), h.low i hi (by omega)]
  · rw [hr.percent, if_neg hbw, h.speed]

/-- The port that the replay has reached, where all FIFOs so far were accepted. -/
theorem Replaying.accepts_iff (h : Replaying version s₀ p n s)
    (hword : (s.priv p).regs sendPercent = storedPct (s₀.priv p) (3 - n)) :
    Accepts (withPct (s₀.priv p) (storedPct (s₀.priv p) (3 - n))) n bw ↔
      Accepts (s.priv p) n bw := by
  have hpct : (withPct (s₀.priv p) (storedPct (s₀.priv p) (3 - n))).regs sendPercent =
      storedPct (s₀.priv p) (3 - n) := by
    dsimp only [withPct]
    rw [Function.update_self]
  constructor
  · intro hacc
    exact hacc.congr h.fifoBw h.speed (by rw [hword, hpct])
  · intro hacc
    exact hacc.congr h.fifoBw.symm h.speed.symm (by rw [hword, hpct])

/-- The rest of the replay leaves the FIFOs that it has passed. -/
theorem cbsResumeFrom_passed (hn : n ≤ 3) (h : Replaying version s₀ p n s)
    (hres : cbsResumeFrom version p n s = some s') :
    ∀ i ∈ fifos, n < i → shapeBit s'.ptype p i = shapeBit s.ptype p i := by
  induction n generalizing s with
  | zero =>
    obtain rfl := Option.some.inj hres
    exact fun _ _ _ => rfl
  | succ n ih =>
    have hmem : n + 1 ∈ fifos := mem_fifos.mpr (by omega)
    have hskip : cbsResumeFrom version p n s = some s' →
        ∀ i ∈ fifos, n + 1 < i → shapeBit s'.ptype p i = shapeBit s.ptype p i :=
      fun hrest i hi hlt => ih (by omega) h.skip hrest i hi (by omega)
    unfold cbsResumeFrom at hres
    dsimp only at hres
    rw [h.fifoBw] at hres
    split at hres
    · exact hskip hres
    rename_i hbw
    split at hres
    · rename_i s₁ hset
      obtain ⟨hnext, hshape, -⟩ := h.set hmem hbw hset
      intro i hi hlt
      rw [ih (by omega) hnext hres i hi (by omega), hshape i hi, if_neg (by omega)]
    · exact hskip hres
    · cases hres

theorem storedPct_succ (hn : n + 1 ≤ 3) (priv : CpswPriv) : storedPct priv (3 - n) =
    if priv.fifoBw (n + 1) = 0 then storedPct priv (3 - (n + 1))
    else setPct (storedPct priv (3 - (n + 1))) (n + 1)
      (percentOf priv.shpCfgSpeed (priv.fifoBw (n + 1))) := by
  have hk : 3 - n = (3 - (n + 1)) + 1 := by omega
  have hi : 3 - (3 - (n + 1)) = n + 1 := by omega
  rw [hk, storedPct, hi]

/-- What the replay leaves when the setter accepts everything. -/
theorem resume_of_accepts (hn : n ≤ 3) (h : Replaying version s₀ p n s)
    (hword : (s.priv p).regs sendPercent = storedPct (s₀.priv p) (3 - n))
    (hacc : ∀ i ∈ fifos, i ≤ n → (s₀.priv p).fifoBw i ≠ 0 →
      Accepts (withPct (s₀.priv p) (storedPct (s₀.priv p) (3 - i))) i ((s₀.priv p).fifoBw i)) :
    ∃ s', cbsResumeFrom version p n s = some s' ∧ Replaying version s₀ p 0 s' ∧
      (s'.priv p).regs sendPercent = storedPct (s₀.priv p) 3 ∧
      ∀ i ∈ fifos, shapeBit s'.ptype p i =
        if i ≤ n then decide ((s₀.priv p).fifoBw i ≠ 0) else shapeBit s.ptype p i := by
  induction n generalizing s with
  | zero =>
    refine ⟨s, rfl, h, hword, fun i hi => ?_⟩
    rw [mem_fifos] at hi
    rw [if_neg (by omega)]
  | succ n ih =>
    have hmem : n + 1 ∈ fifos := mem_fifos.mpr (by omega)
    have hstored := storedPct_succ hn (s₀.priv p)
    have hlater := fun i hi (hle : i ≤ n) => hacc i hi (by omega)
    unfold cbsResumeFrom
    dsimp only
    rw [h.fifoBw]
    by_cases hbw : (s₀.priv p).fifoBw (n + 1) = 0
    · rw [if_pos hbw] at hstored ⊢
      obtain ⟨s', hres, hrep, hpct, hbits⟩ := ih (by omega) h.skip (by rw [hword, hstored]) hlater
      refine ⟨s', hres, hrep, hpct, fun i hi => ?_⟩
      rw [hbits i hi]
      by_cases heq : i = n + 1
      · rw [heq, if_neg (by omega), if_pos le_rfl, h.low _ hmem le_rfl, hbw]
        rfl
      · exact if_congr (by omega) rfl rfl
    · rw [if_neg hbw] at hstored ⊢
      have hhere := (h.accepts_iff hword).mp (hacc (n + 1) hmem le_rfl hbw)
      obtain ⟨s₁, hset⟩ : ∃ s₁, cpswSetFifoRlimit version s p (n + 1)
          ((s₀.priv p).fifoBw (n + 1)) = .ok s₁ := hhere.rlimit hmem hbw
      obtain ⟨hnext, hshape, hpct₁⟩ := h.set hmem hbw hset
      obtain ⟨s', hres, hrep, hpct, hbits⟩ :=
        ih (by omega) hnext (by rw [hpct₁, hword, hstored]) hlater
      rw [hset]
      refine ⟨s', hres, hrep, hpct, fun i hi => ?_⟩
      rw [hbits i hi, hshape i hi]
      by_cases heq : i = n + 1
      · rw [heq, if_neg (by omega), if_pos rfl, if_pos le_rfl, decide_eq_true hbw]
      · rw [if_neg heq]
        exact if_congr (by omega) rfl rfl

/-- A replay that sets the bits of all shaped FIFOs had everything accepted. -/
theorem accepts_of_resume (hn : n ≤ 3) (h : Replaying version s₀ p n s)
    (hword : (s.priv p).regs sendPercent = storedPct (s₀.priv p) (3 - n))
    (hres : cbsResumeFrom version p n s = some s')
    (hbits : ∀ i ∈ fifos, i ≤ n → (s₀.priv p).fifoBw i ≠ 0 → shapeBit s'.ptype p i = true) :
    ∀ i ∈ fifos, i ≤ n → (s₀.priv p).fifoBw i ≠ 0 →
      Accepts (withPct (s₀.priv p) (storedPct (s₀.priv p) (3 - i))) i ((s₀.priv p).fifoBw i) := by
  induction n generalizing s with
  | zero =>
    intro i hi hle
    rw [mem_fifos] at hi
    omega
  | succ n ih =>
    have hmem : n + 1 ∈ fifos := mem_fifos.mpr (by omega)
    have hstored := storedPct_succ hn (s₀.priv p)
    have hlater := fun i hi (hle : i ≤ n) => hbits i hi (by omega)
    unfold cbsResumeFrom at hres
    dsimp only at hres
    rw [h.fifoBw] at hres
    intro i hi hle hshaped
    split at hres
    · rename_i hbw
      rw [if_pos hbw] at hstored
      have hne : i ≠ n + 1 := fun hcon => hshaped (hcon ▸ hbw)
      exact ih (by omega) h.skip (by rw [hword, hstored]) hres hlater i hi (by omega) hshaped
    rename_i hbw
    rw [if_neg hbw] at hstored
    split at hres
    · rename_i s₁ hset
      obtain ⟨hnext, -, hpct⟩ := h.set hmem hbw hset
      by_cases heq : i = n + 1
      · subst heq
        exact (h.accepts_iff hword).mpr (cpswSetFifoRlimit_accepts hmem hbw hset)
      · exact ih (by omega) hnext (by rw [hpct, hword, hstored]) hres hlater i hi (by omega) hshaped
    · have hoff := cbsResumeFrom_passed (by omega) h.skip hres (n + 1) hmem (by omega)
      rw [hbits _ hmem le_rfl hbw, h.low _ hmem le_rfl] at hoff
      cases hoff
    · cases hres

theorem resetShapers_replaying (version : CpswVersion) (s : State) (p : Port) :
    Replaying version s p 3 (resetShapers version s p) ∧
      ((resetShapers version s p).priv p).regs sendPercent = 0 := by
  have hmask : (0xf#32 : U32) = BitField.bitMask 32 4 := by decide
  have hmask' : (7#32 : U32) = BitField.bitMask 32 3 := by decide
  have hp := p.isLt
  have hshape : ∀ i ∈ fifos, shapeBit (resetShapers version s p).ptype p i = false := by
    intro i hi
    rw [mem_fifos] at hi
    have hlt : i - 1 + (cpswFifoShapeEnShift + 3 * p.val) < 32 := by
      unfold cpswFifoShapeEnShift
      omega
    dsimp only [shapeBit, resetShapers]
    rw [hmask', BitField.getLsbD_and_not_mask (by decide) hlt, decide_eq_false (by omega),
      Bool.and_false]
  have hrate : ∀ i ∈ fifos, rateBit version ((resetShapers version s p).priv p) i = false := by
    intro i hi
    rw [mem_fifos] at hi
    have hlt : i + cpswFifoRateEnShift < 32 := by
      unfold cpswFifoRateEnShift
      omega
    dsimp only [rateBit, resetShapers]
    rw [Function.update_self]
    dsimp only
    rw [Function.update_self, hmask, BitField.getLsbD_and_not_mask (by decide) hlt,
      decide_eq_false (by omega), Bool.and_false]
  refine ⟨⟨?_, ?_, fun i hi => by rw [hrate i hi, hshape i hi], fun i hi _ => hshape i hi⟩, ?_⟩
  · dsimp only [resetShapers]
    rw [Function.update_self]
  · dsimp only [resetShapers]
    rw [Function.update_self]
  · dsimp only [resetShapers]
    rw [Function.update_self]
    dsimp only
    rw [Function.update_of_ne (txInCtl_ne version), Function.update_self]

/-- In a state whose bits are right, the shapers survive when they can be set up again. -/
theorem survives_iff (h : Bits version (s.priv p) s.ptype p) :
    Survives version s p ↔ Replayable (s.priv p) := by
  obtain ⟨hrep, hzero⟩ := resetShapers_replaying version s p
  constructor
  · rintro ⟨s', hres, hrestored⟩
    have hacc := accepts_of_resume (le_refl 3) hrep hzero hres fun i hi _ hne => by
      rw [hrestored.shape i hi, h.shape i hi, decide_eq_true hne]
    have hacc' : ∀ i ∈ fifos, (s.priv p).fifoBw i ≠ 0 →
        Accepts (withPct (s.priv p) (storedPct (s.priv p) (3 - i))) i ((s.priv p).fifoBw i) :=
      fun i hi => hacc i hi (mem_fifos.mp hi).2
    obtain ⟨s₁, hres₁, -, hpct, -⟩ := resume_of_accepts (le_refl 3) hrep hzero hacc
    obtain rfl : s₁ = s' := Option.some.inj (hres₁.symm.trans hres)
    intro i hi hne
    refine ⟨hacc' i hi hne, ?_⟩
    rw [← hpct, hrestored.percent i hi hne]
  · intro hreplay
    obtain ⟨s', hres, hdone, hpct, hbits⟩ := resume_of_accepts (le_refl 3) hrep hzero
      fun i hi _ hne => (hreplay i hi hne).1
    have hshape : ∀ i ∈ fifos, shapeBit s'.ptype p i = shapeBit s.ptype p i := by
      intro i hi
      rw [hbits i hi, if_pos (mem_fifos.mp hi).2, h.shape i hi]
    refine ⟨s', hres, fun i hi hne => ?_, fun i hi => ?_, hshape, hdone.fifoBw⟩
    · rw [hpct, (hreplay i hi hne).2]
    · rw [hdone.rate i hi, hshape i hi, h.rate i hi, h.shape i hi]

theorem Bits.step {op : Op} (h : ∀ q, Bits version (s.priv q) s.ptype q)
    (hmapped : Mapped op.req) (hst : Cbs.step version s op = some s') (q : Port) :
    Bits version (s'.priv q) s'.ptype q := by
  unfold Cbs.step at hst
  obtain ⟨⟨s₁, ret⟩, hset, rfl⟩ := Option.map_eq_some_iff.mp hst
  have hspeed : ∀ speed q, Bits version ((s.setSpeed op.port speed).priv q)
      (s.setSpeed op.port speed).ptype q := by
    intro speed q
    unfold State.setSpeed
    dsimp only
    by_cases hq : q = op.port
    · rw [hq, Function.update_self]
      exact (h op.port).congr rfl rfl fun _ _ => rfl
    · rw [Function.update_of_ne hq]
      exact h q
  rcases cpswSetCbs_cases hmapped hset with ⟨speed, rfl⟩ | ⟨fifo, hfifo, speed, hlimit⟩
  · exact hspeed speed q
  · exact Bits.rlimit (hspeed speed) hfifo hlimit q

/-- In every state that requests reach, the shapers of a port survive a reset exactly
when what is stored for it can be set up again. -/
theorem survives_iff_of_run (hinit : Initial version s) {ops : List Op}
    (hrun : Run (step version) (fun _ op => Mapped op.req) s ops s') (p : Port) :
    Survives version s' p ↔ Replayable (s'.priv p) :=
  survives_iff (hrun.invariant (I := fun s => ∀ q, Bits version (s.priv q) s.ptype q)
    (fun _ _ _ h hok hst => Bits.step h hok hst) hinit.bits p)

/-- Two FIFOs that were shaped at one speed survive. -/
theorem survives_with_two_shapers : ∃ s', Run (step .v2) (fun _ op => Mapped op.req) boot
    [⟨0, gigabit 0 200000⟩, ⟨0, gigabit 1 300000⟩] s' ∧ Replayable (s'.priv 0) ∧
    (Survives .v2 s' 0 ↔ Replayable (s'.priv 0)) := by
  have hexec : (exec (step .v2) (fun _ op => Mapped op.req) boot
      [⟨0, gigabit 0 200000⟩, ⟨0, gigabit 1 300000⟩]).any
      (fun s' => Replayable (s'.priv 0)) = true := by decide +kernel
  obtain ⟨s', hrun, hreplay⟩ := exists_run_of_any hexec
  exact ⟨s', hrun, of_decide_eq_true hreplay, survives_iff_of_run initial_boot hrun 0⟩

/-- A request that fails, after one at the same speed, forgets the speed, and then the
shaper that is in force is not set up again. -/
theorem survives_fails_after_refusal : Initial .v2 boot ∧
    ∃ s', Run (step .v2) (fun _ op => Mapped op.req) boot
      [⟨0, gigabit 0 200000⟩, ⟨0, gigabit 1 900000⟩] s' ∧ ¬ Survives .v2 s' 0 := by
  have hexec : (exec (step .v2) (fun _ op => Mapped op.req) boot
      [⟨0, gigabit 0 200000⟩, ⟨0, gigabit 1 900000⟩]).any
      (fun s' => rateBit .v2 (s'.priv 0) 3 && (cpswCbsResume .v2 (resetShapers .v2 s' 0) 0).all
        fun s'' => !rateBit .v2 (s''.priv 0) 3) = true := by decide +kernel
  obtain ⟨s', hrun, hbits⟩ := exists_run_of_any hexec
  rw [Bool.and_eq_true] at hbits
  refine ⟨initial_boot, s', hrun, ?_⟩
  rintro ⟨s'', hres, hrestored⟩
  have hoff := hbits.2
  rw [hres, Option.all_some, hrestored.rate 3 (by decide), hbits.1] at hoff
  cases hoff

end CpswDriver.Cbs
