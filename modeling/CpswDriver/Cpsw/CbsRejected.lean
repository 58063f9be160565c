import CpswDriver.Cpsw.CbsResume

/-!
What a request for credit based shaping leaves behind when it is rejected. The
registers and the bandwidths are not touched, but the speed of the link is recorded
before the request is checked, and what is put back is the recorded speed only if
the link is up at another one; else it is zero.
-/

namespace CpswDriver.Cbs

open Runs

variable {version : CpswVersion} {priv priv' : CpswPriv} {s s' : State} {p q : Port}
  {fifo n : ℕ} {bw ret : ℤ} {acc : U32 × U32} {halt : Halt} {req : CbsRequest}

theorem fifoLoop_error (hknown : priv.shpCfgSpeed ≠ 0)
    (h : fifoLoop priv fifo bw n acc = .error halt) : halt = .ret (-einval) := by
  induction n generalizing acc with
  | zero => cases h
  | succ n ih =>
    unfold fifoLoop at h
    dsimp only at h
    split at h
    · exact ih h
    split at h
    · exact (Except.error.inj h).symm
    split at h
    · rw [if_neg (by omega)] at h
      exact ih h
    split at h
    · exact ih h
    · exact ih h

theorem cpswSetFifoBw_error (hknown : priv.shpCfgSpeed ≠ 0)
    (h : cpswSetFifoBw priv fifo bw = .error halt) : halt = .ret (-einval) := by
  unfold cpswSetFifoBw at h
  split at h
  · exact (Except.error.inj h).symm
  split at h
  · rename_i hloop
    obtain rfl := Except.error.inj h
    exact fifoLoop_error hknown hloop
  · split at h
    · exact (Except.error.inj h).symm
    · cases h

/-- The FIFO can have the bandwidth at the recorded speed. -/
def Granted (priv : CpswPriv) (fifo : ℕ) (bw : ℤ) : Prop :=
  if bw = 0 then 0 ≤ priv.shpCfgSpeed else Accepts priv fifo bw

theorem granted_iff (hfifo : fifo ∈ fifos) :
    Granted priv fifo bw ↔ ∃ priv', cpswSetFifoBw priv fifo bw = .ok priv' := by
  unfold Granted
  by_cases hbw : bw = 0
  · rw [if_pos hbw, hbw, cpswSetFifoBw_zero]
    by_cases hneg : priv.shpCfgSpeed * 1000 < 0
    · rw [if_pos hneg]
      exact iff_of_false (by omega) (by simp)
    · rw [if_neg hneg]
      exact iff_of_true (by omega) ⟨_, rfl⟩
  · rw [if_neg hbw]
    constructor
    · intro haccepts
      exact ⟨_, (cpswSetFifoBw_ok_iff hfifo hbw).mpr ⟨haccepts, rfl⟩⟩
    · rintro ⟨priv', hok⟩
      exact ((cpswSetFifoBw_ok_iff hfifo hbw).mp hok).1

theorem cpswSetFifoRlimit_granted (version : CpswVersion) (hfifo : fifo ∈ fifos)
    (h : Granted (s.priv p) fifo bw) :
    ∃ s', cpswSetFifoRlimit version s p fifo bw = .ok s' := by
  obtain ⟨priv', hok⟩ := (granted_iff hfifo).mp h
  unfold cpswSetFifoRlimit
  rw [hok]
  exact ⟨_, rfl⟩

theorem cpswSetFifoRlimit_refused (version : CpswVersion) (hfifo : fifo ∈ fifos)
    (hknown : (s.priv p).shpCfgSpeed ≠ 0) (h : ¬ Granted (s.priv p) fifo bw) :
    cpswSetFifoRlimit version s p fifo bw = .error (.ret (-einval)) := by
  unfold cpswSetFifoRlimit
  cases hset : cpswSetFifoBw (s.priv p) fifo bw with
  | error halt =>
    obtain rfl := cpswSetFifoBw_error hknown hset
    rfl
  | ok priv' => exact absurd ((granted_iff hfifo).mpr ⟨priv', hset⟩) h

/-- The shaping of a port is as before; a speed that was not recorded may have been since. -/
structure Intact (p : Port) (s s' : State) : Prop where
  fifoBw : (s'.priv p).fifoBw = (s.priv p).fifoBw
  speed : (s.priv p).shpCfgSpeed ≠ 0 → (s'.priv p).shpCfgSpeed = (s.priv p).shpCfgSpeed
  regs : (s'.priv p).regs = (s.priv p).regs
  ptype : s'.ptype = s.ptype

/-- The request has a result, and if it is an error, it has changed nothing. -/
def RejectedIntact (version : CpswVersion) (s : State) (p : Port) (req : CbsRequest) : Prop :=
  ∃ s' ret, cpswSetCbs version s p req = some (s', ret) ∧ (ret ≠ 0 → Intact p s s')

def CbsRequest.fifoOf (req : CbsRequest) : ℕ := (cpswTcToFifo req.tc req.numTc).toNat

def CbsRequest.bwOf (req : CbsRequest) : ℤ := if req.enable then req.idleslope else 0

/-- The request is for a FIFO that can be shaped, and for a change. -/
def CbsRequest.Asks (req : CbsRequest) (priv : CpswPriv) : Prop :=
  cpswTcToFifo req.tc req.numTc ≠ 0 ∧ ¬ (req.enable = false ∧ priv.fifoBw req.fifoOf = 0)

/-- What becomes of the recorded speed. At the recorded speed, or with the link down, a
bandwidth that is refused has it forgotten; at another speed, only the refusal puts it back. -/
def SpeedKept (s : State) (p : Port) (req : CbsRequest) : Prop :=
  (s.priv p).shpCfgSpeed = 0 ∨ ¬ req.Asks (s.priv p) ∨
    (req.phy.getD (s.priv p).shpCfgSpeed = (s.priv p).shpCfgSpeed →
      req.pm < 0 ∨ Granted (s.priv p) req.fifoOf req.bwOf) ∧
    (req.phy.getD (s.priv p).shpCfgSpeed ≠ (s.priv p).shpCfgSpeed →
      req.phy.getD (s.priv p).shpCfgSpeed ≠ 0 ∧ 0 ≤ req.pm)

theorem setSpeed_priv (s : State) (p : Port) (speed : ℤ) :
    (s.setSpeed p speed).priv p = { s.priv p with shpCfgSpeed := speed } :=
  Function.update_self _ _ _

/-- After a change of the recorded speed alone, the shaping is intact just if the speed is. -/
theorem intact_setSpeed (speed : ℤ) : Intact p s (s.setSpeed p speed) ↔
    ((s.priv p).shpCfgSpeed ≠ 0 → speed = (s.priv p).shpCfgSpeed) := by
  constructor
  · intro hintact hne
    have hspeed := hintact.speed hne
    rw [setSpeed_priv] at hspeed
    exact hspeed
  · intro hspeed
    refine ⟨?_, fun hne => ?_, ?_, rfl⟩
    · rw [setSpeed_priv]
    · rw [setSpeed_priv]
      exact hspeed hne
    · rw [setSpeed_priv]

theorem cpswSetCbs_of_not_asks (version : CpswVersion) (h : ¬ req.Asks (s.priv p)) :
    ∃ ret, cpswSetCbs version s p req = some (s, ret) := by
  unfold cpswSetCbs
  dsimp only
  split
  · exact ⟨_, rfl⟩
  rename_i hne
  split
  · exact ⟨_, rfl⟩
  · rename_i hchange
    exact absurd ⟨hne, hchange⟩ h

theorem CbsRequest.Asks.fifo_mem (h : req.Asks priv) (hmapped : Mapped req) :
    req.fifoOf ∈ fifos := hmapped.fifo_mem h.1

/-- The ends of a request that asks for a change, at the speed that is recorded for it. -/
structure Answers (version : CpswVersion) (s : State) (p : Port) (req : CbsRequest) (speed : ℤ) :
    Prop where
  unknown : speed = 0 → cpswSetCbs version s p req = some (s.setSpeed p speed, -1)
  asleep : speed ≠ 0 → req.pm < 0 →
    cpswSetCbs version s p req = some (s.setSpeed p speed, req.pm)
  granted : speed ≠ 0 → 0 ≤ req.pm →
    Granted { s.priv p with shpCfgSpeed := speed } req.fifoOf req.bwOf →
    ∃ s', cpswSetCbs version s p req = some (s', 0)
  refused : speed ≠ 0 → 0 ≤ req.pm →
    ¬ Granted { s.priv p with shpCfgSpeed := speed } req.fifoOf req.bwOf →
    cpswSetCbs version s p req =
      some (s.setSpeed p (prevSpeed (s.priv p).shpCfgSpeed req.phy), -einval)

/-- The end of a request at a known speed: a share that is refused puts the old speed back. -/
def settle (version : CpswVersion) (s : State) (p : Port) (req : CbsRequest) (speed : ℤ) :
    Option (State × ℤ) :=
  match cpswSetFifoRlimit version (s.setSpeed p speed) p req.fifoOf req.bwOf with
  | .ok s => some (s, 0)
  | .error (.ret err) =>
    some ((s.setSpeed p speed).setSpeed p (prevSpeed (s.priv p).shpCfgSpeed req.phy), err)
  | .error .divideByZero => none

theorem CbsRequest.Asks.answers (version : CpswVersion) (h : req.Asks (s.priv p))
    (hmapped : Mapped req) :
    Answers version s p req (req.phy.getD (s.priv p).shpCfgSpeed) := by
  have hfifo := h.fifo_mem hmapped
  have heq : cpswSetCbs version s p req =
      if req.phy.getD (s.priv p).shpCfgSpeed = 0 then
        some (s.setSpeed p (req.phy.getD (s.priv p).shpCfgSpeed), -1)
      else if req.pm < 0 then some (s.setSpeed p (req.phy.getD (s.priv p).shpCfgSpeed), req.pm)
      else settle version s p req (req.phy.getD (s.priv p).shpCfgSpeed) := by
    unfold cpswSetCbs
    dsimp only
    rw [if_neg h.1, if_neg]
    · rfl
    · exact h.2
  generalize req.phy.getD (s.priv p).shpCfgSpeed = speed at heq ⊢
  refine ⟨fun hzero => ?_, fun hne hpm => ?_, fun hne hpm hgranted => ?_,
    fun hne hpm hrefused => ?_⟩
  · rw [heq, if_pos hzero]
  · rw [heq, if_neg hne, if_pos hpm]
  · rw [← setSpeed_priv] at hgranted
    obtain ⟨s', hok⟩ := cpswSetFifoRlimit_granted version hfifo hgranted
    refine ⟨s', ?_⟩
    rw [heq, if_neg hne, if_neg (by omega)]
    unfold settle
    rw [hok]
  · rw [← setSpeed_priv] at hrefused
    have herr := cpswSetFifoRlimit_refused version hfifo
      (by rw [setSpeed_priv]; exact hne) hrefused
    rw [heq, if_neg hne, if_neg (by omega)]
    unfold settle
    rw [herr]
    dsimp only
    rw [setSpeed_setSpeed]

/-- A request that ends in an error and a speed is judged by that speed. -/
theorem rejectedIntact_of_speed {speed : ℤ} (hret : ret ≠ 0)
    (h : cpswSetCbs version s p req = some (s.setSpeed p speed, ret)) :
    RejectedIntact version s p req ↔
      ((s.priv p).shpCfgSpeed ≠ 0 → speed = (s.priv p).shpCfgSpeed) := by
  rw [← intact_setSpeed]
  constructor
  · rintro ⟨s', ret', hset, hintact⟩
    obtain ⟨rfl, rfl⟩ := Prod.mk.inj (Option.some.inj (h.symm.trans hset))
    exact hintact hret
  · intro hintact
    exact ⟨_, _, h, fun _ => hintact⟩

theorem prevSpeed_of_same (speed : ℤ) (phy : Option ℤ) (h : phy.getD speed = speed) :
    prevSpeed speed phy = 0 := by
  cases phy with
  | none => rfl
  | some new =>
    obtain rfl : new = speed := h
    exact if_neg fun hcon => hcon.2 rfl

theorem prevSpeed_of_other (speed : ℤ) (phy : Option ℤ) (hne : speed ≠ 0)
    (h : phy.getD speed ≠ speed) : prevSpeed speed phy = speed := by
  cases phy with
  | none => exact absurd rfl h
  | some new => exact if_pos ⟨hne, fun hcon => h hcon.symm⟩

/-- A request that is rejected leaves the shaping of its port intact exactly when nothing
becomes of the recorded speed. -/
theorem rejectedIntact_iff (version : CpswVersion) (s : State) (p : Port)
    (hmapped : Mapped req) : RejectedIntact version s p req ↔ SpeedKept s p req := by
  unfold SpeedKept
  by_cases hasks : req.Asks (s.priv p)
  swap
  · obtain ⟨ret, hset⟩ := cpswSetCbs_of_not_asks version hasks
    exact iff_of_true ⟨s, ret, hset, fun _ => ⟨rfl, fun _ => rfl, rfl, rfl⟩⟩ (.inr (.inl hasks))
  have hans := hasks.answers version hmapped
  have hsame := prevSpeed_of_same (s.priv p).shpCfgSpeed req.phy
  have hother := prevSpeed_of_other (s.priv p).shpCfgSpeed req.phy
  have hself : ∀ speed, speed = (s.priv p).shpCfgSpeed →
      { s.priv p with shpCfgSpeed := speed } = s.priv p := fun _ heq => by rw [heq]
  generalize req.phy.getD (s.priv p).shpCfgSpeed = speed at hans hsame hother ⊢
  simp only [hasks, not_true_eq_false, false_or]
  have herr : -einval ≠ 0 := by decide
  by_cases hzero : speed = 0
  · rw [rejectedIntact_of_speed (by decide) (hans.unknown hzero), hzero]
    by_cases hnone : (s.priv p).shpCfgSpeed = 0
    · simp [hnone]
    · simp [hnone, Ne.symm hnone]
  by_cases hpm : req.pm < 0
  · rw [rejectedIntact_of_speed (by omega) (hans.asleep hzero hpm)]
    by_cases heq : speed = (s.priv p).shpCfgSpeed
    · simp [heq, hpm]
    · simp [heq, hzero, show ¬ 0 ≤ req.pm by omega]
  by_cases hgranted : Granted { s.priv p with shpCfgSpeed := speed } req.fifoOf req.bwOf
  · obtain ⟨s', hset⟩ := hans.granted hzero (by omega) hgranted
    refine iff_of_true ⟨s', 0, hset, fun hcon => absurd rfl hcon⟩ (.inr ?_)
    by_cases heq : speed = (s.priv p).shpCfgSpeed
    · rw [hself speed heq] at hgranted
      exact ⟨fun _ => .inr hgranted, fun hcon => absurd heq hcon⟩
    · exact ⟨fun hcon => absurd hcon heq, fun _ => ⟨hzero, by omega⟩⟩
  rw [rejectedIntact_of_speed herr (hans.refused hzero (by omega) hgranted)]
  by_cases heq : speed = (s.priv p).shpCfgSpeed
  · have hne : (s.priv p).shpCfgSpeed ≠ 0 := heq ▸ hzero
    rw [hself speed heq] at hgranted
    rw [hsame heq]
    simp [hne, Ne.symm hne, heq, hpm, hgranted]
  · by_cases hne : (s.priv p).shpCfgSpeed = 0
    · simp [hne]
    · exact iff_of_true (fun _ => hother hne heq)
        (.inr ⟨fun hcon => absurd hcon heq, fun _ => ⟨hzero, by omega⟩⟩)

/-- At another speed of the link, the refusal puts the recorded speed back. -/
theorem rejectedIntact_at_other_speed :
    RejectedIntact .v2 (boot.setSpeed 0 1000) 0 ⟨true, 900000, 0, 4, some 100, 0⟩ :=
  (rejectedIntact_iff .v2 (boot.setSpeed 0 1000) 0 (by decide)).mpr
    (.inr (.inr ⟨fun hcon => absurd hcon (by decide), fun _ => by decide⟩))

/-- At the recorded speed, it does not. -/
theorem refusal_forgets_speed : Initial .v2 boot ∧
    ∃ s', Run (step .v2) (fun _ op => Mapped op.req) boot [⟨0, gigabit 0 200000⟩] s' ∧
      ¬ RejectedIntact .v2 s' 0 (gigabit 1 900000) := by
  have hexec : (exec (step .v2) (fun _ op => Mapped op.req) boot [⟨0, gigabit 0 200000⟩]).any
      (fun s' => (s'.priv 0).shpCfgSpeed = 1000 &&
        (cpswSetCbs .v2 s' 0 (gigabit 1 900000)).all fun r =>
          r.2 = -einval && (r.1.priv 0).shpCfgSpeed = 0) = true := by decide +kernel
  obtain ⟨s', hrun, hspeeds⟩ := exists_run_of_any hexec
  simp only [Bool.and_eq_true, decide_eq_true_eq] at hspeeds
  refine ⟨initial_boot, s', hrun, ?_⟩
  rintro ⟨s'', ret, hset, hintact⟩
  have hafter := hspeeds.2
  rw [hset] at hafter
  simp only [Option.all_some, Bool.and_eq_true, decide_eq_true_eq] at hafter
  have hkept := (hintact (by rw [hafter.1]; decide)).speed (by rw [hspeeds.1]; decide)
  rw [hspeeds.1, hafter.2] at hkept
  cases hkept

end CpswDriver.Cbs
