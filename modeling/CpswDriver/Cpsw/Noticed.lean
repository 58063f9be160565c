import CpswDriver.Cpsw.Listening

/-!
No completion goes unnoticed. The calls of the network stack come one at a
time, so what each of them will have done at its end is the sum of what its
actions do. With a net device open and nothing under way the controller is on,
and then nothing is owed: every channel can interrupt, or a poll is due.
-/

namespace CpswDriver.Interrupts

open Cpdma Runs Promises

variable {params : CpswParams} {s s' : State} {a : Action} {t : Thread} {new as : List Action}

/-- The part of the state that only these calls change. `hung` is a call that waits for ever, or
enables a NAPI that is on. -/
structure Ctl where
  usageCount : ℤ
  opened : Port → Bool
  ctlr : CpdmaState
  off : Dir → Bool
  disabling : Dir → Bool
  hung : Bool

def State.ctl (s : State) : Ctl where
  usageCount := s.usageCount
  opened := s.opened
  ctlr := s.ctlr
  off := fun d => s.napi d == .off
  disabling := s.disabling
  hung := false

namespace Ctl

/-- What an action and those that it calls for come to. -/
def after (c : Ctl) : Action → Ctl
  | .napiEnable d => { c with off := Function.update c.off d false, hung := c.hung || !c.off d }
  | .napiDisable d => { c with disabling := Function.update c.disabling d true }
  | .napiDisableWait d =>
    if c.off d then { c with hung := true }
    else
      { c with
        off := Function.update c.off d true
        disabling := Function.update c.disabling d false }
  | .ctlrStart => { c with ctlr := if c.ctlr = .idle then .active else c.ctlr }
  | .ctlrStop => { c with ctlr := if c.ctlr = .active then .idle else c.ctlr }
  | .ctlrStopEnd => { c with ctlr := .idle }
  | .usageInc => { c with usageCount := c.usageCount + 1 }
  | .usageDec => { c with usageCount := c.usageCount - 1 }
  | .activate p => { c with opened := Function.update c.opened p true }
  | .deactivate p => { c with opened := Function.update c.opened p false }
  | _ => c

/-- dev_close -/
def close (c : Ctl) (p : Port) : Ctl :=
  if c.opened p then (.deactivate p :: cpswNdoStop c.usageCount).foldl after c else c

def next (c : Ctl) : Action → Ctl
  | .close p => c.close p
  | a => c.after a

def run (c : Ctl) (as : List Action) : Ctl := as.foldl next c

@[simp] theorem run_nil (c : Ctl) : c.run [] = c := rfl

@[simp] theorem run_cons (c : Ctl) (a : Action) (as : List Action) :
    c.run (a :: as) = (c.next a).run as := rfl

theorem run_append (c : Ctl) (as bs : List Action) : c.run (as ++ bs) = (c.run as).run bs :=
  List.foldl_append

/-- Between two calls. The devices that are open are counted, and the NAPIs are on with the first
of them. The controller is in a state `k` with them, which is on except in the middle of a call. -/
structure Standing (k : CpdmaState) (c : Ctl) : Prop where
  count : c.usageCount = (if c.opened 0 then 1 else 0) + if c.opened 1 then 1 else 0
  up : c.usageCount ≠ 0 → c.ctlr = k ∧ ∀ d, c.off d = false
  down : c.usageCount = 0 → c.ctlr = .idle ∧ ∀ d, c.off d = true
  disabling : ∀ d, c.disabling d = false
  goesOn : c.hung = false

variable {c : Ctl} {k : CpdmaState}

theorem run_plain (c : Ctl) : ∀ {as : List Action}, (∀ a ∈ as, a.serial = false) → c.run as = c
  | [], _ => rfl
  | a :: as, h => by
    have ha := h a List.mem_cons_self
    have hnext : c.next a = c := by
      cases a <;> first | rfl | cases ha
    rw [run_cons, hnext]
    exact run_plain c fun b hb => h b (List.mem_cons_of_mem a hb)

theorem foldl_ndoStop (hon : ∀ d, c.off d = false) (hlive : ∀ d, c.disabling d = false)
    (usageCount : ℤ) : (cpswNdoStop usageCount).foldl after c =
      if usageCount ≤ 1 then
        { c with
          off := fun _ => true
          ctlr := if c.ctlr = .active then .idle else c.ctlr
          usageCount := c.usageCount - 1 }
      else { c with usageCount := c.usageCount - 1 } := by
  unfold cpswNdoStop
  split
  · have hoff : Function.update (Function.update c.off .rx true) .tx true = fun _ => true := by
      funext d
      cases d <;> simp
    have hdis : Function.update (Function.update c.disabling .rx false) .tx false =
        c.disabling := by
      funext d
      cases d <;> simp [hlive]
    simp [cpswIntrDisable, after, hon, hoff, hdis]
  · rfl

theorem port_cases : ∀ p : Port, p = 0 ∨ p = 1 := by
  decide

theorem Standing.usageCount_pos (h : Standing k c) {p : Port} (hp : c.opened p = true) :
    1 ≤ c.usageCount := by
  rw [h.count]
  rcases port_cases p with rfl | rfl <;> rw [if_pos hp] <;> split <;> decide

/-- What dev_close does to a device that is open: the last one takes everything down. -/
theorem Standing.close_eq (h : Standing k c) {p : Port} (hp : c.opened p = true) :
    c.close p =
      if c.usageCount ≤ 1 then
        { c with
          opened := Function.update c.opened p false
          off := fun _ => true
          ctlr := if c.ctlr = .active then .idle else c.ctlr
          usageCount := c.usageCount - 1 }
      else
        { c with
          opened := Function.update c.opened p false
          usageCount := c.usageCount - 1 } := by
  have hpos := h.usageCount_pos hp
  have hon := (h.up (by omega)).2
  have hstop := foldl_ndoStop (c := c.after (.deactivate p)) hon h.disabling c.usageCount
  unfold close
  rw [if_pos hp, List.foldl_cons, hstop]
  rfl

/-- A device that is closed leaves the other one standing. -/
theorem Standing.close (h : Standing k c) (hk : k ≠ .teardown) (p : Port) :
    Standing k (c.close p) ∧ (c.close p).opened = Function.update c.opened p false := by
  by_cases hp : c.opened p = true
  · have hpos := h.usageCount_pos hp
    obtain ⟨hctlr, hon⟩ := h.up (by omega)
    have hcount : c.usageCount - 1 = (if Function.update c.opened p false 0 then 1 else 0) +
        if Function.update c.opened p false 1 then 1 else 0 := by
      rw [h.count]
      rcases port_cases p with rfl | rfl <;> simp [hp]
    rw [h.close_eq hp]
    split
    · have hdown : (if c.ctlr = .active then .idle else c.ctlr) = CpdmaState.idle := by
        rw [hctlr]
        cases k <;> first | rfl | exact absurd rfl hk
      exact ⟨⟨hcount, fun hne => absurd (show c.usageCount - 1 = 0 by omega) hne,
        fun _ => ⟨hdown, fun _ => rfl⟩, h.disabling, h.goesOn⟩, rfl⟩
    · exact ⟨⟨hcount, fun _ => ⟨hctlr, hon⟩, fun h0 => by dsimp only at h0; omega, h.disabling,
        h.goesOn⟩, rfl⟩
  · have hsame : c.close p = c := if_neg hp
    rw [hsame]
    refine ⟨h, ?_⟩
    rw [eq_comm, Function.update_eq_self_iff]
    exact (Bool.not_eq_true _ ▸ hp).symm

/-- cpsw_fail leaves nothing open, so it does not matter where the controller stood. -/
theorem Standing.fail (h : Standing k c) (hk : k ≠ .teardown) :
    Standing .active (c.run cpswFail) := by
  obtain ⟨h₀, hopened₀⟩ := h.close hk 0
  obtain ⟨h₁, hopened₁⟩ := h₀.close hk 1
  have hnone : ∀ p, ((c.close 0).close 1).opened p = false := by
    intro p
    rw [hopened₁, hopened₀]
    rcases port_cases p with rfl | rfl <;> simp
  have hzero : ((c.close 0).close 1).usageCount = 0 := by
    rw [h₁.count, hnone, hnone]
    rfl
  exact ⟨h₁.count, fun hne => absurd hzero hne, h₁.down, h₁.disabling, h₁.goesOn⟩

theorem Standing.suspend (h : Standing .active c) :
    Standing .idle (c.run cpswSuspendDataPass) ∧
      (c.run cpswSuspendDataPass).usageCount = c.usageCount := by
  have hrun : c.run cpswSuspendDataPass =
      { c with ctlr := if c.ctlr = .active then .idle else c.ctlr } := rfl
  rw [hrun]
  refine ⟨⟨h.count, fun hne => ?_, fun hzero => ?_, h.disabling, h.goesOn⟩, rfl⟩
  · obtain ⟨hctlr, hon⟩ := h.up hne
    exact ⟨if_pos hctlr, hon⟩
  · obtain ⟨hctlr, hoff⟩ := h.down hzero
    dsimp only
    rw [hctlr]
    exact ⟨rfl, hoff⟩

theorem Standing.resume (h : Standing .idle c) :
    Standing .active (c.run (cpswResumeDataPass c.usageCount)) := by
  unfold cpswResumeDataPass
  split
  · rename_i hzero
    exact ⟨h.count, fun hne => absurd hzero hne, h.down, h.disabling, h.goesOn⟩
  · rename_i hne
    obtain ⟨hctlr, hon⟩ := h.up hne
    exact ⟨h.count, fun _ => ⟨if_pos hctlr, hon⟩, fun hzero => absurd hzero hne, h.disabling,
      h.goesOn⟩

theorem Standing.setRingparam (h : Standing .active c) (resumed : Bool) :
    Standing .active (c.run (cpswSetRingparam c.usageCount resumed)) := by
  obtain ⟨hsuspend, hcount⟩ := h.suspend
  unfold cpswSetRingparam
  rw [run_append]
  cases resumed with
  | true =>
    rw [if_pos rfl, ← hcount]
    exact hsuspend.resume
  | false => exact hsuspend.fail CpdmaState.noConfusion

theorem hung_after (hc : c.hung = true) (a : Action) : (c.after a).hung = true := by
  cases a with
  | napiDisableWait d =>
    unfold after
    dsimp only
    split
    · rfl
    · exact hc
  | napiEnable d => exact Bool.or_eq_true_iff.mpr (.inl hc)
  | _ => exact hc

theorem hung_foldl (hc : c.hung = true) (as : List Action) :
    (as.foldl after c).hung = true := by
  induction as generalizing c with
  | nil => exact hc
  | cons a as ih => exact ih (hung_after hc a)

theorem hung_run (hc : c.hung = true) (as : List Action) : (c.run as).hung = true := by
  induction as generalizing c with
  | nil => exact hc
  | cons a as ih =>
    refine ih ?_
    cases a with
    | close p =>
      change (c.close p).hung = true
      unfold close
      split
      · exact hung_foldl hc _
      · exact hc
    | _ => exact hung_after hc _

theorem Standing.start (h : Standing .active c) :
    c.run ((if c.usageCount = 0 then [.napiEnable .rx, .napiEnable .tx] else []) ++ [.ctlrStart]) =
      { c with off := fun _ => false, ctlr := .active } := by
  split
  · rename_i hzero
    have hoff : Function.update (Function.update c.off .rx false) .tx false = fun _ => false := by
      funext d
      cases d <;> simp
    obtain ⟨hctlr, hdown⟩ := h.down hzero
    simp [next, after, hctlr, hdown, hoff]
  · rename_i hne
    obtain ⟨hctlr, hon⟩ := h.up hne
    have hoff : c.off = fun _ => false := funext hon
    simp [next, after, hctlr, ← hoff]

theorem hung_wait {d : Dir} (hoff : c.off d = true) :
    (c.after (.napiDisableWait d)).hung = true := by
  rw [after, if_pos hoff]

/-- An open that fails waits for a NAPI that nobody has enabled. -/
theorem Standing.ndoOpen (h : Standing .active c) {p : Port} (hp : c.opened p = false)
    (granted : Bool) :
    granted = false ∧ (c.run (cpswNdoOpen c.usageCount p granted)).hung = true ∨
      Standing .active (c.run (cpswNdoOpen c.usageCount p granted)) := by
  unfold cpswNdoOpen
  split
  · rename_i hfailed
    obtain ⟨hzero, hgranted⟩ := hfailed
    have hline : ∃ rest, cpswNdoStop c.usageCount =
        .napiDisable .rx :: .napiDisableWait .rx :: rest := by
      unfold cpswNdoStop
      rw [if_pos (by omega)]
      exact ⟨_, rfl⟩
    obtain ⟨rest, hrest⟩ := hline
    have hoff : (c.after (.napiDisable .rx)).off .rx = true := (h.down hzero).2 .rx
    left
    rw [hrest]
    exact ⟨hgranted, hung_run (hung_wait hoff) rest⟩
  · right
    have hplain : ∀ a ∈ cpswIntrEnable, a.serial = false := by
      decide
    rw [run_append, run_append, h.start, run_plain _ hplain]
    have hnonneg : 0 ≤ c.usageCount := by
      rw [h.count]
      split <;> split <;> decide
    refine ⟨?_, fun _ => ⟨rfl, fun _ => rfl⟩, fun hzero => ?_, h.disabling, h.goesOn⟩
    · change c.usageCount + 1 = _
      rw [h.count]
      rcases port_cases p with rfl | rfl <;> simp [next, after, hp, add_comm]
    · change c.usageCount + 1 = 0 at hzero
      omega

end Ctl

theorem ctl_setNapi (s : State) (d : Dir) (n : NapiState) :
    (s.setNapi d n).ctl = { s.ctl with off := Function.update s.ctl.off d (n == .off) } := by
  unfold State.ctl State.setNapi
  congr 1
  funext d'
  by_cases hd : d' = d
  · subst hd
    simp
  · simp [hd]

theorem off_complete (n : NapiState) : (n.complete == .off) = (n == .off) := by
  cases n <;> rfl

theorem off_schedule (n : NapiState) : (n.schedule == .off) = (n == .off) := by
  cases n <;> rfl

/-- The other threads leave alone what the calls of the network stack are about. -/
theorem ctl_plain (h : perform params s a = some (s', new)) (ha : a.serial = false) :
    s'.ctl = s.ctl := by
  have hsame : ∀ d n, (n == NapiState.off) = (s.napi d == .off) → (s.setNapi d n).ctl = s.ctl := by
    intro d n hn
    rw [ctl_setNapi, hn, show (s.napi d == .off) = s.ctl.off d from rfl, Function.update_eq_self]
  cases a <;> cases ha
  all_goals simp only [perform] at h
  case napiSchedule d =>
    cases h
    split
    · rfl
    · exact hsame d _ (off_schedule _)
  case napiComplete d =>
    cases h
    exact hsame d _ (off_complete _)
  case napiReturn d =>
    cases h
    split
    · exact hsame d _ (off_complete _)
    · rfl
  all_goals
    try split at h
    all_goals
      cases h
      rfl

theorem calls_plain (h : perform params s a = some (s', new)) (ha : a.serial = false) :
    ∀ c ∈ new, c.serial = false := by
  have hnew := perform_calls h
  intro c hc
  cases a <;> grind [Action.serial]

theorem run_ndoStop (c : Ctl) (usageCount : ℤ) :
    c.run (cpswNdoStop usageCount) = (cpswNdoStop usageCount).foldl Ctl.after c := by
  unfold cpswNdoStop
  split <;> rfl

/-- What an action has done together with what it calls for. -/
theorem ctl_perform (h : perform params s a = some (s', new)) :
    s'.ctl.run new = s.ctl.next a := by
  by_cases hserial : a.serial = false
  · have hnext : s.ctl.next a = s.ctl := by
      cases a <;> first | rfl | cases hserial
    rw [ctl_plain h hserial, hnext]
    exact Ctl.run_plain _ (calls_plain h hserial)
  cases a with
  | napiEnable d =>
    simp only [perform] at h
    split at h
    · rename_i hoff
      cases h
      have hdown : s.ctl.off d = true := by
        simp [State.ctl, hoff]
      have hnext : s.ctl.next (.napiEnable d) =
          { s.ctl with off := Function.update s.ctl.off d false } := by
        simp [Ctl.next, Ctl.after, hdown]
      rw [hnext]
      exact ctl_setNapi s d .idle
    · cases h
  | napiDisableWait d =>
    simp only [perform] at h
    split at h
    · rename_i hidle
      cases h
      have hon : s.ctl.off d = false := by
        simp [State.ctl, hidle]
      have hnext : s.ctl.next (.napiDisableWait d) = { s.ctl with
          off := Function.update s.ctl.off d true
          disabling := Function.update s.ctl.disabling d false } := by
        rw [Ctl.next, Ctl.after, if_neg (by simp [hon])]
        exact fun p => Action.noConfusion
      rw [hnext]
      change ({ (s.setNapi d .off).ctl with disabling := _ } : Ctl) = _
      rw [ctl_setNapi]
      rfl
    · cases h
  | ctlrStart =>
    simp only [perform] at h
    split at h
    · rename_i hidle
      cases h
      rw [Ctl.run_plain _ (by simp [Action.serial])]
      change _ = ({ s.ctl with ctlr := if s.ctlr = .idle then .active else s.ctlr } : Ctl)
      rw [if_pos hidle]
      rfl
    · rename_i hidle
      cases h
      change _ = ({ s.ctl with ctlr := if s.ctlr = .idle then .active else s.ctlr } : Ctl)
      rw [if_neg hidle]
      rfl
  | ctlrStop =>
    simp only [perform] at h
    split at h
    · rename_i hactive
      cases h
      have hplain : ∀ a ∈ params.chans.map Action.chanStop, a.serial = false := by
        simp [Action.serial]
      rw [Ctl.run_append, Ctl.run_plain _ hplain]
      change _ = ({ s.ctl with ctlr := if s.ctlr = .active then .idle else s.ctlr } : Ctl)
      rw [if_pos hactive]
      rfl
    · rename_i hactive
      cases h
      change _ = ({ s.ctl with ctlr := if s.ctlr = .active then .idle else s.ctlr } : Ctl)
      rw [if_neg hactive]
      rfl
  | deactivate p =>
    simp only [perform] at h
    split at h
    · cases h
      rfl
    · cases h
  | close p =>
    cases h
    change _ = s.ctl.close p
    unfold Ctl.close
    rw [show s.ctl.opened p = s.opened p from rfl]
    split
    · rw [Ctl.run_cons, run_ndoStop]
      rfl
    · rfl
  | _ => first | exact absurd rfl hserial | (cases h; rfl)

/-- The controller's stop under way still has to stop the channels that are on, and with the
controller off none is. -/
structure Stopping (params : CpswParams) (s : State) (line : List Action) : Prop where
  quiet : s.ctlr ≠ .teardown → ∀ a ∈ line, a.stops = false
  busy : s.ctlr = .teardown → ∃ front rest, line = front ++ .ctlrStopEnd :: rest ∧
    (∀ a ∈ front, (∃ ch, a = .chanStop ch) ∨ ∃ ch, a = .chanTeardown ch) ∧
    (∀ a ∈ rest, a.stops = false) ∧
    ∀ ch ∈ params.chans, s.chan ch = .active → .chanStop ch ∈ front
  idle : s.ctlr = .idle → ∀ ch ∈ params.chans, s.chan ch ≠ .active

/-- `failed` is whether the shared resources of an open could not be set up. -/
structure Inv (params : CpswParams) (failed : Prop) (s : State) : Prop where
  paid : Paid ledger (Owed params s) s.code
  stopping : Stopping params s (s.code .rtnl)
  plain : ∀ t ≠ .rtnl, ∀ a ∈ s.code t, a.serial = false
  ends : failed ∧ (s.ctl.run (s.code .rtnl)).hung = true ∨
    (s.ctl.run (s.code .rtnl)).Standing .active

variable {line : List Action} {failed : Prop}

theorem Stopping.teardown_of_stops (h : Stopping params s line) (ha : a ∈ line)
    (hstops : a.stops = true) : s.ctlr = .teardown := by
  by_contra hne
  rw [h.quiet hne a ha] at hstops
  cases hstops

theorem perform_code (h : perform params s a = some (s', new)) : s'.code = s.code := by
  cases a <;> simp only [perform] at h <;> (try split at h) <;> cases h <;> rfl

/-- A thread other than the network stack's leaves its line and the controller alone, and turns a
channel on only while the controller is on. -/
theorem Stopping.other (h : Stopping params s line) (hp : perform params s a = some (s', new))
    (ha : a.serial = false) : Stopping params s' line := by
  have hctlr : s'.ctlr = s.ctlr := congrArg Ctl.ctlr (ctl_plain hp ha)
  have hchan : s.ctlr ≠ .active → ∀ ch, s'.chan ch = .active → s.chan ch = .active := by
    intro hne ch hon
    rw [perform_chan ch hp] at hon
    cases a <;> grind
  refine ⟨fun hne => ?_, fun heq => ?_, fun heq ch hmem hon => ?_⟩
  · exact h.quiet (hctlr ▸ hne)
  · rw [hctlr] at heq
    obtain ⟨front, rest, hline, hfront, hrest, hstops⟩ := h.busy heq
    refine ⟨front, rest, hline, hfront, hrest, fun ch hmem hon => hstops ch hmem ?_⟩
    exact hchan (by rw [heq]; exact CpdmaState.noConfusion) ch hon
  · rw [hctlr] at heq
    exact h.idle heq ch hmem (hchan (by rw [heq]; exact CpdmaState.noConfusion) ch hon)

theorem ndoStop_not_stops (usageCount : ℤ) : ∀ a ∈ cpswNdoStop usageCount, a.stops = false := by
  unfold cpswNdoStop
  split <;> decide

theorem calls_not_stops (h : perform params s a = some (s', new)) (ha : a.stops = false)
    (hne : a ≠ .ctlrStop) : ∀ c ∈ new, c.stops = false := by
  have hnew := perform_calls h
  intro c hc
  cases a with
  | close p =>
    rw [hnew] at hc
    dsimp only at hc
    split at hc
    · rcases List.mem_cons.mp hc with rfl | hstop
      · rfl
      · exact ndoStop_not_stops _ c hstop
    · cases hc
  | _ => grind [Action.stops]

/-- The stop of the controller stops a channel, or comes to its end. -/
theorem Stopping.goOn (h : Stopping params s (a :: as))
    (hp : perform params s a = some (s', new)) (hteardown : s.ctlr = .teardown) :
    Stopping params s' (new ++ as) := by
  obtain ⟨front, rest, heq, hfront, hrest, hstops⟩ := h.busy hteardown
  have hctlr := perform_ctlr hp
  have hnew := perform_calls hp
  cases front with
  | nil =>
    obtain ⟨rfl, rfl⟩ := List.cons.inj heq
    obtain rfl : new = [] := hnew
    have hidle : s'.ctlr = .idle := hctlr
    refine ⟨fun _ => hrest, fun hne => ?_, fun _ ch hmem hon => ?_⟩
    · rw [hidle] at hne
      cases hne
    · rw [perform_chan ch hp] at hon
      exact absurd (hstops ch hmem hon) List.not_mem_nil
  | cons b front =>
    obtain ⟨rfl, rfl⟩ := List.cons.inj heq
    have hsame : s'.ctlr = .teardown := by
      rw [hctlr]
      rcases hfront a List.mem_cons_self with ⟨ch, rfl⟩ | ⟨ch, rfl⟩ <;> exact hteardown
    refine ⟨fun hne => absurd hsame hne, fun _ => ⟨new ++ front, rest,
      (List.append_assoc _ _ _).symm, fun c hc => ?_, hrest, fun ch hmem hon => ?_⟩,
      fun hidle => ?_⟩
    · rcases List.mem_append.mp hc with hc | hc
      · right
        rcases hfront a List.mem_cons_self with ⟨ch, rfl⟩ | ⟨ch, rfl⟩ <;> grind
      · exact hfront c (List.mem_cons_of_mem a hc)
    · rw [perform_chan ch hp] at hon
      refine List.mem_append_right new ?_
      rcases hfront a List.mem_cons_self with ⟨ch', rfl⟩ | ⟨ch', rfl⟩ <;>
        have hmemStop := hstops ch hmem <;> grind
    · rw [hsame] at hidle
      cases hidle

/-- The network stack's thread performs its next action. -/
theorem Stopping.own (h : Stopping params s (a :: as))
    (hp : perform params s a = some (s', new)) : Stopping params s' (new ++ as) := by
  by_cases hteardown : s.ctlr = .teardown
  · exact h.goOn hp hteardown
  have hquiet := h.quiet hteardown
  have ha := hquiet a List.mem_cons_self
  have hrest : ∀ c ∈ as, c.stops = false := fun c hc => hquiet c (List.mem_cons_of_mem a hc)
  have hctlr := perform_ctlr hp
  by_cases hstop : a = .ctlrStop ∧ s.ctlr = .active
  · obtain ⟨rfl, hactive⟩ := hstop
    have hnew : new = params.chans.map .chanStop ++ [.ctlrStopEnd] :=
      (perform_calls hp).trans (if_pos hactive)
    have hdown : s'.ctlr = .teardown := hctlr.trans (if_pos hactive)
    refine ⟨fun hne => absurd hdown hne, fun _ => ⟨params.chans.map .chanStop, as, ?_,
      fun c hc => ?_, hrest, fun ch hmem _ => List.mem_map_of_mem hmem⟩, fun hidle => ?_⟩
    · rw [hnew]
      exact List.append_assoc _ _ _
    · obtain ⟨ch, -, rfl⟩ := List.mem_map.mp hc
      exact .inl ⟨ch, rfl⟩
    · rw [hdown] at hidle
      cases hidle
  · have hnew : ∀ c ∈ new, c.stops = false := by
      by_cases hne : a = .ctlrStop
      · have hcalls := perform_calls hp
        grind
      · exact calls_not_stops hp ha hne
    have hkeep : s'.ctlr ≠ .teardown ∧ (s'.ctlr = .idle → s.ctlr = .idle) := by
      cases a <;> cases ha <;> grind
    refine ⟨fun _ c hc => ?_, fun hdown => absurd hdown hkeep.1, fun hidle ch hmem hon => ?_⟩
    · rcases List.mem_append.mp hc with hc | hc
      · exact hnew c hc
      · exact hrest c hc
    · have hidle' := hkeep.2 hidle
      refine h.idle hidle' ch hmem ?_
      rw [perform_chan ch hp] at hon
      cases a <;> grind

theorem owed_setCode (s : State) (t : Thread) (line : List Action) :
    Owed params (s.setCode t line) = Owed params s := by
  funext b
  cases b <;> rfl

/-- A thread that takes a channel down starts it again, unless it is the network stack's. -/
theorem Inv.start_due (h : Inv params failed s) {ch : ChanId} (hactive : s.ctlr = .active)
    (hdown : s.chan ch = .teardown) : ∃ u, .chanTeardown ch ∈ s.code u ∧
      ledger.opens u (.chanTeardown ch) (.start ch) := by
  obtain ⟨u, c, hc, hpays⟩ := h.paid.due (.finish ch) hdown
  have hteardown : c = .chanTeardown ch := by
    cases c <;> first | exact absurd hpays id | exact congrArg Action.chanTeardown hpays
  subst hteardown
  refine ⟨u, hc, rfl, fun hu => ?_⟩
  subst hu
  have hstopping := h.stopping.teardown_of_stops hc rfl
  rw [hactive] at hstopping
  cases hstopping

/-- A start of a channel that fails leaves it to the thread that is taking the channel down. -/
theorem Inv.start_due_after (h : Inv params failed s) {ch : ChanId}
    (hline : s.code t = .chanOn ch :: as) (hactive : s.ctlr = .active)
    (hdown : s.chan ch = .teardown) (new : List Action) :
    Due ledger (Function.update s.code t (new ++ as)) (.start ch) := by
  obtain ⟨u, hmem, hopens⟩ := h.start_due hactive hdown
  by_cases hu : u = t
  · subst hu
    rw [hline] at hmem
    have hfollows := h.paid.follows u
    rw [hline] at hfollows
    have htail := (List.mem_cons.mp hmem).resolve_left Action.noConfusion
    obtain ⟨c, hc, hpays⟩ := hfollows.2.pays_of_mem htail hopens
    exact due_of_mem (List.mem_append_right new hc) hpays
  · obtain ⟨c, hc, hpays⟩ := (h.paid.follows u).pays_of_mem hmem hopens
    exact ⟨u, c, by rwa [Function.update_of_ne hu], hpays⟩

theorem Inv.serial (h : Inv params failed s) (ha : a ∈ s.code t) : t ≠ .rtnl → a.serial = false :=
  fun ht => h.plain t ht a ha

theorem Inv.paid_perform (h : Inv params failed s) (hline : s.code t = a :: as)
    (hp : perform params s a = some (s', new)) :
    Paid ledger (Owed params s') (Function.update s.code t (new ++ as)) := by
  have hmem : a ∈ s.code t := by
    rw [hline]
    exact List.mem_cons_self
  have hfollows := h.paid.follows t
  rw [hline] at hfollows
  have hstops : t = .rtnl → a.stops = true → s.ctlr = .teardown := fun ht =>
    h.stopping.teardown_of_stops (ht ▸ hmem)
  refine h.paid.perform hline (calls_follow hp (h.serial hmem) hfollows) fun b hb => ?_
  have hdone : Accounted params s t a new b →
      opens t a b ∨ (∃ c ∈ new, pays c b) ∨ (Owed params s b ∧ ¬ pays a b) ∨
        Due ledger (Function.update s.code t (new ++ as)) b := by
    rintro (hopens | hpaid | hold)
    · exact .inl hopens
    · exact .inr (.inl hpaid)
    · exact .inr (.inr (.inl hold))
  cases b with
  | enable d => exact hdone (accounted_enable hp hb)
  | ack d => exact hdone (accounted_ack hp hb)
  | unmask ch => exact hdone (accounted_unmask hp h.stopping.idle hb)
  | finish ch => exact hdone (accounted_finish hp hb)
  | start ch =>
    rcases accounted_start hp hstops hb with haccounted | ⟨rfl, hdown⟩
    · exact hdone haccounted
    · have hctlr : s.ctlr = .active := (perform_ctlr hp).symm.trans hb.2.1
      exact .inr (.inr (.inr (h.start_due_after hline hctlr hdown new)))

theorem Stopping.setCode (h : Stopping params s line) (t : Thread) (as : List Action) :
    Stopping params (s.setCode t as) line :=
  ⟨h.quiet, h.busy, h.idle⟩

theorem Inv.run (h : Inv params failed s) (hst : step params s (.run t) = some s') :
    Inv params failed s' := by
  simp only [step] at hst
  split at hst
  · cases hst
  rename_i a as hline
  obtain ⟨⟨s₁, new⟩, hp, rfl⟩ := Option.map_eq_some_iff.mp hst
  have hmem : a ∈ s.code t := by
    rw [hline]
    exact List.mem_cons_self
  have hcode : (s₁.setCode t (new ++ as)).code = Function.update s.code t (new ++ as) := by
    rw [State.setCode, perform_code hp]
  have hpaid := h.paid_perform hline hp
  by_cases ht : t = .rtnl
  · subst ht
    have hown : (s₁.setCode .rtnl (new ++ as)).code .rtnl = new ++ as := by
      rw [hcode, Function.update_self]
    refine ⟨?_, ?_, fun u hu => ?_, ?_⟩
    · rw [owed_setCode, hcode]
      exact hpaid
    · rw [hown]
      have hstopping := h.stopping
      rw [hline] at hstopping
      exact (hstopping.own hp).setCode _ _
    · rw [hcode, Function.update_of_ne hu]
      exact h.plain u hu
    · have hends := h.ends
      rw [hline, Ctl.run_cons, ← ctl_perform hp, ← Ctl.run_append] at hends
      rw [hown]
      exact hends
  · have hother : (s₁.setCode t (new ++ as)).code .rtnl = s.code .rtnl := by
      rw [hcode, Function.update_of_ne (Ne.symm ht)]
    have ha := h.plain t ht a hmem
    refine ⟨?_, ?_, fun u hu => ?_, ?_⟩
    · rw [owed_setCode, hcode]
      exact hpaid
    · rw [hother]
      exact (h.stopping.other hp ha).setCode _ _
    · rw [hcode]
      by_cases hut : u = t
      · subst hut
        rw [Function.update_self]
        intro c hc
        rcases List.mem_append.mp hc with hc | hc
        · exact calls_plain hp ha c hc
        · refine h.plain u hu c ?_
          rw [hline]
          exact List.mem_cons_of_mem a hc
      · rw [Function.update_of_ne hut]
        exact h.plain u hu
    · rw [hother]
      change failed ∧ (s₁.ctl.run _).hung = true ∨ (s₁.ctl.run _).Standing .active
      rw [ctl_plain hp ha]
      exact h.ends

/-- A thread of its own starts: a handler, a poll, the watchdog or netpoll. -/
theorem Inv.startOther (h : Inv params failed s) (ht : t ≠ .rtnl) (hst : s.start t line = some s')
    (hfollows : Follows ledger t line) (hplain : ∀ a ∈ line, a.serial = false) :
    Inv params failed s' := by
  unfold State.start at hst
  split at hst
  · rename_i hidle
    cases hst
    have hother := code_setCode_ne s (Ne.symm ht) line
    refine ⟨?_, ?_, fun u hu => ?_, ?_⟩
    · rw [owed_setCode]
      exact h.paid.start hidle hfollows fun b hb => .inl hb
    · rw [hother]
      exact h.stopping.setCode _ _
    · by_cases hut : u = t
      · subst hut
        rw [code_setCode_self]
        exact hplain
      · rw [code_setCode_ne s hut]
        exact h.plain u hu
    · rw [hother]
      exact h.ends
  · cases hst

/-- A completion interrupts the CPU, whose handler will acknowledge it. -/
theorem Inv.interrupt (h : Inv params failed s) {ch : ChanId}
    (hst : step params s (.interrupt ch) = some s') : Inv params failed s' := by
  simp only [step] at hst
  split at hst
  swap
  · cases hst
  unfold State.start at hst
  split at hst
  swap
  · cases hst
  rename_i hidle
  cases hst
  refine ⟨?_, ?_, fun u hu => ?_, ?_⟩
  · rw [owed_setCode]
    refine h.paid.start hidle (follows_interrupt _ _) fun b hb => ?_
    cases b with
    | ack d =>
      by_cases hd : d = dirOf ch
      · exact .inr ⟨.eoi (dirOf ch), by simp [cpswInterrupt], hd.symm⟩
      · refine .inl ?_
        have hack : Function.update s.acked (dirOf ch) false d = false := hb
        rwa [Function.update_of_ne hd] at hack
    | _ => exact .inl hb
  · rw [code_setCode_ne _ Thread.noConfusion]
    exact ⟨h.stopping.quiet, h.stopping.busy, h.stopping.idle⟩
  · by_cases hut : u = .handler (dirOf ch)
    · subst hut
      rw [code_setCode_self]
      simp [cpswInterrupt, Action.serial]
    · rw [code_setCode_ne _ hut]
      exact h.plain u hu
  · rw [code_setCode_ne _ Thread.noConfusion]
    exact h.ends

/-- The network stack calls the driver, with nothing under way in its thread. -/
theorem Inv.startOwn (h : Inv params failed s) (hst : s.start .rtnl line = some s')
    (hfollows : Follows ledger .rtnl line) (hquiet : ∀ a ∈ line, a.stops = false)
    (hends : s.ctl.Standing .active → failed ∧ (s.ctl.run line).hung = true ∨
      (s.ctl.run line).Standing .active) : Inv params failed s' := by
  unfold State.start at hst
  split at hst
  swap
  · cases hst
  rename_i hidle
  cases hst
  have hown := code_setCode_self s .rtnl line
  have hstanding : s.ctl.Standing .active := by
    have hends := h.ends
    rw [hidle] at hends
    exact hends.resolve_left fun hung => Bool.noConfusion hung.2
  have hne : s.ctlr ≠ .teardown := by
    intro heq
    obtain ⟨front, rest, hline, -⟩ := h.stopping.busy heq
    rw [hidle] at hline
    exact List.append_ne_nil_of_right_ne_nil front (List.cons_ne_nil _ _) hline.symm
  refine ⟨?_, ?_, fun u hu => ?_, ?_⟩
  · rw [owed_setCode]
    exact h.paid.start hidle hfollows fun b hb => .inl hb
  · rw [hown]
    exact ⟨fun _ => hquiet, fun heq => absurd heq hne, h.stopping.idle⟩
  · rw [code_setCode_ne s hu]
    exact h.plain u hu
  · rw [hown]
    exact hends hstanding

theorem txTimeout_plain : ∀ a ∈ cpswNdoTxTimeout params, a.serial = false := by
  intro a ha
  simp only [cpswNdoTxTimeout, List.mem_append, List.mem_flatMap] at ha
  rcases ha with (ha | ⟨ch, -, ha⟩) | ha
  · revert a
    decide
  · rcases List.mem_pair.mp ha with rfl | rfl <;> rfl
  · revert a
    decide

theorem ndoOpen_quiet (usageCount : ℤ) (p : Port) (granted : Bool) :
    ∀ a ∈ cpswNdoOpen usageCount p granted, a.stops = false := by
  unfold cpswNdoOpen
  split
  · exact ndoStop_not_stops usageCount
  · intro a ha
    simp only [List.mem_append] at ha
    rcases ha with ((ha | ha) | ha) | ha
    · split at ha
      · rcases List.mem_pair.mp ha with rfl | rfl <;> rfl
      · cases ha
    · obtain rfl := List.mem_singleton.mp ha
      rfl
    · revert a
      decide
    · rcases List.mem_pair.mp ha with rfl | rfl <;> rfl

theorem setRingparam_quiet (usageCount : ℤ) (resumed : Bool) :
    ∀ a ∈ cpswSetRingparam usageCount resumed, a.stops = false := by
  unfold cpswSetRingparam cpswResumeDataPass
  cases resumed with
  | true =>
    rw [if_pos rfl]
    split <;> decide
  | false =>
    rw [if_neg Bool.false_ne_true]
    decide

theorem Inv.step (h : Inv params failed s) {op : Op}
    (hop : ∀ p, op = .ndoOpen p false → failed) (hst : step params s op = some s') :
    Inv params failed s' := by
  cases op with
  | interrupt ch => exact h.interrupt hst
  | run t => exact h.run hst
  | poll d full =>
    simp only [Interrupts.step] at hst
    split at hst
    · refine h.startOther Thread.noConfusion hst (follows_mqPoll _ d full) ?_
      cases full <;> simp [cpswMqPoll, Action.serial]
    · cases hst
  | txTimeout p =>
    simp only [Interrupts.step] at hst
    split at hst
    · exact h.startOther Thread.noConfusion hst (follows_txTimeout _) txTimeout_plain
    · cases hst
  | pollController p =>
    simp only [Interrupts.step] at hst
    split at hst
    · exact h.startOther Thread.noConfusion hst (follows_pollController _) (by decide)
    · cases hst
  | ndoOpen p granted =>
    simp only [Interrupts.step] at hst
    split at hst
    · cases hst
    · rename_i hclosed
      refine h.startOwn hst (follows_ndoOpen _ _ p granted) (ndoOpen_quiet _ p granted) fun hs => ?_
      rcases hs.ndoOpen (Bool.not_eq_true _ ▸ hclosed) granted with ⟨rfl, hhung⟩ | hstanding
      · exact .inl ⟨hop p rfl, hhung⟩
      · exact .inr hstanding
  | ndoStop p =>
    simp only [Interrupts.step] at hst
    split at hst
    · refine h.startOwn hst ⟨fun b hb => by cases b <;> exact absurd hb id, trivial⟩ ?_
        fun hs => .inr (hs.close CpdmaState.noConfusion p).1
      intro a ha
      obtain rfl := List.mem_singleton.mp ha
      rfl
    · cases hst
  | setRingparam resumed =>
    exact h.startOwn hst (follows_setRingparam _ _ resumed) (setRingparam_quiet _ resumed)
      fun hs => .inr (hs.setRingparam resumed)

theorem Initial.inv (h : Initial s) : Inv params failed s := by
  refine ⟨⟨fun t => ?_, fun b hb => ?_⟩, ⟨fun _ a ha => ?_, fun heq => ?_, fun _ ch _ hon => ?_⟩,
    fun t _ a ha => ?_, .inr ?_⟩
  · rw [h.code]
    trivial
  · cases b with
    | enable d =>
      have hidle : s.napi d = .idle := hb.2.1
      rw [h.napi] at hidle
      cases hidle
    | ack d =>
      have hack : s.acked d = false := hb
      rw [h.acked] at hack
      cases hack
    | start ch =>
      have hctlr : s.ctlr = .active := hb.2.1
      rw [h.ctlr] at hctlr
      cases hctlr
    | unmask ch =>
      have hctlr : s.ctlr = .active := hb.2.1
      rw [h.ctlr] at hctlr
      cases hctlr
    | finish ch =>
      have hchan : s.chan ch = .teardown := hb
      rw [h.chan] at hchan
      cases hchan
  · rw [h.code] at ha
    cases ha
  · rw [h.ctlr] at heq
    cases heq
  · rw [h.chan] at hon
    cases hon
  · rw [h.code] at ha
    cases ha
  · rw [h.code]
    refine ⟨?_, fun hne => absurd h.usageCount hne, fun _ => ⟨h.ctlr, fun d => ?_⟩, h.disabling,
      rfl⟩
    · simp [State.ctl, h.usageCount, h.opened]
    · simp [State.ctl, h.napi]

theorem Inv.standing (h : Inv params failed s) (hidle : ∀ t, s.code t = []) :
    s.ctl.Standing .active := by
  have hends := h.ends
  rw [hidle] at hends
  exact hends.resolve_left fun hung => Bool.noConfusion hung.2

/-- With nothing under way nothing is owed: a channel can interrupt if its NAPI is not scheduled. -/
theorem Inv.listens (h : Inv params failed s) (hidle : ∀ t, s.code t = []) {p : Port}
    (hp : s.opened p = true) {ch : ChanId} (hmem : ch ∈ params.chans)
    (hqueued : (s.napi (dirOf ch)).queued = false) :
    (Interrupts.step params s (.interrupt ch)).isSome := by
  have hstanding := h.standing hidle
  have hpos := hstanding.usageCount_pos hp
  obtain ⟨hactive, hon⟩ := hstanding.up (by omega)
  have hnone := h.paid.nothing_owed hidle
  have hnapi : s.napi (dirOf ch) = .idle := by
    cases hn : s.napi (dirOf ch) with
    | off =>
      have hoff := hon (dirOf ch)
      simp [State.ctl, hn] at hoff
    | idle => rfl
    | sched | missed =>
      rw [hn] at hqueued
      cases hqueued
  have hen : s.en (dirOf ch) = true := by
    by_contra hne
    exact hnone (.enable (dirOf ch))
      ⟨hactive, hnapi, hstanding.disabling _, Bool.not_eq_true _ ▸ hne⟩
  have hacked : s.acked (dirOf ch) = true := by
    by_contra hne
    exact hnone (.ack (dirOf ch)) (show s.acked _ = false from Bool.not_eq_true _ ▸ hne)
  have hchan : s.chan ch = .active := by
    by_contra hne
    exact hnone (.start ch) ⟨hmem, hactive, hne⟩
  have hmask : s.mask ch = true := by
    by_contra hne
    exact hnone (.unmask ch) ⟨hmem, hactive, hchan, Bool.not_eq_true _ ▸ hne⟩
  have hlistens : s.listens params ch = true := by
    simp [State.listens, hmem, hchan, hmask, hen, hacked]
  simp [Interrupts.step, hlistens, State.start, hidle]

/-- With no net device open the controller is off, and no channel of it is on. -/
theorem Inv.silent (h : Inv params failed s) (hidle : ∀ t, s.code t = [])
    (hdown : ∀ p, s.opened p = false) {ch : ChanId} (hmem : ch ∈ params.chans) :
    Interrupts.step params s (.interrupt ch) = none := by
  have hstanding := h.standing hidle
  have hzero : s.ctl.usageCount = 0 := by
    rw [hstanding.count, show s.ctl.opened = s.opened from rfl, hdown, hdown]
    rfl
  have hctlr : s.ctlr = .idle := (hstanding.down hzero).1
  have hchan := h.stopping.idle hctlr ch hmem
  have hlistens : s.listens params ch = false := by
    simp [State.listens, hchan]
  simp [Interrupts.step, hlistens]

def others : List Thread :=
  [.handler .rx, .handler .tx, .poll .rx, .poll .tx, .watchdog 0, .watchdog 1, .netpoll 0,
    .netpoll 1]

theorem mem_others (ht : t ≠ .rtnl) : t ∈ others := by
  cases t with
  | handler d | poll d => cases d <;> decide
  | watchdog p | netpoll p => rcases Ctl.port_cases p with rfl | rfl <;> decide
  | rtnl => exact absurd rfl ht

/-- In every run, with nothing under way: while a net device is open each channel can interrupt the
CPU, or the softirq has its NAPI to poll; and with both of them down no channel interrupts. -/
theorem noticed_of_run (h : Initial s) {ops : List Op}
    (hrun : Run (step params) anyStep s ops s') (hidle : ∀ t, s'.code t = []) {ch : ChanId}
    (hmem : ch ∈ params.chans) :
    ((∃ p, s'.opened p = true) → (step params s' (.interrupt ch)).isSome ∨
      ∀ full, (step params s' (.poll (dirOf ch) full)).isSome) ∧
    ((∀ p, s'.opened p = false) → step params s' (.interrupt ch) = none) := by
  have hinv : Inv params True s' :=
    hrun.invariant (fun _ _ _ hi _ hst => hi.step (fun _ _ => trivial) hst) h.inv
  refine ⟨fun ⟨p, hp⟩ => ?_, fun hdown => hinv.silent hidle hdown hmem⟩
  cases hqueued : (s'.napi (dirOf ch)).queued with
  | true =>
    right
    intro full
    simp [Interrupts.step, hqueued, State.start, hidle]
  | false => exact .inl (hinv.listens hidle hp hmem hqueued)

def oneOfEach : CpswParams where
  chans := [0, 32]
  txv := [0]
  rateLimited := fun _ => false

def downState : State where
  en := fun _ => false
  acked := fun _ => true
  napi := fun _ => .off
  disabling := fun _ => false
  ctlr := .idle
  chan := fun _ => .idle
  mask := fun _ => false
  usageCount := 0
  opened := fun _ => false
  code := fun _ => []

/-- An open, and then a handler, a poll and the watchdog that get into each other's way. -/
def busyRun : List Op :=
  .ndoOpen 0 true :: List.replicate 12 (.run .rtnl) ++
  [.interrupt 32, .run (.handler .rx), .txTimeout 0, .run (.watchdog 0), .run (.handler .rx),
    .run (.handler .rx), .poll .rx false, .run (.watchdog 0), .run (.poll .rx)] ++
  List.replicate 12 (.run (.watchdog 0)) ++ [.run (.poll .rx)]

/-- Nothing is under way any more, and the device is open. -/
theorem noticed_after_watchdog : ∃ s', (s'.opened 0 && !(s'.napi .rx).queued) = true ∧
    (((∃ p, s'.opened p = true) → (step oneOfEach s' (.interrupt 32)).isSome ∨
      ∀ full, (step oneOfEach s' (.poll .rx full)).isSome) ∧
    ((∀ p, s'.opened p = false) → step oneOfEach s' (.interrupt 32) = none)) := by
  have htest : (exec (step oneOfEach) anyStep downState busyRun).any (fun s =>
      s.opened 0 && !(s.napi .rx).queued && (.rtnl :: others).all fun t => s.code t == []) =
      true := by decide +kernel
  obtain ⟨s', hrun, htest'⟩ := exists_run_of_any htest
  rw [Bool.and_eq_true, List.all_eq_true] at htest'
  obtain ⟨hopened, hcode⟩ := htest'
  have hidle : ∀ t, s'.code t = [] := by
    intro t
    have hmem : t ∈ .rtnl :: others := by
      by_cases ht : t = .rtnl
      · exact List.mem_cons.mpr (.inl ht)
      · exact List.mem_cons_of_mem _ (mem_others ht)
    exact eq_of_beq (hcode t hmem)
  have hstart : Initial downState :=
    ⟨fun _ => rfl, fun _ => rfl, fun _ => rfl, rfl, fun _ => rfl, rfl, fun _ => rfl, fun _ => rfl⟩
  exact ⟨s', hopened, noticed_of_run hstart hrun hidle (by decide)⟩

end CpswDriver.Interrupts
