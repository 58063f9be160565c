import CpswDriver.Cpdma.Phases

/-!
Every accepted packet is handed back once, in every interleaving of the calls.
Only the end of cpdma_chan_stop makes a channel idle again, and it comes when
the queue is empty: then all that the channel has accepted was handed back.
-/

namespace CpswDriver.Cpdma

open CallTable LinkedList Ownership Runs

variable {τ : Type*} {params : CpdmaParams} {s s' : State τ} {i : ℕ} {ch : ChanId}
  {chan chan' : CpdmaChan}

def KeepsBusy (c c' : CpdmaCtlr τ) : Prop :=
  ∀ ch, chanStates c'.channels ch = some .idle →
    chanStates c.channels ch = none ∨ chanStates c.channels ch = some .idle

theorem KeepsBusy.of_same {c c' : CpdmaCtlr τ}
    (h : chanStates c'.channels = chanStates c.channels) : KeepsBusy c c' := by
  intro ch hidle
  rw [h] at hidle
  exact .inr hidle

theorem KeepsBusy.of_update {c c' : CpdmaCtlr τ} {state : CpdmaState}
    (h : chanStates c'.channels = Function.update (chanStates c.channels) ch (some state))
    (hstate : state ≠ .idle ∨ chanStates c.channels ch = none) : KeepsBusy c c' := by
  intro ch' hidle
  rw [h] at hidle
  by_cases hch : ch' = ch
  · rw [hch, Function.update_self] at hidle
    rw [hch]
    exact .inl (hstate.resolve_left (not_not.mpr (Option.some.inj hidle)))
  · rw [Function.update_of_ne hch] at hidle
    exact .inr hidle

theorem KeepsBusy.of_life (h : lifeOf s' = lifeOf s) : KeepsBusy s.ctlr s'.ctlr :=
  .of_same (congrArg Life.chan h)

theorem processStep_keepsBusy {onFail : Pc τ} {k : U32 → Cont}
    (hch : s.ctlr.channels ch = some chan) :
    KeepsBusy s.ctlr (processStep params s i ch chan onFail k).ctlr := by
  have hstate := processLocked_state params.pool s.ctlr.mem chan
  refine .of_same ?_
  unfold processStep
  split
  · rename_i heq
    rw [heq] at hstate
    exact chanStates_keep hch hstate
  · rename_i heq
    rw [heq] at hstate
    exact chanStates_keep hch hstate

theorem stopBeginStep_keepsBusy {ret : StopRet} :
    KeepsBusy s.ctlr (stopBeginStep s i ch chan ret).ctlr := by
  unfold stopBeginStep
  split
  · exact .of_same rfl
  · have hstates : chanStates (teardownStart s.ctlr ch chan).channels =
        Function.update (chanStates s.ctlr.channels) ch (some .teardown) := by
      dsimp only [teardownStart, CpdmaCtlr.setChan]
      rw [chanStates_update]
      rfl
    exact .of_update hstates (.inl (by decide))

theorem cpdmaChanOn_keepsBusy {c c' : CpdmaCtlr τ} (hchans : c'.channels = c.channels) :
    KeepsBusy c (cpdmaChanOn params c' ch chan).1 := by
  rcases cpdmaChanOn_states params c' ch chan with hsame | ⟨-, -, -, hstates⟩
  · rw [hsame]
    exact .of_same (congrArg chanStates hchans)
  · rw [hchans] at hstates
    exact .of_update hstates (.inl (by decide))

/-- A section of a call keeps channels busy, or is the end of a stop. -/
theorem advance_keepsBusy {pc : Pc τ} (hst : advance params s i pc = some s') :
    KeepsBusy s.ctlr s'.ctlr ∨ ∃ ch chan ret, pc = .stopClean ch ret ∧
      s.ctlr.channels ch = some chan ∧ chan.head = 0 ∧
        s' = stopCleanStep params s i ch chan ret := by
  cases pc with
  | done ret => cases hst
  | process ch quota used =>
    simp only [advance] at hst
    split at hst
    · obtain ⟨chan, hch, rfl⟩ := Option.map_eq_some_iff.mp hst
      exact .inl (processStep_keepsBusy hch)
    · obtain rfl := Option.some.inj hst
      exact .inl (.of_same rfl)
  | chanFree ch desc outlen status k =>
    obtain rfl := Option.some.inj hst
    exact .inl (.of_same rfl)
  | handler ch item outlen status k =>
    obtain rfl := Option.some.inj hst
    exact .inl (.of_same rfl)
  | stopBegin ch ret =>
    obtain ⟨chan, -, rfl⟩ := Option.map_eq_some_iff.mp hst
    exact .inl stopBeginStep_keepsBusy
  | stopDrain ch ret =>
    obtain ⟨chan, hch, rfl⟩ := Option.map_eq_some_iff.mp hst
    exact .inl (processStep_keepsBusy hch)
  | stopClean ch ret =>
    obtain ⟨chan, hch, rfl⟩ := Option.map_eq_some_iff.mp hst
    by_cases hhead : chan.head = 0
    · exact .inr ⟨ch, chan, ret, rfl, hch, hhead, rfl⟩
    · refine .inl (.of_same ?_)
      unfold stopCleanStep
      rw [if_neg hhead]
      exact chanStates_keep hch rfl
  | chanOn ch =>
    obtain ⟨chan, -, rfl⟩ := Option.map_eq_some_iff.mp hst
    exact .inl (cpdmaChanOn_keepsBusy rfl)
  | ctlrStart j prioMode =>
    simp only [advance] at hst
    split at hst
    · split at hst
      · obtain rfl := Option.some.inj hst
        exact .inl (.of_same rfl)
      · obtain rfl := Option.some.inj hst
        exact .inl (cpdmaChanOn_keepsBusy cpdmaChanSetChanShaper_channels)
    · obtain rfl := Option.some.inj hst
      exact .inl (.of_same (congrArg chanStates (ctlrStartEnd_states params s.ctlr prioMode).2))
  | ctlrStop j =>
    simp only [advance] at hst
    split at hst
    · split at hst
      · obtain rfl := Option.some.inj hst
        exact .inl (.of_same rfl)
      · obtain rfl := Option.some.inj hst
        exact .inl stopBeginStep_keepsBusy
    · split at hst
      · obtain rfl := Option.some.inj hst
        exact .inl (.of_same rfl)
      · cases hst

theorem step_keepsBusy {op : Op τ} (hst : step params s op = some s') :
    KeepsBusy s.ctlr s'.ctlr ∨ ∃ i ch chan ret, s.calls[i]? = some (.stopClean ch ret) ∧
      s.ctlr.channels ch = some chan ∧ chan.head = 0 ∧
        s' = stopCleanStep params s i ch chan ret := by
  cases op with
  | submit kind ch args mapped =>
    obtain ⟨chan, hch, rfl⟩ := Option.map_eq_some_iff.mp hst
    exact .inl (.of_life (submitStep_life hch))
  | engine desc hwMode hwLen =>
    obtain rfl := Option.some.inj hst
    exact .inl (.of_same rfl)
  | engineHdp ch hdp =>
    obtain ⟨chan, hch, rfl⟩ := Option.map_eq_some_iff.mp hst
    exact .inl (.of_same (chanStates_keep hch rfl))
  | chanProcess ch quota =>
    obtain ⟨chan, -, rfl⟩ := Option.map_eq_some_iff.mp hst
    exact .inl (.of_same rfl)
  | chanStop ch =>
    obtain ⟨chan, -, rfl⟩ := Option.map_eq_some_iff.mp hst
    exact .inl (.of_same rfl)
  | chanStart ch =>
    obtain ⟨-, chan, -, rfl⟩ := step_chanStart hst
    exact .inl (.of_same (congrArg chanStates cpdmaChanSetChanShaper_channels))
  | ctlrStart =>
    obtain ⟨-, ⟨-, rfl⟩ | ⟨-, rfl⟩⟩ := step_ctlrStart hst
    · exact .inl (.of_same rfl)
    · exact .inl (.of_same (ctlrStartBegin_states params s.ctlr).2)
  | ctlrStop =>
    obtain ⟨-, ⟨-, rfl⟩ | ⟨-, rfl⟩⟩ := step_ctlrStop hst
    · exact .inl (.of_same rfl)
    · exact .inl (.of_same rfl)
  | chanCreate ch zalloc =>
    simp only [step] at hst
    split at hst
    · cases hst
    obtain rfl := Option.some.inj hst
    rcases cpdmaChanCreate_states params s.ctlr ch zalloc with hsame | ⟨hnone, -, hstates⟩
    · rw [hsame]
      exact .inl (.of_same rfl)
    · refine .inl (.of_update hstates (.inr ?_))
      unfold chanStates
      rw [hnone, Option.map_none]
  | setWeight ch weight =>
    simp only [step] at hst
    split at hst
    · cases hst
    obtain ⟨chan, hch, rfl⟩ := Option.map_eq_some_iff.mp hst
    exact .inl (.of_same (cpdmaChanSetWeight_states hch weight).2)
  | setNumRxDescs numRxDesc =>
    simp only [step] at hst
    split at hst
    · cases hst
    obtain rfl := Option.some.inj hst
    exact .inl (.of_same (cpdmaSetNumRxDescs_states params s.ctlr numRxDesc).2)
  | advance i =>
    obtain ⟨pc, hi, hst⟩ := Option.bind_eq_some_iff.mp hst
    rcases advance_keepsBusy hst with hkeeps | ⟨ch, chan, ret, rfl, hrest⟩
    · exact .inl hkeeps
    · exact .inr ⟨i, ch, chan, ret, hi, hrest⟩

/-- A channel becomes idle only at the end of a stop, which finds its queue empty. -/
theorem step_idle {op : Op τ} (hst : step params s op = some s')
    (hch : s.ctlr.channels ch = some chan) (hbusy : chan.state ≠ .idle)
    (hch' : s'.ctlr.channels ch = some chan') (hidle : chan'.state = .idle) :
    ∃ i ret, s.calls[i]? = some (.stopClean ch ret) ∧ chan.head = 0 ∧
      s' = stopCleanStep params s i ch chan ret := by
  have hold : chanStates s.ctlr.channels ch = some chan.state := by
    unfold chanStates
    rw [hch, Option.map_some]
  have hnew : chanStates s'.ctlr.channels ch = some .idle := by
    unfold chanStates
    rw [hch', Option.map_some, hidle]
  rcases step_keepsBusy hst with hkeeps | ⟨i, ch₀, chan₀, ret, hi, hch₀, hhead, rfl⟩
  · rcases hkeeps ch hnew with hnone | hsome
    · rw [hold] at hnone
      cases hnone
    · rw [hold] at hsome
      exact absurd (Option.some.inj hsome) hbusy
  · by_cases heq : ch = ch₀
    · subst heq
      obtain rfl := Option.some.inj (hch.symm.trans hch₀)
      exact ⟨i, ret, hi, hhead, rfl⟩
    · have hkept : (stopCleanStep params s i ch₀ chan₀ ret).ctlr.channels ch = some chan := by
        unfold stopCleanStep
        rw [if_pos hhead]
        exact (Function.update_of_ne heq _ _).trans hch
      obtain rfl := Option.some.inj (hch'.symm.trans hkept)
      exact absurd hidle hbusy

/-- What the channel code promises of a state it has reached. -/
structure HandedBack (params : CpdmaParams) (s : State τ) : Prop where
  /-- hw_next leads from the head over `count` distinct allocated descriptors
  to the tail, and there it is 0 -/
  queue : ∀ ch chan, s.ctlr.channels ch = some chan →
    (queueOf params.pool s.ctlr.mem chan).length = chan.count ∧
    Chain 0 (nextDesc params.pool s.ctlr.mem) chan.head (queueOf params.pool s.ctlr.mem chan) ∧
    (queueOf params.pool s.ctlr.mem chan).Nodup ∧
    (∀ d ∈ queueOf params.pool s.ctlr.mem chan, d ∈ params.pool.descs ∧ d ∉ s.ctlr.avail) ∧
    (chan.head ≠ 0 → (queueOf params.pool s.ctlr.mem chan).getLast? = some chan.tail ∧
      (s.ctlr.mem chan.tail).hwNext = 0) ∧
    (chan.head = 0 ↔ chan.count = 0)
  /-- the packets taken off a queue are, in order, the first that it accepted -/
  order : ∀ ch chan, s.ctlr.channels ch = some chan → s.accepted ch =
    s.removed ch ++ (queueOf params.pool s.ctlr.mem chan).map (itemAt s.ctlr.mem)
  /-- each of them has reached the handler once or is with a call that will pass it on -/
  once : ∀ ch, (s.removed ch : Multiset (Item τ)) =
    s.handled ch + total (Pc.items s.ctlr.mem ch) s.calls
  /-- a refused submit touches nothing but a counter -/
  refused : ∀ kind ch chan args mapped, s.ctlr.channels ch = some chan →
    (submitStep params s kind ch chan args mapped).2 ≠ 0 → ∃ stats,
      (submitStep params s kind ch chan args mapped).1 = s.setChan ch { chan with stats := stats }
  /-- a channel that a step makes idle is empty, and unless another call still has a packet of it
  all that it has accepted was handed to the handler -/
  stopped : ∀ op t ch chan chan', step params s op = some t →
    s.ctlr.channels ch = some chan → chan.state ≠ .idle →
    t.ctlr.channels ch = some chan' → chan'.state = .idle →
    queueOf params.pool t.ctlr.mem chan' = [] ∧ chan'.head = 0 ∧ chan'.count = 0 ∧
      ((∀ pc ∈ s.calls, pc.busyWith ch = false) → (t.handled ch).Perm (t.accepted ch))
  /-- cpdma_chan_stop makes it idle once it finds the queue empty -/
  ends : ∀ (i : ℕ) ch chan ret, s.ctlr.channels ch = some chan →
    s.calls[i]? = some (.stopClean ch ret) → chan.head = 0 →
    ∃ t chan', step params s (.advance i) = some t ∧ t.ctlr.channels ch = some chan' ∧
      chan'.state = .idle

/-- Along every run, in every interleaving, each accepted packet is queued in
order, taken off in order and handed back exactly once. -/
theorem handedBack_of_run {s₀ : State τ} {ls : List (Op τ)} (hinit : Initial params s₀)
    (hrun : Run (step params) LenOk s₀ ls s) : HandedBack params s := by
  obtain ⟨q, own, h⟩ := Wf.of_run hinit hrun
  refine ⟨?_, ?_, h.handed, fun kind ch chan args mapped hch hret =>
    submitStep_refused hch hret, ?_, ?_⟩
  · intro ch chan hch
    have hq := h.chan ch chan hch
    rw [h.queue hch]
    refine ⟨hq.count, hq.chain, hq.nodup, ?_, ?_, ?_⟩
    · intro d hd
      have hplace : place s q (.queued ch) d := hd
      refine ⟨h.owned.mem hplace, fun havail => ?_⟩
      cases h.owned.unique hplace (show place s q .free d from havail)
    · intro hhead
      have hlast := hq.getLast_tail hhead
      exact ⟨hlast, hq.last _ hlast⟩
    · rw [hq.head_null_iff, ← hq.count, List.length_eq_zero_iff]
  · intro ch chan hch
    rw [h.queue hch, h.order]
  · intro op t ch chan chan' hst hch hbusy hch' hidle
    obtain ⟨i, ret, -, hhead, rfl⟩ := step_idle hst hch hbusy hch' hidle
    have hq := h.chan ch chan hch
    have hnil := hq.head_null_iff.mp hhead
    unfold stopCleanStep at hch' ⊢
    rw [if_pos hhead] at hch' ⊢
    have hset : Function.update s.ctlr.channels ch (some { chan with state := .idle }) ch =
        some chan' := hch'
    rw [Function.update_self] at hset
    obtain rfl := Option.some.inj hset
    refine ⟨(h.queue hch).trans hnil, hhead, ?_, h.handled_perm hnil⟩
    rw [← hq.count, hnil]
    rfl
  · intro i ch chan ret hch hi hhead
    refine ⟨stopCleanStep params s i ch chan ret, { chan with state := .idle }, ?_, ?_, rfl⟩
    · simp [step, hi, advance, hch]
    · simp [stopCleanStep, hhead, State.setPc, State.setChan, CpdmaCtlr.setChan]

/-- Two packets are queued for receive, the second one in vain, and the channel is stopped. -/
theorem handedBack_after_stop : ∃ t u : State ℕ,
    Run (step (smallParams 2 (by decide))) LenOk
      (quiet (smallParams 2 (by decide)) 0 .idle (onePair 1 1) 1 1)
      [.submit .idleSubmit 32 ⟨7, 0, 1500, 0⟩ (some 0x4000),
       .submit .idleSubmit 32 ⟨8, 0, 1500, 0⟩ (some 0x5000),
       .chanStop 32, .advance 0, .advance 0, .advance 0, .advance 0, .advance 0] t ∧
    step (smallParams 2 (by decide)) t (.advance 0) = some u ∧
    HandedBack (smallParams 2 (by decide)) t ∧
    t.accepted 32 = [⟨7, 0x4000, 1500, false⟩] ∧ (u.handled 32).Perm (u.accepted 32) := by
  have hlen : 1500 < 2 ^ 16 := by decide
  have hrun : ∃ t u : State ℕ, Run (step (smallParams 2 (by decide))) LenOk
      (quiet (smallParams 2 (by decide)) 0 .idle (onePair 1 1) 1 1)
      [.submit .idleSubmit 32 ⟨7, 0, 1500, 0⟩ (some 0x4000),
       .submit .idleSubmit 32 ⟨8, 0, 1500, 0⟩ (some 0x5000),
       .chanStop 32, .advance 0, .advance 0, .advance 0, .advance 0, .advance 0] t ∧
      step (smallParams 2 (by decide)) t (.advance 0) = some u ∧
      t.accepted 32 = [⟨7, 0x4000, 1500, false⟩] ∧
      (∃ chan chan', t.ctlr.channels 32 = some chan ∧ chan.state = .teardown ∧
        u.ctlr.channels 32 = some chan' ∧ chan'.state = .idle) ∧
      ∀ pc ∈ t.calls, pc.busyWith 32 = false :=
    ⟨_, _, .cons hlen rfl (.cons hlen rfl (.cons trivial rfl (.cons trivial rfl (.cons trivial rfl
      (.cons trivial rfl (.cons trivial rfl (.cons trivial rfl (.nil _)))))))), rfl, rfl,
      ⟨_, _, rfl, rfl, rfl, rfl⟩, by decide⟩
  obtain ⟨t, u, hrun, hst, haccepted, ⟨chan, chan', hch, hstate, hch', hidle⟩, hbusy⟩ := hrun
  have hback := handedBack_of_run (initial_quiet _ _ _ (idle_onePair 1 1) _ _) hrun
  have hne : chan.state ≠ .idle := by
    rw [hstate]
    decide
  obtain ⟨-, -, -, hperm⟩ := hback.stopped _ u 32 chan chan' hst hch hne hch' hidle
  exact ⟨t, u, hrun, hst, hback, haccepted, hperm hbusy⟩

end CpswDriver.Cpdma
