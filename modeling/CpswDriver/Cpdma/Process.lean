import CpswDriver.Cpdma.Phases

/-!
What cpdma_chan_process returns. While the call goes on, other calls and the engine
do whatever they do. On a channel that is active when the call is made, the result
is the number of handlers that the call has called; on any other it is an error.
-/

namespace CpswDriver.Cpdma

open Runs CallTable

variable {τ : Type*} {params : CpdmaParams} {s s' t : State τ} {ch : ChanId} {chan : CpdmaChan}
  {quota : ℤ} {i n : ℕ} {pc : Pc τ}

def Pc.isHandler : Pc τ → Bool
  | .handler .. => true
  | _ => false

def handlesNow (i : ℕ) (s : State τ) : Op τ → Bool
  | .advance j => j == i && (s.calls[i]?).any Pc.isHandler
  | _ => false

/-- A step, with the number of handlers that call `i` has called. -/
def countStep (params : CpdmaParams) (i : ℕ) (v : State τ × ℕ) (op : Op τ) :
    Option (State τ × ℕ) :=
  (step params v.1 op).map fun s => (s, if handlesNow i v.1 op then v.2 + 1 else v.2)

/-- What a call of cpdma_chan_process leaves: the state, the number of handlers that it has
called and what it returns. -/
structure Processed (τ : Type*) where
  dma : State τ
  calls : ℕ
  ret : ℤ

/-- The schedule has the call's own sections and everything that goes on between them. -/
def cpdmaChanProcess (params : CpdmaParams) (sched : List (Op τ)) (s : State τ) (ch : ChanId)
    (quota : ℤ) : Option (Processed τ) :=
  (step params s (.chanProcess ch quota)).bind fun s' =>
    (exec (countStep params s.calls.length) anyStep (s', 0) sched).bind fun v =>
      match v.1.calls[s.calls.length]? with
      | some (.done ret) => some ⟨v.1, v.2, ret⟩
      | _ => none

theorem step_kept {op : Op τ} (hi : s.calls[i]? = some pc) (hop : ∀ j, op = .advance j → j ≠ i)
    (hst : step params s op = some s') : s'.calls[i]? = some pc := by
  have hspawn : ∀ {c : CpdmaCtlr τ} {lock : Option ℕ} {pc' : Pc τ},
      (({ s with ctlr := c, lock := lock } : State τ).spawn pc').calls[i]? = some pc :=
    spawn_getElem?_old hi
  cases op with
  | submit kind ch args mapped =>
    obtain ⟨chan, -, rfl⟩ := Option.map_eq_some_iff.mp hst
    unfold submitStep
    dsimp only
    split <;> exact hi
  | engine desc hwMode hwLen =>
    obtain rfl := Option.some.inj hst
    exact hi
  | engineHdp ch hdp =>
    obtain ⟨chan, -, rfl⟩ := Option.map_eq_some_iff.mp hst
    exact hi
  | chanProcess ch quota =>
    obtain ⟨chan, -, rfl⟩ := Option.map_eq_some_iff.mp hst
    exact hspawn
  | chanStop ch =>
    obtain ⟨chan, -, rfl⟩ := Option.map_eq_some_iff.mp hst
    exact hspawn
  | chanStart ch =>
    obtain ⟨-, chan, -, rfl⟩ := step_chanStart hst
    exact hspawn
  | ctlrStart =>
    obtain ⟨-, ⟨-, rfl⟩ | ⟨-, rfl⟩⟩ := step_ctlrStart hst
    · exact hspawn
    · exact hspawn
  | ctlrStop =>
    obtain ⟨-, ⟨-, rfl⟩ | ⟨-, rfl⟩⟩ := step_ctlrStop hst
    · exact hspawn
    · exact hspawn
  | chanCreate ch zalloc =>
    simp only [step] at hst
    split at hst
    · cases hst
    · obtain rfl := Option.some.inj hst
      exact hi
  | setWeight ch weight =>
    simp only [step] at hst
    split at hst
    · cases hst
    · obtain ⟨chan, -, rfl⟩ := Option.map_eq_some_iff.mp hst
      exact hi
  | setNumRxDescs numRxDesc =>
    simp only [step] at hst
    split at hst
    · cases hst
    · obtain rfl := Option.some.inj hst
      exact hi
  | advance j =>
    obtain ⟨pc', -, hadv⟩ := Option.bind_eq_some_iff.mp hst
    obtain ⟨pc'', hcalls, -⟩ := advance_calls hadv
    rw [hcalls, List.getElem?_set_ne (hop j rfl), hi]

/-- Where a call of cpdma_chan_process stands when it has called `n` handlers. -/
inductive Processing (ch : ChanId) (quota : ℤ) : Pc τ → ℕ → Prop
  | loop {n : ℕ} : (n : ℤ) ≤ max quota 0 → Processing ch quota (.process ch quota n) n
  | free {n desc : ℕ} {outlen status : ℤ} : (n : ℤ) < quota →
      Processing ch quota (.chanFree ch desc outlen status (.process quota (n + 1))) n
  | handler {n : ℕ} {item : Item τ} {outlen status : ℤ} : (n : ℤ) < quota →
      Processing ch quota (.handler ch item outlen status (.process quota (n + 1))) n
  | done {n : ℕ} : (n : ℤ) ≤ max quota 0 → Processing ch quota (.done n) n

theorem Processing.advance (h : Processing ch quota pc n) (hi : s.calls[i]? = some pc)
    (hadv : Cpdma.advance params s i pc = some s') :
    ∃ pc', s'.calls[i]? = some pc' ∧
      Processing ch quota pc' (if pc.isHandler then n + 1 else n) := by
  cases h with
  | loop hle =>
    simp only [Cpdma.advance] at hadv
    split at hadv
    · rename_i hlt
      obtain ⟨chan, hch, rfl⟩ := Option.map_eq_some_iff.mp hadv
      unfold processStep
      split
      · exact ⟨_, getElem?_set_self hi, .done hle⟩
      · exact ⟨_, getElem?_set_self hi, .free hlt⟩
    · obtain rfl := Option.some.inj hadv
      exact ⟨_, getElem?_set_self hi, .done hle⟩
  | free hlt =>
    obtain rfl := Option.some.inj hadv
    exact ⟨_, getElem?_set_self hi, .handler hlt⟩
  | handler hlt =>
    obtain rfl := Option.some.inj hadv
    refine ⟨_, getElem?_set_self hi, ?_⟩
    have hloop : Processing (τ := τ) ch quota (.process ch quota ((n + 1 : ℕ) : ℤ)) (n + 1) :=
      .loop (by omega)
    exact hloop
  | done hle => cases hadv

/-- What call `i` has counted when it stands where `at` says. -/
def Counts (stands : Pc τ → ℕ → Prop) (i : ℕ) (v : State τ × ℕ) : Prop :=
  ∃ pc, v.1.calls[i]? = some pc ∧ stands pc v.2

theorem Counts.step {stands : Pc τ → ℕ → Prop} {v w : State τ × ℕ} {op : Op τ}
    (hadv : ∀ s pc n s', stands pc n → s.calls[i]? = some pc →
      Cpdma.advance params s i pc = some s' →
      ∃ pc', s'.calls[i]? = some pc' ∧ stands pc' (if pc.isHandler then n + 1 else n))
    (h : Counts stands i v) (hst : countStep params i v op = some w) : Counts stands i w := by
  obtain ⟨pc, hi, hstands⟩ := h
  obtain ⟨s', hs, rfl⟩ := Option.map_eq_some_iff.mp hst
  by_cases hown : op = .advance i
  · subst hown
    obtain ⟨pc₀, hi₀, hs⟩ := Option.bind_eq_some_iff.mp hs
    obtain rfl := Option.some.inj (hi.symm.trans hi₀)
    obtain ⟨pc', hi', hstands'⟩ := hadv v.1 pc v.2 s' hstands hi hs
    refine ⟨pc', hi', ?_⟩
    have hnow : handlesNow i v.1 (.advance i) = pc.isHandler := by
      simp [handlesNow, hi]
    rw [hnow]
    exact hstands'
  · have hother : ∀ j, op = .advance j → j ≠ i := by
      rintro j rfl rfl
      exact hown rfl
    have hnow : handlesNow i v.1 op = false := by
      cases op with
      | advance j => simp [handlesNow, hother j rfl]
      | _ => rfl
    refine ⟨pc, step_kept hi hother hs, ?_⟩
    rw [hnow]
    exact hstands

/-- A call that was made on an active channel returns the number of the handlers it has called,
at most its quota; a call on another channel returns an error and calls none. -/
structure Processes (quota : ℤ) (active : Bool) (r : Processed τ) : Prop where
  used : active = true → r.ret = r.calls ∧ (r.calls : ℤ) ≤ max quota 0
  error : active = false → r.ret = -einval ∧ r.calls = 0

theorem cpdmaChanProcess_spec {sched : List (Op τ)} {r : Processed τ}
    (hch : s.ctlr.channels ch = some chan)
    (h : cpdmaChanProcess params sched s ch quota = some r) :
    Processes quota (chan.state = .active) r := by
  obtain ⟨s', hst, h⟩ := Option.bind_eq_some_iff.mp h
  obtain ⟨v, hexec, hret⟩ := Option.bind_eq_some_iff.mp h
  have hrun := Run.of_exec sched hexec
  obtain ⟨chan', hch', rfl⟩ := Option.map_eq_some_iff.mp hst
  obtain rfl := Option.some.inj (hch.symm.trans hch')
  by_cases hactive : chan.state = .active
  · rw [if_neg (not_not.mpr hactive)] at hrun
    have hstart : Counts (Processing ch quota) s.calls.length
        (s.spawn (.process ch quota 0), 0) :=
      ⟨_, spawn_getElem? _ _, .loop (n := 0) (by omega)⟩
    obtain ⟨pc, hpc, hstands⟩ := hrun.invariant (fun _ _ _ hc _ hst => hc.step
      (fun _ _ _ _ hstands hi hadv => hstands.advance hi hadv) hst) hstart
    rw [hpc] at hret
    cases hstands with
    | done hle =>
      obtain rfl := Option.some.inj hret
      exact ⟨fun _ => ⟨rfl, hle⟩, fun hcon => absurd hactive (of_decide_eq_false hcon)⟩
    | _ => cases hret
  · rw [if_pos hactive] at hrun
    have hstart : Counts (fun pc n => pc = (.done (-einval) : Pc τ) ∧ n = 0) s.calls.length
        (s.spawn (.done (-einval)), 0) := ⟨_, spawn_getElem? _ _, rfl, rfl⟩
    obtain ⟨pc, hpc, rfl, hzero⟩ := hrun.invariant (fun _ _ _ hc _ hst => hc.step
      (fun _ _ _ _ hstands _ hadv => by
        obtain ⟨rfl, -⟩ := hstands
        cases hadv) hst) hstart
    rw [hpc] at hret
    obtain rfl := Option.some.inj hret
    exact ⟨fun hcon => absurd (of_decide_eq_true hcon) hactive, fun _ => ⟨rfl, hzero⟩⟩

def SameChans (s s' : State τ) : Prop :=
  ∀ ch, (s'.ctlr.channels ch).isSome = (s.ctlr.channels ch).isSome

theorem countStep_own {v : State τ × ℕ} (hi : v.1.calls[i]? = some pc)
    (hadv : Cpdma.advance params v.1 i pc = some s') :
    countStep params i v (.advance i) =
      some (s', if pc.isHandler then v.2 + 1 else v.2) := by
  have hnow : handlesNow i v.1 (.advance i) = pc.isHandler := by
    simp [handlesNow, hi]
  unfold countStep
  rw [hnow]
  simp [step, hi, hadv]

/-- A packet that is off the queue is handed back in the call's next two sections. -/
theorem hands_back (params : CpdmaParams) {desc : ℕ} {outlen status : ℤ} {k : Cont}
    {v : State τ × ℕ} (hi : v.1.calls[i]? = some (.chanFree ch desc outlen status k)) :
    ∃ w, Run (countStep params i) anyStep v [.advance i, .advance i] w ∧
      w.1.calls[i]? = some (k.resume ch) ∧ SameChans v.1 w.1 := by
  obtain ⟨u, hu, hhandler, hsame⟩ : ∃ u, countStep params i v (.advance i) = some u ∧
      u.1.calls[i]? = some (.handler ch (cpdmaChanFree v.1.ctlr desc).2 outlen status k) ∧
      SameChans v.1 u.1 :=
    ⟨_, countStep_own hi rfl, getElem?_set_self hi, fun _ => rfl⟩
  obtain ⟨w, hw, hresume, hsame'⟩ : ∃ w, countStep params i u (.advance i) = some w ∧
      w.1.calls[i]? = some (k.resume ch) ∧ SameChans u.1 w.1 :=
    ⟨_, countStep_own hhandler rfl, getElem?_set_self hhandler, fun _ => rfl⟩
  exact ⟨w, .cons trivial hu (.cons trivial hw (.nil _)), hresume,
    fun ch => (hsame' ch).trans (hsame ch)⟩

theorem process_returns (params : CpdmaParams) (k : ℕ) (used : ℤ) (v : State τ × ℕ)
    (hi : v.1.calls[i]? = some (.process ch quota used)) (hk : quota - used ≤ k)
    (hch : (v.1.ctlr.channels ch).isSome) :
    ∃ sched w ret, Run (countStep params i) anyStep v sched w ∧
      w.1.calls[i]? = some (.done ret) ∧ SameChans v.1 w.1 := by
  induction k generalizing used v with
  | zero =>
    have hadv : Cpdma.advance params v.1 i (.process ch quota used) =
        some (v.1.setPc i (.done used)) := by
      simp only [Cpdma.advance]
      rw [if_neg (by omega)]
    exact ⟨_, _, used, .cons trivial (countStep_own hi hadv) (.nil _), getElem?_set_self hi,
      fun _ => rfl⟩
  | succ k ih =>
    by_cases hlt : used < quota
    · obtain ⟨chan, hchan⟩ := Option.isSome_iff_exists.mp hch
      have hadv : Cpdma.advance params v.1 i (.process ch quota used) =
          some (processStep params v.1 i ch chan (.done used) fun _ =>
            .process quota (used + 1)) := by
        simp only [Cpdma.advance]
        rw [if_pos hlt, hchan]
        rfl
      have hstep := countStep_own hi hadv
      have hsame : ∀ chan' : CpdmaChan, ∀ ch',
          ((Function.update v.1.ctlr.channels ch (some chan')) ch').isSome =
            (v.1.ctlr.channels ch').isSome := by
        intro chan' ch'
        by_cases heq : ch' = ch
        · rw [heq, Function.update_self, hchan]
          rfl
        · rw [Function.update_of_ne heq]
      unfold processStep at hstep
      cases hr : cpdmaChanProcessLocked params.pool v.1.ctlr.mem chan with
      | mk chan' out =>
        rw [hr] at hstep
        cases out with
        | fail ret =>
          exact ⟨_, _, used, .cons trivial hstep (.nil _), getElem?_set_self hi, hsame chan'⟩
        | took desc outlen status =>
          obtain ⟨u, hu, hfree, hkept⟩ : ∃ u, countStep params i v (.advance i) = some u ∧
              u.1.calls[i]? = some (.chanFree ch desc outlen (cbStatus status)
                (.process quota (used + 1))) ∧ SameChans v.1 u.1 :=
            ⟨_, hstep, getElem?_set_self hi, hsame chan'⟩
          obtain ⟨w, hw, hloop, hkept'⟩ := hands_back params hfree
          have hexist : (w.1.ctlr.channels ch).isSome := by
            rw [hkept', hkept]
            exact hch
          obtain ⟨sched, t, ret, ht, hret, hkept''⟩ := ih (used + 1) w hloop (by omega) hexist
          exact ⟨_, t, ret, .cons trivial hu (hw.append ht), hret, fun ch' => by
            rw [hkept'', hkept', hkept]⟩
    · have hadv : Cpdma.advance params v.1 i (.process ch quota used) =
          some (v.1.setPc i (.done used)) := by
        simp only [Cpdma.advance]
        rw [if_neg hlt]
      exact ⟨_, _, used, .cons trivial (countStep_own hi hadv) (.nil _), getElem?_set_self hi,
        fun _ => rfl⟩

/-- On a channel that exists a call can be made, and it returns if nothing else goes on. -/
theorem cpdmaChanProcess_returns (params : CpdmaParams) (s : State τ) (quota : ℤ)
    (hch : (s.ctlr.channels ch).isSome) :
    ∃ sched r, cpdmaChanProcess params sched s ch quota = some r ∧ SameChans s r.dma := by
  obtain ⟨chan, hchan⟩ := Option.isSome_iff_exists.mp hch
  have hstep : step params s (.chanProcess ch quota) = some (s.spawn
      (if chan.state ≠ .active then .done (-einval) else .process ch quota 0)) := by
    simp only [step]
    rw [hchan]
    rfl
  by_cases hactive : chan.state = .active
  · rw [if_neg (not_not.mpr hactive)] at hstep
    obtain ⟨sched, w, ret, hrun, hret, hsame⟩ := process_returns params quota.toNat 0
      (s.spawn (.process ch quota 0), 0) (spawn_getElem? s _) (by omega) hch
    refine ⟨sched, ⟨w.1, w.2, ret⟩, ?_, hsame⟩
    unfold cpdmaChanProcess
    rw [hstep, Option.bind_some, hrun.exec_eq, Option.bind_some, hret]
  · rw [if_pos hactive] at hstep
    refine ⟨[], ⟨s.spawn (.done (-einval)), 0, -einval⟩, ?_, fun _ => rfl⟩
    unfold cpdmaChanProcess
    rw [hstep, Option.bind_some]
    unfold exec
    rw [Option.bind_some, spawn_getElem?]

end CpswDriver.Cpdma
