import CpswDriver.Cpdma.Phases

/-!
Destroying a controller. Its channels are stopped only where their states ask
for it, while descriptors can be queued on a channel that was never started:
what such a channel holds when the controller is idle is lost.
-/

namespace CpswDriver.Cpdma

open CallTable Runs

variable {τ : Type*} {params : CpdmaParams} {s s' t u : State τ} {ch : ChanId}
  {chan : CpdmaChan}

/-- cpdma_chan_stop, with what goes on meanwhile. -/
def cpdmaChanStop (params : CpdmaParams) (sched : List (Op τ)) (s : State τ) (ch : ChanId) :
    Option (State τ × ℤ) :=
  (step params s (.chanStop ch)).bind (runCall params s.calls.length sched)

/-- The removal of a channel at the end of cpdma_chan_destroy. -/
def removeChan (ctlr : CpdmaCtlr τ) (ch : ChanId) : CpdmaCtlr τ :=
  let ctlr := { ctlr with
    channels := Function.update ctlr.channels ch none
    chanNum := ctlr.chanNum - 1 }
  (cpdmaChanSplitPool ctlr).1

/-- The stop in cpdma_chan_destroy. -/
def stopChanIfOn (params : CpdmaParams) (sched : List (Op τ)) (s : State τ) (ch : ChanId)
    (chan : CpdmaChan) : Option (State τ) :=
  if chan.state ≠ .idle then (cpdmaChanStop params sched s ch).map Prod.fst else some s

/-- cpdma_chan_destroy, undefined while another call holds the controller's lock. A channel
that does not exist stands for NULL. -/
def cpdmaChanDestroy (params : CpdmaParams) (sched : List (Op τ)) (s : State τ) (ch : ChanId) :
    Option (State τ × ℤ) :=
  match s.ctlr.channels ch with
  | none => some (s, -einval)
  | some chan =>
    if s.lock ≠ none then none
    else (stopChanIfOn params sched s ch chan).map fun s =>
      ({ s with ctlr := removeChan s.ctlr ch }, 0)

/-- The loop of cpdma_ctlr_destroy over channels. -/
def destroyChans (params : CpdmaParams) (scheds : ChanId → List (Op τ)) (chans : List ChanId)
    (s : State τ) : Option (State τ) :=
  chans.foldlM (fun s ch => (cpdmaChanDestroy params (scheds ch) s ch).map Prod.fst) s

/-- The start of cpdma_ctlr_destroy. -/
def stopIfOn (params : CpdmaParams) (sched : List (Op τ)) (s : State τ) : Option (State τ) :=
  if s.ctlr.state ≠ .idle then (cpdmaCtlrStop params sched s).map Prod.fst else some s

/-- cpdma_ctlr_destroy up to the pool, with what goes on while it stops the controller and
the channels. -/
def cpdmaCtlrDestroy (params : CpdmaParams) (sched : List (Op τ))
    (scheds : ChanId → List (Op τ)) (s : State τ) : Option (State τ × ℤ) :=
  (stopIfOn params sched s).bind fun s =>
    (destroyChans params scheds (List.finRange 64) s).map fun s => (s, 0)

/-- The WARN of cpdma_desc_pool_destroy. -/
def cpdmaDescPoolDestroyWarns (pool : CpdmaDescPool) (avail : Finset ℕ) : Bool :=
  pool.numDesc != avail.card

/-- Every packet accepted has been handed back, and the pool is full again. -/
structure ReturnsAll (params : CpdmaParams) (t : State τ) : Prop where
  handled : ∀ ch, (t.handled ch).Perm (t.accepted ch)
  pool : cpdmaDescPoolDestroyWarns params.pool t.ctlr.avail = false

def AllDone (s : State τ) : Prop := ∀ pc ∈ s.calls, pc.isDone = true

theorem AllDone.role (h : AllDone s) (i : ℕ) : (lifeOf s).roles i = {} := by
  dsimp only [lifeOf]
  cases hi : s.calls[i]? with
  | none => rfl
  | some pc =>
    have hdone := h pc (List.mem_of_getElem? hi)
    cases pc with
    | done ret => rfl
    | _ => cases hdone

theorem Roles.lock_none (h : Roles s) (hdone : AllDone s) : s.lock = none := by
  cases hlock : s.lock with
  | none => rfl
  | some i =>
    have hstart := (h.life.control.lock i).mpr hlock
    rw [hdone.role] at hstart
    cases hstart

theorem Roles.not_teardown (h : Roles s) (hdone : AllDone s) : s.ctlr.state ≠ .teardown := by
  intro hteardown
  obtain ⟨i, m, hi⟩ := h.life.control.walk hteardown
  rw [hdone.role] at hi
  cases hi

theorem Roles.chan_not_teardown (h : Roles s) (hdone : AllDone s)
    (hch : s.ctlr.channels ch = some chan) : chan.state ≠ .teardown := by
  intro hteardown
  obtain ⟨i, pc, hi, hpc⟩ := h.stopper hch hteardown
  have hpcdone := hdone pc (List.mem_of_getElem? hi)
  cases pc with
  | done ret => cases hpc
  | _ => cases hpcdone

/-- When the controller is idle so are its channels. -/
theorem Roles.chan_idle (h : Roles s) (hdone : AllDone s) (hidle : s.ctlr.state = .idle)
    (hch : s.ctlr.channels ch = some chan) : chan.state = .idle := by
  have hactive := h.not_active hidle hch
  have hteardown := h.chan_not_teardown hdone hch
  cases hs : chan.state with
  | idle => rfl
  | active => exact absurd hs hactive
  | teardown => exact absurd hs hteardown

theorem Wf.avail_of_empty {q : ChanId → List ℕ} {own : ℕ → Owner} (h : Wf params s q own)
    (hdone : AllDone s) (hempty : ∀ ch, q ch = []) : s.ctlr.avail = params.pool.descs := by
  ext d
  constructor
  · intro hd
    exact h.owned.mem (show place s q .free d from hd)
  · intro hd
    obtain hplace := (h.owned (own d) d).mpr ⟨hd, rfl⟩
    cases hown : own d with
    | free =>
      rw [hown] at hplace
      exact hplace
    | queued ch =>
      rw [hown] at hplace
      have hmem : d ∈ q ch := hplace
      rw [hempty ch] at hmem
      cases hmem
    | held i =>
      rw [hown] at hplace
      have hheld : (s.calls[i]?).bind Pc.desc = some d := hplace
      obtain ⟨pc, hi, hpc⟩ := Option.bind_eq_some_iff.mp hheld
      have hpcdone := hdone pc (List.mem_of_getElem? hi)
      cases pc with
      | done ret => cases hpc
      | _ => cases hpcdone

def ChansIdle (s : State τ) : Prop :=
  ∀ ch chan, s.ctlr.channels ch = some chan → chan.state = .idle

/-- What the removal of idle channels leaves as it is. -/
structure Undisturbed (s s' : State τ) : Prop where
  avail : s'.ctlr.avail = s.ctlr.avail
  accepted : s'.accepted = s.accepted
  handled : s'.handled = s.handled

theorem removeChan_frame (c : CpdmaCtlr τ) (ch : ChanId) : ∃ channels,
    QuotaOnly (Function.update c.channels ch none) channels ∧
      removeChan c ch = { c with channels := channels, chanNum := c.chanNum - 1 } := by
  obtain ⟨channels, hquota, heq⟩ := cpdmaChanSplitPool_frame
    { c with channels := Function.update c.channels ch none, chanNum := c.chanNum - 1 }
  exact ⟨channels, hquota, heq⟩

theorem cpdmaChanDestroy_idle (hidle : ChansIdle s) {sched : List (Op τ)} {ret : ℤ}
    (h : cpdmaChanDestroy params sched s ch = some (t, ret)) : ChansIdle t ∧ Undisturbed s t := by
  unfold cpdmaChanDestroy at h
  split at h
  · obtain ⟨rfl, -⟩ := Prod.mk.inj (Option.some.inj h)
    exact ⟨hidle, rfl, rfl, rfl⟩
  · rename_i chan hch
    split at h
    · cases h
    have hoff : stopChanIfOn params sched s ch chan = some s :=
      if_neg (not_not.mpr (hidle ch chan hch))
    rw [hoff] at h
    obtain ⟨rfl, -⟩ := Prod.mk.inj (Option.some.inj h)
    obtain ⟨channels, hquota, heq⟩ := removeChan_frame s.ctlr ch
    rw [heq]
    refine ⟨fun ch' chan' hch' => ?_, rfl, rfl, rfl⟩
    obtain ⟨n, hn⟩ := hquota ch'
    dsimp only at hch'
    rw [hn] at hch'
    obtain ⟨chan₀, hold, rfl⟩ := Option.map_eq_some_iff.mp hch'
    by_cases hne : ch' = ch
    · rw [hne, Function.update_self] at hold
      cases hold
    · rw [Function.update_of_ne hne] at hold
      exact hidle ch' chan₀ hold

theorem destroyChans_idle {scheds : ChanId → List (Op τ)} {chans : List ChanId}
    (hidle : ChansIdle s) (h : destroyChans params scheds chans s = some t) : Undisturbed s t := by
  induction chans generalizing s with
  | nil =>
    obtain rfl := Option.some.inj h
    exact ⟨rfl, rfl, rfl⟩
  | cons ch chans ih =>
    obtain ⟨u, hu, hrest⟩ := Option.bind_eq_some_iff.mp h
    obtain ⟨⟨u', ret⟩, hdestroy, rfl⟩ := Option.map_eq_some_iff.mp hu
    obtain ⟨hidle', hsame⟩ := cpdmaChanDestroy_idle hidle hdestroy
    have hlast := ih hidle' hrest
    exact ⟨hlast.avail.trans hsame.avail, hlast.accepted.trans hsame.accepted,
      hlast.handled.trans hsame.handled⟩

/-- The stop at the beginning leaves idle, empty channels, at the end of a longer run. -/
theorem cpdmaCtlrStop_of_run {s₀ : State τ} {ls : List (Op τ)}
    (hrun : Run (step params) LenOk s₀ ls s) (hroles : Roles s) (hdone : AllDone s)
    (hactive : s.ctlr.state = .active) {sched : List (Op τ)} {ret : ℤ}
    (h : cpdmaCtlrStop params sched s = some (u, ret)) :
    (∃ ls', Run (step params) LenOk s₀ ls' u) ∧ AllDone u ∧ Drained u := by
  obtain ⟨r⟩ := StopRun.of_stop (hroles.lock_none hdone)
    (fun ch chan hch => hroles.chan_not_teardown hdone hch) hactive h
  have hrest : Run (step params) LenOk r.start r.sched u :=
    r.run.mono fun _ _ hok => hok.quiet.1
  have hall : Run (step params) LenOk s₀ _ u :=
    hrun.append (.cons (show LenOk s (.ctlrStop : Op τ) from trivial) r.begins hrest)
  refine ⟨⟨_, hall⟩, fun pc hpc => ?_, r.drained⟩
  have hothers : ∀ j, j ≠ s.calls.length → u.calls[j]? = r.start.calls[j]? :=
    r.run.invariant (I := fun v => ∀ j, j ≠ s.calls.length → v.calls[j]? = r.start.calls[j]?)
      (fun v op w hv hok hst j hj => (alone_calls hok hst hj).trans (hv j hj)) fun _ _ => rfl
  obtain ⟨j, hj⟩ := List.getElem?_of_mem hpc
  by_cases hij : j = s.calls.length
  · rw [hij, r.returned] at hj
    obtain rfl := Option.some.inj hj
    rfl
  · rw [hothers j hij, r.calls] at hj
    rcases getElem?_spawn_cases hj with ⟨heq, -⟩ | hold
    · exact absurd heq hij
    · exact hdone pc (List.mem_of_getElem? hold)

theorem warns_iff {q : ChanId → List ℕ} {own : ℕ → Owner} (h : Wf params s q own) :
    cpdmaDescPoolDestroyWarns params.pool s.ctlr.avail = false ↔
      s.ctlr.avail = params.pool.descs := by
  have hsub : s.ctlr.avail ⊆ params.pool.descs :=
    fun d hd => h.owned.mem (show place s q .free d from hd)
  unfold cpdmaDescPoolDestroyWarns
  rw [bne_eq_false_iff_eq, ← params.pool.card_descs]
  constructor
  · intro hcard
    exact Finset.eq_of_subset_of_card_le hsub hcard.le
  · intro heq
    rw [heq]

/-- A driver at rest has nothing to return exactly when all its queues are empty. -/
theorem returnsAll_iff_empty {q : ChanId → List ℕ} {own : ℕ → Owner} (h : Wf params u q own)
    (hdone : AllDone u) (hsame : Undisturbed u t) :
    ReturnsAll params t ↔ ∀ ch, q ch = [] := by
  constructor
  · intro hall ch
    have hfull := hall.pool
    rw [hsame.avail, warns_iff h] at hfull
    cases hq : q ch with
    | nil => rfl
    | cons d l =>
      have hplace : place u q (.queued ch) d := by
        show d ∈ q ch
        rw [hq]
        exact List.mem_cons_self
      have hfree : place u q .free d := by
        show d ∈ u.ctlr.avail
        rw [hfull]
        exact h.owned.mem hplace
      cases h.owned.unique hplace hfree
  · intro hempty
    refine ⟨fun ch => ?_, ?_⟩
    · rw [hsame.handled, hsame.accepted]
      refine h.handled_perm (hempty ch) fun pc hpc => ?_
      have hpcdone := hdone pc hpc
      cases pc with
      | done ret => rfl
      | _ => cases hpcdone
    · rw [hsame.avail, warns_iff h]
      exact h.avail_of_empty hdone hempty

theorem Wf.empty_iff {q : ChanId → List ℕ} {own : ℕ → Owner} (h : Wf params s q own) :
    (∀ ch, q ch = []) ↔ ∀ ch chan, s.ctlr.channels ch = some chan → chan.head = 0 := by
  constructor
  · intro hempty ch chan hch
    exact (h.chan ch chan hch).head_null_iff.mpr (hempty ch)
  · intro hheads ch
    cases hch : s.ctlr.channels ch with
    | none => exact h.none ch hch
    | some chan => exact (h.chan ch chan hch).head_null_iff.mp (hheads ch chan hch)

/-- Destroying a controller returns everything exactly when the controller is active or
nothing is queued. -/
theorem returnsAll_iff_of_run {s₀ : State τ} {ls : List (Op τ)} (hinit : Initial params s₀)
    (hidle : s₀.ctlr.state = .idle) (hrun : Run (step params) LenOk s₀ ls s) (hdone : AllDone s)
    {sched : List (Op τ)} {scheds : ChanId → List (Op τ)} {ret : ℤ}
    (hdestroy : cpdmaCtlrDestroy params sched scheds s = some (t, ret)) :
    ReturnsAll params t ↔ s.ctlr.state = .active ∨
      ∀ ch chan, s.ctlr.channels ch = some chan → chan.head = 0 := by
  have hroles : Roles s := (Roles.initial hinit hidle).of_run hrun
  obtain ⟨u, hu, hrest⟩ := Option.bind_eq_some_iff.mp hdestroy
  obtain ⟨v, hv, hret⟩ := Option.map_eq_some_iff.mp hrest
  obtain ⟨rfl, -⟩ := Prod.mk.inj hret
  unfold stopIfOn at hu
  by_cases hstate : s.ctlr.state = .idle
  · rw [if_neg (not_not.mpr hstate)] at hu
    obtain rfl := Option.some.inj hu
    obtain ⟨q, own, hwf⟩ := Wf.of_run hinit hrun
    have hsame : Undisturbed s v :=
      destroyChans_idle (fun ch chan hch => hroles.chan_idle hdone hstate hch) hv
    rw [returnsAll_iff_empty hwf hdone hsame, hwf.empty_iff]
    refine ⟨.inr, fun h => h.resolve_left fun hactive => ?_⟩
    rw [hstate] at hactive
    cases hactive
  · have hactive : s.ctlr.state = .active := by
      cases hs : s.ctlr.state with
      | idle => exact absurd hs hstate
      | active => rfl
      | teardown => exact absurd hs (hroles.not_teardown hdone)
    rw [if_pos hstate] at hu
    obtain ⟨⟨u', ret'⟩, hstop, rfl⟩ := Option.map_eq_some_iff.mp hu
    obtain ⟨⟨ls', hrun'⟩, hdone', hdrained⟩ := cpdmaCtlrStop_of_run hrun hroles hdone hactive hstop
    obtain ⟨q, own, hwf⟩ := Wf.of_run hinit hrun'
    have hsame : Undisturbed u' v :=
      destroyChans_idle (fun ch chan hch => (hdrained.chans ch chan hch).2) hv
    refine iff_of_true ?_ (.inl hactive)
    rw [returnsAll_iff_empty hwf hdone' hsame, hwf.empty_iff]
    exact fun ch chan hch => (hdrained.chans ch chan hch).1

instance (s : State τ) : Decidable (AllDone s) :=
  inferInstanceAs (Decidable (∀ pc ∈ s.calls, pc.isDone = true))

/-- A packet is queued for receive, the channel is stopped, and the controller destroyed. -/
theorem returnsAll_after_stop : ∃ s t : State ℕ,
    Run (step (smallParams 2 (by decide))) LenOk
      (quiet (smallParams 2 (by decide)) 0 .idle (onePair 1 1) 1 1)
      [.submit .idleSubmit 32 ⟨7, 0, 1500, 0⟩ (some 0x4000), .chanStop 32, .advance 0, .advance 0,
        .advance 0, .advance 0, .advance 0, .advance 0] s ∧
    cpdmaCtlrDestroy (smallParams 2 (by decide)) [] (fun _ => []) s = some (t, 0) ∧
    (ReturnsAll (smallParams 2 (by decide)) t ↔ s.ctlr.state = .active ∨
      ∀ ch chan, s.ctlr.channels ch = some chan → chan.head = 0) := by
  have hany : (exec (step (smallParams 2 (by decide))) LenOk
      (quiet (smallParams 2 (by decide)) (0 : ℕ) .idle (onePair 1 1) 1 1)
      [.submit .idleSubmit 32 ⟨7, 0, 1500, 0⟩ (some 0x4000), .chanStop 32, .advance 0, .advance 0,
        .advance 0, .advance 0, .advance 0, .advance 0]).any (fun s => decide (AllDone s) &&
      (cpdmaCtlrDestroy (smallParams 2 (by decide)) [] (fun _ => []) s).isSome) = true := by
    decide +kernel
  obtain ⟨s, hrun, hs⟩ := exists_run_of_any hany
  obtain ⟨hdone, hsome⟩ := Bool.and_eq_true_iff.mp hs
  obtain ⟨⟨t, ret⟩, hdestroy⟩ := Option.isSome_iff_exists.mp hsome
  obtain ⟨u, -, hu⟩ := Option.bind_eq_some_iff.mp hdestroy
  obtain ⟨v, -, hv⟩ := Option.map_eq_some_iff.mp hu
  obtain ⟨rfl, rfl⟩ := Prod.mk.inj hv
  exact ⟨s, v, hrun, hdestroy, returnsAll_iff_of_run (initial_quiet _ _ _ (idle_onePair 1 1) _ _)
    rfl hrun (of_decide_eq_true hdone) hdestroy⟩

/-- A packet is queued on a channel that was never started, and the controller destroyed. -/
theorem returnsAll_fails_unstarted : ∃ s t : State ℕ,
    Run (step (smallParams 2 (by decide))) LenOk
      (quiet (smallParams 2 (by decide)) 0 .idle (onePair 1 1) 1 1)
      [.submit .idleSubmit 32 ⟨7, 0, 1500, 0⟩ (some 0x4000)] s ∧ AllDone s ∧
    cpdmaCtlrDestroy (smallParams 2 (by decide)) [] (fun _ => []) s = some (t, 0) ∧
    t.accepted 32 = [⟨7, 0x4000, 1500, false⟩] ∧ t.handled 32 = [] ∧
    cpdmaDescPoolDestroyWarns (smallParams 2 (by decide)).pool t.ctlr.avail = true ∧
    ¬ ReturnsAll (smallParams 2 (by decide)) t := by
  have hrun : (exec (step (smallParams 2 (by decide))) LenOk
      (quiet (smallParams 2 (by decide)) (0 : ℕ) .idle (onePair 1 1) 1 1)
      [.submit .idleSubmit 32 ⟨7, 0, 1500, 0⟩ (some 0x4000)]).any (fun s => decide (AllDone s) &&
      (cpdmaCtlrDestroy (smallParams 2 (by decide)) [] (fun _ => []) s).any fun r =>
        r.2 = 0 && r.1.accepted 32 = [⟨7, 0x4000, 1500, false⟩] && r.1.handled 32 = [] &&
          cpdmaDescPoolDestroyWarns (smallParams 2 (by decide)).pool r.1.ctlr.avail) = true := by
    decide +kernel
  obtain ⟨s, hrun, hs⟩ := exists_run_of_any hrun
  obtain ⟨hdone, hany⟩ := Bool.and_eq_true_iff.mp hs
  obtain ⟨⟨t, ret⟩, hdestroy, hall⟩ := (Option.any_eq_true _ _).mp hany
  simp only [Bool.and_eq_true, decide_eq_true_eq] at hall
  obtain ⟨⟨⟨rfl, haccepted⟩, hhandled⟩, hwarns⟩ := hall
  refine ⟨s, t, hrun, of_decide_eq_true hdone, hdestroy, haccepted, hhandled, hwarns, fun h => ?_⟩
  have hfull := h.pool
  rw [hwarns] at hfull
  cases hfull

end CpswDriver.Cpdma
