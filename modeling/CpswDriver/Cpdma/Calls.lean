import CpswDriver.Cpdma.Share

/-!
One call run to its end with no other call in the way, as it is under the
lock of the network stack while interrupts are off. The engine may go on
meanwhile. Starting the controller leaves every queue as it is; stopping it
empties every channel.
-/

namespace CpswDriver.Cpdma

open CallTable Runs

variable {τ : Type*} {params : CpdmaParams} {s s' s₀ : State τ} {i : ℕ}

/-- Only the call with this number and the engine go on. -/
def AloneOk (i : ℕ) (_ : State τ) : Op τ → Prop
  | .advance j => j = i
  | .engine .. | .engineHdp .. => True
  | _ => False

instance (i : ℕ) (s : State τ) : DecidablePred (AloneOk i s)
  | .advance j => inferInstanceAs (Decidable (j = i))
  | .engine .. | .engineHdp .. => .isTrue trivial
  | .submit .. | .chanProcess .. | .chanStop .. | .chanStart .. | .ctlrStart | .ctlrStop
  | .chanCreate .. | .setWeight .. | .setNumRxDescs .. => .isFalse id

/-- The state when the call has returned, with what it returns. -/
def runCall (params : CpdmaParams) (i : ℕ) (sched : List (Op τ)) (s : State τ) :
    Option (State τ × ℤ) :=
  (exec (step params) (AloneOk i) s sched).bind fun t =>
    match t.calls[i]? with
    | some (.done ret) => some (t, ret)
    | _ => none

def cpdmaCtlrStart (params : CpdmaParams) (sched : List (Op τ)) (s : State τ) :
    Option (State τ × ℤ) :=
  (step params s .ctlrStart).bind (runCall params s.calls.length sched)

def cpdmaCtlrStop (params : CpdmaParams) (sched : List (Op τ)) (s : State τ) :
    Option (State τ × ℤ) :=
  (step params s .ctlrStop).bind (runCall params s.calls.length sched)

def Pc.isDone : Pc τ → Bool
  | .done _ => true
  | _ => false

/-- The quota of a channel, none when there is no such channel. -/
def chanQuota (s : State τ) (ch : ChanId) : Option ℕ := (s.ctlr.channels ch).map CpdmaChan.descNum

structure AtRest (params : CpdmaParams) (s : State τ) : Prop where
  sound : Sound params s
  calls : ∀ (j : ℕ) (pc : Pc τ), s.calls[j]? = some pc → pc.isDone = true
  lock : s.lock = none
  state : ∀ ch chan, s.ctlr.channels ch = some chan → chan.state ≠ .teardown

/-- Queues have grown, and everything else is as it was. -/
structure Grown (params : CpdmaParams) (s s' : State τ) : Prop where
  rest : AtRest params s'
  state : s'.ctlr.state = s.ctlr.state
  quota : ∀ ch, chanQuota s' ch = chanQuota s ch

/-- A controller whose channels are idle and empty. -/
structure Drained (s : State τ) : Prop where
  state : s.ctlr.state = .idle
  chans : ∀ ch chan, s.ctlr.channels ch = some chan → chan.head = 0 ∧ chan.state = .idle

theorem runCall_eq_some {sched : List (Op τ)} {t : State τ} {ret : ℤ}
    (h : runCall params i sched s = some (t, ret)) :
    Run (step params) (AloneOk i) s sched t ∧ t.calls[i]? = some (.done ret) := by
  unfold runCall at h
  obtain ⟨u, hu, h⟩ := Option.bind_eq_some_iff.mp h
  split at h
  · rename_i ret' hret
    obtain ⟨rfl, rfl⟩ := Prod.mk.inj (Option.some.inj h)
    exact ⟨Run.of_exec sched hu, hret⟩
  · cases h

/-- What runs alone submits nothing and leaves the quotas. -/
theorem AloneOk.quiet {op : Op τ} (hok : AloneOk i s op) :
    LenOk s op ∧ Traffic s op ∧ Covered s op ∧ op.resplits = false := by
  cases op with
  | advance j => exact ⟨trivial, trivial, trivial, rfl⟩
  | engine d hwMode hwLen => exact ⟨trivial, trivial, trivial, rfl⟩
  | engineHdp ch hdp => exact ⟨trivial, trivial, trivial, rfl⟩
  | _ => exact hok.elim

theorem Sound.alone (h : Sound params s) {op : Op τ} (hok : AloneOk i s op)
    (hst : Cpdma.step params s op = some s') : Sound params s' := by
  obtain ⟨-, htraffic, hcovered, -⟩ := hok.quiet
  exact h.step htraffic hcovered hst

/-- A call to cpdma_chan_stop that is about to begin. -/
def Pc.begins : Pc τ → Bool
  | .stopBegin _ _ => true
  | _ => false

theorem Cont.begins_resume (ch : ChanId) (k : Cont) : (k.resume ch : Pc τ).begins = false := by
  cases k with
  | process => rfl
  | stopDrain tdComplete => cases tdComplete <;> rfl
  | stopClean => rfl

theorem StopRet.begins_resume (r : StopRet) (ret : ℤ) : (r.resume ret : Pc τ).begins = false := by
  cases r <;> rfl

/-- A section of a call moves no other call, and goes on to no beginning. -/
theorem advance_calls {pc : Pc τ} (h : advance params s i pc = some s') :
    ∃ pc', s'.calls = s.calls.set i pc' ∧ pc'.begins = false := by
  have hprocess : ∀ (ch : ChanId) (chan : CpdmaChan) (onFail : Pc τ) (k : U32 → Cont),
      onFail.begins = false → ∃ pc',
        (processStep params s i ch chan onFail k).calls = s.calls.set i pc' ∧
          pc'.begins = false := by
    intro ch chan onFail k hfail
    unfold processStep
    split
    · exact ⟨_, rfl, hfail⟩
    · exact ⟨_, rfl, rfl⟩
  have hbegin : ∀ (ch : ChanId) (chan : CpdmaChan) (ret : StopRet), ∃ pc',
      (stopBeginStep s i ch chan ret).calls = s.calls.set i pc' ∧ pc'.begins = false := by
    intro ch chan ret
    unfold stopBeginStep
    split
    · exact ⟨_, rfl, ret.begins_resume _⟩
    · exact ⟨_, rfl, rfl⟩
  cases pc with
  | done ret => cases h
  | process ch quota used =>
    simp only [advance] at h
    split at h
    · obtain ⟨chan, -, rfl⟩ := Option.map_eq_some_iff.mp h
      exact hprocess _ _ _ _ rfl
    · obtain rfl := Option.some.inj h
      exact ⟨_, rfl, rfl⟩
  | chanFree ch desc outlen status k =>
    obtain rfl := Option.some.inj h
    exact ⟨_, rfl, rfl⟩
  | handler ch item outlen status k =>
    obtain rfl := Option.some.inj h
    exact ⟨_, rfl, k.begins_resume ch⟩
  | stopBegin ch ret =>
    obtain ⟨chan, -, rfl⟩ := Option.map_eq_some_iff.mp h
    exact hbegin _ _ _
  | stopDrain ch ret =>
    obtain ⟨chan, -, rfl⟩ := Option.map_eq_some_iff.mp h
    exact hprocess _ _ _ _ rfl
  | stopClean ch ret =>
    obtain ⟨chan, -, rfl⟩ := Option.map_eq_some_iff.mp h
    unfold stopCleanStep
    split
    · exact ⟨_, rfl, ret.begins_resume _⟩
    · exact ⟨_, rfl, rfl⟩
  | chanOn ch =>
    obtain ⟨chan, -, rfl⟩ := Option.map_eq_some_iff.mp h
    exact ⟨_, rfl, rfl⟩
  | ctlrStart j prioMode =>
    simp only [advance] at h
    split at h
    · split at h <;>
      · obtain rfl := Option.some.inj h
        exact ⟨_, rfl, rfl⟩
    · obtain rfl := Option.some.inj h
      exact ⟨_, rfl, rfl⟩
  | ctlrStop j =>
    simp only [advance] at h
    split at h
    · split at h
      · obtain rfl := Option.some.inj h
        exact ⟨_, rfl, rfl⟩
      · obtain rfl := Option.some.inj h
        exact hbegin _ _ _
    · split at h
      · obtain rfl := Option.some.inj h
        exact ⟨_, rfl, rfl⟩
      · cases h

theorem alone_calls {op : Op τ} (hok : AloneOk i s op) (h : step params s op = some s') {j : ℕ}
    (hj : j ≠ i) : s'.calls[j]? = s.calls[j]? := by
  cases op with
  | advance j' =>
    obtain rfl : j' = i := hok
    obtain ⟨pc, -, h⟩ := Option.bind_eq_some_iff.mp h
    obtain ⟨pc', hcalls, -⟩ := advance_calls h
    rw [hcalls, List.getElem?_set_ne (Ne.symm hj)]
  | engine d hwMode hwLen =>
    obtain rfl := Option.some.inj h
    rfl
  | engineHdp ch hdp =>
    obtain ⟨chan, -, rfl⟩ := Option.map_eq_some_iff.mp h
    rfl
  | _ => exact hok.elim

theorem ChanSteady.descNum {o o' : Option CpdmaChan} (h : ChanSteady o o') :
    o'.map CpdmaChan.descNum = o.map CpdmaChan.descNum := by
  cases h with
  | none => rfl
  | some hs => simp [hs.descNum]

theorem descNum_update {channels : ChanId → Option CpdmaChan} {ch : ChanId}
    {chan chan' : CpdmaChan} (hch : channels ch = some chan) (hnum : chan'.descNum = chan.descNum)
    (ch' : ChanId) : (Function.update channels ch (some chan') ch').map CpdmaChan.descNum =
      (channels ch').map CpdmaChan.descNum := by
  by_cases h : ch' = ch
  · subst h
    simp [hch, hnum]
  · simp [h]

theorem Move.chanQuota {o : Option ChanId} (h : Move params o s s') (ch : ChanId) :
    chanQuota s' ch = chanQuota s ch := by
  cases h with
  | same hs => exact (hs.chans ch).descNum
  | enqueue hch _ _ _ _ hl =>
    refine descNum_update hch ?_ ch
    exact hl.descNum
  | dequeue hch hu => exact descNum_update hch hu.descNum ch
  | free => rfl
  | handBack => rfl

theorem alone_chanQuota {op : Op τ} (hok : AloneOk i s op) (h : step params s op = some s')
    (ch : ChanId) : chanQuota s' ch = chanQuota s ch := by
  obtain ⟨hlen, -, -, hsplit⟩ := hok.quiet
  exact (step_move hlen hsplit h).chanQuota ch

/-- What the engine does to the channels: it writes head pointer registers only. -/
structure EngineOnly (s s' : State τ) : Prop where
  state : s'.ctlr.state = s.ctlr.state
  lock : s'.lock = s.lock
  calls : s'.calls = s.calls
  chans : ∀ ch chan', s'.ctlr.channels ch = some chan' →
    ∃ chan, s.ctlr.channels ch = some chan ∧ SameShape chan chan' ∧ chan'.state = chan.state
  steady : ∀ ch, ChanSteady (s.ctlr.channels ch) (s'.ctlr.channels ch)

/-- What goes on while a call runs alone is a section of that call, or the engine. -/
theorem alone_cases {op : Op τ} (hok : AloneOk i s op) (h : step params s op = some s') :
    EngineOnly s s' ∨ ∃ pc, s.calls[i]? = some pc ∧ advance params s i pc = some s' := by
  cases op with
  | advance j =>
    obtain rfl : j = i := hok
    obtain ⟨pc, hi, h⟩ := Option.bind_eq_some_iff.mp h
    exact Or.inr ⟨pc, hi, h⟩
  | engine d hwMode hwLen =>
    obtain rfl := Option.some.inj h
    exact Or.inl ⟨rfl, rfl, rfl, fun ch chan hch => ⟨chan, hch, SameShape.refl chan, rfl⟩,
      fun _ => ChanSteady.refl _⟩
  | engineHdp ch hdp =>
    obtain ⟨chan, hch, rfl⟩ := Option.map_eq_some_iff.mp h
    have hs : SameShape chan { chan with hdp := hdp } := ⟨⟨rfl, rfl, rfl⟩, rfl, rfl⟩
    refine Or.inl ⟨rfl, rfl, rfl, fun ch' chan' hch' => ?_, steady_update hch hs⟩
    by_cases heq : ch' = ch
    · subst heq
      have hset : some { chan with hdp := hdp } = some chan' := by
        simpa [State.setChan, CpdmaCtlr.setChan] using hch'
      obtain rfl := Option.some.inj hset
      exact ⟨chan, hch, hs, rfl⟩
    · have hold : s.ctlr.channels ch' = some chan' := by
        simpa [State.setChan, CpdmaCtlr.setChan, heq] using hch'
      exact ⟨chan', hold, SameShape.refl chan', rfl⟩
  | _ => exact hok.elim

/-- The engine writes a descriptor or a head pointer register. -/
def Op.isEngine : Op τ → Bool
  | .engine .. | .engineHdp .. => true
  | _ => false

theorem AtRest.engine (h : AtRest params s) {op : Op τ} (hop : op.isEngine = true)
    (hst : step params s op = some s') : AtRest params s' ∧ EngineOnly s s' := by
  have hok : AloneOk s.calls.length s op := by
    cases op with
    | engine => trivial
    | engineHdp => trivial
    | _ => cases hop
  have hengine : EngineOnly s s' := by
    rcases alone_cases hok hst with he | ⟨pc, hpc, -⟩
    · exact he
    · simp at hpc
  refine ⟨⟨h.sound.alone hok hst, ?_, hengine.lock.trans h.lock, ?_⟩, hengine⟩
  · rw [hengine.calls]
    exact h.calls
  · intro ch chan' hch
    obtain ⟨chan, hold, -, hstate⟩ := hengine.chans ch chan' hch
    rw [hstate]
    exact h.state ch chan hold

theorem Sound.count_zero (h : Sound params s) {ch : ChanId} {chan : CpdmaChan}
    (hch : s.ctlr.channels ch = some chan) (hhead : chan.head = 0) : chan.count = 0 := by
  obtain ⟨q, own, hw⟩ := h.wf
  have hq := hw.chan ch chan hch
  rw [← hq.count, hq.head_null_iff.mp hhead]
  rfl

section Submit

variable {kind : SubmitKind} {ch : ChanId} {chan : CpdmaChan} {args : SubmitArgs τ}
  {mapped : Option U32}

/-- At rest a channel holds what its queue counts. -/
theorem AtRest.heldCount (h : AtRest params s) (ch : ChanId) :
    heldCount s ch = countOf s.ctlr.channels ch := by
  have hlimbo : total (Pc.limbo ch) s.calls = 0 := by
    rw [total_congr _ (fun _ => 0) fun pc hpc => ?_]
    · simp [total]
    · obtain ⟨j, hj⟩ := List.getElem?_of_mem hpc
      have hdone := h.calls j pc hj
      cases pc with
      | done ret => rfl
      | _ => cases hdone
  rw [CpswDriver.Cpdma.heldCount, hlimbo, add_zero]

/-- A mapped submit that the channel's state allows fails only for want of room. -/
theorem submitStep_mapped (hallow : kind.allows chan.state = true)
    (hmapped : kind.isMapped = true) (hdma : args.data ≠ 0)
    (hroom : (submitStep params s kind ch chan args mapped).2 ≠ -enomem) :
    (submitStep params s kind ch chan args mapped).2 = 0 := by
  revert hroom
  unfold submitStep submitEntry cpdmaChanSubmitSi
  simp only [hallow, Bool.not_true, Bool.false_eq_true, if_false, submitInfo, hmapped, if_true,
    hdma, ne_eq, not_false_eq_true]
  split
  · simp [enomem]
  split
  · simp [enomem]
  · simp

/-- A submit that succeeds adds one packet to its channel. -/
theorem submitStep_grows (hret : (submitStep params s kind ch chan args mapped).2 = 0) :
    ∃ (c : CpdmaCtlr τ) (chan' : CpdmaChan), (submitStep params s kind ch chan args mapped).1 =
        { s with ctlr := c.setChan ch chan' }.accept ch
          (submitItem params (submitInfo kind args) (submitBuffer (submitInfo kind args) mapped)) ∧
      c.state = s.ctlr.state ∧ c.channels = s.ctlr.channels ∧ chan'.count = chan.count + 1 ∧
      chan'.descNum = chan.descNum ∧ chan'.state = chan.state := by
  revert hret
  unfold submitStep submitEntry
  by_cases hallow : kind.allows chan.state
  · simp only [hallow, Bool.not_true, Bool.false_eq_true, if_false]
    cases hr : cpdmaChanSubmitSi params s.ctlr ch chan (submitInfo kind args) mapped with
    | mk ctlr ret =>
      rcases cpdmaChanSubmitSi_cases hr with
        ⟨hret, stats, rfl⟩ | ⟨rfl, -, d, mem', chan', rxfree, -, hl, rfl⟩
      · simp [hret]
      · intro
        refine ⟨{ s.ctlr with avail := s.ctlr.avail.erase d, mem := mem' },
          { chan' with rxfree := rxfree, count := chan'.count + 1 }, rfl, rfl, rfl, ?_, hl.descNum,
          hl.state⟩
        exact congrArg (· + 1) hl.count
  · simp [hallow, einval]

/-- At rest, a mapped submit to an rx channel below its quota succeeds. -/
theorem AtRest.submit (h : AtRest params s) (hch : s.ctlr.channels ch = some chan)
    (hrx : isRxChan ch = true) (hallow : kind.allows chan.state = true)
    (hmapped : kind.isMapped = true) (hroom : chan.count < chan.descNum) (mapped : Option U32)
    (hdma : args.data ≠ 0) (hlen : args.len < 2 ^ 16) :
    ∃ t, submitStep params s kind ch chan args mapped = (t, 0) ∧ Grown params s t ∧
      ∀ ch', countOf t.ctlr.channels ch' =
        countOf s.ctlr.channels ch' + if ch' = ch then 1 else 0 := by
  have hheld : CpswDriver.Cpdma.heldCount s ch < chan.descNum := by
    rwa [h.heldCount, countOf_some hch]
  have hret : (submitStep params s kind ch chan args mapped).2 = 0 :=
    submitStep_mapped hallow hmapped hdma (h.sound.fair.no_enomem hch hrx hheld _ _ _)
  have hcovered : Covered s (.submit kind ch args mapped) := by
    intro chan' hch' _
    obtain rfl : chan = chan' := Option.some.inj (hch.symm.trans hch')
    exact hheld
  have hsound : Sound params (submitStep params s kind ch chan args mapped).1 :=
    h.sound.step (show Traffic s (.submit kind ch args mapped) from hlen) hcovered
      (by simp only [step, hch, Option.map_some])
  obtain ⟨c, chan', hs', hstate, hchans, hcount, hnum, hchan⟩ := submitStep_grows hret
  cases hres : submitStep params s kind ch chan args mapped with
  | mk t ret =>
    rw [hres] at hret hsound hs'
    dsimp only at hret hsound hs'
    subst hret hs'
    refine ⟨_, rfl, ⟨⟨hsound, h.calls, h.lock, ?_⟩, hstate, ?_⟩, ?_⟩
    · intro ch' chan'' hch'
      simp only [State.accept, CpdmaCtlr.setChan, hchans] at hch'
      by_cases heq : ch' = ch
      · subst heq
        rw [Function.update_self] at hch'
        obtain rfl := Option.some.inj hch'
        rw [hchan]
        exact h.state _ chan hch
      · rw [Function.update_of_ne heq] at hch'
        exact h.state ch' chan'' hch'
    · intro ch'
      simp only [chanQuota, State.accept, CpdmaCtlr.setChan, hchans]
      exact descNum_update hch hnum ch'
    · intro ch'
      simp only [State.accept, CpdmaCtlr.setChan, hchans]
      rw [countOf_update]
      split
      · rename_i heq
        rw [heq, countOf_some hch, hcount]
      · rfl

end Submit

def Cont.returnsTo (ret : StopRet) : Cont → Prop
  | .process _ _ => False
  | .stopDrain _ ret' => ret' = ret
  | .stopClean ret' => ret' = ret

/-- Where cpdma_ctlr_stop is: the channels before `j` are stopped, those from
`m` on have not been looked at. -/
def Pc.stops (j m : ℕ) : Pc τ → Prop
  | .ctlrStop j' => j' = j ∧ m = j
  | .stopDrain ch ret => ch.val = j ∧ ret = .ctlrStop j ∧ m = j + 1
  | .stopClean ch ret => ch.val = j ∧ ret = .ctlrStop j ∧ m = j + 1
  | .chanFree ch _ _ _ k => ch.val = j ∧ k.returnsTo (.ctlrStop j) ∧ m = j + 1
  | .handler ch _ _ _ k => ch.val = j ∧ k.returnsTo (.ctlrStop j) ∧ m = j + 1
  | .done ret => 64 ≤ j ∧ ret = 0
  | _ => False

structure Stopping (i j m : ℕ) (s : State τ) : Prop where
  lock : s.lock = none
  pc : ∃ pc, s.calls[i]? = some pc ∧ pc.stops j m ∧ (pc.isDone = true → s.ctlr.state = .idle)
  before : ∀ ch chan, ch.val < j → s.ctlr.channels ch = some chan →
    chan.head = 0 ∧ chan.state = .idle
  after : ∀ ch chan, m ≤ ch.val → s.ctlr.channels ch = some chan → chan.state ≠ .teardown

/-- A section of stopping channel `j` that does not finish it. -/
theorem Stopping.stay {j m : ℕ} (h : Stopping i j m s) (hm : m ≤ j + 1) {pc pc' : Pc τ}
    (hi : s.calls[i]? = some pc) (hlock : s'.lock = s.lock) (hcalls : s'.calls = s.calls.set i pc')
    (hpc' : pc'.stops j (j + 1)) (hdone : pc'.isDone = false)
    (hchans : ∀ ch : ChanId, ch.val ≠ j → s'.ctlr.channels ch = s.ctlr.channels ch) :
    Stopping i j (j + 1) s' where
  lock := hlock.trans h.lock
  pc := by
    refine ⟨pc', ?_, hpc', fun hd => ?_⟩
    · rw [hcalls]
      exact getElem?_set_self hi
    · rw [hdone] at hd
      cases hd
  before ch chan hlt hch := by
    rw [hchans ch (by omega)] at hch
    exact h.before ch chan hlt hch
  after ch chan hle hch := by
    rw [hchans ch (by omega)] at hch
    exact h.after ch chan (by omega) hch

/-- Channel `j` is done with, if there is such a channel. -/
theorem Stopping.next {j m : ℕ} (h : Stopping i j m s) (hm : m ≤ j + 1) {pc : Pc τ}
    (hi : s.calls[i]? = some pc) (hlock : s'.lock = s.lock)
    (hcalls : s'.calls = s.calls.set i (.ctlrStop (j + 1)))
    (hchans : ∀ ch : ChanId, ch.val ≠ j → s'.ctlr.channels ch = s.ctlr.channels ch)
    (hhere : ∀ (ch : ChanId) chan, ch.val = j → s'.ctlr.channels ch = some chan →
      chan.head = 0 ∧ chan.state = .idle) : Stopping i (j + 1) (j + 1) s' where
  lock := hlock.trans h.lock
  pc := by
    refine ⟨.ctlrStop (j + 1), ?_, ⟨rfl, rfl⟩, fun hd => by cases hd⟩
    rw [hcalls]
    exact getElem?_set_self hi
  before ch chan hlt hch := by
    by_cases hj : ch.val = j
    · exact hhere ch chan hj hch
    · rw [hchans ch hj] at hch
      exact h.before ch chan (by omega) hch
  after ch chan hle hch := by
    rw [hchans ch (by omega)] at hch
    exact h.after ch chan (by omega) hch

theorem setChan_other {ch ch' : ChanId} {j : ℕ} (hch : ch.val = j) (hne : ch'.val ≠ j)
    (c : CpdmaCtlr τ) (chan : CpdmaChan) : (c.setChan ch chan).channels ch' = c.channels ch' := by
  have hother : ch' ≠ ch := by
    rintro rfl
    exact hne hch
  simp [CpdmaCtlr.setChan, hother]

theorem Stopping.process {j : ℕ} (h : Stopping i j (j + 1) s) {pc onFail : Pc τ} {k : U32 → Cont}
    {ch : ChanId} {chan : CpdmaChan} (hj : ch.val = j) (hi : s.calls[i]? = some pc)
    (hfail : onFail.stops j (j + 1)) (hdone : onFail.isDone = false)
    (hk : ∀ status, (k status).returnsTo (.ctlrStop j)) :
    Stopping i j (j + 1) (processStep params s i ch chan onFail k) := by
  unfold processStep
  split
  · exact h.stay le_rfl hi rfl rfl hfail hdone fun ch' hne => setChan_other hj hne _ _
  · rename_i status _
    exact h.stay le_rfl hi rfl rfl ⟨hj, hk status, rfl⟩ rfl fun ch' hne => setChan_other hj hne _ _

theorem Stopping.advance {j m : ℕ} (h : Stopping i j m s) {pc : Pc τ}
    (hi : s.calls[i]? = some pc) (hst : Cpdma.advance params s i pc = some s') :
    ∃ j' m', Stopping i j' m' s' := by
  obtain ⟨pc', hi', hpc, -⟩ := h.pc
  obtain rfl : pc' = pc := Option.some.inj (hi'.symm.trans hi)
  cases pc' with
  | done ret => cases hst
  | ctlrStop j' =>
    obtain ⟨rfl, rfl⟩ := hpc
    simp only [Cpdma.advance] at hst
    split at hst
    · rename_i hlt
      split at hst
      · rename_i hnone
        obtain rfl := Option.some.inj hst
        refine ⟨_, _, h.next (by omega) hi rfl rfl (fun _ _ => rfl) fun ch chan hj hch => ?_⟩
        obtain rfl : ch = ⟨m, hlt⟩ := Fin.ext hj
        rw [show (s.setPc i (.ctlrStop (m + 1))).ctlr.channels = s.ctlr.channels from rfl,
          hnone] at hch
        cases hch
      · rename_i chan hch
        obtain rfl := Option.some.inj hst
        have hstate := h.after ⟨m, hlt⟩ chan le_rfl hch
        simp only [stopBeginStep, hstate, if_false]
        exact ⟨_, _, h.stay (by omega) hi rfl rfl ⟨rfl, rfl, rfl⟩ rfl fun ch' hne =>
          setChan_other rfl hne _ _⟩
    · rename_i hge
      split at hst
      · obtain rfl := Option.some.inj hst
        refine ⟨m, m, h.lock, ⟨_, getElem?_set_self hi, ⟨by omega, rfl⟩, fun _ => rfl⟩, ?_, ?_⟩
        · exact fun ch chan hlt hch => h.before ch chan hlt hch
        · exact fun ch chan hle hch => h.after ch chan hle hch
      · cases hst
  | stopDrain ch ret =>
    obtain ⟨hj, rfl, rfl⟩ := hpc
    obtain ⟨chan, -, rfl⟩ := Option.map_eq_some_iff.mp hst
    exact ⟨_, _, h.process hj hi ⟨hj, rfl, rfl⟩ rfl fun _ => rfl⟩
  | stopClean ch ret =>
    obtain ⟨hj, rfl, rfl⟩ := hpc
    obtain ⟨chan, -, rfl⟩ := Option.map_eq_some_iff.mp hst
    unfold stopCleanStep
    split
    · rename_i hhead
      refine ⟨_, _, h.next le_rfl hi rfl rfl (fun ch' hne => setChan_other hj hne _ _)
        fun ch' chan' hj' hch' => ?_⟩
      obtain rfl : ch' = ch := Fin.ext (hj'.trans hj.symm)
      have heq : some { chan with state := .idle } = some chan' := by
        simpa [State.setPc, State.setChan, CpdmaCtlr.setChan] using hch'
      obtain rfl := Option.some.inj heq
      exact ⟨hhead, rfl⟩
    · exact ⟨_, _, h.stay le_rfl hi rfl rfl ⟨hj, rfl, rfl⟩ rfl fun ch' hne =>
        setChan_other hj hne _ _⟩
  | chanFree ch desc outlen status k =>
    obtain ⟨hj, hk, rfl⟩ := hpc
    obtain rfl := Option.some.inj hst
    exact ⟨_, _, h.stay le_rfl hi rfl rfl ⟨hj, hk, rfl⟩ rfl fun _ _ => rfl⟩
  | handler ch item outlen status k =>
    obtain ⟨hj, hk, rfl⟩ := hpc
    obtain rfl := Option.some.inj hst
    cases k with
    | process quota used => exact hk.elim
    | stopDrain tdComplete ret =>
      obtain rfl := hk
      cases tdComplete <;>
        exact ⟨_, _, h.stay le_rfl hi rfl rfl ⟨hj, rfl, rfl⟩ rfl fun _ _ => rfl⟩
    | stopClean ret =>
      obtain rfl := hk
      exact ⟨_, _, h.stay le_rfl hi rfl rfl ⟨hj, rfl, rfl⟩ rfl fun _ _ => rfl⟩
  | _ => exact hpc.elim

/-- A change that neither the call nor the heads and states of the channels notice. -/
theorem Stopping.frame {j m : ℕ} (h : Stopping i j m s) (hlock : s'.lock = s.lock)
    (hpc : s'.calls[i]? = s.calls[i]?) (hctlr : s'.ctlr.state = s.ctlr.state)
    (hchans : ∀ ch chan', s'.ctlr.channels ch = some chan' → ∃ chan,
      s.ctlr.channels ch = some chan ∧ chan'.head = chan.head ∧ chan'.state = chan.state) :
    Stopping i j m s' where
  lock := hlock.trans h.lock
  pc := by
    rw [hpc, hctlr]
    exact h.pc
  before ch chan' hlt hch := by
    obtain ⟨chan, hold, hhead, hstate⟩ := hchans ch chan' hch
    rw [hhead, hstate]
    exact h.before ch chan hlt hold
  after ch chan' hle hch := by
    obtain ⟨chan, hold, -, hstate⟩ := hchans ch chan' hch
    rw [hstate]
    exact h.after ch chan hle hold

theorem Stopping.engine {j m : ℕ} (h : Stopping i j m s) (he : EngineOnly s s') :
    Stopping i j m s' := by
  refine h.frame he.lock (by rw [he.calls]) he.state fun ch chan' hch => ?_
  obtain ⟨chan, hold, hs, hstate⟩ := he.chans ch chan' hch
  exact ⟨chan, hold, hs.head, hstate⟩

/-- What a call that runs alone leaves as it is. -/
structure Kept (params : CpdmaParams) (i : ℕ) (s s' : State τ) : Prop where
  sound : Sound params s'
  calls : ∀ j, j ≠ i → s'.calls[j]? = s.calls[j]?
  quota : ∀ ch, chanQuota s' ch = chanQuota s ch

theorem Kept.of_run {ls : List (Op τ)} (h : Sound params s)
    (hrun : Run (step params) (AloneOk i) s ls s') : Kept params i s s' := by
  refine hrun.invariant (I := Kept params i s) (fun t op u hk hok hst => ?_)
    ⟨h, fun _ _ => rfl, fun _ => rfl⟩
  exact ⟨hk.sound.alone hok hst, fun j hj => (alone_calls hok hst hj).trans (hk.calls j hj),
    fun ch => (alone_chanQuota hok hst ch).trans (hk.quota ch)⟩

theorem Stopping.of_run {ls : List (Op τ)} {j m : ℕ} (h : Stopping i j m s)
    (hrun : Run (step params) (AloneOk i) s ls s') : ∃ j' m', Stopping i j' m' s' := by
  refine hrun.invariant (I := fun t => ∃ j m, Stopping i j m t) ?_ ⟨j, m, h⟩
  rintro t op u ⟨j, m, h⟩ hok hst
  rcases alone_cases hok hst with he | ⟨pc, hi, hadv⟩
  · exact ⟨j, m, h.engine he⟩
  · exact h.advance hi hadv

/-- After a call that was made at rest has returned, the driver is at rest. -/
theorem AtRest.returned (h : AtRest params s) {pc : Pc τ} {s₁ t : State τ} {ret : ℤ}
    (hcalls : s₁.calls = s.calls ++ [pc]) (hk : Kept params s.calls.length s₁ t)
    (hdone : t.calls[s.calls.length]? = some (.done ret)) (hlock : t.lock = none)
    (hstate : ∀ ch chan, t.ctlr.channels ch = some chan → chan.state ≠ .teardown) :
    AtRest params t where
  sound := hk.sound
  lock := hlock
  state := hstate
  calls j pc' hj := by
    by_cases hij : j = s.calls.length
    · subst hij
      rw [hdone] at hj
      obtain rfl := Option.some.inj hj
      rfl
    · rw [hk.calls j hij, hcalls] at hj
      rcases getElem?_spawn_cases hj with ⟨heq, -⟩ | hold
      · exact absurd heq hij
      · exact h.calls j pc' hold

theorem spawn_getElem? (s : State τ) (pc : Pc τ) :
    (s.spawn pc).calls[s.calls.length]? = some pc := by
  simp [State.spawn]

/-- How a stop of an active controller that runs alone goes: it empties every channel. -/
structure StopRun (params : CpdmaParams) (s t : State τ) (ret : ℤ) where
  start : State τ
  sched : List (Op τ)
  begins : step params s .ctlrStop = some start
  calls : start.calls = s.calls ++ [.ctlrStop 0]
  run : Run (step params) (AloneOk s.calls.length) start sched t
  returned : t.calls[s.calls.length]? = some (.done ret)
  lock : t.lock = none
  drained : Drained t

theorem StopRun.of_stop (hlock : s.lock = none)
    (hstate : ∀ ch chan, s.ctlr.channels ch = some chan → chan.state ≠ .teardown)
    (hactive : s.ctlr.state = .active) {sched : List (Op τ)} {t : State τ} {ret : ℤ}
    (hst : cpdmaCtlrStop params sched s = some (t, ret)) :
    Nonempty (StopRun params s t ret) := by
  obtain ⟨s₁, hs₁, hcall⟩ := Option.bind_eq_some_iff.mp hst
  obtain ⟨hrun, hret⟩ := runCall_eq_some hcall
  have hbegins := hs₁
  simp only [step] at hs₁
  rw [if_neg (not_not.mpr hlock), if_neg (not_not.mpr hactive)] at hs₁
  obtain rfl := Option.some.inj hs₁
  have hstart : Stopping s.calls.length 0 0
      ({ s with ctlr := { s.ctlr with state := .teardown } }.spawn (.ctlrStop 0) : State τ) :=
    ⟨hlock, ⟨_, spawn_getElem? _ _, ⟨rfl, rfl⟩, fun hd => by cases hd⟩,
      fun _ _ hlt => absurd hlt (Nat.not_lt_zero _), fun ch chan _ hch => hstate ch chan hch⟩
  obtain ⟨j, m, hstop⟩ := hstart.of_run hrun
  obtain ⟨pc, hpc, hstops, hidle⟩ := hstop.pc
  obtain rfl := Option.some.inj (hret.symm.trans hpc)
  have hall : ∀ ch chan, t.ctlr.channels ch = some chan → chan.head = 0 ∧ chan.state = .idle :=
    fun ch chan hch => hstop.before ch chan (by have := hstops.1; omega) hch
  exact ⟨⟨_, sched, hbegins, rfl, hrun, hret, hstop.lock, hidle rfl, hall⟩⟩

/-- Stopping an active controller returns with every channel idle and empty. -/
theorem cpdmaCtlrStop_drains (h : AtRest params s) (hactive : s.ctlr.state = .active)
    {sched : List (Op τ)} {t : State τ} {ret : ℤ}
    (hst : cpdmaCtlrStop params sched s = some (t, ret)) :
    AtRest params t ∧ Drained t ∧ ∀ ch, chanQuota t ch = chanQuota s ch := by
  obtain ⟨r⟩ := StopRun.of_stop h.lock h.state hactive hst
  have hsound : Sound params r.start :=
    h.sound.step (show Traffic s .ctlrStop from trivial) (show Covered s .ctlrStop from trivial)
      r.begins
  have hk := Kept.of_run hsound r.run
  have hquota : ∀ ch, chanQuota r.start ch = chanQuota s ch :=
    (step_move (show LenOk s (.ctlrStop : Op τ) from trivial) rfl r.begins).chanQuota
  refine ⟨h.returned r.calls hk r.returned r.lock fun ch chan hch hteardown => ?_, r.drained,
    fun ch => (hk.quota ch).trans (hquota ch)⟩
  rw [(r.drained.chans ch chan hch).2] at hteardown
  cases hteardown

theorem cpdmaControlSetLocked_state (c : CpdmaCtlr τ) (control : ℤ) (value : U32) :
    (cpdmaControlSetLocked params c control value).1.state = c.state := by
  unfold cpdmaControlSetLocked
  split
  · rfl
  split
  · rfl
  split
  · rfl
  split <;> rfl

theorem cpdmaChanSetChanShaper_state (c : CpdmaCtlr τ) (ch : ChanId) (chan : CpdmaChan) :
    (cpdmaChanSetChanShaper params c ch chan).1.state = c.state := by
  unfold cpdmaChanSetChanShaper
  split
  · rfl
  · exact cpdmaControlSetLocked_state _ _ _

/-- Turning a channel on leaves the controller's state and no channel in teardown. -/
theorem ctlrStartChan_keeps (params : CpdmaParams) {c : CpdmaCtlr τ} {ch : ChanId}
    {chan : CpdmaChan}
    (hstate : ∀ ch chan, c.channels ch = some chan → chan.state ≠ .teardown) :
    (ctlrStartChan params c ch chan).state = c.state ∧ ∀ ch' chan',
      (ctlrStartChan params c ch chan).channels ch' = some chan' → chan'.state ≠ .teardown := by
  have hshaper : (cpdmaChanSetChanShaper params c ch chan).1.channels = c.channels :=
    cpdmaChanSetChanShaper_channels
  unfold ctlrStartChan cpdmaChanOn
  dsimp only
  split
  · refine ⟨cpdmaChanSetChanShaper_state c ch chan, fun ch' chan' hch' => ?_⟩
    dsimp only at hch'
    rw [hshaper] at hch'
    exact hstate ch' chan' hch'
  split
  · refine ⟨cpdmaChanSetChanShaper_state c ch chan, fun ch' chan' hch' => ?_⟩
    dsimp only at hch'
    rw [hshaper] at hch'
    exact hstate ch' chan' hch'
  · refine ⟨cpdmaChanSetChanShaper_state c ch chan, fun ch' chan' hch' => ?_⟩
    by_cases heq : ch' = ch
    · subst heq
      have hset : some (turnOn params.pool ch' chan) = some chan' := by
        simpa [CpdmaCtlr.setChan, CpdmaCtlr.dmaRegWrite] using hch'
      obtain rfl := Option.some.inj hset
      rw [turnOn_state]
      exact fun hne => by cases hne
    · refine hstate ch' chan' ?_
      rw [← hshaper]
      simpa [CpdmaCtlr.setChan, CpdmaCtlr.dmaRegWrite, heq] using hch'

theorem ctlrStartBegin_keeps {c : CpdmaCtlr τ}
    (hstate : ∀ ch chan, c.channels ch = some chan → chan.state ≠ .teardown) (ch : ChanId)
    (chan : CpdmaChan) (hch : (ctlrStartBegin params c).channels ch = some chan) :
    chan.state ≠ .teardown := by
  have hzero : zeroHdp params c.channels ch = some chan := by
    unfold ctlrStartBegin at hch
    split at hch <;> exact hch
  unfold zeroHdp at hzero
  split at hzero
  · obtain ⟨chan₀, hold, rfl⟩ := Option.map_eq_some_iff.mp hzero
    exact hstate ch chan₀ hold
  · exact hstate ch chan hzero

/-- cpdma_ctlr_start on its way, or back with the controller active. -/
structure Starting (i : ℕ) (s₀ s : State τ) : Prop where
  active : s.ctlr.state = .active
  pc : ∃ pc, s.calls[i]? = some pc ∧
    ((∃ j prioMode, pc = .ctlrStart j prioMode) ∨ (∃ ret, pc = .done ret) ∧ s.lock = none)
  chans : ∀ ch, ChanSteady (s₀.ctlr.channels ch) (s.ctlr.channels ch)
  state : ∀ ch chan, s.ctlr.channels ch = some chan → chan.state ≠ .teardown

theorem Starting.engine (h : Starting i s₀ s) (he : EngineOnly s s') : Starting i s₀ s' where
  active := he.state.trans h.active
  pc := by
    rw [he.calls, he.lock]
    exact h.pc
  chans ch := (h.chans ch).trans (he.steady ch)
  state ch chan' hch := by
    obtain ⟨chan, hold, -, hstate⟩ := he.chans ch chan' hch
    rw [hstate]
    exact h.state ch chan hold

theorem Starting.advance (h : Starting i s₀ s) {pc : Pc τ} (hi : s.calls[i]? = some pc)
    (hst : Cpdma.advance params s i pc = some s') : Starting i s₀ s' := by
  obtain ⟨pc', hi', hpc⟩ := h.pc
  obtain rfl : pc' = pc := Option.some.inj (hi'.symm.trans hi)
  rcases hpc with ⟨j, prioMode, rfl⟩ | ⟨⟨ret, rfl⟩, -⟩
  · simp only [Cpdma.advance] at hst
    split at hst
    · split at hst
      · obtain rfl := Option.some.inj hst
        exact ⟨h.active, ⟨_, getElem?_set_self hi, Or.inl ⟨_, _, rfl⟩⟩, h.chans, h.state⟩
      · rename_i chan hch
        obtain rfl := Option.some.inj hst
        obtain ⟨hactive, hstate⟩ := ctlrStartChan_keeps params h.state
        exact ⟨hactive.trans h.active, ⟨_, getElem?_set_self hi, Or.inl ⟨_, _, rfl⟩⟩,
          fun ch' => (h.chans ch').trans ((ctlrStartChan_agree hch).chans ch'), hstate⟩
    · obtain rfl := Option.some.inj hst
      have hchans : (ctlrStartEnd params s.ctlr prioMode).channels = s.ctlr.channels :=
        (cpdmaControlSetLocked_channels _ _).trans (cpdmaControlSetLocked_channels _ _)
      refine ⟨?_, ⟨_, getElem?_set_self hi, Or.inr ⟨⟨0, rfl⟩, rfl⟩⟩, fun ch => ?_,
        fun ch chan hch => ?_⟩
      · exact ((cpdmaControlSetLocked_state _ _ _).trans
          (cpdmaControlSetLocked_state _ _ _)).trans h.active
      · exact (h.chans ch).trans ((ctlrStartEnd_agree prioMode).chans ch)
      · exact h.state ch chan (by rw [← hchans]; exact hch)
  · cases hst

theorem Starting.of_run {ls : List (Op τ)} (h : Starting i s₀ s)
    (hrun : Run (step params) (AloneOk i) s ls s') : Starting i s₀ s' := by
  refine hrun.invariant (fun t op u h hok hst => ?_) h
  rcases alone_cases hok hst with he | ⟨pc, hi, hadv⟩
  · exact h.engine he
  · exact h.advance hi hadv

/-- Starting a controller returns with it active and every queue as it was. -/
theorem cpdmaCtlrStart_starts (h : AtRest params s) (hstate : s.ctlr.state ≠ .teardown)
    {sched : List (Op τ)} {t : State τ} {ret : ℤ}
    (hst : cpdmaCtlrStart params sched s = some (t, ret)) :
    AtRest params t ∧ t.ctlr.state = .active ∧
      ∀ ch, ChanSteady (s.ctlr.channels ch) (t.ctlr.channels ch) := by
  obtain ⟨s₁, hs₁, hcall⟩ := Option.bind_eq_some_iff.mp hst
  obtain ⟨hrun, hret⟩ := runCall_eq_some hcall
  have hsound : Sound params s₁ :=
    h.sound.step (show Traffic s .ctlrStart from trivial) (show Covered s .ctlrStart from trivial)
      hs₁
  have hk := Kept.of_run hsound hrun
  have hstarting : Starting s.calls.length s s₁ ∧ ∃ pc, s₁.calls = s.calls ++ [pc] := by
    obtain ⟨-, ⟨hbusy, rfl⟩ | ⟨-, rfl⟩⟩ := step_ctlrStart hs₁
    · have hactive : s.ctlr.state = .active := by
        cases hs : s.ctlr.state with
        | idle => exact absurd hs hbusy
        | active => rfl
        | teardown => exact absurd hs hstate
      exact ⟨⟨hactive, ⟨_, spawn_getElem? _ _, Or.inr ⟨⟨_, rfl⟩, h.lock⟩⟩,
        fun _ => ChanSteady.refl _, h.state⟩, _, rfl⟩
    · refine ⟨⟨?_, ⟨_, spawn_getElem? _ _, Or.inl ⟨_, _, rfl⟩⟩, fun ch => ?_, ?_⟩, _, rfl⟩
      · rfl
      · exact ctlrStartBegin_agree.chans ch
      · exact ctlrStartBegin_keeps h.state
  obtain ⟨hstarting, pc, hcalls⟩ := hstarting
  have hend := hstarting.of_run hrun
  obtain ⟨pc', hpc', hdone⟩ := hend.pc
  obtain rfl := Option.some.inj (hret.symm.trans hpc')
  rcases hdone with ⟨j, prioMode, hne⟩ | ⟨-, hlock⟩
  · cases hne
  · exact ⟨h.returned hcalls hk hret hlock hend.state, hend.active, hend.chans⟩

end CpswDriver.Cpdma
