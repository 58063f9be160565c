import CpswDriver.Cpdma.EndOfQueue
import CpswDriver.Cpdma.System

/-!
Starting the engine. Submitting and processing share the duty to restart an
engine that ran off the end of the queue, and both check for it. In every run
the channel makes progress and each start is in order, as long as no drain loop
of cpdma_chan_stop comes across a descriptor that the engine stopped at too
early: __cpdma_chan_process restarts the engine there without a look at the
channel's state, unlike __cpdma_chan_submit.
-/

namespace CpswDriver.Cpdma.Engine

open LinkedList Runs

variable {τ : Type*} {params : CpdmaParams} {ch : ChanId} {s t : State τ} {c r : List ℕ}

/-- No dequeue takes a descriptor with the end-of-queue bit and a successor off
a channel that is being torn down. -/
def NoTeardownRequeue (s : State τ) : Op τ → Prop
  | .advance => ∀ d mode drain, s.sect = .readNext d mode drain → s.chan.state = .teardown →
      hasEoq s.mem d = true → (s.mem d).hwNext = 0
  | _ => True

theorem allows_not_teardown {kind : SubmitKind} {state : CpdmaState}
    (h : kind.allows state = true) : state ≠ .teardown := by
  rintro rfl
  cases kind <;> cases h

section

variable {own : ℕ → Owner}

theorem Inv.submitBegin (h : Inv params s c r own) {si : SubmitInfo τ} {mapped : Option U32}
    (hsect : s.sect = .none) (hstate : s.chan.state ≠ .teardown) (hlen : si.len < 2 ^ 16) :
    ∃ own', Inv params (submitBegin params ch s si mapped) c r own' := by
  have hfail : Inv params { s with chan := allocFail s.chan } c r own :=
    h.chan_congr ⟨rfl, rfl, rfl⟩ rfl rfl
  unfold Engine.submitBegin
  split
  · exact ⟨_, hfail⟩
  cases halloc : params.pool.genPool.alloc s.avail with
  | none => exact ⟨_, hfail⟩
  | some d =>
    have hd := params.pool.genPool.alloc_mem _ _ halloc
    obtain ⟨stats, hrunt⟩ := countRunt_eq params si.len s.chan
    have hcount : Inv params { s with chan := countRunt params si.len s.chan } c r own := by
      rw [hrunt]
      exact h.chan_congr ⟨rfl, rfl, rfl⟩ rfl rfl
    dsimp only
    split
    · exact ⟨_, hcount⟩
    · rename_i buffer _
      have hmode := freshDesc_mode ch si buffer (paddedLen_lt params hlen)
      have hup : (countRunt params si.len s.chan).state ≠ .teardown := by
        rw [hrunt]
        exact hstate
      exact ⟨_, hcount.allocate hd hsect hup rfl hmode.1 hmode.2⟩

theorem Inv.advance (h : Inv params s c r own) (hok : NoTeardownRequeue s .advance)
    (hst : advance params ch s = some t) : ∃ c' r' own', Inv params t c' r' own' := by
  unfold Engine.advance at hst
  cases hsect : s.sect with
  | none => simp [hsect] at hst
  | tdWait => simp [hsect] at hst
  | link d =>
    simp only [hsect, Option.some.injEq] at hst
    subst hst
    by_cases hhead : s.chan.head = 0
    · exact ⟨_, _, _, h.link_empty hsect hhead⟩
    · exact ⟨_, _, _, h.link_tail hsect hhead⟩
  | readMode prev d =>
    simp only [hsect, Option.some.injEq] at hst
    subst hst
    unfold readModeStep
    dsimp only
    split
    · rename_i hmode
      exact ⟨_, _, _, h.eoq_found hsect hmode.1 hmode.2⟩
    · exact ⟨_, _, _, h.finish hsect⟩
  | clearEoq prev d mode =>
    simp only [hsect, Option.some.injEq] at hst
    subst hst
    exact ⟨_, _, _, h.clearEoq hsect⟩
  | misqueue d =>
    simp only [hsect, Option.some.injEq] at hst
    subst hst
    exact ⟨_, _, _, h.misqueue hsect⟩
  | readNext d mode drain =>
    simp only [hsect, Option.some.injEq] at hst
    subst hst
    obtain ⟨c', own', h'⟩ := h.readNext hsect (hok d mode drain hsect)
    exact ⟨_, _, _, h'⟩
  | requeue d mode drain =>
    simp only [hsect, Option.some.injEq] at hst
    subst hst
    exact ⟨_, _, _, h.requeue hsect⟩

theorem Inv.step (h : Inv params s c r own) {op : Op τ} (hok : NoTeardownRequeue s op)
    (hst : step params ch s op = some t) : ∃ c' r' own', Inv params t c' r' own' := by
  cases op with
  | submit kind args mapped =>
    simp only [Engine.step] at hst
    split at hst
    · cases hst
    rename_i hguard
    have hsect : s.sect = .none := by
      by_contra hne
      exact hguard (Or.inl hne)
    split at hst
    · obtain rfl := Option.some.inj hst
      exact ⟨_, _, _, h⟩
    · rename_i hallow
      obtain rfl := Option.some.inj hst
      have hlen : (submitInfo kind args).len < 2 ^ 16 := by
        by_contra hlen
        exact hguard (Or.inr (Nat.le_of_not_lt hlen))
      obtain ⟨own', h'⟩ := h.submitBegin hsect (allows_not_teardown (by simpa using hallow)) hlen
      exact ⟨_, _, _, h'⟩
  | process drain =>
    simp only [Engine.step] at hst
    split at hst
    · cases hst
    · rename_i hguard
      obtain rfl := Option.some.inj hst
      simp only [not_or, not_and, not_not] at hguard
      exact ⟨_, _, _, h.processBegin hguard.1 hguard.2⟩
  | chanOn =>
    simp only [Engine.step] at hst
    split at hst
    · cases hst
    · rename_i hsect
      obtain rfl := Option.some.inj hst
      exact ⟨_, _, _, h.chanOn (not_not.mp hsect)⟩
  | stopBegin =>
    simp only [Engine.step] at hst
    split at hst
    · cases hst
    · rename_i hsect
      obtain rfl := Option.some.inj hst
      exact ⟨_, _, _, h.stopBegin (not_not.mp hsect)⟩
  | stopClean =>
    simp only [Engine.step] at hst
    split at hst
    · cases hst
    · rename_i hguard
      obtain rfl := Option.some.inj hst
      simp only [not_or, not_not] at hguard
      exact h.stopClean hguard.1 hguard.2
  | free d =>
    simp only [Engine.step] at hst
    split at hst
    · rename_i hd
      obtain rfl := Option.some.inj hst
      exact ⟨_, _, _, h.free hd⟩
    · cases hst
  | advance => exact h.advance hok hst
  | otherTake d =>
    simp only [Engine.step] at hst
    split at hst
    · rename_i hd
      obtain rfl := Option.some.inj hst
      exact ⟨_, _, _, h.otherTake hd⟩
    · cases hst
  | otherGive d =>
    simp only [Engine.step] at hst
    split at hst
    · rename_i hd
      obtain rfl := Option.some.inj hst
      exact ⟨_, _, _, h.otherGive hd⟩
    · cases hst
  | engineRead =>
    simp only [Engine.step] at hst
    split at hst
    · cases hst
    · rename_i hguard
      obtain rfl := Option.some.inj hst
      exact ⟨_, _, _, h.engineRead (not_or.mp hguard).1⟩
  | engineDone bits =>
    obtain ⟨⟨d, nx⟩, heng, rfl⟩ := Option.map_eq_some_iff.mp hst
    obtain ⟨r', h'⟩ := h.engineDone bits heng
    exact ⟨_, _, _, h'⟩
  | teardownDone =>
    simp only [Engine.step] at hst
    split at hst
    · cases hst
    · rename_i hsect
      obtain rfl := Option.some.inj hst
      exact ⟨_, _, _, h.teardownDone (not_not.mp hsect)⟩
  | zeroHdp =>
    simp only [Engine.step] at hst
    split at hst
    · cases hst
    · rename_i hstate
      obtain rfl := Option.some.inj hst
      exact ⟨_, _, _, h.zeroHdp hstate⟩

theorem Inv.initial (h : Initial params s) : Inv params s [] [] fun _ => .free where
  queue := Queue.empty h.head (by simp [h.count, h.sect, Section.uncounted])
  owned p d := by cases p <;> simp [place, h.avail, h.held, h.others, h.sect, Section.desc]
  marks := ⟨by simp, by simp, by simp⟩
  running hdp := absurd h.hdp hdp
  working e nx he := by simp [h.eng] at he
  restart _ _ := Or.inl rfl
  idle _ := ⟨rfl, h.hdp⟩
  teardown _ := Or.inr h.hdp
  stop hstop := absurd h.stop hstop
  sect := by
    rw [h.sect]
    trivial

end

/-- What the channel code promises of a state it has reached. -/
structure Protocol (params : CpdmaParams) (ch : ChanId) (s : State τ) : Prop where
  /-- an active channel whose engine stopped short of descriptors it owns has the
  end-of-queue bit on the last completed one, and processing the completed ones
  starts the engine at the first it owns -/
  noStall : s.chan.state = .active → s.sect = .none → s.chan.hdp = 0 →
    (∃ d ∈ queueOf params.pool s.mem s.chan, isOwner s.mem d = true) →
    ∃ l₁ e d l₂, queueOf params.pool s.mem s.chan = l₁ ++ e :: d :: l₂ ∧
      (∀ x ∈ l₁, isOwner s.mem x = false ∧ hasEoq s.mem x = false) ∧
      isOwner s.mem e = false ∧ hasEoq s.mem e = true ∧ isOwner s.mem d = true ∧
      (processed params.pool s.mem (l₁.length + 1) s.chan).hdp = hwPtr params.pool d
  /-- a write to HDP finds it 0 and starts the engine at the first descriptor
  of the queue that it owns -/
  starts : ∀ op d t, startOf s op = some d → step params ch s op = some t →
    s.chan.hdp = 0 ∧ t.chan.hdp = hwPtr params.pool d ∧
    ∃ q, Chain 0 (nextDesc params.pool t.mem) t.chan.head q ∧ q.find? (isOwner t.mem) = some d
  /-- no other driver step writes HDP -/
  others : ∀ op t, op.byDriver = true → startOf s op = none → step params ch s op = some t →
    t.chan.hdp = s.chan.hdp

/-- Processing the completed descriptors one by one starts the engine behind them. -/
theorem processed_hdp {pool : CpdmaDescPool} {mem : ℕ → CpdmaDesc τ} {e d : ℕ} {l₂ : List ℕ}
    (hown : isOwner mem e = false) (heoq : hasEoq mem e = true) : ∀ {l₁ : List ℕ}
    {chan : CpdmaChan}, Chain 0 (nextDesc pool mem) chan.head (l₁ ++ e :: d :: l₂) →
    (∀ x ∈ l₁, isOwner mem x = false ∧ hasEoq mem x = false) →
    (processed pool mem (l₁.length + 1) chan).hdp = hwPtr pool d
  | [], chan, hchain, _ => by
    obtain ⟨rfl, hne, hnext, hdne, -⟩ := hchain
    have hcase := cpdmaChanProcessLocked_completed pool hne hown
    simp only [List.length_nil, processed]
    rw [hcase.2, if_pos ⟨heoq, by rwa [hnext]⟩, hnext]
  | x :: l₁, chan, hchain, hcompleted => by
    obtain ⟨rfl, hne, hrest⟩ := hchain
    obtain ⟨hx, hxeoq⟩ := hcompleted chan.head (List.mem_cons_self ..)
    have hcase := cpdmaChanProcessLocked_completed pool hne hx
    simp only [List.length_cons, processed]
    have hchain : Chain 0 (nextDesc pool mem) (cpdmaChanProcessLocked pool mem chan).1.head
        (l₁ ++ e :: d :: l₂) := by
      rw [hcase.1]
      exact hrest
    exact processed_hdp hown heoq hchain fun y hy => hcompleted y (List.mem_cons_of_mem _ hy)

theorem Marks.find {mem : ℕ → CpdmaDesc τ} (h : Marks mem c r) :
    (c ++ r).find? (isOwner mem) = r.head? := by
  rw [List.find?_append, List.find?_eq_none.mpr fun x hx => by simp [h.done x hx], Option.none_or]
  cases r with
  | nil => rfl
  | cons d r => simp [(h.todo d (List.mem_cons_self ..)).1]

section

variable {own : ℕ → Owner} {d : ℕ}

theorem Inv.queueOf (h : Inv params s c r own) (hsect : s.sect = .none) :
    queueOf params.pool s.mem s.chan = c ++ r := by
  have hq := h.queue
  simp only [hsect, Section.uncounted, Nat.add_zero] at hq
  exact hq.queueOf_eq

theorem Inv.noStall (h : Inv params s c r own) (hactive : s.chan.state = .active)
    (hsect : s.sect = .none) (hhdp : s.chan.hdp = 0) (hr : r ≠ []) :
    ∃ l₁ e d l₂, c ++ r = l₁ ++ e :: d :: l₂ ∧
      (∀ x ∈ l₁, isOwner s.mem x = false ∧ hasEoq s.mem x = false) ∧
      isOwner s.mem e = false ∧ hasEoq s.mem e = true ∧ isOwner s.mem d = true ∧
      (processed params.pool s.mem (l₁.length + 1) s.chan).hdp = hwPtr params.pool d := by
  obtain ⟨d, l₂, rfl⟩ := List.exists_cons_of_ne_nil hr
  rcases h.restart hhdp hactive with hnil | ⟨e, hlast, heoq⟩ | hstarts
  · simp at hnil
  · obtain ⟨l₁, rfl⟩ := List.getLast?_eq_some_iff.mp hlast
    have hsplit : l₁ ++ [e] ++ d :: l₂ = l₁ ++ e :: d :: l₂ := by simp
    have hown := h.marks.done e (by simp)
    have hcompleted : ∀ x ∈ l₁, isOwner s.mem x = false ∧ hasEoq s.mem x = false := by
      intro x hx
      refine ⟨h.marks.done x (List.mem_append_left _ hx), ?_⟩
      by_contra hq
      have hxl := h.marks.eoq x (List.mem_append_left _ hx) (by simpa using hq)
      obtain rfl : e = x := Option.some.inj (hlast.symm.trans hxl)
      have hnd := List.nodup_append.mp (List.nodup_append.mp h.nodup).1
      exact hnd.2.2 e hx e (List.mem_singleton_self e) rfl
    refine ⟨l₁, e, d, l₂, hsplit, hcompleted, hown, heoq, (h.marks.todo d (by simp)).1, ?_⟩
    exact processed_hdp hown heoq (hsplit ▸ h.queue.chain) hcompleted
  · simp [hsect, Section.starts] at hstarts

/-- Where a driver step writes HDP, it was 0, and it is told a descriptor of the pool. -/
theorem Inv.start_spec (h : Inv params s c r own) {op : Op τ} (hstart : startOf s op = some d)
    (hst : Engine.step params ch s op = some t) :
    s.chan.hdp = 0 ∧ t.chan.hdp = hwPtr params.pool d ∧ d ∈ params.pool.descs ∧
      NoTeardownRequeue s op := by
  cases op with
  | chanOn =>
    simp only [startOf] at hstart
    split at hstart
    · rename_i hguard
      obtain rfl := Option.some.inj hstart
      simp only [Engine.step] at hst
      split at hst
      · cases hst
      · obtain rfl := Option.some.inj hst
        refine ⟨(h.idle hguard.1).2, ?_, h.mem_descs (List.mem_of_head? (h.head hguard.2)), trivial⟩
        simp [chanOnStep, hguard.1, turnOn_hdp, hguard.2]
    · cases hstart
  | advance =>
    simp only [Engine.step, Engine.advance] at hst
    cases hsect : s.sect with
    | link e =>
      simp only [startOf, hsect] at hstart hst
      split at hstart
      · rename_i hguard
        obtain rfl := Option.some.inj hstart
        obtain rfl := Option.some.inj hst
        obtain ⟨rfl, rfl⟩ := h.head_null hguard.1
        have hhand : place s ([] ++ []) .sect e := by simp [place, hsect, Section.desc]
        refine ⟨h.hdp_zero_of_rest, ?_, h.owned.mem hhand, by simp [NoTeardownRequeue, hsect]⟩
        simp [linkStep, hguard.1, startIfActive_hdp, hguard.2]
      · cases hstart
    | misqueue e =>
      simp only [startOf, hsect] at hstart hst
      obtain rfl := Option.some.inj hstart
      obtain rfl := Option.some.inj hst
      obtain ⟨rfl, hhdp, -⟩ : SectOk s c r (.misqueue e) := hsect ▸ h.sect
      exact ⟨hhdp, by simp [misqueueStep], h.mem_descs (by simp),
        by simp [NoTeardownRequeue, hsect]⟩
    | requeue e mode drain =>
      simp only [startOf, hsect] at hstart hst
      obtain rfl := Option.some.inj hstart
      obtain rfl := Option.some.inj hst
      obtain ⟨rfl, hr, hhdp, -⟩ : SectOk s c r (.requeue e mode drain) := hsect ▸ h.sect
      have hhead : s.chan.head ≠ 0 := mt h.queue.head_null_iff.mp hr
      exact ⟨hhdp, rfl, h.mem_descs (List.mem_of_head? (h.head hhead)),
        by simp [NoTeardownRequeue, hsect]⟩
    | _ => simp [startOf, hsect] at hstart
  | _ => cases hstart

theorem Inv.starts (h : Inv params s c r own) {op : Op τ} (hstart : startOf s op = some d)
    (hst : Engine.step params ch s op = some t) :
    s.chan.hdp = 0 ∧ t.chan.hdp = hwPtr params.pool d ∧
    ∃ q, Chain 0 (nextDesc params.pool t.mem) t.chan.head q ∧ q.find? (isOwner t.mem) = some d := by
  obtain ⟨hhdp, hptr, hdesc, hok⟩ := h.start_spec hstart hst
  obtain ⟨c', r', own', h'⟩ := h.step hok hst
  obtain ⟨e, he, hptr', -⟩ := h'.running (by rw [hptr]; exact hwPtr_ne_zero hdesc)
  obtain rfl : d = e := by
    have hedesc := h'.mem_descs (List.mem_append_right c' (List.mem_of_head? he))
    rw [← descFromPhys_descPhys params.pool hdesc, ← descFromPhys_descPhys params.pool hedesc]
    exact congrArg (fun x : U32 => descFromPhys params.pool x.toNat) (hptr.symm.trans hptr')
  exact ⟨hhdp, hptr, c' ++ r', h'.queue.chain, h'.marks.find.trans he⟩

end

theorem submitBegin_hdp (si : SubmitInfo τ) (mapped : Option U32) :
    (submitBegin params ch s si mapped).chan.hdp = s.chan.hdp := by
  obtain ⟨stats, hrunt⟩ := countRunt_eq params si.len s.chan
  unfold submitBegin
  split
  · rfl
  split
  · rfl
  · dsimp only
    split <;> simp [hrunt]

theorem hdp_of_advance (hstart : startOf s .advance = none)
    (hst : step params ch s .advance = some t) : t.chan.hdp = s.chan.hdp := by
  simp only [step, advance] at hst
  cases hsect : s.sect with
  | none => simp [hsect] at hst
  | tdWait => simp [hsect] at hst
  | link d =>
    simp only [hsect] at hst
    obtain rfl := Option.some.inj hst
    simp only [startOf, hsect] at hstart
    unfold linkStep
    dsimp only
    split
    · rename_i hhead
      have hstate : s.chan.state ≠ .active := fun hactive => by simp [hhead, hactive] at hstart
      simp [startIfActive_hdp, hstate]
    · rfl
  | readMode prev d =>
    simp only [hsect] at hst
    obtain rfl := Option.some.inj hst
    unfold readModeStep
    dsimp only
    split
    · rfl
    · simp
  | clearEoq prev d mode =>
    simp only [hsect] at hst
    obtain rfl := Option.some.inj hst
    rfl
  | misqueue d => simp [startOf, hsect] at hstart
  | readNext d mode drain =>
    simp only [hsect] at hst
    obtain rfl := Option.some.inj hst
    unfold readNextStep
    dsimp only
    split <;> rfl
  | requeue d mode drain => simp [startOf, hsect] at hstart

theorem hdp_of_startOf_none {op : Op τ} (hdriver : op.byDriver = true)
    (hstart : startOf s op = none)
    (hst : step params ch s op = some t) : t.chan.hdp = s.chan.hdp := by
  cases op with
  | submit kind args mapped =>
    simp only [step] at hst
    split at hst
    · cases hst
    split at hst
    · obtain rfl := Option.some.inj hst
      rfl
    · obtain rfl := Option.some.inj hst
      exact submitBegin_hdp _ _
  | process drain =>
    simp only [step] at hst
    split at hst
    · cases hst
    · obtain rfl := Option.some.inj hst
      unfold processBegin
      dsimp only
      split
      · rfl
      · split <;> rfl
  | chanOn =>
    simp only [step] at hst
    split at hst
    · cases hst
    · obtain rfl := Option.some.inj hst
      unfold chanOnStep
      split
      · rfl
      · rename_i hidle
        have hhead : s.chan.head = 0 := by simpa [startOf, not_not.mp hidle] using hstart
        simp [turnOn_hdp, hhead]
  | stopBegin =>
    simp only [step] at hst
    split at hst
    · cases hst
    · obtain rfl := Option.some.inj hst
      unfold stopBeginStep
      split <;> rfl
  | stopClean =>
    simp only [step] at hst
    split at hst
    · cases hst
    · obtain rfl := Option.some.inj hst
      unfold stopCleanStep
      split <;> rfl
  | free d =>
    simp only [step] at hst
    split at hst
    · obtain rfl := Option.some.inj hst
      rfl
    · cases hst
  | advance => exact hdp_of_advance hstart hst
  | _ => cases hdriver

/-- As long as no drain loop takes a descriptor that carries the end-of-queue
bit and has a successor, the channel never stalls and every start is in order. -/
theorem protocol_of_run {s₀ : State τ} {ls : List (Op τ)} (hinit : Initial params s₀)
    (hrun : Run (step params ch) NoTeardownRequeue s₀ ls s) : Protocol params ch s := by
  obtain ⟨c, r, own, h⟩ : ∃ c r own, Inv params s c r own := by
    refine hrun.invariant (I := fun s => ∃ c r own, Inv params s c r own) ?_
      ⟨_, _, _, Inv.initial hinit⟩
    rintro s op t ⟨c, r, own, h⟩ hok hst
    exact h.step hok hst
  refine ⟨?_, fun op d t hstart hst => h.starts hstart hst,
    fun op t hdriver hstart hst => hdp_of_startOf_none hdriver hstart hst⟩
  rintro hactive hsect hhdp ⟨d, hd, hown⟩
  rw [h.queueOf hsect] at hd ⊢
  refine h.noStall hactive hsect hhdp ?_
  rintro rfl
  rw [h.marks.done d (by simpa using hd)] at hown
  cases hown

/-- A packet goes out on a channel that is turned on, and the engine completes it. -/
theorem protocol_after_packet : ∃ s : State ℕ,
    Run (step (smallParams 3 (by decide)) 0) NoTeardownRequeue
      (freshChannel (smallParams 3 (by decide)) 0 3)
      [.chanOn, .submit .submit ⟨1, 0, 100, 0⟩ (some 0x100), .advance, .engineRead,
        .engineDone 0] s ∧
    s.chan.hdp = 0 ∧ Protocol (smallParams 3 (by decide)) 0 s := by
  have hrun : ∃ s : State ℕ, Run (step (smallParams 3 (by decide)) 0) NoTeardownRequeue
      (freshChannel (smallParams 3 (by decide)) 0 3)
      [.chanOn, .submit .submit ⟨1, 0, 100, 0⟩ (some 0x100), .advance, .engineRead,
        .engineDone 0] s ∧
      s.chan.hdp = 0 :=
    ⟨_, .cons trivial rfl (.cons trivial rfl (.cons (fun _ _ _ h => by cases h) rfl
      (.cons trivial rfl (.cons trivial rfl (.nil _))))), rfl⟩
  obtain ⟨s, hrun, hhdp⟩ := hrun
  exact ⟨s, hrun, hhdp, protocol_of_run (initial_freshChannel _ _ _) hrun⟩

/-- A second packet is linked behind one that the engine is about to finish,
and the channel is stopped and started before anyone processes the first. -/
def stopStart : List (Op ℕ) :=
  [.chanOn, .submit .submit ⟨1, 0, 100, 0⟩ (some 0x100), .advance, .engineRead,
   .submit .submit ⟨2, 0, 100, 0⟩ (some 0x200), .advance, .advance, .engineDone 0,
   .stopBegin, .teardownDone, .process true, .advance, .advance, .process true, .stopClean,
   .stopClean, .chanOn, .submit .submit ⟨3, 0, 100, 0⟩ (some 0x300)]

/-- The drain loop starts the engine at the second packet, the channel goes
idle with the engine running, and the next packet is written over its HDP. -/
theorem protocol_fails_after_stopStart : ¬ ∀ (ls : List (Op ℕ)) (s : State ℕ),
    Run (step (smallParams 3 (by decide)) 0) anyStep
      (freshChannel (smallParams 3 (by decide)) 0 3) ls s →
    Protocol (smallParams 3 (by decide)) 0 s := by
  intro h
  have htest : (exec (step (smallParams 3 (by decide)) 0) anyStep
      (freshChannel (smallParams 3 (by decide)) 0 3) stopStart).any (fun s =>
        startOf s .advance == some 0x8040 && s.chan.hdp == 0x1020 &&
        (step (smallParams 3 (by decide)) 0 s .advance).isSome) = true := by decide
  obtain ⟨s, hrun, hs⟩ := exists_run_of_any htest
  simp only [Bool.and_eq_true, beq_iff_eq, Option.isSome_iff_exists] at hs
  obtain ⟨⟨hstart, hhdp⟩, t, hst⟩ := hs
  have hzero := ((h stopStart s hrun).starts .advance _ t hstart hst).1
  rw [hhdp] at hzero
  exact absurd hzero (by decide)

end CpswDriver.Cpdma.Engine
