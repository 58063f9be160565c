import CpswDriver.Cpdma.Moves
import CpswDriver.Lib.Ownership

/-!
Every packet is somewhere. The invariant gives each descriptor of the pool one
owner: the pool itself, the queue of one channel, or one call that has taken it
off a queue. The four moves of a packet pass a descriptor from owner to owner,
and nothing else changes hands.
-/

namespace CpswDriver.Cpdma

open CallTable LinkedList Ownership Runs

variable {τ : Type*} {params : CpdmaParams} {s s' : State τ} {q : ChanId → List ℕ}

inductive Owner
  | free
  | queued (ch : ChanId)
  | held (i : ℕ)

/-- Where descriptors are found. -/
def place (s : State τ) (q : ChanId → List ℕ) : Owner → ℕ → Prop
  | .free, d => d ∈ s.ctlr.avail
  | .queued ch, d => d ∈ q ch
  | .held i, d => (s.calls[i]?).bind Pc.desc = some d

/-- The invariant, for the queues `q` and the owners `own`. -/
structure Wf (params : CpdmaParams) (s : State τ) (q : ChanId → List ℕ) (own : ℕ → Owner) :
    Prop where
  chan : ∀ ch chan, s.ctlr.channels ch = some chan → Queue params.pool s.ctlr.mem chan (q ch)
  none : ∀ ch, s.ctlr.channels ch = none → q ch = []
  owned : Owned params.pool.descs (place s q) own
  order : ∀ ch, s.accepted ch = s.removed ch ++ (q ch).map (itemAt s.ctlr.mem)
  handed : ∀ ch, (s.removed ch : Multiset (Item τ)) =
    s.handled ch + total (Pc.items s.ctlr.mem ch) s.calls

section Moves

variable {own : ℕ → Owner} {ch : ChanId} {chan chan' : CpdmaChan} {d i : ℕ}

theorem Wf.initial (h : Initial params s) : Wf params s (fun _ => []) fun _ => .free where
  chan ch chan hch := Queue.empty (h.chans ch chan hch).1 (h.chans ch chan hch).2.1
  none _ _ := rfl
  owned p d := by cases p <;> simp [place, h.avail, h.calls]
  order ch := by simp [h.fresh]
  handed ch := by simp [h.fresh, h.calls]

/-- Queues survive a change of the channels that leaves the pointers alone. -/
theorem Wf.chans_agree (h : Wf params s q own) {mem' : ℕ → CpdmaDesc τ}
    {channels' : ChanId → Option CpdmaChan}
    (hchans : ∀ ch, ChanAgree (s.ctlr.channels ch) (channels' ch))
    (hnext : ∀ d, (mem' d).hwNext = (s.ctlr.mem d).hwNext) :
    (∀ ch chan, channels' ch = some chan → Queue params.pool mem' chan (q ch)) ∧
      ∀ ch, channels' ch = Option.none → q ch = [] := by
  refine ⟨fun ch chan hch => ?_, fun ch hch => ?_⟩
  · have hagree := hchans ch
    rw [hch] at hagree
    cases hold : s.ctlr.channels ch with
    | none =>
      rw [hold] at hagree
      cases hagree with
      | create hhead hcount =>
        rw [h.none ch hold]
        exact Queue.empty hhead hcount
    | some old =>
      rw [hold] at hagree
      cases hagree with
      | some hq => exact (h.chan ch old hold).congr hq fun d _ => hnext d
  · have hagree := hchans ch
    rw [hch] at hagree
    cases hold : s.ctlr.channels ch with
    | none => exact h.none ch hold
    | some old =>
      rw [hold] at hagree
      cases hagree

theorem Wf.same (h : Wf params s q own) (hs : Same s s') : Wf params s' q own where
  chan := (h.chans_agree (fun ch => (hs.chans ch).agree) hs.next).1
  none := (h.chans_agree (fun ch => (hs.chans ch).agree) hs.next).2
  owned := h.owned.congr fun p d => by cases p <;> simp [place, hs.avail, hs.held]
  order ch := by
    rw [hs.accepted, hs.removed, h.order, funext hs.item]
  handed ch := by
    have hitems : Pc.items s'.ctlr.mem ch = Pc.items s.ctlr.mem ch := by
      funext pc
      cases pc <;> simp [Pc.items, hs.item]
    rw [hs.removed, hs.handled, hitems, hs.items, h.handed]

theorem Wf.resplit (h : Wf params s q own) {c : CpdmaCtlr τ} (hs : Resplit s.ctlr c) :
    Wf params { s with ctlr := c } q own where
  chan := (h.chans_agree hs.chans fun d => congrArg (fun mem => (mem d).hwNext) hs.mem).1
  none := (h.chans_agree hs.chans fun d => congrArg (fun mem => (mem d).hwNext) hs.mem).2
  owned := h.owned.congr fun p d => by cases p <;> simp [place, hs.avail]
  order ch := by
    rw [show c.mem = s.ctlr.mem from hs.mem]
    exact h.order ch
  handed ch := by
    rw [show c.mem = s.ctlr.mem from hs.mem]
    exact h.handed ch

/-- Packets in flight are read from descriptors that calls hold. -/
theorem items_congr {mem' : ℕ → CpdmaDesc τ}
    (hitem : ∀ e i, place s q (.held i) e → itemAt mem' e = itemAt s.ctlr.mem e) (ch : ChanId) :
    total (Pc.items mem' ch) s.calls = total (Pc.items s.ctlr.mem ch) s.calls := by
  refine total_congr _ _ fun pc hpc => ?_
  cases pc with
  | chanFree ch' e outlen status k =>
    obtain ⟨i, hi⟩ := List.getElem?_of_mem hpc
    have he : place s q (.held i) e := by simp [place, hi, Pc.desc]
    simp only [Pc.items, hitem e i he]
  | _ => rfl

theorem Wf.enqueue (h : Wf params s q own) {fresh : CpdmaDesc τ} {mem' : ℕ → CpdmaDesc τ}
    {item : Item τ} {rxfree : U32} (hch : s.ctlr.channels ch = some chan)
    (hd : d ∈ s.ctlr.avail) (hnext : fresh.hwNext = 0)
    (hitem : itemAt (Function.update s.ctlr.mem d fresh) d = item)
    (hl : Linked params.pool (Function.update s.ctlr.mem d fresh) chan d mem' chan') :
    Wf params ({ s with
        ctlr := { s.ctlr with avail := s.ctlr.avail.erase d, mem := mem' }.setChan ch
          { chan' with rxfree := rxfree, count := chan'.count + 1 } }.accept ch item)
      (Function.update q ch (q ch ++ [d])) (Function.update own d (.queued ch)) := by
  have hfree : place s q .free d := hd
  have hnot : ∀ ch', d ∉ q ch' := by
    intro ch' hmem
    cases h.owned.unique hfree (show place s q (.queued ch') d from hmem)
  have hne : ∀ {ch' e}, e ∈ q ch' → e ≠ d := fun he hed => hnot _ (hed ▸ he)
  have hother : ∀ e, e ≠ d → itemAt mem' e = itemAt s.ctlr.mem e := by
    intro e he
    rw [hl.item]
    simp [itemAt, he]
  have hqueue : Queue params.pool (Function.update s.ctlr.mem d fresh) chan (q ch) :=
    (h.chan ch chan hch).congr (SameQueue.refl chan) fun e he => by
      rw [hwNext_update, if_neg (hne he)]
  refine ⟨?_, ?_, ?_, ?_, ?_⟩
  · intro ch' chan'' hch'
    by_cases heq : ch' = ch
    · subst heq
      obtain rfl : _ = chan'' := by simpa [CpdmaCtlr.setChan, State.accept] using hch'
      rw [Function.update_self]
      exact hqueue.enqueue hl (h.owned.mem hfree) (hnot _) (by simpa using hnext) rxfree
    · have hold : s.ctlr.channels ch' = some chan'' := by
        simpa [CpdmaCtlr.setChan, State.accept, heq] using hch'
      rw [Function.update_of_ne heq]
      refine (h.chan ch' chan'' hold).congr (SameQueue.refl _) fun e he => ?_
      change (mem' e).hwNext = _
      rw [hl.next, hwNext_update, if_neg (hne he), if_neg]
      rintro ⟨hhead, rfl⟩
      have hplace : place s q (.queued ch) chan.tail := hqueue.tail_mem hhead
      cases h.owned.unique hplace (show place s q (.queued ch') _ from he)
      exact heq rfl
  · intro ch' hnone
    have heq : ch' ≠ ch := by
      rintro rfl
      simp [CpdmaCtlr.setChan, State.accept] at hnone
    rw [Function.update_of_ne heq]
    exact h.none ch' (by simpa [CpdmaCtlr.setChan, State.accept, heq] using hnone)
  · refine h.owned.move hfree ?_ ?_
    · intro p
      cases p with
      | free => simp [place, CpdmaCtlr.setChan, State.accept]
      | queued ch' =>
        by_cases heq : ch' = ch
        · subst heq
          simp [place]
        · simp [place, heq, hnot, Ne.symm heq]
      | held i =>
        have hheld : ¬ place s q (.held i) d := fun hp => by cases h.owned.unique hfree hp
        simpa [place, State.accept] using hheld
    · intro p e he
      cases p with
      | free => simp [place, CpdmaCtlr.setChan, State.accept, he]
      | queued ch' =>
        by_cases heq : ch' = ch
        · subst heq
          simp [place, he]
        · simp [place, heq]
      | held i => rfl
  · intro ch'
    have hmap := List.map_congr_left fun e (he : e ∈ q ch') => hother e (hne he)
    by_cases heq : ch' = ch
    · subst heq
      simp [State.accept, CpdmaCtlr.setChan, h.order, hmap, hl.item, hitem]
    · simp [State.accept, CpdmaCtlr.setChan, heq, h.order, hmap]
  · intro ch'
    refine (h.handed ch').trans (congrArg _ (items_congr (q := q) ?_ ch').symm)
    intro e i he
    refine hother e ?_
    rintro rfl
    cases h.owned.unique hfree he

theorem Wf.dequeue (h : Wf params s q own) {pc : Pc τ} {outlen status : ℤ} {k : Cont}
    (hch : s.ctlr.channels ch = some chan) (hu : Unlinked params.pool s.ctlr.mem chan chan')
    (hi : s.calls[i]? = some pc) (hpc : pc.Plain) :
    Wf params (((s.setChan ch chan').remove ch chan.head).setPc i
        (.chanFree ch chan.head outlen status k))
      (Function.update q ch (q ch).tail) (Function.update own chan.head (.held i)) := by
  obtain ⟨l, hq, hl⟩ := (h.chan ch chan hch).dequeue hu
  have hqueued : place s q (.queued ch) chan.head := by simp [place, hq]
  have hnotin : chan.head ∉ l := (List.nodup_cons.mp (hq ▸ (h.chan ch chan hch).nodup)).1
  have htail : (q ch).tail = l := by rw [hq]; rfl
  rw [htail]
  refine ⟨?_, ?_, ?_, ?_, ?_⟩
  · intro ch' chan'' hch'
    by_cases heq : ch' = ch
    · subst heq
      obtain rfl : chan' = chan'' := by
        simpa [CpdmaCtlr.setChan, State.setChan, State.remove, State.setPc] using hch'
      rw [Function.update_self]
      exact hl
    · have hold : s.ctlr.channels ch' = some chan'' := by
        simpa [CpdmaCtlr.setChan, State.setChan, State.remove, State.setPc, heq] using hch'
      rw [Function.update_of_ne heq]
      exact h.chan ch' chan'' hold
  · intro ch' hnone
    have heq : ch' ≠ ch := by
      rintro rfl
      simp [CpdmaCtlr.setChan, State.setChan, State.remove, State.setPc] at hnone
    rw [Function.update_of_ne heq]
    exact h.none ch' (by
      simpa [CpdmaCtlr.setChan, State.setChan, State.remove, State.setPc, heq] using hnone)
  · refine h.owned.move hqueued ?_ ?_
    · intro p
      cases p with
      | free =>
        have hp : ¬ place s q .free chan.head := fun hp => by cases h.owned.unique hqueued hp
        exact iff_of_false hp (by simp)
      | queued ch' =>
        by_cases heq : ch' = ch
        · subst heq
          simpa [place] using hnotin
        · have hp : ¬ place s q (.queued ch') chan.head := fun hp => by
            cases h.owned.unique hqueued hp
            exact heq rfl
          simpa [place, heq] using hp
      | held j =>
        have hp : ¬ place s q (.held j) chan.head := fun hp => by cases h.owned.unique hqueued hp
        simp only [place, State.setPc, State.remove, State.setChan, bind_desc_set hi]
        split
        · rename_i hj
          simp [hj]
        · rename_i hj
          simpa [place, hj] using hp
    · intro p e he
      cases p with
      | free => rfl
      | queued ch' =>
        by_cases heq : ch' = ch
        · subst heq
          simp [place, hq, he]
        · simp [place, heq]
      | held j =>
        simp only [place, State.setPc, State.remove, State.setChan, bind_desc_set hi]
        split
        · rename_i hj
          simp [← hj, hi, hpc.desc, Ne.symm he]
        · rfl
  · intro ch'
    by_cases heq : ch' = ch
    · subst heq
      simp [State.remove, State.setPc, State.setChan, CpdmaCtlr.setChan, h.order, hq]
    · simp [State.remove, State.setPc, State.setChan, CpdmaCtlr.setChan, h.order, heq]
  · intro ch'
    have hset := total_set (Pc.items s.ctlr.mem ch') (.chanFree ch chan.head outlen status k) hi
    rw [hpc.items, add_zero] at hset
    change ((Function.update s.removed ch (s.removed ch ++ [itemAt s.ctlr.mem chan.head]) ch' :
      List (Item τ)) : Multiset (Item τ)) = (s.handled ch' : Multiset (Item τ)) +
        total (Pc.items s.ctlr.mem ch') (s.calls.set i (.chanFree ch chan.head outlen status k))
    rw [hset, ← add_assoc, ← h.handed]
    by_cases heq : ch' = ch
    · subst heq
      simp [Pc.items, ← Multiset.coe_add, Multiset.coe_singleton]
    · simp [Pc.items, heq, Ne.symm heq]

theorem Wf.free (h : Wf params s q own) {outlen status : ℤ} {k : Cont}
    (hi : s.calls[i]? = some (.chanFree ch d outlen status k)) :
    Wf params ({ s with ctlr := (cpdmaChanFree s.ctlr d).1 }.setPc i
        (.handler ch (cpdmaChanFree s.ctlr d).2 outlen status k))
      q (Function.update own d .free) := by
  have hheld : place s q (.held i) d := by simp [place, hi, Pc.desc]
  refine ⟨h.chan, h.none, ?_, h.order, ?_⟩
  · refine h.owned.move hheld ?_ ?_
    · intro p
      cases p with
      | free => simp [place, State.setPc, cpdmaChanFree]
      | queued ch' =>
        have hp : ¬ place s q (.queued ch') d := fun hp => by cases h.owned.unique hheld hp
        simpa [place] using hp
      | held j =>
        simp only [place, State.setPc, bind_desc_set hi]
        split
        · simp
        · rename_i hj
          have hp : ¬ place s q (.held j) d := fun hp => by
            cases h.owned.unique hheld hp
            exact hj rfl
          simpa [place] using hp
    · intro p e he
      cases p with
      | free => simp [place, State.setPc, cpdmaChanFree, he]
      | queued ch' => rfl
      | held j =>
        simp only [place, State.setPc, bind_desc_set hi]
        split
        · rename_i hj
          simp [← hj, hi, Ne.symm he]
        · rfl
  · intro ch'
    refine (h.handed ch').trans (congrArg _ (total_set_of_eq _ _ hi ?_).symm)
    simp [Pc.items, cpdmaChanFree]

theorem Wf.handBack (h : Wf params s q own) {item : Item τ} {outlen status : ℤ} {k : Cont}
    (hi : s.calls[i]? = some (.handler ch item outlen status k)) :
    Wf params ((s.handle ch item).setPc i (k.resume ch)) q own := by
  have hplain : (k.resume ch : Pc τ).Plain := k.plain_resume ch
  refine ⟨h.chan, h.none, ?_, h.order, ?_⟩
  · refine h.owned.congr fun p d => ?_
    cases p with
    | free => rfl
    | queued ch' => rfl
    | held j =>
      simp only [place, State.setPc, State.handle, bind_desc_set hi]
      split
      · rename_i hj
        simp [← hj, hi, hplain.desc]
      · rfl
  · intro ch'
    have hset := total_set (Pc.items s.ctlr.mem ch') (k.resume ch) hi
    rw [hplain.items, add_zero] at hset
    change (s.removed ch' : Multiset (Item τ)) =
      ((Function.update s.handled ch (s.handled ch ++ [item]) ch' : List (Item τ)) :
        Multiset (Item τ)) + total (Pc.items s.ctlr.mem ch') (s.calls.set i (k.resume ch))
    rw [h.handed, ← hset]
    by_cases heq : ch' = ch
    · subst heq
      rw [Function.update_self, ← Multiset.coe_add, Multiset.coe_singleton]
      simp only [Pc.items, if_true]
      rw [add_assoc, add_comm (total _ _)]
    · simp [Pc.items, heq, Ne.symm heq]

theorem Wf.move {o : Option ChanId} (h : Wf params s q own) (hm : Move params o s s') :
    ∃ q' own', Wf params s' q' own' := by
  cases hm with
  | same hs => exact ⟨_, _, h.same hs⟩
  | enqueue hch _ hd hnext hitem hl => exact ⟨_, _, h.enqueue hch hd hnext hitem hl⟩
  | dequeue hch hu hi hpc => exact ⟨_, _, h.dequeue hch hu hi hpc⟩
  | free hi => exact ⟨_, _, h.free hi⟩
  | handBack hi => exact ⟨_, _, h.handBack hi⟩

end Moves

theorem Wf.step {own : ℕ → Owner} (h : Wf params s q own) {op : Op τ} (hok : LenOk s op)
    (hst : Cpdma.step params s op = some s') : ∃ q' own', Wf params s' q' own' := by
  cases hsplit : op.resplits with
  | true =>
    obtain ⟨c, hs, rfl⟩ := step_resplit hsplit hst
    exact ⟨_, _, h.resplit hs⟩
  | false => exact h.move (step_move hok hsplit hst)

/-- In every state of a run the invariant holds for some queues and owners. -/
theorem Wf.of_run {s₀ : State τ} {ls : List (Op τ)} (hinit : Initial params s₀)
    (hrun : Run (Cpdma.step params) LenOk s₀ ls s) : ∃ q own, Wf params s q own := by
  refine hrun.invariant (I := fun s => ∃ q own, Wf params s q own) ?_ ⟨_, _, Wf.initial hinit⟩
  rintro s op t ⟨q, own, h⟩ hok hst
  exact h.step hok hst

/-- A call that has taken a packet of `ch` off the queue and has not passed it
to the handler yet. -/
def Pc.busyWith (ch : ChanId) : Pc τ → Bool
  | .chanFree ch' _ _ _ _ => ch' = ch
  | .handler ch' _ _ _ _ => ch' = ch
  | _ => false

theorem Pc.items_of_not_busyWith {mem : ℕ → CpdmaDesc τ} {ch : ChanId} {pc : Pc τ}
    (h : pc.busyWith ch = false) : pc.items mem ch = 0 := by
  cases pc <;> simp_all [Pc.busyWith, Pc.items]

theorem submitStep_refused {kind : SubmitKind} {ch : ChanId} {chan : CpdmaChan}
    {args : SubmitArgs τ} {mapped : Option U32} (hch : s.ctlr.channels ch = some chan)
    (hret : (submitStep params s kind ch chan args mapped).2 ≠ 0) : ∃ stats,
      (submitStep params s kind ch chan args mapped).1 =
        s.setChan ch { chan with stats := stats } := by
  unfold submitStep submitEntry at hret ⊢
  by_cases hallow : kind.allows chan.state
  · simp only [hallow, Bool.not_true, Bool.false_eq_true, if_false] at hret ⊢
    cases hr : cpdmaChanSubmitSi params s.ctlr ch chan (submitInfo kind args) mapped with
    | mk ctlr ret =>
      rcases cpdmaChanSubmitSi_cases hr with ⟨hne, stats, rfl⟩ | ⟨rfl, -⟩
      · rw [if_neg hne]
        exact ⟨stats, rfl⟩
      · simp [hr] at hret
  · simp only [hallow, Bool.not_false, if_true]
    refine ⟨chan.stats, ?_⟩
    have hself : Function.update s.ctlr.channels ch (some chan) = s.ctlr.channels := by
      rw [← hch, Function.update_eq_self]
    simp [State.setChan, CpdmaCtlr.setChan, hself, einval]

theorem Wf.queue (h : Wf params s q own) {ch : ChanId} {chan : CpdmaChan}
    (hch : s.ctlr.channels ch = some chan) : queueOf params.pool s.ctlr.mem chan = q ch :=
  (h.chan ch chan hch).queueOf_eq

theorem Wf.handled_perm (h : Wf params s q own) {ch : ChanId} (hq : q ch = [])
    (hbusy : ∀ pc ∈ s.calls, pc.busyWith ch = false) : (s.handled ch).Perm (s.accepted ch) := by
  have hitems : total (Pc.items s.ctlr.mem ch) s.calls = 0 := by
    rw [total_congr _ (fun _ => 0) fun pc hpc => Pc.items_of_not_busyWith (hbusy pc hpc)]
    simp [total]
  have hhanded := h.handed ch
  rw [hitems, add_zero] at hhanded
  rw [h.order, hq, List.map_nil, List.append_nil]
  exact (Multiset.coe_eq_coe.mp hhanded).symm

end CpswDriver.Cpdma
