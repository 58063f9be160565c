import CpswDriver.Cpdma.Channel
import CpswDriver.Lib.LinkedList

/-!
The queue of a channel as a list of descriptors. `Queue pool mem chan q` says
that the links in descriptor memory, the head and tail pointers and the count
of the channel describe `q`. Each locked section of the channel code is
specified once by what it does to these.
-/

namespace CpswDriver.Cpdma

open LinkedList

variable {τ : Type*} {pool : CpdmaDescPool} {mem mem' : ℕ → CpdmaDesc τ} {chan chan' : CpdmaChan}
  {q : List ℕ} {d : ℕ}

structure Queue (pool : CpdmaDescPool) (mem : ℕ → CpdmaDesc τ) (chan : CpdmaChan)
    (q : List ℕ) : Prop where
  chain : Chain 0 (nextDesc pool mem) chan.head q
  nodup : q.Nodup
  count : q.length = chan.count
  tail : ∀ d, q.getLast? = some d → chan.tail = d
  last : ∀ d, q.getLast? = some d → (mem d).hwNext = 0

/-- The pointers and the count of a channel are left alone. -/
structure SameQueue (chan chan' : CpdmaChan) : Prop where
  head : chan'.head = chan.head
  tail : chan'.tail = chan.tail
  count : chan'.count = chan.count

structure SameShape (chan chan' : CpdmaChan) : Prop extends SameQueue chan chan' where
  descNum : chan'.descNum = chan.descNum
  weight : chan'.weight = chan.weight

theorem SameShape.refl (chan : CpdmaChan) : SameShape chan chan := ⟨⟨rfl, rfl, rfl⟩, rfl, rfl⟩

theorem SameShape.trans {chan'' : CpdmaChan} (h : SameShape chan chan')
    (h' : SameShape chan' chan'') : SameShape chan chan'' :=
  ⟨⟨h'.head.trans h.head, h'.tail.trans h.tail, h'.count.trans h.count⟩,
    h'.descNum.trans h.descNum, h'.weight.trans h.weight⟩

theorem SameQueue.refl (chan : CpdmaChan) : SameQueue chan chan := ⟨rfl, rfl, rfl⟩

theorem SameQueue.trans {chan'' : CpdmaChan} (h : SameQueue chan chan')
    (h' : SameQueue chan' chan'') : SameQueue chan chan'' :=
  ⟨h'.head.trans h.head, h'.tail.trans h.tail, h'.count.trans h.count⟩

theorem sameShape_turnOn (pool : CpdmaDescPool) (ch : ChanId) (chan : CpdmaChan) :
    SameShape chan (turnOn pool ch chan) := by
  unfold turnOn
  dsimp only
  split
  · split <;> exact ⟨⟨rfl, rfl, rfl⟩, rfl, rfl⟩
  · exact ⟨⟨rfl, rfl, rfl⟩, rfl, rfl⟩

theorem turnOn_state (pool : CpdmaDescPool) (ch : ChanId) (chan : CpdmaChan) :
    (turnOn pool ch chan).state = .active := by
  unfold turnOn
  dsimp only
  split
  · split <;> rfl
  · rfl

theorem turnOn_hdp (pool : CpdmaDescPool) (ch : ChanId) (chan : CpdmaChan) :
    (turnOn pool ch chan).hdp = if chan.head ≠ 0 then hwPtr pool chan.head else chan.hdp := by
  unfold turnOn
  dsimp only
  split
  · split <;> rfl
  · rfl

theorem Queue.empty (hhead : chan.head = 0) (hcount : chan.count = 0) :
    Queue pool mem chan [] :=
  ⟨hhead, List.nodup_nil, hcount.symm, by simp, by simp⟩

theorem Queue.congr (h : Queue pool mem chan q) (hs : SameQueue chan chan')
    (hnext : ∀ d ∈ q, (mem' d).hwNext = (mem d).hwNext) : Queue pool mem' chan' q where
  chain := by
    rw [hs.head]
    exact h.chain.congr fun d hd => by simp only [nextDesc, hnext d hd]
  nodup := h.nodup
  count := h.count.trans hs.count.symm
  tail d hd := hs.tail.trans (h.tail d hd)
  last d hd := (hnext d (List.mem_of_getLast? hd)).trans (h.last d hd)

theorem Queue.head_null_iff (h : Queue pool mem chan q) : chan.head = 0 ↔ q = [] :=
  h.chain.head_null_iff

theorem Queue.getLast_tail (h : Queue pool mem chan q) (hhead : chan.head ≠ 0) :
    q.getLast? = some chan.tail := by
  have hlast := List.getLast?_eq_some_getLast (mt h.head_null_iff.mpr hhead)
  rw [hlast, h.tail _ hlast]

theorem Queue.tail_mem (h : Queue pool mem chan q) (hhead : chan.head ≠ 0) : chan.tail ∈ q :=
  List.mem_of_getLast? (h.getLast_tail hhead)

theorem nextDesc_of_hwNext_zero (h : (mem d).hwNext = 0) : nextDesc pool mem d = 0 := by
  simp [nextDesc, h]

theorem nextDesc_of_hwPtr {e : ℕ} (he : e ∈ pool.descs) (h : (mem d).hwNext = hwPtr pool e) :
    nextDesc pool mem d = e := by
  rw [nextDesc, h]
  exact descFromPhys_descPhys pool he

/-- The descriptors met when following hw_next from the head, as many as the channel counts. -/
def queueOf (pool : CpdmaDescPool) (mem : ℕ → CpdmaDesc τ) (chan : CpdmaChan) : List ℕ :=
  walk 0 (nextDesc pool mem) chan.count chan.head

theorem Queue.queueOf_eq (h : Queue pool mem chan q) : queueOf pool mem chan = q := by
  rw [queueOf, ← h.count]
  exact h.chain.walk_eq

/-- A link that leads to a descriptor of the pool is the address of it. -/
theorem hwNext_eq_hwPtr {e : ℕ} (h : nextDesc pool mem d = e) (he : e ∈ pool.descs) :
    (mem d).hwNext = hwPtr pool e := by
  have hne := pool.ne_zero_of_mem he
  obtain ⟨i, -, hi⟩ := pool.mem_descs.mp he
  have hphys : (mem d).hwNext.toNat = descPhys pool e := by
    unfold nextDesc descFromPhys at h
    unfold descPhys
    rw [if_neg hne]
    split at h <;> omega
  rw [hwPtr, ← hphys]
  simp

theorem hwPtr_ne_zero (hd : d ∈ pool.descs) : hwPtr pool d ≠ 0 := by
  intro h
  have hback := descFromPhys_descPhys pool hd
  rw [show BitVec.ofNat 32 (descPhys pool d) = 0 from h] at hback
  exact pool.ne_zero_of_mem hd hback.symm

/-- What linking `d` behind the tail does to the pointers and the links. -/
structure Linked (pool : CpdmaDescPool) (mem : ℕ → CpdmaDesc τ) (chan : CpdmaChan) (d : ℕ)
    (mem' : ℕ → CpdmaDesc τ) (chan' : CpdmaChan) : Prop where
  head : chan'.head = if chan.head = 0 then d else chan.head
  tail : chan'.tail = d
  next : ∀ e, (mem' e).hwNext =
    if chan.head ≠ 0 ∧ e = chan.tail then hwPtr pool d else (mem e).hwNext
  item : ∀ e, itemAt mem' e = itemAt mem e
  count : chan'.count = chan.count
  state : chan'.state = chan.state
  descNum : chan'.descNum = chan.descNum
  weight : chan'.weight = chan.weight

theorem itemAt_update_hw (mem : ℕ → CpdmaDesc τ) (p : ℕ) (desc : CpdmaDesc τ)
    (htoken : desc.swToken = (mem p).swToken) (hbuffer : desc.swBuffer = (mem p).swBuffer)
    (hlen : desc.swLen = (mem p).swLen) (e : ℕ) :
    itemAt (Function.update mem p desc) e = itemAt mem e := by
  by_cases he : e = p
  · subst he
    simp [itemAt, htoken, hbuffer, hlen]
  · simp [itemAt, he]

theorem hwNext_update (mem : ℕ → CpdmaDesc τ) (p : ℕ) (desc : CpdmaDesc τ) (e : ℕ) :
    (Function.update mem p desc e).hwNext = if e = p then desc.hwNext else (mem e).hwNext := by
  by_cases he : e = p <;> simp [he]

theorem linked_cpdmaChanSubmitLocked (pool : CpdmaDescPool) (mem : ℕ → CpdmaDesc τ)
    (chan : CpdmaChan) (d : ℕ) :
    Linked pool mem chan d (cpdmaChanSubmitLocked pool mem chan d).1
      (cpdmaChanSubmitLocked pool mem chan d).2 := by
  unfold cpdmaChanSubmitLocked
  by_cases hhead : chan.head = 0
  · simp only [hhead, if_true]
    by_cases hactive : chan.state = .active <;>
      exact ⟨by simp [hactive, hhead], by simp [hactive], by simp [hhead], fun _ => rfl,
        by simp [hactive], by simp [hactive], by simp [hactive], by simp [hactive]⟩
  · simp only [hhead, if_false]
    have hitem : ∀ e, itemAt (Function.update mem chan.tail
        { mem chan.tail with hwNext := hwPtr pool d }) e = itemAt mem e :=
      itemAt_update_hw _ _ _ rfl rfl rfl
    split
    · refine ⟨by simp [hhead], rfl, ?_, ?_, rfl, rfl, rfl, rfl⟩
      · intro e
        rw [hwNext_update]
        by_cases he : e = chan.tail <;> simp [he, hhead]
      · intro e
        rw [itemAt_update_hw _ _ _ (by simp) (by simp) (by simp), hitem]
    · refine ⟨by simp [hhead], rfl, ?_, hitem, rfl, rfl, rfl, rfl⟩
      intro e
      rw [hwNext_update]
      by_cases he : e = chan.tail <;> simp [he, hhead]

/-- Linking a fresh descriptor and counting it appends it to the queue. -/
theorem Queue.enqueue (h : Queue pool mem chan q) (hl : Linked pool mem chan d mem' chan')
    (hd : d ∈ pool.descs) (hdq : d ∉ q) (hnext : (mem d).hwNext = 0) (rxfree : U32) :
    Queue pool mem' { chan' with rxfree := rxfree, count := chan'.count + 1 } (q ++ [d]) := by
  have hne : d ≠ 0 := pool.ne_zero_of_mem hd
  have hdtail : chan.head ≠ 0 → d ≠ chan.tail := by
    rintro hhead rfl
    exact hdq (h.tail_mem hhead)
  have hnext' : (mem' d).hwNext = 0 := by
    rw [hl.next, if_neg, hnext]
    rintro ⟨hhead, heq⟩
    exact hdtail hhead heq
  refine ⟨?_, ?_, ?_, ?_, ?_⟩
  · by_cases hhead : chan.head = 0
    · obtain rfl := h.head_null_iff.mp hhead
      exact ⟨by rw [hl.head, if_pos hhead], hne, nextDesc_of_hwNext_zero hnext'⟩
    · change Chain 0 (nextDesc pool mem') chan'.head (q ++ [d])
      rw [hl.head, if_neg hhead]
      refine h.chain.snoc hne (nextDesc_of_hwNext_zero hnext') h.nodup
        (mt h.head_null_iff.mpr hhead) ?_ ?_
      · intro e _ hlast
        refine nextDesc_of_hwPtr hd ?_
        rw [hl.next, if_pos ⟨hhead, (h.tail e hlast).symm⟩]
      · intro e he hlast
        rw [nextDesc, nextDesc, hl.next, if_neg]
        rintro ⟨-, rfl⟩
        exact hlast (h.getLast_tail hhead)
  · exact List.nodup_append.mpr ⟨h.nodup, List.nodup_singleton d, by
      intro a ha b hb
      rintro rfl
      exact hdq (by simpa [List.mem_singleton.mp hb] using ha)⟩
  · rw [List.length_append, List.length_singleton, h.count, ← hl.count]
  · intro e he
    rw [List.getLast?_concat] at he
    exact hl.tail.trans (Option.some.inj he)
  · intro e he
    rw [List.getLast?_concat] at he
    obtain rfl := Option.some.inj he
    exact hnext'

theorem and_dmaExtMap {v : U32} (hv : v.toNat < 2 ^ 16) : v &&& cpdmaDmaExtMap = 0 := by
  have hbit : v.getLsbD 16 = false := Nat.testBit_lt_two_pow hv
  apply BitVec.eq_of_getLsbD_eq
  intro i hi
  by_cases h16 : i = 16
  · subst h16
    rw [BitVec.getLsbD_and, hbit, Bool.false_and]
    rfl
  · have hmask : cpdmaDmaExtMap.getLsbD i = false := by
      simp only [cpdmaDmaExtMap, BitVec.getLsbD_shiftLeft, BitVec.getLsbD_one]
      simp
      omega
    simp [hmask]

theorem or_dmaExtMap_and (v : U32) :
    (v ||| cpdmaDmaExtMap) &&& cpdmaDmaExtMap = cpdmaDmaExtMap := by
  apply BitVec.eq_of_getLsbD_eq
  intro i _
  simp only [BitVec.getLsbD_and, BitVec.getLsbD_or]
  cases v.getLsbD i <;> cases cpdmaDmaExtMap.getLsbD i <;> rfl

theorem or_dmaExtMap_clear {v : U32} (hv : v.toNat < 2 ^ 16) :
    (v ||| cpdmaDmaExtMap) &&& ~~~cpdmaDmaExtMap = v := by
  apply BitVec.eq_of_getLsbD_eq
  intro i hi
  have hand := congrArg (BitVec.getLsbD · i) (and_dmaExtMap hv)
  simp only [BitVec.getLsbD_and, BitVec.ofNat_eq_ofNat, BitVec.getLsbD_zero] at hand
  simp only [BitVec.getLsbD_and, BitVec.getLsbD_or, BitVec.getLsbD_not, hi, decide_true,
    Bool.true_and]
  cases hm : cpdmaDmaExtMap.getLsbD i
  · simp
  · rw [hm, Bool.and_true] at hand
    simp [hand]

theorem paddedLen_lt (params : CpdmaParams) {len : ℕ} (h : len < 2 ^ 16) :
    paddedLen params len < 2 ^ 16 := by
  have := params.minPacketSize_lt
  unfold paddedLen
  split <;> omega

/-- Freeing a descriptor reads back the packet that was submitted. -/
theorem itemAt_freshDesc {params : CpdmaParams} (ch : ChanId) (si : SubmitInfo τ) (buffer : U32)
    (hlen : si.len < 2 ^ 16) :
    itemAt (Function.update mem d (freshDesc ch si buffer (paddedLen params si.len))) d =
      submitItem params si buffer := by
  have hlt := paddedLen_lt params hlen
  have hv : (BitVec.ofNat 32 (paddedLen params si.len)).toNat < 2 ^ 16 := by
    rw [BitVec.toNat_ofNat, Nat.mod_eq_of_lt (by omega)]
    exact hlt
  simp only [itemAt, Function.update_self, freshDesc, submitItem]
  by_cases hdma : si.dataDma = 0
  · simp [hdma, testBits, and_dmaExtMap hv]
  · have hne : (cpdmaDmaExtMap != 0) = true := by decide
    have hdma' : (si.dataDma != 0) = true := by simpa using hdma
    simp only [hdma, ne_eq, not_false_eq_true, if_true, testBits, or_dmaExtMap_and, hne, hdma',
      or_dmaExtMap_clear hv]

theorem countRunt_eq (params : CpdmaParams) (len : ℕ) (chan : CpdmaChan) :
    ∃ stats, countRunt params len chan = { chan with stats := stats } := by
  unfold countRunt
  split <;> exact ⟨_, rfl⟩

theorem writeRxfree_eq (ch : ChanId) (chan : CpdmaChan) :
    ∃ rxfree, writeRxfree ch chan = { chan with rxfree := rxfree } := by
  unfold writeRxfree
  split <;> exact ⟨_, rfl⟩

theorem submitBuffer_eq {si : SubmitInfo τ} {mapped : Option U32} {buffer : U32}
    (h : (if si.dataDma ≠ 0 then some si.dataDma else mapped) = some buffer) :
    submitBuffer si mapped = buffer := by
  unfold submitBuffer
  split at h
  · rename_i hdma
    rw [if_pos hdma]
    exact Option.some.inj h
  · rename_i hdma
    rw [if_neg hdma, h]
    rfl

/-- A submit is refused and changes no more than a counter, or it links a
fresh descriptor that holds the packet. -/
theorem cpdmaChanSubmitSi_cases {params : CpdmaParams} {ctlr ctlr' : CpdmaCtlr τ} {ch : ChanId}
    {si : SubmitInfo τ} {mapped : Option U32} {ret : ℤ}
    (h : cpdmaChanSubmitSi params ctlr ch chan si mapped = (ctlr', ret)) :
    (ret ≠ 0 ∧ ∃ stats, ctlr' = ctlr.setChan ch { chan with stats := stats }) ∨
    (ret = 0 ∧ chan.count < chan.descNum ∧ ∃ d mem' chan' rxfree, d ∈ ctlr.avail ∧
      Linked params.pool (Function.update ctlr.mem d
        (freshDesc ch si (submitBuffer si mapped) (paddedLen params si.len))) chan d mem' chan' ∧
      ctlr' = { ctlr with avail := ctlr.avail.erase d, mem := mem' }.setChan ch
        { chan' with rxfree := rxfree, count := chan'.count + 1 }) := by
  unfold cpdmaChanSubmitSi at h
  by_cases hfull : chan.descNum ≤ chan.count
  · rw [if_pos hfull] at h
    obtain ⟨rfl, rfl⟩ := Prod.mk.inj h
    exact Or.inl ⟨by decide, _, rfl⟩
  rw [if_neg hfull] at h
  obtain ⟨stats, hrunt⟩ := countRunt_eq params si.len chan
  cases halloc : params.pool.genPool.alloc ctlr.avail with
  | none =>
    simp only [halloc] at h
    obtain ⟨rfl, rfl⟩ := Prod.mk.inj h
    exact Or.inl ⟨by decide, _, rfl⟩
  | some d =>
    have hd := params.pool.genPool.alloc_mem _ _ halloc
    simp only [halloc, hrunt] at h
    split at h
    · obtain ⟨rfl, rfl⟩ := Prod.mk.inj h
      refine Or.inl ⟨by decide, stats, ?_⟩
      rw [Finset.insert_erase hd]
    · rename_i buffer hmap
      rw [submitBuffer_eq hmap]
      have hl := linked_cpdmaChanSubmitLocked params.pool
        (Function.update ctlr.mem d (freshDesc ch si buffer (paddedLen params si.len)))
        { chan with stats := stats } d
      obtain ⟨rxfree, hrxfree⟩ := writeRxfree_eq ch (cpdmaChanSubmitLocked params.pool
        (Function.update ctlr.mem d (freshDesc ch si buffer (paddedLen params si.len)))
        { chan with stats := stats } d).2
      rw [hrxfree] at h
      obtain ⟨rfl, rfl⟩ := Prod.mk.inj h
      exact Or.inr ⟨rfl, Nat.lt_of_not_le hfull, d, _, _, rxfree, hd,
        ⟨hl.head, hl.tail, hl.next, hl.item, hl.count, hl.state, hl.descNum, hl.weight⟩, rfl⟩

/-- What taking the head off the queue does to the pointers and the count. -/
structure Unlinked (pool : CpdmaDescPool) (mem : ℕ → CpdmaDesc τ) (chan chan' : CpdmaChan) :
    Prop where
  ne : chan.head ≠ 0
  head : chan'.head = nextDesc pool mem chan.head
  tail : chan'.tail = chan.tail
  count : chan'.count = chan.count - 1
  state : chan'.state = chan.state
  descNum : chan'.descNum = chan.descNum
  weight : chan'.weight = chan.weight

/-- Taking a descriptor off the queue takes the first one. -/
theorem Queue.dequeue (h : Queue pool mem chan q) (hu : Unlinked pool mem chan chan') :
    ∃ q', q = chan.head :: q' ∧ Queue pool mem chan' q' := by
  obtain ⟨q', rfl, hq'⟩ := h.chain.head_ne_null hu.ne
  refine ⟨q', rfl, ?_, (List.nodup_cons.mp h.nodup).2, ?_, ?_, ?_⟩
  · rwa [hu.head]
  · have := h.count
    simp only [List.length_cons] at this
    rw [hu.count]
    omega
  · intro d hd
    refine hu.tail.trans (h.tail d ?_)
    cases q' with
    | nil => simp at hd
    | cons e q' => rwa [List.getLast?_cons_cons]
  · intro d hd
    refine h.last d ?_
    cases q' with
    | nil => simp at hd
    | cons e q' => rwa [List.getLast?_cons_cons]

/-- The locked part of __cpdma_chan_process either leaves the queue alone or
takes the head off it. -/
theorem cpdmaChanProcessLocked_cases {r : Dequeue}
    (h : cpdmaChanProcessLocked pool mem chan = (chan', r)) :
    (∃ ret, r = .fail ret ∧ SameShape chan chan' ∧ chan'.state = chan.state) ∨
    (∃ outlen status, r = .took chan.head outlen status ∧ Unlinked pool mem chan chan') := by
  unfold cpdmaChanProcessLocked at h
  by_cases hhead : chan.head = 0
  · simp only [hhead, if_true, Prod.mk.injEq] at h
    obtain ⟨rfl, rfl⟩ := h
    exact Or.inl ⟨_, rfl, ⟨⟨hhead.symm ▸ rfl, rfl, rfl⟩, rfl, rfl⟩, rfl⟩
  simp only [hhead, if_false] at h
  split at h
  · obtain ⟨rfl, rfl⟩ := Prod.mk.inj h
    exact Or.inl ⟨_, rfl, ⟨⟨rfl, rfl, rfl⟩, rfl, rfl⟩, rfl⟩
  · split at h <;>
    · obtain ⟨rfl, rfl⟩ := Prod.mk.inj h
      exact Or.inr ⟨_, _, rfl, hhead, rfl, rfl, rfl, rfl, rfl, rfl⟩

theorem unlinked_teardownDequeue (h : chan.head ≠ 0) :
    Unlinked pool mem chan (teardownDequeue pool mem chan) :=
  ⟨h, rfl, rfl, rfl, rfl, rfl, rfl⟩

end CpswDriver.Cpdma
