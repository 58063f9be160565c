import CpswDriver.Cpdma.Handback
import CpswDriver.Cpdma.Remains

/-!
Transmit and receive share one pool. A channel's quota bounds what it queues,
and the quotas of a direction add up to that direction's part of the pool, so
neither direction can eat into the other's part. This rests on two things that
nothing in the code ensures: a new division of the pool must leave every
channel a quota for what it holds already, and a submit must not take the place
of a packet that is off the queue but whose descriptor is not free yet.
-/

namespace CpswDriver.Cpdma

open CallTable Runs

variable {τ : Type*} {params : CpdmaParams} {s s' : State τ} {ch : ChanId} {chan : CpdmaChan}

def countOf (channels : ChanId → Option CpdmaChan) (ch : ChanId) : ℕ :=
  ((channels ch).map CpdmaChan.count).getD 0

def quotaOf (channels : ChanId → Option CpdmaChan) (ch : ChanId) : ℕ :=
  ((channels ch).map CpdmaChan.descNum).getD 0

/-- The descriptors a channel has: queued, or taken off the queue and not free yet. -/
def heldCount (s : State τ) (ch : ChanId) : ℕ :=
  countOf s.ctlr.channels ch + total (Pc.limbo ch) s.calls

/-- The descriptors that all channels of a direction have. -/
def heldSum (s : State τ) (rx : Bool) : ℕ := ((chanSlots rx).map (heldCount s)).sum

def heldAll (s : State τ) : ℕ := ((List.finRange 64).map (heldCount s)).sum

theorem sum_filter_bool {α : Type*} (f : α → ℕ) (p : α → Bool) : ∀ l : List α,
    ((l.filter fun a => p a == false).map f).sum + ((l.filter fun a => p a == true).map f).sum =
      (l.map f).sum
  | [] => rfl
  | a :: l => by
    have ih := sum_filter_bool f p l
    have hne : (true == false) = false ∧ (false == true) = false := by decide
    cases hp : p a <;>
      simp only [List.filter_cons, hp, hne, beq_self_eq_true, Bool.false_eq_true, if_true, if_false,
        List.map_cons, List.sum_cons] <;>
      omega

theorem heldSum_add (s : State τ) : heldSum s false + heldSum s true = heldAll s :=
  sum_filter_bool (heldCount s) isRxChan (List.finRange 64)

/-- A sum over a list changes by what one of its terms changes. -/
theorem sum_map_point {α : Type*} [DecidableEq α] {f g : α → ℕ} {a : α} : ∀ {l : List α},
    l.Nodup → a ∈ l → (∀ b, b ≠ a → g b = f b) → (l.map g).sum + f a = (l.map f).sum + g a
  | [], _, hmem, _ => by simp at hmem
  | b :: l, hnd, hmem, hrest => by
    obtain ⟨hnot, hnd'⟩ := List.nodup_cons.mp hnd
    simp only [List.map_cons, List.sum_cons]
    by_cases hb : b = a
    · subst hb
      have hsame : l.map g = l.map f :=
        List.map_congr_left fun c hc => hrest c (by rintro rfl; exact hnot hc)
      rw [hsame]
      omega
    · have ih := sum_map_point hnd' ((List.mem_cons.mp hmem).resolve_left (Ne.symm hb)) hrest
      rw [hrest b hb]
      omega

theorem heldAll_point (hrest : ∀ ch', ch' ≠ ch → heldCount s' ch' = heldCount s ch') :
    heldAll s' + heldCount s ch = heldAll s + heldCount s' ch :=
  sum_map_point (List.nodup_finRange 64) (List.mem_finRange ch) hrest

theorem heldAll_congr (h : ∀ ch, heldCount s' ch = heldCount s ch) : heldAll s' = heldAll s :=
  congrArg List.sum (List.map_congr_left fun ch _ => h ch)

theorem ChanAgree.countOf {f g : ChanId → Option CpdmaChan} (h : ChanAgree (f ch) (g ch)) :
    countOf g ch = countOf f ch := by
  unfold CpswDriver.Cpdma.countOf
  generalize f ch = o at h
  generalize g ch = o' at h
  cases h with
  | none => rfl
  | some hs => simp [hs.count]
  | create hhead hcount => simp [hcount]

theorem ChanSteady.quotaOf {f g : ChanId → Option CpdmaChan} (h : ChanSteady (f ch) (g ch)) :
    quotaOf g ch = quotaOf f ch ∧ weightOf g ch = weightOf f ch := by
  unfold CpswDriver.Cpdma.quotaOf CpswDriver.Cpdma.weightOf
  generalize f ch = o at h
  generalize g ch = o' at h
  cases h with
  | none => exact ⟨rfl, rfl⟩
  | some hs => simp [hs.descNum, hs.weight]

/-- The pool is divided: quotas within each direction's part, and the parts within the pool. -/
structure Divided (params : CpdmaParams) (ctlr : CpdmaCtlr τ) : Prop where
  tx : (quotaSum ctlr.channels (chanSlots false) : ℤ) ≤ ctlr.numTxDesc
  rx : (quotaSum ctlr.channels (chanSlots true) : ℤ) ≤ ctlr.numRxDesc
  pool : ctlr.numTxDesc + ctlr.numRxDesc ≤ params.pool.numDesc
  txRange : 0 < ctlr.numTxDesc ∧ ctlr.numTxDesc < 2 ^ 31
  rxRange : 0 < ctlr.numRxDesc ∧ ctlr.numRxDesc < 2 ^ 31
  weights : ∀ ch, 0 ≤ weightOf ctlr.channels ch

/-- The invariant: every channel is within its quota, and the pool has what
the channels do not hold. -/
structure Fair (params : CpdmaParams) (s : State τ) : Prop where
  divided : Divided params s.ctlr
  fits : ∀ ch, heldCount s ch ≤ quotaOf s.ctlr.channels ch
  ledger : s.ctlr.avail.card + heldAll s = params.pool.numDesc

theorem Divided.congr {c c' : CpdmaCtlr τ} (h : Divided params c)
    (hquota : ∀ ch, quotaOf c'.channels ch = quotaOf c.channels ch)
    (hweight : ∀ ch, weightOf c'.channels ch = weightOf c.channels ch)
    (htx : c'.numTxDesc = c.numTxDesc) (hrx : c'.numRxDesc = c.numRxDesc) :
    Divided params c' := by
  have hsum : ∀ l, quotaSum c'.channels l = quotaSum c.channels l := fun l =>
    congrArg List.sum (List.map_congr_left fun ch _ => hquota ch)
  refine ⟨?_, ?_, ?_, ?_, ?_, ?_⟩
  · rw [hsum, htx]
    exact h.tx
  · rw [hsum, hrx]
    exact h.rx
  · rw [htx, hrx]
    exact h.pool
  · rw [htx]
    exact h.txRange
  · rw [hrx]
    exact h.rxRange
  · intro ch
    rw [hweight]
    exact h.weights ch

theorem Fair.same (h : Fair params s) (hs : Same s s') : Fair params s' := by
  have hheld : ∀ ch, heldCount s' ch = heldCount s ch := fun ch => by
    unfold heldCount
    rw [(hs.chans ch).agree.countOf, hs.limbo]
  refine ⟨h.divided.congr (fun ch => (hs.chans ch).quotaOf.1) (fun ch => (hs.chans ch).quotaOf.2)
    hs.numTx hs.numRx, fun ch => ?_, ?_⟩
  · rw [hheld, (hs.chans ch).quotaOf.1]
    exact h.fits ch
  · rw [hs.avail, heldAll_congr hheld]
    exact h.ledger

section Moves

variable {q : ChanId → List ℕ} {own : ℕ → Owner} {i : ℕ} {d : ℕ}

theorem countOf_update (channels : ChanId → Option CpdmaChan) (ch ch' : ChanId)
    (chan : CpdmaChan) : countOf (Function.update channels ch (some chan)) ch' =
      if ch' = ch then chan.count else countOf channels ch' := by
  unfold countOf
  split
  · rename_i h
    subst h
    simp
  · rename_i h
    rw [Function.update_of_ne h]

theorem quotaOf_update {channels : ChanId → Option CpdmaChan} {chan chan' : CpdmaChan}
    (hch : channels ch = some chan) (h : chan'.descNum = chan.descNum) (ch' : ChanId) :
    quotaOf (Function.update channels ch (some chan')) ch' = quotaOf channels ch' := by
  unfold quotaOf
  by_cases heq : ch' = ch
  · subst heq
    simp [hch, h]
  · rw [Function.update_of_ne heq]

theorem weightOf_update {channels : ChanId → Option CpdmaChan} {chan chan' : CpdmaChan}
    (hch : channels ch = some chan) (h : chan'.weight = chan.weight) (ch' : ChanId) :
    weightOf (Function.update channels ch (some chan')) ch' = weightOf channels ch' := by
  unfold weightOf
  by_cases heq : ch' = ch
  · subst heq
    simp [hch, h]
  · rw [Function.update_of_ne heq]

theorem countOf_some {channels : ChanId → Option CpdmaChan} (hch : channels ch = some chan) :
    countOf channels ch = chan.count := by simp [countOf, hch]

theorem quotaOf_some {channels : ChanId → Option CpdmaChan} (hch : channels ch = some chan) :
    quotaOf channels ch = chan.descNum := by simp [quotaOf, hch]

theorem Fair.enqueue (h : Fair params s) {chan' : CpdmaChan} {mem mem' : ℕ → CpdmaDesc τ}
    {item : Item τ} {rxfree : U32} (hch : s.ctlr.channels ch = some chan)
    (hroom : heldCount s ch < chan.descNum) (hd : d ∈ s.ctlr.avail)
    (hl : Linked params.pool mem chan d mem' chan') :
    Fair params ({ s with
      ctlr := { s.ctlr with avail := s.ctlr.avail.erase d, mem := mem' }.setChan ch
        { chan' with rxfree := rxfree, count := chan'.count + 1 } }.accept ch item) := by
  have hheld : ∀ ch', heldCount ({ s with
      ctlr := { s.ctlr with avail := s.ctlr.avail.erase d, mem := mem' }.setChan ch
        { chan' with rxfree := rxfree, count := chan'.count + 1 } }.accept ch item) ch' =
      if ch' = ch then heldCount s ch + 1 else heldCount s ch' := by
    intro ch'
    simp only [heldCount, State.accept, CpdmaCtlr.setChan, countOf_update]
    split
    · rename_i heq
      subst heq
      rw [countOf_some hch, hl.count]
      omega
    · rfl
  have hquota : ∀ ch', quotaOf (Function.update s.ctlr.channels ch
      (some { chan' with rxfree := rxfree, count := chan'.count + 1 })) ch' =
      quotaOf s.ctlr.channels ch' := quotaOf_update hch hl.descNum
  refine ⟨h.divided.congr hquota (weightOf_update hch hl.weight) rfl rfl, fun ch' => ?_, ?_⟩
  · rw [hheld]
    refine le_trans ?_ (hquota ch').ge
    split
    · rename_i heq
      rw [heq, quotaOf_some hch]
      omega
    · exact h.fits ch'
  · have hother : ∀ ch', ch' ≠ ch → heldCount ({ s with
        ctlr := { s.ctlr with avail := s.ctlr.avail.erase d, mem := mem' }.setChan ch
          { chan' with rxfree := rxfree, count := chan'.count + 1 } }.accept ch item) ch' =
        heldCount s ch' := fun ch' hne => (hheld ch').trans (if_neg hne)
    have hpoint := heldAll_point hother
    rw [hheld ch, if_pos rfl] at hpoint
    have hcard := Finset.card_erase_add_one hd
    have hledger := h.ledger
    change (s.ctlr.avail.erase d).card + _ = _
    omega

theorem Fair.dequeue (h : Fair params s) (hw : Wf params s q own) {chan' : CpdmaChan} {pc : Pc τ}
    {outlen status : ℤ} {k : Cont} (hch : s.ctlr.channels ch = some chan)
    (hu : Unlinked params.pool s.ctlr.mem chan chan') (hi : s.calls[i]? = some pc)
    (hpc : pc.Plain) :
    Fair params (((s.setChan ch chan').remove ch chan.head).setPc i
      (.chanFree ch chan.head outlen status k)) := by
  have hcount : 0 < chan.count := by
    obtain ⟨l, hl, -⟩ := (hw.chan ch chan hch).dequeue hu
    rw [← (hw.chan ch chan hch).count, hl]
    simp
  have hheld : ∀ ch', heldCount (((s.setChan ch chan').remove ch chan.head).setPc i
      (.chanFree ch chan.head outlen status k)) ch' = heldCount s ch' := by
    intro ch'
    have hset := total_set (Pc.limbo ch') (.chanFree ch chan.head outlen status k) hi
    rw [hpc.limbo, add_zero] at hset
    simp only [heldCount, State.setPc, State.remove, State.setChan, CpdmaCtlr.setChan,
      countOf_update, hset, Pc.limbo]
    split
    · rename_i heq
      subst heq
      rw [countOf_some hch, hu.count, if_pos rfl]
      omega
    · rename_i heq
      rw [if_neg (Ne.symm heq), add_zero]
  have hquota : ∀ ch', quotaOf (Function.update s.ctlr.channels ch (some chan')) ch' =
      quotaOf s.ctlr.channels ch' := quotaOf_update hch hu.descNum
  refine ⟨h.divided.congr hquota (weightOf_update hch hu.weight) rfl rfl, fun ch' => ?_, ?_⟩
  · rw [hheld]
    exact le_trans (h.fits ch') (hquota ch').ge
  · rw [heldAll_congr hheld]
    exact h.ledger

/-- What a channel holds is one less once a descriptor is back in the pool. -/
theorem heldCount_free {outlen status : ℤ} {k : Cont}
    (hi : s.calls[i]? = some (.chanFree ch d outlen status k)) (ch' : ChanId) :
    heldCount ({ s with ctlr := (cpdmaChanFree s.ctlr d).1 }.setPc i
      (.handler ch (cpdmaChanFree s.ctlr d).2 outlen status k)) ch' +
      (if ch = ch' then 1 else 0) = heldCount s ch' := by
  have hset := total_set (Pc.limbo ch') (.handler ch (cpdmaChanFree s.ctlr d).2 outlen status k) hi
  simp only [Pc.limbo, add_zero] at hset
  simp only [heldCount, State.setPc, ← hset, add_assoc]
  rfl

theorem Fair.free (h : Fair params s) (hw : Wf params s q own) {outlen status : ℤ} {k : Cont}
    (hi : s.calls[i]? = some (.chanFree ch d outlen status k)) :
    Fair params ({ s with ctlr := (cpdmaChanFree s.ctlr d).1 }.setPc i
      (.handler ch (cpdmaChanFree s.ctlr d).2 outlen status k)) := by
  have hnot : d ∉ s.ctlr.avail := by
    intro havail
    have hheld : place s q (.held i) d := by simp [place, hi]
    cases hw.owned.unique hheld (show place s q .free d from havail)
  have hself := heldCount_free hi ch
  rw [if_pos rfl] at hself
  refine ⟨h.divided.congr (fun _ => rfl) (fun _ => rfl) rfl rfl, fun ch' => ?_, ?_⟩
  · have hless := heldCount_free hi ch'
    exact le_trans (by omega) (h.fits ch')
  · have hother : ∀ ch', ch' ≠ ch → heldCount ({ s with ctlr := (cpdmaChanFree s.ctlr d).1 }.setPc i
        (.handler ch (cpdmaChanFree s.ctlr d).2 outlen status k)) ch' = heldCount s ch' := by
      intro ch' hne
      have hless := heldCount_free hi ch'
      rwa [if_neg (Ne.symm hne), add_zero] at hless
    have hpoint := heldAll_point hother
    have hcard : (insert d s.ctlr.avail).card = s.ctlr.avail.card + 1 :=
      Finset.card_insert_of_notMem hnot
    have hledger := h.ledger
    change (insert d s.ctlr.avail).card + _ = _
    omega

theorem Fair.handBack (h : Fair params s) {item : Item τ} {outlen status : ℤ} {k : Cont}
    (hi : s.calls[i]? = some (.handler ch item outlen status k)) :
    Fair params ((s.handle ch item).setPc i (k.resume ch)) := by
  have hheld : ∀ ch', heldCount ((s.handle ch item).setPc i (k.resume ch)) ch' =
      heldCount s ch' := by
    intro ch'
    have hplain : (k.resume ch : Pc τ).Plain := k.plain_resume ch
    have hset := total_set_of_eq (Pc.limbo ch') (k.resume ch) hi (hplain.limbo ch')
    simp only [heldCount, State.setPc, State.handle, hset]
  refine ⟨h.divided, fun ch' => ?_, ?_⟩
  · rw [hheld]
    exact h.fits ch'
  · rw [heldAll_congr hheld]
    exact h.ledger

end Moves

/-- The operations of a controller in use. -/
def Traffic (_ : State τ) : Op τ → Prop
  | .submit _ _ args _ => args.len < 2 ^ 16
  | .setWeight _ weight => 0 ≤ weight
  | .chanCreate _ _ => False
  | .setNumRxDescs _ => False
  | _ => True

instance (s : State τ) : ∀ op, Decidable (Traffic s op)
  | .submit _ _ args _ => inferInstanceAs (Decidable (args.len < 2 ^ 16))
  | .setWeight _ weight => inferInstanceAs (Decidable (0 ≤ weight))
  | .chanCreate _ _ | .setNumRxDescs _ => .isFalse id
  | .engine _ _ _ | .engineHdp _ _ | .chanProcess _ _ | .chanStop _ | .chanStart _ | .ctlrStart
  | .ctlrStop | .advance _ => .isTrue trivial

/-- A weight that is new for its channel, and not refused, leaves every channel by its weight a
quota for what it holds, and no submit takes the place of a packet whose descriptor is not free
yet. -/
def Covered (s : State τ) : Op τ → Prop
  | .submit _ ch _ _ => ∀ chan, s.ctlr.channels ch = some chan →
      chan.count < chan.descNum → heldCount s ch < chan.descNum
  | .setWeight ch weight => ∀ chan, s.ctlr.channels ch = some chan →
      chan.weight = weight ∨ OverWeight (s.ctlr.setChan ch { chan with weight := weight }) ∨
      ∀ ch', heldCount s ch' ≤ quotaByWeight
        (Function.update s.ctlr.channels ch (some { chan with weight := weight })) (isRxChan ch')
        (descsOf s.ctlr (isRxChan ch')) ch'
  | _ => True

theorem Fair.move (h : Fair params s) {q : ChanId → List ℕ} {own : ℕ → Owner}
    (hw : Wf params s q own) {o : Option ChanId} (hm : Move params o s s')
    (hroom : ∀ ch chan, o = some ch → s.ctlr.channels ch = some chan →
      chan.count < chan.descNum → heldCount s ch < chan.descNum) : Fair params s' := by
  cases hm with
  | same hs => exact h.same hs
  | enqueue hch hcount hd hnext hitem hl => exact h.enqueue hch (hroom _ _ rfl hch hcount) hd hl
  | dequeue hch hu hi hpc => exact h.dequeue hw hch hu hi hpc
  | free hi => exact h.free hw hi
  | handBack hi => exact h.handBack hi

theorem Divided.setWeight {c : CpdmaCtlr τ} (h : Divided params c) {weight : ℤ}
    (hch : c.channels ch = some chan) (hweight : 0 ≤ weight) :
    Divided params (cpdmaChanSetWeight c ch chan weight).1 := by
  unfold cpdmaChanSetWeight
  split
  · exact h
  have hset : ∀ ch', 0 ≤ weightOf (c.setChan ch { chan with weight := weight }).channels ch' := by
    intro ch'
    by_cases heq : ch' = ch
    · simpa [weightOf, CpdmaCtlr.setChan, heq] using hweight
    · have := h.weights ch'
      simpa [weightOf, CpdmaCtlr.setChan, heq] using this
  have hquota : ∀ ch', quotaOf (c.setChan ch { chan with weight := weight }).channels ch' =
      quotaOf c.channels ch' := quotaOf_update hch rfl
  have hsum : ∀ l, quotaSum (c.setChan ch { chan with weight := weight }).channels l =
      quotaSum c.channels l := fun l =>
    congrArg List.sum (List.map_congr_left fun ch' _ => hquota ch')
  generalize hc' : c.setChan ch { chan with weight := weight } = c' at hset hsum
  have htx : c'.numTxDesc = c.numTxDesc := by rw [← hc']; rfl
  have hrx : c'.numRxDesc = c.numRxDesc := by rw [← hc']; rfl
  have hkeep : Divided params c' := ⟨by rw [hsum, htx]; exact h.tx, by rw [hsum, hrx]; exact h.rx,
    by rw [htx, hrx]; exact h.pool, by rw [htx]; exact h.txRange,
    by rw [hrx]; exact h.rxRange, hset⟩
  obtain ⟨channels, hq, hframe⟩ := cpdmaChanSplitPool_frame c'
  by_cases hnum : c'.chanNum = 0
  · simpa [cpdmaChanSplitPool, hnum] using hkeep
  by_cases hover : weightSum c'.channels true > 100 ∨ weightSum c'.channels false > 100
  · simpa [cpdmaChanSplitPool, hnum, hover] using hkeep
  · have hle := not_or.mp hover
    obtain ⟨hsumtx, hsumrx⟩ := cpdmaChanSplitPool_sum_le hnum
      ⟨hset, Int.not_lt.mp hle.2⟩ ⟨hset, Int.not_lt.mp hle.1⟩ hkeep.txRange.1 hkeep.rxRange.1
      hkeep.txRange.2 hkeep.rxRange.2
      (show cpdmaChanSplitPool c' = ((cpdmaChanSplitPool c').1, 0) by
        simp [cpdmaChanSplitPool, hnum, hover])
    rw [hframe] at hsumtx hsumrx ⊢
    exact ⟨hsumtx, hsumrx, hkeep.pool, hkeep.txRange, hkeep.rxRange, fun ch' => by
      rw [show weightOf channels ch' = weightOf c'.channels ch' from hq.weightOf ch']
      exact hset ch'⟩

theorem Fair.fits_setWeight (h : Fair params s) {weight : ℤ} (hch : s.ctlr.channels ch = some chan)
    (hcovered : Covered s (.setWeight ch weight)) (ch' : ChanId) :
    heldCount s ch' ≤ quotaOf (cpdmaChanSetWeight s.ctlr ch chan weight).1.channels ch' := by
  have hdesc : ∀ rx, descsOf s.ctlr rx ≠ 0 := by
    intro rx
    cases rx
    · exact h.divided.txRange.1.ne'
    · exact h.divided.rxRange.1.ne'
  have hquota : ∀ ch', quotaOf (s.ctlr.setChan ch { chan with weight := weight }).channels ch' =
      quotaOf s.ctlr.channels ch' := quotaOf_update hch rfl
  unfold cpdmaChanSetWeight
  split
  · exact h.fits ch'
  rename_i hnew
  by_cases hnum : (s.ctlr.setChan ch { chan with weight := weight }).chanNum = 0
  · rw [cpdmaChanSplitPool, if_pos hnum, hquota]
    exact h.fits ch'
  by_cases hover : OverWeight (s.ctlr.setChan ch { chan with weight := weight })
  · rw [cpdmaChanSplitPool_over hnum hover, hquota]
    exact h.fits ch'
  · have hfits := ((hcovered chan hch).resolve_left hnew).resolve_left hover ch'
    have hgranted := granted_splitPool hover hnum (hdesc (isRxChan ch')) rfl
    have heq : quotaOf (cpdmaChanSplitPool (s.ctlr.setChan ch { chan with weight := weight })
        ).1.channels ch' = quotaByWeight _ _ _ ch' := Nat.cast_injective (R := ℤ) hgranted
    rw [heq]
    exact hfits

theorem Fair.step (h : Fair params s) {q : ChanId → List ℕ} {own : ℕ → Owner}
    (hw : Wf params s q own) {op : Op τ} (htraffic : Traffic s op) (hcovered : Covered s op)
    (hst : Cpdma.step params s op = some s') : Fair params s' := by
  cases hsplit : op.resplits with
  | false =>
    have hlen : LenOk s op := by
      cases op <;> first | exact htraffic | trivial
    refine h.move hw (step_move hlen hsplit hst) fun ch chan ho hch hcount => ?_
    cases op with
    | submit kind ch' args mapped =>
      obtain rfl : ch' = ch := Option.some.inj ho
      exact hcovered chan hch hcount
    | _ => cases ho
  | true =>
    cases op with
    | setWeight ch weight =>
      simp only [Cpdma.step] at hst
      split at hst
      · cases hst
      obtain ⟨chan, hch, rfl⟩ := Option.map_eq_some_iff.mp hst
      have hre := cpdmaChanSetWeight_resplit hch weight
      have hheld : ∀ ch',
          heldCount { s with ctlr := (cpdmaChanSetWeight s.ctlr ch chan weight).1 } ch' =
            heldCount s ch' := fun ch' => by
        simp only [heldCount, (hre.chans ch').countOf]
      refine ⟨h.divided.setWeight hch htraffic, fun ch' => ?_, ?_⟩
      · rw [hheld]
        exact h.fits_setWeight hch hcovered ch'
      · rw [heldAll_congr hheld, show (cpdmaChanSetWeight s.ctlr ch chan weight).1.avail = _ from
          hre.avail]
        exact h.ledger
    | chanCreate ch zalloc => exact htraffic.elim
    | setNumRxDescs n => exact htraffic.elim
    | _ => cases hsplit

theorem sum_lt_sum_of_lt {α : Type*} {f g : α → ℕ} {a : α} (hle : ∀ b, f b ≤ g b)
    (hlt : f a < g a) : ∀ {l : List α}, a ∈ l → (l.map f).sum < (l.map g).sum
  | [], hmem => by simp at hmem
  | b :: l, hmem => by
    simp only [List.map_cons, List.sum_cons]
    have hb := hle b
    rcases List.mem_cons.mp hmem with rfl | htail
    · have hrest := List.sum_le_sum fun c (_ : c ∈ l) => hle c
      omega
    · have ih := sum_lt_sum_of_lt hle hlt htail
      omega

theorem Fair.heldSum_le (h : Fair params s) (rx : Bool) :
    heldSum s rx ≤ quotaSum s.ctlr.channels (chanSlots rx) :=
  List.sum_le_sum fun ch _ => h.fits ch

/-- An rx channel below its quota finds a descriptor in the pool. -/
theorem Fair.room (h : Fair params s) (hch : s.ctlr.channels ch = some chan)
    (hrx : isRxChan ch = true) (hroom : heldCount s ch < chan.descNum) : s.ctlr.avail ≠ ∅ := by
  have hquota : heldCount s ch < quotaOf s.ctlr.channels ch := by rwa [quotaOf_some hch]
  have hlt : heldSum s true < quotaSum s.ctlr.channels (chanSlots true) :=
    sum_lt_sum_of_lt h.fits hquota (mem_chanSlots.mpr hrx)
  have htx := h.heldSum_le false
  have hledger := h.ledger
  have hadd := heldSum_add s
  have hdtx := h.divided.tx
  have hdrx := h.divided.rx
  have hpool := h.divided.pool
  intro hempty
  rw [hempty, Finset.card_empty] at hledger
  omega

theorem submitStep_enomem {kind : SubmitKind} {args : SubmitArgs τ} {mapped : Option U32}
    (h : (submitStep params s kind ch chan args mapped).2 = -enomem) :
    chan.descNum ≤ chan.count ∨ s.ctlr.avail = ∅ := by
  by_contra hne
  obtain ⟨hcount, havail⟩ := not_or.mp hne
  have halloc : ∃ d, params.pool.genPool.alloc s.ctlr.avail = some d :=
    Option.ne_none_iff_exists'.mp fun hnone => havail (params.pool.genPool.alloc_none _ hnone)
  obtain ⟨d, hd⟩ := halloc
  unfold submitStep submitEntry at h
  by_cases hallow : kind.allows chan.state
  · simp only [hallow, Bool.not_true, Bool.false_eq_true, if_false, cpdmaChanSubmitSi, hcount, hd]
      at h
    generalize (if (submitInfo kind args).dataDma ≠ 0 then some (submitInfo kind args).dataDma
      else mapped) = buffer at h
    cases buffer with
    | none => simp [einval, enomem] at h
    | some buffer => simp [enomem] at h
  · simp [hallow, einval, enomem] at h

/-- What the division of the pool is for: transmit keeps to its part, and an
rx channel below its quota is never refused for want of a descriptor, so that
a packet taken off an rx channel can be replaced at once. -/
structure Reserved (params : CpdmaParams) (ok : State τ → Op τ → Prop) (s : State τ) : Prop where
  tx : (heldSum s false : ℤ) ≤ s.ctlr.numTxDesc
  submit : ∀ kind ch chan args mapped, isRxChan ch = true → s.ctlr.channels ch = some chan →
    ok s (.submit kind ch args mapped) → chan.count < chan.descNum →
    (submitStep params s kind ch chan args mapped).2 ≠ -enomem
  replaced : ∀ (i : ℕ) ch chan d outlen status k, isRxChan ch = true →
    s.ctlr.channels ch = some chan → s.calls[i]? = some (.chanFree ch d outlen status k) →
    ∃ t, step params s (.advance i) = some t ∧ t.ctlr.channels ch = some chan ∧
      ∀ kind args mapped, (submitStep params t kind ch chan args mapped).2 ≠ -enomem

theorem Fair.no_enomem (h : Fair params s) (hch : s.ctlr.channels ch = some chan)
    (hrx : isRxChan ch = true) (hroom : heldCount s ch < chan.descNum) (kind : SubmitKind)
    (args : SubmitArgs τ) (mapped : Option U32) :
    (submitStep params s kind ch chan args mapped).2 ≠ -enomem := by
  intro hret
  have hcount : chan.count ≤ heldCount s ch := by
    unfold heldCount
    rw [countOf_some hch]
    omega
  rcases submitStep_enomem hret with hfull | hempty
  · omega
  · exact h.room hch hrx hroom hempty

theorem Fair.initial (hinit : Initial params s) (hdivided : Divided params s.ctlr) :
    Fair params s := by
  have hheld : ∀ ch, heldCount s ch = 0 := by
    intro ch
    have hlimbo : total (Pc.limbo ch) s.calls = 0 := by rw [hinit.calls, total_nil]
    unfold heldCount
    rw [hlimbo]
    cases hch : s.ctlr.channels ch with
    | none => simp [countOf, hch]
    | some chan => rw [countOf_some hch, (hinit.chans ch chan hch).2.1]
  have hall : heldAll s = 0 := by
    unfold heldAll
    rw [List.map_congr_left fun ch _ => hheld ch]
    simp
  refine ⟨hdivided, fun ch => ?_, ?_⟩
  · rw [hheld]
    exact Nat.zero_le _
  · rw [hinit.avail, hall, params.pool.card_descs, add_zero]

/-- Descriptors have one owner each, and the channels keep within their quotas. -/
structure Sound (params : CpdmaParams) (s : State τ) : Prop where
  wf : ∃ q own, Wf params s q own
  fair : Fair params s

theorem Sound.initial (hinit : Initial params s) (hdivided : Divided params s.ctlr) :
    Sound params s :=
  ⟨⟨_, _, Wf.initial hinit⟩, Fair.initial hinit hdivided⟩

theorem Sound.step (h : Sound params s) {op : Op τ} (htraffic : Traffic s op)
    (hcovered : Covered s op) (hst : Cpdma.step params s op = some s') : Sound params s' := by
  obtain ⟨q, own, hw⟩ := h.wf
  have hlen : LenOk s op := by
    cases op <;> first | exact htraffic | trivial
  exact ⟨hw.step hlen hst, h.fair.step hw htraffic hcovered hst⟩

/-- As long as divisions of the pool cover what the channels hold, and submits
wait for the descriptors of processed packets, each direction keeps its part. -/
theorem reserved_of_run {s₀ : State τ} {ls : List (Op τ)} (hinit : Initial params s₀)
    (hdivided : Divided params s₀.ctlr)
    (hrun : Run (step params) (fun s op => Traffic s op ∧ Covered s op) s₀ ls s) :
    Reserved params (fun s op => Traffic s op ∧ Covered s op) s := by
  have hsound : Sound params s :=
    hrun.invariant (fun _ _ _ h hok hst => h.step hok.1 hok.2 hst) (Sound.initial hinit hdivided)
  obtain ⟨⟨q, own, hw⟩, h⟩ := hsound
  refine ⟨?_, ?_, ?_⟩
  · have := h.heldSum_le false
    have := h.divided.tx
    omega
  · intro kind ch chan args mapped hrx hch hok hcount
    exact h.no_enomem hch hrx (hok.2 chan hch hcount) kind args mapped
  · intro i ch chan d outlen status k hrx hch hi
    refine ⟨{ s with ctlr := (cpdmaChanFree s.ctlr d).1 }.setPc i
      (.handler ch (cpdmaChanFree s.ctlr d).2 outlen status k), by simp [step, hi]; rfl, hch,
      fun kind args mapped => (h.free hw hi).no_enomem hch hrx ?_ kind args mapped⟩
    have hfits := h.fits ch
    have hself := heldCount_free hi ch
    rw [if_pos rfl] at hself
    rw [quotaOf_some hch] at hfits
    omega

/-- Two tx channels and one rx channel, with the given quotas. -/
def twoTxOneRx (txNum rxNum : ℕ) (ch : ChanId) : Option CpdmaChan :=
  if ch = 1 then some { descNum := txNum } else onePair txNum rxNum ch

theorem idle_twoTxOneRx (txNum rxNum : ℕ) (ch : ChanId) (chan : CpdmaChan)
    (h : twoTxOneRx txNum rxNum ch = some chan) :
    chan.head = 0 ∧ chan.count = 0 ∧ chan.state = .idle := by
  unfold twoTxOneRx at h
  split at h
  · cases h
    exact ⟨rfl, rfl, rfl⟩
  · exact idle_onePair txNum rxNum ch chan h

/-- A controller of six descriptors, two for each channel. -/
def sharedBySix : State ℕ :=
  quiet (smallParams 6 (by decide)) 0 .active (twoTxOneRx 2 2) 2 4

theorem divided_sharedBySix : Divided (smallParams 6 (by decide)) sharedBySix.ctlr :=
  ⟨by decide, by decide, by decide, by decide, by decide, by decide⟩

/-- A packet is queued for receive, and the pool is divided anew. -/
theorem reserved_after_submit : ∃ t : State ℕ,
    Run (step (smallParams 6 (by decide))) (fun s op => Traffic s op ∧ Covered s op) sharedBySix
      [.submit .idleSubmit 32 ⟨7, 0, 1500, 0⟩ (some 0x4000), .setWeight 1 50] t ∧
    t.accepted 32 = [⟨7, 0x4000, 1500, false⟩] ∧
    Reserved (smallParams 6 (by decide)) (fun s op => Traffic s op ∧ Covered s op) t := by
  have hroom : Covered sharedBySix (.submit .idleSubmit 32 ⟨7, 0, 1500, 0⟩ (some 0x4000)) := by
    intro chan hch _
    cases hch
    decide
  have hcover : ∀ s, step (smallParams 6 (by decide)) sharedBySix
      (.submit .idleSubmit 32 ⟨7, 0, 1500, 0⟩ (some 0x4000)) = some s →
      Covered s (.setWeight 1 50) := by
    intro s hst chan hch
    cases hst
    cases hch
    exact .inr (.inr (by decide +kernel))
  have hrun : ∃ t : State ℕ, Run (step (smallParams 6 (by decide)))
      (fun s op => Traffic s op ∧ Covered s op) sharedBySix
      [.submit .idleSubmit 32 ⟨7, 0, 1500, 0⟩ (some 0x4000), .setWeight 1 50] t ∧
      t.accepted 32 = [⟨7, 0x4000, 1500, false⟩] :=
    ⟨_, .cons ⟨by decide, hroom⟩ rfl (.cons ⟨by decide, hcover _ rfl⟩ rfl (.nil _)), rfl⟩
  obtain ⟨t, hrun, haccepted⟩ := hrun
  exact ⟨t, hrun, haccepted,
    reserved_of_run (initial_quiet _ _ _ (idle_twoTxOneRx 2 2) _ _) divided_sharedBySix hrun⟩

/-- Channel 0 uses up its quota, and then a descriptor of it goes to channel 1. -/
def moved : List (Op ℕ) :=
  [.chanStart 0, .advance 0, .chanStart 1, .advance 1,
   .submit .submit 0 ⟨1, 0, 100, 0⟩ (some 0x100), .submit .submit 0 ⟨2, 0, 100, 0⟩ (some 0x200),
   .setWeight 1 75, .submit .submit 1 ⟨3, 0, 100, 0⟩ (some 0x300),
   .submit .submit 1 ⟨4, 0, 100, 0⟩ (some 0x400), .submit .submit 1 ⟨5, 0, 100, 0⟩ (some 0x500)]

/-- The tx channels then hold five descriptors of the four that are theirs. -/
theorem reserved_fails_after_move : ¬ ∀ (ls : List (Op ℕ)) (s : State ℕ),
    Run (step (smallParams 6 (by decide))) Traffic sharedBySix ls s →
    Reserved (smallParams 6 (by decide)) Traffic s := by
  intro h
  have htest : (exec (step (smallParams 6 (by decide))) Traffic sharedBySix moved).any (fun s =>
      heldSum s false == 5 && s.ctlr.numTxDesc == 4) = true := by decide +kernel
  obtain ⟨s, hrun, hs⟩ := exists_run_of_any htest
  simp only [Bool.and_eq_true, beq_iff_eq] at hs
  have htx := (h moved s hrun).tx
  omega

end CpswDriver.Cpdma
