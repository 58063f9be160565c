import CpswDriver.Cpdma.Destroy
import CpswDriver.Cpdma.Remains

/-!
What a change of a weight leaves behind when it is refused. The weight is stored
before the pool is split, and a split that the weights refuse changes nothing back:
the channel keeps the refused weight, and every later split is refused as well.
-/

namespace CpswDriver.Cpdma

open Apportion Runs

variable {τ : Type*} {params : CpdmaParams} {c : CpdmaCtlr τ} {s t : State τ} {rx : Bool}
  {f g : ChanId → Option CpdmaChan} {ch : ChanId} {chan : CpdmaChan} {weight : ℤ}

def SameShares (c c' : CpdmaCtlr τ) : Prop :=
  ∀ ch, (c'.channels ch).map (fun chan => (chan.weight, chan.descNum)) =
    (c.channels ch).map fun chan => (chan.weight, chan.descNum)

/-- A failing cpdma_chan_set_weight has no effect. -/
def SetsOrKeeps (c : CpdmaCtlr τ) (ch : ChanId) (chan : CpdmaChan) (weight : ℤ) : Prop :=
  (cpdmaChanSetWeight c ch chan weight).2 < 0 → SameShares c (cpdmaChanSetWeight c ch chan weight).1

/-- The weight is the channel's, or the weights allow a split with it. -/
def Acceptable (c : CpdmaCtlr τ) (ch : ChanId) (chan : CpdmaChan) (weight : ℤ) : Prop :=
  chan.weight = weight ∨ c.chanNum = 0 ∨ ¬OverWeight (c.setChan ch { chan with weight := weight })

theorem setsOrKeeps_iff (hch : c.channels ch = some chan) :
    SetsOrKeeps c ch chan weight ↔ Acceptable c ch chan weight := by
  unfold SetsOrKeeps Acceptable cpdmaChanSetWeight
  by_cases hsame : chan.weight = weight
  · simp [hsame]
  by_cases hnum : c.chanNum = 0
  · have hret : (cpdmaChanSplitPool (c.setChan ch { chan with weight := weight })).2 = 0 := by
      simp [cpdmaChanSplitPool, CpdmaCtlr.setChan, hnum]
    simp [hsame, hnum, hret]
  by_cases hover : OverWeight (c.setChan ch { chan with weight := weight })
  · have hsplit : cpdmaChanSplitPool (c.setChan ch { chan with weight := weight }) =
        (c.setChan ch { chan with weight := weight }, -einval) :=
      cpdmaChanSplitPool_over hnum hover
    rw [if_neg hsame, hsplit]
    simp only [hsame, hnum, hover, not_true_eq_false, or_self, iff_false]
    intro hkeeps
    have hchan := hkeeps (by decide : -einval < 0) ch
    rw [hch] at hchan
    simp only [CpdmaCtlr.setChan, Function.update_self, Option.map_some, Option.some.injEq,
      Prod.mk.injEq] at hchan
    exact hsame hchan.1.symm
  · have hret := cpdmaChanSplitPool_ret hover
    simp [hsame, hover, hret]

theorem weightSum_of_update {x : ℤ}
    (h : weightOf g = Function.update (weightOf f) ch x) : weightSum g rx =
      if isRxChan ch = rx then x + others (chanSlots rx) (weightOf f) ch else weightSum f rx := by
  have hsum : weightSum g rx = ((chanSlots rx).map (weightOf g)).sum := rfl
  rw [hsum, h]
  split
  · exact sum_update (nodup_chanSlots rx) (mem_chanSlots.mpr ‹_›) x
  · exact sum_update_of_notMem (mt mem_chanSlots.mp ‹_›) x

theorem weightSum_eq_others (hrx : isRxChan ch = rx) :
    weightSum f rx = weightOf f ch + others (chanSlots rx) (weightOf f) ch :=
  (add_others (weightOf f) (mem_chanSlots.mpr hrx)).symm

def slotWeight (o : Option CpdmaChan) : ℤ := (o.map CpdmaChan.weight).getD 0

theorem weightOf_set (f : ChanId → Option CpdmaChan) (ch : ChanId) (o : Option CpdmaChan) :
    weightOf (Function.update f ch o) = Function.update (weightOf f) ch (slotWeight o) := by
  funext ch'
  unfold weightOf
  by_cases heq : ch' = ch
  · rw [heq, Function.update_self, Function.update_self]
    rfl
  · rw [Function.update_of_ne heq, Function.update_of_ne heq]

/-- The weights are percentages, and no more than all in each direction. -/
structure Balanced (channels : ChanId → Option CpdmaChan) : Prop where
  nonneg : ∀ ch, 0 ≤ weightOf channels ch
  sum : ∀ rx, weightSum channels rx ≤ 100

theorem QuotaOnly.balanced (h : QuotaOnly f g) (hf : Balanced f) : Balanced g where
  nonneg ch := by
    rw [h.weightOf]
    exact hf.nonneg ch
  sum rx := by
    rw [h.weightSum]
    exact hf.sum rx

theorem Balanced.not_over (h : Balanced c.channels) : ¬OverWeight c := by
  have htx := h.sum false
  have hrx := h.sum true
  unfold OverWeight
  omega

/-- A slot that counts for no more than before, or for no more than the others leave. -/
theorem Balanced.set (h : Balanced f) {o : Option CpdmaChan} (ho : 0 ≤ slotWeight o)
    (hle : slotWeight o ≤ weightOf f ch ∨ ∀ rx, weightSum (Function.update f ch o) rx ≤ 100) :
    Balanced (Function.update f ch o) where
  nonneg ch' := by
    rw [weightOf_set]
    by_cases heq : ch' = ch
    · rw [heq, Function.update_self]
      exact ho
    · rw [Function.update_of_ne heq]
      exact h.nonneg ch'
  sum rx := by
    rcases hle with hle | hsum
    · have hold := h.sum rx
      rw [weightSum_of_update (weightOf_set f ch o)]
      split
      · have := weightSum_eq_others (f := f) ‹_›
        omega
      · exact hold
    · exact hsum rx

def present (f : ChanId → Option CpdmaChan) : Finset ChanId :=
  Finset.univ.filter fun ch => (f ch).isSome

theorem mem_present : ch ∈ present f ↔ (f ch).isSome := by
  simp [present]

theorem present_set_some (f : ChanId → Option CpdmaChan) (ch : ChanId) (chan : CpdmaChan) :
    present (Function.update f ch (some chan)) = insert ch (present f) := by
  ext ch'
  rw [Finset.mem_insert, mem_present, mem_present]
  by_cases heq : ch' = ch
  · simp [heq]
  · simp [heq]

theorem present_set_none (f : ChanId → Option CpdmaChan) (ch : ChanId) :
    present (Function.update f ch none) = (present f).erase ch := by
  ext ch'
  rw [Finset.mem_erase, mem_present, mem_present]
  by_cases heq : ch' = ch
  · simp [heq]
  · simp [heq]

theorem QuotaOnly.present (h : QuotaOnly f g) : present g = present f := by
  ext ch
  rw [mem_present, mem_present, h.isSome]

inductive PoolOp (τ : Type*)
  | create (ch : ChanId) (zalloc : Bool)
  | destroy (ch : ChanId) (sched : List (Op τ))
  | setWeight (ch : ChanId) (weight : ℤ)

/-- A call of cpdma_chan_create, cpdma_chan_destroy or cpdma_chan_set_weight. -/
def poolStep (params : CpdmaParams) (s : State τ) : PoolOp τ → Option (State τ)
  | .create ch zalloc => step params s (.chanCreate ch zalloc)
  | .destroy ch sched => (cpdmaChanDestroy params sched s ch).map Prod.fst
  | .setWeight ch weight => step params s (.setWeight ch weight)

/-- Weights are set to percentages, and only where they are acceptable. -/
def SetsAcceptable (s : State τ) : PoolOp τ → Prop
  | .setWeight ch weight =>
    0 ≤ weight ∧ ∀ chan, s.ctlr.channels ch = some chan → Acceptable s.ctlr ch chan weight
  | _ => True

/-- A controller without channels, as it is created. -/
structure Fresh (s : State τ) : Prop where
  lock : s.lock = none
  channels : s.ctlr.channels = fun _ => none
  chanNum : s.ctlr.chanNum = 0

structure PoolInv (s : State τ) : Prop where
  lock : s.lock = none
  idle : ∀ ch chan, s.ctlr.channels ch = some chan → chan.state = .idle
  counted : s.ctlr.chanNum = (present s.ctlr.channels).card
  balanced : Balanced s.ctlr.channels

theorem Fresh.poolInv (h : Fresh s) : PoolInv s := by
  have hsum : ∀ rx, weightSum (fun _ => none) rx = 0 := by
    intro rx
    apply List.sum_eq_zero
    intro x hx
    obtain ⟨ch, -, rfl⟩ := List.mem_map.mp hx
    rfl
  refine ⟨h.lock, ?_, ?_, ?_, ?_⟩
  · intro ch chan hch
    rw [h.channels] at hch
    cases hch
  · rw [h.chanNum, h.channels]
    rfl
  · intro ch
    rw [h.channels]
    exact le_refl _
  · intro rx
    rw [h.channels, hsum]
    decide

theorem PoolInv.none_of_zero (h : PoolInv s) (hnum : s.ctlr.chanNum = 0) (ch : ChanId) :
    s.ctlr.channels ch = none := by
  have hcard := h.counted
  rw [hnum] at hcard
  have hempty := Finset.card_eq_zero.mp hcard.symm
  by_contra hsome
  have hmem : ch ∈ present s.ctlr.channels := mem_present.mpr (Option.isSome_iff_ne_none.mpr hsome)
  rw [hempty] at hmem
  cases hmem

theorem PoolInv.split {c : CpdmaCtlr τ} (hlock : s.lock = none)
    (hidle : ∀ ch chan, c.channels ch = some chan → chan.state = .idle)
    (hcounted : c.chanNum = (present c.channels).card) (hbalanced : Balanced c.channels) :
    PoolInv { s with ctlr := (cpdmaChanSplitPool c).1 } := by
  obtain ⟨channels, hquota, heq⟩ := cpdmaChanSplitPool_frame c
  rw [heq]
  refine ⟨hlock, ?_, ?_, hquota.balanced hbalanced⟩
  · intro ch chan hch
    obtain ⟨n, hn⟩ := hquota ch
    dsimp only at hch
    rw [hn] at hch
    obtain ⟨chan', hch', rfl⟩ := Option.map_eq_some_iff.mp hch
    exact hidle ch chan' hch'
  · dsimp only
    rw [hquota.present]
    exact hcounted

theorem idle_set {o : Option CpdmaChan}
    (h : ∀ ch chan, f ch = some chan → chan.state = .idle)
    (ho : ∀ chan, o = some chan → chan.state = .idle) :
    ∀ ch' chan, Function.update f ch o ch' = some chan → chan.state = .idle := by
  intro ch' chan hch'
  by_cases heq : ch' = ch
  · rw [heq, Function.update_self] at hch'
    exact ho chan hch'
  · rw [Function.update_of_ne heq] at hch'
    exact h ch' chan hch'

theorem PoolInv.create {zalloc : Bool} (h : PoolInv s)
    (hst : poolStep params s (.create ch zalloc) = some t) : PoolInv t := by
  simp only [poolStep, step] at hst
  rw [if_neg (not_not.mpr h.lock)] at hst
  obtain rfl := Option.some.inj hst
  unfold cpdmaChanCreate
  split
  · exact h
  split
  · exact h
  split
  · exact h
  · rename_i hnone
    apply PoolInv.split h.lock
    · exact idle_set h.idle fun chan hchan => by
        obtain rfl := Option.some.inj hchan
        rfl
    · dsimp only [CpdmaCtlr.setChan]
      rw [present_set_some, Finset.card_insert_of_notMem (by rwa [mem_present]), h.counted]
    · exact h.balanced.set (le_refl _) (.inl (h.balanced.nonneg ch))

theorem PoolInv.destroy {sched : List (Op τ)} (h : PoolInv s)
    (hst : poolStep params s (.destroy ch sched) = some t) : PoolInv t := by
  obtain ⟨r, hdestroy, rfl⟩ := Option.map_eq_some_iff.mp hst
  unfold cpdmaChanDestroy at hdestroy
  cases hch : s.ctlr.channels ch with
  | none =>
    rw [hch] at hdestroy
    obtain rfl := Option.some.inj hdestroy
    exact h
  | some chan =>
    have hidle := h.idle ch chan hch
    rw [hch] at hdestroy
    dsimp only at hdestroy
    rw [if_neg (not_not.mpr h.lock), stopChanIfOn, if_neg (not_not.mpr hidle)] at hdestroy
    obtain rfl := Option.some.inj hdestroy
    have hmem : ch ∈ present s.ctlr.channels := mem_present.mpr (by rw [hch]; rfl)
    apply PoolInv.split h.lock
    · exact idle_set h.idle fun chan hchan => by cases hchan
    · dsimp only
      rw [present_set_none, Finset.card_erase_of_mem hmem, h.counted]
    · exact h.balanced.set (le_refl _) (.inl (h.balanced.nonneg ch))

theorem PoolInv.setWeight (h : PoolInv s) (hok : SetsAcceptable s (.setWeight ch weight))
    (hst : poolStep params s (.setWeight ch weight) = some t) : PoolInv t := by
  simp only [poolStep, step] at hst
  rw [if_neg (not_not.mpr h.lock)] at hst
  obtain ⟨chan, hch, rfl⟩ := Option.map_eq_some_iff.mp hst
  obtain ⟨hweight, hacceptable⟩ := hok
  unfold cpdmaChanSetWeight
  split
  · exact h
  rename_i hne
  have hover : ¬OverWeight (s.ctlr.setChan ch { chan with weight := weight }) := by
    rcases hacceptable chan hch with hsame | hnum | hover
    · exact absurd hsame hne
    · rw [h.none_of_zero hnum ch] at hch
      cases hch
    · exact hover
  have hmem : ch ∈ present s.ctlr.channels := mem_present.mpr (by rw [hch]; rfl)
  apply PoolInv.split h.lock
  · exact idle_set h.idle fun chan' hchan' => by
      obtain rfl := Option.some.inj hchan'
      exact h.idle ch chan hch
  · dsimp only [CpdmaCtlr.setChan]
    rw [present_set_some, Finset.insert_eq_of_mem hmem, h.counted]
  · refine h.balanced.set hweight (.inr fun rx => ?_)
    have hboth := not_or.mp hover
    cases rx
    · exact Int.not_lt.mp hboth.2
    · exact Int.not_lt.mp hboth.1

theorem PoolInv.step {op : PoolOp τ} (h : PoolInv s) (hok : SetsAcceptable s op)
    (hst : poolStep params s op = some t) : PoolInv t := by
  cases op with
  | create ch zalloc => exact h.create hst
  | destroy ch sched => exact h.destroy hst
  | setWeight ch weight => exact h.setWeight hok hst

theorem poolInv_of_run {ls : List (PoolOp τ)} (hs : PoolInv s)
    (h : Run (poolStep params) SetsAcceptable s ls t) : PoolInv t :=
  h.invariant (fun _ _ _ hinv hok hst => hinv.step hok hst) hs

/-- Every split succeeds, also into other sizes, and what it splits by is balanced. -/
structure Splittable (pool : CpdmaDescPool) (c : CpdmaCtlr τ) : Prop where
  sum : ∀ rx, weightSum c.channels rx ≤ 100
  split : (cpdmaChanSplitPool c).2 = 0
  resize : ∀ numRxDesc, (cpdmaSetNumRxDescs pool c numRxDesc).2 = 0

theorem Balanced.splittable (pool : CpdmaDescPool) (h : Balanced c.channels) :
    Splittable pool c := by
  refine ⟨h.sum, cpdmaChanSplitPool_ret h.not_over, fun numRxDesc => ?_⟩
  have hover : ¬OverWeight (resized pool c numRxDesc) := Balanced.not_over h
  have hret : (cpdmaChanSplitPool (resized pool c numRxDesc)).2 = 0 := cpdmaChanSplitPool_ret hover
  rw [cpdmaSetNumRxDescs_eq, if_neg (not_not.mpr hret)]
  exact hret

/-- A cpdma_chan_set_weight that fails has had no effect just when the weights would have
allowed a split; and as long as only such weights are set, the weights of a direction stay
within 100 percent and no split fails. -/
theorem cpdmaChanSetWeight_atomic_iff (params : CpdmaParams) :
    (∀ (c : CpdmaCtlr τ) (ch : ChanId) (chan : CpdmaChan) (weight : ℤ),
      c.channels ch = some chan →
        (SetsOrKeeps c ch chan weight ↔ Acceptable c ch chan weight)) ∧
    ∀ (s t : State τ) (ls : List (PoolOp τ)), Fresh s →
      Run (poolStep params) SetsAcceptable s ls t → Splittable params.pool t.ctlr :=
  ⟨fun _ _ _ _ hch => setsOrKeeps_iff hch,
    fun _ _ _ hs hrun => (poolInv_of_run hs.poolInv hrun).balanced.splittable _⟩

instance (c : CpdmaCtlr τ) : Decidable (OverWeight c) := inferInstanceAs (Decidable (_ ∨ _))

instance (c : CpdmaCtlr τ) (ch : ChanId) (chan : CpdmaChan) (weight : ℤ) :
    Decidable (Acceptable c ch chan weight) := inferInstanceAs (Decidable (_ ∨ _ ∨ _))

instance (s : State τ) : (op : PoolOp τ) → Decidable (SetsAcceptable s op)
  | .setWeight ch weight =>
    decidable_of_iff (0 ≤ weight ∧ (s.ctlr.channels ch).all fun chan =>
      decide (Acceptable s.ctlr ch chan weight)) (by
        cases h : s.ctlr.channels ch <;> simp [SetsAcceptable, h])
  | .create _ _ => inferInstanceAs (Decidable True)
  | .destroy _ _ => inferInstanceAs (Decidable True)

/-- A controller of 128 descriptors before its first channel. -/
def emptyDriver : State Unit :=
  quiet (smallParams 128 (by decide)) () .idle (fun _ => none) 64 64

theorem fresh_emptyDriver : Fresh emptyDriver := ⟨rfl, rfl, by decide +kernel⟩

/-- Creating two tx channels and giving them these weights. -/
def weighTwo (first second : ℤ) : List (PoolOp Unit) :=
  [.create 0 true, .create 1 true, .setWeight 0 first, .setWeight 1 second]

theorem cpdmaChanSetWeight_atomic_sixty_forty :
    (∃ t, Run (poolStep (smallParams 128 (by decide))) SetsAcceptable emptyDriver
        (weighTwo 60 40) t ∧ Splittable (smallPool 128 (by decide)) t.ctlr) ∧
      SetsOrKeeps (weightedCtlr 30) 0 { weight := 30 } 100 := by
  have h := cpdmaChanSetWeight_atomic_iff (τ := Unit) (smallParams 128 (by decide))
  have hrun : (exec (poolStep (smallParams 128 (by decide))) SetsAcceptable emptyDriver
      (weighTwo 60 40)).any (fun _ => true) = true := by decide +kernel
  obtain ⟨t, hrun, -⟩ := exists_run_of_any hrun
  exact ⟨⟨t, hrun, h.2 _ _ _ fresh_emptyDriver hrun⟩,
    (h.1 _ _ _ _ rfl).mpr (by decide +kernel)⟩

/-- The second weight is refused and kept, and the next split is refused for it. -/
theorem refused_weight_is_kept :
    (∃ t : State Unit, Run (poolStep (smallParams 128 (by decide))) anyStep emptyDriver
        (weighTwo 60 60) t ∧ weightSum t.ctlr.channels false = 120 ∧
        (cpdmaChanSplitPool t.ctlr).2 = -einval) ∧
      (cpdmaChanSetWeight (weightedCtlr 30) 0 { weight := 30 } 101).2 = -einval ∧
      ¬SameShares (weightedCtlr 30)
        (cpdmaChanSetWeight (weightedCtlr 30) 0 { weight := 30 } 101).1 := by
  have hrun : (exec (poolStep (smallParams 128 (by decide))) anyStep emptyDriver
      (weighTwo 60 60)).any (fun t => weightSum t.ctlr.channels false == 120 &&
        (cpdmaChanSplitPool t.ctlr).2 == -einval) = true := by decide +kernel
  obtain ⟨t, hrun, ht⟩ := exists_run_of_any hrun
  obtain ⟨hsum, hret⟩ := Bool.and_eq_true_iff.mp ht
  refine ⟨⟨t, hrun, by simpa using hsum, by simpa using hret⟩, by decide +kernel, fun h => ?_⟩
  exact absurd (h 0) (by decide +kernel)

end CpswDriver.Cpdma
