import CpswDriver.Cpdma.Weights

/-!
Splitting the pool again. A split goes by the weights of the channels and not by the
quotas they have, so a second one finds the quotas of the first. Whatever is done to
the weights, the quotas are those of a split, unless the weights forbid one.
-/

namespace CpswDriver.Cpdma

variable {τ : Type*} {f g : ChanId → Option CpdmaChan} {rx : Bool} {descNum perCh weight : ℤ}
  {ch : ChanId} {chan : CpdmaChan} {c c' : CpdmaCtlr τ}

/-- Two loops over channels that differ in their quotas agree on who has the most. -/
structure SameCounts (v v' : SetDescs) : Prop where
  quota : QuotaOnly v.channels v'.channels
  descCnt : v'.descCnt = v.descCnt
  mostDnum : v'.mostDnum = v.mostDnum
  mostChan : v'.mostChan = v.mostChan

theorem QuotaOnly.set (h : QuotaOnly f g) (ch : ChanId) (chan : CpdmaChan) (n m : ℕ) :
    QuotaOnly (Function.update f ch (some { chan with descNum := n }))
      (Function.update g ch (some { chan with descNum := m })) := by
  intro ch'
  by_cases heq : ch' = ch
  · rw [heq, Function.update_self, Function.update_self]
    exact ⟨m, rfl⟩
  · rw [Function.update_of_ne heq, Function.update_of_ne heq]
    exact h ch'

theorem SameCounts.step {v v' : SetDescs} (h : SameCounts v v') (ch : ChanId) :
    SameCounts (setDescsStep descNum perCh v ch) (setDescsStep descNum perCh v' ch) := by
  obtain ⟨n, hn⟩ := h.quota ch
  unfold setDescsStep
  cases hch : v.channels ch with
  | none =>
    rw [hch] at hn
    simp only [hn, Option.map_none]
    exact h
  | some chan =>
    rw [hch] at hn
    simp only [hn, Option.map_some]
    have hshare : share { chan with descNum := n } descNum perCh = share chan descNum perCh := rfl
    have hset := h.quota.set ch chan (share chan descNum perCh) (share chan descNum perCh)
    rw [hshare, h.mostDnum]
    split
    · exact ⟨hset, by dsimp only; rw [h.descCnt], rfl, rfl⟩
    · exact ⟨hset, by dsimp only; rw [h.descCnt], rfl, h.mostChan⟩

theorem SameCounts.foldl {v v' : SetDescs} (h : SameCounts v v') (l : List ChanId) :
    SameCounts (l.foldl (setDescsStep descNum perCh) v)
      (l.foldl (setDescsStep descNum perCh) v') := by
  induction l generalizing v v' with
  | nil => exact h
  | cons ch l ih => exact ih (h.step ch)

/-- The shares that the loop stores are those of the weights. -/
theorem sharedOut_congr (h : QuotaOnly f g) (hrx : isRxChan ch = rx) :
    sharedOut g rx descNum perCh ch = sharedOut f rx descNum perCh ch := by
  obtain ⟨n, hn⟩ := h ch
  unfold sharedOut
  rw [if_pos hrx, if_pos hrx, hn]
  cases f ch <;> rfl

theorem splitOf_congr (h : QuotaOnly f g) (hdesc : descNum ≠ 0) (hrx : isRxChan ch = rx) :
    splitOf g rx descNum ch = splitOf f rx descNum ch := by
  unfold splitOf
  rw [h.perChDesc]
  generalize perChDesc f rx descNum = perCh
  have hcounts : SameCounts ⟨f, descNum, 0, none⟩ ⟨g, descNum, 0, none⟩ := ⟨h, rfl, rfl, rfl⟩
  have hloop : SameCounts
      ((chanSlots rx).foldl (setDescsStep descNum perCh) ⟨f, descNum, 0, none⟩)
      ((chanSlots rx).foldl (setDescsStep descNum perCh) ⟨g, descNum, 0, none⟩) :=
    hcounts.foldl (chanSlots rx)
  have hmost := (Shared.slots f rx descNum perCh).most
  have hf := foldl_sharedOut f rx descNum perCh
  have hg := foldl_sharedOut g rx descNum perCh
  unfold cpdmaChanSetDescs
  rw [if_neg hdesc, if_neg hdesc]
  generalize (chanSlots rx).foldl (setDescsStep descNum perCh) ⟨f, descNum, 0, none⟩ = v
    at hloop hmost hf ⊢
  generalize (chanSlots rx).foldl (setDescsStep descNum perCh) ⟨g, descNum, 0, none⟩ = v'
    at hloop hg ⊢
  have hsame : ∀ ch, isRxChan ch = rx → v'.channels ch = v.channels ch := by
    intro ch hrx
    rw [hf, hg, sharedOut_congr h hrx]
  unfold useRemains
  rw [hloop.mostChan]
  cases htaker : v.mostChan with
  | none => exact hsame ch hrx
  | some taker =>
    obtain ⟨hmem, chan, hchan⟩ := hmost taker htaker
    simp only [hsame taker (mem_chanSlots.mp hmem), hchan]
    rw [hloop.descCnt]
    by_cases heq : ch = taker
    · rw [heq, Function.update_self, Function.update_self]
    · rw [Function.update_of_ne heq, Function.update_of_ne heq]
      exact hsame ch hrx

/-- The tx channels have the quotas that a split by the weights gives them. -/
def TxSettled (c : CpdmaCtlr τ) : Prop :=
  (cpdmaChanSplitPool c).2 = 0 ∧
    ∀ ch, isTxChan ch = true → (cpdmaChanSplitPool c).1.channels ch = c.channels ch

theorem txSettled_of_zero (hnum : c.chanNum = 0) : TxSettled c := by
  have hsplit : cpdmaChanSplitPool c = (c, 0) := if_pos hnum
  unfold TxSettled
  rw [hsplit]
  exact ⟨rfl, fun _ _ => rfl⟩

theorem TxSettled.not_over (h : TxSettled c) (hnum : c.chanNum ≠ 0) : ¬OverWeight c := by
  intro hover
  have hret := h.1
  rw [cpdmaChanSplitPool_over hnum hover] at hret
  exact absurd hret (show -einval ≠ 0 by decide)

/-- A split that is not refused leaves the quotas that the next one finds. -/
theorem cpdmaChanSplitPool_settled (hover : ¬OverWeight c) :
    TxSettled (cpdmaChanSplitPool c).1 := by
  obtain ⟨channels, hquota, heq⟩ := cpdmaChanSplitPool_frame c
  by_cases hnum : c.chanNum = 0
  · apply txSettled_of_zero
    rw [heq]
    exact hnum
  have hover' : ¬OverWeight (cpdmaChanSplitPool c).1 := by
    rw [heq]
    unfold OverWeight
    dsimp only
    rw [hquota.weightSum, hquota.weightSum]
    exact hover
  have hnum' : (cpdmaChanSplitPool c).1.chanNum ≠ 0 := by
    rw [heq]
    exact hnum
  refine ⟨cpdmaChanSplitPool_ret hover', fun ch htx => ?_⟩
  have hrx : isRxChan ch = false := by simpa [isTxChan] using htx
  have hdescs : descsOf (cpdmaChanSplitPool c).1 false = descsOf c false := by
    rw [heq]
    rfl
  have hchans : QuotaOnly c.channels (cpdmaChanSplitPool c).1.channels := by
    rw [heq]
    exact hquota
  rw [cpdmaChanSplitPool_channels hover' hnum' hrx, if_neg Bool.false_ne_true, hdescs]
  by_cases hdesc : descsOf c false = 0
  · rw [hdesc]
    unfold splitOf cpdmaChanSetDescs
    rw [if_pos rfl]
  · rw [splitOf_congr hchans hdesc hrx, cpdmaChanSplitPool_channels hover hnum hrx,
      if_neg Bool.false_ne_true]

/-- Setting a weight leaves the tx channels settled, or more weights than a split allows. -/
theorem cpdmaChanSetWeight_settled (h : OverWeight c ∨ TxSettled c) (ch : ChanId)
    (chan : CpdmaChan) (weight : ℤ) :
    OverWeight (cpdmaChanSetWeight c ch chan weight).1 ∨
      TxSettled (cpdmaChanSetWeight c ch chan weight).1 := by
  unfold cpdmaChanSetWeight
  split
  · exact h
  by_cases hnum : (c.setChan ch { chan with weight := weight }).chanNum = 0
  · have hsplit : cpdmaChanSplitPool (c.setChan ch { chan with weight := weight }) =
        (c.setChan ch { chan with weight := weight }, 0) := if_pos hnum
    rw [hsplit]
    exact .inr (txSettled_of_zero hnum)
  by_cases hover : OverWeight (c.setChan ch { chan with weight := weight })
  · rw [cpdmaChanSplitPool_over hnum hover]
    exact .inl hover
  · exact .inr (cpdmaChanSplitPool_settled hover)

end CpswDriver.Cpdma
