import CpswDriver.Cpdma.Split
import Mathlib.Algebra.BigOperators.Group.List.Basic
import Mathlib.Algebra.Order.BigOperators.Group.List
import Mathlib.Data.List.Nodup

/-!
What a split of the descriptor pool gives away. Rounding down, the shares of a
direction's channels never add up to more than its descriptors; what is left
goes to the channel with the largest share.
-/

namespace CpswDriver.Cpdma

variable {channels : ChanId → Option CpdmaChan} {rx : Bool} {descNum perCh : ℤ}

/-- The descriptors a list of channels may hold by their quotas. -/
def quotaSum (channels : ChanId → Option CpdmaChan) (l : List ChanId) : ℕ :=
  (l.map fun ch => ((channels ch).map CpdmaChan.descNum).getD 0).sum

def weightOf (channels : ChanId → Option CpdmaChan) (ch : ChanId) : ℤ :=
  ((channels ch).map CpdmaChan.weight).getD 0

/-- The exact share of a channel, before it is stored in a u32. -/
def exactShare (descNum perCh : ℤ) (chan : CpdmaChan) : ℤ :=
  if chan.weight ≠ 0 then chan.weight * descNum / 100 else perCh

theorem nodup_chanSlots (rx : Bool) : (chanSlots rx).Nodup :=
  (List.nodup_finRange 64).filter _

theorem mem_chanSlots {ch : ChanId} : ch ∈ chanSlots rx ↔ isRxChan ch = rx := by
  simp [chanSlots]

theorem toU32_of_nonneg {x : ℤ} (h0 : 0 ≤ x) (h1 : x < 2 ^ 32) : (toU32 x : ℤ) = x := by
  unfold toU32
  omega

theorem share_eq {chan : CpdmaChan} (hdesc : 0 ≤ descNum) (hmax : descNum < 2 ^ 31)
    (hper : 0 ≤ perCh) (hpermax : perCh < 2 ^ 32) (hw0 : 0 ≤ chan.weight)
    (hw1 : chan.weight ≤ 100) : (share chan descNum perCh : ℤ) = exactShare descNum perCh chan := by
  unfold share exactShare
  split
  · have hmul : 0 ≤ chan.weight * descNum := Int.mul_nonneg hw0 hdesc
    have hle : chan.weight * descNum ≤ 100 * descNum := Int.mul_le_mul_of_nonneg_right hw1 hdesc
    rw [Int.tdiv_eq_ediv_of_nonneg hmul]
    exact toU32_of_nonneg (by omega) (by omega)
  · exact toU32_of_nonneg hper hpermax

/-- What the loop has done after the channels of `l`. -/
structure Shared (descNum perCh : ℤ) (v₀ v : SetDescs) (l : List ChanId) : Prop where
  inside : ∀ ch ∈ l, v.channels ch =
    (v₀.channels ch).map fun chan => { chan with descNum := share chan descNum perCh }
  outside : ∀ ch, ch ∉ l → v.channels ch = v₀.channels ch
  left : v.descCnt = v₀.descCnt - quotaSum v.channels l
  most : ∀ ch, v.mostChan = some ch → ch ∈ l ∧ ∃ chan, v.channels ch = some chan

theorem quotaSum_congr {f g : ChanId → Option CpdmaChan} {l : List ChanId}
    (h : ∀ ch ∈ l, f ch = g ch) : quotaSum f l = quotaSum g l := by
  unfold quotaSum
  rw [List.map_congr_left fun ch hch => by rw [h ch hch]]

theorem quotaSum_cons (f : ChanId → Option CpdmaChan) (ch : ChanId) (l : List ChanId) :
    quotaSum f (ch :: l) = ((f ch).map CpdmaChan.descNum).getD 0 + quotaSum f l := by
  simp [quotaSum]

theorem quotaSum_append (f : ChanId → Option CpdmaChan) (l l' : List ChanId) :
    quotaSum f (l ++ l') = quotaSum f l + quotaSum f l' := by
  simp [quotaSum]

theorem Shared.start {v₀ : SetDescs} (hmost : v₀.mostChan = none) :
    Shared descNum perCh v₀ v₀ [] :=
  ⟨by simp, fun _ _ => rfl, by simp [quotaSum], by simp [hmost]⟩

theorem Shared.step {v₀ v : SetDescs} {l : List ChanId} {ch : ChanId}
    (h : Shared descNum perCh v₀ v l) (hch : ch ∉ l) :
    Shared descNum perCh v₀ (setDescsStep descNum perCh v ch) (l ++ [ch]) := by
  have hold : v.channels ch = v₀.channels ch := h.outside ch hch
  have hne : ∀ ch' ∈ l, ch' ≠ ch := fun ch' hmem heq => hch (heq ▸ hmem)
  unfold setDescsStep
  cases hc : v.channels ch with
  | none =>
    refine ⟨?_, ?_, ?_, ?_⟩
    · intro ch' hmem
      rcases List.mem_append.mp hmem with hmem | hmem
      · exact h.inside ch' hmem
      · obtain rfl := List.mem_singleton.mp hmem
        rw [hc, ← hold, hc]
        rfl
    · intro ch' hmem
      exact h.outside ch' fun hl => hmem (List.mem_append_left _ hl)
    · rw [quotaSum_append, h.left]
      simp [quotaSum, hc]
    · intro ch' hm
      obtain ⟨hl, hsome⟩ := h.most ch' hm
      exact ⟨List.mem_append_left _ hl, hsome⟩
  | some chan =>
    have hupd : ∀ ch', ch' ≠ ch → Function.update v.channels ch
        (some { chan with descNum := share chan descNum perCh }) ch' = v.channels ch' :=
      fun ch' hne => Function.update_of_ne hne _ _
    have hsum : quotaSum (Function.update v.channels ch
        (some { chan with descNum := share chan descNum perCh })) (l ++ [ch]) =
        quotaSum v.channels l + share chan descNum perCh := by
      rw [quotaSum_append, quotaSum_congr fun ch' hmem => hupd ch' (hne ch' hmem)]
      simp [quotaSum]
    have hinside : ∀ ch' ∈ l ++ [ch], Function.update v.channels ch
        (some { chan with descNum := share chan descNum perCh }) ch' =
        (v₀.channels ch').map fun chan => { chan with descNum := share chan descNum perCh } := by
      intro ch' hmem
      rcases List.mem_append.mp hmem with hmem | hmem
      · rw [hupd ch' (hne ch' hmem), h.inside ch' hmem]
      · obtain rfl := List.mem_singleton.mp hmem
        rw [Function.update_self, ← hold, hc]
        rfl
    have houtside : ∀ ch', ch' ∉ l ++ [ch] → Function.update v.channels ch
        (some { chan with descNum := share chan descNum perCh }) ch' = v₀.channels ch' := by
      intro ch' hmem
      rw [hupd ch' (by rintro rfl; simp at hmem)]
      exact h.outside ch' fun hl => hmem (List.mem_append_left _ hl)
    dsimp only
    split
    · refine ⟨hinside, houtside, ?_, ?_⟩
      · rw [hsum]
        push_cast
        rw [h.left]
        omega
      · rintro ch' hm
        obtain rfl : ch = ch' := Option.some.inj hm
        exact ⟨by simp, _, Function.update_self ..⟩
    · refine ⟨hinside, houtside, ?_, ?_⟩
      · rw [hsum]
        push_cast
        rw [h.left]
        omega
      · intro ch' hm
        obtain ⟨hl, chan', hsome⟩ := h.most ch' hm
        exact ⟨List.mem_append_left _ hl, chan', (hupd ch' (hne ch' hl)).trans hsome⟩

theorem Shared.foldl {v₀ : SetDescs} : ∀ (l' l : List ChanId) (v : SetDescs),
    Shared descNum perCh v₀ v l → (l ++ l').Nodup →
    Shared descNum perCh v₀ (l'.foldl (setDescsStep descNum perCh) v) (l ++ l')
  | [], l, v, h, _ => by simpa using h
  | ch :: l', l, v, h, hnd => by
    have hch : ch ∉ l := fun hmem =>
      (List.nodup_append.mp hnd).2.2 ch hmem ch (List.mem_cons_self ..) rfl
    have hassoc : l ++ [ch] ++ l' = l ++ ch :: l' := by simp
    have ih := Shared.foldl l' (l ++ [ch]) _ (h.step hch) (by rwa [hassoc])
    rwa [hassoc] at ih

theorem Shared.slots (channels : ChanId → Option CpdmaChan) (rx : Bool) (descNum perCh : ℤ) :
    Shared descNum perCh ⟨channels, descNum, 0, none⟩
      ((chanSlots rx).foldl (setDescsStep descNum perCh) ⟨channels, descNum, 0, none⟩)
      (chanSlots rx) := by
  have hstart : Shared descNum perCh ⟨channels, descNum, 0, none⟩ ⟨channels, descNum, 0, none⟩ [] :=
    Shared.start rfl
  have hloop := Shared.foldl (chanSlots rx) [] _ hstart (by simpa using nodup_chanSlots rx)
  rwa [List.nil_append] at hloop

/-- Changing one channel's quota changes the sum by as much. -/
theorem quotaSum_update {f : ChanId → Option CpdmaChan} {ch : ChanId} {chan : CpdmaChan} (n : ℕ) :
    ∀ {l : List ChanId}, l.Nodup → ch ∈ l → f ch = some chan →
    quotaSum (Function.update f ch (some { chan with descNum := n })) l + chan.descNum =
      quotaSum f l + n
  | [], _, hmem, _ => by simp at hmem
  | c :: l, hnd, hmem, hf => by
    obtain ⟨hnot, hnd'⟩ := List.nodup_cons.mp hnd
    rw [quotaSum_cons, quotaSum_cons]
    by_cases hc : c = ch
    · subst hc
      have hrest : quotaSum (Function.update f c (some { chan with descNum := n })) l =
          quotaSum f l := quotaSum_congr fun ch' hmem' => by
        rw [Function.update_of_ne (by rintro rfl; exact hnot hmem')]
      rw [hrest]
      simp only [Function.update_self, hf, Option.map_some, Option.getD_some]
      omega
    · have hmem' : ch ∈ l := (List.mem_cons.mp hmem).resolve_left (Ne.symm hc)
      have ih := quotaSum_update n hnd' hmem' hf
      rw [Function.update_of_ne hc]
      omega

theorem quotaSum_ge {f : ChanId → Option CpdmaChan} {ch : ChanId} {chan : CpdmaChan} :
    ∀ {l : List ChanId}, ch ∈ l → f ch = some chan → chan.descNum ≤ quotaSum f l
  | c :: l, hmem, hf => by
    rw [quotaSum_cons]
    rcases List.mem_cons.mp hmem with rfl | hmem
    · simp [hf]
    · have := quotaSum_ge hmem hf
      omega

/-- The descriptors that a list of channels gets before rounding is made good. -/
theorem shares_le (hdesc : 0 ≤ descNum) (hmax : descNum < 2 ^ 31) (hper : 0 ≤ perCh)
    (hpermax : perCh < 2 ^ 32) : ∀ (l : List ChanId),
    (∀ ch ∈ l, 0 ≤ weightOf channels ch ∧ weightOf channels ch ≤ 100) →
    (quotaSum (fun ch => (channels ch).map fun chan =>
      { chan with descNum := share chan descNum perCh }) l : ℤ) ≤
      (l.map (weightOf channels)).sum * descNum / 100 +
        (l.countP fun ch => (channels ch).any fun chan => chan.weight == 0) * perCh
  | [], _ => by simp [quotaSum]
  | ch :: l, hw => by
    have ih := shares_le hdesc hmax hper hpermax l fun ch' hmem =>
      hw ch' (List.mem_cons_of_mem _ hmem)
    obtain ⟨hw0, hw1⟩ := hw ch (List.mem_cons_self ..)
    rw [quotaSum_cons, List.map_cons, List.sum_cons, add_mul]
    generalize hS : (l.map (weightOf channels)).sum * descNum = S at ih ⊢
    cases hc : channels ch with
    | none =>
      have hz : weightOf channels ch = 0 := by simp [weightOf, hc]
      simp only [hz, hc, List.countP_cons, Option.map_none, Option.getD_none, Option.any_none,
        Bool.false_eq_true, if_false, Int.zero_mul, zero_add, add_zero]
      omega
    | some chan =>
      have hweight : weightOf channels ch = chan.weight := by simp [weightOf, hc]
      rw [hweight] at hw0 hw1
      have hshare := share_eq hdesc hmax hper hpermax hw0 hw1
      simp only [hweight, hc, List.countP_cons, Option.map_some, Option.getD_some, Option.any_some]
      push_cast
      rw [hshare, exactShare]
      by_cases hz : chan.weight = 0
      · simp only [hz, ne_eq, not_true_eq_false, if_false, beq_self_eq_true, if_true, zero_mul]
        rw [add_mul, one_mul]
        omega
      · have hbeq : (chan.weight == 0) = false := by simpa using hz
        simp only [hz, ne_eq, not_false_eq_true, if_true, hbeq, Bool.false_eq_true, if_false,
          add_zero]
        generalize chan.weight * descNum = W
        omega

/-- Weights as the callers set them: not negative, and at most 100 in a direction. -/
structure WeightsOk (channels : ChanId → Option CpdmaChan) (rx : Bool) : Prop where
  nonneg : ∀ ch, 0 ≤ weightOf channels ch
  sum_le : weightSum channels rx ≤ 100

theorem weightOf_le_sum (h : ∀ ch, 0 ≤ weightOf channels ch) : ∀ {l : List ChanId} {ch : ChanId},
    ch ∈ l → weightOf channels ch ≤ (l.map (weightOf channels)).sum
  | c :: l, ch, hmem => by
    have hrest : 0 ≤ (l.map (weightOf channels)).sum :=
      List.sum_nonneg fun x hx => by
        obtain ⟨ch', -, rfl⟩ := List.mem_map.mp hx
        exact h ch'
    rw [List.map_cons, List.sum_cons]
    rcases List.mem_cons.mp hmem with rfl | hmem
    · omega
    · have := weightOf_le_sum h hmem
      have := h c
      omega

theorem perChDesc_spec (hw : WeightsOk channels rx) (hdesc : 0 ≤ descNum) :
    0 ≤ perChDesc channels rx descNum ∧ perChDesc channels rx descNum ≤ descNum ∧
      weightSum channels rx * descNum / 100 +
        freeNum channels rx * perChDesc channels rx descNum ≤ descNum := by
  have hsum : 0 ≤ weightSum channels rx := List.sum_nonneg fun x hx => by
    obtain ⟨ch', -, rfl⟩ := List.mem_map.mp hx
    exact hw.nonneg ch'
  have hmul : 0 ≤ weightSum channels rx * descNum := Int.mul_nonneg hsum hdesc
  have hle : weightSum channels rx * descNum ≤ 100 * descNum :=
    Int.mul_le_mul_of_nonneg_right hw.sum_le hdesc
  unfold perChDesc
  rw [Int.tdiv_eq_ediv_of_nonneg hmul]
  split
  · rename_i hfree
    have hrest : 0 ≤ descNum - weightSum channels rx * descNum / 100 := by omega
    rw [Int.tdiv_eq_ediv_of_nonneg hrest]
    have hdiv := Int.mul_ediv_self_le (x := descNum - weightSum channels rx * descNum / 100)
      (k := (freeNum channels rx : ℤ)) (by omega)
    have hself := Int.ediv_le_self (freeNum channels rx : ℤ) hrest
    refine ⟨Int.ediv_nonneg hrest (by omega), by omega, by omega⟩
  · omega

/-- The quotas of a direction add up to no more than its descriptors. -/
theorem cpdmaChanSetDescs_sum_le (hw : WeightsOk channels rx) (hdesc : 0 < descNum)
    (hmax : descNum < 2 ^ 31) (hper : perCh = perChDesc channels rx descNum) :
    (quotaSum (cpdmaChanSetDescs channels rx descNum perCh) (chanSlots rx) : ℤ) ≤ descNum := by
  obtain ⟨hper0, hperle, htotal⟩ := perChDesc_spec hw (le_of_lt hdesc)
  rw [← hper] at hper0 hperle htotal
  have hloop := Shared.slots channels rx descNum perCh
  have hweight : ∀ ch ∈ chanSlots rx, 0 ≤ weightOf channels ch ∧ weightOf channels ch ≤ 100 :=
    fun ch hch => ⟨hw.nonneg ch, le_trans (weightOf_le_sum hw.nonneg hch) hw.sum_le⟩
  have hshares := shares_le (le_of_lt hdesc) hmax hper0 (by omega) (chanSlots rx) hweight
  unfold cpdmaChanSetDescs
  rw [if_neg (by omega)]
  generalize (chanSlots rx).foldl (setDescsStep descNum perCh) ⟨channels, descNum, 0, none⟩ = v
    at hloop ⊢
  have hsum : (quotaSum v.channels (chanSlots rx) : ℤ) ≤ descNum := by
    rw [quotaSum_congr hloop.inside]
    exact le_trans hshares htotal
  have hleft := hloop.left
  unfold useRemains
  cases hm : v.mostChan with
  | none => exact hsum
  | some ch =>
    obtain ⟨hmem, chan, hchan⟩ := hloop.most ch hm
    have hupd := quotaSum_update (toU32 (chan.descNum + v.descCnt)) (nodup_chanSlots rx) hmem hchan
    have hmost := quotaSum_ge hmem hchan
    have hnew := toU32_of_nonneg (x := chan.descNum + v.descCnt) (by dsimp only at hleft; omega)
      (by dsimp only at hleft; omega)
    simp only [hchan]
    dsimp only at hleft
    omega

theorem cpdmaChanSetDescs_outside {ch : ChanId} (h : isRxChan ch ≠ rx) :
    cpdmaChanSetDescs channels rx descNum perCh ch = channels ch := by
  have hnot : ch ∉ chanSlots rx := mt mem_chanSlots.mp h
  have hloop := Shared.slots channels rx descNum perCh
  unfold cpdmaChanSetDescs
  split
  · rfl
  generalize (chanSlots rx).foldl (setDescsStep descNum perCh) ⟨channels, descNum, 0, none⟩ = v
    at hloop ⊢
  have hold := hloop.outside ch hnot
  unfold useRemains
  cases hm : v.mostChan with
  | none => exact hold
  | some most =>
    obtain ⟨hmem, chan, hchan⟩ := hloop.most most hm
    have hne : ch ≠ most := by
      rintro rfl
      exact hnot hmem
    simp only [hchan]
    rw [Function.update_of_ne hne]
    exact hold

theorem QuotaOnly.weightOf {f g : ChanId → Option CpdmaChan} (h : QuotaOnly f g) (ch : ChanId) :
    weightOf g ch = weightOf f ch := by
  obtain ⟨n, hn⟩ := h ch
  unfold CpswDriver.Cpdma.weightOf
  rw [hn]
  cases f ch <;> rfl

theorem QuotaOnly.weightsOk {f g : ChanId → Option CpdmaChan} (h : QuotaOnly f g)
    (hw : WeightsOk f rx) : WeightsOk g rx where
  nonneg ch := by
    rw [h.weightOf]
    exact hw.nonneg ch
  sum_le := by
    have hsum : weightSum g rx = weightSum f rx :=
      congrArg List.sum (List.map_congr_left fun ch _ => h.weightOf ch)
    rw [hsum]
    exact hw.sum_le

theorem QuotaOnly.perChDesc {f g : ChanId → Option CpdmaChan} (h : QuotaOnly f g) (descNum : ℤ) :
    perChDesc g rx descNum = perChDesc f rx descNum := by
  have hsum : weightSum g rx = weightSum f rx :=
    congrArg List.sum (List.map_congr_left fun ch _ => h.weightOf ch)
  have hfree : freeNum g rx = freeNum f rx := by
    refine List.countP_congr fun ch _ => ?_
    obtain ⟨n, hn⟩ := h ch
    rw [hn]
    cases f ch <;> simp
  unfold CpswDriver.Cpdma.perChDesc
  rw [hsum, hfree]

/-- A split that succeeds gives away no more than there is, in each direction. -/
theorem cpdmaChanSplitPool_sum_le {τ : Type*} {ctlr ctlr' : CpdmaCtlr τ}
    (hnum : ctlr.chanNum ≠ 0) (htx : WeightsOk ctlr.channels false)
    (hrx : WeightsOk ctlr.channels true) (htx0 : 0 < ctlr.numTxDesc) (hrx0 : 0 < ctlr.numRxDesc)
    (htx1 : ctlr.numTxDesc < 2 ^ 31) (hrx1 : ctlr.numRxDesc < 2 ^ 31)
    (h : cpdmaChanSplitPool ctlr = (ctlr', 0)) :
    (quotaSum ctlr'.channels (chanSlots false) : ℤ) ≤ ctlr.numTxDesc ∧
      (quotaSum ctlr'.channels (chanSlots true) : ℤ) ≤ ctlr.numRxDesc := by
  unfold cpdmaChanSplitPool at h
  rw [if_neg hnum, if_neg (by have := htx.sum_le; have := hrx.sum_le; omega)] at h
  obtain ⟨rfl, -⟩ := Prod.mk.inj h
  have hfirst := cpdmaChanSetDescs_quotaOnly ctlr.channels false ctlr.numTxDesc
    (perChDesc ctlr.channels false ctlr.numTxDesc)
  refine ⟨?_, cpdmaChanSetDescs_sum_le (hfirst.weightsOk hrx) hrx0 hrx1
    (hfirst.perChDesc ctlr.numRxDesc).symm⟩
  dsimp only
  rw [quotaSum_congr fun ch hch => cpdmaChanSetDescs_outside (by
    rw [mem_chanSlots.mp hch]
    decide)]
  exact cpdmaChanSetDescs_sum_le htx htx0 htx1 rfl

end CpswDriver.Cpdma
