import CpswDriver.Cpdma.Quota
import CpswDriver.Cpdma.System
import CpswDriver.Lib.Apportion
import Mathlib.Algebra.Order.Ring.Abs

/-!
Where the remains of a split go. The shares of the channels are rounded, and the
channel with the largest one takes what the rounding left. When every share is zero
there is no such channel, and the descriptors of the direction are given to nobody.
-/

namespace CpswDriver.Cpdma

open Apportion

variable {channels : ChanId → Option CpdmaChan} {rx : Bool} {descNum perCh : ℤ}
  {ch : ChanId} {chan : CpdmaChan}

/-- The share of a channel as the code computes it, in ints. -/
def intShare (descNum perCh : ℤ) (chan : CpdmaChan) : ℤ :=
  if chan.weight ≠ 0 then (chan.weight * descNum).tdiv 100 else perCh

/-- cpdma_chan_get_rx_buf_num: the quota, read into an int. -/
def cpdmaChanGetRxBufNum (chan : CpdmaChan) : ℤ := (chan.descNum : ℤ).bmod (2 ^ 32)

/-- The rounded share of the channel `ch`, 0 where there is none. -/
def dueTo (channels : ChanId → Option CpdmaChan) (rx : Bool) (descNum : ℤ) (ch : ChanId) : ℤ :=
  ((channels ch).map (intShare descNum (perChDesc channels rx descNum))).getD 0

def granted (channels : ChanId → Option CpdmaChan) (ch : ChanId) : ℤ :=
  (((channels ch).map CpdmaChan.descNum).getD 0 : ℕ)

/-- The descriptors of a direction are given to its channels, each of them once. -/
structure SplitExactly (channels channels' : ChanId → Option CpdmaChan) (rx : Bool)
    (descNum : ℤ) : Prop where
  nonneg : ∀ ch chan, isRxChan ch = rx → channels' ch = some chan → 0 ≤ cpdmaChanGetRxBufNum chan
  total : (∃ ch, isRxChan ch = rx ∧ (channels ch).isSome) →
    (quotaSum channels' (chanSlots rx) : ℤ) = descNum
  shares : ∃ taker, ∀ ch chan, isRxChan ch = rx → ch ≠ taker → channels' ch = some chan →
    (chan.descNum : ℤ) = dueTo channels rx descNum ch

/-- Some channel is due a share, and the others no more than there is. -/
def Covers (channels : ChanId → Option CpdmaChan) (rx : Bool) (descNum : ℤ) : Prop :=
  (∀ ch, isRxChan ch = rx → channels ch = none) ∨
  ∃ taker, isRxChan taker = rx ∧ dueTo channels rx descNum taker ≠ 0 ∧
    (∀ ch, isRxChan ch = rx → ch ≠ taker → 0 ≤ dueTo channels rx descNum ch) ∧
    others (chanSlots rx) (dueTo channels rx descNum) taker ≤ descNum

/-- The products that a split of `descNum` descriptors computes are ints. -/
structure Fits (channels : ChanId → Option CpdmaChan) (rx : Bool) (descNum : ℤ) : Prop where
  weight : ∀ ch, |weightOf channels ch| * descNum < 2 ^ 31
  sum : |weightSum channels rx| * descNum < 2 ^ 31

theorem share_eq_toU32 (descNum perCh : ℤ) (chan : CpdmaChan) :
    share chan descNum perCh = toU32 (intShare descNum perCh chan) := by
  unfold share intShare
  split <;> rfl

def sharedOut (channels : ChanId → Option CpdmaChan) (rx : Bool) (descNum perCh : ℤ) (ch : ChanId) :
    Option CpdmaChan :=
  if isRxChan ch = rx then
    (channels ch).map fun chan => { chan with descNum := share chan descNum perCh }
  else channels ch

theorem foldl_sharedOut (channels : ChanId → Option CpdmaChan) (rx : Bool) (descNum perCh : ℤ) :
    ((chanSlots rx).foldl (setDescsStep descNum perCh) ⟨channels, descNum, 0, none⟩).channels =
      sharedOut channels rx descNum perCh := by
  have hloop := Shared.slots channels rx descNum perCh
  funext ch
  unfold sharedOut
  split
  · exact hloop.inside ch (mem_chanSlots.mpr ‹_›)
  · exact hloop.outside ch (mt mem_chanSlots.mp ‹_›)

/-- The rounded share of a channel, which its weight decides. -/
def shareOf (channels : ChanId → Option CpdmaChan) (descNum perCh : ℤ) (ch : ChanId) : ℕ :=
  ((channels ch).map fun chan => share chan descNum perCh).getD 0

theorem foldl_mostChan (channels : ChanId → Option CpdmaChan) (descNum perCh : ℤ)
    {l : List ChanId} (hl : l.Nodup) :
    (l.foldl (setDescsStep descNum perCh) ⟨channels, descNum, 0, none⟩).mostChan =
        firstLargest (shareOf channels descNum perCh) l ∧
      (l.foldl (setDescsStep descNum perCh) ⟨channels, descNum, 0, none⟩).mostDnum =
        ((firstLargest (shareOf channels descNum perCh) l).map
          (shareOf channels descNum perCh)).getD 0 := by
  induction l using List.reverseRecOn with
  | nil => exact ⟨rfl, rfl⟩
  | append_singleton l ch ih =>
    obtain ⟨hl, -, hch⟩ := List.nodup_append.mp hl
    obtain ⟨hmost, hdnum⟩ := ih hl
    have hloop : Shared descNum perCh ⟨channels, descNum, 0, none⟩
        (l.foldl (setDescsStep descNum perCh) ⟨channels, descNum, 0, none⟩) l :=
      Shared.foldl l [] _ (Shared.start rfl) (by simpa using hl)
    have hold : _ = channels ch := hloop.outside ch fun hmem => hch ch hmem ch (by simp) rfl
    rw [List.foldl_append, List.foldl_cons, List.foldl_nil, firstLargest_concat]
    generalize l.foldl (setDescsStep descNum perCh) ⟨channels, descNum, 0, none⟩ = v
      at hmost hdnum hold ⊢
    rw [← hdnum, ← hmost]
    unfold setDescsStep
    cases hc : channels ch with
    | none =>
      have hzero : shareOf channels descNum perCh ch = 0 := by
        unfold shareOf
        rw [hc, Option.map_none, Option.getD_none]
      rw [hold, hc, hzero, if_neg (Nat.not_lt_zero _)]
      exact ⟨rfl, hmost ▸ hdnum⟩
    | some chan =>
      have hshare : shareOf channels descNum perCh ch = share chan descNum perCh := by
        unfold shareOf
        rw [hc, Option.map_some, Option.getD_some]
      rw [hold, hc]
      dsimp only
      by_cases hlt : v.mostDnum < share chan descNum perCh
      · rw [if_pos hlt, hshare, if_pos hlt]
        exact ⟨rfl, hshare.symm⟩
      · rw [if_neg hlt, hshare, if_neg hlt]
        exact ⟨rfl, hmost ▸ hdnum⟩

/-- What cpdma_chan_set_descs leaves: the shares, with the remains added to the first of the
largest. -/
theorem cpdmaChanSetDescs_cases (channels : ChanId → Option CpdmaChan) (rx : Bool) (perCh : ℤ)
    (hdesc : descNum ≠ 0) :
    (firstLargest (shareOf channels descNum perCh) (chanSlots rx) = none ∧
      cpdmaChanSetDescs channels rx descNum perCh = sharedOut channels rx descNum perCh) ∨
    ∃ taker chan, firstLargest (shareOf channels descNum perCh) (chanSlots rx) = some taker ∧
      isRxChan taker = rx ∧ channels taker = some chan ∧
      cpdmaChanSetDescs channels rx descNum perCh =
        Function.update (sharedOut channels rx descNum perCh) taker
          (some { chan with descNum := toU32 (share chan descNum perCh +
            (descNum - quotaSum (sharedOut channels rx descNum perCh) (chanSlots rx))) }) := by
  have hloop := Shared.slots channels rx descNum perCh
  obtain ⟨hmost, -⟩ := foldl_mostChan channels descNum perCh (nodup_chanSlots rx)
  have hout := foldl_sharedOut channels rx descNum perCh
  unfold cpdmaChanSetDescs
  rw [if_neg hdesc]
  generalize (chanSlots rx).foldl (setDescsStep descNum perCh) ⟨channels, descNum, 0, none⟩ = v
    at hloop hmost hout ⊢
  have hleft := hloop.left
  dsimp only at hleft
  unfold useRemains
  cases hm : v.mostChan with
  | none => exact .inl ⟨hmost.symm.trans hm, hout⟩
  | some taker =>
    obtain ⟨hmem, chan', hchan'⟩ := hloop.most taker hm
    obtain ⟨chan, hch, rfl⟩ := Option.map_eq_some_iff.mp ((hloop.inside taker hmem).symm.trans hchan')
    refine .inr ⟨taker, chan, hmost.symm.trans hm, mem_chanSlots.mp hmem, hch, ?_⟩
    simp only [hchan']
    rw [hleft, hout]

theorem tdiv_hundred_of_nonneg {x : ℤ} (hx : 0 ≤ x) : 0 ≤ x.tdiv 100 ∧ 100 * x.tdiv 100 ≤ x := by
  rw [Int.tdiv_eq_ediv_of_nonneg hx]
  omega

theorem tdiv_hundred_bounds (x : ℤ) :
    (0 ≤ x → 0 ≤ x.tdiv 100 ∧ 100 * x.tdiv 100 ≤ x) ∧
      (x ≤ 0 → x ≤ 100 * x.tdiv 100 ∧ x.tdiv 100 ≤ 0) := by
  refine ⟨tdiv_hundred_of_nonneg, fun hx => ?_⟩
  have hneg := tdiv_hundred_of_nonneg (x := -x) (by omega)
  rw [Int.neg_tdiv] at hneg
  omega

theorem perChDesc_bounds (hpos : 0 < descNum) (hmax : descNum < 2 ^ 31)
    (hover : weightSum channels rx ≤ 100) (hfits : Fits channels rx descNum) :
    0 ≤ perChDesc channels rx descNum ∧ perChDesc channels rx descNum < 2 ^ 32 := by
  have hsum := hfits.sum
  have hle : weightSum channels rx * descNum ≤ 100 * descNum :=
    Int.mul_le_mul_of_nonneg_right hover (le_of_lt hpos)
  have habs : |weightSum channels rx * descNum| < 2 ^ 31 := by
    rwa [abs_mul, abs_of_pos hpos]
  obtain ⟨hup, hdown⟩ := tdiv_hundred_bounds (weightSum channels rx * descNum)
  rw [abs_lt] at habs
  unfold perChDesc
  split
  · have hrest : 0 ≤ descNum - (weightSum channels rx * descNum).tdiv 100 := by omega
    have hself := Int.ediv_le_self (freeNum channels rx : ℤ) hrest
    rw [Int.tdiv_eq_ediv_of_nonneg hrest]
    exact ⟨Int.ediv_nonneg hrest (Int.natCast_nonneg _), by omega⟩
  · omega

theorem dueTo_bounds (hpos : 0 < descNum) (hmax : descNum < 2 ^ 31)
    (hover : weightSum channels rx ≤ 100) (hfits : Fits channels rx descNum) (ch : ChanId) :
    -2 ^ 31 < dueTo channels rx descNum ch ∧ dueTo channels rx descNum ch < 2 ^ 32 := by
  have hweight := hfits.weight ch
  unfold weightOf at hweight
  unfold dueTo
  cases hc : channels ch with
  | none => simp
  | some chan =>
    rw [hc, Option.map_some, Option.getD_some] at hweight
    rw [Option.map_some, Option.getD_some]
    unfold intShare
    split
    · have habs : |chan.weight * descNum| < 2 ^ 31 := by
        rwa [abs_mul, abs_of_pos hpos]
      obtain ⟨hup, hdown⟩ := tdiv_hundred_bounds (chan.weight * descNum)
      rw [abs_lt] at habs
      omega
    · have := perChDesc_bounds hpos hmax hover hfits
      omega

theorem quotaSum_eq_granted (f : ChanId → Option CpdmaChan) (l : List ChanId) :
    (quotaSum f l : ℤ) = (l.map (granted f)).sum := by
  induction l with
  | nil => rfl
  | cons ch l ih =>
    rw [quotaSum_cons, List.map_cons, List.sum_cons, ← ih]
    push_cast
    rfl

theorem granted_nonneg (f : ChanId → Option CpdmaChan) (ch : ChanId) : 0 ≤ granted f ch :=
  Int.natCast_nonneg _

theorem granted_le_quotaSum (f : ChanId → Option CpdmaChan) (hrx : isRxChan ch = rx) :
    granted f ch ≤ quotaSum f (chanSlots rx) := by
  rw [quotaSum_eq_granted]
  apply List.single_le_sum
  · intro x hx
    obtain ⟨ch', -, rfl⟩ := List.mem_map.mp hx
    exact granted_nonneg f ch'
  · exact List.mem_map_of_mem (mem_chanSlots.mpr hrx)

def shared (channels : ChanId → Option CpdmaChan) (rx : Bool) (descNum : ℤ) : ChanId → ℤ :=
  granted (sharedOut channels rx descNum (perChDesc channels rx descNum))

theorem shared_eq (hrx : isRxChan ch = rx) :
    shared channels rx descNum ch = toU32 (dueTo channels rx descNum ch) := by
  unfold shared granted sharedOut dueTo
  rw [if_pos hrx]
  cases channels ch with
  | none => rfl
  | some chan =>
    simp only [Option.map_some, Option.getD_some]
    rw [share_eq_toU32]

theorem shared_eq_shareOf (hrx : isRxChan ch = rx) : shared channels rx descNum ch =
    shareOf channels descNum (perChDesc channels rx descNum) ch := by
  unfold shared granted sharedOut shareOf
  rw [if_pos hrx]
  cases channels ch <;> rfl

theorem shared_of_nonneg (hrx : isRxChan ch = rx) (h0 : 0 ≤ dueTo channels rx descNum ch)
    (h1 : dueTo channels rx descNum ch < 2 ^ 32) :
    shared channels rx descNum ch = dueTo channels rx descNum ch := by
  rw [shared_eq hrx, toU32_of_nonneg h0 h1]

theorem shared_of_neg (hrx : isRxChan ch = rx) (h0 : dueTo channels rx descNum ch < 0)
    (h1 : -2 ^ 31 < dueTo channels rx descNum ch) :
    2 ^ 31 < shared channels rx descNum ch := by
  rw [shared_eq hrx]
  unfold toU32
  omega

/-- The split of one direction, as cpdma_chan_split_pool calls for it. -/
def splitOf (channels : ChanId → Option CpdmaChan) (rx : Bool) (descNum : ℤ) :
    ChanId → Option CpdmaChan :=
  cpdmaChanSetDescs channels rx descNum (perChDesc channels rx descNum)

/-- The channel `taker` has the remains of the split. -/
structure Takes (channels : ChanId → Option CpdmaChan) (rx : Bool) (descNum : ℤ)
    (taker : ChanId) : Prop where
  dir : isRxChan taker = rx
  pos : 0 < shared channels rx descNum taker
  most : ∀ ch, isRxChan ch = rx → shared channels rx descNum ch ≤ shared channels rx descNum taker
  rest : ∀ ch, ch ≠ taker → granted (splitOf channels rx descNum) ch = shared channels rx descNum ch
  self : granted (splitOf channels rx descNum) taker =
    toU32 (descNum - others (chanSlots rx) (shared channels rx descNum) taker)

theorem splitOf_cases (channels : ChanId → Option CpdmaChan) (rx : Bool) (hdesc : descNum ≠ 0) :
    (∀ ch, isRxChan ch = rx → shared channels rx descNum ch = 0 ∧
      granted (splitOf channels rx descNum) ch = 0) ∨
    ∃ taker, Takes channels rx descNum taker := by
  rcases cpdmaChanSetDescs_cases channels rx (perChDesc channels rx descNum) hdesc with
    ⟨hnone, hout⟩ | ⟨taker, chan, hsome, hrx, hch, hout⟩
  · refine .inl fun ch hrx => ?_
    have hzero : shared channels rx descNum ch = 0 := by
      rw [shared_eq_shareOf hrx, firstLargest_eq_none hnone (mem_chanSlots.mpr hrx), Nat.cast_zero]
    refine ⟨hzero, ?_⟩
    rw [splitOf, hout]
    exact hzero
  · obtain ⟨-, hpos, hmost⟩ := firstLargest_eq_some hsome
    have htaker : shared channels rx descNum taker =
        share chan descNum (perChDesc channels rx descNum) := by
      rw [shared_eq_shareOf hrx, shareOf, hch, Option.map_some, Option.getD_some]
    have hsum := add_others (shared channels rx descNum) (mem_chanSlots.mpr hrx)
    have htotal : (quotaSum (sharedOut channels rx descNum (perChDesc channels rx descNum))
        (chanSlots rx) : ℤ) = ((chanSlots rx).map (shared channels rx descNum)).sum :=
      quotaSum_eq_granted _ _
    refine .inr ⟨taker, hrx, ?_, ?_, ?_, ?_⟩
    · rw [shared_eq_shareOf hrx]
      exact_mod_cast hpos
    · intro ch hrx'
      rw [shared_eq_shareOf hrx', shared_eq_shareOf hrx]
      exact_mod_cast hmost ch (mem_chanSlots.mpr hrx')
    · intro ch hne
      unfold granted
      rw [splitOf, hout, Function.update_of_ne hne]
      rfl
    · unfold granted
      rw [splitOf, hout, Function.update_self, Option.map_some, Option.getD_some]
      dsimp only
      congr 2
      omega

/-- The quota that the weights of a direction give a channel: its rounded share, and to the first
channel with the largest share also what the rounding leaves of `descNum`. -/
def quotaByWeight (channels : ChanId → Option CpdmaChan) (rx : Bool) (descNum : ℤ) (ch : ChanId) :
    ℕ :=
  let due := shareOf channels descNum (perChDesc channels rx descNum)
  if firstLargest due (chanSlots rx) = some ch then
    toU32 (due ch + (descNum - ((chanSlots rx).map due).sum))
  else due ch

theorem granted_splitOf (hdesc : descNum ≠ 0) (hrx : isRxChan ch = rx) :
    granted (splitOf channels rx descNum) ch = quotaByWeight channels rx descNum ch := by
  have hshare : granted (sharedOut channels rx descNum (perChDesc channels rx descNum)) ch =
      (shareOf channels descNum (perChDesc channels rx descNum) ch : ℤ) := shared_eq_shareOf hrx
  have htotal : quotaSum (sharedOut channels rx descNum (perChDesc channels rx descNum))
      (chanSlots rx) =
        ((chanSlots rx).map (shareOf channels descNum (perChDesc channels rx descNum))).sum := by
    refine congrArg List.sum (List.map_congr_left fun ch' hmem => ?_)
    exact Nat.cast_injective (R := ℤ) (shared_eq_shareOf (mem_chanSlots.mp hmem))
  unfold quotaByWeight
  dsimp only
  rcases cpdmaChanSetDescs_cases channels rx (perChDesc channels rx descNum) hdesc with
    ⟨hnone, hout⟩ | ⟨taker, chan, hsome, -, hch, hout⟩
  · rw [hnone, if_neg (Option.some_ne_none ch).symm, splitOf, hout]
    exact hshare
  · rw [hsome, splitOf, hout, htotal]
    by_cases heq : ch = taker
    · rw [if_pos (congrArg some heq.symm), heq, granted, Function.update_self, shareOf, hch]
      rfl
    · rw [if_neg fun hcon => heq (Option.some.inj hcon).symm, granted,
        Function.update_of_ne heq]
      exact hshare

/-- Whoever takes the remains, the quotas are the shares with the taker's settled. -/
theorem Takes.settled {taker : ChanId} (h : Takes channels rx descNum taker)
    (hbounds : ∀ ch, dueTo channels rx descNum ch < 2 ^ 32) (hmax : descNum < 2 ^ 31)
    (hnonneg : ∀ ch, isRxChan ch = rx → ch ≠ taker → 0 ≤ dueTo channels rx descNum ch)
    (hothers : others (chanSlots rx) (dueTo channels rx descNum) taker ≤ descNum)
    (hrx : isRxChan ch = rx) :
    granted (splitOf channels rx descNum) ch =
      settle (chanSlots rx) (dueTo channels rx descNum) descNum taker ch := by
  have hexact : ∀ ch, isRxChan ch = rx → ch ≠ taker →
      shared channels rx descNum ch = dueTo channels rx descNum ch :=
    fun ch hrx hne => shared_of_nonneg hrx (hnonneg ch hrx hne) (hbounds ch)
  by_cases hne : ch = taker
  · subst hne
    have hsame : others (chanSlots rx) (shared channels rx descNum) ch =
        others (chanSlots rx) (dueTo channels rx descNum) ch :=
      others_congr (nodup_chanSlots rx) fun ch' hmem hne => hexact ch' (mem_chanSlots.mp hmem) hne
    have hlow : 0 ≤ others (chanSlots rx) (dueTo channels rx descNum) ch :=
      others_nonneg (nodup_chanSlots rx) fun ch' hmem => hnonneg ch' (mem_chanSlots.mp hmem)
    rw [h.self, hsame, settle, Function.update_self]
    exact toU32_of_nonneg (by omega) (by omega)
  · rw [h.rest ch hne, settle_of_ne hne]
    exact hexact ch hrx hne

theorem Covers.of_exact (hpos : 0 < descNum) (hmax : descNum < 2 ^ 31)
    (hbounds : ∀ ch, -2 ^ 31 < dueTo channels rx descNum ch ∧ dueTo channels rx descNum ch < 2 ^ 32)
    (h : SplitExactly channels (splitOf channels rx descNum) rx descNum) :
    Covers channels rx descNum := by
  by_cases hnone : ∀ ch, isRxChan ch = rx → channels ch = none
  · exact .inl hnone
  have hsome : ∃ ch, isRxChan ch = rx ∧ (channels ch).isSome := by
    push Not at hnone
    obtain ⟨ch, hrx, hch⟩ := hnone
    exact ⟨ch, hrx, Option.isSome_iff_ne_none.mpr hch⟩
  have htotal := h.total hsome
  have hle : ∀ ch, isRxChan ch = rx → granted (splitOf channels rx descNum) ch ≤ descNum :=
    fun ch hrx => (granted_le_quotaSum _ hrx).trans_eq htotal
  rw [quotaSum_eq_granted] at htotal
  rcases splitOf_cases channels rx (by omega : descNum ≠ 0) with
    hzero | ⟨taker, htakes⟩
  · have hsum : ((chanSlots rx).map (granted (splitOf channels rx descNum))).sum = 0 := by
      apply List.sum_eq_zero
      intro x hx
      obtain ⟨ch, hmem, rfl⟩ := List.mem_map.mp hx
      exact (hzero ch (mem_chanSlots.mp hmem)).2
    omega
  have hexact : ∀ ch, isRxChan ch = rx → ch ≠ taker → 0 ≤ dueTo channels rx descNum ch ∧
      granted (splitOf channels rx descNum) ch = dueTo channels rx descNum ch := by
    intro ch hrx hne
    have hgrant := htakes.rest ch hne
    have hmost := hle ch hrx
    have hnonneg : 0 ≤ dueTo channels rx descNum ch := by
      by_contra hneg
      have := shared_of_neg hrx (by omega) (hbounds ch).1
      omega
    rw [hgrant]
    exact ⟨hnonneg, shared_of_nonneg hrx hnonneg (hbounds ch).2⟩
  refine .inr ⟨taker, htakes.dir, ?_, fun ch hrx hne => (hexact ch hrx hne).1, ?_⟩
  · intro hz
    have hpos' := htakes.pos
    rw [shared_eq htakes.dir, hz] at hpos'
    exact absurd hpos' (by decide)
  · have hsame : others (chanSlots rx) (dueTo channels rx descNum) taker =
        others (chanSlots rx) (granted (splitOf channels rx descNum)) taker :=
      others_congr (nodup_chanSlots rx) fun ch hmem hne =>
        (hexact ch (mem_chanSlots.mp hmem) hne).2.symm
    have hsum := add_others (granted (splitOf channels rx descNum)) (mem_chanSlots.mpr htakes.dir)
    have hown := granted_nonneg (splitOf channels rx descNum) taker
    omega

/-- A channel that may take the remains is, up to a tie, the one that does. -/
theorem Takes.covered {taker m : ChanId} (h : Takes channels rx descNum taker)
    (hmax : descNum < 2 ^ 31)
    (hbounds : ∀ ch, -2 ^ 31 < dueTo channels rx descNum ch ∧ dueTo channels rx descNum ch < 2 ^ 32)
    (hm : isRxChan m = rx)
    (hnonneg : ∀ ch, isRxChan ch = rx → ch ≠ m → 0 ≤ dueTo channels rx descNum ch)
    (hothers : others (chanSlots rx) (dueTo channels rx descNum) m ≤ descNum) :
    (∀ ch, isRxChan ch = rx → ch ≠ taker → 0 ≤ dueTo channels rx descNum ch) ∧
      others (chanSlots rx) (dueTo channels rx descNum) taker ≤ descNum := by
  by_cases heq : taker = m
  · rw [heq]
    exact ⟨hnonneg, hothers⟩
  have htaker := hnonneg taker h.dir heq
  have hexact := shared_of_nonneg h.dir htaker (hbounds taker).2
  have hle := le_others (nodup_chanSlots rx) (fun ch hmem => hnonneg ch (mem_chanSlots.mp hmem))
    (mem_chanSlots.mpr h.dir) heq
  have hmost := h.most m hm
  have hself : 0 ≤ dueTo channels rx descNum m := by
    by_contra hneg
    have := shared_of_neg hm (by omega) (hbounds m).1
    omega
  have hself' := shared_of_nonneg hm hself (hbounds m).2
  refine ⟨fun ch hrx hne => ?_, ?_⟩
  · by_cases hch : ch = m
    · rwa [hch]
    · exact hnonneg ch hrx hch
  · have hsum := add_others (dueTo channels rx descNum) (mem_chanSlots.mpr hm)
    have hsum' := add_others (dueTo channels rx descNum) (mem_chanSlots.mpr h.dir)
    omega

theorem Covers.exact (hpos : 0 < descNum) (hmax : descNum < 2 ^ 31)
    (hbounds : ∀ ch, -2 ^ 31 < dueTo channels rx descNum ch ∧ dueTo channels rx descNum ch < 2 ^ 32)
    (h : Covers channels rx descNum) :
    SplitExactly channels (splitOf channels rx descNum) rx descNum := by
  have hquota : QuotaOnly channels (splitOf channels rx descNum) :=
    cpdmaChanSetDescs_quotaOnly _ _ _ _
  rcases h with hnone | ⟨m, hm, hdue, hnonneg, hothers⟩
  · have hgone : ∀ ch, isRxChan ch = rx → splitOf channels rx descNum ch = none := by
      intro ch hrx
      obtain ⟨n, hn⟩ := hquota ch
      rw [hn, hnone ch hrx]
      rfl
    refine ⟨?_, ?_, 0, ?_⟩
    · intro ch chan hrx hch
      rw [hgone ch hrx] at hch
      cases hch
    · rintro ⟨ch, hrx, hsome⟩
      rw [hnone ch hrx] at hsome
      cases hsome
    · intro ch chan hrx _ hch
      rw [hgone ch hrx] at hch
      cases hch
  obtain hzero | ⟨taker, htakes⟩ :=
    splitOf_cases channels rx (by omega : descNum ≠ 0)
  · have hz := (hzero m hm).1
    rw [shared_eq hm] at hz
    have hlow := (hbounds m).1
    have hhigh := (hbounds m).2
    unfold toU32 at hz
    omega
  obtain ⟨hnonneg, hothers⟩ := htakes.covered hmax hbounds hm hnonneg hothers
  have hsettled : ∀ ch, isRxChan ch = rx → granted (splitOf channels rx descNum) ch =
      settle (chanSlots rx) (dueTo channels rx descNum) descNum taker ch :=
    fun ch hrx => htakes.settled (fun ch => (hbounds ch).2) hmax hnonneg hothers hrx
  have htotal : (quotaSum (splitOf channels rx descNum) (chanSlots rx) : ℤ) = descNum := by
    rw [quotaSum_eq_granted, List.map_congr_left fun ch hmem => hsettled ch (mem_chanSlots.mp hmem)]
    exact sum_settle (nodup_chanSlots rx) (mem_chanSlots.mpr htakes.dir)
  refine ⟨?_, fun _ => htotal, taker, ?_⟩
  · intro ch chan hrx hch
    have hle := granted_le_quotaSum (splitOf channels rx descNum) hrx
    rw [htotal] at hle
    unfold granted at hle
    rw [hch, Option.map_some, Option.getD_some] at hle
    unfold cpdmaChanGetRxBufNum
    rw [Int.bmod_eq_of_le (by omega) (by omega)]
    omega
  · intro ch chan hrx hne hch
    have hgrant := hsettled ch hrx
    rw [settle_of_ne hne] at hgrant
    unfold granted at hgrant
    rwa [hch, Option.map_some, Option.getD_some] at hgrant

theorem splitOf_exact_iff (hpos : 0 < descNum) (hmax : descNum < 2 ^ 31)
    (hover : weightSum channels rx ≤ 100) (hfits : Fits channels rx descNum) :
    SplitExactly channels (splitOf channels rx descNum) rx descNum ↔ Covers channels rx descNum :=
  have hbounds := dueTo_bounds hpos hmax hover hfits
  ⟨Covers.of_exact hpos hmax hbounds, Covers.exact hpos hmax hbounds⟩

/-- Weights that are percentages are all stored as they are. -/
theorem dueTo_eq_share (hw : WeightsOk channels rx) (hpos : 0 < descNum) (hmax : descNum < 2 ^ 31)
    (hrx : isRxChan ch = rx) :
    dueTo channels rx descNum ch = granted (fun ch => (channels ch).map fun chan =>
      { chan with descNum := share chan descNum (perChDesc channels rx descNum) }) ch := by
  obtain ⟨hper0, hper1, -⟩ := perChDesc_spec hw (le_of_lt hpos)
  have hnonneg := hw.nonneg ch
  have hle := le_trans (weightOf_le_sum hw.nonneg (mem_chanSlots.mpr hrx)) hw.sum_le
  unfold dueTo granted
  dsimp only
  cases hc : channels ch with
  | none => rfl
  | some chan =>
    have hweight : weightOf channels ch = chan.weight := by simp [weightOf, hc]
    rw [hweight] at hnonneg hle
    simp only [Option.map_some, Option.getD_some]
    rw [share_eq (le_of_lt hpos) hmax hper0 (by omega) hnonneg hle, intShare, exactShare]
    split
    · exact Int.tdiv_eq_ediv_of_nonneg (Int.mul_nonneg hnonneg (le_of_lt hpos))
    · rfl

/-- With weights that are percentages it takes one share that is not zero. -/
theorem covers_iff (hw : WeightsOk channels rx) (hpos : 0 < descNum) (hmax : descNum < 2 ^ 31) :
    Covers channels rx descNum ↔ (∀ ch, isRxChan ch = rx → channels ch = none) ∨
      ∃ ch, isRxChan ch = rx ∧ 0 < dueTo channels rx descNum ch := by
  obtain ⟨hper0, hper1, htotal⟩ := perChDesc_spec hw (le_of_lt hpos)
  have hdue : ∀ ch, isRxChan ch = rx → dueTo channels rx descNum ch = _ :=
    fun ch hrx => dueTo_eq_share hw hpos hmax hrx
  have hnonneg : ∀ ch, isRxChan ch = rx → 0 ≤ dueTo channels rx descNum ch := by
    intro ch hrx
    rw [hdue ch hrx]
    exact granted_nonneg _ ch
  have hsum : ((chanSlots rx).map (dueTo channels rx descNum)).sum ≤ descNum := by
    have hshares := shares_le (le_of_lt hpos) hmax hper0 (by omega) (chanSlots rx) fun ch hmem =>
      ⟨hw.nonneg ch, le_trans (weightOf_le_sum hw.nonneg hmem) hw.sum_le⟩
    rw [quotaSum_eq_granted] at hshares
    rw [List.map_congr_left fun ch hmem => hdue ch (mem_chanSlots.mp hmem)]
    exact le_trans hshares htotal
  unfold Covers
  apply or_congr Iff.rfl
  constructor
  · rintro ⟨taker, hrx, hne, -, -⟩
    have := hnonneg taker hrx
    exact ⟨taker, hrx, by omega⟩
  · rintro ⟨taker, hrx, hlt⟩
    have hadd := add_others (dueTo channels rx descNum) (mem_chanSlots.mpr hrx)
    exact ⟨taker, hrx, by omega, fun ch hrx _ => hnonneg ch hrx, by omega⟩

theorem QuotaOnly.dueTo {f g : ChanId → Option CpdmaChan} (h : QuotaOnly f g) (ch : ChanId) :
    dueTo g rx descNum ch = dueTo f rx descNum ch := by
  unfold CpswDriver.Cpdma.dueTo
  rw [h.perChDesc]
  obtain ⟨n, hn⟩ := h ch
  rw [hn]
  cases f ch <;> rfl

theorem QuotaOnly.weightSum {f g : ChanId → Option CpdmaChan} (h : QuotaOnly f g) :
    weightSum g rx = weightSum f rx :=
  congrArg List.sum (List.map_congr_left fun ch _ => h.weightOf ch)

theorem QuotaOnly.fits {f g : ChanId → Option CpdmaChan} (h : QuotaOnly f g)
    (hf : Fits f rx descNum) : Fits g rx descNum where
  weight ch := by
    rw [h.weightOf]
    exact hf.weight ch
  sum := by
    rw [h.weightSum]
    exact hf.sum

theorem QuotaOnly.isSome {f g : ChanId → Option CpdmaChan} (h : QuotaOnly f g) (ch : ChanId) :
    (g ch).isSome = (f ch).isSome := by
  obtain ⟨n, hn⟩ := h ch
  rw [hn, Option.isSome_map]

theorem QuotaOnly.eq_none_iff {f g : ChanId → Option CpdmaChan} (h : QuotaOnly f g) (ch : ChanId) :
    g ch = none ↔ f ch = none := by
  rw [← Option.isNone_iff_eq_none, ← Option.isNone_iff_eq_none, ← Option.not_isSome,
    ← Option.not_isSome, h.isSome]

theorem QuotaOnly.splitExactly {f g k : ChanId → Option CpdmaChan} (h : QuotaOnly f g) :
    SplitExactly g k rx descNum ↔ SplitExactly f k rx descNum := by
  constructor
  · rintro ⟨hnonneg, htotal, taker, hshares⟩
    refine ⟨hnonneg, fun ⟨ch, hrx, hsome⟩ => htotal ⟨ch, hrx, by rwa [h.isSome]⟩, taker, ?_⟩
    intro ch chan hrx hne hch
    rw [hshares ch chan hrx hne hch, h.dueTo]
  · rintro ⟨hnonneg, htotal, taker, hshares⟩
    refine ⟨hnonneg, fun ⟨ch, hrx, hsome⟩ => htotal ⟨ch, hrx, by rwa [← h.isSome]⟩, taker, ?_⟩
    intro ch chan hrx hne hch
    rw [hshares ch chan hrx hne hch, h.dueTo]

theorem QuotaOnly.covers {f g : ChanId → Option CpdmaChan} (h : QuotaOnly f g) :
    Covers g rx descNum ↔ Covers f rx descNum := by
  have hdue : CpswDriver.Cpdma.dueTo g rx descNum = CpswDriver.Cpdma.dueTo f rx descNum :=
    funext h.dueTo
  unfold Covers
  rw [hdue]
  simp only [h.eq_none_iff]

/-- Only what a split left on the channels of a direction says whether it was exact. -/
theorem SplitExactly.congr {f k k' : ChanId → Option CpdmaChan}
    (hsame : ∀ ch, isRxChan ch = rx → k' ch = k ch) (h : SplitExactly f k rx descNum) :
    SplitExactly f k' rx descNum := by
  obtain ⟨hnonneg, htotal, taker, hshares⟩ := h
  refine ⟨?_, ?_, taker, ?_⟩
  · intro ch chan hrx hch
    exact hnonneg ch chan hrx (hsame ch hrx ▸ hch)
  · intro hsome
    rw [quotaSum_congr fun ch hmem => hsame ch (mem_chanSlots.mp hmem)]
    exact htotal hsome
  · intro ch chan hrx hne hch
    exact hshares ch chan hrx hne (hsame ch hrx ▸ hch)

/-- The descriptors that a controller has for a direction. -/
def descsOf {τ : Type*} (ctlr : CpdmaCtlr τ) (rx : Bool) : ℤ :=
  if rx then ctlr.numRxDesc else ctlr.numTxDesc

/-- What cpdma_chan_split_pool and its caller promise about both directions. -/
def SplitsPool {τ : Type*} (ctlr ctlr' : CpdmaCtlr τ) : Prop :=
  ∀ rx, SplitExactly ctlr.channels ctlr'.channels rx (descsOf ctlr rx)

def CoversPool {τ : Type*} (ctlr : CpdmaCtlr τ) : Prop :=
  ∀ rx, Covers ctlr.channels rx (descsOf ctlr rx)

/-- The controller with `numRxDesc` of the pool's descriptors for reception. -/
def resized {τ : Type*} (pool : CpdmaDescPool) (ctlr : CpdmaCtlr τ) (numRxDesc : ℤ) : CpdmaCtlr τ :=
  { ctlr with numRxDesc := numRxDesc, numTxDesc := pool.numDesc - numRxDesc }

/-- cpdma_set_num_rx_descs has split the pool in the new sizes, or it has changed nothing. -/
def ResizesOrFails {τ : Type*} (pool : CpdmaDescPool) (ctlr : CpdmaCtlr τ) (numRxDesc : ℤ)
    (r : CpdmaCtlr τ × ℤ) : Prop :=
  (r.2 = 0 ∧ r.1.numRxDesc = numRxDesc ∧ r.1.numTxDesc = pool.numDesc - numRxDesc ∧
    SplitsPool (resized pool ctlr numRxDesc) r.1) ∨ (r.2 < 0 ∧ r.1 = ctlr)

/-- Some direction's weights are more than 100 percent. -/
def OverWeight {τ : Type*} (ctlr : CpdmaCtlr τ) : Prop :=
  weightSum ctlr.channels true > 100 ∨ weightSum ctlr.channels false > 100

section Pool

variable {τ : Type*} {pool : CpdmaDescPool} {ctlr : CpdmaCtlr τ}

theorem Fits.mono {n m : ℤ} (h : Fits channels rx m) (hle : n ≤ m) : Fits channels rx n where
  weight ch := lt_of_le_of_lt (Int.mul_le_mul_of_nonneg_left hle (abs_nonneg _)) (h.weight ch)
  sum := lt_of_le_of_lt (Int.mul_le_mul_of_nonneg_left hle (abs_nonneg _)) h.sum

theorem cpdmaSetNumRxDescs_eq (pool : CpdmaDescPool) (ctlr : CpdmaCtlr τ) (numRxDesc : ℤ) :
    cpdmaSetNumRxDescs pool ctlr numRxDesc =
      if (cpdmaChanSplitPool (resized pool ctlr numRxDesc)).2 ≠ 0 then
        ({ (cpdmaChanSplitPool (resized pool ctlr numRxDesc)).1 with
            numRxDesc := ctlr.numRxDesc, numTxDesc := pool.numDesc - ctlr.numRxDesc },
          (cpdmaChanSplitPool (resized pool ctlr numRxDesc)).2)
      else cpdmaChanSplitPool (resized pool ctlr numRxDesc) := rfl

theorem cpdmaChanSplitPool_ret (hover : ¬OverWeight ctlr) : (cpdmaChanSplitPool ctlr).2 = 0 := by
  unfold OverWeight at hover
  by_cases hz : ctlr.chanNum = 0
  · simp [cpdmaChanSplitPool, hz]
  · simp [cpdmaChanSplitPool, hz, hover]

theorem cpdmaChanSplitPool_over (hnum : ctlr.chanNum ≠ 0) (hover : OverWeight ctlr) :
    cpdmaChanSplitPool ctlr = (ctlr, -einval) := by
  unfold OverWeight at hover
  unfold cpdmaChanSplitPool
  rw [if_neg hnum, if_pos hover]

theorem not_overWeight_of_none (h : ∀ ch, ctlr.channels ch = none) : ¬OverWeight ctlr := by
  have hzero : ∀ rx, weightSum ctlr.channels rx = 0 := by
    intro rx
    apply List.sum_eq_zero
    intro x hx
    obtain ⟨ch, -, rfl⟩ := List.mem_map.mp hx
    rw [h ch]
    rfl
  unfold OverWeight
  rw [hzero, hzero]
  decide

theorem cpdmaChanSplitPool_channels (hover : ¬OverWeight ctlr) (hnum : ctlr.chanNum ≠ 0)
    (hrx : isRxChan ch = rx) : (cpdmaChanSplitPool ctlr).1.channels ch =
      splitOf (if rx then splitOf ctlr.channels false ctlr.numTxDesc else ctlr.channels) rx
        (descsOf ctlr rx) ch := by
  have hfirst : QuotaOnly ctlr.channels (splitOf ctlr.channels false ctlr.numTxDesc) :=
    cpdmaChanSetDescs_quotaOnly _ _ _ _
  have hper : perChDesc (splitOf ctlr.channels false ctlr.numTxDesc) true ctlr.numRxDesc =
      perChDesc ctlr.channels true ctlr.numRxDesc := hfirst.perChDesc ctlr.numRxDesc
  unfold OverWeight at hover
  unfold cpdmaChanSplitPool
  rw [if_neg hnum, if_neg hover]
  cases rx with
  | false =>
    dsimp only
    rw [cpdmaChanSetDescs_outside (by simp [hrx])]
    rfl
  | true =>
    simp only [if_true, descsOf]
    rw [splitOf, hper]
    rfl

theorem QuotaOnly.quotaByWeight {f g : ChanId → Option CpdmaChan} (h : QuotaOnly f g)
    (rx : Bool) (descNum : ℤ) : quotaByWeight g rx descNum = quotaByWeight f rx descNum := by
  have hshare : ∀ perCh, shareOf g descNum perCh = shareOf f descNum perCh := by
    intro perCh
    funext ch
    obtain ⟨n, hn⟩ := h ch
    unfold shareOf
    rw [hn]
    cases f ch <;> rfl
  funext ch
  unfold CpswDriver.Cpdma.quotaByWeight
  rw [h.perChDesc, hshare]

/-- A split that is not refused goes by the weights alone. -/
theorem granted_splitPool (hover : ¬OverWeight ctlr) (hnum : ctlr.chanNum ≠ 0)
    (hdesc : descsOf ctlr rx ≠ 0) (hrx : isRxChan ch = rx) :
    granted (cpdmaChanSplitPool ctlr).1.channels ch =
      quotaByWeight ctlr.channels rx (descsOf ctlr rx) ch := by
  unfold granted
  rw [cpdmaChanSplitPool_channels hover hnum hrx]
  refine (granted_splitOf hdesc hrx).trans ?_
  cases rx with
  | false => rfl
  | true =>
    have hfirst : QuotaOnly ctlr.channels (splitOf ctlr.channels false ctlr.numTxDesc) :=
      cpdmaChanSetDescs_quotaOnly _ _ _ _
    rw [if_pos rfl, hfirst.quotaByWeight]

/-- A split that is not refused is exact in both directions just when the shares allow it. -/
theorem splitsPool_iff (hnum : ctlr.chanNum = 0 → ∀ ch, ctlr.channels ch = none)
    (hpos : ∀ rx, 0 < descsOf ctlr rx) (hmax : ∀ rx, descsOf ctlr rx < 2 ^ 31)
    (hfits : ∀ rx, Fits ctlr.channels rx (descsOf ctlr rx)) (hover : ¬OverWeight ctlr) :
    SplitsPool ctlr (cpdmaChanSplitPool ctlr).1 ↔ CoversPool ctlr := by
  have hweights : ∀ rx, weightSum ctlr.channels rx ≤ 100 := by
    intro rx
    have h := not_or.mp hover
    cases rx
    · exact Int.not_lt.mp h.2
    · exact Int.not_lt.mp h.1
  apply forall_congr'
  intro rx
  by_cases hz : ctlr.chanNum = 0
  · have hnone := hnum hz
    have hsame : (cpdmaChanSplitPool ctlr).1 = ctlr := by simp [cpdmaChanSplitPool, hz]
    have hcovers : Covers ctlr.channels rx (descsOf ctlr rx) := .inl fun ch _ => hnone ch
    rw [hsame]
    refine iff_of_true ⟨?_, ?_, 0, ?_⟩ hcovers
    · intro ch chan _ hch
      rw [hnone ch] at hch
      cases hch
    · rintro ⟨ch, -, hsome⟩
      rw [hnone ch] at hsome
      cases hsome
    · intro ch chan _ _ hch
      rw [hnone ch] at hch
      cases hch
  · have hbefore : QuotaOnly ctlr.channels
        (if rx then splitOf ctlr.channels false ctlr.numTxDesc else ctlr.channels) := by
      split
      · exact cpdmaChanSetDescs_quotaOnly _ _ _ _
      · exact QuotaOnly.refl _
    generalize hB : (if rx then splitOf ctlr.channels false ctlr.numTxDesc else ctlr.channels) =
      before at hbefore
    have hout : ∀ ch, isRxChan ch = rx → (cpdmaChanSplitPool ctlr).1.channels ch =
        splitOf before rx (descsOf ctlr rx) ch := fun ch hrx => by
      rw [cpdmaChanSplitPool_channels hover hz hrx, hB]
    have hexact := splitOf_exact_iff (hpos rx) (hmax rx)
      (by rw [hbefore.weightSum]; exact hweights rx) (hbefore.fits (hfits rx))
    rw [← hbefore.covers, ← hexact, hbefore.splitExactly]
    exact ⟨.congr fun ch hrx => (hout ch hrx).symm, .congr hout⟩

/-- A split gives every descriptor of a direction to one of its channels, and each channel
but one its rounded share, just when one of the shares is not zero and the others are not
too much. Of a change of the sizes the same holds, unless the weights refuse it, and then
nothing changes. -/
theorem cpdmaChanSplitPool_exact_iff (pool : CpdmaDescPool) (hpool : pool.numDesc < 2 ^ 31)
    (hsizes : ctlr.numTxDesc + ctlr.numRxDesc = pool.numDesc)
    (hnum : ctlr.chanNum = 0 → ∀ ch, ctlr.channels ch = none)
    (hfits : ∀ rx, Fits ctlr.channels rx pool.numDesc) :
    ((∀ rx, 0 < descsOf ctlr rx) → (∀ rx, weightSum ctlr.channels rx ≤ 100) →
      (SplitsPool ctlr (cpdmaChanSplitPool ctlr).1 ↔ CoversPool ctlr)) ∧
    ∀ numRxDesc : ℤ, 0 < numRxDesc → numRxDesc < pool.numDesc →
      (ResizesOrFails pool ctlr numRxDesc (cpdmaSetNumRxDescs pool ctlr numRxDesc) ↔
        OverWeight ctlr ∨ CoversPool (resized pool ctlr numRxDesc)) := by
  have hle : ∀ c : CpdmaCtlr τ, c.numTxDesc + c.numRxDesc = pool.numDesc →
      (∀ rx, 0 < descsOf c rx) → ∀ rx, descsOf c rx ≤ pool.numDesc := by
    intro c hc hpos rx
    have htx := hpos false
    have hrx := hpos true
    cases rx <;> simp only [descsOf, Bool.false_eq_true, if_false, if_true] at * <;> omega
  constructor
  · intro hpos hweights
    have hdescs := hle ctlr hsizes hpos
    have hover : ¬OverWeight ctlr := by
      have := hweights true
      have := hweights false
      unfold OverWeight
      omega
    exact splitsPool_iff hnum hpos (fun rx => by have := hdescs rx; omega)
      (fun rx => (hfits rx).mono (hdescs rx)) hover
  · intro numRxDesc h0 h1
    have hset := cpdmaSetNumRxDescs_eq pool ctlr numRxDesc
    by_cases hover : OverWeight ctlr
    · have hz : ctlr.chanNum ≠ 0 := fun hz => not_overWeight_of_none (hnum hz) hover
      have hsplit : cpdmaChanSplitPool (resized pool ctlr numRxDesc) =
          (resized pool ctlr numRxDesc, -einval) := cpdmaChanSplitPool_over hz hover
      have hback : pool.numDesc - ctlr.numRxDesc = ctlr.numTxDesc := by omega
      rw [hset, hsplit, if_pos (by decide : -einval ≠ 0), hback]
      exact iff_of_true (.inr ⟨(by decide : -einval < 0), rfl⟩) (.inl hover)
    · have hret : (cpdmaChanSplitPool (resized pool ctlr numRxDesc)).2 = 0 :=
        cpdmaChanSplitPool_ret hover
      have hpos : ∀ rx, 0 < descsOf (resized pool ctlr numRxDesc) rx := by
        intro rx
        cases rx <;> simp only [descsOf, resized, Bool.false_eq_true, if_false, if_true] <;> omega
      have hdescs := hle (resized pool ctlr numRxDesc) (by simp [resized]) hpos
      have hiff : SplitsPool (resized pool ctlr numRxDesc)
          (cpdmaChanSplitPool (resized pool ctlr numRxDesc)).1 ↔
            CoversPool (resized pool ctlr numRxDesc) :=
        splitsPool_iff hnum hpos (fun rx => by have := hdescs rx; omega)
          (fun rx => (hfits rx).mono (hdescs rx)) hover
      obtain ⟨channels, -, hframe⟩ := cpdmaChanSplitPool_frame (resized pool ctlr numRxDesc)
      rw [hset, if_neg (not_not.mpr hret)]
      constructor
      · rintro (⟨-, -, -, hsplits⟩ | ⟨hneg, -⟩)
        · exact .inr (hiff.mp hsplits)
        · omega
      · rintro (hover' | hcovers)
        · exact absurd hover' hover
        · refine .inl ⟨hret, ?_, ?_, hiff.mpr hcovers⟩
          · rw [hframe]
            rfl
          · rw [hframe]
            rfl

end Pool

/-- A controller with 64 descriptors for one tx channel and 64 for one rx channel. -/
def weightedCtlr (weight : ℤ) : CpdmaCtlr Unit where
  state := .idle
  avail := ∅
  mem := fun _ => ⟨0, 0, 0, 0, (), 0, 0⟩
  channels := fun ch =>
    if ch = 0 then some { weight := weight } else if ch = 32 then some {} else none
  chanNum := 2
  numRxDesc := 64
  numTxDesc := 64
  regs := fun _ => 0

theorem fits_weightedCtlr (rx : Bool) : Fits (weightedCtlr 30).channels rx 128 := by
  refine ⟨?_, ?_⟩
  · intro ch
    revert ch
    decide +kernel
  · revert rx
    decide +kernel

theorem coversPool_weightedCtlr : CoversPool (weightedCtlr 30) := by
  intro rx
  cases rx
  · exact .inr ⟨0, by decide, by decide +kernel, by decide +kernel, by decide +kernel⟩
  · exact .inr ⟨32, by decide, by decide +kernel, by decide +kernel, by decide +kernel⟩

theorem cpdmaChanSplitPool_exact_thirty :
    SplitsPool (weightedCtlr 30) (cpdmaChanSplitPool (weightedCtlr 30)).1 ∧
      (ResizesOrFails (smallPool 128 (by decide)) (weightedCtlr 30) 64
          (cpdmaSetNumRxDescs (smallPool 128 (by decide)) (weightedCtlr 30) 64) ↔
        OverWeight (weightedCtlr 30) ∨
          CoversPool (resized (smallPool 128 (by decide)) (weightedCtlr 30) 64)) := by
  have h := cpdmaChanSplitPool_exact_iff (smallPool 128 (by decide)) (by decide)
    (by decide : (weightedCtlr 30).numTxDesc + (weightedCtlr 30).numRxDesc = 128)
    (by intro h; cases h) fits_weightedCtlr
  exact ⟨(h.1 (by decide) (by decide +kernel)).mpr coversPool_weightedCtlr,
    h.2 64 (by decide) (by decide)⟩

/-- The share of a single channel of weight 1 is rounded to zero, and it gets nothing. -/
theorem split_loses_descriptors : ∃ ctlr : CpdmaCtlr Unit,
    (∀ rx, 0 < descsOf ctlr rx) ∧ (∀ rx, weightSum ctlr.channels rx ≤ 100) ∧
      (ctlr.channels 0).isSome ∧ (cpdmaChanSplitPool ctlr).2 = 0 ∧
      quotaSum (cpdmaChanSplitPool ctlr).1.channels (chanSlots false) = 0 ∧
      ¬SplitsPool ctlr (cpdmaChanSplitPool ctlr).1 := by
  have hzero : quotaSum (cpdmaChanSplitPool (weightedCtlr 1)).1.channels (chanSlots false) = 0 := by
    decide +kernel
  refine ⟨weightedCtlr 1, by decide, by decide +kernel, rfl, by decide +kernel, hzero, ?_⟩
  intro h
  have htotal := (h false).total ⟨0, rfl, rfl⟩
  rw [hzero] at htotal
  exact absurd htotal (by decide)

end CpswDriver.Cpdma
