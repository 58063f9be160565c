import CpswDriver.Cpdma.Types
import Mathlib.Data.List.FinRange

/-!
How the descriptor pool is shared out: every channel has a quota, desc_num,
that its queue may not exceed. The quotas are recomputed for all channels
whenever a channel is created or its weight changes.
-/

namespace CpswDriver.Cpdma

variable {τ : Type*}

/-- The conversion of an int to a u32 variable. -/
def toU32 (x : ℤ) : ℕ := (x % 2 ^ 32).toNat

/-- The slots of the channel array that a direction owns, in index order. -/
def chanSlots (rx : Bool) : List ChanId := (List.finRange 64).filter fun ch => isRxChan ch == rx

/-- The variables of the loop in cpdma_chan_set_descs. -/
structure SetDescs where
  channels : ChanId → Option CpdmaChan
  descCnt : ℤ
  mostDnum : ℕ
  mostChan : Option ChanId

def share (chan : CpdmaChan) (descNum perChDesc : ℤ) : ℕ :=
  if chan.weight ≠ 0 then toU32 ((chan.weight * descNum).tdiv 100) else toU32 perChDesc

def setDescsStep (descNum perChDesc : ℤ) (v : SetDescs) (ch : ChanId) : SetDescs :=
  match v.channels ch with
  | none => v
  | some chan =>
    let dnum := share chan descNum perChDesc
    let v := { v with
      channels := Function.update v.channels ch (some { chan with descNum := dnum })
      descCnt := v.descCnt - dnum }
    if v.mostDnum < dnum then { v with mostDnum := dnum, mostChan := some ch } else v

/-- The use of the remains, after the loop of cpdma_chan_set_descs. -/
def useRemains (v : SetDescs) : ChanId → Option CpdmaChan :=
  match v.mostChan with
  | none => v.channels
  | some ch =>
    match v.channels ch with
    | none => v.channels
    | some chan =>
      Function.update v.channels ch (some { chan with descNum := toU32 (chan.descNum + v.descCnt) })

def cpdmaChanSetDescs (channels : ChanId → Option CpdmaChan) (rx : Bool)
    (descNum perChDesc : ℤ) : ChanId → Option CpdmaChan :=
  if descNum = 0 then channels
  else useRemains ((chanSlots rx).foldl (setDescsStep descNum perChDesc)
    ⟨channels, descNum, 0, none⟩)

def weightSum (channels : ChanId → Option CpdmaChan) (rx : Bool) : ℤ :=
  ((chanSlots rx).map fun ch => ((channels ch).map CpdmaChan.weight).getD 0).sum

/-- The number of a direction's channels that have no weight. -/
def freeNum (channels : ChanId → Option CpdmaChan) (rx : Bool) : ℕ :=
  (chanSlots rx).countP fun ch => (channels ch).any fun chan => chan.weight == 0

def perChDesc (channels : ChanId → Option CpdmaChan) (rx : Bool) (descNum : ℤ) : ℤ :=
  if freeNum channels rx ≠ 0 then
    (descNum - (weightSum channels rx * descNum).tdiv 100).tdiv (freeNum channels rx)
  else 0

def cpdmaChanSplitPool (ctlr : CpdmaCtlr τ) : CpdmaCtlr τ × ℤ :=
  if ctlr.chanNum = 0 then (ctlr, 0)
  else if weightSum ctlr.channels true > 100 ∨ weightSum ctlr.channels false > 100 then
    (ctlr, -einval)
  else
    let txPerChDesc := perChDesc ctlr.channels false ctlr.numTxDesc
    let rxPerChDesc := perChDesc ctlr.channels true ctlr.numRxDesc
    let channels := cpdmaChanSetDescs ctlr.channels false ctlr.numTxDesc txPerChDesc
    let channels := cpdmaChanSetDescs channels true ctlr.numRxDesc rxPerChDesc
    ({ ctlr with channels := channels }, 0)

/-- The channels of `g` are those of `f` up to their quotas. -/
def QuotaOnly (f g : ChanId → Option CpdmaChan) : Prop :=
  ∀ ch, ∃ n, g ch = (f ch).map fun chan => { chan with descNum := n }

theorem QuotaOnly.refl (f : ChanId → Option CpdmaChan) : QuotaOnly f f := by
  intro ch
  cases h : f ch with
  | none => exact ⟨0, rfl⟩
  | some chan => exact ⟨chan.descNum, rfl⟩

theorem QuotaOnly.trans {f g k : ChanId → Option CpdmaChan} (h : QuotaOnly f g)
    (h' : QuotaOnly g k) : QuotaOnly f k := by
  intro ch
  obtain ⟨n, hn⟩ := h ch
  obtain ⟨m, hm⟩ := h' ch
  refine ⟨m, ?_⟩
  rw [hm, hn]
  cases f ch <;> rfl

theorem QuotaOnly.update {f : ChanId → Option CpdmaChan} {ch : ChanId} {chan : CpdmaChan}
    (h : f ch = some chan) (n : ℕ) :
    QuotaOnly f (Function.update f ch (some { chan with descNum := n })) := by
  intro ch'
  by_cases hch : ch' = ch
  · subst hch
    exact ⟨n, by simp [h]⟩
  · obtain ⟨m, hm⟩ := QuotaOnly.refl f ch'
    exact ⟨m, by simpa [hch] using hm⟩

theorem setDescsStep_quotaOnly (descNum perChDesc : ℤ) (v : SetDescs) (ch : ChanId) :
    QuotaOnly v.channels (setDescsStep descNum perChDesc v ch).channels := by
  unfold setDescsStep
  cases h : v.channels ch with
  | none => exact QuotaOnly.refl _
  | some chan =>
    have hupd := QuotaOnly.update h (share chan descNum perChDesc)
    dsimp only
    split <;> exact hupd

theorem foldl_setDescsStep_quotaOnly (descNum perChDesc : ℤ) (l : List ChanId) (v : SetDescs) :
    QuotaOnly v.channels (l.foldl (setDescsStep descNum perChDesc) v).channels := by
  induction l generalizing v with
  | nil => exact QuotaOnly.refl _
  | cons ch l ih => exact (setDescsStep_quotaOnly descNum perChDesc v ch).trans (ih _)

theorem useRemains_quotaOnly (v : SetDescs) : QuotaOnly v.channels (useRemains v) := by
  unfold useRemains
  cases v.mostChan with
  | none => exact QuotaOnly.refl _
  | some ch =>
    cases h : v.channels ch with
    | none => simpa [h] using QuotaOnly.refl v.channels
    | some chan => simpa [h] using QuotaOnly.update h (toU32 (chan.descNum + v.descCnt))

theorem cpdmaChanSetDescs_quotaOnly (channels : ChanId → Option CpdmaChan) (rx : Bool)
    (descNum perChDesc : ℤ) :
    QuotaOnly channels (cpdmaChanSetDescs channels rx descNum perChDesc) := by
  unfold cpdmaChanSetDescs
  split
  · exact QuotaOnly.refl _
  · exact (foldl_setDescsStep_quotaOnly _ _ _ ⟨channels, descNum, 0, none⟩).trans
      (useRemains_quotaOnly _)

theorem cpdmaChanSplitPool_frame (ctlr : CpdmaCtlr τ) :
    ∃ channels, QuotaOnly ctlr.channels channels ∧
      (cpdmaChanSplitPool ctlr).1 = { ctlr with channels := channels } := by
  unfold cpdmaChanSplitPool
  split
  · exact ⟨_, QuotaOnly.refl _, rfl⟩
  split
  · exact ⟨_, QuotaOnly.refl _, rfl⟩
  · exact ⟨_, (cpdmaChanSetDescs_quotaOnly _ _ _ _).trans
      (cpdmaChanSetDescs_quotaOnly _ _ _ _), rfl⟩

def cpdmaChanSetWeight (ctlr : CpdmaCtlr τ) (ch : ChanId) (chan : CpdmaChan) (weight : ℤ) :
    CpdmaCtlr τ × ℤ :=
  if chan.weight = weight then (ctlr, 0)
  else cpdmaChanSplitPool (ctlr.setChan ch { chan with weight := weight })

def cpdmaSetNumRxDescs (pool : CpdmaDescPool) (ctlr : CpdmaCtlr τ) (numRxDesc : ℤ) :
    CpdmaCtlr τ × ℤ :=
  let temp := ctlr.numRxDesc
  let (ctlr, ret) := cpdmaChanSplitPool
    { ctlr with numRxDesc := numRxDesc, numTxDesc := pool.numDesc - numRxDesc }
  if ret ≠ 0 then ({ ctlr with numRxDesc := temp, numTxDesc := pool.numDesc - temp }, ret)
  else (ctlr, ret)

/-- cpdma_chan_create for the array slot `ch`; `zalloc` tells whether the
allocation of the channel structure succeeds. -/
def cpdmaChanCreate (params : CpdmaParams) (ctlr : CpdmaCtlr τ) (ch : ChanId) (zalloc : Bool) :
    CpdmaCtlr τ × ℤ :=
  if params.numChan ≤ chanLinear ch then (ctlr, -einval)
  else if !zalloc then (ctlr, -enomem)
  else if (ctlr.channels ch).isSome then (ctlr, -ebusy)
  else
    let ctlr := { ctlr.setChan ch {} with chanNum := ctlr.chanNum + 1 }
    ((cpdmaChanSplitPool ctlr).1, 0)

end CpswDriver.Cpdma
