import CpswDriver.Cpdma.Resplit

/-!
Resizing the receive part of the pool. The quotas of the rx channels are those
of a split by weights that nobody changes, so the weights of the tx channels
come and go without an rx channel noticing, and the rx channels together may
queue as many packets as the receive part has descriptors.
-/

namespace CpswDriver.Cpdma

open CallTable Runs

variable {τ : Type*} {params : CpdmaParams} {f g : ChanId → Option CpdmaChan} {rx : Bool}
  {descNum perCh weight : ℤ} {ch : ChanId} {chan : CpdmaChan} {c c' : CpdmaCtlr τ}
  {s s' : State τ} {i : ℕ}

/-- The channels of a direction have the same weights. -/
def SameWeights (rx : Bool) (f g : ChanId → Option CpdmaChan) : Prop :=
  ∀ ch, isRxChan ch = rx → (g ch).map CpdmaChan.weight = (f ch).map CpdmaChan.weight

theorem SameWeights.trans {k : ChanId → Option CpdmaChan} (h : SameWeights rx f g)
    (h' : SameWeights rx g k) : SameWeights rx f k :=
  fun ch hrx => (h' ch hrx).trans (h ch hrx)

theorem QuotaOnly.sameWeights (h : QuotaOnly f g) : SameWeights rx f g := by
  intro ch _
  obtain ⟨n, hn⟩ := h ch
  rw [hn, Option.map_map]
  rfl

theorem sameWeights_of_outside (h : ∀ ch, isRxChan ch = rx → g ch = f ch) : SameWeights rx f g :=
  fun ch hrx => by rw [h ch hrx]

theorem share_of_weight {chan' : CpdmaChan} (h : chan'.weight = chan.weight) :
    share chan' descNum perCh = share chan descNum perCh := by
  unfold share
  rw [h]

structure SameLoop (rx : Bool) (v v' : SetDescs) : Prop where
  weights : SameWeights rx v.channels v'.channels
  descCnt : v'.descCnt = v.descCnt
  mostDnum : v'.mostDnum = v.mostDnum
  mostChan : v'.mostChan = v.mostChan

theorem SameWeights.set (h : SameWeights rx f g) (ch : ChanId) {chan chan' : CpdmaChan}
    (hweight : chan'.weight = chan.weight) :
    SameWeights rx (Function.update f ch (some chan)) (Function.update g ch (some chan')) := by
  intro ch' hrx
  by_cases heq : ch' = ch
  · rw [heq, Function.update_self, Function.update_self, Option.map_some, Option.map_some, hweight]
  · rw [Function.update_of_ne heq, Function.update_of_ne heq]
    exact h ch' hrx

theorem SameLoop.step {v v' : SetDescs} (h : SameLoop rx v v') (hrx : isRxChan ch = rx) :
    SameLoop rx (setDescsStep descNum perCh v ch) (setDescsStep descNum perCh v' ch) := by
  have hch := h.weights ch hrx
  unfold setDescsStep
  cases hv : v.channels ch with
  | none =>
    rw [hv, Option.map_none, Option.map_eq_none_iff] at hch
    rw [hch]
    exact h
  | some chan =>
    rw [hv, Option.map_some] at hch
    obtain ⟨chan', hv', hweight⟩ := Option.map_eq_some_iff.mp hch
    rw [hv']
    dsimp only
    rw [share_of_weight hweight, h.mostDnum]
    split
    · exact ⟨h.weights.set ch hweight, by dsimp only; rw [h.descCnt], rfl, rfl⟩
    · exact ⟨h.weights.set ch hweight, by dsimp only; rw [h.descCnt], rfl, h.mostChan⟩

theorem SameLoop.foldl : ∀ (l : List ChanId) {v v' : SetDescs}, (∀ ch ∈ l, isRxChan ch = rx) →
    SameLoop rx v v' → SameLoop rx (l.foldl (setDescsStep descNum perCh) v)
      (l.foldl (setDescsStep descNum perCh) v')
  | [], _, _, _, h => h
  | ch :: l, _, _, hl, h =>
    SameLoop.foldl l (fun ch' hmem => hl ch' (List.mem_cons_of_mem ch hmem))
      (h.step (hl ch List.mem_cons_self))

theorem SameWeights.perChDesc (h : SameWeights rx f g) (descNum : ℤ) :
    perChDesc g rx descNum = perChDesc f rx descNum := by
  have hsum : weightSum g rx = weightSum f rx := by
    unfold weightSum
    rw [List.map_congr_left fun ch hmem => by rw [h ch (mem_chanSlots.mp hmem)]]
  have hfree : freeNum g rx = freeNum f rx := by
    refine List.countP_congr fun ch hmem => ?_
    have hch := h ch (mem_chanSlots.mp hmem)
    cases hf : f ch <;> cases hg : g ch <;> simp_all
  unfold CpswDriver.Cpdma.perChDesc
  rw [hsum, hfree]

theorem SameWeights.sharedOut (h : SameWeights rx f g) (hrx : isRxChan ch = rx) :
    quotaOf (sharedOut g rx descNum perCh) ch = quotaOf (sharedOut f rx descNum perCh) ch := by
  have hch := h ch hrx
  unfold quotaOf CpswDriver.Cpdma.sharedOut
  rw [if_pos hrx, if_pos hrx]
  cases hf : f ch with
  | none =>
    rw [hf, Option.map_none, Option.map_eq_none_iff] at hch
    rw [hch]
  | some chan =>
    rw [hf, Option.map_some] at hch
    obtain ⟨chan', hg, hweight⟩ := Option.map_eq_some_iff.mp hch
    simp only [hg, Option.map_some, Option.getD_some, share_of_weight hweight]

/-- The quotas that a split gives to one direction come from its weights alone. -/
theorem SameWeights.splitOf (h : SameWeights rx f g) (hdesc : descNum ≠ 0)
    (hrx : isRxChan ch = rx) :
    quotaOf (splitOf g rx descNum) ch = quotaOf (splitOf f rx descNum) ch := by
  unfold CpswDriver.Cpdma.splitOf
  rw [h.perChDesc]
  generalize CpswDriver.Cpdma.perChDesc f rx descNum = perCh
  unfold cpdmaChanSetDescs
  rw [if_neg hdesc, if_neg hdesc]
  have hstart : SameLoop rx ⟨f, descNum, 0, none⟩ ⟨g, descNum, 0, none⟩ := ⟨h, rfl, rfl, rfl⟩
  have hloop : SameLoop rx
      ((chanSlots rx).foldl (setDescsStep descNum perCh) ⟨f, descNum, 0, none⟩)
      ((chanSlots rx).foldl (setDescsStep descNum perCh) ⟨g, descNum, 0, none⟩) :=
    hstart.foldl (chanSlots rx) fun ch hmem => mem_chanSlots.mp hmem
  have hmost := (Shared.slots f rx descNum perCh).most
  have hf := foldl_sharedOut f rx descNum perCh
  have hg := foldl_sharedOut g rx descNum perCh
  generalize (chanSlots rx).foldl (setDescsStep descNum perCh) ⟨f, descNum, 0, none⟩ = v
    at hloop hmost hf ⊢
  generalize (chanSlots rx).foldl (setDescsStep descNum perCh) ⟨g, descNum, 0, none⟩ = v'
    at hloop hg ⊢
  have hquota : ∀ ch, isRxChan ch = rx → quotaOf v'.channels ch = quotaOf v.channels ch := by
    intro ch hrx
    rw [hf, hg]
    exact h.sharedOut hrx
  unfold useRemains
  rw [hloop.mostChan]
  cases htaker : v.mostChan with
  | none => exact hquota ch hrx
  | some taker =>
    obtain ⟨hmem, chan, hchan⟩ := hmost taker htaker
    have htakerrx := mem_chanSlots.mp hmem
    have hweight := hloop.weights taker htakerrx
    rw [hchan, Option.map_some] at hweight
    obtain ⟨chan', hchan', -⟩ := Option.map_eq_some_iff.mp hweight
    have hown := hquota taker htakerrx
    rw [quotaOf_some hchan', quotaOf_some hchan] at hown
    simp only [hchan, hchan', hloop.descCnt, hown]
    by_cases heq : ch = taker
    · simp [quotaOf, heq]
    · have hsame := hquota ch hrx
      unfold quotaOf at hsame ⊢
      rw [Function.update_of_ne heq, Function.update_of_ne heq]
      exact hsame

/-- The rx channels have the quotas that a split by the weights gives them. -/
structure RxSettled (c : CpdmaCtlr τ) : Prop where
  pos : 0 < c.numRxDesc
  quota : ∀ ch, isRxChan ch = true →
    quotaOf c.channels ch = quotaOf (splitOf c.channels true c.numRxDesc) ch

/-- Nothing has changed for the rx channels. -/
structure RxSame (c c' : CpdmaCtlr τ) : Prop where
  numRx : c'.numRxDesc = c.numRxDesc
  weights : SameWeights true c.channels c'.channels
  quota : ∀ ch, isRxChan ch = true → quotaOf c'.channels ch = quotaOf c.channels ch

theorem RxSettled.same (h : RxSettled c) (hs : RxSame c c') : RxSettled c' where
  pos := by
    rw [hs.numRx]
    exact h.pos
  quota ch hrx := by
    rw [hs.quota ch hrx, h.quota ch hrx, hs.numRx, hs.weights.splitOf h.pos.ne' hrx]

/-- What a split that is not refused gives to the rx channels. -/
theorem cpdmaChanSplitPool_rx (hover : ¬OverWeight c) (hnum : c.chanNum ≠ 0)
    (hdesc : c.numRxDesc ≠ 0) (hrx : isRxChan ch = true) :
    quotaOf (cpdmaChanSplitPool c).1.channels ch =
      quotaOf (splitOf c.channels true c.numRxDesc) ch := by
  have hinner : SameWeights true c.channels (splitOf c.channels false c.numTxDesc) :=
    QuotaOnly.sameWeights (cpdmaChanSetDescs_quotaOnly _ _ _ _)
  rw [← hinner.splitOf hdesc hrx]
  unfold quotaOf
  rw [cpdmaChanSplitPool_channels hover hnum hrx]
  rfl

/-- A weight that is given to a tx channel, or refused for it, is none of an rx channel's concern. -/
theorem cpdmaChanSetWeight_rx (h : RxSettled c) (hnum : c.chanNum ≠ 0) (htx : isRxChan ch = false)
    (chan : CpdmaChan) (weight : ℤ) : RxSame c (cpdmaChanSetWeight c ch chan weight).1 := by
  unfold cpdmaChanSetWeight
  split
  · exact ⟨rfl, fun _ _ => rfl, fun _ _ => rfl⟩
  have hset : ∀ ch', isRxChan ch' = true →
      (c.setChan ch { chan with weight := weight }).channels ch' = c.channels ch' := by
    intro ch' hrx
    apply Function.update_of_ne
    rintro rfl
    rw [hrx] at htx
    cases htx
  generalize hc' : c.setChan ch { chan with weight := weight } = c' at hset ⊢
  have hnum' : c'.chanNum ≠ 0 := by
    rw [← hc']
    exact hnum
  have hdesc : c'.numRxDesc = c.numRxDesc := by
    rw [← hc']
    rfl
  have hweights := sameWeights_of_outside hset
  by_cases hover : OverWeight c'
  · rw [cpdmaChanSplitPool_over hnum' hover]
    refine ⟨hdesc, hweights, fun ch' hrx => ?_⟩
    unfold quotaOf
    rw [hset ch' hrx]
  · obtain ⟨channels, hquota, hframe⟩ := cpdmaChanSplitPool_frame c'
    refine ⟨?_, ?_, fun ch' hrx => ?_⟩
    · rw [hframe]
      exact hdesc
    · rw [hframe]
      exact hweights.trans hquota.sameWeights
    · rw [cpdmaChanSplitPool_rx hover hnum' (by rw [hdesc]; exact h.pos.ne') hrx, hdesc,
        hweights.splitOf h.pos.ne' hrx, h.quota ch' hrx]

/-- A resizing settles the rx channels anew, or is refused and changes nothing. -/
theorem cpdmaSetNumRxDescs_cases (hnum : c.chanNum ≠ 0)
    (hsum : c.numTxDesc + c.numRxDesc = params.pool.numDesc) {numRxDesc : ℤ}
    (hpos : 0 < numRxDesc) :
    (cpdmaSetNumRxDescs params.pool c numRxDesc = (c, -einval) ∧ OverWeight c) ∨
      ¬OverWeight c ∧ (cpdmaSetNumRxDescs params.pool c numRxDesc).2 = 0 ∧
        (cpdmaSetNumRxDescs params.pool c numRxDesc).1 =
          (cpdmaChanSplitPool (resized params.pool c numRxDesc)).1 ∧
        RxSettled (cpdmaSetNumRxDescs params.pool c numRxDesc).1 := by
  by_cases hover : OverWeight c
  · refine .inl ⟨?_, hover⟩
    have hsplit : cpdmaChanSplitPool (resized params.pool c numRxDesc) =
        (resized params.pool c numRxDesc, -einval) := cpdmaChanSplitPool_over hnum hover
    have hback : params.pool.numDesc - c.numRxDesc = c.numTxDesc := by omega
    rw [cpdmaSetNumRxDescs_eq, hsplit, if_pos (show -einval ≠ 0 by decide), hback]
    rfl
  · have hover' : ¬OverWeight (resized params.pool c numRxDesc) := hover
    have hret := cpdmaChanSplitPool_ret hover'
    rw [cpdmaSetNumRxDescs_eq, if_neg (not_not.mpr hret)]
    refine .inr ⟨hover, hret, rfl, ?_⟩
    obtain ⟨channels, hquota, hframe⟩ := cpdmaChanSplitPool_frame (resized params.pool c numRxDesc)
    have hdesc : (cpdmaChanSplitPool (resized params.pool c numRxDesc)).1.numRxDesc = numRxDesc := by
      rw [hframe]
      rfl
    have hweights : SameWeights true (resized params.pool c numRxDesc).channels
        (cpdmaChanSplitPool (resized params.pool c numRxDesc)).1.channels := by
      rw [hframe]
      exact hquota.sameWeights
    refine ⟨by rwa [hdesc], fun ch hrx => ?_⟩
    rw [hdesc, hweights.splitOf hpos.ne' hrx]
    exact cpdmaChanSplitPool_rx hover' hnum hpos.ne' hrx

def onlyDir (rx : Bool) (f : ChanId → Option CpdmaChan) (ch : ChanId) : Option CpdmaChan :=
  if isRxChan ch = rx then f ch else none

theorem onlyDir_sameWeights (rx : Bool) (f : ChanId → Option CpdmaChan) :
    SameWeights rx f (onlyDir rx f) :=
  sameWeights_of_outside fun _ hrx => if_pos hrx

/-- A split among channels without weights is exact when there is a descriptor for each. -/
theorem quotaSum_splitOf (hpos : 0 < descNum) (hmax : descNum < 2 ^ 31)
    (hweight : ∀ ch, weightOf f ch = 0) (hsome : ∃ ch, isRxChan ch = rx ∧ (f ch).isSome)
    (hfew : (freeNum f rx : ℤ) ≤ descNum) :
    (quotaSum (splitOf f rx descNum) (chanSlots rx) : ℤ) = descNum := by
  have hsum : weightSum f rx = 0 := by
    apply List.sum_eq_zero
    intro x hx
    obtain ⟨ch, -, rfl⟩ := List.mem_map.mp hx
    exact hweight ch
  have hw : WeightsOk f rx := ⟨fun ch => (hweight ch).ge, by rw [hsum]; decide⟩
  have hfits : Fits f rx descNum := by
    refine ⟨fun ch => ?_, ?_⟩
    · rw [hweight, abs_zero, zero_mul]
      decide
    · rw [hsum, abs_zero, zero_mul]
      decide
  obtain ⟨ch, hrx, hch⟩ := hsome
  obtain ⟨chan, hch⟩ := Option.isSome_iff_exists.mp hch
  have hzero : chan.weight = 0 := by
    have hown := hweight ch
    unfold weightOf at hown
    rwa [hch] at hown
  have hfree : 0 < freeNum f rx := by
    refine List.countP_pos_iff.mpr ⟨ch, mem_chanSlots.mpr hrx, ?_⟩
    simp [hch, hzero]
  have hper : 0 < perChDesc f rx descNum := by
    unfold CpswDriver.Cpdma.perChDesc
    rw [if_pos hfree.ne', hsum, zero_mul, Int.zero_tdiv, sub_zero,
      Int.tdiv_eq_ediv_of_nonneg hpos.le]
    have hone : (1 : ℤ) * freeNum f rx ≤ descNum := by rwa [one_mul]
    exact Int.le_ediv_of_mul_le (by exact_mod_cast hfree) hone
  have hcovers : Covers f rx descNum := by
    refine (covers_iff hw hpos hmax).mpr (.inr ⟨ch, hrx, ?_⟩)
    simpa [dueTo, intShare, hch, hzero] using hper
  exact ((splitOf_exact_iff hpos hmax hw.sum_le hfits).mpr hcovers).total
    ⟨ch, hrx, by rw [hch]; rfl⟩

/-- The rx channels can queue as many packets as the receive part has descriptors. -/
theorem RxSettled.quotaSum (h : RxSettled c) (hmax : c.numRxDesc < 2 ^ 31)
    (hweight : ∀ ch, isRxChan ch = true → weightOf c.channels ch = 0)
    (hsome : ∃ ch, isRxChan ch = true ∧ (c.channels ch).isSome)
    (hfew : (freeNum c.channels true : ℤ) ≤ c.numRxDesc) :
    (quotaSum c.channels (chanSlots true) : ℤ) = c.numRxDesc := by
  have honly := onlyDir_sameWeights true c.channels
  have hquota : ∀ ch ∈ chanSlots true, quotaOf c.channels ch =
      quotaOf (splitOf (onlyDir true c.channels) true c.numRxDesc) ch := by
    intro ch hmem
    have hrx := mem_chanSlots.mp hmem
    rw [h.quota ch hrx, honly.splitOf h.pos.ne' hrx]
  have hfree : freeNum (onlyDir true c.channels) true = freeNum c.channels true :=
    List.countP_congr fun ch hmem => by rw [onlyDir, if_pos (mem_chanSlots.mp hmem)]
  have hexact : (CpswDriver.Cpdma.quotaSum (splitOf (onlyDir true c.channels) true c.numRxDesc)
      (chanSlots true) : ℤ) = c.numRxDesc := by
    refine quotaSum_splitOf h.pos hmax (fun ch => ?_) ?_ (by rwa [hfree])
    · unfold weightOf onlyDir
      split
      · exact hweight ch ‹_›
      · rfl
    · obtain ⟨ch, hrx, hch⟩ := hsome
      exact ⟨ch, hrx, by rwa [onlyDir, if_pos hrx]⟩
  rw [← hexact]
  exact congrArg (fun l : List ℕ => (l.sum : ℤ)) (List.map_congr_left hquota)

def AllEmpty (s : State τ) : Prop := ∀ ch, countOf s.ctlr.channels ch = 0

/-- A new division of the pool that covers what the channels hold. -/
theorem AtRest.resplit (h : AtRest params s) (hre : Resplit s.ctlr c)
    (hstates : chanStates c.channels = chanStates s.ctlr.channels) (hdivided : Divided params c)
    (hfits : ∀ ch, countOf s.ctlr.channels ch ≤ quotaOf c.channels ch) :
    AtRest params { s with ctlr := c } := by
  obtain ⟨q, own, hw⟩ := h.sound.wf
  have hheld : ∀ ch, CpswDriver.Cpdma.heldCount ({ s with ctlr := c } : State τ) ch =
      CpswDriver.Cpdma.heldCount s ch := by
    intro ch
    unfold CpswDriver.Cpdma.heldCount
    rw [(hre.chans ch).countOf]
  refine ⟨⟨⟨q, own, hw.resplit hre⟩, hdivided, fun ch => ?_, ?_⟩, h.calls, h.lock, ?_⟩
  · rw [hheld, h.heldCount]
    exact hfits ch
  · rw [heldAll_congr hheld, show ({ s with ctlr := c } : State τ).ctlr.avail = s.ctlr.avail from
      hre.avail]
    exact h.sound.fair.ledger
  · intro ch chan' hch hteardown
    have hold := congrFun hstates ch
    unfold chanStates at hold
    rw [show c.channels ch = some chan' from hch, Option.map_some] at hold
    obtain ⟨chan, hch', hsame⟩ := Option.map_eq_some_iff.mp hold.symm
    exact h.state ch chan hch' (hsame.trans hteardown)

/-- A division for `numRxDesc` packets to receive is one of the pool. -/
theorem Divided.setNumRxDescs (h : Divided params c) (hnum : c.chanNum ≠ 0)
    (hsum : c.numTxDesc + c.numRxDesc = params.pool.numDesc) (hpool : params.pool.numDesc < 2 ^ 31)
    {numRxDesc : ℤ} (hpos : 0 < numRxDesc) (hlt : numRxDesc < params.pool.numDesc) :
    Divided params (cpdmaSetNumRxDescs params.pool c numRxDesc).1 := by
  rcases cpdmaSetNumRxDescs_cases hnum hsum hpos with ⟨hrefused, -⟩ | ⟨hover, -, heq, -⟩
  · rwa [hrefused]
  obtain ⟨channels, hquota, hframe⟩ := cpdmaChanSplitPool_frame (resized params.pool c numRxDesc)
  have hle := not_or.mp hover
  have hsplit : cpdmaChanSplitPool (resized params.pool c numRxDesc) =
      ((cpdmaChanSplitPool (resized params.pool c numRxDesc)).1, 0) :=
    Prod.ext rfl (cpdmaChanSplitPool_ret hover)
  have hnum' : (resized params.pool c numRxDesc).chanNum ≠ 0 := hnum
  have htx : 0 < (resized params.pool c numRxDesc).numTxDesc ∧
      (resized params.pool c numRxDesc).numTxDesc < 2 ^ 31 := by
    simp only [resized]
    omega
  have hrx : 0 < (resized params.pool c numRxDesc).numRxDesc ∧
      (resized params.pool c numRxDesc).numRxDesc < 2 ^ 31 := by
    simp only [resized]
    omega
  have hparts : (resized params.pool c numRxDesc).numTxDesc +
      (resized params.pool c numRxDesc).numRxDesc ≤ params.pool.numDesc := by
    simp [resized]
  obtain ⟨hsumtx, hsumrx⟩ := cpdmaChanSplitPool_sum_le hnum' ⟨h.weights, Int.not_lt.mp hle.2⟩
    ⟨h.weights, Int.not_lt.mp hle.1⟩ htx.1 hrx.1 htx.2 hrx.2 hsplit
  rw [heq]
  rw [hframe] at hsumtx hsumrx ⊢
  exact ⟨hsumtx, hsumrx, hparts, htx, hrx, fun ch => (hquota.weightOf ch).symm ▸ h.weights ch⟩

theorem AtRest.setNumRxDescs (h : AtRest params s) (hempty : AllEmpty s)
    (hnum : s.ctlr.chanNum ≠ 0) (hsum : s.ctlr.numTxDesc + s.ctlr.numRxDesc = params.pool.numDesc)
    (hpool : params.pool.numDesc < 2 ^ 31) {numRxDesc : ℤ} (hpos : 0 < numRxDesc)
    (hlt : numRxDesc < params.pool.numDesc) :
    AtRest params { s with ctlr := (cpdmaSetNumRxDescs params.pool s.ctlr numRxDesc).1 } := by
  refine h.resplit (cpdmaSetNumRxDescs_resplit numRxDesc)
    (cpdmaSetNumRxDescs_states params s.ctlr numRxDesc).2
    (h.sound.fair.divided.setNumRxDescs hnum hsum hpool hpos hlt) fun ch => ?_
  rw [hempty ch]
  exact Nat.zero_le _

/-- A weight for a channel whose new quotas cover what the channels hold. -/
theorem AtRest.setWeight (h : AtRest params s) (hch : s.ctlr.channels ch = some chan)
    (hweight : 0 ≤ weight) (hfits : ∀ ch', countOf s.ctlr.channels ch' ≤
      quotaOf (cpdmaChanSetWeight s.ctlr ch chan weight).1.channels ch') :
    AtRest params { s with ctlr := (cpdmaChanSetWeight s.ctlr ch chan weight).1 } :=
  h.resplit (cpdmaChanSetWeight_resplit hch weight) (cpdmaChanSetWeight_states hch weight).2
    (h.sound.fair.divided.setWeight hch hweight) hfits

structure SamePool (c c' : CpdmaCtlr τ) : Prop where
  numTx : c'.numTxDesc = c.numTxDesc
  numRx : c'.numRxDesc = c.numRxDesc
  chanNum : c'.chanNum = c.chanNum
  quota : ∀ ch, (c'.channels ch).map CpdmaChan.descNum = (c.channels ch).map CpdmaChan.descNum
  weight : ∀ ch, (c'.channels ch).map CpdmaChan.weight = (c.channels ch).map CpdmaChan.weight

theorem SamePool.refl (c : CpdmaCtlr τ) : SamePool c c :=
  ⟨rfl, rfl, rfl, fun _ => rfl, fun _ => rfl⟩

theorem SamePool.trans {c'' : CpdmaCtlr τ} (h : SamePool c c') (h' : SamePool c' c'') :
    SamePool c c'' :=
  ⟨h'.numTx.trans h.numTx, h'.numRx.trans h.numRx, h'.chanNum.trans h.chanNum,
    fun ch => (h'.quota ch).trans (h.quota ch), fun ch => (h'.weight ch).trans (h.weight ch)⟩

theorem SamePool.rxSame (h : SamePool c c') : RxSame c c' where
  numRx := h.numRx
  weights ch _ := h.weight ch
  quota ch _ := by
    unfold quotaOf
    rw [h.quota ch]

theorem ChanSteady.weights {o o' : Option CpdmaChan} (h : ChanSteady o o') :
    o'.map CpdmaChan.weight = o.map CpdmaChan.weight := by
  cases h with
  | none => rfl
  | some hs => rw [Option.map_some, Option.map_some, hs.weight]

theorem weight_update {channels : ChanId → Option CpdmaChan} {chan' : CpdmaChan}
    (hch : channels ch = some chan) (hweight : chan'.weight = chan.weight) (ch' : ChanId) :
    (Function.update channels ch (some chan') ch').map CpdmaChan.weight =
      (channels ch').map CpdmaChan.weight := by
  by_cases h : ch' = ch
  · rw [h, Function.update_self, hch, Option.map_some, Option.map_some, hweight]
  · rw [Function.update_of_ne h]

theorem Move.samePool {o : Option ChanId} (h : Move params o s s')
    (hnum : s'.ctlr.chanNum = s.ctlr.chanNum) : SamePool s.ctlr s'.ctlr := by
  cases h with
  | same hs => exact ⟨hs.numTx, hs.numRx, hnum, fun ch => (hs.chans ch).descNum,
      fun ch => (hs.chans ch).weights⟩
  | enqueue hch _ _ _ _ hl =>
    exact ⟨rfl, rfl, hnum, descNum_update hch hl.descNum, weight_update hch hl.weight⟩
  | dequeue hch hu =>
    exact ⟨rfl, rfl, hnum, descNum_update hch hu.descNum, weight_update hch hu.weight⟩
  | free => exact ⟨rfl, rfl, hnum, fun _ => rfl, fun _ => rfl⟩
  | handBack => exact ⟨rfl, rfl, hnum, fun _ => rfl, fun _ => rfl⟩

theorem cpdmaControlSetLocked_chanNum (c : CpdmaCtlr τ) (control : ℤ) (value : U32) :
    (cpdmaControlSetLocked params c control value).1.chanNum = c.chanNum := by
  unfold cpdmaControlSetLocked
  split
  · rfl
  split
  · rfl
  split
  · rfl
  split <;> rfl

theorem cpdmaChanSetChanShaper_chanNum (c : CpdmaCtlr τ) (ch : ChanId) (chan : CpdmaChan) :
    (cpdmaChanSetChanShaper params c ch chan).1.chanNum = c.chanNum := by
  unfold cpdmaChanSetChanShaper
  split
  · rfl
  · exact cpdmaControlSetLocked_chanNum _ _ _

theorem cpdmaChanOn_chanNum (c : CpdmaCtlr τ) (ch : ChanId) (chan : CpdmaChan) :
    (cpdmaChanOn params c ch chan).1.chanNum = c.chanNum := by
  unfold cpdmaChanOn
  split
  · rfl
  split <;> rfl

theorem processStep_chanNum (ch : ChanId) (chan : CpdmaChan) (onFail : Pc τ) (k : U32 → Cont) :
    (processStep params s i ch chan onFail k).ctlr.chanNum = s.ctlr.chanNum := by
  unfold processStep
  split <;> rfl

theorem stopBeginStep_chanNum (ch : ChanId) (chan : CpdmaChan) (ret : StopRet) :
    (stopBeginStep s i ch chan ret).ctlr.chanNum = s.ctlr.chanNum := by
  unfold stopBeginStep
  split <;> rfl

theorem submitStep_chanNum (kind : SubmitKind) (ch : ChanId) (chan : CpdmaChan)
    (args : SubmitArgs τ) (mapped : Option U32) :
    (submitStep params s kind ch chan args mapped).1.ctlr.chanNum = s.ctlr.chanNum := by
  have hentry : (submitEntry kind params s.ctlr ch chan args mapped).1.chanNum =
      s.ctlr.chanNum := by
    unfold submitEntry
    split
    · rfl
    cases hr : cpdmaChanSubmitSi params s.ctlr ch chan (submitInfo kind args) mapped with
    | mk c ret =>
      rcases cpdmaChanSubmitSi_cases hr with ⟨-, stats, rfl⟩ | ⟨-, -, d, mem', chan', rxfree, -, -,
        rfl⟩ <;> rfl
  unfold submitStep
  dsimp only
  split <;> exact hentry

theorem advance_chanNum {pc : Pc τ} (hst : advance params s i pc = some s') :
    s'.ctlr.chanNum = s.ctlr.chanNum := by
  cases pc with
  | done ret => cases hst
  | process ch quota used =>
    simp only [advance] at hst
    split at hst
    · obtain ⟨chan, -, rfl⟩ := Option.map_eq_some_iff.mp hst
      exact processStep_chanNum _ _ _ _
    · obtain rfl := Option.some.inj hst
      rfl
  | chanFree ch desc outlen status k | handler ch item outlen status k =>
    obtain rfl := Option.some.inj hst
    rfl
  | stopBegin ch ret =>
    obtain ⟨chan, -, rfl⟩ := Option.map_eq_some_iff.mp hst
    exact stopBeginStep_chanNum _ _ _
  | stopDrain ch ret =>
    obtain ⟨chan, -, rfl⟩ := Option.map_eq_some_iff.mp hst
    exact processStep_chanNum _ _ _ _
  | stopClean ch ret =>
    obtain ⟨chan, -, rfl⟩ := Option.map_eq_some_iff.mp hst
    unfold stopCleanStep
    split <;> rfl
  | chanOn ch =>
    obtain ⟨chan, -, rfl⟩ := Option.map_eq_some_iff.mp hst
    exact cpdmaChanOn_chanNum _ _ _
  | ctlrStart j prioMode =>
    simp only [advance] at hst
    split at hst
    · split at hst
      · obtain rfl := Option.some.inj hst
        rfl
      · obtain rfl := Option.some.inj hst
        exact (cpdmaChanOn_chanNum _ _ _).trans (cpdmaChanSetChanShaper_chanNum _ _ _)
    · obtain rfl := Option.some.inj hst
      exact (cpdmaControlSetLocked_chanNum _ _ _).trans (cpdmaControlSetLocked_chanNum _ _ _)
  | ctlrStop j =>
    simp only [advance] at hst
    split at hst
    · split at hst
      · obtain rfl := Option.some.inj hst
        rfl
      · obtain rfl := Option.some.inj hst
        exact stopBeginStep_chanNum _ _ _
    · split at hst
      · obtain rfl := Option.some.inj hst
        rfl
      · cases hst

theorem step_chanNum {op : Op τ} (hsplit : op.resplits = false)
    (hst : step params s op = some s') : s'.ctlr.chanNum = s.ctlr.chanNum := by
  cases op with
  | submit kind ch args mapped =>
    obtain ⟨chan, -, rfl⟩ := Option.map_eq_some_iff.mp hst
    exact submitStep_chanNum _ _ _ _ _
  | engine d hwMode hwLen =>
    obtain rfl := Option.some.inj hst
    rfl
  | engineHdp ch hdp | chanProcess ch quota | chanStop ch =>
    obtain ⟨chan, -, rfl⟩ := Option.map_eq_some_iff.mp hst
    rfl
  | chanStart ch =>
    obtain ⟨-, chan, -, rfl⟩ := step_chanStart hst
    exact cpdmaChanSetChanShaper_chanNum _ _ _
  | ctlrStart =>
    obtain ⟨-, ⟨-, rfl⟩ | ⟨-, rfl⟩⟩ := step_ctlrStart hst
    · rfl
    · change (ctlrStartBegin params s.ctlr).chanNum = s.ctlr.chanNum
      unfold ctlrStartBegin
      split <;> rfl
  | ctlrStop =>
    obtain ⟨-, ⟨-, rfl⟩ | ⟨-, rfl⟩⟩ := step_ctlrStop hst <;> rfl
  | advance j =>
    obtain ⟨pc, -, hst⟩ := Option.bind_eq_some_iff.mp hst
    exact advance_chanNum hst
  | _ => cases hsplit

theorem step_samePool {op : Op τ} (hlen : LenOk s op) (hsplit : op.resplits = false)
    (hst : step params s op = some s') : SamePool s.ctlr s'.ctlr :=
  (step_move hlen hsplit hst).samePool (step_chanNum hsplit hst)

theorem samePool_of_call {op : Op τ} (hlen : LenOk s op) (hsplit : op.resplits = false)
    {sched : List (Op τ)} {t : State τ} {ret : ℤ}
    (h : (step params s op).bind (runCall params i sched) = some (t, ret)) :
    SamePool s.ctlr t.ctlr := by
  obtain ⟨s₁, hst, hcall⟩ := Option.bind_eq_some_iff.mp h
  obtain ⟨hrun, -⟩ := runCall_eq_some hcall
  refine hrun.invariant (I := fun u => SamePool s.ctlr u.ctlr) (fun u op v hu hok hst => ?_)
    (step_samePool hlen hsplit hst)
  obtain ⟨hlen, -, -, hsplit⟩ := hok.quiet
  exact hu.trans (step_samePool hlen hsplit hst)

theorem cpdmaCtlrStop_samePool {sched : List (Op τ)} {t : State τ} {ret : ℤ}
    (h : cpdmaCtlrStop params sched s = some (t, ret)) : SamePool s.ctlr t.ctlr :=
  samePool_of_call (show LenOk s .ctlrStop from trivial) rfl h

theorem cpdmaCtlrStart_samePool {sched : List (Op τ)} {t : State τ} {ret : ℤ}
    (h : cpdmaCtlrStart params sched s = some (t, ret)) : SamePool s.ctlr t.ctlr :=
  samePool_of_call (show LenOk s .ctlrStart from trivial) rfl h

/-- What goes on while a call that has returned is still there is the engine. -/
theorem runCall_done {sched : List (Op τ)} {t : State τ} {ret ret' : ℤ}
    (hi : s.calls[i]? = some (.done ret')) (h : runCall params i sched s = some (t, ret)) :
    EngineOnly s t := by
  obtain ⟨hrun, -⟩ := runCall_eq_some h
  refine hrun.invariant (I := fun u => EngineOnly s u) (fun u op v hu hok hst => ?_)
    ⟨rfl, rfl, rfl, fun ch chan hch => ⟨chan, hch, SameShape.refl chan, rfl⟩,
      fun _ => ChanSteady.refl _⟩
  rcases alone_cases hok hst with he | ⟨pc, hpc, hadv⟩
  · refine ⟨he.state.trans hu.state, he.lock.trans hu.lock, he.calls.trans hu.calls,
      fun ch chan' hch => ?_, fun ch => (hu.steady ch).trans (he.steady ch)⟩
    obtain ⟨chan₁, hch₁, hs₁, hstate₁⟩ := he.chans ch chan' hch
    obtain ⟨chan, hch, hs, hstate⟩ := hu.chans ch chan₁ hch₁
    exact ⟨chan, hch, hs.trans hs₁, hstate₁.trans hstate⟩
  · rw [hu.calls, hi] at hpc
    obtain rfl := Option.some.inj hpc
    cases hadv

/-- A controller that is not active is not stopped. -/
theorem cpdmaCtlrStop_refused (h : AtRest params s) (hstate : s.ctlr.state ≠ .active)
    {sched : List (Op τ)} {t : State τ} {ret : ℤ}
    (hst : cpdmaCtlrStop params sched s = some (t, ret)) :
    AtRest params t ∧ t.ctlr.state = s.ctlr.state ∧
      ∀ ch, ChanSteady (s.ctlr.channels ch) (t.ctlr.channels ch) := by
  obtain ⟨s₁, hs₁, hcall⟩ := Option.bind_eq_some_iff.mp hst
  obtain ⟨-, ⟨-, rfl⟩ | ⟨hactive, -⟩⟩ := step_ctlrStop hs₁
  swap
  · exact absurd hactive hstate
  have hi := spawn_getElem? s (.done (-einval))
  have he := runCall_done hi hcall
  obtain ⟨hrun, hret⟩ := runCall_eq_some hcall
  have hsound : Sound params (s.spawn (.done (-einval))) :=
    h.sound.step (show Traffic s .ctlrStop from trivial) (show Covered s .ctlrStop from trivial) hs₁
  have hk := Kept.of_run hsound hrun
  refine ⟨h.returned rfl hk hret (he.lock.trans h.lock) fun ch chan' hch => ?_, he.state, he.steady⟩
  obtain ⟨chan, hold, -, hsame⟩ := he.chans ch chan' hch
  rw [hsame]
  exact h.state ch chan hold

/-- A submit changes the controller and the record of what was accepted. -/
theorem submitStep_frame (params : CpdmaParams) (s : State τ) (kind : SubmitKind) (ch : ChanId)
    (chan : CpdmaChan) (args : SubmitArgs τ) (mapped : Option U32) :
    (submitStep params s kind ch chan args mapped).1.ctlr =
        (submitEntry kind params s.ctlr ch chan args mapped).1 ∧
      (submitStep params s kind ch chan args mapped).1.calls = s.calls ∧
      (submitStep params s kind ch chan args mapped).1.lock = s.lock := by
  unfold submitStep
  dsimp only
  split <;> exact ⟨rfl, rfl, rfl⟩

theorem submitEntry_own (params : CpdmaParams) (kind : SubmitKind)
    (hch : c.channels ch = some chan) (args : SubmitArgs τ) (mapped : Option U32) :
    (submitEntry kind params c ch chan args mapped).1.state = c.state ∧
      ∃ chan', chan'.state = chan.state ∧
        (submitEntry kind params c ch chan args mapped).1.channels =
          Function.update c.channels ch (some chan') := by
  unfold submitEntry
  split
  · exact ⟨rfl, chan, rfl, by rw [← hch, Function.update_eq_self]⟩
  cases hr : cpdmaChanSubmitSi params c ch chan (submitInfo kind args) mapped with
  | mk c' ret =>
    rcases cpdmaChanSubmitSi_cases hr with
      ⟨-, stats, rfl⟩ | ⟨-, -, d, mem', chan', rxfree, -, hl, rfl⟩
    · exact ⟨rfl, { chan with stats := stats }, rfl, rfl⟩
    · exact ⟨rfl, { chan' with rxfree := rxfree, count := chan'.count + 1 }, hl.state, rfl⟩

/-- Whatever becomes of a submit, it is about its own channel. -/
theorem AtRest.submitted (h : AtRest params s) (kind : SubmitKind) (mapped : Option U32)
    {args : SubmitArgs τ} (hch : s.ctlr.channels ch = some chan) (hlen : args.len < 2 ^ 16) :
    AtRest params (submitStep params s kind ch chan args mapped).1 ∧
      (submitStep params s kind ch chan args mapped).1.ctlr.state = s.ctlr.state ∧
      ∀ ch', ch' ≠ ch → countOf (submitStep params s kind ch chan args mapped).1.ctlr.channels ch' =
        countOf s.ctlr.channels ch' := by
  have hcovered : Covered s (.submit kind ch args mapped) := by
    intro chan' hch' hroom
    rw [h.heldCount, countOf_some hch']
    exact hroom
  have hst : step params s (.submit kind ch args mapped) =
      some (submitStep params s kind ch chan args mapped).1 := by
    simp only [step, hch, Option.map_some]
  have hsound := h.sound.step (show Traffic s (.submit kind ch args mapped) from hlen) hcovered hst
  obtain ⟨hctlr, hcalls, hlock⟩ := submitStep_frame params s kind ch chan args mapped
  obtain ⟨hctlrState, chan', hstate, hchans⟩ := submitEntry_own params kind hch args mapped
  rw [← hctlr] at hctlrState hchans
  refine ⟨⟨hsound, ?_, hlock.trans h.lock, fun ch' chan₁ hch₁ => ?_⟩, hctlrState,
    fun ch' hne => ?_⟩
  · rw [hcalls]
    exact h.calls
  · rw [hchans] at hch₁
    by_cases heq : ch' = ch
    · rw [heq, Function.update_self] at hch₁
      obtain rfl := Option.some.inj hch₁
      rw [hstate]
      exact h.state ch chan hch
    · rw [Function.update_of_ne heq] at hch₁
      exact h.state ch' chan₁ hch₁
  · rw [hchans, countOf_update, if_neg hne]

/-- cpdma_chan_process with no other call in the way. -/
def processAlone (params : CpdmaParams) (sched : List (Op τ)) (s : State τ) (ch : ChanId)
    (quota : ℤ) : Option (State τ × ℤ) :=
  (step params s (.chanProcess ch quota)).bind (runCall params s.calls.length sched)

/-- Where a call of cpdma_chan_process for the channel stands. -/
def Pc.processes (ch : ChanId) : Pc τ → Prop
  | .process ch' _ _ => ch' = ch
  | .chanFree ch' _ _ _ (.process _ _) | .handler ch' _ _ _ (.process _ _) => ch' = ch
  | .done _ => True
  | _ => False

/-- cpdma_chan_process on its way keeps to its channel. -/
structure KeepsTo (i : ℕ) (ch : ChanId) (s₀ s : State τ) : Prop where
  state : s.ctlr.state = s₀.ctlr.state
  lock : s.lock = s₀.lock
  pc : ∃ pc, s.calls[i]? = some pc ∧ pc.processes ch
  others : ∀ ch', ch' ≠ ch → countOf s.ctlr.channels ch' = countOf s₀.ctlr.channels ch'
  states : chanStates s.ctlr.channels = chanStates s₀.ctlr.channels

variable {s₀ : State τ}

theorem KeepsTo.engine (h : KeepsTo i ch s₀ s) (he : EngineOnly s s') : KeepsTo i ch s₀ s' where
  state := he.state.trans h.state
  lock := he.lock.trans h.lock
  pc := by
    rw [he.calls]
    exact h.pc
  others ch' hne := ((he.steady ch').agree.countOf).trans (h.others ch' hne)
  states := by
    rw [← h.states]
    funext ch'
    unfold chanStates
    cases hch : s'.ctlr.channels ch' with
    | none =>
      have hsteady := he.steady ch'
      rw [hch] at hsteady
      generalize s.ctlr.channels ch' = o at hsteady ⊢
      cases hsteady
      rfl
    | some chan' =>
      obtain ⟨chan, hold, -, hstate⟩ := he.chans ch' chan' hch
      rw [hold, Option.map_some, Option.map_some, hstate]

/-- A section that changes the channel, but not its state. -/
theorem KeepsTo.change (h : KeepsTo i ch s₀ s) {chan' : CpdmaChan} {pc pc' : Pc τ}
    (hi : s.calls[i]? = some pc) (hch : s.ctlr.channels ch = some chan)
    (hstate : chan'.state = chan.state) (hpc : pc'.processes ch)
    (hctlr : s'.ctlr.state = s.ctlr.state) (hlock : s'.lock = s.lock)
    (hcalls : s'.calls = s.calls.set i pc')
    (hchans : s'.ctlr.channels = Function.update s.ctlr.channels ch (some chan')) :
    KeepsTo i ch s₀ s' where
  state := hctlr.trans h.state
  lock := hlock.trans h.lock
  pc := by
    rw [hcalls]
    exact ⟨pc', getElem?_set_self hi, hpc⟩
  others ch' hne := by
    rw [hchans, countOf_update, if_neg hne]
    exact h.others ch' hne
  states := by
    rw [hchans, chanStates_keep hch hstate, h.states]

theorem KeepsTo.advance (h : KeepsTo i ch s₀ s) {pc : Pc τ} (hi : s.calls[i]? = some pc)
    (hst : Cpdma.advance params s i pc = some s') : KeepsTo i ch s₀ s' := by
  obtain ⟨pc', hi', hpc⟩ := h.pc
  obtain rfl : pc' = pc := Option.some.inj (hi'.symm.trans hi)
  cases pc' with
  | process ch' quota used =>
    obtain rfl : ch' = ch := hpc
    simp only [Cpdma.advance] at hst
    split at hst
    · obtain ⟨chan, hch, rfl⟩ := Option.map_eq_some_iff.mp hst
      have hstate := processLocked_state params.pool s.ctlr.mem chan
      unfold processStep
      split
      · rename_i heq
        rw [heq] at hstate
        exact h.change hi hch hstate (show (Pc.done used).processes ch' from trivial) rfl rfl rfl rfl
      · rename_i heq
        rw [heq] at hstate
        exact h.change hi hch hstate (show Pc.processes ch' (.chanFree ch' _ _ _ (.process _ _)) from rfl) rfl
          rfl rfl rfl
    · obtain rfl := Option.some.inj hst
      exact ⟨h.state, h.lock, ⟨_, getElem?_set_self hi, trivial⟩, h.others, h.states⟩
  | chanFree ch' desc outlen status k =>
    obtain rfl := Option.some.inj hst
    cases k with
    | process quota used =>
      exact ⟨h.state, h.lock, ⟨_, getElem?_set_self hi, hpc⟩, h.others, h.states⟩
    | stopDrain tdComplete ret => exact hpc.elim
    | stopClean ret => exact hpc.elim
  | handler ch' item outlen status k =>
    obtain rfl := Option.some.inj hst
    cases k with
    | process quota used =>
      exact ⟨h.state, h.lock, ⟨_, getElem?_set_self hi, hpc⟩, h.others, h.states⟩
    | stopDrain tdComplete ret => exact hpc.elim
    | stopClean ret => exact hpc.elim
  | done ret => cases hst
  | _ => exact hpc.elim

/-- Processing a channel leaves what the other channels hold. -/
theorem AtRest.processed (h : AtRest params s) {quota ret : ℤ} {sched : List (Op τ)} {t : State τ}
    (hst : processAlone params sched s ch quota = some (t, ret)) :
    AtRest params t ∧ t.ctlr.state = s.ctlr.state ∧
      ∀ ch', ch' ≠ ch → countOf t.ctlr.channels ch' = countOf s.ctlr.channels ch' := by
  obtain ⟨s₁, hs₁, hcall⟩ := Option.bind_eq_some_iff.mp hst
  obtain ⟨hrun, hret⟩ := runCall_eq_some hcall
  have hsound : Sound params s₁ := h.sound.step (show Traffic s (.chanProcess ch quota) from trivial)
    (show Covered s (.chanProcess ch quota) from trivial) hs₁
  have hk := Kept.of_run hsound hrun
  obtain ⟨chan, -, rfl⟩ := Option.map_eq_some_iff.mp hs₁
  generalize hpc : (if chan.state ≠ .active then Pc.done (-einval) else Pc.process ch quota 0) = pc
    at hrun hk
  have hprocesses : pc.processes ch := by
    rw [← hpc]
    split
    · trivial
    · rfl
  have hstart : KeepsTo s.calls.length ch s (s.spawn pc) :=
    ⟨rfl, rfl, ⟨pc, spawn_getElem? s pc, hprocesses⟩, fun _ _ => rfl, rfl⟩
  have hend : KeepsTo s.calls.length ch s t := by
    refine hrun.invariant (fun u op v hu hok hst => ?_) hstart
    rcases alone_cases hok hst with he | ⟨pc', hi, hadv⟩
    · exact hu.engine he
    · exact hu.advance hi hadv
  refine ⟨h.returned rfl hk hret (hend.lock.trans h.lock) fun ch' chan' hch' hteardown => ?_,
    hend.state, hend.others⟩
  have hold := congrFun hend.states ch'
  unfold chanStates at hold
  rw [hch', Option.map_some] at hold
  obtain ⟨chan₀, hch₀, hsame⟩ := Option.map_eq_some_iff.mp hold.symm
  exact h.state ch' chan₀ hch₀ (hsame.trans hteardown)

end CpswDriver.Cpdma
