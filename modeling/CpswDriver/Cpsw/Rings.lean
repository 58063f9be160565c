import CpswDriver.Cpdma.Resizing
import CpswDriver.Cpsw.OpenStop

/-!
The receive rings under ethtool. A resizing stops the controller, divides the
pool anew and fills the rx channels again while the net devices stay open; if
something fails on the way, the old size comes back and the devices are closed.
Before and after it devices are opened and stopped, packets are sent and
handed back, and the tx channels get other weights.
-/

namespace CpswDriver.Rings

open Cpdma Runs OpenStop

def cpswMaxQueues : ℕ := 8

/-- What the ethtool calls read of struct cpsw_common besides: the pool has the
size that was asked for when the controller was made. -/
structure RingParams extends CpswParams where
  descsPoolSize : ℤ
  rxChNum_pos : 0 < rxChNum
  rxChNum_le : rxChNum ≤ cpswMaxQueues
  maxQueues_le : cpswMaxQueues ≤ descsPoolSize
  descsPoolSize_eq : descsPoolSize = cpdma.pool.numDesc
  descsPoolSize_lt : descsPoolSize < 2 ^ 31

abbrev State := OpenStop.State

/-- struct ethtool_ringparam -/
structure Ringparam where
  rxMaxPending : U32 := 0
  rxMiniPending : U32 := 0
  rxJumboPending : U32 := 0
  rxPending : U32
  txMaxPending : U32 := 0
  txPending : U32 := 0
  deriving DecidableEq

/-- The answers to a resizing: what goes on while the controller stops, what the
helpers answer when it is set up again, and what goes on while devices are closed. -/
structure Answers where
  suspend : List (Cpdma.Op ℕ)
  resume : OpenStop.Answers
  fail : Port → List (Cpdma.Op ℕ)

/-- cpsw_suspend_data_pass. It is undefined when the call into the controller does not
return under the schedule. -/
def cpswSuspendDataPass (params : RingParams) (sched : List (Cpdma.Op ℕ)) (s : State) :
    Option State :=
  ctlrStop params.toCpswParams sched { s with intr := false }

def cpswResumeDataPass (params : RingParams) (ans : OpenStop.Answers) (s : State) :
    Option (State × ℤ) :=
  if s.usageCount ≠ 0 then
    let (s, ret) := cpswFillRxChannels params.toCpswParams ans s
    if ret ≠ 0 then some (s, ret)
    else (ctlrStart params.toCpswParams ans.sched s).map fun s => ({ s with intr := true }, 0)
  else some (s, 0)

/-- dev_close -/
def devClose (params : RingParams) (sched : List (Cpdma.Op ℕ)) (s : State) (p : Port) :
    Option State :=
  if s.opened p then OpenStop.step params.toCpswParams s (.ndoStop p sched) else some s

def cpswFail (params : RingParams) (sched : Port → List (Cpdma.Op ℕ)) (s : State) :
    Option State :=
  (devClose params (sched 0) s 0).bind fun s => devClose params (sched 1) s 1

def setNumRxDescs (params : RingParams) (s : State) (num : ℤ) : State × ℤ :=
  let (ctlr, ret) := cpdmaSetNumRxDescs params.cpdma.pool s.dma.ctlr num
  ({ s with dma := { s.dma with ctlr := ctlr } }, ret)

/-- The label err of cpsw_set_ringparam. -/
def giveUp (params : RingParams) (ans : Answers) (s : State) (descsNum ret : ℤ) :
    Option (State × ℤ) :=
  (cpswFail params ans.fail (setNumRxDescs params s descsNum).1).map fun s => (s, ret)

def cpswGetRingparam (params : RingParams) (s : State) : Ringparam where
  txMaxPending := BitVec.ofInt 32 (params.descsPoolSize - cpswMaxQueues)
  txPending := BitVec.ofInt 32 s.dma.ctlr.numTxDesc
  rxMaxPending := BitVec.ofInt 32 (params.descsPoolSize - cpswMaxQueues)
  rxPending := BitVec.ofInt 32 s.dma.ctlr.numRxDesc

/-- The checks of cpsw_set_ringparam. -/
def admits (params : RingParams) (ering : Ringparam) : Bool :=
  !(ering.rxMiniPending != 0 || ering.rxJumboPending != 0 ||
    ering.rxPending.toNat < cpswMaxQueues ||
    (BitVec.ofInt 32 (params.descsPoolSize - cpswMaxQueues)).toNat < ering.rxPending.toNat)

/-- What cpsw_set_ringparam does between the suspend and the resume, when the new
size is accepted: the page pools have to be as large as the channels. -/
def replacePools (params : RingParams) (ans : Answers) (s : State) : State × ℤ :=
  if s.usageCount ≠ 0 then
    cpswCreateXdpRxqs params.toCpswParams ans.resume (cpswDestroyXdpRxqs params.toCpswParams s)
  else (s, 0)

/-- cpsw_set_ringparam behind its checks. -/
def resize (params : RingParams) (ans : Answers) (s : State) (ering : Ringparam) :
    Option (State × ℤ) :=
  let descsNum := s.dma.ctlr.numRxDesc
  (cpswSuspendDataPass params ans.suspend s).bind fun s =>
    let (s, ret) := setNumRxDescs params s ering.rxPending.toInt
    if ret ≠ 0 then
      (cpswResumeDataPass params ans.resume s).bind fun (s, err) =>
        if err ≠ 0 then giveUp params ans s descsNum ret else some (s, ret)
    else
      let (s, ret) := replacePools params ans s
      if ret ≠ 0 then giveUp params ans s descsNum ret
      else (cpswResumeDataPass params ans.resume s).bind fun (s, ret) =>
        if ret = 0 then some (s, 0) else giveUp params ans s descsNum ret

def cpswSetRingparam (params : RingParams) (ans : Answers) (s : State) (ering : Ringparam) :
    Option (State × ℤ) :=
  if !admits params ering then some (s, -einval)
  else if ering.rxPending = BitVec.ofInt 32 s.dma.ctlr.numRxDesc then some (s, 0)
  else resize params ans s ering

inductive Op
  | ndoOpen (p : Port) (ans : OpenStop.Answers)
  | ndoStop (p : Port) (sched : List (Cpdma.Op ℕ))
  | setRingparam (ering : Ringparam) (ans : Answers)
  | xmit (p : Port) (ch : ChanId) (args : SubmitArgs ℕ) (mapped : Option U32)
  /-- the part of a tx poll that is for one channel -/
  | txPoll (ch : ChanId) (quota : ℤ) (sched : List (Cpdma.Op ℕ))
  /-- cpsw_split_res gives a tx channel another weight -/
  | setWeight (ch : ChanId) (weight : ℤ)
  /-- the engine writes a descriptor or a head pointer register -/
  | engine (op : Cpdma.Op ℕ)

def withDma (s : State) (c : Cpdma.State ℕ) : State := { s with dma := c }

/-- The calls of the network stack and of ethtool, one at a time. An open device sends
whenever it likes. -/
def step (params : RingParams) (s : State) : Op → Option State
  | .ndoOpen p ans => OpenStop.step params.toCpswParams s (.ndoOpen p ans)
  | .ndoStop p sched => OpenStop.step params.toCpswParams s (.ndoStop p sched)
  | .setRingparam ering ans =>
    (cpswSetRingparam params ans s ering).map fun r => { r.1 with ret := r.2 }
  | .xmit p ch args mapped =>
    if s.opened p && !isRxChan ch then
      (Cpdma.step params.cpdma s.dma (.submit .submit ch args mapped)).map (withDma s)
    else none
  | .txPoll ch quota sched =>
    if s.napiTx && !isRxChan ch then
      (processAlone params.cpdma sched s.dma ch quota).map fun r => withDma s r.1
    else none
  | .setWeight ch weight =>
    if !isRxChan ch then
      (Cpdma.step params.cpdma s.dma (.setWeight ch weight)).map (withDma s)
    else none
  | .engine op => OpenStop.step params.toCpswParams s (.engine op)

variable {params : RingParams} {s t : State}

/-- The pool is divided between the directions, and the rx channels share their part evenly. -/
structure Division (params : RingParams) (c : CpdmaCtlr ℕ) : Prop where
  settled : RxSettled c
  chanNum : c.chanNum ≠ 0
  parts : c.numTxDesc + c.numRxDesc = params.cpdma.pool.numDesc
  weight : ∀ ch, isRxChan ch = true → weightOf c.channels ch = 0
  chans : ∀ ch < params.rxChNum, (c.channels (params.rxv ch)).isSome
  all : ∀ ch, isRxChan ch = true → (c.channels ch).isSome → ∃ i < params.rxChNum, params.rxv i = ch
  few : (params.rxChNum : ℤ) ≤ c.numRxDesc

theorem Division.samePool {c c' : CpdmaCtlr ℕ} (h : Division params c) (hs : SamePool c c') :
    Division params c' := by
  have hsome : ∀ ch, (c'.channels ch).isSome = (c.channels ch).isSome := by
    intro ch
    rw [← Option.isSome_map (f := CpdmaChan.weight), hs.weight, Option.isSome_map]
  refine ⟨h.settled.same hs.rxSame, ?_, ?_, fun ch hrx => ?_, fun ch hlt => ?_, fun ch hrx hch => ?_,
    ?_⟩
  · rw [hs.chanNum]
    exact h.chanNum
  · rw [hs.numTx, hs.numRx]
    exact h.parts
  · unfold weightOf
    rw [hs.weight]
    exact h.weight ch hrx
  · rw [hsome]
    exact h.chans ch hlt
  · rw [hsome] at hch
    exact h.all ch hrx hch
  · rw [hs.numRx]
    exact h.few

theorem Division.bounds {c : CpdmaCtlr ℕ} (h : Division params c)
    (hdivided : Divided params.cpdma c) : 0 < c.numRxDesc ∧ c.numRxDesc < params.cpdma.pool.numDesc := by
  have hparts := h.parts
  have htx := hdivided.txRange.1
  exact ⟨h.settled.pos, by omega⟩

/-- There are no more rx channels than the driver uses. -/
theorem Division.freeNum {c : CpdmaCtlr ℕ} (h : Division params c) :
    freeNum c.channels true ≤ params.rxChNum := by
  unfold CpswDriver.Cpdma.freeNum
  rw [List.countP_eq_length_filter]
  have hsub : (chanSlots true).filter (fun ch => (c.channels ch).any fun chan => chan.weight == 0) ⊆
      (List.range params.rxChNum).map params.rxv := by
    intro ch hmem
    obtain ⟨hslot, hany⟩ := List.mem_filter.mp hmem
    have hsome : (c.channels ch).isSome := by
      cases hch : c.channels ch with
      | none => simp [hch] at hany
      | some chan => rfl
    obtain ⟨i, hi, rfl⟩ := h.all ch (mem_chanSlots.mp hslot) hsome
    exact List.mem_map_of_mem (List.mem_range.mpr hi)
  have hle := (List.subperm_of_subset ((nodup_chanSlots true).filter _) hsub).length_le
  rwa [List.length_map, List.length_range] at hle

/-- The rx channels have room for as many packets as the receive part has descriptors. -/
theorem Division.quotaSum {c : CpdmaCtlr ℕ} (h : Division params c)
    (hdivided : Divided params.cpdma c) :
    (quotaSum c.channels (chanSlots true) : ℤ) = c.numRxDesc := by
  have hfree := h.freeNum
  have hfew := h.few
  have hpos := params.rxChNum_pos
  exact h.settled.quotaSum hdivided.rxRange.2 h.weight
    ⟨params.rxv 0, params.rxv_rx 0 hpos, h.chans 0 hpos⟩ (by omega)

/-- While a device is open: what the rx channels hold, and where their pages come from. -/
structure Running (params : RingParams) (s : State) : Prop where
  pools : ∀ ch < params.rxChNum, s.pagePool ch = chanQuota s.dma (params.rxv ch)
  intr : s.intr = true

structure Inv (params : RingParams) (s : State) : Prop where
  books : OpenStop.Inv params.toCpswParams s
  division : Division params s.dma.ctlr
  running : 0 < s.usageCount → Running params s
  empty : ¬ 0 < s.usageCount → AllEmpty s.dma

/-- The controller is stopped, whatever is open. -/
structure Suspended (params : RingParams) (s : State) : Prop where
  rest : AtRest params.cpdma s.dma
  idle : s.dma.ctlr.state = .idle
  empty : AllEmpty s.dma
  division : Division params s.dma.ctlr
  usage : s.usageCount = openPorts s
  pm : s.pmUsage = openPorts s
  misuse : s.napiMisuse = false
  napi : s.napiRx = decide (0 < s.usageCount) ∧ s.napiTx = decide (0 < s.usageCount)
  pools : ¬ 0 < s.usageCount → ∀ ch < params.rxChNum, s.pagePool ch = none

theorem chanQuota_of_some {c : Cpdma.State ℕ} {ch : ChanId} (h : (c.ctlr.channels ch).isSome) :
    ∃ n, chanQuota c ch = some n := by
  obtain ⟨chan, hch⟩ := Option.isSome_iff_exists.mp h
  exact ⟨chan.descNum, by rw [chanQuota, hch]; rfl⟩

/-- A stopped controller with nothing open is one between calls. -/
theorem Suspended.inv (h : Suspended params s) (husage : ¬ 0 < s.usageCount) : Inv params s := by
  have hnapi := h.napi
  rw [decide_eq_false husage] at hnapi
  exact ⟨⟨h.rest, fun ch hlt => chanQuota_of_some (h.division.chans ch hlt), h.usage, h.pm, h.misuse,
    fun hpos => absurd hpos husage, fun _ => ⟨h.pools husage, fun ch _ => h.empty _, hnapi, h.idle⟩⟩,
    h.division, fun hpos => absurd hpos husage, fun _ => h.empty⟩

theorem allEmpty_of_steady {c c' : Cpdma.State ℕ}
    (hsteady : ∀ ch, ChanSteady (c.ctlr.channels ch) (c'.ctlr.channels ch)) (h : AllEmpty c) :
    AllEmpty c' := fun ch => (hsteady ch).agree.countOf.trans (h ch)

theorem allEmpty_of_drained {c : Cpdma.State ℕ} (hrest : AtRest params.cpdma c) (h : Drained c) :
    AllEmpty c := by
  intro ch
  unfold countOf
  cases hch : c.ctlr.channels ch with
  | none => rfl
  | some chan => exact hrest.sound.count_zero hch (h.chans ch chan hch).1

/-- Stopping the controller for a while leaves the books as they are. -/
theorem Inv.suspend (h : Inv params s) {sched : List (Cpdma.Op ℕ)}
    (hst : cpswSuspendDataPass params sched s = some t) :
    Suspended params t ∧ t.usageCount = s.usageCount ∧ t.opened = s.opened ∧
      t.pagePool = s.pagePool ∧ SamePool s.dma.ctlr t.dma.ctlr := by
  unfold cpswSuspendDataPass ctlrStop at hst
  obtain ⟨⟨c, r⟩, hc, rfl⟩ := Option.map_eq_some_iff.mp hst
  have hpool : SamePool s.dma.ctlr c.ctlr := cpdmaCtlrStop_samePool hc
  by_cases hpos : 0 < s.usageCount
  · have hup := h.books.up hpos
    obtain ⟨hrest, hdrained, -⟩ := cpdmaCtlrStop_drains h.books.rest hup.active hc
    refine ⟨⟨hrest, hdrained.state, allEmpty_of_drained hrest hdrained,
      h.division.samePool hpool, h.books.usage, h.books.pm, h.books.napi, ?_, fun hneg => absurd hpos hneg⟩, rfl, rfl, rfl, hpool⟩
    have hon : decide (0 < s.usageCount) = true := decide_eq_true hpos
    exact ⟨hup.napi.1.trans hon.symm, hup.napi.2.trans hon.symm⟩
  · have hdown := h.books.down hpos
    have hidle : s.dma.ctlr.state ≠ .active := by
      rw [hdown.idle]
      exact fun hne => by cases hne
    obtain ⟨hrest, hstate, hsteady⟩ := cpdmaCtlrStop_refused h.books.rest hidle hc
    refine ⟨⟨hrest, hstate.trans hdown.idle, allEmpty_of_steady hsteady (h.empty hpos),
      h.division.samePool hpool, h.books.usage, h.books.pm, h.books.napi, ?_,
      fun _ => hdown.pools⟩, rfl, rfl, rfl, hpool⟩
    have hoff : decide (0 < s.usageCount) = false := decide_eq_false hpos
    exact ⟨hdown.napi.1.trans hoff.symm, hdown.napi.2.trans hoff.symm⟩

theorem pool_lt (params : RingParams) : params.cpdma.pool.numDesc < 2 ^ 31 := by
  have heq := params.descsPoolSize_eq
  have hlt := params.descsPoolSize_lt
  omega

theorem setNumRxDescs_frame (params : RingParams) (s : State) (num : ℤ) :
    ∃ ctlr, (setNumRxDescs params s num).1 = { s with dma := { s.dma with ctlr := ctlr } } ∧
      cpdmaSetNumRxDescs params.cpdma.pool s.dma.ctlr num = (ctlr, (setNumRxDescs params s num).2) :=
  ⟨_, rfl, rfl⟩

/-- The new size is accepted, or the weights of the tx channels forbid any, and then nothing
has changed. -/
theorem Suspended.setNumRxDescs (h : Suspended params s) {num : ℤ}
    (hfew : (params.rxChNum : ℤ) ≤ num) (hlt : num < params.cpdma.pool.numDesc) :
    Suspended params (Rings.setNumRxDescs params s num).1 ∧
      ((Rings.setNumRxDescs params s num).2 = 0 ∧ ¬OverWeight s.dma.ctlr ∧
          (Rings.setNumRxDescs params s num).1.dma.ctlr.numRxDesc = num ∧
          ¬OverWeight (Rings.setNumRxDescs params s num).1.dma.ctlr ∨
        (Rings.setNumRxDescs params s num).2 ≠ 0 ∧ (Rings.setNumRxDescs params s num).1 = s) := by
  obtain ⟨ctlr, hs, hset⟩ := setNumRxDescs_frame params s num
  have hpos : 0 < num := by
    have := params.rxChNum_pos
    omega
  have hcases := cpdmaSetNumRxDescs_cases h.division.chanNum h.division.parts hpos
  rw [hset] at hcases
  rcases hcases with ⟨hrefused, -⟩ | ⟨hover, hret, hsplit, hsettled⟩
  · obtain ⟨rfl, hret⟩ := Prod.mk.inj hrefused
    rw [hs, hret]
    exact ⟨h, .inr ⟨by decide, rfl⟩⟩
  · have hrest := h.rest.setNumRxDescs h.empty h.division.chanNum h.division.parts (pool_lt params)
      hpos hlt
    rw [hset] at hrest
    obtain ⟨channels, hquota, hframe⟩ :=
      cpdmaChanSplitPool_frame (resized params.cpdma.pool s.dma.ctlr num)
    dsimp only at hret hsplit hsettled hrest
    rw [hframe] at hsplit
    subst hsplit
    have hdivision : Division params { resized params.cpdma.pool s.dma.ctlr num with
        channels := channels } := by
      refine ⟨hsettled, h.division.chanNum, sub_add_cancel _ _, fun ch hrx => ?_, fun ch hlt => ?_,
        fun ch hrx hch => ?_, hfew⟩
      · exact (hquota.weightOf ch).trans (h.division.weight ch hrx)
      · exact (hquota.isSome _).trans (h.division.chans ch hlt)
      · exact h.division.all ch hrx ((hquota.isSome ch).symm.trans hch)
    have hempty : ∀ ch, countOf channels ch = 0 :=
      fun ch => (hquota.agree ch).countOf.trans (h.empty ch)
    rw [hs, hret]
    refine ⟨⟨hrest, h.idle, hempty, hdivision, h.usage, h.pm, h.misuse, h.napi, h.pools⟩,
      .inl ⟨rfl, hover, rfl, ?_⟩⟩
    unfold OverWeight
    dsimp only
    rw [hquota.weightSum, hquota.weightSum]
    exact hover

/-- Creating the page pools touches them and the rx queues; when it succeeds, every pool is as
large as its channel. -/
theorem regRxqs_frame (ans : OpenStop.Answers) (ch : ℕ) : ∀ (ps : List Port) (s : OpenStop.State),
    ∃ rxqs, ∃ ret ≤ 0, regRxqs ans s ch ps = ({ s with xdpRxq := rxqs }, ret)
  | [], s => ⟨s.xdpRxq, 0, le_rfl, rfl⟩
  | p :: ps, s => by
    unfold regRxqs
    split
    · exact ⟨s.xdpRxq, _, by omega, rfl⟩
    · exact regRxqs_frame ans ch ps (s.setRxq p ch true)

theorem createPools_frame (params : CpswParams) (ans : OpenStop.Answers) :
    ∀ (chs : List ℕ) (s : OpenStop.State), ∃ pools rxqs, ∃ ret ≤ 0,
      createPools params ans s chs = ({ s with pagePool := pools, xdpRxq := rxqs }, ret) ∧
      (ret = 0 → ∀ ch, pools ch = if ch ∈ chs then some (rxBufNum params s ch) else s.pagePool ch)
  | [], s => ⟨s.pagePool, s.xdpRxq, 0, le_rfl, rfl, fun _ ch => rfl⟩
  | ch :: chs, s => by
    unfold createPools
    split
    · exact ⟨s.pagePool, s.xdpRxq, _, by omega, rfl, fun hret => absurd hret (by omega)⟩
    obtain ⟨rxqs, ret, hle, hreg⟩ := regRxqs_frame ans ch [0, 1]
      (s.setPool ch (some (rxBufNum params s ch)))
    rw [hreg]
    dsimp only
    split
    · exact ⟨_, rxqs, ret, hle, rfl, fun hret => absurd hret ‹_›⟩
    obtain ⟨pools, rxqs', ret', hle', hrest, hsizes⟩ := createPools_frame params ans chs
      { s.setPool ch (some (rxBufNum params s ch)) with xdpRxq := rxqs }
    refine ⟨pools, rxqs', ret', hle', hrest, fun hret ch' => ?_⟩
    rw [hsizes hret ch']
    by_cases hmem : ch' ∈ chs
    · rw [if_pos hmem, if_pos (List.mem_cons_of_mem ch hmem)]
      rfl
    · rw [if_neg hmem]
      by_cases heq : ch' = ch
      · rw [heq, if_pos List.mem_cons_self]
        exact Function.update_self _ _ _
      · have hnot : ch' ∉ ch :: chs := fun h => (List.mem_cons.mp h).elim heq hmem
        rw [if_neg hnot]
        exact Function.update_of_ne heq _ _

/-- What cpsw_create_xdp_rxqs leaves: page pools of the right size, or none. -/
theorem cpswCreateXdpRxqs_frame (params : CpswParams) (ans : OpenStop.Answers)
    (s : OpenStop.State) : ∃ pools rxqs, ∃ ret ≤ 0,
      cpswCreateXdpRxqs params ans s = ({ s with pagePool := pools, xdpRxq := rxqs }, ret) ∧
      (ret = 0 → ∀ ch < params.rxChNum, pools ch = some (rxBufNum params s ch)) := by
  obtain ⟨pools, rxqs, ret, hle, hpools, hsizes⟩ :=
    createPools_frame params ans (List.range params.rxChNum) s
  unfold cpswCreateXdpRxqs
  rw [hpools]
  dsimp only
  split
  · exact ⟨_, _, ret, hle, rfl, fun hret => absurd hret ‹_›⟩
  · refine ⟨pools, rxqs, 0, le_rfl, rfl, fun _ ch hlt => ?_⟩
    rw [hsizes (not_not.mp ‹_›) ch, if_pos (List.mem_range.mpr hlt)]

theorem rxBufNum_eq {ch n : ℕ} {s : OpenStop.State}
    (h : chanQuota s.dma (params.rxv ch) = some n) : rxBufNum params.toCpswParams s ch = n := by
  rw [rxBufNum, h, Option.getD_some]

theorem Suspended.replacePools (h : Suspended params s) (ans : Answers) :
    Suspended params (Rings.replacePools params ans s).1 ∧
      (Rings.replacePools params ans s).1.usageCount = s.usageCount ∧
      (Rings.replacePools params ans s).1.opened = s.opened ∧
      (Rings.replacePools params ans s).1.dma = s.dma ∧
      ((Rings.replacePools params ans s).2 = 0 → 0 < s.usageCount → ∀ ch < params.rxChNum,
        (Rings.replacePools params ans s).1.pagePool ch = chanQuota s.dma (params.rxv ch)) := by
  unfold Rings.replacePools
  split
  · obtain ⟨pools, rxqs, ret, -, hcreate, hsizes⟩ := cpswCreateXdpRxqs_frame params.toCpswParams
      ans.resume (cpswDestroyXdpRxqs params.toCpswParams s)
    rw [hcreate]
    have hpos : 0 < s.usageCount := by
      have hports := openPorts_nonneg s
      have hbooks := h.usage
      omega
    refine ⟨⟨h.rest, h.idle, h.empty, h.division, h.usage, h.pm, h.misuse, h.napi,
      fun hneg => absurd hpos hneg⟩, rfl, rfl, rfl, fun hret _ ch hlt => ?_⟩
    obtain ⟨n, hn⟩ := chanQuota_of_some (h.division.chans ch hlt)
    rw [hn]
    exact (hsizes hret ch hlt).trans (congrArg some (rxBufNum_eq hn))
  · exact ⟨h, rfl, rfl, rfl, fun _ hpos => absurd hpos (by omega)⟩

theorem fillBuf_samePool (params : CpswParams) (c : Cpdma.State ℕ) (ch : ℕ) (page : Page) :
    SamePool c.ctlr (fillBuf params c ch page).1.ctlr := by
  unfold fillBuf
  cases hch : c.ctlr.channels (params.rxv ch) with
  | none => exact .refl _
  | some chan =>
    have hst : Cpdma.step params.cpdma c (.submit .idleSubmitMapped (params.rxv ch)
        (fillArgs params page) none) = some (submitStep params.cpdma c .idleSubmitMapped
          (params.rxv ch) chan (fillArgs params page) none).1 := by
      simp only [Cpdma.step, hch, Option.map_some]
    exact step_samePool (show LenOk c (.submit _ _ (fillArgs params page) none) from
      params.rxPacketMax_lt) rfl hst

theorem fillBufs_samePool (params : CpswParams) (ans : OpenStop.Answers) (ch : ℕ) :
    ∀ (is : List ℕ) (c : Cpdma.State ℕ), SamePool c.ctlr (fillBufs params ans c ch is).1.ctlr
  | [], c => .refl _
  | i :: is, c => by
    unfold fillBufs
    cases ans.allocPage ch i with
    | none => exact .refl _
    | some page =>
      have hbuf := fillBuf_samePool params c ch page
      dsimp only
      split
      · exact hbuf
      · exact hbuf.trans (fillBufs_samePool params ans ch is _)

theorem fillChans_samePool (params : CpswParams) (ans : OpenStop.Answers) :
    ∀ (chs : List ℕ) (c : Cpdma.State ℕ), SamePool c.ctlr (fillChans params ans c chs).1.ctlr
  | [], c => .refl _
  | ch :: chs, c => by
    unfold fillChans
    have hbufs := fillBufs_samePool params ans ch
      (List.range ((chanQuota c (params.rxv ch)).getD 0)) c
    dsimp only
    split
    · exact hbufs
    · exact hbufs.trans (fillChans_samePool params ans chs _)

/-- There is a page for whatever the channels can hold. -/
def PagesOk (params : RingParams) (ans : OpenStop.Answers) : Prop :=
  ∀ ch < params.rxChNum, ∀ i < params.cpdma.pool.numDesc, (ans.allocPage ch i).isSome

instance (params : RingParams) (ans : OpenStop.Answers) : Decidable (PagesOk params ans) :=
  inferInstanceAs (Decidable (∀ _, _))

theorem Suspended.quota_le (h : Suspended params s) {ch n : ℕ} (hlt : ch < params.rxChNum)
    (hn : chanQuota s.dma (params.rxv ch) = some n) : n ≤ params.cpdma.pool.numDesc := by
  have hdivided := h.rest.sound.fair.divided
  have hle : (granted s.dma.ctlr.channels (params.rxv ch) : ℤ) ≤ _ :=
    granted_le_quotaSum s.dma.ctlr.channels (params.rxv_rx ch hlt)
  have hrx := hdivided.rx
  have hbounds := h.division.bounds hdivided
  have hgranted : granted s.dma.ctlr.channels (params.rxv ch) = n := by
    unfold granted
    rw [show (s.dma.ctlr.channels (params.rxv ch)).map CpdmaChan.descNum = some n from hn]
    rfl
  omega

/-- With pages at hand the rx channels are filled up to their quotas. -/
theorem Suspended.fill (h : Suspended params s) {ans : OpenStop.Answers}
    (hpages : PagesOk params ans) :
    ∃ c, cpswFillRxChannels params.toCpswParams ans s = ({ s with dma := c }, 0) ∧
      AtRest params.cpdma c ∧ c.ctlr.state = .idle ∧ SamePool s.dma.ctlr c.ctlr ∧
      ∀ ch < params.rxChNum,
        some (countOf c.ctlr.channels (params.rxv ch)) = chanQuota c (params.rxv ch) := by
  have hready : ∀ ch ∈ List.range params.rxChNum, ∃ n,
      chanQuota s.dma (params.rxv ch) = some n ∧
      countOf s.dma.ctlr.channels (params.rxv ch) = 0 ∧ ∀ i < n, (ans.allocPage ch i).isSome := by
    intro ch hmem
    have hlt := List.mem_range.mp hmem
    obtain ⟨n, hn⟩ := chanQuota_of_some (h.division.chans ch hlt)
    have hle := h.quota_le hlt hn
    exact ⟨n, hn, h.empty _, fun i hi => hpages ch hlt i (by omega)⟩
  obtain ⟨c, hc, hgrown, hfull, -⟩ := fillChans_ok (List.range params.rxChNum) h.rest
    List.nodup_range (fun ch hmem => List.mem_range.mp hmem) hready
  have hpool := fillChans_samePool params.toCpswParams ans (List.range params.rxChNum) s.dma
  rw [hc] at hpool
  refine ⟨c, ?_, hgrown.rest, hgrown.state.trans h.idle, hpool,
    fun ch hlt => hfull ch (List.mem_range.mpr hlt)⟩
  unfold cpswFillRxChannels
  rw [hc]

/-- The pass of data goes on: the resumed driver is one between calls. -/
theorem Suspended.resume (h : Suspended params s) {ans : OpenStop.Answers}
    (hpages : 0 < s.usageCount → PagesOk params ans)
    (hpools : 0 < s.usageCount → ∀ ch < params.rxChNum,
      s.pagePool ch = chanQuota s.dma (params.rxv ch)) {ret : ℤ}
    (hst : cpswResumeDataPass params ans s = some (t, ret)) :
    ret = 0 ∧ Inv params t ∧ t.opened = s.opened ∧ SamePool s.dma.ctlr t.dma.ctlr := by
  unfold cpswResumeDataPass at hst
  by_cases husage : s.usageCount = 0
  · rw [if_neg (not_not.mpr husage)] at hst
    obtain ⟨rfl, rfl⟩ := Prod.mk.inj (Option.some.inj hst)
    have hnone : ¬ 0 < s.usageCount := by omega
    have hinv := h.inv hnone
    exact ⟨rfl, ⟨hinv.books, hinv.division, fun hpos => absurd hpos hnone, hinv.empty⟩, rfl,
      .refl _⟩
  · have hpos : 0 < s.usageCount := by
      have hports := openPorts_nonneg s
      have hbooks := h.usage
      omega
    obtain ⟨c, hfill, hrest, hidle, hpool, hfull⟩ := h.fill (hpages hpos)
    rw [if_pos husage, hfill] at hst
    unfold ctlrStart at hst
    simp only [ne_eq, not_true_eq_false, if_false, Option.map_map] at hst
    obtain ⟨⟨d, r⟩, hd, hres⟩ := Option.map_eq_some_iff.mp hst
    obtain ⟨rfl, rfl⟩ := Prod.mk.inj hres
    have hnot : c.ctlr.state ≠ .teardown := by
      rw [hidle]
      exact fun hne => by cases hne
    obtain ⟨hrest', hactive, hsteady⟩ := cpdmaCtlrStart_starts hrest hnot hd
    have hstart : SamePool c.ctlr d.ctlr := cpdmaCtlrStart_samePool hd
    have hall := hpool.trans hstart
    have hquota : ∀ ch, chanQuota d ch = chanQuota s.dma ch := hall.quota
    have hdivision := h.division.samePool hall
    have hnapi := h.napi
    rw [decide_eq_true hpos] at hnapi
    have hfilled : ∀ ch < params.rxChNum,
        some (countOf d.ctlr.channels (params.rxv ch)) = chanQuota d (params.rxv ch) := by
      intro ch hlt
      rw [(hsteady _).agree.countOf, hfull ch hlt]
      exact (hstart.quota _).symm
    refine ⟨rfl, ⟨⟨hrest', fun ch hlt => chanQuota_of_some (hdivision.chans ch hlt), h.usage, h.pm,
      h.misuse, fun _ => ⟨fun ch hlt => ?_, hfilled, hnapi, hactive⟩,
      fun hneg => absurd hpos hneg⟩, hdivision, fun _ => ⟨fun ch hlt => ?_, rfl⟩,
      fun hneg => absurd hpos hneg⟩, rfl, hall⟩
    · obtain ⟨n, hn⟩ := chanQuota_of_some (h.division.chans ch hlt)
      exact Option.isSome_iff_exists.mpr ⟨n, (hpools hpos ch hlt).trans hn⟩
    · exact (hpools hpos ch hlt).trans (hquota _).symm

theorem Suspended.ndoStop (h : Suspended params s) {sched : List (Cpdma.Op ℕ)} {p : Port}
    (hopen : s.opened p = true) (hst : OpenStop.step params.toCpswParams s (.ndoStop p sched) = some t) :
    Suspended params t ∧ t.opened = Function.update s.opened p false ∧
      SamePool s.dma.ctlr t.dma.ctlr := by
  have hports := openPorts_stop hopen
  have hpos := openPorts_pos hopen
  simp only [OpenStop.step, hopen, if_true] at hst
  obtain ⟨u, hu, rfl⟩ := Option.map_eq_some_iff.mp hst
  unfold cpswNdoStop at hu
  dsimp only at hu
  obtain ⟨v, hv, rfl⟩ := Option.map_eq_some_iff.mp hu
  have husage : s.usageCount - 1 = openPorts { s with
      opened := Function.update s.opened p false } := by
    rw [hports, h.usage]
  have hpm : s.pmUsage - 1 = openPorts { s with
      opened := Function.update s.opened p false } := by
    rw [hports, h.pm]
  split at hv
  · rename_i hle
    unfold ctlrStop at hv
    rw [Option.map_map] at hv
    obtain ⟨⟨c, r⟩, hc, rfl⟩ := Option.map_eq_some_iff.mp hv
    have hidle : s.dma.ctlr.state ≠ .active := by
      rw [h.idle]
      exact fun hne => by cases hne
    obtain ⟨hrest, hstate, hsteady⟩ := cpdmaCtlrStop_refused h.rest hidle hc
    have hpool : SamePool s.dma.ctlr c.ctlr := cpdmaCtlrStop_samePool hc
    have hnapi := h.napi
    have hone : 0 < s.usageCount := by
      rw [h.usage]
      exact hpos
    have hnone : decide (0 < s.usageCount - 1) = false := decide_eq_false (by omega)
    rw [decide_eq_true hone] at hnapi
    refine ⟨⟨hrest, hstate.trans h.idle, allEmpty_of_steady hsteady h.empty,
      h.division.samePool hpool, husage, hpm, ?_, ⟨hnone.symm, hnone.symm⟩,
      fun _ ch hlt => if_pos hlt⟩, rfl, hpool⟩
    change (s.napiMisuse || !s.napiRx || !s.napiTx) = false
    rw [h.misuse, hnapi.1, hnapi.2]
    rfl
  · rename_i hgt
    obtain rfl := Option.some.inj hv
    have hnapi := h.napi
    have hone : decide (0 < s.usageCount - 1) = decide (0 < s.usageCount) := by
      rw [decide_eq_decide]
      omega
    refine ⟨⟨h.rest, h.idle, h.empty, h.division, husage, hpm, h.misuse, ?_, fun hneg => ?_⟩,
      rfl, .refl _⟩
    · exact ⟨hnapi.1.trans hone.symm, hnapi.2.trans hone.symm⟩
    · exact absurd (show 0 < s.usageCount - 1 by omega) hneg

theorem Suspended.devClose (h : Suspended params s) {sched : List (Cpdma.Op ℕ)} {p : Port}
    (hst : Rings.devClose params sched s p = some t) :
    Suspended params t ∧ t.opened = Function.update s.opened p false ∧
      SamePool s.dma.ctlr t.dma.ctlr := by
  unfold Rings.devClose at hst
  split at hst
  · exact h.ndoStop ‹_› hst
  · rename_i hclosed
    obtain rfl := Option.some.inj hst
    have hsame : Function.update s.opened p false = s.opened := by
      rw [Function.update_eq_self_iff]
      simpa using hclosed
    exact ⟨h, hsame.symm, .refl _⟩

/-- Every device is closed, and nothing is left of what was open. -/
theorem Suspended.fail (h : Suspended params s) {sched : Port → List (Cpdma.Op ℕ)}
    (hst : cpswFail params sched s = some t) :
    Inv params t ∧ t.opened = (fun _ => false) ∧ SamePool s.dma.ctlr t.dma.ctlr := by
  obtain ⟨u, hu, ht⟩ := Option.bind_eq_some_iff.mp hst
  obtain ⟨hsusp, hopened, hpool⟩ := h.devClose hu
  obtain ⟨hsusp', hopened', hpool'⟩ := hsusp.devClose ht
  have hall : t.opened = fun _ => false := by
    rw [hopened', hopened]
    funext p
    match p with
    | 0 => rfl
    | 1 => rfl
  have husage : ¬ 0 < t.usageCount := by
    rw [hsusp'.usage]
    simp [openPorts, hall]
  exact ⟨hsusp'.inv husage, hall, hpool.trans hpool'⟩

/-- A resizing that fails brings the old size back. -/
theorem Suspended.giveUp (h : Suspended params s) {ans : Answers} {descsNum ret ret' : ℤ}
    (hfew : (params.rxChNum : ℤ) ≤ descsNum) (hlt : descsNum < params.cpdma.pool.numDesc)
    (hover : ¬OverWeight s.dma.ctlr) (hst : Rings.giveUp params ans s descsNum ret = some (t, ret')) :
    ret' = ret ∧ Inv params t ∧ t.opened = (fun _ => false) ∧ t.dma.ctlr.numRxDesc = descsNum := by
  obtain ⟨u, hu, hres⟩ := Option.map_eq_some_iff.mp hst
  obtain ⟨rfl, rfl⟩ := Prod.mk.inj hres
  obtain ⟨hsusp, hcases⟩ := h.setNumRxDescs hfew hlt
  obtain ⟨hinv, hopened, hpool⟩ := hsusp.fail hu
  rcases hcases with ⟨-, -, hnum, -⟩ | ⟨hret, -⟩
  · exact ⟨rfl, hinv, hopened, hpool.numRx.trans hnum⟩
  · obtain ⟨ctlr, -, hset⟩ := setNumRxDescs_frame params s descsNum
    have hpos : 0 < descsNum := by
      have := params.rxChNum_pos
      omega
    rcases cpdmaSetNumRxDescs_cases h.division.chanNum h.division.parts hpos with
      ⟨-, hover'⟩ | ⟨-, hret', -⟩
    · exact absurd hover' hover
    · rw [hset] at hret'
      exact absurd hret' hret

/-- A size that is admitted leaves both directions descriptors. -/
theorem admits_bounds {ering : Ringparam} (h : admits params ering = true) :
    ering.rxPending.toInt = ering.rxPending.toNat ∧ cpswMaxQueues ≤ ering.rxPending.toNat ∧
      (ering.rxPending.toNat : ℤ) + cpswMaxQueues ≤ params.cpdma.pool.numDesc := by
  have hpool := params.descsPoolSize_eq
  have hlt := params.descsPoolSize_lt
  have hmax := params.maxQueues_le
  have hwrap : (BitVec.ofInt 32 (params.descsPoolSize - cpswMaxQueues)).toNat =
      (params.descsPoolSize - cpswMaxQueues).toNat := by
    rw [BitVec.toNat_ofInt]
    omega
  unfold admits at h
  rw [hwrap] at h
  simp only [Bool.not_eq_true', Bool.or_eq_false_iff, decide_eq_false_iff_not] at h
  obtain ⟨⟨-, hlow⟩, hhigh⟩ := h
  refine ⟨BitVec.toInt_eq_toNat_of_lt (by omega), by omega, by omega⟩

def Resized (s t : State) (num ret : ℤ) : Prop :=
  (ret = 0 ∧ t.dma.ctlr.numRxDesc = num ∧ t.opened = s.opened) ∨
    (ret ≠ 0 ∧ t.dma.ctlr.numRxDesc = s.dma.ctlr.numRxDesc ∧
      (t.opened = s.opened ∨ t.opened = fun _ => false))

theorem Inv.resize (h : Inv params s) {ering : Ringparam} {ans : Answers}
    (hadmits : admits params ering = true) (hpages : 0 < s.usageCount → PagesOk params ans.resume)
    {ret : ℤ} (hst : Rings.resize params ans s ering = some (t, ret)) :
    Inv params t ∧ Resized s t ering.rxPending.toInt ret := by
  obtain ⟨hint, hlow, hhigh⟩ := admits_bounds hadmits
  have hqueues := params.rxChNum_le
  have hfew := h.division.few
  have hbounds := h.division.bounds h.books.rest.sound.fair.divided
  unfold Rings.resize at hst
  obtain ⟨s₁, hs₁, hst⟩ := Option.bind_eq_some_iff.mp hst
  obtain ⟨hsusp, husage, hopened, hpools, hpool⟩ := h.suspend hs₁
  have hmax : cpswMaxQueues = 8 := rfl
  have hnumlow : (params.rxChNum : ℤ) ≤ ering.rxPending.toInt := by omega
  have hnumhigh : ering.rxPending.toInt < params.cpdma.pool.numDesc := by omega
  obtain ⟨hsusp₂, hcases⟩ := hsusp.setNumRxDescs hnumlow hnumhigh
  obtain ⟨ctlr, hframe, -⟩ := setNumRxDescs_frame params s₁ ering.rxPending.toInt
  have husage₂ : (setNumRxDescs params s₁ ering.rxPending.toInt).1.usageCount = s.usageCount := by
    rw [hframe]
    exact husage
  have hopened₂ : (setNumRxDescs params s₁ ering.rxPending.toInt).1.opened = s.opened := by
    rw [hframe]
    exact hopened
  dsimp only at hst
  generalize setNumRxDescs params s₁ ering.rxPending.toInt = r at *
  rcases hcases with ⟨hret, hover, hnum, hover₂⟩ | ⟨hret, hsame⟩
  · rw [if_neg (not_not.mpr hret)] at hst
    obtain ⟨hsusp₃, husage₃, hopened₃, hdma₃, hsizes⟩ := hsusp₂.replacePools ans
    generalize replacePools params ans r.1 = r' at *
    split at hst
    · have hover₃ : ¬OverWeight r'.1.dma.ctlr := by
        rw [hdma₃]
        exact hover₂
      obtain ⟨rfl, hinv, hclosed, hback⟩ := hsusp₃.giveUp hfew hbounds.2 hover₃ hst
      exact ⟨hinv, .inr ⟨‹_›, hback, .inr hclosed⟩⟩
    · rename_i hret'
      obtain ⟨⟨s₄, ret₄⟩, hs₄, hst⟩ := Option.bind_eq_some_iff.mp hst
      have hsize := hsizes (not_not.mp hret')
      rw [← hdma₃, ← husage₃] at hsize
      obtain ⟨rfl, hinv, hopened₄, hpool₄⟩ := hsusp₃.resume
        (fun hpos => hpages (by omega)) hsize hs₄
      rw [if_pos rfl] at hst
      obtain ⟨rfl, rfl⟩ := Prod.mk.inj (Option.some.inj hst)
      refine ⟨hinv, .inl ⟨rfl, ?_, hopened₄.trans (hopened₃.trans hopened₂)⟩⟩
      rw [hpool₄.numRx, hdma₃, hnum]
  · rw [if_pos hret] at hst
    obtain ⟨⟨s₄, ret₄⟩, hs₄, hst⟩ := Option.bind_eq_some_iff.mp hst
    have hsize : 0 < r.1.usageCount → ∀ ch < params.rxChNum,
        r.1.pagePool ch = chanQuota r.1.dma (params.rxv ch) := by
      intro hpos ch hlt
      rw [hsame, hpools, (h.running (by omega)).pools ch hlt]
      exact (hpool.quota _).symm
    obtain ⟨rfl, hinv, hopened₄, hpool₄⟩ := hsusp₂.resume
      (fun hpos => hpages (by omega)) hsize hs₄
    rw [if_neg (not_not.mpr rfl)] at hst
    obtain ⟨rfl, rfl⟩ := Prod.mk.inj (Option.some.inj hst)
    refine ⟨hinv, .inr ⟨hret, ?_, .inl (hopened₄.trans hopened₂)⟩⟩
    rw [hpool₄.numRx, hsame, hpool.numRx]

/-- What an open that succeeds leaves besides what `OpenStop` says of it. -/
structure Opens (params : CpswParams) (s t : OpenStop.State) : Prop where
  pool : SamePool s.dma.ctlr t.dma.ctlr
  intr : t.intr = true
  first : s.usageCount = 0 → ∀ ch < params.rxChNum, t.pagePool ch = some (rxBufNum params s ch)
  later : s.usageCount ≠ 0 → t.pagePool = s.pagePool

theorem openEnd_keeps {params : CpswParams} {ans : OpenStop.Answers} {s t : OpenStop.State}
    {ret : ℤ} (hst : openEnd params ans s = some (t, ret)) :
    ∃ c, t = { s with dma := c, intr := true, usageCount := s.usageCount + 1 } ∧
      SamePool s.dma.ctlr c.ctlr := by
  unfold openEnd ctlrStart at hst
  rw [Option.map_map] at hst
  obtain ⟨⟨c, r⟩, hc, hres⟩ := Option.map_eq_some_iff.mp hst
  obtain ⟨rfl, rfl⟩ := Prod.mk.inj hres
  exact ⟨c, rfl, cpdmaCtlrStart_samePool hc⟩

theorem errCleanup_ret {params : CpswParams} {ans : OpenStop.Answers} {s t : OpenStop.State}
    {p : Port} {ret ret' : ℤ} (hst : errCleanup params ans s p ret = some (t, ret')) :
    ret' = ret := by
  obtain ⟨u, -, hres⟩ := Option.map_eq_some_iff.mp hst
  exact (Prod.mk.inj hres).2.symm

theorem openShared_keeps {params : CpswParams} {ans : OpenStop.Answers} {s t : OpenStop.State}
    {p : Port} (hst : openShared params ans s p = some (t, 0)) :
    SamePool s.dma.ctlr t.dma.ctlr ∧ t.intr = true ∧
      ∀ ch < params.rxChNum, t.pagePool ch = some (rxBufNum params s ch) := by
  obtain ⟨pools, rxqs, ret, hle, hcreate, hsizes⟩ := cpswCreateXdpRxqs_frame params ans s
  unfold openShared at hst
  rw [hcreate] at hst
  dsimp only at hst
  split at hst
  · exact absurd (errCleanup_ret hst) (by omega)
  rename_i hret
  have hfill := fillChans_samePool params ans (List.range params.rxChNum) s.dma
  unfold cpswFillRxChannels at hst
  dsimp only at hst
  split at hst
  · exact absurd (errCleanup_ret hst) (by omega)
  obtain ⟨c, rfl, hstart⟩ := openEnd_keeps hst
  exact ⟨hfill.trans hstart, rfl, hsizes (by omega)⟩

theorem cpswNdoOpen_keeps {params : CpswParams} {ans : OpenStop.Answers} {s t : OpenStop.State}
    {p : Port} (hst : cpswNdoOpen params ans s p = some (t, 0)) : Opens params s t := by
  unfold cpswNdoOpen at hst
  split at hst
  · have hret := (Prod.mk.inj (Option.some.inj hst)).2
    exact absurd hret (by omega)
  dsimp only at hst
  split at hst
  · have hret := (Prod.mk.inj (Option.some.inj hst)).2
    exact absurd hret (by omega)
  split at hst
  · have hret := (Prod.mk.inj (Option.some.inj hst)).2
    exact absurd hret (by omega)
  split at hst
  · rename_i husage
    obtain ⟨hpool, hintr, hsizes⟩ := openShared_keeps hst
    exact ⟨hpool, hintr, fun _ => hsizes, fun hne => absurd husage hne⟩
  · rename_i husage
    obtain ⟨c, rfl, hpool⟩ := openEnd_keeps hst
    exact ⟨hpool, rfl, fun heq => absurd heq husage, fun _ => rfl⟩

theorem Inv.ndoOpen (h : Inv params s) {p : Port} {ans : OpenStop.Answers}
    (hok : OpenStop.Covered params.toCpswParams s (.ndoOpen p ans))
    (hst : Rings.step params s (.ndoOpen p ans) = some t) : Inv params t := by
  have hbooks := h.books.ndoOpen hok hst
  simp only [Rings.step, OpenStop.step] at hst
  split at hst
  · cases hst
  obtain ⟨⟨v, ret⟩, hv, rfl⟩ := Option.map_eq_some_iff.mp hst
  rcases cpswNdoOpen_spec h.books hok hv with ⟨-, rfl, -⟩ | ⟨rfl, ho⟩
  · exact ⟨hbooks, h.division, fun hpos => ⟨(h.running hpos).pools, (h.running hpos).intr⟩, h.empty⟩
  · have hopens := cpswNdoOpen_keeps hv
    have hports := openPorts_nonneg s
    have husage := ho.usage
    have hsusage := h.books.usage
    refine ⟨hbooks, h.division.samePool hopens.pool, fun _ => ⟨fun ch hlt => ?_, hopens.intr⟩,
      fun hneg => absurd (show 0 < v.usageCount by omega) hneg⟩
    by_cases hfirst : s.usageCount = 0
    · obtain ⟨n, hn⟩ := chanQuota_of_some (h.division.chans ch hlt)
      refine (hopens.first hfirst ch hlt).trans ?_
      rw [rxBufNum_eq hn, ← hn]
      exact (ho.quota _).symm
    · have hrunning := h.running (by omega)
      refine (congrFun (hopens.later hfirst) ch).trans ((hrunning.pools ch hlt).trans ?_)
      exact (ho.quota _).symm

theorem Inv.ndoStop (h : Inv params s) {p : Port} {sched : List (Cpdma.Op ℕ)}
    (hst : Rings.step params s (.ndoStop p sched) = some t) : Inv params t := by
  have hbooks := h.books.ndoStop hst
  simp only [Rings.step, OpenStop.step] at hst
  split at hst
  swap
  · cases hst
  rename_i hopen
  have hpos : 0 < s.usageCount := by
    rw [h.books.usage]
    exact openPorts_pos hopen
  have hup := h.books.up hpos
  have hrunning := h.running hpos
  obtain ⟨v, hv, rfl⟩ := Option.map_eq_some_iff.mp hst
  unfold cpswNdoStop at hv
  dsimp only at hv
  obtain ⟨w, hw, rfl⟩ := Option.map_eq_some_iff.mp hv
  split at hw
  · rename_i hle
    unfold ctlrStop at hw
    rw [Option.map_map] at hw
    obtain ⟨⟨c, r⟩, hc, rfl⟩ := Option.map_eq_some_iff.mp hw
    obtain ⟨hrest, hdrained, -⟩ := cpdmaCtlrStop_drains h.books.rest hup.active hc
    have hnone : ¬ 0 < s.usageCount - 1 := by omega
    exact ⟨hbooks, h.division.samePool (cpdmaCtlrStop_samePool hc), fun hlt => absurd hlt hnone,
      fun _ => allEmpty_of_drained hrest hdrained⟩
  · rename_i hgt
    obtain rfl := Option.some.inj hw
    exact ⟨hbooks, h.division, fun _ => ⟨hrunning.pools, hrunning.intr⟩,
      fun hneg => absurd (show 0 < s.usageCount - 1 by omega) hneg⟩

/-- The receive side is as it was, and the controller is what it was. -/
structure Unmoved (params : RingParams) (c c' : Cpdma.State ℕ) : Prop where
  rest : AtRest params.cpdma c'
  state : c'.ctlr.state = c.ctlr.state
  pool : RxSame c.ctlr c'.ctlr
  division : Division params c'.ctlr
  count : ∀ ch, isRxChan ch = true → countOf c'.ctlr.channels ch = countOf c.ctlr.channels ch

theorem Unmoved.chanQuota {c c' : Cpdma.State ℕ} (h : Unmoved params c c')
    (hdivision : Division params c.ctlr) {ch : ℕ} (hlt : ch < params.rxChNum) :
    chanQuota c' (params.rxv ch) = chanQuota c (params.rxv ch) := by
  obtain ⟨n, hn⟩ := chanQuota_of_some (hdivision.chans ch hlt)
  obtain ⟨m, hm⟩ := chanQuota_of_some (h.division.chans ch hlt)
  have hquota := h.pool.quota _ (params.rxv_rx ch hlt)
  unfold quotaOf at hquota
  unfold CpswDriver.Cpdma.chanQuota at hn hm
  rw [hn, hm, Option.getD_some, Option.getD_some] at hquota
  rw [CpswDriver.Cpdma.chanQuota, CpswDriver.Cpdma.chanQuota, hn, hm, hquota]

/-- What does not touch the receive side keeps the invariant. -/
theorem Inv.unmoved (h : Inv params s) {c : Cpdma.State ℕ} (hc : Unmoved params s.dma c)
    (hempty : ¬ 0 < s.usageCount → AllEmpty c) : Inv params (withDma s c) := by
  refine ⟨⟨hc.rest, fun ch hlt => chanQuota_of_some (hc.division.chans ch hlt), h.books.usage,
    h.books.pm, h.books.napi, fun hpos => ?_, fun hneg => ?_⟩, hc.division, fun hpos => ?_, hempty⟩
  · have hup := h.books.up hpos
    refine ⟨hup.pools, fun ch hlt => ?_, hup.napi, hc.state.trans hup.active⟩
    exact (congrArg some (hc.count _ (params.rxv_rx ch hlt))).trans
      ((hup.filled ch hlt).trans (hc.chanQuota h.division hlt).symm)
  · have hdown := h.books.down hneg
    exact ⟨hdown.pools, fun ch hlt => hempty hneg _, hdown.napi, hc.state.trans hdown.idle⟩
  · have hrunning := h.running hpos
    exact ⟨fun ch hlt => (hrunning.pools ch hlt).trans (hc.chanQuota h.division hlt).symm,
      hrunning.intr⟩

theorem Inv.open_pos (h : Inv params s) {p : Port} (hp : s.opened p = true) :
    0 < s.usageCount := by
  rw [h.books.usage]
  exact openPorts_pos hp

theorem Inv.xmit (h : Inv params s) {p : Port} {ch : ChanId} {args : SubmitArgs ℕ}
    {mapped : Option U32} (hlen : args.len < 2 ^ 16)
    (hst : Rings.step params s (.xmit p ch args mapped) = some t) : Inv params t := by
  simp only [Rings.step] at hst
  split at hst
  swap
  · cases hst
  rename_i hcond
  obtain ⟨hopen, htx⟩ := Bool.and_eq_true_iff.mp hcond
  obtain ⟨c, hc, rfl⟩ := Option.map_eq_some_iff.mp hst
  have hpool := step_samePool (show LenOk s.dma (.submit .submit ch args mapped) from hlen) rfl hc
  obtain ⟨chan, hch, rfl⟩ := Option.map_eq_some_iff.mp hc
  obtain ⟨hrest, hstate, hothers⟩ := h.books.rest.submitted .submit mapped hch hlen
  refine h.unmoved ⟨hrest, hstate, hpool.rxSame, h.division.samePool hpool, fun ch' hrx => ?_⟩
    fun hneg => absurd (h.open_pos hopen) hneg
  refine hothers ch' ?_
  rintro rfl
  rw [hrx] at htx
  cases htx

theorem Inv.txPoll (h : Inv params s) {ch : ChanId} {quota : ℤ} {sched : List (Cpdma.Op ℕ)}
    (hst : Rings.step params s (.txPoll ch quota sched) = some t) : Inv params t := by
  simp only [Rings.step] at hst
  split at hst
  swap
  · cases hst
  rename_i hcond
  obtain ⟨hnapi, htx⟩ := Bool.and_eq_true_iff.mp hcond
  obtain ⟨⟨c, r⟩, hc, rfl⟩ := Option.map_eq_some_iff.mp hst
  have hpool : SamePool s.dma.ctlr c.ctlr :=
    samePool_of_call (show LenOk s.dma (.chanProcess ch quota) from trivial) rfl hc
  obtain ⟨hrest, hstate, hothers⟩ := h.books.rest.processed hc
  have hpos : 0 < s.usageCount := by
    by_contra hneg
    rw [(h.books.down hneg).napi.2] at hnapi
    cases hnapi
  refine h.unmoved ⟨hrest, hstate, hpool.rxSame, h.division.samePool hpool, fun ch' hrx => ?_⟩
    fun hneg => absurd hpos hneg
  refine hothers ch' ?_
  rintro rfl
  rw [hrx] at htx
  cases htx

/-- A weight for a tx channel leaves the rx channels what they have. -/
theorem Division.setWeight {c : CpdmaCtlr ℕ} (h : Division params c) {ch : ChanId}
    (htx : isRxChan ch = false) (chan : CpdmaChan) (weight : ℤ) :
    Division params (cpdmaChanSetWeight c ch chan weight).1 := by
  have hsame := cpdmaChanSetWeight_rx h.settled h.chanNum htx chan weight
  have hframe : (cpdmaChanSetWeight c ch chan weight).1.chanNum = c.chanNum ∧
      (cpdmaChanSetWeight c ch chan weight).1.numTxDesc = c.numTxDesc := by
    unfold cpdmaChanSetWeight
    split
    · exact ⟨rfl, rfl⟩
    · obtain ⟨channels, -, hframe⟩ :=
        cpdmaChanSplitPool_frame (c.setChan ch { chan with weight := weight })
      rw [hframe]
      exact ⟨rfl, rfl⟩
  have hsome : ∀ ch', isRxChan ch' = true →
      ((cpdmaChanSetWeight c ch chan weight).1.channels ch').isSome = (c.channels ch').isSome := by
    intro ch' hrx
    rw [← Option.isSome_map (f := CpdmaChan.weight), hsame.weights ch' hrx, Option.isSome_map]
  refine ⟨h.settled.same hsame, ?_, ?_, fun ch' hrx => ?_, fun i hlt => ?_, fun ch' hrx hch => ?_, ?_⟩
  · rw [hframe.1]
    exact h.chanNum
  · rw [hframe.2, hsame.numRx]
    exact h.parts
  · unfold weightOf
    rw [hsame.weights ch' hrx]
    exact h.weight ch' hrx
  · rw [hsome _ (params.rxv_rx i hlt)]
    exact h.chans i hlt
  · rw [hsome ch' hrx] at hch
    exact h.all ch' hrx hch
  · rw [hsame.numRx]
    exact h.few

/-- The new quotas of the tx channels cover what these hold. -/
def WeightOk (s : State) (ch : ChanId) (weight : ℤ) : Prop :=
  0 ≤ weight ∧ ∀ chan, s.dma.ctlr.channels ch = some chan → ∀ ch', isRxChan ch' = false →
    countOf s.dma.ctlr.channels ch' ≤
      quotaOf (cpdmaChanSetWeight s.dma.ctlr ch chan weight).1.channels ch'

theorem Inv.setWeight (h : Inv params s) {ch : ChanId} {weight : ℤ} (hok : WeightOk s ch weight)
    (hst : Rings.step params s (.setWeight ch weight) = some t) : Inv params t := by
  simp only [Rings.step, Cpdma.step] at hst
  split at hst
  swap
  · cases hst
  rename_i hnot
  have htx : isRxChan ch = false := by simpa using hnot
  rw [if_neg (not_not.mpr h.books.rest.lock), Option.map_map] at hst
  obtain ⟨chan, hch, rfl⟩ := Option.map_eq_some_iff.mp hst
  have hsame := cpdmaChanSetWeight_rx h.division.settled h.division.chanNum htx chan weight
  have hcount : ∀ ch', countOf (cpdmaChanSetWeight s.dma.ctlr ch chan weight).1.channels ch' =
      countOf s.dma.ctlr.channels ch' :=
    fun ch' => ((cpdmaChanSetWeight_resplit hch weight).chans ch').countOf
  have hfits : ∀ ch', countOf s.dma.ctlr.channels ch' ≤
      quotaOf (cpdmaChanSetWeight s.dma.ctlr ch chan weight).1.channels ch' := by
    intro ch'
    cases hrx : isRxChan ch' with
    | false => exact hok.2 chan hch ch' hrx
    | true =>
      rw [hsame.quota ch' hrx, ← h.books.rest.heldCount]
      exact h.books.rest.sound.fair.fits ch'
  refine h.unmoved ⟨h.books.rest.setWeight hch hok.1 hfits,
    (cpdmaChanSetWeight_states hch weight).1, hsame, h.division.setWeight htx chan weight,
    fun ch' _ => hcount ch'⟩ fun hneg ch' => ?_
  exact (hcount ch').trans (h.empty hneg ch')

theorem Inv.engine (h : Inv params s) {op : Cpdma.Op ℕ}
    (hst : Rings.step params s (.engine op) = some t) : Inv params t := by
  simp only [Rings.step, OpenStop.step] at hst
  split at hst
  swap
  · cases hst
  rename_i hop
  obtain ⟨c, hc, rfl⟩ := Option.map_eq_some_iff.mp hst
  obtain ⟨hrest, he⟩ := h.books.rest.engine hop hc
  have hpool : SamePool s.dma.ctlr c.ctlr := by
    cases op with
    | engine d hwMode hwLen =>
      exact step_samePool (show LenOk s.dma (.engine d hwMode hwLen) from trivial) rfl hc
    | engineHdp ch hdp =>
      exact step_samePool (show LenOk s.dma (.engineHdp ch hdp) from trivial) rfl hc
    | _ => cases hop
  refine h.unmoved ⟨hrest, he.state, hpool.rxSame, h.division.samePool hpool,
    fun ch _ => (he.steady ch).agree.countOf⟩ fun hneg => ?_
  exact allEmpty_of_steady he.steady (h.empty hneg)

theorem Inv.withRet (h : Inv params s) (ret : ℤ) : Inv params { s with ret := ret } := by
  have hbooks := h.books
  refine ⟨⟨hbooks.rest, hbooks.chans, hbooks.usage, hbooks.pm, hbooks.napi, fun hpos => ?_,
    fun hneg => ?_⟩, h.division, fun hpos => ⟨(h.running hpos).pools, (h.running hpos).intr⟩, h.empty⟩
  · have hup := hbooks.up hpos
    exact ⟨hup.pools, hup.filled, hup.napi, hup.active⟩
  · have hdown := hbooks.down hneg
    exact ⟨hdown.pools, hdown.empty, hdown.napi, hdown.idle⟩

theorem Inv.numRx (h : Inv params s) : (cpswGetRingparam params s).rxPending.toInt =
    s.dma.ctlr.numRxDesc := by
  have hbounds := h.division.bounds h.books.rest.sound.fair.divided
  have hpool := pool_lt params
  change (BitVec.ofInt 32 s.dma.ctlr.numRxDesc).toInt = _
  rw [BitVec.toInt_ofInt, Int.bmod_eq_of_le] <;> omega

theorem Inv.setRingparam (h : Inv params s) {ering : Ringparam} {ans : Answers}
    (hpages : 0 < s.usageCount → PagesOk params ans.resume)
    (hst : Rings.step params s (.setRingparam ering ans) = some t) :
    Inv params t ∧ Resized s t ering.rxPending.toInt t.ret := by
  obtain ⟨⟨u, ret⟩, hu, rfl⟩ := Option.map_eq_some_iff.mp hst
  unfold cpswSetRingparam at hu
  split at hu
  · obtain ⟨rfl, rfl⟩ := Prod.mk.inj (Option.some.inj hu)
    exact ⟨h.withRet _, .inr ⟨show -einval ≠ 0 by decide, rfl, .inl rfl⟩⟩
  rename_i hadmits
  split at hu
  · rename_i hsame
    obtain ⟨rfl, rfl⟩ := Prod.mk.inj (Option.some.inj hu)
    refine ⟨h.withRet 0, .inl ⟨rfl, ?_, rfl⟩⟩
    rw [hsame]
    exact h.numRx.symm
  · obtain ⟨hinv, hresized⟩ := h.resize (by simpa using hadmits) hpages hu
    exact ⟨hinv.withRet ret, hresized⟩

/-- The first open gets what it asks for, a resizing of open devices gets its pages, and no tx
channel is left with fewer descriptors than it holds. -/
def Covered (params : RingParams) (s : State) : Op → Prop
  | .ndoOpen p ans => OpenStop.Covered params.toCpswParams s (.ndoOpen p ans)
  | .setRingparam _ ans => 0 < s.usageCount → PagesOk params ans.resume
  | .xmit _ _ args _ => args.len < 2 ^ 16
  | .setWeight ch weight => WeightOk s ch weight
  | _ => True

instance (s : State) (ch : ChanId) (weight : ℤ) : Decidable (WeightOk s ch weight) :=
  decidable_of_iff (0 ≤ weight ∧ (s.dma.ctlr.channels ch).all fun chan =>
    decide (∀ ch', isRxChan ch' = false → countOf s.dma.ctlr.channels ch' ≤
      quotaOf (cpdmaChanSetWeight s.dma.ctlr ch chan weight).1.channels ch')) (by
        cases h : s.dma.ctlr.channels ch <;> simp [WeightOk, h])

instance (params : RingParams) (s : State) : DecidablePred (Covered params s)
  | .ndoOpen p ans =>
    inferInstanceAs (Decidable (OpenStop.Covered params.toCpswParams s (.ndoOpen p ans)))
  | .setRingparam _ ans => inferInstanceAs (Decidable (0 < s.usageCount → PagesOk params ans.resume))
  | .xmit _ _ args _ => inferInstanceAs (Decidable (args.len < 2 ^ 16))
  | .setWeight ch weight => inferInstanceAs (Decidable (WeightOk s ch weight))
  | .ndoStop .. | .txPoll .. | .engine .. => .isTrue trivial

/-- The driver after probe, with the pool divided between channels that are all there. -/
structure Initial (params : RingParams) (s : State) : Prop where
  books : OpenStop.Initial params.toCpswParams s
  division : Division params s.dma.ctlr

theorem Inv.initial (h : Initial params s) : Inv params s := by
  have hbooks := OpenStop.Inv.initial h.books
  have hnone : ¬ 0 < s.usageCount := by
    rw [h.books.counts.1]
    exact lt_irrefl 0
  refine ⟨hbooks, h.division, fun hpos => absurd hpos hnone, fun _ ch => ?_⟩
  unfold countOf
  cases hch : s.dma.ctlr.channels ch with
  | none => rfl
  | some chan => exact (h.books.dma.chans ch chan hch).2.1

theorem Inv.of_run {s₀ : State} {ls : List Op} (hinit : Initial params s₀)
    (hrun : Run (Rings.step params) (Covered params) s₀ ls s) : Inv params s := by
  refine hrun.invariant (fun t op u h hok hst => ?_) (Inv.initial hinit)
  cases op with
  | ndoOpen p ans => exact h.ndoOpen hok hst
  | ndoStop p sched => exact h.ndoStop hst
  | setRingparam ering ans => exact (h.setRingparam hok hst).1
  | xmit p ch args mapped => exact h.xmit hok hst
  | txPoll ch quota sched => exact h.txPoll hst
  | setWeight ch weight => exact h.setWeight hok hst
  | engine op => exact h.engine hst

/-- Filled rx channels hold what the receive part of the pool has. -/
theorem Inv.heldSum (h : Inv params s) (hpos : 0 < s.usageCount) :
    (heldSum s.dma true : ℤ) = s.dma.ctlr.numRxDesc := by
  rw [← h.division.quotaSum h.books.rest.sound.fair.divided]
  unfold CpswDriver.Cpdma.heldSum CpswDriver.Cpdma.quotaSum
  congr 2
  refine List.map_congr_left fun ch hmem => ?_
  have hrx := mem_chanSlots.mp hmem
  rw [h.books.rest.heldCount]
  cases hch : s.dma.ctlr.channels ch with
  | none => simp [countOf, hch]
  | some chan =>
    obtain ⟨i, hlt, rfl⟩ := h.division.all ch hrx (by rw [hch]; rfl)
    have hfilled := (h.books.up hpos).filled i hlt
    simpa [countOf, chanQuota, granted, hch] using hfilled

/-- What is open, what the driver holds for it, and what a resizing does to it. -/
structure Provided (params : RingParams) (ok : State → Op → Prop) (s : State) : Prop where
  usage : s.usageCount = openPorts s
  pm : s.pmUsage = openPorts s
  napi : s.napiMisuse = false
  up : 0 < s.usageCount → Up params.toCpswParams s ∧ Running params s
  down : ¬ 0 < s.usageCount → Down params.toCpswParams s
  buffers : 0 < s.usageCount →
    (heldSum s.dma true : ℤ) = (cpswGetRingparam params s).rxPending.toInt
  resized : ∀ ering ans t, ok s (.setRingparam ering ans) →
    step params s (.setRingparam ering ans) = some t →
    (t.ret = 0 ∧ (cpswGetRingparam params t).rxPending = ering.rxPending ∧ t.opened = s.opened) ∨
    (t.ret ≠ 0 ∧ (cpswGetRingparam params t).rxPending = (cpswGetRingparam params s).rxPending ∧
      (t.opened = s.opened ∨ t.opened = fun _ => false))

/-- Through opens, stops, resizings and traffic an open driver keeps as many rx buffers with
the hardware as ethtool reports, and a resizing that fails leaves the old size. -/
theorem provided_of_run {s₀ : State} {ls : List Op} (hinit : Initial params s₀)
    (hrun : Run (step params) (Covered params) s₀ ls s) : Provided params (Covered params) s := by
  have h := Inv.of_run hinit hrun
  refine ⟨h.books.usage, h.books.pm, h.books.napi, fun hpos => ⟨h.books.up hpos, h.running hpos⟩,
    h.books.down, fun hpos => (h.heldSum hpos).trans h.numRx.symm, fun ering ans t hok hst => ?_⟩
  obtain ⟨-, hresized⟩ := h.setRingparam hok hst
  rcases hresized with ⟨hret, hnum, hopened⟩ | ⟨hret, hnum, hopened⟩
  · refine .inl ⟨hret, ?_, hopened⟩
    change BitVec.ofInt 32 t.dma.ctlr.numRxDesc = _
    rw [hnum, BitVec.ofInt_toInt]
  · exact .inr ⟨hret, congrArg (BitVec.ofInt 32) hnum, hopened⟩

theorem seventeen_le_smallPool : 17 ≤ 1024 := by decide

/-- One rx channel in a pool of seventeen descriptors, eight of them for receive. -/
def oneRing : RingParams where
  toCpswParams := { oneRx with cpdma := smallParams 17 seventeen_le_smallPool }
  descsPoolSize := 17
  rxChNum_pos := Nat.one_pos
  rxChNum_le := by decide
  maxQueues_le := by decide
  descsPoolSize_eq := rfl
  descsPoolSize_lt := by decide

def probed : State :=
  { OpenStop.probed with
    dma := quiet (smallParams 17 seventeen_le_smallPool) 0 .idle (onePair 9 8) 8 9 }

theorem initial_probed : Rings.Initial oneRing Rings.probed where
  books :=
    { dma := initial_quiet _ _ _ (idle_onePair 9 8) _ _
      divided := ⟨by decide, by decide, by decide, by decide, by decide, by decide⟩
      chans := by decide
      state := rfl
      counts := ⟨rfl, rfl, rfl⟩
      pools := rfl
      napi := ⟨rfl, rfl, rfl⟩ }
  division :=
    { settled := ⟨by decide, by decide +kernel⟩
      chanNum := by decide +kernel
      parts := by decide
      weight := by decide
      chans := by decide
      all := by decide
      few := by decide }

/-- A device is opened and sends a packet, then a ninth rx buffer is asked for. -/
def grow (num : ℕ) (sched : List (Cpdma.Op ℕ)) : List Op :=
  [.ndoOpen 0 (pages 8 (List.replicate 65 (.advance 0))),
    .xmit 0 0 ⟨7, 0, 1500, 0⟩ (some 0x4000),
    .setRingparam { rxPending := 9 }
      { suspend := List.replicate 96 (.advance 1)
        resume := pages num sched
        fail := fun _ => [] }]

/-- With pages for the whole pool the device goes on with nine. -/
theorem provided_after_grow : ∃ s, Run (step oneRing) (Covered oneRing) Rings.probed
    (grow 17 (List.replicate 65 (.advance 2))) s ∧
    (s.ret = 0 ∧ s.usageCount = 1 ∧ heldSum s.dma true = 9) ∧
    Provided oneRing (Covered oneRing) s := by
  have htest : (exec (step oneRing) (Covered oneRing) Rings.probed
      (grow 17 (List.replicate 65 (.advance 2)))).any (fun s =>
        decide (s.ret = 0 ∧ s.usageCount = 1 ∧ heldSum s.dma true = 9)) = true := by
    decide +kernel
  obtain ⟨s, hrun, hs⟩ := exists_run_of_any htest
  exact ⟨s, hrun, of_decide_eq_true hs, provided_of_run initial_probed hrun⟩

/-- With a single page the device is closed, and that page stays in the channel: the
controller was stopped before. -/
theorem provided_fails_without_pages : ¬ ∀ (ls : List Op) (s : State),
    Run (step oneRing) anyStep Rings.probed ls s → Provided oneRing anyStep s := by
  intro h
  have htest : (exec (step oneRing) anyStep Rings.probed (grow 1 [])).any (fun s =>
      decide (s.ret = -enomem ∧ s.usageCount = 0 ∧ countOf s.dma.ctlr.channels 32 = 1)) = true := by
    decide +kernel
  obtain ⟨s, hrun, hs⟩ := exists_run_of_any htest
  obtain ⟨-, husage, hcount⟩ := of_decide_eq_true hs
  have hdown := (h _ s hrun).down (by rw [husage]; exact lt_irrefl 0)
  have hempty := hdown.empty 0 (by decide)
  change countOf s.dma.ctlr.channels 32 = 0 at hempty
  omega

end CpswDriver.Rings
