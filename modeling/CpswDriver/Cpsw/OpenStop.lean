import CpswDriver.Cpdma.Calls

/-!
Opening and stopping the net devices of the two ports. The first open sets up
what both devices share (page pools, filled rx channels, NAPI, the DMA
controller), the last stop takes it down, and usage_count says which is which.
The network stack makes these calls one at a time. Page pool, queue and PHY
helpers of the kernel answer as they please, with 0 or a negative error.
-/

namespace CpswDriver.OpenStop

open Cpdma Runs

abbrev Port := Fin 2

/-- A page with the bus address its packets are received at. -/
structure Page where
  page : ℕ
  dma : U32
  dma_ne : dma ≠ 0
  deriving DecidableEq

/-- What open and stop read of struct cpsw_common: `rxv` lists the rx channels. -/
structure CpswParams where
  cpdma : CpdmaParams
  rxChNum : ℕ
  rxv : ℕ → ChanId
  rxPacketMax : ℕ
  rxv_rx : ∀ ch < rxChNum, isRxChan (rxv ch) = true
  rxv_inj : ∀ ch < rxChNum, ∀ ch' < rxChNum, rxv ch = rxv ch' → ch = ch'
  rxPacketMax_lt : rxPacketMax < 2 ^ 16

/-- The state shared by the two devices. A page pool is known by its size.
`napiMisuse` is set when a NAPI is disabled that is not enabled: napi_disable
then waits for ever. `ret` is what the last call returned. -/
structure State where
  dma : Cpdma.State ℕ
  usageCount : ℤ
  pmUsage : ℤ
  pagePool : ℕ → Option ℕ
  xdpRxq : Port → ℕ → Bool
  napiRx : Bool
  napiTx : Bool
  napiMisuse : Bool
  intr : Bool
  phy : Port → Bool
  opened : Port → Bool
  ret : ℤ

/-- What the helpers answer during an open: error numbers, 0 for success, and
pages; and what goes on while a call into the controller runs. -/
structure Answers where
  pmResume : ℕ := 0
  numTxQueues : ℕ := 0
  numRxQueues : ℕ := 0
  phyConnect : Bool := true
  createPool : ℕ → ℕ := fun _ => 0
  regRxq : Port → ℕ → ℕ := fun _ _ => 0
  allocPage : ℕ → ℕ → Option Page
  sched : List (Cpdma.Op ℕ)

namespace State

def pmPut (s : State) : State := { s with pmUsage := s.pmUsage - 1 }

def setPool (s : State) (ch : ℕ) (pool : Option ℕ) : State :=
  { s with pagePool := Function.update s.pagePool ch pool }

def setRxq (s : State) (p : Port) (ch : ℕ) (reg : Bool) : State :=
  { s with xdpRxq := Function.update s.xdpRxq p (Function.update (s.xdpRxq p) ch reg) }

end State

/-- cpdma_chan_get_rx_buf_num -/
def rxBufNum (params : CpswParams) (s : State) (ch : ℕ) : ℕ :=
  (chanQuota s.dma (params.rxv ch)).getD 0

/-- The loop of cpsw_create_xdp_rxqs over the slaves: cpsw_ndev_create_xdp_rxq. -/
def regRxqs (ans : Answers) (s : State) (ch : ℕ) : List Port → State × ℤ
  | [] => (s, 0)
  | p :: ps =>
    if ans.regRxq p ch ≠ 0 then (s, -ans.regRxq p ch)
    else regRxqs ans (s.setRxq p ch true) ch ps

/-- The loop of cpsw_create_xdp_rxqs over the rx channels. -/
def createPools (params : CpswParams) (ans : Answers) (s : State) : List ℕ → State × ℤ
  | [] => (s, 0)
  | ch :: chs =>
    if ans.createPool ch ≠ 0 then (s, -ans.createPool ch)
    else
      let (s, ret) := regRxqs ans (s.setPool ch (some (rxBufNum params s ch))) ch [0, 1]
      if ret ≠ 0 then (s, ret) else createPools params ans s chs

def cpswDestroyXdpRxqs (params : CpswParams) (s : State) : State :=
  { s with
    pagePool := fun ch => if ch < params.rxChNum then none else s.pagePool ch
    xdpRxq := fun p ch => if ch < params.rxChNum then false else s.xdpRxq p ch }

def cpswCreateXdpRxqs (params : CpswParams) (ans : Answers) (s : State) : State × ℤ :=
  let (s, ret) := createPools params ans s (List.range params.rxChNum)
  if ret ≠ 0 then (cpswDestroyXdpRxqs params s, ret) else (s, 0)

def fillArgs (params : CpswParams) (page : Page) : SubmitArgs ℕ where
  token := page.page
  data := page.dma
  len := params.rxPacketMax
  directed := 0

/-- The submit of one page, and what cpsw_fill_rx_channels makes of its result. -/
def fillBuf (params : CpswParams) (c : Cpdma.State ℕ) (ch : ℕ) (page : Page) :
    Cpdma.State ℕ × ℤ :=
  match c.ctlr.channels (params.rxv ch) with
  | none => (c, -einval)
  | some chan =>
    submitStep params.cpdma c .idleSubmitMapped (params.rxv ch) chan (fillArgs params page) none

/-- The loop of cpsw_fill_rx_channels over the buffers of a channel. -/
def fillBufs (params : CpswParams) (ans : Answers) (c : Cpdma.State ℕ) (ch : ℕ) :
    List ℕ → Cpdma.State ℕ × ℤ
  | [] => (c, 0)
  | i :: is =>
    match ans.allocPage ch i with
    | none => (c, -enomem)
    | some page =>
      let (c, ret) := fillBuf params c ch page
      if ret < 0 then (c, ret) else fillBufs params ans c ch is

/-- The loop of cpsw_fill_rx_channels over the rx channels. -/
def fillChans (params : CpswParams) (ans : Answers) (c : Cpdma.State ℕ) :
    List ℕ → Cpdma.State ℕ × ℤ
  | [] => (c, 0)
  | ch :: chs =>
    let num := (chanQuota c (params.rxv ch)).getD 0
    let (c, ret) := fillBufs params ans c ch (List.range num)
    if ret < 0 then (c, ret) else fillChans params ans c chs

def cpswFillRxChannels (params : CpswParams) (ans : Answers) (s : State) : State × ℤ :=
  let (c, ret) := fillChans params ans s.dma (List.range params.rxChNum)
  ({ s with dma := c }, ret)

/-- napi_enable on both NAPIs -/
def napiEnable (s : State) : State := { s with napiRx := true, napiTx := true }

/-- napi_disable on both NAPIs -/
def napiDisable (s : State) : State :=
  { s with
    napiRx := false
    napiTx := false
    napiMisuse := s.napiMisuse || !s.napiRx || !s.napiTx }

def ctlrStop (params : CpswParams) (sched : List (Cpdma.Op ℕ)) (s : State) : Option State :=
  (cpdmaCtlrStop params.cpdma sched s.dma).map fun r => { s with dma := r.1 }

def ctlrStart (params : CpswParams) (sched : List (Cpdma.Op ℕ)) (s : State) : Option State :=
  (cpdmaCtlrStart params.cpdma sched s.dma).map fun r => { s with dma := r.1 }

/-- cpsw_ndo_stop. It is undefined when the call into the controller does not
return under the schedule. -/
def cpswNdoStop (params : CpswParams) (sched : List (Cpdma.Op ℕ)) (s : State) (p : Port) :
    Option State :=
  let s := { s with phy := Function.update s.phy p false }
  let down := if s.usageCount ≤ 1 then
      (ctlrStop params sched { napiDisable s with intr := false }).map (cpswDestroyXdpRxqs params)
    else some s
  down.map fun s => { s with usageCount := s.usageCount - 1 }.pmPut

/-- The end of cpsw_ndo_open that every successful open reaches. -/
def openEnd (params : CpswParams) (ans : Answers) (s : State) : Option (State × ℤ) :=
  (ctlrStart params ans.sched s).map fun s =>
    ({ s with intr := true, usageCount := s.usageCount + 1 }, 0)

/-- err_cleanup -/
def errCleanup (params : CpswParams) (ans : Answers) (s : State) (p : Port) (ret : ℤ) :
    Option (State × ℤ) :=
  (cpswNdoStop params ans.sched s p).map fun s => (s.pmPut, ret)

/-- The block of cpsw_ndo_open that initializes the shared resources, and what follows it. -/
def openShared (params : CpswParams) (ans : Answers) (s : State) (p : Port) :
    Option (State × ℤ) :=
  let (s, ret) := cpswCreateXdpRxqs params ans s
  if ret < 0 then errCleanup params ans s p ret
  else
    let (s, ret) := cpswFillRxChannels params ans s
    if ret < 0 then errCleanup params ans s p ret
    else openEnd params ans (napiEnable s)

def cpswNdoOpen (params : CpswParams) (ans : Answers) (s : State) (p : Port) :
    Option (State × ℤ) :=
  if ans.pmResume ≠ 0 then some (s, -ans.pmResume)
  else
    let s := { s with pmUsage := s.pmUsage + 1 }
    if ans.numTxQueues ≠ 0 then some (s.pmPut, -ans.numTxQueues)
    else if ans.numRxQueues ≠ 0 then some (s.pmPut, -ans.numRxQueues)
    else
      let s := { s with phy := Function.update s.phy p (s.phy p || ans.phyConnect) }
      if s.usageCount = 0 then openShared params ans s p else openEnd params ans s

inductive Op
  | ndoOpen (p : Port) (ans : Answers)
  | ndoStop (p : Port) (sched : List (Cpdma.Op ℕ))
  /-- the engine writes a descriptor or a head pointer register -/
  | engine (op : Cpdma.Op ℕ)

/-- The network stack opens a device that is not open, and stops one that is. -/
def step (params : CpswParams) (s : State) : Op → Option State
  | .ndoOpen p ans =>
    if s.opened p then none
    else (cpswNdoOpen params ans s p).map fun r =>
      { r.1 with opened := Function.update s.opened p (r.2 = 0), ret := r.2 }
  | .ndoStop p sched =>
    if s.opened p then
      (cpswNdoStop params sched s p).map fun t =>
        { t with opened := Function.update s.opened p false, ret := 0 }
    else none
  | .engine op =>
    if op.isEngine then (Cpdma.step params.cpdma s.dma op).map fun c => { s with dma := c }
    else none

variable {params : CpswParams} {s s' : State}

theorem fillBuf_ok {c : Cpdma.State ℕ} (h : AtRest params.cpdma c) {ch n : ℕ}
    (hlt : ch < params.rxChNum) (hquota : chanQuota c (params.rxv ch) = some n)
    (hroom : countOf c.ctlr.channels (params.rxv ch) < n) (page : Page) :
    ∃ c', fillBuf params c ch page = (c', 0) ∧ Grown params.cpdma c c' ∧
      ∀ ch', countOf c'.ctlr.channels ch' =
        countOf c.ctlr.channels ch' + if ch' = params.rxv ch then 1 else 0 := by
  obtain ⟨chan, hch, rfl⟩ := Option.map_eq_some_iff.mp hquota
  rw [countOf_some hch] at hroom
  have hallow : SubmitKind.allows .idleSubmitMapped chan.state = true := by
    simpa [SubmitKind.allows] using h.state _ chan hch
  have hdma : (fillArgs params page).data ≠ 0 := page.dma_ne
  have hlen : (fillArgs params page).len < 2 ^ 16 := params.rxPacketMax_lt
  obtain ⟨c', hc', hgrown, hcount⟩ :=
    h.submit hch (params.rxv_rx ch hlt) hallow rfl hroom none hdma hlen
  exact ⟨c', by rw [fillBuf, hch]; exact hc', hgrown, hcount⟩

theorem fillBufs_ok {ans : Answers} {ch n : ℕ} (hlt : ch < params.rxChNum) :
    ∀ (is : List ℕ) {c : Cpdma.State ℕ}, AtRest params.cpdma c →
      chanQuota c (params.rxv ch) = some n →
      countOf c.ctlr.channels (params.rxv ch) + is.length ≤ n →
      (∀ i ∈ is, (ans.allocPage ch i).isSome) →
      ∃ c', fillBufs params ans c ch is = (c', 0) ∧ Grown params.cpdma c c' ∧
        ∀ ch', countOf c'.ctlr.channels ch' =
          countOf c.ctlr.channels ch' + if ch' = params.rxv ch then is.length else 0
  | [], c, h, _, _, _ => ⟨c, rfl, ⟨h, rfl, fun _ => rfl⟩, fun _ => by simp⟩
  | i :: is, c, h, hquota, hroom, hpages => by
    obtain ⟨page, hpage⟩ := Option.isSome_iff_exists.mp (hpages i List.mem_cons_self)
    rw [List.length_cons] at hroom
    obtain ⟨c₁, hc₁, hgrown, hcount⟩ := fillBuf_ok h hlt hquota (by omega) page
    have hone := hcount (params.rxv ch)
    rw [if_pos rfl] at hone
    obtain ⟨c₂, hc₂, hgrown', hcount'⟩ := fillBufs_ok hlt is hgrown.rest
      ((hgrown.quota _).trans hquota) (by omega) fun j hj => hpages j (List.mem_cons_of_mem i hj)
    refine ⟨c₂, ?_, ⟨hgrown'.rest, hgrown'.state.trans hgrown.state,
      fun ch' => (hgrown'.quota ch').trans (hgrown.quota ch')⟩, fun ch' => ?_⟩
    · simpa [fillBufs, hpage, hc₁] using hc₂
    · rw [hcount', hcount, List.length_cons]
      split <;> omega

/-- Filling empty rx channels with pages at hand fills them up to their quotas. -/
theorem fillChans_ok {ans : Answers} : ∀ (chs : List ℕ) {c : Cpdma.State ℕ},
    AtRest params.cpdma c → chs.Nodup → (∀ ch ∈ chs, ch < params.rxChNum) →
    (∀ ch ∈ chs, ∃ n, chanQuota c (params.rxv ch) = some n ∧
      countOf c.ctlr.channels (params.rxv ch) = 0 ∧ ∀ i < n, (ans.allocPage ch i).isSome) →
    ∃ c', fillChans params ans c chs = (c', 0) ∧ Grown params.cpdma c c' ∧
      (∀ ch ∈ chs, some (countOf c'.ctlr.channels (params.rxv ch)) =
        chanQuota c' (params.rxv ch)) ∧
      ∀ ch', (∀ ch ∈ chs, params.rxv ch ≠ ch') →
        countOf c'.ctlr.channels ch' = countOf c.ctlr.channels ch'
  | [], c, h, _, _, _ => ⟨c, rfl, ⟨h, rfl, fun _ => rfl⟩, by simp, fun _ _ => rfl⟩
  | ch :: chs, c, h, hnodup, hlt, hready => by
    obtain ⟨hnotin, hnodup'⟩ := List.nodup_cons.mp hnodup
    have hch := hlt ch List.mem_cons_self
    obtain ⟨n, hquota, hempty, hpages⟩ := hready ch List.mem_cons_self
    obtain ⟨c₁, hc₁, hgrown, hcount⟩ := fillBufs_ok hch (List.range n) h hquota
      (by rw [hempty, List.length_range]; omega) fun i hi => hpages i (List.mem_range.mp hi)
    have hother : ∀ ch' ∈ chs, params.rxv ch' ≠ params.rxv ch := by
      intro ch' hmem heq
      have hlt' := hlt ch' (List.mem_cons_of_mem ch hmem)
      obtain rfl := params.rxv_inj ch' hlt' ch hch heq
      exact hnotin hmem
    have hready' : ∀ ch' ∈ chs, ∃ n, chanQuota c₁ (params.rxv ch') = some n ∧
        countOf c₁.ctlr.channels (params.rxv ch') = 0 ∧ ∀ i < n, (ans.allocPage ch' i).isSome := by
      intro ch' hmem
      obtain ⟨n', hquota', hempty', hpages'⟩ := hready ch' (List.mem_cons_of_mem ch hmem)
      refine ⟨n', (hgrown.quota _).trans hquota', ?_, hpages'⟩
      rw [hcount, if_neg (hother ch' hmem), hempty']
    obtain ⟨c₂, hc₂, hgrown', hfull, hrest⟩ := fillChans_ok chs hgrown.rest hnodup'
      (fun ch' hmem => hlt ch' (List.mem_cons_of_mem ch hmem)) hready'
    have hnum : countOf c₂.ctlr.channels (params.rxv ch) = n := by
      rw [hrest _ hother, hcount, if_pos rfl, hempty, List.length_range, zero_add]
    refine ⟨c₂, ?_, ⟨hgrown'.rest, hgrown'.state.trans hgrown.state,
      fun ch' => (hgrown'.quota ch').trans (hgrown.quota ch')⟩, fun ch' hmem => ?_,
      fun ch' hne => ?_⟩
    · simpa [fillChans, hquota, hc₁] using hc₂
    · rcases List.mem_cons.mp hmem with rfl | htail
      · rw [hnum, hgrown'.quota, hgrown.quota, hquota]
      · exact hfull ch' htail
    · have hne' := Ne.symm (hne ch List.mem_cons_self)
      rw [hrest ch' fun ch'' hmem => hne ch'' (List.mem_cons_of_mem ch hmem), hcount, if_neg hne',
        add_zero]

/-- Creating touches the page pools and the rx queues only. -/
theorem regRxqs_ok {ans : Answers} {ch : ℕ} (hok : ∀ p, ans.regRxq p ch = 0) :
    ∀ (ps : List Port) (s : State), ∃ rxqs, regRxqs ans s ch ps = ({ s with xdpRxq := rxqs }, 0)
  | [], s => ⟨s.xdpRxq, rfl⟩
  | p :: ps, s => by
    obtain ⟨rxqs, hrest⟩ := regRxqs_ok hok ps (s.setRxq p ch true)
    refine ⟨rxqs, ?_⟩
    simp only [regRxqs, hok p, ne_eq, not_true_eq_false, if_false]
    exact hrest

theorem createPools_ok (params : CpswParams) {ans : Answers} : ∀ (chs : List ℕ) (s : State),
    (∀ ch ∈ chs, ans.createPool ch = 0 ∧ ∀ p, ans.regRxq p ch = 0) →
    ∃ pools rxqs, createPools params ans s chs =
        ({ s with pagePool := pools, xdpRxq := rxqs }, 0) ∧
      ∀ ch, ch ∈ chs ∨ (s.pagePool ch).isSome → (pools ch).isSome
  | [], s, _ => ⟨s.pagePool, s.xdpRxq, rfl, fun ch h => h.resolve_left List.not_mem_nil⟩
  | ch :: chs, s, hok => by
    obtain ⟨hcreate, hreg⟩ := hok ch List.mem_cons_self
    obtain ⟨rxqs, hrxqs⟩ := regRxqs_ok hreg [0, 1] (s.setPool ch (some (rxBufNum params s ch)))
    obtain ⟨pools, rxqs', hrest, hsome⟩ := createPools_ok params chs
      { s.setPool ch (some (rxBufNum params s ch)) with xdpRxq := rxqs }
      fun ch' hmem => hok ch' (List.mem_cons_of_mem ch hmem)
    refine ⟨pools, rxqs', ?_, fun ch' h => hsome ch' ?_⟩
    · simp only [createPools, hcreate, ne_eq, not_true_eq_false, if_false, hrxqs]
      exact hrest
    · by_cases heq : ch' = ch
      · subst heq
        exact Or.inr (by simp [State.setPool])
      · rcases h with hmem | hold
        · exact Or.inl ((List.mem_cons.mp hmem).resolve_left heq)
        · exact Or.inr (by simpa [State.setPool, heq] using hold)

def openPorts (s : State) : ℤ := (if s.opened 0 then 1 else 0) + if s.opened 1 then 1 else 0

structure Up (params : CpswParams) (s : State) : Prop where
  pools : ∀ ch < params.rxChNum, (s.pagePool ch).isSome
  filled : ∀ ch < params.rxChNum,
    some (countOf s.dma.ctlr.channels (params.rxv ch)) = chanQuota s.dma (params.rxv ch)
  napi : s.napiRx = true ∧ s.napiTx = true
  active : s.dma.ctlr.state = .active

/-- None of the shared resources is there. -/
structure Down (params : CpswParams) (s : State) : Prop where
  pools : ∀ ch < params.rxChNum, s.pagePool ch = none
  empty : ∀ ch < params.rxChNum, countOf s.dma.ctlr.channels (params.rxv ch) = 0
  napi : s.napiRx = false ∧ s.napiTx = false
  idle : s.dma.ctlr.state = .idle

/-- The helpers of the part of an open that sets up the shared resources all succeed. -/
def HelpersOk (params : CpswParams) (s : State) (ans : Answers) : Prop :=
  (∀ ch < params.rxChNum, ans.createPool ch = 0 ∧ ∀ p, ans.regRxq p ch = 0) ∧
    ∀ ch < params.rxChNum, ∀ i < rxBufNum params s ch, (ans.allocPage ch i).isSome

/-- An open that finds usage_count 0 and gets as far as the shared resources
has no failure in setting them up. -/
def Covered (params : CpswParams) (s : State) : Op → Prop
  | .ndoOpen _ ans => s.usageCount = 0 → ans.pmResume = 0 → ans.numTxQueues = 0 →
      ans.numRxQueues = 0 → HelpersOk params s ans
  | _ => True

instance (params : CpswParams) (s : State) (ans : Answers) : Decidable (HelpersOk params s ans) :=
  inferInstanceAs (Decidable (_ ∧ _))

instance (params : CpswParams) (s : State) : DecidablePred (Covered params s)
  | .ndoOpen _ ans => inferInstanceAs (Decidable (s.usageCount = 0 → ans.pmResume = 0 →
      ans.numTxQueues = 0 → ans.numRxQueues = 0 → HelpersOk params s ans))
  | .ndoStop .. | .engine .. => .isTrue trivial

/-- The books are balanced after a call, and an open that fails leaves the rx
channels as empty as they were. -/
structure Balanced (params : CpswParams) (ok : State → Op → Prop) (s : State) : Prop where
  usage : s.usageCount = openPorts s
  pm : s.pmUsage = openPorts s
  napi : s.napiMisuse = false
  up : 0 < s.usageCount → Up params s
  down : ¬ 0 < s.usageCount → Down params s
  failed : ∀ p ans t, ok s (.ndoOpen p ans) → step params s (.ndoOpen p ans) = some t → t.ret ≠ 0 →
    ∀ ch < params.rxChNum, countOf t.dma.ctlr.channels (params.rxv ch) =
      countOf s.dma.ctlr.channels (params.rxv ch)
  again : ∀ p ans t, ans.pmResume = 0 → ans.numTxQueues = 0 → ans.numRxQueues = 0 →
    HelpersOk params s ans → step params s (.ndoOpen p ans) = some t → t.ret = 0

/-- The driver after probe: both devices closed, channels created and the pool divided. -/
structure Initial (params : CpswParams) (s : State) : Prop where
  dma : Cpdma.Initial params.cpdma s.dma
  divided : Divided params.cpdma s.dma.ctlr
  chans : ∀ ch < params.rxChNum, (s.dma.ctlr.channels (params.rxv ch)).isSome
  state : s.dma.ctlr.state = .idle
  counts : s.usageCount = 0 ∧ s.pmUsage = 0 ∧ s.opened = fun _ => false
  pools : s.pagePool = fun _ => none
  napi : s.napiRx = false ∧ s.napiTx = false ∧ s.napiMisuse = false

structure Inv (params : CpswParams) (s : State) : Prop where
  rest : AtRest params.cpdma s.dma
  chans : ∀ ch < params.rxChNum, ∃ n, chanQuota s.dma (params.rxv ch) = some n
  usage : s.usageCount = openPorts s
  pm : s.pmUsage = openPorts s
  napi : s.napiMisuse = false
  up : 0 < s.usageCount → Up params s
  down : ¬ 0 < s.usageCount → Down params s

theorem Inv.initial (h : Initial params s) : Inv params s := by
  obtain ⟨husage, hpm, hopened⟩ := h.counts
  obtain ⟨hrx, htx, hmisuse⟩ := h.napi
  have hports : openPorts s = 0 := by simp [openPorts, hopened]
  refine ⟨⟨Sound.initial h.dma h.divided, ?_, h.dma.lock, ?_⟩, ?_, ?_, ?_, hmisuse, ?_, fun _ =>
    ⟨?_, ?_, ⟨hrx, htx⟩, h.state⟩⟩
  · intro j pc hj
    rw [h.dma.calls] at hj
    simp at hj
  · intro ch chan hch hteardown
    rw [(h.dma.chans ch chan hch).2.2] at hteardown
    cases hteardown
  · intro ch hlt
    obtain ⟨chan, hch⟩ := Option.isSome_iff_exists.mp (h.chans ch hlt)
    exact ⟨chan.descNum, by rw [chanQuota, hch]; rfl⟩
  · rw [husage, hports]
  · rw [hpm, hports]
  · intro hpos
    rw [husage] at hpos
    exact absurd hpos (lt_irrefl 0)
  · intro ch _
    rw [h.pools]
  · intro ch hlt
    obtain ⟨chan, hch⟩ := Option.isSome_iff_exists.mp (h.chans ch hlt)
    rw [countOf_some hch, (h.dma.chans _ chan hch).2.1]

theorem openPorts_open {p : Port} (h : s.opened p = false) :
    openPorts { s with opened := Function.update s.opened p true } = openPorts s + 1 := by
  unfold openPorts
  match p with
  | 0 => simp [h]; omega
  | 1 => simp [h]

theorem openPorts_stop {p : Port} (h : s.opened p = true) :
    openPorts { s with opened := Function.update s.opened p false } = openPorts s - 1 := by
  unfold openPorts
  match p with
  | 0 => simp [h]
  | 1 => simp [h]

theorem openPorts_pos {p : Port} (h : s.opened p = true) : 0 < openPorts s := by
  unfold openPorts
  match p with
  | 0 =>
    rw [if_pos h]
    split <;> omega
  | 1 =>
    rw [if_pos h]
    split <;> omega

theorem openPorts_nonneg (s : State) : 0 ≤ openPorts s := by
  unfold openPorts
  split <;> split <;> omega

/-- The end of an open starts the controller, if it has to, and counts the port. -/
theorem openEnd_spec {ans : Answers} {t : State} {ret : ℤ}
    (hst : openEnd params ans s = some (t, ret)) (h : AtRest params.cpdma s.dma)
    (hstate : s.dma.ctlr.state ≠ .teardown) :
    ret = 0 ∧ ∃ c, t = { s with dma := c, intr := true, usageCount := s.usageCount + 1 } ∧
      AtRest params.cpdma c ∧ c.ctlr.state = .active ∧
      ∀ ch, ChanSteady (s.dma.ctlr.channels ch) (c.ctlr.channels ch) := by
  unfold openEnd ctlrStart at hst
  rw [Option.map_map] at hst
  obtain ⟨⟨c, r⟩, hc, hres⟩ := Option.map_eq_some_iff.mp hst
  obtain ⟨rfl, rfl⟩ := Prod.mk.inj hres
  exact ⟨rfl, c, rfl, cpdmaCtlrStart_starts h hstate hc⟩

structure Opened (params : CpswParams) (s t : State) : Prop where
  rest : AtRest params.cpdma t.dma
  quota : ∀ ch, chanQuota t.dma ch = chanQuota s.dma ch
  usage : t.usageCount = s.usageCount + 1
  pm : t.pmUsage = s.pmUsage + 1
  misuse : t.napiMisuse = s.napiMisuse
  up : Up params t

theorem firstOpen (h : Inv params s) (hdown : Down params s) {ans : Answers}
    (hok : HelpersOk params s ans) {s₁ t : State} {ret : ℤ} (hdma : s₁.dma = s.dma)
    (husage : s₁.usageCount = s.usageCount) (hpm : s₁.pmUsage = s.pmUsage + 1)
    (hmisuse : s₁.napiMisuse = s.napiMisuse) {p : Port}
    (hst : openShared params ans s₁ p = some (t, ret)) : ret = 0 ∧ Opened params s t := by
  obtain ⟨pools, rxqs, hpools, hsome⟩ := createPools_ok params
    (List.range params.rxChNum) s₁ fun ch hmem => hok.1 ch (List.mem_range.mp hmem)
  have hcreate : cpswCreateXdpRxqs params ans s₁ =
      ({ s₁ with pagePool := pools, xdpRxq := rxqs }, 0) := by
    simp only [cpswCreateXdpRxqs, hpools, ne_eq, not_true_eq_false, if_false]
  have hready : ∀ ch ∈ List.range params.rxChNum, ∃ n, chanQuota s₁.dma (params.rxv ch) = some n ∧
      countOf s₁.dma.ctlr.channels (params.rxv ch) = 0 ∧ ∀ i < n, (ans.allocPage ch i).isSome := by
    intro ch hmem
    have hlt := List.mem_range.mp hmem
    obtain ⟨n, hn⟩ := h.chans ch hlt
    rw [hdma]
    refine ⟨n, hn, hdown.empty ch hlt, fun i hi => hok.2 ch hlt i ?_⟩
    rw [rxBufNum, hn]
    exact hi
  have hrest : AtRest params.cpdma s₁.dma := by
    rw [hdma]
    exact h.rest
  obtain ⟨c, hc, hgrown, hfull, -⟩ := fillChans_ok (List.range params.rxChNum) hrest
    List.nodup_range (fun ch hmem => List.mem_range.mp hmem) hready
  have hfill : cpswFillRxChannels params ans { s₁ with pagePool := pools, xdpRxq := rxqs } =
      ({ s₁ with dma := c, pagePool := pools, xdpRxq := rxqs }, 0) := by
    simp only [cpswFillRxChannels, hc]
  simp only [openShared, hcreate, hfill, lt_irrefl, if_false] at hst
  have hidle : c.ctlr.state ≠ .teardown := by
    rw [hgrown.state, hdma, hdown.idle]
    exact fun hne => by cases hne
  obtain ⟨rfl, c', rfl, hrest', hactive, hsteady⟩ := openEnd_spec hst hgrown.rest hidle
  refine ⟨rfl, hrest', fun ch => ?_, ?_, hpm, hmisuse, ?_, fun ch hlt => ?_, ⟨rfl, rfl⟩, hactive⟩
  · exact (hsteady ch).descNum.trans ((hgrown.quota ch).trans (by rw [hdma]))
  · exact congrArg (· + 1) husage
  · exact fun ch hlt => hsome ch (Or.inl (List.mem_range.mpr hlt))
  · have hcount : countOf c'.ctlr.channels (params.rxv ch) =
        countOf c.ctlr.channels (params.rxv ch) := (hsteady (params.rxv ch)).agree.countOf
    have hquota : chanQuota c' (params.rxv ch) = chanQuota c (params.rxv ch) :=
      (hsteady (params.rxv ch)).descNum
    change some (countOf c'.ctlr.channels (params.rxv ch)) = chanQuota c' (params.rxv ch)
    rw [hcount, hquota]
    exact hfull ch (List.mem_range.mpr hlt)

theorem cpswNdoOpen_spec (h : Inv params s) {p : Port} {ans : Answers}
    (hok : s.usageCount = 0 → ans.pmResume = 0 → ans.numTxQueues = 0 → ans.numRxQueues = 0 →
      HelpersOk params s ans) {t : State} {ret : ℤ}
    (hst : cpswNdoOpen params ans s p = some (t, ret)) :
    (ret ≠ 0 ∧ t = s ∧
      ¬ (ans.pmResume = 0 ∧ ans.numTxQueues = 0 ∧ ans.numRxQueues = 0)) ∨
    (ret = 0 ∧ Opened params s t) := by
  unfold cpswNdoOpen at hst
  by_cases hpm : ans.pmResume = 0
  swap
  · rw [if_pos hpm] at hst
    obtain ⟨rfl, rfl⟩ := Prod.mk.inj (Option.some.inj hst)
    exact Or.inl ⟨by omega, rfl, fun hall => hpm hall.1⟩
  rw [if_neg (not_not.mpr hpm)] at hst
  dsimp only at hst
  by_cases htx : ans.numTxQueues = 0
  swap
  · rw [if_pos htx] at hst
    obtain ⟨rfl, rfl⟩ := Prod.mk.inj (Option.some.inj hst)
    exact Or.inl ⟨by omega, by simp [State.pmPut], fun hall => htx hall.2.1⟩
  rw [if_neg (not_not.mpr htx)] at hst
  by_cases hrx : ans.numRxQueues = 0
  swap
  · rw [if_pos hrx] at hst
    obtain ⟨rfl, rfl⟩ := Prod.mk.inj (Option.some.inj hst)
    exact Or.inl ⟨by omega, by simp [State.pmPut], fun hall => hrx hall.2.2⟩
  rw [if_neg (not_not.mpr hrx)] at hst
  refine Or.inr ?_
  by_cases husage : s.usageCount = 0
  · rw [if_pos husage] at hst
    have hdown := h.down (by omega)
    refine firstOpen h hdown (hok husage hpm htx hrx) ?_ ?_ ?_ ?_ hst <;> rfl
  · rw [if_neg husage] at hst
    have hpos : 0 < s.usageCount := by
      have hports := openPorts_nonneg s
      have hbooks := h.usage
      omega
    have hup := h.up hpos
    have hactive : s.dma.ctlr.state ≠ .teardown := by
      rw [hup.active]
      exact fun hne => by cases hne
    obtain ⟨rfl, c, rfl, hrest, hactive, hsteady⟩ := openEnd_spec hst h.rest hactive
    refine ⟨rfl, hrest, fun ch => (hsteady ch).descNum, rfl, rfl, rfl, hup.pools, fun ch hlt => ?_,
      hup.napi, hactive⟩
    have hcount : countOf c.ctlr.channels (params.rxv ch) =
      countOf s.dma.ctlr.channels (params.rxv ch) := (hsteady (params.rxv ch)).agree.countOf
    have hquota : chanQuota c (params.rxv ch) = chanQuota s.dma (params.rxv ch) :=
      (hsteady (params.rxv ch)).descNum
    change some (countOf c.ctlr.channels (params.rxv ch)) = chanQuota c (params.rxv ch)
    rw [hcount, hquota]
    exact hup.filled ch hlt

theorem Inv.ndoOpen (h : Inv params s) {p : Port} {ans : Answers}
    (hok : Covered params s (.ndoOpen p ans))
    (hst : OpenStop.step params s (.ndoOpen p ans) = some s') : Inv params s' := by
  simp only [OpenStop.step] at hst
  split at hst
  · cases hst
  rename_i hclosed
  obtain ⟨⟨t, ret⟩, ht, rfl⟩ := Option.map_eq_some_iff.mp hst
  rcases cpswNdoOpen_spec h hok ht with ⟨hret, rfl, -⟩ | ⟨rfl, ho⟩
  · have hsame : Function.update t.opened p false = t.opened := by
      rw [Function.update_eq_self_iff]
      simpa using hclosed
    simp only [hret, decide_false, hsame]
    refine ⟨h.rest, h.chans, h.usage, h.pm, h.napi, fun hpos => ?_, fun hneg => ?_⟩
    · have hup := h.up hpos
      exact ⟨hup.pools, hup.filled, hup.napi, hup.active⟩
    · have hdown := h.down hneg
      exact ⟨hdown.pools, hdown.empty, hdown.napi, hdown.idle⟩
  · have hports := openPorts_open (s := s) (p := p) (by simpa using hclosed)
    simp only [decide_true]
    refine ⟨ho.rest, fun ch hlt => ?_, ?_, ?_, ho.misuse.trans h.napi, fun _ => ?_, fun hneg => ?_⟩
    · obtain ⟨n, hn⟩ := h.chans ch hlt
      exact ⟨n, (ho.quota _).trans hn⟩
    · exact (ho.usage.trans (by rw [h.usage])).trans hports.symm
    · exact (ho.pm.trans (by rw [h.pm])).trans hports.symm
    · exact ⟨ho.up.pools, ho.up.filled, ho.up.napi, ho.up.active⟩
    · have hnonneg := openPorts_nonneg s
      have hbooks := h.usage
      have husage := ho.usage
      exact absurd (show 0 < t.usageCount by omega) hneg

/-- The last stop takes the shared resources down, any other leaves them. -/
theorem cpswNdoStop_spec (h : Inv params s) {p : Port} (hopen : s.opened p = true)
    {sched : List (Cpdma.Op ℕ)} {t : State} (hst : cpswNdoStop params sched s p = some t) :
    AtRest params.cpdma t.dma ∧ (∀ ch, chanQuota t.dma ch = chanQuota s.dma ch) ∧
      t.usageCount = s.usageCount - 1 ∧ t.pmUsage = s.pmUsage - 1 ∧ t.napiMisuse = false ∧
      (0 < t.usageCount → Up params t) ∧ (¬ 0 < t.usageCount → Down params t) := by
  have hpos : 0 < s.usageCount := by
    rw [h.usage]
    exact openPorts_pos hopen
  have hup := h.up hpos
  unfold cpswNdoStop at hst
  dsimp only at hst
  obtain ⟨u, hu, rfl⟩ := Option.map_eq_some_iff.mp hst
  split at hu
  · rename_i hle
    unfold ctlrStop at hu
    rw [Option.map_map] at hu
    obtain ⟨⟨c, r⟩, hc, rfl⟩ := Option.map_eq_some_iff.mp hu
    obtain ⟨hrest, hdrained, hquota⟩ := cpdmaCtlrStop_drains h.rest hup.active hc
    refine ⟨hrest, hquota, rfl, rfl, ?_, fun hlt => ?_, fun _ => ⟨fun ch hlt => ?_,
      fun ch hlt => ?_, ⟨rfl, rfl⟩, hdrained.state⟩⟩
    · change (s.napiMisuse || !s.napiRx || !s.napiTx) = false
      rw [h.napi, hup.napi.1, hup.napi.2]
      rfl
    · exact absurd (show 0 < s.usageCount - 1 from hlt) (by omega)
    · exact if_pos hlt
    · obtain ⟨n, hn⟩ := h.chans ch hlt
      obtain ⟨chan, hch, -⟩ := Option.map_eq_some_iff.mp ((hquota _).trans hn)
      change countOf c.ctlr.channels (params.rxv ch) = 0
      rw [countOf_some hch]
      exact hrest.sound.count_zero hch (hdrained.chans _ chan hch).1
  · rename_i hgt
    obtain rfl := Option.some.inj hu
    refine ⟨h.rest, fun _ => rfl, rfl, rfl, h.napi, fun _ => ?_, fun hneg => ?_⟩
    · exact ⟨hup.pools, hup.filled, hup.napi, hup.active⟩
    · exact absurd (show 0 < s.usageCount - 1 by omega) hneg

theorem Inv.ndoStop (h : Inv params s) {p : Port} {sched : List (Cpdma.Op ℕ)}
    (hst : OpenStop.step params s (.ndoStop p sched) = some s') : Inv params s' := by
  simp only [OpenStop.step] at hst
  split at hst
  · rename_i hopen
    obtain ⟨t, ht, rfl⟩ := Option.map_eq_some_iff.mp hst
    obtain ⟨hrest, hquota, husage, hpm, hmisuse, hup, hdown⟩ := cpswNdoStop_spec h hopen ht
    have hports := openPorts_stop hopen
    refine ⟨hrest, fun ch hlt => ?_, ?_, ?_, hmisuse, fun hpos => ?_, fun hneg => ?_⟩
    · obtain ⟨n, hn⟩ := h.chans ch hlt
      exact ⟨n, (hquota _).trans hn⟩
    · exact (husage.trans (by rw [h.usage])).trans hports.symm
    · exact (hpm.trans (by rw [h.pm])).trans hports.symm
    · have hu := hup hpos
      exact ⟨hu.pools, hu.filled, hu.napi, hu.active⟩
    · have hd := hdown hneg
      exact ⟨hd.pools, hd.empty, hd.napi, hd.idle⟩
  · cases hst

theorem Inv.engine (h : Inv params s) {op : Cpdma.Op ℕ}
    (hst : OpenStop.step params s (.engine op) = some s') : Inv params s' := by
  simp only [OpenStop.step] at hst
  split at hst
  · rename_i hop
    obtain ⟨c, hc, rfl⟩ := Option.map_eq_some_iff.mp hst
    obtain ⟨hrest, he⟩ := h.rest.engine hop hc
    have hquota : ∀ ch, chanQuota c ch = chanQuota s.dma ch := fun ch => (he.steady ch).descNum
    have hcount : ∀ ch, countOf c.ctlr.channels ch = countOf s.dma.ctlr.channels ch :=
      fun ch => (he.steady ch).agree.countOf
    refine ⟨hrest, fun ch hlt => ?_, h.usage, h.pm, h.napi, fun hpos => ?_, fun hneg => ?_⟩
    · obtain ⟨n, hn⟩ := h.chans ch hlt
      exact ⟨n, (hquota _).trans hn⟩
    · have hup := h.up hpos
      refine ⟨hup.pools, fun ch hlt => ?_, hup.napi, he.state.trans hup.active⟩
      change some (countOf c.ctlr.channels (params.rxv ch)) = chanQuota c (params.rxv ch)
      rw [hcount, hquota]
      exact hup.filled ch hlt
    · have hdown := h.down hneg
      exact ⟨hdown.pools, fun ch hlt => (hcount _).trans (hdown.empty ch hlt), hdown.napi,
        he.state.trans hdown.idle⟩
  · cases hst

theorem Inv.of_run {s₀ : State} {ls : List Op} (hinit : Initial params s₀)
    (hrun : Run (OpenStop.step params) (Covered params) s₀ ls s) : Inv params s := by
  refine hrun.invariant (fun t op u h hok hst => ?_) (Inv.initial hinit)
  cases op with
  | ndoOpen p ans => exact h.ndoOpen hok hst
  | ndoStop p sched => exact h.ndoStop hst
  | engine op => exact h.engine hst

/-- As long as the helpers of a first open succeed, opens and stops balance:
counts, resources and NAPI agree with the ports that are open. -/
theorem balanced_of_run {s₀ : State} {ls : List Op} (hinit : Initial params s₀)
    (hrun : Run (step params) (Covered params) s₀ ls s) : Balanced params (Covered params) s := by
  have h := Inv.of_run hinit hrun
  refine ⟨h.usage, h.pm, h.napi, h.up, h.down, fun p ans t hok hst hret => ?_,
    fun p ans t hpm htx hrx hok hst => ?_⟩
  · simp only [step] at hst
    split at hst
    · cases hst
    obtain ⟨⟨u, ret⟩, hu, rfl⟩ := Option.map_eq_some_iff.mp hst
    rcases cpswNdoOpen_spec h hok hu with ⟨-, rfl, -⟩ | ⟨rfl, -⟩
    · exact fun _ _ => rfl
    · exact absurd rfl hret
  · simp only [step] at hst
    split at hst
    · cases hst
    obtain ⟨⟨u, ret⟩, hu, rfl⟩ := Option.map_eq_some_iff.mp hst
    rcases cpswNdoOpen_spec h (fun _ _ _ _ => hok) hu with ⟨-, -, hbad⟩ | ⟨hret, -⟩
    · exact absurd ⟨hpm, htx, hrx⟩ hbad
    · exact hret

/-- One rx channel in a pool of four descriptors, two of them for receive. -/
def oneRx : CpswParams where
  cpdma := smallParams 4 (by decide)
  rxChNum := 1
  rxv _ := 32
  rxPacketMax := 1518
  rxv_rx _ _ := by decide
  rxv_inj ch hch ch' hch' _ := by omega
  rxPacketMax_lt := by decide

def probed : State where
  dma := quiet (smallParams 4 (by decide)) 0 .idle (onePair 2 2) 2 2
  usageCount := 0
  pmUsage := 0
  pagePool _ := none
  xdpRxq _ _ := false
  napiRx := false
  napiTx := false
  napiMisuse := false
  intr := false
  phy _ := false
  opened _ := false
  ret := 0

def pages (num : ℕ) (sched : List (Cpdma.Op ℕ)) : Answers where
  allocPage _ i := if i < num then some ⟨i, 0x80000100, by decide⟩ else none
  sched := sched

theorem initial_probed : Initial oneRx probed where
  dma := initial_quiet _ _ _ (idle_onePair 2 2) _ _
  divided := ⟨by decide, by decide, by decide, by decide, by decide, by decide⟩
  chans := by decide
  state := rfl
  counts := ⟨rfl, rfl, rfl⟩
  pools := rfl
  napi := ⟨rfl, rfl, rfl⟩

/-- Both ports are opened and stopped again. -/
theorem balanced_after_stops : ∃ s, Run (step oneRx) (Covered oneRx) probed
    [.ndoOpen 0 (pages 2 (List.replicate 65 (.advance 0))), .ndoOpen 1 (pages 0 []),
      .ndoStop 0 [], .ndoStop 1 (List.replicate 75 (.advance 2))] s ∧
    s.usageCount = 0 ∧ Balanced oneRx (Covered oneRx) s := by
  have htest : (exec (step oneRx) (Covered oneRx) probed
      [.ndoOpen 0 (pages 2 (List.replicate 65 (.advance 0))), .ndoOpen 1 (pages 0 []),
        .ndoStop 0 [], .ndoStop 1 (List.replicate 75 (.advance 2))]).any
      (fun s => s.usageCount == 0) = true := by decide +kernel
  obtain ⟨s, hrun, hs⟩ := exists_run_of_any htest
  exact ⟨s, hrun, by simpa using hs, balanced_of_run initial_probed hrun⟩

/-- The second buffer of the first open finds no page: usage_count goes below
zero, NAPI is disabled while it is not enabled, and the first page stays queued. -/
theorem balanced_fails_after_failed_open : ¬ ∀ (ls : List Op) (s : State),
    Run (step oneRx) anyStep probed ls s → Balanced oneRx anyStep s := by
  intro h
  have htest : (exec (step oneRx) anyStep probed [.ndoOpen 0 (pages 1 [])]).any (fun s =>
      s.usageCount == -1 && s.pmUsage == -1 && s.napiMisuse && s.ret == -enomem &&
        countOf s.dma.ctlr.channels 32 == 1) = true := by decide +kernel
  obtain ⟨s, hrun, hs⟩ := exists_run_of_any htest
  simp only [Bool.and_eq_true, beq_iff_eq] at hs
  have husage := (h _ s hrun).usage
  have hnonneg := openPorts_nonneg s
  omega

end CpswDriver.OpenStop
