import CpswDriver.Cpdma.Types

/-!
The lock-protected sections of the CPDMA channel code, each as one function of
what it reads. Submitting links a descriptor behind the tail and restarts an
engine that has run off the end of the queue; processing takes one completed
descriptor from the head. Sections work on the descriptor memory and on the
one channel whose lock they hold.
-/

namespace CpswDriver.Cpdma

variable {τ : Type*}

structure CpdmaControlInfo where
  reg : ℕ
  shift : ℕ
  mask : U32
  readable : Bool
  writable : Bool

def cpdmaTxRlim : ℤ := 0
def cpdmaTxPrioFixed : ℤ := 5
def cpdmaRxBufferOffset : ℤ := 11

/-- The table controls[], in the order of enum cpdma_control. -/
def controls : List CpdmaControlInfo :=
  [⟨cpdmaDmacontrol, 8, 0xffff, true, true⟩,
   ⟨cpdmaDmacontrol, 3, 1, false, true⟩,
   ⟨cpdmaDmacontrol, 4, 1, true, true⟩,
   ⟨cpdmaDmacontrol, 2, 1, true, true⟩,
   ⟨cpdmaDmacontrol, 1, 1, true, true⟩,
   ⟨cpdmaDmacontrol, 0, 1, true, true⟩,
   ⟨cpdmaDmastatus, 31, 1, true, false⟩,
   ⟨cpdmaDmastatus, 16, 0x7, true, true⟩,
   ⟨cpdmaDmastatus, 20, 0xf, true, true⟩,
   ⟨cpdmaDmastatus, 8, 0x7, true, true⟩,
   ⟨cpdmaDmastatus, 12, 0xf, true, true⟩,
   ⟨cpdmaRxbuffofs, 0, 0xffff, true, true⟩]

/-- controls[control], for a control inside the array's bounds. -/
def controlInfo (control : ℤ) : Option CpdmaControlInfo :=
  if control < 0 then none else controls[control.toNat]?

/-- _cpdma_control_set -/
def cpdmaControlSetLocked (params : CpdmaParams) (ctlr : CpdmaCtlr τ) (control : ℤ) (value : U32) :
    CpdmaCtlr τ × ℤ :=
  if !params.hasExtRegs then (ctlr, -enotsupp)
  else if ctlr.state ≠ .active then (ctlr, -einval)
  else match controlInfo control with
    | none => (ctlr, -enoent)
    | some info =>
      if !info.writable then (ctlr, -eperm)
      else
        let val := ctlr.regs info.reg &&& ~~~(info.mask <<< info.shift)
        let val := val ||| ((value &&& info.mask) <<< info.shift)
        (ctlr.dmaRegWrite info.reg val, 0)

/-- _cpdma_control_get -/
def cpdmaControlGetLocked (params : CpdmaParams) (ctlr : CpdmaCtlr τ) (control : ℤ) : ℤ :=
  if !params.hasExtRegs then -enotsupp
  else if ctlr.state ≠ .active then -einval
  else match controlInfo control with
    | none => -enoent
    | some info =>
      if !info.readable then -eperm
      else ((ctlr.regs info.reg >>> info.shift) &&& info.mask).toNat

def cpdmaChanSetChanShaper (params : CpdmaParams) (ctlr : CpdmaCtlr τ) (ch : ChanId)
    (chan : CpdmaChan) : CpdmaCtlr τ × ℤ :=
  if chan.rate = 0 then (ctlr, 0)
  else
    let ctlr := ctlr.dmaRegWrite (cpdmaTxPri0Rate + 4 * ch.val) chan.rateFactor
    let rmask := BitVec.ofInt 32 (cpdmaControlGetLocked params ctlr cpdmaTxRlim)
    cpdmaControlSetLocked params ctlr cpdmaTxRlim (rmask ||| chanMask ch)

/-- The interrupt and teardown registers of a channel's direction. -/
def chanIntSet (ch : ChanId) : ℕ := if isRxChan ch then cpdmaRxintmaskset else cpdmaTxintmaskset
def chanIntClear (ch : ChanId) : ℕ :=
  if isRxChan ch then cpdmaRxintmaskclear else cpdmaTxintmaskclear
def chanTd (ch : ChanId) : ℕ := if isRxChan ch then cpdmaRxteardown else cpdmaTxteardown

/-- A write of a pointer to a 32-bit register or descriptor word. -/
def hwPtr (pool : CpdmaDescPool) (desc : ℕ) : U32 := BitVec.ofNat 32 (descPhys pool desc)

/-- What cpdma_chan_on does to the channel once its checks have passed. -/
def turnOn (pool : CpdmaDescPool) (ch : ChanId) (chan : CpdmaChan) : CpdmaChan :=
  let chan := { chan with state := .active }
  if chan.head ≠ 0 then
    let chan := { chan with hdp := hwPtr pool chan.head }
    if isRxChan ch then { chan with rxfree := BitVec.ofNat 32 chan.count } else chan
  else chan

def cpdmaChanOn (params : CpdmaParams) (ctlr : CpdmaCtlr τ) (ch : ChanId) (chan : CpdmaChan) :
    CpdmaCtlr τ × ℤ :=
  if chan.state ≠ .idle then (ctlr, -ebusy)
  else if ctlr.state ≠ .active then (ctlr, -einval)
  else
    let ctlr := ctlr.dmaRegWrite (chanIntSet ch) (chanMask ch)
    (ctlr.setChan ch (turnOn params.pool ch chan), 0)

structure SubmitInfo (τ : Type*) where
  directed : ℕ
  token : τ
  dataDma : U32
  len : ℕ

/-- The mode word cpdma_desc_to_port leaves for a packet sent to one port. -/
def cpdmaDescToPort (ch : ChanId) (mode : U32) (directed : ℕ) : U32 :=
  if !isRxChan ch && (directed == 1 || directed == 2) then
    mode ||| (cpdmaDescToPortEn ||| BitVec.ofNat 32 (directed <<< cpdmaToPortShift))
  else mode

/-- __cpdma_chan_submit: link `desc` into the queue. -/
def cpdmaChanSubmitLocked (pool : CpdmaDescPool) (mem : ℕ → CpdmaDesc τ) (chan : CpdmaChan)
    (desc : ℕ) : (ℕ → CpdmaDesc τ) × CpdmaChan :=
  let descDma := hwPtr pool desc
  if chan.head = 0 then
    let stats := { chan.stats with headEnqueue := chan.stats.headEnqueue + 1 }
    let chan : CpdmaChan := { chan with head := desc, tail := desc, stats := stats }
    (mem, if chan.state = .active then { chan with hdp := descDma } else chan)
  else
    let prev := chan.tail
    let mem := Function.update mem prev { mem prev with hwNext := descDma }
    let stats := { chan.stats with tailEnqueue := chan.stats.tailEnqueue + 1 }
    let chan : CpdmaChan := { chan with tail := desc, stats := stats }
    let mode := (mem prev).hwMode
    if mode &&& (cpdmaDescEoq ||| cpdmaDescOwner) = cpdmaDescEoq ∧ chan.state = .active then
      let mem := Function.update mem prev { mem prev with hwMode := mode &&& ~~~cpdmaDescEoq }
      let stats := { chan.stats with misqueued := chan.stats.misqueued + 1 }
      (mem, { chan with hdp := descDma, stats := stats })
    else (mem, chan)

def paddedLen (params : CpdmaParams) (len : ℕ) : ℕ :=
  if len < params.minPacketSize then params.minPacketSize else len

def allocFail (chan : CpdmaChan) : CpdmaChan :=
  { chan with stats := { chan.stats with descAllocFail := chan.stats.descAllocFail + 1 } }

/-- The words cpdma_chan_submit_si writes into a fresh descriptor. -/
def freshDesc (ch : ChanId) (si : SubmitInfo τ) (buffer : U32) (len : ℕ) : CpdmaDesc τ where
  hwNext := 0
  hwBuffer := buffer
  hwLen := BitVec.ofNat 32 len
  hwMode := cpdmaDescToPort ch (cpdmaDescOwner ||| cpdmaDescSop ||| cpdmaDescEop) si.directed
    ||| BitVec.ofNat 32 len
  swToken := si.token
  swBuffer := buffer
  swLen := if si.dataDma ≠ 0 then BitVec.ofNat 32 len ||| cpdmaDmaExtMap else BitVec.ofNat 32 len

def countRunt (params : CpdmaParams) (len : ℕ) (chan : CpdmaChan) : CpdmaChan :=
  if len < params.minPacketSize then
    { chan with stats := { chan.stats with runtTransmitBuff := chan.stats.runtTransmitBuff + 1 } }
  else chan

def writeRxfree (ch : ChanId) (chan : CpdmaChan) : CpdmaChan :=
  if chan.state = .active ∧ isRxChan ch then { chan with rxfree := 1 } else chan

/-- cpdma_chan_submit_si. `mapped` is the answer of dma_map_single, none when
dma_mapping_error holds of it; it is only asked when the data came unmapped. -/
def cpdmaChanSubmitSi (params : CpdmaParams) (ctlr : CpdmaCtlr τ) (ch : ChanId) (chan : CpdmaChan)
    (si : SubmitInfo τ) (mapped : Option U32) : CpdmaCtlr τ × ℤ :=
  if chan.descNum ≤ chan.count then (ctlr.setChan ch (allocFail chan), -enomem)
  else match params.pool.genPool.alloc ctlr.avail with
    | none => (ctlr.setChan ch (allocFail chan), -enomem)
    | some desc =>
      let ctlr := { ctlr with avail := ctlr.avail.erase desc }
      let len := paddedLen params si.len
      let chan := countRunt params si.len chan
      match if si.dataDma ≠ 0 then some si.dataDma else mapped with
      | none =>
        ({ ctlr with avail := insert desc ctlr.avail }.setChan ch chan, -einval)
      | some buffer =>
        let mem := Function.update ctlr.mem desc (freshDesc ch si buffer len)
        let (mem, chan) := cpdmaChanSubmitLocked params.pool mem chan desc
        let chan := writeRxfree ch chan
        ({ ctlr with mem := mem }.setChan ch { chan with count := chan.count + 1 }, 0)

/-- The four entry points: the idle ones take any channel but one being torn
down, the others an active one; the mapped ones bring a DMA address. -/
inductive SubmitKind
  | submit
  | submitMapped
  | idleSubmit
  | idleSubmitMapped
  deriving DecidableEq, Repr

namespace SubmitKind

def allows : SubmitKind → CpdmaState → Bool
  | submit, state | submitMapped, state => state = .active
  | idleSubmit, state | idleSubmitMapped, state => state ≠ .teardown

def isMapped : SubmitKind → Bool
  | submitMapped | idleSubmitMapped => true
  | submit | idleSubmit => false

end SubmitKind

/-- What a caller passes: `data` is a virtual address for the plain entry
points and a DMA address for the mapped ones. -/
structure SubmitArgs (τ : Type*) where
  token : τ
  data : U32
  len : ℕ
  directed : ℕ

def submitInfo (kind : SubmitKind) (args : SubmitArgs τ) : SubmitInfo τ where
  directed := args.directed
  token := args.token
  dataDma := if kind.isMapped then args.data else 0
  len := args.len

def submitEntry (kind : SubmitKind) (params : CpdmaParams) (ctlr : CpdmaCtlr τ) (ch : ChanId)
    (chan : CpdmaChan) (args : SubmitArgs τ) (mapped : Option U32) : CpdmaCtlr τ × ℤ :=
  if !kind.allows chan.state then (ctlr, -einval)
  else cpdmaChanSubmitSi params ctlr ch chan (submitInfo kind args) mapped

def cpdmaChanIdleSubmit (params : CpdmaParams) (ctlr : CpdmaCtlr τ) :=
  submitEntry .idleSubmit params ctlr

def cpdmaChanIdleSubmitMapped (params : CpdmaParams) (ctlr : CpdmaCtlr τ) :=
  submitEntry .idleSubmitMapped params ctlr

def cpdmaChanSubmit (params : CpdmaParams) (ctlr : CpdmaCtlr τ) :=
  submitEntry .submit params ctlr

def cpdmaChanSubmitMapped (params : CpdmaParams) (ctlr : CpdmaCtlr τ) :=
  submitEntry .submitMapped params ctlr

def cpdmaCheckFreeTxDesc (ctlr : CpdmaCtlr τ) (chan : CpdmaChan) : Bool :=
  chan.count < chan.descNum && ctlr.avail.card != 0

/-- The outcome of the locked part of __cpdma_chan_process: an error, or a
descriptor taken off the queue with its length and its status bits. -/
inductive Dequeue
  | fail (ret : ℤ)
  | took (desc : ℕ) (outlen : ℤ) (status : U32)
  deriving DecidableEq, Repr

/-- __cpdma_chan_process, up to the point where it drops the channel lock. -/
def cpdmaChanProcessLocked (pool : CpdmaDescPool) (mem : ℕ → CpdmaDesc τ) (chan : CpdmaChan) :
    CpdmaChan × Dequeue :=
  let desc := chan.head
  if desc = 0 then
    let stats := { chan.stats with emptyDequeue := chan.stats.emptyDequeue + 1 }
    ({ chan with stats := stats }, .fail (-enoent))
  else
    let mode := (mem desc).hwMode
    let outlen : ℤ := (mode &&& 0x7ff).toNat
    if testBits mode cpdmaDescOwner then
      let stats := { chan.stats with busyDequeue := chan.stats.busyDequeue + 1 }
      ({ chan with stats := stats }, .fail (-ebusy))
    else
      let outlen := if testBits mode cpdmaDescPassCrc then outlen - cpdmaDescCrcLen else outlen
      let status := mode &&& (cpdmaDescEoq ||| cpdmaDescTdComplete ||| cpdmaDescPortMask |||
        cpdmaRxVlanEncap)
      let stats := { chan.stats with goodDequeue := chan.stats.goodDequeue + 1 }
      let chan : CpdmaChan := { chan with
        head := nextDesc pool mem desc, cp := hwPtr pool desc, count := chan.count - 1
        stats := stats }
      if testBits status cpdmaDescEoq ∧ chan.head ≠ 0 then
        let stats := { chan.stats with requeue := chan.stats.requeue + 1 }
        ({ chan with hdp := hwPtr pool chan.head, stats := stats }, .took desc outlen status)
      else (chan, .took desc outlen status)

def cbStatus (status : U32) : ℤ :=
  if testBits status cpdmaDescTdComplete then -enosys else status.toNat

/-- What __cpdma_chan_free reads back from a descriptor: the token, the buffer
it releases with its length, and whether the buffer came in already mapped
(then it is only synced) or not (then it is unmapped). -/
structure Item (τ : Type*) where
  token : τ
  addr : U32
  len : U32
  extMapped : Bool
  deriving DecidableEq, Repr

def itemAt (mem : ℕ → CpdmaDesc τ) (desc : ℕ) : Item τ where
  token := (mem desc).swToken
  addr := (mem desc).swBuffer
  len :=
    if testBits (mem desc).swLen cpdmaDmaExtMap then (mem desc).swLen &&& ~~~cpdmaDmaExtMap
    else (mem desc).swLen
  extMapped := testBits (mem desc).swLen cpdmaDmaExtMap

def submitItem (params : CpdmaParams) (si : SubmitInfo τ) (buffer : U32) : Item τ where
  token := si.token
  addr := buffer
  len := BitVec.ofNat 32 (paddedLen params si.len)
  extMapped := si.dataDma != 0

def submitBuffer (si : SubmitInfo τ) (mapped : Option U32) : U32 :=
  if si.dataDma ≠ 0 then si.dataDma else mapped.getD 0

/-- __cpdma_chan_free, up to the call of the handler: the buffer is released
and the descriptor goes back to the pool. -/
def cpdmaChanFree (ctlr : CpdmaCtlr τ) (desc : ℕ) : CpdmaCtlr τ × Item τ :=
  ({ ctlr with avail := insert desc ctlr.avail }, itemAt ctlr.mem desc)

/-- One turn of the loop of cpdma_chan_stop that empties what is left. -/
def teardownDequeue (pool : CpdmaDescPool) (mem : ℕ → CpdmaDesc τ) (chan : CpdmaChan) :
    CpdmaChan :=
  { chan with
    head := nextDesc pool mem chan.head
    count := chan.count - 1
    stats := { chan.stats with teardownDequeue := chan.stats.teardownDequeue + 1 } }

/-- The first locked section of cpdma_chan_stop on a channel that is not being
torn down already. -/
def teardownStart (ctlr : CpdmaCtlr τ) (ch : ChanId) (chan : CpdmaChan) : CpdmaCtlr τ :=
  ((ctlr.dmaRegWrite (chanIntClear ch) (chanMask ch)).dmaRegWrite (chanTd ch)
    (BitVec.ofNat 32 (chanLinear ch))).setChan ch
    { chan with state := .teardown, cp := cpdmaTeardownValue }

end CpswDriver.Cpdma
