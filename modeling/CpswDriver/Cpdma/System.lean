import CpswDriver.Cpdma.Channel
import CpswDriver.Cpdma.Split
import CpswDriver.Lib.Runs

/-!
The CPDMA driver as a system of concurrent calls. A step is one section under
a spin lock, or the code between two of them: calls on any channels by any
number of threads interleave at that grain, with the DMA engine in between.
The engine is only trusted to leave a descriptor's link and its software words
alone; what it writes as mode and length, and to the head pointer registers,
is arbitrary here.
-/

namespace CpswDriver.Cpdma

variable {τ : Type*}

/-- Where cpdma_chan_stop returns to: its caller, or the loop of
cpdma_ctlr_stop at the given index. -/
inductive StopRet
  | caller
  | ctlrStop (i : ℕ)
  deriving DecidableEq, Repr

/-- What a call goes on with after the handler of a packet returns. -/
inductive Cont
  | process (quota : ℤ) (used : ℤ)
  | stopDrain (tdComplete : Bool) (ret : StopRet)
  | stopClean (ret : StopRet)
  deriving DecidableEq, Repr

/-- Where a call stands between two steps. -/
inductive Pc (τ : Type*)
  | done (ret : ℤ)
  /-- cpdma_chan_process before its loop test -/
  | process (ch : ChanId) (quota used : ℤ)
  /-- a descriptor is off the queue, __cpdma_chan_free is next -/
  | chanFree (ch : ChanId) (desc : ℕ) (outlen status : ℤ) (k : Cont)
  /-- the descriptor is back in the pool, the handler call is next -/
  | handler (ch : ChanId) (item : Item τ) (outlen status : ℤ) (k : Cont)
  | stopBegin (ch : ChanId) (ret : StopRet)
  | stopDrain (ch : ChanId) (ret : StopRet)
  | stopClean (ch : ChanId) (ret : StopRet)
  /-- cpdma_chan_start after the shaper is set -/
  | chanOn (ch : ChanId)
  | ctlrStart (i : ℕ) (prioMode : Bool)
  | ctlrStop (i : ℕ)
  deriving DecidableEq

/-- The driver's state: the controller, the calls in progress, the call that
holds the controller's lock across steps (cpdma_ctlr_start does), and, per
channel, the packets accepted, taken off the queue and handed back so far. -/
structure State (τ : Type*) where
  ctlr : CpdmaCtlr τ
  calls : List (Pc τ)
  lock : Option ℕ
  accepted : ChanId → List (Item τ)
  removed : ChanId → List (Item τ)
  handled : ChanId → List (Item τ)

inductive Op (τ : Type*)
  | submit (kind : SubmitKind) (ch : ChanId) (args : SubmitArgs τ) (mapped : Option U32)
  /-- the engine rewrites the mode and length words of a descriptor -/
  | engine (desc : ℕ) (hwMode hwLen : U32)
  | engineHdp (ch : ChanId) (hdp : U32)
  | chanProcess (ch : ChanId) (quota : ℤ)
  | chanStop (ch : ChanId)
  | chanStart (ch : ChanId)
  | ctlrStart
  | ctlrStop
  | chanCreate (ch : ChanId) (zalloc : Bool)
  | setWeight (ch : ChanId) (weight : ℤ)
  | setNumRxDescs (numRxDesc : ℤ)
  /-- the call with this number does its next section -/
  | advance (i : ℕ)

namespace StopRet

def resume : StopRet → ℤ → Pc τ
  | caller, ret => .done ret
  | ctlrStop i, _ => .ctlrStop (i + 1)

end StopRet

namespace Cont

def resume (ch : ChanId) : Cont → Pc τ
  | process quota used => .process ch quota used
  | stopDrain tdComplete ret => if tdComplete then .stopClean ch ret else .stopDrain ch ret
  | stopClean ret => .stopClean ch ret

end Cont

namespace State

def setChan (s : State τ) (ch : ChanId) (chan : CpdmaChan) : State τ :=
  { s with ctlr := s.ctlr.setChan ch chan }

def setPc (s : State τ) (i : ℕ) (pc : Pc τ) : State τ :=
  { s with calls := s.calls.set i pc }

def spawn (s : State τ) (pc : Pc τ) : State τ :=
  { s with calls := s.calls ++ [pc] }

def accept (s : State τ) (ch : ChanId) (item : Item τ) : State τ :=
  { s with accepted := Function.update s.accepted ch (s.accepted ch ++ [item]) }

/-- Descriptor `desc` has just left the queue of `ch`. -/
def remove (s : State τ) (ch : ChanId) (desc : ℕ) : State τ :=
  { s with removed := Function.update s.removed ch (s.removed ch ++ [itemAt s.ctlr.mem desc]) }

def handle (s : State τ) (ch : ChanId) (item : Item τ) : State τ :=
  { s with handled := Function.update s.handled ch (s.handled ch ++ [item]) }

end State

def submitStep (params : CpdmaParams) (s : State τ) (kind : SubmitKind) (ch : ChanId)
    (chan : CpdmaChan) (args : SubmitArgs τ) (mapped : Option U32) : State τ × ℤ :=
  let (ctlr, ret) := submitEntry kind params s.ctlr ch chan args mapped
  let s := { s with ctlr := ctlr }
  let si := submitInfo kind args
  if ret = 0 then (s.accept ch (submitItem params si (submitBuffer si mapped)), ret)
  else (s, ret)

/-- __cpdma_chan_process by call `i`, which goes on at `onFail` when nothing
could be taken. -/
def processStep (params : CpdmaParams) (s : State τ) (i : ℕ) (ch : ChanId) (chan : CpdmaChan)
    (onFail : Pc τ) (k : U32 → Cont) : State τ :=
  match cpdmaChanProcessLocked params.pool s.ctlr.mem chan with
  | (chan, .fail _) => (s.setChan ch chan).setPc i onFail
  | (chan, .took desc outlen status) =>
    ((s.setChan ch chan).remove ch desc).setPc i
      (.chanFree ch desc outlen (cbStatus status) (k status))

def stopBeginStep (s : State τ) (i : ℕ) (ch : ChanId) (chan : CpdmaChan) (ret : StopRet) :
    State τ :=
  if chan.state = .teardown then s.setPc i (ret.resume (-einval))
  else { s with ctlr := teardownStart s.ctlr ch chan }.setPc i (.stopDrain ch ret)

def stopCleanStep (params : CpdmaParams) (s : State τ) (i : ℕ) (ch : ChanId) (chan : CpdmaChan)
    (ret : StopRet) : State τ :=
  if chan.head = 0 then (s.setChan ch { chan with state := .idle }).setPc i (ret.resume 0)
  else
    ((s.setChan ch (teardownDequeue params.pool s.ctlr.mem chan)).remove ch chan.head).setPc i
      (.chanFree ch chan.head 0 (-enosys) (.stopClean ret))

/-- cpdma_ctlr_start zeroes the HDP and CP registers of the first num_chan
channels of each direction. -/
def zeroHdp (params : CpdmaParams) (channels : ChanId → Option CpdmaChan) (ch : ChanId) :
    Option CpdmaChan :=
  if chanLinear ch < params.numChan then
    (channels ch).map fun chan => { chan with hdp := 0, cp := 0 }
  else channels ch

/-- cpdma_ctlr_start up to its loop over the channels. The soft reset zeroes
the DMA registers. -/
def ctlrStartBegin (params : CpdmaParams) (ctlr : CpdmaCtlr τ) : CpdmaCtlr τ :=
  let ctlr := if params.hasSoftReset then { ctlr with regs := fun _ => 0 } else ctlr
  let ctlr := { ctlr with channels := zeroHdp params ctlr.channels }
  let ctlr := ctlr.dmaRegWrite cpdmaRxintmaskclear 0xffffffff
  let ctlr := ctlr.dmaRegWrite cpdmaTxintmaskclear 0xffffffff
  let ctlr := ctlr.dmaRegWrite cpdmaTxcontrol 1
  let ctlr := ctlr.dmaRegWrite cpdmaRxcontrol 1
  { ctlr with state := .active }

/-- One turn of the loop of cpdma_ctlr_start on an existing channel. -/
def ctlrStartChan (params : CpdmaParams) (ctlr : CpdmaCtlr τ) (ch : ChanId) (chan : CpdmaChan) :
    CpdmaCtlr τ :=
  let ctlr := (cpdmaChanSetChanShaper params ctlr ch chan).1
  (cpdmaChanOn params ctlr ch chan).1

def ctlrStartEnd (params : CpdmaParams) (ctlr : CpdmaCtlr τ) (prioMode : Bool) : CpdmaCtlr τ :=
  let ctlr := (cpdmaControlSetLocked params ctlr cpdmaTxPrioFixed (if prioMode then 1 else 0)).1
  (cpdmaControlSetLocked params ctlr cpdmaRxBufferOffset 0).1

def ctlrStopEnd (ctlr : CpdmaCtlr τ) : CpdmaCtlr τ :=
  let ctlr := ctlr.dmaRegWrite cpdmaRxintmaskclear 0xffffffff
  let ctlr := ctlr.dmaRegWrite cpdmaTxintmaskclear 0xffffffff
  let ctlr := ctlr.dmaRegWrite cpdmaTxcontrol 0
  let ctlr := ctlr.dmaRegWrite cpdmaRxcontrol 0
  { ctlr with state := .idle }

/-- The next section of call `i`, which stands at `pc`. -/
def advance (params : CpdmaParams) (s : State τ) (i : ℕ) : Pc τ → Option (State τ)
  | .done _ => none
  | .process ch quota used =>
    if used < quota then
      (s.ctlr.channels ch).map fun chan =>
        processStep params s i ch chan (.done used) fun _ => .process quota (used + 1)
    else some (s.setPc i (.done used))
  | .chanFree ch desc outlen status k =>
    let (ctlr, item) := cpdmaChanFree s.ctlr desc
    some ({ s with ctlr := ctlr }.setPc i (.handler ch item outlen status k))
  | .handler ch item _ _ k => some ((s.handle ch item).setPc i (k.resume ch))
  | .stopBegin ch ret => (s.ctlr.channels ch).map fun chan => stopBeginStep s i ch chan ret
  | .stopDrain ch ret =>
    (s.ctlr.channels ch).map fun chan =>
      processStep params s i ch chan (.stopClean ch ret)
        fun status => .stopDrain (testBits status cpdmaDescTdComplete) ret
  | .stopClean ch ret => (s.ctlr.channels ch).map fun chan => stopCleanStep params s i ch chan ret
  | .chanOn ch =>
    (s.ctlr.channels ch).map fun chan =>
      let (ctlr, ret) := cpdmaChanOn params s.ctlr ch chan
      { s with ctlr := ctlr }.setPc i (.done ret)
  | .ctlrStart j prioMode =>
    if h : j < 64 then
      match s.ctlr.channels ⟨j, h⟩ with
      | none => some (s.setPc i (.ctlrStart (j + 1) prioMode))
      | some chan =>
        -- off prio mode if all tx channels are rate limited
        let prioMode := prioMode || (isTxChan ⟨j, h⟩ && chan.rate = 0)
        some ({ s with ctlr := ctlrStartChan params s.ctlr ⟨j, h⟩ chan }.setPc i
          (.ctlrStart (j + 1) prioMode))
    else
      some ({ s with ctlr := ctlrStartEnd params s.ctlr prioMode, lock := none }.setPc i (.done 0))
  | .ctlrStop j =>
    if h : j < 64 then
      match s.ctlr.channels ⟨j, h⟩ with
      | none => some (s.setPc i (.ctlrStop (j + 1)))
      | some chan => some (stopBeginStep s i ⟨j, h⟩ chan (.ctlrStop j))
    else if s.lock = none then some ({ s with ctlr := ctlrStopEnd s.ctlr }.setPc i (.done 0))
    else none

/-- One step of the driver. An operation that needs the controller's lock is
undefined while another call holds it. -/
def step (params : CpdmaParams) (s : State τ) : Op τ → Option (State τ)
  | .submit kind ch args mapped =>
    (s.ctlr.channels ch).map fun chan => (submitStep params s kind ch chan args mapped).1
  | .engine desc hwMode hwLen =>
    let mem := Function.update s.ctlr.mem desc
      { s.ctlr.mem desc with hwMode := hwMode, hwLen := hwLen }
    some { s with ctlr := { s.ctlr with mem := mem } }
  | .engineHdp ch hdp => (s.ctlr.channels ch).map fun chan => s.setChan ch { chan with hdp := hdp }
  | .chanProcess ch quota =>
    (s.ctlr.channels ch).map fun chan =>
      s.spawn (if chan.state ≠ .active then .done (-einval) else .process ch quota 0)
  | .chanStop ch => (s.ctlr.channels ch).map fun _ => s.spawn (.stopBegin ch .caller)
  | .chanStart ch =>
    if s.lock ≠ none then none
    else (s.ctlr.channels ch).map fun chan =>
      let (ctlr, ret) := cpdmaChanSetChanShaper params s.ctlr ch chan
      { s with ctlr := ctlr }.spawn (if ret ≠ 0 then .done ret else .chanOn ch)
  | .ctlrStart =>
    if s.lock ≠ none then none
    else if s.ctlr.state ≠ .idle then some (s.spawn (.done (-ebusy)))
    else some ({ s with
      ctlr := ctlrStartBegin params s.ctlr,
      lock := some s.calls.length }.spawn (.ctlrStart 0 false))
  | .ctlrStop =>
    if s.lock ≠ none then none
    else if s.ctlr.state ≠ .active then some (s.spawn (.done (-einval)))
    else some ({ s with ctlr := { s.ctlr with state := .teardown } }.spawn (.ctlrStop 0))
  | .chanCreate ch zalloc =>
    if s.lock ≠ none then none
    else some { s with ctlr := (cpdmaChanCreate params s.ctlr ch zalloc).1 }
  | .setWeight ch weight =>
    if s.lock ≠ none then none
    else (s.ctlr.channels ch).map fun chan =>
      { s with ctlr := (cpdmaChanSetWeight s.ctlr ch chan weight).1 }
  | .setNumRxDescs numRxDesc =>
    if s.lock ≠ none then none
    else some { s with ctlr := (cpdmaSetNumRxDescs params.pool s.ctlr numRxDesc).1 }
  | .advance i => (s.calls[i]?).bind fun pc => advance params s i pc

theorem step_chanStart {params : CpdmaParams} {s s' : State τ} {ch : ChanId}
    (h : step params s (.chanStart ch) = some s') : s.lock = none ∧
      ∃ chan, s.ctlr.channels ch = some chan ∧
        s' = { s with ctlr := (cpdmaChanSetChanShaper params s.ctlr ch chan).1 }.spawn
          (if (cpdmaChanSetChanShaper params s.ctlr ch chan).2 ≠ 0 then
            .done (cpdmaChanSetChanShaper params s.ctlr ch chan).2 else .chanOn ch) := by
  simp only [step] at h
  split at h
  · cases h
  rename_i hlock
  obtain ⟨chan, hch, heq⟩ := Option.map_eq_some_iff.mp h
  exact ⟨not_not.mp hlock, chan, hch, heq.symm⟩

/-- Starting the controller is refused unless it is idle, and begins under the lock. -/
theorem step_ctlrStart {params : CpdmaParams} {s s' : State τ}
    (h : step params s .ctlrStart = some s') : s.lock = none ∧
      (s.ctlr.state ≠ .idle ∧ s' = s.spawn (.done (-ebusy)) ∨
        s.ctlr.state = .idle ∧ s' = { s with
          ctlr := ctlrStartBegin params s.ctlr
          lock := some s.calls.length }.spawn (.ctlrStart 0 false)) := by
  simp only [step] at h
  split at h
  · cases h
  rename_i hlock
  refine ⟨not_not.mp hlock, ?_⟩
  split at h
  · exact .inl ⟨‹_›, (Option.some.inj h).symm⟩
  · exact .inr ⟨not_not.mp ‹_›, (Option.some.inj h).symm⟩

theorem step_ctlrStop {params : CpdmaParams} {s s' : State τ}
    (h : step params s .ctlrStop = some s') : s.lock = none ∧
      (s.ctlr.state ≠ .active ∧ s' = s.spawn (.done (-einval)) ∨
        s.ctlr.state = .active ∧
          s' = { s with ctlr := { s.ctlr with state := .teardown } }.spawn (.ctlrStop 0)) := by
  simp only [step] at h
  split at h
  · cases h
  rename_i hlock
  refine ⟨not_not.mp hlock, ?_⟩
  split at h
  · exact .inl ⟨‹_›, (Option.some.inj h).symm⟩
  · exact .inr ⟨not_not.mp ‹_›, (Option.some.inj h).symm⟩

/-- The driver before any packet: the whole pool is free, the channels that
exist are idle and empty, and no call is in progress. -/
structure Initial (params : CpdmaParams) (s : State τ) : Prop where
  avail : s.ctlr.avail = params.pool.descs
  chans : ∀ ch chan, s.ctlr.channels ch = some chan →
    chan.head = 0 ∧ chan.count = 0 ∧ chan.state = .idle
  calls : s.calls = []
  lock : s.lock = none
  fresh : s.accepted = (fun _ => []) ∧ s.removed = (fun _ => []) ∧ s.handled = (fun _ => [])

/-- A pool of `n` descriptors of 32 bytes, as in the memory of a small part. -/
def smallPool (n : ℕ) (hn : n ≤ 1024) : CpdmaDescPool where
  hwAddr := 0x1000
  iomap := 0x8000
  descSize := 32
  numDesc := n
  genPool := genPoolFirstFit
  hwAddr_pos := by decide
  iomap_pos := by decide
  descSize_pos := by decide
  hw_end := by omega

def smallParams (n : ℕ) (hn : n ≤ 1024) : CpdmaParams where
  pool := smallPool n hn
  minPacketSize := 60
  numChan := 8
  hasSoftReset := true
  hasExtRegs := true
  minPacketSize_lt := by decide

theorem two_le_smallPool : 2 ≤ 1024 := by decide

/-- A driver with these channels and no packet anywhere. -/
def quiet (params : CpdmaParams) (token : τ) (state : CpdmaState)
    (channels : ChanId → Option CpdmaChan) (numRxDesc numTxDesc : ℤ) : State τ where
  ctlr := {
    state := state
    avail := params.pool.descs
    mem := fun _ => ⟨0, 0, 0, 0, token, 0, 0⟩
    channels := channels
    chanNum := (List.finRange 64).countP fun ch => (channels ch).isSome
    numRxDesc := numRxDesc
    numTxDesc := numTxDesc
    regs := fun _ => 0 }
  calls := []
  lock := none
  accepted := fun _ => []
  removed := fun _ => []
  handled := fun _ => []

def onePair (txNum rxNum : ℕ) (ch : ChanId) : Option CpdmaChan :=
  if ch = 0 then some { descNum := txNum } else if ch = 32 then some { descNum := rxNum } else none

theorem idle_onePair (txNum rxNum : ℕ) (ch : ChanId) (chan : CpdmaChan)
    (h : onePair txNum rxNum ch = some chan) :
    chan.head = 0 ∧ chan.count = 0 ∧ chan.state = .idle := by
  unfold onePair at h
  split at h
  · cases h
    exact ⟨rfl, rfl, rfl⟩
  split at h
  · cases h
    exact ⟨rfl, rfl, rfl⟩
  · cases h

theorem initial_quiet (params : CpdmaParams) (token : τ) (state : CpdmaState)
    {channels : ChanId → Option CpdmaChan}
    (h : ∀ ch chan, channels ch = some chan →
      chan.head = 0 ∧ chan.count = 0 ∧ chan.state = .idle) (numRxDesc numTxDesc : ℤ) :
    Initial params (quiet params token state channels numRxDesc numTxDesc) :=
  ⟨rfl, h, rfl, rfl, rfl, rfl, rfl⟩

end CpswDriver.Cpdma
