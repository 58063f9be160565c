import CpswDriver.Cpsw.Slaves
import CpswDriver.Kernel
import CpswDriver.Lib.Custody
import CpswDriver.Lib.Runs

/-!
The pages of the receive channels. A page is taken from the pool of a channel and
queued there. When it comes back with a frame, another page is queued in its place,
and it goes up the stack as an skb, to another queue as an XDP frame, or back to
its pool.
-/

namespace CpswDriver.RxPages

open Custody Runs

/-- Pages are numbered in the order in which they were first taken. -/
abbrev Page := ℕ

inductive Place
  | pool (ch : ℕ)
  | queue (ch : ℕ)
  | handled
  | skb
  | frame
  deriving DecidableEq

/-- struct cpsw_meta_xdp -/
structure CpswMetaXdp where
  ndev : Port
  ch : ℕ

structure NetDeviceStats where
  rxPackets : ℕ := 0
  rxBytes : ℤ := 0
  rxDropped : ℕ := 0
  txDropped : ℕ := 0

/-- The pages, the pool that each was taken for, what the driver notes in them, and the
statistics of the devices. -/
structure State where
  books : Place → List Page
  taken : ℕ
  home : Page → ℕ
  xmeta : Page → CpswMetaXdp
  stats : Port → NetDeviceStats

/-- What the driver and its surroundings do to pages, one thing at a time. -/
inductive Move
  | complete (ch : ℕ) (page : Page)
  | alloc (ch : ℕ) (page : Page)
  | setMeta (page : Page) (xmeta : CpswMetaXdp)
  | recycle (ch : ℕ) (page : Page)
  | submit (ch : ℕ) (page : Page)
  | handUp (page : Page)
  | giveFrame (page : Page)
  | returnFrame (page : Page)
  | release (place : Place) (page : Page)
  | rxDropped (ndev : Port)
  | rxPacket (ndev : Port) (len : ℤ)
  | txDropped (ndev : Port)

namespace State

def setStats (s : State) (ndev : Port) (stats : NetDeviceStats) : State :=
  { s with stats := Function.update s.stats ndev stats }

def pass (s : State) (p p' : Place) (page : Page) : State :=
  { s with books := Custody.pass s.books p p' page }

/-- A page from the pool, or one that was never taken before. -/
def alloc (s : State) (ch : ℕ) (page : Page) : State :=
  if page = s.taken then
    { s with
      books := give s.books .handled page
      taken := s.taken + 1
      home := Function.update s.home page ch }
  else s.pass (.pool ch) .handled page

def apply (s : State) : Move → State
  | .complete ch page => s.pass (.queue ch) .handled page
  | .alloc ch page => s.alloc ch page
  | .setMeta page xmeta => { s with xmeta := Function.update s.xmeta page xmeta }
  | .recycle ch page => s.pass .handled (.pool ch) page
  | .submit ch page => s.pass .handled (.queue ch) page
  | .handUp page => s.pass .handled .skb page
  | .giveFrame page => s.pass .handled .frame page
  | .returnFrame page => s.pass .handled (.pool (s.home page)) page
  | .release place page => s.pass place (.pool (s.home page)) page
  | .rxDropped ndev =>
    s.setStats ndev { s.stats ndev with rxDropped := (s.stats ndev).rxDropped + 1 }
  | .rxPacket ndev len =>
    let stats := s.stats ndev
    s.setStats ndev
      { stats with rxPackets := stats.rxPackets + 1, rxBytes := stats.rxBytes + len }
  | .txDropped ndev =>
    s.setStats ndev { s.stats ndev with txDropped := (s.stats ndev).txDropped + 1 }

end State

def applyAll (s : State) (ms : List Move) : State := ms.foldl State.apply s

def moments (s : State) (ms : List Move) : List State := ms.scanl State.apply s

/-- How page_pool_dev_alloc_pages answers. -/
inductive AllocAnswer
  | fail
  | pooled (i : ℕ)
  | fresh

def pagePoolDevAllocPages (s : State) (ch : ℕ) : AllocAnswer → Option Page
  | .fail => none
  | .pooled i => (s.books (.pool ch))[i]?
  | .fresh => some s.taken

inductive XdpAct
  | pass
  | tx
  | redirect
  | drop
  | aborted
  | unknown
  deriving DecidableEq

/-- What the functions that the handler calls answer. -/
structure Answers where
  alloc : AllocAnswer
  prog : Bool
  act : XdpAct
  /-- data_end - data, after the program -/
  xdpLen : ℤ
  xdpf : Bool
  txSubmit : ℤ
  redirect : ℤ
  skb : Bool
  submit : ℤ

/-- What the handler reads of struct cpsw_common and of its devices. -/
structure Cpsw where
  usageCount : ℤ
  netifRunning : Port → Bool
  xdpProg : Port → Bool

def cpswXdpConsumed : ℤ := 1
def cpswXdpPass : ℤ := 0

/-- CPDMA_RX_SOURCE_PORT, of a status that is not negative -/
def cpdmaRxSourcePort (status : ℤ) : ℕ := status.toNat / 2 ^ 16 % 8

/-- The device that the frame is for; there are two slaves. -/
def rxNdev (ndev : Port) (status : ℤ) : Port :=
  if status < 0 then ndev
  else match cpdmaRxSourcePort status with
    | 0 => ndev
    | 1 => 0
    | _ => 1

def requeue (ndev : Port) (ch : ℕ) (newPage : Page) (ret : ℤ) : List Move :=
  .setMeta newPage ⟨ndev, ch⟩ ::
    if ret < 0 then [.recycle ch newPage] else [.submit ch newPage]

/-- With a page: the frame is in it. -/
def cpswXdpTxFrame (ndev : Port) (page : Page) (ret : ℤ) : List Move × ℤ :=
  (.setMeta page ⟨ndev, 0⟩ :: if ret ≠ 0 then [.txDropped ndev] else [.giveFrame page], ret)

def cpswRunXdp (ndev : Port) (ch : ℕ) (page : Page) (a : Answers) : List Move × ℤ :=
  if !a.prog then ([], cpswXdpPass)
  else
    match a.act with
    | .pass => ([], cpswXdpPass)
    | .tx =>
      if !a.xdpf then ([.recycle ch page], cpswXdpConsumed)
      else
        let (moves, ret) := cpswXdpTxFrame ndev page a.txSubmit
        (moves ++ (if ret ≠ 0 then [.returnFrame page] else []) ++ [.rxPacket ndev a.xdpLen],
          cpswXdpConsumed)
    | .redirect =>
      if a.redirect ≠ 0 then ([.recycle ch page], cpswXdpConsumed)
      else ([.giveFrame page, .rxPacket ndev a.xdpLen], cpswXdpConsumed)
    | .unknown | .aborted | .drop => ([.rxPacket ndev a.xdpLen, .recycle ch page], cpswXdpConsumed)

def passSkb (ndev : Port) (ch : ℕ) (page : Page) (len : ℤ) (skb : Bool) : List Move :=
  if !skb then [.rxDropped ndev, .recycle ch page]
  else [.handUp page, .rxPacket ndev len]

def cpswRxHandler (cpsw : Cpsw) (s : State) (page : Page) (len status : ℤ) (a : Answers) :
    List Move :=
  let ch := (s.xmeta page).ch
  let ndev := rxNdev (s.xmeta page).ndev status
  if status < 0 ∨ !cpsw.netifRunning ndev then
    if cpsw.usageCount ≠ 0 ∧ 0 ≤ status then requeue ndev ch page a.submit
    else [.recycle ch page]  -- the interface is going down, pages are purged
  else
    match pagePoolDevAllocPages s ch a.alloc with
    | none => .rxDropped ndev :: requeue ndev ch page a.submit
    | some newPage =>
      .alloc ch newPage ::
        if cpsw.xdpProg ndev then
          let (moves, ret) := cpswRunXdp ndev ch page a
          if ret ≠ cpswXdpPass then moves ++ requeue ndev ch newPage a.submit
          else
            let len := if a.prog then a.xdpLen else len
            moves ++ passSkb ndev ch page len a.skb ++ requeue ndev ch newPage a.submit
        else passSkb ndev ch page len a.skb ++ requeue ndev ch newPage a.submit

/-- The handler of the build without XDP. -/
def ethRxHandler (cpsw : Cpsw) (s : State) (page : Page) (len status : ℤ) (a : Answers) :
    List Move :=
  let ch := (s.xmeta page).ch
  let ndev := rxNdev (s.xmeta page).ndev status
  if status < 0 ∨ !cpsw.netifRunning ndev then
    if cpsw.usageCount ≠ 0 ∧ 0 ≤ status then requeue ndev ch page a.submit
    else [.recycle ch page]
  else
    match pagePoolDevAllocPages s ch a.alloc with
    | none => .rxDropped ndev :: requeue ndev ch page a.submit
    | some newPage =>
      .alloc ch newPage :: passSkb ndev ch page len a.skb ++ requeue ndev ch newPage a.submit

structure FillAnswers where
  alloc : ℕ → ℕ → AllocAnswer
  submit : ℕ → ℕ → ℤ

/-- The turns of the two loops of cpsw_fill_rx_channels that are left. -/
def fillTurns (ndev : Port) (a : FillAnswers) : State → List (ℕ × ℕ) → List Move × ℤ
  | _, [] => ([], 0)
  | s, (ch, i) :: turns =>
    match pagePoolDevAllocPages s ch (a.alloc ch i) with
    | none => ([], -enomem)
    | some page =>
      let ret := a.submit ch i
      let moves := [.alloc ch page, .setMeta page ⟨ndev, ch⟩]
      if ret < 0 then (moves ++ [.recycle ch page], ret)
      else
        let moves := moves ++ [.submit ch page]
        let (rest, ret) := fillTurns ndev a (applyAll s moves) turns
        (moves ++ rest, ret)

def cpswFillRxChannels (rxChNum : ℕ) (rxBufNum : ℕ → ℕ) (ndev : Port) (a : FillAnswers)
    (s : State) : List Move × ℤ :=
  fillTurns ndev a s ((List.range rxChNum).flatMap fun ch =>
    (List.range (rxBufNum ch)).map fun i => (ch, i))

/-- The driver with XDP, and the build of it without. -/
inductive Build
  | cpsw
  | eth

def rxHandler : Build → Cpsw → State → Page → ℤ → ℤ → Answers → List Move
  | .cpsw => cpswRxHandler
  | .eth => ethRxHandler

inductive Op
  | fillRxChannels (rxChNum : ℕ) (rxBufNum : ℕ → ℕ) (ndev : Port) (a : FillAnswers)
  | completion (cpsw : Cpsw) (ch i : ℕ) (len status : ℤ) (a : Answers)
  | skbFreed (i : ℕ)
  | frameFreed (i : ℕ)

/-- The handler's part of a completion, after the page has left its channel. -/
def handlerMoves (b : Build) (cpsw : Cpsw) (s : State) (ch : ℕ) (page : Page) (len status : ℤ)
    (a : Answers) : List Move :=
  rxHandler b cpsw (s.apply (.complete ch page)) page len status a

/-- The moves of a step, if there is the page that it is about. -/
def movesOf (b : Build) (s : State) : Op → Option (List Move)
  | .fillRxChannels rxChNum rxBufNum ndev a =>
    some (cpswFillRxChannels rxChNum rxBufNum ndev a s).1
  | .completion cpsw ch i len status a => (s.books (.queue ch))[i]?.map fun page =>
    .complete ch page :: handlerMoves b cpsw s ch page len status a
  | .skbFreed i => (s.books .skb)[i]?.map fun page => [.release .skb page]
  | .frameFreed i => (s.books .frame)[i]?.map fun page => [.release .frame page]

def step (b : Build) (s : State) (op : Op) : Option State := (movesOf b s op).map (applyAll s)

/-- A frame came in on a slave that there is. -/
def WellFormed : State → Op → Prop
  | _, .completion _ _ _ _ status _ => cpdmaRxSourcePort status ≤ 2
  | _, _ => True

/-- Stopping a channel hands back its pages, the oldest first, with an error. -/
def teardown (cpsw : Cpsw) (ch n : ℕ) (a : Answers) : List Op :=
  List.replicate n (.completion cpsw ch 0 0 (-enosys) a)

def start (xmeta : Page → CpswMetaXdp) : State where
  books := fun _ => []
  taken := 0
  home := fun _ => 0
  xmeta := xmeta
  stats := fun _ => {}

/-- Each page taken from a pool is in one place, there once, and in no pool but its own. -/
structure Conserved (s : State) : Prop where
  place : ∀ page < s.taken, ∃! p, page ∈ s.books p
  once : ∀ p, (s.books p).Nodup
  known : ∀ p, ∀ page ∈ s.books p, page < s.taken
  pools : ∀ ch, ∀ page ∈ s.books (.pool ch), s.home page = ch

/-- What becomes of a page that the handler had. -/
inductive Fate
  | recycled
  | requeued
  | givenAway
  deriving DecidableEq

def Move.fate : Move → Option (Page × Fate)
  | .recycle _ page | .returnFrame page => some (page, .recycled)
  | .submit _ page => some (page, .requeued)
  | .handUp page | .giveFrame page => some (page, .givenAway)
  | _ => none

def fates (ms : List Move) : List (Page × Fate) := ms.filterMap Move.fate

/-- The pages that end in a way. -/
def pagesWith (k : Fate) (ms : List Move) : List Page :=
  (fates ms).filterMap fun f => if f.2 = k then some f.1 else none

/-- The handler recycles no page twice, and a page that it requeues only once. -/
structure CallSound (ms : List Move) : Prop where
  recycled : (pagesWith .recycled ms).Nodup
  apart : ∀ page ∈ pagesWith .requeued ms,
    page ∉ pagesWith .recycled ms ∧ page ∉ pagesWith .givenAway ms

/-- The handler keeps no page for the channel: the channel is torn down, or the port is not
running and none is in use. -/
def Purged (cpsw : Cpsw) (ndev : Port) (status : ℤ) : Prop :=
  status < 0 ∨ cpsw.netifRunning ndev = false ∧ cpsw.usageCount = 0

instance (cpsw : Cpsw) (ndev : Port) (status : ℤ) : Decidable (Purged cpsw ndev status) := by
  unfold Purged
  infer_instance

end CpswDriver.RxPages
