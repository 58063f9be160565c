import CpswDriver.Cpsw.Xmit
import CpswDriver.Lib.Account
import Mathlib.Algebra.BigOperators.Group.Finset.Basic

/-!
Whose the packets are that are sent: socket buffers of the network stack, XDP
frames that another device redirects here, and frames that the XDP program of a
port sends back. The driver queues a packet on a tx channel and frees it in
cpsw_tx_handler, or it refuses it. What is refused its caller has again.
Whether the tx queues of a device are stopped is left to `Xmit`.
-/

namespace CpswDriver.Sending

open Cpdma Runs Account
open Xmit (Port NetDeviceStats SkBuff CpswParams NetdevTx skbPutPadto qIdx)

/-- struct xdp_frame, as it is sent. Frames are numbered. -/
structure XdpFrame where
  frame : ℕ
  headroom : ℕ
  data : U32
  len : ℕ
  len_lt : len < 2 ^ 16

/-- What is submitted: cpsw_is_xdpf_handle tells the first two apart. -/
inductive Token
  | skb (skb : SkBuff)
  | xdpf (frame : ℕ)
  | page (page : ℕ)
  deriving DecidableEq

/-- A packet is known by its data, padding or not, an XDP frame by its number. -/
inductive Packet
  | skb (data : U32)
  | xdpf (frame : ℕ)
  | page (page : ℕ)
  deriving DecidableEq

def Token.packet : Token → Packet
  | .skb buf => .skb buf.data
  | .xdpf num => .xdpf num
  | .page num => .page num

/-- struct cpsw_meta_xdp -/
structure CpswMetaXdp where
  ndev : Port
  ch : ℕ

/-- The sizes that the compiler gives two structures. -/
structure SendParams extends CpswParams where
  sizeofXmeta : ℕ
  sizeofXdpFrame : ℕ

/-- Where a call stands between two steps. -/
inductive Call
  | xmit (skb : SkBuff)
  | xmitDone (ret : NetdevTx)
  | xdpXmit (p : Port) (frames : List XdpFrame) (nxmit : ℕ)
  | xdpXmitDone (ret : ℤ)

/-- The channels, what the driver notes in the head room of frames, statistics and calls;
and the record of the callers: what they gave the driver, what they got back of that, and what it
freed; and how many packets of each port went out to a channel. -/
structure State where
  cpdma : Cpdma.State Token
  xmeta : ℕ → CpswMetaXdp
  stats : Port → NetDeviceStats
  calls : List Call
  given : Multiset Packet
  back : Multiset Packet
  freed : Multiset Packet
  sent : Port → ℕ

inductive Op
  /-- a step of the channels, by any caller or the engine, other than the submit of a packet -/
  | cpdma (op : Cpdma.Op Token)
  | ndoStartXmit (skb : SkBuff) (padOk : Bool)
  | ndoXdpXmit (p : Port) (flagsOk : Bool) (frames : List XdpFrame)
  /-- the XDP program of a port answers XDP_TX; the frame is in a page -/
  | xdpTx (p : Port) (xdpf : XdpFrame) (pageDma : U32)
  /-- the call with this number does its next section -/
  | advance (j : ℕ) (mapped : Option U32)

namespace State

def setCall (s : State) (j : ℕ) (call : Call) : State := { s with calls := s.calls.set j call }

def spawn (s : State) (call : Call) : State := { s with calls := s.calls ++ [call] }

def setStats (s : State) (p : Port) (stats : NetDeviceStats) : State :=
  { s with stats := Function.update s.stats p stats }

def dropped (s : State) (p : Port) : State :=
  s.setStats p { s.stats p with txDropped := (s.stats p).txDropped + 1 }

def setMeta (s : State) (frame : ℕ) (xmeta : CpswMetaXdp) : State :=
  { s with xmeta := Function.update s.xmeta frame xmeta }

def give (s : State) (ps : Multiset Packet) : State := { s with given := s.given + ps }

def giveBack (s : State) (ps : Multiset Packet) : State := { s with back := s.back + ps }

def free (s : State) (p : Packet) : State := { s with freed := s.freed + {p} }

end State

/-- A submit to a tx channel for a port. A packet that is refused is counted as dropped. -/
def submitTx (params : SendParams) (s : State) (p : Port) (kind : SubmitKind) (ch : ChanId)
    (args : SubmitArgs Token) (mapped : Option U32) : Option (State × ℤ) :=
  (s.cpdma.ctlr.channels ch).map fun chan =>
    let (cpdma, ret) := submitStep params.cpdma s.cpdma kind ch chan args mapped
    let s := { s with cpdma := cpdma }
    if ret ≠ 0 then (s.dropped p, ret)
    else ({ s with sent := Function.update s.sent p (s.sent p + 1) }, ret)

/-- cpsw_xdp_tx_frame, with the bus address of the page if the frame is in one. -/
def cpswXdpTxFrame (params : SendParams) (s : State) (p : Port) (xdpf : XdpFrame)
    (page : Option U32) (mapped : Option U32) : Option (State × ℤ) :=
  let s := s.setMeta xdpf.frame ⟨p, 0⟩
  match page with
  | some dma =>
    submitTx params s p .submitMapped (params.txv 0)
      { token := .xdpf xdpf.frame
        data := dma + BitVec.ofNat 32 (xdpf.headroom + params.sizeofXdpFrame)
        len := xdpf.len
        directed := params.emacPort p } mapped
  | none =>
    if xdpf.headroom < params.sizeofXmeta then some (s, -einval)
    else
      submitTx params s p .submit (params.txv 0)
        { token := .xdpf xdpf.frame
          data := xdpf.data
          len := xdpf.len
          directed := params.emacPort p } mapped

/-- cpsw_tx_handler -/
def cpswTxHandler (s : State) (token : Token) (len : ℤ) : State :=
  let count (s : State) (p : Port) : State :=
    let stats := s.stats p
    s.setStats p { stats with txPackets := stats.txPackets + 1, txBytes := stats.txBytes + len }
  match token with
  | .skb skb => count (s.free (.skb skb.data)) skb.dev
  | .xdpf frame => count (s.free (.xdpf frame)) (s.xmeta frame).ndev
  | .page _ => s

/-- cpsw_ndo_start_xmit up to the submit. skb_put_padto frees a packet that it cannot pad. -/
def cpswNdoStartXmit (params : SendParams) (s : State) (skb : SkBuff) (padOk : Bool) : State :=
  let s := s.give {.skb skb.data}
  if skb.len < params.txPacketMin skb.dev ∧ !padOk then
    ((s.free (.skb skb.data)).dropped skb.dev).spawn (.xmitDone .drop)
  else s.spawn (.xmit (skbPutPadto params.toCpswParams skb))

def framePackets (frames : List XdpFrame) : Multiset Packet :=
  (frames.map fun xdpf => Packet.xdpf xdpf.frame : List Packet)

/-- The callers of ndo_xdp_xmit have the frames again from the returned number on. -/
def xdpReturn (s : State) (frames : List XdpFrame) (ret : ℤ) : State :=
  s.giveBack (framePackets (frames.drop ret.toNat))

/-- cpsw_ndo_xdp_xmit up to its loop. -/
def cpswNdoXdpXmit (s : State) (p : Port) (flagsOk : Bool) (frames : List XdpFrame) : State :=
  let s := s.give (framePackets frames)
  if !flagsOk then (xdpReturn s frames (-einval)).spawn (.xdpXmitDone (-einval))
  else s.spawn (.xdpXmit p frames 0)

/-- The case XDP_TX of cpsw_run_xdp. -/
def runXdpTx (params : SendParams) (s : State) (p : Port) (xdpf : XdpFrame) (pageDma : U32) :
    Option State :=
  (cpswXdpTxFrame params (s.give {.xdpf xdpf.frame}) p xdpf (some pageDma) none).map fun (s, ret) =>
    if ret ≠ 0 then s.free (.xdpf xdpf.frame) else s

def advance (params : SendParams) (s : State) (j : ℕ) (mapped : Option U32) :
    Call → Option State
  | .xmit skb =>
    let args := { token := .skb skb, data := skb.data, len := skb.len,
                  directed := params.emacPort skb.dev }
    (submitTx params s skb.dev .submit (params.txv (qIdx params.toCpswParams skb)) args mapped).map
      fun (s, ret) =>
        if ret ≠ 0 then (s.giveBack {.skb skb.data}).setCall j (.xmitDone .busy)
        else s.setCall j (.xmitDone .ok)
  | .xdpXmit p frames nxmit =>
    match frames[nxmit]? with
    | none => some ((xdpReturn s frames nxmit).setCall j (.xdpXmitDone nxmit))
    | some xdpf =>
      if xdpf.len < params.txPacketMin p then
        some ((xdpReturn s frames nxmit).setCall j (.xdpXmitDone nxmit))
      else (cpswXdpTxFrame params s p xdpf none mapped).map fun (s, ret) =>
        if ret ≠ 0 then (xdpReturn s frames nxmit).setCall j (.xdpXmitDone nxmit)
        else s.setCall j (.xdpXmit p frames (nxmit + 1))
  | .xmitDone _ | .xdpXmitDone _ => none

/-- cpsw_tx_handler runs when a packet of a tx channel is handed back. -/
def handBack (s : State) : Option (Delivery Token) → State
  | some d => if isTxChan d.ch then cpswTxHandler s d.item.token d.outlen else s
  | none => s

def step (params : SendParams) (s : State) : Op → Option State
  | .cpdma op =>
    if op.submitsTo.any isTxChan then none
    else (Cpdma.step params.cpdma s.cpdma op).map fun cpdma =>
      handBack { s with cpdma := cpdma } (op.delivers s.cpdma)
  | .ndoStartXmit skb padOk => some (cpswNdoStartXmit params s skb padOk)
  | .ndoXdpXmit p flagsOk frames => some (cpswNdoXdpXmit s p flagsOk frames)
  | .xdpTx p xdpf pageDma => runXdpTx params s p xdpf pageDma
  | .advance j mapped => (s.calls[j]?).bind fun call => advance params s j mapped call

def txChans : Finset ChanId := Finset.univ.filter fun ch => isTxChan ch = true

def flight (params : SendParams) (c : Cpdma.State Token) : Multiset Token :=
  ∑ ch ∈ txChans, (inFlight params.cpdma c ch).map Item.token

def Call.packets : Call → Multiset Packet
  | .xmit skb => {.skb skb.data}
  | .xdpXmit _ frames nxmit => framePackets (frames.drop nxmit)
  | .xmitDone _ | .xdpXmitDone _ => 0

/-- What the driver has: packets that a call is about to submit, and those in flight. -/
def held (params : SendParams) (s : State) : Multiset Packet :=
  CallTable.total Call.packets s.calls + (flight params s.cpdma).map Token.packet

def sentBy (xmeta : ℕ → CpswMetaXdp) (p : Port) : Token → Bool
  | .skb skb => skb.dev = p
  | .xdpf frame => (xmeta frame).ndev = p
  | .page _ => false

/-- The driver is given only what it does not have and has not freed. -/
def Owned (params : SendParams) (s : State) : Op → Prop
  | .cpdma op => Cpdma.LenOk s.cpdma op
  | .ndoStartXmit skb _ => Fresh s.freed (held params s) {.skb skb.data}
  | .ndoXdpXmit _ _ frames => Fresh s.freed (held params s) (framePackets frames)
  | .xdpTx _ xdpf _ => Fresh s.freed (held params s) {.xdpf xdpf.frame}
  | .advance .. => True

instance (params : SendParams) (s : State) : DecidablePred (Owned params s)
  | .cpdma op => inferInstanceAs (Decidable (Cpdma.LenOk s.cpdma op))
  | .ndoStartXmit skb _ =>
    inferInstanceAs (Decidable (Fresh s.freed (held params s) {.skb skb.data}))
  | .ndoXdpXmit _ _ frames =>
    inferInstanceAs (Decidable (Fresh s.freed (held params s) (framePackets frames)))
  | .xdpTx _ xdpf _ =>
    inferInstanceAs (Decidable (Fresh s.freed (held params s) {.xdpf xdpf.frame}))
  | .advance .. => .isTrue trivial

end CpswDriver.Sending
