import CpswDriver.Cpdma.Client

/-!
Transmitting: cpsw_ndo_start_xmit on the net devices of the two ports, and
cpsw_tx_handler, over the channels that both ports share. A tx queue of a
device is stopped by an xmit that finds no free descriptor, and woken by the
same xmit's second look or by the handler of a packet that names the queue.
Xmits and handler calls interleave at every locked section of the channels and
at every access to a queue's state.
-/

namespace CpswDriver.Xmit

open Cpdma Runs

abbrev Port := Fin 2

abbrev TxQueue := Port × ℕ

/-- struct sk_buff, as the driver reads it. The stack transmits a packet on
the packet's own device. -/
structure SkBuff where
  dev : Port
  queueMapping : ℕ
  data : U32
  len : ℕ
  len_lt : len < 2 ^ 16
  deriving DecidableEq

/-- What the driver submits: packets to send and pages to receive into. -/
inductive Token
  | skb (skb : SkBuff)
  | page (page : ℕ)
  deriving DecidableEq

structure NetDeviceStats where
  txPackets : ℕ := 0
  txBytes : ℤ := 0
  txDropped : ℕ := 0
  deriving DecidableEq

/-- What the two devices read of struct cpsw_common and of their struct cpsw_priv. -/
structure CpswParams where
  cpdma : CpdmaParams
  txChNum : ℕ
  txv : ℕ → ChanId
  emacPort : Port → ℕ
  txPacketMin : Port → ℕ
  txChNum_pos : 0 < txChNum
  txv_tx : ∀ q, isTxChan (txv q) = true
  txPacketMin_lt : ∀ p, txPacketMin p < 2 ^ 16

inductive NetdevTx
  | ok
  | busy
  | drop
  deriving DecidableEq

/-- Where an xmit stands between two steps. -/
inductive XmitPc
  | submit (skb : SkBuff)
  | checkFree (txq : TxQueue)
  | stopQueue (txq : TxQueue) (ret : NetdevTx)
  | recheck (txq : TxQueue) (ret : NetdevTx)
  | wakeQueue (txq : TxQueue) (ret : NetdevTx)
  | done (ret : NetdevTx)
  deriving DecidableEq

/-- The channels, the state of the tx queues, the xmits in progress, and the
queues that handler calls have found stopped and are about to wake. -/
structure State where
  cpdma : Cpdma.State Token
  stopped : TxQueue → Bool
  stats : Port → NetDeviceStats
  xmits : List XmitPc
  wakes : List TxQueue

inductive Op
  /-- a step of the channels, by any caller or the engine, other than the submit of a packet -/
  | cpdma (op : Cpdma.Op Token)
  | startXmit (skb : SkBuff) (padOk : Bool)
  /-- the xmit with this number does its next section -/
  | advance (j : ℕ) (mapped : Option U32)
  /-- the handler call with this number wakes its queue -/
  | wakeQueue (j : ℕ)

namespace State

def setXmit (s : State) (j : ℕ) (pc : XmitPc) : State := { s with xmits := s.xmits.set j pc }

def setStopped (s : State) (txq : TxQueue) (b : Bool) : State :=
  { s with stopped := Function.update s.stopped txq b }

def setStats (s : State) (p : Port) (stats : NetDeviceStats) : State :=
  { s with stats := Function.update s.stats p stats }

def dropped (s : State) (p : Port) : State :=
  s.setStats p { s.stats p with txDropped := (s.stats p).txDropped + 1 }

end State

/-- skb_put_padto, when the padding can be added. -/
def skbPutPadto (params : CpswParams) (skb : SkBuff) : SkBuff where
  dev := skb.dev
  queueMapping := skb.queueMapping
  data := skb.data
  len := max skb.len (params.txPacketMin skb.dev)
  len_lt := max_lt skb.len_lt (params.txPacketMin_lt skb.dev)

def qIdx (params : CpswParams) (skb : SkBuff) : ℕ :=
  if params.txChNum ≤ skb.queueMapping then skb.queueMapping % params.txChNum else skb.queueMapping

/-- cpsw_ndo_start_xmit up to the submit. Padding is only asked for a short packet. -/
def cpswNdoStartXmit (params : CpswParams) (s : State) (skb : SkBuff) (padOk : Bool) : State :=
  if skb.len < params.txPacketMin skb.dev ∧ !padOk then
    let s := s.dropped skb.dev
    { s with xmits := s.xmits ++ [.done .drop] }
  else { s with xmits := s.xmits ++ [.submit (skbPutPadto params skb)] }

/-- cpsw_tx_handler. It looks the queue up by the packet's own mapping, and
wakes it in a step of its own. -/
def cpswTxHandler (s : State) (token : Token) (len : ℤ) : State :=
  match token with
  | .skb skb =>
    let txq := (skb.dev, skb.queueMapping)
    let s := if s.stopped txq then { s with wakes := s.wakes ++ [txq] } else s
    let stats := s.stats skb.dev
    s.setStats skb.dev
      { stats with txPackets := stats.txPackets + 1, txBytes := stats.txBytes + len }
  | .page _ => s

def xmitArgs (params : CpswParams) (skb : SkBuff) : SubmitArgs Token where
  token := .skb skb
  data := skb.data
  len := skb.len
  directed := params.emacPort skb.dev

/-- The submit of an xmit and the branch on its result. -/
def submitXmit (params : CpswParams) (s : State) (j : ℕ) (skb : SkBuff) (chan : CpdmaChan)
    (mapped : Option U32) : State :=
  let q := qIdx params skb
  let (cpdma, ret) :=
    submitStep params.cpdma s.cpdma .submit (params.txv q) chan (xmitArgs params skb) mapped
  let s := { s with cpdma := cpdma }
  if ret ≠ 0 then (s.dropped skb.dev).setXmit j (.stopQueue (skb.dev, q) .busy)
  else s.setXmit j (.checkFree (skb.dev, q))

/-- The next section of xmit `j`, which stands at `pc`. -/
def advance (params : CpswParams) (s : State) (j : ℕ) (mapped : Option U32) :
    XmitPc → Option State
  | .submit skb =>
    (s.cpdma.ctlr.channels (params.txv (qIdx params skb))).map fun chan =>
      submitXmit params s j skb chan mapped
  | .checkFree txq =>
    (s.cpdma.ctlr.channels (params.txv txq.2)).map fun chan =>
      s.setXmit j (if cpdmaCheckFreeTxDesc s.cpdma.ctlr chan then .done .ok else .stopQueue txq .ok)
  | .stopQueue txq ret => some ((s.setStopped txq true).setXmit j (.recheck txq ret))
  | .recheck txq ret =>
    (s.cpdma.ctlr.channels (params.txv txq.2)).map fun chan =>
      s.setXmit j (if cpdmaCheckFreeTxDesc s.cpdma.ctlr chan then .wakeQueue txq ret else .done ret)
  | .wakeQueue txq ret => some ((s.setStopped txq false).setXmit j (.done ret))
  | .done _ => none

/-- cpsw_tx_handler runs when a packet of a tx channel is handed back. -/
def handBack (s : State) : Option (Delivery Token) → State
  | some d => if isTxChan d.ch then cpswTxHandler s d.item.token d.outlen else s
  | none => s

def cpdmaStep (params : CpswParams) (s : State) (op : Cpdma.Op Token) : Option State :=
  if op.submitsTo.any isTxChan then none
  else (Cpdma.step params.cpdma s.cpdma op).map fun cpdma =>
    handBack { s with cpdma := cpdma } (op.delivers s.cpdma)

def step (params : CpswParams) (s : State) : Op → Option State
  | .cpdma op => cpdmaStep params s op
  | .startXmit skb padOk => some (cpswNdoStartXmit params s skb padOk)
  | .advance j mapped => (s.xmits[j]?).bind fun pc => advance params s j mapped pc
  | .wakeQueue j =>
    (s.wakes[j]?).map fun txq => { s.setStopped txq false with wakes := s.wakes.eraseIdx j }

/-- The two devices just after their links came up. -/
structure Initial (params : CpswParams) (s : State) : Prop where
  cpdma : Cpdma.Initial params.cpdma s.cpdma
  stopped : s.stopped = fun _ => false
  xmits : s.xmits = []
  wakes : s.wakes = []

variable {params : CpswParams} {s s' : State} {txq : TxQueue}

/-- The queue that the handler of a packet looks at. -/
def Token.wakes : Token → Option TxQueue
  | .skb buf => some (buf.dev, buf.queueMapping)
  | .page _ => none

/-- A packet in flight on the queue's channel will wake the queue when it
completes, or its handler call has started to. -/
def WillWake (params : CpswParams) (s : State) (txq : TxQueue) : Prop :=
  txq ∈ s.wakes ∨
    ∃ item ∈ inFlight params.cpdma s.cpdma (params.txv txq.2), item.token.wakes = some txq

/-- An xmit that has stopped the queue and not looked again yet, or is about to wake it. -/
def XmitPc.decides (txq : TxQueue) : XmitPc → Bool
  | .recheck txq' _ => txq' = txq
  | .wakeQueue txq' _ => txq' = txq
  | _ => false

def XmitPc.isDone : XmitPc → Bool
  | .done _ => true
  | _ => false

/-- No queue is silent: when no xmit is in progress, a stopped queue whose
channel has a free descriptor will be woken. -/
def NoSilentQueue (params : CpswParams) (s : State) : Prop :=
  (∀ pc ∈ s.xmits, pc.isDone = true) → ∀ txq chan,
    s.cpdma.ctlr.channels (params.txv txq.2) = some chan → s.stopped txq = true →
    cpdmaCheckFreeTxDesc s.cpdma.ctlr chan = true → WillWake params s txq

/-- Callers of the channels pass packets shorter than 64 KiB. -/
def LenOk (s : State) : Op → Prop
  | .cpdma op => Cpdma.LenOk s.cpdma op
  | _ => True

/-- The xmit that leaves its queue stopped, with the queue: its second look
finds no free descriptor. -/
def Op.givesUp (params : CpswParams) (s : State) : Op → Option (ℕ × TxQueue)
  | .advance j _ =>
    match s.xmits[j]? with
    | some (.recheck txq _) =>
      if (s.cpdma.ctlr.channels (params.txv txq.2)).any (cpdmaCheckFreeTxDesc s.cpdma.ctlr)
        then none
      else some (j, txq)
    | _ => none
  | _ => none

/-- When an xmit leaves its queue stopped, some packet that names the queue is
in flight, or another xmit has its second look at the queue ahead. -/
def Covered (params : CpswParams) (s : State) (op : Op) : Prop :=
  LenOk s op ∧ ∀ x ∈ op.givesUp params s,
    WillWake params s x.2 ∨ ∃ pc ∈ s.xmits.eraseIdx x.1, pc.decides x.2 = true

instance (s : State) : DecidablePred (LenOk s)
  | .cpdma op => inferInstanceAs (Decidable (Cpdma.LenOk s.cpdma op))
  | .startXmit .. | .advance .. | .wakeQueue .. => inferInstanceAs (Decidable True)

instance (params : CpswParams) (s : State) (txq : TxQueue) : Decidable (WillWake params s txq) :=
  haveI : Decidable (∃ item ∈ inFlight params.cpdma s.cpdma (params.txv txq.2),
      item.token.wakes = some txq) := Multiset.decidableExistsMultiset
  inferInstanceAs (Decidable (_ ∨ _))

instance (params : CpswParams) (s : State) (op : Op) : Decidable (Covered params s op) :=
  inferInstanceAs (Decidable (_ ∧ _))

structure Waked (params : CpswParams) (s : State) : Prop where
  wf : ∃ q own, Wf params.cpdma s.cpdma q own
  waked : ∀ txq, s.stopped txq = true →
    WillWake params s txq ∨ ∃ (j : ℕ) (pc : XmitPc), s.xmits[j]? = some pc ∧ pc.decides txq = true

section Invariant

theorem Waked.initial (h : Initial params s) : Waked params s where
  wf := ⟨_, _, Wf.initial h.cpdma⟩
  waked txq hstop := by simp [h.stopped] at hstop

/-- No step but the deciding one of an xmit takes a waker away. -/
theorem Waked.mono (h : Waked params s) (hwf : ∃ q own, Wf params.cpdma s'.cpdma q own)
    (hstop : ∀ txq, s'.stopped txq = true → s.stopped txq = true)
    (hwake : ∀ txq, s'.stopped txq = true → WillWake params s txq → WillWake params s' txq)
    (hxmit : ∀ (txq : TxQueue) (j : ℕ) (pc : XmitPc), s.xmits[j]? = some pc →
      pc.decides txq = true →
      ∃ (i : ℕ) (pc' : XmitPc), s'.xmits[i]? = some pc' ∧ pc'.decides txq = true) :
    Waked params s' where
  wf := hwf
  waked txq hst := by
    rcases h.waked txq (hstop txq hst) with hw | ⟨j, pc, hj, hpc⟩
    · exact Or.inl (hwake txq hst hw)
    · exact Or.inr (hxmit txq j pc hj hpc)

theorem WillWake.of_inFlight (h : WillWake params s txq) (hwakes : ∀ w ∈ s.wakes, w ∈ s'.wakes)
    (hfly : inFlight params.cpdma s.cpdma (params.txv txq.2) ≤
      inFlight params.cpdma s'.cpdma (params.txv txq.2)) : WillWake params s' txq := by
  rcases h with hw | ⟨item, hitem, hnames⟩
  · exact Or.inl (hwakes _ hw)
  · exact Or.inr ⟨item, Multiset.mem_of_le hfly hitem, hnames⟩

theorem decides_append {l : List XmitPc} {pc new : XmitPc} {j : ℕ} (hj : l[j]? = some pc)
    (hpc : pc.decides txq = true) :
    ∃ (i : ℕ) (pc' : XmitPc), (l ++ [new])[i]? = some pc' ∧ pc'.decides txq = true := by
  have hlt := (List.getElem?_eq_some_iff.mp hj).1
  exact ⟨j, pc, by rw [List.getElem?_append_left hlt, hj], hpc⟩

/-- An xmit that moves on leaves the others where they are. -/
theorem decides_set {l : List XmitPc} {pc pc' new : XmitPc} {i j : ℕ} (hi : l[i]? = some pc)
    (hpc : pc.decides txq = true) (hj : l[j]? = some pc')
    (hkeep : pc'.decides txq = true → new.decides txq = true) :
    ∃ (i' : ℕ) (pc'' : XmitPc), (l.set j new)[i']? = some pc'' ∧ pc''.decides txq = true := by
  by_cases hij : j = i
  · subst hij
    obtain rfl : pc' = pc := Option.some.inj (hj.symm.trans hi)
    exact ⟨j, new, CallTable.getElem?_set_self hi, hkeep hpc⟩
  · refine ⟨i, pc, ?_, hpc⟩
    rw [List.getElem?_set_ne hij, hi]

/-- The handler touches no queue but to note that it wakes it. -/
structure Noted (s s' : State) : Prop where
  cpdma : s'.cpdma = s.cpdma
  stopped : s'.stopped = s.stopped
  xmits : s'.xmits = s.xmits
  wakes : ∀ txq ∈ s.wakes, txq ∈ s'.wakes

theorem cpswTxHandler_noted (s : State) (token : Token) (len : ℤ) :
    Noted s (cpswTxHandler s token len) := by
  unfold cpswTxHandler
  split
  · dsimp only
    split
    · exact ⟨rfl, rfl, rfl, fun _ hw => List.mem_append_left _ hw⟩
    · exact ⟨rfl, rfl, rfl, fun _ => id⟩
  · exact ⟨rfl, rfl, rfl, fun _ => id⟩

theorem handBack_noted (s : State) (o : Option (Delivery Token)) : Noted s (handBack s o) := by
  unfold handBack
  split
  · split
    · exact cpswTxHandler_noted _ _ _
    · exact ⟨rfl, rfl, rfl, fun _ => id⟩
  · exact ⟨rfl, rfl, rfl, fun _ => id⟩

/-- The handler of a packet wakes the queue the packet names, if it is stopped. -/
theorem handBack_wakes {o : Option (Delivery Token)} {ch : ChanId} {item : Item Token}
    (htx : isTxChan ch = true) (hitem : item ∈ delivered ch o)
    (hnames : item.token.wakes = some txq) (hstop : s.stopped txq = true) :
    txq ∈ (handBack s o).wakes := by
  cases o with
  | none => cases hitem
  | some d =>
    simp only [delivered] at hitem
    split at hitem
    · rename_i hch
      obtain rfl := Multiset.mem_singleton.mp hitem
      simp only [handBack, hch, htx, if_true, cpswTxHandler]
      cases htoken : d.item.token with
      | page page =>
        rw [htoken] at hnames
        cases hnames
      | skb skb =>
        rw [htoken] at hnames
        obtain rfl := Option.some.inj hnames
        simp [hstop, State.setStats]
    · cases hitem

theorem Waked.cpdma (h : Waked params s) {op : Cpdma.Op Token} (hlen : Cpdma.LenOk s.cpdma op)
    (hst : cpdmaStep params s op = some s') : Waked params s' := by
  unfold cpdmaStep at hst
  split at hst
  · cases hst
  rename_i htx
  obtain ⟨c, hc, rfl⟩ := Option.map_eq_some_iff.mp hst
  obtain ⟨q, own, hwf⟩ := h.wf
  obtain ⟨q', own', hwf'⟩ := hwf.step hlen hc
  have hnoted := handBack_noted { s with cpdma := c } (op.delivers s.cpdma)
  refine h.mono ⟨q', own', ?_⟩ (fun txq => ?_) (fun txq hstop hw => ?_)
    fun txq j pc hj hpc => ⟨j, pc, ?_, hpc⟩
  · rwa [hnoted.cpdma]
  · rw [hnoted.stopped]
    exact id
  · rw [hnoted.stopped] at hstop
    rcases hw with hw | ⟨item, hitem, hnames⟩
    · exact Or.inl (hnoted.wakes txq hw)
    · have hother : op.submitsTo ≠ some (params.txv txq.2) := by
        intro hto
        rw [hto] at htx
        exact htx (params.txv_tx txq.2)
      rw [hwf.inFlight_step hwf' hother hc, Multiset.mem_add] at hitem
      rcases hitem with hitem | hitem
      · exact Or.inl (handBack_wakes (params.txv_tx txq.2) hitem hnames hstop)
      · refine Or.inr ⟨item, ?_, hnames⟩
        rwa [hnoted.cpdma]
  · rw [hnoted.xmits]
    exact hj

theorem Waked.startXmit (h : Waked params s) (skb : SkBuff) (padOk : Bool) :
    Waked params (cpswNdoStartXmit params s skb padOk) := by
  unfold cpswNdoStartXmit
  split <;>
  · exact h.mono h.wf (fun _ => id) (fun txq _ hw => hw.of_inFlight (fun _ => id) le_rfl)
      fun txq j pc hj hpc => decides_append hj hpc

theorem Waked.submit (h : Waked params s) {j : ℕ} {skb : SkBuff} {chan : CpdmaChan}
    {mapped : Option U32} (hj : s.xmits[j]? = some (.submit skb))
    (hch : s.cpdma.ctlr.channels (params.txv (qIdx params skb)) = some chan) :
    Waked params (submitXmit params s j skb chan mapped) := by
  obtain ⟨q, own, hwf⟩ := h.wf
  have hlen : Cpdma.LenOk s.cpdma (.submit .submit (params.txv (qIdx params skb))
      (xmitArgs params skb) mapped) := skb.len_lt
  have hst : Cpdma.step params.cpdma s.cpdma (.submit .submit (params.txv (qIdx params skb))
      (xmitArgs params skb) mapped) =
      some (submitStep params.cpdma s.cpdma .submit (params.txv (qIdx params skb)) chan
        (xmitArgs params skb) mapped).1 := by
    simp only [Cpdma.step, hch, Option.map_some]
  obtain ⟨q', own', hwf'⟩ := hwf.step hlen hst
  have hfly := hwf.inFlight_submit hwf'
  unfold submitXmit
  dsimp only
  split <;>
  · exact h.mono ⟨q', own', hwf'⟩ (fun _ => id)
      (fun txq _ hw => hw.of_inFlight (fun _ => id) (hfly (params.txv txq.2)))
      fun txq i pc hi hpc => decides_set hi hpc hj (fun hdec => by cases hdec)

theorem Waked.setXmit (h : Waked params s) {j : ℕ} {pc new : XmitPc} (hj : s.xmits[j]? = some pc)
    (hkeep : ∀ txq, pc.decides txq = true → new.decides txq = true) :
    Waked params (s.setXmit j new) :=
  h.mono h.wf (fun _ => id) (fun _ _ hw => hw.of_inFlight (fun _ => id) le_rfl)
    fun txq _ _ hi hpc => decides_set hi hpc hj (hkeep txq)

/-- A queue that is stopped has the xmit that stopped it to look again. -/
theorem Waked.stopQueue (h : Waked params s) {j : ℕ} {ret : NetdevTx}
    (hj : s.xmits[j]? = some (.stopQueue txq ret)) :
    Waked params ((s.setStopped txq true).setXmit j (.recheck txq ret)) where
  wf := h.wf
  waked txq' hstop := by
    by_cases hq : txq' = txq
    · subst hq
      exact Or.inr ⟨j, _, CallTable.getElem?_set_self hj, by simp [XmitPc.decides]⟩
    · have hold : s.stopped txq' = true := by
        simpa [State.setXmit, State.setStopped, hq] using hstop
      rcases h.waked txq' hold with hw | ⟨i, pc, hi, hpc⟩
      · exact Or.inl (hw.of_inFlight (fun _ => id) le_rfl)
      · exact Or.inr (decides_set hi hpc hj fun hdec => by cases hdec)

/-- A queue left stopped must have another waker. -/
theorem Waked.giveUp (h : Waked params s) {j : ℕ} {ret : NetdevTx}
    (hj : s.xmits[j]? = some (.recheck txq ret))
    (hcover : WillWake params s txq ∨ ∃ pc ∈ s.xmits.eraseIdx j, pc.decides txq = true) :
    Waked params (s.setXmit j (.done ret)) where
  wf := h.wf
  waked txq' hstop := by
    have hother : ∀ (i : ℕ) (pc : XmitPc), i ≠ j → s.xmits[i]? = some pc → pc.decides txq' = true →
        ∃ (i : ℕ) (pc : XmitPc), (s.xmits.set j (.done ret))[i]? = some pc ∧
          pc.decides txq' = true := by
      intro i pc hij hi hpc
      refine ⟨i, pc, ?_, hpc⟩
      rw [List.getElem?_set_ne (Ne.symm hij), hi]
    by_cases hq : txq' = txq
    · subst hq
      rcases hcover with hw | ⟨pc, hmem, hpc⟩
      · exact Or.inl (hw.of_inFlight (fun _ => id) le_rfl)
      · obtain ⟨i, hij, hi⟩ := List.mem_eraseIdx_iff_getElem?.mp hmem
        exact Or.inr (hother i pc hij hi hpc)
    · rcases h.waked txq' hstop with hw | ⟨i, pc, hi, hpc⟩
      · exact Or.inl (hw.of_inFlight (fun _ => id) le_rfl)
      · refine Or.inr (hother i pc ?_ hi hpc)
        rintro rfl
        obtain rfl := Option.some.inj (hj.symm.trans hi)
        simp only [XmitPc.decides, decide_eq_true_eq] at hpc
        exact hq hpc.symm

theorem Waked.wakeXmit (h : Waked params s) {j : ℕ} {ret : NetdevTx}
    (hj : s.xmits[j]? = some (.wakeQueue txq ret)) :
    Waked params ((s.setStopped txq false).setXmit j (.done ret)) where
  wf := h.wf
  waked txq' hstop := by
    have hq : txq' ≠ txq := by
      rintro rfl
      simp [State.setXmit, State.setStopped] at hstop
    have hold : s.stopped txq' = true := by
      simpa [State.setXmit, State.setStopped, hq] using hstop
    rcases h.waked txq' hold with hw | ⟨i, pc, hi, hpc⟩
    · exact Or.inl (hw.of_inFlight (fun _ => id) le_rfl)
    · refine Or.inr (decides_set hi hpc hj fun hdec => ?_)
      simp only [XmitPc.decides, decide_eq_true_eq] at hdec
      exact absurd hdec.symm hq

theorem Waked.wakeQueue (h : Waked params s) {j : ℕ} (hj : s.wakes[j]? = some txq) :
    Waked params { s.setStopped txq false with wakes := s.wakes.eraseIdx j } := by
  have hother : ∀ txq',
      ({ s.setStopped txq false with wakes := s.wakes.eraseIdx j } : State).stopped txq' = true →
        txq' ≠ txq ∧ s.stopped txq' = true := by
    intro txq' hstop
    have hq : txq' ≠ txq := by
      rintro rfl
      simp [State.setStopped] at hstop
    exact ⟨hq, by simpa [State.setStopped, hq] using hstop⟩
  refine h.mono h.wf (fun txq' hstop => (hother txq' hstop).2) (fun txq' hstop hw => ?_)
    fun _ i pc hi hpc => ⟨i, pc, hi, hpc⟩
  rcases hw with hw | hfly
  · obtain ⟨i, hi⟩ := List.getElem?_of_mem hw
    refine Or.inl (List.mem_eraseIdx_iff_getElem?.mpr ⟨i, ?_, hi⟩)
    rintro rfl
    exact (hother txq' hstop).1 (Option.some.inj (hi.symm.trans hj))
  · exact Or.inr hfly

theorem Waked.advance (h : Waked params s) {j : ℕ} {mapped : Option U32} {pc : XmitPc}
    (hj : s.xmits[j]? = some pc) (hcover : Covered params s (.advance j mapped))
    (hst : Xmit.advance params s j mapped pc = some s') : Waked params s' := by
  cases pc with
  | submit skb =>
    obtain ⟨chan, hch, rfl⟩ := Option.map_eq_some_iff.mp hst
    exact h.submit hj hch
  | checkFree txq =>
    obtain ⟨chan, -, rfl⟩ := Option.map_eq_some_iff.mp hst
    exact h.setXmit hj fun _ hdec => by cases hdec
  | stopQueue txq ret =>
    obtain rfl := Option.some.inj hst
    exact h.stopQueue hj
  | recheck txq ret =>
    obtain ⟨chan, hch, rfl⟩ := Option.map_eq_some_iff.mp hst
    cases hfree : cpdmaCheckFreeTxDesc s.cpdma.ctlr chan with
    | true => exact h.setXmit hj fun _ hdec => hdec
    | false =>
      have hgive : (Op.advance j mapped).givesUp params s = some (j, txq) := by
        simp [Op.givesUp, hj, hch, hfree]
      exact h.giveUp hj (hcover.2 (j, txq) hgive)
  | wakeQueue txq ret =>
    obtain rfl := Option.some.inj hst
    exact h.wakeXmit hj
  | done ret => cases hst

theorem Waked.step (h : Waked params s) {op : Op} (hcover : Covered params s op)
    (hst : Xmit.step params s op = some s') : Waked params s' := by
  cases op with
  | cpdma op => exact h.cpdma hcover.1 hst
  | startXmit skb padOk =>
    obtain rfl := Option.some.inj hst
    exact h.startXmit skb padOk
  | advance j mapped =>
    obtain ⟨pc, hj, hst⟩ := Option.bind_eq_some_iff.mp hst
    exact h.advance hj hcover hst
  | wakeQueue j =>
    obtain ⟨txq, hj, rfl⟩ := Option.map_eq_some_iff.mp hst
    exact h.wakeQueue hj

theorem Waked.of_run {s₀ : State} {ls : List Op} (hinit : Initial params s₀)
    (hrun : Run (Xmit.step params) (Covered params) s₀ ls s) : Waked params s :=
  hrun.invariant (fun _ _ _ h hcover hst => h.step hcover hst) (Waked.initial hinit)

end Invariant

/-- Along every run in which no xmit leaves a queue stopped without a packet of
its own in flight, no queue is silent. -/
theorem noSilentQueue_of_run {s₀ : State} {ls : List Op} (hinit : Initial params s₀)
    (hrun : Run (step params) (Covered params) s₀ ls s) : NoSilentQueue params s := by
  intro hdone txq chan _ hstop _
  rcases (Waked.of_run hinit hrun).waked txq hstop with hw | ⟨j, pc, hj, hpc⟩
  · exact hw
  · have hd := hdone pc (List.mem_of_getElem? hj)
    cases pc <;> simp [XmitPc.isDone, XmitPc.decides] at hd hpc

/-- One tx queue for each port, over the tx channel of a pool of two descriptors. -/
def oneQueue : CpswParams where
  cpdma := smallParams 2 two_le_smallPool
  txChNum := 1
  txv _ := 0
  emacPort p := p.val + 1
  txPacketMin _ := 60
  txChNum_pos := by decide
  txv_tx _ := by decide
  txPacketMin_lt _ := by decide

def linksUp : State where
  cpdma := quiet (smallParams 2 two_le_smallPool) (.page 0) .active (onePair 1 1) 1 1
  stopped _ := false
  stats _ := {}
  xmits := []
  wakes := []

theorem initial_linksUp : Initial oneQueue linksUp :=
  ⟨initial_quiet _ _ _ (idle_onePair 1 1) _ _, rfl, rfl, rfl⟩

/-- The channel is started, then port 1 sends a packet that takes the only descriptor. -/
def lastDesc : List Op :=
  [.cpdma (.chanStart 0), .cpdma (.advance 0), .startXmit ⟨1, 0, 0, 100, by decide⟩ true,
   .advance 0 (some 0x4000), .advance 0 none, .advance 0 none, .advance 0 none]

/-- The engine sends the packet, and its completion is processed and handed back. -/
def completed : List Op :=
  [.cpdma (.engine 0x8000 (cpdmaDescSop ||| cpdmaDescEop ||| cpdmaDescEoq ||| 100) 100),
   .cpdma (.chanProcess 0 64), .cpdma (.advance 1), .cpdma (.advance 1), .cpdma (.advance 1),
   .wakeQueue 0, .cpdma (.advance 1)]

/-- One port alone stops its queue and has it woken. -/
theorem noSilentQueue_alone : ∃ s, Run (step oneQueue) (Covered oneQueue) linksUp
    (lastDesc ++ completed) s ∧ s.stopped (1, 0) = false ∧ NoSilentQueue oneQueue s := by
  have htest : (exec (step oneQueue) (Covered oneQueue) linksUp (lastDesc ++ completed)).any
      (fun s => !s.stopped (1, 0)) = true := by decide +kernel
  obtain ⟨s, hrun, hs⟩ := exists_run_of_any htest
  exact ⟨s, hrun, by simpa using hs, noSilentQueue_of_run initial_linksUp hrun⟩

/-- Port 0 finds the channel full with port 1's packet: its queue stays stopped
when that packet is done. -/
theorem noSilentQueue_fails_for_other_port : ¬ ∀ (ls : List Op) (s : State),
    Run (step oneQueue) LenOk linksUp ls s → NoSilentQueue oneQueue s := by
  intro h
  have htest : (exec (step oneQueue) LenOk linksUp
      (lastDesc ++ [.startXmit ⟨0, 0, 0, 100, by decide⟩ true, .advance 1 (some 0x5000),
        .advance 1 none, .advance 1 none] ++ completed)).any (fun s =>
      s.xmits.all XmitPc.isDone && s.stopped (0, 0) && (s.cpdma.ctlr.channels 0).any
        (cpdmaCheckFreeTxDesc s.cpdma.ctlr) && !decide (WillWake oneQueue s (0, 0))) = true := by
    decide +kernel
  obtain ⟨s, hrun, hs⟩ := exists_run_of_any htest
  simp only [Bool.and_eq_true, Bool.not_eq_true', decide_eq_false_iff_not, List.all_eq_true] at hs
  obtain ⟨⟨⟨hdone, hstop⟩, hfree⟩, hwake⟩ := hs
  obtain ⟨chan, hch, hfree⟩ := (Option.any_eq_true _ _).mp hfree
  exact hwake (h _ s hrun hdone (0, 0) chan hch hstop hfree)

end CpswDriver.Xmit
