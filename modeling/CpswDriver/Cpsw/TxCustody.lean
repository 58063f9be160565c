import CpswDriver.Cpsw.Sending
import Mathlib.Algebra.BigOperators.Group.Finset.Piecewise

/-!
Every packet that the driver is given to send it gives back, frees or has still,
and it frees none twice; and the packets that the statistics of a port count
are those of its own that were freed. It holds whatever calls and handler calls
are in progress on the channels that both ports share.
-/

namespace CpswDriver.Sending

open Cpdma Runs Account CallTable
open Xmit (Port SkBuff qIdx skbPutPadto)

variable {params : SendParams} {s t : State}

/-- What a handler call takes out of flight on the tx channels. -/
def handedToken : Option (Delivery Token) → Multiset Token
  | some d => if isTxChan d.ch then {d.item.token} else 0
  | none => 0

theorem sum_delivered (o : Option (Delivery Token)) :
    ∑ ch ∈ txChans, (delivered ch o).map Item.token = handedToken o := by
  cases o with
  | none => simp [delivered, handedToken]
  | some d =>
    have hone : ∀ ch, (delivered ch (some d)).map Item.token =
        if d.ch = ch then ({d.item.token} : Multiset Token) else 0 := by
      intro ch
      by_cases hch : d.ch = ch <;> simp [delivered, hch]
    rw [Finset.sum_congr rfl fun ch _ => hone ch, Finset.sum_ite_eq]
    simp [txChans, handedToken]

/-- A step of the channels that submits nothing for transmit takes out of flight what is
handed back. -/
theorem flight_step {c c' : Cpdma.State Token} {q q' : ChanId → List ℕ} {own own' : ℕ → Owner}
    (h : Wf params.cpdma c q own) (h' : Wf params.cpdma c' q' own') {op : Cpdma.Op Token}
    (hop : ¬ op.submitsTo.any isTxChan) (hst : Cpdma.step params.cpdma c op = some c') :
    flight params c = flight params c' + handedToken (op.delivers c) := by
  have hchan : ∀ ch ∈ txChans, (inFlight params.cpdma c ch).map Item.token =
      (inFlight params.cpdma c' ch).map Item.token +
        (delivered ch (op.delivers c)).map Item.token := by
    intro ch hmem
    have hne : op.submitsTo ≠ some ch := by
      intro heq
      rw [heq] at hop
      exact hop (Finset.mem_filter.mp hmem).2
    rw [h.inFlight_step h' hne hst, Multiset.map_add, add_comm]
  unfold flight
  rw [Finset.sum_congr rfl hchan, Finset.sum_add_distrib, sum_delivered]

theorem inFlight_submit {c : Cpdma.State Token} {q q' : ChanId → List ℕ} {own own' : ℕ → Owner}
    (h : Wf params.cpdma c q own) {kind : SubmitKind} {ch : ChanId} {chan : CpdmaChan}
    {args : SubmitArgs Token} {mapped : Option U32}
    (h' : Wf params.cpdma (submitStep params.cpdma c kind ch chan args mapped).1 q' own')
    (ch' : ChanId) :
    (inFlight params.cpdma (submitStep params.cpdma c kind ch chan args mapped).1 ch').map
        Item.token =
      (inFlight params.cpdma c ch').map Item.token +
        if ch' = ch then
          if (submitStep params.cpdma c kind ch chan args mapped).2 = 0 then {args.token} else 0
        else 0 := by
  have hold := h.accepted_eq ch'
  have hnew := h'.accepted_eq ch'
  rw [submitStep_handled] at hnew
  by_cases hch : ch' = ch
  · subst hch
    rw [if_pos rfl]
    split
    · rename_i hret
      have haccepted : (submitStep params.cpdma c kind ch' chan args mapped).1.accepted ch' =
          c.accepted ch' ++ [submitItem params.cpdma (submitInfo kind args)
            (submitBuffer (submitInfo kind args) mapped)] := by
        unfold submitStep at hret ⊢
        dsimp only at hret ⊢
        split at hret
        · rw [if_pos ‹_›]
          simp [State.accept]
        · exact absurd hret ‹_›
      rw [haccepted, ← Multiset.coe_add, hold, add_assoc] at hnew
      rw [← add_left_cancel hnew, Multiset.map_add]
      rfl
    · rename_i hret
      obtain ⟨ctlr, hs⟩ : ∃ ctlr : CpdmaCtlr Token,
          (submitStep params.cpdma c kind ch' chan args mapped).1 = { c with ctlr := ctlr } := by
        unfold submitStep at hret ⊢
        dsimp only at hret ⊢
        split at hret
        · exact absurd ‹_› hret
        · rw [if_neg ‹_›]
          exact ⟨_, rfl⟩
      rw [hs] at hnew ⊢
      dsimp only at hnew
      rw [hold] at hnew
      rw [← add_left_cancel hnew, add_zero]
  · rw [submitStep_accepted hch, hold] at hnew
    rw [if_neg hch, ← add_left_cancel hnew, add_zero]

theorem flight_submit {c : Cpdma.State Token} {q q' : ChanId → List ℕ} {own own' : ℕ → Owner}
    (h : Wf params.cpdma c q own) {kind : SubmitKind} {ch : ChanId} (htx : isTxChan ch = true)
    {chan : CpdmaChan} {args : SubmitArgs Token} {mapped : Option U32}
    (h' : Wf params.cpdma (submitStep params.cpdma c kind ch chan args mapped).1 q' own') :
    flight params (submitStep params.cpdma c kind ch chan args mapped).1 = flight params c +
      if (submitStep params.cpdma c kind ch chan args mapped).2 = 0 then {args.token} else 0 := by
  have hmem : ch ∈ txChans := Finset.mem_filter.mpr ⟨Finset.mem_univ ch, htx⟩
  unfold flight
  rw [Finset.sum_congr rfl fun ch' _ => inFlight_submit h h' ch', Finset.sum_add_distrib,
    Finset.sum_ite_eq', if_pos hmem]

/-- What a submit for a port comes to: the packet is in flight, or it is counted as dropped. -/
theorem submitTx_cases {q : ChanId → List ℕ} {own : ℕ → Owner} (h : Wf params.cpdma s.cpdma q own)
    {p : Port} {kind : SubmitKind} {ch : ChanId} (htx : isTxChan ch = true)
    {args : SubmitArgs Token} (hlen : args.len < 2 ^ 16) {mapped : Option U32} {ret : ℤ}
    (hst : submitTx params s p kind ch args mapped = some (t, ret)) :
    ∃ c q' own', Wf params.cpdma c q' own' ∧
      (ret = 0 ∧ flight params c = flight params s.cpdma + {args.token} ∧
          t = { s with
            cpdma := c
            sent := Function.update s.sent p (s.sent p + 1) } ∨
        ret ≠ 0 ∧ flight params c = flight params s.cpdma ∧
          t = { s with cpdma := c }.dropped p) := by
  obtain ⟨chan, hch, hres⟩ := Option.map_eq_some_iff.mp hst
  have hstep : Cpdma.step params.cpdma s.cpdma (.submit kind ch args mapped) =
      some (submitStep params.cpdma s.cpdma kind ch chan args mapped).1 := by
    simp only [Cpdma.step, hch, Option.map_some]
  have hok : Cpdma.LenOk s.cpdma (.submit kind ch args mapped) := hlen
  obtain ⟨q', own', hwf⟩ := h.step hok hstep
  have hflight := flight_submit h htx hwf
  refine ⟨_, q', own', hwf, ?_⟩
  dsimp only at hres
  split at hres
  · rename_i hret
    obtain ⟨rfl, rfl⟩ := Prod.mk.inj hres
    rw [if_neg hret, add_zero] at hflight
    exact .inr ⟨hret, hflight, rfl⟩
  · rename_i hret
    obtain ⟨rfl, rfl⟩ := Prod.mk.inj hres
    rw [if_pos (not_not.mp hret)] at hflight
    exact .inl ⟨not_not.mp hret, hflight, rfl⟩

def inFlightOf (params : SendParams) (s : State) (p : Port) : ℕ :=
  (flight params s.cpdma).countP fun tok => sentBy s.xmeta p tok = true

/-- The invariant, for calls that have the packets `pending`. -/
structure Books (params : SendParams) (s : State) (pending : Multiset Packet) : Prop where
  wf : ∃ q own, Wf params.cpdma s.cpdma q own
  balanced : Balanced s.given s.back s.freed
    (pending + (flight params s.cpdma).map Token.packet)
  packets : ∀ tok ∈ flight params s.cpdma, ∀ num, tok ≠ .page num
  counted : ∀ p, s.sent p = (s.stats p).txPackets + inFlightOf params s p

section Books

variable {pending : Multiset Packet}

theorem Books.give (h : Books params s pending) {ps : Multiset Packet}
    (hfresh : Fresh s.freed (pending + (flight params s.cpdma).map Token.packet) ps) :
    Books params (s.give ps) (pending + ps) := by
  refine ⟨h.wf, ?_, h.packets, h.counted⟩
  have hgiven := h.balanced.give hfresh
  rwa [add_right_comm] at hgiven

theorem Books.giveBack {ps : Multiset Packet} (h : Books params s (pending + ps)) :
    Books params (s.giveBack ps) pending :=
  ⟨h.wf, h.balanced.giveBack (add_right_comm _ _ _), h.packets, h.counted⟩

theorem Books.free {pkt : Packet} (h : Books params s (pending + {pkt})) :
    Books params (s.free pkt) pending :=
  ⟨h.wf, h.balanced.finish (add_right_comm _ _ _), h.packets, h.counted⟩

theorem Books.dropped (h : Books params s pending) (p : Port) :
    Books params (s.dropped p) pending := by
  refine ⟨h.wf, h.balanced, h.packets, fun p' => (h.counted p').trans ?_⟩
  have hstats : ((s.dropped p).stats p').txPackets = (s.stats p').txPackets := by
    change (Function.update s.stats p _ p').txPackets = _
    by_cases heq : p' = p
    · rw [heq, Function.update_self]
    · rw [Function.update_of_ne heq]
  rw [hstats]
  rfl

theorem Books.setCalls (h : Books params s pending) (calls : List Call) :
    Books params { s with calls := calls } pending :=
  ⟨h.wf, h.balanced, h.packets, h.counted⟩

theorem sentBy_setMeta {xmeta : ℕ → CpswMetaXdp} {frame : ℕ} (m : CpswMetaXdp) (p : Port)
    {tok : Token} (h : tok.packet ≠ .xdpf frame) :
    sentBy (Function.update xmeta frame m) p tok = sentBy xmeta p tok := by
  cases tok with
  | skb buf => rfl
  | page num => rfl
  | xdpf num =>
    have hne : num ≠ frame := fun heq => h (congrArg Packet.xdpf heq)
    unfold sentBy
    dsimp only
    rw [Function.update_of_ne hne]

/-- A frame whose head room is written is not in flight, so that the others keep their ports. -/
theorem Books.setMeta {frame : ℕ} (h : Books params s (pending + {.xdpf frame}))
    (m : CpswMetaXdp) : Books params (s.setMeta frame m) (pending + {.xdpf frame}) := by
  refine ⟨h.wf, h.balanced, h.packets, fun p => (h.counted p).trans ?_⟩
  have hbalanced := h.balanced
  rw [add_right_comm] at hbalanced
  have hnot := hbalanced.notMem (Multiset.mem_singleton_self (Packet.xdpf frame))
  congr 1
  refine Multiset.countP_congr rfl fun tok hmem => ?_
  have hne : tok.packet ≠ .xdpf frame := by
    intro heq
    exact hnot (Multiset.mem_add.mpr (.inr (Multiset.mem_map.mpr ⟨tok, hmem, heq⟩)))
  change _ = (sentBy (Function.update s.xmeta frame m) p tok = true)
  rw [sentBy_setMeta m p hne]

/-- A call submits a packet: it goes into flight, or the call has it still. -/
theorem Books.submitTx {tok : Token} (h : Books params s (pending + {tok.packet})) {p : Port}
    (hmine : ∀ p', sentBy s.xmeta p' tok = decide (p' = p)) (hpage : ∀ num, tok ≠ .page num)
    {kind : SubmitKind} {ch : ChanId} (htx : isTxChan ch = true) {args : SubmitArgs Token}
    (htok : args.token = tok) (hlen : args.len < 2 ^ 16) {mapped : Option U32} {ret : ℤ}
    (hst : submitTx params s p kind ch args mapped = some (t, ret)) :
    t.calls = s.calls ∧ (ret = 0 ∧ Books params t pending ∨
      ret ≠ 0 ∧ Books params t (pending + {tok.packet})) := by
  obtain ⟨q, own, hwf⟩ := h.wf
  obtain ⟨c, q', own', hwf', hcases⟩ := submitTx_cases hwf htx hlen hst
  rw [htok] at hcases
  rcases hcases with ⟨hret, hflight, rfl⟩ | ⟨hret, hflight, rfl⟩
  · refine ⟨rfl, .inl ⟨hret, ⟨q', own', hwf'⟩, ?_, ?_, fun p' => ?_⟩⟩
    · have hbalanced := h.balanced
      change Balanced s.given s.back s.freed (pending + (flight params c).map Token.packet)
      rwa [hflight, Multiset.map_add, Multiset.map_singleton, ← add_assoc, add_right_comm]
    · intro tok' hmem
      change tok' ∈ flight params c at hmem
      rw [hflight, Multiset.mem_add, Multiset.mem_singleton] at hmem
      rcases hmem with hold | rfl
      · exact h.packets tok' hold
      · exact hpage
    · have hcounted := h.counted p'
      change Function.update s.sent p (s.sent p + 1) p' = (s.stats p').txPackets +
        (flight params c).countP fun tok => sentBy s.xmeta p' tok = true
      rw [hflight, add_comm (flight _ _), Multiset.singleton_add, Multiset.countP_cons, hmine]
      unfold inFlightOf at hcounted
      by_cases heq : p' = p
      · subst heq
        simp [hcounted, add_assoc]
      · simp [hcounted, heq]
  · refine ⟨rfl, .inr ⟨hret, Books.dropped ?_ p⟩⟩
    refine ⟨⟨q', own', hwf'⟩, ?_, ?_, fun p' => ?_⟩
    · change Balanced s.given s.back s.freed
        (pending + {tok.packet} + (flight params c).map Token.packet)
      rw [hflight]
      exact h.balanced
    · change ∀ tok ∈ flight params c, _
      rw [hflight]
      exact h.packets
    · refine (h.counted p').trans ?_
      unfold inFlightOf
      dsimp only
      rw [hflight]

/-- A handler call for a packet of port `p` frees it and counts it there. -/
theorem Books.handed (h : Books params s pending) {c : Cpdma.State Token}
    (hwf : ∃ q own, Wf params.cpdma c q own) {tok : Token}
    (hflight : flight params s.cpdma = flight params c + {tok}) {p : Port}
    (hmine : ∀ p', sentBy s.xmeta p' tok = decide (p' = p)) (len : ℤ) :
    Books params (({ s with cpdma := c }.free tok.packet).setStats p
      { s.stats p with
        txPackets := (s.stats p).txPackets + 1
        txBytes := (s.stats p).txBytes + len }) pending := by
  refine ⟨hwf, ?_, fun tok' hmem => ?_, fun p' => ?_⟩
  · refine h.balanced.finish ?_
    rw [hflight, Multiset.map_add, Multiset.map_singleton, add_assoc]
    rfl
  · refine h.packets tok' ?_
    rw [hflight]
    exact Multiset.mem_add.mpr (.inl hmem)
  · have hcounted := h.counted p'
    unfold inFlightOf at hcounted
    rw [hflight, add_comm (flight _ _), Multiset.singleton_add, Multiset.countP_cons, hmine]
      at hcounted
    change s.sent p' = (Function.update s.stats p _ p').txPackets +
      (flight params c).countP fun tok => sentBy s.xmeta p' tok = true
    by_cases heq : p' = p
    · subst heq
      rw [Function.update_self, hcounted]
      simp only [decide_true, if_true]
      omega
    · rw [Function.update_of_ne heq, hcounted]
      simp [heq]

theorem Books.sameFlight (h : Books params s pending) {c : Cpdma.State Token}
    (hwf : ∃ q own, Wf params.cpdma c q own) (hflight : flight params s.cpdma = flight params c) :
    Books params { s with cpdma := c } pending := by
  refine ⟨hwf, ?_, ?_, fun p => (h.counted p).trans ?_⟩
  · change Balanced s.given s.back s.freed (pending + (flight params c).map Token.packet)
    rw [← hflight]
    exact h.balanced
  · change ∀ tok ∈ flight params c, _
    rw [← hflight]
    exact h.packets
  · unfold inFlightOf
    rw [hflight]

theorem Books.handBack (h : Books params s pending) {c : Cpdma.State Token}
    (hwf : ∃ q own, Wf params.cpdma c q own) {o : Option (Delivery Token)}
    (hflight : flight params s.cpdma = flight params c + handedToken o) :
    Books params (handBack { s with cpdma := c } o) pending := by
  cases o with
  | none =>
    rw [handedToken, add_zero] at hflight
    exact h.sameFlight hwf hflight
  | some d =>
    simp only [handedToken] at hflight
    simp only [Sending.handBack]
    by_cases htx : isTxChan d.ch = true
    · rw [if_pos htx] at hflight
      rw [if_pos htx]
      have hmem : d.item.token ∈ flight params s.cpdma := by
        rw [hflight]
        exact Multiset.mem_add.mpr (.inr (Multiset.mem_singleton_self _))
      cases htok : d.item.token with
      | page num => exact absurd htok (h.packets _ hmem num)
      | skb buf =>
        rw [htok] at hflight
        exact h.handed hwf hflight (fun p' => by simp [sentBy, eq_comm]) d.outlen
      | xdpf num =>
        rw [htok] at hflight
        exact h.handed hwf hflight (fun p' => by simp [sentBy, eq_comm]) d.outlen
    · rw [if_neg htx, add_zero] at hflight
      rw [if_neg htx]
      exact h.sameFlight hwf hflight

theorem txv_tx (params : SendParams) (q : ℕ) : isTxChan (params.txv q) = true := params.txv_tx q

/-- A frame is sent for port `p`, or the caller has it still. -/
theorem Books.xdpTxFrame {xdpf : XdpFrame} (h : Books params s (pending + {.xdpf xdpf.frame}))
    {p : Port} {page mapped : Option U32} {ret : ℤ}
    (hst : cpswXdpTxFrame params s p xdpf page mapped = some (t, ret)) :
    t.calls = s.calls ∧ (ret = 0 ∧ Books params t pending ∨
      ret ≠ 0 ∧ Books params t (pending + {.xdpf xdpf.frame})) := by
  have hmeta := h.setMeta ⟨p, 0⟩
  have hmine : ∀ p', sentBy (s.setMeta xdpf.frame ⟨p, 0⟩).xmeta p' (.xdpf xdpf.frame) =
      decide (p' = p) := by
    intro p'
    simp [sentBy, State.setMeta, eq_comm]
  have hpage : ∀ num, Token.xdpf xdpf.frame ≠ .page num := fun num heq => by cases heq
  unfold cpswXdpTxFrame at hst
  cases page with
  | some dma => exact hmeta.submitTx hmine hpage (txv_tx params 0) rfl xdpf.len_lt hst
  | none =>
    dsimp only at hst
    split at hst
    · obtain ⟨rfl, rfl⟩ := Prod.mk.inj (Option.some.inj hst)
      exact ⟨rfl, .inr ⟨by decide, hmeta⟩⟩
    · exact hmeta.submitTx hmine hpage (txv_tx params 0) rfl xdpf.len_lt hst

end Books

def Inv (params : SendParams) (s : State) : Prop :=
  Books params s (total Call.packets s.calls)

theorem Inv.cpdma (h : Inv params s) {op : Cpdma.Op Token} (hlen : Cpdma.LenOk s.cpdma op)
    (hst : step params s (.cpdma op) = some t) : Inv params t := by
  simp only [step] at hst
  split at hst
  · cases hst
  rename_i htx
  obtain ⟨c, hc, rfl⟩ := Option.map_eq_some_iff.mp hst
  obtain ⟨q, own, hwf⟩ := h.wf
  obtain ⟨q', own', hwf'⟩ := hwf.step hlen hc
  have hback := h.handBack ⟨q', own', hwf'⟩ (flight_step hwf hwf' htx hc)
  have hcalls : (handBack { s with cpdma := c } (op.delivers s.cpdma)).calls = s.calls := by
    unfold handBack cpswTxHandler
    split
    · split
      · split <;> rfl
      · rfl
    · rfl
  unfold Inv
  rwa [hcalls]

theorem Inv.startXmit (h : Inv params s) {skb : SkBuff} {padOk : Bool}
    (hfresh : Fresh s.freed (held params s) {.skb skb.data}) :
    Inv params (cpswNdoStartXmit params s skb padOk) := by
  have hgiven := Books.give h hfresh
  unfold cpswNdoStartXmit Inv
  dsimp only
  split
  · have hfreed := (hgiven.free.dropped skb.dev).setCalls (s.calls ++ [.xmitDone .drop])
    change Books params _ (total Call.packets (s.calls ++ [.xmitDone .drop]))
    rw [total_spawn Call.packets s.calls (.xmitDone .drop) rfl]
    exact hfreed
  · change Books params _ (total Call.packets
      (s.calls ++ [.xmit (skbPutPadto params.toCpswParams skb)]))
    rw [total_append, total_cons, total_nil, add_zero]
    exact hgiven.setCalls _

theorem Inv.xdpXmit (h : Inv params s) {p : Port} {flagsOk : Bool} {frames : List XdpFrame}
    (hfresh : Fresh s.freed (held params s) (framePackets frames)) :
    Inv params (cpswNdoXdpXmit s p flagsOk frames) := by
  have hgiven := Books.give h hfresh
  unfold cpswNdoXdpXmit Inv
  dsimp only
  split
  · change Books params _ (total Call.packets (s.calls ++ [.xdpXmitDone (-einval)]))
    rw [total_spawn Call.packets s.calls (.xdpXmitDone (-einval)) rfl]
    exact hgiven.giveBack.setCalls _
  · change Books params _ (total Call.packets (s.calls ++ [.xdpXmit p frames 0]))
    rw [total_append, total_cons, total_nil, add_zero]
    exact hgiven.setCalls _

theorem Inv.xdpTx (h : Inv params s) {p : Port} {xdpf : XdpFrame} {pageDma : U32}
    (hfresh : Fresh s.freed (held params s) {.xdpf xdpf.frame})
    (hst : runXdpTx params s p xdpf pageDma = some t) : Inv params t := by
  have hgiven := Books.give h hfresh
  obtain ⟨⟨u, ret⟩, hu, rfl⟩ := Option.map_eq_some_iff.mp hst
  obtain ⟨hcalls, hcases⟩ := hgiven.xdpTxFrame hu
  change u.calls = s.calls at hcalls
  unfold Inv
  dsimp only
  rcases hcases with ⟨hret, hbooks⟩ | ⟨hret, hbooks⟩
  · rw [if_neg (not_not.mpr hret), hcalls]
    exact hbooks
  · rw [if_pos hret]
    change Books params _ (total Call.packets u.calls)
    rw [hcalls]
    exact hbooks.free

theorem Books.setCall {j : ℕ} {call call' : Call} (hj : s.calls[j]? = some call)
    (hcalls : t.calls = s.calls) {pending : Multiset Packet}
    (hpending : pending + call.packets = total Call.packets s.calls + call'.packets)
    (h : Books params t pending) : Inv params (t.setCall j call') := by
  unfold Inv
  change Books params _ (total Call.packets (t.calls.set j call'))
  have hset := total_set Call.packets call' hj
  rw [hcalls, add_right_cancel (hset.trans hpending.symm)]
  exact h.setCalls _

theorem framePackets_drop {frames : List XdpFrame} {n : ℕ} {xdpf : XdpFrame}
    (h : frames[n]? = some xdpf) : framePackets (frames.drop n) =
      framePackets (frames.drop (n + 1)) + {.xdpf xdpf.frame} := by
  obtain ⟨hlt, rfl⟩ := List.getElem?_eq_some_iff.mp h
  unfold framePackets
  rw [List.drop_eq_getElem_cons hlt, List.map_cons, ← Multiset.cons_coe,
    ← Multiset.singleton_add]
  exact add_comm _ _

/-- ndo_xdp_xmit ends: the caller has the frames that are left. -/
theorem Inv.xdpReturn {j : ℕ} {p : Port} {frames : List XdpFrame} {n : ℕ}
    (hj : s.calls[j]? = some (.xdpXmit p frames n)) (hcalls : t.calls = s.calls)
    (h : Books params t (total Call.packets s.calls)) :
    Inv params ((Sending.xdpReturn t frames n).setCall j (.xdpXmitDone n)) := by
  have hset := total_set Call.packets (.xdpXmitDone n) hj
  rw [← hset.trans (add_zero _)] at h
  exact Books.setCall hj hcalls (hset.trans rfl) h.giveBack

theorem Inv.advance (h : Inv params s) {j : ℕ} {mapped : Option U32}
    (hst : step params s (.advance j mapped) = some t) : Inv params t := by
  obtain ⟨call, hj, hst⟩ := Option.bind_eq_some_iff.mp hst
  cases call with
  | xmitDone ret => cases hst
  | xdpXmitDone ret => cases hst
  | xmit skb =>
    obtain ⟨⟨u, ret⟩, hu, rfl⟩ := Option.map_eq_some_iff.mp hst
    have hset := total_set Call.packets (.xmitDone .ok) hj
    have htotal : total Call.packets (s.calls.set j (.xmitDone .ok)) + {(Token.skb skb).packet} =
        total Call.packets s.calls := hset.trans (add_zero _)
    have hbooks := h
    unfold Inv at hbooks
    rw [← htotal] at hbooks
    obtain ⟨hcalls, hcases⟩ := hbooks.submitTx (fun p' => by simp [sentBy, eq_comm])
      (fun num heq => by cases heq) (txv_tx params _) rfl skb.len_lt hu
    rcases hcases with ⟨hret, hb⟩ | ⟨hret, hb⟩
    · dsimp only
      rw [if_neg (not_not.mpr hret)]
      exact Books.setCall hj hcalls hset hb
    · dsimp only
      rw [if_pos hret]
      exact Books.setCall hj hcalls hset hb.giveBack
  | xdpXmit p frames nxmit =>
    simp only [Sending.advance] at hst
    split at hst
    · obtain rfl := Option.some.inj hst
      exact Inv.xdpReturn hj rfl h
    rename_i xdpf hget
    split at hst
    · obtain rfl := Option.some.inj hst
      exact Inv.xdpReturn hj rfl h
    obtain ⟨⟨u, ret⟩, hu, rfl⟩ := Option.map_eq_some_iff.mp hst
    have hset := total_set Call.packets (.xdpXmit p frames (nxmit + 1)) hj
    have hdrop : (Call.xdpXmit p frames nxmit).packets =
        (Call.xdpXmit p frames (nxmit + 1)).packets + {.xdpf xdpf.frame} := framePackets_drop hget
    have htotal : total Call.packets s.calls =
        total Call.packets (s.calls.set j (.xdpXmit p frames (nxmit + 1))) + {.xdpf xdpf.frame} := by
      rw [hdrop, ← add_assoc, add_right_comm] at hset
      exact (add_right_cancel hset).symm
    have hbooks := h
    unfold Inv at hbooks
    rw [htotal] at hbooks
    obtain ⟨hcalls, hcases⟩ := hbooks.xdpTxFrame hu
    rcases hcases with ⟨hret, hb⟩ | ⟨hret, hb⟩
    · dsimp only
      rw [if_neg (not_not.mpr hret)]
      exact Books.setCall hj hcalls hset hb
    · dsimp only
      rw [if_pos hret]
      rw [← htotal] at hb
      exact Inv.xdpReturn hj hcalls hb

/-- The devices before anything was sent. -/
structure Initial (params : SendParams) (s : State) : Prop where
  cpdma : Cpdma.Initial params.cpdma s.cpdma
  calls : s.calls = []
  record : s.given = 0 ∧ s.back = 0 ∧ s.freed = 0
  stats : ∀ p, s.sent p = 0 ∧ (s.stats p).txPackets = 0

theorem flight_initial {c : Cpdma.State Token} (h : Cpdma.Initial params.cpdma c) :
    flight params c = 0 := by
  refine Finset.sum_eq_zero fun ch _ => ?_
  have haccepted := (Wf.initial h).accepted_eq ch
  rw [h.fresh.1, h.fresh.2.2] at haccepted
  rw [← add_left_cancel (haccepted.symm.trans (add_zero _).symm).symm]
  rfl

theorem Inv.initial (h : Initial params s) : Inv params s := by
  obtain ⟨hgiven, hback, hfreed⟩ := h.record
  have hflight := flight_initial h.cpdma
  unfold Inv
  refine ⟨⟨_, _, Wf.initial h.cpdma⟩, ?_, ?_, fun p => ?_⟩
  · rw [hgiven, hback, hfreed, hflight, h.calls]
    exact Balanced.start
  · rw [hflight]
    exact fun tok hmem => absurd hmem (Multiset.notMem_zero tok)
  · unfold inFlightOf
    rw [(h.stats p).1, (h.stats p).2, hflight]
    rfl

theorem Inv.of_run {s₀ : State} {ls : List Op} (hinit : Initial params s₀)
    (hrun : Run (step params) (Owned params) s₀ ls s) : Inv params s := by
  refine hrun.invariant (fun t op u h hok hst => ?_) (Inv.initial hinit)
  cases op with
  | cpdma op => exact h.cpdma hok hst
  | ndoStartXmit skb padOk =>
    obtain rfl := Option.some.inj hst
    exact h.startXmit hok
  | ndoXdpXmit p flagsOk frames =>
    obtain rfl := Option.some.inj hst
    exact h.xdpXmit hok
  | xdpTx p xdpf pageDma => exact h.xdpTx hok hst
  | advance j mapped => exact h.advance hst

/-- What becomes of the packets that are to be sent. -/
structure AccountedFor (params : SendParams) (s : State) : Prop where
  conserved : s.given = s.back + s.freed + held params s
  once : (s.freed + held params s).Nodup
  counted : ∀ p, s.sent p = (s.stats p).txPackets + inFlightOf params s p
  settled : held params s = 0 → s.given = s.back + s.freed ∧ s.freed.Nodup

/-- Whatever goes on at a time, a packet that the driver was given is given back, freed once or
still there, as long as its callers give it only what is theirs. -/
theorem accountedFor_of_run {s₀ : State} {ls : List Op} (hinit : Initial params s₀)
    (hrun : Run (step params) (Owned params) s₀ ls s) : AccountedFor params s := by
  have h := Inv.of_run hinit hrun
  have hbalanced : Balanced s.given s.back s.freed (held params s) := h.balanced
  refine ⟨hbalanced.conserved, hbalanced.once, h.counted, fun hnone => ?_⟩
  rw [hnone] at hbalanced
  exact hbalanced.settled

def oneDesc : SendParams where
  toCpswParams := Xmit.oneQueue
  sizeofXmeta := 8
  sizeofXdpFrame := 32

def linksUp : State where
  cpdma := quiet Xmit.oneQueue.cpdma (.page 0) .active (onePair 1 1) 1 1
  xmeta _ := ⟨0, 0⟩
  stats _ := {}
  calls := []
  given := 0
  back := 0
  freed := 0
  sent _ := 0

theorem initial_linksUp : Initial oneDesc linksUp :=
  ⟨initial_quiet _ _ _ (idle_onePair 1 1) _ _, rfl, ⟨rfl, rfl, rfl⟩, fun _ => ⟨rfl, rfl⟩⟩

theorem hundred_lt : 100 < 2 ^ 16 := by decide

/-- Two frames are redirected to port 1 while port 0 sends a packet. The first frame takes the
descriptor; when it is done, the packet is sent again. -/
def redirected : List Op :=
  [.cpdma (.chanStart 0), .cpdma (.advance 0),
    .ndoXdpXmit 1 true [⟨0, 64, 0x1000, 100, hundred_lt⟩, ⟨1, 64, 0x2000, 100, hundred_lt⟩],
    .ndoStartXmit ⟨0, 0, 0x3000, 100, hundred_lt⟩ true,
    .advance 0 (some 0x4000), .advance 1 (some 0x5000), .advance 0 (some 0x6000),
    .cpdma (.engine 0x8000 (cpdmaDescSop ||| cpdmaDescEop ||| cpdmaDescEoq ||| 100) 100),
    .cpdma (.chanProcess 0 64), .cpdma (.advance 1), .cpdma (.advance 1), .cpdma (.advance 1),
    .ndoStartXmit ⟨0, 0, 0x3000, 100, hundred_lt⟩ true, .advance 2 (some 0x5000)]

theorem accountedFor_after_redirect : ∃ s, Run (step oneDesc) (Owned oneDesc) linksUp redirected s ∧
    (s.freed = {.xdpf 0} ∧ s.back = {.skb 0x3000, .xdpf 1} ∧
      held oneDesc s = {.skb 0x3000} ∧ (s.stats 1).txPackets = 1) ∧
    AccountedFor oneDesc s := by
  have htest : (exec (step oneDesc) (Owned oneDesc) linksUp redirected).any (fun s =>
      decide (s.freed = {.xdpf 0} ∧ s.back = {.skb 0x3000, .xdpf 1} ∧
        held oneDesc s = {.skb 0x3000} ∧ (s.stats 1).txPackets = 1)) = true := by
    decide +kernel
  obtain ⟨s, hrun, hs⟩ := exists_run_of_any htest
  exact ⟨s, hrun, of_decide_eq_true hs, accountedFor_of_run initial_linksUp hrun⟩

end CpswDriver.Sending
