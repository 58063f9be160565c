import CpswDriver.Cpdma.Queue
import CpswDriver.Cpdma.System
import CpswDriver.Lib.CallTable
import Mathlib.Algebra.Order.Group.Multiset

/-!
What a step of the driver can do to the packets. Whatever the operation, it
either leaves every queue, the pool and the packets in flight alone, or it is
one of four moves of a single packet: into a queue, off a queue, from a
descriptor back to the pool, and into the handler. The invariants are proved
of the moves.
-/

namespace CpswDriver.Cpdma

open CallTable

variable {τ : Type*} {params : CpdmaParams} {s s' s'' : State τ}

/-- The descriptor a call has taken off a queue and not given back yet. -/
def Pc.desc : Pc τ → Option ℕ
  | .chanFree _ desc _ _ _ => some desc
  | _ => none

@[simp] theorem Pc.desc_chanFree (ch : ChanId) (d : ℕ) (outlen status : ℤ) (k : Cont) :
    (Pc.chanFree ch d outlen status k : Pc τ).desc = some d := rfl

@[simp] theorem Pc.desc_handler (ch : ChanId) (item : Item τ) (outlen status : ℤ) (k : Cont) :
    (Pc.handler ch item outlen status k).desc = none := rfl

/-- The packets of a channel that a call has yet to hand to the handler. -/
def Pc.items (mem : ℕ → CpdmaDesc τ) (ch : ChanId) : Pc τ → Multiset (Item τ)
  | .chanFree ch' desc _ _ _ => if ch' = ch then {itemAt mem desc} else 0
  | .handler ch' item _ _ _ => if ch' = ch then {item} else 0
  | _ => 0

def Pc.limbo (ch : ChanId) : Pc τ → ℕ
  | .chanFree ch' _ _ _ _ => if ch' = ch then 1 else 0
  | _ => 0

structure Pc.Plain (pc : Pc τ) : Prop where
  desc : pc.desc = none
  items : ∀ mem ch, pc.items mem ch = 0
  limbo : ∀ ch, pc.limbo ch = 0

/-- A call has a packet in its hands while it frees the descriptor and in the handler. -/
def Pc.atPacket : Pc τ → Bool
  | .chanFree _ _ _ _ _ | .handler _ _ _ _ _ => true
  | _ => false

theorem Pc.plain {pc : Pc τ} (h : pc.atPacket = false) : pc.Plain := by
  cases pc with
  | chanFree => cases h
  | handler => cases h
  | _ => exact ⟨rfl, fun _ _ => rfl, fun _ => rfl⟩

theorem Cont.plain_resume (k : Cont) (ch : ChanId) : (k.resume ch : Pc τ).Plain := by
  cases k with
  | process => exact Pc.plain rfl
  | stopDrain tdComplete => cases tdComplete <;> exact Pc.plain rfl
  | stopClean => exact Pc.plain rfl

theorem StopRet.plain_resume (r : StopRet) (ret : ℤ) : (r.resume ret : Pc τ).Plain := by
  cases r <;> exact Pc.plain rfl

/-- The same channel as far as its queue goes; a created one starts empty. -/
inductive ChanAgree : Option CpdmaChan → Option CpdmaChan → Prop
  | none : ChanAgree none none
  | some {chan chan' : CpdmaChan} : SameQueue chan chan' → ChanAgree (some chan) (some chan')
  | create {chan' : CpdmaChan} : chan'.head = 0 → chan'.count = 0 → ChanAgree none (some chan')

/-- The same channel as far as its queue and its share of the pool go. -/
inductive ChanSteady : Option CpdmaChan → Option CpdmaChan → Prop
  | none : ChanSteady none none
  | some {chan chan' : CpdmaChan} : SameShape chan chan' → ChanSteady (some chan) (some chan')

theorem ChanAgree.refl (o : Option CpdmaChan) : ChanAgree o o := by
  cases o with
  | none => exact .none
  | some chan => exact .some (SameQueue.refl chan)

theorem ChanAgree.trans {o o' o'' : Option CpdmaChan} (h : ChanAgree o o')
    (h' : ChanAgree o' o'') : ChanAgree o o'' := by
  cases h with
  | none => exact h'
  | some hs =>
    cases h' with
    | some hs' => exact .some (hs.trans hs')
  | create hhead hcount =>
    cases h' with
    | some hs' => exact .create (hs'.head.trans hhead) (hs'.count.trans hcount)

theorem ChanSteady.refl (o : Option CpdmaChan) : ChanSteady o o := by
  cases o with
  | none => exact .none
  | some chan => exact .some (SameShape.refl chan)

theorem ChanSteady.trans {o o' o'' : Option CpdmaChan} (h : ChanSteady o o')
    (h' : ChanSteady o' o'') : ChanSteady o o'' := by
  cases h with
  | none => exact h'
  | some hs =>
    cases h' with
    | some hs' => exact .some (hs.trans hs')

theorem ChanSteady.agree {o o' : Option CpdmaChan} (h : ChanSteady o o') : ChanAgree o o' := by
  cases h with
  | none => exact .none
  | some hs => exact .some hs.toSameQueue

/-- Queues, shares, pool, packets in flight and the record of packets are the same. -/
structure Same (s s' : State τ) : Prop where
  avail : s'.ctlr.avail = s.ctlr.avail
  next : ∀ d, (s'.ctlr.mem d).hwNext = (s.ctlr.mem d).hwNext
  item : ∀ d, itemAt s'.ctlr.mem d = itemAt s.ctlr.mem d
  numTx : s'.ctlr.numTxDesc = s.ctlr.numTxDesc
  numRx : s'.ctlr.numRxDesc = s.ctlr.numRxDesc
  chans : ∀ ch, ChanSteady (s.ctlr.channels ch) (s'.ctlr.channels ch)
  held : ∀ i : ℕ, (s'.calls[i]?).bind Pc.desc = (s.calls[i]?).bind Pc.desc
  items : ∀ mem ch, total (Pc.items mem ch) s'.calls = total (Pc.items mem ch) s.calls
  limbo : ∀ ch, total (Pc.limbo ch) s'.calls = total (Pc.limbo ch) s.calls
  accepted : s'.accepted = s.accepted
  removed : s'.removed = s.removed
  handled : s'.handled = s.handled

theorem Same.trans (h : Same s s') (h' : Same s' s'') : Same s s'' where
  avail := h'.avail.trans h.avail
  next d := (h'.next d).trans (h.next d)
  item d := (h'.item d).trans (h.item d)
  numTx := h'.numTx.trans h.numTx
  numRx := h'.numRx.trans h.numRx
  chans ch := (h.chans ch).trans (h'.chans ch)
  held i := (h'.held i).trans (h.held i)
  items mem ch := (h'.items mem ch).trans (h.items mem ch)
  limbo ch := (h'.limbo ch).trans (h.limbo ch)
  accepted := h'.accepted.trans h.accepted
  removed := h'.removed.trans h.removed
  handled := h'.handled.trans h.handled

/-- A change of the controller that no packet notices. -/
structure CtlrAgree (c c' : CpdmaCtlr τ) : Prop where
  avail : c'.avail = c.avail
  mem : c'.mem = c.mem
  numTx : c'.numTxDesc = c.numTxDesc
  numRx : c'.numRxDesc = c.numRxDesc
  chans : ∀ ch, ChanSteady (c.channels ch) (c'.channels ch)

theorem CtlrAgree.same {c : CpdmaCtlr τ} (h : CtlrAgree s.ctlr c) (lock : Option ℕ) :
    Same s { s with ctlr := c, lock := lock } :=
  ⟨h.avail, fun _ => by rw [h.mem], fun _ => by rw [h.mem], h.numTx, h.numRx, h.chans,
    fun _ => rfl, fun _ _ => rfl, fun _ => rfl, rfl, rfl, rfl⟩

theorem Same.refl (s : State τ) : Same s s :=
  ⟨rfl, fun _ => rfl, fun _ => rfl, rfl, rfl, fun _ => ChanSteady.refl _, fun _ => rfl,
    fun _ _ => rfl, fun _ => rfl, rfl, rfl, rfl⟩

/-- A new division of the pool: queues and packets are as before. -/
structure Resplit (c c' : CpdmaCtlr τ) : Prop where
  avail : c'.avail = c.avail
  mem : c'.mem = c.mem
  chans : ∀ ch, ChanAgree (c.channels ch) (c'.channels ch)

theorem agree_update {channels : ChanId → Option CpdmaChan} {ch : ChanId} {chan chan' : CpdmaChan}
    (hch : channels ch = some chan) (hs : SameQueue chan chan') (ch' : ChanId) :
    ChanAgree (channels ch') (Function.update channels ch (some chan') ch') := by
  by_cases h : ch' = ch
  · subst h
    simpa [hch] using ChanAgree.some hs
  · simpa [h] using ChanAgree.refl (channels ch')

theorem steady_update {channels : ChanId → Option CpdmaChan} {ch : ChanId}
    {chan chan' : CpdmaChan} (hch : channels ch = some chan) (hs : SameShape chan chan')
    (ch' : ChanId) : ChanSteady (channels ch') (Function.update channels ch (some chan') ch') := by
  by_cases h : ch' = ch
  · subst h
    simpa [hch] using ChanSteady.some hs
  · simpa [h] using ChanSteady.refl (channels ch')

theorem QuotaOnly.agree {f g : ChanId → Option CpdmaChan} (h : QuotaOnly f g) (ch : ChanId) :
    ChanAgree (f ch) (g ch) := by
  obtain ⟨n, hn⟩ := h ch
  rw [hn]
  cases f ch with
  | none => exact .none
  | some chan => exact .some ⟨rfl, rfl, rfl⟩

section Agree

variable {c c' c'' : CpdmaCtlr τ} {ch : ChanId} {chan chan' : CpdmaChan}

theorem CtlrAgree.refl (c : CpdmaCtlr τ) : CtlrAgree c c :=
  ⟨rfl, rfl, rfl, rfl, fun _ => ChanSteady.refl _⟩

theorem CtlrAgree.trans (h : CtlrAgree c c') (h' : CtlrAgree c' c'') : CtlrAgree c c'' :=
  ⟨h'.avail.trans h.avail, h'.mem.trans h.mem, h'.numTx.trans h.numTx, h'.numRx.trans h.numRx,
    fun ch => (h.chans ch).trans (h'.chans ch)⟩

theorem CtlrAgree.setChan (hch : c.channels ch = some chan) (hs : SameShape chan chan') :
    CtlrAgree c (c.setChan ch chan') :=
  ⟨rfl, rfl, rfl, rfl, steady_update hch hs⟩

theorem CtlrAgree.channels_eq (havail : c'.avail = c.avail) (hmem : c'.mem = c.mem)
    (htx : c'.numTxDesc = c.numTxDesc) (hrx : c'.numRxDesc = c.numRxDesc)
    (hchans : c'.channels = c.channels) : CtlrAgree c c' :=
  ⟨havail, hmem, htx, hrx, fun ch => by rw [hchans]; exact ChanSteady.refl _⟩

theorem dmaRegWrite_agree (ofs : ℕ) (v : U32) : CtlrAgree c (c.dmaRegWrite ofs v) :=
  .channels_eq rfl rfl rfl rfl rfl

theorem cpdmaControlSetLocked_agree (control : ℤ) (value : U32) :
    CtlrAgree c (cpdmaControlSetLocked params c control value).1 := by
  unfold cpdmaControlSetLocked
  split
  · exact .refl c
  split
  · exact .refl c
  split
  · exact .refl c
  split
  · exact .refl c
  · exact dmaRegWrite_agree _ _

theorem cpdmaControlSetLocked_channels (control : ℤ) (value : U32) :
    (cpdmaControlSetLocked params c control value).1.channels = c.channels := by
  unfold cpdmaControlSetLocked
  split
  · rfl
  split
  · rfl
  split
  · rfl
  split <;> rfl

theorem cpdmaChanSetChanShaper_channels :
    (cpdmaChanSetChanShaper params c ch chan).1.channels = c.channels := by
  unfold cpdmaChanSetChanShaper
  split
  · rfl
  · exact cpdmaControlSetLocked_channels _ _

theorem cpdmaChanSetChanShaper_agree : CtlrAgree c (cpdmaChanSetChanShaper params c ch chan).1 := by
  unfold cpdmaChanSetChanShaper
  split
  · exact .refl c
  · exact (dmaRegWrite_agree _ _).trans (cpdmaControlSetLocked_agree _ _)

theorem cpdmaChanOn_agree (hch : c.channels ch = some chan) :
    CtlrAgree c (cpdmaChanOn params c ch chan).1 := by
  unfold cpdmaChanOn
  split
  · exact .refl c
  split
  · exact .refl c
  · exact (dmaRegWrite_agree (chanIntSet ch) (chanMask ch)).trans
      (CtlrAgree.setChan hch (sameShape_turnOn params.pool ch chan))

theorem teardownStart_agree (hch : c.channels ch = some chan) :
    CtlrAgree c (teardownStart c ch chan) :=
  ⟨rfl, rfl, rfl, rfl, steady_update hch ⟨⟨rfl, rfl, rfl⟩, rfl, rfl⟩⟩

theorem ctlrStartBegin_agree : CtlrAgree c (ctlrStartBegin params c) := by
  have hzero : ∀ ch, ChanSteady (c.channels ch) (zeroHdp params c.channels ch) := by
    intro ch
    unfold zeroHdp
    split
    · cases c.channels ch with
      | none => exact .none
      | some chan => exact .some ⟨⟨rfl, rfl, rfl⟩, rfl, rfl⟩
    · exact ChanSteady.refl _
  unfold ctlrStartBegin
  split <;> exact ⟨rfl, rfl, rfl, rfl, hzero⟩

theorem ctlrStartChan_agree (hch : c.channels ch = some chan) :
    CtlrAgree c (ctlrStartChan params c ch chan) := by
  have hshaper : CtlrAgree c (cpdmaChanSetChanShaper params c ch chan).1 :=
    cpdmaChanSetChanShaper_agree
  refine hshaper.trans (cpdmaChanOn_agree ?_)
  rw [cpdmaChanSetChanShaper_channels, hch]

theorem ctlrStartEnd_agree (prioMode : Bool) : CtlrAgree c (ctlrStartEnd params c prioMode) :=
  (cpdmaControlSetLocked_agree _ _).trans (cpdmaControlSetLocked_agree _ _)

theorem ctlrStopEnd_agree : CtlrAgree c (ctlrStopEnd c) := .channels_eq rfl rfl rfl rfl rfl

theorem Resplit.refl (c : CpdmaCtlr τ) : Resplit c c := ⟨rfl, rfl, fun _ => ChanAgree.refl _⟩

theorem Resplit.trans (h : Resplit c c') (h' : Resplit c' c'') : Resplit c c'' :=
  ⟨h'.avail.trans h.avail, h'.mem.trans h.mem, fun ch => (h.chans ch).trans (h'.chans ch)⟩

theorem cpdmaChanSplitPool_resplit (c : CpdmaCtlr τ) : Resplit c (cpdmaChanSplitPool c).1 := by
  obtain ⟨channels, hquota, heq⟩ := cpdmaChanSplitPool_frame c
  rw [heq]
  exact ⟨rfl, rfl, hquota.agree⟩

theorem cpdmaChanSetWeight_resplit (hch : c.channels ch = some chan) (weight : ℤ) :
    Resplit c (cpdmaChanSetWeight c ch chan weight).1 := by
  unfold cpdmaChanSetWeight
  split
  · exact .refl c
  · have hset : Resplit c (c.setChan ch { chan with weight := weight }) :=
      ⟨rfl, rfl, agree_update hch ⟨rfl, rfl, rfl⟩⟩
    exact hset.trans (cpdmaChanSplitPool_resplit _)

theorem cpdmaSetNumRxDescs_resplit (numRxDesc : ℤ) :
    Resplit c (cpdmaSetNumRxDescs params.pool c numRxDesc).1 := by
  have hsplit := cpdmaChanSplitPool_resplit
    { c with numRxDesc := numRxDesc, numTxDesc := params.pool.numDesc - numRxDesc }
  unfold cpdmaSetNumRxDescs
  dsimp only
  split <;> exact ⟨hsplit.avail, hsplit.mem, hsplit.chans⟩

theorem cpdmaChanCreate_resplit (ch : ChanId) (zalloc : Bool) :
    Resplit c (cpdmaChanCreate params c ch zalloc).1 := by
  unfold cpdmaChanCreate
  split
  · exact .refl c
  split
  · exact .refl c
  split
  · exact .refl c
  · rename_i hnone
    have hcreate : Resplit c { c.setChan ch {} with chanNum := c.chanNum + 1 } := by
      refine ⟨rfl, rfl, fun ch' => ?_⟩
      by_cases hch : ch' = ch
      · subst hch
        have hch : c.channels ch' = none := by simpa using hnone
        simpa [hch, CpdmaCtlr.setChan] using ChanAgree.create rfl rfl
      · simpa [hch, CpdmaCtlr.setChan] using ChanAgree.refl (c.channels ch')
    exact hcreate.trans (cpdmaChanSplitPool_resplit _)

end Agree

theorem Same.setChan {ch : ChanId} {chan chan' : CpdmaChan} (hch : s.ctlr.channels ch = some chan)
    (hs : SameShape chan chan') : Same s (s.setChan ch chan') :=
  (CtlrAgree.setChan hch hs).same s.lock

theorem bind_desc_set {l : List (Pc τ)} {i : ℕ} {pc : Pc τ} (hi : l[i]? = some pc) (pc' : Pc τ)
    (j : ℕ) : ((l.set i pc')[j]?).bind Pc.desc =
      if i = j then pc'.desc else (l[j]?).bind Pc.desc := by
  by_cases hj : i = j
  · subst hj
    simp [getElem?_set_self hi]
  · simp [hj]

theorem Same.setPc {i : ℕ} {pc pc' : Pc τ} (hi : s.calls[i]? = some pc) (hpc : pc.Plain)
    (hpc' : pc'.Plain) : Same s (s.setPc i pc') where
  avail := rfl
  next _ := rfl
  item _ := rfl
  numTx := rfl
  numRx := rfl
  chans _ := ChanSteady.refl _
  held j := by
    simp only [State.setPc, bind_desc_set hi, hpc'.desc]
    split
    · rename_i hj
      rw [← hj, hi]
      exact hpc.desc.symm
    · rfl
  items mem ch := total_set_of_eq _ _ hi (by rw [hpc.items, hpc'.items])
  limbo ch := total_set_of_eq _ _ hi (by rw [hpc.limbo, hpc'.limbo])
  accepted := rfl
  removed := rfl
  handled := rfl

theorem Same.spawn {pc : Pc τ} (hpc : pc.Plain) : Same s (s.spawn pc) where
  avail := rfl
  next _ := rfl
  item _ := rfl
  numTx := rfl
  numRx := rfl
  chans _ := ChanSteady.refl _
  held j := by
    simp only [State.spawn]
    by_cases hj : j < s.calls.length
    · rw [List.getElem?_append_left hj]
    · rw [List.getElem?_append_right (by omega), List.getElem?_eq_none (l := s.calls) (by omega)]
      cases h : [pc][j - s.calls.length]? with
      | none => rfl
      | some pc' =>
        obtain rfl : pc' = pc := List.mem_singleton.mp (List.mem_of_getElem? h)
        exact hpc.desc
  items mem ch := total_spawn _ _ _ (hpc.items mem ch)
  limbo ch := total_spawn _ _ _ (hpc.limbo ch)
  accepted := rfl
  removed := rfl
  handled := rfl

/-- The five things a step can do; only a submit to a channel adds to its queue. -/
inductive Move (params : CpdmaParams) : Option ChanId → State τ → State τ → Prop
  | same {o : Option ChanId} {s s' : State τ} : Same s s' → Move params o s s'
  | enqueue {s : State τ} {ch : ChanId} {chan chan' : CpdmaChan} {d : ℕ} {fresh : CpdmaDesc τ}
      {mem' : ℕ → CpdmaDesc τ} {item : Item τ} {rxfree : U32} :
      s.ctlr.channels ch = some chan → chan.count < chan.descNum → d ∈ s.ctlr.avail →
      fresh.hwNext = 0 → itemAt (Function.update s.ctlr.mem d fresh) d = item →
      Linked params.pool (Function.update s.ctlr.mem d fresh) chan d mem' chan' →
      Move params (some ch) s ({ s with
        ctlr := { s.ctlr with avail := s.ctlr.avail.erase d, mem := mem' }.setChan ch
          { chan' with rxfree := rxfree, count := chan'.count + 1 } }.accept ch item)
  | dequeue {o : Option ChanId} {s : State τ} {i : ℕ} {pc : Pc τ} {ch : ChanId}
      {chan chan' : CpdmaChan}
      {outlen status : ℤ} {k : Cont} :
      s.ctlr.channels ch = some chan → Unlinked params.pool s.ctlr.mem chan chan' →
      s.calls[i]? = some pc → pc.Plain →
      Move params o s (((s.setChan ch chan').remove ch chan.head).setPc i
        (.chanFree ch chan.head outlen status k))
  | free {o : Option ChanId} {s : State τ} {i : ℕ} {ch : ChanId} {d : ℕ} {outlen status : ℤ}
      {k : Cont} :
      s.calls[i]? = some (.chanFree ch d outlen status k) →
      Move params o s ({ s with ctlr := (cpdmaChanFree s.ctlr d).1 }.setPc i
        (.handler ch (cpdmaChanFree s.ctlr d).2 outlen status k))
  | handBack {o : Option ChanId} {s : State τ} {i : ℕ} {ch : ChanId} {item : Item τ}
      {outlen status : ℤ} {k : Cont} :
      s.calls[i]? = some (.handler ch item outlen status k) →
      Move params o s ((s.handle ch item).setPc i (k.resume ch))

/-- Callers pass packets shorter than 64 KiB. -/
def LenOk (_ : State τ) : Op τ → Prop
  | .submit _ _ args _ => args.len < 2 ^ 16
  | _ => True

instance (s : State τ) : DecidablePred (LenOk s)
  | .submit _ _ args _ => inferInstanceAs (Decidable (args.len < 2 ^ 16))
  | .engine .. | .engineHdp .. | .chanProcess .. | .chanStop .. | .chanStart .. | .ctlrStart
  | .ctlrStop | .chanCreate .. | .setWeight .. | .setNumRxDescs .. | .advance .. =>
    inferInstanceAs (Decidable True)

theorem submitStep_move {kind : SubmitKind} {ch : ChanId} {chan : CpdmaChan} {args : SubmitArgs τ}
    {mapped : Option U32} (hlen : args.len < 2 ^ 16) (hch : s.ctlr.channels ch = some chan) :
    Move params (some ch) s (submitStep params s kind ch chan args mapped).1 := by
  unfold submitStep submitEntry
  by_cases hallow : kind.allows chan.state
  · simp only [hallow, Bool.not_true, Bool.false_eq_true, if_false]
    cases hr : cpdmaChanSubmitSi params s.ctlr ch chan (submitInfo kind args) mapped with
    | mk ctlr ret =>
      rcases cpdmaChanSubmitSi_cases hr with
        ⟨hret, stats, rfl⟩ | ⟨rfl, hcount, d, mem', chan', rxfree, hd, hl, rfl⟩
      · rw [if_neg hret]
        exact .same (Same.setChan hch ⟨⟨rfl, rfl, rfl⟩, rfl, rfl⟩)
      · exact .enqueue hch hcount hd rfl (itemAt_freshDesc ch _ _ hlen) hl
  · simp only [hallow, Bool.not_false, if_true]
    exact .same (Same.refl s)

theorem processStep_move {o : Option ChanId} {i : ℕ} {ch : ChanId} {chan : CpdmaChan}
    {pc onFail : Pc τ}
    {k : U32 → Cont} (hch : s.ctlr.channels ch = some chan) (hi : s.calls[i]? = some pc)
    (hpc : pc.Plain) (hfail : onFail.Plain) :
    Move params o s (processStep params s i ch chan onFail k) := by
  unfold processStep
  cases hr : cpdmaChanProcessLocked params.pool s.ctlr.mem chan with
  | mk chan' r =>
    rcases cpdmaChanProcessLocked_cases hr with
      ⟨ret, rfl, hs, -⟩ | ⟨outlen, status, rfl, hu⟩
    · exact .same ((Same.setChan hch hs).trans (Same.setPc hi hpc hfail))
    · exact .dequeue hch hu hi hpc

theorem stopBeginStep_same {i : ℕ} {ch : ChanId} {chan : CpdmaChan} {ret : StopRet} {pc : Pc τ}
    (hch : s.ctlr.channels ch = some chan) (hi : s.calls[i]? = some pc) (hpc : pc.Plain) :
    Same s (stopBeginStep s i ch chan ret) := by
  unfold stopBeginStep
  split
  · exact Same.setPc hi hpc (ret.plain_resume _)
  · have hstart : Same s { s with ctlr := teardownStart s.ctlr ch chan } :=
      (teardownStart_agree hch).same s.lock
    exact hstart.trans (Same.setPc hi hpc (Pc.plain rfl))

theorem stopCleanStep_move {o : Option ChanId} {i : ℕ} {ch : ChanId} {chan : CpdmaChan}
    {ret : StopRet} {pc : Pc τ}
    (hch : s.ctlr.channels ch = some chan) (hi : s.calls[i]? = some pc) (hpc : pc.Plain) :
    Move params o s (stopCleanStep params s i ch chan ret) := by
  unfold stopCleanStep
  split
  · have hidle : Same s (s.setChan ch { chan with state := .idle }) :=
      Same.setChan hch ⟨⟨rfl, rfl, rfl⟩, rfl, rfl⟩
    exact .same (hidle.trans (Same.setPc hi hpc (ret.plain_resume _)))
  · exact .dequeue hch (unlinked_teardownDequeue ‹_›) hi hpc

theorem advance_move {o : Option ChanId} {i : ℕ} {pc : Pc τ} (hi : s.calls[i]? = some pc)
    (h : advance params s i pc = some s') : Move params o s s' := by
  cases pc with
  | done ret => cases h
  | process ch quota used =>
    have hpc : (Pc.process ch quota used : Pc τ).Plain := Pc.plain rfl
    simp only [advance] at h
    split at h
    · obtain ⟨chan, hch, rfl⟩ := Option.map_eq_some_iff.mp h
      exact processStep_move hch hi hpc (Pc.plain rfl)
    · obtain rfl := Option.some.inj h
      exact .same (Same.setPc hi hpc (Pc.plain rfl))
  | chanFree ch desc outlen status k =>
    obtain rfl := Option.some.inj h
    exact .free hi
  | handler ch item outlen status k =>
    obtain rfl := Option.some.inj h
    exact .handBack hi
  | stopBegin ch ret =>
    obtain ⟨chan, hch, rfl⟩ := Option.map_eq_some_iff.mp h
    exact .same (stopBeginStep_same hch hi (Pc.plain rfl))
  | stopDrain ch ret =>
    obtain ⟨chan, hch, rfl⟩ := Option.map_eq_some_iff.mp h
    exact processStep_move hch hi (Pc.plain rfl) (Pc.plain rfl)
  | stopClean ch ret =>
    obtain ⟨chan, hch, rfl⟩ := Option.map_eq_some_iff.mp h
    exact stopCleanStep_move hch hi (Pc.plain rfl)
  | chanOn ch =>
    obtain ⟨chan, hch, rfl⟩ := Option.map_eq_some_iff.mp h
    exact .same (((cpdmaChanOn_agree hch).same s.lock).trans
      (Same.setPc hi (Pc.plain rfl) (Pc.plain rfl)))
  | ctlrStart j prioMode =>
    have hpc : (Pc.ctlrStart j prioMode : Pc τ).Plain := Pc.plain rfl
    simp only [advance] at h
    split at h
    · split at h
      · obtain rfl := Option.some.inj h
        exact .same (Same.setPc hi hpc (Pc.plain rfl))
      · obtain rfl := Option.some.inj h
        exact .same (((ctlrStartChan_agree ‹_›).same s.lock).trans
          (Same.setPc hi hpc (Pc.plain rfl)))
    · obtain rfl := Option.some.inj h
      exact .same (((ctlrStartEnd_agree prioMode).same none).trans
        (Same.setPc hi hpc (Pc.plain rfl)))
  | ctlrStop j =>
    have hpc : (Pc.ctlrStop j : Pc τ).Plain := Pc.plain rfl
    simp only [advance] at h
    split at h
    · split at h
      · obtain rfl := Option.some.inj h
        exact .same (Same.setPc hi hpc (Pc.plain rfl))
      · obtain rfl := Option.some.inj h
        exact .same (stopBeginStep_same ‹_› hi hpc)
    · split at h
      · obtain rfl := Option.some.inj h
        exact .same ((ctlrStopEnd_agree.same s.lock).trans
          (Same.setPc hi hpc (Pc.plain rfl)))
      · cases h

theorem engine_same (d : ℕ) (hwMode hwLen : U32) :
    Same s { s with ctlr := { s.ctlr with
      mem := Function.update s.ctlr.mem d { s.ctlr.mem d with
        hwMode := hwMode, hwLen := hwLen } } } where
  avail := rfl
  next e := by
    rw [hwNext_update]
    split
    · rename_i he
      rw [he]
    · rfl
  item := itemAt_update_hw _ _ _ rfl rfl rfl
  numTx := rfl
  numRx := rfl
  chans _ := ChanSteady.refl _
  held _ := rfl
  items _ _ := rfl
  limbo _ := rfl
  accepted := rfl
  removed := rfl
  handled := rfl

def Op.resplits : Op τ → Bool
  | .chanCreate _ _ => true
  | .setWeight _ _ => true
  | .setNumRxDescs _ => true
  | _ => false

def Op.submitsTo : Op τ → Option ChanId
  | .submit _ ch _ _ => some ch
  | _ => none

/-- Every step but a new division of the pool is one of the five moves. -/
theorem step_move {op : Op τ} (hok : LenOk s op) (hsplit : op.resplits = false)
    (h : step params s op = some s') : Move params op.submitsTo s s' := by
  cases op with
  | submit kind ch args mapped =>
    obtain ⟨chan, hch, rfl⟩ := Option.map_eq_some_iff.mp h
    exact submitStep_move hok hch
  | engine d hwMode hwLen =>
    obtain rfl := Option.some.inj h
    exact .same (engine_same d hwMode hwLen)
  | engineHdp ch hdp =>
    obtain ⟨chan, hch, rfl⟩ := Option.map_eq_some_iff.mp h
    exact .same (Same.setChan hch ⟨⟨rfl, rfl, rfl⟩, rfl, rfl⟩)
  | chanProcess ch quota =>
    obtain ⟨chan, hch, rfl⟩ := Option.map_eq_some_iff.mp h
    refine .same (Same.spawn ?_)
    split <;> exact Pc.plain rfl
  | chanStop ch =>
    obtain ⟨chan, hch, rfl⟩ := Option.map_eq_some_iff.mp h
    exact .same (Same.spawn (Pc.plain rfl))
  | chanStart ch =>
    obtain ⟨-, chan, hch, rfl⟩ := step_chanStart h
    refine .same ((cpdmaChanSetChanShaper_agree.same s.lock).trans (Same.spawn ?_))
    split <;> exact Pc.plain rfl
  | ctlrStart =>
    obtain ⟨-, ⟨-, rfl⟩ | ⟨-, rfl⟩⟩ := step_ctlrStart h
    · exact .same (Same.spawn (Pc.plain rfl))
    · exact .same ((ctlrStartBegin_agree.same _).trans (Same.spawn (Pc.plain rfl)))
  | ctlrStop =>
    obtain ⟨-, ⟨-, rfl⟩ | ⟨-, rfl⟩⟩ := step_ctlrStop h
    · exact .same (Same.spawn (Pc.plain rfl))
    · have hteardown : CtlrAgree s.ctlr { s.ctlr with state := .teardown } :=
        .channels_eq rfl rfl rfl rfl rfl
      exact .same ((hteardown.same s.lock).trans (Same.spawn (Pc.plain rfl)))
  | chanCreate ch zalloc => cases hsplit
  | setWeight ch weight => cases hsplit
  | setNumRxDescs numRxDesc => cases hsplit
  | advance i =>
    obtain ⟨pc, hi, h⟩ := Option.bind_eq_some_iff.mp h
    exact advance_move hi h

theorem step_resplit {op : Op τ} (hsplit : op.resplits = true) (h : step params s op = some s') :
    ∃ c, Resplit s.ctlr c ∧ s' = { s with ctlr := c } := by
  cases op with
  | chanCreate ch zalloc =>
    simp only [step] at h
    split at h
    · cases h
    · exact ⟨_, cpdmaChanCreate_resplit ch zalloc, (Option.some.inj h).symm⟩
  | setWeight ch weight =>
    simp only [step] at h
    split at h
    · cases h
    · obtain ⟨chan, hch, rfl⟩ := Option.map_eq_some_iff.mp h
      exact ⟨_, cpdmaChanSetWeight_resplit hch weight, rfl⟩
  | setNumRxDescs numRxDesc =>
    simp only [step] at h
    split at h
    · cases h
    · exact ⟨_, cpdmaSetNumRxDescs_resplit numRxDesc, (Option.some.inj h).symm⟩
  | _ => cases hsplit

end CpswDriver.Cpdma
