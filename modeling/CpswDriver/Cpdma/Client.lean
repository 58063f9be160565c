import CpswDriver.Cpdma.Handback

/-!
What the users of the channels see of a step: packets are accepted by submits
and handed back by handler calls, and every other step does neither. The
packets in flight are those accepted and not handed back yet.
-/

namespace CpswDriver.Cpdma

open CallTable

variable {τ : Type*} {params : CpdmaParams} {s s' : State τ} {q : ChanId → List ℕ}
  {own : ℕ → Owner}

/-- The arguments of a handler call, and the channel it is for. -/
structure Delivery (τ : Type*) where
  ch : ChanId
  item : Item τ
  outlen : ℤ
  status : ℤ

def Pc.delivers : Pc τ → Option (Delivery τ)
  | .handler ch item outlen status _ => some ⟨ch, item, outlen, status⟩
  | _ => none

def Op.delivers (s : State τ) : Op τ → Option (Delivery τ)
  | .advance i => (s.calls[i]?).bind Pc.delivers
  | _ => none

def handledAfter (s : State τ) : Option (Delivery τ) → ChanId → List (Item τ)
  | some d => (s.handle d.ch d.item).handled
  | none => s.handled

@[simp] theorem setPc_handled (i : ℕ) (pc : Pc τ) : (s.setPc i pc).handled = s.handled := rfl

@[simp] theorem setPc_accepted (i : ℕ) (pc : Pc τ) : (s.setPc i pc).accepted = s.accepted := rfl

/-- The record of packets that users keep is the same. -/
structure Unnoticed (s s' : State τ) : Prop where
  accepted : s'.accepted = s.accepted
  handled : s'.handled = s.handled

theorem processStep_unnoticed {i : ℕ} {ch : ChanId} {chan : CpdmaChan} {onFail : Pc τ}
    {k : U32 → Cont} : Unnoticed s (processStep params s i ch chan onFail k) := by
  unfold processStep
  split <;> exact ⟨rfl, rfl⟩

theorem stopBeginStep_unnoticed {i : ℕ} {ch : ChanId} {chan : CpdmaChan} {ret : StopRet} :
    Unnoticed s (stopBeginStep s i ch chan ret) := by
  unfold stopBeginStep
  split <;> exact ⟨rfl, rfl⟩

theorem stopCleanStep_unnoticed {i : ℕ} {ch : ChanId} {chan : CpdmaChan} {ret : StopRet} :
    Unnoticed s (stopCleanStep params s i ch chan ret) := by
  unfold stopCleanStep
  split <;> exact ⟨rfl, rfl⟩

/-- A section of a call that makes no handler call goes unnoticed. -/
theorem advance_unnoticed {i : ℕ} {pc : Pc τ} (hpc : pc.delivers = none)
    (h : advance params s i pc = some s') : Unnoticed s s' := by
  cases pc with
  | done ret => cases h
  | process ch quota used =>
    simp only [advance] at h
    split at h
    · obtain ⟨chan, -, rfl⟩ := Option.map_eq_some_iff.mp h
      exact processStep_unnoticed
    · obtain rfl := Option.some.inj h
      exact ⟨rfl, rfl⟩
  | chanFree ch desc outlen status k =>
    obtain rfl := Option.some.inj h
    exact ⟨rfl, rfl⟩
  | handler ch item outlen status k => cases hpc
  | stopBegin ch ret =>
    obtain ⟨chan, -, rfl⟩ := Option.map_eq_some_iff.mp h
    exact stopBeginStep_unnoticed
  | stopDrain ch ret =>
    obtain ⟨chan, -, rfl⟩ := Option.map_eq_some_iff.mp h
    exact processStep_unnoticed
  | stopClean ch ret =>
    obtain ⟨chan, -, rfl⟩ := Option.map_eq_some_iff.mp h
    exact stopCleanStep_unnoticed
  | chanOn ch =>
    obtain ⟨chan, -, rfl⟩ := Option.map_eq_some_iff.mp h
    exact ⟨rfl, rfl⟩
  | ctlrStart j prioMode =>
    simp only [advance] at h
    split at h
    · split at h <;>
      · obtain rfl := Option.some.inj h
        exact ⟨rfl, rfl⟩
    · obtain rfl := Option.some.inj h
      exact ⟨rfl, rfl⟩
  | ctlrStop j =>
    simp only [advance] at h
    split at h
    · split at h
      · obtain rfl := Option.some.inj h
        exact ⟨rfl, rfl⟩
      · obtain rfl := Option.some.inj h
        exact stopBeginStep_unnoticed
    · split at h
      · obtain rfl := Option.some.inj h
        exact ⟨rfl, rfl⟩
      · cases h

theorem submitStep_handled {kind : SubmitKind} {ch : ChanId} {chan : CpdmaChan}
    {args : SubmitArgs τ} {mapped : Option U32} :
    (submitStep params s kind ch chan args mapped).1.handled = s.handled := by
  unfold submitStep
  dsimp only
  split <;> rfl

/-- A submit accepts its packet, if anything, on its own channel. -/
theorem submitStep_accepted {kind : SubmitKind} {ch ch' : ChanId} {chan : CpdmaChan}
    {args : SubmitArgs τ} {mapped : Option U32} (hne : ch' ≠ ch) :
    (submitStep params s kind ch chan args mapped).1.accepted ch' = s.accepted ch' := by
  unfold submitStep
  dsimp only
  split
  · simp [State.accept, hne]
  · rfl

/-- Every operation hands back what its handler call says, and accepts nothing
on a channel that it is not a submit to. -/
theorem step_records {op : Op τ} (h : step params s op = some s') :
    s'.handled = handledAfter s (op.delivers s) ∧
      ∀ ch, op.submitsTo ≠ some ch → s'.accepted ch = s.accepted ch := by
  have hquiet : Unnoticed s s' → op.delivers s = none →
      s'.handled = handledAfter s (op.delivers s) ∧
        ∀ ch, op.submitsTo ≠ some ch → s'.accepted ch = s.accepted ch := by
    intro hs hnone
    rw [hnone]
    exact ⟨hs.handled, fun ch _ => by rw [hs.accepted]⟩
  cases op with
  | submit kind ch args mapped =>
    obtain ⟨chan, -, rfl⟩ := Option.map_eq_some_iff.mp h
    refine ⟨submitStep_handled, fun ch' hne => submitStep_accepted ?_⟩
    rintro rfl
    exact hne rfl
  | advance i =>
    obtain ⟨pc, hi, h⟩ := Option.bind_eq_some_iff.mp h
    have hdel : (Op.advance i : Op τ).delivers s = pc.delivers := by simp [Op.delivers, hi]
    cases hpc : pc.delivers with
    | none => exact hquiet (advance_unnoticed hpc h) (hdel.trans hpc)
    | some d =>
      cases pc with
      | handler ch item outlen status k =>
        obtain rfl := Option.some.inj hpc
        obtain rfl := Option.some.inj h
        rw [hdel]
        exact ⟨rfl, fun _ _ => rfl⟩
      | _ => cases hpc
  | engine d hwMode hwLen =>
    obtain rfl := Option.some.inj h
    exact hquiet ⟨rfl, rfl⟩ rfl
  | ctlrStart =>
    obtain ⟨-, ⟨-, rfl⟩ | ⟨-, rfl⟩⟩ := step_ctlrStart h
    · exact hquiet ⟨rfl, rfl⟩ rfl
    · exact hquiet ⟨rfl, rfl⟩ rfl
  | ctlrStop =>
    obtain ⟨-, ⟨-, rfl⟩ | ⟨-, rfl⟩⟩ := step_ctlrStop h
    · exact hquiet ⟨rfl, rfl⟩ rfl
    · exact hquiet ⟨rfl, rfl⟩ rfl
  | chanStart ch =>
    obtain ⟨-, chan, -, rfl⟩ := step_chanStart h
    exact hquiet ⟨rfl, rfl⟩ rfl
  | engineHdp ch hdp =>
    obtain ⟨chan, -, rfl⟩ := Option.map_eq_some_iff.mp h
    exact hquiet ⟨rfl, rfl⟩ rfl
  | chanProcess ch quota =>
    obtain ⟨chan, -, rfl⟩ := Option.map_eq_some_iff.mp h
    exact hquiet ⟨rfl, rfl⟩ rfl
  | chanStop ch =>
    obtain ⟨chan, -, rfl⟩ := Option.map_eq_some_iff.mp h
    exact hquiet ⟨rfl, rfl⟩ rfl
  | chanCreate ch zalloc =>
    obtain ⟨c, -, rfl⟩ := step_resplit rfl h
    exact hquiet ⟨rfl, rfl⟩ rfl
  | setWeight ch weight =>
    obtain ⟨c, -, rfl⟩ := step_resplit rfl h
    exact hquiet ⟨rfl, rfl⟩ rfl
  | setNumRxDescs numRxDesc =>
    obtain ⟨c, -, rfl⟩ := step_resplit rfl h
    exact hquiet ⟨rfl, rfl⟩ rfl

/-- The packets of a channel on its queue, or off it and not handed back yet. -/
def inFlight (params : CpdmaParams) (s : State τ) (ch : ChanId) : Multiset (Item τ) :=
  (((s.ctlr.channels ch).elim [] (queueOf params.pool s.ctlr.mem)).map (itemAt s.ctlr.mem) :
    Multiset (Item τ)) + total (Pc.items s.ctlr.mem ch) s.calls

/-- Accepted packets are handed back or in flight. -/
theorem Wf.accepted_eq (h : Wf params s q own) (ch : ChanId) :
    (s.accepted ch : Multiset (Item τ)) = s.handled ch + inFlight params s ch := by
  have hqueue : (s.ctlr.channels ch).elim [] (queueOf params.pool s.ctlr.mem) = q ch := by
    cases hch : s.ctlr.channels ch with
    | none => exact (h.none ch hch).symm
    | some chan => exact h.queue hch
  rw [inFlight, hqueue, h.order, ← Multiset.coe_add, h.handed, add_assoc, add_comm (total _ _)]

def delivered (ch : ChanId) : Option (Delivery τ) → Multiset (Item τ)
  | some d => if d.ch = ch then {d.item} else 0
  | none => 0

theorem handledAfter_eq (s : State τ) (o : Option (Delivery τ)) (ch : ChanId) :
    (handledAfter s o ch : Multiset (Item τ)) = s.handled ch + delivered ch o := by
  cases o with
  | none => simp [handledAfter, delivered]
  | some d =>
    simp only [handledAfter, State.handle, delivered]
    by_cases hch : d.ch = ch
    · subst hch
      simp only [Function.update_self, if_true]
      exact (Multiset.coe_add _ _).symm
    · have hch' : ch ≠ d.ch := fun h => hch h.symm
      simp [hch, hch']

/-- On a channel that a step does not submit to, the packets in flight only
lose the one that is handed back. -/
theorem Wf.inFlight_step {q' : ChanId → List ℕ} {own' : ℕ → Owner} (h : Wf params s q own)
    (h' : Wf params s' q' own') {op : Op τ} {ch : ChanId} (hne : op.submitsTo ≠ some ch)
    (hst : Cpdma.step params s op = some s') :
    inFlight params s ch = delivered ch (op.delivers s) + inFlight params s' ch := by
  obtain ⟨hhandled, haccepted⟩ := step_records hst
  have hold := h.accepted_eq ch
  have hnew := h'.accepted_eq ch
  rw [haccepted ch hne, hhandled, handledAfter_eq, hold, add_assoc] at hnew
  exact add_left_cancel hnew

theorem Wf.inFlight_submit {q' : ChanId → List ℕ} {own' : ℕ → Owner} (h : Wf params s q own)
    {kind : SubmitKind} {ch : ChanId} {chan : CpdmaChan} {args : SubmitArgs τ}
    {mapped : Option U32} (h' : Wf params (submitStep params s kind ch chan args mapped).1 q' own')
    (ch' : ChanId) :
    inFlight params s ch' ≤
      inFlight params (submitStep params s kind ch chan args mapped).1 ch' := by
  have hold := h.accepted_eq ch'
  have hnew := h'.accepted_eq ch'
  have hle : (s.accepted ch' : Multiset (Item τ)) ≤
      (submitStep params s kind ch chan args mapped).1.accepted ch' := by
    unfold submitStep
    dsimp only
    split
    · by_cases hch : ch' = ch
      · subst hch
        simp only [State.accept, Function.update_self]
        exact (List.sublist_append_left _ _).subperm
      · simp [State.accept, hch]
    · exact le_rfl
  rw [hold, hnew, submitStep_handled] at hle
  exact le_of_add_le_add_left hle

end CpswDriver.Cpdma
