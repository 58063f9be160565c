import CpswDriver.Cpsw.Interrupts

/-!
No completion goes unnoticed. What keeps a channel from interrupting the CPU is
a debt: an interrupt that is not enabled or not acknowledged, a channel that is
not on or masked. Each of them has a thread that will make it good, so with a
net device open and nothing under way every channel is listened to.
-/

namespace CpswDriver.Interrupts

open Cpdma Runs Promises

inductive Debt
  | enable (d : Dir)
  | ack (d : Dir)
  | start (ch : ChanId)
  | unmask (ch : ChanId)
  /-- a teardown is under way -/
  | finish (ch : ChanId)

/-- While the controller is off no channel is missed, and no NAPI that is off or about to be. -/
def Owed (params : CpswParams) (s : State) : Debt → Prop
  | .enable d =>
    s.ctlr = .active ∧ s.napi d = .idle ∧ s.disabling d = false ∧ s.en d = false
  | .ack d => s.acked d = false
  | .start ch => ch ∈ params.chans ∧ s.ctlr = .active ∧ s.chan ch ≠ .active
  | .unmask ch =>
    ch ∈ params.chans ∧ s.ctlr = .active ∧ s.chan ch = .active ∧ s.mask ch = false
  | .finish ch => s.chan ch = .teardown

/-- The channels that the controller's stop takes down are not started again by its thread. -/
def opens (t : Thread) : Action → Debt → Prop
  | .writeEn d on, .enable d' => d = d' ∧ on = false
  | .napiComplete d, .enable d' => d = d'
  | .napiEnable d, .enable d' => d = d'
  | .ctlrStart, .enable _ => True
  | .intCtrl on, .unmask _ => on = false
  | .chanIntCtrl ch on, .unmask ch' => ch = ch' ∧ on = false
  | .chanStop ch, .start ch' => ch = ch' ∧ t ≠ .rtnl
  | .chanTeardown ch, .start ch' => ch = ch' ∧ t ≠ .rtnl
  | _, _ => False

/-- Stopping the controller pays what only a running controller owes. -/
def pays : Action → Debt → Prop
  | .writeEn d on, .enable d' => d = d' ∧ on = true
  | .napiSchedule d, .enable d' => d = d'
  | .ctlrStop, .enable _ => True
  | .eoi d, .ack d' => d = d'
  | .chanStart ch, .start ch' => ch = ch'
  | .chanOn ch, .start ch' => ch = ch'
  | .intCtrl on, .unmask _ => on = true
  | .chanIntCtrl ch on, .unmask ch' => ch = ch' ∧ on = true
  | .ctlrStop, .unmask _ => True
  | .chanTeardown ch, .finish ch' => ch = ch'
  | _, _ => False

def ledger : Ledger Thread Action Debt := ⟨opens, pays⟩

variable {params : CpswParams} {s s' : State} {a : Action} {t : Thread} {new as : List Action}

theorem perform_en (d : Dir) : perform params s a = some (s', new) →
    s'.en d = match a with
      | .writeEn d' on => if d = d' then on else s.en d
      | _ => s.en d := by
  intro h
  cases a <;> simp only [perform] at h <;> (try split at h) <;> cases h <;>
    first | rfl | exact Function.update_apply _ _ _ _

theorem perform_acked (d : Dir) : perform params s a = some (s', new) →
    s'.acked d = match a with
      | .eoi d' => if d = d' then true else s.acked d
      | _ => s.acked d := by
  intro h
  cases a <;> simp only [perform] at h <;> (try split at h) <;> cases h <;>
    first | rfl | exact Function.update_apply _ _ _ _

theorem perform_ctlr : perform params s a = some (s', new) →
    s'.ctlr = match a with
      | .ctlrStart => if s.ctlr = .idle then .active else s.ctlr
      | .ctlrStop => if s.ctlr = .active then .teardown else s.ctlr
      | .ctlrStopEnd => .idle
      | _ => s.ctlr := by
  intro h
  cases a <;> simp only [perform] at h <;> (try split at h) <;> cases h <;>
    first | rfl | simp [*, State.ctlrOn]

theorem perform_napi (d : Dir) : perform params s a = some (s', new) →
    s'.napi d = match a with
      | .napiSchedule d' => if d = d' ∧ s.disabling d = false then (s.napi d).schedule else s.napi d
      | .napiComplete d' => if d = d' then (s.napi d).complete else s.napi d
      | .napiReturn d' => if d = d' ∧ s.disabling d = true then (s.napi d).complete else s.napi d
      | .napiEnable d' => if d = d' then .idle else s.napi d
      | .napiDisableWait d' => if d = d' then .off else s.napi d
      | _ => s.napi d := by
  intro h
  cases a <;> simp only [perform] at h <;> (try split at h) <;> cases h <;>
    first
    | rfl
    | simp only [State.setDisabling, State.setNapi, Function.update_apply] <;> grind

theorem perform_disabling (d : Dir) : perform params s a = some (s', new) →
    s'.disabling d = match a with
      | .napiDisable d' => if d = d' then true else s.disabling d
      | .napiDisableWait d' => if d = d' then false else s.disabling d
      | _ => s.disabling d := by
  intro h
  cases a <;> simp only [perform] at h <;> (try split at h) <;> cases h <;>
    first | rfl | exact Function.update_apply _ _ _ _

theorem perform_chan (ch : ChanId) : perform params s a = some (s', new) →
    s'.chan ch = match a with
      | .chanOn ch' =>
        if ch = ch' ∧ s.chan ch = .idle ∧ s.ctlr = .active then .active else s.chan ch
      | .chanStop ch' => if ch = ch' then .teardown else s.chan ch
      | .chanTeardown ch' => if ch = ch' then .idle else s.chan ch
      | _ => s.chan ch := by
  intro h
  cases a <;> simp only [perform] at h <;> (try split at h) <;> cases h <;>
    first | rfl | simp only [State.setChan, State.setMask, Function.update_apply] <;> grind

theorem perform_mask (ch : ChanId) : perform params s a = some (s', new) →
    s'.mask ch = match a with
      | .chanIntCtrl ch' on => if ch = ch' ∧ s.chan ch = .active then on else s.mask ch
      | .ctlrStart => if s.ctlr = .idle then false else s.mask ch
      | .ctlrStopEnd => false
      | .chanOn ch' => if ch = ch' ∧ s.chan ch = .idle ∧ s.ctlr = .active then true else s.mask ch
      | .chanStop ch' => if ch = ch' ∧ s.chan ch ≠ .teardown then false else s.mask ch
      | _ => s.mask ch := by
  intro h
  cases a <;> simp only [perform] at h <;> (try split at h) <;> cases h <;>
    first
    | rfl
    | (simp only [State.setChan, State.setMask, State.ctlrOn, Function.update_apply]; grind)

theorem perform_calls : perform params s a = some (s', new) →
    new = match a with
      | .intCtrl on => if s.ctlr = .active then params.chans.map (.chanIntCtrl · on) else []
      | .ctlrStart => if s.ctlr = .idle then params.chans.map .chanOn else []
      | .ctlrStop =>
        if s.ctlr = .active then params.chans.map .chanStop ++ [.ctlrStopEnd] else []
      | .chanStart ch => if params.rateLimited ch ∧ s.ctlr ≠ .active then [] else [.chanOn ch]
      | .chanStop ch => if s.chan ch = .teardown then [] else [.chanTeardown ch]
      | .close p => if s.opened p then .deactivate p :: cpswNdoStop s.usageCount else []
      | _ => [] := by
  intro h
  cases a <;> simp only [perform] at h <;> (try split at h) <;> cases h <;>
    first | rfl | simp [*]

theorem schedule_ne_idle (n : NapiState) : n.schedule ≠ .idle := by
  cases n <;> exact NapiState.noConfusion

/-- A debt of the new state was opened by the action, is paid by what the action calls for, or is
one of the old state that the action does not pay. -/
def Accounted (params : CpswParams) (s : State) (t : Thread) (a : Action) (new : List Action)
    (b : Debt) : Prop :=
  opens t a b ∨ (∃ c ∈ new, pays c b) ∨ (Owed params s b ∧ ¬ pays a b)

variable {b : Debt}

theorem Accounted.same (hb : Owed params s b) (hpays : ¬ pays a b) :
    Accounted params s t a new b :=
  .inr (.inr ⟨hb, hpays⟩)

theorem accounted_ack (h : perform params s a = some (s', new)) {d : Dir}
    (hb : Owed params s' (.ack d)) : Accounted params s t a new (.ack d) := by
  have hacked : s'.acked d = false := hb
  rw [perform_acked d h] at hacked
  cases a with
  | eoi d' =>
    obtain ⟨hne, hold⟩ : d ≠ d' ∧ s.acked d = false := by grind
    exact .same hold (Ne.symm hne)
  | _ => exact .same hacked id

theorem accounted_enable (h : perform params s a = some (s', new)) {d : Dir}
    (hb : Owed params s' (.enable d)) : Accounted params s t a new (.enable d) := by
  obtain ⟨hctlr, hidle, hlive, hoff⟩ : s'.ctlr = .active ∧ s'.napi d = .idle ∧
    s'.disabling d = false ∧ s'.en d = false := hb
  rw [perform_ctlr h] at hctlr
  rw [perform_napi d h] at hidle
  rw [perform_disabling d h] at hlive
  rw [perform_en d h] at hoff
  cases a with
  | writeEn d' on =>
    by_cases hd : d = d'
    · exact .inl ⟨hd.symm, by simpa [hd] using hoff⟩
    · refine .same ⟨hctlr, hidle, hlive, ?_⟩ fun hpays => hd hpays.1.symm
      simpa [hd] using hoff
  | napiComplete d' | napiEnable d' =>
    by_cases hd : d = d'
    · exact .inl hd.symm
    · refine .same ⟨hctlr, ?_, hlive, hoff⟩ id
      simpa [hd] using hidle
  | ctlrStart => exact .inl trivial
  | ctlrStop => grind
  | napiSchedule d' =>
    by_cases hd : d = d'
    · have hne := schedule_ne_idle (s.napi d)
      grind
    · refine .same ⟨hctlr, ?_, hlive, hoff⟩ (Ne.symm hd)
      simpa [hd] using hidle
  | _ => exact .same ⟨by grind, by grind, by grind, hoff⟩ id

/-- What only the holder of the lock of the network stack does. -/
def Action.serial : Action → Bool
  | .napiEnable _ | .napiDisable _ | .napiDisableWait _ | .ctlrStart | .ctlrStop | .ctlrStopEnd
  | .usageInc | .usageDec | .activate _ | .deactivate _ | .close _ => true
  | _ => false

def Action.stops : Action → Bool
  | .chanStop _ | .chanTeardown _ | .ctlrStopEnd => true
  | _ => false

/-- A channel that is not on will be started by the thread that took it down, unless that is the
stop of the controller. A start that finds a teardown under way fails. -/
theorem accounted_start (h : perform params s a = some (s', new)) {ch : ChanId}
    (hstops : t = .rtnl → a.stops = true → s.ctlr = .teardown)
    (hb : Owed params s' (.start ch)) :
    Accounted params s t a new (.start ch) ∨ a = .chanOn ch ∧ s.chan ch = .teardown := by
  obtain ⟨hmem, hctlr, hdown⟩ : ch ∈ params.chans ∧ s'.ctlr = .active ∧ s'.chan ch ≠ .active := hb
  have hnew := perform_calls h
  rw [perform_ctlr h] at hctlr
  rw [perform_chan ch h] at hdown
  cases a with
  | ctlrStart =>
    by_cases hidle : s.ctlr = .idle
    · refine .inl (.inr (.inl ⟨.chanOn ch, ?_, rfl⟩))
      rw [hnew]
      simpa [hidle] using hmem
    · refine .inl (.same ⟨hmem, ?_, hdown⟩ id)
      simpa [hidle] using hctlr
  | chanStart ch' =>
    by_cases hch : ch = ch'
    · refine .inl (.inr (.inl ⟨.chanOn ch', ?_, hch.symm⟩))
      simp [hnew, hctlr]
    · exact .inl (.same ⟨hmem, hctlr, hdown⟩ (Ne.symm hch))
  | chanOn ch' =>
    by_cases hch : ch = ch'
    · subst hch
      refine .inr ⟨rfl, ?_⟩
      cases hstate : s.chan ch <;> grind
    · refine .inl (.same ⟨hmem, hctlr, ?_⟩ (Ne.symm hch))
      simpa [hch] using hdown
  | chanStop ch' | chanTeardown ch' =>
    by_cases hch : ch = ch'
    · refine .inl (.inl ⟨hch.symm, fun ht => ?_⟩)
      rw [hstops ht rfl] at hctlr
      cases hctlr
    · refine .inl (.same ⟨hmem, hctlr, ?_⟩ id)
      simpa [hch] using hdown
  | _ => exact .inl (.same ⟨hmem, by grind, hdown⟩ id)

theorem accounted_unmask (h : perform params s a = some (s', new)) {ch : ChanId}
    (hidle : s.ctlr = .idle → ∀ ch ∈ params.chans, s.chan ch ≠ .active)
    (hb : Owed params s' (.unmask ch)) : Accounted params s t a new (.unmask ch) := by
  obtain ⟨hmem, hctlr, hon, hmask⟩ : ch ∈ params.chans ∧ s'.ctlr = .active ∧
    s'.chan ch = .active ∧ s'.mask ch = false := hb
  have hnew := perform_calls h
  rw [perform_ctlr h] at hctlr
  rw [perform_chan ch h] at hon
  rw [perform_mask ch h] at hmask
  cases a with
  | intCtrl on =>
    cases on with
    | false => exact .inl rfl
    | true =>
      refine .inr (.inl ⟨.chanIntCtrl ch true, ?_, ⟨rfl, rfl⟩⟩)
      rw [hnew]
      simpa [hctlr] using hmem
  | chanIntCtrl ch' on =>
    by_cases hch : ch = ch'
    · exact .inl ⟨hch.symm, by grind⟩
    · refine .same ⟨hmem, hctlr, hon, ?_⟩ fun hpays => hch hpays.1.symm
      simpa [hch] using hmask
  | ctlrStart => exact .same ⟨hmem, by grind, hon, by grind⟩ id
  | ctlrStop => grind
  | _ => exact .same ⟨hmem, by grind, by grind, by grind⟩ id

theorem accounted_finish (h : perform params s a = some (s', new)) {ch : ChanId}
    (hb : Owed params s' (.finish ch)) : Accounted params s t a new (.finish ch) := by
  have hchan : s'.chan ch = .teardown := hb
  have hnew := perform_calls h
  rw [perform_chan ch h] at hchan
  cases a with
  | chanStop ch' =>
    by_cases hdown : s.chan ch = .teardown
    · exact .same hdown id
    · refine .inr (.inl ⟨.chanTeardown ch, ?_, rfl⟩)
      grind
  | chanTeardown ch' =>
    obtain ⟨hne, hold⟩ : ch ≠ ch' ∧ s.chan ch = .teardown := by grind
    exact .same hold (Ne.symm hne)
  | _ => exact .same (show s.chan ch = .teardown by grind) id

theorem follows_intrEnable (t : Thread) : Follows ledger t cpswIntrEnable := by
  refine follows_of_opens_nothing fun a ha b hb => ?_
  rcases List.mem_cons.mp ha with rfl | ha
  · cases b <;> simp [ledger, opens] at hb
  rcases List.mem_cons.mp ha with rfl | ha
  · cases b <;> simp [ledger, opens] at hb
  obtain rfl := List.mem_singleton.mp ha
  cases b <;> simp [ledger, opens] at hb

/-- What enables the interrupts again pays for disabling them, and so does a stop. -/
theorem follows_intrDisable (t : Thread) {as : List Action} (h : Follows ledger t as)
    (hpaid : ∀ b, (∃ d, b = .enable d) ∨ (∃ ch, b = .unmask ch) → ∃ c ∈ as, pays c b) :
    Follows ledger t (cpswIntrDisable ++ as) := by
  refine h.append_of_paid fun a ha b hb => hpaid b ?_
  rcases List.mem_cons.mp ha with rfl | ha
  · cases b <;> simp [ledger, opens] at hb ⊢
  rcases List.mem_cons.mp ha with rfl | ha
  · cases b <;> simp [ledger, opens] at hb ⊢
  obtain rfl := List.mem_singleton.mp ha
  cases b <;> simp [ledger, opens] at hb ⊢

theorem intrEnable_pays {b : Debt} (hb : (∃ d, b = .enable d) ∨ (∃ ch, b = .unmask ch)) :
    ∃ c ∈ cpswIntrEnable, pays c b := by
  rcases hb with ⟨d, rfl⟩ | ⟨ch, rfl⟩
  · refine ⟨.writeEn d true, ?_, rfl, rfl⟩
    cases d <;> simp [cpswIntrEnable]
  · exact ⟨.intCtrl true, by simp [cpswIntrEnable], rfl⟩

theorem ctlrStop_pays {b : Debt} (hb : (∃ d, b = .enable d) ∨ (∃ ch, b = .unmask ch)) :
    pays .ctlrStop b := by
  rcases hb with ⟨d, rfl⟩ | ⟨ch, rfl⟩ <;> trivial

theorem follows_interrupt (t : Thread) (d : Dir) : Follows ledger t (cpswInterrupt d) := by
  refine ⟨fun b hb => ⟨.napiSchedule d, by simp, ?_⟩, ?_⟩
  · cases b <;> simp [ledger, opens] at hb
    exact hb.symm ▸ rfl
  · refine follows_of_opens_nothing fun a ha b hb => ?_
    rcases List.mem_pair.mp ha with rfl | rfl <;> cases b <;> exact hb

theorem follows_mqPoll (t : Thread) (d : Dir) (full : Bool) :
    Follows ledger t (cpswMqPoll d full) := by
  cases full with
  | true =>
    refine follows_of_opens_nothing fun a ha b hb => ?_
    obtain rfl := List.mem_singleton.mp ha
    cases b <;> exact hb
  | false =>
    refine ⟨fun b hb => ⟨.writeEn d true, by simp, ?_⟩, ?_⟩
    · cases b <;> simp [ledger, opens] at hb
      exact ⟨hb, rfl⟩
    · refine follows_of_opens_nothing fun a ha b hb => ?_
      obtain rfl := List.mem_singleton.mp ha
      cases b <;> simp [ledger, opens] at hb

theorem follows_restart (t : Thread) : ∀ chs : List ChanId,
    Follows ledger t (chs.flatMap fun ch => [.chanStop ch, .chanStart ch])
  | [] => trivial
  | ch :: chs => by
    rw [List.flatMap_cons]
    refine Follows.append ?_ (follows_restart t chs)
    refine ⟨fun b hb => ⟨.chanStart ch, by simp, ?_⟩, fun b hb => ?_, trivial⟩
    · cases b <;> simp [ledger, opens] at hb
      exact hb.1
    · cases b <;> exact absurd hb id

theorem follows_txTimeout (t : Thread) : Follows ledger t (cpswNdoTxTimeout params) := by
  unfold cpswNdoTxTimeout
  rw [List.append_assoc]
  refine follows_intrDisable t ((follows_restart t _).append (follows_intrEnable t)) fun b hb => ?_
  obtain ⟨c, hc, hpays⟩ := intrEnable_pays hb
  exact ⟨c, List.mem_append_right _ hc, hpays⟩

theorem follows_pollController (t : Thread) : Follows ledger t cpswNdoPollController := by
  unfold cpswNdoPollController
  rw [List.append_assoc, List.append_assoc]
  refine follows_intrDisable t ((follows_interrupt t .rx).append ((follows_interrupt t .tx).append
    (follows_intrEnable t))) fun b hb => ?_
  obtain ⟨c, hc, hpays⟩ := intrEnable_pays hb
  exact ⟨c, List.mem_append_right _ (List.mem_append_right _ hc), hpays⟩

/-- The stop of the controller leaves nothing that only a running controller owes. -/
theorem follows_suspend (t : Thread) : Follows ledger t cpswSuspendDataPass := by
  refine follows_intrDisable t ⟨fun b hb => ?_, trivial⟩ fun b hb => ?_
  · cases b <;> exact absurd hb id
  · exact ⟨.ctlrStop, List.mem_singleton_self _, ctlrStop_pays hb⟩

theorem follows_ndoStop (t : Thread) (usageCount : ℤ) :
    Follows ledger t (cpswNdoStop usageCount) := by
  unfold cpswNdoStop
  refine Follows.append ?_ (follows_of_opens_nothing fun a ha b hb => ?_)
  · split
    · rw [List.append_assoc]
      refine Follows.append (follows_of_opens_nothing fun a ha b hb => ?_) (follows_suspend t)
      simp only [List.mem_cons, List.not_mem_nil, or_false] at ha
      rcases ha with rfl | rfl | rfl | rfl <;> cases b <;> exact hb
    · trivial
  · obtain rfl := List.mem_singleton.mp ha
    cases b <;> exact hb

/-- Starting the controller and the NAPIs is made good by what enables the interrupts. -/
theorem follows_start (t : Thread) {as : List Action}
    (has : ∀ a ∈ as, a = .napiEnable .rx ∨ a = .napiEnable .tx ∨ a = .ctlrStart) :
    Follows ledger t (as ++ cpswIntrEnable) := by
  refine (follows_intrEnable t).append_of_paid fun a ha b hb => intrEnable_pays ?_
  rcases has a ha with rfl | rfl | rfl <;> cases b <;> simp [ledger, opens] at hb ⊢

theorem follows_ndoOpen (t : Thread) (usageCount : ℤ) (p : Port) (granted : Bool) :
    Follows ledger t (cpswNdoOpen usageCount p granted) := by
  unfold cpswNdoOpen
  split
  · exact follows_ndoStop t usageCount
  · refine Follows.append (follows_start t fun a ha => ?_)
      (follows_of_opens_nothing fun a ha b hb => ?_)
    · split at ha
      · simpa [or_assoc] using ha
      · exact .inr (.inr (by simpa using ha))
    · rcases List.mem_pair.mp ha with rfl | rfl <;> cases b <;> exact hb

theorem follows_setRingparam (t : Thread) (usageCount : ℤ) (resumed : Bool) :
    Follows ledger t (cpswSetRingparam usageCount resumed) := by
  unfold cpswSetRingparam
  refine (follows_suspend t).append ?_
  cases resumed with
  | true =>
    rw [if_pos rfl]
    unfold cpswResumeDataPass
    split
    · trivial
    · have hstart : ∀ a ∈ [Action.ctlrStart], a = .napiEnable .rx ∨ a = .napiEnable .tx ∨
          a = .ctlrStart := fun a ha => .inr (.inr (List.mem_singleton.mp ha))
      exact follows_start t hstart
  | false =>
    refine follows_of_opens_nothing fun a ha b hb => ?_
    rcases List.mem_pair.mp ha with rfl | rfl <;> cases b <;> exact hb

/-- What an action calls for opens no more than the action does. -/
theorem calls_follow (h : perform params s a = some (s', new)) (hserial : t ≠ .rtnl → a.serial = false)
    (hline : Follows ledger t (a :: as)) : Follows ledger t (new ++ as) := by
  have hnew := perform_calls h
  cases a with
  | intCtrl on =>
    refine hline.2.append_of_paid fun c hc b hb => hline.1 b ?_
    obtain ⟨ch, rfl⟩ : ∃ ch, c = .chanIntCtrl ch on := by
      grind
    cases b <;> simp [ledger, opens] at hb ⊢
    exact hb.2
  | ctlrStart | chanStart ch =>
    refine hline.2.append_of_paid fun c hc b hb => ?_
    obtain ⟨ch, rfl⟩ : ∃ ch, c = .chanOn ch := by
      grind
    cases b <;> exact absurd hb id
  | ctlrStop =>
    have ht : t = .rtnl := by
      by_contra hne
      cases hserial hne
    refine hline.2.append_of_paid fun c hc b hb => ?_
    have hc' : (∃ ch, c = .chanStop ch) ∨ c = .ctlrStopEnd := by
      grind
    rcases hc' with ⟨ch, rfl⟩ | rfl <;> cases b <;> simp [ledger, opens, ht] at hb
  | chanStop ch =>
    refine hline.2.append_of_paid fun c hc b hb => hline.1 b ?_
    obtain rfl : c = .chanTeardown ch := by
      grind
    cases b <;> exact hb
  | close p =>
    refine Follows.append ?_ hline.2
    rw [hnew]
    dsimp only
    split
    · exact ⟨fun b hb => by cases b <;> exact absurd hb id, follows_ndoStop t _⟩
    · trivial
  | _ =>
    rw [hnew]
    exact hline.2

end CpswDriver.Interrupts
