import CpswDriver.Cpdma.Types
import Mathlib.Logic.Relation
import Mathlib.Logic.Function.Basic

/-!
The life cycles of the controller and its channels, apart from what they carry.
A call is what it has promised: the start of the controller holds the
controller's lock, the stop of the controller has passed some of the channels,
a call is tearing a channel down, or it holds a channel's lock and has seen
that the channel may be turned on. Seeing and turning on are two steps here,
because the controller's state is read without the controller's lock.
-/

namespace CpswDriver.Cpdma

structure Role where
  /-- it starts the controller, and holds the controller's lock -/
  starting : Bool := false
  /-- it stops the controller, and is done with the channels before this one -/
  passed : Option ℕ := none
  stopping : Option ChanId := none
  /-- it holds the lock of this channel and is about to turn it on -/
  seen : Option ChanId := none
  deriving DecidableEq

@[ext]
structure Life where
  ctlr : CpdmaState
  chan : ChanId → Option CpdmaState
  lock : Option ℕ
  roles : ℕ → Role

namespace Life

def setChan (l : Life) (ch : ChanId) (state : CpdmaState) : Life :=
  { l with chan := Function.update l.chan ch (some state) }

def setRole (l : Life) (i : ℕ) (r : Role) : Life :=
  { l with roles := Function.update l.roles i r }

def Unseen (l : Life) (ch : ChanId) : Prop := ∀ i, (l.roles i).seen ≠ some ch

/-- One step of a life cycle, by the call that takes it. -/
inductive Step : Life → Life → Prop
  | create {l : Life} {ch : ChanId} : l.lock = none → l.chan ch = none →
      Step l (l.setChan ch .idle)
  | startCtlr {l : Life} {i : ℕ} : l.lock = none → l.ctlr = .idle → l.roles i = {} →
      Step l ({ l with ctlr := .active, lock := some i }.setRole i { starting := true })
  | endStart {l : Life} {i : ℕ} : l.roles i = { starting := true } →
      Step l ({ l with lock := none }.setRole i {})
  | stopCtlr {l : Life} {i : ℕ} : l.lock = none → l.ctlr = .active → l.roles i = {} →
      Step l ({ l with ctlr := .teardown }.setRole i { passed := some 0 })
  /-- the next channel does not exist, or another call is tearing it down -/
  | skip {l : Life} {i m : ℕ} : l.roles i = { passed := some m } →
      (∀ ch : ChanId, ch.val = m → l.chan ch = none ∨ l.chan ch = some .teardown) →
      Step l (l.setRole i { passed := some (m + 1) })
  | endStop {l : Life} {i m : ℕ} : l.roles i = { passed := some m } → 64 ≤ m → l.lock = none →
      Step l ({ l with ctlr := .idle }.setRole i {})
  | stopChan {l : Life} {i : ℕ} {ch : ChanId} {state : CpdmaState} : l.chan ch = some state →
      state ≠ .teardown → l.Unseen ch → l.roles i = {} →
      Step l ((l.setChan ch .teardown).setRole i { stopping := some ch })
  | stopNext {l : Life} {i : ℕ} {ch : ChanId} {state : CpdmaState} : l.chan ch = some state →
      state ≠ .teardown → l.Unseen ch → l.roles i = { passed := some ch.val } →
      Step l ((l.setChan ch .teardown).setRole i
        { passed := some (ch.val + 1), stopping := some ch })
  | stopped {l : Life} {i : ℕ} {ch : ChanId} {passed : Option ℕ} :
      l.roles i = { passed := passed, stopping := some ch } →
      Step l ((l.setChan ch .idle).setRole i { passed := passed })
  | see {l : Life} {i : ℕ} {ch : ChanId} {starting : Bool} : l.chan ch = some .idle →
      l.ctlr = .active → l.Unseen ch → l.roles i = { starting := starting } →
      Step l (l.setRole i { starting := starting, seen := some ch })
  | turnOn {l : Life} {i : ℕ} {ch : ChanId} {starting : Bool} :
      l.roles i = { starting := starting, seen := some ch } →
      Step l ((l.setChan ch .active).setRole i { starting := starting })

/-- The controller's lock and state belong to the calls that start and stop it. -/
structure Control (l : Life) : Prop where
  lock : ∀ i, (l.roles i).starting = true ↔ l.lock = some i
  started : ∀ i, l.lock = some i → l.ctlr = .active
  walk : l.ctlr = .teardown → ∃ i m, (l.roles i).passed = some m
  walks : ∀ i m, (l.roles i).passed = some m → l.ctlr = .teardown
  one : ∀ i j m n, (l.roles i).passed = some m → (l.roles j).passed = some n → i = j

/-- A channel in teardown belongs to the one call that tears it down. -/
structure Teardowns (l : Life) : Prop where
  teardown : ∀ ch, l.chan ch = some .teardown → ∃ i, (l.roles i).stopping = some ch
  stopping : ∀ i ch, (l.roles i).stopping = some ch → l.chan ch = some .teardown
  stopper : ∀ i j ch, (l.roles i).stopping = some ch → (l.roles j).stopping = some ch → i = j

/-- No channel is active, or about to be, behind the call that stops the controller. -/
structure Activity (l : Life) : Prop where
  passed : ∀ i m (ch : ChanId), (l.roles i).passed = some m → ch.val < m →
    l.chan ch ≠ some .active
  idle : l.ctlr = .idle → ∀ ch, l.chan ch ≠ some .active
  seen : ∀ i ch, (l.roles i).seen = some ch → l.chan ch = some .idle ∧ l.ctlr ≠ .idle
  ahead : ∀ i j m ch, (l.roles i).seen = some ch → (l.roles j).passed = some m → m ≤ ch.val
  seer : ∀ i j ch, (l.roles i).seen = some ch → (l.roles j).seen = some ch → i = j

/-- What holds at every moment of the life cycles. -/
structure Inv (l : Life) : Prop where
  control : Control l
  teardowns : Teardowns l
  activity : Activity l

variable {l l' : Life} {i j : ℕ} {r : Role}

theorem setRole_self (l : Life) (i : ℕ) (r : Role) : (l.setRole i r).roles i = r :=
  Function.update_self _ _ _

theorem setRole_ne (l : Life) (r : Role) (h : j ≠ i) : (l.setRole i r).roles j = l.roles j :=
  Function.update_of_ne h _ _

/-- What a step does not change of the role of its call, it changes of no role. -/
theorem setRole_field {β : Type*} (f : Role → β) (h : f r = f (l.roles i)) (j : ℕ) :
    f ((l.setRole i r).roles j) = f (l.roles j) := by
  by_cases hj : j = i
  · rw [hj, setRole_self, h]
  · rw [setRole_ne _ _ hj]

theorem role_cases {j : ℕ} (P : Role → Prop) (h : P ((l.setRole i r).roles j)) :
    j = i ∧ P r ∨ j ≠ i ∧ P (l.roles j) := by
  by_cases hj : j = i
  · rw [hj, setRole_self] at h
    exact .inl ⟨hj, h⟩
  · rw [setRole_ne _ _ hj] at h
    exact .inr ⟨hj, h⟩

theorem Control.congr (h : Control l) (hctlr : l'.ctlr = l.ctlr) (hlock : l'.lock = l.lock)
    (hstarting : ∀ j, (l'.roles j).starting = (l.roles j).starting)
    (hpassed : ∀ j, (l'.roles j).passed = (l.roles j).passed) : Control l' where
  lock j := by
    rw [hstarting, hlock]
    exact h.lock j
  started j hj := by
    rw [hctlr]
    exact h.started j (hlock ▸ hj)
  walk hteardown := by
    obtain ⟨j, m, hj⟩ := h.walk (hctlr ▸ hteardown)
    exact ⟨j, m, (hpassed j).trans hj⟩
  walks j m hj := by
    rw [hctlr]
    exact h.walks j m ((hpassed j).symm.trans hj)
  one j k m n hj hk := h.one j k m n ((hpassed j).symm.trans hj) ((hpassed k).symm.trans hk)

theorem Teardowns.congr (h : Teardowns l)
    (hchan : ∀ ch, l'.chan ch = some .teardown ↔ l.chan ch = some .teardown)
    (hstopping : ∀ j, (l'.roles j).stopping = (l.roles j).stopping) : Teardowns l' where
  teardown ch hch := by
    obtain ⟨j, hj⟩ := h.teardown ch ((hchan ch).mp hch)
    exact ⟨j, (hstopping j).trans hj⟩
  stopping j ch hj := (hchan ch).mpr (h.stopping j ch ((hstopping j).symm.trans hj))
  stopper j k ch hj hk :=
    h.stopper j k ch ((hstopping j).symm.trans hj) ((hstopping k).symm.trans hk)

theorem Activity.congr (h : Activity l) (hctlr : l'.ctlr = .idle ↔ l.ctlr = .idle)
    (hchan : l'.chan = l.chan) (hpassed : ∀ j, (l'.roles j).passed = (l.roles j).passed)
    (hseen : ∀ j, (l'.roles j).seen = (l.roles j).seen) : Activity l' where
  passed j m ch hj hlt := by
    rw [hchan]
    exact h.passed j m ch ((hpassed j).symm.trans hj) hlt
  idle hidle ch := by
    rw [hchan]
    exact h.idle (hctlr.mp hidle) ch
  seen j ch hj := by
    obtain ⟨hidle, hon⟩ := h.seen j ch ((hseen j).symm.trans hj)
    exact ⟨by rw [hchan]; exact hidle, fun hoff => hon (hctlr.mp hoff)⟩
  ahead j k m ch hj hk := h.ahead j k m ch ((hseen j).symm.trans hj) ((hpassed k).symm.trans hk)
  seer j k ch hj hk := h.seer j k ch ((hseen j).symm.trans hj) ((hseen k).symm.trans hk)

theorem Control.not_passed (h : Control l) (hctlr : l.ctlr ≠ .teardown) (j m : ℕ) :
    (l.roles j).passed ≠ some m :=
  fun hj => hctlr (h.walks j m hj)

theorem Control.not_starting (h : Control l) (hlock : l.lock = none) (j : ℕ) :
    (l.roles j).starting ≠ true := by
  intro hj
  have hheld := (h.lock j).mp hj
  rw [hlock] at hheld
  cases hheld

theorem Control.startCtlr (h : Control l) (hlock : l.lock = none) (hidle : l.ctlr = .idle) :
    Control ({ l with ctlr := .active, lock := some i }.setRole i { starting := true }) := by
  have hpassed : ∀ j m, (l.roles j).passed ≠ some m := h.not_passed (by rw [hidle]; nofun)
  have hnone : ∀ j m, (({ l with ctlr := CpdmaState.active, lock := some i }.setRole i
      { starting := true }).roles j).passed ≠ some m := by
    intro j m hj
    rcases role_cases (fun r => r.passed = some m) hj with ⟨-, hr⟩ | ⟨-, hr⟩
    · cases hr
    · exact hpassed j m hr
  refine ⟨fun j => ⟨fun hj => ?_, fun hj => ?_⟩, fun _ _ => rfl, nofun,
    fun j m hj => absurd hj (hnone j m), fun j k m n hj _ => absurd hj (hnone j m)⟩
  · rcases role_cases (fun r => r.starting = true) hj with ⟨rfl, -⟩ | ⟨-, hr⟩
    · rfl
    · exact absurd hr (h.not_starting hlock j)
  · obtain rfl : i = j := Option.some.inj hj
    rw [setRole_self]

theorem Control.endStart (h : Control l) (hrole : l.roles i = { starting := true }) :
    Control ({ l with lock := none }.setRole i {}) := by
  have hlock : l.lock = some i := (h.lock i).mp (by rw [hrole])
  have hpassed : ∀ j m, (l.roles j).passed ≠ some m :=
    h.not_passed (by rw [h.started i hlock]; nofun)
  have hnone : ∀ j m, (({ l with lock := none }.setRole i {}).roles j).passed ≠ some m := by
    intro j m hj
    rcases role_cases (fun r => r.passed = some m) hj with ⟨-, hr⟩ | ⟨-, hr⟩
    · cases hr
    · exact hpassed j m hr
  refine ⟨fun j => ⟨fun hj => ?_, nofun⟩, nofun, fun hteardown => ?_,
    fun j m hj => absurd hj (hnone j m), fun j k m n hj _ => absurd hj (hnone j m)⟩
  · rcases role_cases (fun r => r.starting = true) hj with ⟨-, hr⟩ | ⟨hne, hr⟩
    · cases hr
    · have hheld := (h.lock j).mp hr
      rw [hlock] at hheld
      exact absurd (Option.some.inj hheld).symm hne
  · obtain ⟨j, m, hj⟩ := h.walk hteardown
    exact absurd hj (hpassed j m)

theorem Control.stopCtlr (h : Control l) (hlock : l.lock = none) (hactive : l.ctlr = .active) :
    Control ({ l with ctlr := .teardown }.setRole i { passed := some 0 }) := by
  have hpassed : ∀ j m, (l.roles j).passed ≠ some m := h.not_passed (by rw [hactive]; nofun)
  have hself : ∀ j m, (({ l with ctlr := CpdmaState.teardown }.setRole i
      { passed := some 0 }).roles j).passed = some m → j = i := by
    intro j m hj
    rcases role_cases (fun r => r.passed = some m) hj with ⟨hji, -⟩ | ⟨-, hr⟩
    · exact hji
    · exact absurd hr (hpassed j m)
  refine ⟨fun j => ⟨fun hj => ?_, fun hj => ?_⟩, fun j hj => ?_,
    fun _ => ⟨i, 0, by rw [setRole_self]⟩, fun _ _ _ => rfl,
    fun j k m n hj hk => (hself j m hj).trans (hself k n hk).symm⟩
  · rcases role_cases (fun r => r.starting = true) hj with ⟨-, hr⟩ | ⟨-, hr⟩
    · cases hr
    · exact absurd hr (h.not_starting hlock j)
  · exact absurd (hlock.symm.trans hj) nofun
  · exact absurd (hlock.symm.trans hj) nofun

theorem Control.walkOn (h : Control l) (hctlr : l'.ctlr = l.ctlr) (hlock : l'.lock = l.lock)
    {m n : ℕ} (hold : (l.roles i).passed = some m) (hnew : (l'.roles i).passed = some n)
    (hstarting : ∀ j, (l'.roles j).starting = (l.roles j).starting)
    (hother : ∀ j, j ≠ i → (l'.roles j).passed = (l.roles j).passed) : Control l' := by
  have hself : ∀ j k, (l'.roles j).passed = some k → j = i := by
    intro j k hj
    by_contra hne
    rw [hother j hne] at hj
    exact hne (h.one j i k m hj hold)
  refine ⟨fun j => ?_, fun j hj => ?_, fun _ => ⟨i, n, hnew⟩, fun _ _ _ => ?_,
    fun j k m n hj hk => (hself j m hj).trans (hself k n hk).symm⟩
  · rw [hstarting, hlock]
    exact h.lock j
  · rw [hctlr]
    exact h.started j (hlock ▸ hj)
  · rw [hctlr]
    exact h.walks i m hold

theorem Control.endStop (h : Control l) {m : ℕ} (hrole : l.roles i = { passed := some m })
    (hlock : l.lock = none) : Control ({ l with ctlr := .idle }.setRole i {}) := by
  have hold : (l.roles i).passed = some m := by rw [hrole]
  have hnone : ∀ j n, (({ l with ctlr := CpdmaState.idle }.setRole i {}).roles j).passed ≠
      some n := by
    intro j n hj
    rcases role_cases (fun r => r.passed = some n) hj with ⟨-, hr⟩ | ⟨hne, hr⟩
    · cases hr
    · exact hne (h.one j i n m hr hold)
  refine ⟨fun j => ⟨fun hj => ?_, fun hj => ?_⟩, fun j hj => ?_, nofun,
    fun j m hj => absurd hj (hnone j m), fun j k m n hj _ => absurd hj (hnone j m)⟩
  · rcases role_cases (fun r => r.starting = true) hj with ⟨-, hr⟩ | ⟨-, hr⟩
    · cases hr
    · exact absurd hr (h.not_starting hlock j)
  · exact absurd (hlock.symm.trans hj) nofun
  · exact absurd (hlock.symm.trans hj) nofun

/-- The controller's part of an invariant step. -/
theorem Control.step (h : Control l) (hst : Step l l') : Control l' := by
  have hfield : ∀ {l : Life} {i : ℕ} {r : Role}, r.starting = (l.roles i).starting →
      r.passed = (l.roles i).passed → Control l → Control (l.setRole i r) := by
    intro l i r hstarting hpassed h
    exact h.congr rfl rfl (setRole_field Role.starting hstarting)
      (setRole_field Role.passed hpassed)
  cases hst with
  | create => exact h.congr rfl rfl (fun _ => rfl) fun _ => rfl
  | startCtlr hlock hidle _ => exact h.startCtlr hlock hidle
  | endStart hrole => exact h.endStart hrole
  | stopCtlr hlock hactive _ => exact h.stopCtlr hlock hactive
  | @skip i m hrole _ =>
    refine h.walkOn rfl rfl (i := i) (m := m) (n := m + 1) (by rw [hrole]) (by rw [setRole_self])
      (setRole_field Role.starting (by rw [hrole])) fun j hj => by rw [setRole_ne _ _ hj]
  | endStop hrole _ hlock => exact h.endStop hrole hlock
  | stopChan _ _ _ hrole =>
    refine hfield ?_ ?_ (h.congr rfl rfl (fun _ => rfl) fun _ => rfl)
    · exact (congrArg Role.starting hrole).symm
    · exact (congrArg Role.passed hrole).symm
  | @stopNext i ch _ _ _ _ hrole =>
    refine h.walkOn rfl rfl (i := i) (m := ch.val) (n := ch.val + 1) (by rw [hrole])
      (by rw [setRole_self])
      (setRole_field (l := l.setChan ch .teardown) Role.starting
        (congrArg Role.starting hrole).symm) fun j hj => by
      rw [setRole_ne _ _ hj]
      rfl
  | stopped hrole =>
    refine hfield ?_ ?_ (h.congr rfl rfl (fun _ => rfl) fun _ => rfl)
    · exact (congrArg Role.starting hrole).symm
    · exact (congrArg Role.passed hrole).symm
  | see _ _ _ hrole => exact hfield (by rw [hrole]) (by rw [hrole]) h
  | turnOn hrole =>
    refine hfield ?_ ?_ (h.congr rfl rfl (fun _ => rfl) fun _ => rfl)
    · exact (congrArg Role.starting hrole).symm
    · exact (congrArg Role.passed hrole).symm

theorem setChan_self (l : Life) (ch : ChanId) (state : CpdmaState) :
    (l.setChan ch state).chan ch = some state :=
  Function.update_self _ _ _

theorem setChan_ne (l : Life) (state : CpdmaState) {ch ch' : ChanId} (h : ch' ≠ ch) :
    (l.setChan ch state).chan ch' = l.chan ch' :=
  Function.update_of_ne h _ _

theorem chan_cases {ch ch' : ChanId} {state state' : CpdmaState}
    (h : (l.setChan ch state).chan ch' = some state') :
    ch' = ch ∧ state' = state ∨ ch' ≠ ch ∧ l.chan ch' = some state' := by
  by_cases hch : ch' = ch
  · rw [hch, setChan_self] at h
    exact .inl ⟨hch, (Option.some.inj h).symm⟩
  · rw [setChan_ne _ _ hch] at h
    exact .inr ⟨hch, h⟩

/-- A channel that is not in teardown may change between its other states. -/
theorem Teardowns.setChan (h : Teardowns l) {ch : ChanId} {state : CpdmaState}
    (hold : l.chan ch ≠ some .teardown) (hnew : state ≠ .teardown) :
    Teardowns (l.setChan ch state) := by
  refine h.congr (fun ch' => ⟨fun hch' => ?_, fun hch' => ?_⟩) fun _ => rfl
  · rcases chan_cases hch' with ⟨-, heq⟩ | ⟨-, hold'⟩
    · exact absurd heq.symm hnew
    · exact hold'
  · have hne : ch' ≠ ch := by
      intro heq
      exact hold (heq ▸ hch')
    rw [setChan_ne _ _ hne]
    exact hch'

theorem Teardowns.begin (h : Teardowns l) {ch : ChanId} (hold : l.chan ch ≠ some .teardown)
    (hrole : (l.roles i).stopping = none) (hr : r.stopping = some ch) :
    Teardowns ((l.setChan ch .teardown).setRole i r) := by
  refine ⟨fun ch' hch' => ?_, fun j ch' hj => ?_, fun j k ch' hj hk => ?_⟩
  · rcases chan_cases hch' with ⟨rfl, -⟩ | ⟨-, hold'⟩
    · exact ⟨i, by rw [setRole_self, hr]⟩
    · obtain ⟨j, hj⟩ := h.teardown ch' hold'
      have hne : j ≠ i := by
        rintro rfl
        rw [hrole] at hj
        cases hj
      exact ⟨j, by rw [setRole_ne _ _ hne]; exact hj⟩
  · rcases role_cases (fun r => r.stopping = some ch') hj with ⟨-, hself⟩ | ⟨-, hother⟩
    · obtain rfl : ch = ch' := Option.some.inj (hr.symm.trans hself)
      exact setChan_self _ _ _
    · by_cases heq : ch' = ch
      · rw [heq]
        exact setChan_self _ _ _
      · rw [← h.stopping j ch' hother]
        exact setChan_ne _ _ heq
  · have hnot : ∀ k, (l.roles k).stopping ≠ some ch := fun k hk => hold (h.stopping k ch hk)
    rcases role_cases (fun r => r.stopping = some ch') hj with ⟨hji, hselfj⟩ | ⟨-, hotherj⟩
    · obtain rfl : ch = ch' := Option.some.inj (hr.symm.trans hselfj)
      rcases role_cases (fun r => r.stopping = some ch) hk with ⟨hki, -⟩ | ⟨-, hotherk⟩
      · exact hji.trans hki.symm
      · exact absurd hotherk (hnot k)
    · rcases role_cases (fun r => r.stopping = some ch') hk with ⟨-, hselfk⟩ | ⟨-, hotherk⟩
      · obtain rfl : ch = ch' := Option.some.inj (hr.symm.trans hselfk)
        exact absurd hotherj (hnot j)
      · exact h.stopper j k ch' hotherj hotherk

theorem Teardowns.finish (h : Teardowns l) {ch : ChanId} (hrole : (l.roles i).stopping = some ch)
    (hr : r.stopping = none) : Teardowns ((l.setChan ch .idle).setRole i r) := by
  have hold : ∀ j ch', (((l.setChan ch .idle).setRole i r).roles j).stopping = some ch' →
      j ≠ i ∧ (l.roles j).stopping = some ch' := by
    intro j ch' hj
    rcases role_cases (fun r => r.stopping = some ch') hj with ⟨-, hself⟩ | hother
    · rw [hr] at hself
      cases hself
    · exact hother
  refine ⟨fun ch' hch' => ?_, fun j ch' hj => ?_, fun j k ch' hj hk => ?_⟩
  · rcases chan_cases hch' with ⟨-, heq⟩ | ⟨hne, hold'⟩
    · cases heq
    · obtain ⟨j, hj⟩ := h.teardown ch' hold'
      have hji : j ≠ i := by
        rintro rfl
        exact hne (Option.some.inj (hj.symm.trans hrole))
      exact ⟨j, by rw [setRole_ne _ _ hji]; exact hj⟩
  · obtain ⟨hji, hj'⟩ := hold j ch' hj
    have hne : ch' ≠ ch := by
      rintro rfl
      exact hji (h.stopper j i ch' hj' hrole)
    rw [← h.stopping j ch' hj']
    exact setChan_ne _ _ hne
  · exact h.stopper j k ch' (hold j ch' hj).2 (hold k ch' hk).2

theorem Teardowns.setRole (h : Teardowns l) (hr : r.stopping = (l.roles i).stopping) :
    Teardowns (l.setRole i r) :=
  h.congr (fun _ => Iff.rfl) (setRole_field Role.stopping hr)

theorem Teardowns.step (h : Teardowns l) (ha : Activity l) (hst : Step l l') : Teardowns l' := by
  have hsame : ∀ {ctlr : CpdmaState} {lock : Option ℕ},
      Teardowns { l with ctlr := ctlr, lock := lock } :=
    h.congr (fun _ => Iff.rfl) fun _ => rfl
  cases hst with
  | create _ hnone => exact h.setChan (by rw [hnone]; nofun) nofun
  | startCtlr _ _ hrole => exact hsame.setRole (congrArg Role.stopping hrole).symm
  | endStart hrole => exact hsame.setRole (congrArg Role.stopping hrole).symm
  | stopCtlr _ _ hrole => exact hsame.setRole (congrArg Role.stopping hrole).symm
  | skip hrole _ => exact h.setRole (congrArg Role.stopping hrole).symm
  | endStop hrole _ _ => exact hsame.setRole (congrArg Role.stopping hrole).symm
  | stopChan hch hstate _ hrole =>
    refine h.begin ?_ (congrArg Role.stopping hrole) rfl
    rw [hch]
    exact fun heq => hstate (Option.some.inj heq)
  | stopNext hch hstate _ hrole =>
    refine h.begin ?_ (congrArg Role.stopping hrole) rfl
    rw [hch]
    exact fun heq => hstate (Option.some.inj heq)
  | stopped hrole => exact h.finish (congrArg Role.stopping hrole) rfl
  | see _ _ _ hrole => exact h.setRole (congrArg Role.stopping hrole).symm
  | @turnOn i ch starting hrole =>
    obtain ⟨hidle, -⟩ := ha.seen i ch (congrArg Role.seen hrole)
    have hturned : Teardowns (l.setChan ch .active) := h.setChan (by rw [hidle]; nofun) nofun
    exact hturned.setRole (congrArg Role.stopping hrole).symm

theorem Activity.setChan (h : Activity l) {ch : ChanId} {state : CpdmaState}
    (hstate : state ≠ .active) (hunseen : l.Unseen ch) : Activity (l.setChan ch state) := by
  have hactive : ∀ ch', (l.setChan ch state).chan ch' = some .active →
      l.chan ch' = some .active := by
    intro ch' hch'
    rcases chan_cases hch' with ⟨-, heq⟩ | ⟨-, hold⟩
    · exact absurd heq.symm hstate
    · exact hold
  refine ⟨fun j m ch' hj hlt hch' => h.passed j m ch' hj hlt (hactive ch' hch'),
    fun hidle ch' hch' => h.idle hidle ch' (hactive ch' hch'), fun j ch' hj => ?_, h.ahead, h.seer⟩
  have hne : ch' ≠ ch := by
    rintro rfl
    exact hunseen j hj
  obtain ⟨hidle, hon⟩ := h.seen j ch' hj
  exact ⟨(setChan_ne _ _ hne).trans hidle, hon⟩

theorem Activity.setRole (h : Activity l) (hpassed : r.passed = (l.roles i).passed)
    (hseen : r.seen = (l.roles i).seen) : Activity (l.setRole i r) :=
  h.congr Iff.rfl rfl (setRole_field Role.passed hpassed) (setRole_field Role.seen hseen)

/-- A call that sees nothing has come by a channel that is not active. -/
theorem Activity.passOn (h : Activity l) {m : ℕ} (hrole : (l.roles i).passed = some m)
    (hr : r.passed = some (m + 1)) (hseen : r.seen = none)
    (hhere : ∀ ch : ChanId, ch.val = m → l.chan ch ≠ some .active ∧ l.Unseen ch) :
    Activity (l.setRole i r) := by
  have hold : ∀ j ch, ((l.setRole i r).roles j).seen = some ch → (l.roles j).seen = some ch := by
    intro j ch hj
    rcases role_cases (fun r => r.seen = some ch) hj with ⟨-, hself⟩ | ⟨-, hother⟩
    · rw [hseen] at hself
      cases hself
    · exact hother
  refine ⟨fun j n ch hj hlt => ?_, h.idle, fun j ch hj => h.seen j ch (hold j ch hj),
    fun j k n ch hj hk => ?_, fun j k ch hj hk => h.seer j k ch (hold j ch hj) (hold k ch hk)⟩
  · rcases role_cases (fun r => r.passed = some n) hj with ⟨-, hself⟩ | ⟨-, hother⟩
    · obtain rfl : m + 1 = n := Option.some.inj (hr.symm.trans hself)
      by_cases heq : ch.val = m
      · exact (hhere ch heq).1
      · exact h.passed i m ch hrole (by omega)
    · exact h.passed j n ch hother hlt
  · rcases role_cases (fun r => r.passed = some n) hk with ⟨-, hself⟩ | ⟨-, hother⟩
    · obtain rfl : m + 1 = n := Option.some.inj (hr.symm.trans hself)
      have hle : m ≤ ch.val := h.ahead j i m ch (hold j ch hj) hrole
      have hne : ch.val ≠ m := fun heq => (hhere ch heq).2 j (hold j ch hj)
      omega
    · exact h.ahead j k n ch (hold j ch hj) hother

/-- A call that holds nothing and has passed nothing changes its role. -/
theorem Activity.fresh (h : Activity l) {ctlr : CpdmaState} {lock : Option ℕ}
    (hctlr : ctlr = .idle → l.ctlr = .idle) (hseen : r.seen = none)
    (hpassed : r.passed = none ∨ r.passed = some 0) :
    Activity ({ l with ctlr := ctlr, lock := lock }.setRole i r) := by
  have hold : ∀ j ch, (({ l with ctlr := ctlr, lock := lock }.setRole i r).roles j).seen =
      some ch → (l.roles j).seen = some ch := by
    intro j ch hj
    rcases role_cases (fun r => r.seen = some ch) hj with ⟨-, hself⟩ | ⟨-, hother⟩
    · rw [hseen] at hself
      cases hself
    · exact hother
  have hzero : ∀ m, r.passed = some m → m = 0 := by
    intro m hm
    rcases hpassed with hnone | hstart
    · rw [hnone] at hm
      cases hm
    · exact (Option.some.inj (hstart.symm.trans hm)).symm
  refine ⟨fun j m ch hj hlt => ?_, fun hidle => h.idle (hctlr hidle), fun j ch hj => ?_,
    fun j k m ch hj hk => ?_, fun j k ch hj hk => h.seer j k ch (hold j ch hj) (hold k ch hk)⟩
  · rcases role_cases (fun r => r.passed = some m) hj with ⟨-, hself⟩ | ⟨-, hother⟩
    · exact absurd hlt (by rw [hzero m hself]; omega)
    · exact h.passed j m ch hother hlt
  · obtain ⟨hidle, hon⟩ := h.seen j ch (hold j ch hj)
    exact ⟨hidle, fun hoff => hon (hctlr hoff)⟩
  · rcases role_cases (fun r => r.passed = some m) hk with ⟨-, hself⟩ | ⟨-, hother⟩
    · rw [hzero m hself]
      exact Nat.zero_le _
    · exact h.ahead j k m ch (hold j ch hj) hother

/-- The stop of the controller comes to its end: no channel is active any more. -/
theorem Activity.endStop (h : Activity l) {m : ℕ} (hrole : (l.roles i).passed = some m)
    (hm : 64 ≤ m) : Activity ({ l with ctlr := .idle }.setRole i {}) := by
  have hnone : ∀ ch, l.chan ch ≠ some .active :=
    fun ch => h.passed i m ch hrole (lt_of_lt_of_le ch.isLt hm)
  have hunseen : ∀ j ch, (({ l with ctlr := CpdmaState.idle }.setRole i {}).roles j).seen ≠
      some ch := by
    intro j ch hj
    rcases role_cases (fun r => r.seen = some ch) hj with ⟨-, hself⟩ | ⟨-, hother⟩
    · cases hself
    · have hle := h.ahead j i m ch hother hrole
      have hlt := ch.isLt
      omega
  exact ⟨fun _ _ ch _ _ => hnone ch, fun _ => hnone, fun j ch hj => absurd hj (hunseen j ch),
    fun j _ _ ch hj _ => absurd hj (hunseen j ch), fun j _ ch hj _ => absurd hj (hunseen j ch)⟩

/-- A call takes the lock of an idle channel while the controller is active. -/
theorem Activity.see (h : Activity l) (hc : Control l) {ch : ChanId}
    (hidle : l.chan ch = some .idle) (hactive : l.ctlr = .active) (hunseen : l.Unseen ch)
    (hr : r.seen = some ch) (hpassed : r.passed = none) : Activity (l.setRole i r) := by
  have hnone : ∀ j m, ((l.setRole i r).roles j).passed ≠ some m := by
    intro j m hj
    rcases role_cases (fun r => r.passed = some m) hj with ⟨-, hself⟩ | ⟨-, hother⟩
    · rw [hpassed] at hself
      cases hself
    · exact hc.not_passed (by rw [hactive]; nofun) j m hother
  refine ⟨fun j m ch' hj _ => absurd hj (hnone j m), h.idle, fun j ch' hj => ?_,
    fun _ k m _ _ hk => absurd hk (hnone k m), fun j k ch' hj hk => ?_⟩
  · rcases role_cases (fun r => r.seen = some ch') hj with ⟨-, hself⟩ | ⟨-, hother⟩
    · obtain rfl : ch = ch' := Option.some.inj (hr.symm.trans hself)
      exact ⟨hidle, by rw [show (l.setRole i r).ctlr = l.ctlr from rfl, hactive]; nofun⟩
    · exact h.seen j ch' hother
  · rcases role_cases (fun r => r.seen = some ch') hj with ⟨hji, hselfj⟩ | ⟨-, hotherj⟩
    · obtain rfl : ch = ch' := Option.some.inj (hr.symm.trans hselfj)
      rcases role_cases (fun r => r.seen = some ch) hk with ⟨hki, -⟩ | ⟨-, hotherk⟩
      · exact hji.trans hki.symm
      · exact absurd hotherk (hunseen k)
    · rcases role_cases (fun r => r.seen = some ch') hk with ⟨-, hselfk⟩ | ⟨-, hotherk⟩
      · obtain rfl : ch = ch' := Option.some.inj (hr.symm.trans hselfk)
        exact absurd hotherj (hunseen j)
      · exact h.seer j k ch' hotherj hotherk

/-- Turning on a channel that was seen idle is safe even if the controller's state has
changed since. -/
theorem Activity.turnOn (h : Activity l) {ch : ChanId} (hseen : (l.roles i).seen = some ch)
    (hr : r.seen = none) (hpassed : r.passed = (l.roles i).passed) :
    Activity ((l.setChan ch .active).setRole i r) := by
  have hold : ∀ j ch', (((l.setChan ch .active).setRole i r).roles j).seen = some ch' →
      ch' ≠ ch ∧ (l.roles j).seen = some ch' := by
    intro j ch' hj
    rcases role_cases (fun r => r.seen = some ch') hj with ⟨-, hself⟩ | ⟨hne, hother⟩
    · rw [hr] at hself
      cases hself
    · refine ⟨?_, hother⟩
      rintro rfl
      exact hne (h.seer j i ch' hother hseen)
  have hpass : ∀ j, (((l.setChan ch .active).setRole i r).roles j).passed = (l.roles j).passed :=
    setRole_field (l := l.setChan ch .active) Role.passed hpassed
  obtain ⟨-, hon⟩ := h.seen i ch hseen
  refine ⟨fun j m ch' hj hlt hch' => ?_, fun hidle => absurd hidle hon, fun j ch' hj => ?_,
    fun j k m ch' hj hk => ?_,
    fun j k ch' hj hk => h.seer j k ch' (hold j ch' hj).2 (hold k ch' hk).2⟩
  · rw [hpass] at hj
    rcases chan_cases hch' with ⟨rfl, -⟩ | ⟨-, hch'⟩
    · have hle := h.ahead i j m ch' hseen hj
      omega
    · exact h.passed j m ch' hj hlt hch'
  · obtain ⟨hne, hj'⟩ := hold j ch' hj
    obtain ⟨hidle, hon'⟩ := h.seen j ch' hj'
    exact ⟨(setChan_ne _ _ hne).trans hidle, hon'⟩
  · rw [hpass] at hk
    exact h.ahead j k m ch' (hold j ch' hj).2 hk

theorem Activity.step (h : Activity l) (hc : Control l) (ht : Teardowns l) (hst : Step l l') :
    Activity l' := by
  have hunseen : ∀ ch, l.chan ch ≠ some .idle → l.Unseen ch :=
    fun ch hne j hj => hne (h.seen j ch hj).1
  cases hst with
  | create _ hnone => exact h.setChan nofun (hunseen _ (by rw [hnone]; nofun))
  | startCtlr _ _ _ => exact h.fresh nofun rfl (.inl rfl)
  | endStart hrole => exact h.fresh id rfl (.inl rfl)
  | stopCtlr _ _ _ => exact h.fresh nofun rfl (.inr rfl)
  | skip hrole hhere =>
    refine h.passOn (congrArg Role.passed hrole) rfl rfl fun ch hch => ?_
    have hstate : l.chan ch ≠ some .active ∧ l.chan ch ≠ some .idle := by
      rcases hhere ch hch with hnone | hteardown
      · exact ⟨by rw [hnone]; nofun, by rw [hnone]; nofun⟩
      · exact ⟨by rw [hteardown]; nofun, by rw [hteardown]; nofun⟩
    exact ⟨hstate.1, hunseen ch hstate.2⟩
  | endStop hrole hm _ => exact h.endStop (congrArg Role.passed hrole) hm
  | @stopChan i ch _ _ _ hun hrole =>
    have hstopped : Activity (l.setChan ch .teardown) := h.setChan nofun hun
    exact hstopped.setRole (congrArg Role.passed hrole).symm (congrArg Role.seen hrole).symm
  | @stopNext i ch _ _ _ hun hrole =>
    have hstopped : Activity (l.setChan ch .teardown) := h.setChan nofun hun
    refine hstopped.passOn (congrArg Role.passed hrole) rfl rfl fun ch' hch' => ?_
    obtain rfl : ch' = ch := Fin.ext hch'
    exact ⟨by rw [setChan_self]; nofun, hun⟩
  | @stopped i ch passed hrole =>
    have hteardown := ht.stopping i ch (congrArg Role.stopping hrole)
    have hstopped : Activity (l.setChan ch .idle) :=
      h.setChan nofun (hunseen ch (by rw [hteardown]; nofun))
    exact hstopped.setRole (congrArg Role.passed hrole).symm (congrArg Role.seen hrole).symm
  | see hidle hactive hun hrole => exact h.see hc hidle hactive hun rfl rfl
  | turnOn hrole =>
    exact h.turnOn (congrArg Role.seen hrole) rfl (congrArg Role.passed hrole).symm

/-- Every step of the life cycles keeps them consistent. -/
theorem Inv.step (h : Inv l) (hst : Step l l') : Inv l' where
  control := h.control.step hst
  teardowns := h.teardowns.step h.activity hst
  activity := h.activity.step h.control h.teardowns hst

/-- No call is in progress, the controller is idle and so are the channels. -/
theorem Inv.initial (hctlr : l.ctlr = .idle) (hchan : ∀ ch state, l.chan ch = some state →
    state = .idle) (hlock : l.lock = none) (hroles : ∀ i, l.roles i = {}) : Inv l := by
  have hnot : ∀ ch state, state ≠ .idle → l.chan ch ≠ some state :=
    fun ch state hne hch => hne (hchan ch state hch)
  have hpassed : ∀ i m, (l.roles i).passed ≠ some m := by
    intro i m hi
    rw [hroles] at hi
    cases hi
  have hstopping : ∀ i ch, (l.roles i).stopping ≠ some ch := by
    intro i ch hi
    rw [hroles] at hi
    cases hi
  have hseen : ∀ i ch, (l.roles i).seen ≠ some ch := by
    intro i ch hi
    rw [hroles] at hi
    cases hi
  constructor
  · refine ⟨fun i => ?_, fun i hi => ?_, fun hteardown => ?_, fun i m hi => absurd hi (hpassed i m),
      fun i _ m _ hi => absurd hi (hpassed i m)⟩
    · rw [hroles, hlock]
      exact ⟨nofun, nofun⟩
    · rw [hlock] at hi
      cases hi
    · rw [hctlr] at hteardown
      cases hteardown
  · exact ⟨fun ch hch => absurd hch (hnot ch _ nofun), fun i ch hi => absurd hi (hstopping i ch),
      fun i _ ch hi => absurd hi (hstopping i ch)⟩
  · exact ⟨fun i m _ hi => absurd hi (hpassed i m), fun _ ch => hnot ch _ nofun,
      fun i ch hi => absurd hi (hseen i ch), fun i _ _ ch hi => absurd hi (hseen i ch),
      fun i _ ch hi => absurd hi (hseen i ch)⟩

end Life

end CpswDriver.Cpdma
