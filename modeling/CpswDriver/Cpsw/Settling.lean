import CpswDriver.Cpsw.Noticed

/-!
What is under way comes to its end. No thread waits for ever as long as every
open gets its resources: the lines of actions get cheaper, the polls work off
what was scheduled, and the network stack waits for nothing else.
-/

namespace CpswDriver.Interrupts

open Cpdma Runs Promises

variable {params : CpswParams} {s s' : State} {a : Action} {t : Thread} {new as : List Action}

def Action.cost (params : CpswParams) : Action → ℕ
  | .intCtrl _ | .ctlrStart => params.chans.length + 1
  | .ctlrStop => 2 * params.chans.length + 2
  | .chanStart _ | .chanStop _ => 2
  | .close _ => 3 * params.chans.length + 12
  | _ => 1

def lineCost (params : CpswParams) (line : List Action) : ℕ :=
  (line.map (Action.cost params)).sum

theorem lineCost_cons (a : Action) (as : List Action) :
    lineCost params (a :: as) = a.cost params + lineCost params as :=
  List.sum_cons

theorem lineCost_append (as bs : List Action) :
    lineCost params (as ++ bs) = lineCost params as + lineCost params bs := by
  unfold lineCost
  rw [List.map_append, List.sum_append]

theorem lineCost_map {f : ChanId → Action} {k : ℕ} (hf : ∀ ch, (f ch).cost params = k)
    (chs : List ChanId) : lineCost params (chs.map f) = chs.length * k := by
  induction chs with
  | nil => simp [lineCost]
  | cons ch chs ih =>
    rw [List.map_cons, lineCost_cons, hf, ih, List.length_cons]
    ring

theorem lineCost_ndoStop (params : CpswParams) (usageCount : ℤ) :
    lineCost params (cpswNdoStop usageCount) ≤ 3 * params.chans.length + 10 := by
  unfold cpswNdoStop
  split
  · simp [lineCost, Action.cost, cpswIntrDisable]
    omega
  · simp [lineCost, Action.cost]

theorem lineCost_calls (h : perform params s a = some (s', new)) :
    lineCost params new < a.cost params := by
  have hnew := perform_calls h
  cases a with
  | intCtrl on =>
    rw [hnew]
    dsimp only
    split
    · rw [lineCost_map (f := (.chanIntCtrl · on)) fun ch => rfl]
      simp [Action.cost]
    · simp [lineCost, Action.cost]
  | ctlrStart =>
    rw [hnew]
    dsimp only
    split
    · rw [lineCost_map (f := .chanOn) fun ch => rfl]
      simp [Action.cost]
    · simp [lineCost, Action.cost]
  | ctlrStop =>
    rw [hnew]
    dsimp only
    split
    · rw [lineCost_append, lineCost_map (f := .chanStop) fun ch => rfl]
      simp [lineCost, Action.cost]
      omega
    · simp [lineCost, Action.cost]
  | close p =>
    rw [hnew]
    dsimp only
    split
    · have hstop := lineCost_ndoStop params s.usageCount
      rw [lineCost_cons]
      simp only [Action.cost]
      omega
    · simp [lineCost, Action.cost]
  | chanStart ch | chanStop ch =>
    rw [hnew]
    dsimp only
    split <;> simp [lineCost, Action.cost]
  | _ =>
    rw [hnew]
    simp [lineCost, Action.cost]

/-- What goes on by itself: threads that go on, and polls. -/
def Op.inner : Op → Bool
  | .run _ | .poll _ _ => true
  | _ => false

/-- A run of such steps that leaves alone what the network stack's calls are about. -/
def Settles (params : CpswParams) (s s' : State) : Prop :=
  ∃ ops, (∀ op ∈ ops, op.inner = true) ∧ Run (step params) anyStep s ops s'

theorem Settles.refl (s : State) : Settles params s s :=
  ⟨[], fun _ h => absurd h List.not_mem_nil, Run.nil s⟩

theorem Settles.trans {u : State} (h : Settles params s s') (h' : Settles params s' u) :
    Settles params s u := by
  obtain ⟨ops, hinner, hrun⟩ := h
  obtain ⟨ops', hinner', hrun'⟩ := h'
  refine ⟨ops ++ ops', fun op hop => ?_, hrun.append hrun'⟩
  rcases List.mem_append.mp hop with hop | hop
  · exact hinner op hop
  · exact hinner' op hop

theorem Settles.step {op : Op} (hop : op.inner = true) (hst : step params s op = some s') :
    Settles params s s' := by
  refine ⟨[op], fun op' hop' => ?_, .single hst trivial⟩
  rwa [List.mem_singleton.mp hop']

/-- An action that is not for the network stack alone never waits. -/
theorem perform_plain (params : CpswParams) (s : State) (ha : a.serial = false) :
    ∃ r, perform params s a = some r := by
  cases a <;> cases ha <;> exact ⟨_, rfl⟩

theorem step_run (hline : s.code t = a :: as) (hp : perform params s a = some (s', new)) :
    step params s (.run t) = some (s'.setCode t (new ++ as)) := by
  simp only [step, hline, hp, Option.map_some]

theorem code_run (hp : perform params s a = some (s', new)) (t : Thread) (line : List Action) :
    (s'.setCode t line).code = Function.update s.code t line := by
  rw [State.setCode, perform_code hp]

theorem settles_thread (params : CpswParams) (t : Thread) : ∀ (n : ℕ) (s : State),
    lineCost params (s.code t) ≤ n →
    (∀ a ∈ s.code t, a.serial = false) →
    ∃ s', Settles params s s' ∧ s'.code = Function.update s.code t [] ∧ s'.ctl = s.ctl
  | n, s, hcost, hplain => by
    cases hline : s.code t with
    | nil =>
      refine ⟨s, Settles.refl s, ?_, rfl⟩
      rw [← hline, Function.update_eq_self]
    | cons a as =>
      rw [hline] at hcost hplain
      have ha := hplain a List.mem_cons_self
      obtain ⟨⟨s₁, new⟩, hp⟩ := perform_plain params s ha
      have hcalls := lineCost_calls hp
      have hown : (s₁.setCode t (new ++ as)).code t = new ++ as := code_setCode_self _ _ _
      rw [lineCost_cons] at hcost
      obtain ⟨n, rfl⟩ : ∃ m, n = m + 1 := ⟨n - 1, by omega⟩
      obtain ⟨s', hsettles, hcode, hctl⟩ := settles_thread params t n (s₁.setCode t (new ++ as))
        (by rw [hown, lineCost_append]; omega) (by
          rw [hown]
          intro c hc
          rcases List.mem_append.mp hc with hc | hc
          · exact calls_plain hp ha c hc
          · exact hplain c (List.mem_cons_of_mem a hc))
      refine ⟨s', (Settles.step rfl (step_run hline hp)).trans hsettles, ?_, ?_⟩
      · rw [hcode, code_run hp, Function.update_idem]
      · rw [hctl]
        exact (show (s₁.setCode t (new ++ as)).ctl = s₁.ctl from rfl).trans (ctl_plain hp ha)

theorem settles_threads (params : CpswParams) (ts : List Thread) : ∀ s : State,
    (∀ t ∈ ts, ∀ a ∈ s.code t, a.serial = false) →
    ∃ s', Settles params s s' ∧ (∀ t ∈ ts, s'.code t = []) ∧
      (∀ t ∉ ts, s'.code t = s.code t) ∧ s'.ctl = s.ctl := by
  induction ts with
  | nil => exact fun s _ => ⟨s, Settles.refl s, fun _ h => absurd h List.not_mem_nil,
      fun _ _ => rfl, rfl⟩
  | cons t ts ih =>
    intro s hplain
    obtain ⟨s₁, hfirst, hcode, hctl⟩ :=
      settles_thread params t _ s le_rfl (hplain t List.mem_cons_self)
    have hplain₁ : ∀ u ∈ ts, ∀ a ∈ s₁.code u, a.serial = false := by
      intro u hu
      rw [hcode]
      by_cases hut : u = t
      · subst hut
        rw [Function.update_self]
        exact fun a ha => absurd ha List.not_mem_nil
      · rw [Function.update_of_ne hut]
        exact hplain u (List.mem_cons_of_mem t hu)
    obtain ⟨s', hrest, hidle, hother, hctl'⟩ := ih s₁ hplain₁
    refine ⟨s', hfirst.trans hrest, fun u hu => ?_, fun u hu => ?_, hctl'.trans hctl⟩
    · by_cases hmem : u ∈ ts
      · exact hidle u hmem
      · obtain rfl := (List.mem_cons.mp hu).resolve_right hmem
        rw [hother u hmem, hcode, Function.update_self]
    · rw [List.mem_cons, not_or] at hu
      obtain ⟨hne, hnot⟩ := hu
      rw [hother u hnot, hcode, Function.update_of_ne hne]

theorem settles_poll (params : CpswParams) (d : Dir) (hline : s.code (.poll d) = [])
    (hqueued : (s.napi d).queued = true) :
    ∃ s', Settles params s s' ∧ s'.code = s.code ∧ s'.ctl = s.ctl ∧
      s'.napi = Function.update s.napi d (s.napi d).complete := by
  have hstart : step params s (.poll d false) =
      some (s.setCode (.poll d) [.napiComplete d, .writeEn d true]) := by
    simp [step, hqueued, State.start, hline, cpswMqPoll]
  let s₁ := s.setCode (.poll d) [.napiComplete d, .writeEn d true]
  let s₂ := (s₁.setNapi d (s.napi d).complete).setCode (.poll d) [.writeEn d true]
  let s₃ := { s₂ with en := Function.update s₂.en d true }.setCode (.poll d) []
  have hline₁ : s₁.code (.poll d) = [.napiComplete d, .writeEn d true] := code_setCode_self _ _ _
  have hline₂ : s₂.code (.poll d) = [.writeEn d true] := code_setCode_self _ _ _
  have hcomplete : step params s₁ (.run (.poll d)) = some s₂ := step_run hline₁ rfl
  have henable : step params s₂ (.run (.poll d)) = some s₃ := step_run hline₂ rfl
  have hcode : s₃.code = Function.update s.code (.poll d) [] := by
    change Function.update (Function.update (Function.update _ _ _) _ _) _ _ = _
    rw [Function.update_idem, Function.update_idem]
  refine ⟨s₃, (Settles.step rfl hstart).trans ((Settles.step rfl hcomplete).trans
    (Settles.step rfl henable)), ?_, ?_, rfl⟩
  · rw [hcode, ← hline, Function.update_eq_self]
  · have hnapi : (s.setNapi d (s.napi d).complete).ctl = s.ctl := by
      rw [ctl_setNapi, off_complete, show (s.napi d == .off) = s.ctl.off d from rfl,
        Function.update_eq_self]
    exact hnapi

/-- A NAPI that has been scheduled again in the meantime takes two polls. -/
theorem settles_napi (params : CpswParams) (d : Dir) (hline : s.code (.poll d) = []) :
    ∃ s', Settles params s s' ∧ s'.code = s.code ∧ s'.ctl = s.ctl ∧
      (s'.napi d).queued = false ∧ ∀ d' ≠ d, s'.napi d' = s.napi d' := by
  cases hn : s.napi d with
  | off | idle => exact ⟨s, Settles.refl s, rfl, rfl, by rw [hn]; rfl, fun _ _ => rfl⟩
  | sched =>
    obtain ⟨s', hsettles, hcode, hctl, hnapi⟩ := settles_poll params d hline
      (by rw [hn]; rfl)
    refine ⟨s', hsettles, hcode, hctl, ?_, fun d' hd => ?_⟩
    · rw [hnapi, Function.update_self, hn]
      rfl
    · rw [hnapi, Function.update_of_ne hd]
  | missed =>
    obtain ⟨s₁, hsettles₁, hcode₁, hctl₁, hnapi₁⟩ := settles_poll params d hline
      (by rw [hn]; rfl)
    have hsched : s₁.napi d = .sched := by
      rw [hnapi₁, Function.update_self, hn]
      rfl
    obtain ⟨s', hsettles, hcode, hctl, hnapi⟩ := settles_poll params d
      (by rwa [hcode₁]) (by rw [hsched]; rfl)
    refine ⟨s', hsettles₁.trans hsettles, hcode.trans hcode₁, hctl.trans hctl₁, ?_, fun d' hd => ?_⟩
    · rw [hnapi, Function.update_self, hsched]
      rfl
    · rw [hnapi, Function.update_of_ne hd, hnapi₁, Function.update_of_ne hd]

/-- Nothing but the network stack's thread is under way. -/
structure Resting (s : State) : Prop where
  code : ∀ t ≠ .rtnl, s.code t = []
  napi : ∀ d, (s.napi d).queued = false

theorem settles_others (params : CpswParams)
    (hplain : ∀ t ≠ .rtnl, ∀ a ∈ s.code t, a.serial = false) :
    ∃ s', Settles params s s' ∧ Resting s' ∧ s'.code .rtnl = s.code .rtnl ∧ s'.ctl = s.ctl := by
  have hothers : .rtnl ∉ others := by decide
  obtain ⟨s₁, hsettles₁, hidle, hother, hctl₁⟩ := settles_threads params others s
    fun t ht => hplain t fun heq => hothers (heq ▸ ht)
  have hcode₁ : ∀ t ≠ .rtnl, s₁.code t = [] := fun t ht => hidle t (mem_others ht)
  obtain ⟨s₂, hsettles₂, hcode₂, hctl₂, hrx, -⟩ :=
    settles_napi params .rx (hcode₁ (.poll .rx) Thread.noConfusion)
  have hpoll : s₂.code (.poll .tx) = [] := by
    rw [hcode₂]
    exact hcode₁ _ Thread.noConfusion
  obtain ⟨s₃, hsettles₃, hcode₃, hctl₃, htx, hsame⟩ := settles_napi params .tx hpoll
  refine ⟨s₃, hsettles₁.trans (hsettles₂.trans hsettles₃), ⟨fun t ht => ?_, fun d => ?_⟩, ?_, ?_⟩
  · rw [hcode₃, hcode₂]
    exact hcode₁ t ht
  · cases d with
    | rx => rwa [hsame .rx Dir.noConfusion]
    | tx => exact htx
  · rw [hcode₃, hcode₂, hother _ hothers]
  · rw [hctl₃, hctl₂, hctl₁]

/-- With the other threads at rest the network stack's thread goes on, unless it is hung. -/
theorem perform_resting (params : CpswParams) (h : Resting s) (a : Action)
    (hgoes : (s.ctl.next a).hung = false) :
    ∃ r, perform params s a = some r := by
  cases a with
  | napiEnable d =>
    have hoff : s.napi d = .off := by
      simpa [Ctl.next, Ctl.after, State.ctl] using hgoes
    exact ⟨_, if_pos hoff⟩
  | napiDisableWait d =>
    have hon : s.napi d ≠ .off := by
      intro hoff
      have hhung : (s.ctl.next (.napiDisableWait d)).hung = true :=
        Ctl.hung_wait (by simp [State.ctl, hoff])
      rw [hgoes] at hhung
      cases hhung
    have hidle : s.napi d = .idle := by
      have hqueued := h.napi d
      cases hn : s.napi d with
      | off => exact absurd hn hon
      | idle => rfl
      | sched | missed =>
        rw [hn] at hqueued
        cases hqueued
    exact ⟨_, if_pos hidle⟩
  | deactivate p =>
    exact ⟨_, if_pos ⟨h.code _ Thread.noConfusion, h.code _ Thread.noConfusion⟩⟩
  | _ => exact ⟨_, rfl⟩

theorem Inv.settles (h : Inv params False s) (hsettles : Settles params s s') :
    Inv params False s' := by
  obtain ⟨ops, hinner, hrun⟩ := hsettles
  refine hrun.mem.invariant (fun s op s' hi hop hst => hi.step (fun p heq => ?_) hst) h
  have hop' := hinner op hop.2
  rw [heq] at hop'
  cases hop'

theorem settles_all : ∀ (n : ℕ) (s : State), Inv params False s →
    lineCost params (s.code .rtnl) ≤ n → ∃ s', Settles params s s' ∧ (∀ t, s'.code t = []) ∧
      ∀ d, (s'.napi d).queued = false
  | n, s, hinv, hcost => by
    obtain ⟨s₁, hsettles₁, hresting, hline₁, -⟩ := settles_others params hinv.plain
    have hinv₁ := hinv.settles hsettles₁
    rw [← hline₁] at hcost
    cases hline : s₁.code .rtnl with
    | nil =>
      refine ⟨s₁, hsettles₁, fun t => ?_, hresting.napi⟩
      by_cases ht : t = .rtnl
      · rwa [ht]
      · exact hresting.code t ht
    | cons a as =>
      have hgoes : (s₁.ctl.next a).hung = false := by
        have hends := hinv₁.ends.resolve_left fun hfailed => hfailed.1
        rw [hline, Ctl.run_cons] at hends
        by_contra hhung
        have hrun := Ctl.hung_run (Bool.not_eq_false _ ▸ hhung) as
        rw [hends.goesOn] at hrun
        cases hrun
      obtain ⟨⟨s₂, new⟩, hp⟩ := perform_resting params hresting a hgoes
      have hstep := Settles.step rfl (step_run hline hp)
      have hcalls := lineCost_calls hp
      have hown : (s₂.setCode .rtnl (new ++ as)).code .rtnl = new ++ as := code_setCode_self _ _ _
      rw [hline, lineCost_cons] at hcost
      obtain ⟨n, rfl⟩ : ∃ m, n = m + 1 := ⟨n - 1, by omega⟩
      obtain ⟨s', hsettles, hidle⟩ := settles_all n (s₂.setCode .rtnl (new ++ as))
        (hinv₁.settles hstep) (by rw [hown, lineCost_append]; omega)
      exact ⟨s', hsettles₁.trans (hstep.trans hsettles), hidle⟩

/-- Whatever has happened and whatever is under way, as long as every open was granted what it
asked for: the threads can go on to their ends, the network stack's too, and then every channel of
an open net device can interrupt the CPU. -/
theorem settles_of_run (h : Initial s) {ops : List Op}
    (hrun : Run (step params) (fun _ op => ∀ p, op ≠ .ndoOpen p false) s ops s') :
    ∃ s'', Settles params s' s'' ∧ (∀ t, s''.code t = []) ∧ ((∃ p, s''.opened p = true) →
      ∀ ch ∈ params.chans, (step params s'' (.interrupt ch)).isSome) := by
  have hinv : Inv params False s' := hrun.invariant
    (fun _ op _ hi hop hst => hi.step (fun p heq => hop p heq) hst) h.inv
  obtain ⟨s'', hsettles, hidle, hnapi⟩ := settles_all _ s' hinv le_rfl
  refine ⟨s'', hsettles, hidle, fun ⟨p, hp⟩ ch hmem => ?_⟩
  exact (hinv.settles hsettles).listens hidle hp hmem (hnapi (dirOf ch))

theorem settles_after_interrupt : ∃ s', (s'.code (.watchdog 0)).length = 6 ∧
    ∃ s'', Settles oneOfEach s' s'' ∧ (∀ t, s''.code t = []) ∧ ((∃ p, s''.opened p = true) →
      ∀ ch ∈ oneOfEach.chans, (step oneOfEach s'' (.interrupt ch)).isSome) := by
  have htest : (exec (step oneOfEach) (fun _ op => ∀ p, op ≠ .ndoOpen p false) downState
      (busyRun.take 22)).any (fun s => (s.code (.watchdog 0)).length == 6) = true := by
    decide +kernel
  obtain ⟨s', hrun, hlength⟩ := exists_run_of_any htest
  have hstart : Initial downState :=
    ⟨fun _ => rfl, fun _ => rfl, fun _ => rfl, rfl, fun _ => rfl, rfl, fun _ => rfl, fun _ => rfl⟩
  exact ⟨s', eq_of_beq hlength, settles_of_run hstart hrun⟩

end CpswDriver.Interrupts
