import CpswDriver.Cpsw.RxPages

/-!
The receive pages are conserved. The moves of the driver are allowed where they
happen: it passes on only pages that it has, and to the pool and the channel that
they were taken for. One lemma for each part of the handler says that it parts with
one page, and the handler is put together from these.
-/

namespace CpswDriver.RxPages

open Custody Runs

/-- The invariant: pages are in one place, in pools and queues of the channel that they
were taken for, and queued pages are marked with it. -/
structure Inv (s : State) : Prop where
  kept : Kept (Finset.range s.taken) s.books
  pools : ∀ ch, ∀ page ∈ s.books (.pool ch), s.home page = ch
  queues : ∀ ch, ∀ page ∈ s.books (.queue ch), s.home page = ch ∧ (s.xmeta page).ch = ch

/-- Only what one has can be passed on, and only to where it belongs. -/
def Legal (s : State) : Move → Prop
  | .complete ch page => page ∈ s.books (.queue ch)
  | .alloc ch page => page = s.taken ∨ page ∈ s.books (.pool ch)
  | .setMeta page _ => page ∈ s.books .handled
  | .recycle ch page => page ∈ s.books .handled ∧ s.home page = ch
  | .submit ch page => page ∈ s.books .handled ∧ s.home page = ch ∧ (s.xmeta page).ch = ch
  | .handUp page | .giveFrame page | .returnFrame page => page ∈ s.books .handled
  | .release p page => page ∈ s.books p
  | .rxDropped _ | .rxPacket _ _ | .txDropped _ => True

/-- Moves that are each allowed where they happen. -/
inductive Safe : State → List Move → State → Prop
  | nil (s : State) : Safe s [] s
  | cons {s t : State} {m : Move} {ms : List Move} :
      Legal s m → Safe (s.apply m) ms t → Safe s (m :: ms) t

variable {s t u : State} {m : Move} {ms ns : List Move} {page : Page} {ch : ℕ} {p p' : Place}

theorem Inv.conserved (h : Inv s) : Conserved s where
  place := fun _ hlt => h.kept.existsUnique (Finset.mem_range.mpr hlt)
  once := h.kept.nodup
  known := fun _ _ hmem => Finset.mem_range.mp (h.kept.mem hmem)
  pools := h.pools

/-- Passing a page on, to a pool or a queue only if it is the right one. -/
theorem Inv.pass (h : Inv s) (hpage : page ∈ s.books p)
    (hpool : ∀ ch, p' = .pool ch → s.home page = ch)
    (hqueue : ∀ ch, p' = .queue ch → s.home page = ch ∧ (s.xmeta page).ch = ch) :
    Inv (s.pass p p' page) := by
  refine ⟨h.kept.pass hpage p', fun ch q hq => ?_, fun ch q hq => ?_⟩
  · rcases (h.kept.mem_pass hpage).mp hq with ⟨-, hold⟩ | ⟨rfl, heq⟩
    · exact h.pools ch q hold
    · exact hpool ch heq.symm
  · rcases (h.kept.mem_pass hpage).mp hq with ⟨-, hold⟩ | ⟨rfl, heq⟩
    · exact h.queues ch q hold
    · exact hqueue ch heq.symm

theorem Inv.alloc (h : Inv s) (hlegal : Legal s (.alloc ch page)) :
    Inv (s.alloc ch page) := by
  unfold State.alloc
  split
  · rename_i heq
    subst heq
    have hnew : s.taken ∉ Finset.range s.taken := Finset.notMem_range_self
    have hother : ∀ p, ∀ q ∈ s.books p, q ≠ s.taken := fun p q hq =>
      Nat.ne_of_lt (Finset.mem_range.mp (h.kept.mem hq))
    have hstay : ∀ p, p ≠ .handled → ∀ q ∈ give s.books .handled s.taken p, q ∈ s.books p :=
      fun p hp q hq => (mem_give.mp hq).resolve_right fun hcon => hp hcon.1
    refine ⟨?_, fun ch' q hq => ?_, fun ch' q hq => ?_⟩
    · dsimp only
      rw [Finset.range_add_one]
      exact h.kept.create hnew .handled
    · have hold : q ∈ s.books (.pool ch') := hstay _ (by simp) q hq
      dsimp only
      rw [Function.update_of_ne (hother _ q hold)]
      exact h.pools ch' q hold
    · have hold : q ∈ s.books (.queue ch') := hstay _ (by simp) q hq
      dsimp only
      rw [Function.update_of_ne (hother _ q hold)]
      exact h.queues ch' q hold
  · rename_i hne
    exact h.pass (hlegal.resolve_left hne) (by simp) (by simp)

theorem Inv.apply (h : Inv s) (hlegal : Legal s m) : Inv (s.apply m) := by
  cases m with
  | complete ch page => exact h.pass hlegal (by simp) (by simp)
  | alloc ch page => exact h.alloc hlegal
  | setMeta page xmeta =>
    refine ⟨h.kept, h.pools, fun ch q hq => ?_⟩
    have hne : q ≠ page := by
      rintro rfl
      cases h.kept.unique hq hlegal
    dsimp only [State.apply]
    rw [Function.update_of_ne hne]
    exact h.queues ch q hq
  | recycle ch page =>
    exact h.pass hlegal.1 (by simp [hlegal.2]) (by simp)
  | submit ch page =>
    exact h.pass hlegal.1 (by simp) (by simp [hlegal.2.1, hlegal.2.2])
  | handUp page => exact h.pass hlegal (by simp) (by simp)
  | giveFrame page => exact h.pass hlegal (by simp) (by simp)
  | returnFrame page => exact h.pass hlegal (by simp) (by simp)
  | release p page => exact h.pass hlegal (by simp) (by simp)
  | rxDropped ndev => exact ⟨h.kept, h.pools, h.queues⟩
  | rxPacket ndev len => exact ⟨h.kept, h.pools, h.queues⟩
  | txDropped ndev => exact ⟨h.kept, h.pools, h.queues⟩

theorem Safe.append (h : Safe s ms t) (h' : Safe t ns u) : Safe s (ms ++ ns) u := by
  induction h with
  | nil s => exact h'
  | cons hlegal _ ih => exact .cons hlegal (ih h')

theorem Safe.applyAll_eq (h : Safe s ms t) : applyAll s ms = t := by
  induction h with
  | nil s => rfl
  | cons _ _ ih => exact ih

theorem Safe.inv (h : Safe s ms t) (hinv : Inv s) : Inv t := by
  induction h with
  | nil s => exact hinv
  | cons hlegal _ ih => exact ih (hinv.apply hlegal)

/-- The invariant holds at every moment. -/
theorem Safe.moments (h : Safe s ms t) (hinv : Inv s) : ∀ u ∈ RxPages.moments s ms, Inv u := by
  induction h with
  | nil s =>
    intro u hu
    rw [RxPages.moments, List.scanl_nil, List.mem_singleton] at hu
    exact hu ▸ hinv
  | cons hlegal _ ih =>
    intro u hu
    rw [RxPages.moments, List.scanl_cons, List.mem_cons] at hu
    rcases hu with rfl | hrest
    · exact hinv
    · exact ih (hinv.apply hlegal) u hrest

/-- The pages that the running code has, all of one channel. -/
structure Holds (s : State) (ch : ℕ) (pages : List Page) : Prop where
  inv : Inv s
  handled : s.books .handled = pages
  home : ∀ page ∈ pages, s.home page = ch

def PartsWith (ch : ℕ) (page : Page) (ms : List Move) : Prop :=
  ∀ (s : State) (rest : List Page), Holds s ch (page :: rest) →
    ∃ t, Safe s ms t ∧ Holds t ch rest

variable {pages rest : List Page} {ndev : Port} {a : Answers}

theorem Holds.mem (h : Holds s ch (page :: rest)) :
    page ∈ s.books .handled ∧ s.home page = ch := by
  rw [h.handled]
  exact ⟨List.mem_cons_self, h.home page List.mem_cons_self⟩

theorem Holds.setStats (h : Holds s ch pages) (ndev : Port) (stats : NetDeviceStats) :
    Holds (s.setStats ndev stats) ch pages :=
  ⟨⟨h.inv.kept, h.inv.pools, h.inv.queues⟩, h.handled, h.home⟩

theorem Holds.setMeta (h : Holds s ch (page :: rest)) (xmeta : CpswMetaXdp) :
    Holds (s.apply (.setMeta page xmeta)) ch (page :: rest) :=
  ⟨h.inv.apply h.mem.1, h.handled, h.home⟩

theorem Holds.pass (h : Holds s ch (page :: rest)) (hinv : Inv (s.pass .handled p' page))
    (hp' : p' ≠ .handled) : Holds (s.pass .handled p' page) ch rest := by
  refine ⟨hinv, ?_, fun q hq => h.home q (List.mem_cons_of_mem page hq)⟩
  unfold State.pass Custody.pass give drop
  dsimp only
  rw [Function.update_of_ne hp'.symm, Function.update_self, h.handled, List.erase_cons_head]

theorem partsWith_recycle (ch : ℕ) (page : Page) : PartsWith ch page [.recycle ch page] := by
  intro s rest h
  have hlegal : Legal s (.recycle ch page) := h.mem
  exact ⟨_, .cons hlegal (.nil _), h.pass (h.inv.apply hlegal) (by simp)⟩

theorem partsWith_handUp (ch : ℕ) (page : Page) : PartsWith ch page [.handUp page] := by
  intro s rest h
  have hlegal : Legal s (.handUp page) := h.mem.1
  exact ⟨_, .cons hlegal (.nil _), h.pass (h.inv.apply hlegal) (by simp)⟩

theorem partsWith_giveFrame (ch : ℕ) (page : Page) : PartsWith ch page [.giveFrame page] := by
  intro s rest h
  have hlegal : Legal s (.giveFrame page) := h.mem.1
  exact ⟨_, .cons hlegal (.nil _), h.pass (h.inv.apply hlegal) (by simp)⟩

theorem partsWith_returnFrame (ch : ℕ) (page : Page) : PartsWith ch page [.returnFrame page] := by
  intro s rest h
  have hlegal : Legal s (.returnFrame page) := h.mem.1
  exact ⟨_, .cons hlegal (.nil _), h.pass (h.inv.apply hlegal) (by simp)⟩

def Move.idle : Move → Prop
  | .rxDropped _ | .rxPacket _ _ | .txDropped _ => True
  | _ => False

theorem Holds.idle (h : Holds s ch pages) (hidle : m.idle) :
    Legal s m ∧ Holds (s.apply m) ch pages := by
  cases m <;> first | exact hidle.elim | exact ⟨trivial, h.setStats _ _⟩

theorem PartsWith.idle_before (h : PartsWith ch page ms) (hidle : m.idle) :
    PartsWith ch page (m :: ms) := by
  intro s rest hs
  obtain ⟨hlegal, hholds⟩ := hs.idle hidle
  obtain ⟨t, hsafe, ht⟩ := h _ rest hholds
  exact ⟨t, .cons hlegal hsafe, ht⟩

theorem PartsWith.idle_after (h : PartsWith ch page ms) (hidle : m.idle) :
    PartsWith ch page (ms ++ [m]) := by
  intro s rest hs
  obtain ⟨t, hsafe, ht⟩ := h s rest hs
  obtain ⟨hlegal, hholds⟩ := ht.idle hidle
  exact ⟨_, hsafe.append (.cons hlegal (.nil _)), hholds⟩

theorem PartsWith.rxDropped (h : PartsWith ch page ms) (ndev : Port) :
    PartsWith ch page (.rxDropped ndev :: ms) := h.idle_before trivial

theorem PartsWith.setMeta (h : PartsWith ch page ms) (xmeta : CpswMetaXdp) :
    PartsWith ch page (.setMeta page xmeta :: ms) := by
  intro s rest hs
  obtain ⟨t, hsafe, ht⟩ := h _ rest (hs.setMeta xmeta)
  exact ⟨t, .cons hs.mem.1 hsafe, ht⟩

/-- The label requeue puts the page on its channel, or into its pool. -/
theorem partsWith_requeue (ndev : Port) (ch : ℕ) (page : Page) (ret : ℤ) :
    PartsWith ch page (requeue ndev ch page ret) := by
  unfold requeue
  split
  · exact (partsWith_recycle ch page).setMeta _
  · intro s rest h
    have hmeta := h.setMeta ⟨ndev, ch⟩
    have hmark : ((s.apply (.setMeta page ⟨ndev, ch⟩)).xmeta page).ch = ch := by
      dsimp only [State.apply]
      rw [Function.update_self]
    have hlegal : Legal (s.apply (.setMeta page ⟨ndev, ch⟩)) (.submit ch page) :=
      ⟨hmeta.mem.1, hmeta.mem.2, hmark⟩
    exact ⟨_, .cons h.mem.1 (.cons hlegal (.nil _)),
      hmeta.pass (hmeta.inv.apply hlegal) (by simp)⟩

theorem partsWith_passSkb (ndev : Port) (ch : ℕ) (page : Page) (len : ℤ) (skb : Bool) :
    PartsWith ch page (passSkb ndev ch page len skb) := by
  unfold passSkb
  split
  · exact (partsWith_recycle ch page).idle_before trivial
  · exact (partsWith_handUp ch page).idle_after trivial

/-- Unless the program passes the frame, its page is gone. -/
theorem partsWith_runXdp (h : (cpswRunXdp ndev ch page a).2 ≠ cpswXdpPass) :
    PartsWith ch page (cpswRunXdp ndev ch page a).1 := by
  unfold cpswRunXdp at h ⊢
  split at h
  · exact absurd rfl h
  rename_i hprog
  rw [if_neg hprog]
  cases hact : a.act with
  | pass =>
    rw [hact] at h
    exact absurd rfl h
  | tx =>
    dsimp only [cpswXdpTxFrame]
    split
    · exact partsWith_recycle ch page
    split
    · have hreturn : PartsWith ch page [.txDropped ndev, .returnFrame page] :=
        (partsWith_returnFrame ch page).idle_before trivial
      exact (hreturn.setMeta ⟨ndev, 0⟩).idle_after trivial
    · exact ((partsWith_giveFrame ch page).setMeta _).idle_after trivial
  | redirect =>
    dsimp only
    split
    · exact partsWith_recycle ch page
    · exact (partsWith_giveFrame ch page).idle_after trivial
  | drop => exact (partsWith_recycle ch page).idle_before trivial
  | aborted => exact (partsWith_recycle ch page).idle_before trivial
  | unknown => exact (partsWith_recycle ch page).idle_before trivial

theorem runXdp_pass (h : (cpswRunXdp ndev ch page a).2 = cpswXdpPass) :
    (cpswRunXdp ndev ch page a).1 = [] := by
  have hne : cpswXdpConsumed ≠ cpswXdpPass := by decide
  unfold cpswRunXdp at h ⊢
  split
  · rfl
  rename_i hprog
  rw [if_neg hprog] at h
  cases hact : a.act with
  | pass => rfl
  | tx =>
    rw [hact] at h
    dsimp only at h
    split at h <;> exact absurd h hne
  | redirect =>
    rw [hact] at h
    dsimp only at h
    split at h <;> exact absurd h hne
  | drop =>
    rw [hact] at h
    exact absurd h hne
  | aborted =>
    rw [hact] at h
    exact absurd h hne
  | unknown =>
    rw [hact] at h
    exact absurd h hne

theorem Holds.alloc (h : Holds s ch pages) {ans : AllocAnswer} {newPage : Page}
    (hnew : pagePoolDevAllocPages s ch ans = some newPage) :
    Legal s (.alloc ch newPage) ∧ Holds (s.apply (.alloc ch newPage)) ch (pages ++ [newPage]) := by
  have hlegal : Legal s (.alloc ch newPage) := by
    cases ans with
    | fail => cases hnew
    | pooled i => exact .inr (List.mem_of_getElem? hnew)
    | fresh => exact .inl (Option.some.inj hnew).symm
  refine ⟨hlegal, h.inv.apply hlegal, ?_, fun q hq => ?_⟩
  · show (s.alloc ch newPage).books .handled = pages ++ [newPage]
    unfold State.alloc
    split
    · dsimp only
      rw [give, Function.update_self, h.handled]
    · unfold State.pass Custody.pass give drop
      dsimp only
      rw [Function.update_self, Function.update_of_ne (by simp), h.handled]
  · show (s.alloc ch newPage).home q = ch
    unfold State.alloc
    split
    · rename_i hfresh
      dsimp only
      rw [Function.update_apply]
      split
      · rfl
      · rename_i hne
        exact h.home q ((List.mem_append.mp hq).resolve_right (by simp [hne]))
    · rename_i hold
      rcases List.mem_append.mp hq with hmem | hmem
      · exact h.home q hmem
      · rw [List.mem_singleton.mp hmem]
        exact h.inv.pools ch newPage (hlegal.resolve_left hold)

/-- The page of the frame goes first, and the new one after it. -/
theorem Holds.replace (h : Holds s ch [page]) {ans : AllocAnswer} {newPage : Page}
    (hnew : pagePoolDevAllocPages s ch ans = some newPage) (hms : PartsWith ch page ms)
    (hns : PartsWith ch newPage ns) :
    ∃ t, Safe s (.alloc ch newPage :: (ms ++ ns)) t ∧ Holds t ch [] := by
  obtain ⟨hlegal, htwo⟩ := h.alloc hnew
  obtain ⟨t, hsafe, hone⟩ := hms _ [newPage] htwo
  obtain ⟨u, hsafe', hnone⟩ := hns t [] hone
  exact ⟨u, .cons hlegal (hsafe.append hsafe'), hnone⟩

/-- Without XDP the handler does what it does with XDP when no program is attached. -/
theorem ethRxHandler_eq (cpsw : Cpsw) (s : State) (page : Page) (len status : ℤ) (a : Answers) :
    ethRxHandler cpsw s page len status a =
      cpswRxHandler { cpsw with xdpProg := fun _ => false } s page len status a := by
  unfold ethRxHandler cpswRxHandler
  simp only [Bool.false_eq_true, if_false, List.cons_append]

/-- The handler parts with all that it has. -/
theorem cpswRxHandler_safe (cpsw : Cpsw) (h : Holds s (s.xmeta page).ch [page])
    (len status : ℤ) (a : Answers) :
    ∃ t, Safe s (cpswRxHandler cpsw s page len status a) t ∧ Holds t (s.xmeta page).ch [] := by
  unfold cpswRxHandler
  dsimp only
  split
  · split
    · exact partsWith_requeue _ _ page a.submit s [] h
    · exact partsWith_recycle _ page s [] h
  · split
    · exact (partsWith_requeue _ _ page a.submit).rxDropped _ s [] h
    · rename_i newPage hnew
      have hnext := fun ndev => partsWith_requeue ndev (s.xmeta page).ch newPage a.submit
      split
      · split
        · rename_i hret
          exact h.replace hnew (partsWith_runXdp hret) (hnext _)
        · rename_i hret
          rw [not_not] at hret
          rw [runXdp_pass hret, List.nil_append]
          exact h.replace hnew (partsWith_passSkb _ _ page _ a.skb) (hnext _)
      · exact h.replace hnew (partsWith_passSkb _ _ page _ a.skb) (hnext _)

theorem rxHandler_safe (b : Build) (cpsw : Cpsw) (h : Holds s (s.xmeta page).ch [page])
    (len status : ℤ) (a : Answers) :
    ∃ t, Safe s (rxHandler b cpsw s page len status a) t ∧ Holds t (s.xmeta page).ch [] := by
  cases b with
  | cpsw => exact cpswRxHandler_safe cpsw h len status a
  | eth =>
    dsimp only [rxHandler]
    rw [ethRxHandler_eq]
    exact cpswRxHandler_safe _ h len status a

def requeueFate (ret : ℤ) : Fate := if ret < 0 then .recycled else .requeued

theorem fates_requeue (ndev : Port) (ch : ℕ) (page : Page) (ret : ℤ) :
    fates (requeue ndev ch page ret) = [(page, requeueFate ret)] := by
  unfold requeue requeueFate
  split <;> rfl

theorem fates_passSkb (ndev : Port) (ch : ℕ) (page : Page) (len : ℤ) (skb : Bool) :
    fates (passSkb ndev ch page len skb) = [(page, if skb then .givenAway else .recycled)] := by
  cases skb <;> rfl

theorem fates_runXdp (h : (cpswRunXdp ndev ch page a).2 ≠ cpswXdpPass) :
    ∃ k, k ≠ .requeued ∧ fates (cpswRunXdp ndev ch page a).1 = [(page, k)] := by
  unfold cpswRunXdp at h ⊢
  split at h
  · exact absurd rfl h
  rename_i hprog
  rw [if_neg hprog]
  cases hact : a.act with
  | pass =>
    rw [hact] at h
    exact absurd rfl h
  | tx =>
    dsimp only [cpswXdpTxFrame]
    split
    · exact ⟨.recycled, by simp, rfl⟩
    split
    · exact ⟨.recycled, by simp, rfl⟩
    · exact ⟨.givenAway, by simp, rfl⟩
  | redirect =>
    dsimp only
    split
    · exact ⟨.recycled, by simp, rfl⟩
    · exact ⟨.givenAway, by simp, rfl⟩
  | drop => exact ⟨.recycled, by simp, rfl⟩
  | aborted => exact ⟨.recycled, by simp, rfl⟩
  | unknown => exact ⟨.recycled, by simp, rfl⟩

/-- The page is purged, or requeued itself, or makes room for a new one. -/
inductive CallFates (purged : Prop) (page : Page) (ret : ℤ) : List (Page × Fate) → Prop
  | purge : purged → CallFates purged page ret [(page, .recycled)]
  | again : ¬ purged → CallFates purged page ret [(page, requeueFate ret)]
  | replace {k : Fate} {newPage : Page} : ¬ purged → k ≠ .requeued → newPage ≠ page →
      CallFates purged page ret [(page, k), (newPage, requeueFate ret)]

/-- A page that is taken is not the one that the handler has. -/
theorem Holds.alloc_ne (h : Holds s ch [page]) {ans : AllocAnswer} {newPage : Page}
    (hnew : pagePoolDevAllocPages s ch ans = some newPage) : newPage ≠ page := by
  obtain ⟨-, htwo⟩ := h.alloc hnew
  have hnodup := htwo.inv.kept.nodup .handled
  rw [htwo.handled] at hnodup
  rintro rfl
  simp at hnodup

/-- The guard at the top of the handler, and its other outcomes. -/
theorem purged_of_guard {cpsw : Cpsw} {status : ℤ}
    (hdown : status < 0 ∨ (!cpsw.netifRunning ndev) = true)
    (hnot : ¬ (cpsw.usageCount ≠ 0 ∧ 0 ≤ status)) : Purged cpsw ndev status := by
  simp only [Bool.not_eq_true'] at hdown
  by_cases hneg : status < 0
  · exact .inl hneg
  · exact .inr ⟨hdown.resolve_left hneg, by_contra fun hne => hnot ⟨hne, by omega⟩⟩

theorem not_purged_of_used {cpsw : Cpsw} {status : ℤ} (h : cpsw.usageCount ≠ 0 ∧ 0 ≤ status) :
    ¬ Purged cpsw ndev status := by
  rintro (hneg | ⟨-, hzero⟩)
  · have hnonneg := h.2
    omega
  · exact h.1 hzero

theorem not_purged_of_running {cpsw : Cpsw} {status : ℤ}
    (hup : ¬ (status < 0 ∨ (!cpsw.netifRunning ndev) = true)) : ¬ Purged cpsw ndev status := by
  rintro (hneg | ⟨hdown, -⟩)
  · exact hup (.inl hneg)
  · exact hup (.inr (by simp [hdown]))

theorem cpswRxHandler_fates (cpsw : Cpsw) (h : Holds s (s.xmeta page).ch [page])
    (len status : ℤ) (a : Answers) :
    CallFates (Purged cpsw (rxNdev (s.xmeta page).ndev status) status) page a.submit
      (fates (cpswRxHandler cpsw s page len status a)) := by
  have hdropped : ∀ ndev ms, fates (.rxDropped ndev :: ms) = fates ms := fun _ _ => rfl
  have halloc : ∀ ch q ms, fates (.alloc ch q :: ms) = fates ms := fun _ _ _ => rfl
  have happend : ∀ ms ns, fates (ms ++ ns) = fates ms ++ fates ns :=
    fun ms ns => List.filterMap_append
  have hskb : ∀ skb : Bool, (if skb then Fate.givenAway else .recycled) ≠ .requeued := by
    decide
  unfold cpswRxHandler
  dsimp only
  split
  · rename_i hdown
    split
    · rename_i hused
      rw [fates_requeue]
      exact .again (not_purged_of_used hused)
    · rename_i hunused
      exact .purge (purged_of_guard hdown hunused)
  · rename_i hup
    have hnot := not_purged_of_running hup
    split
    · rw [hdropped, fates_requeue]
      exact .again hnot
    · rename_i newPage hnew
      have hne := h.alloc_ne hnew
      rw [halloc]
      split
      · split
        · rename_i hret
          obtain ⟨k, hk, heq⟩ := fates_runXdp hret
          rw [happend, heq, fates_requeue]
          exact .replace hnot hk hne
        · rename_i hret
          rw [not_not] at hret
          rw [runXdp_pass hret, List.nil_append, happend, fates_passSkb, fates_requeue]
          exact .replace hnot (hskb a.skb) hne
      · rw [happend, fates_passSkb, fates_requeue]
        exact .replace hnot (hskb a.skb) hne

theorem rxHandler_fates (b : Build) (cpsw : Cpsw) (h : Holds s (s.xmeta page).ch [page])
    (len status : ℤ) (a : Answers) :
    CallFates (Purged cpsw (rxNdev (s.xmeta page).ndev status) status) page a.submit
      (fates (rxHandler b cpsw s page len status a)) := by
  cases b with
  | cpsw => exact cpswRxHandler_fates cpsw h len status a
  | eth =>
    dsimp only [rxHandler]
    rw [ethRxHandler_eq]
    have hplain := cpswRxHandler_fates { cpsw with xdpProg := fun _ => false } h len status a
    exact hplain

theorem CallFates.sound {purged : Prop} {ret : ℤ}
    (h : CallFates purged page ret (fates ms)) : CallSound ms := by
  have hcases : requeueFate ret = .recycled ∨ requeueFate ret = .requeued := by
    unfold requeueFate
    split <;> simp
  generalize hf : fates ms = fs at h
  constructor <;> unfold pagesWith <;> rw [hf]
  · cases h with
    | purge _ => simp
    | again _ => rcases hcases with heq | heq <;> simp [heq]
    | @replace k newPage _ hk hne =>
      cases k <;> rcases hcases with heq | heq <;> simp [heq, Ne.symm hne] at hk ⊢
  · cases h with
    | purge _ => simp
    | again _ => rcases hcases with heq | heq <;> simp [heq]
    | @replace k newPage _ hk hne =>
      cases k <;> rcases hcases with heq | heq <;> simp [heq, hne] at hk ⊢

theorem CallFates.purged {purged : Prop} {ret : ℤ} (h : CallFates purged page ret (fates ms))
    (hpurged : purged) : fates ms = [(page, .recycled)] := by
  generalize fates ms = fs at h ⊢
  cases h with
  | purge _ => rfl
  | again hnot => exact absurd hpurged hnot
  | replace hnot => exact absurd hpurged hnot

/-- One page is requeued, unless the call purges its page or the submit is rejected. -/
theorem CallFates.requeued {purged : Prop} [Decidable purged] {ret : ℤ}
    (h : CallFates purged page ret (fates ms)) :
    (pagesWith .requeued ms).length = if purged ∨ ret < 0 then 0 else 1 := by
  unfold pagesWith
  generalize fates ms = fs at h
  cases h with
  | purge hpurged => simp [hpurged]
  | again hnot =>
    unfold requeueFate
    by_cases hret : ret < 0 <;> simp [hnot, hret]
  | replace hnot hk hne =>
    unfold requeueFate
    by_cases hret : ret < 0 <;> simp [hnot, hret, hk]

structure Ready (s : State) : Prop where
  inv : Inv s
  handled : s.books .handled = []

theorem ready_iff : Ready s ↔ Holds s ch [] :=
  ⟨fun h => ⟨h.inv, h.handled, fun _ hq => absurd hq List.not_mem_nil⟩,
    fun h => ⟨h.inv, h.handled⟩⟩

theorem ready_start (xmeta : Page → CpswMetaXdp) : Ready (start xmeta) := by
  have hnone : ∀ p (q : Page), q ∉ (start xmeta).books p := fun _ _ => List.not_mem_nil
  refine ⟨⟨⟨⟨fun _ => .handled, fun p q => ?_⟩, fun _ => List.nodup_nil⟩, fun ch q hq => ?_,
    fun ch q hq => ?_⟩, rfl⟩
  · simp [start]
  · exact absurd hq (hnone _ q)
  · exact absurd hq (hnone _ q)

/-- A page that comes back is in the hands of the handler, marked with its channel. -/
theorem Ready.complete (h : Ready s) (hpage : page ∈ s.books (.queue ch)) :
    Legal s (.complete ch page) ∧ Holds (s.apply (.complete ch page))
      ((s.apply (.complete ch page)).xmeta page).ch [page] := by
  have hlegal : Legal s (.complete ch page) := hpage
  obtain ⟨hhome, hmark⟩ := h.inv.queues ch page hpage
  refine ⟨hlegal, h.inv.apply hlegal, ?_, fun q hq => ?_⟩
  · show Custody.pass s.books (.queue ch) .handled page .handled = [page]
    unfold Custody.pass give drop
    rw [Function.update_self, Function.update_of_ne (by simp), h.handled]
    rfl
  · rw [List.mem_singleton.mp hq]
    exact hhome.trans hmark.symm

/-- The loops of cpsw_fill_rx_channels, from any of their turns. -/
theorem fillTurns_safe (ndev : Port) (a : FillAnswers) (turns : List (ℕ × ℕ)) (h : Ready s) :
    ∃ t, Safe s (fillTurns ndev a s turns).1 t ∧ Ready t := by
  induction turns generalizing s with
  | nil => exact ⟨s, .nil s, h⟩
  | cons turn turns ih =>
    obtain ⟨ch, i⟩ := turn
    unfold fillTurns
    split
    · exact ⟨s, .nil s, h⟩
    rename_i page hnew
    obtain ⟨hlegal, hholds⟩ := (ready_iff.mp h : Holds s ch []).alloc hnew
    rw [List.nil_append] at hholds
    obtain ⟨t, hsafe, hdone⟩ := partsWith_requeue ndev ch page (a.submit ch i) _ [] hholds
    have hturn : Safe s (.alloc ch page :: requeue ndev ch page (a.submit ch i)) t :=
      .cons hlegal hsafe
    have hready : Ready t := ready_iff.mpr hdone
    dsimp only
    split
    · rename_i hret
      unfold requeue at hturn
      rw [if_pos hret] at hturn
      exact ⟨t, hturn, hready⟩
    · rename_i hret
      unfold requeue at hturn
      rw [if_neg hret] at hturn
      obtain ⟨u, hrest, hu⟩ := ih hready
      have heq : applyAll s ([.alloc ch page, .setMeta page ⟨ndev, ch⟩] ++ [.submit ch page]) = t :=
        hturn.applyAll_eq
      rw [heq]
      exact ⟨u, hturn.append hrest, hu⟩

theorem release_safe (h : Ready s) (hp : p ≠ .handled) (hpage : page ∈ s.books p) :
    ∃ t, Safe s [.release p page] t ∧ Ready t := by
  have hlegal : Legal s (.release p page) := hpage
  refine ⟨_, .cons hlegal (.nil _), h.inv.apply hlegal, ?_⟩
  show Custody.pass s.books p (.pool (s.home page)) page .handled = []
  unfold Custody.pass give drop
  rw [Function.update_of_ne (by simp), Function.update_of_ne (Ne.symm hp), h.handled]

/-- Each step makes allowed moves only, and ends with nothing in hand. -/
theorem Ready.moves (h : Ready s) {b : Build} {op : Op} (hms : movesOf b s op = some ms) :
    ∃ t, Safe s ms t ∧ Ready t := by
  cases op with
  | fillRxChannels rxChNum rxBufNum ndev a =>
    cases hms
    exact fillTurns_safe ndev a _ h
  | completion cpsw ch i len status a =>
    obtain ⟨page, hpage, rfl⟩ := Option.map_eq_some_iff.mp hms
    obtain ⟨hlegal, hholds⟩ := h.complete (List.mem_of_getElem? hpage)
    obtain ⟨t, hsafe, hdone⟩ := rxHandler_safe b cpsw hholds len status a
    exact ⟨t, .cons hlegal hsafe, ready_iff.mpr hdone⟩
  | skbFreed i =>
    obtain ⟨page, hpage, rfl⟩ := Option.map_eq_some_iff.mp hms
    exact release_safe h (by simp) (List.mem_of_getElem? hpage)
  | frameFreed i =>
    obtain ⟨page, hpage, rfl⟩ := Option.map_eq_some_iff.mp hms
    exact release_safe h (by simp) (List.mem_of_getElem? hpage)

theorem Ready.step (h : Ready s) {b : Build} {op : Op} (hst : RxPages.step b s op = some t) :
    Ready t := by
  obtain ⟨ms, hms, rfl⟩ := Option.map_eq_some_iff.mp hst
  obtain ⟨u, hsafe, hu⟩ := h.moves hms
  rw [hsafe.applyAll_eq]
  exact hu

theorem ready_of_run {b : Build} {xmeta : Page → CpswMetaXdp} {ops : List Op}
    (hrun : Run (RxPages.step b) WellFormed (start xmeta) ops s) : Ready s :=
  hrun.invariant (I := Ready) (fun _ _ _ h _ hst => h.step hst) (ready_start xmeta)

/-- A completion with an error sends the page back to its pool. -/
theorem Ready.purge (h : Ready s) (b : Build) (cpsw : Cpsw) (a : Answers) {q : Page}
    {qs : List Page} (hqueue : s.books (.queue ch) = q :: qs) : ∃ t,
    RxPages.step b s (.completion cpsw ch 0 0 (-enosys) a) = some t ∧
      t.books (.queue ch) = qs ∧ t.books (.pool ch) = s.books (.pool ch) ++ [q] := by
  have hmark : (s.xmeta q).ch = ch := (h.inv.queues ch q (hqueue ▸ List.mem_cons_self)).2
  have hguard : ¬ (cpsw.usageCount ≠ 0 ∧ 0 ≤ -enosys) := fun hcon => absurd hcon.2 (by decide)
  have hmoves : handlerMoves b cpsw s ch q 0 (-enosys) a = [.recycle ch q] := by
    have hplain : ∀ cpsw : Cpsw, ¬ (cpsw.usageCount ≠ 0 ∧ 0 ≤ -enosys) → cpswRxHandler cpsw
        (s.apply (.complete ch q)) q 0 (-enosys) a = [.recycle (s.xmeta q).ch q] := by
      intro cpsw hguard
      unfold cpswRxHandler
      dsimp only
      rw [if_pos (.inl (by decide)), if_neg hguard]
      rfl
    rw [← hmark]
    cases b with
    | cpsw => exact hmark.symm ▸ hplain cpsw hguard
    | eth =>
      dsimp only [handlerMoves, rxHandler]
      rw [hmark, ethRxHandler_eq]
      exact hmark ▸ hplain _ hguard
  refine ⟨applyAll s [.complete ch q, .recycle ch q], ?_, ?_, ?_⟩
  · have hpage : (s.books (.queue ch))[0]? = some q := by
      rw [hqueue]
      rfl
    unfold RxPages.step movesOf
    dsimp only
    rw [hpage, Option.map_some, hmoves]
    rfl
  · show Custody.pass (Custody.pass s.books (.queue ch) .handled q) .handled (.pool ch) q
      (.queue ch) = qs
    simp [Custody.pass, give, drop, hqueue]
  · show Custody.pass (Custody.pass s.books (.queue ch) .handled q) .handled (.pool ch) q
      (.pool ch) = s.books (.pool ch) ++ [q]
    simp [Custody.pass, give, drop]

/-- Tearing a channel down leaves none of its pages behind. -/
theorem teardown_empties (h : Ready s) (b : Build) (cpsw : Cpsw) (ch : ℕ) (a : Answers) : ∃ t,
    Run (RxPages.step b) WellFormed s (teardown cpsw ch (s.books (.queue ch)).length a) t ∧
      t.books (.queue ch) = [] ∧
        t.books (.pool ch) = s.books (.pool ch) ++ s.books (.queue ch) := by
  generalize hqueue : s.books (.queue ch) = qs
  induction qs generalizing s with
  | nil => exact ⟨s, .nil s, hqueue, (List.append_nil _).symm⟩
  | cons q qs ih =>
    obtain ⟨t, hst, hrest, hpool⟩ := h.purge b cpsw a hqueue
    obtain ⟨u, hrun, hempty, hall⟩ := ih (h.step hst) hrest
    have hport : cpdmaRxSourcePort (-enosys) ≤ 2 := by decide
    refine ⟨u, .cons hport hst hrun, hempty, ?_⟩
    rw [hall, hpool, List.append_assoc, List.singleton_append]

/-- In every run each page is in one place at every moment, between steps none of them in hand,
and every call of the handler requeues one page, none if it purges its page or the submit is
rejected. A page that is purged is recycled. -/
theorem pages_conserved_of_run (b : Build) {xmeta : Page → CpswMetaXdp} {ops : List Op}
    (hrun : Run (step b) WellFormed (start xmeta) ops s) :
    s.books .handled = [] ∧
    (∀ op ms, WellFormed s op → movesOf b s op = some ms →
      (∀ t ∈ moments s ms, Conserved t) ∧ (applyAll s ms).books .handled = []) ∧
    ∀ (cpsw : Cpsw) (ch i : ℕ) (page : Page) (len status : ℤ) (a : Answers),
      (s.books (.queue ch))[i]? = some page → cpdmaRxSourcePort status ≤ 2 →
      CallSound (handlerMoves b cpsw s ch page len status a) ∧
      (pagesWith .requeued (handlerMoves b cpsw s ch page len status a)).length =
        (if Purged cpsw (rxNdev (s.xmeta page).ndev status) status ∨ a.submit < 0 then 0 else 1) ∧
      (Purged cpsw (rxNdev (s.xmeta page).ndev status) status →
        fates (handlerMoves b cpsw s ch page len status a) = [(page, .recycled)]) := by
  have hready := ready_of_run hrun
  refine ⟨hready.handled, fun op ms _ hms => ?_, fun cpsw ch i page len status a hpage _ => ?_⟩
  · obtain ⟨u, hsafe, hu⟩ := hready.moves hms
    refine ⟨fun t ht => (hsafe.moments hready.inv t ht).conserved, ?_⟩
    rw [hsafe.applyAll_eq]
    exact hu.handled
  · obtain ⟨-, hholds⟩ := hready.complete (List.mem_of_getElem? hpage)
    have hfates := rxHandler_fates b cpsw hholds len status a
    exact ⟨hfates.sound, hfates.requeued, hfates.purged⟩

/-- Answers of functions that all do what they are asked. -/
def willing : Answers where
  alloc := .fresh
  prog := true
  act := .redirect
  xdpLen := 60
  xdpf := true
  txSubmit := 0
  redirect := 0
  skb := true
  submit := 0

def oneOpen : Cpsw where
  usageCount := 1
  netifRunning := fun ndev => ndev == 0
  xdpProg := fun ndev => ndev == 0

def onePage : FillAnswers where
  alloc := fun _ _ => .fresh
  submit := fun _ _ => 0

/-- A channel with one page, after a frame for slave 0 was redirected. -/
def redirected : List Op :=
  [.fillRxChannels 1 (fun _ => 1) 0 onePage, .completion oneOpen 0 0 60 0x10000 willing]

theorem pages_conserved_after_redirect : ∃ s,
    Run (step .cpsw) WellFormed (start fun _ => ⟨0, 0⟩) redirected s ∧
    s.books .frame = [0] ∧ s.books (.queue 0) = [1] ∧
    s.books .handled = [] ∧
    (pagesWith .requeued (handlerMoves .cpsw oneOpen s 0 1 60 0x20000 willing)).length = 1 := by
  obtain ⟨s, hrun, hframe, hqueue⟩ : ∃ s,
      Run (step .cpsw) WellFormed (start fun _ => ⟨0, 0⟩) redirected s ∧
      s.books .frame = [0] ∧ s.books (.queue 0) = [1] :=
    ⟨_, .cons trivial rfl (.cons (show cpdmaRxSourcePort 0x10000 ≤ 2 by decide) rfl (.nil _)),
      rfl, rfl⟩
  have hpage : (s.books (.queue 0))[0]? = some 1 := by
    rw [hqueue]
    rfl
  obtain ⟨hnone, -, hcalls⟩ := pages_conserved_of_run .cpsw hrun
  obtain ⟨-, hcount, -⟩ := hcalls oneOpen 0 0 1 60 0x20000 willing hpage (by decide)
  refine ⟨s, hrun, hframe, hqueue, hnone, hcount.trans (if_neg ?_)⟩
  rintro ((hneg | ⟨-, hzero⟩) | hneg)
  · exact absurd hneg (by decide)
  · exact absurd hzero (by decide)
  · exact absurd hneg (by decide)

def noneOpen : Cpsw where
  usageCount := 0
  netifRunning := fun _ => false
  xdpProg := fun _ => false

/-- A frame for a port that is down, while no port is in use, costs the channel a page. -/
theorem down_port_requeues_none : ¬ ∀ (b : Build) (xmeta : Page → CpswMetaXdp) (ops : List Op)
    (s : State), Run (step b) WellFormed (start xmeta) ops s →
    ∀ (cpsw : Cpsw) (ch i : ℕ) (page : Page) (len status : ℤ) (a : Answers),
      (s.books (.queue ch))[i]? = some page → cpdmaRxSourcePort status ≤ 2 →
      0 ≤ status → 0 ≤ a.submit →
      (pagesWith .requeued (handlerMoves b cpsw s ch page len status a)).length = 1 := by
  intro h
  have hone := h .cpsw (fun _ => ⟨0, 0⟩) [.fillRxChannels 1 (fun _ => 1) 0 onePage] _
    (.cons trivial rfl (.nil _)) noneOpen 0 0 0 60 0x20000 willing rfl (by decide) (by decide)
    (by decide)
  exact absurd hone (by decide)

end CpswDriver.RxPages
