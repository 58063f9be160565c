import CpswDriver.Cpdma.Calls
import CpswDriver.Cpdma.Lifecycle
import CpswDriver.Lib.Simulation

/-!
The life cycles of the driver's controller and channels. Every step of the
driver is matched by steps of the life cycles, so these stay consistent in
every interleaving; what the start and the stop of the controller leave behind
follows for calls that no channel operation overlaps.
-/

namespace CpswDriver.Cpdma

open CallTable Runs Relation

variable {τ : Type*} {params : CpdmaParams} {s s' : State τ} {i : ℕ} {ch : ChanId}
  {chan : CpdmaChan}

def StopRet.passed : StopRet → Option ℕ
  | .caller => none
  | .ctlrStop j => some (j + 1)

def Cont.role (ch : ChanId) : Cont → Role
  | .process _ _ => {}
  | .stopDrain _ ret => { passed := ret.passed, stopping := some ch }
  | .stopClean ret => { passed := ret.passed, stopping := some ch }

def Pc.role : Pc τ → Role
  | .done _ | .process _ _ _ | .stopBegin _ _ | .chanOn _ => {}
  | .chanFree ch _ _ _ k => k.role ch
  | .handler ch _ _ _ k => k.role ch
  | .stopDrain ch ret => { passed := ret.passed, stopping := some ch }
  | .stopClean ch ret => { passed := ret.passed, stopping := some ch }
  | .ctlrStart _ _ => { starting := true }
  | .ctlrStop j => { passed := some j }

def chanStates (channels : ChanId → Option CpdmaChan) (ch : ChanId) : Option CpdmaState :=
  (channels ch).map CpdmaChan.state

def lifeOf (s : State τ) : Life where
  ctlr := s.ctlr.state
  chan := chanStates s.ctlr.channels
  lock := s.lock
  roles i := ((s.calls[i]?).map Pc.role).getD {}

/-- Only cpdma_chan_stop called from outside begins by itself; the loop of
cpdma_ctlr_stop goes through its first section at once. -/
def ByCaller (s : State τ) : Prop :=
  ∀ (i : ℕ) (ch : ChanId) (ret : StopRet), s.calls[i]? = some (.stopBegin ch ret) → ret = .caller

theorem Cont.role_resume (ch : ChanId) (k : Cont) : (k.resume ch : Pc τ).role = k.role ch := by
  cases k with
  | process => rfl
  | stopDrain tdComplete ret => cases tdComplete <;> rfl
  | stopClean => rfl

theorem chanStates_update {channels : ChanId → Option CpdmaChan} (ch : ChanId)
    (chan : CpdmaChan) : chanStates (Function.update channels ch (some chan)) =
      Function.update (chanStates channels) ch (some chan.state) := by
  funext ch'
  unfold chanStates
  by_cases h : ch' = ch
  · rw [h, Function.update_self, Function.update_self, Option.map_some]
  · rw [Function.update_of_ne h, Function.update_of_ne h]

theorem chanStates_keep {channels : ChanId → Option CpdmaChan} {chan' : CpdmaChan}
    (hch : channels ch = some chan) (hstate : chan'.state = chan.state) :
    chanStates (Function.update channels ch (some chan')) = chanStates channels := by
  have hold : chanStates channels ch = some chan'.state := by
    unfold chanStates
    rw [hch, Option.map_some, hstate]
  rw [chanStates_update, ← hold, Function.update_eq_self]

theorem roles_set {calls : List (Pc τ)} {pc : Pc τ} (hi : calls[i]? = some pc) (pc' : Pc τ) :
    (fun j : ℕ => (((calls.set i pc')[j]?).map Pc.role).getD {}) =
      Function.update (fun j : ℕ => ((calls[j]?).map Pc.role).getD {}) i pc'.role := by
  funext j
  by_cases h : j = i
  · rw [h, Function.update_self, getElem?_set_self hi]
    rfl
  · rw [Function.update_of_ne h, List.getElem?_set_ne (Ne.symm h)]

theorem roles_spawn (calls : List (Pc τ)) (pc : Pc τ) :
    (fun j : ℕ => (((calls ++ [pc])[j]?).map Pc.role).getD {}) =
      Function.update (fun j : ℕ => ((calls[j]?).map Pc.role).getD {}) calls.length pc.role := by
  funext j
  by_cases h : j = calls.length
  · rw [h, Function.update_self, List.getElem?_concat_length]
    rfl
  · rw [Function.update_of_ne h]
    by_cases hlt : j < calls.length
    · rw [List.getElem?_append_left hlt]
    · rw [List.getElem?_eq_none (by simp; omega), List.getElem?_eq_none (by omega)]

theorem lifeOf_set {pc pc' : Pc τ} (hi : s.calls[i]? = some pc)
    (hcalls : s'.calls = s.calls.set i pc') :
    lifeOf s' = Life.mk s'.ctlr.state (chanStates s'.ctlr.channels) s'.lock
      (Function.update (lifeOf s).roles i pc'.role) := by
  unfold lifeOf
  rw [hcalls, roles_set hi]

theorem lifeOf_spawn (s : State τ) (pc : Pc τ) :
    lifeOf (s.spawn pc) = (lifeOf s).setRole s.calls.length pc.role := by
  unfold lifeOf State.spawn Life.setRole
  dsimp only
  rw [roles_spawn]

theorem lifeOf_role {pc : Pc τ} (hi : s.calls[i]? = some pc) : (lifeOf s).roles i = pc.role := by
  unfold lifeOf
  dsimp only
  rw [hi]
  rfl

theorem lifeOf_role_new (s : State τ) : (lifeOf s).roles s.calls.length = {} := by
  unfold lifeOf
  dsimp only
  rw [List.getElem?_eq_none le_rfl]
  rfl

/-- No call of the driver is between seeing a channel and turning it on. -/
theorem lifeOf_unseen (s : State τ) (ch : ChanId) : (lifeOf s).Unseen ch := by
  intro i hi
  unfold lifeOf at hi
  dsimp only at hi
  cases hpc : s.calls[i]? with
  | none =>
    rw [hpc] at hi
    cases hi
  | some pc =>
    rw [hpc] at hi
    have hnone : pc.role.seen = none := by
      cases pc with
      | chanFree ch _ _ _ k => cases k <;> rfl
      | handler ch _ _ _ k => cases k <;> rfl
      | _ => rfl
    rw [Option.map_some, Option.getD_some, hnone] at hi
    cases hi

theorem lifeOf_quiet {pc pc' : Pc τ} (hi : s.calls[i]? = some pc)
    (hcalls : s'.calls = s.calls.set i pc') (hrole : pc'.role = pc.role)
    (hctlr : s'.ctlr.state = s.ctlr.state)
    (hchan : chanStates s'.ctlr.channels = chanStates s.ctlr.channels)
    (hlock : s'.lock = s.lock) : lifeOf s' = lifeOf s := by
  rw [lifeOf_set hi hcalls, hctlr, hchan, hlock, hrole, ← lifeOf_role hi, Function.update_eq_self]
  rfl

theorem lifeOf_same (hcalls : s'.calls = s.calls) (hctlr : s'.ctlr.state = s.ctlr.state)
    (hchan : chanStates s'.ctlr.channels = chanStates s.ctlr.channels)
    (hlock : s'.lock = s.lock) : lifeOf s' = lifeOf s := by
  unfold lifeOf
  rw [hcalls, hctlr, hchan, hlock]

theorem life_of_same (h : lifeOf s' = lifeOf s) :
    ReflTransGen Life.Step (lifeOf s) (lifeOf s') := by
  rw [h]

theorem processLocked_state (pool : CpdmaDescPool) (mem : ℕ → CpdmaDesc τ) (chan : CpdmaChan) :
    (cpdmaChanProcessLocked pool mem chan).1.state = chan.state := by
  unfold cpdmaChanProcessLocked
  dsimp only
  split
  · rfl
  split
  · rfl
  split <;> rfl

theorem processStep_life {pc onFail : Pc τ} {k : U32 → Cont} (hi : s.calls[i]? = some pc)
    (hch : s.ctlr.channels ch = some chan) (hfail : onFail.role = pc.role)
    (hk : ∀ status, (k status).role ch = pc.role) :
    lifeOf (processStep params s i ch chan onFail k) = lifeOf s := by
  have hstate := processLocked_state params.pool s.ctlr.mem chan
  unfold processStep
  split
  · rename_i heq
    rw [heq] at hstate
    exact lifeOf_quiet hi rfl hfail rfl (chanStates_keep hch hstate) rfl
  · rename_i status heq
    rw [heq] at hstate
    exact lifeOf_quiet hi rfl (hk status) rfl (chanStates_keep hch hstate) rfl

theorem stopCleanStep_life {ret : StopRet} (hi : s.calls[i]? = some (.stopClean ch ret))
    (hch : s.ctlr.channels ch = some chan) :
    ReflTransGen Life.Step (lifeOf s) (lifeOf (stopCleanStep params s i ch chan ret)) := by
  unfold stopCleanStep
  split
  · have hrole := lifeOf_role hi
    have hlife : lifeOf ((s.setChan ch { chan with state := .idle }).setPc i (ret.resume 0)) =
        ((lifeOf s).setChan ch .idle).setRole i { passed := ret.passed } := by
      rw [lifeOf_set hi rfl]
      dsimp only [State.setPc, State.setChan, CpdmaCtlr.setChan]
      rw [chanStates_update]
      cases ret <;> rfl
    rw [hlife]
    exact .single (.stopped hrole)
  · exact life_of_same (lifeOf_quiet hi rfl rfl rfl (chanStates_keep hch rfl) rfl)

theorem stopBeginStep_life {ret : StopRet} {pc : Pc τ} (hi : s.calls[i]? = some pc)
    (hch : s.ctlr.channels ch = some chan)
    (hpc : pc.role = {} ∧ ret = .caller ∨
      pc.role = { passed := some ch.val } ∧ ret = .ctlrStop ch.val) :
    ReflTransGen Life.Step (lifeOf s) (lifeOf (stopBeginStep s i ch chan ret)) := by
  have hrole := lifeOf_role hi
  have hold : (lifeOf s).chan ch = some chan.state := by
    dsimp only [lifeOf, chanStates]
    rw [hch, Option.map_some]
  have hnew : ∀ r : Pc τ, lifeOf (({ s with ctlr := teardownStart s.ctlr ch chan } :
      State τ).setPc i r) = ((lifeOf s).setChan ch .teardown).setRole i r.role := by
    intro r
    rw [lifeOf_set hi rfl]
    dsimp only [State.setPc, teardownStart, CpdmaCtlr.setChan]
    rw [chanStates_update]
    rfl
  unfold stopBeginStep
  split
  · rename_i hteardown
    rcases hpc with ⟨hpc, rfl⟩ | ⟨hpc, rfl⟩
    · exact life_of_same (lifeOf_quiet hi rfl hpc.symm rfl rfl rfl)
    · have hlife : lifeOf (s.setPc i ((StopRet.ctlrStop ch.val).resume (-einval))) =
          (lifeOf s).setRole i { passed := some (ch.val + 1) } := by
        rw [lifeOf_set hi rfl]
        rfl
      rw [hlife]
      refine .single (Life.Step.skip (hrole.trans hpc) fun ch' hch' => .inr ?_)
      rw [Fin.ext hch', hold, hteardown]
  · rename_i hstate
    rw [hnew]
    rcases hpc with ⟨hpc, rfl⟩ | ⟨hpc, rfl⟩
    · exact .single (.stopChan hold hstate (lifeOf_unseen s ch) (hrole.trans hpc))
    · exact .single (.stopNext hold hstate (lifeOf_unseen s ch) (hrole.trans hpc))

theorem Life.turn {l : Life} {starting : Bool} (hidle : l.chan ch = some .idle)
    (hactive : l.ctlr = .active) (hunseen : l.Unseen ch)
    (hrole : l.roles i = { starting := starting }) :
    ReflTransGen Life.Step l (l.setChan ch .active) := by
  have hturn := Life.Step.turnOn (Life.setRole_self l i { starting := starting, seen := some ch })
  have hsame : ((l.setRole i { starting := starting, seen := some ch }).setChan ch .active).setRole
      i { starting := starting } = l.setChan ch .active := by
    unfold Life.setRole Life.setChan
    dsimp only
    rw [Function.update_idem, ← hrole, Function.update_eq_self]
  rw [hsame] at hturn
  exact (ReflTransGen.single (.see hidle hactive hunseen hrole)).tail hturn

theorem cpdmaChanOn_states (params : CpdmaParams) (c : CpdmaCtlr τ) (ch : ChanId)
    (chan : CpdmaChan) :
    (cpdmaChanOn params c ch chan).1 = c ∨ chan.state = .idle ∧ c.state = .active ∧
      (cpdmaChanOn params c ch chan).1.state = .active ∧
      chanStates (cpdmaChanOn params c ch chan).1.channels =
        Function.update (chanStates c.channels) ch (some .active) := by
  unfold cpdmaChanOn
  split
  · exact .inl rfl
  split
  · exact .inl rfl
  · rename_i hidle hactive
    have hidle : chan.state = .idle := by simpa using hidle
    have hactive : c.state = .active := by simpa using hactive
    refine .inr ⟨hidle, hactive, hactive, ?_⟩
    dsimp only [CpdmaCtlr.setChan, CpdmaCtlr.dmaRegWrite]
    rw [chanStates_update, turnOn_state]

theorem lifeOf_turned {pc pc' : Pc τ} {c : CpdmaCtlr τ} {starting : Bool}
    (hi : s.calls[i]? = some pc) (hch : s.ctlr.channels ch = some chan)
    (hrole : pc.role = { starting := starting }) (hrole' : pc'.role = pc.role)
    (hstate : c.state = s.ctlr.state) (hchans : c.channels = s.ctlr.channels) :
    ReflTransGen Life.Step (lifeOf s) (lifeOf (({ s with
      ctlr := (cpdmaChanOn params c ch chan).1 } : State τ).setPc i pc')) := by
  rcases cpdmaChanOn_states params c ch chan with hsame | ⟨hidle, hactive, hstate', hstates⟩
  · refine life_of_same (lifeOf_quiet hi rfl hrole' ?_ ?_ rfl)
    · rw [← hstate]
      exact congrArg CpdmaCtlr.state hsame
    · rw [← hchans]
      exact congrArg (fun c => chanStates c.channels) hsame
  · have hlife : lifeOf (({ s with ctlr := (cpdmaChanOn params c ch chan).1 } :
        State τ).setPc i pc') = (lifeOf s).setChan ch .active := by
      rw [lifeOf_set hi rfl, hrole', ← lifeOf_role hi, Function.update_eq_self]
      dsimp only [State.setPc]
      rw [hstates, hstate', hchans, ← hactive, hstate]
      rfl
    rw [hlife]
    refine Life.turn ?_ (hstate.symm.trans hactive) (lifeOf_unseen s ch)
      ((lifeOf_role hi).trans hrole)
    dsimp only [lifeOf, chanStates]
    rw [hch, Option.map_some, hidle]

theorem ctlrStartEnd_states (params : CpdmaParams) (c : CpdmaCtlr τ) (prioMode : Bool) :
    (ctlrStartEnd params c prioMode).state = c.state ∧
      (ctlrStartEnd params c prioMode).channels = c.channels :=
  ⟨(cpdmaControlSetLocked_state _ _ _).trans (cpdmaControlSetLocked_state _ _ _),
    (cpdmaControlSetLocked_channels _ _).trans (cpdmaControlSetLocked_channels _ _)⟩

theorem ctlrStartStep_life {j : ℕ} {prioMode : Bool}
    (hi : s.calls[i]? = some (.ctlrStart j prioMode))
    (hst : advance params s i (.ctlrStart j prioMode) = some s') :
    ReflTransGen Life.Step (lifeOf s) (lifeOf s') := by
  simp only [advance] at hst
  split at hst
  · split at hst
    · obtain rfl := Option.some.inj hst
      exact life_of_same (lifeOf_quiet hi rfl rfl rfl rfl rfl)
    · rename_i hch
      obtain rfl := Option.some.inj hst
      exact lifeOf_turned hi hch rfl rfl (cpdmaChanSetChanShaper_state _ _ _)
        cpdmaChanSetChanShaper_channels
  · obtain rfl := Option.some.inj hst
    obtain ⟨hstate, hchans⟩ := ctlrStartEnd_states params s.ctlr prioMode
    have hlife : lifeOf (({ s with
        ctlr := ctlrStartEnd params s.ctlr prioMode, lock := none } : State τ).setPc i (.done 0)) =
        { lifeOf s with lock := none }.setRole i {} := by
      rw [lifeOf_set hi rfl]
      dsimp only [State.setPc]
      rw [hstate, hchans]
      rfl
    rw [hlife]
    exact .single (.endStart (lifeOf_role hi))

theorem ctlrStopStep_life {j : ℕ} (hi : s.calls[i]? = some (.ctlrStop j))
    (hst : advance params s i (.ctlrStop j) = some s') :
    ReflTransGen Life.Step (lifeOf s) (lifeOf s') := by
  simp only [advance] at hst
  split at hst
  · rename_i hlt
    split at hst
    · rename_i hnone
      obtain rfl := Option.some.inj hst
      have hlife : lifeOf (s.setPc i (.ctlrStop (j + 1))) =
          (lifeOf s).setRole i { passed := some (j + 1) } := by
        rw [lifeOf_set hi rfl]
        rfl
      rw [hlife]
      refine .single (Life.Step.skip (lifeOf_role hi) fun ch hch => .inl ?_)
      obtain rfl : ch = ⟨j, hlt⟩ := Fin.ext hch
      dsimp only [lifeOf, chanStates]
      rw [hnone, Option.map_none]
    · rename_i hch
      obtain rfl := Option.some.inj hst
      exact stopBeginStep_life hi hch (.inr ⟨rfl, rfl⟩)
  · rename_i hge
    split at hst
    · rename_i hlock
      obtain rfl := Option.some.inj hst
      have hlife : lifeOf (({ s with ctlr := ctlrStopEnd s.ctlr } : State τ).setPc i (.done 0)) =
          { lifeOf s with ctlr := .idle }.setRole i {} := by
        rw [lifeOf_set hi rfl]
        rfl
      rw [hlife]
      exact .single (.endStop (lifeOf_role hi) (by omega) hlock)
    · cases hst

/-- A section of a call is matched by steps of the life cycles. -/
theorem advance_life {pc : Pc τ} (hcaller : ByCaller s) (hi : s.calls[i]? = some pc)
    (hst : advance params s i pc = some s') :
    ReflTransGen Life.Step (lifeOf s) (lifeOf s') := by
  cases pc with
  | done ret => cases hst
  | process ch quota used =>
    simp only [advance] at hst
    split at hst
    · obtain ⟨chan, hch, rfl⟩ := Option.map_eq_some_iff.mp hst
      exact life_of_same (processStep_life hi hch rfl fun _ => rfl)
    · obtain rfl := Option.some.inj hst
      exact life_of_same (lifeOf_quiet hi rfl rfl rfl rfl rfl)
  | chanFree ch desc outlen status k =>
    obtain rfl := Option.some.inj hst
    exact life_of_same (lifeOf_quiet hi rfl rfl rfl rfl rfl)
  | handler ch item outlen status k =>
    obtain rfl := Option.some.inj hst
    exact life_of_same (lifeOf_quiet hi rfl (k.role_resume ch) rfl rfl rfl)
  | stopBegin ch ret =>
    obtain ⟨chan, hch, rfl⟩ := Option.map_eq_some_iff.mp hst
    exact stopBeginStep_life hi hch (.inl ⟨rfl, hcaller i ch ret hi⟩)
  | stopDrain ch ret =>
    obtain ⟨chan, hch, rfl⟩ := Option.map_eq_some_iff.mp hst
    exact life_of_same (processStep_life hi hch rfl fun _ => rfl)
  | stopClean ch ret =>
    obtain ⟨chan, hch, rfl⟩ := Option.map_eq_some_iff.mp hst
    exact stopCleanStep_life hi hch
  | chanOn ch =>
    obtain ⟨chan, hch, rfl⟩ := Option.map_eq_some_iff.mp hst
    have hrole : (Pc.chanOn ch : Pc τ).role = { starting := false } := rfl
    exact lifeOf_turned hi hch hrole rfl rfl rfl
  | ctlrStart j prioMode => exact ctlrStartStep_life hi hst
  | ctlrStop j => exact ctlrStopStep_life hi hst

theorem QuotaOnly.states {f g : ChanId → Option CpdmaChan} (h : QuotaOnly f g) :
    chanStates g = chanStates f := by
  funext ch
  obtain ⟨n, hn⟩ := h ch
  unfold chanStates
  rw [hn, Option.map_map]
  rfl

theorem cpdmaChanSplitPool_states (c : CpdmaCtlr τ) :
    (cpdmaChanSplitPool c).1.state = c.state ∧
      chanStates (cpdmaChanSplitPool c).1.channels = chanStates c.channels := by
  obtain ⟨channels, hquota, heq⟩ := cpdmaChanSplitPool_frame c
  rw [heq]
  exact ⟨rfl, hquota.states⟩

theorem cpdmaChanSetWeight_states {c : CpdmaCtlr τ} (hch : c.channels ch = some chan)
    (weight : ℤ) : (cpdmaChanSetWeight c ch chan weight).1.state = c.state ∧
      chanStates (cpdmaChanSetWeight c ch chan weight).1.channels = chanStates c.channels := by
  unfold cpdmaChanSetWeight
  split
  · exact ⟨rfl, rfl⟩
  · obtain ⟨hstate, hchans⟩ :=
      cpdmaChanSplitPool_states (c.setChan ch { chan with weight := weight })
    exact ⟨hstate, hchans.trans (chanStates_keep hch rfl)⟩

theorem cpdmaSetNumRxDescs_quotaOnly (params : CpdmaParams) (c : CpdmaCtlr τ)
    (numRxDesc : ℤ) :
    QuotaOnly c.channels (cpdmaSetNumRxDescs params.pool c numRxDesc).1.channels := by
  obtain ⟨channels, hquota, heq⟩ := cpdmaChanSplitPool_frame
    { c with numRxDesc := numRxDesc, numTxDesc := params.pool.numDesc - numRxDesc }
  have hchans : (cpdmaSetNumRxDescs params.pool c numRxDesc).1.channels = channels := by
    unfold cpdmaSetNumRxDescs
    dsimp only
    split <;>
    · dsimp only
      rw [heq]
  rw [hchans]
  exact hquota

theorem cpdmaSetNumRxDescs_states (params : CpdmaParams) (c : CpdmaCtlr τ) (numRxDesc : ℤ) :
    (cpdmaSetNumRxDescs params.pool c numRxDesc).1.state = c.state ∧
      chanStates (cpdmaSetNumRxDescs params.pool c numRxDesc).1.channels =
        chanStates c.channels := by
  have hsplit := cpdmaChanSplitPool_states
    { c with numRxDesc := numRxDesc, numTxDesc := params.pool.numDesc - numRxDesc }
  unfold cpdmaSetNumRxDescs
  dsimp only
  split <;> exact hsplit

theorem cpdmaChanCreate_states (params : CpdmaParams) (c : CpdmaCtlr τ) (ch : ChanId)
    (zalloc : Bool) :
    (cpdmaChanCreate params c ch zalloc).1 = c ∨ c.channels ch = none ∧
      (cpdmaChanCreate params c ch zalloc).1.state = c.state ∧
      chanStates (cpdmaChanCreate params c ch zalloc).1.channels =
        Function.update (chanStates c.channels) ch (some .idle) := by
  unfold cpdmaChanCreate
  split
  · exact .inl rfl
  split
  · exact .inl rfl
  split
  · exact .inl rfl
  · rename_i hnone
    obtain ⟨hstate, hchans⟩ :=
      cpdmaChanSplitPool_states { c.setChan ch {} with chanNum := c.chanNum + 1 }
    refine .inr ⟨Option.not_isSome_iff_eq_none.mp hnone, hstate, hchans.trans ?_⟩
    dsimp only [CpdmaCtlr.setChan]
    rw [chanStates_update]

theorem submitStep_life {kind : SubmitKind} {args : SubmitArgs τ} {mapped : Option U32}
    (hch : s.ctlr.channels ch = some chan) :
    lifeOf (submitStep params s kind ch chan args mapped).1 = lifeOf s := by
  by_cases hret : (submitStep params s kind ch chan args mapped).2 = 0
  · obtain ⟨c, chan', hs', hstate, hchans, -, -, hchan⟩ := submitStep_grows hret
    rw [hs']
    refine lifeOf_same rfl hstate ?_ rfl
    dsimp only [State.accept, CpdmaCtlr.setChan]
    rw [hchans]
    exact chanStates_keep hch hchan
  · obtain ⟨stats, hs'⟩ := submitStep_refused hch hret
    rw [hs']
    exact lifeOf_same rfl rfl (chanStates_keep hch rfl) rfl

theorem ctlrStartBegin_states (params : CpdmaParams) (c : CpdmaCtlr τ) :
    (ctlrStartBegin params c).state = .active ∧
      chanStates (ctlrStartBegin params c).channels = chanStates c.channels := by
  have hchans : (ctlrStartBegin params c).channels = zeroHdp params c.channels := by
    unfold ctlrStartBegin
    split <;> rfl
  refine ⟨rfl, ?_⟩
  rw [hchans]
  funext ch
  unfold chanStates zeroHdp
  split
  · rw [Option.map_map]
    rfl
  · rfl

theorem spawn_life {c : CpdmaCtlr τ} {pc : Pc τ} (hctlr : c.state = s.ctlr.state)
    (hchan : chanStates c.channels = chanStates s.ctlr.channels) (hrole : pc.role = {}) :
    lifeOf (({ s with ctlr := c } : State τ).spawn pc) = lifeOf s := by
  have hsame : lifeOf ({ s with ctlr := c } : State τ) = lifeOf s :=
    lifeOf_same rfl hctlr hchan rfl
  rw [lifeOf_spawn, hsame, hrole]
  unfold Life.setRole
  rw [← lifeOf_role_new s, Function.update_eq_self]

/-- Every step of the driver is matched by steps of the life cycles. -/
theorem step_life {op : Op τ} (hcaller : ByCaller s) (hst : step params s op = some s') :
    ReflTransGen Life.Step (lifeOf s) (lifeOf s') := by
  cases op with
  | submit kind ch args mapped =>
    obtain ⟨chan, hch, rfl⟩ := Option.map_eq_some_iff.mp hst
    exact life_of_same (submitStep_life hch)
  | engine desc hwMode hwLen =>
    obtain rfl := Option.some.inj hst
    exact life_of_same (lifeOf_same rfl rfl rfl rfl)
  | engineHdp ch hdp =>
    obtain ⟨chan, hch, rfl⟩ := Option.map_eq_some_iff.mp hst
    exact life_of_same (lifeOf_same rfl rfl (chanStates_keep hch rfl) rfl)
  | chanProcess ch quota =>
    obtain ⟨chan, hch, rfl⟩ := Option.map_eq_some_iff.mp hst
    refine life_of_same (spawn_life rfl rfl ?_)
    split <;> rfl
  | chanStop ch =>
    obtain ⟨chan, hch, rfl⟩ := Option.map_eq_some_iff.mp hst
    exact life_of_same (spawn_life rfl rfl rfl)
  | chanStart ch =>
    obtain ⟨-, chan, hch, rfl⟩ := step_chanStart hst
    refine life_of_same (spawn_life (cpdmaChanSetChanShaper_state _ _ _)
      (congrArg chanStates cpdmaChanSetChanShaper_channels) ?_)
    split <;> rfl
  | ctlrStart =>
    obtain ⟨hlock, ⟨-, rfl⟩ | ⟨hidle, rfl⟩⟩ := step_ctlrStart hst
    · exact life_of_same (spawn_life rfl rfl rfl)
    · obtain ⟨hstate, hchans⟩ := ctlrStartBegin_states params s.ctlr
      rw [lifeOf_spawn]
      have hlife : lifeOf ({ s with
          ctlr := ctlrStartBegin params s.ctlr, lock := some s.calls.length } : State τ) =
          { lifeOf s with ctlr := .active, lock := some s.calls.length } := by
        unfold lifeOf
        dsimp only
        rw [hstate, hchans]
      rw [hlife]
      exact .single (.startCtlr hlock hidle (lifeOf_role_new s))
  | ctlrStop =>
    obtain ⟨hlock, ⟨-, rfl⟩ | ⟨hactive, rfl⟩⟩ := step_ctlrStop hst
    · exact life_of_same (spawn_life rfl rfl rfl)
    · rw [lifeOf_spawn]
      exact .single (.stopCtlr hlock hactive (lifeOf_role_new s))
  | chanCreate ch zalloc =>
    simp only [step] at hst
    split at hst
    · cases hst
    rename_i hlock
    have hlock : s.lock = none := by simpa using hlock
    obtain rfl := Option.some.inj hst
    rcases cpdmaChanCreate_states params s.ctlr ch zalloc with
      hsame | ⟨hnone, hstate, hchans⟩
    · rw [hsame]
    · have hlife : lifeOf ({ s with ctlr := (cpdmaChanCreate params s.ctlr ch zalloc).1 } :
          State τ) = (lifeOf s).setChan ch .idle := by
        unfold lifeOf Life.setChan
        dsimp only
        rw [hstate, hchans]
      rw [hlife]
      refine .single (.create hlock ?_)
      dsimp only [lifeOf, chanStates]
      rw [hnone, Option.map_none]
  | setWeight ch weight =>
    simp only [step] at hst
    split at hst
    · cases hst
    · obtain ⟨chan, hch, rfl⟩ := Option.map_eq_some_iff.mp hst
      obtain ⟨hstate, hchans⟩ := cpdmaChanSetWeight_states hch weight
      exact life_of_same (lifeOf_same rfl hstate hchans rfl)
  | setNumRxDescs numRxDesc =>
    simp only [step] at hst
    split at hst
    · cases hst
    · obtain rfl := Option.some.inj hst
      obtain ⟨hstate, hchans⟩ := cpdmaSetNumRxDescs_states params s.ctlr numRxDesc
      exact life_of_same (lifeOf_same rfl hstate hchans rfl)
  | advance i =>
    obtain ⟨pc, hi, hst⟩ := Option.bind_eq_some_iff.mp hst
    exact advance_life hcaller hi hst

theorem step_byCaller {op : Op τ} (h : ByCaller s) (hst : step params s op = some s') :
    ByCaller s' := by
  have hspawn : ∀ {c : CpdmaCtlr τ} {lock : Option ℕ} {pc : Pc τ},
      (∀ ch ret, pc = .stopBegin ch ret → ret = .caller) →
      ByCaller (({ s with ctlr := c, lock := lock } : State τ).spawn pc) := by
    intro c lock pc hpc j ch ret hj
    rcases getElem?_spawn_cases hj with ⟨-, heq⟩ | hold
    · exact hpc ch ret heq.symm
    · exact h j ch ret hold
  cases op with
  | submit kind ch args mapped =>
    obtain ⟨chan, hch, rfl⟩ := Option.map_eq_some_iff.mp hst
    by_cases hret : (submitStep params s kind ch chan args mapped).2 = 0
    · obtain ⟨c, chan', hs', -⟩ := submitStep_grows hret
      rw [hs']
      exact h
    · obtain ⟨stats, hs'⟩ := submitStep_refused hch hret
      rw [hs']
      exact h
  | engine desc hwMode hwLen =>
    obtain rfl := Option.some.inj hst
    exact h
  | engineHdp ch hdp =>
    obtain ⟨chan, -, rfl⟩ := Option.map_eq_some_iff.mp hst
    exact h
  | chanProcess ch quota =>
    obtain ⟨chan, -, rfl⟩ := Option.map_eq_some_iff.mp hst
    refine hspawn fun ch ret heq => ?_
    split at heq <;> cases heq
  | chanStop ch =>
    obtain ⟨chan, -, rfl⟩ := Option.map_eq_some_iff.mp hst
    exact hspawn fun ch ret heq => (Pc.stopBegin.inj heq).2.symm
  | chanStart ch =>
    obtain ⟨-, chan, -, rfl⟩ := step_chanStart hst
    refine hspawn fun ch ret heq => ?_
    split at heq <;> cases heq
  | ctlrStart =>
    obtain ⟨-, ⟨-, rfl⟩ | ⟨-, rfl⟩⟩ := step_ctlrStart hst
    · exact hspawn fun _ _ heq => by cases heq
    · exact hspawn fun _ _ heq => by cases heq
  | ctlrStop =>
    obtain ⟨-, ⟨-, rfl⟩ | ⟨-, rfl⟩⟩ := step_ctlrStop hst
    · exact hspawn fun _ _ heq => by cases heq
    · exact hspawn fun _ _ heq => by cases heq
  | chanCreate ch zalloc =>
    obtain ⟨c, -, rfl⟩ := step_resplit rfl hst
    exact h
  | setWeight ch weight =>
    obtain ⟨c, -, rfl⟩ := step_resplit rfl hst
    exact h
  | setNumRxDescs numRxDesc =>
    obtain ⟨c, -, rfl⟩ := step_resplit rfl hst
    exact h
  | advance k =>
    obtain ⟨pc, -, hst⟩ := Option.bind_eq_some_iff.mp hst
    obtain ⟨pc', hcalls, hbegins⟩ := advance_calls hst
    intro j ch ret hj
    rw [hcalls] at hj
    rcases getElem?_set_cases hj with ⟨-, rfl⟩ | ⟨-, hold⟩
    · cases hbegins
    · exact h j ch ret hold

/-- The driver runs within the life cycles. -/
theorem simulates_life (params : CpdmaParams) (ok : State τ → Op τ → Prop) :
    Simulates (step params) ok Life.Step lifeOf ByCaller where
  keeps _ _ _ h _ hst := step_byCaller h hst
  matched _ _ _ h _ hst := step_life h hst

structure Roles (s : State τ) : Prop where
  byCaller : ByCaller s
  life : (lifeOf s).Inv

theorem Roles.initial (hinit : Initial params s) (hidle : s.ctlr.state = .idle) : Roles s where
  byCaller i ch ret hi := by
    rw [hinit.calls] at hi
    cases hi
  life := by
    refine Life.Inv.initial hidle (fun ch state hch => ?_) hinit.lock fun i => ?_
    · obtain ⟨chan, hold, rfl⟩ := Option.map_eq_some_iff.mp hch
      exact (hinit.chans ch chan hold).2.2
    · dsimp only [lifeOf]
      rw [hinit.calls]
      rfl

theorem Roles.of_run {ok : State τ → Op τ → Prop} {ls : List (Op τ)} (h : Roles s)
    (hrun : Run (step params) ok s ls s') : Roles s' where
  byCaller := (hrun.matched (simulates_life params ok) h.byCaller).1
  life := hrun.abstract_invariant (simulates_life params ok) (fun _ _ => Life.Inv.step) h.byCaller
    h.life

theorem Roles.step {op : Op τ} (h : Roles s) (hst : Cpdma.step params s op = some s') :
    Roles s' :=
  h.of_run (.cons (anyStep_true _ _) hst (.nil _))

theorem Roles.not_active (h : Roles s) (hidle : s.ctlr.state = .idle)
    (hch : s.ctlr.channels ch = some chan) : chan.state ≠ .active := by
  intro hactive
  refine h.life.activity.idle hidle ch ?_
  dsimp only [lifeOf, chanStates]
  rw [hch, Option.map_some, hactive]

/-- A channel in teardown has a call that tears it down. -/
theorem Roles.stopper (h : Roles s) (hch : s.ctlr.channels ch = some chan)
    (hteardown : chan.state = .teardown) :
    ∃ (i : ℕ) (pc : Pc τ), s.calls[i]? = some pc ∧ pc.role.stopping = some ch := by
  obtain ⟨i, hi⟩ := h.life.teardowns.teardown ch (by
    dsimp only [lifeOf, chanStates]
    rw [hch, Option.map_some, hteardown])
  dsimp only [lifeOf] at hi
  cases hpc : s.calls[i]? with
  | none =>
    rw [hpc] at hi
    cases hi
  | some pc =>
    rw [hpc] at hi
    exact ⟨i, pc, hpc, hi⟩

def Op.onChannel : Op τ → Bool
  | .submit .. | .chanProcess .. | .chanStop .. | .chanStart .. | .chanCreate .. | .setWeight .. =>
    true
  | .engine .. | .engineHdp .. | .ctlrStart | .ctlrStop | .setNumRxDescs _ | .advance _ => false

theorem lenOk_of_offChannel {op : Op τ} (hop : op.onChannel = false) : LenOk s op := by
  cases op with
  | submit kind ch args mapped => cases hop
  | _ => trivial

def StopRet.isCaller : StopRet → Bool
  | .caller => true
  | .ctlrStop _ => false

def Cont.onChannel : Cont → Bool
  | .process _ _ => true
  | .stopDrain _ ret | .stopClean ret => ret.isCaller

/-- A call in progress that is an operation on one channel. -/
def Pc.onChannel : Pc τ → Bool
  | .process .. | .stopBegin .. | .chanOn _ => true
  | .stopDrain _ ret | .stopClean _ ret => ret.isCaller
  | .chanFree _ _ _ _ k | .handler _ _ _ _ k => k.onChannel
  | .done _ | .ctlrStart .. | .ctlrStop _ => false

def NoneOnChannel (s : State τ) : Prop := ∀ pc ∈ s.calls, pc.onChannel = false

theorem Pc.isDone_of_role {pc : Pc τ} (hpc : pc.onChannel = false)
    (hstarting : pc.role.starting = false) (hpassed : pc.role.passed = none) :
    pc.isDone = true := by
  cases pc with
  | done ret => rfl
  | ctlrStart j prioMode => cases hstarting
  | ctlrStop j => cases hpassed
  | stopDrain ch ret =>
    cases ret with
    | caller => cases hpc
    | ctlrStop j => cases hpassed
  | stopClean ch ret =>
    cases ret with
    | caller => cases hpc
    | ctlrStop j => cases hpassed
  | chanFree ch desc outlen status k =>
    rcases k with ⟨_, _⟩ | ⟨_, _ | _⟩ | ⟨_ | _⟩
    · cases hpc
    · cases hpc
    · cases hpassed
    · cases hpc
    · cases hpassed
  | handler ch item outlen status k =>
    rcases k with ⟨_, _⟩ | ⟨_, _ | _⟩ | ⟨_ | _⟩
    · cases hpc
    · cases hpc
    · cases hpassed
    · cases hpc
    · cases hpassed
  | _ => cases hpc

/-- When the controller is neither being started nor stopped, every call has returned. -/
theorem Roles.all_done (h : Roles s) (hnone : NoneOnChannel s) (hlock : s.lock = none)
    (hctlr : s.ctlr.state ≠ .teardown) (j : ℕ) (pc : Pc τ) (hj : s.calls[j]? = some pc) :
    pc.isDone = true := by
  have hrole := lifeOf_role hj
  refine pc.isDone_of_role (hnone pc (List.mem_of_getElem? hj)) ?_ ?_
  · have hstart := h.life.control.not_starting hlock j
    rw [hrole] at hstart
    exact Bool.eq_false_of_not_eq_true hstart
  · have hpassed := h.life.control.not_passed hctlr j
    rw [hrole] at hpassed
    exact Option.eq_none_iff_forall_ne_some.mpr hpassed

def OthersDone (i : ℕ) (s : State τ) : Prop :=
  ∀ (j : ℕ) (pc : Pc τ), j ≠ i → s.calls[j]? = some pc → pc.isDone = true

theorem OthersDone.spawn {c : CpdmaCtlr τ} (h : OthersDone i s) {ret : ℤ} :
    OthersDone i (({ s with ctlr := c } : State τ).spawn (.done ret)) := by
  intro j pc hj hpc
  rcases getElem?_spawn_cases hpc with ⟨-, rfl⟩ | hold
  · rfl
  · exact h j pc hj hold

theorem OthersDone.advance {pc : Pc τ} (h : OthersDone i s)
    (hst : Cpdma.advance params s i pc = some s') : OthersDone i s' := by
  obtain ⟨pc', hcalls, -⟩ := advance_calls hst
  intro j pc'' hj hpc''
  rw [hcalls, List.getElem?_set_ne (Ne.symm hj)] at hpc''
  exact h j pc'' hj hpc''

theorem advance_done {pc : Pc τ} (hdone : pc.isDone = true) : advance params s i pc = none := by
  cases pc with
  | done ret => rfl
  | _ => cases hdone

theorem spawn_getElem?_old {s : State τ} {pc pc' : Pc τ} (hi : s.calls[i]? = some pc) :
    (s.spawn pc').calls[i]? = some pc := by
  obtain ⟨hlt, -⟩ := List.getElem?_eq_some_iff.mp hi
  unfold State.spawn
  dsimp only
  rw [List.getElem?_append_left hlt, hi]

/-- The stop of the controller is under way in call `i`, and nothing else but the engine is. -/
structure Walking (i : ℕ) (s : State τ) : Prop where
  stopping : ∃ j m, Stopping i j m s
  teardown : s.ctlr.state = .teardown
  others : OthersDone i s

def Returned (i : ℕ) (s : State τ) : Prop := ∃ ret, s.calls[i]? = some (.done ret)

theorem Returned.step {op : Op τ} (h : Returned i s) (hop : op.onChannel = false)
    (hst : Cpdma.step params s op = some s') : Returned i s' := by
  obtain ⟨ret, hi⟩ := h
  have hspawn : ∀ {c : CpdmaCtlr τ} {lock : Option ℕ} {pc : Pc τ},
      Returned i (({ s with ctlr := c, lock := lock } : State τ).spawn pc) :=
    ⟨ret, spawn_getElem?_old hi⟩
  cases op with
  | engine desc hwMode hwLen =>
    obtain rfl := Option.some.inj hst
    exact ⟨ret, hi⟩
  | engineHdp ch hdp =>
    obtain ⟨chan, -, rfl⟩ := Option.map_eq_some_iff.mp hst
    exact ⟨ret, hi⟩
  | ctlrStart =>
    obtain ⟨-, ⟨-, rfl⟩ | ⟨-, rfl⟩⟩ := step_ctlrStart hst
    · exact hspawn
    · exact hspawn
  | ctlrStop =>
    obtain ⟨-, ⟨-, rfl⟩ | ⟨-, rfl⟩⟩ := step_ctlrStop hst
    · exact hspawn
    · exact hspawn
  | setNumRxDescs numRxDesc =>
    obtain ⟨c, -, rfl⟩ := step_resplit rfl hst
    exact ⟨ret, hi⟩
  | advance j =>
    obtain ⟨pc, hj, hst⟩ := Option.bind_eq_some_iff.mp hst
    obtain ⟨pc', hcalls, -⟩ := advance_calls hst
    have hne : j ≠ i := by
      rintro rfl
      obtain rfl := Option.some.inj (hi.symm.trans hj)
      cases hst
    refine ⟨ret, ?_⟩
    rw [hcalls, List.getElem?_set_ne hne, hi]
  | _ => cases hop

/-- A section of the stop that does not end it leaves it under way. -/
theorem Walking.advance (h : Walking i s) (hroles : Roles s')
    (hst : Cpdma.step params s (.advance i) = some s') : Walking i s' ∨ Returned i s' := by
  obtain ⟨j, m, hstop⟩ := h.stopping
  obtain ⟨pc, hi, hadv⟩ := Option.bind_eq_some_iff.mp hst
  obtain ⟨j', m', hstop'⟩ := hstop.advance hi hadv
  obtain ⟨pc', hi', hpc', -⟩ := hstop'.pc
  by_cases hdone : ∃ ret, pc' = .done ret
  · obtain ⟨ret, rfl⟩ := hdone
    exact .inr ⟨ret, hi'⟩
  · refine .inl ⟨⟨j', m', hstop'⟩, ?_, h.others.advance hadv⟩
    have hrole := lifeOf_role hi'
    have hpassed : ∃ n, pc'.role.passed = some n := by
      cases pc' with
      | done ret => exact absurd ⟨ret, rfl⟩ hdone
      | ctlrStop n => exact ⟨n, rfl⟩
      | stopDrain ch ret =>
        obtain ⟨-, rfl, -⟩ := hpc'
        exact ⟨_, rfl⟩
      | stopClean ch ret =>
        obtain ⟨-, rfl, -⟩ := hpc'
        exact ⟨_, rfl⟩
      | chanFree ch desc outlen status k =>
        obtain ⟨-, hk, -⟩ := hpc'
        cases k with
        | process => exact hk.elim
        | stopDrain tdComplete ret =>
          obtain rfl := hk
          exact ⟨_, rfl⟩
        | stopClean ret =>
          obtain rfl := hk
          exact ⟨_, rfl⟩
      | handler ch item outlen status k =>
        obtain ⟨-, hk, -⟩ := hpc'
        cases k with
        | process => exact hk.elim
        | stopDrain tdComplete ret =>
          obtain rfl := hk
          exact ⟨_, rfl⟩
        | stopClean ret =>
          obtain rfl := hk
          exact ⟨_, rfl⟩
      | _ => exact hpc'.elim
    obtain ⟨n, hn⟩ := hpassed
    exact hroles.life.control.walks i n (by rw [hrole, hn])

theorem Walking.step {op : Op τ} (h : Walking i s) (hroles : Roles s') (hop : op.onChannel = false)
    (hst : Cpdma.step params s op = some s') : Walking i s' ∨ Returned i s' := by
  obtain ⟨j, m, hstop⟩ := h.stopping
  obtain ⟨pc, hi, -⟩ := hstop.pc
  have hengine : ∀ {op : Op τ}, op.isEngine = true → Cpdma.step params s op = some s' →
      Walking i s' := by
    intro op hop hst
    have hok : AloneOk s.calls.length s op := by
      cases op with
      | engine => trivial
      | engineHdp => trivial
      | _ => cases hop
    rcases alone_cases hok hst with he | ⟨pc, hpc, -⟩
    · refine ⟨⟨j, m, hstop.engine he⟩, he.state.trans h.teardown, ?_⟩
      intro k pc' hk hpc'
      rw [he.calls] at hpc'
      exact h.others k pc' hk hpc'
    · rw [List.getElem?_eq_none le_rfl] at hpc
      cases hpc
  have hrefused : ∀ ret : ℤ, Walking i (s.spawn (.done ret)) := by
    intro ret
    refine ⟨⟨j, m, hstop.frame rfl ?_ rfl fun ch chan hch => ⟨chan, hch, rfl, rfl⟩⟩, h.teardown,
      h.others.spawn⟩
    rw [spawn_getElem?_old hi, hi]
  cases op with
  | engine desc hwMode hwLen => exact .inl (hengine rfl hst)
  | engineHdp ch hdp => exact .inl (hengine rfl hst)
  | ctlrStart =>
    simp only [Cpdma.step] at hst
    rw [if_neg (not_not.mpr hstop.lock), if_pos (by rw [h.teardown]; decide)] at hst
    obtain rfl := Option.some.inj hst
    exact .inl (hrefused _)
  | ctlrStop =>
    simp only [Cpdma.step] at hst
    rw [if_neg (not_not.mpr hstop.lock), if_pos (by rw [h.teardown]; decide)] at hst
    obtain rfl := Option.some.inj hst
    exact .inl (hrefused _)
  | setNumRxDescs numRxDesc =>
    simp only [Cpdma.step] at hst
    rw [if_neg (not_not.mpr hstop.lock)] at hst
    obtain rfl := Option.some.inj hst
    obtain ⟨hstate, -⟩ := cpdmaSetNumRxDescs_states params s.ctlr numRxDesc
    refine .inl ⟨⟨j, m, hstop.frame rfl rfl hstate fun ch chan' hch => ?_⟩,
      hstate.trans h.teardown, h.others⟩
    obtain ⟨n, hn⟩ := cpdmaSetNumRxDescs_quotaOnly params s.ctlr numRxDesc ch
    rw [hn] at hch
    obtain ⟨chan, hold, rfl⟩ := Option.map_eq_some_iff.mp hch
    exact ⟨chan, hold, rfl, rfl⟩
  | advance k =>
    by_cases hk : k = i
    · subst hk
      exact h.advance hroles hst
    · obtain ⟨pc', hpc', hadv⟩ := Option.bind_eq_some_iff.mp hst
      rw [advance_done (h.others k pc' hk hpc')] at hadv
      cases hadv
  | _ => cases hop

/-- When cpdma_ctlr_stop returns 0 without a channel operation in its way, every channel is
idle and empty. -/
theorem ctlrStop_returns {s₁ u t : State τ} {ls : List (Op τ)} (h : Roles s)
    (hnone : NoneOnChannel s) (hs₁ : Cpdma.step params s .ctlrStop = some s₁)
    (hrun : Run (Cpdma.step params) (fun _ op => op.onChannel = false) s₁ ls u)
    (hlast : Cpdma.step params u (.advance s.calls.length) = some t)
    (hret : t.calls[s.calls.length]? = some (.done 0)) (hch : t.ctlr.channels ch = some chan) :
    chan.state = .idle ∧ chan.head = 0 := by
  have hroles₁ : Roles s₁ := h.step hs₁
  have hend : (Walking s.calls.length u ∨ Returned s.calls.length u) ∧ Roles u := by
    refine hrun.invariant (I := fun u => (Walking s.calls.length u ∨ Returned s.calls.length u) ∧
      Roles u) (fun u op v hu hop hst => ?_) ⟨?_, hroles₁⟩
    · have hv : Roles v := hu.2.step hst
      rcases hu.1 with hwalk | hreturned
      · exact ⟨hwalk.step hv hop hst, hv⟩
      · exact ⟨.inr (hreturned.step hop hst), hv⟩
    · obtain ⟨hlock, ⟨-, rfl⟩ | ⟨hactive, rfl⟩⟩ := step_ctlrStop hs₁
      · exact .inr ⟨_, spawn_getElem? _ _⟩
      · have hdone := h.all_done hnone hlock (by rw [hactive]; decide)
        refine .inl ⟨⟨0, 0, hlock, ⟨_, spawn_getElem? _ _, ⟨rfl, rfl⟩, Bool.noConfusion⟩,
          fun _ _ hlt => absurd hlt (Nat.not_lt_zero _), fun ch chan _ hch hteardown => ?_⟩, rfl,
          fun j pc hj hpc => ?_⟩
        · obtain ⟨j, pc, hj, hpc⟩ := h.stopper hch hteardown
          have hpcdone := hdone j pc hj
          cases pc with
          | done ret => cases hpc
          | _ => cases hpcdone
        · rcases getElem?_spawn_cases hpc with ⟨heq, -⟩ | hold
          · exact absurd heq hj
          · exact hdone j pc hold
  obtain ⟨pc, hpc, hadv⟩ := Option.bind_eq_some_iff.mp hlast
  rcases hend.1 with hwalk | ⟨ret, hdone⟩
  · obtain ⟨j, m, hstop⟩ := hwalk.stopping
    obtain ⟨j', m', hstop'⟩ := hstop.advance hpc hadv
    obtain ⟨pc', hpc', hstops, -⟩ := hstop'.pc
    obtain rfl := Option.some.inj (hret.symm.trans hpc')
    have hlt := ch.isLt
    obtain ⟨hhead, hidle⟩ := hstop'.before ch chan (by have := hstops.1; omega) hch
    exact ⟨hidle, hhead⟩
  · obtain rfl := Option.some.inj (hdone.symm.trans hpc)
    cases hadv

/-- The engine rewrites the head pointer register of the channel. -/
def Op.writesHdp (ch : ChanId) : Op τ → Bool
  | .engineHdp ch' _ => ch' = ch
  | _ => false

/-- The head pointer register leads to the queue, if there is one. -/
def HdpAtHead (params : CpdmaParams) (chan : CpdmaChan) : Prop :=
  chan.head ≠ 0 → chan.hdp = hwPtr params.pool chan.head

/-- The start of the controller is under way in call `i` and has come to channel `j`; the
engine leaves the registers of the channels in `kept` alone. -/
structure TurningOn (params : CpdmaParams) (kept : ChanId → Prop) (i j : ℕ) (s : State τ) :
    Prop where
  lock : s.lock = some i
  pc : ∃ prioMode, s.calls[i]? = some (.ctlrStart j prioMode)
  active : s.ctlr.state = .active
  others : OthersDone i s
  before : ∀ ch chan, ch.val < j → s.ctlr.channels ch = some chan →
    chan.state = .active ∧ (kept ch → HdpAtHead params chan)
  after : ∀ ch chan, j ≤ ch.val → s.ctlr.channels ch = some chan → chan.state = .idle

theorem ctlrStartChan_channels {c : CpdmaCtlr τ} (hidle : chan.state = .idle)
    (hactive : c.state = .active) : (ctlrStartChan params c ch chan).channels =
      Function.update c.channels ch (some (turnOn params.pool ch chan)) := by
  have hstate : (cpdmaChanSetChanShaper params c ch chan).1.state = c.state :=
    cpdmaChanSetChanShaper_state c ch chan
  have hchans : (cpdmaChanSetChanShaper params c ch chan).1.channels = c.channels :=
    cpdmaChanSetChanShaper_channels
  unfold ctlrStartChan cpdmaChanOn
  dsimp only
  rw [if_neg (not_not.mpr hidle), if_neg (not_not.mpr (hstate.trans hactive))]
  dsimp only [CpdmaCtlr.setChan, CpdmaCtlr.dmaRegWrite]
  rw [hchans]

theorem turnOn_atHead (pool : CpdmaDescPool) (ch : ChanId) (chan : CpdmaChan)
    (hpool : params.pool = pool) : HdpAtHead params (turnOn pool ch chan) := by
  have hhead : (turnOn pool ch chan).head = chan.head := (sameShape_turnOn pool ch chan).head
  intro hne
  rw [hhead] at hne ⊢
  rw [turnOn_hdp, if_pos hne, hpool]

variable {kept : ChanId → Prop}

theorem TurningOn.next {j : ℕ} {prioMode : Bool} (h : TurningOn params kept i j s)
    (hi : s.calls[i]? = some (.ctlrStart j prioMode)) (hlt : j < 64)
    (hst : Cpdma.advance params s i (.ctlrStart j prioMode) = some s') :
    TurningOn params kept i (j + 1) s' := by
  have hothers := h.others.advance hst
  simp only [Cpdma.advance] at hst
  rw [dif_pos hlt] at hst
  split at hst
  · rename_i hnone
    obtain rfl := Option.some.inj hst
    have hne : ∀ (ch : ChanId) chan, s.ctlr.channels ch = some chan → ch.val ≠ j := by
      intro ch chan hch heq
      obtain rfl : ch = ⟨j, hlt⟩ := Fin.ext heq
      rw [hnone] at hch
      cases hch
    refine ⟨h.lock, ⟨_, getElem?_set_self hi⟩, h.active, hothers, fun ch chan hle hch => ?_,
      fun ch chan hle hch => h.after ch chan (by omega) hch⟩
    have hother := hne ch chan hch
    exact h.before ch chan (by omega) hch
  · rename_i chan₀ hch₀
    obtain rfl := Option.some.inj hst
    have hidle := h.after ⟨j, hlt⟩ chan₀ le_rfl hch₀
    have hchans : (ctlrStartChan params s.ctlr ⟨j, hlt⟩ chan₀).channels = Function.update
        s.ctlr.channels ⟨j, hlt⟩ (some (turnOn params.pool ⟨j, hlt⟩ chan₀)) :=
      ctlrStartChan_channels hidle h.active
    have hstate : (ctlrStartChan params s.ctlr ⟨j, hlt⟩ chan₀).state = s.ctlr.state := by
      unfold ctlrStartChan
      rcases cpdmaChanOn_states params (cpdmaChanSetChanShaper params s.ctlr ⟨j, hlt⟩ chan₀).1
        ⟨j, hlt⟩ chan₀ with hsame | ⟨-, hon, hon', -⟩
      · dsimp only
        rw [hsame, cpdmaChanSetChanShaper_state]
      · exact hon'.trans h.active.symm
    refine ⟨h.lock, ⟨_, getElem?_set_self hi⟩, hstate.trans h.active, hothers,
      fun ch chan hle hch => ?_, fun ch chan hle hch => ?_⟩
    · dsimp only [State.setPc] at hch
      rw [hchans] at hch
      by_cases heq : ch = ⟨j, hlt⟩
      · rw [heq, Function.update_self] at hch
        obtain rfl := Option.some.inj hch
        exact ⟨turnOn_state _ _ _, fun _ => turnOn_atHead _ _ _ rfl⟩
      · rw [Function.update_of_ne heq] at hch
        have hne : ch.val ≠ j := fun hval => heq (Fin.ext hval)
        exact h.before ch chan (by omega) hch
    · dsimp only [State.setPc] at hch
      have hne : ch ≠ ⟨j, hlt⟩ := by
        rintro rfl
        exact absurd hle (by simp)
      rw [hchans, Function.update_of_ne hne] at hch
      exact h.after ch chan (by omega) hch

/-- The engine writes head pointer registers, but not those in `kept`. -/
theorem TurningOn.engineHdp {j : ℕ} {hdp : U32} (h : TurningOn params kept i j s)
    (hch : s.ctlr.channels ch = some chan) (hkept : ¬ kept ch) :
    TurningOn params kept i j (s.setChan ch { chan with hdp := hdp }) := by
  refine ⟨h.lock, h.pc, h.active, h.others, fun ch' chan' hlt hch' => ?_,
    fun ch' chan' hle hch' => ?_⟩
  · dsimp only [State.setChan, CpdmaCtlr.setChan] at hch'
    by_cases heq : ch' = ch
    · rw [heq, Function.update_self] at hch'
      obtain rfl := Option.some.inj hch'
      obtain ⟨hstate, -⟩ := h.before ch chan (heq ▸ hlt) hch
      refine ⟨hstate, fun hk => ?_⟩
      rw [heq] at hk
      exact absurd hk hkept
    · rw [Function.update_of_ne heq] at hch'
      exact h.before ch' chan' hlt hch'
  · dsimp only [State.setChan, CpdmaCtlr.setChan] at hch'
    by_cases heq : ch' = ch
    · rw [heq, Function.update_self] at hch'
      obtain rfl := Option.some.inj hch'
      exact h.after ch chan (heq ▸ hle) hch
    · rw [Function.update_of_ne heq] at hch'
      exact h.after ch' chan' hle hch'

theorem TurningOn.step {j : ℕ} {op : Op τ} (h : TurningOn params kept i j s)
    (hop : op.onChannel = false) (hkept : ∀ ch, kept ch → op.writesHdp ch = false)
    (hst : Cpdma.step params s op = some s') :
    (∃ j', TurningOn params kept i j' s') ∨ Returned i s' := by
  have hlocked : s.lock ≠ none := by
    rw [h.lock]
    nofun
  cases op with
  | engine desc hwMode hwLen =>
    obtain rfl := Option.some.inj hst
    exact .inl ⟨j, h.lock, h.pc, h.active, h.others, h.before, h.after⟩
  | engineHdp ch hdp =>
    obtain ⟨chan, hch, rfl⟩ := Option.map_eq_some_iff.mp hst
    refine .inl ⟨j, h.engineHdp hch fun hk => ?_⟩
    have hwrites := hkept ch hk
    simp [Op.writesHdp] at hwrites
  | ctlrStart =>
    simp only [Cpdma.step] at hst
    rw [if_pos hlocked] at hst
    cases hst
  | ctlrStop =>
    simp only [Cpdma.step] at hst
    rw [if_pos hlocked] at hst
    cases hst
  | setNumRxDescs numRxDesc =>
    simp only [Cpdma.step] at hst
    rw [if_pos hlocked] at hst
    cases hst
  | advance k =>
    obtain ⟨pc, hk, hadv⟩ := Option.bind_eq_some_iff.mp hst
    by_cases hki : k = i
    · subst hki
      obtain ⟨prioMode, hi⟩ := h.pc
      obtain rfl := Option.some.inj (hi.symm.trans hk)
      by_cases hlt : j < 64
      · exact .inl ⟨j + 1, h.next hi hlt hadv⟩
      · simp only [Cpdma.advance] at hadv
        rw [dif_neg hlt] at hadv
        obtain rfl := Option.some.inj hadv
        exact .inr ⟨0, getElem?_set_self hi⟩
    · rw [advance_done (h.others k pc hki hk)] at hadv
      cases hadv
  | _ => cases hop

/-- When cpdma_ctlr_start returns 0 without a channel operation in its way, every channel is
active, and its head pointer register leads to its queue unless the engine has moved it. -/
theorem ctlrStart_returns {s₁ u t : State τ} {ls : List (Op τ)} (h : Roles s)
    (hnone : NoneOnChannel s) (hs₁ : Cpdma.step params s .ctlrStart = some s₁)
    (hrun : Run (Cpdma.step params) (fun _ op => op.onChannel = false) s₁ ls u)
    (hlast : Cpdma.step params u (.advance s.calls.length) = some t)
    (hret : t.calls[s.calls.length]? = some (.done 0)) (hch : t.ctlr.channels ch = some chan) :
    chan.state = .active ∧
      ((∀ op ∈ ls, op.writesHdp ch = false) → HdpAtHead params chan) := by
  have hend : (∃ j, TurningOn params (fun ch => ∀ op ∈ ls, op.writesHdp ch = false)
      s.calls.length j u) ∨ Returned s.calls.length u := by
    refine hrun.mem.invariant (I := fun u => (∃ j, TurningOn params
      (fun ch => ∀ op ∈ ls, op.writesHdp ch = false) s.calls.length j u) ∨
        Returned s.calls.length u) (fun u op v hu hop hst => ?_) ?_
    · rcases hu with ⟨j, hon⟩ | hreturned
      · exact hon.step hop.1 (fun ch hk => hk op hop.2) hst
      · exact .inr (hreturned.step hop.1 hst)
    · obtain ⟨hlock, ⟨-, rfl⟩ | ⟨hidle, rfl⟩⟩ := step_ctlrStart hs₁
      · exact .inr ⟨_, spawn_getElem? _ _⟩
      · have hdone := h.all_done hnone hlock (by rw [hidle]; decide)
        obtain ⟨hstate, hstates⟩ := ctlrStartBegin_states params s.ctlr
        refine .inl ⟨0, rfl, ⟨_, spawn_getElem? _ _⟩, hstate, fun j pc hj hpc => ?_,
          fun _ _ hlt => absurd hlt (Nat.not_lt_zero _), fun ch chan _ hch => ?_⟩
        · rcases getElem?_spawn_cases hpc with ⟨heq, -⟩ | hold
          · exact absurd heq hj
          · exact hdone j pc hold
        · have hold : chanStates s.ctlr.channels ch = some chan.state := by
            rw [← hstates]
            unfold chanStates
            dsimp only [State.spawn] at hch
            rw [hch, Option.map_some]
          obtain ⟨chan₀, hch₀, heq⟩ := Option.map_eq_some_iff.mp hold
          have hnot := h.not_active hidle hch₀
          rw [← heq]
          cases hs : chan₀.state with
          | idle => rfl
          | active => exact absurd hs hnot
          | teardown =>
            obtain ⟨j, pc, hj, hpc⟩ := h.stopper hch₀ hs
            have hpcdone := hdone j pc hj
            cases pc with
            | done ret => cases hpc
            | _ => cases hpcdone
  obtain ⟨pc, hpc, hadv⟩ := Option.bind_eq_some_iff.mp hlast
  rcases hend with ⟨j, hon⟩ | ⟨ret, hdone⟩
  · obtain ⟨prioMode, hi⟩ := hon.pc
    obtain rfl := Option.some.inj (hi.symm.trans hpc)
    by_cases hlt : j < 64
    · obtain ⟨prioMode', hi'⟩ := (hon.next hi hlt hadv).pc
      rw [hi'] at hret
      cases hret
    · simp only [Cpdma.advance] at hadv
      rw [dif_neg hlt] at hadv
      obtain rfl := Option.some.inj hadv
      dsimp only [State.setPc] at hch
      rw [(ctlrStartEnd_states params u.ctlr prioMode).2] at hch
      have hch64 := ch.isLt
      exact hon.before ch chan (by omega) hch
  · obtain rfl := Option.some.inj (hdone.symm.trans hpc)
    cases hadv

theorem submitStep_teardown {kind : SubmitKind} {args : SubmitArgs τ} {mapped : Option U32}
    (hteardown : chan.state = .teardown) :
    submitStep params s kind ch chan args mapped = (s, -einval) := by
  have hrefused : kind.allows chan.state = false := by
    rw [hteardown]
    cases kind <;> rfl
  unfold submitStep submitEntry
  simp [hrefused, einval]

/-- Nothing is added to a queue but by a submit to its channel. -/
theorem Wf.move_suffix {q : ChanId → List ℕ} {own : ℕ → Owner} {o : Option ChanId}
    (h : Wf params s q own) (hm : Move params o s s') (ho : o ≠ some ch)
    (hch : s.ctlr.channels ch = some chan) : s'.accepted ch = s.accepted ch ∧
      ∃ chan', s'.ctlr.channels ch = some chan' ∧
        queueOf params.pool s'.ctlr.mem chan' <:+ queueOf params.pool s.ctlr.mem chan := by
  rw [h.queue hch]
  cases hm with
  | same hs =>
    have hsteady := hs.chans ch
    rw [hch] at hsteady
    cases hch' : s'.ctlr.channels ch with
    | none =>
      rw [hch'] at hsteady
      cases hsteady
    | some chan' =>
      refine ⟨congrFun hs.accepted ch, chan', rfl, ?_⟩
      rw [(h.same hs).queue hch']
  | @enqueue s ch' chan₀ chan₁ d fresh mem' item rxfree hch' hcount hd hnext hitem hl =>
    have hne : ch ≠ ch' := fun heq => ho (congrArg some heq.symm)
    have hold : ({ s with
        ctlr := { s.ctlr with avail := s.ctlr.avail.erase d, mem := mem' }.setChan ch'
          { chan₁ with rxfree := rxfree, count := chan₁.count + 1 } }.accept ch' item :
          State τ).ctlr.channels ch = some chan :=
      (Function.update_of_ne hne _ _).trans hch
    refine ⟨Function.update_of_ne hne _ _, chan, hold, ?_⟩
    rw [(h.enqueue hch' hd hnext hitem hl).queue hold, Function.update_of_ne hne]
  | @dequeue o s i pc ch' chan₀ chan₁ outlen status k hch' hu hi hpc =>
    have hwf : Wf params (((s.setChan ch' chan₁).remove ch' chan₀.head).setPc i
        (.chanFree ch' chan₀.head outlen status k)) (Function.update q ch' (q ch').tail)
        (Function.update own chan₀.head (.held i)) := h.dequeue hch' hu hi hpc
    by_cases heq : ch = ch'
    · subst heq
      refine ⟨rfl, chan₁, Function.update_self _ _ _, ?_⟩
      rw [hwf.queue (Function.update_self _ _ _), Function.update_self]
      exact List.tail_suffix _
    · refine ⟨rfl, chan, (Function.update_of_ne heq _ _).trans hch, ?_⟩
      rw [hwf.queue ((Function.update_of_ne heq _ _).trans hch), Function.update_of_ne heq]
  | free hi =>
    refine ⟨rfl, chan, hch, ?_⟩
    rw [(h.free hi).queue hch]
  | handBack hi =>
    refine ⟨rfl, chan, hch, ?_⟩
    rw [(h.handBack hi).queue hch]

/-- A new division of the pool leaves the queues. -/
theorem Wf.resplit_queue {q : ChanId → List ℕ} {own : ℕ → Owner} (h : Wf params s q own)
    {c : CpdmaCtlr τ} (hs : Resplit s.ctlr c) (hch : s.ctlr.channels ch = some chan) :
    ∃ chan', c.channels ch = some chan' ∧
      queueOf params.pool c.mem chan' <:+ queueOf params.pool s.ctlr.mem chan := by
  have hagree := hs.chans ch
  rw [hch] at hagree
  cases hch' : c.channels ch with
  | none =>
    rw [hch'] at hagree
    cases hagree
  | some chan' =>
    refine ⟨chan', rfl, ?_⟩
    have hnew : queueOf params.pool c.mem chan' = q ch := (h.resplit hs).queue hch'
    rw [hnew, h.queue hch]

/-- No step adds a packet to a channel in teardown. -/
theorem Wf.teardown_suffix {q : ChanId → List ℕ} {own : ℕ → Owner} (h : Wf params s q own)
    {op : Op τ} (hok : LenOk s op) (hst : Cpdma.step params s op = some s')
    (hch : s.ctlr.channels ch = some chan) (hteardown : chan.state = .teardown) :
    s'.accepted ch = s.accepted ch ∧ ∃ chan', s'.ctlr.channels ch = some chan' ∧
      queueOf params.pool s'.ctlr.mem chan' <:+ queueOf params.pool s.ctlr.mem chan := by
  cases hsplit : op.resplits with
  | true =>
    obtain ⟨c, hs, rfl⟩ := step_resplit hsplit hst
    exact ⟨rfl, h.resplit_queue hs hch⟩
  | false =>
    by_cases hto : op.submitsTo = some ch
    · cases op with
      | submit kind ch' args mapped =>
        obtain rfl : ch' = ch := Option.some.inj hto
        obtain ⟨chan', hch', rfl⟩ := Option.map_eq_some_iff.mp hst
        obtain rfl : chan = chan' := Option.some.inj (hch.symm.trans hch')
        rw [submitStep_teardown hteardown]
        exact ⟨rfl, chan, hch, List.suffix_rfl⟩
      | _ => cases hto
    · exact h.move_suffix (step_move hok hsplit hst) hto hch

/-- What the life cycles promise of a state the driver has reached. -/
structure Consistent (params : CpdmaParams) (s : State τ) : Prop where
  idle : s.ctlr.state = .idle → ∀ ch chan, s.ctlr.channels ch = some chan → chan.state ≠ .active
  /-- no step adds a packet or a descriptor to a channel in teardown -/
  teardown : ∀ op t ch chan, LenOk s op → step params s op = some t →
    s.ctlr.channels ch = some chan → chan.state = .teardown →
    t.accepted ch = s.accepted ch ∧ ∃ chan', t.ctlr.channels ch = some chan' ∧
      queueOf params.pool t.ctlr.mem chan' <:+ queueOf params.pool s.ctlr.mem chan
  /-- cpdma_ctlr_stop called here returns 0 after steps none of which is a channel operation -/
  stopped : ∀ ls s₁ u t, NoneOnChannel s → step params s .ctlrStop = some s₁ →
    Run (step params) (fun _ op => op.onChannel = false) s₁ ls u →
    step params u (.advance s.calls.length) = some t →
    t.calls[s.calls.length]? = some (.done 0) →
    ∀ ch chan, t.ctlr.channels ch = some chan →
      chan.state = .idle ∧ queueOf params.pool t.ctlr.mem chan = [] ∧ chan.count = 0
  /-- and so does cpdma_ctlr_start, while the engine may go on -/
  started : ∀ ls s₁ u t, NoneOnChannel s → step params s .ctlrStart = some s₁ →
    Run (step params) (fun _ op => op.onChannel = false) s₁ ls u →
    step params u (.advance s.calls.length) = some t →
    t.calls[s.calls.length]? = some (.done 0) →
    ∀ ch chan, t.ctlr.channels ch = some chan →
      chan.state = .active ∧ ((∀ op ∈ ls, op.writesHdp ch = false) → HdpAtHead params chan)

/-- The life cycles are consistent in every state of every run, however calls interleave. -/
theorem consistent_of_run {s₀ : State τ} {ls₀ : List (Op τ)} (hinit : Initial params s₀)
    (hidle : s₀.ctlr.state = .idle) (hrun : Run (step params) LenOk s₀ ls₀ s) :
    Consistent params s := by
  have hroles : Roles s := (Roles.initial hinit hidle).of_run hrun
  obtain ⟨q, own, hwf⟩ := Wf.of_run hinit hrun
  refine ⟨fun hidle ch chan hch => hroles.not_active hidle hch,
    fun op t ch chan hok hst hch hteardown => hwf.teardown_suffix hok hst hch hteardown,
    fun ls s₁ u t hnone hs₁ hrest hlast hret ch chan hch => ?_,
    fun ls s₁ u t hnone hs₁ hrest hlast hret ch chan hch => ?_⟩
  · obtain ⟨hstate, hhead⟩ := ctlrStop_returns hroles hnone hs₁ hrest hlast hret hch
    have hend : Run (step params) LenOk s₁ (ls ++ [.advance s.calls.length]) t :=
      (hrest.mono fun _ _ => lenOk_of_offChannel).append (.cons trivial hlast (.nil _))
    have hall : Run (step params) LenOk s₀ _ t :=
      hrun.append (.cons (show LenOk s (.ctlrStop : Op τ) from trivial) hs₁ hend)
    obtain ⟨q', own', hwf'⟩ := Wf.of_run hinit hall
    have hqueue := hwf'.chan ch chan hch
    have hnil : q' ch = [] := hqueue.head_null_iff.mp hhead
    refine ⟨hstate, (hwf'.queue hch).trans hnil, ?_⟩
    rw [← hqueue.count, hnil]
    rfl
  · exact ctlrStart_returns hroles hnone hs₁ hrest hlast hret hch

/-- A packet is queued for receive, and the channel has begun to be torn down. -/
theorem consistent_in_teardown : ∃ t : State ℕ,
    Run (step (smallParams 2 (by decide))) LenOk
      (quiet (smallParams 2 (by decide)) 0 .idle (onePair 1 1) 1 1)
      [.submit .idleSubmit 32 ⟨7, 0, 1500, 0⟩ (some 0x4000), .chanStop 32, .advance 0] t ∧
    (t.ctlr.channels 32).map CpdmaChan.state = some .teardown ∧
    Consistent (smallParams 2 (by decide)) t := by
  have hlen : 1500 < 2 ^ 16 := by decide
  have hrun : ∃ t : State ℕ, Run (step (smallParams 2 (by decide))) LenOk
      (quiet (smallParams 2 (by decide)) 0 .idle (onePair 1 1) 1 1)
      [.submit .idleSubmit 32 ⟨7, 0, 1500, 0⟩ (some 0x4000), .chanStop 32, .advance 0] t ∧
      (t.ctlr.channels 32).map CpdmaChan.state = some .teardown :=
    ⟨_, .cons hlen rfl (.cons trivial rfl (.cons trivial rfl (.nil _))), rfl⟩
  obtain ⟨t, hrun, hteardown⟩ := hrun
  exact ⟨t, hrun, hteardown,
    consistent_of_run (initial_quiet _ _ _ (idle_onePair 1 1) _ _) rfl hrun⟩

end CpswDriver.Cpdma
