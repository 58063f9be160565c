import CpswDriver.Cpsw.BridgeRun
import CpswDriver.Lib.Replay

/-!
The works for addresses run some time after the bridge has sent its
notifications, and the work queue may run them in another order. As long as the
works for one address keep their order, the table ends up as if each
notification had been acted on when it was sent.
-/

namespace CpswDriver.Switchdev

open Ale Runs Replay
open Filters (isMulticast_broadcast)

variable {params : CpswParams} {b : Bridge} {s : State} {op : Op} {k : FdbKey}
  {macAddr : Port → MacAddr}

namespace EventWork

def key (w : EventWork) : FdbKey := (w.fdbInfo.addr, w.fdbInfo.vid)

def act (macAddr : Port → MacAddr) (w : EventWork) (v : Option FdbEntry) : Option FdbEntry :=
  if w.fdbInfo.addedByUser && !w.fdbInfo.isLocal then
    match w.event with
    | .fdbAddToDevice =>
      some (.static (memberOf (decide (macAddr w.port = w.fdbInfo.addr)) w.port))
    | .fdbDelToDevice => none
    | .other => v
  else v

end EventWork

/-- The system, with the forwarding table that the bridge has in mind. -/
structure Told where
  sys : System
  asked : FdbKey → Option FdbEntry

/-- What the bridge has in mind after a step with the outcome `ret`: a notification counts when
it is sent, if the driver takes it. -/
def Told.askedAfter (macAddr : Port → MacAddr) (t : Told) (op : Op) (ret : ℤ) :
    FdbKey → Option FdbEntry :=
  match op with
  | .work _ _ => t.asked
  | .event p event fdbInfo portDevCheck workAlloc addrAlloc =>
    let w : EventWork := ⟨p, event, fdbInfo⟩
    if portDevCheck && workAlloc && addrAlloc then
      Function.update t.asked w.key (w.act macAddr (t.asked w.key))
    else t.asked
  | op =>
    if ret = 0 then (Bridge.apply { t.sys.bridge with fdb := t.asked } t.sys.driver op).fdb
    else t.asked

def Told.step (params : CpswParams) (macAddr : Port → MacAddr) (t : Told) (op : Op) :
    Option Told :=
  (Switchdev.step params t.sys.driver op).map fun r =>
    ⟨⟨r.1, if r.2 = 0 then t.sys.bridge.apply t.sys.driver op else t.sys.bridge⟩,
      t.askedAfter macAddr op r.2⟩

/-- A work comes after those for the same address that were queued before it, and no work is
waiting for the address of a port that the host's VLANs bring along. -/
def InOrder (macAddr : Port → MacAddr) (s : State) : Op → Prop
  | .work i ndev => ∀ w ∈ s.works[i]?, ndev.macAddr = macAddr w.port ∧
      ∀ u ∈ s.works.take i, u.key ≠ w.key
  | .objAdd _ ndev orig (.portVlan vid _) | .objDel _ ndev orig (.portVlan vid _) =>
    orig.bridgeMaster = true → ∀ w ∈ s.works, w.key ≠ (ndev.macAddr, vid)
  | _ => True

instance (macAddr : Port → MacAddr) (s : State) : DecidablePred (InOrder macAddr s)
  | .work i ndev => inferInstanceAs (Decidable (∀ w ∈ s.works[i]?,
      ndev.macAddr = macAddr w.port ∧ ∀ u ∈ s.works.take i, u.key ≠ w.key))
  | .objAdd _ ndev orig (.portVlan vid _) | .objDel _ ndev orig (.portVlan vid _) =>
    inferInstanceAs (Decidable
      (orig.bridgeMaster = true → ∀ w ∈ s.works, w.key ≠ (ndev.macAddr, vid)))
  | .objAdd _ _ _ (.portMdb _ _) | .objAdd _ _ _ (.hostMdb _ _) | .objAdd _ _ _ .other
  | .objDel _ _ _ (.portMdb _ _) | .objDel _ _ _ (.hostMdb _ _) | .objDel _ _ _ .other
  | .attrSet _ _ | .event _ _ _ _ _ _ | .unregister _ | .hardware _ _ => .isTrue trivial

theorem work_fdb {w : EventWork} {ndev : NetDev} (hmac : ndev.macAddr = macAddr w.port) :
    (b.work w ndev).fdb = Function.update b.fdb w.key (w.act macAddr (b.fdb w.key)) := by
  have hself : Function.update b.fdb w.key (b.fdb w.key) = b.fdb := Function.update_eq_self _ _
  unfold Bridge.work EventWork.act
  rw [← hmac]
  dsimp only
  split
  · cases w.event with
    | fdbAddToDevice => rfl
    | fdbDelToDevice => rfl
    | other => exact hself.symm
  · exact hself.symm

def touched : Op → List FdbKey
  | .objAdd _ ndev orig (.portVlan vid _) => if orig.bridgeMaster then [(ndev.macAddr, vid)] else []
  | .objDel _ ndev orig (.portVlan vid _) =>
    (broadcast, vid) :: if orig.bridgeMaster then [(ndev.macAddr, vid)] else []
  | .objAdd _ _ _ (.portMdb addr vid) | .objAdd _ _ _ (.hostMdb addr vid)
  | .objDel _ _ _ (.portMdb addr vid) | .objDel _ _ _ (.hostMdb addr vid) => [(addr, vid)]
  | _ => []

/-- The bridge changes the entry of an address in one way, whatever its other entries are. -/
structure Local (b b' : Bridge) (k : FdbKey) (touches : Prop) (next next' : Bridge) : Prop where
  same : b'.fdb k = b.fdb k → next'.fdb k = next.fdb k
  keeps : ¬ touches → next.fdb k = b.fdb k ∧ next'.fdb k = b'.fdb k

theorem local_refl {touches : Prop} {b b' : Bridge} : Local b b' k touches b b' :=
  ⟨id, fun _ => ⟨rfl, rfl⟩⟩

theorem Local.setFdb {touches : Prop} {b b' next next' : Bridge}
    (h : Local b b' k touches next next') {k' : FdbKey} (hk : k = k' → touches)
    (f : Option FdbEntry → Option FdbEntry) :
    Local b b' k touches (next.setFdb k' (f (next.fdb k'))) (next'.setFdb k' (f (next'.fdb k'))) := by
  unfold Bridge.setFdb
  refine ⟨fun hsame => ?_, fun hnot => ?_⟩
  · dsimp only
    by_cases heq : k = k'
    · rw [← heq, Function.update_self, Function.update_self, h.same hsame]
    · rw [Function.update_of_ne heq, Function.update_of_ne heq]
      exact h.same hsame
  · have hne : k ≠ k' := fun heq => hnot (hk heq)
    dsimp only
    rw [Function.update_of_ne hne, Function.update_of_ne hne]
    exact h.keeps hnot

theorem Local.congr {touches : Prop} {b b' next next' after after' : Bridge}
    (h : Local b b' k touches next next') (hfdb : after.fdb = next.fdb)
    (hfdb' : after'.fdb = next'.fdb) : Local b b' k touches after after' := by
  refine ⟨fun hsame => ?_, fun hnot => ?_⟩
  · rw [hfdb, hfdb']
    exact h.same hsame
  · rw [hfdb, hfdb']
    exact h.keeps hnot

/-- The part of a request for a VLAN that is about the host's own address. -/
theorem Local.host {touches : Prop} {b b' next next' : Bridge}
    (h : Local b b' k touches next next') {k' : FdbKey} {c : Bool}
    (hk : c = true → k = k' → touches) (v : Option FdbEntry) :
    Local b b' k touches (if c then next.setFdb k' v else next)
      (if c then next'.setFdb k' v else next') := by
  cases c with
  | false => exact h
  | true => exact h.setFdb (hk rfl) fun _ => v

theorem Local.pvid {touches : Prop} {b b' next next' : Bridge}
    (h : Local b b' k touches next next') (c c' : Prop) [Decidable c] [Decidable c'] (p : Port)
    (vid : U16) : Local b b' k touches (if c then next.setPvid p vid else next)
      (if c' then next'.setPvid p vid else next') := by
  apply h.congr
  · split <;> rfl
  · split <;> rfl

theorem attrSet_fdb (b : Bridge) (p : Port) (attr : SwitchdevAttr) :
    (b.attrSet p attr).fdb = b.fdb := by
  cases attr with
  | portStpState state =>
    unfold Bridge.attrSet
    dsimp only
    split <;> rfl
  | portBridgeFlags mask val =>
    unfold Bridge.attrSet
    dsimp only
    split <;> rfl
  | portPreBridgeFlags mask val => rfl
  | other => rfl

theorem local_apply (b : Bridge) (fdb : FdbKey → Option FdbEntry) (s : State) (k : FdbKey)
    (hop : ∀ i ndev, op ≠ .work i ndev) :
    Local b { b with fdb := fdb } k (k ∈ touched op) (b.apply s op)
      (Bridge.apply { b with fdb := fdb } s op) := by
  cases op with
  | attrSet p attr => exact local_refl.congr (attrSet_fdb b p attr) (attrSet_fdb _ p attr)
  | objAdd p ndev orig obj =>
    cases obj with
    | portVlan vid flags =>
      have hvlan : ∀ v v', Local b { b with fdb := fdb } k
          (k ∈ touched (.objAdd p ndev orig (.portVlan vid flags))) (b.setVlan vid v)
          (Bridge.setVlan { b with fdb := fdb } vid v') :=
        fun v v' => local_refl.congr rfl rfl
      have htouch : orig.bridgeMaster = true → k = (ndev.macAddr, vid) →
          k ∈ touched (.objAdd p ndev orig (.portVlan vid flags)) := by
        intro hmaster hk
        have hlist : touched (.objAdd p ndev orig (.portVlan vid flags)) =
            [(ndev.macAddr, vid)] := if_pos hmaster
        rw [hlist, hk]
        exact List.mem_cons_self
      exact ((hvlan _ _).host htouch (some (.static 0))).pvid _ _ p vid
    | portMdb addr vid =>
      exact local_refl.setFdb (fun hk => hk ▸ List.mem_cons_self) fun v =>
        some (FdbEntry.joinGroup v (memberOf orig.bridgeMaster p))
    | hostMdb addr vid =>
      exact local_refl.setFdb (fun hk => hk ▸ List.mem_cons_self) fun v =>
        some (FdbEntry.joinGroup v (memberOf orig.bridgeMaster p))
    | other => exact local_refl
  | objDel p ndev orig obj =>
    cases obj with
    | portVlan vid flags =>
      have hvlan : ∀ v v', Local b { b with fdb := fdb } k
          (k ∈ touched (.objDel p ndev orig (.portVlan vid flags))) (b.setVlan vid v)
          (Bridge.setVlan { b with fdb := fdb } vid v') :=
        fun v v' => local_refl.congr rfl rfl
      have htouch : orig.bridgeMaster = true → k = (ndev.macAddr, vid) →
          k ∈ touched (.objDel p ndev orig (.portVlan vid flags)) := by
        intro hmaster hk
        have hlist : touched (.objDel p ndev orig (.portVlan vid flags)) =
            [(broadcast, vid), (ndev.macAddr, vid)] := congrArg (List.cons _) (if_pos hmaster)
        rw [hlist, hk]
        exact List.mem_cons_of_mem _ List.mem_cons_self
      exact (((hvlan _ _).host htouch none).pvid _ _ p 0).setFdb
        (fun hk => hk ▸ List.mem_cons_self)
        fun v => v.bind (FdbEntry.leaveGroup (memberOf orig.bridgeMaster p))
    | portMdb addr vid =>
      exact local_refl.setFdb (fun hk => hk ▸ List.mem_cons_self) fun v =>
        v.bind (FdbEntry.leaveGroup (memberOf orig.bridgeMaster p))
    | hostMdb addr vid =>
      exact local_refl.setFdb (fun hk => hk ▸ List.mem_cons_self) fun v =>
        v.bind (FdbEntry.leaveGroup (memberOf orig.bridgeMaster p))
    | other => exact local_refl
  | work i ndev => exact absurd rfl (hop i ndev)
  | event p event fdbInfo portDevCheck workAlloc addrAlloc => exact local_refl
  | unregister p => exact local_refl
  | hardware idx aleEntry => exact local_refl

/-- What the waiting works are going to make of the granted entries is what the bridge has in
mind. -/
structure Pending (params : CpswParams) (macAddr : Port → MacAddr) (t : Told) : Prop where
  views : Views params False t.sys
  replays : ∀ k, replay EventWork.key (EventWork.act macAddr) t.sys.driver.works k
    (t.sys.bridge.fdb k) = t.asked k

/-- No work is waiting for an address that the request is about. -/
theorem untouched_of_inOrder (hworks : ∀ w ∈ s.works, isMulticastEtherAddr w.fdbInfo.addr = false)
    (hop : WellFormed s op) (horder : InOrder macAddr s op) (hk : k ∈ touched op) :
    ∀ w ∈ s.works, w.key ≠ k := by
  have hgroup : ∀ addr (vid : U16), isMulticastEtherAddr addr = true →
      ∀ w ∈ s.works, w.key ≠ (addr, vid) := by
    intro addr vid haddr w hw hkey
    have hsame : w.fdbInfo.addr = addr := congrArg Prod.fst hkey
    have hucast := hworks w hw
    rw [hsame, haddr] at hucast
    cases hucast
  cases op with
  | objAdd p ndev orig obj =>
    cases obj with
    | portVlan vid flags =>
      simp only [touched] at hk
      split at hk
      · rw [List.mem_singleton.mp hk]
        exact horder ‹_›
      · cases hk
    | portMdb addr vid =>
      rw [List.mem_singleton.mp hk]
      exact hgroup addr vid hop.2.1
    | hostMdb addr vid =>
      rw [List.mem_singleton.mp hk]
      exact hgroup addr vid hop.2.1
    | other => cases hk
  | objDel p ndev orig obj =>
    cases obj with
    | portVlan vid flags =>
      simp only [touched, List.mem_cons] at hk
      rcases hk with rfl | hk
      · exact hgroup broadcast vid isMulticast_broadcast
      · split at hk
        · rw [List.mem_singleton.mp hk]
          exact horder ‹_›
        · cases hk
    | portMdb addr vid =>
      rw [List.mem_singleton.mp hk]
      exact hgroup addr vid hop.2.1
    | hostMdb addr vid =>
      rw [List.mem_singleton.mp hk]
      exact hgroup addr vid hop.2.1
    | other => cases hk
  | attrSet p attr => cases hk
  | event p event fdbInfo portDevCheck workAlloc addrAlloc => cases hk
  | work i ndev => cases hk
  | unregister p => cases hk
  | hardware idx aleEntry => cases hk

theorem works_of_step {r : State × ℤ} (hst : step params s op = some r)
    (hwork : ∀ i ndev, op ≠ .work i ndev)
    (hevent : ∀ p event fdbInfo a b c, op ≠ .event p event fdbInfo a b c) :
    r.1.works = s.works := by
  cases op with
  | attrSet p attr =>
    simp only [Switchdev.step] at hst
    split at hst
    · cases hst
      obtain ⟨ale, heq⟩ := attrSet_eq params s p attr
      rw [heq]
    · cases hst
  | objAdd p ndev orig obj =>
    simp only [Switchdev.step] at hst
    split at hst
    · cases hst
      obtain ⟨ale, slaveRegs, heq⟩ := objAdd_eq params s p ndev orig obj
      rw [heq]
    · cases hst
  | objDel p ndev orig obj =>
    simp only [Switchdev.step] at hst
    split at hst
    · cases hst
      obtain ⟨ale, slaveRegs, heq⟩ := objDel_eq params s p ndev orig obj
      rw [heq]
    · cases hst
  | event p event fdbInfo a b c => exact absurd rfl (hevent p event fdbInfo a b c)
  | work i ndev => exact absurd rfl (hwork i ndev)
  | unregister p =>
    simp only [Switchdev.step] at hst
    split at hst
    · cases hst
      rfl
    · cases hst
  | hardware idx aleEntry =>
    simp only [Switchdev.step] at hst
    split at hst
    · cases hst
      rfl
    · cases hst

theorem Pending.request {t : Told} (h : Pending params macAddr t) {op : Op}
    (hop : WellFormed t.sys.driver op) (horder : InOrder macAddr t.sys.driver op)
    (hwork : ∀ i ndev, op ≠ .work i ndev) (k : FdbKey) :
    replay EventWork.key (EventWork.act macAddr) t.sys.driver.works k
      ((t.sys.bridge.apply t.sys.driver op).fdb k) =
      (Bridge.apply { t.sys.bridge with fdb := t.asked } t.sys.driver op).fdb k := by
  have hlocal := local_apply t.sys.bridge t.asked t.sys.driver k hwork
  by_cases hk : k ∈ touched op
  · have hnone := untouched_of_inOrder (fun w hw => (h.views.works w hw).1) hop horder hk
    have hsame := h.replays k
    rw [replay_of_none hnone] at hsame ⊢
    exact (hlocal.same hsame.symm).symm
  · obtain ⟨hleft, hright⟩ := hlocal.keeps hk
    rw [hleft, hright]
    exact h.replays k

theorem Pending.step {t t' : Told} (h : Pending params macAddr t) {op : Op}
    (hop : WellFormed t.sys.driver op) (hroom : RoomFor t.sys.driver op)
    (horder : InOrder macAddr t.sys.driver op) (hst : t.step params macAddr op = some t') :
    Pending params macAddr t' := by
  obtain ⟨r, hr, rfl⟩ := Option.map_eq_some_iff.mp hst
  have hviews : Views params False ⟨r.1, if r.2 = 0 then t.sys.bridge.apply t.sys.driver op
      else t.sys.bridge⟩ :=
    h.views.step hop (fun _ => hroom) (Option.map_eq_some_iff.mpr ⟨r, hr, rfl⟩)
  refine ⟨hviews, fun k => ?_⟩
  dsimp only
  have hrequest : (∀ i ndev, op ≠ .work i ndev) →
      (∀ p event fdbInfo a b c, op ≠ .event p event fdbInfo a b c) →
      t.askedAfter macAddr op r.2 = (if r.2 = 0 then
        (Bridge.apply { t.sys.bridge with fdb := t.asked } t.sys.driver op).fdb else t.asked) →
      replay EventWork.key (EventWork.act macAddr) r.1.works k
        ((if r.2 = 0 then t.sys.bridge.apply t.sys.driver op else t.sys.bridge).fdb k) =
        t.askedAfter macAddr op r.2 k := by
    intro hwork hevent hasked
    rw [hasked, works_of_step hr hwork hevent]
    split
    · exact h.request hop horder hwork k
    · exact h.replays k
  cases op with
  | attrSet p attr => exact hrequest (by intros; simp) (by intros; simp) rfl
  | objAdd p ndev orig obj => exact hrequest (by intros; simp) (by intros; simp) rfl
  | objDel p ndev orig obj => exact hrequest (by intros; simp) (by intros; simp) rfl
  | unregister p => exact hrequest (by intros; simp) (by intros; simp) rfl
  | hardware idx aleEntry => exact hrequest (by intros; simp) (by intros; simp) rfl
  | event p event fdbInfo portDevCheck workAlloc addrAlloc =>
    simp only [Switchdev.step] at hr
    split at hr
    · cases hr
      have hfdb : ((if (0 : ℤ) = 0 then t.sys.bridge.apply t.sys.driver
          (.event p event fdbInfo portDevCheck workAlloc addrAlloc) else t.sys.bridge).fdb k) =
          t.sys.bridge.fdb k := rfl
      rw [hfdb]
      unfold cpswSwitchdevEvent Told.askedAfter
      cases portDevCheck with
      | false => exact h.replays k
      | true => cases workAlloc with
        | false => exact h.replays k
        | true => cases addrAlloc with
          | false => cases event <;> exact h.replays k
          | true =>
            have hqueued : replay EventWork.key (EventWork.act macAddr)
                (t.sys.driver.works ++ [⟨p, event, fdbInfo⟩]) k (t.sys.bridge.fdb k) =
                Function.update t.asked (EventWork.key ⟨p, event, fdbInfo⟩)
                  (EventWork.act macAddr ⟨p, event, fdbInfo⟩
                    (t.asked (EventWork.key ⟨p, event, fdbInfo⟩))) k := by
              rw [replay_append, h.replays k, Function.update_apply]
              by_cases hkey : EventWork.key ⟨p, event, fdbInfo⟩ = k
              · rw [if_pos hkey, if_pos hkey.symm, hkey]
              · rw [if_neg hkey, if_neg (Ne.symm hkey)]
            cases event with
            | fdbAddToDevice => exact hqueued
            | fdbDelToDevice => exact hqueued
            | other =>
              have hact : ∀ v, EventWork.act macAddr ⟨p, .other, fdbInfo⟩ v = v := fun v => ite_self v
              simp only [Bool.and_self, if_true, hact, Function.update_eq_self]
              exact h.replays k
    · cases hr
  | work i ndev =>
    simp only [Switchdev.step] at hr
    split at hr
    · cases hr
    · rename_i w hw
      cases hr
      obtain ⟨hmac, hfirst⟩ := horder w hw
      have hfdb : ((if (0 : ℤ) = 0 then t.sys.bridge.apply t.sys.driver (.work i ndev)
          else t.sys.bridge).fdb k) = (t.sys.bridge.work w ndev).fdb k := by
        rw [if_pos rfl]
        unfold Bridge.apply
        dsimp only
        rw [hw]
      rw [hfdb, work_fdb hmac, Function.update_apply]
      have hleft : replay EventWork.key (EventWork.act macAddr) (t.sys.driver.works.eraseIdx i) k
          (if k = w.key then w.act macAddr (t.sys.bridge.fdb w.key) else t.sys.bridge.fdb k) =
          replay EventWork.key (EventWork.act macAddr) t.sys.driver.works k
            (t.sys.bridge.fdb k) := by
        by_cases hkey : k = w.key
        · rw [if_pos hkey, hkey]
          exact replay_eraseIdx_self hw hfirst _
        · rw [if_neg hkey]
          exact replay_eraseIdx_ne hw (Ne.symm hkey) _
      exact hleft.trans (h.replays k)

/-- Whichever way the works of different addresses are interleaved, once all have run the table
has the addresses that the bridge has in mind. -/
theorem fdb_of_run {t t' : Told} (h : Pending params macAddr t) {ops : List Op}
    (hrun : Run (fun t op => t.step params macAddr op) (fun t op => WellFormed t.sys.driver op ∧
      RoomFor t.sys.driver op ∧ InOrder macAddr t.sys.driver op) t ops t')
    (hdone : t'.sys.driver.works = []) (k : FdbKey) :
    fixedAddr params t'.sys.driver.ale k = (t'.asked k).map FdbEntry.entry := by
  have hpending : Pending params macAddr t' :=
    hrun.invariant (fun _ _ _ hp hop hst => hp.step hop.1 hop.2.1 hop.2.2 hst) h
  have hreplay := hpending.replays k
  rw [hdone] at hreplay
  rw [← hreplay, replay]
  rcases hpending.views.table.fdb k with heq | ⟨hlossy, -⟩
  · exact heq
  · exact absurd hlossy id

/-- Notifications for two addresses, of which the second one's works run first. -/
def notifications : List Op :=
  [.event 0 .fdbAddToDevice ⟨fun _ => 4, 0, true, false⟩ true true true,
    .event 0 .fdbAddToDevice ⟨fun _ => 6, 0, true, false⟩ true true true,
    .event 0 .fdbDelToDevice ⟨fun _ => 4, 0, true, false⟩ true true true,
    .work 1 station, .work 0 station, .work 0 station]

theorem fdb_after_notifications : ∃ t' : Told, (t'.sys.driver.works == []) = true ∧
    ∀ k, fixedAddr threePortParams t'.sys.driver.ale k = (t'.asked k).map FdbEntry.entry := by
  have htest : (exec (fun t op => t.step threePortParams (fun _ _ => 2) op)
      (fun t op => WellFormed t.sys.driver op ∧ RoomFor t.sys.driver op ∧
        InOrder (fun _ _ => 2) t.sys.driver op)
      (⟨emptySystem 8, fun _ => none⟩ : Told) notifications).any
        (fun t => t.sys.driver.works == []) = true := by
    decide +kernel
  obtain ⟨t', hrun, hdone⟩ := exists_run_of_any htest
  have hstart : Pending threePortParams (fun _ _ => 2) ⟨emptySystem 8, fun _ => none⟩ :=
    ⟨views_empty threePortParams False 8, fun _ => rfl⟩
  exact ⟨t', hdone, fdb_of_run hstart hrun (by simpa using hdone)⟩

end CpswDriver.Switchdev
