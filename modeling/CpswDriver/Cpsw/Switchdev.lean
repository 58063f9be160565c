import CpswDriver.Cpsw.SwitchMode

/-!
What a bridge asks of the driver. Requests for VLANs, groups and port states
are carried out at once. Notifications of addresses arrive in atomic context, so
the driver copies them into works that a work queue runs later, in any order,
and keeps a reference to the net device for as long as the work is there.
-/

namespace CpswDriver.Switchdev

open Ale Runs
open SwitchMode (alePortStateDisable alePortStateForward)

structure CpswParams where
  ale : AleParams
  version : CpswVersion
  devId : ale.dev.devId = "cpsw"
  alePorts : ale.alePorts = 3

/-- What the driver reads of the net device of a port. -/
structure NetDev where
  macAddr : MacAddr
  flags : U32

/-- The device that a request is about, which is a port of the bridge or the bridge itself. -/
structure OrigDev where
  bridgeMaster : Bool
  flags : U32

def iffMulticast : U32 := 1#32 <<< 12

def brStateDisabled : BitVec 8 := 0
def brStateListening : BitVec 8 := 1
def brStateLearning : BitVec 8 := 2
def brStateForwarding : BitVec 8 := 3
def brStateBlocking : BitVec 8 := 4

def alePortStateBlock : U32 := 1
def alePortStateLearn : U32 := 2

def brLearning : U32 := 1#32 <<< 5
def brMcastFlood : U32 := 1#32 <<< 11

def bridgeVlanInfoPvid : U16 := 1#16 <<< 1
def bridgeVlanInfoUntagged : U16 := 1#16 <<< 2

inductive SwitchdevAttr
  | portPreBridgeFlags (mask val : U32)
  | portStpState (state : BitVec 8)
  | portBridgeFlags (mask val : U32)
  | other
  deriving DecidableEq

inductive SwitchdevObj
  | portVlan (vid flags : U16)
  | portMdb (addr : MacAddr) (vid : U16)
  | hostMdb (addr : MacAddr) (vid : U16)
  | other
  deriving DecidableEq

inductive SwitchdevEvent
  | fdbAddToDevice
  | fdbDelToDevice
  | other
  deriving DecidableEq, Repr

/-- struct switchdev_notifier_fdb_info -/
structure FdbInfo where
  addr : MacAddr
  vid : U16
  addedByUser : Bool
  isLocal : Bool
  deriving DecidableEq

/-- struct cpsw_switchdev_event_work -/
structure EventWork where
  port : Port
  event : SwitchdevEvent
  fdbInfo : FdbInfo
  deriving DecidableEq

inductive Notify
  | done
  | bad
  deriving DecidableEq

/-- `works` are those that were queued and have not run, `refs` counts what the
driver holds of the net devices, and `registered` are those that the stack knows. -/
structure State where
  ale : CpswAle
  slaveRegs : Port → SlaveRegs
  works : List EventWork
  refs : Port → ℕ
  registered : Port → Bool

def cpswPortStpStateSet (params : CpswParams) (s : State) (p : Port) (state : BitVec 8) :
    State × ℤ :=
  let set (cpswState : U32) : State × ℤ :=
    let (ale, ret) := cpswAleControlSet params.ale s.ale (emacPort p) .portState cpswState
    ({ s with ale := ale }, ret)
  if state = brStateForwarding then set alePortStateForward
  else if state = brStateLearning then set alePortStateLearn
  else if state = brStateDisabled then set alePortStateDisable
  else if state = brStateListening ∨ state = brStateBlocking then set alePortStateBlock
  else (s, -eopnotsupp)

def cpswPortAttrBrFlagsSet (params : CpswParams) (s : State) (p : Port) (mask val : U32) :
    State × ℤ :=
  if testBits mask brMcastFlood then
    let unregMcastAdd := testBits val brMcastFlood
    let ale := cpswAleSetUnregMcast params.ale s.ale (1#32 <<< emacPort p) unregMcastAdd
    ({ s with ale := ale }, 0)
  else (s, 0)

def cpswPortAttrBrFlagsPreSet (mask : U32) : ℤ :=
  if testBits mask (~~~(brLearning ||| brMcastFlood)) then -einval else 0

def cpswPortAttrSet (params : CpswParams) (s : State) (p : Port) : SwitchdevAttr → State × ℤ
  | .portPreBridgeFlags mask _ => (s, cpswPortAttrBrFlagsPreSet mask)
  | .portStpState state => cpswPortStpStateSet params s p state
  | .portBridgeFlags mask val => cpswPortAttrBrFlagsSet params s p mask val
  | .other => (s, -eopnotsupp)

def cpswGetPvid (params : CpswParams) (s : State) (p : Port) : U16 :=
  (s.slaveRegs p (portVlanReg params.version) &&& 0xfff#32).setWidth 16

def cpswSetPvid (params : CpswParams) (s : State) (p : Port) (vid : U16) (cfi : Bool)
    (cos : U32) : State :=
  let pvid := vid.setWidth 32 ||| (if cfi then 1#32 <<< 12 else 0) ||| ((cos &&& 0x7) <<< 13)
  { s with
    slaveRegs := Function.update s.slaveRegs p
      (Function.update (s.slaveRegs p) (portVlanReg params.version) pvid) }

/-- cpu_port ? BIT(HOST_PORT_NUM) : BIT(priv->emac_port) -/
def portMaskOf (cpuPort : Bool) (p : Port) : U32 :=
  if cpuPort then 1#32 <<< hostPortNum.toNat else 1#32 <<< emacPort p

def cpswPortVlanAdd (params : CpswParams) (s : State) (p : Port) (ndev : NetDev)
    (untag pvid : Bool) (vid : U16) (orig : OrigDev) : State × ℤ :=
  let portMask := portMaskOf orig.bridgeMaster p
  let flags := if orig.bridgeMaster then orig.flags else ndev.flags
  let unregMcastMask := if orig.bridgeMaster then portMask else 0
  let regMcastMask := if testBits flags iffMulticast then portMask else 0
  let untagMask := if untag then portMask else 0
  let (ale, ret) := cpswAleVlanAddModify params.ale s.ale vid portMask untagMask regMcastMask
    unregMcastMask
  let s := { s with ale := ale }
  if ret ≠ 0 then (s, ret)
  else
    let added := (cpswAleAddUcast params.ale s.ale ndev.macAddr hostPortNum aleVlan vid).1
    let s := if orig.bridgeMaster then { s with ale := added } else s
    if !pvid then (s, ret) else (cpswSetPvid params s p vid false 0, ret)

def cpswPortVlanDel (params : CpswParams) (s : State) (p : Port) (ndev : NetDev) (vid : U16)
    (orig : OrigDev) : State × ℤ :=
  let portMask := portMaskOf orig.bridgeMaster p
  let (ale, ret) := cpswAleVlanDelModify params.ale s.ale vid portMask
  let s := { s with ale := ale }
  if ret ≠ 0 then (s, ret)
  else
    -- nobody cares for what the next deletions return
    let deleted := (cpswAleDelUcast s.ale ndev.macAddr hostPortNum aleVlan vid).1
    let s := if orig.bridgeMaster then { s with ale := deleted } else s
    let s := if vid = cpswGetPvid params s p then cpswSetPvid params s p 0 false 0 else s
    ({ s with ale := (cpswAleDelMcast params.ale s.ale broadcast portMask aleVlan vid).1 }, ret)

def cpswPortVlansAdd (params : CpswParams) (s : State) (p : Port) (ndev : NetDev)
    (vid flags : U16) (orig : OrigDev) : State × ℤ :=
  let untag := flags &&& bridgeVlanInfoUntagged != 0
  let pvid := flags &&& bridgeVlanInfoPvid != 0
  cpswPortVlanAdd params s p ndev untag pvid vid orig

def cpswPortMdbAdd (params : CpswParams) (s : State) (p : Port) (addr : MacAddr) (vid : U16)
    (orig : OrigDev) : State × ℤ :=
  let (ale, err) := cpswAleAddMcast params.ale s.ale addr (portMaskOf orig.bridgeMaster p) aleVlan
    vid 0
  ({ s with ale := ale }, err)

def cpswPortMdbDel (params : CpswParams) (s : State) (p : Port) (addr : MacAddr) (vid : U16)
    (orig : OrigDev) : State × ℤ :=
  let (ale, err) := cpswAleDelMcast params.ale s.ale addr (portMaskOf orig.bridgeMaster p) aleVlan
    vid
  ({ s with ale := ale }, err)

def cpswPortObjAdd (params : CpswParams) (s : State) (p : Port) (ndev : NetDev) (orig : OrigDev) :
    SwitchdevObj → State × ℤ
  | .portVlan vid flags => cpswPortVlansAdd params s p ndev vid flags orig
  | .portMdb addr vid | .hostMdb addr vid => cpswPortMdbAdd params s p addr vid orig
  | .other => (s, -eopnotsupp)

def cpswPortObjDel (params : CpswParams) (s : State) (p : Port) (ndev : NetDev) (orig : OrigDev) :
    SwitchdevObj → State × ℤ
  | .portVlan vid _ => cpswPortVlanDel params s p ndev vid orig
  | .portMdb addr vid | .hostMdb addr vid => cpswPortMdbDel params s p addr vid orig
  | .other => (s, -eopnotsupp)

/-- fdb->vid ? ALE_VLAN : 0 -/
def fdbFlags (vid : U16) : U32 := if vid ≠ 0 then aleVlan else 0

/-- The port of the switch that a static address is on. The driver's own is on the host. -/
def fdbPort (p : Port) (ndev : NetDev) (addr : MacAddr) : U32 :=
  if ndev.macAddr = addr then hostPortNum else BitVec.ofNat 32 (emacPort p)

/-- The work, with the address that it reports to the bridge as offloaded. -/
def cpswSwitchdevEventWork (params : CpswParams) (s : State) (w : EventWork) (ndev : NetDev) :
    State × Option (MacAddr × U16) :=
  let fdb := w.fdbInfo
  let port := fdbPort w.port ndev fdb.addr
  let (ale, offloaded) :=
    match w.event with
    | .fdbAddToDevice =>
      if !fdb.addedByUser || fdb.isLocal then (s.ale, none)
      else
        -- reported no matter what the add returns
        ((cpswAleAddUcast params.ale s.ale fdb.addr port (fdbFlags fdb.vid) fdb.vid).1,
          some (fdb.addr, fdb.vid))
    | .fdbDelToDevice =>
      if !fdb.addedByUser || fdb.isLocal then (s.ale, none)
      else ((cpswAleDelUcast s.ale fdb.addr port (fdbFlags fdb.vid) fdb.vid).1, none)
    | .other => (s.ale, none)
  ({ s with
    ale := ale
    refs := Function.update s.refs w.port (s.refs w.port - 1) }, offloaded)

/-- The notifier. `portDevCheck` is what cpsw_port_dev_check says of the device, and `workAlloc`
and `addrAlloc` are whether there is memory for the work and for its copy of the address. -/
def cpswSwitchdevEvent (s : State) (p : Port) (event : SwitchdevEvent) (fdbInfo : FdbInfo)
    (portDevCheck workAlloc addrAlloc : Bool) : State × Notify :=
  if !portDevCheck then (s, .done)
  else if !workAlloc then (s, .bad)
  else
    match event with
    | .fdbAddToDevice | .fdbDelToDevice =>
      if !addrAlloc then (s, .bad)
      else
        ({ s with
          works := s.works ++ [⟨p, event, fdbInfo⟩]
          refs := Function.update s.refs p (s.refs p + 1) }, .done)
    | .other => (s, .done)

inductive Op
  | attrSet (p : Port) (attr : SwitchdevAttr)
  | objAdd (p : Port) (ndev : NetDev) (orig : OrigDev) (obj : SwitchdevObj)
  | objDel (p : Port) (ndev : NetDev) (orig : OrigDev) (obj : SwitchdevObj)
  | event (p : Port) (event : SwitchdevEvent) (fdbInfo : FdbInfo)
      (portDevCheck workAlloc addrAlloc : Bool)
  /-- the work queue runs one of the works -/
  | work (i : ℕ) (ndev : NetDev)
  /-- the stack forgets a net device that nobody holds -/
  | unregister (p : Port)
  /-- the hardware learns, refreshes or ages out an entry -/
  | hardware (idx : ℕ) (aleEntry : AleEntry)

/-- One step, with what the bridge is told: an error number of zero where it is told nothing. -/
def step (params : CpswParams) (s : State) : Op → Option (State × ℤ)
  | .attrSet p attr => if s.registered p then some (cpswPortAttrSet params s p attr) else none
  | .objAdd p ndev orig obj =>
    if s.registered p then some (cpswPortObjAdd params s p ndev orig obj) else none
  | .objDel p ndev orig obj =>
    if s.registered p then some (cpswPortObjDel params s p ndev orig obj) else none
  | .event p event fdbInfo portDevCheck workAlloc addrAlloc =>
    if s.registered p then
      some ((cpswSwitchdevEvent s p event fdbInfo portDevCheck workAlloc addrAlloc).1, 0)
    else none
  | .work i ndev =>
    match s.works[i]? with
    | none => none
    | some w =>
      some ((cpswSwitchdevEventWork params { s with works := s.works.eraseIdx i } w ndev).1, 0)
  | .unregister p =>
    if s.registered p && s.refs p == 0 then
      some ({ s with registered := Function.update s.registered p false }, 0)
    else none
  | .hardware idx aleEntry =>
    if hardwareMay s.ale idx aleEntry then
      some ({ s with ale := cpswAleWrite s.ale idx aleEntry }, 0)
    else none

/-- VLAN ids are below 4096, groups are multicast addresses, and the addresses of net devices and
of the bridge's forwarding table are not. -/
def WellFormed (_ : State) : Op → Prop
  | .objAdd _ ndev _ obj | .objDel _ ndev _ obj =>
    isMulticastEtherAddr ndev.macAddr = false ∧
      match obj with
      | .portVlan vid _ => vid.toNat < vlanNVid
      | .portMdb addr vid | .hostMdb addr vid =>
        isMulticastEtherAddr addr = true ∧ vid.toNat < vlanNVid
      | .other => True
  | .event _ _ fdbInfo _ _ _ =>
    isMulticastEtherAddr fdbInfo.addr = false ∧ fdbInfo.vid.toNat < vlanNVid
  | .attrSet _ _ | .work _ _ | .unregister _ | .hardware _ _ => True

instance (s : State) : DecidablePred (WellFormed s)
  | .objAdd _ ndev _ obj | .objDel _ ndev _ obj => match obj with
    | .portVlan vid _ => inferInstanceAs (Decidable
        (isMulticastEtherAddr ndev.macAddr = false ∧ vid.toNat < vlanNVid))
    | .portMdb addr vid | .hostMdb addr vid => inferInstanceAs (Decidable
        (isMulticastEtherAddr ndev.macAddr = false ∧
          isMulticastEtherAddr addr = true ∧ vid.toNat < vlanNVid))
    | .other => inferInstanceAs (Decidable (isMulticastEtherAddr ndev.macAddr = false ∧ True))
  | .event _ _ fdbInfo _ _ _ => inferInstanceAs (Decidable
      (isMulticastEtherAddr fdbInfo.addr = false ∧ fdbInfo.vid.toNat < vlanNVid))
  | .attrSet _ _ | .work _ _ | .unregister _ | .hardware _ _ => inferInstanceAs (Decidable True)

/-- The driver holds a net device once for each work of its port, and only registered ones. -/
structure Held (s : State) : Prop where
  refs : ∀ p, s.refs p = s.works.countP fun w => w.port == p
  registered : ∀ w ∈ s.works, s.registered w.port = true

variable {params : CpswParams} {s s' : State} {p : Port}

theorem Held.congr {ale : CpswAle} {slaveRegs : Port → SlaveRegs} (h : Held s) :
    Held { s with ale := ale, slaveRegs := slaveRegs } :=
  ⟨h.refs, h.registered⟩

theorem attrSet_eq (params : CpswParams) (s : State) (p : Port) (attr : SwitchdevAttr) :
    ∃ ale, (cpswPortAttrSet params s p attr).1 = { s with ale := ale } := by
  cases attr with
  | portPreBridgeFlags mask val => exact ⟨_, rfl⟩
  | portStpState state =>
    unfold cpswPortAttrSet cpswPortStpStateSet
    dsimp only
    split
    · exact ⟨_, rfl⟩
    split
    · exact ⟨_, rfl⟩
    split
    · exact ⟨_, rfl⟩
    split <;> exact ⟨_, rfl⟩
  | portBridgeFlags mask val =>
    unfold cpswPortAttrSet cpswPortAttrBrFlagsSet
    dsimp only
    split <;> exact ⟨_, rfl⟩
  | other => exact ⟨_, rfl⟩

theorem objAdd_eq (params : CpswParams) (s : State) (p : Port) (ndev : NetDev) (orig : OrigDev)
    (obj : SwitchdevObj) : ∃ ale slaveRegs,
      (cpswPortObjAdd params s p ndev orig obj).1 = { s with ale := ale, slaveRegs := slaveRegs } := by
  cases obj with
  | portVlan vid flags =>
    unfold cpswPortObjAdd cpswPortVlansAdd cpswPortVlanAdd cpswSetPvid
    dsimp only
    generalize cpswAleVlanAddModify params.ale s.ale vid _ _ _ _ = r
    split
    · exact ⟨_, _, rfl⟩
    · cases orig.bridgeMaster <;> cases flags &&& bridgeVlanInfoPvid != 0 <;> exact ⟨_, _, rfl⟩
  | portMdb addr vid => exact ⟨_, _, rfl⟩
  | hostMdb addr vid => exact ⟨_, _, rfl⟩
  | other => exact ⟨_, _, rfl⟩

theorem objDel_eq (params : CpswParams) (s : State) (p : Port) (ndev : NetDev) (orig : OrigDev)
    (obj : SwitchdevObj) : ∃ ale slaveRegs,
      (cpswPortObjDel params s p ndev orig obj).1 = { s with ale := ale, slaveRegs := slaveRegs } := by
  cases obj with
  | portVlan vid flags =>
    unfold cpswPortObjDel cpswPortVlanDel cpswSetPvid
    dsimp only
    generalize cpswAleVlanDelModify params.ale s.ale vid _ = r
    split
    · exact ⟨_, _, rfl⟩
    · obtain ⟨ale, hhost⟩ : ∃ ale, (if orig.bridgeMaster then { { s with ale := r.1 } with ale :=
          (cpswAleDelUcast r.1 ndev.macAddr hostPortNum aleVlan vid).1 }
          else { s with ale := r.1 }) = { s with ale := ale } := by
        split <;> exact ⟨_, rfl⟩
      rw [hhost]
      split <;> exact ⟨_, _, rfl⟩
  | portMdb addr vid => exact ⟨_, _, rfl⟩
  | hostMdb addr vid => exact ⟨_, _, rfl⟩
  | other => exact ⟨_, _, rfl⟩

theorem countP_port_update {refs : Port → ℕ} {n : ℕ} {works : List EventWork} {p q : Port}
    (hq : q ≠ p → refs q = works.countP fun w => w.port == q)
    (hp : n = works.countP fun w => w.port == p) :
    Function.update refs p n q = works.countP fun w => w.port == q := by
  by_cases heq : q = p
  · rw [heq, Function.update_self]
    exact hp
  · rw [Function.update_of_ne heq]
    exact hq heq

theorem Held.event (h : Held s) (hreg : s.registered p = true) (event : SwitchdevEvent)
    (fdbInfo : FdbInfo) (portDevCheck workAlloc addrAlloc : Bool) :
    Held (cpswSwitchdevEvent s p event fdbInfo portDevCheck workAlloc addrAlloc).1 := by
  have hqueued : Held { s with
      works := s.works ++ [⟨p, event, fdbInfo⟩]
      refs := Function.update s.refs p (s.refs p + 1) } := by
    refine ⟨fun q => countP_port_update (fun hq => ?_) ?_, fun w hw => ?_⟩
    · have hother : ((p : Port) == q) = false := beq_eq_false_iff_ne.mpr (Ne.symm hq)
      rw [h.refs q, List.countP_append, List.countP_singleton]
      simp [hother]
    · rw [h.refs p, List.countP_append, List.countP_singleton]
      simp
    · rcases List.mem_append.mp hw with hold | hnew
      · exact h.registered w hold
      · rw [List.mem_singleton.mp hnew]
        exact hreg
  unfold cpswSwitchdevEvent
  split
  · exact h
  split
  · exact h
  cases event with
  | other => exact h
  | fdbAddToDevice => cases addrAlloc with
    | false => exact h
    | true => exact hqueued
  | fdbDelToDevice => cases addrAlloc with
    | false => exact h
    | true => exact hqueued

/-- A work that has run gives up its own reference. -/
theorem Held.work (h : Held s) {i : ℕ} {w : EventWork} (hw : s.works[i]? = some w)
    (ndev : NetDev) : Held
      (cpswSwitchdevEventWork params { s with works := s.works.eraseIdx i } w ndev).1 := by
  obtain ⟨hi, hget⟩ := List.getElem?_eq_some_iff.mp hw
  have hcount : ∀ q : Port, s.works.countP (fun w => w.port == q) =
      (s.works.eraseIdx i).countP (fun w => w.port == q) + if w.port == q then 1 else 0 := by
    intro q
    have hperm := List.getElem_cons_eraseIdx_perm hi
    rw [← hperm.countP_eq, List.countP_cons, hget]
  refine ⟨fun q => countP_port_update (fun hq => ?_) ?_, fun w' hw' => ?_⟩
  · have hother : (w.port == q) = false := beq_eq_false_iff_ne.mpr (Ne.symm hq)
    have hq' := hcount q
    rw [hother, if_neg (by decide), Nat.add_zero] at hq'
    exact (h.refs q).trans hq'
  · have hp := hcount w.port
    rw [beq_self_eq_true, if_pos rfl, ← h.refs] at hp
    exact Nat.sub_eq_of_eq_add hp
  · exact h.registered w' (List.mem_of_mem_eraseIdx hw')

theorem Held.step (h : Held s) {op : Op} {r : State × ℤ} (hst : step params s op = some r) :
    Held r.1 := by
  cases op with
  | attrSet p attr =>
    simp only [Switchdev.step] at hst
    split at hst
    · cases hst
      obtain ⟨ale, heq⟩ := attrSet_eq params s p attr
      rw [heq]
      exact h.congr
    · cases hst
  | objAdd p ndev orig obj =>
    simp only [Switchdev.step] at hst
    split at hst
    · cases hst
      obtain ⟨ale, slaveRegs, heq⟩ := objAdd_eq params s p ndev orig obj
      rw [heq]
      exact h.congr
    · cases hst
  | objDel p ndev orig obj =>
    simp only [Switchdev.step] at hst
    split at hst
    · cases hst
      obtain ⟨ale, slaveRegs, heq⟩ := objDel_eq params s p ndev orig obj
      rw [heq]
      exact h.congr
    · cases hst
  | event p event fdbInfo portDevCheck workAlloc addrAlloc =>
    simp only [Switchdev.step] at hst
    split at hst
    · rename_i hreg
      cases hst
      exact h.event hreg event fdbInfo portDevCheck workAlloc addrAlloc
    · cases hst
  | work i ndev =>
    simp only [Switchdev.step] at hst
    split at hst
    · cases hst
    · cases hst
      exact h.work ‹_› ndev
  | unregister p =>
    simp only [Switchdev.step] at hst
    split at hst
    · rename_i hfree
      cases hst
      simp only [Bool.and_eq_true, beq_iff_eq] at hfree
      refine ⟨h.refs, fun w hw => ?_⟩
      have hne : w.port ≠ p := by
        rintro rfl
        have hnone := h.refs w.port
        rw [hfree.2, eq_comm, List.countP_eq_zero] at hnone
        exact hnone w hw (beq_self_eq_true _)
      exact (Function.update_of_ne hne _ _).trans (h.registered w hw)
    · cases hst
  | hardware idx aleEntry =>
    simp only [Switchdev.step] at hst
    split at hst
    · cases hst
      exact h.congr
    · cases hst

end CpswDriver.Switchdev
