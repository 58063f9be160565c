import CpswDriver.Cpsw.Switchdev
import CpswDriver.Lib.BitSet

/-!
The bridge's view of the switch. A VLAN is a set of ports, some of which send
untagged, an address is on a port or is that of a group of ports, and each port
has a state and a port VLAN. What the bridge asks for and is granted changes
this view, and the tables and registers that the driver writes show it, whatever
the hardware learns in between.
-/

namespace CpswDriver.Switchdev

open Ale Runs BitSet
open SwitchMode (alePortStateDisable alePortStateForward)

section Vlan

variable {ι : Type*} [DecidableEq ι]

def setMember (s : Finset ι) (i : ι) (b : Bool) : Finset ι := (s \ {i}) ∪ if b then {i} else ∅

/-- Ports that are in a VLAN, with those that send untagged, those that get registered
multicast, and those that unregistered multicast is flooded to. -/
structure Vlan (ι : Type*) where
  ports : Finset ι
  untagged : Finset ι
  multicast : Finset ι
  flood : Finset ι
  nonempty : ports.Nonempty
  untagged_sub : untagged ⊆ ports
  multicast_sub : multicast ⊆ ports

theorem setMember_sub {s t : Finset ι} (h : s ⊆ t) (i : ι) (b : Bool) :
    setMember s i b ⊆ insert i t := by
  intro j hj
  rcases Finset.mem_union.mp hj with hs | hb
  · exact Finset.mem_insert_of_mem (h (Finset.mem_sdiff.mp hs).1)
  · cases b with
    | false => exact absurd hb (Finset.notMem_empty j)
    | true => exact Finset.mem_insert.mpr (.inl (Finset.mem_singleton.mp hb))

namespace Vlan

def portsOf (v : Option (Vlan ι)) : Finset ι := (v.map ports).getD ∅
def untaggedOf (v : Option (Vlan ι)) : Finset ι := (v.map untagged).getD ∅
def multicastOf (v : Option (Vlan ι)) : Finset ι := (v.map multicast).getD ∅
def floodOf (v : Option (Vlan ι)) : Finset ι := (v.map flood).getD ∅

/-- A port joins the VLAN, or joins it again in another way. -/
def join (v : Option (Vlan ι)) (i : ι) (untag mcast unreg : Bool) : Vlan ι where
  ports := insert i (portsOf v)
  untagged := setMember (untaggedOf v) i untag
  multicast := setMember (multicastOf v) i mcast
  flood := setMember (floodOf v) i unreg
  nonempty := Finset.insert_nonempty i _
  untagged_sub := by
    apply setMember_sub
    cases v with
    | none => exact Finset.empty_subset _
    | some v => exact v.untagged_sub
  multicast_sub := by
    apply setMember_sub
    cases v with
    | none => exact Finset.empty_subset _
    | some v => exact v.multicast_sub

/-- A port leaves the VLAN, and the last one takes it along. -/
def leave (v : Vlan ι) (i : ι) : Option (Vlan ι) :=
  if h : (v.ports \ {i}).Nonempty then some {
    ports := v.ports \ {i}
    untagged := v.untagged ∩ (v.ports \ {i})
    multicast := v.multicast ∩ (v.ports \ {i})
    flood := v.flood ∩ (v.ports \ {i})
    nonempty := h
    untagged_sub := Finset.inter_subset_right
    multicast_sub := Finset.inter_subset_right }
  else none

def setFlood (v : Vlan ι) (i : ι) (b : Bool) : Vlan ι := { v with flood := setMember v.flood i b }

theorem mem_join (v : Option (Vlan ι)) (i j : ι) (untag mcast unreg : Bool) :
    j ∈ (join v i untag mcast unreg).ports ↔ j = i ∨ j ∈ portsOf v := Finset.mem_insert

theorem mem_leave (v : Vlan ι) (i j : ι) : j ∈ portsOf (v.leave i) ↔ j ∈ v.ports ∧ j ≠ i := by
  unfold leave portsOf
  split
  · rw [Option.map_some, Option.getD_some, Finset.mem_sdiff, Finset.mem_singleton]
  · rename_i hempty
    rw [Finset.not_nonempty_iff_eq_empty] at hempty
    have hnot : j ∉ v.ports \ {i} := by
      rw [hempty]
      exact Finset.notMem_empty j
    rw [Finset.mem_sdiff, Finset.mem_singleton] at hnot
    exact iff_of_false (Finset.notMem_empty j) hnot

end Vlan

end Vlan

abbrev SwitchPort := Fin 3

def memberOf (cpuPort : Bool) (p : Port) : SwitchPort := if cpuPort then 0 else p.succ

abbrev FdbKey := MacAddr × U16

inductive FdbEntry
  | static (port : SwitchPort)
  | group (ports : Finset SwitchPort) (super : Bool) (mcastState : U32)

namespace FdbEntry

def ports : FdbEntry → Finset SwitchPort
  | static _ => ∅
  | group ports _ _ => ports

def joinGroup (v : Option FdbEntry) (i : SwitchPort) : FdbEntry :=
  group (insert i ((v.map ports).getD ∅)) false 0

/-- A port leaves, and the last one takes the group along. -/
def leaveGroup (i : SwitchPort) : FdbEntry → Option FdbEntry
  | static port => some (static port)
  | group ports super mcastState =>
    if ports \ {i} = ∅ then none else some (group (ports \ {i}) super mcastState)

end FdbEntry

inductive PortState
  | disable
  | block
  | learn
  | forward
  deriving DecidableEq

/-- The port state for a state of the spanning tree, if there is one. -/
def portStateOf (state : BitVec 8) : Option PortState :=
  if state = brStateForwarding then some .forward
  else if state = brStateLearning then some .learn
  else if state = brStateDisabled then some .disable
  else if state = brStateListening ∨ state = brStateBlocking then some .block
  else none

structure Bridge where
  vlan : U16 → Option (Vlan SwitchPort)
  fdb : FdbKey → Option FdbEntry
  state : Port → PortState
  pvid : Port → U16

namespace Bridge

def setFdb (b : Bridge) (k : FdbKey) (v : Option FdbEntry) : Bridge :=
  { b with fdb := Function.update b.fdb k v }

def setVlan (b : Bridge) (vid : U16) (v : Option (Vlan SwitchPort)) : Bridge :=
  { b with vlan := Function.update b.vlan vid v }

def setPvid (b : Bridge) (p : Port) (vid : U16) : Bridge :=
  { b with pvid := Function.update b.pvid p vid }

def attrSet (b : Bridge) (p : Port) : SwitchdevAttr → Bridge
  | .portStpState state => match portStateOf state with
    | some st => { b with state := Function.update b.state p st }
    | none => b
  | .portBridgeFlags mask val =>
    if testBits mask brMcastFlood then
      { b with vlan := fun vid =>
          (b.vlan vid).map fun v => v.setFlood p.succ (testBits val brMcastFlood) }
    else b
  | .portPreBridgeFlags _ _ | .other => b

/-- The host's own address comes with the VLANs that the host is in. -/
def vlanAdd (b : Bridge) (p : Port) (ndev : NetDev) (orig : OrigDev) (untag pvid : Bool)
    (vid : U16) : Bridge :=
  let flags := if orig.bridgeMaster then orig.flags else ndev.flags
  let b := b.setVlan vid (some (Vlan.join (b.vlan vid) (memberOf orig.bridgeMaster p) untag
    (testBits flags iffMulticast) orig.bridgeMaster))
  let b := if orig.bridgeMaster then b.setFdb (ndev.macAddr, vid) (some (.static 0)) else b
  if pvid then b.setPvid p vid else b

def vlanDel (b : Bridge) (p : Port) (ndev : NetDev) (orig : OrigDev) (vid : U16) : Bridge :=
  let i := memberOf orig.bridgeMaster p
  let b := b.setVlan vid ((b.vlan vid).bind (Vlan.leave · i))
  let b := if orig.bridgeMaster then b.setFdb (ndev.macAddr, vid) none else b
  let b := if vid = b.pvid p then b.setPvid p 0 else b
  b.setFdb (broadcast, vid) ((b.fdb (broadcast, vid)).bind (FdbEntry.leaveGroup i))

def objAdd (b : Bridge) (p : Port) (ndev : NetDev) (orig : OrigDev) : SwitchdevObj → Bridge
  | .portVlan vid flags => b.vlanAdd p ndev orig (flags &&& bridgeVlanInfoUntagged != 0)
      (flags &&& bridgeVlanInfoPvid != 0) vid
  | .portMdb addr vid | .hostMdb addr vid =>
    b.setFdb (addr, vid)
      (some (FdbEntry.joinGroup (b.fdb (addr, vid)) (memberOf orig.bridgeMaster p)))
  | .other => b

def objDel (b : Bridge) (p : Port) (ndev : NetDev) (orig : OrigDev) : SwitchdevObj → Bridge
  | .portVlan vid _ => b.vlanDel p ndev orig vid
  | .portMdb addr vid | .hostMdb addr vid =>
    b.setFdb (addr, vid)
      ((b.fdb (addr, vid)).bind (FdbEntry.leaveGroup (memberOf orig.bridgeMaster p)))
  | .other => b

/-- A static address that the user has set is on the port, the port's own on the host. -/
def work (b : Bridge) (w : EventWork) (ndev : NetDev) : Bridge :=
  let k := (w.fdbInfo.addr, w.fdbInfo.vid)
  if w.fdbInfo.addedByUser && !w.fdbInfo.isLocal then
    match w.event with
    | .fdbAddToDevice =>
      b.setFdb k (some (.static (memberOf (decide (ndev.macAddr = w.fdbInfo.addr)) w.port)))
    | .fdbDelToDevice => b.setFdb k none
    | .other => b
  else b

/-- What a step that the driver reports no error for makes of the view. -/
def apply (b : Bridge) (s : State) : Op → Bridge
  | .attrSet p attr => b.attrSet p attr
  | .objAdd p ndev orig obj => b.objAdd p ndev orig obj
  | .objDel p ndev orig obj => b.objDel p ndev orig obj
  | .work i ndev => match s.works[i]? with
    | some w => b.work w ndev
    | none => b
  | .event _ _ _ _ _ _ | .unregister _ | .hardware _ _ => b

end Bridge

/-- The driver, and the bridge that it serves. -/
structure System where
  driver : State
  bridge : Bridge

def System.step (params : CpswParams) (sys : System) (op : Op) : Option System :=
  (Switchdev.step params sys.driver op).map fun r =>
    ⟨r.1, if r.2 = 0 then sys.bridge.apply sys.driver op else sys.bridge⟩

def Vlan.masks (v : Vlan SwitchPort) : VlanMasks where
  members := toWord 32 v.ports
  untag := toWord 32 v.untagged
  regMcast := toWord 32 v.multicast
  unregMcast := toWord 32 v.flood

def FdbEntry.entry : FdbEntry → AddrEntry
  | static port => .ucast aleUcastPersistant (BitVec.ofNat 32 port.val) false false
  | group ports super mcastState => .mcast (toWord 32 ports) super mcastState

def PortState.value : PortState → U32
  | disable => alePortStateDisable
  | block => alePortStateBlock
  | learn => alePortStateLearn
  | forward => alePortStateForward

variable {i : SwitchPort} {p : Port}

theorem emacPort_eq (p : Port) : emacPort p = (p.succ : SwitchPort).val := rfl

theorem toWord_member (i : SwitchPort) : toWord 32 {i} = 1#32 <<< i.val :=
  toWord_singleton (by decide) i

theorem portMaskOf_eq (cpuPort : Bool) (p : Port) :
    portMaskOf cpuPort p = toWord 32 {memberOf cpuPort p} := by
  rw [toWord_member]
  unfold portMaskOf memberOf
  cases cpuPort with
  | false => exact congrArg (1#32 <<< ·) (emacPort_eq p)
  | true => rfl

theorem toWord_pick (b : Bool) (i : SwitchPort) :
    toWord 32 (if b then {i} else ∅ : Finset SwitchPort) = if b then toWord 32 {i} else 0 := by
  cases b with
  | false => exact toWord_empty
  | true => rfl

theorem toWord_setMember (s : Finset SwitchPort) (i : SwitchPort) (b : Bool) :
    toWord 32 (setMember s i b) =
      (toWord 32 s &&& ~~~toWord 32 {i}) ||| if b then toWord 32 {i} else 0 := by
  unfold setMember
  rw [toWord_union (by decide), toWord_sdiff (by decide), toWord_pick]

theorem toWord_insert (s : Finset SwitchPort) (i : SwitchPort) :
    toWord 32 (insert i s) = toWord 32 s ||| toWord 32 {i} := by
  rw [Finset.insert_eq, Finset.union_comm, toWord_union (by decide)]

theorem width_toWord {params : AleParams} (hports : params.alePorts = 3) (s : Finset SwitchPort) :
    Width params (toWord 32 s) :=
  width_of_lt hports (toNat_toWord_lt s)

theorem getD_masks (v : Option (Vlan SwitchPort)) :
    (v.map Vlan.masks).getD VlanMasks.empty = ⟨toWord 32 (Vlan.portsOf v),
      toWord 32 (Vlan.untaggedOf v), toWord 32 (Vlan.multicastOf v), toWord 32 (Vlan.floodOf v)⟩ := by
  cases v with
  | none =>
    have hzero : toWord 32 (∅ : Finset SwitchPort) = 0 := toWord_empty
    simp only [Vlan.portsOf, Vlan.untaggedOf, Vlan.multicastOf, Vlan.floodOf, Option.map_none,
      Option.getD_none, hzero]
    rfl
  | some v => rfl

theorem masks_join (v : Option (Vlan SwitchPort)) (i : SwitchPort) (untag mcast unreg : Bool) :
    (Vlan.join v i untag mcast unreg).masks =
      ((v.map Vlan.masks).getD VlanMasks.empty).addPorts (toWord 32 {i})
        (if untag then toWord 32 {i} else 0) (if mcast then toWord 32 {i} else 0)
        (if unreg then toWord 32 {i} else 0) := by
  rw [getD_masks]
  unfold Vlan.masks Vlan.join VlanMasks.addPorts
  simp only [toWord_insert, toWord_setMember]

theorem masks_leave (v : Vlan SwitchPort) (i : SwitchPort) :
    (v.leave i).map Vlan.masks = v.masks.delPorts (toWord 32 {i}) := by
  have hmembers : v.masks.members &&& ~~~toWord 32 {i} = toWord 32 (v.ports \ {i}) :=
    (toWord_sdiff (by decide) _ _).symm
  unfold Vlan.leave VlanMasks.delPorts
  rw [hmembers]
  split
  · rename_i hleft
    have hne : toWord 32 (v.ports \ {i}) ≠ 0 := by
      rw [ne_eq, toWord_eq_zero_iff (by decide)]
      exact hleft.ne_empty
    rw [if_neg hne, Option.map_some]
    simp only [Vlan.masks, toWord_inter (show 3 ≤ 32 by decide)]
  · rename_i hempty
    rw [if_pos ((toWord_eq_zero_iff (by decide)).mpr (Finset.not_nonempty_iff_eq_empty.mp hempty))]
    rfl

theorem masks_setFlood (v : Vlan SwitchPort) (i : SwitchPort) (b : Bool) :
    (v.setFlood i b).masks = { v.masks with
      unregMcast := if b then v.masks.unregMcast ||| toWord 32 {i}
        else v.masks.unregMcast &&& ~~~toWord 32 {i} } := by
  have hadd : v.flood \ {i} ∪ {i} = insert i v.flood := by
    rw [Finset.sdiff_union_self_eq_union, Finset.union_comm, Finset.insert_eq]
  have hflood : toWord 32 (setMember v.flood i b) = if b then toWord 32 v.flood ||| toWord 32 {i}
      else toWord 32 v.flood &&& ~~~toWord 32 {i} := by
    cases b with
    | false =>
      rw [toWord_setMember, if_neg (by decide), if_neg (by decide)]
      exact BitVec.or_zero
    | true => rw [if_pos rfl, ← toWord_insert, ← hadd]; rfl
  unfold Vlan.masks Vlan.setFlood
  dsimp only
  rw [hflood]

theorem entry_isFixed (v : FdbEntry) : v.entry.isFixed = true := by
  cases v <;> rfl

theorem entry_leaveGroup (v : FdbEntry) (i : SwitchPort) :
    (v.leaveGroup i).map FdbEntry.entry = v.entry.dropPorts (toWord 32 {i}) := by
  cases v with
  | static port => rfl
  | group ports super mcastState =>
    unfold FdbEntry.leaveGroup FdbEntry.entry AddrEntry.dropPorts
    dsimp only
    rw [← toWord_sdiff (by decide)]
    by_cases hempty : ports \ {i} = ∅
    · rw [if_pos hempty, if_pos ((toWord_eq_zero_iff (by decide)).mpr hempty)]
      rfl
    · rw [if_neg hempty, if_neg (mt (toWord_eq_zero_iff (by decide)).mp hempty)]
      rfl

theorem entry_joinGroup (v : Option FdbEntry) (i : SwitchPort) :
    (FdbEntry.joinGroup v i).entry = .mcast (toWord 32 {i} |||
      ((v.map FdbEntry.entry).map AddrEntry.ports).getD 0) false 0 := by
  have hold : ((v.map FdbEntry.entry).map AddrEntry.ports).getD 0 =
      toWord 32 ((v.map FdbEntry.ports).getD ∅) := by
    have hzero : toWord 32 (∅ : Finset SwitchPort) = 0 := toWord_empty
    rcases v with - | ⟨port | ⟨ports, super, mcastState⟩⟩
    · exact hzero.symm
    · exact hzero.symm
    · rfl
  rw [hold, BitVec.or_comm, ← toWord_insert]
  rfl

end CpswDriver.Switchdev
