import CpswDriver.Ale.Fixed
import CpswDriver.Cpsw.Filters
import Mathlib.Data.Finset.Prod

/-!
The two modes of the switch. In dual EMAC mode each port has a reserved VLAN to
itself, in switch mode the ports share the default VLAN. The mode can be set
while ports are up, which reprograms them in place, and while all are down,
which leaves the work to the next open. A port that is up should not tell which
way its mode came about.
-/

namespace CpswDriver.SwitchMode

open Ale Runs
open Filters (aleAllPorts aleMcastFwd isMulticast_broadcast flagsVid_vlan portMask_lt)

/-- The switch as it was probed. Slaves that are disabled have no net device.
`softReset` is what a soft reset makes of the registers of the lookup engine:
it keeps a register or resets it, to zero. -/
structure CpswParams where
  ale : AleParams
  version : CpswVersion
  defaultVlan : U16
  dualEmacResVlan : Port → U16
  macAddr : Port → MacAddr
  hasNdev : Port → Bool
  softReset : (ℕ → U32) → ℕ → U32
  devId : ale.dev.devId = "cpsw"
  alePorts : ale.alePorts = 3
  defaultVlan_lt : defaultVlan.toNat < vlanNVid
  resVlan_lt : ∀ p, (dualEmacResVlan p).toNat < vlanNVid
  resVlan_ne : ∀ p, dualEmacResVlan p ≠ defaultVlan
  resVlan_inj : ∀ p q, dualEmacResVlan p = dualEmacResVlan q → p = q
  macAddr_ucast : ∀ p, isMulticastEtherAddr (macAddr p) = false
  softReset_keeps : ∀ regs offset,
    softReset regs offset = regs offset ∨ softReset regs offset = 0

/-- The registers of the host port that depend on the mode. -/
structure HostPortRegs where
  txInCtl : U32
  portVlan : U32

/-- `phy` is the PHY that a port is connected to, with its link. -/
structure State where
  ale : CpswAle
  hostPortRegs : HostPortRegs
  slaveRegs : Port → SlaveRegs
  dualEmac : Bool
  brMembers : U32
  portVlan : Port → U16
  txPacketMin : Port → U32
  running : Port → Bool
  phy : Port → Option Bool
  usageCount : ℤ

/-- ETH_ZLEN -/
def cpswMinPacketSize : U32 := 60
/-- VLAN_ETH_ZLEN -/
def cpswMinPacketSizeVlan : U32 := 64

def cpswFifoNormalMode : U32 := 0
def cpswFifoDualMacMode : U32 := 1#32 <<< 16
def cpswAleVlanAware : U32 := 1

def alePort1 : U32 := 1#32 <<< 1
def alePort2 : U32 := 1#32 <<< 2
def aleMcastBlockLearnFwd : U32 := 1
def aleMcastFwd2 : U32 := 3
def alePortStateDisable : U32 := 0
def alePortStateForward : U32 := 3

def stpa : MacAddr
  | 0 => 0x01
  | 1 => 0x80
  | 2 => 0xc2
  | _ => 0x0

def cpswInitStpAleEntry (params : CpswParams) (ale : CpswAle) : CpswAle :=
  (cpswAleAddMcast params.ale ale stpa alePortHost aleSuper 0 aleMcastBlockLearnFwd).1

/-- What cpsw_init_host_port_switch does to the lookup engine. -/
def initHostPortSwitchAle (params : CpswParams) (ale : CpswAle) : CpswAle :=
  let ale := (cpswAleAddVlan params.ale ale params.defaultVlan aleAllPorts aleAllPorts aleAllPorts
    (alePort1 ||| alePort2)).1
  let ale := cpswInitStpAleEntry params ale
  let ale := (cpswAleControlSet params.ale ale 0 .p0UniFlood 1).1
  (cpswAleControlSet params.ale ale 0 .portNolearn 0).1

def cpswInitHostPortSwitch (params : CpswParams) (s : State) : State :=
  { s with
    hostPortRegs := ⟨cpswFifoNormalMode, params.defaultVlan.setWidth 32⟩
    ale := initHostPortSwitchAle params s.ale }

/-- What cpsw_init_host_port_dual_mac does to the lookup engine. -/
def initHostPortDualMacAle (params : CpswParams) (ale : CpswAle) : CpswAle :=
  let ale := (cpswAleControlSet params.ale ale 0 .p0UniFlood 0).1
  let ale := (cpswAleAddVlan params.ale ale params.defaultVlan aleAllPorts aleAllPorts 0 0).1
  (cpswAleControlSet params.ale ale 0 .portNolearn 1).1

def cpswInitHostPortDualMac (params : CpswParams) (s : State) : State :=
  { s with
    hostPortRegs := ⟨cpswFifoDualMacMode, params.defaultVlan.setWidth 32⟩
    ale := initHostPortDualMacAle params s.ale }

/-- What cpsw_init_host_port does that has to do with the mode: the registers that it sets up in
the same way in both modes are left out. -/
def cpswInitHostPort (params : CpswParams) (s : State) : State :=
  let ale := cpswAleStart params.ale { s.ale with regs := params.softReset s.ale.regs }
  let ale := (cpswAleControlSet params.ale ale 0 .vlanAware cpswAleVlanAware).1
  let s := { s with ale := ale }
  let s := if s.dualEmac then cpswInitHostPortDualMac params s else cpswInitHostPortSwitch params s
  { s with ale := (cpswAleControlSet params.ale s.ale 0 .portState alePortStateForward).1 }

/-- slave_write(slave, slave->port_vlan, reg) -/
def writePortVlan (params : CpswParams) (s : State) (p : Port) : State :=
  { s with
    slaveRegs := Function.update s.slaveRegs p (Function.update (s.slaveRegs p)
      (portVlanReg params.version) ((s.portVlan p).setWidth 32)) }

/-- What cpsw_port_add_dual_emac_def_ale_entries does to the lookup engine. -/
def dualEmacDefAleEntries (params : CpswParams) (ale : CpswAle) (p : Port) (vlan : U16) :
    CpswAle :=
  let ale := (cpswAleAddVlan params.ale ale vlan (portMask p) (portMask p) (portMask p) 0).1
  let ale := (cpswAleAddMcast params.ale ale broadcast alePortHost aleVlan vlan aleMcastFwd).1
  let ale := (cpswAleAddUcast params.ale ale (params.macAddr p) hostPortNum
    (aleVlan ||| aleSecure) vlan).1
  let ale := (cpswAleControlSet params.ale ale (emacPort p) .portDropUnknownVlan 1).1
  (cpswAleControlSet params.ale ale (emacPort p) .portNolearn 1).1

def cpswPortAddDualEmacDefAleEntries (params : CpswParams) (s : State) (p : Port) : State :=
  { writePortVlan params s p with ale := dualEmacDefAleEntries params s.ale p (s.portVlan p) }

/-- What cpsw_port_add_switch_def_ale_entries does to the lookup engine. -/
def switchDefAleEntries (params : CpswParams) (ale : CpswAle) (p : Port) (vlan : U16) : CpswAle :=
  let ale := (cpswAleControlSet params.ale ale (emacPort p) .portDropUnknownVlan 0).1
  let ale := (cpswAleControlSet params.ale ale (emacPort p) .portNolearn 0).1
  let ale := (cpswAleControlSet params.ale ale (emacPort p) .portNoSaUpdate 1).1
  let ale := (cpswAleAddMcast params.ale ale broadcast (portMask p) aleVlan vlan aleMcastFwd2).1
  (cpswAleAddUcast params.ale ale (params.macAddr p) hostPortNum aleVlan vlan).1

def cpswPortAddSwitchDefAleEntries (params : CpswParams) (s : State) (p : Port) : State :=
  { writePortVlan params s p with ale := switchDefAleEntries params s.ale p (s.portVlan p) }

/-- The callback of the PHY of a port, which has `link` by now. -/
def cpswAdjustLink (params : CpswParams) (s : State) (p : Port) (link : Bool) : State :=
  match s.phy p with
  | none => s
  | some _ =>
    let state := if link then alePortStateForward else alePortStateDisable
    { s with
      phy := Function.update s.phy p (some link)
      ale := (cpswAleControlSet params.ale s.ale (emacPort p) .portState state).1 }

/-- What cpsw_slave_open does that has to do with the mode. `phyFound` is whether there is a PHY
to connect to; its link is not up yet. -/
def cpswSlaveOpen (params : CpswParams) (s : State) (p : Port) (phyFound : Bool) : State :=
  let s := if s.dualEmac then cpswPortAddDualEmacDefAleEntries params s p
    else cpswPortAddSwitchDefAleEntries params s p
  if phyFound then { s with phy := Function.update s.phy p (some false) } else s

/-- A successful open. -/
def cpswNdoOpen (params : CpswParams) (s : State) (p : Port) (phyFound : Bool) : State :=
  let s := if s.usageCount = 0 then cpswInitHostPort params s else s
  let s := cpswSlaveOpen params s p phyFound
  { s with usageCount := s.usageCount + 1 }

/-- phy_stop, which reports a link that was up as down, and phy_disconnect -/
def phyStop (params : CpswParams) (s : State) (p : Port) : State :=
  let s := if s.phy p = some true then cpswAdjustLink params s p false else s
  { s with phy := Function.update s.phy p none }

def cpswNdoStop (params : CpswParams) (s : State) (p : Port) : State :=
  let s := phyStop params s p
  let ale := if s.usageCount ≤ 1 then cpswAleStop params.ale s.ale else s.ale
  { s with
    ale := ale
    usageCount := s.usageCount - 1 }

/-- The driver's own devlink parameters. -/
inductive CpswDlParam
  | switchMode
  | aleBypass
  deriving DecidableEq

def slaves : List Port := [0, 1]

def ifRunning (params : CpswParams) (s : State) : Bool :=
  slaves.any fun p => params.hasNdev p && s.running p

/-- The body of the loop that enables switch mode on the slaves. -/
def enableSwitchMode (params : CpswParams) (s : State) (p : Port) : State :=
  if !params.hasNdev p then s
  else
    let s := { s with
      portVlan := Function.update s.portVlan p params.defaultVlan
      txPacketMin := Function.update s.txPacketMin p cpswMinPacketSizeVlan }
    if s.running p then cpswPortAddSwitchDefAleEntries params s p else s

def disableSwitchMode (params : CpswParams) (s : State) (p : Port) : State :=
  if !params.hasNdev p then s
  else
    let s := { s with
      portVlan := Function.update s.portVlan p (params.dualEmacResVlan p)
      txPacketMin := Function.update s.txPacketMin p cpswMinPacketSize }
    cpswPortAddDualEmacDefAleEntries params s p

/-- The body of the loop while all net devices are down. -/
def recordMode (params : CpswParams) (switchEn : Bool) (s : State) (p : Port) : State :=
  if !params.hasNdev p then s
  else
    let vlan := if switchEn then params.defaultVlan else params.dualEmacResVlan p
    { s with portVlan := Function.update s.portVlan p vlan }

def bypassAndClear (params : CpswParams) (s : State) : State :=
  let ale := (cpswAleControlSet params.ale s.ale 0 .bypass 1).1
  { s with ale := (cpswAleControlSet params.ale ale 0 .clear 1).1 }

def bypassOff (params : CpswParams) (s : State) : State :=
  { s with ale := (cpswAleControlSet params.ale s.ale 0 .bypass 0).1 }

def cpswDlSwitchModeSet (params : CpswParams) (s : State) (id : CpswDlParam) (switchEn : Bool) :
    State × ℤ :=
  if id ≠ .switchMode then (s, -eopnotsupp)
  else if switchEn = !s.dualEmac then (s, 0)
  else if !switchEn && s.brMembers != 0 then (s, -einval)
  else if !ifRunning params s then
    (slaves.foldl (recordMode params switchEn) { s with dualEmac := !switchEn }, 0)
  else if switchEn then
    let s := cpswInitHostPortSwitch params (bypassAndClear params s)
    let s := bypassOff params (slaves.foldl (enableSwitchMode params) s)
    ({ s with dualEmac := false }, 0)
  else
    let s := cpswInitHostPortDualMac params (bypassAndClear params s)
    let s := bypassOff params (slaves.foldl (disableSwitchMode params) s)
    ({ s with dualEmac := true }, 0)

inductive Op
  | openPort (p : Port) (phyFound : Bool)
  | stopPort (p : Port)
  | switchModeSet (id : CpswDlParam) (switchEn : Bool)
  | adjustLink (p : Port) (link : Bool)
  /-- the hardware learns, refreshes or ages out an entry -/
  | hardware (idx : ℕ) (aleEntry : AleEntry)

/-- The network stack opens devices that are down, and stops those that are up. -/
def step (params : CpswParams) (s : State) : Op → Option State
  | .openPort p phyFound =>
    if params.hasNdev p && !s.running p then
      some { cpswNdoOpen params s p phyFound with running := Function.update s.running p true }
    else none
  | .stopPort p =>
    if s.running p then
      some { cpswNdoStop params s p with running := Function.update s.running p false }
    else none
  | .switchModeSet id switchEn => some (cpswDlSwitchModeSet params s id switchEn).1
  | .adjustLink p link => some (cpswAdjustLink params s p link)
  | .hardware idx aleEntry =>
    if hardwareMay s.ale idx aleEntry then some { s with ale := cpswAleWrite s.ale idx aleEntry }
    else none

/-- After the probe the switch is in dual EMAC mode, with every port down. The table has room for
the default entries of both modes. -/
structure Initial (params : CpswParams) (s : State) : Prop where
  dualEmac : s.dualEmac = true
  brMembers : s.brMembers = 0
  portVlan : s.portVlan = params.dualEmacResVlan
  txPacketMin : ∀ p, s.txPacketMin p = cpswMinPacketSize
  running : ∀ p, s.running p = false
  phy : ∀ p, s.phy p = none
  usageCount : s.usageCount = 0
  settled : Settled s.ale
  noSaUpdate : ∀ p, portField s.ale (emacPort p) .portNoSaUpdate = 0
  portState : ∀ p, portField s.ale (emacPort p) .portState = alePortStateDisable
  room : 16 ≤ s.ale.table.length

/-- The controls of a port that the mode and the link decide. -/
def modeControls : List AleControl :=
  [.portState, .portDropUnknownVlan, .portNolearn, .portNoSaUpdate]

def linkUp (s : State) (p : Port) : Bool := s.phy p == some true

def defAddrs (params : CpswParams) (s : State) (p : Port) : List AddrKey :=
  [(broadcast, (s.portVlan p).setWidth 32), (params.macAddr p, (s.portVlan p).setWidth 32),
    (stpa, 0)]

/-- The port is configured in the same way in both states. -/
structure SameConfig (params : CpswParams) (s t : State) (p : Port) : Prop where
  portVlan : s.portVlan p = t.portVlan p
  txPacketMin : s.txPacketMin p = t.txPacketMin p
  controls : ∀ c ∈ modeControls,
    portField s.ale (emacPort p) c = portField t.ale (emacPort p) c
  vlans : ∀ vid ∈ [params.defaultVlan, s.portVlan p],
    lookupVlan params.ale s.ale (vid.setWidth 32) = lookupVlan params.ale t.ale (vid.setWidth 32)
  addrs : ∀ k ∈ defAddrs params s p,
    lookupAddr params.ale s.ale k = lookupAddr params.ale t.ale k

def modeMin (dualEmac : Bool) : U32 :=
  if dualEmac then cpswMinPacketSize else cpswMinPacketSizeVlan

/-- A port is opened with the packet size of the mode, in switch mode a port is stopped only as
the last one, and switch mode is disabled only while all ports are down. -/
def Covered (s : State) : Op → Prop
  | .openPort p _ => s.txPacketMin p = modeMin s.dualEmac
  | .stopPort p => s.dualEmac = true ∨ ∀ q, s.running q = true → q = p
  | .switchModeSet id switchEn =>
    id ≠ .switchMode ∨ switchEn = true ∨ s.dualEmac = true ∨ ∀ p, s.running p = false
  | .adjustLink _ _ | .hardware _ _ => True

instance (s : State) : DecidablePred (Covered s)
  | .openPort p _ => inferInstanceAs (Decidable (s.txPacketMin p = modeMin s.dualEmac))
  | .stopPort p =>
    inferInstanceAs (Decidable (s.dualEmac = true ∨ ∀ q, s.running q = true → q = p))
  | .switchModeSet id switchEn => inferInstanceAs (Decidable
      (id ≠ .switchMode ∨ switchEn = true ∨ s.dualEmac = true ∨ ∀ p, s.running p = false))
  | .adjustLink _ _ | .hardware _ _ => inferInstanceAs (Decidable True)

variable {params : CpswParams} {ale ale' : CpswAle} {s s' t : State} {p q : Port} {E : Entries}
  {f : ℕ → AleControl → U32} {r : Port → Bool} {d : Bool}

def modeVlan (params : CpswParams) (dualEmac : Bool) (p : Port) : U16 :=
  if dualEmac then params.dualEmacResVlan p else params.defaultVlan

def vlanKeys (params : CpswParams) : Finset U32 :=
  {params.defaultVlan.setWidth 32, (params.dualEmacResVlan 0).setWidth 32,
    (params.dualEmacResVlan 1).setWidth 32}

def addrKeys (params : CpswParams) : Finset AddrKey :=
  insert (stpa, 0) (({broadcast, params.macAddr 0, params.macAddr 1} : Finset MacAddr) ×ˢ
    vlanKeys params)

/-- The engine holds default entries only, beside what the hardware learns. -/
abbrev Holding (params : CpswParams) (E : Entries) (f : ℕ → AleControl → U32) (ale : CpswAle) :
    Prop :=
  Programmed params.ale (vlanKeys params) (addrKeys params) E f ale

def groupKey (vid : U16) : AddrKey := (broadcast, vid.setWidth 32)
def macKey (params : CpswParams) (p : Port) (vid : U16) : AddrKey :=
  (params.macAddr p, vid.setWidth 32)

def hostEntry (secure : Bool) : AddrEntry := .ucast aleUcastPersistant hostPortNum secure false

def floodPorts (r : Port → Bool) : U32 :=
  (if r 0 then portMask 0 else 0) ||| (if r 1 then portMask 1 else 0)

/-- The default entries in dual EMAC mode, where `r` are the ports that have theirs. -/
structure DualEntries (params : CpswParams) (r : Port → Bool) (E : Entries) : Prop where
  vlan : E.vlan (params.defaultVlan.setWidth 32) = some ⟨aleAllPorts, aleAllPorts, 0, 0⟩
  portVlan : ∀ p, r p = true → E.vlan ((params.dualEmacResVlan p).setWidth 32) =
    some ⟨portMask p, portMask p, portMask p, 0⟩
  group : ∀ p, r p = true → E.addr (groupKey (params.dualEmacResVlan p)) =
    some (.mcast alePortHost false aleMcastFwd)
  portsOf : ∀ p, E.portsOf (groupKey (params.dualEmacResVlan p)) = 0 ∨
    E.portsOf (groupKey (params.dualEmacResVlan p)) = alePortHost
  mac : ∀ p, r p = true → E.addr (macKey params p (params.dualEmacResVlan p)) =
    some (hostEntry true)
  stp : E.addr (stpa, 0) = none

structure SwitchEntries (params : CpswParams) (r : Port → Bool) (E : Entries) : Prop where
  vlan : E.vlan (params.defaultVlan.setWidth 32) =
    some ⟨aleAllPorts, aleAllPorts, aleAllPorts, alePort1 ||| alePort2⟩
  group : E.addr (groupKey params.defaultVlan) =
    if r 0 || r 1 then some (.mcast (floodPorts r) false aleMcastFwd2) else none
  mac : ∀ p, r p = true → E.addr (macKey params p params.defaultVlan) = some (hostEntry false)
  stp : E.addr (stpa, 0) = some (.mcast alePortHost true aleMcastBlockLearnFwd)

def ModeEntries (params : CpswParams) (dualEmac : Bool) (r : Port → Bool) (E : Entries) : Prop :=
  if dualEmac then DualEntries params r E else SwitchEntries params r E

theorem CpswParams.directMasks (params : CpswParams) : DirectMasks params.ale :=
  directMasks_of_cpsw params.devId params.alePorts

theorem resVlan_mem (params : CpswParams) (p : Port) :
    (params.dualEmacResVlan p).setWidth 32 ∈ vlanKeys params := by
  unfold vlanKeys
  fin_cases p <;> simp

theorem defaultVlan_mem (params : CpswParams) :
    params.defaultVlan.setWidth 32 ∈ vlanKeys params := by
  unfold vlanKeys
  simp

theorem groupKey_mem {vid : U16} (h : vid.setWidth 32 ∈ vlanKeys params) :
    groupKey vid ∈ addrKeys params := by
  unfold addrKeys groupKey
  simp [h]

theorem macKey_mem {vid : U16} (h : vid.setWidth 32 ∈ vlanKeys params) (p : Port) :
    macKey params p vid ∈ addrKeys params := by
  unfold addrKeys macKey
  fin_cases p <;> simp [h]

theorem card_keys (params : CpswParams) : (vlanKeys params).card + (addrKeys params).card < 16 := by
  have hvlans : (vlanKeys params).card ≤ 3 := Finset.card_le_three
  have hmacs : ({broadcast, params.macAddr 0, params.macAddr 1} : Finset MacAddr).card ≤ 3 :=
    Finset.card_le_three
  have haddrs : (addrKeys params).card ≤ _ + 1 := Finset.card_insert_le _ _
  rw [Finset.card_product] at haddrs
  have hprod := Nat.mul_le_mul hmacs hvlans
  omega

/-- The keys of groups, of ports and of the spanning tree protocol are apart. -/
theorem mac_ne_group (params : CpswParams) (p : Port) (v : U32) {addr : MacAddr}
    (haddr : isMulticastEtherAddr addr = true) (vid : U16) : macKey params p vid ≠ (addr, v) := by
  intro heq
  have hsame : params.macAddr p = addr := congrArg Prod.fst heq
  have hucast := params.macAddr_ucast p
  rw [hsame, haddr] at hucast
  cases hucast

theorem group_ne_stp (vid : U16) (v : U32) : groupKey vid ≠ (stpa, v) := by
  intro heq
  have hsame : broadcast = stpa := congrArg Prod.fst heq
  have hne : broadcast ≠ stpa := by decide
  exact hne hsame

theorem resVlan_ne_iff (params : CpswParams) (p q : Port) :
    (params.dualEmacResVlan p).setWidth 32 = (params.dualEmacResVlan q).setWidth 32 ↔ p = q := by
  constructor
  · intro heq
    exact params.resVlan_inj p q (setWidth_inj heq)
  · intro heq
    rw [heq]

theorem resVlan_ne_default (params : CpswParams) (p : Port) :
    (params.dualEmacResVlan p).setWidth 32 ≠ params.defaultVlan.setWidth 32 := fun heq =>
  params.resVlan_ne p (setWidth_inj heq)

def dualHost (params : CpswParams) (E : Entries) : Entries :=
  E.setVlan params.defaultVlan ⟨aleAllPorts, aleAllPorts, 0, 0⟩

def switchHost (params : CpswParams) (E : Entries) : Entries :=
  (E.setVlan params.defaultVlan
    ⟨aleAllPorts, aleAllPorts, aleAllPorts, alePort1 ||| alePort2⟩).join (stpa, 0) alePortHost true
    aleMcastBlockLearnFwd

def dualPort (params : CpswParams) (E : Entries) (p : Port) (vlan : U16) : Entries :=
  ((E.setVlan vlan ⟨portMask p, portMask p, portMask p, 0⟩).join (groupKey vlan) alePortHost false
    aleMcastFwd).setAddr (macKey params p vlan) (hostEntry true)

def switchPort (params : CpswParams) (E : Entries) (p : Port) (vlan : U16) : Entries :=
  (E.join (groupKey vlan) (portMask p) false aleMcastFwd2).setAddr (macKey params p vlan)
    (hostEntry false)

theorem width_portMask (params : CpswParams) (p : Port) : Width params.ale (portMask p) :=
  width_of_lt params.alePorts (portMask_lt p)

theorem width_mask (params : CpswParams) {mask : U32} (h : mask.toNat < 8) :
    Width params.ale mask :=
  width_of_lt params.alePorts h

theorem emacPort_lt (params : CpswParams) (p : Port) : emacPort p < params.ale.alePorts := by
  have hlt := p.isLt
  have hports := params.alePorts
  unfold emacPort
  omega

theorem keyOf_vlan (addr : MacAddr) {flags : U32} (h : testBits flags aleVlan = true)
    (vid : U16) : keyOf addr flags vid = (addr, vid.setWidth 32) := by
  unfold keyOf flagsVid
  rw [if_pos h]

theorem host_lt (params : CpswParams) : hostPortNum.toNat < params.ale.alePorts := by
  rw [params.alePorts]
  decide

theorem p0UniFlood_shift : AleControl.p0UniFlood.engineShift = some 8 := rfl

theorem Holding.initDualMac (h : Holding params E f ale) :
    Holding params (dualHost params E) (setField f 0 .portNolearn 1)
      (initHostPortDualMacAle params ale) := by
  have hport : 0 < params.ale.alePorts := params.ale.alePorts_pos
  have hflood : Holding params E f _ := h.setEngine p0UniFlood_shift (by decide) 0 0
  have hvlan : Holding params _ f _ := hflood.addVlan params.directMasks params.defaultVlan_lt
    (width_mask params (by decide : aleAllPorts.toNat < 8))
    (width_mask params (by decide : aleAllPorts.toNat < 8))
    (width_mask params (by decide : (0#32).toNat < 8))
    (width_mask params (by decide : (0#32).toNat < 8)) (defaultVlan_mem params)
  exact hvlan.setPort rfl hport (by decide)

theorem Holding.initSwitch (h : Holding params E f ale) :
    Holding params (switchHost params E) (setField f 0 .portNolearn 0)
      (initHostPortSwitchAle params ale) := by
  have hport : 0 < params.ale.alePorts := params.ale.alePorts_pos
  have hvlan : Holding params _ f _ := h.addVlan params.directMasks params.defaultVlan_lt
    (width_mask params (by decide : aleAllPorts.toNat < 8))
    (width_mask params (by decide : aleAllPorts.toNat < 8))
    (width_mask params (by decide : aleAllPorts.toNat < 8))
    (width_mask params (by decide : (alePort1 ||| alePort2).toNat < 8)) (defaultVlan_mem params)
  have hkey : keyOf stpa aleSuper 0 = (stpa, 0) := rfl
  have hmem : keyOf stpa aleSuper 0 ∈ addrKeys params := by
    rw [hkey]
    exact Finset.mem_insert_self _ _
  have hstp : Holding params _ f (cpswAleAddMcast params.ale _ stpa alePortHost aleSuper 0
      aleMcastBlockLearnFwd).1 :=
    hvlan.addMcast (by decide) (by decide) (width_host params.ale) hmem
  have hsuper : testBits aleSuper aleSuper = true := by decide
  have hstate : aleMcastBlockLearnFwd &&& BitField.bitMask 32 2 = aleMcastBlockLearnFwd := by
    decide
  rw [hkey, hsuper, hstate] at hstp
  have hflood : Holding params _ f _ := hstp.setEngine p0UniFlood_shift (by decide) 0 1
  exact hflood.setPort rfl hport (by decide)

theorem Holding.portDualEmac (h : Holding params E f ale) (p : Port) {vlan : U16}
    (hlt : vlan.toNat < vlanNVid) (hmem : vlan.setWidth 32 ∈ vlanKeys params) :
    Holding params (dualPort params E p vlan)
      (setField (setField f (emacPort p) .portDropUnknownVlan 1) (emacPort p) .portNolearn 1)
      (dualEmacDefAleEntries params ale p vlan) := by
  have hport := emacPort_lt params p
  have hwidth := width_portMask params p
  have hvlan : Holding params _ f _ := h.addVlan params.directMasks hlt hwidth hwidth hwidth
    (width_mask params (by decide : (0#32).toNat < 8)) hmem
  have hgroup : keyOf broadcast aleVlan vlan = groupKey vlan := keyOf_vlan _ (by decide) vlan
  have hmcast : Holding params _ f (cpswAleAddMcast params.ale _ broadcast alePortHost aleVlan vlan
      aleMcastFwd).1 := hvlan.addMcast isMulticast_broadcast hlt (width_host params.ale)
    (hgroup ▸ groupKey_mem hmem)
  have hsuper : testBits aleVlan aleSuper = false := by decide
  have hstate : aleMcastFwd &&& BitField.bitMask 32 2 = aleMcastFwd := by decide
  rw [hgroup, hsuper, hstate] at hmcast
  have hmac : keyOf (params.macAddr p) (aleVlan ||| aleSecure) vlan = macKey params p vlan :=
    keyOf_vlan _ (by decide) vlan
  have hucast : Holding params _ f (cpswAleAddUcast params.ale _ (params.macAddr p) hostPortNum
      (aleVlan ||| aleSecure) vlan).1 := hmcast.addUcast (params.macAddr_ucast p) hlt
    (host_lt params) (hmac ▸ macKey_mem hmem p)
  have hsecure : testBits (aleVlan ||| aleSecure) aleSecure = true := by decide
  have hblocked : testBits (aleVlan ||| aleSecure) aleBlocked = false := by decide
  rw [hmac, hsecure, hblocked] at hucast
  have hdrop : Holding params _ _ _ := hucast.setPort
    (rfl : AleControl.portDropUnknownVlan.isPort = true) hport (by decide : (1#32).toNat < 2 ^ 1)
  exact hdrop.setPort rfl hport (by decide)

theorem Holding.portSwitch (h : Holding params E f ale) (p : Port) {vlan : U16}
    (hlt : vlan.toNat < vlanNVid) (hmem : vlan.setWidth 32 ∈ vlanKeys params) :
    Holding params (switchPort params E p vlan)
      (setField (setField (setField f (emacPort p) .portDropUnknownVlan 0) (emacPort p)
        .portNolearn 0) (emacPort p) .portNoSaUpdate 1)
      (switchDefAleEntries params ale p vlan) := by
  have hport := emacPort_lt params p
  have hdrop : Holding params E _ _ := h.setPort
    (rfl : AleControl.portDropUnknownVlan.isPort = true) hport (by decide : (0#32).toNat < 2 ^ 1)
  have hlearn : Holding params E _ _ := hdrop.setPort
    (rfl : AleControl.portNolearn.isPort = true) hport (by decide : (0#32).toNat < 2 ^ 1)
  have hupdate : Holding params E _ _ := hlearn.setPort
    (rfl : AleControl.portNoSaUpdate.isPort = true) hport (by decide : (1#32).toNat < 2 ^ 1)
  have hgroup : keyOf broadcast aleVlan vlan = groupKey vlan := keyOf_vlan _ (by decide) vlan
  have hmcast : Holding params _ _ (cpswAleAddMcast params.ale _ broadcast (portMask p) aleVlan vlan
      aleMcastFwd2).1 := hupdate.addMcast isMulticast_broadcast hlt (width_portMask params p)
    (hgroup ▸ groupKey_mem hmem)
  have hsuper : testBits aleVlan aleSuper = false := by decide
  have hstate : aleMcastFwd2 &&& BitField.bitMask 32 2 = aleMcastFwd2 := by decide
  rw [hgroup, hsuper, hstate] at hmcast
  have hmac : keyOf (params.macAddr p) aleVlan vlan = macKey params p vlan :=
    keyOf_vlan _ (by decide) vlan
  have hucast : Holding params _ _ (cpswAleAddUcast params.ale _ (params.macAddr p) hostPortNum
      aleVlan vlan).1 := hmcast.addUcast (params.macAddr_ucast p) hlt (host_lt params)
    (hmac ▸ macKey_mem hmem p)
  have hsecure : testBits aleVlan aleSecure = false := by decide
  have hblocked : testBits aleVlan aleBlocked = false := by decide
  rw [hmac, hsecure, hblocked] at hucast
  exact hucast

theorem addr_dualPort (params : CpswParams) (E : Entries) (p : Port) (vlan : U16) (k : AddrKey) :
    (dualPort params E p vlan).addr k =
      if k = macKey params p vlan then some (hostEntry true)
      else if k = groupKey vlan then
        some (.mcast (alePortHost ||| E.portsOf (groupKey vlan)) false aleMcastFwd)
      else E.addr k := by
  unfold dualPort Entries.setAddr Entries.join Entries.setAddr
  dsimp only
  rw [Function.update_apply, Function.update_apply]
  rfl

theorem addr_switchPort (params : CpswParams) (E : Entries) (p : Port) (vlan : U16)
    (k : AddrKey) : (switchPort params E p vlan).addr k =
      if k = macKey params p vlan then some (hostEntry false)
      else if k = groupKey vlan then
        some (.mcast (portMask p ||| E.portsOf (groupKey vlan)) false aleMcastFwd2)
      else E.addr k := by
  unfold switchPort Entries.setAddr Entries.join Entries.setAddr
  dsimp only
  rw [Function.update_apply, Function.update_apply]

theorem dualEntries_host (params : CpswParams) :
    DualEntries params (fun _ => false) (dualHost params Entries.empty) where
  vlan := Function.update_self _ _ _
  portVlan _ h := nomatch h
  group _ h := nomatch h
  portsOf _ := .inl rfl
  mac _ h := nomatch h
  stp := rfl

theorem switchEntries_host (params : CpswParams) :
    SwitchEntries params (fun _ => false) (switchHost params Entries.empty) := by
  have hstp : alePortHost ||| Entries.empty.portsOf (stpa, 0) = alePortHost := by decide
  have haddr : ∀ k, (switchHost params Entries.empty).addr k =
      if k = (stpa, 0) then some (.mcast alePortHost true aleMcastBlockLearnFwd) else none := by
    intro k
    unfold switchHost Entries.join Entries.setAddr
    dsimp only
    rw [Function.update_apply]
    exact congrArg (fun ports => if k = (stpa, 0) then
      some (AddrEntry.mcast ports true aleMcastBlockLearnFwd) else none) hstp
  refine ⟨Function.update_self _ _ _, ?_, (fun _ h => nomatch h), ?_⟩
  · rw [haddr, if_neg (group_ne_stp _ 0)]
    rfl
  · rw [haddr, if_pos rfl]

theorem DualEntries.mono (h : DualEntries params r E) {r' : Port → Bool}
    (hle : ∀ p, r' p = true → r p = true) : DualEntries params r' E where
  vlan := h.vlan
  portVlan p hp := h.portVlan p (hle p hp)
  group p hp := h.group p (hle p hp)
  portsOf := h.portsOf
  mac p hp := h.mac p (hle p hp)
  stp := h.stp

theorem update_cases (h : Function.update r p true q = true) : q = p ∨ q ≠ p ∧ r q = true := by
  by_cases heq : q = p
  · exact .inl heq
  · rw [Function.update_of_ne heq] at h
    exact .inr ⟨heq, h⟩

theorem DualEntries.addPort (h : DualEntries params r E) (p : Port) :
    DualEntries params (Function.update r p true)
      (dualPort params E p (params.dualEmacResVlan p)) := by
  have hports : alePortHost ||| E.portsOf (groupKey (params.dualEmacResVlan p)) = alePortHost := by
    rcases h.portsOf p with heq | heq <;> rw [heq] <;> decide
  have hgroup : ∀ q, (dualPort params E p (params.dualEmacResVlan p)).addr
      (groupKey (params.dualEmacResVlan q)) =
        if q = p then some (.mcast alePortHost false aleMcastFwd)
        else E.addr (groupKey (params.dualEmacResVlan q)) := by
    intro q
    have hmac : groupKey (params.dualEmacResVlan q) ≠ macKey params p (params.dualEmacResVlan p) :=
      fun heq => mac_ne_group params p _ isMulticast_broadcast _ heq.symm
    rw [addr_dualPort, if_neg hmac, hports]
    by_cases heq : q = p
    · rw [heq, if_pos rfl, if_pos rfl]
    · have hother : groupKey (params.dualEmacResVlan q) ≠ groupKey (params.dualEmacResVlan p) :=
        fun hkey => heq ((resVlan_ne_iff params q p).mp (congrArg Prod.snd hkey))
      rw [if_neg heq, if_neg hother]
  refine ⟨?_, fun q hq => ?_, fun q hq => ?_, fun q => ?_, fun q hq => ?_, ?_⟩
  · exact (Function.update_of_ne (resVlan_ne_default params p).symm _ _).trans h.vlan
  · rcases update_cases hq with rfl | ⟨hne, hrq⟩
    · exact Function.update_self _ _ _
    · have hkey : (params.dualEmacResVlan q).setWidth 32 ≠ (params.dualEmacResVlan p).setWidth 32 :=
        fun heq => hne ((resVlan_ne_iff params q p).mp heq)
      exact (Function.update_of_ne hkey _ _).trans (h.portVlan q hrq)
  · rw [hgroup q]
    rcases update_cases hq with rfl | ⟨hne, hrq⟩
    · exact if_pos rfl
    · rw [if_neg hne]
      exact h.group q hrq
  · unfold Entries.portsOf
    rw [hgroup q]
    split
    · exact .inr rfl
    · exact h.portsOf q
  · rw [addr_dualPort]
    rcases update_cases hq with rfl | ⟨hne, hrq⟩
    · exact if_pos rfl
    · have hkey : macKey params q (params.dualEmacResVlan q) ≠
          macKey params p (params.dualEmacResVlan p) := fun heq =>
        hne ((resVlan_ne_iff params q p).mp (congrArg Prod.snd heq))
      have hkey' : macKey params q (params.dualEmacResVlan q) ≠
          groupKey (params.dualEmacResVlan p) := mac_ne_group params q _ isMulticast_broadcast _
      rw [if_neg hkey, if_neg hkey']
      exact h.mac q hrq
  · have hkey : ((stpa, 0) : AddrKey) ≠ macKey params p (params.dualEmacResVlan p) := fun heq =>
      mac_ne_group params p 0 (by decide) _ heq.symm
    have hkey' : ((stpa, 0) : AddrKey) ≠ groupKey (params.dualEmacResVlan p) := fun heq =>
      group_ne_stp _ 0 heq.symm
    rw [addr_dualPort, if_neg hkey, if_neg hkey']
    exact h.stp

theorem floodPorts_add (r : Port → Bool) (p : Port) :
    portMask p ||| floodPorts r = floodPorts (Function.update r p true) ∧
      (Function.update r p true 0 || Function.update r p true 1) = true := by
  have hcases : ∀ a b : Bool, ∀ p : Port,
      portMask p ||| ((if a then portMask 0 else 0) ||| (if b then portMask 1 else 0)) =
        (if (if 0 = p then true else a) then portMask 0 else 0) |||
          (if (if 1 = p then true else b) then portMask 1 else 0) ∧
      ((if 0 = p then true else a) || (if 1 = p then true else b)) = true := by decide
  unfold floodPorts
  rw [Function.update_apply, Function.update_apply]
  exact hcases (r 0) (r 1) p

theorem SwitchEntries.addPort (h : SwitchEntries params r E) (p : Port) :
    SwitchEntries params (Function.update r p true)
      (switchPort params E p params.defaultVlan) := by
  obtain ⟨hflood, hany⟩ := floodPorts_add r p
  have hports : E.portsOf (groupKey params.defaultVlan) = floodPorts r := by
    unfold Entries.portsOf
    rw [h.group]
    cases h0 : r 0 <;> cases h1 : r 1 <;> simp [floodPorts, h0, h1, AddrEntry.ports]
  refine ⟨h.vlan, ?_, fun q hq => ?_, ?_⟩
  · have hmac : groupKey params.defaultVlan ≠ macKey params p params.defaultVlan := fun heq =>
      mac_ne_group params p _ isMulticast_broadcast _ heq.symm
    rw [addr_switchPort, if_neg hmac, if_pos rfl, hports, hflood, if_pos hany]
  · have hkey' : macKey params q params.defaultVlan ≠ groupKey params.defaultVlan :=
      mac_ne_group params q _ isMulticast_broadcast _
    rw [addr_switchPort, if_neg hkey']
    split
    · rfl
    rename_i hkey
    rcases update_cases hq with rfl | ⟨-, hrq⟩
    · exact absurd rfl hkey
    · exact h.mac q hrq
  · have hkey : ((stpa, 0) : AddrKey) ≠ macKey params p params.defaultVlan := fun heq =>
      mac_ne_group params p 0 (by decide) _ heq.symm
    have hkey' : ((stpa, 0) : AddrKey) ≠ groupKey params.defaultVlan := fun heq =>
      group_ne_stp _ 0 heq.symm
    rw [addr_switchPort, if_neg hkey, if_neg hkey']
    exact h.stp

def hostAle (params : CpswParams) (dualEmac : Bool) (ale : CpswAle) : CpswAle :=
  if dualEmac then initHostPortDualMacAle params ale else initHostPortSwitchAle params ale

def defAle (params : CpswParams) (dualEmac : Bool) (ale : CpswAle) (p : Port) (vlan : U16) :
    CpswAle :=
  if dualEmac then dualEmacDefAleEntries params ale p vlan
  else switchDefAleEntries params ale p vlan

def modeControl (dualEmac : Bool) : AleControl → U32
  | .portNoSaUpdate => if dualEmac then 0 else 1
  | _ => if dualEmac then 1 else 0

/-- The controls that go with the default entries of a mode. -/
def setsControl (dualEmac : Bool) : AleControl → Bool
  | .portDropUnknownVlan | .portNolearn => true
  | .portNoSaUpdate => !dualEmac
  | _ => false

theorem emacPort_iff (p q : Port) : emacPort q = emacPort p ↔ q = p :=
  ⟨emacPort_inj, congrArg emacPort⟩

theorem Holding.host (h : Holding params Entries.empty f ale) (d : Bool) :
    ∃ E f', Holding params E f' (hostAle params d ale) ∧
      ModeEntries params d (fun _ => false) E ∧ ∀ q c, f' (emacPort q) c = f (emacPort q) c := by
  have hslave : ∀ v (q : Port) c, setField f 0 .portNolearn v (emacPort q) c =
      f (emacPort q) c := by
    intro v q c
    apply if_neg
    intro hcon
    have hzero : q.val + 1 = 0 := hcon.1
    omega
  cases d with
  | true => exact ⟨_, _, Holding.initDualMac h, dualEntries_host params, hslave 1⟩
  | false => exact ⟨_, _, Holding.initSwitch h, switchEntries_host params, hslave 0⟩

theorem modeVlan_lt (params : CpswParams) (d : Bool) (p : Port) :
    (modeVlan params d p).toNat < vlanNVid := by
  cases d with
  | true => exact params.resVlan_lt p
  | false => exact params.defaultVlan_lt

theorem modeVlan_mem (params : CpswParams) (d : Bool) (p : Port) :
    (modeVlan params d p).setWidth 32 ∈ vlanKeys params := by
  cases d with
  | true => exact resVlan_mem params p
  | false => exact defaultVlan_mem params

/-- A port gets the default entries of the mode, and the controls that go with them. -/
theorem Holding.port (h : Holding params E f ale) (hmode : ModeEntries params d r E) (p : Port) :
    ∃ E' f', Holding params E' f' (defAle params d ale p (modeVlan params d p)) ∧
      ModeEntries params d (Function.update r p true) E' ∧
      ∀ q c, f' (emacPort q) c =
        if q = p ∧ setsControl d c = true then modeControl d c else f (emacPort q) c := by
  have hlt := modeVlan_lt params d p
  have hmem := modeVlan_mem params d p
  cases d with
  | true =>
    have hentries : DualEntries params r E := hmode
    refine ⟨_, _, Holding.portDualEmac h p hlt hmem, hentries.addPort p, fun q c => ?_⟩
    simp only [setField, emacPort_iff]
    by_cases hq : q = p <;> cases c <;> simp [hq, setsControl, modeControl]
  | false =>
    have hentries : SwitchEntries params r E := hmode
    refine ⟨_, _, Holding.portSwitch h p hlt hmem, hentries.addPort p, fun q c => ?_⟩
    simp only [setField, emacPort_iff]
    by_cases hq : q = p <;> cases c <;> simp [hq, setsControl, modeControl]

def linkState : Option Bool → U32
  | some true => alePortStateForward
  | some false | none => alePortStateDisable

/-- What holds of the ports, whether or not one is up. -/
structure Base (params : CpswParams) (s : State) : Prop where
  ndev : ∀ p, s.running p = true → params.hasNdev p = true
  brMembers : s.brMembers = 0
  portVlan : ∀ p, params.hasNdev p = true → s.portVlan p = modeVlan params s.dualEmac p
  txPacketMin : ∀ p, s.running p = true → s.txPacketMin p = modeMin s.dualEmac
  phy : ∀ p, s.running p = false → s.phy p = none
  settled : Settled s.ale
  room : (vlanKeys params).card + (addrKeys params).card < s.ale.table.length
  noSaUpdate : ∀ p, s.txPacketMin p = cpswMinPacketSize →
    portField s.ale (emacPort p) .portNoSaUpdate = 0
  portState : ∀ p, portField s.ale (emacPort p) .portState = linkState (s.phy p)
  controls : ∀ p, s.running p = true → ∀ c, setsControl false c = true →
    portField s.ale (emacPort p) c = modeControl s.dualEmac c

def Programs (params : CpswParams) (s : State) : Prop :=
  ∃ E, Holding params E (portField s.ale) s.ale ∧ ModeEntries params s.dualEmac s.running E

structure Inv (params : CpswParams) (s : State) : Prop where
  base : Base params s
  usage : s.usageCount = (if s.running 0 then 1 else 0) + (if s.running 1 then 1 else 0)
  entries : ∀ p, s.running p = true → Programs params s

theorem Holding.portField (h : Holding params E f ale) :
    Holding params E (portField ale) ale :=
  ⟨h.holds, h.settled, fun _ _ _ => rfl⟩

theorem isPort_of_sets {c : AleControl} (h : setsControl d c = true) : c.isPort = true := by
  cases c <;> simp [setsControl] at h <;> rfl

/-- What cpsw_init_host_port does to the lookup engine. -/
def initHostPortAle (params : CpswParams) (dualEmac : Bool) (ale : CpswAle) : CpswAle :=
  let ale := cpswAleStart params.ale { ale with regs := params.softReset ale.regs }
  let ale := (cpswAleControlSet params.ale ale 0 .vlanAware cpswAleVlanAware).1
  (cpswAleControlSet params.ale (hostAle params dualEmac ale) 0 .portState alePortStateForward).1

theorem initHostPort_eq (params : CpswParams) (s : State) : ∃ regs, cpswInitHostPort params s =
    { s with
      hostPortRegs := regs
      ale := initHostPortAle params s.dualEmac s.ale } := by
  unfold cpswInitHostPort initHostPortAle hostAle
  dsimp only
  split
  · exact ⟨_, rfl⟩
  · exact ⟨_, rfl⟩

theorem slaveOpen_eq (params : CpswParams) (s : State) (p : Port) (phyFound : Bool) :
    ∃ regs, cpswSlaveOpen params s p phyFound =
      { s with
        slaveRegs := regs
        phy := if phyFound then Function.update s.phy p (some false) else s.phy
        ale := defAle params s.dualEmac s.ale p (s.portVlan p) } := by
  obtain ⟨ale, hostPortRegs, slaveRegs, dualEmac⟩ := s
  cases dualEmac <;> cases phyFound <;> exact ⟨_, rfl⟩

theorem portField_softReset (params : CpswParams) (ale : CpswAle) (q : ℕ) (c : AleControl) :
    portField { ale with regs := params.softReset ale.regs } q c = portField ale q c ∨
      portField { ale with regs := params.softReset ale.regs } q c = 0 := by
  unfold portField
  dsimp only
  rcases params.softReset_keeps ale.regs (alePortctl + q * 4) with heq | heq <;> rw [heq]
  · exact .inl rfl
  · refine .inr ?_
    unfold BitField.get
    simp

/-- The first open sets up the engine for the mode. -/
theorem Base.initHostPort (h : Base params s) (hdown : ∀ p, s.running p = false) :
    Base params (cpswInitHostPort params s) ∧ Programs params (cpswInitHostPort params s) := by
  obtain ⟨regs, heq⟩ := initHostPort_eq params s
  rw [heq]
  have hcleared := cleared_start params.ale { s.ale with regs := params.softReset s.ale.regs }
  have hempty : Holding params Entries.empty _ _ := Programmed.of_cleared hcleared h.room
  have haware : AleControl.vlanAware.engineShift = some 2 := rfl
  obtain ⟨E, f, hhost, hmode, hfield⟩ :
      ∃ E f, Holding params E f (hostAle params s.dualEmac _) ∧ _ :=
    Holding.host (hempty.setEngine haware (by decide) 0 cpswAleVlanAware) s.dualEmac
  have hall : Holding params E _ (initHostPortAle params s.dualEmac s.ale) := hhost.setPort
    (rfl : AleControl.portState.isPort = true) params.ale.alePorts_pos
    (by decide : alePortStateForward.toNat < 2 ^ 2)
  have hports : ∀ p c, c.isPort = true →
      portField (initHostPortAle params s.dualEmac s.ale) (emacPort p) c =
        portField s.ale (emacPort p) c ∨
      portField (initHostPortAle params s.dualEmac s.ale) (emacPort p) c = 0 := by
    intro p c hc
    have hslave : ¬ (emacPort p = 0 ∧ c = .portState) := fun hcon => Nat.succ_ne_zero _ hcon.1
    rw [hall.field (emacPort p) c hc]
    unfold setField
    rw [if_neg hslave, hfield p c]
    exact portField_softReset params s.ale (emacPort p) c
  refine ⟨⟨h.ndev, h.brMembers, h.portVlan, h.txPacketMin, h.phy, hall.settled, hall.holds.room,
    fun p hp => ?_, fun p => ?_, fun p hp => ?_⟩, E, Holding.portField hall, ?_⟩
  · rcases hports p .portNoSaUpdate rfl with hsame | hzero
    · exact hsame.trans (h.noSaUpdate p hp)
    · exact hzero
  · rcases hports p .portState rfl with hsame | hzero
    · exact hsame.trans (h.portState p)
    · show _ = linkState (s.phy p)
      rw [h.phy p (hdown p)]
      exact hzero
  · have hrun : s.running p = true := hp
    rw [hdown p] at hrun
    cases hrun
  · have hnone : s.running = fun _ => false := funext hdown
    show ModeEntries params s.dualEmac s.running E
    rw [hnone]
    exact hmode

/-- A port that is opened gets what the mode has for it. -/
theorem Base.slaveOpen (h : Base params s) (hprog : Programs params s)
    (hndev : params.hasNdev p = true) (hdown : s.running p = false)
    (hmin : s.txPacketMin p = modeMin s.dualEmac) (phyFound : Bool) (n : ℤ) :
    Base params { cpswSlaveOpen params s p phyFound with
        usageCount := n
        running := Function.update s.running p true } ∧
      Programs params { cpswSlaveOpen params s p phyFound with
        usageCount := n
        running := Function.update s.running p true } := by
  obtain ⟨regs, heq⟩ := slaveOpen_eq params s p phyFound
  rw [heq]
  obtain ⟨E, hholding, hmode⟩ := hprog
  obtain ⟨E', f, hport, hmode', hfield⟩ := Holding.port hholding hmode p
  rw [← h.portVlan p hndev] at hport
  have hports : ∀ q c, c.isPort = true →
      portField (defAle params s.dualEmac s.ale p (s.portVlan p)) (emacPort q) c =
        if q = p ∧ setsControl s.dualEmac c = true then modeControl s.dualEmac c
        else portField s.ale (emacPort q) c := by
    intro q c hc
    rw [hport.field (emacPort q) c hc, hfield q c]
  refine ⟨⟨fun q hq => ?_, h.brMembers, h.portVlan, fun q hq => ?_, fun q hq => ?_, hport.settled,
    hport.holds.room, fun q hq => ?_, fun q => ?_, fun q hq c hc => ?_⟩, E',
    Holding.portField hport, hmode'⟩
  · rcases update_cases hq with rfl | ⟨-, hrun⟩
    · exact hndev
    · exact h.ndev q hrun
  · rcases update_cases hq with rfl | ⟨-, hrun⟩
    · exact hmin
    · exact h.txPacketMin q hrun
  · have hupdate : Function.update s.running p true q = false := hq
    have hne : q ≠ p := by
      rintro rfl
      rw [Function.update_self] at hupdate
      cases hupdate
    rw [Function.update_of_ne hne] at hupdate
    cases phyFound with
    | true => exact (Function.update_of_ne hne _ _).trans (h.phy q hupdate)
    | false => exact h.phy q hupdate
  · rw [hports q .portNoSaUpdate rfl]
    split
    · rename_i hset
      have hswitch : s.dualEmac = false := by simpa [setsControl] using hset.2
      have hlarge : s.txPacketMin q = cpswMinPacketSizeVlan := by
        rw [hset.1, hmin, hswitch]
        rfl
      have hne : cpswMinPacketSizeVlan ≠ cpswMinPacketSize := by decide
      exact absurd (hlarge.symm.trans hq) hne
    · exact h.noSaUpdate q hq
  · have hset : ¬ (q = p ∧ setsControl s.dualEmac .portState = true) := fun hcon => nomatch hcon.2
    rw [hports q .portState rfl, if_neg hset, h.portState q]
    cases phyFound with
    | true =>
      show _ = linkState (Function.update s.phy p (some false) q)
      rw [Function.update_apply]
      split
      · rename_i hq
        rw [hq, h.phy p hdown]
        rfl
      · rfl
    | false => rfl
  · by_cases hset : q = p ∧ setsControl s.dualEmac c = true
    · rw [hports q c (isPort_of_sets hc), if_pos hset]
    · rw [hports q c (isPort_of_sets hc), if_neg hset]
      rcases update_cases hq with rfl | ⟨-, hrun⟩
      · have hc' : c = .portNoSaUpdate ∧ s.dualEmac = true := by
          cases c <;> simp [setsControl] at hc hset
          exact ⟨rfl, hset⟩
        obtain ⟨rfl, hdual⟩ := hc'
        have hsmall : s.txPacketMin q = cpswMinPacketSize := by
          rw [hmin, hdual]
          rfl
        rw [h.noSaUpdate q hsmall]
        show 0 = modeControl s.dualEmac .portNoSaUpdate
        rw [hdual]
        rfl
      · exact h.controls q hrun c hc

/-- usage_count is zero while no port is up. -/
theorem Inv.down (h : Inv params s) (hzero : s.usageCount = 0) (p : Port) :
    s.running p = false := by
  have husage := h.usage
  rw [hzero] at husage
  cases h0 : s.running 0 <;> cases h1 : s.running 1 <;> simp [h0, h1] at husage
  fin_cases p
  · exact h0
  · exact h1

theorem Inv.openPort (h : Inv params s) (hndev : params.hasNdev p = true)
    (hdown : s.running p = false) (hmin : s.txPacketMin p = modeMin s.dualEmac)
    (phyFound : Bool) :
    Inv params { cpswNdoOpen params s p phyFound with
      running := Function.update s.running p true } := by
  obtain ⟨s₁, hs₁, hbase, hprog, hrunning, hmode, husage, hpacket⟩ : ∃ s₁,
      s₁ = (if s.usageCount = 0 then cpswInitHostPort params s else s) ∧ Base params s₁ ∧
        Programs params s₁ ∧ s₁.running = s.running ∧ s₁.dualEmac = s.dualEmac ∧
        s₁.usageCount = s.usageCount ∧ s₁.txPacketMin = s.txPacketMin := by
    by_cases hzero : s.usageCount = 0
    · obtain ⟨hbase, hprog⟩ := h.base.initHostPort (h.down hzero)
      obtain ⟨regs, heq⟩ := initHostPort_eq params s
      refine ⟨cpswInitHostPort params s, (if_pos hzero).symm, hbase, hprog, ?_⟩
      rw [heq]
      exact ⟨rfl, rfl, rfl, rfl⟩
    · have hup : ∃ q, s.running q = true := by
        by_contra hnone
        have h0 : s.running 0 = false := Bool.eq_false_of_not_eq_true fun hcon => hnone ⟨0, hcon⟩
        have h1 : s.running 1 = false := Bool.eq_false_of_not_eq_true fun hcon => hnone ⟨1, hcon⟩
        have husage := h.usage
        rw [h0, h1] at husage
        exact hzero husage
      obtain ⟨q, hq⟩ := hup
      exact ⟨s, (if_neg hzero).symm, h.base, h.entries q hq, rfl, rfl, rfl, rfl⟩
  unfold cpswNdoOpen
  dsimp only
  rw [← hs₁]
  obtain ⟨regs, heq⟩ := slaveOpen_eq params s₁ p phyFound
  have hcount : (cpswSlaveOpen params s₁ p phyFound).usageCount = s.usageCount := by
    rw [heq]
    exact husage
  rw [← hrunning] at hdown ⊢
  rw [← hmode, ← hpacket] at hmin
  obtain ⟨hbase', hprog'⟩ := hbase.slaveOpen hprog hndev hdown hmin phyFound
    ((cpswSlaveOpen params s₁ p phyFound).usageCount + 1)
  refine ⟨hbase', ?_, fun _ _ => hprog'⟩
  show (cpswSlaveOpen params s₁ p phyFound).usageCount + 1 = _
  rw [hcount, h.usage, ← hrunning]
  fin_cases p <;> simp at hdown <;> cases h0 : s₁.running 0 <;> cases h1 : s₁.running 1 <;>
    simp_all

theorem Base.adjustLink (h : Base params s) (p : Port) (link : Bool) :
    Base params (cpswAdjustLink params s p link) := by
  unfold cpswAdjustLink
  split
  · exact h
  rename_i old hphy
  have hup : s.running p = true := by
    cases hrun : s.running p with
    | true => rfl
    | false =>
      rw [h.phy p hrun] at hphy
      cases hphy
  have hfits : (if link then alePortStateForward else alePortStateDisable).toNat < 2 ^ 2 := by
    cases link <;> decide
  have hsets : SetsPort params.ale s.ale (emacPort p) .portState _ _ :=
    controlSet_port rfl (emacPort_lt params p) hfits
  obtain ⟨hsettled, htable, -⟩ := hsets.settled h.settled
  have hother : ∀ q c, c.isPort = true → c ≠ .portState → portField (cpswAleControlSet params.ale
      s.ale (emacPort p) .portState (if link then alePortStateForward else alePortStateDisable)).1
      (emacPort q) c = portField s.ale (emacPort q) c := fun q c hc hne =>
    (hsets.field (emacPort q) c hc).trans (if_neg fun hcon => hne hcon.2)
  refine ⟨h.ndev, h.brMembers, h.portVlan, h.txPacketMin, fun q hq => ?_, hsettled, ?_,
    fun q hq => ?_, fun q => ?_, fun q hq c hc => ?_⟩
  · have hrun : s.running q = false := hq
    have hne : q ≠ p := by
      rintro rfl
      rw [hup] at hrun
      cases hrun
    exact (Function.update_of_ne hne _ _).trans (h.phy q hrun)
  · show _ < List.length (cpswAleControlSet _ _ _ _ _).1.table
    rw [htable]
    exact h.room
  · exact (hother q _ rfl (by decide)).trans (h.noSaUpdate q hq)
  · show portField (cpswAleControlSet _ _ _ _ _).1 _ _ = _
    rw [hsets.field (emacPort q) .portState rfl]
    show _ = linkState (Function.update s.phy p (some link) q)
    rw [Function.update_apply]
    by_cases hq : q = p
    · rw [if_pos ⟨congrArg emacPort hq, rfl⟩, if_pos hq]
      cases link <;> rfl
    · rw [if_neg fun hcon => hq (emacPort_inj hcon.1), if_neg hq]
      exact h.portState q
  · have hne : c ≠ .portState := by
      rintro rfl
      cases hc
    exact (hother q c (isPort_of_sets hc) hne).trans (h.controls q hq c hc)

theorem Programs.adjustLink (h : Programs params s) (p : Port) (link : Bool) :
    Programs params (cpswAdjustLink params s p link) := by
  unfold cpswAdjustLink
  split
  · exact h
  obtain ⟨E, hholding, hmode⟩ := h
  have hfits : (if link then alePortStateForward else alePortStateDisable).toNat < 2 ^ 2 := by
    cases link <;> decide
  have hset : Holding params E _ _ := hholding.setPort
    (rfl : AleControl.portState.isPort = true) (emacPort_lt params p) hfits
  exact ⟨E, Holding.portField hset, hmode⟩

theorem adjustLink_eq (params : CpswParams) (s : State) (p : Port) (link : Bool) : ∃ phy ale,
    cpswAdjustLink params s p link =
      { s with
        phy := phy
        ale := ale } := by
  unfold cpswAdjustLink
  split
  · exact ⟨s.phy, s.ale, rfl⟩
  · exact ⟨_, _, rfl⟩

theorem Inv.adjustLink (h : Inv params s) (p : Port) (link : Bool) :
    Inv params (cpswAdjustLink params s p link) := by
  obtain ⟨phy, ale, heq⟩ := adjustLink_eq params s p link
  refine ⟨h.base.adjustLink p link, ?_, fun q hq => ?_⟩
  · rw [heq]
    exact h.usage
  · rw [heq] at hq
    exact (h.entries q hq).adjustLink p link

theorem phyStop_eq (params : CpswParams) (s : State) (p : Port) : ∃ ale, phyStop params s p =
    { s with
      phy := Function.update s.phy p none
      ale := ale } := by
  unfold phyStop cpswAdjustLink
  dsimp only
  split
  · rename_i hup
    rw [hup]
    dsimp only
    rw [Function.update_idem]
    exact ⟨_, rfl⟩
  · exact ⟨_, rfl⟩

theorem phyStop_spec (h : Base params s) (p : Port) :
    Settled (phyStop params s p).ale ∧
      (phyStop params s p).ale.table.length = s.ale.table.length ∧
      (∀ q c, c.isPort = true → c ≠ .portState →
        portField (phyStop params s p).ale (emacPort q) c = portField s.ale (emacPort q) c) ∧
      ∀ q, portField (phyStop params s p).ale (emacPort q) .portState =
        linkState (Function.update s.phy p none q) := by
  by_cases hup : s.phy p = some true
  · have hale : (phyStop params s p).ale =
        (cpswAleControlSet params.ale s.ale (emacPort p) .portState alePortStateDisable).1 := by
      unfold phyStop cpswAdjustLink
      dsimp only
      rw [if_pos hup, hup]
      rfl
    rw [hale]
    have hsets : SetsPort params.ale s.ale (emacPort p) .portState alePortStateDisable _ :=
      controlSet_port rfl (emacPort_lt params p) (by decide)
    refine ⟨(hsets.settled h.settled).1, length_controlSet _ _ _ _ _, fun q c hc hne => ?_,
      fun q => ?_⟩
    · rw [hsets.field (emacPort q) c hc, if_neg fun hcon => hne hcon.2]
    · rw [hsets.field (emacPort q) .portState rfl, Function.update_apply]
      by_cases hq : q = p
      · rw [if_pos ⟨congrArg emacPort hq, rfl⟩, if_pos hq]
        rfl
      · rw [if_neg fun hcon => hq (emacPort_inj hcon.1), if_neg hq]
        exact h.portState q
  · have hale : (phyStop params s p).ale = s.ale := by
      unfold phyStop
      dsimp only
      rw [if_neg hup]
    rw [hale]
    refine ⟨h.settled, rfl, fun _ _ _ _ => rfl, fun q => ?_⟩
    rw [h.portState q, Function.update_apply]
    split
    · rename_i hq
      rw [hq]
      cases hphy : s.phy p with
      | none => rfl
      | some link =>
        cases link with
        | true => exact absurd hphy hup
        | false => rfl
    · rfl

theorem Programs.phyStop (h : Programs params s) (p : Port) :
    ∃ E, Holding params E (portField (phyStop params s p).ale) (phyStop params s p).ale ∧
      ModeEntries params s.dualEmac s.running E := by
  unfold SwitchMode.phyStop
  dsimp only
  split
  · obtain ⟨phy, ale, heq⟩ := adjustLink_eq params s p false
    obtain ⟨E, hholding, hmode⟩ := h.adjustLink p false
    rw [heq] at hmode
    exact ⟨E, hholding, hmode⟩
  · exact h

/-- What cpsw_ndo_stop leaves of the lookup engine. -/
def stopAle (params : CpswParams) (s : State) (p : Port) : CpswAle :=
  if s.usageCount ≤ 1 then cpswAleStop params.ale (phyStop params s p).ale
  else (phyStop params s p).ale

theorem ndoStop_eq (params : CpswParams) (s : State) (p : Port) : cpswNdoStop params s p =
    { s with
      phy := Function.update s.phy p none
      ale := stopAle params s p
      usageCount := s.usageCount - 1 } := by
  obtain ⟨ale, heq⟩ := phyStop_eq params s p
  unfold cpswNdoStop stopAle
  dsimp only
  rw [heq]

theorem stopAle_spec (h : Base params s) (p : Port) :
    Settled (stopAle params s p) ∧
      (stopAle params s p).table.length = s.ale.table.length ∧
      (∀ q c, c.isPort = true → c ≠ .portState →
        portField (stopAle params s p) (emacPort q) c = portField s.ale (emacPort q) c) ∧
      ∀ q, portField (stopAle params s p) (emacPort q) .portState =
        linkState (Function.update s.phy p none q) := by
  obtain ⟨hsettled, hlength, hother, hstate⟩ := phyStop_spec h p
  unfold stopAle
  split
  · have hcleared := cleared_stop params.ale (phyStop params s p).ale
    refine ⟨hcleared.settled, hcleared.length.trans hlength, fun q c hc hne => ?_, fun q => ?_⟩
    · rw [hcleared.field]
      exact hother q c hc hne
    · rw [hcleared.field]
      exact hstate q
  · exact ⟨hsettled, hlength, hother, hstate⟩

theorem both_up (hne : q ≠ p) (hp : r p = true) (hq : r q = true) (x : Port) : r x = true := by
  have htwo : ∀ p q x : Port, q ≠ p → x = p ∨ x = q := by decide
  rcases htwo p q x hne with rfl | rfl
  · exact hp
  · exact hq

theorem Inv.stopPort (h : Inv params s) (hup : s.running p = true)
    (hcovered : Covered s (.stopPort p)) :
    Inv params { cpswNdoStop params s p with running := Function.update s.running p false } := by
  have hbase := h.base
  obtain ⟨hsettled, hlength, hother, hstate⟩ := stopAle_spec hbase p
  have hstay : ∀ q, Function.update s.running p false q = true → q ≠ p ∧ s.running q = true := by
    intro q hq
    have hne : q ≠ p := by
      rintro rfl
      rw [Function.update_self] at hq
      cases hq
    rw [Function.update_of_ne hne] at hq
    exact ⟨hne, hq⟩
  rw [ndoStop_eq]
  refine ⟨⟨fun q hq => hbase.ndev q (hstay q hq).2, hbase.brMembers, hbase.portVlan,
    fun q hq => hbase.txPacketMin q (hstay q hq).2, fun q hq => ?_, hsettled, ?_, fun q hq => ?_,
    hstate, fun q hq c hc => ?_⟩, ?_, fun q hq => ?_⟩
  · have hrun : Function.update s.running p false q = false := hq
    show Function.update s.phy p none q = none
    by_cases heq : q = p
    · rw [heq, Function.update_self]
    · rw [Function.update_of_ne heq] at hrun ⊢
      exact hbase.phy q hrun
  · show _ < (stopAle params s p).table.length
    rw [hlength]
    exact hbase.room
  · exact (hother q _ rfl (by decide)).trans (hbase.noSaUpdate q hq)
  · have hne : c ≠ .portState := by
      rintro rfl
      cases hc
    exact (hother q c (isPort_of_sets hc) hne).trans (hbase.controls q (hstay q hq).2 c hc)
  · show s.usageCount - 1 = _
    rw [h.usage]
    fin_cases p <;> simp at hup <;> cases h0 : s.running 0 <;> cases h1 : s.running 1 <;> simp_all
  · obtain ⟨hne, hrun⟩ := hstay q hq
    have hdual : s.dualEmac = true := hcovered.resolve_right fun hall => hne (hall q hrun)
    have hmany : ¬ s.usageCount ≤ 1 := by
      have hboth := both_up hne hup hrun
      rw [h.usage, hboth 0, hboth 1]
      decide
    obtain ⟨E, hholding, hmode⟩ := (h.entries q hrun).phyStop p
    have hale : stopAle params s p = (phyStop params s p).ale := if_neg hmany
    rw [← hale] at hholding
    refine ⟨E, hholding, ?_⟩
    show ModeEntries params s.dualEmac (Function.update s.running p false) E
    rw [hdual] at hmode ⊢
    have hentries : DualEntries params s.running E := hmode
    exact hentries.mono fun q hq => (hstay q hq).2

theorem recordMode_eq (params : CpswParams) (switchEn : Bool) (s : State) :
    slaves.foldl (recordMode params switchEn) s =
      { s with
        portVlan := fun p =>
          if params.hasNdev p then modeVlan params (!switchEn) p else s.portVlan p } := by
  have hstep : ∀ (s : State) p, recordMode params switchEn s p =
      { s with
        portVlan := if params.hasNdev p then
          Function.update s.portVlan p (modeVlan params (!switchEn) p) else s.portVlan } := by
    intro s p
    unfold recordMode
    cases hndev : params.hasNdev p <;> cases switchEn <;> rfl
  have hboth : ∀ vlan : Port → U16, (if params.hasNdev 1 then
      Function.update (if params.hasNdev 0 then
        Function.update vlan 0 (modeVlan params (!switchEn) 0) else vlan) 1
        (modeVlan params (!switchEn) 1)
      else if params.hasNdev 0 then
        Function.update vlan 0 (modeVlan params (!switchEn) 0) else vlan) = fun p =>
      if params.hasNdev p then modeVlan params (!switchEn) p else vlan p := by
    intro vlan
    funext p
    fin_cases p <;> cases h0 : params.hasNdev 0 <;> cases h1 : params.hasNdev 1 <;>
      simp [h0, h1]
  unfold slaves
  rw [List.foldl_cons, List.foldl_cons, List.foldl_nil, hstep, hstep]
  dsimp only
  rw [hboth]

/-- While all ports are down only the VLANs of the ports change. -/
theorem Inv.recordMode (h : Inv params s) (hdown : ∀ p, s.running p = false) (switchEn : Bool) :
    Inv params (slaves.foldl (recordMode params switchEn) { s with dualEmac := !switchEn }) := by
  rw [recordMode_eq]
  have hnone : ∀ p, s.running p = true → False := by
    intro p hp
    rw [hdown p] at hp
    cases hp
  have hbase := h.base
  exact ⟨⟨hbase.ndev, hbase.brMembers, fun p hp => if_pos hp, fun p hp => (hnone p hp).elim,
    hbase.phy, hbase.settled, hbase.room, hbase.noSaUpdate, hbase.portState,
    fun p hp => (hnone p hp).elim⟩, h.usage, fun p hp => (hnone p hp).elim⟩

/-- What the loop that enables switch mode has done of the state `s`, for the slaves in `done`. -/
structure Enabling (params : CpswParams) (s : State) (done : Port → Bool) (t : State) : Prop where
  running : t.running = s.running
  phy : t.phy = s.phy
  brMembers : t.brMembers = s.brMembers
  usageCount : t.usageCount = s.usageCount
  portVlan : ∀ p, done p = true → params.hasNdev p = true → t.portVlan p = params.defaultVlan
  txPacketMin : ∀ p, t.txPacketMin p =
    if done p && params.hasNdev p then cpswMinPacketSizeVlan else s.txPacketMin p
  programs : ∃ E f, Holding params E f t.ale ∧
    SwitchEntries params (fun p => s.running p && done p) E ∧
    ∀ q c, c.isPort = true → f (emacPort q) c =
      if (s.running q && done q && setsControl false c) = true then modeControl false c
      else portField s.ale (emacPort q) c

/-- For a port that is down the entries stay as they are. -/
theorem Enabling.programs_down {done : Port → Bool} (h : Enabling params s done t) {p : Port}
    (hdown : s.running p = false) : ∃ E f, Holding params E f t.ale ∧
      SwitchEntries params (fun q => s.running q && Function.update done p true q) E ∧
      ∀ q c, c.isPort = true → f (emacPort q) c =
        if (s.running q && Function.update done p true q && setsControl false c) = true then
          modeControl false c
        else portField s.ale (emacPort q) c := by
  have hskip : (fun q => s.running q && Function.update done p true q) =
      fun q => s.running q && done q := by
    funext q
    by_cases hq : q = p
    · rw [hq, hdown]
      rfl
    · rw [Function.update_of_ne hq]
  obtain ⟨E, f, hholding, hentries, hfield⟩ := h.programs
  refine ⟨E, f, hholding, ?_, fun q c hc => ?_⟩
  · rw [hskip]
    exact hentries
  · rw [congrFun hskip q]
    exact hfield q c hc

theorem Enabling.step {done : Port → Bool} (h : Enabling params s done t)
    (hndev : ∀ p, s.running p = true → params.hasNdev p = true) (p : Port) :
    Enabling params s (Function.update done p true) (enableSwitchMode params t p) := by
  have hother : ∀ q, q ≠ p → Function.update done p true q = done q := fun q hne =>
    Function.update_of_ne hne _ _
  unfold enableSwitchMode
  cases hdev : params.hasNdev p with
  | false =>
    have hdown : s.running p = false := by
      cases hrun : s.running p with
      | false => rfl
      | true =>
        rw [hndev p hrun] at hdev
        cases hdev
    refine ⟨h.running, h.phy, h.brMembers, h.usageCount, fun q hq hqdev => ?_, fun q => ?_,
      h.programs_down hdown⟩
    · have hne : q ≠ p := by
        rintro rfl
        rw [hdev] at hqdev
        cases hqdev
      rw [hother q hne] at hq
      exact h.portVlan q hq hqdev
    · by_cases hq : q = p
      · rw [hq, hdev, Bool.and_false]
        have hmin := h.txPacketMin p
        rw [hdev, Bool.and_false] at hmin
        exact hmin
      · rw [hother q hq]
        exact h.txPacketMin q
  | true =>
    have hvlan : ∀ q, Function.update done p true q = true → params.hasNdev q = true →
        Function.update t.portVlan p params.defaultVlan q = params.defaultVlan := by
      intro q hq hqdev
      rw [Function.update_apply]
      split
      · rfl
      · rename_i hne
        rw [hother q hne] at hq
        exact h.portVlan q hq hqdev
    have hmin : ∀ q, Function.update t.txPacketMin p cpswMinPacketSizeVlan q =
        if Function.update done p true q && params.hasNdev q then cpswMinPacketSizeVlan
        else s.txPacketMin q := by
      intro q
      by_cases hq : q = p
      · rw [hq, Function.update_self, Function.update_self, hdev]
        rfl
      · rw [Function.update_of_ne hq, hother q hq]
        exact h.txPacketMin q
    cases hrun : s.running p with
    | false =>
      have hrun' : t.running p = false := by rw [h.running, hrun]
      simp only [Bool.not_true, Bool.false_eq_true, if_false, hrun']
      exact ⟨h.running, h.phy, h.brMembers, h.usageCount, hvlan, hmin, h.programs_down hrun⟩
    | true =>
      have hrun' : t.running p = true := by rw [h.running, hrun]
      simp only [Bool.not_true, Bool.false_eq_true, if_false, hrun', if_true]
      refine ⟨h.running, h.phy, h.brMembers, h.usageCount, hvlan, hmin, ?_⟩
      obtain ⟨E, f, hholding, hentries, hfield⟩ := h.programs
      have hmode : ModeEntries params false (fun q => s.running q && done q) E := hentries
      obtain ⟨E', f', hport, hmode', hfield'⟩ := Holding.port hholding hmode p
      have hset : Function.update (fun q => s.running q && done q) p true =
          fun q => s.running q && Function.update done p true q := by
        funext q
        by_cases hq : q = p
        · rw [hq, Function.update_self, Function.update_self, hrun]
          rfl
        · rw [Function.update_of_ne hq, hother q hq]
      rw [hset] at hmode'
      refine ⟨E', f', ?_, hmode', fun q c hc => ?_⟩
      · show Holding params E' f' (switchDefAleEntries params t.ale p
          (Function.update t.portVlan p params.defaultVlan p))
        rw [Function.update_self]
        exact hport
      · rw [hfield' q c, hfield q c hc]
        by_cases hq : q = p
        · rw [hq, Function.update_self, hrun]
          cases hsets : setsControl false c <;> simp
        · rw [if_neg fun hcon => hq hcon.1, hother q hq]

/-- The loop starts from a table with the entries of the host. -/
theorem enabling_start (h : Base params s) : Enabling params s (fun _ => false)
    (cpswInitHostPortSwitch params (bypassAndClear params s)) := by
  have hbypass : AleControl.bypass.engineShift = some 4 := rfl
  have hcleared := cleared_controlSet params.ale
    (cpswAleControlSet params.ale s.ale 0 .bypass 1).1
  have hroom : (vlanKeys params).card + (addrKeys params).card <
      (cpswAleControlSet params.ale s.ale 0 .bypass 1).1.table.length := by
    rw [length_controlSet]
    exact h.room
  have hempty : Holding params Entries.empty _ _ := Programmed.of_cleared hcleared hroom
  have hhost := Holding.initSwitch hempty
  refine ⟨rfl, rfl, rfl, rfl, (fun _ hq => nomatch hq), fun _ => rfl, _, _, hhost, ?_,
    fun q c hc => ?_⟩
  · have hnone : (fun p => s.running p && false) = fun _ => false := by
      funext p
      exact Bool.and_false _
    rw [hnone]
    exact switchEntries_host params
  · have hslave : ¬ (emacPort q = 0 ∧ c = .portNolearn) := fun hcon => Nat.succ_ne_zero _ hcon.1
    unfold setField
    rw [if_neg hslave, portField_engine hbypass, Bool.and_false, Bool.false_and,
      if_neg Bool.false_ne_true]

theorem Inv.enableSwitchMode (h : Inv params s) :
    Inv params { bypassOff params (slaves.foldl (enableSwitchMode params)
      (cpswInitHostPortSwitch params (bypassAndClear params s))) with dualEmac := false } := by
  have hbase := h.base
  have hloop := ((enabling_start hbase).step hbase.ndev 0).step hbase.ndev 1
  have hall : ∀ p : Port, Function.update (Function.update (fun _ => false) (0 : Port) true) 1 true
      p = true := by decide
  have hfold : slaves.foldl (SwitchMode.enableSwitchMode params)
      (cpswInitHostPortSwitch params (bypassAndClear params s)) =
      SwitchMode.enableSwitchMode params (SwitchMode.enableSwitchMode params
        (cpswInitHostPortSwitch params (bypassAndClear params s)) 0) 1 := rfl
  rw [hfold]
  generalize SwitchMode.enableSwitchMode params (SwitchMode.enableSwitchMode params
    (cpswInitHostPortSwitch params (bypassAndClear params s)) 0) 1 = t at hloop ⊢
  obtain ⟨hrunning, hphy, hbr, husage, hvlan, hmin, E, f, hholding, hentries, hfield⟩ := hloop
  have hbypass : AleControl.bypass.engineShift = some 4 := rfl
  have hoff : Holding params E f (bypassOff params t).ale :=
    hholding.setEngine hbypass (by decide) 0 0
  have hports : ∀ q c, c.isPort = true → portField (bypassOff params t).ale (emacPort q) c =
      if (s.running q && setsControl false c) = true then modeControl false c
      else portField s.ale (emacPort q) c := by
    intro q c hc
    rw [hoff.field _ c hc, hfield q c hc, hall q, Bool.and_true]
  have hminOf : ∀ q, t.txPacketMin q =
      if params.hasNdev q then cpswMinPacketSizeVlan else s.txPacketMin q := by
    intro q
    rw [hmin q, hall q, Bool.true_and]
  have hset : (fun p => s.running p && Function.update (Function.update (fun _ => false)
      (0 : Port) true) 1 true p) = s.running := by
    funext p
    rw [hall p, Bool.and_true]
  rw [hset] at hentries
  refine ⟨⟨fun q hq => ?_, hbr.trans hbase.brMembers, fun q hq => hvlan q (hall q) hq,
    fun q hq => ?_, fun q hq => ?_, hoff.settled, hoff.holds.room, fun q hq => ?_, fun q => ?_,
    fun q hq c hc => ?_⟩, ?_, fun q hq => ?_⟩
  · have hrun : t.running q = true := hq
    rw [hrunning] at hrun
    exact hbase.ndev q hrun
  · have hrun : t.running q = true := hq
    rw [hrunning] at hrun
    exact (hminOf q).trans (if_pos (hbase.ndev q hrun))
  · have hrun : t.running q = false := hq
    rw [hrunning] at hrun
    show t.phy q = none
    rw [hphy]
    exact hbase.phy q hrun
  · have hsmall : t.txPacketMin q = cpswMinPacketSize := hq
    have hdev : params.hasNdev q = false := by
      cases hdev : params.hasNdev q with
      | false => rfl
      | true =>
        rw [hminOf q, hdev, if_pos rfl] at hsmall
        exact absurd hsmall (by decide)
    have hdown : s.running q = false := by
      cases hrun : s.running q with
      | false => rfl
      | true =>
        rw [hbase.ndev q hrun] at hdev
        cases hdev
    rw [hminOf q, hdev, if_neg Bool.false_ne_true] at hsmall
    have hnow := hports q .portNoSaUpdate rfl
    rw [hdown, Bool.false_and, if_neg Bool.false_ne_true] at hnow
    exact hnow.trans (hbase.noSaUpdate q hsmall)
  · have hnot : (s.running q && setsControl false .portState) = false := Bool.and_false _
    have hnow := hports q .portState rfl
    rw [hnot, if_neg Bool.false_ne_true] at hnow
    show _ = linkState (t.phy q)
    rw [hphy]
    exact hnow.trans (hbase.portState q)
  · have hrun : t.running q = true := hq
    rw [hrunning] at hrun
    rw [show portField _ _ _ = _ from hports q c (isPort_of_sets hc), hrun, hc, Bool.and_true,
      if_pos rfl]
  · show t.usageCount = _
    rw [husage, h.usage]
    show _ = (if t.running 0 then (1 : ℤ) else 0) + (if t.running 1 then 1 else 0)
    rw [hrunning]
  · refine ⟨E, Holding.portField hoff, ?_⟩
    show SwitchEntries params t.running E
    rw [hrunning]
    exact hentries

theorem Inv.switchModeSet (h : Inv params s) {id : CpswDlParam} {switchEn : Bool}
    (hcovered : Covered s (.switchModeSet id switchEn)) :
    Inv params (cpswDlSwitchModeSet params s id switchEn).1 := by
  unfold cpswDlSwitchModeSet
  split
  · exact h
  rename_i hid'
  split
  · exact h
  rename_i hchange
  split
  · exact h
  split
  · rename_i hidle
    have hdown : ∀ p, s.running p = false := by
      intro p
      cases hrun : s.running p with
      | false => rfl
      | true =>
        have hdev := h.base.ndev p hrun
        have hsome : ifRunning params s = true := by
          unfold ifRunning slaves
          fin_cases p
          · have hdev0 : params.hasNdev 0 = true := hdev
            have hrun0 : s.running 0 = true := hrun
            simp [hdev0, hrun0]
          · have hdev1 : params.hasNdev 1 = true := hdev
            have hrun1 : s.running 1 = true := hrun
            simp [hdev1, hrun1]
        rw [hsome] at hidle
        cases hidle
    exact h.recordMode hdown switchEn
  rename_i hbusy
  split
  · exact h.enableSwitchMode
  · rename_i hen
    have hoff : switchEn = false := Bool.eq_false_of_not_eq_true hen
    exfalso
    rcases hcovered with hid | hon | hd | hdown
    · exact hid (not_not.mp hid')
    · rw [hoff] at hon
      cases hon
    · rw [hoff, hd] at hchange
      exact hchange rfl
    · apply hbusy
      unfold ifRunning slaves
      simp [hdown]

theorem Inv.hardware (h : Inv params s) {idx : ℕ} {aleEntry : AleEntry}
    (hmay : hardwareMay s.ale idx aleEntry = true) :
    Inv params { s with ale := cpswAleWrite s.ale idx aleEntry } := by
  have hbase := h.base
  refine ⟨⟨hbase.ndev, hbase.brMembers, hbase.portVlan, hbase.txPacketMin, hbase.phy,
    hbase.settled, ?_, hbase.noSaUpdate, hbase.portState, hbase.controls⟩, h.usage, fun q hq => ?_⟩
  · show _ < (cpswAleWrite s.ale idx aleEntry).table.length
    unfold cpswAleWrite
    rw [List.length_set]
    exact hbase.room
  · obtain ⟨E, hholding, hmode⟩ := h.entries q hq
    exact ⟨E, ⟨hholding.holds.hardware hmay, hholding.settled, fun _ _ _ => rfl⟩, hmode⟩

/-- One step keeps the invariant. -/
theorem Inv.step {op : Op} (h : Inv params s) (hcovered : Covered s op)
    (hst : step params s op = some s') : Inv params s' := by
  cases op with
  | openPort p phyFound =>
    simp only [SwitchMode.step] at hst
    split at hst
    · rename_i hmay
      obtain ⟨hndev, hdown⟩ := Bool.and_eq_true_iff.mp hmay
      cases hst
      exact h.openPort hndev (by simpa using hdown) hcovered phyFound
    · cases hst
  | stopPort p =>
    simp only [SwitchMode.step] at hst
    split at hst
    · cases hst
      exact h.stopPort ‹_› hcovered
    · cases hst
  | switchModeSet id switchEn =>
    cases hst
    exact h.switchModeSet hcovered
  | adjustLink p link =>
    cases hst
    exact h.adjustLink p link
  | hardware idx aleEntry =>
    simp only [SwitchMode.step] at hst
    split at hst
    · cases hst
      exact h.hardware ‹_›
    · cases hst

theorem Initial.inv (h : Initial params s) : Inv params s := by
  have hnone : ∀ p, s.running p = true → False := by
    intro p hp
    rw [h.running p] at hp
    cases hp
  refine ⟨⟨fun p hp => (hnone p hp).elim, h.brMembers, fun p _ => ?_,
    fun p hp => (hnone p hp).elim, fun p _ => h.phy p, h.settled, ?_, fun p _ => h.noSaUpdate p,
    fun p => ?_, fun p hp => (hnone p hp).elim⟩, ?_, fun p hp => (hnone p hp).elim⟩
  · rw [h.portVlan, h.dualEmac]
    rfl
  · have hcard := card_keys params
    have hroom := h.room
    omega
  · rw [h.portState p, h.phy p]
    rfl
  · rw [h.usageCount, h.running 0, h.running 1]
    rfl

theorem ModeEntries.same (h : ModeEntries params d r E) {E' : Entries}
    (h' : ModeEntries params d r E') (hp : r p = true) :
    (∀ vid ∈ [params.defaultVlan, modeVlan params d p],
      E.vlan (vid.setWidth 32) = E'.vlan (vid.setWidth 32)) ∧
    E.addr (groupKey (modeVlan params d p)) = E'.addr (groupKey (modeVlan params d p)) ∧
    (∃ v, E.addr (macKey params p (modeVlan params d p)) = some v ∧
      E'.addr (macKey params p (modeVlan params d p)) = some v) ∧
    E.addr (stpa, 0) = E'.addr (stpa, 0) := by
  have hvids : ∀ vid ∈ [params.defaultVlan, modeVlan params d p],
      vid = params.defaultVlan ∨ vid = modeVlan params d p := by simp
  cases d with
  | true =>
    have hE : DualEntries params r E := h
    have hE' : DualEntries params r E' := h'
    refine ⟨fun vid hvid => ?_, (hE.group p hp).trans (hE'.group p hp).symm,
      ⟨_, hE.mac p hp, hE'.mac p hp⟩, hE.stp.trans hE'.stp.symm⟩
    rcases hvids vid hvid with rfl | rfl
    · exact hE.vlan.trans hE'.vlan.symm
    · exact (hE.portVlan p hp).trans (hE'.portVlan p hp).symm
  | false =>
    have hE : SwitchEntries params r E := h
    have hE' : SwitchEntries params r E' := h'
    refine ⟨fun vid hvid => ?_, hE.group.trans hE'.group.symm, ⟨_, hE.mac p hp, hE'.mac p hp⟩,
      hE.stp.trans hE'.stp.symm⟩
    rcases hvids vid hvid with rfl | rfl
    · exact hE.vlan.trans hE'.vlan.symm
    · exact hE.vlan.trans hE'.vlan.symm

theorem Inv.sameConfig (h : Inv params s) (h' : Inv params t) (hmode : s.dualEmac = t.dualEmac)
    (hrunning : s.running = t.running) (hup : s.running p = true)
    (hlink : linkUp s p = linkUp t p) : SameConfig params s t p := by
  have hup' : t.running p = true := by rw [← hrunning, hup]
  have hvlan := h.base.portVlan p (h.base.ndev p hup)
  have hvlan' := h'.base.portVlan p (h'.base.ndev p hup')
  rw [← hmode] at hvlan'
  obtain ⟨E, hholding, hentries⟩ := h.entries p hup
  obtain ⟨E', hholding', hentries'⟩ := h'.entries p hup'
  rw [← hmode, ← hrunning] at hentries'
  refine ⟨hvlan.trans hvlan'.symm, ?_, fun c hc => ?_, fun vid hvid => ?_, fun k hk => ?_⟩
  · rw [h.base.txPacketMin p hup, h'.base.txPacketMin p hup', hmode]
  · by_cases hstate : c = .portState
    · rw [hstate, h.base.portState p, h'.base.portState p]
      unfold linkUp at hlink
      rcases hs : s.phy p with _ | _ | _ <;> rcases ht : t.phy p with _ | _ | _ <;>
        rw [hs, ht] at hlink <;> first | rfl | cases hlink
    · have hsets : setsControl false c = true := by
        simp only [modeControls, List.mem_cons, List.not_mem_nil, or_false] at hc
        rcases hc with rfl | rfl | rfl | rfl
        · exact absurd rfl hstate
        · rfl
        · rfl
        · rfl
      rw [h.base.controls p hup c hsets, h'.base.controls p hup' c hsets, hmode]
  · rw [hholding.holds.vlan, hholding'.holds.vlan]
    rw [hvlan] at hvid
    exact (hentries.same hentries' hup).1 vid hvid
  · obtain ⟨-, hgroup, ⟨v, hmac, hmac'⟩, hstp⟩ := hentries.same hentries' hup
    unfold defAddrs at hk
    rw [hvlan] at hk
    simp only [List.mem_cons, List.not_mem_nil, or_false] at hk
    rcases hk with rfl | rfl | rfl
    · rw [hholding.holds.group isMulticast_broadcast, hholding'.holds.group isMulticast_broadcast]
      exact hgroup
    · exact (hholding.holds.lookupAddr hmac).trans (hholding'.holds.lookupAddr hmac').symm
    · have hstpa : isMulticastEtherAddr stpa = true := by decide
      rw [hholding.holds.group hstpa, hholding'.holds.group hstpa]
      exact hstp

/-- Two histories that end in the same mode, with the same ports up and the same links, configure
these ports in the same way. -/
theorem sameConfig_of_runs {s' t' : State} {ops ops' : List Op} (hinit : Initial params s)
    (hinit' : Initial params t) (hrun : Run (step params) Covered s ops s')
    (hrun' : Run (step params) Covered t ops' t') (hmode : s'.dualEmac = t'.dualEmac)
    (hrunning : s'.running = t'.running)
    (hlink : ∀ p, s'.running p = true → linkUp s' p = linkUp t' p) :
    ∀ p, s'.running p = true → SameConfig params s' t' p := by
  have hinv : Inv params s' :=
    hrun.invariant (fun _ _ _ h hok hst => h.step hok hst) hinit.inv
  have hinv' : Inv params t' :=
    hrun'.invariant (fun _ _ _ h hok hst => h.step hok hst) hinit'.inv
  intro p hp
  exact hinv.sameConfig hinv' hmode hrunning hp (hlink p hp)

/-- Two ports with VLANs 1 and 2 of their own, and a reset that does not reach the engine. -/
def twoPorts : CpswParams where
  ale := threePorts
  version := .v2
  defaultVlan := 0
  dualEmacResVlan := fun p => BitVec.ofNat 16 (emacPort p)
  macAddr := fun p _ => BitVec.ofNat 8 (2 * emacPort p)
  hasNdev := fun _ => true
  softReset := fun regs => regs
  devId := Filters.twoPorts.devId
  alePorts := Filters.twoPorts.alePorts
  defaultVlan_lt := Filters.twoPorts.defaultVlan_lt
  resVlan_lt := Filters.twoPorts.portVlan_lt
  resVlan_ne := by decide
  resVlan_inj := by decide
  macAddr_ucast := Filters.twoPorts.macAddr_ucast
  softReset_keeps := fun _ _ => .inl rfl

def boot : State where
  ale := emptyAle 16
  hostPortRegs := ⟨0, 0⟩
  slaveRegs := fun _ _ => 0
  dualEmac := true
  brMembers := 0
  portVlan := twoPorts.dualEmacResVlan
  txPacketMin := fun _ => cpswMinPacketSize
  running := fun _ => false
  phy := fun _ => none
  usageCount := 0

theorem initial_boot : Initial twoPorts boot where
  dualEmac := rfl
  brMembers := rfl
  portVlan := rfl
  txPacketMin _ := rfl
  running _ := rfl
  phy _ := rfl
  usageCount := rfl
  settled := rfl
  noSaUpdate := by decide
  portState := by decide
  room := by decide

/-- Both runs end in the same mode, with the same ports up and the same links. -/
def sameEnd (s t : State) : Bool :=
  s.dualEmac == t.dualEmac && decide (∀ p, s.running p = t.running p ∧ linkUp s p = linkUp t p)

theorem of_sameEnd (h : sameEnd s t = true) : s.dualEmac = t.dualEmac ∧ s.running = t.running ∧
    ∀ p, linkUp s p = linkUp t p := by
  simp only [sameEnd, Bool.and_eq_true, beq_iff_eq, decide_eq_true_eq] at h
  exact ⟨h.1, funext fun p => (h.2 p).1, fun p => (h.2 p).2⟩

/-- Port 0 alone is up, in switch mode: the other port was never up, or it was for a while. -/
theorem sameConfig_after_stop : ∃ s t,
    Run (step twoPorts) Covered boot [.openPort 0 true, .adjustLink 0 true,
      .switchModeSet .switchMode true] s ∧
    Run (step twoPorts) Covered boot [.openPort 1 true, .openPort 0 true, .stopPort 1,
      .switchModeSet .switchMode true, .adjustLink 0 true] t ∧
    s.running 0 = true ∧ SameConfig twoPorts s t 0 := by
  have hexec : (exec (step twoPorts) Covered boot [.openPort 0 true, .adjustLink 0 true,
      .switchModeSet .switchMode true]).any (fun s => s.running 0 &&
        (exec (step twoPorts) Covered boot [.openPort 1 true, .openPort 0 true, .stopPort 1,
          .switchModeSet .switchMode true, .adjustLink 0 true]).any (sameEnd s)) = true := by
    decide +kernel
  obtain ⟨s, hrun, hs⟩ := exists_run_of_any hexec
  obtain ⟨hup, hany⟩ := Bool.and_eq_true_iff.mp hs
  obtain ⟨t, hrun', hend⟩ := exists_run_of_any hany
  obtain ⟨hmode, hrunning, hlink⟩ := of_sameEnd hend
  exact ⟨s, t, hrun, hrun', hup, sameConfig_of_runs initial_boot initial_boot hrun hrun' hmode
    hrunning (fun p _ => hlink p) 0 hup⟩

/-- After these two histories port 0 is up in the same mode, with the same ports and the same
links, and yet it is not configured in the same way. -/
def Differ (ops ops' : List Op) : Prop :=
  ∃ s t, Run (step twoPorts) anyStep boot ops s ∧ Run (step twoPorts) anyStep boot ops' t ∧
    s.dualEmac = t.dualEmac ∧ s.running = t.running ∧ (∀ p, linkUp s p = linkUp t p) ∧
    s.running 0 = true ∧ ¬ SameConfig twoPorts s t 0

theorem differ_of_exec {ops ops' : List Op} (differs : State → State → Bool)
    (hdiffers : ∀ s t, differs s t = true → ¬ SameConfig twoPorts s t 0)
    (hexec : (exec (step twoPorts) anyStep boot ops).any (fun s => s.running 0 &&
      (exec (step twoPorts) anyStep boot ops').any (fun t => sameEnd s t && differs s t)) = true) :
    Differ ops ops' := by
  obtain ⟨s, hrun, hs⟩ := exists_run_of_any hexec
  obtain ⟨hup, hany⟩ := Bool.and_eq_true_iff.mp hs
  obtain ⟨t, hrun', ht⟩ := exists_run_of_any hany
  obtain ⟨hend, hne⟩ := Bool.and_eq_true_iff.mp ht
  obtain ⟨hmode, hrunning, hlink⟩ := of_sameEnd hend
  exact ⟨s, t, hrun, hrun', hmode, hrunning, hlink, hup, hdiffers s t hne⟩

/-- The mode is set while all ports are down, or while port 0 is up: the packet size differs. It
is disabled while port 0 is up, or was never set: the source address update differs. Port 1 is
stopped in switch mode, or before it: the broadcast entry differs. -/
theorem sameConfig_fails : Initial twoPorts boot ∧
    Differ [.switchModeSet .switchMode true, .openPort 0 true]
      [.openPort 0 true, .switchModeSet .switchMode true] ∧
    Differ [.openPort 0 true, .switchModeSet .switchMode true, .switchModeSet .switchMode false]
      [.openPort 0 true] ∧
    Differ [.openPort 0 true, .openPort 1 true, .switchModeSet .switchMode true, .stopPort 1]
      [.openPort 0 true, .openPort 1 true, .stopPort 1, .switchModeSet .switchMode true] := by
  refine ⟨initial_boot, ?_, ?_, ?_⟩
  · apply differ_of_exec (fun s t => s.txPacketMin 0 != t.txPacketMin 0)
    · intro s t hne hsame
      exact bne_iff_ne.mp hne hsame.txPacketMin
    · decide +kernel
  · apply differ_of_exec (fun s t =>
      portField s.ale (emacPort 0) .portNoSaUpdate != portField t.ale (emacPort 0) .portNoSaUpdate)
    · intro s t hne hsame
      exact bne_iff_ne.mp hne (hsame.controls .portNoSaUpdate (by decide))
    · decide +kernel
  · apply differ_of_exec (fun s t =>
      lookupAddr twoPorts.ale s.ale (groupKey (s.portVlan 0)) !=
        lookupAddr twoPorts.ale t.ale (groupKey (s.portVlan 0)))
    · intro s t hne hsame
      exact bne_iff_ne.mp hne (hsame.addrs _ List.mem_cons_self)
    · decide +kernel

end CpswDriver.SwitchMode
