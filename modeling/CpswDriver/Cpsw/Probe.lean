import CpswDriver.Cpsw.Slaves
import CpswDriver.Lib.Resources
import CpswDriver.Lib.Runs

/-!
What cpsw_probe acquires and where it gives it back: cpsw_remove, and the labels
at the end of the probe that unwind one that fails. What is allocated for the
device (devm) the driver core frees, and is not counted. The device tree and the
kernel answer as they please, with 0 or a negative error.
-/

namespace CpswDriver.Probe

open Resources

abbrev Port := CpswDriver.Port

def enodev : ℤ := 19

/-- data->slave_data and cpsw->slaves are arrays of this order. -/
def ports : List Port := [0, 1]

/-- A node that a reference can be taken to: those of the device, of its children "ethernet-ports"
and "cpts", of a port and of the PHY that a port's handle names. -/
inductive Node
  | self
  | ports
  | port (i : ℕ)
  | phy (i : ℕ)
  | cpts
  deriving DecidableEq

inductive Res
  | pmEnabled
  | pmUsage
  | node (n : Node)
  | fixedLink (n : Node)
  | dma
  | cpts
  | netdevNb
  | switchdevNb
  | switchdevBlNb
  | devlink
  | dlParams
  | dlRegistered
  | netdev (p : Port)
  deriving DecidableEq

/-- A child of "ethernet-ports", and what the calls that read it answer. `phyIsFixed` is what
of_phy_is_fixed_link says of the PHY that the handle names. -/
structure PortNode where
  regErr : ℤ
  reg : ℕ
  available : Bool
  phyGet : ℤ
  fixedLink : Bool
  registerFixedLink : ℤ
  phyHandle : Bool
  phyIsFixed : Bool
  phyMode : ℤ
  macid : ℤ

structure Tree where
  ofNode : Bool
  ports : Option (List PortNode)
  cpts : Bool

/-- What the kernel answers to the other calls of a probe. `cptsUnit` is whether
cpts_create answers with a time stamp unit. -/
structure Answers where
  cpswAlloc : Bool
  slavesAlloc : Bool
  gpiod : ℤ
  clk : ℤ
  regs : ℤ
  irqRx : ℤ
  irqTx : ℤ
  irqMisc : ℤ
  pmResume : ℤ
  slaveDataAlloc : Bool
  knownVersion : Bool
  slGet : Port → ℤ
  aleCreate : ℤ
  dmaCreate : Bool
  cptsCreate : ℤ
  cptsUnit : Bool
  txChan : ℤ
  rxChan : ℤ
  allocEtherdev : Port → Bool
  requestRx : ℤ
  requestTx : ℤ
  requestMisc : ℤ
  netdevNb : ℤ
  switchdevNb : ℤ
  switchdevBlNb : ℤ
  devlinkAlloc : Bool
  dlParams : ℤ
  registerNetdev : Port → ℤ

/-- slave_data->phy_node, with what of_phy_is_fixed_link says of it -/
structure PhyNode where
  node : Node
  fixed : Bool

structure SlaveData where
  disabled : Bool
  phyNode : Option PhyNode

/-- What the labels and cpsw_remove read. -/
structure CpswCommon where
  slaves : ℕ
  slaveData : Option (Port → SlaveData)
  ndev : Port → Bool
  cpts : Bool

/-- `created` are the net devices that cpsw_create_ports has made. It is no part of the driver. -/
structure State where
  books : Books Res
  bound : Bool
  drvdata : Option CpswCommon
  ret : ℤ
  created : Port → Bool

/-- The first error of a list of calls, 0 if there is none. -/
def firstErr : List ℤ → ℤ
  | [] => 0
  | ret :: rets => if ret ≠ 0 then ret else firstErr rets

structure DtLoop where
  slaveData : Port → SlaveData
  books : Books Res
  ret : ℤ

/-- The PHY node of a port, a fixed link or what its handle names. -/
def phyNodeOf (i : ℕ) (np : PortNode) (b : Books Res) : Option PhyNode × Books Res × ℤ :=
  if np.fixedLink then
    (some ⟨.port i, true⟩, (b.acquire (.fixedLink (.port i))).acquire (.node (.port i)), 0)
  else if np.phyHandle then (some ⟨.phy i, np.phyIsFixed⟩, b.acquire (.node (.phy i)), 0)
  else (none, b, -enodev)

theorem pred_lt_two {n : ℕ} (h : ¬(n = 0 ∨ 2 < n)) : n - 1 < 2 := by omega

def probePort (i : ℕ) (np : PortNode) (data : Port → SlaveData) (b : Books Res) : DtLoop :=
  if np.regErr < 0 then ⟨data, b, np.regErr⟩
  else if h : np.reg = 0 ∨ 2 < np.reg then ⟨data, b, -einval⟩
  else
    let p : Port := ⟨np.reg - 1, pred_lt_two h⟩
    if !np.available then ⟨Function.update data p { data p with disabled := true }, b, 0⟩
    else if np.phyGet ≠ 0 then
      ⟨Function.update data p { data p with disabled := false }, b, np.phyGet⟩
    else if np.fixedLink ∧ np.registerFixedLink ≠ 0 then
      ⟨Function.update data p { data p with disabled := false }, b, np.registerFixedLink⟩
    else
      let r := phyNodeOf i np b
      ⟨Function.update data p ⟨false, r.1⟩, r.2.1, firstErr [r.2.2, np.phyMode, np.macid]⟩

/-- The loop, which holds a reference to the child it is at, with err_node_put. -/
def probePorts : ℕ → List PortNode → (Port → SlaveData) → Books Res → DtLoop
  | _, [], data, b => ⟨data, b, 0⟩
  | i, np :: nps, data, b =>
    let r := probePort i np data (b.acquire (.node (.port i)))
    let b := r.books.release (.node (.port i))
    if r.ret ≠ 0 then ⟨r.slaveData, b, r.ret⟩ else probePorts (i + 1) nps r.slaveData b

def cpswProbeDt (tree : Tree) (slaveDataAlloc : Bool) (cpsw : CpswCommon) (b : Books Res) :
    CpswCommon × Books Res × ℤ :=
  if !tree.ofNode then (cpsw, b, -einval)
  else
    match tree.ports with
    | none => (cpsw, b, -enoent)
    | some nodes =>
      let b := b.acquire (.node .ports)
      let cpsw := { cpsw with slaves := nodes.length }
      if nodes.length ≠ 2 then (cpsw, b.release (.node .ports), -enoent)
      else if !slaveDataAlloc then (cpsw, b.release (.node .ports), -enomem)
      else
        let r := probePorts 0 nodes (fun _ => ⟨false, none⟩) b
        ({ cpsw with slaveData := some r.slaveData }, r.books.release (.node .ports), r.ret)

def removeSlave (data : Port → SlaveData) (b : Books Res) (p : Port) : Books Res :=
  match (data p).phyNode with
  | none => b
  | some np =>
    -- a fixed link that is not registered has no PHY device to be found
    let b := if np.fixed then b.drop (.fixedLink np.node) else b
    b.release (.node np.node)

/-- It reads slave_data of every slave, so it is undefined where there are slaves and no array. -/
def cpswRemoveDt (cpsw : CpswCommon) (b : Books Res) : Option (Books Res) :=
  if cpsw.slaves = 0 then some b
  else cpsw.slaveData.map fun data => ports.foldl (removeSlave data) b

/-- cpsw_init_common. It returns whether there is a time stamp unit. -/
def cpswInitCommon (tree : Tree) (ans : Answers) (b : Books Res) : Bool × Books Res × ℤ :=
  if !ans.knownVersion then (false, b, -enodev)
  else if firstErr (ports.map ans.slGet) ≠ 0 then (false, b, firstErr (ports.map ans.slGet))
  else if ans.aleCreate ≠ 0 then (false, b, ans.aleCreate)
  else if !ans.dmaCreate then (false, b, -enomem)
  else
    let b := b.acquire .dma
    -- without a child the node of the device itself is passed on and put
    let node := if tree.cpts then Node.cpts else Node.self
    let b := if tree.cpts then b.acquire (.node .cpts) else b
    if ans.cptsCreate ≠ 0 then (false, (b.release .dma).release (.node node), ans.cptsCreate)
    else
      let b := if ans.cptsUnit then b.acquire .cpts else b
      (ans.cptsUnit, b.release (.node node), 0)

/-- The loop of cpsw_create_ports. -/
def cpswCreatePorts (data : Port → SlaveData) (allocEtherdev : Port → Bool) :
    List Port → (Port → Bool) → (Port → Bool) × ℤ
  | [], ndev => (ndev, 0)
  | p :: ps, ndev =>
    if (data p).disabled then cpswCreatePorts data allocEtherdev ps ndev
    else if !allocEtherdev p then (ndev, -enomem)
    else cpswCreatePorts data allocEtherdev ps (Function.update ndev p true)

def cpswUnregisterPorts (ndev : Port → Bool) (b : Books Res) : Books Res :=
  ports.foldl (fun b p => if ndev p then b.release (.netdev p) else b) b

/-- The loop of cpsw_register_ports. -/
def registerLoop (registerNetdev : Port → ℤ) :
    List Port → (Port → Bool) → Books Res → (Port → Bool) × Books Res × ℤ
  | [], ndev, b => (ndev, b, 0)
  | p :: ps, ndev, b =>
    if !ndev p then registerLoop registerNetdev ps ndev b
    else if registerNetdev p ≠ 0 then (Function.update ndev p false, b, registerNetdev p)
    else registerLoop registerNetdev ps ndev (b.acquire (.netdev p))

def cpswRegisterPorts (registerNetdev : Port → ℤ) (ndev : Port → Bool) (b : Books Res) :
    (Port → Bool) × Books Res × ℤ :=
  let r := registerLoop registerNetdev ports ndev b
  if r.2.2 ≠ 0 then (r.1, cpswUnregisterPorts r.1 r.2.1, r.2.2) else r

def cpswSwitchdevRegisterNotifiers (ans : Answers) (b : Books Res) : Books Res × ℤ :=
  if ans.switchdevNb ≠ 0 then (b, ans.switchdevNb)
  else
    let b := b.acquire .switchdevNb
    if ans.switchdevBlNb ≠ 0 then (b.release .switchdevNb, ans.switchdevBlNb)
    else (b.acquire .switchdevBlNb, 0)

def cpswSwitchdevUnregisterNotifiers (b : Books Res) : Books Res :=
  (b.release .switchdevBlNb).release .switchdevNb

def cpswRegisterNotifiers (ans : Answers) (b : Books Res) : Books Res × ℤ :=
  if ans.netdevNb ≠ 0 then (b, ans.netdevNb)
  else
    let r := cpswSwitchdevRegisterNotifiers ans (b.acquire .netdevNb)
    if r.2 ≠ 0 then (r.1.release .netdevNb, r.2) else r

def cpswUnregisterNotifiers (b : Books Res) : Books Res :=
  (cpswSwitchdevUnregisterNotifiers b).release .netdevNb

def cpswRegisterDevlink (ans : Answers) (b : Books Res) : Books Res × ℤ :=
  if !ans.devlinkAlloc then (b, -enomem)
  else
    let b := b.acquire .devlink
    if ans.dlParams ≠ 0 then (b.release .devlink, ans.dlParams)
    else ((b.acquire .dlParams).acquire .dlRegistered, 0)

def cpswUnregisterDevlink (b : Books Res) : Books Res :=
  ((b.release .dlRegistered).release .dlParams).release .devlink

def failed (s : State) (ret : ℤ) : State := { s with bound := false, drvdata := none, ret := ret }

def cleanDtRet (s : State) (cpsw : CpswCommon) (ret : ℤ) : Option State :=
  (cpswRemoveDt cpsw s.books).map fun b =>
    failed { s with books := (b.release .pmUsage).release .pmEnabled } ret

/-- cpts_release takes no notice of a unit that is not there. -/
def cptsRelease (cpsw : CpswCommon) (b : Books Res) : Books Res :=
  if cpsw.cpts then b.release .cpts else b

def cleanCpts (s : State) (cpsw : CpswCommon) (ret : ℤ) : Option State :=
  cleanDtRet { s with books := (cptsRelease cpsw s.books).release .dma } cpsw ret

def cleanUnregisterNetdev (s : State) (cpsw : CpswCommon) (ret : ℤ) : Option State :=
  cleanCpts { s with books := cpswUnregisterPorts cpsw.ndev s.books } cpsw ret

def cleanUnregisterNotifiers (s : State) (cpsw : CpswCommon) (ret : ℤ) : Option State :=
  cleanUnregisterNetdev { s with books := cpswUnregisterNotifiers s.books } cpsw ret

/-- From cpsw_register_notifiers on. -/
def probeRegister (ans : Answers) (s : State) (cpsw : CpswCommon) : Option State :=
  let r := cpswRegisterNotifiers ans s.books
  if r.2 ≠ 0 then cleanUnregisterNetdev { s with books := r.1 } cpsw r.2
  else
    let r := cpswRegisterDevlink ans r.1
    if r.2 ≠ 0 then cleanUnregisterNotifiers { s with books := r.1 } cpsw r.2
    else
      let r := cpswRegisterPorts ans.registerNetdev cpsw.ndev r.1
      let cpsw := { cpsw with ndev := r.1 }
      if r.2.2 ≠ 0 then cleanUnregisterNotifiers { s with books := r.2.1 } cpsw r.2.2
      else
        some { s with
          books := r.2.1.release .pmUsage
          bound := true
          drvdata := some cpsw
          ret := 0 }

/-- From cpsw_create_ports on. An interrupt cannot be requested where the answer is negative. -/
def probePortsAndIrqs (ans : Answers) (s : State) (cpsw : CpswCommon) (data : Port → SlaveData) :
    Option State :=
  let r := cpswCreatePorts data ans.allocEtherdev ports (fun _ => false)
  let cpsw := { cpsw with ndev := r.1 }
  let s := { s with created := r.1 }
  if r.2 ≠ 0 then cleanUnregisterNetdev s cpsw r.2
  else if ans.requestRx < 0 then cleanUnregisterNetdev s cpsw ans.requestRx
  else if ans.requestTx < 0 then cleanUnregisterNetdev s cpsw ans.requestTx
  else if cpsw.cpts ∧ ans.requestMisc < 0 then cleanUnregisterNetdev s cpsw ans.requestMisc
  else probeRegister ans s cpsw

/-- From cpsw_probe_dt on, in a device that is powered. -/
def probePowered (tree : Tree) (ans : Answers) (s : State) : Option State :=
  let r := cpswProbeDt tree ans.slaveDataAlloc ⟨0, none, fun _ => false, false⟩ s.books
  if r.2.2 ≠ 0 then cleanDtRet { s with books := r.2.1 } r.1 r.2.2
  else
    let c := cpswInitCommon tree ans r.2.1
    let cpsw := { r.1 with cpts := c.1 }
    let s := { s with books := c.2.1 }
    if c.2.2 ≠ 0 then cleanDtRet s cpsw c.2.2
    else if ans.txChan ≠ 0 then cleanCpts s cpsw ans.txChan
    else if ans.rxChan ≠ 0 then cleanCpts s cpsw ans.rxChan
    else cpsw.slaveData.bind fun data => probePortsAndIrqs ans s cpsw data

/-- What is got before power management is enabled, as the first error. -/
def firstCalls (ans : Answers) : ℤ :=
  firstErr [if ans.cpswAlloc then 0 else -enomem, if ans.slavesAlloc then 0 else -enomem,
    ans.gpiod, ans.clk, ans.regs, min ans.irqRx 0, min ans.irqTx 0]

def cpswProbe (tree : Tree) (ans : Answers) (s : State) : Option State :=
  let s := { s with created := fun _ => false }
  if firstCalls ans ≠ 0 then some (failed s (firstCalls ans))
  else if ans.irqMisc ≤ 0 then
    -- 0 is returned as it is, and the core takes the device for a bound one
    some { s with bound := ans.irqMisc = 0, drvdata := none, ret := ans.irqMisc }
  else
    let b := s.books.acquire .pmEnabled
    if ans.pmResume < 0 then
      some (failed { s with books := b.release .pmEnabled } ans.pmResume)
    else probePowered tree ans { s with books := b.acquire .pmUsage }

/-- It is undefined where the probe has left no data and the device resumes. The core unbinds the
device whatever the callback returns. -/
def cpswRemove (pmResume : ℤ) (s : State) : Option State :=
  if pmResume < 0 then some (failed s pmResume)
  else
    s.drvdata.bind fun cpsw =>
      let b := cpswUnregisterNotifiers (s.books.acquire .pmUsage)
      let b := cpswUnregisterPorts cpsw.ndev (cpswUnregisterDevlink b)
      (cpswRemoveDt cpsw ((cptsRelease cpsw b).release .dma)).map fun b =>
        failed { s with books := (b.release .pmUsage).release .pmEnabled } 0

inductive Op
  | probe (tree : Tree) (ans : Answers)
  | remove (pmResume : ℤ)

def step (s : State) : Op → Option State
  | .probe tree ans => if s.bound then none else cpswProbe tree ans s
  | .remove pmResume => if s.bound then cpswRemove pmResume s else none

def unbound : State := ⟨Books.empty, false, none, 0, fun _ => false⟩

end CpswDriver.Probe
