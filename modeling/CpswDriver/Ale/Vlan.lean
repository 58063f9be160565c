import CpswDriver.Ale.Addr

/-!
The operations on VLAN entries. An entry holds four masks; on the NU switch the
two multicast masks are in registers that the entry points to. The driver also
caches, in a bitmap, for which VLANs the host takes frames untagged.
-/

namespace CpswDriver.Ale

def nuVlanUnregMcastIdx : U32 := 1

def aleVlanMaskMux (reg : ℕ) : ℕ := 0xc0 + 0x4 * reg

def CpswAle.writel (ale : CpswAle) (v : U32) (offset : ℕ) : CpswAle :=
  { ale with regs := Function.update ale.regs offset v }

def cpswAleSetVlanMcast (params : AleParams) (ale : CpswAle) (e : AleEntry)
    (regMcast unregMcast : U32) : CpswAle :=
  let idx := cpswAleVlanGetFld params e .regMcastIdx
  let ale := ale.writel regMcast (aleVlanMaskMux idx.toNat)
  let idx := cpswAleVlanGetFld params e .unregMcastIdx
  ale.writel unregMcast (aleVlanMaskMux idx.toNat)

def cpswAleSetVlanUntag (params : AleParams) (ale : CpswAle) (e : AleEntry) (vid : U16)
    (untagMask : U32) : CpswAle × AleEntry :=
  ({ ale with p0UntagVidMask :=
      Function.update ale.p0UntagVidMask vid (testBits untagMask alePortHost) },
    cpswAleVlanSetFld params e .forceUntaggedMsk untagMask)

/-- The entry that cpsw_ale_add_vlan writes, with what making it does to the cache
and the registers. -/
def addVlanEntry (params : AleParams) (ale : CpswAle) (e : AleEntry) (vid : U16)
    (portMask untag regMcast unregMcast : U32) : CpswAle × AleEntry :=
  let e := cpswAleSetEntryType e aleTypeVlan
  let e := cpswAleSetVlanId e (vid.setWidth 32)
  let (ale, e) := cpswAleSetVlanUntag params ale e vid untag
  let (ale, e) :=
    if !params.nuSwitchAle then
      let e := cpswAleVlanSetFld params e .regMcastMsk regMcast
      (ale, cpswAleVlanSetFld params e .unregMcastMsk unregMcast)
    else
      let e := cpswAleVlanSetFld params e .unregMcastIdx nuVlanUnregMcastIdx
      (cpswAleSetVlanMcast params ale e regMcast unregMcast, e)
  (ale, cpswAleVlanSetFld params e .memberList portMask)

def cpswAleAddVlan (params : AleParams) (ale : CpswAle) (vid : U16)
    (portMask untag regMcast unregMcast : U32) : CpswAle × ℤ :=
  let idx := cpswAleMatchVlan ale vid
  let (ale, e) :=
    addVlanEntry params ale (readOrZero ale idx) vid portMask untag regMcast unregMcast
  cpswAleStore ale idx e

def cpswAleVlanDelModifyInt (params : AleParams) (ale : CpswAle) (e : AleEntry) (vid : U16)
    (portMask : U32) : CpswAle × AleEntry :=
  let members := cpswAleVlanGetFld params e .memberList &&& ~~~portMask
  if members = 0 then
    let (ale, e) := cpswAleSetVlanUntag params ale e vid 0
    (ale, cpswAleSetEntryType e aleTypeFree)
  else
    let untag := cpswAleVlanGetFld params e .forceUntaggedMsk &&& members
    let regMcast := cpswAleVlanGetFld params e .regMcastMsk &&& members
    let unregMcast := cpswAleVlanGetFld params e .unregMcastMsk &&& members
    let (ale, e) := cpswAleSetVlanUntag params ale e vid untag
    let (ale, e) :=
      if !params.nuSwitchAle then
        let e := cpswAleVlanSetFld params e .regMcastMsk regMcast
        (ale, cpswAleVlanSetFld params e .unregMcastMsk unregMcast)
      else (cpswAleSetVlanMcast params ale e regMcast unregMcast, e)
    (ale, cpswAleVlanSetFld params e .memberList members)

def cpswAleVlanDelModify (params : AleParams) (ale : CpswAle) (vid : U16) (portMask : U32) :
    CpswAle × ℤ :=
  match cpswAleMatchVlan ale vid with
  | none => (ale, -enoent)
  | some idx =>
    let (ale, e) := cpswAleVlanDelModifyInt params ale (cpswAleRead ale idx) vid portMask
    (cpswAleWrite ale idx e, 0)

/-- What cpsw_ale_del_vlan does to the entry. -/
def delVlanEntry (params : AleParams) (ale : CpswAle) (e : AleEntry) (vid : U16)
    (portMask : U32) : CpswAle × AleEntry :=
  let members := cpswAleVlanGetFld params e .memberList &&& ~~~portMask
  if portMask = 0 ∨ members = 0 then
    let (ale, e) := cpswAleSetVlanUntag params ale e vid 0
    (ale, cpswAleSetEntryType e aleTypeFree)
  else cpswAleVlanDelModifyInt params ale e vid (portMask &&& ~~~alePortHost)

def cpswAleDelVlan (params : AleParams) (ale : CpswAle) (vid : U16) (portMask : U32) :
    CpswAle × ℤ :=
  match cpswAleMatchVlan ale vid with
  | none => (ale, -enoent)
  | some idx =>
    let (ale, e) := delVlanEntry params ale (cpswAleRead ale idx) vid portMask
    (cpswAleWrite ale idx e, 0)

def cpswAleVlanAddModify (params : AleParams) (ale : CpswAle) (vid : U16)
    (portMask untagMask regMask unregMask : U32) : CpswAle × ℤ :=
  let e := readOrZero ale (cpswAleMatchVlan ale vid)
  let vlanMembers := cpswAleVlanGetFld params e .memberList
  let regMcastMembers := cpswAleVlanGetFld params e .regMcastMsk
  let unregMcastMembers := cpswAleVlanGetFld params e .unregMcastMsk
  let untagMembers := cpswAleVlanGetFld params e .forceUntaggedMsk
  cpswAleAddVlan params ale vid (vlanMembers ||| portMask)
    ((untagMembers &&& ~~~portMask) ||| untagMask)
    ((regMcastMembers &&& ~~~portMask) ||| regMask)
    ((unregMcastMembers &&& ~~~portMask) ||| unregMask)

/-- One turn of the loop of cpsw_ale_set_unreg_mcast. -/
def unregMcastEntry (params : AleParams) (unregMcastMask : U32) (add : Bool) (e : AleEntry) :
    AleEntry :=
  if cpswAleGetEntryType e ≠ aleTypeVlan then e
  else
    let unregMembers := cpswAleVlanGetFld params e .unregMcastMsk
    cpswAleVlanSetFld params e .unregMcastMsk
      (if add then unregMembers ||| unregMcastMask else unregMembers &&& ~~~unregMcastMask)

def cpswAleSetUnregMcast (params : AleParams) (ale : CpswAle) (unregMcastMask : U32) (add : Bool) :
    CpswAle :=
  { ale with table := ale.table.map (unregMcastEntry params unregMcastMask add) }

def withHost (allmulti : Bool) (mask : U32) : U32 :=
  if allmulti then mask ||| alePortHost else mask &&& ~~~alePortHost

def cpswAleVlanSetUnregMcast (params : AleParams) (e : AleEntry) (allmulti : Bool) : AleEntry :=
  cpswAleVlanSetFld params e .unregMcastMsk
    (withHost allmulti (cpswAleVlanGetFld params e .unregMcastMsk))

def cpswAleVlanSetUnregMcastIdx (params : AleParams) (regs : ℕ → U32) (e : AleEntry)
    (allmulti : Bool) : ℕ → U32 :=
  let idx := cpswAleVlanGetFld params e .unregMcastIdx
  Function.update regs (aleVlanMaskMux idx.toNat)
    (withHost allmulti (regs (aleVlanMaskMux idx.toNat)))

/-- The entries that cpsw_ale_set_allmulti changes; `port` is -1 for all. -/
def allmultiApplies (params : AleParams) (port : ℤ) (e : AleEntry) : Bool :=
  cpswAleGetEntryType e == aleTypeVlan &&
    (port == -1 || testBits (cpswAleVlanGetFld params e .memberList) (1#32 <<< port.toNat))

def cpswAleSetAllmulti (params : AleParams) (ale : CpswAle) (allmulti : Bool) (port : ℤ) :
    CpswAle :=
  if !params.nuSwitchAle then
    { ale with table := ale.table.map fun e =>
        if allmultiApplies params port e then cpswAleVlanSetUnregMcast params e allmulti else e }
  else
    { ale with regs := ale.table.foldl (fun regs e =>
        if allmultiApplies params port e then cpswAleVlanSetUnregMcastIdx params regs e allmulti
        else regs) ale.regs }

end CpswDriver.Ale
