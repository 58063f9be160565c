import CpswDriver.Ale.Entry
import CpswDriver.Lib.Slots
import Mathlib.Data.Nat.Log

/-!
The table of the address lookup engine with the searches the driver makes in
it. Address entries are found by MAC address and VLAN id field, tagged and
untagged ones alike, and VLAN entries by VLAN id.
-/

namespace CpswDriver.Ale

open Slots

inductive VlanFld
  | memberList
  | unregMcastMsk
  | regMcastMsk
  | forceUntaggedMsk
  | unregMcastIdx
  | regMcastIdx
  deriving DecidableEq, Repr

/-- struct ale_entry_fld, with its flags ALE_FLD_ALLOWED and ALE_FLD_SIZE_PORT_MASK_BITS. -/
structure AleEntryFld where
  startBit : ℕ := 0
  numBits : ℕ := 0
  allowed : Bool := false
  sizePortMaskBits : Bool := false

def aleEntryFld (start bits : ℕ) : AleEntryFld := ⟨start, bits, true, false⟩
def aleEntryFldDynMskSize (start : ℕ) : AleEntryFld := ⟨start, 0, true, true⟩

/-- dm814x, am3/am4/am5, k2hk -/
def vlanEntryCpsw : VlanFld → AleEntryFld
  | .memberList => aleEntryFld 0 3
  | .unregMcastMsk => aleEntryFld 8 3
  | .regMcastMsk => aleEntryFld 16 3
  | .forceUntaggedMsk => aleEntryFld 24 3
  | .unregMcastIdx | .regMcastIdx => {}

/-- k2e/k2l, k3 am65/j721e cpsw2g -/
def vlanEntryNu : VlanFld → AleEntryFld
  | .memberList => aleEntryFldDynMskSize 0
  | .unregMcastIdx => aleEntryFld 20 3
  | .forceUntaggedMsk => aleEntryFldDynMskSize 24
  | .regMcastIdx => aleEntryFld 44 3
  | .unregMcastMsk | .regMcastMsk => {}

/-- K3 j721e/j7200 cpsw9g/5g, am64x cpsw3g -/
def vlanEntryK3Cpswxg : VlanFld → AleEntryFld
  | .memberList => aleEntryFldDynMskSize 0
  | .unregMcastMsk => aleEntryFldDynMskSize 12
  | .forceUntaggedMsk => aleEntryFldDynMskSize 24
  | .regMcastMsk => aleEntryFldDynMskSize 36
  | .unregMcastIdx | .regMcastIdx => {}

structure CpswAleDevId where
  devId : String
  hwAutoaging : Bool := false
  nuSwitchAle : Bool := false
  vlanEntryTbl : VlanFld → AleEntryFld

def cpswAleIdMatch : List CpswAleDevId :=
  [{ devId := "cpsw", vlanEntryTbl := vlanEntryCpsw },
   { devId := "66ak2h-xgbe", vlanEntryTbl := vlanEntryCpsw },
   { devId := "66ak2el", nuSwitchAle := true, vlanEntryTbl := vlanEntryNu },
   { devId := "66ak2g", nuSwitchAle := true, vlanEntryTbl := vlanEntryNu },
   { devId := "am65x-cpsw2g", hwAutoaging := true, nuSwitchAle := true,
     vlanEntryTbl := vlanEntryNu },
   { devId := "j721e-cpswxg", hwAutoaging := true, vlanEntryTbl := vlanEntryK3Cpswxg },
   { devId := "am64-cpswxg", hwAutoaging := true, vlanEntryTbl := vlanEntryK3Cpswxg }]

/-- The parameters of an engine of one of the known parts. Twelve ports are the
most for which the masks of a VLAN entry stay clear of its VLAN id. -/
structure AleParams where
  dev : CpswAleDevId
  aleAgeout : ℕ
  alePorts : ℕ
  busFreq : ℕ
  dev_mem : dev ∈ cpswAleIdMatch
  alePorts_pos : 0 < alePorts
  alePorts_le : alePorts ≤ 12

namespace AleParams

variable (params : AleParams)

def nuSwitchAle : Bool := params.dev.nuSwitchAle
def vlanEntryTbl : VlanFld → AleEntryFld := params.dev.vlanEntryTbl
def portMaskBits : ℕ := params.alePorts
/-- order_base_2 of the number of ports -/
def portNumBits : ℕ := Nat.clog 2 params.alePorts

theorem portNumBits_le : params.portNumBits ≤ 4 := by
  have h := params.alePorts_le
  exact (Nat.clog_mono_right 2 h).trans (by decide)

/-- An index into the mask registers goes with the table that has one. -/
theorem dev_cases : params.nuSwitchAle = true ∧ params.vlanEntryTbl = vlanEntryNu ∨
    params.nuSwitchAle = false ∧
      (params.vlanEntryTbl = vlanEntryCpsw ∨ params.vlanEntryTbl = vlanEntryK3Cpswxg) := by
  have h := params.dev_mem
  unfold nuSwitchAle vlanEntryTbl
  simp only [cpswAleIdMatch, List.mem_cons, List.not_mem_nil, or_false] at h
  rcases h with h | h | h | h | h | h | h <;> simp [h]

end AleParams

/-- struct cpsw_ale: the hardware's table and registers, the cache of the VLANs
that the host takes untagged, and whether the ageing timer is pending. -/
structure CpswAle where
  table : List AleEntry
  regs : ℕ → U32
  p0UntagVidMask : U16 → Bool
  timer : Bool

def threePorts : AleParams where
  dev := { devId := "cpsw", vlanEntryTbl := vlanEntryCpsw }
  aleAgeout := 10
  alePorts := 3
  busFreq := 125000000
  dev_mem := List.mem_cons_self
  alePorts_pos := by decide
  alePorts_le := by decide

/-- An engine after cpsw_ale_create, with a table of `n` entries. -/
def emptyAle (n : ℕ) : CpswAle where
  table := List.replicate n 0
  regs := fun _ => 0
  p0UntagVidMask := fun _ => false
  timer := false

def fldBits (params : AleParams) (fld : AleEntryFld) : ℕ :=
  if fld.sizePortMaskBits then params.portMaskBits else fld.numBits

def cpswAleVlanGetFld (params : AleParams) (aleEntry : AleEntry) (fldId : VlanFld) : U32 :=
  let entryFld := params.vlanEntryTbl fldId
  if !entryFld.allowed then BitVec.ofInt 32 (-enoent)
  else cpswAleGetField aleEntry entryFld.startBit (fldBits params entryFld)

def cpswAleVlanSetFld (params : AleParams) (aleEntry : AleEntry) (fldId : VlanFld) (value : U32) :
    AleEntry :=
  let entryFld := params.vlanEntryTbl fldId
  if !entryFld.allowed then aleEntry
  else cpswAleSetField aleEntry entryFld.startBit (fldBits params entryFld) value

def cpswAleRead (ale : CpswAle) (idx : ℕ) : AleEntry := ale.table.getD idx 0

def cpswAleWrite (ale : CpswAle) (idx : ℕ) (aleEntry : AleEntry) : CpswAle :=
  { ale with table := ale.table.set idx aleEntry }

def isAddrType (type : U32) : Bool := type == aleTypeAddr || type == aleTypeVlanAddr

def cpswAleMatchAddr (ale : CpswAle) (addr : MacAddr) (vid : U16) : Option ℕ :=
  ale.table.findIdx? fun e => isAddrType (cpswAleGetEntryType e) &&
    cpswAleGetVlanId e == vid.setWidth 32 && decide (cpswAleGetAddr e = addr)

def cpswAleMatchVlan (ale : CpswAle) (vid : U16) : Option ℕ :=
  ale.table.findIdx? fun e =>
    cpswAleGetEntryType e == aleTypeVlan && cpswAleGetVlanId e == vid.setWidth 32

def isFree (e : AleEntry) : Bool := cpswAleGetEntryType e == aleTypeFree

def cpswAleMatchFree (ale : CpswAle) : Option ℕ := ale.table.findIdx? isFree

/-- A unicast entry that the hardware may age out. -/
def isAgeable (e : AleEntry) : Bool :=
  isAddrType (cpswAleGetEntryType e) && cpswAleGetMcast e == 0 &&
    cpswAleGetUcastType e != aleUcastPersistant && cpswAleGetUcastType e != aleUcastOui

def cpswAleFindAgeable (ale : CpswAle) : Option ℕ := ale.table.findIdx? isAgeable

def addrKey (e : AleEntry) : Option (MacAddr × U32) :=
  if isAddrType (cpswAleGetEntryType e) then some (cpswAleGetAddr e, cpswAleGetVlanId e) else none

def vlanKey (e : AleEntry) : Option U32 :=
  if cpswAleGetEntryType e = aleTypeVlan then some (cpswAleGetVlanId e) else none

theorem cpswAleMatchAddr_eq (ale : CpswAle) (addr : MacAddr) (vid : U16) :
    cpswAleMatchAddr ale addr vid = slotOf addrKey ale.table (addr, vid.setWidth 32) := by
  unfold cpswAleMatchAddr slotOf
  congr 1
  funext e
  cases htype : isAddrType (cpswAleGetEntryType e) <;>
    simp [addrKey, htype, Bool.and_comm, Bool.beq_eq_decide_eq]

theorem cpswAleMatchVlan_eq (ale : CpswAle) (vid : U16) :
    cpswAleMatchVlan ale vid = slotOf vlanKey ale.table (vid.setWidth 32) := by
  unfold cpswAleMatchVlan slotOf
  congr 1
  funext e
  by_cases htype : cpswAleGetEntryType e = aleTypeVlan <;>
    simp [vlanKey, htype, Bool.beq_eq_decide_eq]

theorem addrKey_of_free {e : AleEntry} (h : isFree e = true) : addrKey e = none := by
  have htype : cpswAleGetEntryType e = aleTypeFree := by simpa [isFree] using h
  simp [addrKey, htype, isAddrType, aleTypeFree, aleTypeAddr, aleTypeVlanAddr]

theorem vlanKey_of_free {e : AleEntry} (h : isFree e = true) : vlanKey e = none := by
  have htype : cpswAleGetEntryType e = aleTypeFree := by simpa [isFree] using h
  simp [vlanKey, htype, aleTypeFree, aleTypeVlan]

theorem vlanKey_of_addr {e : AleEntry} (h : isAddrType (cpswAleGetEntryType e) = true) :
    vlanKey e = none := by
  unfold vlanKey
  rw [if_neg]
  intro htype
  rw [htype] at h
  cases h

theorem addrKey_of_vlan {e : AleEntry} (h : cpswAleGetEntryType e = aleTypeVlan) :
    addrKey e = none := by
  simp [addrKey, h, isAddrType, aleTypeVlan, aleTypeAddr, aleTypeVlanAddr]

theorem vlanKey_of_ageable {e : AleEntry} (h : isAgeable e = true) : vlanKey e = none := by
  simp only [isAgeable, Bool.and_eq_true] at h
  exact vlanKey_of_addr h.1.1.1

end CpswDriver.Ale
