import CpswDriver.Ale.Table

/-!
The operations on unicast and multicast entries. An entry that is added goes
over the old one for its key, else into a free slot, else over an entry that
the hardware may age out.
-/

namespace CpswDriver.Ale

def cpswAleSetVlanEntryType (e : AleEntry) (flags : U32) (vid : U16) : AleEntry :=
  if testBits flags aleVlan then
    cpswAleSetVlanId (cpswAleSetEntryType e aleTypeVlanAddr) (vid.setWidth 32)
  else cpswAleSetEntryType e aleTypeAddr

/-- (flags & ALE_VLAN) ? vid : 0 -/
def flagsVid (flags : U32) (vid : U16) : U16 := if testBits flags aleVlan then vid else 0

/-- (flags & m) ? 1 : 0 -/
def flagBit (flags m : U32) : U32 := if testBits flags m then 1 else 0

/-- The end of every add: find a slot if the key has none yet, and write the entry. -/
def cpswAleStore (ale : CpswAle) (idx : Option ℕ) (aleEntry : AleEntry) : CpswAle × ℤ :=
  match (idx.or (cpswAleMatchFree ale)).or (cpswAleFindAgeable ale) with
  | none => (ale, -enomem)
  | some idx => (cpswAleWrite ale idx aleEntry, 0)

/-- The entry that cpsw_ale_add_ucast writes. -/
def ucastEntry (params : AleParams) (addr : MacAddr) (port flags : U32) (vid : U16) : AleEntry :=
  let e := cpswAleSetVlanEntryType 0 flags vid
  let e := cpswAleSetAddr e addr
  let e := cpswAleSetUcastType e aleUcastPersistant
  let e := cpswAleSetSecure e (flagBit flags aleSecure)
  let e := cpswAleSetBlocked e (flagBit flags aleBlocked)
  cpswAleSetPortNum e port params.portNumBits

def cpswAleAddUcast (params : AleParams) (ale : CpswAle) (addr : MacAddr) (port flags : U32)
    (vid : U16) : CpswAle × ℤ :=
  cpswAleStore ale (cpswAleMatchAddr ale addr (flagsVid flags vid))
    (ucastEntry params addr port flags vid)

def cpswAleDelUcast (ale : CpswAle) (addr : MacAddr) (_port flags : U32) (vid : U16) :
    CpswAle × ℤ :=
  match cpswAleMatchAddr ale addr (flagsVid flags vid) with
  | none => (ale, -enoent)
  | some idx => (cpswAleWrite ale idx (cpswAleSetEntryType 0 aleTypeFree), 0)

/-- The entry that cpsw_ale_add_mcast makes of the one it read, or of a zeroed one. -/
def mcastEntry (params : AleParams) (e : AleEntry) (addr : MacAddr) (portMask flags : U32)
    (vid : U16) (mcastState : U32) : AleEntry :=
  let e := cpswAleSetVlanEntryType e flags vid
  let e := cpswAleSetAddr e addr
  let e := cpswAleSetSuper e (flagBit flags aleSuper)
  let e := cpswAleSetMcastState e mcastState
  let mask := cpswAleGetPortMask e params.portMaskBits
  cpswAleSetPortMask e (portMask ||| mask) params.portMaskBits

/-- The entry of a slot that was found, or a zeroed one. -/
def readOrZero (ale : CpswAle) : Option ℕ → AleEntry
  | some idx => cpswAleRead ale idx
  | none => 0

def cpswAleAddMcast (params : AleParams) (ale : CpswAle) (addr : MacAddr) (portMask flags : U32)
    (vid : U16) (mcastState : U32) : CpswAle × ℤ :=
  let idx := cpswAleMatchAddr ale addr (flagsVid flags vid)
  cpswAleStore ale idx
    (mcastEntry params (readOrZero ale idx) addr portMask flags vid mcastState)

/-- What cpsw_ale_del_mcast makes of the entry. -/
def delMcastEntry (params : AleParams) (e : AleEntry) (portMask : U32) : AleEntry :=
  let mcastMembers :=
    if portMask ≠ 0 then cpswAleGetPortMask e params.portMaskBits &&& ~~~portMask else 0
  if mcastMembers ≠ 0 then cpswAleSetPortMask e mcastMembers params.portMaskBits
  else cpswAleSetEntryType e aleTypeFree

def cpswAleDelMcast (params : AleParams) (ale : CpswAle) (addr : MacAddr) (portMask flags : U32)
    (vid : U16) : CpswAle × ℤ :=
  match cpswAleMatchAddr ale addr (flagsVid flags vid) with
  | none => (ale, -enoent)
  | some idx => (cpswAleWrite ale idx (delMcastEntry params (cpswAleRead ale idx) portMask), 0)

def cpswAleFlushMcast (params : AleParams) (e : AleEntry) (portMask : U32) : AleEntry :=
  let mask := cpswAleGetPortMask e params.portMaskBits
  if mask &&& portMask = 0 then e
  else
    let mask := mask &&& ~~~portMask
    if mask ≠ 0 then cpswAleSetPortMask e mask params.portMaskBits
    else cpswAleSetEntryType e aleTypeFree

def isBroadcastEtherAddr (addr : MacAddr) : Bool := decide (∀ i, addr i = 0xff)

/-- One turn of the loop of cpsw_ale_flush_multicast; `vid` is -1 for all VLANs. -/
def flushEntry (params : AleParams) (portMask vid : U32) (e : AleEntry) : AleEntry :=
  if !isAddrType (cpswAleGetEntryType e) then e
  else if vid ≠ -1 ∧ cpswAleGetVlanId e ≠ vid then e
  else if cpswAleGetMcast e = 0 then e
  else if cpswAleGetSuper e ≠ 0 then e
  else if isBroadcastEtherAddr (cpswAleGetAddr e) then e
  else cpswAleFlushMcast params e portMask

def cpswAleFlushMulticast (params : AleParams) (ale : CpswAle) (portMask vid : U32) :
    CpswAle × ℤ :=
  ({ ale with table := ale.table.map (flushEntry params portMask vid) }, 0)

end CpswDriver.Ale
