import CpswDriver.Ale.Control
import CpswDriver.Lib.Runs

/-!
The address lookup engine under all its operations, with the hardware that
learns and ages entries on its own. Two slots never share a key, and no two
VLAN entries share a VLAN id.
-/

namespace CpswDriver.Ale

open Slots

inductive Op
  | addUcast (addr : MacAddr) (port flags : U32) (vid : U16)
  | delUcast (addr : MacAddr) (port flags : U32) (vid : U16)
  | addMcast (addr : MacAddr) (portMask flags : U32) (vid : U16) (mcastState : U32)
  | delMcast (addr : MacAddr) (portMask flags : U32) (vid : U16)
  | flushMulticast (portMask vid : U32)
  | addVlan (vid : U16) (portMask untag regMcast unregMcast : U32)
  | vlanAddModify (vid : U16) (portMask untagMask regMask unregMask : U32)
  | vlanDelModify (vid : U16) (portMask : U32)
  | delVlan (vid : U16) (portMask : U32)
  | setUnregMcast (unregMcastMask : U32) (add : Bool)
  | setAllmulti (allmulti : Bool) (port : ℤ)
  | start
  | stop
  /-- the hardware learns, refreshes or ages out an entry -/
  | hardware (idx : ℕ) (aleEntry : AleEntry)

/-- The hardware replaces free and ageable entries only, and learns no address twice. -/
def hardwareMay (ale : CpswAle) (idx : ℕ) (aleEntry : AleEntry) : Bool :=
  match ale.table[idx]? with
  | none => false
  | some old => (isFree old || isAgeable old) && (isFree aleEntry || isAgeable aleEntry &&
      (addrKey aleEntry == addrKey old ||
        (addrKey aleEntry).all fun k => (lookup addrKey ale.table k).isNone))

def step (params : AleParams) (ale : CpswAle) : Op → Option CpswAle
  | .addUcast addr port flags vid => some (cpswAleAddUcast params ale addr port flags vid).1
  | .delUcast addr port flags vid => some (cpswAleDelUcast ale addr port flags vid).1
  | .addMcast addr portMask flags vid mcastState =>
    some (cpswAleAddMcast params ale addr portMask flags vid mcastState).1
  | .delMcast addr portMask flags vid => some (cpswAleDelMcast params ale addr portMask flags vid).1
  | .flushMulticast portMask vid => some (cpswAleFlushMulticast params ale portMask vid).1
  | .addVlan vid portMask untag regMcast unregMcast =>
    some (cpswAleAddVlan params ale vid portMask untag regMcast unregMcast).1
  | .vlanAddModify vid portMask untagMask regMask unregMask =>
    some (cpswAleVlanAddModify params ale vid portMask untagMask regMask unregMask).1
  | .vlanDelModify vid portMask => some (cpswAleVlanDelModify params ale vid portMask).1
  | .delVlan vid portMask => some (cpswAleDelVlan params ale vid portMask).1
  | .setUnregMcast unregMcastMask add => some (cpswAleSetUnregMcast params ale unregMcastMask add)
  | .setAllmulti allmulti port => some (cpswAleSetAllmulti params ale allmulti port)
  | .start => some (cpswAleStart params ale)
  | .stop => some (cpswAleStop params ale)
  | .hardware idx aleEntry =>
    if hardwareMay ale idx aleEntry then some (cpswAleWrite ale idx aleEntry) else none

/-- is_multicast_ether_addr -/
def isMulticastEtherAddr (addr : MacAddr) : Bool := (addr 0).getLsbD 0

/-- VLAN_N_VID -/
def vlanNVid : ℕ := 4096

/-- VLAN ids are below 4096, unicast operations are on unicast addresses, and
multicast ones on multicast addresses. -/
def WellFormed : Op → Prop
  | .addUcast addr _ _ vid | .delUcast addr _ _ vid =>
    isMulticastEtherAddr addr = false ∧ vid.toNat < vlanNVid
  | .addMcast addr _ _ vid _ | .delMcast addr _ _ vid =>
    isMulticastEtherAddr addr = true ∧ vid.toNat < vlanNVid
  | .addVlan vid _ _ _ _ | .vlanAddModify vid _ _ _ _ | .vlanDelModify vid _ | .delVlan vid _ =>
    vid.toNat < vlanNVid
  | .flushMulticast _ _ | .setUnregMcast _ _ | .setAllmulti _ _ | .start | .stop
  | .hardware _ _ => True

instance : DecidablePred WellFormed
  | .addUcast addr _ _ vid | .delUcast addr _ _ vid =>
    inferInstanceAs (Decidable (isMulticastEtherAddr addr = false ∧ vid.toNat < vlanNVid))
  | .addMcast addr _ _ vid _ | .delMcast addr _ _ vid =>
    inferInstanceAs (Decidable (isMulticastEtherAddr addr = true ∧ vid.toNat < vlanNVid))
  | .addVlan vid _ _ _ _ | .vlanAddModify vid _ _ _ _ | .vlanDelModify vid _ | .delVlan vid _ =>
    inferInstanceAs (Decidable (vid.toNat < vlanNVid))
  | .flushMulticast _ _ | .setUnregMcast _ _ | .setAllmulti _ _ | .start | .stop
  | .hardware _ _ => .isTrue trivial

@[simp] theorem getField_zero (start bits : ℕ) : cpswAleGetField 0 start bits = 0 := by
  simp [cpswAleGetField, BitField.get]

theorem vid_field {vid : U16} (h : vid.toNat < vlanNVid) :
    vid.setWidth 32 &&& BitField.bitMask 32 12 = vid.setWidth 32 := by
  apply BitField.and_bitMask_of_lt (by decide)
  rw [BitVec.toNat_setWidth, Nat.mod_eq_of_lt (by unfold vlanNVid at h; omega)]
  exact h

theorem getAddr_setField {start bits : ℕ} (hlo : 48 ≤ start) (hs : start < 96) (hb : bits < 32)
    (e : AleEntry) (v : U32) :
    cpswAleGetAddr (cpswAleSetField e start bits v) = cpswAleGetAddr e := by
  funext i
  unfold cpswAleGetAddr
  rw [getField_setField_of_apart hs (by omega) hb (by decide)]
  unfold Apart
  omega

/-- A write above the type leaves the key of an address entry alone. -/
theorem addrKey_setField {start bits : ℕ} (hlo : 62 ≤ start) (hs : start < 96) (hb : bits < 32)
    (e : AleEntry) (v : U32) : addrKey (cpswAleSetField e start bits v) = addrKey e := by
  have htype : cpswAleGetEntryType (cpswAleSetField e start bits v) = cpswAleGetEntryType e :=
    getField_setField_of_apart hs (by decide) hb (by decide) (by unfold Apart; omega) _ _
  have hvid : cpswAleGetVlanId (cpswAleSetField e start bits v) = cpswAleGetVlanId e :=
    getField_setField_of_apart hs (by decide) hb (by decide) (by unfold Apart; omega) _ _
  unfold addrKey
  rw [htype, hvid, getAddr_setField (by omega) hs hb]

theorem getEntryType_setEntryType (e : AleEntry) (v : U32) :
    cpswAleGetEntryType (cpswAleSetEntryType e v) = v &&& BitField.bitMask 32 2 :=
  getField_setField (by decide) _ _

theorem isFree_setEntryType (e : AleEntry) : isFree (cpswAleSetEntryType e aleTypeFree) = true := by
  unfold isFree
  rw [getEntryType_setEntryType]
  decide

/-- The type and VLAN id of an address entry, and its address. -/
theorem addrKey_typed {e : AleEntry} {flags : U32} {vid : U16} (hvid : vid.toNat < vlanNVid)
    (he : testBits flags aleVlan = false → cpswAleGetVlanId e = 0) (addr : MacAddr) :
    addrKey (cpswAleSetAddr (cpswAleSetVlanEntryType e flags vid) addr) =
      some (addr, (flagsVid flags vid).setWidth 32) := by
  unfold addrKey
  rw [getAddr_setAddr]
  unfold cpswAleSetVlanEntryType flagsVid cpswAleGetEntryType cpswAleGetVlanId
  rw [getField_setAddr (by decide) (by decide) (by decide),
    getField_setAddr (by decide) (by decide) (by decide)]
  cases hflag : testBits flags aleVlan with
  | true =>
    have htype : cpswAleGetField (cpswAleSetVlanId (cpswAleSetEntryType e aleTypeVlanAddr)
        (vid.setWidth 32)) 60 2 = aleTypeVlanAddr := by
      unfold cpswAleSetVlanId cpswAleSetEntryType
      rw [getField_setField_of_apart (by decide) (by decide) (by decide) (by decide) (by decide),
        getField_setField (by decide)]
      decide
    have hid : cpswAleGetField (cpswAleSetVlanId (cpswAleSetEntryType e aleTypeVlanAddr)
        (vid.setWidth 32)) 48 12 = vid.setWidth 32 := by
      unfold cpswAleSetVlanId
      rw [getField_setField (by decide), vid_field hvid]
    simp [htype, hid, isAddrType]
  | false =>
    have htype : cpswAleGetField (cpswAleSetEntryType e aleTypeAddr) 60 2 = aleTypeAddr := by
      unfold cpswAleSetEntryType
      rw [getField_setField (by decide)]
      decide
    have hid : cpswAleGetField (cpswAleSetEntryType e aleTypeAddr) 48 12 = 0 := by
      unfold cpswAleSetEntryType
      rw [getField_setField_of_apart (by decide) (by decide) (by decide) (by decide) (by decide)]
      exact he hflag
    simp [htype, hid, isAddrType]

theorem addrKey_ucastEntry (params : AleParams) (addr : MacAddr) (port flags : U32) {vid : U16}
    (hvid : vid.toNat < vlanNVid) : addrKey (ucastEntry params addr port flags vid) =
      some (addr, (flagsVid flags vid).setWidth 32) := by
  have hbits := params.portNumBits_le
  unfold ucastEntry cpswAleSetPortNum cpswAleSetBlocked cpswAleSetSecure cpswAleSetUcastType
  dsimp only
  rw [addrKey_setField (by decide) (by decide) (by omega),
    addrKey_setField (by decide) (by decide) (by decide),
    addrKey_setField (by decide) (by decide) (by decide),
    addrKey_setField (by decide) (by decide) (by decide)]
  exact addrKey_typed hvid (fun _ => getField_zero 48 12) addr

theorem addrKey_setPortMask (params : AleParams) (e : AleEntry) (v : U32) :
    addrKey (cpswAleSetPortMask e v params.portMaskBits) = addrKey e := by
  have hbits : params.portMaskBits ≤ 12 := params.alePorts_le
  exact addrKey_setField (by decide) (by decide) (by omega) _ _

theorem addrKey_mcastEntry (params : AleParams) {e : AleEntry} (addr : MacAddr)
    (portMask flags : U32) {vid : U16} (mcastState : U32) (hvid : vid.toNat < vlanNVid)
    (he : testBits flags aleVlan = false → cpswAleGetVlanId e = 0) :
    addrKey (mcastEntry params e addr portMask flags vid mcastState) =
      some (addr, (flagsVid flags vid).setWidth 32) := by
  unfold mcastEntry
  dsimp only
  rw [addrKey_setPortMask]
  unfold cpswAleSetMcastState cpswAleSetSuper
  rw [addrKey_setField (by decide) (by decide) (by decide),
    addrKey_setField (by decide) (by decide) (by decide)]
  exact addrKey_typed hvid he addr

theorem addrKey_delMcastEntry (params : AleParams) (e : AleEntry) (portMask : U32) :
    addrKey (delMcastEntry params e portMask) = addrKey e ∨
      addrKey (delMcastEntry params e portMask) = none := by
  unfold delMcastEntry
  dsimp only
  generalize (if portMask ≠ 0 then _ else _) = mcastMembers
  split
  · exact .inl (addrKey_setPortMask _ _ _)
  · exact .inr (addrKey_of_free (isFree_setEntryType e))

/-- The flush changes entries of addresses only: one loses ports or becomes free. -/
theorem flushEntry_cases (params : AleParams) (portMask vid : U32) (e : AleEntry) :
    flushEntry params portMask vid e = e ∨ isAddrType (cpswAleGetEntryType e) = true ∧
      ((∃ v, flushEntry params portMask vid e = cpswAleSetPortMask e v params.portMaskBits) ∨
        flushEntry params portMask vid e = cpswAleSetEntryType e aleTypeFree) := by
  have hflush : cpswAleFlushMcast params e portMask = e ∨
      (∃ v, cpswAleFlushMcast params e portMask = cpswAleSetPortMask e v params.portMaskBits) ∨
        cpswAleFlushMcast params e portMask = cpswAleSetEntryType e aleTypeFree := by
    unfold cpswAleFlushMcast
    dsimp only
    split
    · exact .inl rfl
    split
    · exact .inr (.inl ⟨_, rfl⟩)
    · exact .inr (.inr rfl)
  unfold flushEntry
  split
  · exact .inl rfl
  rename_i htype
  split
  · exact .inl rfl
  split
  · exact .inl rfl
  split
  · exact .inl rfl
  split
  · exact .inl rfl
  · exact hflush.imp_right fun hchange => ⟨by simpa using htype, hchange⟩

theorem addrKey_flushEntry (params : AleParams) (portMask vid : U32) (e : AleEntry) :
    addrKey (flushEntry params portMask vid e) = addrKey e ∨
      addrKey (flushEntry params portMask vid e) = none := by
  rcases flushEntry_cases params portMask vid e with heq | ⟨-, ⟨v, heq⟩ | heq⟩
  · rw [heq]
    exact .inl rfl
  · rw [heq]
    exact .inl (addrKey_setPortMask _ _ _)
  · rw [heq]
    exact .inr (addrKey_of_free (isFree_setEntryType e))

end CpswDriver.Ale
