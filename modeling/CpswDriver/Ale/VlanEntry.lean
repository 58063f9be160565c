import CpswDriver.Ale.System

/-!
What the VLAN operations do to one entry. Every field of a VLAN entry lies
below its VLAN id and type, and each operation leaves either a free entry or one
for the same VLAN, with the cached bit of that VLAN in step with the entry.
-/

namespace CpswDriver.Ale

open Slots

variable {params : AleParams} {e : AleEntry} {ale : CpswAle} {vid : U16}

/-- A field of a VLAN entry lies in the lowest word, or in the lower half of the next one. -/
theorem fld_low {fldId : VlanFld} (h : (params.vlanEntryTbl fldId).allowed = true) :
    fldBits params (params.vlanEntryTbl fldId) ≤ 12 ∧
      ((params.vlanEntryTbl fldId).startBit < 32 ∨
        32 ≤ (params.vlanEntryTbl fldId).startBit ∧ (params.vlanEntryTbl fldId).startBit +
          fldBits params (params.vlanEntryTbl fldId) ≤ 48) := by
  have hports : params.portMaskBits ≤ 12 := params.alePorts_le
  unfold fldBits
  rcases params.dev_cases with ⟨-, htbl⟩ | ⟨-, htbl | htbl⟩ <;> rw [htbl] at h ⊢ <;>
    cases fldId <;>
    simp [vlanEntryNu, vlanEntryCpsw, vlanEntryK3Cpswxg, aleEntryFld, aleEntryFldDynMskSize]
      at h ⊢ <;>
    omega

/-- The VLAN id, the type and what lies above them do not see the masks. -/
theorem getField_vlanSetFld {start bits : ℕ} (hlo : 48 ≤ start) (hs : start < 96) (hb : bits < 32)
    (fldId : VlanFld) (v : U32) :
    cpswAleGetField (cpswAleVlanSetFld params e fldId v) start bits =
      cpswAleGetField e start bits := by
  unfold cpswAleVlanSetFld
  dsimp only
  split
  · rfl
  rename_i hallowed
  obtain ⟨hbits, hlow⟩ := fld_low (by simpa using hallowed)
  apply getField_setField_of_apart (by omega) hs (by omega) hb
  unfold Apart
  omega

@[simp] theorem getEntryType_vlanSetFld (fldId : VlanFld) (v : U32) :
    cpswAleGetEntryType (cpswAleVlanSetFld params e fldId v) = cpswAleGetEntryType e :=
  getField_vlanSetFld (by decide) (by decide) (by decide) _ _

@[simp] theorem getVlanId_vlanSetFld (fldId : VlanFld) (v : U32) :
    cpswAleGetVlanId (cpswAleVlanSetFld params e fldId v) = cpswAleGetVlanId e :=
  getField_vlanSetFld (by decide) (by decide) (by decide) _ _

@[simp] theorem vlanKey_vlanSetFld (fldId : VlanFld) (v : U32) :
    vlanKey (cpswAleVlanSetFld params e fldId v) = vlanKey e := by
  simp [vlanKey]

theorem vlanKey_typed (hvid : vid.toNat < vlanNVid) :
    vlanKey (cpswAleSetVlanId (cpswAleSetEntryType e aleTypeVlan) (vid.setWidth 32)) =
      some (vid.setWidth 32) := by
  have htype : cpswAleGetEntryType (cpswAleSetVlanId (cpswAleSetEntryType e aleTypeVlan)
      (vid.setWidth 32)) = aleTypeVlan := by
    unfold cpswAleGetEntryType cpswAleSetVlanId cpswAleSetEntryType
    rw [getField_setField_of_apart (by decide) (by decide) (by decide) (by decide) (by decide),
      getField_setField (by decide)]
    decide
  unfold vlanKey
  rw [if_pos htype]
  unfold cpswAleGetVlanId cpswAleSetVlanId
  rw [getField_setField (by decide), vid_field hvid]

theorem testBits_host (v : U32) : testBits v alePortHost = v.getLsbD 0 := by
  have hone : alePortHost = BitVec.twoPow 32 0 := by decide
  unfold testBits
  rw [hone, BitVec.and_twoPow]
  cases v.getLsbD 0 <;> decide

/-- Whether the entry makes the host take the VLAN untagged. -/
def hostUntagged (params : AleParams) (e : AleEntry) : Bool :=
  cpswAleGetEntryType e == aleTypeVlan &&
    testBits (cpswAleVlanGetFld params e .forceUntaggedMsk) alePortHost

theorem untagFld (params : AleParams) :
    (params.vlanEntryTbl .forceUntaggedMsk).allowed = true ∧
      (params.vlanEntryTbl .forceUntaggedMsk).startBit = 24 ∧
      0 < fldBits params (params.vlanEntryTbl .forceUntaggedMsk) := by
  have hports : 0 < params.portMaskBits := params.alePorts_pos
  unfold fldBits
  rcases params.dev_cases with ⟨-, htbl⟩ | ⟨-, htbl | htbl⟩ <;> rw [htbl] <;>
    simp [vlanEntryNu, vlanEntryCpsw, vlanEntryK3Cpswxg, aleEntryFld, aleEntryFldDynMskSize, hports]

/-- The other fields lie beside the force-untagged mask. -/
theorem fld_apart_untag {fldId : VlanFld} (h : (params.vlanEntryTbl fldId).allowed = true)
    (hne : fldId ≠ .forceUntaggedMsk) (bits : ℕ) :
    Apart (params.vlanEntryTbl fldId).startBit (fldBits params (params.vlanEntryTbl fldId))
      24 bits := by
  have hports : params.portMaskBits ≤ 12 := params.alePorts_le
  unfold fldBits Apart
  rcases params.dev_cases with ⟨-, htbl⟩ | ⟨-, htbl | htbl⟩ <;> rw [htbl] at h ⊢ <;>
    cases fldId <;>
    simp [vlanEntryNu, vlanEntryCpsw, vlanEntryK3Cpswxg, aleEntryFld, aleEntryFldDynMskSize]
      at h hne ⊢ <;>
    omega

theorem testBits_untag_self (v : U32) :
    testBits (cpswAleVlanGetFld params (cpswAleVlanSetFld params e .forceUntaggedMsk v)
      .forceUntaggedMsk) alePortHost = testBits v alePortHost := by
  obtain ⟨hallowed, hstart, hpos⟩ := untagFld params
  have hbits := (fld_low hallowed).1
  unfold cpswAleVlanGetFld cpswAleVlanSetFld
  simp only [hallowed, Bool.not_true, Bool.false_eq_true, if_false, hstart, testBits_host]
  unfold cpswAleGetField cpswAleSetField
  rw [Function.update_self, BitField.getLsbD_get (by omega),
    BitField.getLsbD_put (by omega) _ _ (by decide), if_pos (by omega)]
  simp [hpos]

theorem untag_vlanSetFld {fldId : VlanFld} (hne : fldId ≠ .forceUntaggedMsk) (v : U32) :
    cpswAleVlanGetFld params (cpswAleVlanSetFld params e fldId v) .forceUntaggedMsk =
      cpswAleVlanGetFld params e .forceUntaggedMsk := by
  by_cases hallowed : (params.vlanEntryTbl fldId).allowed = true
  · obtain ⟨hbits, hlow⟩ := fld_low hallowed
    obtain ⟨huntag, hstart, -⟩ := untagFld params
    have hubits := (fld_low huntag).1
    have hapart := fld_apart_untag hallowed hne
      (fldBits params (params.vlanEntryTbl .forceUntaggedMsk))
    unfold cpswAleVlanGetFld cpswAleVlanSetFld
    simp only [hallowed, huntag, Bool.not_true, Bool.false_eq_true, if_false, hstart]
    exact getField_setField_of_apart (by omega) (by decide) (by omega) (by omega) hapart _ _
  · unfold cpswAleVlanSetFld
    simp [hallowed]

/-- What an operation on the entry of a VLAN does apart from the table. -/
structure VlanEdit (params : AleParams) (ale : CpswAle) (vid : U16) (r : CpswAle × AleEntry) :
    Prop where
  table : r.1.table = ale.table
  cache : r.1.p0UntagVidMask =
    Function.update ale.p0UntagVidMask vid (hostUntagged params r.2)
  entry : isFree r.2 = true ∨ vlanKey r.2 = some (vid.setWidth 32)

theorem getEntryType_of_vlanKey {v : U32} (h : vlanKey e = some v) :
    cpswAleGetEntryType e = aleTypeVlan := by
  unfold vlanKey at h
  split at h
  · assumption
  · cases h

theorem hostUntagged_of_free (h : isFree e = true) : hostUntagged params e = false := by
  have htype : cpswAleGetEntryType e = aleTypeFree := by simpa [isFree] using h
  unfold hostUntagged
  rw [htype]
  rfl

theorem hostUntagged_eq (h : cpswAleGetEntryType e = aleTypeVlan) : hostUntagged params e =
    testBits (cpswAleVlanGetFld params e .forceUntaggedMsk) alePortHost := by
  simp [hostUntagged, h]

theorem vlanEdit_free (params : AleParams) (ale : CpswAle) (e : AleEntry) (vid : U16) :
    VlanEdit params ale vid ((cpswAleSetVlanUntag params ale e vid 0).1,
      cpswAleSetEntryType (cpswAleSetVlanUntag params ale e vid 0).2 aleTypeFree) := by
  refine ⟨rfl, ?_, .inl (isFree_setEntryType _)⟩
  rw [hostUntagged_of_free (isFree_setEntryType _)]
  rfl

theorem delModifyInt_edit (hkey : vlanKey e = some (vid.setWidth 32)) (portMask : U32) :
    VlanEdit params ale vid (cpswAleVlanDelModifyInt params ale e vid portMask) := by
  have htype := getEntryType_of_vlanKey hkey
  unfold cpswAleVlanDelModifyInt
  dsimp only
  split
  · exact vlanEdit_free params ale e vid
  · cases hnu : params.nuSwitchAle <;>
      simp only [Bool.not_true, Bool.not_false, if_true, Bool.false_eq_true, if_false,
        cpswAleSetVlanUntag, cpswAleSetVlanMcast, CpswAle.writel] <;>
      refine ⟨rfl, ?_, .inr (by simp [hkey])⟩ <;>
      rw [hostUntagged_eq (by simp [htype])] <;>
      simp [untag_vlanSetFld, testBits_untag_self]

theorem delVlanEntry_edit (hkey : vlanKey e = some (vid.setWidth 32)) (portMask : U32) :
    VlanEdit params ale vid (delVlanEntry params ale e vid portMask) := by
  unfold delVlanEntry
  dsimp only
  split
  · exact vlanEdit_free params ale e vid
  · exact delModifyInt_edit hkey _

theorem addVlanEntry_key (hvid : vid.toNat < vlanNVid) (portMask untag regMcast unregMcast : U32) :
    vlanKey (addVlanEntry params ale e vid portMask untag regMcast unregMcast).2 =
      some (vid.setWidth 32) := by
  have htyped := vlanKey_typed (e := e) hvid
  cases hnu : params.nuSwitchAle <;> simp [addVlanEntry, hnu, cpswAleSetVlanUntag, htyped]

theorem addVlanEntry_edit (hvid : vid.toNat < vlanNVid) (portMask untag regMcast unregMcast : U32) :
    VlanEdit params ale vid (addVlanEntry params ale e vid portMask untag regMcast unregMcast) := by
  have hkey : vlanKey (addVlanEntry params ale e vid portMask untag regMcast unregMcast).2 =
      some (vid.setWidth 32) := addVlanEntry_key hvid portMask untag regMcast unregMcast
  refine ⟨?_, ?_, .inr hkey⟩
  · cases hnu : params.nuSwitchAle <;>
      simp [addVlanEntry, hnu, cpswAleSetVlanUntag, cpswAleSetVlanMcast, CpswAle.writel]
  · rw [hostUntagged_eq (getEntryType_of_vlanKey hkey)]
    cases hnu : params.nuSwitchAle <;>
      simp [addVlanEntry, hnu, cpswAleSetVlanUntag, cpswAleSetVlanMcast, CpswAle.writel,
        untag_vlanSetFld, testBits_untag_self]

theorem addVlanEntry_untag (portMask untag regMcast unregMcast : U32) :
    testBits (cpswAleVlanGetFld params
      (addVlanEntry params ale e vid portMask untag regMcast unregMcast).2 .forceUntaggedMsk)
      alePortHost = testBits untag alePortHost := by
  cases hnu : params.nuSwitchAle <;>
    simp [addVlanEntry, hnu, cpswAleSetVlanUntag, untag_vlanSetFld, testBits_untag_self]

/-- The table-wide operations leave the keys and the host's bits alone. -/
theorem unregMcastEntry_keeps (unregMcastMask : U32) (add : Bool) :
    addrKey (unregMcastEntry params unregMcastMask add e) = addrKey e ∧
      vlanKey (unregMcastEntry params unregMcastMask add e) = vlanKey e ∧
      hostUntagged params (unregMcastEntry params unregMcastMask add e) =
        hostUntagged params e := by
  unfold unregMcastEntry
  dsimp only
  split
  · exact ⟨rfl, rfl, rfl⟩
  · rename_i htype
    rw [not_not] at htype
    refine ⟨?_, by simp, by simp [hostUntagged, untag_vlanSetFld]⟩
    rw [addrKey_of_vlan htype, addrKey_of_vlan (by simp [htype])]

theorem allmultiEntry_keeps (allmulti : Bool) (htype : cpswAleGetEntryType e = aleTypeVlan) :
    addrKey (cpswAleVlanSetUnregMcast params e allmulti) = addrKey e ∧
      vlanKey (cpswAleVlanSetUnregMcast params e allmulti) = vlanKey e ∧
      hostUntagged params (cpswAleVlanSetUnregMcast params e allmulti) = hostUntagged params e := by
  unfold cpswAleVlanSetUnregMcast
  refine ⟨?_, by simp, by simp [hostUntagged, untag_vlanSetFld]⟩
  rw [addrKey_of_vlan htype, addrKey_of_vlan (by simp [htype])]

end CpswDriver.Ale
