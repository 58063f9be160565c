import CpswDriver.Ale.P0Untag

/-!
What an add of a VLAN leaves behind when the table has no slot for it. The new
entry is made before a slot is searched for, and making it sets the bit of the
VLAN in the bitmap and, on the NU switch, the two mask registers that a new entry
points to. The path that finds no slot puts neither back.
-/

namespace CpswDriver.Ale

open Slots

variable {params : AleParams} {ale ale' : CpswAle} {e : AleEntry} {vid : U16}

/-- The table, the bitmap and the mask registers of the VLANs are as before. -/
structure Untouched (ale ale' : CpswAle) : Prop where
  table : ale'.table = ale.table
  bitmap : ale'.p0UntagVidMask = ale.p0UntagVidMask
  masks : ∀ reg, ale'.regs (aleVlanMaskMux reg) = ale.regs (aleVlanMaskMux reg)

/-- The bit and the registers are what a new entry for the VLAN sets them to. -/
structure AlreadySet (params : AleParams) (ale : CpswAle) (vid : U16)
    (untag regMcast unregMcast : U32) : Prop where
  bit : ale.p0UntagVidMask vid = testBits untag alePortHost
  masks : params.nuSwitchAle = true → ale.regs (aleVlanMaskMux 0) = regMcast ∧
    ale.regs (aleVlanMaskMux nuVlanUnregMcastIdx.toNat) = unregMcast

/-- The mask that cpsw_ale_vlan_add_modify writes to a register for a new VLAN. The
entries of the NU switch have no field for it, so it reads an error code. -/
def nuNewMask (portMask mask : U32) : U32 := (BitVec.ofInt 32 (-enoent) &&& ~~~portMask) ||| mask

theorem AleParams.vlanEntryTbl_of_nu (params : AleParams) (h : params.nuSwitchAle = true) :
    params.vlanEntryTbl = vlanEntryNu := by
  rcases params.dev_cases with ⟨-, htbl⟩ | ⟨hdirect, -⟩
  · exact htbl
  · rw [hdirect] at h
    cases h

theorem aleVlanMaskMux_injective : Function.Injective aleVlanMaskMux := by
  intro reg reg' h
  unfold aleVlanMaskMux at h
  omega

/-- The index of the first register lies apart from all that an add writes before. -/
theorem regMcastIdx_addVlanEntry (hnu : params.vlanEntryTbl = vlanEntryNu) (untag idx : U32) :
    cpswAleVlanGetFld params (cpswAleVlanSetFld params (cpswAleVlanSetFld params
      (cpswAleSetVlanId (cpswAleSetEntryType e aleTypeVlan) (vid.setWidth 32)) .forceUntaggedMsk
      untag) .unregMcastIdx idx) .regMcastIdx = cpswAleVlanGetFld params e .regMcastIdx := by
  have hports : params.alePorts ≤ 12 := params.alePorts_le
  have hlow : ∀ (e : AleEntry) (start bits : ℕ) (v : U32), start < 32 → bits < 32 →
      cpswAleGetField (cpswAleSetField e start bits v) 44 3 = cpswAleGetField e 44 3 := by
    intro e start bits v hstart hbits
    apply getField_setField_of_apart (by omega) (by decide) hbits (by decide)
    exact .inl (by omega)
  have htyped : cpswAleGetField (cpswAleSetVlanId (cpswAleSetEntryType e aleTypeVlan)
      (vid.setWidth 32)) 44 3 = cpswAleGetField e 44 3 := by
    unfold cpswAleSetVlanId cpswAleSetEntryType
    rw [getField_setField_of_apart (by decide) (by decide) (by decide) (by decide) (by decide),
      getField_setField_of_apart (by decide) (by decide) (by decide) (by decide) (by decide)]
  simp only [cpswAleVlanGetFld, cpswAleVlanSetFld, hnu, vlanEntryNu, aleEntryFld,
    aleEntryFldDynMskSize, fldBits, Bool.not_true, Bool.false_eq_true, if_false, if_true]
  rw [hlow _ _ _ _ (by decide) (by decide), hlow _ _ _ _ (by decide) (by
    unfold AleParams.portMaskBits
    omega), htyped]

theorem unregMcastIdx_self (hnu : params.vlanEntryTbl = vlanEntryNu) :
    cpswAleVlanGetFld params (cpswAleVlanSetFld params e .unregMcastIdx nuVlanUnregMcastIdx)
      .unregMcastIdx = nuVlanUnregMcastIdx := by
  simp only [cpswAleVlanGetFld, cpswAleVlanSetFld, hnu, vlanEntryNu, aleEntryFld, fldBits,
    Bool.not_true, Bool.false_eq_true, if_false]
  rw [getField_setField (by decide)]
  decide

def addVlanRegs (params : AleParams) (regs : ℕ → U32) (e : AleEntry) (regMcast unregMcast : U32) :
    ℕ → U32 :=
  if params.nuSwitchAle then
    Function.update (Function.update regs
      (aleVlanMaskMux (cpswAleVlanGetFld params e .regMcastIdx).toNat) regMcast)
      (aleVlanMaskMux nuVlanUnregMcastIdx.toNat) unregMcast
  else regs

theorem addVlanEntry_ale (params : AleParams) (ale : CpswAle) (e : AleEntry) (vid : U16)
    (portMask untag regMcast unregMcast : U32) :
    (addVlanEntry params ale e vid portMask untag regMcast unregMcast).1 = { ale with
      p0UntagVidMask := Function.update ale.p0UntagVidMask vid (testBits untag alePortHost)
      regs := addVlanRegs params ale.regs e regMcast unregMcast } := by
  unfold addVlanEntry addVlanRegs
  cases hnu : params.nuSwitchAle with
  | false => simp [cpswAleSetVlanUntag]
  | true =>
    have htbl : params.vlanEntryTbl = vlanEntryNu := params.vlanEntryTbl_of_nu hnu
    simp [cpswAleSetVlanUntag, cpswAleSetVlanMcast, CpswAle.writel,
      regMcastIdx_addVlanEntry htbl, unregMcastIdx_self htbl]

theorem cpswAleStore_ret (idx : Option ℕ) (e : AleEntry) : (cpswAleStore ale idx e).2 ≠ 0 ↔
    idx = none ∧ NoRoom ale := by
  have henomem : -enomem ≠ 0 := by decide
  have hroom : NoRoom ale ↔ cpswAleMatchFree ale = none ∧ cpswAleFindAgeable ale = none := by
    unfold cpswAleMatchFree cpswAleFindAgeable
    rw [List.findIdx?_eq_none_iff, List.findIdx?_eq_none_iff]
    exact ⟨fun h => ⟨h.free, h.ageable⟩, fun h => ⟨h.1, h.2⟩⟩
  unfold cpswAleStore
  rw [hroom]
  split
  · rename_i hnone
    rw [Option.or_eq_none_iff, Option.or_eq_none_iff] at hnone
    exact ⟨fun _ => ⟨hnone.1.1, hnone.1.2, hnone.2⟩, fun _ => henomem⟩
  · rename_i hsome
    refine ⟨fun hne => absurd rfl hne, ?_⟩
    rintro ⟨rfl, hfree, hage⟩
    rw [hfree, hage] at hsome
    cases hsome

theorem NoRoom.congr (h : NoRoom ale) (ht : ale'.table = ale.table) : NoRoom ale' := by
  obtain ⟨hfree, hage⟩ := h
  rw [← ht] at hfree hage
  exact ⟨hfree, hage⟩

theorem cpswAleAddVlan_ret (params : AleParams) (ale : CpswAle) (vid : U16)
    (portMask untag regMcast unregMcast : U32) :
    (cpswAleAddVlan params ale vid portMask untag regMcast unregMcast).2 ≠ 0 ↔
      cpswAleMatchVlan ale vid = none ∧ NoRoom ale := by
  unfold cpswAleAddVlan
  dsimp only
  rw [cpswAleStore_ret, addVlanEntry_ale]
  exact and_congr_right fun _ => ⟨fun h => h.congr rfl, fun h => h.congr rfl⟩

theorem NoRoom.store (h : NoRoom ale) (e : AleEntry) :
    cpswAleStore ale none e = (ale, -enomem) := by
  have hfree : cpswAleMatchFree ale = none := List.findIdx?_eq_none_iff.mpr h.free
  have hage : cpswAleFindAgeable ale = none := List.findIdx?_eq_none_iff.mpr h.ageable
  unfold cpswAleStore
  rw [hfree, hage]
  rfl

theorem cpswAleAddVlan_failed (hmatch : cpswAleMatchVlan ale vid = none) (hroom : NoRoom ale)
    (portMask untag regMcast unregMcast : U32) :
    (cpswAleAddVlan params ale vid portMask untag regMcast unregMcast).1 = { ale with
      p0UntagVidMask := Function.update ale.p0UntagVidMask vid (testBits untag alePortHost)
      regs := addVlanRegs params ale.regs 0 regMcast unregMcast } := by
  unfold cpswAleAddVlan
  rw [hmatch]
  dsimp only [readOrZero]
  have hale := addVlanEntry_ale params ale 0 vid portMask untag regMcast unregMcast
  have htable : (addVlanEntry params ale 0 vid portMask untag regMcast unregMcast).1.table =
      ale.table := by rw [hale]
  rw [(hroom.congr htable).store]
  exact hale

/-- A new entry of the NU switch points to the first two registers. -/
theorem addVlanRegs_zero (hnu : params.nuSwitchAle = true) (regs : ℕ → U32)
    (regMcast unregMcast : U32) (reg : ℕ) :
    addVlanRegs params regs 0 regMcast unregMcast (aleVlanMaskMux reg) =
      if reg = nuVlanUnregMcastIdx.toNat then unregMcast
      else if reg = 0 then regMcast else regs (aleVlanMaskMux reg) := by
  have hidx : cpswAleVlanGetFld params 0 .regMcastIdx = 0 := by
    have htbl := params.vlanEntryTbl_of_nu hnu
    simp [cpswAleVlanGetFld, htbl, vlanEntryNu, aleEntryFld]
  unfold addVlanRegs
  rw [if_pos hnu, hidx]
  simp only [Function.update_apply, aleVlanMaskMux_injective.eq_iff]
  rfl

/-- A failed add leaves everything alone just when it had nothing to set. -/
theorem failed_untouched_iff (hmatch : cpswAleMatchVlan ale vid = none) (hroom : NoRoom ale)
    (portMask untag regMcast unregMcast : U32) :
    Untouched ale (cpswAleAddVlan params ale vid portMask untag regMcast unregMcast).1 ↔
      AlreadySet params ale vid untag regMcast unregMcast := by
  have hne : (0 : ℕ) ≠ nuVlanUnregMcastIdx.toNat := by decide
  rw [cpswAleAddVlan_failed hmatch hroom]
  constructor
  · rintro ⟨-, hbitmap, hmasks⟩
    refine ⟨(Function.update_eq_self_iff.mp hbitmap).symm, fun hnu => ?_⟩
    simp only [addVlanRegs_zero hnu] at hmasks
    have hreg := hmasks 0
    have hunreg := hmasks nuVlanUnregMcastIdx.toNat
    rw [if_neg hne, if_pos rfl] at hreg
    rw [if_pos rfl] at hunreg
    exact ⟨hreg.symm, hunreg.symm⟩
  · rintro ⟨hbit, hmasks⟩
    refine ⟨rfl, Function.update_eq_self_iff.mpr hbit.symm, fun reg => ?_⟩
    dsimp only
    cases hnu : params.nuSwitchAle with
    | false => simp [addVlanRegs, hnu]
    | true =>
      obtain ⟨hreg, hunreg⟩ := hmasks hnu
      rw [addVlanRegs_zero hnu]
      split
      · rename_i heq
        rw [heq, hunreg]
      split
      · rename_i heq
        rw [heq, hreg]
      · rfl

/-- On the NU switch the entries of a VLAN hold no multicast masks. -/
theorem getFld_zero (params : AleParams) {fld : VlanFld}
    (hfld : fld = .regMcastMsk ∨ fld = .unregMcastMsk) (portMask mask : U32) :
    (cpswAleVlanGetFld params 0 fld &&& ~~~portMask) ||| mask =
      if params.nuSwitchAle then nuNewMask portMask mask else mask := by
  unfold nuNewMask cpswAleVlanGetFld
  rcases params.dev_cases with ⟨hnu, htbl⟩ | ⟨hnu, htbl | htbl⟩ <;> rw [hnu, htbl] <;>
    rcases hfld with rfl | rfl <;>
    simp [vlanEntryNu, vlanEntryCpsw, vlanEntryK3Cpswxg, aleEntryFld, aleEntryFldDynMskSize]

theorem AlreadySet.congr_masks {untag untag' regMcast regMcast' unregMcast unregMcast' : U32}
    (h : AlreadySet params ale vid untag regMcast unregMcast)
    (huntag : testBits untag' alePortHost = testBits untag alePortHost)
    (hreg : params.nuSwitchAle = true → regMcast' = regMcast)
    (hunreg : params.nuSwitchAle = true → unregMcast' = unregMcast) :
    AlreadySet params ale vid untag' regMcast' unregMcast' := by
  obtain ⟨hbit, hmasks⟩ := h
  refine ⟨hbit.trans huntag.symm, fun hnu => ?_⟩
  rw [hreg hnu, hunreg hnu]
  exact hmasks hnu

/-- A call that fails leaves the table, the bitmap and the mask registers alone if and
only if they agreed with the new entry before. -/
theorem addVlan_failure_untouched_iff (params : AleParams) (ale : CpswAle) (vid : U16)
    (portMask untag regMcast unregMcast : U32) :
    (((cpswAleAddVlan params ale vid portMask untag regMcast unregMcast).2 ≠ 0 →
      Untouched ale (cpswAleAddVlan params ale vid portMask untag regMcast unregMcast).1) ↔
      (cpswAleMatchVlan ale vid = none → NoRoom ale →
        AlreadySet params ale vid untag regMcast unregMcast)) ∧
    (((cpswAleVlanAddModify params ale vid portMask untag regMcast unregMcast).2 ≠ 0 →
      Untouched ale (cpswAleVlanAddModify params ale vid portMask untag regMcast unregMcast).1) ↔
      (cpswAleMatchVlan ale vid = none → NoRoom ale → AlreadySet params ale vid untag
        (nuNewMask portMask regMcast) (nuNewMask portMask unregMcast))) := by
  constructor
  · rw [cpswAleAddVlan_ret, and_imp]
    exact forall_congr' fun hmatch => forall_congr' fun hroom =>
      failed_untouched_iff hmatch hroom ..
  · unfold cpswAleVlanAddModify
    dsimp only
    rw [cpswAleAddVlan_ret, and_imp]
    refine forall_congr' fun hmatch => forall_congr' fun hroom => ?_
    rw [failed_untouched_iff hmatch hroom, hmatch]
    dsimp only [readOrZero]
    rw [getFld_zero params (.inl rfl), getFld_zero params (.inr rfl)]
    constructor
    · intro h
      refine h.congr_masks (untag_zero_and params portMask untag).symm ?_ ?_ <;>
        · intro hnu
          rw [if_pos hnu]
    · intro h
      refine h.congr_masks (untag_zero_and params portMask untag) ?_ ?_ <;>
        · intro hnu
          rw [if_pos hnu]

/-- With the table full of another VLAN, the bit of the new one stays set. -/
theorem failed_add_sets_bit : ¬ ∀ (params : AleParams) (ale : CpswAle) (vid : U16)
    (portMask untag regMcast unregMcast : U32), vid.toNat < vlanNVid →
    ((cpswAleAddVlan params ale vid portMask untag regMcast unregMcast).2 ≠ 0 →
      Untouched ale (cpswAleAddVlan params ale vid portMask untag regMcast unregMcast).1) ∧
    ((cpswAleVlanAddModify params ale vid portMask untag regMcast unregMcast).2 ≠ 0 →
      Untouched ale
        (cpswAleVlanAddModify params ale vid portMask untag regMcast unregMcast).1) := by
  intro h
  have hfull := (h threePorts (cpswAleAddVlan threePorts (emptyAle 1) 1 7 0 7 0).1 2 7 1 7 0
    (by decide)).1 (by decide +kernel)
  have hbit := congrFun hfull.bitmap 2
  exact absurd hbit (by decide +kernel)

end CpswDriver.Ale
