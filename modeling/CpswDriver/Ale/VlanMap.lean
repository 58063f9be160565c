import CpswDriver.Ale.Keyed

/-!
The VLAN entries as a finite map from VLAN ids to four port masks, for the parts
whose entries hold the masks themselves. The four fields lie apart, so each
operation acts on the masks of its own VLAN and on nothing else; only an add
that finds the table full evicts an address entry that may be aged out.
-/

namespace CpswDriver.Ale

open Slots

variable {params : AleParams} {ale ale' : CpswAle} {e e' old : AleEntry} {vid : U16} {i : ℕ}

/-- The parts whose VLAN entries hold the masks. -/
def DirectMasks (params : AleParams) : Prop :=
  params.vlanEntryTbl = vlanEntryCpsw ∧ params.alePorts = 3 ∨
    params.vlanEntryTbl = vlanEntryK3Cpswxg ∧ params.alePorts ≤ 8

/-- A mask of existing ports. -/
def Width (params : AleParams) (mask : U32) : Prop :=
  mask &&& BitField.bitMask 32 params.portMaskBits = mask

structure VlanMasks where
  members : U32
  untag : U32
  regMcast : U32
  unregMcast : U32
  deriving DecidableEq

def vlanMasks (params : AleParams) (e : AleEntry) : VlanMasks where
  members := cpswAleVlanGetFld params e .memberList
  untag := cpswAleVlanGetFld params e .forceUntaggedMsk
  regMcast := cpswAleVlanGetFld params e .regMcastMsk
  unregMcast := cpswAleVlanGetFld params e .unregMcastMsk

def lookupVlan (params : AleParams) (ale : CpswAle) (v : U32) : Option VlanMasks :=
  (lookup vlanKey ale.table v).map (vlanMasks params)

namespace VlanMasks

def empty : VlanMasks := ⟨0, 0, 0, 0⟩

/-- Ports that join, with what they want in the other masks. -/
def addPorts (m : VlanMasks) (portMask untag regMcast unregMcast : U32) : VlanMasks where
  members := m.members ||| portMask
  untag := (m.untag &&& ~~~portMask) ||| untag
  regMcast := (m.regMcast &&& ~~~portMask) ||| regMcast
  unregMcast := (m.unregMcast &&& ~~~portMask) ||| unregMcast

/-- Ports that leave; the VLAN goes with the last one. -/
def delPorts (m : VlanMasks) (portMask : U32) : Option VlanMasks :=
  if m.members &&& ~~~portMask = 0 then none
  else some {
    members := m.members &&& ~~~portMask
    untag := m.untag &&& (m.members &&& ~~~portMask)
    regMcast := m.regMcast &&& (m.members &&& ~~~portMask)
    unregMcast := m.unregMcast &&& (m.members &&& ~~~portMask) }

end VlanMasks

def VlanFld.isMask : VlanFld → Bool
  | .memberList | .unregMcastMsk | .regMcastMsk | .forceUntaggedMsk => true
  | .unregMcastIdx | .regMcastIdx => false

theorem DirectMasks.nuSwitchAle (h : DirectMasks params) : params.nuSwitchAle = false := by
  rcases params.dev_cases with ⟨-, hnu⟩ | ⟨hdirect, -⟩
  · have hidx : (vlanEntryNu .unregMcastIdx).allowed = true := rfl
    rcases h with ⟨htbl, -⟩ | ⟨htbl, -⟩ <;>
      · rw [← hnu, htbl] at hidx
        cases hidx
  · exact hdirect

theorem DirectMasks.fld (h : DirectMasks params) {f : VlanFld} (hf : f.isMask = true) :
    (params.vlanEntryTbl f).allowed = true ∧
      fldBits params (params.vlanEntryTbl f) = params.portMaskBits ∧
      Fits (params.vlanEntryTbl f).startBit params.portMaskBits := by
  unfold fldBits Fits AleParams.portMaskBits
  rcases h with ⟨htbl, hports⟩ | ⟨htbl, hports⟩ <;> rw [htbl] <;> cases f <;>
    simp [VlanFld.isMask, vlanEntryCpsw, vlanEntryK3Cpswxg, aleEntryFld, aleEntryFldDynMskSize]
      at hf ⊢ <;> omega

theorem DirectMasks.apart (h : DirectMasks params) {f g : VlanFld} (hf : f.isMask = true)
    (hg : g.isMask = true) (hne : f ≠ g) :
    Apart (params.vlanEntryTbl f).startBit params.portMaskBits
      (params.vlanEntryTbl g).startBit params.portMaskBits := by
  unfold Apart AleParams.portMaskBits
  rcases h with ⟨htbl, hports⟩ | ⟨htbl, hports⟩ <;> rw [htbl] <;> cases f <;> cases g <;>
    simp [VlanFld.isMask, vlanEntryCpsw, vlanEntryK3Cpswxg, aleEntryFld, aleEntryFldDynMskSize]
      at hf hg hne ⊢ <;> omega

theorem DirectMasks.getFld (h : DirectMasks params) {f : VlanFld} (hf : f.isMask = true)
    (e : AleEntry) : cpswAleVlanGetFld params e f =
      cpswAleGetField e (params.vlanEntryTbl f).startBit params.portMaskBits := by
  obtain ⟨hallowed, hbits, -⟩ := h.fld hf
  simp [cpswAleVlanGetFld, hallowed, hbits]

theorem DirectMasks.setFld (h : DirectMasks params) {f : VlanFld} (hf : f.isMask = true)
    (e : AleEntry) (v : U32) : cpswAleVlanSetFld params e f v =
      cpswAleSetField e (params.vlanEntryTbl f).startBit params.portMaskBits v := by
  obtain ⟨hallowed, hbits, -⟩ := h.fld hf
  simp [cpswAleVlanSetFld, hallowed, hbits]

theorem DirectMasks.getFld_setFld (h : DirectMasks params) {f : VlanFld} (hf : f.isMask = true)
    {v : U32} (hv : Width params v) :
    cpswAleVlanGetFld params (cpswAleVlanSetFld params e f v) f = v := by
  rw [h.getFld hf, h.setFld hf, getField_setField (h.fld hf).2.2, hv]

theorem DirectMasks.getFld_setFld_ne (h : DirectMasks params) {f g : VlanFld}
    (hf : f.isMask = true) (hg : g.isMask = true) (hne : f ≠ g) (v : U32) :
    cpswAleVlanGetFld params (cpswAleVlanSetFld params e f v) g = cpswAleVlanGetFld params e g := by
  obtain ⟨hs, hb, -⟩ := (h.fld hf).2.2
  obtain ⟨hs', hb', -⟩ := (h.fld hg).2.2
  rw [h.getFld hg, h.setFld hf, h.getFld hg,
    getField_setField_of_apart hs hs' hb hb' (h.apart hf hg hne)]

theorem DirectMasks.width_getFld (h : DirectMasks params) {f : VlanFld} (hf : f.isMask = true)
    (e : AleEntry) : Width params (cpswAleVlanGetFld params e f) := by
  rw [h.getFld hf]
  exact BitField.get_and_bitMask _ _ _

theorem Width.and {a : U32} (h : Width params a) (b : U32) : Width params (a &&& b) := by
  unfold Width at h ⊢
  rw [BitVec.and_assoc, BitVec.and_comm b, ← BitVec.and_assoc, h]

theorem Width.or {a b : U32} (ha : Width params a) (hb : Width params b) :
    Width params (a ||| b) := by
  unfold Width at ha hb ⊢
  rw [BitVec.and_comm, BitVec.and_or_distrib_left, BitVec.and_comm, ha, BitVec.and_comm, hb]

theorem directMasks_of_cpsw (hdev : params.dev.devId = "cpsw") (hports : params.alePorts = 3) :
    DirectMasks params := by
  refine .inl ⟨?_, hports⟩
  have hmem := params.dev_mem
  unfold AleParams.vlanEntryTbl
  simp only [cpswAleIdMatch, List.mem_cons, List.not_mem_nil, or_false] at hmem
  rcases hmem with h | h | h | h | h | h | h <;> rw [h] at hdev ⊢ <;> simp at hdev

theorem width_of_lt (hports : params.alePorts = 3) {mask : U32} (h : mask.toNat < 8) :
    Width params mask := by
  unfold Width AleParams.portMaskBits
  rw [hports]
  exact BitField.and_bitMask_of_lt (by decide) h

theorem width_host (params : AleParams) : Width params alePortHost := by
  have hpos : 0 < params.portMaskBits := params.alePorts_pos
  have hle : params.portMaskBits ≤ 12 := params.alePorts_le
  have hpow : 2 ^ 1 ≤ 2 ^ params.portMaskBits := Nat.pow_le_pow_right (by decide) hpos
  have hone : alePortHost.toNat = 1 := by decide
  exact BitField.and_bitMask_of_lt (by omega) (by omega)

theorem DirectMasks.vlanMasks_set (h : DirectMasks params) {members untag regMcast unregMcast : U32}
    (hmembers : Width params members) (huntag : Width params untag)
    (hreg : Width params regMcast) (hunreg : Width params unregMcast) (e : AleEntry) :
    vlanMasks params (cpswAleVlanSetFld params (cpswAleVlanSetFld params (cpswAleVlanSetFld params
      (cpswAleVlanSetFld params e .forceUntaggedMsk untag) .regMcastMsk regMcast)
      .unregMcastMsk unregMcast) .memberList members) =
      ⟨members, untag, regMcast, unregMcast⟩ := by
  unfold vlanMasks
  congr 1
  · rw [h.getFld_setFld rfl hmembers]
  · rw [h.getFld_setFld_ne rfl rfl (by decide), h.getFld_setFld_ne rfl rfl (by decide),
      h.getFld_setFld_ne rfl rfl (by decide), h.getFld_setFld rfl huntag]
  · rw [h.getFld_setFld_ne rfl rfl (by decide), h.getFld_setFld_ne rfl rfl (by decide),
      h.getFld_setFld rfl hreg]
  · rw [h.getFld_setFld_ne rfl rfl (by decide), h.getFld_setFld rfl hunreg]

theorem DirectMasks.vlanMasks_add (h : DirectMasks params)
    {members untag regMcast unregMcast : U32} (hmembers : Width params members)
    (huntag : Width params untag) (hreg : Width params regMcast)
    (hunreg : Width params unregMcast) :
    vlanMasks params (addVlanEntry params ale e vid members untag regMcast unregMcast).2 =
      ⟨members, untag, regMcast, unregMcast⟩ := by
  unfold addVlanEntry
  simp only [h.nuSwitchAle, Bool.not_false, if_true, cpswAleSetVlanUntag]
  exact h.vlanMasks_set hmembers huntag hreg hunreg _

theorem DirectMasks.delModifyInt (h : DirectMasks params) (portMask : U32) :
    (vlanMasks params e).delPorts portMask = none ∧
      isFree (cpswAleVlanDelModifyInt params ale e vid portMask).2 = true ∨
    (vlanMasks params e).delPorts portMask =
      some (vlanMasks params (cpswAleVlanDelModifyInt params ale e vid portMask).2) ∧
      vlanKey (cpswAleVlanDelModifyInt params ale e vid portMask).2 = vlanKey e := by
  have hwidth : ∀ f : VlanFld, f.isMask = true → Width params (cpswAleVlanGetFld params e f) :=
    fun f hf => h.width_getFld hf e
  have hmembers := (hwidth .memberList rfl).and (~~~portMask)
  by_cases hzero : cpswAleVlanGetFld params e .memberList &&& ~~~portMask = 0
  · have hnone : (vlanMasks params e).delPorts portMask = none := if_pos hzero
    refine .inl ⟨hnone, ?_⟩
    unfold cpswAleVlanDelModifyInt
    dsimp only
    rw [if_pos hzero]
    exact isFree_setEntryType _
  · have hleft : ∀ f : VlanFld, f.isMask = true → Width params (cpswAleVlanGetFld params e f &&&
        (cpswAleVlanGetFld params e .memberList &&& ~~~portMask)) := fun f hf => (hwidth f hf).and _
    have hset := h.vlanMasks_set hmembers (hleft .forceUntaggedMsk rfl) (hleft .regMcastMsk rfl)
      (hleft .unregMcastMsk rfl) e
    have hsome : (vlanMasks params e).delPorts portMask = some _ := if_neg hzero
    rw [hsome]
    unfold cpswAleVlanDelModifyInt
    dsimp only
    rw [if_neg hzero]
    simp only [h.nuSwitchAle, Bool.not_false, if_true, cpswAleSetVlanUntag]
    exact .inr ⟨congrArg some hset.symm, by simp⟩

def KeepsAddrs (ale ale' : CpswAle) : Prop :=
  ∀ (i : ℕ) e, ale.table[i]? = some e → isAddrType (cpswAleGetEntryType e) = true →
    ale'.table[i]? = some e

/-- The masks of one VLAN change, and those of no other. -/
structure SetsVlan (params : AleParams) (ale : CpswAle) (vid : U16) (m : Option VlanMasks)
    (ale' : CpswAle) : Prop where
  unique : Unique vlanKey ale'.table
  lookup : ∀ v, lookupVlan params ale' v =
    if v = vid.setWidth 32 then m else lookupVlan params ale v

/-- The outcome `r` of adding the VLAN `vid`. -/
structure AddedVlan (params : AleParams) (ale : CpswAle) (vid : U16) (m : VlanMasks)
    (r : CpswAle × ℤ) : Prop where
  enomem : r.2 = -enomem ↔ lookupVlan params ale (vid.setWidth 32) = none ∧ NoRoom ale
  ret : r.2 = 0 ∨ r.2 = -CpswDriver.enomem ∧ r.1.table = ale.table
  stored : r.2 = 0 → SetsVlan params ale vid (some m) r.1
  addrs : KeepsAddrs ale r.1 ∨ r.2 = 0 ∧ lookupVlan params ale (vid.setWidth 32) = none ∧
    (∀ e ∈ ale.table, isFree e = false) ∧ ∃ (i : ℕ) (old : AleEntry),
      ale.table[i]? = some old ∧ isAgeable old = true ∧
      ∀ (j : ℕ) e, j ≠ i → ale.table[j]? = some e → r.1.table[j]? = some e

/-- The outcome `r` of taking ports out of the VLAN `vid`; `f` says what is left of it. -/
structure DelVlan (params : AleParams) (ale : CpswAle) (vid : U16)
    (f : VlanMasks → Option VlanMasks) (r : CpswAle × ℤ) : Prop where
  absent : lookupVlan params ale (vid.setWidth 32) = none → r = (ale, -enoent)
  present : ∀ m, lookupVlan params ale (vid.setWidth 32) = some m → r.2 = 0 ∧
    SetsVlan params ale vid (f m) r.1 ∧ KeepsAddrs ale r.1

/-- A change of the unregistered-multicast masks of some VLANs, and of nothing else. -/
structure SetsUnreg (params : AleParams) (ale : CpswAle) (f : VlanMasks → U32)
    (ale' : CpswAle) : Prop where
  lookup : ∀ v, lookupVlan params ale' v =
    (lookupVlan params ale v).map fun m => { m with unregMcast := f m }
  addrs : KeepsAddrs ale ale'

/-- The table is a map of VLANs, and the operations are those of such a map. -/
structure VlanMap (params : AleParams) (ale : CpswAle) : Prop where
  addVlan : ∀ (vid : U16) members untag regMcast unregMcast, vid.toNat < vlanNVid →
    Width params members → Width params untag → Width params regMcast → Width params unregMcast →
    AddedVlan params ale vid ⟨members, untag, regMcast, unregMcast⟩
      (cpswAleAddVlan params ale vid members untag regMcast unregMcast)
  vlanAddModify : ∀ (vid : U16) portMask untag regMcast unregMcast, vid.toNat < vlanNVid →
    Width params portMask → Width params untag → Width params regMcast →
    Width params unregMcast → AddedVlan params ale vid
      (((lookupVlan params ale (vid.setWidth 32)).getD VlanMasks.empty).addPorts portMask untag
        regMcast unregMcast)
      (cpswAleVlanAddModify params ale vid portMask untag regMcast unregMcast)
  vlanDelModify : ∀ (vid : U16) portMask, DelVlan params ale vid (VlanMasks.delPorts · portMask)
    (cpswAleVlanDelModify params ale vid portMask)
  delVlan : ∀ (vid : U16) portMask, DelVlan params ale vid
    (fun m => if portMask = 0 ∨ m.members &&& ~~~portMask = 0 then none
      else m.delPorts (portMask &&& ~~~alePortHost))
    (cpswAleDelVlan params ale vid portMask)
  setUnregMcast : ∀ unregMcastMask add, Width params unregMcastMask →
    SetsUnreg params ale (fun m => if add then m.unregMcast ||| unregMcastMask
        else m.unregMcast &&& ~~~unregMcastMask)
      (cpswAleSetUnregMcast params ale unregMcastMask add)
  setAllmulti : ∀ allmulti (port : ℤ),
    SetsUnreg params ale (fun m => if port = -1 ∨ testBits m.members (1#32 <<< port.toNat) = true
        then withHost allmulti m.unregMcast else m.unregMcast)
      (cpswAleSetAllmulti params ale allmulti port)

theorem lookupVlan_eq_none_iff {v : U32} :
    lookupVlan params ale v = none ↔ lookup vlanKey ale.table v = none := by
  unfold lookupVlan
  rw [Option.map_eq_none_iff]

theorem lookupVlan_of_match (h : Unique vlanKey ale.table)
    (hm : cpswAleMatchVlan ale vid = some i) :
    lookupVlan params ale (vid.setWidth 32) = some (vlanMasks params (cpswAleRead ale i)) := by
  unfold lookupVlan
  rw [h.lookup_eq_some_iff.mpr ⟨i, matchVlan_some hm⟩]
  rfl

theorem lookupVlan_of_noMatch (hm : cpswAleMatchVlan ale vid = none) :
    lookupVlan params ale (vid.setWidth 32) = none := by
  rw [cpswAleMatchVlan_eq] at hm
  exact lookupVlan_eq_none_iff.mpr (slotOf_eq_none_iff.mp hm)

theorem keepsAddrs_write (hi : ale.table[i]? = some old)
    (hold : isAddrType (cpswAleGetEntryType old) = false) :
    KeepsAddrs ale (cpswAleWrite ale i e') := by
  intro j e hj htype
  have hne : i ≠ j := by
    rintro rfl
    rw [Option.some.inj (hi.symm.trans hj), htype] at hold
    cases hold
  exact (List.getElem?_set_ne hne).trans hj

theorem KeepsAddrs.congr {ale₀ : CpswAle} (h : KeepsAddrs ale ale') (ht : ale.table = ale₀.table) :
    KeepsAddrs ale₀ ale' := by
  unfold KeepsAddrs at h ⊢
  rwa [← ht]

theorem vlan_not_gone (h : Unique vlanKey ale.table) {P Q : Prop} {gone : Option U32}
    (hgone : ∀ v, gone = some v →
      P ∧ Q ∧ ∃ e, lookup vlanKey ale.table v = some e ∧ isAgeable e = true) : gone = none := by
  cases gone with
  | none => rfl
  | some v =>
    obtain ⟨-, -, e, hl, hage⟩ := hgone v rfl
    obtain ⟨-, -, hk⟩ := h.lookup_eq_some_iff.mp hl
    rw [vlanKey_of_ageable hage] at hk
    cases hk

theorem addedVlan_of_store (h : Unique vlanKey ale.table) {r : CpswAle × AleEntry}
    (htable : r.1.table = ale.table) (hkey : vlanKey r.2 = some (vid.setWidth 32)) :
    AddedVlan params ale vid (vlanMasks params r.2)
      (cpswAleStore r.1 (cpswAleMatchVlan ale vid) r.2) := by
  have h' : Unique vlanKey r.1.table := htable ▸ h
  rw [cpswAleMatchVlan_eq, ← htable]
  rcases cpswAleStore_cases vlanKey (vid.setWidth 32) r.1 r.2 with
    ⟨hplace, heq⟩ | ⟨i, hplace, heq⟩
  · obtain ⟨hnone, hfree, hage⟩ := place_eq_none_iff.mp hplace
    rw [htable] at hnone hfree hage
    rw [heq]
    refine ⟨iff_of_true rfl ⟨lookupVlan_eq_none_iff.mpr hnone, hfree, hage⟩, .inr ⟨rfl, htable⟩,
      fun hret => absurd hret neg_enomem_ne_zero, .inl fun i e hi _ => ?_⟩
    rwa [htable]
  · obtain ⟨gone, hgone, hmap⟩ := h'.lookup_place (fun _ => vlanKey_of_free) hplace hkey
    obtain rfl := vlan_not_gone h' hgone
    rw [heq]
    refine ⟨iff_of_false neg_enomem_ne_zero.symm ?_, .inl rfl, fun _ => ⟨?_, fun v => ?_⟩, ?_⟩
    · rintro ⟨hnone, hroom⟩
      have hcon := place_eq_none_iff.mpr
        ⟨lookupVlan_eq_none_iff.mp hnone, hroom.free, hroom.ageable⟩
      rw [← htable, hplace] at hcon
      cases hcon
    · exact h'.set (fresh_of_place h' hkey hplace)
    · unfold lookupVlan cpswAleWrite
      rw [hmap, ← htable]
      split
      · rfl
      · rfl
    · obtain ⟨old, hi, hold⟩ := place_eq_some hplace
      rcases hold with hsame | ⟨hnone, hfree | ⟨hfull, hage⟩⟩
      · exact .inl ((keepsAddrs_write hi (not_addr_of_vlanKey hsame)).congr htable)
      · exact .inl ((keepsAddrs_write hi (not_addr_of_free hfree)).congr htable)
      · rw [htable] at hnone hfull hi
        refine .inr ⟨rfl, lookupVlan_eq_none_iff.mpr hnone, hfull, i, old, hi, hage, ?_⟩
        intro j e hne hj
        unfold cpswAleWrite
        rw [htable, List.getElem?_set_ne (Ne.symm hne), hj]

theorem setsVlan_of_edit (h : Unique vlanKey ale.table) (hm : cpswAleMatchVlan ale vid = some i)
    {r : CpswAle × AleEntry} (htable : r.1.table = ale.table) {m : Option VlanMasks}
    (hr : m = none ∧ isFree r.2 = true ∨
      m = some (vlanMasks params r.2) ∧ vlanKey r.2 = some (vid.setWidth 32)) :
    SetsVlan params ale vid m (cpswAleWrite r.1 i r.2) ∧
      KeepsAddrs ale (cpswAleWrite r.1 i r.2) := by
  obtain ⟨hi, hkey⟩ := matchVlan_some hm
  have hi' := hi
  rw [← htable] at hi'
  have h' : Unique vlanKey r.1.table := htable ▸ h
  have hkeeps : vlanKey r.2 = vlanKey (cpswAleRead ale i) ∨ vlanKey r.2 = none := by
    rcases hr with ⟨-, hfree⟩ | ⟨-, hsame⟩
    · exact .inr (vlanKey_of_free hfree)
    · exact .inl (hsame.trans hkey.symm)
  have hfresh : Fresh vlanKey r.1.table i r.2 := h'.fresh_of_keeps hi' hkeeps
  refine ⟨⟨h'.set hfresh, fun v => ?_⟩,
    (keepsAddrs_write hi' (not_addr_of_vlanKey hkey)).congr htable⟩
  unfold lookupVlan cpswAleWrite
  rw [h'.lookup_set hi' hfresh, hkey, ← htable]
  have hswap : (some (vid.setWidth 32) = some v) ↔ v = vid.setWidth 32 :=
    ⟨fun heq => (Option.some.inj heq).symm, fun heq => congrArg some heq.symm⟩
  rcases hr with ⟨rfl, hfree⟩ | ⟨rfl, hsame⟩
  · rw [vlanKey_of_free hfree, if_neg (by simp)]
    simp only [hswap]
    split <;> rfl
  · rw [hsame]
    simp only [hswap]
    split <;> rfl

theorem delVlan_of_noMatch (hm : cpswAleMatchVlan ale vid = none)
    (f : VlanMasks → Option VlanMasks) : DelVlan params ale vid f (ale, -enoent) := by
  refine ⟨fun _ => rfl, fun m hl => ?_⟩
  rw [lookupVlan_of_noMatch hm] at hl
  cases hl

theorem delVlan_of_match (h : Unique vlanKey ale.table) (hm : cpswAleMatchVlan ale vid = some i)
    {f : VlanMasks → Option VlanMasks} {r : CpswAle × AleEntry} (hedit : VlanEdit params ale vid r)
    (hr : f (vlanMasks params (cpswAleRead ale i)) = none ∧ isFree r.2 = true ∨
      f (vlanMasks params (cpswAleRead ale i)) = some (vlanMasks params r.2) ∧
        vlanKey r.2 = vlanKey (cpswAleRead ale i)) :
    DelVlan params ale vid f (cpswAleWrite r.1 i r.2, 0) := by
  have hfound : lookupVlan params ale (vid.setWidth 32) = _ := lookupVlan_of_match h hm
  rw [(matchVlan_some hm).2] at hr
  refine ⟨fun hnone => ?_, fun m hl => ⟨rfl, setsVlan_of_edit h hm hedit.table ?_⟩⟩
  · rw [hfound] at hnone
    cases hnone
  · obtain rfl := Option.some.inj (hfound.symm.trans hl)
    exact hr

/-- A change of every VLAN entry that keeps all but its unregistered mask. -/
theorem setsUnreg_of_map (h : Unique vlanKey ale.table) {g : AleEntry → AleEntry}
    {f : VlanMasks → U32} (hkey : ∀ e, vlanKey (g e) = vlanKey e)
    (hmasks : ∀ e v, vlanKey e = some v →
      vlanMasks params (g e) = { vlanMasks params e with unregMcast := f (vlanMasks params e) })
    (haddr : ∀ e, isAddrType (cpswAleGetEntryType e) = true → g e = e) :
    SetsUnreg params ale f { ale with table := ale.table.map g } := by
  refine ⟨fun v => ?_, fun i e hi htype => ?_⟩
  · unfold lookupVlan
    dsimp only
    rw [h.lookup_map fun e => .inl (hkey e)]
    cases hl : lookup vlanKey ale.table v with
    | none => rfl
    | some e =>
      obtain ⟨-, -, hk⟩ := h.lookup_eq_some_iff.mp hl
      rw [Option.bind_some, hkey, if_pos hk]
      exact congrArg some (hmasks e v hk)
  · dsimp only
    rw [List.getElem?_map, hi, Option.map_some, haddr e htype]

theorem DirectMasks.vlanMasks_unreg (h : DirectMasks params) {v : U32} (hv : Width params v)
    (e : AleEntry) : vlanMasks params (cpswAleVlanSetFld params e .unregMcastMsk v) =
      { vlanMasks params e with unregMcast := v } := by
  unfold vlanMasks
  congr 1
  · exact h.getFld_setFld_ne rfl rfl (by decide) v
  · exact h.getFld_setFld_ne rfl rfl (by decide) v
  · exact h.getFld_setFld_ne rfl rfl (by decide) v
  · exact h.getFld_setFld rfl hv

theorem DirectMasks.addedVlan (hd : DirectMasks params) (h : Unique vlanKey ale.table)
    {members untag regMcast unregMcast : U32} (hvid : vid.toNat < vlanNVid)
    (hmembers : Width params members) (huntag : Width params untag)
    (hreg : Width params regMcast) (hunreg : Width params unregMcast) :
    AddedVlan params ale vid ⟨members, untag, regMcast, unregMcast⟩
      (cpswAleAddVlan params ale vid members untag regMcast unregMcast) := by
  unfold cpswAleAddVlan
  dsimp only
  generalize readOrZero ale (cpswAleMatchVlan ale vid) = e
  have hmasks : vlanMasks params (addVlanEntry params ale e vid members untag regMcast
      unregMcast).2 = _ := hd.vlanMasks_add hmembers huntag hreg hunreg
  have hedit : VlanEdit params ale vid
      (addVlanEntry params ale e vid members untag regMcast unregMcast) :=
    addVlanEntry_edit hvid members untag regMcast unregMcast
  rw [← hmasks]
  exact addedVlan_of_store h hedit.table (addVlanEntry_key hvid _ _ _ _)

/-- The masks that an add with modify starts from are those in the map. -/
theorem vlanMasks_readOrZero (h : Unique vlanKey ale.table) (hd : DirectMasks params) :
    vlanMasks params (readOrZero ale (cpswAleMatchVlan ale vid)) =
      (lookupVlan params ale (vid.setWidth 32)).getD VlanMasks.empty := by
  cases hm : cpswAleMatchVlan ale vid with
  | none =>
    have hzero : ∀ f : VlanFld, f.isMask = true → cpswAleVlanGetFld params 0 f = 0 :=
      fun f hf => by rw [hd.getFld hf, getField_zero]
    rw [lookupVlan_of_noMatch hm]
    unfold vlanMasks readOrZero
    rw [hzero _ rfl, hzero _ rfl, hzero _ rfl, hzero _ rfl]
    rfl
  | some i =>
    rw [lookupVlan_of_match h hm]
    rfl

theorem DirectMasks.vlanDelModify (hd : DirectMasks params) (h : Unique vlanKey ale.table)
    (vid : U16) (portMask : U32) : DelVlan params ale vid (VlanMasks.delPorts · portMask)
      (cpswAleVlanDelModify params ale vid portMask) := by
  unfold cpswAleVlanDelModify
  cases hm : cpswAleMatchVlan ale vid with
  | none => exact delVlan_of_noMatch hm _
  | some i =>
    exact delVlan_of_match h hm (delModifyInt_edit (matchVlan_some hm).2 portMask)
      (hd.delModifyInt portMask)

theorem DirectMasks.vlanMasks_del (hd : DirectMasks params) (portMask : U32) :
    (if portMask = 0 ∨ (vlanMasks params e).members &&& ~~~portMask = 0 then none
      else (vlanMasks params e).delPorts (portMask &&& ~~~alePortHost)) = none ∧
      isFree (delVlanEntry params ale e vid portMask).2 = true ∨
    (if portMask = 0 ∨ (vlanMasks params e).members &&& ~~~portMask = 0 then none
      else (vlanMasks params e).delPorts (portMask &&& ~~~alePortHost)) =
      some (vlanMasks params (delVlanEntry params ale e vid portMask).2) ∧
      vlanKey (delVlanEntry params ale e vid portMask).2 = vlanKey e := by
  by_cases hlast : portMask = 0 ∨ (vlanMasks params e).members &&& ~~~portMask = 0
  · have hentry : delVlanEntry params ale e vid portMask =
        ((cpswAleSetVlanUntag params ale e vid 0).1,
          cpswAleSetEntryType (cpswAleSetVlanUntag params ale e vid 0).2 aleTypeFree) :=
      if_pos hlast
    rw [if_pos hlast, hentry]
    exact .inl ⟨rfl, isFree_setEntryType _⟩
  · have hentry : delVlanEntry params ale e vid portMask =
        cpswAleVlanDelModifyInt params ale e vid (portMask &&& ~~~alePortHost) := if_neg hlast
    rw [if_neg hlast, hentry]
    exact hd.delModifyInt _

theorem DirectMasks.delVlan (hd : DirectMasks params) (h : Unique vlanKey ale.table)
    (vid : U16) (portMask : U32) : DelVlan params ale vid
      (fun m => if portMask = 0 ∨ m.members &&& ~~~portMask = 0 then none
        else m.delPorts (portMask &&& ~~~alePortHost))
      (cpswAleDelVlan params ale vid portMask) := by
  unfold cpswAleDelVlan
  cases hm : cpswAleMatchVlan ale vid with
  | none => exact delVlan_of_noMatch hm _
  | some i =>
    exact delVlan_of_match h hm (delVlanEntry_edit (matchVlan_some hm).2 portMask)
      (hd.vlanMasks_del portMask)

theorem DirectMasks.setUnregMcast (hd : DirectMasks params) (h : Unique vlanKey ale.table)
    {unregMcastMask : U32} (add : Bool) (hmask : Width params unregMcastMask) :
    SetsUnreg params ale (fun m => if add then m.unregMcast ||| unregMcastMask
        else m.unregMcast &&& ~~~unregMcastMask)
      (cpswAleSetUnregMcast params ale unregMcastMask add) := by
  refine setsUnreg_of_map h (fun e => (unregMcastEntry_keeps unregMcastMask add).2.1)
    (fun e v hk => ?_) fun e htype => ?_
  · have hold := hd.width_getFld (f := .unregMcastMsk) rfl e
    unfold unregMcastEntry
    dsimp only
    rw [if_neg (not_not.mpr (getEntryType_of_vlanKey hk)), hd.vlanMasks_unreg]
    · rfl
    · cases add
      · exact hold.and _
      · exact hold.or hmask
  · apply if_pos
    intro hvlan
    rw [hvlan] at htype
    cases htype

theorem withHost_width {mask : U32} (h : Width params mask) (allmulti : Bool) :
    Width params (withHost allmulti mask) := by
  unfold withHost
  cases allmulti
  · exact h.and _
  · exact h.or (width_host params)

theorem DirectMasks.setAllmulti (hd : DirectMasks params) (h : Unique vlanKey ale.table)
    (allmulti : Bool) (port : ℤ) :
    SetsUnreg params ale (fun m => if port = -1 ∨ testBits m.members (1#32 <<< port.toNat) = true
        then withHost allmulti m.unregMcast else m.unregMcast)
      (cpswAleSetAllmulti params ale allmulti port) := by
  unfold cpswAleSetAllmulti
  rw [hd.nuSwitchAle]
  refine setsUnreg_of_map h (fun e => ?_) (fun e v hk => ?_) fun e htype => ?_
  · split
    · rename_i happlies
      exact (allmultiEntry_keeps allmulti (allmultiApplies_vlan happlies)).2.1
    · rfl
  · have hold := hd.width_getFld (f := .unregMcastMsk) rfl e
    have happlies : allmultiApplies params port e = true ↔ port = -1 ∨
        testBits (vlanMasks params e).members (1#32 <<< port.toNat) = true := by
      simp [allmultiApplies, getEntryType_of_vlanKey hk, vlanMasks]
    by_cases hport : port = -1 ∨
        testBits (vlanMasks params e).members (1#32 <<< port.toNat) = true
    · rw [if_pos (happlies.mpr hport), if_pos hport]
      exact hd.vlanMasks_unreg (withHost_width hold allmulti) e
    · rw [if_neg (mt happlies.mp hport), if_neg hport]
  · rw [if_neg]
    intro happlies
    rw [allmultiApplies_vlan happlies] at htype
    cases htype

theorem Keyed.lookupVlan_storeAddr (h : Keyed ale) {k : MacAddr × U32} (hk : addrKey e' = some k)
    (v : U32) : lookupVlan params (cpswAleStore ale (slotOf addrKey ale.table k) e').1 v =
      lookupVlan params ale v := by
  rcases cpswAleStore_cases addrKey k ale e' with ⟨-, heq⟩ | ⟨i, hplace, heq⟩
  · rw [heq]
  · obtain ⟨gone, hgone, hmap⟩ := h.vlan.lookup_place_other (fun _ => vlanKey_of_free)
      (fun _ _ => vlanKey_of_addrKey) hplace hk
    obtain rfl := vlan_not_gone h.vlan hgone
    rw [heq]
    unfold lookupVlan cpswAleWrite
    rw [hmap, if_neg (by simp)]

theorem Keyed.lookupVlan_writeAddr (h : Keyed ale) (hi : ale.table[i]? = some old)
    (hold : vlanKey old = none) (hnew : vlanKey e' = none) (v : U32) :
    lookupVlan params (cpswAleWrite ale i e') v = lookupVlan params ale v := by
  unfold lookupVlan cpswAleWrite
  rw [h.vlan.lookup_set hi (fresh_of_none hnew), hnew, hold, if_neg (by simp), if_neg (by simp)]

theorem Keyed.lookupVlan_addUcast (h : Keyed ale) (addr : MacAddr) (port flags : U32)
    (hvid : vid.toNat < vlanNVid) (v : U32) :
    lookupVlan params (cpswAleAddUcast params ale addr port flags vid).1 v =
      lookupVlan params ale v := by
  unfold cpswAleAddUcast
  rw [cpswAleMatchAddr_eq]
  exact h.lookupVlan_storeAddr (addrKey_ucastEntry params addr port flags hvid) v

theorem Keyed.lookupVlan_delUcast (h : Keyed ale) (addr : MacAddr) (port flags : U32) (vid : U16)
    (v : U32) : lookupVlan params (cpswAleDelUcast ale addr port flags vid).1 v =
      lookupVlan params ale v := by
  unfold cpswAleDelUcast
  split
  · rfl
  · obtain ⟨hi, hkey⟩ := matchAddr_some ‹_›
    exact h.lookupVlan_writeAddr hi (vlanKey_of_addrKey hkey)
      (vlanKey_of_free (isFree_setEntryType 0)) v

theorem Keyed.lookupVlan_addMcast (h : Keyed ale) (addr : MacAddr) (portMask flags mcastState : U32)
    (hvid : vid.toNat < vlanNVid) (v : U32) :
    lookupVlan params (cpswAleAddMcast params ale addr portMask flags vid mcastState).1 v =
      lookupVlan params ale v := by
  have hkey := addrKey_addMcast params ale addr portMask flags mcastState hvid
  unfold cpswAleAddMcast
  dsimp only
  rw [cpswAleMatchAddr_eq] at hkey ⊢
  exact h.lookupVlan_storeAddr hkey v

theorem Keyed.lookupVlan_delMcast (h : Keyed ale) (addr : MacAddr) (portMask flags : U32)
    (vid : U16) (v : U32) : lookupVlan params (cpswAleDelMcast params ale addr portMask flags vid).1
      v = lookupVlan params ale v := by
  unfold cpswAleDelMcast
  split
  · rfl
  · obtain ⟨hi, hkey⟩ := matchAddr_some ‹_›
    have hold := vlanKey_of_addrKey hkey
    exact h.lookupVlan_writeAddr hi hold (vlanKey_delMcastEntry hold portMask) v

theorem Keyed.lookupVlan_flushMulticast (h : Keyed ale) (portMask vid v : U32) :
    lookupVlan params (cpswAleFlushMulticast params ale portMask vid).1 v =
      lookupVlan params ale v := by
  unfold lookupVlan cpswAleFlushMulticast
  dsimp only
  rw [h.vlan.lookup_map fun e => .inl (vlanKey_flushEntry params portMask vid e)]
  cases hl : lookup vlanKey ale.table v with
  | none => rfl
  | some e =>
    obtain ⟨-, -, hk⟩ := h.vlan.lookup_eq_some_iff.mp hl
    have hsame : flushEntry params portMask vid e = e :=
      if_pos (by rw [not_addr_of_vlanKey hk]; rfl)
    rw [Option.bind_some, hsame, if_pos hk]

/-- On a table with unique VLAN ids, the VLAN operations are those of a map from
VLAN ids to masks. -/
theorem vlanMap_of_unique (hd : DirectMasks params) (h : Unique vlanKey ale.table) :
    VlanMap params ale where
  addVlan _ _ _ _ _ hvid hmembers huntag hreg hunreg :=
    hd.addedVlan h hvid hmembers huntag hreg hunreg
  vlanAddModify := by
    intro vid portMask untag regMcast unregMcast hvid hport huntag hreg hunreg
    have hread : vlanMasks params (readOrZero ale (cpswAleMatchVlan ale vid)) = _ :=
      vlanMasks_readOrZero h hd
    rw [← hread]
    unfold cpswAleVlanAddModify
    generalize readOrZero ale (cpswAleMatchVlan ale vid) = e
    have hold : ∀ f : VlanFld, f.isMask = true → Width params (cpswAleVlanGetFld params e f) :=
      fun f hf => hd.width_getFld hf e
    exact hd.addedVlan h hvid ((hold .memberList rfl).or hport)
      (((hold .forceUntaggedMsk rfl).and _).or huntag)
      (((hold .regMcastMsk rfl).and _).or hreg) (((hold .unregMcastMsk rfl).and _).or hunreg)
  vlanDelModify := hd.vlanDelModify h
  delVlan := hd.delVlan h
  setUnregMcast _ add hmask := hd.setUnregMcast h add hmask
  setAllmulti := hd.setAllmulti h

/-- A table with one VLAN, of all three ports. -/
theorem vlanMap_after_add : ∃ ale : CpswAle, Unique vlanKey ale.table ∧
    lookupVlan threePorts ale 1 = some ⟨7, 1, 7, 0⟩ ∧ VlanMap threePorts ale := by
  have hkeyed : Keyed (cpswAleAddVlan threePorts (emptyAle 4) 1 7 1 7 0).1 :=
    (keyed_of_free (free_emptyAle 4)).addVlan (by decide) 7 1 7 0
  have hdirect : DirectMasks threePorts := .inl ⟨rfl, rfl⟩
  exact ⟨_, hkeyed.vlan, by decide +kernel, vlanMap_of_unique hdirect hkeyed.vlan⟩

end CpswDriver.Ale
