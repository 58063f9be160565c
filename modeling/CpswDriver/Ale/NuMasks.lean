import CpswDriver.Ale.FailedAdd
import CpswDriver.Ale.VlanFields

/-!
The multicast masks of the VLANs on an NU switch. An entry there holds two indices,
and the masks in force are those of the registers that these select. Changing the
ports of a VLAN reads the old masks through the fields of the other parts, which an
NU entry does not have, and gets an error code: the number of all ports but the host.
And it writes to registers that other VLANs may select as well.
-/

namespace CpswDriver.Ale

open Slots

variable {params : AleParams} {ale ale' : CpswAle} {e e' : AleEntry} {vid : U16} {i : ℕ}
  {portMask regMask unregMask : U32}

/-- A mask as the switch takes it: a bit for each port. -/
def portBits (params : AleParams) (mask : U32) : U32 :=
  mask &&& BitField.bitMask 32 params.portMaskBits

structure FloodMasks where
  regMcast : U32
  unregMcast : U32
  deriving DecidableEq

namespace FloodMasks

def empty : FloodMasks := ⟨0, 0⟩

/-- Ports that join, with what they want in the masks. -/
def addPorts (params : AleParams) (m : FloodMasks) (portMask regMask unregMask : U32) :
    FloodMasks where
  regMcast := portBits params ((m.regMcast &&& ~~~portMask) ||| regMask)
  unregMcast := portBits params ((m.unregMcast &&& ~~~portMask) ||| unregMask)

def within (m : FloodMasks) (members : U32) : FloodMasks where
  regMcast := m.regMcast &&& members
  unregMcast := m.unregMcast &&& members

end FloodMasks

def regIdx (params : AleParams) (e : AleEntry) : ℕ :=
  (cpswAleVlanGetFld params e .regMcastIdx).toNat

def unregIdx (params : AleParams) (e : AleEntry) : ℕ :=
  (cpswAleVlanGetFld params e .unregMcastIdx).toNat

def floodMasks (params : AleParams) (regs : ℕ → U32) (e : AleEntry) : FloodMasks where
  regMcast := portBits params (regs (aleVlanMaskMux (regIdx params e)))
  unregMcast := portBits params (regs (aleVlanMaskMux (unregIdx params e)))

def masksInForce (params : AleParams) (ale : CpswAle) (v : U32) : Option FloodMasks :=
  (lookup vlanKey ale.table v).map (floodMasks params ale.regs)

/-- The masks of one VLAN change, and those of no other. -/
structure SetsMasks (params : AleParams) (ale : CpswAle) (vid : U16) (m : FloodMasks)
    (ale' : CpswAle) : Prop where
  self : masksInForce params ale' (vid.setWidth 32) = some m
  other : ∀ v, v ≠ vid.setWidth 32 → masksInForce params ale' v = masksInForce params ale v

/-- The unregistered mask is written last, so it is what a register selected twice holds. -/
def maskRegs (regs : ℕ → U32) (regIdx unregIdx : ℕ) (regMask unregMask : U32) : ℕ → U32 :=
  Function.update (Function.update regs (aleVlanMaskMux regIdx) regMask)
    (aleVlanMaskMux unregIdx) unregMask

theorem maskRegs_mux (regs : ℕ → U32) (regIdx unregIdx : ℕ) (regMask unregMask : U32) (idx : ℕ) :
    maskRegs regs regIdx unregIdx regMask unregMask (aleVlanMaskMux idx) =
      if idx = unregIdx then unregMask else if idx = regIdx then regMask
      else regs (aleVlanMaskMux idx) := by
  unfold maskRegs
  simp only [Function.update_apply, aleVlanMaskMux_injective.eq_iff]

/-- The fields for the masks are not those of an NU entry. -/
theorem getFld_nu (hnu : params.nuSwitchAle = true) (e : AleEntry) {fld : VlanFld}
    (hfld : fld = .regMcastMsk ∨ fld = .unregMcastMsk) :
    cpswAleVlanGetFld params e fld = BitVec.ofInt 32 (-enoent) := by
  unfold cpswAleVlanGetFld
  rw [params.vlanEntryTbl_of_nu hnu]
  rcases hfld with rfl | rfl <;> rfl

theorem idx_allowed (hnu : params.nuSwitchAle = true) :
    (params.vlanEntryTbl .regMcastIdx).allowed = true ∧
      (params.vlanEntryTbl .unregMcastIdx).allowed = true ∧
      (params.vlanEntryTbl .forceUntaggedMsk).allowed = true ∧
      (params.vlanEntryTbl .memberList).allowed = true := by
  rw [params.vlanEntryTbl_of_nu hnu]
  exact ⟨rfl, rfl, rfl, rfl⟩

theorem addVlanEntry_idx (hnu : params.nuSwitchAle = true) (ale : CpswAle) (e : AleEntry)
    (vid : U16) (members untag regMask unregMask : U32) :
    regIdx params (addVlanEntry params ale e vid members untag regMask unregMask).2 =
      regIdx params e ∧
    unregIdx params (addVlanEntry params ale e vid members untag regMask unregMask).2 =
      nuVlanUnregMcastIdx.toNat := by
  obtain ⟨hreg, hunreg, -, hmembers⟩ := idx_allowed hnu
  have htbl := params.vlanEntryTbl_of_nu hnu
  unfold regIdx unregIdx addVlanEntry
  simp only [hnu, Bool.not_true, Bool.false_eq_true, if_false, cpswAleSetVlanUntag]
  rw [other_vlanSetFld hmembers hreg (by decide), other_vlanSetFld hmembers hunreg (by decide),
    regMcastIdx_addVlanEntry htbl, unregMcastIdx_self htbl]
  exact ⟨rfl, rfl⟩

theorem addVlanRegs_nu (hnu : params.nuSwitchAle = true) (regs : ℕ → U32) (e : AleEntry)
    (regMask unregMask : U32) : addVlanRegs params regs e regMask unregMask =
      maskRegs regs (regIdx params e) nuVlanUnregMcastIdx.toNat regMask unregMask :=
  if_pos hnu

/-- The ports that remain, and what is written for them. -/
def membersLeft (params : AleParams) (e : AleEntry) (portMask : U32) : U32 :=
  cpswAleVlanGetFld params e .memberList &&& ~~~portMask

theorem delModifyInt_nu (hnu : params.nuSwitchAle = true) (ale : CpswAle) (vid : U16)
    (hleft : membersLeft params e portMask ≠ 0) :
    (cpswAleVlanDelModifyInt params ale e vid portMask).1.regs =
      maskRegs ale.regs (regIdx params e) (unregIdx params e)
        (BitVec.ofInt 32 (-enoent) &&& membersLeft params e portMask)
        (BitVec.ofInt 32 (-enoent) &&& membersLeft params e portMask) ∧
    regIdx params (cpswAleVlanDelModifyInt params ale e vid portMask).2 = regIdx params e ∧
    unregIdx params (cpswAleVlanDelModifyInt params ale e vid portMask).2 = unregIdx params e := by
  obtain ⟨hreg, hunreg, huntag, hmembers⟩ := idx_allowed hnu
  have hmembers' : ¬ cpswAleVlanGetFld params e .memberList &&& ~~~portMask = 0 := hleft
  unfold cpswAleVlanDelModifyInt
  dsimp only
  rw [if_neg hmembers', getFld_nu hnu e (.inl rfl), getFld_nu hnu e (.inr rfl)]
  simp only [hnu, Bool.not_true, Bool.false_eq_true, if_false, cpswAleSetVlanUntag,
    cpswAleSetVlanMcast, CpswAle.writel]
  unfold regIdx unregIdx maskRegs membersLeft
  rw [other_vlanSetFld hmembers hreg (by decide), other_vlanSetFld hmembers hunreg (by decide),
    other_vlanSetFld huntag hreg (by decide), other_vlanSetFld huntag hunreg (by decide)]
  exact ⟨rfl, rfl, rfl⟩

/-- Of the ports that neither change nor are asked for, the mask has all but the host. -/
def AllButHost (params : AleParams) (portMask given old : U32) : Prop :=
  ∀ i < params.alePorts, portMask.getLsbD i = false → given.getLsbD i = false →
    old.getLsbD i = decide (i ≠ 0)

instance (params : AleParams) (portMask given old : U32) :
    Decidable (AllButHost params portMask given old) :=
  inferInstanceAs (Decidable (∀ i < params.alePorts, portMask.getLsbD i = false →
    given.getLsbD i = false → old.getLsbD i = decide (i ≠ 0)))

/-- The other VLANs that select one of the two registers have there what is written to it. -/
def OthersAgree (params : AleParams) (ale : CpswAle) (vid : U16) (regIdx' unregIdx' : ℕ)
    (regMask unregMask : U32) : Prop :=
  ∀ v e, v ≠ vid.setWidth 32 → lookup vlanKey ale.table v = some e →
    ∀ idx, idx = regIdx params e ∨ idx = unregIdx params e →
      (idx = unregIdx' → portBits params (ale.regs (aleVlanMaskMux idx)) =
        portBits params unregMask) ∧
      (idx = regIdx' → idx ≠ unregIdx' → portBits params (ale.regs (aleVlanMaskMux idx)) =
        portBits params regMask)

/-- What a change of the ports finds, where it does right: `m` are the masks in force, and
the indices are those that the entry selects afterwards. -/
structure Agrees (params : AleParams) (ale : CpswAle) (vid : U16) (regIdx' unregIdx' : ℕ)
    (m : FloodMasks) (portMask regMask unregMask : U32) : Prop where
  reg : if regIdx' = unregIdx' then portBits params (nuNewMask portMask unregMask) =
      portBits params ((m.regMcast &&& ~~~portMask) ||| regMask)
    else AllButHost params portMask regMask m.regMcast
  unreg : AllButHost params portMask unregMask m.unregMcast
  other : OthersAgree params ale vid regIdx' unregIdx' (nuNewMask portMask regMask)
    (nuNewMask portMask unregMask)

theorem getLsbD_enoent {i : ℕ} (hi : i < 32) :
    (BitVec.ofInt 32 (-enoent)).getLsbD i = decide (i ≠ 0) := by
  have hnot : BitVec.ofInt 32 (-enoent) = ~~~1#32 := by decide
  rw [hnot, BitVec.getLsbD_not, BitVec.getLsbD_one]
  simp [hi]

theorem portBits_nuNewMask_iff (portMask given old : U32) :
    portBits params (nuNewMask portMask given) =
      portBits params ((old &&& ~~~portMask) ||| given) ↔
    AllButHost params portMask given old := by
  have hports : params.portMaskBits ≤ 12 := params.alePorts_le
  have hbit : ∀ x : U32, ∀ i, (portBits params x).getLsbD i =
      (x.getLsbD i && decide (i < params.portMaskBits)) := by
    intro x i
    unfold portBits
    rw [BitVec.getLsbD_and, BitField.getLsbD_bitMask (by omega)]
  rw [BitVec.eq_of_getLsbD_eq_iff]
  constructor
  · intro heq i hi hport hgiven
    have hi' : i < params.portMaskBits := hi
    have hsame := heq i (by omega)
    rw [hbit, hbit, nuNewMask, BitVec.getLsbD_or, BitVec.getLsbD_or, BitVec.getLsbD_and,
      BitVec.getLsbD_and, getLsbD_enoent (by omega), BitVec.getLsbD_not, hport, hgiven] at hsame
    simpa [hi', show i < 32 by omega] using hsame.symm
  · intro hall i hi
    rw [hbit, hbit]
    by_cases hin : i < params.portMaskBits
    · rw [nuNewMask, BitVec.getLsbD_or, BitVec.getLsbD_or, BitVec.getLsbD_and,
        BitVec.getLsbD_and, getLsbD_enoent hi, BitVec.getLsbD_not]
      cases hgiven : given.getLsbD i with
      | true => simp
      | false =>
        cases hport : portMask.getLsbD i with
        | true => simp
        | false => simp [hall i hin hport hgiven]
    · simp [hin]

/-- An entry of the VLAN is written, and the two registers that it selects. -/
structure Writes (params : AleParams) (ale : CpswAle) (vid : U16) (e' : AleEntry)
    (regMask unregMask : U32) (ale' : CpswAle) : Prop where
  table : ∃ i, i < ale.table.length ∧ NoneBefore vlanKey ale.table (vid.setWidth 32) i ∧
    (∀ old, ale.table[i]? = some old → ∀ v, v ≠ vid.setWidth 32 → vlanKey old ≠ some v) ∧
    ale'.table = ale.table.set i e'
  key : vlanKey e' = some (vid.setWidth 32)
  regs : ale'.regs = maskRegs ale.regs (regIdx params e') (unregIdx params e') regMask unregMask

theorem Writes.lookup_self (h : Writes params ale vid e' regMask unregMask ale') :
    lookup vlanKey ale'.table (vid.setWidth 32) = some e' := by
  obtain ⟨i, hi, hbefore, -, htable⟩ := h.table
  rw [htable]
  exact lookup_set_first hi hbefore h.key

theorem Writes.lookup_other (h : Writes params ale vid e' regMask unregMask ale') {v : U32}
    (hv : v ≠ vid.setWidth 32) : lookup vlanKey ale'.table v = lookup vlanKey ale.table v := by
  obtain ⟨i, -, -, hold, htable⟩ := h.table
  rw [htable]
  refine lookup_set_ne (fun old hi => hold old hi v hv) ?_
  rw [h.key]
  exact fun hcon => hv (Option.some.inj hcon).symm

/-- The masks of an entry survive if those of its registers do. -/
theorem floodMasks_maskRegs_iff (regs : ℕ → U32) (e : AleEntry) (regIdx' unregIdx' : ℕ)
    (regMask unregMask : U32) :
    floodMasks params (maskRegs regs regIdx' unregIdx' regMask unregMask) e =
      floodMasks params regs e ↔
    ∀ idx, idx = regIdx params e ∨ idx = unregIdx params e →
      (idx = unregIdx' → portBits params (regs (aleVlanMaskMux idx)) =
        portBits params unregMask) ∧
      (idx = regIdx' → idx ≠ unregIdx' → portBits params (regs (aleVlanMaskMux idx)) =
        portBits params regMask) := by
  have hone : ∀ idx, portBits params (maskRegs regs regIdx' unregIdx' regMask unregMask
      (aleVlanMaskMux idx)) = portBits params (regs (aleVlanMaskMux idx)) ↔
      (idx = unregIdx' → portBits params (regs (aleVlanMaskMux idx)) =
        portBits params unregMask) ∧
      (idx = regIdx' → idx ≠ unregIdx' → portBits params (regs (aleVlanMaskMux idx)) =
        portBits params regMask) := by
    intro idx
    rw [maskRegs_mux]
    by_cases hunreg : idx = unregIdx'
    · simp [hunreg, eq_comm]
    · by_cases hreg : idx = regIdx'
      · rw [if_neg hunreg, if_pos hreg]
        exact ⟨fun heq => ⟨fun hcon => absurd hcon hunreg, fun _ _ => heq.symm⟩,
          fun h => (h.2 hreg hunreg).symm⟩
      · simp [hunreg, hreg]
  unfold floodMasks
  rw [FloodMasks.mk.injEq, hone, hone]
  constructor
  · rintro ⟨hreg, hunreg⟩ idx hidx
    rcases hidx with rfl | rfl
    · exact hreg
    · exact hunreg
  · intro h
    exact ⟨h _ (.inl rfl), h _ (.inr rfl)⟩

theorem Writes.setsMasks_iff (h : Writes params ale vid e' (nuNewMask portMask regMask)
      (nuNewMask portMask unregMask) ale') (m : FloodMasks) :
    SetsMasks params ale vid (m.addPorts params portMask regMask unregMask) ale' ↔
      Agrees params ale vid (regIdx params e') (unregIdx params e') m portMask regMask
        unregMask := by
  have hself : masksInForce params ale' (vid.setWidth 32) = some ⟨portBits params
      (if regIdx params e' = unregIdx params e' then nuNewMask portMask unregMask
        else nuNewMask portMask regMask), portBits params (nuNewMask portMask unregMask)⟩ := by
    unfold masksInForce floodMasks
    rw [h.lookup_self, Option.map_some, h.regs]
    simp only [maskRegs_mux, if_true]
  have hother : (∀ v, v ≠ vid.setWidth 32 →
      masksInForce params ale' v = masksInForce params ale v) ↔
      OthersAgree params ale vid (regIdx params e') (unregIdx params e')
        (nuNewMask portMask regMask) (nuNewMask portMask unregMask) := by
    unfold OthersAgree masksInForce
    constructor
    · intro hkeep v e hv hl
      have hmasks := hkeep v hv
      rw [h.lookup_other hv, hl, Option.map_some, Option.map_some, h.regs] at hmasks
      exact (floodMasks_maskRegs_iff ..).mp (Option.some.inj hmasks)
    · intro hagree v hv
      rw [h.lookup_other hv]
      cases hl : lookup vlanKey ale.table v with
      | none => rfl
      | some e =>
        rw [Option.map_some, Option.map_some, h.regs]
        exact congrArg some ((floodMasks_maskRegs_iff ..).mpr (hagree v e hv hl))
  constructor
  · rintro ⟨hset, hkeep⟩
    rw [hself] at hset
    obtain ⟨hreg, hunreg⟩ := FloodMasks.mk.inj (Option.some.inj hset)
    refine ⟨?_, (portBits_nuNewMask_iff ..).mp hunreg, hother.mp hkeep⟩
    split
    · rename_i heq
      rwa [if_pos heq] at hreg
    · rename_i hne
      rw [if_neg hne] at hreg
      exact (portBits_nuNewMask_iff ..).mp hreg
  · rintro ⟨hreg, hunreg, hagree⟩
    refine ⟨?_, hother.mpr hagree⟩
    rw [hself]
    refine congrArg some (congrArg₂ FloodMasks.mk ?_ ((portBits_nuNewMask_iff ..).mpr hunreg))
    split
    · rename_i heq
      rwa [if_pos heq] at hreg
    · rename_i hne
      rw [if_neg hne] at hreg
      exact (portBits_nuNewMask_iff ..).mpr hreg

theorem addVlan_writes (hnu : params.nuSwitchAle = true) (hvid : vid.toNat < vlanNVid)
    {members untag : U32}
    (hret : (cpswAleAddVlan params ale vid members untag regMask unregMask).2 = 0) :
    Writes params ale vid (addVlanEntry params ale (readOrZero ale (cpswAleMatchVlan ale vid)) vid
      members untag regMask unregMask).2 regMask unregMask
      (cpswAleAddVlan params ale vid members untag regMask unregMask).1 := by
  unfold cpswAleAddVlan at hret ⊢
  dsimp only at hret ⊢
  generalize readOrZero ale (cpswAleMatchVlan ale vid) = e at hret ⊢
  obtain ⟨hreg, hunreg⟩ := addVlanEntry_idx hnu ale e vid members untag regMask unregMask
  have hale := addVlanEntry_ale params ale e vid members untag regMask unregMask
  have hkey : vlanKey (addVlanEntry params ale e vid members untag regMask unregMask).2 = _ :=
    addVlanEntry_key hvid members untag regMask unregMask
  generalize addVlanEntry params ale e vid members untag regMask unregMask = r at *
  have htable : r.1.table = ale.table := by rw [hale]
  rw [cpswAleMatchVlan_eq, ← htable] at hret ⊢
  rcases cpswAleStore_cases vlanKey (vid.setWidth 32) r.1 r.2 with
    ⟨-, heq⟩ | ⟨i, hplace, heq⟩
  · rw [heq] at hret
    exact absurd hret neg_enomem_ne_zero
  · obtain ⟨hi, hbefore⟩ := noneBefore_of_place hplace
    obtain ⟨old, hold, hwas⟩ := place_eq_some hplace
    rw [htable] at hi hbefore hold
    rw [heq]
    refine ⟨⟨i, hi, hbefore, fun old' hold' v hv => ?_, congrArg (List.set · i r.2) htable⟩,
      hkey, ?_⟩
    · obtain rfl := Option.some.inj (hold.symm.trans hold')
      rcases hwas with hsame | ⟨-, hfree | ⟨-, hage⟩⟩
      · rw [hsame]
        exact fun hcon => hv (Option.some.inj hcon).symm
      · rw [vlanKey_of_free hfree]
        exact fun hcon => nomatch hcon
      · rw [vlanKey_of_ageable hage]
        exact fun hcon => nomatch hcon
    · unfold cpswAleWrite
      dsimp only
      rw [hale, hreg, hunreg]
      exact addVlanRegs_nu hnu ale.regs e regMask unregMask

def vlanEntryOf (ale : CpswAle) (vid : U16) : AleEntry := readOrZero ale (cpswAleMatchVlan ale vid)

theorem membersLeft_zero (portMask : U32) : membersLeft params 0 portMask = 0 := by
  have hallowed : (params.vlanEntryTbl .memberList).allowed = true := by
    rcases params.dev_cases with ⟨-, htbl⟩ | ⟨-, htbl | htbl⟩ <;> rw [htbl] <;> rfl
  unfold membersLeft cpswAleVlanGetFld
  simp [hallowed]

theorem vlanDelModify_writes (hnu : params.nuSwitchAle = true)
    (hleft : membersLeft params (vlanEntryOf ale vid) portMask ≠ 0) :
    Writes params ale vid
      (cpswAleVlanDelModifyInt params ale (vlanEntryOf ale vid) vid portMask).2
      (nuNewMask (~~~membersLeft params (vlanEntryOf ale vid) portMask) 0)
      (nuNewMask (~~~membersLeft params (vlanEntryOf ale vid) portMask) 0)
      (cpswAleVlanDelModify params ale vid portMask).1 ∧
    (cpswAleVlanDelModify params ale vid portMask).2 = 0 := by
  have hmask : ∀ members : U32, nuNewMask (~~~members) 0 =
      BitVec.ofInt 32 (-enoent) &&& members := by
    intro members
    unfold nuNewMask
    rw [BitVec.not_not]
    exact BitVec.or_zero
  rw [hmask]
  unfold vlanEntryOf at hleft ⊢
  cases hm : cpswAleMatchVlan ale vid with
  | none =>
    rw [hm] at hleft
    exact absurd (membersLeft_zero portMask) hleft
  | some i =>
    rw [hm] at hleft
    dsimp only [readOrZero] at hleft ⊢
    obtain ⟨hi, hkey⟩ := matchVlan_some hm
    obtain ⟨hregs, hreg, hunreg⟩ := delModifyInt_nu hnu ale vid hleft
    have hedit : VlanEdit params ale vid
        (cpswAleVlanDelModifyInt params ale (cpswAleRead ale i) vid portMask) :=
      delModifyInt_edit hkey portMask
    have hentry : vlanKey (cpswAleVlanDelModifyInt params ale (cpswAleRead ale i) vid
        portMask).2 = some (vid.setWidth 32) := by
      unfold cpswAleVlanDelModifyInt
      dsimp only
      rw [if_neg (show ¬ cpswAleVlanGetFld params (cpswAleRead ale i) .memberList &&&
        ~~~portMask = 0 from hleft)]
      simp [hnu, cpswAleSetVlanUntag, hkey]
    have hslot := hm
    rw [cpswAleMatchVlan_eq] at hslot
    unfold cpswAleVlanDelModify
    rw [hm]
    refine ⟨⟨⟨i, (List.getElem?_eq_some_iff.mp hi).1, noneBefore_of_slotOf hslot,
      fun old hold v hv => ?_, congrArg (List.set · i _) hedit.table⟩, hentry, ?_⟩, rfl⟩
    · obtain rfl := Option.some.inj (hi.symm.trans hold)
      rw [hkey]
      exact fun hcon => hv (Option.some.inj hcon).symm
    · rw [hreg, hunreg]
      exact hregs

/-- What is in force for a VLAN with an entry are masks of ports. -/
theorem within_eq_addPorts (m : FloodMasks) (members : U32)
    (hreg : portBits params m.regMcast = m.regMcast)
    (hunreg : portBits params m.unregMcast = m.unregMcast) :
    m.within members = m.addPorts params (~~~members) 0 0 := by
  have hone : ∀ x : U32, portBits params x = x →
      portBits params ((x &&& ~~~(~~~members)) ||| 0) = x &&& members := by
    intro x hx
    have hor : (x &&& members) ||| 0 = x &&& members := BitVec.or_zero
    rw [BitVec.not_not, hor]
    unfold portBits at hx ⊢
    rw [BitVec.and_assoc, BitVec.and_comm members, ← BitVec.and_assoc, hx]
  unfold FloodMasks.within FloodMasks.addPorts
  rw [hone _ hreg, hone _ hunreg]

/-- The masks in force for a VLAN before a call, none without an entry. -/
def oldMasks (params : AleParams) (ale : CpswAle) (vid : U16) : FloodMasks :=
  (masksInForce params ale (vid.setWidth 32)).getD FloodMasks.empty

theorem portBits_portBits (mask : U32) : portBits params (portBits params mask) =
    portBits params mask := by
  unfold portBits
  rw [BitVec.and_assoc, BitVec.and_self]

theorem portBits_oldMasks (params : AleParams) (ale : CpswAle) (vid : U16) :
    portBits params (oldMasks params ale vid).regMcast =
      (oldMasks params ale vid).regMcast ∧
    portBits params (oldMasks params ale vid).unregMcast =
      (oldMasks params ale vid).unregMcast := by
  have hzero : portBits params 0 = 0 := BitVec.zero_and
  unfold oldMasks masksInForce
  cases lookup vlanKey ale.table (vid.setWidth 32) with
  | none => exact ⟨hzero, hzero⟩
  | some e => exact ⟨portBits_portBits _, portBits_portBits _⟩

/-- With the last member the entry goes, and no register is written. -/
theorem vlanDelModify_last (hleft : membersLeft params (vlanEntryOf ale vid) portMask = 0) {v : U32}
    (hv : v ≠ vid.setWidth 32) :
    masksInForce params (cpswAleVlanDelModify params ale vid portMask).1 v =
      masksInForce params ale v := by
  unfold cpswAleVlanDelModify
  unfold vlanEntryOf at hleft
  cases hm : cpswAleMatchVlan ale vid with
  | none => rfl
  | some i =>
    rw [hm] at hleft
    obtain ⟨hi, hkey⟩ := matchVlan_some hm
    have hentry : cpswAleVlanDelModifyInt params ale (cpswAleRead ale i) vid portMask =
        ((cpswAleSetVlanUntag params ale (cpswAleRead ale i) vid 0).1,
          cpswAleSetEntryType (cpswAleSetVlanUntag params ale (cpswAleRead ale i) vid 0).2
            aleTypeFree) := if_pos hleft
    dsimp only
    rw [hentry]
    unfold masksInForce
    refine congrArg (Option.map _) (lookup_set_ne (fun old hold => ?_) ?_)
    · obtain rfl := Option.some.inj (hi.symm.trans hold)
      rw [hkey]
      exact fun hcon => hv (Option.some.inj hcon).symm
    · rw [vlanKey_of_free (isFree_setEntryType _)]
      exact fun hcon => nomatch hcon

/-- The masks in force after ports join or leave a VLAN of an NU switch are the ones meant,
and those of the other VLANs are kept, exactly where the error code and the shared registers
make no difference. -/
theorem nu_masks_iff (hnu : params.nuSwitchAle = true) (hvid : vid.toNat < vlanNVid)
    (ale : CpswAle) (portMask untagMask regMask unregMask : U32) :
    (((cpswAleVlanAddModify params ale vid portMask untagMask regMask unregMask).2 = 0 →
      SetsMasks params ale vid
        ((oldMasks params ale vid).addPorts params portMask regMask unregMask)
        (cpswAleVlanAddModify params ale vid portMask untagMask regMask unregMask).1) ↔
      ((cpswAleMatchVlan ale vid = none → ¬ NoRoom ale) →
        Agrees params ale vid (regIdx params (vlanEntryOf ale vid)) nuVlanUnregMcastIdx.toNat
          (oldMasks params ale vid) portMask regMask unregMask)) ∧
    (((cpswAleVlanDelModify params ale vid portMask).2 = 0 →
      (membersLeft params (vlanEntryOf ale vid) portMask ≠ 0 →
        masksInForce params (cpswAleVlanDelModify params ale vid portMask).1 (vid.setWidth 32) =
          some ((oldMasks params ale vid).within
            (membersLeft params (vlanEntryOf ale vid) portMask))) ∧
      ∀ v, v ≠ vid.setWidth 32 →
        masksInForce params (cpswAleVlanDelModify params ale vid portMask).1 v =
          masksInForce params ale v) ↔
      (membersLeft params (vlanEntryOf ale vid) portMask ≠ 0 →
        Agrees params ale vid (regIdx params (vlanEntryOf ale vid))
          (unregIdx params (vlanEntryOf ale vid)) (oldMasks params ale vid)
          (~~~membersLeft params (vlanEntryOf ale vid) portMask) 0 0)) := by
  constructor
  · have hret := cpswAleAddVlan_ret params ale vid
    unfold cpswAleVlanAddModify
    dsimp only
    rw [getFld_nu hnu _ (.inl rfl), getFld_nu hnu _ (.inr rfl)]
    change (_ → SetsMasks params ale vid _ (cpswAleAddVlan params ale vid _ _
      (nuNewMask portMask regMask) (nuNewMask portMask unregMask)).1) ↔ _
    generalize (cpswAleVlanGetFld params (readOrZero ale (cpswAleMatchVlan ale vid))
      .memberList) ||| portMask = members
    generalize (cpswAleVlanGetFld params (readOrZero ale (cpswAleMatchVlan ale vid))
      .forceUntaggedMsk) &&& ~~~portMask ||| untagMask = untag
    have hstored : (cpswAleAddVlan params ale vid members untag (nuNewMask portMask regMask)
        (nuNewMask portMask unregMask)).2 = 0 ↔
          (cpswAleMatchVlan ale vid = none → ¬ NoRoom ale) := by
      rw [← not_iff_not, Classical.not_imp, not_not]
      exact hret _ _ _ _
    refine imp_congr_ctx hstored fun hroom => ?_
    have hwrites := addVlan_writes hnu hvid (hstored.mpr hroom)
    obtain ⟨hreg, hunreg⟩ := addVlanEntry_idx hnu ale (readOrZero ale (cpswAleMatchVlan ale vid))
      vid members untag (nuNewMask portMask regMask) (nuNewMask portMask unregMask)
    have hiff := hwrites.setsMasks_iff (oldMasks params ale vid)
    rw [hreg, hunreg] at hiff
    exact hiff
  · by_cases hleft : membersLeft params (vlanEntryOf ale vid) portMask = 0
    · refine iff_of_true (fun _ => ⟨fun hcon => absurd hleft hcon, fun v hv => ?_⟩)
        fun hcon => absurd hleft hcon
      exact vlanDelModify_last hleft hv
    · obtain ⟨hwrites, hret⟩ := vlanDelModify_writes hnu hleft
      obtain ⟨hreg, hunreg⟩ := portBits_oldMasks params ale vid
      have hiff := hwrites.setsMasks_iff (oldMasks params ale vid)
      obtain ⟨-, hregIdx, hunregIdx⟩ := delModifyInt_nu hnu ale vid hleft
      rw [← within_eq_addPorts _ _ hreg hunreg, hregIdx, hunregIdx] at hiff
      constructor
      · intro hkeeps _
        obtain ⟨hself, hother⟩ := hkeeps hret
        exact hiff.mp ⟨hself hleft, hother⟩
      · intro hagrees _
        obtain ⟨hself, hother⟩ := hiff.mpr (hagrees hleft)
        exact ⟨fun _ => hself, hother⟩

def nuSwitch : AleParams where
  dev := { devId := "66ak2g", nuSwitchAle := true, vlanEntryTbl := vlanEntryNu }
  aleAgeout := 10
  alePorts := 3
  busFreq := 125000000
  dev_mem := by simp [cpswAleIdMatch]
  alePorts_pos := threePorts.alePorts_pos
  alePorts_le := threePorts.alePorts_le

def entryOf (word1 word2 : U32) : AleEntry
  | 0 => 0
  | 1 => word1
  | 2 => word2

/-- VLAN 1 has the ports 1 and 2, VLAN 2 the host as well, and both flood to the ports 1 and 2. -/
def twoVlans : CpswAle where
  table := [entryOf 0x20010000 0x100006, entryOf 0x20020000 0x100007, 0, 0]
  regs offset := if offset = aleVlanMaskMux 0 ∨ offset = aleVlanMaskMux 1 then 6 else 0
  p0UntagVidMask _ := false
  timer := false

theorem othersAgree_twoVlans (regIdx' unregIdx' : ℕ) {regMask unregMask : U32}
    (hreg : portBits nuSwitch regMask = 6) (hunreg : portBits nuSwitch unregMask = 6) :
    OthersAgree nuSwitch twoVlans 2 regIdx' unregIdx' regMask unregMask := by
  have hall : (twoVlans.table.all fun e => vlanKey e = none ∨ vlanKey e = some 2 ∨
      ∀ idx ∈ [regIdx nuSwitch e, unregIdx nuSwitch e],
        portBits nuSwitch (twoVlans.regs (aleVlanMaskMux idx)) = 6) = true := by decide +kernel
  have hheld : ∀ e ∈ twoVlans.table, vlanKey e = none ∨ vlanKey e = some 2 ∨
      ∀ idx ∈ [regIdx nuSwitch e, unregIdx nuSwitch e],
        portBits nuSwitch (twoVlans.regs (aleVlanMaskMux idx)) = 6 :=
    fun e he => of_decide_eq_true (List.all_eq_true.mp hall e he)
  intro v e hv hl idx hidx
  have hkey : vlanKey e = some v := by simpa using List.find?_some hl
  have hmasks : portBits nuSwitch (twoVlans.regs (aleVlanMaskMux idx)) = 6 := by
    rcases hheld e (List.mem_of_find?_eq_some hl) with hnone | htwo | hmasks
    · rw [hkey] at hnone
      cases hnone
    · rw [hkey] at htwo
      exact absurd (Option.some.inj htwo) hv
    · exact hmasks idx (by simpa using hidx)
  exact ⟨fun _ => hmasks.trans hunreg.symm, fun _ _ => hmasks.trans hreg.symm⟩

/-- A port joins the second VLAN anew, or the host leaves it. -/
theorem nu_masks_of_two_vlans : masksInForce nuSwitch twoVlans 1 = some ⟨6, 6⟩ ∧
    SetsMasks nuSwitch twoVlans 2 ((oldMasks nuSwitch twoVlans 2).addPorts nuSwitch 2 2 2)
      (cpswAleVlanAddModify nuSwitch twoVlans 2 2 0 2 2).1 ∧
    masksInForce nuSwitch (cpswAleVlanDelModify nuSwitch twoVlans 2 1).1 2 =
      some ((oldMasks nuSwitch twoVlans 2).within 6) ∧
    ∀ v, v ≠ 2 → masksInForce nuSwitch (cpswAleVlanDelModify nuSwitch twoVlans 2 1).1 v =
      masksInForce nuSwitch twoVlans v := by
  have hvid : (2 : U16).toNat < vlanNVid := by decide
  have hnu : nuSwitch.nuSwitchAle = true := rfl
  obtain ⟨hjoins, -⟩ := nu_masks_iff hnu hvid twoVlans 2 0 2 2
  obtain ⟨-, hleaves⟩ := nu_masks_iff hnu hvid twoVlans 1 0 0 0
  have hjoined : Agrees nuSwitch twoVlans 2 (regIdx nuSwitch (vlanEntryOf twoVlans 2))
      nuVlanUnregMcastIdx.toNat (oldMasks nuSwitch twoVlans 2) 2 2 2 := by
    refine ⟨?_, by decide +kernel, othersAgree_twoVlans _ _ (by decide) (by decide)⟩
    rw [if_neg (by decide +kernel)]
    decide +kernel
  have hleft : membersLeft nuSwitch (vlanEntryOf twoVlans 2) 1 = 6 := by decide +kernel
  have hgone : Agrees nuSwitch twoVlans 2 (regIdx nuSwitch (vlanEntryOf twoVlans 2))
      (unregIdx nuSwitch (vlanEntryOf twoVlans 2)) (oldMasks nuSwitch twoVlans 2)
      (~~~membersLeft nuSwitch (vlanEntryOf twoVlans 2) 1) 0 0 := by
    rw [hleft]
    refine ⟨?_, by decide +kernel, othersAgree_twoVlans _ _ (by decide) (by decide)⟩
    rw [if_neg (by decide +kernel)]
    decide +kernel
  obtain ⟨hself, hother⟩ := hleaves.mpr (fun _ => hgone) (by decide +kernel)
  rw [hleft] at hself
  exact ⟨by decide +kernel, hjoins.mpr (fun _ => hjoined) (by decide +kernel), hself (by decide),
    hother⟩

/-- Port 1 joins the first VLAN, and port 2 is in the masks. -/
theorem nu_masks_take_error : ¬ ∀ (params : AleParams) (ale : CpswAle) (vid : U16)
    (portMask untagMask regMask unregMask : U32), params.nuSwitchAle = true →
    vid.toNat < vlanNVid →
    (cpswAleVlanAddModify params ale vid portMask untagMask regMask unregMask).2 = 0 →
    SetsMasks params ale vid ((oldMasks params ale vid).addPorts params portMask regMask unregMask)
      (cpswAleVlanAddModify params ale vid portMask untagMask regMask unregMask).1 := by
  intro h
  have hself := (h nuSwitch (emptyAle 4) 1 2 0 2 2 rfl (by decide) (by decide +kernel)).self
  revert hself
  decide +kernel

end CpswDriver.Ale
