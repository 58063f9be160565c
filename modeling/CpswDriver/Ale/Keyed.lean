import CpswDriver.Ale.VlanEntry

/-!
The invariant of the table: no two slots hold the same address and VLAN id, and
no two VLAN entries the same VLAN id. Every operation keeps it, since each one
writes either over the entry it found or an entry whose key it did not find.
-/

namespace CpswDriver.Ale

open Slots Runs

variable {params : AleParams} {ale ale' : CpswAle} {e e' old : AleEntry} {vid : U16} {i : ℕ}

structure Keyed (ale : CpswAle) : Prop where
  addr : Unique addrKey ale.table
  vlan : Unique vlanKey ale.table

/-- No slot is left for a new entry. -/
structure NoRoom (ale : CpswAle) : Prop where
  free : ∀ e ∈ ale.table, isFree e = false
  ageable : ∀ e ∈ ale.table, isAgeable e = false

theorem Keyed.congr (h : Keyed ale) (ht : ale'.table = ale.table) : Keyed ale' := by
  obtain ⟨haddr, hvlan⟩ := h
  rw [← ht] at haddr hvlan
  exact ⟨haddr, hvlan⟩

theorem Keyed.write (h : Keyed ale) (ha : Fresh addrKey ale.table i e')
    (hv : Fresh vlanKey ale.table i e') : Keyed (cpswAleWrite ale i e') :=
  ⟨h.addr.set ha, h.vlan.set hv⟩

section Store

variable {κ : Type*} [DecidableEq κ] {key : AleEntry → Option κ} {k : κ}

/-- An add writes to the slot that the table offers for the key. -/
theorem cpswAleStore_eq (ale : CpswAle) (e' : AleEntry) :
    cpswAleStore ale (slotOf key ale.table k) e' =
      match place key isFree isAgeable ale.table k with
      | none => (ale, -enomem)
      | some i => (cpswAleWrite ale i e', 0) := by
  have hplace : ((slotOf key ale.table k).or (cpswAleMatchFree ale)).or (cpswAleFindAgeable ale) =
      place key isFree isAgeable ale.table k := Option.or_assoc
  exact congrArg (fun idx => match idx with
    | none => (ale, -enomem)
    | some i => (cpswAleWrite ale i e', 0)) hplace

theorem cpswAleStore_cases (key : AleEntry → Option κ) (k : κ) (ale : CpswAle) (e' : AleEntry) :
    (place key isFree isAgeable ale.table k = none ∧
      cpswAleStore ale (slotOf key ale.table k) e' = (ale, -enomem)) ∨
    ∃ i, place key isFree isAgeable ale.table k = some i ∧
      cpswAleStore ale (slotOf key ale.table k) e' = (cpswAleWrite ale i e', 0) := by
  rw [cpswAleStore_eq]
  cases place key isFree isAgeable ale.table k with
  | none => exact .inl ⟨rfl, rfl⟩
  | some i => exact .inr ⟨i, rfl, rfl⟩

/-- The slot for a key is fresh for an entry with that key. -/
theorem fresh_of_place (h : Unique key ale.table) (hk : key e' = some k)
    (hplace : place key isFree isAgeable ale.table k = some i) : Fresh key ale.table i e' := by
  obtain ⟨old, hi, hold⟩ := place_eq_some hplace
  exact h.fresh hi hk (hold.imp_right And.left)

end Store

theorem Keyed.storeAddr (h : Keyed ale) {k : MacAddr × U32} (hk : addrKey e' = some k)
    (hv : vlanKey e' = none) : Keyed (cpswAleStore ale (slotOf addrKey ale.table k) e').1 := by
  rcases cpswAleStore_cases addrKey k ale e' with ⟨-, heq⟩ | ⟨i, hplace, heq⟩
  · rw [heq]
    exact h
  · rw [heq]
    exact h.write (fresh_of_place h.addr hk hplace) (fresh_of_none hv)

theorem Keyed.storeVlan (h : Keyed ale) {k : U32} (hk : vlanKey e' = some k)
    (ha : addrKey e' = none) : Keyed (cpswAleStore ale (slotOf vlanKey ale.table k) e').1 := by
  rcases cpswAleStore_cases vlanKey k ale e' with ⟨-, heq⟩ | ⟨i, hplace, heq⟩
  · rw [heq]
    exact h
  · rw [heq]
    exact h.write (fresh_of_none ha) (fresh_of_place h.vlan hk hplace)

theorem vlanKey_of_addrKey {k : MacAddr × U32} (h : addrKey e = some k) : vlanKey e = none := by
  unfold addrKey at h
  split at h
  · exact vlanKey_of_addr ‹_›
  · cases h

theorem addrKey_of_vlanKey {v : U32} (h : vlanKey e = some v) : addrKey e = none :=
  addrKey_of_vlan (getEntryType_of_vlanKey h)

theorem not_addr_of_vlanKey {v : U32} (h : vlanKey e = some v) :
    isAddrType (cpswAleGetEntryType e) = false := by
  rw [getEntryType_of_vlanKey h]
  rfl

theorem not_addr_of_free (h : isFree e = true) : isAddrType (cpswAleGetEntryType e) = false := by
  have htype : cpswAleGetEntryType e = aleTypeFree := by simpa [isFree] using h
  rw [htype]
  rfl

/-- A write over an address entry that keeps its key or drops it. -/
theorem Keyed.writeAddr (h : Keyed ale) (hi : ale.table[i]? = some old)
    (hk : addrKey e' = addrKey old ∨ addrKey e' = none) (hv : vlanKey e' = none) :
    Keyed (cpswAleWrite ale i e') :=
  h.write (h.addr.fresh_of_keeps hi hk) (fresh_of_none hv)

theorem Keyed.writeVlan (h : Keyed ale) (hi : ale.table[i]? = some old)
    (hk : vlanKey e' = vlanKey old ∨ vlanKey e' = none) (ha : addrKey e' = none) :
    Keyed (cpswAleWrite ale i e') :=
  h.write (fresh_of_none ha) (h.vlan.fresh_of_keeps hi hk)

theorem Keyed.map (h : Keyed ale) {f : AleEntry → AleEntry}
    (ha : ∀ e, addrKey (f e) = addrKey e ∨ addrKey (f e) = none)
    (hv : ∀ e, vlanKey (f e) = vlanKey e ∨ vlanKey (f e) = none) :
    Keyed { ale with table := ale.table.map f } :=
  ⟨h.addr.map ha, h.vlan.map hv⟩

theorem cpswAleRead_eq (hi : ale.table[i]? = some e) : cpswAleRead ale i = e := by
  unfold cpswAleRead
  rw [List.getD_eq_getElem?_getD, hi]
  rfl

/-- The slot that a search found, as the driver then reads it. -/
theorem read_of_slotOf {κ : Type*} [DecidableEq κ] {key : AleEntry → Option κ} {k : κ}
    (h : slotOf key ale.table k = some i) :
    ale.table[i]? = some (cpswAleRead ale i) ∧ key (cpswAleRead ale i) = some k := by
  obtain ⟨e, hi, hk⟩ := slotOf_eq_some h
  rw [cpswAleRead_eq hi]
  exact ⟨hi, hk⟩

theorem matchAddr_some {addr : MacAddr} (h : cpswAleMatchAddr ale addr vid = some i) :
    ale.table[i]? = some (cpswAleRead ale i) ∧
      addrKey (cpswAleRead ale i) = some (addr, vid.setWidth 32) := by
  rw [cpswAleMatchAddr_eq] at h
  exact read_of_slotOf h

theorem matchVlan_some (h : cpswAleMatchVlan ale vid = some i) :
    ale.table[i]? = some (cpswAleRead ale i) ∧
      vlanKey (cpswAleRead ale i) = some (vid.setWidth 32) := by
  rw [cpswAleMatchVlan_eq] at h
  exact read_of_slotOf h

theorem getVlanId_of_addrKey {addr : MacAddr} {v : U32} (h : addrKey e = some (addr, v)) :
    cpswAleGetVlanId e = v ∧ cpswAleGetAddr e = addr := by
  unfold addrKey at h
  split at h
  · have hpair := Option.some.inj h
    exact ⟨congrArg Prod.snd hpair, congrArg Prod.fst hpair⟩
  · cases h

/-- The entry that an mcast add starts from has no VLAN id unless the add is for one. -/
theorem readOrZero_vid {addr : MacAddr} {flags : U32} (hflag : testBits flags aleVlan = false) :
    cpswAleGetVlanId (readOrZero ale (cpswAleMatchAddr ale addr (flagsVid flags vid))) = 0 := by
  cases hm : cpswAleMatchAddr ale addr (flagsVid flags vid) with
  | none => exact getField_zero 48 12
  | some i =>
    have hkey := (getVlanId_of_addrKey (matchAddr_some hm).2).1
    simpa [readOrZero, flagsVid, hflag] using hkey

theorem addrKey_addMcast (params : AleParams) (ale : CpswAle) (addr : MacAddr)
    (portMask flags mcastState : U32) (hvid : vid.toNat < vlanNVid) :
    addrKey (mcastEntry params (readOrZero ale (cpswAleMatchAddr ale addr (flagsVid flags vid)))
      addr portMask flags vid mcastState) = some (addr, (flagsVid flags vid).setWidth 32) :=
  addrKey_mcastEntry params addr portMask flags mcastState hvid readOrZero_vid

theorem Keyed.addUcast (h : Keyed ale) (addr : MacAddr) (port flags : U32)
    (hvid : vid.toNat < vlanNVid) : Keyed (cpswAleAddUcast params ale addr port flags vid).1 := by
  have hkey := addrKey_ucastEntry params addr port flags hvid
  unfold cpswAleAddUcast
  rw [cpswAleMatchAddr_eq]
  exact h.storeAddr hkey (vlanKey_of_addrKey hkey)

theorem Keyed.delUcast (h : Keyed ale) (addr : MacAddr) (port flags : U32) (vid : U16) :
    Keyed (cpswAleDelUcast ale addr port flags vid).1 := by
  unfold cpswAleDelUcast
  split
  · exact h
  · rename_i hm
    have hfree := isFree_setEntryType 0
    exact h.writeAddr (matchAddr_some hm).1 (.inr (addrKey_of_free hfree)) (vlanKey_of_free hfree)

theorem Keyed.addMcast (h : Keyed ale) (addr : MacAddr) (portMask flags mcastState : U32)
    (hvid : vid.toNat < vlanNVid) :
    Keyed (cpswAleAddMcast params ale addr portMask flags vid mcastState).1 := by
  have hkey := addrKey_addMcast params ale addr portMask flags mcastState hvid
  unfold cpswAleAddMcast
  dsimp only
  rw [cpswAleMatchAddr_eq] at hkey ⊢
  exact h.storeAddr hkey (vlanKey_of_addrKey hkey)

theorem vlanKey_setPortMask (params : AleParams) (e : AleEntry) (v : U32) :
    vlanKey (cpswAleSetPortMask e v params.portMaskBits) = vlanKey e := by
  have hports : params.portMaskBits ≤ 12 := params.alePorts_le
  have hfield : ∀ start bits, 48 ≤ start → start < 64 → bits < 32 →
      cpswAleGetField (cpswAleSetPortMask e v params.portMaskBits) start bits =
        cpswAleGetField e start bits := fun start bits hlo hup hb =>
    getField_setField_of_apart (by decide) (by omega) (by omega) hb (.inl (by omega)) _ _
  have htype : cpswAleGetEntryType (cpswAleSetPortMask e v params.portMaskBits) =
      cpswAleGetEntryType e := hfield 60 2 (by decide) (by decide) (by decide)
  have hid : cpswAleGetVlanId (cpswAleSetPortMask e v params.portMaskBits) =
      cpswAleGetVlanId e := hfield 48 12 (by decide) (by decide) (by decide)
  unfold vlanKey
  rw [htype, hid]

theorem vlanKey_delMcastEntry (hv : vlanKey e = none) (portMask : U32) :
    vlanKey (delMcastEntry params e portMask) = none := by
  unfold delMcastEntry
  dsimp only
  generalize (if portMask ≠ 0 then _ else _) = mcastMembers
  split
  · rw [vlanKey_setPortMask, hv]
  · exact vlanKey_of_free (isFree_setEntryType e)

theorem Keyed.delMcast (h : Keyed ale) (addr : MacAddr) (portMask flags : U32) (vid : U16) :
    Keyed (cpswAleDelMcast params ale addr portMask flags vid).1 := by
  unfold cpswAleDelMcast
  split
  · exact h
  · rename_i hm
    obtain ⟨hi, hkey⟩ := matchAddr_some hm
    exact h.writeAddr hi (addrKey_delMcastEntry _ _ _)
      (vlanKey_delMcastEntry (vlanKey_of_addrKey hkey) portMask)

theorem vlanKey_flushEntry (params : AleParams) (portMask vid : U32) (e : AleEntry) :
    vlanKey (flushEntry params portMask vid e) = vlanKey e := by
  rcases flushEntry_cases params portMask vid e with heq | ⟨htype, ⟨v, heq⟩ | heq⟩
  · rw [heq]
  · rw [heq, vlanKey_setPortMask]
  · rw [heq, vlanKey_of_addr htype, vlanKey_of_free (isFree_setEntryType e)]

theorem Keyed.flushMulticast (h : Keyed ale) (portMask vid : U32) :
    Keyed (cpswAleFlushMulticast params ale portMask vid).1 :=
  h.map (addrKey_flushEntry params portMask vid) fun e =>
    .inl (vlanKey_flushEntry params portMask vid e)

theorem Keyed.editVlan (h : Keyed ale) (hm : cpswAleMatchVlan ale vid = some i)
    {r : CpswAle × AleEntry} (hr : VlanEdit params ale vid r) : Keyed (cpswAleWrite r.1 i r.2) := by
  obtain ⟨hi, hkey⟩ := matchVlan_some hm
  have h' : Keyed r.1 := h.congr hr.table
  rw [← hr.table] at hi
  rcases hr.entry with hfree | hsame
  · exact h'.writeVlan hi (.inr (vlanKey_of_free hfree)) (addrKey_of_free hfree)
  · exact h'.writeVlan hi (.inl (hsame.trans hkey.symm)) (addrKey_of_vlanKey hsame)

theorem Keyed.addVlan (h : Keyed ale) (hvid : vid.toNat < vlanNVid)
    (portMask untag regMcast unregMcast : U32) :
    Keyed (cpswAleAddVlan params ale vid portMask untag regMcast unregMcast).1 := by
  unfold cpswAleAddVlan
  dsimp only
  generalize readOrZero ale (cpswAleMatchVlan ale vid) = e
  have hkey : vlanKey (addVlanEntry params ale e vid portMask untag regMcast unregMcast).2 = _ :=
    addVlanEntry_key hvid portMask untag regMcast unregMcast
  have hedit : VlanEdit params ale vid
      (addVlanEntry params ale e vid portMask untag regMcast unregMcast) :=
    addVlanEntry_edit hvid portMask untag regMcast unregMcast
  rw [cpswAleMatchVlan_eq, ← hedit.table]
  exact (h.congr hedit.table).storeVlan hkey (addrKey_of_vlanKey hkey)

theorem Keyed.vlanDelModify (h : Keyed ale) (vid : U16) (portMask : U32) :
    Keyed (cpswAleVlanDelModify params ale vid portMask).1 := by
  unfold cpswAleVlanDelModify
  split
  · exact h
  · rename_i hm
    exact h.editVlan hm (delModifyInt_edit (matchVlan_some hm).2 portMask)

theorem Keyed.delVlan (h : Keyed ale) (vid : U16) (portMask : U32) :
    Keyed (cpswAleDelVlan params ale vid portMask).1 := by
  unfold cpswAleDelVlan
  split
  · exact h
  · rename_i hm
    exact h.editVlan hm (delVlanEntry_edit (matchVlan_some hm).2 portMask)

theorem Keyed.setUnregMcast (h : Keyed ale) (unregMcastMask : U32) (add : Bool) :
    Keyed (cpswAleSetUnregMcast params ale unregMcastMask add) :=
  h.map (fun _ => .inl (unregMcastEntry_keeps unregMcastMask add).1)
    fun _ => .inl (unregMcastEntry_keeps unregMcastMask add).2.1

theorem allmultiApplies_vlan {port : ℤ} (h : allmultiApplies params port e = true) :
    cpswAleGetEntryType e = aleTypeVlan := by
  simp only [allmultiApplies, Bool.and_eq_true, beq_iff_eq] at h
  exact h.1

theorem Keyed.setAllmulti (h : Keyed ale) (allmulti : Bool) (port : ℤ) :
    Keyed (cpswAleSetAllmulti params ale allmulti port) := by
  unfold cpswAleSetAllmulti
  split
  · refine h.map (fun e => ?_) fun e => ?_
    · split
      · rename_i happlies
        exact .inl (allmultiEntry_keeps allmulti (allmultiApplies_vlan happlies)).1
      · exact .inl rfl
    · split
      · rename_i happlies
        exact .inl (allmultiEntry_keeps allmulti (allmultiApplies_vlan happlies)).2.1
      · exact .inl rfl
  · exact h.congr rfl

theorem isFree_zero : isFree 0 = true := by decide

theorem keyed_of_free (h : ∀ e ∈ ale.table, isFree e = true) : Keyed ale := by
  refine ⟨?_, ?_⟩
  · intro a b f f' k ha hb hf hf'
    rw [addrKey_of_free (h f (List.mem_of_getElem? ha))] at hf
    cases hf
  · intro a b f f' k ha hb hf hf'
    rw [vlanKey_of_free (h f (List.mem_of_getElem? ha))] at hf
    cases hf

theorem free_emptyAle (n : ℕ) : ∀ e ∈ (emptyAle n).table, isFree e = true := by
  intro e he
  rw [List.eq_of_mem_replicate he]
  exact isFree_zero

/-- A control either leaves the table alone or empties it. -/
theorem cpswAleControlSet_table (params : AleParams) (ale : CpswAle) (port : ℤ)
    (control : AleControl) (value : U32) :
    ((cpswAleControlSet params ale port control value).1.table = ale.table ∨
      (cpswAleControlSet params ale port control value).1.table = ale.table.map fun _ => 0) ∧
    (cpswAleControlSet params ale port control value).1.p0UntagVidMask = ale.p0UntagVidMask := by
  unfold cpswAleControlSet
  dsimp only
  split
  · exact ⟨.inr rfl, rfl⟩
  · exact ⟨.inl rfl, rfl⟩

/-- ALE_CLEAR empties the table. -/
theorem cpswAleControlSet_clear (params : AleParams) (ale : CpswAle) :
    (cpswAleControlSet params ale 0 .clear 1).1.table = ale.table.map fun _ => 0 := by
  have hports := params.alePorts_pos
  have hbit : ∀ v : U32, testBits ((v &&& ~~~(BitField.bitMask 32 1 <<< 30)) ||| (1#32 <<< 30))
      (1#32 <<< 30) = true := by
    intro v
    have hself : ((v &&& ~~~(BitField.bitMask 32 1 <<< 30)) ||| (1#32 <<< 30)) &&& (1#32 <<< 30) =
        1#32 <<< 30 := by
      apply BitVec.eq_of_getLsbD_eq
      intro i hi
      simp only [BitVec.getLsbD_and, BitVec.getLsbD_or]
      cases (1#32 <<< 30).getLsbD i <;> simp
    unfold testBits
    rw [hself]
    decide
  have hvalue : (1#32 &&& ~~~BitField.bitMask 32 1) = 0 := by decide
  have hregs : cpswAleControlSetRegs params ale.regs 0 .clear 1 = (Function.update ale.regs
      aleControlReg ((ale.regs aleControlReg &&& ~~~(BitField.bitMask 32 1 <<< 30)) |||
        (1#32 <<< 30)), 0) := by
    have hport : ¬ ((0 : ℤ) < 0 ∨ (params.alePorts : ℤ) ≤ 0) := by omega
    unfold cpswAleControlSetRegs
    simp only [aleControls, and_self, if_true]
    rw [if_neg hport, if_neg (by rw [not_not]; exact hvalue)]
    rfl
  unfold cpswAleControlSet
  rw [hregs]
  dsimp only
  rw [Function.update_self, if_pos (hbit _)]
  rfl

theorem cpswAleAgingStart_table (params : AleParams) (ale : CpswAle) :
    (cpswAleAgingStart params ale).table = ale.table ∧
      (cpswAleAgingStart params ale).p0UntagVidMask = ale.p0UntagVidMask := by
  unfold cpswAleAgingStart
  split
  · exact ⟨rfl, rfl⟩
  split <;> exact ⟨rfl, rfl⟩

theorem cpswAleAgingStop_table (params : AleParams) (ale : CpswAle) :
    (cpswAleAgingStop params ale).p0UntagVidMask = ale.p0UntagVidMask := by
  unfold cpswAleAgingStop
  split
  · rfl
  split <;> rfl

theorem free_of_clear (l : List AleEntry) : ∀ e ∈ l.map fun _ => (0 : AleEntry),
    isFree e = true := by
  intro e he
  obtain ⟨-, -, rfl⟩ := List.mem_map.mp he
  exact isFree_zero

theorem cpswAleStart_clears (params : AleParams) (ale : CpswAle) :
    (∀ e ∈ (cpswAleStart params ale).table, isFree e = true) ∧
      (cpswAleStart params ale).p0UntagVidMask = ale.p0UntagVidMask := by
  unfold cpswAleStart
  dsimp only
  rw [(cpswAleAgingStart_table _ _).1, (cpswAleAgingStart_table _ _).2, cpswAleControlSet_clear,
    (cpswAleControlSet_table _ _ _ _ _).2, (cpswAleControlSet_table _ _ _ _ _).2,
    (cpswAleControlSet_table _ _ _ _ _).2]
  exact ⟨free_of_clear _, rfl⟩

theorem cpswAleStop_clears (params : AleParams) (ale : CpswAle) :
    (∀ e ∈ (cpswAleStop params ale).table, isFree e = true) ∧
      (cpswAleStop params ale).p0UntagVidMask = ale.p0UntagVidMask := by
  unfold cpswAleStop
  dsimp only
  rw [(cpswAleControlSet_table _ _ _ _ _).2, (cpswAleControlSet_table _ _ _ _ _).2,
    cpswAleAgingStop_table]
  refine ⟨?_, rfl⟩
  rcases (cpswAleControlSet_table params (cpswAleControlSet params (cpswAleAgingStop params ale) 0
      .clear 1).1 0 .enable 0).1 with heq | heq
  · rw [heq, cpswAleControlSet_clear]
    exact free_of_clear _
  · rw [heq]
    exact free_of_clear _

/-- What the hardware may write, and over what. -/
theorem Keyed.hardwareMay_cases (h : Keyed ale) (hmay : hardwareMay ale i e' = true) :
    ∃ old, ale.table[i]? = some old ∧ (isFree old = true ∨ isAgeable old = true) ∧
      (isFree e' = true ∨ isAgeable e' = true) ∧ Fresh addrKey ale.table i e' := by
  unfold hardwareMay at hmay
  split at hmay
  · cases hmay
  rename_i old hi
  simp only [Bool.and_eq_true, Bool.or_eq_true, beq_iff_eq] at hmay
  obtain ⟨hold, hfree | ⟨hage, hkey⟩⟩ := hmay
  · exact ⟨old, hi, hold, .inl hfree, fresh_of_none (addrKey_of_free hfree)⟩
  refine ⟨old, hi, hold, .inr hage, ?_⟩
  rcases hkey with hsame | hnew
  · exact h.addr.fresh_of_keeps hi (.inl hsame)
  · cases hk : addrKey e' with
    | none => exact fresh_of_none hk
    | some k =>
      rw [hk] at hnew
      exact h.addr.fresh hi hk (.inr (by simpa using hnew))

/-- The hardware leaves the VLAN entries alone. -/
theorem vlanKey_of_hardware (h : isFree e = true ∨ isAgeable e = true) : vlanKey e = none :=
  h.elim vlanKey_of_free vlanKey_of_ageable

theorem Keyed.hardware (h : Keyed ale) (hmay : hardwareMay ale i e' = true) :
    Keyed (cpswAleWrite ale i e') := by
  obtain ⟨old, -, -, hnew, hfresh⟩ := h.hardwareMay_cases hmay
  exact h.write hfresh (fresh_of_none (vlanKey_of_hardware hnew))

theorem Keyed.step (h : Keyed ale) {op : Op} (hop : WellFormed op)
    (hst : Ale.step params ale op = some ale') : Keyed ale' := by
  cases op with
  | addUcast addr port flags vid =>
    cases hst
    exact h.addUcast addr port flags hop.2
  | delUcast addr port flags vid =>
    cases hst
    exact h.delUcast addr port flags vid
  | addMcast addr portMask flags vid mcastState =>
    cases hst
    exact h.addMcast addr portMask flags mcastState hop.2
  | delMcast addr portMask flags vid =>
    cases hst
    exact h.delMcast addr portMask flags vid
  | flushMulticast portMask vid =>
    cases hst
    exact h.flushMulticast portMask vid
  | addVlan vid portMask untag regMcast unregMcast =>
    cases hst
    exact h.addVlan hop portMask untag regMcast unregMcast
  | vlanAddModify vid portMask untagMask regMask unregMask =>
    cases hst
    exact h.addVlan hop _ _ _ _
  | vlanDelModify vid portMask =>
    cases hst
    exact h.vlanDelModify vid portMask
  | delVlan vid portMask =>
    cases hst
    exact h.delVlan vid portMask
  | setUnregMcast unregMcastMask add =>
    cases hst
    exact h.setUnregMcast unregMcastMask add
  | setAllmulti allmulti port =>
    cases hst
    exact h.setAllmulti allmulti port
  | start =>
    cases hst
    exact keyed_of_free (cpswAleStart_clears params ale).1
  | stop =>
    cases hst
    exact keyed_of_free (cpswAleStop_clears params ale).1
  | hardware idx aleEntry =>
    simp only [Ale.step] at hst
    split at hst
    · cases hst
      exact h.hardware ‹_›
    · cases hst

theorem Keyed.of_run (h : Keyed ale) {ops : List Op}
    (hrun : Run (Ale.step params) (fun _ op => WellFormed op) ale ops ale') : Keyed ale' :=
  hrun.invariant (fun _ _ _ hk hop hst => hk.step hop hst) h

end CpswDriver.Ale
