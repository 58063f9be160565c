import CpswDriver.Ale.VlanEntry

/-!
The fields of a VLAN entry, one by one. A field that is written leaves the others,
the type and the VLAN id as they were. It also gives back what was written, cut to
its width, but for one: the force-untagged mask has a bit for each port and begins
eight bits below the end of its word, and the accessors know one word alone.
-/

namespace CpswDriver.Ale

variable {params : AleParams} {e : AleEntry} {f g : VlanFld} {v : U32}

/-- A field across the end of its word loses the bits beyond it. -/
theorem getLsbD_getField_setField {start bits : ℕ} (hb : bits < 32) (e : AleEntry) (v : U32)
    (i : ℕ) : (cpswAleGetField (cpswAleSetField e start bits v) start bits).getLsbD i =
      (v.getLsbD i && decide (i < bits) && decide (start % 32 + i < 32)) := by
  unfold cpswAleGetField cpswAleSetField
  rw [Function.update_self, BitField.getLsbD_get hb]
  by_cases hin : start % 32 + i < 32
  · rw [BitField.getLsbD_put hb _ _ hin]
    by_cases hi : i < bits
    · rw [if_pos (by omega), Nat.add_sub_cancel_left]
      simp [hi, hin]
    · simp [hi]
  · rw [BitVec.getLsbD_of_ge _ _ (by omega)]
    simp [hin]

/-- Two fields of one table share no bit. -/
theorem fld_apart (hf : (params.vlanEntryTbl f).allowed = true)
    (hg : (params.vlanEntryTbl g).allowed = true) (hne : g ≠ f) :
    Apart (params.vlanEntryTbl f).startBit (fldBits params (params.vlanEntryTbl f))
      (params.vlanEntryTbl g).startBit (fldBits params (params.vlanEntryTbl g)) := by
  have hports : params.portMaskBits ≤ 12 := params.alePorts_le
  unfold fldBits Apart
  rcases params.dev_cases with ⟨-, htbl⟩ | ⟨-, htbl | htbl⟩ <;> rw [htbl] at hf hg ⊢ <;>
    cases f <;> cases g <;>
    simp [vlanEntryNu, vlanEntryCpsw, vlanEntryK3Cpswxg, aleEntryFld, aleEntryFldDynMskSize]
      at hf hg hne ⊢ <;>
    omega

/-- What a write to a field of an entry is for. -/
structure StoresFld (params : AleParams) (e : AleEntry) (f : VlanFld) (v : U32) : Prop where
  self : cpswAleVlanGetFld params (cpswAleVlanSetFld params e f v) f =
    v &&& BitField.bitMask 32 (fldBits params (params.vlanEntryTbl f))
  other : ∀ g, g ≠ f → (params.vlanEntryTbl g).allowed = true →
    cpswAleVlanGetFld params (cpswAleVlanSetFld params e f v) g = cpswAleVlanGetFld params e g
  entryType : cpswAleGetEntryType (cpswAleVlanSetFld params e f v) = cpswAleGetEntryType e
  vlanId : cpswAleGetVlanId (cpswAleVlanSetFld params e f v) = cpswAleGetVlanId e

/-- The force-untagged mask of a table with a bit for each port is given no port that
the rest of its word has no bit for. -/
def WithinWord (params : AleParams) (f : VlanFld) (v : U32) : Prop :=
  (f = .forceUntaggedMsk ∧ (params.vlanEntryTbl f).sizePortMaskBits = true) →
    ∀ i, 8 ≤ i → i < params.alePorts → v.getLsbD i = false

theorem other_vlanSetFld (hf : (params.vlanEntryTbl f).allowed = true)
    (hg : (params.vlanEntryTbl g).allowed = true) (hne : g ≠ f) (v : U32) :
    cpswAleVlanGetFld params (cpswAleVlanSetFld params e f v) g = cpswAleVlanGetFld params e g := by
  obtain ⟨hbits, hlow⟩ := fld_low hf
  obtain ⟨hbits', hlow'⟩ := fld_low hg
  unfold cpswAleVlanGetFld cpswAleVlanSetFld
  simp only [hf, hg, Bool.not_true, Bool.false_eq_true, if_false]
  exact getField_setField_of_apart (by omega) (by omega) (by omega) (by omega)
    (fld_apart hf hg hne) e v

/-- The bits of a field that lie beyond its word. -/
theorem beyond_word_iff (hf : (params.vlanEntryTbl f).allowed = true) (i : ℕ) :
    i < fldBits params (params.vlanEntryTbl f) ∧
      32 ≤ (params.vlanEntryTbl f).startBit % 32 + i ↔
    (f = .forceUntaggedMsk ∧ (params.vlanEntryTbl f).sizePortMaskBits = true) ∧
      8 ≤ i ∧ i < params.alePorts := by
  have hports : params.portMaskBits ≤ 12 := params.alePorts_le
  have hbits : params.alePorts = params.portMaskBits := rfl
  rw [hbits]
  unfold fldBits
  rcases params.dev_cases with ⟨-, htbl⟩ | ⟨-, htbl | htbl⟩ <;> rw [htbl] at hf ⊢ <;>
    cases f <;>
    simp [vlanEntryNu, vlanEntryCpsw, vlanEntryK3Cpswxg, aleEntryFld, aleEntryFldDynMskSize]
      at hf ⊢ <;>
    omega

theorem self_vlanSetFld_iff (hf : (params.vlanEntryTbl f).allowed = true) (e : AleEntry)
    (v : U32) : cpswAleVlanGetFld params (cpswAleVlanSetFld params e f v) f =
      v &&& BitField.bitMask 32 (fldBits params (params.vlanEntryTbl f)) ↔
    WithinWord params f v := by
  obtain ⟨hbits, -⟩ := fld_low hf
  have hread : cpswAleVlanGetFld params (cpswAleVlanSetFld params e f v) f =
      cpswAleGetField (cpswAleSetField e (params.vlanEntryTbl f).startBit
        (fldBits params (params.vlanEntryTbl f)) v) (params.vlanEntryTbl f).startBit
        (fldBits params (params.vlanEntryTbl f)) := by
    unfold cpswAleVlanGetFld cpswAleVlanSetFld
    simp only [hf, Bool.not_true, Bool.false_eq_true, if_false]
  rw [hread, BitVec.eq_of_getLsbD_eq_iff]
  simp only [getLsbD_getField_setField (show fldBits params (params.vlanEntryTbl f) < 32 by omega),
    BitVec.getLsbD_and, BitField.getLsbD_bitMask
      (show fldBits params (params.vlanEntryTbl f) < 32 by omega)]
  have hbeyond := beyond_word_iff hf
  constructor
  · intro heq huntag i hlo hi
    obtain ⟨hin, hout⟩ := (hbeyond i).mpr ⟨huntag, hlo, hi⟩
    have hbit := heq i (by omega)
    simpa [hin, show ¬ (params.vlanEntryTbl f).startBit % 32 + i < 32 by omega] using hbit.symm
  · intro hwithin i _
    by_cases hin : i < fldBits params (params.vlanEntryTbl f)
    · by_cases hword : (params.vlanEntryTbl f).startBit % 32 + i < 32
      · simp [hin, hword]
      · obtain ⟨huntag, hlo, hi⟩ := (hbeyond i).mp ⟨hin, by omega⟩
        simp [hwithin huntag i hlo hi]
    · simp [hin]

/-- A field of a VLAN entry is stored, and nothing else is, exactly when the word has room
for its value. -/
theorem storesFld_iff (e : AleEntry) (hf : (params.vlanEntryTbl f).allowed = true) (v : U32) :
    StoresFld params e f v ↔ WithinWord params f v := by
  rw [← self_vlanSetFld_iff hf e v]
  constructor
  · intro h
    exact h.self
  · intro hself
    exact ⟨hself, fun g hne hg => other_vlanSetFld hf hg hne v, getEntryType_vlanSetFld f v,
      getVlanId_vlanSetFld f v⟩

def ninePorts : AleParams where
  dev := { devId := "j721e-cpswxg", hwAutoaging := true, vlanEntryTbl := vlanEntryK3Cpswxg }
  aleAgeout := 10
  alePorts := 9
  busFreq := 125000000
  dev_mem := by simp [cpswAleIdMatch]
  alePorts_pos := by decide
  alePorts_le := by decide

/-- Eight ports are stored. -/
theorem storesFld_eight_ports : StoresFld ninePorts 0 .forceUntaggedMsk 0xff :=
  (storesFld_iff 0 rfl 0xff).mpr fun _ i hlo hi => by
    obtain rfl : i = 8 := Nat.le_antisymm (Nat.le_of_lt_succ hi) hlo
    decide

/-- The ninth is not. -/
theorem ninth_port_is_lost : ¬ StoresFld ninePorts 0 .forceUntaggedMsk 0x100 := by
  intro h
  have hlost : cpswAleVlanGetFld ninePorts (cpswAleVlanSetFld ninePorts 0 .forceUntaggedMsk 0x100)
      .forceUntaggedMsk = 0 := by decide
  have hself := hlost.symm.trans h.self
  revert hself
  decide

end CpswDriver.Ale
