import CpswDriver.Ale.Control

/-!
The control fields that each port has. They lie side by side in one register a
port, so a control that is set reads back as set and leaves every other field
of every port alone.
-/

namespace CpswDriver.Ale

variable {params : AleParams} {ale : CpswAle} {port q : ℕ} {control control' : AleControl}
  {value : U32}

/-- The controls that are in the port control registers. -/
def AleControl.isPort : AleControl → Bool
  | .portState | .portDropUntagged | .portDropUnknownVlan | .portNolearn | .portNoSaUpdate
  | .portMaconly | .portMaconlyCaf | .portMcastLimit | .portBcastLimit => true
  | _ => false

/-- The hardware is done with clearing the table. -/
def Settled (ale : CpswAle) : Prop := testBits (ale.regs aleControlReg) (1#32 <<< 30) = false

def AleControl.portBits : AleControl → ℕ × ℕ
  | .portState => (0, 2)
  | .portDropUntagged => (2, 1)
  | .portDropUnknownVlan => (3, 1)
  | .portNolearn => (4, 1)
  | .portNoSaUpdate => (5, 1)
  | .portMaconly => (11, 1)
  | .portMaconlyCaf => (13, 1)
  | .portMcastLimit => (16, 8)
  | .portBcastLimit => (24, 8)
  | _ => (0, 0)

def portField (ale : CpswAle) (port : ℕ) (control : AleControl) : U32 :=
  BitField.get (ale.regs (alePortctl + port * 4)) control.portBits.1 control.portBits.2

theorem isPort_info (h : control.isPort = true) : aleControls params control =
    ⟨alePortctl, 4, control.portBits.1, 0, control.portBits.2⟩ := by
  cases control <;> simp [AleControl.isPort] at h <;> rfl

theorem isPort_fits (control : AleControl) : control.portBits.1 + control.portBits.2 ≤ 32 ∧
    control.portBits.2 < 32 := by
  cases control <;> decide

theorem isPort_apart (h : control.isPort = true) (h' : control'.isPort = true)
    (hne : control' ≠ control) :
    control.portBits.1 + control.portBits.2 ≤ control'.portBits.1 ∨
      control'.portBits.1 + control'.portBits.2 ≤ control.portBits.1 := by
  cases control <;> simp [AleControl.isPort] at h <;>
    cases control' <;> simp [AleControl.isPort] at h' <;> simp [AleControl.portBits] at hne ⊢

/-- The outcome of setting a control of a port to a value that fits. -/
structure SetsPort (params : AleParams) (ale : CpswAle) (port : ℕ) (control : AleControl)
    (value : U32) (r : CpswAle × ℤ) : Prop where
  ret : r.2 = 0
  field : ∀ q control', control'.isPort = true → portField r.1 q control' =
    if q = port ∧ control' = control then value else portField ale q control'
  settled : Settled ale → Settled r.1 ∧ r.1.table = ale.table ∧
    r.1.p0UntagVidMask = ale.p0UntagVidMask

theorem portField_congr {ale' : CpswAle} (h : ∀ q, ale'.regs (alePortctl + q * 4) =
    ale.regs (alePortctl + q * 4)) (q : ℕ) (control : AleControl) :
    portField ale' q control = portField ale q control := by
  unfold portField
  rw [h q]

theorem alePortctl_ne (q : ℕ) : alePortctl + q * 4 ≠ aleControlReg := by
  unfold alePortctl aleControlReg
  omega

theorem controlSet_port (hc : control.isPort = true) (hport : port < params.alePorts)
    (hvalue : value.toNat < 2 ^ control.portBits.2) :
    SetsPort params ale port control value (cpswAleControlSet params ale port control value) := by
  have hinfo : aleControls params control = _ := isPort_info hc
  obtain ⟨hfit, hbits⟩ := isPort_fits control
  have hmask := BitField.and_bitMask_of_lt hbits hvalue
  have hinside : value &&& ~~~BitField.bitMask 32 control.portBits.2 = 0 := by
    rw [← hmask, BitVec.and_assoc, BitVec.and_not_self]
    exact BitVec.and_zero
  have hregs : cpswAleControlSetRegs params ale.regs port control value =
      (Function.update ale.regs (alePortctl + port * 4)
        (BitField.put (ale.regs (alePortctl + port * 4)) control.portBits.1
          control.portBits.2 value), 0) := by
    have hin : ¬ ((port : ℤ) < 0 ∨ (params.alePorts : ℤ) ≤ port) := by omega
    unfold cpswAleControlSetRegs
    dsimp only
    rw [hinfo]
    dsimp only
    rw [if_neg (by decide : ¬ ((4 : ℕ) = 0 ∧ (0 : ℕ) = 0)), if_neg hin,
      if_neg (not_not.mpr hinside)]
    simp only [Int.toNat_natCast, Nat.mul_zero, Nat.add_zero]
    unfold BitField.put
    rw [hmask]
  have hfield : ∀ q control', control'.isPort = true → BitField.get
      (Function.update ale.regs (alePortctl + port * 4)
        (BitField.put (ale.regs (alePortctl + port * 4)) control.portBits.1
          control.portBits.2 value) (alePortctl + q * 4))
      control'.portBits.1 control'.portBits.2 =
      if q = port ∧ control' = control then value else portField ale q control' := by
    intro q control' hc'
    obtain ⟨hfit', hbits'⟩ := isPort_fits control'
    by_cases hq : q = port
    · subst hq
      rw [Function.update_self]
      by_cases heq : control' = control
      · subst heq
        rw [if_pos ⟨rfl, rfl⟩, BitField.get_put hbits hfit, hmask]
      · rw [if_neg fun hcon => heq hcon.2,
          BitField.get_put_of_disjoint hbits hbits' (isPort_apart hc hc' heq)]
        rfl
    · rw [Function.update_of_ne (by omega), if_neg fun hcon => hq hcon.1]
      rfl
  unfold cpswAleControlSet
  rw [hregs]
  dsimp only
  have hcontrol : Function.update ale.regs (alePortctl + port * 4)
      (BitField.put (ale.regs (alePortctl + port * 4)) control.portBits.1
        control.portBits.2 value) aleControlReg = ale.regs aleControlReg :=
    Function.update_of_ne (alePortctl_ne port).symm _ _
  split
  · rename_i hclear
    refine ⟨rfl, fun q control' hc' => ?_, fun hsettled => ?_⟩
    · unfold portField aleClear
      dsimp only
      rw [Function.update_of_ne (alePortctl_ne q), hfield q control' hc']
      rfl
    · unfold Settled at hsettled
      rw [hcontrol, hsettled] at hclear
      cases hclear
  · refine ⟨rfl, hfield, fun hsettled => ⟨?_, rfl, rfl⟩⟩
    unfold Settled at hsettled ⊢
    rw [← hsettled]
    exact congrArg (testBits · _) hcontrol

/-- Where the control of the engine lies in its register. -/
def AleControl.engineShift : AleControl → Option ℕ
  | .enable => some 31
  | .clear => some 30
  | .ageout => some 29
  | .p0UniFlood => some 8
  | .vlanNolearn => some 7
  | .noPortVlan => some 6
  | .ouiDeny => some 5
  | .bypass => some 4
  | .rateLimitTx => some 3
  | .vlanAware => some 2
  | .authEnable => some 1
  | .rateLimit => some 0
  | _ => none

theorem engineShift_info {shift : ℕ} (h : control.engineShift = some shift) :
    aleControls params control = ⟨aleControlReg, 0, shift, 0, 1⟩ ∧ shift < 32 := by
  cases control <;> simp only [AleControl.engineShift, Option.some.injEq, reduceCtorEq] at h <;>
    subst h <;> exact ⟨rfl, by decide⟩

theorem settled_iff : Settled ale ↔ (ale.regs aleControlReg).getLsbD 30 = false := by
  have hbit : (1#32 <<< 30) = BitVec.twoPow 32 30 := by decide
  unfold Settled testBits
  rw [hbit, BitVec.and_twoPow]
  cases (ale.regs aleControlReg).getLsbD 30 <;> decide

theorem settled_controlSet (params : AleParams) (ale : CpswAle) (port : ℤ) (control : AleControl)
    (value : U32) : Settled (cpswAleControlSet params ale port control value).1 := by
  unfold cpswAleControlSet
  dsimp only
  split
  · rw [settled_iff]
    unfold aleClear
    dsimp only
    rw [Function.update_self, BitField.getLsbD_and_not_bit (by decide)]
    simp
  · rename_i hclear
    exact Bool.eq_false_of_not_eq_true hclear

theorem length_controlSet (params : AleParams) (ale : CpswAle) (port : ℤ) (control : AleControl)
    (value : U32) : (cpswAleControlSet params ale port control value).1.table.length =
      ale.table.length := by
  unfold cpswAleControlSet
  dsimp only
  split
  · exact List.length_map _
  · rfl

/-- Setting a control of the engine writes one bit of its register, or nothing. -/
theorem controlSetRegs_engine {shift : ℕ} (h : control.engineShift = some shift)
    (params : AleParams) (ale : CpswAle) (value : U32) (port : ℤ) :
    (∀ q, (cpswAleControlSetRegs params ale.regs port control value).1 (alePortctl + q * 4) =
      ale.regs (alePortctl + q * 4)) ∧
    (shift ≠ 30 → ((cpswAleControlSetRegs params ale.regs port control value).1
      aleControlReg).getLsbD 30 = (ale.regs aleControlReg).getLsbD 30) := by
  obtain ⟨hinfo, hshift⟩ : aleControls params control = _ ∧ _ := engineShift_info h
  unfold cpswAleControlSetRegs
  dsimp only
  rw [hinfo]
  dsimp only
  rw [if_pos (⟨rfl, rfl⟩ : (0 : ℕ) = 0 ∧ (0 : ℕ) = 0)]
  split
  · exact ⟨fun _ => rfl, fun _ => rfl⟩
  split
  · exact ⟨fun _ => rfl, fun _ => rfl⟩
  rename_i hvalue
  rw [not_not] at hvalue
  simp only [Int.toNat_zero, Nat.zero_mul, Nat.add_zero]
  refine ⟨fun q => Function.update_of_ne (alePortctl_ne q) _ _, fun hne => ?_⟩
  have hself : value &&& BitField.bitMask 32 1 = value := BitField.and_eq_self hvalue
  have hput : (BitField.put (ale.regs aleControlReg) shift 1 value).getLsbD 30 = _ :=
    BitField.getLsbD_put (by decide) _ _ (by decide)
  rw [if_neg (by omega)] at hput
  unfold BitField.put at hput
  rw [hself] at hput
  rw [Function.update_self]
  exact hput

/-- The controls of the engine leave those of the ports alone. -/
theorem portField_engine {shift : ℕ} (h : control.engineShift = some shift) (port : ℤ) (q : ℕ)
    (control' : AleControl) : portField (cpswAleControlSet params ale port control value).1 q
      control' = portField ale q control' := by
  obtain ⟨hports, -⟩ := controlSetRegs_engine h params ale value port
  apply portField_congr
  intro q
  unfold cpswAleControlSet
  dsimp only
  split
  · unfold aleClear
    dsimp only
    rw [Function.update_of_ne (alePortctl_ne q)]
    exact hports q
  · exact hports q

theorem controlGet_controlSet {shift : ℕ} (h : control.engineShift = some shift) (hne : shift ≠ 30)
    (hvalue : value = 0 ∨ value = 1) (port port' : ℤ) :
    cpswAleControlGet params (cpswAleControlSet params ale port control value).1 port' control =
      value.toNat := by
  obtain ⟨hinfo, hshift⟩ : aleControls params control = _ ∧ _ := engineShift_info h
  have hmask : value &&& BitField.bitMask 32 1 = value := by
    rcases hvalue with hv | hv <;> rw [hv] <;> decide
  have hfits : ¬ value &&& ~~~BitField.bitMask 32 1 ≠ 0 := by
    rcases hvalue with hv | hv <;> rw [hv] <;> decide
  have hports := params.alePorts_pos
  have hin : ¬ ((0 : ℤ) < 0 ∨ (params.alePorts : ℤ) ≤ 0) := by omega
  have hregs : (cpswAleControlSetRegs params ale.regs port control value).1 aleControlReg =
      BitField.put (ale.regs aleControlReg) shift 1 value := by
    unfold cpswAleControlSetRegs
    dsimp only
    rw [hinfo]
    dsimp only
    rw [if_pos (⟨rfl, rfl⟩ : (0 : ℕ) = 0 ∧ (0 : ℕ) = 0), if_neg hin, if_neg hfits]
    unfold BitField.put
    rw [hmask]
    simp only [Int.toNat_zero, Nat.zero_mul, Nat.add_zero]
    rw [Function.update_self]
  have hread : BitField.get (BitField.put (ale.regs aleControlReg) shift 1 value) shift 1 =
      value := by
    rw [BitField.get_put (by decide) (by omega), hmask]
  have hfield : BitField.get ((cpswAleControlSet params ale port control value).1.regs
      aleControlReg) shift 1 = value := by
    unfold cpswAleControlSet
    dsimp only
    split
    · unfold aleClear
      dsimp only
      rw [Function.update_self, BitField.get_and_not_bit (by decide) (by omega), hregs, hread]
    · dsimp only
      rw [hregs, hread]
  unfold cpswAleControlGet
  dsimp only
  rw [hinfo]
  dsimp only
  rw [if_pos (⟨rfl, rfl⟩ : (0 : ℕ) = 0 ∧ (0 : ℕ) = 0), if_neg hin]
  exact congrArg (fun v : U32 => (v.toNat : ℤ)) hfield

/-- Setting a control makes no VLAN entry, even where it clears the table. -/
theorem mem_of_controlSet {e : AleEntry} (htype : cpswAleGetEntryType e = aleTypeVlan) {port : ℤ}
    (he : e ∈ (cpswAleControlSet params ale port control value).1.table) : e ∈ ale.table := by
  unfold cpswAleControlSet at he
  dsimp only at he
  split at he
  · unfold aleClear at he
    obtain ⟨old, -, hzero⟩ := List.mem_map.mp he
    have hfree : cpswAleGetEntryType (0 : AleEntry) = 0 := by
      simp [cpswAleGetEntryType, cpswAleGetField, BitField.get]
    rw [← hzero, hfree] at htype
    cases htype
  · exact he

/-- Only ALE_CLEAR clears the table. -/
theorem table_engine {shift : ℕ} (h : control.engineShift = some shift) (hne : shift ≠ 30)
    (hsettled : Settled ale) (port : ℤ) :
    (cpswAleControlSet params ale port control value).1.table = ale.table := by
  obtain ⟨-, hbit⟩ := controlSetRegs_engine h params ale value port
  rw [settled_iff] at hsettled
  have hzero : Settled { ale with regs := (cpswAleControlSetRegs params ale.regs port control
      value).1 } := by
    rw [settled_iff]
    exact (hbit hne).trans hsettled
  unfold cpswAleControlSet
  dsimp only
  split
  · rename_i hclear
    unfold Settled at hzero
    rw [hzero] at hclear
    cases hclear
  · rfl

end CpswDriver.Ale
