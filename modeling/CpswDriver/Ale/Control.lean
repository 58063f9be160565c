import CpswDriver.Ale.Vlan

/-!
The control fields of the address lookup engine, and starting and stopping it.
A one in ALE_CLEAR empties the whole table, at once and without the driver's
code for single entries; the bit reads back as zero.
-/

namespace CpswDriver.Ale

inductive AleControl
  | enable
  | clear
  | ageout
  | p0UniFlood
  | vlanNolearn
  | noPortVlan
  | ouiDeny
  | bypass
  | rateLimitTx
  | vlanAware
  | authEnable
  | rateLimit
  | portState
  | portDropUntagged
  | portDropUnknownVlan
  | portNolearn
  | portNoSaUpdate
  | portUnknownVlanMember
  | portUnknownMcastFlood
  | portUnknownRegMcastFlood
  | portUntaggedEgress
  | portMaconly
  | portMaconlyCaf
  | portBcastLimit
  | portMcastLimit
  | defaultThreadId
  | defaultThreadEnable
  deriving DecidableEq, Repr

def aleControlReg : ℕ := 0x08
def alePrescale : ℕ := 0x10
def aleAgingTimer : ℕ := 0x14
def aleUnknownvlan : ℕ := 0x18
def alePortctl : ℕ := 0x40
def aleUnknownvlanMember : ℕ := 0x90
def aleUnknownvlanUnregMcastFlood : ℕ := 0x94
def aleUnknownvlanRegMcastFlood : ℕ := 0x98
def aleUnknownvlanForceUntagEgress : ℕ := 0x9C
def am65CpswAleThreadDefReg : ℕ := 0x134

def aleAgingTimerMask : U32 := 0x00ffffff#32
def aleRateLimitMinPps : ℕ := 1000

structure AleControlInfo where
  offset : ℕ
  portOffset : ℕ := 0
  shift : ℕ
  portShift : ℕ := 0
  bits : ℕ

/-- ale_controls, with the overrides that cpsw_ale_create makes for the NU switch. -/
def aleControls (params : AleParams) : AleControl → AleControlInfo
  | .enable => { offset := aleControlReg, shift := 31, bits := 1 }
  | .clear => { offset := aleControlReg, shift := 30, bits := 1 }
  | .ageout => { offset := aleControlReg, shift := 29, bits := 1 }
  | .p0UniFlood => { offset := aleControlReg, shift := 8, bits := 1 }
  | .vlanNolearn => { offset := aleControlReg, shift := 7, bits := 1 }
  | .noPortVlan => { offset := aleControlReg, shift := 6, bits := 1 }
  | .ouiDeny => { offset := aleControlReg, shift := 5, bits := 1 }
  | .bypass => { offset := aleControlReg, shift := 4, bits := 1 }
  | .rateLimitTx => { offset := aleControlReg, shift := 3, bits := 1 }
  | .vlanAware => { offset := aleControlReg, shift := 2, bits := 1 }
  | .authEnable => { offset := aleControlReg, shift := 1, bits := 1 }
  | .rateLimit => { offset := aleControlReg, shift := 0, bits := 1 }
  | .portState => { offset := alePortctl, portOffset := 4, shift := 0, bits := 2 }
  | .portDropUntagged => { offset := alePortctl, portOffset := 4, shift := 2, bits := 1 }
  | .portDropUnknownVlan => { offset := alePortctl, portOffset := 4, shift := 3, bits := 1 }
  | .portNolearn => { offset := alePortctl, portOffset := 4, shift := 4, bits := 1 }
  | .portNoSaUpdate => { offset := alePortctl, portOffset := 4, shift := 5, bits := 1 }
  | .portMaconly => { offset := alePortctl, portOffset := 4, shift := 11, bits := 1 }
  | .portMaconlyCaf => { offset := alePortctl, portOffset := 4, shift := 13, bits := 1 }
  | .portMcastLimit => { offset := alePortctl, portOffset := 4, shift := 16, bits := 8 }
  | .portBcastLimit => { offset := alePortctl, portOffset := 4, shift := 24, bits := 8 }
  | .portUnknownVlanMember =>
    if params.nuSwitchAle then
      { offset := aleUnknownvlanMember, shift := 0, bits := params.alePorts }
    else { offset := aleUnknownvlan, shift := 0, bits := 6 }
  | .portUnknownMcastFlood =>
    if params.nuSwitchAle then
      { offset := aleUnknownvlanUnregMcastFlood, shift := 0, bits := params.alePorts }
    else { offset := aleUnknownvlan, shift := 8, bits := 6 }
  | .portUnknownRegMcastFlood =>
    if params.nuSwitchAle then
      { offset := aleUnknownvlanRegMcastFlood, shift := 0, bits := params.alePorts }
    else { offset := aleUnknownvlan, shift := 16, bits := 6 }
  | .portUntaggedEgress =>
    if params.nuSwitchAle then
      { offset := aleUnknownvlanForceUntagEgress, shift := 0, bits := params.alePorts }
    else { offset := aleUnknownvlan, shift := 24, bits := 6 }
  | .defaultThreadId => { offset := am65CpswAleThreadDefReg, shift := 0, bits := 6 }
  | .defaultThreadEnable => { offset := am65CpswAleThreadDefReg, shift := 15, bits := 1 }

/-- The register writes of cpsw_ale_control_set for a known control. -/
def cpswAleControlSetRegs (params : AleParams) (regs : ℕ → U32) (port : ℤ) (control : AleControl)
    (value : U32) : (ℕ → U32) × ℤ :=
  let info := aleControls params control
  -- global, port is a dont care
  let port := if info.portOffset = 0 ∧ info.portShift = 0 then 0 else port
  if port < 0 ∨ (params.alePorts : ℤ) ≤ port then (regs, -einval)
  else
    let mask := BitField.bitMask 32 info.bits
    if value &&& ~~~mask ≠ 0 then (regs, -einval)
    else
      let offset := info.offset + port.toNat * info.portOffset
      let shift := info.shift + port.toNat * info.portShift
      let tmp := (regs offset &&& ~~~(mask <<< shift)) ||| (value <<< shift)
      (Function.update regs offset tmp, 0)

/-- What the hardware does with a one in ALE_CLEAR. -/
def aleClear (ale : CpswAle) : CpswAle :=
  { ale with
    table := ale.table.map fun _ => 0
    regs := Function.update ale.regs aleControlReg (ale.regs aleControlReg &&& ~~~(1#32 <<< 30)) }

def cpswAleControlSet (params : AleParams) (ale : CpswAle) (port : ℤ) (control : AleControl)
    (value : U32) : CpswAle × ℤ :=
  let (regs, ret) := cpswAleControlSetRegs params ale.regs port control value
  let ale := { ale with regs := regs }
  if testBits (regs aleControlReg) (1#32 <<< 30) then (aleClear ale, ret) else (ale, ret)

def cpswAleControlGet (params : AleParams) (ale : CpswAle) (port : ℤ) (control : AleControl) : ℤ :=
  let info := aleControls params control
  -- global, port is a dont care
  let port := if info.portOffset = 0 ∧ info.portShift = 0 then 0 else port
  if port < 0 ∨ (params.alePorts : ℤ) ≤ port then -einval
  else
    let offset := info.offset + port.toNat * info.portOffset
    let shift := info.shift + port.toNat * info.portShift
    (BitField.get (ale.regs offset) shift info.bits).toNat

def cpswAleHwAgingTimerStart (params : AleParams) (ale : CpswAle) : CpswAle :=
  let agingTimer := BitVec.ofNat 32 (params.busFreq / 1000000) * BitVec.ofNat 32 params.aleAgeout
  let agingTimer :=
    if testBits agingTimer (~~~aleAgingTimerMask) then aleAgingTimerMask else agingTimer
  ale.writel agingTimer aleAgingTimer

def cpswAleAgingStart (params : AleParams) (ale : CpswAle) : CpswAle :=
  if params.aleAgeout = 0 then ale
  else if params.dev.hwAutoaging then cpswAleHwAgingTimerStart params ale
  else { ale with timer := true }

def cpswAleAgingStop (params : AleParams) (ale : CpswAle) : CpswAle :=
  if params.aleAgeout = 0 then ale
  else if params.dev.hwAutoaging then ale.writel 0 aleAgingTimer
  else { ale with timer := false }

def cpswAleStart (params : AleParams) (ale : CpswAle) : CpswAle :=
  let ale := ale.writel (BitVec.ofNat 32 (params.busFreq / aleRateLimitMinPps)) alePrescale
  let ale := (cpswAleControlSet params ale 0 .rateLimit 1).1
  let ale := (cpswAleControlSet params ale 0 .enable 1).1
  let ale := (cpswAleControlSet params ale 0 .clear 1).1
  cpswAleAgingStart params ale

def cpswAleStop (params : AleParams) (ale : CpswAle) : CpswAle :=
  let ale := cpswAleAgingStop params ale
  let ale := (cpswAleControlSet params ale 0 .clear 1).1
  (cpswAleControlSet params ale 0 .enable 0).1

end CpswDriver.Ale
