import CpswDriver.Ale.Addr

/-!
The two slave ports of the switch and their registers. Each slave has a block of
registers, whose layout depends on the version of the hardware.
-/

namespace CpswDriver

open Ale

abbrev Port := Fin 2

/-- The slaves are ports 1 and 2 of the switch, port 0 is the host. -/
def emacPort (p : Port) : ℕ := p.val + 1

theorem emacPort_inj {p q : Port} (h : emacPort p = emacPort q) : p = q := by
  unfold emacPort at h
  exact Fin.ext (by omega)

def hostPortNum : U32 := 0
def cpswAlePortsNum : ℕ := 3

/-- The ports of the VLAN entries that a slave adds for itself. -/
def portMask (p : Port) : U32 := (1#32 <<< emacPort p) ||| alePortHost

def broadcast : MacAddr := fun _ => 0xff

/-- The versions that the driver supports. -/
inductive CpswVersion
  | v1
  | v2
  | v3
  | v4
  deriving DecidableEq, Repr

abbrev SlaveRegs := ℕ → U32

/-- cpsw->version == CPSW_VERSION_1 ? CPSW1_... : CPSW2_... -/
def regOf (version : CpswVersion) (v1 v2 : ℕ) : ℕ := if version = .v1 then v1 else v2

def txInCtl (version : CpswVersion) : ℕ := regOf version 0x08 0x10
def portVlanReg (version : CpswVersion) : ℕ := regOf version 0x0c 0x14
def txPriMapReg (version : CpswVersion) : ℕ := regOf version 0x10 0x18
def sendPercent : ℕ := 0x28

def cpswTcNum : ℕ := 4
def cpswFifoShapersNum : ℕ := cpswTcNum - 1

def cpswTcToFifo (tc numTc : ℤ) : ℤ :=
  if tc = numTc - 1 then 0 else cpswFifoShapersNum - tc

end CpswDriver
