import CpswDriver.Kernel
import CpswDriver.Lib.BitField
import Mathlib.Data.BitVec
import Mathlib.Data.Fintype.Basic
import Mathlib.Tactic.FinCases

/-!
The entries of the address lookup engine's table: three words of packed
fields. Unicast, multicast and VLAN entries share the words; the masks of a
VLAN entry lie where the table of the chip's variant says.
-/

namespace CpswDriver.Ale

/-- u32 ale_entry[ALE_ENTRY_WORDS] -/
abbrev AleEntry := Fin 3 → U32

abbrev MacAddr := Fin 6 → BitVec 8

def aleTypeFree : U32 := 0
def aleTypeAddr : U32 := 1
def aleTypeVlan : U32 := 2
def aleTypeVlanAddr : U32 := 3

def aleUcastPersistant : U32 := 0
def aleUcastOui : U32 := 2

def aleSecure : U32 := 1#32 <<< 0
def aleBlocked : U32 := 1#32 <<< 1
def aleSuper : U32 := 1#32 <<< 2
def aleVlan : U32 := 1#32 <<< 3

def alePortHost : U32 := 1#32 <<< 0

/-- The word that holds the bits from `start` on; the words are stored highest first. -/
def wordOf (start : ℕ) : Fin 3 := ⟨2 - start / 32, by omega⟩

def cpswAleGetField (aleEntry : AleEntry) (start bits : ℕ) : U32 :=
  BitField.get (aleEntry (wordOf start)) (start % 32) bits

def cpswAleSetField (aleEntry : AleEntry) (start bits : ℕ) (value : U32) : AleEntry :=
  Function.update aleEntry (wordOf start)
    (BitField.put (aleEntry (wordOf start)) (start % 32) bits value)

/-- A field inside one word. -/
def Fits (start bits : ℕ) : Prop := start < 96 ∧ bits < 32 ∧ start % 32 + bits ≤ 32

/-- Two fields that share no bit of a word. -/
def Apart (start bits start' bits' : ℕ) : Prop :=
  start / 32 ≠ start' / 32 ∨ start % 32 + bits ≤ start' % 32 ∨ start' % 32 + bits' ≤ start % 32

instance (start bits : ℕ) : Decidable (Fits start bits) := by unfold Fits; infer_instance

instance (start bits start' bits' : ℕ) : Decidable (Apart start bits start' bits') := by
  unfold Apart; infer_instance

theorem getField_setField {start bits : ℕ} (h : Fits start bits) (e : AleEntry) (v : U32) :
    cpswAleGetField (cpswAleSetField e start bits v) start bits =
      v &&& BitField.bitMask 32 bits := by
  unfold cpswAleGetField cpswAleSetField
  rw [Function.update_self, BitField.get_put h.2.1 h.2.2]

theorem getField_setField_of_apart {start bits start' bits' : ℕ} (hs : start < 96)
    (hs' : start' < 96) (hb : bits < 32) (hb' : bits' < 32) (h : Apart start bits start' bits')
    (e : AleEntry) (v : U32) :
    cpswAleGetField (cpswAleSetField e start bits v) start' bits' =
      cpswAleGetField e start' bits' := by
  unfold cpswAleGetField cpswAleSetField
  by_cases hw : wordOf start' = wordOf start
  · have hword : start' / 32 = start / 32 := by
      have := congrArg Fin.val hw
      simp only [wordOf] at this
      omega
    have hdisj : start % 32 + bits ≤ start' % 32 ∨ start' % 32 + bits' ≤ start % 32 :=
      h.resolve_left fun hne => hne hword.symm
    rw [hw, Function.update_self, BitField.get_put_of_disjoint hb hb' hdisj]
  · rw [Function.update_of_ne hw]

def cpswAleGetEntryType (e : AleEntry) : U32 := cpswAleGetField e 60 2
def cpswAleSetEntryType (e : AleEntry) (value : U32) : AleEntry := cpswAleSetField e 60 2 value
def cpswAleGetVlanId (e : AleEntry) : U32 := cpswAleGetField e 48 12
def cpswAleSetVlanId (e : AleEntry) (value : U32) : AleEntry := cpswAleSetField e 48 12 value
def cpswAleGetMcastState (e : AleEntry) : U32 := cpswAleGetField e 62 2
def cpswAleSetMcastState (e : AleEntry) (value : U32) : AleEntry := cpswAleSetField e 62 2 value
def cpswAleGetPortMask (e : AleEntry) (bits : ℕ) : U32 := cpswAleGetField e 66 bits
def cpswAleSetPortMask (e : AleEntry) (value : U32) (bits : ℕ) : AleEntry :=
  cpswAleSetField e 66 bits value
def cpswAleGetSuper (e : AleEntry) : U32 := cpswAleGetField e 65 1
def cpswAleSetSuper (e : AleEntry) (value : U32) : AleEntry := cpswAleSetField e 65 1 value
def cpswAleGetUcastType (e : AleEntry) : U32 := cpswAleGetField e 62 2
def cpswAleSetUcastType (e : AleEntry) (value : U32) : AleEntry := cpswAleSetField e 62 2 value
def cpswAleGetPortNum (e : AleEntry) (bits : ℕ) : U32 := cpswAleGetField e 66 bits
def cpswAleSetPortNum (e : AleEntry) (value : U32) (bits : ℕ) : AleEntry :=
  cpswAleSetField e 66 bits value
def cpswAleGetBlocked (e : AleEntry) : U32 := cpswAleGetField e 65 1
def cpswAleSetBlocked (e : AleEntry) (value : U32) : AleEntry := cpswAleSetField e 65 1 value
def cpswAleGetSecure (e : AleEntry) : U32 := cpswAleGetField e 64 1
def cpswAleSetSecure (e : AleEntry) (value : U32) : AleEntry := cpswAleSetField e 64 1 value
def cpswAleGetMcast (e : AleEntry) : U32 := cpswAleGetField e 40 1

def cpswAleGetAddr (e : AleEntry) : MacAddr := fun i =>
  (cpswAleGetField e (40 - 8 * i.val) 8).setWidth 8

def cpswAleSetAddr (e : AleEntry) (addr : MacAddr) : AleEntry :=
  (List.finRange 6).foldl (fun e i => cpswAleSetField e (40 - 8 * i.val) 8 ((addr i).setWidth 32)) e

theorem setAddr_eq (e : AleEntry) (addr : MacAddr) : cpswAleSetAddr e addr =
    cpswAleSetField (cpswAleSetField (cpswAleSetField (cpswAleSetField (cpswAleSetField
      (cpswAleSetField e 40 8 ((addr 0).setWidth 32)) 32 8 ((addr 1).setWidth 32))
      24 8 ((addr 2).setWidth 32)) 16 8 ((addr 3).setWidth 32)) 8 8 ((addr 4).setWidth 32))
      0 8 ((addr 5).setWidth 32) := rfl

/-- Fields above the address bits do not see the address. -/
theorem getField_setAddr {start bits : ℕ} (hlo : 48 ≤ start) (hs : start < 96) (hb : bits < 32)
    (e : AleEntry) (addr : MacAddr) :
    cpswAleGetField (cpswAleSetAddr e addr) start bits = cpswAleGetField e start bits := by
  have hapart : ∀ i : Fin 6, Apart (40 - 8 * i.val) 8 start bits := by
    intro i
    unfold Apart
    omega
  have hfold : ∀ (l : List (Fin 6)) (e : AleEntry), cpswAleGetField
      (l.foldl (fun e i => cpswAleSetField e (40 - 8 * i.val) 8 ((addr i).setWidth 32)) e)
        start bits =
      cpswAleGetField e start bits := by
    intro l
    induction l with
    | nil => exact fun _ => rfl
    | cons i l ih =>
      intro e
      rw [List.foldl_cons, ih,
        getField_setField_of_apart (by omega) hs (by decide) hb (hapart i)]
  exact hfold _ e

theorem getAddr_setAddr (e : AleEntry) (addr : MacAddr) :
    cpswAleGetAddr (cpswAleSetAddr e addr) = addr := by
  have hbyte : ∀ b : BitVec 8, (b.setWidth 32 &&& BitField.bitMask 32 8).setWidth 8 = b := by
    decide
  funext i
  unfold cpswAleGetAddr
  rw [setAddr_eq]
  fin_cases i <;>
    simp (disch := decide) [getField_setField, getField_setField_of_apart, hbyte]

end CpswDriver.Ale
