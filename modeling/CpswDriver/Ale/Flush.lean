import CpswDriver.Ale.AddrMap
import CpswDriver.Lib.SlotEdits

/-!
Flushing the multicast entries of some ports. The pass over the table tests each
entry in turn; what it does to an entry that passes all tests is what deleting the
ports from its group does. So the flush is the deletions of these groups, one by one
and in any order.
-/

namespace CpswDriver.Ale

open Slots

variable {params : AleParams} {ale : CpswAle} {e : AleEntry} {portMask vid : U32} {i : ℕ}

/-- The entries that a flush is for; `vid` is -1 for all VLANs. -/
def isFlushed (params : AleParams) (portMask vid : U32) (e : AleEntry) : Bool :=
  isAddrType (cpswAleGetEntryType e) && decide (vid = -1 ∨ cpswAleGetVlanId e = vid) &&
    decide (cpswAleGetMcast e ≠ 0) && decide (cpswAleGetSuper e = 0) &&
    !isBroadcastEtherAddr (cpswAleGetAddr e) &&
    testBits (cpswAleGetPortMask e params.portMaskBits) portMask

/-- The arguments of a deletion but for the ports. -/
structure McastGroup where
  addr : MacAddr
  flags : U32
  vid : U16

def McastGroup.key (group : McastGroup) : MacAddr × U32 :=
  (group.addr, (flagsVid group.flags group.vid).setWidth 32)

/-- The ports are deleted from one group after another. -/
def delMcastGroups (params : AleParams) (portMask : U32) (ale : CpswAle)
    (groups : List McastGroup) : CpswAle :=
  groups.foldl (fun ale group =>
    (cpswAleDelMcast params ale group.addr portMask group.flags group.vid).1) ale

/-- An entry that some test stops, among tests made one by one. -/
theorem tests_eq {α : Type*} (a b c : Bool) (p q r : Prop) [Decidable p] [Decidable q] [Decidable r]
    (x y : α) :
    (if !a then x else if p then x else if q then x else if r then x else if b then x
      else if c then y else x) =
      if a && decide (¬ p) && decide (¬ q) && decide (¬ r) && !b && c then y else x := by
  cases a
  · rfl
  by_cases hp : p
  · simp [hp]
  by_cases hq : q
  · simp [hq]
  by_cases hr : r
  · simp [hr]
  cases b <;> simp [hp, hq, hr]

theorem flushEntry_eq (hmask : portMask ≠ 0) (e : AleEntry) :
    flushEntry params portMask vid e =
      if isFlushed params portMask vid e then delMcastEntry params e portMask else e := by
  have hflush : cpswAleFlushMcast params e portMask =
      if testBits (cpswAleGetPortMask e params.portMaskBits) portMask then
        delMcastEntry params e portMask else e := by
    unfold cpswAleFlushMcast delMcastEntry testBits
    dsimp only
    rw [if_pos hmask]
    by_cases hnone : cpswAleGetPortMask e params.portMaskBits &&& portMask = 0
    · simp [hnone]
    · simp
  unfold flushEntry isFlushed
  rw [hflush]
  have hvid : vid = -1 ∨ cpswAleGetVlanId e = vid ↔ ¬ (vid ≠ -1 ∧ cpswAleGetVlanId e ≠ vid) := by
    rw [not_and_or, not_not, not_not]
  rw [tests_eq, decide_eq_decide.mpr hvid,
    decide_eq_decide.mpr (not_not (a := cpswAleGetSuper e = 0))]

theorem cpswAleDelMcast_eq_edit (params : AleParams) (ale : CpswAle) (group : McastGroup)
    (portMask : U32) :
    (cpswAleDelMcast params ale group.addr portMask group.flags group.vid).1 = { ale with
      table := edit addrKey (delMcastEntry params · portMask) ale.table group.key } := by
  unfold cpswAleDelMcast edit
  rw [cpswAleMatchAddr_eq]
  unfold McastGroup.key
  cases hslot : slotOf addrKey ale.table (group.addr, (flagsVid group.flags group.vid).setWidth 32)
  · rfl
  · rename_i i
    have hi := (read_of_slotOf hslot).1
    dsimp only
    unfold cpswAleWrite
    rw [List.modify_eq_set_getElem?, hi]
    rfl

theorem delMcastGroups_eq (params : AleParams) (portMask : U32) (ale : CpswAle)
    (groups : List McastGroup) : delMcastGroups params portMask ale groups = { ale with
      table := (groups.map McastGroup.key).foldl (edit addrKey (delMcastEntry params · portMask))
        ale.table } := by
  induction groups generalizing ale with
  | nil => rfl
  | cons group groups ih =>
    have hstep := cpswAleDelMcast_eq_edit params ale group portMask
    unfold delMcastGroups at ih ⊢
    rw [List.foldl_cons, hstep, ih]
    rfl

theorem addrKey_of_isFlushed (e : AleEntry) (h : isFlushed params portMask vid e = true) :
    (addrKey e).isSome = true := by
  simp only [isFlushed, Bool.and_eq_true] at h
  unfold addrKey
  rw [if_pos h.1.1.1.1.1]
  rfl

/-- Flushing the ports is deleting them from every group of the VLAN that is neither
supervisory nor the broadcast address and has one of them, in any order; the other entries
are as before. -/
theorem flush_eq_delMcastGroups (h : Unique addrKey ale.table) (hmask : portMask ≠ 0)
    {groups : List McastGroup} (hgroups : (groups.map McastGroup.key).Perm
      (keysOf addrKey (isFlushed params portMask vid) ale.table)) :
    cpswAleFlushMulticast params ale portMask vid =
      (delMcastGroups params portMask ale groups, 0) ∧
    ∀ (i : ℕ) e, ale.table[i]? = some e → isFlushed params portMask vid e = false →
      (cpswAleFlushMulticast params ale portMask vid).1.table[i]? = some e := by
  have hpass : flushEntry params portMask vid = fun e =>
      if isFlushed params portMask vid e then delMcastEntry params e portMask else e :=
    funext fun e => flushEntry_eq hmask e
  unfold cpswAleFlushMulticast
  rw [hpass]
  constructor
  · rw [delMcastGroups_eq, h.map_eq_foldl_edit (fun e => addrKey_delMcastEntry params e portMask)
      addrKey_of_isFlushed hgroups]
  · intro i e hi hkept
    dsimp only
    rw [List.getElem?_map, hi, Option.map_some, hkept]
    rfl

def groupAddr (b : BitVec 8) : MacAddr := fun i => if i = 0 then 1 else b

def twoGroups : CpswAle :=
  (cpswAleAddMcast threePorts (cpswAleAddMcast threePorts (emptyAle 4) (groupAddr 1) 6 0 0 3).1
    (groupAddr 2) 7 aleVlan 5 3).1

/-- Port 1 is flushed from them, the second one first. -/
theorem flush_two_groups : cpswAleFlushMulticast threePorts twoGroups 2 (-1) =
    (delMcastGroups threePorts 2 twoGroups [⟨groupAddr 2, aleVlan, 5⟩,
      ⟨groupAddr 1, 0, 0⟩], 0) := by
  have hkeyed : Keyed twoGroups :=
    ((keyed_of_free (free_emptyAle 4)).addMcast (groupAddr 1) 6 0 3 (by decide)).addMcast
      (groupAddr 2) 7 aleVlan 3 (by decide)
  exact (flush_eq_delMcastGroups hkeyed.addr (by decide) (by decide +kernel)).1

end CpswDriver.Ale
