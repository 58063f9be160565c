import CpswDriver.Ale.AddrMap
import CpswDriver.Ale.PortControl
import CpswDriver.Ale.VlanMap

/-!
The entries that stay in the table until the driver removes them. Only unicast
entries age, so the VLAN entries and the addresses that do not age are a map of
their own, and the hardware, which learns and ages out as it likes, has no say
in it. As long as the table has more slots than this map has keys, every add is
successful, and drops nothing of the map.
-/

namespace CpswDriver.Ale

open Slots

variable {params : AleParams} {ale ale' : CpswAle} {e e' old : AleEntry} {vid : U16} {i : ℕ}

def AddrEntry.isFixed : AddrEntry → Bool
  | .ucast ucastType _ _ _ => ucastType == aleUcastPersistant || ucastType == aleUcastOui
  | .mcast _ _ _ => true

/-- VLANs and addresses, each with its entry. -/
structure Entries where
  vlan : U32 → Option VlanMasks
  addr : AddrKey → Option AddrEntry

namespace Entries

def empty : Entries := ⟨fun _ => none, fun _ => none⟩

def setVlan (E : Entries) (vid : U16) (m : VlanMasks) : Entries :=
  { E with vlan := Function.update E.vlan (vid.setWidth 32) (some m) }

def setAddr (E : Entries) (k : AddrKey) (v : AddrEntry) : Entries :=
  { E with addr := Function.update E.addr k (some v) }

def portsOf (E : Entries) (k : AddrKey) : U32 := ((E.addr k).map AddrEntry.ports).getD 0

def join (E : Entries) (k : AddrKey) (ports : U32) (super : Bool) (mcastState : U32) : Entries :=
  E.setAddr k (.mcast (ports ||| E.portsOf k) super mcastState)

end Entries

/-- `E` is what the table has beside what may be aged out. Its keys are from `vs` and `ks`, for
which there is room. -/
structure Holds (params : AleParams) (vs : Finset U32) (ks : Finset AddrKey) (ale : CpswAle)
    (E : Entries) : Prop where
  keyed : Keyed ale
  vlan : ∀ v, lookupVlan params ale v = E.vlan v
  addr : ∀ k, (lookupAddr params ale k).filter AddrEntry.isFixed = E.addr k
  vlanKeys : ∀ v, E.vlan v ≠ none → v ∈ vs
  addrKeys : ∀ k, E.addr k ≠ none → k ∈ ks
  room : vs.card + ks.card < ale.table.length

variable {vs : Finset U32} {ks : Finset AddrKey} {E : Entries} {k : AddrKey}

theorem isFixed_addrEntry (params : AleParams) (h : isAddrType (cpswAleGetEntryType e) = true) :
    (addrEntry params e).isFixed = !isAgeable e := by
  unfold addrEntry isAgeable
  rw [h]
  split
  · rename_i hucast
    rw [hucast]
    cases hper : cpswAleGetUcastType e == aleUcastPersistant <;>
      cases houi : cpswAleGetUcastType e == aleUcastOui <;>
      simp [AddrEntry.isFixed, bne, hper, houi]
  · rename_i hmcast
    have hbit : (cpswAleGetMcast e == 0) = false := beq_eq_false_iff_ne.mpr hmcast
    rw [hbit]
    rfl

theorem isAddrType_of_addrKey (h : addrKey e = some k) :
    isAddrType (cpswAleGetEntryType e) = true := by
  unfold addrKey at h
  split at h
  · assumption
  · cases h

theorem entryType_cases (e : AleEntry) : isFree e = true ∨
    isAddrType (cpswAleGetEntryType e) = true ∨ cpswAleGetEntryType e = aleTypeVlan := by
  have hlt : (cpswAleGetEntryType e).toNat < 2 ^ 2 := BitField.get_lt (by decide) _
  have hcases : ∀ v : U32, v.toNat < 4 → (v == aleTypeFree) = true ∨ isAddrType v = true ∨
      v = aleTypeVlan := by
    intro v hv
    have hsmall : v = BitVec.ofNat 32 v.toNat := by simp
    have hnat : v.toNat = 0 ∨ v.toNat = 1 ∨ v.toNat = 2 ∨ v.toNat = 3 := by omega
    rcases hnat with h | h | h | h <;> rw [h] at hsmall <;> subst hsmall <;> decide
  exact hcases _ hlt

theorem Holds.not_noRoom (h : Holds params vs ks ale E) : ¬ NoRoom ale := by
  intro hfull
  have haddr : ale.table.countP (fun e => isAddrType (cpswAleGetEntryType e)) ≤ ks.card := by
    apply h.keyed.addr.countP_le
    intro e he htype
    obtain ⟨i, hi⟩ := List.getElem?_of_mem he
    have hkey : addrKey e = some (cpswAleGetAddr e, cpswAleGetVlanId e) := if_pos htype
    refine ⟨_, h.addrKeys _ ?_, hkey⟩
    have hfixed : (addrEntry params e).isFixed = true := by
      rw [isFixed_addrEntry params htype, hfull.ageable e he]
      rfl
    have hlookup : lookupAddr params ale (cpswAleGetAddr e, cpswAleGetVlanId e) =
        some (addrEntry params e) := by
      unfold lookupAddr
      rw [h.keyed.addr.lookup_eq_some_iff.mpr ⟨i, hi, hkey⟩]
      rfl
    rw [← h.addr, hlookup, Option.filter_some_pos hfixed]
    exact Option.some_ne_none _
  have hvlan : ale.table.countP (fun e => !isAddrType (cpswAleGetEntryType e)) ≤ vs.card := by
    apply h.keyed.vlan.countP_le
    intro e he hnot
    have htype : cpswAleGetEntryType e = aleTypeVlan := by
      rcases entryType_cases e with hfree | haddr | hvlan
      · rw [hfull.free e he] at hfree
        cases hfree
      · rw [haddr] at hnot
        cases hnot
      · exact hvlan
    obtain ⟨i, hi⟩ := List.getElem?_of_mem he
    have hkey : vlanKey e = some (cpswAleGetVlanId e) := if_pos htype
    refine ⟨_, h.vlanKeys _ ?_, hkey⟩
    rw [← h.vlan]
    unfold lookupVlan
    rw [h.keyed.vlan.lookup_eq_some_iff.mpr ⟨i, hi, hkey⟩]
    exact Option.some_ne_none _
  have hlength := List.length_eq_countP_add_countP
    (fun e => isAddrType (cpswAleGetEntryType e)) (l := ale.table)
  have hroom := h.room
  simp only [Bool.not_eq_true, Bool.decide_eq_false] at hlength
  omega

/-- What is evicted was not in the map. -/
theorem Evicts.filter_eq_none {P : Prop} {gone : Option AddrKey} (h : Evicts ale P gone)
    (hgone : gone = some k) : (lookupAddr params ale k).filter AddrEntry.isFixed = none := by
  obtain ⟨-, -, old, hl, hage⟩ := h k hgone
  have htype : isAddrType (cpswAleGetEntryType old) = true := by
    simp only [isAgeable, Bool.and_eq_true] at hage
    exact hage.1.1.1
  have hfixed := isFixed_addrEntry params htype
  unfold lookupAddr
  rw [hl, Option.map_some, Option.filter_some_neg]
  rw [hfixed, hage]
  decide

theorem length_store (ale : CpswAle) (idx : Option ℕ) (e : AleEntry) :
    (cpswAleStore ale idx e).1.table.length = ale.table.length := by
  unfold cpswAleStore
  split
  · rfl
  · exact List.length_set

theorem Holds.congr (h : Holds params vs ks ale E) (ht : ale'.table = ale.table) :
    Holds params vs ks ale' E := by
  refine ⟨h.keyed.congr ht, fun v => ?_, fun k => ?_, h.vlanKeys, h.addrKeys, ?_⟩
  · rw [← h.vlan v]
    unfold lookupVlan
    rw [ht]
  · rw [← h.addr k, lookupAddr_congr ht]
  · rw [ht]
    exact h.room

theorem Holds.addVlan (h : Holds params vs ks ale E) (hd : DirectMasks params)
    {members untag regMcast unregMcast : U32} (hvid : vid.toNat < vlanNVid)
    (hmembers : Width params members) (huntag : Width params untag)
    (hreg : Width params regMcast) (hunreg : Width params unregMcast)
    (hmem : vid.setWidth 32 ∈ vs) :
    Holds params vs ks (cpswAleAddVlan params ale vid members untag regMcast unregMcast).1
      (E.setVlan vid ⟨members, untag, regMcast, unregMcast⟩) := by
  have hadd := hd.addedVlan h.keyed.vlan hvid hmembers huntag hreg hunreg
  have hret : (cpswAleAddVlan params ale vid members untag regMcast unregMcast).2 = 0 := by
    rcases hadd.ret with hret | ⟨hret, -⟩
    · exact hret
    · exact absurd (hadd.enomem.mp hret).2 h.not_noRoom
  have hmap : AddrMap params ale := h.keyed.addrMap
  obtain ⟨gone, hevicts, haddrs⟩ := hmap.addVlan vid members untag regMcast unregMcast hvid
  refine ⟨h.keyed.addVlan hvid _ _ _ _, fun v => ?_, fun k => ?_, fun v hv => ?_, h.addrKeys, ?_⟩
  · rw [(hadd.stored hret).lookup v]
    unfold Entries.setVlan
    dsimp only
    rw [Function.update_apply, h.vlan v]
  · rw [haddrs k]
    split
    · rename_i hgone
      exact (hevicts.filter_eq_none hgone).symm.trans (h.addr k)
    · exact h.addr k
  · by_cases heq : v = vid.setWidth 32
    · rw [heq]
      exact hmem
    · apply h.vlanKeys v
      unfold Entries.setVlan at hv
      dsimp only at hv
      rwa [Function.update_of_ne heq] at hv
  · have hroom := h.room
    unfold cpswAleAddVlan
    dsimp only
    have hedit : VlanEdit params ale vid (addVlanEntry params ale
        (readOrZero ale (cpswAleMatchVlan ale vid)) vid members untag regMcast unregMcast) :=
      addVlanEntry_edit hvid members untag regMcast unregMcast
    rw [length_store, hedit.table]
    exact hroom

theorem Holds.added (h : Holds params vs ks ale E) {v : AddrEntry} {r : CpswAle × ℤ}
    (hadd : Added params ale k v r) (hv : v.isFixed = true) (hmem : k ∈ ks) (hkeyed : Keyed r.1)
    (hvlan : ∀ v, lookupVlan params r.1 v = lookupVlan params ale v)
    (hlength : r.1.table.length = ale.table.length) :
    Holds params vs ks r.1 (E.setAddr k v) := by
  have hret : r.2 = 0 := by
    rcases hadd.ret with hret | ⟨hret, -⟩
    · exact hret
    · exact absurd (hadd.enomem.mp hret).2 h.not_noRoom
  obtain ⟨gone, hevicts, hmap⟩ := hadd.stored hret
  refine ⟨hkeyed, fun u => (hvlan u).trans (h.vlan u), fun k' => ?_, h.vlanKeys, fun k' hk' => ?_,
    ?_⟩
  · rw [hmap k']
    unfold Entries.setAddr
    dsimp only
    rw [Function.update_apply]
    split
    · exact Option.filter_some_pos hv
    split
    · rename_i hgone
      exact (hevicts.filter_eq_none hgone).symm.trans (h.addr k')
    · exact h.addr k'
  · by_cases heq : k' = k
    · rw [heq]
      exact hmem
    · apply h.addrKeys k'
      unfold Entries.setAddr at hk'
      dsimp only at hk'
      rwa [Function.update_of_ne heq] at hk'
  · rw [hlength]
    exact h.room

theorem Holds.addUcast (h : Holds params vs ks ale E) {addr : MacAddr} {port flags : U32}
    (haddr : isMulticastEtherAddr addr = false) (hvid : vid.toNat < vlanNVid)
    (hport : port.toNat < params.alePorts) (hmem : keyOf addr flags vid ∈ ks) :
    Holds params vs ks (cpswAleAddUcast params ale addr port flags vid).1
      (E.setAddr (keyOf addr flags vid)
        (.ucast aleUcastPersistant port (testBits flags aleSecure) (testBits flags aleBlocked))) :=
  h.added (h.keyed.added_ucast haddr hvid hport) rfl hmem (h.keyed.addUcast addr port flags hvid)
    (h.keyed.lookupVlan_addUcast addr port flags hvid) (length_store _ _ _)

theorem Holds.group (h : Holds params vs ks ale E) (hk : isMulticastEtherAddr k.1 = true) :
    lookupAddr params ale k = E.addr k := by
  rw [← h.addr k]
  cases hl : lookupAddr params ale k with
  | none => rfl
  | some e =>
    have hmap : AddrMap params ale := h.keyed.addrMap
    have hkind := hmap.kind k e hl
    rw [hk] at hkind
    cases e with
    | ucast ucastType port secure blocked => cases hkind
    | mcast ports super mcastState => rfl

theorem Holds.addMcast (h : Holds params vs ks ale E) {addr : MacAddr}
    {portMask flags mcastState : U32} (haddr : isMulticastEtherAddr addr = true)
    (hvid : vid.toNat < vlanNVid) (hports : Width params portMask)
    (hmem : keyOf addr flags vid ∈ ks) :
    Holds params vs ks (cpswAleAddMcast params ale addr portMask flags vid mcastState).1
      (E.join (keyOf addr flags vid) portMask (testBits flags aleSuper)
        (mcastState &&& BitField.bitMask 32 2)) := by
  have hmap : AddrMap params ale := h.keyed.addrMap
  have hadd := hmap.addMcast addr portMask flags vid mcastState haddr hvid hports
  rw [h.group haddr] at hadd
  exact h.added hadd rfl hmem (h.keyed.addMcast addr portMask flags mcastState hvid)
    (h.keyed.lookupVlan_addMcast addr portMask flags mcastState hvid) (length_store _ _ _)

theorem Holds.lookupAddr (h : Holds params vs ks ale E) {v : AddrEntry}
    (hv : E.addr k = some v) : lookupAddr params ale k = some v := by
  rw [← h.addr k] at hv
  exact (Option.filter_eq_some_iff.mp hv).1

/-- An address entry that the hardware may replace is not in the map. -/
theorem not_fixed_of_slot (h : Keyed ale) (hi : ale.table[i]? = some old)
    (hold : isFree old = true ∨ isAgeable old = true) (hk : addrKey old = some k) :
    (lookupAddr params ale k).filter AddrEntry.isFixed = none := by
  have hage : isAgeable old = true := by
    rcases hold with hfree | hage
    · rw [addrKey_of_free hfree] at hk
      cases hk
    · exact hage
  have hfixed := isFixed_addrEntry params (isAddrType_of_addrKey hk)
  unfold Ale.lookupAddr
  rw [h.addr.lookup_eq_some_iff.mpr ⟨i, hi, hk⟩, Option.map_some, Option.filter_some_neg]
  rw [hfixed, hage]
  decide

theorem Holds.hardware (h : Holds params vs ks ale E) (hmay : hardwareMay ale i e' = true) :
    Holds params vs ks (cpswAleWrite ale i e') E := by
  obtain ⟨old, hi, hold, hnew, hfresh⟩ := h.keyed.hardwareMay_cases hmay
  refine ⟨h.keyed.hardware hmay, fun v => ?_, fun k => ?_, h.vlanKeys, h.addrKeys, ?_⟩
  · rw [← h.vlan v]
    exact h.keyed.lookupVlan_writeAddr hi (vlanKey_of_hardware hold) (vlanKey_of_hardware hnew) v
  · rw [lookupAddr_write h.keyed hi hfresh k, ← h.addr k]
    split
    · rename_i hk
      have hafter : Keyed (cpswAleWrite ale i e') := h.keyed.hardware hmay
      have hslot : (cpswAleWrite ale i e').table[i]? = some e' :=
        List.getElem?_set_self (List.getElem?_eq_some_iff.mp hi).1
      have hgone : (Ale.lookupAddr params _ k).filter AddrEntry.isFixed = none :=
        not_fixed_of_slot hafter hslot hnew hk
      rw [lookupAddr_write h.keyed hi hfresh k, if_pos hk] at hgone
      rw [hgone]
      cases hl : lookup addrKey ale.table k with
      | none => rw [lookupAddr_eq_none_iff.mpr hl]; rfl
      | some f =>
        obtain ⟨j, hj, hf⟩ := h.keyed.addr.lookup_eq_some_iff.mp hl
        obtain rfl := hfresh k hk j f hj hf
        obtain rfl : old = f := Option.some.inj (hi.symm.trans hj)
        exact (not_fixed_of_slot h.keyed hi hold hf).symm
    split
    · rename_i hk
      exact (not_fixed_of_slot h.keyed hi hold hk).symm
    · rfl
  · unfold cpswAleWrite
    dsimp only
    rw [List.length_set]
    exact h.room

theorem holds_of_free (hfree : ∀ e ∈ ale.table, isFree e = true)
    (hroom : vs.card + ks.card < ale.table.length) : Holds params vs ks ale Entries.empty := by
  have hkeyed := keyed_of_free hfree
  refine ⟨hkeyed, fun v => ?_, fun k => ?_, fun v hv => absurd rfl hv, fun k hk => absurd rfl hk,
    hroom⟩
  · apply lookupVlan_eq_none_iff.mpr
    apply lookup_eq_none_iff.mpr
    intro j e hj hkey
    rw [vlanKey_of_free (hfree e (List.mem_of_getElem? hj))] at hkey
    cases hkey
  · have hnone : lookupAddr params ale k = none := by
      apply lookupAddr_eq_none_iff.mpr
      apply lookup_eq_none_iff.mpr
      intro j e hj hkey
      rw [addrKey_of_free (hfree e (List.mem_of_getElem? hj))] at hkey
      cases hkey
    rw [hnone]
    rfl

theorem portField_writel {v : U32} {offset : ℕ} (h : offset < alePortctl) (q : ℕ)
    (control : AleControl) : portField (ale.writel v offset) q control =
      portField ale q control := by
  apply portField_congr
  intro q
  exact Function.update_of_ne (by omega) _ _

theorem settled_writel {v : U32} {offset : ℕ} (h : offset ≠ aleControlReg) :
    Settled (ale.writel v offset) ↔ Settled ale := by
  unfold Settled CpswAle.writel
  dsimp only
  rw [Function.update_of_ne h.symm]

/-- The table is empty, and no port control has changed. -/
structure Cleared (ale ale' : CpswAle) : Prop where
  free : ∀ e ∈ ale'.table, isFree e = true
  field : ∀ q control, portField ale' q control = portField ale q control
  settled : Settled ale'
  length : ale'.table.length = ale.table.length

theorem cleared_controlSet (params : AleParams) (ale : CpswAle) :
    Cleared ale (cpswAleControlSet params ale 0 .clear 1).1 := by
  refine ⟨?_, portField_engine rfl 0, settled_controlSet _ _ _ _ _, length_controlSet _ _ _ _ _⟩
  rw [cpswAleControlSet_clear]
  exact free_of_clear _

theorem cleared_start (params : AleParams) (ale : CpswAle) :
    Cleared ale (cpswAleStart params ale) := by
  have hclear := cleared_controlSet params (cpswAleControlSet params (cpswAleControlSet params
    (ale.writel (BitVec.ofNat 32 (params.busFreq / aleRateLimitMinPps)) alePrescale) 0 .rateLimit
    1).1 0 .enable 1).1
  have haging : ∀ ale : CpswAle, (∀ q control, portField (cpswAleAgingStart params ale) q control =
      portField ale q control) ∧ (Settled ale → Settled (cpswAleAgingStart params ale)) := by
    intro ale
    unfold cpswAleAgingStart cpswAleHwAgingTimerStart
    dsimp only
    split
    · exact ⟨fun _ _ => rfl, id⟩
    split
    · exact ⟨portField_writel (by decide), (settled_writel (by decide)).mpr⟩
    · exact ⟨fun _ _ => rfl, id⟩
  unfold cpswAleStart
  dsimp only
  refine ⟨?_, fun q control => ?_, (haging _).2 hclear.settled, ?_⟩
  · rw [(cpswAleAgingStart_table _ _).1]
    exact hclear.free
  · rw [(haging _).1, hclear.field, portField_engine rfl, portField_engine rfl,
      portField_writel (by decide)]
  · rw [(cpswAleAgingStart_table _ _).1, hclear.length, length_controlSet, length_controlSet]
    rfl

theorem cleared_stop (params : AleParams) (ale : CpswAle) :
    Cleared ale (cpswAleStop params ale) := by
  have haging : (∀ q control, portField (cpswAleAgingStop params ale) q control =
      portField ale q control) ∧ (cpswAleAgingStop params ale).table = ale.table := by
    unfold cpswAleAgingStop
    split
    · exact ⟨fun _ _ => rfl, rfl⟩
    split
    · exact ⟨portField_writel (by decide), rfl⟩
    · exact ⟨fun _ _ => rfl, rfl⟩
  have hclear := cleared_controlSet params (cpswAleAgingStop params ale)
  refine ⟨(cpswAleStop_clears params ale).1, fun q control => ?_, settled_controlSet _ _ _ _ _, ?_⟩
  · unfold cpswAleStop
    dsimp only
    rw [portField_engine rfl, hclear.field, haging.1]
  · unfold cpswAleStop
    dsimp only
    rw [length_controlSet, hclear.length, haging.2]

theorem regs_store (ale : CpswAle) (idx : Option ℕ) (e : AleEntry) :
    (cpswAleStore ale idx e).1.regs = ale.regs := by
  unfold cpswAleStore
  split <;> rfl

/-- Where the entries hold the masks, an add of a VLAN writes no register. -/
theorem regs_addVlan (hd : DirectMasks params) (ale : CpswAle) (vid : U16)
    (members untag regMcast unregMcast : U32) :
    (cpswAleAddVlan params ale vid members untag regMcast unregMcast).1.regs = ale.regs := by
  unfold cpswAleAddVlan addVlanEntry
  simp only [hd.nuSwitchAle, Bool.not_false, if_true, cpswAleSetVlanUntag, regs_store]

theorem Settled.congr (h : Settled ale) (hr : ale'.regs = ale.regs) : Settled ale' := by
  unfold Settled at h ⊢
  rwa [hr]

/-- The table holds `E`, and `f` says what the controls of the ports are set to. -/
structure Programmed (params : AleParams) (vs : Finset U32) (ks : Finset AddrKey) (E : Entries)
    (f : ℕ → AleControl → U32) (ale : CpswAle) : Prop where
  holds : Holds params vs ks ale E
  settled : Settled ale
  field : ∀ q control, control.isPort = true → portField ale q control = f q control

def setField (f : ℕ → AleControl → U32) (port : ℕ) (control : AleControl) (value : U32) :
    ℕ → AleControl → U32 :=
  fun q control' => if q = port ∧ control' = control then value else f q control'

namespace Programmed

variable {f : ℕ → AleControl → U32}

theorem of_regs (h : Programmed params vs ks E f ale) {E' : Entries}
    (hholds : Holds params vs ks ale' E') (hr : ale'.regs = ale.regs) :
    Programmed params vs ks E' f ale' := by
  refine ⟨hholds, h.settled.congr hr, fun q control hc => ?_⟩
  rw [← h.field q control hc]
  exact portField_congr (fun q => congrFun hr _) q control

theorem addVlan (h : Programmed params vs ks E f ale) (hd : DirectMasks params)
    {members untag regMcast unregMcast : U32} (hvid : vid.toNat < vlanNVid)
    (hmembers : Width params members) (huntag : Width params untag)
    (hreg : Width params regMcast) (hunreg : Width params unregMcast)
    (hmem : vid.setWidth 32 ∈ vs) :
    Programmed params vs ks (E.setVlan vid ⟨members, untag, regMcast, unregMcast⟩) f
      (cpswAleAddVlan params ale vid members untag regMcast unregMcast).1 :=
  h.of_regs (h.holds.addVlan hd hvid hmembers huntag hreg hunreg hmem)
    (regs_addVlan hd ale vid _ _ _ _)

theorem addUcast (h : Programmed params vs ks E f ale) {addr : MacAddr} {port flags : U32}
    (haddr : isMulticastEtherAddr addr = false) (hvid : vid.toNat < vlanNVid)
    (hport : port.toNat < params.alePorts) (hmem : keyOf addr flags vid ∈ ks) :
    Programmed params vs ks (E.setAddr (keyOf addr flags vid)
        (.ucast aleUcastPersistant port (testBits flags aleSecure) (testBits flags aleBlocked))) f
      (cpswAleAddUcast params ale addr port flags vid).1 :=
  h.of_regs (h.holds.addUcast haddr hvid hport hmem) (regs_store _ _ _)

theorem addMcast (h : Programmed params vs ks E f ale) {addr : MacAddr}
    {portMask flags mcastState : U32} (haddr : isMulticastEtherAddr addr = true)
    (hvid : vid.toNat < vlanNVid) (hports : Width params portMask)
    (hmem : keyOf addr flags vid ∈ ks) :
    Programmed params vs ks (E.join (keyOf addr flags vid) portMask (testBits flags aleSuper)
        (mcastState &&& BitField.bitMask 32 2)) f
      (cpswAleAddMcast params ale addr portMask flags vid mcastState).1 :=
  h.of_regs (h.holds.addMcast haddr hvid hports hmem) (regs_store _ _ _)

theorem setPort (h : Programmed params vs ks E f ale) {port : ℕ} {control : AleControl}
    {value : U32} (hc : control.isPort = true) (hport : port < params.alePorts)
    (hvalue : value.toNat < 2 ^ control.portBits.2) :
    Programmed params vs ks E (setField f port control value)
      (cpswAleControlSet params ale port control value).1 := by
  have hsets : SetsPort params ale port control value _ := controlSet_port hc hport hvalue
  obtain ⟨hsettled, htable, -⟩ := hsets.settled h.settled
  refine ⟨h.holds.congr htable, hsettled, fun q control' hc' => ?_⟩
  rw [hsets.field q control' hc', h.field q control' hc']
  rfl

theorem setEngine (h : Programmed params vs ks E f ale) {control : AleControl} {shift : ℕ}
    (hc : control.engineShift = some shift) (hne : shift ≠ 30) (port : ℤ) (value : U32) :
    Programmed params vs ks E f (cpswAleControlSet params ale port control value).1 := by
  refine ⟨h.holds.congr (table_engine hc hne h.settled port), settled_controlSet _ _ _ _ _, ?_⟩
  intro q control' hc'
  rw [portField_engine hc port, h.field q control' hc']

theorem of_cleared (h : Cleared ale ale') (hroom : vs.card + ks.card < ale.table.length) :
    Programmed params vs ks Entries.empty (portField ale) ale' := by
  refine ⟨holds_of_free h.free ?_, h.settled, fun q control _ => h.field q control⟩
  rw [h.length]
  exact hroom

end Programmed

end CpswDriver.Ale
