import CpswDriver.Cpsw.BridgeView

/-!
The driver shows the bridge's view in every run, in whatever order the works of
the work queue come. VLANs, groups, port states and port VLANs are exact even
when the table is full, since the bridge is told of the failure. A static
address that finds no room is lost without a word, so the addresses are exact
as long as there is room.
-/

namespace CpswDriver.Switchdev

open Ale Runs BitSet
open Filters (flagsVid_vlan isMulticast_broadcast)

variable {params : CpswParams} {lossy : Prop} {ale ale' : CpswAle} {b b' : Bridge} {k : FdbKey}
  {vid : U16} {p : Port} {i : SwitchPort} {s : State}

theorem CpswParams.directMasks (params : CpswParams) : DirectMasks params.ale :=
  directMasks_of_cpsw params.devId params.alePorts

def FdbKey.word (k : FdbKey) : AddrKey := (k.1, k.2.setWidth 32)

theorem word_inj {k k' : FdbKey} : k.word = k'.word ↔ k = k' := by
  constructor
  · intro h
    have haddr : k.word.1 = k'.word.1 := by rw [h]
    have hvid : k.word.2 = k'.word.2 := by rw [h]
    exact Prod.ext haddr (setWidth_inj hvid)
  · intro h
    rw [h]

/-- The entry that the table keeps for an address until the driver removes it. -/
def fixedAddr (params : CpswParams) (ale : CpswAle) (k : FdbKey) : Option AddrEntry :=
  (lookupAddr params.ale ale k.word).filter AddrEntry.isFixed

/-- What is held of what was asked for, where `lossy` allows that a static address is lost. -/
def Backed (lossy : Prop) (k : FdbKey) (held : Option AddrEntry) (asked : Option FdbEntry) : Prop :=
  held = asked.map FdbEntry.entry ∨ lossy ∧ isMulticastEtherAddr k.1 = false ∧ held = none

structure TableView (params : CpswParams) (lossy : Prop) (ale : CpswAle) (b : Bridge) : Prop where
  keyed : Keyed ale
  vlan : ∀ vid, lookupVlan params.ale ale (vid.setWidth 32) = (b.vlan vid).map Vlan.masks
  fdb : ∀ k, Backed lossy k (fixedAddr params ale k) (b.fdb k)

theorem TableView.setFdb (h : TableView params lossy ale b) (hkeyed : Keyed ale')
    (hvlan : ∀ v, lookupVlan params.ale ale' v = lookupVlan params.ale ale v)
    {held : Option AddrEntry} {asked : Option FdbEntry} (hbacked : Backed lossy k held asked)
    (haddr : ∀ k', fixedAddr params ale' k' = if k' = k then held else fixedAddr params ale k') :
    TableView params lossy ale' (b.setFdb k asked) := by
  refine ⟨hkeyed, fun vid => (hvlan _).trans (h.vlan vid), fun k' => ?_⟩
  unfold Bridge.setFdb
  dsimp only
  rw [haddr k', Function.update_apply]
  by_cases heq : k' = k
  · rw [if_pos heq, if_pos heq, heq]
    exact hbacked
  · rw [if_neg heq, if_neg heq]
    exact h.fdb k'

theorem TableView.setVlan (h : TableView params lossy ale b) (hkeyed : Keyed ale')
    {v : Option (Vlan SwitchPort)}
    (hvlan : ∀ u, lookupVlan params.ale ale' u =
      if u = vid.setWidth 32 then v.map Vlan.masks else lookupVlan params.ale ale u)
    (haddr : ∀ k, fixedAddr params ale' k = fixedAddr params ale k) :
    TableView params lossy ale' (b.setVlan vid v) := by
  refine ⟨hkeyed, fun vid' => ?_, fun k => ?_⟩
  · unfold Bridge.setVlan
    dsimp only
    rw [hvlan, Function.update_apply]
    by_cases heq : vid' = vid
    · rw [if_pos (congrArg _ heq), if_pos heq]
    · rw [if_neg fun hcon => heq (setWidth_inj hcon), if_neg heq]
      exact h.vlan vid'
  · rw [haddr k]
    exact h.fdb k

theorem TableView.congr (h : TableView params lossy ale b) (ht : ale'.table = ale.table)
    (hvlan : b'.vlan = b.vlan) (hfdb : b'.fdb = b.fdb) : TableView params lossy ale' b' := by
  refine ⟨h.keyed.congr ht, fun vid => ?_, fun k => ?_⟩
  · rw [hvlan, ← h.vlan vid]
    unfold lookupVlan
    rw [ht]
  · have hsame : fixedAddr params ale' k = fixedAddr params ale k := by
      unfold fixedAddr
      rw [lookupAddr_congr ht]
    rw [hsame, hfdb]
    exact h.fdb k

/-- Two entries can be added, whatever is in the table. -/
def Room (ale : CpswAle) : Prop := 2 ≤ ale.table.countP fun e => isFree e || isAgeable e

instance (ale : CpswAle) : Decidable (Room ale) := inferInstanceAs (Decidable (_ ≤ _))

/-- A VLAN that is added and a work that runs find room in the table. -/
def RoomFor (s : State) : Op → Prop
  | .objAdd _ _ _ (.portVlan _ _) | .work _ _ => Room s.ale
  | _ => True

instance (s : State) : DecidablePred (RoomFor s)
  | .objAdd _ _ _ (.portVlan _ _) | .work _ _ => inferInstanceAs (Decidable (Room s.ale))
  | .objAdd _ _ _ (.portMdb _ _) | .objAdd _ _ _ (.hostMdb _ _) | .objAdd _ _ _ .other
  | .attrSet _ _ | .objDel _ _ _ _ | .event _ _ _ _ _ _ | .unregister _ | .hardware _ _ =>
    .isTrue trivial

theorem not_noRoom (h : 0 < ale.table.countP fun e => isFree e || isAgeable e) : ¬ NoRoom ale := by
  intro hfull
  obtain ⟨e, he, hslot⟩ := List.countP_pos_iff.mp h
  rw [hfull.free e he, hfull.ageable e he] at hslot
  cases hslot

theorem countP_store (ale : CpswAle) (idx : Option ℕ) (e : AleEntry) (q : AleEntry → Bool) :
    ale.table.countP q ≤ (cpswAleStore ale idx e).1.table.countP q + 1 := by
  unfold cpswAleStore
  split
  · exact Nat.le_succ _
  · rename_i j _
    unfold cpswAleWrite
    dsimp only
    by_cases hj : j < ale.table.length
    · rw [List.countP_set hj]
      split <;> split <;> omega
    · rw [List.set_eq_of_length_le (Nat.not_lt.mp hj)]
      exact Nat.le_succ _

theorem room_vlanAddModify (h : Room ale) (vid : U16) (portMask untag reg unreg : U32)
    (hvid : vid.toNat < vlanNVid) :
    ¬ NoRoom (cpswAleVlanAddModify params.ale ale vid portMask untag reg unreg).1 := by
  apply not_noRoom
  unfold cpswAleVlanAddModify cpswAleAddVlan
  dsimp only
  generalize readOrZero ale (cpswAleMatchVlan ale vid) = e
  generalize hr : addVlanEntry params.ale ale e vid _ _ _ _ = r
  have hedit : VlanEdit params.ale ale vid r := hr ▸ addVlanEntry_edit hvid _ _ _ _
  have hcount := countP_store r.1 (cpswAleMatchVlan ale vid) r.2 fun e => isFree e || isAgeable e
  rw [hedit.table] at hcount
  unfold Room at h
  omega

/-- An add drops nothing that the driver has to remove. -/
theorem fixed_of_added {v : AddrEntry} {r : CpswAle × ℤ} (h : Added params.ale ale k.word v r)
    (hret : r.2 = 0) (hv : v.isFixed = true) (k' : FdbKey) :
    fixedAddr params r.1 k' = if k' = k then some v else fixedAddr params ale k' := by
  obtain ⟨gone, hevicts, hmap⟩ := h.stored hret
  unfold fixedAddr
  rw [hmap]
  by_cases heq : k' = k
  · rw [if_pos (word_inj.mpr heq), if_pos heq]
    exact Option.filter_some_pos hv
  · rw [if_neg (mt word_inj.mp heq), if_neg heq]
    split
    · rename_i hgone
      exact (hevicts.filter_eq_none hgone).symm
    · rfl

theorem fixed_of_deleted {v : Option AddrEntry} {r : CpswAle × ℤ}
    (h : Deleted params.ale ale k.word v r) (hret : r.2 = 0) (k' : FdbKey) :
    fixedAddr params r.1 k' =
      if k' = k then v.filter AddrEntry.isFixed else fixedAddr params ale k' := by
  unfold fixedAddr
  rw [h.stored hret]
  by_cases heq : k' = k
  · rw [if_pos (word_inj.mpr heq), if_pos heq]
  · rw [if_neg (mt word_inj.mp heq), if_neg heq]

theorem fixed_of_absent (h : lookupAddr params.ale ale k.word = none) :
    fixedAddr params ale k = none := by
  unfold fixedAddr
  rw [h]
  rfl

theorem fixed_of_group (h : Keyed ale) (hk : isMulticastEtherAddr k.1 = true) :
    lookupAddr params.ale ale k.word = fixedAddr params ale k := by
  unfold fixedAddr
  cases hl : lookupAddr params.ale ale k.word with
  | none => rfl
  | some e =>
    have hmap : AddrMap params.ale ale := h.addrMap
    have hkind := hmap.kind k.word e hl
    cases e with
    | ucast ucastType port secure blocked =>
      rw [show k.word.1 = k.1 from rfl, hk] at hkind
      cases hkind
    | mcast ports super mcastState => rfl

theorem TableView.group (h : TableView params lossy ale b) (hk : isMulticastEtherAddr k.1 = true) :
    lookupAddr params.ale ale k.word = (b.fdb k).map FdbEntry.entry := by
  rw [fixed_of_group h.keyed hk]
  rcases h.fdb k with heq | ⟨-, hucast, -⟩
  · exact heq
  · rw [hk] at hucast
    cases hucast

theorem TableView.addUcast (h : TableView params lossy ale b) {flags : U32} {addr : MacAddr}
    (haddr : isMulticastEtherAddr addr = false) (hvid : vid.toNat < vlanNVid)
    (hflags : flagsVid flags vid = vid) (hsecure : testBits flags aleSecure = false)
    (hblocked : testBits flags aleBlocked = false) (hroom : ¬ lossy → ¬ NoRoom ale)
    (i : SwitchPort) : TableView params lossy
      (cpswAleAddUcast params.ale ale addr (BitVec.ofNat 32 i.val) flags vid).1
      (b.setFdb (addr, vid) (some (.static i))) := by
  have hport : (BitVec.ofNat 32 i.val).toNat < params.ale.alePorts := by
    rw [params.alePorts, BitVec.toNat_ofNat, Nat.mod_eq_of_lt (by omega)]
    exact i.isLt
  have hadd : Added params.ale ale (keyOf addr flags vid) _ (cpswAleAddUcast params.ale ale addr
      (BitVec.ofNat 32 i.val) flags vid) := h.keyed.added_ucast haddr hvid hport
  rw [hsecure, hblocked] at hadd
  have hkey : keyOf addr flags vid = FdbKey.word (addr, vid) := by
    unfold keyOf
    rw [hflags]
    rfl
  rw [hkey] at hadd
  rcases hadd.ret with hret | ⟨hret, hsame⟩
  · exact h.setFdb (h.keyed.addUcast addr _ flags hvid)
      (h.keyed.lookupVlan_addUcast addr _ flags hvid) (.inl rfl) (fixed_of_added hadd hret rfl)
  · obtain ⟨habsent, hfull⟩ := hadd.enomem.mp hret
    have hlossy : lossy := by
      by_contra hcon
      exact hroom hcon hfull
    rw [hsame]
    refine h.setFdb h.keyed (fun _ => rfl) (.inr ⟨hlossy, haddr, rfl⟩) fun k' => ?_
    split
    · rename_i heq
      rw [heq]
      exact fixed_of_absent habsent
    · rfl

theorem TableView.delUcast (h : TableView params lossy ale b) {flags : U32}
    (hflags : flagsVid flags vid = vid) (addr : MacAddr) (port : U32) :
    TableView params lossy (cpswAleDelUcast ale addr port flags vid).1
      (b.setFdb (addr, vid) none) := by
  have hdel : Deleted params.ale ale (keyOf addr flags vid) none _ :=
    h.keyed.deleted_ucast addr port flags vid
  have hkey : keyOf addr flags vid = FdbKey.word (addr, vid) := by
    unfold keyOf
    rw [hflags]
    rfl
  rw [hkey] at hdel
  rcases hdel.ret with hret | ⟨hret, hsame⟩
  · exact h.setFdb (h.keyed.delUcast addr port flags vid)
      (h.keyed.lookupVlan_delUcast addr port flags vid) (.inl rfl) (fixed_of_deleted hdel hret)
  · rw [hsame]
    refine h.setFdb h.keyed (fun _ => rfl) (.inl rfl) fun k' => ?_
    split
    · rename_i heq
      rw [heq]
      exact fixed_of_absent (hdel.enoent.mp hret)
    · rfl

theorem TableView.addMcast (h : TableView params lossy ale b) {addr : MacAddr}
    (haddr : isMulticastEtherAddr addr = true) (hvid : vid.toNat < vlanNVid) (i : SwitchPort) :
    let r := cpswAleAddMcast params.ale ale addr (toWord 32 {i}) aleVlan vid 0
    (r.2 = 0 → TableView params lossy r.1
      (b.setFdb (addr, vid) (some (FdbEntry.joinGroup (b.fdb (addr, vid)) i)))) ∧
    (r.2 ≠ 0 → r.1 = ale) := by
  have hadd : Added params.ale ale (keyOf addr aleVlan vid) _ (cpswAleAddMcast params.ale ale addr
      (toWord 32 {i}) aleVlan vid 0) :=
    h.keyed.added_mcast haddr hvid (width_toWord params.alePorts {i}) 0
  have hkey : keyOf addr aleVlan vid = FdbKey.word (addr, vid) := by
    unfold keyOf
    rw [flagsVid_vlan]
    rfl
  rw [hkey, h.group haddr] at hadd
  have hentry : (FdbEntry.joinGroup (b.fdb (addr, vid)) i).entry = _ := entry_joinGroup _ i
  refine ⟨fun hret => ?_, fun hret => ?_⟩
  · refine h.setFdb (h.keyed.addMcast addr _ aleVlan 0 hvid)
      (h.keyed.lookupVlan_addMcast addr _ aleVlan 0 hvid) (.inl rfl) ?_
    intro k'
    rw [Option.map_some, hentry]
    exact fixed_of_added hadd hret rfl k'
  · rcases hadd.ret with hzero | ⟨-, hsame⟩
    · exact absurd hzero hret
    · exact hsame

theorem filter_entry (v : Option FdbEntry) :
    (v.map FdbEntry.entry).filter AddrEntry.isFixed = v.map FdbEntry.entry := by
  cases v with
  | none => rfl
  | some v => exact Option.filter_some_pos (entry_isFixed v)

theorem toWord_member_ne_zero (i : SwitchPort) : toWord 32 {i} ≠ 0 := by
  rw [ne_eq, toWord_eq_zero_iff (by decide)]
  exact Finset.singleton_ne_empty i

theorem TableView.delMcast (h : TableView params lossy ale b) {addr : MacAddr}
    (haddr : isMulticastEtherAddr addr = true) (vid : U16) (i : SwitchPort) :
    TableView params lossy (cpswAleDelMcast params.ale ale addr (toWord 32 {i}) aleVlan vid).1
      (b.setFdb (addr, vid) ((b.fdb (addr, vid)).bind (FdbEntry.leaveGroup i))) := by
  have hdel : Deleted params.ale ale (keyOf addr aleVlan vid) _ (cpswAleDelMcast params.ale ale addr
      (toWord 32 {i}) aleVlan vid) := h.keyed.deleted_mcast haddr (toWord 32 {i}) aleVlan vid
  have hkey : keyOf addr aleVlan vid = FdbKey.word (addr, vid) := by
    unfold keyOf
    rw [flagsVid_vlan]
    rfl
  have hleft : ((b.fdb (addr, vid)).map FdbEntry.entry).bind
      (AddrEntry.dropPorts (toWord 32 {i})) =
      ((b.fdb (addr, vid)).bind (FdbEntry.leaveGroup i)).map FdbEntry.entry := by
    cases b.fdb (addr, vid) with
    | none => rfl
    | some v => exact (entry_leaveGroup v i).symm
  rw [hkey, h.group haddr, if_neg (toWord_member_ne_zero i), hleft] at hdel
  rcases hdel.ret with hret | ⟨hret, hsame⟩
  · refine h.setFdb (h.keyed.delMcast addr _ aleVlan vid)
      (h.keyed.lookupVlan_delMcast addr _ aleVlan vid) (.inl rfl) ?_
    intro k'
    rw [fixed_of_deleted hdel hret k', filter_entry]
  · have habsent := hdel.enoent.mp hret
    have hgroup : (b.fdb (addr, vid)).map FdbEntry.entry = none := (h.group haddr).symm.trans habsent
    rw [Option.map_eq_none_iff] at hgroup
    rw [hsame]
    refine h.setFdb h.keyed (fun _ => rfl) (.inl rfl) fun k' => ?_
    split
    · rename_i heq
      rw [heq, fixed_of_absent habsent, hgroup]
      rfl
    · rfl

theorem fixed_hardware (h : Keyed ale) {idx : ℕ} {e : AleEntry} (hmay : hardwareMay ale idx e = true)
    (k : FdbKey) : fixedAddr params (cpswAleWrite ale idx e) k = fixedAddr params ale k := by
  obtain ⟨old, hi, hold, hnew, hfresh⟩ := h.hardwareMay_cases hmay
  have hwrite : lookupAddr params.ale (cpswAleWrite ale idx e) k.word = _ :=
    lookupAddr_write h hi hfresh k.word
  unfold fixedAddr
  by_cases hkey : addrKey e = some k.word
  · have hslot : (cpswAleWrite ale idx e).table[idx]? = some e :=
      List.getElem?_set_self (List.getElem?_eq_some_iff.mp hi).1
    rw [not_fixed_of_slot (h.hardware hmay) hslot hnew hkey]
    cases hl : lookupAddr params.ale ale k.word with
    | none => rfl
    | some f =>
      obtain ⟨e', hlookup, -⟩ := Option.map_eq_some_iff.mp hl
      obtain ⟨j, hj, hkey'⟩ := h.addr.lookup_eq_some_iff.mp hlookup
      obtain rfl := hfresh k.word hkey j e' hj hkey'
      obtain rfl : old = e' := Option.some.inj (hi.symm.trans hj)
      rw [← hl]
      exact (not_fixed_of_slot h hi hold hkey').symm
  · rw [hwrite, if_neg hkey]
    split
    · rename_i hold'
      exact (not_fixed_of_slot h hi hold hold').symm
    · rfl

theorem TableView.hardware (h : TableView params lossy ale b) {idx : ℕ} {e : AleEntry}
    (hmay : hardwareMay ale idx e = true) : TableView params lossy (cpswAleWrite ale idx e) b := by
  obtain ⟨old, hi, hold, hnew, -⟩ := h.keyed.hardwareMay_cases hmay
  refine ⟨h.keyed.hardware hmay, fun vid => ?_, fun k => ?_⟩
  · rw [← h.vlan vid]
    exact h.keyed.lookupVlan_writeAddr hi (vlanKey_of_hardware hold) (vlanKey_of_hardware hnew) _
  · rw [fixed_hardware h.keyed hmay]
    exact h.fdb k

/-- An add with modify starts from the masks that the VLAN has. -/
theorem addedVlan_modify (h : Keyed ale) (hvid : vid.toNat < vlanNVid)
    {portMask untag reg unreg : U32} (hport : Width params.ale portMask)
    (huntag : Width params.ale untag) (hreg : Width params.ale reg)
    (hunreg : Width params.ale unreg) :
    AddedVlan params.ale ale vid (((lookupVlan params.ale ale (vid.setWidth 32)).getD
      VlanMasks.empty).addPorts portMask untag reg unreg)
      (cpswAleVlanAddModify params.ale ale vid portMask untag reg unreg) := by
  have hd := params.directMasks
  have hread : vlanMasks params.ale (readOrZero ale (cpswAleMatchVlan ale vid)) = _ :=
    vlanMasks_readOrZero h.vlan hd
  rw [← hread]
  unfold cpswAleVlanAddModify
  generalize readOrZero ale (cpswAleMatchVlan ale vid) = e
  have hold : ∀ f : VlanFld, f.isMask = true → Width params.ale (cpswAleVlanGetFld params.ale e f) :=
    fun f hf => hd.width_getFld hf e
  exact hd.addedVlan h.vlan hvid ((hold .memberList rfl).or hport)
    (((hold .forceUntaggedMsk rfl).and _).or huntag) (((hold .regMcastMsk rfl).and _).or hreg)
    (((hold .unregMcastMsk rfl).and _).or hunreg)

theorem fixed_vlanAddModify (h : Keyed ale) (hvid : vid.toNat < vlanNVid)
    (portMask untag reg unreg : U32) (k : FdbKey) :
    fixedAddr params (cpswAleVlanAddModify params.ale ale vid portMask untag reg unreg).1 k =
      fixedAddr params ale k := by
  have hmap : AddrMap params.ale ale := h.addrMap
  unfold cpswAleVlanAddModify fixedAddr
  dsimp only
  generalize readOrZero ale (cpswAleMatchVlan ale vid) = e
  obtain ⟨gone, hevicts, haddrs⟩ := hmap.addVlan vid _ _ _ _ hvid
  rw [haddrs]
  split
  · rename_i hgone
    exact (hevicts.filter_eq_none hgone).symm
  · rfl

theorem width_pick (c : Bool) (i : SwitchPort) :
    Width params.ale (if c then toWord 32 {i} else 0) := by
  rw [← toWord_pick]
  exact width_toWord params.alePorts _

/-- A port that joins a VLAN is refused, or granted as asked. -/
theorem TableView.vlanAddModify (h : TableView params lossy ale b) (hvid : vid.toNat < vlanNVid)
    (i : SwitchPort) (untag mcast unreg : Bool) :
    let r := cpswAleVlanAddModify params.ale ale vid (toWord 32 {i})
      (if untag then toWord 32 {i} else 0) (if mcast then toWord 32 {i} else 0)
      (if unreg then toWord 32 {i} else 0)
    (r.2 = 0 → TableView params lossy r.1
      (b.setVlan vid (some (Vlan.join (b.vlan vid) i untag mcast unreg)))) ∧
    (r.2 ≠ 0 → TableView params lossy r.1 b) := by
  have hadd := addedVlan_modify h.keyed hvid (width_toWord params.alePorts {i})
    (width_pick untag i) (width_pick mcast i) (width_pick unreg i)
  rw [h.vlan, ← masks_join] at hadd
  refine ⟨fun hret => ?_, fun hret => ?_⟩
  · exact h.setVlan (h.keyed.addVlan hvid _ _ _ _) (hadd.stored hret).lookup
      (fixed_vlanAddModify h.keyed hvid _ _ _ _)
  · rcases hadd.ret with hzero | ⟨-, htable⟩
    · exact absurd hzero hret
    · exact h.congr htable rfl rfl

theorem TableView.vlanDelModify (h : TableView params lossy ale b) (vid : U16) (i : SwitchPort) :
    let r := cpswAleVlanDelModify params.ale ale vid (toWord 32 {i})
    (r.2 = 0 → TableView params lossy r.1 (b.setVlan vid ((b.vlan vid).bind (Vlan.leave · i)))) ∧
    (r.2 ≠ 0 → TableView params lossy r.1 b) := by
  have hdel := params.directMasks.vlanDelModify h.keyed.vlan vid (toWord 32 {i})
  have hmap : AddrMap params.ale ale := h.keyed.addrMap
  have haddr : ∀ k, fixedAddr params (cpswAleVlanDelModify params.ale ale vid (toWord 32 {i})).1 k =
      fixedAddr params ale k := fun k => by
    unfold fixedAddr
    rw [hmap.vlanDelModify]
  cases hv : b.vlan vid with
  | none =>
    have hnone : lookupVlan params.ale ale (vid.setWidth 32) = none := by rw [h.vlan, hv]; rfl
    rw [hdel.absent hnone]
    exact ⟨fun hret => absurd hret neg_enoent_ne_zero, fun _ => h⟩
  | some v =>
    have hsome : lookupVlan params.ale ale (vid.setWidth 32) = some v.masks := by
      rw [h.vlan, hv]
      rfl
    obtain ⟨hret, hsets, -⟩ := hdel.present v.masks hsome
    refine ⟨fun _ => ?_, fun hne => absurd hret hne⟩
    refine h.setVlan (h.keyed.vlanDelModify vid _) (fun u => ?_) haddr
    rw [hsets.lookup u, Option.bind_some, masks_leave]

/-- The bridge floods multicast to a port, or does so no more, in all VLANs. -/
theorem TableView.setUnregMcast (h : TableView params lossy ale b) (i : SwitchPort) (add : Bool) :
    TableView params lossy (cpswAleSetUnregMcast params.ale ale (toWord 32 {i}) add)
      { b with vlan := fun vid => (b.vlan vid).map fun v => v.setFlood i add } := by
  have hsets := params.directMasks.setUnregMcast h.keyed.vlan add
    (width_toWord params.alePorts {i})
  have hmap : AddrMap params.ale ale := h.keyed.addrMap
  refine ⟨h.keyed.setUnregMcast _ _, fun vid => ?_, fun k => ?_⟩
  · rw [hsets.lookup, h.vlan]
    dsimp only
    cases b.vlan vid with
    | none => rfl
    | some v => exact congrArg some (masks_setFlood v i add).symm
  · have hsame : fixedAddr params (cpswAleSetUnregMcast params.ale ale (toWord 32 {i}) add) k =
        fixedAddr params ale k := by
      unfold fixedAddr
      rw [hmap.setUnregMcast]
    rw [hsame]
    exact h.fdb k

theorem regs_delUcast (ale : CpswAle) (addr : MacAddr) (port flags : U32) (vid : U16) :
    (cpswAleDelUcast ale addr port flags vid).1.regs = ale.regs := by
  unfold cpswAleDelUcast
  split <;> rfl

theorem regs_delMcast (ale : CpswAle) (addr : MacAddr) (portMask flags : U32) (vid : U16) :
    (cpswAleDelMcast params.ale ale addr portMask flags vid).1.regs = ale.regs := by
  unfold cpswAleDelMcast
  split <;> rfl

theorem regs_vlanDelModify (ale : CpswAle) (vid : U16) (portMask : U32) :
    (cpswAleVlanDelModify params.ale ale vid portMask).1.regs = ale.regs := by
  unfold cpswAleVlanDelModify
  split
  · rfl
  · unfold cpswAleVlanDelModifyInt cpswAleWrite
    simp only [params.directMasks.nuSwitchAle, Bool.not_false, if_true, cpswAleSetVlanUntag]
    split <;> rfl

/-- The driver shows the bridge's view, and its works are in order. -/
structure Views (params : CpswParams) (lossy : Prop) (sys : System) : Prop where
  table : TableView params lossy sys.driver.ale sys.bridge
  settled : Settled sys.driver.ale
  state : ∀ p, portField sys.driver.ale (emacPort p) .portState = (sys.bridge.state p).value
  pvid : ∀ p, sys.driver.slaveRegs p (portVlanReg params.version) =
    (sys.bridge.pvid p).setWidth 32
  pvid_lt : ∀ p, (sys.bridge.pvid p).toNat < vlanNVid
  works : ∀ w ∈ sys.driver.works, isMulticastEtherAddr w.fdbInfo.addr = false ∧
    w.fdbInfo.vid.toNat < vlanNVid

theorem Views.setAle (h : Views params lossy ⟨s, b⟩) (htable : TableView params lossy ale b')
    (hregs : ale.regs = s.ale.regs) (hstate : b'.state = b.state) (hpvid : b'.pvid = b.pvid) :
    Views params lossy ⟨{ s with ale := ale }, b'⟩ := by
  refine ⟨htable, h.settled.congr hregs, fun p => ?_, fun p => ?_, fun p => ?_, h.works⟩
  · have hport : portField ale (emacPort p) .portState = portField s.ale (emacPort p) .portState :=
      portField_congr (fun q => congrFun hregs _) _ _
    dsimp only
    rw [hport, hstate]
    exact h.state p
  · dsimp only
    rw [hpvid]
    exact h.pvid p
  · dsimp only
    rw [hpvid]
    exact h.pvid_lt p

theorem Views.setPvid (h : Views params lossy ⟨s, b⟩) (p : Port) (hvid : vid.toNat < vlanNVid) :
    Views params lossy ⟨cpswSetPvid params s p vid false 0, b.setPvid p vid⟩ := by
  have hword : vid.setWidth 32 ||| (if false then 1#32 <<< 12 else 0) ||| ((0 &&& 0x7) <<< 13) =
      vid.setWidth 32 := by simp
  refine ⟨h.table.congr rfl rfl rfl, h.settled, h.state, fun q => ?_, fun q => ?_, h.works⟩
  · unfold cpswSetPvid Bridge.setPvid
    dsimp only
    by_cases hq : q = p
    · rw [hq, Function.update_self, Function.update_self, Function.update_self]
      exact hword
    · rw [Function.update_of_ne hq, Function.update_of_ne hq]
      exact h.pvid q
  · unfold Bridge.setPvid
    dsimp only
    by_cases hq : q = p
    · rw [hq, Function.update_self]
      exact hvid
    · rw [Function.update_of_ne hq]
      exact h.pvid_lt q

/-- The driver reads back the port VLAN that the bridge has set. -/
theorem Views.getPvid (h : Views params lossy ⟨s, b⟩) (p : Port) :
    cpswGetPvid params s p = b.pvid p := by
  have hlt := h.pvid_lt p
  unfold cpswGetPvid
  rw [h.pvid p]
  apply BitVec.eq_of_toNat_eq
  have hmask : (0xfff#32).toNat = 2 ^ 12 - 1 := by decide
  rw [BitVec.toNat_setWidth, BitVec.toNat_and, hmask, Nat.and_two_pow_sub_one_eq_mod,
    BitVec.toNat_setWidth]
  unfold vlanNVid at hlt
  dsimp only at hlt ⊢
  omega

theorem stpStateSet_eq (params : CpswParams) (s : State) (p : Port) (state : BitVec 8) :
    cpswPortStpStateSet params s p state = match portStateOf state with
      | some st => ({ s with ale :=
          (cpswAleControlSet params.ale s.ale (emacPort p) .portState st.value).1 },
        (cpswAleControlSet params.ale s.ale (emacPort p) .portState st.value).2)
      | none => (s, -eopnotsupp) := by
  unfold cpswPortStpStateSet portStateOf
  dsimp only
  split
  · rfl
  split
  · rfl
  split
  · rfl
  split <;> rfl

theorem portState_value_lt (st : PortState) : st.value.toNat < 2 ^ AleControl.portState.portBits.2 := by
  cases st <;> decide

theorem Views.stpStateSet (h : Views params lossy ⟨s, b⟩) (p : Port) (st : PortState) :
    Views params lossy ⟨{ s with ale :=
        (cpswAleControlSet params.ale s.ale (emacPort p) .portState st.value).1 },
      { b with state := Function.update b.state p st }⟩ := by
  have hport : emacPort p < params.ale.alePorts := by
    rw [params.alePorts]
    exact (p.succ : SwitchPort).isLt
  have hsets : SetsPort params.ale s.ale (emacPort p) .portState st.value _ :=
    controlSet_port rfl hport (portState_value_lt st)
  obtain ⟨hsettled, htable, -⟩ := hsets.settled h.settled
  refine ⟨h.table.congr htable rfl rfl, hsettled, fun q => ?_, h.pvid, h.pvid_lt, h.works⟩
  dsimp only
  rw [hsets.field _ _ rfl]
  by_cases hq : q = p
  · rw [hq, if_pos ⟨rfl, rfl⟩, Function.update_self]
  · rw [if_neg fun hcon => hq (emacPort_inj hcon.1), Function.update_of_ne hq]
    exact h.state q

/-- The outcome of a request: the view changes only where the bridge is told so. -/
def Shown (params : CpswParams) (lossy : Prop) (b b' : Bridge) (r : State × ℤ) : Prop :=
  Views params lossy ⟨r.1, if r.2 = 0 then b' else b⟩

theorem shown_of_zero {r : State × ℤ} (hret : r.2 = 0) (h : Views params lossy ⟨r.1, b'⟩) :
    Shown params lossy b b' r := by
  unfold Shown
  rw [if_pos hret]
  exact h

theorem shown_of_error {r : State × ℤ} (hret : r.2 ≠ 0) (h : Views params lossy ⟨r.1, b⟩) :
    Shown params lossy b b' r := by
  unfold Shown
  rw [if_neg hret]
  exact h

theorem Views.attrSet (h : Views params lossy ⟨s, b⟩) (p : Port) (attr : SwitchdevAttr) :
    Shown params lossy b (b.attrSet p attr) (cpswPortAttrSet params s p attr) := by
  cases attr with
  | portPreBridgeFlags mask val =>
    unfold Shown
    rw [show b.attrSet p (.portPreBridgeFlags mask val) = b from rfl, ite_self]
    exact h
  | portStpState state =>
    unfold cpswPortAttrSet Bridge.attrSet
    dsimp only
    rw [stpStateSet_eq]
    have hport : emacPort p < params.ale.alePorts := by
      rw [params.alePorts]
      exact (p.succ : SwitchPort).isLt
    cases portStateOf state with
    | none => exact shown_of_error (by decide : -eopnotsupp ≠ 0) h
    | some st =>
      have hsets : SetsPort params.ale s.ale (emacPort p) .portState st.value _ :=
        controlSet_port rfl hport (portState_value_lt st)
      exact shown_of_zero hsets.ret (h.stpStateSet p st)
  | portBridgeFlags mask val =>
    unfold cpswPortAttrSet cpswPortAttrBrFlagsSet Bridge.attrSet
    dsimp only
    split
    · have hword : (1#32 <<< emacPort p) = toWord 32 {(p.succ : SwitchPort)} :=
        (toWord_member p.succ).symm
      rw [hword]
      exact shown_of_zero rfl (h.setAle (h.table.setUnregMcast p.succ _) rfl rfl rfl)
    · exact shown_of_zero rfl h
  | other => exact shown_of_error (by decide : -eopnotsupp ≠ 0) h

/-- The address of a port itself comes with the VLANs of the host. -/
theorem Views.addHost (h : Views params lossy ⟨s, b⟩) {addr : MacAddr}
    (haddr : isMulticastEtherAddr addr = false) (hvid : vid.toNat < vlanNVid)
    (hroom : ¬ lossy → ¬ NoRoom s.ale) (cpuPort : Bool) : Views params lossy
      ⟨if cpuPort then { s with ale :=
          (cpswAleAddUcast params.ale s.ale addr hostPortNum aleVlan vid).1 } else s,
        if cpuPort then b.setFdb (addr, vid) (some (.static 0)) else b⟩ := by
  cases cpuPort with
  | false => exact h
  | true =>
    exact h.setAle (h.table.addUcast haddr hvid (flagsVid_vlan vid) (by decide) (by decide) hroom 0)
      (regs_store _ _ _) rfl rfl

theorem Views.delHost (h : Views params lossy ⟨s, b⟩) (addr : MacAddr) (vid : U16)
    (cpuPort : Bool) : Views params lossy
      ⟨if cpuPort then { s with ale := (cpswAleDelUcast s.ale addr hostPortNum aleVlan vid).1 }
          else s,
        if cpuPort then b.setFdb (addr, vid) none else b⟩ := by
  cases cpuPort with
  | false => exact h
  | true =>
    exact h.setAle (h.table.delUcast (flagsVid_vlan vid) addr hostPortNum) (regs_delUcast _ _ _ _ _)
      rfl rfl

theorem Views.dropPvid (h : Views params lossy ⟨s, b⟩) (p : Port) (vid : U16) :
    Views params lossy
      ⟨if vid = cpswGetPvid params s p then cpswSetPvid params s p 0 false 0 else s,
        if vid = b.pvid p then b.setPvid p 0 else b⟩ := by
  rw [h.getPvid p]
  split
  · exact h.setPvid p (by decide)
  · exact h

theorem Views.vlanAdd (h : Views params lossy ⟨s, b⟩) (p : Port) {ndev : NetDev}
    (hmac : isMulticastEtherAddr ndev.macAddr = false) (hvid : vid.toNat < vlanNVid)
    (hroom : ¬ lossy → Room s.ale) (orig : OrigDev) (untag pvid : Bool) :
    Shown params lossy b (b.vlanAdd p ndev orig untag pvid vid)
      (cpswPortVlanAdd params s p ndev untag pvid vid orig) := by
  obtain ⟨hgranted, hrefused⟩ := h.table.vlanAddModify hvid (memberOf orig.bridgeMaster p) untag
    (testBits (if orig.bridgeMaster then orig.flags else ndev.flags) iffMulticast)
    orig.bridgeMaster
  unfold cpswPortVlanAdd Bridge.vlanAdd
  dsimp only
  rw [portMaskOf_eq]
  generalize hword : toWord 32 {memberOf orig.bridgeMaster p} = w at hgranted hrefused
  have hregs := regs_addVlan params.directMasks s.ale vid
  have hroom' : ¬ lossy → ¬ NoRoom (cpswAleVlanAddModify params.ale s.ale vid w
      (if untag then w else 0)
      (if testBits (if orig.bridgeMaster then orig.flags else ndev.flags) iffMulticast then w else 0)
      (if orig.bridgeMaster then w else 0)).1 := fun hl =>
    room_vlanAddModify (hroom hl) vid _ _ _ _ hvid
  generalize hr : cpswAleVlanAddModify params.ale s.ale vid w _ _ _ = r at hgranted hrefused hroom'
  have hrregs : r.1.regs = s.ale.regs := by
    rw [← hr]
    exact hregs _ _ _ _
  by_cases hret : r.2 = 0
  · rw [if_neg (not_not.mpr hret)]
    have hvlan := h.setAle (hgranted hret) hrregs rfl rfl
    have hmacs := hvlan.addHost hmac hvid hroom' orig.bridgeMaster
    cases pvid with
    | false => exact shown_of_zero hret hmacs
    | true => exact shown_of_zero hret (hmacs.setPvid p hvid)
  · rw [if_pos hret]
    exact shown_of_error hret (h.setAle (hrefused hret) hrregs rfl rfl)

theorem Views.vlanDel (h : Views params lossy ⟨s, b⟩) (p : Port) (ndev : NetDev)
    (orig : OrigDev) (vid : U16) :
    Shown params lossy b (b.vlanDel p ndev orig vid)
      (cpswPortVlanDel params s p ndev vid orig) := by
  obtain ⟨hgranted, hrefused⟩ := h.table.vlanDelModify vid (memberOf orig.bridgeMaster p)
  have hregs : (cpswAleVlanDelModify params.ale s.ale vid
      (toWord 32 {memberOf orig.bridgeMaster p})).1.regs = s.ale.regs := regs_vlanDelModify _ _ _
  unfold cpswPortVlanDel Bridge.vlanDel
  dsimp only
  rw [portMaskOf_eq]
  generalize cpswAleVlanDelModify params.ale s.ale vid _ = r at hgranted hrefused hregs
  by_cases hret : r.2 = 0
  · rw [if_neg (not_not.mpr hret)]
    have hvlan := h.setAle (hgranted hret) hregs rfl rfl
    have hmac := hvlan.delHost ndev.macAddr vid orig.bridgeMaster
    have hpvid := hmac.dropPvid p vid
    exact shown_of_zero hret (hpvid.setAle (hpvid.table.delMcast isMulticast_broadcast vid _)
      (regs_delMcast _ _ _ _ _) rfl rfl)
  · rw [if_pos hret]
    exact shown_of_error hret (h.setAle (hrefused hret) hregs rfl rfl)

theorem Views.mdbAdd (h : Views params lossy ⟨s, b⟩) (p : Port) {addr : MacAddr}
    (haddr : isMulticastEtherAddr addr = true) (hvid : vid.toNat < vlanNVid) (orig : OrigDev) :
    Shown params lossy b (b.setFdb (addr, vid)
        (some (FdbEntry.joinGroup (b.fdb (addr, vid)) (memberOf orig.bridgeMaster p))))
      (cpswPortMdbAdd params s p addr vid orig) := by
  obtain ⟨hgranted, hrefused⟩ := h.table.addMcast haddr hvid (memberOf orig.bridgeMaster p)
  have hregs : (cpswAleAddMcast params.ale s.ale addr (toWord 32 {memberOf orig.bridgeMaster p})
      aleVlan vid 0).1.regs = s.ale.regs := regs_store _ _ _
  unfold cpswPortMdbAdd
  dsimp only
  rw [portMaskOf_eq]
  generalize cpswAleAddMcast params.ale s.ale addr _ aleVlan vid 0 = r at hgranted hrefused hregs
  by_cases hret : r.2 = 0
  · exact shown_of_zero hret (h.setAle (hgranted hret) hregs rfl rfl)
  · refine shown_of_error hret ?_
    rw [hrefused hret]
    exact h

theorem Views.mdbDel (h : Views params lossy ⟨s, b⟩) (p : Port) {addr : MacAddr}
    (haddr : isMulticastEtherAddr addr = true) (vid : U16) (orig : OrigDev) :
    Shown params lossy b (b.setFdb (addr, vid)
        ((b.fdb (addr, vid)).bind (FdbEntry.leaveGroup (memberOf orig.bridgeMaster p))))
      (cpswPortMdbDel params s p addr vid orig) := by
  have htable := h.table.delMcast haddr vid (memberOf orig.bridgeMaster p)
  have hviews := h.setAle htable (regs_delMcast _ _ _ _ _) rfl rfl
  have hdel : Deleted params.ale s.ale (keyOf addr aleVlan vid) _ (cpswAleDelMcast params.ale s.ale
      addr (toWord 32 {memberOf orig.bridgeMaster p}) aleVlan vid) :=
    h.table.keyed.deleted_mcast haddr (toWord 32 {memberOf orig.bridgeMaster p}) aleVlan vid
  unfold cpswPortMdbDel
  dsimp only
  rw [portMaskOf_eq]
  rcases hdel.ret with hret | ⟨hret, hsame⟩
  · exact shown_of_zero hret hviews
  · have hne : (cpswAleDelMcast params.ale s.ale addr (toWord 32 {memberOf orig.bridgeMaster p})
        aleVlan vid).2 ≠ 0 := by
      rw [hret]
      exact neg_enoent_ne_zero
    refine shown_of_error hne ?_
    rw [hsame]
    exact h

theorem flagsVid_fdbFlags (vid : U16) : flagsVid (fdbFlags vid) vid = vid := by
  unfold fdbFlags
  split
  · exact flagsVid_vlan vid
  · rename_i hzero
    rw [not_not.mp hzero]
    rfl

theorem fdbFlags_plain (vid : U16) : testBits (fdbFlags vid) aleSecure = false ∧
    testBits (fdbFlags vid) aleBlocked = false := by
  unfold fdbFlags
  split <;> decide

theorem fdbPort_eq (p : Port) (ndev : NetDev) (addr : MacAddr) :
    fdbPort p ndev addr = BitVec.ofNat 32 (memberOf (decide (ndev.macAddr = addr)) p).val := by
  unfold fdbPort memberOf
  by_cases hown : ndev.macAddr = addr
  · rw [if_pos hown, decide_eq_true hown]
    rfl
  · rw [if_neg hown, decide_eq_false hown]
    rfl

theorem Views.setRefs (h : Views params lossy ⟨s, b⟩) (refs : Port → ℕ) (registered : Port → Bool) :
    Views params lossy ⟨{ s with refs := refs, registered := registered }, b⟩ :=
  ⟨h.table, h.settled, h.state, h.pvid, h.pvid_lt, h.works⟩

theorem Views.setWorks (h : Views params lossy ⟨s, b⟩) {works : List EventWork}
    (hworks : ∀ w ∈ works, isMulticastEtherAddr w.fdbInfo.addr = false ∧
      w.fdbInfo.vid.toNat < vlanNVid) : Views params lossy ⟨{ s with works := works }, b⟩ :=
  ⟨h.table, h.settled, h.state, h.pvid, h.pvid_lt, hworks⟩

theorem Views.work (h : Views params lossy ⟨s, b⟩) {w : EventWork}
    (haddr : isMulticastEtherAddr w.fdbInfo.addr = false) (hvid : w.fdbInfo.vid.toNat < vlanNVid)
    (hroom : ¬ lossy → ¬ NoRoom s.ale) (ndev : NetDev) :
    Views params lossy ⟨(cpswSwitchdevEventWork params s w ndev).1, b.work w ndev⟩ := by
  have hflags := flagsVid_fdbFlags w.fdbInfo.vid
  obtain ⟨hsecure, hblocked⟩ := fdbFlags_plain w.fdbInfo.vid
  have hadd := h.setAle (h.table.addUcast haddr hvid hflags hsecure hblocked hroom
    (memberOf (decide (ndev.macAddr = w.fdbInfo.addr)) w.port)) (regs_store _ _ _) rfl rfl
  rw [← fdbPort_eq] at hadd
  have hdel := h.setAle (h.table.delUcast hflags w.fdbInfo.addr
    (fdbPort w.port ndev w.fdbInfo.addr)) (regs_delUcast _ _ _ _ _) rfl rfl
  unfold cpswSwitchdevEventWork Bridge.work
  dsimp only
  have hskip : (!w.fdbInfo.addedByUser || w.fdbInfo.isLocal) =
      !(w.fdbInfo.addedByUser && !w.fdbInfo.isLocal) := by
    rw [Bool.not_and, Bool.not_not]
  rw [hskip]
  cases w.fdbInfo.addedByUser && !w.fdbInfo.isLocal with
  | false => cases w.event <;> exact h.setRefs _ _
  | true => cases w.event with
    | fdbAddToDevice => exact hadd.setRefs _ _
    | fdbDelToDevice => exact hdel.setRefs _ _
    | other => exact h.setRefs _ _

theorem Views.step {sys sys' : System} (h : Views params lossy sys) {op : Op}
    (hop : WellFormed sys.driver op) (hroom : ¬ lossy → RoomFor sys.driver op)
    (hst : System.step params sys op = some sys') : Views params lossy sys' := by
  obtain ⟨s, b⟩ := sys
  obtain ⟨r, hr, rfl⟩ := Option.map_eq_some_iff.mp hst
  cases op with
  | attrSet p attr =>
    simp only [Switchdev.step] at hr
    split at hr
    · cases hr
      exact h.attrSet p attr
    · cases hr
  | objAdd p ndev orig obj =>
    simp only [Switchdev.step] at hr
    split at hr
    · cases hr
      obtain ⟨hmac, hobj⟩ := hop
      cases obj with
      | portVlan vid flags => exact h.vlanAdd p hmac hobj hroom orig _ _
      | portMdb addr vid => exact h.mdbAdd p hobj.1 hobj.2 orig
      | hostMdb addr vid => exact h.mdbAdd p hobj.1 hobj.2 orig
      | other => exact shown_of_error (by decide : -eopnotsupp ≠ 0) h
    · cases hr
  | objDel p ndev orig obj =>
    simp only [Switchdev.step] at hr
    split at hr
    · cases hr
      obtain ⟨-, hobj⟩ := hop
      cases obj with
      | portVlan vid flags => exact h.vlanDel p ndev orig vid
      | portMdb addr vid => exact h.mdbDel p hobj.1 vid orig
      | hostMdb addr vid => exact h.mdbDel p hobj.1 vid orig
      | other => exact shown_of_error (by decide : -eopnotsupp ≠ 0) h
    · cases hr
  | event p event fdbInfo portDevCheck workAlloc addrAlloc =>
    simp only [Switchdev.step] at hr
    split at hr
    · cases hr
      have hqueue : ∀ w ∈ s.works ++ [⟨p, event, fdbInfo⟩],
          isMulticastEtherAddr w.fdbInfo.addr = false ∧ w.fdbInfo.vid.toNat < vlanNVid := by
        intro w hw
        rcases List.mem_append.mp hw with hold | hnew
        · exact h.works w hold
        · rw [List.mem_singleton.mp hnew]
          exact hop
      have hqueued := (h.setWorks hqueue).setRefs (Function.update s.refs p (s.refs p + 1))
        s.registered
      refine shown_of_zero (b := b) (r := (_, 0)) rfl ?_
      unfold cpswSwitchdevEvent
      cases portDevCheck with
      | false => exact h
      | true => cases workAlloc with
        | false => exact h
        | true => cases event with
          | other => exact h
          | fdbAddToDevice => cases addrAlloc with
            | false => exact h
            | true => exact hqueued
          | fdbDelToDevice => cases addrAlloc with
            | false => exact h
            | true => exact hqueued
    · cases hr
  | work i ndev =>
    simp only [Switchdev.step] at hr
    split at hr
    · cases hr
    · rename_i w hw
      cases hr
      obtain ⟨haddr, hvid⟩ := h.works w (List.mem_of_getElem? hw)
      have hone : ¬ lossy → ¬ NoRoom s.ale := fun hl => not_noRoom (by
        have htwo : 2 ≤ s.ale.table.countP _ := hroom hl
        omega)
      have hrest : Views params lossy ⟨{ s with works := s.works.eraseIdx i }, b⟩ :=
        h.setWorks fun w' hw' => h.works w' (List.mem_of_mem_eraseIdx hw')
      have hafter := hrest.work haddr hvid hone ndev
      simp only [Bridge.apply, hw]
      exact hafter
  | unregister p =>
    simp only [Switchdev.step] at hr
    split at hr
    · cases hr
      exact h.setRefs s.refs _
    · cases hr
  | hardware idx aleEntry =>
    simp only [Switchdev.step] at hr
    split at hr
    · cases hr
      exact h.setAle (h.table.hardware ‹_›) rfl rfl rfl
    · cases hr

/-- Whatever room the table has, the driver shows every VLAN and every group, the state and the
port VLAN of every port as the bridge was granted them, and no address that it did not ask for. -/
theorem views_of_run {sys sys' : System} (h : Views params True sys) {ops : List Op}
    (hrun : Run (System.step params) (fun sys op => WellFormed sys.driver op) sys ops sys') :
    Views params True sys' :=
  hrun.invariant (fun _ _ _ hviews hop hst => hviews.step hop (fun hl => absurd trivial hl) hst) h

/-- With room where it is needed no static address is lost either. -/
theorem views_of_roomy_run {sys sys' : System} (h : Views params False sys) {ops : List Op}
    (hrun : Run (System.step params)
      (fun sys op => WellFormed sys.driver op ∧ RoomFor sys.driver op) sys ops sys') :
    Views params False sys' :=
  hrun.invariant (fun _ _ _ hviews hop hst => hviews.step hop.1 (fun _ => hop.2) hst) h

/-- A switch that no bridge has asked for anything yet, with `n` entries in its table. -/
def emptySystem (n : ℕ) : System where
  driver := {
    ale := emptyAle n
    slaveRegs := fun _ _ => 0
    works := []
    refs := fun _ => 0
    registered := fun _ => true }
  bridge := ⟨fun _ => none, fun _ => none, fun _ => .disable, fun _ => 0⟩

theorem devId_threePorts : threePorts.dev.devId = "cpsw" :=
  rfl

theorem alePorts_threePorts : threePorts.alePorts = 3 :=
  rfl

def threePortParams : CpswParams where
  ale := threePorts
  version := .v2
  devId := devId_threePorts
  alePorts := alePorts_threePorts

theorem views_empty (params : CpswParams) (lossy : Prop) (n : ℕ) :
    Views params lossy (emptySystem n) := by
  have hfree := free_emptyAle n
  have hnone : ∀ {κ : Type} [DecidableEq κ] {key : AleEntry → Option κ} (k : κ),
      (∀ e, isFree e = true → key e = none) → Slots.lookup key (emptyAle n).table k = none := by
    intro κ _ key k hkey
    rw [Slots.lookup_eq_none_iff]
    intro j e hj hk
    rw [hkey e (hfree e (List.mem_of_getElem? hj))] at hk
    cases hk
  have hsettled : testBits 0 (1#32 <<< 30) = false := by decide
  have hpvid : (0 : U16).toNat < vlanNVid := by decide
  refine ⟨⟨keyed_of_free hfree, fun vid => ?_, fun k => .inl ?_⟩, hsettled, fun p => ?_,
    fun _ => rfl, fun _ => hpvid, fun w hw => absurd hw List.not_mem_nil⟩
  · exact lookupVlan_eq_none_iff.mpr (hnone _ fun e => vlanKey_of_free)
  · exact fixed_of_absent (lookupAddr_eq_none_iff.mpr (hnone _ fun e => addrKey_of_free))
  · unfold portField
    rw [show (emptySystem n).driver.ale.regs (alePortctl + emacPort p * 4) = 0 from rfl]
    exact BitVec.zero_and

def station : NetDev := ⟨fun _ => 2, iffMulticast⟩

/-- A port joins a VLAN, the host joins it too, a group is joined, and the bridge sets a static
address and a port state. -/
def requests : List Op :=
  [.objAdd 0 station ⟨false, 0⟩ (.portVlan 5 (bridgeVlanInfoPvid ||| bridgeVlanInfoUntagged)),
    .event 0 .fdbAddToDevice ⟨fun _ => 4, 5, true, false⟩ true true true,
    .objAdd 1 station ⟨true, 0⟩ (.portVlan 5 0),
    .objAdd 0 station ⟨false, 0⟩ (.portMdb (fun _ => 1) 5),
    .work 0 station,
    .attrSet 1 (.portStpState brStateLearning)]

/-- What is to be seen of it in the table and in the registers. -/
def requestsDone (sys : System) : Bool :=
  lookupVlan threePorts sys.driver.ale 5 == some ⟨3, 2, 2, 1⟩ &&
    lookupAddr threePorts sys.driver.ale (fun _ => 4, 5) ==
      some (.ucast aleUcastPersistant 1 false false) &&
    portField sys.driver.ale 2 .portState == alePortStateLearn

theorem views_after_requests : ∃ sys' : System, requestsDone sys' = true ∧
    Views threePortParams True sys' := by
  have htest : (exec (System.step threePortParams) (fun sys op => WellFormed sys.driver op)
      (emptySystem 4) requests).any requestsDone = true := by decide +kernel
  obtain ⟨sys', hrun, hdone⟩ := exists_run_of_any htest
  exact ⟨sys', hdone, views_of_run (views_empty threePortParams True 4) hrun⟩

theorem roomy_views_after_requests : ∃ sys' : System, requestsDone sys' = true ∧
    Views threePortParams False sys' := by
  have htest : (exec (System.step threePortParams)
      (fun sys op => WellFormed sys.driver op ∧ RoomFor sys.driver op)
      (emptySystem 8) requests).any requestsDone = true := by decide +kernel
  obtain ⟨sys', hrun, hdone⟩ := exists_run_of_any htest
  exact ⟨sys', hdone, views_of_roomy_run (views_empty threePortParams False 8) hrun⟩

/-- In every run the driver holds each net device once for each of its works that has not run,
so no work runs for a net device that is gone, and none is held without a reason. -/
theorem held_of_run {sys sys' : System} (h : Held sys.driver) {ops : List Op}
    (hrun : Run (System.step params) anyStep sys ops sys') : Held sys'.driver := by
  refine hrun.invariant (I := fun sys => Held sys.driver) (fun sys op sys' hheld _ hst => ?_) h
  obtain ⟨r, hr, rfl⟩ := Option.map_eq_some_iff.mp hst
  exact hheld.step hr

theorem held_after_event : ∃ sys' : System, (sys'.driver.works.length == 1) = true ∧
    Held sys'.driver := by
  have htest : (exec (System.step threePortParams) anyStep (emptySystem 4) (requests.take 2)).any
      (fun sys => sys.driver.works.length == 1) = true := by decide +kernel
  obtain ⟨sys', hrun, hlength⟩ := exists_run_of_any htest
  have hheld : Held (emptySystem 4).driver := ⟨fun _ => rfl, fun _ hw => absurd hw List.not_mem_nil⟩
  exact ⟨sys', hlength, held_of_run hheld hrun⟩

/-- A request to make a VLAN of the host the port VLAN. -/
def CpuPvid : Op → Prop
  | .objAdd _ _ orig (.portVlan _ flags) =>
    orig.bridgeMaster = true ∧ (flags &&& bridgeVlanInfoPvid != 0) = true
  | _ => False

instance : DecidablePred CpuPvid
  | .objAdd _ _ orig (.portVlan _ flags) => inferInstanceAs (Decidable
      (orig.bridgeMaster = true ∧ (flags &&& bridgeVlanInfoPvid != 0) = true))
  | .objAdd _ _ _ (.portMdb _ _) | .objAdd _ _ _ (.hostMdb _ _) | .objAdd _ _ _ .other
  | .attrSet _ _ | .objDel _ _ _ _ | .event _ _ _ _ _ _ | .work _ _ | .unregister _
  | .hardware _ _ => .isFalse id

def Bridge.PvidMember (b : Bridge) : Prop :=
  ∀ p, b.pvid p ≠ 0 → p.succ ∈ Vlan.portsOf (b.vlan (b.pvid p))

theorem Bridge.PvidMember.setPvid (h : b.PvidMember)
    (hvid : vid ≠ 0 → p.succ ∈ Vlan.portsOf (b.vlan vid)) : (b.setPvid p vid).PvidMember := by
  intro q hq
  unfold Bridge.setPvid at hq ⊢
  dsimp only at hq ⊢
  by_cases heq : q = p
  · rw [heq, Function.update_self] at hq ⊢
    exact hvid hq
  · rw [Function.update_of_ne heq] at hq ⊢
    exact h q hq

theorem Bridge.PvidMember.attrSet (h : b.PvidMember) (p : Port) (attr : SwitchdevAttr) :
    (b.attrSet p attr).PvidMember := by
  cases attr with
  | portPreBridgeFlags mask val => exact h
  | portStpState state =>
    unfold Bridge.attrSet
    dsimp only
    split <;> exact h
  | portBridgeFlags mask val =>
    unfold Bridge.attrSet
    dsimp only
    split
    · intro q hq
      have hmem := h q hq
      dsimp only
      cases hv : b.vlan (b.pvid q) with
      | none =>
        rw [hv] at hmem
        exact absurd hmem (Finset.notMem_empty _)
      | some v =>
        rw [hv] at hmem
        exact hmem
    · exact h
  | other => exact h

/-- Who joins a VLAN puts nobody else out. -/
theorem Bridge.PvidMember.joinVlan (h : b.PvidMember) (vid : U16) (i : SwitchPort)
    (untag mcast unreg : Bool) :
    (b.setVlan vid (some (Vlan.join (b.vlan vid) i untag mcast unreg))).PvidMember := by
  intro q hq
  have hmem := h q hq
  unfold Bridge.setVlan
  dsimp only
  by_cases heq : b.pvid q = vid
  · rw [heq] at hmem ⊢
    rw [Function.update_self]
    exact (Vlan.mem_join _ _ _ _ _ _).mpr (.inr hmem)
  · rw [Function.update_of_ne heq]
    exact hmem

theorem Bridge.PvidMember.vlanAdd (h : b.PvidMember) (p : Port) (ndev : NetDev)
    {orig : OrigDev} {pvid : Bool} (hcpu : ¬ (orig.bridgeMaster = true ∧ pvid = true))
    (untag : Bool) (vid : U16) : (b.vlanAdd p ndev orig untag pvid vid).PvidMember := by
  unfold Bridge.vlanAdd
  dsimp only
  have hjoined := h.joinVlan vid (memberOf orig.bridgeMaster p) untag
    (testBits (if orig.bridgeMaster then orig.flags else ndev.flags) iffMulticast)
    orig.bridgeMaster
  cases pvid with
  | false => cases hmaster : orig.bridgeMaster <;> rw [hmaster] at hjoined <;> exact hjoined
  | true =>
    have hport : orig.bridgeMaster = false := by
      cases hmaster : orig.bridgeMaster with
      | false => rfl
      | true => exact absurd ⟨hmaster, rfl⟩ hcpu
    rw [hport] at hjoined ⊢
    refine hjoined.setPvid fun _ => ?_
    unfold Bridge.setVlan
    dsimp only
    rw [Function.update_self]
    exact (Vlan.mem_join _ _ _ _ _ _).mpr (.inl rfl)

theorem memberOf_ne {q : Port} (hne : q ≠ p) (cpuPort : Bool) :
    (q.succ : SwitchPort) ≠ memberOf cpuPort p := by
  cases cpuPort with
  | false => exact fun heq => hne (Fin.succ_inj.mp heq)
  | true => exact Fin.succ_ne_zero q

/-- A port that leaves its port VLAN has none then. -/
theorem Bridge.PvidMember.vlanDel (h : b.PvidMember) (p : Port) (ndev : NetDev) (orig : OrigDev)
    (vid : U16) : (b.vlanDel p ndev orig vid).PvidMember := by
  have hstep : ∀ b' : Bridge,
      b'.vlan = Function.update b.vlan vid
        ((b.vlan vid).bind (Vlan.leave · (memberOf orig.bridgeMaster p))) →
      b'.pvid = b.pvid → (if vid = b'.pvid p then b'.setPvid p 0 else b').PvidMember := by
    intro b' hvlan hpvid q hq
    have hkeeps : q ≠ p → b.pvid q ≠ 0 → (q.succ : SwitchPort) ∈ Vlan.portsOf
        (Function.update b.vlan vid ((b.vlan vid).bind
          (Vlan.leave · (memberOf orig.bridgeMaster p))) (b.pvid q)) := by
      intro hne hzero
      have hmem := h q hzero
      by_cases heq : b.pvid q = vid
      · rw [heq] at hmem ⊢
        rw [Function.update_self]
        cases hv : b.vlan vid with
        | none =>
          rw [hv] at hmem
          exact absurd hmem (Finset.notMem_empty _)
        | some v =>
          rw [hv] at hmem
          exact (Vlan.mem_leave v _ _).mpr ⟨hmem, memberOf_ne hne _⟩
      · rw [Function.update_of_ne heq]
        exact hmem
    by_cases hpv : vid = b'.pvid p
    · rw [if_pos hpv] at hq ⊢
      unfold Bridge.setPvid at hq ⊢
      dsimp only at hq ⊢
      by_cases heq : q = p
      · rw [heq, Function.update_self] at hq
        exact absurd rfl hq
      · rw [Function.update_of_ne heq, hpvid] at hq ⊢
        rw [hvlan]
        exact hkeeps heq hq
    · rw [if_neg hpv] at hq ⊢
      rw [hpvid] at hq hpv ⊢
      rw [hvlan]
      by_cases heq : q = p
      · subst heq
        rw [Function.update_of_ne (Ne.symm hpv)]
        exact h q hq
      · exact hkeeps heq hq
  unfold Bridge.vlanDel
  dsimp only
  generalize memberOf orig.bridgeMaster p = i at hstep
  cases orig.bridgeMaster with
  | false => exact hstep _ rfl rfl
  | true => exact hstep _ rfl rfl

theorem Bridge.PvidMember.apply (h : b.PvidMember) (s : State) {op : Op} (hop : ¬ CpuPvid op) :
    (b.apply s op).PvidMember := by
  cases op with
  | attrSet p attr => exact h.attrSet p attr
  | objAdd p ndev orig obj =>
    cases obj with
    | portVlan vid flags => exact h.vlanAdd p ndev hop _ vid
    | portMdb addr vid => exact h
    | hostMdb addr vid => exact h
    | other => exact h
  | objDel p ndev orig obj =>
    cases obj with
    | portVlan vid flags => exact h.vlanDel p ndev orig vid
    | portMdb addr vid => exact h
    | hostMdb addr vid => exact h
    | other => exact h
  | work i ndev =>
    unfold Bridge.apply
    dsimp only
    cases s.works[i]? with
    | none => exact h
    | some w =>
      unfold Bridge.work
      dsimp only
      split
      · cases w.event <;> exact h
      · exact h
  | event p event fdbInfo portDevCheck workAlloc addrAlloc => exact h
  | unregister p => exact h
  | hardware idx aleEntry => exact h

theorem testBits_toWord (t : Finset SwitchPort) (i : SwitchPort) :
    testBits (toWord 32 t) (1#32 <<< i.val) = true ↔ i ∈ t := by
  unfold testBits
  rw [← toWord_member, ← toWord_inter (by decide), bne_iff_ne, ne_eq,
    toWord_eq_zero_iff (by decide), ← ne_eq, ← Finset.nonempty_iff_ne_empty]
  constructor
  · rintro ⟨j, hj⟩
    obtain ⟨ht, hi⟩ := Finset.mem_inter.mp hj
    rwa [← Finset.mem_singleton.mp hi]
  · intro hi
    exact ⟨i, Finset.mem_inter.mpr ⟨hi, Finset.mem_singleton_self i⟩⟩

/-- The port VLAN register of a port names a VLAN whose entry in the table has the port. -/
def PvidMember (params : CpswParams) (s : State) : Prop :=
  ∀ p, cpswGetPvid params s p ≠ 0 → ∃ m,
    lookupVlan params.ale s.ale ((cpswGetPvid params s p).setWidth 32) = some m ∧
      testBits m.members (1#32 <<< emacPort p) = true

theorem Views.pvidMember_iff {sys : System} (h : Views params lossy sys) :
    PvidMember params sys.driver ↔ sys.bridge.PvidMember := by
  obtain ⟨s, b⟩ := sys
  apply forall_congr'
  intro p
  dsimp only
  rw [h.getPvid p, h.table.vlan]
  apply imp_congr_right
  intro _
  dsimp only
  cases b.vlan (b.pvid p) with
  | none =>
    refine iff_of_false ?_ (Finset.notMem_empty _)
    rintro ⟨m, hm, -⟩
    cases hm
  | some v =>
    constructor
    · rintro ⟨m, hm, hbit⟩
      obtain rfl := Option.some.inj hm
      exact (testBits_toWord v.ports p.succ).mp hbit
    · intro hmem
      exact ⟨v.masks, rfl, (testBits_toWord v.ports p.succ).mpr hmem⟩

/-- As long as no VLAN of the host is made a port VLAN, every port is in its port VLAN. -/
theorem pvidMember_of_run {sys sys' : System} (h : Views params True sys)
    (hmember : PvidMember params sys.driver) {ops : List Op}
    (hrun : Run (System.step params) (fun sys op => WellFormed sys.driver op ∧ ¬ CpuPvid op)
      sys ops sys') : PvidMember params sys'.driver := by
  have hinv : Views params True sys' ∧ sys'.bridge.PvidMember := by
    refine hrun.invariant (I := fun sys => Views params True sys ∧ sys.bridge.PvidMember)
      (fun sys op sys' hboth hop hst => ?_) ⟨h, h.pvidMember_iff.mp hmember⟩
    refine ⟨hboth.1.step hop.1 (fun hl => absurd trivial hl) hst, ?_⟩
    obtain ⟨r, -, rfl⟩ := Option.map_eq_some_iff.mp hst
    dsimp only
    split
    · exact hboth.2.apply sys.driver hop.2
    · exact hboth.2
  exact hinv.1.pvidMember_iff.mpr hinv.2

theorem pvidMember_after_requests : ∃ sys' : System, requestsDone sys' = true ∧
    PvidMember threePortParams sys'.driver := by
  have htest : (exec (System.step threePortParams)
      (fun sys op => WellFormed sys.driver op ∧ ¬ CpuPvid op)
      (emptySystem 4) requests).any requestsDone = true := by decide +kernel
  obtain ⟨sys', hrun, hdone⟩ := exists_run_of_any htest
  have hnone : PvidMember threePortParams (emptySystem 4).driver :=
    fun _ hne => absurd (by decide : cpswGetPvid threePortParams (emptySystem 4).driver 0 = 0) hne
  exact ⟨sys', hdone, pvidMember_of_run (views_empty threePortParams True 4) hnone hrun⟩

/-- A VLAN of the host that is made the port VLAN is one that the port is not in. -/
example : (exec (System.step threePortParams) (fun sys op => WellFormed sys.driver op)
    (emptySystem 4) [.objAdd 0 station ⟨true, 0⟩ (.portVlan 5 bridgeVlanInfoPvid)]).any
    (fun sys => cpswGetPvid threePortParams sys.driver 0 == 5 &&
      (lookupVlan threePorts sys.driver.ale 5).map VlanMasks.members == some 1) = true := by
  decide +kernel

end CpswDriver.Switchdev
