import CpswDriver.Ale.Keyed

/-!
The bitmap of the VLANs that the host takes untagged. The receive path trusts
it, so it should agree with the table. It does as long as no add fails after it
has changed the bitmap, and the table is not cleared under a bit that is set:
neither path puts the bitmap back.
-/

namespace CpswDriver.Ale

open Slots Runs

variable {params : AleParams} {ale ale' : CpswAle} {e e' : AleEntry} {vid : U16} {i : ℕ}

/-- The bitmap tells for which VLANs there is an entry that the host takes untagged. -/
def CacheAgrees (params : AleParams) (ale : CpswAle) : Prop :=
  ∀ vid : U16, vid.toNat < vlanNVid → (ale.p0UntagVidMask vid = true ↔
    ∃ e ∈ ale.table, vlanKey e = some (vid.setWidth 32) ∧
      testBits (cpswAleVlanGetFld params e .forceUntaggedMsk) alePortHost = true)

/-- No add fails after a change of the bitmap, and no clear finds a bit set. -/
def InStep (ale : CpswAle) : Op → Prop
  | .addVlan vid _ untag _ _ => cpswAleMatchVlan ale vid = none → NoRoom ale →
      testBits untag alePortHost = ale.p0UntagVidMask vid
  | .vlanAddModify vid _ untagMask _ _ => cpswAleMatchVlan ale vid = none → NoRoom ale →
      testBits untagMask alePortHost = ale.p0UntagVidMask vid
  | .start | .stop => ∀ vid : U16, vid.toNat < vlanNVid → ale.p0UntagVidMask vid = false
  | _ => True

def tableUntags (params : AleParams) (ale : CpswAle) (v : U32) : Bool :=
  (lookup vlanKey ale.table v).any (hostUntagged params)

/-- The invariant: keys are unique, and the bitmap is what the table says. -/
structure Cached (params : AleParams) (ale : CpswAle) : Prop extends Keyed ale where
  agrees : ∀ vid : U16, vid.toNat < vlanNVid →
    ale.p0UntagVidMask vid = tableUntags params ale (vid.setWidth 32)

theorem Cached.cacheAgrees (h : Cached params ale) : CacheAgrees params ale := by
  intro vid hvid
  rw [h.agrees vid hvid, tableUntags, Option.any_eq_true]
  constructor
  · rintro ⟨e, hl, huntag⟩
    obtain ⟨i, hi, hk⟩ := h.vlan.lookup_eq_some_iff.mp hl
    rw [hostUntagged_eq (getEntryType_of_vlanKey hk)] at huntag
    exact ⟨e, List.mem_of_getElem? hi, hk, huntag⟩
  · rintro ⟨e, hmem, hk, huntag⟩
    obtain ⟨i, hi⟩ := List.getElem?_of_mem hmem
    refine ⟨e, h.vlan.lookup_eq_some_iff.mpr ⟨i, hi, hk⟩, ?_⟩
    rw [hostUntagged_eq (getEntryType_of_vlanKey hk), huntag]

/-- Neither the bitmap nor what the table says of any VLAN changes. -/
theorem Cached.same (h : Cached params ale) (hkeyed : Keyed ale')
    (hcache : ale'.p0UntagVidMask = ale.p0UntagVidMask)
    (htable : ∀ v, tableUntags params ale' v = tableUntags params ale v) : Cached params ale' := by
  refine ⟨hkeyed, fun vid hvid => ?_⟩
  rw [hcache, htable, h.agrees vid hvid]

/-- The bitmap and the table change together, for one VLAN. -/
theorem Cached.change (h : Cached params ale) (hkeyed : Keyed ale') {b : Bool}
    (hcache : ale'.p0UntagVidMask = Function.update ale.p0UntagVidMask vid b)
    (htable : ∀ v, tableUntags params ale' v =
      if v = vid.setWidth 32 then b else tableUntags params ale v) : Cached params ale' := by
  refine ⟨hkeyed, fun vid' hvid' => ?_⟩
  rw [hcache, htable]
  by_cases heq : vid' = vid
  · rw [heq, Function.update_self, if_pos rfl]
  · rw [Function.update_of_ne heq, if_neg fun hcon => heq (setWidth_inj hcon), h.agrees vid' hvid']

theorem tableUntags_congr (h : ale'.table = ale.table) (v : U32) :
    tableUntags params ale' v = tableUntags params ale v := by
  unfold tableUntags
  rw [h]

theorem Keyed.tableUntags_store (h : Keyed ale) {k : MacAddr × U32} (hk : addrKey e' = some k)
    (v : U32) : tableUntags params (cpswAleStore ale (slotOf addrKey ale.table k) e').1 v =
      tableUntags params ale v := by
  rcases cpswAleStore_cases addrKey k ale e' with ⟨-, heq⟩ | ⟨i, hplace, heq⟩
  · rw [heq]
  · obtain ⟨gone, hgone, hmap⟩ := h.vlan.lookup_place_other (fun _ => vlanKey_of_free)
      (fun _ _ => vlanKey_of_addrKey) hplace hk
    rw [heq]
    unfold tableUntags cpswAleWrite
    rw [hmap]
    split
    · rename_i hv
      obtain ⟨-, -, e, hl, hage⟩ := hgone v hv
      obtain ⟨-, -, hkey⟩ := h.vlan.lookup_eq_some_iff.mp hl
      rw [vlanKey_of_ageable hage] at hkey
      cases hkey
    · rfl

theorem cpswAleStore_cache (ale : CpswAle) (idx : Option ℕ) (e' : AleEntry) :
    (cpswAleStore ale idx e').1.p0UntagVidMask = ale.p0UntagVidMask := by
  unfold cpswAleStore
  split <;> rfl

/-- A write over a slot without a VLAN entry, of an entry that is none either. -/
theorem Keyed.tableUntags_write (h : Keyed ale) {old : AleEntry} (hi : ale.table[i]? = some old)
    (hold : vlanKey old = none) (he : vlanKey e' = none) (v : U32) :
    tableUntags params (cpswAleWrite ale i e') v = tableUntags params ale v := by
  unfold tableUntags cpswAleWrite
  rw [h.vlan.lookup_set hi (fresh_of_none he), he, hold, if_neg (by simp), if_neg (by simp)]

theorem Keyed.tableUntags_map (h : Keyed ale) {f : AleEntry → AleEntry}
    (hkey : ∀ e, vlanKey (f e) = vlanKey e)
    (huntag : ∀ e v, vlanKey e = some v → hostUntagged params (f e) = hostUntagged params e)
    (v : U32) :
    tableUntags params { ale with table := ale.table.map f } v = tableUntags params ale v := by
  unfold tableUntags
  dsimp only
  rw [h.vlan.lookup_map fun e => .inl (hkey e)]
  cases hl : lookup vlanKey ale.table v with
  | none => rfl
  | some e =>
    obtain ⟨-, -, hk⟩ := h.vlan.lookup_eq_some_iff.mp hl
    rw [Option.bind_some, hkey, if_pos hk]
    exact huntag e v hk

theorem Cached.addUcast (h : Cached params ale) (addr : MacAddr) (port flags : U32)
    (hvid : vid.toNat < vlanNVid) :
    Cached params (cpswAleAddUcast params ale addr port flags vid).1 := by
  refine h.same (h.toKeyed.addUcast addr port flags hvid) (cpswAleStore_cache _ _ _) fun v => ?_
  unfold cpswAleAddUcast
  rw [cpswAleMatchAddr_eq]
  exact h.toKeyed.tableUntags_store (addrKey_ucastEntry params addr port flags hvid) v

theorem Cached.delUcast (h : Cached params ale) (addr : MacAddr) (port flags : U32) (vid : U16) :
    Cached params (cpswAleDelUcast ale addr port flags vid).1 := by
  have hkeyed := h.toKeyed.delUcast addr port flags vid
  unfold cpswAleDelUcast at hkeyed ⊢
  split
  · exact h
  · rename_i hm
    rw [hm] at hkeyed
    obtain ⟨hi, hkey⟩ := matchAddr_some hm
    exact h.same hkeyed rfl (h.toKeyed.tableUntags_write hi (vlanKey_of_addrKey hkey)
      (vlanKey_of_free (isFree_setEntryType 0)))

theorem Cached.addMcast (h : Cached params ale) (addr : MacAddr)
    (portMask flags mcastState : U32) (hvid : vid.toNat < vlanNVid) :
    Cached params (cpswAleAddMcast params ale addr portMask flags vid mcastState).1 := by
  have hkey := addrKey_addMcast params ale addr portMask flags mcastState hvid
  refine h.same (h.toKeyed.addMcast addr portMask flags mcastState hvid)
    (cpswAleStore_cache _ _ _) fun v => ?_
  unfold cpswAleAddMcast
  dsimp only
  rw [cpswAleMatchAddr_eq] at hkey ⊢
  exact h.toKeyed.tableUntags_store hkey v

theorem Cached.delMcast (h : Cached params ale) (addr : MacAddr) (portMask flags : U32)
    (vid : U16) : Cached params (cpswAleDelMcast params ale addr portMask flags vid).1 := by
  have hkeyed : Keyed (cpswAleDelMcast params ale addr portMask flags vid).1 :=
    h.toKeyed.delMcast addr portMask flags vid
  unfold cpswAleDelMcast at hkeyed ⊢
  split
  · exact h
  · rename_i hm
    rw [hm] at hkeyed
    obtain ⟨hi, hkey⟩ := matchAddr_some hm
    exact h.same hkeyed rfl (h.toKeyed.tableUntags_write hi (vlanKey_of_addrKey hkey)
      (vlanKey_delMcastEntry (vlanKey_of_addrKey hkey) portMask))

/-- An edit of the entry that a search found takes the bitmap along. -/
theorem Cached.editVlan (h : Cached params ale) (hm : cpswAleMatchVlan ale vid = some i)
    {r : CpswAle × AleEntry} (hr : VlanEdit params ale vid r) :
    Cached params (cpswAleWrite r.1 i r.2) := by
  obtain ⟨hi, hkey⟩ := matchVlan_some hm
  have h' : Keyed r.1 := h.toKeyed.congr hr.table
  rw [← hr.table] at hi
  have hkeeps : vlanKey r.2 = vlanKey (cpswAleRead ale i) ∨ vlanKey r.2 = none := by
    rcases hr.entry with hfree | hsame
    · exact .inr (vlanKey_of_free hfree)
    · exact .inl (hsame.trans hkey.symm)
  refine h.change (h.toKeyed.editVlan hm hr) hr.cache fun v => ?_
  unfold tableUntags cpswAleWrite
  rw [h'.vlan.lookup_set hi (h'.vlan.fresh_of_keeps hi hkeeps), hkey, ← hr.table]
  have hswap : (some (vid.setWidth 32) = some v) ↔ v = vid.setWidth 32 :=
    ⟨fun heq => (Option.some.inj heq).symm, fun heq => congrArg some heq.symm⟩
  rcases hr.entry with hfree | hsame
  · rw [vlanKey_of_free hfree, if_neg (by simp), hostUntagged_of_free hfree]
    simp only [hswap]
    split <;> rfl
  · rw [hsame]
    simp only [hswap]
    split <;> rfl

/-- An add changes the bitmap first. If there is no slot, the bit must have been so before. -/
theorem Cached.addVlan (h : Cached params ale) (hvid : vid.toNat < vlanNVid)
    (portMask untag regMcast unregMcast : U32)
    (hroom : cpswAleMatchVlan ale vid = none → NoRoom ale →
      testBits untag alePortHost = ale.p0UntagVidMask vid) :
    Cached params (cpswAleAddVlan params ale vid portMask untag regMcast unregMcast).1 := by
  have hkeyed : Keyed (cpswAleAddVlan params ale vid portMask untag regMcast unregMcast).1 :=
    h.toKeyed.addVlan hvid portMask untag regMcast unregMcast
  unfold cpswAleAddVlan at hkeyed ⊢
  dsimp only at hkeyed ⊢
  generalize readOrZero ale (cpswAleMatchVlan ale vid) = e at hkeyed ⊢
  have hkey : vlanKey (addVlanEntry params ale e vid portMask untag regMcast unregMcast).2 = _ :=
    addVlanEntry_key hvid portMask untag regMcast unregMcast
  have hedit : VlanEdit params ale vid
      (addVlanEntry params ale e vid portMask untag regMcast unregMcast) :=
    addVlanEntry_edit hvid portMask untag regMcast unregMcast
  have hbit : hostUntagged params
      (addVlanEntry params ale e vid portMask untag regMcast unregMcast).2 =
      testBits untag alePortHost := by
    rw [hostUntagged_eq (getEntryType_of_vlanKey hkey)]
    exact addVlanEntry_untag portMask untag regMcast unregMcast
  generalize addVlanEntry params ale e vid portMask untag regMcast unregMcast = r
    at hkey hedit hbit hkeyed ⊢
  rw [cpswAleMatchVlan_eq] at hroom hkeyed ⊢
  rw [← hedit.table] at hroom hkeyed ⊢
  have h' : Keyed r.1 := h.toKeyed.congr hedit.table
  rcases cpswAleStore_cases vlanKey (vid.setWidth 32) r.1 r.2 with
    ⟨hplace, heq⟩ | ⟨i, hplace, heq⟩
  · obtain ⟨hnone, hfree, hage⟩ := place_eq_none_iff.mp hplace
    rw [heq] at hkeyed ⊢
    rw [hedit.table] at hfree hage
    have hsame := hroom (slotOf_eq_none_iff.mpr hnone) ⟨hfree, hage⟩
    refine h.same hkeyed ?_ (tableUntags_congr hedit.table)
    rw [hedit.cache, hbit, hsame, Function.update_eq_self]
  · obtain ⟨gone, hgone, hmap⟩ := h'.vlan.lookup_place (fun _ => vlanKey_of_free) hplace hkey
    rw [heq] at hkeyed ⊢
    refine h.change hkeyed hedit.cache fun v => ?_
    unfold tableUntags cpswAleWrite
    rw [hmap, ← hedit.table]
    split
    · rfl
    split
    · rename_i hv
      obtain ⟨-, -, e, hl, hage⟩ := hgone v hv
      obtain ⟨-, -, hk⟩ := h'.vlan.lookup_eq_some_iff.mp hl
      rw [vlanKey_of_ageable hage] at hk
      cases hk
    · rfl

theorem Cached.vlanDelModify (h : Cached params ale) (vid : U16) (portMask : U32) :
    Cached params (cpswAleVlanDelModify params ale vid portMask).1 := by
  unfold cpswAleVlanDelModify
  split
  · exact h
  · rename_i hm
    exact h.editVlan hm (delModifyInt_edit (matchVlan_some hm).2 portMask)

theorem Cached.delVlan (h : Cached params ale) (vid : U16) (portMask : U32) :
    Cached params (cpswAleDelVlan params ale vid portMask).1 := by
  unfold cpswAleDelVlan
  split
  · exact h
  · rename_i hm
    exact h.editVlan hm (delVlanEntry_edit (matchVlan_some hm).2 portMask)

theorem Cached.setAllmulti (h : Cached params ale) (allmulti : Bool) (port : ℤ) :
    Cached params (cpswAleSetAllmulti params ale allmulti port) := by
  have hkeyed : Keyed (cpswAleSetAllmulti params ale allmulti port) :=
    h.toKeyed.setAllmulti allmulti port
  unfold cpswAleSetAllmulti at hkeyed ⊢
  split
  · rename_i hnu
    rw [if_pos hnu] at hkeyed
    refine h.same hkeyed rfl (h.toKeyed.tableUntags_map (fun e => ?_) fun e v _ => ?_)
    · split
      · rename_i happlies
        exact (allmultiEntry_keeps allmulti (allmultiApplies_vlan happlies)).2.1
      · rfl
    · split
      · rename_i happlies
        exact (allmultiEntry_keeps allmulti (allmultiApplies_vlan happlies)).2.2
      · rfl
  · exact h.same (h.toKeyed.congr rfl) rfl fun _ => rfl

theorem tableUntags_of_free (h : ∀ e ∈ ale.table, isFree e = true) (v : U32) :
    tableUntags params ale v = false := by
  have hnone : lookup vlanKey ale.table v = none := by
    apply lookup_eq_none_iff.mpr
    intro i e hi hk
    rw [vlanKey_of_free (h e (List.mem_of_getElem? hi))] at hk
    cases hk
  unfold tableUntags
  rw [hnone]
  rfl

theorem cached_of_free (h : ∀ e ∈ ale.table, isFree e = true)
    (hcache : ∀ vid : U16, vid.toNat < vlanNVid → ale.p0UntagVidMask vid = false) :
    Cached params ale :=
  ⟨keyed_of_free h, fun vid hvid => (hcache vid hvid).trans (tableUntags_of_free h _).symm⟩

theorem Cached.hardware (h : Cached params ale) (hmay : hardwareMay ale i e' = true) :
    Cached params (cpswAleWrite ale i e') := by
  have hkeyed := h.toKeyed.hardware hmay
  unfold hardwareMay at hmay
  split at hmay
  · cases hmay
  rename_i old hi
  simp only [Bool.and_eq_true, Bool.or_eq_true] at hmay
  obtain ⟨hold, hnew⟩ := hmay
  have hkold : vlanKey old = none := by
    rcases hold with hfree | hage
    · exact vlanKey_of_free hfree
    · exact vlanKey_of_ageable hage
  have hknew : vlanKey e' = none := by
    rcases hnew with hfree | ⟨hage, -⟩
    · exact vlanKey_of_free hfree
    · exact vlanKey_of_ageable hage
  exact h.same hkeyed rfl (h.toKeyed.tableUntags_write hi hkold hknew)

theorem untag_zero_and (params : AleParams) (portMask untagMask : U32) :
    testBits ((cpswAleVlanGetFld params 0 .forceUntaggedMsk &&& ~~~portMask) ||| untagMask)
      alePortHost = testBits untagMask alePortHost := by
  have hzero : cpswAleVlanGetFld params 0 .forceUntaggedMsk = 0 := by
    unfold cpswAleVlanGetFld
    simp [(untagFld params).1]
  simp [hzero]

theorem Cached.step (h : Cached params ale) {op : Op} (hop : WellFormed op) (hin : InStep ale op)
    (hst : Ale.step params ale op = some ale') : Cached params ale' := by
  cases op with
  | addUcast addr port flags vid =>
    cases hst
    exact h.addUcast addr port flags hop.2
  | delUcast addr port flags vid =>
    cases hst
    exact h.delUcast addr port flags vid
  | addMcast addr portMask flags vid mcastState =>
    cases hst
    exact h.addMcast addr portMask flags mcastState hop.2
  | delMcast addr portMask flags vid =>
    cases hst
    exact h.delMcast addr portMask flags vid
  | flushMulticast portMask vid =>
    cases hst
    refine h.same (h.toKeyed.flushMulticast portMask vid) rfl (h.toKeyed.tableUntags_map
      (vlanKey_flushEntry params portMask vid) fun e v hk => ?_)
    unfold flushEntry
    rw [if_pos]
    rw [not_addr_of_vlanKey hk]
    rfl
  | addVlan vid portMask untag regMcast unregMcast =>
    cases hst
    exact h.addVlan hop portMask untag regMcast unregMcast hin
  | vlanAddModify vid portMask untagMask regMask unregMask =>
    cases hst
    refine h.addVlan hop _ _ _ _ fun hm hroom => ?_
    rw [hm]
    exact (untag_zero_and params portMask untagMask).trans (hin hm hroom)
  | vlanDelModify vid portMask =>
    cases hst
    exact h.vlanDelModify vid portMask
  | delVlan vid portMask =>
    cases hst
    exact h.delVlan vid portMask
  | setUnregMcast unregMcastMask add =>
    cases hst
    exact h.same (h.toKeyed.setUnregMcast unregMcastMask add) rfl
      (h.toKeyed.tableUntags_map (fun _ => (unregMcastEntry_keeps unregMcastMask add).2.1)
        fun _ _ _ => (unregMcastEntry_keeps unregMcastMask add).2.2)
  | setAllmulti allmulti port =>
    cases hst
    exact h.setAllmulti allmulti port
  | start =>
    cases hst
    obtain ⟨hfree, hcache⟩ := cpswAleStart_clears params ale
    exact cached_of_free hfree fun vid hvid => by rw [hcache, hin vid hvid]
  | stop =>
    cases hst
    obtain ⟨hfree, hcache⟩ := cpswAleStop_clears params ale
    exact cached_of_free hfree fun vid hvid => by rw [hcache, hin vid hvid]
  | hardware idx aleEntry =>
    simp only [Ale.step] at hst
    split at hst
    · cases hst
      exact h.hardware ‹_›
    · cases hst

/-- Along every run in which no add fails after changing the bitmap and no
clear finds a bit set, the bitmap agrees with the table. -/
theorem cacheAgrees_of_run (hempty : ∀ e ∈ ale.table, isFree e = true)
    (hcache : ∀ vid : U16, vid.toNat < vlanNVid → ale.p0UntagVidMask vid = false) {ops : List Op}
    (hrun : Run (step params) (fun ale op => WellFormed op ∧ InStep ale op) ale ops ale') :
    CacheAgrees params ale' :=
  (hrun.invariant (I := Cached params) (fun _ _ _ h hop hst => h.step hop.1 hop.2 hst)
    (cached_of_free hempty hcache)).cacheAgrees

/-- A VLAN that the host takes untagged comes and goes, and another one comes. -/
theorem cacheAgrees_after_adds : ∃ ale' : CpswAle,
    Run (step threePorts) (fun ale op => WellFormed op ∧ InStep ale op) (emptyAle 4)
      [.addVlan 1 7 1 7 0, .delVlan 1 0, .addVlan 2 7 1 7 0] ale' ∧
    ale'.p0UntagVidMask 2 = true ∧ CacheAgrees threePorts ale' := by
  have hroom : ∀ ale : CpswAle, ale.table.any isFree = true → ¬ NoRoom ale := by
    intro ale hany hroom
    obtain ⟨e, hmem, hfree⟩ := List.any_eq_true.mp hany
    rw [hroom.free e hmem] at hfree
    cases hfree
  have hrun : ∃ ale' : CpswAle,
      Run (step threePorts) (fun ale op => WellFormed op ∧ InStep ale op) (emptyAle 4)
      [.addVlan 1 7 1 7 0, .delVlan 1 0, .addVlan 2 7 1 7 0] ale' ∧
      ale'.p0UntagVidMask 2 = true :=
    ⟨_, .cons ⟨by decide, fun _ hno => absurd hno (hroom _ (by decide +kernel))⟩ rfl
      (.cons ⟨by decide, trivial⟩ rfl
      (.cons ⟨by decide, fun _ hno => absurd hno (hroom _ (by decide +kernel))⟩ rfl (.nil _))), rfl⟩
  obtain ⟨ale', hrun, hbit⟩ := hrun
  exact ⟨ale', hrun, hbit, cacheAgrees_of_run (free_emptyAle 4) (fun _ _ => rfl) hrun⟩

/-- A stop under a VLAN that the host takes untagged leaves its bit set. -/
theorem cacheAgrees_fails_after_stop : ¬ ∀ (ops : List Op) (ale' : CpswAle),
    Run (step threePorts) (fun _ op => WellFormed op) (emptyAle 4) ops ale' →
    CacheAgrees threePorts ale' := by
  intro h
  have hrun : ∃ ale' : CpswAle, Run (step threePorts) (fun _ op => WellFormed op) (emptyAle 4)
      [.addVlan 1 7 1 7 0, .stop] ale' ∧ ale'.p0UntagVidMask 1 = true ∧
      (ale'.table.all fun e => (vlanKey e).isNone) = true :=
    ⟨_, .cons (by decide) rfl (.cons trivial rfl (.nil _)), rfl, by decide +kernel⟩
  obtain ⟨ale', hrun, hbit, hnone⟩ := hrun
  obtain ⟨e, hmem, hkey, -⟩ := (h _ ale' hrun 1 (by decide)).mp hbit
  have hno := List.all_eq_true.mp hnone e hmem
  rw [hkey] at hno
  cases hno

end CpswDriver.Ale
