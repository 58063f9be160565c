import CpswDriver.Ale.AddrEntry

/-!
The table as a finite map of addresses. A key is a MAC address with a VLAN id,
zero for an untagged entry, and each operation changes what the map says of its
own key. The only other key that ever goes is that of an entry the hardware was
free to age out, evicted by an add that found the table full.
-/

namespace CpswDriver.Ale

open Slots Runs

variable {params : AleParams} {ale ale' : CpswAle} {e e' old : AleEntry} {vid : U16} {i : ℕ}

abbrev AddrKey := MacAddr × U32

def lookupAddr (params : AleParams) (ale : CpswAle) (k : AddrKey) : Option AddrEntry :=
  (lookup addrKey ale.table k).map (addrEntry params)

/-- The key that an operation with these flags is about. -/
def keyOf (addr : MacAddr) (flags : U32) (vid : U16) : AddrKey :=
  (addr, (flagsVid flags vid).setWidth 32)

/-- What an add may drop beside its own key, which is not found when `absent` holds. -/
def Evicts (ale : CpswAle) (absent : Prop) (gone : Option AddrKey) : Prop :=
  ∀ k, gone = some k → absent ∧ (∀ e ∈ ale.table, isFree e = false) ∧
    ∃ e, lookup addrKey ale.table k = some e ∧ isAgeable e = true

/-- The outcome `r` of adding `v` for the key `k`. -/
structure Added (params : AleParams) (ale : CpswAle) (k : AddrKey) (v : AddrEntry)
    (r : CpswAle × ℤ) : Prop where
  enomem : r.2 = -enomem ↔ lookupAddr params ale k = none ∧ NoRoom ale
  ret : r.2 = 0 ∨ r.2 = -CpswDriver.enomem ∧ r.1 = ale
  stored : r.2 = 0 → ∃ gone, Evicts ale (lookupAddr params ale k = none) gone ∧
    ∀ k', lookupAddr params r.1 k' =
      if k' = k then some v else if gone = some k' then none else lookupAddr params ale k'

/-- The outcome `r` of a delete for the key `k` that leaves `v` of its entry. -/
structure Deleted (params : AleParams) (ale : CpswAle) (k : AddrKey) (v : Option AddrEntry)
    (r : CpswAle × ℤ) : Prop where
  enoent : r.2 = -enoent ↔ lookupAddr params ale k = none
  ret : r.2 = 0 ∨ r.2 = -CpswDriver.enoent ∧ r.1 = ale
  stored : r.2 = 0 →
    ∀ k', lookupAddr params r.1 k' = if k' = k then v else lookupAddr params ale k'

/-- What cpsw_ale_flush_multicast leaves of the entry of a key. -/
def flushed (portMask vid : U32) (k : AddrKey) : AddrEntry → Option AddrEntry
  | .ucast ucastType port secure blocked => some (.ucast ucastType port secure blocked)
  | .mcast ports super mcastState =>
    if (vid ≠ -1 ∧ k.2 ≠ vid) ∨ super = true ∨ isBroadcastEtherAddr k.1 = true ∨
        ports &&& portMask = 0 then
      some (.mcast ports super mcastState)
    else (AddrEntry.mcast ports super mcastState).dropPorts portMask

/-- The table is a map of addresses, and the operations are those of such a map. -/
structure AddrMap (params : AleParams) (ale : CpswAle) : Prop where
  addrUnique : Unique addrKey ale.table
  vlanUnique : Unique vlanKey ale.table
  kind : ∀ k v, lookupAddr params ale k = some v → v.isMcast = isMulticastEtherAddr k.1
  addUcast : ∀ addr port flags (vid : U16), isMulticastEtherAddr addr = false →
    vid.toNat < vlanNVid → port.toNat < params.alePorts →
    Added params ale (keyOf addr flags vid)
      (.ucast aleUcastPersistant port (testBits flags aleSecure) (testBits flags aleBlocked))
      (cpswAleAddUcast params ale addr port flags vid)
  delUcast : ∀ addr port flags (vid : U16), isMulticastEtherAddr addr = false →
    Deleted params ale (keyOf addr flags vid) none (cpswAleDelUcast ale addr port flags vid)
  addMcast : ∀ addr portMask flags (vid : U16) mcastState, isMulticastEtherAddr addr = true →
    vid.toNat < vlanNVid → portMask &&& BitField.bitMask 32 params.portMaskBits = portMask →
    Added params ale (keyOf addr flags vid)
      (.mcast (portMask ||| ((lookupAddr params ale (keyOf addr flags vid)).map
        AddrEntry.ports).getD 0) (testBits flags aleSuper) (mcastState &&& BitField.bitMask 32 2))
      (cpswAleAddMcast params ale addr portMask flags vid mcastState)
  delMcast : ∀ addr portMask flags (vid : U16), isMulticastEtherAddr addr = true →
    Deleted params ale (keyOf addr flags vid)
      (if portMask = 0 then none
        else (lookupAddr params ale (keyOf addr flags vid)).bind (AddrEntry.dropPorts portMask))
      (cpswAleDelMcast params ale addr portMask flags vid)
  flushMulticast : ∀ portMask vid k,
    lookupAddr params (cpswAleFlushMulticast params ale portMask vid).1 k =
      (lookupAddr params ale k).bind (flushed portMask vid k)
  addVlan : ∀ (vid : U16) portMask untag regMcast unregMcast, vid.toNat < vlanNVid →
    ∃ gone, Evicts ale (cpswAleMatchVlan ale vid = none) gone ∧ ∀ k,
      lookupAddr params (cpswAleAddVlan params ale vid portMask untag regMcast unregMcast).1 k =
        if gone = some k then none else lookupAddr params ale k
  vlanAddModify : ∀ (vid : U16) portMask untagMask regMask unregMask, vid.toNat < vlanNVid →
    ∃ gone, Evicts ale (cpswAleMatchVlan ale vid = none) gone ∧ ∀ k,
      lookupAddr params
          (cpswAleVlanAddModify params ale vid portMask untagMask regMask unregMask).1 k =
        if gone = some k then none else lookupAddr params ale k
  vlanDelModify : ∀ vid portMask k,
    lookupAddr params (cpswAleVlanDelModify params ale vid portMask).1 k = lookupAddr params ale k
  delVlan : ∀ vid portMask k,
    lookupAddr params (cpswAleDelVlan params ale vid portMask).1 k = lookupAddr params ale k
  setUnregMcast : ∀ unregMcastMask add k,
    lookupAddr params (cpswAleSetUnregMcast params ale unregMcastMask add) k =
      lookupAddr params ale k
  setAllmulti : ∀ allmulti port k,
    lookupAddr params (cpswAleSetAllmulti params ale allmulti port) k = lookupAddr params ale k

theorem lookupAddr_eq_none_iff {k : AddrKey} :
    lookupAddr params ale k = none ↔ lookup addrKey ale.table k = none := by
  unfold lookupAddr
  rw [Option.map_eq_none_iff]

theorem lookupAddr_congr (h : ale'.table = ale.table) (k : AddrKey) :
    lookupAddr params ale' k = lookupAddr params ale k := by
  unfold lookupAddr
  rw [h]

theorem added_of_store (h : Keyed ale) {k : AddrKey} (hk : addrKey e' = some k) :
    Added params ale k (addrEntry params e')
      (cpswAleStore ale (slotOf addrKey ale.table k) e') := by
  rcases cpswAleStore_cases addrKey k ale e' with ⟨hplace, heq⟩ | ⟨i, hplace, heq⟩
  · obtain ⟨hnone, hfree, hage⟩ := place_eq_none_iff.mp hplace
    rw [heq]
    exact ⟨iff_of_true rfl ⟨lookupAddr_eq_none_iff.mpr hnone, hfree, hage⟩, .inr ⟨rfl, rfl⟩,
      fun hret => absurd hret neg_enomem_ne_zero⟩
  · obtain ⟨gone, hgone, hmap⟩ := h.addr.lookup_place (fun _ => addrKey_of_free) hplace hk
    rw [heq]
    refine ⟨iff_of_false neg_enomem_ne_zero.symm ?_, .inl rfl, fun _ => ⟨gone, ?_, fun k' => ?_⟩⟩
    · rintro ⟨hnone, hroom⟩
      rw [place_eq_none_iff.mpr ⟨lookupAddr_eq_none_iff.mp hnone, hroom.free, hroom.ageable⟩]
        at hplace
      cases hplace
    · intro k' hk'
      obtain ⟨habsent, hfull, hage⟩ := hgone k' hk'
      exact ⟨lookupAddr_eq_none_iff.mpr habsent, hfull, hage⟩
    · unfold lookupAddr cpswAleWrite
      rw [hmap]
      split
      · rfl
      split <;> rfl

theorem Keyed.added_ucast (h : Keyed ale) {addr : MacAddr} {port flags : U32}
    (haddr : isMulticastEtherAddr addr = false) (hvid : vid.toNat < vlanNVid)
    (hport : port.toNat < params.alePorts) :
    Added params ale (keyOf addr flags vid)
      (.ucast aleUcastPersistant port (testBits flags aleSecure) (testBits flags aleBlocked))
      (cpswAleAddUcast params ale addr port flags vid) := by
  rw [← addrEntry_ucastEntry haddr hvid hport]
  unfold cpswAleAddUcast
  rw [cpswAleMatchAddr_eq]
  exact added_of_store h (addrKey_ucastEntry params addr port flags hvid)

theorem lookupAddr_of_match (h : Keyed ale) {addr : MacAddr}
    (hm : cpswAleMatchAddr ale addr vid = some i) :
    lookupAddr params ale (addr, vid.setWidth 32) =
      some (addrEntry params (cpswAleRead ale i)) := by
  unfold lookupAddr
  rw [h.addr.lookup_eq_some_iff.mpr ⟨i, matchAddr_some hm⟩]
  rfl

theorem lookupAddr_of_noMatch {addr : MacAddr} (hm : cpswAleMatchAddr ale addr vid = none) :
    lookupAddr params ale (addr, vid.setWidth 32) = none := by
  rw [cpswAleMatchAddr_eq] at hm
  exact lookupAddr_eq_none_iff.mpr (slotOf_eq_none_iff.mp hm)

/-- The mask that an mcast add starts from is the one in the map. -/
theorem portMask_readOrZero (h : Keyed ale) {addr : MacAddr}
    (haddr : isMulticastEtherAddr addr = true) :
    cpswAleGetPortMask (readOrZero ale (cpswAleMatchAddr ale addr vid)) params.portMaskBits =
      ((lookupAddr params ale (addr, vid.setWidth 32)).map AddrEntry.ports).getD 0 := by
  cases hm : cpswAleMatchAddr ale addr vid with
  | none =>
    rw [lookupAddr_of_noMatch hm]
    exact getField_zero _ _
  | some i =>
    have hread := (getVlanId_of_addrKey (matchAddr_some hm).2).2
    rw [lookupAddr_of_match h hm, addrEntry_of_mcast (by rw [hread, haddr])]
    rfl

theorem Keyed.added_mcast (h : Keyed ale) {addr : MacAddr} {portMask flags : U32}
    (haddr : isMulticastEtherAddr addr = true) (hvid : vid.toNat < vlanNVid)
    (hmask : portMask &&& BitField.bitMask 32 params.portMaskBits = portMask) (mcastState : U32) :
    Added params ale (keyOf addr flags vid)
      (.mcast (portMask ||| ((lookupAddr params ale (keyOf addr flags vid)).map
        AddrEntry.ports).getD 0) (testBits flags aleSuper) (mcastState &&& BitField.bitMask 32 2))
      (cpswAleAddMcast params ale addr portMask flags vid mcastState) := by
  have hread : testBits flags aleVlan = false → cpswAleGetVlanId
      (readOrZero ale (cpswAleMatchAddr ale addr (flagsVid flags vid))) = 0 := readOrZero_vid
  have hkey := addrKey_mcastEntry params addr portMask flags mcastState hvid hread
  have hentry := addrEntry_mcastEntry mcastState haddr hvid hread hmask
  rw [portMask_readOrZero h haddr] at hentry
  unfold keyOf
  rw [← hentry]
  unfold cpswAleAddMcast
  dsimp only
  rw [cpswAleMatchAddr_eq] at hkey ⊢
  exact added_of_store h hkey

theorem lookupAddr_write (h : Keyed ale) (hi : ale.table[i]? = some old)
    (hfresh : Fresh addrKey ale.table i e') (k : AddrKey) :
    lookupAddr params (cpswAleWrite ale i e') k =
      if addrKey e' = some k then some (addrEntry params e')
      else if addrKey old = some k then none else lookupAddr params ale k := by
  unfold lookupAddr cpswAleWrite
  rw [h.addr.lookup_set hi hfresh]
  split
  · rfl
  split <;> rfl

theorem deleted_of_noMatch {addr : MacAddr} (hm : cpswAleMatchAddr ale addr vid = none)
    (v : Option AddrEntry) :
    Deleted params ale (addr, vid.setWidth 32) v (ale, -enoent) :=
  ⟨iff_of_true rfl (lookupAddr_of_noMatch hm), .inr ⟨rfl, rfl⟩,
    fun hret => absurd hret neg_enoent_ne_zero⟩

/-- A write over the entry that a search found, which keeps its key or drops it. -/
theorem deleted_of_match (h : Keyed ale) {addr : MacAddr}
    (hm : cpswAleMatchAddr ale addr vid = some i) {v : Option AddrEntry}
    (hv : (v = none ∧ addrKey e' = none) ∨
      v = some (addrEntry params e') ∧ addrKey e' = addrKey (cpswAleRead ale i)) :
    Deleted params ale (addr, vid.setWidth 32) v (cpswAleWrite ale i e', 0) := by
  obtain ⟨hi, hkey⟩ := matchAddr_some hm
  have hfound : lookupAddr params ale (addr, vid.setWidth 32) = _ := lookupAddr_of_match h hm
  have hkeeps : addrKey e' = addrKey (cpswAleRead ale i) ∨ addrKey e' = none :=
    hv.symm.imp And.right And.right
  refine ⟨iff_of_false neg_enoent_ne_zero.symm (by simp [hfound]), .inl rfl, fun _ k' => ?_⟩
  rw [lookupAddr_write h hi (h.addr.fresh_of_keeps hi hkeeps), hkey]
  rcases hv with ⟨rfl, hnone⟩ | ⟨rfl, hsame⟩
  · rw [hnone, if_neg (by simp)]
    by_cases heq : k' = (addr, vid.setWidth 32)
    · rw [if_pos heq, if_pos (congrArg some heq.symm)]
    · rw [if_neg heq, if_neg fun hcon => heq (Option.some.inj hcon).symm]
  · rw [hsame, hkey]
    by_cases heq : k' = (addr, vid.setWidth 32)
    · rw [if_pos heq, if_pos (congrArg some heq.symm)]
    · rw [if_neg heq, if_neg fun hcon => heq (Option.some.inj hcon).symm,
        if_neg fun hcon => heq (Option.some.inj hcon).symm]

theorem Keyed.deleted_ucast (h : Keyed ale) (addr : MacAddr) (port flags : U32) (vid : U16) :
    Deleted params ale (keyOf addr flags vid) none (cpswAleDelUcast ale addr port flags vid) := by
  unfold cpswAleDelUcast keyOf
  split
  · exact deleted_of_noMatch ‹_› _
  · exact deleted_of_match h ‹_› (.inl ⟨rfl, addrKey_of_free (isFree_setEntryType 0)⟩)

theorem addrEntry_setPortMask (hm : isMulticastEtherAddr (cpswAleGetAddr e) = true) {v : U32}
    (hv : v &&& BitField.bitMask 32 params.portMaskBits = v) :
    addrEntry params (cpswAleSetPortMask e v params.portMaskBits) =
      .mcast v (cpswAleGetSuper e != 0) (cpswAleGetMcastState e) := by
  have hbits : params.portMaskBits ≤ 12 := params.alePorts_le
  have hports : cpswAleGetPortMask (cpswAleSetPortMask e v params.portMaskBits)
      params.portMaskBits = v := by
    unfold cpswAleGetPortMask cpswAleSetPortMask
    rw [getField_setField ⟨by decide, by omega, by omega⟩, hv]
  have hsuper : cpswAleGetSuper (cpswAleSetPortMask e v params.portMaskBits) =
      cpswAleGetSuper e := getField_setPorts (by omega) (by decide) (by decide) (by decide) _
  have hstate : cpswAleGetMcastState (cpswAleSetPortMask e v params.portMaskBits) =
      cpswAleGetMcastState e := getField_setPorts (by omega) (by decide) (by decide) (by decide) _
  have haddr : cpswAleGetAddr (cpswAleSetPortMask e v params.portMaskBits) = cpswAleGetAddr e :=
    getAddr_setField (by decide) (by decide) (by omega) _ _
  rw [addrEntry_of_mcast (by rw [haddr, hm]), hports, hsuper, hstate]

theorem and_not_fits (e : AleEntry) (portMask : U32) :
    cpswAleGetPortMask e params.portMaskBits &&& ~~~portMask &&&
      BitField.bitMask 32 params.portMaskBits =
      cpswAleGetPortMask e params.portMaskBits &&& ~~~portMask := by
  have hself : cpswAleGetPortMask e params.portMaskBits &&&
      BitField.bitMask 32 params.portMaskBits = cpswAleGetPortMask e params.portMaskBits :=
    BitField.get_and_bitMask _ _ _
  rw [BitVec.and_assoc, BitVec.and_comm (~~~portMask), ← BitVec.and_assoc, hself]

theorem Keyed.deleted_mcast (h : Keyed ale) {addr : MacAddr}
    (haddr : isMulticastEtherAddr addr = true) (portMask flags : U32) (vid : U16) :
    Deleted params ale (keyOf addr flags vid)
      (if portMask = 0 then none
        else (lookupAddr params ale (keyOf addr flags vid)).bind (AddrEntry.dropPorts portMask))
      (cpswAleDelMcast params ale addr portMask flags vid) := by
  unfold cpswAleDelMcast keyOf
  cases hm : cpswAleMatchAddr ale addr (flagsVid flags vid) with
  | none => exact deleted_of_noMatch hm _
  | some i =>
    refine deleted_of_match h hm ?_
    have hread := (getVlanId_of_addrKey (matchAddr_some hm).2).2
    have hmcast : isMulticastEtherAddr (cpswAleGetAddr (cpswAleRead ale i)) = true := by
      rw [hread, haddr]
    rw [lookupAddr_of_match h hm, addrEntry_of_mcast hmcast]
    generalize cpswAleRead ale i = e at hmcast
    have hfree := addrKey_of_free (isFree_setEntryType e)
    unfold delMcastEntry
    dsimp only [Option.bind_some, AddrEntry.dropPorts]
    by_cases hzero : portMask = 0
    · rw [if_pos hzero, if_neg (not_not.mpr hzero), if_neg (by simp)]
      exact .inl ⟨rfl, hfree⟩
    rw [if_neg hzero, if_pos hzero]
    by_cases hleft : cpswAleGetPortMask e params.portMaskBits &&& ~~~portMask = 0
    · rw [if_pos hleft, if_neg (not_not.mpr hleft)]
      exact .inl ⟨rfl, hfree⟩
    · rw [if_neg hleft, if_pos hleft, addrEntry_setPortMask hmcast (and_not_fits e portMask)]
      exact .inr ⟨rfl, addrKey_setPortMask _ _ _⟩

theorem getEntryType_of_addrKey {k : AddrKey} (h : addrKey e = some k) :
    isAddrType (cpswAleGetEntryType e) = true := by
  unfold addrKey at h
  split at h
  · assumption
  · cases h

theorem flushEntry_map {k : AddrKey} (hk : addrKey e = some k) (portMask vid : U32) :
    (if addrKey (flushEntry params portMask vid e) = some k
      then some (flushEntry params portMask vid e) else none).map (addrEntry params) =
      flushed portMask vid k (addrEntry params e) := by
  obtain ⟨hvid, haddr⟩ := getVlanId_of_addrKey hk
  have htype := getEntryType_of_addrKey hk
  have hkeep : (if addrKey e = some k then some e else none).map (addrEntry params) =
      some (addrEntry params e) := by rw [if_pos hk]; rfl
  unfold flushEntry
  rw [htype, hvid, haddr]
  simp only [Bool.not_true, Bool.false_eq_true, if_false]
  by_cases hmcast : cpswAleGetMcast e = 0
  · have hsame : (if vid ≠ -1 ∧ k.2 ≠ vid then e else if cpswAleGetMcast e = 0 then e
        else if cpswAleGetSuper e ≠ 0 then e
        else if isBroadcastEtherAddr k.1 = true then e else cpswAleFlushMcast params e portMask) =
        e := by
      rw [if_pos hmcast, ite_self]
    rw [hsame, hkeep, addrEntry_of_ucast (getMcast_eq_zero_iff.mp hmcast)]
    rfl
  have hm : isMulticastEtherAddr (cpswAleGetAddr e) = true :=
    Bool.eq_true_of_not_eq_false (mt getMcast_eq_zero_iff.mpr hmcast)
  rw [addrEntry_of_mcast hm] at hkeep ⊢
  rw [if_neg hmcast]
  unfold flushed
  dsimp only
  by_cases hother : vid ≠ -1 ∧ k.2 ≠ vid
  · rw [if_pos hother, hkeep, if_pos (.inl hother)]
  rw [if_neg hother]
  by_cases hsuper : cpswAleGetSuper e ≠ 0
  · rw [if_pos hsuper, hkeep, if_pos (.inr (.inl (by simpa using hsuper)))]
  rw [if_neg hsuper]
  by_cases hbroad : isBroadcastEtherAddr k.1 = true
  · rw [if_pos hbroad, hkeep, if_pos (.inr (.inr (.inl hbroad)))]
  rw [if_neg hbroad]
  unfold cpswAleFlushMcast
  dsimp only
  by_cases hmeet : cpswAleGetPortMask e params.portMaskBits &&& portMask = 0
  · rw [if_pos hmeet, hkeep, if_pos (.inr (.inr (.inr hmeet)))]
  have hflush : ¬ ((vid ≠ -1 ∧ k.2 ≠ vid) ∨ (cpswAleGetSuper e != 0) = true ∨
      isBroadcastEtherAddr k.1 = true ∨
        cpswAleGetPortMask e params.portMaskBits &&& portMask = 0) := by
    rintro (h | h | h | h)
    · exact hother h
    · exact hsuper (by simpa using h)
    · exact hbroad h
    · exact hmeet h
  rw [if_neg hmeet, if_neg hflush]
  unfold AddrEntry.dropPorts
  dsimp only
  by_cases hleft : cpswAleGetPortMask e params.portMaskBits &&& ~~~portMask = 0
  · rw [if_neg (not_not.mpr hleft), if_pos hleft, addrKey_of_free (isFree_setEntryType e),
      if_neg (by simp)]
    rfl
  · rw [if_pos hleft, if_neg hleft, addrKey_setPortMask, if_pos hk, Option.map_some,
      addrEntry_setPortMask hm (and_not_fits e portMask)]

theorem Keyed.flush_map (h : Keyed ale) (portMask vid : U32) (k : AddrKey) :
    lookupAddr params (cpswAleFlushMulticast params ale portMask vid).1 k =
      (lookupAddr params ale k).bind (flushed portMask vid k) := by
  unfold lookupAddr cpswAleFlushMulticast
  dsimp only
  rw [h.addr.lookup_map (addrKey_flushEntry params portMask vid)]
  cases hl : lookup addrKey ale.table k with
  | none => rfl
  | some e =>
    obtain ⟨-, -, hk⟩ := h.addr.lookup_eq_some_iff.mp hl
    exact flushEntry_map hk portMask vid

/-- A write over a VLAN entry that leaves a VLAN entry or none does not touch the map. -/
theorem Keyed.lookupAddr_editVlan (h : Keyed ale) (hm : cpswAleMatchVlan ale vid = some i)
    {r : CpswAle × AleEntry} (hr : VlanEdit params ale vid r) (k : AddrKey) :
    lookupAddr params (cpswAleWrite r.1 i r.2) k = lookupAddr params ale k := by
  obtain ⟨hi, hkey⟩ := matchVlan_some hm
  have hnone : addrKey r.2 = none := by
    rcases hr.entry with hfree | hsame
    · exact addrKey_of_free hfree
    · exact addrKey_of_vlanKey hsame
  rw [← hr.table] at hi
  rw [lookupAddr_write (h.congr hr.table) hi (fresh_of_none hnone), hnone, if_neg (by simp),
    addrKey_of_vlanKey hkey, if_neg (by simp), lookupAddr_congr hr.table]

theorem Keyed.lookupAddr_addVlan (h : Keyed ale) (hvid : vid.toNat < vlanNVid)
    (portMask untag regMcast unregMcast : U32) :
    ∃ gone, Evicts ale (cpswAleMatchVlan ale vid = none) gone ∧ ∀ k,
      lookupAddr params (cpswAleAddVlan params ale vid portMask untag regMcast unregMcast).1 k =
        if gone = some k then none else lookupAddr params ale k := by
  unfold cpswAleAddVlan
  dsimp only
  generalize readOrZero ale (cpswAleMatchVlan ale vid) = e
  have hkey : vlanKey (addVlanEntry params ale e vid portMask untag regMcast unregMcast).2 = _ :=
    addVlanEntry_key hvid portMask untag regMcast unregMcast
  have hedit : VlanEdit params ale vid
      (addVlanEntry params ale e vid portMask untag regMcast unregMcast) :=
    addVlanEntry_edit hvid portMask untag regMcast unregMcast
  have htable := hedit.table
  clear hedit
  generalize addVlanEntry params ale e vid portMask untag regMcast unregMcast = r at hkey htable
  rw [cpswAleMatchVlan_eq, ← htable]
  rcases cpswAleStore_cases vlanKey (vid.setWidth 32) r.1 r.2 with ⟨-, heq⟩ | ⟨i, hplace, heq⟩
  · refine ⟨none, fun k hk => by simp at hk, fun k => ?_⟩
    rw [heq, if_neg (by simp), lookupAddr_congr htable]
  · obtain ⟨gone, hgone, hmap⟩ := (h.congr htable).addr.lookup_place_other
      (fun _ => addrKey_of_free) (fun _ _ => addrKey_of_vlanKey) hplace hkey
    refine ⟨gone, fun k hk => ?_, fun k => ?_⟩
    · obtain ⟨habsent, hrest⟩ := hgone k hk
      rw [htable] at hrest
      exact ⟨slotOf_eq_none_iff.mpr habsent, hrest⟩
    · rw [heq]
      unfold lookupAddr cpswAleWrite
      rw [hmap, ← htable]
      split <;> rfl

/-- A write to every slot that keeps the keys and leaves address entries alone. -/
theorem Keyed.lookupAddr_map (h : Keyed ale) {f : AleEntry → AleEntry}
    (hkey : ∀ e, addrKey (f e) = addrKey e)
    (hsame : ∀ e, isAddrType (cpswAleGetEntryType e) = true → f e = e) (k : AddrKey) :
    lookupAddr params { ale with table := ale.table.map f } k = lookupAddr params ale k := by
  unfold lookupAddr
  dsimp only
  rw [h.addr.lookup_map fun e => .inl (hkey e)]
  cases hl : lookup addrKey ale.table k with
  | none => rfl
  | some e =>
    obtain ⟨-, -, hk⟩ := h.addr.lookup_eq_some_iff.mp hl
    rw [Option.bind_some, hkey, if_pos hk, hsame e (getEntryType_of_addrKey hk)]

theorem not_vlan_of_addr (h : isAddrType (cpswAleGetEntryType e) = true) :
    cpswAleGetEntryType e ≠ aleTypeVlan := by
  intro hvlan
  rw [hvlan] at h
  cases h

theorem Keyed.addrMap (h : Keyed ale) : AddrMap params ale where
  addrUnique := h.addr
  vlanUnique := h.vlan
  kind := by
    intro k v hv
    obtain ⟨e, hl, rfl⟩ := Option.map_eq_some_iff.mp hv
    obtain ⟨-, -, hk⟩ := h.addr.lookup_eq_some_iff.mp hl
    rw [isMcast_addrEntry, (getVlanId_of_addrKey hk).2]
  addUcast addr port flags vid haddr hvid hport := h.added_ucast haddr hvid hport
  delUcast addr port flags vid _ := h.deleted_ucast addr port flags vid
  addMcast addr portMask flags vid mcastState haddr hvid hmask :=
    h.added_mcast haddr hvid hmask mcastState
  delMcast addr portMask flags vid haddr := h.deleted_mcast haddr portMask flags vid
  flushMulticast := h.flush_map
  addVlan _ portMask untag regMcast unregMcast hvid :=
    h.lookupAddr_addVlan hvid portMask untag regMcast unregMcast
  vlanAddModify _ _ _ _ _ hvid := h.lookupAddr_addVlan hvid _ _ _ _
  vlanDelModify := by
    intro vid portMask k
    unfold cpswAleVlanDelModify
    split
    · rfl
    · rename_i hm
      exact h.lookupAddr_editVlan hm (delModifyInt_edit (matchVlan_some hm).2 portMask) k
  delVlan := by
    intro vid portMask k
    unfold cpswAleDelVlan
    split
    · rfl
    · rename_i hm
      exact h.lookupAddr_editVlan hm (delVlanEntry_edit (matchVlan_some hm).2 portMask) k
  setUnregMcast unregMcastMask add k := by
    refine h.lookupAddr_map (fun _ => (unregMcastEntry_keeps unregMcastMask add).1) ?_ k
    intro e htype
    exact if_pos (not_vlan_of_addr htype)
  setAllmulti allmulti port k := by
    unfold cpswAleSetAllmulti
    split
    · refine h.lookupAddr_map (fun e => ?_) (fun e htype => ?_) k
      · split
        · rename_i happlies
          exact (allmultiEntry_keeps allmulti (allmultiApplies_vlan happlies)).1
        · rfl
      · rw [if_neg]
        intro happlies
        exact not_vlan_of_addr htype (allmultiApplies_vlan happlies)
    · rfl

/-- From an empty table of any size, every run keeps the table a map on which the
operations act as they should. -/
theorem addrMap_of_run (hempty : ∀ e ∈ ale.table, isFree e = true) {ops : List Op}
    (hrun : Run (step params) (fun _ op => WellFormed op) ale ops ale') : AddrMap params ale' :=
  ((keyed_of_free hempty).of_run hrun).addrMap

/-- A group is joined on two ports and left on one. -/
theorem addrMap_after_join : ∃ ale' : CpswAle,
    Run (step threePorts) (fun _ op => WellFormed op) (emptyAle 4)
      [.addMcast (fun _ => 1) 3 aleVlan 5 0, .addUcast (fun _ => 2) 1 0 0,
       .addMcast (fun _ => 1) 4 aleVlan 5 0, .delMcast (fun _ => 1) 2 aleVlan 5] ale' ∧
    lookupAddr threePorts ale' (keyOf (fun _ => 1) aleVlan 5) = some (.mcast 5 false 0) ∧
    AddrMap threePorts ale' := by
  have hrun : ∃ ale' : CpswAle, Run (step threePorts) (fun _ op => WellFormed op) (emptyAle 4)
      [.addMcast (fun _ => 1) 3 aleVlan 5 0, .addUcast (fun _ => 2) 1 0 0,
       .addMcast (fun _ => 1) 4 aleVlan 5 0, .delMcast (fun _ => 1) 2 aleVlan 5] ale' ∧
      lookupAddr threePorts ale' (keyOf (fun _ => 1) aleVlan 5) = some (.mcast 5 false 0) :=
    ⟨_, .cons ⟨rfl, by decide⟩ rfl (.cons ⟨rfl, by decide⟩ rfl (.cons ⟨rfl, by decide⟩ rfl
      (.cons ⟨rfl, by decide⟩ rfl (.nil _)))), by decide +kernel⟩
  obtain ⟨ale', hrun, hgroup⟩ := hrun
  exact ⟨ale', hrun, hgroup, addrMap_of_run (free_emptyAle 4) hrun⟩

end CpswDriver.Ale
