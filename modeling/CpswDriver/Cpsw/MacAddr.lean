import CpswDriver.Cpsw.Filters

/-!
The address of a port. In dual EMAC mode the port has an entry for it in its own
VLAN and in every VLAN that was added, so that packets to it reach the host. A
new address takes the place of the old one in the port's own VLAN only.
-/

namespace CpswDriver.MacAddr

open Ale Runs Filters

/-- A running port: its address, which is no group, and, as a book, the VLAN ids that were
added and not killed. -/
structure State where
  ale : CpswAle
  macAddr : MacAddr
  vids : Finset U16
  ucast : isMulticastEtherAddr macAddr = false

def withMac (params : CpswParams) (p : Port) (s : State) : CpswParams where
  ale := params.ale
  defaultVlan := params.defaultVlan
  portVlan := params.portVlan
  macAddr := Function.update params.macAddr p s.macAddr
  devId := params.devId
  alePorts := params.alePorts
  portVlan_lt := params.portVlan_lt
  defaultVlan_lt := params.defaultVlan_lt
  macAddr_ucast := by
    intro q
    by_cases heq : q = p
    · rw [heq, Function.update_self]
      exact s.ucast
    · rw [Function.update_of_ne heq]
      exact params.macAddr_ucast q

/-- is_valid_ether_addr -/
def isValidEtherAddr (addr : MacAddr) : Bool := !isMulticastEtherAddr addr && addr != 0

/-- `pm` is what pm_runtime_resume_and_get answers. -/
def cpswNdoSetMacAddress (params : CpswParams) (p : Port) (s : State) (addr : MacAddr) (pm : ℤ) :
    State × ℤ :=
  if hvalid : isValidEtherAddr addr = true then
    if pm < 0 then (s, pm)
    else
      let vid := params.portVlan p
      let flags := aleVlan ||| aleSecure
      let ale := (cpswAleDelUcast s.ale s.macAddr hostPortNum flags vid).1
      let ale := (cpswAleAddUcast params.ale ale addr hostPortNum flags vid).1
      ({ s with
          ale := ale
          macAddr := addr
          ucast := Bool.not_eq_true' _ ▸ (Bool.and_eq_true_iff.mp hvalid).1 }, 0)
  else (s, -eaddrnotavail)

inductive Op
  | addVid (allmulti : Bool) (vid : U16) (pm : ℤ)
  | killVid (vid : U16) (pm : ℤ)
  | setMacAddress (addr : MacAddr) (pm : ℤ)

/-- A call that is successful. For the default VLAN the callbacks do nothing, and the book says
nothing of it. -/
def step (params : CpswParams) (p : Port) (s : State) : Op → Option State
  | .addVid allmulti vid pm =>
    let (ale, ret) := cpswNdoVlanRxAddVid (withMac params p s) s.ale p allmulti vid pm
    let vids := if vid = params.defaultVlan then s.vids else insert vid s.vids
    if ret = 0 then some { s with ale := ale, vids := vids } else none
  | .killVid vid pm =>
    let (ale, ret) := cpswNdoVlanRxKillVid (withMac params p s) s.ale p vid pm
    if ret = 0 then some { s with ale := ale, vids := s.vids.erase vid } else none
  | .setMacAddress addr pm =>
    let (s, ret) := cpswNdoSetMacAddress params p s addr pm
    if ret = 0 then some s else none

/-- VLAN ids are below 4096. -/
def WellFormed : Op → Prop
  | .addVid _ vid _ => vid.toNat < vlanNVid
  | .killVid _ _ | .setMacAddress _ _ => True

/-- A persistent unicast entry for the host port. -/
def ToHostPort : AddrEntry → Prop
  | .ucast ucastType port _ _ => ucastType = aleUcastPersistant ∧ port = hostPortNum
  | .mcast _ _ _ => False

/-- The table has such an entry for the address and VLAN id. -/
def HasEntry (params : AleParams) (ale : CpswAle) (k : AddrKey) : Prop :=
  ∃ e, lookupAddr params ale k = some e ∧ ToHostPort e

/-- The VLAN ids in which the port has its address. -/
def InVlan (params : CpswParams) (p : Port) (s : State) (vid : U16) : Prop :=
  vid = params.portVlan p ∨ vid ∈ s.vids

/-- The entries are those for the port's address, in the port's VLANs. -/
def Follows (params : CpswParams) (p : Port) (s : State) : Prop :=
  ∀ k, HasEntry params.ale s.ale k ↔
    k.1 = s.macAddr ∧ ∃ vid, InVlan params p s vid ∧ k.2 = vid.setWidth 32

/-- The address changes only while no VLAN id is added. -/
def Covered (s : State) : Op → Prop
  | .setMacAddress addr _ => addr = s.macAddr ∨ s.vids = ∅
  | .addVid _ _ _ | .killVid _ _ => True

/-- The table is a map, and the default VLAN is not in the book. -/
structure Inv (params : CpswParams) (p : Port) (s : State) : Prop where
  keyed : Keyed s.ale
  proper : ∀ vid ∈ s.vids, vid ≠ params.defaultVlan
  follows : Follows params p s

variable {params : CpswParams} {ale ale' : CpswAle} {s s' : State} {p : Port} {vid : U16}
  {addr : MacAddr} {k k' : AddrKey}

theorem ToHostPort.not_mcast {e : AddrEntry} (h : ToHostPort e) : e.isMcast = false := by
  cases e with
  | ucast ucastType port secure blocked => rfl
  | mcast ports super mcastState => exact h.elim

theorem not_hasEntry_evicted (params : CpswParams) {P : Prop} {gone : Option AddrKey}
    (h : Evicts ale P gone)
    (hgone : gone = some k) : ¬ HasEntry params.ale ale k := by
  rintro ⟨e, he, hto⟩
  obtain ⟨-, -, old, hl, hage⟩ := h k hgone
  unfold lookupAddr at he
  rw [hl] at he
  obtain rfl := Option.some.inj he
  simp only [isAgeable, Bool.and_eq_true, beq_iff_eq, bne_iff_ne, ne_eq] at hage
  unfold addrEntry at hto
  rw [if_pos hage.1.1.2] at hto
  exact hage.1.2 hto.1

theorem not_hasEntry_mcast (h : Keyed ale) (hk : isMulticastEtherAddr k.1 = true) :
    ¬ HasEntry params.ale ale k := by
  rintro ⟨e, he, hto⟩
  have hmap : AddrMap params.ale ale := h.addrMap
  have hkind := hmap.kind k e he
  rw [hto.not_mcast, hk] at hkind
  cases hkind

theorem hasEntry_added {v : AddrEntry} {r : CpswAle × ℤ} (h : Added params.ale ale k v r)
    (hret : r.2 = 0) : HasEntry params.ale r.1 k' ↔
      k' = k ∧ ToHostPort v ∨ k' ≠ k ∧ HasEntry params.ale ale k' := by
  obtain ⟨gone, hevicts, hmap⟩ := h.stored hret
  unfold HasEntry
  rw [hmap]
  by_cases heq : k' = k
  · rw [if_pos heq]
    simp [heq]
  · rw [if_neg heq]
    by_cases hgone : gone = some k'
    · have hnot := not_hasEntry_evicted params hevicts hgone
      unfold HasEntry at hnot
      rw [if_pos hgone]
      simp [heq, hnot]
    · rw [if_neg hgone]
      simp [heq]

theorem hasEntry_deleted {r : CpswAle × ℤ} (h : Deleted params.ale ale k none r) :
    HasEntry params.ale r.1 k' ↔ k' ≠ k ∧ HasEntry params.ale ale k' := by
  unfold HasEntry
  rcases h.ret with hret | ⟨hret, hsame⟩
  · rw [h.stored hret]
    by_cases heq : k' = k
    · rw [if_pos heq]
      simp [heq]
    · rw [if_neg heq]
      simp [heq]
  · have hnone := h.enoent.mp hret
    rw [hsame]
    constructor
    · rintro ⟨e, he, hto⟩
      refine ⟨fun heq => ?_, e, he, hto⟩
      rw [heq, hnone] at he
      cases he
    · exact And.right

theorem hasEntry_congr (h : ∀ k, lookupAddr params.ale ale' k = lookupAddr params.ale ale k) :
    HasEntry params.ale ale' k ↔ HasEntry params.ale ale k := by
  unfold HasEntry
  rw [h]

theorem isMcast_of_flushed {portMask v : U32} {e e' : AddrEntry}
    (h : flushed portMask v k e = some e') : e'.isMcast = e.isMcast := by
  cases e with
  | ucast ucastType port secure blocked =>
    obtain rfl := Option.some.inj h
    rfl
  | mcast ports super mcastState =>
    simp only [flushed, AddrEntry.dropPorts] at h
    split at h
    · obtain rfl := Option.some.inj h
      rfl
    split at h
    · cases h
    · obtain rfl := Option.some.inj h
      rfl

theorem hasEntry_flushed (h : Keyed ale) (portMask v : U32) :
    HasEntry params.ale (cpswAleFlushMulticast params.ale ale portMask v).1 k ↔
      HasEntry params.ale ale k := by
  unfold HasEntry
  rw [h.flush_map]
  cases he : lookupAddr params.ale ale k with
  | none => rfl
  | some e =>
    rw [Option.bind_some]
    cases e with
    | ucast ucastType port secure blocked => rfl
    | mcast ports super mcastState =>
      constructor
      · rintro ⟨e, heq, hto⟩
        have hmcast := isMcast_of_flushed heq
        rw [hto.not_mcast] at hmcast
        cases hmcast
      · rintro ⟨e, heq, hto⟩
        obtain rfl := Option.some.inj heq
        exact hto.elim

theorem hostPortNum_lt (params : CpswParams) : hostPortNum.toNat < params.ale.alePorts := by
  rw [params.alePorts]
  decide

theorem toHostPort_ucast (secure blocked : Bool) :
    ToHostPort (.ucast aleUcastPersistant hostPortNum secure blocked) := ⟨rfl, rfl⟩

theorem hasEntry_addUcast (params : CpswParams) (h : Keyed ale)
    (haddr : isMulticastEtherAddr addr = false)
    (hvid : vid.toNat < vlanNVid) {flags : U32} (hflags : flagsVid flags vid = vid)
    (hret : (cpswAleAddUcast params.ale ale addr hostPortNum flags vid).2 = 0) (k : AddrKey) :
    HasEntry params.ale (cpswAleAddUcast params.ale ale addr hostPortNum flags vid).1 k ↔
      k = (addr, vid.setWidth 32) ∨ HasEntry params.ale ale k := by
  rw [hasEntry_added (h.added_ucast haddr hvid (hostPortNum_lt params)) hret, keyOf, hflags]
  have hto := toHostPort_ucast (testBits flags aleSecure) (testBits flags aleBlocked)
  by_cases heq : k = (addr, vid.setWidth 32)
  · simp [heq, hto]
  · simp [heq]

theorem hasEntry_delUcast (params : CpswParams) (h : Keyed ale) (addr : MacAddr) {flags : U32}
    (hflags : flagsVid flags vid = vid) (k : AddrKey) :
    HasEntry params.ale (cpswAleDelUcast ale addr hostPortNum flags vid).1 k ↔
      k ≠ (addr, vid.setWidth 32) ∧ HasEntry params.ale ale k := by
  rw [hasEntry_deleted (h.deleted_ucast addr hostPortNum flags vid), keyOf, hflags]

theorem hasEntry_addVlan (params : CpswParams) (h : Keyed ale) (hvid : vid.toNat < vlanNVid)
    (members untag regMcast unregMcast : U32) (k : AddrKey) :
    HasEntry params.ale (cpswAleAddVlan params.ale ale vid members untag regMcast unregMcast).1 k ↔
      HasEntry params.ale ale k := by
  have hmap : AddrMap params.ale ale := h.addrMap
  obtain ⟨gone, hevicts, hmap⟩ := hmap.addVlan vid members untag regMcast unregMcast hvid
  by_cases hgone : gone = some k
  · have hnot := not_hasEntry_evicted params hevicts hgone
    refine iff_of_false ?_ hnot
    rintro ⟨e, he, -⟩
    rw [hmap, if_pos hgone] at he
    cases he
  · unfold HasEntry
    rw [hmap, if_neg hgone]

theorem hasEntry_addMcast (params : CpswParams) (h : Keyed ale)
    (haddr : isMulticastEtherAddr addr = true)
    (hvid : vid.toNat < vlanNVid) (flags mcastState : U32) (k : AddrKey) :
    HasEntry params.ale (cpswAleAddMcast params.ale ale addr alePortHost flags vid mcastState).1
      k ↔ HasEntry params.ale ale k := by
  have hadded : Added params.ale ale (keyOf addr flags vid) _ _ :=
    h.added_mcast haddr hvid (width_host params.ale) mcastState
  rcases hadded.ret with hret | ⟨-, hsame⟩
  · rw [hasEntry_added hadded hret]
    by_cases heq : k = keyOf addr flags vid
    · have hnot : ¬ HasEntry params.ale ale k := not_hasEntry_mcast h (by rw [heq]; exact haddr)
      refine iff_of_false ?_ hnot
      rintro (⟨-, hto⟩ | ⟨hne, -⟩)
      · exact hto
      · exact hne heq
    · simp [heq]
  · rw [hsame]

theorem hasEntry_delMcast (h : Keyed ale) (haddr : isMulticastEtherAddr addr = true)
    (flags : U32) (vid : U16) :
    HasEntry params.ale (cpswAleDelMcast params.ale ale addr 0 flags vid).1 k ↔
      HasEntry params.ale ale k := by
  have hdeleted : Deleted params.ale ale (keyOf addr flags vid) _ _ :=
    h.deleted_mcast haddr 0 flags vid
  rw [if_pos rfl] at hdeleted
  rw [hasEntry_deleted hdeleted]
  refine ⟨And.right, fun hk => ⟨fun heq => ?_, hk⟩⟩
  exact not_hasEntry_mcast h (show isMulticastEtherAddr k.1 = true by rw [heq]; exact haddr) hk

theorem hasEntry_addVlanAleEntry (h : Keyed ale) (hvid : vid.toNat < vlanNVid) {allmulti : Bool}
    (hret : (cpswAddVlanAleEntry params ale p allmulti vid).2 = 0) :
    Keyed (cpswAddVlanAleEntry params ale p allmulti vid).1 ∧ ∀ k,
      HasEntry params.ale (cpswAddVlanAleEntry params ale p allmulti vid).1 k ↔
        k = (params.macAddr p, vid.setWidth 32) ∨ HasEntry params.ale ale k := by
  unfold cpswAddVlanAleEntry at hret ⊢
  dsimp only at hret ⊢
  generalize (if allmulti then alePortHost else 0) = unregMcast at hret ⊢
  have hvlan := hasEntry_addVlan params h hvid (portMask p) 0 (portMask p) unregMcast
  have hkeyed : Keyed (cpswAleAddVlan params.ale ale vid (portMask p) 0 (portMask p)
      unregMcast).1 := h.addVlan hvid _ _ _ _
  generalize cpswAleAddVlan params.ale ale vid (portMask p) 0 (portMask p) unregMcast = r
    at hret hkeyed hvlan ⊢
  by_cases hr : r.2 ≠ 0
  · rw [if_pos hr] at hret
    exact absurd hret hr
  rw [if_neg hr] at hret ⊢
  have hucast := hasEntry_addUcast params hkeyed (params.macAddr_ucast p) hvid (flagsVid_vlan vid)
  have hkeyed₁ : Keyed (cpswAleAddUcast params.ale r.1 (params.macAddr p) hostPortNum aleVlan
      vid).1 := hkeyed.addUcast _ _ _ hvid
  generalize cpswAleAddUcast params.ale r.1 (params.macAddr p) hostPortNum aleVlan vid = r₁
    at hret hkeyed₁ hucast ⊢
  by_cases hr₁ : r₁.2 ≠ 0
  · rw [if_pos hr₁] at hret
    exact absurd hret hr₁
  rw [if_neg hr₁] at hret ⊢
  have hmcast := hasEntry_addMcast params hkeyed₁ isMulticast_broadcast hvid aleVlan 0
  have hkeyed₂ : Keyed (cpswAleAddMcast params.ale r₁.1 broadcast alePortHost aleVlan vid 0).1 :=
    hkeyed₁.addMcast _ _ _ _ hvid
  generalize cpswAleAddMcast params.ale r₁.1 broadcast alePortHost aleVlan vid 0 = r₂
    at hret hkeyed₂ hmcast ⊢
  by_cases hr₂ : r₂.2 ≠ 0
  · rw [if_pos hr₂] at hret
    exact absurd hret hr₂
  rw [if_neg hr₂]
  refine ⟨hkeyed₂, fun k => ?_⟩
  rw [hmcast, hucast (not_not.mp hr₁), hvlan]

theorem hasEntry_killVid (h : Keyed ale) {pm : ℤ} (hdefault : vid ≠ params.defaultVlan)
    (hret : (cpswNdoVlanRxKillVid params ale p vid pm).2 = 0) :
    ¬ isPortVlan params vid ∧ Keyed (cpswNdoVlanRxKillVid params ale p vid pm).1 ∧ ∀ k,
      HasEntry params.ale (cpswNdoVlanRxKillVid params ale p vid pm).1 k ↔
        k ≠ (params.macAddr p, vid.setWidth 32) ∧ HasEntry params.ale ale k := by
  unfold cpswNdoVlanRxKillVid at hret ⊢
  rw [if_neg hdefault] at hret ⊢
  split at hret
  · dsimp only at hret
    omega
  rename_i hpm
  split at hret
  · exact absurd hret neg_einval_ne_zero
  rename_i hport
  rw [if_neg hpm, if_neg hport]
  have hvlan : Keyed (cpswAleDelVlan params.ale ale vid 0).1 := h.delVlan vid 0
  have hucast := hvlan.delUcast (params.macAddr p) hostPortNum aleVlan vid
  have hmcast : Keyed (cpswAleDelMcast params.ale _ broadcast 0 aleVlan vid).1 :=
    hucast.delMcast broadcast 0 aleVlan vid
  refine ⟨hport, hmcast.flushMulticast _ _, fun k => ?_⟩
  have hmap : AddrMap params.ale ale := h.addrMap
  dsimp only
  rw [hasEntry_flushed hmcast, hasEntry_delMcast hucast isMulticast_broadcast,
    hasEntry_delUcast params hvlan _ (flagsVid_vlan vid), hasEntry_congr (hmap.delVlan vid 0)]

theorem macAddr_withMac (s : State) : (withMac params p s).macAddr p = s.macAddr := by
  unfold withMac
  dsimp only
  rw [Function.update_self]

theorem ale_withMac (s : State) : (withMac params p s).ale = params.ale := rfl

theorem Inv.addVid (h : Inv params p s) {allmulti : Bool} {pm : ℤ} (hvid : vid.toNat < vlanNVid)
    (hst : MacAddr.step params p s (.addVid allmulti vid pm) = some s') : Inv params p s' := by
  simp only [MacAddr.step] at hst
  split at hst
  swap
  · cases hst
  rename_i hret
  obtain rfl := Option.some.inj hst
  unfold cpswNdoVlanRxAddVid at hret ⊢
  by_cases hdefault : vid = params.defaultVlan
  · have hsame : vid = (withMac params p s).defaultVlan := hdefault
    rw [if_pos hsame, if_pos hdefault]
    exact ⟨h.keyed, h.proper, h.follows⟩
  have hother : vid ≠ (withMac params p s).defaultVlan := hdefault
  rw [if_neg hother] at hret ⊢
  rw [if_neg hdefault]
  split at hret
  · dsimp only at hret
    omega
  rename_i hpm
  split at hret
  · exact absurd hret neg_einval_ne_zero
  rename_i hport
  rw [if_neg hpm, if_neg hport]
  obtain ⟨hkeyed, hentries⟩ := hasEntry_addVlanAleEntry h.keyed hvid hret
  simp only [macAddr_withMac, ale_withMac] at hentries
  refine ⟨hkeyed, fun v hv => ?_, fun k => (hentries k).trans ?_⟩
  · rcases Finset.mem_insert.mp hv with rfl | hold
    · exact hdefault
    · exact h.proper v hold
  · rw [h.follows k]
    constructor
    · rintro (rfl | ⟨hmac, v, hin, hk⟩)
      · exact ⟨rfl, vid, .inr (Finset.mem_insert_self vid s.vids), rfl⟩
      · exact ⟨hmac, v, hin.imp_right (Finset.mem_insert_of_mem), hk⟩
    · rintro ⟨hmac, v, hport' | hin, hk⟩
      · exact .inr ⟨hmac, v, .inl hport', hk⟩
      · rcases Finset.mem_insert.mp hin with rfl | hold
        · exact .inl (Prod.ext hmac hk)
        · exact .inr ⟨hmac, v, .inr hold, hk⟩

theorem Inv.killVid (h : Inv params p s) {pm : ℤ}
    (hst : MacAddr.step params p s (.killVid vid pm) = some s') : Inv params p s' := by
  simp only [MacAddr.step] at hst
  split at hst
  swap
  · cases hst
  rename_i hret
  obtain rfl := Option.some.inj hst
  by_cases hdefault : vid = params.defaultVlan
  · have hsame : vid = (withMac params p s).defaultVlan := hdefault
    have hmem : vid ∉ s.vids := fun hcon => h.proper vid hcon hdefault
    unfold cpswNdoVlanRxKillVid
    rw [if_pos hsame, Finset.erase_eq_of_notMem hmem]
    exact ⟨h.keyed, h.proper, h.follows⟩
  have hother : vid ≠ (withMac params p s).defaultVlan := hdefault
  obtain ⟨hport, hkeyed, hentries⟩ := hasEntry_killVid h.keyed hother hret
  simp only [macAddr_withMac, ale_withMac] at hentries
  refine ⟨hkeyed, fun v hv => h.proper v (Finset.mem_of_mem_erase hv),
    fun k => (hentries k).trans ?_⟩
  rw [h.follows k]
  constructor
  · rintro ⟨hne, hmac, v, hin, hk⟩
    refine ⟨hmac, v, hin.imp_right fun hmem => Finset.mem_erase.mpr ⟨?_, hmem⟩, hk⟩
    rintro rfl
    exact hne (Prod.ext hmac hk)
  · rintro ⟨hmac, v, hin, hk⟩
    refine ⟨fun heq => ?_, hmac, v, hin.imp_right Finset.mem_of_mem_erase, hk⟩
    have hvid : v = vid := setWidth_inj (hk.symm.trans (congrArg Prod.snd heq))
    rcases hin with hown | hmem
    · exact hport ⟨p, hvid.symm.trans hown⟩
    · exact Finset.ne_of_mem_erase hmem hvid

/-- The slot of an entry that is deleted is free. -/
theorem freeSlots_delUcast (h : HasEntry params.ale ale (addr, vid.setWidth 32)) {flags : U32}
    (hflags : flagsVid flags vid = vid) :
    0 < freeSlots (cpswAleDelUcast ale addr hostPortNum flags vid).1 := by
  obtain ⟨e, he, -⟩ := h
  unfold cpswAleDelUcast
  rw [hflags]
  cases hm : cpswAleMatchAddr ale addr vid with
  | none =>
    rw [lookupAddr_of_noMatch hm] at he
    cases he
  | some idx =>
    obtain ⟨hidx, -⟩ := matchAddr_some hm
    refine List.countP_pos_iff.mpr ⟨cpswAleSetEntryType 0 aleTypeFree, ?_, isFree_setEntryType 0⟩
    obtain ⟨hlt, -⟩ := List.getElem?_eq_some_iff.mp hidx
    exact List.mem_set hlt _

theorem flagsVid_secure (vid : U16) : flagsVid (aleVlan ||| aleSecure) vid = vid :=
  if_pos (by decide)

/-- A call that changes the address keeps the entries in line if no VLAN id is added. -/
theorem Inv.setMacAddress (h : Inv params p s) {pm : ℤ} (hcovered : addr = s.macAddr ∨ s.vids = ∅)
    (hst : MacAddr.step params p s (.setMacAddress addr pm) = some s') : Inv params p s' := by
  simp only [MacAddr.step] at hst
  split at hst
  swap
  · cases hst
  rename_i hret
  obtain rfl := Option.some.inj hst
  unfold cpswNdoSetMacAddress at hret ⊢
  split at hret
  swap
  · have hnot : -eaddrnotavail ≠ 0 := by decide
    exact absurd hret hnot
  rename_i hvalid
  split at hret
  · dsimp only at hret
    omega
  rename_i hpm
  rw [dif_pos hvalid, if_neg hpm]
  have haddr : isMulticastEtherAddr addr = false := by
    rw [← Bool.not_eq_true']
    exact (Bool.and_eq_true_iff.mp hvalid).1
  have hown : HasEntry params.ale s.ale (s.macAddr, (params.portVlan p).setWidth 32) :=
    (h.follows _).mpr ⟨rfl, params.portVlan p, .inl rfl, rfl⟩
  have hflags := flagsVid_secure (params.portVlan p)
  have hfree := freeSlots_delUcast hown hflags
  have hkeyed := h.keyed.delUcast s.macAddr hostPortNum (aleVlan ||| aleSecure) (params.portVlan p)
  have hdel := hasEntry_delUcast params h.keyed s.macAddr hflags
  dsimp only
  generalize (cpswAleDelUcast s.ale s.macAddr hostPortNum (aleVlan ||| aleSecure)
    (params.portVlan p)).1 = ale at hfree hkeyed hdel ⊢
  obtain ⟨hadd, -⟩ : (cpswAleAddUcast params.ale ale addr hostPortNum (aleVlan ||| aleSecure)
      (params.portVlan p)).2 = 0 ∧ _ := addUcast_of_free hfree _ _ _
  refine ⟨hkeyed.addUcast addr hostPortNum _ (params.portVlan_lt p), h.proper, fun k => ?_⟩
  refine (hasEntry_addUcast params hkeyed haddr (params.portVlan_lt p) hflags hadd k).trans ?_
  rw [hdel, h.follows]
  constructor
  · rintro (rfl | ⟨hne, hmac, v, hin, hk⟩)
    · exact ⟨rfl, params.portVlan p, .inl rfl, rfl⟩
    · rcases hin with rfl | hmem
      · exact absurd (Prod.ext hmac hk) hne
      · rcases hcovered with hsame | hempty
        · exact ⟨hmac.trans hsame.symm, v, .inr hmem, hk⟩
        · rw [hempty] at hmem
          exact absurd hmem (Finset.notMem_empty v)
  · rintro ⟨hmac, v, hin, hk⟩
    rcases hin with rfl | hmem
    · exact .inl (Prod.ext hmac hk)
    · by_cases hnew : k = (addr, (params.portVlan p).setWidth 32)
      · exact .inl hnew
      · rcases hcovered with hsame | hempty
        · refine .inr ⟨?_, hmac.trans hsame, v, .inr hmem, hk⟩
          rw [← hsame]
          exact hnew
        · rw [hempty] at hmem
          exact absurd hmem (Finset.notMem_empty v)

theorem Inv.step {op : Op} (h : Inv params p s) (hop : WellFormed op) (hcovered : Covered s op)
    (hst : MacAddr.step params p s op = some s') : Inv params p s' := by
  cases op with
  | addVid allmulti vid pm => exact h.addVid hop hst
  | killVid vid pm => exact h.killVid hst
  | setMacAddress addr pm => exact h.setMacAddress hcovered hst

/-- The port was opened: it has its address in its own VLAN, and no VLAN id was added. -/
structure Initial (params : CpswParams) (p : Port) (s : State) : Prop where
  keyed : Keyed s.ale
  vids : s.vids = ∅
  follows : Follows params p s

theorem Initial.inv (h : Initial params p s) : Inv params p s := by
  refine ⟨h.keyed, fun vid hmem => ?_, h.follows⟩
  rw [h.vids] at hmem
  exact absurd hmem (Finset.notMem_empty vid)

/-- The host's entries follow the port's address as long as it changes only while no VLAN id
is added. -/
theorem follows_of_run {s₀ : State} {ops : List Op} (hinit : Initial params p s₀)
    (hrun : Run (step params p) (fun s op => WellFormed op ∧ Covered s op) s₀ ops s) :
    Follows params p s := by
  have hinv : Inv params p s :=
    hrun.invariant (fun _ _ _ h hop hst => h.step hop.1 hop.2 hst) hinit.inv
  exact hinv.follows

/-- The port is opened alone, on a table of `n` free entries. -/
def openPort (params : CpswParams) (p : Port) (n : ℕ) : State where
  ale := cpswPortAddDualEmacDefAleEntries params (cpswInitHostPortDualMac params (emptyAle n)) p
  macAddr := params.macAddr p
  vids := ∅
  ucast := params.macAddr_ucast p

theorem hasEntry_portAddDefAleEntries (params : CpswParams) (h : Keyed ale) (p : Port)
    (hroom : 3 ≤ freeSlots ale) :
    Keyed (cpswPortAddDualEmacDefAleEntries params ale p) ∧ ∀ k,
      HasEntry params.ale (cpswPortAddDualEmacDefAleEntries params ale p) k ↔
        k = (params.macAddr p, (params.portVlan p).setWidth 32) ∨ HasEntry params.ale ale k := by
  have hvid := params.portVlan_lt p
  unfold cpswPortAddDualEmacDefAleEntries
  dsimp only
  have hvlan := hasEntry_addVlan params h hvid (portMask p) (portMask p) (portMask p) 0
  have hkeyed : Keyed (cpswAleAddVlan params.ale ale (params.portVlan p) (portMask p)
      (portMask p) (portMask p) 0).1 := h.addVlan hvid _ _ _ _
  obtain ⟨-, hleft⟩ : (cpswAleAddVlan params.ale ale (params.portVlan p) (portMask p)
      (portMask p) (portMask p) 0).2 = 0 ∧ _ := addVlan_of_free (by omega) hvid _ _ _ _
  generalize (cpswAleAddVlan params.ale ale (params.portVlan p) (portMask p) (portMask p)
    (portMask p) 0).1 = ale₁ at hvlan hkeyed hleft ⊢
  have hmcast :=
    hasEntry_addMcast params hkeyed isMulticast_broadcast hvid aleVlan aleMcastFwd
  have hkeyed₁ : Keyed (cpswAleAddMcast params.ale ale₁ broadcast alePortHost aleVlan
      (params.portVlan p) aleMcastFwd).1 := hkeyed.addMcast _ _ _ _ hvid
  obtain ⟨-, hleft₁⟩ : _ ∧ freeSlots ale₁ ≤ freeSlots (cpswAleAddMcast params.ale ale₁ broadcast
      alePortHost aleVlan (params.portVlan p) aleMcastFwd).1 + 1 := store_of_free (by omega) _ _
  generalize (cpswAleAddMcast params.ale ale₁ broadcast alePortHost aleVlan (params.portVlan p)
    aleMcastFwd).1 = ale₂ at hmcast hkeyed₁ hleft₁ ⊢
  obtain ⟨hret, -⟩ : (cpswAleAddUcast params.ale ale₂ (params.macAddr p) hostPortNum
      (aleVlan ||| aleSecure) (params.portVlan p)).2 = 0 ∧ _ := addUcast_of_free (by omega) _ _ _
  refine ⟨hkeyed₁.addUcast _ _ _ hvid, fun k => ?_⟩
  rw [hasEntry_addUcast params hkeyed₁ (params.macAddr_ucast p) hvid (flagsVid_secure _) hret,
    hmcast, hvlan]

theorem initial_openPort (params : CpswParams) (p : Port) {n : ℕ} (hn : 4 ≤ n) :
    Initial params p (openPort params p n) := by
  have hempty := keyed_of_free (free_emptyAle n)
  have hfree : freeSlots (emptyAle n) = n := by
    unfold freeSlots emptyAle
    rw [List.countP_replicate, if_pos isFree_zero]
  have hnone : ∀ k, ¬ HasEntry params.ale (emptyAle n) k := by
    rintro k ⟨e, he, -⟩
    obtain ⟨old, hl, -⟩ := Option.map_eq_some_iff.mp he
    obtain ⟨i, hi, hk⟩ := hempty.addr.lookup_eq_some_iff.mp hl
    rw [addrKey_of_free (free_emptyAle n old (List.mem_of_getElem? hi))] at hk
    cases hk
  have hkeyed : Keyed (cpswInitHostPortDualMac params (emptyAle n)) :=
    hempty.addVlan params.defaultVlan_lt _ _ _ _
  have hinit : ∀ k, HasEntry params.ale (cpswInitHostPortDualMac params (emptyAle n)) k ↔ _ :=
    hasEntry_addVlan params hempty params.defaultVlan_lt _ _ _ _
  obtain ⟨-, hroom⟩ : (cpswAleAddVlan params.ale (emptyAle n) params.defaultVlan aleAllPorts
      aleAllPorts 0 0).2 = 0 ∧ freeSlots (emptyAle n) ≤
        freeSlots (cpswInitHostPortDualMac params (emptyAle n)) + 1 :=
    addVlan_of_free (by omega) params.defaultVlan_lt _ _ _ _
  obtain ⟨hkeyed', hentries⟩ := hasEntry_portAddDefAleEntries params hkeyed p (by omega)
  refine ⟨hkeyed', rfl, fun k => (hentries k).trans ?_⟩
  rw [hinit]
  constructor
  · rintro (rfl | hold)
    · exact ⟨rfl, params.portVlan p, .inl rfl, rfl⟩
    · exact absurd hold (hnone k)
  · rintro ⟨hmac, v, rfl | hmem, hk⟩
    · exact .inl (Prod.ext hmac hk)
    · exact absurd hmem (Finset.notMem_empty v)

instance : DecidablePred WellFormed
  | .addVid _ vid _ => inferInstanceAs (Decidable (vid.toNat < vlanNVid))
  | .killVid _ _ | .setMacAddress _ _ => .isTrue trivial

instance (s : State) : DecidablePred (Covered s)
  | .setMacAddress addr _ => inferInstanceAs (Decidable (addr = s.macAddr ∨ s.vids = ∅))
  | .addVid _ _ _ | .killVid _ _ => .isTrue trivial

/-- A VLAN id is added and killed before the address changes. -/
theorem follows_after_kill : ∃ s', Run (step twoPorts 0) (fun s op => WellFormed op ∧ Covered s op)
      (openPort twoPorts 0 16) [.addVid false 5 0, .killVid 5 0, .setMacAddress (fun _ => 8) 0,
        .addVid false 6 0] s' ∧ Follows twoPorts 0 s' := by
  have hexec : (exec (step twoPorts 0) (fun s op => WellFormed op ∧ Covered s op)
      (openPort twoPorts 0 16) [.addVid false 5 0, .killVid 5 0, .setMacAddress (fun _ => 8) 0,
        .addVid false 6 0]).any (fun _ => true) = true := by
    decide +kernel
  obtain ⟨s', hrun, -⟩ := exists_run_of_any hexec
  exact ⟨s', hrun, follows_of_run (initial_openPort twoPorts 0 (by decide)) hrun⟩

/-- The address changes while a VLAN id is added: in that VLAN the entry is still the one for
the old address. -/
theorem follows_fails_after_change : Initial twoPorts 0 (openPort twoPorts 0 16) ∧
    ∃ s', Run (step twoPorts 0) (fun _ op => WellFormed op) (openPort twoPorts 0 16)
      [.addVid false 5 0, .setMacAddress (fun _ => 8) 0] s' ∧ 3 ≤ freeSlots s'.ale ∧
    5 ∈ s'.vids ∧ lookupAddr twoPorts.ale s'.ale (s'.macAddr, 5) = none ∧
    HasEntry twoPorts.ale s'.ale (twoPorts.macAddr 0, 5) ∧ ¬ Follows twoPorts 0 s' := by
  have hexec : (exec (step twoPorts 0) (fun _ op => WellFormed op) (openPort twoPorts 0 16)
      [.addVid false 5 0, .setMacAddress (fun _ => 8) 0]).any (fun s' => decide (
        3 ≤ freeSlots s'.ale ∧ 5 ∈ s'.vids ∧
        lookupAddr twoPorts.ale s'.ale (s'.macAddr, 5) = none ∧
        lookupAddr twoPorts.ale s'.ale (twoPorts.macAddr 0, 5) =
          some (.ucast aleUcastPersistant hostPortNum false false))) = true := by
    decide +kernel
  obtain ⟨s', hrun, hend⟩ := exists_run_of_any hexec
  obtain ⟨hfree, hmem, hnew, hold⟩ := of_decide_eq_true hend
  refine ⟨initial_openPort twoPorts 0 (by decide), s', hrun, hfree, hmem, hnew,
    ⟨_, hold, toHostPort_ucast false false⟩, fun hfollows => ?_⟩
  obtain ⟨e, he, -⟩ := (hfollows (s'.macAddr, 5)).mpr ⟨rfl, 5, .inr hmem, rfl⟩
  rw [hnew] at he
  cases he

end CpswDriver.MacAddr
