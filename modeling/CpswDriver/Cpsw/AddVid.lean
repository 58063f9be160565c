import CpswDriver.Ale.FailedAdd
import CpswDriver.Ale.Fixed
import CpswDriver.Cpsw.Filters
import CpswDriver.Lib.Rollback

/-!
Adding a VLAN to a port puts three entries into the table: the VLAN, the address of
the port and the broadcast address. If one of them finds no slot, those before it
are deleted by their keys. The slots are free then, which is as before only for
the slots that held nothing of worth.
-/

namespace CpswDriver.Filters

open Ale Slots Rollback

variable {params : CpswParams} {ale : CpswAle} {p : Port} {vid : U16} {addr : MacAddr}
  {e : AleEntry}

/-- A VLAN entry, a multicast entry or a persistent unicast entry. -/
def isKept (e : AleEntry) : Bool :=
  cpswAleGetEntryType e == aleTypeVlan ||
    isAddrType (cpswAleGetEntryType e) &&
      (cpswAleGetMcast e != 0 || cpswAleGetUcastType e == aleUcastPersistant)

/-- The entries of these kinds and the bitmap are as before. -/
structure Restored (ale ale' : CpswAle) : Prop where
  entries : ∀ i : ℕ, (ale'.table[i]?).filter isKept = (ale.table[i]?).filter isKept
  bitmap : ale'.p0UntagVidMask = ale.p0UntagVidMask

def vlanFinds (vid : U16) (e : AleEntry) : Bool := decide (vlanKey e = some (vid.setWidth 32))

def addrFinds (addr : MacAddr) (vid : U16) (e : AleEntry) : Bool :=
  decide (addrKey e = some (addr, vid.setWidth 32))

/-- The slots in which the VLAN, the address of the port and the broadcast address find a
place, one after another, up to the first that finds none. -/
def vidSlots (params : CpswParams) (ale : CpswAle) (p : Port) (vid : U16) : List ℕ :=
  slotsFor isFree isAgeable ale.table ∅
    [vlanFinds vid, addrFinds (params.macAddr p) vid, addrFinds broadcast vid]

/-- The VLAN id as the twelve bits of its field hold it. -/
def vidField (vid : U16) : U16 := vid &&& 0xfff

theorem vidField_lt (vid : U16) : (vidField vid).toNat < vlanNVid := by
  unfold vidField vlanNVid
  rw [BitVec.toNat_and]
  exact Nat.lt_of_le_of_lt Nat.and_le_right (by decide)

theorem setVlanId_vidField (e : AleEntry) (vid : U16) :
    cpswAleSetVlanId e ((vidField vid).setWidth 32) = cpswAleSetVlanId e (vid.setWidth 32) := by
  have hmask : (0xfff : U16).setWidth 32 &&& BitField.bitMask 32 12 = BitField.bitMask 32 12 := by
    decide
  unfold vidField cpswAleSetVlanId cpswAleSetField BitField.put
  rw [BitVec.setWidth_and, BitVec.and_assoc (vid.setWidth 32), hmask]

theorem ucastEntry_vidField (addr : MacAddr) (port : U32) :
    ucastEntry params.ale addr port aleVlan (vidField vid) =
      ucastEntry params.ale addr port aleVlan vid := by
  unfold ucastEntry cpswAleSetVlanEntryType
  rw [setVlanId_vidField]

theorem mcastEntry_vidField (e : AleEntry) (addr : MacAddr) (portMask mcastState : U32) :
    mcastEntry params.ale e addr portMask aleVlan (vidField vid) mcastState =
      mcastEntry params.ale e addr portMask aleVlan vid mcastState := by
  unfold mcastEntry cpswAleSetVlanEntryType
  rw [setVlanId_vidField]

theorem addVlanEntry_vidField (ale : CpswAle) (e : AleEntry)
    (portMask untag regMcast unregMcast : U32) :
    (addVlanEntry params.ale ale e (vidField vid) portMask untag regMcast unregMcast).2 =
      (addVlanEntry params.ale ale e vid portMask untag regMcast unregMcast).2 := by
  unfold addVlanEntry cpswAleSetVlanUntag
  dsimp only
  rw [setVlanId_vidField]
  split <;> rfl

theorem vlanKey_addVlanEntry (ale : CpswAle) (e : AleEntry) (vid : U16)
    (portMask untag regMcast unregMcast : U32) :
    vlanKey (addVlanEntry params.ale ale e vid portMask untag regMcast unregMcast).2 =
      some ((vidField vid).setWidth 32) := by
  rw [← addVlanEntry_vidField]
  exact addVlanEntry_key (vidField_lt vid) portMask untag regMcast unregMcast

theorem addrKey_ucast (params : CpswParams) (addr : MacAddr) (port : U32) (vid : U16) :
    addrKey (ucastEntry params.ale addr port aleVlan vid) =
      some (addr, (vidField vid).setWidth 32) := by
  rw [← ucastEntry_vidField, addrKey_ucastEntry params.ale addr port aleVlan (vidField_lt vid),
    flagsVid_vlan]

theorem addrKey_mcast (params : CpswParams) (e : AleEntry) (addr : MacAddr)
    (portMask mcastState : U32) (vid : U16) :
    addrKey (mcastEntry params.ale e addr portMask aleVlan vid mcastState) =
      some (addr, (vidField vid).setWidth 32) := by
  have hflag : testBits aleVlan aleVlan = false → cpswAleGetVlanId e = 0 := by
    intro h
    cases h
  rw [← mcastEntry_vidField,
    addrKey_mcastEntry params.ale addr portMask aleVlan mcastState (vidField_lt vid) hflag,
    flagsVid_vlan]

theorem vidField_of_lt (h : vid.toNat < vlanNVid) : vidField vid = vid := by
  apply BitVec.eq_of_toNat_eq
  unfold vidField
  rw [BitVec.toNat_and]
  exact Nat.and_two_pow_sub_one_of_lt_two_pow (n := 12) h

/-- From 4096 on no entry has the VLAN id. -/
theorem getVlanId_ne (h : ¬ vid.toNat < vlanNVid) (e : AleEntry) :
    cpswAleGetVlanId e ≠ vid.setWidth 32 := by
  intro heq
  have hlt : (cpswAleGetVlanId e).toNat < 2 ^ 12 := BitField.get_lt (by decide) _
  rw [heq, BitVec.toNat_setWidth] at hlt
  unfold vlanNVid at h
  omega

theorem not_spare_of_vlanKey {v : U32} (h : vlanKey e = some v) :
    isFree e = false ∧ isAgeable e = false := by
  constructor
  · cases hfree : isFree e
    · rfl
    · rw [vlanKey_of_free hfree] at h
      cases h
  · cases hage : isAgeable e
    · rfl
    · rw [vlanKey_of_ageable hage] at h
      cases h

theorem not_spare_of_fixed (params : CpswParams) {k : AddrKey} (h : addrKey e = some k)
    (hfixed : (addrEntry params.ale e).isFixed = true) :
    isFree e = false ∧ isAgeable e = false := by
  constructor
  · cases hfree : isFree e
    · rfl
    · rw [addrKey_of_free hfree] at h
      cases h
  · rw [isFixed_addrEntry params.ale (isAddrType_of_addrKey h)] at hfixed
    simpa using hfixed

theorem not_spare_ucast (p : Port) (vid : U16) :
    isFree (ucastEntry params.ale (params.macAddr p) hostPortNum aleVlan vid) = false ∧
      isAgeable (ucastEntry params.ale (params.macAddr p) hostPortNum aleVlan vid) = false := by
  apply not_spare_of_fixed params (addrKey_ucast params _ _ vid)
  rw [← ucastEntry_vidField, addrEntry_ucastEntry (params.macAddr_ucast p) (vidField_lt vid)
    (by rw [params.alePorts]; decide)]
  rfl

theorem not_spare_mcast (e : AleEntry) (vid : U16) :
    isFree (mcastEntry params.ale e broadcast alePortHost aleVlan vid 0) = false ∧
      isAgeable (mcastEntry params.ale e broadcast alePortHost aleVlan vid 0) = false := by
  apply not_spare_of_fixed params (addrKey_mcast params _ _ _ _ vid)
  have hkey := getVlanId_of_addrKey (addrKey_mcast params e broadcast alePortHost 0 vid)
  rw [addrEntry_of_mcast]
  · rfl
  · rw [hkey.2]
    exact isMulticast_broadcast

def vlanPut (params : CpswParams) (ale : CpswAle) (p : Port) (unregMcast : U32) (vid : U16) :
    Put AleEntry where
  finds := vlanFinds vid
  entry := fun t => (addVlanEntry params.ale ale
    (readOrZero { ale with table := t } (t.findIdx? (vlanFinds vid))) vid (portMask p) 0
    (portMask p) unregMcast).2
  gone := fun t i => cpswAleSetEntryType
    (cpswAleVlanSetFld params.ale (t.getD i 0) .forceUntaggedMsk 0) aleTypeFree

def ucastPut (params : CpswParams) (p : Port) (vid : U16) : Put AleEntry where
  finds := addrFinds (params.macAddr p) vid
  entry := fun _ => ucastEntry params.ale (params.macAddr p) hostPortNum aleVlan vid
  gone := fun _ _ => cpswAleSetEntryType 0 aleTypeFree

def mcastPut (params : CpswParams) (ale : CpswAle) (vid : U16) : Put AleEntry where
  finds := addrFinds broadcast vid
  entry := fun t => mcastEntry params.ale
    (readOrZero { ale with table := t } (t.findIdx? (addrFinds broadcast vid))) broadcast
    alePortHost aleVlan vid 0
  gone := fun _ _ => 0

def vidPuts (params : CpswParams) (ale : CpswAle) (p : Port) (unregMcast : U32) (vid : U16) :
    List (Put AleEntry) :=
  [vlanPut params ale p unregMcast vid, ucastPut params p vid, mcastPut params ale vid]

theorem store_put (ale : CpswAle) (f : AleEntry → Bool) (e : AleEntry) :
    (slotFor isFree isAgeable ∅ f ale.table = none ∧
      cpswAleStore ale (ale.table.findIdx? f) e = (ale, -enomem)) ∨
    ∃ i, slotFor isFree isAgeable ∅ f ale.table = some i ∧
      cpswAleStore ale (ale.table.findIdx? f) e = (cpswAleWrite ale i e, 0) := by
  unfold cpswAleStore slotFor cpswAleMatchFree cpswAleFindAgeable
  rw [outside_empty, outside_empty, outside_empty, Option.or_assoc]
  generalize (ale.table.findIdx? f).or _ = idx
  cases idx with
  | none => exact .inl ⟨rfl, rfl⟩
  | some i => exact .inr ⟨i, rfl, rfl⟩

/-- What the call does to the table, its answer, and the bitmap. -/
structure Outcome (ale : CpswAle) (vid : U16) (r : CpswAle × ℤ) (q : List AleEntry × Bool) :
    Prop where
  table : r.1.table = q.1
  ret : r.2 = 0 ↔ q.2 = true
  bitmap : r.1.p0UntagVidMask = Function.update ale.p0UntagVidMask vid false

/-- Deleting the VLAN after the two addresses have been put and deleted again. -/
theorem Outcome.delVlan {ale' : CpswAle} (unregMcast : U32) {t : List AleEntry}
    (htable : ale'.table = t)
    (hbitmap : ale'.p0UntagVidMask = Function.update ale.p0UntagVidMask vid false) {ret : ℤ}
    (hret : ret ≠ 0) : Outcome ale vid ((cpswAleDelVlan params.ale ale' vid 0).1, ret)
      ((vlanPut params ale p unregMcast vid).remove t, false) := by
  subst htable
  have hfind : cpswAleMatchVlan ale' vid = ale'.table.findIdx? (vlanFinds vid) :=
    cpswAleMatchVlan_eq ale' vid
  refine ⟨?_, by simp [hret], ?_⟩
  · unfold cpswAleDelVlan Put.remove delVlanEntry
    rw [hfind]
    dsimp only [vlanPut]
    cases ale'.table.findIdx? (vlanFinds vid) with
    | none => rfl
    | some i =>
      dsimp only
      rw [if_pos (.inl rfl)]
      rfl
  · unfold cpswAleDelVlan delVlanEntry
    split
    · exact hbitmap
    · rw [if_pos (.inl rfl)]
      show Function.update ale'.p0UntagVidMask vid false = _
      rw [hbitmap, Function.update_idem]

theorem delUcast_eq (ale : CpswAle) (p : Port) (vid : U16) :
    (cpswAleDelUcast ale (params.macAddr p) hostPortNum aleVlan vid).1 =
      { ale with table := (ucastPut params p vid).remove ale.table } := by
  have hfind : cpswAleMatchAddr ale (params.macAddr p) vid =
      ale.table.findIdx? (addrFinds (params.macAddr p) vid) := cpswAleMatchAddr_eq ale _ vid
  unfold cpswAleDelUcast Put.remove
  rw [flagsVid_vlan, hfind]
  dsimp only [ucastPut]
  cases ale.table.findIdx? (addrFinds (params.macAddr p) vid) <;> rfl

theorem addVlan_put (params : CpswParams) (ale : CpswAle) (p : Port) (unregMcast : U32)
    (vid : U16) : ∃ ale₁ : CpswAle, ale₁.table = ale.table ∧
      ale₁.p0UntagVidMask = Function.update ale.p0UntagVidMask vid false ∧
      ((slotFor isFree isAgeable ∅ (vlanPut params ale p unregMcast vid).finds ale.table = none ∧
        cpswAleAddVlan params.ale ale vid (portMask p) 0 (portMask p) unregMcast =
          (ale₁, -enomem)) ∨
      ∃ i, slotFor isFree isAgeable ∅ (vlanPut params ale p unregMcast vid).finds ale.table =
          some i ∧
        cpswAleAddVlan params.ale ale vid (portMask p) 0 (portMask p) unregMcast =
          (cpswAleWrite ale₁ i ((vlanPut params ale p unregMcast vid).entry ale.table), 0)) := by
  have hfind : cpswAleMatchVlan ale vid = ale.table.findIdx? (vlanFinds vid) :=
    cpswAleMatchVlan_eq ale vid
  have hmark := addVlanEntry_ale params.ale ale
    (readOrZero ale (ale.table.findIdx? (vlanFinds vid))) vid (portMask p) 0 (portMask p) unregMcast
  have htable : (addVlanEntry params.ale ale (readOrZero ale (ale.table.findIdx? (vlanFinds vid)))
      vid (portMask p) 0 (portMask p) unregMcast).1.table = ale.table := by rw [hmark]
  refine ⟨_, htable, by rw [hmark]; rfl, ?_⟩
  have hstore := store_put (addVlanEntry params.ale ale
    (readOrZero ale (ale.table.findIdx? (vlanFinds vid))) vid (portMask p) 0 (portMask p)
    unregMcast).1 (vlanFinds vid) ((vlanPut params ale p unregMcast vid).entry ale.table)
  rw [htable] at hstore
  unfold cpswAleAddVlan
  rw [hfind]
  exact hstore

theorem addUcast_put (params : CpswParams) (ale : CpswAle) (p : Port) (vid : U16) :
    (slotFor isFree isAgeable ∅ (ucastPut params p vid).finds ale.table = none ∧
      cpswAleAddUcast params.ale ale (params.macAddr p) hostPortNum aleVlan vid =
        (ale, -enomem)) ∨
    ∃ i, slotFor isFree isAgeable ∅ (ucastPut params p vid).finds ale.table = some i ∧
      cpswAleAddUcast params.ale ale (params.macAddr p) hostPortNum aleVlan vid =
        (cpswAleWrite ale i ((ucastPut params p vid).entry ale.table), 0) := by
  unfold cpswAleAddUcast
  rw [flagsVid_vlan, cpswAleMatchAddr_eq]
  exact store_put ale (addrFinds (params.macAddr p) vid) _

theorem addMcast_put (params : CpswParams) (ale ale' : CpswAle) (vid : U16) :
    (slotFor isFree isAgeable ∅ (mcastPut params ale vid).finds ale'.table = none ∧
      cpswAleAddMcast params.ale ale' broadcast alePortHost aleVlan vid 0 = (ale', -enomem)) ∨
    ∃ i, slotFor isFree isAgeable ∅ (mcastPut params ale vid).finds ale'.table = some i ∧
      cpswAleAddMcast params.ale ale' broadcast alePortHost aleVlan vid 0 =
        (cpswAleWrite ale' i ((mcastPut params ale vid).entry ale'.table), 0) := by
  have hread : ∀ idx, readOrZero ale' idx = readOrZero { ale with table := ale'.table } idx := by
    intro idx
    cases idx <;> rfl
  unfold cpswAleAddMcast
  dsimp only
  rw [flagsVid_vlan, cpswAleMatchAddr_eq, hread]
  exact store_put ale' (addrFinds broadcast vid) _

/-- The call is the three puts, with the labels as their removal. -/
theorem addVid_outcome (params : CpswParams) (ale : CpswAle) (p : Port) (allmulti : Bool)
    (vid : U16) : Outcome ale vid (cpswAddVlanAleEntry params ale p allmulti vid)
      (putAll isFree isAgeable
        (vidPuts params ale p (if allmulti then alePortHost else 0) vid) ale.table) := by
  have henomem : -enomem ≠ 0 := by decide
  have hok : ∀ ale' : CpswAle, ¬ (ale', (0 : ℤ)).2 ≠ 0 := fun _ hne => hne rfl
  unfold cpswAddVlanAleEntry vidPuts
  dsimp only
  generalize (if allmulti then alePortHost else 0) = unregMcast
  obtain ⟨ale₁, htable, hbitmap, ⟨hslot, hadd⟩ | ⟨a, hslot, hadd⟩⟩ :=
    addVlan_put params ale p unregMcast vid
  · rw [hadd, if_pos henomem, putAll_none hslot]
    exact ⟨htable, by simp [henomem], hbitmap⟩
  rw [hadd, if_neg (hok _), putAll_some hslot]
  obtain ⟨ale₂, hwrite⟩ : ∃ ale₂, cpswAleWrite ale₁ a
      ((vlanPut params ale p unregMcast vid).entry ale.table) = ale₂ := ⟨_, rfl⟩
  have htable₂ : ale.table.set a ((vlanPut params ale p unregMcast vid).entry ale.table) =
      ale₂.table := by
    rw [← hwrite, ← htable]
    rfl
  have hbitmap₂ : ale₂.p0UntagVidMask = _ := (congrArg _ hwrite.symm).trans hbitmap
  rw [hwrite, htable₂]
  obtain ⟨hslot₂, haddr⟩ | ⟨b, hslot₂, haddr⟩ := addUcast_put params ale₂ p vid
  · rw [haddr, if_pos henomem, putAll_none hslot₂]
    exact Outcome.delVlan unregMcast rfl hbitmap₂ henomem
  rw [haddr, if_neg (hok _), putAll_some hslot₂]
  obtain ⟨ale₃, hwrite₃⟩ : ∃ ale₃,
      cpswAleWrite ale₂ b ((ucastPut params p vid).entry ale₂.table) = ale₃ := ⟨_, rfl⟩
  have htable₃ : ale₂.table.set b ((ucastPut params p vid).entry ale₂.table) = ale₃.table := by
    rw [← hwrite₃]
    rfl
  have hbitmap₃ : ale₃.p0UntagVidMask = _ := (congrArg _ hwrite₃.symm).trans hbitmap₂
  rw [hwrite₃, htable₃]
  obtain ⟨hslot₃, hgroup⟩ | ⟨c, hslot₃, hgroup⟩ := addMcast_put params ale ale₃ vid
  · rw [hgroup, if_pos henomem, putAll_none hslot₃, delUcast_eq]
    have hbitmap₄ :
        { ale₃ with table := (ucastPut params p vid).remove ale₃.table }.p0UntagVidMask =
          Function.update ale.p0UntagVidMask vid false := hbitmap₃
    exact Outcome.delVlan unregMcast rfl hbitmap₄ henomem
  · rw [hgroup, if_neg (hok _), putAll_some hslot₃]
    exact ⟨rfl, by simp [putAll], hbitmap₃⟩

theorem forall_vidPuts {P : Put AleEntry → Prop} {unregMcast : U32} :
    (∀ x ∈ vidPuts params ale p unregMcast vid, P x) ↔
      P (vlanPut params ale p unregMcast vid) ∧ P (ucastPut params p vid) ∧
        P (mcastPut params ale vid) := by
  simp [vidPuts]

theorem vidPuts_solid (unregMcast : U32) : ∀ x ∈ vidPuts params ale p unregMcast vid,
    ∀ t, isFree (x.entry t) = false ∧ isAgeable (x.entry t) = false :=
  forall_vidPuts.mpr ⟨fun _ => not_spare_of_vlanKey (vlanKey_addVlanEntry _ _ vid _ _ _ _),
    fun _ => not_spare_ucast p vid, fun _ => not_spare_mcast _ vid⟩

theorem addrFinds_of_vlanKey {v : U32} (h : vlanKey e = some v) (addr : MacAddr) (vid : U16) :
    addrFinds addr vid e = false := by
  unfold addrFinds
  rw [addrKey_of_vlanKey h]
  rfl

/-- No search meets an entry that was put before it. -/
theorem vidPuts_apart (unregMcast : U32) : (vidPuts params ale p unregMcast vid).Pairwise
    fun x y => ∀ t, y.finds (x.entry t) = false := by
  have hvlan : ∀ t addr,
      addrFinds addr vid ((vlanPut params ale p unregMcast vid).entry t) = false :=
    fun t addr => addrFinds_of_vlanKey (vlanKey_addVlanEntry _ _ vid _ _ _ _) addr vid
  have hucast : ∀ t, addrFinds broadcast vid ((ucastPut params p vid).entry t) = false := by
    intro t
    have hne : params.macAddr p ≠ broadcast := by
      intro heq
      have hbit := params.macAddr_ucast p
      rw [heq, isMulticast_broadcast] at hbit
      cases hbit
    have hkey : addrKey ((ucastPut params p vid).entry t) = _ := addrKey_ucast params _ _ vid
    unfold addrFinds
    rw [hkey]
    simp [hne]
  simp only [vidPuts, List.pairwise_cons, List.mem_cons, List.not_mem_nil, or_false,
    forall_eq_or_imp, forall_eq]
  exact ⟨⟨fun t => hvlan t _, fun t => hvlan t _⟩, hucast, fun _ h => h.elim, List.Pairwise.nil⟩

theorem vidPuts_undoable (hvid : vid.toNat < vlanNVid) (unregMcast : U32) :
    Undoable isFree isAgeable (vidPuts params ale p unregMcast vid) where
  solid := vidPuts_solid unregMcast
  apart := vidPuts_apart unregMcast
  found := by
    have hfield := congrArg (BitVec.setWidth 32) (vidField_of_lt hvid)
    refine forall_vidPuts.mpr ⟨fun t => ?_, fun t => ?_, fun t => ?_⟩
    · exact decide_eq_true ((vlanKey_addVlanEntry _ _ vid _ _ _ _).trans (congrArg some hfield))
    · exact decide_eq_true ((addrKey_ucast params _ _ vid).trans (by rw [hfield]))
    · exact decide_eq_true ((addrKey_mcast params _ _ _ _ vid).trans (by rw [hfield]))
  gone := forall_vidPuts.mpr ⟨fun _ _ => isFree_setEntryType _, fun _ _ => isFree_setEntryType _,
    fun _ _ => isFree_zero⟩
  spare := by
    have haddr : ∀ addr e, isFree e = true → addrFinds addr vid e = false := by
      intro addr e hfree
      unfold addrFinds
      rw [addrKey_of_free hfree]
      rfl
    refine forall_vidPuts.mpr ⟨fun e hfree => ?_, haddr _, haddr _⟩
    show vlanFinds vid e = false
    unfold vlanFinds
    rw [vlanKey_of_free hfree]
    rfl

/-- From 4096 on the searches find nothing, not even what they have put. -/
theorem vidPuts_blind (hvid : ¬ vid.toNat < vlanNVid) (unregMcast : U32) :
    ∀ x ∈ vidPuts params ale p unregMcast vid, ∀ e, x.finds e = false := by
  have haddr : ∀ addr e, addrFinds addr vid e = false := by
    intro addr e
    unfold addrFinds
    apply decide_eq_false
    intro hkey
    exact getVlanId_ne hvid e (getVlanId_of_addrKey hkey).1
  refine forall_vidPuts.mpr ⟨fun e => ?_, haddr _, haddr _⟩
  show vlanFinds vid e = false
  unfold vlanFinds vlanKey
  apply decide_eq_false
  split
  · exact fun heq => getVlanId_ne hvid e (Option.some.inj heq)
  · exact Option.some_ne_none _ ∘ Eq.symm

theorem isKept_of_free (h : isFree e = true) : isKept e = false := by
  have htype : cpswAleGetEntryType e = aleTypeFree := by simpa [isFree] using h
  unfold isKept
  rw [htype]
  rfl

theorem isKept_of_ageable (h : isAgeable e = true) : isKept e = false := by
  simp only [isAgeable, Bool.and_eq_true, bne_iff_ne, beq_iff_eq] at h
  obtain ⟨⟨⟨htype, hmcast⟩, hucast⟩, -⟩ := h
  have hvlan : cpswAleGetEntryType e ≠ aleTypeVlan := by
    intro heq
    rw [heq] at htype
    cases htype
  simp [isKept, hvlan, hmcast, hucast]

theorem isKept_of_vlanKey {v : U32} (h : vlanKey e = some v) : isKept e = true := by
  simp [isKept, getEntryType_of_vlanKey h]

/-- What the failed puts leave of the entries that count. -/
theorem vidPuts_entries_iff {unregMcast : U32}
    (hfail : (putAll isFree isAgeable (vidPuts params ale p unregMcast vid) ale.table).2 = false) :
    (∀ i : ℕ, (((putAll isFree isAgeable (vidPuts params ale p unregMcast vid)
        ale.table).1)[i]?).filter isKept = (ale.table[i]?).filter isKept) ↔
      ∀ i ∈ vidSlots params ale p vid,
        vid.toNat < vlanNVid ∧ (ale.table[i]?).filter isKept = none := by
  by_cases hvid : vid.toNat < vlanNVid
  · rw [(putAll_undone (vidPuts_undoable hvid unregMcast) hfail).filter_eq_iff
      fun _ => isKept_of_free]
    exact forall_congr' fun i => forall_congr' fun _ => (and_iff_right hvid).symm
  have hblind : ∀ x ∈ vidPuts params ale p unregMcast vid, ∀ e, x.finds e = false :=
    vidPuts_blind hvid unregMcast
  cases hslot : slotFor isFree isAgeable ∅ (vlanPut params ale p unregMcast vid).finds
      ale.table with
  | none =>
    have hslots : vidSlots params ale p vid = [] := by
      unfold vidSlots slotsFor
      rw [show slotFor isFree isAgeable ∅ (vlanFinds vid) ale.table = none from hslot]
    have hsame : putAll isFree isAgeable (vidPuts params ale p unregMcast vid) ale.table =
      (ale.table, false) := putAll_none hslot
    rw [hslots, hsame]
    simp
  | some a =>
    have hmem : a ∈ vidSlots params ale p vid := by
      unfold vidSlots slotsFor
      rw [show slotFor isFree isAgeable ∅ (vlanFinds vid) ale.table = some a from hslot]
      exact List.mem_cons_self
    have hhead : ((putAll isFree isAgeable (vidPuts params ale p unregMcast vid) ale.table).1)[a]? =
        some ((vlanPut params ale p unregMcast vid).entry ale.table) :=
      putAll_blind_head hblind (vidPuts_solid unregMcast _ List.mem_cons_self _) hslot
    obtain ⟨-, old, hold, hspare⟩ := slotFor_eq_some hslot
    have hkept : isKept old = false := by
      rcases hspare with hfinds | hfree | hage
      · rw [hblind _ List.mem_cons_self] at hfinds
        cases hfinds
      · exact isKept_of_free hfree
      · exact isKept_of_ageable hage
    have hput : isKept ((vlanPut params ale p unregMcast vid).entry ale.table) = true :=
      isKept_of_vlanKey (vlanKey_addVlanEntry _ _ vid _ _ _ _)
    constructor
    · intro heq
      have hat := heq a
      rw [hhead, hold, Option.filter_some_pos hput, Option.filter_some_neg (by simp [hkept])] at hat
      cases hat
    · intro h
      exact absurd (h a hmem).1 hvid

/-- A failed call puts everything back if and only if it had cleared no bit of the bitmap and
the slots that it got to held nothing that counts. -/
theorem addVlanAleEntry_restores_iff (params : CpswParams) (ale : CpswAle) (p : Port)
    (allmulti : Bool) (vid : U16) :
    ((cpswAddVlanAleEntry params ale p allmulti vid).2 ≠ 0 →
      Restored ale (cpswAddVlanAleEntry params ale p allmulti vid).1) ↔
      ((vidSlots params ale p vid).length < 3 → ale.p0UntagVidMask vid = false ∧
        ∀ i ∈ vidSlots params ale p vid,
          vid.toNat < vlanNVid ∧ (ale.table[i]?).filter isKept = none) := by
  obtain ⟨htable, hret, hbitmap⟩ := addVid_outcome params ale p allmulti vid
  generalize (if allmulti then alePortHost else 0) = unregMcast at htable hret
  have hfull : (putAll isFree isAgeable (vidPuts params ale p unregMcast vid) ale.table).2 = true ↔
      (vidSlots params ale p vid).length = 3 :=
    putAll_ok_iff (vidPuts_solid unregMcast) (vidPuts_apart unregMcast) ale.table
  have hle : (vidSlots params ale p vid).length ≤ 3 := slotsFor_length_le _ _ _
  have hfails : (cpswAddVlanAleEntry params ale p allmulti vid).2 ≠ 0 ↔
      (vidSlots params ale p vid).length < 3 := by
    rw [Ne, hret, hfull]
    omega
  rw [hfails]
  refine forall_congr' fun hlt => ?_
  have hfalse : (putAll isFree isAgeable (vidPuts params ale p unregMcast vid) ale.table).2 =
      false := by
    rw [← Bool.not_eq_true, hfull]
    omega
  rw [← vidPuts_entries_iff hfalse, ← htable]
  constructor
  · rintro ⟨hentries, hmask⟩
    rw [hbitmap] at hmask
    exact ⟨(Function.update_eq_self_iff.mp hmask).symm, hentries⟩
  · rintro ⟨hbit, hentries⟩
    refine ⟨hentries, ?_⟩
    rw [hbitmap]
    exact Function.update_eq_self_iff.mpr hbit.symm

/-- Port 1 asks for the VLAN of port 0 on a full table, and the VLAN is gone for both. -/
theorem failed_addVid_drops_vlan : ¬ ∀ (params : CpswParams) (ale : CpswAle) (p : Port)
    (allmulti : Bool) (vid : U16), (cpswAddVlanAleEntry params ale p allmulti vid).2 ≠ 0 →
      Restored ale (cpswAddVlanAleEntry params ale p allmulti vid).1 := by
  intro h
  have hrestored := h twoPorts
    (cpswAddVlanAleEntry twoPorts (boot twoPorts 10).ale 0 false 5).1 1 false 5 (by decide +kernel)
  have hslot := hrestored.entries 7
  have hbefore :
      (((cpswAddVlanAleEntry twoPorts (boot twoPorts 10).ale 0 false 5).1.table[7]?).filter
        isKept).isSome = true := by decide +kernel
  have hafter :
      (((cpswAddVlanAleEntry twoPorts
        (cpswAddVlanAleEntry twoPorts (boot twoPorts 10).ale 0 false 5).1 1 false
          5).1.table[7]?).filter isKept).isSome = false := by decide +kernel
  rw [hslot, hbefore] at hafter
  cases hafter

end CpswDriver.Filters
