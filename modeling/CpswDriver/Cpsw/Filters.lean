import CpswDriver.Ale.AddrMap
import CpswDriver.Ale.VlanMap
import CpswDriver.Cpsw.Slaves
import CpswDriver.Lib.Holdings

/-!
The VLAN and multicast callbacks of the two ports in dual EMAC mode. Both ports
write to one lookup table, where a VLAN id has one entry and an address with a
VLAN id has one entry. The books of a state are no part of the driver: they say
which VLAN ids and which multicast addresses each port has asked for and not
given up.
-/

namespace CpswDriver.Filters

open Ale Runs Holdings

/-- The switch as it was probed. -/
structure CpswParams where
  ale : AleParams
  defaultVlan : U16
  portVlan : Port → U16
  macAddr : Port → MacAddr
  devId : ale.dev.devId = "cpsw"
  alePorts : ale.alePorts = 3
  portVlan_lt : ∀ p, (portVlan p).toNat < vlanNVid
  defaultVlan_lt : defaultVlan.toNat < vlanNVid
  macAddr_ucast : ∀ p, isMulticastEtherAddr (macAddr p) = false

/-- struct netdev_hw_addr -/
structure NetdevHwAddr where
  addr : MacAddr
  syncCnt : ℤ

/-- A VLAN of a port, with what the callbacks read of its device: is it there
and up, and its multicast list. -/
structure VlanDev where
  vid : U16
  up : Bool
  mc : List NetdevHwAddr

structure State where
  ale : CpswAle
  vids : Port → Finset U16
  mcs : Port → Finset (MacAddr × U16)

def cpswAddVlanAleEntry (params : CpswParams) (ale : CpswAle) (p : Port) (allmulti : Bool)
    (vid : U16) : CpswAle × ℤ :=
  let mcastMask := alePortHost
  let unregMcastMask := if allmulti then mcastMask else 0
  let (ale, ret) :=
    cpswAleAddVlan params.ale ale vid (portMask p) 0 (portMask p) unregMcastMask
  if ret ≠ 0 then (ale, ret)
  else
    let (ale, ret) :=
      cpswAleAddUcast params.ale ale (params.macAddr p) hostPortNum aleVlan vid
    if ret ≠ 0 then
      ((cpswAleDelVlan params.ale ale vid 0).1, ret)
    else
      let (ale, ret) := cpswAleAddMcast params.ale ale broadcast mcastMask aleVlan vid 0
      if ret ≠ 0 then
        let ale := (cpswAleDelUcast ale (params.macAddr p) hostPortNum aleVlan vid).1
        ((cpswAleDelVlan params.ale ale vid 0).1, ret)
      else (ale, 0)

/-- In dual EMAC, the reserved VLAN ids are not for VLAN interfaces. -/
def isPortVlan (params : CpswParams) (vid : U16) : Prop := ∃ p, vid = params.portVlan p

instance (params : CpswParams) (vid : U16) : Decidable (isPortVlan params vid) :=
  inferInstanceAs (Decidable (∃ p, vid = params.portVlan p))

/-- `pm` is what pm_runtime_resume_and_get answers. -/
def cpswNdoVlanRxAddVid (params : CpswParams) (ale : CpswAle) (p : Port) (allmulti : Bool)
    (vid : U16) (pm : ℤ) : CpswAle × ℤ :=
  if vid = params.defaultVlan then (ale, 0)
  else if pm < 0 then (ale, pm)
  else if isPortVlan params vid then (ale, -einval)
  else cpswAddVlanAleEntry params ale p allmulti vid

def cpswNdoVlanRxKillVid (params : CpswParams) (ale : CpswAle) (p : Port) (vid : U16) (pm : ℤ) :
    CpswAle × ℤ :=
  if vid = params.defaultVlan then (ale, 0)
  else if pm < 0 then (ale, pm)
  else if isPortVlan params vid then (ale, -einval)
  else
    let ale := (cpswAleDelVlan params.ale ale vid 0).1
    let ale := (cpswAleDelUcast ale (params.macAddr p) hostPortNum aleVlan vid).1
    let ale := (cpswAleDelMcast params.ale ale broadcast 0 aleVlan vid).1
    ((cpswAleFlushMulticast params.ale ale alePortHost (vid.setWidth 32)).1, 0)

/-- The VLAN id `none`, below zero in C, is for the port's own device. The book of
the port follows. -/
def cpswSetMc (params : CpswParams) (s : State) (p : Port) (addr : MacAddr) (vid : Option U16)
    (add : Bool) : State × ℤ :=
  let vid := vid.getD (params.portVlan p)
  let mask := alePortHost
  let flags := if vid ≠ 0 then aleVlan else 0
  if add then
    let (ale, ret) := cpswAleAddMcast params.ale s.ale addr mask flags vid 0
    ({ s with ale := ale, mcs := if ret = 0 then take s.mcs p (addr, vid) else s.mcs }, ret)
  else
    let (ale, ret) := cpswAleDelMcast params.ale s.ale addr 0 flags vid
    ({ s with ale := ale, mcs := letGo s.mcs p (· = (addr, vid)) }, ret)

/-- struct addr_sync_ctx, with the state that the calls work on. -/
structure AddrSyncCtx where
  s : State
  consumed : ℤ

/-- vlan_for_each: the first call that fails ends the loop. -/
def vlanForEach (action : AddrSyncCtx → VlanDev → AddrSyncCtx × ℤ) (ctx : AddrSyncCtx) :
    List VlanDev → AddrSyncCtx × ℤ
  | [] => (ctx, 0)
  | vdev :: vlans =>
    let (ctx, ret) := action ctx vdev
    if ret ≠ 0 then (ctx, ret) else vlanForEach action ctx vlans

/-- The sync count of an address on a device; the address is relevant if it is not 0. -/
def foundOn (vdev : VlanDev) (addr : MacAddr) : ℤ :=
  ((vdev.mc.find? fun ha => ha.addr = addr).map NetdevHwAddr.syncCnt).getD 0

def cpswUpdateVlanMc (params : CpswParams) (p : Port) (addr : MacAddr) (flush : Bool)
    (ctx : AddrSyncCtx) (vdev : VlanDev) : AddrSyncCtx × ℤ :=
  if !vdev.up then (ctx, 0)
  else
    let found := foundOn vdev addr
    let ctx := if found ≠ 0 then { ctx with consumed := ctx.consumed + 1 } else ctx
    if flush then
      if found = 0 then ({ ctx with s := (cpswSetMc params ctx.s p addr vdev.vid false).1 }, 0)
      else (ctx, 0)
    else if found ≠ 0 then
      let (s, ret) := cpswSetMc params ctx.s p addr vdev.vid true
      ({ ctx with s := s }, ret)
    else (ctx, 0)

def cpswAddMcAddr (params : CpswParams) (s : State) (p : Port) (addr : MacAddr) (num : ℤ)
    (vlans : List VlanDev) : State × ℤ :=
  let (ctx, ret) := vlanForEach (cpswUpdateVlanMc params p addr false) ⟨s, 0⟩ vlans
  if ctx.consumed < num ∧ ret = 0 then cpswSetMc params ctx.s p addr none true
  else (ctx.s, ret)

def cpswDelMcAddr (params : CpswParams) (s : State) (p : Port) (addr : MacAddr) (num : ℤ)
    (vlans : List VlanDev) : State × ℤ :=
  let ctx := (vlanForEach (cpswUpdateVlanMc params p addr true) ⟨s, 0⟩ vlans).1
  if ctx.consumed = num then ((cpswSetMc params ctx.s p addr none false).1, 0) else (ctx.s, 0)

def cpswPurgeVlanMc (params : CpswParams) (p : Port) (addr : MacAddr) (ctx : AddrSyncCtx)
    (vdev : VlanDev) : AddrSyncCtx × ℤ :=
  if !vdev.up then (ctx, 0)
  else if foundOn vdev addr = 0 then (ctx, 0)
  else ({ s := (cpswSetMc params ctx.s p addr vdev.vid false).1, consumed := ctx.consumed + 1 }, 0)

def cpswPurgeAllMc (params : CpswParams) (s : State) (p : Port) (addr : MacAddr) (num : ℤ)
    (vlans : List VlanDev) : State × ℤ :=
  let ctx := (vlanForEach (cpswPurgeVlanMc params p addr) ⟨s, 0⟩ vlans).1
  if ctx.consumed < num then ((cpswSetMc params ctx.s p addr none false).1, 0) else (ctx.s, 0)

/-- The callbacks, which the network stack makes one at a time. -/
inductive Op
  | addVid (p : Port) (allmulti : Bool) (vid : U16) (pm : ℤ)
  | killVid (p : Port) (vid : U16) (pm : ℤ)
  | addMcAddr (p : Port) (addr : MacAddr) (num : ℤ) (vlans : List VlanDev)
  | delMcAddr (p : Port) (addr : MacAddr) (num : ℤ) (vlans : List VlanDev)
  | purgeAllMc (p : Port) (addr : MacAddr) (num : ℤ) (vlans : List VlanDev)

/-- One callback, with the books: a VLAN id is added and killed when the callback
returns 0, and a port that takes its VLAN out of the table gives up the
multicast addresses it has there. -/
def step (params : CpswParams) (s : State) : Op → Option State
  | .addVid p allmulti vid pm =>
    let (ale, ret) := cpswNdoVlanRxAddVid params s.ale p allmulti vid pm
    some { s with ale := ale, vids := if ret = 0 then take s.vids p vid else s.vids }
  | .killVid p vid pm =>
    let (ale, ret) := cpswNdoVlanRxKillVid params s.ale p vid pm
    some { ale := ale
           vids := if ret = 0 then letGo s.vids p (· = vid) else s.vids
           mcs := if ret = 0 ∧ vid ≠ params.defaultVlan then letGo s.mcs p (·.2 = vid)
             else s.mcs }
  | .addMcAddr p addr num vlans => some (cpswAddMcAddr params s p addr num vlans).1
  | .delMcAddr p addr num vlans => some (cpswDelMcAddr params s p addr num vlans).1
  | .purgeAllMc p addr num vlans => some (cpswPurgeAllMc params s p addr num vlans).1

variable {params : CpswParams} {ale ale' ale'' : CpswAle} {s s' : State} {p : Port} {vid : U16}
  {addr : MacAddr}

theorem CpswParams.directMasks (params : CpswParams) : DirectMasks params.ale :=
  directMasks_of_cpsw params.devId params.alePorts

def vlans (params : CpswParams) (ale : CpswAle) (vid : U16) : Option VlanMasks :=
  lookupVlan params.ale ale (vid.setWidth 32)

def groups (params : CpswParams) (ale : CpswAle) (k : MacAddr × U16) : Option AddrEntry :=
  lookupAddr params.ale ale (k.1, k.2.setWidth 32)

/-- The port and the host are members. -/
def Serves (p : Port) (_ : U16) (m : VlanMasks) : Prop := m.members &&& portMask p = portMask p

/-- A multicast entry with the host in its mask. -/
def ToHost : AddrEntry → Prop
  | .ucast _ _ _ _ => False
  | .mcast ports _ _ => ports &&& alePortHost = alePortHost

def Delivers (_ : Port) (_ : MacAddr × U16) (e : AddrEntry) : Prop := ToHost e

/-- What each port has asked for and not given up is in the table. -/
structure NotUndone (params : CpswParams) (s : State) : Prop where
  vids : Held Serves s.vids (vlans params s.ale)
  mcs : Held Delivers s.mcs (groups params s.ale)

/-- The table is a map, which has the default VLAN for both ports. -/
structure Sound (params : CpswParams) (ale : CpswAle) : Prop where
  keyed : Keyed ale
  defaultVlan : ∀ p, ∃ m, vlans params ale params.defaultVlan = some m ∧
    Serves p params.defaultVlan m

/-- A change of the table that keeps it a map, and that spoils only what the ports
had of the given VLAN ids and groups. -/
structure Change (params : CpswParams) (goneVids : Set U16) (goneMcs : Set (MacAddr × U16))
    (ale ale' : CpswAle) : Prop where
  keyed : Keyed ale'
  ofVlans : Keeps Serves goneVids (vlans params ale) (vlans params ale')
  ofGroups : Keeps Delivers goneMcs (groups params ale) (groups params ale')

variable {goneVids : Set U16} {goneMcs : Set (MacAddr × U16)}

theorem Change.refl (h : Keyed ale) : Change params goneVids goneMcs ale ale :=
  ⟨h, keeps_of_eq fun _ _ => rfl, keeps_of_eq fun _ _ => rfl⟩

theorem Change.trans (h : Change params goneVids goneMcs ale ale')
    (h' : Change params goneVids goneMcs ale' ale'') :
    Change params goneVids goneMcs ale ale'' :=
  ⟨h'.keyed, h.ofVlans.trans h'.ofVlans, h.ofGroups.trans h'.ofGroups⟩

theorem Change.mono {goneVids' : Set U16} {goneMcs' : Set (MacAddr × U16)}
    (h : Change params goneVids goneMcs ale ale') (hv : goneVids ⊆ goneVids')
    (hm : goneMcs ⊆ goneMcs') : Change params goneVids' goneMcs' ale ale' :=
  ⟨h.keyed, h.ofVlans.mono hv, h.ofGroups.mono hm⟩

theorem ToHost.isMcast {e : AddrEntry} (h : ToHost e) : e.isMcast = true := by
  cases e with
  | ucast ucastType port secure blocked => exact h.elim
  | mcast ports super mcastState => rfl

theorem not_evicted {P : Prop} {gone : Option AddrKey} (h : Evicts ale P gone) {k : AddrKey}
    {e : AddrEntry} (he : lookupAddr params.ale ale k = some e) (hto : ToHost e) :
    gone ≠ some k := by
  intro hgone
  obtain ⟨-, -, old, hl, hage⟩ := h k hgone
  have hentry : addrEntry params.ale old = e := by
    unfold lookupAddr at he
    rw [hl] at he
    exact Option.some.inj he
  simp only [isAgeable, Bool.and_eq_true, beq_iff_eq] at hage
  have hucast : (addrEntry params.ale old).isMcast = false := by
    rw [isMcast_addrEntry, getMcast_eq_zero_iff.mp hage.1.1.2]
  rw [hentry, hto.isMcast] at hucast
  cases hucast

theorem keeps_of_added {k : AddrKey} {v : AddrEntry} {r : CpswAle × ℤ}
    (h : Added params.ale ale k v r)
    (hsafe : ∀ e, lookupAddr params.ale ale k = some e → ToHost e → ToHost v) :
    Keeps Delivers goneMcs (groups params ale) (groups params r.1) := by
  intro q k' e _ he hto
  unfold groups at he ⊢
  rcases h.ret with hret | ⟨-, hsame⟩
  · obtain ⟨gone, hevicts, hmap⟩ := h.stored hret
    rw [hmap]
    by_cases hk : (k'.1, k'.2.setWidth 32) = k
    · rw [hk] at he
      exact ⟨v, if_pos hk, hsafe e he hto⟩
    · exact ⟨e, by rw [if_neg hk, if_neg (not_evicted hevicts he hto), he], hto⟩
  · rw [hsame]
    exact ⟨e, he, hto⟩

theorem keeps_of_deleted {k : AddrKey} {v : Option AddrEntry} {r : CpswAle × ℤ}
    (h : Deleted params.ale ale k v r)
    (hgone : ∀ k' e, (k'.1, k'.2.setWidth 32) = k → groups params ale k' = some e → ToHost e →
      k' ∈ goneMcs) : Keeps Delivers goneMcs (groups params ale) (groups params r.1) := by
  intro q k' e hstay he hto
  have hk : (k'.1, k'.2.setWidth 32) ≠ k := fun hk => hstay (hgone k' e hk he hto)
  unfold groups at he ⊢
  rcases h.ret with hret | ⟨-, hsame⟩
  · exact ⟨e, by rw [h.stored hret, if_neg hk, he], hto⟩
  · rw [hsame]
    exact ⟨e, he, hto⟩

theorem not_toHost (h : Keyed ale) (haddr : isMulticastEtherAddr addr = false) {v : U32}
    {e : AddrEntry} (he : lookupAddr params.ale ale (addr, v) = some e) : ¬ ToHost e := by
  intro hto
  have hkind := h.addrMap.kind (addr, v) e he
  rw [hto.isMcast, haddr] at hkind
  cases hkind

theorem keeps_vlans (h : ∀ v, lookupVlan params.ale ale' v = lookupVlan params.ale ale v) :
    Keeps Serves goneVids (vlans params ale) (vlans params ale') :=
  keeps_of_eq fun vid _ => h (vid.setWidth 32)

theorem portMask_lt (p : Port) : (portMask p).toNat < 8 := by
  revert p
  decide

theorem width_portMask (params : CpswParams) (p : Port) : Width params.ale (portMask p) :=
  width_of_lt params.alePorts (portMask_lt p)

theorem width_zero (params : CpswParams) : Width params.ale 0 := by
  unfold Width
  exact BitVec.zero_and

theorem isMulticast_broadcast : isMulticastEtherAddr broadcast = true := rfl

theorem flagsVid_vlan (vid : U16) : flagsVid aleVlan vid = vid := if_pos (by decide)

theorem Change.addVlan (h : Keyed ale) (hvid : vid.toNat < vlanNVid)
    {members untag regMcast unregMcast : U32} (hmembers : Width params.ale members)
    (huntag : Width params.ale untag) (hreg : Width params.ale regMcast)
    (hunreg : Width params.ale unregMcast) : Change params {vid} goneMcs ale
      (cpswAleAddVlan params.ale ale vid members untag regMcast unregMcast).1 := by
  have hadd := params.directMasks.addedVlan h.vlan hvid hmembers huntag hreg hunreg
  obtain ⟨gone, hevicts, hmap⟩ := h.addrMap.addVlan vid members untag regMcast unregMcast hvid
  refine ⟨h.addVlan hvid _ _ _ _, keeps_of_eq fun v hv => ?_, fun q k e _ he hto => ?_⟩
  · unfold vlans
    rcases hadd.ret with hret | ⟨-, htable⟩
    · rw [(hadd.stored hret).lookup, if_neg fun heq => hv (setWidth_inj heq)]
    · unfold lookupVlan
      rw [htable]
  · unfold groups at he ⊢
    exact ⟨e, by rw [hmap, if_neg (not_evicted hevicts he hto), he], hto⟩

theorem Change.delVlan (h : Keyed ale) (vid : U16) :
    Change params {vid} goneMcs ale (cpswAleDelVlan params.ale ale vid 0).1 := by
  have hdel := params.directMasks.delVlan h.vlan vid 0
  refine ⟨h.delVlan vid 0, keeps_of_eq fun v hv => ?_, keeps_of_eq fun k _ => ?_⟩
  · unfold vlans
    cases hl : lookupVlan params.ale ale (vid.setWidth 32) with
    | none => rw [hdel.absent hl]
    | some m =>
      obtain ⟨-, hsets, -⟩ := hdel.present m hl
      rw [hsets.lookup, if_neg fun heq => hv (setWidth_inj heq)]
  · exact h.addrMap.delVlan vid 0 _

theorem Change.addUcast (h : Keyed ale) (hvid : vid.toNat < vlanNVid) (p : Port) (flags : U32) :
    Change params goneVids goneMcs ale
      (cpswAleAddUcast params.ale ale (params.macAddr p) hostPortNum flags vid).1 := by
  have hport : hostPortNum.toNat < params.ale.alePorts := by
    rw [params.alePorts]
    decide
  refine ⟨h.addUcast _ _ _ hvid, keeps_vlans (h.lookupVlan_addUcast _ _ _ hvid),
    keeps_of_added (h.added_ucast (params.macAddr_ucast p) hvid hport) fun e he hto => ?_⟩
  exact absurd hto (not_toHost h (params.macAddr_ucast p) he)

theorem Change.delUcast (h : Keyed ale) (p : Port) (flags : U32) (vid : U16) :
    Change params goneVids goneMcs ale
      (cpswAleDelUcast ale (params.macAddr p) hostPortNum flags vid).1 := by
  refine ⟨h.delUcast _ _ _ _, keeps_vlans (h.lookupVlan_delUcast _ _ _ _),
    keeps_of_deleted (h.deleted_ucast _ _ _ _) fun k e hk he hto => ?_⟩
  unfold groups at he
  rw [hk] at he
  exact absurd hto (not_toHost h (params.macAddr_ucast p) he)

theorem toHost_host_or (ports : U32) (super : Bool) (mcastState : U32) :
    ToHost (.mcast (alePortHost ||| ports) super mcastState) := by
  show (alePortHost ||| ports) &&& alePortHost = alePortHost
  apply BitVec.eq_of_getLsbD_eq
  intro i hi
  rw [BitVec.getLsbD_and, BitVec.getLsbD_or]
  cases alePortHost.getLsbD i <;> simp

/-- Adding the host to a group takes nothing from anybody. -/
theorem Change.addMcast (h : Keyed ale) (hvid : vid.toNat < vlanNVid)
    (haddr : isMulticastEtherAddr addr = true) (flags mcastState : U32) :
    Change params goneVids goneMcs ale
      (cpswAleAddMcast params.ale ale addr alePortHost flags vid mcastState).1 :=
  ⟨h.addMcast _ _ _ _ hvid, keeps_vlans (h.lookupVlan_addMcast _ _ _ _ hvid),
    keeps_of_added (h.added_mcast haddr hvid (width_host params.ale) mcastState)
      fun _ _ _ => toHost_host_or _ _ _⟩

theorem Change.delMcast (h : Keyed ale) (haddr : isMulticastEtherAddr addr = true) {flags : U32}
    (hflags : flagsVid flags vid = vid) (hgone : (addr, vid) ∈ goneMcs) :
    Change params goneVids goneMcs ale (cpswAleDelMcast params.ale ale addr 0 flags vid).1 := by
  refine ⟨h.delMcast _ _ _ _, keeps_vlans (h.lookupVlan_delMcast _ _ _ _),
    keeps_of_deleted (h.deleted_mcast haddr 0 flags vid) fun k e hk _ _ => ?_⟩
  unfold keyOf at hk
  rw [hflags] at hk
  obtain ⟨hka, hkv⟩ := Prod.mk.inj hk
  have hkey : k = (addr, vid) := Prod.ext hka (setWidth_inj hkv)
  rwa [hkey]

theorem Change.flushMulticast (h : Keyed ale) (hgone : ∀ k, k.2 = vid → k ∈ goneMcs) :
    Change params goneVids goneMcs ale
      (cpswAleFlushMulticast params.ale ale alePortHost (vid.setWidth 32)).1 := by
  refine ⟨h.flushMulticast _ _, keeps_vlans (h.lookupVlan_flushMulticast _ _),
    fun q k e hstay he hto => ⟨e, ?_, hto⟩⟩
  have hother : vid.setWidth 32 ≠ (-1 : U32) ∧ (k.2.setWidth 32 : U32) ≠ vid.setWidth 32 := by
    refine ⟨fun hcon => ?_, fun hcon => hstay (hgone k (setWidth_inj hcon))⟩
    have hnat := congrArg BitVec.toNat hcon
    have hlt := vid.isLt
    rw [BitVec.toNat_setWidth, show (-1 : U32).toNat = 4294967295 from rfl] at hnat
    omega
  unfold groups at he ⊢
  rw [h.flush_map, he]
  cases e with
  | ucast ucastType port secure blocked => exact hto.elim
  | mcast ports super mcastState => exact if_pos (.inl hother)

def freeSlots (ale : CpswAle) : ℕ := ale.table.countP isFree

/-- With a free slot an add succeeds, and takes one at most. -/
theorem store_of_free (h : 0 < freeSlots ale) (idx : Option ℕ) (e : AleEntry) :
    (cpswAleStore ale idx e).2 = 0 ∧ freeSlots ale ≤ freeSlots (cpswAleStore ale idx e).1 + 1 := by
  have hslot : ∃ i, (idx.or (cpswAleMatchFree ale)).or (cpswAleFindAgeable ale) = some i := by
    obtain ⟨old, hmem, hfree⟩ := List.countP_pos_iff.mp h
    have hsome : cpswAleMatchFree ale ≠ none := fun hnone => by
      have hall := List.findIdx?_eq_none_iff.mp hnone old hmem
      rw [hfree] at hall
      cases hall
    obtain ⟨i, hi⟩ := Option.ne_none_iff_exists'.mp hsome
    rw [hi]
    cases idx with
    | none => exact ⟨i, rfl⟩
    | some j => exact ⟨j, rfl⟩
  obtain ⟨i, hi⟩ := hslot
  unfold cpswAleStore
  rw [hi]
  exact ⟨rfl, Slots.countP_set_le isFree ale.table i e⟩

theorem addVlan_of_free (h : 0 < freeSlots ale) (hvid : vid.toNat < vlanNVid)
    (members untag regMcast unregMcast : U32) :
    (cpswAleAddVlan params.ale ale vid members untag regMcast unregMcast).2 = 0 ∧
      freeSlots ale ≤
        freeSlots (cpswAleAddVlan params.ale ale vid members untag regMcast unregMcast).1 + 1 := by
  unfold cpswAleAddVlan
  dsimp only
  generalize readOrZero ale (cpswAleMatchVlan ale vid) = e
  have hedit : VlanEdit params.ale ale vid
      (addVlanEntry params.ale ale e vid members untag regMcast unregMcast) :=
    addVlanEntry_edit hvid members untag regMcast unregMcast
  have hsame : freeSlots (addVlanEntry params.ale ale e vid members untag regMcast unregMcast).1 =
      freeSlots ale := by
    unfold freeSlots
    rw [hedit.table]
  rw [← hsame] at h ⊢
  exact store_of_free h _ _

theorem addUcast_of_free (h : 0 < freeSlots ale) (port flags : U32) (vid : U16) :
    (cpswAleAddUcast params.ale ale addr port flags vid).2 = 0 ∧
      freeSlots ale ≤ freeSlots (cpswAleAddUcast params.ale ale addr port flags vid).1 + 1 :=
  store_of_free h _ _

theorem addMcast_of_free (h : 0 < freeSlots ale) (portMask flags : U32) (vid : U16)
    (mcastState : U32) :
    (cpswAleAddMcast params.ale ale addr portMask flags vid mcastState).2 = 0 :=
  (store_of_free h _ _).1

/-- The outcome of adding a VLAN id for a port. -/
structure AddsVid (params : CpswParams) (ale : CpswAle) (p : Port) (vid : U16)
    (r : CpswAle × ℤ) : Prop where
  ret : r.2 = 0
  change : Change params {vid} ∅ ale r.1
  added : ∃ m, vlans params r.1 vid = some m ∧ Serves p vid m

theorem addVlanAleEntry_spec (h : Keyed ale) (hvid : vid.toNat < vlanNVid)
    (hroom : 3 ≤ freeSlots ale) (p : Port) (allmulti : Bool) :
    AddsVid params ale p vid (cpswAddVlanAleEntry params ale p allmulti vid) := by
  have hunreg : Width params.ale (if allmulti then alePortHost else 0) := by
    cases allmulti
    · exact width_zero params
    · exact width_host params.ale
  unfold cpswAddVlanAleEntry
  dsimp only
  generalize (if allmulti then alePortHost else 0) = unregMcast at hunreg
  have hchange : Change params {vid} ∅ ale _ := Change.addVlan h hvid (width_portMask params p)
    (width_zero params) (width_portMask params p) hunreg
  have hadd := params.directMasks.addedVlan h.vlan hvid (width_portMask params p)
    (width_zero params) (width_portMask params p) hunreg
  obtain ⟨hret, hleft⟩ : (cpswAleAddVlan params.ale ale vid (portMask p) 0 (portMask p)
      unregMcast).2 = 0 ∧ _ := addVlan_of_free (by omega) hvid _ _ _ _
  have hentry := (hadd.stored hret).lookup (vid.setWidth 32)
  rw [if_pos rfl] at hentry
  generalize cpswAleAddVlan params.ale ale vid (portMask p) 0 (portMask p) unregMcast = r
    at hchange hret hleft hentry
  rw [if_neg (not_not.mpr hret)]
  have hchange₁ : Change params {vid} ∅ r.1 _ := Change.addUcast hchange.keyed hvid p aleVlan
  have hentry₁ : lookupVlan params.ale _ _ = lookupVlan params.ale _ _ :=
    hchange.keyed.lookupVlan_addUcast (params.macAddr p) hostPortNum aleVlan hvid (vid.setWidth 32)
  obtain ⟨hret₁, hleft₁⟩ : (cpswAleAddUcast params.ale r.1 (params.macAddr p) hostPortNum aleVlan
      vid).2 = 0 ∧ _ := addUcast_of_free (by omega) _ _ _
  generalize cpswAleAddUcast params.ale r.1 (params.macAddr p) hostPortNum aleVlan vid = r₁
    at hchange₁ hentry₁ hret₁ hleft₁
  rw [if_neg (not_not.mpr hret₁)]
  have hchange₂ : Change params {vid} ∅ r₁.1 _ :=
    Change.addMcast hchange₁.keyed hvid isMulticast_broadcast aleVlan 0
  have hentry₂ : lookupVlan params.ale _ _ = lookupVlan params.ale _ _ :=
    hchange₁.keyed.lookupVlan_addMcast broadcast alePortHost aleVlan 0 hvid (vid.setWidth 32)
  have hret₂ : (cpswAleAddMcast params.ale r₁.1 broadcast alePortHost aleVlan vid 0).2 = 0 :=
    addMcast_of_free (by omega) _ _ _ _
  rw [if_neg (not_not.mpr hret₂)]
  have hserves : Serves p vid ⟨portMask p, 0, portMask p, unregMcast⟩ := BitVec.and_self
  refine ⟨rfl, (hchange.trans hchange₁).trans hchange₂, _, ?_, hserves⟩
  unfold vlans
  rw [hentry₂, hentry₁, hentry]

/-- The flags of cpsw_set_mc give the VLAN id back, zero included. -/
theorem flagsVid_setMc (v : U16) : flagsVid (if v ≠ 0 then aleVlan else 0) v = v := by
  by_cases hzero : v = 0
  · rw [hzero]
    exact ite_self 0
  · rw [if_pos hzero]
    exact flagsVid_vlan v

structure Inv (params : CpswParams) (s : State) : Prop where
  sound : Sound params s.ale
  books : NotUndone params s

theorem Sound.change (h : Sound params ale) (hchange : Change params goneVids goneMcs ale ale')
    (hdefault : params.defaultVlan ∉ goneVids) : Sound params ale' := by
  refine ⟨hchange.keyed, fun p => ?_⟩
  obtain ⟨m, hm, hserves⟩ := h.defaultVlan p
  exact hchange.ofVlans p _ m hdefault hm hserves

theorem Inv.setMc_add (h : Inv params s) (p : Port) (haddr : isMulticastEtherAddr addr = true)
    {vid : Option U16} (hvid : (vid.getD (params.portVlan p)).toNat < vlanNVid) :
    Inv params (cpswSetMc params s p addr vid true).1 := by
  unfold cpswSetMc
  generalize vid.getD (params.portVlan p) = v at hvid
  dsimp only
  rw [if_pos rfl]
  have hflags := flagsVid_setMc v
  generalize (if v ≠ 0 then aleVlan else 0) = flags at hflags
  have hchange : Change params ∅ ∅ s.ale _ :=
    Change.addMcast h.sound.keyed hvid haddr flags 0
  obtain ⟨e, hto, hadded⟩ : ∃ e, ToHost e ∧ Added params.ale s.ale (keyOf addr flags v) e _ :=
    ⟨_, toHost_host_or _ _ _, h.sound.keyed.added_mcast haddr hvid (width_host params.ale) 0⟩
  generalize cpswAleAddMcast params.ale s.ale addr alePortHost flags v 0 = r at hchange hadded
  refine ⟨h.sound.change hchange fun hmem => hmem, ⟨h.books.vids.keep hchange.ofVlans, ?_⟩⟩
  dsimp only
  split
  · rename_i hret
    refine h.books.mcs.take hchange.ofGroups (fun _ _ hmem => hmem.elim) ⟨e, ?_, hto⟩
    obtain ⟨gone, -, hmap⟩ := hadded.stored hret
    unfold groups
    rw [hmap]
    exact if_pos (by rw [keyOf, hflags])
  · exact h.books.mcs.keep hchange.ofGroups

theorem Inv.setMc_del (h : Inv params s) (p : Port) (haddr : isMulticastEtherAddr addr = true)
    {vid : Option U16}
    (hothers : ∀ q, q ≠ p → (addr, vid.getD (params.portVlan p)) ∉ s.mcs q) :
    Inv params (cpswSetMc params s p addr vid false).1 := by
  unfold cpswSetMc
  generalize vid.getD (params.portVlan p) = v at hothers
  dsimp only
  rw [if_neg (by simp)]
  have hflags := flagsVid_setMc v
  generalize (if v ≠ 0 then aleVlan else 0) = flags at hflags
  have hchange : Change params ∅ {k | k = (addr, v)} s.ale _ :=
    Change.delMcast h.sound.keyed haddr hflags rfl
  refine ⟨h.sound.change hchange fun hmem => hmem, ⟨h.books.vids.keep hchange.ofVlans, ?_⟩⟩
  refine h.books.mcs.letGo hchange.ofGroups fun q hq k hk heq => ?_
  rw [heq] at hk
  exact hothers q hq hk

theorem setMc_del_others (params : CpswParams) (s : State) (addr : MacAddr) (vid : Option U16)
    {q : Port} (hq : q ≠ p) : (cpswSetMc params s p addr vid false).1.mcs q = s.mcs q := by
  unfold cpswSetMc letGo
  dsimp only
  rw [if_neg (by simp)]
  exact Function.update_of_ne hq _ _

section Loops

variable {action : AddrSyncCtx → VlanDev → AddrSyncCtx × ℤ} {ctx : AddrSyncCtx}
  {devs : List VlanDev}

theorem vlanForEach_invariant {I : AddrSyncCtx → Prop}
    (haction : ∀ ctx, ∀ vdev ∈ devs, I ctx → I (action ctx vdev).1) (h : I ctx) :
    I (vlanForEach action ctx devs).1 := by
  induction devs generalizing ctx with
  | nil => exact h
  | cons vdev devs ih =>
    have hfirst := haction ctx vdev List.mem_cons_self h
    unfold vlanForEach
    dsimp only
    split
    · exact hfirst
    · exact ih (fun ctx v hv => haction ctx v (List.mem_cons_of_mem _ hv)) hfirst

/-- A loop whose calls do not fail counts the devices with `c`. -/
theorem vlanForEach_consumed {c : VlanDev → Bool} (hret : ∀ ctx vdev, (action ctx vdev).2 = 0)
    (hcount : ∀ ctx vdev, (action ctx vdev).1.consumed = ctx.consumed + if c vdev then 1 else 0) :
    (vlanForEach action ctx devs).1.consumed = ctx.consumed + devs.countP c := by
  induction devs generalizing ctx with
  | nil => simp [vlanForEach]
  | cons vdev devs ih =>
    unfold vlanForEach
    dsimp only
    rw [if_neg (not_not.mpr (hret ctx vdev)), ih, hcount, List.countP_cons]
    split <;> push_cast <;> omega

end Loops

/-- A VLAN device that is up and has the address, or has it not. -/
def relevant (addr : MacAddr) (vdev : VlanDev) : Bool := vdev.up && foundOn vdev addr != 0

def irrelevant (addr : MacAddr) (vdev : VlanDev) : Bool := vdev.up && foundOn vdev addr == 0

/-- The VLAN ids for which a delete of an address takes it out of the table. -/
def delVids (params : CpswParams) (p : Port) (addr : MacAddr) (num : ℤ) (devs : List VlanDev) :
    List U16 :=
  (devs.filter (irrelevant addr)).map VlanDev.vid ++
    if (devs.countP (relevant addr) : ℤ) = num then [params.portVlan p] else []

def purgeVids (params : CpswParams) (p : Port) (addr : MacAddr) (num : ℤ) (devs : List VlanDev) :
    List U16 :=
  (devs.filter (relevant addr)).map VlanDev.vid ++
    if (devs.countP (relevant addr) : ℤ) < num then [params.portVlan p] else []

theorem updateVlanMc_add (params : CpswParams) (p : Port) (addr : MacAddr) (ctx : AddrSyncCtx)
    (vdev : VlanDev) : (cpswUpdateVlanMc params p addr false ctx vdev).1.s =
      if relevant addr vdev then (cpswSetMc params ctx.s p addr vdev.vid true).1 else ctx.s := by
  unfold cpswUpdateVlanMc relevant
  cases vdev.up <;> by_cases hfound : foundOn vdev addr = 0 <;> simp [hfound]

theorem updateVlanMc_flush (params : CpswParams) (p : Port) (addr : MacAddr) (ctx : AddrSyncCtx)
    (vdev : VlanDev) : cpswUpdateVlanMc params p addr true ctx vdev =
      (⟨if irrelevant addr vdev then (cpswSetMc params ctx.s p addr vdev.vid false).1 else ctx.s,
        ctx.consumed + if relevant addr vdev then 1 else 0⟩, 0) := by
  unfold cpswUpdateVlanMc relevant irrelevant
  cases vdev.up <;> by_cases hfound : foundOn vdev addr = 0 <;> simp [hfound]

theorem purgeVlanMc_eq (params : CpswParams) (p : Port) (addr : MacAddr) (ctx : AddrSyncCtx)
    (vdev : VlanDev) : cpswPurgeVlanMc params p addr ctx vdev =
      (⟨if relevant addr vdev then (cpswSetMc params ctx.s p addr vdev.vid false).1 else ctx.s,
        ctx.consumed + if relevant addr vdev then 1 else 0⟩, 0) := by
  unfold cpswPurgeVlanMc relevant
  cases vdev.up <;> by_cases hfound : foundOn vdev addr = 0 <;> simp [hfound]

theorem Inv.addMcAddr (h : Inv params s) (p : Port) (haddr : isMulticastEtherAddr addr = true)
    (num : ℤ) {devs : List VlanDev} (hdevs : ∀ vdev ∈ devs, vdev.vid.toNat < vlanNVid) :
    Inv params (cpswAddMcAddr params s p addr num devs).1 := by
  have hloop : Inv params
      (vlanForEach (cpswUpdateVlanMc params p addr false) ⟨s, 0⟩ devs).1.s := by
    refine vlanForEach_invariant (I := fun ctx => Inv params ctx.s) (fun ctx vdev hmem hctx => ?_) h
    have hvid : ((some vdev.vid).getD (params.portVlan p)).toNat < vlanNVid := hdevs vdev hmem
    rw [updateVlanMc_add]
    split
    · exact hctx.setMc_add p haddr hvid
    · exact hctx
  unfold cpswAddMcAddr
  dsimp only
  split
  · exact hloop.setMc_add p haddr (params.portVlan_lt p)
  · exact hloop

/-- A state in the middle of a removal by one port, where the other ports hold
nothing that is removed. -/
structure Removing (params : CpswParams) (s : State) (p : Port) (s' : State) : Prop where
  inv : Inv params s'
  others : ∀ q, q ≠ p → s'.mcs q = s.mcs q

theorem Removing.setMc_del (h : Removing params s p s') (haddr : isMulticastEtherAddr addr = true)
    {vid : Option U16}
    (hothers : ∀ q, q ≠ p → (addr, vid.getD (params.portVlan p)) ∉ s.mcs q) :
    Removing params s p (cpswSetMc params s' p addr vid false).1 := by
  refine ⟨h.inv.setMc_del p haddr fun q hq => ?_, fun q hq => ?_⟩
  · rw [h.others q hq]
    exact hothers q hq
  · exact (setMc_del_others params s' addr vid hq).trans (h.others q hq)

/-- A loop that removes the address from the devices with `c`. -/
theorem Removing.loop (h : Inv params s) (haddr : isMulticastEtherAddr addr = true)
    {action : AddrSyncCtx → VlanDev → AddrSyncCtx × ℤ} {c : VlanDev → Bool}
    (haction : ∀ ctx vdev, (action ctx vdev).1.s =
      if c vdev then (cpswSetMc params ctx.s p addr vdev.vid false).1 else ctx.s)
    {devs : List VlanDev}
    (hothers : ∀ q, q ≠ p → ∀ v ∈ (devs.filter c).map VlanDev.vid, (addr, v) ∉ s.mcs q) :
    Removing params s p (vlanForEach action ⟨s, 0⟩ devs).1.s := by
  refine vlanForEach_invariant (I := fun ctx => Removing params s p ctx.s)
    (fun ctx vdev hmem hctx => ?_) ⟨h, fun _ _ => rfl⟩
  rw [haction]
  split
  · rename_i hc
    refine hctx.setMc_del haddr fun q hq => hothers q hq vdev.vid ?_
    exact List.mem_map_of_mem (List.mem_filter.mpr ⟨hmem, hc⟩)
  · exact hctx

theorem Inv.delMcAddr (h : Inv params s) {p : Port} (haddr : isMulticastEtherAddr addr = true)
    {num : ℤ} {devs : List VlanDev}
    (hothers : ∀ q, q ≠ p → ∀ v ∈ delVids params p addr num devs, (addr, v) ∉ s.mcs q) :
    Inv params (cpswDelMcAddr params s p addr num devs).1 := by
  unfold delVids at hothers
  simp only [List.mem_append] at hothers
  have hloop : Removing params s p
      (vlanForEach (cpswUpdateVlanMc params p addr true) ⟨s, 0⟩ devs).1.s :=
    Removing.loop h haddr (fun ctx vdev => by rw [updateVlanMc_flush])
      fun q hq v hv => hothers q hq v (.inl hv)
  have hconsumed : (vlanForEach (cpswUpdateVlanMc params p addr true) ⟨s, 0⟩ devs).1.consumed =
      0 + devs.countP (relevant addr) :=
    vlanForEach_consumed (fun ctx vdev => by rw [updateVlanMc_flush])
      fun ctx vdev => by rw [updateVlanMc_flush]
  unfold cpswDelMcAddr
  dsimp only
  rw [hconsumed, Int.zero_add]
  split
  · rename_i hall
    exact (hloop.setMc_del haddr fun q hq => hothers q hq _ (.inr (by simp [hall]))).inv
  · exact hloop.inv

theorem Inv.purgeAllMc (h : Inv params s) {p : Port} (haddr : isMulticastEtherAddr addr = true)
    {num : ℤ} {devs : List VlanDev}
    (hothers : ∀ q, q ≠ p → ∀ v ∈ purgeVids params p addr num devs, (addr, v) ∉ s.mcs q) :
    Inv params (cpswPurgeAllMc params s p addr num devs).1 := by
  unfold purgeVids at hothers
  simp only [List.mem_append] at hothers
  have hloop : Removing params s p
      (vlanForEach (cpswPurgeVlanMc params p addr) ⟨s, 0⟩ devs).1.s :=
    Removing.loop h haddr (fun ctx vdev => by rw [purgeVlanMc_eq])
      fun q hq v hv => hothers q hq v (.inl hv)
  have hconsumed : (vlanForEach (cpswPurgeVlanMc params p addr) ⟨s, 0⟩ devs).1.consumed =
      0 + devs.countP (relevant addr) :=
    vlanForEach_consumed (fun ctx vdev => by rw [purgeVlanMc_eq])
      fun ctx vdev => by rw [purgeVlanMc_eq]
  unfold cpswPurgeAllMc
  dsimp only
  rw [hconsumed, Int.zero_add]
  split
  · rename_i hsome
    exact (hloop.setMc_del haddr fun q hq => hothers q hq _ (.inr (by simp [hsome]))).inv
  · exact hloop.inv

/-- VLAN ids are below 4096 and the multicast callbacks are for multicast addresses. -/
def WellFormed : Op → Prop
  | .addVid _ _ vid _ | .killVid _ vid _ => vid.toNat < vlanNVid
  | .addMcAddr _ addr _ devs | .delMcAddr _ addr _ devs | .purgeAllMc _ addr _ devs =>
    isMulticastEtherAddr addr = true ∧ ∀ vdev ∈ devs, vdev.vid.toNat < vlanNVid

instance : DecidablePred WellFormed
  | .addVid _ _ vid _ | .killVid _ vid _ => inferInstanceAs (Decidable (vid.toNat < vlanNVid))
  | .addMcAddr _ addr _ devs | .delMcAddr _ addr _ devs | .purgeAllMc _ addr _ devs =>
    inferInstanceAs (Decidable (isMulticastEtherAddr addr = true ∧
      ∀ vdev ∈ devs, vdev.vid.toNat < vlanNVid))

/-- A VLAN id comes with a VLAN entry, an address and the broadcast address. -/
def Room (s : State) : Op → Prop
  | .addVid _ _ _ _ => 3 ≤ freeSlots s.ale
  | .killVid _ _ _ | .addMcAddr _ _ _ _ | .delMcAddr _ _ _ _ | .purgeAllMc _ _ _ _ => True

instance (s : State) : DecidablePred (Room s)
  | .addVid _ _ _ _ => inferInstanceAs (Decidable (3 ≤ freeSlots s.ale))
  | .killVid _ _ _ | .addMcAddr _ _ _ _ | .delMcAddr _ _ _ _ | .purgeAllMc _ _ _ _ =>
      .isTrue trivial

/-- The callback goes on to change the table. -/
def reachesAle (params : CpswParams) (vid : U16) (pm : ℤ) : Prop :=
  vid ≠ params.defaultVlan ∧ 0 ≤ pm ∧ ¬ isPortVlan params vid

instance (params : CpswParams) (vid : U16) (pm : ℤ) : Decidable (reachesAle params vid pm) :=
  inferInstanceAs (Decidable (_ ∧ _ ∧ _))

/-- No other port has what the callback overwrites or takes out of the table: the
VLAN id that is added, the VLAN id that is killed and the addresses on it, or
the address on the VLAN ids for which it is removed. -/
def Covered (params : CpswParams) (s : State) : Op → Prop
  | .addVid p _ vid pm => reachesAle params vid pm → ∀ q, q ≠ p → vid ∉ s.vids q
  | .killVid p vid pm => reachesAle params vid pm →
    ∀ q, q ≠ p → vid ∉ s.vids q ∧ ∀ k ∈ s.mcs q, k.2 ≠ vid
  | .addMcAddr _ _ _ _ => True
  | .delMcAddr p addr num devs =>
    ∀ q, q ≠ p → ∀ v ∈ delVids params p addr num devs, (addr, v) ∉ s.mcs q
  | .purgeAllMc p addr num devs =>
    ∀ q, q ≠ p → ∀ v ∈ purgeVids params p addr num devs, (addr, v) ∉ s.mcs q

instance (params : CpswParams) (s : State) : DecidablePred (Covered params s)
  | .addVid p _ vid pm => inferInstanceAs (Decidable (reachesAle params vid pm →
      ∀ q, q ≠ p → vid ∉ s.vids q))
  | .killVid p vid pm => inferInstanceAs (Decidable (reachesAle params vid pm →
      ∀ q, q ≠ p → vid ∉ s.vids q ∧ ∀ k ∈ s.mcs q, k.2 ≠ vid))
  | .addMcAddr _ _ _ _ => .isTrue trivial
  | .delMcAddr p addr num devs => inferInstanceAs (Decidable
      (∀ q, q ≠ p → ∀ v ∈ delVids params p addr num devs, (addr, v) ∉ s.mcs q))
  | .purgeAllMc p addr num devs => inferInstanceAs (Decidable
      (∀ q, q ≠ p → ∀ v ∈ purgeVids params p addr num devs, (addr, v) ∉ s.mcs q))

/-- The table has the default VLAN for both ports, and the ports have asked for nothing. -/
structure Initial (params : CpswParams) (s : State) : Prop where
  sound : Sound params s.ale
  vids : ∀ p, s.vids p = ∅
  mcs : ∀ p, s.mcs p = ∅

theorem Initial.inv (h : Initial params s) : Inv params s := by
  refine ⟨h.sound, fun p k hk => ?_, fun p k hk => ?_⟩
  · rw [h.vids p] at hk
    exact absurd hk (Finset.notMem_empty k)
  · rw [h.mcs p] at hk
    exact absurd hk (Finset.notMem_empty k)

theorem neg_einval_ne_zero : -einval ≠ 0 := by decide

/-- A callback that stops before the table fails, or is for the default VLAN. -/
structure Stops (params : CpswParams) (ale : CpswAle) (vid : U16) (r : CpswAle × ℤ) : Prop where
  same : r.1 = ale
  ret : r.2 = 0 → vid = params.defaultVlan

theorem addVid_cases (h : Keyed ale) (hvid : vid.toNat < vlanNVid) (hroom : 3 ≤ freeSlots ale)
    (p : Port) (allmulti : Bool) (pm : ℤ) :
    Stops params ale vid (cpswNdoVlanRxAddVid params ale p allmulti vid pm) ∨
      reachesAle params vid pm ∧
        AddsVid params ale p vid (cpswNdoVlanRxAddVid params ale p allmulti vid pm) := by
  unfold cpswNdoVlanRxAddVid
  split
  · exact .inl ⟨rfl, fun _ => ‹_›⟩
  rename_i hdefault
  split
  · exact .inl ⟨rfl, fun hzero => by dsimp only at hzero; omega⟩
  rename_i hpm
  split
  · exact .inl ⟨rfl, fun hzero => absurd hzero neg_einval_ne_zero⟩
  rename_i hport
  exact .inr ⟨⟨hdefault, by omega, hport⟩, addVlanAleEntry_spec h hvid hroom p allmulti⟩

theorem killVid_cases (h : Keyed ale) (p : Port) (vid : U16) (pm : ℤ) :
    Stops params ale vid (cpswNdoVlanRxKillVid params ale p vid pm) ∨
      reachesAle params vid pm ∧ (cpswNdoVlanRxKillVid params ale p vid pm).2 = 0 ∧
        Change params {vid} {k | k.2 = vid} ale (cpswNdoVlanRxKillVid params ale p vid pm).1 := by
  unfold cpswNdoVlanRxKillVid
  split
  · exact .inl ⟨rfl, fun _ => ‹_›⟩
  rename_i hdefault
  split
  · exact .inl ⟨rfl, fun hzero => by dsimp only at hzero; omega⟩
  rename_i hpm
  split
  · exact .inl ⟨rfl, fun hzero => absurd hzero neg_einval_ne_zero⟩
  rename_i hport
  have hvlan : Change params {vid} {k | k.2 = vid} ale _ := Change.delVlan h vid
  have hucast : Change params {vid} {k | k.2 = vid} _ _ :=
    Change.delUcast hvlan.keyed p aleVlan vid
  have hmcast : Change params {vid} {k | k.2 = vid} _ _ :=
    Change.delMcast hucast.keyed isMulticast_broadcast (flagsVid_vlan vid) rfl
  have hflush : Change params {vid} {k | k.2 = vid} _ _ :=
    Change.flushMulticast hmcast.keyed fun _ hk => hk
  exact .inr ⟨⟨hdefault, by omega, hport⟩, rfl,
    ((hvlan.trans hucast).trans hmcast).trans hflush⟩

theorem Inv.addVid (h : Inv params s) {p : Port} {allmulti : Bool} {pm : ℤ}
    (hvid : vid.toNat < vlanNVid) (hroom : 3 ≤ freeSlots s.ale)
    (hothers : reachesAle params vid pm → ∀ q, q ≠ p → vid ∉ s.vids q)
    (hst : Filters.step params s (.addVid p allmulti vid pm) = some s') : Inv params s' := by
  have hcases : Stops params s.ale vid _ ∨ _ :=
    addVid_cases h.sound.keyed hvid hroom p allmulti pm
  unfold Filters.step at hst
  dsimp only at hst
  generalize cpswNdoVlanRxAddVid params s.ale p allmulti vid pm = r at hst hcases
  obtain rfl := Option.some.inj hst
  rcases hcases with hstops | ⟨hreach, hadds⟩
  · have hkeeps : Keeps Serves ∅ (vlans params s.ale) (vlans params s.ale) :=
      keeps_of_eq fun _ _ => rfl
    rw [hstops.same]
    refine ⟨h.sound, ⟨?_, h.books.mcs⟩⟩
    dsimp only
    split
    · rw [hstops.ret ‹_›]
      exact h.books.vids.take hkeeps (fun _ _ hmem => hmem.elim) (h.sound.defaultVlan p)
    · exact h.books.vids
  · have hchange := hadds.change
    refine ⟨h.sound.change hchange fun hmem => hreach.1 hmem.symm,
      ⟨?_, h.books.mcs.keep hchange.ofGroups⟩⟩
    dsimp only
    rw [if_pos hadds.ret]
    refine h.books.vids.take hchange.ofVlans (fun q k hk hmem => ?_) hadds.added
    obtain rfl : k = vid := hk
    refine ⟨?_, rfl⟩
    by_contra hq
    exact hothers hreach q hq hmem

theorem Inv.killVid (h : Inv params s) {p : Port} {pm : ℤ}
    (hothers : reachesAle params vid pm →
      ∀ q, q ≠ p → vid ∉ s.vids q ∧ ∀ k ∈ s.mcs q, k.2 ≠ vid)
    (hst : Filters.step params s (.killVid p vid pm) = some s') : Inv params s' := by
  have hcases : Stops params s.ale vid _ ∨ _ := killVid_cases h.sound.keyed p vid pm
  unfold Filters.step at hst
  dsimp only at hst
  generalize cpswNdoVlanRxKillVid params s.ale p vid pm = r at hst hcases
  obtain rfl := Option.some.inj hst
  rcases hcases with hstops | ⟨hreach, hret, hchange⟩
  · have hdefault : ¬ (r.2 = 0 ∧ vid ≠ params.defaultVlan) :=
      fun hcon => hcon.2 (hstops.ret hcon.1)
    rw [if_neg hdefault, hstops.same]
    refine ⟨h.sound, ⟨fun q k hk => h.books.vids q k ?_, h.books.mcs⟩⟩
    dsimp only at hk
    split at hk
    · exact (mem_letGo.mp hk).1
    · exact hk
  · rw [if_pos hret, if_pos ⟨hret, hreach.1⟩]
    refine ⟨h.sound.change hchange fun hmem => hreach.1 hmem.symm,
      ⟨h.books.vids.letGo hchange.ofVlans fun q hq k hk heq => ?_,
        h.books.mcs.letGo hchange.ofGroups fun q hq k hk => (hothers hreach q hq).2 k hk⟩⟩
    rw [heq] at hk
    exact (hothers hreach q hq).1 hk

theorem Inv.step {op : Op} (h : Inv params s) (hop : WellFormed op) (hroom : Room s op)
    (hcovered : Covered params s op) (hst : Filters.step params s op = some s') :
    Inv params s' := by
  cases op with
  | addVid p allmulti vid pm => exact h.addVid hop hroom hcovered hst
  | killVid p vid pm => exact h.killVid hcovered hst
  | addMcAddr p addr num devs =>
    obtain rfl := Option.some.inj hst
    exact h.addMcAddr p hop.1 num hop.2
  | delMcAddr p addr num devs =>
    obtain rfl := Option.some.inj hst
    exact h.delMcAddr hop.1 hcovered
  | purgeAllMc p addr num devs =>
    obtain rfl := Option.some.inj hst
    exact h.purgeAllMc hop.1 hcovered

def aleAllPorts : U32 := 7
def aleMcastFwd : U32 := 0

/-- What cpsw_init_host_port_dual_mac adds. -/
def cpswInitHostPortDualMac (params : CpswParams) (ale : CpswAle) : CpswAle :=
  (cpswAleAddVlan params.ale ale params.defaultVlan aleAllPorts aleAllPorts 0 0).1

def cpswPortAddDualEmacDefAleEntries (params : CpswParams) (ale : CpswAle) (p : Port) : CpswAle :=
  let vlan := params.portVlan p
  let ale := (cpswAleAddVlan params.ale ale vlan (portMask p) (portMask p) (portMask p) 0).1
  let ale := (cpswAleAddMcast params.ale ale broadcast alePortHost aleVlan vlan aleMcastFwd).1
  (cpswAleAddUcast params.ale ale (params.macAddr p) hostPortNum (aleVlan ||| aleSecure) vlan).1

/-- Both ports are opened, on a table of `n` free entries. -/
def boot (params : CpswParams) (n : ℕ) : State where
  ale := cpswPortAddDualEmacDefAleEntries params (cpswPortAddDualEmacDefAleEntries params
    (cpswInitHostPortDualMac params (emptyAle n)) 0) 1
  vids := fun _ => ∅
  mcs := fun _ => ∅

theorem Sound.portAddDefAleEntries (h : Sound params ale) (p : Port)
    (hvlan : params.portVlan p ≠ params.defaultVlan) :
    Sound params (cpswPortAddDualEmacDefAleEntries params ale p) := by
  have hlt := params.portVlan_lt p
  have hadd : Change params {params.portVlan p} ∅ ale _ := Change.addVlan h.keyed hlt
    (width_portMask params p) (width_portMask params p) (width_portMask params p)
    (width_zero params)
  have hmcast : Change params {params.portVlan p} ∅ _ _ :=
    Change.addMcast hadd.keyed hlt isMulticast_broadcast aleVlan aleMcastFwd
  have hucast : Change params {params.portVlan p} ∅ _ _ :=
    Change.addUcast hmcast.keyed hlt p (aleVlan ||| aleSecure)
  exact h.change ((hadd.trans hmcast).trans hucast) fun hmem => hvlan hmem.symm

theorem sound_initHostPort {n : ℕ} (hn : 0 < n) :
    Sound params (cpswInitHostPortDualMac params (emptyAle n)) := by
  have hkeyed := keyed_of_free (free_emptyAle n)
  have hfree : 0 < freeSlots (emptyAle n) := by
    have hzero : freeSlots (emptyAle n) = n := by
      unfold freeSlots emptyAle
      rw [List.countP_replicate, if_pos isFree_zero]
    omega
  have hall : Width params.ale aleAllPorts := width_of_lt params.alePorts (by decide)
  have hadd := params.directMasks.addedVlan hkeyed.vlan params.defaultVlan_lt hall hall
    (width_zero params) (width_zero params)
  have hret : (cpswAleAddVlan params.ale (emptyAle n) _ _ _ _ _).2 = 0 :=
    (addVlan_of_free hfree params.defaultVlan_lt aleAllPorts aleAllPorts 0 0).1
  refine ⟨hkeyed.addVlan params.defaultVlan_lt _ _ _ _, fun p =>
    ⟨⟨aleAllPorts, aleAllPorts, 0, 0⟩, ((hadd.stored hret).lookup _).trans (if_pos rfl), ?_⟩⟩
  show aleAllPorts &&& portMask p = portMask p
  revert p
  decide

/-- The ports start from a table that has the default VLAN. -/
theorem initial_boot {n : ℕ} (hn : 0 < n) (hvlan : ∀ p, params.portVlan p ≠ params.defaultVlan) :
    Initial params (boot params n) := by
  have hfirst := (sound_initHostPort hn).portAddDefAleEntries 0 (hvlan 0)
  have hboth := hfirst.portAddDefAleEntries 1 (hvlan 1)
  have hsound : Sound params (boot params n).ale := by
    dsimp only [boot]
    exact hboth
  exact ⟨hsound, fun _ => rfl, fun _ => rfl⟩

def twoPorts : CpswParams where
  ale := threePorts
  defaultVlan := 0
  portVlan := fun p => BitVec.ofNat 16 (emacPort p)
  macAddr := fun p _ => BitVec.ofNat 8 (2 * emacPort p)
  devId := rfl
  alePorts := rfl
  portVlan_lt := by decide
  defaultVlan_lt := by decide
  macAddr_ucast := by decide

theorem initial_twoPorts : Initial twoPorts (boot twoPorts 16) :=
  initial_boot (by decide) (by decide)

/-- The ports do not undo each other's filters in the runs where no callback
overwrites or removes what the other port has asked for. -/
theorem notUndone_of_run {ops : List Op} (hinit : Initial params s)
    (hrun : Run (step params)
      (fun s op => WellFormed op ∧ Room s op ∧ Covered params s op) s ops s') :
    NotUndone params s' :=
  (hrun.invariant (fun _ _ _ h hok hst => h.step hok.1 hok.2.1 hok.2.2 hst) hinit.inv).books

/-- Port 0 adds a VLAN, and port 1 joins a group on its own. -/
theorem notUndone_after_join : ∃ s', Run (step twoPorts)
      (fun s op => WellFormed op ∧ Room s op ∧ Covered twoPorts s op) (boot twoPorts 16)
      [.addVid 0 false 5 0, .addMcAddr 1 (fun _ => 1) 1 []] s' ∧ NotUndone twoPorts s' := by
  have hexec : (exec (step twoPorts)
      (fun s op => WellFormed op ∧ Room s op ∧ Covered twoPorts s op) (boot twoPorts 16)
      [.addVid 0 false 5 0, .addMcAddr 1 (fun _ => 1) 1 []]).any (fun _ => true) = true := by
    decide +kernel
  obtain ⟨s', hrun, -⟩ := exists_run_of_any hexec
  exact ⟨s', hrun, notUndone_of_run initial_twoPorts hrun⟩

/-- Port 1 adds the VLAN that port 0 has: its member list replaces that of port 0. -/
theorem notUndone_fails_for_shared_vid : Initial twoPorts (boot twoPorts 16) ∧
    ∃ s', Run (step twoPorts) (fun s op => WellFormed op ∧ Room s op) (boot twoPorts 16)
      [.addVid 0 false 5 0, .addVid 1 false 5 0] s' ∧
    5 ∈ s'.vids 0 ∧ ¬ NotUndone twoPorts s' := by
  have hexec : (exec (step twoPorts) (fun s op => WellFormed op ∧ Room s op) (boot twoPorts 16)
      [.addVid 0 false 5 0, .addVid 1 false 5 0]).any (fun s' => decide (5 ∈ s'.vids 0 ∧
        (vlans twoPorts s'.ale 5).map VlanMasks.members = some (portMask 1))) = true := by
    decide +kernel
  obtain ⟨s', hrun, hend⟩ := exists_run_of_any hexec
  obtain ⟨hmem, hmembers⟩ := of_decide_eq_true hend
  refine ⟨initial_twoPorts, s', hrun, hmem, fun hsafe => ?_⟩
  obtain ⟨m, hm, hserves⟩ := hsafe.vids 0 5 hmem
  rw [hm] at hmembers
  unfold Serves at hserves
  rw [Option.some.inj hmembers] at hserves
  exact absurd hserves (by decide)

end CpswDriver.Filters
