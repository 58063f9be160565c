import CpswDriver.Ale.Fixed
import CpswDriver.Cpsw.Filters
import CpswDriver.Lib.SharedBit

/-!
The receive modes of the two ports in dual EMAC mode. Flooding unknown unicast
to the host is one bit for the switch, and the driver looks at both devices
before it clears it. Flooding unregistered multicast is one bit for each VLAN,
which a port sets or clears as it wants it for itself.
-/

namespace CpswDriver.RxMode

open Ale Runs Filters SharedBit

/-- The bits of ndev->flags that the callback reads. -/
structure RxFlags where
  promisc : Bool
  allmulti : Bool
  deriving DecidableEq

/-- A port in either mode wants all multicast. -/
def RxFlags.wants (flags : RxFlags) : Bool := flags.promisc || flags.allmulti

structure State extends Filters.State where
  flags : Port → RxFlags

/-- A call that __hw_addr_ref_sync_dev makes for an address of the device. -/
inductive McCall
  | sync (addr : MacAddr) (num : ℤ) (vlans : List VlanDev)
  | unsync (addr : MacAddr) (num : ℤ) (vlans : List VlanDev)

def McCall.run (params : CpswParams) (p : Port) (s : Filters.State) : McCall → Filters.State
  | .sync addr num vlans => (cpswAddMcAddr params s p addr num vlans).1
  | .unsync addr num vlans => (cpswDelMcAddr params s p addr num vlans).1

def hwAddrRefSyncDev (params : CpswParams) (s : State) (p : Port) (mc : List McCall) : State :=
  { s with toState := mc.foldl (McCall.run params p) s.toState }

def cpswSetPromiscious (params : CpswParams) (s : State) (enable : Bool) : State :=
  let enableUni := (List.finRange 2).any fun i => (s.flags i).promisc
  let enable := if !enable && enableUni then enableUni else enable
  if enable then
    { s with ale := (cpswAleControlSet params.ale s.ale 0 .p0UniFlood 1).1 }
  else
    { s with ale := (cpswAleControlSet params.ale s.ale 0 .p0UniFlood 0).1 }

def cpswNdoSetRxMode (params : CpswParams) (s : State) (p : Port) (mc : List McCall) : State :=
  if (s.flags p).promisc then
    let s := cpswSetPromiscious params s true
    { s with ale := cpswAleSetAllmulti params.ale s.ale true (emacPort p) }
  else
    let s := cpswSetPromiscious params s false
    let s :=
      { s with ale := cpswAleSetAllmulti params.ale s.ale (s.flags p).allmulti (emacPort p) }
    hwAddrRefSyncDev params s p mc

/-- The flags of a port change, and the callback is called. -/
structure Call where
  port : Port
  flags : RxFlags
  mc : List McCall

def step (params : CpswParams) (s : State) (c : Call) : Option State :=
  some (cpswNdoSetRxMode params { s with flags := Function.update s.flags c.port c.flags }
    c.port c.mc)

/-- The port is a member of the VLAN. -/
def Member (params : CpswParams) (e : AleEntry) (p : Port) : Prop :=
  testBits (cpswAleVlanGetFld params.ale e .memberList) (1#32 <<< emacPort p) = true

/-- The host gets the unregistered multicast of the VLAN. -/
def HostUnreg (params : CpswParams) (e : AleEntry) : Prop :=
  testBits (cpswAleVlanGetFld params.ale e .unregMcastMsk) alePortHost = true

instance (params : CpswParams) (e : AleEntry) : DecidablePred (Member params e) :=
  fun _ => inferInstanceAs (Decidable (_ = _))

instance (params : CpswParams) : DecidablePred (HostUnreg params) :=
  fun _ => inferInstanceAs (Decidable (_ = _))

/-- Unknown unicast is flooded to the host. -/
def HostUcast (params : CpswParams) (ale : CpswAle) : Prop :=
  cpswAleControlGet params.ale ale 0 .p0UniFlood = 1

instance (params : CpswParams) (ale : CpswAle) : Decidable (HostUcast params ale) :=
  inferInstanceAs (Decidable (_ = _))

/-- Each VLAN, and the switch, has what some port wants of it. -/
structure Union (params : CpswParams) (s : State) : Prop where
  mcast : ∀ e ∈ s.ale.table, cpswAleGetEntryType e = aleTypeVlan →
    (HostUnreg params e ↔ ∃ p, Member params e p ∧ (s.flags p).wants = true)
  ucast : HostUcast params s.ale ↔ ∃ p, (s.flags p).promisc = true

/-- A port that leaves both modes shares no VLAN with a port that is in one. -/
def SparesOthers (params : CpswParams) (s : State) (c : Call) : Prop :=
  ∀ e ∈ s.ale.table, cpswAleGetEntryType e = aleTypeVlan →
    Spares (Member params e) (fun q => (s.flags q).wants = true) c.port (c.flags.wants = true)

instance (params : CpswParams) (s : State) : Decidable (Union params s) :=
  decidable_of_iff ((s.ale.table.all fun e => decide (cpswAleGetEntryType e = aleTypeVlan →
      (HostUnreg params e ↔ ∃ p, Member params e p ∧ (s.flags p).wants = true))) = true ∧
    (HostUcast params s.ale ↔ ∃ p, (s.flags p).promisc = true))
    (by
      simp only [List.all_eq_true, decide_eq_true_eq]
      exact ⟨fun h => ⟨h.1, h.2⟩, fun h => ⟨h.mcast, h.ucast⟩⟩)

instance (params : CpswParams) (s : State) (c : Call) : Decidable (SparesOthers params s c) :=
  decidable_of_iff ((s.ale.table.all fun e => decide (cpswAleGetEntryType e = aleTypeVlan →
      ¬ c.flags.wants = true → Member params e c.port →
        ∀ q, q ≠ c.port → Member params e q → ¬ (s.flags q).wants = true)) = true)
    (by simp only [List.all_eq_true, decide_eq_true_eq, SparesOthers, Spares])

variable {params : CpswParams} {ale ale' ale'' : CpswAle} {s s' : State} {e e' : AleEntry}
  {p : Port}

/-- The VLAN entries and the registers are as they were. -/
structure SameVlans (ale ale' : CpswAle) : Prop where
  mem : ∀ e, cpswAleGetEntryType e = aleTypeVlan → (e ∈ ale'.table ↔ e ∈ ale.table)
  regs : ale'.regs = ale.regs

theorem SameVlans.refl (ale : CpswAle) : SameVlans ale ale := ⟨fun _ _ => Iff.rfl, rfl⟩

theorem SameVlans.trans (h : SameVlans ale ale') (h' : SameVlans ale' ale'') :
    SameVlans ale ale'' :=
  ⟨fun e htype => (h'.mem e htype).trans (h.mem e htype), h'.regs.trans h.regs⟩

theorem not_vlan (h : vlanKey e = none) : cpswAleGetEntryType e ≠ aleTypeVlan := by
  intro htype
  unfold vlanKey at h
  rw [if_pos htype] at h
  cases h

theorem sameVlans_write {i : ℕ} {old : AleEntry} (hi : ale.table[i]? = some old)
    (hold : vlanKey old = none) (hnew : vlanKey e' = none) :
    SameVlans ale (cpswAleWrite ale i e') := by
  refine ⟨fun e htype => ?_, rfl⟩
  unfold cpswAleWrite
  dsimp only
  rw [List.mem_iff_getElem?, List.mem_iff_getElem?]
  apply exists_congr
  intro j
  by_cases hj : j = i
  · obtain ⟨hlt, -⟩ := List.getElem?_eq_some_iff.mp hi
    rw [hj, List.getElem?_set_self hlt, hi]
    apply iff_of_false
    · intro heq
      exact not_vlan hnew (Option.some.inj heq ▸ htype)
    · intro heq
      exact not_vlan hold (Option.some.inj heq ▸ htype)
  · rw [List.getElem?_set_ne (Ne.symm hj)]

theorem sameVlans_store {addr : MacAddr} {vid : U16} (hnew : vlanKey e' = none) :
    SameVlans ale (cpswAleStore ale (cpswAleMatchAddr ale addr vid) e').1 := by
  rw [cpswAleMatchAddr_eq]
  rcases cpswAleStore_cases addrKey (addr, vid.setWidth 32) ale e' with ⟨-, heq⟩ | ⟨i, hplace, heq⟩
  · rw [heq]
    exact SameVlans.refl ale
  · rw [heq]
    obtain ⟨old, hi, hold⟩ := Slots.place_eq_some hplace
    refine sameVlans_write hi ?_ hnew
    rcases hold with hsame | ⟨-, hfree | ⟨-, hage⟩⟩
    · exact vlanKey_of_addrKey hsame
    · exact vlanKey_of_free hfree
    · exact vlanKey_of_ageable hage

theorem isAddrType_setVlanEntryType (e : AleEntry) (flags : U32) (vid : U16) :
    isAddrType (cpswAleGetEntryType (cpswAleSetVlanEntryType e flags vid)) = true := by
  unfold cpswAleSetVlanEntryType
  split
  · have htype : cpswAleGetEntryType (cpswAleSetVlanId (cpswAleSetEntryType e aleTypeVlanAddr)
        (vid.setWidth 32)) = cpswAleGetEntryType (cpswAleSetEntryType e aleTypeVlanAddr) :=
      getField_setField_of_apart (by decide) (by decide) (by decide) (by decide) (by decide) _ _
    rw [htype, getEntryType_setEntryType]
    decide
  · rw [getEntryType_setEntryType]
    decide

theorem vlanKey_mcastEntry (e : AleEntry) (addr : MacAddr) (portMask flags : U32) (vid : U16)
    (mcastState : U32) :
    vlanKey (mcastEntry params.ale e addr portMask flags vid mcastState) = none := by
  have hfield : ∀ (e : AleEntry) (start bits : ℕ) (v : U32), 62 ≤ start → start < 96 → bits < 32 →
      cpswAleGetEntryType (cpswAleSetField e start bits v) = cpswAleGetEntryType e :=
    fun e start bits v hlo hs hb => getField_setField_of_apart hs (by decide) hb (by decide)
      (by unfold Apart; omega) _ _
  have hbits : params.ale.portMaskBits < 32 := by
    have hports := params.ale.alePorts_le
    unfold AleParams.portMaskBits
    omega
  have htype : cpswAleGetEntryType (mcastEntry params.ale e addr portMask flags vid mcastState) =
      cpswAleGetEntryType (cpswAleSetVlanEntryType e flags vid) := by
    unfold mcastEntry cpswAleSetPortMask cpswAleSetMcastState cpswAleSetSuper
    dsimp only
    rw [hfield _ _ _ _ (by decide) (by decide) hbits,
      hfield _ _ _ _ (by decide) (by decide) (by decide),
      hfield _ _ _ _ (by decide) (by decide) (by decide)]
    exact getField_setAddr (by decide) (by decide) (by decide) _ _
  apply vlanKey_of_addr
  rw [htype]
  exact isAddrType_setVlanEntryType e flags vid

theorem sameVlans_delMcast (ale : CpswAle) (addr : MacAddr) (portMask flags : U32) (vid : U16) :
    SameVlans ale (cpswAleDelMcast params.ale ale addr portMask flags vid).1 := by
  unfold cpswAleDelMcast
  split
  · exact SameVlans.refl ale
  · rename_i hm
    obtain ⟨hi, hkey⟩ := matchAddr_some hm
    have hold := vlanKey_of_addrKey hkey
    exact sameVlans_write hi hold (vlanKey_delMcastEntry hold portMask)

theorem sameVlans_setMc (params : CpswParams) (s : Filters.State) (p : Port) (addr : MacAddr)
    (vid : Option U16) (add : Bool) :
    SameVlans s.ale (cpswSetMc params s p addr vid add).1.ale := by
  unfold cpswSetMc
  cases add with
  | true => exact sameVlans_store (vlanKey_mcastEntry _ _ _ _ _ _)
  | false => exact sameVlans_delMcast s.ale addr _ _ _

theorem sameVlans_forEach {action : AddrSyncCtx → VlanDev → AddrSyncCtx × ℤ}
    (haction : ∀ ctx vdev, SameVlans ctx.s.ale (action ctx vdev).1.s.ale) (s : Filters.State)
    (devs : List VlanDev) : SameVlans s.ale (vlanForEach action ⟨s, 0⟩ devs).1.s.ale :=
  vlanForEach_invariant (I := fun ctx => SameVlans s.ale ctx.s.ale)
    (fun ctx vdev _ hctx => hctx.trans (haction ctx vdev)) (SameVlans.refl s.ale)

theorem sameVlans_updateVlanMc (params : CpswParams) (p : Port) (addr : MacAddr)
    (flush : Bool) (ctx : AddrSyncCtx)
    (vdev : VlanDev) :
    SameVlans ctx.s.ale (cpswUpdateVlanMc params p addr flush ctx vdev).1.s.ale := by
  cases flush with
  | true =>
    rw [updateVlanMc_flush]
    dsimp only
    split
    · exact sameVlans_setMc params ctx.s p addr vdev.vid false
    · exact SameVlans.refl _
  | false =>
    rw [updateVlanMc_add]
    split
    · exact sameVlans_setMc params ctx.s p addr vdev.vid true
    · exact SameVlans.refl _

theorem sameVlans_mcCall (s : Filters.State) (p : Port) (c : McCall) :
    SameVlans s.ale (c.run params p s).ale := by
  cases c with
  | sync addr num devs =>
    have hloop : SameVlans s.ale _ :=
      sameVlans_forEach (sameVlans_updateVlanMc params p addr false) s devs
    unfold McCall.run cpswAddMcAddr
    dsimp only
    split
    · exact hloop.trans (sameVlans_setMc params _ p addr none true)
    · exact hloop
  | unsync addr num devs =>
    have hloop : SameVlans s.ale _ :=
      sameVlans_forEach (sameVlans_updateVlanMc params p addr true) s devs
    unfold McCall.run cpswDelMcAddr
    dsimp only
    split
    · exact hloop.trans (sameVlans_setMc params _ p addr none false)
    · exact hloop

theorem sameVlans_sync (params : CpswParams) (s : State) (p : Port) (mc : List McCall) :
    SameVlans s.ale (hwAddrRefSyncDev params s p mc).ale := by
  unfold hwAddrRefSyncDev
  dsimp only
  generalize s.toState = fs
  induction mc generalizing fs with
  | nil => exact SameVlans.refl _
  | cons c mc ih => exact (sameVlans_mcCall fs p c).trans (ih _)

/-- What cpsw_ale_set_allmulti makes of an entry. -/
def allmultiEntry (params : CpswParams) (allmulti : Bool) (p : Port) (e : AleEntry) : AleEntry :=
  if allmultiApplies params.ale (emacPort p) e then cpswAleVlanSetUnregMcast params.ale e allmulti
  else e

theorem setAllmulti_eq (params : CpswParams) (ale : CpswAle) (allmulti : Bool) (p : Port) :
    cpswAleSetAllmulti params.ale ale allmulti (emacPort p) =
      { ale with table := ale.table.map (allmultiEntry params allmulti p) } := by
  unfold cpswAleSetAllmulti
  rw [params.directMasks.nuSwitchAle]
  rfl

theorem allmultiApplies_iff (htype : cpswAleGetEntryType e = aleTypeVlan) :
    allmultiApplies params.ale (emacPort p) e = true ↔ Member params e p := by
  have hport : ((emacPort p : ℤ) == -1) = false := by
    apply beq_eq_false_iff_ne.mpr
    omega
  unfold allmultiApplies Member
  rw [htype, hport, Int.toNat_natCast]
  simp

theorem testBits_withHost (allmulti : Bool) (mask : U32) :
    testBits (withHost allmulti mask) alePortHost = allmulti := by
  have hone : alePortHost = 1#32 <<< 0 := rfl
  rw [testBits_host]
  cases allmulti with
  | true =>
    unfold withHost
    rw [if_pos rfl, hone, BitField.getLsbD_or_bit (by decide)]
    simp
  | false =>
    unfold withHost
    rw [if_neg (by decide), hone, BitField.getLsbD_and_not_bit (by decide)]
    simp

theorem type_allmultiEntry (params : CpswParams) (allmulti : Bool) (p : Port) (e : AleEntry) :
    cpswAleGetEntryType (allmultiEntry params allmulti p e) = cpswAleGetEntryType e := by
  unfold allmultiEntry
  split
  · exact getEntryType_vlanSetFld _ _
  · rfl

theorem allmultiEntry_spec (htype : cpswAleGetEntryType e = aleTypeVlan) (allmulti : Bool) :
    Member params (allmultiEntry params allmulti p e) = Member params e ∧
    (Member params e p → (HostUnreg params (allmultiEntry params allmulti p e) ↔ allmulti = true)) ∧
    (¬ Member params e p →
      (HostUnreg params (allmultiEntry params allmulti p e) ↔ HostUnreg params e)) := by
  have hd := params.directMasks
  have hmembers : cpswAleVlanGetFld params.ale (cpswAleVlanSetUnregMcast params.ale e allmulti)
      .memberList = cpswAleVlanGetFld params.ale e .memberList :=
    hd.getFld_setFld_ne rfl rfl (by decide) _
  have hunreg : HostUnreg params (cpswAleVlanSetUnregMcast params.ale e allmulti) ↔
      allmulti = true := by
    have hwidth : Width params.ale _ := withHost_width (hd.width_getFld (f := .unregMcastMsk) rfl e)
      allmulti
    unfold HostUnreg cpswAleVlanSetUnregMcast
    rw [hd.getFld_setFld rfl hwidth, testBits_withHost]
  unfold allmultiEntry
  by_cases hp : Member params e p
  · rw [if_pos ((allmultiApplies_iff htype).mpr hp)]
    refine ⟨?_, fun _ => hunreg, fun hcon => absurd hp hcon⟩
    unfold Member
    rw [hmembers]
  · rw [if_neg fun happlies => hp ((allmultiApplies_iff htype).mp happlies)]
    exact ⟨rfl, fun hcon => absurd hcon hp, fun _ => Iff.rfl⟩

def newFlags (s : State) (c : Call) : Port → RxFlags := Function.update s.flags c.port c.flags

def anyPromisc (flags : Port → RxFlags) : Bool := (List.finRange 2).any fun i => (flags i).promisc

theorem anyPromisc_iff (flags : Port → RxFlags) :
    anyPromisc flags = true ↔ ∃ p, (flags p).promisc = true := by
  unfold anyPromisc
  rw [List.any_eq_true]
  simp

/-- Flooding goes off only if no port needs it. -/
theorem setPromiscious_eq (params : CpswParams) (s : State) (enable : Bool) :
    cpswSetPromiscious params s enable = { s with ale := (cpswAleControlSet params.ale s.ale 0
      .p0UniFlood (if enable || anyPromisc s.flags then 1 else 0)).1 } := by
  have hany : ((List.finRange 2).any fun i => (s.flags i).promisc) = anyPromisc s.flags := rfl
  unfold cpswSetPromiscious
  rw [hany]
  cases enable <;> cases anyPromisc s.flags <;> rfl

/-- What a call comes to: the flooding bit looks at all ports, and the VLANs at the one. -/
structure Outcome (params : CpswParams) (s : State) (c : Call) (s' : State) : Prop where
  flags : s'.flags = newFlags s c
  ucast : cpswAleControlGet params.ale s'.ale 0 .p0UniFlood =
    if anyPromisc (newFlags s c) then 1 else 0
  from_old : ∀ e' ∈ s'.ale.table, cpswAleGetEntryType e' = aleTypeVlan → ∃ e ∈ s.ale.table,
    cpswAleGetEntryType e = aleTypeVlan ∧ e' = allmultiEntry params c.flags.wants c.port e
  onto : Settled s.ale → ∀ e ∈ s.ale.table, cpswAleGetEntryType e = aleTypeVlan →
    allmultiEntry params c.flags.wants c.port e ∈ s'.ale.table

/-- Flooding is set for the new flags, and then a map goes over the VLANs. -/
theorem outcome_of_parts {s₁ : State} {c : Call} (hflags : s₁.flags = newFlags s c)
    (hale : ale = (cpswAleControlSet params.ale s.ale 0 .p0UniFlood
      (if anyPromisc (newFlags s c) then 1 else 0)).1)
    (hsame : SameVlans (cpswAleSetAllmulti params.ale ale c.flags.wants (emacPort c.port)) s₁.ale) :
    Outcome params s c s₁ := by
  rw [setAllmulti_eq] at hsame
  refine ⟨hflags, ?_, fun e' he' htype => ?_, fun hsettled e he htype => ?_⟩
  · have hregs : s₁.ale.regs = ale.regs := hsame.regs
    have hread : cpswAleControlGet params.ale s₁.ale 0 .p0UniFlood =
        cpswAleControlGet params.ale ale 0 .p0UniFlood := by
      unfold cpswAleControlGet
      rw [hregs]
    rw [hread, hale]
    cases anyPromisc (newFlags s c)
    · exact controlGet_controlSet rfl (by decide) (.inl rfl) 0 0
    · exact controlGet_controlSet rfl (by decide) (.inr rfl) 0 0
  · obtain ⟨e, he, heq⟩ := List.mem_map.mp ((hsame.mem e' htype).mp he')
    rw [← heq, type_allmultiEntry] at htype
    rw [hale] at he
    exact ⟨e, mem_of_controlSet htype he, htype, heq.symm⟩
  · have hengine : AleControl.p0UniFlood.engineShift = some 8 := rfl
    have htable : ale.table = s.ale.table := by
      rw [hale]
      exact table_engine hengine (by decide) hsettled 0
    apply (hsame.mem _ ((type_allmultiEntry _ _ _ e).trans htype)).mpr
    apply List.mem_map_of_mem
    rw [htable]
    exact he

theorem outcome_step {c : Call} (hst : step params s c = some s') : Outcome params s c s' := by
  obtain rfl := Option.some.inj hst
  have hport : newFlags s c c.port = c.flags := Function.update_self _ _ _
  unfold cpswNdoSetRxMode
  rw [setPromiscious_eq, setPromiscious_eq]
  change Outcome params s c (if (newFlags s c c.port).promisc then _ else _)
  cases hpromisc : (newFlags s c c.port).promisc with
  | true =>
    have hany : anyPromisc (newFlags s c) = true := (anyPromisc_iff _).mpr ⟨c.port, hpromisc⟩
    have hwants : c.flags.wants = true := by
      rw [hport] at hpromisc
      unfold RxFlags.wants
      rw [hpromisc, Bool.true_or]
    rw [if_pos rfl]
    refine outcome_of_parts rfl rfl ?_
    rw [hany, hwants]
    exact SameVlans.refl _
  | false =>
    have hwants : c.flags.wants = (newFlags s c c.port).allmulti := by
      rw [hport] at hpromisc ⊢
      unfold RxFlags.wants
      rw [hpromisc, Bool.false_or]
    rw [if_neg Bool.false_ne_true]
    refine outcome_of_parts rfl rfl ?_
    rw [hwants]
    exact sameVlans_sync params { s with
      ale := cpswAleSetAllmulti params.ale (cpswAleControlSet params.ale s.ale 0 .p0UniFlood
        (if anyPromisc (newFlags s c) then 1 else 0)).1 (newFlags s c c.port).allmulti
        (emacPort c.port)
      flags := newFlags s c } c.port c.mc

theorem wants_newFlags (s : State) (c : Call) :
    (fun q => (newFlags s c q).wants = true) =
      Function.update (fun q => (s.flags q).wants = true) c.port (c.flags.wants = true) := by
  funext q
  unfold newFlags
  by_cases hq : q = c.port
  · rw [hq, Function.update_self, Function.update_self]
  · rw [Function.update_of_ne hq, Function.update_of_ne hq]

/-- A VLAN has its union after a call exactly if the port spared the other one. -/
theorem union_entry_iff (h : Union params s) (c : Call) (he : e ∈ s.ale.table)
    (htype : cpswAleGetEntryType e = aleTypeVlan) :
    (HostUnreg params (allmultiEntry params c.flags.wants c.port e) ↔
      ∃ p, Member params (allmultiEntry params c.flags.wants c.port e) p ∧
        (newFlags s c p).wants = true) ↔
    Spares (Member params e) (fun q => (s.flags q).wants = true) c.port (c.flags.wants = true) := by
  obtain ⟨hmembers, hown, hother⟩ :
      Member params (allmultiEntry params c.flags.wants c.port e) = Member params e ∧ _ ∧ _ :=
    allmultiEntry_spec htype c.flags.wants
  have hjoint : Joint (Member params e) (fun q => (s.flags q).wants = true) (HostUnreg params e) :=
    h.mcast e he htype
  have hiff := joint_iff_spares hjoint hown hother
  rw [← wants_newFlags] at hiff
  rw [hmembers]
  exact hiff

theorem ucast_of_outcome {c : Call} (h : Outcome params s c s') :
    HostUcast params s'.ale ↔ ∃ p, (s'.flags p).promisc = true := by
  unfold HostUcast
  rw [h.ucast, h.flags, ← anyPromisc_iff]
  cases anyPromisc (newFlags s c) <;> decide

theorem Union.step {c : Call} (h : Union params s) (hspares : SparesOthers params s c)
    (hst : step params s c = some s') : Union params s' := by
  have hout := outcome_step hst
  refine ⟨fun e' he' htype' => ?_, ucast_of_outcome hout⟩
  obtain ⟨e, he, htype, rfl⟩ := hout.from_old e' he' htype'
  rw [hout.flags]
  exact (union_entry_iff h c he htype).mpr (hspares e he htype)

/-- The condition is exact: a call that does not spare the other port breaks the union. -/
theorem sparesOthers_of_union {c : Call} (hsettled : Settled s.ale) (h : Union params s)
    (hst : RxMode.step params s c = some s') (h' : Union params s') : SparesOthers params s c := by
  have hout := outcome_step hst
  intro e he htype
  apply (union_entry_iff h c he htype).mp
  rw [← hout.flags]
  exact h'.mcast _ (hout.onto hsettled e he htype) ((type_allmultiEntry _ _ _ e).trans htype)

/-- From a state in which it holds, the union holds after every call of a run whose
calls spare the other port. -/
theorem union_of_run {calls : List Call} (h : Union params s)
    (hrun : Run (RxMode.step params) (SparesOthers params) s calls s') : Union params s' :=
  hrun.invariant (fun _ _ _ h hspares hst => h.step hspares hst) h

def quiet : State := { boot twoPorts 16 with flags := fun _ => ⟨false, false⟩ }

theorem union_quiet : Union twoPorts quiet := by decide +kernel

/-- Port 0 joins a group and goes to all-multicast, port 1 is promiscuous, and port 0 with it. -/
theorem union_after_calls : ∃ s', Run (RxMode.step twoPorts) (SparesOthers twoPorts) quiet
    [⟨0, ⟨false, true⟩, [.sync (fun _ => 1) 1 []]⟩, ⟨1, ⟨true, false⟩, []⟩, ⟨0, ⟨true, true⟩, []⟩]
    s' ∧ Union twoPorts s' := by
  have hexec : (exec (RxMode.step twoPorts) (SparesOthers twoPorts) quiet
      [⟨0, ⟨false, true⟩, [.sync (fun _ => 1) 1 []]⟩, ⟨1, ⟨true, false⟩, []⟩,
        ⟨0, ⟨true, true⟩, []⟩]).any (fun _ => true) = true := by
    decide +kernel
  obtain ⟨s', hrun, -⟩ := exists_run_of_any hexec
  exact ⟨s', hrun, union_of_run union_quiet hrun⟩

/-- Port 0 goes to all-multicast. Port 1, which wants nothing, clears the host's bit of
the default VLAN, of which both are members. -/
theorem union_fails_for_default_vlan : Union twoPorts quiet ∧
    ∃ s', Run (RxMode.step twoPorts) anyStep quiet
      [⟨0, ⟨false, true⟩, []⟩, ⟨1, ⟨false, false⟩, []⟩] s' ∧ ¬ Union twoPorts s' := by
  have hexec : (exec (RxMode.step twoPorts) anyStep quiet
      [⟨0, ⟨false, true⟩, []⟩, ⟨1, ⟨false, false⟩, []⟩]).any
        (fun s' => decide (¬ Union twoPorts s')) = true := by
    decide +kernel
  obtain ⟨s', hrun, hend⟩ := exists_run_of_any hexec
  exact ⟨union_quiet, s', hrun, of_decide_eq_true hend⟩

end CpswDriver.RxMode
