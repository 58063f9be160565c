import CpswDriver.Ale.Keyed

/-!
What an address entry says: a unicast entry names a port, a multicast entry a
set of ports. Which of the two it is follows from its address.
-/

namespace CpswDriver.Ale

open Slots

variable {params : AleParams} {e : AleEntry} {vid : U16}

inductive AddrEntry
  | ucast (ucastType port : U32) (secure blocked : Bool)
  | mcast (ports : U32) (super : Bool) (mcastState : U32)
  deriving DecidableEq

namespace AddrEntry

def ports : AddrEntry → U32
  | ucast _ _ _ _ => 0
  | mcast ports _ _ => ports

def isMcast : AddrEntry → Bool
  | ucast _ _ _ _ => false
  | mcast _ _ _ => true

/-- The entry without the given ports, or nothing if none is left. -/
def dropPorts (portMask : U32) : AddrEntry → Option AddrEntry
  | ucast ucastType port secure blocked => some (ucast ucastType port secure blocked)
  | mcast ports super mcastState =>
    if ports &&& ~~~portMask = 0 then none
    else some (mcast (ports &&& ~~~portMask) super mcastState)

end AddrEntry

def addrEntry (params : AleParams) (e : AleEntry) : AddrEntry :=
  if cpswAleGetMcast e = 0 then
    .ucast (cpswAleGetUcastType e) (cpswAleGetPortNum e params.portNumBits)
      (cpswAleGetSecure e != 0) (cpswAleGetBlocked e != 0)
  else
    .mcast (cpswAleGetPortMask e params.portMaskBits) (cpswAleGetSuper e != 0)
      (cpswAleGetMcastState e)

theorem getMcast_eq_zero_iff :
    cpswAleGetMcast e = 0 ↔ isMulticastEtherAddr (cpswAleGetAddr e) = false := by
  have hbit : isMulticastEtherAddr (cpswAleGetAddr e) = (cpswAleGetMcast e).getLsbD 0 := by
    have hget : ∀ bits, bits < 32 → (cpswAleGetField e 40 bits).getLsbD 0 =
        ((e (wordOf 40)).getLsbD 8 && decide (0 < bits)) := fun bits hb => by
      unfold cpswAleGetField
      rw [BitField.getLsbD_get hb]
    unfold isMulticastEtherAddr cpswAleGetAddr cpswAleGetMcast
    rw [hget 1 (by decide), BitVec.getLsbD_setWidth, show 40 - 8 * (0 : Fin 6).val = 40 from rfl,
      hget 8 (by decide)]
    simp
  rw [hbit]
  constructor
  · intro h
    rw [h]
    rfl
  · intro h
    apply BitVec.eq_of_getLsbD_eq
    intro i hi
    by_cases hzero : i = 0
    · rw [hzero, h]
      rfl
    · unfold cpswAleGetMcast cpswAleGetField
      rw [BitField.getLsbD_get (by decide)]
      simp [hzero]

theorem isMcast_addrEntry :
    (addrEntry params e).isMcast = isMulticastEtherAddr (cpswAleGetAddr e) := by
  unfold addrEntry
  split
  · rename_i h
    rw [getMcast_eq_zero_iff.mp h]
    rfl
  · rename_i h
    rw [Bool.eq_true_of_not_eq_false (mt getMcast_eq_zero_iff.mpr h)]
    rfl

theorem addrEntry_of_ucast (h : isMulticastEtherAddr (cpswAleGetAddr e) = false) :
    addrEntry params e = .ucast (cpswAleGetUcastType e) (cpswAleGetPortNum e params.portNumBits)
      (cpswAleGetSecure e != 0) (cpswAleGetBlocked e != 0) :=
  if_pos (getMcast_eq_zero_iff.mpr h)

theorem addrEntry_of_mcast (h : isMulticastEtherAddr (cpswAleGetAddr e) = true) :
    addrEntry params e = .mcast (cpswAleGetPortMask e params.portMaskBits)
      (cpswAleGetSuper e != 0) (cpswAleGetMcastState e) := by
  apply if_neg
  rw [getMcast_eq_zero_iff, h]
  exact Bool.noConfusion

/-- The fields below the ports do not see the ports. -/
theorem getField_setPorts {bits start bits' : ℕ} (hb : bits < 32) (hb' : bits' < 32)
    (h : start + bits' ≤ 66) (hs : start < 66) (v : U32) :
    cpswAleGetField (cpswAleSetField e 66 bits v) start bits' = cpswAleGetField e start bits' := by
  apply getField_setField_of_apart (by decide) (by omega) hb hb'
  unfold Apart
  omega

theorem getField_setVlanEntryType {start bits : ℕ} (hlo : 62 ≤ start) (hs : start < 96)
    (hb : bits < 32) (flags : U32) (vid : U16) :
    cpswAleGetField (cpswAleSetVlanEntryType e flags vid) start bits =
      cpswAleGetField e start bits := by
  have htype : ∀ (e : AleEntry) (v : U32), cpswAleGetField (cpswAleSetEntryType e v) start bits =
      cpswAleGetField e start bits := fun e v => by
    apply getField_setField_of_apart (by decide) hs (by decide) hb
    unfold Apart
    omega
  have hid : ∀ (e : AleEntry) (v : U32), cpswAleGetField (cpswAleSetVlanId e v) start bits =
      cpswAleGetField e start bits := fun e v => by
    apply getField_setField_of_apart (by decide) hs (by decide) hb
    unfold Apart
    omega
  unfold cpswAleSetVlanEntryType
  split
  · rw [hid, htype]
  · rw [htype]

theorem flagBit_ne_zero (flags m : U32) :
    (flagBit flags m &&& BitField.bitMask 32 1 != 0) = testBits flags m := by
  unfold flagBit
  cases testBits flags m <;> decide

theorem port_fits (params : AleParams) {port : U32} (h : port.toNat < params.alePorts) :
    port &&& BitField.bitMask 32 params.portNumBits = port := by
  have hbits := params.portNumBits_le
  have hle : params.alePorts ≤ 2 ^ params.portNumBits := Nat.le_pow_clog (by decide) _
  exact BitField.and_bitMask_of_lt (by omega) (by omega)

theorem addrEntry_ucastEntry {addr : MacAddr} {port flags : U32}
    (haddr : isMulticastEtherAddr addr = false) (hvid : vid.toNat < vlanNVid)
    (hport : port.toNat < params.alePorts) :
    addrEntry params (ucastEntry params addr port flags vid) =
      .ucast aleUcastPersistant port (testBits flags aleSecure) (testBits flags aleBlocked) := by
  have hkey := getVlanId_of_addrKey (addrKey_ucastEntry params addr port flags hvid)
  have hbits := params.portNumBits_le
  rw [addrEntry_of_ucast (by rw [hkey.2, haddr])]
  have htype : cpswAleGetUcastType (ucastEntry params addr port flags vid) =
      aleUcastPersistant := by
    unfold ucastEntry cpswAleGetUcastType cpswAleSetPortNum cpswAleSetBlocked cpswAleSetSecure
      cpswAleSetUcastType
    dsimp only
    rw [getField_setPorts (by omega) (by decide) (by decide) (by decide),
      getField_setField_of_apart (by decide) (by decide) (by decide) (by decide) (by decide),
      getField_setField_of_apart (by decide) (by decide) (by decide) (by decide) (by decide),
      getField_setField (by decide)]
    decide
  have hsecure : (cpswAleGetSecure (ucastEntry params addr port flags vid) != 0) =
      testBits flags aleSecure := by
    unfold ucastEntry cpswAleGetSecure cpswAleSetPortNum cpswAleSetBlocked cpswAleSetSecure
    dsimp only
    rw [getField_setPorts (by omega) (by decide) (by decide) (by decide),
      getField_setField_of_apart (by decide) (by decide) (by decide) (by decide) (by decide),
      getField_setField (by decide), flagBit_ne_zero]
  have hblocked : (cpswAleGetBlocked (ucastEntry params addr port flags vid) != 0) =
      testBits flags aleBlocked := by
    unfold ucastEntry cpswAleGetBlocked cpswAleSetPortNum cpswAleSetBlocked
    dsimp only
    rw [getField_setPorts (by omega) (by decide) (by decide) (by decide),
      getField_setField (by decide), flagBit_ne_zero]
  have hnum : cpswAleGetPortNum (ucastEntry params addr port flags vid) params.portNumBits =
      port := by
    unfold ucastEntry cpswAleGetPortNum cpswAleSetPortNum
    dsimp only
    rw [getField_setField ⟨by decide, by omega, by omega⟩, port_fits params hport]
  rw [htype, hsecure, hblocked, hnum]

theorem addrEntry_mcastEntry {addr : MacAddr} {portMask flags : U32} (mcastState : U32)
    (haddr : isMulticastEtherAddr addr = true) (hvid : vid.toNat < vlanNVid)
    (he : testBits flags aleVlan = false → cpswAleGetVlanId e = 0)
    (hmask : portMask &&& BitField.bitMask 32 params.portMaskBits = portMask) :
    addrEntry params (mcastEntry params e addr portMask flags vid mcastState) =
      .mcast (portMask ||| cpswAleGetPortMask e params.portMaskBits) (testBits flags aleSuper)
        (mcastState &&& BitField.bitMask 32 2) := by
  have hkey := getVlanId_of_addrKey
    (addrKey_mcastEntry params addr portMask flags mcastState hvid he)
  have hbits : params.portMaskBits ≤ 12 := params.alePorts_le
  rw [addrEntry_of_mcast (by rw [hkey.2, haddr])]
  have hsuper : (cpswAleGetSuper (mcastEntry params e addr portMask flags vid mcastState) != 0) =
      testBits flags aleSuper := by
    unfold mcastEntry cpswAleGetSuper cpswAleSetPortMask cpswAleSetMcastState cpswAleSetSuper
    dsimp only
    rw [getField_setPorts (by omega) (by decide) (by decide) (by decide),
      getField_setField_of_apart (by decide) (by decide) (by decide) (by decide) (by decide),
      getField_setField (by decide), flagBit_ne_zero]
  have hstate : cpswAleGetMcastState (mcastEntry params e addr portMask flags vid mcastState) =
      mcastState &&& BitField.bitMask 32 2 := by
    unfold mcastEntry cpswAleGetMcastState cpswAleSetPortMask cpswAleSetMcastState
    dsimp only
    rw [getField_setPorts (by omega) (by decide) (by decide) (by decide),
      getField_setField (by decide)]
  have hold : ∀ e' : AleEntry, cpswAleGetPortMask e' params.portMaskBits &&&
      BitField.bitMask 32 params.portMaskBits = cpswAleGetPortMask e' params.portMaskBits :=
    fun e' => BitField.get_and_bitMask _ _ _
  have hports : cpswAleGetPortMask (mcastEntry params e addr portMask flags vid mcastState)
      params.portMaskBits = portMask ||| cpswAleGetPortMask e params.portMaskBits := by
    unfold mcastEntry
    dsimp only
    have hread : cpswAleGetPortMask (cpswAleSetMcastState (cpswAleSetSuper (cpswAleSetAddr
        (cpswAleSetVlanEntryType e flags vid) addr) (flagBit flags aleSuper)) mcastState)
        params.portMaskBits = cpswAleGetPortMask e params.portMaskBits := by
      unfold cpswAleGetPortMask cpswAleSetMcastState cpswAleSetSuper
      rw [getField_setField_of_apart (by decide) (by decide) (by decide) (by omega)
          (.inl (by decide)),
        getField_setField_of_apart (by decide) (by decide) (by decide) (by omega)
          (.inr (.inl (by decide))),
        getField_setAddr (by decide) (by decide) (by omega),
        getField_setVlanEntryType (by decide) (by decide) (by omega)]
    rw [hread]
    unfold cpswAleSetPortMask
    rw [cpswAleGetPortMask, getField_setField ⟨by decide, by omega, by omega⟩]
    rw [BitVec.and_comm, BitVec.and_or_distrib_left, BitVec.and_comm, hmask, BitVec.and_comm, hold]
  rw [hports, hsuper, hstate]

end CpswDriver.Ale
