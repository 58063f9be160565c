import CpswDriver.Ale.Table
import CpswDriver.Lib.BitField
import CpswDriver.Lib.Bytes

/-!
The switch puts a word in front of every frame it passes to the host, with the
priority, the CFI, the VLAN id and the type of the frame. The driver takes the
word off again, and where it takes the tag out of a frame it hands the tag on
beside it. The tag is made of the priority and the VLAN id only.
-/

namespace CpswDriver.Cpsw.VlanEncap

open Ale Bytes

def cpswRxVlanEncapHdrSize : ℕ := 4
def cpswRxVlanEncapHdrPrioShift : ℕ := 29
def cpswRxVlanEncapHdrPrioMsk : U32 := 7
def cpswRxVlanEncapHdrVidShift : ℕ := 16
def cpswRxVlanEncapHdrPktTypeShift : ℕ := 8
def cpswRxVlanEncapHdrPktTypeMsk : U32 := 3
def cpswRxVlanEncapHdrPktVlanTag : U16 := 0
def cpswRxVlanEncapHdrPktReserv : U16 := 1
def cpswRxVlanEncapHdrPktPrioTag : U16 := 2
def cpswRxVlanEncapHdrPktUntag : U16 := 3
def vlanVidMask : U32 := 0xfff
def vlanPrioShift : ℕ := 13
def vlanHlen : ℕ := 4
def ethAlen : ℕ := 6
def ethP8021q : U16 := 0x8100

/-- struct sk_buff: the bytes from its head on, where the data begins, and the
protocol and the control information of the accelerated tag. -/
structure SkBuff where
  head : List Byte
  data : ℕ
  vlanTag : Option (U16 × U16)

namespace SkBuff

def bytes (skb : SkBuff) : List Byte := skb.head.drop skb.data

def skbPull (skb : SkBuff) (len : ℕ) : SkBuff :=
  if skb.bytes.length < len then skb else { skb with data := skb.data + len }

def vlanHwaccelPutTag (skb : SkBuff) (vlanProto vlanTci : U16) : SkBuff :=
  { skb with vlanTag := some (vlanProto, vlanTci) }

/-- memmove from the data of the buffer to `up` bytes behind it. -/
def memmoveUp (skb : SkBuff) (up n : ℕ) : SkBuff :=
  { skb with head := memmove skb.head (skb.data + up) skb.data n }

end SkBuff

def cpswAleGetVlanP0Untag (ale : CpswAle) (vid : U16) : Bool := ale.p0UntagVidMask vid

def pktType (hdr : U32) : U16 :=
  ((hdr >>> cpswRxVlanEncapHdrPktTypeShift) &&& cpswRxVlanEncapHdrPktTypeMsk).setWidth 16

def vid (hdr : U32) : U16 := ((hdr >>> cpswRxVlanEncapHdrVidShift) &&& vlanVidMask).setWidth 16

def prio (hdr : U32) : U16 :=
  ((hdr >>> cpswRxVlanEncapHdrPrioShift) &&& cpswRxVlanEncapHdrPrioMsk).setWidth 16

def vtag (hdr : U32) : U16 := (prio hdr <<< vlanPrioShift) ||| vid hdr

def cpswRxVlanEncap (ale : CpswAle) (skb : SkBuff) : SkBuff :=
  let rxVlanEncapHdr := le32 skb.bytes
  let skb := skb.skbPull cpswRxVlanEncapHdrSize
  let pktType := pktType rxVlanEncapHdr
  if pktType = cpswRxVlanEncapHdrPktReserv ∨ pktType = cpswRxVlanEncapHdrPktPrioTag then skb
  else
    let vid := vid rxVlanEncapHdr
    if vid = 0 then skb
    else
      let skb :=
        if !cpswAleGetVlanP0Untag ale vid then
          skb.vlanHwaccelPutTag ethP8021q (vtag rxVlanEncapHdr)
        else skb
      if pktType = cpswRxVlanEncapHdrPktVlanTag then
        (skb.memmoveUp vlanHlen (2 * ethAlen)).skbPull vlanHlen
      else skb

/-- The control information of a tag, as the word has it: priority, CFI and VLAN id. -/
def tci (hdr : U32) : U16 := (hdr >>> 16).setWidth 16

def cfi (hdr : U32) : Bool := hdr.getLsbD 28

/-- A buffer that the switch has filled. The word of a VLAN-tagged frame has what
is in the tag behind the two addresses of the frame. -/
structure Received where
  headroom : List Byte
  hdr : U32
  frame : List Byte
  long : 18 ≤ frame.length
  tagged : pktType hdr = cpswRxVlanEncapHdrPktVlanTag →
    (frame.drop (2 * ethAlen)).take vlanHlen = be16Bytes ethP8021q ++ be16Bytes (tci hdr)

namespace Received

def skb (r : Received) : SkBuff where
  head := r.headroom ++ (le32Bytes r.hdr ++ r.frame)
  data := r.headroom.length
  vlanTag := none

/-- The tag of the frame is taken out of it. -/
def Strips (r : Received) : Prop :=
  pktType r.hdr = cpswRxVlanEncapHdrPktVlanTag ∧ vid r.hdr ≠ 0

end Received

/-- The frame with the accelerated tag put in behind the two addresses. -/
def SkBuff.reinserted (skb : SkBuff) : Option (List Byte) :=
  skb.vlanTag.map fun tag =>
    insertAt skb.bytes (2 * ethAlen) (be16Bytes tag.1 ++ be16Bytes tag.2)

/-- Nothing of the frame is lost. -/
structure Lossless (ale : CpswAle) (r : Received) (skb : SkBuff) : Prop where
  vlan : r.Strips → cpswAleGetVlanP0Untag ale (vid r.hdr) = false →
    skb.reinserted = some r.frame
  host : r.Strips → cpswAleGetVlanP0Untag ale (vid r.hdr) = true →
    skb.bytes = cut r.frame (2 * ethAlen) vlanHlen ∧ skb.vlanTag = none
  ignored : pktType r.hdr = cpswRxVlanEncapHdrPktPrioTag ∨
    pktType r.hdr = cpswRxVlanEncapHdrPktReserv ∨ vid r.hdr = 0 →
      skb.bytes = r.frame ∧ skb.vlanTag = none
  untagged : pktType r.hdr = cpswRxVlanEncapHdrPktUntag → skb.bytes = r.frame

variable {ale : CpswAle} {r : Received} {skb : SkBuff}

theorem bytes_skbPull {len : ℕ} (h : len ≤ skb.bytes.length) :
    (skb.skbPull len).bytes = skb.bytes.drop len := by
  unfold SkBuff.skbPull
  rw [if_neg (by omega)]
  exact List.drop_drop.symm

theorem vlanTag_skbPull (skb : SkBuff) (len : ℕ) : (skb.skbPull len).vlanTag = skb.vlanTag := by
  unfold SkBuff.skbPull
  split <;> rfl

theorem bytes_received (r : Received) : r.skb.bytes = le32Bytes r.hdr ++ r.frame :=
  List.drop_left' rfl

theorem le32_received (r : Received) : le32 r.skb.bytes = r.hdr := by
  rw [bytes_received, le32_le32Bytes]

theorem bytes_pulled (r : Received) :
    (r.skb.skbPull cpswRxVlanEncapHdrSize).bytes = r.frame := by
  rw [bytes_skbPull (by rw [bytes_received]; simp [le32Bytes, cpswRxVlanEncapHdrSize]),
    bytes_received]
  rfl

/-- Moving the addresses up and pulling again cuts the tag out. -/
theorem bytes_stripped (h : 16 ≤ skb.bytes.length) :
    ((skb.memmoveUp vlanHlen (2 * ethAlen)).skbPull vlanHlen).bytes =
      cut skb.bytes (2 * ethAlen) vlanHlen := by
  have hlen : skb.bytes.length = skb.head.length - skb.data := List.length_drop
  have hmoved : (memmove skb.head (skb.data + vlanHlen) skb.data (2 * ethAlen)).length =
      skb.head.length :=
    length_memmove (by unfold vlanHlen ethAlen; omega) (by unfold ethAlen; omega)
  rw [bytes_skbPull]
  · unfold SkBuff.bytes SkBuff.memmoveUp
    dsimp only
    rw [List.drop_drop, drop_memmove (by unfold vlanHlen; omega)]
  · unfold SkBuff.bytes SkBuff.memmoveUp
    dsimp only
    rw [List.length_drop, hmoved]
    unfold vlanHlen
    omega

theorem getLsbD_vtag (hdr : U32) {i : ℕ} (hi : i < 16) :
    (vtag hdr).getLsbD i = ((tci hdr).getLsbD i && decide (i ≠ 12)) := by
  have hvid : (vid hdr).getLsbD i = (hdr.getLsbD (16 + i) && decide (i < 12)) := by
    have hmask : vlanVidMask = BitField.bitMask 32 12 := by decide
    rw [vid, BitVec.getLsbD_setWidth, BitVec.getLsbD_and, BitVec.getLsbD_ushiftRight, hmask,
      BitField.getLsbD_bitMask (by decide), decide_eq_true hi, Bool.true_and]
    rfl
  have hprio : ∀ j, (prio hdr).getLsbD j = (hdr.getLsbD (29 + j) && decide (j < 3)) := by
    intro j
    have hmask : cpswRxVlanEncapHdrPrioMsk = BitField.bitMask 32 3 := by decide
    rw [prio, BitVec.getLsbD_setWidth, BitVec.getLsbD_and, BitVec.getLsbD_ushiftRight, hmask,
      BitField.getLsbD_bitMask (by decide), Bool.eq_iff_iff]
    simp only [Bool.and_eq_true, decide_eq_true_eq]
    constructor
    · exact fun h => h.2
    · exact fun h => ⟨by omega, h⟩
  have htci : (tci hdr).getLsbD i = hdr.getLsbD (16 + i) := by
    rw [tci, BitVec.getLsbD_setWidth, BitVec.getLsbD_ushiftRight, decide_eq_true hi, Bool.true_and]
  rw [vtag, BitVec.getLsbD_or, BitVec.getLsbD_shiftLeft, hvid, hprio, htci]
  unfold vlanPrioShift
  rcases Nat.lt_trichotomy i 12 with hlow | rfl | hhigh
  · simp [hlow, show i < 13 by omega, show i ≠ 12 by omega]
  · simp
  · simp [hi, show ¬ i < 12 by omega, show ¬ i < 13 by omega, show i - 13 < 3 by omega,
      show 29 + (i - 13) = 16 + i by omega, show i ≠ 12 by omega]

/-- The tag is whole only where there is no CFI to lose. -/
theorem vtag_eq_tci_iff (hdr : U32) : vtag hdr = tci hdr ↔ cfi hdr = false := by
  have htci : (tci hdr).getLsbD 12 = cfi hdr := by
    rw [tci, BitVec.getLsbD_setWidth, BitVec.getLsbD_ushiftRight, cfi]
    rfl
  constructor
  · intro heq
    have hbit := getLsbD_vtag hdr (by decide : 12 < 16)
    rw [heq, decide_eq_false (by simp), Bool.and_false, htci] at hbit
    exact hbit
  · intro hcfi
    apply BitVec.eq_of_getLsbD_eq
    intro i hi
    rw [getLsbD_vtag hdr hi]
    by_cases h12 : i = 12
    · rw [h12, htci, hcfi, Bool.false_and]
    · rw [decide_eq_true h12, Bool.and_true]

/-- The tag put back in gives the frame just where it is the tag of the frame. -/
theorem insertAt_cut_frame (r : Received)
    (h : pktType r.hdr = cpswRxVlanEncapHdrPktVlanTag) :
    insertAt (cut r.frame (2 * ethAlen) vlanHlen) (2 * ethAlen)
      (be16Bytes ethP8021q ++ be16Bytes (vtag r.hdr)) = r.frame ↔ cfi r.hdr = false := by
  have hlong := r.long
  have htag : (be16Bytes ethP8021q ++ be16Bytes (vtag r.hdr)).length = vlanHlen := rfl
  rw [insertAt_cut_iff (by unfold ethAlen vlanHlen; omega) htag, r.tagged h, ← vtag_eq_tci_iff]
  constructor
  · exact fun heq => be16Bytes_injective (List.append_cancel_left heq)
  · exact fun heq => by rw [heq]

theorem encap_ignored (ale : CpswAle) (r : Received)
    (h : pktType r.hdr = cpswRxVlanEncapHdrPktPrioTag ∨
      pktType r.hdr = cpswRxVlanEncapHdrPktReserv ∨ vid r.hdr = 0) :
    cpswRxVlanEncap ale r.skb = r.skb.skbPull cpswRxVlanEncapHdrSize := by
  unfold cpswRxVlanEncap
  dsimp only
  rw [le32_received]
  by_cases htype : pktType r.hdr = cpswRxVlanEncapHdrPktReserv ∨
      pktType r.hdr = cpswRxVlanEncapHdrPktPrioTag
  · rw [if_pos htype]
  · have hvid : vid r.hdr = 0 := by
      rcases h with h | h | h
      · exact absurd (Or.inr h) htype
      · exact absurd (Or.inl h) htype
      · exact h
    rw [if_neg htype, if_pos hvid]

/-- The buffer with the tag attached, unless the host takes the VLAN untagged. -/
def attached (ale : CpswAle) (r : Received) : SkBuff :=
  if !cpswAleGetVlanP0Untag ale (vid r.hdr) then
    (r.skb.skbPull cpswRxVlanEncapHdrSize).vlanHwaccelPutTag ethP8021q (vtag r.hdr)
  else r.skb.skbPull cpswRxVlanEncapHdrSize

theorem bytes_attached (ale : CpswAle) (r : Received) : (attached ale r).bytes = r.frame := by
  rw [← bytes_pulled r]
  unfold attached
  split <;> rfl

theorem encap_strips (ale : CpswAle) (h : r.Strips) : cpswRxVlanEncap ale r.skb =
    ((attached ale r).memmoveUp vlanHlen (2 * ethAlen)).skbPull vlanHlen := by
  obtain ⟨htype, hvid⟩ := h
  have hother : ¬ (pktType r.hdr = cpswRxVlanEncapHdrPktReserv ∨
      pktType r.hdr = cpswRxVlanEncapHdrPktPrioTag) := by
    rw [htype]
    decide
  unfold cpswRxVlanEncap
  dsimp only
  rw [le32_received, if_neg hother, if_neg hvid, if_pos htype]
  rfl

theorem encap_untagged (ale : CpswAle) (h : pktType r.hdr = cpswRxVlanEncapHdrPktUntag) :
    (cpswRxVlanEncap ale r.skb).bytes = r.frame := by
  have hother : ¬ (pktType r.hdr = cpswRxVlanEncapHdrPktReserv ∨
      pktType r.hdr = cpswRxVlanEncapHdrPktPrioTag) := by
    rw [h]
    decide
  have hplain : ¬ pktType r.hdr = cpswRxVlanEncapHdrPktVlanTag := by
    rw [h]
    decide
  unfold cpswRxVlanEncap
  dsimp only
  rw [le32_received, if_neg hother, if_neg hplain]
  split
  · exact bytes_pulled r
  · exact bytes_attached ale r

theorem bytes_encap_strips (ale : CpswAle) (h : r.Strips) :
    (cpswRxVlanEncap ale r.skb).bytes = cut r.frame (2 * ethAlen) vlanHlen ∧
      (cpswRxVlanEncap ale r.skb).vlanTag = (attached ale r).vlanTag := by
  have hlong := r.long
  rw [encap_strips ale h, bytes_stripped (by rw [bytes_attached]; omega), bytes_attached,
    vlanTag_skbPull]
  exact ⟨rfl, rfl⟩

/-- The frame is lost in part just where it has a CFI and its tag is handed on. -/
theorem lossless_iff (ale : CpswAle) (r : Received) :
    Lossless ale r (cpswRxVlanEncap ale r.skb) ↔
      ¬ (r.Strips ∧ cpswAleGetVlanP0Untag ale (vid r.hdr) = false ∧ cfi r.hdr = true) := by
  have hreinserted : r.Strips → cpswAleGetVlanP0Untag ale (vid r.hdr) = false →
      ((cpswRxVlanEncap ale r.skb).reinserted = some r.frame ↔ cfi r.hdr = false) := by
    intro hstrips huntag
    obtain ⟨hbytes, htag⟩ := bytes_encap_strips ale hstrips
    have hput : (attached ale r).vlanTag = some (ethP8021q, vtag r.hdr) := by
      unfold attached
      rw [huntag]
      rfl
    unfold SkBuff.reinserted
    rw [hbytes, htag, hput]
    exact Option.some_inj.trans (insertAt_cut_frame r hstrips.1)
  constructor
  · rintro hlossless ⟨hstrips, huntag, hcfi⟩
    have hfalse := (hreinserted hstrips huntag).mp (hlossless.vlan hstrips huntag)
    rw [hcfi] at hfalse
    cases hfalse
  · intro hkept
    refine ⟨fun hstrips huntag => ?_, fun hstrips huntag => ?_, fun h => ?_, encap_untagged ale⟩
    · apply (hreinserted hstrips huntag).mpr
      exact Bool.eq_false_of_not_eq_true fun hcfi => hkept ⟨hstrips, huntag, hcfi⟩
    · obtain ⟨hbytes, htag⟩ := bytes_encap_strips ale hstrips
      refine ⟨hbytes, htag.trans ?_⟩
      unfold attached
      rw [huntag]
      exact vlanTag_skbPull _ _
    · rw [encap_ignored ale r h]
      exact ⟨bytes_pulled r, vlanTag_skbPull _ _⟩

def cfiFrame : Received where
  headroom := []
  hdr := 0x10050000
  frame := [1, 0, 0x5e, 0, 0, 1, 2, 0, 0, 0, 0, 1, 0x81, 0, 0x10, 5, 8, 0]
  long := by decide
  tagged := fun _ => by decide

/-- Its CFI is gone from the tag that is handed on. -/
theorem cfi_is_lost : ¬ Lossless ⟨[], fun _ => 0, fun _ => false, false⟩ cfiFrame
    (cpswRxVlanEncap ⟨[], fun _ => 0, fun _ => false, false⟩ cfiFrame.skb) := by
  intro h
  have hframe := h.vlan ⟨by decide, by decide⟩ rfl
  revert hframe
  decide

end CpswDriver.Cpsw.VlanEncap
