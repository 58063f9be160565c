import CpswDriver.Kernel
import CpswDriver.Lib.Bytes
import CpswDriver.Lib.OnesComplement

/-!
A packet that is sent on one of the twin interfaces comes in on the other, with
the networks of its addresses exchanged. The driver in C does this in the frame;
the one in Rust does it in a copy of the header, which nobody reads.
-/

namespace CpswDriver.Snull

open Bytes

def ethHlen : ℕ := 14
def ethZlen : ℕ := 60

def iphdrSize : ℕ := 20
def iphCheck : ℕ := 10
def iphSaddr : ℕ := 12
def iphDaddr : ℕ := 16

/-- The ones' complement checksum over `ihl` words of 32 bits. -/
def ipFastCsum (iph : List Byte) (ihl : ℕ) : U16 :=
  BitVec.ofNat 16 (OnesComplement.checksum 16 (le16s (iph.take (4 * ihl))))

/-- The length of the header, from the low half of its first byte. -/
def ihl (buf : List Byte) : ℕ := ((buf.getD ethHlen 0) &&& 0xf).toNat

/-- What snull_tx hands to the other interface. -/
def snullTx (skbData : List Byte) : List Byte × ℤ :=
  let buf :=
    if skbData.length < ethZlen then skbData ++ List.replicate (ethZlen - skbData.length) 0
    else skbData
  if buf.length < ethHlen + iphdrSize then (buf, einval)
  else
    let buf := buf.modify (ethHlen + iphSaddr + 2) (· ^^^ 1)
    let buf := buf.modify (ethHlen + iphDaddr + 2) (· ^^^ 1)
    let buf := putLe16 buf (ethHlen + iphCheck) 0
    let buf := putLe16 buf (ethHlen + iphCheck) (ipFastCsum (buf.drop ethHlen) (ihl buf))
    (buf, 0)

/-- The fields of struct iphdr that update_skb looks at. -/
structure Iphdr where
  check : U16
  saddr : U32
  daddr : U32

def Iphdr.read (buf : List Byte) : Iphdr where
  check := (le32 (buf.drop iphCheck)).setWidth 16
  saddr := le32 (buf.drop iphSaddr)
  daddr := le32 (buf.drop iphDaddr)

/-- A socket buffer with what lies behind its data in memory. -/
structure SkBuff where
  data : List Byte
  tail : List Byte
  dev : ℕ

/-- The buffer afterwards, and the header that was updated. -/
def updateSkb (skb : SkBuff) (dev : ℕ) : SkBuff × Iphdr :=
  let buf := (skb.data ++ skb.tail).drop ethHlen
  -- a block is a value: the reference is to a copy of the header, not into the frame
  let ipHdr := Iphdr.read buf
  let ipHdr := { ipHdr with saddr := ipHdr.saddr ^^^ (1 <<< 16) }
  let ipHdr := { ipHdr with daddr := ipHdr.daddr ^^^ (1 <<< 16) }
  let updatedCheck := ipFastCsum buf skb.data.length
  let ipHdr := { ipHdr with check := updatedCheck }
  ({ skb with dev := dev }, ipHdr)

/-- A frame with room for the whole of its IPv4 header. -/
structure IpFrame where
  bytes : List Byte
  long : ethZlen ≤ bytes.length
  version : bytes.getD ethHlen 0 >>> 4 = 4
  header : 5 ≤ ihl bytes
  fits : ethHlen + 4 * ihl bytes ≤ bytes.length

def headerWords (buf : List Byte) : List ℕ := le16s ((buf.drop ethHlen).take (4 * ihl buf))

/-- The networks are exchanged, the checksum goes with them, and nothing else
has changed. -/
structure Rewrites (before after : List Byte) : Prop where
  octets : ∀ i, i = ethHlen + iphSaddr + 2 ∨ i = ethHlen + iphDaddr + 2 →
    after[i]? = before[i]?.map (· ^^^ 1)
  checksum : putLe16 after (ethHlen + iphCheck)
    (ipFastCsum ((putLe16 after (ethHlen + iphCheck) 0).drop ethHlen) (ihl after)) = after
  verifies : OnesComplement.sum 16 (headerWords after) = 2 ^ 16 - 1
  others : ∀ i, i ≠ ethHlen + iphSaddr + 2 → i ≠ ethHlen + iphDaddr + 2 →
    i ≠ ethHlen + iphCheck → i ≠ ethHlen + iphCheck + 1 → after[i]? = before[i]?

/-- The two drivers do the same to the frame, and the right thing. -/
structure RewritesAlike (f : IpFrame) (tail : List Byte) (dev sibling : ℕ) : Prop where
  same : (updateSkb ⟨f.bytes, tail, dev⟩ sibling).1.data = (snullTx f.bytes).1
  rewrites : Rewrites f.bytes (snullTx f.bytes).1

variable {f : IpFrame}

def flipped (buf : List Byte) : List Byte :=
  (buf.modify (ethHlen + iphSaddr + 2) (· ^^^ 1)).modify (ethHlen + iphDaddr + 2) (· ^^^ 1)

theorem length_flipped (buf : List Byte) : (flipped buf).length = buf.length := by
  unfold flipped
  rw [List.length_modify, List.length_modify]

theorem getElem?_flipped (buf : List Byte) (i : ℕ) : (flipped buf)[i]? =
    if i = ethHlen + iphSaddr + 2 ∨ i = ethHlen + iphDaddr + 2 then buf[i]?.map (· ^^^ 1)
    else buf[i]? := by
  unfold flipped
  rw [List.getElem?_modify, List.getElem?_modify]
  unfold ethHlen iphSaddr iphDaddr
  by_cases hs : i = 28
  · subst hs
    cases buf[28]? <;> rfl
  by_cases hd : i = 32
  · subst hd
    cases buf[32]? <;> rfl
  · rw [if_neg (by omega)]
    cases buf[i]? <;> simp [Ne.symm hs, Ne.symm hd]

/-- A change behind its first byte leaves the length of the header alone. -/
theorem ihl_congr {buf buf' : List Byte} (h : buf'[ethHlen]? = buf[ethHlen]?) :
    ihl buf' = ihl buf := by
  unfold ihl
  rw [List.getD_eq_getElem?_getD, List.getD_eq_getElem?_getD, h]

theorem ihl_putLe16 (buf : List Byte) (x : U16) :
    ihl (putLe16 buf (ethHlen + iphCheck) x) = ihl buf :=
  ihl_congr (getElem?_putLe16 (by decide) (by decide) buf x)

theorem ihl_flipped (buf : List Byte) : ihl (flipped buf) = ihl buf :=
  ihl_congr ((getElem?_flipped buf ethHlen).trans (if_neg (by decide)))

def updatedCheck (buf : List Byte) : U16 :=
  ipFastCsum ((putLe16 (flipped buf) (ethHlen + iphCheck) 0).drop ethHlen) (ihl buf)

theorem snullTx_eq (f : IpFrame) : snullTx f.bytes =
    (putLe16 (flipped f.bytes) (ethHlen + iphCheck) (updatedCheck f.bytes), 0) := by
  have hlong : ¬ f.bytes.length < ethZlen := Nat.not_lt.mpr f.long
  have hroom : ¬ f.bytes.length < ethHlen + iphdrSize := by
    unfold ethZlen at hlong
    unfold ethHlen iphdrSize
    omega
  have hihl : ihl (putLe16 (flipped f.bytes) (ethHlen + iphCheck) 0) = ihl f.bytes :=
    (ihl_putLe16 _ 0).trans (ihl_flipped f.bytes)
  unfold snullTx
  dsimp only
  rw [if_neg hlong, if_neg hroom]
  change (putLe16 (putLe16 (flipped f.bytes) _ 0) _
    (ipFastCsum ((putLe16 (flipped f.bytes) _ 0).drop ethHlen)
      (ihl (putLe16 (flipped f.bytes) _ 0))), (0 : ℤ)) = _
  rw [hihl, putLe16_putLe16]
  rfl

theorem headerWords_putLe16 (f : IpFrame) (x : U16) :
    headerWords (putLe16 (flipped f.bytes) (ethHlen + iphCheck) x) =
      (headerWords (flipped f.bytes)).set 5 x.toNat := by
  have hfits := f.fits
  have hheader := f.header
  have hlen : 2 * 5 + 1 <
      (((flipped f.bytes).drop ethHlen).take (4 * ihl (flipped f.bytes))).length := by
    rw [List.length_take, List.length_drop, length_flipped, ihl_flipped]
    omega
  unfold headerWords
  rw [ihl_putLe16, part_putLe16 (Nat.le_add_right _ _), Nat.add_sub_cancel_left]
  exact le16s_putLe16 hlen x

theorem length_headerWords (f : IpFrame) : 5 < (headerWords (flipped f.bytes)).length := by
  have hfits := f.fits
  have hheader := f.header
  unfold headerWords
  rw [length_le16s, List.length_take, List.length_drop, length_flipped, ihl_flipped]
  omega

/-- The checksum is that of the words with a zero in its place. -/
theorem toNat_updatedCheck (f : IpFrame) : (updatedCheck f.bytes).toNat =
    OnesComplement.checksum 16 ((headerWords (flipped f.bytes)).set 5 0) := by
  have hwords : headerWords (putLe16 (flipped f.bytes) (ethHlen + iphCheck) 0) =
      (headerWords (flipped f.bytes)).set 5 0 := headerWords_putLe16 f 0
  have hlt : OnesComplement.checksum 16 ((headerWords (flipped f.bytes)).set 5 0) < 2 ^ 16 :=
    Nat.lt_of_le_of_lt (Nat.sub_le _ _) (by decide)
  have hcsum : updatedCheck f.bytes = BitVec.ofNat 16 (OnesComplement.checksum 16
      (headerWords (putLe16 (flipped f.bytes) (ethHlen + iphCheck) 0))) := by
    unfold updatedCheck ipFastCsum headerWords
    rw [ihl_putLe16, ihl_flipped]
  rw [hcsum, hwords, BitVec.toNat_ofNat, Nat.mod_eq_of_lt hlt]

/-- The driver in C does what is wanted. -/
theorem snullTx_rewrites (f : IpFrame) : Rewrites f.bytes (snullTx f.bytes).1 := by
  rw [snullTx_eq]
  refine ⟨fun i hi => ?_, ?_, ?_, fun i hs hd hlow hhigh => ?_⟩
  · have hout : i ≠ ethHlen + iphCheck ∧ i ≠ ethHlen + iphCheck + 1 := by
      rcases hi with rfl | rfl <;> decide
    rw [getElem?_putLe16 hout.1 hout.2, getElem?_flipped, if_pos hi]
  · dsimp only
    rw [putLe16_putLe16, putLe16_putLe16, ihl_putLe16, ihl_flipped]
    rfl
  · rw [headerWords_putLe16, toNat_updatedCheck]
    exact OnesComplement.sum_set_checksum (length_headerWords f) (le16s_lt _)
  · rw [getElem?_putLe16 hlow hhigh, getElem?_flipped, if_neg (not_or.mpr ⟨hs, hd⟩)]

/-- What the driver in Rust changes is not in the frame. -/
theorem updateSkb_data (skb : SkBuff) (dev : ℕ) : (updateSkb skb dev).1.data = skb.data := rfl

theorem xor_one_ne (b : Byte) : b ^^^ 1 ≠ b := by
  intro h
  have hbit := congrArg (BitVec.getLsbD · 0) h
  simp at hbit

/-- The two drivers never do the same: the one in C always changes the frame. -/
theorem rewritesAlike_never (f : IpFrame) (tail : List Byte) (dev sibling : ℕ) :
    ¬ RewritesAlike f tail dev sibling := by
  intro h
  have hlong := f.long
  unfold ethZlen at hlong
  have hoctet := (snullTx_rewrites f).octets (ethHlen + iphSaddr + 2) (Or.inl rfl)
  rw [← h.same, updateSkb_data] at hoctet
  have hin : ethHlen + iphSaddr + 2 < f.bytes.length := by
    unfold ethHlen iphSaddr
    omega
  rw [List.getElem?_eq_getElem hin, Option.map_some] at hoctet
  exact xor_one_ne _ (Option.some.inj hoctet).symm

/-- A frame from 192.168.0.1 to 192.168.0.2, padded to the shortest length. -/
def pingFrame : IpFrame where
  bytes := [0, 0x53, 0x4e, 0x55, 0x4c, 0x31, 0, 0x53, 0x4e, 0x55, 0x4c, 0x30, 8, 0,
      0x45, 0, 0, 28, 0, 0, 0x40, 0, 0x40, 1, 0xb9, 0x8d, 192, 168, 0, 1, 192, 168, 0, 2] ++
    List.replicate 26 0
  long := by decide
  version := by decide
  header := by decide
  fits := by decide

/-- In C its source is in network 1 afterwards, in Rust it still is in network 0. -/
theorem ping_is_not_rewritten : ¬ RewritesAlike pingFrame [] 0 1 := by
  intro h
  have hoctet := congrArg (·[28]?) h.same
  revert hoctet
  decide

end CpswDriver.Snull
