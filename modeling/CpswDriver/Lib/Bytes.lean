import Mathlib.Data.Nat.Bitwise

/-!
Buffers of bytes. Moving a part of a buffer, cutting a part out and putting one
in are told by what is read afterwards; words are taken from their bytes and
laid out in them again.
-/

namespace CpswDriver.Bytes

abbrev Byte := BitVec 8

section Parts

variable {α : Type*} {buf part : List α} {n k : ℕ}

/-- The bytes from `src` on are at `dst` afterwards, also where the two overlap. -/
def memmove (buf : List α) (dst src n : ℕ) : List α :=
  buf.take dst ++ (buf.drop src).take n ++ buf.drop (dst + n)

/-- The buffer without the `k` bytes from `n` on. -/
def cut (buf : List α) (n k : ℕ) : List α := buf.take n ++ buf.drop (n + k)

/-- The buffer with a part put in before its byte `n`. -/
def insertAt (buf : List α) (n : ℕ) (part : List α) : List α :=
  buf.take n ++ part ++ buf.drop n

/-- Moving the first `n` bytes up by `k` cuts out the `k` bytes that follow them. -/
theorem drop_memmove {src : ℕ} (h : src + k ≤ buf.length) :
    (memmove buf (src + k) src n).drop (src + k) = cut (buf.drop src) n k := by
  unfold memmove cut
  rw [List.append_assoc, List.drop_append, List.length_take, Nat.min_eq_left h, Nat.sub_self,
    List.drop_zero, List.drop_of_length_le (by rw [List.length_take]; omega), List.nil_append,
    List.drop_drop]
  congr 2
  omega

theorem length_memmove {dst src : ℕ} (hdst : dst + n ≤ buf.length) (hsrc : src + n ≤ buf.length) :
    (memmove buf dst src n).length = buf.length := by
  unfold memmove
  rw [List.length_append, List.length_append, List.length_take, List.length_take,
    List.length_drop, List.length_drop]
  omega

/-- What was cut out may be put in again, and nothing else gives the buffer back. -/
theorem insertAt_cut_iff (h : n + k ≤ buf.length) (hpart : part.length = k) :
    insertAt (cut buf n k) n part = buf ↔ part = (buf.drop n).take k := by
  have htake : (buf.take n).length = n := by
    rw [List.length_take]
    omega
  have hput : insertAt (cut buf n k) n part = buf.take n ++ (part ++ buf.drop (n + k)) := by
    unfold insertAt cut
    rw [List.take_left' htake, List.drop_left' htake, List.append_assoc]
  have hbuf : buf = buf.take n ++ ((buf.drop n).take k ++ buf.drop (n + k)) := by
    rw [← List.drop_drop, List.take_append_drop, List.take_append_drop]
  rw [hput]
  constructor
  · intro heq
    have hparts := List.append_cancel_left (heq.trans hbuf)
    exact List.append_cancel_right hparts
  · rintro rfl
    exact hbuf.symm

end Parts

/-- The word whose lowest byte is the first one. -/
def le32 : List Byte → BitVec 32
  | b0 :: b1 :: b2 :: b3 :: _ => b3 ++ b2 ++ b1 ++ b0
  | _ => 0

def le32Bytes (x : BitVec 32) : List Byte :=
  [x.extractLsb' 0 8, x.extractLsb' 8 8, x.extractLsb' 16 8, x.extractLsb' 24 8]

/-- The bytes of a halfword in network order. -/
def be16Bytes (x : BitVec 16) : List Byte := [x.extractLsb' 8 8, x.extractLsb' 0 8]

/-- The words of two bytes, lowest byte first. -/
def le16s : List Byte → List ℕ
  | b0 :: b1 :: rest => (b0.toNat + 256 * b1.toNat) :: le16s rest
  | _ => []

/-- A halfword stored at `i`, lowest byte first. -/
def putLe16 (buf : List Byte) (i : ℕ) (x : BitVec 16) : List Byte :=
  (buf.set i (x.extractLsb' 0 8)).set (i + 1) (x.extractLsb' 8 8)

theorem le32_le32Bytes (x : BitVec 32) (rest : List Byte) : le32 (le32Bytes x ++ rest) = x := by
  have hword : le32 (le32Bytes x ++ rest) = (x.extractLsb' 24 8 ++ x.extractLsb' 16 8 ++
      x.extractLsb' 8 8 ++ x.extractLsb' 0 8 : BitVec (8 + 8 + 8 + 8)) := rfl
  rw [hword]
  apply BitVec.eq_of_getLsbD_eq
  intro i hi
  simp only [BitVec.getLsbD_append, BitVec.getLsbD_extractLsb']
  by_cases h0 : i < 8
  · simp [h0]
  by_cases h1 : i < 16
  · rw [if_neg h0, if_pos (by omega), decide_eq_true (by omega), Bool.true_and]
    congr 1
    omega
  by_cases h2 : i < 24
  · rw [if_neg h0, if_neg (by omega), if_pos (by omega), decide_eq_true (by omega), Bool.true_and]
    congr 1
    omega
  · rw [if_neg h0, if_neg (by omega), if_neg (by omega), decide_eq_true (by omega), Bool.true_and]
    congr 1
    omega

theorem be16Bytes_injective {x y : BitVec 16} (h : be16Bytes x = be16Bytes y) : x = y := by
  obtain ⟨hhigh, hlow⟩ := List.cons_eq_cons.mp h
  obtain ⟨hlow, -⟩ := List.cons_eq_cons.mp hlow
  apply BitVec.eq_of_getLsbD_eq
  intro i hi
  by_cases h0 : i < 8
  · have hbit := congrArg (BitVec.getLsbD · i) hlow
    simpa [BitVec.getLsbD_extractLsb', h0] using hbit
  · have hbit := congrArg (BitVec.getLsbD · (i - 8)) hhigh
    simp only [BitVec.getLsbD_extractLsb'] at hbit
    rw [decide_eq_true (by omega : i - 8 < 8), Bool.true_and, Bool.true_and,
      Nat.add_sub_of_le (by omega)] at hbit
    exact hbit

theorem le16s_lt (buf : List Byte) : ∀ a ∈ le16s buf, a < 2 ^ 16 := by
  induction buf using le16s.induct with
  | case1 b0 b1 rest ih =>
    intro a ha
    rcases List.mem_cons.mp ha with rfl | ha
    · have h0 := b0.isLt
      have h1 := b1.isLt
      omega
    · exact ih a ha
  | case2 buf hshort =>
    intro a ha
    unfold le16s at ha
    split at ha
    · exact absurd rfl (hshort _ _ _)
    · cases ha

theorem length_le16s (buf : List Byte) : (le16s buf).length = buf.length / 2 := by
  induction buf using le16s.induct with
  | case1 b0 b1 rest ih =>
    simp only [le16s, List.length_cons, ih]
    omega
  | case2 buf hshort =>
    match buf, hshort with
    | [], _ => rfl
    | [_], _ => simp [le16s]
    | b0 :: b1 :: rest, h => exact absurd rfl (h b0 b1 rest)

theorem toNat_bytes (x : BitVec 16) :
    (x.extractLsb' 0 8).toNat + 256 * (x.extractLsb' 8 8).toNat = x.toNat := by
  have hlt := x.isLt
  rw [BitVec.extractLsb'_toNat, BitVec.extractLsb'_toNat, Nat.shiftRight_zero,
    Nat.shiftRight_eq_div_pow]
  omega

theorem le16s_putLe16 {buf : List Byte} {k : ℕ} (h : 2 * k + 1 < buf.length) (x : BitVec 16) :
    le16s (putLe16 buf (2 * k) x) = (le16s buf).set k x.toNat := by
  induction k generalizing buf with
  | zero =>
    match buf, h with
    | b0 :: b1 :: rest, _ => exact congrArg (· :: le16s rest) (toNat_bytes x)
  | succ k ih =>
    match buf, h with
    | b0 :: b1 :: rest, h =>
      have hrest : 2 * k + 1 < rest.length := by
        simp only [List.length_cons] at h
        omega
      exact congrArg ((b0.toNat + 256 * b1.toNat) :: ·) (ih hrest)

theorem putLe16_putLe16 (buf : List Byte) (i : ℕ) (x y : BitVec 16) :
    putLe16 (putLe16 buf i x) i y = putLe16 buf i y := by
  unfold putLe16
  rw [List.set_comm _ _ (by omega : i + 1 ≠ i), List.set_set, List.set_set]

theorem getElem?_putLe16 {i j : ℕ} (hlow : j ≠ i) (hhigh : j ≠ i + 1) (buf : List Byte)
    (x : BitVec 16) : (putLe16 buf i x)[j]? = buf[j]? := by
  unfold putLe16
  rw [List.getElem?_set_ne (Ne.symm hhigh), List.getElem?_set_ne (Ne.symm hlow)]

/-- A store inside a part of a buffer is a store into the part. -/
theorem part_putLe16 {i n len : ℕ} (hi : n ≤ i) (buf : List Byte) (x : BitVec 16) :
    ((putLe16 buf i x).drop n).take len = putLe16 ((buf.drop n).take len) (i - n) x := by
  unfold putLe16
  rw [List.drop_set, if_neg (by omega), List.drop_set, if_neg (by omega), List.take_set,
    List.take_set, Nat.sub_add_comm hi]

end CpswDriver.Bytes
