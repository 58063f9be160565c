import CpswDriver.Cpdma.Rates
import CpswDriver.Lib.Rounding

/-!
The search for the counts of a rate limit finds one, on a bus of at most 512 MHz:
among the send counts that it comes by before it has found anything, there is one
whose idle count is rounded up, and the rate of that pair is not below the limit.
-/

namespace CpswDriver.Cpdma

open Rounding

theorem mod_of_lt_two {x n : ℕ} (hle : n ≤ x) (hlt : x < 2 * n) : x % n = x - n := by
  rw [Nat.mod_eq_sub_mod hle]
  exact Nat.mod_eq_of_lt (by omega)

theorem exists_ceil (a : ℕ) {b : ℕ} (hb : 0 < b) : ∃ k, a ≤ b * k ∧ b * k < a + b := by
  refine ⟨(a + b - 1) / b, ?_, ?_⟩
  · have hdiv := Nat.div_add_mod (a + b - 1) b
    have hmod := Nat.mod_lt (a + b - 1) hb
    omega
  · have hle := Nat.mul_div_le (a + b - 1) b
    omega

/-- A count that r times n divides, or leaves at least half of n over. -/
def RoundsUp (n r k : ℕ) : Prop := r * k % n = 0 ∨ n ≤ 2 * (r * k % n)

theorem exists_roundsUp_of_le {n r : ℕ} (hn : 0 < n) (hnr : n ≤ r) :
    ∃ k, n ≤ r * k ∧ k ≤ n ∧ RoundsUp n r k := by
  by_cases hdone : RoundsUp n r 1
  · exact ⟨1, by omega, hn, hdone⟩
  unfold RoundsUp at hdone
  rw [mul_one] at hdone
  obtain ⟨k, hle, hlt⟩ := exists_ceil n (b := 2 * (r % n)) (by omega)
  rw [mul_assoc] at hle hlt
  have hmod : r * k % n = r % n * k := by
    rw [← Nat.mod_mul_mod]
    exact Nat.mod_eq_of_lt (by omega)
  have hk : 0 < k := by
    by_contra hzero
    obtain rfl : k = 0 := by omega
    omega
  have hkn : k ≤ r % n * k := Nat.le_mul_of_pos_left k (by omega)
  have hrk : r ≤ r * k := Nat.le_mul_of_pos_right r hk
  refine ⟨k, by omega, by omega, .inr ?_⟩
  rw [hmod]
  exact hle

theorem exists_roundsUp_of_lt {n r : ℕ} (hr : 1 < r) (hrn : 2 * r ≤ n) :
    ∃ k, n ≤ r * k ∧ k ≤ n ∧ RoundsUp n r k := by
  obtain ⟨k, hle, hlt⟩ := exists_ceil (3 * n) (b := 2 * r) (by omega)
  rw [mul_assoc] at hle hlt
  have hkr : 2 * k ≤ r * k := Nat.mul_le_mul_right k hr
  have hmod : r * k % n = r * k - n := mod_of_lt_two (by omega) (by omega)
  refine ⟨k, by omega, by omega, .inr ?_⟩
  rw [hmod]
  omega

theorem exists_roundsUp_of_half {n r : ℕ} (hrn : r < n) (hnr : n < 2 * r) :
    ∃ k, n ≤ r * k ∧ k ≤ 4 ∧ RoundsUp n r k := by
  by_cases htwo : n ≤ 2 * (2 * r - n)
  · have hmod : r * 2 % n = r * 2 - n := mod_of_lt_two (by omega) (by omega)
    exact ⟨2, by omega, by omega, .inr (by omega)⟩
  by_cases hthree : r * 3 < 2 * n
  · have hmod : r * 3 % n = r * 3 - n := mod_of_lt_two (by omega) hthree
    exact ⟨3, by omega, by omega, .inr (by omega)⟩
  by_cases hexact : r * 3 = 2 * n
  · refine ⟨3, by omega, by omega, .inl ?_⟩
    rw [hexact]
    exact Nat.mul_mod_left 2 n
  · have hmod : r * 4 % n = r * 4 - n - n := by
      rw [Nat.mod_eq_sub_mod (by omega)]
      exact mod_of_lt_two (by omega) (by omega)
    exact ⟨4, by omega, by omega, .inr (by omega)⟩

/-- Some send count in reach of the search has its idle count rounded up. -/
theorem exists_roundsUp {n r : ℕ} (hr : 0 < r) (hn : 0 < n) (hle : n ≤ 16384) :
    ∃ k, n ≤ r * k ∧ k ≤ 16384 ∧ RoundsUp n r k := by
  by_cases hone : r = 1
  · refine ⟨n, by rw [hone, one_mul], hle, .inl ?_⟩
    rw [hone, one_mul, Nat.mod_self]
  by_cases hnr : n ≤ r
  · obtain ⟨k, hk, hkn, hup⟩ := exists_roundsUp_of_le hn hnr
    exact ⟨k, hk, by omega, hup⟩
  by_cases hhalf : 2 * r ≤ n
  · obtain ⟨k, hk, hkn, hup⟩ := exists_roundsUp_of_lt (by omega) hhalf
    exact ⟨k, hk, by omega, hup⟩
  · obtain ⟨k, hk, hkn, hup⟩ := exists_roundsUp_of_half (n := n) (r := r) (by omega) (by omega)
    exact ⟨k, hk, by omega, hup⟩

/-- The quotient to the nearest integer is at least the exact one. -/
theorem RoundsUp.le_mul {n r k : ℕ} (hn : 0 < n) (h : RoundsUp n r k) :
    r * k ≤ n * ((r * k + n / 2) / n) := by
  have hdiv := Nat.div_add_mod (r * k) n
  have hmod := Nat.mod_lt (r * k) hn
  rcases h with hzero | hhalf
  · have hexact : r * k = n * (r * k / n) := by omega
    calc r * k = n * (r * k / n) := hexact
      _ ≤ n * ((r * k + n / 2) / n) := Nat.mul_le_mul_left n (Nat.div_le_div_right (by omega))
  · have hup : r * k / n + 1 ≤ (r * k + n / 2) / n := by
      rw [Nat.le_div_iff_mul_le hn, add_mul, one_mul, mul_comm (r * k / n)]
      omega
    calc r * k ≤ n * (r * k / n) + n := by omega
      _ = n * (r * k / n + 1) := by ring
      _ ≤ n * ((r * k + n / 2) / n) := Nat.mul_le_mul_left n hup

theorem RoundsUp.le_rate {n r k idle : ℕ} (hn : 0 < n) (hk : 0 < k) (h : RoundsUp n r k)
    (hidle : idle = (r * k + n / 2) / n) :
    r ≤ ((n + r) * idle + (idle + k) / 2) / (idle + k) := by
  have hle := h.le_mul hn
  rw [← hidle] at hle
  rw [Nat.le_div_iff_mul_le (by omega)]
  calc r * (idle + k) = r * idle + r * k := by ring
    _ ≤ r * idle + n * idle := by omega
    _ = (n + r) * idle := by ring
    _ ≤ (n + r) * idle + (idle + k) / 2 := Nat.le_add_right _ _

theorem divRoundClosestUll_eq {x d : U64} (hpos : 0 < d.toNat) (hd : d.toNat < 2 ^ 32)
    (hx : x.toNat + d.toNat / 2 < 2 ^ 64) : ∃ y, divRoundClosestUll x d = some y ∧
      y.toNat = (x.toNat + d.toNat / 2) / d.toNat := by
  have hlow : (d.setWidth 32).setWidth 64 = d := by
    apply BitVec.eq_of_toNat_eq
    rw [BitVec.toNat_setWidth, BitVec.toNat_setWidth, Nat.mod_eq_of_lt hd,
      Nat.mod_eq_of_lt (by omega)]
  have hne : d ≠ 0 := by
    rintro rfl
    exact absurd hpos (by decide)
  unfold divRoundClosestUll
  dsimp only
  rw [hlow, if_neg hne]
  refine ⟨_, rfl, ?_⟩
  have hhalf : (d / 2).toNat = d.toNat / 2 := BitVec.toNat_udiv
  rw [BitVec.toNat_udiv, BitVec.toNat_add, hhalf, Nat.mod_eq_of_lt hx]

theorem toNat_setWidth_mul {a : U32} {b : U64} (h : a.toNat * b.toNat < 2 ^ 64) :
    (a.setWidth 64 * b).toNat = a.toNat * b.toNat := by
  have ha := a.isLt
  rw [BitVec.toNat_mul, BitVec.toNat_setWidth, Nat.mod_eq_of_lt (by omega : a.toNat < 2 ^ 64),
    Nat.mod_eq_of_lt h]

/-- A limit in Mbit/s on a bus of so many MHz, as the search gets them. -/
structure Reachable (busFreqMhz : U32) (mbps : ℕ) (freq rate : U32) : Prop where
  bus : busFreqMhz.toNat ≤ 512
  pos : 0 < mbps
  below : mbps < 32 * busFreqMhz.toNat
  freq : freq.toNat = 32000 * busFreqMhz.toNat
  rate : rate.toNat = 1000 * mbps

theorem Reachable.rate_ne_zero {busFreqMhz freq rate : U32} {mbps : ℕ}
    (h : Reachable busFreqMhz mbps freq rate) : rate ≠ 0 := by
  rintro rfl
  have hzero := h.rate
  have hmbps := h.pos
  have hval : (0 : U32).toNat = 0 := rfl
  omega

/-- The rate that is left idle. -/
theorem Reachable.min {busFreqMhz freq rate : U32} {mbps : ℕ}
    (h : Reachable busFreqMhz mbps freq rate) :
    (freq - rate).toNat = 1000 * (32 * busFreqMhz.toNat - mbps) := by
  have hbelow := h.below
  rw [BitVec.toNat_sub_of_le (by rw [BitVec.le_def, h.freq, h.rate]; omega), h.freq, h.rate]
  omega

namespace FactorSearch

variable {busFreqMhz freq rate : U32} {mbps fuel : ℕ} {v v' w : FactorSearch}

/-- The idle count and the rate that a send count gives, where no word wraps. -/
theorem newRate_of_noWrap {sendCnt : U64} {idle : ℕ}
    (hidle : idle = nearest (rate.toNat * sendCnt.toNat) (freq - rate).toNat)
    (hmin : 0 < (freq - rate).toNat) (hpos : 0 < sendCnt.toNat)
    (hfirst : rate.toNat * sendCnt.toNat + (freq - rate).toNat / 2 < 2 ^ 64)
    (hsum : idle + sendCnt.toNat < 2 ^ 32)
    (hsecond : freq.toNat * idle + (idle + sendCnt.toNat) / 2 < 2 ^ 64) :
    ∃ r idleCnt, newRate freq rate sendCnt = some (r, idleCnt) ∧ idleCnt.toNat = idle ∧
      r.toNat = nearest (freq.toNat * idle) (idle + sendCnt.toNat) := by
  have hfreq := freq.isLt
  have hminlt := (freq - rate).isLt
  have hwide : ((freq - rate).setWidth 64).toNat = (freq - rate).toNat := by
    rw [BitVec.toNat_setWidth]
    exact Nat.mod_eq_of_lt (by omega)
  have hmul := toNat_setWidth_mul (a := rate) (b := sendCnt) (by omega)
  obtain ⟨idleCnt, hdiv, hdivval⟩ := divRoundClosestUll_eq (x := rate.setWidth 64 * sendCnt)
    (d := (freq - rate).setWidth 64) (by omega) (by omega) (by omega)
  rw [hmul, hwide] at hdivval
  have hval : idleCnt.toNat = idle := hdivval.trans hidle.symm
  have hword : (idleCnt + sendCnt).toNat = idle + sendCnt.toNat := by
    rw [BitVec.toNat_add, hval]
    exact Nat.mod_eq_of_lt (by omega)
  have hmul' := toNat_setWidth_mul (a := freq) (b := idleCnt) (by rw [hval]; omega)
  rw [hval] at hmul'
  obtain ⟨r, hr, hrval⟩ := divRoundClosestUll_eq (x := freq.setWidth 64 * idleCnt)
    (d := idleCnt + sendCnt) (by omega) (by omega) (by omega)
  rw [hmul', hword] at hrval
  have hrate : r.toNat = nearest (freq.toNat * idle) (idle + sendCnt.toNat) := hrval
  have hle : r.toNat ≤ freq.toNat := by
    rw [hrate]
    apply nearest_le (by omega)
    rw [mul_comm]
    exact Nat.mul_le_mul_right _ (Nat.le_add_right _ _)
  refine ⟨r.setWidth 32, idleCnt, ?_, hval, ?_⟩
  · unfold newRate
    dsimp only
    rw [hdiv]
    dsimp only [Option.bind_eq_bind, Option.bind_some]
    rw [hr]
    rfl
  · rw [BitVec.toNat_setWidth, Nat.mod_eq_of_lt (by omega)]
    exact hrate

/-- On a bus of at most 512 MHz no word wraps. -/
theorem newRate_eq (h : Reachable busFreqMhz mbps freq rate) {sendCnt : U64}
    (hpos : 0 < sendCnt.toNat) (hle : sendCnt.toNat ≤ 16384) :
    ∃ r idleCnt, newRate freq rate sendCnt = some (r, idleCnt) ∧
      idleCnt.toNat = nearest (rate.toNat * sendCnt.toNat) (freq - rate).toNat ∧
      r.toNat = nearest (freq.toNat * idleCnt.toNat) (idleCnt.toNat + sendCnt.toNat) := by
  have hbus := h.bus
  have hfreq := h.freq
  have hrate := h.rate
  have hmbps := h.pos
  have hbelow := h.below
  have hmin := h.min
  have hprod : rate.toNat * sendCnt.toNat ≤ 16384000 * 16384 :=
    Nat.mul_le_mul (by omega) hle
  obtain ⟨idle, hidle⟩ : ∃ idle, idle = nearest (rate.toNat * sendCnt.toNat) (freq - rate).toNat :=
    ⟨_, rfl⟩
  have hidlele : idle ≤ 300000000 := by
    rw [hidle]
    have hscaled := Nat.mul_le_mul_right 300000000 (show 1000 ≤ (freq - rate).toNat by omega)
    refine nearest_le (by omega) (hprod.trans (le_trans ?_ hscaled))
    norm_num
  have hprod' : freq.toNat * idle ≤ 16384000 * 300000000 := Nat.mul_le_mul (by omega) hidlele
  obtain ⟨r, idleCnt, hnew, hval, hr⟩ := newRate_of_noWrap hidle (by omega) hpos (by omega)
    (by omega) (by omega)
  rw [← hval] at hr
  exact ⟨r, idleCnt, hnew, hval.trans hidle, hr⟩

/-- The send count of an idle count, where no word wraps: what is taken off is in the quotient. -/
theorem jump_of_noWrap {idleCnt : U64} (hfreq : freq.toNat = (freq - rate).toNat + rate.toNat)
    (hrate : 0 < rate.toNat) (hidle : idleCnt.toNat + 1 < 2 ^ 64)
    (hprod : freq.toNat * (idleCnt.toNat + 1) + rate.toNat / 2 < 2 ^ 64) :
    ∃ x, divRoundClosestUll (freq.setWidth 64 * (idleCnt + 1)) (rate.setWidth 64) = some x ∧
      (x - (idleCnt + 1)).toNat =
        nearest ((freq - rate).toNat * (idleCnt.toNat + 1)) rate.toNat ∧
      x.toNat = nearest (freq.toNat * (idleCnt.toNat + 1)) rate.toNat ∧
      idleCnt.toNat + 1 ≤ x.toNat := by
  have hratelt := rate.isLt
  have hnext : (idleCnt + 1).toNat = idleCnt.toNat + 1 := by
    rw [BitVec.toNat_add]
    exact Nat.mod_eq_of_lt hidle
  have hmul := toNat_setWidth_mul (a := freq) (b := idleCnt + 1) (by rw [hnext]; omega)
  rw [hnext] at hmul
  have hwide : (rate.setWidth 64).toNat = rate.toNat := by
    rw [BitVec.toNat_setWidth]
    exact Nat.mod_eq_of_lt (by omega)
  obtain ⟨x, hx, hxval⟩ := divRoundClosestUll_eq (x := freq.setWidth 64 * (idleCnt + 1))
    (d := rate.setWidth 64) (by omega) (by omega) (by omega)
  rw [hmul, hwide] at hxval
  have hquot : x.toNat = nearest (freq.toNat * (idleCnt.toNat + 1)) rate.toNat := hxval
  have hsplit : freq.toNat * (idleCnt.toNat + 1) =
      (freq - rate).toNat * (idleCnt.toNat + 1) + rate.toNat * (idleCnt.toNat + 1) := by
    rw [hfreq, add_mul]
  have hsum : x.toNat =
      nearest ((freq - rate).toNat * (idleCnt.toNat + 1)) rate.toNat + (idleCnt.toNat + 1) := by
    rw [← nearest_add_mul _ hrate, ← hsplit]
    exact hquot
  refine ⟨x, hx, ?_, hquot, by omega⟩
  rw [BitVec.toNat_sub_of_le (by rw [BitVec.le_def]; omega)]
  omega

/-- The pair of a send count with an idle count that is rounded up. -/
theorem newRate_of_roundsUp (h : Reachable busFreqMhz mbps freq rate) {sendCnt : U64}
    (hpos : 0 < sendCnt.toNat) (hle : sendCnt.toNat ≤ 16384)
    (hup : RoundsUp (32 * busFreqMhz.toNat - mbps) mbps sendCnt.toNat) :
    ∃ r idleCnt, newRate freq rate sendCnt = some (r, idleCnt) ∧ rate ≤ r := by
  have hmin := h.min
  have hbelow := h.below
  obtain ⟨r, idleCnt, hnew, hidle, hrval⟩ := newRate_eq h hpos hle
  have hup' : RoundsUp (freq - rate).toNat rate.toNat sendCnt.toNat := by
    unfold RoundsUp at hup ⊢
    rw [hmin, h.rate, mul_assoc, Nat.mul_mod_mul_left]
    omega
  have hbase : freq.toNat = (freq - rate).toNat + rate.toNat := by
    rw [hmin, h.freq, h.rate]
    omega
  refine ⟨r, idleCnt, hnew, ?_⟩
  rw [BitVec.le_def, hrval, hbase]
  exact hup'.le_rate (by omega) hpos hidle

/-- A pair is recorded and the limit is met. -/
structure Found (rate : U32) (v : FactorSearch) : Prop where
  inv : Inv rate v
  met : rate ≤ v.bestRate

theorem Found.record (h : Found rate v) (r : U32) (idleCnt : U64) :
    Found rate (v.record rate r idleCnt) := by
  refine ⟨h.inv.record r idleCnt, ?_⟩
  unfold FactorSearch.record
  dsimp only
  by_cases hle : rate ≤ r
  · rw [if_pos hle]
    split
    · exact hle
    · exact h.met
  · rw [if_neg hle, if_neg (BitVec.not_lt.mpr h.inv.best)]
    exact h.met

theorem Found.next (h : Found rate v) {idleCnt : U64}
    (hnext : FactorSearch.next freq rate v idleCnt = some v') : Found rate v' := by
  refine ⟨h.inv.next hnext, ?_⟩
  unfold FactorSearch.next at hnext
  split at hnext
  · obtain rfl := Option.some.inj hnext
    exact h.met
  · obtain ⟨sendCnt, -, rfl⟩ := Option.map_eq_some_iff.mp hnext
    exact h.met

/-- The search never loses what it has found. -/
theorem Found.loop (h : Found rate v) (hloop : FactorSearch.loop freq rate fuel v = some v') :
    Found rate v' := by
  induction fuel generalizing v with
  | zero => cases hloop
  | succ fuel ih =>
    unfold FactorSearch.loop at hloop
    split at hloop
    · obtain ⟨⟨r, idleCnt⟩, -, hloop⟩ := Option.bind_eq_some_iff.mp hloop
      dsimp only at hloop
      split at hloop
      · obtain rfl := Option.some.inj hloop
        exact h.record r idleCnt
      · obtain ⟨w, hnext, hloop⟩ := Option.bind_eq_some_iff.mp hloop
        exact ih ((h.record r idleCnt).next hnext) hloop
    · obtain rfl := Option.some.inj hloop
      exact h

/-- Nothing is recorded yet, and the next send count is `n`. -/
structure Unfound (n : ℕ) (v : FactorSearch) : Prop where
  delta : v.delta = BitVec.allOnes 32
  prevDelta : v.prevDelta = BitVec.allOnes 32
  bestDelta : v.bestDelta = BitVec.allOnes 32
  best : v.bestRate = 0 ∧ v.bestSendCnt = 0 ∧ v.bestIdleCnt = 0
  sendCnt : v.sendCnt.toNat = n

theorem Unfound.inv {n : ℕ} (h : Unfound n v) : Inv rate v where
  best := by
    rw [h.bestDelta, h.delta]
    exact BitVec.le_refl _
  above := .inl h.best

theorem Unfound.found {n : ℕ} {r : U32} {idleCnt : U64} (h : Unfound n v) (hrate : rate ≠ 0)
    (hle : rate ≤ r) : Found rate (v.record rate r idleCnt) := by
  refine ⟨h.inv.record r idleCnt, ?_⟩
  have hlt : r - rate < v.bestDelta := by
    rw [h.bestDelta, BitVec.lt_def, BitVec.toNat_sub_of_le hle, BitVec.toNat_allOnes]
    have hpos : 0 < rate.toNat := by
      by_contra hzero
      exact hrate (BitVec.eq_of_toNat_eq (by simpa using hzero))
    have hr := r.isLt
    omega
  unfold FactorSearch.record
  dsimp only
  rw [if_pos hle, if_pos hlt]
  exact hle

theorem Unfound.next {n : ℕ} {r : U32} {idleCnt : U64} (h : Unfound n v) (hn : n < 2 ^ 63)
    (hlt : ¬ rate ≤ r) :
    v.exact (v.record rate r idleCnt) = false ∧
      ∃ w, FactorSearch.next freq rate (v.record rate r idleCnt) idleCnt = some w ∧
        Unfound (n + 1) w := by
  have hsame : v.record rate r idleCnt = v := by
    unfold FactorSearch.record
    dsimp only
    rw [if_neg hlt, if_neg (by rw [h.delta, h.bestDelta]; exact BitVec.lt_irrefl _)]
  rw [hsame]
  refine ⟨?_, { v with prevDelta := v.delta, sendCnt := v.sendCnt + 1 }, ?_, ?_⟩
  · unfold FactorSearch.exact
    rw [h.delta, h.bestDelta]
    decide
  · unfold FactorSearch.next
    rw [if_pos (by rw [h.delta, h.prevDelta]; exact BitVec.le_refl _)]
  · refine ⟨h.delta, h.delta, h.bestDelta, h.best, ?_⟩
    dsimp only
    rw [BitVec.toNat_add, h.sendCnt]
    exact Nat.mod_eq_of_lt (by rw [show (1 : U64).toNat = 1 from rfl]; omega)

/-- The search comes by a send count whose idle count is rounded up, and stops there at last. -/
theorem Unfound.loop (hreach : Reachable busFreqMhz mbps freq rate) {n target : ℕ}
    (hpos : 0 < n) (hle : n ≤ target) (htarget : target ≤ 16384)
    (hup : RoundsUp (32 * busFreqMhz.toNat - mbps) mbps target) (h : Unfound n v)
    (hloop : FactorSearch.loop freq rate fuel v = some v') : Found rate v' := by
  have hrate : rate ≠ 0 := hreach.rate_ne_zero
  induction fuel generalizing v n with
  | zero => cases hloop
  | succ fuel ih =>
    have hin : v.sendCnt ≤ BitVec.ofNat 64 cpdmaMaxRlimCnt := by
      rw [BitVec.le_def, h.sendCnt]
      exact hle.trans htarget
    unfold FactorSearch.loop at hloop
    rw [if_pos hin] at hloop
    obtain ⟨⟨r, idleCnt⟩, hnew, hloop⟩ := Option.bind_eq_some_iff.mp hloop
    dsimp only at hloop
    by_cases hmet : rate ≤ r
    · have hfound : Found rate (v.record rate r idleCnt) := h.found hrate hmet
      split at hloop
      · obtain rfl := Option.some.inj hloop
        exact hfound
      · obtain ⟨w, hnext, hloop⟩ := Option.bind_eq_some_iff.mp hloop
        exact (hfound.next hnext).loop hloop
    · have hne : n ≠ target := by
        rintro rfl
        rw [← h.sendCnt] at hpos htarget hup
        obtain ⟨r', idleCnt', hnew', hmet'⟩ := newRate_of_roundsUp hreach hpos htarget hup
        rw [hnew'] at hnew
        obtain ⟨rfl, -⟩ := Prod.mk.inj (Option.some.inj hnew)
        exact hmet hmet'
      have hpassed : v.exact (v.record rate r idleCnt) = false ∧
          ∃ w, FactorSearch.next freq rate (v.record rate r idleCnt) idleCnt = some w ∧
            Unfound (n + 1) w := h.next (by omega) hmet
      obtain ⟨hexact, w, hnext, hw⟩ := hpassed
      rw [hexact, hnext] at hloop
      exact ih (by omega) (by omega) hw hloop

end FactorSearch

theorem toNat_divRoundUpU32 {n d : U32} (hd : 0 < d.toNat) (h : n.toNat + d.toNat < 2 ^ 32) :
    (divRoundUpU32 n d).toNat = (n.toNat + d.toNat - 1) / d.toNat := by
  have hone : (1 : U32).toNat = 1 := rfl
  have hsum : (n + d).toNat = n.toNat + d.toNat := by
    rw [BitVec.toNat_add]
    exact Nat.mod_eq_of_lt h
  unfold divRoundUpU32
  rw [BitVec.toNat_udiv, BitVec.toNat_sub_of_le (by rw [BitVec.le_def]; omega), hsum, hone]

theorem toNat_firstSendCnt {freq rate : U32} (hpos : 0 < rate.toNat)
    (h : rate.toNat < freq.toNat) : ((divRoundUpU32 (freq - rate) rate).setWidth 64).toNat =
      ((freq - rate).toNat + rate.toNat - 1) / rate.toNat := by
  have hfreq := freq.isLt
  have hmin : (freq - rate).toNat = freq.toNat - rate.toNat :=
    BitVec.toNat_sub_of_le (by rw [BitVec.le_def]; omega)
  rw [BitVec.toNat_setWidth, toNat_divRoundUpU32 hpos (by omega)]
  refine Nat.mod_eq_of_lt (lt_of_le_of_lt (Nat.div_le_self _ _) ?_)
  omega

theorem Reachable.firstSendCnt {busFreqMhz freq rate : U32} {mbps : ℕ}
    (h : Reachable busFreqMhz mbps freq rate) :
    ((divRoundUpU32 (freq - rate) rate).setWidth 64).toNat =
      ((freq - rate).toNat + rate.toNat - 1) / rate.toNat := by
  have hbelow := h.below
  have hfreq := h.freq
  have hrate := h.rate
  have hmbps := h.pos
  exact toNat_firstSendCnt (by omega) (by omega)

/-- On a bus of at most 512 MHz, a limit below the rate of the bus is met by what the search
finds for it. -/
theorem searchFactors_found {busFreqMhz freq : U32} {mbps fuel : ℕ} {chan chan' : CpdmaChan}
    (h : Reachable busFreqMhz mbps freq chan.rate)
    (hsearch : searchFactors fuel freq chan = some chan') : chan.rate ≤ chan'.rate := by
  have hmbps := h.pos
  have hbelow := h.below
  have hbus := h.bus
  have hfreq := h.freq
  have hrate := h.rate
  unfold searchFactors at hsearch
  obtain ⟨v, hloop, rfl⟩ := Option.map_eq_some_iff.mp hsearch
  have hmin : (freq - chan.rate).toNat = freq.toNat - chan.rate.toNat :=
    BitVec.toNat_sub_of_le (by rw [BitVec.le_def]; omega)
  obtain ⟨target, htarget, hle, hup⟩ :=
    exists_roundsUp (n := 32 * busFreqMhz.toNat - mbps) (r := mbps) hmbps (by omega) (by omega)
  have hfirst : FactorSearch.Unfound
      (((freq - chan.rate).toNat + chan.rate.toNat - 1) / chan.rate.toNat)
      { sendCnt := (divRoundUpU32 (freq - chan.rate) chan.rate).setWidth 64 } :=
    ⟨rfl, rfl, rfl, ⟨rfl, rfl, rfl⟩, h.firstSendCnt⟩
  have hscaled : (freq - chan.rate).toNat ≤ chan.rate.toNat * target := by
    rw [hmin, hfreq, hrate, mul_assoc]
    omega
  refine (hfirst.loop h ?_ ?_ hle hup hloop).met
  · exact Nat.div_pos (by omega) (by omega)
  · rw [← Nat.lt_succ_iff, Nat.div_lt_iff_lt_mul (by omega), Nat.succ_mul, mul_comm target]
    omega

end CpswDriver.Cpdma
