import CpswDriver.Cpdma.Factors

/-!
The search for the counts of a rate limit ends for every limit below the rate of
the bus, and no word of it wraps on the way. A turn that jumps ahead to the next
idle count may stay at its send count, but forgets the delta before it, so that
the turn after it goes on. A limit of more than half of the rate of the bus is
met exactly before the send count is beyond what is left idle.
-/

namespace CpswDriver.Cpdma

open Rounding Relation

namespace FactorSearch

variable {freq rate r : U32} {v w : FactorSearch} {idleCnt : U64} {fuel : ℕ}

/-- A limit that is below the rate of the bus. -/
structure Below (freq rate : U32) : Prop where
  pos : 0 < rate.toNat
  lt : rate.toNat < freq.toNat

/-- Where a turn finds its candidate no word wraps and no divisor is zero. -/
structure NoWrap (freq rate : U32) (sendCnt idleCnt : U64) : Prop where
  minSendCnt : freq - rate ≠ 0
  dividend : rate.toNat * sendCnt.toNat + (freq - rate).toNat / 2 < 2 ^ 64
  divisor : 0 < idleCnt.toNat + sendCnt.toNat ∧ idleCnt.toNat + sendCnt.toNat < 2 ^ 32
  dividend' : freq.toNat * idleCnt.toNat + (idleCnt.toNat + sendCnt.toNat) / 2 < 2 ^ 64

/-- Neither where it jumps to the next idle count, whose send count is not negative. -/
structure NoWrapJump (freq rate : U32) (idleCnt : U64) : Prop where
  divisor : rate ≠ 0
  next : idleCnt.toNat + 1 < 2 ^ 64
  dividend : freq.toNat * (idleCnt.toNat + 1) + rate.toNat / 2 < 2 ^ 64
  difference : idleCnt.toNat + 1 ≤ nearest (freq.toNat * (idleCnt.toNat + 1)) rate.toNat

/-- The body of the loop runs without a wrap of a word and a division by zero. -/
def SafeTurn (freq rate : U32) (v : FactorSearch) : Prop :=
  ∃ r idleCnt, newRate freq rate v.sendCnt = some (r, idleCnt) ∧
    NoWrap freq rate v.sendCnt idleCnt ∧ v.sendCnt.toNat + 1 < 2 ^ 64 ∧
    (v.exact (v.record rate r idleCnt) = false → NoWrapJump freq rate idleCnt ∧
      ∃ w, next freq rate (v.record rate r idleCnt) idleCnt = some w)

def applied (v : FactorSearch) (chan : CpdmaChan) : CpdmaChan :=
  { chan with
    rate := v.bestRate
    rateFactor := v.bestSendCnt ||| v.bestIdleCnt.shiftLeft 16 }

/-- The loop runs its body on these variables, without a wrap and a division by zero, and ends
with what the body recorded or goes on with the variables after the turn. -/
structure BodyRuns (freq rate : U32) (v : FactorSearch) : Prop where
  inRange : v.sendCnt ≤ BitVec.ofNat 64 cpdmaMaxRlimCnt
  safe : SafeTurn freq rate v
  goes : (∃ r idleCnt, newRate freq rate v.sendCnt = some (r, idleCnt) ∧
      v.exact (v.record rate r idleCnt) = true ∧
      ∀ fuel, loop freq rate (fuel + 1) v = some (v.record rate r idleCnt)) ∨
    ∃ w, Turn freq rate v w ∧ ∀ fuel, loop freq rate (fuel + 1) v = loop freq rate fuel w

/-- The variables at the head of the loop: there is something to send, no more than
is left idle if that is less than the limit, and the limit is not met yet. -/
structure Going (freq rate : U32) (v : FactorSearch) : Prop where
  pos : 0 < v.sendCnt.toNat
  le : rate.toNat ≤ (freq - rate).toNat ∨ v.sendCnt.toNat ≤ (freq - rate).toNat
  unmet : v.bestDelta ≠ 0

def turnsLeft (v : FactorSearch) : ℕ :=
  2 * (cpdmaMaxRlimCnt + 1 - v.sendCnt.toNat) + if v.prevDelta = BitVec.allOnes 32 then 0 else 1

theorem Below.min (h : Below freq rate) : freq.toNat = (freq - rate).toNat + rate.toNat := by
  have hlt := h.lt
  rw [BitVec.toNat_sub_of_le (by rw [BitVec.le_def]; omega)]
  omega

theorem Below.min_pos (h : Below freq rate) : 0 < (freq - rate).toNat := by
  have hlt := h.lt
  have hmin := h.min
  omega

/-- No product of the search comes near the square of a word. -/
theorem Below.product_le (h : Below freq rate) {k : ℕ}
    (hk : k ≤ rate.toNat ∨ k ≤ cpdmaMaxRlimCnt + 1) : freq.toNat * k + 2 ^ 32 ≤ 2 ^ 64 := by
  have hmax : cpdmaMaxRlimCnt = 16384 := rfl
  have hlt := h.lt
  have hfreq := freq.isLt
  have hprod : freq.toNat * k ≤ (2 ^ 32 - 1) * (2 ^ 32 - 2) := Nat.mul_le_mul (by omega) (by omega)
  omega

/-- The idle count is at most the limit, or at most the send count. -/
theorem Going.idle_le (h : Below freq rate) (hgo : Going freq rate v) :
    (rate.toNat ≤ (freq - rate).toNat ∧
        nearest (rate.toNat * v.sendCnt.toNat) (freq - rate).toNat ≤ v.sendCnt.toNat) ∨
      (v.sendCnt.toNat ≤ (freq - rate).toNat ∧
        nearest (rate.toNat * v.sendCnt.toNat) (freq - rate).toNat ≤ rate.toNat) := by
  rcases hgo.le with hhalf | hle
  · exact .inl ⟨hhalf, nearest_mul_le h.min_pos hhalf _⟩
  · refine .inr ⟨hle, nearest_le h.min_pos ?_⟩
    rw [mul_comm]
    exact Nat.mul_le_mul_right _ hle

theorem Going.candidate (h : Below freq rate) (hgo : Going freq rate v)
    (hin : v.sendCnt.toNat ≤ cpdmaMaxRlimCnt) :
    ∃ r idleCnt, newRate freq rate v.sendCnt = some (r, idleCnt) ∧
      NoWrap freq rate v.sendCnt idleCnt ∧
      idleCnt.toNat = nearest (rate.toNat * v.sendCnt.toNat) (freq - rate).toNat ∧
      r.toNat = nearest (freq.toNat * idleCnt.toNat) (idleCnt.toNat + v.sendCnt.toNat) := by
  have hmax : cpdmaMaxRlimCnt = 16384 := rfl
  have hmin := h.min
  have hminpos := h.min_pos
  have hpos := hgo.pos
  have hfreq := freq.isLt
  obtain ⟨idle, hidle⟩ :
      ∃ idle, idle = nearest (rate.toNat * v.sendCnt.toNat) (freq - rate).toNat := ⟨_, rfl⟩
  have hbound := hgo.idle_le h
  rw [← hidle] at hbound
  have hfirst : rate.toNat * v.sendCnt.toNat + (freq - rate).toNat / 2 < 2 ^ 64 := by
    have hprod : rate.toNat * v.sendCnt.toNat ≤ 2 ^ 32 * 16384 :=
      Nat.mul_le_mul (by omega) (by omega)
    omega
  have hproduct : freq.toNat * idle + 2 ^ 32 ≤ 2 ^ 64 := h.product_le (by omega)
  have hsum : idle + v.sendCnt.toNat < 2 ^ 32 := by omega
  obtain ⟨r, idleCnt, hnew, hval, hr⟩ := newRate_of_noWrap hidle hminpos hpos hfirst hsum
    (by omega)
  have hne : freq - rate ≠ 0 := by
    intro hzero
    rw [hzero] at hminpos
    exact absurd hminpos (by decide)
  refine ⟨r, idleCnt, hnew, ⟨hne, hfirst, ?_, ?_⟩, hval.trans hidle, ?_⟩
  · omega
  · rw [hval]
    omega
  · rw [hval]
    exact hr

/-- A limit that is met exactly ends the search. -/
theorem exact_of_met (hunmet : v.bestDelta ≠ 0) (idleCnt : U64) :
    v.exact (v.record rate rate idleCnt) = true := by
  have hpos : 0#32 < v.bestDelta := by
    rw [BitVec.lt_def]
    exact Nat.pos_of_ne_zero fun hzero => hunmet (BitVec.eq_of_toNat_eq hzero)
  have hdelta : (v.record rate rate idleCnt).delta = 0#32 := by
    unfold FactorSearch.record
    dsimp only
    rw [if_pos (BitVec.le_refl rate), BitVec.sub_self, if_pos hpos]
  unfold FactorSearch.exact
  rw [hdelta, Bool.and_eq_true]
  exact ⟨decide_eq_true hpos, rfl⟩

/-- A candidate that does not meet the limit exactly is not recorded at no distance. -/
theorem bestDelta_record_ne_zero (hunmet : v.bestDelta ≠ 0)
    (hexact : v.exact (v.record rate r idleCnt) = false) :
    (v.record rate r idleCnt).bestDelta ≠ 0 := by
  unfold FactorSearch.exact at hexact
  unfold FactorSearch.record at hexact ⊢
  dsimp only at hexact ⊢
  generalize (if rate ≤ r then r - rate else v.delta) = delta at hexact ⊢
  by_cases hlt : delta < v.bestDelta
  · rw [if_pos hlt] at hexact ⊢
    dsimp only at hexact ⊢
    rw [decide_eq_true hlt, Bool.true_and] at hexact
    exact of_decide_eq_false hexact
  · rw [if_neg hlt]
    exact hunmet

theorem prevDelta_record (v : FactorSearch) (rate r : U32) (idleCnt : U64) :
    (v.record rate r idleCnt).prevDelta = v.prevDelta := by
  unfold FactorSearch.record
  dsimp only
  generalize (if rate ≤ r then r - rate else v.delta) = delta
  split <;> rfl

/-- As long as the limit is not met, the next idle count is still at most the limit. -/
theorem Going.idle_lt (h : Below freq rate) (hgo : Going freq rate v)
    (hin : v.sendCnt.toNat ≤ cpdmaMaxRlimCnt)
    (hidle : idleCnt.toNat = nearest (rate.toNat * v.sendCnt.toNat) (freq - rate).toNat)
    (hr : r.toNat = nearest (freq.toNat * idleCnt.toNat) (idleCnt.toNat + v.sendCnt.toNat))
    (hexact : v.exact (v.record rate r idleCnt) = false) :
    (rate.toNat ≤ (freq - rate).toNat ∧ idleCnt.toNat + 1 ≤ cpdmaMaxRlimCnt + 1) ∨
      (v.sendCnt.toNat < (freq - rate).toNat ∧ idleCnt.toNat + 1 ≤ rate.toNat) := by
  have hmin := h.min
  have hminpos := h.min_pos
  by_cases hhalf : rate.toNat ≤ (freq - rate).toNat
  · have hle := nearest_mul_le hminpos hhalf v.sendCnt.toNat
    exact .inl ⟨hhalf, by omega⟩
  · have hle := hgo.le.resolve_left hhalf
    have hne : v.sendCnt.toNat ≠ (freq - rate).toNat := by
      intro heq
      have hall : idleCnt.toNat = rate.toNat := by
        rw [hidle, heq, mul_comm]
        exact nearest_mul hminpos _
      have hmet : r = rate := by
        apply BitVec.eq_of_toNat_eq
        rw [hr, hall, heq, show rate.toNat + (freq - rate).toNat = freq.toNat by omega]
        exact nearest_mul (by omega) _
      rw [hmet, exact_of_met hgo.unmet] at hexact
      cases hexact
    have hsend : v.sendCnt.toNat < (freq - rate).toNat := Nat.lt_of_le_of_ne hle hne
    have hlt : idleCnt.toNat < rate.toNat := by
      rw [hidle]
      exact nearest_mul_lt hminpos (by omega) hsend
    exact .inr ⟨hsend, hlt⟩

theorem noWrapJump (h : Below freq rate)
    (hidle : idleCnt.toNat + 1 ≤ cpdmaMaxRlimCnt + 1 ∨ idleCnt.toNat + 1 ≤ rate.toNat) :
    NoWrapJump freq rate idleCnt := by
  have hpos := h.pos
  have hratelt := rate.isLt
  have hmax : cpdmaMaxRlimCnt = 16384 := rfl
  have hproduct : freq.toNat * (idleCnt.toNat + 1) + 2 ^ 32 ≤ 2 ^ 64 := h.product_le hidle.symm
  have hne : rate ≠ 0 := by
    rintro rfl
    exact absurd hpos (by decide)
  refine ⟨hne, by omega, by omega, ?_⟩
  rw [le_nearest_iff hpos]
  have hle : rate.toNat * (idleCnt.toNat + 1) ≤ freq.toNat * (idleCnt.toNat + 1) :=
    Nat.mul_le_mul_right _ (Nat.le_of_lt h.lt)
  omega

/-- A turn that does not end the loop goes on, and leaves fewer turns. -/
theorem Going.next (h : Below freq rate) (hgo : Going freq rate v)
    (hin : v.sendCnt.toNat ≤ cpdmaMaxRlimCnt)
    (hidle : idleCnt.toNat = nearest (rate.toNat * v.sendCnt.toNat) (freq - rate).toNat)
    (hr : r.toNat = nearest (freq.toNat * idleCnt.toNat) (idleCnt.toNat + v.sendCnt.toNat))
    (hexact : v.exact (v.record rate r idleCnt) = false) :
    NoWrapJump freq rate idleCnt ∧
      ∃ w, FactorSearch.next freq rate (v.record rate r idleCnt) idleCnt = some w ∧
        Going freq rate w ∧ w.turnsLeft < v.turnsLeft := by
  have hmax : cpdmaMaxRlimCnt = 16384 := rfl
  have hpos := hgo.pos
  have hminpos := h.min_pos
  have hbest := bestDelta_record_ne_zero hgo.unmet hexact
  have hnext := hgo.idle_lt h hin hidle hr hexact
  have hsafe : NoWrapJump freq rate idleCnt :=
    noWrapJump h (hnext.imp And.right And.right)
  refine ⟨hsafe, ?_⟩
  unfold FactorSearch.next
  split <;> rename_i hdelta
  · have hsend : ((v.record rate r idleCnt).sendCnt + 1).toNat = v.sendCnt.toNat + 1 := by
      rw [sendCnt_record, BitVec.toNat_add]
      exact Nat.mod_eq_of_lt (by rw [show (1 : U64).toNat = 1 from rfl]; omega)
    refine ⟨_, rfl, ⟨?_, ?_, hbest⟩, ?_⟩
    · dsimp only
      omega
    · dsimp only
      rw [hsend]
      rcases hnext with ⟨hhalf, -⟩ | ⟨hlt, -⟩
      · exact .inl hhalf
      · exact .inr hlt
    · unfold turnsLeft
      dsimp only
      rw [hsend]
      split <;> split <;> omega
  · obtain ⟨x, hx, hsend, -⟩ := jump_of_noWrap h.min h.pos hsafe.next hsafe.dividend
    have hback : v.sendCnt.toNat ≤ (x - (idleCnt + 1)).toNat := by
      rw [hsend, hidle]
      exact le_nearest_back h.pos hminpos _
    have hprev : v.prevDelta ≠ BitVec.allOnes 32 := by
      intro hall
      rw [prevDelta_record, hall] at hdelta
      exact hdelta (by
        rw [BitVec.le_def, BitVec.toNat_allOnes]
        exact Nat.le_pred_of_lt (v.record rate r idleCnt).delta.isLt)
    dsimp only
    rw [hx]
    refine ⟨_, rfl, ⟨?_, ?_, hbest⟩, ?_⟩
    · exact Nat.lt_of_lt_of_le hpos hback
    · rcases hnext with ⟨hhalf, -⟩ | ⟨-, hle⟩
      · exact .inl hhalf
      · refine .inr ?_
        dsimp only
        rw [hsend]
        apply nearest_le h.pos
        rw [mul_comm]
        exact Nat.mul_le_mul_right _ hle
    · unfold turnsLeft
      dsimp only
      rw [if_pos rfl, if_neg hprev]
      omega

theorem le_maxRlimCnt_iff : v.sendCnt ≤ BitVec.ofNat 64 cpdmaMaxRlimCnt ↔
    v.sendCnt.toNat ≤ cpdmaMaxRlimCnt := by
  rw [BitVec.le_def, toNat_maxRlimCnt]

theorem Going.safeTurn (h : Below freq rate) (hgo : Going freq rate v)
    (hin : v.sendCnt ≤ BitVec.ofNat 64 cpdmaMaxRlimCnt) : SafeTurn freq rate v := by
  have hmax : cpdmaMaxRlimCnt = 16384 := rfl
  rw [le_maxRlimCnt_iff] at hin
  obtain ⟨r, idleCnt, hnew, hsafe, hidle, hr⟩ := hgo.candidate h hin
  refine ⟨r, idleCnt, hnew, hsafe, by omega, fun hexact => ?_⟩
  obtain ⟨hjump, w, hnext, -⟩ := hgo.next h hin hidle hr hexact
  exact ⟨hjump, w, hnext⟩

theorem Going.bodyRuns (h : Below freq rate) (hgo : Going freq rate v)
    (hin : v.sendCnt ≤ BitVec.ofNat 64 cpdmaMaxRlimCnt) : BodyRuns freq rate v := by
  refine ⟨hin, hgo.safeTurn h hin, ?_⟩
  obtain ⟨r, idleCnt, hnew, -, hidle, hr⟩ := hgo.candidate h (le_maxRlimCnt_iff.mp hin)
  cases hexact : v.exact (v.record rate r idleCnt) with
  | true => exact .inl ⟨r, idleCnt, hnew, hexact, loop_of_exact hin hnew hexact⟩
  | false =>
    obtain ⟨-, w, hnext, -⟩ := hgo.next h (le_maxRlimCnt_iff.mp hin) hidle hr hexact
    have hturn : Turn freq rate v w := ⟨hin, r, idleCnt, hnew, hexact, hnext⟩
    exact .inr ⟨w, hturn, loop_of_turn hturn⟩

theorem loop_of_turns (h : ReflTransGen (Turn freq rate) v w) :
    ∃ turns, ∀ fuel, FactorSearch.loop freq rate (fuel + turns) v =
      FactorSearch.loop freq rate fuel w := by
  induction h with
  | refl => exact ⟨0, fun _ => rfl⟩
  | tail _ hturn ih =>
    obtain ⟨turns, hcomes⟩ := ih
    refine ⟨turns + 1, fun fuel => ?_⟩
    rw [← loop_of_turn hturn, ← hcomes, Nat.add_right_comm, Nat.add_assoc]

theorem Going.turn (h : Below freq rate) (hgo : Going freq rate v) (hturn : Turn freq rate v w) :
    Going freq rate w ∧ w.turnsLeft < v.turnsLeft := by
  obtain ⟨hin, r, idleCnt, hnew, hexact, hnext⟩ := hturn
  rw [le_maxRlimCnt_iff] at hin
  obtain ⟨r', idleCnt', hnew', -, hidle, hr⟩ := hgo.candidate h hin
  rw [hnew] at hnew'
  obtain ⟨rfl, rfl⟩ := Prod.mk.inj (Option.some.inj hnew')
  obtain ⟨-, w', hnext', hgo', hlt⟩ := hgo.next h hin hidle hr hexact
  rw [hnext] at hnext'
  obtain rfl := Option.some.inj hnext'
  exact ⟨hgo', hlt⟩

theorem Going.turns (h : Below freq rate) (hgo : Going freq rate v)
    (hreach : ReflTransGen (Turn freq rate) v w) : Going freq rate w := by
  induction hreach with
  | refl => exact hgo
  | tail _ hturn ih => exact (ih.turn h hturn).1

/-- The loop ends, after no more turns than are left. -/
theorem Going.loop (h : Below freq rate) (hgo : Going freq rate v) :
    ∃ v', ∀ fuel, v.turnsLeft < fuel → FactorSearch.loop freq rate fuel v = some v' := by
  induction hleft : v.turnsLeft using Nat.strong_induction_on generalizing v with
  | _ n ih =>
    by_cases hin : v.sendCnt ≤ BitVec.ofNat 64 cpdmaMaxRlimCnt
    · obtain ⟨r, idleCnt, hnew, -, hidle, hr⟩ := hgo.candidate h (le_maxRlimCnt_iff.mp hin)
      cases hexact : v.exact (v.record rate r idleCnt) with
      | true =>
        refine ⟨v.record rate r idleCnt, fun fuel hfuel => ?_⟩
        obtain ⟨fuel, rfl⟩ : ∃ k, fuel = k + 1 := ⟨fuel - 1, by omega⟩
        exact loop_of_exact hin hnew hexact fuel
      | false =>
        obtain ⟨-, w, hnext, hw, hlt⟩ := hgo.next h (le_maxRlimCnt_iff.mp hin) hidle hr hexact
        obtain ⟨v', hv'⟩ := ih w.turnsLeft (by omega) hw rfl
        refine ⟨v', fun fuel hfuel => ?_⟩
        obtain ⟨fuel, rfl⟩ : ∃ k, fuel = k + 1 := ⟨fuel - 1, by omega⟩
        rw [loop_of_turn ⟨hin, r, idleCnt, hnew, hexact, hnext⟩]
        exact hv' fuel (by omega)
    · refine ⟨v, fun fuel hfuel => ?_⟩
      obtain ⟨fuel, rfl⟩ : ∃ k, fuel = k + 1 := ⟨fuel - 1, by omega⟩
      exact loop_of_out hin fuel

theorem going_start (h : Below freq rate) : Going freq rate (start freq rate) := by
  have hpos := h.pos
  have hmin := h.min
  have hminpos := h.min_pos
  have hfirst : (start freq rate).sendCnt.toNat = _ := toNat_firstSendCnt hpos h.lt
  refine ⟨?_, ?_, ?_⟩
  · rw [hfirst]
    exact Nat.div_pos (by omega) hpos
  · by_cases hhalf : rate.toNat ≤ (freq - rate).toNat
    · exact .inl hhalf
    · refine .inr ?_
      rw [hfirst]
      have hone : ((freq - rate).toNat + rate.toNat - 1) / rate.toNat < 2 :=
        (Nat.div_lt_iff_lt_mul hpos).mpr (by omega)
      omega
  · change BitVec.allOnes 32 ≠ 0
    decide

end FactorSearch

variable {busFreqMhz rate : U32}

theorem below_busRate (hbus : 32000 * busFreqMhz.toNat < 2 ^ 32) (hpos : 0 < rate.toNat)
    (hlt : rate.toNat < 32000 * busFreqMhz.toNat) :
    FactorSearch.Below (busFreqMhz * 1000 * 32) rate := by
  refine ⟨hpos, ?_⟩
  rw [(toNat_busRate hbus).1]
  exact hlt

/-- The first send count is in range just for the limits that are not below the least rate. -/
theorem start_in_range_iff (hbus : 32000 * busFreqMhz.toNat < 2 ^ 32) (hpos : 0 < rate.toNat)
    (hlt : rate.toNat < 32000 * busFreqMhz.toNat) :
    (FactorSearch.start (busFreqMhz * 1000 * 32) rate).sendCnt ≤ BitVec.ofNat 64 cpdmaMaxRlimCnt ↔
      cpdmaChanGetMinRate busFreqMhz ≤ rate := by
  have hbelow := below_busRate hbus hpos hlt
  have hmax : cpdmaMaxRlimCnt = 16384 := rfl
  have hmin := hbelow.min
  have hfreq := (toNat_busRate hbus).1
  have hfirst : (FactorSearch.start (busFreqMhz * 1000 * 32) rate).sendCnt.toNat = _ :=
    toNat_firstSendCnt hpos hbelow.lt
  rw [FactorSearch.le_maxRlimCnt_iff, BitVec.le_def, toNat_minRate (by omega), hfirst, hmax,
    ← Nat.lt_succ_iff, Nat.div_lt_iff_lt_mul hpos, ← Nat.lt_succ_iff (m := (_ : ℕ) / 16385),
    Nat.div_lt_iff_lt_mul (by decide)]
  omega

/-- For such a limit the function is the loop, from its first variables on. -/
theorem cpdmaChanSetFactors_eq_loop {chan : CpdmaChan} (hbus : 32000 * busFreqMhz.toNat < 2 ^ 32)
    (hpos : 0 < chan.rate.toNat) (hlt : chan.rate.toNat < 32000 * busFreqMhz.toNat) (fuel : ℕ) :
    cpdmaChanSetFactors fuel busFreqMhz chan =
      (FactorSearch.loop (busFreqMhz * 1000 * 32) chan.rate fuel
        (FactorSearch.start (busFreqMhz * 1000 * 32) chan.rate)).map fun v => .ok (v.applied chan) := by
  have hrate : chan.rate ≠ 0 := by
    intro hzero
    rw [hzero] at hpos
    exact absurd hpos (by decide)
  have hfreq : busFreqMhz * 1000 * 32 ≠ 0 := by
    intro hzero
    have hval := (toNat_busRate hbus).1
    rw [hzero] at hval
    have hnone : (0 : U32).toNat = 0 := rfl
    omega
  unfold cpdmaChanSetFactors
  rw [if_neg hrate]
  dsimp only
  rw [if_neg hfreq]
  exact Option.map_map ..

/-- For every limit below the rate of the bus the function ends. Each time the loop comes to its
head it leaves, the send count out of range, or runs its body safely; and it runs its body on its
first variables just for a limit that is not below the least rate. -/
theorem search_ends {chan : CpdmaChan} (hbus : 32000 * busFreqMhz.toNat < 2 ^ 32)
    (hpos : 0 < chan.rate.toNat) (hlt : chan.rate.toNat < 32000 * busFreqMhz.toNat) :
    (∃ n chan', ∀ fuel, n ≤ fuel →
      cpdmaChanSetFactors fuel busFreqMhz chan = some (.ok chan')) ∧
    (∀ fuel, cpdmaChanSetFactors fuel busFreqMhz chan =
      (FactorSearch.loop (busFreqMhz * 1000 * 32) chan.rate fuel
        (FactorSearch.start (busFreqMhz * 1000 * 32) chan.rate)).map fun v => .ok (v.applied chan)) ∧
    (∀ v, ReflTransGen (FactorSearch.Turn (busFreqMhz * 1000 * 32) chan.rate)
        (FactorSearch.start (busFreqMhz * 1000 * 32) chan.rate) v →
      (∃ turns, ∀ fuel, FactorSearch.loop (busFreqMhz * 1000 * 32) chan.rate (fuel + turns)
          (FactorSearch.start (busFreqMhz * 1000 * 32) chan.rate) =
        FactorSearch.loop (busFreqMhz * 1000 * 32) chan.rate fuel v) ∧
      (FactorSearch.BodyRuns (busFreqMhz * 1000 * 32) chan.rate v ∨
        ¬v.sendCnt ≤ BitVec.ofNat 64 cpdmaMaxRlimCnt ∧ ∀ fuel,
          FactorSearch.loop (busFreqMhz * 1000 * 32) chan.rate (fuel + 1) v = some v)) ∧
    (FactorSearch.BodyRuns (busFreqMhz * 1000 * 32) chan.rate
        (FactorSearch.start (busFreqMhz * 1000 * 32) chan.rate) ↔
      cpdmaChanGetMinRate busFreqMhz ≤ chan.rate) := by
  have hbelow := below_busRate hbus hpos hlt
  have hstart := FactorSearch.going_start hbelow
  have hloop := cpdmaChanSetFactors_eq_loop hbus hpos hlt
  have hrange := start_in_range_iff hbus hpos hlt
  refine ⟨?_, hloop, fun v hreach => ⟨FactorSearch.loop_of_turns hreach, ?_⟩, ?_⟩
  · obtain ⟨v, hends⟩ := hstart.loop hbelow
    refine ⟨(FactorSearch.start (busFreqMhz * 1000 * 32) chan.rate).turnsLeft + 1,
      v.applied chan, fun fuel hfuel => ?_⟩
    rw [hloop, hends fuel hfuel, Option.map_some]
  · by_cases hin : v.sendCnt ≤ BitVec.ofNat 64 cpdmaMaxRlimCnt
    · exact .inl ((hstart.turns hbelow hreach).bodyRuns hbelow hin)
    · exact .inr ⟨hin, FactorSearch.loop_of_out hin⟩
  · rw [← hrange]
    exact ⟨fun hruns => hruns.inRange, hstart.bodyRuns hbelow⟩

/-- 1 kbit/s below the rate of the fastest bus. -/
theorem search_ends_fastest_bus :
    (∃ n chan', ∀ fuel, n ≤ fuel →
      cpdmaChanSetFactors fuel 134217 { rate := 4294943999 } = some (.ok chan')) ∧
    FactorSearch.BodyRuns 4294944000 4294943999 (FactorSearch.start 4294944000 4294943999) := by
  obtain ⟨hends, -, -, hruns⟩ := search_ends
    (show 32000 * (134217 : U32).toNat < 2 ^ 32 by decide)
    (show 0 < ({ rate := 4294943999 } : CpdmaChan).rate.toNat by decide) (by decide)
  exact ⟨hends, hruns.mpr (by decide)⟩

end CpswDriver.Cpdma
