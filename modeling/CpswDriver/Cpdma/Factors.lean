import CpswDriver.Cpdma.Search
import Mathlib.Logic.Relation

/-!
The search for the counts of a rate limit comes to an end with a usable pair, for
every limit that the driver lets through. The limit is at most half of what the
bus can do, so every turn of the loop goes on to a larger send count, also the
turn that jumps ahead to the next idle count; and the delta that is left over
from an earlier turn is never recorded again.
-/

namespace CpswDriver.Cpdma

open Rounding Relation

/-- The send count in the low half of a rate register. -/
def sendCntOf (rateFactor : U32) : ℕ := (rateFactor.setWidth 16).toNat

def idleCntOf (rateFactor : U32) : ℕ := (rateFactor >>> 16).toNat

namespace FactorSearch

variable {busFreqMhz freq rate r : U32} {mbps fuel : ℕ} {v v' w : FactorSearch} {idleCnt : U64}

def start (freq rate : U32) : FactorSearch :=
  { sendCnt := (divRoundUpU32 (freq - rate) rate).setWidth 64 }

def Turn (freq rate : U32) (v w : FactorSearch) : Prop :=
  v.sendCnt ≤ BitVec.ofNat 64 cpdmaMaxRlimCnt ∧ ∃ r idleCnt,
    newRate freq rate v.sendCnt = some (r, idleCnt) ∧
    v.exact (v.record rate r idleCnt) = false ∧
    next freq rate (v.record rate r idleCnt) idleCnt = some w

theorem loop_of_turn (h : Turn freq rate v w) (fuel : ℕ) :
    loop freq rate (fuel + 1) v = loop freq rate fuel w := by
  obtain ⟨hin, r, idleCnt, hnew, hexact, hnext⟩ := h
  have hgoes : ¬v.exact (v.record rate r idleCnt) = true := by
    rw [hexact]
    exact Bool.false_ne_true
  rw [loop, if_pos hin, hnew]
  dsimp only [Option.bind_eq_bind, Option.bind_some]
  rw [if_neg hgoes, hnext]
  rfl

theorem loop_of_exact (hin : v.sendCnt ≤ BitVec.ofNat 64 cpdmaMaxRlimCnt)
    (hnew : newRate freq rate v.sendCnt = some (r, idleCnt))
    (hexact : v.exact (v.record rate r idleCnt) = true) (fuel : ℕ) :
    loop freq rate (fuel + 1) v = some (v.record rate r idleCnt) := by
  rw [loop, if_pos hin, hnew]
  dsimp only [Option.bind_eq_bind, Option.bind_some]
  rw [if_pos hexact]
  rfl

theorem loop_of_out (hout : ¬v.sendCnt ≤ BitVec.ofNat 64 cpdmaMaxRlimCnt) (fuel : ℕ) :
    loop freq rate (fuel + 1) v = some v := by
  rw [loop, if_neg hout]

/-- From `v` on, the search visits a candidate with the rate `r`. -/
def Visits (freq rate : U32) (v : FactorSearch) (r : U32) : Prop :=
  ∃ w idleCnt, ReflTransGen (Turn freq rate) v w ∧
    w.sendCnt ≤ BitVec.ofNat 64 cpdmaMaxRlimCnt ∧
    newRate freq rate w.sendCnt = some (r, idleCnt)

/-- What is recorded: a pair in range with the rate it gives, at its distance from the limit. -/
structure Best (freq rate : U32) (v : FactorSearch) : Prop where
  send : 0 < v.bestSendCnt.toNat ∧ v.bestSendCnt.toNat ≤ cpdmaMaxRlimCnt
  idle : 0 < v.bestIdleCnt.toNat ∧ v.bestIdleCnt.toNat ≤ cpdmaMaxRlimCnt
  gives : v.bestRate.toNat = nearest (freq.toNat * v.bestIdleCnt.toNat)
    (v.bestIdleCnt.toNat + v.bestSendCnt.toNat)
  delta : v.bestRate.toNat = rate.toNat + v.bestDelta.toNat

/-- The variables at the head of the loop. -/
structure Head (freq rate : U32) (v : FactorSearch) : Prop where
  inv : Inv rate v
  best : v.bestRate = 0 ∧ v.bestDelta = BitVec.allOnes 32 ∨ Best freq rate v
  low : (freq - rate).toNat ≤ rate.toNat * v.sendCnt.toNat

/-- A limit of at most half the rate of the bus. -/
structure Halved (busFreqMhz : U32) (mbps : ℕ) (freq rate : U32) : Prop where
  reach : Reachable busFreqMhz mbps freq rate
  half : rate.toNat ≤ (freq - rate).toNat

structure Candidate (freq rate : U32) (v : FactorSearch) (r : U32) (idleCnt : U64) : Prop where
  send : 0 < v.sendCnt.toNat ∧ v.sendCnt.toNat ≤ cpdmaMaxRlimCnt
  idle : 0 < idleCnt.toNat ∧ idleCnt.toNat ≤ cpdmaMaxRlimCnt
  exact : idleCnt.toNat = nearest (rate.toNat * v.sendCnt.toNat) (freq - rate).toNat
  gives : r.toNat = nearest (freq.toNat * idleCnt.toNat) (idleCnt.toNat + v.sendCnt.toNat)

theorem toNat_maxRlimCnt : (BitVec.ofNat 64 cpdmaMaxRlimCnt).toNat = cpdmaMaxRlimCnt := by decide

theorem Head.candidate (h : Head freq rate v) (hhalf : Halved busFreqMhz mbps freq rate)
    (hin : v.sendCnt ≤ BitVec.ofNat 64 cpdmaMaxRlimCnt) :
    ∃ r idleCnt, newRate freq rate v.sendCnt = some (r, idleCnt) ∧
      Candidate freq rate v r idleCnt := by
  have hmin := hhalf.reach.min
  have hbelow := hhalf.reach.below
  have hlow := h.low
  have hle : v.sendCnt.toNat ≤ cpdmaMaxRlimCnt := by
    rw [BitVec.le_def, toNat_maxRlimCnt] at hin
    exact hin
  have hpos : 0 < v.sendCnt.toNat := by
    by_contra hzero
    have hnone : v.sendCnt.toNat = 0 := by omega
    rw [hnone, mul_zero] at hlow
    omega
  obtain ⟨r, idleCnt, hnew, hidle, hr⟩ := newRate_eq hhalf.reach hpos hle
  have hidlepos : 1 ≤ idleCnt.toNat := by
    rw [hidle, le_nearest_iff (by omega)]
    omega
  have hidlele : idleCnt.toNat ≤ v.sendCnt.toNat := by
    rw [hidle]
    exact nearest_mul_le (by omega) hhalf.half _
  exact ⟨r, idleCnt, hnew, ⟨hpos, hle⟩, ⟨hidlepos, hidlele.trans hle⟩, hidle, hr⟩

/-- What a turn records: it never forgets a nearer candidate, and it does not miss its own. -/
theorem Head.record (h : Head freq rate v) (hc : Candidate freq rate v r idleCnt) :
    ((v.record rate r idleCnt).bestRate = 0 ∧
        (v.record rate r idleCnt).bestDelta = BitVec.allOnes 32 ∨
      Best freq rate (v.record rate r idleCnt)) ∧
    (v.record rate r idleCnt).bestDelta ≤ v.bestDelta ∧
    (rate ≤ r → (v.record rate r idleCnt).bestDelta ≤ r - rate) := by
  have hmax : cpdmaMaxRlimCnt = 16384 := rfl
  have hsend := hc.send
  have hidle := hc.idle
  unfold FactorSearch.record
  dsimp only
  by_cases habove : rate ≤ r
  · rw [if_pos habove]
    by_cases hlt : r - rate < v.bestDelta
    · rw [if_pos hlt]
      have hsend32 : (v.sendCnt.setWidth 32).toNat = v.sendCnt.toNat := by
        rw [BitVec.toNat_setWidth]
        exact Nat.mod_eq_of_lt (by omega)
      have hidle32 : (idleCnt.setWidth 32).toNat = idleCnt.toNat := by
        rw [BitVec.toNat_setWidth]
        exact Nat.mod_eq_of_lt (by omega)
      refine ⟨.inr ⟨?_, ?_, ?_, ?_⟩, BitVec.le_of_lt hlt, fun _ => BitVec.le_refl _⟩
      · rw [hsend32]
        exact hsend
      · rw [hidle32]
        exact hidle
      · rw [hsend32, hidle32]
        exact hc.gives
      · rw [BitVec.le_def] at habove
        rw [BitVec.toNat_sub_of_le (BitVec.le_def.mpr habove)]
        dsimp only
        omega
    · rw [if_neg hlt]
      refine ⟨?_, BitVec.le_refl _, fun _ => BitVec.not_lt.mp hlt⟩
      rcases h.best with hnone | hbest
      · exact .inl hnone
      · exact .inr ⟨hbest.send, hbest.idle, hbest.gives, hbest.delta⟩
  · rw [if_neg habove, if_neg (BitVec.not_lt.mpr h.inv.best)]
    refine ⟨?_, BitVec.le_refl _, fun hcon => absurd hcon habove⟩
    rcases h.best with hnone | hbest
    · exact .inl hnone
    · exact .inr ⟨hbest.send, hbest.idle, hbest.gives, hbest.delta⟩

theorem sendCnt_record (v : FactorSearch) (rate r : U32) (idleCnt : U64) :
    (v.record rate r idleCnt).sendCnt = v.sendCnt := by
  unfold FactorSearch.record
  dsimp only
  generalize (if rate ≤ r then r - rate else v.delta) = delta
  split <;> rfl

/-- The send count that belongs to the idle count after this one. -/
theorem Candidate.jump (hc : Candidate freq rate v r idleCnt)
    (hhalf : Halved busFreqMhz mbps freq rate) :
    ∃ x, divRoundClosestUll (freq.setWidth 64 * (idleCnt + 1)) (rate.setWidth 64) = some x ∧
      (x - (idleCnt + 1)).toNat =
        nearest ((freq - rate).toNat * (idleCnt.toNat + 1)) rate.toNat := by
  have hmax : cpdmaMaxRlimCnt = 16384 := rfl
  have hidle := hc.idle
  have hbus := hhalf.reach.bus
  have hfreq := hhalf.reach.freq
  have hmin := hhalf.reach.min
  have hrate := hhalf.reach.rate
  have hmbps := hhalf.reach.pos
  have hbelow := hhalf.reach.below
  have hprod : freq.toNat * (idleCnt.toNat + 1) ≤ 16384000 * 16385 :=
    Nat.mul_le_mul (by omega) (by omega)
  have hsplit : freq.toNat = (freq - rate).toNat + rate.toNat := by omega
  have hlt : idleCnt.toNat + 1 < 2 ^ 64 := by omega
  obtain ⟨x, hx, hsend, -⟩ := jump_of_noWrap hsplit (by omega) hlt (by omega)
  exact ⟨x, hx, hsend⟩

/-- A turn that does not end the loop goes on to a larger send count. -/
theorem Head.next (h : Head freq rate v) (hc : Candidate freq rate v r idleCnt)
    (hhalf : Halved busFreqMhz mbps freq rate) :
    ∃ w, FactorSearch.next freq rate (v.record rate r idleCnt) idleCnt = some w ∧
      Head freq rate w ∧ w.bestDelta = (v.record rate r idleCnt).bestDelta ∧
      v.sendCnt.toNat < w.sendCnt.toNat := by
  have hmax : cpdmaMaxRlimCnt = 16384 := rfl
  have hsend := hc.send
  have hmbps := hhalf.reach.pos
  have hrate := hhalf.reach.rate
  obtain ⟨hbest, -, -⟩ := h.record hc
  have hinv : Inv rate (v.record rate r idleCnt) := h.inv.record r idleCnt
  have hlow : ∀ {sendCnt : U64}, v.sendCnt.toNat < sendCnt.toNat →
      (freq - rate).toNat ≤ rate.toNat * sendCnt.toNat := by
    intro sendCnt hlt
    exact h.low.trans (Nat.mul_le_mul_left _ hlt.le)
  have hkeeps : ∀ {prevDelta : U32} {sendCnt : U64}, v.sendCnt.toNat < sendCnt.toNat →
      Head freq rate { v.record rate r idleCnt with
        prevDelta := prevDelta, sendCnt := sendCnt } := by
    intro prevDelta sendCnt hlt
    refine ⟨⟨hinv.best, hinv.above⟩, ?_, hlow hlt⟩
    rcases hbest with hnone | hsome
    · exact .inl hnone
    · exact .inr ⟨hsome.send, hsome.idle, hsome.gives, hsome.delta⟩
  unfold FactorSearch.next
  split
  · have hlt : v.sendCnt.toNat < ((v.record rate r idleCnt).sendCnt + 1).toNat := by
      rw [sendCnt_record, BitVec.toNat_add, Nat.mod_eq_of_lt] <;>
        · rw [show (1 : U64).toNat = 1 from rfl]
          omega
    exact ⟨_, rfl, hkeeps hlt, rfl, hlt⟩
  · obtain ⟨x, hx, hxval⟩ := hc.jump hhalf
    have hlt : v.sendCnt.toNat < (x - (idleCnt + 1)).toNat := by
      rw [hxval, hc.exact]
      exact lt_nearest_back (by omega) hhalf.half _
    dsimp only
    rw [hx]
    exact ⟨_, rfl, hkeeps hlt, rfl, hlt⟩

theorem not_visits_of_out (hout : ¬ v.sendCnt ≤ BitVec.ofNat 64 cpdmaMaxRlimCnt) (r : U32) :
    ¬ Visits freq rate v r := by
  intro hvisit
  obtain ⟨w, idleCnt, hreach, hin, -⟩ := hvisit
  rcases hreach.cases_head with rfl | ⟨u, hturn, -⟩
  · exact hout hin
  · exact hout hturn.1

/-- After the turn that ends the loop nothing is visited. -/
theorem Visits.of_stop {r' : U32} (h : Visits freq rate v r')
    (hnew : newRate freq rate v.sendCnt = some (r, idleCnt))
    (hexact : v.exact (v.record rate r idleCnt) = true) : r' = r := by
  obtain ⟨w, idleCnt', hreach, -, hnew'⟩ := h
  rcases hreach.cases_head with rfl | ⟨u, hturn, -⟩
  · rw [hnew] at hnew'
    exact (Prod.mk.inj (Option.some.inj hnew')).1.symm
  · obtain ⟨-, r₁, idleCnt₁, hnew₁, hgo, -⟩ := hturn
    rw [hnew] at hnew₁
    obtain ⟨rfl, rfl⟩ := Prod.mk.inj (Option.some.inj hnew₁)
    rw [hexact] at hgo
    cases hgo

theorem Visits.cases {r' : U32} (h : Visits freq rate v r')
    (hnew : newRate freq rate v.sendCnt = some (r, idleCnt))
    (hnext : FactorSearch.next freq rate (v.record rate r idleCnt) idleCnt = some w) :
    r' = r ∨ Visits freq rate w r' := by
  obtain ⟨u, idleCnt', hreach, hin, hnew'⟩ := h
  rcases hreach.cases_head with rfl | ⟨u₁, hturn, hrest⟩
  · rw [hnew] at hnew'
    exact .inl (Prod.mk.inj (Option.some.inj hnew')).1.symm
  · obtain ⟨-, r₁, idleCnt₁, hnew₁, -, hnext₁⟩ := hturn
    rw [hnew] at hnew₁
    obtain ⟨rfl, rfl⟩ := Prod.mk.inj (Option.some.inj hnew₁)
    rw [hnext] at hnext₁
    obtain rfl := Option.some.inj hnext₁
    exact .inr ⟨u, idleCnt', hrest, hin, hnew'⟩

/-- The loop comes to an end, with the nearest of what it had and what it visits. -/
theorem Head.loop (hhalf : Halved busFreqMhz mbps freq rate) (h : Head freq rate v)
    (hfuel : cpdmaMaxRlimCnt < v.sendCnt.toNat + fuel) :
    ∃ v', FactorSearch.loop freq rate (fuel + 1) v = some v' ∧
      (v'.bestRate = 0 ∧ v'.bestDelta = BitVec.allOnes 32 ∨ Best freq rate v') ∧
      v'.bestDelta ≤ v.bestDelta ∧
      ∀ r, Visits freq rate v r → rate ≤ r → v'.bestDelta ≤ r - rate := by
  induction fuel generalizing v with
  | zero =>
    have hout : ¬ v.sendCnt ≤ BitVec.ofNat 64 cpdmaMaxRlimCnt := by
      rw [BitVec.le_def, toNat_maxRlimCnt]
      omega
    refine ⟨v, ?_, h.best, BitVec.le_refl _, fun r hvisit _ => ?_⟩
    · unfold FactorSearch.loop
      rw [if_neg hout]
    · exact absurd hvisit (not_visits_of_out hout r)
  | succ fuel ih =>
    by_cases hin : v.sendCnt ≤ BitVec.ofNat 64 cpdmaMaxRlimCnt
    · obtain ⟨r, idleCnt, hnew, hc⟩ := h.candidate hhalf hin
      obtain ⟨hbest, hmono, hown⟩ := h.record hc
      cases hexact : v.exact (v.record rate r idleCnt) with
      | true =>
        refine ⟨v.record rate r idleCnt, loop_of_exact hin hnew hexact _, hbest, hmono,
          fun r' hvisit hle => ?_⟩
        obtain rfl := hvisit.of_stop hnew hexact
        exact hown hle
      | false =>
        obtain ⟨w, hnext, hw, hdelta, hlt⟩ := h.next hc hhalf
        obtain ⟨v', hloop, hbest', hmono', hvisits⟩ := ih hw (by omega)
        rw [hdelta] at hmono'
        refine ⟨v', ?_, hbest', BitVec.le_trans hmono' hmono, fun r' hvisit hle => ?_⟩
        · rw [loop_of_turn ⟨hin, r, idleCnt, hnew, hexact, hnext⟩]
          exact hloop
        · rcases hvisit.cases hnew hnext with rfl | hlater
          · exact BitVec.le_trans hmono' (hown hle)
          · exact hvisits r' hlater hle
    · refine ⟨v, loop_of_out hin _, h.best, BitVec.le_refl _, fun r hvisit _ => ?_⟩
      exact absurd hvisit (not_visits_of_out hin r)

theorem Candidate.le_double (hc : Candidate freq rate v r idleCnt)
    (hhalf : Halved busFreqMhz mbps freq rate) (h : Head freq rate v) :
    r.toNat ≤ 2 * rate.toNat := by
  have hmin := hhalf.reach.min
  have hfreq := hhalf.reach.freq
  have hrate := hhalf.reach.rate
  have hbelow := hhalf.reach.below
  have hlow := h.low
  have hsend := hc.send
  obtain ⟨hidle, -⟩ := nearest_bounds (b := (freq - rate).toNat) (rate.toNat * v.sendCnt.toNat)
    (by omega)
  rw [← hc.exact] at hidle
  rw [hc.gives]
  apply nearest_le (by omega)
  have hsplit : freq.toNat * idleCnt.toNat =
      (freq - rate).toNat * idleCnt.toNat + rate.toNat * idleCnt.toNat := by
    rw [← add_mul]
    congr 1
    omega
  have hdouble : (idleCnt.toNat + v.sendCnt.toNat) * (2 * rate.toNat) =
      2 * (rate.toNat * idleCnt.toNat) + 2 * (rate.toNat * v.sendCnt.toNat) := by ring
  omega

theorem bestRate_record (v : FactorSearch) (rate r : U32) (idleCnt : U64) :
    (v.record rate r idleCnt).bestRate = r ∨ (v.record rate r idleCnt).bestRate = v.bestRate := by
  unfold FactorSearch.record
  dsimp only
  generalize (if rate ≤ r then r - rate else v.delta) = delta
  split
  · exact .inl rfl
  · exact .inr rfl

theorem bestRate_next (h : FactorSearch.next freq rate v idleCnt = some w) :
    w.bestRate = v.bestRate := by
  unfold FactorSearch.next at h
  split at h
  · obtain rfl := Option.some.inj h
    rfl
  · obtain ⟨sendCnt, -, rfl⟩ := Option.map_eq_some_iff.mp h
    rfl

theorem Head.loop_le (hhalf : Halved busFreqMhz mbps freq rate) (h : Head freq rate v)
    (hbest : v.bestRate.toNat ≤ 2 * rate.toNat)
    (hloop : FactorSearch.loop freq rate fuel v = some v') :
    v'.bestRate.toNat ≤ 2 * rate.toNat := by
  induction fuel generalizing v with
  | zero => cases hloop
  | succ fuel ih =>
    unfold FactorSearch.loop at hloop
    split at hloop
    · rename_i hin
      obtain ⟨r, idleCnt, hnew, hc⟩ := h.candidate hhalf hin
      have hrecord : (v.record rate r idleCnt).bestRate.toNat ≤ 2 * rate.toNat := by
        rcases bestRate_record v rate r idleCnt with heq | heq
        · rw [heq]
          exact hc.le_double hhalf h
        · rw [heq]
          exact hbest
      rw [hnew] at hloop
      dsimp only [Option.bind_eq_bind, Option.bind_some] at hloop
      split at hloop
      · obtain rfl := Option.some.inj hloop
        exact hrecord
      · obtain ⟨w, hnext, hw, -, -⟩ := h.next hc hhalf
        rw [hnext] at hloop
        exact ih hw (by rw [bestRate_next hnext]; exact hrecord) hloop
    · obtain rfl := Option.some.inj hloop
      exact hbest

theorem head_start (hhalf : Halved busFreqMhz mbps freq rate) :
    Head freq rate (start freq rate) := by
  have hrate := hhalf.reach.rate
  have hmbps := hhalf.reach.pos
  have hfirst : (start freq rate).sendCnt.toNat = _ := hhalf.reach.firstSendCnt
  refine ⟨⟨BitVec.le_refl _, .inl ⟨rfl, rfl, rfl⟩⟩, .inl ⟨rfl, rfl⟩, ?_⟩
  rw [hfirst]
  have hdiv := Nat.div_add_mod ((freq - rate).toNat + rate.toNat - 1) rate.toNat
  have hmod := Nat.mod_lt ((freq - rate).toNat + rate.toNat - 1) (by omega : 0 < rate.toNat)
  omega

end FactorSearch

variable {busFreqMhz freq : U32} {mbps speed fuel : ℕ} {chan chan' : CpdmaChan}

/-- The counts of a register that holds both. -/
theorem counts_of_or {send idle : U32} (hsend : send.toNat ≤ cpdmaMaxRlimCnt)
    (hidle : idle.toNat ≤ cpdmaMaxRlimCnt) :
    sendCntOf (send ||| idle.shiftLeft 16) = send.toNat ∧
      idleCntOf (send ||| idle.shiftLeft 16) = idle.toNat := by
  have hmax : cpdmaMaxRlimCnt = 16384 := rfl
  have hhigh : (idle.shiftLeft 16).toNat = 2 ^ 16 * idle.toNat := by
    have hshift : (idle.shiftLeft 16).toNat = idle.toNat <<< 16 % 2 ^ 32 := rfl
    rw [hshift, Nat.shiftLeft_eq, Nat.mod_eq_of_lt (by omega), mul_comm]
  have hword : (send ||| idle.shiftLeft 16).toNat = 2 ^ 16 * idle.toNat + send.toNat := by
    rw [BitVec.toNat_or, hhigh, Nat.or_comm, ← Nat.two_pow_add_eq_or_of_lt (by omega)]
  unfold sendCntOf idleCntOf
  rw [BitVec.toNat_setWidth, BitVec.toNat_ushiftRight, hword, Nat.shiftRight_eq_div_pow]
  omega

/-- What the search is for: two counts in range, whose rate is the nearest integer to
what the engine makes of them, not below the limit, with no candidate nearer from above. -/
structure Usable (freq : U32) (chan chan' : CpdmaChan) : Prop where
  factor : chan'.rateFactor ≠ 0
  send : 1 ≤ sendCntOf chan'.rateFactor ∧ sendCntOf chan'.rateFactor ≤ 16384
  idle : 1 ≤ idleCntOf chan'.rateFactor ∧ idleCntOf chan'.rateFactor ≤ 16384
  nearest : IsNearest (freq.toNat * idleCntOf chan'.rateFactor)
    (idleCntOf chan'.rateFactor + sendCntOf chan'.rateFactor) chan'.rate.toNat
  above : chan.rate ≤ chan'.rate
  best : ∀ r, FactorSearch.Visits freq chan.rate (FactorSearch.start freq chan.rate) r →
    chan.rate ≤ r → chan'.rate ≤ r

theorem searchFactors_usable (h : FactorSearch.Halved busFreqMhz mbps freq chan.rate)
    (hfuel : cpdmaMaxRlimCnt < fuel) :
    ∃ chan', searchFactors fuel freq chan = some chan' ∧ Usable freq chan chan' := by
  have hmax : cpdmaMaxRlimCnt = 16384 := rfl
  have hmin := h.reach.min
  have hbelow := h.reach.below
  have hhead := FactorSearch.head_start h
  have hpos : 0 < (FactorSearch.start freq chan.rate).sendCnt.toNat := by
    by_contra hzero
    have hnone : (FactorSearch.start freq chan.rate).sendCnt.toNat = 0 := by omega
    have hlow := hhead.low
    rw [hnone, mul_zero] at hlow
    omega
  obtain ⟨fuel, rfl⟩ : ∃ n, fuel = n + 1 := ⟨fuel - 1, by omega⟩
  have hends : cpdmaMaxRlimCnt < (FactorSearch.start freq chan.rate).sendCnt.toNat + fuel := by
    omega
  obtain ⟨v, hloop, hbest, -, hvisits⟩ := hhead.loop h hends
  have hsearch : searchFactors (fuel + 1) freq chan = some { chan with
      rate := v.bestRate
      rateFactor := v.bestSendCnt ||| v.bestIdleCnt.shiftLeft 16 } := by
    have hmap := congrArg (Option.map fun v : FactorSearch => { chan with
      rate := v.bestRate
      rateFactor := v.bestSendCnt ||| v.bestIdleCnt.shiftLeft 16 }) hloop
    exact hmap
  have habove : chan.rate ≤ v.bestRate := searchFactors_found h.reach hsearch
  have hfound : FactorSearch.Best freq chan.rate v := by
    rcases hbest with ⟨hnone, -⟩ | hbest
    · have hrate : chan.rate ≠ 0 := h.reach.rate_ne_zero
      rw [hnone, BitVec.le_def] at habove
      exact absurd (BitVec.eq_of_toNat_eq (Nat.le_zero.mp habove)) hrate
    · exact hbest
  have hsend := hfound.send
  have hidle := hfound.idle
  obtain ⟨hlowhalf, hhighhalf⟩ := counts_of_or hsend.2 hidle.2
  refine ⟨_, hsearch, ?_, ?_, ?_, ?_, habove, fun r hvisit hle => ?_⟩
  · intro hzero
    have hnone : sendCntOf (v.bestSendCnt ||| v.bestIdleCnt.shiftLeft 16) = 0 := by
      dsimp only at hzero
      rw [hzero]
      rfl
    omega
  · dsimp only
    omega
  · dsimp only
    omega
  · dsimp only
    rw [hlowhalf, hhighhalf, hfound.gives]
    exact isNearest_nearest _ (by omega)
  · have hdelta := hvisits r hvisit hle
    have hgives := hfound.delta
    rw [BitVec.le_def] at hle hdelta ⊢
    rw [BitVec.toNat_sub_of_le (BitVec.le_def.mpr hle)] at hdelta
    dsimp only
    omega

/-- The rate of the bus in kbit/s, in both ways the driver computes it. -/
theorem toNat_busRate (h : 32000 * busFreqMhz.toNat < 2 ^ 32) :
    (busFreqMhz * 1000 * 32).toNat = 32000 * busFreqMhz.toNat ∧
      (busFreqMhz * 32 * 1000).toNat = 32000 * busFreqMhz.toNat := by
  have hthousand : (1000 : U32).toNat = 1000 := rfl
  have hwords : (32 : U32).toNat = 32 := rfl
  constructor
  · rw [BitVec.toNat_mul, BitVec.toNat_mul, hthousand, hwords,
      Nat.mod_eq_of_lt (by omega : busFreqMhz.toNat * 1000 < 2 ^ 32), Nat.mod_eq_of_lt (by omega)]
    omega
  · rw [BitVec.toNat_mul, BitVec.toNat_mul, hthousand, hwords,
      Nat.mod_eq_of_lt (by omega : busFreqMhz.toNat * 32 < 2 ^ 32), Nat.mod_eq_of_lt (by omega)]
    omega

theorem toNat_freq (hbus : busFreqMhz.toNat ≤ 512) :
    (busFreqMhz * 1000 * 32).toNat = 32000 * busFreqMhz.toNat :=
  (toNat_busRate (by omega)).1

theorem toNat_minRate (h : 32000 * busFreqMhz.toNat < 2 ^ 32 - 16385) :
    (cpdmaChanGetMinRate busFreqMhz).toNat = (32000 * busFreqMhz.toNat + 16385 - 1) / 16385 := by
  have hdivisor : (BitVec.ofNat 32 (1 + cpdmaMaxRlimCnt)).toNat = 16385 := by decide
  obtain ⟨-, hdividend⟩ := toNat_busRate (show 32000 * busFreqMhz.toNat < 2 ^ 32 by omega)
  unfold cpdmaChanGetMinRate
  rw [toNat_divRoundUpU32 (by omega) (by omega), hdividend, hdivisor]

theorem minRate_pos (hlo : 125 ≤ busFreqMhz.toNat) (hhi : busFreqMhz.toNat ≤ 512) :
    0 < (cpdmaChanGetMinRate busFreqMhz).toNat := by
  rw [toNat_minRate (by omega)]
  omega

theorem freq_ne_zero (hlo : 125 ≤ busFreqMhz.toNat) (hhi : busFreqMhz.toNat ≤ 512) :
    busFreqMhz * 1000 * 32 ≠ 0 := by
  intro hzero
  have hnat := toNat_freq hhi
  have hval : (0 : U32).toNat = 0 := rfl
  rw [hzero] at hnat
  omega

/-- A whole number of Mbit/s that the driver lets through on a bus of 125 to 512 MHz. -/
theorem halved_of_accepted (hlo : 125 ≤ busFreqMhz.toNat) (hhi : busFreqMhz.toNat ≤ 512)
    (hrate : chan.rate.toNat = 1000 * mbps) (hmin : cpdmaChanGetMinRate busFreqMhz ≤ chan.rate)
    (hmbps : mbps ≤ 2000) :
    FactorSearch.Halved busFreqMhz mbps (busFreqMhz * 1000 * 32) chan.rate := by
  have hfreq := toNat_freq hhi
  have hpos := minRate_pos hlo hhi
  rw [BitVec.le_def] at hmin
  have hreach : Reachable busFreqMhz mbps (busFreqMhz * 1000 * 32) chan.rate :=
    ⟨hhi, by omega, by omega, hfreq, hrate⟩
  refine ⟨hreach, ?_⟩
  rw [hreach.min, hrate]
  omega

/-- What the search makes of such a limit is at most twice of it. -/
theorem cpdmaChanSetFactors_le_double (hlo : 125 ≤ busFreqMhz.toNat) (hhi : busFreqMhz.toNat ≤ 512)
    (hrate : chan.rate.toNat = 1000 * mbps) (hmin : cpdmaChanGetMinRate busFreqMhz ≤ chan.rate)
    (hmbps : mbps ≤ 2000) (h : cpdmaChanSetFactors fuel busFreqMhz chan = some (.ok chan')) :
    chan'.rate.toNat ≤ 2 * chan.rate.toNat := by
  have hhalf := halved_of_accepted hlo hhi hrate hmin hmbps
  unfold cpdmaChanSetFactors at h
  rw [if_neg hhalf.reach.rate_ne_zero] at h
  dsimp only at h
  split at h
  · cases Option.some.inj h
  · obtain ⟨chan₁, hsearch, hok⟩ := Option.map_eq_some_iff.mp h
    obtain rfl := Except.ok.inj hok
    obtain ⟨v, hloop, rfl⟩ := Option.map_eq_some_iff.mp hsearch
    exact (FactorSearch.head_start hhalf).loop_le hhalf (Nat.zero_le _) hloop

/-- For every bus clock from 125 to 512 MHz, the search gives usable counts for each whole
number of Mbit/s from the least rate up to the speed of the links. -/
theorem cpdmaChanSetFactors_usable (hlo : 125 ≤ busFreqMhz.toNat) (hhi : busFreqMhz.toNat ≤ 512)
    (hrate : chan.rate.toNat = 1000 * mbps) (hmin : cpdmaChanGetMinRate busFreqMhz ≤ chan.rate)
    (hspeed : mbps ≤ speed) (hlinks : speed ≤ 2000) (hfuel : cpdmaMaxRlimCnt < fuel) :
    ∃ chan', cpdmaChanSetFactors fuel busFreqMhz chan = some (.ok chan') ∧
      Usable (busFreqMhz * 1000 * 32) chan chan' := by
  have hhalf := halved_of_accepted hlo hhi hrate hmin (hspeed.trans hlinks)
  obtain ⟨chan', hsearch, husable⟩ := searchFactors_usable hhalf hfuel
  refine ⟨chan', ?_, husable⟩
  unfold cpdmaChanSetFactors
  rw [if_neg hhalf.reach.rate_ne_zero]
  dsimp only
  rw [if_neg (freq_ne_zero hlo hhi), hsearch]
  rfl

/-- 100 Mbit/s on a bus of 125 MHz. -/
theorem cpdmaChanSetFactors_usable_hundred :
    ∃ chan', cpdmaChanSetFactors 16385 125 { rate := 100000 } = some (.ok chan') ∧
      Usable (125 * 1000 * 32) { rate := 100000 } chan' :=
  cpdmaChanSetFactors_usable (by decide) (by decide)
    (show ({ rate := 100000 } : CpdmaChan).rate.toNat = 1000 * 100 by decide) (by decide)
    (show 100 ≤ 1000 by decide) (by decide) (by decide)

end CpswDriver.Cpdma
