import CpswDriver.Cpdma.Factors
import CpswDriver.Cpdma.Limits

/-!
The order of the rate limits. The limited tx channels are the upper ones at any
time, and the mask in the register and the registers of the rates say the same as
the channels do. A call that would break the order is refused, and nothing of the
scan that found this out is left behind.
-/

namespace CpswDriver.Cpdma

open Runs

variable {τ : Type*} {params : CpdmaParams} {c c' : CpdmaCtlr τ} {ch ch' : ChanId}
  {busFreqMhz rate : U32} {fuel : ℕ} {chan chan' : CpdmaChan} {rateOf : ChanId → Option U32}

/-- Above a limited tx channel, every tx channel that exists is limited. -/
def UpwardClosed (rateOf : ChanId → Option U32) : Prop :=
  ∀ ch ch', isTxChan ch' = true → ch < ch' → counts rateOf ch = true → (rateOf ch').isSome →
    counts rateOf ch' = true

/-- What the channels, the mask and the rate registers agree on. -/
structure Ordered (c : CpdmaCtlr τ) : Prop where
  active : c.state = .active
  limits : TxLimits (limitOf c)
  closed : UpwardClosed fun ch => (c.channels ch).map CpdmaChan.rate
  rlim : ∀ ch : ChanId, ch.val < 16 → rlimBit c ch = limited (limitOf c ch)
  rate : ∀ ch : ChanId, ch.val < 8 → (rateReg c ch ≠ 0 ↔ limited (limitOf c ch) = true)

/-- The scan fails when it comes by a channel without a limit after one with a limit. -/
theorem fitLoop_isSome_iff {l : List ChanId} {acc : U32 × Bool} :
    (fitLoop rateOf l acc).isSome ↔
      (acc.2 = true → ∀ ch ∈ l, (rateOf ch).isSome → counts rateOf ch = true) ∧
      l.Pairwise fun ch ch' => counts rateOf ch = true → (rateOf ch').isSome →
        counts rateOf ch' = true := by
  induction l generalizing acc with
  | nil => simp [fitLoop]
  | cons a l ih =>
    obtain ⟨newRmask, rlim⟩ := acc
    rw [List.pairwise_cons, List.forall_mem_cons]
    cases ha : rateOf a with
    | none =>
      have hcounts : counts rateOf a = false := by simp [counts, ha]
      have hskip : fitLoop rateOf (a :: l) (newRmask, rlim) =
          fitLoop rateOf l (newRmask, rlim) := by
        rw [fitLoop, ha]
      rw [hskip, ih, hcounts]
      simp
    | some rate =>
      by_cases hon : rate ≠ 0
      · have hcounts : counts rateOf a = true := by
          unfold counts
          rw [ha]
          exact decide_eq_true hon
        have htake : fitLoop rateOf (a :: l) (newRmask, rlim) =
            fitLoop rateOf l (newRmask ||| chanMask a, true) := by
          rw [fitLoop, ha]
          exact if_pos hon
        rw [htake, ih, hcounts]
        constructor
        · intro h
          exact ⟨fun _ => ⟨fun _ => rfl, h.1 rfl⟩, fun b hb _ => h.1 rfl b hb, h.2⟩
        · intro h
          exact ⟨fun _ b hb => h.2.1 b hb rfl, h.2.2⟩
      · have hcounts : counts rateOf a = false := by
          unfold counts
          rw [ha]
          exact decide_eq_false hon
        cases rlim with
        | true =>
          have hfail : fitLoop rateOf (a :: l) (newRmask, true) = none := by
            rw [fitLoop, ha]
            exact (if_neg hon).trans (if_pos rfl)
          rw [hfail, hcounts]
          simp
        | false =>
          have hskip : fitLoop rateOf (a :: l) (newRmask, false) =
              fitLoop rateOf l (newRmask, false) := by
            rw [fitLoop, ha]
            exact (if_neg hon).trans (if_neg Bool.false_ne_true)
          rw [hskip, ih, hcounts]
          simp

theorem sorted_chanSlots (rx : Bool) : (chanSlots rx).Pairwise (· < ·) :=
  (List.pairwise_lt_finRange 64).filter _

theorem tx_of_lt (h : ch < ch') (htx : isTxChan ch' = true) : isTxChan ch = true := by
  rw [isTxChan_iff] at htx ⊢
  have hval : ch.val < ch'.val := h
  omega

/-- A new rate fits exactly if the order is kept. -/
theorem fitRate_isSome_iff (channels : ChanId → Option CpdmaChan) (ch : ChanId) (rate : U32) :
    (cpdmaChanFitRate channels ch rate).isSome ↔ UpwardClosed (rateWith channels ch rate) := by
  unfold cpdmaChanFitRate
  rw [fitLoop_isSome_iff]
  constructor
  · intro h a b htx hlt
    obtain ⟨-, hpair⟩ := h
    have hlist := List.pairwise_iff_getElem.mp hpair
    obtain ⟨i, hi, rfl⟩ := List.getElem_of_mem (mem_txSlots.mpr (tx_of_lt hlt htx))
    obtain ⟨j, hj, rfl⟩ := List.getElem_of_mem (mem_txSlots.mpr htx)
    have hij : i < j := by
      by_contra hge
      have hsorted := List.pairwise_iff_getElem.mp (sorted_chanSlots false)
      rcases Nat.lt_or_eq_of_le (Nat.not_lt.mp hge) with hji | rfl
      · exact absurd hlt (lt_asymm (hsorted j i hj hi hji))
      · exact absurd hlt (lt_irrefl _)
    exact hlist i j hi hj hij
  · intro h
    refine ⟨nofun, ?_⟩
    apply (sorted_chanSlots false).imp_of_mem
    intro a b _ hb hlt
    exact h a b (mem_txSlots.mp hb) hlt

/-- What cpsw_ndo_set_tx_maxrate may ask for: no limit, or a whole number of Mbit/s from the
least rate up to two gigabit links. -/
def Accepted (busFreqMhz rate : U32) : Prop :=
  rate = 0 ∨ ∃ mbps, rate.toNat = 1000 * mbps ∧ cpdmaChanGetMinRate busFreqMhz ≤ rate ∧ mbps ≤ 2000

/-- What the search leaves in the channel: a rate and counts if it was asked for one. -/
structure Programs (chan chan' : CpdmaChan) : Prop where
  rate : chan'.rate = 0 ↔ chan.rate = 0
  counts : chan'.rateFactor = 0 ↔ chan.rate = 0

theorem cpdmaChanSetFactors_programs (hlo : 125 ≤ busFreqMhz.toNat) (hhi : busFreqMhz.toNat ≤ 512)
    (hrate : Accepted busFreqMhz chan.rate) (hfuel : cpdmaMaxRlimCnt < fuel) :
    ∃ chan', cpdmaChanSetFactors fuel busFreqMhz chan = some (.ok chan') ∧ Programs chan chan' := by
  rcases hrate with hzero | ⟨mbps, hmbps, hmin, hle⟩
  · refine ⟨{ chan with rateFactor := 0 }, ?_, Iff.rfl, iff_of_true rfl hzero⟩
    unfold cpdmaChanSetFactors
    rw [if_pos hzero]
  · obtain ⟨chan', hset, husable⟩ :=
      cpdmaChanSetFactors_usable hlo hhi hmbps hmin hle (le_refl 2000) hfuel
    have hne : chan.rate ≠ 0 := (halved_of_accepted hlo hhi hmbps hmin hle).reach.rate_ne_zero
    refine ⟨chan', hset, iff_of_false ?_ hne, iff_of_false husable.factor hne⟩
    intro hzero
    have habove := husable.above
    rw [hzero, BitVec.le_def] at habove
    exact hne (BitVec.eq_of_toNat_eq (Nat.le_zero.mp habove))

/-- A call of cpdma_chan_set_rate and what it returns. It is rejected exactly if it is not
for a tx channel or would break the order, and then it leaves no trace. -/
structure RateCalled (c : CpdmaCtlr τ) (ch : ChanId) (rate : U32) (r : CpdmaCtlr τ × ℤ) : Prop where
  rejected : r.2 < 0 ↔
    ¬ (isTxChan ch = true ∧ (c.channels ch).isSome ∧ UpwardClosed (rateWith c.channels ch rate))
  untouched : r.2 < 0 → r.1 = c
  ordered : Ordered r.1

theorem rateCalled_rejected (h : Ordered c)
    (hnot : ¬ (isTxChan ch = true ∧ (c.channels ch).isSome ∧
      UpwardClosed (rateWith c.channels ch rate))) : RateCalled c ch rate (c, -einval) :=
  ⟨iff_of_true (by decide : -einval < 0) hnot, fun _ => rfl, h⟩

theorem rateWith_self (hch : c.channels ch = some chan) :
    rateWith c.channels ch chan.rate = fun ch => (c.channels ch).map CpdmaChan.rate := by
  funext ch'
  unfold rateWith
  by_cases heq : ch' = ch
  · rw [heq, hch]
    simp
  · simp only [heq, if_false]

theorem toInt_nonneg_of_accepted (hrate : Accepted busFreqMhz rate) : 0 ≤ rate.toInt := by
  rcases hrate with rfl | ⟨mbps, hmbps, -, hle⟩
  · decide
  · rw [BitVec.toInt_eq_toNat_of_lt (by omega)]
    omega

/-- The mask and the registers after a call that sets a new rate. -/
theorem SetsRate.ordered (h : SetsRate c ch rate c') (hc : Ordered c) (htx : isTxChan ch = true)
    (hchan' : c'.channels ch = some chan') (hprograms : Programs { chan with rate := rate } chan')
    (hclosed : UpwardClosed (rateWith c.channels ch rate)) : Ordered c' := by
  obtain ⟨chan₀, chan₁, hch, -, hchans, hrates⟩ := h.channels
  have hsame : chan₁ = chan' := by
    rw [hchans, Function.update_self] at hchan'
    exact Option.some.inj hchan'
  subst hsame
  have hcounts : ∀ ch', counts (rateWith c.channels ch rate) ch' = limited (limitOf c' ch') := by
    intro ch'
    unfold limitOf counts rateWith limited
    rw [hchans]
    by_cases heq : ch' = ch
    · rw [heq, Function.update_self, hch, Option.map_some, Option.map_some, Option.any_some,
        Option.any_some, if_pos rfl]
      exact decide_eq_decide.mpr (not_congr hprograms.rate.symm)
    · rw [Function.update_of_ne heq, Option.any_map, Option.any_map]
      simp only [heq, if_false]
  have hsome : ∀ ch', (rateWith c.channels ch rate ch').isSome =
      ((c'.channels ch').map CpdmaChan.rate).isSome := by
    intro ch'
    unfold rateWith
    rw [Option.isSome_map, Option.isSome_map, hchans]
    by_cases heq : ch' = ch
    · rw [heq, Function.update_self, hch]
      rfl
    · rw [Function.update_of_ne heq]
  refine ⟨h.active, h.txLimits htx hc.limits, fun a b hb hlt ha hex => ?_, fun ch' hlt => ?_,
    fun ch' hlt => ?_⟩
  · rw [counts_rates] at ha ⊢
    rw [← hsome] at hex
    have hafter := hclosed a b hb hlt ((hcounts a).trans ha) hex
    exact (hcounts b).symm.trans hafter
  · rw [h.rlim ch' hlt, hcounts]
  · rw [hrates ch' hlt]
    by_cases heq : ch' = ch
    · rw [if_pos heq, heq, ← hcounts ch]
      unfold counts rateWith
      rw [hch, Option.map_some, Option.any_some, if_pos rfl, decide_eq_true_iff]
      exact not_congr hprograms.counts
    · have hkept : limitOf c' ch' = limitOf c ch' := by
        unfold limitOf
        rw [hchans, Function.update_of_ne heq]
      rw [if_neg heq, hkept]
      exact hc.rate ch' hlt

theorem cpdmaChanSetRate_returns
    (h : ∀ chan, c.channels ch = some chan →
      (cpdmaChanSetFactors fuel busFreqMhz { chan with rate := rate }).isSome = true) :
    ∃ r, cpdmaChanSetRate params busFreqMhz fuel c ch rate = some r := by
  unfold cpdmaChanSetRate
  split
  · exact ⟨_, rfl⟩
  rename_i chan hch
  split
  · exact ⟨_, rfl⟩
  split
  · exact ⟨_, rfl⟩
  split
  · exact ⟨_, rfl⟩
  split
  · rename_i hnone
    have hsome := h chan hch
    rw [hnone] at hsome
    cases hsome
  · exact ⟨_, rfl⟩
  · exact ⟨_, rfl⟩

theorem cpdmaChanSetRate_called (hext : params.hasExtRegs = true) (hlo : 125 ≤ busFreqMhz.toNat)
    (hhi : busFreqMhz.toNat ≤ 512) (hfuel : cpdmaMaxRlimCnt < fuel)
    (hrate : Accepted busFreqMhz rate) (h : Ordered c) (ch : ChanId) :
    ∃ r, cpdmaChanSetRate params busFreqMhz fuel c ch rate = some r ∧ RateCalled c ch rate r := by
  have hfactors : ∀ chan : CpdmaChan, ∃ chan',
      cpdmaChanSetFactors fuel busFreqMhz { chan with rate := rate } = some (.ok chan') ∧
        Programs { chan with rate := rate } chan' :=
    fun chan => cpdmaChanSetFactors_programs hlo hhi hrate hfuel
  obtain ⟨⟨c', ret⟩, hcall⟩ : ∃ r, cpdmaChanSetRate params busFreqMhz fuel c ch rate = some r := by
    refine cpdmaChanSetRate_returns fun chan _ => ?_
    obtain ⟨chan', hset, -⟩ := hfactors chan
    rw [hset]
    rfl
  refine ⟨(c', ret), hcall, ?_⟩
  have hdone := cpdmaChanSetRate_ok hext h.active h.limits hcall
  cases cpdmaChanSetRate_end hcall with
  | refused hunfit =>
    refine rateCalled_rejected h ?_
    rintro ⟨htx, hsome, hclosed⟩
    obtain ⟨chan, hch⟩ := Option.isSome_iff_exists.mp hsome
    rw [← fitRate_isSome_iff, hunfit chan hch htx] at hclosed
    cases hclosed
  | same hch htx hsame =>
    have hnonneg := toInt_nonneg_of_accepted hrate
    refine ⟨?_, fun hneg => absurd hneg (by dsimp only; omega), h⟩
    refine iff_of_false (by dsimp only; omega) (not_not.mpr ⟨htx, by rw [hch]; rfl, ?_⟩)
    rw [← hsame, rateWith_self hch]
    exact h.closed
  | @noFactors chan err hch herr =>
    obtain ⟨chan', hset, -⟩ := hfactors chan
    rw [hset] at herr
    cases herr
  | @set chan chan' rmask prioMode hch htx hdiff hfit hset =>
    obtain ⟨chan₁, hset', hprograms⟩ := hfactors chan
    obtain rfl : chan' = chan₁ := Except.ok.inj (Option.some.inj (hset.symm.trans hset'))
    have hclosed : UpwardClosed (rateWith c.channels ch rate) := by
      rw [← fitRate_isSome_iff, hfit]
      rfl
    have hchan' : (writeRate params c ch chan' rmask prioMode).channels ch = some chan' := by
      rw [writeRate_channels, Function.update_self]
    rcases (hdone (le_refl 0)).2 with ⟨hsame, -⟩ | ⟨-, hsets⟩
    · rw [hch] at hsame
      exact absurd (Option.some.inj hsame) hdiff
    · refine ⟨?_, fun hneg => absurd hneg (lt_irrefl (0 : ℤ)),
        hsets.ordered h htx hchan' hprograms hclosed⟩
      exact iff_of_false (lt_irrefl (0 : ℤ)) (not_not.mpr ⟨htx, by rw [hch]; rfl, hclosed⟩)

structure RateCall where
  ch : ChanId
  rate : U32

def rateStep (params : CpdmaParams) (busFreqMhz : U32) (c : CpdmaCtlr τ) (call : RateCall) :
    Option (CpdmaCtlr τ) :=
  (cpdmaChanSetRate params busFreqMhz (cpdmaMaxRlimCnt + 1) c call.ch call.rate).map Prod.fst

def AcceptedCall (busFreqMhz : U32) (_ : CpdmaCtlr τ) (call : RateCall) : Prop :=
  Accepted busFreqMhz call.rate

theorem Started.ordered (h : Started (limitOf c) c) (hlimits : TxLimits (limitOf c))
    (hoff : ∀ ch, limited (limitOf c ch) = false) : Ordered c := by
  refine ⟨h.active, hlimits, fun a b _ _ ha _ => ?_, h.rlim, fun ch hlt => ?_⟩
  · rw [counts_rates] at ha
    exact absurd ha (Bool.eq_false_iff.mp (hoff a))
  · rw [h.rate ch hlt, hoff ch]
    unfold countsOf
    rw [hoff ch, if_neg Bool.false_ne_true]
    simp

/-- After every sequence of calls the limits are in order, and the next call on whatever
channel is rejected exactly if it would break the order, with no trace of it left. -/
theorem ordered_of_run {calls : List RateCall} (hext : params.hasExtRegs = true)
    (hlo : 125 ≤ busFreqMhz.toNat) (hhi : busFreqMhz.toNat ≤ 512) (h : Ordered c)
    (hrun : Run (rateStep params busFreqMhz) (AcceptedCall busFreqMhz) c calls c') :
    Ordered c' ∧ ∀ ch rate fuel, cpdmaMaxRlimCnt < fuel → Accepted busFreqMhz rate →
      ∃ r, cpdmaChanSetRate params busFreqMhz fuel c' ch rate = some r ∧
        RateCalled c' ch rate r := by
  have hstep : ∀ (c : CpdmaCtlr τ) call c', Ordered c → AcceptedCall busFreqMhz c call →
      rateStep params busFreqMhz c call = some c' → Ordered c' := by
    intro c call c' h hcall hst
    obtain ⟨r, hr, rfl⟩ := Option.map_eq_some_iff.mp hst
    obtain ⟨r', hr', hcalled⟩ :=
      cpdmaChanSetRate_called hext hlo hhi (Nat.lt_succ_self _) hcall h call.ch
    rw [hr] at hr'
    obtain rfl := Option.some.inj hr'
    exact hcalled.ordered
  have hend : Ordered c' := hrun.invariant hstep h
  exact ⟨hend, fun ch rate fuel hfuel hrate =>
    cpdmaChanSetRate_called hext hlo hhi hfuel hrate hend ch⟩

set_option maxRecDepth 4000 in
/-- The upper one of two channels is limited, which a start has left without limits. -/
theorem ordered_after_limit : ∃ (s : State Unit) (c' : CpdmaCtlr Unit),
    cpdmaCtlrStart twoTxParams (List.replicate 65 (.advance 0)) twoTx = some (s, 0) ∧
    (∀ ch, limited (limitOf s.ctlr ch) = false) ∧
    Run (rateStep twoTxParams 125) (AcceptedCall 125) s.ctlr [⟨7, 100000⟩] c' ∧
    limited (limitOf c' 7) = true ∧ Ordered c' ∧
    ∃ r, cpdmaChanSetRate twoTxParams 125 20000 c' 7 0 = some r ∧ RateCalled c' 7 0 r := by
  have hexec : ((succeeds (cpdmaCtlrStart twoTxParams (List.replicate 65 (.advance 0)) twoTx)).bind
      fun s => (rateStep twoTxParams 125 s.ctlr ⟨7, 100000⟩).map fun c => (s, c)).any
        (fun r => limited (limitOf r.2 7)) = true := by
    decide +kernel
  obtain ⟨⟨s', c'⟩, hr, hlimited⟩ := (Option.any_eq_true _ _).mp hexec
  obtain ⟨s, hs, hr⟩ := Option.bind_eq_some_iff.mp hr
  obtain ⟨c₁, hst, heq⟩ := Option.map_eq_some_iff.mp hr
  obtain ⟨rfl, rfl⟩ := Prod.mk.inj heq
  have hstarted : Started (limitOf twoTx.ctlr) s.ctlr :=
    cpdmaCtlrStart_started rfl rfl twoTx_limits (succeeds_eq_some hs)
  have hkept := hstarted.kept
  have hoff : ∀ ch, limited (limitOf s.ctlr ch) = false := by
    intro ch
    rw [hkept]
    unfold limitOf twoTx quiet
    dsimp only
    split <;> rfl
  rw [← hkept] at hstarted
  have hstart : Ordered s.ctlr := hstarted.ordered (hkept ▸ twoTx_limits) hoff
  have haccepted : AcceptedCall 125 s.ctlr ⟨7, 100000⟩ := .inr ⟨100, by decide⟩
  have hrun : Run (rateStep twoTxParams 125) (AcceptedCall 125) s.ctlr [⟨7, 100000⟩] c₁ :=
    .cons haccepted hst (.nil _)
  obtain ⟨hordered, hnext⟩ := ordered_of_run rfl (by decide) (by decide) hstart hrun
  exact ⟨s, c₁, succeeds_eq_some hs, hoff, hrun, hlimited, hordered,
    hnext 7 0 20000 (by decide) (.inl rfl)⟩

end CpswDriver.Cpdma
