import CpswDriver.Cpdma.Remains
import CpswDriver.Cpsw.Budgets
import CpswDriver.Cpsw.Maxrate

/-!
The switch between two calls that set a rate. Its queues have channels, which are
limited from the first one on, and the limits are what the search has found for the
rates that were accepted. There a split of the resources comes to an end.
-/

namespace CpswDriver.Channels

open Cpdma Apportion Maxrate Runs

variable {τ : Type*} {s t : Common τ} {n : ℕ} {cfg : Config} {c c' : CpdmaCtlr τ}
  {busFreqMhz rate : U32} {fuel : ℕ} {ch : ChanId} {ret : ℤ}

/-- No limit, or what the search finds for a rate that cpsw_ndo_set_tx_maxrate accepts. -/
def FoundRate (busFreqMhz limit : U32) : Prop :=
  limit = 0 ∨ ∃ chan chan' fuel, Accepted busFreqMhz chan.rate ∧
    cpdmaChanSetFactors fuel busFreqMhz chan = some (.ok chan') ∧ chan'.rate = limit

theorem FoundRate.le {busFreqMhz limit : U32} (hlo : 125 ≤ busFreqMhz.toNat)
    (hhi : busFreqMhz.toNat ≤ 512) (h : FoundRate busFreqMhz limit) : limit.toNat ≤ 4000000 := by
  rcases h with rfl | ⟨chan, chan', fuel, haccepted, hfactors, rfl⟩
  · decide
  rcases haccepted with hzero | ⟨mbps, hrate, hmin, hmbps⟩
  · unfold cpdmaChanSetFactors at hfactors
    rw [if_pos hzero] at hfactors
    obtain rfl := Except.ok.inj (Option.some.inj hfactors)
    dsimp only
    rw [hzero]
    decide
  · have hle := cpdmaChanSetFactors_le_double hlo hhi hrate hmin hmbps hfactors
    omega

/-- What setting a rate leaves of the channels that exist, of the order and of the limits. -/
structure Refits (busFreqMhz : U32) (c c' : CpdmaCtlr τ) : Prop where
  exist : ∀ ch, (c'.channels ch).isSome = (c.channels ch).isSome
  closed : UpwardClosed (fun ch => (c.channels ch).map CpdmaChan.rate) →
    UpwardClosed fun ch => (c'.channels ch).map CpdmaChan.rate
  found : ∀ ch, chRate c' ch = chRate c ch ∨ FoundRate busFreqMhz (chRate c' ch)

theorem Refits.of_limits (busFreqMhz : U32) (h : limitOf c' = limitOf c) :
    Refits busFreqMhz c c' := by
  have hrates : ∀ ch, (c'.channels ch).map CpdmaChan.rate = (c.channels ch).map CpdmaChan.rate := by
    intro ch
    have hlimit := congrArg (Option.map Prod.fst) (congrFun h ch)
    unfold limitOf at hlimit
    rw [Option.map_map, Option.map_map] at hlimit
    exact hlimit
  refine ⟨isSome_of_limits h, fun hclosed => ?_, fun ch => .inl (chRate_of_limits h ch)⟩
  rw [funext hrates]
  exact hclosed

/-- What the search finds is no limit just where none was asked for. -/
theorem rate_zero_iff {chan chan' : CpdmaChan} (hlo : 125 ≤ busFreqMhz.toNat)
    (hhi : busFreqMhz.toNat ≤ 512) (haccepted : Accepted busFreqMhz chan.rate)
    (h : cpdmaChanSetFactors fuel busFreqMhz chan = some (.ok chan')) :
    chan'.rate = 0 ↔ chan.rate = 0 := by
  rcases haccepted with hzero | ⟨mbps, hrate, hmin, hmbps⟩
  · exact iff_of_true ((cpdmaChanSetFactors_fitted h).off hzero) hzero
  · have hreach := (halved_of_accepted hlo hhi hrate hmin hmbps).reach
    refine iff_of_false (fun hzero => hreach.rate_ne_zero ?_) hreach.rate_ne_zero
    have habove := cpdmaChanSetFactors_found hreach h
    rw [hzero, BitVec.le_def] at habove
    exact BitVec.eq_of_toNat_eq (Nat.le_zero.mp habove)

/-- The order that the new rate was found to keep is kept by what the search makes of it. -/
theorem closed_of_fit {chan chan' : CpdmaChan} (hch : c.channels ch = some chan)
    (hiff : chan'.rate = 0 ↔ rate = 0)
    (hchans : c'.channels = Function.update c.channels ch (some chan'))
    (h : UpwardClosed (rateWith c.channels ch rate)) :
    UpwardClosed fun ch => (c'.channels ch).map CpdmaChan.rate := by
  have hcounts : ∀ ch', counts (fun ch => (c'.channels ch).map CpdmaChan.rate) ch' =
      counts (rateWith c.channels ch rate) ch' := by
    intro ch'
    unfold counts rateWith
    rw [hchans]
    dsimp only
    by_cases heq : ch' = ch
    · rw [heq, Function.update_self, hch, Option.map_some, Option.map_some, Option.any_some,
        Option.any_some, if_pos rfl]
      exact decide_eq_decide.mpr (not_congr hiff)
    · rw [Function.update_of_ne heq]
      simp only [heq, if_false]
  intro a b htx hlt ha hb
  rw [hcounts] at ha ⊢
  refine h a b htx hlt ha ?_
  rw [hchans, Option.isSome_map] at hb
  unfold rateWith
  rw [Option.isSome_map]
  by_cases heq : b = ch
  · rw [heq, hch]
    rfl
  · rwa [Function.update_of_ne heq] at hb

theorem cpdmaChanSetRate_refits {params : CpdmaParams} (hlo : 125 ≤ busFreqMhz.toNat)
    (hhi : busFreqMhz.toNat ≤ 512) (haccepted : Accepted busFreqMhz rate)
    (h : cpdmaChanSetRate params busFreqMhz fuel c ch rate = some (c', ret)) :
    Refits busFreqMhz c c' := by
  cases cpdmaChanSetRate_end h with
  | refused => exact .of_limits busFreqMhz rfl
  | same => exact .of_limits busFreqMhz rfl
  | noFactors hch hfactors =>
    exact absurd hfactors (cpdmaChanSetFactors_ne_error (.inr (freq_ne_zero hlo hhi)))
  | @set chan chan' rmask prioMode hch htx hdiff hfit hfactors =>
    have haccepted : Accepted busFreqMhz { chan with rate := rate }.rate := haccepted
    have hclosed : UpwardClosed (rateWith c.channels ch rate) := by
      rw [← fitRate_isSome_iff, hfit]
      rfl
    have hchans : (writeRate params c ch chan' rmask prioMode).channels = _ := writeRate_channels
    refine ⟨fun ch' => ?_, fun _ => ?_, fun ch' => ?_⟩
    · rw [hchans]
      by_cases heq : ch' = ch
      · rw [heq, Function.update_self, hch]
        rfl
      · rw [Function.update_of_ne heq]
    · exact closed_of_fit hch (rate_zero_iff hlo hhi haccepted hfactors) hchans hclosed
    · unfold chRate
      rw [hchans]
      by_cases heq : ch' = ch
      · rw [heq, Function.update_self]
        exact .inr (.inr ⟨_, chan', fuel, haccepted, hfactors, rfl⟩)
      · rw [Function.update_of_ne heq]
        exact .inl rfl

/-- The switch with queues to poll, whose limits have been accepted one after another. -/
structure Polling (cfg : Config) (s : Common τ) : Prop where
  bus : 125 ≤ cfg.busFreqMhz.toNat ∧ cfg.busFreqMhz.toNat ≤ 512
  vectors : Vectors cfg s
  txPos : 0 < s.txChNum
  rxPos : 0 < s.rxChNum
  lock : s.dma.lock = none
  exist : ∀ queue < s.txChNum, (s.dma.ctlr.channels (txChan cfg queue)).isSome
  found : ∀ queue < s.txChNum, FoundRate cfg.busFreqMhz (chRate s.dma.ctlr (txChan cfg queue))
  closed : UpwardClosed fun ch => (s.dma.ctlr.channels ch).map CpdmaChan.rate

theorem Polling.ready (h : Polling cfg s) : Ready (txChan cfg) s :=
  ⟨h.lock, fun i hi => ⟨h.vectors.tx i hi, h.exist i hi⟩⟩

theorem counts_iff_chRate (c : CpdmaCtlr τ) (ch : ChanId) :
    counts (fun ch => (c.channels ch).map CpdmaChan.rate) ch = true ↔ chRate c ch ≠ 0 := by
  unfold counts chRate
  rw [Option.any_map]
  cases c.channels ch <;> simp

/-- The channels of the queues go down from the one with the highest number. -/
theorem Polling.limitedFirst (h : Polling cfg s) :
    LimitedFirst (fun queue => chRate s.dma.ctlr (txChan cfg queue)) s.txChNum := by
  intro i hi j hj hlimited
  obtain ⟨hnum, hquirk⟩ := h.vectors.txNum
  unfold cpswMaxQueues at hnum
  have hnot : cfg.quirkIrq = false := by
    by_contra hon
    have := hquirk (by simpa using hon)
    omega
  have hlt : txChan cfg i < txChan cfg j := by
    rw [txChan, txChan, hnot, if_neg Bool.false_ne_true, if_neg Bool.false_ne_true]
    rw [Fin.lt_def, (vch_val (by unfold cpswMaxQueues; omega)).2,
      (vch_val (by unfold cpswMaxQueues; omega)).2]
    omega
  have htx : isTxChan (txChan cfg j) = true := by
    have := txChan_lt cfg (by unfold cpswMaxQueues; omega : j < cpswMaxQueues)
    rw [isTxChan_iff]
    omega
  rw [← counts_iff_chRate] at hlimited ⊢
  refine h.closed _ _ htx hlt hlimited ?_
  rw [Option.isSome_map]
  exact h.exist j (by omega)

def limits (cfg : Config) (s : Common τ) (queue : ℕ) : U32 := chRate s.dma.ctlr (txChan cfg queue)

theorem Polling.limit_le (h : Polling cfg s) : ∀ i < s.txChNum, (limits cfg s i).toNat ≤ 4000000 :=
  fun i hi => (h.found i hi).le h.bus.1 h.bus.2

/-- What a split comes to: the shares, what they make of the controller, and the budgets. -/
structure Splits (cfg : Config) (s : Common τ) (h : Shares) (t : Common τ) : Prop where
  split : cpswSplitRes cfg.params s = some t
  parts : Parts (limits cfg s) s.txChNum s.speed.toNat h
  dma : t.dma = { s.dma with ctlr := retuned (txChan cfg) h s.dma.ctlr s.txChNum }
  tx : ∀ i < s.txChNum, (t.txv i).budget = settle (List.range s.txChNum)
    (fun i => partOf h (limits cfg s i)) napiPollWeight (takerOf h (limits cfg s) s.txChNum).2 i
  rx : ∀ i < s.rxChNum, (t.rxv i).budget = settle (List.range s.rxChNum)
    (fun _ => (napiPollWeight / s.rxChNum : ℕ)) napiPollWeight 0 i

theorem Polling.splits (h : Polling cfg s) (hpos : 0 < s.speed.toNat)
    (hint : 1000 * s.speed.toNat < 2 ^ 31) :
    ∃ v h' t, v.consumedRate.toNat = totalRate (limits cfg s) s.txChNum ∧
      v.rlimChNum = limitedNum (limits cfg s) s.txChNum ∧
      shares s.speed s.txChNum v = some h' ∧ Splits cfg s h' t := by
  have hn : s.txChNum ≤ 8 := h.vectors.txNum.1
  have hfit : totalRate (limits cfg s) s.txChNum ≤ 32000000 :=
    (totalRate_le h.limit_le).trans (Nat.mul_le_mul_right 4000000 hn)
  obtain ⟨v, hv, htotal, hnum⟩ :=
    consumedRates_spec h.ready
      (show limits cfg s = fun i => chRate s.dma.ctlr (txChan cfg i) from rfl) (by omega)
  obtain ⟨h', hshares, hparts⟩ :=
    shares_parts h.txPos hn hpos hint h.limitedFirst h.limit_le htotal hnum
  obtain ⟨t, htx, hdma, htxv⟩ := splitTx_spec cfg.params h.ready hparts.divides hparts.taker
  have hsame := splitTx_same htx
  obtain ⟨t', hrx, hdma', htxv', hrxv⟩ :=
    splitRx_spec (s := t) (by rw [hsame.rxChNum]; exact h.rxPos)
  rw [hsame.rxChNum] at hrxv
  refine ⟨v, h', t', htotal, hnum, hshares, ?_, hparts, hdma'.trans hdma, ?_, hrxv⟩
  · unfold cpswSplitRes
    rw [hv, Option.bind_some, hshares, Option.bind_some, htx, Option.bind_some, hrx]
  · intro i hi
    rw [htxv']
    exact htxv i hi

def budgetSum (vec : ℕ → CpswVector) (n : ℕ) : ℤ := ((List.range n).map fun i => (vec i).budget).sum

/-- A split gives the whole poll weight to the channels of either direction. -/
def GivesAll (s t : Common τ) : Prop :=
  budgetSum t.txv s.txChNum = napiPollWeight ∧ budgetSum t.rxv s.rxChNum = napiPollWeight

/-- A split gives the whole poll weight away, and some of it to every channel. -/
def Budgeted (params : CpdmaParams) (s : Common τ) : Prop :=
  ∃ t, cpswSplitRes params s = some t ∧ GivesAll s t ∧
    (∀ i < s.txChNum, 1 ≤ (t.txv i).budget) ∧ ∀ i < s.rxChNum, 1 ≤ (t.rxv i).budget

theorem budgetSum_settle {vec : ℕ → CpswVector} {part : ℕ → ℤ} {taker : ℕ} (ht : taker < n)
    (h : ∀ i < n, (vec i).budget = settle (List.range n) part napiPollWeight taker i) :
    budgetSum vec n = napiPollWeight := by
  unfold budgetSum
  rw [List.map_congr_left fun i hi => h i (List.mem_range.mp hi)]
  exact sum_settle List.nodup_range (List.mem_range.mpr ht)

theorem Splits.givesAll {h : Shares} {t : Common τ} (hsplit : Splits cfg s h t)
    (hrx : 0 < s.rxChNum) : GivesAll s t :=
  ⟨budgetSum_settle hsplit.parts.taker hsplit.tx, budgetSum_settle hrx hsplit.rx⟩

theorem Splits.rx_pos {h : Shares} {t : Common τ} (hsplit : Splits cfg s h t)
    (hn0 : 0 < s.rxChNum) (hn : s.rxChNum ≤ 8) : ∀ i < s.rxChNum, 1 ≤ (t.rxv i).budget := by
  have hdiv : 8 ≤ 64 / s.rxChNum := by
    rw [Nat.le_div_iff_mul_le hn0]
    omega
  have hmul := Nat.mul_div_le 64 s.rxChNum
  have hweight : napiPollWeight = 64 := rfl
  have hrx := hsplit.rx
  rw [hweight] at hrx
  intro i hi
  rw [hrx i hi]
  by_cases heq : i = 0
  · rw [heq, settle_self (List.mem_range.mpr hn0), List.map_const', List.sum_replicate,
      List.length_range, nsmul_eq_mul, ← Nat.cast_mul]
    omega
  · rw [settle_of_ne heq]
    omega

theorem Splits.tx_pos_iff {h : Shares} {t : Common τ} (hsplit : Splits cfg s h t) :
    (∀ i < s.txChNum, 1 ≤ (t.txv i).budget) ↔
      LeavesSome (limits cfg s) s.txChNum s.speed.toNat := by
  rw [← hsplit.parts.pos_iff]
  constructor
  · intro hpos i hi
    have hone := hpos i (List.mem_range.mp hi)
    rwa [hsplit.tx i (List.mem_range.mp hi)] at hone
  · intro hpos i hi
    rw [hsplit.tx i hi]
    exact hpos i (List.mem_range.mpr hi)

/-- A split always gives the poll weight away, and it leaves no channel without a budget just
when there is a unit for every queue. -/
theorem cpswSplitRes_budgets_iff (h : Polling cfg s) (hpos : 0 < s.speed.toNat)
    (hint : 1000 * s.speed.toNat < 2 ^ 31) :
    (∃ t, cpswSplitRes cfg.params s = some t ∧ GivesAll s t ∧
        ∀ i < s.rxChNum, 1 ≤ (t.rxv i).budget) ∧
      (Budgeted cfg.params s ↔ LeavesSome (limits cfg s) s.txChNum s.speed.toNat) := by
  obtain ⟨-, h', t, -, -, -, hsplit⟩ := h.splits hpos hint
  have hall := hsplit.givesAll h.rxPos
  have hrx := hsplit.rx_pos h.rxPos h.vectors.rxNum
  refine ⟨⟨t, hsplit.split, hall, hrx⟩, ?_⟩
  rw [← hsplit.tx_pos_iff]
  constructor
  · rintro ⟨t', hsplit', -, htx, -⟩
    rw [hsplit.split] at hsplit'
    obtain rfl := Option.some.inj hsplit'
    exact htx
  · exact fun htx => ⟨t, hsplit.split, hall, htx, hrx⟩

theorem Polling.congr (h : Polling cfg s) (hsame : SameLimits s t) (hlock : t.dma.lock = none) :
    Polling cfg t := by
  have hrefits : Refits cfg.busFreqMhz s.dma.ctlr t.dma.ctlr := .of_limits _ hsame.limits
  refine ⟨h.bus, h.vectors.congr hsame, ?_, ?_, hlock, fun queue hq => ?_, fun queue hq => ?_,
    hrefits.closed h.closed⟩
  · rw [hsame.txChNum]
    exact h.txPos
  · rw [hsame.rxChNum]
    exact h.rxPos
  · rw [hsame.txChNum] at hq
    rw [hrefits.exist]
    exact h.exist queue hq
  · rw [hsame.txChNum] at hq
    rw [chRate_of_limits hsame.limits]
    exact h.found queue hq

theorem Polling.refit (h : Polling cfg s) (hrefits : Refits cfg.busFreqMhz s.dma.ctlr c') :
    Polling cfg { s with dma := { s.dma with ctlr := c' } } := by
  refine ⟨h.bus, ⟨h.vectors.txNum, h.vectors.tx, h.vectors.rxNum, h.vectors.rx⟩, h.txPos, h.rxPos,
    h.lock, fun queue hq => ?_, fun queue hq => ?_, hrefits.closed h.closed⟩
  · exact (hrefits.exist _).trans (h.exist queue hq)
  · rcases hrefits.found (txChan cfg queue) with hkept | hfound
    · exact hkept ▸ h.found queue hq
    · exact hfound

theorem accepted_of_checks {speed : U32} (hspeed : speed.toNat ≤ 2000)
    (hmin : ¬ (rate * 1000 < cpdmaChanGetMinRate busFreqMhz ∧ rate * 1000 ≠ 0))
    (hle : ¬ speed < rate) : Accepted busFreqMhz (rate * 1000) := by
  rw [BitVec.lt_def] at hle
  by_cases hzero : rate * 1000 = 0
  · exact .inl hzero
  · refine .inr ⟨rate.toNat, ?_, ?_, by omega⟩
    · rw [BitVec.toNat_mul, show (1000 : U32).toNat = 1000 from rfl, Nat.mod_eq_of_lt (by omega)]
      omega
    · have hnot : ¬ rate * 1000 < cpdmaChanGetMinRate busFreqMhz := fun hlt => hmin ⟨hlt, hzero⟩
      rw [BitVec.lt_def] at hnot
      exact BitVec.le_def.mpr (Nat.le_of_not_lt hnot)

/-- A call that sets a rate while a link is up, and the split at its end. -/
theorem Polling.setTxMaxrate {s t : Maxrate.State τ} {p : Port} {queue : ℕ} {pm : ℤ}
    (h : Polling cfg s.cpsw) (hpos : 0 < s.cpsw.speed.toNat) (hspeed : s.cpsw.speed.toNat ≤ 2000)
    (hset : cpswNdoSetTxMaxrate cfg fuel s p queue rate pm = some (t, ret)) :
    Polling cfg t.cpsw := by
  unfold cpswNdoSetTxMaxrate at hset
  split at hset
  · obtain ⟨rfl, -⟩ := Prod.mk.inj (Option.some.inj hset)
    exact h
  dsimp only at hset
  split at hset
  · obtain ⟨rfl, -⟩ := Prod.mk.inj (Option.some.inj hset)
    exact h
  rename_i hmin
  split at hset
  · obtain ⟨rfl, -⟩ := Prod.mk.inj (Option.some.inj hset)
    exact h
  rename_i hle
  split at hset
  · obtain ⟨rfl, -⟩ := Prod.mk.inj (Option.some.inj hset)
    exact h
  have haccepted := accepted_of_checks hspeed hmin hle
  obtain ⟨⟨cpsw, ret'⟩, hrate, hset⟩ := Option.bind_eq_some_iff.mp hset
  dsimp only at hset
  have hcpsw : Polling cfg cpsw ∧ cpsw.speed = s.cpsw.speed := by
    unfold setVecRate at hrate
    split at hrate
    · obtain ⟨rfl, -⟩ := Prod.mk.inj (Option.some.inj hrate)
      exact ⟨h, rfl⟩
    split at hrate
    · cases hrate
    obtain ⟨r, hcall, heq⟩ := Option.map_eq_some_iff.mp hrate
    obtain ⟨rfl, -⟩ := Prod.mk.inj heq
    exact ⟨h.refit (cpdmaChanSetRate_refits h.bus.1 h.bus.2 haccepted hcall), rfl⟩
  obtain ⟨hpolling, hsame⟩ := hcpsw
  split at hset
  · obtain ⟨rfl, -⟩ := Prod.mk.inj (Option.some.inj hset)
    exact hpolling
  · obtain ⟨cpsw', hsplit, heq⟩ := Option.map_eq_some_iff.mp hset
    obtain ⟨rfl, -⟩ := Prod.mk.inj heq
    rw [← hsame] at hpos hspeed
    obtain ⟨-, h', t', -, -, -, hsplits⟩ := hpolling.splits hpos (by omega)
    rw [hsplits.split] at hsplit
    obtain rfl := Option.some.inj hsplit
    refine hpolling.congr (cpswSplitRes_same hsplits.split) ?_
    rw [hsplits.dma]
    exact hpolling.lock

def wideConfig : Config := { exampleConfig with params := smallParams 256 (by decide) }

/-- The channels of `n` tx queues with these limits, and one rx channel. -/
def queueChans (n : ℕ) (rate : ChanId → U32) (ch : ChanId) : Option CpdmaChan :=
  if ch = 32 then some {}
  else if ch.val < 8 ∧ 8 ≤ ch.val + n then some { rate := rate ch }
  else none

/-- The queues after a split of the pool, on a link of 1 Gbit/s. -/
def queuesOf (n : ℕ) (rate : ChanId → U32) : Common Unit where
  dma := { quiet wideConfig.params () .idle (queueChans n rate) 128 128 with
    ctlr := (cpdmaChanSplitPool
      (quiet wideConfig.params () .idle (queueChans n rate) 128 128).ctlr).1 }
  txv := fun i => ⟨some (vch false i), 0⟩
  rxv := fun _ => ⟨some 32, 64⟩
  txChNum := n
  rxChNum := 1
  speed := 1000

theorem queuesOf_quota (n : ℕ) (rate : ChanId → U32) :
    QuotaOnly (queueChans n rate) (queuesOf n rate).dma.ctlr.channels := by
  obtain ⟨channels, hquota, heq⟩ := cpdmaChanSplitPool_frame
    (quiet wideConfig.params () .idle (queueChans n rate) 128 128).ctlr
  dsimp only [queuesOf]
  rw [heq]
  exact hquota

theorem queueChans_tx {rate : ChanId → U32} (hlt : ch.val < 8) :
    queueChans n rate ch = if 8 ≤ ch.val + n then some { rate := rate ch } else none := by
  have hne : ch ≠ 32 := by
    rintro rfl
    exact absurd hlt (by decide)
  unfold queueChans
  rw [if_neg hne]
  simp only [hlt, true_and]

theorem chRate_queuesOf {rate : ChanId → U32} (hlt : ch.val < 8) (hn : 8 ≤ ch.val + n) :
    chRate (queuesOf n rate).dma.ctlr ch = rate ch := by
  obtain ⟨m, hm⟩ := queuesOf_quota n rate ch
  unfold chRate
  rw [hm, queueChans_tx hlt, if_pos hn]
  rfl

theorem polling_queuesOf {rate : ChanId → U32} (hpos : 0 < n) (hn : n ≤ 8)
    (hfound : ∀ ch : ChanId, ch.val < 8 → FoundRate 125 (rate ch))
    (hclosed : ∀ a b : ChanId, a < b → b.val < 8 → rate a ≠ 0 → rate b ≠ 0) :
    Polling wideConfig (queuesOf n rate) where
  bus := by decide
  vectors := ⟨⟨hn, fun hcon => absurd hcon (by decide)⟩, fun _ _ => rfl, by
    show 1 ≤ cpswMaxQueues
    decide, fun i hi => by
      obtain rfl : i = 0 := Nat.lt_one_iff.mp hi
      rfl⟩
  txPos := hpos
  rxPos := Nat.one_pos
  lock := rfl
  exist := by
    intro queue (hq : queue < n)
    have hval := (vch_val (by unfold cpswMaxQueues; omega : queue < cpswMaxQueues)).2
    have hlt : (vch false queue).val < 8 := by omega
    show ((queuesOf n rate).dma.ctlr.channels (vch false queue)).isSome
    rw [(queuesOf_quota n rate).isSome, queueChans_tx hlt, if_pos (by omega)]
    rfl
  found := by
    intro queue (hq : queue < n)
    have hval := (vch_val (by unfold cpswMaxQueues; omega : queue < cpswMaxQueues)).2
    have hlt : (vch false queue).val < 8 := by omega
    show FoundRate 125 (chRate (queuesOf n rate).dma.ctlr (vch false queue))
    rw [chRate_queuesOf hlt (by omega)]
    exact hfound _ hlt
  closed := by
    intro a b htx hlt ha hb
    have htx' := isTxChan_iff.mp htx
    have hval : a.val < b.val := hlt
    rw [Option.isSome_map, (queuesOf_quota n rate).isSome] at hb
    have hb8 : b.val < 8 ∧ 8 ≤ b.val + n := by
      unfold queueChans at hb
      split at hb
      · rename_i heq
        rw [heq] at htx'
        exact absurd htx' (by decide)
      · split at hb
        · assumption
        · cases hb
    rw [counts_iff_chRate] at ha ⊢
    have ha8 : 8 ≤ a.val + n := by
      by_contra hnot
      obtain ⟨m, hm⟩ := queuesOf_quota n rate a
      rw [queueChans_tx (by omega), if_neg hnot, Option.map_none] at hm
      refine ha ?_
      unfold chRate
      rw [hm]
      rfl
    rw [chRate_queuesOf (by omega) ha8] at ha
    rw [chRate_queuesOf hb8.1 hb8.2]
    exact hclosed a b hlt hb8.1 ha

/-- The first of two queues is limited to a tenth of the link. -/
theorem cpswSplitRes_budgets_with_limit : ∃ s : Maxrate.State Unit,
    cpswNdoSetTxMaxrate wideConfig 4 ⟨queuesOf 2 fun _ => 0, fun _ _ => 0⟩ 0 0 100 0 =
      some (s, 0) ∧
    (∃ t, cpswSplitRes wideConfig.params s.cpsw = some t ∧ GivesAll s.cpsw t ∧
        ∀ i < s.cpsw.rxChNum, 1 ≤ (t.rxv i).budget) ∧
      (Budgeted wideConfig.params s.cpsw ↔
        LeavesSome (limits wideConfig s.cpsw) s.cpsw.txChNum s.cpsw.speed.toNat) := by
  have hany : (cpswNdoSetTxMaxrate wideConfig 4 ⟨queuesOf 2 fun _ => 0, fun _ _ => 0⟩ 0 0 100 0).any
      (fun r => r.2 = 0 && r.1.cpsw.speed = 1000) = true := by
    decide +kernel
  obtain ⟨⟨s, ret⟩, hset, hr⟩ := (Option.any_eq_true _ _).mp hany
  obtain ⟨hret, hspeed⟩ := Bool.and_eq_true_iff.mp hr
  obtain rfl : ret = 0 := of_decide_eq_true hret
  have hspeed : s.cpsw.speed = 1000 := of_decide_eq_true hspeed
  have hstart : Polling wideConfig (queuesOf 2 fun _ => 0) :=
    polling_queuesOf (by omega) (by omega) (fun _ _ => .inl rfl) fun _ _ _ _ ha => absurd rfl ha
  have hpolling : Polling wideConfig s.cpsw :=
    hstart.setTxMaxrate (s := ⟨queuesOf 2 fun _ => 0, fun _ _ => 0⟩) (show 0 < 1000 by omega)
      (show 1000 ≤ 2000 by omega) hset
  exact ⟨s, hset, cpswSplitRes_budgets_iff hpolling (by rw [hspeed]; decide)
    (by rw [hspeed]; decide)⟩

/-- One of two queues is limited to what the link can carry: the other gets no budget. -/
theorem limited_link_starves_queue : ∃ s : Maxrate.State Unit,
    Run (step exampleConfig) (Covered exampleConfig) exampleState
      [.setChannels 0 ⟨0, 1, 2⟩ noTrouble, .setTxMaxrate 0 0 1000 4 0] s ∧
    s.cpsw.speed = 1000 ∧ s.cpsw.txChNum = 2 ∧ s.cpsw.rxChNum = 1 ∧
    ¬ Budgeted exampleConfig.params s.cpsw := by
  have hany : (exec (step exampleConfig) (Covered exampleConfig) exampleState
      [.setChannels 0 ⟨0, 1, 2⟩ noTrouble, .setTxMaxrate 0 0 1000 4 0]).any (fun s =>
        s.cpsw.speed = 1000 && s.cpsw.txChNum = 2 && s.cpsw.rxChNum = 1 &&
        (cpswSplitRes exampleConfig.params s.cpsw).any fun t => (t.txv 1).budget = 0) = true := by
    decide +kernel
  obtain ⟨s, hrun, hs⟩ := exists_run_of_any hany
  simp only [Bool.and_eq_true, decide_eq_true_eq] at hs
  obtain ⟨⟨⟨hspeed, htx⟩, hrx⟩, hsplit⟩ := hs
  obtain ⟨t, ht, hbudget⟩ := (Option.any_eq_true _ _).mp hsplit
  refine ⟨s, hrun, hspeed, htx, hrx, ?_⟩
  rintro ⟨t', ht', -, hone, -⟩
  rw [ht] at ht'
  obtain rfl := Option.some.inj ht'
  have hfirst := hone 1 (by omega)
  rw [of_decide_eq_true hbudget] at hfirst
  omega

end CpswDriver.Channels
