import CpswDriver.Cpdma.Destroy
import CpswDriver.Cpdma.Search
import CpswDriver.Cpdma.Shaper

/-!
The limits of the channels along the operations of the driver. A channel keeps its
limit until it is set again or the channel is destroyed, and a limit that is set on
a bus of at most 512 MHz is not below the rate that was asked for.
-/

namespace CpswDriver.Cpdma

open Runs CallTable

variable {τ : Type*} {params : CpdmaParams} {c c' c'' : CpdmaCtlr τ} {ch ch' : ChanId}
  {chan chan' : CpdmaChan} {s s' t : State τ}

def KeepsLimits (c c' : CpdmaCtlr τ) : Prop :=
  ∀ ch, (limitOf c ch).isSome → limitOf c' ch = limitOf c ch

theorem KeepsLimits.of_eq (h : limitOf c' = limitOf c) : KeepsLimits c c' :=
  fun ch _ => congrFun h ch

theorem KeepsLimits.trans (h : KeepsLimits c c') (h' : KeepsLimits c' c'') : KeepsLimits c c'' := by
  intro ch hch
  rw [h' ch (by rw [h ch hch]; exact hch), h ch hch]

theorem QuotaOnly.limits {f g : ChanId → Option CpdmaChan} (h : QuotaOnly f g) (ch : ChanId) :
    (g ch).map (fun chan => (chan.rate, chan.rateFactor)) =
      (f ch).map fun chan => (chan.rate, chan.rateFactor) := by
  obtain ⟨n, hn⟩ := h ch
  rw [hn, Option.map_map]
  rfl

theorem cpdmaChanSplitPool_limits (c : CpdmaCtlr τ) :
    limitOf (cpdmaChanSplitPool c).1 = limitOf c := by
  obtain ⟨channels, hquota, heq⟩ := cpdmaChanSplitPool_frame c
  rw [heq]
  funext ch
  exact hquota.limits ch

theorem cpdmaChanSetWeight_limits (hch : c.channels ch = some chan) (weight : ℤ) :
    limitOf (cpdmaChanSetWeight c ch chan weight).1 = limitOf c := by
  unfold cpdmaChanSetWeight
  split
  · rfl
  · rw [cpdmaChanSplitPool_limits]
    exact limitOf_setChan hch rfl rfl

theorem cpdmaSetNumRxDescs_limits (c : CpdmaCtlr τ) (numRxDesc : ℤ) :
    limitOf (cpdmaSetNumRxDescs params.pool c numRxDesc).1 = limitOf c := by
  funext ch
  exact (cpdmaSetNumRxDescs_quotaOnly params c numRxDesc).limits ch

/-- Creating a channel fails, or gives a channel without a limit. -/
theorem cpdmaChanCreate_limits (params : CpdmaParams) (c : CpdmaCtlr τ) (ch : ChanId)
    (zalloc : Bool) :
    (cpdmaChanCreate params c ch zalloc).2 ≠ 0 ∧ (cpdmaChanCreate params c ch zalloc).1 = c ∨
      (cpdmaChanCreate params c ch zalloc).2 = 0 ∧ c.channels ch = none ∧
      limitOf (cpdmaChanCreate params c ch zalloc).1 =
        Function.update (limitOf c) ch (some (0, 0)) := by
  unfold cpdmaChanCreate
  split
  · exact .inl ⟨by simp [einval], rfl⟩
  split
  · exact .inl ⟨by simp [enomem], rfl⟩
  split
  · exact .inl ⟨by simp [ebusy], rfl⟩
  · rename_i hnone
    refine .inr ⟨rfl, Option.not_isSome_iff_eq_none.mp hnone, ?_⟩
    dsimp only
    rw [cpdmaChanSplitPool_limits]
    funext ch'
    unfold limitOf CpdmaCtlr.setChan
    dsimp only
    by_cases heq : ch' = ch
    · rw [heq, Function.update_self, Function.update_self]
      rfl
    · rw [Function.update_of_ne heq, Function.update_of_ne heq]

theorem cpdmaChanCreate_keeps (c : CpdmaCtlr τ) (ch : ChanId) (zalloc : Bool) :
    KeepsLimits c (cpdmaChanCreate params c ch zalloc).1 := by
  rcases cpdmaChanCreate_limits params c ch zalloc with
    ⟨-, hsame⟩ | ⟨-, hnone, hlimits⟩
  · exact .of_eq (congrArg limitOf hsame)
  · intro ch' hch'
    have hne : ch' ≠ ch := by
      rintro rfl
      rw [limitOf_isSome, hnone] at hch'
      cases hch'
    rw [hlimits, Function.update_of_ne hne]

theorem cpdmaChanSubmitLocked_rate (pool : CpdmaDescPool) (mem : ℕ → CpdmaDesc τ)
    (chan : CpdmaChan) (desc : ℕ) :
    (cpdmaChanSubmitLocked pool mem chan desc).2.rate = chan.rate ∧
      (cpdmaChanSubmitLocked pool mem chan desc).2.rateFactor = chan.rateFactor := by
  unfold cpdmaChanSubmitLocked
  dsimp only
  split
  · split <;> exact ⟨rfl, rfl⟩
  · split <;> exact ⟨rfl, rfl⟩

theorem countRunt_rate (params : CpdmaParams) (len : ℕ) (chan : CpdmaChan) :
    (countRunt params len chan).rate = chan.rate ∧
      (countRunt params len chan).rateFactor = chan.rateFactor := by
  unfold countRunt
  split <;> exact ⟨rfl, rfl⟩

theorem writeRxfree_rate (ch : ChanId) (chan : CpdmaChan) :
    (writeRxfree ch chan).rate = chan.rate ∧
      (writeRxfree ch chan).rateFactor = chan.rateFactor := by
  unfold writeRxfree
  split <;> exact ⟨rfl, rfl⟩

theorem submitStep_limits {kind : SubmitKind} {args : SubmitArgs τ} {mapped : Option U32}
    (hch : s.ctlr.channels ch = some chan) :
    limitOf (submitStep params s kind ch chan args mapped).1.ctlr = limitOf s.ctlr := by
  have hctlr : (submitStep params s kind ch chan args mapped).1.ctlr =
      (submitEntry kind params s.ctlr ch chan args mapped).1 := by
    unfold submitStep
    dsimp only
    split <;> rfl
  rw [hctlr]
  unfold submitEntry
  split
  · rfl
  unfold cpdmaChanSubmitSi
  split
  · exact limitOf_setChan hch rfl rfl
  split
  · exact limitOf_setChan hch rfl rfl
  · dsimp only
    obtain ⟨hrate, hfactor⟩ :=
      countRunt_rate params (submitInfo kind args).len chan
    split
    · exact limitOf_setChan hch hrate hfactor
    · rename_i desc _ _ buffer _
      obtain ⟨hrate₁, hfactor₁⟩ := cpdmaChanSubmitLocked_rate params.pool
        (Function.update s.ctlr.mem desc (freshDesc ch (submitInfo kind args) buffer
          (paddedLen params (submitInfo kind args).len)))
        (countRunt params (submitInfo kind args).len chan) desc
      obtain ⟨hrate₂, hfactor₂⟩ := writeRxfree_rate ch (cpdmaChanSubmitLocked params.pool
        (Function.update s.ctlr.mem desc (freshDesc ch (submitInfo kind args) buffer
          (paddedLen params (submitInfo kind args).len)))
        (countRunt params (submitInfo kind args).len chan) desc).2
      refine limitOf_setChan hch ?_ ?_
      · exact hrate₂.trans (hrate₁.trans hrate)
      · exact hfactor₂.trans (hfactor₁.trans hfactor)

/-- No step of the DMA driver changes the limit of a channel. -/
theorem step_limits {op : Op τ} (hst : step params s op = some s') :
    KeepsLimits s.ctlr s'.ctlr := by
  cases op with
  | submit kind ch args mapped =>
    obtain ⟨chan, hch, rfl⟩ := Option.map_eq_some_iff.mp hst
    exact .of_eq (submitStep_limits hch)
  | engine desc hwMode hwLen => exact .of_eq (engine_limits rfl hst).1
  | engineHdp ch hdp => exact .of_eq (engine_limits rfl hst).1
  | chanProcess ch quota =>
    obtain ⟨chan, hch, rfl⟩ := Option.map_eq_some_iff.mp hst
    exact .of_eq rfl
  | chanStop ch =>
    obtain ⟨chan, hch, rfl⟩ := Option.map_eq_some_iff.mp hst
    exact .of_eq rfl
  | chanStart ch =>
    obtain ⟨-, chan, hch, rfl⟩ := step_chanStart hst
    exact .of_eq (limitOf_of_channels cpdmaChanSetChanShaper_channels)
  | ctlrStart =>
    obtain ⟨-, ⟨-, rfl⟩ | ⟨-, rfl⟩⟩ := step_ctlrStart hst
    · exact .of_eq rfl
    · refine .of_eq ?_
      have hchans : (ctlrStartBegin params s.ctlr).channels = zeroHdp params s.ctlr.channels := by
        unfold ctlrStartBegin
        split <;> rfl
      funext ch
      dsimp only [State.spawn, limitOf]
      rw [hchans]
      unfold zeroHdp
      split
      · rw [Option.map_map]
        rfl
      · rfl
  | ctlrStop =>
    obtain ⟨-, ⟨-, rfl⟩ | ⟨-, rfl⟩⟩ := step_ctlrStop hst
    · exact .of_eq rfl
    · exact .of_eq rfl
  | chanCreate ch zalloc =>
    simp only [step] at hst
    split at hst
    · cases hst
    · obtain rfl := Option.some.inj hst
      exact cpdmaChanCreate_keeps s.ctlr ch zalloc
  | setWeight ch weight =>
    simp only [step] at hst
    split at hst
    · cases hst
    · obtain ⟨chan, hch, rfl⟩ := Option.map_eq_some_iff.mp hst
      exact .of_eq (cpdmaChanSetWeight_limits hch weight)
  | setNumRxDescs numRxDesc =>
    simp only [step] at hst
    split at hst
    · cases hst
    · obtain rfl := Option.some.inj hst
      exact .of_eq (cpdmaSetNumRxDescs_limits s.ctlr numRxDesc)
  | advance k =>
    obtain ⟨pc, -, hadv⟩ := Option.bind_eq_some_iff.mp hst
    exact .of_eq (limitOf_advance hadv)

variable {busFreqMhz rate : U32} {fuel mbps : ℕ}

theorem cpdmaChanSetFactors_found {chan : CpdmaChan}
    (h : Reachable busFreqMhz mbps (busFreqMhz * 1000 * 32) chan.rate)
    (hset : cpdmaChanSetFactors fuel busFreqMhz chan = some (.ok chan')) :
    chan.rate ≤ chan'.rate := by
  have hrate : chan.rate ≠ 0 := h.rate_ne_zero
  unfold cpdmaChanSetFactors at hset
  rw [if_neg hrate] at hset
  dsimp only at hset
  split at hset
  · cases Option.some.inj hset
  · obtain ⟨chan₁, hsearch, hok⟩ := Option.map_eq_some_iff.mp hset
    obtain rfl := Except.ok.inj hok
    exact searchFactors_found h hsearch

theorem cpdmaChanSetFactors_ne_error {chan : CpdmaChan} {err : ℤ}
    (hbus : chan.rate = 0 ∨ busFreqMhz * 1000 * 32 ≠ 0) :
    cpdmaChanSetFactors fuel busFreqMhz chan ≠ some (.error err) := by
  intro h
  unfold cpdmaChanSetFactors at h
  split at h
  · cases Option.some.inj h
  · rename_i hrate
    dsimp only at h
    rw [if_neg (hbus.resolve_left hrate)] at h
    obtain ⟨chan₁, -, hok⟩ := Option.map_eq_some_iff.mp h
    cases hok

structure Replaces (busFreqMhz rate new : U32) : Prop where
  off : rate = 0 → new = 0
  above : ∀ mbps, Reachable busFreqMhz mbps (busFreqMhz * 1000 * 32) rate → rate ≤ new

/-- Setting a limit fails and changes none, unless the bus frequency is not set, or it
replaces the limit. -/
theorem cpdmaChanSetRate_limits {ret : ℤ} (hbus : rate = 0 ∨ busFreqMhz * 1000 * 32 ≠ 0)
    (h : cpdmaChanSetRate params busFreqMhz fuel c ch rate = some (c', ret)) :
    ret ≠ 0 ∧ limitOf c' = limitOf c ∨
      ret = 0 ∧ ∃ limit, Replaces busFreqMhz rate limit.1 ∧
        limitOf c' = Function.update (limitOf c) ch (some limit) := by
  cases cpdmaChanSetRate_end h with
  | refused => exact .inl ⟨by decide, rfl⟩
  | @same chan hch htx hsame =>
    by_cases hzero : rate = 0
    · refine .inr ⟨by rw [hzero]; rfl, (chan.rate, chan.rateFactor), ⟨fun _ => ?_, ?_⟩, ?_⟩
      · rw [hsame, hzero]
      · intro mbps hreach
        exact absurd hzero hreach.rate_ne_zero
      · rw [← limitOf_some hch, Function.update_eq_self]
    · refine .inl ⟨fun hcon => hzero ?_, rfl⟩
      apply BitVec.eq_of_toInt_eq
      rw [hcon]
      rfl
  | noFactors hch hfactors => exact absurd hfactors (cpdmaChanSetFactors_ne_error hbus)
  | @set chan chan' rmask prioMode hch htx hdiff hfit hfactors =>
    have hfitted := cpdmaChanSetFactors_fitted hfactors
    refine .inr ⟨rfl, (chan'.rate, chan'.rateFactor), ⟨hfitted.off, ?_⟩, ?_⟩
    · intro mbps hreach
      have hreach' : Reachable busFreqMhz mbps (busFreqMhz * 1000 * 32)
          { chan with rate := rate }.rate := hreach
      exact cpdmaChanSetFactors_found hreach' hfactors
    · funext ch'
      unfold limitOf
      rw [writeRate_channels]
      by_cases heq : ch' = ch
      · rw [heq, Function.update_self, Function.update_self, Option.map_some]
      · rw [Function.update_of_ne heq, Function.update_of_ne heq]

/-- Destroying a channel takes its limit away and no other. -/
theorem cpdmaChanDestroy_limits {sched : List (Op τ)} {ret : ℤ}
    (h : cpdmaChanDestroy params sched s ch = some (t, ret)) (hne : ch' ≠ ch) :
    limitOf t.ctlr ch' = limitOf s.ctlr ch' := by
  unfold cpdmaChanDestroy at h
  split at h
  · obtain ⟨rfl, -⟩ := Prod.mk.inj (Option.some.inj h)
    rfl
  split at h
  · cases h
  obtain ⟨u, hu, h⟩ := Option.map_eq_some_iff.mp h
  obtain ⟨rfl, -⟩ := Prod.mk.inj h
  have hstop : limitOf u.ctlr = limitOf s.ctlr := by
    unfold stopChanIfOn at hu
    split at hu
    · obtain ⟨⟨u', ret'⟩, hstop, rfl⟩ := Option.map_eq_some_iff.mp hu
      obtain ⟨s₁, hs₁, hcall⟩ := Option.bind_eq_some_iff.mp hstop
      obtain ⟨chan', -, rfl⟩ := Option.map_eq_some_iff.mp hs₁
      have hsame : limitOf u'.ctlr = limitOf (s.spawn (.stopBegin ch .caller)).ctlr :=
        runCall_limits hcall
      exact hsame
    · obtain rfl := Option.some.inj hu
      rfl
  obtain ⟨channels, hquota, heq⟩ := removeChan_frame u.ctlr ch
  rw [heq, ← hstop]
  refine (hquota.limits ch').trans ?_
  rw [Function.update_of_ne hne]
  rfl

end CpswDriver.Cpdma
