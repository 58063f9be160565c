import CpswDriver.Cpdma.Calls
import CpswDriver.Cpdma.Rates
import CpswDriver.Lib.BitField

/-!
The registers of the tx shapers. They are programmed step by step when rates are
set, and all at once when the controller starts.
-/

namespace CpswDriver.Cpdma

open Runs CallTable

variable {τ : Type*} {params : CpdmaParams} {c c' : CpdmaCtlr τ} {ch ch' : ChanId}
  {chan chan' : CpdmaChan} {s s' t t' : State τ} {i j : ℕ}

/-- The field TX_RLIM. -/
def rlimField (c : CpdmaCtlr τ) : U32 := BitField.get (c.regs cpdmaDmacontrol) 8 16

/-- The bit TX_PRIO_FIXED. -/
def prioFixed (c : CpdmaCtlr τ) : Bool := (c.regs cpdmaDmacontrol).getLsbD 0

def rateReg (c : CpdmaCtlr τ) (ch : ChanId) : U32 := c.regs (cpdmaTxPri0Rate + 4 * ch.val)

structure SameShapers (c c' : CpdmaCtlr τ) : Prop where
  rlim : rlimField c' = rlimField c
  prio : prioFixed c' = prioFixed c
  rate : ∀ ch, isTxChan ch = true → (c.channels ch).isSome → rateReg c' ch = rateReg c ch

/-- The bit of a channel in TX_RLIM. -/
def rlimBit (c : CpdmaCtlr τ) (ch : ChanId) : Bool := (c.regs cpdmaDmacontrol).getLsbD (8 + ch.val)

theorem rlimField_eq_iff :
    rlimField c' = rlimField c ↔ ∀ ch : ChanId, ch.val < 16 → rlimBit c' ch = rlimBit c ch := by
  have hbit : ∀ (c : CpdmaCtlr τ) (j : ℕ), (rlimField c).getLsbD j =
      ((c.regs cpdmaDmacontrol).getLsbD (8 + j) && decide (j < 16)) := by
    intro c j
    exact BitField.getLsbD_get (by decide) _ _
  constructor
  · intro heq ch hlt
    have hboth : (rlimField c').getLsbD ch.val = (rlimField c).getLsbD ch.val := by rw [heq]
    rw [hbit, hbit, decide_eq_true hlt, Bool.and_true, Bool.and_true] at hboth
    exact hboth
  · intro hall
    apply BitVec.eq_of_getLsbD_eq
    intro j hj
    rw [hbit, hbit]
    by_cases hlt : j < 16
    · have hch := hall ⟨j, by omega⟩ hlt
      unfold rlimBit at hch
      rw [hch]
    · rw [decide_eq_false hlt, Bool.and_false, Bool.and_false]

theorem controlSet_eq {info : CpdmaControlInfo} {control : ℤ} (hext : params.hasExtRegs = true)
    (hactive : c.state = .active) (hinfo : controlInfo control = some info)
    (hwritable : info.writable = true) (value : U32) :
    (cpdmaControlSetLocked params c control value).1 = c.dmaRegWrite info.reg
      ((c.regs info.reg &&& ~~~(info.mask <<< info.shift)) |||
        ((value &&& info.mask) <<< info.shift)) := by
  unfold cpdmaControlSetLocked
  rw [hinfo]
  simp [hext, hactive, hwritable]

theorem controlSet_rlim (hext : params.hasExtRegs = true) (hactive : c.state = .active)
    (value : U32) : (cpdmaControlSetLocked params c cpdmaTxRlim value).1 =
      c.dmaRegWrite cpdmaDmacontrol (BitField.put (c.regs cpdmaDmacontrol) 8 16 value) := by
  have hinfo : controlInfo cpdmaTxRlim = some ⟨cpdmaDmacontrol, 8, 0xffff, true, true⟩ := rfl
  have hmask : (0xffff : U32) = BitField.bitMask 32 16 := by decide
  rw [controlSet_eq hext hactive hinfo rfl, hmask]
  rfl

theorem controlSet_prio (hext : params.hasExtRegs = true) (hactive : c.state = .active)
    (value : U32) : (cpdmaControlSetLocked params c cpdmaTxPrioFixed value).1 =
      c.dmaRegWrite cpdmaDmacontrol (BitField.put (c.regs cpdmaDmacontrol) 0 1 value) := by
  have hinfo : controlInfo cpdmaTxPrioFixed = some ⟨cpdmaDmacontrol, 0, 1, true, true⟩ := rfl
  have hmask : (1 : U32) = BitField.bitMask 32 1 := by decide
  rw [controlSet_eq hext hactive hinfo rfl, hmask]
  rfl

theorem rlim_written (value : U32) :
    let c' := c.dmaRegWrite cpdmaDmacontrol (BitField.put (c.regs cpdmaDmacontrol) 8 16 value)
    (∀ ch : ChanId, ch.val < 16 → rlimBit c' ch = value.getLsbD ch.val) ∧
      prioFixed c' = prioFixed c := by
  dsimp only
  refine ⟨fun ch hlt => ?_, ?_⟩
  · dsimp only [rlimBit, CpdmaCtlr.dmaRegWrite]
    rw [Function.update_self, BitField.getLsbD_put (by decide) _ _ (by omega), if_pos (by omega),
      Nat.add_sub_cancel_left]
  · dsimp only [prioFixed, CpdmaCtlr.dmaRegWrite]
    rw [Function.update_self, BitField.getLsbD_put (by decide) _ _ (by omega), if_neg (by omega)]

theorem prio_written (value : U32) :
    let c' := c.dmaRegWrite cpdmaDmacontrol (BitField.put (c.regs cpdmaDmacontrol) 0 1 value)
    (∀ ch : ChanId, ch.val < 16 → rlimBit c' ch = rlimBit c ch) ∧
      prioFixed c' = value.getLsbD 0 := by
  dsimp only
  refine ⟨fun ch hlt => ?_, ?_⟩
  · dsimp only [rlimBit, CpdmaCtlr.dmaRegWrite]
    rw [Function.update_self, BitField.getLsbD_put (by decide) _ _ (by omega), if_neg (by omega)]
  · dsimp only [prioFixed, CpdmaCtlr.dmaRegWrite]
    rw [Function.update_self, BitField.getLsbD_put (by decide) _ _ (by omega), if_pos (by omega)]

/-- The rate and the counts that a channel is limited by. -/
def limitOf (c : CpdmaCtlr τ) (ch : ChanId) : Option (U32 × U32) :=
  (c.channels ch).map fun chan => (chan.rate, chan.rateFactor)

def limited (o : Option (U32 × U32)) : Bool := o.any fun r => r.1 ≠ 0

def unlimited (o : Option (U32 × U32)) : Bool := o.any fun r => r.1 = 0

theorem limitOf_some (hch : c.channels ch = some chan) :
    limitOf c ch = some (chan.rate, chan.rateFactor) := by
  unfold limitOf
  rw [hch, Option.map_some]

theorem limitOf_isSome : (limitOf c ch).isSome = (c.channels ch).isSome :=
  Option.isSome_map

theorem limitOf_setChan (hch : c.channels ch = some chan) (hrate : chan'.rate = chan.rate)
    (hfactor : chan'.rateFactor = chan.rateFactor) : limitOf (c.setChan ch chan') = limitOf c := by
  funext ch'
  unfold limitOf CpdmaCtlr.setChan
  dsimp only
  by_cases heq : ch' = ch
  · rw [heq, Function.update_self, hch, Option.map_some, Option.map_some, hrate, hfactor]
  · rw [Function.update_of_ne heq]

theorem limitOf_of_channels (h : c'.channels = c.channels) : limitOf c' = limitOf c := by
  funext ch
  unfold limitOf
  rw [h]

/-- Processing a packet keeps the limits of its channel. -/
theorem processLocked_rate (pool : CpdmaDescPool) (mem : ℕ → CpdmaDesc τ) (chan : CpdmaChan) :
    (cpdmaChanProcessLocked pool mem chan).1.rate = chan.rate ∧
      (cpdmaChanProcessLocked pool mem chan).1.rateFactor = chan.rateFactor := by
  unfold cpdmaChanProcessLocked
  dsimp only
  split
  · exact ⟨rfl, rfl⟩
  split
  · exact ⟨rfl, rfl⟩
  split <;> exact ⟨rfl, rfl⟩

theorem limitOf_processStep (hch : s.ctlr.channels ch = some chan) (onFail : Pc τ)
    (k : U32 → Cont) :
    limitOf (processStep params s i ch chan onFail k).ctlr = limitOf s.ctlr := by
  have hrate := processLocked_rate params.pool s.ctlr.mem chan
  unfold processStep
  split
  all_goals
    rename_i hlocked
    rw [hlocked] at hrate
    exact limitOf_setChan hch hrate.1 hrate.2

theorem limitOf_stopBeginStep (hch : s.ctlr.channels ch = some chan) (ret : StopRet) :
    limitOf (stopBeginStep s i ch chan ret).ctlr = limitOf s.ctlr := by
  unfold stopBeginStep
  split
  · rfl
  · exact limitOf_setChan (c := (s.ctlr.dmaRegWrite _ _).dmaRegWrite _ _) hch rfl rfl

theorem turnOn_rate (pool : CpdmaDescPool) (ch : ChanId) (chan : CpdmaChan) :
    (turnOn pool ch chan).rate = chan.rate ∧
      (turnOn pool ch chan).rateFactor = chan.rateFactor := by
  unfold turnOn
  dsimp only
  split
  · split <;> exact ⟨rfl, rfl⟩
  · exact ⟨rfl, rfl⟩

theorem limitOf_cpdmaChanOn (hch : c.channels ch = some chan) :
    limitOf (cpdmaChanOn params c ch chan).1 = limitOf c := by
  have hrate := turnOn_rate params.pool ch chan
  unfold cpdmaChanOn
  split
  · rfl
  split
  · rfl
  · exact limitOf_setChan (c := c.dmaRegWrite _ _) hch hrate.1 hrate.2

theorem limitOf_ctlrStartChan (hch : c.channels ch = some chan) :
    limitOf (ctlrStartChan params c ch chan) = limitOf c := by
  have hshaper : (cpdmaChanSetChanShaper params c ch chan).1.channels = c.channels :=
    cpdmaChanSetChanShaper_channels
  unfold ctlrStartChan
  dsimp only
  rw [limitOf_cpdmaChanOn (by rw [hshaper, hch]), limitOf_of_channels hshaper]

theorem limitOf_ctlrStartEnd (prioMode : Bool) :
    limitOf (ctlrStartEnd params c prioMode) = limitOf c :=
  limitOf_of_channels
    ((cpdmaControlSetLocked_channels _ _).trans (cpdmaControlSetLocked_channels _ _))

theorem limitOf_advance {pc : Pc τ} (hst : advance params s i pc = some s') :
    limitOf s'.ctlr = limitOf s.ctlr := by
  cases pc with
  | done ret => cases hst
  | process ch quota used =>
    simp only [advance] at hst
    split at hst
    · obtain ⟨chan, hch, rfl⟩ := Option.map_eq_some_iff.mp hst
      exact limitOf_processStep hch _ _
    · obtain rfl := Option.some.inj hst
      rfl
  | chanFree ch desc outlen status k =>
    obtain rfl := Option.some.inj hst
    rfl
  | handler ch item outlen status k =>
    obtain rfl := Option.some.inj hst
    rfl
  | stopBegin ch ret =>
    obtain ⟨chan, hch, rfl⟩ := Option.map_eq_some_iff.mp hst
    exact limitOf_stopBeginStep hch ret
  | stopDrain ch ret =>
    obtain ⟨chan, hch, rfl⟩ := Option.map_eq_some_iff.mp hst
    exact limitOf_processStep hch _ _
  | stopClean ch ret =>
    obtain ⟨chan, hch, rfl⟩ := Option.map_eq_some_iff.mp hst
    unfold stopCleanStep
    split
    · exact limitOf_setChan hch rfl rfl
    · exact limitOf_setChan hch rfl rfl
  | chanOn ch =>
    obtain ⟨chan, hch, rfl⟩ := Option.map_eq_some_iff.mp hst
    exact limitOf_cpdmaChanOn hch
  | ctlrStart j prioMode =>
    simp only [advance] at hst
    split at hst
    · split at hst
      · obtain rfl := Option.some.inj hst
        rfl
      · rename_i hch
        obtain rfl := Option.some.inj hst
        exact limitOf_ctlrStartChan hch
    · obtain rfl := Option.some.inj hst
      exact limitOf_ctlrStartEnd prioMode
  | ctlrStop j =>
    simp only [advance] at hst
    split at hst
    · split at hst
      · obtain rfl := Option.some.inj hst
        rfl
      · rename_i hch
        obtain rfl := Option.some.inj hst
        exact limitOf_stopBeginStep hch _
    · split at hst
      · obtain rfl := Option.some.inj hst
        rfl
      · cases hst

/-- The engine changes no limit and no register of the shapers. -/
theorem engine_limits {op : Op τ} (hop : op.isEngine = true)
    (hst : step params s op = some s') :
    limitOf s'.ctlr = limitOf s.ctlr ∧ s'.ctlr.regs = s.ctlr.regs ∧
      s'.ctlr.state = s.ctlr.state ∧ s'.calls = s.calls := by
  cases op with
  | engine d hwMode hwLen =>
    obtain rfl := Option.some.inj hst
    exact ⟨rfl, rfl, rfl, rfl⟩
  | engineHdp ch hdp =>
    obtain ⟨chan, hch, rfl⟩ := Option.map_eq_some_iff.mp hst
    exact ⟨limitOf_setChan hch rfl rfl, rfl, rfl, rfl⟩
  | _ => cases hop

variable {limits : ChanId → Option (U32 × U32)} {prio : Bool}

/-- Only tx channels are limited, and there are eight of them at most. -/
structure TxLimits (limits : ChanId → Option (U32 × U32)) : Prop where
  rx : ∀ ch, isTxChan ch = false → limited (limits ch) = false
  tx : ∀ ch, isTxChan ch = true → (limits ch).isSome → ch.val < 8

def countsOf (o : Option (U32 × U32)) : U32 := if limited o then (o.map Prod.snd).getD 0 else 0

/-- The loop of cpdma_ctlr_start has come to channel j. -/
structure StartProgress (limits : ChanId → Option (U32 × U32)) (j : ℕ) (prio : Bool)
    (c : CpdmaCtlr τ) : Prop where
  active : c.state = .active
  kept : limitOf c = limits
  rlim : ∀ ch : ChanId, ch.val < 16 → rlimBit c ch = (decide (ch.val < j) && limited (limits ch))
  rate : ∀ ch : ChanId, ch.val < 8 →
    rateReg c ch = if ch.val < j then countsOf (limits ch) else 0
  prio : prio = true ↔ ∃ ch : ChanId, isTxChan ch = true ∧ ch.val < j ∧ unlimited (limits ch) = true

/-- The controller is on, with the shapers as a start programs them. -/
structure Started (limits : ChanId → Option (U32 × U32)) (c : CpdmaCtlr τ) : Prop where
  active : c.state = .active
  kept : limitOf c = limits
  rlim : ∀ ch : ChanId, ch.val < 16 → rlimBit c ch = limited (limits ch)
  rate : ∀ ch : ChanId, ch.val < 8 → rateReg c ch = countsOf (limits ch)
  prio : prioFixed c = true ↔ ∃ ch, isTxChan ch = true ∧ unlimited (limits ch) = true

theorem ctlrStartBegin_progress (hreset : params.hasSoftReset = true) (c : CpdmaCtlr τ) :
    StartProgress (limitOf c) 0 false (ctlrStartBegin params c) := by
  have hzero : ∀ ofs, ofs ≠ cpdmaRxintmaskclear → ofs ≠ cpdmaTxintmaskclear →
      ofs ≠ cpdmaTxcontrol → ofs ≠ cpdmaRxcontrol → (ctlrStartBegin params c).regs ofs = 0 := by
    intro ofs h1 h2 h3 h4
    unfold ctlrStartBegin
    rw [if_pos hreset]
    dsimp only [CpdmaCtlr.dmaRegWrite]
    rw [Function.update_of_ne h4, Function.update_of_ne h3, Function.update_of_ne h2,
      Function.update_of_ne h1]
  refine ⟨rfl, ?_, fun ch hlt => ?_, fun ch hlt => ?_, ?_⟩
  · have hchans : (ctlrStartBegin params c).channels = zeroHdp params c.channels := by
      unfold ctlrStartBegin
      rw [if_pos hreset]
      rfl
    funext ch
    unfold limitOf
    rw [hchans]
    unfold zeroHdp
    split
    · rw [Option.map_map]
      rfl
    · rfl
  · unfold rlimBit
    rw [hzero cpdmaDmacontrol (by decide) (by decide) (by decide) (by decide),
      decide_eq_false (Nat.not_lt_zero _), Bool.false_and]
    exact BitVec.getLsbD_zero
  · rw [if_neg (Nat.not_lt_zero _)]
    unfold rateReg
    apply hzero <;>
    · unfold cpdmaTxPri0Rate
      first | unfold cpdmaRxintmaskclear | unfold cpdmaTxintmaskclear | unfold cpdmaTxcontrol |
        unfold cpdmaRxcontrol
      omega
  · refine iff_of_false (by decide) ?_
    rintro ⟨ch, -, hlt, -⟩
    omega

theorem cpdmaChanOn_regs {ofs : ℕ} (hofs : ofs < 0x80) :
    (cpdmaChanOn params c ch chan).1.regs ofs = c.regs ofs ∧
      (cpdmaChanOn params c ch chan).1.state = c.state := by
  have hne : ofs ≠ chanIntSet ch := by
    unfold chanIntSet cpdmaRxintmaskset cpdmaTxintmaskset
    split <;> omega
  unfold cpdmaChanOn
  split
  · exact ⟨rfl, rfl⟩
  split
  · exact ⟨rfl, rfl⟩
  · exact ⟨Function.update_of_ne hne _ _, rfl⟩

theorem rateReg_ne (hch : ch.val < 8) : cpdmaTxPri0Rate + 4 * ch.val ≠ cpdmaDmacontrol ∧
    cpdmaTxPri0Rate + 4 * ch.val < 0x80 := by
  unfold cpdmaTxPri0Rate cpdmaDmacontrol
  omega

/-- What the driver reads from TX_RLIM. -/
theorem controlGet_rlim (hext : params.hasExtRegs = true) (hactive : c.state = .active) :
    BitVec.ofInt 32 (cpdmaControlGetLocked params c cpdmaTxRlim) = rlimField c := by
  have hinfo : controlInfo cpdmaTxRlim = some ⟨cpdmaDmacontrol, 8, 0xffff, true, true⟩ := rfl
  have hmask : (0xffff : U32) = BitField.bitMask 32 16 := by decide
  unfold cpdmaControlGetLocked
  rw [hinfo]
  simp only [hext, hactive, Bool.not_true, Bool.false_eq_true, if_false, ne_eq, not_true_eq_false]
  rw [hmask, BitVec.ofInt_natCast, BitVec.ofNat_toNat, BitVec.setWidth_eq]
  rfl

theorem cpdmaChanSetChanShaper_limited (hext : params.hasExtRegs = true)
    (hactive : c.state = .active) (hrate : chan.rate ≠ 0) (hch : ch.val < 8) :
    (cpdmaChanSetChanShaper params c ch chan).1.state = .active ∧
    (∀ ch' : ChanId, ch'.val < 16 → rlimBit (cpdmaChanSetChanShaper params c ch chan).1 ch' =
      (rlimBit c ch' || decide (ch' = ch))) ∧
    (∀ ch' : ChanId, ch'.val < 8 → rateReg (cpdmaChanSetChanShaper params c ch chan).1 ch' =
      if ch' = ch then chan.rateFactor else rateReg c ch') := by
  refine ⟨(cpdmaChanSetChanShaper_state c ch chan).trans hactive, ?_⟩
  unfold cpdmaChanSetChanShaper
  rw [if_neg hrate]
  dsimp only
  have hactive₁ : (c.dmaRegWrite (cpdmaTxPri0Rate + 4 * ch.val) chan.rateFactor).state = .active :=
    hactive
  have hctl : (c.dmaRegWrite (cpdmaTxPri0Rate + 4 * ch.val) chan.rateFactor).regs cpdmaDmacontrol =
      c.regs cpdmaDmacontrol := Function.update_of_ne (rateReg_ne hch).1.symm _ _
  have hrates : ∀ ch' : ChanId, rateReg (c.dmaRegWrite (cpdmaTxPri0Rate + 4 * ch.val)
      chan.rateFactor) ch' = if ch' = ch then chan.rateFactor else rateReg c ch' := by
    intro ch'
    dsimp only [rateReg, CpdmaCtlr.dmaRegWrite]
    by_cases heq : ch' = ch
    · rw [heq, Function.update_self, if_pos rfl]
    · have hval : ch'.val ≠ ch.val := fun hcon => heq (Fin.ext hcon)
      rw [Function.update_of_ne (by omega), if_neg heq]
  generalize c.dmaRegWrite (cpdmaTxPri0Rate + 4 * ch.val) chan.rateFactor = c₁
    at hactive₁ hctl hrates ⊢
  rw [controlGet_rlim hext hactive₁, controlSet_rlim hext hactive₁]
  obtain ⟨hbits, -⟩ := rlim_written (c := c₁) (rlimField c₁ ||| chanMask ch)
  refine ⟨fun ch' hlt => ?_, fun ch' hlt => ?_⟩
  · have hlin : chanLinear ch = ch.val := by
      unfold chanLinear cpdmaMaxChannels
      omega
    have hself : (rlimField c₁).getLsbD ch'.val = rlimBit c ch' := by
      unfold rlimField rlimBit
      rw [BitField.getLsbD_get (by decide), decide_eq_true hlt, Bool.and_true, hctl]
    have hsame : ch'.val = ch.val ↔ ch' = ch := Fin.ext_iff.symm
    rw [hbits ch' hlt]
    unfold chanMask
    rw [BitField.getLsbD_or_bit (by omega), hself, hlin, decide_eq_decide.mpr hsame]
  · rw [← hrates ch']
    exact Function.update_of_ne (rateReg_ne hlt).1 _ _

theorem StartProgress.shaper {hj : j < 64} (h : StartProgress limits j prio c)
    (hlimits : TxLimits limits) (hext : params.hasExtRegs = true)
    (hlimit : limits ⟨j, hj⟩ = some (chan.rate, chan.rateFactor)) :
    (cpdmaChanSetChanShaper params c ⟨j, hj⟩ chan).1.state = .active ∧
      (∀ ch' : ChanId, ch'.val < 16 → rlimBit (cpdmaChanSetChanShaper params c ⟨j, hj⟩ chan).1 ch' =
        (decide (ch'.val < j + 1) && limited (limits ch'))) ∧
      (∀ ch' : ChanId, ch'.val < 8 → rateReg (cpdmaChanSetChanShaper params c ⟨j, hj⟩ chan).1 ch' =
        if ch'.val < j + 1 then countsOf (limits ch') else 0) := by
  by_cases hzero : chan.rate = 0
  · have hoff : limited (limits ⟨j, hj⟩) = false := by
      rw [hlimit]
      simp [limited, hzero]
    have hskip : cpdmaChanSetChanShaper params c ⟨j, hj⟩ chan = (c, 0) := if_pos hzero
    rw [hskip]
    refine ⟨h.active, fun ch' hlt => ?_, fun ch' hlt => ?_⟩
    · rw [h.rlim ch' hlt]
      by_cases heq : ch' = ⟨j, hj⟩
      · rw [heq, hoff, Bool.and_false, Bool.and_false]
      · have hval : ch'.val ≠ j := fun hcon => heq (Fin.ext hcon)
        rw [decide_eq_decide.mpr (by omega : ch'.val < j ↔ ch'.val < j + 1)]
    · rw [h.rate ch' hlt]
      by_cases heq : ch' = ⟨j, hj⟩
      · unfold countsOf
        rw [heq, hoff, if_neg Bool.false_ne_true, ite_self, ite_self]
      · have hval : ch'.val ≠ j := fun hcon => heq (Fin.ext hcon)
        exact if_congr (by omega) rfl rfl
  · have hon : limited (limits ⟨j, hj⟩) = true := by
      rw [hlimit]
      exact decide_eq_true hzero
    have htx : isTxChan ⟨j, hj⟩ = true := by
      by_contra hrx
      rw [hlimits.rx _ (Bool.eq_false_iff.mpr hrx)] at hon
      cases hon
    have hlt8 : j < 8 := hlimits.tx ⟨j, hj⟩ htx (by rw [hlimit]; rfl)
    obtain ⟨hactive, hrlim, hrate⟩ := cpdmaChanSetChanShaper_limited hext h.active hzero
      (show (⟨j, hj⟩ : ChanId).val < 8 from hlt8)
    refine ⟨hactive, fun ch' hlt => ?_, fun ch' hlt => ?_⟩
    · rw [hrlim ch' hlt, h.rlim ch' hlt]
      by_cases heq : ch' = ⟨j, hj⟩
      · rw [heq, hon]
        simp
      · have hval : ch'.val ≠ j := fun hcon => heq (Fin.ext hcon)
        rw [decide_eq_false heq, Bool.or_false,
          decide_eq_decide.mpr (by omega : ch'.val < j ↔ ch'.val < j + 1)]
    · rw [hrate ch' hlt]
      by_cases heq : ch' = ⟨j, hj⟩
      · unfold countsOf
        rw [heq, if_pos rfl, hon, hlimit]
        simp
      · have hval : ch'.val ≠ j := fun hcon => heq (Fin.ext hcon)
        rw [if_neg heq, h.rate ch' hlt]
        exact if_congr (by omega) rfl rfl

theorem StartProgress.turn {hj : j < 64} (h : StartProgress limits j prio c)
    (hlimits : TxLimits limits) (hext : params.hasExtRegs = true)
    (hch : c.channels ⟨j, hj⟩ = some chan) :
    StartProgress limits (j + 1) (prio || (isTxChan ⟨j, hj⟩ && chan.rate = 0))
      (ctlrStartChan params c ⟨j, hj⟩ chan) := by
  have hlimit : limits ⟨j, hj⟩ = some (chan.rate, chan.rateFactor) := by
    rw [← h.kept]
    exact limitOf_some hch
  obtain ⟨hactive, hrlim, hrate⟩ := h.shaper hlimits hext hlimit
  refine ⟨?_, ?_, fun ch' hlt => ?_, fun ch' hlt => ?_, ?_⟩
  · exact (cpdmaChanOn_regs (by decide : (0 : ℕ) < 0x80)).2.trans hactive
  · rw [limitOf_ctlrStartChan hch, h.kept]
  · rw [← hrlim ch' hlt]
    unfold rlimBit ctlrStartChan
    dsimp only
    rw [(cpdmaChanOn_regs (by decide : cpdmaDmacontrol < 0x80)).1]
  · rw [← hrate ch' hlt]
    unfold rateReg ctlrStartChan
    dsimp only
    rw [(cpdmaChanOn_regs (rateReg_ne hlt).2).1]
  · rw [Bool.or_eq_true, h.prio, Bool.and_eq_true, decide_eq_true_iff]
    constructor
    · rintro (⟨ch', htx, hlt, hoff⟩ | ⟨htx, hzero⟩)
      · exact ⟨ch', htx, by omega, hoff⟩
      · refine ⟨⟨j, hj⟩, htx, Nat.lt_succ_self j, ?_⟩
        rw [hlimit]
        simp [unlimited, hzero]
    · rintro ⟨ch', htx, hlt, hoff⟩
      by_cases heq : ch' = ⟨j, hj⟩
      · subst heq
        rw [hlimit] at hoff
        right
        exact ⟨htx, by simpa [unlimited] using hoff⟩
      · have hval : ch'.val ≠ j := fun hcon => heq (Fin.ext hcon)
        exact .inl ⟨ch', htx, by omega, hoff⟩

theorem StartProgress.skip {hj : j < 64} (h : StartProgress limits j prio c)
    (hch : c.channels ⟨j, hj⟩ = none) : StartProgress limits (j + 1) prio c := by
  have hlimit : limits ⟨j, hj⟩ = none := by
    rw [← h.kept]
    unfold limitOf
    rw [hch]
    rfl
  refine ⟨h.active, h.kept, fun ch' hlt => ?_, fun ch' hlt => ?_, ?_⟩
  · rw [h.rlim ch' hlt]
    by_cases heq : ch' = ⟨j, hj⟩
    · rw [heq, hlimit]
      simp [limited]
    · have hval : ch'.val ≠ j := fun hcon => heq (Fin.ext hcon)
      rw [decide_eq_decide.mpr (by omega : ch'.val < j ↔ ch'.val < j + 1)]
  · rw [h.rate ch' hlt]
    by_cases heq : ch' = ⟨j, hj⟩
    · rw [heq, hlimit]
      simp [countsOf, limited]
    · have hval : ch'.val ≠ j := fun hcon => heq (Fin.ext hcon)
      exact if_congr (by omega) rfl rfl
  · rw [h.prio]
    refine exists_congr fun ch' => and_congr_right fun _ => ?_
    by_cases heq : ch' = ⟨j, hj⟩
    · rw [heq, hlimit]
      simp [unlimited]
    · have hval : ch'.val ≠ j := fun hcon => heq (Fin.ext hcon)
      exact and_congr_left fun _ => by omega

theorem StartProgress.finish (h : StartProgress limits 64 prio c)
    (hext : params.hasExtRegs = true) : Started limits (ctlrStartEnd params c prio) := by
  have hinfo : controlInfo cpdmaRxBufferOffset = some ⟨cpdmaRxbuffofs, 0, 0xffff, true, true⟩ := rfl
  have hkept : limitOf (ctlrStartEnd params c prio) = limitOf c := limitOf_ctlrStartEnd prio
  obtain ⟨hbits, hprio⟩ := prio_written (c := c) (if prio then 1 else 0)
  unfold ctlrStartEnd at hkept ⊢
  dsimp only at hkept ⊢
  rw [controlSet_prio hext h.active] at hkept ⊢
  have hrate : ∀ ch : ChanId, ch.val < 8 → rateReg (c.dmaRegWrite cpdmaDmacontrol
      (BitField.put (c.regs cpdmaDmacontrol) 0 1 (if prio then 1 else 0))) ch = rateReg c ch :=
    fun ch hlt => Function.update_of_ne (rateReg_ne hlt).1 _ _
  have hactive : (c.dmaRegWrite cpdmaDmacontrol
      (BitField.put (c.regs cpdmaDmacontrol) 0 1 (if prio then 1 else 0))).state = .active :=
        h.active
  generalize c.dmaRegWrite cpdmaDmacontrol
    (BitField.put (c.regs cpdmaDmacontrol) 0 1 (if prio then 1 else 0)) = c₁
    at hkept hbits hprio hrate hactive ⊢
  rw [controlSet_eq hext hactive hinfo rfl] at hkept ⊢
  refine ⟨hactive, hkept.trans h.kept, fun ch hlt => ?_, fun ch hlt => ?_, ?_⟩
  · have hsame : rlimBit c₁ ch = limited (limits ch) := by
      rw [hbits ch hlt, h.rlim ch hlt, decide_eq_true (by omega), Bool.true_and]
    exact hsame
  · have hne : cpdmaTxPri0Rate + 4 * ch.val ≠ cpdmaRxbuffofs := by
      unfold cpdmaTxPri0Rate cpdmaRxbuffofs
      omega
    have hsame : rateReg c₁ ch = countsOf (limits ch) := by
      rw [hrate ch hlt, h.rate ch hlt, if_pos (by omega)]
    rw [← hsame]
    exact Function.update_of_ne hne _ _
  · have hsame : prioFixed c₁ = prio := by
      rw [hprio]
      cases prio <;> decide
    have hafter : ∀ v, prioFixed (c₁.dmaRegWrite cpdmaRxbuffofs v) = prioFixed c₁ := fun _ => rfl
    rw [hafter, hsame, h.prio]
    exact exists_congr fun ch => and_congr_right fun _ => and_iff_right (by omega)

/-- cpdma_ctlr_start on its way, or back. -/
def StartCall (limits : ChanId → Option (U32 × U32)) (i : ℕ) (s : State τ) : Prop :=
  ∃ pc, s.calls[i]? = some pc ∧
    ((∃ j prio, pc = .ctlrStart j prio ∧ StartProgress limits j prio s.ctlr) ∨
      pc = .done 0 ∧ Started limits s.ctlr)

theorem StartCall.step {op : Op τ} (h : StartCall limits i s) (hlimits : TxLimits limits)
    (hext : params.hasExtRegs = true) (hok : AloneOk i s op)
    (hst : Cpdma.step params s op = some s') : StartCall limits i s' := by
  obtain ⟨pc, hi, hpc⟩ := h
  have hengine : op.isEngine = true → StartCall limits i s' := by
    intro hop
    obtain ⟨hkept, hregs, hstate, hcalls⟩ := engine_limits hop hst
    refine ⟨pc, by rw [hcalls, hi], ?_⟩
    have hrlim : ∀ ch, rlimBit s'.ctlr ch = rlimBit s.ctlr ch := by
      intro ch
      unfold rlimBit
      rw [hregs]
    have hrate : ∀ ch, rateReg s'.ctlr ch = rateReg s.ctlr ch := by
      intro ch
      unfold rateReg
      rw [hregs]
    rcases hpc with ⟨j, prio, rfl, hp⟩ | ⟨rfl, hp⟩
    · refine .inl ⟨j, prio, rfl, hstate.trans hp.active, hkept.trans hp.kept, fun ch hlt => ?_,
        fun ch hlt => ?_, hp.prio⟩
      · rw [hrlim, hp.rlim ch hlt]
      · rw [hrate, hp.rate ch hlt]
    · refine .inr ⟨rfl, hstate.trans hp.active, hkept.trans hp.kept, fun ch hlt => ?_,
        fun ch hlt => ?_, ?_⟩
      · rw [hrlim, hp.rlim ch hlt]
      · rw [hrate, hp.rate ch hlt]
      · have hprio : prioFixed s'.ctlr = prioFixed s.ctlr := by
          unfold prioFixed
          rw [hregs]
        rw [hprio, hp.prio]
  cases op with
  | engine d hwMode hwLen => exact hengine rfl
  | engineHdp ch hdp => exact hengine rfl
  | advance k =>
    obtain rfl : k = i := hok
    obtain ⟨pc', hi', hadv⟩ := Option.bind_eq_some_iff.mp hst
    obtain rfl : pc = pc' := Option.some.inj (hi.symm.trans hi')
    rcases hpc with ⟨j, prio, rfl, hp⟩ | ⟨rfl, -⟩
    · simp only [advance] at hadv
      split at hadv
      · rename_i hj
        split at hadv
        · rename_i hch
          obtain rfl := Option.some.inj hadv
          exact ⟨_, getElem?_set_self hi, .inl ⟨_, _, rfl, hp.skip hch⟩⟩
        · rename_i chan hch
          obtain rfl := Option.some.inj hadv
          exact ⟨_, getElem?_set_self hi, .inl ⟨_, _, rfl, hp.turn hlimits hext hch⟩⟩
      · rename_i hj
        obtain rfl := Option.some.inj hadv
        refine ⟨_, getElem?_set_self hi, .inr ⟨rfl, ?_⟩⟩
        have hend : StartProgress limits 64 prio s.ctlr := by
          refine ⟨hp.active, hp.kept, fun ch hlt => ?_, fun ch hlt => ?_, ?_⟩
          · rw [hp.rlim ch hlt, decide_eq_decide.mpr (by omega : ch.val < j ↔ ch.val < 64)]
          · rw [hp.rate ch hlt]
            exact if_congr (by omega) rfl rfl
          · rw [hp.prio]
            refine exists_congr fun ch => and_congr_right fun _ => and_congr_left fun _ => ?_
            have hch := ch.isLt
            omega
        exact hend.finish hext
    · cases hadv
  | _ => exact hok.elim

/-- Starting the controller programs the shapers from the limits of the channels. -/
theorem cpdmaCtlrStart_started {sched : List (Op τ)} (hreset : params.hasSoftReset = true)
    (hext : params.hasExtRegs = true) (hlimits : TxLimits (limitOf s.ctlr))
    (hstart : cpdmaCtlrStart params sched s = some (t, 0)) : Started (limitOf s.ctlr) t.ctlr := by
  obtain ⟨s₁, hs₁, hcall⟩ := Option.bind_eq_some_iff.mp hstart
  obtain ⟨hrun, hret⟩ := runCall_eq_some hcall
  obtain ⟨-, ⟨-, rfl⟩ | ⟨-, rfl⟩⟩ := step_ctlrStart hs₁
  · have hbusy : ∀ u, u.calls[s.calls.length]? = some (Pc.done (-ebusy) : Pc τ) → ∀ op u',
        AloneOk s.calls.length u op → step params u op = some u' →
        u'.calls[s.calls.length]? = some (.done (-ebusy)) := by
      intro u hu op u' hok hst
      cases op with
      | advance k =>
        obtain rfl : k = s.calls.length := hok
        obtain ⟨pc', hi', hadv⟩ := Option.bind_eq_some_iff.mp hst
        obtain rfl := Option.some.inj (hu.symm.trans hi')
        cases hadv
      | engine d hwMode hwLen => rw [(engine_limits rfl hst).2.2.2, hu]
      | engineHdp ch hdp => rw [(engine_limits rfl hst).2.2.2, hu]
      | _ => exact hok.elim
    have hend := hrun.invariant (I := fun u => u.calls[s.calls.length]? = some (.done (-ebusy)))
      (fun u op u' hu hok hst => hbusy u hu op u' hok hst) (spawn_getElem? _ _)
    rw [hend] at hret
    injection hret with hpc
    injection hpc with hzero
    exact absurd hzero (by decide)
  · have hfirst : StartCall (limitOf s.ctlr) s.calls.length ({ s with
        ctlr := ctlrStartBegin params s.ctlr, lock := some s.calls.length }.spawn
          (.ctlrStart 0 false)) :=
      ⟨_, spawn_getElem? _ _, .inl ⟨0, false, rfl, ctlrStartBegin_progress hreset s.ctlr⟩⟩
    obtain ⟨pc, hpc, hend⟩ := hrun.invariant
      (fun _ _ _ h hok hst => h.step hlimits hext hok hst) hfirst
    obtain rfl := Option.some.inj (hret.symm.trans hpc)
    rcases hend with ⟨j, prio, hne, -⟩ | ⟨-, hstarted⟩
    · cases hne
    · exact hstarted

theorem runCall_limits {sched : List (Op τ)} {ret : ℤ}
    (h : runCall params i sched s = some (t, ret)) : limitOf t.ctlr = limitOf s.ctlr := by
  obtain ⟨hrun, -⟩ := runCall_eq_some h
  refine hrun.invariant (I := fun u => limitOf u.ctlr = limitOf s.ctlr)
    (fun u op u' hu hok hst => ?_) rfl
  rw [← hu]
  cases op with
  | advance k =>
    obtain ⟨pc, -, hadv⟩ := Option.bind_eq_some_iff.mp hst
    exact limitOf_advance hadv
  | engine d hwMode hwLen => exact (engine_limits rfl hst).1
  | engineHdp ch hdp => exact (engine_limits rfl hst).1
  | _ => exact hok.elim

theorem cpdmaCtlrStop_limits {sched : List (Op τ)} {ret : ℤ}
    (hstop : cpdmaCtlrStop params sched s = some (t, ret)) :
    limitOf t.ctlr = limitOf s.ctlr := by
  obtain ⟨s₁, hs₁, hcall⟩ := Option.bind_eq_some_iff.mp hstop
  rw [runCall_limits hcall]
  obtain ⟨-, ⟨-, rfl⟩ | ⟨-, rfl⟩⟩ := step_ctlrStop hs₁
  · rfl
  · rfl

section SetRate

variable {busFreqMhz rate : U32} {fuel : ℕ} {acc : U32 × Bool} {rmask : U32}
  {rateOf : ChanId → Option U32}

/-- A channel of the loop in cpdma_chan_fit_rate that counts as limited. -/
def counts (rateOf : ChanId → Option U32) (ch : ChanId) : Bool := (rateOf ch).any fun r => r ≠ 0

theorem fitLoop_spec {l : List ChanId} (hl : ∀ ch ∈ l, ch.val < 32)
    (h : fitLoop rateOf l acc = some (rmask, prio)) :
    (∀ ch : ChanId, ch.val < 32 →
      rmask.getLsbD ch.val = (acc.1.getLsbD ch.val || decide (ch ∈ l) && counts rateOf ch)) ∧
    prio = (acc.2 || l.any (counts rateOf)) := by
  induction l generalizing acc with
  | nil =>
    obtain rfl := Option.some.inj h
    simp
  | cons a l ih =>
    have ha := hl a List.mem_cons_self
    have hrest := fun ch hch => hl ch (List.mem_cons_of_mem a hch)
    have hskip : counts rateOf a = false → fitLoop rateOf l acc = some (rmask, prio) →
        (∀ ch : ChanId, ch.val < 32 → rmask.getLsbD ch.val =
          (acc.1.getLsbD ch.val || decide (ch ∈ a :: l) && counts rateOf ch)) ∧
        prio = (acc.2 || (a :: l).any (counts rateOf)) := by
      intro hoff hloop
      obtain ⟨hbits, hprio⟩ := ih hrest hloop
      refine ⟨fun ch hlt => ?_, ?_⟩
      · rw [hbits ch hlt]
        by_cases heq : ch = a
        · rw [heq, hoff, Bool.and_false, Bool.and_false]
        · simp [heq]
      · rw [hprio, List.any_cons, hoff, Bool.false_or]
    unfold fitLoop at h
    split at h
    · rename_i hnone
      exact hskip (by simp [counts, hnone]) h
    rename_i r hr
    split at h
    · rename_i hon
      obtain ⟨hbits, hprio⟩ := ih hrest h
      have hcounts : counts rateOf a = true := by
        unfold counts
        rw [hr]
        exact decide_eq_true hon
      refine ⟨fun ch hlt => ?_, ?_⟩
      · have hlin : chanLinear a = a.val := Nat.mod_eq_of_lt ha
        have hsame : ch.val = a.val ↔ ch = a := Fin.ext_iff.symm
        rw [hbits ch hlt]
        unfold chanMask
        rw [BitField.getLsbD_or_bit hlt, hlin, decide_eq_decide.mpr hsame]
        by_cases heq : ch = a
        · have hch : counts rateOf ch = true := by rw [heq, hcounts]
          rw [hch, decide_eq_true heq, decide_eq_true (List.mem_cons.mpr (.inl heq))]
          simp
        · simp [heq]
      · rw [hprio, List.any_cons, hcounts]
        simp
    · rename_i hoff
      have hcounts : counts rateOf a = false := by
        unfold counts
        rw [hr]
        exact decide_eq_false hoff
      split at h
      · cases h
      · exact hskip hcounts h

theorem mem_txSlots : ch ∈ chanSlots false ↔ isTxChan ch = true := by
  rw [mem_chanSlots]
  unfold isTxChan
  simp

theorem isTxChan_iff : isTxChan ch = true ↔ ch.val < 32 := by
  unfold isTxChan isRxChan cpdmaMaxChannels
  simp

/-- The rates that a mask was made from: those of the channels, but for the last one
that was set it is the rate that was asked for. -/
def countedRate (channels : ChanId → Option CpdmaChan) (last : Option (ChanId × U32)) :
    ChanId → Option U32 :=
  match last with
  | none => fun ch => (channels ch).map CpdmaChan.rate
  | some (ch, rate) => rateWith channels ch rate

/-- A driver, with the last call that set a rate. -/
structure Limits (τ : Type*) where
  drv : State τ
  last : Option (ChanId × U32)

structure SetRate where
  ch : ChanId
  rate : U32
  fuel : ℕ

/-- A call of cpdma_chan_set_rate that succeeds. A rate that is set already is not set again. -/
def setRateStep (params : CpdmaParams) (busFreqMhz : U32) (l : Limits τ) (op : SetRate) :
    Option (Limits τ) :=
  if l.drv.lock ≠ none then none
  else
    match cpdmaChanSetRate params busFreqMhz op.fuel l.drv.ctlr op.ch op.rate with
    | none => none
    | some (ctlr, ret) =>
      if ret < 0 then none
      else some {
        drv := { l.drv with ctlr := ctlr }
        last := if (l.drv.ctlr.channels op.ch).map CpdmaChan.rate = some op.rate then l.last
          else some (op.ch, op.rate) }

/-- The registers after calls that set rates. -/
structure RatesSet (l : Limits τ) : Prop where
  active : l.drv.ctlr.state = .active
  limits : TxLimits (limitOf l.drv.ctlr)
  rlim : ∀ ch : ChanId, ch.val < 16 →
    rlimBit l.drv.ctlr ch = counts (countedRate l.drv.ctlr.channels l.last) ch
  rate : ∀ ch : ChanId, ch.val < 8 → (l.drv.ctlr.channels ch).isSome →
    rateReg l.drv.ctlr ch = countsOf (limitOf l.drv.ctlr ch)
  fresh : l.last = none →
    (prioFixed l.drv.ctlr = true ↔
      ∃ ch, isTxChan ch = true ∧ unlimited (limitOf l.drv.ctlr ch) = true)
  last : ∀ ch rate, l.last = some (ch, rate) → isTxChan ch = true ∧
    (prioFixed l.drv.ctlr = true ↔
      ∃ ch, isTxChan ch = true ∧ counts (countedRate l.drv.ctlr.channels l.last) ch = true) ∧
    ∃ chan, l.drv.ctlr.channels ch = some chan ∧ (rate = 0 → chan.rate = 0)

/-- The writes that cpdma_chan_set_rate ends with. -/
def writeRate (params : CpdmaParams) (c : CpdmaCtlr τ) (ch : ChanId) (chan : CpdmaChan)
    (rmask : U32) (prioMode : Bool) : CpdmaCtlr τ :=
  let c := (c.setChan ch chan).dmaRegWrite (cpdmaTxPri0Rate + 4 * ch.val) chan.rateFactor
  let c := (cpdmaControlSetLocked params c cpdmaTxRlim rmask).1
  (cpdmaControlSetLocked params c cpdmaTxPrioFixed (if prioMode then 1 else 0)).1

theorem writeRate_channels {chan : CpdmaChan} {rmask : U32} {prioMode : Bool} :
    (writeRate params c ch chan rmask prioMode).channels =
      Function.update c.channels ch (some chan) := by
  unfold writeRate
  rw [cpdmaControlSetLocked_channels, cpdmaControlSetLocked_channels]
  rfl

/-- The ends of cpdma_chan_set_rate, with the state and the value it returns. -/
inductive RateCallEnd (params : CpdmaParams) (busFreqMhz : U32) (fuel : ℕ) (c : CpdmaCtlr τ)
    (ch : ChanId) (rate : U32) : CpdmaCtlr τ → ℤ → Prop
  | refused : (∀ chan, c.channels ch = some chan → isTxChan ch = true →
      cpdmaChanFitRate c.channels ch rate = none) →
      RateCallEnd params busFreqMhz fuel c ch rate c (-einval)
  | same {chan : CpdmaChan} : c.channels ch = some chan → isTxChan ch = true →
      chan.rate = rate → RateCallEnd params busFreqMhz fuel c ch rate c rate.toInt
  | noFactors {chan : CpdmaChan} {err : ℤ} : c.channels ch = some chan →
      cpdmaChanSetFactors fuel busFreqMhz { chan with rate := rate } = some (.error err) →
      RateCallEnd params busFreqMhz fuel c ch rate (c.setChan ch { chan with rate := rate }) err
  | set {chan chan' : CpdmaChan} {rmask : U32} {prioMode : Bool} : c.channels ch = some chan →
      isTxChan ch = true → chan.rate ≠ rate →
      cpdmaChanFitRate c.channels ch rate = some (rmask, prioMode) →
      cpdmaChanSetFactors fuel busFreqMhz { chan with rate := rate } = some (.ok chan') →
      RateCallEnd params busFreqMhz fuel c ch rate (writeRate params c ch chan' rmask prioMode) 0

theorem cpdmaChanSetRate_end {ret : ℤ}
    (h : cpdmaChanSetRate params busFreqMhz fuel c ch rate = some (c', ret)) :
    RateCallEnd params busFreqMhz fuel c ch rate c' ret := by
  unfold cpdmaChanSetRate at h
  split at h
  · rename_i hnone
    obtain ⟨rfl, rfl⟩ := Prod.mk.inj (Option.some.inj h)
    exact .refused fun chan hch => by rw [hnone] at hch; cases hch
  rename_i chan hch
  split at h
  · rename_i hrx
    obtain ⟨rfl, rfl⟩ := Prod.mk.inj (Option.some.inj h)
    exact .refused fun _ _ htx => by rw [htx] at hrx; cases hrx
  rename_i htx
  have htx : isTxChan ch = true := by simpa using htx
  split at h
  · rename_i hsame
    obtain ⟨rfl, rfl⟩ := Prod.mk.inj (Option.some.inj h)
    exact .same hch htx hsame
  rename_i hdiff
  split at h
  · rename_i hfit
    obtain ⟨rfl, rfl⟩ := Prod.mk.inj (Option.some.inj h)
    exact .refused fun _ _ _ => hfit
  rename_i hfit
  split at h
  · cases h
  · rename_i hfactors
    obtain ⟨rfl, rfl⟩ := Prod.mk.inj (Option.some.inj h)
    exact .noFactors hch hfactors
  · rename_i hfactors
    obtain ⟨rfl, rfl⟩ := Prod.mk.inj (Option.some.inj h)
    exact .set hch htx hdiff hfit hfactors

/-- What a call that sets a new rate does. -/
structure SetsRate (c : CpdmaCtlr τ) (ch : ChanId) (rate : U32) (c' : CpdmaCtlr τ) : Prop where
  active : c'.state = .active
  channels : ∃ chan chan', c.channels ch = some chan ∧ Fitted { chan with rate := rate } chan' ∧
    c'.channels = Function.update c.channels ch (some chan') ∧
    ∀ ch' : ChanId, ch'.val < 8 →
      rateReg c' ch' = if ch' = ch then chan'.rateFactor else rateReg c ch'
  rlim : ∀ ch' : ChanId, ch'.val < 16 →
    rlimBit c' ch' = counts (rateWith c.channels ch rate) ch'
  prio : prioFixed c' = true ↔
    ∃ ch', isTxChan ch' = true ∧ counts (rateWith c.channels ch rate) ch' = true

theorem setsRate_writeRate {chan chan' : CpdmaChan} {rmask : U32} {prioMode : Bool}
    (hext : params.hasExtRegs = true) (hactive : c.state = .active)
    (hlimits : TxLimits (limitOf c)) (hch : c.channels ch = some chan)
    (htx : isTxChan ch = true)
    (hfit : cpdmaChanFitRate c.channels ch rate = some (rmask, prioMode))
    (hfitted : Fitted { chan with rate := rate } chan') :
    SetsRate c ch rate (writeRate params c ch chan' rmask prioMode) := by
  have hlt : ch.val < 8 := hlimits.tx ch htx (by unfold limitOf; rw [hch]; rfl)
  obtain ⟨hbits, hprio⟩ := fitLoop_spec (fun a ha => isTxChan_iff.mp (mem_txSlots.mp ha)) hfit
  unfold writeRate
  dsimp only
  have hactive₁ : ((c.setChan ch chan').dmaRegWrite (cpdmaTxPri0Rate + 4 * ch.val)
      chan'.rateFactor).state = .active := hactive
  have hchans : ((c.setChan ch chan').dmaRegWrite (cpdmaTxPri0Rate + 4 * ch.val)
      chan'.rateFactor).channels = Function.update c.channels ch (some chan') := rfl
  have hrates : ∀ ch', rateReg ((c.setChan ch chan').dmaRegWrite (cpdmaTxPri0Rate + 4 * ch.val)
      chan'.rateFactor) ch' = if ch' = ch then chan'.rateFactor else rateReg c ch' := by
    intro ch'
    dsimp only [rateReg, CpdmaCtlr.dmaRegWrite]
    by_cases heq : ch' = ch
    · rw [heq, Function.update_self, if_pos rfl]
    · have hval : ch'.val ≠ ch.val := fun hcon => heq (Fin.ext hcon)
      rw [Function.update_of_ne (by omega), if_neg heq]
      rfl
  generalize (c.setChan ch chan').dmaRegWrite (cpdmaTxPri0Rate + 4 * ch.val) chan'.rateFactor = c₁
    at hactive₁ hchans hrates ⊢
  obtain ⟨hrlim₁, -⟩ := rlim_written (c := c₁) rmask
  rw [controlSet_rlim hext hactive₁]
  have hactive₂ : (c₁.dmaRegWrite cpdmaDmacontrol
      (BitField.put (c₁.regs cpdmaDmacontrol) 8 16 rmask)).state = .active := hactive₁
  have hchans₂ : (c₁.dmaRegWrite cpdmaDmacontrol
      (BitField.put (c₁.regs cpdmaDmacontrol) 8 16 rmask)).channels = c₁.channels := rfl
  have hrates₂ : ∀ ch' : ChanId, ch'.val < 8 → rateReg (c₁.dmaRegWrite cpdmaDmacontrol
      (BitField.put (c₁.regs cpdmaDmacontrol) 8 16 rmask)) ch' = rateReg c₁ ch' :=
    fun ch' hlt' => Function.update_of_ne (rateReg_ne hlt').1 _ _
  generalize c₁.dmaRegWrite cpdmaDmacontrol (BitField.put (c₁.regs cpdmaDmacontrol) 8 16 rmask) = c₂
    at hactive₂ hchans₂ hrates₂ hrlim₁ ⊢
  obtain ⟨hrlim₂, hprio₂⟩ := prio_written (c := c₂) (if prioMode then 1 else 0)
  rw [controlSet_prio hext hactive₂]
  refine ⟨hactive₂, ⟨chan, chan', hch, hfitted, hchans₂.trans hchans, fun ch' hlt' => ?_⟩,
    fun ch' hlt' => ?_, ?_⟩
  · rw [← hrates ch', ← hrates₂ ch' hlt']
    exact Function.update_of_ne (rateReg_ne hlt').1 _ _
  · have htx' : isTxChan ch' = true := isTxChan_iff.mpr (by omega)
    have hzero : (0 : U32).getLsbD ch'.val = false := BitVec.getLsbD_zero
    rw [hrlim₂ ch' hlt', hrlim₁ ch' hlt', hbits ch' (by omega),
      decide_eq_true (mem_txSlots.mpr htx'), hzero]
    simp
  · rw [hprio₂]
    have hbit : (if prioMode then (1 : U32) else 0).getLsbD 0 = prioMode := by
      cases prioMode <;> decide
    rw [hbit, hprio, Bool.false_or, List.any_eq_true]
    exact exists_congr fun ch' => and_congr_left fun _ => mem_txSlots

theorem cpdmaChanSetRate_ok {ret : ℤ} (hext : params.hasExtRegs = true)
    (hactive : c.state = .active) (hlimits : TxLimits (limitOf c))
    (h : cpdmaChanSetRate params busFreqMhz fuel c ch rate = some (c', ret)) (hret : 0 ≤ ret) :
    isTxChan ch = true ∧ ((c.channels ch).map CpdmaChan.rate = some rate ∧ c' = c ∨
      (c.channels ch).map CpdmaChan.rate ≠ some rate ∧ SetsRate c ch rate c') := by
  cases cpdmaChanSetRate_end h with
  | refused => exact absurd hret (by decide)
  | same hch htx hsame => exact ⟨htx, .inl ⟨by rw [hch, Option.map_some, hsame], rfl⟩⟩
  | noFactors hch hfactors =>
    rw [cpdmaChanSetFactors_error hfactors] at hret
    exact absurd hret (by decide)
  | @set chan chan' rmask prioMode hch htx hdiff hfit hfactors =>
    refine ⟨htx, .inr ⟨fun hcon => hdiff ?_, setsRate_writeRate hext hactive hlimits hch htx hfit
      (cpdmaChanSetFactors_fitted hfactors)⟩⟩
    rw [hch] at hcon
    exact Option.some.inj hcon

theorem SetsRate.countedRate (h : SetsRate c ch rate c') :
    countedRate c'.channels (some (ch, rate)) = rateWith c.channels ch rate := by
  obtain ⟨chan, chan', hch, -, hchans, -⟩ := h.channels
  funext ch'
  dsimp only [CpswDriver.Cpdma.countedRate, rateWith]
  rw [hchans]
  by_cases heq : ch' = ch
  · rw [heq, Function.update_self, hch]
    simp
  · rw [Function.update_of_ne heq]

theorem SetsRate.txLimits (h : SetsRate c ch rate c') (htx : isTxChan ch = true)
    (hlimits : TxLimits (limitOf c)) : TxLimits (limitOf c') := by
  obtain ⟨chan, chan', hch, -, hchans, -⟩ := h.channels
  have hother : ∀ ch', ch' ≠ ch → limitOf c' ch' = limitOf c ch' := by
    intro ch' hne
    unfold limitOf
    rw [hchans, Function.update_of_ne hne]
  refine ⟨fun ch' hrx => ?_, fun ch' htx' hsome => ?_⟩
  · have hne : ch' ≠ ch := fun hcon => by
      rw [hcon, htx] at hrx
      cases hrx
    rw [hother ch' hne]
    exact hlimits.rx ch' hrx
  · by_cases heq : ch' = ch
    · rw [heq]
      refine hlimits.tx ch htx ?_
      unfold limitOf
      rw [hch]
      rfl
    · rw [hother ch' heq] at hsome
      exact hlimits.tx ch' htx' hsome

theorem RatesSet.step {l l' : Limits τ} {op : SetRate} (h : RatesSet l)
    (hext : params.hasExtRegs = true) (hst : setRateStep params busFreqMhz l op = some l') :
    RatesSet l' := by
  unfold setRateStep at hst
  split at hst
  · cases hst
  split at hst
  · cases hst
  rename_i c' ret hset
  split at hst
  · cases hst
  rename_i hret
  obtain rfl := Option.some.inj hst
  obtain ⟨htx, hcases⟩ := cpdmaChanSetRate_ok hext h.active h.limits hset (by omega)
  rcases hcases with ⟨hsame, rfl⟩ | ⟨hdiff, hsets⟩
  · rw [if_pos hsame]
    exact h
  rw [if_neg hdiff]
  have hlimits := hsets.txLimits htx h.limits
  obtain ⟨chan, chan', hch, hfitted, hchans, hrate⟩ := hsets.channels
  have hlt : op.ch.val < 8 := h.limits.tx op.ch htx (by unfold limitOf; rw [hch]; rfl)
  have hself : c'.channels op.ch = some chan' := by rw [hchans, Function.update_self]
  refine ⟨hsets.active, hlimits, fun ch' hlt' => ?_, fun ch' hlt' hsome => ?_, nofun,
    fun ch rate heq => ?_⟩
  · dsimp only
    rw [hsets.countedRate]
    exact hsets.rlim ch' hlt'
  · dsimp only at hsome ⊢
    rw [hrate ch' hlt']
    by_cases heq : ch' = op.ch
    · rw [if_pos heq, heq]
      unfold limitOf countsOf
      rw [hself]
      by_cases hzero : chan'.rate = 0
      · rw [hfitted.counts hzero, if_neg]
        simp [limited, hzero]
      · have hon : limited (some (chan'.rate, chan'.rateFactor)) = true := decide_eq_true hzero
        rw [Option.map_some, if_pos hon]
        rfl
    · rw [hchans, Function.update_of_ne heq] at hsome
      rw [if_neg heq, h.rate ch' hlt' hsome]
      unfold limitOf
      rw [hchans, Function.update_of_ne heq]
  · obtain ⟨rfl, rfl⟩ := Prod.mk.inj (Option.some.inj heq)
    refine ⟨htx, ?_, chan', hself, fun hzero => hfitted.off hzero⟩
    dsimp only
    rw [hsets.countedRate]
    exact hsets.prio

theorem counts_rates (channels : ChanId → Option CpdmaChan) (ch : ChanId) :
    counts (fun ch => (channels ch).map CpdmaChan.rate) ch =
      limited ((channels ch).map fun chan => (chan.rate, chan.rateFactor)) := by
  unfold counts limited
  rw [Option.any_map, Option.any_map]

theorem Started.ratesSet {l : Limits τ} (h : Started (limitOf l.drv.ctlr) l.drv.ctlr)
    (hlimits : TxLimits (limitOf l.drv.ctlr)) (hlast : l.last = none) : RatesSet l := by
  refine ⟨h.active, hlimits, fun ch hlt => ?_, fun ch hlt _ => h.rate ch hlt, fun _ => h.prio,
    fun ch rate hcon => ?_⟩
  · rw [h.rlim ch hlt, hlast]
    exact (counts_rates l.drv.ctlr.channels ch).symm
  · rw [hlast] at hcon
    cases hcon

/-- Where the two ways of programming the shapers agree: no rate was set, or the last
one that was set is zero or could be met, and some but not all channels are limited. -/
def Agree (l : Limits τ) : Prop :=
  l.last = none ∨ ∃ ch rate, l.last = some (ch, rate) ∧
    (rate = 0 ∨ limited (limitOf l.drv.ctlr ch) = true) ∧
    (∃ ch', isTxChan ch' = true ∧ limited (limitOf l.drv.ctlr ch') = true) ∧
    ∃ ch', isTxChan ch' = true ∧ unlimited (limitOf l.drv.ctlr ch') = true

theorem counts_countedRate_self {chan : CpdmaChan} (hch : c.channels ch = some chan) :
    counts (countedRate c.channels (some (ch, rate))) ch = decide (rate ≠ 0) := by
  dsimp only [countedRate, rateWith, counts]
  rw [hch, Option.map_some, if_pos rfl]
  rfl

theorem counts_countedRate_ne (hne : ch' ≠ ch) :
    counts (countedRate c.channels (some (ch, rate))) ch' = limited (limitOf c ch') := by
  have hother : countedRate c.channels (some (ch, rate)) ch' =
      (c.channels ch').map CpdmaChan.rate := by
    dsimp only [countedRate, rateWith]
    simp only [hne, if_false]
  unfold counts
  rw [hother]
  exact counts_rates c.channels ch'

theorem limited_or_unlimited {chan : CpdmaChan} (hch : c.channels ch = some chan) :
    limited (limitOf c ch) = true ∨ unlimited (limitOf c ch) = true := by
  rw [limitOf_some hch]
  by_cases hrate : chan.rate = 0
  · exact .inr (decide_eq_true hrate)
  · exact .inl (decide_eq_true hrate)

/-- The engine has the mask of the last call, but for a rate that could not be met. -/
theorem RatesSet.mask_iff {l : Limits τ} (h : RatesSet l) (hlast : l.last = some (ch, rate)) :
    (∀ ch' : ChanId, ch'.val < 16 → limited (limitOf l.drv.ctlr ch') =
      counts (countedRate l.drv.ctlr.channels (some (ch, rate))) ch') ↔
      rate = 0 ∨ limited (limitOf l.drv.ctlr ch) = true := by
  obtain ⟨htx, -, chan, hch, hzero⟩ := h.last ch rate hlast
  have hlt : ch.val < 8 := h.limits.tx ch htx (by rw [limitOf_some hch]; rfl)
  constructor
  · intro hmask
    have hself := hmask ch (by omega)
    rw [counts_countedRate_self hch] at hself
    by_cases hr : rate = 0
    · exact .inl hr
    · rw [hself]
      exact .inr (decide_eq_true hr)
  · intro hmet ch' _
    by_cases heq : ch' = ch
    · rw [heq, counts_countedRate_self hch]
      by_cases hr : rate = 0
      · rw [limitOf_some hch, hr]
        simp [limited, hzero hr]
      · rw [hmet.resolve_left hr, decide_eq_true hr]
    · exact (counts_countedRate_ne heq).symm

/-- A tx channel that is limited in either way has a bit in the mask. -/
theorem RatesSet.lt_of_counts {l : Limits τ} (h : RatesSet l) (ch : ChanId) (rate : U32)
    (htx : isTxChan ch' = true) (hin : limited (limitOf l.drv.ctlr ch') = true ∨
      counts (countedRate l.drv.ctlr.channels (some (ch, rate))) ch' = true) : ch'.val < 16 := by
  have hsome : (limitOf l.drv.ctlr ch').isSome := by
    unfold limitOf limited at hin
    dsimp only [countedRate, rateWith, counts] at hin
    unfold limitOf
    cases hch : l.drv.ctlr.channels ch' with
    | none =>
      rw [hch] at hin
      simp at hin
    | some chan => rfl
  have hlt := h.limits.tx ch' htx hsome
  omega

theorem agree_iff {l : Limits τ} (hlast : l.last = some (ch, rate)) :
    Agree l ↔ (rate = 0 ∨ limited (limitOf l.drv.ctlr ch) = true) ∧
      (∃ ch', isTxChan ch' = true ∧ limited (limitOf l.drv.ctlr ch') = true) ∧
      ∃ ch', isTxChan ch' = true ∧ unlimited (limitOf l.drv.ctlr ch') = true := by
  unfold Agree
  rw [hlast]
  constructor
  · rintro (hcon | ⟨ch', rate', heq, hrest⟩)
    · cases hcon
    · obtain ⟨rfl, rfl⟩ := Prod.mk.inj (Option.some.inj heq)
      exact hrest
  · intro hrest
    exact .inr ⟨ch, rate, rfl, hrest⟩

theorem sameShapers_iff {l : Limits τ} (h : RatesSet l)
    (hstarted : Started (limitOf l.drv.ctlr) c') : SameShapers l.drv.ctlr c' ↔ Agree l := by
  have hrate : ∀ ch, isTxChan ch = true → (l.drv.ctlr.channels ch).isSome →
      rateReg c' ch = rateReg l.drv.ctlr ch := by
    intro ch htx hsome
    have hlt : ch.val < 8 := h.limits.tx ch htx (by rwa [limitOf_isSome])
    rw [hstarted.rate ch hlt, h.rate ch hlt hsome]
  have hrlim : rlimField c' = rlimField l.drv.ctlr ↔ ∀ ch : ChanId, ch.val < 16 →
      limited (limitOf l.drv.ctlr ch) = counts (countedRate l.drv.ctlr.channels l.last) ch := by
    rw [rlimField_eq_iff]
    refine forall_congr' fun ch => imp_congr_right fun hlt => ?_
    rw [hstarted.rlim ch hlt, h.rlim ch hlt]
  have hwhole : SameShapers l.drv.ctlr c' ↔
      rlimField c' = rlimField l.drv.ctlr ∧ prioFixed c' = prioFixed l.drv.ctlr :=
    ⟨fun hs => ⟨hs.rlim, hs.prio⟩, fun hs => ⟨hs.1, hs.2, hrate⟩⟩
  rw [hwhole, hrlim]
  cases hlast : l.last with
  | none =>
    refine iff_of_true ⟨fun ch _ => ?_, ?_⟩ (.inl hlast)
    · exact (counts_rates l.drv.ctlr.channels ch).symm
    · rw [Bool.eq_iff_iff, hstarted.prio, h.fresh hlast]
  | some last =>
    obtain ⟨ch, rate⟩ := last
    obtain ⟨htx, hprio, chan, hch, -⟩ := h.last ch rate hlast
    rw [hlast] at hprio
    rw [agree_iff hlast, ← h.mask_iff hlast, Bool.eq_iff_iff, hstarted.prio, hprio]
    refine and_congr_right fun hmask => ?_
    have hcounts : (∃ ch', isTxChan ch' = true ∧
        counts (countedRate l.drv.ctlr.channels (some (ch, rate))) ch' = true) ↔
        ∃ ch', isTxChan ch' = true ∧ limited (limitOf l.drv.ctlr ch') = true := by
      refine exists_congr fun ch' => and_congr_right fun htx' => ⟨fun hin => ?_, fun hin => ?_⟩
      · rw [hmask ch' (h.lt_of_counts ch rate htx' (.inr hin)), hin]
      · rw [← hmask ch' (h.lt_of_counts ch rate htx' (.inl hin)), hin]
    rw [hcounts]
    constructor
    · intro hbit
      rcases limited_or_unlimited hch with hon | hoff
      · exact ⟨⟨ch, htx, hon⟩, hbit.mpr ⟨ch, htx, hon⟩⟩
      · exact ⟨hbit.mp ⟨ch, htx, hoff⟩, ⟨ch, htx, hoff⟩⟩
    · rintro ⟨hon, hoff⟩
      exact iff_of_true hoff hon

/-- A stop and a start program the shapers as the calls had left them exactly where
the two ways agree. -/
theorem shapers_kept_iff {l l' : Limits τ} {ops : List SetRate} {sched sched' : List (Op τ)}
    (hext : params.hasExtRegs = true) (hreset : params.hasSoftReset = true)
    (hlimits : TxLimits (limitOf l.drv.ctlr))
    (hstarted : Started (limitOf l.drv.ctlr) l.drv.ctlr) (hlast : l.last = none)
    (hrun : Run (setRateStep params busFreqMhz) anyStep l ops l')
    (hstop : cpdmaCtlrStop params sched l'.drv = some (t, 0))
    (hstart : cpdmaCtlrStart params sched' t = some (t', 0)) :
    SameShapers l'.drv.ctlr t'.ctlr ↔ Agree l' := by
  have hset : RatesSet l' :=
    hrun.invariant (fun _ _ _ h _ hst => h.step hext hst) (hstarted.ratesSet hlimits hlast)
  have hkept := cpdmaCtlrStop_limits hstop
  have hagain := cpdmaCtlrStart_started hreset hext (by rw [hkept]; exact hset.limits) hstart
  rw [hkept] at hagain
  exact sameShapers_iff hset hagain

end SetRate

/-- Two tx channels, in a controller that is not started yet. -/
def twoTx : State Unit :=
  quiet (smallParams 2 two_le_smallPool) () .idle
    (fun ch => if ch = 6 ∨ ch = 7 then some { descNum := 1 } else none) 1 1

theorem twoTx_limits : TxLimits (limitOf twoTx.ctlr) := by
  refine ⟨fun ch _ => ?_, fun ch _ hsome => ?_⟩
  · unfold limitOf twoTx quiet
    dsimp only
    split <;> rfl
  · unfold limitOf twoTx quiet at hsome
    dsimp only at hsome
    split at hsome
    · rename_i heq
      rcases heq with rfl | rfl <;> decide
    · cases hsome

def twoTxParams : CpdmaParams := smallParams 2 two_le_smallPool

def succeeds (o : Option (State Unit × ℤ)) : Option (State Unit) :=
  o.bind fun r => if r.2 = 0 then some r.1 else none

theorem succeeds_eq_some {o : Option (State Unit × ℤ)} {s : State Unit}
    (h : succeeds o = some s) : o = some (s, 0) := by
  obtain ⟨⟨s', ret⟩, rfl, hret⟩ := Option.bind_eq_some_iff.mp h
  split at hret
  · rename_i hzero
    obtain rfl := Option.some.inj hret
    exact congrArg (fun ret => some (s', ret)) hzero
  · cases hret

/-- A start, calls that set rates at a bus of 125 MHz, a stop and another start. -/
def ratesAndRestart (ops : List SetRate) : Option (Limits Unit × State Unit) :=
  (succeeds (cpdmaCtlrStart twoTxParams (List.replicate 65 (.advance 0)) twoTx)).bind fun s =>
  (exec (setRateStep twoTxParams 125) anyStep ⟨s, none⟩ ops).bind fun l =>
  (succeeds (cpdmaCtlrStop twoTxParams (List.replicate 69 (.advance 1)) l.drv)).bind fun t =>
  (succeeds (cpdmaCtlrStart twoTxParams (List.replicate 65 (.advance 2)) t)).map fun t' => (l, t')

theorem ratesAndRestart_runs {ops : List SetRate} {l' : Limits Unit} {t' : State Unit}
    (h : ratesAndRestart ops = some (l', t')) : ∃ (l : Limits Unit) (t : State Unit),
      TxLimits (limitOf l.drv.ctlr) ∧ Started (limitOf l.drv.ctlr) l.drv.ctlr ∧ l.last = none ∧
      Run (setRateStep twoTxParams 125) anyStep l ops l' ∧
      cpdmaCtlrStop twoTxParams (List.replicate 69 (.advance 1)) l'.drv = some (t, 0) ∧
      cpdmaCtlrStart twoTxParams (List.replicate 65 (.advance 2)) t = some (t', 0) := by
  unfold ratesAndRestart at h
  obtain ⟨s, hs, h⟩ := Option.bind_eq_some_iff.mp h
  obtain ⟨l, hl, h⟩ := Option.bind_eq_some_iff.mp h
  obtain ⟨t, ht, h⟩ := Option.bind_eq_some_iff.mp h
  obtain ⟨t₁, ht', heq⟩ := Option.map_eq_some_iff.mp h
  obtain ⟨rfl, rfl⟩ := Prod.mk.inj heq
  have hstarted : Started (limitOf twoTx.ctlr) s.ctlr :=
    cpdmaCtlrStart_started rfl rfl twoTx_limits (succeeds_eq_some hs)
  refine ⟨⟨s, none⟩, t, ?_, ?_, rfl, Run.of_exec ops hl, succeeds_eq_some ht, succeeds_eq_some ht'⟩
  · dsimp only
    rw [hstarted.kept]
    exact twoTx_limits
  · dsimp only
    rw [hstarted.kept]
    exact hstarted

set_option maxRecDepth 4000 in
/-- One of two channels is limited: the shapers come back as they were. -/
theorem shapers_kept_with_one_limit : ∃ (l l' : Limits Unit) (t t' : State Unit),
    Run (setRateStep twoTxParams 125) anyStep l [⟨7, 100000, 4⟩] l' ∧
    cpdmaCtlrStop twoTxParams (List.replicate 69 (.advance 1)) l'.drv = some (t, 0) ∧
    cpdmaCtlrStart twoTxParams (List.replicate 65 (.advance 2)) t = some (t', 0) ∧
    rlimBit t'.ctlr 7 = true ∧ (SameShapers l'.drv.ctlr t'.ctlr ↔ Agree l') := by
  have hexec : (ratesAndRestart [⟨7, 100000, 4⟩]).any (fun r => rlimBit r.2.ctlr 7) = true := by
    decide +kernel
  obtain ⟨⟨l', t'⟩, hr, hbit⟩ := (Option.any_eq_true _ _).mp hexec
  obtain ⟨l, t, hlimits, hstarted, hlast, hrun, hstop, hstart⟩ := ratesAndRestart_runs hr
  exact ⟨l, l', t, t', hrun, hstop, hstart, hbit,
    shapers_kept_iff rfl rfl hlimits hstarted hlast hrun hstop hstart⟩

set_option maxRecDepth 4000 in
/-- A limit that is set and taken away again turns the fixed priorities off, and a start
turns them on. -/
theorem shapers_kept_fails_without_limit : ∃ (l l' : Limits Unit) (t t' : State Unit),
    Started (limitOf l.drv.ctlr) l.drv.ctlr ∧
    Run (setRateStep twoTxParams 125) anyStep l [⟨7, 100000, 4⟩, ⟨7, 0, 0⟩] l' ∧
    cpdmaCtlrStop twoTxParams (List.replicate 69 (.advance 1)) l'.drv = some (t, 0) ∧
    cpdmaCtlrStart twoTxParams (List.replicate 65 (.advance 2)) t = some (t', 0) ∧
    ¬ SameShapers l'.drv.ctlr t'.ctlr := by
  have hexec : (ratesAndRestart [⟨7, 100000, 4⟩, ⟨7, 0, 0⟩]).any
      (fun r => !prioFixed r.1.drv.ctlr && prioFixed r.2.ctlr) = true := by decide +kernel
  obtain ⟨⟨l', t'⟩, hr, hbits⟩ := (Option.any_eq_true _ _).mp hexec
  obtain ⟨l, t, -, hstarted, -, hrun, hstop, hstart⟩ := ratesAndRestart_runs hr
  refine ⟨l, l', t, t', hstarted, hrun, hstop, hstart, fun hsame => ?_⟩
  rw [Bool.and_eq_true] at hbits
  have hprio := hsame.prio
  rw [hbits.2] at hprio
  rw [← hprio] at hbits
  cases hbits.1

end CpswDriver.Cpdma
