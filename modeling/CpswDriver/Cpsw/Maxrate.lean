import CpswDriver.Cpsw.Slaves
import CpswDriver.Cpsw.SplitRes

/-!
The transmit rates that the network stack knows of. They are recorded for each
net device and queue, while the limits are those of channels that the devices
share. A rate that is set is recorded for all devices; a channel that is created
is recorded for the one that asked for it only.
-/

namespace CpswDriver.Maxrate

open Cpdma Channels Runs

/-- What stays as it was probed. `hasNdev` tells which slaves have a net device. -/
structure Config where
  params : CpdmaParams
  busFreqMhz : U32
  quirkIrq : Bool
  hasNdev : Port → Bool

/-- The switch, and tx_maxrate of every queue of the net devices. -/
structure State (τ : Type*) where
  cpsw : Common τ
  txMaxrate : Port → ℕ → U32

/-- What the driver reads of struct ethtool_channels. -/
structure EthtoolChannels where
  combinedCount : ℕ
  rxCount : ℕ
  txCount : ℕ

/-- What happens around a change of the channels: the allocations that succeed, what goes on
while channels are stopped, and the first error of netif_set_real_num_*_queues, if any. -/
structure Around (τ : Type*) where
  suspend : List (Cpdma.Op τ)
  zalloc : Bool → ℕ → Bool
  destroy : Bool → ℕ → List (Cpdma.Op τ)
  numErr : ℤ

variable {τ : Type*}

/-- cpdma_chan_set_rate for the channel of a queue, undefined for a channel that was destroyed
and while a call holds the controller's lock. -/
def setVecRate (cfg : Config) (fuel : ℕ) (s : Common τ) (queue : ℕ) (chRate : U32) :
    Option (Common τ × ℤ) :=
  match (s.txv queue).ch with
  | none => some (s, -einval)
  | some ch =>
    if s.txChNum ≤ queue ∨ s.dma.lock ≠ none then none
    else (cpdmaChanSetRate cfg.params cfg.busFreqMhz fuel s.dma.ctlr ch chRate).map fun r =>
      ({ s with dma := { s.dma with ctlr := r.1 } }, r.2)

def updateRates (cfg : Config) (txMaxrate : Port → ℕ → U32) (queue : ℕ) (rate : U32) :
    Port → ℕ → U32 :=
  fun p => if cfg.hasNdev p then Function.update (txMaxrate p) queue rate else txMaxrate p

def cpswNdoSetTxMaxrate (cfg : Config) (fuel : ℕ) (s : State τ) (p : Port) (queue : ℕ) (rate : U32)
    (pm : ℤ) : Option (State τ × ℤ) :=
  if s.txMaxrate p queue = rate then some (s, 0)
  else
    let chRate := rate * 1000
    let minRate := cpdmaChanGetMinRate cfg.busFreqMhz
    if chRate < minRate ∧ chRate ≠ 0 then some (s, -einval)
    else if s.cpsw.speed < rate then some (s, -einval)
    else if pm < 0 then some (s, pm)
    else (setVecRate cfg fuel s.cpsw queue chRate).bind fun r =>
      if r.2 ≠ 0 then some ({ s with cpsw := r.1 }, r.2)
      else (cpswSplitRes cfg.params r.1).map fun cpsw =>
        (⟨cpsw, updateRates cfg s.txMaxrate queue rate⟩, 0)

def cpswCheckChSettings (cfg : Config) (chs : EthtoolChannels) : ℤ :=
  if cfg.quirkIrq then -eopnotsupp
  else if chs.combinedCount ≠ 0 then -einval
  else if chs.rxCount = 0 ∨ chs.txCount = 0 then -einval
  else if cpswMaxQueues < chs.rxCount ∨ cpswMaxQueues < chs.txCount then -einval
  else 0

/-- The channel that the driver creates for an index below 8. -/
def vch (rx : Bool) (i : ℕ) : ChanId := Fin.ofNat 64 (if rx then 32 + i else 7 - i)

def chNum (rx : Bool) (s : Common τ) : ℕ := if rx then s.rxChNum else s.txChNum

def setChNum (rx : Bool) (s : Common τ) (n : ℕ) : Common τ :=
  if rx then { s with rxChNum := n } else { s with txChNum := n }

def setVec (rx : Bool) (s : Common τ) (i : ℕ) (ch : ChanId) : Common τ :=
  if rx then { s with rxv := Function.update s.rxv i { s.rxv i with ch := some ch } }
  else { s with txv := Function.update s.txv i { s.txv i with ch := some ch } }

def vecOf (rx : Bool) (s : Common τ) : ℕ → CpswVector := if rx then s.rxv else s.txv

/-- The body of the first loop. After an error the vector holds no channel that is ever used. -/
def createVec (cfg : Config) (p : Port) (rx zalloc : Bool) (s : State τ) : Option (State τ × ℤ) :=
  if s.cpsw.dma.lock ≠ none then none
  else
    let i := chNum rx s.cpsw
    let (ctlr, ret) := cpdmaChanCreate cfg.params s.cpsw.dma.ctlr (vch rx i) zalloc
    let cpsw := setVec rx { s.cpsw with dma := { s.cpsw.dma with ctlr := ctlr } } i (vch rx i)
    let txMaxrate := Function.update s.txMaxrate p (Function.update (s.txMaxrate p) i 0)
    if ret ≠ 0 then some (⟨cpsw, txMaxrate⟩, ret)
    else some (⟨setChNum rx cpsw (i + 1), txMaxrate⟩, 0)

def destroyVec (cfg : Config) (rx : Bool) (sched : List (Cpdma.Op τ)) (s : State τ) :
    Option (State τ × ℤ) :=
  let i := chNum rx s.cpsw - 1
  (vecOf rx s.cpsw i).ch.bind fun ch =>
    (cpdmaChanDestroy cfg.params sched s.cpsw.dma ch).map fun r =>
      ({ s with cpsw := { setChNum rx s.cpsw i with dma := r.1 } }, r.2)

/-- A loop that goes on until an error. -/
def untilErr (body : State τ → Option (State τ × ℤ)) : ℕ → State τ → Option (State τ × ℤ)
  | 0, s => some (s, 0)
  | n + 1, s => (body s).bind fun r => if r.2 ≠ 0 then some r else untilErr body n r.1

def cpswUpdateChannelsRes (cfg : Config) (p : Port) (rx : Bool) (n : ℕ) (a : Around τ)
    (s : State τ) : Option (State τ × ℤ) :=
  let create := fun s => createVec cfg p rx (a.zalloc rx (chNum rx s.cpsw)) s
  let destroy := fun s => destroyVec cfg rx (a.destroy rx (chNum rx s.cpsw - 1)) s
  (untilErr create (n - chNum rx s.cpsw) s).bind fun r =>
    if r.2 ≠ 0 then some r else untilErr destroy (chNum rx r.1.cpsw - n) r.1

/-- The end of cpsw_set_channels_common, up to its xdp queues and cpsw_resume_data_pass. -/
def setRealNum (cfg : Config) (a : Around τ) (s : State τ) : Option (State τ × ℤ) :=
  if a.numErr ≠ 0 then some (s, a.numErr)
  else (cpswSplitRes cfg.params s.cpsw).map fun cpsw => ({ s with cpsw := cpsw }, 0)

/-- cpsw_set_channels_common until the channels are set up. -/
def cpswSetChannelsCommon (cfg : Config) (s : State τ) (p : Port) (chs : EthtoolChannels)
    (a : Around τ) : Option (State τ × ℤ) :=
  if cpswCheckChSettings cfg chs < 0 then some (s, cpswCheckChSettings cfg chs)
  else (cpdmaCtlrStop cfg.params a.suspend s.cpsw.dma).bind fun r =>
    (cpswUpdateChannelsRes cfg p true chs.rxCount a
      { s with cpsw := { s.cpsw with dma := r.1 } }).bind fun r =>
      if r.2 ≠ 0 then some r
      else (cpswUpdateChannelsRes cfg p false chs.txCount a r.1).bind fun r =>
        if r.2 ≠ 0 then some r else setRealNum cfg a r.1

inductive Op (τ : Type*)
  | setTxMaxrate (p : Port) (queue : ℕ) (rate : U32) (fuel : ℕ) (pm : ℤ)
  | setChannels (p : Port) (chs : EthtoolChannels) (a : Around τ)
  /-- The links have another speed, and what depends on it is split again. -/
  | adjustLink (speed : U32) (resplit : Bool)
  /-- Whatever else happens to the channels. -/
  | dma (op : Cpdma.Op τ)

/-- The calls come from net devices. -/
def step (cfg : Config) (s : State τ) : Op τ → Option (State τ)
  | .setTxMaxrate p queue rate fuel pm =>
    if cfg.hasNdev p then (cpswNdoSetTxMaxrate cfg fuel s p queue rate pm).map Prod.fst else none
  | .setChannels p chs a =>
    if cfg.hasNdev p then (cpswSetChannelsCommon cfg s p chs a).map Prod.fst else none
  | .adjustLink speed resplit =>
    let cpsw := { s.cpsw with speed := speed }
    if resplit then (cpswSplitRes cfg.params cpsw).map fun cpsw => { s with cpsw := cpsw }
    else some { s with cpsw := cpsw }
  | .dma op => (Cpdma.step cfg.params s.cpsw.dma op).map fun dma =>
    { s with cpsw := { s.cpsw with dma := dma } }

def txChan (cfg : Config) (queue : ℕ) : ChanId := if cfg.quirkIrq then 0 else vch false queue

/-- The rate limit of a queue's channel, in kbit/s, zero for none. -/
def applied (cfg : Config) (s : State τ) (queue : ℕ) : Option U32 :=
  (limitOf s.cpsw.dma.ctlr (txChan cfg queue)).map Prod.fst

/-- A queue's rate is recorded exactly if its channel is limited. -/
def Believed (cfg : Config) (s : State τ) : Prop :=
  ∀ queue < s.cpsw.txChNum, ∀ p, cfg.hasNdev p → ∃ limit, applied cfg s queue = some limit ∧
    (s.txMaxrate p queue = 0 ↔ limit = 0)

/-- A channel is limited to at least a rate in Mbit/s, or unlimited for zero. -/
def Grants (cfg : Config) (s : State τ) (queue : ℕ) (rate : U32) : Prop :=
  ∃ limit, applied cfg s queue = some limit ∧ (rate = 0 ↔ limit = 0) ∧
    1000 * rate.toNat ≤ limit.toNat

/-- The channels that the driver holds are those it created. -/
structure Vectors (cfg : Config) (s : Common τ) : Prop where
  txNum : s.txChNum ≤ cpswMaxQueues ∧ (cfg.quirkIrq = true → s.txChNum ≤ 1)
  tx : ∀ queue < s.txChNum, (s.txv queue).ch = some (txChan cfg queue)
  rxNum : s.rxChNum ≤ cpswMaxQueues
  rx : ∀ i < s.rxChNum, (s.rxv i).ch = some (vch true i)

/-- Every queue has a channel, limited as recorded, to at least that rate. -/
structure Inv (cfg : Config) (s : State τ) : Prop where
  vectors : Vectors cfg s.cpsw
  exist : ∀ queue < s.cpsw.txChNum, (applied cfg s queue).isSome
  grants : ∀ queue < s.cpsw.txChNum, ∀ p, cfg.hasNdev p → Grants cfg s queue (s.txMaxrate p queue)

/-- The driver as it was probed: no channel is limited and no rate recorded. -/
structure Initial (cfg : Config) (s : State τ) : Prop where
  vectors : Vectors cfg s.cpsw
  limits : ∀ queue < s.cpsw.txChNum, applied cfg s queue = some 0
  rates : ∀ p queue, s.txMaxrate p queue = 0

/-- A rate that the links can carry is below the rate of the bus. That the search for the counts then
finds a rate that is high enough is proved for a bus of at most 512 MHz, whose rate in Mbit/s a send
count can reach. A channel is created only where the other net device has no rate recorded, and an
rx channel where its number has none as a queue. -/
def Covered (cfg : Config) (s : State τ) : Op τ → Prop
  | .setTxMaxrate _ _ rate _ _ => rate = 0 ∨ s.cpsw.speed < rate ∨
    cfg.busFreqMhz.toNat ≤ 512 ∧ rate.toNat < 32 * cfg.busFreqMhz.toNat
  | .setChannels p chs _ => cpswCheckChSettings cfg chs < 0 ∨
    (∀ i < chs.rxCount, s.cpsw.rxChNum ≤ i → i < s.cpsw.txChNum → s.txMaxrate p i = 0) ∧
    (∀ i < chs.txCount, s.cpsw.txChNum ≤ i → ∀ q, cfg.hasNdev q → q ≠ p → s.txMaxrate q i = 0)
  | .adjustLink .. | .dma _ => True

variable {cfg : Config} {s s' t : State τ} {queue i : ℕ} {p : Port}

theorem vch_val (hi : i < cpswMaxQueues) :
    (vch true i).val = 32 + i ∧ (vch false i).val = 7 - i := by
  unfold cpswMaxQueues at hi
  unfold vch
  constructor
  · exact Nat.mod_eq_of_lt (by simp; omega)
  · exact Nat.mod_eq_of_lt (by simp; omega)

theorem txChan_lt (cfg : Config) (hq : queue < cpswMaxQueues) : (txChan cfg queue).val < 8 := by
  unfold txChan
  split
  · exact Nat.zero_lt_succ 7
  · rw [(vch_val hq).2]
    omega

theorem txChan_ne_rx (hq : queue < cpswMaxQueues) (hi : i < cpswMaxQueues) :
    txChan cfg queue ≠ vch true i := by
  intro heq
  have hlt := txChan_lt cfg hq
  rw [heq, (vch_val hi).1] at hlt
  omega

theorem txChan_ne (hq : queue < cpswMaxQueues) (hi : i < cpswMaxQueues) (hne : queue ≠ i)
    (hquirk : cfg.quirkIrq = true → queue = 0 ∧ i = 0) : txChan cfg queue ≠ txChan cfg i := by
  intro heq
  unfold txChan at heq
  split at heq
  · rename_i hon
    obtain ⟨hzero, hzero'⟩ := hquirk hon
    omega
  · have hval := congrArg Fin.val heq
    rw [(vch_val hq).2, (vch_val hi).2] at hval
    unfold cpswMaxQueues at hq hi
    omega

theorem Vectors.ne {s : Common τ} (h : Vectors cfg s) (hq : queue < s.txChNum)
    (hi : i < s.txChNum) (hne : queue ≠ i) : txChan cfg queue ≠ txChan cfg i := by
  refine txChan_ne (hq.trans_le h.txNum.1) (hi.trans_le h.txNum.1) hne fun hquirk => ?_
  have hone := h.txNum.2 hquirk
  omega

/-- Queues that stay, with their channels, limits and recorded rates. -/
theorem Inv.congr (h : Inv cfg s) (hvectors : Vectors cfg t.cpsw)
    (hnum : t.cpsw.txChNum ≤ s.cpsw.txChNum)
    (happlied : ∀ queue < t.cpsw.txChNum, applied cfg t queue = applied cfg s queue)
    (hrates : ∀ queue < t.cpsw.txChNum, ∀ p, t.txMaxrate p queue = s.txMaxrate p queue) :
    Inv cfg t := by
  refine ⟨hvectors, fun queue hq => ?_, fun queue hq p hp => ?_⟩
  · rw [happlied queue hq]
    exact h.exist queue (hq.trans_le hnum)
  · obtain ⟨limit, happ, hgrants⟩ := h.grants queue (hq.trans_le hnum) p hp
    rw [hrates queue hq p]
    exact ⟨limit, by rw [happlied queue hq, happ], hgrants⟩

theorem Vectors.congr {s t : Common τ} (h : Vectors cfg s) (hsame : SameLimits s t) :
    Vectors cfg t where
  txNum := by
    rw [hsame.txChNum]
    exact h.txNum
  tx queue hq := by
    rw [hsame.tx]
    exact h.tx queue (by rw [← hsame.txChNum]; exact hq)
  rxNum := by
    rw [hsame.rxChNum]
    exact h.rxNum
  rx i hi := by
    rw [hsame.rx]
    exact h.rx i (by rw [← hsame.rxChNum]; exact hi)

theorem Inv.same (h : Inv cfg s) (hsame : SameLimits s.cpsw t.cpsw)
    (hrates : t.txMaxrate = s.txMaxrate) : Inv cfg t := by
  refine h.congr (h.vectors.congr hsame) hsame.txChNum.le (fun queue hq => ?_) fun queue hq p => ?_
  · unfold applied
    rw [hsame.limits]
  · rw [hrates]

/-- A limit that replaces a rate in kbit/s grants it in Mbit/s. -/
theorem grants_of_replaces {rate limit : U32}
    (hcovered : rate = 0 ∨ cfg.busFreqMhz.toNat ≤ 512 ∧ rate.toNat < 32 * cfg.busFreqMhz.toNat)
    (h : Replaces cfg.busFreqMhz (rate * 1000) limit) :
    (rate = 0 ↔ limit = 0) ∧ 1000 * rate.toNat ≤ limit.toNat := by
  have hval : (0 : U32).toNat = 0 := rfl
  rcases eq_or_ne rate 0 with rfl | hrate
  · exact ⟨iff_of_true rfl (h.off rfl), by omega⟩
  · obtain ⟨hbus, hlt⟩ := hcovered.resolve_left hrate
    have hpos : 0 < rate.toNat := by
      by_contra hzero
      exact hrate (BitVec.eq_of_toNat_eq (by omega))
    have hthousand : (1000 : U32).toNat = 1000 := rfl
    have hchRate : (rate * 1000).toNat = 1000 * rate.toNat := by
      rw [BitVec.toNat_mul, hthousand, Nat.mod_eq_of_lt (by omega), mul_comm]
    have hfreq : (cfg.busFreqMhz * 1000 * 32).toNat = 32000 * cfg.busFreqMhz.toNat := by
      have hthirty : (32 : U32).toNat = 32 := rfl
      rw [BitVec.toNat_mul, BitVec.toNat_mul, hthousand, hthirty,
        Nat.mod_eq_of_lt (by omega : cfg.busFreqMhz.toNat * 1000 < 2 ^ 32),
        Nat.mod_eq_of_lt (by omega)]
      omega
    have hle := h.above rate.toNat ⟨hbus, hpos, hlt, hfreq, hchRate⟩
    rw [BitVec.le_def, hchRate] at hle
    refine ⟨iff_of_false hrate ?_, hle⟩
    rintro rfl
    omega

theorem bus_of_covered {rate : U32}
    (hcovered : rate = 0 ∨ cfg.busFreqMhz.toNat ≤ 512 ∧ rate.toNat < 32 * cfg.busFreqMhz.toNat) :
    rate * 1000 = 0 ∨ cfg.busFreqMhz * 1000 * 32 ≠ 0 := by
  rcases hcovered with rfl | ⟨hbus, hlt⟩
  · exact .inl rfl
  · right
    intro hcon
    have hnat := congrArg BitVec.toNat hcon
    have hval : (0 : U32).toNat = 0 := rfl
    have hthousand : (1000 : U32).toNat = 1000 := rfl
    have hthirty : (32 : U32).toNat = 32 := rfl
    rw [BitVec.toNat_mul, BitVec.toNat_mul, hthousand, hthirty, hval,
      Nat.mod_eq_of_lt (by omega : cfg.busFreqMhz.toNat * 1000 < 2 ^ 32),
      Nat.mod_eq_of_lt (by omega)] at hnat
    omega

/-- What setting the rate of a queue's channel does. -/
theorem setVecRate_limits {s s' : Common τ} {fuel : ℕ} {chRate : U32} {ret : ℤ}
    (h : Vectors cfg s) (hbus : chRate = 0 ∨ cfg.busFreqMhz * 1000 * 32 ≠ 0)
    (hset : setVecRate cfg fuel s queue chRate = some (s', ret)) :
    ret ≠ 0 ∧ SameLimits s s' ∨
      ret = 0 ∧ queue < s.txChNum ∧ Vectors cfg s' ∧ s'.txChNum = s.txChNum ∧
        ∃ limit, Replaces cfg.busFreqMhz chRate limit.1 ∧
          limitOf s'.dma.ctlr = Function.update (limitOf s.dma.ctlr) (txChan cfg queue)
            (some limit) := by
  unfold setVecRate at hset
  split at hset
  · obtain ⟨rfl, rfl⟩ := Prod.mk.inj (Option.some.inj hset)
    exact .inl ⟨by decide, .refl s⟩
  rename_i ch hch
  split at hset
  · cases hset
  rename_i hlive
  have hq : queue < s.txChNum := by
    by_contra hge
    exact hlive (.inl (Nat.le_of_not_lt hge))
  rw [h.tx queue hq] at hch
  obtain rfl := Option.some.inj hch
  obtain ⟨⟨ctlr, ret'⟩, hrate, heq⟩ := Option.map_eq_some_iff.mp hset
  obtain ⟨rfl, rfl⟩ := Prod.mk.inj heq
  rcases cpdmaChanSetRate_limits hbus hrate with ⟨hret, hsame⟩ | ⟨hret, limit, hlimit, hlimits⟩
  · exact .inl ⟨hret, ⟨hsame, fun _ => rfl, fun _ => rfl, rfl, rfl⟩⟩
  · exact .inr ⟨hret, hq, ⟨h.txNum, h.tx, h.rxNum, h.rx⟩, rfl, limit, hlimit, hlimits⟩

/-- A call that sets a rate keeps the invariant, and one that returns 0 grants the rate. -/
theorem cpswNdoSetTxMaxrate_grants {fuel : ℕ} {rate : U32} {pm ret : ℤ} (h : Inv cfg s)
    (hcovered : Covered cfg s (.setTxMaxrate p queue rate fuel pm)) (hp : cfg.hasNdev p = true)
    (hset : cpswNdoSetTxMaxrate cfg fuel s p queue rate pm = some (t, ret)) :
    Inv cfg t ∧ (ret = 0 → queue < s.cpsw.txChNum → Grants cfg t queue rate) := by
  have hinval : (-einval) ≠ 0 := by decide
  unfold cpswNdoSetTxMaxrate at hset
  split at hset
  · rename_i hsame
    obtain ⟨rfl, rfl⟩ := Prod.mk.inj (Option.some.inj hset)
    refine ⟨h, fun _ hq => ?_⟩
    rw [← hsame]
    exact h.grants queue hq p hp
  dsimp only at hset
  split at hset
  · obtain ⟨rfl, rfl⟩ := Prod.mk.inj (Option.some.inj hset)
    exact ⟨h, fun hret => absurd hret hinval⟩
  split at hset
  · obtain ⟨rfl, rfl⟩ := Prod.mk.inj (Option.some.inj hset)
    exact ⟨h, fun hret => absurd hret hinval⟩
  rename_i hspeed
  split at hset
  · rename_i hpm
    obtain ⟨rfl, rfl⟩ := Prod.mk.inj (Option.some.inj hset)
    exact ⟨h, fun hret => by omega⟩
  have hwithin : rate = 0 ∨
      cfg.busFreqMhz.toNat ≤ 512 ∧ rate.toNat < 32 * cfg.busFreqMhz.toNat := by
    rcases hcovered with hzero | hfast | hwithin
    · exact .inl hzero
    · exact absurd hfast hspeed
    · exact .inr hwithin
  obtain ⟨⟨cpsw, ret'⟩, hrate, hset⟩ := Option.bind_eq_some_iff.mp hset
  dsimp only at hset
  rcases setVecRate_limits h.vectors (bus_of_covered hwithin) hrate with
    ⟨hret, hsame⟩ | ⟨hret, hq, hvectors, hnum, limit, hreplaces, hlimits⟩
  · rw [if_pos hret] at hset
    obtain ⟨rfl, rfl⟩ := Prod.mk.inj (Option.some.inj hset)
    exact ⟨h.same hsame rfl, fun hcon => absurd hcon hret⟩
  · rw [if_neg (not_not.mpr hret)] at hset
    obtain ⟨cpsw', hsplit, heq⟩ := Option.map_eq_some_iff.mp hset
    obtain ⟨rfl, rfl⟩ := Prod.mk.inj heq
    have hsplitted := cpswSplitRes_same hsplit
    have hgrants := grants_of_replaces hwithin hreplaces
    have happlied : ∀ q, (limitOf cpsw'.dma.ctlr (txChan cfg q)).map Prod.fst =
        (Function.update (limitOf s.cpsw.dma.ctlr) (txChan cfg queue) (some limit)
          (txChan cfg q)).map Prod.fst := by
      intro q
      rw [hsplitted.limits, hlimits]
    have hself : (limitOf cpsw'.dma.ctlr (txChan cfg queue)).map Prod.fst = some limit.1 := by
      rw [happlied, Function.update_self]
      rfl
    have hother : ∀ q < s.cpsw.txChNum, q ≠ queue →
        (limitOf cpsw'.dma.ctlr (txChan cfg q)).map Prod.fst = applied cfg s q := by
      intro q hq' hne
      rw [happlied, Function.update_of_ne (h.vectors.ne hq' hq hne)]
      rfl
    have hless : ∀ q < cpsw'.txChNum, q < s.cpsw.txChNum := by
      intro q hq'
      rw [← hnum, ← hsplitted.txChNum]
      exact hq'
    refine ⟨⟨hvectors.congr hsplitted, fun q hq' => ?_, fun q hq' p' hp' => ?_⟩,
      fun _ _ => ⟨limit.1, hself, hgrants⟩⟩
    · by_cases heq : q = queue
      · rw [heq]
        unfold applied
        rw [hself]
        rfl
      · unfold applied
        rw [hother q (hless q hq') heq]
        exact h.exist q (hless q hq')
    · have hrates : updateRates cfg s.txMaxrate queue rate p' =
          Function.update (s.txMaxrate p') queue rate := if_pos hp'
      dsimp only
      rw [hrates]
      by_cases heq : q = queue
      · rw [heq, Function.update_self]
        exact ⟨limit.1, hself, hgrants⟩
      · rw [Function.update_of_ne heq]
        obtain ⟨limit', happ, hgrants'⟩ := h.grants q (hless q hq') p' hp'
        exact ⟨limit', (hother q (hless q hq') heq).trans happ, hgrants'⟩

/-- A loop whose body goes on with one less to do, or stops with an error. -/
theorem untilErr_spec {body : State τ → Option (State τ × ℤ)} {I : ℕ → State τ → Prop}
    {J : State τ → Prop}
    (hbody : ∀ k s r, I (k + 1) s → body s = some r → if r.2 ≠ 0 then J r.1 else I k r.1)
    (hdone : ∀ s, I 0 s → J s) {n : ℕ} {r : State τ × ℤ} (hs : I n s)
    (h : untilErr body n s = some r) : J r.1 := by
  induction n generalizing s with
  | zero =>
    obtain rfl := Option.some.inj h
    exact hdone s hs
  | succ n ih =>
    obtain ⟨r', hr', hrest⟩ := Option.bind_eq_some_iff.mp h
    have hstep := hbody n s r' hs hr'
    by_cases hret : r'.2 ≠ 0
    · rw [if_pos hret] at hstep hrest
      obtain rfl := Option.some.inj hrest
      exact hstep
    · rw [if_neg hret] at hstep hrest
      exact ih hstep hrest

/-- Between the loops: the other net device has no rate recorded where a queue is created. -/
structure Pending (cfg : Config) (p : Port) (n : ℕ) (s : State τ) : Prop where
  inv : Inv cfg s
  quirk : cfg.quirkIrq = false
  le : n ≤ cpswMaxQueues
  clear : ∀ i < n, s.cpsw.txChNum ≤ i → ∀ q, cfg.hasNdev q → q ≠ p → s.txMaxrate q i = 0

/-- Nothing about the tx queues has changed but rates that were not set. -/
theorem Pending.congr {n : ℕ} (h : Pending cfg p n s) (hvectors : Vectors cfg t.cpsw)
    (hnum : t.cpsw.txChNum = s.cpsw.txChNum)
    (happlied : ∀ queue < s.cpsw.txChNum, applied cfg t queue = applied cfg s queue)
    (hrates : ∀ queue < s.cpsw.txChNum, ∀ q, t.txMaxrate q queue = s.txMaxrate q queue)
    (hothers : ∀ q, q ≠ p → t.txMaxrate q = s.txMaxrate q) : Pending cfg p n t := by
  rw [← hnum] at happlied hrates
  refine ⟨h.inv.congr hvectors hnum.le happlied hrates, h.quirk, h.le, fun i hi hge q hq hne => ?_⟩
  rw [hothers q hne]
  exact h.clear i hi (by omega) q hq hne

theorem createVec_frame {rx zalloc : Bool} {ret : ℤ}
    (h : createVec cfg p rx zalloc s = some (t, ret)) :
    ∃ ctlr, t.txMaxrate = Function.update s.txMaxrate p
        (Function.update (s.txMaxrate p) (chNum rx s.cpsw) 0) ∧
      (ret ≠ 0 ∧ limitOf ctlr = limitOf s.cpsw.dma.ctlr ∧
          t.cpsw = setVec rx { s.cpsw with dma := { s.cpsw.dma with ctlr := ctlr } }
            (chNum rx s.cpsw) (vch rx (chNum rx s.cpsw)) ∨
        ret = 0 ∧ limitOf ctlr = Function.update (limitOf s.cpsw.dma.ctlr)
            (vch rx (chNum rx s.cpsw)) (some (0, 0)) ∧
          t.cpsw = setChNum rx (setVec rx { s.cpsw with dma := { s.cpsw.dma with ctlr := ctlr } }
            (chNum rx s.cpsw) (vch rx (chNum rx s.cpsw))) (chNum rx s.cpsw + 1)) := by
  unfold createVec at h
  split at h
  · cases h
  dsimp only at h
  rcases cpdmaChanCreate_limits cfg.params s.cpsw.dma.ctlr
    (vch rx (chNum rx s.cpsw)) zalloc with ⟨hret, hsame⟩ | ⟨hret, -, hlimits⟩
  · rw [if_pos hret] at h
    obtain ⟨rfl, rfl⟩ := Prod.mk.inj (Option.some.inj h)
    exact ⟨_, rfl, .inl ⟨hret, congrArg limitOf hsame, rfl⟩⟩
  · rw [if_neg (not_not.mpr hret)] at h
    obtain ⟨rfl, rfl⟩ := Prod.mk.inj (Option.some.inj h)
    exact ⟨_, rfl, .inr ⟨rfl, hlimits, rfl⟩⟩

theorem ch_update_self (vec : ℕ → CpswVector) (i : ℕ) (ch : ChanId) :
    (Function.update vec i { vec i with ch := some ch } i).ch = some ch := by
  rw [Function.update_self]

theorem rates_update {i : ℕ} {q : Port} (h : q = p → queue = i → s.txMaxrate p i = 0) :
    Function.update s.txMaxrate p (Function.update (s.txMaxrate p) i 0) q queue =
      s.txMaxrate q queue := by
  by_cases hqp : q = p
  · rw [hqp, Function.update_self]
    by_cases heq : queue = i
    · rw [heq, Function.update_self, h hqp heq]
    · rw [Function.update_of_ne heq]
  · rw [Function.update_of_ne hqp]

/-- An rx channel is created where its number has no rate recorded. -/
theorem createVec_rx {zalloc : Bool} {n : ℕ} {r : State τ × ℤ} (h : Pending cfg p n s)
    (hnum : s.cpsw.rxChNum < cpswMaxQueues)
    (hclear : s.cpsw.rxChNum < s.cpsw.txChNum → s.txMaxrate p s.cpsw.rxChNum = 0)
    (hcreate : createVec cfg p true zalloc s = some r) :
    Pending cfg p n r.1 ∧ r.1.cpsw.txChNum = s.cpsw.txChNum ∧
      (r.2 = 0 → r.1.cpsw.rxChNum = s.cpsw.rxChNum + 1) ∧
      ∀ i, s.cpsw.rxChNum < i → r.1.txMaxrate p i = s.txMaxrate p i := by
  obtain ⟨t, ret⟩ := r
  have hvectors := h.inv.vectors
  obtain ⟨ctlr, hrates, hcases⟩ := createVec_frame hcreate
  have hsame : ∀ queue < s.cpsw.txChNum, ∀ q, t.txMaxrate q queue = s.txMaxrate q queue := by
    intro queue hq q
    rw [hrates]
    refine rates_update fun _ (heq : queue = s.cpsw.rxChNum) => ?_
    exact hclear (by omega)
  have hothers : ∀ q, q ≠ p → t.txMaxrate q = s.txMaxrate q := by
    intro q hne
    rw [hrates, Function.update_of_ne hne]
  have hlater : ∀ i, s.cpsw.rxChNum < i → t.txMaxrate p i = s.txMaxrate p i := by
    intro i hi
    rw [hrates, Function.update_self]
    exact Function.update_of_ne (show i ≠ s.cpsw.rxChNum by omega) _ _
  rcases hcases with ⟨hret, hlimits, hcpsw⟩ | ⟨hret, hlimits, hcpsw⟩
  · have hvectors' : Vectors cfg t.cpsw := by
      rw [hcpsw]
      refine ⟨hvectors.txNum, hvectors.tx, hvectors.rxNum, fun i hi => ?_⟩
      have hne : i ≠ s.cpsw.rxChNum := Nat.ne_of_lt hi
      exact (congrArg CpswVector.ch (Function.update_of_ne hne _ _)).trans (hvectors.rx i hi)
    refine ⟨h.congr hvectors' (by rw [hcpsw]; rfl) (fun queue hq => ?_) hsame hothers,
      by rw [hcpsw]; rfl, fun hcon => absurd hcon hret, hlater⟩
    unfold applied
    rw [hcpsw]
    exact congrArg (Option.map Prod.fst) (congrFun hlimits _)
  · have hvectors' : Vectors cfg t.cpsw := by
      rw [hcpsw]
      refine ⟨hvectors.txNum, hvectors.tx, hnum, fun i (hi : i < s.cpsw.rxChNum + 1) => ?_⟩
      by_cases heq : i = s.cpsw.rxChNum
      · rw [heq]
        exact ch_update_self s.cpsw.rxv s.cpsw.rxChNum _
      · exact (congrArg CpswVector.ch (Function.update_of_ne heq _ _)).trans
          (hvectors.rx i (by omega))
    refine ⟨h.congr hvectors' (by rw [hcpsw]; rfl) (fun queue hq => ?_) hsame hothers,
      by rw [hcpsw]; rfl, fun _ => by rw [hcpsw]; rfl, hlater⟩
    have hne : txChan cfg queue ≠ vch true s.cpsw.rxChNum :=
      txChan_ne_rx (hq.trans_le hvectors.txNum.1) hnum
    unfold applied
    rw [hcpsw]
    refine congrArg (Option.map Prod.fst) ?_
    rw [← Function.update_of_ne hne (some (0, 0)) (limitOf s.cpsw.dma.ctlr)]
    exact congrFun hlimits _

/-- The rates of the queues that are there already stay as they are recorded. -/
theorem rates_next {queue : ℕ} (hq : queue < s.cpsw.txChNum) (q : Port) :
    Function.update s.txMaxrate p (Function.update (s.txMaxrate p) s.cpsw.txChNum 0) q queue =
      s.txMaxrate q queue := by
  refine rates_update fun _ (heq : queue = s.cpsw.txChNum) => ?_
  omega

theorem createVec_tx_failed {ctlr : CpdmaCtlr τ} (h : Inv cfg s)
    (hrates : t.txMaxrate = Function.update s.txMaxrate p
      (Function.update (s.txMaxrate p) s.cpsw.txChNum 0))
    (hlimits : limitOf ctlr = limitOf s.cpsw.dma.ctlr)
    (hcpsw : t.cpsw = setVec false { s.cpsw with dma := { s.cpsw.dma with ctlr := ctlr } }
      s.cpsw.txChNum (vch false s.cpsw.txChNum)) : Inv cfg t := by
  have hvectors := h.vectors
  have hnumeq : t.cpsw.txChNum = s.cpsw.txChNum := by
    rw [hcpsw]
    rfl
  have htx : ∀ queue < s.cpsw.txChNum, (t.cpsw.txv queue).ch = (s.cpsw.txv queue).ch := by
    intro queue hq
    rw [hcpsw]
    exact congrArg CpswVector.ch (Function.update_of_ne (by omega) _ _)
  have hvectors' : Vectors cfg t.cpsw := by
    refine ⟨by rw [hnumeq]; exact hvectors.txNum, fun queue hq => ?_, ?_, ?_⟩
    · rw [htx queue (by omega)]
      exact hvectors.tx queue (by omega)
    · rw [hcpsw]
      exact hvectors.rxNum
    · rw [hcpsw]
      exact hvectors.rx
  refine h.congr hvectors' hnumeq.le (fun queue hq => ?_) fun queue hq q => ?_
  · unfold applied
    rw [hcpsw]
    exact congrArg (Option.map Prod.fst) (congrFun hlimits _)
  · rw [hrates]
    exact rates_next (by omega) q

theorem createVec_tx_created {ctlr : CpdmaCtlr τ} {n : ℕ} (h : Pending cfg p n s)
    (hnum : s.cpsw.txChNum < n)
    (hrates : t.txMaxrate = Function.update s.txMaxrate p
      (Function.update (s.txMaxrate p) s.cpsw.txChNum 0))
    (hlimits : limitOf ctlr = Function.update (limitOf s.cpsw.dma.ctlr)
      (vch false s.cpsw.txChNum) (some (0, 0)))
    (hcpsw : t.cpsw = setChNum false (setVec false
      { s.cpsw with dma := { s.cpsw.dma with ctlr := ctlr } } s.cpsw.txChNum
      (vch false s.cpsw.txChNum)) (s.cpsw.txChNum + 1)) :
    Pending cfg p n t ∧ t.cpsw.txChNum = s.cpsw.txChNum + 1 := by
  have hvectors := h.inv.vectors
  have hle := h.le
  have hnumeq : t.cpsw.txChNum = s.cpsw.txChNum + 1 := by
    rw [hcpsw]
    rfl
  have hothers : ∀ q, q ≠ p → t.txMaxrate q = s.txMaxrate q := by
    intro q hne
    rw [hrates, Function.update_of_ne hne]
  have hchan : ∀ queue, txChan cfg queue = vch false queue := by
    intro queue
    unfold txChan
    rw [h.quirk]
    rfl
  have hvectors' : Vectors cfg t.cpsw := by
    refine ⟨⟨by omega, fun hquirk => ?_⟩, fun queue hq => ?_, ?_, ?_⟩
    · rw [h.quirk] at hquirk
      cases hquirk
    · rw [hcpsw]
      by_cases heq : queue = s.cpsw.txChNum
      · rw [heq, hchan]
        exact ch_update_self s.cpsw.txv s.cpsw.txChNum _
      · refine (congrArg CpswVector.ch (Function.update_of_ne heq _ _)).trans ?_
        exact hvectors.tx queue (by omega)
    · rw [hcpsw]
      exact hvectors.rxNum
    · rw [hcpsw]
      exact hvectors.rx
  have hnew : applied cfg t s.cpsw.txChNum = some 0 := by
    have hlimit : limitOf t.cpsw.dma.ctlr = Function.update (limitOf s.cpsw.dma.ctlr)
        (vch false s.cpsw.txChNum) (some (0, 0)) := by
      rw [hcpsw]
      exact hlimits
    unfold applied
    rw [hchan, hlimit, Function.update_self]
    rfl
  have hold : ∀ queue < s.cpsw.txChNum, applied cfg t queue = applied cfg s queue := by
    intro queue hq
    have hne : txChan cfg queue ≠ txChan cfg s.cpsw.txChNum := by
      refine txChan_ne (by omega) (by omega) (by omega) fun hquirk => ?_
      rw [h.quirk] at hquirk
      cases hquirk
    rw [hchan s.cpsw.txChNum] at hne
    unfold applied
    rw [hcpsw]
    refine congrArg (Option.map Prod.fst) ?_
    rw [← Function.update_of_ne hne (some (0, 0)) (limitOf s.cpsw.dma.ctlr)]
    exact congrFun hlimits _
  have hzero : ∀ q, cfg.hasNdev q → t.txMaxrate q s.cpsw.txChNum = 0 := by
    intro q hq
    by_cases heq : q = p
    · rw [heq, hrates, Function.update_self]
      exact Function.update_self _ _ _
    · rw [hothers q heq]
      exact h.clear s.cpsw.txChNum hnum le_rfl q hq heq
  refine ⟨⟨⟨hvectors', fun queue hq => ?_, fun queue hq q hdev => ?_⟩, h.quirk, hle,
    fun i hi hge q hq hne => ?_⟩, hnumeq⟩
  · by_cases heq : queue = s.cpsw.txChNum
    · rw [heq, hnew]
      rfl
    · rw [hold queue (by omega)]
      exact h.inv.exist queue (by omega)
  · by_cases heq : queue = s.cpsw.txChNum
    · rw [heq, hzero q hdev]
      exact ⟨0, hnew, iff_of_true rfl rfl, le_rfl⟩
    · obtain ⟨limit, happ, hgrants⟩ := h.inv.grants queue (by omega) q hdev
      rw [hrates, rates_next (by omega) q]
      exact ⟨limit, (hold queue (by omega)).trans happ, hgrants⟩
  · rw [hothers q hne]
    exact h.clear i hi (by omega) q hq hne

/-- A tx channel is created where no other net device has a rate recorded. -/
theorem createVec_tx {zalloc : Bool} {n : ℕ} {r : State τ × ℤ} (h : Pending cfg p n s)
    (hnum : s.cpsw.txChNum < n) (hcreate : createVec cfg p false zalloc s = some r) :
    (r.2 ≠ 0 → Inv cfg r.1) ∧
      (r.2 = 0 → Pending cfg p n r.1 ∧ r.1.cpsw.txChNum = s.cpsw.txChNum + 1) := by
  obtain ⟨t, ret⟩ := r
  obtain ⟨ctlr, hrates, hcases⟩ := createVec_frame hcreate
  constructor
  · intro hret
    obtain ⟨-, hlimits, hcpsw⟩ := hcases.resolve_right fun hcon => hret hcon.1
    exact createVec_tx_failed h.inv hrates hlimits hcpsw
  · intro hret
    obtain ⟨-, hlimits, hcpsw⟩ := hcases.resolve_left fun hcon => hcon.1 hret
    exact createVec_tx_created h hnum hrates hlimits hcpsw

theorem destroyVec_frame {rx : Bool} {sched : List (Cpdma.Op τ)} {r : State τ × ℤ} {ch : ChanId}
    (hch : (vecOf rx s.cpsw (chNum rx s.cpsw - 1)).ch = some ch)
    (hdestroy : destroyVec cfg rx sched s = some r) :
    r.1.txMaxrate = s.txMaxrate ∧ ∃ dma,
      r.1.cpsw = { setChNum rx s.cpsw (chNum rx s.cpsw - 1) with dma := dma } ∧
        ∀ ch', ch' ≠ ch → limitOf dma.ctlr ch' = limitOf s.cpsw.dma.ctlr ch' := by
  unfold destroyVec at hdestroy
  dsimp only at hdestroy
  rw [hch] at hdestroy
  obtain ⟨⟨dma, ret⟩, hcall, rfl⟩ := Option.map_eq_some_iff.mp hdestroy
  exact ⟨rfl, dma, rfl, fun ch' hne => cpdmaChanDestroy_limits hcall hne⟩

theorem destroyVec_rx {sched : List (Cpdma.Op τ)} {n : ℕ} {r : State τ × ℤ}
    (h : Pending cfg p n s) (hpos : 0 < s.cpsw.rxChNum)
    (hdestroy : destroyVec cfg true sched s = some r) :
    Pending cfg p n r.1 ∧ r.1.cpsw.rxChNum = s.cpsw.rxChNum - 1 := by
  have hvectors := h.inv.vectors
  have hle := hvectors.rxNum
  have hch : (vecOf true s.cpsw (chNum true s.cpsw - 1)).ch =
      some (vch true (s.cpsw.rxChNum - 1)) := hvectors.rx (s.cpsw.rxChNum - 1) (by omega)
  obtain ⟨hrates, dma, hcpsw, hlimits⟩ := destroyVec_frame hch hdestroy
  have hvectors' : Vectors cfg r.1.cpsw := by
    rw [hcpsw]
    refine ⟨hvectors.txNum, hvectors.tx, (Nat.sub_le _ _).trans hle, fun i hi => ?_⟩
    have hlt : i < s.cpsw.rxChNum - 1 := hi
    exact hvectors.rx i (by omega)
  refine ⟨h.congr hvectors' (by rw [hcpsw]; rfl) (fun queue hq => ?_)
    (fun queue _ q => by rw [hrates]) fun q _ => by rw [hrates], by rw [hcpsw]; rfl⟩
  unfold applied
  rw [hcpsw]
  exact congrArg (Option.map Prod.fst)
    (hlimits _ (txChan_ne_rx (hq.trans_le hvectors.txNum.1) (by omega)))

theorem destroyVec_tx {sched : List (Cpdma.Op τ)} {r : State τ × ℤ} (h : Inv cfg s)
    (hpos : 0 < s.cpsw.txChNum) (hdestroy : destroyVec cfg false sched s = some r) :
    Inv cfg r.1 ∧ r.1.cpsw.txChNum = s.cpsw.txChNum - 1 := by
  have hvectors := h.vectors
  have hch : (vecOf false s.cpsw (chNum false s.cpsw - 1)).ch =
      some (txChan cfg (s.cpsw.txChNum - 1)) := hvectors.tx (s.cpsw.txChNum - 1) (by omega)
  obtain ⟨hrates, dma, hcpsw, hlimits⟩ := destroyVec_frame hch hdestroy
  have hnum : r.1.cpsw.txChNum = s.cpsw.txChNum - 1 := by
    rw [hcpsw]
    rfl
  have hvectors' : Vectors cfg r.1.cpsw := by
    rw [hcpsw]
    refine ⟨⟨(Nat.sub_le _ _).trans hvectors.txNum.1, fun hquirk => ?_⟩, fun queue hq => ?_,
      hvectors.rxNum, hvectors.rx⟩
    · exact (Nat.sub_le _ _).trans (hvectors.txNum.2 hquirk)
    · have hlt : queue < s.cpsw.txChNum - 1 := hq
      exact hvectors.tx queue (by omega)
  refine ⟨h.congr hvectors' (by omega) (fun queue hq => ?_) fun queue _ q => by rw [hrates], hnum⟩
  unfold applied
  rw [hcpsw]
  exact congrArg (Option.map Prod.fst)
    (hlimits _ (hvectors.ne (by omega) (by omega) (by omega)))

theorem updateRx_pending {n m : ℕ} {a : Around τ} {r : State τ × ℤ} (h : Pending cfg p n s)
    (hm : m ≤ cpswMaxQueues)
    (hclear : ∀ i < m, s.cpsw.rxChNum ≤ i → i < s.cpsw.txChNum → s.txMaxrate p i = 0)
    (hupdate : cpswUpdateChannelsRes cfg p true m a s = some r) : Pending cfg p n r.1 := by
  obtain ⟨r', hcreate, hrest⟩ := Option.bind_eq_some_iff.mp hupdate
  have hpending : Pending cfg p n r'.1 := by
    refine untilErr_spec (I := fun k t => Pending cfg p n t ∧ (k = 0 ∨ t.cpsw.rxChNum + k ≤ m) ∧
      ∀ i < m, t.cpsw.rxChNum ≤ i → i < t.cpsw.txChNum → t.txMaxrate p i = 0)
      (fun k t r ht hbody => ?_) (fun t ht => ht.1) ⟨h, ?_, hclear⟩ hcreate
    · obtain ⟨hpend, hk, hcl⟩ := ht
      have hlt : t.cpsw.rxChNum < m := by omega
      obtain ⟨hpend', hnum, hnext, hlater⟩ := createVec_rx hpend (hlt.trans_le hm)
        (hcl t.cpsw.rxChNum hlt le_rfl) hbody
      split
      · exact hpend'
      · rename_i hret
        have hrx := hnext (not_not.mp hret)
        refine ⟨hpend', by omega, fun i hi hge hlt' => ?_⟩
        rw [hlater i (by omega)]
        exact hcl i hi (by omega) (by omega)
    · have hnum : m - chNum true s.cpsw = 0 ∨
          s.cpsw.rxChNum + (m - chNum true s.cpsw) ≤ m := by
        have hchNum : chNum true s.cpsw = s.cpsw.rxChNum := rfl
        omega
      exact hnum
  split at hrest
  · obtain rfl := Option.some.inj hrest
    exact hpending
  · refine untilErr_spec (I := fun k t => Pending cfg p n t ∧ k ≤ t.cpsw.rxChNum)
      (fun k t r ht hbody => ?_) (fun t ht => ht.1) ⟨hpending, Nat.sub_le _ _⟩ hrest
    obtain ⟨hpend', hnum⟩ := destroyVec_rx ht.1 (by omega) hbody
    split
    · exact hpend'
    · exact ⟨hpend', by omega⟩

theorem updateTx_inv {n : ℕ} {a : Around τ} {r : State τ × ℤ} (h : Pending cfg p n s)
    (hupdate : cpswUpdateChannelsRes cfg p false n a s = some r) : Inv cfg r.1 := by
  obtain ⟨r', hcreate, hrest⟩ := Option.bind_eq_some_iff.mp hupdate
  have hinv : Inv cfg r'.1 := by
    refine untilErr_spec (I := fun k t => Pending cfg p n t ∧ (k = 0 ∨ t.cpsw.txChNum + k ≤ n))
      (fun k t r ht hbody => ?_) (fun t ht => ht.1.inv) ⟨h, ?_⟩ hcreate
    · obtain ⟨hpend, hk⟩ := ht
      obtain ⟨herr, hok⟩ := createVec_tx hpend (by omega) hbody
      split
      · rename_i hret
        exact herr hret
      · rename_i hret
        obtain ⟨hpend', hnum⟩ := hok (not_not.mp hret)
        exact ⟨hpend', by omega⟩
    · have hnum : n - chNum false s.cpsw = 0 ∨
          s.cpsw.txChNum + (n - chNum false s.cpsw) ≤ n := by
        have hchNum : chNum false s.cpsw = s.cpsw.txChNum := rfl
        omega
      exact hnum
  split at hrest
  · obtain rfl := Option.some.inj hrest
    exact hinv
  · refine untilErr_spec (I := fun k t => Inv cfg t ∧ k ≤ t.cpsw.txChNum)
      (fun k t r ht hbody => ?_) (fun t ht => ht.1) ⟨hinv, Nat.sub_le _ _⟩ hrest
    obtain ⟨hinv', hnum⟩ := destroyVec_tx ht.1 (by omega) hbody
    split
    · exact hinv'
    · exact ⟨hinv', by omega⟩

theorem cpswSetChannelsCommon_inv {chs : EthtoolChannels} {a : Around τ} {r : State τ × ℤ}
    (h : Inv cfg s) (hcovered : Covered cfg s (.setChannels p chs a))
    (hset : cpswSetChannelsCommon cfg s p chs a = some r) : Inv cfg r.1 := by
  unfold cpswSetChannelsCommon at hset
  split at hset
  · obtain rfl := Option.some.inj hset
    exact h
  rename_i hcheck
  obtain ⟨hrxclear, htxclear⟩ := hcovered.resolve_left hcheck
  obtain ⟨hquirk, hrxle, htxle⟩ : cfg.quirkIrq = false ∧ chs.rxCount ≤ cpswMaxQueues ∧
      chs.txCount ≤ cpswMaxQueues := by
    unfold cpswCheckChSettings at hcheck
    split at hcheck
    · exact absurd (show -eopnotsupp < 0 by decide) hcheck
    rename_i hquirk
    split at hcheck
    · exact absurd (show -einval < 0 by decide) hcheck
    split at hcheck
    · exact absurd (show -einval < 0 by decide) hcheck
    split at hcheck
    · exact absurd (show -einval < 0 by decide) hcheck
    · exact ⟨by simpa using hquirk, by omega, by omega⟩
  obtain ⟨⟨dma, ret⟩, hstop, hset⟩ := Option.bind_eq_some_iff.mp hset
  have hstopped : Inv cfg { s with cpsw := { s.cpsw with dma := dma } } :=
    h.same ⟨cpdmaCtlrStop_limits hstop, fun _ => rfl, fun _ => rfl, rfl, rfl⟩ rfl
  have hpending : Pending cfg p chs.txCount { s with cpsw := { s.cpsw with dma := dma } } :=
    ⟨hstopped, hquirk, htxle, htxclear⟩
  obtain ⟨r₁, hrx, hset⟩ := Option.bind_eq_some_iff.mp hset
  have hpending₁ := updateRx_pending hpending hrxle hrxclear hrx
  split at hset
  · obtain rfl := Option.some.inj hset
    exact hpending₁.inv
  obtain ⟨r₂, htx, hset⟩ := Option.bind_eq_some_iff.mp hset
  have hinv₂ := updateTx_inv hpending₁ htx
  split at hset
  · obtain rfl := Option.some.inj hset
    exact hinv₂
  unfold setRealNum at hset
  split at hset
  · obtain rfl := Option.some.inj hset
    exact hinv₂
  · obtain ⟨cpsw, hsplit, rfl⟩ := Option.map_eq_some_iff.mp hset
    exact hinv₂.same (cpswSplitRes_same hsplit) rfl

theorem Inv.step {op : Op τ} (h : Inv cfg s) (hcovered : Covered cfg s op)
    (hst : Maxrate.step cfg s op = some t) : Inv cfg t := by
  cases op with
  | setTxMaxrate p queue rate fuel pm =>
    simp only [Maxrate.step] at hst
    split at hst
    · rename_i hp
      obtain ⟨⟨t', ret⟩, hset, rfl⟩ := Option.map_eq_some_iff.mp hst
      exact (cpswNdoSetTxMaxrate_grants h hcovered hp hset).1
    · cases hst
  | setChannels p chs a =>
    simp only [Maxrate.step] at hst
    split at hst
    · obtain ⟨r, hset, rfl⟩ := Option.map_eq_some_iff.mp hst
      exact cpswSetChannelsCommon_inv h hcovered hset
    · cases hst
  | adjustLink speed resplit =>
    simp only [Maxrate.step] at hst
    split at hst
    · obtain ⟨cpsw, hsplit, rfl⟩ := Option.map_eq_some_iff.mp hst
      have hspeed : SameLimits s.cpsw { s.cpsw with speed := speed } :=
        ⟨rfl, fun _ => rfl, fun _ => rfl, rfl, rfl⟩
      exact h.same (hspeed.trans (cpswSplitRes_same hsplit)) rfl
    · obtain rfl := Option.some.inj hst
      exact h.same ⟨rfl, fun _ => rfl, fun _ => rfl, rfl, rfl⟩ rfl
  | dma op =>
    obtain ⟨dma, hop, rfl⟩ := Option.map_eq_some_iff.mp hst
    refine h.congr ⟨h.vectors.txNum, h.vectors.tx, h.vectors.rxNum, h.vectors.rx⟩ le_rfl
      (fun queue hq => ?_) fun _ _ _ => rfl
    have hexist := h.exist queue hq
    unfold applied at hexist ⊢
    rw [Option.isSome_map] at hexist
    exact congrArg (Option.map Prod.fst) (step_limits hop _ hexist)

theorem Initial.inv (h : Initial cfg s) : Inv cfg s := by
  refine ⟨h.vectors, fun queue hq => ?_, fun queue hq p _ => ?_⟩
  · rw [h.limits queue hq]
    rfl
  · rw [h.rates]
    exact ⟨0, h.limits queue hq, iff_of_true rfl rfl, le_rfl⟩

/-- Rates stay recorded as they are applied while no channel is created for a queue that has
one recorded, and a call that sets a rate and returns 0 grants it. -/
theorem believed_of_run {s₀ : State τ} {ls : List (Op τ)} (hinit : Initial cfg s₀)
    (hrun : Run (step cfg) (Covered cfg) s₀ ls s) :
    Believed cfg s ∧ ∀ p queue rate fuel pm t, cfg.hasNdev p = true → queue < s.cpsw.txChNum →
      Covered cfg s (.setTxMaxrate p queue rate fuel pm) →
      cpswNdoSetTxMaxrate cfg fuel s p queue rate pm = some (t, 0) → Grants cfg t queue rate := by
  have hinv : Inv cfg s := hrun.invariant (fun _ _ _ => Inv.step) hinit.inv
  refine ⟨fun queue hq p hp => ?_, fun p queue rate fuel pm t hp hq hcovered hset => ?_⟩
  · obtain ⟨limit, happ, hiff, -⟩ := hinv.grants queue hq p hp
    exact ⟨limit, happ, hiff⟩
  · exact (cpswNdoSetTxMaxrate_grants hinv hcovered hp hset).2 rfl hq

def exampleConfig : Config where
  params := smallParams 2 two_le_smallPool
  busFreqMhz := 125
  quirkIrq := false
  hasNdev := fun _ => true

def exampleChan (ch : ChanId) : Option CpdmaChan :=
  if ch = 7 ∨ ch = 32 then some { descNum := 1 } else none

/-- Links of 1 Gbit/s, with one channel in each direction. -/
def exampleState : State Unit where
  cpsw := {
    dma := quiet exampleConfig.params () .idle exampleChan 1 1
    txv := fun i => if i = 0 then ⟨some 7, 64⟩ else {}
    rxv := fun i => if i = 0 then ⟨some 32, 64⟩ else {}
    txChNum := 1
    rxChNum := 1
    speed := 1000 }
  txMaxrate := fun _ _ => 0

def noTrouble : Around Unit := ⟨[], fun _ _ => true, fun _ _ => [], 0⟩

theorem initial_example : Initial exampleConfig exampleState where
  vectors := by
    refine ⟨⟨by decide, fun _ => le_rfl⟩, fun queue hq => ?_, by decide, fun i hi => ?_⟩
    · obtain rfl : queue = 0 := Nat.lt_one_iff.mp hq
      decide
    · obtain rfl : i = 0 := Nat.lt_one_iff.mp hi
      decide
  limits := by
    intro queue hq
    obtain rfl : queue = 0 := Nat.lt_one_iff.mp hq
    decide
  rates := fun _ _ => rfl

instance (s : State Unit) : DecidablePred (Covered exampleConfig s)
  | .setTxMaxrate .. => inferInstanceAs (Decidable (_ ∨ _ ∨ _ ∧ _))
  | .setChannels .. => inferInstanceAs (Decidable (_ ∨ _ ∧ _))
  | .adjustLink .. | .dma _ => .isTrue trivial

/-- Two channels, both limited. -/
theorem believed_with_two_limits : ∃ (s t : State Unit),
    Run (step exampleConfig) (Covered exampleConfig) exampleState
      [.setChannels 0 ⟨0, 1, 2⟩ noTrouble, .setTxMaxrate 0 0 100 4 0] s ∧
    cpswNdoSetTxMaxrate exampleConfig 4 s 1 1 100 0 = some (t, 0) ∧
    Believed exampleConfig s ∧ Grants exampleConfig t 1 100 := by
  have hany : (exec (step exampleConfig) (Covered exampleConfig) exampleState
      [.setChannels 0 ⟨0, 1, 2⟩ noTrouble, .setTxMaxrate 0 0 100 4 0]).any (fun s =>
        decide (1 < s.cpsw.txChNum) &&
        (cpswNdoSetTxMaxrate exampleConfig 4 s 1 1 100 0).any fun r => r.2 = 0) = true := by
    decide +kernel
  obtain ⟨s, hrun, hs⟩ := exists_run_of_any hany
  obtain ⟨hnum, hset⟩ := Bool.and_eq_true_iff.mp hs
  obtain ⟨⟨t, ret⟩, hcall, hret⟩ := (Option.any_eq_true _ _).mp hset
  obtain rfl : ret = 0 := of_decide_eq_true hret
  obtain ⟨hbelieved, hgrants⟩ := believed_of_run initial_example hrun
  exact ⟨s, t, hrun, hcall, hbelieved, hgrants 1 1 100 4 0 t rfl (of_decide_eq_true hnum)
    (.inr (.inr (by decide))) hcall⟩

/-- A channel is limited, destroyed and created again by one net device: the other still has
its rate recorded, and asking for that rate does nothing. -/
theorem believed_fails_after_recreate : ∃ s t : State Unit,
    Run (step exampleConfig) anyStep exampleState
      [.setChannels 0 ⟨0, 1, 2⟩ noTrouble, .setTxMaxrate 0 0 100 4 0, .setTxMaxrate 0 1 100 4 0,
        .setChannels 0 ⟨0, 1, 1⟩ noTrouble, .setChannels 0 ⟨0, 1, 2⟩ noTrouble] s ∧
    1 < s.cpsw.txChNum ∧ s.txMaxrate 1 1 = 100 ∧ applied exampleConfig s 1 = some 0 ∧
    ¬ Believed exampleConfig s ∧
    cpswNdoSetTxMaxrate exampleConfig 4 s 1 1 100 0 = some (t, 0) ∧
    ¬ Grants exampleConfig t 1 100 := by
  have hany : (exec (step exampleConfig) anyStep exampleState
      [.setChannels 0 ⟨0, 1, 2⟩ noTrouble, .setTxMaxrate 0 0 100 4 0, .setTxMaxrate 0 1 100 4 0,
        .setChannels 0 ⟨0, 1, 1⟩ noTrouble, .setChannels 0 ⟨0, 1, 2⟩ noTrouble]).any (fun s =>
        decide (1 < s.cpsw.txChNum) && s.txMaxrate 1 1 = 100 &&
          applied exampleConfig s 1 = some 0) = true := by
    decide +kernel
  obtain ⟨s, hrun, hs⟩ := exists_run_of_any hany
  simp only [Bool.and_eq_true, decide_eq_true_eq] at hs
  obtain ⟨⟨hnum, hrate⟩, happlied⟩ := hs
  have hne : (100 : U32) ≠ 0 := by decide
  refine ⟨s, s, hrun, hnum, hrate, happlied, fun hbelieved => ?_, if_pos hrate, fun hgrants => ?_⟩
  · obtain ⟨limit, happ, hiff⟩ := hbelieved 1 hnum 1 rfl
    rw [happlied] at happ
    obtain rfl := Option.some.inj happ
    rw [hrate] at hiff
    exact hne (hiff.mpr rfl)
  · obtain ⟨limit, happ, hiff, -⟩ := hgrants
    rw [happlied] at happ
    obtain rfl := Option.some.inj happ
    exact hne (hiff.mpr rfl)

end CpswDriver.Maxrate
