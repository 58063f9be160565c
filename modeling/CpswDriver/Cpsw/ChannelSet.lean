import CpswDriver.Cpdma.Resizing
import CpswDriver.Cpsw.Maxrate

/-!
Which channels there are. The driver counts its channels of each direction and
creates and destroys them at the end of its vector, one at a time; a change of
their numbers can fail anywhere. The channels of the DMA controller are those of
the vectors, neither more nor less, and a change that succeeds has the numbers
that were asked for.
-/

namespace CpswDriver.Maxrate

open Cpdma Channels Runs

variable {τ : Type*} {cfg : Config} {s t : State τ} {p : Port} {rx : Bool} {i : ℕ}

def chanOf (cfg : Config) (rx : Bool) (i : ℕ) : ChanId := if rx then vch true i else txChan cfg i

/-- The vectors hold their channels, and no others exist. -/
structure ChannelSet (cfg : Config) (s : Common τ) : Prop where
  pos : ∀ rx, 0 < chNum rx s
  le : ∀ rx, chNum rx s ≤ cpswMaxQueues
  held : ∀ rx, ∀ i < chNum rx s, (vecOf rx s i).ch = some (chanOf cfg rx i)
  exist : ∀ ch, (s.dma.ctlr.channels ch).isSome ↔ ∃ rx, ∃ i < chNum rx s, chanOf cfg rx i = ch

def SameSet (c c' : CpdmaCtlr τ) : Prop := ∀ ch, (c'.channels ch).isSome = (c.channels ch).isSome

theorem SameSet.of_limits {c c' : CpdmaCtlr τ} (h : limitOf c' = limitOf c) : SameSet c c' := by
  intro ch
  rw [← limitOf_isSome, ← limitOf_isSome, h]

theorem SameSet.of_samePool {c c' : CpdmaCtlr τ} (h : SamePool c c') : SameSet c c' := by
  intro ch
  have hweight := congrArg Option.isSome (h.weight ch)
  rwa [Option.isSome_map, Option.isSome_map] at hweight

theorem sameSet_update {c c' : CpdmaCtlr τ} {ch : ChanId} {chan chan' : CpdmaChan}
    (hch : c.channels ch = some chan)
    (h : c'.channels = Function.update c.channels ch (some chan')) : SameSet c c' := by
  intro ch'
  rw [h]
  by_cases heq : ch' = ch
  · rw [heq, Function.update_self, hch]
    rfl
  · rw [Function.update_of_ne heq]

theorem cpdmaChanSetRate_sameSet {params : CpdmaParams} {busFreqMhz rate : U32} {fuel : ℕ}
    {c c' : CpdmaCtlr τ} {ch : ChanId} {ret : ℤ}
    (h : cpdmaChanSetRate params busFreqMhz fuel c ch rate = some (c', ret)) : SameSet c c' := by
  cases cpdmaChanSetRate_end h with
  | refused => exact fun _ => rfl
  | same => exact fun _ => rfl
  | noFactors hch => exact sameSet_update hch rfl
  | set hch => exact sameSet_update hch writeRate_channels

/-- A channel that is destroyed is gone, whatever is returned. -/
theorem cpdmaChanDestroy_gone {params : CpdmaParams} {sched : List (Cpdma.Op τ)}
    {u v : Cpdma.State τ} {ch : ChanId} {ret : ℤ}
    (h : cpdmaChanDestroy params sched u ch = some (v, ret)) : v.ctlr.channels ch = none := by
  unfold cpdmaChanDestroy at h
  split at h
  · rename_i hnone
    obtain ⟨rfl, -⟩ := Prod.mk.inj (Option.some.inj h)
    exact hnone
  split at h
  · cases h
  obtain ⟨w, -, h⟩ := Option.map_eq_some_iff.mp h
  obtain ⟨rfl, -⟩ := Prod.mk.inj h
  obtain ⟨channels, hquota, heq⟩ := removeChan_frame w.ctlr ch
  obtain ⟨n, hn⟩ := hquota ch
  rw [heq]
  dsimp only
  rw [hn, Function.update_self, Option.map_none]

/-- No other call of the DMA driver creates a channel. -/
def Creates : Cpdma.Op τ → Bool
  | .chanCreate .. => true
  | _ => false

theorem step_sameSet {params : CpdmaParams} {u v : Cpdma.State τ} {op : Cpdma.Op τ}
    (hlen : LenOk u op) (hop : Creates op = false) (h : Cpdma.step params u op = some v) :
    SameSet u.ctlr v.ctlr := by
  by_cases hsplit : op.resplits = true
  · cases op with
    | setWeight ch weight =>
      simp only [Cpdma.step] at h
      split at h
      · cases h
      obtain ⟨chan, hch, rfl⟩ := Option.map_eq_some_iff.mp h
      exact .of_limits (cpdmaChanSetWeight_limits hch weight)
    | setNumRxDescs numRxDesc =>
      simp only [Cpdma.step] at h
      split at h
      · cases h
      obtain rfl := Option.some.inj h
      exact .of_limits (cpdmaSetNumRxDescs_limits u.ctlr numRxDesc)
    | chanCreate ch zalloc => cases hop
    | _ => cases hsplit
  · exact .of_samePool (step_samePool hlen (Bool.not_eq_true _ ▸ hsplit) h)

theorem ChannelSet.congr {c c' : Common τ} (h : ChannelSet cfg c)
    (hset : SameSet c.dma.ctlr c'.dma.ctlr) (hnum : ∀ rx, chNum rx c' = chNum rx c)
    (hvec : ∀ rx i, (vecOf rx c' i).ch = (vecOf rx c i).ch) : ChannelSet cfg c' where
  pos rx := hnum rx ▸ h.pos rx
  le rx := hnum rx ▸ h.le rx
  held rx i hi := (hvec rx i).trans (h.held rx i (hnum rx ▸ hi))
  exist ch := by
    rw [hset ch, h.exist ch]
    simp only [hnum]

theorem ChannelSet.same {c c' : Common τ} (h : ChannelSet cfg c) (hsame : SameLimits c c') :
    ChannelSet cfg c' := by
  refine h.congr (.of_limits hsame.limits) (fun rx => ?_) fun rx i => ?_
  · cases rx with
    | false => exact hsame.txChNum
    | true => exact hsame.rxChNum
  · cases rx with
    | false => exact hsame.tx i
    | true => exact hsame.rx i

theorem chNum_setChNum (rx' : Bool) (c : Common τ) (n : ℕ) :
    chNum rx' (setChNum rx c n) = if rx' = rx then n else chNum rx' c := by
  cases rx <;> cases rx' <;> rfl

theorem vecOf_setChNum (rx' : Bool) (c : Common τ) (n : ℕ) :
    vecOf rx' (setChNum rx c n) = vecOf rx' c := by
  cases rx <;> cases rx' <;> rfl

theorem chNum_setVec (rx' : Bool) (c : Common τ) (ch : ChanId) :
    chNum rx' (setVec rx c i ch) = chNum rx' c := by
  cases rx <;> cases rx' <;> rfl

theorem dma_setVec (c : Common τ) (ch : ChanId) : (setVec rx c i ch).dma = c.dma := by
  cases rx <;> rfl

theorem dma_setChNum (c : Common τ) (n : ℕ) : (setChNum rx c n).dma = c.dma := by
  cases rx <;> rfl

theorem ch_vecOf_setVec (rx' : Bool) (c : Common τ) (j : ℕ) (ch : ChanId) :
    (vecOf rx' (setVec rx c i ch) j).ch =
      if rx' = rx ∧ j = i then some ch else (vecOf rx' c j).ch := by
  have hupdate : ∀ vec : ℕ → CpswVector,
      (Function.update vec i { vec i with ch := some ch } j).ch =
        if j = i then some ch else (vec j).ch := by
    intro vec
    by_cases hj : j = i
    · rw [if_pos hj, hj, Function.update_self]
    · rw [if_neg hj, Function.update_of_ne hj]
  cases rx <;> cases rx' <;> simp [vecOf, setVec, hupdate]

theorem chanOf_eq (hquirk : cfg.quirkIrq = false) (rx : Bool) (i : ℕ) :
    chanOf cfg rx i = vch rx i := by
  unfold chanOf txChan
  rw [hquirk]
  cases rx <;> rfl

theorem vch_inj {rx' : Bool} {j : ℕ} (hi : i < cpswMaxQueues) (hj : j < cpswMaxQueues)
    (h : vch rx i = vch rx' j) : rx = rx' ∧ i = j := by
  have hval := congrArg Fin.val h
  obtain ⟨hrx, htx⟩ := vch_val hi
  obtain ⟨hrx', htx'⟩ := vch_val hj
  unfold cpswMaxQueues at hi hj
  cases rx with
  | false =>
    cases rx' with
    | false => exact ⟨rfl, by omega⟩
    | true => exact absurd hval (by omega)
  | true =>
    cases rx' with
    | false => exact absurd hval (by omega)
    | true => exact ⟨rfl, by omega⟩

theorem ChannelSet.setVec {c : Common τ} (h : ChannelSet cfg c) (ch : ChanId) :
    ChannelSet cfg (setVec rx c (chNum rx c) ch) where
  pos rx' := chNum_setVec rx' c ch ▸ h.pos rx'
  le rx' := chNum_setVec rx' c ch ▸ h.le rx'
  held rx' i hi := by
    rw [chNum_setVec] at hi
    rw [ch_vecOf_setVec, if_neg ?_]
    · exact h.held rx' i hi
    · rintro ⟨rfl, rfl⟩
      exact lt_irrefl _ hi
  exist ch' := by
    simp only [dma_setVec, chNum_setVec]
    exact h.exist ch'

/-- With one channel more in a direction, just that one is counted in addition. -/
theorem counted_succ {c c' : Common τ} (hrx : chNum rx c' = chNum rx c + 1)
    (hothers : ∀ rx', rx' ≠ rx → chNum rx' c' = chNum rx' c) (ch : ChanId) :
    (∃ rx', ∃ i < chNum rx' c', chanOf cfg rx' i = ch) ↔
      chanOf cfg rx (chNum rx c) = ch ∨ ∃ rx', ∃ i < chNum rx' c, chanOf cfg rx' i = ch := by
  constructor
  · rintro ⟨rx', i, hi, rfl⟩
    by_cases heq : rx' = rx
    · rw [heq, hrx] at hi
      rcases Nat.lt_succ_iff_lt_or_eq.mp hi with hlt | hlast
      · exact .inr ⟨rx, i, hlt, by rw [heq]⟩
      · exact .inl (by rw [heq, hlast])
    · exact .inr ⟨rx', i, hothers rx' heq ▸ hi, rfl⟩
  · rintro (rfl | ⟨rx', i, hi, rfl⟩)
    · exact ⟨rx, chNum rx c, hrx ▸ Nat.lt_succ_self _, rfl⟩
    · refine ⟨rx', i, ?_, rfl⟩
      by_cases heq : rx' = rx
      · rw [heq] at hi ⊢
        exact hrx ▸ Nat.lt_succ_of_lt hi
      · exact (hothers rx' heq).symm ▸ hi

theorem ChannelSet.create {c : Common τ} (h : ChannelSet cfg c) (hquirk : cfg.quirkIrq = false)
    (hnum : chNum rx c < cpswMaxQueues) {dma : Cpdma.State τ}
    (hlimits : limitOf dma.ctlr = Function.update (limitOf c.dma.ctlr) (vch rx (chNum rx c))
      (some (0, 0))) :
    ChannelSet cfg (setChNum rx (Maxrate.setVec rx { c with dma := dma } (chNum rx c)
      (vch rx (chNum rx c))) (chNum rx c + 1)) := by
  have hcount : ∀ rx', chNum rx' (setChNum rx (Maxrate.setVec rx { c with dma := dma } (chNum rx c)
      (vch rx (chNum rx c))) (chNum rx c + 1)) =
        if rx' = rx then chNum rx c + 1 else chNum rx' c := by
    intro rx'
    rw [chNum_setChNum, chNum_setVec]
    rfl
  refine ⟨fun rx' => ?_, fun rx' => ?_, fun rx' i hi => ?_, fun ch => ?_⟩
  · rw [hcount]
    split
    · exact Nat.succ_pos _
    · exact h.pos rx'
  · rw [hcount]
    split
    · exact hnum
    · exact h.le rx'
  · rw [hcount] at hi
    rw [vecOf_setChNum, ch_vecOf_setVec]
    split
    · rename_i hnew
      rw [hnew.1, hnew.2, chanOf_eq hquirk]
    · rename_i hold
      refine h.held rx' i ?_
      split at hi
      · rename_i heq
        have hne : i ≠ chNum rx c := fun hi' => hold ⟨heq, hi'⟩
        rw [heq]
        omega
      · exact hi
  · rw [counted_succ ((hcount rx).trans (if_pos rfl))
        fun rx' hne => (hcount rx').trans (if_neg hne),
      dma_setChNum, dma_setVec, ← limitOf_isSome, hlimits, chanOf_eq hquirk]
    by_cases hnew : ch = vch rx (chNum rx c)
    · rw [hnew, Function.update_self]
      exact iff_of_true rfl (.inl rfl)
    · rw [Function.update_of_ne hnew, limitOf_isSome, h.exist ch, or_iff_right (Ne.symm hnew)]

theorem ChannelSet.destroy {c : Common τ} (h : ChannelSet cfg c) (hquirk : cfg.quirkIrq = false)
    (hnum : 1 < chNum rx c) {dma : Cpdma.State τ}
    (hgone : dma.ctlr.channels (vch rx (chNum rx c - 1)) = none)
    (hothers : ∀ ch, ch ≠ vch rx (chNum rx c - 1) →
      limitOf dma.ctlr ch = limitOf c.dma.ctlr ch) :
    ChannelSet cfg { setChNum rx c (chNum rx c - 1) with dma := dma } := by
  have hcount : ∀ rx', chNum rx' { setChNum rx c (chNum rx c - 1) with dma := dma } =
      if rx' = rx then chNum rx c - 1 else chNum rx' c := fun rx' => chNum_setChNum rx' c _
  have hlast := (hcount rx).trans (if_pos rfl)
  have hless : ∀ rx', chNum rx' { setChNum rx c (chNum rx c - 1) with dma := dma } ≤
      chNum rx' c := by
    intro rx'
    rw [hcount]
    split
    · rename_i heq
      rw [heq]
      exact Nat.sub_le _ _
    · exact le_rfl
  refine ⟨fun rx' => ?_, fun rx' => (hless rx').trans (h.le rx'), fun rx' i hi => ?_, fun ch => ?_⟩
  · rw [hcount]
    split
    · omega
    · exact h.pos rx'
  · have hvec : vecOf rx' { setChNum rx c (chNum rx c - 1) with dma := dma } = vecOf rx' c :=
      vecOf_setChNum rx' c _
    rw [hvec]
    exact h.held rx' i (hi.trans_le (hless rx'))
  · by_cases hold : ch = vch rx (chNum rx c - 1)
    · rw [hold]
      dsimp only
      rw [hgone]
      refine iff_of_false Bool.false_ne_true ?_
      rintro ⟨rx', i, hi, heq⟩
      rw [chanOf_eq hquirk] at heq
      have hle := h.le rx
      have hi' := (hi.trans_le (hless rx')).trans_le (h.le rx')
      obtain ⟨rfl, rfl⟩ := vch_inj hi' (by omega) heq
      rw [hlast] at hi
      exact lt_irrefl _ hi
    · have hcounted := @counted_succ τ cfg rx
        { setChNum rx c (chNum rx c - 1) with dma := dma } c (by omega)
        (fun rx' hne => ((hcount rx').trans (if_neg hne)).symm) ch
      rw [hlast, chanOf_eq hquirk, or_iff_right (Ne.symm hold)] at hcounted
      rw [← hcounted, ← h.exist ch, ← limitOf_isSome, hothers ch hold, limitOf_isSome]

/-- A channel is created and counted, or there is an error. -/
theorem ChannelSet.createVec (h : ChannelSet cfg s.cpsw) (hquirk : cfg.quirkIrq = false)
    (hnum : chNum rx s.cpsw < cpswMaxQueues) {zalloc : Bool} {r : State τ × ℤ}
    (hcreate : createVec cfg p rx zalloc s = some r) :
    ChannelSet cfg r.1.cpsw ∧ (∀ rx', rx' ≠ rx → chNum rx' r.1.cpsw = chNum rx' s.cpsw) ∧
      (r.2 = 0 → chNum rx r.1.cpsw = chNum rx s.cpsw + 1) := by
  obtain ⟨u, ret⟩ := r
  obtain ⟨ctlr, -, ⟨hret, hlimits, hcpsw⟩ | ⟨-, hlimits, hcpsw⟩⟩ := createVec_frame hcreate
  · have hsame : ChannelSet cfg { s.cpsw with dma := { s.cpsw.dma with ctlr := ctlr } } :=
      h.congr (.of_limits hlimits) (fun _ => rfl) fun _ _ => rfl
    refine ⟨?_, fun rx' _ => ?_, fun hzero => absurd hzero hret⟩
    · rw [hcpsw]
      exact hsame.setVec _
    · rw [hcpsw, chNum_setVec]
      rfl
  · refine ⟨?_, fun rx' hne => ?_, fun _ => ?_⟩
    · rw [hcpsw]
      exact h.create hquirk hnum hlimits
    · rw [hcpsw, chNum_setChNum, if_neg hne, chNum_setVec]
      rfl
    · rw [hcpsw, chNum_setChNum, if_pos rfl]

theorem ChannelSet.destroyVec (h : ChannelSet cfg s.cpsw) (hquirk : cfg.quirkIrq = false)
    (hnum : 1 < chNum rx s.cpsw) {sched : List (Cpdma.Op τ)} {r : State τ × ℤ}
    (hdestroy : destroyVec cfg rx sched s = some r) :
    ChannelSet cfg r.1.cpsw ∧ (∀ rx', rx' ≠ rx → chNum rx' r.1.cpsw = chNum rx' s.cpsw) ∧
      chNum rx r.1.cpsw = chNum rx s.cpsw - 1 := by
  have hch : (vecOf rx s.cpsw (chNum rx s.cpsw - 1)).ch = some (vch rx (chNum rx s.cpsw - 1)) := by
    rw [h.held rx _ (by omega), chanOf_eq hquirk]
  unfold Maxrate.destroyVec at hdestroy
  dsimp only at hdestroy
  rw [hch] at hdestroy
  obtain ⟨⟨dma, ret⟩, hcall, rfl⟩ := Option.map_eq_some_iff.mp hdestroy
  refine ⟨?_, fun rx' hne => ?_, ?_⟩
  · exact h.destroy hquirk hnum (cpdmaChanDestroy_gone hcall)
      fun ch hne => cpdmaChanDestroy_limits hcall hne
  · exact (chNum_setChNum rx' s.cpsw _).trans (if_neg hne)
  · exact (chNum_setChNum rx s.cpsw _).trans (if_pos rfl)

/-- A loop ends with `J`, and with the last `I` unless there was an error. -/
theorem untilErr_ends {body : State τ → Option (State τ × ℤ)} {I : ℕ → State τ → Prop}
    {J : State τ → Prop} (hJ : ∀ k s, I k s → J s)
    (hbody : ∀ k s r, I (k + 1) s → body s = some r → J r.1 ∧ (r.2 = 0 → I k r.1)) {n : ℕ}
    {r : State τ × ℤ} (hs : I n s) (h : untilErr body n s = some r) :
    J r.1 ∧ (r.2 = 0 → I 0 r.1) := by
  induction n generalizing s with
  | zero =>
    obtain rfl := Option.some.inj h
    exact ⟨hJ 0 s hs, fun _ => hs⟩
  | succ n ih =>
    obtain ⟨r', hr', hrest⟩ := Option.bind_eq_some_iff.mp h
    obtain ⟨hend, hnext⟩ := hbody n s r' hs hr'
    by_cases hret : r'.2 ≠ 0
    · rw [if_pos hret] at hrest
      obtain rfl := Option.some.inj hrest
      exact ⟨hend, fun hzero => absurd hzero hret⟩
    · rw [if_neg hret] at hrest
      exact ih (hnext (not_not.mp hret)) hrest

/-- The set is a channel set, and the other directions number what they did in `s`. -/
def OthersKept (cfg : Config) (rx : Bool) (s t : State τ) : Prop :=
  ChannelSet cfg t.cpsw ∧ ∀ rx', rx' ≠ rx → chNum rx' t.cpsw = chNum rx' s.cpsw

/-- The first loop of cpsw_update_channels_res: it creates up to the number asked for. -/
theorem OthersKept.createLoop {t : State τ} (h : OthersKept cfg rx s t)
    (hquirk : cfg.quirkIrq = false) {m k : ℕ} (hle : m ≤ cpswMaxQueues)
    (hcount : chNum rx t.cpsw + k = m) {a : Around τ} {r : State τ × ℤ}
    (hloop : untilErr (fun t => Maxrate.createVec cfg p rx (a.zalloc rx (chNum rx t.cpsw)) t) k t =
      some r) :
    OthersKept cfg rx s r.1 ∧ (r.2 = 0 → chNum rx r.1.cpsw = m) := by
  have hbody : ∀ k t r, OthersKept cfg rx s t ∧ chNum rx t.cpsw + (k + 1) = m →
      Maxrate.createVec cfg p rx (a.zalloc rx (chNum rx t.cpsw)) t = some r →
      OthersKept cfg rx s r.1 ∧
        (r.2 = 0 → OthersKept cfg rx s r.1 ∧ chNum rx r.1.cpsw + k = m) := by
    rintro k t r ⟨⟨hset, hothers⟩, hcount⟩ hbody
    obtain ⟨hset', hothers', hnext⟩ := hset.createVec hquirk (by omega) hbody
    have hkept : OthersKept cfg rx s r.1 :=
      ⟨hset', fun rx' hne => (hothers' rx' hne).trans (hothers rx' hne)⟩
    refine ⟨hkept, fun hret => ⟨hkept, ?_⟩⟩
    have hone := hnext hret
    omega
  obtain ⟨hend, hzero⟩ := untilErr_ends
    (I := fun k t => OthersKept cfg rx s t ∧ chNum rx t.cpsw + k = m)
    (fun _ _ ht => ht.1) hbody ⟨h, hcount⟩ hloop
  exact ⟨hend, fun hret => (hzero hret).2⟩

/-- The second loop: it destroys down to the number asked for. -/
theorem OthersKept.destroyLoop {t : State τ} (h : OthersKept cfg rx s t)
    (hquirk : cfg.quirkIrq = false) {n k : ℕ} (hpos : 0 < n) (hcount : chNum rx t.cpsw = n + k)
    {a : Around τ} {r : State τ × ℤ}
    (hloop : untilErr
      (fun t => Maxrate.destroyVec cfg rx (a.destroy rx (chNum rx t.cpsw - 1)) t) k t = some r) :
    OthersKept cfg rx s r.1 ∧ (r.2 = 0 → chNum rx r.1.cpsw = n) := by
  have hbody : ∀ k t r, OthersKept cfg rx s t ∧ chNum rx t.cpsw = n + (k + 1) →
      Maxrate.destroyVec cfg rx (a.destroy rx (chNum rx t.cpsw - 1)) t = some r →
      OthersKept cfg rx s r.1 ∧
        (r.2 = 0 → OthersKept cfg rx s r.1 ∧ chNum rx r.1.cpsw = n + k) := by
    rintro k t r ⟨⟨hset, hothers⟩, hcount⟩ hbody
    obtain ⟨hset', hothers', hcount'⟩ := hset.destroyVec hquirk (by omega) hbody
    have hkept : OthersKept cfg rx s r.1 :=
      ⟨hset', fun rx' hne => (hothers' rx' hne).trans (hothers rx' hne)⟩
    exact ⟨hkept, fun _ => ⟨hkept, by omega⟩⟩
  obtain ⟨hend, hzero⟩ := untilErr_ends
    (I := fun k t => OthersKept cfg rx s t ∧ chNum rx t.cpsw = n + k)
    (fun _ _ ht => ht.1) hbody ⟨h, hcount⟩ hloop
  exact ⟨hend, fun hret => (hzero hret).2⟩

/-- What cpsw_update_channels_res does for one direction. -/
theorem ChannelSet.update (h : ChannelSet cfg s.cpsw) (hquirk : cfg.quirkIrq = false) {n : ℕ}
    (hpos : 0 < n) (hle : n ≤ cpswMaxQueues) {a : Around τ} {r : State τ × ℤ}
    (hupdate : cpswUpdateChannelsRes cfg p rx n a s = some r) :
    OthersKept cfg rx s r.1 ∧ (r.2 = 0 → chNum rx r.1.cpsw = n) := by
  obtain ⟨u, hcreate, hrest⟩ := Option.bind_eq_some_iff.mp hupdate
  have hle' := h.le rx
  have hstart : OthersKept cfg rx s s := ⟨h, fun _ _ => rfl⟩
  have hmax : chNum rx s.cpsw + (n - chNum rx s.cpsw) = max n (chNum rx s.cpsw) := by omega
  obtain ⟨hkept, hnum⟩ := hstart.createLoop hquirk (by omega) hmax hcreate
  split at hrest
  · rename_i hret
    obtain rfl := Option.some.inj hrest
    exact ⟨hkept, fun hzero => absurd hzero hret⟩
  rename_i hret
  have hmost := hnum (not_not.mp hret)
  exact hkept.destroyLoop hquirk hpos (by omega) hrest

theorem checkChSettings_accepts {chs : EthtoolChannels} (h : ¬cpswCheckChSettings cfg chs < 0) :
    cfg.quirkIrq = false ∧ (0 < chs.rxCount ∧ chs.rxCount ≤ cpswMaxQueues) ∧
      0 < chs.txCount ∧ chs.txCount ≤ cpswMaxQueues := by
  unfold cpswCheckChSettings at h
  split at h
  · exact absurd (show -eopnotsupp < 0 by decide) h
  rename_i hquirk
  split at h
  · exact absurd (show -einval < 0 by decide) h
  split at h
  · exact absurd (show -einval < 0 by decide) h
  split at h
  · exact absurd (show -einval < 0 by decide) h
  · exact ⟨Bool.not_eq_true _ ▸ hquirk, by omega, by omega⟩

theorem ChannelSet.setChannels (h : ChannelSet cfg s.cpsw) {chs : EthtoolChannels} {a : Around τ}
    {r : State τ × ℤ} (hset : cpswSetChannelsCommon cfg s p chs a = some r) :
    ChannelSet cfg r.1.cpsw ∧ (r.2 = 0 → r.1.cpsw.rxChNum = chs.rxCount ∧
      r.1.cpsw.txChNum = chs.txCount) := by
  unfold cpswSetChannelsCommon at hset
  split at hset
  · rename_i hcheck
    obtain rfl := Option.some.inj hset
    exact ⟨h, fun hzero => absurd hzero hcheck.ne⟩
  rename_i hcheck
  obtain ⟨hquirk, ⟨hrxpos, hrxle⟩, htxpos, htxle⟩ := checkChSettings_accepts hcheck
  obtain ⟨⟨dma, ret⟩, hstop, hset⟩ := Option.bind_eq_some_iff.mp hset
  have hstopped : ChannelSet cfg { s.cpsw with dma := dma } :=
    h.congr (.of_limits (cpdmaCtlrStop_limits hstop)) (fun _ => rfl) fun _ _ => rfl
  obtain ⟨r₁, hrx, hset⟩ := Option.bind_eq_some_iff.mp hset
  obtain ⟨⟨hset₁, -⟩, hnum₁⟩ := ChannelSet.update
    (s := { s with cpsw := { s.cpsw with dma := dma } }) hstopped hquirk hrxpos hrxle hrx
  split at hset
  · rename_i hret
    obtain rfl := Option.some.inj hset
    exact ⟨hset₁, fun hzero => absurd hzero hret⟩
  rename_i hret
  obtain ⟨r₂, htx, hset⟩ := Option.bind_eq_some_iff.mp hset
  obtain ⟨⟨hset₂, hothers⟩, hnum₂⟩ := hset₁.update hquirk htxpos htxle htx
  split at hset
  · rename_i hret
    obtain rfl := Option.some.inj hset
    exact ⟨hset₂, fun hzero => absurd hzero hret⟩
  rename_i hret'
  have hnums : r₂.1.cpsw.rxChNum = chs.rxCount ∧ r₂.1.cpsw.txChNum = chs.txCount :=
    ⟨(hothers true nofun).trans (hnum₁ (not_not.mp hret)), hnum₂ (not_not.mp hret')⟩
  unfold setRealNum at hset
  split at hset
  · rename_i hret
    obtain rfl := Option.some.inj hset
    exact ⟨hset₂, fun hzero => absurd hzero hret⟩
  · obtain ⟨cpsw, hsplit, rfl⟩ := Option.map_eq_some_iff.mp hset
    have hsame := cpswSplitRes_same hsplit
    refine ⟨hset₂.same hsame, fun _ => ?_⟩
    exact ⟨hsame.rxChNum.trans hnums.1, hsame.txChNum.trans hnums.2⟩

theorem ChannelSet.setVecRate {c c' : Common τ} (h : ChannelSet cfg c) {fuel queue : ℕ}
    {chRate : U32} {ret : ℤ} (hset : setVecRate cfg fuel c queue chRate = some (c', ret)) :
    ChannelSet cfg c' := by
  unfold Maxrate.setVecRate at hset
  split at hset
  · obtain ⟨rfl, -⟩ := Prod.mk.inj (Option.some.inj hset)
    exact h
  split at hset
  · cases hset
  obtain ⟨⟨ctlr, ret'⟩, hrate, heq⟩ := Option.map_eq_some_iff.mp hset
  obtain ⟨rfl, -⟩ := Prod.mk.inj heq
  exact h.congr (cpdmaChanSetRate_sameSet hrate) (fun _ => rfl) fun _ _ => rfl

theorem ChannelSet.setTxMaxrate (h : ChannelSet cfg s.cpsw) {fuel queue : ℕ} {rate : U32} {pm : ℤ}
    {r : State τ × ℤ} (hset : cpswNdoSetTxMaxrate cfg fuel s p queue rate pm = some r) :
    ChannelSet cfg r.1.cpsw := by
  unfold cpswNdoSetTxMaxrate at hset
  split at hset
  · exact Option.some.inj hset ▸ h
  dsimp only at hset
  split at hset
  · exact Option.some.inj hset ▸ h
  split at hset
  · exact Option.some.inj hset ▸ h
  split at hset
  · exact Option.some.inj hset ▸ h
  obtain ⟨⟨cpsw, ret⟩, hrate, hset⟩ := Option.bind_eq_some_iff.mp hset
  have hrated := h.setVecRate hrate
  split at hset
  · obtain rfl := Option.some.inj hset
    exact hrated
  · obtain ⟨cpsw', hsplit, rfl⟩ := Option.map_eq_some_iff.mp hset
    exact hrated.same (cpswSplitRes_same hsplit)

/-- Channels are created by the driver only, and packets are shorter than 64 KiB. -/
def KeepsSet (s : State τ) : Op τ → Prop
  | .dma op => LenOk s.cpsw.dma op ∧ Creates op = false
  | _ => True

theorem ChannelSet.step {op : Op τ} (h : ChannelSet cfg s.cpsw) (hok : KeepsSet s op)
    (hst : Maxrate.step cfg s op = some t) : ChannelSet cfg t.cpsw := by
  cases op with
  | setTxMaxrate p queue rate fuel pm =>
    simp only [Maxrate.step] at hst
    split at hst
    · obtain ⟨r, hset, rfl⟩ := Option.map_eq_some_iff.mp hst
      exact h.setTxMaxrate hset
    · cases hst
  | setChannels p chs a =>
    simp only [Maxrate.step] at hst
    split at hst
    · obtain ⟨r, hset, rfl⟩ := Option.map_eq_some_iff.mp hst
      exact (h.setChannels hset).1
    · cases hst
  | adjustLink speed resplit =>
    have hspeed : ChannelSet cfg { s.cpsw with speed := speed } :=
      h.congr (fun _ => rfl) (fun _ => rfl) fun _ _ => rfl
    simp only [Maxrate.step] at hst
    split at hst
    · obtain ⟨cpsw, hsplit, rfl⟩ := Option.map_eq_some_iff.mp hst
      exact hspeed.same (cpswSplitRes_same hsplit)
    · obtain rfl := Option.some.inj hst
      exact hspeed
  | dma op =>
    obtain ⟨dma, hop, rfl⟩ := Option.map_eq_some_iff.mp hst
    exact h.congr (step_sameSet hok.1 hok.2 hop) (fun _ => rfl) fun _ _ => rfl

/-- Whatever fails, the channels that exist are those that the driver counts, and a change of
their numbers that returns 0 has made them what was asked for. -/
theorem channelSet_of_run {s₀ : State τ} {ls : List (Op τ)} (hinit : ChannelSet cfg s₀.cpsw)
    (hrun : Run (Maxrate.step cfg) KeepsSet s₀ ls s) :
    ChannelSet cfg s.cpsw ∧ ∀ p chs a t, cpswSetChannelsCommon cfg s p chs a = some (t, 0) →
      ChannelSet cfg t.cpsw ∧ t.cpsw.rxChNum = chs.rxCount ∧ t.cpsw.txChNum = chs.txCount := by
  have hset := hrun.invariant (I := fun u => ChannelSet cfg u.cpsw)
    (fun _ _ _ h hok hst => h.step hok hst) hinit
  refine ⟨hset, fun p chs a t hcall => ?_⟩
  obtain ⟨hset', hnum⟩ := hset.setChannels hcall
  exact ⟨hset', hnum rfl⟩

theorem channelSet_example : ChannelSet exampleConfig exampleState.cpsw where
  pos rx := by cases rx <;> decide
  le rx := by cases rx <;> decide
  held rx i hi := by
    have hlt : i < 1 := by cases rx <;> exact hi
    obtain rfl : i = 0 := Nat.lt_one_iff.mp hlt
    cases rx <;> decide
  exist := by decide +kernel

instance (s : State Unit) : DecidablePred (KeepsSet s)
  | .dma _ => inferInstanceAs (Decidable (_ ∧ _))
  | .setTxMaxrate .. | .setChannels .. | .adjustLink .. => .isTrue trivial

/-- Two channels each way, then a third rx channel that cannot be allocated. -/
def regrown : List (Op Unit) :=
  [.setChannels 0 ⟨0, 2, 2⟩ noTrouble,
    .setChannels 0 ⟨0, 3, 1⟩ { noTrouble with zalloc := fun _ i => i != 2 }]

theorem channelSet_after_failure : ∃ s t : State Unit,
    Run (Maxrate.step exampleConfig) KeepsSet exampleState regrown s ∧
    cpswSetChannelsCommon exampleConfig s 1 ⟨0, 1, 3⟩ noTrouble = some (t, 0) ∧
    ChannelSet exampleConfig s.cpsw ∧ (s.cpsw.rxChNum = 2 ∧ s.cpsw.txChNum = 2) ∧
    ChannelSet exampleConfig t.cpsw ∧ t.cpsw.rxChNum = 1 ∧ t.cpsw.txChNum = 3 := by
  have hany : (exec (Maxrate.step exampleConfig) KeepsSet exampleState regrown).any (fun s =>
      decide (s.cpsw.rxChNum = 2 ∧ s.cpsw.txChNum = 2) &&
        (cpswSetChannelsCommon exampleConfig s 1 ⟨0, 1, 3⟩ noTrouble).any fun r => r.2 = 0) =
      true := by
    decide +kernel
  obtain ⟨s, hrun, hs⟩ := exists_run_of_any hany
  obtain ⟨hnum, hset⟩ := Bool.and_eq_true_iff.mp hs
  obtain ⟨⟨t, ret⟩, hcall, hret⟩ := (Option.any_eq_true _ _).mp hset
  obtain rfl : ret = 0 := of_decide_eq_true hret
  obtain ⟨hsound, hcalls⟩ := channelSet_of_run channelSet_example hrun
  exact ⟨s, t, hrun, hcall, hsound, of_decide_eq_true hnum, hcalls 1 _ _ t hcall⟩

end CpswDriver.Maxrate
