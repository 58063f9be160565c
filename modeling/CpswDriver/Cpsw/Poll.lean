import CpswDriver.Cpdma.Process
import CpswDriver.Cpsw.Maxrate

/-!
The pollers. They go through the bitmap of pending channels and process each one with
what is left of the budget, adding up what cpdma_chan_process returns, errors included.
The sum is the number of packets that were handled as long as every channel that is
come to is active.
-/

namespace CpswDriver.Channels

open Cpdma Runs
open Maxrate (vch vecOf vch_val)

variable {τ : Type*} {params : CpdmaParams} {s : Common τ} {rx : Bool} {vec : ℕ → CpswVector}
  {scheds : ℕ → List (Op τ)} {chMap m : U32} {budget : ℤ} {i j k n : ℕ}

/-- A vector that was serviced: whether its channel was active when it was come to, and how
many handlers were called for it. -/
structure Served where
  vec : ℕ
  active : Bool
  calls : ℕ

structure Poll (τ : Type*) where
  dma : State τ
  num : ℤ := 0
  served : List Served := []

/-- What a poll leaves: what it returns, and whether it has completed and enabled the interrupts
again. -/
structure Polled (τ : Type*) where
  dma : State τ
  ret : ℤ
  served : List Served
  enabled : Bool

/-- How a poller goes through the bitmap. -/
structure Scan where
  more : U32 → Bool
  pending : U32 → Bool
  next : U32 → U32

def txScan : Scan where
  more m := m &&& 0xff ≠ 0
  pending m := m &&& 0x80 ≠ 0
  next m := m <<< 1

def rxScan : Scan where
  more m := m ≠ 0
  pending m := m &&& 0x01 ≠ 0
  next m := m >>> 1

/-- Undefined for a vector without a channel. -/
def pollVec (params : CpdmaParams) (sched : List (Op τ)) (budget : ℤ) (vec : CpswVector)
    (i : ℕ) (v : Poll τ) : Option (Poll τ) :=
  let curBudget := if budget - v.num < vec.budget then budget - v.num else vec.budget
  vec.ch.bind fun ch => (v.dma.ctlr.channels ch).bind fun chan =>
    (cpdmaChanProcess params sched v.dma ch curBudget).map fun r => {
      dma := r.dma
      num := v.num + r.ret
      served := v.served ++ [⟨i, chan.state = .active, r.calls⟩] }

def pollLoop (scan : Scan) (params : CpdmaParams) (scheds : ℕ → List (Op τ)) (budget : ℤ)
    (vec : ℕ → CpswVector) : ℕ → U32 → ℕ → Poll τ → Option (Poll τ)
  | 0, _, _, _ => none
  | n + 1, chMap, ch, v =>
    if !scan.more chMap then some v
    else if !scan.pending chMap then
      pollLoop scan params scheds budget vec n (scan.next chMap) (ch + 1) v
    else (pollVec params (scheds ch) budget (vec ch) ch v).bind fun v =>
      if budget ≤ v.num then some v
      else pollLoop scan params scheds budget vec n (scan.next chMap) (ch + 1) v

/-- A bitmap has no more than 32 turns. -/
def mqPoll (scan : Scan) (params : CpdmaParams) (scheds : ℕ → List (Op τ)) (budget : ℤ)
    (vec : ℕ → CpswVector) (chMap : U32) (dma : State τ) : Option (Polled τ) :=
  (pollLoop scan params scheds budget vec 33 chMap 0 { dma := dma }).map fun v =>
    ⟨v.dma, v.num, v.served, v.num < budget⟩

/-- `chMap` is what cpdma_ctrl_txchs_state reads. -/
def cpswTxMqPoll (params : CpdmaParams) (scheds : ℕ → List (Op τ)) (chMap : U32)
    (budget : ℤ) (s : Common τ) : Option (Polled τ) :=
  mqPoll txScan params scheds budget s.txv chMap s.dma

/-- `chMap` is what cpdma_ctrl_rxchs_state reads. -/
def cpswRxMqPoll (params : CpdmaParams) (scheds : ℕ → List (Op τ)) (chMap : U32)
    (budget : ℤ) (s : Common τ) : Option (Polled τ) :=
  mqPoll rxScan params scheds budget s.rxv chMap s.dma

def cpswMqPoll (rx : Bool) (params : CpdmaParams) (scheds : ℕ → List (Op τ)) (chMap : U32)
    (budget : ℤ) (s : Common τ) : Option (Polled τ) :=
  if rx then cpswRxMqPoll params scheds chMap budget s
  else cpswTxMqPoll params scheds chMap budget s

/-- The handler calls of the vectors that were serviced. -/
def handled (served : List Served) : ℕ := (served.map Served.calls).sum

/-- Vector `i` is pending: a tx vector from the upper end of the lower byte down, an rx vector
from the lower end up. -/
def Pending (rx : Bool) (chMap : U32) (i : ℕ) : Prop :=
  if rx then chMap.getLsbD i = true else i < 8 ∧ chMap.getLsbD (7 - i) = true

/-- The channels that are pending are those of the driver. -/
def OverVectors (rx : Bool) (s : Common τ) (chMap : U32) : Prop :=
  ∀ i, Pending rx chMap i → i < cpswMaxQueues ∧ (vecOf rx s i).ch = some (vch rx i) ∧
    (s.dma.ctlr.channels (vch rx i)).isSome

/-- A poll calls at most `budget` handlers and returns how many. It services vectors whose
channels are pending, each once and within its budget, and it enables the interrupts just when
it returns less than `budget`. -/
structure Reports (rx : Bool) (s : Common τ) (chMap : U32) (budget : ℤ) (r : Polled τ) :
    Prop where
  atMost : (handled r.served : ℤ) ≤ budget
  counted : r.ret = handled r.served
  pending : ∀ sv ∈ r.served, ∃ ch, (vecOf rx s sv.vec).ch = some ch ∧ isRxChan ch = rx ∧
    chMap.getLsbD (chanLinear ch) = true
  once : (r.served.map Served.vec).Nodup
  within : ∀ sv ∈ r.served, (sv.calls : ℤ) ≤ (vecOf rx s sv.vec).budget
  enabled : r.enabled = true ↔ r.ret < budget

theorem txScan_next (m : U32) (k : ℕ) : txScan.next^[k] m = m <<< k := by
  induction k with
  | zero => simp
  | succ k ih =>
    rw [Function.iterate_succ_apply', ih, BitVec.shiftLeft_add]
    rfl

theorem rxScan_next (m : U32) (k : ℕ) : rxScan.next^[k] m = m >>> k := by
  induction k with
  | zero => simp
  | succ k ih =>
    rw [Function.iterate_succ_apply', ih, BitVec.shiftRight_add]
    rfl

theorem txScan_pending_iff (m : U32) (k : ℕ) :
    txScan.pending (txScan.next^[k] m) = true ↔ k < 8 ∧ m.getLsbD (7 - k) = true := by
  have hbit : (0x80 : U32) = BitVec.twoPow 32 7 := by decide
  have hone : BitVec.twoPow 32 7 ≠ 0#32 := by decide
  rw [txScan_next]
  simp only [txScan, hbit, BitVec.and_twoPow, BitVec.getLsbD_shiftLeft]
  by_cases hk : k < 8
  · cases m.getLsbD (7 - k) <;> simp [hk, hone]
    omega
  · simp [hk]
    omega

theorem rxScan_pending_iff (m : U32) (k : ℕ) :
    rxScan.pending (rxScan.next^[k] m) = true ↔ m.getLsbD k = true := by
  have hbit : (0x01 : U32) = BitVec.twoPow 32 0 := by decide
  have hone : BitVec.twoPow 32 0 ≠ 0#32 := by decide
  rw [rxScan_next]
  simp only [rxScan, hbit, BitVec.and_twoPow, BitVec.getLsbD_ushiftRight]
  cases m.getLsbD k <;> simp [hone]

/-- Either poller stops after 32 turns. -/
theorem more_lt (m : U32) (k : ℕ) :
    (txScan.more (txScan.next^[k] m) = true → k < 32) ∧
      (rxScan.more (rxScan.next^[k] m) = true → k < 32) := by
  rw [txScan_next, rxScan_next]
  constructor
  · intro hmore
    by_contra hk
    rw [BitVec.shiftLeft_eq_zero (by omega)] at hmore
    exact absurd hmore (by decide)
  · intro hmore
    by_contra hk
    rw [BitVec.ushiftRight_eq_zero (by omega)] at hmore
    exact absurd hmore (by decide)

/-- The serviced vectors whose channels were not active. -/
def failed (served : List Served) : ℕ := served.countP fun sv => !sv.active

theorem failed_eq_zero_iff (served : List Served) :
    failed served = 0 ↔ ∀ sv ∈ served, sv.active = true := by
  simp [failed]

theorem handled_append (served : List Served) (sv : Served) :
    handled (served ++ [sv]) = handled served + sv.calls := by
  simp [handled]

theorem failed_append (served : List Served) (sv : Served) :
    failed (served ++ [sv]) = failed served + if sv.active then 0 else 1 := by
  cases h : sv.active <;> simp [failed, h]

structure PollInv (scan : Scan) (m : U32) (vec : ℕ → CpswVector) (budget : ℤ) (k : ℕ)
    (v : Poll τ) : Prop where
  pending : ∀ sv ∈ v.served, scan.pending (scan.next^[sv.vec] m) = true
  before : ∀ sv ∈ v.served, sv.vec < k
  once : (v.served.map Served.vec).Nodup
  within : ∀ sv ∈ v.served, (sv.calls : ℤ) ≤ (vec sv.vec).budget
  num : v.num = handled v.served - einval * failed v.served
  atMost : failed v.served = 0 → (handled v.served : ℤ) ≤ budget

variable {scan : Scan} {v w : Poll τ}

theorem PollInv.start (scan : Scan) (m : U32) (vec : ℕ → CpswVector) (hbudget : 0 ≤ budget)
    (dma : State τ) : PollInv scan m vec budget 0 { dma := dma } :=
  ⟨nofun, nofun, .nil, nofun, rfl, fun _ => hbudget⟩

theorem PollInv.skip (h : PollInv scan m vec budget k v) : PollInv scan m vec budget (k + 1) v :=
  ⟨h.pending, fun sv hsv => (h.before sv hsv).trans (Nat.lt_succ_self k), h.once, h.within, h.num,
    h.atMost⟩

theorem PollInv.service {sched : List (Op τ)} (h : PollInv scan m vec budget k v)
    (hpending : scan.pending (scan.next^[k] m) = true) (hvec : 0 ≤ (vec k).budget)
    (hpoll : pollVec params sched budget (vec k) k v = some w) :
    PollInv scan m vec budget (k + 1) w := by
  obtain ⟨ch, -, hpoll⟩ := Option.bind_eq_some_iff.mp hpoll
  obtain ⟨chan, hchan, hpoll⟩ := Option.bind_eq_some_iff.mp hpoll
  obtain ⟨r, hr, rfl⟩ := Option.map_eq_some_iff.mp hpoll
  have hspec := cpdmaChanProcess_spec hchan hr
  have heinval : einval = 22 := rfl
  have hcalls : (r.calls : ℤ) ≤ (vec k).budget := by
    cases hactive : decide (chan.state = .active) with
    | false => rw [(hspec.error hactive).2]; exact hvec
    | true =>
      have hle := (hspec.used hactive).2
      split at hle <;> omega
  refine ⟨?_, ?_, ?_, ?_, ?_, ?_⟩
  · intro sv hsv
    rcases List.mem_append.mp hsv with hold | hnew
    · exact h.pending sv hold
    · rw [List.mem_singleton.mp hnew]
      exact hpending
  · intro sv hsv
    rcases List.mem_append.mp hsv with hold | hnew
    · exact (h.before sv hold).trans (Nat.lt_succ_self k)
    · rw [List.mem_singleton.mp hnew]
      exact Nat.lt_succ_self k
  · dsimp only
    rw [List.map_append, List.map_singleton]
    refine List.nodup_append.mpr ⟨h.once, List.nodup_singleton _, ?_⟩
    intro a ha b hb
    obtain ⟨sv, hsv, rfl⟩ := List.mem_map.mp ha
    rw [List.mem_singleton.mp hb]
    exact Nat.ne_of_lt (h.before sv hsv)
  · intro sv hsv
    rcases List.mem_append.mp hsv with hold | hnew
    · exact h.within sv hold
    · rw [List.mem_singleton.mp hnew]
      exact hcalls
  · have hnum := h.num
    dsimp only
    rw [handled_append, failed_append]
    cases hactive : decide (chan.state = .active) with
    | false =>
      obtain ⟨hret, hzero⟩ := hspec.error hactive
      dsimp only
      rw [if_neg Bool.false_ne_true, hret, hzero, hnum, heinval]
      omega
    | true =>
      obtain ⟨hret, -⟩ := hspec.used hactive
      dsimp only
      rw [if_pos rfl, hret, hnum, heinval]
      omega
  · dsimp only
    rw [handled_append, failed_append]
    intro hnone
    have hle := h.atMost (by omega)
    have hnum := h.num
    cases hactive : decide (chan.state = .active) with
    | false =>
      rw [hactive] at hnone
      dsimp only at hnone
      rw [if_neg Bool.false_ne_true] at hnone
      omega
    | true =>
      have hquota := (hspec.used hactive).2
      have hzero : failed v.served = 0 := by omega
      rw [hzero] at hnum
      dsimp only
      split at hquota <;> omega

theorem pollLoop_inv (hvec : ∀ i, 0 ≤ (vec i).budget) (hinv : PollInv scan m vec budget k v)
    (h : pollLoop scan params scheds budget vec n (scan.next^[k] m) k v = some w) :
    ∃ k', PollInv scan m vec budget k' w := by
  induction n generalizing k v with
  | zero => cases h
  | succ n ih =>
    have hnext : scan.next (scan.next^[k] m) = scan.next^[k + 1] m :=
      (Function.iterate_succ_apply' _ _ _).symm
    unfold pollLoop at h
    rw [hnext] at h
    split at h
    · obtain rfl := Option.some.inj h
      exact ⟨k, hinv⟩
    split at h
    · exact ih hinv.skip h
    · rename_i hpending
      obtain ⟨u, hu, h⟩ := Option.bind_eq_some_iff.mp h
      have hinv' := hinv.service (by simpa using hpending) (hvec k) hu
      split at h
      · obtain rfl := Option.some.inj h
        exact ⟨k + 1, hinv'⟩
      · exact ih hinv' h

theorem pollLoop_congr {scheds' : ℕ → List (Op τ)} (h : ∀ j, k ≤ j → scheds j = scheds' j)
    (chMap : U32) (v : Poll τ) : pollLoop scan params scheds budget vec n chMap k v =
      pollLoop scan params scheds' budget vec n chMap k v := by
  induction n generalizing k chMap v with
  | zero => rfl
  | succ n ih =>
    have hrest : ∀ j, k + 1 ≤ j → scheds j = scheds' j := fun j hj => h j (by omega)
    unfold pollLoop
    rw [h k (le_refl k)]
    simp only [ih hrest]

/-- A poll to which no channel is missing returns, if nothing else goes on. -/
theorem pollLoop_returns (params : CpdmaParams) (budget : ℤ) (vec : ℕ → CpswVector)
    (hmore : ∀ j, scan.more (scan.next^[j] m) = true → j < 32)
    (hexist : ∀ j, scan.pending (scan.next^[j] m) = true →
      ∃ ch, (vec j).ch = some ch ∧ (v.dma.ctlr.channels ch).isSome)
    (hk : k ≤ 32) (hn : 32 < n + k) :
    ∃ scheds w, pollLoop scan params scheds budget vec n (scan.next^[k] m) k v = some w := by
  induction n generalizing k v with
  | zero => omega
  | succ n ih =>
    have hnext : scan.next (scan.next^[k] m) = scan.next^[k + 1] m :=
      (Function.iterate_succ_apply' _ _ _).symm
    by_cases hend : scan.more (scan.next^[k] m) = true
    · have hlt := hmore k hend
      by_cases hpending : scan.pending (scan.next^[k] m) = true
      · obtain ⟨ch, hch, hsome⟩ := hexist k hpending
        obtain ⟨chan, hchan⟩ := Option.isSome_iff_exists.mp hsome
        obtain ⟨sched, r, hr, hsame⟩ := cpdmaChanProcess_returns params v.dma
          (if budget - v.num < (vec k).budget then budget - v.num else (vec k).budget) hsome
        obtain ⟨scheds, w, hrest⟩ := ih (v := ⟨r.dma, v.num + r.ret,
          v.served ++ [⟨k, chan.state = .active, r.calls⟩]⟩) (fun j hj => by
            obtain ⟨ch', hch', hsome'⟩ := hexist j hj
            exact ⟨ch', hch', (hsame ch').trans hsome'⟩) (show k + 1 ≤ 32 by omega) (by omega)
        have hpoll : pollVec params sched budget (vec k) k v = some ⟨r.dma, v.num + r.ret,
            v.served ++ [⟨k, chan.state = .active, r.calls⟩]⟩ := by
          unfold pollVec
          dsimp only
          rw [hch, Option.bind_some, hchan, Option.bind_some, hr]
          rfl
        have hupdate : ∀ j, k + 1 ≤ j → scheds j = Function.update scheds k sched j :=
          fun j hj => (Function.update_of_ne (by omega) _ _).symm
        rw [pollLoop_congr hupdate] at hrest
        refine ⟨Function.update scheds k sched, ?_⟩
        unfold pollLoop
        rw [hend, hpending, hnext, Function.update_self, hpoll]
        simp only [Bool.not_true, Bool.false_eq_true, if_false, Option.bind_some]
        split
        · exact ⟨_, rfl⟩
        · exact ⟨w, hrest⟩
      · obtain ⟨scheds, w, hrest⟩ := ih hexist (show k + 1 ≤ 32 by omega) (by omega)
        refine ⟨scheds, w, ?_⟩
        unfold pollLoop
        rw [hend, Bool.eq_false_iff.mpr hpending, hnext]
        exact hrest
    · refine ⟨fun _ => [], v, ?_⟩
      unfold pollLoop
      rw [Bool.eq_false_iff.mpr hend]
      rfl

def scanOf (rx : Bool) : Scan := if rx then rxScan else txScan

theorem cpswMqPoll_eq (rx : Bool) (chMap : U32) (s : Common τ) :
    cpswMqPoll rx params scheds chMap budget s =
      mqPoll (scanOf rx) params scheds budget (vecOf rx s) chMap s.dma := by
  cases rx <;> rfl

theorem scanOf_pending_iff (rx : Bool) (chMap : U32) (i : ℕ) :
    (scanOf rx).pending ((scanOf rx).next^[i] chMap) = true ↔ Pending rx chMap i := by
  cases rx with
  | false => exact txScan_pending_iff chMap i
  | true => exact rxScan_pending_iff chMap i

theorem scanOf_more (rx : Bool) (chMap : U32) :
    ∀ j, (scanOf rx).more ((scanOf rx).next^[j] chMap) = true → j < 32 := by
  intro j
  cases rx with
  | false => exact (more_lt chMap j).1
  | true => exact (more_lt chMap j).2

/-- The channel of a pending vector is the one whose bit is set. -/
theorem pending_channel (h : OverVectors rx s chMap) (hi : Pending rx chMap i) :
    (vecOf rx s i).ch = some (vch rx i) ∧ isRxChan (vch rx i) = rx ∧
      chMap.getLsbD (chanLinear (vch rx i)) = true := by
  obtain ⟨hlt, hch, -⟩ := h i hi
  obtain ⟨hval, hval'⟩ := vch_val hlt
  unfold cpswMaxQueues at hlt
  unfold Pending at hi
  refine ⟨hch, ?_, ?_⟩
  · unfold isRxChan cpdmaMaxChannels
    cases rx
    · rw [hval', decide_eq_false_iff_not]
      omega
    · rw [hval, decide_eq_true_iff]
      omega
  · unfold chanLinear cpdmaMaxChannels
    cases rx
    · rw [hval', Nat.mod_eq_of_lt (by omega)]
      exact hi.2
    · rw [hval, Nat.add_mod_left, Nat.mod_eq_of_lt (by omega)]
      exact hi

/-- A poll over the driver's channels can be made, and it reports the work it did just when
every channel that it comes to is active. -/
theorem cpswMqPoll_reports_iff (params : CpdmaParams) (hbudget : 0 ≤ budget)
    (hvec : ∀ i, 0 ≤ (vecOf rx s i).budget) (hmap : OverVectors rx s chMap) :
    (∃ scheds r, cpswMqPoll rx params scheds chMap budget s = some r) ∧
      ∀ scheds r, cpswMqPoll rx params scheds chMap budget s = some r →
        (Reports rx s chMap budget r ↔ ∀ sv ∈ r.served, sv.active = true) := by
  constructor
  · have hexist : ∀ j, (scanOf rx).pending ((scanOf rx).next^[j] chMap) = true →
        ∃ ch, (vecOf rx s j).ch = some ch ∧ (s.dma.ctlr.channels ch).isSome := by
      intro j hj
      obtain ⟨-, hch, hsome⟩ := hmap j ((scanOf_pending_iff rx chMap j).mp hj)
      exact ⟨_, hch, hsome⟩
    obtain ⟨scheds, w, hloop⟩ := pollLoop_returns (v := { dma := s.dma }) (n := 33) (k := 0)
      params budget (vecOf rx s) (scanOf_more rx chMap) hexist (by omega) (by omega)
    refine ⟨scheds, ⟨w.dma, w.num, w.served, w.num < budget⟩, ?_⟩
    rw [cpswMqPoll_eq]
    unfold mqPoll
    rw [show pollLoop (scanOf rx) params scheds budget (vecOf rx s) 33 chMap 0 { dma := s.dma } =
      some w from hloop, Option.map_some]
  · intro scheds r hr
    rw [cpswMqPoll_eq] at hr
    obtain ⟨v, hloop, rfl⟩ := Option.map_eq_some_iff.mp hr
    obtain ⟨k, hinv⟩ := pollLoop_inv (m := chMap) (k := 0) hvec
      (.start _ _ _ hbudget s.dma) hloop
    have hnum : v.num = handled v.served - 22 * failed v.served := hinv.num
    rw [← failed_eq_zero_iff]
    constructor
    · intro hreports
      have hcounted : v.num = handled v.served := hreports.counted
      show failed v.served = 0
      omega
    · intro hnone
      have hzero : failed v.served = 0 := hnone
      refine ⟨hinv.atMost hzero, show v.num = handled v.served by omega, fun sv hsv => ?_,
        hinv.once, hinv.within, decide_eq_true_iff⟩
      have hpending := (scanOf_pending_iff rx chMap sv.vec).mp (hinv.pending sv hsv)
      exact ⟨_, pending_channel hmap hpending⟩

/-- The only tx channel is in this state and its queue is empty. -/
def oneChan (state : CpdmaState) : Common Unit where
  dma := quiet (smallParams 2 two_le_smallPool) () .active
    (fun ch => if ch = 7 then some { state := state, descNum := 2 } else none) 0 2
  txv := fun i => if i = 0 then ⟨some 7, 64⟩ else {}
  rxv := fun _ => {}
  txChNum := 1
  rxChNum := 0
  speed := 1000

def sent : List (Op Unit) :=
  [.submit .submit 7 ⟨(), 0x5000, 60, 0⟩ (some 0x4000),
    .engine 0x8000 (cpdmaDescSop ||| cpdmaDescEop ||| cpdmaDescEoq ||| 60) 60]

theorem overVectors_oneChan {dma : State Unit} (hsome : (dma.ctlr.channels 7).isSome = true) :
    OverVectors false { oneChan .active with dma := dma } 0x80 := by
  intro i hi
  have hzero : i = 0 := by
    obtain ⟨hlt, hbit⟩ := hi
    have hall : ∀ i < 8, (0x80 : U32).getLsbD (7 - i) = true → i = 0 := by decide
    exact hall i hlt hbit
  rw [hzero]
  exact ⟨by decide, rfl, hsome⟩

theorem budget_oneChan (dma : State Unit) (i : ℕ) :
    0 ≤ (vecOf false { oneChan .active with dma := dma } i).budget := by
  show 0 ≤ (if i = 0 then (⟨some 7, 64⟩ : CpswVector) else {}).budget
  split <;> decide

theorem cpswMqPoll_reports_sent : ∃ dma r,
    Run (Cpdma.step (smallParams 2 (by decide))) LenOk (oneChan .active).dma sent dma ∧
    cpswMqPoll false (smallParams 2 (by decide)) (fun _ => List.replicate 4 (.advance 0)) 0x80 64
      { oneChan .active with dma := dma } = some r ∧ r.ret = 1 ∧
    Reports false { oneChan .active with dma := dma } 0x80 64 r := by
  have htest : (exec (Cpdma.step (smallParams 2 (by decide))) LenOk (oneChan .active).dma sent).any
      (fun dma => (dma.ctlr.channels 7).isSome &&
        (cpswMqPoll false (smallParams 2 (by decide)) (fun _ => List.replicate 4 (.advance 0)) 0x80
          64 { oneChan .active with dma := dma }).any
            (fun r => r.ret = 1 ∧ ∀ sv ∈ r.served, sv.active = true)) = true := by
    decide +kernel
  obtain ⟨dma, hrun, hpoll⟩ := exists_run_of_any htest
  obtain ⟨hsome, hpoll⟩ := Bool.and_eq_true_iff.mp hpoll
  obtain ⟨r, hr, hend⟩ := (Option.any_eq_true _ _).mp hpoll
  obtain ⟨hret, hactive⟩ := of_decide_eq_true hend
  have hbudget : (0 : ℤ) ≤ 64 := by decide
  obtain ⟨-, hiff⟩ := cpswMqPoll_reports_iff (smallParams 2 (by decide)) hbudget
    (budget_oneChan dma) (overVectors_oneChan hsome)
  exact ⟨dma, r, hrun, hr, hret, (hiff _ r hr).mpr hactive⟩

/-- The channel is being torn down: the poll returns -22. -/
theorem poll_of_teardown_is_negative : ∃ r,
    cpswMqPoll false (smallParams 2 (by decide)) (fun _ => []) 0x80 64 (oneChan .teardown) =
      some r ∧ r.ret = -22 ∧ ¬ Reports false (oneChan .teardown) 0x80 64 r := by
  have hany : (cpswMqPoll false (smallParams 2 (by decide)) (fun _ => []) 0x80 64
      (oneChan .teardown)).any (fun r => r.ret = -22) = true := by decide +kernel
  obtain ⟨r, hr, hret⟩ := (Option.any_eq_true _ _).mp hany
  have hret : r.ret = -22 := of_decide_eq_true hret
  refine ⟨r, hr, hret, fun hreports => ?_⟩
  have hcounted := hreports.counted
  omega

end CpswDriver.Channels
