import CpswDriver.Cpsw.Slaves
import CpswDriver.Lib.Runs

/-!
Credit based shaping. A slave port has four FIFOs, of which the upper three can be
shaped: each has a percentage of the link in one register, a rate limit bit in a
second and a shape enable bit in a third, which the two ports share. The driver
keeps the bandwidth of each FIFO and the link speed it was set at.
-/

namespace CpswDriver.Cbs

open Runs

/-- What the driver keeps for a port, and the registers of its slave. -/
structure CpswPriv where
  fifoBw : ℕ → ℤ
  shpCfgSpeed : ℤ
  regs : SlaveRegs

/-- Both ports and the register that they share. -/
structure State where
  priv : Port → CpswPriv
  ptype : U32

def cpswFifoQueueTypeShift : ℕ := 16
def cpswFifoShapeEnShift : ℕ := 16
def cpswFifoRateEnShift : ℕ := 20
def cpswPctMask : U32 := 0x7f

/-- The FIFOs that can be shaped, in the order of the loops. -/
def fifos : List ℕ := [3, 2, 1]

def cpswShpIsOff (ptype : U32) (p : Port) : Bool :=
  let shift := cpswFifoShapeEnShift + 3 * p.val
  let mask := 7#32 <<< shift
  decide (ptype &&& mask = 0)

def cpswFifoShpOn (ptype : U32) (p : Port) (fifo : ℕ) (on : Bool) : U32 :=
  let shift := cpswFifoShapeEnShift + 3 * p.val
  let mask := 1#32 <<< (fifo - 1) <<< shift
  if on then ptype ||| mask else ptype &&& ~~~mask

inductive Halt
  | ret (err : ℤ)
  | divideByZero

def divRoundUp (n d : ℤ) : ℤ := (n + d - 1).tdiv d

/-- The share of the link that a bandwidth takes, in percent and at least one. -/
def percentOf (shpCfgSpeed bw : ℤ) : U32 :=
  let val := BitVec.ofInt 32 (divRoundUp bw (shpCfgSpeed * 10))
  if val = 0 then 1 else val

def pctShift (i : ℕ) : ℕ := (i - 1) * 8

def pctField (sendPct : U32) (i : ℕ) : U32 := (sendPct >>> pctShift i) &&& cpswPctMask

/-- The loop of cpsw_set_fifo_bw, from FIFO i down, with send_pct and pct. -/
def fifoLoop (priv : CpswPriv) (fifo : ℕ) (bw : ℤ) : ℕ → U32 × U32 → Except Halt (U32 × U32)
  | 0, acc => .ok acc
  | n + 1, (sendPct, pct) =>
    let i := n + 1
    if bw = 0 then fifoLoop priv fifo bw n (sendPct, pct)
    else if priv.fifoBw i = 0 ∧ fifo < i then .error (.ret (-einval))
    else if i = fifo then
      if priv.shpCfgSpeed * 10 = 0 then .error .divideByZero
      else
        let val := percentOf priv.shpCfgSpeed bw
        fifoLoop priv fifo bw n
          ((sendPct &&& ~~~(cpswPctMask <<< pctShift i)) ||| (val <<< pctShift i), pct + val)
    else if priv.fifoBw i ≠ 0 then fifoLoop priv fifo bw n (sendPct, pct + pctField sendPct i)
    else fifoLoop priv fifo bw n (sendPct, pct)

/-- A request that fails changes nothing. -/
def cpswSetFifoBw (priv : CpswPriv) (fifo : ℕ) (bw : ℤ) : Except Halt CpswPriv :=
  if priv.shpCfgSpeed * 1000 < bw then .error (.ret (-einval))
  else
    match fifoLoop priv fifo bw cpswFifoShapersNum (priv.regs sendPercent, 0) with
    | .error halt => .error halt
    | .ok (sendPct, pct) =>
      if 100 ≤ pct.toInt then .error (.ret (-einval))
      else .ok { priv with
        regs := Function.update priv.regs sendPercent sendPct
        fifoBw := Function.update priv.fifoBw fifo bw }

/-- The new value of TX_IN_CTL, where off says that no FIFO of the port was shaped. -/
def rlimitCtl (val : U32) (off : Bool) (fifo : ℕ) (on : Bool) : U32 :=
  let val :=
    if off then
      let val := val &&& ~~~(0xf#32 <<< cpswFifoRateEnShift)
      let val := val &&& ~~~(3#32 <<< cpswFifoQueueTypeShift)
      if on then val ||| (2#32 <<< cpswFifoQueueTypeShift) else val
    else val
  if on then val ||| (1#32 <<< (fifo + cpswFifoRateEnShift))
  else val &&& ~~~(1#32 <<< (fifo + cpswFifoRateEnShift))

def cpswSetFifoRlimit (version : CpswVersion) (s : State) (p : Port) (fifo : ℕ) (bw : ℤ) :
    Except Halt State :=
  match cpswSetFifoBw (s.priv p) fifo bw with
  | .error halt => .error halt
  | .ok priv =>
    let on := decide (bw ≠ 0)
    let ptype := if on then s.ptype else cpswFifoShpOn s.ptype p fifo false
    let off := cpswShpIsOff ptype p
    let val := rlimitCtl (priv.regs (txInCtl version)) off fifo on
    .ok {
      priv := Function.update s.priv p { priv with
        regs := Function.update priv.regs (txInCtl version) val
        shpCfgSpeed := if off && !on then 0 else priv.shpCfgSpeed }
      ptype := cpswFifoShpOn ptype p fifo on }

/-- What the driver reads of struct tc_cbs_qopt_offload, with the answers of the
other layers: the traffic class of the queue and the number of classes, the
speed of the link if it is up, and the result of pm_runtime_resume_and_get. -/
structure CbsRequest where
  enable : Bool
  idleslope : ℤ
  tc : ℕ
  numTc : ℕ
  phy : Option ℤ
  pm : ℤ

def State.setSpeed (s : State) (p : Port) (speed : ℤ) : State :=
  { s with priv := Function.update s.priv p { s.priv p with shpCfgSpeed := speed } }

/-- prev_speed -/
def prevSpeed (shpCfgSpeed : ℤ) (phy : Option ℤ) : ℤ :=
  match phy with
  | some speed => if shpCfgSpeed ≠ 0 ∧ shpCfgSpeed ≠ speed then shpCfgSpeed else 0
  | none => 0

/-- None where the processor would divide by zero. -/
def cpswSetCbs (version : CpswVersion) (s : State) (p : Port) (req : CbsRequest) :
    Option (State × ℤ) :=
  let fifo := (cpswTcToFifo req.tc req.numTc).toNat
  if cpswTcToFifo req.tc req.numTc = 0 then some (s, -einval)
  else if req.enable = false ∧ (s.priv p).fifoBw fifo = 0 then some (s, 0)
  else
    let prev := prevSpeed (s.priv p).shpCfgSpeed req.phy
    let speed := req.phy.getD (s.priv p).shpCfgSpeed
    let s := s.setSpeed p speed
    if speed = 0 then some (s, -1)
    else if req.pm < 0 then some (s, req.pm)
    else
      let bw := if req.enable then req.idleslope else 0
      match cpswSetFifoRlimit version s p fifo bw with
      | .ok s => some (s, 0)
      | .error (.ret err) => some (s.setSpeed p prev, err)
      | .error .divideByZero => none

structure Op where
  port : Port
  req : CbsRequest

def step (version : CpswVersion) (s : State) (op : Op) : Option State :=
  (cpswSetCbs version s op.port op.req).map Prod.fst

variable {version : CpswVersion} {priv priv' : CpswPriv} {s s' : State} {p q : Port}
  {fifo i : ℕ} {bw : ℤ} {sendPct val ptype : U32} {on off : Bool}

theorem mem_fifos : i ∈ fifos ↔ 1 ≤ i ∧ i ≤ 3 := by
  unfold fifos
  simp only [List.mem_cons, List.not_mem_nil, or_false]
  omega

def rateBit (version : CpswVersion) (priv : CpswPriv) (i : ℕ) : Bool :=
  (priv.regs (txInCtl version)).getLsbD (i + cpswFifoRateEnShift)

def shapeBit (ptype : U32) (p : Port) (i : ℕ) : Bool :=
  ptype.getLsbD (i - 1 + (cpswFifoShapeEnShift + 3 * p.val))

def queueType (version : CpswVersion) (priv : CpswPriv) : U32 :=
  BitField.get (priv.regs (txInCtl version)) cpswFifoQueueTypeShift 2

theorem shapeBit_cpswFifoShpOn (hi : i ∈ fifos) (hfifo : fifo ∈ fifos) :
    shapeBit (cpswFifoShpOn ptype p fifo on) q i =
      if q = p ∧ i = fifo then on else shapeBit ptype q i := by
  rw [mem_fifos] at hi hfifo
  have hp := p.isLt
  have hq := q.isLt
  have hlt : i - 1 + (cpswFifoShapeEnShift + 3 * q.val) < 32 := by
    unfold cpswFifoShapeEnShift
    omega
  have hsame : i - 1 + (cpswFifoShapeEnShift + 3 * q.val) =
      fifo - 1 + (cpswFifoShapeEnShift + 3 * p.val) ↔ q = p ∧ i = fifo := by
    rw [Fin.ext_iff]
    omega
  unfold shapeBit cpswFifoShpOn
  dsimp only
  rw [← BitVec.shiftLeft_add]
  by_cases heq : q = p ∧ i = fifo
  · rw [if_pos heq]
    cases on with
    | true =>
      rw [if_pos rfl, BitField.getLsbD_or_bit hlt, decide_eq_true (hsame.mpr heq), Bool.or_true]
    | false =>
      rw [if_neg (by decide), BitField.getLsbD_and_not_bit hlt,
        decide_eq_false (not_not.mpr (hsame.mpr heq)), Bool.and_false]
  · rw [if_neg heq]
    have hne := mt hsame.mp heq
    cases on with
    | true => simp [BitField.getLsbD_or_bit hlt, hne]
    | false => simp [BitField.getLsbD_and_not_bit hlt, hne]

theorem cpswShpIsOff_iff : cpswShpIsOff ptype p = true ↔
    ∀ i ∈ fifos, shapeBit ptype p i = false := by
  have hp := p.isLt
  have hmask : (7#32 : U32) = BitField.bitMask 32 3 := by decide
  have hfit : cpswFifoShapeEnShift + 3 * p.val + 3 ≤ 32 := by
    unfold cpswFifoShapeEnShift
    omega
  unfold cpswShpIsOff
  dsimp only
  rw [decide_eq_true_iff, hmask, BitField.and_mask_eq_zero_iff (by decide) hfit]
  constructor
  · intro hbits i hi
    rw [mem_fifos] at hi
    unfold shapeBit
    rw [Nat.add_comm]
    exact hbits (i - 1) (by omega)
  · intro hbits i hi
    have hbit := hbits (i + 1) (mem_fifos.mpr (by omega))
    unfold shapeBit at hbit
    rwa [Nat.add_sub_cancel, Nat.add_comm] at hbit

theorem rlimitCtl_rate (hi : i ∈ fifos) :
    (rlimitCtl val off fifo on).getLsbD (i + cpswFifoRateEnShift) =
      if i = fifo then on else val.getLsbD (i + cpswFifoRateEnShift) && !off := by
  have hmask : (0xf#32 : U32) = BitField.bitMask 32 4 := by decide
  have hmask' : (3#32 : U32) = BitField.bitMask 32 2 := by decide
  rw [mem_fifos] at hi
  have hlt : i + 20 < 32 := by omega
  unfold rlimitCtl cpswFifoRateEnShift cpswFifoQueueTypeShift
  dsimp only
  have hbase : ∀ x : U32, (x &&& ~~~(0xf#32 <<< 20) &&& ~~~(3#32 <<< 16)).getLsbD (i + 20) =
      false := by
    intro x
    rw [hmask, hmask', BitField.getLsbD_and_not_mask (by decide) hlt,
      BitField.getLsbD_and_not_mask (by decide) hlt]
    simp
    omega
  have htype : (2#32 <<< 16 : U32).getLsbD (i + 20) = false := by
    rw [BitVec.getLsbD_shiftLeft]
    have hhigh : (2#32 : U32).getLsbD (i + 20 - 16) = false := by
      rw [BitVec.getLsbD_ofNat, Nat.testBit_lt_two_pow]
      · simp
      · exact Nat.lt_of_lt_of_le (by decide : 2 < 2 ^ 4)
          (Nat.pow_le_pow_right (by decide) (by omega))
    rw [hhigh, Bool.and_false]
  cases on with
  | true =>
    rw [if_pos rfl, BitField.getLsbD_or_bit hlt]
    cases off with
    | true =>
      rw [if_pos rfl, if_pos rfl, BitVec.getLsbD_or, hbase, htype]
      simp
    | false => by_cases heq : i = fifo <;> simp [heq]
  | false =>
    rw [if_neg (by decide), BitField.getLsbD_and_not_bit hlt]
    cases off with
    | true =>
      rw [if_pos rfl, if_neg (by decide), hbase]
      simp
    | false => by_cases heq : i = fifo <;> simp [heq]

theorem rlimitCtl_type :
    BitField.get (rlimitCtl val off fifo on) cpswFifoQueueTypeShift 2 =
      if off then (if on then 2 else 0) else BitField.get val cpswFifoQueueTypeShift 2 := by
  have hmask : (0xf#32 : U32) = BitField.bitMask 32 4 := by decide
  have hmask' : (3#32 : U32) = BitField.bitMask 32 2 := by decide
  apply BitVec.eq_of_getLsbD_eq
  intro i hi
  rw [BitField.getLsbD_get (by decide)]
  by_cases hlt : i < 2
  · have hin : cpswFifoQueueTypeShift + i < 32 := by
      unfold cpswFifoQueueTypeShift
      omega
    have hapart : cpswFifoQueueTypeShift + i ≠ fifo + cpswFifoRateEnShift := by
      unfold cpswFifoQueueTypeShift cpswFifoRateEnShift
      omega
    have hbase : ∀ x : U32, (x &&& ~~~(0xf#32 <<< cpswFifoRateEnShift) &&&
        ~~~(3#32 <<< cpswFifoQueueTypeShift)).getLsbD (cpswFifoQueueTypeShift + i) = false := by
      intro x
      rw [hmask', BitField.getLsbD_and_not_mask (by decide) hin]
      simp [hlt]
    have htype : (2#32 <<< cpswFifoQueueTypeShift : U32).getLsbD (cpswFifoQueueTypeShift + i) =
        (2#32).getLsbD i := by
      rw [BitVec.getLsbD_shiftLeft, Nat.add_sub_cancel_left]
      simp [hin]
    rw [decide_eq_true hlt, Bool.and_true]
    unfold rlimitCtl
    dsimp only
    cases on with
    | true =>
      rw [if_pos rfl, BitField.getLsbD_or_bit hin, decide_eq_false hapart, Bool.or_false]
      cases off with
      | true =>
        rw [if_pos rfl, if_pos rfl, if_pos rfl, if_pos rfl, BitVec.getLsbD_or, hbase, htype]
        exact Bool.false_or _
      | false => simp [BitField.getLsbD_get, hlt]
    | false =>
      rw [if_neg (by decide), BitField.getLsbD_and_not_bit hin, decide_eq_true hapart,
        Bool.and_true]
      cases off with
      | true =>
        rw [if_pos rfl, if_neg (by decide), if_pos rfl, if_neg (by decide), hbase]
        exact BitVec.getLsbD_zero.symm
      | false => simp [BitField.getLsbD_get, hlt]
  · have hhigh : (2#32 : U32).getLsbD i = false := by
      rw [BitVec.getLsbD_ofNat, Nat.testBit_lt_two_pow]
      · simp
      · exact Nat.lt_of_lt_of_le (by decide : 2 < 2 ^ 2)
          (Nat.pow_le_pow_right (by decide) (by omega))
    rw [decide_eq_false hlt, Bool.and_false]
    cases off with
    | true =>
      rw [if_pos rfl]
      cases on with
      | true => exact hhigh.symm
      | false => exact BitVec.getLsbD_zero.symm
    | false =>
      rw [if_neg (by decide), BitField.getLsbD_get (by decide), decide_eq_false hlt, Bool.and_false]

def setPct (sendPct : U32) (fifo : ℕ) (val : U32) : U32 :=
  (sendPct &&& ~~~(cpswPctMask <<< pctShift fifo)) ||| (val <<< pctShift fifo)

theorem pctField_eq (sendPct : U32) (i : ℕ) :
    pctField sendPct i = BitField.get sendPct (pctShift i) 7 := by
  have hmask : cpswPctMask = BitField.bitMask 32 7 := by decide
  unfold pctField BitField.get
  rw [hmask]

theorem setPct_eq_put (hval : val.toNat < 128) :
    setPct sendPct fifo val = BitField.put sendPct (pctShift fifo) 7 val := by
  have hmask : cpswPctMask = BitField.bitMask 32 7 := by decide
  unfold setPct BitField.put
  rw [BitField.and_bitMask_of_lt (by decide) hval, hmask]

theorem pctField_setPct (hi : i ∈ fifos) (hfifo : fifo ∈ fifos) (hval : val.toNat < 128) :
    pctField (setPct sendPct fifo val) i = if i = fifo then val else pctField sendPct i := by
  rw [mem_fifos] at hi hfifo
  rw [setPct_eq_put hval, pctField_eq, pctField_eq]
  by_cases heq : i = fifo
  · rw [heq, if_pos rfl, BitField.get_put (by decide) (by unfold pctShift; omega),
      BitField.and_bitMask_of_lt (by decide) hval]
  · have hdisj : pctShift fifo + 7 ≤ pctShift i ∨ pctShift i + 7 ≤ pctShift fifo := by
      unfold pctShift
      omega
    rw [if_neg heq, BitField.get_put_of_disjoint (by decide) (by decide) hdisj]

/-- A percentage of any size leaves the lower FIFOs alone. -/
theorem pctField_setPct_lower (hi : i ∈ fifos) (hlt : i < fifo) (sendPct val : U32) :
    pctField (setPct sendPct fifo val) i = pctField sendPct i := by
  rw [mem_fifos] at hi
  rw [pctField_eq, pctField_eq]
  apply BitVec.eq_of_getLsbD_eq
  intro j hj
  rw [BitField.getLsbD_get (by decide), BitField.getLsbD_get (by decide)]
  by_cases hin : j < 7
  · have hbelow : pctShift i + j < pctShift fifo := by
      unfold pctShift
      omega
    have hword : pctShift i + j < 32 := by
      unfold pctShift
      omega
    unfold setPct
    rw [BitVec.getLsbD_or, BitVec.getLsbD_and, BitVec.getLsbD_not, BitVec.getLsbD_shiftLeft,
      BitVec.getLsbD_shiftLeft]
    simp [hbelow, hword]
  · simp [hin]

/-- What FIFOs n down to 1 take, with a new percentage for one of them. -/
def pctTotal (priv : CpswPriv) (sendPct : U32) (fifo : ℕ) (val : U32) : ℕ → U32
  | 0 => 0
  | n + 1 =>
    (if n + 1 = fifo then val else if priv.fifoBw (n + 1) ≠ 0 then pctField sendPct (n + 1)
      else 0) +
      pctTotal priv sendPct fifo val n

theorem pctTotal_setPct {n : ℕ} (hn : n ≤ 3) (hlt : n < fifo) (sendPct val : U32) :
    pctTotal priv (setPct sendPct fifo val) fifo val n = pctTotal priv sendPct fifo val n := by
  induction n with
  | zero => rfl
  | succ n ih =>
    unfold pctTotal
    rw [pctField_setPct_lower (mem_fifos.mpr (by omega)) hlt, ih (by omega) (by omega)]

theorem fifoLoop_ok_iff (hbw : bw ≠ 0) {n : ℕ} (hn : n ≤ 3) {pct : U32} {r : U32 × U32} :
    fifoLoop priv fifo bw n (sendPct, pct) = .ok r ↔
      (∀ i, fifo < i → i ≤ n → priv.fifoBw i ≠ 0) ∧
      (1 ≤ fifo → fifo ≤ n → priv.shpCfgSpeed ≠ 0) ∧
      r = (if 1 ≤ fifo ∧ fifo ≤ n then setPct sendPct fifo (percentOf priv.shpCfgSpeed bw)
          else sendPct,
        pct + pctTotal priv sendPct fifo (percentOf priv.shpCfgSpeed bw) n) := by
  generalize hval : percentOf priv.shpCfgSpeed bw = val
  induction n generalizing sendPct pct with
  | zero =>
    have hnone : ¬ (1 ≤ fifo ∧ fifo ≤ 0) := by omega
    have hzero : pct + 0 = pct := BitVec.add_zero pct
    unfold fifoLoop pctTotal
    rw [if_neg hnone, Except.ok.injEq, hzero]
    constructor
    · intro heq
      exact ⟨fun i hlt hle => by omega, fun h1 h0 => by omega, heq.symm⟩
    · intro h
      exact h.2.2.symm
  | succ n ih =>
    unfold fifoLoop pctTotal
    rw [if_neg hbw]
    by_cases hupper : priv.fifoBw (n + 1) = 0 ∧ fifo < n + 1
    · rw [if_pos hupper]
      refine iff_of_false (by simp) fun hcon => ?_
      exact hcon.1 (n + 1) hupper.2 le_rfl hupper.1
    rw [if_neg hupper]
    by_cases heq : n + 1 = fifo
    · subst heq
      rw [if_pos rfl, if_pos rfl]
      by_cases hspeed : priv.shpCfgSpeed = 0
      · rw [if_pos (by omega)]
        exact iff_of_false (by simp) fun hcon => hcon.2.1 (by omega) le_rfl hspeed
      rw [if_neg (by omega), hval]
      dsimp only
      have hfold : (sendPct &&& ~~~(cpswPctMask <<< pctShift (n + 1))) |||
          (val <<< pctShift (n + 1)) = setPct sendPct (n + 1) val := rfl
      rw [hfold, ih (by omega), if_neg (by omega), if_pos (by omega),
        pctTotal_setPct (by omega) (by omega), BitVec.add_assoc]
      refine and_congr ⟨fun _ i hlt hle => by omega, fun _ i hlt hle => by omega⟩ ?_
      exact and_congr_left fun _ => ⟨fun _ _ _ => hspeed, fun _ h1 hle => by omega⟩
    rw [if_neg heq, if_neg heq]
    have hstep : ∀ x : U32, fifoLoop priv fifo bw n (sendPct, pct + x) = .ok r ↔
        (∀ i, fifo < i → i ≤ n + 1 → priv.fifoBw i ≠ 0) ∧
        (1 ≤ fifo → fifo ≤ n + 1 → priv.shpCfgSpeed ≠ 0) ∧
        r = (if 1 ≤ fifo ∧ fifo ≤ n + 1 then setPct sendPct fifo val else sendPct,
          pct + (x + pctTotal priv sendPct fifo val n)) := by
      intro x
      rw [ih (by omega), BitVec.add_assoc]
      have hif : (if 1 ≤ fifo ∧ fifo ≤ n then setPct sendPct fifo val else sendPct) =
          if 1 ≤ fifo ∧ fifo ≤ n + 1 then setPct sendPct fifo val else sendPct :=
        if_congr (by omega) rfl rfl
      rw [hif]
      refine and_congr ⟨fun h i hlt hle => ?_, fun h i hlt hle => h i hlt (by omega)⟩
        (and_congr_left fun _ => ⟨fun h h1 hle => h h1 (by omega), fun h h1 hle => h h1 (by omega)⟩)
      rcases Nat.lt_or_ge i (n + 1) with hi | hi
      · exact h i hlt (by omega)
      · obtain rfl : i = n + 1 := by omega
        exact fun hcon => hupper ⟨hcon, hlt⟩
    by_cases hshaped : priv.fifoBw (n + 1) = 0
    · rw [if_neg (not_not.mpr hshaped), if_neg (not_not.mpr hshaped)]
      have hzero : pct + 0 = pct := BitVec.add_zero pct
      rw [← hstep 0, hzero]
    · rw [if_pos hshaped, if_pos hshaped]
      exact hstep _

/-- When a bandwidth is accepted. -/
structure Accepts (priv : CpswPriv) (fifo : ℕ) (bw : ℤ) : Prop where
  fits : bw ≤ priv.shpCfgSpeed * 1000
  upper : ∀ i ∈ fifos, fifo < i → priv.fifoBw i ≠ 0
  known : priv.shpCfgSpeed ≠ 0
  total : (pctTotal priv (priv.regs sendPercent) fifo (percentOf priv.shpCfgSpeed bw) 3).toInt < 100

def withBw (priv : CpswPriv) (fifo : ℕ) (bw : ℤ) : CpswPriv :=
  { priv with
    regs := Function.update priv.regs sendPercent
      (setPct (priv.regs sendPercent) fifo (percentOf priv.shpCfgSpeed bw))
    fifoBw := Function.update priv.fifoBw fifo bw }

theorem cpswSetFifoBw_ok_iff (hfifo : fifo ∈ fifos) (hbw : bw ≠ 0) :
    cpswSetFifoBw priv fifo bw = .ok priv' ↔
      Accepts priv fifo bw ∧ priv' = withBw priv fifo bw := by
  have hmem := mem_fifos.mp hfifo
  have hloop : ∀ r, fifoLoop priv fifo bw cpswFifoShapersNum (priv.regs sendPercent, 0) =
      .ok r ↔ _ :=
    fun r => fifoLoop_ok_iff hbw (le_refl 3)
  have hsum : ∀ x : U32, 0 + x = x := BitVec.zero_add
  simp only [hmem, and_self, if_true, hsum, forall_const] at hloop
  unfold cpswSetFifoBw
  by_cases hfits : priv.shpCfgSpeed * 1000 < bw
  · rw [if_pos hfits]
    exact iff_of_false (by simp) fun hcon => absurd hcon.1.fits (by omega)
  rw [if_neg hfits]
  cases hr : fifoLoop priv fifo bw cpswFifoShapersNum (priv.regs sendPercent, 0) with
  | error halt =>
    dsimp only
    refine iff_of_false (by simp) fun hcon => ?_
    have hok := (hloop (_, _)).mpr ⟨fun i hlt hle => hcon.1.upper i (mem_fifos.mpr (by omega)) hlt,
      hcon.1.known, rfl⟩
    rw [hr] at hok
    cases hok
  | ok r =>
    obtain ⟨hupper, hknown, rfl⟩ := (hloop r).mp hr
    dsimp only
    split
    · rename_i htotal
      exact iff_of_false (by simp) fun hcon => absurd hcon.1.total (by omega)
    · rename_i htotal
      rw [Except.ok.injEq]
      constructor
      · intro heq
        refine ⟨⟨by omega, fun i hi hlt => ?_, hknown, by omega⟩, heq.symm⟩
        exact hupper i hlt (mem_fifos.mp hi).2
      · intro h
        exact h.2.symm

theorem fifoLoop_zero (n : ℕ) (acc : U32 × U32) : fifoLoop priv fifo 0 n acc = .ok acc := by
  induction n with
  | zero => rfl
  | succ n ih =>
    unfold fifoLoop
    rw [if_pos rfl]
    exact ih

theorem cpswSetFifoBw_zero (priv : CpswPriv) (fifo : ℕ) : cpswSetFifoBw priv fifo 0 =
    if priv.shpCfgSpeed * 1000 < 0 then .error (.ret (-einval))
    else .ok { priv with fifoBw := Function.update priv.fifoBw fifo 0 } := by
  unfold cpswSetFifoBw
  rw [fifoLoop_zero]
  dsimp only
  rw [if_neg (by decide : ¬ 100 ≤ (0 : U32).toInt), Function.update_eq_self]

theorem txInCtl_ne (version : CpswVersion) : sendPercent ≠ txInCtl version := by
  cases version <;> decide

/-- What a request that goes through leaves. The last argument says whether the port
has no shaped FIFO, apart from the one that is set up. -/
structure Rlimited (version : CpswVersion) (s : State) (p : Port) (fifo : ℕ) (bw : ℤ) (s' : State)
    (off : Bool) : Prop where
  off_iff : off = true ↔ ∀ i ∈ fifos, bw = 0 ∧ i = fifo ∨ shapeBit s.ptype p i = false
  other : ∀ q, q ≠ p → s'.priv q = s.priv q
  shape : ∀ q, ∀ i ∈ fifos, shapeBit s'.ptype q i =
    if q = p ∧ i = fifo then decide (bw ≠ 0) else shapeBit s.ptype q i
  fifoBw : (s'.priv p).fifoBw = Function.update (s.priv p).fifoBw fifo bw
  rate : ∀ i ∈ fifos, rateBit version (s'.priv p) i =
    if i = fifo then decide (bw ≠ 0) else rateBit version (s.priv p) i && !off
  type : queueType version (s'.priv p) =
    if off then (if bw ≠ 0 then 2 else 0) else queueType version (s.priv p)
  percent : (s'.priv p).regs sendPercent =
    if bw = 0 then (s.priv p).regs sendPercent
    else setPct ((s.priv p).regs sendPercent) fifo (percentOf (s.priv p).shpCfgSpeed bw)
  speed : bw ≠ 0 → (s'.priv p).shpCfgSpeed = (s.priv p).shpCfgSpeed

/-- A bandwidth that is set leaves the registers of the port but SEND_PERCENT. -/
theorem cpswSetFifoBw_ok (hfifo : fifo ∈ fifos) (h : cpswSetFifoBw priv fifo bw = .ok priv') :
    priv'.fifoBw = Function.update priv.fifoBw fifo bw ∧
    priv'.shpCfgSpeed = priv.shpCfgSpeed ∧
    priv'.regs (txInCtl version) = priv.regs (txInCtl version) ∧
    priv'.regs sendPercent = if bw = 0 then priv.regs sendPercent
      else setPct (priv.regs sendPercent) fifo (percentOf priv.shpCfgSpeed bw) := by
  by_cases hbw : bw = 0
  · subst hbw
    rw [cpswSetFifoBw_zero] at h
    split at h
    · cases h
    obtain rfl := Except.ok.inj h
    exact ⟨rfl, rfl, rfl, (if_pos rfl).symm⟩
  · obtain ⟨-, rfl⟩ := (cpswSetFifoBw_ok_iff hfifo hbw).mp h
    refine ⟨rfl, rfl, Function.update_of_ne (txInCtl_ne version).symm _ _, ?_⟩
    rw [if_neg hbw]
    dsimp only [withBw]
    rw [Function.update_self]

theorem cpswSetFifoRlimit_ok (hfifo : fifo ∈ fifos)
    (h : cpswSetFifoRlimit version s p fifo bw = .ok s') :
    ∃ off, Rlimited version s p fifo bw s' off := by
  unfold cpswSetFifoRlimit at h
  cases hset : cpswSetFifoBw (s.priv p) fifo bw with
  | error halt =>
    rw [hset] at h
    cases h
  | ok priv =>
    rw [hset] at h
    dsimp only at h
    obtain ⟨hbws, hspeed, hctl, hpct⟩ : _ ∧ _ ∧ priv.regs (txInCtl version) = _ ∧ _ :=
      cpswSetFifoBw_ok hfifo hset
    have hshape : ∀ i ∈ fifos,
        shapeBit (if decide (bw ≠ 0) then s.ptype else cpswFifoShpOn s.ptype p fifo false) p i =
          if bw = 0 ∧ i = fifo then false else shapeBit s.ptype p i := by
      intro i hi
      by_cases hbw : bw = 0
      · simp [hbw, shapeBit_cpswFifoShpOn hi hfifo]
      · simp [hbw]
    have hshape' : ∀ q, ∀ i ∈ fifos, shapeBit (cpswFifoShpOn
        (if decide (bw ≠ 0) then s.ptype else cpswFifoShpOn s.ptype p fifo false) p fifo
        (decide (bw ≠ 0))) q i =
          if q = p ∧ i = fifo then decide (bw ≠ 0) else shapeBit s.ptype q i := by
      intro q i hi
      rw [shapeBit_cpswFifoShpOn hi hfifo]
      by_cases heq : q = p ∧ i = fifo
      · rw [if_pos heq, if_pos heq]
      · rw [if_neg heq, if_neg heq]
        by_cases hbw : bw = 0
        · simp [hbw, shapeBit_cpswFifoShpOn hi hfifo, heq]
        · simp [hbw]
    generalize (if decide (bw ≠ 0) then s.ptype else cpswFifoShpOn s.ptype p fifo false) = ptype
      at h hshape hshape'
    obtain rfl := Except.ok.inj h
    refine ⟨cpswShpIsOff ptype p, ?_, fun q hq => Function.update_of_ne hq _ _, hshape', ?_, ?_, ?_,
      ?_, ?_⟩
    · rw [cpswShpIsOff_iff]
      refine forall_congr' fun i => imp_congr_right fun hi => ?_
      rw [hshape i hi]
      by_cases heq : bw = 0 ∧ i = fifo
      · simp [heq]
      · rw [if_neg heq, or_iff_right heq]
    · dsimp only
      rw [Function.update_self]
      exact hbws
    · intro i hi
      unfold rateBit
      dsimp only
      rw [Function.update_self]
      dsimp only
      rw [Function.update_self, rlimitCtl_rate hi, hctl]
    · unfold queueType
      dsimp only
      rw [Function.update_self]
      dsimp only
      rw [Function.update_self, rlimitCtl_type, hctl]
      simp
    · dsimp only
      rw [Function.update_self]
      dsimp only
      rw [Function.update_of_ne (txInCtl_ne version)]
      exact hpct
    · intro hbw
      dsimp only
      rw [Function.update_self]
      dsimp only
      rw [decide_eq_true hbw, Bool.not_true, Bool.and_false, if_neg (by decide)]
      exact hspeed

/-- The queue is mapped to a traffic class; without classes all queues are in class 0. -/
def Mapped (req : CbsRequest) : Prop :=
  req.numTc ≤ cpswTcNum ∧ (req.tc < req.numTc ∨ req.numTc = 0 ∧ req.tc = 0)

instance (req : CbsRequest) : Decidable (Mapped req) := inferInstanceAs (Decidable (_ ∧ _))

theorem Mapped.fifo_mem {req : CbsRequest} (h : Mapped req)
    (hne : cpswTcToFifo req.tc req.numTc ≠ 0) : (cpswTcToFifo req.tc req.numTc).toNat ∈ fifos := by
  have hshapers : (cpswFifoShapersNum : ℤ) = 3 := rfl
  have hfour : cpswTcNum = 4 := rfl
  obtain ⟨hle, hclass⟩ := h
  rw [mem_fifos]
  unfold cpswTcToFifo at hne ⊢
  split at hne
  · exact absurd rfl hne
  · rename_i hlast
    rw [if_neg hlast]
    omega

theorem setSpeed_self (s : State) (p : Port) : s.setSpeed p (s.priv p).shpCfgSpeed = s := by
  unfold State.setSpeed
  rw [Function.update_eq_self]

theorem setSpeed_setSpeed (s : State) (p : Port) (speed speed' : ℤ) :
    (s.setSpeed p speed).setSpeed p speed' = s.setSpeed p speed' := by
  unfold State.setSpeed
  dsimp only
  rw [Function.update_self, Function.update_idem]

/-- A request changes the recorded speed alone, or sets up a FIFO. -/
theorem cpswSetCbs_cases {req : CbsRequest} {ret : ℤ} (hmapped : Mapped req)
    (h : cpswSetCbs version s p req = some (s', ret)) :
    (∃ speed, s' = s.setSpeed p speed) ∨
    ∃ fifo ∈ fifos, ∃ speed, cpswSetFifoRlimit version (s.setSpeed p speed) p fifo
      (if req.enable then req.idleslope else 0) = .ok s' := by
  have hself : ∃ speed, s = s.setSpeed p speed := ⟨_, (setSpeed_self s p).symm⟩
  unfold cpswSetCbs at h
  dsimp only at h
  split at h
  · obtain ⟨rfl, -⟩ := Prod.mk.inj (Option.some.inj h)
    exact .inl hself
  rename_i hne
  split at h
  · obtain ⟨rfl, -⟩ := Prod.mk.inj (Option.some.inj h)
    exact .inl hself
  split at h
  · obtain ⟨rfl, -⟩ := Prod.mk.inj (Option.some.inj h)
    exact .inl ⟨_, rfl⟩
  split at h
  · obtain ⟨rfl, -⟩ := Prod.mk.inj (Option.some.inj h)
    exact .inl ⟨_, rfl⟩
  split at h
  · rename_i hset
    obtain ⟨rfl, -⟩ := Prod.mk.inj (Option.some.inj h)
    exact .inr ⟨_, hmapped.fifo_mem hne, _, hset⟩
  · obtain ⟨rfl, -⟩ := Prod.mk.inj (Option.some.inj h)
    rw [setSpeed_setSpeed]
    exact .inl ⟨_, rfl⟩
  · cases h

/-- The bits of a port say which FIFOs have a bandwidth. -/
structure Bits (version : CpswVersion) (priv : CpswPriv) (ptype : U32) (p : Port) : Prop where
  rate : ∀ i ∈ fifos, rateBit version priv i = decide (priv.fifoBw i ≠ 0)
  shape : ∀ i ∈ fifos, shapeBit ptype p i = decide (priv.fifoBw i ≠ 0)
  type : queueType version priv = 2 ↔ ∃ i ∈ fifos, priv.fifoBw i ≠ 0

theorem Bits.congr {ptype' : U32} (h : Bits version priv ptype p)
    (hbw : priv'.fifoBw = priv.fifoBw) (hregs : priv'.regs = priv.regs)
    (hshape : ∀ i ∈ fifos, shapeBit ptype' p i = shapeBit ptype p i) :
    Bits version priv' ptype' p := by
  refine ⟨fun i hi => ?_, fun i hi => ?_, ?_⟩
  · unfold rateBit
    rw [hbw, hregs]
    exact h.rate i hi
  · rw [hshape i hi, hbw, h.shape i hi]
  · unfold queueType
    rw [hbw, hregs]
    exact h.type

theorem Bits.rlimit (h : ∀ q, Bits version (s.priv q) s.ptype q) (hfifo : fifo ∈ fifos)
    (hset : cpswSetFifoRlimit version s p fifo bw = .ok s') (q : Port) :
    Bits version (s'.priv q) s'.ptype q := by
  obtain ⟨off, hr⟩ := cpswSetFifoRlimit_ok hfifo hset
  by_cases hq : q = p
  swap
  · refine (h q).congr (by rw [hr.other q hq]) (by rw [hr.other q hq]) fun i hi => ?_
    rw [hr.shape q i hi, if_neg fun hcon => hq hcon.1]
  subst hq
  have hother : ∀ i ∈ fifos, off = true → i ≠ fifo → (s.priv q).fifoBw i = 0 := by
    intro i hi hoff hne
    rcases hr.off_iff.mp hoff i hi with hcon | hfalse
    · exact absurd hcon.2 hne
    · rw [(h q).shape i hi] at hfalse
      exact not_not.mp (of_decide_eq_false hfalse)
  refine ⟨fun i hi => ?_, fun i hi => ?_, ?_⟩
  · rw [hr.rate i hi, hr.fifoBw]
    by_cases heq : i = fifo
    · rw [if_pos heq, heq, Function.update_self]
    · rw [if_neg heq, Function.update_of_ne heq, (h q).rate i hi]
      cases hoff : off with
      | false => simp
      | true => simp [hother i hi hoff heq]
  · rw [hr.shape q i hi, hr.fifoBw]
    by_cases heq : i = fifo
    · rw [if_pos ⟨rfl, heq⟩, heq, Function.update_self]
    · rw [if_neg fun hcon => heq hcon.2, Function.update_of_ne heq, (h q).shape i hi]
  · rw [hr.type, hr.fifoBw]
    cases hoff : off with
    | true =>
      rw [if_pos rfl]
      by_cases hbw : bw = 0
      · rw [if_neg (not_not.mpr hbw)]
        refine iff_of_false (by decide) ?_
        rintro ⟨i, hi, hne⟩
        by_cases heq : i = fifo
        · rw [heq, Function.update_self] at hne
          exact hne hbw
        · rw [Function.update_of_ne heq] at hne
          exact hne (hother i hi hoff heq)
      · rw [if_pos hbw]
        refine iff_of_true rfl ⟨fifo, hfifo, ?_⟩
        rwa [Function.update_self]
    | false =>
      have hsome : ∃ i ∈ fifos, ¬ (bw = 0 ∧ i = fifo) ∧ (s.priv q).fifoBw i ≠ 0 := by
        by_contra hnone
        have htrue : off = true := by
          rw [hr.off_iff]
          intro i hi
          by_contra hcon
          rw [not_or] at hcon
          refine hnone ⟨i, hi, hcon.1, fun hzero => hcon.2 ?_⟩
          rw [(h q).shape i hi, hzero]
          rfl
        rw [hoff] at htrue
        cases htrue
      obtain ⟨i, hi, hkeep, hne⟩ := hsome
      rw [if_neg (by decide)]
      refine iff_of_true ((h q).type.mpr ⟨i, hi, hne⟩) ⟨i, hi, ?_⟩
      by_cases heq : i = fifo
      · rw [heq, Function.update_self]
        exact fun hbw => hkeep ⟨hbw, heq⟩
      · rwa [Function.update_of_ne heq]

def shapedPct (priv : CpswPriv) : ℕ :=
  (fifos.map fun i =>
    if priv.fifoBw i ≠ 0 then (pctField (priv.regs sendPercent) i).toNat else 0).sum

/-- The stored bandwidths and the registers agree. -/
structure Coherent (version : CpswVersion) (s : State) : Prop where
  percent : ∀ p, shapedPct (s.priv p) < 100
  rate : ∀ p, ∀ i ∈ fifos, rateBit version (s.priv p) i = true ↔ (s.priv p).fifoBw i ≠ 0
  shape : ∀ p, ∀ i ∈ fifos, shapeBit s.ptype p i = true ↔ (s.priv p).fifoBw i ≠ 0
  type : ∀ p, queueType version (s.priv p) = 2 ↔ ∃ i ∈ fifos, (s.priv p).fifoBw i ≠ 0

theorem pctField_lt (sendPct : U32) (i : ℕ) : (pctField sendPct i).toNat < 128 := by
  rw [pctField_eq]
  exact BitField.get_lt (by decide) sendPct

/-- A bandwidth that the link has is a percentage of it. -/
theorem percentOf_le {speed : ℤ} (hpos : 0 < bw) (hfits : bw ≤ speed * 1000) :
    (percentOf speed bw).toNat ≤ 100 := by
  have hspeed : 0 < speed := by omega
  have hnonneg : 0 ≤ bw + speed * 10 - 1 := by omega
  have hdiv : divRoundUp bw (speed * 10) = (bw + speed * 10 - 1) / (speed * 10) := by
    unfold divRoundUp
    exact Int.tdiv_eq_ediv_of_nonneg hnonneg
  have hlow : 0 ≤ divRoundUp bw (speed * 10) := by
    rw [hdiv]
    exact Int.ediv_nonneg hnonneg (by omega)
  have hup : divRoundUp bw (speed * 10) < 101 := by
    rw [hdiv]
    apply Int.ediv_lt_of_lt_mul (by omega)
    omega
  obtain ⟨n, hn⟩ := Int.eq_ofNat_of_zero_le hlow
  unfold percentOf
  rw [hn, BitVec.ofInt_natCast]
  dsimp only
  split
  · decide
  · rw [BitVec.toNat_ofNat]
    have hle := Nat.mod_le n (2 ^ 32)
    omega

theorem toNat_pctTotal (priv : CpswPriv) (sendPct : U32) (hval : val.toNat ≤ 100) (fifo : ℕ) :
    (pctTotal priv sendPct fifo val 3).toNat = (fifos.map fun i =>
      if i = fifo then val.toNat
      else if priv.fifoBw i ≠ 0 then (pctField sendPct i).toNat else 0).sum ∧
    (pctTotal priv sendPct fifo val 3).toNat < 2 ^ 31 := by
  have hterm : ∀ i, ∃ x : U32, x = (if i = fifo then val
      else if priv.fifoBw i ≠ 0 then pctField sendPct i else 0) ∧ x.toNat < 128 ∧
      x.toNat = if i = fifo then val.toNat
        else if priv.fifoBw i ≠ 0 then (pctField sendPct i).toNat else 0 := by
    intro i
    refine ⟨_, rfl, ?_⟩
    have hlt := pctField_lt sendPct i
    split
    · omega
    split
    · exact ⟨hlt, rfl⟩
    · exact ⟨by decide, rfl⟩
  obtain ⟨x, hx, hxlt, hxval⟩ := hterm 3
  obtain ⟨y, hy, hylt, hyval⟩ := hterm 2
  obtain ⟨z, hz, hzlt, hzval⟩ := hterm 1
  have htotal : pctTotal priv sendPct fifo val 3 = x + (y + (z + 0)) := by
    rw [hx, hy, hz]
    rfl
  have hsum : (pctTotal priv sendPct fifo val 3).toNat = x.toNat + (y.toNat + z.toNat) := by
    have hz0 : z + 0 = z := BitVec.add_zero z
    rw [htotal, hz0, BitVec.toNat_add, BitVec.toNat_add]
    omega
  refine ⟨?_, by omega⟩
  rw [hsum, hxval, hyval, hzval]
  rfl

/-- A bandwidth that is accepted fits beside the other ones. -/
theorem Accepts.shapedPct_lt (h : Accepts priv fifo bw) (hfifo : fifo ∈ fifos) (hpos : 0 < bw)
    (hbws : priv'.fifoBw = Function.update priv.fifoBw fifo bw)
    (hregs : priv'.regs sendPercent =
      setPct (priv.regs sendPercent) fifo (percentOf priv.shpCfgSpeed bw)) :
    shapedPct priv' < 100 := by
  have hval := percentOf_le hpos h.fits
  obtain ⟨hsum, hlt⟩ := toNat_pctTotal priv (priv.regs sendPercent) hval fifo
  have hint := h.total
  rw [BitVec.toInt_eq_toNat_of_lt (by omega)] at hint
  have hshaped : shapedPct priv' = (fifos.map fun i =>
      if i = fifo then (percentOf priv.shpCfgSpeed bw).toNat
      else if priv.fifoBw i ≠ 0 then (pctField (priv.regs sendPercent) i).toNat else 0).sum := by
    unfold shapedPct
    refine congrArg List.sum (List.map_congr_left fun i hi => ?_)
    rw [hbws, hregs, pctField_setPct hi hfifo (by omega)]
    by_cases heq : i = fifo
    · rw [heq, Function.update_self, if_pos (by omega), if_pos rfl, if_pos rfl]
    · rw [Function.update_of_ne heq, if_neg heq, if_neg heq]
  rw [hshaped, ← hsum]
  omega

theorem shapedPct_le (hbws : priv'.fifoBw = Function.update priv.fifoBw fifo 0)
    (hregs : priv'.regs sendPercent = priv.regs sendPercent) :
    shapedPct priv' ≤ shapedPct priv := by
  have hterm : ∀ i, (if Function.update priv.fifoBw fifo 0 i ≠ 0 then
      (pctField (priv.regs sendPercent) i).toNat else 0) ≤
        if priv.fifoBw i ≠ 0 then (pctField (priv.regs sendPercent) i).toNat else 0 := by
    intro i
    by_cases heq : i = fifo
    · rw [heq, Function.update_self, if_neg (not_not.mpr rfl)]
      exact Nat.zero_le _
    · rw [Function.update_of_ne heq]
  unfold shapedPct
  rw [hbws, hregs]
  exact Nat.add_le_add (hterm 3) (Nat.add_le_add (hterm 2) (Nat.add_le_add (hterm 1) le_rfl))

theorem cpswSetFifoRlimit_accepts (hfifo : fifo ∈ fifos) (hbw : bw ≠ 0)
    (h : cpswSetFifoRlimit version s p fifo bw = .ok s') : Accepts (s.priv p) fifo bw := by
  unfold cpswSetFifoRlimit at h
  cases hset : cpswSetFifoBw (s.priv p) fifo bw with
  | error halt =>
    rw [hset] at h
    cases h
  | ok priv => exact ((cpswSetFifoBw_ok_iff hfifo hbw).mp hset).1

/-- The requests of a run: the bandwidths are not negative. -/
def Allowed (_ : State) (op : Op) : Prop := Mapped op.req ∧ 0 ≤ op.req.idleslope

instance (s : State) (op : Op) : Decidable (Allowed s op) := inferInstanceAs (Decidable (_ ∧ _))

def Inv (version : CpswVersion) (s : State) : Prop :=
  ∀ p, Bits version (s.priv p) s.ptype p ∧ shapedPct (s.priv p) < 100

theorem Inv.setSpeed (h : Inv version s) (p : Port) (speed : ℤ) :
    Inv version (s.setSpeed p speed) := by
  intro q
  unfold State.setSpeed
  dsimp only
  by_cases hq : q = p
  · rw [hq, Function.update_self]
    exact ⟨(h p).1.congr rfl rfl fun _ _ => rfl, (h p).2⟩
  · rw [Function.update_of_ne hq]
    exact h q

theorem Inv.rlimit (h : Inv version s) (hfifo : fifo ∈ fifos) (hbw : 0 ≤ bw)
    (hset : cpswSetFifoRlimit version s p fifo bw = .ok s') : Inv version s' := by
  intro q
  refine ⟨Bits.rlimit (fun q => (h q).1) hfifo hset q, ?_⟩
  obtain ⟨off, hr⟩ := cpswSetFifoRlimit_ok hfifo hset
  by_cases hq : q = p
  swap
  · rw [hr.other q hq]
    exact (h q).2
  subst hq
  have hpct := hr.percent
  by_cases hzero : bw = 0
  · rw [if_pos hzero] at hpct
    have hle : shapedPct (s'.priv q) ≤ shapedPct (s.priv q) :=
      shapedPct_le (by rw [hr.fifoBw, hzero]) hpct
    exact Nat.lt_of_le_of_lt hle (h q).2
  · rw [if_neg hzero] at hpct
    exact (cpswSetFifoRlimit_accepts hfifo hzero hset).shapedPct_lt hfifo (by omega) hr.fifoBw hpct

theorem Inv.step {op : Op} (h : Inv version s) (hallowed : Allowed s op)
    (hst : Cbs.step version s op = some s') : Inv version s' := by
  unfold Cbs.step at hst
  obtain ⟨⟨s₁, ret⟩, hset, rfl⟩ := Option.map_eq_some_iff.mp hst
  rcases cpswSetCbs_cases hallowed.1 hset with ⟨speed, rfl⟩ | ⟨fifo, hfifo, speed, hlimit⟩
  · exact h.setSpeed op.port speed
  · refine (h.setSpeed op.port speed).rlimit hfifo ?_ hlimit
    split
    · exact hallowed.2
    · exact le_rfl

/-- A request leaves the other port alone. -/
def OtherPortKept (version : CpswVersion) (s : State) : Prop :=
  ∀ op s', Mapped op.req → step version s op = some s' → ∀ q, q ≠ op.port →
    s'.priv q = s.priv q ∧ ∀ i ∈ fifos, shapeBit s'.ptype q i = shapeBit s.ptype q i

theorem otherPortKept (version : CpswVersion) (s : State) : OtherPortKept version s := by
  intro op s' hmapped hst q hq
  unfold step at hst
  obtain ⟨⟨s₁, ret⟩, hset, rfl⟩ := Option.map_eq_some_iff.mp hst
  have hspeed : ∀ speed, (s.setSpeed op.port speed).priv q = s.priv q := by
    intro speed
    unfold State.setSpeed
    exact Function.update_of_ne hq _ _
  rcases cpswSetCbs_cases hmapped hset with ⟨speed, rfl⟩ | ⟨fifo, hfifo, speed, hlimit⟩
  · exact ⟨hspeed speed, fun _ _ => rfl⟩
  · obtain ⟨off, hr⟩ := cpswSetFifoRlimit_ok hfifo hlimit
    refine ⟨by rw [hr.other q hq, hspeed], fun i hi => ?_⟩
    rw [hr.shape q i hi, if_neg fun hcon => hq hcon.1]
    rfl

/-- Nothing is shaped on either port. -/
structure Initial (version : CpswVersion) (s : State) : Prop where
  fifoBw : ∀ p i, (s.priv p).fifoBw i = 0
  rate : ∀ p, ∀ i ∈ fifos, rateBit version (s.priv p) i = false
  shape : ∀ p, ∀ i ∈ fifos, shapeBit s.ptype p i = false
  type : ∀ p, queueType version (s.priv p) ≠ 2

theorem Initial.bits (h : Initial version s) (p : Port) :
    Bits version (s.priv p) s.ptype p := by
  refine ⟨fun i hi => ?_, fun i hi => ?_, iff_of_false (h.type p) ?_⟩
  · simp [h.rate p i hi, h.fifoBw]
  · simp [h.shape p i hi, h.fifoBw]
  · rintro ⟨i, -, hne⟩
    exact hne (h.fifoBw p i)

theorem Initial.inv (h : Initial version s) : Inv version s := by
  intro p
  refine ⟨h.bits p, ?_⟩
  have hzero : shapedPct (s.priv p) = 0 := by
    unfold shapedPct
    simp [h.fifoBw]
  omega

/-- The state of the shapers is coherent in every run, and no request touches the
other port. -/
theorem coherent_of_run (hinit : Initial version s) {ops : List Op}
    (hrun : Run (step version) Allowed s ops s') :
    Coherent version s' ∧ OtherPortKept version s' := by
  have hinv : Inv version s' := hrun.invariant (fun _ _ _ h hok hst => h.step hok hst) hinit.inv
  refine ⟨⟨fun p => (hinv p).2, fun p i hi => ?_, fun p i hi => ?_, fun p => (hinv p).1.type⟩,
    otherPortKept version s'⟩
  · rw [(hinv p).1.rate i hi, decide_eq_true_iff]
  · rw [(hinv p).1.shape i hi, decide_eq_true_iff]

def boot : State := ⟨fun _ => ⟨fun _ => 0, 0, fun _ => 0⟩, 0⟩

theorem initial_boot : Initial version boot := by
  refine ⟨fun _ _ => rfl, fun _ _ _ => BitVec.getLsbD_zero, fun _ _ _ => BitVec.getLsbD_zero,
    fun _ => ?_⟩
  have htype : BitField.get (0 : U32) cpswFifoQueueTypeShift 2 ≠ 2 := by decide
  exact htype

/-- A request for a traffic class of four on a gigabit link. -/
def gigabit (tc : ℕ) (idleslope : ℤ) : CbsRequest := ⟨true, idleslope, tc, 4, some 1000, 0⟩

/-- Two FIFOs of one port are shaped, at 20 and 30 percent. -/
theorem coherent_with_two_shapers : ∃ s', Run (step .v2) Allowed boot
    [⟨0, gigabit 0 200000⟩, ⟨0, gigabit 1 300000⟩] s' ∧ shapedPct (s'.priv 0) = 50 ∧
    Coherent .v2 s' ∧ OtherPortKept .v2 s' := by
  have hexec : (exec (step .v2) Allowed boot [⟨0, gigabit 0 200000⟩, ⟨0, gigabit 1 300000⟩]).any
      (fun s' => shapedPct (s'.priv 0) = 50) = true := by decide +kernel
  obtain ⟨s', hrun, hpct⟩ := exists_run_of_any hexec
  exact ⟨s', hrun, of_decide_eq_true hpct, coherent_of_run initial_boot hrun⟩

end CpswDriver.Cbs
