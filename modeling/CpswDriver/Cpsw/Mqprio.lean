import CpswDriver.Cpsw.Slaves
import CpswDriver.Lib.Runs
import Mathlib.Data.List.FinRange

/-!
The priority map of a port. A nibble for each packet priority names the FIFO it
is sent from. The map is programmed when traffic classes are set up, and from
what the network core stored when the port comes up again.
-/

namespace CpswDriver.Mqprio

open Runs

inductive MqprioMode
  | dcb
  | channel
  deriving DecidableEq, Repr

/-- What the driver reads of struct tc_mqprio_qopt_offload. -/
structure TcMqprioQopt where
  mode : MqprioMode
  numTc : ℕ
  prioTcMap : Fin 8 → ℕ
  hw : Bool

def txPriorityMapping : U32 := 0x33221100

/-- tx_prio_map |= fifo << (4 * i) for all priorities -/
def txPrioMap (fifo : Fin 8 → ℤ) : U32 :=
  (List.finRange 8).foldl (fun map i => map ||| (BitVec.ofInt 32 (fifo i) <<< (4 * i.val))) 0

/-- A port: its registers, what the driver and the network core store, and, as a
book, the last configuration that was accepted with the value it wrote. -/
structure State where
  regs : SlaveRegs
  mqprioHw : Bool
  prioTcMap : Fin 8 → ℕ
  last : Option (TcMqprioQopt × U32)

def setValue (qopt : TcMqprioQopt) : U32 :=
  let map :=
    if qopt.numTc ≠ 0 then txPrioMap fun i => cpswTcToFifo (qopt.prioTcMap i) qopt.numTc else 0
  if !qopt.hw then txPriorityMapping else map

/-- The core stores the map of a configuration that is accepted. -/
def cpswSetMqprio (version : CpswVersion) (s : State) (qopt : TcMqprioQopt) (pm : ℤ) : State × ℤ :=
  if cpswTcNum < qopt.numTc then (s, -einval)
  else if qopt.mode ≠ .dcb then (s, -einval)
  else if pm < 0 then (s, pm)
  else
    ({ regs := Function.update s.regs (txPriMapReg version) (setValue qopt)
       mqprioHw := qopt.hw
       prioTcMap := qopt.prioTcMap
       last := some (qopt, setValue qopt) }, 0)

def cpswMqprioResume (version : CpswVersion) (s : State) : State :=
  if !s.mqprioHw then s
  else
    let map := txPrioMap fun i => cpswFifoShapersNum - s.prioTcMap i
    { s with regs := Function.update s.regs (txPriMapReg version) map }

/-- What cpsw_slave_open does to the map. -/
def cpswSlaveOpen (version : CpswVersion) (s : State) : State :=
  { s with regs := Function.update s.regs (txPriMapReg version) txPriorityMapping }

inductive Op
  | setMqprio (qopt : TcMqprioQopt) (pm : ℤ)
  /-- The port is stopped, and its registers may lose what they hold. -/
  | stop (regs : SlaveRegs)
  | slaveOpen

def step (version : CpswVersion) (s : State) : Op → Option State
  | .setMqprio qopt pm => some (cpswSetMqprio version s qopt pm).1
  | .stop regs => some { s with regs := regs }
  | .slaveOpen => some (cpswMqprioResume version (cpswSlaveOpen version s))

/-- The priorities of an offloaded configuration are mapped to its classes. -/
def WellFormed : Op → Prop
  | .setMqprio qopt _ => qopt.hw = true → ∀ i, qopt.prioTcMap i < qopt.numTc
  | .stop _ | .slaveOpen => True

variable {version : CpswVersion} {s s' s'' : State} {qopt : TcMqprioQopt}

theorem getLsbD_ofInt {n : ℤ} (hlo : 0 ≤ n) (hup : n < 16) {j : ℕ} (hj : 4 ≤ j) :
    (BitVec.ofInt 32 n).getLsbD j = false := by
  obtain ⟨k, rfl⟩ := Int.eq_ofNat_of_zero_le hlo
  rw [BitVec.ofInt_natCast, BitVec.getLsbD_ofNat]
  have hpow : 2 ^ 4 ≤ 2 ^ j := Nat.pow_le_pow_right (by decide) hj
  rw [Nat.testBit_lt_two_pow (by omega), Bool.and_false]

theorem getLsbD_foldl (fifo : Fin 8 → ℤ) (l : List (Fin 8)) (map : U32) (j : ℕ) :
    (l.foldl (fun map i => map ||| (BitVec.ofInt 32 (fifo i) <<< (4 * i.val))) map).getLsbD j =
      (map.getLsbD j || l.any fun i =>
        decide (j < 32) && !decide (j < 4 * i.val) &&
          (BitVec.ofInt 32 (fifo i)).getLsbD (j - 4 * i.val)) := by
  induction l generalizing map with
  | nil => simp
  | cons i l ih =>
    rw [List.foldl_cons, ih, BitVec.getLsbD_or, BitVec.getLsbD_shiftLeft, List.any_cons,
      Bool.or_assoc]

theorem getLsbD_txPrioMap {fifo : Fin 8 → ℤ} (hfifo : ∀ i, 0 ≤ fifo i ∧ fifo i < 16) (i : Fin 8)
    {j : ℕ} (hj : j < 4) :
    (txPrioMap fifo).getLsbD (4 * i.val + j) = (BitVec.ofInt 32 (fifo i)).getLsbD j := by
  have hzero : (0 : U32).getLsbD (4 * i.val + j) = false := BitVec.getLsbD_zero
  unfold txPrioMap
  rw [getLsbD_foldl, hzero, Bool.false_or, Bool.eq_iff_iff, List.any_eq_true]
  constructor
  · rintro ⟨k, -, hk⟩
    simp only [Bool.and_eq_true, Bool.not_eq_true', decide_eq_true_eq, decide_eq_false_iff_not]
      at hk
    obtain ⟨⟨-, hlow⟩, hbit⟩ := hk
    by_cases hki : k = i
    · rw [hki, Nat.add_sub_cancel_left] at hbit
      exact hbit
    · have hlt : k.val ≠ i.val := fun hcon => hki (Fin.ext hcon)
      rw [getLsbD_ofInt (hfifo k).1 (hfifo k).2 (by omega)] at hbit
      cases hbit
  · intro hbit
    refine ⟨i, List.mem_finRange i, ?_⟩
    have hup := i.isLt
    rw [Nat.add_sub_cancel_left, hbit]
    simp
    omega

theorem txPrioMap_inj {fifo fifo' : Fin 8 → ℤ} (hfifo : ∀ i, 0 ≤ fifo i ∧ fifo i < 16)
    (hfifo' : ∀ i, 0 ≤ fifo' i ∧ fifo' i < 16) (h : txPrioMap fifo = txPrioMap fifo') (i : Fin 8) :
    fifo i = fifo' i := by
  have hbits : BitVec.ofInt 32 (fifo i) = BitVec.ofInt 32 (fifo' i) := by
    apply BitVec.eq_of_getLsbD_eq
    intro j hj
    by_cases hlow : j < 4
    · rw [← getLsbD_txPrioMap hfifo i hlow, h, getLsbD_txPrioMap hfifo' i hlow]
    · rw [getLsbD_ofInt (hfifo i).1 (hfifo i).2 (by omega),
        getLsbD_ofInt (hfifo' i).1 (hfifo' i).2 (by omega)]
  have hnat := congrArg BitVec.toInt hbits
  rw [BitVec.toInt_ofInt, BitVec.toInt_ofInt] at hnat
  obtain ⟨hlo, hup⟩ := hfifo i
  obtain ⟨hlo', hup'⟩ := hfifo' i
  simp only [Int.bmod_def] at hnat
  omega

/-- No priority is mapped to the last class, or there are all four classes. -/
def Agrees (qopt : TcMqprioQopt) : Prop :=
  qopt.hw = true → ∀ i, qopt.prioTcMap i = qopt.numTc - 1 → qopt.numTc = cpswTcNum

/-- What the driver and the core store is the last configuration. -/
structure Inv (s : State) : Prop where
  fresh : s.last = none → s.mqprioHw = false
  stored : ∀ qopt value, s.last = some (qopt, value) → value = setValue qopt ∧
    s.mqprioHw = qopt.hw ∧ s.prioTcMap = qopt.prioTcMap ∧ qopt.numTc ≤ cpswTcNum ∧
    (qopt.hw = true → ∀ i, qopt.prioTcMap i < qopt.numTc)

/-- The map of the last configuration, if there was one, is programmed. -/
def Programmed (version : CpswVersion) (s : State) : Prop :=
  ∀ qopt value, s.last = some (qopt, value) → s.regs (txPriMapReg version) = value

theorem Inv.step {op : Op} (h : Inv s) (hop : WellFormed op)
    (hst : Mqprio.step version s op = some s') : Inv s' := by
  cases op with
  | setMqprio qopt pm =>
    obtain rfl := Option.some.inj hst
    unfold cpswSetMqprio
    split
    · exact h
    rename_i hnum
    split
    · exact h
    split
    · exact h
    refine ⟨nofun, fun qopt' value hlast => ?_⟩
    obtain ⟨rfl, rfl⟩ := Prod.mk.inj (Option.some.inj hlast)
    exact ⟨rfl, rfl, rfl, by omega, hop⟩
  | stop regs =>
    obtain rfl := Option.some.inj hst
    exact ⟨h.fresh, h.stored⟩
  | slaveOpen =>
    obtain rfl := Option.some.inj hst
    unfold cpswMqprioResume cpswSlaveOpen
    split <;> exact ⟨h.fresh, h.stored⟩

theorem resume_eq_iff (hnum : qopt.numTc ≤ cpswTcNum) (hhw : qopt.hw = true)
    (hmap : ∀ i, qopt.prioTcMap i < qopt.numTc) :
    (txPrioMap fun i => cpswFifoShapersNum - qopt.prioTcMap i) = setValue qopt ↔ Agrees qopt := by
  have hpos : qopt.numTc ≠ 0 := by
    have hzero := hmap 0
    omega
  have hvalue : setValue qopt =
      txPrioMap fun i => cpswTcToFifo (qopt.prioTcMap i) qopt.numTc := by
    unfold setValue
    rw [hhw, if_pos hpos]
    rfl
  have hshapers : (cpswFifoShapersNum : ℤ) = 3 := rfl
  have hfour : cpswTcNum = 4 := rfl
  rw [hvalue]
  constructor
  · intro heq _ i hlast
    have hfifo : ∀ i, 0 ≤ (cpswFifoShapersNum : ℤ) - qopt.prioTcMap i ∧
        (cpswFifoShapersNum : ℤ) - qopt.prioTcMap i < 16 := by
      intro i
      have hi := hmap i
      omega
    have hfifo' : ∀ i, 0 ≤ cpswTcToFifo (qopt.prioTcMap i) qopt.numTc ∧
        cpswTcToFifo (qopt.prioTcMap i) qopt.numTc < 16 := by
      intro i
      have hi := hmap i
      unfold cpswTcToFifo
      split <;> omega
    have hsame := txPrioMap_inj hfifo hfifo' heq i
    unfold cpswTcToFifo at hsame
    rw [if_pos (by omega)] at hsame
    omega
  · intro hagrees
    congr 1
    funext i
    have hi := hmap i
    unfold cpswTcToFifo
    split
    · have hall := hagrees hhw i (by omega)
      omega
    · rfl

/-- After an open the map is that of the last configuration exactly when the
configuration is one on which the two computations agree. -/
theorem programmed_after_open_iff (hfresh : s.last = none) (hhw : s.mqprioHw = false)
    {ops : List Op} (hrun : Run (step version) (fun _ op => WellFormed op) s ops s')
    (hopen : step version s' .slaveOpen = some s'') :
    Programmed version s'' ↔ ∀ qopt value, s'.last = some (qopt, value) → Agrees qopt := by
  have hinit : Inv s := ⟨fun _ => hhw, fun qopt value hlast => by rw [hfresh] at hlast; cases hlast⟩
  have hinv : Inv s' := hrun.invariant (fun _ _ _ h hok hst => h.step hok hst) hinit
  obtain rfl := Option.some.inj hopen
  have hlast : (cpswMqprioResume version (cpswSlaveOpen version s')).last = s'.last := by
    unfold cpswMqprioResume cpswSlaveOpen
    split <;> rfl
  unfold Programmed
  rw [hlast]
  refine forall_congr' fun qopt => forall_congr' fun value => imp_congr_right fun hstored => ?_
  obtain ⟨hvalue, hmode, hprio, hnum, hmap⟩ := hinv.stored qopt value hstored
  unfold cpswMqprioResume cpswSlaveOpen
  dsimp only
  rw [hmode, hprio, hvalue]
  cases hon : qopt.hw with
  | false =>
    have hdefault : setValue qopt = txPriorityMapping := by
      unfold setValue
      rw [hon]
      rfl
    rw [hdefault]
    refine iff_of_true ?_ fun hcon => by rw [hon] at hcon; cases hcon
    exact Function.update_self _ _ _
  | true =>
    rw [← resume_eq_iff hnum hon (hmap hon)]
    simp

def boot : State := ⟨fun _ => 0, false, fun _ => 0, none⟩

/-- Two classes, with all priorities in the first or in the last. -/
def firstClass : TcMqprioQopt := ⟨.dcb, 2, fun _ => 0, true⟩
def lastClass : TcMqprioQopt := ⟨.dcb, 2, fun _ => 1, true⟩

theorem programmed_with_first_class : ∃ s' s'', Run (step .v2) (fun _ op => WellFormed op) boot
      [.setMqprio firstClass 0, .stop fun _ => 0] s' ∧ step .v2 s' .slaveOpen = some s'' ∧
    (Programmed .v2 s'' ↔ ∀ qopt value, s'.last = some (qopt, value) → Agrees qopt) := by
  have hrun : Run (step .v2) (fun _ op => WellFormed op) boot
      [.setMqprio firstClass 0, .stop fun _ => 0] _ :=
    .cons (fun _ _ => Nat.two_pos) rfl (.cons trivial rfl (.nil _))
  exact ⟨_, _, hrun, rfl, programmed_after_open_iff rfl rfl hrun rfl⟩

/-- The last of two classes is sent from FIFO 0 until the port is reopened, and
from FIFO 2 after that. -/
theorem programmed_fails_with_last_class : ∃ s' s'', Run (step .v2) (fun _ op => WellFormed op) boot
      [.setMqprio lastClass 0, .stop fun _ => 0] s' ∧ step .v2 s' .slaveOpen = some s'' ∧
    ¬ Programmed .v2 s'' := by
  have hrun : Run (step .v2) (fun _ op => WellFormed op) boot
      [.setMqprio lastClass 0, .stop fun _ => 0] _ :=
    .cons (fun _ _ => Nat.one_lt_two) rfl (.cons trivial rfl (.nil _))
  refine ⟨_, _, hrun, rfl, fun hprog => ?_⟩
  exact absurd (hprog lastClass _ rfl) (by decide)

end CpswDriver.Mqprio
