import CpswDriver.Cpdma.Queue
import CpswDriver.Lib.Runs

/-!
One channel and the DMA engine at the grain of single accesses. A locked
section of the driver is a sequence of steps, each with one access to a
descriptor or to the head pointer register that the engine also touches, and
the engine works in between: it reads the link of the descriptor at HDP and in
a later step writes the descriptor's status and moves HDP on. Run without
interruption, the steps of a section add up to the functions of
`CpswDriver.Cpdma.Channel`.
-/

namespace CpswDriver.Cpdma.Engine

open Runs

variable {τ : Type*}

/-- The section the channel's lock is held for, at its next access. -/
inductive Section
  | none
  /-- __cpdma_chan_submit with a descriptor whose words are written -/
  | link (desc : ℕ)
  | readMode (prev desc : ℕ)
  | clearEoq (prev desc : ℕ) (mode : U32)
  | misqueue (desc : ℕ)
  /-- cpdma_chan_stop waiting for the teardown to complete -/
  | tdWait
  | readNext (desc : ℕ) (mode : U32) (drain : Bool)
  | requeue (desc : ℕ) (mode : U32) (drain : Bool)
  deriving DecidableEq, Repr

/-- Which of its two loops the call of cpdma_chan_stop is in. -/
inductive StopPhase
  | drain
  | clean
  deriving DecidableEq, Repr

/-- The channel, its lock and the engine. `held` are descriptors taken off the
queue and not freed yet, `others` those that other channels have. `eng` is the
descriptor the engine works on with the link it read. -/
structure State (τ : Type*) where
  mem : ℕ → CpdmaDesc τ
  avail : Finset ℕ
  held : Finset ℕ
  others : Finset ℕ
  chan : CpdmaChan
  sect : Section
  stop : Option StopPhase
  eng : Option (ℕ × U32)

inductive Op (τ : Type*)
  | submit (kind : SubmitKind) (args : SubmitArgs τ) (mapped : Option U32)
  /-- __cpdma_chan_process, called by the drain loop of cpdma_chan_stop or not -/
  | process (drain : Bool)
  /-- cpdma_chan_on, once it has seen the controller active -/
  | chanOn
  | stopBegin
  | stopClean
  | free (desc : ℕ)
  /-- the section in progress makes its next access -/
  | advance
  | otherTake (desc : ℕ)
  | otherGive (desc : ℕ)
  | engineRead
  | engineDone (bits : U32)
  /-- the engine acknowledges the teardown: it is idle, and HDP is 0 -/
  | teardownDone
  /-- cpdma_ctlr_start zeroes the head pointer -/
  | zeroHdp

def isOwner (mem : ℕ → CpdmaDesc τ) (desc : ℕ) : Bool := testBits (mem desc).hwMode cpdmaDescOwner
def hasEoq (mem : ℕ → CpdmaDesc τ) (desc : ℕ) : Bool := testBits (mem desc).hwMode cpdmaDescEoq

/-- The write of a descriptor to HDP that an active channel gets. -/
def startIfActive (pool : CpdmaDescPool) (desc : ℕ) (chan : CpdmaChan) : CpdmaChan :=
  if chan.state = .active then { chan with hdp := hwPtr pool desc } else chan

/-- The end of cpdma_chan_submit_si. -/
def finishSubmit (ch : ChanId) (chan : CpdmaChan) : CpdmaChan :=
  let chan := writeRxfree ch chan
  { chan with count := chan.count + 1 }

section

variable (ch : ChanId) (pool : CpdmaDescPool) (desc : ℕ) (chan : CpdmaChan)

@[simp] theorem startIfActive_head : (startIfActive pool desc chan).head = chan.head := by
  unfold startIfActive
  split <;> rfl

@[simp] theorem startIfActive_tail : (startIfActive pool desc chan).tail = chan.tail := by
  unfold startIfActive
  split <;> rfl

@[simp] theorem startIfActive_state : (startIfActive pool desc chan).state = chan.state := by
  unfold startIfActive
  split <;> rfl

@[simp] theorem startIfActive_count : (startIfActive pool desc chan).count = chan.count := by
  unfold startIfActive
  split <;> rfl

theorem startIfActive_hdp : (startIfActive pool desc chan).hdp =
    if chan.state = .active then hwPtr pool desc else chan.hdp := by
  unfold startIfActive
  split <;> rfl

@[simp] theorem finishSubmit_head : (finishSubmit ch chan).head = chan.head := by
  unfold finishSubmit writeRxfree
  split <;> rfl

@[simp] theorem finishSubmit_tail : (finishSubmit ch chan).tail = chan.tail := by
  unfold finishSubmit writeRxfree
  split <;> rfl

@[simp] theorem finishSubmit_hdp : (finishSubmit ch chan).hdp = chan.hdp := by
  unfold finishSubmit writeRxfree
  split <;> rfl

@[simp] theorem finishSubmit_state : (finishSubmit ch chan).state = chan.state := by
  unfold finishSubmit writeRxfree
  split <;> rfl

@[simp] theorem finishSubmit_count : (finishSubmit ch chan).count = chan.count + 1 := by
  unfold finishSubmit writeRxfree
  split <;> rfl

end

/-- cpdma_chan_submit_si up to __cpdma_chan_submit. No one else can reach the
fresh descriptor, so its words are written in one step. -/
def submitBegin (params : CpdmaParams) (ch : ChanId) (s : State τ) (si : SubmitInfo τ)
    (mapped : Option U32) : State τ :=
  if s.chan.descNum ≤ s.chan.count then { s with chan := allocFail s.chan }
  else match params.pool.genPool.alloc s.avail with
    | none => { s with chan := allocFail s.chan }
    | some desc =>
      let s := { s with chan := countRunt params si.len s.chan }
      match if si.dataDma ≠ 0 then some si.dataDma else mapped with
      | none => s
      | some buffer =>
        { s with
          avail := s.avail.erase desc
          mem := Function.update s.mem desc (freshDesc ch si buffer (paddedLen params si.len))
          sect := .link desc }

/-- The first access of __cpdma_chan_submit: the head pointer register when the
queue is empty, else the link of the last descriptor. -/
def linkStep (params : CpdmaParams) (ch : ChanId) (s : State τ) (desc : ℕ) : State τ :=
  let descDma := hwPtr params.pool desc
  if s.chan.head = 0 then
    let stats := { s.chan.stats with headEnqueue := s.chan.stats.headEnqueue + 1 }
    let chan : CpdmaChan := { s.chan with head := desc, tail := desc, stats := stats }
    { s with chan := finishSubmit ch (startIfActive params.pool desc chan), sect := .none }
  else
    let prev := s.chan.tail
    let stats := { s.chan.stats with tailEnqueue := s.chan.stats.tailEnqueue + 1 }
    { s with
      mem := Function.update s.mem prev { s.mem prev with hwNext := descDma }
      chan := { s.chan with tail := desc, stats := stats }
      sect := .readMode prev desc }

def readModeStep (ch : ChanId) (s : State τ) (prev desc : ℕ) : State τ :=
  let mode := (s.mem prev).hwMode
  if mode &&& (cpdmaDescEoq ||| cpdmaDescOwner) = cpdmaDescEoq ∧ s.chan.state = .active then
    { s with sect := .clearEoq prev desc mode }
  else { s with chan := finishSubmit ch s.chan, sect := .none }

def clearEoqStep (s : State τ) (prev desc : ℕ) (mode : U32) : State τ :=
  { s with
    mem := Function.update s.mem prev { s.mem prev with hwMode := mode &&& ~~~cpdmaDescEoq }
    sect := .misqueue desc }

def misqueueStep (params : CpdmaParams) (ch : ChanId) (s : State τ) (desc : ℕ) : State τ :=
  let stats := { s.chan.stats with misqueued := s.chan.stats.misqueued + 1 }
  let chan : CpdmaChan := { s.chan with hdp := hwPtr params.pool desc, stats := stats }
  { s with chan := finishSubmit ch chan, sect := .none }

/-- A failed __cpdma_chan_process ends the drain loop. -/
def processFail (s : State τ) (drain : Bool) (stats : CpdmaChanStats) : State τ :=
  { s with
    chan := { s.chan with stats := stats }
    stop := if drain then some .clean else s.stop }

/-- __cpdma_chan_process up to the read of the mode word. -/
def processBegin (s : State τ) (drain : Bool) : State τ :=
  let desc := s.chan.head
  if desc = 0 then
    processFail s drain { s.chan.stats with emptyDequeue := s.chan.stats.emptyDequeue + 1 }
  else
    let mode := (s.mem desc).hwMode
    if testBits mode cpdmaDescOwner then
      processFail s drain { s.chan.stats with busyDequeue := s.chan.stats.busyDequeue + 1 }
    else { s with sect := .readNext desc mode drain }

/-- The end of __cpdma_chan_process; the drain loop ends at a descriptor with
the teardown complete bit. -/
def processEnd (s : State τ) (desc : ℕ) (mode : U32) (drain : Bool) : State τ :=
  { s with
    held := insert desc s.held
    sect := .none
    stop := if drain ∧ testBits mode cpdmaDescTdComplete then some .clean else s.stop }

def readNextStep (pool : CpdmaDescPool) (s : State τ) (desc : ℕ) (mode : U32) (drain : Bool) :
    State τ :=
  let stats := { s.chan.stats with goodDequeue := s.chan.stats.goodDequeue + 1 }
  let chan : CpdmaChan := { s.chan with
    head := nextDesc pool s.mem desc, cp := hwPtr pool desc, count := s.chan.count - 1
    stats := stats }
  if testBits mode cpdmaDescEoq ∧ chan.head ≠ 0 then
    let stats := { chan.stats with requeue := chan.stats.requeue + 1 }
    { s with chan := { chan with stats := stats }, sect := .requeue desc mode drain }
  else processEnd { s with chan := chan } desc mode drain

def requeueStep (pool : CpdmaDescPool) (s : State τ) (desc : ℕ) (mode : U32) (drain : Bool) :
    State τ :=
  processEnd { s with chan := { s.chan with hdp := hwPtr pool s.chan.head } } desc mode drain

def chanOnStep (params : CpdmaParams) (ch : ChanId) (s : State τ) : State τ :=
  if s.chan.state ≠ .idle then s else { s with chan := turnOn params.pool ch s.chan }

def stopBeginStep (s : State τ) : State τ :=
  if s.chan.state = .teardown then s
  else { s with chan := { s.chan with state := .teardown }, sect := .tdWait }

/-- One turn of the second loop of cpdma_chan_stop, or its end. -/
def stopCleanStep (pool : CpdmaDescPool) (s : State τ) : State τ :=
  if s.chan.head = 0 then { s with chan := { s.chan with state := .idle }, stop := none }
  else
    { s with
      chan := teardownDequeue pool s.mem s.chan
      held := insert s.chan.head s.held }

/-- The status word the engine leaves: OWNER is clear, and EOQ tells whether
the link it had read was 0. -/
def doneMode (bits nx : U32) : U32 :=
  let mode := bits &&& ~~~(cpdmaDescOwner ||| cpdmaDescEoq)
  if nx = 0 then mode ||| cpdmaDescEoq else mode

def engineReadStep (pool : CpdmaDescPool) (s : State τ) : State τ :=
  let desc := descFromPhys pool s.chan.hdp.toNat
  { s with eng := some (desc, (s.mem desc).hwNext) }

def engineDoneStep (s : State τ) (desc : ℕ) (nx bits : U32) : State τ :=
  { s with
    mem := Function.update s.mem desc { s.mem desc with hwMode := doneMode bits nx }
    chan := { s.chan with hdp := nx }
    eng := none }

/-- The next access of the section in progress. -/
def advance (params : CpdmaParams) (ch : ChanId) (s : State τ) : Option (State τ) :=
  match s.sect with
  | .none | .tdWait => none
  | .link desc => some (linkStep params ch s desc)
  | .readMode prev desc => some (readModeStep ch s prev desc)
  | .clearEoq prev desc mode => some (clearEoqStep s prev desc mode)
  | .misqueue desc => some (misqueueStep params ch s desc)
  | .readNext desc mode drain => some (readNextStep params.pool s desc mode drain)
  | .requeue desc mode drain => some (requeueStep params.pool s desc mode drain)

/-- One access. A section begins only when no other holds the lock. -/
def step (params : CpdmaParams) (ch : ChanId) (s : State τ) : Op τ → Option (State τ)
  | .submit kind args mapped =>
    if s.sect ≠ .none ∨ 2 ^ 16 ≤ args.len then none
    else if !kind.allows s.chan.state then some s
    else some (submitBegin params ch s (submitInfo kind args) mapped)
  | .process drain =>
    if s.sect ≠ .none ∨ (drain ∧ s.stop ≠ some .drain) then none else some (processBegin s drain)
  | .chanOn => if s.sect ≠ .none then none else some (chanOnStep params ch s)
  | .stopBegin => if s.sect ≠ .none then none else some (stopBeginStep s)
  | .stopClean =>
    if s.sect ≠ .none ∨ s.stop ≠ some .clean then none else some (stopCleanStep params.pool s)
  | .free desc =>
    if desc ∈ s.held then
      some { s with held := s.held.erase desc, avail := insert desc s.avail }
    else none
  | .advance => advance params ch s
  | .otherTake desc =>
    if desc ∈ s.avail then
      some { s with avail := s.avail.erase desc, others := insert desc s.others }
    else none
  | .otherGive desc =>
    if desc ∈ s.others then
      some { s with others := s.others.erase desc, avail := insert desc s.avail }
    else none
  | .engineRead =>
    if s.chan.hdp = 0 ∨ s.eng ≠ none then none else some (engineReadStep params.pool s)
  | .engineDone bits => s.eng.map fun p => engineDoneStep s p.1 p.2 bits
  | .teardownDone =>
    if s.sect ≠ .tdWait then none
    else some { s with
      chan := { s.chan with hdp := 0, cp := cpdmaTeardownValue }
      eng := none, sect := .none, stop := some .drain }
  | .zeroHdp =>
    if s.chan.state = .active then none
    else some { s with chan := { s.chan with hdp := 0, cp := 0 }, eng := none }

/-- The descriptor a driver step writes to HDP, if it writes one. -/
def startOf (s : State τ) : Op τ → Option ℕ
  | .chanOn => if s.chan.state = .idle ∧ s.chan.head ≠ 0 then some s.chan.head else none
  | .advance =>
    match s.sect with
    | .link desc => if s.chan.head = 0 ∧ s.chan.state = .active then some desc else none
    | .misqueue desc => some desc
    | .requeue _ _ _ => some s.chan.head
    | _ => none
  | _ => none

/-- The steps of the driver's own code. -/
def Op.byDriver : Op τ → Bool
  | .submit _ _ _ => true
  | .process _ => true
  | .chanOn => true
  | .stopBegin => true
  | .stopClean => true
  | .free _ => true
  | .advance => true
  | _ => false

/-- An idle, empty channel with the whole pool free. -/
structure Initial (params : CpdmaParams) (s : State τ) : Prop where
  avail : s.avail = params.pool.descs
  held : s.held = ∅
  others : s.others = ∅
  head : s.chan.head = 0
  count : s.chan.count = 0
  hdp : s.chan.hdp = 0
  state : s.chan.state = .idle
  sect : s.sect = .none
  stop : s.stop = none
  eng : s.eng = none

def freshChannel (params : CpdmaParams) (token : τ) (descNum : ℕ) : State τ where
  mem _ := ⟨0, 0, 0, 0, token, 0, 0⟩
  avail := params.pool.descs
  held := ∅
  others := ∅
  chan := { descNum := descNum }
  sect := .none
  stop := none
  eng := none

theorem initial_freshChannel (params : CpdmaParams) (token : τ) (descNum : ℕ) :
    Initial params (freshChannel params token descNum) :=
  ⟨rfl, rfl, rfl, rfl, rfl, rfl, rfl, rfl, rfl, rfl⟩

/-- The channel after `n` uninterrupted calls of __cpdma_chan_process. -/
def processed (pool : CpdmaDescPool) (mem : ℕ → CpdmaDesc τ) : ℕ → CpdmaChan → CpdmaChan
  | 0, chan => chan
  | n + 1, chan => processed pool mem n (cpdmaChanProcessLocked pool mem chan).1

theorem testBits_owner (v : U32) : testBits v cpdmaDescOwner = v.getLsbD 29 := by
  have hpow : cpdmaDescOwner = BitVec.twoPow 32 29 := by decide
  rw [testBits, hpow, BitVec.and_twoPow]
  cases v.getLsbD 29 <;> decide

theorem testBits_eoq (v : U32) : testBits v cpdmaDescEoq = v.getLsbD 28 := by
  have hpow : cpdmaDescEoq = BitVec.twoPow 32 28 := by decide
  rw [testBits, hpow, BitVec.and_twoPow]
  cases v.getLsbD 28 <;> decide

/-- A bit that the mask keeps can be tested before or after masking. -/
theorem testBits_and {mode m b : U32} (h : m &&& b = b) :
    testBits (mode &&& m) b = testBits mode b := by
  rw [testBits, testBits, BitVec.and_assoc, h]

theorem doneMode_owner (bits nx : U32) : testBits (doneMode bits nx) cpdmaDescOwner = false := by
  have hmask : (~~~(cpdmaDescOwner ||| cpdmaDescEoq)).getLsbD 29 = false := by decide
  have heoq : cpdmaDescEoq.getLsbD 29 = false := by decide
  rw [testBits_owner, doneMode]
  split
  · rw [BitVec.getLsbD_or, BitVec.getLsbD_and, hmask, heoq, Bool.and_false, Bool.or_false]
  · rw [BitVec.getLsbD_and, hmask, Bool.and_false]

theorem doneMode_eoq (bits nx : U32) :
    testBits (doneMode bits nx) cpdmaDescEoq = decide (nx = 0) := by
  have hmask : (~~~(cpdmaDescOwner ||| cpdmaDescEoq)).getLsbD 28 = false := by decide
  have heoq : cpdmaDescEoq.getLsbD 28 = true := by decide
  rw [testBits_eoq, doneMode]
  split
  · rename_i hnx
    rw [BitVec.getLsbD_or, heoq, Bool.or_true, decide_eq_true hnx]
  · rename_i hnx
    rw [BitVec.getLsbD_and, hmask, Bool.and_false, decide_eq_false hnx]

/-- A fresh descriptor belongs to the engine and has no end-of-queue bit. -/
theorem freshDesc_mode (ch : ChanId) (si : SubmitInfo τ) (buffer : U32) {len : ℕ}
    (hlen : len < 2 ^ 16) :
    testBits (freshDesc ch si buffer len).hwMode cpdmaDescOwner = true ∧
      testBits (freshDesc ch si buffer len).hwMode cpdmaDescEoq = false := by
  have hhigh : (BitVec.ofNat 32 len).getLsbD 28 = false := by
    rw [BitVec.getLsbD_ofNat, Nat.testBit_lt_two_pow (by omega), Bool.and_false]
  have hport : ∀ directed, (cpdmaDescToPort ch (cpdmaDescOwner ||| cpdmaDescSop ||| cpdmaDescEop)
      directed).getLsbD 29 = true ∧ (cpdmaDescToPort ch (cpdmaDescOwner ||| cpdmaDescSop |||
      cpdmaDescEop) directed).getLsbD 28 = false := by
    intro directed
    unfold cpdmaDescToPort
    split
    · rename_i hdir
      simp only [Bool.and_eq_true, Bool.or_eq_true, beq_iff_eq] at hdir
      rcases hdir.2 with rfl | rfl <;> decide
    · decide
  constructor
  · rw [testBits_owner, freshDesc, BitVec.getLsbD_or, (hport si.directed).1, Bool.true_or]
  · rw [testBits_eoq, freshDesc, BitVec.getLsbD_or, (hport si.directed).2, hhigh, Bool.or_false]

/-- The accesses of __cpdma_chan_submit add up to the function. -/
theorem submit_uninterrupted (params : CpdmaParams) (ch : ChanId) (s : State τ) (desc : ℕ)
    (hsect : s.sect = .link desc) :
    ∃ n ≤ 4, exec (step params ch) anyStep s (List.replicate n .advance) =
      some { s with
        mem := (cpdmaChanSubmitLocked params.pool s.mem s.chan desc).1
        chan := finishSubmit ch (cpdmaChanSubmitLocked params.pool s.mem s.chan desc).2
        sect := .none } := by
  by_cases hhead : s.chan.head = 0
  · refine ⟨1, by decide, ?_⟩
    simp [exec, step, advance, hsect, linkStep, hhead, cpdmaChanSubmitLocked, startIfActive]
  by_cases hmode : ((s.mem s.chan.tail).hwMode &&& (cpdmaDescEoq ||| cpdmaDescOwner) = cpdmaDescEoq
      ∧ s.chan.state = .active)
  · refine ⟨4, by decide, ?_⟩
    simp [List.replicate, exec, step, advance, hsect, linkStep, hhead, cpdmaChanSubmitLocked,
      readModeStep, hmode, clearEoqStep, misqueueStep]
  · refine ⟨2, by decide, ?_⟩
    simp [List.replicate, exec, step, advance, hsect, linkStep, hhead, cpdmaChanSubmitLocked,
      readModeStep, hmode]

theorem status_eoq (mode : U32) : testBits (mode &&& (cpdmaDescEoq ||| cpdmaDescTdComplete |||
    cpdmaDescPortMask ||| cpdmaRxVlanEncap)) cpdmaDescEoq = testBits mode cpdmaDescEoq :=
  testBits_and (by decide)

/-- What processing a completed head does to the head and HDP. -/
theorem cpdmaChanProcessLocked_completed (pool : CpdmaDescPool) {mem : ℕ → CpdmaDesc τ}
    {chan : CpdmaChan} (hhead : chan.head ≠ 0) (hown : isOwner mem chan.head = false) :
    (cpdmaChanProcessLocked pool mem chan).1.head = nextDesc pool mem chan.head ∧
    (cpdmaChanProcessLocked pool mem chan).1.hdp =
      if hasEoq mem chan.head = true ∧ nextDesc pool mem chan.head ≠ 0 then
        hwPtr pool (nextDesc pool mem chan.head) else chan.hdp := by
  unfold isOwner at hown
  unfold hasEoq
  simp only [cpdmaChanProcessLocked, hhead, if_false, hown, Bool.false_eq_true, status_eoq]
  split <;> exact ⟨rfl, rfl⟩

/-- The accesses of __cpdma_chan_process add up to the function. -/
theorem process_uninterrupted (params : CpdmaParams) (ch : ChanId) (s : State τ)
    (hsect : s.sect = .none) : ∃ n ≤ 2, ∃ t,
      exec (step params ch) anyStep s (.process false :: List.replicate n .advance) = some t ∧
      t.sect = .none ∧ t.mem = s.mem ∧
      t.chan = (cpdmaChanProcessLocked params.pool s.mem s.chan).1 := by
  by_cases hhead : s.chan.head = 0
  · refine ⟨0, by decide, ?_⟩
    simp [exec, step, hsect, processBegin, hhead, processFail, cpdmaChanProcessLocked]
  by_cases hown : testBits (s.mem s.chan.head).hwMode cpdmaDescOwner = true
  · refine ⟨0, by decide, ?_⟩
    simp [exec, step, hsect, processBegin, hhead, hown, processFail, cpdmaChanProcessLocked]
  by_cases hrestart : testBits (s.mem s.chan.head).hwMode cpdmaDescEoq = true ∧
      nextDesc params.pool s.mem s.chan.head ≠ 0
  · refine ⟨2, by decide, ?_⟩
    simp [List.replicate, exec, step, advance, hsect, processBegin, hhead, hown, readNextStep,
      hrestart, requeueStep, processEnd, cpdmaChanProcessLocked, status_eoq]
  · refine ⟨1, by decide, ?_⟩
    simp [List.replicate, exec, step, advance, hsect, processBegin, hhead, hown, readNextStep,
      hrestart, processEnd, cpdmaChanProcessLocked, status_eoq]

end CpswDriver.Cpdma.Engine
