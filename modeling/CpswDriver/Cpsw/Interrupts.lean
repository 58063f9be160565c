import CpswDriver.Cpdma.Types
import CpswDriver.Lib.Promises
import CpswDriver.Lib.Runs

/-!
How the driver learns of completed packets. A completion of an unmasked channel
interrupts the CPU while the interrupt is enabled in the wrapper; the handler
disables it there and schedules NAPI, which polls the channels and enables it
again. Handlers, polls, the watchdog, netpoll and the calls that the network
stack makes under its lock run side by side, one access at a time. Each of them
is a line of actions that it still has to perform. Nothing sets quirk_irq, so
the interrupt lines themselves are never disabled.
-/

namespace CpswDriver.Interrupts

open Cpdma Runs

abbrev Port := Fin 2

/-- There is one interrupt and one NAPI for all rx channels and one for all tx channels. -/
inductive Dir
  | rx
  | tx
  deriving DecidableEq

def dirOf (ch : ChanId) : Dir := if isRxChan ch then .rx else .tx

/-- The channels of the controller and those of them that txv lists. `rateLimited` are those
whose shaper the driver sets before it starts them. -/
structure CpswParams where
  chans : List ChanId
  txv : List ChanId
  rateLimited : ChanId → Bool

/-- What the driver sees of a NAPI: NAPI_STATE_SCHED and NAPI_STATE_MISSED, and `off` from the end
of napi_disable to napi_enable. -/
inductive NapiState
  | off
  | idle
  | sched
  | missed
  deriving DecidableEq

inductive Thread
  | handler (d : Dir)
  | poll (d : Dir)
  | watchdog (p : Port)
  | netpoll (p : Port)
  /-- whoever holds the lock of the network stack -/
  | rtnl
  deriving DecidableEq

inductive Action
  /-- writel of 0xff or 0 to rx_en or tx_en -/
  | writeEn (d : Dir) (on : Bool)
  /-- cpdma_ctlr_eoi -/
  | eoi (d : Dir)
  /-- cpdma_ctlr_int_ctrl, which calls cpdma_chan_int_ctrl for each channel -/
  | intCtrl (on : Bool)
  | chanIntCtrl (ch : ChanId) (on : Bool)
  | napiSchedule (d : Dir)
  | napiComplete (d : Dir)
  /-- a poll that used up its budget returns to the softirq -/
  | napiReturn (d : Dir)
  | napiEnable (d : Dir)
  /-- napi_disable sets NAPI_STATE_DISABLE and then waits -/
  | napiDisable (d : Dir)
  | napiDisableWait (d : Dir)
  | ctlrStart
  | ctlrStop
  | ctlrStopEnd
  | chanStart (ch : ChanId)
  | chanOn (ch : ChanId)
  | chanStop (ch : ChanId)
  /-- the rest of cpdma_chan_stop, once the teardown is under way -/
  | chanTeardown (ch : ChanId)
  | usageInc
  | usageDec
  /-- the stack starts or ends the watchdog and netpoll of a net device -/
  | activate (p : Port)
  | deactivate (p : Port)
  /-- dev_close -/
  | close (p : Port)
  deriving DecidableEq

/-- `acked` is false from an interrupt until the driver has written the end of interrupt. A NAPI
is `disabling` while napi_disable waits for it. -/
structure State where
  en : Dir → Bool
  acked : Dir → Bool
  napi : Dir → NapiState
  disabling : Dir → Bool
  ctlr : CpdmaState
  chan : ChanId → CpdmaState
  mask : ChanId → Bool
  usageCount : ℤ
  opened : Port → Bool
  code : Thread → List Action

def cpswIntrEnable : List Action := [.writeEn .tx true, .writeEn .rx true, .intCtrl true]

def cpswIntrDisable : List Action := [.writeEn .tx false, .writeEn .rx false, .intCtrl false]

/-- cpsw_rx_interrupt, cpsw_tx_interrupt -/
def cpswInterrupt (d : Dir) : List Action := [.writeEn d false, .eoi d, .napiSchedule d]

/-- The end of cpsw_rx_mq_poll and cpsw_tx_mq_poll, by whether they used up their budget. -/
def cpswMqPoll (d : Dir) (full : Bool) : List Action :=
  if full then [.napiReturn d] else [.napiComplete d, .writeEn d true]

def cpswNdoTxTimeout (params : CpswParams) : List Action :=
  cpswIntrDisable ++ params.txv.flatMap (fun ch => [.chanStop ch, .chanStart ch]) ++ cpswIntrEnable

def cpswNdoPollController : List Action :=
  cpswIntrDisable ++ cpswInterrupt .rx ++ cpswInterrupt .tx ++ cpswIntrEnable

def cpswNdoStop (usageCount : ℤ) : List Action :=
  (if usageCount ≤ 1 then
    [.napiDisable .rx, .napiDisableWait .rx, .napiDisable .tx, .napiDisableWait .tx] ++
      cpswIntrDisable ++ [.ctlrStop]
  else []) ++ [.usageDec]

/-- cpsw_ndo_open, when the shared resources can be set up or not. -/
def cpswNdoOpen (usageCount : ℤ) (p : Port) (granted : Bool) : List Action :=
  if usageCount = 0 ∧ granted = false then cpswNdoStop usageCount
  else (if usageCount = 0 then [.napiEnable .rx, .napiEnable .tx] else []) ++ [.ctlrStart] ++
    cpswIntrEnable ++ [.usageInc, .activate p]

def cpswSuspendDataPass : List Action := cpswIntrDisable ++ [.ctlrStop]

def cpswResumeDataPass (usageCount : ℤ) : List Action :=
  if usageCount = 0 then [] else .ctlrStart :: cpswIntrEnable

def cpswFail : List Action := [.close 0, .close 1]

/-- cpsw_set_ringparam, when the data pass can be resumed or not. -/
def cpswSetRingparam (usageCount : ℤ) (resumed : Bool) : List Action :=
  cpswSuspendDataPass ++ if resumed then cpswResumeDataPass usageCount else cpswFail

/-- napi_complete, which schedules a NAPI again that was scheduled in the meantime. -/
def NapiState.complete : NapiState → NapiState
  | .missed => .sched
  | .sched => .idle
  | n => n

/-- napi_schedule -/
def NapiState.schedule : NapiState → NapiState
  | .idle => .sched
  | .sched => .missed
  | n => n

def NapiState.queued (n : NapiState) : Bool := n == .sched || n == .missed

namespace State

def setNapi (s : State) (d : Dir) (n : NapiState) : State :=
  { s with napi := Function.update s.napi d n }

def setDisabling (s : State) (d : Dir) (on : Bool) : State :=
  { s with disabling := Function.update s.disabling d on }

def setChan (s : State) (ch : ChanId) (state : CpdmaState) : State :=
  { s with chan := Function.update s.chan ch state }

def setMask (s : State) (ch : ChanId) (on : Bool) : State :=
  { s with mask := Function.update s.mask ch on }

/-- The first part of cpdma_ctlr_start, which clears all masks. -/
def ctlrOn (s : State) : State := { s with ctlr := .active, mask := fun _ => false }

/-- The last part of cpdma_ctlr_stop -/
def ctlrOff (s : State) : State := { s with ctlr := .idle, mask := fun _ => false }

end State

/-- An action changes the state and may call for others before its thread goes on. It is undefined
where the thread waits: napi_disable for a poll, and the stack for the watchdog and for netpoll.
napi_enable takes a NAPI that is off, and is a bug elsewhere. -/
def perform (params : CpswParams) (s : State) : Action → Option (State × List Action)
  | .writeEn d on => some ({ s with en := Function.update s.en d on }, [])
  | .eoi d => some ({ s with acked := Function.update s.acked d true }, [])
  | .intCtrl on =>
    some (s, if s.ctlr = .active then params.chans.map (.chanIntCtrl · on) else [])
  | .chanIntCtrl ch on => some (if s.chan ch = .active then s.setMask ch on else s, [])
  | .napiSchedule d =>
    some (if s.disabling d then s else s.setNapi d (s.napi d).schedule, [])
  | .napiComplete d => some (s.setNapi d (s.napi d).complete, [])
  | .napiReturn d =>
    some (if s.disabling d then s.setNapi d (s.napi d).complete else s, [])
  | .napiEnable d => if s.napi d = .off then some (s.setNapi d .idle, []) else none
  | .napiDisable d => some (s.setDisabling d true, [])
  | .napiDisableWait d =>
    if s.napi d = .idle then some ((s.setNapi d .off).setDisabling d false, []) else none
  | .ctlrStart =>
    some (if s.ctlr = .idle then (s.ctlrOn, params.chans.map .chanOn) else (s, []))
  | .ctlrStop =>
    some (if s.ctlr = .active then
        ({ s with ctlr := .teardown }, params.chans.map .chanStop ++ [.ctlrStopEnd])
      else (s, []))
  | .ctlrStopEnd => some (s.ctlrOff, [])
  | .chanStart ch =>
    some (s, if params.rateLimited ch ∧ s.ctlr ≠ .active then [] else [.chanOn ch])
  | .chanOn ch =>
    some (if s.chan ch = .idle ∧ s.ctlr = .active then (s.setChan ch .active).setMask ch true
      else s, [])
  | .chanStop ch =>
    some (if s.chan ch = .teardown then (s, [])
      else ((s.setChan ch .teardown).setMask ch false, [.chanTeardown ch]))
  | .chanTeardown ch => some (s.setChan ch .idle, [])
  | .usageInc => some ({ s with usageCount := s.usageCount + 1 }, [])
  | .usageDec => some ({ s with usageCount := s.usageCount - 1 }, [])
  | .activate p => some ({ s with opened := Function.update s.opened p true }, [])
  | .deactivate p =>
    if s.code (.watchdog p) = [] ∧ s.code (.netpoll p) = [] then
      some ({ s with opened := Function.update s.opened p false }, [])
    else none
  | .close p =>
    some (s, if s.opened p then .deactivate p :: cpswNdoStop s.usageCount else [])

inductive Op
  /-- a channel has completed a packet -/
  | interrupt (ch : ChanId)
  /-- the softirq polls a scheduled NAPI, whose poll uses up its budget or not -/
  | poll (d : Dir) (full : Bool)
  | txTimeout (p : Port)
  | pollController (p : Port)
  | ndoOpen (p : Port) (granted : Bool)
  | ndoStop (p : Port)
  | setRingparam (resumed : Bool)
  /-- a thread performs its next action -/
  | run (t : Thread)
  deriving DecidableEq

def State.setCode (s : State) (t : Thread) (line : List Action) : State :=
  { s with code := Function.update s.code t line }

@[simp] theorem code_setCode_self (s : State) (t : Thread) (line : List Action) :
    (s.setCode t line).code t = line :=
  Function.update_self _ _ _

theorem code_setCode_ne (s : State) {t u : Thread} (h : u ≠ t) (line : List Action) :
    (s.setCode t line).code u = s.code u :=
  Function.update_of_ne h _ _

def State.start (s : State) (t : Thread) (line : List Action) : Option State :=
  if s.code t = [] then some (s.setCode t line) else none

/-- A channel can interrupt: it is on and unmasked, and the interrupt is enabled and has been
acknowledged. -/
def State.listens (params : CpswParams) (s : State) (ch : ChanId) : Bool :=
  ch ∈ params.chans && s.chan ch == .active && s.mask ch && s.en (dirOf ch) && s.acked (dirOf ch)

def step (params : CpswParams) (s : State) : Op → Option State
  | .interrupt ch =>
    if s.listens params ch then
      { s with acked := Function.update s.acked (dirOf ch) false }.start (.handler (dirOf ch))
        (cpswInterrupt (dirOf ch))
    else none
  | .poll d full => if (s.napi d).queued then s.start (.poll d) (cpswMqPoll d full) else none
  | .txTimeout p => if s.opened p then s.start (.watchdog p) (cpswNdoTxTimeout params) else none
  | .pollController p => if s.opened p then s.start (.netpoll p) cpswNdoPollController else none
  | .ndoOpen p granted =>
    if s.opened p then none else s.start .rtnl (cpswNdoOpen s.usageCount p granted)
  | .ndoStop p => if s.opened p then s.start .rtnl [.close p] else none
  | .setRingparam resumed => s.start .rtnl (cpswSetRingparam s.usageCount resumed)
  | .run t =>
    match s.code t with
    | [] => none
    | a :: as => (perform params s a).map fun r => r.1.setCode t (r.2 ++ as)

/-- Both net devices are down. -/
structure Initial (s : State) : Prop where
  acked : ∀ d, s.acked d = true
  napi : ∀ d, s.napi d = .off
  disabling : ∀ d, s.disabling d = false
  ctlr : s.ctlr = .idle
  chan : ∀ ch, s.chan ch = .idle
  usageCount : s.usageCount = 0
  opened : ∀ p, s.opened p = false
  code : ∀ t, s.code t = []

end CpswDriver.Interrupts
