import CpswDriver.Cpsw.OpenStop
import CpswDriver.Lib.BitField
import CpswDriver.Lib.Runs

/-!
The MAC of a port and its link. The sliver has a control register, of which the
driver keeps the word it last asked for. A link that comes up sets the bits of
its word, and only a link that goes down clears any. The register is what all
the words since then add up to.
-/

namespace CpswDriver.MacControl

open Runs
open OpenStop (Port)

def cpswSlCtlFullduplex : U32 := 1#32 <<< 0
def cpswSlCtlLoopback : U32 := 1#32 <<< 1
def cpswSlCtlMtest : U32 := 1#32 <<< 2
def cpswSlCtlRxFlowEn : U32 := 1#32 <<< 3
def cpswSlCtlTxFlowEn : U32 := 1#32 <<< 4
def cpswSlCtlGmiiEn : U32 := 1#32 <<< 5
def cpswSlCtlTxPace : U32 := 1#32 <<< 6
def cpswSlCtlGig : U32 := 1#32 <<< 7
def cpswSlCtlTxShortGapEn : U32 := 1#32 <<< 10
def cpswSlCtlCmdIdle : U32 := 1#32 <<< 11
def cpswSlCtlIfctlA : U32 := 1#32 <<< 15
def cpswSlCtlIfctlB : U32 := 1#32 <<< 16
def cpswSlCtlGigForce : U32 := 1#32 <<< 17
def cpswSlCtlExtEn : U32 := 1#32 <<< 18
def cpswSlCtlTxSgLimEn : U32 := 1#32 <<< 21
def cpswSlCtlRxCefEn : U32 := 1#32 <<< 22
def cpswSlCtlRxCsfEn : U32 := 1#32 <<< 23
def cpswSlCtlRxCmfEn : U32 := 1#32 <<< 24

def cpswSlCtlFuncBase : U32 :=
  cpswSlCtlFullduplex ||| cpswSlCtlLoopback ||| cpswSlCtlRxFlowEn ||| cpswSlCtlTxFlowEn |||
    cpswSlCtlGmiiEn ||| cpswSlCtlTxPace ||| cpswSlCtlGig ||| cpswSlCtlCmdIdle |||
    cpswSlCtlIfctlA ||| cpswSlCtlIfctlB ||| cpswSlCtlGigForce ||| cpswSlCtlExtEn |||
    cpswSlCtlRxCefEn ||| cpswSlCtlRxCsfEn ||| cpswSlCtlRxCmfEn

/-- control_features of the sliver that cpsw_sl_get finds under "cpsw". -/
def controlFeatures : U32 :=
  cpswSlCtlFuncBase ||| cpswSlCtlMtest ||| cpswSlCtlTxShortGapEn ||| cpswSlCtlTxSgLimEn

/-- The new CPSW_SL_MACCONTROL and what is returned. -/
def cpswSlCtlSet (maccontrol ctlFuncs : U32) : U32 × ℤ :=
  if ctlFuncs &&& ~~~controlFeatures ≠ 0 then (maccontrol, -einval)
  else (maccontrol ||| ctlFuncs, 0)

def cpswSlCtlReset : U32 := 0

structure PhyDevice where
  link : Bool
  speed : ℤ
  duplex : ℤ
  rgmii : Bool

/-- `maccontrol` is the register of the sliver, `macControl` what the driver keeps of it. -/
structure Slave where
  phy : Option PhyDevice
  macControl : U32
  maccontrol : U32
  rxPause : Bool
  txPause : Bool

structure State where
  slaves : Port → Slave
  opened : Port → Bool
  usageCount : ℤ

def State.setSlave (s : State) (p : Port) (slave : Slave) : State :=
  { s with slaves := Function.update s.slaves p slave }

/-- The word that cpsw_adjust_link puts together for a link that is up. -/
def linkWord (phy : PhyDevice) (rxPause txPause : Bool) : U32 :=
  cpswSlCtlGmiiEn |||
    (if phy.speed = 1000 then cpswSlCtlGig else 0) |||
    (if phy.duplex ≠ 0 then cpswSlCtlFullduplex else 0) |||
    (if phy.speed = 100 then cpswSlCtlIfctlA
      else if phy.speed = 10 ∧ phy.rgmii then cpswSlCtlExtEn else 0) |||
    (if rxPause then cpswSlCtlRxFlowEn else 0) |||
    (if txPause then cpswSlCtlTxFlowEn else 0)

/-- cpsw_adjust_link, as far as the sliver goes. -/
def cpswAdjustLink (slave : Slave) : Slave :=
  match slave.phy with
  | none => slave
  | some phy =>
    if phy.link then
      let macControl := linkWord phy slave.rxPause slave.txPause
      { slave with
        maccontrol := if macControl ≠ slave.macControl
          then (cpswSlCtlSet slave.maccontrol macControl).1 else slave.maccontrol
        macControl := macControl }
    else { slave with maccontrol := cpswSlCtlReset, macControl := 0 }

/-- cpsw_slave_open. The PHY is the one that of_phy_connect finds, if there is one. -/
def cpswSlaveOpen (slave : Slave) (phy : Option PhyDevice) : Slave :=
  let slave := { slave with maccontrol := cpswSlCtlReset, macControl := 0 }
  match phy with
  | none => slave
  | some phy => { slave with phy := some phy }

/-- The soft reset of the switch at the first open, which comes to the slivers too. -/
def cpswInitHostPort (softReset : U32 → U32) (s : State) : State :=
  { s with slaves := fun p =>
      { s.slaves p with maccontrol := softReset (s.slaves p).maccontrol } }

/-- A successful open. -/
def cpswNdoOpen (softReset : U32 → U32) (s : State) (p : Port) (phy : Option PhyDevice) : State :=
  let s := if s.usageCount = 0 then cpswInitHostPort softReset s else s
  let s := s.setSlave p (cpswSlaveOpen (s.slaves p) phy)
  { s with opened := Function.update s.opened p true, usageCount := s.usageCount + 1 }

/-- cpsw_ndo_stop once phy_stop has returned. -/
def cpswNdoStop (s : State) (p : Port) : State :=
  let s := s.setSlave p { s.slaves p with phy := none }
  { s with opened := Function.update s.opened p false, usageCount := s.usageCount - 1 }

/-- `valid` is what phy_validate_pause says. -/
def cpswSetPauseparam (slave : Slave) (valid rxPause txPause : Bool) : Slave × ℤ :=
  if slave.phy.isNone then (slave, -einval)
  else if !valid then (slave, -einval)
  else ({ slave with rxPause := rxPause, txPause := txPause }, 0)

inductive Op
  | ndoOpen (p : Port) (phy : Option PhyDevice)
  | ndoStop (p : Port)
  | link (p : Port) (phy : PhyDevice)
  | setPauseparam (p : Port) (valid rxPause txPause : Bool)

/-- A link report comes from the PHY that the slave is connected to. -/
def step (softReset : U32 → U32) (s : State) : Op → Option State
  | .ndoOpen p phy => if s.opened p then none else some (cpswNdoOpen softReset s p phy)
  | .ndoStop p => if s.opened p then some (cpswNdoStop s p) else none
  | .link p phy =>
    if (s.slaves p).phy.isSome then
      some (s.setSlave p (cpswAdjustLink { s.slaves p with phy := some phy }))
    else none
  | .setPauseparam p valid rxPause txPause =>
    some (s.setSlave p (cpswSetPauseparam (s.slaves p) valid rxPause txPause).1)

def orAll (ws : List U32) : U32 := ws.foldl (· ||| ·) 0

theorem orAll_concat (ws : List U32) (w : U32) : orAll (ws ++ [w]) = orAll ws ||| w := by
  unfold orAll
  rw [List.foldl_append]
  rfl

theorem or_orAll {w : U32} {ws : List U32} (hw : w ∈ ws) : w ||| orAll ws = orAll ws := by
  induction ws using List.reverseRecOn with
  | nil => cases hw
  | append_singleton ws v ih =>
    rw [orAll_concat]
    rcases List.mem_append.mp hw with hmem | hmem
    · rw [← BitVec.or_assoc, ih hmem]
    · rw [List.mem_singleton.mp hmem, BitVec.or_comm, BitVec.or_assoc, BitVec.or_self]

/-- Words that are all in `v` add up to nothing that is not. -/
theorem orAll_or {v : U32} {ws : List U32} (h : ∀ w ∈ ws, w ||| v = v) : orAll ws ||| v = v := by
  induction ws using List.reverseRecOn with
  | nil => exact BitVec.zero_or
  | append_singleton ws w ih =>
    rw [orAll_concat, BitVec.or_assoc, h w (List.mem_append_right ws List.mem_cons_self)]
    exact ih fun u hu => h u (List.mem_append_left _ hu)

theorem getLastD_or_orAll (ws : List U32) : ws.getLastD 0 ||| orAll ws = orAll ws := by
  rcases List.eq_nil_or_concat' ws with rfl | ⟨init, w, rfl⟩
  · exact BitVec.zero_or
  · rw [List.getLastD_concat]
    exact or_orAll (List.mem_append_right init List.mem_cons_self)

/-- The words add up to the last of them if and only if that has all their bits. -/
theorem orAll_eq_getLastD_iff {ws : List U32} :
    orAll ws = ws.getLastD 0 ↔ ∀ w ∈ ws, w ||| ws.getLastD 0 = ws.getLastD 0 := by
  constructor
  · intro heq w hw
    rw [← heq]
    exact or_orAll hw
  · intro h
    rw [← orAll_or h, BitVec.or_comm, getLastD_or_orAll]

theorem getLsbD_orAll {ws : List U32} {i : ℕ} :
    (orAll ws).getLsbD i = true ↔ ∃ w ∈ ws, w.getLsbD i = true := by
  induction ws using List.reverseRecOn with
  | nil => simp [orAll]
  | append_singleton ws w ih =>
    rw [orAll_concat, BitVec.getLsbD_or, Bool.or_eq_true_iff, ih]
    constructor
    · rintro (⟨u, hu, hbit⟩ | hbit)
      · exact ⟨u, List.mem_append_left _ hu, hbit⟩
      · exact ⟨w, List.mem_append_right ws List.mem_cons_self, hbit⟩
    · rintro ⟨u, hu, hbit⟩
      rcases List.mem_append.mp hu with hmem | hmem
      · exact .inl ⟨u, hmem, hbit⟩
      · exact .inr (List.mem_singleton.mp hmem ▸ hbit)

def Supported (w : U32) : Prop := w &&& ~~~controlFeatures = 0

theorem Supported.or {v w : U32} (hv : Supported v) (hw : Supported w) : Supported (v ||| w) := by
  unfold Supported at hv hw ⊢
  rw [BitVec.and_comm, BitVec.and_or_distrib_left, BitVec.and_comm, hv, BitVec.and_comm, hw]
  rfl

theorem Supported.ite {c : Prop} [Decidable c] {v w : U32} (hv : Supported v) (hw : Supported w) :
    Supported (if c then v else w) := by
  split
  · exact hv
  · exact hw

instance (w : U32) : Decidable (Supported w) := inferInstanceAs (Decidable (_ = _))

theorem supported_zero : Supported 0 := by decide

theorem linkWord_supported (phy : PhyDevice) (rxPause txPause : Bool) :
    Supported (linkWord phy rxPause txPause) := by
  have hgig : Supported cpswSlCtlGig := by decide
  have hband : Supported cpswSlCtlIfctlA := by decide
  have hext : Supported cpswSlCtlExtEn := by decide
  refine .or (.or (.or (.or (.or ?_ ?_) ?_) ?_) ?_) ?_
  · decide
  · exact .ite hgig supported_zero
  · exact .ite (by decide) supported_zero
  · exact .ite hband (.ite hext supported_zero)
  · exact .ite (by decide) supported_zero
  · exact .ite (by decide) supported_zero

/-- CPSW_SL_CTL_GMII_EN -/
theorem linkWord_gmiiEn (phy : PhyDevice) (rxPause txPause : Bool) :
    (linkWord phy rxPause txPause).getLsbD 5 = true := by
  have hbit : cpswSlCtlGmiiEn.getLsbD 5 = true := by decide
  unfold linkWord
  simp only [BitVec.getLsbD_or, hbit, Bool.true_or]

theorem cpswSlCtlSet_linkWord (maccontrol : U32) (phy : PhyDevice) (rxPause txPause : Bool) :
    (cpswSlCtlSet maccontrol (linkWord phy rxPause txPause)).1 =
      maccontrol ||| linkWord phy rxPause txPause := by
  have hfit : linkWord phy rxPause txPause &&& ~~~controlFeatures = 0 :=
    linkWord_supported phy rxPause txPause
  unfold cpswSlCtlSet
  rw [if_neg (not_not.mpr hfit)]

/-- What a step does to the list of the words that links came up with. -/
def nextWords (s : State) (ws : Port → List U32) : Op → Port → List U32
  | .ndoOpen p _ => Function.update ws p []
  | .link p phy =>
    Function.update ws p
      (if phy.link then ws p ++ [linkWord phy (s.slaves p).rxPause (s.slaves p).txPause] else [])
  | .ndoStop _ | .setPauseparam .. => ws

def wordsOf (softReset : U32 → U32) : State → (Port → List U32) → List Op → Port → List U32
  | _, ws, [] => ws
  | s, ws, op :: ls =>
    match step softReset s op with
    | none => ws
    | some t => wordsOf softReset t (nextWords s ws op) ls

/-- The register is the words together, the record the last of them. -/
structure Shows (slave : Slave) (ws : List U32) : Prop where
  register : slave.maccontrol = orAll ws
  record : slave.macControl = ws.getLastD 0
  enabled : ∀ w ∈ ws, w.getLsbD 5 = true

def openPorts (opened : Port → Bool) : ℤ := (if opened 0 then 1 else 0) + if opened 1 then 1 else 0

/-- usage_count counts the open ports, and a port with a PHY is open and shows its words. -/
structure Inv (s : State) (ws : Port → List U32) : Prop where
  count : s.usageCount = openPorts s.opened
  opened : ∀ p, (s.slaves p).phy.isSome = true → s.opened p = true
  shows : ∀ p, (s.slaves p).phy.isSome = true → Shows (s.slaves p) (ws p)

variable {softReset : U32 → U32} {s t : State} {ws : Port → List U32} {p : Port}

theorem Shows.adjustLink {slave : Slave} {phy : PhyDevice} {ws : List U32} (h : Shows slave ws) :
    Shows (cpswAdjustLink { slave with phy := some phy })
      (if phy.link then ws ++ [linkWord phy slave.rxPause slave.txPause] else []) := by
  unfold cpswAdjustLink
  dsimp only
  split
  · refine ⟨?_, List.getLastD_concat.symm, ?_⟩
    · rw [orAll_concat, cpswSlCtlSet_linkWord, h.register]
      dsimp only
      split
      · rfl
      · rename_i hsame
        rw [not_not.mp hsame, h.record, BitVec.or_comm, getLastD_or_orAll]
    · intro w hw
      rcases List.mem_append.mp hw with hmem | hmem
      · exact h.enabled w hmem
      · exact List.mem_singleton.mp hmem ▸ linkWord_gmiiEn ..
  · exact ⟨rfl, rfl, nofun⟩

theorem Shows.setPauseparam {slave : Slave} {ws : List U32} (h : Shows slave ws)
    (valid rxPause txPause : Bool) :
    Shows (cpswSetPauseparam slave valid rxPause txPause).1 ws := by
  unfold cpswSetPauseparam
  split
  · exact h
  split
  · exact h
  · exact ⟨h.register, h.record, h.enabled⟩

theorem openPorts_open {opened : Port → Bool} (h : opened p = false) :
    openPorts (Function.update opened p true) = openPorts opened + 1 := by
  match p, h with
  | 0, h => simp [openPorts, h, add_comm]
  | 1, h => simp [openPorts, h]

theorem openPorts_stop {opened : Port → Bool} (h : opened p = true) :
    openPorts (Function.update opened p false) = openPorts opened - 1 := by
  match p, h with
  | 0, h => simp [openPorts, h]
  | 1, h => simp [openPorts, h]

theorem openPorts_nonneg (opened : Port → Bool) : 0 ≤ openPorts opened := by
  unfold openPorts
  split <;> split <;> decide

theorem opened_eq_false {opened : Port → Bool} (h : openPorts opened = 0) : opened p = false := by
  by_contra hne
  have hstop := openPorts_stop (Bool.eq_true_of_not_eq_false hne)
  have hnonneg := openPorts_nonneg (Function.update opened p false)
  omega

/-- The soft reset comes when no port has a PHY. -/
theorem Inv.initHostPort (h : Inv s ws) (hzero : s.usageCount = 0) :
    Inv (cpswInitHostPort softReset s) ws where
  count := h.count
  opened := h.opened
  shows p hphy := by
    have hopen : s.opened p = true := h.opened p hphy
    exact absurd hopen (opened_eq_false (h.count.symm.trans hzero) ▸ Bool.false_ne_true)

@[simp] theorem setSlave_self (s : State) (p : Port) (slave : Slave) :
    (s.setSlave p slave).slaves p = slave := Function.update_self ..

@[simp] theorem setSlave_of_ne {q : Port} (hq : q ≠ p) (s : State) (slave : Slave) :
    (s.setSlave p slave).slaves q = s.slaves q := Function.update_of_ne hq ..

/-- One slave is replaced, by one without a PHY or by one that shows its words. -/
theorem Inv.setSlave (h : Inv s ws) {slave : Slave} {w : List U32} {opened : Port → Bool}
    (hopened : ∀ q, q ≠ p → opened q = s.opened q) {n : ℤ} (hcount : n = openPorts opened)
    (hopen : slave.phy.isSome = true → opened p = true)
    (hshows : slave.phy.isSome = true → Shows slave w) :
    Inv { s.setSlave p slave with opened := opened, usageCount := n } (Function.update ws p w) where
  count := hcount
  opened q hphy := by
    dsimp only at hphy ⊢
    by_cases hq : q = p
    · rw [hq, setSlave_self] at hphy
      rw [hq]
      exact hopen hphy
    · rw [setSlave_of_ne hq] at hphy
      exact (hopened q hq).trans (h.opened q hphy)
  shows q hphy := by
    dsimp only at hphy ⊢
    by_cases hq : q = p
    · rw [hq, setSlave_self] at hphy
      rw [hq, setSlave_self, Function.update_self]
      exact hshows hphy
    · rw [setSlave_of_ne hq] at hphy
      rw [setSlave_of_ne hq, Function.update_of_ne hq]
      exact h.shows q hphy

theorem Inv.ndoOpen (h : Inv s ws) (hclosed : s.opened p = false) (phy : Option PhyDevice) :
    Inv (cpswNdoOpen softReset s p phy) (Function.update ws p []) := by
  have hinit : Inv (if s.usageCount = 0 then cpswInitHostPort softReset s else s) ws := by
    split
    · rename_i hzero
      exact h.initHostPort hzero
    · exact h
  have hopened : (if s.usageCount = 0 then cpswInitHostPort softReset s else s).opened =
      s.opened := by
    split <;> rfl
  unfold cpswNdoOpen
  dsimp only
  generalize (if s.usageCount = 0 then cpswInitHostPort softReset s else s) = u at hinit hopened ⊢
  refine hinit.setSlave (fun q hq => Function.update_of_ne hq _ _) ?_ ?_ fun _ => ?_
  · have hcount : u.usageCount = openPorts s.opened := hopened ▸ hinit.count
    show u.usageCount + 1 = openPorts (Function.update u.opened p true)
    rw [hopened, openPorts_open hclosed, hcount]
  · exact fun _ => Function.update_self ..
  · unfold cpswSlaveOpen
    cases phy <;> exact ⟨rfl, rfl, nofun⟩

theorem Inv.step {op : Op} (h : Inv s ws) (hst : MacControl.step softReset s op = some t) :
    Inv t (nextWords s ws op) := by
  cases op with
  | ndoOpen p phy =>
    simp only [MacControl.step] at hst
    split at hst
    · cases hst
    · rename_i hclosed
      obtain rfl := Option.some.inj hst
      exact h.ndoOpen (Bool.not_eq_true _ ▸ hclosed) phy
  | ndoStop p =>
    simp only [MacControl.step] at hst
    split at hst
    · rename_i hopen
      obtain rfl := Option.some.inj hst
      have hcount : s.usageCount - 1 = openPorts (Function.update s.opened p false) := by
        rw [openPorts_stop hopen, h.count]
      have hstop : Inv (cpswNdoStop s p) (Function.update ws p (ws p)) :=
        h.setSlave (fun q hq => Function.update_of_ne hq _ _) hcount nofun nofun
      rwa [Function.update_eq_self] at hstop
    · cases hst
  | link p phy =>
    simp only [MacControl.step] at hst
    split at hst
    · rename_i hphy
      obtain rfl := Option.some.inj hst
      exact h.setSlave (fun _ _ => rfl) h.count (fun _ => h.opened p hphy)
        fun _ => (h.shows p hphy).adjustLink
    · cases hst
  | setPauseparam p valid rxPause txPause =>
    obtain rfl := Option.some.inj hst
    have hphy :
        (cpswSetPauseparam (s.slaves p) valid rxPause txPause).1.phy = (s.slaves p).phy := by
      unfold cpswSetPauseparam
      split
      · rfl
      split <;> rfl
    have hset := h.setSlave (w := ws p) (fun _ _ => rfl) h.count
      (fun hsome => h.opened p (hphy ▸ hsome))
      fun hsome => (h.shows p (hphy ▸ hsome)).setPauseparam valid rxPause txPause
    rwa [Function.update_eq_self] at hset

theorem Inv.run {ls : List Op} (h : Inv s ws)
    (hrun : Run (MacControl.step softReset) anyStep s ls t) :
    Inv t (wordsOf softReset s ws ls) := by
  induction hrun generalizing ws with
  | nil => exact h
  | cons _ hst _ ih =>
    unfold wordsOf
    rw [hst]
    exact ih (h.step hst)

/-- Both ports are down. -/
structure Down (s : State) : Prop where
  count : s.usageCount = 0
  opened : s.opened = fun _ => false
  phy : ∀ p, (s.slaves p).phy = none

theorem Down.inv (h : Down s) : Inv s fun _ => [] where
  count := by
    rw [h.count, h.opened]
    rfl
  opened p hphy := absurd hphy (by simp [h.phy p])
  shows p hphy := absurd hphy (by simp [h.phy p])

/-- The register of a port that is up holds all the words since its link was last down. It is
enabled while the link is up, and set as the driver has recorded if and only if no word had a bit
that the last one has not. -/
theorem maccontrol_of_run {s₀ : State} {ls : List Op} {ws : List U32} (hdown : Down s₀)
    (hrun : Run (MacControl.step softReset) anyStep s₀ ls s)
    (hphy : (s.slaves p).phy.isSome = true) (hws : wordsOf softReset s₀ (fun _ => []) ls p = ws) :
    (s.slaves p).maccontrol = orAll ws ∧ (s.slaves p).macControl = ws.getLastD 0 ∧
      ((s.slaves p).maccontrol.getLsbD 5 = true ↔ ws ≠ []) ∧
      ((s.slaves p).maccontrol = (s.slaves p).macControl ↔
        ∀ w ∈ ws, w ||| (s.slaves p).macControl = (s.slaves p).macControl) := by
  have hshows := (hdown.inv.run hrun).shows p hphy
  rw [hws] at hshows
  refine ⟨hshows.register, hshows.record, ?_, ?_⟩
  · rw [hshows.register, getLsbD_orAll]
    constructor
    · rintro ⟨w, hw, -⟩
      exact List.ne_nil_of_mem hw
    · intro hne
      obtain ⟨w, hw⟩ := List.exists_mem_of_ne_nil ws hne
      exact ⟨w, hw, hshows.enabled w hw⟩
  · rw [hshows.register, hshows.record]
    exact orAll_eq_getLastD_iff

def closedSlave : Slave := ⟨none, 0, 0, false, false⟩

def closedState : State := ⟨fun _ => closedSlave, fun _ => false, 0⟩

/-- A link that goes from 1000 to 100 Mbit/s and is not reported down in between. -/
def slowedDown : List Op :=
  [.ndoOpen 0 (some ⟨false, -1, 0, true⟩), .link 0 ⟨true, 1000, 1, true⟩,
    .link 0 ⟨true, 100, 1, true⟩]

theorem maccontrol_slowedDown : ∃ s, Run (MacControl.step id) anyStep closedState slowedDown s ∧
    (s.slaves 0).maccontrol = 0x80a1 ∧ (s.slaves 0).macControl = 0x8021 := by
  have hany : (exec (MacControl.step id) anyStep closedState slowedDown).any
      (fun s => (s.slaves 0).phy.isSome) = true := by decide
  obtain ⟨s, hrun, hphy⟩ := exists_run_of_any hany
  have hws : wordsOf id closedState (fun _ => []) slowedDown 0 = [0xa1, 0x8021] := by decide
  obtain ⟨hregister, hrecord, -⟩ := maccontrol_of_run ⟨rfl, rfl, fun _ => rfl⟩ hrun hphy hws
  exact ⟨s, hrun, hregister, hrecord⟩

end CpswDriver.MacControl
