import CpswDriver.Cpsw.Coalesce
import CpswDriver.Cpsw.Devices

/-!
The driver as a whole. Opening and stopping a net device does something to the
lookup engine, to the rings, to the interrupts, to the MAC of the port and to
the pacer. Each of these has its own state, and each counts the open devices
for itself. Here every call goes to all of them at once: what holds of the runs
of one holds of the runs of the whole, and they never disagree about the
devices and the PHYs.
-/

namespace CpswDriver.Driver

open Runs
open OpenStop (Port)
open MacControl (PhyDevice openPorts)
open Cpsw.Pacing (CpswCommon cpswSetCoalesce)

structure Params where
  mode : SwitchMode.CpswParams
  rings : OpenStop.CpswParams
  intr : Interrupts.CpswParams
  /-- what the soft reset makes of the control register of a sliver -/
  softReset : U32 → U32
  rxv_mem : ∀ ch < rings.rxChNum, rings.rxv ch ∈ intr.chans

structure State where
  mode : SwitchMode.State
  rings : OpenStop.State
  intr : Interrupts.State
  mac : MacControl.State
  pacing : CpswCommon

inductive Op
  /-- an open that succeeds; `phy` is the PHY that it finds -/
  | ndoOpen (p : Port) (ans : OpenStop.Answers) (phy : Option PhyDevice)
  | ndoStop (p : Port) (sched : List (Cpdma.Op ℕ))
  | adjustLink (p : Port) (phy : PhyDevice)
  | switchModeSet (id : SwitchMode.CpswDlParam) (switchEn : Bool)
  | setPauseparam (p : Port) (valid rxPause txPause : Bool)
  | setCoalesce (rxCoalesceUsecs : U32)
  /-- the lookup engine learns, refreshes or ages out an entry -/
  | aleHardware (idx : ℕ) (aleEntry : Ale.AleEntry)
  /-- the DMA engine -/
  | engine (op : Cpdma.Op ℕ)
  /-- an interrupt, the softirq, the watchdog, netpoll, or a thread that goes on -/
  | intr (op : Interrupts.Op)

/-- The answers to an open, of which the PHY is known. -/
def withPhy (ans : OpenStop.Answers) (phy : Option PhyDevice) : OpenStop.Answers :=
  { ans with phyConnect := phy.isSome }

def step (params : Params) (s : State) : Op → Option State
  | .ndoOpen p ans phy => do
    let mode ← SwitchMode.step params.mode s.mode (.openPort p phy.isSome)
    let rings ← OpenStop.step params.rings s.rings (.ndoOpen p (withPhy ans phy))
    let intr ← Interrupts.step params.intr s.intr (.ndoOpen p true)
    let mac ← MacControl.step params.softReset s.mac (.ndoOpen p phy)
    -- the link of a new PHY is not up yet
    if rings.ret = 0 ∧ phy.any (·.link) = false then
      some ⟨mode, rings, intr, mac, Cpsw.Pacing.cpswNdoOpen s.pacing⟩
    else none
  | .ndoStop p sched => do
    let mode ← SwitchMode.step params.mode s.mode (.stopPort p)
    let rings ← OpenStop.step params.rings s.rings (.ndoStop p sched)
    let intr ← Interrupts.step params.intr s.intr (.ndoStop p)
    let mac ← phyStop params.softReset s.mac p
    let mac ← MacControl.step params.softReset mac (.ndoStop p)
    some ⟨mode, rings, intr, mac, s.pacing⟩
  | .adjustLink p phy => do
    let mode ← SwitchMode.step params.mode s.mode (.adjustLink p phy.link)
    let mac ← MacControl.step params.softReset s.mac (.link p phy)
    some { s with mode := mode, mac := mac }
  | .switchModeSet id switchEn =>
    (SwitchMode.step params.mode s.mode (.switchModeSet id switchEn)).map
      fun mode => { s with mode := mode }
  | .setPauseparam p valid rxPause txPause =>
    (MacControl.step params.softReset s.mac (.setPauseparam p valid rxPause txPause)).map
      fun mac => { s with mac := mac }
  | .setCoalesce rxCoalesceUsecs =>
    some { s with pacing := (cpswSetCoalesce s.pacing rxCoalesceUsecs).1 }
  | .aleHardware idx aleEntry =>
    (SwitchMode.step params.mode s.mode (.hardware idx aleEntry)).map
      fun mode => { s with mode := mode }
  | .engine op =>
    (OpenStop.step params.rings s.rings (.engine op)).map fun rings => { s with rings := rings }
  | .intr op =>
    if isCall op then none
    else (Interrupts.step params.intr s.intr op).map fun intr => { s with intr := intr }

/-- The parts agree about the devices and about the PHYs. -/
structure Agree (s : State) : Prop where
  mode : modeUsage s.mode = macUsage s.mac
  rings : ringsUsage s.rings = macUsage s.mac
  intr : intrUsage s.intr = macUsage s.mac
  modePhy : s.mode.phy = macPhy s.mac
  ringsPhy : s.rings.phy = fun p => (macPhy s.mac p).isSome

variable {params : Params} {s₀ s t : State}

theorem step_ndoOpen {p : Port} {ans : OpenStop.Answers} {phy : Option PhyDevice}
    (hst : step params s (.ndoOpen p ans phy) = some t) :
    SwitchMode.step params.mode s.mode (.openPort p phy.isSome) = some t.mode ∧
      OpenStop.step params.rings s.rings (.ndoOpen p (withPhy ans phy)) = some t.rings ∧
      Interrupts.step params.intr s.intr (.ndoOpen p true) = some t.intr ∧
      MacControl.step params.softReset s.mac (.ndoOpen p phy) = some t.mac ∧
      t.pacing = Cpsw.Pacing.cpswNdoOpen s.pacing ∧ t.rings.ret = 0 ∧
      phy.any (·.link) = false := by
  simp only [step, Option.bind_eq_bind, Option.bind_eq_some_iff] at hst
  obtain ⟨mode, hmode, rings, hrings, intr, hintr, mac, hmac, hst⟩ := hst
  split at hst
  · rename_i hok
    cases hst
    exact ⟨hmode, hrings, hintr, hmac, rfl, hok⟩
  · cases hst

/-- So does a stop. -/
theorem step_ndoStop {p : Port} {sched : List (Cpdma.Op ℕ)}
    (hst : step params s (.ndoStop p sched) = some t) :
    SwitchMode.step params.mode s.mode (.stopPort p) = some t.mode ∧
      OpenStop.step params.rings s.rings (.ndoStop p sched) = some t.rings ∧
      Interrupts.step params.intr s.intr (.ndoStop p) = some t.intr ∧
      (∃ mac, phyStop params.softReset s.mac p = some mac ∧
        MacControl.step params.softReset mac (.ndoStop p) = some t.mac) ∧
      t.pacing = s.pacing := by
  simp only [step, Option.bind_eq_bind, Option.bind_eq_some_iff] at hst
  obtain ⟨mode, hmode, rings, hrings, intr, hintr, mac, hphy, mac', hmac, hst⟩ := hst
  cases hst
  exact ⟨hmode, hrings, hintr, ⟨mac, hphy, hmac⟩, rfl⟩

theorem step_adjustLink {p : Port} {phy : PhyDevice}
    (hst : step params s (.adjustLink p phy) = some t) :
    SwitchMode.step params.mode s.mode (.adjustLink p phy.link) = some t.mode ∧
      MacControl.step params.softReset s.mac (.link p phy) = some t.mac ∧
      t.rings = s.rings ∧ t.intr = s.intr ∧ t.pacing = s.pacing := by
  simp only [step, Option.bind_eq_bind, Option.bind_eq_some_iff] at hst
  obtain ⟨mode, hmode, mac, hmac, hst⟩ := hst
  cases hst
  exact ⟨hmode, hmac, rfl, rfl, rfl⟩

theorem step_intr {op : Interrupts.Op} (hst : step params s (.intr op) = some t) :
    isCall op = false ∧ Interrupts.step params.intr s.intr op = some t.intr ∧
      t.mode = s.mode ∧ t.rings = s.rings ∧ t.mac = s.mac ∧ t.pacing = s.pacing := by
  simp only [step] at hst
  split at hst
  · cases hst
  · rename_i hop
    obtain ⟨intr, hintr, rfl⟩ := Option.map_eq_some_iff.mp hst
    exact ⟨Bool.not_eq_true _ ▸ hop, hintr, rfl, rfl, rfl, rfl⟩

/-- The opens that the parts are covered at, and the other steps that the mode is covered at. -/
def Covered (params : Params) (s : State) : Op → Prop
  | .ndoOpen p ans phy =>
    SwitchMode.Covered s.mode (.openPort p phy.isSome) ∧
      OpenStop.Covered params.rings s.rings (.ndoOpen p (withPhy ans phy))
  | .ndoStop p _ => SwitchMode.Covered s.mode (.stopPort p)
  | .switchModeSet id switchEn => SwitchMode.Covered s.mode (.switchModeSet id switchEn)
  | _ => True

instance (params : Params) (s : State) : DecidablePred (Covered params s)
  | .ndoOpen .. => inferInstanceAs (Decidable (_ ∧ _))
  | .ndoStop p _ => inferInstanceAs (Decidable (SwitchMode.Covered s.mode (.stopPort p)))
  | .switchModeSet id switchEn =>
    inferInstanceAs (Decidable (SwitchMode.Covered s.mode (.switchModeSet id switchEn)))
  | .adjustLink .. | .setPauseparam .. | .setCoalesce .. | .aleHardware .. | .engine .. |
    .intr .. => .isTrue trivial

def Granted (_ : Interrupts.State) (op : Interrupts.Op) : Prop := ∀ p, op ≠ .ndoOpen p false

/-- Each part has a run of its own from one state to the other. -/
structure Parts (params : Params) (s t : State) : Prop where
  mode : ∃ ops, Run (SwitchMode.step params.mode) SwitchMode.Covered s.mode ops t.mode
  rings : ∃ ops, Run (OpenStop.step params.rings) (OpenStop.Covered params.rings) s.rings ops
    t.rings
  intr : ∃ ops, Run (Interrupts.step params.intr) Granted s.intr ops t.intr
  mac : ∃ ops, Run (MacControl.step params.softReset) anyStep s.mac ops t.mac

theorem Parts.refl (s : State) : Parts params s s :=
  ⟨⟨[], .nil _⟩, ⟨[], .nil _⟩, ⟨[], .nil _⟩, ⟨[], .nil _⟩⟩

theorem Parts.trans {u : State} (h : Parts params s t) (h' : Parts params t u) :
    Parts params s u := by
  obtain ⟨⟨_, hmode⟩, ⟨_, hrings⟩, ⟨_, hintr⟩, ⟨_, hmac⟩⟩ := h
  obtain ⟨⟨_, hmode'⟩, ⟨_, hrings'⟩, ⟨_, hintr'⟩, ⟨_, hmac'⟩⟩ := h'
  exact ⟨⟨_, hmode.append hmode'⟩, ⟨_, hrings.append hrings'⟩, ⟨_, hintr.append hintr'⟩,
    ⟨_, hmac.append hmac'⟩⟩

theorem phyStop_run {softReset : U32 → U32} {mac mac' : MacControl.State} {p : Port}
    (h : phyStop softReset mac p = some mac') :
    ∃ ops, Run (MacControl.step softReset) anyStep mac ops mac' := by
  unfold phyStop at h
  split at h
  · split at h
    · exact ⟨_, .single h trivial⟩
    · cases h
      exact ⟨[], .nil _⟩
  · cases h
    exact ⟨[], .nil _⟩

theorem parts_of_step {op : Op} (hok : Covered params s op)
    (hst : step params s op = some t) : Parts params s t := by
  cases op with
  | ndoOpen p ans phy =>
    obtain ⟨hmode, hrings, hintr, hmac, -⟩ := step_ndoOpen hst
    exact ⟨⟨_, .single hmode hok.1⟩, ⟨_, .single hrings hok.2⟩,
      ⟨_, .single hintr (fun q hq => nomatch hq)⟩, ⟨_, .single hmac trivial⟩⟩
  | ndoStop p sched =>
    obtain ⟨hmode, hrings, hintr, ⟨mac, hphy, hmac⟩, -⟩ := step_ndoStop hst
    obtain ⟨ops, hops⟩ := phyStop_run hphy
    exact ⟨⟨_, .single hmode hok⟩, ⟨_, .single hrings trivial⟩,
      ⟨_, .single hintr (fun q hq => nomatch hq)⟩, ⟨_, hops.append (.single hmac trivial)⟩⟩
  | adjustLink p phy =>
    obtain ⟨hmode, hmac, hrings, hintr, -⟩ := step_adjustLink hst
    refine ⟨⟨_, .single hmode trivial⟩, ⟨[], ?_⟩, ⟨[], ?_⟩, ⟨_, .single hmac trivial⟩⟩
    · rw [hrings]
      exact .nil _
    · rw [hintr]
      exact .nil _
  | intr op =>
    obtain ⟨hop, hintr, hmode, hrings, hmac, -⟩ := step_intr hst
    have hgranted : Granted s.intr op := by
      rintro p rfl
      cases hop
    refine ⟨⟨[], ?_⟩, ⟨[], ?_⟩, ⟨_, .single hintr hgranted⟩, ⟨[], ?_⟩⟩
    · rw [hmode]
      exact .nil _
    · rw [hrings]
      exact .nil _
    · rw [hmac]
      exact .nil _
  | switchModeSet id switchEn =>
    simp only [step] at hst
    obtain ⟨mode, hmode, rfl⟩ := Option.map_eq_some_iff.mp hst
    exact ⟨⟨_, .single hmode hok⟩, ⟨[], .nil _⟩, ⟨[], .nil _⟩, ⟨[], .nil _⟩⟩
  | aleHardware idx aleEntry =>
    simp only [step] at hst
    obtain ⟨mode, hmode, rfl⟩ := Option.map_eq_some_iff.mp hst
    exact ⟨⟨_, .single hmode trivial⟩, ⟨[], .nil _⟩, ⟨[], .nil _⟩, ⟨[], .nil _⟩⟩
  | setPauseparam p valid rxPause txPause =>
    simp only [step] at hst
    obtain ⟨mac, hmac, rfl⟩ := Option.map_eq_some_iff.mp hst
    exact ⟨⟨[], .nil _⟩, ⟨[], .nil _⟩, ⟨[], .nil _⟩, ⟨_, .single hmac trivial⟩⟩
  | engine op =>
    simp only [step] at hst
    obtain ⟨rings, hrings, rfl⟩ := Option.map_eq_some_iff.mp hst
    exact ⟨⟨[], .nil _⟩, ⟨_, .single hrings trivial⟩, ⟨[], .nil _⟩, ⟨[], .nil _⟩⟩
  | setCoalesce rxCoalesceUsecs =>
    cases hst
    exact ⟨⟨[], .nil _⟩, ⟨[], .nil _⟩, ⟨[], .nil _⟩, ⟨[], .nil _⟩⟩

/-- A run of the whole is a run of each of its parts. -/
theorem parts_of_run {ops : List Op} (hrun : Run (step params) (Covered params) s ops t) :
    Parts params s t :=
  hrun.invariant (fun _ _ _ hparts hok hst => hparts.trans (parts_of_step hok hst)) (.refl s)

theorem Agree.ndoOpen (h : Agree s) {p : Port} {ans : OpenStop.Answers}
    {phy : Option PhyDevice} (hst : step params s (.ndoOpen p ans phy) = some t) : Agree t := by
  obtain ⟨hmode, hrings, hintr, hmac, -, hret, hlink⟩ := step_ndoOpen hst
  obtain ⟨hmac, hmacPhy⟩ := mac_open hlink hmac
  obtain ⟨hmode, hmodePhy⟩ := mode_open hmode
  obtain ⟨hrings, hringsPhy⟩ := rings_open hrings hret
  have hintr := intr_open hintr
  rw [h.mode] at hmode
  rw [h.rings] at hrings
  rw [h.intr] at hintr
  refine ⟨Option.some.inj (hmode.symm.trans hmac), Option.some.inj (hrings.symm.trans hmac),
    Option.some.inj (hintr.symm.trans hmac), ?_, ?_⟩
  · rw [hmodePhy, hmacPhy, h.modePhy]
  · rw [hringsPhy, hmacPhy, isSome_openPhy, h.ringsPhy]
    rfl

theorem Agree.ndoStop (h : Agree s) (hinv : Interrupts.Inv params.intr False s.intr) {p : Port}
    {sched : List (Cpdma.Op ℕ)} (hst : step params s (.ndoStop p sched) = some t) :
    Agree t := by
  obtain ⟨hmode, hrings, hintr, ⟨mac, hphy, hmac⟩, -⟩ := step_ndoStop hst
  obtain ⟨hmac, hmacPhy⟩ := mac_stop hphy hmac
  obtain ⟨hmode, hmodePhy⟩ := mode_stop hmode
  obtain ⟨hrings, hringsPhy⟩ := rings_stop hrings
  have hintr := intr_stop hinv hintr
  rw [h.mode] at hmode
  rw [h.rings] at hrings
  rw [h.intr] at hintr
  refine ⟨Option.some.inj (hmode.symm.trans hmac), Option.some.inj (hrings.symm.trans hmac),
    Option.some.inj (hintr.symm.trans hmac), ?_, ?_⟩
  · rw [hmodePhy, hmacPhy, h.modePhy]
  · rw [hringsPhy, hmacPhy, h.ringsPhy]
    funext q
    by_cases hq : q = p
    · subst hq
      simp
    · simp [hq]

theorem Agree.adjustLink (h : Agree s) {p : Port} {phy : PhyDevice}
    (hst : step params s (.adjustLink p phy) = some t) : Agree t := by
  obtain ⟨hmode, hmac, hrings, hintr, -⟩ := step_adjustLink hst
  obtain ⟨hmac, hmacPhy⟩ := mac_link hmac
  obtain ⟨hmode, hmodePhy⟩ := mode_link hmode
  refine ⟨?_, ?_, ?_, ?_, ?_⟩
  · rw [hmode, hmac, h.mode]
  · rw [hrings, hmac, h.rings]
  · rw [hintr, hmac, h.intr]
  · rw [hmodePhy, hmacPhy, h.modePhy]
  · rw [hrings, hmacPhy, isSome_linkPhy, h.ringsPhy]

/-- Whatever step it is, the parts go on to agree. -/
theorem Agree.step (h : Agree s) (hinv : Interrupts.Inv params.intr False s.intr) {op : Op}
    (hst : Driver.step params s op = some t) : Agree t := by
  cases op with
  | ndoOpen p ans phy => exact h.ndoOpen hst
  | ndoStop p sched => exact h.ndoStop hinv hst
  | adjustLink p phy => exact h.adjustLink hst
  | switchModeSet id switchEn =>
    cases hst
    have hsame := sameDevices_modeSet params.mode s.mode id switchEn
    exact ⟨hsame.usage.trans h.mode, h.rings, h.intr, hsame.phy.trans h.modePhy, h.ringsPhy⟩
  | setPauseparam p valid rxPause txPause =>
    simp only [Driver.step] at hst
    obtain ⟨mac, hmac, rfl⟩ := Option.map_eq_some_iff.mp hst
    obtain ⟨husage, hphy⟩ := mac_pause hmac
    refine ⟨?_, ?_, ?_, ?_, ?_⟩
    · exact h.mode.trans husage.symm
    · exact h.rings.trans husage.symm
    · exact h.intr.trans husage.symm
    · exact h.modePhy.trans hphy.symm
    · rw [hphy]
      exact h.ringsPhy
  | setCoalesce rxCoalesceUsecs =>
    cases hst
    exact ⟨h.mode, h.rings, h.intr, h.modePhy, h.ringsPhy⟩
  | aleHardware idx aleEntry =>
    simp only [Driver.step] at hst
    obtain ⟨mode, hmode, rfl⟩ := Option.map_eq_some_iff.mp hst
    simp only [SwitchMode.step] at hmode
    split at hmode
    · cases hmode
      exact ⟨h.mode, h.rings, h.intr, h.modePhy, h.ringsPhy⟩
    · cases hmode
  | engine op =>
    simp only [Driver.step] at hst
    obtain ⟨rings, hrings, rfl⟩ := Option.map_eq_some_iff.mp hst
    simp only [OpenStop.step] at hrings
    split at hrings
    · obtain ⟨c, -, rfl⟩ := Option.map_eq_some_iff.mp hrings
      exact ⟨h.mode, h.rings, h.intr, h.modePhy, h.ringsPhy⟩
    · cases hrings
  | intr op =>
    obtain ⟨hop, hintr, hmode, hrings, hmac, -⟩ := step_intr hst
    have husage := intr_other hinv hop hintr
    refine ⟨?_, ?_, ?_, ?_, ?_⟩
    · rw [hmode, hmac, h.mode]
    · rw [hrings, hmac, h.rings]
    · rw [husage, hmac, h.intr]
    · rw [hmode, hmac, h.modePhy]
    · rw [hrings, hmac, h.ringsPhy]

/-- The driver after the probe, with pacing off. -/
structure Initial (params : Params) (s : State) : Prop where
  mode : SwitchMode.Initial params.mode s.mode
  rings : OpenStop.Initial params.rings s.rings
  intr : Interrupts.Initial s.intr
  mac : MacControl.Down s.mac
  ringsPhy : s.rings.phy = fun _ => false
  coalIntvl : s.pacing.coalIntvl = 0
  bus : 16 ≤ s.pacing.busFreqMhz.toNat ∧ s.pacing.busFreqMhz.toNat ≤ 511

theorem Initial.agree (h : Initial params s) : Agree s where
  mode := Usage.ext (h.mode.usageCount.trans h.mac.count.symm)
    ((funext h.mode.running).trans h.mac.opened.symm)
  rings := Usage.ext (h.rings.counts.1.trans h.mac.count.symm)
    (h.rings.counts.2.2.trans h.mac.opened.symm)
  intr := by
    rw [intrUsage_of_idle (h.intr.code .rtnl)]
    exact Usage.ext (h.intr.usageCount.trans h.mac.count.symm)
      ((funext h.intr.opened).trans h.mac.opened.symm)
  modePhy := by
    funext p
    rw [h.mode.phy, macPhy, h.mac.phy]
    rfl
  ringsPhy := by
    funext p
    rw [h.ringsPhy, macPhy, h.mac.phy]
    rfl

/-- The bus is one that the pacer can be set for, and opening a device leaves it as it is. -/
structure Paced (pacing : CpswCommon) : Prop where
  bus : 16 ≤ pacing.busFreqMhz.toNat ∧ pacing.busFreqMhz.toNat ≤ 511
  again : Cpsw.Pacing.cpswNdoOpen pacing = pacing

theorem Paced.setCoalesce {pacing : CpswCommon} (h : Paced pacing) (usecs : U32) :
    Paced (cpswSetCoalesce pacing usecs).1 := by
  by_cases hzero : usecs = 0
  · subst hzero
    exact ⟨h.bus, if_neg (not_not.mpr rfl)⟩
  · have hpaces := Cpsw.Pacing.setCoalesce_paces h.bus.1 h.bus.2 hzero
    refine ⟨?_, hpaces.again⟩
    rw [Cpsw.Pacing.setCoalesce_of_ne hzero]
    exact h.bus

theorem Paced.step (h : Paced s.pacing) {op : Op} (hst : Driver.step params s op = some t) :
    Paced t.pacing := by
  cases op with
  | ndoOpen p ans phy =>
    obtain ⟨-, -, -, -, hpacing, -⟩ := step_ndoOpen hst
    rw [hpacing, h.again]
    exact h
  | ndoStop p sched =>
    obtain ⟨-, -, -, -, hpacing⟩ := step_ndoStop hst
    rwa [hpacing]
  | adjustLink p phy =>
    obtain ⟨-, -, -, -, hpacing⟩ := step_adjustLink hst
    rwa [hpacing]
  | intr op =>
    obtain ⟨-, -, -, -, -, hpacing⟩ := step_intr hst
    rwa [hpacing]
  | setCoalesce usecs =>
    cases hst
    exact h.setCoalesce usecs
  | switchModeSet | setPauseparam | aleHardware | engine =>
    simp only [Driver.step] at hst
    obtain ⟨_, -, rfl⟩ := Option.map_eq_some_iff.mp hst
    exact h

/-- What the parts know of the whole. -/
structure Inv (params : Params) (s : State) : Prop where
  agree : Agree s
  paced : Paced s.pacing
  mode : SwitchMode.Inv params.mode s.mode
  rings : OpenStop.Inv params.rings s.rings
  intr : Interrupts.Inv params.intr False s.intr

theorem intr_inv {s t : Interrupts.State} {params : Interrupts.CpswParams}
    {ops : List Interrupts.Op} (h : Interrupts.Inv params False s)
    (hrun : Run (Interrupts.step params) Granted s ops t) : Interrupts.Inv params False t :=
  hrun.invariant (fun _ _ _ hinv hok hst => hinv.step (fun p hp => hok p hp) hst) h

theorem Initial.intr_inv (h : Initial params s₀) (hparts : Parts params s₀ s) :
    Interrupts.Inv params.intr False s.intr := by
  obtain ⟨ops, hrun⟩ := hparts.intr
  exact Driver.intr_inv h.intr.inv hrun

theorem Inv.of_run (hinit : Initial params s₀) {ops : List Op}
    (hrun : Run (Driver.step params) (Covered params) s₀ ops s) : Inv params s := by
  have hparts := parts_of_run hrun
  obtain ⟨_, hmode⟩ := hparts.mode
  obtain ⟨_, hrings⟩ := hparts.rings
  have hstart : Paced s₀.pacing := ⟨hinit.bus, if_neg (not_not.mpr hinit.coalIntvl)⟩
  have hkeeps : Parts params s₀ s ∧ Agree s ∧ Paced s.pacing := by
    refine Run.invariant (I := fun u => Parts params s₀ u ∧ Agree u ∧ Paced u.pacing)
      (fun u op v h hok hst => ?_) hrun ⟨.refl s₀, hinit.agree, hstart⟩
    obtain ⟨hbefore, hagree, hpaced⟩ := h
    exact ⟨hbefore.trans (parts_of_step hok hst),
      hagree.step (hinit.intr_inv hbefore) hst, hpaced.step hst⟩
  refine ⟨hkeeps.2.1, hkeeps.2.2, ?_, OpenStop.Inv.of_run hinit.rings hrings,
    hinit.intr_inv hparts⟩
  exact hmode.invariant (fun _ _ _ h hok hst => h.step hok hst) hinit.mode.inv

/-- Nothing is under way in any thread. -/
def State.Quiet (s : State) : Prop := ∀ t, s.intr.code t = []

/-- With a device open: the rings are there, the engine has the entries of its mode, and both the
rings and the interrupts have the controller and the NAPIs on. -/
structure Up (params : Params) (s : State) : Prop where
  rings : OpenStop.Up params.rings s.rings
  mode : SwitchMode.Programs params.mode s.mode
  ctlr : s.Quiet → s.intr.ctlr = .active
  napi : s.Quiet → ∀ d, s.intr.napi d ≠ .off
  listens : s.Quiet → ∀ ch < params.rings.rxChNum,
    (s.intr.napi (Interrupts.dirOf (params.rings.rxv ch))).queued = false →
      (Interrupts.step params.intr s.intr (.interrupt (params.rings.rxv ch))).isSome

/-- With none open the rings are gone, the PHYs are gone, and nothing interrupts. -/
structure Down (params : Params) (s : State) : Prop where
  rings : OpenStop.Down params.rings s.rings
  phy : ∀ p, (s.mac.slaves p).phy = none
  ctlr : s.Quiet → s.intr.ctlr = .idle
  napi : s.Quiet → ∀ d, s.intr.napi d = .off
  silent : s.Quiet → ∀ ch ∈ params.intr.chans,
    Interrupts.step params.intr s.intr (.interrupt ch) = none

/-- In a quiet state the interrupts' part says what the others say. -/
theorem Inv.intr_opened (h : Inv params s) (hquiet : s.Quiet) :
    s.intr.usageCount = s.rings.usageCount ∧ s.intr.opened = s.rings.opened := by
  have hidle := intrUsage_of_idle (hquiet .rtnl)
  have hsame : intrUsage s.intr = ringsUsage s.rings := h.agree.intr.trans h.agree.rings.symm
  rw [hidle] at hsame
  exact ⟨congrArg Usage.usageCount hsame, congrArg Usage.opened hsame⟩

theorem Inv.up (h : Inv params s) {p : Port} (hp : s.rings.opened p = true) : Up params s := by
  have hpos : 0 < s.rings.usageCount := by
    rw [h.rings.usage]
    exact OpenStop.openPorts_pos hp
  have hrunning : s.mode.running p = true := by
    have hsame : modeUsage s.mode = ringsUsage s.rings := h.agree.mode.trans h.agree.rings.symm
    exact (congrFun (congrArg Usage.opened hsame) p).trans hp
  have hstanding : s.Quiet → s.intr.ctlr = .active ∧ ∀ d, s.intr.ctl.off d = false := by
    intro hquiet
    have hcount : s.intr.ctl.usageCount ≠ 0 :=
      (h.intr_opened hquiet).1.trans_ne (Int.ne_of_gt hpos)
    exact (h.intr.standing hquiet).up hcount
  refine ⟨h.rings.up hpos, h.mode.entries p hrunning, fun hquiet => (hstanding hquiet).1,
    fun hquiet d hoff => ?_, fun hquiet ch hlt hqueued => ?_⟩
  · have hon := (hstanding hquiet).2 d
    rw [show s.intr.ctl.off d = (s.intr.napi d == .off) from rfl, hoff] at hon
    cases hon
  · have hopen : s.intr.opened p = true := by
      rw [(h.intr_opened hquiet).2]
      exact hp
    exact h.intr.listens hquiet hopen (params.rxv_mem ch hlt) hqueued

theorem Inv.down (h : Inv params s) (hdown : ∀ p, s.rings.opened p = false) :
    Down params s := by
  have hzero : s.rings.usageCount = 0 := by
    rw [h.rings.usage, OpenStop.openPorts, hdown, hdown]
    rfl
  have hstanding : s.Quiet → s.intr.ctlr = .idle ∧ ∀ d, s.intr.ctl.off d = true := by
    intro hquiet
    have hcount : s.intr.ctl.usageCount = 0 := (h.intr_opened hquiet).1.trans hzero
    exact (h.intr.standing hquiet).down hcount
  refine ⟨h.rings.down (by omega), fun p => ?_, fun hquiet => (hstanding hquiet).1,
    fun hquiet d => ?_, fun hquiet ch hmem => ?_⟩
  · have hsame : modeUsage s.mode = ringsUsage s.rings := h.agree.mode.trans h.agree.rings.symm
    have hstopped : s.mode.running p = false :=
      (congrFun (congrArg Usage.opened hsame) p).trans (hdown p)
    have hnone : macPhy s.mac p = none := by
      rw [← h.agree.modePhy]
      exact h.mode.base.phy p hstopped
    exact Option.map_eq_none_iff.mp hnone
  · exact eq_of_beq ((hstanding hquiet).2 d)
  · refine h.intr.silent hquiet (fun p => ?_) hmem
    rw [(h.intr_opened hquiet).2]
    exact hdown p

/-- In every run of the whole the parts agree about the devices, which are counted, and about the
PHYs. With a device open all of them are up, with none all are down, and an open sets the pacer
as it was last set. -/
theorem together_of_run (hinit : Initial params s₀) {ops : List Op}
    (hrun : Run (step params) (Covered params) s₀ ops s) :
    Agree s ∧ s.rings.usageCount = openPorts s.rings.opened ∧
      Cpsw.Pacing.cpswNdoOpen s.pacing = s.pacing ∧
      ((∃ p, s.rings.opened p = true) → Up params s) ∧
      ((∀ p, s.rings.opened p = false) → Down params s) := by
  have h := Inv.of_run hinit hrun
  exact ⟨h.agree, h.rings.usage, h.paced.again, fun ⟨_, hp⟩ => h.up hp, h.down⟩

def twoDevices : Params where
  mode := SwitchMode.twoPorts
  rings := OpenStop.oneRx
  intr := Interrupts.oneOfEach
  softReset := id
  rxv_mem _ _ := List.mem_cons_of_mem 0 List.mem_cons_self

def probed : State where
  mode := SwitchMode.boot
  rings := OpenStop.probed
  intr := Interrupts.downState
  mac := MacControl.closedState
  pacing := ⟨⟨0, 0, 0⟩, 125, 0⟩

/-- The second device is open and its link is up, the first one is not. -/
example : (exec (step twoDevices) (Covered twoDevices) probed
    ([.setCoalesce 100, .ndoOpen 0 (OpenStop.pages 2 (List.replicate 65 (.advance 0))) none] ++
      List.replicate 12 (.intr (.run .rtnl)) ++
      [.ndoOpen 1 (OpenStop.pages 0 []) (some ⟨false, -1, 0, true⟩)] ++
      List.replicate 8 (.intr (.run .rtnl)) ++
      [.ndoStop 0 [], .adjustLink 1 ⟨true, 1000, 1, true⟩] ++
      List.replicate 3 (.intr (.run .rtnl)))).any (fun s =>
        s.rings.usageCount == 1 && s.intr.opened 1 && s.intr.code .rtnl == [] &&
          s.mode.phy 1 == some true) = true := by
  decide +kernel

end CpswDriver.Driver
