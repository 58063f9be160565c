import CpswDriver.Cpsw.MacControl
import CpswDriver.Cpsw.Noticed
import CpswDriver.Cpsw.SwitchMode

/-!
What the parts of the driver have in common: usage_count, the devices that are
open, and the PHYs with their links. Opening a device does the same to these in
the lookup engine's part, in the rings' part, in the interrupts' part and in
the part of the MAC, and so does stopping one.
-/

namespace CpswDriver.Driver

open OpenStop (Port)
open MacControl (PhyDevice)

/-- What the parts count: usage_count and the devices that are open. -/
@[ext]
structure Usage where
  usageCount : ℤ
  opened : Port → Bool

def Usage.ndoOpen (u : Usage) (p : Port) : Option Usage :=
  if u.opened p then none else some ⟨u.usageCount + 1, Function.update u.opened p true⟩

def Usage.ndoStop (u : Usage) (p : Port) : Option Usage :=
  if u.opened p then some ⟨u.usageCount - 1, Function.update u.opened p false⟩ else none

theorem Usage.ndoOpen_of_down {u : Usage} {p : Port} (h : u.opened p = false) :
    u.ndoOpen p = some ⟨u.usageCount + 1, Function.update u.opened p true⟩ := by
  unfold ndoOpen
  rw [h]
  rfl

theorem Usage.ndoStop_of_up {u : Usage} {p : Port} (h : u.opened p = true) :
    u.ndoStop p = some ⟨u.usageCount - 1, Function.update u.opened p false⟩ := if_pos h

/-- phy_stop reports a link that was up as down. -/
def phyStop (softReset : U32 → U32) (mac : MacControl.State) (p : Port) :
    Option MacControl.State :=
  match (mac.slaves p).phy with
  | some phy =>
    if phy.link then MacControl.step softReset mac (.link p { phy with link := false })
    else some mac
  | none => some mac

/-- The calls of the network stack: a device is opened or stopped, or the rings are resized. -/
def isCall : Interrupts.Op → Bool
  | .ndoOpen .. | .ndoStop _ | .setRingparam _ => true
  | _ => false

def modeUsage (s : SwitchMode.State) : Usage := ⟨s.usageCount, s.running⟩

def ringsUsage (s : OpenStop.State) : Usage := ⟨s.usageCount, s.opened⟩

/-- The thread of the network stack may still have to count what it was called for. -/
def intrUsage (s : Interrupts.State) : Usage where
  usageCount := (s.ctl.run (s.code .rtnl)).usageCount
  opened := (s.ctl.run (s.code .rtnl)).opened

def macUsage (s : MacControl.State) : Usage := ⟨s.usageCount, s.opened⟩

/-- The PHYs that the ports are connected to, with their links. -/
def macPhy (s : MacControl.State) (p : Port) : Option Bool := (s.slaves p).phy.map (·.link)

def openPhy (phy : Port → Option Bool) (p : Port) (found : Bool) : Port → Option Bool :=
  if found then Function.update phy p (some false) else phy

def linkPhy (phy : Port → Option Bool) (p : Port) (link : Bool) : Port → Option Bool :=
  if (phy p).isSome then Function.update phy p (some link) else phy

theorem isSome_openPhy (phy : Port → Option Bool) (p : Port) (found : Bool) :
    (fun q => (openPhy phy p found q).isSome) =
      Function.update (fun q => (phy q).isSome) p ((phy p).isSome || found) := by
  funext q
  unfold openPhy
  by_cases hq : q = p
  · subst hq
    cases found <;> simp
  · cases found <;> simp [hq]

theorem isSome_linkPhy (phy : Port → Option Bool) (p : Port) (link : Bool) :
    (fun q => (linkPhy phy p link q).isSome) = fun q => (phy q).isSome := by
  funext q
  unfold linkPhy
  split
  · rename_i hsome
    by_cases hq : q = p
    · subst hq
      rw [Function.update_self, hsome]
      rfl
    · rw [Function.update_of_ne hq]
  · rfl

/-- What the mode of the switch leaves alone. -/
structure SameDevices (s t : SwitchMode.State) : Prop where
  usage : modeUsage t = modeUsage s
  phy : t.phy = s.phy

theorem SameDevices.trans {s t u : SwitchMode.State} (h : SameDevices s t)
    (h' : SameDevices t u) : SameDevices s u :=
  ⟨h'.usage.trans h.usage, h'.phy.trans h.phy⟩

theorem sameDevices_enable (params : SwitchMode.CpswParams) (s : SwitchMode.State) (p : Port) :
    SameDevices s (SwitchMode.enableSwitchMode params s p) := by
  unfold SwitchMode.enableSwitchMode
  split
  · exact ⟨rfl, rfl⟩
  · dsimp only
    split <;> exact ⟨rfl, rfl⟩

theorem sameDevices_disable (params : SwitchMode.CpswParams) (s : SwitchMode.State) (p : Port) :
    SameDevices s (SwitchMode.disableSwitchMode params s p) := by
  unfold SwitchMode.disableSwitchMode
  split <;> exact ⟨rfl, rfl⟩

theorem sameDevices_modeSet (params : SwitchMode.CpswParams) (s : SwitchMode.State)
    (id : SwitchMode.CpswDlParam) (switchEn : Bool) :
    SameDevices s (SwitchMode.cpswDlSwitchModeSet params s id switchEn).1 := by
  unfold SwitchMode.cpswDlSwitchModeSet
  split
  · exact ⟨rfl, rfl⟩
  split
  · exact ⟨rfl, rfl⟩
  split
  · exact ⟨rfl, rfl⟩
  split
  · rw [SwitchMode.recordMode_eq]
    exact ⟨rfl, rfl⟩
  split
  · have hboth := (sameDevices_enable params (SwitchMode.cpswInitHostPortSwitch params
      (SwitchMode.bypassAndClear params s)) 0).trans (sameDevices_enable params _ 1)
    exact ⟨hboth.usage, hboth.phy⟩
  · have hboth := (sameDevices_disable params (SwitchMode.cpswInitHostPortDualMac params
      (SwitchMode.bypassAndClear params s)) 0).trans (sameDevices_disable params _ 1)
    exact ⟨hboth.usage, hboth.phy⟩

theorem mode_open {params : SwitchMode.CpswParams} {s t : SwitchMode.State} {p : Port}
    {found : Bool} (hst : SwitchMode.step params s (.openPort p found) = some t) :
    (modeUsage s).ndoOpen p = some (modeUsage t) ∧ t.phy = openPhy s.phy p found := by
  simp only [SwitchMode.step] at hst
  split at hst
  · rename_i hmay
    obtain ⟨-, hdown⟩ := Bool.and_eq_true_iff.mp hmay
    cases hst
    have hinit : SameDevices s (if s.usageCount = 0 then SwitchMode.cpswInitHostPort params s
        else s) := by
      obtain ⟨regs, heq⟩ := SwitchMode.initHostPort_eq params s
      split
      · rw [heq]
        exact ⟨rfl, rfl⟩
      · exact ⟨rfl, rfl⟩
    unfold SwitchMode.cpswNdoOpen
    dsimp only
    generalize (if s.usageCount = 0 then SwitchMode.cpswInitHostPort params s else s) = u
      at hinit ⊢
    obtain ⟨regs, heq⟩ := SwitchMode.slaveOpen_eq params u p found
    rw [heq, ← hinit.phy]
    have hclosed : (modeUsage s).opened p = false := by
      rw [Bool.not_eq_true'] at hdown
      exact hdown
    refine ⟨(Usage.ndoOpen_of_down hclosed).trans ?_, rfl⟩
    have hrunning : u.running = s.running := congrArg Usage.opened hinit.usage
    rw [← hinit.usage, ← hrunning]
    rfl
  · cases hst

theorem mode_stop {params : SwitchMode.CpswParams} {s t : SwitchMode.State} {p : Port}
    (hst : SwitchMode.step params s (.stopPort p) = some t) :
    (modeUsage s).ndoStop p = some (modeUsage t) ∧
      t.phy = Function.update s.phy p none := by
  simp only [SwitchMode.step] at hst
  split at hst
  · rename_i hup
    cases hst
    have hopen : (modeUsage s).opened p = true := hup
    rw [SwitchMode.ndoStop_eq]
    exact ⟨Usage.ndoStop_of_up hopen, rfl⟩
  · cases hst

theorem mode_link {params : SwitchMode.CpswParams} {s t : SwitchMode.State} {p : Port}
    {link : Bool} (hst : SwitchMode.step params s (.adjustLink p link) = some t) :
    modeUsage t = modeUsage s ∧ t.phy = linkPhy s.phy p link := by
  cases hst
  unfold SwitchMode.cpswAdjustLink linkPhy
  cases hphy : s.phy p with
  | none => exact ⟨rfl, by simp⟩
  | some _ => exact ⟨rfl, by simp⟩

theorem mac_open {softReset : U32 → U32} {s t : MacControl.State} {p : Port}
    {phy : Option PhyDevice} (hlink : phy.any (·.link) = false)
    (hst : MacControl.step softReset s (.ndoOpen p phy) = some t) :
    (macUsage s).ndoOpen p = some (macUsage t) ∧ macPhy t = openPhy (macPhy s) p phy.isSome := by
  simp only [MacControl.step] at hst
  split at hst
  · cases hst
  rename_i hclosed
  cases hst
  have hinit : ∃ u, (if s.usageCount = 0 then MacControl.cpswInitHostPort softReset s else s) =
      u ∧ macUsage u = macUsage s ∧ macPhy u = macPhy s := by
    refine ⟨_, rfl, ?_⟩
    split <;> exact ⟨rfl, rfl⟩
  obtain ⟨u, hu, husage, hphy⟩ := hinit
  have hdown : (macUsage u).opened p = false := by
    rw [husage]
    exact Bool.not_eq_true _ ▸ hclosed
  unfold MacControl.cpswNdoOpen
  rw [hu, ← husage, ← hphy]
  refine ⟨Usage.ndoOpen_of_down hdown, funext fun q => ?_⟩
  unfold macPhy openPhy
  by_cases hq : q = p
  · subst hq
    cases phy with
    | none => simp [MacControl.cpswSlaveOpen]
    | some dev => simpa [MacControl.cpswSlaveOpen] using hlink
  · cases phy with
    | none => simp [hq]
    | some dev => simp [hq]

theorem mac_link {softReset : U32 → U32} {s t : MacControl.State} {p : Port} {phy : PhyDevice}
    (hst : MacControl.step softReset s (.link p phy) = some t) :
    macUsage t = macUsage s ∧ macPhy t = linkPhy (macPhy s) p phy.link := by
  simp only [MacControl.step] at hst
  split at hst
  · rename_i hsome
    cases hst
    refine ⟨rfl, funext fun q => ?_⟩
    have hphy : (macPhy s p).isSome = true := by
      rw [macPhy, Option.isSome_map]
      exact hsome
    rw [linkPhy, if_pos hphy]
    by_cases hq : q = p
    · subst hq
      unfold macPhy MacControl.cpswAdjustLink
      rw [MacControl.setSlave_self, Function.update_self]
      dsimp only
      split <;> rfl
    · rw [Function.update_of_ne hq, macPhy, MacControl.setSlave_of_ne hq]
      rfl
  · cases hst

theorem mac_pause {softReset : U32 → U32} {s t : MacControl.State} {p : Port}
    {valid rxPause txPause : Bool}
    (hst : MacControl.step softReset s (.setPauseparam p valid rxPause txPause) = some t) :
    macUsage t = macUsage s ∧ macPhy t = macPhy s := by
  cases hst
  refine ⟨rfl, funext fun q => ?_⟩
  by_cases hq : q = p
  · subst hq
    unfold macPhy MacControl.cpswSetPauseparam
    rw [MacControl.setSlave_self]
    split
    · rfl
    split <;> rfl
  · rw [macPhy, MacControl.setSlave_of_ne hq]
    rfl

theorem mac_stop {softReset : U32 → U32} {s t u : MacControl.State} {p : Port}
    (hphy : phyStop softReset s p = some t)
    (hst : MacControl.step softReset t (.ndoStop p) = some u) :
    (macUsage s).ndoStop p = some (macUsage u) ∧
      macPhy u = Function.update (macPhy s) p none := by
  have hfirst : macUsage t = macUsage s ∧ ∀ q, q ≠ p → macPhy t q = macPhy s q := by
    unfold phyStop at hphy
    split at hphy
    · split at hphy
      · obtain ⟨husage, hlink⟩ := mac_link hphy
        refine ⟨husage, fun q hq => ?_⟩
        rw [hlink, linkPhy]
        split
        · exact Function.update_of_ne hq _ _
        · rfl
      · cases hphy
        exact ⟨rfl, fun _ _ => rfl⟩
    · cases hphy
      exact ⟨rfl, fun _ _ => rfl⟩
  obtain ⟨husage, hother⟩ := hfirst
  simp only [MacControl.step] at hst
  split at hst
  · rename_i hup
    cases hst
    have hopen : (macUsage t).opened p = true := hup
    refine ⟨?_, funext fun q => ?_⟩
    · rw [← husage]
      exact Usage.ndoStop_of_up hopen
    · by_cases hq : q = p
      · subst hq
        rw [Function.update_self, macPhy, MacControl.cpswNdoStop]
        simp
      · rw [Function.update_of_ne hq, ← hother q hq, macPhy, MacControl.cpswNdoStop]
        simp [hq, macPhy]
  · cases hst

theorem regRxqs_frame (ans : OpenStop.Answers) (ch : ℕ) (ps : List Port) (s : OpenStop.State) :
    ∃ rxqs ret, OpenStop.regRxqs ans s ch ps = ({ s with xdpRxq := rxqs }, ret) := by
  induction ps generalizing s with
  | nil => exact ⟨s.xdpRxq, 0, rfl⟩
  | cons p ps ih =>
    unfold OpenStop.regRxqs
    split
    · exact ⟨s.xdpRxq, _, rfl⟩
    · obtain ⟨rxqs, ret, hrest⟩ := ih (s.setRxq p ch true)
      exact ⟨rxqs, ret, hrest⟩

theorem createPools_frame (params : OpenStop.CpswParams) (ans : OpenStop.Answers) (chs : List ℕ)
    (s : OpenStop.State) : ∃ pools rxqs ret, OpenStop.createPools params ans s chs =
      ({ s with pagePool := pools, xdpRxq := rxqs }, ret) := by
  induction chs generalizing s with
  | nil => exact ⟨s.pagePool, s.xdpRxq, 0, rfl⟩
  | cons ch chs ih =>
    unfold OpenStop.createPools
    split
    · exact ⟨s.pagePool, s.xdpRxq, _, rfl⟩
    · obtain ⟨rxqs, ret, heq⟩ := regRxqs_frame ans ch [0, 1]
        (s.setPool ch (some (OpenStop.rxBufNum params s ch)))
      rw [heq]
      dsimp only
      split
      · exact ⟨_, rxqs, ret, rfl⟩
      · obtain ⟨pools, rxqs', ret', hrest⟩ := ih
          { s.setPool ch (some (OpenStop.rxBufNum params s ch)) with xdpRxq := rxqs }
        exact ⟨pools, rxqs', ret', hrest⟩

/-- Creating the page pools touches nothing else, whether it succeeds or not. -/
theorem createXdpRxqs_frame (params : OpenStop.CpswParams) (ans : OpenStop.Answers)
    (s : OpenStop.State) : ∃ pools rxqs ret, OpenStop.cpswCreateXdpRxqs params ans s =
      ({ s with pagePool := pools, xdpRxq := rxqs }, ret) := by
  obtain ⟨pools, rxqs, ret, heq⟩ := createPools_frame params ans (List.range params.rxChNum) s
  unfold OpenStop.cpswCreateXdpRxqs
  rw [heq]
  dsimp only
  split
  · exact ⟨_, _, ret, rfl⟩
  · exact ⟨pools, rxqs, 0, rfl⟩

theorem openEnd_counts {params : OpenStop.CpswParams} {ans : OpenStop.Answers}
    {s t : OpenStop.State} {ret : ℤ} (hst : OpenStop.openEnd params ans s = some (t, ret)) :
    t.usageCount = s.usageCount + 1 ∧ t.phy = s.phy := by
  unfold OpenStop.openEnd OpenStop.ctlrStart at hst
  rw [Option.map_map] at hst
  obtain ⟨r, -, hres⟩ := Option.map_eq_some_iff.mp hst
  obtain ⟨rfl, -⟩ := Prod.mk.inj hres
  exact ⟨rfl, rfl⟩

theorem errCleanup_ret {params : OpenStop.CpswParams} {ans : OpenStop.Answers}
    {s t : OpenStop.State} {p : Port} {ret ret' : ℤ}
    (hst : OpenStop.errCleanup params ans s p ret = some (t, ret')) : ret' = ret := by
  unfold OpenStop.errCleanup at hst
  obtain ⟨u, -, hres⟩ := Option.map_eq_some_iff.mp hst
  exact (Prod.mk.inj hres).2.symm

theorem rings_open {params : OpenStop.CpswParams} {s t : OpenStop.State} {p : Port}
    {ans : OpenStop.Answers} (hst : OpenStop.step params s (.ndoOpen p ans) = some t)
    (hret : t.ret = 0) : (ringsUsage s).ndoOpen p = some (ringsUsage t) ∧
      t.phy = Function.update s.phy p (s.phy p || ans.phyConnect) := by
  simp only [OpenStop.step] at hst
  split at hst
  · cases hst
  rename_i hclosed
  obtain ⟨⟨u, ret⟩, hu, rfl⟩ := Option.map_eq_some_iff.mp hst
  obtain rfl : ret = 0 := hret
  have hcounts : u.usageCount = s.usageCount + 1 ∧
      u.phy = Function.update s.phy p (s.phy p || ans.phyConnect) := by
    unfold OpenStop.cpswNdoOpen at hu
    split at hu
    · rename_i hpm
      exact absurd (Prod.mk.inj (Option.some.inj hu)).2 (by omega)
    dsimp only at hu
    split at hu
    · exact absurd (Prod.mk.inj (Option.some.inj hu)).2 (by omega)
    split at hu
    · exact absurd (Prod.mk.inj (Option.some.inj hu)).2 (by omega)
    split at hu
    · unfold OpenStop.openShared at hu
      obtain ⟨pools, rxqs, ret, heq⟩ := createXdpRxqs_frame params ans
        { s with
          pmUsage := s.pmUsage + 1
          phy := Function.update s.phy p (s.phy p || ans.phyConnect) }
      rw [heq] at hu
      dsimp only at hu
      split at hu
      · rename_i hneg
        exact absurd (errCleanup_ret hu) (by omega)
      split at hu
      · rename_i hneg
        exact absurd (errCleanup_ret hu) (by omega)
      · exact openEnd_counts hu
    · exact openEnd_counts hu
  obtain ⟨husage, hphy⟩ := hcounts
  have hdown : (ringsUsage s).opened p = false := Bool.not_eq_true _ ▸ hclosed
  refine ⟨(Usage.ndoOpen_of_down hdown).trans ?_, hphy⟩
  unfold ringsUsage
  rw [husage]
  rfl

theorem rings_stop {params : OpenStop.CpswParams} {s t : OpenStop.State} {p : Port}
    {sched : List (Cpdma.Op ℕ)} (hst : OpenStop.step params s (.ndoStop p sched) = some t) :
    (ringsUsage s).ndoStop p = some (ringsUsage t) ∧
      t.phy = Function.update s.phy p false := by
  simp only [OpenStop.step] at hst
  split at hst
  · rename_i hup
    obtain ⟨u, hu, rfl⟩ := Option.map_eq_some_iff.mp hst
    have hopen : (ringsUsage s).opened p = true := hup
    have hcounts : u.usageCount = s.usageCount - 1 ∧
        u.phy = Function.update s.phy p false := by
      unfold OpenStop.cpswNdoStop OpenStop.ctlrStop at hu
      dsimp only at hu
      obtain ⟨v, hv, rfl⟩ := Option.map_eq_some_iff.mp hu
      split at hv
      · rw [Option.map_map] at hv
        obtain ⟨r, -, rfl⟩ := Option.map_eq_some_iff.mp hv
        exact ⟨rfl, rfl⟩
      · cases hv
        exact ⟨rfl, rfl⟩
    obtain ⟨husage, hphy⟩ := hcounts
    refine ⟨(Usage.ndoStop_of_up hopen).trans ?_, hphy⟩
    unfold ringsUsage
    rw [husage]
  · cases hst

/-- With nothing under way in the thread of the network stack there is nothing left to count. -/
theorem intrUsage_of_idle {s : Interrupts.State} (h : s.code .rtnl = []) :
    intrUsage s = ⟨s.usageCount, s.opened⟩ := by
  unfold intrUsage
  rw [h]
  rfl

theorem intr_start {s t : Interrupts.State} {line : List Interrupts.Action}
    (hst : s.start .rtnl line = some t) :
    s.code .rtnl = [] ∧ intrUsage t =
      ⟨(s.ctl.run line).usageCount, (s.ctl.run line).opened⟩ := by
  unfold Interrupts.State.start at hst
  split at hst
  · rename_i hidle
    cases hst
    unfold intrUsage
    rw [Interrupts.code_setCode_self]
    exact ⟨hidle, rfl⟩
  · cases hst

theorem intr_open {params : Interrupts.CpswParams} {s t : Interrupts.State} {p : Port}
    (hst : Interrupts.step params s (.ndoOpen p true) = some t) :
    (intrUsage s).ndoOpen p = some (intrUsage t) := by
  simp only [Interrupts.step] at hst
  split at hst
  · cases hst
  rename_i hclosed
  obtain ⟨hidle, heq⟩ := intr_start hst
  have hdown : (intrUsage s).opened p = false := by
    rw [intrUsage_of_idle hidle]
    exact Bool.not_eq_true _ ▸ hclosed
  refine (Usage.ndoOpen_of_down hdown).trans ?_
  have hplain : ∀ a ∈ Interrupts.cpswIntrEnable, a.serial = false := by decide
  rw [heq, intrUsage_of_idle hidle]
  unfold Interrupts.cpswNdoOpen
  rw [if_neg (fun h => Bool.noConfusion h.2), Interrupts.Ctl.run_append,
    Interrupts.Ctl.run_append, Interrupts.Ctl.run_plain _ hplain]
  split <;> rfl

theorem intr_stop {params : Interrupts.CpswParams} {s t : Interrupts.State} {p : Port}
    (h : Interrupts.Inv params False s)
    (hst : Interrupts.step params s (.ndoStop p) = some t) :
    (intrUsage s).ndoStop p = some (intrUsage t) := by
  simp only [Interrupts.step] at hst
  split at hst
  · rename_i hup
    obtain ⟨hidle, heq⟩ := intr_start hst
    have hopen : (intrUsage s).opened p = true := by
      rw [intrUsage_of_idle hidle]
      exact hup
    have hstanding : s.ctl.Standing .active := by
      have hends := h.ends
      rw [hidle] at hends
      exact hends.resolve_left fun hung => hung.1
    have hclose : s.ctl.run [.close p] = s.ctl.close p := rfl
    refine (Usage.ndoStop_of_up hopen).trans ?_
    rw [heq, hclose, hstanding.close_eq hup, intrUsage_of_idle hidle]
    split <;> rfl
  · cases hst

/-- Whatever goes on between the calls, what they come to does not change. -/
theorem intr_other {params : Interrupts.CpswParams} {s t : Interrupts.State}
    {op : Interrupts.Op} (h : Interrupts.Inv params False s) (hop : isCall op = false)
    (hst : Interrupts.step params s op = some t) : intrUsage t = intrUsage s := by
  have hstart : ∀ {u : Interrupts.State} {thread : Interrupts.Thread} {line},
      u.start thread line = some t → thread ≠ .rtnl → u.ctl = s.ctl → u.code = s.code →
      intrUsage t = intrUsage s := by
    intro u thread line hst hne hctl hcode
    unfold Interrupts.State.start at hst
    split at hst
    · cases hst
      have hline : (u.setCode thread line).code .rtnl = s.code .rtnl := by
        rw [Interrupts.code_setCode_ne u (Ne.symm hne), hcode]
      unfold intrUsage
      rw [hline, show (u.setCode thread line).ctl = s.ctl from hctl]
    · cases hst
  cases op with
  | ndoOpen | ndoStop | setRingparam => cases hop
  | interrupt ch =>
    simp only [Interrupts.step] at hst
    split at hst
    · exact hstart hst Interrupts.Thread.noConfusion rfl rfl
    · cases hst
  | poll d full =>
    simp only [Interrupts.step] at hst
    split at hst
    · exact hstart hst Interrupts.Thread.noConfusion rfl rfl
    · cases hst
  | txTimeout p | pollController p =>
    simp only [Interrupts.step] at hst
    split at hst
    · exact hstart hst Interrupts.Thread.noConfusion rfl rfl
    · cases hst
  | run thread =>
    simp only [Interrupts.step] at hst
    split at hst
    · cases hst
    rename_i a as hline
    obtain ⟨⟨u, new⟩, hp, rfl⟩ := Option.map_eq_some_iff.mp hst
    have hcode := Interrupts.perform_code hp
    unfold intrUsage
    by_cases hown : thread = .rtnl
    · subst hown
      rw [Interrupts.code_setCode_self, hline, Interrupts.Ctl.run_append,
        Interrupts.Ctl.run_cons, ← Interrupts.ctl_perform hp]
      rfl
    · have hmem : a ∈ s.code thread := by
        rw [hline]
        exact List.mem_cons_self
      have hctl : u.ctl = s.ctl := Interrupts.ctl_plain hp (h.plain thread hown a hmem)
      rw [Interrupts.code_setCode_ne u (Ne.symm hown), hcode,
        show (u.setCode thread (new ++ as)).ctl = s.ctl from hctl]

end CpswDriver.Driver
