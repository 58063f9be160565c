import CpswDriver.Cpsw.Probe
import Mathlib.Tactic.Abel

/-!
Probing and removing the device. A bound device owns what cpsw_remove gives back,
an unbound one nothing, as long as no probe fails once it has made a net device.
A probe that does gives up something that it does not hold, or leaves devlink
behind.
-/

namespace CpswDriver.Probe

open Resources Runs

def PhyNode.res (np : PhyNode) : Multiset Res :=
  (if np.fixed then {.fixedLink np.node} else 0) + {.node np.node}

def SlaveData.res (d : SlaveData) : Multiset Res := d.phyNode.elim 0 PhyNode.res

def dataRes (data : Port → SlaveData) : Multiset Res := (data 0).res + (data 1).res

def CpswCommon.dtRes (cpsw : CpswCommon) : Multiset Res := cpsw.slaveData.elim 0 dataRes

def cptsRes (cpts : Bool) : Multiset Res := if cpts then {.cpts} else 0

def netdevRes (ndev : Port → Bool) (p : Port) : Multiset Res := if ndev p then {.netdev p} else 0

def notifierRes : Multiset Res := {.netdevNb} + {.switchdevNb} + {.switchdevBlNb}

def devlinkRes : Multiset Res := {.devlink} + {.dlParams} + {.dlRegistered}

/-- What cpsw_init_common leaves in the hands of the probe. -/
def commonRes (cpsw : CpswCommon) : Multiset Res :=
  {.pmEnabled} + cpsw.dtRes + {.dma} + cptsRes cpsw.cpts

def boundRes (cpsw : CpswCommon) : Multiset Res :=
  commonRes cpsw + notifierRes + devlinkRes + netdevRes cpsw.ndev 0 + netdevRes cpsw.ndev 1

structure Settled (s : State) : Prop where
  bound : s.bound = true → ∃ cpsw, s.drvdata = some cpsw ∧ Owns s.books (boundRes cpsw)
  unbound : s.bound = false → Owns s.books 0

/-- The device tree names each port once, no PHY that a handle names is a fixed link, and the
device has a child for the time stamp unit. -/
structure Sane (tree : Tree) : Prop where
  cpts : tree.cpts = true
  phys : ∀ np ∈ tree.ports.getD [], np.phyIsFixed = false
  regs : (tree.ports.getD []).Pairwise fun np np' => np.reg ≠ np'.reg

variable {rs : Multiset Res} {b : Books Res} {s s' : State} {cpsw : CpswCommon}

theorem phyNodeOf_owns (h : Owns b rs) {i : ℕ} {np : PortNode} (hphy : np.phyIsFixed = false) :
    Owns (phyNodeOf i np b).2.1 (rs + (phyNodeOf i np b).1.elim 0 PhyNode.res) := by
  unfold phyNodeOf
  by_cases hfixed : np.fixedLink = true
  · rw [if_pos hfixed]
    refine ((h.acquire _).acquire _).congr ?_
    rw [add_assoc]
    rfl
  · rw [if_neg hfixed]
    by_cases hhandle : np.phyHandle = true
    · rw [if_pos hhandle]
      refine (h.acquire _).congr ?_
      simp only [Option.elim_some, PhyNode.res, hphy, Bool.false_eq_true, if_false, zero_add]
    · rw [if_neg hhandle]
      exact h.congr (add_zero rs).symm

theorem dataRes_update {data : Port → SlaveData} {p : Port} (hfree : (data p).phyNode = none)
    (d : SlaveData) : dataRes (Function.update data p d) = dataRes data + d.res := by
  have hres : (data p).res = 0 := by rw [SlaveData.res, hfree, Option.elim_none]
  unfold dataRes
  match p with
  | 0 =>
    rw [Function.update_self, Function.update_of_ne (by decide), hres, zero_add, add_comm]
  | 1 =>
    rw [Function.update_self, Function.update_of_ne (by decide), hres, add_zero]

theorem emacPort_pred {n : ℕ} (h : ¬(n = 0 ∨ 2 < n)) :
    n = emacPort ⟨n - 1, pred_lt_two h⟩ := by
  unfold emacPort
  dsimp only
  omega

theorem probePort_owns {data : Port → SlaveData} (h : Owns b (rs + dataRes data)) {i : ℕ}
    {np : PortNode} (hphy : np.phyIsFixed = false)
    (hfree : ∀ p, np.reg = emacPort p → (data p).phyNode = none) :
    Owns (probePort i np data b).books (rs + dataRes (probePort i np data b).slaveData) := by
  unfold probePort
  split
  · exact h
  split
  · exact h
  rename_i hreg
  have hnone := hfree _ (emacPort_pred hreg)
  dsimp only
  generalize (⟨np.reg - 1, pred_lt_two hreg⟩ : Port) = p at hnone ⊢
  have hupdate : ∀ on : Bool,
      Owns b (rs + dataRes (Function.update data p { data p with disabled := on })) := by
    intro on
    refine h.congr ?_
    rw [dataRes_update hnone, SlaveData.res, hnone, Option.elim_none, add_zero]
  split
  · exact hupdate true
  split
  · exact hupdate false
  split
  · exact hupdate false
  rw [dataRes_update hnone, ← add_assoc]
  exact phyNodeOf_owns h hphy

/-- The ports that other nodes name are left alone. -/
theorem probePort_kept {data : Port → SlaveData} {i : ℕ} {np : PortNode} {p : Port}
    (hne : np.reg ≠ emacPort p) : (probePort i np data b).slaveData p = data p := by
  unfold probePort
  split
  · rfl
  split
  · rfl
  rename_i hreg
  have hp : p ≠ ⟨np.reg - 1, pred_lt_two hreg⟩ := by
    rintro rfl
    exact hne (emacPort_pred hreg)
  dsimp only
  split
  · exact Function.update_of_ne hp _ _
  split
  · exact Function.update_of_ne hp _ _
  split
  · exact Function.update_of_ne hp _ _
  · exact Function.update_of_ne hp _ _

theorem probePorts_owns {nodes : List PortNode} (hphys : ∀ np ∈ nodes, np.phyIsFixed = false)
    (hregs : nodes.Pairwise fun np np' => np.reg ≠ np'.reg) {data : Port → SlaveData} {i : ℕ}
    (h : Owns b (rs + dataRes data))
    (hfree : ∀ np ∈ nodes, ∀ p, np.reg = emacPort p → (data p).phyNode = none) :
    Owns (probePorts i nodes data b).books
      (rs + dataRes (probePorts i nodes data b).slaveData) := by
  induction nodes generalizing i data b with
  | nil => exact h
  | cons np nps ih =>
    obtain ⟨hnew, hregs⟩ := List.pairwise_cons.mp hregs
    have hheld := (h.acquire (.node (.port i))).congr (add_right_comm _ _ _)
    have hown := probePort_owns (i := i) hheld (hphys np List.mem_cons_self)
      (hfree np List.mem_cons_self)
    have hbody := (hown.congr (add_right_comm _ _ _)).release
    unfold probePorts
    dsimp only
    split
    · exact hbody
    · refine ih (fun np' hmem => hphys np' (List.mem_cons_of_mem _ hmem)) hregs hbody ?_
      intro np' hmem p hp
      rw [probePort_kept fun heq => hnew np' hmem (heq.trans hp.symm)]
      exact hfree np' (List.mem_cons_of_mem _ hmem) p hp

/-- What the array of the slaves and their number have to do with each other. -/
def CpswCommon.Counted (cpsw : CpswCommon) : Prop := cpsw.slaves = 0 → cpsw.slaveData = none

structure FromDt (rs : Multiset Res) (r : CpswCommon × Books Res × ℤ) : Prop where
  owns : Owns r.2.1 (rs + r.1.dtRes)
  counted : r.1.Counted

theorem probeDt_owns {tree : Tree} (htree : Sane tree) (h : Owns b rs) {alloc : Bool}
    (hnone : cpsw.slaveData = none) : FromDt rs (cpswProbeDt tree alloc cpsw b) := by
  have hzero : cpsw.dtRes = 0 := by rw [CpswCommon.dtRes, hnone, Option.elim_none]
  unfold cpswProbeDt
  split
  · exact ⟨h.congr (by rw [hzero, add_zero]), fun _ => hnone⟩
  cases hports : tree.ports with
  | none => exact ⟨h.congr (by rw [hzero, add_zero]), fun _ => hnone⟩
  | some nodes =>
    have hput : Owns ((b.acquire (.node .ports)).release (.node .ports)) (rs + cpsw.dtRes) :=
      (h.acquire _).release.congr (by rw [hzero, add_zero])
    dsimp only
    split
    · exact ⟨hput, fun _ => hnone⟩
    split
    · exact ⟨hput, fun _ => hnone⟩
    rename_i hlen _
    have htwo : nodes.length = 2 := not_not.mp hlen
    have hphys := htree.phys
    have hregs := htree.regs
    rw [hports, Option.getD_some] at hphys hregs
    have hstart : Owns (b.acquire (.node .ports))
        (rs + {.node .ports} + dataRes fun _ => ⟨false, none⟩) :=
      (h.acquire _).congr (add_zero _).symm
    have hloop := probePorts_owns (i := 0) hphys hregs hstart fun _ _ _ _ => rfl
    refine ⟨(hloop.congr (add_right_comm _ _ _)).release, fun hslaves => ?_⟩
    exact absurd (htwo.symm.trans hslaves) (by decide)

theorem removeSlave_owns {data : Port → SlaveData} {p : Port} (h : Owns b (rs + (data p).res)) :
    Owns (removeSlave data b p) rs := by
  unfold SlaveData.res at h
  unfold removeSlave
  cases hnode : (data p).phyNode with
  | none =>
    rw [hnode, Option.elim_none, add_zero] at h
    exact h
  | some np =>
    rw [hnode, Option.elim_some, PhyNode.res, ← add_assoc] at h
    dsimp only
    by_cases hfixed : np.fixed = true
    · rw [if_pos hfixed] at h ⊢
      exact (h.congr (add_right_comm _ _ _)).drop.release
    · rw [if_neg hfixed, add_zero] at h
      rw [if_neg hfixed]
      exact h.release

theorem removeDt_owns (hcounted : cpsw.Counted) (h : Owns b (rs + cpsw.dtRes)) {b' : Books Res}
    (hremove : cpswRemoveDt cpsw b = some b') : Owns b' rs := by
  unfold cpswRemoveDt at hremove
  unfold CpswCommon.dtRes at h
  split at hremove
  · rename_i hslaves
    rw [hcounted hslaves, Option.elim_none, add_zero] at h
    exact Option.some.inj hremove ▸ h
  · obtain ⟨data, hdata, rfl⟩ := Option.map_eq_some_iff.mp hremove
    rw [hdata, Option.elim_some, dataRes, ← add_assoc] at h
    exact removeSlave_owns (removeSlave_owns (h.congr (add_right_comm _ _ _)))

theorem initCommon_owns {tree : Tree} (htree : tree.cpts = true) (ans : Answers) (h : Owns b rs) :
    Owns (cpswInitCommon tree ans b).2.1
      (if (cpswInitCommon tree ans b).2.2 = 0 then
          rs + {.dma} + cptsRes (cpswInitCommon tree ans b).1
        else rs) := by
  unfold cpswInitCommon
  split
  · exact h
  split
  · exact h
  split
  · exact h
  split
  · exact h
  dsimp only
  have hheld := (h.acquire .dma).acquire (.node .cpts)
  split
  · exact (hheld.congr (add_right_comm _ _ _)).release.release
  · rw [if_pos rfl]
    cases ans.cptsUnit with
    | false => exact hheld.release.congr (add_zero _).symm
    | true => exact ((hheld.acquire .cpts).congr (add_right_comm _ _ _)).release

theorem cptsRelease_owns (h : Owns b (rs + cptsRes cpsw.cpts)) : Owns (cptsRelease cpsw b) rs := by
  unfold cptsRelease
  unfold cptsRes at h
  split
  · rename_i hcpts
    rw [if_pos hcpts] at h
    exact h.release
  · rename_i hcpts
    rw [if_neg hcpts, add_zero] at h
    exact h

theorem switchdevNotifiers_owns (ans : Answers) (h : Owns b rs) :
    Owns (cpswSwitchdevRegisterNotifiers ans b).1
      (if (cpswSwitchdevRegisterNotifiers ans b).2 = 0 then rs + {.switchdevNb} + {.switchdevBlNb}
        else rs) := by
  unfold cpswSwitchdevRegisterNotifiers
  split
  · exact h
  dsimp only
  split
  · exact (h.acquire .switchdevNb).release
  · exact (h.acquire _).acquire _

theorem registerNotifiers_owns (ans : Answers) (h : Owns b rs) :
    Owns (cpswRegisterNotifiers ans b).1
      (if (cpswRegisterNotifiers ans b).2 = 0 then rs + notifierRes else rs) := by
  unfold cpswRegisterNotifiers
  split
  · exact h
  have hin := switchdevNotifiers_owns ans (h.acquire .netdevNb)
  dsimp only
  split
  · rename_i hret
    rw [if_neg hret] at hin
    exact hin.release
  · rename_i hret
    rw [if_pos (not_not.mp hret)] at hin ⊢
    refine hin.congr ?_
    rw [notifierRes, add_assoc, add_assoc, add_assoc]

theorem unregisterNotifiers_owns (h : Owns b (rs + notifierRes)) :
    Owns (cpswUnregisterNotifiers b) rs := by
  rw [notifierRes, ← add_assoc, ← add_assoc] at h
  exact h.release.release.release

theorem registerDevlink_owns (ans : Answers) (h : Owns b rs) :
    Owns (cpswRegisterDevlink ans b).1
      (if (cpswRegisterDevlink ans b).2 = 0 then rs + devlinkRes else rs) := by
  unfold cpswRegisterDevlink
  split
  · exact h
  dsimp only
  split
  · exact (h.acquire .devlink).release
  · rw [if_pos rfl, devlinkRes, ← add_assoc, ← add_assoc]
    exact ((h.acquire _).acquire _).acquire _

theorem unregisterDevlink_owns (h : Owns b (rs + devlinkRes)) :
    Owns (cpswUnregisterDevlink b) rs := by
  rw [devlinkRes, ← add_assoc, ← add_assoc] at h
  exact h.release.release.release

theorem devlink_held (h : Owns b (rs + devlinkRes)) : b.held .devlink ≠ 0 := by
  rw [h.held, devlinkRes, Multiset.count_add, Multiset.count_add, Multiset.count_add,
    Multiset.count_singleton_self]
  omega

theorem unregisterPort_owns {ndev : Port → Bool} {p : Port} (h : Owns b (rs + netdevRes ndev p)) :
    Owns (if ndev p then b.release (.netdev p) else b) rs := by
  unfold netdevRes at h
  split
  · rename_i hndev
    rw [if_pos hndev] at h
    exact h.release
  · rename_i hndev
    rw [if_neg hndev, add_zero] at h
    exact h

theorem unregisterPorts_owns {ndev : Port → Bool}
    (h : Owns b (rs + netdevRes ndev 0 + netdevRes ndev 1)) :
    Owns (cpswUnregisterPorts ndev b) rs :=
  unregisterPort_owns (unregisterPort_owns (h.congr (add_right_comm _ _ _)))

theorem unregisterPorts_none {ndev : Port → Bool} (hnone : ∀ p, ndev p = false) (b : Books Res) :
    cpswUnregisterPorts ndev b = b := by
  unfold cpswUnregisterPorts
  rw [funext hnone]
  rfl

theorem registerLoop_owns {registerNetdev : Port → ℤ} {ndev : Port → Bool} {ps : List Port}
    (h : Owns b rs) (hret : (registerLoop registerNetdev ps ndev b).2.2 = 0) :
    (registerLoop registerNetdev ps ndev b).1 = ndev ∧
      Owns (registerLoop registerNetdev ps ndev b).2.1 (rs + (ps.map (netdevRes ndev)).sum) := by
  induction ps generalizing b rs with
  | nil => exact ⟨rfl, h.congr (add_zero rs).symm⟩
  | cons p ps ih =>
    unfold registerLoop at hret ⊢
    rw [List.map_cons, List.sum_cons, netdevRes, ← add_assoc]
    by_cases hndev : ndev p = true
    · rw [if_neg (by rw [hndev]; decide)] at hret ⊢
      rw [if_pos hndev]
      by_cases herr : registerNetdev p ≠ 0
      · rw [if_pos herr] at hret
        exact absurd hret herr
      · rw [if_neg herr] at hret ⊢
        exact ih (h.acquire _) hret
    · rw [if_pos (by rw [Bool.not_eq_true] at hndev; rw [hndev]; rfl)] at hret ⊢
      rw [if_neg hndev, add_zero]
      exact ih h hret

theorem registerLoop_none {ndev : Port → Bool} (hnone : ∀ p, ndev p = false)
    (registerNetdev : Port → ℤ) (ps : List Port) (b : Books Res) :
    registerLoop registerNetdev ps ndev b = (ndev, b, 0) := by
  induction ps with
  | nil => rfl
  | cons p ps ih =>
    unfold registerLoop
    rw [hnone p, Bool.not_false, if_pos rfl, ih]

theorem registerPorts_owns {registerNetdev : Port → ℤ} {ndev : Port → Bool} (h : Owns b rs)
    (hret : (cpswRegisterPorts registerNetdev ndev b).2.2 = 0) :
    (cpswRegisterPorts registerNetdev ndev b).1 = ndev ∧
      Owns (cpswRegisterPorts registerNetdev ndev b).2.1
        (rs + netdevRes ndev 0 + netdevRes ndev 1) := by
  unfold cpswRegisterPorts at hret ⊢
  dsimp only at hret ⊢
  by_cases hloop : (registerLoop registerNetdev ports ndev b).2.2 ≠ 0
  · rw [if_pos hloop] at hret
    exact absurd hret hloop
  · rw [if_neg hloop]
    obtain ⟨hkept, howns⟩ := registerLoop_owns h (not_not.mp hloop)
    refine ⟨hkept, howns.congr ?_⟩
    rw [ports, List.map_cons, List.map_cons, List.map_nil, List.sum_cons, List.sum_cons,
      List.sum_nil, add_zero, add_assoc]

theorem registerPorts_none {ndev : Port → Bool} (hnone : ∀ p, ndev p = false)
    (registerNetdev : Port → ℤ) (b : Books Res) :
    cpswRegisterPorts registerNetdev ndev b = (ndev, b, 0) := by
  unfold cpswRegisterPorts
  rw [registerLoop_none hnone]
  rfl

/-- A resource was released that nobody held, or devlink is left behind. -/
def Spoilt (b : Books Res) : Prop := b.fault = true ∨ b.held .devlink ≠ 0

theorem Spoilt.not_owns (h : Spoilt b) : ¬Owns b 0 := by
  intro howns
  rcases h with hfault | hheld
  · exact Bool.false_ne_true (howns.sound.symm.trans hfault)
  · exact hheld ((howns.held _).trans (Multiset.count_zero _))

theorem Spoilt.release (h : Spoilt b) (r : Res) (hne : Res.devlink ≠ r) : Spoilt (b.release r) := by
  rcases h with hfault | hheld
  · exact Or.inl (fault_release hfault r)
  · exact Or.inr ((held_release hne).trans_ne hheld)

theorem Spoilt.drop (h : Spoilt b) (r : Res) (hne : Res.devlink ≠ r) : Spoilt (b.drop r) := by
  unfold Books.drop
  split
  · exact h
  · exact h.release r hne

theorem Spoilt.removeSlave {data : Port → SlaveData} {p : Port} (h : Spoilt b) :
    Spoilt (removeSlave data b p) := by
  unfold Probe.removeSlave
  split
  · exact h
  · dsimp only
    split
    · exact (h.drop (.fixedLink _) nofun).release (.node _) nofun
    · exact h.release (.node _) nofun

theorem Spoilt.removeDt (h : Spoilt b) {b' : Books Res} (hremove : cpswRemoveDt cpsw b = some b') :
    Spoilt b' := by
  unfold cpswRemoveDt at hremove
  split at hremove
  · exact Option.some.inj hremove ▸ h
  · obtain ⟨data, -, rfl⟩ := Option.map_eq_some_iff.mp hremove
    exact h.removeSlave.removeSlave

theorem Spoilt.unregisterPort {ndev : Port → Bool} {p : Port} (h : Spoilt b) :
    Spoilt (if ndev p then b.release (.netdev p) else b) := by
  split
  · exact h.release (.netdev p) nofun
  · exact h

theorem Spoilt.unregisterPorts {ndev : Port → Bool} (h : Spoilt b) :
    Spoilt (cpswUnregisterPorts ndev b) :=
  (h.unregisterPort (p := 0)).unregisterPort (p := 1)

theorem Spoilt.unregisterNotifiers (h : Spoilt b) : Spoilt (cpswUnregisterNotifiers b) :=
  ((h.release .switchdevBlNb nofun).release .switchdevNb nofun).release .netdevNb nofun

theorem Spoilt.registerLoop {registerNetdev : Port → ℤ} {ndev : Port → Bool} {ps : List Port}
    (h : b.held .devlink ≠ 0) :
    (registerLoop registerNetdev ps ndev b).2.1.held .devlink ≠ 0 := by
  induction ps generalizing b with
  | nil => exact h
  | cons p ps ih =>
    unfold Probe.registerLoop
    split
    · exact ih h
    split
    · exact h
    · exact ih ((held_acquire (b := b) (nofun : Res.devlink ≠ .netdev p)).trans_ne h)

theorem Spoilt.registerPorts {registerNetdev : Port → ℤ} {ndev : Port → Bool}
    (h : b.held .devlink ≠ 0) : Spoilt (cpswRegisterPorts registerNetdev ndev b).2.1 := by
  have hloop : Spoilt (Probe.registerLoop registerNetdev ports ndev b).2.1 :=
    Or.inr (Spoilt.registerLoop h)
  unfold cpswRegisterPorts
  dsimp only
  split
  · exact hloop.unregisterPorts
  · exact hloop

/-- Nothing but the driver's own registration makes a net device a registered one. -/
theorem netdev_notMem_commonRes (p : Port) : Res.netdev p ∉ commonRes cpsw + {.pmUsage} := by
  have hslave : ∀ d : SlaveData, Res.netdev p ∉ d.res := by
    intro d
    unfold SlaveData.res PhyNode.res
    cases d.phyNode with
    | none => exact Multiset.notMem_zero _
    | some np => cases hfixed : np.fixed <;> simp [hfixed]
  have hdt : Res.netdev p ∉ cpsw.dtRes := by
    unfold CpswCommon.dtRes
    cases cpsw.slaveData with
    | none => exact Multiset.notMem_zero _
    | some data => simp [dataRes, hslave]
  have hcpts : Res.netdev p ∉ cptsRes cpsw.cpts := by
    unfold cptsRes
    split <;> simp
  simp [commonRes, hdt, hcpts]

/-- Net devices are unregistered that were not registered. -/
theorem unregisterPorts_spoilt {ndev : Port → Bool} {p : Port} (h : Owns b rs)
    (hrs : ∀ p, Res.netdev p ∉ rs) (hp : ndev p = true) : Spoilt (cpswUnregisterPorts ndev b) := by
  have hfirst : ∀ q, ndev q = true → Spoilt (if ndev q then b.release (.netdev q) else b) := by
    intro q hq
    rw [if_pos hq]
    exact Or.inl (h.release_fault (hrs q))
  by_cases hzero : ndev 0 = true
  · exact (hfirst 0 hzero).unregisterPort
  · have hone : ndev 1 = true := by
      match p with
      | 0 => exact absurd hp hzero
      | 1 => exact hp
    have hskip : (if ndev 0 then b.release (.netdev 0) else b) = b := if_neg hzero
    unfold cpswUnregisterPorts
    rw [ports, List.foldl_cons, hskip]
    exact hfirst 1 hone

structure Failed (s : State) (ret : ℤ) (s' : State) : Prop where
  ret : s'.ret = ret
  bound : s'.bound = false
  created : s'.created = s.created

theorem cleanDtRet_failed {ret : ℤ} (hs : cleanDtRet s cpsw ret = some s') : Failed s ret s' := by
  obtain ⟨b, -, rfl⟩ := Option.map_eq_some_iff.mp hs
  exact ⟨rfl, rfl, rfl⟩

/-- Two references to power management are given back when the device tree is. -/
theorem cleanDtRet_owns {ret : ℤ} (hcounted : cpsw.Counted)
    (h : Owns s.books ({.pmEnabled} + {.pmUsage} + cpsw.dtRes))
    (hs : cleanDtRet s cpsw ret = some s') : Owns s'.books 0 := by
  obtain ⟨b, hremove, rfl⟩ := Option.map_eq_some_iff.mp hs
  have hpm := removeDt_owns hcounted h hremove
  exact (hpm.release.congr (zero_add _).symm).release

theorem cleanCpts_owns {ret : ℤ} (hcounted : cpsw.Counted)
    (h : Owns s.books (commonRes cpsw + {.pmUsage})) (hs : cleanCpts s cpsw ret = some s') :
    Owns s'.books 0 := by
  have heq : commonRes cpsw + {.pmUsage} =
      {.pmEnabled} + {.pmUsage} + cpsw.dtRes + {.dma} + cptsRes cpsw.cpts := by
    unfold commonRes
    abel
  exact cleanDtRet_owns hcounted (cptsRelease_owns (h.congr heq)).release hs

theorem cleanCpts_spoilt {ret : ℤ} (h : Spoilt s.books) (hs : cleanCpts s cpsw ret = some s') :
    Spoilt s'.books := by
  obtain ⟨b, hremove, rfl⟩ := Option.map_eq_some_iff.mp hs
  have hcpts : Spoilt (cptsRelease cpsw s.books) := by
    unfold cptsRelease
    split
    · exact h.release .cpts nofun
    · exact h
  have hdt : Spoilt b := (hcpts.release .dma nofun).removeDt hremove
  exact (hdt.release .pmUsage nofun).release .pmEnabled nofun

theorem cleanUnregisterNotifiers_spoilt {ret : ℤ} (h : Spoilt s.books)
    (hs : cleanUnregisterNotifiers s cpsw ret = some s') : Spoilt s'.books :=
  cleanCpts_spoilt h.unregisterNotifiers.unregisterPorts hs

/-- How a probe ends: it binds the device, it fails before it has made a net device, or after. -/
inductive Ends (s : State) : Prop
  | bound (cpsw : CpswCommon) (hret : s.ret = 0) (hbound : s.bound = true)
      (hdata : s.drvdata = some cpsw) (hcounted : cpsw.Counted)
      (howns : Owns s.books (boundRes cpsw))
  | clean (hret : s.ret ≠ 0) (hbound : s.bound = false) (hnone : ∀ p, s.created p = false)
      (howns : Owns s.books 0)
  | spoilt (hret : s.ret ≠ 0) (hbound : s.bound = false) (hmade : ∃ p, s.created p = true)
      (hspoilt : Spoilt s.books)

theorem Failed.clean {ret : ℤ} (h : Failed s ret s') (hret : ret ≠ 0)
    (hnone : ∀ p, s.created p = false) (howns : Owns s'.books 0) : Ends s' :=
  .clean (h.ret ▸ hret) h.bound (h.created ▸ hnone) howns

theorem Failed.spoilt {ret : ℤ} (h : Failed s ret s') (hret : ret ≠ 0)
    (hmade : ∃ p, s.created p = true) (hspoilt : Spoilt s'.books) : Ends s' :=
  .spoilt (h.ret ▸ hret) h.bound (h.created ▸ hmade) hspoilt

theorem made_or_none (ndev : Port → Bool) : (∃ p, ndev p = true) ∨ ∀ p, ndev p = false := by
  by_cases hmade : ∃ p, ndev p = true
  · exact Or.inl hmade
  · exact Or.inr fun p => Bool.not_eq_true _ ▸ not_exists.mp hmade p

theorem cleanUnregisterNetdev_ends {ret : ℤ} (hcounted : cpsw.Counted) (hret : ret ≠ 0)
    (hcreated : s.created = cpsw.ndev) (h : Owns s.books (commonRes cpsw + {.pmUsage}))
    (hs : cleanUnregisterNetdev s cpsw ret = some s') : Ends s' := by
  have hfail := cleanDtRet_failed hs
  unfold cleanUnregisterNetdev at hs
  rcases made_or_none cpsw.ndev with ⟨p, hp⟩ | hnone
  · have hspoilt := unregisterPorts_spoilt h netdev_notMem_commonRes hp
    exact hfail.spoilt hret ⟨p, (congrFun hcreated p).trans hp⟩ (cleanCpts_spoilt hspoilt hs)
  · rw [unregisterPorts_none hnone] at hs
    exact hfail.clean hret (fun p => (congrFun hcreated p).trans (hnone p))
      (cleanCpts_owns hcounted h hs)

theorem probeRegister_ends {ans : Answers} (hcounted : cpsw.Counted)
    (hcreated : s.created = cpsw.ndev) (h : Owns s.books (commonRes cpsw + {.pmUsage}))
    (hs : probeRegister ans s cpsw = some s') : Ends s' := by
  unfold probeRegister at hs
  have hnb := registerNotifiers_owns ans h
  dsimp only at hs
  split at hs
  · rename_i hret
    rw [if_neg hret] at hnb
    refine cleanUnregisterNetdev_ends hcounted hret ?_ ?_ hs
    · exact hcreated
    · exact hnb
  rename_i hret
  rw [if_pos (not_not.mp hret)] at hnb
  have hdl := registerDevlink_owns ans hnb
  split at hs
  · rename_i hret
    rw [if_neg hret] at hdl
    refine cleanUnregisterNetdev_ends hcounted hret ?_ ?_ hs
    · exact hcreated
    · exact unregisterNotifiers_owns hdl
  rename_i hret
  rw [if_pos (not_not.mp hret)] at hdl
  split at hs
  · rename_i hret
    have hfail := cleanDtRet_failed hs
    have hmade : ∃ p, cpsw.ndev p = true := by
      rcases made_or_none cpsw.ndev with hmade | hnone
      · exact hmade
      · rw [registerPorts_none hnone] at hret
        exact absurd rfl hret
    have hspoilt := cleanUnregisterNotifiers_spoilt (Spoilt.registerPorts (devlink_held hdl)) hs
    exact hfail.spoilt hret (hcreated ▸ hmade) hspoilt
  · rename_i hret
    obtain ⟨hkept, howns⟩ := registerPorts_owns hdl (not_not.mp hret)
    obtain rfl := Option.some.inj hs
    have heq : commonRes cpsw + {.pmUsage} + notifierRes + devlinkRes + netdevRes cpsw.ndev 0 +
        netdevRes cpsw.ndev 1 = boundRes cpsw + {.pmUsage} := by
      unfold boundRes
      abel
    refine .bound _ rfl rfl rfl hcounted ?_
    rw [hkept]
    exact (howns.congr heq).release

theorem probePortsAndIrqs_ends {ans : Answers} {data : Port → SlaveData} (hcounted : cpsw.Counted)
    (h : Owns s.books (commonRes cpsw + {.pmUsage}))
    (hs : probePortsAndIrqs ans s cpsw data = some s') : Ends s' := by
  unfold probePortsAndIrqs at hs
  dsimp only at hs
  generalize cpswCreatePorts data ans.allocEtherdev ports (fun _ => false) = r at hs
  have hclean : ∀ {ret : ℤ}, ret ≠ 0 → cleanUnregisterNetdev { s with created := r.1 }
      { cpsw with ndev := r.1 } ret = some s' → Ends s' := by
    intro ret hret hs
    refine cleanUnregisterNetdev_ends ?_ hret ?_ ?_ hs
    · exact hcounted
    · rfl
    · exact h
  split at hs
  · rename_i hret
    exact hclean hret hs
  split at hs
  · rename_i hret
    exact hclean hret.ne hs
  split at hs
  · rename_i hret
    exact hclean hret.ne hs
  split at hs
  · rename_i hret
    exact hclean hret.2.ne hs
  · refine probeRegister_ends ?_ ?_ ?_ hs
    · exact hcounted
    · rfl
    · exact h

theorem probePowered_ends {tree : Tree} {ans : Answers} (htree : Sane tree)
    (hnone : ∀ p, s.created p = false) (h : Owns s.books ({.pmEnabled} + {.pmUsage}))
    (hs : probePowered tree ans s = some s') : Ends s' := by
  unfold probePowered at hs
  have hdt : FromDt ({.pmEnabled} + {.pmUsage}) (cpswProbeDt tree ans.slaveDataAlloc
      ⟨0, none, fun _ => false, false⟩ s.books) := probeDt_owns htree h rfl
  dsimp only at hs
  generalize cpswProbeDt tree ans.slaveDataAlloc ⟨0, none, fun _ => false, false⟩ s.books = r
    at hs hdt
  split at hs
  · rename_i hret
    exact (cleanDtRet_failed hs).clean hret hnone (cleanDtRet_owns hdt.counted hdt.owns hs)
  have hcommon := initCommon_owns htree.cpts ans hdt.owns
  generalize cpswInitCommon tree ans r.2.1 = c at hs hcommon
  have hcounted : { r.1 with cpts := c.1 }.Counted := hdt.counted
  split at hs
  · rename_i hret
    rw [if_neg hret] at hcommon
    exact (cleanDtRet_failed hs).clean hret hnone (cleanDtRet_owns hcounted hcommon hs)
  rename_i hret
  rw [if_pos (not_not.mp hret)] at hcommon
  have heq : {.pmEnabled} + {.pmUsage} + r.1.dtRes + {.dma} + cptsRes c.1 =
      {.pmEnabled} + r.1.dtRes + {.dma} + cptsRes c.1 + {.pmUsage} := by abel
  have howns : Owns c.2.1 (commonRes { r.1 with cpts := c.1 } + {.pmUsage}) := hcommon.congr heq
  split at hs
  · rename_i hret
    exact (cleanDtRet_failed hs).clean hret hnone (cleanCpts_owns hcounted howns hs)
  split at hs
  · rename_i hret
    exact (cleanDtRet_failed hs).clean hret hnone (cleanCpts_owns hcounted howns hs)
  obtain ⟨data, -, hs⟩ := Option.bind_eq_some_iff.mp hs
  exact probePortsAndIrqs_ends hcounted howns hs

theorem probe_ends {tree : Tree} {ans : Answers} (htree : Sane tree) (hirq : ans.irqMisc ≠ 0)
    (h : Owns s.books 0) (hs : cpswProbe tree ans s = some s') : Ends s' := by
  unfold cpswProbe at hs
  dsimp only at hs
  split at hs
  · rename_i hret
    obtain rfl := Option.some.inj hs
    exact .clean hret rfl (fun _ => rfl) h
  split at hs
  · obtain rfl := Option.some.inj hs
    exact .clean hirq (decide_eq_false hirq) (fun _ => rfl) h
  have hpm := h.acquire .pmEnabled
  split at hs
  · rename_i hret
    obtain rfl := Option.some.inj hs
    exact .clean hret.ne rfl (fun _ => rfl) hpm.release
  · exact probePowered_ends htree (fun _ => rfl)
      ((hpm.acquire .pmUsage).congr (by rw [zero_add])) hs

/-- A probe that fails gives everything back if and only if it has made no net device. Otherwise it
gives up something that it does not hold, or leaves devlink behind. -/
theorem failedProbe_clean_iff {tree : Tree} {ans : Answers} (htree : Sane tree)
    (hirq : ans.irqMisc ≠ 0) (h : Owns s.books 0) (hs : cpswProbe tree ans s = some s')
    (hret : s'.ret ≠ 0) : (Owns s'.books 0 ↔ ∀ p, s'.created p = false) ∧
      ((∃ p, s'.created p = true) → Spoilt s'.books) := by
  cases probe_ends htree hirq h hs with
  | bound _ hzero => exact absurd hzero hret
  | clean _ _ hnone howns =>
    refine ⟨⟨fun _ => hnone, fun _ => howns⟩, fun hmade => ?_⟩
    obtain ⟨p, hp⟩ := hmade
    exact absurd ((hnone p).symm.trans hp) Bool.false_ne_true
  | spoilt _ _ hmade hspoilt =>
    refine ⟨⟨fun howns => absurd howns hspoilt.not_owns, fun hnone => ?_⟩, fun _ => hspoilt⟩
    obtain ⟨p, hp⟩ := hmade
    exact absurd ((hnone p).symm.trans hp) Bool.false_ne_true

/-- The device tree has ports, but slave_data is not there. -/
def NoSlaveData (tree : Tree) (alloc : Bool) : Prop :=
  tree.ofNode = true ∧ ∃ nodes, tree.ports = some nodes ∧ nodes ≠ [] ∧
    (nodes.length ≠ 2 ∨ alloc = false)

theorem removeDt_eq_none_iff :
    cpswRemoveDt cpsw b = none ↔ cpsw.slaves ≠ 0 ∧ cpsw.slaveData = none := by
  unfold cpswRemoveDt
  by_cases hslaves : cpsw.slaves = 0
  · rw [if_pos hslaves]
    exact ⟨fun h => (nomatch h), fun h => absurd hslaves h.1⟩
  · rw [if_neg hslaves, Option.map_eq_none_iff]
    exact ⟨fun h => ⟨hslaves, h⟩, fun h => h.2⟩

theorem cleanDtRet_eq_none_iff {ret : ℤ} :
    cleanDtRet s cpsw ret = none ↔ cpsw.slaves ≠ 0 ∧ cpsw.slaveData = none :=
  Option.map_eq_none_iff.trans removeDt_eq_none_iff

theorem cleanDtRet_ne_none {ret : ℤ} (data : Port → SlaveData)
    (hdata : cpsw.slaveData = some data) : cleanDtRet s cpsw ret ≠ none := by
  intro h
  exact Option.some_ne_none data (hdata.symm.trans (cleanDtRet_eq_none_iff.mp h).2)

theorem probeRegister_ne_none {ans : Answers} (data : Port → SlaveData)
    (hdata : cpsw.slaveData = some data) : probeRegister ans s cpsw ≠ none := by
  unfold probeRegister
  dsimp only
  split
  · exact cleanDtRet_ne_none data hdata
  split
  · exact cleanDtRet_ne_none data hdata
  split
  · refine cleanDtRet_ne_none data ?_
    exact hdata
  · exact Option.some_ne_none _

theorem probePortsAndIrqs_ne_none {ans : Answers} {data data' : Port → SlaveData}
    (hdata : cpsw.slaveData = some data) : probePortsAndIrqs ans s cpsw data' ≠ none := by
  unfold probePortsAndIrqs
  dsimp only
  generalize cpswCreatePorts data' ans.allocEtherdev ports (fun _ => false) = r
  have hclean : ∀ ret,
      cleanUnregisterNetdev { s with created := r.1 } { cpsw with ndev := r.1 } ret ≠ none := by
    intro ret
    refine cleanDtRet_ne_none data ?_
    exact hdata
  split
  · exact hclean _
  split
  · exact hclean _
  split
  · exact hclean _
  split
  · exact hclean _
  · refine probeRegister_ne_none data ?_
    exact hdata

/-- What cpsw_probe_dt leaves to cpsw_remove_dt: slaves without their data, none, or both. -/
inductive LeavesSlaves (noData : Prop) (r : CpswCommon × Books Res × ℤ) : Prop
  | unread (h : noData) (hret : r.2.2 ≠ 0) (hslaves : r.1.slaves ≠ 0) (hnone : r.1.slaveData = none)
  | none (h : ¬noData) (hret : r.2.2 ≠ 0) (hslaves : r.1.slaves = 0)
  | read (h : ¬noData) (data : Port → SlaveData) (hdata : r.1.slaveData = some data)

theorem probeDt_leavesSlaves {tree : Tree} {alloc : Bool} (hzero : cpsw.slaves = 0)
    (hnone : cpsw.slaveData = none) (b : Books Res) :
    LeavesSlaves (NoSlaveData tree alloc) (cpswProbeDt tree alloc cpsw b) := by
  unfold cpswProbeDt
  by_cases hnode : tree.ofNode = true
  swap
  · rw [Bool.not_eq_true] at hnode
    rw [hnode, Bool.not_false, if_pos rfl]
    refine .none (fun h => ?_) (show -einval ≠ 0 by decide) hzero
    exact Bool.false_ne_true (hnode.symm.trans h.1)
  rw [hnode, Bool.not_true, if_neg Bool.false_ne_true]
  cases hports : tree.ports with
  | none =>
    refine .none (fun h => ?_) neg_enoent_ne_zero hzero
    obtain ⟨nodes, hsome, -⟩ := h.2
    exact Option.some_ne_none nodes (hsome.symm.trans hports)
  | some nodes =>
    dsimp only
    by_cases hlen : nodes.length ≠ 2
    · rw [if_pos hlen]
      by_cases hnil : nodes = []
      · refine .none (fun h => ?_) neg_enoent_ne_zero (show nodes.length = 0 by rw [hnil]; rfl)
        obtain ⟨nodes', hsome, hne, -⟩ := h.2
        exact hne (Option.some.inj (hsome.symm.trans hports) ▸ hnil)
      · exact .unread ⟨hnode, nodes, hports, hnil, Or.inl hlen⟩ neg_enoent_ne_zero
          (fun h => hnil (List.length_eq_zero_iff.mp h)) hnone
    rw [if_neg hlen]
    have hpair : nodes.length = 2 := not_not.mp hlen
    cases halloc : alloc with
    | false =>
      rw [Bool.not_false, if_pos rfl]
      have hne : nodes ≠ [] := by
        rintro rfl
        exact absurd hpair (by decide)
      refine .unread ⟨hnode, nodes, hports, hne, Or.inr rfl⟩ neg_enomem_ne_zero ?_ hnone
      exact hpair.trans_ne (by decide)
    | true =>
      rw [Bool.not_true, if_neg Bool.false_ne_true]
      refine .read (fun h => ?_) _ rfl
      obtain ⟨nodes', hsome, -, hbad⟩ := h.2
      obtain rfl := Option.some.inj (hports.symm.trans hsome)
      exact hbad.elim hlen Bool.true_eq_false.mp

theorem probePowered_eq_none_iff {tree : Tree} {ans : Answers} :
    probePowered tree ans s = none ↔ NoSlaveData tree ans.slaveDataAlloc := by
  have hdt : LeavesSlaves (NoSlaveData tree ans.slaveDataAlloc) (cpswProbeDt tree ans.slaveDataAlloc
      ⟨0, none, fun _ => false, false⟩ s.books) := probeDt_leavesSlaves rfl rfl s.books
  unfold probePowered
  dsimp only
  generalize cpswProbeDt tree ans.slaveDataAlloc ⟨0, none, fun _ => false, false⟩ s.books = r
    at hdt ⊢
  cases hdt with
  | unread h hret hslaves hnone =>
    rw [if_pos hret, cleanDtRet_eq_none_iff]
    exact ⟨fun _ => h, fun _ => ⟨hslaves, hnone⟩⟩
  | none h hret hslaves =>
    rw [if_pos hret, cleanDtRet_eq_none_iff]
    exact ⟨fun hnone => absurd hslaves hnone.1, fun hno => absurd hno h⟩
  | read h data hdata =>
    refine ⟨fun hnone => ?_, fun hno => absurd hno h⟩
    generalize cpswInitCommon tree ans r.2.1 = c at hnone
    have hkept : { r.1 with cpts := c.1 }.slaveData = some data := hdata
    split at hnone
    · exact absurd hnone (cleanDtRet_ne_none data hdata)
    split at hnone
    · exact absurd hnone (cleanDtRet_ne_none data hkept)
    split at hnone
    · exact absurd hnone (cleanDtRet_ne_none data hkept)
    split at hnone
    · exact absurd hnone (cleanDtRet_ne_none data hkept)
    · have hports := Option.bind_eq_none_iff.mp hnone data hdata
      exact absurd hports (probePortsAndIrqs_ne_none hkept)

/-- A probe reads through a null pointer if and only if it gets as far as the device tree, and finds
ports there without slave_data. -/
theorem probe_eq_none_iff {tree : Tree} {ans : Answers} : cpswProbe tree ans s = none ↔
    firstCalls ans = 0 ∧ 0 < ans.irqMisc ∧ 0 ≤ ans.pmResume ∧
      NoSlaveData tree ans.slaveDataAlloc := by
  unfold cpswProbe
  dsimp only
  by_cases hfirst : firstCalls ans ≠ 0
  · rw [if_pos hfirst]
    exact ⟨fun h => (nomatch h), fun h => absurd h.1 hfirst⟩
  rw [if_neg hfirst]
  by_cases hirq : ans.irqMisc ≤ 0
  · rw [if_pos hirq]
    exact ⟨fun h => (nomatch h), fun h => absurd h.2.1 (not_lt.mpr hirq)⟩
  rw [if_neg hirq]
  by_cases hpm : ans.pmResume < 0
  · rw [if_pos hpm]
    exact ⟨fun h => (nomatch h), fun h => absurd h.2.2.1 (not_le.mpr hpm)⟩
  rw [if_neg hpm, probePowered_eq_none_iff]
  exact ⟨fun h => ⟨not_not.mp hfirst, not_le.mp hirq, not_lt.mp hpm, h⟩, fun h => h.2.2.2⟩

instance (tree : Tree) : Decidable (Sane tree) :=
  decidable_of_iff (tree.cpts = true ∧ (∀ np ∈ tree.ports.getD [], np.phyIsFixed = false) ∧
      (tree.ports.getD []).Pairwise fun np np' => np.reg ≠ np'.reg)
    ⟨fun h => ⟨h.1, h.2.1, h.2.2⟩, fun h => ⟨h.cpts, h.phys, h.regs⟩⟩

def portNode (reg : ℕ) : PortNode := ⟨0, reg, true, 0, false, 0, true, false, 0, 0⟩

def twoPorts : Tree := ⟨true, some [portNode 1, portNode 2], true⟩

def willing : Answers where
  cpswAlloc := true
  slavesAlloc := true
  gpiod := 0
  clk := 0
  regs := 0
  irqRx := 1
  irqTx := 2
  irqMisc := 3
  pmResume := 0
  slaveDataAlloc := true
  knownVersion := true
  slGet _ := 0
  aleCreate := 0
  dmaCreate := true
  cptsCreate := 0
  cptsUnit := true
  txChan := 0
  rxChan := 0
  allocEtherdev _ := true
  requestRx := 0
  requestTx := 0
  requestMisc := 0
  netdevNb := 0
  switchdevNb := 0
  switchdevBlNb := 0
  devlinkAlloc := true
  dlParams := 0
  registerNetdev _ := 0

def irqTaken : Answers := { willing with requestTx := -ebusy }

theorem failedProbe_not_clean : ∃ s, cpswProbe twoPorts irqTaken unbound = some s ∧
    s.ret = -ebusy ∧ ¬Owns s.books 0 ∧ Spoilt s.books := by
  have htest : (cpswProbe twoPorts irqTaken unbound).any
      (fun s => decide (s.ret = -ebusy ∧ s.created 0 = true)) = true := by decide +kernel
  obtain ⟨s, hs, hend⟩ := (Option.any_eq_true _ _).mp htest
  obtain ⟨hret, hmade⟩ := of_decide_eq_true hend
  obtain ⟨hclean, hspoilt⟩ :=
    failedProbe_clean_iff (by decide) (by decide) owns_empty hs (hret ▸ by decide)
  refine ⟨s, hs, hret, fun howns => ?_, hspoilt ⟨0, hmade⟩⟩
  exact absurd ((hclean.mp howns 0).symm.trans hmade) Bool.false_ne_true

structure Inv (s : State) : Prop where
  bound : s.bound = true → ∃ cpsw, s.drvdata = some cpsw ∧ cpsw.Counted ∧
    Owns s.books (boundRes cpsw)
  unbound : s.bound = false → Owns s.books 0

/-- A probe that has failed failed before it made a net device. -/
def Early (s : State) : Prop := s.ret = 0 ∨ ∀ p, s.created p = false

theorem Ends.inv (h : Ends s) (hearly : Early s) : Inv s := by
  cases h with
  | bound cpsw _ hbound hdata hcounted howns =>
    exact ⟨fun _ => ⟨cpsw, hdata, hcounted, howns⟩,
      fun hfalse => absurd (hbound.symm.trans hfalse) Bool.true_eq_false.mp⟩
  | clean _ hbound _ howns =>
    exact ⟨fun htrue => absurd (hbound.symm.trans htrue) Bool.false_ne_true, fun _ => howns⟩
  | spoilt hret _ hmade _ =>
    obtain ⟨p, hp⟩ := hmade
    rcases hearly with hzero | hnone
    · exact absurd hzero hret
    · exact absurd ((hnone p).symm.trans hp) Bool.false_ne_true

theorem remove_inv {pmResume : ℤ} (hpm : 0 ≤ pmResume) (h : Inv s) (hbound : s.bound = true)
    (hs : cpswRemove pmResume s = some s') : Inv s' := by
  obtain ⟨cpsw, hdata, hcounted, howns⟩ := h.bound hbound
  unfold cpswRemove at hs
  rw [if_neg (not_lt.mpr hpm), hdata, Option.bind_some] at hs
  obtain ⟨b, hremove, rfl⟩ := Option.map_eq_some_iff.mp hs
  have heq : boundRes cpsw + {.pmUsage} = {.pmEnabled} + {.pmUsage} + cpsw.dtRes + {.dma} +
      cptsRes cpsw.cpts + netdevRes cpsw.ndev 0 + netdevRes cpsw.ndev 1 + devlinkRes +
        notifierRes := by
    unfold boundRes commonRes
    abel
  have hports := unregisterDevlink_owns (unregisterNotifiers_owns ((howns.acquire _).congr heq))
  have hcommon := cptsRelease_owns (unregisterPorts_owns hports)
  have hdt := removeDt_owns hcounted hcommon.release hremove
  exact ⟨fun hbound => (nomatch hbound), fun _ => (hdt.release.congr (zero_add _).symm).release⟩

instance (s : State) : Decidable (Early s) := inferInstanceAs (Decidable (_ ∨ _))

/-- The kernel answers as documented: the number of an interrupt is not 0, and a device that is
removed resumes. A probe that fails does so before it has made a net device. -/
def Covered (s : State) : Op → Prop
  | .probe tree ans => Sane tree ∧ ans.irqMisc ≠ 0 ∧ ∀ s' ∈ cpswProbe tree ans s, Early s'
  | .remove pmResume => 0 ≤ pmResume

instance (s : State) : ∀ op, Decidable (Covered s op)
  | .probe _ _ => inferInstanceAs (Decidable (_ ∧ _ ∧ _))
  | .remove _ => inferInstanceAs (Decidable (_ ≤ _))

theorem Inv.step {op : Op} (h : Inv s) (hok : Covered s op) (hs : Probe.step s op = some s') :
    Inv s' := by
  cases op with
  | probe tree ans =>
    unfold Probe.step at hs
    dsimp only at hs
    split at hs
    · cases hs
    · rename_i hbound
      have howns := h.unbound (Bool.not_eq_true _ ▸ hbound)
      exact (probe_ends hok.1 hok.2.1 howns hs).inv (hok.2.2 s' hs)
  | remove pmResume =>
    unfold Probe.step at hs
    dsimp only at hs
    split at hs
    · rename_i hbound
      exact remove_inv hok h hbound hs
    · cases hs

theorem inv_unbound : Inv unbound := ⟨fun hbound => (nomatch hbound), fun _ => owns_empty⟩

theorem settled_of_run {ops : List Op} (hrun : Run Probe.step Covered unbound ops s) :
    Settled s := by
  have hinv := hrun.invariant (fun _ _ _ h hok hs => h.step hok hs) inv_unbound
  refine ⟨fun hbound => ?_, hinv.unbound⟩
  obtain ⟨cpsw, hdata, -, howns⟩ := hinv.bound hbound
  exact ⟨cpsw, hdata, howns⟩

def reprobed : List Op :=
  [.probe twoPorts { willing with txChan := -enomem }, .probe twoPorts willing, .remove 0,
    .probe twoPorts willing]

theorem settled_after_reprobe : ∃ s, Run Probe.step Covered unbound reprobed s ∧ s.bound = true ∧
    Settled s := by
  have htest : (exec Probe.step Covered unbound reprobed).any (fun s => s.bound) = true := by
    decide +kernel
  obtain ⟨s, hrun, hbound⟩ := exists_run_of_any htest
  exact ⟨s, hrun, hbound, settled_of_run hrun⟩

end CpswDriver.Probe
