import CpswDriver.Cpsw.SwitchMode

/-!
The mark on received frames that tells the bridge that the switch has forwarded
them by itself, so that the bridge does not do it again. It belongs to frames
of ports that are in one bridge, in switch mode, and not while the switch
bypasses its lookup engine.
-/

namespace CpswDriver.OffloadMark

open Ale Runs
open SwitchMode (CpswParams CpswDlParam alePort1 alePort2 hostAle defAle)

/-- The switch with what the driver knows of the bridge. `upper` is the bridge that the stack has
linked a port to. -/
structure State (β : Type*) where
  sw : SwitchMode.State
  hwBridgeDev : Option β
  aleBypass : Bool
  offloadFwdMark : Port → Bool
  upper : Port → Option β

variable {β : Type*} [DecidableEq β]

/-- Undefined where a slave has no net device: its private data is written to anyway. -/
def cpswPortOffloadFwdMarkUpdate (params : CpswParams) (s : State β) : Option (State β) :=
  let setVal := !s.aleBypass && s.sw.brMembers == (alePort1 ||| alePort2)
  if SwitchMode.slaves.all params.hasNdev then some { s with offloadFwdMark := fun _ => setVal }
  else none

/-- `err` is what the switchdev core returns for the offload of the port. -/
def cpswNetdevicePortLink (params : CpswParams) (s : State β) (p : Port) (brNdev : β) (err : ℤ) :
    Option (State β × ℤ) :=
  if s.sw.brMembers ≠ 0 ∧ s.hwBridgeDev ≠ some brNdev then
    some (s, -eopnotsupp)
  else
    let s := if s.sw.brMembers = 0 then { s with hwBridgeDev := some brNdev } else s
    if err ≠ 0 then some (s, err)
    else
      let sw := { s.sw with brMembers := s.sw.brMembers ||| (1#32 <<< emacPort p) }
      (cpswPortOffloadFwdMarkUpdate params { s with sw := sw }).map fun s => (s, 0)

def cpswNetdevicePortUnlink (params : CpswParams) (s : State β) (p : Port) : Option (State β) :=
  let sw := { s.sw with brMembers := s.sw.brMembers &&& ~~~(1#32 <<< emacPort p) }
  (cpswPortOffloadFwdMarkUpdate params { s with sw := sw }).map fun s =>
    if s.sw.brMembers = 0 then { s with hwBridgeDev := none } else s

def cpswPortDevCheck (s : State β) : Bool := !s.sw.dualEmac

/-- NETDEV_CHANGEUPPER for a bridge -/
def cpswNetdeviceEvent (params : CpswParams) (s : State β) (p : Port) (upperDev : β)
    (linking : Bool) (err : ℤ) : Option (State β × ℤ) :=
  if !cpswPortDevCheck s then some (s, 0)
  else if linking then cpswNetdevicePortLink params s p upperDev err
  else (cpswNetdevicePortUnlink params s p).map fun s => (s, 0)

def cpswDlAleCtrlSet (params : CpswParams) (s : State β) (id : CpswDlParam) (val : Bool) :
    Option (State β × ℤ) :=
  match id with
  | .aleBypass =>
    let (ale, ret) := cpswAleControlSet params.ale s.sw.ale 0 .bypass (if val then 1 else 0)
    let s := { s with sw := { s.sw with ale := ale } }
    if ret = 0 then
      (cpswPortOffloadFwdMarkUpdate params { s with aleBypass := val }).map fun s => (s, 0)
    else some (s, 0)
  | .switchMode => some (s, -eopnotsupp)

inductive Op (β : Type*)
  /-- the stack links a port to a bridge, or unlinks it -/
  | changeUpper (p : Port) (upperDev : β) (linking : Bool) (err : ℤ)
  | dlAleCtrlSet (id : CpswDlParam) (val : Bool)
  /-- what else happens to the switch -/
  | switch (op : SwitchMode.Op)

/-- The stack links a port to one bridge at a time, and takes back a link that is refused. -/
def step (params : CpswParams) (s : State β) : Op β → Option (State β)
  | .changeUpper p upperDev linking err =>
    if s.upper p = if linking then none else some upperDev then
      (cpswNetdeviceEvent params s p upperDev linking err).map fun r =>
        let upper := if linking && r.2 = 0 then some upperDev else none
        { r.1 with upper := Function.update s.upper p upper }
    else none
  | .dlAleCtrlSet id val => (cpswDlAleCtrlSet params s id val).map Prod.fst
  | .switch op => (SwitchMode.step params s.sw op).map fun sw => { s with sw := sw }

/-- After the probe. -/
structure Initial (s : State β) : Prop where
  brMembers : s.sw.brMembers = 0
  aleBypass : s.aleBypass = false
  bypass : (s.sw.ale.regs aleControlReg).getLsbD 4 = false
  mark : ∀ p, s.offloadFwdMark p = false
  upper : ∀ p, s.upper p = none

/-- The engine does not bypass when it did not before. -/
def Quiet (ale ale' : CpswAle) : Prop :=
  (ale'.regs aleControlReg).getLsbD 4 = true → (ale.regs aleControlReg).getLsbD 4 = true

variable {params : CpswParams} {ale ale' ale'' : CpswAle} {s s' : State β} {p : Port}

omit [DecidableEq β] in
theorem Quiet.refl (ale : CpswAle) : Quiet ale ale := id

theorem Quiet.trans (h : Quiet ale ale') (h' : Quiet ale' ale'') : Quiet ale ale'' :=
  fun hset => h (h' hset)

theorem quiet_of_regs (h : ale'.regs aleControlReg = ale.regs aleControlReg) : Quiet ale ale' := by
  unfold Quiet
  rw [h]
  exact id

/-- Setting a control writes the bypass bit only if it is that control. -/
theorem controlSetRegs_bypass (params : AleParams) (regs : ℕ → U32) (port : ℤ)
    {control : AleControl} (hne : control ≠ .bypass) (value : U32) :
    ((cpswAleControlSetRegs params regs port control value).1 aleControlReg).getLsbD 4 =
      (regs aleControlReg).getLsbD 4 := by
  unfold cpswAleControlSetRegs
  dsimp only
  generalize (if (aleControls params control).portOffset = 0 ∧
    (aleControls params control).portShift = 0 then (0 : ℤ) else port) = port'
  split
  · rfl
  split
  · rfl
  rename_i hvalue
  rw [not_not] at hvalue
  cases hshift : control.engineShift with
  | none =>
    have hother : ∀ port : ℕ, (aleControls params control).offset +
        port * (aleControls params control).portOffset ≠ aleControlReg := by
      intro port
      cases control <;> simp [AleControl.engineShift] at hshift <;>
        simp only [aleControls, aleControlReg, alePortctl, am65CpswAleThreadDefReg] <;>
        first
          | omega
          | split <;> simp [aleUnknownvlanMember, aleUnknownvlan, aleUnknownvlanUnregMcastFlood,
              aleUnknownvlanRegMcastFlood, aleUnknownvlanForceUntagEgress]
    dsimp only
    rw [Function.update_of_ne (hother _).symm]
  | some shift =>
    obtain ⟨hinfo, hlt⟩ : aleControls params control = _ ∧ _ := engineShift_info hshift
    have hne4 : shift ≠ 4 := by
      rintro rfl
      cases control <;> simp [AleControl.engineShift] at hshift hne
    rw [hinfo] at hvalue ⊢
    dsimp only at hvalue ⊢
    have hself : value &&& BitField.bitMask 32 1 = value := BitField.and_eq_self hvalue
    simp only [Nat.mul_zero, Nat.add_zero, Function.update_self]
    have hput : (BitField.put (regs aleControlReg) shift 1 value).getLsbD 4 = _ :=
      BitField.getLsbD_put (by decide) _ _ (by decide)
    rw [if_neg (by omega)] at hput
    unfold BitField.put at hput
    rw [hself] at hput
    exact hput

theorem quiet_controlSet (params : AleParams) (ale : CpswAle) (port : ℤ) {control : AleControl}
    (hne : control ≠ .bypass) (value : U32) :
    Quiet ale (cpswAleControlSet params ale port control value).1 := by
  have hregs := controlSetRegs_bypass params ale.regs port hne value
  unfold Quiet cpswAleControlSet
  dsimp only
  split
  · unfold aleClear
    dsimp only
    rw [Function.update_self, BitField.getLsbD_and_not_bit (by decide), hregs]
    simp
  · rw [hregs]
    exact id

theorem quiet_writel {offset : ℕ} (h : aleControlReg ≠ offset) (ale : CpswAle) (v : U32) :
    Quiet ale (ale.writel v offset) := by
  apply quiet_of_regs
  unfold CpswAle.writel
  exact Function.update_of_ne h v ale.regs

theorem quiet_start (params : AleParams) (ale : CpswAle) : Quiet ale (cpswAleStart params ale) := by
  have hprescale : Quiet ale (ale.writel (BitVec.ofNat 32 (params.busFreq / aleRateLimitMinPps))
      alePrescale) := quiet_writel (by decide) ale _
  have haging : ∀ ale : CpswAle, Quiet ale (cpswAleAgingStart params ale) := by
    intro ale
    unfold cpswAleAgingStart cpswAleHwAgingTimerStart
    dsimp only
    split
    · exact Quiet.refl ale
    split
    · exact quiet_writel (by decide) ale _
    · exact Quiet.refl ale
  unfold cpswAleStart
  dsimp only
  exact (((hprescale.trans (quiet_controlSet params _ 0 (by decide) 1)).trans
    (quiet_controlSet params _ 0 (by decide) 1)).trans
    (quiet_controlSet params _ 0 (by decide) 1)).trans (haging _)

theorem quiet_stop (params : AleParams) (ale : CpswAle) : Quiet ale (cpswAleStop params ale) := by
  have haging : Quiet ale (cpswAleAgingStop params ale) := by
    unfold cpswAleAgingStop
    split
    · exact Quiet.refl ale
    split
    · exact quiet_writel (by decide) ale _
    · exact Quiet.refl ale
  unfold cpswAleStop
  exact (haging.trans (quiet_controlSet params _ 0 (by decide) 1)).trans
    (quiet_controlSet params _ 0 (by decide) 0)

theorem quiet_addVlan (params : CpswParams) (ale : CpswAle) (vid : U16)
    (members untag regMcast unregMcast : U32) :
    Quiet ale (cpswAleAddVlan params.ale ale vid members untag regMcast unregMcast).1 :=
  quiet_of_regs (congrFun (regs_addVlan params.directMasks ale vid members untag regMcast
    unregMcast) _)

theorem quiet_store (ale : CpswAle) (idx : Option ℕ) (e : AleEntry) :
    Quiet ale (cpswAleStore ale idx e).1 :=
  quiet_of_regs (congrFun (regs_store ale idx e) _)

theorem quiet_host (params : CpswParams) (d : Bool) (ale : CpswAle) :
    Quiet ale (hostAle params d ale) := by
  cases d with
  | true =>
    exact ((quiet_controlSet params.ale ale 0 (by decide) 0).trans
      (quiet_addVlan params _ _ _ _ _ _)).trans (quiet_controlSet params.ale _ 0 (by decide) 1)
  | false =>
    exact (((quiet_addVlan params ale _ _ _ _ _).trans (quiet_store _ _ _)).trans
      (quiet_controlSet params.ale _ 0 (by decide) 1)).trans
      (quiet_controlSet params.ale _ 0 (by decide) 0)

theorem quiet_def (params : CpswParams) (d : Bool) (ale : CpswAle) (p : Port) (vlan : U16) :
    Quiet ale (defAle params d ale p vlan) := by
  cases d with
  | true =>
    exact ((((quiet_addVlan params ale _ _ _ _ _).trans (quiet_store _ _ _)).trans
      (quiet_store _ _ _)).trans (quiet_controlSet params.ale _ _ (by decide) 1)).trans
      (quiet_controlSet params.ale _ _ (by decide) 1)
  | false =>
    exact ((((quiet_controlSet params.ale ale _ (by decide) 0).trans
      (quiet_controlSet params.ale _ _ (by decide) 0)).trans
      (quiet_controlSet params.ale _ _ (by decide) 1)).trans (quiet_store _ _ _)).trans
      (quiet_store _ _ _)

theorem quiet_initHostPort (params : CpswParams) (s : SwitchMode.State) :
    Quiet s.ale (SwitchMode.cpswInitHostPort params s).ale := by
  have hreset : Quiet s.ale { s.ale with regs := params.softReset s.ale.regs } := by
    unfold Quiet
    dsimp only
    rcases params.softReset_keeps s.ale.regs aleControlReg with heq | heq <;> rw [heq]
    · exact id
    · intro hset
      simp at hset
  obtain ⟨regs, heq⟩ := SwitchMode.initHostPort_eq params s
  rw [heq]
  unfold SwitchMode.initHostPortAle
  exact (((hreset.trans (quiet_start params.ale _)).trans
    (quiet_controlSet params.ale _ 0 (by decide) _)).trans (quiet_host params _ _)).trans
    (quiet_controlSet params.ale _ 0 (by decide) _)

theorem quiet_adjustLink (params : CpswParams) (s : SwitchMode.State) (p : Port) (link : Bool) :
    Quiet s.ale (SwitchMode.cpswAdjustLink params s p link).ale := by
  unfold SwitchMode.cpswAdjustLink
  split
  · exact Quiet.refl s.ale
  · exact quiet_controlSet params.ale s.ale _ (by decide) _

/-- A step of the switch keeps the members of the bridge, turns the bypass off or leaves it, and
does not leave switch mode while there are members. -/
structure Steady (s s' : SwitchMode.State) : Prop where
  brMembers : s'.brMembers = s.brMembers
  quiet : Quiet s.ale s'.ale
  mode : s.brMembers ≠ 0 → s.dualEmac = false → s'.dualEmac = false

theorem steady_openPort (params : CpswParams) (s : SwitchMode.State) (p : Port) (phyFound : Bool) :
    Steady s (SwitchMode.cpswNdoOpen params s p phyFound) := by
  unfold SwitchMode.cpswNdoOpen
  dsimp only
  obtain ⟨hostRegs, hinit⟩ := SwitchMode.initHostPort_eq params s
  have hquiet := quiet_initHostPort params s
  split
  · obtain ⟨regs, heq⟩ := SwitchMode.slaveOpen_eq params (SwitchMode.cpswInitHostPort params s) p
      phyFound
    rw [heq]
    refine ⟨?_, hquiet.trans (quiet_def params _ _ p _), fun _ hmode => ?_⟩
    · rw [hinit]
    · rw [hinit]
      exact hmode
  · obtain ⟨regs, heq⟩ := SwitchMode.slaveOpen_eq params s p phyFound
    rw [heq]
    exact ⟨rfl, quiet_def params _ _ p _, fun _ => id⟩

theorem steady_stopPort (params : CpswParams) (s : SwitchMode.State) (p : Port) :
    Steady s (SwitchMode.cpswNdoStop params s p) := by
  have hphy : Quiet s.ale (SwitchMode.phyStop params s p).ale := by
    unfold SwitchMode.phyStop
    dsimp only
    split
    · exact quiet_adjustLink params s p false
    · exact Quiet.refl s.ale
  rw [SwitchMode.ndoStop_eq]
  refine ⟨rfl, ?_, fun _ => id⟩
  unfold SwitchMode.stopAle
  dsimp only
  split
  · exact hphy.trans (quiet_stop params.ale _)
  · exact hphy

theorem bypass_off (params : AleParams) (ale : CpswAle) :
    ((cpswAleControlSet params ale 0 .bypass 0).1.regs aleControlReg).getLsbD 4 = false := by
  have hport := params.alePorts_pos
  have hregs : (cpswAleControlSetRegs params ale.regs 0 .bypass 0).1 aleControlReg =
      BitField.put (ale.regs aleControlReg) 4 1 0 := by
    have hin : ¬ ((0 : ℤ) < 0 ∨ (params.alePorts : ℤ) ≤ 0) := by omega
    have hfits : ¬ ((0 : U32) &&& ~~~BitField.bitMask 32 1 ≠ 0) := by decide
    unfold cpswAleControlSetRegs
    simp only [aleControls, and_self, if_true]
    rw [if_neg hin, if_neg hfits]
    unfold BitField.put
    simp
  have hput : (BitField.put (ale.regs aleControlReg) 4 1 0).getLsbD 4 = false := by
    rw [BitField.getLsbD_put (by decide) _ _ (by decide), if_pos (by decide)]
    rfl
  unfold cpswAleControlSet
  dsimp only
  split
  · unfold aleClear
    dsimp only
    rw [Function.update_self, BitField.getLsbD_and_not_bit (by decide), hregs, hput]
    rfl
  · dsimp only
    rw [hregs, hput]

theorem brMembers_enable (params : CpswParams) (s : SwitchMode.State) (p : Port) :
    (SwitchMode.enableSwitchMode params s p).brMembers = s.brMembers := by
  unfold SwitchMode.enableSwitchMode
  dsimp only
  split
  · rfl
  split <;> rfl

theorem brMembers_disable (params : CpswParams) (s : SwitchMode.State) (p : Port) :
    (SwitchMode.disableSwitchMode params s p).brMembers = s.brMembers := by
  unfold SwitchMode.disableSwitchMode
  split <;> rfl

/-- Setting the mode ends with the bypass off, or does nothing to the engine. -/
theorem steady_switchModeSet (params : CpswParams) (s : SwitchMode.State) (id : CpswDlParam)
    (switchEn : Bool) : Steady s (SwitchMode.cpswDlSwitchModeSet params s id switchEn).1 := by
  have hoff : ∀ t : SwitchMode.State, Quiet s.ale
      (cpswAleControlSet params.ale t.ale 0 .bypass 0).1 := fun t hset => by
    rw [bypass_off] at hset
    cases hset
  have hsame : Steady s s := ⟨rfl, Quiet.refl _, fun _ hmode => hmode⟩
  unfold SwitchMode.cpswDlSwitchModeSet
  split
  · exact hsame
  split
  · exact hsame
  split
  · exact hsame
  rename_i hmembers
  have hnone : s.brMembers ≠ 0 → switchEn = true := by
    intro hne
    cases switchEn with
    | true => rfl
    | false => exact absurd (by simpa using hmembers) hne
  split
  · rw [SwitchMode.recordMode_eq]
    refine ⟨rfl, Quiet.refl _, fun hne _ => ?_⟩
    dsimp only
    rw [hnone hne]
    rfl
  dsimp only
  split
  · refine ⟨?_, hoff _, fun _ _ => rfl⟩
    exact (brMembers_enable params _ 1).trans (brMembers_enable params _ 0)
  · rename_i hdisable
    refine ⟨?_, hoff _, fun hne _ => absurd (hnone hne) hdisable⟩
    exact (brMembers_disable params _ 1).trans (brMembers_disable params _ 0)

theorem steady_step {s s' : SwitchMode.State} {op : SwitchMode.Op}
    (hst : SwitchMode.step params s op = some s') : Steady s s' := by
  cases op with
  | openPort p phyFound =>
    simp only [SwitchMode.step] at hst
    split at hst
    · cases hst
      obtain ⟨hmembers, hquiet, hmode⟩ := steady_openPort params s p phyFound
      exact ⟨hmembers, hquiet, hmode⟩
    · cases hst
  | stopPort p =>
    simp only [SwitchMode.step] at hst
    split at hst
    · cases hst
      obtain ⟨hmembers, hquiet, hmode⟩ := steady_stopPort params s p
      exact ⟨hmembers, hquiet, hmode⟩
    · cases hst
  | switchModeSet id switchEn =>
    cases hst
    exact steady_switchModeSet params s id switchEn
  | adjustLink p link =>
    cases hst
    have hquiet := quiet_adjustLink params s p link
    obtain ⟨phy, ale, heq⟩ := SwitchMode.adjustLink_eq params s p link
    rw [heq] at hquiet ⊢
    exact ⟨rfl, hquiet, fun _ => id⟩
  | hardware idx aleEntry =>
    simp only [SwitchMode.step] at hst
    split at hst
    · cases hst
      exact ⟨rfl, Quiet.refl _, fun _ => id⟩
    · cases hst

def bothPorts : U32 := alePort1 ||| alePort2

/-- The port is in the bridge, as far as the driver knows. -/
def isMember (members : U32) (p : Port) : Bool := members.getLsbD (emacPort p)

structure Inv (s : State β) : Prop where
  mark : ∀ p, s.offloadFwdMark p = (!s.aleBypass && s.sw.brMembers == bothPorts)
  mode : s.sw.brMembers ≠ 0 → s.sw.dualEmac = false
  bypass : s.aleBypass = false → (s.sw.ale.regs aleControlReg).getLsbD 4 = false
  upper : ∀ p, isMember s.sw.brMembers p = true → ∃ br, s.upper p = some br ∧ s.hwBridgeDev = some br

omit [DecidableEq β] in
/-- The marks follow the members and the bypass. -/
theorem update_spec (h : cpswPortOffloadFwdMarkUpdate params s = some s') :
    s' = { s with offloadFwdMark := fun _ => !s.aleBypass && s.sw.brMembers == bothPorts } := by
  unfold cpswPortOffloadFwdMarkUpdate at h
  dsimp only at h
  split at h
  · exact (Option.some.inj h).symm
  · cases h

theorem isMember_join (members : U32) (p q : Port) :
    isMember (members ||| (1#32 <<< emacPort p)) q = (isMember members q || decide (q = p)) := by
  unfold isMember
  rw [BitVec.getLsbD_or]
  congr 1
  revert p q
  decide

theorem isMember_leave (members : U32) (p q : Port) :
    isMember (members &&& ~~~(1#32 <<< emacPort p)) q = (isMember members q && !decide (q = p)) := by
  unfold isMember
  rw [BitVec.getLsbD_and]
  congr 1
  revert p q
  decide

theorem isMember_zero (p : Port) : isMember 0 p = false := BitVec.getLsbD_zero

theorem Inv.link (h : Inv s) (hswitch : s.sw.dualEmac = false) {br : β} {err : ℤ}
    {r : State β × ℤ} (hr : cpswNetdevicePortLink params s p br err = some r)
    (hfree : s.upper p = none) : Inv { r.1 with
      upper := Function.update s.upper p (if r.2 = 0 then some br else none) } := by
  have hnot : isMember s.sw.brMembers p = false := by
    rw [Bool.eq_false_iff]
    intro hmem
    obtain ⟨br', hup, -⟩ := h.upper p hmem
    rw [hfree] at hup
    cases hup
  have hkept : ∀ hw : Option β, (s.sw.brMembers ≠ 0 → hw = s.hwBridgeDev) → ∀ q,
      isMember s.sw.brMembers q = true →
      ∃ br', Function.update s.upper p none q = some br' ∧ hw = some br' := by
    intro hw hsame q hmem
    obtain ⟨br', hup, hdev⟩ := h.upper q hmem
    have hne : q ≠ p := by
      rintro rfl
      rw [hnot] at hmem
      cases hmem
    refine ⟨br', (Function.update_of_ne hne _ _).trans hup, ?_⟩
    rw [hsame ?_, hdev]
    intro hzero
    rw [hzero, isMember_zero] at hmem
    cases hmem
  unfold cpswNetdevicePortLink at hr
  dsimp only at hr
  split at hr
  · cases hr
    have herr : ¬ (-eopnotsupp = 0) := by decide
    dsimp only
    rw [if_neg herr]
    exact ⟨h.mark, h.mode, h.bypass, hkept s.hwBridgeDev fun _ => rfl⟩
  rename_i hbridge
  generalize hs₁ : (if s.sw.brMembers = 0 then { s with hwBridgeDev := some br } else s) = s₁ at hr
  have hfields : s₁.sw = s.sw ∧ s₁.aleBypass = s.aleBypass ∧
      s₁.offloadFwdMark = s.offloadFwdMark ∧
      (s.sw.brMembers ≠ 0 → s₁.hwBridgeDev = s.hwBridgeDev) := by
    rw [← hs₁]
    split
    · exact ⟨rfl, rfl, rfl, fun hne => absurd ‹_› hne⟩
    · exact ⟨rfl, rfl, rfl, fun _ => rfl⟩
  obtain ⟨hsw, hbypass, hmark, hdev⟩ := hfields
  have hnow : s₁.hwBridgeDev = some br := by
    rw [← hs₁]
    split
    · rfl
    · rename_i hne
      by_contra hcon
      exact hbridge ⟨hne, hcon⟩
  split at hr
  · rename_i herr
    cases hr
    dsimp only
    rw [if_neg herr]
    refine ⟨?_, ?_, ?_, ?_⟩ <;> dsimp only <;> rw [hsw]
    · rw [hbypass, hmark]
      exact h.mark
    · exact h.mode
    · rw [hbypass]
      exact h.bypass
    · exact hkept s₁.hwBridgeDev hdev
  · obtain ⟨s₂, hs₂, rfl⟩ := Option.map_eq_some_iff.mp hr
    have heq := update_spec hs₂
    dsimp only at heq ⊢
    rw [heq, if_pos rfl]
    refine ⟨fun _ => rfl, fun _ => ?_, fun hoff => ?_, fun q hmem => ?_⟩
    · dsimp only
      rw [hsw]
      exact hswitch
    · dsimp only at hoff ⊢
      rw [hsw]
      rw [hbypass] at hoff
      exact h.bypass hoff
    · dsimp only at hmem ⊢
      rw [isMember_join, hsw] at hmem
      by_cases hq : q = p
      · refine ⟨br, ?_, hnow⟩
        rw [hq, Function.update_self]
      · have hold : isMember s.sw.brMembers q = true := by simpa [hq] using hmem
        obtain ⟨br', hup, hdev'⟩ := hkept s₁.hwBridgeDev hdev q hold
        rw [Function.update_of_ne hq] at hup ⊢
        exact ⟨br', hup, hdev'⟩

omit [DecidableEq β] in
theorem Inv.unlink (h : Inv s) (hswitch : s.sw.dualEmac = false)
    (hst : cpswNetdevicePortUnlink params s p = some s') :
    Inv { s' with upper := Function.update s.upper p none } := by
  obtain ⟨s₁, hs₁, rfl⟩ := Option.map_eq_some_iff.mp hst
  have heq := update_spec hs₁
  dsimp only at heq
  have hleft : ∀ q, isMember (s.sw.brMembers &&& ~~~(1#32 <<< emacPort p)) q = true → ∃ br,
      Function.update s.upper p none q = some br ∧ s.hwBridgeDev = some br := by
    intro q hmem
    rw [isMember_leave, Bool.and_eq_true, Bool.not_eq_true', decide_eq_false_iff_not] at hmem
    rw [Function.update_of_ne hmem.2]
    exact h.upper q hmem.1
  rw [heq]
  dsimp only
  split
  · rename_i hnone
    refine ⟨fun _ => rfl, fun _ => hswitch, h.bypass, fun q hmem => ?_⟩
    dsimp only at hmem
    rw [hnone, isMember_zero] at hmem
    cases hmem
  · exact ⟨fun _ => rfl, fun _ => hswitch, h.bypass, hleft⟩

theorem Inv.changeUpper (h : Inv s) {br : β} {linking : Bool} {err : ℤ} {r : State β × ℤ}
    (hr : cpswNetdeviceEvent params s p br linking err = some r)
    (hup : s.upper p = if linking then none else some br) : Inv { r.1 with
      upper := Function.update s.upper p (if linking && r.2 = 0 then some br else none) } := by
  unfold cpswNetdeviceEvent cpswPortDevCheck at hr
  cases hmode : s.sw.dualEmac with
  | true =>
    have hnone : s.sw.brMembers = 0 := by
      by_contra hne
      rw [h.mode hne] at hmode
      cases hmode
    rw [hmode] at hr
    cases hr
    refine ⟨h.mark, h.mode, h.bypass, fun q hmem => ?_⟩
    dsimp only at hmem
    rw [hnone, isMember_zero] at hmem
    cases hmem
  | false =>
    rw [hmode, Bool.not_false, Bool.not_true, if_neg (by decide)] at hr
    cases linking with
    | true =>
      rw [if_pos rfl] at hr hup
      have hlink := h.link hmode hr hup
      simpa using hlink
    | false =>
      rw [if_neg (by decide)] at hr
      obtain ⟨s₁, hs₁, rfl⟩ := Option.map_eq_some_iff.mp hr
      exact h.unlink hmode hs₁

/-- The bypass is a control that the engine does not refuse. -/
theorem bypass_ret (params : AleParams) (ale : CpswAle) (val : Bool) :
    (cpswAleControlSet params ale 0 .bypass (if val then 1 else 0)).2 = 0 := by
  have hports := params.alePorts_pos
  have hin : ¬ ((0 : ℤ) < 0 ∨ (params.alePorts : ℤ) ≤ 0) := by omega
  have hfits : ¬ ((if val then 1 else 0 : U32) &&& ~~~BitField.bitMask 32 1 ≠ 0) := by
    cases val <;> decide
  generalize (if val then 1 else 0 : U32) = value at hfits
  unfold cpswAleControlSet cpswAleControlSetRegs
  simp only [aleControls, and_self, if_true]
  rw [if_neg hin, if_neg hfits]
  split <;> rfl

omit [DecidableEq β] in
theorem Inv.dlAleCtrlSet (h : Inv s) {id : CpswDlParam} {val : Bool} {r : State β × ℤ}
    (hr : cpswDlAleCtrlSet params s id val = some r) : Inv r.1 := by
  cases id with
  | switchMode =>
    cases hr
    exact h
  | aleBypass =>
    unfold cpswDlAleCtrlSet at hr
    dsimp only at hr
    rw [if_pos (bypass_ret params.ale s.sw.ale val)] at hr
    obtain ⟨s₁, hs₁, rfl⟩ := Option.map_eq_some_iff.mp hr
    have heq := update_spec hs₁
    dsimp only at heq ⊢
    rw [heq]
    refine ⟨fun _ => rfl, h.mode, fun hoff => ?_, h.upper⟩
    dsimp only at hoff ⊢
    rw [hoff]
    exact bypass_off params.ale s.sw.ale

omit [DecidableEq β] in
theorem Inv.switch (h : Inv s) {op : SwitchMode.Op} {sw : SwitchMode.State}
    (hst : SwitchMode.step params s.sw op = some sw) : Inv { s with sw := sw } := by
  obtain ⟨hmembers, hquiet, hmode⟩ := steady_step hst
  refine ⟨fun q => ?_, fun hne => ?_, fun hoff => ?_, fun q hmem => ?_⟩
  · dsimp only
    rw [hmembers]
    exact h.mark q
  · dsimp only at hne ⊢
    rw [hmembers] at hne
    exact hmode hne (h.mode hne)
  · dsimp only
    rw [Bool.eq_false_iff]
    intro hset
    have hbefore := hquiet hset
    rw [h.bypass hoff] at hbefore
    cases hbefore
  · dsimp only at hmem
    rw [hmembers] at hmem
    exact h.upper q hmem

theorem Inv.step (h : Inv s) {op : Op β} (hst : OffloadMark.step params s op = some s') :
    Inv s' := by
  cases op with
  | changeUpper p upperDev linking err =>
    unfold OffloadMark.step at hst
    dsimp only at hst
    by_cases hup : s.upper p = if linking then none else some upperDev
    · rw [if_pos hup] at hst
      obtain ⟨r, hr, rfl⟩ := Option.map_eq_some_iff.mp hst
      exact h.changeUpper hr hup
    · rw [if_neg hup] at hst
      cases hst
  | dlAleCtrlSet id val =>
    obtain ⟨r, hr, rfl⟩ := Option.map_eq_some_iff.mp hst
    exact h.dlAleCtrlSet hr
  | switch op =>
    obtain ⟨sw, hsw, rfl⟩ := Option.map_eq_some_iff.mp hst
    exact h.switch hsw

omit [DecidableEq β] in
theorem Initial.inv (h : Initial s) : Inv s := by
  refine ⟨fun p => ?_, fun hne => absurd h.brMembers hne, fun _ => h.bypass, fun p hmem => ?_⟩
  · rw [h.mark p, h.brMembers, h.aleBypass]
    rfl
  · rw [h.brMembers, isMember_zero] at hmem
    cases hmem

/-- What the mark on a frame promises the bridge. -/
structure Marked (params : CpswParams) (s : State β) : Prop where
  switchMode : s.sw.dualEmac = false
  noBypass : cpswAleControlGet params.ale s.sw.ale 0 .bypass = 0
  sameBridge : ∃ br, ∀ p, s.upper p = some br

omit [DecidableEq β] in
theorem Inv.marked (h : Inv s) (hmembers : s.sw.brMembers = bothPorts)
    (hoff : s.aleBypass = false) : Marked params s := by
  have hne : s.sw.brMembers ≠ 0 := by
    rw [hmembers]
    decide
  have hall : ∀ p, isMember s.sw.brMembers p = true := by
    rw [hmembers]
    decide
  obtain ⟨br, -, hdev⟩ := h.upper 0 (hall 0)
  refine ⟨h.mode hne, ?_, br, fun p => ?_⟩
  · have hin : ¬ ((0 : ℤ) < 0 ∨ (params.ale.alePorts : ℤ) ≤ 0) := by
      have hports := params.ale.alePorts_pos
      omega
    have hfield : BitField.get (s.sw.ale.regs aleControlReg) 4 1 = 0 := by
      apply BitVec.eq_of_getLsbD_eq
      intro i hi
      rw [BitField.getLsbD_get (by decide)]
      by_cases hzero : i = 0
      · rw [hzero, h.bypass hoff]
        rfl
      · simp [hzero]
    unfold cpswAleControlGet
    simp only [aleControls, and_self, if_true]
    rw [if_neg hin]
    exact congrArg (fun v : U32 => (v.toNat : ℤ)) hfield
  · obtain ⟨br', hup, hdev'⟩ := h.upper p (hall p)
    rw [hup, ← hdev', hdev]

/-- In every run the frames of a port carry the mark exactly while both ports are members and the
bypass was not asked for, and then the switch is in switch mode, does not bypass its lookup engine,
and has both ports in one bridge. -/
theorem marked_of_run (h : Initial s) {ops : List (Op β)}
    (hrun : Run (step params) anyStep s ops s') (p : Port) :
    (s'.offloadFwdMark p = true ↔ s'.sw.brMembers = bothPorts ∧ s'.aleBypass = false) ∧
      (s'.offloadFwdMark p = true → Marked params s') := by
  have hinv : Inv s' := hrun.invariant (fun _ _ _ hi _ hst => hi.step hst) h.inv
  have hiff : s'.offloadFwdMark p = true ↔ s'.sw.brMembers = bothPorts ∧ s'.aleBypass = false := by
    rw [hinv.mark p, Bool.and_eq_true, Bool.not_eq_true', beq_iff_eq, and_comm]
  refine ⟨hiff, fun hmark => ?_⟩
  obtain ⟨hmembers, hoff⟩ := hiff.mp hmark
  exact hinv.marked hmembers hoff

def bridgeless : State ℕ where
  sw := SwitchMode.boot
  hwBridgeDev := none
  aleBypass := false
  offloadFwdMark := fun _ => false
  upper := fun _ => none

theorem marked_after_links : ∃ s' : State ℕ, (s'.offloadFwdMark 1) = true ∧
    Marked SwitchMode.twoPorts s' := by
  have htest : (exec (step SwitchMode.twoPorts) anyStep bridgeless
      [.switch (.switchModeSet .switchMode true), .changeUpper 0 7 true 0,
        .changeUpper 1 7 true 0]).any (fun s => s.offloadFwdMark 1) = true := by
    decide +kernel
  obtain ⟨s', hrun, hmark⟩ := exists_run_of_any htest
  have hstart : Initial bridgeless := ⟨rfl, rfl, by decide, fun _ => rfl, fun _ => rfl⟩
  exact ⟨s', hmark, (marked_of_run hstart hrun 1).2 hmark⟩

end CpswDriver.OffloadMark
