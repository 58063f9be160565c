import CpswDriver.Ale.PortControl
import CpswDriver.Ale.System
import CpswDriver.Cpsw.Slaves

/-!
The policers for broadcast and multicast packets. A port has one limit of each
kind, a byte in its control register that counts thousands of packets a second.
The driver keeps the rate that was asked for, and programs it again when the
port comes up.
-/

namespace CpswDriver.Policer

open Ale Runs

/-- struct cpsw_ale_ratelimit -/
structure AleRatelimit where
  cookie : ℕ
  ratePacketPs : U64

inductive Kind
  | bc
  | mc
  deriving DecidableEq, Repr

/-- The limits that a port keeps: ale_bc_ratelimit and ale_mc_ratelimit. -/
abbrev CpswPriv := Kind → AleRatelimit

inductive DissectorKey
  | control
  | basic
  | ethAddrs
  | other (n : ℕ)
  deriving DecidableEq, Repr

structure FlowMatchEthAddrs where
  dst : MacAddr
  src : MacAddr

/-- What the driver reads of a flow rule. -/
structure FlowRule where
  usedKeys : List DissectorKey
  key : FlowMatchEthAddrs
  mask : FlowMatchEthAddrs

structure FlowClsOffload where
  cookie : ℕ
  rule : FlowRule

/-- cpsw_ale_rx_ratelimit_mc and cpsw_ale_rx_ratelimit_bc, which differ in the control. -/
def cpswAleRxRatelimit (control : AleControl) (params : AleParams) (ale : CpswAle) (port : ℕ)
    (ratelimitPps : U32) : CpswAle × ℤ :=
  let val := ratelimitPps / BitVec.ofNat 32 aleRateLimitMinPps
  if ratelimitPps ≠ 0 ∧ val = 0 then (ale, -einval)
  else ((cpswAleControlSet params ale port control val).1, 0)

def cpswAleRxRatelimitMc := cpswAleRxRatelimit .portMcastLimit
def cpswAleRxRatelimitBc := cpswAleRxRatelimit .portBcastLimit

def Kind.ratelimit : Kind → AleParams → CpswAle → ℕ → U32 → CpswAle × ℤ
  | .bc => cpswAleRxRatelimitBc
  | .mc => cpswAleRxRatelimitMc

def mcMac : MacAddr := fun i => if i = 0 then 0x01 else 0x00

def isZeroEtherAddr (addr : MacAddr) : Bool := decide (∀ i, addr i = 0)

/-- The checks on a rule: the kind of policer it is for, or the error. -/
def FlowRule.kind (rule : FlowRule) : Except String Kind :=
  if rule.usedKeys.any fun key => key ≠ .basic ∧ key ≠ .control ∧ key ≠ .ethAddrs then
    .error "Unsupported keys used"
  else if .ethAddrs ∉ rule.usedKeys then .error "Not matching on eth address"
  else if !isZeroEtherAddr rule.mask.src then .error "Matching on source MAC not supported"
  else if isBroadcastEtherAddr rule.key.dst ∧ isBroadcastEtherAddr rule.mask.dst then .ok .bc
  else if rule.key.dst = mcMac ∧ rule.mask.dst = mcMac then .ok .mc
  else .error "Not supported matching key"

/-- The outcome of an addition, with the text for the user. -/
structure Outcome where
  ale : CpswAle
  priv : CpswPriv
  ret : ℤ
  extack : Option String

/-- The rate is cut to an unsigned int on its way to the setter, and stored whole. -/
def cpswQosClsflowerAddPolicer (params : AleParams) (ale : CpswAle) (priv : CpswPriv) (portId : ℕ)
    (cls : FlowClsOffload) (ratePktPs : U64) : Outcome :=
  match cls.rule.kind with
  | .error text => ⟨ale, priv, -eopnotsupp, some text⟩
  | .ok kind =>
    let (ale, ret) := kind.ratelimit params ale portId (ratePktPs.setWidth 32)
    if ret ≠ 0 then ⟨ale, priv, ret, none⟩
    else ⟨ale, Function.update priv kind ⟨cls.cookie, ratePktPs⟩, 0, none⟩

/-- What cpsw_qos_delete_clsflower does for one kind. -/
def deleteKind (params : AleParams) (portId cookie : ℕ) (kind : Kind) (s : CpswAle × CpswPriv) :
    CpswAle × CpswPriv :=
  if cookie = (s.2 kind).cookie then
    ((kind.ratelimit params s.1 portId 0).1, Function.update s.2 kind ⟨0, 0⟩)
  else s

def cpswQosDeleteClsflower (params : AleParams) (ale : CpswAle) (priv : CpswPriv)
    (portId cookie : ℕ) : CpswAle × CpswPriv :=
  deleteKind params portId cookie .mc (deleteKind params portId cookie .bc (ale, priv))

/-- What cpsw_qos_clsflower_resume does for one kind. -/
def resumeKind (params : AleParams) (priv : CpswPriv) (portId : ℕ) (kind : Kind) (ale : CpswAle) :
    CpswAle :=
  if (priv kind).cookie ≠ 0 then
    (kind.ratelimit params ale portId ((priv kind).ratePacketPs.setWidth 32)).1
  else ale

def cpswQosClsflowerResume (params : AleParams) (ale : CpswAle) (priv : CpswPriv) (portId : ℕ) :
    CpswAle :=
  resumeKind params priv portId .mc (resumeKind params priv portId .bc ale)

/-- Both ports, with a book of the policers that were accepted and not deleted since. -/
structure State where
  ale : CpswAle
  priv : Port → CpswPriv
  installed : Port → Kind → Bool

inductive Op
  | add (p : Port) (cls : FlowClsOffload) (ratePktPs : U64)
  | delete (p : Port) (cookie : ℕ)
  /-- The port comes up, maybe after a reset of its control register. -/
  | resume (p : Port) (reset : Bool)

def resetPort (ale : CpswAle) (portId : ℕ) : CpswAle := ale.writel 0 (alePortctl + portId * 4)

def step (params : AleParams) (s : State) : Op → Option State
  | .add p cls ratePktPs =>
    let out := cpswQosClsflowerAddPolicer params s.ale (s.priv p) (emacPort p) cls ratePktPs
    some { ale := out.ale
           priv := Function.update s.priv p out.priv
           installed := match cls.rule.kind with
             | .ok kind =>
               if out.ret = 0 then
                 Function.update s.installed p (Function.update (s.installed p) kind true)
               else s.installed
             | .error _ => s.installed }
  | .delete p cookie =>
    let (ale, priv) := cpswQosDeleteClsflower params s.ale (s.priv p) (emacPort p) cookie
    some { ale := ale
           priv := Function.update s.priv p priv
           installed := Function.update s.installed p fun kind =>
             s.installed p kind && cookie ≠ (s.priv p kind).cookie }
  | .resume p reset =>
    let ale := if reset then resetPort s.ale (emacPort p) else s.ale
    some { s with ale := cpswQosClsflowerResume params ale (s.priv p) (emacPort p) }

variable {params : AleParams} {ale : CpswAle} {priv : CpswPriv} {s s' : State} {p : Port}
  {port : ℕ} {kind : Kind} {cls : FlowClsOffload} {ratePktPs : U64}

def Kind.control : Kind → AleControl
  | .bc => .portBcastLimit
  | .mc => .portMcastLimit

/-- The limit that the hardware applies on a port, in thousands of packets a second. -/
def limitField (ale : CpswAle) (p : Port) (kind : Kind) : U32 :=
  portField ale (emacPort p) kind.control

theorem ratelimit_eq (kind : Kind) (params : AleParams) (ale : CpswAle) (port : ℕ) (pps : U32) :
    kind.ratelimit params ale port pps = cpswAleRxRatelimit kind.control params ale port pps := by
  cases kind <;> rfl

theorem control_isPort (kind : Kind) : kind.control.isPort = true := by cases kind <;> rfl

theorem control_bits (kind : Kind) : kind.control.portBits.2 = 8 := by cases kind <;> rfl

theorem control_inj {kind kind' : Kind} (h : kind'.control = kind.control) : kind' = kind := by
  cases kind <;> cases kind' <;> first | rfl | cases h

/-- A rate that the setter takes and that fits the field. -/
def Fits (rate : ℕ) : Prop := rate = 0 ∨ 1000 ≤ rate ∧ rate < 256000

theorem ratelimit_sets (hport : port < params.alePorts) (kind : Kind) {pps : U32}
    (hfits : Fits pps.toNat) : (kind.ratelimit params ale port pps).2 = 0 ∧ ∀ q kind',
      portField (kind.ratelimit params ale port pps).1 q kind'.control =
        if q = port ∧ kind' = kind then pps / 1000 else portField ale q kind'.control := by
  have hdiv : (pps / 1000).toNat = pps.toNat / 1000 := BitVec.toNat_udiv
  have hval : (pps / 1000).toNat < 2 ^ kind.control.portBits.2 := by
    rw [control_bits, hdiv]
    rcases hfits with hzero | ⟨-, hlt⟩ <;> omega
  have htakes : ¬ (pps ≠ 0 ∧ pps / 1000 = 0) := by
    rintro ⟨hne, hzero⟩
    have hnat := congrArg BitVec.toNat hzero
    rw [hdiv] at hnat
    have hpos : pps.toNat ≠ 0 := fun hcon => hne (BitVec.eq_of_toNat_eq hcon)
    have hsmall : pps.toNat / 1000 = 0 := hnat
    rcases hfits with hz | ⟨hge, -⟩ <;> omega
  have hset : SetsPort params ale port kind.control (pps / 1000) _ :=
    controlSet_port (control_isPort kind) hport hval
  rw [ratelimit_eq]
  have heq : cpswAleRxRatelimit kind.control params ale port pps =
      ((cpswAleControlSet params ale port kind.control (pps / 1000)).1, 0) := if_neg htakes
  rw [heq]
  refine ⟨rfl, fun q kind' => ?_⟩
  dsimp only
  rw [hset.field q _ (control_isPort kind')]
  by_cases hkind : kind' = kind
  · rw [hkind]
    simp
  · rw [if_neg fun hcon => hkind (control_inj hcon.2), if_neg fun hcon => hkind hcon.2]

/-- A rate below a thousand, but not zero, is refused. -/
theorem ratelimit_refused {pps : U32} (hpos : 0 < pps.toNat) (hlt : pps.toNat < 1000) :
    kind.ratelimit params ale port pps = (ale, -einval) := by
  rw [ratelimit_eq]
  refine if_pos ⟨?_, ?_⟩
  · rintro rfl
    exact absurd hpos (by decide)
  · apply BitVec.eq_of_toNat_eq
    have hdiv : (pps / 1000).toNat = pps.toNat / 1000 := BitVec.toNat_udiv
    exact hdiv.trans (Nat.div_eq_of_lt hlt)

theorem portField_resetPort (ale : CpswAle) (port q : ℕ) (control : AleControl) :
    portField (resetPort ale port) q control = if q = port then 0 else portField ale q control := by
  unfold portField resetPort CpswAle.writel
  dsimp only
  by_cases hq : q = port
  · rw [hq, Function.update_self, if_pos rfl]
    simp [BitField.get]
  · rw [Function.update_of_ne (by omega), if_neg hq]

/-- What is installed is in force, and nothing else is. -/
structure InForce (s : State) : Prop where
  installed : ∀ p kind, s.installed p kind = true →
    (limitField s.ale p kind).toNat = (s.priv p kind).ratePacketPs.toNat / 1000 ∧
      ((s.priv p kind).ratePacketPs ≠ 0 → limitField s.ale p kind ≠ 0)
  absent : ∀ p kind, s.installed p kind = false → limitField s.ale p kind = 0

/-- An addition that fails changes neither what the port keeps nor a register. -/
def FailsClean (params : AleParams) (s : State) : Prop := ∀ p cls ratePktPs,
  (cpswQosClsflowerAddPolicer params s.ale (s.priv p) (emacPort p) cls ratePktPs).ret ≠ 0 →
    (cpswQosClsflowerAddPolicer params s.ale (s.priv p) (emacPort p) cls ratePktPs).ale = s.ale ∧
    (cpswQosClsflowerAddPolicer params s.ale (s.priv p) (emacPort p) cls ratePktPs).priv = s.priv p

/-- The field of a port says what the port keeps. -/
structure Kept (ale : CpswAle) (p : Port) (kind : Kind) (kept : AleRatelimit) (installed : Bool) :
    Prop where
  field : (limitField ale p kind).toNat = kept.ratePacketPs.toNat / 1000
  fits : Fits kept.ratePacketPs.toNat
  absent : installed = false → kept.ratePacketPs = 0

def Inv (s : State) : Prop := ∀ p kind, Kept s.ale p kind (s.priv p kind) (s.installed p kind)

theorem Inv.inForce (h : Inv s) : InForce s := by
  refine ⟨fun p kind _ => ⟨(h p kind).field, fun hne hzero => hne ?_⟩, fun p kind habsent => ?_⟩
  · have hfield := (h p kind).field
    rw [hzero] at hfield
    apply BitVec.eq_of_toNat_eq
    have hdiv : (s.priv p kind).ratePacketPs.toNat / 1000 = 0 := hfield.symm
    rcases (h p kind).fits with hz | ⟨hge, -⟩
    · exact hz
    · omega
  · apply BitVec.eq_of_toNat_eq
    rw [(h p kind).field, (h p kind).absent habsent]
    rfl

theorem ratelimit_fails (h : (kind.ratelimit params ale port pps).2 ≠ 0) :
    (kind.ratelimit params ale port pps).1 = ale := by
  rw [ratelimit_eq] at h ⊢
  unfold cpswAleRxRatelimit at h ⊢
  dsimp only at h ⊢
  split at h
  · rw [if_pos ‹_›]
  · exact absurd rfl h

theorem failsClean (params : AleParams) (s : State) : FailsClean params s := by
  intro p cls ratePktPs
  unfold cpswQosClsflowerAddPolicer
  cases cls.rule.kind with
  | error text => exact fun _ => ⟨rfl, rfl⟩
  | ok kind =>
    dsimp only
    intro hret
    split at hret
    · rename_i hfails
      rw [if_pos hfails]
      exact ⟨ratelimit_fails hfails, rfl⟩
    · exact absurd rfl hret

/-- The additions that the hardware can follow, up to 255999 packets a second, and
those that the setter refuses because of the low half of their rate. Cookie zero
means that there is no policer, so a policer with that cookie is not restored. -/
def Covered (s : State) : Op → Prop
  | .add _ cls ratePktPs => cls.rule.kind.isOk = true → ratePktPs.toNat < 256000 ∨
      0 < ratePktPs.toNat % 2 ^ 32 ∧ ratePktPs.toNat % 2 ^ 32 < 1000
  | .delete _ _ => True
  | .resume p reset => reset = true → ∀ kind, (s.priv p kind).cookie = 0 →
      (s.priv p kind).ratePacketPs = 0

/-- No policer is installed on either port. -/
structure Initial (s : State) : Prop where
  field : ∀ p kind, limitField s.ale p kind = 0
  priv : ∀ p kind, s.priv p kind = ⟨0, 0⟩
  installed : ∀ p kind, s.installed p kind = false

theorem Initial.inv (h : Initial s) : Inv s := by
  intro p kind
  have hrate : (s.priv p kind).ratePacketPs = 0 := by rw [h.priv p kind]
  refine ⟨?_, .inl (by rw [hrate]; rfl), fun _ => hrate⟩
  rw [h.field p kind, hrate]
  rfl

theorem emacPort_lt (hports : params.alePorts = cpswAlePortsNum) (p : Port) :
    emacPort p < params.alePorts := by
  rw [hports]
  unfold emacPort cpswAlePortsNum
  omega

theorem toNat_setWidth_rate (hfits : Fits ratePktPs.toNat) :
    (ratePktPs.setWidth 32).toNat = ratePktPs.toNat := by
  rw [BitVec.toNat_setWidth]
  apply Nat.mod_eq_of_lt
  rcases hfits with hzero | ⟨-, hlt⟩ <;> omega

theorem limitField_ratelimit (hports : params.alePorts = cpswAlePortsNum) (p : Port) (kind : Kind)
    (hfits : Fits ratePktPs.toNat) (q : Port) (kind' : Kind) :
    limitField (kind.ratelimit params ale (emacPort p) (ratePktPs.setWidth 32)).1 q kind' =
      if q = p ∧ kind' = kind then ratePktPs.setWidth 32 / 1000 else limitField ale q kind' := by
  have hwidth := toNat_setWidth_rate hfits
  rw [← hwidth] at hfits
  obtain ⟨-, hfield⟩ : (kind.ratelimit params ale (emacPort p) (ratePktPs.setWidth 32)).2 = 0 ∧ _ :=
    ratelimit_sets (emacPort_lt hports p) kind hfits
  unfold limitField
  rw [hfield]
  by_cases hq : q = p
  · rw [hq]
    simp
  · rw [if_neg fun hcon => hq (emacPort_inj hcon.1), if_neg fun hcon => hq hcon.1]

theorem toNat_rate_div (hfits : Fits ratePktPs.toNat) :
    (ratePktPs.setWidth 32 / 1000).toNat = ratePktPs.toNat / 1000 := by
  have hdiv : (ratePktPs.setWidth 32 / 1000).toNat = (ratePktPs.setWidth 32).toNat / 1000 :=
    BitVec.toNat_udiv
  rw [hdiv, toNat_setWidth_rate hfits]

variable {kept : AleRatelimit} {installed : Bool}

theorem Kept.set (hports : params.alePorts = cpswAlePortsNum) (hfits : Fits ratePktPs.toNat)
    (cookie : ℕ) (habsent : installed = false → ratePktPs = 0) :
    Kept (kind.ratelimit params ale (emacPort p) (ratePktPs.setWidth 32)).1 p kind
      ⟨cookie, ratePktPs⟩ installed := by
  refine ⟨?_, hfits, habsent⟩
  rw [limitField_ratelimit hports p kind hfits, if_pos ⟨rfl, rfl⟩]
  exact toNat_rate_div hfits

theorem Kept.of_field {ale' : CpswAle} (h : Kept ale p kind kept installed)
    (hfield : limitField ale' p kind = limitField ale p kind) :
    Kept ale' p kind kept installed :=
  ⟨by rw [hfield, h.field], h.fits, h.absent⟩

theorem Kept.frame (hports : params.alePorts = cpswAlePortsNum) {q : Port} {kind' : Kind}
    (h : Kept ale q kind' kept installed) (hfits : Fits ratePktPs.toNat)
    (hother : ¬ (q = p ∧ kind' = kind)) :
    Kept (kind.ratelimit params ale (emacPort p) (ratePktPs.setWidth 32)).1 q kind' kept
      installed := by
  apply h.of_field
  rw [limitField_ratelimit hports p kind hfits, if_neg hother]

/-- An addition under a rate that the hardware can follow, or that is refused. -/
theorem addPolicer_cases (hports : params.alePorts = cpswAlePortsNum)
    (hkind : cls.rule.kind = .ok kind) (hcovered : Covered s (.add p cls ratePktPs)) :
    cpswQosClsflowerAddPolicer params ale priv (emacPort p) cls ratePktPs =
      ⟨ale, priv, -einval, none⟩ ∨
    Fits ratePktPs.toNat ∧ cpswQosClsflowerAddPolicer params ale priv (emacPort p) cls ratePktPs =
      ⟨(kind.ratelimit params ale (emacPort p) (ratePktPs.setWidth 32)).1,
        Function.update priv kind ⟨cls.cookie, ratePktPs⟩, 0, none⟩ := by
  dsimp only [Covered] at hcovered
  rw [hkind] at hcovered
  unfold cpswQosClsflowerAddPolicer
  rw [hkind]
  dsimp only
  by_cases hrefused : 0 < (ratePktPs.setWidth 32).toNat ∧ (ratePktPs.setWidth 32).toNat < 1000
  · rw [ratelimit_refused hrefused.1 hrefused.2]
    exact .inl rfl
  have hfits : Fits ratePktPs.toNat := by
    rw [BitVec.toNat_setWidth] at hrefused
    rcases hcovered rfl with hlt | hlow
    · rw [Nat.mod_eq_of_lt (by omega)] at hrefused
      unfold Fits
      omega
    · exact absurd hlow hrefused
  have hret : (kind.ratelimit params ale (emacPort p) (ratePktPs.setWidth 32)).2 = 0 := by
    refine (ratelimit_sets (emacPort_lt hports p) kind ?_).1
    rwa [toNat_setWidth_rate hfits]
  exact .inr ⟨hfits, if_neg (not_not.mpr hret)⟩

theorem Inv.add (h : Inv s) (hports : params.alePorts = cpswAlePortsNum)
    (hcovered : Covered s (.add p cls ratePktPs))
    (hst : Policer.step params s (.add p cls ratePktPs) = some s') : Inv s' := by
  dsimp only [Policer.step] at hst
  cases hkind : cls.rule.kind with
  | error text =>
    have hout : cpswQosClsflowerAddPolicer params s.ale (s.priv p) (emacPort p) cls ratePktPs =
        ⟨s.ale, s.priv p, -eopnotsupp, some text⟩ := by
      unfold cpswQosClsflowerAddPolicer
      rw [hkind]
    rw [hout, hkind, Function.update_eq_self] at hst
    obtain rfl := Option.some.inj hst
    exact h
  | ok kind =>
    rcases addPolicer_cases hports hkind hcovered with hout | ⟨hfits, hout⟩
    · rw [hout, hkind, Function.update_eq_self] at hst
      obtain rfl := Option.some.inj hst
      exact h
    rw [hout, hkind] at hst
    obtain rfl := Option.some.inj hst
    intro q kind'
    dsimp only
    rw [if_pos rfl]
    by_cases hq : q = p
    · subst hq
      rw [Function.update_self, Function.update_self]
      by_cases hk : kind' = kind
      · subst hk
        rw [Function.update_self, Function.update_self]
        exact Kept.set hports hfits cls.cookie (fun hcon => by cases hcon)
      · rw [Function.update_of_ne hk, Function.update_of_ne hk]
        exact (h q kind').frame hports hfits fun hcon => hk hcon.2
    · rw [Function.update_of_ne hq, Function.update_of_ne hq]
      exact (h q kind').frame hports hfits fun hcon => hq hcon.1

theorem deleteKind_spec (hports : params.alePorts = cpswAlePortsNum) (p : Port) (cookie : ℕ)
    (kind : Kind) (ale : CpswAle) (priv : CpswPriv) :
    (∀ q kind' kept installed, ¬ (q = p ∧ kind' = kind) → Kept ale q kind' kept installed →
      Kept (deleteKind params (emacPort p) cookie kind (ale, priv)).1 q kind' kept installed) ∧
    (∀ installed, Kept ale p kind (priv kind) installed →
      Kept (deleteKind params (emacPort p) cookie kind (ale, priv)).1 p kind
        ((deleteKind params (emacPort p) cookie kind (ale, priv)).2 kind)
        (installed && cookie ≠ (priv kind).cookie)) ∧
    ∀ kind', kind' ≠ kind →
      (deleteKind params (emacPort p) cookie kind (ale, priv)).2 kind' = priv kind' := by
  have hzero : Fits (0 : U64).toNat := .inl rfl
  unfold deleteKind
  dsimp only
  by_cases hcookie : cookie = (priv kind).cookie
  · rw [if_pos hcookie]
    dsimp only
    refine ⟨fun q kind' kept installed hother hkept => hkept.frame hports hzero hother,
      fun installed _ => ?_, fun kind' hk => Function.update_of_ne hk _ _⟩
    rw [Function.update_self]
    exact Kept.set hports hzero 0 fun _ => rfl
  · rw [if_neg hcookie]
    refine ⟨fun _ _ _ _ _ hkept => hkept, fun installed hkept => ?_, fun _ _ => rfl⟩
    simpa [hcookie] using hkept

theorem Inv.delete (h : Inv s) (hports : params.alePorts = cpswAlePortsNum) {cookie : ℕ}
    (hst : Policer.step params s (.delete p cookie) = some s') : Inv s' := by
  dsimp only [Policer.step, cpswQosDeleteClsflower] at hst
  obtain ⟨hframe, hself, hpriv⟩ := deleteKind_spec hports p cookie .bc s.ale (s.priv p)
  generalize deleteKind params (emacPort p) cookie .bc (s.ale, s.priv p) = r
    at hst hframe hself hpriv
  obtain ⟨hframe', hself', hpriv'⟩ := deleteKind_spec hports p cookie .mc r.1 r.2
  rw [Prod.mk.eta] at hframe' hself' hpriv'
  generalize deleteKind params (emacPort p) cookie .mc r = r' at hst hframe' hself' hpriv'
  obtain rfl := Option.some.inj hst
  intro q kind
  dsimp only
  by_cases hq : q = p
  · subst hq
    rw [Function.update_self, Function.update_self]
    cases kind with
    | bc =>
      rw [hpriv' .bc (by decide)]
      exact hframe' _ _ _ _ (by simp) (hself _ (h q .bc))
    | mc =>
      have hkept := hframe q .mc _ _ (by simp) (h q .mc)
      rw [← hpriv .mc (by decide)] at hkept ⊢
      exact hself' _ hkept
  · rw [Function.update_of_ne hq, Function.update_of_ne hq]
    exact hframe' _ _ _ _ (fun hcon => hq hcon.1)
      (hframe _ _ _ _ (fun hcon => hq hcon.1) (h q kind))

/-- A resume of one kind, for which the field may have been lost unless the cookie is zero. -/
theorem resumeKind_spec (hports : params.alePorts = cpswAlePortsNum) (p : Port) (kind : Kind)
    (ale : CpswAle) {priv : CpswPriv} (hfits : Fits (priv kind).ratePacketPs.toNat) :
    (∀ q kind' kept installed, ¬ (q = p ∧ kind' = kind) → Kept ale q kind' kept installed →
      Kept (resumeKind params priv (emacPort p) kind ale) q kind' kept installed) ∧
    ∀ installed, (installed = false → (priv kind).ratePacketPs = 0) →
      ((priv kind).cookie = 0 → Kept ale p kind (priv kind) installed) →
      Kept (resumeKind params priv (emacPort p) kind ale) p kind (priv kind) installed := by
  unfold resumeKind
  by_cases hcookie : (priv kind).cookie = 0
  · rw [if_neg (not_not.mpr hcookie)]
    exact ⟨fun _ _ _ _ _ hkept => hkept, fun _ _ hkept => hkept hcookie⟩
  · rw [if_pos hcookie]
    refine ⟨fun q kind' kept installed hother hkept => hkept.frame hports hfits hother,
      fun installed habsent _ => ?_⟩
    exact Kept.set hports hfits (priv kind).cookie habsent

theorem Inv.resume (h : Inv s) (hports : params.alePorts = cpswAlePortsNum) {reset : Bool}
    (hcovered : Covered s (.resume p reset))
    (hst : Policer.step params s (.resume p reset) = some s') : Inv s' := by
  dsimp only [Covered] at hcovered
  dsimp only [Policer.step, cpswQosClsflowerResume] at hst
  have hleft : ∀ q kind, (q = p → (s.priv p kind).cookie = 0) →
      Kept (if reset then resetPort s.ale (emacPort p) else s.ale) q kind (s.priv q kind)
        (s.installed q kind) := by
    intro q kind hcookie
    cases reset with
    | false => exact h q kind
    | true =>
      rw [if_pos rfl]
      by_cases hq : q = p
      · subst hq
        have hrate := hcovered rfl kind (hcookie rfl)
        refine ⟨?_, (h q kind).fits, (h q kind).absent⟩
        unfold limitField
        rw [portField_resetPort, if_pos rfl, hrate]
        rfl
      · apply (h q kind).of_field
        unfold limitField
        rw [portField_resetPort, if_neg fun hcon => hq (emacPort_inj hcon)]
  generalize (if reset then resetPort s.ale (emacPort p) else s.ale) = ale at hst hleft
  obtain ⟨hframe, hself⟩ := resumeKind_spec hports p .bc ale (h p .bc).fits
  generalize resumeKind params (s.priv p) (emacPort p) .bc ale = ale' at hst hframe hself
  obtain ⟨hframe', hself'⟩ := resumeKind_spec hports p .mc ale' (h p .mc).fits
  obtain rfl := Option.some.inj hst
  intro q kind
  dsimp only
  by_cases hq : q = p
  · subst hq
    cases kind with
    | bc =>
      exact hframe' _ _ _ _ (by simp) (hself _ (h q .bc).absent fun hc => hleft q .bc fun _ => hc)
    | mc =>
      exact hself' _ (h q .mc).absent fun hc =>
        hframe _ _ _ _ (by simp) (hleft q .mc fun _ => hc)
  · exact hframe' _ _ _ _ (fun hcon => hq hcon.1)
      (hframe _ _ _ _ (fun hcon => hq hcon.1) (hleft q kind fun heq => absurd heq hq))

theorem Inv.step {op : Op} (h : Inv s) (hports : params.alePorts = cpswAlePortsNum)
    (hcovered : Covered s op) (hst : Policer.step params s op = some s') : Inv s' := by
  cases op with
  | add p cls ratePktPs => exact h.add hports hcovered hst
  | delete p cookie => exact h.delete hports hst
  | resume p reset => exact h.resume hports hcovered hst

/-- The accepted policers are those in force, and a failing addition changes
nothing, in the runs whose accepted rates the hardware can follow. -/
theorem inForce_of_run (hports : params.alePorts = cpswAlePortsNum) (hinit : Initial s)
    {ops : List Op} (hrun : Run (step params) Covered s ops s') :
    InForce s' ∧ FailsClean params s' :=
  ⟨(hrun.invariant (fun _ _ _ h hok hst => h.step hports hok hst) hinit.inv).inForce,
    failsClean params s'⟩

def bcRule : FlowRule := ⟨[.basic, .ethAddrs], ⟨broadcast, 0⟩, ⟨broadcast, 0⟩⟩

def boot : State := ⟨emptyAle 4, fun _ _ => ⟨0, 0⟩, fun _ _ => false⟩

theorem initial_boot : Initial boot := by
  refine ⟨fun p kind => ?_, fun _ _ => rfl, fun _ _ => rfl⟩
  unfold limitField portField boot emptyAle
  simp [BitField.get]

/-- A policer of 5500 packets a second, over a reset of its port. -/
theorem inForce_after_reset : ∃ s', Run (step threePorts) Covered boot
    [.add 0 ⟨7, bcRule⟩ 5500, .resume 0 true] s' ∧
    limitField s'.ale 0 .bc = 5 ∧ InForce s' ∧ FailsClean threePorts s' := by
  have hrun : ∃ s', Run (step threePorts) Covered boot
      [.add 0 ⟨7, bcRule⟩ 5500, .resume 0 true] s' ∧ limitField s'.ale 0 .bc = 5 := by
    refine ⟨_, .cons (fun _ => .inl (by decide)) rfl (.cons (fun _ kind => ?_) rfl (.nil _)), ?_⟩
    · cases kind <;> decide
    · decide
  obtain ⟨s', hrun, hfield⟩ := hrun
  exact ⟨s', hrun, hfield, inForce_of_run rfl initial_boot hrun⟩

/-- A policer of 256000 packets a second is accepted, and nothing limits the port. -/
theorem inForce_fails_at_256000 : Initial boot ∧ ∃ s', Run (step threePorts) anyStep boot
    [.add 0 ⟨7, bcRule⟩ 256000] s' ∧ s'.installed 0 .bc = true ∧ ¬ InForce s' := by
  have hrun : ∃ s', Run (step threePorts) anyStep boot [.add 0 ⟨7, bcRule⟩ 256000] s' ∧
      s'.installed 0 .bc = true ∧ limitField s'.ale 0 .bc = 0 ∧
      (s'.priv 0 .bc).ratePacketPs ≠ 0 := by
    refine ⟨_, .cons trivial rfl (.nil _), ?_⟩
    decide
  obtain ⟨s', hrun, hinstalled, hfield, hrate⟩ := hrun
  exact ⟨initial_boot, s', hrun, hinstalled, fun hsafe =>
    (hsafe.installed 0 .bc hinstalled).2 hrate hfield⟩

end CpswDriver.Policer
