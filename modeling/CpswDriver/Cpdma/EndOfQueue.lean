import CpswDriver.Cpdma.Engine
import CpswDriver.Lib.Ownership

/-!
The invariant of the end-of-queue protocol, kept access by access. The queue is
a completed part followed by a part that the engine still owns; the
end-of-queue bit can only stand on the last completed descriptor, and it stands
there whenever the engine has stopped short of a descriptor on an active
channel.
-/

namespace CpswDriver.Cpdma.Engine

open LinkedList Ownership

variable {τ : Type*} {params : CpdmaParams} {ch : ChanId} {s t : State τ} {c r : List ℕ}

/-- Where a descriptor can be, seen from one channel. -/
inductive Owner
  | free
  | held
  | others
  | sect
  | queued

/-- The descriptor a section has in hand, outside the queue. -/
def Section.desc : Section → Option ℕ
  | .link desc => some desc
  | .requeue desc _ _ => some desc
  | _ => Option.none

/-- A linked descriptor is counted at the end of its section. -/
def Section.uncounted : Section → ℕ
  | .readMode _ _ => 1
  | .clearEoq _ _ _ => 1
  | .misqueue _ => 1
  | _ => 0

def Section.starts : Section → Bool
  | .misqueue _ => true
  | .requeue _ _ _ => true
  | _ => false

def place (s : State τ) (q : List ℕ) : Owner → ℕ → Prop
  | .free, d => d ∈ s.avail
  | .held, d => d ∈ s.held
  | .others, d => d ∈ s.others
  | .sect, d => s.sect.desc = some d
  | .queued, d => d ∈ q

/-- `c` is completed, the engine owns `r`, and only the last completed
descriptor can carry the end-of-queue bit. -/
structure Marks (mem : ℕ → CpdmaDesc τ) (c r : List ℕ) : Prop where
  done : ∀ d ∈ c, isOwner mem d = false
  todo : ∀ d ∈ r, isOwner mem d = true ∧ hasEoq mem d = false
  eoq : ∀ d ∈ c, hasEoq mem d = true → c.getLast? = some d

def SectOk (s : State τ) (c r : List ℕ) : Section → Prop
  | .none => True
  | .link d => isOwner s.mem d = true ∧ hasEoq s.mem d = false ∧ (s.mem d).hwNext = 0 ∧
      s.chan.state ≠ .teardown
  | .readMode prev d => (∃ l, c ++ r = l ++ [prev, d]) ∧ s.chan.state ≠ .teardown
  | .clearEoq prev d mode => c.getLast? = some prev ∧ hasEoq s.mem prev = true ∧
      mode = (s.mem prev).hwMode ∧ r = [d] ∧ s.chan.state = .active
  | .misqueue d => r = [d] ∧ s.chan.hdp = 0 ∧ s.chan.state = .active ∧
      ∀ e ∈ c, hasEoq s.mem e = false
  | .tdWait => s.chan.state = .teardown
  | .readNext d mode drain => c.head? = some d ∧ mode = (s.mem d).hwMode ∧
      (drain = true → s.stop = some .drain)
  | .requeue _ _ drain => c = [] ∧ r ≠ [] ∧ s.chan.hdp = 0 ∧ s.chan.state = .active ∧ drain = false

structure Inv (params : CpdmaParams) (s : State τ) (c r : List ℕ) (own : ℕ → Owner) : Prop where
  queue : Queue params.pool s.mem { s.chan with count := s.chan.count + s.sect.uncounted } (c ++ r)
  owned : Owned params.pool.descs (place s (c ++ r)) own
  marks : Marks s.mem c r
  /-- a running engine is at the first descriptor it owns -/
  running : s.chan.hdp ≠ 0 → ∃ d, r.head? = some d ∧ s.chan.hdp = hwPtr params.pool d ∧
    ∀ e ∈ c, hasEoq s.mem e = false
  /-- the link it has read is that descriptor's, or was 0 before one was linked -/
  working : ∀ e nx, s.eng = some (e, nx) → s.chan.hdp ≠ 0 ∧ r.head? = some e ∧
    (nx = (s.mem e).hwNext ∨ nx = 0)
  /-- an engine that stopped short left the end-of-queue bit, or is about to be started -/
  restart : s.chan.hdp = 0 → s.chan.state = .active → c ++ r = [] ∨
    (∃ e, c.getLast? = some e ∧ hasEoq s.mem e = true) ∨ s.sect.starts = true
  idle : s.chan.state = .idle → c = [] ∧ s.chan.hdp = 0
  teardown : s.chan.state = .teardown → s.sect = .tdWait ∨ s.chan.hdp = 0
  stop : s.stop ≠ none → s.chan.state = .teardown
  sect : SectOk s c r s.sect

section Marks

variable {mem mem' : ℕ → CpdmaDesc τ} {d : ℕ}

theorem isOwner_congr (h : (mem' d).hwMode = (mem d).hwMode) : isOwner mem' d = isOwner mem d := by
  rw [isOwner, isOwner, h]

theorem hasEoq_congr (h : (mem' d).hwMode = (mem d).hwMode) : hasEoq mem' d = hasEoq mem d := by
  rw [hasEoq, hasEoq, h]

theorem Marks.congr (h : Marks mem c r) (hmode : ∀ d ∈ c ++ r, (mem' d).hwMode = (mem d).hwMode) :
    Marks mem' c r where
  done d hd := by
    rw [isOwner_congr (hmode d (List.mem_append_left r hd))]
    exact h.done d hd
  todo d hd := by
    have hm := hmode d (List.mem_append_right c hd)
    rw [isOwner_congr hm, hasEoq_congr hm]
    exact h.todo d hd
  eoq d hd he := h.eoq d hd (by rwa [← hasEoq_congr (hmode d (List.mem_append_left r hd))])

/-- The first descriptor of a queue whose head is completed is in the completed part. -/
theorem Marks.completed_of_head (h : Marks mem c r) (hhead : (c ++ r).head? = some d)
    (hd : isOwner mem d = false) : c.head? = some d := by
  cases c with
  | nil =>
    have hmem : d ∈ r := List.mem_of_head? hhead
    rw [(h.todo d hmem).1] at hd
    cases hd
  | cons e c => exact hhead

/-- Behind the last completed descriptor, when it is last but one, only the last is left. -/
theorem rest_of_last_but_one {l : List ℕ} {prev : ℕ} (hnd : (c ++ r).Nodup)
    (hl : c ++ r = l ++ [prev, d]) (hlast : c.getLast? = some prev) : r = [d] := by
  obtain ⟨c', rfl⟩ := List.getLast?_eq_some_iff.mp hlast
  have hsplit : c' ++ prev :: r = l ++ prev :: [d] := by simpa using hl
  have hnot : prev ∉ c' ++ r := by
    rw [List.append_assoc, List.singleton_append, List.nodup_middle] at hnd
    exact (List.nodup_cons.mp hnd).1
  have hc' : prev ∉ c' := fun h => hnot (List.mem_append_left r h)
  have hr : prev ∉ r := fun h => hnot (List.mem_append_right c' h)
  exact ((List.append_cons_inj_of_notMem hc' hr).mp hsplit).2.2

end Marks

section Steps

variable {own : ℕ → Owner} {d : ℕ}

theorem Inv.nodup (h : Inv params s c r own) : (c ++ r).Nodup := h.queue.nodup

theorem Inv.eng_none (h : Inv params s c r own) (hhdp : s.chan.hdp = 0) : s.eng = none := by
  cases he : s.eng with
  | none => rfl
  | some p => exact absurd hhdp (h.working p.1 p.2 he).1

theorem Inv.hdp_zero_of_eoq (h : Inv params s c r own) {e : ℕ} (he : e ∈ c)
    (heoq : hasEoq s.mem e = true) : s.chan.hdp = 0 := by
  by_contra hhdp
  obtain ⟨d, -, -, hno⟩ := h.running hhdp
  rw [hno e he] at heoq
  cases heoq

theorem Inv.hdp_zero_of_rest (h : Inv params s c [] own) : s.chan.hdp = 0 := by
  by_contra hhdp
  obtain ⟨d, hd, -⟩ := h.running hhdp
  cases hd

theorem Inv.head (h : Inv params s c r own) (hhead : s.chan.head ≠ 0) :
    (c ++ r).head? = some s.chan.head := by
  obtain ⟨l, hl, -⟩ := h.queue.chain.head_ne_null hhead
  rw [hl]
  rfl

theorem Inv.head_null (h : Inv params s c r own) (hhead : s.chan.head = 0) : c = [] ∧ r = [] :=
  List.append_eq_nil_iff.mp (h.queue.head_null_iff.mp hhead)

theorem Inv.mem_descs (h : Inv params s c r own) (hd : d ∈ c ++ r) : d ∈ params.pool.descs :=
  h.owned.mem (show place s (c ++ r) .queued d from hd)

/-- Counters and registers other than HDP do not matter. -/
theorem Inv.chan_congr (h : Inv params s c r own) {chan : CpdmaChan} (hs : SameQueue s.chan chan)
    (hhdp : chan.hdp = s.chan.hdp) (hstate : chan.state = s.chan.state) :
    Inv params { s with chan := chan } c r own where
  queue := h.queue.congr ⟨hs.head, hs.tail, by simp [hs.count]⟩ fun _ _ => rfl
  owned := h.owned
  marks := h.marks
  running := by simpa only [hhdp] using h.running
  working := by simpa only [hhdp] using h.working
  restart := by simpa only [hhdp, hstate] using h.restart
  idle := by simpa only [hhdp, hstate] using h.idle
  teardown := by simpa only [hhdp, hstate] using h.teardown
  stop := by simpa only [hstate] using h.stop
  sect := by
    have hsect := h.sect
    cases hpc : s.sect <;> simp only [hpc, SectOk, hhdp, hstate] at hsect ⊢ <;> exact hsect

theorem Inv.allocate (h : Inv params s c r own) {fresh : CpdmaDesc τ} (hd : d ∈ s.avail)
    (hsect : s.sect = .none) (hstate : s.chan.state ≠ .teardown) (hnext : fresh.hwNext = 0)
    (howner : testBits fresh.hwMode cpdmaDescOwner = true)
    (heoq : testBits fresh.hwMode cpdmaDescEoq = false) :
    Inv params { s with
      avail := s.avail.erase d, mem := Function.update s.mem d fresh, sect := .link d } c r
      (Function.update own d .sect) := by
  have hfree : place s (c ++ r) .free d := hd
  have hne : ∀ e ∈ c ++ r, e ≠ d := by
    rintro e he rfl
    cases h.owned.unique hfree (show place s (c ++ r) .queued e from he)
  have hmem : ∀ e ∈ c ++ r, Function.update s.mem d fresh e = s.mem e :=
    fun e he => Function.update_of_ne (hne e he) _ _
  have hmode : ∀ e ∈ c ++ r, (Function.update s.mem d fresh e).hwMode = (s.mem e).hwMode :=
    fun e he => by rw [hmem e he]
  have hc : ∀ e ∈ c, hasEoq (Function.update s.mem d fresh) e = hasEoq s.mem e :=
    fun e he => hasEoq_congr (hmode e (List.mem_append_left r he))
  refine ⟨?_, ?_, h.marks.congr hmode, ?_, ?_, ?_, h.idle, ?_, h.stop, ?_⟩
  · refine h.queue.congr ⟨rfl, rfl, by simp [hsect, Section.uncounted]⟩ fun e he => ?_
    exact congrArg CpdmaDesc.hwNext (hmem e he)
  · refine h.owned.transfer hfree (by simp [place]) rfl ?_ ?_
    · rintro (_ | _ | _ | _ | _) h₁ h₂ hp <;> first | exact hp | simp at h₁ h₂
    · rintro (_ | _ | _ | _ | _) e he <;> simp [place, he, hsect, Section.desc, Ne.symm he]
  · intro hhdp
    obtain ⟨e, he, hdp, hno⟩ := h.running hhdp
    exact ⟨e, he, hdp, fun e he => (hc e he).trans (hno e he)⟩
  · intro e nx heng
    obtain ⟨hhdp, he, hnx⟩ := h.working e nx heng
    refine ⟨hhdp, he, ?_⟩
    change nx = (Function.update s.mem d fresh e).hwNext ∨ nx = 0
    rwa [hmem e (List.mem_append_right c (List.mem_of_head? he))]
  · intro hhdp hactive
    rcases h.restart hhdp hactive with hnil | ⟨e, he, heoq⟩ | hstarts
    · exact Or.inl hnil
    · exact Or.inr (Or.inl ⟨e, he, (hc e (List.mem_of_getLast? he)).trans heoq⟩)
    · simp [hsect, Section.starts] at hstarts
  · intro hdown
    exact absurd hdown hstate
  · refine ⟨?_, ?_, ?_, hstate⟩
    · simpa [isOwner] using howner
    · simpa [hasEoq] using heoq
    · simpa using hnext

/-- The step that links into an empty queue also starts the engine. -/
theorem Inv.link_empty (h : Inv params s c r own) (hsect : s.sect = .link d)
    (hhead : s.chan.head = 0) :
    Inv params (linkStep params ch s d) [] [d] (Function.update own d .queued) := by
  obtain ⟨rfl, rfl⟩ := h.head_null hhead
  have hhand : place s ([] ++ []) .sect d := by simp [place, hsect, Section.desc]
  have hdesc : d ∈ params.pool.descs := h.owned.mem hhand
  obtain ⟨howner, heoq, hnext, hstate⟩ : SectOk s [] [] (.link d) := hsect ▸ h.sect
  have hhdp : s.chan.hdp = 0 := h.hdp_zero_of_rest
  have hnonzero : hwPtr params.pool d ≠ 0 := hwPtr_ne_zero hdesc
  have heng := h.eng_none hhdp
  simp only [linkStep, hhead, if_true]
  refine ⟨?_, ?_, ⟨by simp, ?_, by simp⟩, ?_, ?_, ?_, ?_, ?_, ?_, trivial⟩
  · refine ⟨⟨by simp, params.pool.ne_zero_of_mem hdesc, nextDesc_of_hwNext_zero hnext⟩,
      List.nodup_singleton d, ?_, ?_, ?_⟩
    · have hcount : s.chan.count = 0 := by simpa [hsect, Section.uncounted] using h.queue.count.symm
      simp [hcount, Section.uncounted]
    · intro e he
      simpa using he
    · intro e he
      obtain rfl : d = e := by simpa using he
      exact hnext
  · refine h.owned.transfer hhand (by simp [place, Section.desc]) (by simp [place]) ?_ ?_
    · rintro (_ | _ | _ | _ | _) h₁ h₂ hp <;> first | exact hp | simp at h₁ h₂
    · rintro (_ | _ | _ | _ | _) e he <;>
        simp [place, he, hsect, Section.desc, Ne.symm he]
  · intro e he
    obtain rfl := List.mem_singleton.mp he
    exact ⟨howner, heoq⟩
  · intro hdp
    refine ⟨d, rfl, ?_, by simp⟩
    by_cases hactive : s.chan.state = .active
    · simp [startIfActive_hdp, hactive]
    · simp [startIfActive_hdp, hactive, hhdp] at hdp
  · intro e nx he
    simp [heng] at he
  · intro hdp hactive
    have hactive : s.chan.state = .active := by simpa using hactive
    exact absurd (by simpa [startIfActive_hdp, hactive] using hdp) hnonzero
  · intro hidle
    have hidle : s.chan.state = .idle := by simpa using hidle
    simp [startIfActive_hdp, hidle, hhdp]
  · intro hdown
    exact absurd (by simpa using hdown) hstate
  · intro hstop
    exact absurd (h.stop hstop) hstate

theorem Inv.link_tail (h : Inv params s c r own) (hsect : s.sect = .link d)
    (hhead : s.chan.head ≠ 0) :
    Inv params (linkStep params ch s d) c (r ++ [d]) (Function.update own d .queued) := by
  have hhand : place s (c ++ r) .sect d := by simp [place, hsect, Section.desc]
  have hdesc : d ∈ params.pool.descs := h.owned.mem hhand
  obtain ⟨howner, heoq, hnext, hstate⟩ : SectOk s c r (.link d) := hsect ▸ h.sect
  have hnotin : d ∉ c ++ r := fun hd => by
    cases h.owned.unique hhand (show place s (c ++ r) .queued d from hd)
  have hlast := h.queue.getLast_tail hhead
  have hassoc : c ++ (r ++ [d]) = c ++ r ++ [d] := (List.append_assoc c r [d]).symm
  have hmode : ∀ e, (Function.update s.mem s.chan.tail
      { s.mem s.chan.tail with hwNext := hwPtr params.pool d } e).hwMode = (s.mem e).hwMode := by
    intro e
    by_cases he : e = s.chan.tail <;> simp [he]
  have hlinked : Linked params.pool s.mem { s.chan with count := s.chan.count + s.sect.uncounted } d
      (Function.update s.mem s.chan.tail
        { s.mem s.chan.tail with hwNext := hwPtr params.pool d })
      { s.chan with
        tail := d, count := s.chan.count + s.sect.uncounted
        stats := { s.chan.stats with tailEnqueue := s.chan.stats.tailEnqueue + 1 } } := by
    refine ⟨by simp [hhead], rfl, fun e => ?_, itemAt_update_hw _ _ _ rfl rfl rfl,
      rfl, rfl, rfl, rfl⟩
    rw [hwNext_update]
    by_cases he : e = s.chan.tail <;> simp [he, hhead]
  simp only [linkStep, hhead, if_false]
  refine ⟨?_, ?_, ⟨?_, ?_, ?_⟩, ?_, ?_, ?_, h.idle, ?_, h.stop, ?_⟩
  · rw [hassoc]
    have hq := h.queue.enqueue hlinked hdesc hnotin hnext s.chan.rxfree
    simpa [hsect, Section.uncounted] using hq
  · rw [hassoc]
    refine h.owned.transfer hhand (by simp [place, Section.desc]) (by simp [place]) ?_ ?_
    · rintro (_ | _ | _ | _ | _) h₁ h₂ hp <;> first | exact hp | simp at h₁ h₂
    · rintro (_ | _ | _ | _ | _) e he <;>
        simp [place, he, hsect, Section.desc, Ne.symm he]
  · intro e he
    exact (isOwner_congr (hmode e)).trans (h.marks.done e he)
  · intro e he
    rw [isOwner_congr (hmode e), hasEoq_congr (hmode e)]
    rcases List.mem_append.mp he with he | he
    · exact h.marks.todo e he
    · obtain rfl := List.mem_singleton.mp he
      exact ⟨howner, heoq⟩
  · intro e he hq
    exact h.marks.eoq e he ((hasEoq_congr (hmode e)).symm.trans hq)
  · intro hdp
    obtain ⟨e, he, hptr, hno⟩ := h.running hdp
    refine ⟨e, ?_, hptr, fun f hf => (hasEoq_congr (hmode f)).trans (hno f hf)⟩
    rw [List.head?_append, he]
    rfl
  · intro e nx heng
    obtain ⟨hdp, he, hnx⟩ := h.working e nx heng
    refine ⟨hdp, by rw [List.head?_append, he]; rfl, ?_⟩
    rw [hwNext_update]
    split
    · rename_i htail
      have hzero := h.queue.last e (by rw [htail]; exact hlast)
      right
      rcases hnx with hnx | hnx
      · exact hnx.trans hzero
      · exact hnx
    · exact hnx
  · intro hdp hactive
    rcases h.restart hdp hactive with hnil | ⟨e, he, hq⟩ | hstarts
    · rw [hnil] at hlast
      cases hlast
    · exact Or.inr (Or.inl ⟨e, he, (hasEoq_congr (hmode e)).trans hq⟩)
    · simp [hsect, Section.starts] at hstarts
  · intro hdown
    exact absurd hdown hstate
  · refine ⟨?_, hstate⟩
    obtain ⟨l, hl⟩ := List.getLast?_eq_some_iff.mp hlast
    exact ⟨l, by rw [hassoc, hl]; simp⟩

/-- Seen without the end-of-queue bit, or on an inactive channel, the submit is over. -/
theorem Inv.finish (h : Inv params s c r own) {prev : ℕ} (hsect : s.sect = .readMode prev d) :
    Inv params { s with chan := finishSubmit ch s.chan, sect := .none } c r own := by
  obtain ⟨-, hstate⟩ : SectOk s c r (.readMode prev d) := hsect ▸ h.sect
  refine ⟨?_, ?_, h.marks, ?_, ?_, ?_, ?_, ?_, ?_, trivial⟩
  · exact h.queue.congr ⟨by simp, by simp, by simp [hsect, Section.uncounted]⟩ fun _ _ => rfl
  · refine h.owned.congr fun p e => ?_
    cases p <;> simp [place, hsect, Section.desc]
  · simpa using h.running
  · simpa using h.working
  · simpa [hsect, Section.starts] using h.restart
  · simpa using h.idle
  · intro hdown
    exact absurd (by simpa using hdown) hstate
  · simpa using h.stop

theorem eoq_of_mode {mode : U32}
    (h : mode &&& (cpdmaDescEoq ||| cpdmaDescOwner) = cpdmaDescEoq) :
    testBits mode cpdmaDescEoq = true ∧ testBits mode cpdmaDescOwner = false := by
  have hq : testBits (mode &&& (cpdmaDescEoq ||| cpdmaDescOwner)) cpdmaDescEoq =
      testBits mode cpdmaDescEoq := testBits_and (by decide)
  have ho : testBits (mode &&& (cpdmaDescEoq ||| cpdmaDescOwner)) cpdmaDescOwner =
      testBits mode cpdmaDescOwner := testBits_and (by decide)
  rw [← hq, ← ho, h]
  decide

/-- Finding the end-of-queue bit on the previous descriptor, the submit takes
on the duty to start the engine at its own. -/
theorem Inv.eoq_found (h : Inv params s c r own) {prev : ℕ} (hsect : s.sect = .readMode prev d)
    (hmode : (s.mem prev).hwMode &&& (cpdmaDescEoq ||| cpdmaDescOwner) = cpdmaDescEoq)
    (hactive : s.chan.state = .active) :
    Inv params { s with sect := .clearEoq prev d (s.mem prev).hwMode } c r own := by
  obtain ⟨⟨l, hl⟩, hstate⟩ : SectOk s c r (.readMode prev d) := hsect ▸ h.sect
  obtain ⟨heoq, howner⟩ := eoq_of_mode hmode
  have hprev : prev ∈ c := by
    have hmem : prev ∈ c ++ r := by simp [hl]
    rcases List.mem_append.mp hmem with hc | hr
    · exact hc
    · have := (h.marks.todo prev hr).1
      rw [isOwner, howner] at this
      cases this
  have hlast := h.marks.eoq prev hprev heoq
  refine ⟨?_, ?_, h.marks, h.running, h.working, ?_, h.idle, ?_, h.stop, ?_⟩
  · exact h.queue.congr ⟨rfl, rfl, by simp [hsect, Section.uncounted]⟩ fun _ _ => rfl
  · refine h.owned.congr fun p e => ?_
    cases p <;> simp [place, hsect, Section.desc]
  · intro hdp _
    exact Or.inr (Or.inl ⟨prev, hlast, heoq⟩)
  · intro hdown
    exact absurd hdown hstate
  · exact ⟨hlast, heoq, rfl, rest_of_last_but_one h.nodup hl hlast, hactive⟩

theorem Inv.clearEoq (h : Inv params s c r own) {prev : ℕ} {mode : U32}
    (hsect : s.sect = .clearEoq prev d mode) :
    Inv params (clearEoqStep s prev d mode) c r own := by
  obtain ⟨hlast, heoq, rfl, rfl, hactive⟩ : SectOk s c r (.clearEoq prev d mode) := hsect ▸ h.sect
  have hprev : prev ∈ c := List.mem_of_getLast? hlast
  have hhdp := h.hdp_zero_of_eoq hprev heoq
  have heng := h.eng_none hhdp
  have hcleared : ∀ m : U32, testBits (m &&& ~~~cpdmaDescEoq) cpdmaDescEoq = false := by
    intro m
    have hmask : (~~~cpdmaDescEoq).getLsbD 28 = false := by decide
    rw [testBits_eoq, BitVec.getLsbD_and, hmask, Bool.and_false]
  have hkept : ∀ m : U32, testBits (m &&& ~~~cpdmaDescEoq) cpdmaDescOwner =
      testBits m cpdmaDescOwner := fun m => testBits_and (by decide)
  have hnone : ∀ e ∈ c, hasEoq (clearEoqStep s prev d (s.mem prev).hwMode).mem e = false := by
    intro e he
    by_cases hep : e = prev
    · subst hep
      simp [clearEoqStep, hasEoq, hcleared]
    · by_contra hq
      have hq : hasEoq s.mem e = true := by simpa [clearEoqStep, hasEoq, hep] using hq
      have hboth := (h.marks.eoq e he hq).symm.trans hlast
      exact hep (Option.some.inj hboth)
  refine ⟨?_, ?_, ⟨?_, ?_, ?_⟩, ?_, ?_, ?_, h.idle, ?_, h.stop, ?_⟩
  · refine h.queue.congr ⟨rfl, rfl, by simp [clearEoqStep, hsect, Section.uncounted]⟩ fun e _ => ?_
    by_cases he : e = prev <;> simp [clearEoqStep, he]
  · refine h.owned.congr fun p e => ?_
    cases p <;> simp [place, clearEoqStep, hsect, Section.desc]
  · intro e he
    by_cases hep : e = prev
    · subst hep
      simpa [clearEoqStep, isOwner, hkept] using h.marks.done e he
    · simpa [clearEoqStep, isOwner, hep] using h.marks.done e he
  · intro e he
    have hep : e ≠ prev := by
      rintro rfl
      exact (List.nodup_append.mp h.nodup).2.2 e hprev e he rfl
    simpa [clearEoqStep, isOwner, hasEoq, hep] using h.marks.todo e he
  · intro e he hq
    rw [hnone e he] at hq
    cases hq
  · intro hdp
    exact absurd hhdp hdp
  · intro e nx he
    simp [clearEoqStep, heng] at he
  · exact fun _ _ => Or.inr (Or.inr rfl)
  · intro hdown
    exact absurd (hactive.symm.trans hdown) (by decide)
  · exact ⟨rfl, hhdp, hactive, hnone⟩

theorem Inv.misqueue (h : Inv params s c r own) (hsect : s.sect = .misqueue d) :
    Inv params (misqueueStep params ch s d) c r own := by
  obtain ⟨rfl, hhdp, hactive, hno⟩ : SectOk s c r (.misqueue d) := hsect ▸ h.sect
  have hdesc : d ∈ params.pool.descs := h.mem_descs (by simp)
  have heng := h.eng_none hhdp
  refine ⟨?_, ?_, h.marks, ?_, ?_, ?_, ?_, ?_, ?_, trivial⟩
  · exact h.queue.congr ⟨by simp [misqueueStep], by simp [misqueueStep],
      by simp [misqueueStep, hsect, Section.uncounted]⟩ fun _ _ => rfl
  · refine h.owned.congr fun p e => ?_
    cases p <;> simp [place, misqueueStep, hsect, Section.desc]
  · exact fun _ => ⟨d, rfl, by simp [misqueueStep], hno⟩
  · intro e nx he
    simp [misqueueStep, heng] at he
  · intro hdp _
    exact absurd (by simpa [misqueueStep] using hdp) (hwPtr_ne_zero hdesc)
  · intro hidle
    simp [misqueueStep, hactive] at hidle
  · intro hdown
    simp [misqueueStep, hactive] at hdown
  · simpa [misqueueStep] using h.stop

theorem Inv.processFail (h : Inv params s c r own) {drain : Bool} (stats : CpdmaChanStats)
    (hsect : s.sect = .none) (hdrain : drain = true → s.stop = some .drain) :
    Inv params (processFail s drain stats) c r own := by
  have hchan : Inv params { s with chan := { s.chan with stats := stats } } c r own :=
    h.chan_congr ⟨rfl, rfl, rfl⟩ rfl rfl
  refine ⟨hchan.queue, hchan.owned, hchan.marks, hchan.running, hchan.working, hchan.restart,
    hchan.idle, hchan.teardown, ?_, ?_⟩
  swap
  · exact (show SectOk (Engine.processFail s drain stats) c r s.sect from hsect ▸ trivial)
  intro hstop
  refine h.stop ?_
  cases drain with
  | true => simp [hdrain rfl]
  | false => exact hstop

theorem Inv.processBegin (h : Inv params s c r own) {drain : Bool} (hsect : s.sect = .none)
    (hdrain : drain = true → s.stop = some .drain) :
    Inv params (processBegin s drain) c r own := by
  unfold Engine.processBegin
  dsimp only
  split
  · exact h.processFail _ hsect hdrain
  rename_i hhead
  split
  · exact h.processFail _ hsect hdrain
  · rename_i howner
    have hfirst := h.marks.completed_of_head (h.head hhead) (by simpa [isOwner] using howner)
    refine ⟨?_, ?_, h.marks, h.running, h.working, ?_, h.idle, ?_, h.stop, hfirst, rfl, hdrain⟩
    · exact h.queue.congr ⟨rfl, rfl, by simp [hsect, Section.uncounted]⟩ fun _ _ => rfl
    · refine h.owned.congr fun p e => ?_
      cases p <;> simp [place, hsect, Section.desc]
    · simpa [hsect, Section.starts] using h.restart
    · simpa [hsect] using h.teardown

theorem Inv.pop (h : Inv params s c r own) (hcounted : s.sect.uncounted = 0)
    (hhead : s.chan.head ≠ 0) {chan : CpdmaChan}
    (hnext : chan.head = nextDesc params.pool s.mem s.chan.head) (htail : chan.tail = s.chan.tail)
    (hcount : chan.count = s.chan.count - 1) :
    ∃ q, c ++ r = s.chan.head :: q ∧ Queue params.pool s.mem chan q := by
  have hne : ({ s.chan with count := s.chan.count + s.sect.uncounted } : CpdmaChan).head ≠ 0 :=
    hhead
  obtain ⟨q, hq, hrest⟩ := h.queue.dequeue (unlinked_teardownDequeue hne)
  refine ⟨q, hq, hrest.congr ⟨hnext, htail, ?_⟩ fun _ _ => rfl⟩
  simp [teardownDequeue, hcounted, hcount]

/-- The descriptor whose link is being read is the head. -/
theorem Inv.popRead (h : Inv params s c r own) {mode : U32} {drain : Bool} {chan : CpdmaChan}
    (hsect : s.sect = .readNext d mode drain)
    (hnext : chan.head = nextDesc params.pool s.mem d) (htail : chan.tail = s.chan.tail)
    (hcount : chan.count = s.chan.count - 1) :
    ∃ c', c = d :: c' ∧ mode = (s.mem d).hwMode ∧ (drain = true → s.stop = some .drain) ∧
      Queue params.pool s.mem chan (c' ++ r) := by
  obtain ⟨hfirst, hmode, hdrain⟩ : SectOk s c r (.readNext d mode drain) := hsect ▸ h.sect
  obtain ⟨c', rfl⟩ := List.head?_eq_some_iff.mp hfirst
  have hd : s.chan.head = d := h.queue.chain.1
  have hne : s.chan.head ≠ 0 := hd ▸ h.queue.chain.2.1
  obtain ⟨q, hq, hrest⟩ := h.pop (by simp [hsect, Section.uncounted]) hne (hd ▸ hnext) htail hcount
  obtain rfl : c' ++ r = q := (List.cons.inj hq).2
  exact ⟨c', rfl, hmode, hdrain, hrest⟩

/-- A completed descriptor is off the queue, and nothing has to be started. -/
theorem Inv.taken (h : Inv params s c r own) {mode : U32} {drain : Bool} {chan : CpdmaChan}
    {stop : Option StopPhase} (hsect : s.sect = .readNext d mode drain)
    (hnext : chan.head = nextDesc params.pool s.mem d) (htail : chan.tail = s.chan.tail)
    (hcount : chan.count = s.chan.count - 1) (hhdp : chan.hdp = s.chan.hdp)
    (hstate : chan.state = s.chan.state) (hstop : stop ≠ none → s.stop ≠ none)
    (hquiet : ¬ (testBits mode cpdmaDescEoq = true ∧ chan.head ≠ 0)) :
    Inv params { s with
      chan := chan, held := insert d s.held, sect := .none, stop := stop } c.tail r
      (Function.update own d .held) := by
  obtain ⟨c, rfl, rfl, -, hrest⟩ := h.popRead hsect hnext htail hcount
  have hqueued : place s (d :: c ++ r) .queued d := by simp [place]
  have hnotin : d ∉ c ++ r := (List.nodup_cons.mp h.nodup).1
  refine ⟨?_, ?_, ⟨?_, h.marks.todo, ?_⟩, ?_, ?_, ?_, ?_, ?_, ?_, trivial⟩
  · exact hrest.congr ⟨rfl, rfl, rfl⟩ fun _ _ => rfl
  · refine h.owned.transfer hqueued (show d ∉ c ++ r from hnotin) (by simp [place]) ?_ ?_
    · rintro (_ | _ | _ | _ | _) h₁ h₂ hp <;>
        first
        | exact hp
        | simp at h₁ h₂; done
        | simp [place, Section.desc] at hp
    · rintro (_ | _ | _ | _ | _) e he <;> simp [place, he, hsect, Section.desc]
  · exact fun e he => h.marks.done e (List.mem_cons_of_mem d he)
  · intro e he hq
    have hlast := h.marks.eoq e (List.mem_cons_of_mem d he) hq
    cases c with
    | nil => cases he
    | cons f c => rwa [List.getLast?_cons_cons] at hlast
  · intro hdp
    obtain ⟨e, he, hptr, hno⟩ := h.running (by rwa [← hhdp])
    exact ⟨e, he, hhdp.trans hptr, fun f hf => hno f (List.mem_cons_of_mem d hf)⟩
  · intro e nx he
    obtain ⟨hdp, hr, hnx⟩ := h.working e nx he
    exact ⟨by rwa [hhdp], hr, hnx⟩
  · intro hdp hactive
    rcases h.restart (hhdp ▸ hdp) (hstate ▸ hactive) with hnil | ⟨e, he, heoq⟩ | hstarts
    · simp at hnil
    · cases c with
      | nil =>
        obtain rfl : d = e := by simpa using he
        left
        have hzero : chan.head = 0 := by
          by_contra hchan
          exact hquiet ⟨heoq, hchan⟩
        exact hrest.head_null_iff.mp hzero
      | cons f c =>
        rw [List.getLast?_cons_cons] at he
        exact Or.inr (Or.inl ⟨e, he, heoq⟩)
    · simp [hsect, Section.starts] at hstarts
  · intro hidle
    have := (h.idle (hstate ▸ hidle)).1
    simp at this
  · intro hdown
    rcases h.teardown (hstate ▸ hdown) with hwait | hdp
    · simp [hsect] at hwait
    · exact Or.inr (hhdp.trans hdp)
  · intro hne
    exact hstate.trans (h.stop (hstop hne))

/-- A completed descriptor with the end-of-queue bit is off the queue of an
active channel, and the engine is about to be started at the next. -/
theorem Inv.requeues (h : Inv params s c r own) {mode : U32} {drain : Bool} {chan : CpdmaChan}
    (hsect : s.sect = .readNext d mode drain)
    (hnext : chan.head = nextDesc params.pool s.mem d) (htail : chan.tail = s.chan.tail)
    (hcount : chan.count = s.chan.count - 1) (hhdp : chan.hdp = s.chan.hdp)
    (hstate : chan.state = s.chan.state) (heoq : testBits mode cpdmaDescEoq = true)
    (hhead : chan.head ≠ 0) (hup : s.chan.state ≠ .teardown) :
    Inv params { s with chan := chan, sect := .requeue d mode drain } [] r
      (Function.update own d .sect) := by
  obtain ⟨c, rfl, rfl, hdrain, hrest⟩ := h.popRead hsect hnext htail hcount
  have hqueued : place s (d :: c ++ r) .queued d := by simp [place]
  have hnotin : d ∉ c ++ r := (List.nodup_cons.mp h.nodup).1
  obtain rfl : c = [] := by
    have hlast := h.marks.eoq d (List.mem_cons_self ..) heoq
    cases c with
    | nil => rfl
    | cons f c =>
      rw [List.getLast?_cons_cons] at hlast
      exact absurd (List.mem_append_left r (List.mem_of_getLast? hlast)) hnotin
  have hzero := h.hdp_zero_of_eoq (List.mem_cons_self ..) heoq
  have heng := h.eng_none hzero
  have hactive : s.chan.state = .active := by
    cases hst : s.chan.state with
    | idle =>
      have := (h.idle hst).1
      simp at this
    | active => rfl
    | teardown => exact absurd hst hup
  refine ⟨?_, ?_, ⟨by simp, h.marks.todo, by simp⟩, ?_, ?_, ?_, ?_, ?_, ?_, ?_⟩
  · exact hrest.congr ⟨rfl, rfl, rfl⟩ fun _ _ => rfl
  · refine h.owned.transfer hqueued hnotin (by simp [place, Section.desc]) ?_ ?_
    · rintro (_ | _ | _ | _ | _) h₁ h₂ hp <;> first | exact hp | simp at h₁ h₂
    · rintro (_ | _ | _ | _ | _) e he <;> simp [place, he, hsect, Section.desc, Ne.symm he]
  · intro hdp
    exact absurd (hhdp.trans hzero) hdp
  · intro e nx he
    simp [heng] at he
  · exact fun _ _ => Or.inr (Or.inr rfl)
  · exact fun _ => ⟨rfl, hhdp.trans hzero⟩
  · exact fun _ => Or.inr (hhdp.trans hzero)
  · intro hstop
    exact absurd (h.stop hstop) hup
  · refine ⟨rfl, mt hrest.head_null_iff.mpr hhead, hhdp.trans hzero, hstate.trans hactive, ?_⟩
    by_contra hne
    have hstop := h.stop (by rw [hdrain (by simpa using hne)]; simp)
    exact absurd hstop hup

theorem Inv.requeue (h : Inv params s c r own) {mode : U32} {drain : Bool}
    (hsect : s.sect = .requeue d mode drain) :
    Inv params (requeueStep params.pool s d mode drain) c r (Function.update own d .held) := by
  obtain ⟨rfl, hr, hhdp, hactive, rfl⟩ : SectOk s c r (.requeue d mode drain) := hsect ▸ h.sect
  have heng := h.eng_none hhdp
  have hhand : place s ([] ++ r) .sect d := by simp [place, hsect, Section.desc]
  have hhead : s.chan.head ≠ 0 := mt h.queue.head_null_iff.mp hr
  have hfirst : r.head? = some s.chan.head := by simpa using h.head hhead
  have hdesc : s.chan.head ∈ params.pool.descs :=
    h.mem_descs (by simpa using List.mem_of_head? hfirst)
  refine ⟨?_, ?_, h.marks, ?_, ?_, ?_, ?_, ?_, ?_, trivial⟩
  · exact h.queue.congr ⟨rfl, rfl, by simp [requeueStep, processEnd, hsect, Section.uncounted]⟩
      fun _ _ => rfl
  · refine h.owned.transfer hhand (by simp [place, requeueStep, processEnd, Section.desc])
      (by simp [place, requeueStep, processEnd]) ?_ ?_
    · rintro (_ | _ | _ | _ | _) h₁ h₂ hp <;> first | exact hp | simp at h₁ h₂
    · rintro (_ | _ | _ | _ | _) e he <;>
        simp [place, requeueStep, processEnd, he, hsect, Section.desc, Ne.symm he]
  · exact fun _ => ⟨s.chan.head, hfirst, rfl, by simp⟩
  · intro e nx he
    simp [requeueStep, processEnd, heng] at he
  · intro hdp _
    exact absurd hdp (hwPtr_ne_zero hdesc)
  · intro hidle
    exact absurd (hactive.symm.trans hidle) (by decide)
  · intro hdown
    exact absurd (hactive.symm.trans hdown) (by decide)
  · intro hstop
    exact h.stop (by simpa [requeueStep, processEnd] using hstop)

theorem Inv.readNext (h : Inv params s c r own) {mode : U32} {drain : Bool}
    (hsect : s.sect = .readNext d mode drain)
    (hup : s.chan.state = .teardown → hasEoq s.mem d = true → (s.mem d).hwNext = 0) :
    ∃ c' own', Inv params (readNextStep params.pool s d mode drain) c' r own' := by
  obtain ⟨-, rfl, hdrain⟩ : SectOk s c r (.readNext d mode drain) := hsect ▸ h.sect
  unfold readNextStep
  dsimp only
  split
  · rename_i hrestart
    refine ⟨_, _, h.requeues hsect rfl rfl rfl rfl rfl hrestart.1 hrestart.2 ?_⟩
    intro hdown
    exact hrestart.2 (nextDesc_of_hwNext_zero (hup hdown hrestart.1))
  · rename_i hquiet
    refine ⟨_, _, h.taken hsect rfl rfl rfl rfl rfl ?_ hquiet⟩
    intro hstop
    by_cases hd : drain = true
    · simp [hdrain hd]
    · simpa [hd] using hstop

theorem Inv.chanOn (h : Inv params s c r own) (hsect : s.sect = .none) :
    Inv params (chanOnStep params ch s) c r own := by
  unfold chanOnStep
  split
  · exact h
  rename_i hidle
  have hidle : s.chan.state = .idle := by simpa using hidle
  obtain ⟨rfl, hhdp⟩ := h.idle hidle
  have heng := h.eng_none hhdp
  have hsame := sameShape_turnOn params.pool ch s.chan
  refine ⟨?_, h.owned, h.marks, ?_, ?_, ?_, ?_, ?_, ?_, ?_⟩
  · exact h.queue.congr ⟨hsame.head, hsame.tail, by simp [hsame.count]⟩ fun _ _ => rfl
  · intro hdp
    have hhead : s.chan.head ≠ 0 := by
      intro hhead
      simp [turnOn_hdp, hhead, hhdp] at hdp
    exact ⟨s.chan.head, by simpa using h.head hhead, by simp [turnOn_hdp, hhead], by simp⟩
  · intro e nx he
    simp [heng] at he
  · intro hdp _
    left
    by_contra hne
    have hhead : s.chan.head ≠ 0 := mt h.queue.head_null_iff.mp hne
    have hdesc := h.mem_descs (List.mem_of_head? (h.head hhead))
    exact absurd (by simpa [turnOn_hdp, hhead] using hdp) (hwPtr_ne_zero hdesc)
  · intro hne
    simp [turnOn_state] at hne
  · intro hne
    simp [turnOn_state] at hne
  · intro hstop
    exact absurd (hidle.symm.trans (h.stop hstop)) (by decide)
  · exact (show SectOk _ [] r s.sect from hsect ▸ trivial)

theorem Inv.stopBegin (h : Inv params s c r own) (hsect : s.sect = .none) :
    Inv params (stopBeginStep s) c r own := by
  unfold stopBeginStep
  split
  · exact h
  · refine ⟨?_, ?_, h.marks, h.running, h.working, ?_, ?_, ?_, ?_, rfl⟩
    · exact h.queue.congr ⟨rfl, rfl, by simp [hsect, Section.uncounted]⟩ fun _ _ => rfl
    · refine h.owned.congr fun p e => ?_
      cases p <;> simp [place, hsect, Section.desc]
    · intro _ hactive
      cases hactive
    · intro hidle
      cases hidle
    · exact fun _ => Or.inl rfl
    · exact fun _ => rfl

theorem Inv.teardownDone (h : Inv params s c r own) (hsect : s.sect = .tdWait) :
    Inv params { s with
      chan := { s.chan with hdp := 0, cp := cpdmaTeardownValue }
      eng := none, sect := .none, stop := some .drain } c r own := by
  have hdown : SectOk s c r .tdWait := hsect ▸ h.sect
  have hdown : s.chan.state = .teardown := hdown
  refine ⟨?_, ?_, h.marks, ?_, ?_, ?_, ?_, ?_, ?_, trivial⟩
  · exact h.queue.congr ⟨rfl, rfl, by simp [hsect, Section.uncounted]⟩ fun _ _ => rfl
  · refine h.owned.congr fun p e => ?_
    cases p <;> simp [place, hsect, Section.desc]
  · intro hdp
    exact absurd rfl hdp
  · intro e nx he
    cases he
  · intro _ hactive
    exact absurd (hdown.symm.trans hactive) (by decide)
  · intro hidle
    exact absurd (hdown.symm.trans hidle) (by decide)
  · exact fun _ => Or.inr rfl
  · exact fun _ => hdown

theorem Inv.zeroHdp (h : Inv params s c r own) (hstate : s.chan.state ≠ .active) :
    Inv params { s with chan := { s.chan with hdp := 0, cp := 0 }, eng := none } c r own := by
  refine ⟨?_, h.owned, h.marks, ?_, ?_, ?_, ?_, ?_, h.stop, ?_⟩
  · exact h.queue.congr ⟨rfl, rfl, rfl⟩ fun _ _ => rfl
  · intro hdp
    exact absurd rfl hdp
  · intro e nx he
    cases he
  · intro _ hactive
    exact absurd hactive hstate
  · exact fun hidle => ⟨(h.idle hidle).1, rfl⟩
  · exact fun _ => Or.inr rfl
  · have hsect := h.sect
    cases hpc : s.sect <;> simp only [hpc, SectOk] at hsect ⊢
    all_goals try exact hsect
    · exact ⟨hsect.1, trivial, hsect.2.2⟩
    · exact ⟨hsect.1, hsect.2.1, trivial, hsect.2.2.2⟩

/-- The second loop of cpdma_chan_stop takes what is left, completed or not. -/
theorem Inv.stopClean (h : Inv params s c r own) (hsect : s.sect = .none)
    (hstop : s.stop = some .clean) :
    ∃ c' r' own', Inv params (stopCleanStep params.pool s) c' r' own' := by
  have hdown : s.chan.state = .teardown := h.stop (by simp [hstop])
  have hhdp : s.chan.hdp = 0 := by
    rcases h.teardown hdown with hwait | hhdp
    · simp [hsect] at hwait
    · exact hhdp
  have heng := h.eng_none hhdp
  have hok : ∀ (t : State τ) c r, SectOk t c r s.sect := fun t c r => by
    rw [hsect]
    trivial
  unfold stopCleanStep
  split
  · rename_i hhead
    obtain ⟨rfl, rfl⟩ := h.head_null hhead
    refine ⟨[], [], own, ?_, h.owned, h.marks, h.running, h.working, ?_, ?_, ?_, ?_, hok _ _ _⟩
    · exact h.queue.congr ⟨rfl, rfl, rfl⟩ fun _ _ => rfl
    · exact fun _ _ => Or.inl rfl
    · exact fun _ => ⟨rfl, hhdp⟩
    · intro hne
      cases hne
    · intro hne
      exact absurd rfl hne
  · rename_i hhead
    obtain ⟨q, hq, hrest⟩ : ∃ q, c ++ r = s.chan.head :: q ∧
        Queue params.pool s.mem (teardownDequeue params.pool s.mem s.chan) q :=
      h.pop (by simp [hsect, Section.uncounted]) hhead rfl rfl rfl
    have hqueued : place s (c ++ r) .queued s.chan.head := by simp [place, hq]
    have hnotin : s.chan.head ∉ q := (List.nodup_cons.mp (hq ▸ h.nodup)).1
    obtain ⟨c', r', rfl, hmarks⟩ : ∃ c' r', q = c' ++ r' ∧ Marks s.mem c' r' := by
      cases c with
      | nil =>
        refine ⟨[], q, rfl, by simp, fun e he => h.marks.todo e ?_, by simp⟩
        rw [List.nil_append] at hq
        rw [hq]
        exact List.mem_cons_of_mem _ he
      | cons f c =>
        refine ⟨c, r, (List.cons.inj hq).2.symm, fun e he => h.marks.done e
          (List.mem_cons_of_mem f he), h.marks.todo, fun e he heoq => ?_⟩
        have hlast := h.marks.eoq e (List.mem_cons_of_mem f he) heoq
        cases c with
        | nil => cases he
        | cons g c => rwa [List.getLast?_cons_cons] at hlast
    refine ⟨c', r', Function.update own s.chan.head .held, ?_, ?_, hmarks, ?_, ?_, ?_, ?_, ?_, ?_,
      hok _ _ _⟩
    · exact hrest.congr ⟨rfl, rfl, by simp [hsect, Section.uncounted, teardownDequeue]⟩
        fun _ _ => rfl
    · refine h.owned.transfer hqueued hnotin (by simp [place]) ?_ ?_
      · rintro (_ | _ | _ | _ | _) h₁ h₂ hp <;> first | exact hp | simp at h₁ h₂
      · rintro (_ | _ | _ | _ | _) e he <;> simp [place, he, hq]
    · intro hdp
      exact absurd hhdp hdp
    · intro e nx he
      simp [heng] at he
    · intro _ hactive
      exact absurd (hdown.symm.trans hactive) (by decide)
    · intro hidle
      exact absurd (hdown.symm.trans hidle) (by decide)
    · exact fun _ => Or.inr hhdp
    · exact fun _ => hdown

/-- Descriptors that move between the pool and other hands leave the queue alone. -/
theorem Inv.shift (h : Inv params s c r own) {avail held others : Finset ℕ} {own' : ℕ → Owner}
    (howned : Owned params.pool.descs
      (place { s with avail := avail, held := held, others := others } (c ++ r)) own') :
    Inv params { s with avail := avail, held := held, others := others } c r own' where
  queue := h.queue
  owned := howned
  marks := h.marks
  running := h.running
  working := h.working
  restart := h.restart
  idle := h.idle
  teardown := h.teardown
  stop := h.stop
  sect := by
    have hsect := h.sect
    cases hpc : s.sect <;> simp only [hpc, SectOk] at hsect ⊢ <;> exact hsect

theorem Inv.free (h : Inv params s c r own) (hd : d ∈ s.held) :
    Inv params { s with held := s.held.erase d, avail := insert d s.avail } c r
      (Function.update own d .free) := by
  refine h.shift (h.owned.transfer (show place s (c ++ r) .held d from hd) (by simp [place])
    (by simp [place]) ?_ ?_)
  · rintro (_ | _ | _ | _ | _) h₁ h₂ hp <;> first | exact hp | simp at h₁ h₂
  · rintro (_ | _ | _ | _ | _) e he <;> simp [place, he]

theorem Inv.otherTake (h : Inv params s c r own) (hd : d ∈ s.avail) :
    Inv params { s with avail := s.avail.erase d, others := insert d s.others } c r
      (Function.update own d .others) := by
  refine h.shift (h.owned.transfer (show place s (c ++ r) .free d from hd) (by simp [place])
    (by simp [place]) ?_ ?_)
  · rintro (_ | _ | _ | _ | _) h₁ h₂ hp <;> first | exact hp | simp at h₁ h₂
  · rintro (_ | _ | _ | _ | _) e he <;> simp [place, he]

theorem Inv.otherGive (h : Inv params s c r own) (hd : d ∈ s.others) :
    Inv params { s with others := s.others.erase d, avail := insert d s.avail } c r
      (Function.update own d .free) := by
  refine h.shift (h.owned.transfer (show place s (c ++ r) .others d from hd) (by simp [place])
    (by simp [place]) ?_ ?_)
  · rintro (_ | _ | _ | _ | _) h₁ h₂ hp <;> first | exact hp | simp at h₁ h₂
  · rintro (_ | _ | _ | _ | _) e he <;> simp [place, he]

/-- The engine finds the first descriptor it owns at HDP. -/
theorem Inv.engineRead (h : Inv params s c r own) (hhdp : s.chan.hdp ≠ 0) :
    Inv params (engineReadStep params.pool s) c r own := by
  obtain ⟨d, hd, hptr, hno⟩ := h.running hhdp
  have hdesc : d ∈ params.pool.descs := h.mem_descs (List.mem_append_right c (List.mem_of_head? hd))
  have hback : descFromPhys params.pool s.chan.hdp.toNat = d := by
    rw [hptr]
    exact descFromPhys_descPhys params.pool hdesc
  refine ⟨h.queue, h.owned, h.marks, h.running, ?_, h.restart, h.idle, h.teardown, h.stop, ?_⟩
  · intro e nx he
    simp only [engineReadStep, hback, Option.some.injEq, Prod.mk.injEq] at he
    obtain ⟨rfl, rfl⟩ := he
    exact ⟨hhdp, hd, Or.inl rfl⟩
  · have hsect := h.sect
    unfold engineReadStep
    dsimp only
    cases hpc : s.sect <;> simp only [hpc, SectOk] at hsect ⊢ <;> exact hsect

/-- The link of a descriptor that has a successor is the successor's address. -/
theorem Inv.hwNext_of_cons (h : Inv params s c r own) {e f : ℕ} {l : List ℕ}
    (hr : r = e :: f :: l) : (s.mem e).hwNext = hwPtr params.pool f := by
  subst hr
  obtain ⟨-, -, hchain⟩ := h.queue.chain.drop
  obtain ⟨hnext, -⟩ := hchain
  exact hwNext_eq_hwPtr hnext (h.mem_descs (by simp))

theorem Inv.sect_engineDone {r' : List ℕ} (h : Inv params s c (d :: r') own) {nx : U32} (bits : U32)
    (hhdp : s.chan.hdp ≠ 0) : SectOk (engineDoneStep s d nx bits) (c ++ [d]) r' s.sect := by
  have hassoc : c ++ [d] ++ r' = c ++ d :: r' := by simp
  have hnotin : d ∉ c ++ r' := (List.nodup_cons.mp (List.nodup_middle.mp h.nodup)).1
  have hne : ∀ e ∈ c ++ r', e ≠ d := fun e he hed => hnotin (hed ▸ he)
  have hother : ∀ e, e ≠ d → (engineDoneStep s d nx bits).mem e = s.mem e := fun e he => by
    simp [engineDoneStep, he]
  have hsect := h.sect
  have hqueued : place s (c ++ d :: r') .queued d := by simp [place]
  cases hpc : s.sect with
  | none => trivial
  | link e =>
    rw [hpc] at hsect
    have hed : e ≠ d := by
      rintro rfl
      cases h.owned.unique (show place s (c ++ e :: r') .sect e by simp [place, hpc, Section.desc])
        hqueued
    obtain ⟨ho, hq, hn, hup⟩ := hsect
    refine ⟨?_, ?_, ?_, hup⟩
    · rwa [isOwner, hother e hed]
    · rwa [hasEoq, hother e hed]
    · rwa [hother e hed]
  | readMode prev e =>
    rw [hpc] at hsect
    obtain ⟨hl, hup⟩ := hsect
    exact ⟨by rwa [hassoc], hup⟩
  | clearEoq prev e mode =>
    rw [hpc] at hsect
    exact absurd (h.hdp_zero_of_eoq (List.mem_of_getLast? hsect.1) hsect.2.1) hhdp
  | misqueue e =>
    rw [hpc] at hsect
    exact absurd hsect.2.1 hhdp
  | tdWait =>
    rw [hpc] at hsect
    exact hsect
  | readNext e mode drain =>
    rw [hpc] at hsect
    obtain ⟨hfirst, hmode, hdrain⟩ := hsect
    have hec := hne e (List.mem_append_left r' (List.mem_of_head? hfirst))
    exact ⟨by rw [List.head?_append, hfirst]; rfl, by rwa [hother e hec], hdrain⟩
  | requeue e mode drain =>
    rw [hpc] at hsect
    exact absurd hsect.2.2.1 hhdp

/-- The engine completes a descriptor and goes on to the link it had read. -/
theorem Inv.engineDone (h : Inv params s c r own) {nx : U32} (bits : U32)
    (heng : s.eng = some (d, nx)) :
    ∃ r', Inv params (engineDoneStep s d nx bits) (c ++ [d]) r' own := by
  obtain ⟨hhdp, hd, hnx⟩ := h.working d nx heng
  obtain ⟨r', rfl⟩ := List.head?_eq_some_iff.mp hd
  obtain ⟨-, -, -, hno⟩ := h.running hhdp
  have hassoc : c ++ [d] ++ r' = c ++ d :: r' := by simp
  have hnotin : d ∉ c ++ r' := (List.nodup_cons.mp (List.nodup_middle.mp h.nodup)).1
  have hne : ∀ e ∈ c ++ r', e ≠ d := fun e he hed => hnotin (hed ▸ he)
  have howner : isOwner (engineDoneStep s d nx bits).mem d = false := by
    simp [engineDoneStep, isOwner, doneMode_owner]
  have heoq : hasEoq (engineDoneStep s d nx bits).mem d = decide (nx = 0) := by
    simp only [engineDoneStep, hasEoq, Function.update_self, doneMode_eoq]
  have hother : ∀ e, e ≠ d → (engineDoneStep s d nx bits).mem e = s.mem e := fun e he => by
    simp [engineDoneStep, he]
  have hnoeoq : ∀ e ∈ c, hasEoq (engineDoneStep s d nx bits).mem e = false := by
    intro e he
    rw [hasEoq, hother e (hne e (List.mem_append_left r' he))]
    exact hno e he
  refine ⟨r', ?_, ?_, ⟨?_, ?_, ?_⟩, ?_, ?_, ?_, ?_, ?_, h.stop, ?_⟩
  · rw [hassoc]
    refine h.queue.congr ⟨rfl, rfl, rfl⟩ fun e _ => ?_
    by_cases he : e = d <;> simp [engineDoneStep, he]
  · rw [hassoc]
    exact h.owned.congr fun p e => by cases p <;> rfl
  · intro e he
    rcases List.mem_append.mp he with he | he
    · rw [isOwner, hother e (hne e (List.mem_append_left r' he))]
      exact h.marks.done e he
    · obtain rfl := List.mem_singleton.mp he
      exact howner
  · intro e he
    have hed := hne e (List.mem_append_right c he)
    rw [isOwner, hasEoq, hother e hed]
    exact h.marks.todo e (List.mem_cons_of_mem d he)
  · intro e he hq
    rcases List.mem_append.mp he with he | he
    · rw [hnoeoq e he] at hq
      cases hq
    · obtain rfl := List.mem_singleton.mp he
      exact List.getLast?_concat ..
  · intro hdp
    change nx ≠ 0 at hdp
    have hlink : nx = (s.mem d).hwNext := hnx.resolve_right hdp
    cases r' with
    | nil =>
      exact absurd (hlink.trans (h.queue.last d (List.getLast?_concat ..))) hdp
    | cons f l =>
      refine ⟨f, rfl, hlink.trans (h.hwNext_of_cons rfl), fun e he => ?_⟩
      rcases List.mem_append.mp he with he | he
      · exact hnoeoq e he
      · obtain rfl := List.mem_singleton.mp he
        rw [heoq, decide_eq_false hdp]
  · intro e x he
    cases he
  · intro hdp _
    change nx = 0 at hdp
    exact Or.inr (Or.inl ⟨d, List.getLast?_concat .., by rw [heoq, decide_eq_true hdp]⟩)
  · intro hidle
    exact absurd (h.idle hidle).2 hhdp
  · intro hdown
    exact Or.inl ((h.teardown hdown).resolve_right hhdp)
  · exact h.sect_engineDone bits hhdp

end Steps

end CpswDriver.Cpdma.Engine
