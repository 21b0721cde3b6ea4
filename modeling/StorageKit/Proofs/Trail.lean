/-
The log of a replacer, read by somebody who sees nothing else.

A reader of the log takes a frame for tracked from an entry that it was accessed up to an entry that
it was evicted or removed, and counts the entries about its accesses from there:

* `Entry.adds`, `Entry.deletes` — what an entry says to the reader, by its level and its message;
* `Trail.tracked`, `Trail.accesses` — what the reader makes of a log;
* `Trail.Accounts` — the reader is right about a replacer;
* `Traced` — the reader is right in the states of all reports of a course, and at its end;
* `written`, `log` — the entries that a logger receives in an operation and in a run;
* `audit_trail` — **the log of every run is a complete trail of the tracked frames**.

Design notes: a report is made after the step it is about, so a logger that fails at a report has
received it, and the reader is right even about an operation that is cut short.  The reader goes by
the words of an entry, not by its constructor, since these are all that a logger passes on.
-/
import StorageKit.Proofs.Runs
import Mathlib.Data.List.DropRight

namespace StorageKit

/-! ### Reading entries -/

namespace Entry

/-- The frame that an entry names. -/
def frame : Entry → FrameRef
  | .accessed frame _ _ | .evicted frame | .madeRoom frame _ | .removed frame => frame

/-- The name of a frame stands under `frameId`. -/
theorem get?_fields_frameId (e : Entry) :
    Fields.get? "frameId" e.fields = some (.number e.frame.number) := by
  cases e <;> rfl

/-- The entry says that the frame was accessed. -/
def adds (n : Nat) (e : Entry) : Bool :=
  e.level = .trace && e.message = "frame access recorded" && e.frame.index = n

/-- The entry says that the frame left. -/
def deletes (n : Nat) (e : Entry) : Bool :=
  e.level = .debug && (e.message = "frame evicted" || e.message = "frame removed")
    && e.frame.index = n

variable {n : Nat} {f : FrameRef}

@[simp] theorem adds_accessed (kind : AccessKind) (t : Nat) :
    adds n (.accessed f kind t) = decide (f.index = n) := rfl

@[simp] theorem adds_evicted : adds n (.evicted f) = false := rfl

@[simp] theorem adds_madeRoom (victim : Option FrameRef) : adds n (.madeRoom f victim) = false :=
  rfl

@[simp] theorem adds_removed : adds n (.removed f) = false := rfl

@[simp] theorem deletes_accessed (kind : AccessKind) (t : Nat) :
    deletes n (.accessed f kind t) = false := rfl

@[simp] theorem deletes_evicted : deletes n (.evicted f) = decide (f.index = n) := rfl

@[simp] theorem deletes_madeRoom (victim : Option FrameRef) :
    deletes n (.madeRoom f victim) = false := rfl

@[simp] theorem deletes_removed : deletes n (.removed f) = decide (f.index = n) := rfl

end Entry

namespace Trail

/-- The frames that the reader takes for tracked after one more entry. -/
def next (tracked : Finset Nat) (e : Entry) : Finset Nat :=
  if e.adds e.frame.index then insert e.frame.index tracked
  else if e.deletes e.frame.index then tracked.erase e.frame.index
  else tracked

/-- The frames that the reader of a log takes for tracked. -/
def tracked (log : List Entry) : Finset Nat := log.foldl next ∅

/-- The entries about accesses to a frame since its last deletion. -/
def accesses (n : Nat) (log : List Entry) : Nat :=
  (log.rtakeWhile fun e => !e.deletes n).countP fun e => e.adds n

variable {n : Nat} {log more : List Entry} {e : Entry}

theorem mem_tracked_concat :
    n ∈ tracked (log ++ [e]) ↔ e.adds n = true ∨ e.deletes n = false ∧ n ∈ tracked log := by
  have hconcat : tracked (log ++ [e]) = next (tracked log) e := List.foldl_concat ..
  rw [hconcat, next]
  cases e <;> simp [Entry.frame, eq_comm]

theorem accesses_concat :
    accesses n (log ++ [e]) =
      if e.deletes n then 0 else if e.adds n then accesses n log + 1 else accesses n log := by
  rw [accesses]
  by_cases hdeletes : e.deletes n = true
  · rw [if_pos hdeletes, List.rtakeWhile_concat_neg _ _ _ (by simp [hdeletes])]
    rfl
  · rw [if_neg hdeletes, List.rtakeWhile_concat_pos _ _ _ (by simpa using hdeletes),
      List.countP_append, List.countP_singleton]
    split <;> rfl

/-- Of a frame that is not tracked no access is on record. -/
theorem accesses_eq_zero (h : n ∉ tracked log) : accesses n log = 0 := by
  induction log using List.reverseRecOn with
  | nil => rfl
  | append_singleton log e ih =>
    rw [mem_tracked_concat, not_or, not_and] at h
    rw [accesses_concat]
    by_cases hdeletes : e.deletes n = true
    · rw [if_pos hdeletes]
    · rw [if_neg hdeletes, if_neg h.1]
      exact ih (h.2 (Bool.not_eq_true _ ▸ hdeletes))

/-- A frame is tracked after more entries only if it was before, or if one of them adds it. -/
theorem exists_adds (hn : n ∉ tracked log) (h : n ∈ tracked (log ++ more)) :
    ∃ e ∈ more, e.adds n = true := by
  induction more using List.reverseRecOn with
  | nil =>
    rw [List.append_nil] at h
    exact absurd h hn
  | append_singleton more e ih =>
    rw [← List.append_assoc, mem_tracked_concat] at h
    rcases h with hadds | ⟨-, h⟩
    · exact ⟨e, by simp, hadds⟩
    · obtain ⟨e', he', hadds⟩ := ih h
      exact ⟨e', List.mem_append_left _ he', hadds⟩

/-- A frame stops being tracked only if one of the entries deletes it. -/
theorem exists_deletes (hn : n ∈ tracked log) (h : n ∉ tracked (log ++ more)) :
    ∃ e ∈ more, e.deletes n = true := by
  induction more using List.reverseRecOn with
  | nil =>
    rw [List.append_nil] at h
    exact absurd hn h
  | append_singleton more e ih =>
    rw [← List.append_assoc, mem_tracked_concat, not_or, not_and] at h
    by_cases hdeletes : e.deletes n = true
    · exact ⟨e, by simp, hdeletes⟩
    · obtain ⟨e', he', hdeletes'⟩ := ih (h.2 (Bool.not_eq_true _ ▸ hdeletes))
      exact ⟨e', List.mem_append_left _ he', hdeletes'⟩

/-! ### Readers who are right -/

/-- The reader of a log is right about a replacer: the frames that the log leaves tracked are the
tracked ones, and each has as many accesses as the log has entries about them since its last
deletion. -/
structure Accounts (log : List Entry) (r : Replacer) : Prop where
  mem_tracked : ∀ n, n ∈ tracked log ↔ (r.record? n).isSome = true
  accessCount_eq : ∀ {n f}, r.record? n = some f → f.accessCount = accesses n log

theorem accounts_new (settings : Replacer.Settings) : Accounts [] (.new settings) where
  mem_tracked _ := ⟨fun h => by simp [tracked] at h, fun h => by cases h⟩
  accessCount_eq h := by cases h

namespace Accounts

variable {r r' : Replacer} {f : FrameRef}

theorem not_mem_tracked (h : Accounts log r) (hn : r.record? n = none) : n ∉ tracked log := by
  rw [h.mem_tracked, hn]
  exact Bool.false_ne_true

/-- An access that is noted in the records and then in the log. -/
theorem touch (h : Accounts log r) (f : FrameRef) (kind : AccessKind) (t : Nat) :
    Accounts (log ++ [.accessed f kind t]) (Replacer.touch f.index r) := by
  have hrecord := Replacer.record?_touch f.index r
  constructor
  · intro n
    rw [mem_tracked_concat, Entry.adds_accessed, Entry.deletes_accessed, decide_eq_true_iff,
      hrecord, h.mem_tracked]
    by_cases hn : n = f.index
    · rw [hn, Function.update_self]
      simp
    · rw [Function.update_of_ne hn]
      simp [Ne.symm hn]
  · intro n g hg
    rw [accesses_concat, Entry.adds_accessed, Entry.deletes_accessed, if_neg Bool.false_ne_true]
    rcases Replacer.record?_cases hrecord hg with ⟨rfl, hself⟩ | ⟨hn, hg⟩
    · -- a frame that was not tracked has no accesses, like a fresh record
      have hcount : (r.recordOf f.index).accessCount = accesses f.index log := by
        cases hf : r.record? f.index with
        | none =>
          rw [accesses_eq_zero (h.not_mem_tracked hf), Replacer.recordOf, hf]
          rfl
        | some g' => rw [Replacer.recordOf_of_record? hf, h.accessCount_eq hf]
      obtain rfl := Option.some.inj hself
      rw [decide_eq_true rfl, if_pos rfl, ← hcount]
      rfl
    · rw [decide_eq_false (Ne.symm hn), if_neg Bool.false_ne_true]
      exact h.accessCount_eq hg

/-- A frame that is forgotten before its leaving is written. -/
theorem forget (h : Accounts log r) (hadds : ∀ m, e.adds m = false)
    (hdeletes : ∀ m, e.deletes m = decide (n = m)) :
    Accounts (log ++ [e]) (Replacer.forget n r) := by
  have hrecord := Replacer.record?_forget n r
  constructor
  · intro m
    rw [mem_tracked_concat, hadds, hdeletes, decide_eq_false_iff_not, hrecord, h.mem_tracked]
    by_cases hm : m = n
    · rw [hm, Function.update_self]
      simp
    · rw [Function.update_of_ne hm]
      simp [Ne.symm hm]
  · intro m g hg
    rcases Replacer.record?_cases hrecord hg with ⟨-, hself⟩ | ⟨hm, hg⟩
    · cases hself
    · rw [accesses_concat, hadds, hdeletes, decide_eq_false (Ne.symm hm),
        if_neg Bool.false_ne_true, if_neg Bool.false_ne_true]
      exact h.accessCount_eq hg

/-- An entry that says nothing to the reader. -/
theorem silent (h : Accounts log r) (hadds : ∀ m, e.adds m = false)
    (hdeletes : ∀ m, e.deletes m = false) : Accounts (log ++ [e]) r := by
  constructor
  · intro m
    rw [mem_tracked_concat, hadds, hdeletes, h.mem_tracked]
    simp
  · intro m g hg
    rw [accesses_concat, hadds, hdeletes, if_neg Bool.false_ne_true, if_neg Bool.false_ne_true]
    exact h.accessCount_eq hg

/-- A change of flags, of which the log says nothing. -/
theorem adjust (h : Accounts log r) {change : FrameRecord → FrameRecord}
    (hrecord : r'.record? = Function.update r.record? n ((r.record? n).map change))
    (hchange : ∀ g, (change g).accessCount = g.accessCount) : Accounts log r' := by
  constructor
  · intro m
    rw [h.mem_tracked, hrecord]
    by_cases hm : m = n
    · rw [hm, Function.update_self, Option.isSome_map]
    · rw [Function.update_of_ne hm]
  · intro m g hg
    rcases Replacer.record?_cases hrecord hg with ⟨rfl, hself⟩ | ⟨-, hg⟩
    · obtain ⟨g', hg', rfl⟩ := Option.map_eq_some_iff.mp hself
      rw [hchange]
      exact h.accessCount_eq hg'
    · exact h.accessCount_eq hg

end Accounts

theorem kept_accounts (log : List Entry) : Replacer.KeptInPlace (Accounts log) where
  enroll n t r h := h.adjust (Replacer.record?_enroll n t r) fun _ => rfl
  age f rank r h := h.adjust (Replacer.record?_age f rank r) fun _ => rfl
  pin n r h := h.adjust (Replacer.record?_pin n r) fun _ => rfl
  unpin n r h := h.adjust (Replacer.record?_unpin n r) fun _ => rfl

end Trail

namespace Replacer

open Trail (Accounts tracked)

variable {σ : Type} {r t : Replacer} {past : List Entry}
  {reports before after : List (Entry × Replacer)} {e : Entry}

/-! ### Courses -/

/-- The reader of a log who reads on along the reports of a course is right at each of them, and at
the end of the course, in the state `t`; and what is reported to leave was tracked. -/
def Traced (t : Replacer) : List Entry → List (Entry × Replacer) → Prop
  | past, [] => Accounts past t
  | past, (e, r) :: rest =>
    (∀ n, e.deletes n = true → n ∈ tracked past) ∧ Accounts (past ++ [e]) r ∧
      Traced t (past ++ [e]) rest

namespace Traced

theorem at_end (h : Traced t past reports) : Accounts (past ++ reports.map Prod.fst) t := by
  induction reports generalizing past with
  | nil =>
    rw [List.map_nil, List.append_nil]
    exact h
  | cons report rest ih =>
    have hrest := ih h.2.2
    rwa [List.append_assoc] at hrest

theorem at_report (h : Traced t past (before ++ (e, r) :: after)) :
    (∀ n, e.deletes n = true → n ∈ tracked (past ++ before.map Prod.fst)) ∧
      Accounts (past ++ before.map Prod.fst ++ [e]) r := by
  induction before generalizing past with
  | nil =>
    rw [List.map_nil, List.append_nil]
    exact ⟨h.1, h.2.1⟩
  | cons report rest ih =>
    have hrest := ih h.2.2
    rwa [List.append_assoc past] at hrest

theorem append (h : Traced r past before)
    (hafter : Traced t (past ++ before.map Prod.fst) after) : Traced t past (before ++ after) := by
  induction before generalizing past with
  | nil => rwa [List.map_nil, List.append_nil] at hafter
  | cons report rest ih =>
    refine ⟨h.1, h.2.1, ih h.2.2 ?_⟩
    rwa [List.append_assoc]

/-- A course that stops at a report. -/
theorem stopped (h : Traced t past (before ++ (e, r) :: after)) :
    Traced r past (before ++ [(e, r)]) := by
  induction before generalizing past with
  | nil => exact ⟨h.1, h.2.1, h.2.1⟩
  | cons report rest ih => exact ⟨h.1, h.2.1, ih h.2.2⟩

/-- A reader sees nothing of the latch, which is held when a report is made. -/
theorem hold (h : Traced t past reports) :
    Traced t past (reports.map fun report => (report.1, report.2.hold)) := by
  induction reports generalizing past with
  | nil => exact h
  | cons report rest ih =>
    exact ⟨h.1, ⟨h.2.1.mem_tracked, h.2.1.accessCount_eq⟩, ih h.2.2⟩

end Traced

theorem traced_evict (h : Accounts past r) : Traced r.withoutVictim past (evictReports r) := by
  rw [withoutVictim, evictReports]
  cases hv : r.nextVictim with
  | none => exact h
  | some victim =>
    obtain ⟨f, hf, -⟩ := isEvictable_eq_true.mp (nextVictim_spec hv)
    have hforget := h.forget (e := .evicted victim) (fun _ => rfl) fun _ => rfl
    refine ⟨fun n hn => ?_, hforget, hforget⟩
    -- the victim was tracked
    rw [Entry.deletes_evicted, decide_eq_true_iff] at hn
    rw [h.mem_tracked, ← hn, hf]
    rfl

/-- The reports of making room, when the log has nothing to tell of what follows. -/
theorem traced_room (f : FrameRef) (h : Accounts past r)
    (hlater : ∀ past, Accounts past r.withRoom → Accounts past t) :
    Traced t past (roomReports f r) := by
  rw [withRoom] at hlater
  rw [roomReports]
  split
  · next hfull =>
    rw [if_pos hfull] at hlater
    have hevict := traced_evict h
    have hroom := hevict.at_end.silent (e := .madeRoom f r.nextVictim) (fun _ => rfl) fun _ => rfl
    exact hevict.append ⟨fun n hn => (Bool.false_ne_true hn).elim, hroom, hlater _ hroom⟩
  · next hfree =>
    rw [if_neg hfree] at hlater
    exact hlater past h

theorem traced_access (f : FrameRef) (kind : AccessKind) (h : Accounts past r) :
    Traced (accessed f r) past (accessReports f kind r) := by
  have htouch := h.touch f kind (touch f.index r).clock
  refine ⟨fun n hn => (Bool.false_ne_true hn).elim, htouch, ?_⟩
  split
  · next hfirst =>
    refine traced_room f htouch fun past hroom => ?_
    exact (Trail.kept_accounts past).accessed_of f (fun _ => hroom) fun hlater =>
      absurd hfirst hlater
  · next hlater =>
    exact (Trail.kept_accounts _).accessed_of f (fun hfirst => absurd hfirst hlater) fun _ => htouch

/-- **The reader is right all along every course.** -/
theorem course_traced (op : Operation) (h : Accounts past r) :
    Traced (course op r).final past (course op r).reports := by
  refine course_cases (Q := fun _ c => Traced c.final past c.reports) op r ?_ ?_ ?_ ?_ ?_ ?_
  · exact fun _ _ _ => h
  · exact fun _ kind f _ => traced_access f kind h
  · exact traced_evict h
  · exact fun _ f _ _ _ _ => traced_room f h fun past hroom =>
      (Trail.kept_accounts past).unpin f.index _ hroom
  · exact fun _ f _ _ _ _ => (Trail.kept_accounts past).pin f.index r h
  · intro x f record _ hf _
    have hforget := h.forget (e := .removed f) (fun _ => rfl) fun _ => rfl
    refine ⟨fun n hn => ?_, hforget, hforget⟩
    rw [Entry.deletes_removed, decide_eq_true_iff] at hn
    rw [h.mem_tracked, ← hn, hf]
    rfl

/-! ### Runs -/

/-- The entries that a logger receives in an operation, the one at which it fails included. -/
def written (logger : Logger σ) (op : Operation) (s : Observed σ) : List Entry :=
  (seen logger op s).map Prod.fst

/-- The entries that a logger receives in a run. -/
def log (logger : Logger σ) : List Operation → Observed σ → List Entry
  | [], _ => []
  | op :: rest, s => written logger op s ++ log logger rest (run logger op s).2

section

variable {s : Observed σ}

/-- The reports that a logger gets to see are traced, up to the state in which the operation
ends. -/
theorem traced_seen (logger : Logger σ) (op : Operation) (hfree : s.replacer.latch = .free)
    (h : Accounts past s.replacer) :
    Traced (run logger op s).2.replacer past (seen logger op s) := by
  have hc := course_traced op h
  rcases seen_cases logger op hfree with
    ⟨before, report, after, problem, hreports, hseen, -, hend⟩ | ⟨hseen, -, hend⟩
  · rw [hreports] at hc
    rw [hseen, hend]
    exact hc.stopped.hold
  · rw [hseen, hend]
    exact hc.hold

theorem accounts_runAll (logger : Logger σ) (ops : List Operation)
    (hfree : s.replacer.latch = .free) (h : Accounts past s.replacer) :
    Accounts (past ++ log logger ops s) (runAll logger ops s).2.replacer := by
  induction ops generalizing s past with
  | nil =>
    rw [log, List.append_nil]
    exact h
  | cons op rest ih =>
    have hrest := ih (latch_run logger op hfree) (traced_seen logger op hfree h).at_end
    rwa [List.append_assoc] at hrest

/-- What one more operation adds to a log that tells what is tracked.  The reader who reads on is
right at every entry; an entry that deletes a frame is about one that was tracked just before; and
no frame becomes tracked, or stops being tracked, without an entry that says so. -/
structure LeavesTrail (logger : Logger σ) (past : List Entry) (op : Operation) (s : Observed σ) :
    Prop where
  accounts : ∀ before e r after, seen logger op s = before ++ (e, r) :: after →
    Accounts (past ++ before.map Prod.fst ++ [e]) r
  deleted : ∀ before e after, written logger op s = before ++ e :: after →
    ∀ n, e.deletes n = true → n ∈ tracked (past ++ before)
  entered : ∀ n, s.replacer.record? n = none →
    (run logger op s).2.replacer.record? n ≠ none → ∃ e ∈ written logger op s, e.adds n = true
  left : ∀ n, s.replacer.record? n ≠ none →
    (run logger op s).2.replacer.record? n = none → ∃ e ∈ written logger op s, e.deletes n = true

theorem leavesTrail (logger : Logger σ) (op : Operation) (hfree : s.replacer.latch = .free)
    (h : Accounts past s.replacer) : LeavesTrail logger past op s := by
  have htraced := traced_seen logger op hfree h
  have hrun : Accounts (past ++ written logger op s) (run logger op s).2.replacer := htraced.at_end
  constructor
  · intro before e r after hseen
    rw [hseen] at htraced
    exact htraced.at_report.2
  · intro before e after hwritten n hn
    obtain ⟨reports, more, hseen, rfl, hmore⟩ := List.map_eq_append_iff.mp hwritten
    obtain ⟨report, rest, rfl, rfl, -⟩ := List.map_eq_cons_iff.mp hmore
    rw [hseen] at htraced
    exact htraced.at_report.1 n hn
  · intro n hn hn'
    refine Trail.exists_adds (h.not_mem_tracked hn) ?_
    exact (hrun.mem_tracked n).mpr (Option.isSome_iff_ne_none.mpr hn')
  · intro n hn hn'
    refine Trail.exists_deletes ?_ (hrun.not_mem_tracked hn')
    exact (h.mem_tracked n).mpr (Option.isSome_iff_ne_none.mpr hn)

end

end Replacer
end StorageKit
