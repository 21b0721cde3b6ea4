/-
Runs of a replacer with any logger.

An operation with a logger follows its course up to the first report whose handling fails, or to
its end.  What is kept by every step is therefore kept by every run.

* `run_eq_follow` — **with any logger, an operation follows its course**;
* `run_cases`, `run_of_steady` — the two ways an operation can go, and the only one with a logger
  that does not fail (`Logger.Steady`);
* `runAll_of_course` — what every course keeps holds after every run;
* `Logger.watched` — a logger that in addition keeps every report with the state it was made in;
  `seen` — what it keeps of an operation, described by `seen_cases`.
-/
import StorageKit.Proofs.Kept

namespace StorageKit

namespace Reaction

variable {σ τ : Type}

/-- The same reaction with another memory. -/
def mapMemory (f : σ → τ) : Reaction σ → Reaction τ
  | .done memory => .done (f memory)
  | .fail problem memory => .fail problem (f memory)
  | .look next => .look fun r => mapMemory f (next r)
  | .call op next => .call op fun outcome => mapMemory f (next outcome)

theorem settle_mapMemory (f : σ → τ) (reaction : Reaction σ) (r : Replacer) :
    (reaction.mapMemory f).settle r = ((reaction.settle r).1, f (reaction.settle r).2) := by
  induction reaction with
  | done memory => rfl
  | fail problem memory => rfl
  | look next ih => exact ih r
  | call op next ih => exact ih (.error (.fault .reentered))

end Reaction

namespace Logger

variable {σ : Type}

/-- A logger that does not fail, whatever state of a running operation it gets to see. -/
def Steady (logger : Logger σ) : Prop :=
  ∀ entry memory (r : Replacer), r.latch.held = true → ((logger entry memory).run r).1 = .ok ()

theorem Steady.exists_settle {logger : Logger σ} (h : logger.Steady) (entry : Entry) (memory : σ)
    (r : Replacer) : ∃ m, (logger entry memory).settle r.hold = (.ok (), m) := by
  have hheld : r.hold.latch.held = true := rfl
  have hok := h entry memory r.hold hheld
  rw [Reaction.run_of_held _ hheld] at hok
  exact ⟨_, Prod.ext hok rfl⟩

/-- A logger that at every report asks the replacer for its size, which is refused, and counts
the reports. -/
def asking : Logger Nat := fun _ asked => .call .size fun _ => .done (asked + 1)

theorem steady_asking : Steady asking := by
  intro entry asked r hr
  rw [Reaction.run_of_held _ hr]
  rfl

/-- A logger that in addition keeps every report with the state it was made in. -/
def watched (logger : Logger σ) : Logger (σ × List (Entry × Replacer)) := fun entry memory =>
  .look fun r => (logger entry memory.1).mapMemory fun m => (m, memory.2 ++ [(entry, r)])

theorem settle_watched (logger : Logger σ) (entry : Entry) (memory : σ)
    (seen : List (Entry × Replacer)) (r : Replacer) :
    (logger.watched entry (memory, seen)).settle r =
      (((logger entry memory).settle r).1,
        (((logger entry memory).settle r).2, seen ++ [(entry, r)])) :=
  Reaction.settle_mapMemory _ _ _

end Logger

namespace Replacer

variable {σ α : Type}

/-- A course is followed to its end, or up to one of its reports. -/
theorem follow_cases (logger : Logger σ) (outcome : Except Problem α) (final : Replacer)
    (reports : List (Entry × Replacer)) (memory : σ) :
    (∃ report ∈ reports, ∃ problem m,
      follow logger outcome final reports memory = (.error problem, ⟨report.2, m⟩)) ∨
    ∃ m, follow logger outcome final reports memory = (outcome, ⟨final, m⟩) := by
  induction reports generalizing memory with
  | nil => exact Or.inr ⟨memory, rfl⟩
  | cons report rest ih =>
    obtain ⟨entry, s⟩ := report
    rw [follow]
    rcases (logger entry memory).settle s.hold with ⟨problem | _, m⟩
    · -- this report fails, and its state is the last
      exact Or.inl ⟨_, List.mem_cons_self, problem, m, rfl⟩
    · rcases ih m with ⟨report, hr, hstop⟩ | hend
      · exact Or.inl ⟨report, List.mem_cons_of_mem _ hr, hstop⟩
      · exact Or.inr hend

/-- **With any logger, an operation follows its course.** -/
theorem run_eq_follow (logger : Logger σ) (op : Operation) {s : Observed σ}
    (h : s.replacer.latch = .free) :
    run logger op s =
      follow logger (course op s.replacer).outcome (course op s.replacer).final
        (course op s.replacer).reports s.memory := by
  have hfree : (Latched.latch s).held = false := by
    show s.replacer.latch.held = false
    rw [h]
    rfl
  have hrelease : ∀ r : Replacer, r.latch = .free → { r.hold with latch := ⟨false⟩ } = r := by
    intro r hr
    show { r with latch := Latch.free } = r
    rw [← hr]
  -- no step touches the latch, so giving it back restores the very state of the course
  have halways := (kept_latch .free).course h op
  rw [run, perform, Latch.run_of_free _ hfree,
    show Latched.withLatch ⟨true⟩ s = ⟨s.replacer.hold, s.memory⟩ from rfl,
    body_follows op s.memory]
  rcases follow_cases logger (course op s.replacer).outcome (course op s.replacer).final
    (course op s.replacer).reports s.memory with ⟨report, hr, problem, m, hstop⟩ | ⟨m, hend⟩
  · rw [hstop]
    exact congrArg (fun r => (Except.error problem, (⟨r, m⟩ : Observed σ)))
      (hrelease _ (halways.1 report hr))
  · rw [hend]
    exact congrArg (fun r => ((course op s.replacer).outcome, (⟨r, m⟩ : Observed σ)))
      (hrelease _ halways.2)

/-- An operation fails in one of its reports and stops there, or it reaches the end of its
course. -/
theorem run_cases (logger : Logger σ) (op : Operation) {s : Observed σ}
    (h : s.replacer.latch = .free) :
    (∃ report ∈ (course op s.replacer).reports, ∃ problem,
      (run logger op s).1 = .error problem ∧ (run logger op s).2.replacer = report.2) ∨
    ((run logger op s).1 = (course op s.replacer).outcome ∧
      (run logger op s).2.replacer = (course op s.replacer).final) := by
  rw [run_eq_follow logger op h]
  rcases follow_cases logger (course op s.replacer).outcome (course op s.replacer).final
    (course op s.replacer).reports s.memory with ⟨report, hr, problem, m, hstop⟩ | ⟨m, hend⟩
  · exact Or.inl ⟨report, hr, problem, by rw [hstop], by rw [hstop]⟩
  · exact Or.inr ⟨by rw [hend], by rw [hend]⟩

/-- What holds all along the course of an operation holds after it, with any logger. -/
theorem Course.Always.run {P : Replacer → Prop} {logger : Logger σ} {op : Operation}
    {s : Observed σ} (hP : (course op s.replacer).Always P) (h : s.replacer.latch = .free) :
    P (run logger op s).2.replacer := by
  rcases run_cases logger op h with ⟨report, hr, -, -, hs⟩ | ⟨-, hs⟩
  · rw [hs]
    exact hP.1 report hr
  · rw [hs]
    exact hP.2

theorem latch_run (logger : Logger σ) (op : Operation) {s : Observed σ}
    (h : s.replacer.latch = .free) : (run logger op s).2.replacer.latch = .free :=
  ((kept_latch .free).course h op).run h

theorem latch_runAll (logger : Logger σ) (ops : List Operation) {s : Observed σ}
    (h : s.replacer.latch = .free) : (runAll logger ops s).2.replacer.latch = .free := by
  induction ops generalizing s with
  | nil => exact h
  | cons op rest ih => exact ih (latch_run logger op h)

/-- What every course keeps holds after every run, with any logger. -/
theorem runAll_of_course {P : Replacer → Prop} (hP : ∀ op r, P r → (course op r).Always P)
    (logger : Logger σ) (ops : List Operation) {s : Observed σ} (hs : P s.replacer)
    (h : s.replacer.latch = .free) : P (runAll logger ops s).2.replacer := by
  induction ops generalizing s with
  | nil => exact hs
  | cons op rest ih => exact ih ((hP op _ hs).run h) (latch_run logger op h)

theorem KeptBySteps.runAll {P : Replacer → Prop} (hP : KeptBySteps P) (logger : Logger σ)
    (ops : List Operation) {s : Observed σ} (hs : P s.replacer) (h : s.replacer.latch = .free) :
    P (runAll logger ops s).2.replacer :=
  runAll_of_course (fun op _ hr => hP.course hr op) logger ops hs h

theorem runAll_cons (logger : Logger σ) (op : Operation) (rest : List Operation)
    (s : Observed σ) :
    runAll logger (op :: rest) s =
      ((run logger op s).1 :: (runAll logger rest (run logger op s).2).1,
        (runAll logger rest (run logger op s).2).2) :=
  rfl

/-- With a logger that does not fail, a course is followed to its end. -/
theorem follow_of_steady {logger : Logger σ} (h : logger.Steady) (outcome : Except Problem α)
    (final : Replacer) (reports : List (Entry × Replacer)) (memory : σ) :
    ∃ m, follow logger outcome final reports memory = (outcome, ⟨final, m⟩) := by
  induction reports generalizing memory with
  | nil => exact ⟨memory, rfl⟩
  | cons report rest ih =>
    obtain ⟨entry, s⟩ := report
    obtain ⟨m, hm⟩ := h.exists_settle entry memory s
    rw [follow, hm]
    exact ih m

/-- With a logger that does not fail, an operation reaches the end of its course. -/
theorem run_of_steady {logger : Logger σ} (hl : logger.Steady) (op : Operation) {s : Observed σ}
    (h : s.replacer.latch = .free) :
    (run logger op s).1 = (course op s.replacer).outcome ∧
      (run logger op s).2.replacer = (course op s.replacer).final := by
  obtain ⟨m, hend⟩ := follow_of_steady hl (course op s.replacer).outcome
    (course op s.replacer).final (course op s.replacer).reports s.memory
  rw [run_eq_follow logger op h, hend]
  exact ⟨rfl, rfl⟩

/-! ### Watching a run -/

/-- The reports an operation makes, each with the state it is made in.  If the handling of a report
fails, that report is the last. -/
def seen (logger : Logger σ) (op : Operation) (s : Observed σ) : List (Entry × Replacer) :=
  (run logger.watched op ⟨s.replacer, (s.memory, [])⟩).2.memory.2

/-- A watched course goes as it goes unwatched.  A report whose handling fails is the last that is
kept, and its state is the last; otherwise all reports are kept. -/
theorem follow_watched (logger : Logger σ) (outcome : Except Problem α) (final : Replacer)
    (reports : List (Entry × Replacer)) (memory : σ) (seen : List (Entry × Replacer)) :
    (∃ before report after problem m, reports = before ++ report :: after ∧
      follow logger outcome final reports memory = (.error problem, ⟨report.2, m⟩) ∧
      follow logger.watched outcome final reports (memory, seen) = (.error problem, ⟨report.2,
        (m, seen ++ (before ++ [report]).map fun report => (report.1, report.2.hold))⟩)) ∨
    ∃ m, follow logger outcome final reports memory = (outcome, ⟨final, m⟩) ∧
      follow logger.watched outcome final reports (memory, seen) = (outcome, ⟨final,
        (m, seen ++ reports.map fun report => (report.1, report.2.hold))⟩) := by
  induction reports generalizing memory seen with
  | nil => exact Or.inr ⟨memory, rfl, by simp [follow]⟩
  | cons report rest ih =>
    obtain ⟨entry, s⟩ := report
    rw [follow, follow, Logger.settle_watched]
    rcases (logger entry memory).settle s.hold with ⟨problem | _, m⟩
    · exact Or.inl ⟨[], (entry, s), rest, problem, m, rfl, rfl, rfl⟩
    · dsimp only
      rcases ih m (seen ++ [(entry, s.hold)]) with
        ⟨before, report, after, problem, m', rfl, hstop, hwatched⟩ | ⟨m', hend, hwatched⟩
      · refine Or.inl ⟨(entry, s) :: before, report, after, problem, m', rfl, hstop, ?_⟩
        rw [hwatched, List.append_assoc]
        rfl
      · refine Or.inr ⟨m', hend, ?_⟩
        rw [hwatched, List.append_assoc]
        rfl

/-- What is seen of an operation that fails in a report ends with this report, and of an operation
that reaches its end all reports are seen. -/
theorem seen_cases (logger : Logger σ) (op : Operation) {s : Observed σ}
    (h : s.replacer.latch = .free) :
    (∃ before report after problem, (course op s.replacer).reports = before ++ report :: after ∧
      seen logger op s = (before ++ [report]).map (fun report => (report.1, report.2.hold)) ∧
      (run logger op s).1 = .error problem ∧ (run logger op s).2.replacer = report.2) ∨
    (seen logger op s =
        (course op s.replacer).reports.map (fun report => (report.1, report.2.hold)) ∧
      (run logger op s).1 = (course op s.replacer).outcome ∧
      (run logger op s).2.replacer = (course op s.replacer).final) := by
  rw [seen, run_eq_follow logger op h, run_eq_follow logger.watched op h]
  rcases follow_watched logger (course op s.replacer).outcome (course op s.replacer).final
    (course op s.replacer).reports s.memory [] with
    ⟨before, report, after, problem, m, hreports, hstop, hwatched⟩ | ⟨m, hend, hwatched⟩
  · rw [hstop, hwatched, List.nil_append]
    exact Or.inl ⟨before, report, after, problem, hreports, rfl, rfl, rfl⟩
  · rw [hend, hwatched, List.nil_append]
    exact Or.inr ⟨rfl, rfl, rfl⟩

theorem mem_seen {logger : Logger σ} {op : Operation} {s : Observed σ}
    (h : s.replacer.latch = .free) {report : Entry × Replacer} (hr : report ∈ seen logger op s) :
    ∃ r, (report.1, r) ∈ (course op s.replacer).reports ∧ report.2 = r.hold := by
  rcases seen_cases logger op h with ⟨before, last, after, -, hreports, hseen, -⟩ | ⟨hseen, -⟩
  · rw [hseen] at hr
    obtain ⟨made, hmade, rfl⟩ := List.mem_map.mp hr
    refine ⟨made.2, ?_, rfl⟩
    rw [hreports, List.append_cons]
    exact List.mem_append_left _ hmade
  · rw [hseen] at hr
    obtain ⟨made, hmade, rfl⟩ := List.mem_map.mp hr
    exact ⟨made.2, hmade, rfl⟩

/-- With a logger that does not fail, all reports of a course are handled. -/
theorem follow_watched_of_steady {logger : Logger σ} (hl : logger.Steady)
    (outcome : Except Problem α) (final : Replacer) (reports : List (Entry × Replacer))
    (memory : σ) (seen : List (Entry × Replacer)) :
    (follow logger.watched outcome final reports (memory, seen)).2.memory.2 =
      seen ++ reports.map fun report => (report.1, report.2.hold) := by
  induction reports generalizing memory seen with
  | nil => exact (List.append_nil _).symm
  | cons report rest ih =>
    obtain ⟨entry, r⟩ := report
    obtain ⟨m, hm⟩ := hl.exists_settle entry memory r
    rw [follow, Logger.settle_watched, hm]
    dsimp only
    rw [ih, List.append_assoc]
    rfl

theorem seen_of_steady {logger : Logger σ} (hl : logger.Steady) (op : Operation)
    {s : Observed σ} (h : s.replacer.latch = .free) :
    seen logger op s =
      (course op s.replacer).reports.map fun report => (report.1, report.2.hold) := by
  rw [seen, run_eq_follow logger.watched op h, follow_watched_of_steady hl, List.nil_append]

end Replacer
end StorageKit
