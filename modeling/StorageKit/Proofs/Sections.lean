/-
Sections exclude each other.

Sections and catching blocks nest to any depth, and a failure that is caught lets a program go on.
What a program does nevertheless depends on the latch in one respect only: whether a section was
entered and not left yet.

* `Latch.Mark`, `Mark.event?` — what happens in the course of a program: what it leaves behind, and
  where a section is entered, left and refused;
* `Latch.Proceeds` — how a program proceeds outside of sections or inside one, told without a latch;
* `Latch.openSections` — the sections that were entered and not left yet;
* `Latch.exists_course` — with the latch held inside and free outside, a program proceeds in this
  way, and the latch is what it was before;
* `Proceeds.nested` — sections do not overlap, and readings tell whether one is open;
* **`Latch.sections_exclude`** — all of this for every program that starts with a free latch, and
  what becomes of a program as the body of a section.

Design notes: what a program leaves behind does not show where a section ends that failed.  Marks
do, and the events are those marks that can be seen.
-/
import StorageKit.Latch.Script

namespace StorageKit
namespace Latch

/-! ### Commands one by one -/

/-- What holds of the empty program, and of a program if it holds of what follows the first command
and of the body of that command, holds of all programs. -/
@[elab_as_elim]
theorem programInduction {Q : List Command → Prop} (nil : Q [])
    (read : ∀ rest, Q rest → Q (.read :: rest))
    (fail : ∀ message rest, Q rest → Q (.fail message :: rest))
    (finish : ∀ value rest, Q rest → Q (.finish value :: rest))
    (enter : ∀ body rest, Q body → Q rest → Q (.enter body :: rest))
    (attempt : ∀ body rest, Q body → Q rest → Q (.attempt body :: rest))
    (program : List Command) : Q program :=
  @Command.rec_1 (fun c => ∀ rest, Q rest → Q (c :: rest)) Q read fail finish
    (fun body hbody rest => enter body rest hbody) (fun body hbody rest => attempt body rest hbody)
    nil (fun _ rest hcommand hrest => hcommand rest hrest) program

section
variable (body rest : List Command) (last : Value) (w : World)

theorem start_read :
    (execute (.read :: rest) last).start w =
      (execute rest last).start { w with events := w.events ++ [.held w.latch.held] } :=
  rfl

theorem start_enter :
    (execute (.enter body :: rest) last).start w =
      match (run (execute body .undefined)).start w with
      | (.ok value, t) =>
        (execute rest value).start { t with events := t.events ++ [.ran value] }
      | (.error problem, t) => (.error problem, t) := by
  rw [execute, Critical.start_bind, step, Critical.start_bind]
  rcases (run (execute body .undefined)).start w with ⟨outcome, t⟩
  cases outcome <;> rfl

theorem start_attempt :
    (execute (.attempt body :: rest) last).start w =
      match (execute body .undefined).start w with
      | (.ok value, t) => (execute rest value).start t
      | (.error problem, t) =>
        (execute rest last).start { t with events := t.events ++ [.caught problem] } := by
  rw [execute, Critical.start_bind, step, Critical.start_tryCatch, Critical.start_bind]
  rcases (execute body .undefined).start w with ⟨outcome, t⟩
  cases outcome <;> rfl

end

/-! ### The course of a program -/

/-- What happens in the course of a program. -/
inductive Mark where
  | read (held : Bool)
  | refused
  | entered
  | left
  /-- After a section: the value that it passed on. -/
  | passed (value : Value)
  | caught (problem : Problem)

/-- What the program leaves behind at a mark. -/
def Mark.event? : Mark → Option Event
  | .read held => some (.held held)
  | .passed value => some (.ran value)
  | .caught problem => some (.caught problem)
  | .refused | .entered | .left => none

/-- What a program leaves behind in its course. -/
def visible (marks : List Mark) : List Event := marks.filterMap Mark.event?

/-- How a program proceeds, given whether this is inside a section and the value so far: what
happens, and how it ends. -/
inductive Proceeds : Bool → List Command → Value → List Mark → Except Problem Value → Prop where
  | nil {inside last} : Proceeds inside [] last [] (.ok last)
  | read {inside rest last marks outcome} :
    Proceeds inside rest last marks outcome →
    Proceeds inside (.read :: rest) last (.read inside :: marks) outcome
  | fail {inside message rest last} :
    Proceeds inside (.fail message :: rest) last [] (.error (.error message))
  | finish {inside value rest last} :
    Proceeds inside (.finish value :: rest) last [] (.ok value)
  /-- Inside a section no other is entered. -/
  | refused {body rest last} :
    Proceeds true (.enter body :: rest) last [.refused] (.error (.fault .reentered))
  | entered {body rest last inner value marks outcome} :
    Proceeds true body .undefined inner (.ok value) →
    Proceeds false rest value marks outcome →
    Proceeds false (.enter body :: rest) last
      (.entered :: (inner ++ .left :: .passed value :: marks)) outcome
  | interrupted {body rest last inner problem} :
    Proceeds true body .undefined inner (.error problem) →
    Proceeds false (.enter body :: rest) last (.entered :: (inner ++ [.left])) (.error problem)
  | attempted {inside body rest last inner value marks outcome} :
    Proceeds inside body .undefined inner (.ok value) →
    Proceeds inside rest value marks outcome →
    Proceeds inside (.attempt body :: rest) last (inner ++ marks) outcome
  | caught {inside body rest last inner problem marks outcome} :
    Proceeds inside body .undefined inner (.error problem) →
    Proceeds inside rest last marks outcome →
    Proceeds inside (.attempt body :: rest) last (inner ++ .caught problem :: marks) outcome

@[simp] theorem visible_nil : visible [] = [] := rfl

@[simp] theorem visible_cons (m : Mark) (marks : List Mark) :
    visible (m :: marks) = m.event?.toList ++ visible marks := by
  rw [visible, List.filterMap_cons, visible]
  cases m.event? <;> rfl

@[simp] theorem visible_append (marks later : List Mark) :
    visible (marks ++ later) = visible marks ++ visible later :=
  List.filterMap_append ..

/-- A section that is entered runs its body once, with the latch held, and passes on how that
ended. -/
theorem start_run_of_body {body : Critical World Value} {outcome : Except Problem Value}
    {events later : List Event}
    (h : body.start ⟨⟨true⟩, events⟩ = (outcome, ⟨⟨true⟩, later⟩)) :
    (run body).start ⟨⟨false⟩, events⟩ = (outcome, ⟨⟨false⟩, later⟩) := by
  have hentered : Latched.withLatch ⟨true⟩ (⟨⟨false⟩, events⟩ : World) = ⟨⟨true⟩, events⟩ := rfl
  rw [run_of_free _ rfl, hentered, h]
  rfl

/-- A latch that is held inside a section and free outside has a program proceed as if there were
none, and is the same afterwards. -/
theorem exists_course (program : List Command) (inside : Bool) (last : Value) :
    ∃ marks outcome, Proceeds inside program last marks outcome ∧
      ∀ events, (execute program last).start ⟨⟨inside⟩, events⟩ =
        (outcome, ⟨⟨inside⟩, events ++ visible marks⟩) := by
  induction program using programInduction generalizing inside last with
  | nil =>
    refine ⟨_, _, .nil, fun events => ?_⟩
    rw [visible_nil, List.append_nil]
    rfl
  | read rest ih =>
    obtain ⟨marks, outcome, hrest, hstart⟩ := ih inside last
    refine ⟨_, _, .read hrest, fun events => ?_⟩
    rw [start_read, hstart, visible_cons, List.append_assoc]
    rfl
  | fail message rest _ =>
    refine ⟨_, _, .fail, fun events => ?_⟩
    rw [visible_nil, List.append_nil]
    rfl
  | finish value rest _ =>
    refine ⟨_, _, .finish, fun events => ?_⟩
    rw [visible_nil, List.append_nil]
    rfl
  | enter body rest ihbody ihrest =>
    cases inside with
    | true =>
      refine ⟨_, _, .refused, fun events => ?_⟩
      rw [start_enter, run_of_held _ rfl]
      simp [Mark.event?]
    | false =>
      obtain ⟨inner, ended, hbody, hinner⟩ := ihbody true .undefined
      have hrun (events : List Event) := start_run_of_body (hinner events)
      cases ended with
      | error problem =>
        refine ⟨_, _, .interrupted hbody, fun events => ?_⟩
        rw [start_enter, hrun]
        simp [Mark.event?]
      | ok value =>
        obtain ⟨marks, outcome, hrest, hstart⟩ := ihrest false value
        refine ⟨_, _, .entered hbody hrest, fun events => ?_⟩
        rw [start_enter, hrun]
        simp [hstart, Mark.event?]
  | attempt body rest ihbody ihrest =>
    obtain ⟨inner, ended, hbody, hinner⟩ := ihbody inside .undefined
    cases ended with
    | error problem =>
      obtain ⟨marks, outcome, hrest, hstart⟩ := ihrest inside last
      refine ⟨_, _, .caught hbody hrest, fun events => ?_⟩
      rw [start_attempt, hinner]
      simp [hstart, Mark.event?]
    | ok value =>
      obtain ⟨marks, outcome, hrest, hstart⟩ := ihrest inside value
      refine ⟨_, _, .attempted hbody hrest, fun events => ?_⟩
      rw [start_attempt, hinner]
      simp [hstart]

/-! ### Sections in the course of a program -/

/-- By how much a mark changes the number of open sections. -/
def Mark.opens : Mark → Int
  | .entered => 1
  | .left => -1
  | _ => 0

/-- The sections that were entered and not left yet. -/
def openSections : List Mark → Int
  | [] => 0
  | m :: marks => m.opens + openSections marks

/-- A mark fits to the number of sections that are open when it is made: a reading tells whether
one is, a section is entered when none is, and left or refused when one is. -/
def Mark.Fits (sections : Int) : Mark → Prop
  | .read held => (sections = 0 ∨ sections = 1) ∧ (held = true ↔ sections = 1)
  | .entered | .passed _ => sections = 0
  | .left | .refused => sections = 1
  | .caught _ => sections = 0 ∨ sections = 1

/-- With some sections open at first, every mark fits. -/
def Nested (sections : Int) (marks : List Mark) : Prop :=
  ∀ before m after, marks = before ++ m :: after → m.Fits (sections + openSections before)

@[simp] theorem openSections_nil : openSections [] = 0 := rfl

@[simp] theorem openSections_cons (m : Mark) (marks : List Mark) :
    openSections (m :: marks) = m.opens + openSections marks :=
  rfl

@[simp] theorem openSections_append (marks later : List Mark) :
    openSections (marks ++ later) = openSections marks + openSections later := by
  induction marks with
  | nil => simp
  | cons m marks ih => simp [ih, Int.add_assoc]

@[simp] theorem nested_nil (sections : Int) : Nested sections [] := by
  intro before m after h
  exact absurd h.symm (List.append_ne_nil_of_right_ne_nil _ (List.cons_ne_nil m after))

@[simp] theorem nested_cons {sections : Int} {m : Mark} {marks : List Mark} :
    Nested sections (m :: marks) ↔ m.Fits sections ∧ Nested (sections + m.opens) marks := by
  constructor
  · intro h
    refine ⟨?_, fun before next after hmarks => ?_⟩
    · simpa using h [] m marks rfl
    · have hnext := h (m :: before) next after (by rw [hmarks, List.cons_append])
      rwa [openSections_cons, ← Int.add_assoc] at hnext
  · rintro ⟨hm, hrest⟩ before next after hmarks
    obtain ⟨rfl, hfirst⟩ | ⟨between, rfl, hlater⟩ := List.cons_eq_append_iff.mp hmarks
    · obtain ⟨rfl, -⟩ := List.cons.inj hfirst
      simpa using hm
    · rw [openSections_cons, ← Int.add_assoc]
      exact hrest between next after hlater

@[simp] theorem nested_append {sections : Int} {marks later : List Mark} :
    Nested sections (marks ++ later) ↔
      Nested sections marks ∧ Nested (sections + openSections marks) later := by
  induction marks generalizing sections with
  | nil => simp
  | cons m marks ih => simp [ih, and_assoc, Int.add_assoc]

variable {inside : Bool} {program : List Command} {last : Value} {marks : List Mark}
  {outcome : Except Problem Value}

/-- Every section that is entered in the course of a program is left again. -/
theorem Proceeds.openSections_eq_zero (h : Proceeds inside program last marks outcome) :
    openSections marks = 0 := by
  induction h with
  | nil | fail | finish => rfl
  | read _ ih => simpa [Mark.opens] using ih
  | refused => rfl
  | entered _ _ ihbody ihrest => simp [Mark.opens, ihbody, ihrest]
  | interrupted _ ihbody => simp [Mark.opens, ihbody]
  | attempted _ _ ihbody ihrest => simp [ihbody, ihrest]
  | caught _ _ ihbody ihrest => simp [Mark.opens, ihbody, ihrest]

/-- Sections do not overlap, and readings tell whether one is open. -/
theorem Proceeds.nested (h : Proceeds inside program last marks outcome) :
    Nested inside.toInt marks := by
  induction h with
  | nil | fail | finish => exact nested_nil _
  | @read inside _ _ _ _ _ ih =>
    refine nested_cons.mpr ⟨?_, by simpa [Mark.opens] using ih⟩
    cases inside <;> simp [Mark.Fits]
  | refused => simp [Mark.Fits]
  | entered hbody hrest ihbody ihrest =>
    simp_all [Mark.Fits, Mark.opens, hbody.openSections_eq_zero]
  | interrupted hbody ihbody =>
    simp_all [Mark.Fits, Mark.opens, hbody.openSections_eq_zero]
  | attempted hbody _ ihbody ihrest =>
    exact nested_append.mpr ⟨ihbody, by rwa [hbody.openSections_eq_zero, Int.add_zero]⟩
  | @caught inside _ _ _ _ _ _ _ hbody _ ihbody ihrest =>
    refine nested_append.mpr ⟨ihbody, nested_cons.mpr ⟨?_, ?_⟩⟩
    · cases inside <;> simp [Mark.Fits, hbody.openSections_eq_zero]
    · simpa [Mark.opens, hbody.openSections_eq_zero] using ihrest

/-- The end of a program as an event. -/
def ending : Except Problem Value → Event
  | .ok value => .ended value
  | .error problem => .uncaught problem

theorem trace_eq {program : List Command}
    (h : (execute program .undefined).start ⟨.free, []⟩ = (outcome, ⟨⟨inside⟩, visible marks⟩)) :
    trace program = visible marks ++ [ending outcome, .held inside] := by
  rw [trace, h]
  cases outcome <;> rfl

/-- **Sections exclude each other in every program, however they nest.**  A program that starts with
a free latch proceeds as if there were none: sections do not overlap, every reading tells whether it
is made in one, and the latch is free at the end.  A section that is started while the latch is held
fails, runs nothing of its body and leaves the latch held.  One that is started while the latch is
free runs its body once and ends as that does, and the latch is free afterwards. -/
theorem sections_exclude (program : List Command) :
    (∃ marks outcome, Proceeds false program .undefined marks outcome ∧
      trace program = visible marks ++ [ending outcome, .held false] ∧
      openSections marks = 0 ∧
      ∀ before m after, marks = before ++ m :: after → m.Fits (openSections before)) ∧
    (∃ fault : ReplacerFault, fault.code = "replacer_reentered" ∧
      ∀ (body : Critical World Value) (events : List Event),
        (run body).start ⟨⟨true⟩, events⟩ = (.error (.fault fault), ⟨⟨true⟩, events⟩)) ∧
    ∃ marks outcome, Proceeds true program .undefined marks outcome ∧
      ∀ events : List Event,
        (execute program .undefined).start ⟨⟨true⟩, events⟩ =
          (outcome, ⟨⟨true⟩, events ++ visible marks⟩) ∧
        (run (execute program .undefined)).start ⟨⟨false⟩, events⟩ =
          (outcome, ⟨⟨false⟩, events ++ visible marks⟩) := by
  refine ⟨?_, ⟨.reentered, rfl, fun body events => run_of_held body rfl⟩, ?_⟩
  · obtain ⟨marks, outcome, hcourse, hstart⟩ := exists_course program false .undefined
    refine ⟨marks, outcome, hcourse, trace_eq (hstart []), hcourse.openSections_eq_zero, ?_⟩
    intro before m after hmarks
    simpa using hcourse.nested before m after hmarks
  · obtain ⟨marks, outcome, hcourse, hstart⟩ := exists_course program true .undefined
    exact ⟨marks, outcome, hcourse, fun events =>
      ⟨hstart events, start_run_of_body (hstart events)⟩⟩

/-- A failure to enter that is caught inside a section leaves the latch held up to its end. -/
example :
    trace [.attempt [.enter [.attempt [.enter [.read]], .read, .fail "late"]], .read] =
      [.caught (.fault .reentered), .held true, .caught (.error "late"), .held false,
        .ended .undefined, .held false] :=
  rfl

end Latch
end StorageKit
