/-
What courses keep.

An operation is made of steps, so what every step keeps holds in all states of its course.  Not
every step is taken for every reason:

* `Course.Always` — what holds in all states of a course;
* `KeptByForgetting` — what is kept when a frame is forgotten that may be evicted, which is all
  that an eviction and making room do;
* `KeptInPlace` — what is kept by the steps that change flags and pools only;
* `KeptByLaterSteps` — what is kept by all steps that come after the access of an operation is
  noted, in all states of its course (`KeptByLaterSteps.course`);
* `KeptBySteps` — **what every step keeps holds all along every course** (`KeptBySteps.course`).
-/
import StorageKit.Proofs.Course

namespace StorageKit
namespace Replacer

/-- A property of the states of a course: those it makes reports in, and the final one. -/
def Course.Always (P : Replacer → Prop) (c : Course) : Prop :=
  (∀ report ∈ c.reports, P report.2) ∧ P c.final

/-- A property that evictions and removals keep: they forget frames that may be evicted. -/
structure KeptByForgetting (P : Replacer → Prop) : Prop where
  forget : ∀ n r, r.isEvictable n = true → P r → P (forget n r)

/-- A property that every step keeps which neither notes an access nor forgets a frame. -/
structure KeptInPlace (P : Replacer → Prop) : Prop where
  enroll : ∀ n t r, P r → P (enroll n t r)
  age : ∀ f rank r, P r → P (age f rank r)
  pin : ∀ n r, P r → P (pin n r)
  unpin : ∀ n r, P r → P (unpin n r)

/-- A property that every step keeps which is not an access, whatever the reason for the step. -/
structure KeptByLaterSteps (P : Replacer → Prop) : Prop extends KeptByForgetting P, KeptInPlace P

/-- A property that every step keeps. -/
structure KeptBySteps (P : Replacer → Prop) : Prop extends KeptByLaterSteps P where
  touch : ∀ n r, n ≤ r.settings.numFrames → P r → P (touch n r)

section

variable {P : Replacer → Prop} {r : Replacer}

theorem KeptByForgetting.withoutVictim (hP : KeptByForgetting P) (h : P r) :
    P r.withoutVictim := by
  rw [Replacer.withoutVictim]
  cases hv : r.nextVictim with
  | none => exact h
  | some victim => exact hP.forget _ _ (nextVictim_spec hv) h

theorem KeptByForgetting.withRoom (hP : KeptByForgetting P) (h : P r) : P r.withRoom := by
  rw [Replacer.withRoom]
  split
  · exact hP.withoutVictim h
  · exact h

theorem KeptByForgetting.evictReports (hP : KeptByForgetting P) (h : P r) :
    ∀ report ∈ evictReports r, P report.2 := by
  rw [Replacer.evictReports]
  cases hv : r.nextVictim with
  | none => simp
  | some victim => simpa using hP.forget _ _ (nextVictim_spec hv) h

theorem KeptByForgetting.roomReports (hP : KeptByForgetting P) (f : FrameRef) (h : P r) :
    ∀ report ∈ roomReports f r, P report.2 := by
  intro report hr
  rw [Replacer.roomReports] at hr
  split at hr
  · rcases List.mem_append.mp hr with hr | hr
    · exact hP.evictReports h report hr
    · rw [List.mem_singleton.mp hr]
      exact hP.withoutVictim h
  · simp at hr

theorem KeptByForgetting.accessReports (hP : KeptByForgetting P) (f : FrameRef)
    (kind : AccessKind) (h : P (touch f.index r)) :
    ∀ report ∈ accessReports f kind r, P report.2 := by
  intro report hr
  rcases List.mem_cons.mp hr with rfl | hr
  · exact h
  · split at hr
    · exact hP.roomReports f h report hr
    · simp at hr

/-- A first access makes room before its frame is enrolled. -/
theorem KeptInPlace.accessed_of (hP : KeptInPlace P) (f : FrameRef)
    (hfirst : ((touch f.index r).recordOf f.index).accessCount = 1 →
      P (touch f.index r).withRoom)
    (hlater : ((touch f.index r).recordOf f.index).accessCount ≠ 1 → P (touch f.index r)) :
    P (accessed f r) := by
  unfold Replacer.accessed
  extract_lets t record u
  have hu : P u := by
    show P (if _ then _ else _)
    split
    · next h => exact hP.enroll _ _ _ (hfirst h)
    · next h => exact hlater h
  split
  · exact hP.age _ _ _ hu
  · exact hu

theorem KeptByLaterSteps.accessed (hP : KeptByLaterSteps P) (f : FrameRef)
    (h : P (touch f.index r)) : P (accessed f r) :=
  hP.accessed_of f (fun _ => hP.withRoom h) fun _ => h

/-- The replacer when the access of an operation is in the records, and before anything else. -/
def noted (op : Operation) (r : Replacer) : Replacer :=
  match touched r op with
  | some f => touch f.index r
  | none => r

theorem noted_of_touched {op : Operation} {f : FrameRef} (h : touched r op = some f) :
    noted op r = touch f.index r := by
  rw [noted, h]

theorem noted_of_not_touched {op : Operation} (h : touched r op = none) : noted op r = r := by
  rw [noted, h]

/-- A property that every later step keeps holds all along a course, once the access is noted. -/
theorem KeptByLaterSteps.course (hP : KeptByLaterSteps P) (op : Operation)
    (h : P (noted op r)) : (course op r).Always P := by
  revert h
  refine course_cases (Q := fun op c => P (noted op r) → c.Always P) op r ?_ ?_ ?_ ?_ ?_ ?_
  · intro op outcome hop h
    rw [noted_of_not_touched hop] at h
    exact ⟨by simp [Course.answer], h⟩
  · intro x kind f hx h
    have hop : touched r (.access x kind) = some f := hx
    rw [noted_of_touched hop] at h
    exact ⟨hP.accessReports f kind h, hP.accessed f h⟩
  · exact fun h => ⟨hP.evictReports h, hP.withoutVictim h⟩
  · exact fun _ f _ _ _ _ h => ⟨hP.roomReports f h, hP.unpin _ _ (hP.withRoom h)⟩
  · exact fun _ f _ _ _ _ h => ⟨by simp [Course.answer], hP.pin _ _ h⟩
  · intro _ f _ _ hf he h
    have hforget := hP.forget f.index r ((isEvictable_of_record? hf).trans he) h
    exact ⟨by simpa using hforget, hforget⟩

/-- A property that every step keeps holds all along a course. -/
theorem KeptBySteps.course (hP : KeptBySteps P) (h : P r) (op : Operation) :
    (course op r).Always P := by
  refine hP.toKeptByLaterSteps.course op ?_
  rw [noted]
  cases hop : touched r op with
  | none => exact h
  | some f =>
    cases op with
    | access x kind => exact hP.touch _ _ (frame?_spec hop).2 h
    | _ => cases hop

end

theorem kept_latch (latch : Latch) : KeptBySteps fun r => r.latch = latch where
  touch _ _ _ h := h
  enroll _ _ _ h := h
  age _ _ _ h := h
  forget _ _ _ h := h
  pin _ _ h := h
  unpin _ _ h := h

theorem kept_settings (settings : Settings) : KeptBySteps fun r => r.settings = settings where
  touch _ _ _ h := h
  enroll _ _ _ h := h
  age _ _ _ h := h
  forget _ _ _ h := h
  pin _ _ h := h
  unpin _ _ h := h

end Replacer
end StorageKit
