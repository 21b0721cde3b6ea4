/-
Operations as courses.

An operation alternates between steps and reports, and a report whose handling fails cuts it
short.  Its course is what happens as long as nothing fails: every report together with the state
it is made in, the outcome, and the final state.

* `Replacer.course` — the course of an operation from a state, and `course_cases`;
* `Replacer.follow` — a course cut short by a logger;
* `body_follows` — what an operation does inside its critical section, with any logger, is its
  course up to the first report whose handling fails.

Design notes: a logger may call the replacer, but it only gets to run while an operation holds the
latch, so every such call is refused (`Reaction.settle`).  Courses leave the latch out; `hold` puts
it back where a logger looks at the state.
-/
import StorageKit.Replacer.Logger
import StorageKit.Proofs.Steps

namespace StorageKit

/-! ### Loggers while an operation runs -/

namespace Replacer

/-- The replacer while an operation runs. -/
def hold (r : Replacer) : Replacer := { r with latch := ⟨true⟩ }

/-- A call from inside an operation is refused and changes nothing. -/
theorem quietly_of_held (op : Operation) {r : Replacer} (h : r.latch.held = true) :
    quietly op r = (.error (.fault .reentered), r) := by
  have hs : (Latched.latch (⟨r, ()⟩ : Observed Unit)).held = true := h
  rw [quietly, perform, Latch.run_of_held _ hs]

end Replacer

namespace Reaction

variable {σ : Type}

/-- What a reaction comes to while an operation runs: every call it makes is refused. -/
def settle : Reaction σ → Replacer → Except Problem Unit × σ
  | .done memory, _ => (.ok (), memory)
  | .fail problem memory, _ => (.error problem, memory)
  | .look next, r => settle (next r) r
  | .call _ next, r => settle (next (.error (.fault .reentered))) r

/-- While an operation runs, no reaction changes the replacer. -/
theorem run_of_held (reaction : Reaction σ) {r : Replacer} (h : r.latch.held = true) :
    reaction.run r = ((reaction.settle r).1, ⟨r, (reaction.settle r).2⟩) := by
  induction reaction with
  | done memory => rfl
  | fail problem memory => rfl
  | look next ih => exact ih r
  | call op next ih =>
    rw [run, Replacer.quietly_of_held op h]
    exact ih (.error (.fault .reentered))

end Reaction

namespace Replacer

variable {σ α β : Type}

/-! ### Following a course -/

/-- A course cut short by a logger: the reports are handled one after another, and the first whose
handling fails is the end. -/
def follow (logger : Logger σ) (outcome : Except Problem α) (final : Replacer) :
    List (Entry × Replacer) → σ → Except Problem α × Observed σ
  | [], memory => (outcome, ⟨final, memory⟩)
  | (entry, r) :: rest, memory =>
    match (logger entry memory).settle r.hold with
    | (.ok (), memory) => follow logger outcome final rest memory
    | (.error problem, memory) => (.error problem, ⟨r, memory⟩)

/-- From a state with the latch held, a computation follows a course. -/
def Follows (logger : Logger σ) (c : Critical (Observed σ) α) (r : Replacer)
    (reports : List (Entry × Replacer)) (outcome : Except Problem α) (final : Replacer) : Prop :=
  ∀ memory, c.start ⟨r.hold, memory⟩ =
    ((follow logger outcome final reports memory).1,
      ⟨(follow logger outcome final reports memory).2.replacer.hold,
        (follow logger outcome final reports memory).2.memory⟩)

namespace Follows

variable {logger : Logger σ} {r final final' : Replacer}
  {reports reports' : List (Entry × Replacer)}

theorem pure (a : α) : Follows logger (Pure.pure a) r [] (.ok a) r := fun _ => rfl

theorem throw (p : Problem) :
    Follows logger (MonadExcept.throw p : Critical (Observed σ) α) r [] (.error p) r :=
  fun _ => rfl

/-- What comes after a computation that reaches its end. -/
theorem bind {c : Critical (Observed σ) α} {f : α → Critical (Observed σ) β} {a : α}
    {outcome : Except Problem β} (hc : Follows logger c r reports (.ok a) final)
    (hf : Follows logger (f a) final reports' outcome final') :
    Follows logger (c >>= f) r (reports ++ reports') outcome final' := by
  intro memory
  rw [Critical.start_bind, hc memory]
  clear hc
  -- both sides end at the first report of the first part whose handling fails
  induction reports generalizing memory with
  | nil => exact hf memory
  | cons report rest ih =>
    obtain ⟨entry, s⟩ := report
    rw [List.cons_append, follow, follow]
    rcases (logger entry memory).settle s.hold with ⟨_ | _, m⟩
    · rfl
    · exact ih m

theorem silent_bind {c : Critical (Observed σ) α} {f : α → Critical (Observed σ) β} {a : α}
    {outcome : Except Problem β} (hc : Follows logger c r [] (.ok a) final)
    (hf : Follows logger (f a) final reports outcome final') :
    Follows logger (c >>= f) r reports outcome final' :=
  bind hc hf

theorem bind_silent {c : Critical (Observed σ) α} {f : α → Critical (Observed σ) β} {a : α}
    {outcome : Except Problem β} (hc : Follows logger c r reports (.ok a) final)
    (hf : Follows logger (f a) final [] outcome final') :
    Follows logger (c >>= f) r reports outcome final' := by
  have h := bind hc hf
  rwa [List.append_nil] at h

theorem bind_error {c : Critical (Observed σ) α} {f : α → Critical (Observed σ) β} {p : Problem}
    (hc : Follows logger c r [] (.error p) final) :
    Follows logger (c >>= f) r [] (.error p) final := by
  intro memory
  rw [Critical.start_bind, hc memory]
  rfl

theorem current : Follows logger Replacer.current r [] (.ok r.hold) r := fun _ => rfl

/-- A step that has nothing to do with the latch. -/
theorem update {g : Replacer → Replacer} (hg : g r.hold = (g r).hold) :
    Follows logger (Replacer.update g) r [] (.ok ()) (g r) := by
  intro memory
  rw [follow, ← hg]
  rfl

theorem emit (entry : Entry) : Follows logger (logger.emit entry) r [(entry, r)] (.ok ()) r := by
  intro memory
  have hheld : r.hold.latch.held = true := rfl
  rw [Logger.emit, Critical.start_ofFun, Reaction.run_of_held _ hheld, follow]
  rcases (logger entry memory).settle r.hold with ⟨_ | _, m⟩ <;> rfl

theorem emit_bind {entry : Entry} {f : Unit → Critical (Observed σ) β}
    {outcome : Except Problem β} (hf : Follows logger (f ()) r reports outcome final) :
    Follows logger (logger.emit entry >>= f) r ((entry, r) :: reports) outcome final :=
  bind (emit entry) hf

end Follows

/-! ### The courses of the operations -/

/-- What an operation does as long as nothing fails. -/
structure Course where
  /-- The reports, each with the state it is made in. -/
  reports : List (Entry × Replacer)
  outcome : Except Problem Answer
  final : Replacer

/-- The replacer without its next victim. -/
def withoutVictim (r : Replacer) : Replacer :=
  match r.nextVictim with
  | none => r
  | some victim => forget victim.index r

/-- The replacer with room for one more frame that may be evicted. -/
def withRoom (r : Replacer) : Replacer := if r.isFull then r.withoutVictim else r

/-- The report of an eviction, if there is one. -/
def evictReports (r : Replacer) : List (Entry × Replacer) :=
  match r.nextVictim with
  | none => []
  | some victim => [(.evicted victim, forget victim.index r)]

/-- The reports of making room for a frame. -/
def roomReports (f : FrameRef) (r : Replacer) : List (Entry × Replacer) :=
  if r.isFull then evictReports r ++ [(.madeRoom f r.nextVictim, r.withoutVictim)] else []

/-- The replacer after an access to a frame. -/
def accessed (f : FrameRef) (r : Replacer) : Replacer :=
  let t := touch f.index r
  let record := t.recordOf f.index
  let u := if record.accessCount = 1 then enroll f.index t.clock t.withRoom else t
  if t.settings.k ≤ record.accessCount then age f (record.history.head?.getD t.clock) u else u

/-- The reports of an access to a frame. -/
def accessReports (f : FrameRef) (kind : AccessKind) (r : Replacer) : List (Entry × Replacer) :=
  let t := touch f.index r
  (.accessed f kind t.clock, t) ::
    if (t.recordOf f.index).accessCount = 1 then roomReports f t else []

/-- A course that only answers. -/
def Course.answer (outcome : Except Problem Answer) (r : Replacer) : Course := ⟨[], outcome, r⟩

/-- The course of an operation on a frame, which fails if there is no such frame. -/
def onFrame (x : Number) (r : Replacer) (course : FrameRef → Course) : Course :=
  match r.frame? x with
  | none => .answer (.error (.fault (.frameOutOfRange x (.ofNat r.settings.numFrames)))) r
  | some f => course f

/-- The course of an operation. -/
def course : Operation → Replacer → Course
  | .access x kind, r =>
    onFrame x r fun f => ⟨accessReports f kind r, .ok .done, accessed f r⟩
  | .evict, r =>
    ⟨evictReports r, .ok (.victim (r.nextVictim.map FrameRef.index)), r.withoutVictim⟩
  | .setEvictable x evictable, r =>
    onFrame x r fun f =>
      match r.record? f.index with
      | none => .answer (.ok .done) r
      | some record =>
        if record.evictable = evictable then .answer (.ok .done) r
        else if evictable then ⟨roomReports f r, .ok .done, unpin f.index r.withRoom⟩
        else .answer (.ok .done) (pin f.index r)
  | .remove x, r =>
    onFrame x r fun f =>
      match r.record? f.index with
      | none => .answer (.ok .done) r
      | some record =>
        if record.evictable then
          ⟨[(.removed f, forget f.index r)], .ok .done, forget f.index r⟩
        else .answer (.error (.fault (.frameNotEvictable x))) r
  | .size, r => .answer (.ok (.size r.evictableCount)) r

/-- The frame in range that an operation accesses, if it is an access. -/
def touched (r : Replacer) : Operation → Option FrameRef
  | .access x _ => r.frame? x
  | _ => none

/-- The courses there are.  An operation that does more than to answer is an access to a frame in
range, an eviction, or it unpins, pins or removes a tracked frame. -/
theorem course_cases {Q : Operation → Course → Prop} (op : Operation) (r : Replacer)
    (answer : ∀ op outcome, touched r op = none → Q op (.answer outcome r))
    (access : ∀ x kind f, r.frame? x = some f →
      Q (.access x kind) ⟨accessReports f kind r, .ok .done, accessed f r⟩)
    (evict : Q .evict
      ⟨evictReports r, .ok (.victim (r.nextVictim.map FrameRef.index)), r.withoutVictim⟩)
    (unpin : ∀ x f record, r.frame? x = some f → r.record? f.index = some record →
      record.evictable = false →
      Q (.setEvictable x true) ⟨roomReports f r, .ok .done, unpin f.index r.withRoom⟩)
    (pin : ∀ x f record, r.frame? x = some f → r.record? f.index = some record →
      record.evictable = true →
      Q (.setEvictable x false) (.answer (.ok .done) (pin f.index r)))
    (remove : ∀ x f record, r.frame? x = some f → r.record? f.index = some record →
      record.evictable = true →
      Q (.remove x) ⟨[(.removed f, forget f.index r)], .ok .done, forget f.index r⟩) :
    Q op (course op r) := by
  have honFrame : ∀ {op x c}, (r.frame? x = none → touched r op = none) →
      (∀ f, r.frame? x = some f → Q op (c f)) → Q op (onFrame x r c) := by
    intro op x c hnone hc
    rw [onFrame]
    cases hx : r.frame? x with
    | none => exact answer op _ (hnone hx)
    | some f => exact hc f hx
  cases op with
  | access x kind => exact honFrame (fun hx => hx) fun f hx => access x kind f hx
  | evict => exact evict
  | setEvictable x evictable =>
    refine honFrame (fun _ => rfl) fun f hx => ?_
    cases hf : r.record? f.index with
    | none => exact answer _ _ rfl
    | some record =>
      dsimp only
      by_cases hsame : record.evictable = evictable
      · rw [if_pos hsame]
        exact answer _ _ rfl
      · rw [if_neg hsame]
        cases evictable with
        | true => exact unpin x f record hx hf (by simpa using hsame)
        | false => exact pin x f record hx hf (by simpa using hsame)
  | remove x =>
    refine honFrame (fun _ => rfl) fun f hx => ?_
    cases hf : r.record? f.index with
    | none => exact answer _ _ rfl
    | some record =>
      dsimp only
      by_cases he : record.evictable = true
      · rw [if_pos he]
        exact remove x f record hx hf he
      · rw [if_neg he]
        exact answer _ _ rfl
  | size => exact answer _ _ rfl

/-- Making room leaves the records of all frames that may not be evicted. -/
theorem record?_withoutVictim {r : Replacer} {n : Nat} (h : r.isEvictable n = false) :
    r.withoutVictim.record? n = r.record? n := by
  rw [withoutVictim]
  cases hv : r.nextVictim with
  | none => rfl
  | some victim =>
    -- the victim may be evicted, so it is another frame
    have hne : n ≠ victim.index := by
      rintro rfl
      rw [nextVictim_spec hv] at h
      exact absurd h (by simp)
    show (forget victim.index r).record? n = _
    rw [record?_forget, Function.update_of_ne hne]

theorem record?_withRoom {r : Replacer} {n : Nat} (h : r.isEvictable n = false) :
    r.withRoom.record? n = r.record? n := by
  rw [withRoom]
  split
  · exact record?_withoutVictim h
  · rfl

/-- There is room for one more frame once it is made, if there was a victim when it was needed. -/
theorem evictableCount_withRoom_lt {r : Replacer} (hle : r.evictableCount ≤ r.settings.numFrames)
    (hvictim : 0 < r.evictableCount → ∃ victim, r.nextVictim = some victim) :
    r.withRoom.evictableCount < r.settings.numFrames := by
  have hpos := r.settings.numFrames_pos
  rw [withRoom, isFull]
  split
  · next hfull =>
    have hfull : r.settings.numFrames ≤ r.evictableCount := of_decide_eq_true hfull
    obtain ⟨victim, hv⟩ := hvictim (by omega)
    rw [withoutVictim, hv]
    show r.evictableCount - 1 < _
    omega
  · next hfree => simpa using hfree

/-! ### Operations follow their courses -/

section

variable {logger : Logger σ} {r : Replacer}

theorem evictOne_follows :
    Follows logger (evictOne logger.emit) r (evictReports r) (.ok r.nextVictim)
      r.withoutVictim := by
  rw [evictOne, evictReports, withoutVictim]
  refine Follows.silent_bind Follows.current ?_
  rw [show r.hold.nextVictim = r.nextVictim from rfl]
  cases r.nextVictim with
  | none => exact Follows.pure none
  | some victim =>
    refine Follows.silent_bind (Follows.update rfl) ?_
    exact Follows.bind (Follows.emit _) (Follows.pure _)

theorem makeRoom_follows (f : FrameRef) :
    Follows logger (makeRoom logger.emit f) r (roomReports f r) (.ok ()) r.withRoom := by
  rw [makeRoom, roomReports, withRoom]
  refine Follows.silent_bind Follows.current ?_
  rw [show r.hold.isFull = r.isFull from rfl]
  by_cases h : r.isFull = true
  · rw [if_pos h, if_pos h, if_pos h]
    exact Follows.bind evictOne_follows (Follows.emit _)
  · rw [if_neg h, if_neg h, if_neg h]
    exact Follows.pure ()

theorem inRange_of_some {x : Number} {f : FrameRef} (h : r.frame? x = some f) :
    Follows logger (inRange x) r [] (.ok f) r := by
  rw [inRange]
  refine Follows.silent_bind Follows.current ?_
  rw [show r.hold.frame? x = r.frame? x from rfl, h]
  exact Follows.pure f

theorem inRange_of_none {x : Number} (h : r.frame? x = none) :
    Follows logger (inRange x) r []
      (.error (.fault (.frameOutOfRange x (.ofNat r.settings.numFrames)))) r := by
  rw [inRange]
  refine Follows.silent_bind Follows.current ?_
  rw [show r.hold.frame? x = r.frame? x from rfl, h]
  exact Follows.throw _

/-- An operation on a frame that answers nothing. -/
theorem onFrame_follows {x : Number} {next : FrameRef → Critical (Observed σ) Unit}
    {course : FrameRef → Course}
    (h : ∀ f, Follows logger (next f >>= fun _ => Pure.pure Answer.done) r (course f).reports
      (course f).outcome (course f).final) :
    Follows logger ((inRange x >>= next) >>= fun _ => Pure.pure Answer.done) r
      (onFrame x r course).reports (onFrame x r course).outcome (onFrame x r course).final := by
  rw [onFrame]
  cases hx : r.frame? x with
  | none => exact Follows.bind_error (Follows.bind_error (inRange_of_none hx))
  | some f =>
    rw [bind_assoc]
    exact Follows.silent_bind (inRange_of_some hx) (h f)

theorem aging_follows (f : FrameRef) (rank : Nat) (p : Prop) [Decidable p] :
    Follows logger (if p then update (age f rank) else Pure.pure ()) r [] (.ok ())
      (if p then age f rank r else r) := by
  by_cases h : p
  · rw [if_pos h, if_pos h]
    exact Follows.update rfl
  · rw [if_neg h, if_neg h]
    exact Follows.pure ()

theorem body_follows (op : Operation) :
    Follows logger (body logger.emit op) r (course op r).reports (course op r).outcome
      (course op r).final := by
  cases op with
  | access x kind =>
    refine onFrame_follows fun f => ?_
    rw [accessReports, accessed]
    simp only [bind_assoc]
    refine Follows.silent_bind (Follows.update rfl) ?_
    refine Follows.silent_bind Follows.current ?_
    refine Follows.emit_bind (Follows.bind_silent (a := ()) ?_ (Follows.pure _))
    -- what was read of the record before the report decides the rest
    rw [show (touch f.index r).hold.recordOf f.index = (touch f.index r).recordOf f.index from rfl]
    by_cases hfirst : ((touch f.index r).recordOf f.index).accessCount = 1
    · rw [if_pos hfirst, if_pos hfirst, if_pos hfirst]
      refine Follows.bind_silent (makeRoom_follows f) ?_
      exact Follows.silent_bind (Follows.update rfl) (aging_follows f _ _)
    · rw [if_neg hfirst, if_neg hfirst, if_neg hfirst]
      exact aging_follows f _ _
  | evict => exact Follows.bind_silent evictOne_follows (Follows.pure _)
  | setEvictable x evictable =>
    refine onFrame_follows fun f => ?_
    rw [bind_assoc]
    refine Follows.silent_bind Follows.current ?_
    rw [show r.hold.record? f.index = r.record? f.index from rfl]
    cases r.record? f.index with
    | none => exact Follows.pure _
    | some record =>
      by_cases hsame : record.evictable = evictable
      · simp only [if_pos hsame]
        exact Follows.pure _
      · simp only [if_neg hsame]
        cases evictable with
        | true =>
          refine Follows.bind_silent (a := ()) ?_ (Follows.pure _)
          exact Follows.bind_silent (makeRoom_follows f) (Follows.update rfl)
        | false => exact Follows.silent_bind (Follows.update rfl) (Follows.pure _)
  | remove x =>
    refine onFrame_follows fun f => ?_
    rw [bind_assoc]
    refine Follows.silent_bind Follows.current ?_
    rw [show r.hold.record? f.index = r.record? f.index from rfl]
    cases r.record? f.index with
    | none => exact Follows.pure _
    | some record =>
      by_cases hevictable : record.evictable = true
      · simp only [if_pos hevictable]
        rw [bind_assoc]
        refine Follows.silent_bind (Follows.update rfl) ?_
        exact Follows.emit_bind (Follows.pure _)
      · simp only [if_neg hevictable]
        exact Follows.bind_error (Follows.throw _)
  | size => exact Follows.silent_bind Follows.current (Follows.pure _)

end

end Replacer
end StorageKit
