/-
Operations that fail, and what is left of them.

With a logger that does not fail, an operation fails only because it is refused, before it has done
anything:

* `Operation.frame?`, `Refused` — the operations that are refused, and why;
* `course_outcome_iff` — an operation fails exactly when it is refused;
* `answered` — the operations of a run that do not fail;
* `failures_invisible` — **without the operations that fail, a run has the same other outcomes and
  ends in the same state**.
-/
import StorageKit.Proofs.Histories

namespace StorageKit
namespace Replacer

variable {σ : Type} {r : Replacer} {op : Operation} {problem : Problem}

/-- The number by which an operation names a frame, if it is about one. -/
def Operation.frame? : Operation → Option Number
  | .access x _ | .setEvictable x _ | .remove x => some x
  | .evict | .size => none

/-- The operations that are refused: those that name a frame by a number which is not an integer
from `0` to `numFrames`, and removals of tracked frames that may not be evicted. -/
inductive Refused (r : Replacer) : Operation → ReplacerFault → Prop
  | outOfRange {op : Operation} {x : Number} (hx : op.frame? = some x)
      (hrange : ¬ ∃ n ≤ r.settings.numFrames, x.toNat? = some n) :
      Refused r op (.frameOutOfRange x (.ofNat r.settings.numFrames))
  | pinned {x : Number} {n : Nat} {f : FrameRecord} (hx : x.toNat? = some n)
      (hf : r.record? n = some f) (hpinned : f.evictable = false) :
      Refused r (.remove x) (.frameNotEvictable x)

/-! ### Courses -/

theorem frame?_eq_none_iff {x : Number} :
    r.frame? x = none ↔ ¬ ∃ n ≤ r.settings.numFrames, x.toNat? = some n := by
  constructor
  · rintro hnone ⟨n, hn, hx⟩
    obtain ⟨f, hf, -⟩ := frame?_of_toNat? hx hn
    rw [hnone] at hf
    cases hf
  · intro hrange
    cases hf : r.frame? x with
    | none => rfl
    | some f =>
      obtain ⟨hx, hn⟩ := frame?_spec hf
      exact absurd ⟨f.index, hn, hx⟩ hrange

/-- An operation on a frame is refused if there is no such frame; otherwise it depends on what the
operation does to the frame. -/
theorem onFrame_outcome_iff (hh : Histories r) {x : Number} {course : FrameRef → Course}
    (hx : op.frame? = some x)
    (hframe : ∀ f, r.frame? x = some f →
      ((course f).outcome = .error problem ↔
        ∃ fault, problem = .fault fault ∧ Refused r op fault)) :
    (onFrame x r course).outcome = .error problem ↔
      ∃ fault, problem = .fault fault ∧ Refused r op fault := by
  rw [onFrame]
  cases hf : r.frame? x with
  | some f => exact hframe f hf
  | none =>
    have hrange := frame?_eq_none_iff.mp hf
    constructor
    · intro h
      exact ⟨_, (Except.error.inj h).symm, .outOfRange hx hrange⟩
    · rintro ⟨fault, rfl, hrefused⟩
      cases hrefused with
      | outOfRange hx' _ =>
        obtain rfl := Option.some.inj (hx'.symm.trans hx)
        rfl
      | pinned hx' hrecord _ =>
        -- a tracked frame is in range
        obtain rfl := Option.some.inj hx
        exact absurd ⟨_, hh.inRange hrecord, hx'⟩ hrange

/-- An operation on a frame in range that is no removal is not refused. -/
theorem not_refused {x : Number} {f : FrameRef} {fault : ReplacerFault} (hx : op.frame? = some x)
    (hf : r.frame? x = some f) (hremove : op ≠ .remove x) : ¬ Refused r op fault := by
  obtain ⟨hnat, hle⟩ := frame?_spec hf
  intro hrefused
  cases hrefused with
  | outOfRange hx' hrange =>
    obtain rfl := Option.some.inj (hx'.symm.trans hx)
    exact hrange ⟨f.index, hle, hnat⟩
  | pinned =>
    obtain rfl := Option.some.inj hx
    exact hremove rfl

/-- A removal of a frame in range is refused if the frame is tracked and may not be evicted. -/
theorem refused_remove_iff {x : Number} {f : FrameRef} {fault : ReplacerFault}
    (hf : r.frame? x = some f) :
    Refused r (.remove x) fault ↔
      fault = .frameNotEvictable x ∧ ∃ g, r.record? f.index = some g ∧ g.evictable = false := by
  obtain ⟨hnat, hle⟩ := frame?_spec hf
  constructor
  · intro hrefused
    cases hrefused with
    | outOfRange hx hrange =>
      obtain rfl := Option.some.inj hx
      exact absurd ⟨f.index, hle, hnat⟩ hrange
    | pinned hx hrecord hpinned =>
      obtain rfl := Option.some.inj (hx.symm.trans hnat)
      exact ⟨rfl, _, hrecord, hpinned⟩
  · rintro ⟨rfl, g, hg, hpinned⟩
    exact .pinned hnat hg hpinned

/-- **An operation fails exactly when it is refused.** -/
theorem course_outcome_iff (hh : Histories r) :
    (course op r).outcome = .error problem ↔
      ∃ fault, problem = .fault fault ∧ Refused r op fault := by
  cases op with
  | access x kind =>
    refine onFrame_outcome_iff hh rfl fun f hf => ⟨nofun, ?_⟩
    rintro ⟨fault, -, hrefused⟩
    exact absurd hrefused (not_refused rfl hf nofun)
  | evict =>
    refine ⟨nofun, ?_⟩
    rintro ⟨fault, -, ⟨hx, -⟩⟩
    cases hx
  | setEvictable x evictable =>
    refine onFrame_outcome_iff hh rfl fun f hf => ⟨fun h => ?_, ?_⟩
    · -- whatever becomes of the frame, the operation is answered
      cases hn : r.record? f.index with
      | none =>
        rw [hn] at h
        cases h
      | some record =>
        rw [hn] at h
        dsimp only at h
        split at h
        · cases h
        · split at h <;> cases h
    · rintro ⟨fault, -, hrefused⟩
      exact absurd hrefused (not_refused rfl hf nofun)
  | remove x =>
    refine onFrame_outcome_iff hh rfl fun f hf => ?_
    simp only [refused_remove_iff hf]
    cases hn : r.record? f.index with
    | none =>
      refine ⟨nofun, ?_⟩
      rintro ⟨-, -, -, g, hg, -⟩
      cases hg
    | some record =>
      dsimp only
      cases hevictable : record.evictable with
      | true =>
        refine ⟨nofun, ?_⟩
        rintro ⟨-, -, -, g, hg, hpinned⟩
        obtain rfl := Option.some.inj hg
        rw [hevictable] at hpinned
        cases hpinned
      | false =>
        constructor
        · intro h
          exact ⟨_, (Except.error.inj h).symm, rfl, record, rfl, hevictable⟩
        · rintro ⟨fault, rfl, rfl, -⟩
          rfl
  | size =>
    refine ⟨nofun, ?_⟩
    rintro ⟨fault, -, ⟨hx, -⟩⟩
    cases hx

/-- A course that ends with a failure reports nothing and changes nothing. -/
theorem course_of_error (h : (course op r).outcome = .error problem) :
    course op r = .answer (.error problem) r := by
  revert h
  refine course_cases
    (Q := fun _ c => c.outcome = .error problem → c = .answer (.error problem) r) op r
    ?_ ?_ ?_ ?_ ?_ ?_
  · intro _ outcome _ h
    exact congrArg (Course.answer · r) h
  · exact fun _ _ _ _ h => nomatch h
  · exact fun h => nomatch h
  · exact fun _ _ _ _ _ _ h => nomatch h
  · exact fun _ _ _ _ _ _ h => nomatch h
  · exact fun _ _ _ _ _ _ h => nomatch h

/-! ### Runs -/

variable {logger : Logger σ} {s : Observed σ}

/-- With a logger that does not fail, an operation that fails leaves everything as it is, the memory
of the logger included. -/
theorem run_of_error (hl : logger.Steady) (hfree : s.replacer.latch = .free)
    (h : (run logger op s).1 = .error problem) : run logger op s = (.error problem, s) := by
  rw [(run_of_steady hl op hfree).1] at h
  rw [run_eq_follow logger op hfree, course_of_error h]
  rfl

/-- The operations of a run that do not fail. -/
def answered (logger : Logger σ) (ops : List Operation) (s : Observed σ) : List Operation :=
  ((ops.zip (runAll logger ops s).1).filter fun p => p.2.isOk).map Prod.fst

theorem runAll_answered (hl : logger.Steady) (ops : List Operation)
    (hfree : s.replacer.latch = .free) :
    runAll logger (answered logger ops s) s =
      ((runAll logger ops s).1.filter Except.isOk, (runAll logger ops s).2) := by
  induction ops generalizing s with
  | nil => rfl
  | cons op rest ih =>
    have hrest := ih (latch_run logger op hfree)
    rw [answered, runAll_cons, List.zip_cons_cons, List.filter_cons, List.filter_cons]
    cases houtcome : (run logger op s).1 with
    | ok answer =>
      have hok : (Except.ok answer : Except Problem Answer).isOk = true := rfl
      rw [if_pos hok, if_pos hok, List.map_cons, runAll_cons, houtcome]
      exact congrArg (fun result => (.ok answer :: result.1, result.2)) hrest
    | error problem =>
      -- the rest of the run begins where the operation began
      have hfailed : ¬ (Except.error problem : Except Problem Answer).isOk = true := nofun
      rw [if_neg hfailed, if_neg hfailed]
      rw [run_of_error hl hfree houtcome] at hrest ⊢
      exact hrest

/-- **Failing operations are invisible.**  In a run with a logger that does not fail, an operation
fails exactly when it is refused, which no eviction and no request for the size is; and without the
operations that fail, all others have the same outcomes and the run ends in the same state. -/
theorem failures_invisible (hl : logger.Steady) (settings : Settings) (memory : σ)
    (ops : List Operation) :
    let start : Observed σ := ⟨new settings, memory⟩
    (∀ op problem, (run logger op (runAll logger ops start).2).1 = .error problem ↔
      ∃ fault, problem = .fault fault ∧ Refused (runAll logger ops start).2.replacer op fault) ∧
    (∀ op ∈ [Operation.evict, Operation.size],
      (run logger op (runAll logger ops start).2).1.isOk = true) ∧
    runAll logger (answered logger ops start) start =
      ((runAll logger ops start).1.filter Except.isOk, (runAll logger ops start).2) := by
  intro start
  have hfree := latch_runAll logger ops (s := start) rfl
  have hh := kept_histories.runAll logger ops (s := start) (histories_new settings) rfl
  refine ⟨fun op problem => ?_, fun op hop => ?_, runAll_answered hl ops rfl⟩
  · rw [(run_of_steady hl op hfree).1]
    exact course_outcome_iff hh
  · rw [(run_of_steady hl op hfree).1]
    rcases List.mem_pair.mp hop with rfl | rfl <;> rfl

/-- A run in which a pinned frame is not removed, and two operations name no frame. -/
theorem failures_invisible_asking :
    let ops : List Operation := [.access (.ofNat 1) .scan, .setEvictable (.ofNat 1) false,
      .remove (.ofNat 1), .access (.ofNat 3) .index, .remove .nan, .access (.ofNat 2) .scan, .evict]
    let start : Observed Nat := ⟨new ⟨2, 2, by decide, by decide⟩, 0⟩
    Logger.asking.Steady ∧
    answered Logger.asking ops start =
      [.access (.ofNat 1) .scan, .setEvictable (.ofNat 1) false, .access (.ofNat 2) .scan, .evict] ∧
    runAll Logger.asking
        [.access (.ofNat 1) .scan, .setEvictable (.ofNat 1) false, .access (.ofNat 2) .scan, .evict]
        start =
      ([.ok .done, .ok .done, .ok .done, .ok (.victim (some 2))],
        (runAll Logger.asking ops start).2) ∧
    (run Logger.asking (.remove (.ofNat 1)) (runAll Logger.asking ops start).2).1 =
      .error (.fault (.frameNotEvictable (.ofNat 1))) := by
  intro ops start
  obtain ⟨hfails, -, herased⟩ :=
    failures_invisible Logger.steady_asking ⟨2, 2, by decide, by decide⟩ 0 ops
  have hanswered : answered Logger.asking ops start =
      [.access (.ofNat 1) .scan, .setEvictable (.ofNat 1) false, .access (.ofNat 2) .scan,
        .evict] := by decide
  refine ⟨Logger.steady_asking, hanswered, ?_, ?_⟩
  · rw [← hanswered]
    exact herased
  · exact (hfails _ _).mpr ⟨_, rfl, .pinned (n := 1) (f := ⟨[1], 1, false, false⟩) (by decide)
      (by decide) rfl⟩

end Replacer
end StorageKit
