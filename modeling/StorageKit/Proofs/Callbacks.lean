/-
Calls from loggers, and kinds of accesses, have no influence.

A logger may call the operations of the replacer that is running.  Beside a run all these calls are
kept, each with what it found and left:

* `Replacer.NestedCall`, `Logger.audited` — a call from inside an operation, and a logger that keeps
  the calls it makes;
* `Replacer.nestedCalls` — the calls that a logger makes in a run, all of them refused
  (`refused_runAll`);
* `Replacer.trace` — the outcome of every operation, with the state it leaves;
* `Operation.withoutKind` — an operation with the kind of its access forgotten;
* `callbacks_and_kinds_without_influence` — **a run with a logger that does not fail leaves the same
  trace as a run with a silent one, whatever the kinds of the accesses are**.
-/
import StorageKit.Proofs.Runs

namespace StorageKit

namespace Replacer

/-- A call from inside an operation: what was asked, the state before and after it, and its
outcome. -/
structure NestedCall where
  op : Operation
  before : Replacer
  outcome : Except Problem Answer
  after : Replacer

/-- The call fails since an operation is running, and changes nothing. -/
def NestedCall.Refused (call : NestedCall) : Prop :=
  call.outcome = .error (.fault .reentered) ∧ call.after = call.before

end Replacer

open Replacer (NestedCall)

variable {σ τ α : Type}

namespace Reaction

/-- The same reaction, which in addition keeps its calls after those that were made before. -/
def audited (calls : List NestedCall) : Reaction σ → Reaction (σ × List NestedCall)
  | .done memory => .done (memory, calls)
  | .fail problem memory => .fail problem (memory, calls)
  | .look next => .look fun r => (next r).audited calls
  | .call op next =>
    .look fun before => .call op fun outcome => .look fun after =>
      (next outcome).audited (calls ++ [⟨op, before, outcome, after⟩])

/-- Keeping its calls changes nothing about a reaction, and while an operation runs all of them are
refused. -/
theorem settle_audited (reaction : Reaction σ) (calls : List NestedCall) (r : Replacer) :
    ∃ more : List NestedCall, (∀ call ∈ more, call.Refused) ∧
      (reaction.audited calls).settle r =
        ((reaction.settle r).1, ((reaction.settle r).2, calls ++ more)) := by
  induction reaction generalizing calls with
  | done memory => exact ⟨[], by simp, by rw [List.append_nil]; rfl⟩
  | fail problem memory => exact ⟨[], by simp, by rw [List.append_nil]; rfl⟩
  | look next ih => exact ih r calls
  | call op next ih =>
    obtain ⟨more, hmore, hsettle⟩ :=
      ih (.error (.fault .reentered)) (calls ++ [⟨op, r, .error (.fault .reentered), r⟩])
    refine ⟨⟨op, r, .error (.fault .reentered), r⟩ :: more, ?_, ?_⟩
    · intro call hcall
      rcases List.mem_cons.mp hcall with rfl | hcall
      · exact ⟨rfl, rfl⟩
      · exact hmore call hcall
    · rw [List.append_cons]
      exact hsettle

end Reaction

namespace Logger

/-- A logger that in addition keeps the calls it makes. -/
def audited (logger : Logger σ) : Logger (σ × List NestedCall) := fun entry memory =>
  (logger entry memory.1).audited memory.2

theorem steady_silent : (silent : Logger σ).Steady := by
  intro entry memory r _
  rfl

end Logger

namespace Replacer

variable {logger : Logger σ} {logger' : Logger τ} {s : Observed σ} {s' : Observed τ}
  {op op' : Operation} {ops ops' : List Operation}

/-! ### Calls from inside operations -/

theorem follow_audited (logger : Logger σ) (outcome : Except Problem α) (final : Replacer)
    (reports : List (Entry × Replacer)) (memory : σ) (calls : List NestedCall) :
    ∃ more : List NestedCall, (∀ call ∈ more, call.Refused) ∧
      follow logger.audited outcome final reports (memory, calls) =
        ((follow logger outcome final reports memory).1,
          ⟨(follow logger outcome final reports memory).2.replacer,
            ((follow logger outcome final reports memory).2.memory, calls ++ more)⟩) := by
  induction reports generalizing memory calls with
  | nil => exact ⟨[], by simp, by rw [List.append_nil]; rfl⟩
  | cons report rest ih =>
    obtain ⟨entry, r⟩ := report
    obtain ⟨made, hmade, hsettle⟩ := (logger entry memory).settle_audited calls r.hold
    rw [follow, follow, Logger.audited, hsettle]
    rcases (logger entry memory).settle r.hold with ⟨problem | _, m⟩
    · exact ⟨made, hmade, rfl⟩
    · obtain ⟨more, hmore, hfollow⟩ := ih m (calls ++ made)
      refine ⟨made ++ more, fun call hcall => ?_, ?_⟩
      · exact (List.mem_append.mp hcall).elim (hmade call) (hmore call)
      · rw [← List.append_assoc]
        exact hfollow

theorem run_audited (logger : Logger σ) (op : Operation) (h : s.replacer.latch = .free)
    (calls : List NestedCall) :
    ∃ more : List NestedCall, (∀ call ∈ more, call.Refused) ∧
      run logger.audited op ⟨s.replacer, (s.memory, calls)⟩ =
        ((run logger op s).1, ⟨(run logger op s).2.replacer,
          ((run logger op s).2.memory, calls ++ more)⟩) := by
  rw [run_eq_follow logger op h, run_eq_follow logger.audited op h]
  exact follow_audited logger _ _ _ s.memory calls

/-- **All calls that a logger makes in a run are refused**, and keeping them changes nothing about
the run. -/
theorem refused_runAll (logger : Logger σ) (ops : List Operation)
    (h : s.replacer.latch = .free) (calls : List NestedCall) :
    ∃ more : List NestedCall, (∀ call ∈ more, call.Refused) ∧
      runAll logger.audited ops ⟨s.replacer, (s.memory, calls)⟩ =
        ((runAll logger ops s).1, ⟨(runAll logger ops s).2.replacer,
          ((runAll logger ops s).2.memory, calls ++ more)⟩) := by
  induction ops generalizing s calls with
  | nil => exact ⟨[], by simp, by rw [List.append_nil]; rfl⟩
  | cons op rest ih =>
    obtain ⟨made, hmade, hrun⟩ := run_audited logger op h calls
    obtain ⟨more, hmore, hrest⟩ := ih (latch_run logger op h) (calls ++ made)
    refine ⟨made ++ more, fun call hcall => ?_, ?_⟩
    · exact (List.mem_append.mp hcall).elim (hmade call) (hmore call)
    · rw [runAll_cons, runAll_cons, hrun]
      dsimp only
      rw [hrest, List.append_assoc]

/-- The calls that a logger makes in a run. -/
def nestedCalls (logger : Logger σ) (ops : List Operation) (s : Observed σ) : List NestedCall :=
  (runAll logger.audited ops ⟨s.replacer, (s.memory, [])⟩).2.memory.2

theorem refused_of_mem_nestedCalls (h : s.replacer.latch = .free) {call : NestedCall}
    (hcall : call ∈ nestedCalls logger ops s) : call.Refused := by
  obtain ⟨more, hmore, hrun⟩ := refused_runAll logger ops h []
  rw [nestedCalls, hrun] at hcall
  exact hmore call hcall

/-! ### Two runs -/

/-- The outcomes of operations one after another, each with the state that the operation leaves. -/
def trace (logger : Logger σ) :
    List Operation → Observed σ → List (Except Problem Answer × Replacer)
  | [], _ => []
  | op :: rest, s =>
    let (outcome, s) := run logger op s
    (outcome, s.replacer) :: trace logger rest s

theorem trace_cons (logger : Logger σ) (op : Operation) (rest : List Operation)
    (s : Observed σ) :
    trace logger (op :: rest) s =
      ((run logger op s).1, (run logger op s).2.replacer) ::
        trace logger rest (run logger op s).2 :=
  rfl

/-- An operation, with the kind of its access forgotten. -/
def Operation.withoutKind : Operation → Operation
  | .access x _ => .access x .unknown
  | op => op

/-- The kind of an access is in its report, and nowhere else. -/
theorem course_withoutKind (op : Operation) (r : Replacer) :
    (course op.withoutKind r).outcome = (course op r).outcome ∧
      (course op.withoutKind r).final = (course op r).final := by
  cases op with
  | access x kind =>
    show (onFrame x r _).outcome = (onFrame x r _).outcome ∧
      (onFrame x r _).final = (onFrame x r _).final
    rw [onFrame, onFrame]
    cases r.frame? x <;> exact ⟨rfl, rfl⟩
  | _ => exact ⟨rfl, rfl⟩

/-- Two loggers that do not fail lead an operation to the same outcome and the same state, whatever
the kind of its access is. -/
theorem run_congr (hl : logger.Steady) (hl' : logger'.Steady)
    (hop : op.withoutKind = op'.withoutKind) (h : s.replacer.latch = .free)
    (hs : s.replacer = s'.replacer) :
    (run logger op s).1 = (run logger' op' s').1 ∧
      (run logger op s).2.replacer = (run logger' op' s').2.replacer := by
  have h' : s'.replacer.latch = .free := by rw [← hs, h]
  obtain ⟨houtcome, hfinal⟩ := run_of_steady hl op h
  obtain ⟨houtcome', hfinal'⟩ := run_of_steady hl' op' h'
  obtain ⟨hsame, hsameFinal⟩ := course_withoutKind op s.replacer
  obtain ⟨hsame', hsameFinal'⟩ := course_withoutKind op' s'.replacer
  rw [houtcome, houtcome', hfinal, hfinal', ← hsame, ← hsame', ← hsameFinal, ← hsameFinal', hop, hs]
  exact ⟨rfl, rfl⟩

theorem trace_congr (hl : logger.Steady) (hl' : logger'.Steady)
    (hops : ops.map Operation.withoutKind = ops'.map Operation.withoutKind)
    (h : s.replacer.latch = .free) (hs : s.replacer = s'.replacer) :
    trace logger ops s = trace logger' ops' s' := by
  induction ops generalizing ops' s s' with
  | nil =>
    rw [List.map_eq_nil_iff.mp hops.symm]
    rfl
  | cons op rest ih =>
    cases ops' with
    | nil => cases hops
    | cons op' rest' =>
      obtain ⟨hop, hrest⟩ := List.cons.inj hops
      obtain ⟨houtcome, hstate⟩ := run_congr hl hl' hop h hs
      rw [trace_cons, trace_cons, ih hrest (latch_run logger op h) hstate, houtcome, hstate]

/-- **Neither calls from loggers nor kinds of accesses influence a replacer.**  In every run with a
logger that does not fail, each call that the logger makes is refused and changes nothing, and every
operation ends with the outcome and leaves the state, with the size and the pools in it, that it has
with a silent logger and with any other kinds of accesses. -/
theorem callbacks_and_kinds_without_influence (hl : logger.Steady) (settings : Settings)
    (memory : σ) (hops : ops.map Operation.withoutKind = ops'.map Operation.withoutKind) :
    (∀ call ∈ nestedCalls logger ops ⟨new settings, memory⟩, call.Refused) ∧
      trace logger ops ⟨new settings, memory⟩ = trace Logger.silent ops' ⟨new settings, ()⟩ :=
  ⟨fun _ hcall => refused_of_mem_nestedCalls rfl hcall,
    trace_congr hl Logger.steady_silent hops rfl rfl⟩

end Replacer

/-- A logger that at every report calls all operations. -/
def Logger.busy : Logger Unit := fun _ _ =>
  .call (.access (.ofNat 1) .index) fun _ => .call .evict fun _ =>
    .call (.setEvictable (.ofNat 1) false) fun _ => .call (.remove (.ofNat 0)) fun _ =>
      .call .size fun _ => .done ()

theorem Logger.steady_busy : busy.Steady := by
  intro entry memory r hr
  rw [Reaction.run_of_held _ hr]
  rfl

namespace Replacer

/-- A run in which a frame is evicted to admit another one, and the logger calls from inside. -/
theorem callbacks_and_kinds_without_influence_busy :
    Logger.busy.Steady ∧
    ([.access (.ofNat 0) .scan, .access (.ofNat 1) .lookup].map Operation.withoutKind =
      [.access (.ofNat 0) .index, .access (.ofNat 1) .unknown].map Operation.withoutKind) ∧
    (nestedCalls Logger.busy [.access (.ofNat 0) .scan, .access (.ofNat 1) .lookup]
      ⟨new ⟨1, 2, by decide, by decide⟩, ()⟩).length = 20 ∧
    (∀ call ∈ nestedCalls Logger.busy [.access (.ofNat 0) .scan, .access (.ofNat 1) .lookup]
      ⟨new ⟨1, 2, by decide, by decide⟩, ()⟩, call.Refused) ∧
    trace Logger.busy [.access (.ofNat 0) .scan, .access (.ofNat 1) .lookup]
        ⟨new ⟨1, 2, by decide, by decide⟩, ()⟩ =
      trace Logger.silent [.access (.ofNat 0) .index, .access (.ofNat 1) .unknown]
        ⟨new ⟨1, 2, by decide, by decide⟩, ()⟩ :=
  ⟨Logger.steady_busy, rfl, by decide,
    callbacks_and_kinds_without_influence Logger.steady_busy ⟨1, 2, by decide, by decide⟩ () rfl⟩

end Replacer
end StorageKit
