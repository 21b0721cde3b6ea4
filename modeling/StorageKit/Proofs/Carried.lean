/-
What the report of a thrown value takes over as it is.

* `Report.carried` — the values in the contexts of the errors along a chain of causes, and what was
  thrown at its end if that is no error;
* `Report.isWritable_toValue` — the record of a report is writable when its context and the record
  of its cause are;
* `Report.isWritable_iff_carried` — the record of a report is writable when everything that it takes
  over is;
* **`Report.stringified_iff`** — a report that is made of any thrown value, with stack texts or
  without, has a document exactly when nothing that it takes over holds a large integer, a reference
  back, or an error whose report has no date;
* `Report.carried_obstacles` — a large integer that was thrown and an object that refers to itself
  in a context are taken over, and such a report has no document.

Design notes: a report may be written later than it is made.  The time of writing is only asked for
where an error lies in a context, since it is reported then.
-/
import StorageKit.Proofs.Held

namespace StorageKit
namespace Report

/-- The values that the report of a thrown value takes over as they are. -/
def carried : Value → List Value
  | .error head context cause =>
    (if head.details.isSome then context.map Prod.snd else []) ++
      (if cause.isUndefined then [] else carried cause)
  | v => (wrapping v).map Prod.snd

section

variable {style : Json.Style} {now : Option Moment}

theorem isWritable_ofWording (w : Wording) : (Value.ofWording w).IsWritable style now := by
  refine (Value.isWritable_leaf (Value.isLeaf_ofWording w)).mpr ?_
  cases w <;> exact id

/-- All else that is in a report can be written in any style. -/
theorem isWritable_toValue {report : Report} :
    report.toValue.IsWritable style now ↔
      (∀ field ∈ report.context, field.2.IsWritable style now) ∧
        ∀ inner, report.cause = some inner → inner.toValue.IsWritable style now := by
  constructor
  · intro h
    obtain ⟨name, code, message, context, isOperational, timestamp, cause, stack⟩ := report
    rw [toValue.eq_def, Value.isWritable_record] at h
    refine ⟨Value.isWritable_record.mp (h ("context", .record context) ?_), ?_⟩
    · exact List.mem_append_left _ (List.mem_append_left _ (by simp [heading]))
    · rintro inner rfl
      exact h ("cause", inner.toValue)
        (List.mem_append_left _ (List.mem_append_right _ List.mem_cons_self))
  · rintro ⟨hcontext, hcause⟩
    exact Value.report_toValue isWritable_ofWording
      (fun _ => (Value.isWritable_leaf rfl).mpr id) (fun _ => Value.isWritable_record.mpr)
      hcontext hcause

/-- A report is writable when everything that it takes over is. -/
theorem isWritable_iff_carried {withStack : Bool} {stamp : Option Moment} {v : Value}
    {report : Report} (h : ofValue withStack stamp v = some report) :
    report.toValue.IsWritable style now ↔ ∀ w ∈ carried v, w.IsWritable style now := by
  induction v using Value.causeInduction generalizing report with
  | other v hv =>
    obtain ⟨timestamp, -, rfl⟩ := ofValue_of_not_error hv h
    have hcarried : carried v = (wrapping v).map Prod.snd := by
      cases v with
      | error _ _ _ => cases hv
      | _ => rfl
    rw [isWritable_toValue, hcarried, List.forall_mem_map]
    exact and_iff_left nofun
  | error head context cause ih =>
    obtain ⟨code, context', isOperational, timestamp, inner, rfl, hcause, hdetails⟩ :=
      ofValue_error h
    have hcontext : context'.map Prod.snd =
        if head.details.isSome then context.map Prod.snd else [] := by
      cases hd : head.details with
      | none =>
        rw [hd] at hdetails
        obtain ⟨-, rfl, -, -⟩ := hdetails
        rfl
      | some d =>
        rw [hd] at hdetails
        obtain ⟨-, rfl, -, -⟩ := hdetails
        rfl
    have hinner : (∀ r, inner = some r → r.toValue.IsWritable style now) ↔
        ∀ w ∈ if cause.isUndefined then [] else carried cause, w.IsWritable style now := by
      obtain ⟨rfl, rfl⟩ | ⟨hne, r, hr, rfl⟩ := hcause
      · exact iff_of_true nofun nofun
      · have hgiven : cause.isUndefined = false := by
          cases cause with
          | undefined => exact absurd rfl hne
          | _ => rfl
        rw [hgiven, if_neg Bool.false_ne_true]
        exact ⟨fun h => (ih hr).mp (h r rfl),
          fun h _ hsome => Option.some.inj hsome ▸ (ih hr).mpr h⟩
    rw [isWritable_toValue, carried, ← hcontext, List.forall_mem_append, List.forall_mem_map, hinner]

end

/-- **The report of a thrown value can be written as JSON exactly when everything that it takes over
can.**  For any thrown value, with stack texts or without: there is a report unless a time in the
chain of causes is on no calendar.  It has a document exactly when no value in a context of the
chain, and nothing that was thrown at its end, holds a large integer, a reference back, or an error
whose own report has no date. -/
theorem stringified_iff (withStack : Bool) (now later : Moment) (thrown : Value) :
    match ofValue withStack (some now) thrown with
    | none => isDated (some now) thrown = false
    | some report =>
      (∃ document, report.toValue.encode .plain (some later) 0 .itself = .ok (some document)) ↔
        ∀ v ∈ carried thrown, v.IsWritable .plain (some later) := by
  cases hreport : ofValue withStack (some now) thrown with
  | none =>
    rw [← isSome_ofValue withStack, hreport]
    rfl
  | some report =>
    dsimp only
    rw [← isWritable_iff_carried hreport, ← Value.isOk_encode_iff rfl (some later) report.toValue 0]
    obtain ⟨fs, hfs⟩ : ∃ fs, report.toValue = .record fs := by
      cases report
      exact ⟨_, toValue.eq_def _⟩
    rw [hfs, Value.isOk_encode_record rfl]

/-- Of a large integer that was thrown, and of an error with an object in its context that refers to
itself, reports are made that have no document. -/
theorem carried_obstacles :
    let now : Moment := 1740903300000
    let written (thrown : Value) : Option Json.Outcome :=
      (ofValue false (some now) thrown).map fun report =>
        report.toValue.encode .plain (some now) 0 .itself
    let evicted : ErrorHead :=
      { className := "BaseError", name := "BaseError", nameAssigned := true, message := "evicted"
        stack := ""
        details := some
          { code := "evicted", isRetryable := false, isOperational := true, timestamp := some now } }
    written (.bigint 10) = some (.error .bigint) ∧
      written (.error evicted [("frame", .record [("self", .back 0)])] .undefined) =
        some (.error .cycle) :=
  ⟨rfl, rfl⟩

end Report
end StorageKit
