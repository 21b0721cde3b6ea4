/-
Values by what is written of them.

An error with details is written as its report, which is a record again.  What is written of a value
is therefore more than the values that are in it.

* `Value.induction`, `Value.causeInduction` — proofs by the shape of a value, and along a chain of
  causes;
* `Report.ofValue_error`, `Report.ofValue_of_not_error` — what the report of a value says;
* `Value.encode_cause`, `Value.encode_detailed` — the document of an error is the document of its
  report, taken as a record;
* **`Value.formInduction`** — proofs by what is written of a value: a report takes the place of an
  error with details, the fields that it shows that of any other error.

Design notes: the report of a cause is made by the same rules as that of an error, so the second
induction goes along the first one with a statement about the report of each value beside the one
about the value itself.
-/
import StorageKit.Proofs.Entries

namespace StorageKit

/-! ### Induction -/

namespace Value

/-- There are no values in it. -/
def isLeaf : Value → Bool
  | .list _ | .record _ | .error .. => false
  | _ => true

/-- What holds of a value if it holds of the values in it, holds of all. -/
@[elab_as_elim]
theorem induction {Q : Value → Prop} (leaf : ∀ v, v.isLeaf = true → Q v)
    (list : ∀ items, (∀ v ∈ items, Q v) → Q (.list items))
    (record : ∀ fs : Fields Value, (∀ field ∈ fs, Q field.2) → Q (.record fs))
    (error : ∀ (head : ErrorHead) (context : Fields Value) (cause : Value),
      (∀ field ∈ context, Q field.2) → Q cause → Q (.error head context cause)) (v : Value) : Q v :=
  -- the items of a list, the fields of a record and a single field have statements of their own
  @Value.rec Q (fun items => ∀ v ∈ items, Q v) (fun fs => ∀ field ∈ fs, Q field.2)
    (fun field => Q field.2)
    (leaf .undefined rfl) (leaf .null rfl) (fun b => leaf (.bool b) rfl)
    (fun x => leaf (.number x) rfl) (fun i => leaf (.bigint i) rfl) (fun s => leaf (.text s) rfl)
    (fun unit => leaf (.half unit) rfl) (fun t => leaf (.date t) rfl) (fun id => leaf (.page id) rfl)
    list record (fun name => leaf (.shared name) rfl) (fun n => leaf (.back n) rfl)
    (fun name => leaf (.method name) rfl) error
    nofun (fun _ _ hv hrest => List.forall_mem_cons.mpr ⟨hv, hrest⟩)
    nofun (fun _ _ hfield hrest => List.forall_mem_cons.mpr ⟨hfield, hrest⟩)
    (fun _ _ hv => hv) v

theorem isLeaf_ofWording (w : Wording) : (ofWording w).isLeaf = true := by
  cases w <;> rfl

theorem isError_of_isLeaf {v : Value} (h : v.isLeaf = true) : v.isError = false := by
  cases v with
  | error _ _ _ => cases h
  | _ => rfl

/-- What holds of everything that is no error, and of an error if it holds of its cause, holds of
all. -/
@[elab_as_elim]
theorem causeInduction {Q : Value → Prop} (other : ∀ v, v.isError = false → Q v)
    (error : ∀ (head : ErrorHead) (context : Fields Value) (cause : Value),
      Q cause → Q (.error head context cause)) (v : Value) : Q v := by
  induction v using Value.induction with
  | leaf v hv => exact other v (isError_of_isLeaf hv)
  | list items _ => exact other _ rfl
  | record fs _ => exact other _ rfl
  | error head context cause _ ih => exact error head context cause ih

end Value

/-! ### Reports as records -/

namespace Report

variable {withStack : Bool} {now : Option Moment} {v : Value} {report : Report}

/-- A report, when there is one, is stamped with the time of the report if it is not an error that
was thrown. -/
theorem ofValue_of_not_error (hv : v.isError = false)
    (h : ofValue withStack now v = some report) :
    ∃ timestamp, now = some timestamp ∧
      report = ⟨"NonErrorThrown", "unknown", messageOf v, wrapping v, false, timestamp, none, none⟩
      := by
  have hreport : ofValue withStack now v = now.map fun timestamp =>
      ⟨"NonErrorThrown", "unknown", messageOf v, wrapping v, false, timestamp, none, none⟩ := by
    cases v with
    | error _ _ _ => cases hv
    | _ => rfl
  rw [hreport] at h
  obtain ⟨timestamp, hnow, rfl⟩ := Option.map_eq_some_iff.mp h
  exact ⟨timestamp, hnow, rfl⟩

/-- A value is the cause of an error, with this report if it has one. -/
def IsCause (withStack : Bool) (now : Option Moment) (cause : Value) (inner : Option Report) :
    Prop :=
  cause = .undefined ∧ inner = none ∨
    cause ≠ .undefined ∧ ∃ r, ofValue withStack now cause = some r ∧ inner = some r

/-- The cause of an error is reported last. -/
theorem exists_cause {cause : Value} {f : Option Report → Report}
    (h : (match cause with
      | .undefined => (some none).bind fun inner => some (f inner)
      | _ => ((ofValue withStack now cause).map some).bind fun inner => some (f inner)) =
        some report) : ∃ inner, report = f inner ∧ IsCause withStack now cause inner := by
  split at h
  · exact ⟨none, (Option.some.inj h).symm, Or.inl ⟨rfl, rfl⟩⟩
  · next hne =>
    obtain ⟨inner, hinner, h⟩ := Option.bind_eq_some_iff.mp h
    obtain ⟨r, hr, rfl⟩ := Option.map_eq_some_iff.mp hinner
    exact ⟨some r, (Option.some.inj h).symm, Or.inr ⟨hne, r, hr, rfl⟩⟩

/-- The report of an error: with details it keeps them, its context and its time. -/
theorem ofValue_error {head : ErrorHead} {context : Fields Value} {cause : Value}
    (h : ofValue withStack now (.error head context cause) = some report) :
    ∃ code shown isOperational timestamp inner,
      report = ⟨head.name, code, head.message, shown, isOperational, timestamp, inner,
        stackOf withStack head⟩ ∧ IsCause withStack now cause inner ∧
      match head.details with
      | some d =>
        code = d.code ∧ shown = context ∧ isOperational = d.isOperational ∧
          d.timestamp = some timestamp
      | none => code = "unknown" ∧ shown = [] ∧ isOperational = false ∧ now = some timestamp := by
  rw [ofValue] at h
  cases hd : head.details with
  | none =>
    simp only [hd] at h
    obtain ⟨timestamp, htimestamp, h⟩ := Option.bind_eq_some_iff.mp h
    obtain ⟨inner, rfl, hcause⟩ := exists_cause h
    exact ⟨_, _, _, timestamp, inner, rfl, hcause, rfl, rfl, rfl, htimestamp⟩
  | some d =>
    simp only [hd] at h
    obtain ⟨timestamp, htimestamp, h⟩ := Option.bind_eq_some_iff.mp h
    obtain ⟨inner, rfl, hcause⟩ := exists_cause h
    exact ⟨_, _, _, timestamp, inner, rfl, hcause, rfl, rfl, rfl, htimestamp⟩

end Report

namespace Value

variable (style : Json.Style) {now : Option Moment}

/-- A value that is no error is written the same in a report, two levels deeper. -/
theorem encode_of_not_error {v : Value} (hv : v.isError = false) (depth : Nat) (role : Role) :
    v.encode style now depth role =
      inRole style now depth v (v.encode style now (role.depth depth) .itself) role := by
  cases v with
  | error _ _ _ => cases hv
  | _ => cases role <;> rfl

/-- A wrapped value is all there is in its context. -/
theorem encodeFields_wrapping (depth : Nat) (v : Value) :
    encodeFields style now depth (Report.wrapping v) =
      (Report.wrapping v).map fun field => (field.1, v.encode style now depth .itself) := by
  cases v <;> rfl

theorem encode_ofWording (depth : Nat) (w : Wording) :
    (ofWording w).encode style now depth .itself = .done (wordingDocument w) := by
  cases w <;> rfl

/-- A report without a stack text is written field by field. -/
theorem encode_toValue {report : Report} (hstack : report.stack = none) (depth : Nat) :
    report.toValue.encode style now depth .itself =
      style.object depth
        (reportHeading report.name report.code report.message
            (style.object (depth + 1) (encodeFields style now (depth + 2) report.context))
            report.isOperational report.timestamp ++
          (report.cause.map fun inner =>
            ("cause", inner.toValue.encode style now (depth + 1) .itself)).toList) := by
  obtain ⟨name, code, message, context, isOperational, timestamp, cause, stack⟩ := report
  cases hstack
  cases cause with
  | none =>
    simp only [Report.toValue, encode, Report.heading, Report.stackField, encodeFields,
      encode_ofWording, List.append_nil]
    rfl
  | some inner =>
    simp only [Report.toValue, encode, Report.heading, Report.stackField, encodeFields,
      encode_ofWording, List.append_nil, List.cons_append, List.nil_append]
    rfl

/-- The outcome of a cause as a field, if something was given as a cause. -/
def causeFields (now : Option Moment) (depth : Nat) (cause : Value) :
    List (String × Json.Outcome) :=
  match cause with
  | .undefined => []
  | cause => [("cause", encode style now (depth + 1) cause .cause)]

section

variable {head : ErrorHead} {context : Fields Value} {cause : Value}

theorem encode_error (depth : Nat) (role : Role) :
    (Value.error head context cause).encode style now depth role =
      if isReported head role && !Report.isDated now (.error head context cause) then
        .error .offCalendar
      else
        errorDocument style now depth head (encodeFields style now (depth + 2) context)
          (causeFields style now depth cause) role := by
  cases cause <;> rfl

/-- An error that is reported is written field by field. -/
theorem encode_reported {role : Role} (hreported : isReported head role = true)
    (hdated : Report.isDated now (.error head context cause) = true) (depth : Nat) :
    (Value.error head context cause).encode style now depth role =
      errorDocument style now depth head (encodeFields style now (depth + 2) context)
        (causeFields style now depth cause) role := by
  rw [encode_error, hreported, hdated]
  rfl

theorem isDated_of_ofValue {withStack : Bool} {v : Value} {report : Report}
    (h : Report.ofValue withStack now v = some report) : Report.isDated now v = true := by
  rw [← Report.isSome_ofValue withStack, h]
  rfl

/-- A cause is written as its report. -/
theorem encode_cause {v : Value} {report : Report} (h : Report.ofValue false now v = some report)
    (depth : Nat) :
    v.encode style now depth .cause = report.toValue.encode style now depth .itself := by
  induction v using Value.causeInduction generalizing report depth with
  | other v hv =>
    obtain ⟨timestamp, rfl, rfl⟩ := Report.ofValue_of_not_error hv h
    rw [encode_of_not_error style hv, encode_toValue style rfl, encodeFields_wrapping]
    rfl
  | error head context cause ih =>
    have hdated := isDated_of_ofValue h
    obtain ⟨code, shown, isOperational, timestamp, inner, rfl, hcause, hdetails⟩ :=
      Report.ofValue_error h
    have hinner : causeFields style now depth cause =
        (inner.map fun inner =>
          ("cause", inner.toValue.encode style now (depth + 1) .itself)).toList := by
      obtain ⟨rfl, rfl⟩ | ⟨hne, r, hr, rfl⟩ := hcause
      · rfl
      · rw [Option.map_some, Option.toList_some, ← ih hr (depth + 1)]
        cases cause with
        | undefined => exact absurd rfl hne
        | _ => rfl
    -- both are now objects of the same fields, with details or without
    rw [encode_reported style (by simp [isReported]) hdated, encode_toValue style rfl, hinner,
      errorDocument.eq_def]
    cases hd : head.details with
    | none =>
      rw [hd] at hdetails
      obtain ⟨rfl, rfl, rfl, rfl⟩ := hdetails
      rfl
    | some d =>
      rw [hd] at hdetails
      obtain ⟨rfl, rfl, rfl, htimestamp⟩ := hdetails
      simp only [htimestamp]

/-- An error with details is written as its report. -/
theorem encode_detailed (hdetails : head.details.isSome = true) {report : Report}
    (h : Report.ofValue false now (.error head context cause) = some report) (depth : Nat) :
    (Value.error head context cause).encode style now depth .itself =
      report.toValue.encode style now depth .itself := by
  have hdated := isDated_of_ofValue h
  obtain ⟨d, hd⟩ := Option.isSome_iff_exists.mp hdetails
  rw [← encode_cause style h, encode_reported style (by simp [isReported, hd]) hdated,
    encode_reported style (by simp [isReported]) hdated, errorDocument.eq_def,
    errorDocument.eq_def, hd]

/-- An error with details and no report is not written. -/
theorem encode_undated (hdetails : head.details.isSome = true)
    (h : Report.ofValue false now (.error head context cause) = none) (depth : Nat) :
    (Value.error head context cause).encode style now depth .itself = .error .offCalendar := by
  have hundated : Report.isDated now (.error head context cause) = false := by
    rw [← Report.isSome_ofValue false, h]
    rfl
  rw [encode_error, hundated, isReported, hdetails]
  rfl

/-- An error without details is written as the fields that it shows. -/
theorem encode_plain_error (hdetails : head.details = none) (depth : Nat) :
    (Value.error head context cause).encode style now depth .itself =
      (Value.record (errorFields head context)).encode style now depth .itself := by
  rw [encode_error, encode, isReported, errorDocument.eq_def, errorFields, hdetails]
  cases head.nameAssigned <;> rfl

end

/-! ### Induction over what is written -/

/-- What holds of the context and of the cause of a report holds of the report. -/
theorem report_toValue {Q : Value → Prop} (wording : ∀ w, Q (.ofWording w))
    (bool : ∀ b, Q (.bool b))
    (record : ∀ fs : Fields Value, (∀ field ∈ fs, Q field.2) → Q (.record fs)) {report : Report}
    (hcontext : ∀ field ∈ report.context, Q field.2)
    (hcause : ∀ inner, report.cause = some inner → Q inner.toValue) : Q report.toValue := by
  obtain ⟨name, code, message, context, isOperational, timestamp, cause, stack⟩ := report
  rw [Report.toValue.eq_def]
  refine record _ fun field hfield => ?_
  obtain hfield | hfield := List.mem_append.mp hfield
  · obtain hfield | hfield := List.mem_append.mp hfield
    · simp only [Report.heading, List.mem_cons, List.not_mem_nil, or_false] at hfield
      obtain rfl | rfl | rfl | rfl | rfl | rfl := hfield
      · exact wording name
      · exact wording code
      · exact wording message
      · exact record context hcontext
      · exact bool isOperational
      · exact wording timestamp.iso
    · cases cause with
      | none => cases hfield
      | some inner =>
        cases List.mem_singleton.mp hfield
        exact hcause inner rfl
  · cases stack with
    | none => cases hfield
    | some stack =>
      cases List.mem_singleton.mp hfield
      exact wording stack

/-- What holds of a value if it holds of what is written of it, holds of all.  An error with
details is written as its report, any other error as the fields that it shows. -/
@[elab_as_elim]
theorem formInduction (now : Option Moment) {Q : Value → Prop}
    (leaf : ∀ v, v.isLeaf = true → Q v)
    (list : ∀ items, (∀ v ∈ items, Q v) → Q (.list items))
    (record : ∀ fs : Fields Value, (∀ field ∈ fs, Q field.2) → Q (.record fs))
    (shown : ∀ (head : ErrorHead) (context : Fields Value) (cause : Value),
      head.details = none → Q (.record (errorFields head context)) → Q (.error head context cause))
    (reported : ∀ (head : ErrorHead) (context : Fields Value) (cause : Value),
      head.details.isSome = true →
      (∀ report, Report.ofValue false now (.error head context cause) = some report →
        Q report.toValue) →
      Q (.error head context cause)) (v : Value) : Q v := by
  have hwording (w : Wording) : Q (.ofWording w) := leaf _ (isLeaf_ofWording w)
  have hother (v : Value) (hv : v.isError = false) (hQ : Q v) (report : Report)
      (h : Report.ofValue false now v = some report) : Q report.toValue := by
    obtain ⟨timestamp, -, rfl⟩ := Report.ofValue_of_not_error hv h
    refine report_toValue hwording (fun _ => leaf _ rfl) record ?_ nofun
    intro field hfield
    cases v
    case text | half => cases hfield
    all_goals
      cases List.mem_singleton.mp hfield
      exact hQ
  -- the report of a cause is written inside that of an error, whatever kind of value it is
  suffices h : Q v ∧ ∀ report, Report.ofValue false now v = some report → Q report.toValue from h.1
  induction v using Value.induction with
  | leaf v hv => exact ⟨leaf v hv, hother v (isError_of_isLeaf hv) (leaf v hv)⟩
  | list items ih =>
    have hQ := list items fun v hv => (ih v hv).1
    exact ⟨hQ, hother _ rfl hQ⟩
  | record fs ih =>
    have hQ := record fs fun field hfield => (ih field hfield).1
    exact ⟨hQ, hother _ rfl hQ⟩
  | error head context cause ihcontext ihcause =>
    have hreport (report : Report)
        (h : Report.ofValue false now (.error head context cause) = some report) :
        Q report.toValue := by
      obtain ⟨code, context', isOperational, timestamp, inner, rfl, hcause, hdetails⟩ :=
        Report.ofValue_error h
      refine report_toValue hwording (fun _ => leaf _ rfl) record ?_ fun r hr => ?_
      · intro field hfield
        cases hd : head.details with
        | none =>
          rw [hd] at hdetails
          obtain ⟨-, rfl, -, -⟩ := hdetails
          cases hfield
        | some d =>
          rw [hd] at hdetails
          obtain ⟨-, rfl, -, -⟩ := hdetails
          exact (ihcontext field hfield).1
      · obtain ⟨-, rfl⟩ | ⟨-, found, hfound, rfl⟩ := hcause
        · cases hr
        · cases hr
          exact ihcause.2 _ hfound
    refine ⟨?_, hreport⟩
    cases hd : head.details with
    | none =>
      refine shown head context cause hd (record _ fun field hfield => ?_)
      rw [errorFields, hd] at hfield
      cases hname : head.nameAssigned with
      | false =>
        simp only [hname] at hfield
        cases hfield
      | true =>
        simp only [hname, if_true] at hfield
        cases List.mem_singleton.mp hfield
        exact leaf _ rfl
    | some d => exact reported head context cause (by rw [hd]; rfl) hreport

end Value
end StorageKit
