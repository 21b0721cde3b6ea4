/-
Reports along a chain of causes.

An error may have been given another error as its cause, or any value at all, and that error a cause
of its own.  The report of what was thrown goes down the same chain.

* `Value.causeAt`, `Value.reportAt` — the value and the report so many causes down;
* `Report.headingOf`, `Report.stackShown` — what a report says about a single value, told by the
  kind of the value;
* `Report.ofValue_level` — a report says this about the value, and its cause is the report of the
  cause;
* `Report.exists_undated` — a chain has a report unless an error in it was made at a time on no
  calendar;
* `Report.ofValue_false` — stack texts change nothing else in a report;
* **`Report.mirrors_causes`** — the report of any value, level by level, and the one that an error
  makes of itself.

Design notes: a cause that is `null`, `false` or an empty text is a cause, so nothing here asks what
a cause is like except whether it is `undefined`.  A value that is no error has no cause, even if it
is a record with such a field: `Value.reportAt` follows the fields of reports, never those of the
values in them, because a report puts a value into its context.
-/
import StorageKit.Proofs.Forms

namespace StorageKit

/-! ### Chains of causes -/

namespace Value

/-- What an error was given as its cause, if it was given something. -/
def cause? : Value → Option Value
  | .error _ _ cause => if cause.isUndefined then none else some cause
  | _ => none

/-- The value so many causes down. -/
def causeAt : Nat → Value → Option Value
  | 0, v => some v
  | n + 1, v => v.cause?.bind (causeAt n)

/-- What a record has so many fields `cause` down. -/
def reportAt : Nat → Value → Option Value
  | 0, form => some form
  | n + 1, .record fields => (Fields.get? "cause" fields).bind (reportAt n)
  | _ + 1, _ => none

theorem isUndefined_eq_true {v : Value} : v.isUndefined = true ↔ v = .undefined := by
  cases v <;> simp [isUndefined]

theorem cause?_isSome {v : Value} :
    v.cause?.isSome = true ↔
      ∃ head context cause, v = .error head context cause ∧ cause ≠ .undefined := by
  cases v with
  | error head context cause =>
    have hgiven : (Value.error head context cause).cause?.isSome = true ↔ cause ≠ .undefined := by
      rw [cause?, ne_eq, ← isUndefined_eq_true]
      cases cause.isUndefined <;> simp
    rw [hgiven]
    constructor
    · intro h
      exact ⟨head, context, cause, rfl, h⟩
    · rintro ⟨_, _, _, heq, h⟩
      cases heq
      exact h
  | _ =>
    refine iff_of_false (fun h => nomatch h) ?_
    rintro ⟨_, _, _, heq, -⟩
    cases heq

/-- One more cause down is the cause of what is there. -/
theorem causeAt_succ (n : Nat) (v : Value) : v.causeAt (n + 1) = (v.causeAt n).bind cause? := by
  induction n generalizing v with
  | zero =>
    show v.cause?.bind (causeAt 0) = v.cause?
    cases v.cause? <;> rfl
  | succ n ih =>
    rw [causeAt, causeAt]
    cases v.cause? with
    | none => rfl
    | some cause => exact ih cause

/-- A chain goes on below an error that was given a cause, and nowhere else. -/
theorem causeAt_succ_isSome (n : Nat) (v : Value) :
    (v.causeAt (n + 1)).isSome = true ↔
      ∃ head context cause, v.causeAt n = some (.error head context cause) ∧
        cause ≠ .undefined := by
  rw [causeAt_succ]
  cases v.causeAt n with
  | none => simp
  | some below => simp [cause?_isSome]

end Value

namespace Report

/-! ### One value of a chain -/

/-- What a report says first about a value, by the kind of the value; nothing if the value is an
error with details that was made at a time on no calendar. -/
def headingOf (now : Moment) : Value → Option (Fields Value)
  | .error head context _ =>
    match head.details with
    | some d => d.timestamp.map (heading head.name d.code head.message context d.isOperational)
    | none => some (heading head.name "unknown" head.message [] false now)
  | .text s => some (heading "NonErrorThrown" "unknown" s [] false now)
  | .half unit => some (heading "NonErrorThrown" "unknown" (.half unit) [] false now)
  | v => some (heading "NonErrorThrown" "unknown" "Unknown error" [("value", v)] false now)

/-- The stack text of an error, if it is asked for and there is one. -/
def stackShown (withStack : Bool) : Value → Fields Value
  | .error head _ _ =>
    if withStack = true ∧ head.stack ≠ "" then [("stack", .text head.stack)] else []
  | _ => []

/-- What a report says first. -/
def ownHeading (report : Report) : Fields Value :=
  heading report.name report.code report.message report.context report.isOperational
    report.timestamp

/-- The report without the stack texts in it, at any depth. -/
def withoutStacks : Report → Report
  | ⟨name, code, message, context, isOperational, timestamp, cause, _⟩ =>
    ⟨name, code, message, context, isOperational, timestamp,
      match cause with
      | some cause => some cause.withoutStacks
      | none => none, none⟩
termination_by structural r => r

variable {withStack : Bool} {now : Moment} {v : Value} {report : Report}

/-- A report as a record: under `cause` the record of its cause, and besides it the heading and the
stack text. -/
theorem exists_fields (report : Report) :
    ∃ fields, report.toValue = .record fields ∧
      Fields.get? "cause" fields = report.cause.map toValue ∧
      Fields.erase "cause" fields = report.ownHeading ++ stackField report.stack := by
  obtain ⟨name, code, message, context, isOperational, timestamp, cause, stack⟩ := report
  refine ⟨_, toValue.eq_def _, ?_⟩
  cases cause <;> cases stack <;> exact ⟨rfl, rfl⟩

theorem stackField_stackOf (withStack : Bool) (head : ErrorHead) (context : Fields Value)
    (cause : Value) :
    stackField (stackOf withStack head) = stackShown withStack (.error head context cause) := by
  rw [stackOf, stackShown]
  by_cases hstack : head.stack = "" <;> cases withStack <;> simp [hstack, stackField]

/-- The heading and the stack text of a report are those of the value, and the report of its cause
is the cause of the report. -/
theorem ofValue_level (h : ofValue withStack (some now) v = some report) :
    headingOf now v = some report.ownHeading ∧
      stackField report.stack = stackShown withStack v ∧
      report.cause.isSome = v.cause?.isSome ∧
      report.cause = v.cause?.bind (ofValue withStack (some now)) := by
  cases v with
  | error head context cause =>
    obtain ⟨code, shown, isOperational, timestamp, inner, rfl, hcause, hdetails⟩ := ofValue_error h
    refine ⟨?_, stackField_stackOf withStack head context cause, ?_⟩
    · rw [headingOf]
      cases hd : head.details with
      | none =>
        rw [hd] at hdetails
        obtain ⟨rfl, rfl, rfl, hnow⟩ := hdetails
        cases hnow
        rfl
      | some d =>
        rw [hd] at hdetails
        obtain ⟨rfl, rfl, rfl, htimestamp⟩ := hdetails
        simp only [htimestamp, Option.map_some]
        rfl
    · obtain ⟨rfl, rfl⟩ | ⟨hne, r, hr, rfl⟩ := hcause
      · exact ⟨rfl, rfl⟩
      · have hgiven : (Value.error head context cause).cause? = some cause := by
          rw [Value.cause?, if_neg fun hundefined => hne (Value.isUndefined_eq_true.mp hundefined)]
        rw [hgiven]
        exact ⟨rfl, hr.symm⟩
  | _ =>
    obtain ⟨timestamp, hnow, rfl⟩ := ofValue_of_not_error rfl h
    cases hnow
    exact ⟨rfl, rfl, rfl, rfl⟩

/-! ### A whole chain -/

/-- Below a report there are the reports of the values below the one that was thrown. -/
theorem reportAt_toValue (h : ofValue withStack (some now) v = some report) (n : Nat) :
    match v.causeAt n with
    | none => report.toValue.reportAt n = none
    | some below => ∃ inner, ofValue withStack (some now) below = some inner ∧
        report.toValue.reportAt n = some inner.toValue := by
  induction n generalizing v report with
  | zero => exact ⟨report, h, rfl⟩
  | succ n ih =>
    obtain ⟨fields, hfields, hget, -⟩ := exists_fields report
    obtain ⟨-, -, hgiven, hcause⟩ := ofValue_level h
    rw [Value.causeAt, hfields, Value.reportAt, hget]
    cases hv : v.cause? with
    | none =>
      rw [hv] at hcause
      rw [hcause]
      rfl
    | some cause =>
      rw [hv] at hgiven hcause
      obtain ⟨inner, hinner⟩ := Option.isSome_iff_exists.mp hgiven
      rw [hinner] at hcause ⊢
      exact ih hcause.symm

/-- Nothing but an error that was made at a time on no calendar keeps a chain from being
reported. -/
theorem exists_undated (h : ofValue withStack (some now) v = none) :
    ∃ n head context cause d, v.causeAt n = some (.error head context cause) ∧
      head.details = some d ∧ d.timestamp = none := by
  induction v using Value.causeInduction with
  | other v hv =>
    cases v with
    | error _ _ _ => cases hv
    | _ => cases h
  | error head context cause ih =>
    have hundated : isDated (some now) (.error head context cause) = false := by
      rw [← isSome_ofValue withStack, h]
      rfl
    obtain hown | hbelow := Bool.and_eq_false_iff.mp hundated
    · cases hd : head.details with
      | none =>
        rw [hd] at hown
        cases hown
      | some d =>
        rw [hd] at hown
        have htimestamp : d.timestamp = none :=
          Option.isNone_iff_eq_none.mp (Option.isSome_eq_false_iff.mp hown)
        exact ⟨0, head, context, cause, d, rfl, hd, htimestamp⟩
    · obtain ⟨hgiven, hcause⟩ := Bool.or_eq_false_iff.mp hbelow
      rw [← isSome_ofValue withStack, Option.isSome_eq_false_iff,
        Option.isNone_iff_eq_none] at hcause
      obtain ⟨n, hn⟩ := ih hcause
      refine ⟨n + 1, ?_⟩
      rw [Value.causeAt, Value.cause?, hgiven]
      exact hn

/-- The report without stack texts is the one with them, but for the stack texts. -/
theorem ofValue_false {stamp : Option Moment} (h : ofValue withStack stamp v = some report) :
    ofValue false stamp v = some report.withoutStacks := by
  induction v using Value.causeInduction generalizing report with
  | other v hv =>
    obtain ⟨timestamp, rfl, rfl⟩ := ofValue_of_not_error hv h
    cases v with
    | error _ _ _ => cases hv
    | _ => rfl
  | error head context cause ih =>
    obtain ⟨short, hshort⟩ :
        ∃ short, ofValue false stamp (.error head context cause) = some short :=
      Option.isSome_iff_exists.mp (by rw [isSome_ofValue, ← isSome_ofValue withStack, h]; rfl)
    obtain ⟨code, shown, isOperational, timestamp, inner, rfl, hcause, hdetails⟩ := ofValue_error h
    obtain ⟨code', shown', isOperational', timestamp', inner', rfl, hcause', hdetails'⟩ :=
      ofValue_error hshort
    have hinner : inner' = inner.map withoutStacks := by
      obtain ⟨rfl, rfl⟩ | ⟨hne, r, hr, rfl⟩ := hcause
      · obtain ⟨-, rfl⟩ | ⟨hne, -⟩ := hcause'
        · rfl
        · exact absurd rfl hne
      · obtain ⟨rfl, -⟩ | ⟨-, r', hr', rfl⟩ := hcause'
        · exact absurd rfl hne
        · exact hr'.symm.trans (ih hr)
    have hsame : code' = code ∧ shown' = shown ∧ isOperational' = isOperational ∧
        timestamp' = timestamp := by
      cases hd : head.details with
      | none =>
        rw [hd] at hdetails hdetails'
        obtain ⟨rfl, rfl, rfl, hnow⟩ := hdetails
        obtain ⟨rfl, rfl, rfl, hnow'⟩ := hdetails'
        exact ⟨rfl, rfl, rfl, Option.some.inj (hnow'.symm.trans hnow)⟩
      | some d =>
        rw [hd] at hdetails hdetails'
        obtain ⟨rfl, rfl, rfl, htimestamp⟩ := hdetails
        obtain ⟨rfl, rfl, rfl, htimestamp'⟩ := hdetails'
        exact ⟨rfl, rfl, rfl, Option.some.inj (htimestamp'.symm.trans htimestamp)⟩
    obtain ⟨rfl, rfl, rfl, rfl⟩ := hsame
    rw [hshort, hinner]
    cases inner <;> rfl

theorem bySelf?_of_ofValue {stamp : Option Moment} {head : ErrorHead} {context : Fields Value}
    {cause : Value} (hdetails : head.details.isSome = true)
    (h : ofValue withStack stamp (.error head context cause) = some report) :
    bySelf? stamp (.error head context cause) = some report.withoutStacks := by
  rw [bySelf?, if_pos hdetails]
  exact ofValue_false h

/-- A report mirrors what was thrown, level by level. -/
structure Mirrors (withStack : Bool) (now : Moment) (thrown : Value) (report : Report) : Prop where
  /-- There is a cause below exactly those errors that were given one. -/
  goes_on (n : Nat) : (report.toValue.reportAt (n + 1)).isSome = true ↔
    ∃ head context cause, thrown.causeAt n = some (.error head context cause) ∧
      cause ≠ .undefined
  /-- Besides the cause, every level shows what is said about the value there. -/
  shows {n : Nat} {v : Value} (hv : thrown.causeAt n = some v) :
    ∃ heading fields, headingOf now v = some heading ∧
      report.toValue.reportAt n = some (.record fields) ∧
      Fields.erase "cause" fields = heading ++ stackShown withStack v
  /-- An error with details makes the same report of itself, without stack texts, and it is what is
  written of the error. -/
  by_self {head : ErrorHead} {context : Fields Value} {cause : Value}
    (herror : thrown = .error head context cause) (hdetails : head.details.isSome = true) :
    bySelf? (some now) thrown = some report.withoutStacks ∧
      ∀ style depth, thrown.encode style (some now) depth .itself =
        report.withoutStacks.toValue.encode style (some now) depth .itself

/-- **The report of a thrown value mirrors its chain of causes.**  Every value has a report, unless
an error with details in its chain was made at a time on no calendar.  The report has a cause below
exactly those errors that were given one, whatever that is; every level shows what is to be said
about the kind of value there, and its stack text if it is asked for and not empty; and an error
with details makes the same report of itself, without the stack texts. -/
theorem mirrors_causes (withStack : Bool) (now : Moment) (thrown : Value) :
    match ofValue withStack (some now) thrown with
    | some report => Mirrors withStack now thrown report
    | none => ∃ n head context cause d, thrown.causeAt n = some (.error head context cause) ∧
        head.details = some d ∧ d.timestamp = none := by
  cases h : ofValue withStack (some now) thrown with
  | none => exact exists_undated h
  | some report =>
    refine { goes_on := fun n => ?_, shows := fun {n v} hv => ?_, by_self := ?_ }
    · rw [← Value.causeAt_succ_isSome]
      have hbelow := reportAt_toValue h (n + 1)
      cases hcause : thrown.causeAt (n + 1) with
      | none =>
        rw [hcause] at hbelow
        rw [hbelow]
      | some below =>
        rw [hcause] at hbelow
        obtain ⟨inner, -, hinner⟩ := hbelow
        exact iff_of_true (by rw [hinner]; rfl) rfl
    · have hbelow := reportAt_toValue h n
      rw [hv] at hbelow
      obtain ⟨inner, hinner, hreport⟩ := hbelow
      obtain ⟨hheading, hstack, -, -⟩ := ofValue_level hinner
      obtain ⟨fields, hfields, -, hothers⟩ := exists_fields inner
      exact ⟨_, fields, hheading, hfields ▸ hreport, hstack ▸ hothers⟩
    · rintro head context cause rfl hdetails
      exact ⟨bySelf?_of_ofValue hdetails h,
        fun style depth => Value.encode_detailed style hdetails (ofValue_false h) depth⟩

/-- An error that was given `null` has a cause, and a record with a field `cause` has none. -/
example (now : Moment) (v : Value) :
    (ofValue true (some now) (.error ⟨"Error", "Error", false, "boom", "", none⟩ [] .null)).map
        (fun report => (report.toValue.reportAt 1).isSome) = some true ∧
      (ofValue true (some now) (.record [("cause", v)])).map
        (fun report => (report.toValue.reportAt 1).isSome) = some false :=
  ⟨rfl, rfl⟩

end Report
end StorageKit
