/-
What a value holds.

* `Json.collectItems_eq`, `Json.collectFields_eq` — parts are collected when each of them has an
  outcome that is no obstacle;
* `Value.encode_list`, `Value.encode_record` — without limits the document of a list or of a record
  is made of those of its parts;
* `Value.Holds` — a value is written when another one is;
* `Json.Style.Refuses`, `Value.IsWritable` — what cannot be written by itself, and a value that holds
  nothing of that kind;
* **`Value.isOk_encode_iff`** — without limits exactly the writable values have an outcome that is no
  obstacle.

Design notes: limits leave out parts of a value, and with them what is refused, so nothing is said of
styles that have some.
-/
import StorageKit.Proofs.Forms

namespace StorageKit

/-! ### Outcomes of parts -/

namespace Json

/-- The document of an outcome, if there is one. -/
def Outcome.document : Outcome → Option Json
  | .ok document => document
  | .error _ => none

theorem isOk_map {ε α β : Type} (f : α → β) (x : Except ε α) : (x.map f).isOk = x.isOk := by
  cases x <;> rfl

/-- Items are collected when each of them can be written. -/
theorem collectItems_eq (outcomes : List Outcome) :
    (∃ o ∈ outcomes, o.isOk = false) ∧ (∃ obstacle, collectItems outcomes = .error obstacle) ∨
      (∀ o ∈ outcomes, o.isOk = true) ∧
        collectItems outcomes = .ok (outcomes.map fun o => o.document.getD .null) := by
  induction outcomes with
  | nil => exact Or.inr ⟨nofun, rfl⟩
  | cons first rest ih =>
    cases first with
    | error obstacle => exact Or.inl ⟨⟨_, List.mem_cons_self, rfl⟩, obstacle, rfl⟩
    | ok document =>
      -- an obstacle further back stops the whole list, whatever stands in front
      obtain ⟨⟨o, ho, hfails⟩, obstacle, hrest⟩ | ⟨hall, hrest⟩ := ih
      · refine Or.inl ⟨⟨o, List.mem_cons_of_mem _ ho, hfails⟩, obstacle, ?_⟩
        rw [collectItems, hrest]
        rfl
      · refine Or.inr ⟨List.forall_mem_cons.mpr ⟨rfl, hall⟩, ?_⟩
        rw [collectItems, hrest]
        rfl

/-- Fields are collected when each of them can be written. -/
theorem collectFields_eq (outcomes : Fields Outcome) :
    (∃ f ∈ outcomes, f.2.isOk = false) ∧ (∃ obstacle, collectFields outcomes = .error obstacle) ∨
      (∀ f ∈ outcomes, f.2.isOk = true) ∧
        collectFields outcomes =
          .ok (outcomes.filterMap fun f => f.2.document.map fun j => (f.1, j)) := by
  induction outcomes with
  | nil => exact Or.inr ⟨nofun, rfl⟩
  | cons first rest ih =>
    obtain ⟨name, outcome⟩ := first
    cases outcome with
    | error obstacle => exact Or.inl ⟨⟨_, List.mem_cons_self, rfl⟩, obstacle, rfl⟩
    | ok document =>
      obtain ⟨⟨f, hf, hfails⟩, obstacle, hrest⟩ | ⟨hall, hrest⟩ := ih
      · refine Or.inl ⟨⟨f, List.mem_cons_of_mem _ hf, hfails⟩, obstacle, ?_⟩
        rw [collectFields, hrest]
        rfl
      · refine Or.inr ⟨List.forall_mem_cons.mpr ⟨rfl, hall⟩, ?_⟩
        rw [collectFields, hrest]
        cases document <;> rfl

theorem isOk_collectItems (outcomes : List Outcome) :
    (collectItems outcomes).isOk = true ↔ ∀ o ∈ outcomes, o.isOk = true := by
  obtain ⟨⟨o, ho, hfails⟩, obstacle, h⟩ | ⟨hall, h⟩ := collectItems_eq outcomes
  · rw [h]
    exact iff_of_false Bool.false_ne_true fun hall => Bool.eq_false_iff.mp hfails (hall o ho)
  · rw [h]
    exact iff_of_true rfl hall

theorem isOk_collectFields (outcomes : Fields Outcome) :
    (collectFields outcomes).isOk = true ↔ ∀ f ∈ outcomes, f.2.isOk = true := by
  obtain ⟨⟨f, hf, hfails⟩, obstacle, h⟩ | ⟨hall, h⟩ := collectFields_eq outcomes
  · rw [h]
    exact iff_of_false Bool.false_ne_true fun hall => Bool.eq_false_iff.mp hfails (hall f hf)
  · rw [h]
    exact iff_of_true rfl hall

end Json

namespace Value

/-- A handle of a page is written as a record of its number. -/
theorem encode_page (style : Json.Style) (now : Option Moment) (depth : Nat) (id : Number) :
    (Value.page id).encode style now depth .itself =
      (Value.record [("pageId", .number id)]).encode style now depth .itself :=
  rfl

/-- A shared record shows no fields when it is written. -/
theorem encode_shared (style : Json.Style) (now : Option Moment) (depth : Nat) (name : String) :
    (Value.shared name).encode style now depth .itself =
      (Value.record []).encode style now depth .itself :=
  rfl

theorem encodeItems_eq_map (style : Json.Style) (now : Option Moment) (depth : Nat)
    (items : List Value) :
    encodeItems style now depth items = items.map (encode style now depth · .itself) := by
  induction items with
  | nil => rfl
  | cons v rest ih => rw [encodeItems, ih, List.map_cons]

section

variable {style : Json.Style} (hlimits : style.limits = none) (now : Option Moment) (depth : Nat)
include hlimits

/-- Without limits a list is written item by item. -/
theorem encode_list (items : List Value) :
    (Value.list items).encode style now depth .itself =
      (Json.collectItems (items.map (encode style now (depth + 1) · .itself))).map fun documents =>
        some (.list documents) := by
  rw [encode, encodeItems_eq_map, inRole, Json.Style.list, Json.Style.reaches, hlimits]
  simp only [Bool.or_true, if_true]
  rfl

/-- Without limits a record is written field by field. -/
theorem encode_record (fs : Fields Value) :
    (Value.record fs).encode style now depth .itself =
      (Json.collectFields
        (fs.map fun field => (field.1, encode style now (depth + 1) field.2 .itself))).map
          fun documents => some (.object documents) := by
  rw [encode, encodeFields_eq_map, inRole, Json.Style.object, Json.Style.reaches, hlimits]
  simp only [Bool.or_true, if_true]
  rfl

/-- Without limits the outcome of a record is an object, or an obstacle. -/
theorem isOk_encode_record (fs : Fields Value) :
    ((Value.record fs).encode style now depth .itself).isOk = true ↔
      ∃ document, (Value.record fs).encode style now depth .itself = .ok (some document) := by
  rw [encode_record hlimits]
  cases Json.collectFields
      (fs.map fun field => (field.1, encode style now (depth + 1) field.2 .itself)) with
  | error _ => exact iff_of_false Bool.false_ne_true nofun
  | ok documents => exact iff_of_true rfl ⟨.object documents, rfl⟩

end

/-! ### What a value holds -/

/-- A value is written when another one is. -/
inductive Holds (now : Option Moment) : Value → Value → Prop
  | self (v : Value) : Holds now v v
  | item {items : List Value} {v w : Value} : v ∈ items → Holds now v w → Holds now (.list items) w
  | field {fs : List (String × Value)} {field : String × Value} {w : Value} :
    field ∈ fs → Holds now field.2 w → Holds now (.record fs) w
  | shown {head : ErrorHead} {context : List (String × Value)} {cause w : Value} :
    head.details = none → Holds now (.record (errorFields head context)) w →
    Holds now (.error head context cause) w
  | reported {head : ErrorHead} {context : List (String × Value)} {cause w : Value}
    {report : Report} : head.details.isSome = true →
    Report.ofValue false now (.error head context cause) = some report →
    Holds now report.toValue w → Holds now (.error head context cause) w

end Value

/-- A value cannot be written by itself: a large integer or a reference back without a word for it,
or an error whose report has a time that is on no calendar. -/
def Json.Style.Refuses (style : Json.Style) (now : Option Moment) : Value → Prop
  | .bigint _ => style.bigint = none
  | .back _ => style.cycle = none
  | .error head context cause =>
    head.details.isSome = true ∧ Report.isDated now (.error head context cause) = false
  | _ => False

namespace Value

/-- Nothing that a value holds is refused. -/
def IsWritable (style : Json.Style) (now : Option Moment) (v : Value) : Prop :=
  ∀ w, v.Holds now w → ¬ style.Refuses now w

section

variable {style : Json.Style} {now : Option Moment}

theorem isWritable_leaf {v : Value} (hv : v.isLeaf = true) :
    v.IsWritable style now ↔ ¬ style.Refuses now v := by
  refine ⟨fun h => h v (.self v), fun h w hw => ?_⟩
  cases hw with
  | self => exact h
  | _ => cases hv

theorem isWritable_list {items : List Value} :
    (Value.list items).IsWritable style now ↔ ∀ v ∈ items, v.IsWritable style now := by
  refine ⟨fun h v hv w hw => h w (.item hv hw), fun h w hw => ?_⟩
  cases hw with
  | self => exact id
  | item hv hw => exact h _ hv w hw

theorem isWritable_record {fs : Fields Value} :
    (Value.record fs).IsWritable style now ↔ ∀ field ∈ fs, field.2.IsWritable style now := by
  refine ⟨fun h field hfield w hw => h w (.field hfield hw), fun h w hw => ?_⟩
  cases hw with
  | self => exact id
  | field hfield hw => exact h _ hfield w hw

variable {head : ErrorHead} {context : Fields Value} {cause : Value}

theorem isWritable_shown (hd : head.details = none) :
    (Value.error head context cause).IsWritable style now ↔
      (Value.record (errorFields head context)).IsWritable style now := by
  have hsome : ¬ head.details.isSome = true := by
    rw [hd]
    exact Bool.false_ne_true
  refine ⟨fun h w hw => h w (.shown hd hw), fun h w hw => ?_⟩
  cases hw with
  | self => exact fun hrefuses => hsome hrefuses.1
  | shown _ hw => exact h w hw
  | reported hd _ _ => exact absurd hd hsome

theorem isWritable_reported (hd : head.details.isSome = true) :
    (Value.error head context cause).IsWritable style now ↔
      ∃ report, Report.ofValue false now (.error head context cause) = some report ∧
        report.toValue.IsWritable style now := by
  constructor
  · intro h
    have hdated : Report.isDated now (.error head context cause) = true := by
      by_contra hundated
      exact h _ (.self _) ⟨hd, Bool.eq_false_iff.mpr hundated⟩
    rw [← Report.isSome_ofValue false] at hdated
    obtain ⟨report, hreport⟩ := Option.isSome_iff_exists.mp hdated
    exact ⟨report, hreport, fun w hw => h w (.reported hd hreport hw)⟩
  · rintro ⟨report, hreport, h⟩ w hw
    cases hw with
    | self =>
      rintro ⟨-, hundated⟩
      rw [isDated_of_ofValue hreport] at hundated
      cases hundated
    | shown hnone _ =>
      rw [hnone] at hd
      cases hd
    | reported _ hfound hw =>
      rw [hreport] at hfound
      cases hfound
      exact h w hw

end

/-- **A value is written exactly when it holds nothing that is refused**, if there are no limits to
what is written. -/
theorem isOk_encode_iff {style : Json.Style} (hlimits : style.limits = none) (now : Option Moment)
    (v : Value) (depth : Nat) :
    (v.encode style now depth .itself).isOk = true ↔ v.IsWritable style now := by
  induction v using Value.formInduction now generalizing depth with
  | leaf v hv =>
    rw [isWritable_leaf hv]
    cases v with
    | list _ | record _ | error _ _ _ => cases hv
    | bigint i =>
      rw [encode, inRole, Json.Style.Refuses]
      cases style.bigint <;> simp [Except.isOk, Except.toBool, Json.Outcome.done]
    | back n =>
      rw [encode, inRole, Json.Style.Refuses]
      cases style.cycle <;> simp [Except.isOk, Except.toBool, Json.Outcome.done]
    | page id =>
      rw [encode_page, encode_record hlimits]
      exact iff_of_true rfl fun h => h
    | shared name =>
      rw [encode_shared, encode_record hlimits]
      exact iff_of_true rfl id
    | _ => exact iff_of_true rfl id
  | list items ih =>
    rw [isWritable_list, encode_list hlimits, Json.isOk_map, Json.isOk_collectItems,
      List.forall_mem_map]
    exact forall₂_congr fun v hv => ih v hv (depth + 1)
  | record fs ih =>
    rw [isWritable_record, encode_record hlimits, Json.isOk_map, Json.isOk_collectFields,
      List.forall_mem_map]
    exact forall₂_congr fun field hfield => ih field hfield (depth + 1)
  | shown head context cause hd ih => rw [encode_plain_error style hd, isWritable_shown hd, ih]
  | reported head context cause hd ih =>
    rw [isWritable_reported hd]
    cases hreport : Report.ofValue false now (.error head context cause) with
    | none =>
      rw [encode_undated style hd hreport]
      refine iff_of_false Bool.false_ne_true ?_
      rintro ⟨report, hsome, -⟩
      cases hsome
    | some report =>
      rw [encode_detailed style hd hreport, ih report hreport]
      refine ⟨fun h => ⟨report, rfl, h⟩, ?_⟩
      rintro ⟨found, hsome, h⟩
      cases hsome
      exact h

end Value
end StorageKit
