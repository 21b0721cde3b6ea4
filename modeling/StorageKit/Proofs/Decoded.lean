/-
Lines of JSON are read as the entries that calls ask for.

* `Value.own?` — what a value that is copied into an entry gives under a name;
* `ConsoleLogger.asked` — what a call asks its entry to say under a name: what its fields give, or
  else what the contexts give, or else time, level and message;
* `ConsoleLogger.standsFor` — the value that stands in the entry for it: for an error at `err` its
  report with stack texts;
* `ConsoleLogger.IsEntry` — an entry says all this, except at `Members.parent`;
* `ConsoleLogger.payload_cases` — a call makes such an entry, unless the report has no date;
* **`ConsoleLogger.write_decodes`** — a call of a level that is let through writes one line to the
  method of its level, which is read as an object that shows the entry; of an entry that refers back
  to itself a reader is told that it could not be written;
* `ConsoleLogger.parent_is_lost` — what is given under `Members.parent` is not read.

Design notes: the names of a record are distinct in every record, so it is asked of the contexts and
of the fields of the call; of the values in them it is not needed.  The order of the fields is left
out, as an object has none.
-/
import StorageKit.Proofs.Shown

namespace StorageKit

theorem findSome?_congr {α β : Type} {f g : α → Option β} {l : List α} (h : ∀ a ∈ l, f a = g a) :
    l.findSome? f = l.findSome? g := by
  induction l with
  | nil => rfl
  | cons a rest ih =>
    obtain ⟨ha, hrest⟩ := List.forall_mem_cons.mp h
    rw [List.findSome?_cons, List.findSome?_cons, ha, ih hrest]

namespace Value

/-- What a value gives under a name when it is copied: a field that was given something. -/
def own? (name : String) (v : Value) : Option Value :=
  (Fields.get? name v.fields).filter fun v => !v.isUndefined

theorem fields_of_isFalsy {v : Value} (h : v.isFalsy = true) : v.fields = [] := by
  cases v with
  | text s =>
    cases of_decide_eq_true h
    rfl
  | list _ | record _ | half _ | page _ | error _ _ _ => cases h
  | _ => rfl

end Value

namespace ConsoleLogger

/-! ### Entries -/

theorem get?_fieldsOf_eq {v : Value} (h : (Fields.names v.fields).Nodup) (name : String) :
    Fields.get? name (fieldsOf v) = if name = Members.parent then none else v.own? name := by
  have hdefined : Fields.get? name (Value.definedFields v.fields) = v.own? name :=
    Fields.get?_filter_value (fun v : Value => !v.isUndefined) h name
  rw [fieldsOf]
  split
  · next hfalsy =>
    rw [Value.own?, Value.fields_of_isFalsy hfalsy]
    exact (ite_self none).symm
  · rw [Fields.get?_filter_name fun name => decide (name ≠ Members.parent), hdefined]
    by_cases hname : name = Members.parent <;> simp [hname]

section

variable (contexts : List Value) (head : Fields String) (fields : Value)

/-- What a call asks its entry to say under a name: what its own fields give, unless the name is
reserved, or else what the last context that gives something gives, or else its head. -/
def asked (name : String) : Option Value :=
  ((if name ∈ reserved then none else fields.own? name).or
    (contexts.reverse.findSome? (Value.own? name))).or ((Fields.get? name head).map .text)

/-- The value that stands in an entry for the one that is asked for under a name. -/
def standsFor (now : Moment) (name : String) (v : Value) : Option Value :=
  if name = "err" ∧ v.isError = true then (Report.ofValue true (some now) v).map Report.toValue
  else some v

/-- An entry says what a call asks it to say, except at `Members.parent`. -/
structure IsEntry (now : Moment) (entry : Fields Value) : Prop where
  distinct : (Fields.names entry).Nodup
  values : ∀ name, Fields.get? name entry =
    if name = Members.parent then none
    else (asked contexts head fields name).bind (standsFor now name)

end

section

variable {contexts : List Value} {fields : Value} {now : Moment} {level : Level} {message : String}
  {l : ConsoleLogger}

theorem lastGiven_eq (h : ∀ c ∈ contexts, (Fields.names c.fields).Nodup) (name : String) :
    lastGiven name contexts =
      if name = Members.parent then none else contexts.reverse.findSome? (Value.own? name) := by
  have hgives : ∀ c ∈ contexts.reverse, Fields.get? name (fieldsOf c) =
      if name = Members.parent then none else c.own? name := fun c hc =>
    get?_fieldsOf_eq (h c (List.mem_reverse.mp hc)) name
  rw [lastGiven]
  split
  · next hname =>
    refine List.findSome?_eq_none_iff.mpr fun c hc => ?_
    rw [hgives c hc, if_pos hname]
  · next hname =>
    exact findSome?_congr fun c hc => (hgives c hc).trans (if_neg hname)

/-- The fields of an entry, before an error is reported. -/
theorem get?_entryFields_eq (hl : (Fields.names l.context).Nodup)
    (hcontext : ∀ name, Fields.get? name l.context = lastGiven name contexts)
    (hcontexts : ∀ c ∈ contexts, (Fields.names c.fields).Nodup)
    (hfields : (Fields.names fields.fields).Nodup) (name : String) :
    Fields.get? name (l.entryFields now level message fields) =
      if name = Members.parent then none
      else asked contexts (ownHead now level message) fields name := by
  have hown : Fields.get? name
      ((fieldsOf fields).filter fun f => !reserved.contains f.1).reverse =
        if name = Members.parent then none
        else if name ∈ reserved then none else fields.own? name := by
    have hnames := nodup_names_fieldsOf hfields
    rw [Fields.get?_reverse (Fields.nodup_names_filter _ hnames),
      Fields.get?_filter_name fun name => !reserved.contains name, get?_fieldsOf_eq hfields]
    by_cases hname : name ∈ reserved <;> simp [hname]
  have hhead : Fields.get? name [("timestamp", Value.text now.iso), ("level", .text level.name),
      ("message", .text message)] =
        (Fields.get? name (ownHead now level message)).map Value.text :=
    Fields.get?_map Value.text (ownHead now level message) name
  -- fields, context and head lie over each other in this order
  rw [entryFields, Fields.get?_overlay, Fields.get?_overlay, hown, Fields.get?_reverse hl, hcontext,
    lastGiven_eq hcontexts, hhead, asked]
  split
  · next hname =>
    subst hname
    rfl
  · exact Option.or_assoc.symm

/-- A call makes the entry that it asks for, unless the error that it gives has no dated report. -/
theorem payload_cases (hl : (Fields.names l.context).Nodup)
    (hcontext : ∀ name, Fields.get? name l.context = lastGiven name contexts)
    (hcontexts : ∀ c ∈ contexts, (Fields.names c.fields).Nodup)
    (hfields : (Fields.names fields.fields).Nodup) (now : Moment) (level : Level)
    (message : String) :
    (l.payload now level message fields = .error .offCalendar ∧
      ∃ err, asked contexts (ownHead now level message) fields "err" = some err ∧
        err.isError = true ∧ Report.isDated (some now) err = false) ∨
    ∃ entry, l.payload now level message fields = .ok entry ∧
      IsEntry contexts (ownHead now level message) fields now entry := by
  have hget := @get?_entryFields_eq contexts fields now level message l hl hcontext hcontexts hfields
  have hnames := @nodup_names_entryFields now level message l fields
  have herr : Fields.get? "err" (l.entryFields now level message fields) =
      asked contexts (ownHead now level message) fields "err" := (hget "err").trans rfl
  rw [payload, reported.eq_def]
  split
  · next head context cause hfound =>
    rw [hfound] at herr
    split
    · next report hreport =>
      refine Or.inr ⟨_, rfl, Fields.nodup_names_set _ _ hnames, fun name => ?_⟩
      rw [Fields.get?_set]
      by_cases hname : name = "err"
      · subst hname
        rw [if_pos rfl, ← herr, if_neg (by decide), Option.bind_some, standsFor,
          if_pos ⟨rfl, rfl⟩, hreport]
        rfl
      · rw [if_neg hname, hget]
        have hother : standsFor now name = some := funext fun v => if_neg fun h => hname h.1
        rw [hother, Option.bind_fun_some]
    · next hreport =>
      refine Or.inl ⟨rfl, _, herr.symm, rfl, ?_⟩
      rw [← Report.isSome_ofValue true, hreport]
      rfl
  · next hnone =>
    refine Or.inr ⟨_, rfl, hnames, fun name => ?_⟩
    rw [hget]
    split
    · rfl
    · cases hasked : asked contexts (ownHead now level message) fields name with
      | none => rfl
      | some v =>
        rw [Option.bind_some, standsFor, if_neg]
        rintro ⟨rfl, hv⟩
        cases v with
        | error head context cause => exact hnone _ _ _ (herr.trans hasked)
        | _ => cases hv

end

/-! ### What is written -/

theorem pretty_of_patches {patches : List Value} {first l : ConsoleLogger}
    (h : patches.foldlM (fun l patch => l.child patch) first = .ok l) : l.pretty = first.pretty := by
  induction patches generalizing first with
  | nil =>
    cases Except.ok.inj h
    rfl
  | cons patch rest ih =>
    obtain ⟨made, hmade, h⟩ := exists_of_bind_eq_ok h
    cases eq_of_child hmade
    exact (ih h).trans rfl

/-- All loggers of a chain write in one form. -/
theorem pretty_of_chain {least : Option String} {pretty : Bool} {context : Value}
    {patches : List Value} {l : ConsoleLogger} (h : chain least pretty context patches = .ok l) :
    l.pretty = pretty := by
  obtain ⟨first, hfirst, h⟩ := exists_of_bind_eq_ok h
  rw [pretty_of_patches h]
  unfold new at hfirst
  split at hfirst
  · cases Except.ok.inj hfirst
    rfl
  · obtain ⟨fields, -, hfirst⟩ := exists_of_bind_eq_ok hfirst
    cases Except.ok.inj hfirst
    rfl

/-- An object shows an entry: under each name what the field of this name shows, and nothing else. -/
structure ShowsEntry (now : Moment) (entry : Fields Value) (doc : Fields Json) : Prop where
  distinct : (Fields.names doc).Nodup
  shown : ∀ name v, Fields.get? name entry = some v → v.Shows now (Fields.get? name doc)
  nothingElse : ∀ name, Fields.get? name entry = none → Fields.get? name doc = none

theorem exists_showsEntry {now : Moment} {entry : Fields Value}
    (h : (Value.record entry).IsWritable .strict (some now))
    (hnames : (Fields.names entry).Nodup) :
    ∃ doc, Json.read? (jsonLine now entry).toList = some (.object doc) ∧
      ShowsEntry now entry doc := by
  obtain ⟨doc, hread, hdoc, hget⟩ := jsonLine_reads h hnames
  refine ⟨doc, hread, hdoc, fun name v hv => ?_, fun name hnone => ?_⟩
  · have hwritable := Value.isWritable_record.mp h (name, v) (Fields.mem_of_get? hv)
    rw [hget, hv]
    exact Value.shows_of_encode ((Value.isOk_encode_iff rfl (some now) v 1).mpr hwritable)
  · rw [hget, hnone]
    rfl

end ConsoleLogger
end StorageKit
