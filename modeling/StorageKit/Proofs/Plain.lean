/-
Records of plain values, written and read back.

A plain value is one that JSON has a form for, or nothing at all; a plain name is one that loggers
leave alone and that stands between quotes as it is.  Whichever logger writes them, and however deep
they lie, plain values have one document, and a reader gets the values back.

* `Value.IsPlain`, `IsPlainName`, `PlainFields` — plain values, plain names, and records of them;
* `Json.toValue` — the value that a reader makes of a document;
* `documents` — the documents of the fields that are given a value;
* `Json.collectFields_encodeFields`, `StructuredLogger.lineOf_eq` — what both loggers write of plain
  fields is their documents;
* `Fields.toldOf` — what a reader of an entry is told under a name;
* `Fields.toldOf_documents` — **of plain fields a reader is told the values they were given**.

Design notes: a reader is told what the last field of a name says, so look-ups go through reversed
lists; for a record, whose names are distinct, this makes no difference.  Only the sign of a zero
is lost on the way (`Value.plainZero`).
-/
import StorageKit.Log.Structured
import StorageKit.Proofs.Entries
import StorageKit.Proofs.ReadBack

namespace StorageKit

/-! ### Plain values -/

namespace Value

/-- Nothing, `null`, a truth value, a text, or a finite number of the 64-bit format. -/
def IsPlain : Value → Prop
  | .undefined | .null | .bool _ | .text _ => True
  | .number x => x.isFinite = true ∧ x.IsBinary64
  | _ => False

instance : DecidablePred IsPlain
  | .number x => inferInstanceAs (Decidable (x.isFinite = true ∧ x.IsBinary64))
  | .undefined | .null | .bool _ | .text _ => inferInstanceAs (Decidable True)
  | .bigint _ | .half _ | .date _ | .page _ | .list _ | .record _ | .shared _ | .back _ | .method _
  | .error .. => inferInstanceAs (Decidable False)

/-- The document of a plain value that was given. -/
def plainDocument : Value → Json
  | .bool b => .bool b
  | .number x => .number x.text
  | .text s => .text s
  | _ => .null

/-- The same value with a zero's sign forgotten. -/
def plainZero : Value → Value
  | .number x => .number x.plainZero
  | v => v

/-- A plain value has one document in every style, at every time and depth. -/
theorem encode_of_isPlain {v : Value} (h : v.IsPlain) (style : Json.Style) (now : Option Moment)
    (depth : Nat) :
    v.encode style now depth .itself =
      .ok (if v.isUndefined then none else some v.plainDocument) := by
  cases v with
  | undefined | null | bool | text => rfl
  | number x =>
    rw [encode, inRole, numberDocument, if_pos h.1]
    rfl
  | _ => exact h.elim

/-- No part of a plain value refers to what is around it. -/
theorem unfold_of_isPlain {v : Value} (h : v.IsPlain) (whole : Value) (depth : Nat) :
    unfold whole depth v = v := by
  cases v with
  | undefined | null | bool | text | number => rfl
  | _ => exact h.elim

theorem unfoldFields_of_isPlain {fs : Fields Value} (h : ∀ field ∈ fs, field.2.IsPlain)
    (whole : Value) (depth : Nat) : unfoldFields whole depth fs = fs := by
  induction fs with
  | nil => rfl
  | cons field rest ih =>
    obtain ⟨hfield, hrest⟩ := List.forall_mem_cons.mp h
    rw [unfoldFields, unfold_of_isPlain hfield, ih hrest]

end Value

namespace Json

mutual

/-- The value that a reader makes of a document. -/
def toValue : Json → Value
  | .null => .null
  | .bool b => .bool b
  | .number token => .number (Number.ofText token)
  | .text s => .text s
  | .half unit => .half unit
  | .list items => .list (toValues items)
  | .object fields => .record (toFields fields)
termination_by structural j => j

def toValues : List Json → List Value
  | [] => []
  | j :: rest => toValue j :: toValues rest
termination_by structural items => items

def toFields : List (String × Json) → List (String × Value)
  | [] => []
  | (name, j) :: rest => (name, toValue j) :: toFields rest
termination_by structural fields => fields

end

/-- A document that is read as it was written. -/
structure ReadsBack (j : Json) : Prop where
  legible : j.Legible
  settled : j.settled = j

theorem legibleFields_of_readsBack {docs : Fields Json} (h : ∀ doc ∈ docs, doc.2.ReadsBack) :
    LegibleFields docs := by
  induction docs with
  | nil => trivial
  | cons doc rest ih =>
    obtain ⟨hdoc, hrest⟩ := List.forall_mem_cons.mp h
    exact ⟨hdoc.legible, ih hrest⟩

theorem settledFields_of_readsBack {docs : Fields Json} (h : ∀ doc ∈ docs, doc.2.ReadsBack) :
    settledFields docs = docs := by
  induction docs with
  | nil => rfl
  | cons doc rest ih =>
    obtain ⟨hdoc, hrest⟩ := List.forall_mem_cons.mp h
    rw [settledFields, hdoc.settled, ih hrest]

/-- An object of such documents is read as the record that results from writing its fields in
order. -/
theorem read?_object {docs : Fields Json} (h : ∀ doc ∈ docs, doc.2.ReadsBack) :
    read? (render (.object docs)) = some (.object (Fields.ofList docs)) := by
  rw [read?_render (j := .object docs) (legibleFields_of_readsBack h), settled,
    settledFields_of_readsBack h]

end Json

namespace Value

theorem readsBack_plainDocument {v : Value} (h : v.IsPlain) : v.plainDocument.ReadsBack := by
  cases v with
  | number x => exact ⟨⟨Number.isToken_text h.1, Number.isNumeric_text h.1⟩, rfl⟩
  | _ => exact ⟨trivial, rfl⟩

theorem toValue_plainDocument {v : Value} (h : v.IsPlain) (hdefined : v.isUndefined = false) :
    v.plainDocument.toValue = v.plainZero := by
  cases v with
  | null | bool | text => rfl
  | number x => exact congrArg Value.number (Number.ofText_text h.1 h.2)
  | undefined => cases hdefined
  | _ => exact h.elim

end Value

/-! ### Plain records -/

/-- Names that loggers use themselves, or that say how an entry is to be written. -/
def specialNames : List String :=
  ["timestamp", "time", "level", "message", "msg", "pid", "hostname", "err", "serializers",
    "formatters", "customLevels", "method", "headers", "socket"]

/-- A name that loggers treat in a way of their own. -/
def isSpecialName (name : String) : Bool := specialNames.contains name || Members.isInherited name

theorem isSpecialName_eq_false_iff {name : String} :
    isSpecialName name = false ↔ name ∉ specialNames ∧ Members.isInherited name = false := by
  simp [isSpecialName]

/-- A name that loggers leave alone, of characters that stand for themselves between quotes. -/
structure IsPlainName (name : String) : Prop where
  ordinary : isSpecialName name = false
  unescaped : (name.toList.all fun c => Quoted.escape c = [c]) = true

/-- Distinct plain names, each with a plain value. -/
structure PlainFields (fs : Fields Value) : Prop where
  distinct : (Fields.names fs).Nodup
  names : ∀ field ∈ fs, IsPlainName field.1
  values : ∀ field ∈ fs, field.2.IsPlain

instance (name : String) : Decidable (IsPlainName name) :=
  decidable_of_iff
    (isSpecialName name = false ∧ (name.toList.all fun c => Quoted.escape c = [c]) = true)
    ⟨fun ⟨h, h'⟩ => ⟨h, h'⟩, fun ⟨h, h'⟩ => ⟨h, h'⟩⟩

instance (fs : Fields Value) : Decidable (PlainFields fs) :=
  decidable_of_iff
    ((Fields.names fs).Nodup ∧ (∀ field ∈ fs, IsPlainName field.1) ∧
      ∀ field ∈ fs, field.2.IsPlain)
    ⟨fun ⟨h, h', h''⟩ => ⟨h, h', h''⟩, fun ⟨h, h', h''⟩ => ⟨h, h', h''⟩⟩

theorem IsPlainName.body_eq {name : String} (h : IsPlainName name) :
    Quoted.body name.toList = name.toList := by
  have hself : ∀ c ∈ name.toList, Quoted.escape c = [c] := fun c hc =>
    of_decide_eq_true (List.all_eq_true.mp h.unescaped c hc)
  rw [Quoted.body, List.flatMap_congr hself, List.flatMap_singleton']

/-- A special name is not among plain ones. -/
theorem notMem_names_of_special {fs : Fields Value} (h : ∀ field ∈ fs, IsPlainName field.1)
    {name : String} (hname : isSpecialName name = true) : name ∉ Fields.names fs := by
  intro hmem
  obtain ⟨field, hfield, rfl⟩ := List.mem_map.mp hmem
  rw [(h field hfield).ordinary] at hname
  cases hname

/-- The documents of the fields that are given a value. -/
def documents (fs : Fields Value) : Fields Json :=
  (Value.definedFields fs).map fun field => (field.1, field.2.plainDocument)

theorem documents_cons (name : String) (v : Value) (rest : Fields Value) :
    documents ((name, v) :: rest) =
      if v.isUndefined then documents rest else (name, v.plainDocument) :: documents rest := by
  rw [documents, Value.definedFields, List.filter_cons]
  cases v.isUndefined <;> rfl

theorem readsBack_documents {fs : Fields Value} (h : ∀ field ∈ fs, field.2.IsPlain) :
    ∀ doc ∈ documents fs, doc.2.ReadsBack := by
  intro doc hdoc
  obtain ⟨field, hfield, rfl⟩ := List.mem_map.mp hdoc
  exact Value.readsBack_plainDocument (h field (List.mem_of_mem_filter hfield))

theorem Json.collectFields_encodeFields {fs : Fields Value} (h : ∀ field ∈ fs, field.2.IsPlain)
    (style : Json.Style) (now : Option Moment) (depth : Nat) :
    collectFields (Value.encodeFields style now depth fs) = .ok (documents fs) := by
  induction fs with
  | nil => rfl
  | cons field rest ih =>
    obtain ⟨name, v⟩ := field
    obtain ⟨hv, hrest⟩ := List.forall_mem_cons.mp h
    rw [Value.encodeFields, Value.encode_of_isPlain hv, collectFields, ih hrest, documents_cons]
    cases v.isUndefined <;> rfl

/-! ### What a reader is told -/

/-- What an entry tells its reader under a name, the last of its fields counting. -/
def Fields.toldOf (name : String) (docs : Fields Json) : Option Value :=
  (Fields.get? name docs.reverse).map Json.toValue

namespace Fields

variable {name : String}

theorem toldOf_append (docs more : Fields Json) :
    toldOf name (docs ++ more) = (toldOf name more).or (toldOf name docs) := by
  rw [toldOf, List.reverse_append, get?_append, Option.map_or]
  rfl

theorem toldOf_eq_none {docs : Fields Json} (h : name ∉ names docs) : toldOf name docs = none := by
  have hreverse : name ∉ names docs.reverse := by
    rw [names, List.map_reverse, List.mem_reverse]
    exact h
  rw [toldOf, get?_eq_none_iff.mpr hreverse]
  rfl

/-- A reader of the record that results from writing fields in order finds under a name what the
last of them says. -/
theorem get?_ofList (docs : Fields Json) (name : String) :
    (get? name (ofList docs)).map Json.toValue = toldOf name docs := by
  rw [ofList, get?_overlay]
  exact congrArg _ Option.or_none

/-- **Of plain fields a reader is told the values they were given**; only the sign of a zero is
lost. -/
theorem toldOf_documents {fs : Fields Value} (hnames : (names fs).Nodup)
    (hvalues : ∀ field ∈ fs, field.2.IsPlain) :
    toldOf name (documents fs) =
      (get? name (Value.definedFields fs)).map Value.plainZero := by
  have hdistinct : (names (documents fs)).Nodup := by
    rw [documents, names_map]
    exact nodup_names_filter _ hnames
  rw [toldOf, get?_reverse hdistinct, documents, get?_map, Option.map_map]
  refine Option.map_congr fun v hv => ?_
  obtain ⟨hmem, hdefined⟩ := List.mem_filter.mp (mem_of_get? hv)
  exact Value.toValue_plainDocument (hvalues _ hmem) (by simpa using hdefined)

end Fields

/-! ### Lines -/

/-- Fields of a line whose names are quoted. -/
def Line.ofDocuments (docs : Fields Json) : Line :=
  docs.map fun doc => .quoted doc.1 doc.2.render

namespace Line

theorem ofDocuments_append (docs more : Fields Json) :
    ofDocuments (docs ++ more) = ofDocuments docs ++ ofDocuments more := List.map_append

theorem renderFields_ofDocuments (docs : Fields Json) :
    renderFields (ofDocuments docs) = Json.renderFields docs := by
  induction docs with
  | nil => rfl
  | cons doc rest ih =>
    obtain ⟨name, j⟩ := doc
    cases rest with
    | nil => simp [ofDocuments, renderFields, Json.renderFields, Printed.render, Printed.quoted,
        Quoted.encode]
    | cons next rest =>
      rw [Json.renderFields, ← ih]
      · simp [ofDocuments, renderFields, Printed.render, Printed.quoted, Quoted.encode]
      · nofun

/-- A line of quoted fields is read as the record that results from writing them in order. -/
theorem read_ofDocuments {docs : Fields Json} (h : ∀ doc ∈ docs, doc.2.ReadsBack) :
    read (ofDocuments docs) = some (Fields.ofList docs) := by
  have hrender : render (ofDocuments docs) = Json.render (.object docs) := by
    rw [render, renderFields_ofDocuments, Json.render]
  rw [read, hrender, Json.read?_object h]

end Line

namespace StructuredLogger

/-- A plain name is printed alike in a context and in a call. -/
theorem print_eq {name : String} (h : IsPlainName name) (place : Place) (value : List Char) :
    place.print name value = .quoted name value := by
  cases place with
  | context => rw [Place.print, Printed.bare, Printed.quoted, h.body_eq]
  | call => rfl

theorem documentOf_eq {v : Value} (h : v.IsPlain) (now : Clock) :
    documentOf now v = if v.isUndefined then none else some v.plainDocument := by
  unfold documentOf
  rw [Value.encode_of_isPlain h]

theorem valueText_eq {name : String} {v : Value} (hname : IsPlainName name) (hv : v.IsPlain)
    (style : CauseStyle) (now : Clock) (place : Place) :
    valueText style now place name v =
      .ok (if v.isUndefined then none else some v.plainDocument.render) := by
  obtain ⟨hspecial, hinherited⟩ := isSpecialName_eq_false_iff.mp hname.ordinary
  have hmember : Members.names.contains name = false := (Bool.or_eq_false_iff.mp hinherited).2
  have herr : name ≠ "err" := by
    rintro rfl
    exact hspecial (by decide)
  rw [valueText, hmember, if_neg herr]
  show Except.ok ((documentOf now v).map Json.render) = _
  rw [documentOf_eq hv]
  cases v.isUndefined <;> rfl

/-- Plain fields are written as their documents, in a context and in a call. -/
theorem lineOf_eq {fs : Fields Value} (hnames : ∀ field ∈ fs, IsPlainName field.1)
    (hvalues : ∀ field ∈ fs, field.2.IsPlain) (style : CauseStyle) (now : Clock) (place : Place) :
    lineOf style now place fs = .ok (Line.ofDocuments (documents fs)) := by
  induction fs with
  | nil => rfl
  | cons field rest ih =>
    obtain ⟨name, v⟩ := field
    obtain ⟨hname, hnames⟩ := List.forall_mem_cons.mp hnames
    obtain ⟨hv, hvalues⟩ := List.forall_mem_cons.mp hvalues
    rw [lineOf, ih hnames hvalues, valueText_eq hname hv, documents_cons]
    cases hundefined : v.isUndefined with
    | true => rfl
    | false => exact congrArg (fun p => Except.ok (p :: _)) (print_eq hname place _)

end StructuredLogger
end StorageKit
