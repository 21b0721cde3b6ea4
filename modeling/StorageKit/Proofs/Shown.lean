/-
What a reader of a line of JSON finds for a value.

* `Value.Shows` — the document that a reader finds for a value, or none if nothing is written;
  `Value.Shows.unique` — there is only one;
* `Value.legible_of_encode` — what is written for a value can be read;
* `Value.shows_of_encode` — what is read is what the value shows;
* `Json.printable_render` — what is written for a document is on one line;
* **`ConsoleLogger.jsonLine_reads`** — a line of JSON is read as an object that shows under each name
  what the field of this name shows, or else it says that it could not be written.

Design notes: numbers are compared by the token that is written for them.  What is found for a value
depends only on the value, so what is found for the parts of a list or of a record is a function of
the part, and the rules for them take one.
-/
import StorageKit.Proofs.Held
import StorageKit.Proofs.ReadBack

namespace StorageKit

/-! ### Documents with parts -/

namespace Json

theorem settledItems_eq_map (items : List Json) : settledItems items = items.map settled := by
  induction items with
  | nil => rfl
  | cons j rest ih => rw [settledItems, ih, List.map_cons]

theorem settledFields_eq_map (fields : Fields Json) :
    settledFields fields = fields.map fun field => (field.1, field.2.settled) := by
  induction fields with
  | nil => rfl
  | cons field rest ih =>
    obtain ⟨name, j⟩ := field
    rw [settledFields, ih, List.map_cons]

theorem legibleItems_iff {items : List Json} : LegibleItems items ↔ ∀ j ∈ items, j.Legible := by
  induction items with
  | nil => exact iff_of_true trivial nofun
  | cons j rest ih => rw [LegibleItems, ih, List.forall_mem_cons]

theorem legibleFields_iff {fields : Fields Json} :
    LegibleFields fields ↔ ∀ field ∈ fields, field.2.Legible := by
  induction fields with
  | nil => exact iff_of_true trivial nofun
  | cons field rest ih =>
    obtain ⟨name, j⟩ := field
    rw [LegibleFields, ih, List.forall_mem_cons]

/-! ### One line -/

/-- There are no characters below the space among these. -/
def Printable (cs : List Char) : Prop := ∀ c ∈ cs, 0x20 ≤ c.toNat

theorem printable_nil : Printable [] := List.forall_mem_nil _

theorem printable_of_all {cs : List Char} (h : cs.all (fun c => 0x20 ≤ c.toNat) = true) :
    Printable cs := fun c hc => of_decide_eq_true (List.all_eq_true.mp h c hc)

theorem printable_append {cs ds : List Char} (hcs : Printable cs) (hds : Printable ds) :
    Printable (cs ++ ds) := List.forall_mem_append.mpr ⟨hcs, hds⟩

theorem printable_cons {c : Char} {cs : List Char} (hc : 0x20 ≤ c.toNat) (hcs : Printable cs) :
    Printable (c :: cs) := List.forall_mem_cons.mpr ⟨hc, hcs⟩

theorem printable_hexDigit : ∀ d < 16, 0x20 ≤ (Quoted.hexDigit d).toNat := by decide

theorem printable_escapeUnit (unit : Nat) : Printable (Quoted.escapeUnit unit) := by
  have hdigit (n : Nat) : 0x20 ≤ (Quoted.hexDigit (n % 16)).toNat :=
    printable_hexDigit _ (Nat.mod_lt _ (by decide))
  refine printable_cons (by decide) (printable_cons (by decide) ?_)
  exact printable_cons (hdigit _) (printable_cons (hdigit _)
    (printable_cons (hdigit _) (printable_cons (hdigit _) printable_nil)))

theorem printable_escape (c : Char) : Printable (Quoted.escape c) := by
  rw [Quoted.escape]
  -- seven characters have letters
  iterate 7
    split
    · exact printable_cons (by decide) (printable_cons (by decide) printable_nil)
  split
  · exact printable_escapeUnit c.toNat
  · next hspace => exact printable_cons (Nat.not_lt.mp hspace) printable_nil

theorem printable_encode (s : String) : Printable (Quoted.encode s) := by
  refine printable_cons (by decide) (printable_append ?_ (printable_cons (by decide) printable_nil))
  intro c hc
  obtain ⟨d, -, hd⟩ := List.mem_flatMap.mp hc
  exact printable_escape d c hd

theorem le_toNat_of_isDigit {c : Char} (h : Numeral.isDigit c = true) : 0x20 ≤ c.toNat := by
  by_contra hlow
  have hbelow (d : Char) (hd : 0x20 ≤ d.toNat) : (d ≤ c) = False := by
    rw [Char.le_def, UInt32.le_iff_toNat_le]
    exact eq_false fun hle => hlow (hd.trans hle)
  simp [Numeral.isDigit, Numeral.digit?, hbelow] at h

theorem printable_of_isNumeral {token : String} (h : IsNumeral token) :
    Printable token.toList := by
  intro c hc
  have hnumeric := h.2 c hc
  simp only [Reader.isNumeric, Bool.or_eq_true, decide_eq_true_eq] at hnumeric
  obtain ((((hdigit | rfl) | rfl) | rfl) | rfl) | rfl := hnumeric
  · exact le_toNat_of_isDigit hdigit
  all_goals decide

mutual

/-- What is written for a document has no character below the space in it. -/
theorem printable_render : ∀ j : Json, j.Legible → Printable (render j)
  | .null, _ => printable_of_all rfl
  | .bool true, _ => printable_of_all rfl
  | .bool false, _ => printable_of_all rfl
  | .number _, h => printable_of_isNumeral h
  | .text s, _ => printable_encode s
  | .half unit, _ =>
    printable_cons (by decide)
      (printable_append (printable_escapeUnit unit) (printable_cons (by decide) printable_nil))
  | .list items, h =>
    printable_cons (by decide)
      (printable_append (printable_renderItems items h) (printable_cons (by decide) printable_nil))
  | .object fields, h =>
    printable_cons (by decide)
      (printable_append (printable_renderFields fields h) (printable_cons (by decide) printable_nil))
termination_by structural j => j

theorem printable_renderItems : ∀ items : List Json, LegibleItems items →
    Printable (renderItems items)
  | [], _ => printable_nil
  | [j], h => printable_render j h.1
  | j :: j' :: items, h =>
    printable_append (printable_render j h.1)
      (printable_cons (by decide) (printable_renderItems (j' :: items) h.2))
termination_by structural items => items

theorem printable_renderFields : ∀ fields : List (String × Json), LegibleFields fields →
    Printable (renderFields fields)
  | [], _ => printable_nil
  | [(name, j)], h =>
    printable_append (printable_encode name)
      (printable_cons (by decide) (printable_render j h.1))
  | (name, j) :: field :: fields, h =>
    printable_append (printable_encode name)
      (printable_cons (by decide) (printable_append (printable_render j h.1)
        (printable_cons (by decide) (printable_renderFields (field :: fields) h.2))))
termination_by structural fields => fields

end

end Json

namespace Value

/-! ### What is written can be read -/

theorem legible_numberDocument (x : Number) : (numberDocument x).Legible := by
  rw [numberDocument]
  split
  · next h => exact ⟨Number.isToken_text h, Number.isNumeric_text h⟩
  · trivial

/-- What is written for a value can be read. -/
theorem legible_of_encode (now : Option Moment) (v : Value) (depth : Nat) :
    ∀ j ∈ (v.encode .strict now depth .itself).document, j.Legible := by
  induction v using Value.formInduction now generalizing depth with
  | leaf v hv =>
    intro j hj
    cases v with
    | list _ | record _ | error _ _ _ => cases hv
    | undefined | method _ | back _ => cases hj
    | number x =>
      cases hj
      exact legible_numberDocument x
    | page id =>
      cases hj
      exact ⟨legible_numberDocument id, trivial⟩
    | date t =>
      cases hj
      cases t <;> trivial
    | _ =>
      cases hj
      trivial
  | list items ih =>
    rw [encode_list rfl]
    obtain ⟨-, obstacle, h⟩ | ⟨-, h⟩ :=
      Json.collectItems_eq (items.map (encode .strict now (depth + 1) · .itself))
    · rw [h]
      exact nofun
    · rw [h]
      intro j hj
      cases hj
      refine Json.legibleItems_iff.mpr fun j hj => ?_
      rw [List.map_map] at hj
      obtain ⟨v, hv, rfl⟩ := List.mem_map.mp hj
      -- an item that gives nothing is written as `null`
      cases hdocument : (v.encode .strict now (depth + 1) .itself).document with
      | none => simp [hdocument, Json.Legible]
      | some j =>
        simpa [hdocument] using ih v hv (depth + 1) j hdocument
  | record fs ih =>
    rw [encode_record rfl]
    obtain ⟨-, obstacle, h⟩ | ⟨-, h⟩ := Json.collectFields_eq
      (fs.map fun field => (field.1, encode .strict now (depth + 1) field.2 .itself))
    · rw [h]
      exact nofun
    · rw [h]
      intro j hj
      cases hj
      refine Json.legibleFields_iff.mpr fun found hfound => ?_
      rw [List.filterMap_map] at hfound
      obtain ⟨field, hfield, h⟩ := List.mem_filterMap.mp hfound
      obtain ⟨j, hj, rfl⟩ := Option.map_eq_some_iff.mp h
      exact ih field hfield (depth + 1) j hj
  | shown head context cause hd ih =>
    rw [encode_plain_error .strict hd]
    exact ih depth
  | reported head context cause hd ih =>
    cases hreport : Report.ofValue false now (.error head context cause) with
    | none =>
      rw [encode_undated .strict hd hreport]
      exact nofun
    | some report =>
      rw [encode_detailed .strict hd hreport]
      exact ih report hreport depth

/-! ### What a value shows -/

/-- What a reader finds for a value that was written at a moment: a document, or none if nothing is
written for it.  In a list that is `null`, in a record the field is missing. -/
inductive Shows (now : Moment) : Value → Option Json → Prop
  | undefined : Shows now .undefined none
  | method (name : String) : Shows now (.method name) none
  | null : Shows now .null (some .null)
  | bool (b : Bool) : Shows now (.bool b) (some (.bool b))
  | finite {x : Number} : x.isFinite = true → Shows now (.number x) (some (.number x.text))
  | notFinite {x : Number} : x.isFinite = false → Shows now (.number x) (some .null)
  | bigint (i : Int) : Shows now (.bigint i) (some (.text (toString i)))
  | text (s : String) : Shows now (.text s) (some (.text s))
  | half (unit : Nat) : Shows now (.half unit) (some (.text (Text.ofUnit unit)))
  | date (t : Moment) : Shows now (.date (some t)) (some (.text t.iso))
  | noDate : Shows now (.date none) (some .null)
  | list {items : List Value} {found : Value → Option Json} :
    (∀ v ∈ items, Shows now v (found v)) →
    Shows now (.list items) (some (.list (items.map fun v => (found v).getD .null)))
  | record {fs : List (String × Value)} {found : Value → Option Json} :
    (∀ field ∈ fs, Shows now field.2 (found field.2)) →
    Shows now (.record fs)
      (some (.object (Fields.ofList (fs.filterMap fun field =>
        (found field.2).map fun j => (field.1, j)))))
  | page {id : Number} {found : Option Json} :
    Shows now (.record [("pageId", .number id)]) found → Shows now (.page id) found
  | shared (name : String) : Shows now (.shared name) (some (.object []))
  | shown {head : ErrorHead} {context : List (String × Value)} {cause : Value}
    {found : Option Json} : head.details = none →
    Shows now (.record (errorFields head context)) found →
    Shows now (.error head context cause) found
  | reported {head : ErrorHead} {context : List (String × Value)} {cause : Value}
    {report : Report} {found : Option Json} : head.details.isSome = true →
    Report.ofValue false (some now) (.error head context cause) = some report →
    Shows now report.toValue found → Shows now (.error head context cause) found

/-- A value shows one thing only. -/
theorem Shows.unique {now : Moment} {v : Value} {found found' : Option Json}
    (h : v.Shows now found) (h' : v.Shows now found') : found = found' := by
  induction h generalizing found' with
  | finite hx =>
    cases h' with
    | finite _ => rfl
    | notFinite hx' => exact absurd (hx'.symm.trans hx) Bool.false_ne_true
  | notFinite hx =>
    cases h' with
    | finite hx' => exact absurd (hx.symm.trans hx') Bool.false_ne_true
    | notFinite _ => rfl
  | list _ ih =>
    cases h' with
    | list h' =>
      refine congrArg (fun found => some (Json.list found)) (List.map_congr_left fun v hv => ?_)
      rw [ih v hv (h' v hv)]
  | record _ ih =>
    cases h' with
    | record h' =>
      refine congrArg (fun found => some (Json.object (Fields.ofList found))) ?_
      refine List.filterMap_congr fun field hfield => ?_
      rw [ih field hfield (h' field hfield)]
  | page _ ih =>
    cases h' with
    | page h' => exact ih h'
  | shown hd _ ih =>
    cases h' with
    | shown _ h' => exact ih h'
    | reported hd' _ _ =>
      rw [hd] at hd'
      cases hd'
  | reported hd hreport _ ih =>
    cases h' with
    | shown hd' _ =>
      rw [hd'] at hd
      cases hd
    | reported _ hreport' h' =>
      rw [hreport] at hreport'
      cases hreport'
      exact ih h'
  | _ =>
    cases h'
    rfl

/-- What a reader finds of what is written for a value, some levels deep. -/
def readOf (now : Moment) (depth : Nat) (v : Value) : Option Json :=
  (v.encode .strict (some now) depth .itself).document.map Json.settled

section

variable {now : Moment} {depth : Nat}

theorem readOf_list {items : List Value}
    (h : ((Value.list items).encode .strict (some now) depth .itself).isOk = true) :
    (∀ v ∈ items, (v.encode .strict (some now) (depth + 1) .itself).isOk = true) ∧
      readOf now depth (.list items) =
        some (.list (items.map fun v => (readOf now (depth + 1) v).getD .null)) := by
  rw [readOf, encode_list rfl]
  rw [encode_list rfl, Json.isOk_map, Json.isOk_collectItems] at h
  refine ⟨List.forall_mem_map.mp h, ?_⟩
  obtain ⟨⟨o, ho, hfails⟩, -⟩ | ⟨-, hcollected⟩ :=
    Json.collectItems_eq (items.map (encode .strict (some now) (depth + 1) · .itself))
  · exact absurd (h o ho) (Bool.eq_false_iff.mp hfails)
  · have hitem (o : Json.Outcome) :
        (o.document.getD .null).settled = (o.document.map Json.settled).getD .null := by
      cases o.document <;> rfl
    rw [hcollected, List.map_map]
    show some (Json.list (Json.settledItems _)) = _
    rw [Json.settledItems_eq_map, List.map_map]
    exact congrArg (fun found => some (Json.list found)) (List.map_congr_left fun v _ => hitem _)

theorem readOf_record {fs : Fields Value}
    (h : ((Value.record fs).encode .strict (some now) depth .itself).isOk = true) :
    (∀ field ∈ fs, (field.2.encode .strict (some now) (depth + 1) .itself).isOk = true) ∧
      readOf now depth (.record fs) =
        some (.object (Fields.ofList
          (fs.filterMap fun field => (readOf now (depth + 1) field.2).map fun j => (field.1, j))))
      := by
  rw [readOf, encode_record rfl]
  rw [encode_record rfl, Json.isOk_map, Json.isOk_collectFields] at h
  refine ⟨List.forall_mem_map.mp h, ?_⟩
  obtain ⟨⟨f, hf, hfails⟩, -⟩ | ⟨-, hcollected⟩ := Json.collectFields_eq
    (fs.map fun field => (field.1, encode .strict (some now) (depth + 1) field.2 .itself))
  · exact absurd (h f hf) (Bool.eq_false_iff.mp hfails)
  · rw [hcollected, List.filterMap_map]
    show some (Json.object (Fields.ofList (Json.settledFields _))) = _
    rw [Json.settledFields_eq_map, List.map_filterMap]
    refine congrArg (fun found => some (Json.object (Fields.ofList found))) ?_
    refine List.filterMap_congr fun field _ => ?_
    simp only [Function.comp_apply, readOf, Option.map_map]
    rfl

/-- A record with distinct names is read as an object that has under each name what is read of the
field of this name. -/
theorem exists_readOf_record {fs : Fields Value} (hnames : (Fields.names fs).Nodup)
    (h : ((Value.record fs).encode .strict (some now) depth .itself).isOk = true) :
    ∃ doc : Fields Json, readOf now depth (.record fs) = some (.object doc) ∧
      (Fields.names doc).Nodup ∧
      ∀ name, Fields.get? name doc = (Fields.get? name fs).bind (readOf now (depth + 1)) := by
  obtain ⟨-, hread⟩ := readOf_record h
  refine ⟨_, hread, Fields.nodup_names_ofList _, fun name => ?_⟩
  rw [← Fields.get?_filterMap (readOf now (depth + 1)) hnames]
  exact Fields.get?_ofList_of_nodup
    (hnames.sublist (Fields.names_filterMap_sublist (readOf now (depth + 1)) fs)) name

theorem shows_number (now : Moment) (x : Number) :
    Shows now (.number x) (some (numberDocument x).settled) := by
  rw [numberDocument]
  split
  · next h => exact .finite h
  · next h => exact .notFinite (Bool.eq_false_iff.mpr h)

/-- What is read of what is written for a value is what it shows. -/
theorem shows_of_encode {v : Value}
    (h : (v.encode .strict (some now) depth .itself).isOk = true) :
    v.Shows now (readOf now depth v) := by
  induction v using Value.formInduction (some now) generalizing depth with
  | leaf v hv =>
    cases v with
    | list _ | record _ | error _ _ _ => cases hv
    | back _ => cases h
    | number x => exact shows_number now x
    | page id =>
      obtain ⟨-, hread⟩ := @readOf_record now depth [("pageId", .number id)] h
      refine .page ?_
      rw [readOf, encode_page, ← readOf, hread]
      exact .record (List.forall_mem_singleton.mpr (shows_number now id))
    | date t =>
      cases t with
      | none => exact .noDate
      | some t => exact .date t
    | undefined => exact .undefined
    | method name => exact .method name
    | null => exact .null
    | bool b => exact .bool b
    | bigint i => exact .bigint i
    | text s => exact .text s
    | half unit => exact .half unit
    | shared name => exact .shared name
  | list items ih =>
    obtain ⟨hitems, hread⟩ := readOf_list h
    rw [hread]
    exact .list fun v hv => ih v hv (hitems v hv)
  | record fs ih =>
    obtain ⟨hfields, hread⟩ := readOf_record h
    rw [hread]
    exact .record fun field hfield => ih field hfield (hfields field hfield)
  | shown head context cause hd ih =>
    rw [encode_plain_error .strict hd] at h
    rw [readOf, encode_plain_error .strict hd]
    exact .shown hd (ih h)
  | reported head context cause hd ih =>
    cases hreport : Report.ofValue false (some now) (.error head context cause) with
    | none =>
      rw [encode_undated .strict hd hreport] at h
      cases h
    | some report =>
      rw [encode_detailed .strict hd hreport] at h
      rw [readOf, encode_detailed .strict hd hreport]
      exact .reported hd hreport (ih report hreport h)

end

end Value

namespace ConsoleLogger

/-! ### Lines of JSON -/

variable {now : Moment} {entry : Fields Value}

/-- A line of JSON is on one line. -/
theorem printable_jsonLine (now : Moment) (entry : Fields Value) :
    Json.Printable (jsonLine now entry).toList := by
  have hlegible := Value.legible_of_encode (some now) (.record entry) 0
  rw [jsonLine]
  split
  · next j h =>
    rw [h] at hlegible
    rw [Json.toText, String.toList_ofList]
    exact Json.printable_render j (hlegible j rfl)
  · rw [failureText, Json.toText, String.toList_ofList]
    exact Json.printable_render _ ⟨trivial, trivial⟩

/-- An entry that holds nothing that is refused is read as an object that shows under each name what
the field of this name shows. -/
theorem jsonLine_reads (h : (Value.record entry).IsWritable .strict (some now))
    (hnames : (Fields.names entry).Nodup) :
    ∃ doc : Fields Json, Json.read? (jsonLine now entry).toList = some (.object doc) ∧
      (Fields.names doc).Nodup ∧
      ∀ name, Fields.get? name doc = (Fields.get? name entry).bind (Value.readOf now 1) := by
  rw [← Value.isOk_encode_iff rfl (some now) (.record entry) 0] at h
  obtain ⟨doc, hread, hdoc, hget⟩ := Value.exists_readOf_record hnames h
  refine ⟨doc, ?_, hdoc, hget⟩
  -- the document that was written is read as what it settles to
  obtain ⟨j, hj⟩ := (Value.isOk_encode_record rfl (some now) 0 entry).mp h
  have hlegible := Value.legible_of_encode (some now) (.record entry) 0
  rw [hj] at hlegible
  rw [Value.readOf, hj] at hread
  have hsettled : j.settled = .object doc := Option.some.inj hread
  have htext : (jsonLine now entry).toList = j.render := by
    rw [jsonLine, hj]
    exact String.toList_ofList
  rw [htext, Json.read?_render (hlegible j rfl), hsettled]

/-- Of an entry that holds something that is refused a reader is told that it could not be
written. -/
theorem jsonLine_fails (h : ¬ (Value.record entry).IsWritable .strict (some now)) :
    Json.read? (jsonLine now entry).toList =
      some (.object [("message", .text "Failed to stringify log payload")]) := by
  rw [← Value.isOk_encode_iff rfl (some now) (.record entry) 0] at h
  cases houtcome : (Value.record entry).encode .strict (some now) 0 .itself with
  | ok document =>
    rw [houtcome] at h
    exact absurd rfl h
  | error obstacle =>
    rw [jsonLine, houtcome]
    show Json.read? failureText.toList = _
    rw [failureText, Json.toText, String.toList_ofList]
    exact Json.read?_render (j := .object [("message", .text "Failed to stringify log payload")])
      ⟨trivial, trivial⟩

end ConsoleLogger
end StorageKit
