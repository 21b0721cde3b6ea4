/-
Two loggers that implement one.

The logger of a console merges the fields of its contexts, each time a child is made; the logger of
records puts them one after another into every line.  A reader who looks only at plain fields
cannot tell one from the other.

* `EntryLogger.session` — calls one after another, each at a time of its own;
* `PathLogger` — the logger that both implement: it keeps the contexts on the way to it, and an
  entry says under each name what the call gives, or else the last of the contexts that gives
  something;
* `Implements`, `EntryLogger.session_of_implements` — a relation between single loggers that every
  call keeps makes whole sessions alike;
* `EntryLogger.Undisturbed` — what a logger writes does not depend on the calls between its making
  and its writing;
* `ConsoleLogger.Follows`, `StructuredLogger.Follows` — the two relations;
* **`PathLogger.implemented_by_both`** — for every least level, every tree of child loggers and
  every sequence of calls, both loggers write for the same calls, and their entries tell a reader
  the same.

Design notes: the least level is given by its name, or not at all; the logger of records is given
the empty name then.  Names that a logger treats in a way of its own are not asked for.  The clock
has to be on the calendar, since the console shows a date.
-/
import StorageKit.Proofs.Plain
import Mathlib.Data.List.Forall2

namespace StorageKit

/-! ### Sessions -/

namespace EntryLogger

section

variable {L Out : Type} [EntryLogger L Out]

/-- Calls one after another, each at a time of its own: the answers, and the loggers after them. -/
def session : List (Clock × LogCall) → List L → List (LogAnswer Out) × List L
  | [], loggers => ([], loggers)
  | (now, call) :: rest, loggers =>
    let (a, loggers) := answer now loggers call
    let (others, loggers) := session rest loggers
    (a :: others, loggers)

theorem session_append (before after : List (Clock × LogCall)) (loggers : List L) :
    (session (before ++ after) loggers).2 = (session after (session before loggers).2).2 := by
  induction before generalizing loggers with
  | nil => rfl
  | cons timed rest ih => exact ih _

/-- A call leaves the loggers that are there, and makes one more at most. -/
theorem prefix_answer (now : Clock) (loggers : List L) (call : LogCall) :
    loggers <+: (answer now loggers call).2 := by
  cases call with
  | write i level message fields =>
    rw [answer]
    repeat' split
    all_goals exact List.prefix_rfl
  | child i context =>
    rw [answer]
    repeat' split
    · exact List.prefix_rfl
    · exact List.prefix_append _ _
    · exact List.prefix_rfl

theorem prefix_session (calls : List (Clock × LogCall)) (loggers : List L) :
    loggers <+: (session calls loggers).2 := by
  induction calls generalizing loggers with
  | nil => exact List.prefix_rfl
  | cons timed rest ih => exact (prefix_answer timed.1 loggers timed.2).trans (ih _)

/-- What a logger writes is the same at once and after any calls on any loggers. -/
def Undisturbed (loggers : List L) : Prop :=
  ∀ (before between : List (Clock × LogCall)) (now : Clock) (i : Nat) (level : Level)
    (message : String) (fields : Value), i < (session before loggers).2.length →
    (answer now (session (before ++ between) loggers).2 (.write i level message fields)).1 =
      (answer now (session before loggers).2 (.write i level message fields)).1

theorem undisturbed (loggers : List L) : Undisturbed loggers := by
  intro before between now i level message fields hi
  have hlater : (session (before ++ between) loggers).2[i]? = (session before loggers).2[i]? := by
    rw [session_append]
    obtain ⟨more, hmore⟩ := prefix_session between (session before loggers).2
    rw [← hmore, List.getElem?_append_left hi]
  rw [answer, answer, hlater]
  cases (session before loggers).2[i]? with
  | none => rfl
  | some l => cases hwrite : write now level message fields l <;> simp only [hwrite]

end

end EntryLogger

/-- An answer with what was written seen in another way. -/
def LogAnswer.map {Out Seen : Type} (see : Out → Seen) : LogAnswer Out → LogAnswer Seen
  | .wrote out => .wrote (out.map see)
  | .made logger => .made logger
  | .failed fault => .failed fault

/-! ### The logger that is implemented -/

namespace Value

/-- What a record gives under a name. -/
def given? (name : String) : Value → Option Value
  | .record fs => (Fields.get? name fs).filter fun v => !v.isUndefined
  | _ => none

/-- A record of plain fields. -/
def IsPlainRecord (v : Value) : Prop := ∃ fs, v = .record fs ∧ PlainFields fs

/-- A record of plain fields, or none. -/
def IsPlainContext (v : Value) : Prop := v = .undefined ∨ v.IsPlainRecord

end Value

/-- A logger that keeps the contexts on the way to it, the first one in front. -/
structure PathLogger where
  least : Level
  path : List Value

namespace PathLogger

/-- The first logger; without a level it writes what is `info` at least. -/
def new (least : Option Level) (context : Value) : PathLogger := ⟨least.getD .info, [context]⟩

def child (context : Value) (p : PathLogger) : PathLogger := { p with path := p.path ++ [context] }

/-- What the last of the contexts that gives something under a name gives. -/
def inherited (name : String) (p : PathLogger) : Option Value :=
  p.path.reverse.findSome? (Value.given? name)

/-- What an entry says under a name that loggers leave alone: what the call gives, or else what the
contexts give.  A zero has no sign in it. -/
def entry (fields : Value) (p : PathLogger) (name : String) : Option Value :=
  if isSpecialName name then none
  else ((fields.given? name).or (p.inherited name)).map Value.plainZero

/-- Writes an entry, unless it is less severe than the least level. -/
def write (level : Level) (fields : Value) (p : PathLogger) : Option (String → Option Value) :=
  if p.least.severity ≤ level.severity then some (p.entry fields) else none

instance : EntryLogger PathLogger (String → Option Value) where
  child _ context p := .ok (p.child context)
  write _ level _ fields p := .ok (p.write level fields)

theorem inherited_child (name : String) (context : Value) (p : PathLogger) :
    (p.child context).inherited name = (context.given? name).or (p.inherited name) := by
  rw [inherited, child, List.reverse_append, List.findSome?_append]
  exact congrArg (Option.or · _) List.findSome?_singleton

end PathLogger

/-! ### Sessions of loggers that implement it -/

/-- A call with plain fields only. -/
def LogCall.IsPlain : LogCall → Prop
  | .write _ _ _ fields => fields.IsPlainContext
  | .child _ context => context.IsPlainRecord

/-- Loggers that are related answer alike, and so are their children. -/
structure Implements {L Out : Type} [EntryLogger L Out]
    (told : Out → Option (String → Option Value)) (R : L → PathLogger → Prop) : Prop where
  child : ∀ {l p context} (now : Clock), R l p → context.IsPlainRecord →
    ∃ made, EntryLogger.child now context l = .ok made ∧ R made (p.child context)
  write : ∀ {l p now fields} (level : Level) (message : String), R l p →
    now.moment?.isSome = true → fields.IsPlainContext →
    ∃ out, EntryLogger.write now level message fields l = .ok out ∧
      out.map told = (p.write level fields).map some

/-- Lists whose items are related in order have related items at every place. -/
theorem rel_getElem? {α β : Type} {R : α → β → Prop} {as : List α} {bs : List β}
    (h : List.Forall₂ R as bs) (i : Nat) : Option.Rel R as[i]? bs[i]? := by
  induction h generalizing i with
  | nil => exact .none
  | cons hab _ ih =>
    cases i with
    | zero => exact .some hab
    | succ i => exact ih i

namespace EntryLogger

variable {L Out : Type} [EntryLogger L Out] {told : Out → Option (String → Option Value)}
  {R : L → PathLogger → Prop} {loggers : List L} {paths : List PathLogger}

theorem answer_of_implements (h : Implements told R) (hloggers : List.Forall₂ R loggers paths)
    {now : Clock} (hnow : now.moment?.isSome = true) {call : LogCall} (hcall : call.IsPlain) :
    (answer now loggers call).1.map told = (answer now paths call).1.map some ∧
      List.Forall₂ R (answer now loggers call).2 (answer now paths call).2 := by
  cases call with
  | write i level message fields =>
    have hrel := rel_getElem? hloggers i
    rw [answer, answer]
    cases hl : loggers[i]? <;> cases hp : paths[i]? <;> rw [hl, hp] at hrel <;> cases hrel
    · exact ⟨rfl, hloggers⟩
    · next l p hR =>
      obtain ⟨out, hout, htold⟩ := h.write level message hR hnow hcall
      refine ⟨?_, ?_⟩
      · simp only [hout]
        exact congrArg LogAnswer.wrote htold
      · simp only [hout]
        exact hloggers
  | child i context =>
    have hrel := rel_getElem? hloggers i
    have hlength := hloggers.length_eq
    rw [answer, answer]
    cases hl : loggers[i]? <;> cases hp : paths[i]? <;> rw [hl, hp] at hrel <;> cases hrel
    · exact ⟨congrArg LogAnswer.made hlength, hloggers⟩
    · next l p hR =>
      obtain ⟨made, hmade, hmadeR⟩ := h.child now hR hcall
      refine ⟨?_, ?_⟩
      · simp only [hmade]
        exact congrArg LogAnswer.made hlength
      · simp only [hmade]
        exact List.rel_append hloggers (.cons hmadeR .nil)

/-- Related loggers answer every session alike. -/
theorem session_of_implements (h : Implements told R) (hloggers : List.Forall₂ R loggers paths)
    {calls : List (Clock × LogCall)}
    (hcalls : ∀ timed ∈ calls, timed.1.moment?.isSome = true ∧ timed.2.IsPlain) :
    (session calls loggers).1.map (LogAnswer.map told) =
      (session calls paths).1.map (LogAnswer.map some) := by
  induction calls generalizing loggers paths with
  | nil => rfl
  | cons timed rest ih =>
    obtain ⟨htimed, hrest⟩ := List.forall_mem_cons.mp hcalls
    obtain ⟨hanswer, hafter⟩ := answer_of_implements h hloggers htimed.1 htimed.2
    exact congrArg₂ List.cons hanswer (ih hafter hrest)

end EntryLogger

/-! ### Plain contexts -/

namespace Value.IsPlainContext

variable {v : Value}

theorem plainFields (h : v.IsPlainContext) : PlainFields v.fields := by
  obtain rfl | ⟨fs, rfl, hfs⟩ := h
  · exact ⟨List.nodup_nil, nofun, nofun⟩
  · rw [Value.fields, unfoldFields_of_isPlain hfs.values]
    exact hfs

theorem given?_eq (h : v.IsPlainContext) (name : String) :
    v.given? name = Fields.get? name (definedFields v.fields) := by
  obtain rfl | ⟨fs, rfl, hfs⟩ := h
  · rfl
  · rw [Value.fields, unfoldFields_of_isPlain hfs.values]
    exact (Fields.get?_filter_value (fun v => !v.isUndefined) hfs.distinct name).symm

theorem fieldsOf_eq (h : v.IsPlainContext) :
    ConsoleLogger.fieldsOf v = definedFields v.fields := by
  have hparent : ∀ field ∈ definedFields v.fields, field.1 ≠ Members.parent := by
    intro field hfield heq
    have hname := (h.plainFields.names field (List.mem_of_mem_filter hfield)).ordinary
    rw [heq] at hname
    exact absurd hname (by decide)
  have hkept : (definedFields v.fields).filter (fun field => field.1 ≠ Members.parent) =
      definedFields v.fields :=
    List.filter_eq_self.mpr fun field hfield => decide_eq_true (hparent field hfield)
  obtain rfl | ⟨fs, rfl, -⟩ := h
  · rfl
  · exact hkept

/-- Of a plain context a reader is told what it gives. -/
theorem toldOf_documents (h : v.IsPlainContext) (name : String) :
    Fields.toldOf name (documents v.fields) = (v.given? name).map plainZero := by
  rw [Fields.toldOf_documents h.plainFields.distinct h.plainFields.values, h.given?_eq]

end Value.IsPlainContext

/-- What an entry tells its reader under the names that loggers leave alone. -/
def Fields.tells (entry : Fields Json) (name : String) : Option Value :=
  if isSpecialName name then none else (get? name entry).map Json.toValue

/-- A name that loggers leave alone is none of those that they use themselves. -/
theorem notMem_of_ordinary {name : String} (h : isSpecialName name = false) {others : List String}
    (hothers : others ⊆ specialNames) : name ∉ others := fun hmem =>
  (isSpecialName_eq_false_iff.mp h).1 (hothers hmem)

/-- An entry of documents tells its reader what it should when its last fields say so. -/
theorem tells_ofList {docs : Fields Json} {fields : Value} {p : PathLogger}
    (h : ∀ name, isSpecialName name = false →
      Fields.toldOf name docs = ((fields.given? name).or (p.inherited name)).map Value.plainZero) :
    Fields.tells (Fields.ofList docs) = p.entry fields := by
  funext name
  rw [Fields.tells, PathLogger.entry, Fields.get?_ofList]
  cases hname : isSpecialName name with
  | true => rfl
  | false => exact h name hname

/-! ### The logger of a console -/

/-- The record that a reader makes of a line. -/
def ConsoleLine.read (line : ConsoleLine) : Option (Fields Json) :=
  match Json.read? line.text.toList with
  | some (.object fields) => some fields
  | _ => none

/-- What a line tells its reader under the names that loggers leave alone. -/
def ConsoleLine.told (line : ConsoleLine) : Option (String → Option Value) :=
  line.read.map Fields.tells

namespace ConsoleLogger

/-- The context of a logger gives what the contexts on its way give. -/
structure Follows (l : ConsoleLogger) (p : PathLogger) : Prop where
  minimum : l.minimum = some p.least
  notPretty : l.pretty = false
  distinct : (Fields.names l.context).Nodup
  values : ∀ field ∈ l.context, field.2.IsPlain ∧ field.2.isUndefined = false
  inherited : ∀ name, Fields.get? name l.context = p.inherited name

variable {l : ConsoleLogger} {p : PathLogger}

theorem values_fieldsOf {v : Value} (h : v.IsPlainContext) :
    ∀ field ∈ fieldsOf v, field.2.IsPlain ∧ field.2.isUndefined = false := by
  intro field hfield
  rw [h.fieldsOf_eq] at hfield
  obtain ⟨hmem, hdefined⟩ := List.mem_filter.mp hfield
  exact ⟨h.plainFields.values field hmem, by simpa using hdefined⟩

theorem distinct_fieldsOf {v : Value} (h : v.IsPlainContext) :
    (Fields.names (fieldsOf v)).Nodup := nodup_names_fieldsOf h.plainFields.distinct

theorem get?_fieldsOf {v : Value} (h : v.IsPlainContext) (name : String) :
    Fields.get? name (fieldsOf v) = v.given? name := by
  rw [h.fieldsOf_eq, h.given?_eq]

theorem Follows.child (h : l.Follows p) {context : Value} (hcontext : context.IsPlainRecord) :
    ∃ made, l.child context = .ok made ∧ made.Follows (p.child context) := by
  have hplain : context.IsPlainContext := Or.inr hcontext
  obtain ⟨fs, rfl, hfs⟩ := hcontext
  refine ⟨_, rfl, h.minimum, h.notPretty, Fields.nodup_names_overlay h.distinct _, ?_, ?_⟩
  · intro field hfield
    obtain hnew | hold := Fields.mem_overlay h.distinct hfield
    · exact values_fieldsOf hplain field hnew
    · exact h.values field hold
  · intro name
    rw [PathLogger.inherited_child, ← h.inherited, ← get?_fieldsOf hplain,
      ← Fields.get?_reverse (distinct_fieldsOf hplain)]
    exact Fields.get?_overlay _ _ _

/-- An entry that has plain values only is written as their documents. -/
theorem jsonLine_of_plain (now : Moment) {entry : Fields Value}
    (h : ∀ field ∈ entry, field.2.IsPlain) :
    jsonLine now entry = (Json.object (documents entry)).toText := by
  rw [jsonLine, encode_record, Json.collectFields_encodeFields h]
  rfl

/-- No error is reported in an entry without errors. -/
theorem reported_of_plain (now : Moment) {entry : Fields Value}
    (h : ∀ field ∈ entry, field.2.IsPlain) : reported now entry = .ok entry := by
  unfold reported
  split
  · next herr => exact (h _ (Fields.mem_of_get? herr)).elim
  · rfl

section

variable (now : Moment) (level : Level) (message : String) {fields : Value}

theorem values_entryFields (h : l.Follows p) (hfields : fields.IsPlainContext) :
    ∀ field ∈ l.entryFields now level message fields,
      field.2.IsPlain ∧ field.2.isUndefined = false := by
  intro field hfield
  have hhead : (Fields.names [("timestamp", Value.text now.iso), ("level", .text level.name),
      ("message", .text message)]).Nodup := by
    show ["timestamp", "level", "message"].Nodup
    decide
  obtain hown | hrest := Fields.mem_overlay (Fields.nodup_names_overlay hhead _) hfield
  · exact values_fieldsOf hfields field (List.mem_of_mem_filter hown)
  · obtain hcontext | hfirst := Fields.mem_overlay hhead hrest
    · exact h.values field hcontext
    · simp only [List.mem_cons, List.not_mem_nil, or_false] at hfirst
      obtain rfl | rfl | rfl := hfirst <;> exact ⟨trivial, rfl⟩

/-- An entry has under an ordinary name what the call gives, or else what the contexts give. -/
theorem get?_entryFields_of_ordinary (h : l.Follows p) (hfields : fields.IsPlainContext)
    {name : String} (hname : isSpecialName name = false) :
    Fields.get? name (l.entryFields now level message fields) =
      (fields.given? name).or (p.inherited name) := by
  have hnot : name ∉ reserved := notMem_of_ordinary hname (by decide)
  have hreserved : (!reserved.contains name) = true := by simpa using hnot
  have hhead : Fields.get? name [("timestamp", Value.text now.iso), ("level", .text level.name),
      ("message", .text message)] = none := Fields.get?_eq_none_iff.mpr hnot
  rw [entryFields, Fields.get?_overlay, Fields.get?_overlay, ← List.filter_reverse,
    Fields.get?_filter_name fun name => !reserved.contains name, hreserved, if_pos rfl,
    Fields.get?_reverse (distinct_fieldsOf hfields), Fields.get?_reverse h.distinct, hhead,
    get?_fieldsOf hfields, h.inherited, Option.or_none]

/-- The line of an entry tells its reader what it should. -/
theorem told_jsonLine (h : l.Follows p) (hfields : fields.IsPlainContext) (method : String) :
    ConsoleLine.told ⟨method, jsonLine now (l.entryFields now level message fields)⟩ =
      some (p.entry fields) := by
  have hvalues := values_entryFields now level message h hfields
  have hplain : ∀ field ∈ l.entryFields now level message fields, field.2.IsPlain :=
    fun field hfield => (hvalues field hfield).1
  have hdefined : Value.definedFields (l.entryFields now level message fields) =
      l.entryFields now level message fields := by
    refine List.filter_eq_self.mpr fun field hfield => ?_
    rw [(hvalues field hfield).2]
    rfl
  rw [ConsoleLine.told, ConsoleLine.read, jsonLine_of_plain now hplain, Json.toText,
    String.toList_ofList, Json.read?_object (readsBack_documents hplain)]
  refine congrArg some (tells_ofList fun name hname => ?_)
  rw [Fields.toldOf_documents (nodup_names_entryFields l fields) hplain, hdefined,
    get?_entryFields_of_ordinary now level message h hfields hname]

end

theorem lets_eq (h : l.Follows p) (level : Level) :
    l.lets level = decide (p.least.severity ≤ level.severity) := by
  rw [lets, h.minimum]

/-- The logger of a console implements the logger of its path. -/
theorem implements : Implements ConsoleLine.told Follows where
  child _ h hcontext := h.child hcontext
  write {l p now fields} level message h hnow hfields := by
    obtain ⟨moment, hmoment⟩ := Option.isSome_iff_exists.mp hnow
    by_cases hlets : p.least.severity ≤ level.severity
    · refine ⟨some ⟨method level, jsonLine moment (l.entryFields moment level message fields)⟩,
        ?_, ?_⟩
      · have hplain := fun field hfield =>
          (values_entryFields moment level message h hfields field hfield).1
        have hpayload : l.payload moment level message fields =
            .ok (l.entryFields moment level message fields) := reported_of_plain moment hplain
        show write now level message fields l = _
        rw [write, lets_eq h, decide_eq_true hlets, if_pos rfl, hmoment]
        simp only [hpayload, entryText, h.notPretty]
        rfl
      · rw [PathLogger.write, if_pos hlets, Option.map_some, told_jsonLine _ _ _ h hfields]
        rfl
    · refine ⟨none, ?_, ?_⟩
      · show write now level message fields l = _
        rw [write, lets_eq h, decide_eq_false hlets, if_neg Bool.false_ne_true]
      · rw [PathLogger.write, if_neg hlets]
        rfl

end ConsoleLogger

/-! ### The logger of records -/

/-- What a line tells its reader under the names that loggers leave alone. -/
def Line.told (line : Line) : Option (String → Option Value) := line.read.map Fields.tells

theorem Clock.isFinite_of_moment? {now : Clock} (h : now.moment?.isSome = true) :
    now.reading.isFinite = true := by
  obtain ⟨moment, hmoment⟩ := Option.isSome_iff_exists.mp h
  cases hreading : now.reading with
  | finite => rfl
  | nan | infinite => simp [moment?, hreading, Number.truncate?] at hmoment

theorem readsBack_severity (level : Level) :
    (Json.number (toString level.severity)).ReadsBack := by
  refine ⟨⟨?_, ?_⟩, rfl⟩
  · cases level <;> rfl
  · refine List.all_eq_true.mp ?_
    cases level <;> rfl

namespace StructuredLogger

/-- The documents of contexts, one after another. -/
def bound (path : List Value) : Fields Json := path.flatMap fun context => documents context.fields

/-- The bindings of a logger are the documents of the contexts on its way. -/
structure Follows (l : StructuredLogger) (p : PathLogger) : Prop where
  minimum : l.minimum = some p.least.severity
  plain : ∀ context ∈ p.path, context.IsPlainContext
  bindings : l.bindings = Line.ofDocuments (bound p.path)

variable {l : StructuredLogger} {p : PathLogger}

/-- Plain names can be bound. -/
theorem bindable_of_plain {fs : Fields Value} (h : ∀ field ∈ fs, IsPlainName field.1) :
    (fs.filter fun field => !unbindable.contains field.1) = fs ∧
      Fields.has "hasOwnProperty" fs = false := by
  constructor
  · refine List.filter_eq_self.mpr fun field hfield => ?_
    have hnot : field.1 ∉ unbindable := notMem_of_ordinary (h field hfield).ordinary (by decide)
    simpa using hnot
  · rw [Fields.has, Keyed.has, Option.isSome_eq_false_iff, Option.isNone_iff_eq_none]
    exact Fields.get?_eq_none_iff.mpr (notMem_names_of_special h (by decide))

theorem child_of_plain (now : Clock) {context : Value} (h : context.IsPlainContext)
    (l : StructuredLogger) :
    child now context l =
      .ok { l with bindings := l.bindings ++ Line.ofDocuments (documents context.fields) } := by
  have hgiven : (context.isFalsy && !context.isUndefined) = false := by
    obtain rfl | ⟨fs, rfl, -⟩ := h <;> rfl
  obtain ⟨hbindable, htest⟩ := bindable_of_plain h.plainFields.names
  have hline := lineOf_eq h.plainFields.names h.plainFields.values l.causes now .context
  simp only [child, hgiven, hbindable, htest, hline]
  rfl

theorem bound_concat (path : List Value) (context : Value) :
    bound (path ++ [context]) = bound path ++ documents context.fields := by
  rw [bound, List.flatMap_append, List.flatMap_singleton]
  rfl

theorem Follows.child (h : l.Follows p) (now : Clock) {context : Value}
    (hcontext : context.IsPlainContext) :
    ∃ made, l.child now context = .ok made ∧ made.Follows (p.child context) := by
  refine ⟨_, child_of_plain now hcontext l, h.minimum, ?_, ?_⟩
  · exact List.forall_mem_append.mpr ⟨h.plain, List.forall_mem_singleton.mpr hcontext⟩
  · show l.bindings ++ _ = _
    rw [h.bindings, PathLogger.child, bound_concat, Line.ofDocuments_append]

/-- Of contexts one after another a reader is told what the last one gives. -/
theorem toldOf_bound {path : List Value} (h : ∀ context ∈ path, context.IsPlainContext)
    (name : String) :
    Fields.toldOf name (bound path) =
      (path.reverse.findSome? (Value.given? name)).map Value.plainZero := by
  induction path with
  | nil => rfl
  | cons context rest ih =>
    obtain ⟨hcontext, hrest⟩ := List.forall_mem_cons.mp h
    rw [bound, List.flatMap_cons, Fields.toldOf_append, ← bound, ih hrest,
      hcontext.toldOf_documents, List.reverse_cons, List.findSome?_append,
      List.findSome?_singleton, Option.map_or]

theorem readsBack_bound {path : List Value} (h : ∀ context ∈ path, context.IsPlainContext) :
    ∀ doc ∈ bound path, doc.2.ReadsBack := by
  intro doc hdoc
  obtain ⟨context, hcontext, hdoc⟩ := List.mem_flatMap.mp hdoc
  exact readsBack_documents (h context hcontext).plainFields.values doc hdoc

/-- Plain fields are no request and no message of their own. -/
theorem entryOf_of_plain (message : String) {fields : Value} (h : fields.IsPlainContext) :
    entryOf message fields = (fields.fields, .text message) := by
  obtain rfl | ⟨fs, rfl, hfs⟩ := h
  · rfl
  · have hmethod : "method" ∉ Fields.names fs := notMem_names_of_special hfs.names (by decide)
    have hproperty : (Value.record fs).property "method" = .undefined := by
      rw [Value.property, Value.properties, Value.fields,
        Value.unfoldFields_of_isPlain hfs.values, Fields.get?_eq_none_iff.mpr hmethod]
      · rfl
      · nofun
      · nofun
    have hrequest : (Value.record fs).asRequest? = none := by
      rw [Value.asRequest?, hproperty]
      rfl
    simp only [entryOf, hrequest]

section

variable (now : Clock) (level : Level) (message : String) {fields : Value}

/-- The documents of a line, from the first field to the last. -/
def lineDocuments (p : PathLogger) (fields : Value) : Fields Json :=
  [("level", .number (toString level.severity)), ("time", .number now.reading.text)]
    ++ bound p.path ++ documents fields.fields ++ [("msg", .text message)]

/-- A line of plain fields is made of documents. -/
theorem write_of_plain (h : l.Follows p) (hfields : fields.IsPlainContext) :
    write now level message fields l =
      .ok (if p.least.severity ≤ level.severity then
        some (Line.ofDocuments (lineDocuments now level message p fields)) else none) := by
  have hlets : l.lets level = decide (p.least.severity ≤ level.severity) := by
    rw [lets, h.minimum]
  have hline := lineOf_eq hfields.plainFields.names hfields.plainFields.values l.causes now .call
  have hdocuments : Line.ofDocuments (lineDocuments now level message p fields) =
      [.quoted "level" (toString level.severity).toList, .quoted "time" now.reading.text.toList]
        ++ l.bindings ++ Line.ofDocuments (documents fields.fields)
        ++ [.quoted "msg" (Json.text message).render] := by
    rw [lineDocuments, Line.ofDocuments_append, Line.ofDocuments_append, Line.ofDocuments_append,
      h.bindings]
    rfl
  rw [hdocuments]
  by_cases hsevere : p.least.severity ≤ level.severity
  · simp only [write, hlets, hsevere, entryOf_of_plain message hfields, hline]
    rfl
  · simp only [write, hlets, hsevere]
    rfl

theorem readsBack_lineDocuments (h : l.Follows p) (hfields : fields.IsPlainContext)
    (hnow : now.moment?.isSome = true) :
    ∀ doc ∈ lineDocuments now level message p fields, doc.2.ReadsBack := by
  have hreading := Clock.isFinite_of_moment? hnow
  have htime : (Json.number now.reading.text).ReadsBack :=
    ⟨⟨Number.isToken_text hreading, Number.isNumeric_text hreading⟩, rfl⟩
  have hmessage : (Json.text message).ReadsBack := ⟨trivial, rfl⟩
  simp only [lineDocuments, List.forall_mem_append, List.forall_mem_cons]
  exact ⟨⟨⟨⟨readsBack_severity level, htime, nofun⟩, readsBack_bound h.plain⟩,
    readsBack_documents hfields.plainFields.values⟩, hmessage, nofun⟩

/-- The line of an entry tells its reader what it should. -/
theorem told_lineDocuments (h : l.Follows p) (hfields : fields.IsPlainContext)
    (hnow : now.moment?.isSome = true) :
    Line.told (Line.ofDocuments (lineDocuments now level message p fields)) =
      some (p.entry fields) := by
  rw [Line.told, Line.read_ofDocuments (readsBack_lineDocuments now level message h hfields hnow)]
  refine congrArg some (tells_ofList fun name hname => ?_)
  have hlevel : name ∉ ["level", "time"] := notMem_of_ordinary hname (by decide)
  have hmsg : name ∉ ["msg"] := notMem_of_ordinary hname (by decide)
  have hhead : Fields.toldOf name [("level", .number (toString level.severity)),
      ("time", .number now.reading.text)] = none := Fields.toldOf_eq_none hlevel
  have hmessage : Fields.toldOf name [("msg", .text message)] = none :=
    Fields.toldOf_eq_none hmsg
  rw [lineDocuments, Fields.toldOf_append, Fields.toldOf_append, Fields.toldOf_append, hmessage,
    hhead, Option.none_or, Option.or_none, toldOf_bound h.plain, hfields.toldOf_documents,
    Option.map_or]
  rfl

end

/-- The logger of records implements the logger of its path. -/
theorem implements : Implements Line.told Follows where
  child now h hcontext := h.child now (Or.inr hcontext)
  write {l p now fields} level message h hnow hfields := by
    refine ⟨_, write_of_plain now level message h hfields, ?_⟩
    rw [PathLogger.write]
    split
    · exact congrArg some (told_lineDocuments now level message h hfields hnow)
    · rfl

end StructuredLogger

/-! ### Both loggers -/

namespace PathLogger

theorem inherited_new (least : Option Level) (context : Value) (name : String) :
    (new least context).inherited name = context.given? name := List.findSome?_singleton

/-- The first logger of a console follows the first logger of a path. -/
theorem console_follows (least : Option Level) {context : Value} (h : context.IsPlainContext) :
    ∃ l, ConsoleLogger.new (least.map Level.name) false context = .ok l ∧
      l.Follows (new least context) := by
  have hminimum : ConsoleLogger.minimumOf (least.map Level.name) = some (least.getD .info) := by
    cases least with
    | none => rfl
    | some level => cases level <;> rfl
  have hnew : ConsoleLogger.new (least.map Level.name) false context =
      .ok ⟨some (least.getD .info), false, ConsoleLogger.fieldsOf context⟩ := by
    rw [ConsoleLogger.new, hminimum]
    obtain rfl | ⟨fs, rfl, -⟩ := h <;> rfl
  refine ⟨_, hnew, rfl, rfl, ConsoleLogger.distinct_fieldsOf h, ConsoleLogger.values_fieldsOf h,
    fun name => ?_⟩
  rw [inherited_new, ConsoleLogger.get?_fieldsOf h]

/-- So does the first logger of records. -/
theorem structured_follows (least : Option Level) {context : Value} (h : context.IsPlainContext)
    (start : Clock) :
    ∃ l, StructuredLogger.new start ((least.map Level.name).getD "") context = .ok l ∧
      l.Follows (new least context) := by
  have hminimum : StructuredLogger.minimumOf
      (if (least.map Level.name).getD "" = "" then Level.info.name
        else (least.map Level.name).getD "") = .ok (some (least.getD .info).severity) := by
    cases least with
    | none => rfl
    | some level => cases level <;> rfl
  refine ⟨⟨some (least.getD .info).severity, .nested,
    Line.ofDocuments (documents context.fields)⟩, ?_, rfl, ?_, ?_⟩
  · rw [StructuredLogger.new, hminimum]
    exact StructuredLogger.child_of_plain start h _
  · exact List.forall_mem_singleton.mpr h
  · rw [new, StructuredLogger.bound, List.flatMap_singleton]

/-- **Both loggers implement one.**  For every least level, or none, every first context and every
sequence of calls with plain fields, each on any logger of the tree of children: both loggers can be
made, they answer the calls alike, and they write for the same calls.  Every entry can be read, and
tells its reader under each name that loggers leave alone what the call gives, or else what the last
context on the way from the first logger gives, or else nothing.  What a logger writes does not
depend on the calls since it was made. -/
theorem implemented_by_both (least : Option Level) {context : Value}
    (hcontext : context.IsPlainContext) (start : Clock) {calls : List (Clock × LogCall)}
    (hcalls : ∀ timed ∈ calls, timed.1.moment?.isSome = true ∧ timed.2.IsPlain) :
    ∃ (console : ConsoleLogger) (structured : StructuredLogger),
      ConsoleLogger.new (least.map Level.name) false context = .ok console ∧
      StructuredLogger.new start ((least.map Level.name).getD "") context = .ok structured ∧
      (EntryLogger.session calls [console]).1.map (LogAnswer.map ConsoleLine.told) =
        (EntryLogger.session calls [new least context]).1.map (LogAnswer.map some) ∧
      (EntryLogger.session calls [structured]).1.map (LogAnswer.map Line.told) =
        (EntryLogger.session calls [new least context]).1.map (LogAnswer.map some) ∧
      EntryLogger.Undisturbed [console] ∧ EntryLogger.Undisturbed [structured] := by
  obtain ⟨console, hconsole, hconsoleFollows⟩ := console_follows least hcontext
  obtain ⟨structured, hstructured, hstructuredFollows⟩ := structured_follows least hcontext start
  refine ⟨console, structured, hconsole, hstructured, ?_, ?_, EntryLogger.undisturbed _,
    EntryLogger.undisturbed _⟩
  · exact EntryLogger.session_of_implements ConsoleLogger.implements (.cons hconsoleFollows .nil)
      hcalls
  · exact EntryLogger.session_of_implements StructuredLogger.implements
      (.cons hstructuredFollows .nil) hcalls

/-- A child with a name of its parent's and one that it is not given, and calls on both of them. -/
theorem implemented_by_both_shadowing :
    let context : Value :=
      .record [("service", .text "keel"), ("pool", .number (.finite false 3 0))]
    let now := Clock.ofMoment 1740903300000
    let calls : List (Clock × LogCall) :=
      [(now, .child 0 (.record [("pool", .number (.finite true 5 (-1))), ("shard", .undefined)])),
        (now, .write 1 .debug "quiet" .undefined),
        (now, .write 1 .warn "loud" (.record [("service", .undefined), ("full", .bool true)])),
        (now, .write 0 .info "hello" (.record [("shard", .null)]))]
    ∃ (console : ConsoleLogger) (structured : StructuredLogger) (ofChild ofParent : _),
      ConsoleLogger.new none false context = .ok console ∧
      StructuredLogger.new now "" context = .ok structured ∧
      (EntryLogger.session calls [console]).1.map (LogAnswer.map ConsoleLine.told) =
        [.made 1, .wrote none, .wrote (some (some ofChild)), .wrote (some (some ofParent))] ∧
      (EntryLogger.session calls [structured]).1.map (LogAnswer.map Line.told) =
        [.made 1, .wrote none, .wrote (some (some ofChild)), .wrote (some (some ofParent))] ∧
      ["service", "pool", "shard", "full"].map ofChild =
        [some (.text "keel"), some (.number (.finite true 5 (-1))), none, some (.bool true)] ∧
      ["service", "pool", "shard", "full"].map ofParent =
        [some (.text "keel"), some (.number (.finite false 3 0)), some .null, none] := by
  intro context now calls
  have hcontext : context.IsPlainContext := Or.inr ⟨_, rfl, by decide⟩
  have hcalls : ∀ timed ∈ calls, timed.1.moment?.isSome = true ∧ timed.2.IsPlain := by
    simp only [calls, List.forall_mem_cons]
    exact ⟨⟨rfl, _, rfl, by decide⟩, ⟨rfl, Or.inl rfl⟩, ⟨rfl, Or.inr ⟨_, rfl, by decide⟩⟩,
      ⟨rfl, Or.inr ⟨_, rfl, by decide⟩⟩, nofun⟩
  obtain ⟨console, structured, hconsole, hstructured, htold, htold', -, -⟩ :=
    implemented_by_both none hcontext now hcalls
  exact ⟨console, structured, _, _, hconsole, hstructured, htold, htold', rfl, rfl⟩

end PathLogger
end StorageKit
