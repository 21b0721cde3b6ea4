/-
What an entry says of its time, its level and its message.

Main statements:

* `ConsoleLogger.chain` — the logger at the end of a chain of child loggers;
* `lastGiven` — what the last of some contexts that gives a value under a name gives;
* `ConsoleLogger.get?_context_of_chain` — the context of that logger has under every name what the
  last context of the chain gives;
* `ConsoleLogger.get?_entryFields` — an entry has under a reserved name what the contexts give, and
  the words of the call if they are silent, whatever the fields of the call are;
* `ConsoleLogger.JsonCarries`, `ConsoleLogger.WordsCarry` — a line shows the same, in either form;
* **`ConsoleLogger.write_carries_head`** — a line that is written carries, under each reserved name
  that the contexts are silent about, the time of the clock, the level of the call and its message,
  in both forms; under one that a context gives, it carries what the last of them gives.

Design notes: both forms read the entry back by its names, so the entry is described by look-ups
first, and each form says what becomes of a look-up: `Json.get?_collectFields` for documents,
`ConsoleLogger.headLine_cases` for words.  Names within a context have to be distinct, as in every
record; the fields of the call need not be, since none of them that matters is kept.
-/
import StorageKit.Log.Console
import StorageKit.Proofs.Records

namespace StorageKit

/-- A sequence of two steps succeeds when both do. -/
theorem exists_of_bind_eq_ok {ε α β : Type} {x : Except ε α} {f : α → Except ε β} {b : β}
    (h : (x >>= f) = .ok b) : ∃ a, x = .ok a ∧ f a = .ok b := by
  cases x with
  | error _ => cases h
  | ok a => exact ⟨a, rfl, h⟩

/-! ### Documents of fields -/

namespace Value

theorem encodeFields_eq_map (style : Json.Style) (now : Option Moment) (depth : Nat)
    (fs : Fields Value) :
    encodeFields style now depth fs =
      fs.map fun field => (field.1, encode style now depth field.2 .itself) := by
  induction fs with
  | nil => rfl
  | cons field rest ih =>
    obtain ⟨k, v⟩ := field
    rw [encodeFields, ih, List.map_cons]

theorem names_encodeFields (style : Json.Style) (now : Option Moment) (depth : Nat)
    (fs : Fields Value) : Fields.names (encodeFields style now depth fs) = Fields.names fs := by
  rw [encodeFields_eq_map]
  exact Fields.names_map (encode style now depth · .itself) fs

theorem get?_encodeFields (style : Json.Style) (now : Option Moment) (depth : Nat)
    (fs : Fields Value) (name : String) :
    Fields.get? name (encodeFields style now depth fs) =
      (Fields.get? name fs).map (encode style now depth · .itself) := by
  rw [encodeFields_eq_map]
  exact Fields.get?_map (encode style now depth · .itself) fs name

end Value

namespace Json

theorem collectFields_cons {name : String} {outcome : Outcome} {rest : Fields Outcome}
    {documents : Fields Json} (h : collectFields ((name, outcome) :: rest) = .ok documents) :
    ∃ document others, outcome = .ok document ∧ collectFields rest = .ok others ∧
      documents = match document with
        | some j => (name, j) :: others
        | none => others := by
  obtain ⟨document, houtcome, h⟩ := exists_of_bind_eq_ok h
  obtain ⟨others, hothers, h⟩ := exists_of_bind_eq_ok h
  exact ⟨document, others, houtcome, hothers, (Except.ok.inj h).symm⟩

/-- The names of collected fields are names of outcomes, in order. -/
theorem names_collectFields {outcomes : Fields Outcome} {documents : Fields Json}
    (h : collectFields outcomes = .ok documents) :
    (Fields.names documents).Sublist (Fields.names outcomes) := by
  induction outcomes generalizing documents with
  | nil =>
    cases h
    exact List.Sublist.refl []
  | cons field rest ih =>
    obtain ⟨k, outcome⟩ := field
    obtain ⟨document, others, -, hothers, rfl⟩ := collectFields_cons h
    cases document with
    | some j => exact (ih hothers).cons_cons k
    | none => exact (ih hothers).cons k

/-- A collected field is there when its outcome is a document. -/
theorem get?_collectFields {outcomes : Fields Outcome} {documents : Fields Json}
    (h : collectFields outcomes = .ok documents) (hnames : (Fields.names outcomes).Nodup)
    {name : String} {outcome : Outcome} (hname : Fields.get? name outcomes = some outcome) :
    outcome = .ok (Fields.get? name documents) := by
  induction outcomes generalizing documents with
  | nil => exact nomatch hname
  | cons field rest ih =>
    obtain ⟨k, found⟩ := field
    obtain ⟨hk, hrest⟩ := List.nodup_cons.mp hnames
    obtain ⟨document, others, hfound, hothers, rfl⟩ := collectFields_cons h
    change (if k = name then some found else Fields.get? name rest) = some outcome at hname
    by_cases hkey : k = name
    · rw [if_pos hkey, Option.some_inj] at hname
      subst hname hkey
      have hnone : Fields.get? k others = none :=
        Fields.get?_eq_none_iff.mpr fun hmem => hk ((names_collectFields hothers).subset hmem)
      cases document with
      | some j => exact hfound.trans (congrArg Except.ok (if_pos rfl).symm)
      | none => exact hfound.trans (congrArg Except.ok hnone.symm)
    · rw [if_neg hkey] at hname
      have hrestName := ih hothers hrest hname
      cases document with
      | some j => exact hrestName.trans (congrArg Except.ok (if_neg hkey).symm)
      | none => exact hrestName

end Json

/-! ### Contexts -/

/-- What the last of some contexts that gives a value under a name gives. -/
def lastGiven (name : String) (contexts : List Value) : Option Value :=
  contexts.reverse.findSome? fun context => Fields.get? name (ConsoleLogger.fieldsOf context)

theorem lastGiven_cons (name : String) (context : Value) (rest : List Value) :
    lastGiven name (context :: rest) =
      (lastGiven name rest).or (Fields.get? name (ConsoleLogger.fieldsOf context)) := by
  rw [lastGiven, List.reverse_cons, List.findSome?_append, List.findSome?_singleton]
  rfl

namespace ConsoleLogger

/-- The logger at the end of a chain of child loggers. -/
def chain (level : Option String) (pretty : Bool) (context : Value) (patches : List Value) :
    Except LogFault ConsoleLogger := do
  patches.foldlM (fun l patch => l.child patch) (← new level pretty context)

theorem contextOf_eq_ok {context : Value} {fields : Fields Value}
    (h : contextOf context = .ok fields) : fields = fieldsOf context := by
  unfold contextOf at h
  split at h
  · exact nomatch h
  · exact nomatch h
  · exact (Except.ok.inj h).symm

theorem context_of_new {level : Option String} {pretty : Bool} {context : Value}
    {l : ConsoleLogger} (h : new level pretty context = .ok l) : l.context = fieldsOf context := by
  unfold new at h
  split at h
  · next hundefined =>
    cases Except.ok.inj h
    cases context with
    | undefined => rfl
    | _ => exact nomatch hundefined
  · obtain ⟨fields, hfields, h⟩ := exists_of_bind_eq_ok h
    cases Except.ok.inj h
    exact contextOf_eq_ok hfields

theorem eq_of_child {patch : Value} {l l' : ConsoleLogger} (h : l.child patch = .ok l') :
    l' = { l with context := Fields.overlay l.context (fieldsOf patch) } := by
  obtain ⟨fields, hfields, h⟩ := exists_of_bind_eq_ok h
  rw [← contextOf_eq_ok hfields]
  exact (Except.ok.inj h).symm

theorem nodup_names_fieldsOf {v : Value} (h : (Fields.names v.fields).Nodup) :
    (Fields.names (fieldsOf v)).Nodup := by
  unfold fieldsOf
  split
  · exact List.nodup_nil
  · exact Fields.nodup_names_filter _ (Fields.nodup_names_filter _ h)

theorem get?_context_of_patches {patches : List Value}
    (hpatches : ∀ patch ∈ patches, (Fields.names patch.fields).Nodup) {l l' : ConsoleLogger}
    (h : patches.foldlM (fun l patch => l.child patch) l = .ok l')
    (hl : (Fields.names l.context).Nodup) :
    (Fields.names l'.context).Nodup ∧
      ∀ name, Fields.get? name l'.context =
        (lastGiven name patches).or (Fields.get? name l.context) := by
  induction patches generalizing l with
  | nil =>
    cases Except.ok.inj h
    exact ⟨hl, fun _ => rfl⟩
  | cons patch rest ih =>
    obtain ⟨hpatch, hrest⟩ := List.forall_mem_cons.mp hpatches
    obtain ⟨made, hmade, h⟩ := exists_of_bind_eq_ok h
    cases eq_of_child hmade
    obtain ⟨hnames, hget⟩ := ih hrest h (Fields.nodup_names_overlay hl _)
    refine ⟨hnames, fun name => ?_⟩
    rw [hget, lastGiven_cons, Option.or_assoc, Fields.get?_overlay,
      Fields.get?_reverse (nodup_names_fieldsOf hpatch)]

/-- The context of a logger has under every name what the last context of its chain gives. -/
theorem get?_context_of_chain {level : Option String} {pretty : Bool} {context : Value}
    {patches : List Value} {l : ConsoleLogger} (h : chain level pretty context patches = .ok l)
    (hdistinct : ∀ c ∈ context :: patches, (Fields.names c.fields).Nodup) :
    (Fields.names l.context).Nodup ∧
      ∀ name, Fields.get? name l.context = lastGiven name (context :: patches) := by
  obtain ⟨hcontext, hpatches⟩ := List.forall_mem_cons.mp hdistinct
  obtain ⟨first, hfirst, h⟩ := exists_of_bind_eq_ok h
  have hfields := context_of_new hfirst
  obtain ⟨hnames, hget⟩ := get?_context_of_patches hpatches h
    (hfields ▸ nodup_names_fieldsOf hcontext)
  refine ⟨hnames, fun name => ?_⟩
  rw [hget, hfields, lastGiven_cons]

/-! ### Entries -/

/-- What a call says of itself. -/
def ownHead (now : Moment) (level : Level) (message : String) : Fields String :=
  [("timestamp", now.iso), ("level", level.name), ("message", message)]

section
variable {now : Moment} {level : Level} {message : String} {name own : String}

theorem mem_reserved (h : (name, own) ∈ ownHead now level message) : name ∈ reserved := by
  have hname : name ∈ (ownHead now level message).map Prod.fst := List.mem_map_of_mem h
  exact hname

theorem exists_own (h : name ∈ reserved) (now : Moment) (level : Level) (message : String) :
    ∃ own, (name, own) ∈ ownHead now level message := by
  have hname : name ∈ (ownHead now level message).map Prod.fst := h
  obtain ⟨⟨_, own⟩, hmem, rfl⟩ := List.mem_map.mp hname
  exact ⟨own, hmem⟩

theorem get?_own (h : (name, own) ∈ ownHead now level message) :
    Fields.get? name
        [("timestamp", Value.text now.iso), ("level", .text level.name),
          ("message", .text message)] = some (.text own) := by
  simp only [ownHead, List.mem_cons, Prod.mk.injEq, List.not_mem_nil, or_false] at h
  obtain ⟨rfl, rfl⟩ | ⟨rfl, rfl⟩ | ⟨rfl, rfl⟩ := h <;> rfl

/-- The fields of the call are not asked for a reserved name; the context is, before the call
itself. -/
theorem get?_entryFields {l : ConsoleLogger} (hl : (Fields.names l.context).Nodup) (fields : Value)
    (h : (name, own) ∈ ownHead now level message) :
    Fields.get? name (l.entryFields now level message fields) =
      some ((Fields.get? name l.context).getD (.text own)) := by
  have hreserved : (!reserved.contains name) = false := by
    rw [List.contains_iff_mem.mpr (mem_reserved h)]
    rfl
  rw [entryFields, Fields.get?_overlay, Fields.get?_overlay, ← List.filter_reverse,
    Fields.get?_filter_name fun name => !reserved.contains name, hreserved,
    Fields.get?_reverse hl, get?_own h]
  cases Fields.get? name l.context <;> rfl

theorem nodup_names_entryFields (l : ConsoleLogger) (fields : Value) :
    (Fields.names (l.entryFields now level message fields)).Nodup := by
  refine Fields.nodup_names_overlay (Fields.nodup_names_overlay ?_ _) _
  show ["timestamp", "level", "message"].Nodup
  decide

end

/-- An error in an entry is reported, unless the report has no date; the names of the entry stay
what they are. -/
theorem reported_cases (now : Moment) (fields : Fields Value) :
    (reported now fields = .error .offCalendar ∧
      ∃ head context cause, Fields.get? "err" fields = some (.error head context cause) ∧
        Report.isDated (some now) (.error head context cause) = false) ∨
    ∃ entry, reported now fields = .ok entry ∧
      ((Fields.names fields).Nodup → (Fields.names entry).Nodup) ∧
      ∀ name, name ≠ "err" → Fields.get? name entry = Fields.get? name fields := by
  unfold reported
  split
  · next head context cause herr =>
    split
    · next report hreport =>
      exact Or.inr ⟨_, rfl, Fields.nodup_names_set _ _,
        fun name hname => Fields.get?_set_of_ne hname _ _⟩
    · next hreport =>
      refine Or.inl ⟨rfl, head, context, cause, herr, ?_⟩
      rw [← Report.isSome_ofValue true, hreport]
      rfl
  · exact Or.inr ⟨fields, rfl, id, fun _ _ => rfl⟩

/-! ### Lines -/

/-- The document of an entry is the object of its fields' documents. -/
theorem encode_record (now : Moment) (entry : Fields Value) :
    (Value.record entry).encode .strict (some now) 0 .itself =
      (Json.collectFields (Value.encodeFields .strict (some now) 1 entry)).map fun documents =>
        some (.object documents) := by
  simp [Value.encode, Value.inRole, Json.Style.object, Json.Style.reaches, Json.Style.strict,
    Value.Role.depth]

/-- Fields are written as a document, unless there is an obstacle. -/
theorem jsonLine_cases (now : Moment) {entry : Fields Value} (h : (Fields.names entry).Nodup) :
    (jsonLine now entry = failureText ∧
      ∃ obstacle, (Value.record entry).encode .strict (some now) 0 .itself = .error obstacle) ∨
    ∃ doc : Fields Json, jsonLine now entry = (Json.object doc).toText ∧
      (Fields.names doc).Nodup ∧
      ∀ name v, Fields.get? name entry = some v →
        v.encode .strict (some now) 1 .itself = .ok (Fields.get? name doc) := by
  rw [jsonLine, encode_record]
  have hnames : (Fields.names (Value.encodeFields .strict (some now) 1 entry)).Nodup := by
    rwa [Value.names_encodeFields]
  cases hdoc : Json.collectFields (Value.encodeFields .strict (some now) 1 entry) with
  | error obstacle => exact Or.inl ⟨rfl, obstacle, rfl⟩
  | ok doc =>
    refine Or.inr ⟨doc, rfl, hnames.sublist (Json.names_collectFields hdoc), fun name v hv => ?_⟩
    refine Json.get?_collectFields hdoc hnames ?_
    rw [Value.get?_encodeFields, hv]
    rfl

theorem word_eq (name : String) (entry : Fields Value) :
    word name entry =
      (((Fields.get? name entry).getD .undefined).plain? []).elim (.error .noPlainText) .ok := by
  rw [word]
  cases ((Fields.get? name entry).getD .undefined).plain? [] <;> rfl

/-- The words in front of an entry are the plain texts of three values. -/
theorem headLine_cases (entry : Fields Value) :
    (headLine entry = .error .noPlainText ∧
      ∃ name ∈ reserved, ((Fields.get? name entry).getD .undefined).plain? [] = none) ∨
    ∃ words : String → String,
      (∀ name ∈ reserved,
        ((Fields.get? name entry).getD .undefined).plain? [] = some (words name)) ∧
      headLine entry =
        .ok (words "timestamp" ++ " " ++ Text.upper (words "level") ++ " " ++ words "message") := by
  rw [headLine, word_eq, word_eq, word_eq]
  obtain ⟨plain, happly⟩ : ∃ plain : String → Option String,
      ∀ name, ((Fields.get? name entry).getD .undefined).plain? [] = plain name :=
    ⟨_, fun _ => rfl⟩
  simp only [happly]
  cases htimestamp : plain "timestamp" with
  | none => exact Or.inl ⟨rfl, "timestamp", by decide, htimestamp⟩
  | some timestamp =>
    cases hlevel : plain "level" with
    | none => exact Or.inl ⟨rfl, "level", by decide, hlevel⟩
    | some level =>
      cases hmessage : plain "message" with
      | none => exact Or.inl ⟨rfl, "message", by decide, hmessage⟩
      | some message =>
        refine Or.inr ⟨fun name => (plain name).getD "", ?_, ?_⟩
        · simp [reserved, htimestamp, hlevel, hmessage]
        · simp only [htimestamp, hlevel, hmessage]
          rfl

/-- What follows the head stands behind a blank or on a line of its own. -/
theorem prettyLines_of_headLine (now : Moment) {entry : Fields Value} {head : String}
    (h : headLine entry = .ok head) :
    ∃ tail, prettyLines now entry = .ok (head ++ tail) ∧
      (tail = "" ∨ ∃ more, tail = " " ++ more ∨ tail = "\n" ++ more) := by
  rw [prettyLines, h]
  obtain ⟨rest, stack⟩ := splitStack entry
  have htail (below : String) (hbelow : below = "" ∨ ∃ more, below = "\n" ++ more) :
      ∃ tail, (if rest.isEmpty then "" else " " ++ jsonLine now rest) ++ below = tail ∧
        (tail = "" ∨ ∃ more, tail = " " ++ more ∨ tail = "\n" ++ more) := by
    refine ⟨_, rfl, ?_⟩
    split
    · rw [String.empty_append]
      exact hbelow.imp_right fun ⟨more, hmore⟩ => ⟨more, Or.inr hmore⟩
    · exact Or.inr ⟨_, Or.inl String.append_assoc⟩
  -- the stack text, if there is one, comes below everything else
  cases stack with
  | none =>
    obtain ⟨tail, hline, hshape⟩ := htail "" (Or.inl rfl)
    refine ⟨tail, ?_, hshape⟩
    rw [← hline, String.append_empty]
    rfl
  | some stack =>
    by_cases hempty : stack = ""
    · obtain ⟨tail, hline, hshape⟩ := htail "" (Or.inl rfl)
      refine ⟨tail, ?_, hshape⟩
      rw [← hline, String.append_empty]
      exact congrArg Except.ok (if_pos hempty)
    · obtain ⟨tail, hline, hshape⟩ := htail ("\n" ++ indented stack) (Or.inr ⟨_, rfl⟩)
      refine ⟨tail, ?_, hshape⟩
      rw [← hline, ← String.append_assoc, ← String.append_assoc]
      exact congrArg Except.ok (if_neg hempty)

/-! ### What is written -/

/-- What a document has under a name that a call says something of: what the contexts give, or
else the words of the call. -/
def CarriedInDocument (now : Moment) (given : Option Value) (own : String) (found : Option Json) :
    Prop :=
  match given with
  | none => found = some (.text own)
  | some v => v.encode .strict (some now) 1 .itself = .ok found

/-- The words of a line for a name that a call says something of: what the contexts give, or else
the words of the call. -/
def CarriedInWords (given : Option Value) (own words : String) : Prop :=
  match given with
  | none => words = own
  | some v => v.plain? [] = some words

theorem carriedInDocument_of_encode {now : Moment} {given : Option Value} {own : String}
    {found : Option Json}
    (h : (given.getD (.text own)).encode .strict (some now) 1 .itself = .ok found) :
    CarriedInDocument now given own found := by
  cases given with
  | none => exact (Except.ok.inj h).symm
  | some v => exact h

theorem carriedInWords_of_plain? {given : Option Value} {own words : String}
    (h : (given.getD (.text own)).plain? [] = some words) : CarriedInWords given own words := by
  cases given with
  | none => exact (Option.some.inj h).symm
  | some v => exact h

theorem exists_given_of_plain?_eq_none {given : Option Value} {own : String}
    (h : (given.getD (.text own)).plain? [] = none) : ∃ v, given = some v ∧ v.plain? [] = none := by
  cases given with
  | none => exact nomatch h
  | some v => exact ⟨v, rfl, h⟩

/-- The head of a call is carried by a line of JSON. -/
def JsonCarries (now : Moment) (contexts : List Value) (head : Fields String) (text : String) :
    Prop :=
  ∃ doc : Fields Json, text = (Json.object doc).toText ∧ (Fields.names doc).Nodup ∧
    ∀ name own, (name, own) ∈ head →
      CarriedInDocument now (lastGiven name contexts) own (Fields.get? name doc)

/-- The head of a call is carried by a line of words. -/
def WordsCarry (contexts : List Value) (head : Fields String) (text : String) : Prop :=
  ∃ (words : String → String) (tail : String),
    text =
      words "timestamp" ++ " " ++ Text.upper (words "level") ++ " " ++ words "message" ++ tail ∧
    (tail = "" ∨ ∃ more, tail = " " ++ more ∨ tail = "\n" ++ more) ∧
    ∀ name own, (name, own) ∈ head → CarriedInWords (lastGiven name contexts) own (words name)

section
variable {now : Moment} {level : Level} {message : String} {contexts : List Value}
  {entry : Fields Value}

/-- A line of JSON carries the head of the entry that it was made from, unless there is an
obstacle. -/
theorem jsonLine_carries (hnames : (Fields.names entry).Nodup)
    (hentry : ∀ name own, (name, own) ∈ ownHead now level message →
      Fields.get? name entry = some ((lastGiven name contexts).getD (.text own))) :
    JsonCarries now contexts (ownHead now level message) (jsonLine now entry) ∨
      jsonLine now entry = failureText ∧
        ∃ obstacle, (Value.record entry).encode .strict (some now) 0 .itself = .error obstacle := by
  obtain hfailure | ⟨doc, htext, hdoc, hfound⟩ := jsonLine_cases now hnames
  · exact Or.inr hfailure
  · refine Or.inl ⟨doc, htext, hdoc, fun name own hown => ?_⟩
    exact carriedInDocument_of_encode (hfound name _ (hentry name own hown))

/-- A line of words carries the head of the entry that it was made from, unless the contexts give
it something without plain text. -/
theorem prettyLines_carries
    (hentry : ∀ name own, (name, own) ∈ ownHead now level message →
      Fields.get? name entry = some ((lastGiven name contexts).getD (.text own))) :
    (∃ text, prettyLines now entry = .ok text ∧
      WordsCarry contexts (ownHead now level message) text) ∨
    prettyLines now entry = .error .noPlainText ∧
      ∃ name ∈ reserved, ∃ v, lastGiven name contexts = some v ∧ v.plain? [] = none := by
  have hvalue (name own : String) (hown : (name, own) ∈ ownHead now level message) :
      (Fields.get? name entry).getD .undefined = (lastGiven name contexts).getD (.text own) := by
    rw [hentry name own hown, Option.getD_some]
  obtain ⟨hfault, name, hname, hplain⟩ | ⟨words, hwords, hhead⟩ := headLine_cases entry
  · obtain ⟨own, hown⟩ := exists_own hname now level message
    rw [hvalue name own hown] at hplain
    refine Or.inr ⟨?_, name, hname, exists_given_of_plain?_eq_none hplain⟩
    rw [prettyLines, hfault]
    rfl
  · obtain ⟨tail, htext, htail⟩ := prettyLines_of_headLine now hhead
    refine Or.inl ⟨_, htext, words, tail, rfl, htail, fun name own hown => ?_⟩
    have hplain := hwords name (mem_reserved hown)
    rw [hvalue name own hown] at hplain
    exact carriedInWords_of_plain? hplain

end

/-- **A line carries what its call says of itself, where no context says otherwise.**  For a logger
at the end of a chain of contexts, a level that it lets through and any fields: under each of the
names `timestamp`, `level` and `message` that no context gives a value, the line carries the time,
the level and the message of the call, in both forms; under one that a context gives, what the last
of them gives.  The fields of the call have no say in it.  Nothing is written only if the report of
an error has no date, or if a context gives one of the three a value without plain text. -/
theorem write_carries_head {least : Option String} {pretty : Bool} {context : Value}
    {patches : List Value} {l : ConsoleLogger} (hl : chain least pretty context patches = .ok l)
    (hdistinct : ∀ c ∈ context :: patches, (Fields.names c.fields).Nodup)
    {level : Level} (hlevel : l.lets level = true) {clock : Clock} {now : Moment}
    (hclock : clock.moment? = some now) (message : String) (fields : Value) :
    let contexts := context :: patches
    match l.write clock level message fields with
    | .error .offCalendar =>
      ∃ head context cause,
        Fields.get? "err" (l.entryFields now level message fields) =
          some (.error head context cause) ∧
        Report.isDated (some now) (.error head context cause) = false
    | .error fault =>
      fault = .noPlainText ∧ l.pretty = true ∧
        ∃ name ∈ reserved, ∃ v, lastGiven name contexts = some v ∧ v.plain? [] = none
    | .ok none => False
    | .ok (some line) =>
      line.method = method level ∧
        if l.pretty then WordsCarry contexts (ownHead now level message) line.text
        else
          JsonCarries now contexts (ownHead now level message) line.text ∨
            line.text = failureText ∧
              ∃ entry obstacle, l.payload now level message fields = .ok entry ∧
                (Value.record entry).encode .strict (some now) 0 .itself = .error obstacle := by
  intro contexts
  -- the context of the logger is what the chain gives last
  obtain ⟨hnames, hcontext⟩ := get?_context_of_chain hl hdistinct
  -- a line is made of the reported fields, in one of the two forms
  have hwrite : l.write clock level message fields =
      (l.payload now level message fields).bind fun entry =>
        (l.entryText now entry).map fun text => some ⟨method level, text⟩ := by
    rw [write, if_pos hlevel, hclock]
    rfl
  obtain ⟨hfault, herr⟩ | ⟨entry, hentry, hdoc, hget⟩ :=
    reported_cases now (l.entryFields now level message fields)
  · -- an error without a date leaves nothing to write
    rw [hwrite, payload, hfault]
    exact herr
  · have hpayload : l.payload now level message fields = .ok entry := hentry
    -- the head of the entry is that of the call, under the names that no context gives
    have hhead (name own : String) (hown : (name, own) ∈ ownHead now level message) :
        Fields.get? name entry = some ((lastGiven name contexts).getD (.text own)) := by
      have hname : name ≠ "err" := by
        rintro rfl
        exact absurd (mem_reserved hown) (by decide)
      rw [hget name hname, get?_entryFields hnames fields hown, hcontext]
    rw [hwrite, hpayload, Except.bind, entryText]
    cases hpretty : l.pretty with
    | true =>
      -- in words the head comes first, if all of it has plain text
      rw [if_pos rfl]
      obtain ⟨text, htext, hcarries⟩ | ⟨hfault, hgiven⟩ := prettyLines_carries hhead
      · rw [htext]
        exact ⟨rfl, hcarries⟩
      · rw [hfault]
        exact ⟨rfl, rfl, hgiven⟩
    | false =>
      -- as JSON the head is read back, or the text says that there is no document
      rw [if_neg Bool.false_ne_true]
      refine ⟨rfl, ?_⟩
      obtain hcarries | ⟨hfailure, obstacle, hobstacle⟩ :=
        jsonLine_carries (hdoc (nodup_names_entryFields l fields)) hhead
      · exact Or.inl hcarries
      · exact Or.inr ⟨hfailure, entry, obstacle, rfl, hobstacle⟩

/-- Contexts that are silent about the head, and fields of a call that claim another one. -/
theorem write_carries_head_colliding :
    let context : Value := .record [("service", .text "keel")]
    let patch : Value := .record [("message", .undefined), ("part", .text "pool")]
    let fields : Value := .record [("level", .text "fatal"), ("message", .null), ("k", .bool true)]
    ∃ l line, chain (some "debug") true context [patch] = .ok l ∧
      (∀ c ∈ [context, patch], (Fields.names c.fields).Nodup) ∧ l.lets .warn = true ∧
      (Clock.ofMoment 1740903300000).moment? = some 1740903300000 ∧
      l.write (.ofMoment 1740903300000) .warn "hello" fields = .ok (some line) ∧
      line.method = "warn" ∧
      ∃ tail, line.text = "2025-03-02T08:15:00.000Z" ++ " " ++ Text.upper "warn" ++ " " ++
        "hello" ++ tail := by
  intro context patch fields
  have hchain : chain (some "debug") true context [patch] = .ok
      { minimum := some .debug
        pretty := true
        context := [("service", .text "keel"), ("part", .text "pool")] } := rfl
  have hdistinct : ∀ c ∈ [context, patch], (Fields.names c.fields).Nodup := by decide
  have hlets : ConsoleLogger.lets .warn
      { minimum := some .debug
        pretty := true
        context := [("service", .text "keel"), ("part", .text "pool")] } = true := rfl
  have hclock : (Clock.ofMoment 1740903300000).moment? = some 1740903300000 := rfl
  obtain ⟨hmethod, words, tail, htext, -, hwords⟩ :=
    write_carries_head hchain hdistinct hlets hclock "hello" fields
  have htimestamp : words "timestamp" = "2025-03-02T08:15:00.000Z" :=
    hwords "timestamp" _ (List.mem_cons_self ..)
  have hlevel : words "level" = "warn" :=
    hwords "level" _ (List.mem_cons_of_mem _ (List.mem_cons_self ..))
  have hmessage : words "message" = "hello" :=
    hwords "message" _ (List.mem_cons_of_mem _ (List.mem_cons_of_mem _ (List.mem_cons_self ..)))
  refine ⟨_, _, hchain, hdistinct, hlets, hclock, rfl, hmethod, tail, ?_⟩
  rw [htimestamp, hlevel, hmessage] at htext
  exact htext

/-- A context that gives a level: it stands in the place of the level of the call. -/
theorem level_of_context_stands_for_the_call :
    ((chain (some "trace") false (.record [("level", .text "fatal")]) []).bind fun l =>
        l.write (.ofMoment 1740903300000) .info "hello" .undefined) =
      .ok (some ⟨"info", "\x7b\"timestamp\":\"2025-03-02T08:15:00.000Z\",\"level\":\"fatal\"," ++
        "\"message\":\"hello\"\x7d"⟩) ∧
    ((chain (some "trace") true (.record [("level", .text "fatal")]) []).bind fun l =>
        l.write (.ofMoment 1740903300000) .info "hello" .undefined) =
      .ok (some ⟨"info", "2025-03-02T08:15:00.000Z FATAL hello"⟩) := by
  exact ⟨rfl, rfl⟩

end ConsoleLogger
end StorageKit
