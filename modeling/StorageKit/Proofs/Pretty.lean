/-
Lines in words are read as lines of JSON are.

* `Text.lines` — the lines of a text, `Text.lines_indented` those of an indented one;
* `Pretty.read?` — what a reader makes of a text in words when it knows the words in front: the
  fields of the object behind them, with the lines below put back at `stack` into the error;
* `ConsoleLogger.stackText` — the stack text that is found in the error of an entry;
* `ConsoleLogger.splitStack_eq` — what is written behind the words and below them;
* `ConsoleLogger.AgreeOnErr` — two readers find the same error, except for its stack if there is no
  stack text;
* **`ConsoleLogger.pretty_reads_as_json`** — of a call whose entry can be written a reader of the
  words learns the fields that a reader of the JSON learns, except for a field `stack` in the object
  at `err` that is no text or an empty one: it is missing then;
* `ConsoleLogger.stack_number_is_lost` — such a call.

Design notes: the words in front are the time, the level and the message, so the contexts have to be
silent about these.  An entry that can be written holds no reference back, so there is nothing to put
in the place of one when the stack is taken out of an error.
-/
import StorageKit.Proofs.Decoded

namespace StorageKit

/-! ### Lines -/

namespace Text

/-- The lines of a text. -/
def lines (s : String) : List (List Char) := s.toList.splitOn '\n'

/-- A line with two blanks in front. -/
def withBlanks (line : List Char) : List Char := ' ' :: ' ' :: line

theorem exists_lines (cs : List Char) : ∃ first rest, cs.splitOn '\n' = first :: rest :=
  List.exists_cons_of_ne_nil (List.splitOn_ne_nil '\n' cs)

theorem lines_expanded (cs : List Char) :
    ∃ first rest, cs.splitOn '\n' = first :: rest ∧
      (cs.flatMap fun c => if c = '\n' then ['\n', ' ', ' '] else [c]).splitOn '\n' =
        first :: rest.map withBlanks := by
  -- a line end begins a new first line, any other character goes in front of the first line
  induction cs with
  | nil => exact ⟨[], [], rfl, rfl⟩
  | cons c rest ih =>
    obtain ⟨first, others, hrest, hexpanded⟩ := ih
    by_cases hc : c = '\n'
    · refine ⟨[], first :: others, ?_, ?_⟩
      · rw [List.splitOn_cons_eq_if_modifyHead, if_pos (beq_iff_eq.mpr hc), hrest]
      · rw [List.flatMap_cons, if_pos hc]
        simp [List.splitOn_cons_eq_if_modifyHead, hexpanded, withBlanks]
    · refine ⟨c :: first, others, ?_, ?_⟩
      · rw [List.splitOn_cons_eq_if_modifyHead, if_neg (mt beq_iff_eq.mp hc), hrest]
        rfl
      · rw [List.flatMap_cons, if_neg hc, List.singleton_append,
          List.splitOn_cons_eq_if_modifyHead, if_neg (mt beq_iff_eq.mp hc), hexpanded]
        rfl

/-- An indented text has the lines of the text, each with two blanks in front. -/
theorem lines_indented (s : String) :
    lines (ConsoleLogger.indented s) = (lines s).map withBlanks := by
  obtain ⟨first, rest, hlines, hexpanded⟩ := lines_expanded s.toList
  rw [lines, lines, hlines, ConsoleLogger.indented, String.toList_ofList]
  simp [List.splitOn_cons_eq_if_modifyHead, hexpanded, withBlanks]

/-- A text on one line, with another text below it. -/
theorem lines_append_newline {s : String} (h : '\n' ∉ s.toList) (below : String) :
    lines (s ++ "\n" ++ below) = s.toList :: lines below := by
  rw [lines, String.toList_append, String.toList_append, List.append_assoc]
  exact List.splitOn_append_cons_self_of_not_mem h below.toList

theorem lines_of_notMem {s : String} (h : '\n' ∉ s.toList) : lines s = [s.toList] :=
  List.splitOn_eq_singleton h

/-- A text is put together from its lines. -/
theorem ofList_intercalate_lines (s : String) :
    String.ofList (['\n'].intercalate (lines s)) = s := by
  rw [lines, List.intercalate_splitOn, String.ofList_toList]

theorem notMem_append {s t : String} (hs : '\n' ∉ s.toList) (ht : '\n' ∉ t.toList) :
    '\n' ∉ (s ++ t).toList := by
  rw [String.toList_append, List.mem_append]
  exact not_or.mpr ⟨hs, ht⟩

end Text

/-! ### The words in front -/

theorem Calendar.notMem_padded (width n : Nat) : '\n' ∉ (padded width n).toList := by
  rw [padded, String.toList_ofList, List.mem_append]
  rintro (hmem | hmem)
  · exact absurd (List.eq_of_mem_replicate hmem) (by decide)
  · exact absurd (Numeral.digits_toDigits n _ hmem) (by decide)

/-- A moment is written on one line. -/
theorem Moment.notMem_iso (t : Moment) : '\n' ∉ (Moment.iso t).toList := by
  have hyear (y : Int) : '\n' ∉ (Calendar.isoYear y).toList := by
    rw [Calendar.isoYear]
    split
    · exact Calendar.notMem_padded _ _
    · refine Text.notMem_append ?_ (Calendar.notMem_padded _ _)
      split <;> decide
  simp [iso, Calendar.clockText, hyear, Calendar.notMem_padded]

theorem Level.notMem_upper (level : Level) : '\n' ∉ (Text.upper level.name).toList := by
  cases level <;> decide

/-! ### A reader of words -/

namespace Pretty

/-- The fields behind the words: none, or those of an object behind a blank. -/
def fieldsOf? : List Char → Option (Fields Json)
  | [] => some []
  | _ :: cs =>
    match Json.read? cs with
    | some (.object fields) => some fields
    | _ => none

/-- Fields with a stack text put back into their error. -/
def putBack (stack : String) (fields : Fields Json) : Fields Json :=
  match Fields.get? "err" fields with
  | some (.object err) => Fields.set "err" (.object (Fields.set "stack" (.text stack) err)) fields
  | _ => fields

/-- The fields that a text in words tells a reader who knows the words in front.  The lines below
the first one lose their two blanks and are the stack text. -/
def read? (head text : String) : Option (Fields Json) :=
  match Text.lines text with
  | [] => none
  | line :: below =>
    (fieldsOf? (line.drop head.toList.length)).map fun fields =>
      if below.isEmpty then fields
      else putBack (String.ofList (['\n'].intercalate (below.map (List.drop 2)))) fields

section

variable {head tail : String} {shown : Fields Json}

theorem drop_head (head tail : String) :
    (head ++ tail).toList.drop head.toList.length = tail.toList := by
  rw [String.toList_append, List.drop_left]

/-- A text on one line tells the fields behind the words. -/
theorem read?_line (hline : '\n' ∉ (head ++ tail).toList)
    (hshown : fieldsOf? tail.toList = some shown) : read? head (head ++ tail) = some shown := by
  rw [read?, Text.lines_of_notMem hline]
  dsimp only
  rw [drop_head, hshown]
  rfl

/-- A stack text below the line is put back. -/
theorem read?_stack (hline : '\n' ∉ (head ++ tail).toList)
    (hshown : fieldsOf? tail.toList = some shown) (stack : String) :
    read? head (head ++ tail ++ "\n" ++ ConsoleLogger.indented stack) =
      some (putBack stack shown) := by
  have hbelow : ((Text.lines stack).map Text.withBlanks).map (List.drop 2) = Text.lines stack := by
    rw [List.map_map]
    exact List.map_id _
  have hsome : ((Text.lines stack).map Text.withBlanks).isEmpty = false := by
    obtain ⟨first, others, hsplit⟩ := Text.exists_lines stack.toList
    rw [Text.lines, hsplit]
    rfl
  rw [read?, Text.lines_append_newline hline, Text.lines_indented]
  dsimp only
  rw [drop_head, hshown, hsome, hbelow, Text.ofList_intercalate_lines]
  rfl

end

end Pretty

/-! ### Errors without their stack -/

namespace Value

theorem unfoldFields_of_forall {whole : Value} {depth : Nat} {fs : Fields Value}
    (h : ∀ field ∈ fs, unfold whole depth field.2 = field.2) :
    unfoldFields whole depth fs = fs := by
  rw [unfoldFields_eq_map]
  calc fs.map (fun field => (field.1, unfold whole depth field.2))
      = fs.map id := List.map_congr_left fun field hfield => Prod.ext rfl (h field hfield)
    _ = fs := List.map_id fs

/-- A value that can be written has no references back to put anything in the place of. -/
theorem unfold_of_isWritable {now : Option Moment} {v : Value} (h : v.IsWritable .strict now)
    (whole : Value) (depth : Nat) : unfold whole depth v = v := by
  induction v using Value.induction generalizing depth with
  | leaf v hv =>
    cases v with
    | back n => exact absurd rfl (h _ (.self _))
    | list _ | record _ | error _ _ _ => cases hv
    | _ => rfl
  | list items ih =>
    have hitems := isWritable_list.mp h
    rw [unfold, unfoldItems_eq_map]
    congr 1
    calc items.map (unfold whole (depth + 1))
        = items.map id := List.map_congr_left fun v hv => ih v hv (hitems v hv) (depth + 1)
      _ = items := List.map_id items
  | record fs ih =>
    have hfields := isWritable_record.mp h
    rw [unfold, unfoldFields_of_forall fun field hfield =>
      ih field hfield (hfields field hfield) (depth + 1)]
  | error head context cause _ _ => rfl

theorem fields_of_isWritable {now : Option Moment} {fs : Fields Value}
    (h : (Value.record fs).IsWritable .strict now) : (Value.record fs).fields = fs :=
  unfoldFields_of_forall fun field hfield =>
    unfold_of_isWritable (isWritable_record.mp h field hfield) (.record fs) 0

/-- The characters of a text. -/
def words? : Value → Option String
  | .text s => some s
  | .half unit => some (Text.ofUnit unit)
  | _ => none

/-- A record without its stack. -/
def withoutStack : Value → Value
  | .record err => .record (Fields.erase "stack" err)
  | v => v

end Value

namespace ConsoleLogger

/-- What stands at `stack` in the error of an entry. -/
def stackValue (entry : Fields Value) : Option Value :=
  match Fields.get? "err" entry with
  | some (.record err) => Fields.get? "stack" err
  | _ => none

/-- The stack text in the error of an entry, empty if there is none. -/
def stackText (entry : Fields Value) : String := ((stackValue entry).bind Value.words?).getD ""

/-- What is written behind the words and below them. -/
theorem splitStack_eq {entry : Fields Value} (hnames : (Fields.names entry).Nodup)
    (herr : ∀ err, Fields.get? "err" entry = some (.record err) →
      (Value.record err).fields = err) :
    ∃ rest, splitStack entry = (rest, (stackValue entry).bind Value.words?) ∧
      (Fields.names rest).Nodup ∧
      ∀ name, Fields.get? name rest =
        if name ∈ reserved then none
        else if name = "err" then (Fields.get? "err" entry).map Value.withoutStack
        else Fields.get? name entry := by
  let kept : Fields Value := entry.filter fun f => !(reserved.contains f.1 || f.1 = "err")
  have hkept : (Fields.names kept).Nodup := Fields.nodup_names_filter _ hnames
  have hget (name : String) : Fields.get? name kept =
      if name ∈ reserved then none else if name = "err" then none else Fields.get? name entry := by
    have hfilter : Fields.get? name kept = _ :=
      Fields.get?_filter_name (fun name => !(reserved.contains name || name = "err")) entry name
    rw [hfilter]
    by_cases hreserved : name ∈ reserved <;> by_cases hname : name = "err" <;>
      simp [hreserved, hname]
  have hset (v : Value) : (Fields.names (Fields.set "err" v kept)).Nodup ∧
      ∀ name, Fields.get? name (Fields.set "err" v kept) =
        if name ∈ reserved then none else if name = "err" then some v
        else Fields.get? name entry := by
    refine ⟨Fields.nodup_names_set _ _ hkept, fun name => ?_⟩
    rw [Fields.get?_set, hget]
    by_cases hname : name = "err"
    · subst hname
      rfl
    · simp [hname]
  rw [splitStack.eq_def, stackValue.eq_def]
  cases hfound : Fields.get? "err" entry with
  | none => exact ⟨kept, rfl, hkept, hget⟩
  | some v =>
    cases v with
    | record err =>
      dsimp only
      rw [herr err hfound]
      cases hstack : Fields.get? "stack" err with
      | none =>
        refine ⟨_, rfl, ?_⟩
        rw [Option.map_some, Value.withoutStack, Fields.erase_eq_self hstack]
        exact hset (.record err)
      | some stack =>
        refine ⟨_, ?_, hset (.record (Fields.erase "stack" err))⟩
        cases stack <;> rfl
    | _ => exact ⟨_, rfl, hset _⟩

section

variable {now : Moment} {entry : Fields Value}

theorem isWritable_withoutStack {v : Value} (h : v.IsWritable .strict (some now)) :
    v.withoutStack.IsWritable .strict (some now) := by
  cases v with
  | record err =>
    exact Value.isWritable_record.mpr fun field hfield =>
      Value.isWritable_record.mp h field (List.mem_of_mem_filter hfield)
  | _ => exact h

/-- What is read of an error, and of the same error without its stack. -/
theorem readOf_err (hwritable : (Value.record entry).IsWritable .strict (some now))
    (herr : ∀ err, Fields.get? "err" entry = some (.record err) → (Fields.names err).Nodup) :
    (stackText entry = "" ∧
      ((Fields.get? "err" entry).map Value.withoutStack).bind (Value.readOf now 1) =
        (Fields.get? "err" entry).bind (Value.readOf now 1)) ∨
    ∃ without doc : Fields Json,
      ((Fields.get? "err" entry).map Value.withoutStack).bind (Value.readOf now 1) =
        some (.object without) ∧
      (Fields.get? "err" entry).bind (Value.readOf now 1) = some (.object doc) ∧
      (∀ name, Fields.get? name without = if name = "stack" then none else Fields.get? name doc) ∧
      (stackText entry ≠ "" → Fields.get? "stack" doc = some (.text (stackText entry))) := by
  rw [stackText, stackValue.eq_def]
  cases hfound : Fields.get? "err" entry with
  | none => exact Or.inl ⟨rfl, rfl⟩
  | some v =>
    cases v with
    | record err =>
      have hv : (Value.record err).IsWritable .strict (some now) :=
        Value.isWritable_record.mp hwritable _ (Fields.mem_of_get? hfound)
      have hnames := herr err hfound
      have hless : (Fields.names (Fields.erase "stack" err)).Nodup :=
        Fields.nodup_names_filter _ hnames
      obtain ⟨doc, hdoc, -, hget⟩ :=
        Value.exists_readOf_record hnames ((Value.isOk_encode_iff rfl _ _ 1).mpr hv)
      obtain ⟨without, hwithout, -, hgetWithout⟩ := Value.exists_readOf_record hless
        ((Value.isOk_encode_iff rfl _ _ 1).mpr (isWritable_withoutStack hv))
      refine Or.inr ⟨without, doc, hwithout, hdoc, fun name => ?_, fun hstack => ?_⟩
      · rw [hgetWithout, hget]
        split
        · next hname =>
          rw [hname]
          exact congrArg (Option.bind · _) (Keyed.get?_erase_self "stack" err)
        · next hname => exact congrArg (Option.bind · _) (Keyed.get?_erase_of_ne hname err)
      · -- a value that is no text has no words, so the stack text would be empty
        rw [hget]
        dsimp only at hstack ⊢
        cases hvalue : Fields.get? "stack" err with
        | none =>
          rw [hvalue] at hstack
          exact absurd rfl hstack
        | some stack =>
          rw [hvalue] at hstack
          cases stack with
          | text s => rfl
          | half unit => rfl
          | _ => exact absurd rfl hstack
    | _ => exact Or.inl ⟨rfl, rfl⟩

/-- What is written behind the words, read again. -/
theorem exists_tail (hnames : (Fields.names entry).Nodup)
    (hwritable : (Value.record entry).IsWritable .strict (some now)) {head : String}
    (hhead : headLine entry = .ok head) :
    ∃ (tail : String) (doc : Fields Json),
      prettyLines now entry = .ok (head ++ tail ++
        if stackText entry = "" then "" else "\n" ++ indented (stackText entry)) ∧
      '\n' ∉ tail.toList ∧ Pretty.fieldsOf? tail.toList = some doc ∧
      ∀ name, Fields.get? name doc =
        (if name ∈ reserved then none
        else if name = "err" then (Fields.get? "err" entry).map Value.withoutStack
        else Fields.get? name entry).bind (Value.readOf now 1) := by
  obtain ⟨rest, hsplit, hrest, hget⟩ := splitStack_eq hnames fun err herr =>
    Value.fields_of_isWritable (Value.isWritable_record.mp hwritable _ (Fields.mem_of_get? herr))
  -- what is written behind the words was in the entry, as it is or without its stack
  have hrestWritable : (Value.record rest).IsWritable .strict (some now) := by
    refine Value.isWritable_record.mpr fun field hfield => ?_
    have hfound := hget field.1
    rw [Fields.get?_of_mem hrest hfield] at hfound
    have hentry (name : String) (v : Value) (hv : Fields.get? name entry = some v) :
        v.IsWritable .strict (some now) :=
      Value.isWritable_record.mp hwritable _ (Fields.mem_of_get? hv)
    split at hfound
    · cases hfound
    · split at hfound
      · obtain ⟨v, hv, hwithout⟩ := Option.map_eq_some_iff.mp hfound.symm
        rw [← hwithout]
        exact isWritable_withoutStack (hentry _ v hv)
      · exact hentry _ _ hfound.symm
  let tail : String := if rest.isEmpty then "" else " " ++ jsonLine now rest
  have htext : prettyLines now entry = .ok (head ++ tail ++
      if stackText entry = "" then "" else "\n" ++ indented (stackText entry)) := by
    rw [prettyLines, hhead, hsplit, stackText]
    cases (stackValue entry).bind Value.words? with
    | none => exact congrArg Except.ok String.append_empty.symm
    | some stack =>
      by_cases hstack : stack = ""
      · subst hstack
        exact congrArg Except.ok String.append_empty.symm
      · rw [Option.getD_some, if_neg hstack, ← String.append_assoc]
        exact congrArg Except.ok (if_neg hstack)
  cases hempty : rest.isEmpty with
  | true =>
    cases List.isEmpty_iff.mp hempty
    refine ⟨tail, [], htext, ?_, rfl, fun name => ?_⟩
    · show '\n' ∉ "".toList
      decide
    · rw [← hget name]
      rfl
  | false =>
    have htail : tail = " " ++ jsonLine now rest := if_neg (by rw [hempty]; exact Bool.false_ne_true)
    obtain ⟨doc, hread, -, hdoc⟩ := jsonLine_reads hrestWritable hrest
    refine ⟨tail, doc, htext, ?_, ?_, fun name => ?_⟩
    · rw [htail]
      refine Text.notMem_append (by decide) fun hmem => ?_
      exact absurd (printable_jsonLine now rest _ hmem) (by decide)
    · rw [htail, String.toList_append]
      show (match Json.read? (jsonLine now rest).toList with
        | some (.object fields) => some fields
        | _ => none) = some doc
      rw [hread]
    · rw [hdoc, hget]

end

/-! ### Both forms -/

/-- Two readers find the same at `err`.  If there is no stack text, the first one misses what the
second one finds at `stack`. -/
def AgreeOnErr (stack : String) (found other : Option Json) : Prop :=
  stack = "" ∧ found = other ∨
    ∃ err err' : Fields Json, found = some (.object err) ∧ other = some (.object err') ∧
      (∀ name, name ≠ "stack" → Fields.get? name err = Fields.get? name err') ∧
      Fields.get? "stack" err = if stack = "" then none else Fields.get? "stack" err'

/-- The words in front of an entry whose contexts are silent about them. -/
def wordsOf (now : Moment) (level : Level) (message : String) : String :=
  now.iso ++ " " ++ Text.upper level.name ++ " " ++ message

theorem notMem_wordsOf (now : Moment) (level : Level) {message : String}
    (h : '\n' ∉ message.toList) : '\n' ∉ (wordsOf now level message).toList := by
  have hiso := now.notMem_iso
  have hlevel := level.notMem_upper
  simp [wordsOf, hiso, hlevel, h]

/-- A text in words has one line for the words and the other fields, and below it the lines of the
stack text, with two blanks in front of each.  Put together again, they are read as the entry is. -/
theorem prettyLines_read {now : Moment} {entry : Fields Value} (hnames : (Fields.names entry).Nodup)
    (hwritable : (Value.record entry).IsWritable .strict (some now))
    (herr : ∀ err, Fields.get? "err" entry = some (.record err) → (Fields.names err).Nodup)
    {head : String} (hhead : headLine entry = .ok head) (hline : '\n' ∉ head.toList) :
    ∃ (text tail : String) (found doc : Fields Json),
      prettyLines now entry = .ok text ∧
      Text.lines text = (head ++ tail).toList ::
        (if stackText entry = "" then [] else (Text.lines (stackText entry)).map Text.withBlanks) ∧
      Pretty.read? head text = some found ∧
      Json.read? (jsonLine now entry).toList = some (.object doc) ∧
      (∀ name, name ≠ "err" →
        Fields.get? name found = if name ∈ reserved then none else Fields.get? name doc) ∧
      AgreeOnErr (stackText entry) (Fields.get? "err" found) (Fields.get? "err" doc) := by
  obtain ⟨tail, shown, htext, htail, hshown, hget⟩ := exists_tail hnames hwritable hhead
  obtain ⟨doc, hread, -, hdoc⟩ := jsonLine_reads hwritable hnames
  have hother (name : String) (hname : name ≠ "err") :
      Fields.get? name shown = if name ∈ reserved then none else Fields.get? name doc := by
    rw [hget, hdoc, if_neg hname]
    split <;> rfl
  have hshownErr : Fields.get? "err" shown =
      ((Fields.get? "err" entry).map Value.withoutStack).bind (Value.readOf now 1) :=
    hget "err"
  have hfirst : '\n' ∉ (head ++ tail).toList := Text.notMem_append hline htail
  by_cases hstack : stackText entry = ""
  · rw [if_pos hstack, String.append_empty] at htext
    refine ⟨_, tail, shown, doc, htext, ?_, Pretty.read?_line hfirst hshown, hread, hother, ?_⟩
    · rw [if_pos hstack, Text.lines_of_notMem hfirst]
    · rw [hshownErr, hdoc]
      obtain ⟨-, hsame⟩ | ⟨without, err, hwithout, herr, hfields, -⟩ := readOf_err hwritable herr
      · exact Or.inl ⟨hstack, hsame⟩
      · refine Or.inr ⟨without, err, hwithout, herr, fun name hname => ?_, ?_⟩
        · rw [hfields, if_neg hname]
        · rw [hfields, if_pos rfl, if_pos hstack]
  · rw [if_neg hstack, ← String.append_assoc] at htext
    obtain ⟨hempty, -⟩ | ⟨without, err, hwithout, herr, hfields, htextual⟩ :=
      readOf_err hwritable herr
    · exact absurd hempty hstack
    -- the reader puts the stack text behind the other fields of the error
    let restored : Fields Json := Fields.set "stack" (.text (stackText entry)) without
    have hput : Pretty.putBack (stackText entry) shown = Fields.set "err" (.object restored) shown := by
      rw [Pretty.putBack, hshownErr, hwithout]
    refine ⟨_, tail, Fields.set "err" (.object restored) shown, doc, htext, ?_, ?_, hread,
      fun name hname => ?_, ?_⟩
    · rw [Text.lines_append_newline hfirst, Text.lines_indented, if_neg hstack]
    · rw [Pretty.read?_stack hfirst hshown, hput]
    · rw [Fields.get?_set_of_ne hname, hother name hname]
    · rw [Fields.get?_set_self, hdoc, herr]
      refine Or.inr ⟨restored, err, rfl, rfl, fun name hname => ?_, ?_⟩
      · rw [Fields.get?_set_of_ne hname, hfields, if_neg hname]
      · rw [Fields.get?_set_self, if_neg hstack, htextual hstack]

/-- With contexts that are silent about them, the words in front of an entry are the time, the level
and the message of the call. -/
theorem headLine_of_silent {now : Moment} {level : Level} {message : String} {entry : Fields Value}
    (h : ∀ name own, (name, own) ∈ ownHead now level message →
      Fields.get? name entry = some (.text own)) :
    headLine entry = .ok (wordsOf now level message) := by
  have hword (name own : String) (hown : (name, own) ∈ ownHead now level message) :
      word name entry = .ok own := by
    rw [word, h name own hown]
    rfl
  rw [headLine, hword "timestamp" now.iso (by simp [ownHead]),
    hword "level" level.name (by simp [ownHead]), hword "message" message (by simp [ownHead])]
  rfl

/-- **A reader of the words learns what a reader of the JSON learns, except for a stack that is no
text or an empty one.**  For a logger at the end of a chain of contexts that are silent about time,
level and message, a level that is let through, a message on one line, and fields whose entry can be
written: the text in words is one line, with the words and an object of the other fields, and below
it the lines of the stack text if there is one, with two blanks in front of each.  Put together
again, the text tells the fields that the line of JSON for the same call tells, but for the words;
only in the object at `err` the field `stack` is missing if there is no stack text. -/
theorem pretty_reads_as_json {least : Option String} {context : Value} {patches : List Value}
    {l : ConsoleLogger} (hl : chain least true context patches = .ok l)
    (hdistinct : ∀ c ∈ context :: patches, (Fields.names c.fields).Nodup)
    (hsilent : ∀ name ∈ reserved, lastGiven name (context :: patches) = none) {level : Level}
    (hlevel : l.lets level = true) {clock : Clock} {now : Moment}
    (hclock : clock.moment? = some now) {message : String} (hmessage : '\n' ∉ message.toList)
    {fields : Value} {entry : Fields Value}
    (hentry : l.payload now level message fields = .ok entry)
    (hwritable : (Value.record entry).IsWritable .strict (some now))
    (herr : ∀ err, Fields.get? "err" entry = some (.record err) → (Fields.names err).Nodup) :
    let words := wordsOf now level message
    let stack := stackText entry
    ∃ (text json tail : String) (found doc : Fields Json),
      l.write clock level message fields = .ok (some ⟨method level, text⟩) ∧
      { l with pretty := false }.write clock level message fields =
        .ok (some ⟨method level, json⟩) ∧
      Text.lines text = (words ++ tail).toList ::
        (if stack = "" then [] else (Text.lines stack).map Text.withBlanks) ∧
      Pretty.read? words text = some found ∧ Json.read? json.toList = some (.object doc) ∧
      (∀ name, name ≠ "err" →
        Fields.get? name found = if name ∈ reserved then none else Fields.get? name doc) ∧
      AgreeOnErr stack (Fields.get? "err" found) (Fields.get? "err" doc) := by
  intro words stack
  obtain ⟨hnames, hcontext⟩ := get?_context_of_chain hl hdistinct
  obtain ⟨hfault, -⟩ | ⟨entry', hentry', hdoc, hget⟩ :=
    reported_cases now (l.entryFields now level message fields)
  · rw [payload, hfault] at hentry
    cases hentry
  cases hentry.symm.trans hentry'
  have hwords : headLine entry = .ok words := by
    refine headLine_of_silent fun name own hown => ?_
    have hname : name ≠ "err" := by
      rintro rfl
      exact absurd (mem_reserved hown) (by decide)
    rw [hget name hname, get?_entryFields hnames fields hown, hcontext,
      hsilent name (mem_reserved hown)]
    rfl
  obtain ⟨text, tail, found, doc, htext, hlines, hfound, hread, hother, hagree⟩ :=
    prettyLines_read (hdoc (nodup_names_entryFields l fields)) hwritable herr hwords
      (notMem_wordsOf now level hmessage)
  have hwrite (l' : ConsoleLogger) (hlets : l'.lets level = true) (written : String)
      (hpayload : l'.payload now level message fields = .ok entry)
      (hwritten : l'.entryText now entry = .ok written) :
      l'.write clock level message fields = .ok (some ⟨method level, written⟩) := by
    rw [write, if_pos hlets, hclock]
    show (l'.payload now level message fields).bind _ = _
    rw [hpayload]
    show (l'.entryText now entry).map _ = _
    rw [hwritten]
    rfl
  refine ⟨text, jsonLine now entry, tail, found, doc, hwrite l hlevel text hentry ?_,
    hwrite { l with pretty := false } hlevel _ hentry rfl, hlines, hfound, hread, hother, hagree⟩
  rw [entryText, pretty_of_chain hl]
  exact htext

/-- A call with an object at `err` that has a stack text of two lines: nothing is missing. -/
theorem pretty_reads_as_json_of_stack :
    let context : Value := .record [("service", .text "keel")]
    let fields : Value :=
      .record [("err", .record [("stack", .text "Error: torn\n    at read"), ("page", .bigint 7)])]
    ∃ l text json found doc err err', chain (some "debug") true context [] = .ok l ∧
      (∀ c ∈ [context], (Fields.names c.fields).Nodup) ∧
      (∀ name ∈ reserved, lastGiven name [context] = none) ∧ l.lets .warn = true ∧
      (Clock.ofMoment 1740903300000).moment? = some 1740903300000 ∧ '\n' ∉ "hello".toList ∧
      l.write (.ofMoment 1740903300000) .warn "hello" fields = .ok (some ⟨"warn", text⟩) ∧
      { l with pretty := false }.write (.ofMoment 1740903300000) .warn "hello" fields =
        .ok (some ⟨"warn", json⟩) ∧
      Pretty.read? (wordsOf 1740903300000 .warn "hello") text = some found ∧
      Json.read? json.toList = some (.object doc) ∧
      Fields.get? "err" found = some (.object err) ∧ Fields.get? "err" doc = some (.object err') ∧
      ∀ name, Fields.get? name err = Fields.get? name err' := by
  intro context fields
  let l : ConsoleLogger :=
    { minimum := some .debug, pretty := true, context := [("service", .text "keel")] }
  let err : Fields Value := [("stack", .text "Error: torn\n    at read"), ("page", .bigint 7)]
  let entry : Fields Value :=
    [("timestamp", .text "2025-03-02T08:15:00.000Z"), ("level", .text "warn"),
      ("message", .text "hello"), ("service", .text "keel"), ("err", .record err)]
  have hchain : chain (some "debug") true context [] = .ok l := rfl
  have hdistinct : ∀ c ∈ [context], (Fields.names c.fields).Nodup := by decide
  have hsilent : ∀ name ∈ reserved, lastGiven name [context] = none :=
    List.forall_mem_cons.mpr
      ⟨rfl, List.forall_mem_cons.mpr ⟨rfl, List.forall_mem_singleton.mpr rfl⟩⟩
  have hclock : (Clock.ofMoment 1740903300000).moment? = some 1740903300000 := rfl
  have hmessage : '\n' ∉ "hello".toList := by decide
  have hentry : l.payload 1740903300000 .warn "hello" fields = .ok entry := rfl
  have hwritable : (Value.record entry).IsWritable .strict (some 1740903300000) :=
    (Value.isOk_encode_iff rfl _ _ 0).mp rfl
  have hnames : ∀ found, Fields.get? "err" entry = some (.record found) →
      (Fields.names found).Nodup := by
    intro found hfound
    cases hfound
    decide
  obtain ⟨text, json, tail, found, doc, hwrite, hjson, -, hfound, hread, -, hagree⟩ :=
    pretty_reads_as_json hchain hdistinct hsilent rfl hclock hmessage hentry hwritable hnames
  have hstack : stackText entry ≠ "" := by decide
  obtain ⟨hempty, -⟩ | ⟨shown, err', hshown, herr', hother, hstackField⟩ := hagree
  · exact absurd hempty hstack
  · rw [if_neg hstack] at hstackField
    refine ⟨l, text, json, found, doc, shown, err', hchain, hdistinct, hsilent, rfl, hclock,
      hmessage, hwrite, hjson, hfound, hread, hshown, herr', fun name => ?_⟩
    by_cases hname : name = "stack"
    · rw [hname, hstackField]
    · exact hother name hname

/-- An object at `err` whose stack is a number: only the line of JSON has it. -/
theorem stack_number_is_lost :
    let fields : Value := .record [("err", .record [("stack", .number (.ofNat 5))])]
    ((chain (some "trace") true .undefined []).bind fun l =>
        l.write (.ofMoment 1740903300000) .info "hello" fields) =
      .ok (some ⟨"info", "2025-03-02T08:15:00.000Z INFO hello \x7b\"err\":\x7b\x7d\x7d"⟩) ∧
    ((chain (some "trace") false .undefined []).bind fun l =>
        l.write (.ofMoment 1740903300000) .info "hello" fields) =
      .ok (some ⟨"info", "\x7b\"timestamp\":\"2025-03-02T08:15:00.000Z\",\"level\":\"info\"," ++
        "\"message\":\"hello\",\"err\":\x7b\"stack\":5\x7d\x7d"⟩) :=
  ⟨rfl, rfl⟩

end ConsoleLogger
end StorageKit
