/-
How errors stand in a structured entry.

Under the field `err` stands the form of an error: its kind, its message and its stack text, and
then everything it shows when copied.  Whatever has a text as its message counts as an error here.

* `Value.hasMessage` — the test for that;
* `CauseStyle` — what becomes of causes: each stands inside the form of the error before it, or
  the messages and the stack texts of all of them are strung together;
* `Value.chainedMessage`, `Value.chainedStack` — strung together;
* `Value.errorForm` — the form; errors among the fields of an error stand there in the same form,
  and a list `errors` stands there a second time with its items in that form.

Design notes: the names that every record answers to are taken already, so fields of these names
are left out; so is a field `raw`, which is kept for the error itself, and a reference of a record
back to itself.  A record that has a field for what it was made from does not know its kind any
more, and what it calls itself takes its place.  The context of an error is sealed and cannot be
marked as visited, so an error whose context has a message has no form.
-/
import StorageKit.Log.Fault
import StorageKit.Value.Text

namespace StorageKit

/-- What becomes of the causes of an error. -/
inductive CauseStyle where
  | nested
  | chained
  deriving DecidableEq, Repr

namespace Value

/-- Has a message: an error, or a record with a text under `message`. -/
def hasMessage : Value → Bool
  | .error .. => true
  | .record fs =>
    match Fields.get? "message" fs with
    | some (.text _) => true
    | _ => false
  | _ => false

/-- The message of a record, empty if it has none. -/
def messageUnder (fs : Fields Value) : String :=
  match Fields.get? "message" fs with
  | some (.text s) => s
  | _ => ""

/-- What a record has in the place of a stack text, the empty text if that counts as false. -/
def stackUnder (fs : Fields Value) : Value :=
  let stack := (Fields.get? "stack" fs).getD .undefined
  if stack.isFalsy then .text "" else stack

mutual

/-- The messages of an error and its causes. -/
def chainedMessage : Value → String
  | .error head _ cause =>
    head.message ++ (if cause.hasMessage then ": " ++ chainedMessage cause else "")
  | .record fs => messageUnder fs ++ chainedMessageOfCause fs
  | _ => ""
termination_by structural v => v

/-- The messages of the cause among some fields. -/
def chainedMessageOfCause : List (String × Value) → String
  | [] => ""
  | (name, v) :: rest =>
    if name = "cause" then (if v.hasMessage then ": " ++ chainedMessage v else "")
    else chainedMessageOfCause rest
termination_by structural fields => fields

end

/-- A stack text with that of the cause below it. -/
def joinStacks (stack below : Value) : Except LogFault Value :=
  match stack.plain? [], below.plain? [] with
  | some upper, some lower => .ok (.text (upper ++ "\ncaused by: " ++ lower))
  | _, _ => .error .noPlainText

mutual

/-- The stack texts of an error and its causes.  Without a cause, any value may stand there. -/
def chainedStack : Value → Except LogFault Value
  | .error head _ cause =>
    if cause.hasMessage then do joinStacks (.text head.stack) (← chainedStack cause)
    else .ok (.text head.stack)
  | .record fs => do
    match ← chainedStackOfCause fs with
    | some below => joinStacks (stackUnder fs) below
    | none => .ok (stackUnder fs)
  | _ => .ok (.text "")
termination_by structural v => v

/-- The stack texts of the cause among some fields, if there is one. -/
def chainedStackOfCause : List (String × Value) → Except LogFault (Option Value)
  | [] => .ok none
  | (name, v) :: rest =>
    if name = "cause" then
      if v.hasMessage then (chainedStack v).map some else .ok none
    else chainedStackOfCause rest
termination_by structural fields => fields

end

/-- The kind of a record with a message. -/
def kindUnder (fs : Fields Value) : Value :=
  if Fields.has "constructor" fs then (Fields.get? "name" fs).getD .undefined
  else .text "Object"

/-- The fields of the form that are not copied; they are there even if they were given nothing. -/
def errorFormHead (kind message stack : Value) : Fields Value :=
  [("type", kind), ("message", message), ("stack", stack)]

/-- A field of a record with a message that is not copied into its form. -/
def isTaken (fs : Fields Value) (name : String) : Bool :=
  name = "message" || name = "stack" || Members.isInherited name
    || (name = "type" && !(kindUnder fs).isUndefined)
    || (name = "aggregateErrors" &&
      match Fields.get? "errors" fs with
      | some (.list _) => true
      | _ => false)

mutual

/-- An error as it stands under `err`; other values as they are. -/
def errorForm (style : CauseStyle) : Value → Except LogFault Value
  | .error head context cause => do
    let own ← match style with
      | .chained => do
        let below := if cause.hasMessage then ": " ++ chainedMessage cause else ""
        let stack ← if cause.hasMessage then do
            joinStacks (.text head.stack) (← chainedStack cause)
          else pure (.text head.stack)
        pure (errorFormHead (.text head.className) (.text (head.message ++ below)) stack)
      | .nested => do
        let causes ← if cause.hasMessage then do
            pure [("cause", ← errorForm style cause)]
          else pure []
        pure (errorFormHead (.text head.className) (.text head.message) (.text head.stack)
          ++ causes)
    if head.details.isSome && (Value.record context).hasMessage then
      throw .sealedContext
    return .record (own ++ errorFields head context)
  | .record fs =>
    if (Value.record fs).hasMessage then do
      let (message, stack) ← match style with
        | .chained => do
          let stack ← match ← chainedStackOfCause fs with
            | some below => joinStacks (stackUnder fs) below
            | none => pure (stackUnder fs)
          pure (messageUnder fs ++ chainedMessageOfCause fs, stack)
        | .nested => pure (messageUnder fs, (Fields.get? "stack" fs).getD .undefined)
      let others ← errorFormFields style (isTaken fs) fs
      return .record
        (Fields.overlay (errorFormHead (kindUnder fs) (.text message) stack) others)
    else .ok (.record fs)
  | v => .ok v
termination_by structural v => v

/-- The fields of a record with a message that are copied. -/
def errorFormFields (style : CauseStyle) (taken : String → Bool) :
    List (String × Value) → Except LogFault (List (String × Value))
  | [] => .ok []
  | (name, v) :: rest => do
    let own ←
      if taken name then pure []
      else if v.hasMessage then
        if style = .chained && name = "cause" then pure []
        else do
          let form ← errorForm style v
          pure (if name = "raw" then [] else [(name, form)])
      else
        match v with
        | .back _ => pure []
        | .list items =>
          if name = "errors" then do
            let forms ← errorFormItems style items
            pure [("aggregateErrors", .list forms), (name, .list items)]
          else pure (if name = "raw" then [] else [(name, .list items)])
        | v => pure (if name = "raw" then [] else [(name, v)])
    return own ++ (← errorFormFields style taken rest)
termination_by structural fields => fields

/-- The items of a list, each as it would stand under `err`. -/
def errorFormItems (style : CauseStyle) : List Value → Except LogFault (List Value)
  | [] => .ok []
  | v :: rest => do
    let form ← errorForm style v
    return form :: (← errorFormItems style rest)
termination_by structural items => items

end

end Value
end StorageKit
