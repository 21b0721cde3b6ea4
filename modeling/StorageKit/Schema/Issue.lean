/-
What is wrong with a value, and where.

* `Complaint` — one thing that is wrong, `Complaint.message` its wording;
* `Issue` — a complaint about the part of a value at a path;
* `Issue.pathText` — names joined by points, indices in brackets, and names with a character
  outside letters, digits, `_` and `$` quoted in brackets;
* `Issue.report` — all issues of a value as text, shorter paths first.
-/
import StorageKit.Json.Quoted

namespace StorageKit

/-- One thing that is wrong with a value. -/
inductive Complaint where
  | expected (what received : String)
  | tooSmall (kind bound : String)
  | tooBig (kind bound : String)
  | noneOf (options : List String)
  | unrecognized (keys : List String)
  | nothingFits
  deriving DecidableEq, Repr

namespace Complaint

/-- A text between quotes, as it is. -/
def quoted (s : String) : String := "\"" ++ s ++ "\""

def message : Complaint → String
  | .expected what received => "Invalid input: expected " ++ what ++ ", received " ++ received
  | .tooSmall kind bound => "Too small: expected " ++ kind ++ " to be " ++ bound
  | .tooBig kind bound => "Too big: expected " ++ kind ++ " to be " ++ bound
  | .noneOf options =>
    "Invalid option: expected one of " ++ String.intercalate "|" (options.map quoted)
  | .unrecognized keys =>
    (if keys.length = 1 then "Unrecognized key: " else "Unrecognized keys: ")
      ++ String.intercalate ", " (keys.map quoted)
  | .nothingFits => "Invalid input"

end Complaint

/-- A step from a value to one of its parts. -/
inductive Step where
  | key (name : String)
  | index (i : Nat)
  deriving DecidableEq, Repr

/-- A complaint about the part of a value at a path. -/
structure Issue where
  path : List Step
  complaint : Complaint
  deriving DecidableEq, Repr

namespace Issue

/-- The issue seen from the value around: its path starts with one more step. -/
def under (step : Step) (i : Issue) : Issue := { i with path := step :: i.path }

/-- A letter, a digit, `_` or `$`. -/
def isPlain (c : Char) : Bool := c.isAlphanum || c = '_' || c = '$'

/-- The text of a step; a plain name that is not the first step follows a point. -/
def stepText (first : Bool) : Step → String
  | .index i => "[" ++ toString i ++ "]"
  | .key name =>
    if name.toList.all isPlain then (if first then "" else ".") ++ name
    else "[" ++ String.ofList (Quoted.encode name) ++ "]"

/-- The text of a path. -/
def pathText : List Step → String
  | [] => ""
  | step :: rest => stepText true step ++ String.join (rest.map (stepText false))

/-- An issue in one line, or in two if it is about a part. -/
def text (i : Issue) : String :=
  "✖ " ++ i.complaint.message
    ++ (if i.path.isEmpty then "" else "\n  → at " ++ pathText i.path)

/-- All issues of a value: shorter paths first, otherwise in the order they were found. -/
def report (issues : List Issue) : String :=
  let sorted := issues.mergeSort fun a b => a.path.length ≤ b.path.length
  String.intercalate "\n" (sorted.map text)

end Issue
end StorageKit
