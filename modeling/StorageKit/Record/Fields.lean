/-
Records: named fields in a fixed order.

The order of a record's fields is part of what it says, since texts are written from it.  Fields
whose name is an index (`0`, `7`, `10`, but not `01` or `-1`) come first, in the order of their
numbers; all others follow in order of arrival.  Writing a field that is present keeps its place.

* `Fields.indexOf?` — the number of an index name, up to `4294967294`;
* `Fields.get?`, `Fields.names` — views, shared with all association lists;
* `Fields.set`, `Fields.erase`, `Fields.overlay`, `Fields.ofList` — updates.

Small laws: `get?_set_self`, `get?_set_of_ne`.
-/
import StorageKit.Record.Keyed

namespace StorageKit

/-- The fields of a record, in order. -/
abbrev Fields (α : Type) := Keyed String α

namespace Fields

variable {α : Type}

/-- The number an index name stands for: decimal digits without a leading zero, below
`4294967295`. -/
def indexOf? (name : String) : Option Nat :=
  let ds := name.toList
  let plain := ds.all fun c => '0' ≤ c && c ≤ '9'
  if !plain || ds.isEmpty || (ds.head? = some '0' && 1 < ds.length) || 10 < ds.length then none
  else
    let n := ds.foldl (fun acc c => acc * 10 + (c.toNat - '0'.toNat)) 0
    if n < 4294967295 then some n else none

/-- A new field of the first name goes in front of a field of the second. -/
def precedes (name other : String) : Bool :=
  match indexOf? name, indexOf? other with
  | some n, some m => n < m
  | some _, none => true
  | none, _ => false

def get? (name : String) (r : Fields α) : Option α := Keyed.get? name r

def has (name : String) (r : Fields α) : Bool := Keyed.has name r

def names (r : Fields α) : List String := r.map Prod.fst

/-- Puts a new field at its place. -/
def place (name : String) (value : α) : Fields α → Fields α
  | [] => [(name, value)]
  | (k, v) :: rest =>
    if precedes name k then (name, value) :: (k, v) :: rest else (k, v) :: place name value rest

/-- Writes a field: in place if it is present, else at the place of its name. -/
def set (name : String) (value : α) (r : Fields α) : Fields α :=
  if has name r then Keyed.set name value r else place name value r

def erase (name : String) (r : Fields α) : Fields α := Keyed.erase name r

/-- Writes the fields of the second record, in order, over those of the first. -/
def overlay (r s : Fields α) : Fields α := s.foldl (fun acc f => set f.1 f.2 acc) r

/-- The record that results from writing the fields in order. -/
def ofList (pairs : List (String × α)) : Fields α := overlay [] pairs

theorem get?_place_self {name : String} {r : Fields α} (h : Keyed.get? name r = none) (value : α) :
    Keyed.get? name (place name value r) = some value := by
  induction r with
  | nil => simp [place]
  | cons field rest ih =>
    obtain ⟨k, v⟩ := field
    have hk : k ≠ name := by
      intro hk
      simp [hk] at h
    have hrest : Keyed.get? name rest = none := by simpa [hk] using h
    by_cases hp : precedes name k
    · simp [place, hp]
    · simp [place, hp, hk, ih hrest]

theorem get?_place_of_ne {name other : String} (h : other ≠ name) (value : α) (r : Fields α) :
    Keyed.get? other (place name value r) = Keyed.get? other r := by
  induction r with
  | nil => simp [place, Ne.symm h]
  | cons field rest ih =>
    obtain ⟨k, v⟩ := field
    by_cases hp : precedes name k
    · simp [place, hp, Ne.symm h]
    · by_cases ho : k = other
      · subst ho
        simp [place, hp]
      · simp [place, hp, ho, ih]

@[simp] theorem get?_set_self (name : String) (value : α) (r : Fields α) :
    get? name (set name value r) = some value := by
  unfold get? set has Keyed.has
  by_cases h : (Keyed.get? name r).isSome
  · simp [h]
  · have hn : Keyed.get? name r = none := by simpa using h
    simp [hn, get?_place_self hn]

theorem get?_set_of_ne {name other : String} (h : other ≠ name) (value : α) (r : Fields α) :
    get? other (set name value r) = get? other r := by
  unfold get? set
  split
  · exact Keyed.get?_set_of_ne h value r
  · exact get?_place_of_ne h value r

end Fields
end StorageKit
