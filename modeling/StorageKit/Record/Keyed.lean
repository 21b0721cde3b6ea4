/-
Association lists in order of arrival.

A `Keyed κ α` is a list of pairs in which a key is meant to occur once.  Writing a key that is
present keeps its place; a new key goes to the end; erasing and writing again moves it to the end.

* `Keyed.get?`, `Keyed.has`, `Keyed.keys` — views;
* `Keyed.set`, `Keyed.erase`, `Keyed.adjust` — updates;
* `Keyed.ofList` — later pairs win, at the place of the first pair with their key.

Small laws: `get?_set_self`, `get?_set_of_ne`, `get?_erase_self`, `get?_erase_of_ne`.
-/
namespace StorageKit

/-- Pairs in order of arrival. -/
abbrev Keyed (κ α : Type) := List (κ × α)

namespace Keyed

variable {κ α : Type} [DecidableEq κ]

/-- The value of the first pair with this key. -/
def get? (key : κ) : Keyed κ α → Option α
  | [] => none
  | (k, v) :: rest => if k = key then some v else get? key rest

def has (key : κ) (m : Keyed κ α) : Bool := (get? key m).isSome

def keys (m : Keyed κ α) : List κ := m.map Prod.fst

/-- Writes a key: in place if it is present, else at the end. -/
def set (key : κ) (value : α) : Keyed κ α → Keyed κ α
  | [] => [(key, value)]
  | (k, v) :: rest => if k = key then (key, value) :: rest else (k, v) :: set key value rest

/-- Drops every pair with this key. -/
def erase (key : κ) (m : Keyed κ α) : Keyed κ α := m.filter fun pair => pair.1 ≠ key

/-- Changes the value of a key that is present. -/
def adjust (key : κ) (f : α → α) : Keyed κ α → Keyed κ α
  | [] => []
  | (k, v) :: rest => if k = key then (k, f v) :: rest else (k, v) :: adjust key f rest

/-- Writes the pairs one after another. -/
def ofList (pairs : List (κ × α)) : Keyed κ α :=
  pairs.foldl (fun m pair => set pair.1 pair.2 m) []

@[simp] theorem get?_nil (key : κ) : get? key ([] : Keyed κ α) = none := rfl

@[simp] theorem get?_cons (key k : κ) (v : α) (m : Keyed κ α) :
    get? key ((k, v) :: m) = if k = key then some v else get? key m := rfl

@[simp] theorem get?_set_self (key : κ) (value : α) (m : Keyed κ α) :
    get? key (set key value m) = some value := by
  induction m with
  | nil => simp [set]
  | cons pair rest ih =>
    obtain ⟨k, v⟩ := pair
    by_cases h : k = key <;> simp [set, h, ih]

theorem get?_set_of_ne {key other : κ} (h : other ≠ key) (value : α) (m : Keyed κ α) :
    get? other (set key value m) = get? other m := by
  induction m with
  | nil => simp [set, Ne.symm h]
  | cons pair rest ih =>
    obtain ⟨k, v⟩ := pair
    by_cases hk : k = key
    · subst hk
      simp [set, Ne.symm h]
    · by_cases ho : k = other
      · subst ho
        simp [set, hk]
      · simp [set, hk, ho, ih]

@[simp] theorem get?_erase_self (key : κ) (m : Keyed κ α) : get? key (erase key m) = none := by
  induction m with
  | nil => rfl
  | cons pair rest ih =>
    obtain ⟨k, v⟩ := pair
    by_cases h : k = key
    · simpa [erase, h] using ih
    · simpa [erase, h] using ih

theorem get?_erase_of_ne {key other : κ} (h : other ≠ key) (m : Keyed κ α) :
    get? other (erase key m) = get? other m := by
  induction m with
  | nil => rfl
  | cons pair rest ih =>
    obtain ⟨k, v⟩ := pair
    by_cases hk : k = key
    · subst hk
      simpa [erase, Ne.symm h] using ih
    · by_cases ho : k = other
      · simp [erase, ho, h]
      · simpa [erase, hk, ho] using ih

end Keyed
end StorageKit
