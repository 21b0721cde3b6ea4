/-
Association lists, further laws.

What each update does to look-ups is stated as a change of the whole look-up function, so that a
list can be replaced by its function wherever only look-ups matter:

* `get?_set`, `get?_erase`, `get?_adjust` — the function after an update;
* `mem_keys` — the keys are where the function has a value;
* `nodup_keys_set`, `nodup_keys_erase` — updates leave keys distinct;
* `erase_set_comm` — updates of two different keys commute.
-/
import StorageKit.Record.Keyed
import Mathlib.Logic.Function.Basic

namespace StorageKit
namespace Keyed

variable {κ α : Type} [DecidableEq κ]

theorem get?_set (key : κ) (value : α) (m : Keyed κ α) :
    (fun k => get? k (set key value m)) = Function.update (fun k => get? k m) key (some value) := by
  funext k
  by_cases h : k = key
  · subst h
    rw [Function.update_self, get?_set_self]
  · rw [Function.update_of_ne h, get?_set_of_ne h]

theorem get?_erase (key : κ) (m : Keyed κ α) :
    (fun k => get? k (erase key m)) = Function.update (fun k => get? k m) key none := by
  funext k
  by_cases h : k = key
  · subst h
    rw [Function.update_self, get?_erase_self]
  · rw [Function.update_of_ne h, get?_erase_of_ne h]

theorem get?_adjust_self (key : κ) (f : α → α) (m : Keyed κ α) :
    get? key (adjust key f m) = (get? key m).map f := by
  induction m with
  | nil => rfl
  | cons pair rest ih =>
    obtain ⟨k, v⟩ := pair
    by_cases h : k = key
    · simp [adjust, h]
    · simp [adjust, h, ih]

theorem get?_adjust_of_ne {key other : κ} (h : other ≠ key) (f : α → α) (m : Keyed κ α) :
    get? other (adjust key f m) = get? other m := by
  induction m with
  | nil => rfl
  | cons pair rest ih =>
    obtain ⟨k, v⟩ := pair
    by_cases hk : k = key
    · subst hk
      simp [adjust, Ne.symm h]
    · simp [adjust, hk, ih]

theorem get?_adjust (key : κ) (f : α → α) (m : Keyed κ α) :
    (fun k => get? k (adjust key f m)) =
      Function.update (fun k => get? k m) key ((get? key m).map f) := by
  funext k
  by_cases h : k = key
  · subst h
    rw [Function.update_self, get?_adjust_self]
  · rw [Function.update_of_ne h, get?_adjust_of_ne h]

theorem mem_keys {key : κ} {m : Keyed κ α} : key ∈ keys m ↔ (get? key m).isSome = true := by
  induction m with
  | nil => simp [keys]
  | cons pair rest ih =>
    obtain ⟨k, v⟩ := pair
    rw [keys] at ih ⊢
    by_cases h : k = key
    · simp [h]
    · simp [h, Ne.symm h, ih]

theorem nodup_keys_erase (key : κ) {m : Keyed κ α} (h : (keys m).Nodup) :
    (keys (erase key m)).Nodup :=
  h.sublist (List.filter_sublist.map Prod.fst)

/-- A key that is written again keeps its place, and a new key was not there before. -/
theorem nodup_keys_set (key : κ) (value : α) {m : Keyed κ α} (h : (keys m).Nodup) :
    (keys (set key value m)).Nodup := by
  induction m with
  | nil => exact List.pairwise_singleton _ key
  | cons pair rest ih =>
    obtain ⟨k, v⟩ := pair
    obtain ⟨hk, hrest⟩ := List.nodup_cons.mp h
    by_cases heq : k = key
    · rw [set, if_pos heq, ← heq]
      exact h
    · rw [set, if_neg heq]
      refine List.nodup_cons.mpr ⟨fun hmem => hk ?_, ih hrest⟩
      have hsome := mem_keys.mp hmem
      rw [get?_set_of_ne heq] at hsome
      exact mem_keys.mpr hsome

theorem erase_set_comm {key other : κ} (h : other ≠ key) (value : α) (m : Keyed κ α) :
    erase other (set key value m) = set key value (erase other m) := by
  induction m with
  | nil => simp [erase, set, Ne.symm h]
  | cons pair rest ih =>
    obtain ⟨k, v⟩ := pair
    rw [erase] at ih ⊢
    by_cases hk : k = key
    · subst hk
      simp [erase, set, Ne.symm h]
    · by_cases ho : k = other
      · subst ho
        simpa [erase, set, hk] using ih
      · simpa [erase, set, hk, ho] using ih

end Keyed
end StorageKit
