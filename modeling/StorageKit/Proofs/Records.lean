/-
Records, further laws.

What is read of a record after its fields were written, one or many:

* `Fields.get?_set`, `Fields.get?_overlay` — the last field with a name counts;
* `Fields.get?_reverse` — with distinct names it does not matter where the search begins;
* `Fields.get?_filter_name`, `Fields.get?_filter_value`, `Fields.get?_map`, `Fields.get?_filterMap`
  — fields dropped by name or by value, values changed, or both;
* `Fields.get?_ofList_of_nodup` — writing fields with distinct names in order;
* `Fields.nodup_names_set`, `Fields.nodup_names_overlay` — writing keeps names distinct;
* `Fields.mem_overlay` — writing makes no fields of its own.
-/
import StorageKit.Record.Fields
import StorageKit.Proofs.Keyed

namespace StorageKit
namespace Fields

variable {α : Type}

theorem mem_names {name : String} {r : Fields α} : name ∈ names r ↔ (get? name r).isSome = true :=
  Keyed.mem_keys

theorem get?_eq_none_iff {name : String} {r : Fields α} : get? name r = none ↔ name ∉ names r := by
  rw [mem_names, Bool.not_eq_true, Option.isSome_eq_false_iff, Option.isNone_iff_eq_none]

theorem get?_set (name : String) (value : α) (r : Fields α) (other : String) :
    get? other (set name value r) = if other = name then some value else get? other r := by
  by_cases h : other = name
  · rw [if_pos h, h, get?_set_self]
  · rw [if_neg h, get?_set_of_ne h]

theorem get?_append (name : String) (r s : Fields α) :
    get? name (r ++ s) = (get? name r).or (get? name s) := by
  induction r with
  | nil => rfl
  | cons field rest ih =>
    obtain ⟨k, v⟩ := field
    show (if k = name then _ else get? name (rest ++ s)) = Option.or (if k = name then _ else _) _
    by_cases h : k = name
    · rw [if_pos h, if_pos h, Option.some_or]
    · rw [if_neg h, if_neg h, ih]
      rfl

/-- A record over which fields are written answers with the last field of a name, and with its own
if there is none. -/
theorem get?_overlay (r s : Fields α) (name : String) :
    get? name (overlay r s) = (get? name s.reverse).or (get? name r) := by
  induction s generalizing r with
  | nil => rfl
  | cons field rest ih =>
    obtain ⟨k, v⟩ := field
    rw [List.reverse_cons, get?_append, Option.or_assoc]
    show get? name (overlay (set k v r) rest) = _
    rw [ih, get?_set]
    congr 1
    show (if name = k then _ else _) = Option.or (if k = name then _ else none) _
    by_cases h : name = k
    · rw [if_pos h, if_pos h.symm, Option.some_or]
    · rw [if_neg h, if_neg (Ne.symm h), Option.none_or]

/-- With distinct names the first field of a name is the last one. -/
theorem get?_reverse {r : Fields α} (h : (names r).Nodup) (name : String) :
    get? name r.reverse = get? name r := by
  induction r with
  | nil => rfl
  | cons field rest ih =>
    obtain ⟨k, v⟩ := field
    obtain ⟨hk, hrest⟩ := List.nodup_cons.mp h
    rw [List.reverse_cons, get?_append, ih hrest]
    show Option.or _ (if k = name then _ else none) = if k = name then _ else _
    by_cases hname : k = name
    · rw [if_pos hname, if_pos hname, ← hname, get?_eq_none_iff.mpr hk, Option.none_or]
    · rw [if_neg hname, if_neg hname, Option.or_none]
      rfl

theorem get?_filter_name (keep : String → Bool) (r : Fields α) (name : String) :
    get? name (r.filter fun field => keep field.1) = if keep name then get? name r else none := by
  induction r with
  | nil => exact (ite_self none).symm
  | cons field rest ih =>
    obtain ⟨k, v⟩ := field
    rw [List.filter_cons]
    show _ = if keep name then (if k = name then some v else get? name rest) else none
    by_cases hname : k = name
    · subst hname
      cases hkeep : keep k with
      | true => simp [get?]
      | false => simpa [hkeep] using ih
    · rw [if_neg hname, ← ih]
      split
      · exact if_neg hname
      · rfl

theorem get?_map {β : Type} (f : α → β) (r : Fields α) (name : String) :
    get? name (r.map fun field => (field.1, f field.2)) = (get? name r).map f := by
  induction r with
  | nil => rfl
  | cons field rest ih =>
    obtain ⟨k, v⟩ := field
    show (if k = name then some (f v) else _) = Option.map f (if k = name then some v else _)
    split
    · rfl
    · exact ih

theorem names_map {β : Type} (f : α → β) (r : Fields α) :
    names (r.map fun field => (field.1, f field.2)) = names r := by
  rw [names, names, List.map_map]
  rfl

theorem erase_eq_self {name : String} {r : Fields α} (h : get? name r = none) :
    erase name r = r := by
  refine List.filter_eq_self.mpr fun field hfield => decide_eq_true fun hname => ?_
  exact get?_eq_none_iff.mp h (hname ▸ List.mem_map_of_mem hfield)

/-- Fields that are changed, or dropped if nothing comes of their value, keep their names. -/
theorem names_filterMap_sublist {β : Type} (f : α → Option β) (r : Fields α) :
    (names (r.filterMap fun field => (f field.2).map fun v => (field.1, v))).Sublist (names r) := by
  induction r with
  | nil => exact List.Sublist.refl []
  | cons field rest ih =>
    rw [List.filterMap_cons]
    cases f field.2 with
    | none => exact ih.cons field.1
    | some v => exact ih.cons_cons field.1

/-! ### Distinct names -/

theorem nodup_names_filter (keep : String × α → Bool) {r : Fields α} (h : (names r).Nodup) :
    (names (r.filter keep)).Nodup :=
  h.sublist (List.filter_sublist.map Prod.fst)

theorem names_place_perm (name : String) (value : α) (r : Fields α) :
    (names (place name value r)).Perm (name :: names r) := by
  induction r with
  | nil => exact List.Perm.refl _
  | cons field rest ih =>
    obtain ⟨k, v⟩ := field
    rw [place]
    split
    · exact List.Perm.refl _
    · exact (ih.cons k).trans (List.Perm.swap name k _)

theorem nodup_names_set (name : String) (value : α) {r : Fields α} (h : (names r).Nodup) :
    (names (set name value r)).Nodup := by
  rw [set]
  split
  · exact Keyed.nodup_keys_set name value h
  · next hnew =>
    -- the name is new, wherever its field is put
    rw [(names_place_perm name value r).nodup_iff, List.nodup_cons, mem_names]
    exact ⟨hnew, h⟩

theorem nodup_names_overlay {r : Fields α} (h : (names r).Nodup) (s : Fields α) :
    (names (overlay r s)).Nodup := by
  induction s generalizing r with
  | nil => exact h
  | cons field rest ih => exact ih (nodup_names_set field.1 field.2 h)

theorem nodup_names_ofList (r : Fields α) : (names (ofList r)).Nodup :=
  nodup_names_overlay (r := []) List.nodup_nil r

theorem get?_filter_value (keep : α → Bool) {r : Fields α} (h : (names r).Nodup) (name : String) :
    get? name (r.filter fun field => keep field.2) = (get? name r).filter keep := by
  induction r with
  | nil => rfl
  | cons field rest ih =>
    obtain ⟨k, v⟩ := field
    obtain ⟨hk, hrest⟩ := List.nodup_cons.mp h
    rw [List.filter_cons]
    show _ = Option.filter keep (if k = name then some v else get? name rest)
    by_cases hname : k = name
    · subst hname
      cases hkeep : keep v with
      | true => simp [get?, Option.filter, hkeep]
      | false => simp [Option.filter, hkeep, ih hrest, get?_eq_none_iff.mpr hk]
    · rw [if_neg hname, ← ih hrest]
      split
      · exact if_neg hname
      · rfl

theorem get?_filterMap {β : Type} (f : α → Option β) {r : Fields α} (h : (names r).Nodup)
    (name : String) :
    get? name (r.filterMap fun field => (f field.2).map fun v => (field.1, v)) =
      (get? name r).bind f := by
  induction r with
  | nil => rfl
  | cons field rest ih =>
    obtain ⟨k, v⟩ := field
    obtain ⟨hk, hrest⟩ := List.nodup_cons.mp h
    rw [List.filterMap_cons]
    show _ = Option.bind (if k = name then some v else get? name rest) f
    cases hf : f v with
    | none =>
      show get? name (rest.filterMap _) = _
      rw [ih hrest]
      by_cases hname : k = name
      · rw [if_pos hname, ← hname, get?_eq_none_iff.mpr hk]
        exact hf.symm
      · rw [if_neg hname]
    | some w =>
      show (if k = name then some w else get? name (rest.filterMap _)) = _
      by_cases hname : k = name
      · rw [if_pos hname, if_pos hname]
        exact hf.symm
      · rw [if_neg hname, if_neg hname, ih hrest]

theorem get?_ofList_of_nodup {r : Fields α} (h : (names r).Nodup) (name : String) :
    get? name (ofList r) = get? name r := by
  rw [ofList, get?_overlay, get?_reverse h]
  exact Option.or_none

/-! ### Fields and look-ups -/

theorem mem_of_get? {name : String} {v : α} {r : Fields α} (h : get? name r = some v) :
    (name, v) ∈ r := by
  induction r with
  | nil => cases h
  | cons field rest ih =>
    obtain ⟨k, w⟩ := field
    change (if k = name then some w else get? name rest) = some v at h
    split at h
    · next hk =>
      cases h
      exact hk ▸ List.mem_cons_self
    · exact List.mem_cons_of_mem _ (ih h)

theorem get?_of_mem {r : Fields α} (h : (names r).Nodup) {field : String × α} (hfield : field ∈ r) :
    get? field.1 r = some field.2 := by
  induction r with
  | nil => cases hfield
  | cons first rest ih =>
    obtain ⟨hfirst, hrest⟩ := List.nodup_cons.mp h
    obtain rfl | hmem := List.mem_cons.mp hfield
    · exact if_pos rfl
    · have hne : first.1 ≠ field.1 := by
        intro heq
        exact hfirst (heq ▸ List.mem_map_of_mem hmem)
      exact (if_neg hne).trans (ih hrest hmem)

/-- A record over which fields are written has no others than these and its own. -/
theorem mem_overlay {r s : Fields α} (h : (names r).Nodup) {field : String × α}
    (hfield : field ∈ overlay r s) : field ∈ s ∨ field ∈ r := by
  have hget := get?_of_mem (nodup_names_overlay h s) hfield
  rw [get?_overlay, Option.or_eq_some_iff] at hget
  obtain hnew | ⟨-, hold⟩ := hget
  · exact Or.inl (List.mem_reverse.mp (mem_of_get? hnew))
  · exact Or.inr (mem_of_get? hold)

end Fields
end StorageKit
