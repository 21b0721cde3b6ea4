/-
The place behind a record.

What is written at `Members.parent` chooses where a record finds what was not written into it, until
a value is written after which it no longer does.

* `Place.ends` — what is written at `Members.parent` after such a value is a field;
* `Place.split` — the values that choose, up to the first such value, and those that come too late;
* `Place.after` — the place chosen last;
* `Place.mem_of_after` — a place that is an object was one of the values;
* `Layered.get?_write_of_ne`, `Layered.get?_write` — writing under a name leaves the other names,
  and is found again under any name but that one;
* **`Layered.Wrote.write`** — a record in which values were written at `Members.parent` has the
  place that these values choose, and as a field the last that came too late.

Design notes: whether there is still something to choose is told by the record, not by the values
that were written.  `isMovable_of_wrote` relates the two.
-/
import StorageKit.Proofs.Records
import StorageKit.Value.Property

namespace StorageKit

namespace Place

/-- What is written at `Members.parent` after this value is a field. -/
def ends (v : Value) : Bool :=
  match of? v with
  | some place => !place.gives
  | none => false

/-- The values up to the first that ends the choice, and those after it. -/
def split : List Value → List Value × List Value
  | [] => ([], [])
  | v :: rest => if ends v then ([v], rest) else (v :: (split rest).1, (split rest).2)

/-- The place of a record after some values were written at `Members.parent`: the last that one of
them chose. -/
def after (written : List Value) : Place :=
  ((split written).1.filterMap of?).getLast?.getD .members

theorem split_eq_self {written : List Value} (h : written.any ends = false) :
    split written = (written, []) := by
  induction written with
  | nil => rfl
  | cons v rest ih =>
    obtain ⟨hv, hrest⟩ := Bool.or_eq_false_iff.mp h
    rw [split, hv, ih hrest]
    rfl

/-- The last value that chooses is the one that ends the choice. -/
theorem exists_end {written : List Value} (h : written.any ends = true) :
    ∃ before v, (split written).1 = before ++ [v] ∧ ends v = true := by
  induction written with
  | nil => exact nomatch h
  | cons v rest ih =>
    cases hv : ends v with
    | true => exact ⟨[], v, by rw [split, hv]; rfl, hv⟩
    | false =>
      rw [List.any_cons, hv, Bool.false_or] at h
      obtain ⟨before, w, hsplit, hw⟩ := ih h
      exact ⟨v :: before, w, by rw [split, hv, hsplit]; rfl, hw⟩

/-- The values that choose are some of those that were written. -/
theorem mem_of_mem_split {written : List Value} {v : Value} (h : v ∈ (split written).1) :
    v ∈ written := by
  induction written with
  | nil => exact h
  | cons w rest ih =>
    rw [split] at h
    cases hw : ends w with
    | true =>
      rw [hw] at h
      exact List.mem_singleton.mp h ▸ List.mem_cons_self
    | false =>
      rw [hw] at h
      exact List.mem_cons.mpr ((List.mem_cons.mp h).imp_right ih)

/-- Objects and operations choose themselves as the place. -/
theorem eq_of_of? {v w : Value} (h : of? w = some (.object v)) :
    w = v ∧ (v.isObject = true ∨ ∃ name, v = .method name) := by
  rw [of?.eq_def] at h
  split at h
  · cases h
  · cases h
    exact ⟨rfl, Or.inr ⟨_, rfl⟩⟩
  · split at h
    · next hobject =>
      cases h
      exact ⟨rfl, Or.inl hobject⟩
    · cases h

/-- An object that is the place is one of the values. -/
theorem mem_of_after {written : List Value} {v : Value} (h : after written = .object v) :
    v ∈ written ∧ (v.isObject = true ∨ ∃ name, v = .method name) := by
  rw [after] at h
  cases hlast : ((split written).1.filterMap of?).getLast? with
  | none =>
    rw [hlast] at h
    cases h
  | some place =>
    rw [hlast] at h
    obtain rfl : place = .object v := h
    obtain ⟨w, hw, hof⟩ := List.mem_filterMap.mp (List.mem_of_getLast? hlast)
    obtain ⟨rfl, hkind⟩ := eq_of_of? hof
    exact ⟨mem_of_mem_split hw, hkind⟩

theorem split_concat (written : List Value) (v : Value) :
    split (written ++ [v]) =
      if written.any ends then ((split written).1, (split written).2 ++ [v])
      else (written ++ [v], []) := by
  induction written with
  | nil => cases h : ends v <;> simp [split, h]
  | cons w rest ih =>
    rw [List.cons_append, split, split, ih, List.any_cons]
    cases ends w with
    | true => rfl
    | false => cases rest.any ends <;> rfl

/-- A further value makes no difference once the choice has ended. -/
theorem after_concat (written : List Value) (v : Value) :
    after (written ++ [v]) =
      if written.any ends then after written else (of? v).getD (after written) := by
  rw [after, split_concat]
  cases h : written.any ends with
  | true => rfl
  | false =>
    rw [after, split_eq_self h]
    cases hv : of? v <;> simp [hv]

/-- Something can be chosen as long as no value has ended the choice. -/
theorem gives_after (written : List Value) : (after written).gives = !written.any ends := by
  cases h : written.any ends with
  | true =>
    obtain ⟨before, v, hsplit, hv⟩ := exists_end h
    rw [ends] at hv
    cases hof : of? v with
    | none =>
      rw [hof] at hv
      cases hv
    | some place =>
      rw [hof] at hv
      rw [after, hsplit, List.filterMap_append]
      simpa [hof] using hv
  | false =>
    rw [after, split_eq_self h]
    cases hlast : (written.filterMap of?).getLast? with
    | none => rfl
    | some place =>
      obtain ⟨v, hv, hof⟩ := List.mem_filterMap.mp (List.mem_of_getLast? hlast)
      have hgoes : ends v = false := by
        rw [← Bool.not_eq_true]
        exact fun hends => Bool.false_ne_true (h ▸ List.any_eq_true.mpr ⟨v, hv, hends⟩)
      rw [ends, hof] at hgoes
      simpa using hgoes

end Place

namespace Layered

variable {r : Layered} {written : List Value}

theorem get?_write_of_ne {name other : String} (h : other ≠ name) (v : Value) (r : Layered) :
    Fields.get? other (r.write name v).fields = Fields.get? other r.fields := by
  rw [write]
  split
  · rfl
  · exact Fields.get?_set_of_ne h v r.fields

theorem write_of_ne {name : String} (h : name ≠ Members.parent) (v : Value) (r : Layered) :
    r.write name v = { r with fields := Fields.set name v r.fields } := by
  rw [write, if_neg fun hparent => h hparent.1]

theorem get?_write {name : String} (h : name ≠ Members.parent) (v : Value) (r : Layered) :
    Fields.get? name (r.write name v).fields = some v := by
  rw [write_of_ne h]
  exact Fields.get?_set_self ..

/-- These values were written into a record at `Members.parent`, in this order. -/
structure Wrote (written : List Value) (r : Layered) : Prop where
  place : r.place = Place.after written
  field : Fields.get? Members.parent r.fields = (Place.split written).2.getLast?

theorem wrote_empty : Wrote [] empty := ⟨rfl, rfl⟩

theorem isMovable_of_wrote (h : r.Wrote written) : r.isMovable = !written.any Place.ends := by
  rw [isMovable, h.place, Place.gives_after]
  cases hends : written.any Place.ends with
  | true => exact Bool.and_false _
  | false =>
    have hfield := h.field
    rw [Place.split_eq_self hends] at hfield
    have hnone : Fields.has Members.parent r.fields = false := by
      rw [Fields.has, Keyed.has, show Keyed.get? _ _ = none from hfield]
      rfl
    rw [hnone]
    rfl

theorem Wrote.write_of_ne (h : r.Wrote written) {name : String} (hname : name ≠ Members.parent)
    (v : Value) : (r.write name v).Wrote written := by
  rw [Layered.write_of_ne hname]
  exact ⟨h.place, (Fields.get?_set_of_ne (Ne.symm hname) v r.fields).trans h.field⟩

/-- **A record finds what was not written into it at the place that was chosen last.** -/
theorem Wrote.write (h : r.Wrote written) (v : Value) :
    (r.write Members.parent v).Wrote (written ++ [v]) := by
  have hmovable := isMovable_of_wrote h
  rw [Layered.write]
  cases hends : written.any Place.ends with
  | true =>
    rw [hends] at hmovable
    rw [if_neg (by rw [hmovable]; exact fun hparent => nomatch hparent.2)]
    refine ⟨?_, ?_⟩
    · rw [Place.after_concat, hends]
      exact h.place
    · rw [Place.split_concat, hends, if_pos rfl, List.getLast?_concat]
      exact Fields.get?_set_self ..
  | false =>
    rw [hends] at hmovable
    rw [if_pos ⟨rfl, hmovable⟩]
    refine ⟨?_, ?_⟩
    · rw [Place.after_concat, hends, ← h.place]
      rfl
    · rw [Place.split_concat, hends]
      have hfield := h.field
      rw [Place.split_eq_self hends] at hfield
      exact hfield

end Layered
end StorageKit
