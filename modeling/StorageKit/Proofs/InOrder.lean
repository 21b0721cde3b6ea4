/-
The entries of a balanced tree.

Mending and refilling move parts of a tree around, but keep the order of its entries.  So a tree can
be thought of as the list of its entries:

* `entries_mendLeft`, `entries_mendRight`, `entries_refillLeft`, `entries_refillRight` — the entries
  of a node are those of its left part, its own, and those of its right part, whatever was done to
  the shape;
* `entries_insert` — **a new entry is put after the entries that it compares as greater than**;
* `entries_delete` — **an entry that is found is taken out, and nothing else changes**.

Design notes: the colors play no part here.  It is not asked that the tree is in order as a whole,
only that one way down sees it in order: the entries on its right side compare as greater, those on
its left side do not.
-/
import StorageKit.Pool.Balanced
import Mathlib.Data.List.Basic

namespace StorageKit
namespace Balanced

variable {E : Type} {compare : E → E → Ordering}

@[simp] theorem entries_leaf : (leaf : Balanced E).entries = [] := rfl

@[simp] theorem entries_node (hue : Hue) (l : Balanced E) (e : E) (r : Balanced E) :
    (node hue l e r).entries = l.entries ++ e :: r.entries := rfl

@[simp] theorem entries_blacken (t : Balanced E) : t.blacken.entries = t.entries := by
  cases t <;> rfl

/-! ### Insertion -/

@[simp] theorem entries_mendLeft (hue : Hue) (l : Balanced E) (e : E) (r : Balanced E) :
    (mendLeft hue l e r).entries = l.entries ++ e :: r.entries := by
  unfold mendLeft
  split
  · split <;> simp
  · split <;> simp
  · rfl

@[simp] theorem entries_mendRight (hue : Hue) (l : Balanced E) (e : E) (r : Balanced E) :
    (mendRight hue l e r).entries = l.entries ++ e :: r.entries := by
  unfold mendRight
  split
  · split <;> simp
  · split <;> simp
  · rfl

/-- An entry of a node that is on the left side of a cut, with all that is left of it. -/
theorem exists_of_append_cons {l r before after : List E} {e : E}
    (h : l ++ e :: r = before ++ after) (he : e ∉ after) :
    ∃ rest, before = l ++ e :: rest ∧ r = rest ++ after := by
  obtain ⟨rest, rfl, hr⟩ | ⟨rest, -, rfl⟩ := List.append_eq_append_iff.mp h
  · cases rest with
    | nil => exact absurd (hr ▸ List.mem_cons_self : e ∈ [] ++ after) he
    | cons x rest =>
      obtain ⟨rfl, rfl⟩ := List.cons.inj hr
      exact ⟨rest, rfl, rfl⟩
  · exact absurd (List.mem_append_right _ List.mem_cons_self) he

/-- An entry of a node that is on the right side of a cut, with all that is right of it. -/
theorem exists_of_cons_append {l r before after : List E} {e : E}
    (h : l ++ e :: r = before ++ after) (he : e ∉ before) :
    ∃ rest, l = before ++ rest ∧ after = rest ++ e :: r := by
  obtain ⟨rest, rfl, hr⟩ | ⟨rest, rfl, rfl⟩ := List.append_eq_append_iff.mp h
  · cases rest with
    | nil => exact ⟨[], by simp, hr.symm⟩
    | cons x rest =>
      obtain ⟨rfl, -⟩ := List.cons.inj hr
      exact absurd (List.mem_append_right _ List.mem_cons_self) he
  · exact ⟨rest, rfl, rfl⟩

theorem entries_grow {new : E} {t : Balanced E} {before after : List E}
    (ht : t.entries = before ++ after) (hbefore : ∀ e ∈ before, compare new e = .gt)
    (hafter : ∀ e ∈ after, compare new e ≠ .gt) :
    (grow compare new t).entries = before ++ new :: after := by
  induction t generalizing before after with
  | leaf =>
    obtain ⟨rfl, rfl⟩ := List.append_eq_nil_iff.mp ht.symm
    rfl
  | node hue l e r ihl ihr =>
    rw [grow]
    split
    · next hgt =>
      obtain ⟨rest, rfl, hr⟩ := exists_of_append_cons ht fun he => hafter e he hgt
      have hrest : ∀ x ∈ rest, compare new x = .gt := fun x hx =>
        hbefore x (List.mem_append_right _ (List.mem_cons_of_mem _ hx))
      rw [entries_mendRight, ihr hr hrest hafter, List.append_assoc, List.cons_append]
    · next hgt =>
      obtain ⟨rest, hl, rfl⟩ := exists_of_cons_append ht fun he => hgt (hbefore e he)
      have hrest : ∀ x ∈ rest, compare new x ≠ .gt := fun x hx =>
        hafter x (List.mem_append_left _ hx)
      rw [entries_mendLeft, ihl hl hbefore hrest, List.append_assoc, List.cons_append]

/-- **A new entry is put at the cut that it makes in the entries.** -/
theorem entries_insert {new : E} {t : Balanced E} {before after : List E}
    (ht : t.entries = before ++ after) (hbefore : ∀ e ∈ before, compare new e = .gt)
    (hafter : ∀ e ∈ after, compare new e ≠ .gt) :
    (t.insert compare new).entries = before ++ new :: after := by
  rw [insert, entries_blacken, entries_grow ht hbefore hafter]

/-! ### Deletion -/

@[simp] theorem entries_refillLeft (hue : Hue) (l : Balanced E) (e : E) (r : Balanced E) :
    (refillLeft hue l e r).tree.entries = l.entries ++ e :: r.entries := by
  fun_induction refillLeft hue l e r with
  | case5 hue rl x rr lower ih =>
    show lower.tree.entries ++ x :: rr.entries = _
    rw [ih, List.append_assoc]
    rfl
  | _ => simp

@[simp] theorem entries_refillRight (hue : Hue) (l : Balanced E) (e : E) (r : Balanced E) :
    (refillRight hue e r l).tree.entries = l.entries ++ e :: r.entries := by
  fun_induction refillRight hue e r l with
  | case5 hue ll x lr lower ih =>
    show ll.entries ++ x :: lower.tree.entries = _
    rw [ih, entries_node, List.append_assoc]
    rfl
  | _ => simp

@[simp] theorem entries_afterLeft (hue : Hue) (l : Shrunk E) (e : E) (r : Balanced E) :
    (afterLeft hue l e r).tree.entries = l.tree.entries ++ e :: r.entries := by
  unfold afterLeft
  split <;> simp

@[simp] theorem entries_afterRight (hue : Hue) (l : Balanced E) (e : E) (r : Shrunk E) :
    (afterRight hue l e r).tree.entries = l.entries ++ e :: r.tree.entries := by
  unfold afterRight
  split <;> simp

@[simp] theorem entries_close (hue : Hue) (part : Balanced E) :
    (close hue part).tree.entries = part.entries := by
  unfold close
  split <;> simp

theorem entries_takeLast (hue : Hue) (l : Balanced E) (e : E) (r : Balanced E) :
    (takeLast hue l e r).2.tree.entries ++ [(takeLast hue l e r).1] =
      l.entries ++ e :: r.entries := by
  induction r generalizing hue l e with
  | leaf => simp [takeLast]
  | node below rl x rr _ ih =>
    simp only [takeLast, entries_afterRight, List.append_assoc, List.cons_append]
    rw [ih, entries_node]

@[simp] theorem entries_removeRoot (hue : Hue) (l r : Balanced E) :
    (removeRoot hue l r).tree.entries = l.entries ++ r.entries := by
  unfold removeRoot
  split
  · next below ll x lr _ _ _ _ =>
    -- the last entry of the left part takes the place of the one that is gone
    rw [entries_afterLeft, ← List.singleton_append, ← List.append_assoc, entries_takeLast]
    rfl
  · simp
  · simp

theorem entries_shrink {old e : E} {t : Balanced E} {before after : List E}
    (ht : t.entries = before ++ e :: after) (hbefore : ∀ x ∈ before, compare old x = .gt)
    (he : compare old e = .eq) (hafter : ∀ x ∈ after, compare old x = .lt) :
    (shrink compare old t).tree.entries = before ++ after := by
  induction t generalizing before after with
  | leaf => simp at ht
  | node hue l x r ihl ihr =>
    rw [shrink]
    split
    · next heq =>
      have hx : x ∉ before := fun hx => by simp [hbefore x hx] at heq
      obtain ⟨rest, hl, hrest⟩ := exists_of_cons_append ht hx
      cases rest with
      | nil =>
        obtain ⟨-, rfl⟩ := List.cons.inj hrest
        rw [entries_removeRoot, hl, List.append_nil]
      | cons y rest =>
        obtain ⟨-, rfl⟩ := List.cons.inj hrest
        have := hafter x (List.mem_append_right _ List.mem_cons_self)
        simp [this] at heq
    · next hlt =>
      have hx : x ∉ before ++ [e] := fun hx => by
        rcases List.mem_append.mp hx with hx | hx
        · simp [hbefore x hx] at hlt
        · simp [List.mem_singleton.mp hx, he] at hlt
      rw [List.append_cons] at ht
      obtain ⟨rest, hl, rfl⟩ := exists_of_cons_append ht hx
      rw [List.append_assoc, List.singleton_append] at hl
      rw [entries_afterLeft, ihl hl hbefore fun y hy => hafter y (List.mem_append_left _ hy),
        List.append_assoc]
    · next hgt =>
      have hx : x ∉ e :: after := fun hx => by
        rcases List.mem_cons.mp hx with rfl | hx
        · simp [he] at hgt
        · simp [hafter x hx] at hgt
      obtain ⟨rest, rfl, hr⟩ := exists_of_append_cons ht hx
      have hrest : ∀ y ∈ rest, compare old y = .gt := fun y hy =>
        hbefore y (List.mem_append_right _ (List.mem_cons_of_mem _ hy))
      rw [entries_afterRight, ihr hr hrest hafter, List.append_assoc, List.cons_append]

/-- **An entry that compares as equal is taken out, and nothing else changes.** -/
theorem entries_delete {old e : E} {t : Balanced E} {before after : List E}
    (ht : t.entries = before ++ e :: after) (hbefore : ∀ x ∈ before, compare old x = .gt)
    (he : compare old e = .eq) (hafter : ∀ x ∈ after, compare old x = .lt) :
    (t.delete compare old).entries = before ++ after :=
  entries_shrink ht hbefore he hafter

end Balanced
end StorageKit
