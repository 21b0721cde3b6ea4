/-
Tickets, and a tree in their order.

A searched pool looks for a frame by its ticket.  As long as the tree is in the order of its tickets
and the table has the same tickets, this finds every frame, and the pool is the list of its frames
with their ranks:

* `Search.first_eq` — whom a search asks, and whom it finds;
* `SearchedPool.Shows` — the pool is in order, and shows a list of frames with ranks;
* `Shows.has`, `Shows.size`, `Shows.frames` — then all that it answers is read off this list;
* `Shows.delete` — **a frame that is deleted is gone from the list**;
* `Shows.add` — **a frame that is added stands behind ranks that are not above its own, and before
  ranks above it, if there is such a place**.

Design notes: it is not asked that ranks are in a linear order, only that no two of them are each
below the other.  Where ranks do not compare, such as `nan`, there may be no place for a new one;
this is left to those who add it.
-/
import StorageKit.Pool.Searched
import StorageKit.Proofs.InOrder
import Mathlib.Data.List.Perm.Basic

namespace StorageKit

theorem Search.first_eq {F : Type} (isEvictable : F → Bool) (l : List F) :
    first isEvictable l =
      ⟨l.takeWhile (!isEvictable ·) ++ (l.find? isEvictable).toList, l.find? isEvictable⟩ := by
  induction l with
  | nil => rfl
  | cons f rest ih =>
    rw [first]
    split
    · next h => simp [h]
    · next h => simp [h, ih]

theorem pairwise_insert_middle {α : Type} {related : α → α → Prop} {before after : List α} {x : α}
    (h : (before ++ after).Pairwise related) (hbefore : ∀ y ∈ before, related y x)
    (hafter : ∀ y ∈ after, related x y) : (before ++ x :: after).Pairwise related := by
  obtain ⟨hb, ha, hcross⟩ := List.pairwise_append.mp h
  refine List.pairwise_append.mpr ⟨hb, List.pairwise_cons.mpr ⟨hafter, ha⟩, fun y hy z hz => ?_⟩
  rcases List.mem_cons.mp hz with rfl | hz
  · exact hbefore y hy
  · exact hcross y hy z hz

section

variable {R : Type} [LT R] [DecidableLT R] [Std.Asymm fun r s : R => r < s]

theorem Ticket.order_self (a : Ticket R) : Ticket.order a a = .eq := by
  have h : ¬ a.rank < a.rank := fun h => Std.Asymm.asymm _ _ h h
  rw [Ticket.order, if_neg h, if_neg h]
  exact Nat.compare_eq_eq.mpr rfl

omit [Std.Asymm fun r s : R => r < s] in
/-- A new ticket comes after those whose ranks are not above its own. -/
theorem Ticket.order_of_not_lt {a b : Ticket R} (h : ¬ b.rank < a.rank)
    (hnumber : a.number < b.number) : Ticket.order a b = .lt ∧ Ticket.order b a = .gt := by
  rw [Ticket.order, Ticket.order, if_neg h, if_neg h]
  split
  · exact ⟨rfl, rfl⟩
  · exact ⟨Nat.compare_eq_lt.mpr hnumber, Nat.compare_eq_gt.mpr hnumber⟩

theorem Ticket.order_of_lt {a b : Ticket R} (h : a.rank < b.rank) :
    Ticket.order a b = .lt ∧ Ticket.order b a = .gt := by
  rw [Ticket.order, Ticket.order, if_pos h, if_neg (Std.Asymm.asymm _ _ h), if_pos h]
  exact ⟨rfl, rfl⟩

theorem Ticket.not_lt_of_order {a b : Ticket R} (h : Ticket.order a b = .lt) :
    ¬ b.rank < a.rank := fun hlt => by
  rw [(order_of_lt hlt).2] at h
  exact absurd h (by decide)

end

namespace SearchedPool

/-! ### The table of tickets -/

section

variable {F R : Type} [BEq F] {p : SearchedPool F R} {f : F}

theorem filter_tickets_of_none (h : p.ticket? f = none) :
    p.tickets.filter (fun e => e.1 != f) = p.tickets := by
  have hfind := List.find?_eq_none.mp (Option.map_eq_none_iff.mp h)
  exact List.filter_eq_self.mpr fun e he => by simpa [bne] using hfind e he

theorem exists_mem_of_ticket {ticket : Ticket R} (h : p.ticket? f = some ticket) :
    ∃ g, (g == f) = true ∧ (g, ticket) ∈ p.tickets := by
  obtain ⟨⟨g, t⟩, hfind, rfl⟩ := Option.map_eq_some_iff.mp h
  exact ⟨g, List.find?_some (p := fun e : F × Ticket R => e.1 == f) hfind,
    List.mem_of_find?_eq_some hfind⟩

/-- Without a frame that is there once. -/
theorem filter_once [EquivBEq F] {before after : List (Ticket R × F)} {e : Ticket R × F}
    (honce : (before ++ e :: after).Pairwise fun a b => (a.2 == b.2) = false)
    (he : (e.2 == f) = true) :
    (before ++ e :: after).filter (fun x => x.2 != f) = before ++ after := by
  obtain ⟨-, hcons, hbefore⟩ := List.pairwise_append.mp honce
  obtain ⟨hafter, -⟩ := List.pairwise_cons.mp hcons
  have hkept : ∀ x : Ticket R × F, (x.2 == e.2) = false → (x.2 != f) = true := fun x hx => by
    rw [bne, ← BEq.congr_right he, hx]
    rfl
  rw [List.filter_append, List.filter_cons_of_neg (by simp [bne, he]),
    List.filter_eq_self.mpr fun x hx => hkept x (hbefore x hx e List.mem_cons_self),
    List.filter_eq_self.mpr fun x hx => hkept x (by rw [BEq.comm]; exact hafter x hx)]

variable [LT R] [DecidableLT R]

theorem tickets_delete (p : SearchedPool F R) (f : F) :
    (p.delete f).tickets = p.tickets.filter fun e => e.1 != f := by
  rw [SearchedPool.delete]
  split
  · next hnone => exact (filter_tickets_of_none hnone).symm
  · rfl

theorem next_delete (p : SearchedPool F R) (f : F) : (p.delete f).next = p.next := by
  rw [SearchedPool.delete]
  split <;> rfl

end

/-! ### Pools in order -/

variable {F R : Type} [BEq F] [LT R] [DecidableLT R] {p : SearchedPool F R}
  {entries : List (F × R)} {f : F} {r : R}

/-- The pool is in order, and shows these frames with these ranks: of two entries of the tree the
left one comes first, whichever of them is compared with the other; the table has the tickets that
the tree has, one for each frame; and the next number is above all that were given. -/
structure Shows (p : SearchedPool F R) (entries : List (F × R)) : Prop where
  entries_eq : p.tree.entries.map (fun e => (e.2, e.1.rank)) = entries
  sorted : p.tree.entries.Pairwise fun a b => order a b = .lt ∧ order b a = .gt
  perm : (p.tree.entries.map Prod.swap).Perm p.tickets
  once : p.tickets.Pairwise fun a b => (a.1 == b.1) = false
  fresh : ∀ e ∈ p.tickets, e.2.number < p.next

theorem shows_empty : Shows (empty : SearchedPool F R) [] where
  entries_eq := rfl
  sorted := .nil
  perm := .nil
  once := .nil
  fresh := nofun

namespace Shows

theorem has (h : Shows p entries) (f : F) : p.has f = entries.any fun e => e.1 == f := by
  rw [SearchedPool.has, ← h.perm.any_eq, ← h.entries_eq, List.any_map, List.any_map]
  rfl

theorem size (h : Shows p entries) : p.size = entries.length := by
  rw [SearchedPool.size, ← h.perm.length_eq, ← h.entries_eq, List.length_map, List.length_map]

theorem frames (h : Shows p entries) : p.frames = entries.map Prod.fst := by
  rw [SearchedPool.frames, ← h.entries_eq, List.map_map]
  rfl

/-- No two entries of the tree are of one frame. -/
theorem once_tree [EquivBEq F] (h : Shows p entries) :
    p.tree.entries.Pairwise fun a b => (a.2 == b.2) = false := by
  have hsymm : ∀ {a b : F × Ticket R}, (a.1 == b.1) = false → (b.1 == a.1) = false :=
    fun hab => by rw [BEq.comm]; exact hab
  exact List.pairwise_map.mp ((h.perm.pairwise_iff hsymm).mpr h.once)

variable [Std.Asymm fun r s : R => r < s]

/-- The ranks do not fall. -/
theorem ranks_sorted (h : Shows p entries) : entries.Pairwise fun a b => ¬ b.2 < a.2 := by
  rw [← h.entries_eq]
  exact List.pairwise_map.mpr (h.sorted.imp fun hab => Ticket.not_lt_of_order hab.1)

variable [EquivBEq F]

/-- A frame that is deleted is found in the tree by its ticket. -/
theorem tree_delete (h : Shows p entries) (f : F) :
    (p.delete f).tree.entries = p.tree.entries.filter fun e => e.2 != f := by
  rw [SearchedPool.delete]
  split
  · next hnone =>
    refine (List.filter_eq_self.mpr fun e he => ?_).symm
    have hmem : e.swap ∈ p.tickets := h.perm.mem_iff.mp (List.mem_map_of_mem he)
    rw [← filter_tickets_of_none hnone] at hmem
    exact (List.mem_filter.mp hmem).2
  · next ticket hsome =>
    obtain ⟨g, hg, hmem⟩ := exists_mem_of_ticket hsome
    obtain ⟨e, he, heq⟩ := List.mem_map.mp (h.perm.mem_iff.mpr hmem)
    obtain rfl : e = (ticket, g) := Prod.swap_inj.mp heq
    obtain ⟨before, after, hsplit⟩ := List.append_of_mem he
    have hsorted := h.sorted
    have honce := h.once_tree
    rw [hsplit] at hsorted honce
    obtain ⟨-, hcons, hbefore⟩ := List.pairwise_append.mp hsorted
    obtain ⟨hafter, -⟩ := List.pairwise_cons.mp hcons
    rw [hsplit, filter_once honce hg]
    exact Balanced.entries_delete hsplit (fun x hx => (hbefore x hx _ List.mem_cons_self).2)
      (Ticket.order_self ticket) fun x hx => (hafter x hx).1

/-- **A frame that is deleted is gone from the list.** -/
theorem delete (h : Shows p entries) (f : F) :
    Shows (p.delete f) (entries.filter fun e => e.1 != f) where
  entries_eq := by
    rw [h.tree_delete, ← h.entries_eq, List.filter_map]
    rfl
  sorted := by
    rw [h.tree_delete]
    exact h.sorted.filter _
  perm := by
    have hfilter := h.perm.filter fun e => e.1 != f
    rw [List.filter_map] at hfilter
    rw [h.tree_delete, tickets_delete]
    exact hfilter
  once := by
    rw [tickets_delete]
    exact h.once.filter _
  fresh := by
    rw [tickets_delete, next_delete]
    exact fun e he => h.fresh e (List.mem_filter.mp he).1

/-- **A frame that is added stands where its rank has a place.** -/
theorem add (h : Shows p entries) {before after : List (F × R)}
    (hsplit : (entries.filter fun e => e.1 != f) = before ++ after)
    (hbefore : ∀ e ∈ before, ¬ r < e.2) (hafter : ∀ e ∈ after, r < e.2) :
    Shows (p.add f r) (before ++ (f, r) :: after) := by
  have hq := h.delete f
  obtain ⟨front, back, htree, rfl, rfl⟩ := List.map_eq_append_iff.mp (hq.entries_eq.trans hsplit)
  set q := p.delete f
  set new : Ticket R × F := (⟨r, q.next⟩, f)
  -- the new number is the highest, so the new ticket comes after all of the same rank
  have hnumber : ∀ x ∈ q.tree.entries, x.1.number < q.next := fun x hx =>
    hq.fresh x.swap (hq.perm.mem_iff.mp (List.mem_map_of_mem hx))
  have hfront : ∀ x ∈ front, order x new = .lt ∧ order new x = .gt := fun x hx =>
    Ticket.order_of_not_lt (hbefore _ (List.mem_map_of_mem hx))
      (hnumber x (htree ▸ List.mem_append_left _ hx))
  have hback : ∀ x ∈ back, order new x = .lt ∧ order x new = .gt := fun x hx =>
    Ticket.order_of_lt (hafter _ (List.mem_map_of_mem hx))
  have htree' : (p.add f r).tree.entries = front ++ new :: back :=
    Balanced.entries_insert htree (fun x hx => (hfront x hx).2) fun x hx => by
      rw [(hback x hx).1]
      decide
  refine ⟨?_, ?_, ?_, ?_, ?_⟩
  · rw [htree', List.map_append, List.map_cons]
  · rw [htree']
    exact pairwise_insert_middle (htree ▸ hq.sorted) hfront hback
  · have hperm := hq.perm
    rw [htree, List.map_append] at hperm
    rw [htree', List.map_append, List.map_cons]
    exact List.perm_middle.trans ((hperm.cons _).trans (List.perm_append_singleton _ _).symm)
  · refine List.pairwise_append.mpr ⟨hq.once, List.pairwise_singleton _ _, fun x hx y hy => ?_⟩
    rw [List.mem_singleton.mp hy]
    rw [tickets_delete] at hx
    simpa [bne] using (List.mem_filter.mp hx).2
  · intro x hx
    show x.2.number < q.next + 1
    rcases List.mem_append.mp hx with hx | hx
    · exact Nat.lt_succ_of_lt (hq.fresh x hx)
    · rw [List.mem_singleton.mp hx]
      exact Nat.lt_succ_self _

end Shows
end SearchedPool
end StorageKit
