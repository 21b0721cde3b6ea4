/-
A priority order with stable ties.

What a pool in order of rank holds is read off the calls that were made on it:

* `VictimPool.LastAdd` — a call is the last that concerns its frame, and adds it;
* `VictimPool.Ranking` — a list of frames: those whose last call added them, each of them once, in
  the order of the ranks of these calls, and between equal ranks in the order of the calls;
* `VictimPool.Holds` — the same for frames with their ranks, and how it is kept by a call;
* `SearchedPool.stable_priority_order` — **the frames of the searched pool are such a list, for all
  ranks but `nan`, and everything that it answers is read off this list**.

Design notes: a frame that is added again counts from its last call on, for its rank as well as for
its place among equals.  Calls that only ask count for nothing.
-/
import StorageKit.Proofs.Interchange

namespace StorageKit

theorem getElem?_append_singleton_eq_some {α : Type} {l : List α} {x y : α} {i : Nat} :
    (l ++ [x])[i]? = some y ↔ l[i]? = some y ∨ i = l.length ∧ x = y := by
  rcases Nat.lt_or_ge i l.length with hi | hi
  · rw [List.getElem?_append_left hi]
    exact ⟨Or.inl, fun h => h.resolve_right fun h => absurd h.1 hi.ne⟩
  · rw [List.getElem?_append_right hi, List.getElem?_eq_none hi, List.getElem?_singleton]
    constructor
    · intro h
      split at h
      · exact Or.inr ⟨by omega, Option.some.inj h⟩
      · cases h
    · rintro (h | ⟨rfl, rfl⟩)
      · cases h
      · rw [Nat.sub_self, if_pos rfl]

namespace VictimPool

/-! ### Last calls -/

section

variable {F R : Type} [BEq F] {calls : List (Call F R)} {c : Call F R} {f g : F} {r s : R}
  {i j : Nat}

/-- The call adds or deletes a frame. -/
def Call.concerns (f : F) : Call F R → Bool
  | .add g _ => g == f
  | .delete g => g == f
  | _ => false

/-- The `i`-th call adds a frame with a rank, and no later one adds or deletes the frame. -/
structure LastAdd (calls : List (Call F R)) (i : Nat) (f : F) (r : R) : Prop where
  added : calls[i]? = some (.add f r)
  last : ∀ j c, i < j → calls[j]? = some c → c.concerns f = false

theorem LastAdd.lt_length (h : LastAdd calls i f r) : i < calls.length :=
  (List.getElem?_eq_some_iff.mp h.added).1

theorem LastAdd.rank_mem (h : LastAdd calls i f r) : r ∈ ranks calls :=
  List.mem_filterMap.mpr ⟨_, List.mem_of_getElem? h.added, rfl⟩

/-- With one more call, the last calls that add frames are those before that it does not concern,
and itself if it adds a frame. -/
theorem lastAdd_append :
    LastAdd (calls ++ [c]) i f r ↔
      (i = calls.length ∧ c = .add f r) ∨ (LastAdd calls i f r ∧ c.concerns f = false) := by
  constructor
  · intro h
    rcases getElem?_append_singleton_eq_some.mp h.added with hi | hnew
    · refine Or.inr ⟨⟨hi, fun j d hij hd => h.last j d hij ?_⟩, h.last calls.length c ?_ ?_⟩
      · exact getElem?_append_singleton_eq_some.mpr (Or.inl hd)
      · exact (List.getElem?_eq_some_iff.mp hi).1
      · exact List.getElem?_concat_length
    · exact Or.inl hnew
  · rintro (⟨rfl, rfl⟩ | ⟨h, hc⟩)
    · refine ⟨List.getElem?_concat_length, fun j d hij hd => ?_⟩
      have hlt := (List.getElem?_eq_some_iff.mp hd).1
      rw [List.length_append, List.length_singleton] at hlt
      omega
    · refine ⟨getElem?_append_singleton_eq_some.mpr (Or.inl h.added), fun j d hij hd => ?_⟩
      rcases getElem?_append_singleton_eq_some.mp hd with hd | ⟨-, rfl⟩
      · exact h.last j d hij hd
      · exact hc

variable [EquivBEq F]

theorem lastAdd_append_of_concerns (hc : c.concerns f = false) :
    LastAdd (calls ++ [c]) i f r ↔ LastAdd calls i f r := by
  rw [lastAdd_append]
  constructor
  · rintro (⟨-, rfl⟩ | ⟨h, -⟩)
    · exact absurd (BEq.refl f) (by rw [show (f == f) = false from hc]; decide)
    · exact h
  · exact fun h => Or.inr ⟨h, hc⟩

/-- A frame that is added now was added last by this call. -/
theorem lastAdd_append_add :
    LastAdd (calls ++ [.add f r]) i f s ↔ i = calls.length ∧ r = s := by
  rw [lastAdd_append]
  constructor
  · rintro (⟨hi, heq⟩ | ⟨-, hc⟩)
    · cases heq
      exact ⟨hi, rfl⟩
    · exact absurd (BEq.refl f) (by rw [show (f == f) = false from hc]; decide)
  · rintro ⟨rfl, rfl⟩
    exact Or.inl ⟨rfl, rfl⟩

/-- The call that added a frame last is one. -/
theorem LastAdd.unique (h : LastAdd calls i f r) (h' : LastAdd calls j f s) : i = j ∧ r = s := by
  have hself : ∀ t : R, (Call.add f t).concerns f ≠ false := fun _ => by
    rw [Call.concerns, BEq.refl f]
    decide
  rcases Nat.lt_trichotomy i j with hij | rfl | hij
  · exact absurd (h.last j _ hij h'.added) (hself s)
  · cases Option.some.inj (h.added.symm.trans h'.added)
    exact ⟨rfl, rfl⟩
  · exact absurd (h'.last i _ hij h.added) (hself r)

end

/-! ### Lists in the order of the last calls -/

section

variable {F R : Type} [BEq F] [LT R] {calls : List (Call F R)} {c : Call F R}
  {entries before after : List (F × R)} {f : F} {r : R}

/-- The frames whose last call added them, each of them once, in the order of the ranks of these
calls, and between equal ranks in the order of the calls. -/
structure Ranking (calls : List (Call F R)) (fs : List F) : Prop where
  mem_iff : ∀ f, f ∈ fs ↔ ∃ i r, LastAdd calls i f r
  once : fs.Pairwise fun f g => (f == g) = false
  sorted : fs.Pairwise fun f g =>
    ∀ i r j s, LastAdd calls i f r → LastAdd calls j g s → r < s ∨ ¬ s < r ∧ i < j

/-- The entry `a` comes before the entry `b`, by what their last calls were. -/
def Precedes (calls : List (Call F R)) (a b : F × R) : Prop :=
  ∀ i j, LastAdd calls i a.1 a.2 → LastAdd calls j b.1 b.2 → a.2 < b.2 ∨ ¬ b.2 < a.2 ∧ i < j

/-- The frames whose last call added them, with the ranks that it added. -/
structure Holds (calls : List (Call F R)) (entries : List (F × R)) : Prop where
  mem_iff : ∀ f r, (f, r) ∈ entries ↔ ∃ i, LastAdd calls i f r
  once : entries.Pairwise fun a b => (a.1 == b.1) = false
  sorted : entries.Pairwise (Precedes calls)

namespace Holds

theorem nil : Holds ([] : List (Call F R)) [] where
  mem_iff f r := by
    constructor
    · nofun
    · rintro ⟨i, h⟩
      cases h.added
  once := .nil
  sorted := .nil

theorem rank_mem (h : Holds calls entries) {e : F × R} (he : e ∈ entries) : e.2 ∈ ranks calls := by
  obtain ⟨i, hi⟩ := (h.mem_iff e.1 e.2).mp he
  exact hi.rank_mem

variable [EquivBEq F]

theorem ranking (h : Holds calls entries) : Ranking calls (entries.map Prod.fst) where
  mem_iff f := by
    rw [List.mem_map]
    constructor
    · rintro ⟨⟨g, r⟩, he, rfl⟩
      obtain ⟨i, hi⟩ := (h.mem_iff g r).mp he
      exact ⟨i, r, hi⟩
    · rintro ⟨i, r, hi⟩
      exact ⟨(f, r), (h.mem_iff f r).mpr ⟨i, hi⟩, rfl⟩
  once := List.pairwise_map.mpr h.once
  sorted := by
    refine List.pairwise_map.mpr (h.sorted.imp_of_mem fun {a b} ha hb hab i r j s hi hj => ?_)
    -- the ranks of the entries are those of the last calls
    obtain ⟨i', hi'⟩ := (h.mem_iff a.1 a.2).mp ha
    obtain ⟨j', hj'⟩ := (h.mem_iff b.1 b.2).mp hb
    obtain ⟨-, rfl⟩ := hi.unique hi'
    obtain ⟨-, rfl⟩ := hj.unique hj'
    exact hab i j hi hj

/-- Entries of frames that a call does not concern stay in order. -/
theorem sorted_append (h : Holds calls entries) {kept : List (F × R)}
    (hkept : kept.Sublist entries) (hc : ∀ e ∈ kept, c.concerns e.1 = false) :
    kept.Pairwise (Precedes (calls ++ [c])) := by
  refine (h.sorted.sublist hkept).imp_of_mem fun {a b} ha hb hab i j hi hj => ?_
  exact hab i j ((lastAdd_append_of_concerns (hc a ha)).mp hi)
    ((lastAdd_append_of_concerns (hc b hb)).mp hj)

/-- After a call that concerns no frame. -/
theorem ask (h : Holds calls entries) (hc : ∀ f, c.concerns f = false) :
    Holds (calls ++ [c]) entries where
  mem_iff f r := by simp only [h.mem_iff, lastAdd_append_of_concerns (hc f)]
  once := h.once
  sorted := h.sorted_append (List.Sublist.refl _) fun e _ => hc e.1

/-- What is left when a frame is taken out. -/
theorem mem_filter_iff (h : Holds calls entries) (f g : F) (s : R) :
    (g, s) ∈ entries.filter (fun e => e.1 != f) ↔
      (∃ i, LastAdd calls i g s) ∧ (f == g) = false := by
  rw [List.mem_filter, h.mem_iff, BEq.comm, bne, Bool.not_eq_true']

theorem delete (h : Holds calls entries) (f : F) :
    Holds (calls ++ [.delete f]) (entries.filter fun e => e.1 != f) where
  mem_iff g s := by
    rw [h.mem_filter_iff]
    constructor
    · rintro ⟨⟨i, hi⟩, hg⟩
      exact ⟨i, (lastAdd_append_of_concerns (c := .delete f) hg).mpr hi⟩
    · rintro ⟨i, hi⟩
      obtain ⟨-, hc⟩ | ⟨hi, hg⟩ := lastAdd_append.mp hi
      · cases hc
      · exact ⟨⟨i, hi⟩, hg⟩
  once := h.once.filter _
  sorted := h.sorted_append List.filter_sublist fun e he => ((h.mem_filter_iff f _ _).mp he).2

/-- A frame that is added at a place of its rank. -/
theorem add (h : Holds calls entries)
    (hsplit : (entries.filter fun e => e.1 != f) = before ++ after)
    (hbefore : ∀ e ∈ before, ¬ r < e.2) (hafter : ∀ e ∈ after, r < e.2) :
    Holds (calls ++ [.add f r]) (before ++ (f, r) :: after) := by
  have hother : ∀ e ∈ before ++ after, (f == e.1) = false := fun e he =>
    ((h.mem_filter_iff f e.1 e.2).mp (hsplit ▸ he)).2
  have hkept : (before ++ after).Sublist entries := hsplit ▸ List.filter_sublist
  refine ⟨fun g s => ?_, ?_, ?_⟩
  · rw [List.perm_middle.mem_iff, List.mem_cons, ← hsplit, h.mem_filter_iff]
    constructor
    · rintro (heq | ⟨⟨i, hi⟩, hg⟩)
      · cases heq
        exact ⟨calls.length, lastAdd_append.mpr (Or.inl ⟨rfl, rfl⟩)⟩
      · exact ⟨i, lastAdd_append.mpr (Or.inr ⟨hi, hg⟩)⟩
    · rintro ⟨i, hi⟩
      obtain ⟨-, hc⟩ | ⟨hi, hg⟩ := lastAdd_append.mp hi
      · cases hc
        exact Or.inl rfl
      · exact Or.inr ⟨⟨i, hi⟩, hg⟩
  · refine pairwise_insert_middle (h.once.sublist hkept) (fun e he => ?_) fun e he => ?_
    · rw [BEq.comm]
      exact hother e (List.mem_append_left _ he)
    · exact hother e (List.mem_append_right _ he)
  · refine pairwise_insert_middle (h.sorted_append hkept hother) (fun e he i j hi hj => ?_)
      fun e he i j _ _ => Or.inl (hafter e he)
    -- the call that adds the frame comes after all others
    obtain ⟨rfl, -⟩ := lastAdd_append_add.mp hj
    have hold := (lastAdd_append_of_concerns (c := .add f r)
      (hother e (List.mem_append_left _ he))).mp hi
    exact Or.inr ⟨hbefore e he, hold.lt_length⟩

end Holds
end

theorem answers_append_singleton {P F R : Type} [VictimPool P F R] (calls : List (Call F R))
    (c : Call F R) (p : P) :
    (answers (calls ++ [c]) p).2 = (answer c (answers calls p).2).2 := by
  induction calls generalizing p with
  | nil => rfl
  | cons d rest ih => exact ih (answer d p).2

end VictimPool

open VictimPool (Call answer answers ranks Holds Ranking)

namespace SearchedPool

/-- After any calls, the list that the pool shows holds what the calls have added. -/
theorem holds_answers {F R : Type} [BEq F] [EquivBEq F] [LT R] [DecidableLT R]
    [Std.Asymm fun r s : R => r < s] {P : R → Prop} (hP : WeaklyOrdered P) (calls : List (Call F R))
    (hcalls : ∀ r ∈ ranks calls, P r) :
    ∃ entries, (answers calls (empty : SearchedPool F R)).2.Shows entries ∧
      Holds calls entries := by
  induction calls using List.reverseRecOn with
  | nil => exact ⟨[], shows_empty, Holds.nil⟩
  | append_singleton calls c ih =>
    have hinit : ∀ r ∈ ranks calls, P r := fun r hr => hcalls r (by
      rw [ranks, List.filterMap_append]
      exact List.mem_append_left _ hr)
    obtain ⟨entries, hshows, hholds⟩ := ih hinit
    rw [VictimPool.answers_append_singleton]
    cases c with
    | add f r =>
      have hkept : ∀ e ∈ entries.filter (fun e => e.1 != f), P e.2 := fun e he =>
        hinit _ (hholds.rank_mem (List.mem_filter.mp he).1)
      have hr : P r := hcalls r (List.mem_filterMap.mpr
        ⟨.add f r, List.mem_append_right _ List.mem_cons_self, rfl⟩)
      obtain ⟨before, after, hsplit, hbefore, hafter⟩ :=
        exists_place hP (hshows.delete f).ranks_sorted hkept hr
      exact ⟨before ++ (f, r) :: after, hshows.add hsplit hbefore hafter,
        hholds.add hsplit hbefore hafter⟩
    | delete f => exact ⟨_, hshows.delete f, hholds.delete f⟩
    | _ => exact ⟨entries, hshows, hholds.ask fun _ => rfl⟩

/-- **The frames of the searched pool are those whose last call added them, each of them once, in the
order of the ranks of these calls, and between equal ranks in the order of the calls; and all that
the pool answers is read off this list.** -/
theorem stable_priority_order {F : Type} [BEq F] [EquivBEq F] (calls : List (Call F Number))
    (hranks : Number.nan ∉ ranks calls) :
    let p := (answers calls (empty : SearchedPool F Number)).2
    Ranking calls p.frames ∧
    (∀ f, p.has f = p.frames.any (· == f)) ∧
    p.size = p.frames.length ∧
    (∀ f, (answer (.delete f) p).1 = .flag (p.frames.any (· == f))) ∧
    ∀ isEvictable, answer (.victim isEvictable) p =
      (.search ⟨p.frames.takeWhile (!isEvictable ·) ++ (p.frames.find? isEvictable).toList,
        p.frames.find? isEvictable⟩, p) := by
  intro p
  obtain ⟨entries, hshows, hholds⟩ := holds_answers (P := (· ≠ Number.nan))
    (fun r s t _ _ ht => Number.lt_or_lt ht) calls fun r hr heq => hranks (heq ▸ hr)
  have hframes : p.frames = entries.map Prod.fst := hshows.frames
  have hhas : ∀ f, p.has f = p.frames.any (· == f) := fun f => by
    rw [hframes, List.any_map]
    exact hshows.has f
  have hsize : p.size = p.frames.length := by
    rw [hframes, List.length_map]
    exact hshows.size
  refine ⟨hframes ▸ hholds.ranking, hhas, hsize, fun f => ?_, fun isEvictable => ?_⟩
  · exact congrArg VictimPool.Answer.flag (hhas f)
  · exact Prod.ext (congrArg VictimPool.Answer.search (Search.first_eq isEvictable p.frames)) rfl

/-- Frames with the same rank stay in the order in which they were added last, infinities too. -/
theorem stable_priority_order_of_ties :
    let calls : List (Call Nat Number) :=
      [.add 1 (.infinite false), .add 2 (.finite false 1 1), .add 3 (.infinite false),
        .add 4 (.infinite true), .add 2 (.infinite false), .delete 4, .add 5 .zero,
        .add 1 (.infinite false), .add 6 .minusZero]
    let p := (answers calls (empty : SearchedPool Nat Number)).2
    Number.nan ∉ ranks calls ∧ Ranking calls [5, 6, 3, 2, 1] ∧ p.frames = [5, 6, 3, 2, 1] := by
  intro calls p
  have hranks : Number.nan ∉ ranks calls := by decide
  have hframes : p.frames = [5, 6, 3, 2, 1] := by decide
  exact ⟨hranks, hframes ▸ (stable_priority_order calls hranks).1, hframes⟩

end SearchedPool
end StorageKit
