/-
Pools as sorted lists of records.

A pool of a replacer is meant to list the tracked frames of one kind, each with the earliest time
in its history, in ascending order of that time.

* `ArrivalPool.frames_add`, `RankedPool.frames_add_perm`, `frames_delete` — the frames of a pool
  after a call;
* `Lists` — the entries of a pool list the frames of a kind;
* `Lists.keep`, `Lists.drop`, `Lists.addLast`, `Lists.addRanked` — what a pool has to do when one
  record changes: nothing, delete its frame, or add it at the end or at its rank;
* `find?_eq_argmin` — in such a list the first frame that may be evicted is the one with the
  earliest time of all that may be.
-/
import StorageKit.Replacer.State
import Mathlib.Data.List.MinMax
import Mathlib.Logic.Function.Basic

namespace StorageKit

/-! ### Ranked insertion -/

namespace RankedPool

variable {f : Nat} {t : Nat} {entries : List (Nat × Nat)}

theorem mem_insert {e : Nat × Nat} : e ∈ insert f t entries ↔ e = (f, t) ∨ e ∈ entries := by
  induction entries with
  | nil => rw [insert, List.mem_singleton, or_iff_left List.not_mem_nil]
  | cons head rest ih =>
    rw [insert]
    split
    · rw [List.mem_cons]
    · rw [List.mem_cons, ih, List.mem_cons, or_left_comm]

/-- A rank that no entry has keeps the order strict. -/
theorem pairwise_insert (h : entries.Pairwise fun a b => a.2 < b.2) (ht : ∀ e ∈ entries, e.2 ≠ t) :
    (insert f t entries).Pairwise fun a b => a.2 < b.2 := by
  induction entries with
  | nil => exact List.pairwise_singleton _ _
  | cons head rest ih =>
    obtain ⟨hhead, hrest⟩ := List.pairwise_cons.mp h
    rw [insert]
    split
    · next hlt =>
      refine List.pairwise_cons.mpr ⟨fun e he => ?_, h⟩
      rcases List.mem_cons.mp he with rfl | he
      · exact hlt
      · exact hlt.trans (hhead e he)
    · next hge =>
      -- the rank is above that of the head, since it is not the same
      have hlt : head.2 < t := lt_of_le_of_ne (not_lt.mp hge) (ht head List.mem_cons_self)
      refine List.pairwise_cons.mpr
        ⟨fun e he => ?_, ih hrest fun e he => ht e (List.mem_cons_of_mem _ he)⟩
      rcases mem_insert.mp he with rfl | he
      · exact hlt
      · exact hhead e he

end RankedPool

/-! ### Frames of a pool -/

section

variable {F R : Type} [BEq F] (f : F) (r : R)

theorem ArrivalPool.frames_delete (p : ArrivalPool F R) :
    (p.delete f).frames = p.frames.filter (· != f) := by
  rw [delete, frames, frames, List.filter_map]
  rfl

theorem ArrivalPool.frames_add (p : ArrivalPool F R) :
    (p.add f r).frames = p.frames.filter (· != f) ++ [f] := by
  rw [← frames_delete, add, frames, List.map_append]
  rfl

theorem RankedPool.frames_delete (p : RankedPool F R) :
    (p.delete f).frames = p.frames.filter (· != f) := by
  rw [delete, frames, frames, List.filter_map]
  rfl

variable [LT R] [DecidableLT R]

omit [BEq F] in
theorem RankedPool.map_fst_insert_perm (entries : List (F × R)) :
    ((insert f r entries).map Prod.fst).Perm (f :: entries.map Prod.fst) := by
  induction entries with
  | nil => exact List.Perm.refl _
  | cons e rest ih =>
    rw [insert]
    split
    · exact List.Perm.refl _
    · exact (ih.cons e.1).trans (List.Perm.swap f e.1 _)

theorem RankedPool.frames_add_perm (p : RankedPool F R) :
    (p.add f r).frames.Perm (f :: p.frames.filter (· != f)) := by
  rw [← frames_delete]
  exact map_fst_insert_perm f r _

end

/-! ### Listed frames -/

/-- The entries list the tracked frames of a kind, each with the earliest time in its history, in
ascending order of that time. -/
structure Lists (record? : Nat → Option FrameRecord) (kind : FrameRecord → Prop)
    (entries : List (Nat × Nat)) : Prop where
  mem_iff : ∀ n t, (n, t) ∈ entries ↔
    ∃ f, record? n = some f ∧ kind f ∧ f.history.head? = some t
  sorted : entries.Pairwise fun a b => a.2 < b.2

theorem lists_nil {record? : Nat → Option FrameRecord} {kind : FrameRecord → Prop}
    (h : ∀ n, record? n = none) : Lists record? kind [] where
  mem_iff n t := by simp [h n]
  sorted := List.Pairwise.nil

namespace Lists

variable {record? : Nat → Option FrameRecord} {kind : FrameRecord → Prop}
  {entries entries' : List (Nat × Nat)} {n t : Nat} {f : FrameRecord} {x : Option FrameRecord}

/-- A changed record of which a pool sees nothing. -/
theorem keep (h : Lists record? kind entries)
    (hx : ∀ t, (∃ f, x = some f ∧ kind f ∧ f.history.head? = some t) ↔
      ∃ f, record? n = some f ∧ kind f ∧ f.history.head? = some t) :
    Lists (Function.update record? n x) kind entries := by
  refine ⟨fun m t => ?_, h.sorted⟩
  rw [h.mem_iff]
  by_cases hm : m = n
  · subst hm
    rw [Function.update_self]
    exact (hx t).symm
  · rw [Function.update_of_ne hm]

/-- A change of flags, of which no pool sees anything. -/
theorem adjust (h : Lists record? kind entries) {change : FrameRecord → FrameRecord}
    (hchange : ∀ f, (kind (change f) ↔ kind f) ∧ (change f).history = f.history) :
    Lists (Function.update record? n ((record? n).map change)) kind entries := by
  refine h.keep fun t => ?_
  cases record? n with
  | none => simp
  | some f => simp [hchange f]

/-- A frame that is not of the kind any more is deleted. -/
theorem drop (h : Lists record? kind entries) (hx : ∀ f, x = some f → ¬ kind f) :
    Lists (Function.update record? n x) kind (entries.filter fun e => e.1 != n) := by
  refine ⟨fun m t => ?_, h.sorted.filter _⟩
  rw [List.mem_filter, h.mem_iff]
  by_cases hm : m = n
  · subst hm
    rw [Function.update_self]
    constructor
    · intro hmem
      simp at hmem
    · rintro ⟨f, hf, hk, -⟩
      exact absurd hk (hx f hf)
  · rw [Function.update_of_ne hm]
    simp [hm]

/-- A frame of the kind that is added at its place. -/
theorem place (h : Lists record? kind entries) (hk : kind f) (ht : f.history.head? = some t)
    (hmem : ∀ e, e ∈ entries' ↔ e = (n, t) ∨ e ∈ entries.filter fun e => e.1 != n)
    (hsorted : entries'.Pairwise fun a b => a.2 < b.2) :
    Lists (Function.update record? n (some f)) kind entries' := by
  refine ⟨fun m s => ?_, hsorted⟩
  rw [hmem, List.mem_filter, h.mem_iff]
  by_cases hm : m = n
  · subst hm
    rw [Function.update_self]
    constructor
    · rintro (hs | hmem)
      · obtain rfl := (Prod.mk.injEq ..).mp hs |>.2
        exact ⟨f, rfl, hk, ht⟩
      · simp at hmem
    · -- the frame is listed once, with its new time
      rintro ⟨g, hg, -, hs⟩
      obtain rfl := Option.some.inj hg
      obtain rfl := Option.some.inj (ht.symm.trans hs)
      exact Or.inl rfl
  · rw [Function.update_of_ne hm]
    simp [hm]

/-- A frame of the kind that is later than all others goes to the end. -/
theorem addLast (h : Lists record? kind entries) (hk : kind f) (ht : f.history.head? = some t)
    (hlast : ∀ e ∈ entries, e.2 < t) :
    Lists (Function.update record? n (some f)) kind
      (entries.filter (fun e => e.1 != n) ++ [(n, t)]) := by
  refine h.place hk ht (fun e => ?_) ?_
  · rw [List.mem_append, List.mem_singleton, or_comm]
  · refine List.pairwise_append.mpr ⟨h.sorted.filter _, List.pairwise_singleton _ _, ?_⟩
    intro e he e' he'
    rw [List.mem_singleton.mp he']
    exact hlast e (List.mem_of_mem_filter he)

/-- A frame of the kind goes to its rank, if that is not the rank of another frame. -/
theorem addRanked (h : Lists record? kind entries) (hk : kind f) (ht : f.history.head? = some t)
    (hother : ∀ e ∈ entries, e.1 ≠ n → e.2 ≠ t) :
    Lists (Function.update record? n (some f)) kind
      (RankedPool.insert n t (entries.filter fun e => e.1 != n)) := by
  refine h.place hk ht (fun e => RankedPool.mem_insert) (RankedPool.pairwise_insert
    (h.sorted.filter _) fun e he => ?_)
  obtain ⟨hmem, hne⟩ := List.mem_filter.mp he
  exact hother e hmem (by simpa using hne)

/-! ### The first listed frame -/

/-- The listed frames are those of the kind, if none of these has an empty history. -/
theorem mem_frames (h : Lists record? kind entries)
    (hhead : ∀ f, record? n = some f → ∃ t, f.history.head? = some t) :
    n ∈ entries.map Prod.fst ↔ ∃ f, record? n = some f ∧ kind f := by
  rw [List.mem_map]
  constructor
  · rintro ⟨⟨m, t⟩, hmem, rfl⟩
    obtain ⟨f, hf, hk, -⟩ := (h.mem_iff m t).mp hmem
    exact ⟨f, hf, hk⟩
  · rintro ⟨f, hf, hk⟩
    obtain ⟨t, ht⟩ := hhead f hf
    exact ⟨(n, t), (h.mem_iff n t).mpr ⟨f, hf, hk, ht⟩, rfl⟩

/-- The listed frames are in ascending order of whatever agrees with the earliest times. -/
theorem pairwise_frames (h : Lists record? kind entries) {time : Nat → Nat}
    (htime : ∀ n t, (n, t) ∈ entries → time n = t) :
    (entries.map Prod.fst).Pairwise fun a b => time a < time b := by
  refine List.pairwise_map.mpr (h.sorted.imp_of_mem ?_)
  intro a b ha hb hlt
  rw [htime a.1 a.2 ha, htime b.1 b.2 hb]
  exact hlt

/-- No frame is listed twice, since an entry holds the earliest time of its frame. -/
theorem nodup_frames (h : Lists record? kind entries) : (entries.map Prod.fst).Nodup := by
  have htime : ∀ n t, (n, t) ∈ entries →
      (((record? n).bind fun f => f.history.head?).getD 0) = t := by
    intro n t hn
    obtain ⟨f, hf, -, ht⟩ := (h.mem_iff n t).mp hn
    rw [hf, Option.bind_some, ht, Option.getD_some]
  refine (h.pairwise_frames htime).imp ?_
  rintro a b hlt rfl
  exact lt_irrefl _ hlt

end Lists

/-- In a list in strictly ascending order, the first item that passes a test is the one with the
least value among all that pass. -/
theorem find?_eq_argmin {value : Nat → Nat} {p : Nat → Bool} {l l' : List Nat}
    (hl : l.Pairwise fun a b => value a < value b) (hl' : ∀ n, n ∈ l' ↔ n ∈ l ∧ p n = true) :
    l.find? p = l'.argmin value := by
  cases hfind : l.find? p with
  | none =>
    have hnil : l' = [] := by
      refine List.eq_nil_iff_forall_not_mem.mpr fun n hn => ?_
      obtain ⟨hmem, hp⟩ := (hl' n).mp hn
      exact List.find?_eq_none.mp hfind n hmem hp
    rw [hnil, List.argmin_nil]
  | some n =>
    obtain ⟨hpn, before, after, hsplit, hbefore⟩ := List.find?_eq_some_iff_append.mp hfind
    subst hsplit
    -- every other item that passes comes after `n`
    have hleast : ∀ m ∈ l', m = n ∨ value n < value m := by
      intro m hm
      obtain ⟨hmem, hpm⟩ := (hl' m).mp hm
      rcases List.mem_append.mp hmem with hb | ha
      · exact absurd hpm (by simpa using hbefore m hb)
      · rcases List.mem_cons.mp ha with rfl | ha
        · exact Or.inl rfl
        · exact Or.inr ((List.pairwise_cons.mp (List.pairwise_append.mp hl).2.1).1 m ha)
    have hn : n ∈ l' := (hl' n).mpr ⟨by simp, hpn⟩
    cases hmin : l'.argmin value with
    | none => exact absurd hn (by rw [List.argmin_eq_none.mp hmin]; exact List.not_mem_nil)
    | some m =>
      rcases hleast m (List.argmin_mem hmin) with rfl | hlt
      · rfl
      · exact absurd hlt (not_lt.mpr (List.le_of_mem_argmin hn hmin))

end StorageKit
