/-
What the steps of a replacer change.

Every step of a replacer changes the record of one frame at most, so each is described by what it
does to the function `Replacer.record?`:

* `index_frame?` — which frame a number stands for;
* `record?_touch`, `record?_enroll`, `record?_age`, `record?_forget`, `record?_pin`,
  `record?_unpin` — the records after each step;
* `Replacer.evictables` — the tracked frames that may be evicted, which change with the records by
  `evictables_of_update`;
* `Replacer.pooled` — the frames in the pools, among which a victim is found (`exists_nextVictim`);
* `nextVictim_spec`, `nextVictim_touch`, `forget_touch_comm` — the next victim may be evicted, and
  neither who it is nor what forgetting it does depends on an access to a frame not tracked before.
-/
import StorageKit.Replacer.State
import StorageKit.Proofs.Keyed
import Mathlib.Data.Finset.Card
import Mathlib.Data.Finset.Dedup

namespace StorageKit

/-- A search finds the first frame that may be evicted. -/
theorem Search.found_first {F : Type} (p : F → Bool) (l : List F) :
    (Search.first p l).found = l.find? p := by
  induction l with
  | nil => rfl
  | cons f rest ih =>
    cases h : p f with
    | true => simp [Search.first, h]
    | false => simp [Search.first, h, ih]

namespace Replacer

variable {r : Replacer}

/-! ### Frames -/

/-- The frame that is in range for a number, its sign forgotten. -/
theorem index_frame? (r : Replacer) (x : Number) :
    (r.frame? x).map FrameRef.index = x.toNat?.filter fun n => n ≤ r.settings.numFrames := by
  rw [frame?]
  cases hx : x.toNat? with
  | none => rfl
  | some n =>
    by_cases hn : n ≤ r.settings.numFrames
    · by_cases hz : x = .minusZero
      · subst hz
        have h0 : n = 0 := Option.some.inj (hx.symm.trans (by decide))
        subst h0
        simp [Option.filter, FrameRef.index]
      · simp [Option.filter, hn, hz, FrameRef.index]
    · simp [Option.filter, hn]

theorem frame?_spec {x : Number} {f : FrameRef} (h : r.frame? x = some f) :
    x.toNat? = some f.index ∧ f.index ≤ r.settings.numFrames := by
  have hx := index_frame? r x
  rw [h, Option.map_some] at hx
  simpa using Option.filter_eq_some_iff.mp hx.symm

/-- A number that stands for a frame in range is accepted. -/
theorem frame?_of_toNat? {x : Number} {n : Nat} (h : x.toNat? = some n)
    (hn : n ≤ r.settings.numFrames) : ∃ f, r.frame? x = some f ∧ f.index = n := by
  have hx := index_frame? r x
  rw [h, Option.filter_some, if_pos (by simpa using hn)] at hx
  exact Option.map_eq_some_iff.mp hx

/-! ### Records -/

theorem record?_touch (n : Nat) (r : Replacer) :
    (touch n r).record? = Function.update r.record? n
      (some ((r.recordOf n).touch r.settings.k (r.clock + 1))) :=
  Keyed.get?_set n _ r.records

theorem record?_enroll (n t : Nat) (r : Replacer) :
    (enroll n t r).record? = Function.update r.record? n
      ((r.record? n).map fun f => { f with evictable := true }) :=
  Keyed.get?_adjust n _ r.records

theorem record?_age (f : FrameRef) (rank : Nat) (r : Replacer) :
    (age f rank r).record? = Function.update r.record? f.index
      ((r.record? f.index).map fun g => { g with signed := f = .minusZero }) :=
  Keyed.get?_adjust f.index _ r.records

theorem record?_forget (n : Nat) (r : Replacer) :
    (forget n r).record? = Function.update r.record? n none :=
  Keyed.get?_erase n r.records

theorem record?_pin (n : Nat) (r : Replacer) :
    (pin n r).record? = Function.update r.record? n
      ((r.record? n).map fun f => { f with evictable := false }) :=
  Keyed.get?_adjust n _ r.records

theorem record?_unpin (n : Nat) (r : Replacer) :
    (unpin n r).record? = Function.update r.record? n
      ((r.record? n).map fun f => { f with evictable := true }) :=
  Keyed.get?_adjust n _ r.records

/-- After one record changed, a record is the new one, or it was there before. -/
theorem record?_cases {r' : Replacer} {m n : Nat} {x : Option FrameRecord} {f : FrameRecord}
    (h : r'.record? = Function.update r.record? n x) (hm : r'.record? m = some f) :
    m = n ∧ x = some f ∨ m ≠ n ∧ r.record? m = some f := by
  rw [h] at hm
  by_cases hmn : m = n
  · rw [hmn, Function.update_self] at hm
    exact Or.inl ⟨hmn, hm⟩
  · rw [Function.update_of_ne hmn] at hm
    exact Or.inr ⟨hmn, hm⟩

theorem recordOf_of_record? {n : Nat} {f : FrameRecord} (h : r.record? n = some f) :
    r.recordOf n = f := by
  rw [recordOf, h, Option.getD_some]

theorem recordOf_touch_self (n : Nat) (r : Replacer) :
    (touch n r).recordOf n = (r.recordOf n).touch r.settings.k (r.clock + 1) := by
  apply recordOf_of_record?
  rw [record?_touch, Function.update_self]

theorem isEvictable_eq_true {n : Nat} :
    r.isEvictable n = true ↔ ∃ f, r.record? n = some f ∧ f.evictable = true := by
  rw [isEvictable, Option.any_eq_true]

theorem isEvictable_of_record? {n : Nat} {f : FrameRecord} (h : r.record? n = some f) :
    r.isEvictable n = f.evictable := by
  rw [isEvictable, h, Option.any_some]

theorem isEvictable_of_untracked {n : Nat} (h : r.record? n = none) : r.isEvictable n = false := by
  rw [isEvictable, h, Option.any_none]

/-! ### The frames that may be evicted -/

/-- The tracked frames that may be evicted. -/
def evictables (r : Replacer) : Finset Nat :=
  (Keyed.keys r.records).toFinset.filter fun n => r.isEvictable n = true

theorem mem_evictables {n : Nat} : n ∈ r.evictables ↔ r.isEvictable n = true := by
  rw [evictables, Finset.mem_filter, List.mem_toFinset, Keyed.mem_keys]
  constructor
  · exact fun h => h.2
  · intro h
    obtain ⟨f, hf, -⟩ := isEvictable_eq_true.mp h
    exact ⟨Option.isSome_iff_exists.mpr ⟨f, hf⟩, h⟩

/-- When one record changes, its frame joins or leaves the frames that may be evicted. -/
theorem evictables_of_update {r' : Replacer} {n : Nat} {x : Option FrameRecord}
    (h : r'.record? = Function.update r.record? n x) :
    r'.evictables =
      if x.any (·.evictable) then insert n r.evictables else r.evictables.erase n := by
  ext m
  rw [mem_evictables, isEvictable, h]
  by_cases hm : m = n
  · subst hm
    cases hx : x.any (·.evictable) <;> simp [hx]
  · rw [Function.update_of_ne hm]
    cases hx : x.any (·.evictable) <;> simp [hm, mem_evictables, isEvictable]

/-- A change after which the frame may be evicted exactly if it could be before. -/
theorem evictables_of_same {r' : Replacer} {n : Nat} {x : Option FrameRecord}
    (h : r'.record? = Function.update r.record? n x)
    (hx : x.any (·.evictable) = r.isEvictable n) : r'.evictables = r.evictables := by
  rw [evictables_of_update h, hx]
  split
  · next he => exact Finset.insert_eq_self.mpr (mem_evictables.mpr he)
  · next he => exact Finset.erase_eq_self.mpr (by rwa [mem_evictables])

theorem card_evictables_join {r' : Replacer} {n : Nat} {x : FrameRecord}
    (h : r'.record? = Function.update r.record? n (some x)) (hx : x.evictable = true)
    (hn : r.isEvictable n = false) : r'.evictables.card = r.evictables.card + 1 := by
  have hmem : n ∉ r.evictables := by
    rw [mem_evictables, hn]
    exact Bool.false_ne_true
  rw [evictables_of_update h, Option.any_some, if_pos hx, Finset.card_insert_of_notMem hmem]

theorem card_evictables_leave {r' : Replacer} {n : Nat} {x : Option FrameRecord}
    (h : r'.record? = Function.update r.record? n x) (hx : x.any (·.evictable) = false)
    (hn : r.isEvictable n = true) : r'.evictables.card = r.evictables.card - 1 := by
  rw [evictables_of_update h, hx, if_neg Bool.false_ne_true,
    Finset.card_erase_of_mem (mem_evictables.mpr hn)]

/-! ### Victims -/

theorem isEvictable_touch (n : Nat) (r : Replacer) :
    (touch n r).isEvictable = r.isEvictable := by
  funext m
  rw [isEvictable, isEvictable, record?_touch]
  by_cases hm : m = n
  · subst hm
    rw [Function.update_self]
    cases h : r.record? m <;> simp [recordOf, h, FrameRecord.touch, FrameRecord.fresh]
  · rw [Function.update_of_ne hm]

theorem evictables_touch (n : Nat) (r : Replacer) : (touch n r).evictables = r.evictables := by
  ext m
  rw [mem_evictables, mem_evictables, isEvictable_touch]

theorem agedSpelling_touch (n : Nat) (r : Replacer) :
    (touch n r).agedSpelling = r.agedSpelling := by
  funext m
  have hsigned : ((touch n r).recordOf m).signed = (r.recordOf m).signed := by
    by_cases hm : m = n
    · subst hm
      rw [recordOf_touch_self]
      rfl
    · rw [recordOf, recordOf, record?_touch, Function.update_of_ne hm]
  rw [agedSpelling, agedSpelling, hsigned]

theorem index_agedSpelling (r : Replacer) (n : Nat) : (r.agedSpelling n).index = n := by
  rw [agedSpelling]
  split
  · next h => rw [h.1]; rfl
  · rfl

/-- The frame of the next victim, found by asking the recent frames first and then the aged
ones. -/
theorem index_nextVictim (r : Replacer) :
    r.nextVictim.map FrameRef.index =
      if r.evictableCount = 0 then none
      else (r.recent.frames.find? r.isEvictable).or (r.aged.frames.find? r.isEvictable) := by
  have hrecent : (VictimPool.victim r.isEvictable r.recent).found =
      r.recent.frames.find? r.isEvictable := Search.found_first _ _
  have haged : (VictimPool.victim r.isEvictable r.aged).found =
      r.aged.frames.find? r.isEvictable := Search.found_first _ _
  rw [nextVictim, hrecent, haged]
  by_cases hc : r.evictableCount = 0
  · rw [if_pos hc, if_pos hc, Option.map_none]
  · rw [if_neg hc, if_neg hc]
    cases r.recent.frames.find? r.isEvictable with
    | some n => rfl
    | none =>
      rw [Option.none_or, Option.map_map]
      cases r.aged.frames.find? r.isEvictable with
      | none => rfl
      | some n => exact congrArg some (index_agedSpelling r n)

/-- A victim may be evicted. -/
theorem nextVictim_spec {v : FrameRef} (h : r.nextVictim = some v) :
    r.isEvictable v.index = true := by
  have hv := index_nextVictim r
  rw [h, Option.map_some] at hv
  by_cases hc : r.evictableCount = 0
  · rw [if_pos hc] at hv
    exact absurd hv (by simp)
  · rw [if_neg hc] at hv
    rcases Option.or_eq_some_iff.mp hv.symm with hf | ⟨-, hf⟩
    · exact List.find?_some hf
    · exact List.find?_some hf

/-- The frames in the pools. -/
def pooled (r : Replacer) : List Nat := r.recent.frames ++ r.aged.frames

/-- A frame in a pool that may be evicted makes sure of a victim, if the count is not zero. -/
theorem exists_nextVictim {n : Nat} (hmem : n ∈ r.pooled) (hn : r.isEvictable n = true)
    (hcount : r.evictableCount ≠ 0) : ∃ victim, r.nextVictim = some victim := by
  have hindex := index_nextVictim r
  rw [if_neg hcount] at hindex
  -- a search that asks both pools finds somebody
  have hfound : ((r.recent.frames.find? r.isEvictable).or
      (r.aged.frames.find? r.isEvictable)).isSome = true := by
    rw [Option.isSome_or, Bool.or_eq_true, List.find?_isSome, List.find?_isSome]
    exact (List.mem_append.mp hmem).imp (fun h => ⟨n, h, hn⟩) fun h => ⟨n, h, hn⟩
  rw [← hindex, Option.isSome_map] at hfound
  exact Option.isSome_iff_exists.mp hfound

theorem nextVictim_touch (n : Nat) (r : Replacer) : (touch n r).nextVictim = r.nextVictim := by
  rw [nextVictim, nextVictim, isEvictable_touch, agedSpelling_touch]
  rfl

theorem isFull_touch (n : Nat) (r : Replacer) : (touch n r).isFull = r.isFull := rfl

theorem forget_touch_comm {n v : Nat} (h : v ≠ n) (r : Replacer) :
    forget v (touch n r) = touch n (forget v r) := by
  have hrecord : (forget v r).recordOf n = r.recordOf n := by
    rw [recordOf, recordOf, record?_forget, Function.update_of_ne h.symm]
  have hset : touch n (forget v r) =
      { forget v r with
        clock := r.clock + 1
        records := Keyed.set n ((r.recordOf n).touch r.settings.k (r.clock + 1))
          (Keyed.erase v r.records) } := by
    rw [touch, hrecord]
    rfl
  rw [hset, ← Keyed.erase_set_comm h]
  rfl

end Replacer
end StorageKit
