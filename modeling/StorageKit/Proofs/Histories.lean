/-
The records of a replacer in every run.

Whatever a logger does, and wherever it cuts an operation short, the record of a tracked frame
stays a faithful excerpt of its accesses: `Histories` says that every tracked frame is in range
and was accessed, and that its history is the strictly increasing list of its last times, none of
them ahead of the clock and none shared with another frame.

* `Histories` — the invariant;
* `kept_histories` — every step keeps it, so that it holds all along every run.
-/
import StorageKit.Proofs.Runs
import Mathlib.Data.List.Basic

namespace StorageKit

namespace FrameRecord

variable {f : FrameRecord} {k t : Nat}

/-- An access adds a time at the end and may drop one at the front. -/
theorem history_touch_suffix (f : FrameRecord) (k t : Nat) :
    (f.touch k t).history <:+ f.history ++ [t] := by
  show (if _ then _ else _) <:+ _
  split
  · exact List.tail_suffix _
  · exact List.suffix_refl _

theorem mem_history_touch {s : Nat} (h : s ∈ (f.touch k t).history) : s ∈ f.history ∨ s = t := by
  simpa using (history_touch_suffix f k t).mem h

theorem length_history_touch (h : f.history.length = min f.accessCount k) :
    (f.touch k t).history.length = min (f.touch k t).accessCount k := by
  show (if _ then _ else _ : List Nat).length = min (f.accessCount + 1) k
  split <;> simp_all <;> omega

/-- Up to the `k`-th access nothing is dropped. -/
theorem history_touch_of_lt (h : f.history.length < k) :
    (f.touch k t).history = f.history ++ [t] := by
  show (if _ then _ else _) = _
  rw [if_neg (by simp; omega)]

/-- The history of a frame that was accessed is not empty. -/
theorem exists_head? (hk : 0 < k) (hc : 0 < f.accessCount)
    (h : f.history.length = min f.accessCount k) : ∃ s, f.history.head? = some s := by
  cases hh : f.history with
  | nil => rw [hh, List.length_nil] at h; omega
  | cons s rest => exact ⟨s, rfl⟩

end FrameRecord

namespace Replacer

/-- What the records say in every run: the tracked frames are in range and were accessed; a
history holds the last `k` times of its frame, or all if there are fewer, in strictly increasing
order and none ahead of the clock; and no time is in two histories. -/
structure Histories (r : Replacer) : Prop where
  inRange : ∀ {n f}, r.record? n = some f → n ≤ r.settings.numFrames
  accessed : ∀ {n f}, r.record? n = some f → 0 < f.accessCount
  length_eq : ∀ {n f}, r.record? n = some f → f.history.length = min f.accessCount r.settings.k
  increasing : ∀ {n f}, r.record? n = some f → f.history.Pairwise (· < ·)
  le_clock : ∀ {n f}, r.record? n = some f → ∀ t ∈ f.history, t ≤ r.clock
  disjoint : ∀ {m n f g}, r.record? m = some f → r.record? n = some g → m ≠ n →
    ∀ t ∈ f.history, t ∉ g.history

variable {r r' : Replacer} {n : Nat} {x : Option FrameRecord}

theorem histories_new (settings : Settings) : Histories (new settings) where
  inRange h := by cases h
  accessed h := by cases h
  length_eq h := by cases h
  increasing h := by cases h
  le_clock h := by cases h
  disjoint h := by cases h

namespace Histories

/-- The histories after one record changed: the new record has to fit, next to the others. -/
theorem update (h : Histories r) (hrecord : r'.record? = Function.update r.record? n x)
    (hsettings : r'.settings = r.settings) (hclock : r.clock ≤ r'.clock)
    (hx : ∀ g, x = some g → n ≤ r.settings.numFrames ∧ 0 < g.accessCount ∧
      g.history.length = min g.accessCount r.settings.k ∧ g.history.Pairwise (· < ·) ∧
      (∀ t ∈ g.history, t ≤ r'.clock) ∧
      ∀ m f, r.record? m = some f → m ≠ n → ∀ t ∈ f.history, t ∉ g.history) :
    Histories r' := by
  have hcases : ∀ {m f}, r'.record? m = some f → m = n ∧ x = some f ∨
      m ≠ n ∧ r.record? m = some f := fun hm => record?_cases hrecord hm
  constructor
  · intro m f hm
    rw [hsettings]
    rcases hcases hm with ⟨rfl, hf⟩ | ⟨-, hf⟩
    · exact (hx f hf).1
    · exact h.inRange hf
  · intro m f hm
    rcases hcases hm with ⟨rfl, hf⟩ | ⟨-, hf⟩
    · exact (hx f hf).2.1
    · exact h.accessed hf
  · intro m f hm
    rw [hsettings]
    rcases hcases hm with ⟨rfl, hf⟩ | ⟨-, hf⟩
    · exact (hx f hf).2.2.1
    · exact h.length_eq hf
  · intro m f hm
    rcases hcases hm with ⟨rfl, hf⟩ | ⟨-, hf⟩
    · exact (hx f hf).2.2.2.1
    · exact h.increasing hf
  · intro m f hm t ht
    rcases hcases hm with ⟨rfl, hf⟩ | ⟨-, hf⟩
    · exact (hx f hf).2.2.2.2.1 t ht
    · exact (h.le_clock hf t ht).trans hclock
  · -- two frames: at most one of them is the changed one
    intro m m' f g hm hm' hne t ht hg
    rcases hcases hm with ⟨rfl, hf⟩ | ⟨hmn, hf⟩
    · rcases hcases hm' with ⟨rfl, -⟩ | ⟨hmn', hf'⟩
      · exact hne rfl
      · exact (hx f hf).2.2.2.2.2 m' g hf' hmn' t hg ht
    · rcases hcases hm' with ⟨rfl, hf'⟩ | ⟨-, hf'⟩
      · exact (hx g hf').2.2.2.2.2 m f hf hmn t ht hg
      · exact h.disjoint hf hf' hne t ht hg

/-- A change of flags leaves all histories as they are. -/
theorem adjust (h : Histories r) {change : FrameRecord → FrameRecord}
    (hrecord : r'.record? = Function.update r.record? n ((r.record? n).map change))
    (hsettings : r'.settings = r.settings) (hclock : r'.clock = r.clock)
    (hchange : ∀ f, (change f).history = f.history ∧ (change f).accessCount = f.accessCount) :
    Histories r' := by
  refine h.update hrecord hsettings (le_of_eq hclock.symm) fun g hg => ?_
  obtain ⟨f, hf, rfl⟩ := Option.map_eq_some_iff.mp hg
  rw [(hchange f).1, (hchange f).2, hclock]
  exact ⟨h.inRange hf, h.accessed hf, h.length_eq hf, h.increasing hf, h.le_clock hf,
    fun m g hm hne => h.disjoint hm hf hne⟩

/-- The record of a frame before an access, tracked or not. -/
theorem recordOf_cases (r : Replacer) (n : Nat) :
    r.record? n = some (r.recordOf n) ∨ r.record? n = none ∧ r.recordOf n = .fresh := by
  cases hn : r.record? n with
  | none => exact Or.inr ⟨rfl, by rw [recordOf, hn, Option.getD_none]⟩
  | some f => exact Or.inl (by rw [recordOf_of_record? hn])

theorem touch (h : Histories r) (hn : n ≤ r.settings.numFrames) : Histories (touch n r) := by
  -- the time of the access is new, since no history is ahead of the clock
  have hnew : ∀ {m f}, r.record? m = some f → r.clock + 1 ∉ f.history := by
    intro m f hm ht
    have := h.le_clock hm _ ht
    omega
  refine h.update (record?_touch n r) rfl (Nat.le_succ _) fun g hg => ?_
  obtain rfl := Option.some.inj hg
  have hlength : (r.recordOf n).history.length = min (r.recordOf n).accessCount r.settings.k := by
    rcases recordOf_cases r n with hf | ⟨-, hf⟩
    · exact h.length_eq hf
    · rw [hf]
      exact (Nat.zero_min _).symm
  -- only a frame that is tracked already has times
  have hmem : ∀ t ∈ (r.recordOf n).history, r.record? n = some (r.recordOf n) := by
    intro t ht
    rcases recordOf_cases r n with hf | ⟨-, hf⟩
    · exact hf
    · rw [hf] at ht
      exact absurd ht List.not_mem_nil
  have hincreasing : ((r.recordOf n).history ++ [r.clock + 1]).Pairwise (· < ·) := by
    rw [List.pairwise_append]
    refine ⟨?_, List.pairwise_singleton _ _, ?_⟩
    · rcases recordOf_cases r n with hf | ⟨-, hf⟩
      · exact h.increasing hf
      · rw [hf]
        exact List.Pairwise.nil
    · intro t ht u hu
      rw [List.mem_singleton.mp hu]
      exact Nat.lt_succ_of_le (h.le_clock (hmem t ht) t ht)
  refine ⟨hn, Nat.succ_pos _, FrameRecord.length_history_touch hlength,
    hincreasing.sublist (FrameRecord.history_touch_suffix _ _ _).sublist, ?_, ?_⟩
  · intro t ht
    rcases FrameRecord.mem_history_touch ht with ht | rfl
    · exact (h.le_clock (hmem t ht) t ht).trans (Nat.le_succ _)
    · exact Nat.le_refl _
  · intro m f hm hne t ht htouch
    rcases FrameRecord.mem_history_touch htouch with ht' | rfl
    · exact h.disjoint hm (hmem t ht') hne t ht ht'
    · exact hnew hm ht

end Histories

/-- **Every step keeps the histories.** -/
theorem kept_histories : KeptBySteps Histories where
  touch _ _ hn h := h.touch hn
  enroll n t r h := h.adjust (record?_enroll n t r) rfl rfl fun _ => ⟨rfl, rfl⟩
  age f rank r h := h.adjust (record?_age f rank r) rfl rfl fun _ => ⟨rfl, rfl⟩
  forget n r _ h := h.update (record?_forget n r) rfl (Nat.le_refl _) fun _ hg => by cases hg
  pin n r h := h.adjust (record?_pin n r) rfl rfl fun _ => ⟨rfl, rfl⟩
  unpin n r h := h.adjust (record?_unpin n r) rfl rfl fun _ => ⟨rfl, rfl⟩

end Replacer
end StorageKit
