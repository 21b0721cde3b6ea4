/-
What no failure of a report can break.

An operation that is cut short leaves the replacer in the state of its last report, which is not
`Sound` in general: a frame may be tracked that is in no pool.  What every report finds intact,
and so every operation leaves intact, is less:

* `Intact` — the pools hold tracked frames only, each of them once, and the count of the evictable
  frames is right;
* `Intact.course` — **all states of a course are intact**;
* `intact_runAll` — so is the state after every run, with any logger.

Design notes: in the recent pool a frame is kept by its arrival, so the pools say nothing about the
number of accesses here: a frame with `k` accesses whose last one was cut short is still recent.
-/
import StorageKit.Proofs.Sound

namespace StorageKit
namespace Replacer

variable {r : Replacer} {n m t : Nat} {f : FrameRecord}

/-! ### The pools after a step -/

theorem mem_pooled : n ∈ r.pooled ↔ n ∈ r.recent.frames ∨ n ∈ r.aged.frames := List.mem_append

theorem pooled_enroll_perm (hn : n ∉ r.pooled) :
    (enroll n t r).pooled.Perm (n :: r.pooled.filter (· != n)) := by
  have haged : r.aged.frames.filter (· != n) = r.aged.frames := by
    refine List.filter_eq_self.mpr fun m hm => ?_
    have hne : m ≠ n := fun h => hn (mem_pooled.mpr (Or.inr (h ▸ hm)))
    simpa using hne
  have hpooled : (enroll n t r).pooled =
      r.recent.frames.filter (· != n) ++ n :: r.aged.frames := by
    show (r.recent.add n t).frames ++ _ = _
    rw [ArrivalPool.frames_add, List.append_assoc]
    rfl
  rw [hpooled, pooled, List.filter_append, haged]
  exact List.perm_middle

theorem pooled_age_perm (f : FrameRef) (rank : Nat) (r : Replacer) :
    (age f rank r).pooled.Perm (f.index :: r.pooled.filter (· != f.index)) := by
  have hpooled : (age f rank r).pooled =
      r.recent.frames.filter (· != f.index) ++ (r.aged.add f.index rank).frames := by
    show (r.recent.delete f.index).frames ++ _ = _
    rw [ArrivalPool.frames_delete]
    rfl
  rw [hpooled, pooled, List.filter_append]
  exact ((RankedPool.frames_add_perm f.index rank r.aged).append_left _).trans List.perm_middle

/-- A frame that is in one pool at most is in none when it is forgotten. -/
theorem pooled_forget (h : r.pooled.Nodup) :
    (forget n r).pooled = r.pooled.filter (· != n) := by
  have hpooled : (forget n r).pooled = r.recent.frames.filter (· != n) ++
      (if r.recent.has n then r.aged else r.aged.delete n).frames := by
    show (r.recent.delete n).frames ++ _ = _
    rw [ArrivalPool.frames_delete]
    rfl
  rw [hpooled, pooled, List.filter_append]
  congr 1
  split
  · next hrecent =>
    -- the aged pool is left alone, and does not hold the frame
    obtain ⟨e, he, heq⟩ := List.any_eq_true.mp hrecent
    have hmem : n ∈ r.recent.frames := List.mem_map.mpr ⟨e, he, eq_of_beq heq⟩
    refine (List.filter_eq_self.mpr fun m hm => ?_).symm
    have hne : m ≠ n := fun heq => (List.nodup_append.mp h).2.2 n hmem m hm heq.symm
    simpa using hne
  · exact RankedPool.frames_delete n r.aged

/-! ### Intact states -/

/-- The records are right, the pools hold tracked frames only and each of them once, and the count
of the evictable frames is their number. -/
structure Intact (r : Replacer) : Prop where
  histories : Histories r
  tracked : ∀ n ∈ r.pooled, (r.record? n).isSome = true
  once : r.pooled.Nodup
  size_eq : r.evictableCount = r.evictables.card

theorem intact_new (settings : Settings) : Intact (new settings) where
  histories := histories_new settings
  tracked _ hn := absurd hn List.not_mem_nil
  once := List.nodup_nil
  size_eq := rfl

namespace Intact

theorem not_pooled (h : Intact r) (hn : r.record? n = none) : n ∉ r.pooled := by
  intro hmem
  have htracked := h.tracked n hmem
  rw [hn] at htracked
  cases htracked

/-- A step after which a frame is in the pools that is tracked, beside others that were there. -/
theorem tracked_of_perm {r' : Replacer} (h : Intact r) {x : Option FrameRecord}
    (hrecord : r'.record? = Function.update r.record? n x) (hx : x.isSome = true)
    (hpooled : r'.pooled.Perm (n :: r.pooled.filter (· != n))) :
    (∀ m ∈ r'.pooled, (r'.record? m).isSome = true) ∧ r'.pooled.Nodup := by
  constructor
  · intro m hm
    rw [hrecord]
    by_cases hmn : m = n
    · rw [hmn, Function.update_self, hx]
    · rw [Function.update_of_ne hmn]
      rcases List.mem_cons.mp (hpooled.mem_iff.mp hm) with heq | hmem
      · exact absurd heq hmn
      · exact h.tracked m (List.mem_of_mem_filter hmem)
  · refine hpooled.nodup_iff.mpr (List.nodup_cons.mpr ⟨fun hmem => ?_, h.once.filter _⟩)
    simp at hmem

theorem touch (h : Intact r) (hn : n ≤ r.settings.numFrames) : Intact (touch n r) where
  histories := h.histories.touch hn
  tracked m hm := by
    rw [record?_touch]
    by_cases hmn : m = n
    · rw [hmn, Function.update_self, Option.isSome_some]
    · rw [Function.update_of_ne hmn]
      exact h.tracked m hm
  once := h.once
  size_eq := by
    rw [evictables_touch]
    exact h.size_eq

theorem enroll (h : Intact r) (hf : r.record? n = some f) (hpinned : f.evictable = false)
    (hn : n ∉ r.pooled) : Intact (enroll n t r) := by
  have hrecord := record?_enroll n t r
  rw [hf] at hrecord
  obtain ⟨htracked, honce⟩ := h.tracked_of_perm hrecord rfl (pooled_enroll_perm hn)
  refine ⟨kept_histories.enroll n t r h.histories, htracked, honce, ?_⟩
  rw [card_evictables_join hrecord rfl ((isEvictable_of_record? hf).trans hpinned), ← h.size_eq]
  rfl

theorem age (h : Intact r) {g : FrameRef} (hf : r.record? g.index = some f) (rank : Nat) :
    Intact (age g rank r) := by
  have hrecord := record?_age g rank r
  rw [hf] at hrecord
  obtain ⟨htracked, honce⟩ := h.tracked_of_perm hrecord rfl (pooled_age_perm g rank r)
  refine ⟨kept_histories.age g rank r h.histories, htracked, honce, ?_⟩
  rw [evictables_of_same hrecord (isEvictable_of_record? hf).symm]
  exact h.size_eq

theorem forget (h : Intact r) (hn : r.isEvictable n = true) : Intact (forget n r) := by
  have hrecord := record?_forget n r
  have hpooled := pooled_forget (n := n) h.once
  constructor
  · exact kept_histories.forget n r hn h.histories
  · intro m hm
    rw [hpooled] at hm
    obtain ⟨hmem, hne⟩ := List.mem_filter.mp hm
    have hmn : m ≠ n := by simpa using hne
    rw [hrecord, Function.update_of_ne hmn]
    exact h.tracked m hmem
  · rw [hpooled]
    exact h.once.filter _
  · rw [card_evictables_leave hrecord rfl hn, ← h.size_eq]
    rfl

/-- A change of flags leaves the pools as they are. -/
theorem tracked_of_adjust {r' : Replacer} (h : Intact r) {change : FrameRecord → FrameRecord}
    (hrecord : r'.record? = Function.update r.record? n ((r.record? n).map change)) :
    ∀ m ∈ r.pooled, (r'.record? m).isSome = true := by
  intro m hm
  have htracked := h.tracked m hm
  rw [hrecord]
  by_cases hmn : m = n
  · rw [hmn, Function.update_self, Option.isSome_map, ← hmn, htracked]
  · rw [Function.update_of_ne hmn, htracked]

theorem pin (h : Intact r) (hn : r.isEvictable n = true) : Intact (pin n r) := by
  have hrecord := record?_pin n r
  refine ⟨kept_histories.pin n r h.histories, h.tracked_of_adjust hrecord, h.once, ?_⟩
  have hany : ((r.record? n).map fun f => { f with evictable := false }).any (·.evictable) =
      false := by
    cases r.record? n <;> rfl
  rw [card_evictables_leave hrecord hany hn, ← h.size_eq]
  rfl

theorem unpin (h : Intact r) (hf : r.record? n = some f) (hpinned : f.evictable = false) :
    Intact (unpin n r) := by
  have hrecord := record?_unpin n r
  refine ⟨kept_histories.unpin n r h.histories, h.tracked_of_adjust hrecord, h.once, ?_⟩
  rw [hf] at hrecord
  rw [card_evictables_join hrecord rfl ((isEvictable_of_record? hf).trans hpinned), ← h.size_eq]
  rfl

/-! ### Courses -/

theorem kept_forgetting : KeptByForgetting Intact := ⟨fun _ _ hn h => h.forget hn⟩

/-- A frame that is accessed for the first time is in no pool when it is enrolled. -/
theorem admitted (h : Intact r) (f : FrameRef) (hrange : f.index ≤ r.settings.numFrames)
    (hn : r.record? f.index = none) : Intact (admitted f r) := by
  have htouch := h.touch hrange
  have hrecord : (Replacer.touch f.index r).record? f.index =
      some ⟨[r.clock + 1], 1, false, false⟩ := by
    rw [record?_touch_of_untracked hn, Function.update_self]
  have henroll : Intact (Replacer.enroll f.index (r.clock + 1) (Replacer.touch f.index r)) :=
    htouch.enroll hrecord rfl (h.not_pooled hn)
  rw [Replacer.admitted]
  split
  · refine henroll.age (f := ⟨[r.clock + 1], 1, true, false⟩) ?_ _
    rw [record?_enroll, Function.update_self, hrecord]
    rfl
  · exact henroll

theorem accessed (h : Intact r) (f : FrameRef) (hrange : f.index ≤ r.settings.numFrames) :
    Intact (accessed f r) := by
  cases hn : r.record? f.index with
  | none =>
    rw [accessed_of_untracked f hn]
    rw [← settings_withRoom r] at hrange
    -- the frame itself is not evicted when room is made for it
    refine (kept_forgetting.withRoom h).admitted f hrange ?_
    rw [record?_withRoom (isEvictable_of_untracked hn), hn]
  | some g =>
    have htouch := h.touch hrange
    rw [accessed_of_tracked f hn (h.histories.accessed hn)]
    split
    · refine htouch.age (f := g.touch r.settings.k (r.clock + 1)) ?_ _
      rw [record?_touch, Function.update_self, recordOf_of_record? hn]
    · exact htouch

/-- **All states of a course are intact.** -/
theorem course (op : Operation) (r : Replacer) (h : Intact r) : (course op r).Always Intact := by
  refine course_cases (Q := fun _ c => c.Always Intact) op r ?_ ?_ ?_ ?_ ?_ ?_
  · exact fun _ _ _ => ⟨by simp [Course.answer], h⟩
  · intro x kind f hx
    have hrange := (frame?_spec hx).2
    exact ⟨kept_forgetting.accessReports f kind (h.touch hrange), h.accessed f hrange⟩
  · exact ⟨kept_forgetting.evictReports h, kept_forgetting.withoutVictim h⟩
  · -- a frame that may not be evicted is still there when there is room for it
    intro x f record _ hf hpinned
    have hrecord := (record?_withRoom ((isEvictable_of_record? hf).trans hpinned)).trans hf
    exact ⟨kept_forgetting.roomReports f h, (kept_forgetting.withRoom h).unpin hrecord hpinned⟩
  · exact fun x f record _ hf he =>
      ⟨by simp [Course.answer], h.pin ((isEvictable_of_record? hf).trans he)⟩
  · intro x f record _ hf he
    have hforget := h.forget ((isEvictable_of_record? hf).trans he)
    exact ⟨by simpa using hforget, hforget⟩

end Intact

/-- **The state after every run is intact**, whatever the logger does. -/
theorem intact_runAll {σ : Type} (logger : Logger σ) (ops : List Operation) {s : Observed σ}
    (h : Intact s.replacer) (hfree : s.replacer.latch = .free) :
    Intact (runAll logger ops s).2.replacer :=
  runAll_of_course Intact.course logger ops h hfree

end Replacer
end StorageKit
