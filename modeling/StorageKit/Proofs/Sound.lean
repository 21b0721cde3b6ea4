/-
The state of a replacer between operations.

As long as no report fails, the two pools list the tracked frames of the two kinds, each in the
order in which they become victims, and the count of the evictable frames is right and within its
bound.

* `Sound` — the invariant;
* `Sound.nextVictim_isSome` — a replacer with an evictable frame has a victim;
* `Sound.withRoom` — making room keeps the invariant and leaves room for one frame;
* `accessed_of_untracked` — a first access makes room before anything else, as far as the final
  state is concerned;
* `Sound.course` — **the course of every operation keeps the invariant**.
-/
import StorageKit.Proofs.Histories
import StorageKit.Proofs.Lists

namespace StorageKit
namespace Replacer

/-- What holds between operations that do not fail in a report: the recent pool lists the frames
with fewer than `k` accesses in the order of their first access, the aged pool the others in the
order of their `k`-th most recent access, and the size is the number of evictable frames. -/
structure Sound (r : Replacer) : Prop where
  histories : Histories r
  recent : Lists r.record? (fun f => f.accessCount < r.settings.k) r.recent.entries
  aged : Lists r.record? (fun f => r.settings.k ≤ f.accessCount) r.aged.entries
  size_eq : r.evictableCount = r.evictables.card
  size_le : r.evictableCount ≤ r.settings.numFrames

variable {r r' : Replacer} {n : Nat} {f : FrameRecord}

theorem sound_new (settings : Settings) : Sound (new settings) where
  histories := histories_new settings
  recent := lists_nil fun _ => rfl
  aged := lists_nil fun _ => rfl
  size_eq := rfl
  size_le := Nat.zero_le _

theorem Histories.exists_head? (h : Histories r) (hf : r.record? n = some f) :
    ∃ t, f.history.head? = some t :=
  FrameRecord.exists_head? r.settings.k_pos (h.accessed hf) (h.length_eq hf)

namespace Sound

/-! ### Victims -/

theorem mem_recent (h : Sound r) :
    n ∈ r.recent.frames ↔ ∃ f, r.record? n = some f ∧ f.accessCount < r.settings.k :=
  h.recent.mem_frames fun _ hf => h.histories.exists_head? hf

theorem mem_aged (h : Sound r) :
    n ∈ r.aged.frames ↔ ∃ f, r.record? n = some f ∧ r.settings.k ≤ f.accessCount :=
  h.aged.mem_frames fun _ hf => h.histories.exists_head? hf

/-- The frames in the pools are the tracked ones. -/
theorem mem_pooled (h : Sound r) : n ∈ r.pooled ↔ ∃ f, r.record? n = some f := by
  rw [pooled, List.mem_append, h.mem_recent, h.mem_aged, ← exists_or]
  refine exists_congr fun f => ?_
  rw [← and_or_left, and_iff_left (lt_or_ge _ _)]

/-- No frame is in the pools twice. -/
theorem once (h : Sound r) : r.pooled.Nodup := by
  refine List.nodup_append.mpr ⟨h.recent.nodup_frames, h.aged.nodup_frames, ?_⟩
  -- a frame has fewer than `k` accesses or it has not
  rintro a ha b hb rfl
  obtain ⟨f, hf, hlt⟩ := h.mem_recent.mp ha
  obtain ⟨g, hg, hge⟩ := h.mem_aged.mp hb
  obtain rfl := Option.some.inj (hf.symm.trans hg)
  exact absurd hge (not_le.mpr hlt)

/-- A replacer with an evictable frame has a victim. -/
theorem nextVictim_isSome (h : Sound r) (hpos : 0 < r.evictableCount) :
    ∃ victim, r.nextVictim = some victim := by
  have hcount : r.evictableCount ≠ 0 := by omega
  rw [h.size_eq, Finset.card_pos] at hpos
  obtain ⟨n, hn⟩ := hpos
  rw [mem_evictables] at hn
  obtain ⟨f, hf, -⟩ := isEvictable_eq_true.mp hn
  exact exists_nextVictim (h.mem_pooled.mpr ⟨f, hf⟩) hn hcount

/-! ### Frames that leave -/

theorem forget (h : Sound r) (hn : r.isEvictable n = true) : Sound (forget n r) := by
  obtain ⟨f, hf, -⟩ := isEvictable_eq_true.mp hn
  have hrecord := record?_forget n r
  constructor
  · exact kept_histories.forget n r hn h.histories
  · rw [hrecord]
    exact h.recent.drop fun _ hg => by cases hg
  · rw [hrecord]
    show Lists _ _ (if r.recent.has n then r.aged else r.aged.delete n).entries
    split
    · next hrecent =>
      -- a recent frame is not in the aged pool, which may stay as it is
      refine h.aged.keep fun t => ⟨?_, ?_⟩
      · rintro ⟨g, hg, -⟩
        cases hg
      rintro ⟨g, hg, hge, -⟩
      obtain ⟨e, he, hen⟩ := List.any_eq_true.mp hrecent
      obtain ⟨g', hg', hlt⟩ := h.mem_recent.mp (List.mem_map.mpr ⟨e, he, eq_of_beq hen⟩)
      obtain rfl := Option.some.inj (hg.symm.trans hg')
      exact absurd hge (not_le.mpr hlt)
    · exact h.aged.drop fun _ hg => by cases hg
  · rw [card_evictables_leave hrecord rfl hn, ← h.size_eq]
    rfl
  · exact (Nat.sub_le _ _).trans h.size_le

theorem withoutVictim (h : Sound r) : Sound r.withoutVictim :=
  KeptByForgetting.withoutVictim ⟨fun _ _ hn h => h.forget hn⟩ h

theorem withRoom (h : Sound r) :
    Sound r.withRoom ∧ r.withRoom.evictableCount < r.settings.numFrames :=
  ⟨KeptByForgetting.withRoom ⟨fun _ _ hn h => h.forget hn⟩ h,
    evictableCount_withRoom_lt h.size_le h.nextVictim_isSome⟩

/-! ### Frames that stay -/

theorem pin (h : Sound r) (hn : r.isEvictable n = true) : Sound (pin n r) := by
  have hrecord := record?_pin n r
  constructor
  · exact kept_histories.pin n r h.histories
  · rw [hrecord]
    exact h.recent.adjust fun _ => ⟨Iff.rfl, rfl⟩
  · rw [hrecord]
    exact h.aged.adjust fun _ => ⟨Iff.rfl, rfl⟩
  · have hany : ((r.record? n).map fun f => { f with evictable := false }).any (·.evictable) =
        false := by
      cases r.record? n <;> rfl
    rw [card_evictables_leave hrecord hany hn, ← h.size_eq]
    rfl
  · exact (Nat.sub_le _ _).trans h.size_le

theorem unpin (h : Sound r) (hf : r.record? n = some f) (hpinned : f.evictable = false)
    (hroom : r.evictableCount < r.settings.numFrames) : Sound (unpin n r) := by
  have hrecord := record?_unpin n r
  constructor
  · exact kept_histories.unpin n r h.histories
  · rw [hrecord]
    exact h.recent.adjust fun _ => ⟨Iff.rfl, rfl⟩
  · rw [hrecord]
    exact h.aged.adjust fun _ => ⟨Iff.rfl, rfl⟩
  · -- a pinned frame was not counted
    have hn : r.isEvictable n = false := (isEvictable_of_record? hf).trans hpinned
    rw [hf] at hrecord
    rw [card_evictables_join hrecord rfl hn, ← h.size_eq]
    rfl
  · exact hroom

end Sound

/-! ### Accesses -/

/-- A first access to a frame when there is room for it. -/
def admitted (f : FrameRef) (r : Replacer) : Replacer :=
  let u := enroll f.index (r.clock + 1) (touch f.index r)
  if r.settings.k ≤ 1 then age f (r.clock + 1) u else u

/-- The record of a frame after its first access. -/
theorem record?_touch_of_untracked (hn : r.record? n = none) :
    (touch n r).record? =
      Function.update r.record? n (some ⟨[r.clock + 1], 1, false, false⟩) := by
  have hk := r.settings.k_pos
  have hfresh : r.recordOf n = .fresh := by rw [recordOf, hn, Option.getD_none]
  have hhistory : (FrameRecord.fresh.touch r.settings.k (r.clock + 1)).history = [r.clock + 1] :=
    FrameRecord.history_touch_of_lt hk
  have htouch : FrameRecord.fresh.touch r.settings.k (r.clock + 1) =
      ⟨[r.clock + 1], 1, false, false⟩ := by
    rw [← hhistory]
    rfl
  rw [record?_touch, hfresh, htouch]

theorem withRoom_touch (hn : r.record? n = none) :
    (touch n r).withRoom = touch n r.withRoom := by
  unfold withRoom withoutVictim
  rw [isFull_touch, nextVictim_touch]
  split
  · cases hv : r.nextVictim with
    | none => rfl
    | some victim =>
      -- the victim is tracked, so it is another frame
      have hne : victim.index ≠ n := by
        rintro rfl
        have he := nextVictim_spec hv
        rw [isEvictable_of_untracked hn] at he
        exact absurd he (by simp)
      exact forget_touch_comm hne r
  · rfl

theorem settings_withRoom (r : Replacer) : r.withRoom.settings = r.settings :=
  (kept_settings r.settings).withRoom rfl

/-- A first access makes room before anything else, as far as the final state is concerned. -/
theorem accessed_of_untracked (f : FrameRef) (hn : r.record? f.index = none) :
    accessed f r = admitted f r.withRoom := by
  have hrecord : (touch f.index r).recordOf f.index = ⟨[r.clock + 1], 1, false, false⟩ := by
    apply recordOf_of_record?
    rw [record?_touch_of_untracked hn, Function.update_self]
  have hclock : r.withRoom.clock = r.clock := by
    rw [withRoom, withoutVictim]
    split
    · cases r.nextVictim <;> rfl
    · rfl
  unfold accessed admitted
  dsimp only
  rw [hrecord, withRoom_touch hn, settings_withRoom]
  rw [hclock]
  rfl

theorem exists_record?_admitted (f : FrameRef) (hn : r.record? f.index = none) :
    ∃ signed, (admitted f r).record? =
      Function.update r.record? f.index (some ⟨[r.clock + 1], 1, true, signed⟩) := by
  have henroll : (enroll f.index (r.clock + 1) (touch f.index r)).record? =
      Function.update r.record? f.index (some ⟨[r.clock + 1], 1, true, false⟩) := by
    rw [record?_enroll, record?_touch_of_untracked hn, Function.update_idem, Function.update_self]
    rfl
  unfold admitted
  dsimp only
  split
  · refine ⟨f = .minusZero, ?_⟩
    rw [record?_age, henroll, Function.update_idem, Function.update_self]
    rfl
  · exact ⟨false, henroll⟩

/-- A later access takes no notice of the frames that may be evicted. -/
theorem accessed_of_tracked (f : FrameRef) {g : FrameRecord} (hg : r.record? f.index = some g)
    (hpos : 0 < g.accessCount) :
    accessed f r =
      if r.settings.k ≤ g.accessCount + 1 then
        age f ((g.touch r.settings.k (r.clock + 1)).history.head?.getD (r.clock + 1))
          (touch f.index r)
      else touch f.index r := by
  have hrecord : (touch f.index r).recordOf f.index = g.touch r.settings.k (r.clock + 1) := by
    rw [recordOf_touch_self, recordOf_of_record? hg]
  have hcount : (g.touch r.settings.k (r.clock + 1)).accessCount = g.accessCount + 1 := rfl
  have hlater : g.accessCount + 1 ≠ 1 := by omega
  unfold accessed
  dsimp only
  rw [hrecord, hcount, if_neg hlater]
  rfl

theorem exists_record?_accessed (f : FrameRef) {g : FrameRecord}
    (hg : r.record? f.index = some g) (hpos : 0 < g.accessCount) :
    ∃ signed, (accessed f r).record? = Function.update r.record? f.index
      (some { g.touch r.settings.k (r.clock + 1) with signed }) := by
  have htouch := record?_touch f.index r
  rw [recordOf_of_record? hg] at htouch
  rw [accessed_of_tracked f hg hpos]
  split
  · refine ⟨f = .minusZero, ?_⟩
    rw [record?_age, htouch, Function.update_idem, Function.update_self]
    rfl
  · exact ⟨g.signed, htouch⟩

namespace Sound

/-- A frame that was not tracked joins the frames that may be evicted. -/
theorem card_evictables_of_new (h : Sound r) {x : FrameRecord} (hx : x.evictable = true)
    (hn : r.record? n = none) (hrecord : r'.record? = Function.update r.record? n (some x)) :
    r'.evictables.card = r.evictableCount + 1 := by
  rw [card_evictables_join hrecord hx (isEvictable_of_untracked hn), h.size_eq]

theorem time_le_clock (h : Sound r) {kind : FrameRecord → Prop} {entries : List (Nat × Nat)}
    (hl : Lists r.record? kind entries) : ∀ e ∈ entries, e.2 ≤ r.clock := by
  rintro ⟨m, t⟩ he
  obtain ⟨f, hf, -, ht⟩ := (hl.mem_iff m t).mp he
  exact h.histories.le_clock hf t (List.mem_of_mem_head? ht)

theorem admitted (h : Sound r) (f : FrameRef) (hrange : f.index ≤ r.settings.numFrames)
    (hn : r.record? f.index = none) (hroom : r.evictableCount < r.settings.numFrames) :
    Sound (admitted f r) := by
  obtain ⟨signed, hrecord⟩ := exists_record?_admitted f hn
  have hsize := h.card_evictables_of_new rfl hn hrecord
  have hhistories := kept_histories.enroll f.index (r.clock + 1) _
    (kept_histories.touch f.index r hrange h.histories)
  -- the time of the access is later than every time in the pools
  have hlast : ∀ e ∈ r.recent.entries, e.2 < r.clock + 1 := fun e he =>
    Nat.lt_succ_of_le (h.time_le_clock h.recent e he)
  have hother : ∀ e ∈ r.aged.entries, e.1 ≠ f.index → e.2 ≠ r.clock + 1 := fun e he _ =>
    Nat.ne_of_lt (Nat.lt_succ_of_le (h.time_le_clock h.aged e he))
  unfold Replacer.admitted at hrecord hsize ⊢
  dsimp only at hrecord hsize ⊢
  split at hrecord
  · next hk1 =>
    rw [if_pos hk1] at hsize ⊢
    refine ⟨kept_histories.age f _ _ hhistories, ?_, ?_, hsize.symm, hroom⟩
    · -- with `k = 1` the frame only passes through the recent pool
      rw [hrecord]
      have hentries : (r.recent.add f.index (r.clock + 1)).delete f.index =
          r.recent.delete f.index := by
        simp [ArrivalPool.add, ArrivalPool.delete]
      show Lists _ _ ((r.recent.add f.index (r.clock + 1)).delete f.index).entries
      rw [hentries]
      refine h.recent.drop fun g hg => ?_
      obtain rfl := Option.some.inj hg
      exact not_lt.mpr hk1
    · rw [hrecord]
      exact h.aged.addRanked hk1 rfl hother
  · next hk1 =>
    rw [if_neg hk1] at hsize ⊢
    refine ⟨hhistories, ?_, ?_, hsize.symm, hroom⟩
    · rw [hrecord]
      exact h.recent.addLast (not_le.mp hk1) rfl hlast
    · rw [hrecord]
      refine h.aged.keep fun t => ⟨?_, ?_⟩
      · rintro ⟨g, hg, hge, -⟩
        obtain rfl := Option.some.inj hg
        exact absurd hge hk1
      · rintro ⟨g, hg, -⟩
        rw [hn] at hg
        cases hg

/-- A later access before the `k`-th changes neither pool. -/
theorem touch (h : Sound r) (hf : r.record? n = some f)
    (hlt : f.accessCount + 1 < r.settings.k) : Sound (touch n r) := by
  have hrecord := record?_touch n r
  rw [recordOf_of_record? hf] at hrecord
  have hlength := h.histories.length_eq hf
  -- there is room in the history, so its first time stays
  have hhead : (f.touch r.settings.k (r.clock + 1)).history.head? = f.history.head? := by
    obtain ⟨t, ht⟩ := h.histories.exists_head? hf
    rw [FrameRecord.history_touch_of_lt (by omega), List.head?_append, ht]
    rfl
  constructor
  · exact kept_histories.touch n r (h.histories.inRange hf) h.histories
  · rw [hrecord]
    refine h.recent.keep fun t => ⟨?_, ?_⟩
    · rintro ⟨g, hg, -, ht⟩
      obtain rfl := Option.some.inj hg
      exact ⟨f, hf, by omega, hhead ▸ ht⟩
    · rintro ⟨g, hg, -, ht⟩
      obtain rfl := Option.some.inj (hf.symm.trans hg)
      exact ⟨_, rfl, hlt, hhead.trans ht⟩
  · rw [hrecord]
    refine h.aged.keep fun t => ⟨?_, ?_⟩
    · rintro ⟨g, hg, hge, -⟩
      obtain rfl := Option.some.inj hg
      exact absurd hge (not_le.mpr hlt)
    · rintro ⟨g, hg, hge, -⟩
      obtain rfl := Option.some.inj (hf.symm.trans hg)
      omega
  · rw [evictables_of_same hrecord (isEvictable_of_record? hf).symm]
    exact h.size_eq
  · exact h.size_le

/-- From the `k`-th access on, an access puts the frame at its new rank in the aged pool. -/
theorem age (h : Sound r) {f : FrameRef} {g : FrameRecord} (hg : r.record? f.index = some g)
    (hge : r.settings.k ≤ g.accessCount + 1) :
    Sound (age f ((g.touch r.settings.k (r.clock + 1)).history.head?.getD (r.clock + 1))
      (Replacer.touch f.index r)) := by
  have htouch := kept_histories.touch f.index r (h.histories.inRange hg) h.histories
  have hrecord := record?_touch f.index r
  rw [recordOf_of_record? hg] at hrecord
  set g' := g.touch r.settings.k (r.clock + 1) with hg'
  have hself : (Replacer.touch f.index r).record? f.index = some g' := by
    rw [hrecord, Function.update_self]
  obtain ⟨rank, hrank⟩ := htouch.exists_head? hself
  rw [hrank, Option.getD_some]
  have hrecord' : (Replacer.age f rank (Replacer.touch f.index r)).record? =
      Function.update r.record? f.index (some { g' with signed := f = .minusZero }) := by
    rw [record?_age, hself, hrecord, Function.update_idem]
    rfl
  constructor
  · exact kept_histories.age f rank _ htouch
  · rw [hrecord']
    refine h.recent.drop fun x hx => ?_
    obtain rfl := Option.some.inj hx
    exact not_lt.mpr hge
  · rw [hrecord']
    refine h.aged.addRanked hge hrank ?_
    rintro ⟨m, t⟩ he hne rfl
    -- the rank would be a time in the histories of two frames
    obtain ⟨x, hx, -, ht⟩ := (h.aged.mem_iff m t).mp he
    have hx' : (Replacer.touch f.index r).record? m = some x := by
      rw [hrecord, Function.update_of_ne hne, hx]
    exact htouch.disjoint hx' hself hne t (List.mem_of_mem_head? ht) (List.mem_of_mem_head? hrank)
  · rw [evictables_of_same hrecord' (isEvictable_of_record? hg).symm]
    exact h.size_eq
  · exact h.size_le

theorem accessed (h : Sound r) (f : FrameRef) (hrange : f.index ≤ r.settings.numFrames) :
    Sound (accessed f r) := by
  cases hn : r.record? f.index with
  | none =>
    rw [accessed_of_untracked f hn]
    obtain ⟨hroom, hlt⟩ := h.withRoom
    rw [← settings_withRoom r] at hrange hlt
    refine hroom.admitted f hrange ?_ hlt
    rw [record?_withRoom (isEvictable_of_untracked hn), hn]
  | some g =>
    rw [accessed_of_tracked f hn (h.histories.accessed hn)]
    split
    · next hge => exact h.age hn hge
    · next hlt => exact h.touch hn (not_le.mp hlt)

/-- **The course of every operation keeps the invariant.** -/
theorem course (h : Sound r) (op : Operation) : Sound (course op r).final := by
  refine course_cases (Q := fun _ c => Sound c.final) op r ?_ ?_ ?_ ?_ ?_ ?_
  · exact fun _ _ _ => h
  · exact fun x kind f hx => h.accessed f (frame?_spec hx).2
  · exact h.withoutVictim
  · -- a frame that may not be evicted is still there when there is room for it
    intro x f record _ hf hpinned
    obtain ⟨hroom, hlt⟩ := h.withRoom
    rw [← settings_withRoom r] at hlt
    refine hroom.unpin ?_ hpinned hlt
    rw [record?_withRoom ((isEvictable_of_record? hf).trans hpinned), hf]
  · exact fun x f record _ hf he => h.pin ((isEvictable_of_record? hf).trans he)
  · exact fun x f record _ hf he => h.forget ((isEvictable_of_record? hf).trans he)

end Sound

end Replacer
end StorageKit
