/-
The capacity of a replacer with loggers that fail.

A replacer keeps at most `numFrames` evictable frames and can evict each of them, as long as every
evictable frame is in a pool.  A first access that is cut short leaves its frame in no pool, and
such a stray frame is harmless until it is unpinned: then it is counted, and no search finds it.

* `Dependable` — the size is within its bound, and where it is not zero there is a victim;
* `UnpinsStray` — an operation that unpins a frame which is in no pool;
* `capacity_runAll` — **all states of a run are dependable exactly if no operation of the run unpins
  a stray frame**;
* `not_dependable_flaky` — a run with one failing report after which they are not.
-/
import StorageKit.Proofs.Ledger

namespace StorageKit
namespace Replacer

variable {σ : Type} {r : Replacer} {n : Nat} {f : FrameRecord}

/-! ### States in which every evictable frame can be found -/

/-- Every evictable frame is in a pool, and there are not too many of them. -/
structure Ready (r : Replacer) : Prop where
  intact : Intact r
  size_le : r.evictableCount ≤ r.settings.numFrames
  reachable : ∀ n, r.isEvictable n = true → n ∈ r.pooled

theorem ready_new (settings : Settings) : Ready (new settings) where
  intact := intact_new settings
  size_le := Nat.zero_le _
  reachable n hn := by cases hn

/-- Where the count is not zero there is an evictable frame. -/
theorem Intact.exists_evictable (h : Intact r) (hpos : 0 < r.evictableCount) :
    ∃ n, r.isEvictable n = true := by
  rw [h.size_eq, Finset.card_pos] at hpos
  obtain ⟨n, hn⟩ := hpos
  exact ⟨n, mem_evictables.mp hn⟩

/-- The evictable frames are in range, so there is at most one too many. -/
theorem Intact.size_le_succ (h : Intact r) : r.evictableCount ≤ r.settings.numFrames + 1 := by
  have hsub : r.evictables ⊆ Finset.range (r.settings.numFrames + 1) := by
    intro n hn
    obtain ⟨f, hf, -⟩ := isEvictable_eq_true.mp (mem_evictables.mp hn)
    exact Finset.mem_range.mpr (Nat.lt_succ_of_le (h.histories.inRange hf))
  rw [h.size_eq]
  exact (Finset.card_le_card hsub).trans (Finset.card_range _).le

namespace Ready

theorem nextVictim_isSome (h : Ready r) (hpos : 0 < r.evictableCount) :
    ∃ victim, r.nextVictim = some victim := by
  obtain ⟨n, hn⟩ := h.intact.exists_evictable hpos
  exact exists_nextVictim (h.reachable n hn) hn hpos.ne'

theorem touch (h : Ready r) (hn : n ≤ r.settings.numFrames) : Ready (touch n r) where
  intact := h.intact.touch hn
  size_le := h.size_le
  reachable m hm := h.reachable m (by rwa [isEvictable_touch] at hm)

theorem forget (h : Ready r) (hn : r.isEvictable n = true) : Ready (forget n r) := by
  refine ⟨h.intact.forget hn, (Nat.sub_le _ _).trans h.size_le, fun m hm => ?_⟩
  obtain ⟨f, hf, he⟩ := isEvictable_eq_true.mp hm
  obtain ⟨hmn, hf'⟩ := (record?_cases (record?_forget n r) hf).resolve_left fun h => by cases h.2
  exact mem_pooled_forget hmn (h.reachable m (isEvictable_eq_true.mpr ⟨f, hf', he⟩))

theorem kept_forgetting : KeptByForgetting Ready := ⟨fun _ _ hn h => h.forget hn⟩

theorem withRoom (h : Ready r) :
    Ready r.withRoom ∧ r.withRoom.evictableCount < r.settings.numFrames :=
  ⟨kept_forgetting.withRoom h, evictableCount_withRoom_lt h.size_le h.nextVictim_isSome⟩

/-- A step that changes the record of one frame, which is in a pool if it may be evicted then. -/
theorem update {r' : Replacer} {x : Option FrameRecord} (h : Ready r) (hintact : Intact r')
    (hsize : r'.evictableCount ≤ r'.settings.numFrames)
    (hrecord : r'.record? = Function.update r.record? n x)
    (hself : x.any (·.evictable) = true → n ∈ r'.pooled)
    (hother : ∀ m, m ≠ n → m ∈ r.pooled → m ∈ r'.pooled) : Ready r' := by
  refine ⟨hintact, hsize, fun m hm => ?_⟩
  obtain ⟨f, hf, he⟩ := isEvictable_eq_true.mp hm
  rcases record?_cases hrecord hf with ⟨rfl, hx⟩ | ⟨hmn, hf'⟩
  · refine hself ?_
    rw [hx, Option.any_some, he]
  · exact hother m hmn (h.reachable m (isEvictable_eq_true.mpr ⟨f, hf', he⟩))

theorem admitted (h : Ready r) (f : FrameRef) (hrange : f.index ≤ r.settings.numFrames)
    (hn : r.record? f.index = none) (hroom : r.evictableCount < r.settings.numFrames) :
    Ready (admitted f r) := by
  have hintact := h.intact.admitted f hrange hn
  obtain ⟨signed, hrecord⟩ := exists_record?_admitted f hn
  have hpooled : ∀ m, m = f.index ∨ m ∈ r.pooled → m ∈ (Replacer.admitted f r).pooled := by
    intro m hm
    rw [Replacer.admitted]
    split
    · exact mem_pooled_age f _ (hm.imp_right fun hmem => mem_pooled_enroll _ (Or.inr hmem))
    · exact mem_pooled_enroll _ hm
  have hsize : (Replacer.admitted f r).evictableCount ≤
      (Replacer.admitted f r).settings.numFrames := by
    rw [Replacer.admitted]
    split <;> exact hroom
  exact h.update hintact hsize hrecord (fun _ => hpooled _ (Or.inl rfl))
    fun m _ hm => hpooled m (Or.inr hm)

theorem accessed (h : Ready r) (f : FrameRef) (hrange : f.index ≤ r.settings.numFrames) :
    Ready (accessed f r) := by
  cases hn : r.record? f.index with
  | none =>
    rw [accessed_of_untracked f hn]
    obtain ⟨hroom, hlt⟩ := h.withRoom
    rw [← settings_withRoom r] at hrange hlt
    refine hroom.admitted f hrange ?_ hlt
    rw [record?_withRoom (isEvictable_of_untracked hn), hn]
  | some g =>
    have hintact := h.intact.accessed f hrange
    have htouch := h.touch hrange
    rw [accessed_of_tracked f hn (h.intact.histories.accessed hn)] at hintact ⊢
    split at hintact
    · next hge =>
      rw [if_pos hge]
      exact htouch.update hintact h.size_le (record?_age f _ _)
        (fun _ => mem_pooled_age f _ (Or.inl rfl)) fun m _ hm => mem_pooled_age f _ (Or.inr hm)
    · next hlt =>
      rw [if_neg hlt]
      exact htouch

theorem pin (h : Ready r) (hn : r.isEvictable n = true) : Ready (pin n r) := by
  refine h.update (h.intact.pin hn) ((Nat.sub_le _ _).trans h.size_le) (record?_pin n r)
    (fun hany => ?_) fun m _ hm => hm
  cases hf : r.record? n with
  | none => rw [hf] at hany; cases hany
  | some f => rw [hf] at hany; cases hany

theorem unpin (h : Ready r) (hf : r.record? n = some f) (hpinned : f.evictable = false)
    (hroom : r.evictableCount < r.settings.numFrames) (hn : n ∈ r.pooled) : Ready (unpin n r) :=
  h.update (h.intact.unpin hf hpinned) hroom (record?_unpin n r) (fun _ => hn) fun _ _ hm => hm

/-- A course keeps ready states, but for one that ends with the unpinning of a stray frame. -/
theorem course (h : Ready r) (op : Operation) :
    (∀ report ∈ (course op r).reports, Ready report.2) ∧
      (Ready (course op r).final ∨ (course op r).outcome = .ok .done ∧
        ∃ n, op.unpins n = true ∧ IsPinned n r ∧ n ∉ r.pooled) := by
  refine course_cases (Q := fun op c => (∀ report ∈ c.reports, Ready report.2) ∧ (Ready c.final ∨
    c.outcome = .ok .done ∧ ∃ n, op.unpins n = true ∧ IsPinned n r ∧ n ∉ r.pooled)) op r
    ?_ ?_ ?_ ?_ ?_ ?_
  · exact fun _ _ _ => ⟨by simp [Course.answer], Or.inl h⟩
  · intro x kind f hx
    have hrange := (frame?_spec hx).2
    exact ⟨kept_forgetting.accessReports f kind (h.touch hrange), Or.inl (h.accessed f hrange)⟩
  · exact ⟨kept_forgetting.evictReports h, Or.inl (kept_forgetting.withoutVictim h)⟩
  · intro x f record hx hf hpinned
    have hrecord := (record?_withRoom ((isEvictable_of_record? hf).trans hpinned)).trans hf
    refine ⟨kept_forgetting.roomReports f h, ?_⟩
    by_cases hmem : f.index ∈ r.pooled
    · -- making room takes only evictable frames from the pools, and this one was not
      obtain ⟨hroom, hlt⟩ := h.withRoom
      rw [← settings_withRoom r] at hlt
      have hlater := (kept_later r).withRoom (later_refl r)
      have hmem' := hlater.pooled hmem (by rw [hrecord, Option.isSome_some])
      exact Or.inl (hroom.unpin hrecord hpinned hlt hmem')
    · have hop : (Operation.setEvictable x true).unpins f.index = true :=
        decide_eq_true (frame?_spec hx).1
      exact Or.inr ⟨rfl, f.index, hop, ⟨record, hf, hpinned⟩, hmem⟩
  · exact fun x f record _ hf he =>
      ⟨by simp [Course.answer], Or.inl (h.pin ((isEvictable_of_record? hf).trans he))⟩
  · intro x f record _ hf he
    have hforget := h.forget ((isEvictable_of_record? hf).trans he)
    exact ⟨by simpa using hforget, Or.inl hforget⟩

end Ready

/-! ### Operations with a logger -/

/-- The operation is answered, and it has unpinned a frame that is in no pool. -/
def UnpinsStray (logger : Logger σ) (op : Operation) (s : Observed σ) : Prop :=
  (run logger op s).1 = .ok .done ∧
    ∃ n, op.unpins n = true ∧ IsPinned n s.replacer ∧ n ∉ s.replacer.pooled

section

variable {logger : Logger σ} {op : Operation} {s : Observed σ}

theorem ready_run (logger : Logger σ) (op : Operation) (h : Ready s.replacer)
    (hfree : s.replacer.latch = .free) :
    Ready (run logger op s).2.replacer ∨ UnpinsStray logger op s := by
  obtain ⟨hreports, hfinal⟩ := h.course op
  rcases run_cases logger op hfree with ⟨report, hr, -, -, hstop⟩ | ⟨houtcome, hend⟩
  · rw [hstop]
    exact Or.inl (hreports report hr)
  · rw [hend]
    exact hfinal.imp_right fun hstray => ⟨houtcome.trans hstray.1, hstray.2⟩

/-- The frame that was unpinned may be evicted now, and is still in no pool. -/
theorem exists_unreachable (hh : Histories s.replacer) (hfree : s.replacer.latch = .free)
    (h : UnpinsStray logger op s) :
    ∃ n, (run logger op s).2.replacer.isEvictable n = true ∧
      n ∉ (run logger op s).2.replacer.pooled := by
  obtain ⟨hdone, n, hop, ⟨g, hg, hpinned⟩, hn⟩ := h
  cases op with
  | setEvictable x evictable =>
    obtain ⟨rfl, hx⟩ : evictable = true ∧ x.toNat? = some n := by
      simpa [Operation.unpins] using hop
    obtain ⟨f, hf, rfl⟩ := frame?_of_toNat? hx (hh.inRange hg)
    have hcourse : course (.setEvictable x true) s.replacer =
        ⟨roomReports f s.replacer, .ok .done, unpin f.index s.replacer.withRoom⟩ := by
      show onFrame x s.replacer _ = _
      rw [onFrame, hf]
      dsimp only
      rw [hg]
      dsimp only
      rw [hpinned, if_neg Bool.false_ne_true, if_pos rfl]
    rcases run_cases logger (.setEvictable x true) hfree with
      ⟨-, -, problem, herror, -⟩ | ⟨-, hend⟩
    · rw [herror] at hdone
      cases hdone
    · rw [hend, hcourse]
      refine ⟨f.index, ?_, ?_⟩
      · have hrecord := record?_withRoom ((isEvictable_of_record? hg).trans hpinned)
        show (unpin f.index s.replacer.withRoom).isEvictable f.index = true
        rw [isEvictable, record?_unpin, Function.update_self, hrecord, hg]
        rfl
      · -- making room takes frames from the pools and adds none
        have hkept : KeptByForgetting fun r => f.index ∉ r.pooled :=
          ⟨fun m r _ hnot hmem => hnot ((pooled_forget_sublist m r).subset hmem)⟩
        exact hkept.withRoom hn
  | _ => cases hop

/-- The size that is answered is within its bound, every evictable frame is in a pool, and if the
size is not zero an eviction, with a logger that does not fail, answers an evictable frame. -/
structure Dependable (s : Observed σ) : Prop where
  size_le : ∀ logger : Logger σ, ∃ size, (run logger .size s).1 = .ok (.size size) ∧
    size ≤ s.replacer.settings.numFrames
  reachable : ∀ n, s.replacer.isEvictable n = true →
    n ∈ s.replacer.recent.frames ∨ n ∈ s.replacer.aged.frames
  evicts : ∀ logger : Logger σ, logger.Steady → (run logger .size s).1 ≠ .ok (.size 0) →
    ∃ n, (run logger .evict s).1 = .ok (.victim (some n)) ∧ s.replacer.isEvictable n = true

theorem Ready.dependable (h : Ready s.replacer) (hfree : s.replacer.latch = .free) :
    Dependable s where
  size_le logger := ⟨_, run_size logger hfree, h.size_le⟩
  reachable n hn := mem_pooled.mp (h.reachable n hn)
  evicts logger hl hsize := by
    have hpos : 0 < s.replacer.evictableCount := by
      refine Nat.pos_of_ne_zero fun hzero => hsize ?_
      rw [run_size logger hfree, hzero]
    obtain ⟨victim, hv⟩ := h.nextVictim_isSome hpos
    refine ⟨victim.index, ?_, nextVictim_spec hv⟩
    rw [(run_of_steady hl .evict hfree).1]
    show Except.ok (Answer.victim (s.replacer.nextVictim.map FrameRef.index)) = _
    rw [hv, Option.map_some]

end

/-! ### Runs -/

theorem runAll_append (logger : Logger σ) (before after : List Operation) (s : Observed σ) :
    (runAll logger (before ++ after) s).2 =
      (runAll logger after (runAll logger before s).2).2 := by
  induction before generalizing s with
  | nil => rfl
  | cons op rest ih => exact ih _

theorem ready_runAll (logger : Logger σ) (ops : List Operation) {s : Observed σ}
    (h : Ready s.replacer) (hfree : s.replacer.latch = .free)
    (hnone : ∀ before op, before ++ [op] <+: ops →
      ¬ UnpinsStray logger op (runAll logger before s).2) :
    Ready (runAll logger ops s).2.replacer := by
  induction ops using List.reverseRecOn with
  | nil => exact h
  | append_singleton ops op ih =>
    -- the operation that breaks the invariant, if any, is the last one of a prefix
    have hbefore := ih fun before op' hp => hnone before op' (hp.trans (List.prefix_append _ _))
    have hready := ready_run logger op hbefore (latch_runAll logger ops hfree)
    rw [runAll_append]
    exact hready.resolve_right (hnone ops op (List.prefix_refl _))

/-- **When a replacer keeps to its capacity.**  In every run, with any logger, at most one frame
more may be evicted than are kept; all states of the run are dependable exactly if none of its
operations unpins a stray frame; and the first access to such a frame was cut short. -/
theorem capacity_runAll (logger : Logger σ) (settings : Settings) (memory : σ)
    (ops : List Operation) :
    (∃ size, (run logger .size (runAll logger ops ⟨new settings, memory⟩).2).1 = .ok (.size size) ∧
      size ≤ settings.numFrames + 1) ∧
    ((∀ before, before <+: ops → Dependable (runAll logger before ⟨new settings, memory⟩).2) ↔
      ∀ before op, before ++ [op] <+: ops →
        ¬ UnpinsStray logger op (runAll logger before ⟨new settings, memory⟩).2) ∧
    ∀ n, IsPinned n (runAll logger ops ⟨new settings, memory⟩).2.replacer →
      n ∉ (runAll logger ops ⟨new settings, memory⟩).2.replacer.pooled →
      (ledger logger ops ⟨new settings, memory⟩ .empty).cutShort n = true := by
  have hfree : ∀ ops, (runAll logger ops ⟨new settings, memory⟩).2.replacer.latch = .free :=
    fun ops => latch_runAll logger ops rfl
  have hintact : ∀ ops, Intact (runAll logger ops ⟨new settings, memory⟩).2.replacer :=
    fun ops => intact_runAll logger ops (intact_new settings) rfl
  have hsettings : (runAll logger ops ⟨new settings, memory⟩).2.replacer.settings = settings :=
    (kept_settings settings).runAll logger ops (s := ⟨new settings, memory⟩) rfl rfl
  refine ⟨⟨_, run_size logger (hfree ops), ?_⟩, ⟨fun hall before op hp hstray => ?_,
    fun hnone before hp => ?_⟩, fun n hpinned hn => ?_⟩
  · have hle := (hintact ops).size_le_succ
    rwa [hsettings] at hle
  · -- the frame that was unpinned is counted from then on, and in no pool
    obtain ⟨n, he, hn⟩ := exists_unreachable (hintact before).histories (hfree before) hstray
    have hafter := hall (before ++ [op]) hp
    rw [runAll_append] at hafter
    exact hn (mem_pooled.mpr (hafter.reachable n he))
  · refine (ready_runAll logger before (ready_new settings) rfl fun before' op hp' => ?_).dependable
      (hfree before)
    exact hnone before' op (hp'.trans hp)
  · obtain ⟨f, hf, -⟩ := hpinned
    obtain ⟨-, -, hadmitted⟩ := runAll_new_keeps logger settings memory ops
    by_contra hcut
    rw [Bool.not_eq_true] at hcut
    exact hn (hadmitted n (by rw [hf, Option.isSome_some]) hcut)

/-- A logger that fails once, at the first report it gets. -/
def flaky : Logger Bool := fun _ failed =>
  if failed then .done true else .fail (.error "disk full") true

/-- A frame whose first access was cut short is unpinned and counted, and cannot be evicted; the
next frame makes two, where one is kept. -/
theorem not_dependable_flaky :
    (runAll flaky
      [.access (.ofNat 0) .unknown, .setEvictable (.ofNat 0) true, .size, .evict,
        .access (.ofNat 1) .unknown, .size]
      ⟨new ⟨1, 2, by decide, by decide⟩, false⟩).1 =
    [.error (.error "disk full"), .ok .done, .ok (.size 1), .ok (.victim none),
      .ok .done, .ok (.size 2)] := by
  decide

end Replacer
end StorageKit
