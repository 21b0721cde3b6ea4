/-
How a replacer represents its state.

With a logger that does not fail, the records, the two pools, the clock and the count of the
evictable frames fit together in every state that a run can reach:

* `Representation` — what that means, clause by clause;
* `Operation.joins`, `RoomFor` — the operations that let a frame join the evictable ones, and what
  they do for it when there is no room;
* `representation_runAll` — **every run ends in such a state, and in it room is made by exactly one
  eviction, of another frame**.
-/
import StorageKit.Proofs.Pinned
import StorageKit.Proofs.Policy

namespace StorageKit
namespace Replacer

variable {r : Replacer} {m : LruK}

/-- The records, the pools, the clock and the count of a replacer fit together.  The policy `m`
stands beside it for the times of first accesses, of which a record may know nothing any more. -/
structure Representation (m : LruK) (r : Replacer) : Prop where
  inRange : ∀ {n f}, r.record? n = some f → n ≤ r.settings.numFrames
  pooled : ∀ n, n ∈ r.recent.frames ++ r.aged.frames ↔ (r.record? n).isSome = true
  pooled_once : (r.recent.frames ++ r.aged.frames).Nodup
  recent : ∀ n, n ∈ r.recent.frames ↔
    ∃ f, r.record? n = some f ∧ f.accessCount < r.settings.k
  recent_order : r.recent.frames.Pairwise fun a b => m.firstAccess a < m.firstAccess b
  aged : ∀ n, n ∈ r.aged.frames ↔ ∃ f, r.record? n = some f ∧ r.settings.k ≤ f.accessCount
  aged_order : r.aged.frames.Pairwise fun a b =>
    (r.recordOf a).history.headD 0 < (r.recordOf b).history.headD 0
  accessed : ∀ {n f}, r.record? n = some f → 0 < f.accessCount
  increasing : ∀ {n f}, r.record? n = some f → f.history.Pairwise (· < ·)
  length_eq : ∀ {n f}, r.record? n = some f → f.history.length = min f.accessCount r.settings.k
  le_clock : ∀ {n f}, r.record? n = some f → ∀ t ∈ f.history, t ≤ r.clock
  disjoint : ∀ {a b f g}, r.record? a = some f → r.record? b = some g → a ≠ b →
    ∀ t ∈ f.history, t ∉ g.history
  size_eq : r.evictableCount = r.evictables.card
  size_le : r.evictableCount ≤ r.settings.numFrames

theorem Sound.representation (hs : Sound r) (h : Represents m r) : Representation m r := by
  have hrecent : r.recent.frames.Pairwise fun a b => m.firstAccess a < m.firstAccess b := by
    refine hs.recent.pairwise_frames fun n t hn => ?_
    obtain ⟨f, hf, hlt, ht⟩ := (hs.recent.mem_iff n t).mp hn
    exact h.firstAccess_eq hf hlt ht
  have haged : r.aged.frames.Pairwise fun a b =>
      (r.recordOf a).history.headD 0 < (r.recordOf b).history.headD 0 := by
    refine hs.aged.pairwise_frames fun n t hn => ?_
    obtain ⟨f, hf, -, ht⟩ := (hs.aged.mem_iff n t).mp hn
    rw [recordOf_of_record? hf, List.headD_eq_head?_getD, ht, Option.getD_some]
  refine {
    inRange := hs.histories.inRange
    pooled := fun n => ?_
    pooled_once := hs.once
    recent := fun n => hs.mem_recent
    recent_order := hrecent
    aged := fun n => hs.mem_aged
    aged_order := haged
    accessed := hs.histories.accessed
    increasing := hs.histories.increasing
    length_eq := hs.histories.length_eq
    le_clock := hs.histories.le_clock
    disjoint := hs.histories.disjoint
    size_eq := hs.size_eq
    size_le := hs.size_le }
  · rw [Option.isSome_iff_exists]
    exact hs.mem_pooled

/-! ### Room for a frame -/

/-- The operation lets a frame join the frames that may be evicted: it is the first access to the
frame, or unpins it. -/
def Operation.joins (f : FrameRef) (r : Replacer) : Operation → Prop
  | .access x _ => r.frame? x = some f ∧ r.record? f.index = none
  | .setEvictable x evictable => evictable = true ∧ r.frame? x = some f ∧ IsPinned f.index r
  | _ => False

/-- The course of an operation by which a frame joins the evictable ones: at most an access is
reported before room is made for it. -/
theorem reports_of_joins {op : Operation} {f : FrameRef} (hj : op.joins f r) :
    ∃ lead t, (∀ report ∈ lead, ∃ kind now, report.1 = Entry.accessed f kind now) ∧
      t.isFull = r.isFull ∧ t.nextVictim = r.nextVictim ∧
      (course op r).reports = lead ++ roomReports f t := by
  cases op with
  | access x kind =>
    obtain ⟨hx, hn⟩ := hj
    have hfirst : ((touch f.index r).recordOf f.index).accessCount = 1 := by
      rw [recordOf_touch_self, recordOf, hn]
      rfl
    refine ⟨[(.accessed f kind (touch f.index r).clock, touch f.index r)], touch f.index r, ?_,
      isFull_touch f.index r, nextVictim_touch f.index r, ?_⟩
    · intro report hr
      rw [List.mem_singleton.mp hr]
      exact ⟨kind, _, rfl⟩
    · show (onFrame x r _).reports = _
      rw [onFrame, hx]
      show accessReports f kind r = _
      rw [accessReports, if_pos hfirst]
      rfl
  | setEvictable x evictable =>
    obtain ⟨rfl, hx, g, hg, hpinned⟩ := hj
    refine ⟨[], r, fun report hr => absurd hr List.not_mem_nil, rfl, rfl, ?_⟩
    show (onFrame x r _).reports = _
    rw [onFrame, hx]
    dsimp only
    rw [hg]
    dsimp only
    rw [hpinned, if_neg Bool.false_ne_true, if_pos rfl]
    rfl
  | evict => exact hj.elim
  | remove x => exact hj.elim
  | size => exact hj.elim

theorem eq_of_madeRoom {f g : FrameRef} {victim : Option FrameRef} {t : Replacer}
    (hmem : (.madeRoom f victim, t) ∈ roomReports g r) : f = g := by
  rw [roomReports, evictReports] at hmem
  split at hmem
  · cases hv : r.nextVictim <;> rw [hv] at hmem <;> simp at hmem
    · exact hmem.1.1
    · exact hmem.1.1
  · exact absurd hmem List.not_mem_nil

theorem isFull_of_mem {f : FrameRef} {report : Entry × Replacer}
    (hmem : report ∈ roomReports f r) : r.isFull = true := by
  rw [roomReports] at hmem
  by_contra hfree
  rw [if_neg hfree] at hmem
  exact absurd hmem List.not_mem_nil

/-- Room is made only for frames that join the evictable ones. -/
theorem joins_of_madeRoom (hh : Histories r) {op : Operation} {f : FrameRef}
    {victim : Option FrameRef} {t : Replacer} :
    (.madeRoom f victim, t) ∈ (course op r).reports → op.joins f r := by
  refine course_cases (Q := fun op c => (.madeRoom f victim, t) ∈ c.reports → op.joins f r) op r
    ?_ ?_ ?_ ?_ ?_ ?_
  · exact fun _ _ _ hr => absurd hr List.not_mem_nil
  · intro x kind g hx hr
    cases hn : r.record? g.index with
    | none =>
      rcases List.mem_cons.mp hr with heq | hr
      · cases heq
      · split at hr
        · obtain rfl := eq_of_madeRoom hr
          exact ⟨hx, hn⟩
        · exact absurd hr List.not_mem_nil
    | some record =>
      -- a later access makes no room
      dsimp only at hr
      rw [accessReports_of_tracked g kind hn (hh.accessed hn)] at hr
      cases List.mem_singleton.mp hr
  · intro hr
    dsimp only at hr
    rw [evictReports] at hr
    cases hv : r.nextVictim <;> rw [hv] at hr <;> simp at hr
  · intro x g record hx hn hpinned hr
    obtain rfl := eq_of_madeRoom hr
    exact ⟨rfl, hx, record, hn, hpinned⟩
  · exact fun _ _ _ _ _ _ hr => absurd hr List.not_mem_nil
  · intro x g record _ _ _ hr
    cases List.mem_singleton.mp hr

/-- Room is made exactly for the frames that join the evictable ones when these are as many as are
kept, and it is made by the eviction of one frame, which is another one. -/
structure RoomFor {σ : Type} (logger : Logger σ) (op : Operation) (f : FrameRef)
    (s : Observed σ) : Prop where
  made_iff : (∃ victim r, (.madeRoom f victim, r) ∈ seen logger op s) ↔
    op.joins f s.replacer ∧ s.replacer.isFull = true
  one_victim : op.joins f s.replacer → s.replacer.isFull = true →
    ∃ victim, victim.index ≠ f.index ∧ s.replacer.isEvictable victim.index = true ∧
      ((seen logger op s).map Prod.fst).filter (fun entry => entry.leaving.isSome) =
        [.evicted victim, .madeRoom f (some victim)]

/-- In a sound state there is a victim when room is needed, and it is not the frame that joins. -/
theorem Sound.exists_victim (hs : Sound r) (hfull : r.isFull = true) {op : Operation}
    {f : FrameRef} (hj : op.joins f r) :
    ∃ victim, r.nextVictim = some victim ∧ victim.index ≠ f.index := by
  have hpos : 0 < r.evictableCount := by
    have hn := r.settings.numFrames_pos
    have hle : r.settings.numFrames ≤ r.evictableCount := of_decide_eq_true hfull
    omega
  obtain ⟨victim, hv⟩ := hs.nextVictim_isSome hpos
  refine ⟨victim, hv, fun heq => ?_⟩
  have he := nextVictim_spec hv
  rw [heq] at he
  obtain ⟨g, hg, hevictable⟩ := isEvictable_eq_true.mp he
  -- the frame that joins is not tracked yet, or it is pinned
  cases op with
  | access x kind =>
    rw [hj.2] at hg
    cases hg
  | setEvictable x evictable =>
    obtain ⟨-, -, record, hrecord, hpinned⟩ := hj
    obtain rfl := Option.some.inj (hg.symm.trans hrecord)
    rw [hevictable] at hpinned
    cases hpinned
  | evict => exact hj
  | remove x => exact hj
  | size => exact hj

section

variable {σ : Type} {logger : Logger σ} {s : Observed σ}

theorem roomFor_of_sound (hl : logger.Steady) (hfree : s.replacer.latch = .free)
    (hs : Sound s.replacer) (op : Operation) (f : FrameRef) : RoomFor logger op f s := by
  have hseen := seen_of_steady hl op hfree
  have hone : op.joins f s.replacer → s.replacer.isFull = true → ∃ victim,
      victim.index ≠ f.index ∧ s.replacer.isEvictable victim.index = true ∧
      ((seen logger op s).map Prod.fst).filter (fun entry => entry.leaving.isSome) =
        [.evicted victim, .madeRoom f (some victim)] := by
    intro hj hfull
    obtain ⟨victim, hv, hne⟩ := hs.exists_victim hfull hj
    obtain ⟨lead, t, hlead, htfull, htvictim, hreports⟩ := reports_of_joins hj
    refine ⟨victim, hne, nextVictim_spec hv, ?_⟩
    have hnone : (lead.map Prod.fst).filter (fun entry => entry.leaving.isSome) = [] := by
      refine List.filter_eq_nil_iff.mpr fun entry he => ?_
      obtain ⟨report, hr, rfl⟩ := List.mem_map.mp he
      obtain ⟨kind, now, hentry⟩ := hlead report hr
      rw [hentry]
      exact Bool.false_ne_true
    have hroom : (roomReports f t).map Prod.fst =
        [.evicted victim, .madeRoom f (some victim)] := by
      rw [roomReports, if_pos (htfull.trans hfull), evictReports, htvictim, hv]
      rfl
    have hentries : (seen logger op s).map Prod.fst =
        lead.map Prod.fst ++ [.evicted victim, .madeRoom f (some victim)] := by
      rw [hseen, List.map_map, hreports, ← hroom, ← List.map_append]
      rfl
    rw [hentries, List.filter_append, hnone]
    rfl
  refine ⟨⟨?_, ?_⟩, hone⟩
  · rintro ⟨victim, r, hr⟩
    obtain ⟨t, hmem, -⟩ := mem_seen hfree hr
    have hj := joins_of_madeRoom hs.histories hmem
    obtain ⟨lead, t', hlead, htfull, -, hreports⟩ := reports_of_joins hj
    refine ⟨hj, ?_⟩
    rw [hreports] at hmem
    rcases List.mem_append.mp hmem with hr | hr
    · obtain ⟨kind, now, hentry⟩ := hlead _ hr
      cases hentry
    · rw [← htfull]
      exact isFull_of_mem hr
  · rintro ⟨hj, hfull⟩
    obtain ⟨victim, -, -, hentries⟩ := hone hj hfull
    have hmem : Entry.madeRoom f (some victim) ∈ (seen logger op s).map Prod.fst := by
      refine List.mem_of_mem_filter (p := fun entry => entry.leaving.isSome) ?_
      rw [hentries]
      simp
    obtain ⟨⟨entry, r⟩, hr, rfl⟩ := List.mem_map.mp hmem
    exact ⟨_, r, hr⟩

/-- **The representation invariant.**  With a logger that does not fail, every run ends in a state
whose parts fit together; the size that is answered is the number of the tracked frames that may be
evicted, and the next operation makes room by one eviction of another frame if it needs room. -/
theorem representation_runAll (hl : logger.Steady) (settings : Settings) (memory : σ)
    (ops : List Operation) (hs : s = (runAll logger ops ⟨new settings, memory⟩).2) :
    Representation ((LruK.new settings.numFrames settings.k).runAll ops).2 s.replacer ∧
      (run logger .size s).1 = .ok (.size s.replacer.evictables.card) ∧
      ∀ op f, RoomFor logger op f s := by
  subst hs
  obtain ⟨-, hrepresents, hsound⟩ := runAll_represents hl ops (s := ⟨new settings, memory⟩)
    (sound_new settings) (represents_new settings) rfl
  have hfree := latch_runAll logger ops (s := ⟨new settings, memory⟩) rfl
  refine ⟨hsound.representation hrepresents, ?_, roomFor_of_sound hl hfree hsound⟩
  rw [(run_of_steady hl .size hfree).1, ← hsound.size_eq]
  rfl

end

/-- A run after which one frame is in each pool and the replacer is full. -/
theorem representation_runAll_asking :
    ∃ s : Observed Nat,
      s = (runAll Logger.asking
        [.access (.ofNat 1) .scan, .access (.ofNat 1) .scan, .access (.ofNat 0) .index]
        ⟨new ⟨2, 2, by decide, by decide⟩, 0⟩).2 ∧
      s.replacer.recent.frames = [0] ∧ s.replacer.aged.frames = [1] ∧
      Representation ((LruK.new 2 2).runAll
        [.access (.ofNat 1) .scan, .access (.ofNat 1) .scan, .access (.ofNat 0) .index]).2
        s.replacer ∧
      (run Logger.asking .size s).1 = .ok (.size 2) ∧
      RoomFor Logger.asking (.access (.ofNat 2) .scan) (.frame 2) s := by
  obtain ⟨hrepresentation, hsize, hroom⟩ := representation_runAll Logger.steady_asking
    ⟨2, 2, by decide, by decide⟩ 0
    [.access (.ofNat 1) .scan, .access (.ofNat 1) .scan, .access (.ofNat 0) .index] rfl
  refine ⟨_, rfl, by decide, by decide, hrepresentation, hsize.trans ?_, hroom _ _⟩
  decide

end Replacer
end StorageKit
