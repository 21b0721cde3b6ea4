/-
Evicting until no frame is left that may be evicted.

The frames that may be evicted wait in the pools, the recent ones before the aged ones:

* `queue` — these frames, in the order in which they become victims;
* `Sound.index_nextVictim`, `Sound.queue_withoutVictim` — the next victim is the first of them, and
  without it the others wait as before;
* `PinnedKept` — what evictions leave alone: the frames that may not be evicted;
* `Sound.runAll_evict` — as many evictions as frames are waiting, and one that finds none;
* `drain` — **a replacer is drained by one eviction more than its size, the victims leave in the
  order of the policy, and the pinned frames stay where they are**.

Design notes: the induction is on the queue and not on the count of the evictable frames, which is
what an eviction looks at.  That the two agree is in `Sound`.
-/
import StorageKit.Proofs.Representation
import StorageKit.Proofs.Intact

namespace StorageKit
namespace Replacer

variable {r r' : Replacer} {n : Nat}

/-- The recent frames that may be evicted. -/
def early (r : Replacer) : List Nat := r.recent.frames.filter r.isEvictable

/-- The aged frames that may be evicted. -/
def late (r : Replacer) : List Nat := r.aged.frames.filter r.isEvictable

/-- The frames that may be evicted, in the order in which they become victims. -/
def queue (r : Replacer) : List Nat := r.early ++ r.late

theorem queue_eq (r : Replacer) : r.queue = r.pooled.filter r.isEvictable :=
  (List.filter_append ..).symm

namespace Sound

theorem mem_queue (h : Sound r) : n ∈ r.queue ↔ r.isEvictable n = true := by
  rw [queue_eq, List.mem_filter, and_iff_right_iff_imp]
  intro he
  obtain ⟨f, hf, -⟩ := isEvictable_eq_true.mp he
  exact h.mem_pooled.mpr ⟨f, hf⟩

theorem nodup_queue (h : Sound r) : r.queue.Nodup := by
  rw [queue_eq]
  exact h.once.filter _

/-- The count of the evictable frames is the number of frames that wait. -/
theorem length_queue (h : Sound r) : r.queue.length = r.evictableCount := by
  have hset : r.queue.toFinset = r.evictables := by
    ext n
    rw [List.mem_toFinset, h.mem_queue, mem_evictables]
  rw [h.size_eq, ← hset, List.toFinset_card_of_nodup h.nodup_queue]

theorem index_nextVictim (h : Sound r) : r.nextVictim.map FrameRef.index = r.queue.head? := by
  rw [Replacer.index_nextVictim, queue, List.head?_append, early, late, List.head?_filter,
    List.head?_filter]
  by_cases hcount : r.evictableCount = 0
  · -- nobody waits, so neither search finds anybody
    have hnil : r.queue = [] := by rw [← List.length_eq_zero_iff, h.length_queue, hcount]
    obtain ⟨hearly, hlate⟩ := List.append_eq_nil_iff.mp hnil
    rw [if_pos hcount, ← List.head?_filter, ← List.head?_filter]
    rw [show r.recent.frames.filter r.isEvictable = [] from hearly,
      show r.aged.frames.filter r.isEvictable = [] from hlate]
    rfl
  · rw [if_neg hcount]

end Sound

/-! ### One eviction -/

theorem isEvictable_forget {m : Nat} (hm : m ≠ n) :
    (forget n r).isEvictable m = r.isEvictable m := by
  rw [isEvictable, isEvictable, record?_forget, Function.update_of_ne hm]

/-- A frame that is in one pool at most leaves both when it is forgotten. -/
theorem frames_forget (h : r.pooled.Nodup) (n : Nat) :
    (forget n r).recent.frames = r.recent.frames.filter (· != n) ∧
      (forget n r).aged.frames = r.aged.frames.filter (· != n) := by
  have hrecent : (forget n r).recent.frames = r.recent.frames.filter (· != n) :=
    ArrivalPool.frames_delete n r.recent
  have hpooled := pooled_forget (n := n) h
  rw [pooled, pooled, List.filter_append, hrecent] at hpooled
  exact ⟨hrecent, List.append_cancel_left hpooled⟩

/-- What evictions leave alone: the records of the frames that may not be evicted, and their order
in the two pools.  Other records may be gone, and none is new. -/
structure PinnedKept (r r' : Replacer) : Prop where
  old : ∀ {n f}, r'.record? n = some f → r.record? n = some f
  record : ∀ n, r.isEvictable n = false → r'.record? n = r.record? n
  recent : r'.recent.frames.filter (fun n => !r'.isEvictable n) =
    r.recent.frames.filter fun n => !r.isEvictable n
  aged : r'.aged.frames.filter (fun n => !r'.isEvictable n) =
    r.aged.frames.filter fun n => !r.isEvictable n

namespace PinnedKept

theorem refl (r : Replacer) : PinnedKept r r := ⟨id, fun _ _ => rfl, rfl, rfl⟩

theorem trans {r'' : Replacer} (h : PinnedKept r r') (h' : PinnedKept r' r'') :
    PinnedKept r r'' := by
  refine ⟨fun hf => h.old (h'.old hf), fun n hn => ?_, h'.recent.trans h.recent,
    h'.aged.trans h.aged⟩
  have hrecord := h.record n hn
  have hn' : r'.isEvictable n = false := by
    rw [isEvictable, hrecord]
    exact hn
  rw [h'.record n hn', hrecord]

theorem forget (h : Sound r) (hn : r.isEvictable n = true) : PinnedKept r (forget n r) := by
  obtain ⟨hrecent, haged⟩ := frames_forget h.once n
  -- a frame that is not the forgotten one may be evicted if it could be before
  have hfilter : ∀ l : List Nat,
      (l.filter (· != n)).filter (fun m => !(Replacer.forget n r).isEvictable m) =
        l.filter fun m => !r.isEvictable m := by
    intro l
    rw [List.filter_filter]
    refine List.filter_congr fun m _ => ?_
    by_cases hm : m = n
    · rw [hm, hn, bne_self_eq_false, Bool.and_false]
      rfl
    · rw [isEvictable_forget hm, bne_iff_ne.mpr hm, Bool.and_true]
  refine ⟨fun hf => ?_, fun m hm => ?_, ?_, ?_⟩
  · rcases record?_cases (record?_forget n r) hf with ⟨-, hnone⟩ | ⟨-, hold⟩
    · cases hnone
    · exact hold
  · have hne : m ≠ n := by
      rintro rfl
      rw [hn] at hm
      cases hm
    rw [record?_forget, Function.update_of_ne hne]
  · rw [hrecent, hfilter]
  · rw [haged, hfilter]

theorem withoutVictim (h : Sound r) : PinnedKept r r.withoutVictim := by
  rw [Replacer.withoutVictim]
  cases hv : r.nextVictim with
  | none => exact refl r
  | some victim => exact forget h (nextVictim_spec hv)

end PinnedKept

/-- Without the victim the other frames wait as before. -/
theorem Sound.queue_withoutVictim (h : Sound r) : r.withoutVictim.queue = r.queue.tail := by
  have hindex := h.index_nextVictim
  rw [Replacer.withoutVictim]
  cases hv : r.nextVictim with
  | none =>
    rw [hv, Option.map_none, eq_comm, List.head?_eq_none_iff] at hindex
    dsimp only
    rw [hindex, List.tail_nil]
  | some victim =>
    rw [hv, Option.map_some] at hindex
    obtain ⟨rest, hrest⟩ := List.head?_eq_some_iff.mp hindex.symm
    have hnodup := h.nodup_queue
    rw [hrest, List.nodup_cons] at hnodup
    -- the victim is first in the queue, and nowhere else
    have hfilter : (Replacer.forget victim.index r).queue = r.queue.filter (· != victim.index) := by
      rw [queue_eq, queue_eq, pooled_forget h.once, List.filter_filter, List.filter_filter]
      refine List.filter_congr fun m _ => ?_
      by_cases hm : m = victim.index
      · rw [hm, bne_self_eq_false, Bool.and_false, Bool.false_and]
      · rw [isEvictable_forget hm, Bool.and_comm]
    dsimp only
    rw [hfilter, hrest, List.tail_cons, List.filter_cons_of_neg (by simp)]
    refine List.filter_eq_self.mpr fun m hm => bne_iff_ne.mpr ?_
    rintro rfl
    exact hnodup.1 hm

/-! ### All evictions -/

section

variable {σ : Type} {logger : Logger σ} {s : Observed σ}

/-- An eviction takes the first frame from the queue, if there is one. -/
theorem Sound.run_evict (hl : logger.Steady) (hfree : s.replacer.latch = .free)
    (hs : Sound s.replacer) :
    (run logger .evict s).1 = .ok (.victim s.replacer.queue.head?) ∧
      (run logger .evict s).2.replacer = s.replacer.withoutVictim := by
  obtain ⟨houtcome, hfinal⟩ := run_of_steady hl .evict hfree
  exact ⟨houtcome.trans (congrArg (Except.ok ∘ Answer.victim) hs.index_nextVictim), hfinal⟩

/-- As many evictions as frames wait take these frames one after another, the next one finds none,
and nothing happens to the frames that may not be evicted. -/
theorem Sound.runAll_evict (hl : logger.Steady) (victims : List Nat)
    (hfree : s.replacer.latch = .free) (hs : Sound s.replacer)
    (hqueue : s.replacer.queue = victims) :
    let drained := runAll logger (List.replicate (victims.length + 1) .evict) s
    drained.1 = victims.map (fun n => .ok (.victim (some n))) ++ [.ok (.victim none)] ∧
      drained.2.replacer.queue = [] ∧ drained.2.replacer.latch = .free ∧
      Sound drained.2.replacer ∧ PinnedKept s.replacer drained.2.replacer := by
  dsimp only
  induction victims generalizing s with
  | nil =>
    obtain ⟨houtcome, hnext⟩ := hs.run_evict hl hfree
    have htail : (run logger .evict s).2.replacer.queue = [] := by
      rw [hnext, hs.queue_withoutVictim, hqueue, List.tail_nil]
    rw [List.length_nil, List.replicate_one, runAll_cons, houtcome, hqueue]
    refine ⟨rfl, htail, latch_run logger .evict hfree, ?_, ?_⟩
    · exact hnext ▸ hs.withoutVictim
    · exact hnext ▸ PinnedKept.withoutVictim hs
  | cons n rest ih =>
    -- the state after one eviction, in which the rest of the queue waits
    obtain ⟨houtcome, hnext⟩ := hs.run_evict hl hfree
    have hs' : Sound (run logger .evict s).2.replacer := hnext ▸ hs.withoutVictim
    have hqueue' : (run logger .evict s).2.replacer.queue = rest := by
      rw [hnext, hs.queue_withoutVictim, hqueue, List.tail_cons]
    obtain ⟨hanswers, hnil, hfree', hsound, hkept⟩ :=
      ih (latch_run logger .evict hfree) hs' hqueue'
    rw [List.length_cons, List.replicate_succ, runAll_cons, houtcome, hqueue]
    refine ⟨?_, hnil, hfree', hsound, ?_⟩
    · exact congrArg (List.cons (Except.ok (Answer.victim (some n)))) hanswers
    · exact PinnedKept.trans (hnext ▸ PinnedKept.withoutVictim hs) hkept

/-- A replacer before and after it was drained.  The policy `m` stands beside it for the times of
accesses, of which a record may know nothing any more. -/
structure Drained (m : LruK) (r r' : Replacer) : Prop where
  victims_once : r.queue.Nodup
  early_iff : ∀ n, n ∈ r.early ↔
    ∃ f, r.record? n = some f ∧ f.evictable = true ∧ f.accessCount < r.settings.k
  early_order : r.early.Pairwise fun a b => m.firstAccess a < m.firstAccess b
  late_iff : ∀ n, n ∈ r.late ↔
    ∃ f, r.record? n = some f ∧ f.evictable = true ∧ r.settings.k ≤ f.accessCount
  late_order : r.late.Pairwise fun a b => m.kthAccess a < m.kthAccess b
  record : ∀ n, r'.record? n = if r.isEvictable n then none else r.record? n
  recent : r'.recent.frames = r.recent.frames.filter fun n => !r.isEvictable n
  aged : r'.aged.frames = r.aged.frames.filter fun n => !r.isEvictable n

theorem Sound.isEvictable_of_queue_nil (hs : Sound r) (hnil : r.queue = []) (n : Nat) :
    r.isEvictable n = false := by
  by_contra he
  have hmem := hs.mem_queue.mpr (Bool.eq_true_of_not_eq_false he)
  rw [hnil] at hmem
  exact absurd hmem List.not_mem_nil

/-- When nobody waits any more, the frames that are left are those that could not be evicted. -/
theorem Sound.drained {m : LruK} (hs : Sound r) (h : Represents m r) (hs' : Sound r')
    (hnil : r'.queue = []) (hkept : PinnedKept r r') : Drained m r r' := by
  have hpinned := hs'.isEvictable_of_queue_nil hnil
  have hall : ∀ l : List Nat, l.filter (fun n => !r'.isEvictable n) = l := fun l =>
    List.filter_eq_self.mpr fun n _ => by rw [hpinned n]; rfl
  have hboth : ∀ {n} {q : FrameRecord → Prop}, (∃ f, r.record? n = some f ∧ q f) ∧
      r.isEvictable n = true ↔ ∃ f, r.record? n = some f ∧ f.evictable = true ∧ q f := by
    intro n q
    constructor
    · rintro ⟨⟨f, hf, hq⟩, he⟩
      exact ⟨f, hf, (isEvictable_of_record? hf).symm.trans he, hq⟩
    · rintro ⟨f, hf, he, hq⟩
      exact ⟨⟨f, hf, hq⟩, (isEvictable_of_record? hf).trans he⟩
  refine {
    victims_once := hs.nodup_queue
    early_iff := fun n => ?_
    early_order := (hs.representation h).recent_order.filter _
    late_iff := fun n => ?_
    late_order := ?_
    record := fun n => ?_
    recent := by rw [← hkept.recent, hall]
    aged := by rw [← hkept.aged, hall] }
  · rw [early, List.mem_filter, hs.mem_recent, hboth]
  · rw [late, List.mem_filter, hs.mem_aged, hboth]
  · refine List.Pairwise.filter _ (hs.aged.pairwise_frames fun n t hn => ?_)
    obtain ⟨f, hf, hge, ht⟩ := (hs.aged.mem_iff n t).mp hn
    exact h.kthAccess_eq hf hge ht
  · split
    · next he =>
      -- a record that is left would be the old one, and its frame would still wait
      refine Option.eq_none_iff_forall_ne_some.mpr fun f hf => ?_
      have hstill := (isEvictable_of_record? hf).symm.trans (hpinned n)
      rw [isEvictable_of_record? (hkept.old hf), hstill] at he
      cases he
    · next he => exact hkept.record n (Bool.eq_false_of_not_eq_true he)

/-- **Draining is complete and ordered.**  In every state that a run reaches with a logger that does
not fail, as many evictions as the size find a victim and the next one finds none.  The victims are
the frames that may be evicted: first those with fewer than `k` accesses by their first access, then
the others by their `k`-th most recent access.  The pinned frames are left as they were. -/
theorem drain (hl : logger.Steady) (settings : Settings) (memory : σ) (ops : List Operation)
    (hs : s = (runAll logger ops ⟨new settings, memory⟩).2) :
    let victims := s.replacer.early ++ s.replacer.late
    let drained := runAll logger (List.replicate (victims.length + 1) .evict) s
    (run logger .size s).1 = .ok (.size victims.length) ∧
      drained.1 = victims.map (fun n => .ok (.victim (some n))) ++ [.ok (.victim none)] ∧
      Drained ((LruK.new settings.numFrames settings.k).runAll ops).2 s.replacer
        drained.2.replacer ∧
      (run logger .size drained.2).1 = .ok (.size 0) := by
  intro victims drained
  obtain ⟨-, hrepresents, hsound⟩ := runAll_represents hl ops (s := ⟨new settings, memory⟩)
    (sound_new settings) (represents_new settings) rfl
  have hfree := latch_runAll logger ops (s := ⟨new settings, memory⟩) rfl
  rw [← hs] at hrepresents hsound hfree
  obtain ⟨hanswers, hnil, hfree', hsound', hkept⟩ :=
    hsound.runAll_evict hl victims hfree rfl
  have hsize : ∀ {t : Observed σ}, t.replacer.latch = .free → Sound t.replacer →
      (run logger .size t).1 = .ok (.size t.replacer.queue.length) := by
    intro t ht hsound
    rw [(run_of_steady hl .size ht).1, hsound.length_queue]
    rfl
  refine ⟨hsize hfree hsound, hanswers, hsound.drained hrepresents hsound' hnil hkept, ?_⟩
  rw [hsize hfree' hsound', hnil]
  rfl

/-- A run after which a frame waits in each pool, beside a pinned one in the recent pool. -/
theorem drain_asking :
    ∃ s : Observed Nat,
      let drained := runAll Logger.asking (List.replicate 3 .evict) s
      s.replacer.recent.frames = [0, 2] ∧ s.replacer.aged.frames = [1] ∧
      (run Logger.asking .size s).1 = .ok (.size 2) ∧
      drained.1 = [.ok (.victim (some 2)), .ok (.victim (some 1)), .ok (.victim none)] ∧
      drained.2.replacer.recent.frames = [0] ∧ drained.2.replacer.aged.frames = [] ∧
      drained.2.replacer.record? 0 = some ⟨[2], 1, false, false⟩ ∧
      (run Logger.asking .size drained.2).1 = .ok (.size 0) := by
  let ops : List Operation := [.access (.ofNat 1) .scan, .access (.ofNat 0) .scan,
    .access (.ofNat 1) .scan, .setEvictable (.ofNat 0) false, .access (.ofNat 2) .scan]
  let s := (runAll Logger.asking ops ⟨new ⟨2, 2, by decide, by decide⟩, 0⟩).2
  obtain ⟨hsize, hanswers, hdrained, hsize'⟩ :=
    drain Logger.steady_asking ⟨2, 2, by decide, by decide⟩ 0 ops (s := s) rfl
  have hearly : s.replacer.early = [2] := by decide
  have hlate : s.replacer.late = [1] := by decide
  rw [hearly, hlate] at hsize hanswers hdrained hsize'
  refine ⟨s, by decide, by decide, hsize, hanswers, ?_, ?_, ?_, hsize'⟩
  · exact hdrained.recent.trans (by decide)
  · exact hdrained.aged.trans (by decide)
  · exact (hdrained.record 0).trans (by decide)

end

end Replacer
end StorageKit
