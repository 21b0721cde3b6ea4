/-
A replacer carries out the textbook LRU-K policy.

The pools, the shortened histories, and the count of the evictable frames are a way to find the
victims of the policy without keeping its complete lists:

* `Represents` — a replacer stands for a state of the policy;
* `Represents.victim?_eq` — the first evictable frame of the pools is the victim of the policy;
* `course_represents` — the course of an operation does what the operation does to the policy;
* `runAll_eq_lruK` — **every run answers what the policy answers**.
-/
import StorageKit.Proofs.LruK
import StorageKit.Proofs.Sound

namespace StorageKit

/-! ### Records of tracks -/

/-- A record, the sign its frame was last aged with forgotten. -/
def FrameRecord.unsigned (f : FrameRecord) : FrameRecord := { f with signed := false }

/-- What a record keeps of a track: the last `k` times, and how many there are in all. -/
def Track.record (k : Nat) (t : Track) : FrameRecord :=
  ⟨t.times.drop (t.times.length - k), t.times.length, t.evictable, false⟩

/-- An access drops at most one time of the record, and that is the right one. -/
theorem Track.record_touch {k : Nat} (hk : 0 < k) (t : Track) (now : Nat) :
    (t.record k).touch k now = Track.record k { t with times := t.times ++ [now] } := by
  -- dropping from the front of the times is dropping from the front of the longer list
  have happend : t.times.drop (t.times.length - k) ++ [now] =
      (t.times ++ [now]).drop (t.times.length - k) :=
    (List.drop_append_of_le_length (Nat.sub_le _ _)).symm
  have hhistory : ((t.record k).touch k now).history =
      (t.times ++ [now]).drop ((t.times ++ [now]).length - k) := by
    show (if k < (t.times.drop (t.times.length - k) ++ [now]).length then
        (t.times.drop (t.times.length - k) ++ [now]).tail
      else t.times.drop (t.times.length - k) ++ [now]) = _
    rw [happend, List.tail_drop, List.length_drop, List.length_append, List.length_singleton]
    split
    · congr 1
      omega
    · congr 1
      omega
  show FrameRecord.mk _ _ _ _ = FrameRecord.mk _ _ _ _
  rw [FrameRecord.mk.injEq]
  exact ⟨hhistory, by rw [List.length_append]; rfl, rfl, rfl⟩

namespace Replacer

/-- A replacer stands for a state of the policy. -/
structure Represents (m : LruK) (r : Replacer) : Prop where
  numFrames_eq : m.numFrames = r.settings.numFrames
  k_eq : m.k = r.settings.k
  clock_eq : m.clock = r.clock
  record_eq : ∀ n, (r.record? n).map FrameRecord.unsigned = (m.track n).map (Track.record m.k)

variable {m : LruK} {r r' : Replacer} {n : Nat}

theorem represents_new (settings : Settings) :
    Represents (.new settings.numFrames settings.k) (new settings) where
  numFrames_eq := rfl
  k_eq := rfl
  clock_eq := rfl
  record_eq _ := rfl

namespace Represents

/-! ### Looking at a frame -/

theorem track_of_record? (h : Represents m r) {f : FrameRecord} (hf : r.record? n = some f) :
    ∃ t, m.track n = some t ∧ f.unsigned = t.record m.k := by
  have hn := h.record_eq n
  rw [hf, Option.map_some] at hn
  obtain ⟨t, ht, heq⟩ := Option.map_eq_some_iff.mp hn.symm
  exact ⟨t, ht, heq.symm⟩

theorem track_of_untracked (h : Represents m r) (hn : r.record? n = none) : m.track n = none := by
  have heq := h.record_eq n
  rw [hn, Option.map_none] at heq
  exact Option.map_eq_none_iff.mp heq.symm

theorem isEvictable_eq (h : Represents m r) (n : Nat) :
    r.isEvictable n = (m.track n).any (·.evictable) := by
  rw [isEvictable]
  cases hf : r.record? n with
  | none => rw [h.track_of_untracked hf, Option.any_none, Option.any_none]
  | some f =>
    obtain ⟨t, ht, heq⟩ := h.track_of_record? hf
    rw [ht, Option.any_some, Option.any_some]
    exact congrArg FrameRecord.evictable heq

theorem accessCount_eq (h : Represents m r) {f : FrameRecord} (hf : r.record? n = some f) :
    f.accessCount = (m.times n).length := by
  obtain ⟨t, ht, heq⟩ := h.track_of_record? hf
  rw [LruK.times, ht]
  exact congrArg FrameRecord.accessCount heq

theorem history_eq (h : Represents m r) {f : FrameRecord} (hf : r.record? n = some f) :
    f.history = (m.times n).drop ((m.times n).length - m.k) := by
  obtain ⟨t, ht, heq⟩ := h.track_of_record? hf
  rw [LruK.times, ht]
  exact congrArg FrameRecord.history heq

/-- Before the `k`-th access the history begins with the first access. -/
theorem firstAccess_eq (h : Represents m r) {f : FrameRecord} {t : Nat}
    (hf : r.record? n = some f) (hlt : f.accessCount < r.settings.k)
    (ht : f.history.head? = some t) : m.firstAccess n = t := by
  rw [← h.k_eq, h.accessCount_eq hf] at hlt
  rw [h.history_eq hf, Nat.sub_eq_zero_of_le (Nat.le_of_lt hlt), List.drop_zero] at ht
  rw [LruK.firstAccess, List.headD_eq_head?_getD, ht, Option.getD_some]

/-- From the `k`-th access on the history begins with the `k`-th most recent access. -/
theorem kthAccess_eq (h : Represents m r) {f : FrameRecord} {t : Nat}
    (hf : r.record? n = some f) (hge : r.settings.k ≤ f.accessCount)
    (ht : f.history.head? = some t) : m.kthAccess n = t := by
  have hk := r.settings.k_pos
  rw [← h.k_eq] at hge hk
  rw [h.accessCount_eq hf] at hge
  rw [h.history_eq hf, List.head?_drop] at ht
  -- counted from the end, the first time that is kept is the `k`-th
  have hindex : (m.times n).length - 1 - (m.k - 1) = (m.times n).length - m.k := by omega
  rw [LruK.kthAccess, List.getD_eq_getElem?_getD, List.getElem?_reverse (by omega), hindex, ht,
    Option.getD_some]

/-! ### Victims -/

theorem mem_evictables (h : Represents m r) (hs : Sound r) :
    n ∈ m.evictables ↔ r.isEvictable n = true := by
  rw [LruK.evictables, List.mem_filter, List.mem_range, ← h.isEvictable_eq n, and_iff_right_iff_imp]
  intro he
  obtain ⟨f, hf, -⟩ := isEvictable_eq_true.mp he
  rw [h.numFrames_eq]
  exact Nat.lt_succ_of_le (hs.histories.inRange hf)

theorem size_eq (h : Represents m r) (hs : Sound r) : m.size = r.evictableCount := by
  -- the policy counts a list, the replacer a set: the list has no frame twice
  have hnodup : m.evictables.Nodup := List.nodup_range.filter _
  have hset : m.evictables.toFinset = r.evictables := by
    ext n
    rw [List.mem_toFinset, h.mem_evictables hs, Replacer.mem_evictables]
  rw [LruK.size, ← List.toFinset_card_of_nodup hnodup, hset, hs.size_eq]

theorem mem_recent (h : Represents m r) (hs : Sound r) (he : r.isEvictable n = true) :
    n ∈ r.recent.frames ↔ (m.times n).length < m.k := by
  obtain ⟨f, hf, -⟩ := isEvictable_eq_true.mp he
  rw [hs.mem_recent, h.k_eq, ← h.accessCount_eq hf, hf]
  simp

theorem mem_aged (h : Represents m r) (hs : Sound r) (he : r.isEvictable n = true) :
    n ∈ r.aged.frames ↔ m.k ≤ (m.times n).length := by
  obtain ⟨f, hf, -⟩ := isEvictable_eq_true.mp he
  rw [hs.mem_aged, h.k_eq, ← h.accessCount_eq hf, hf]
  simp

theorem find?_recent (h : Represents m r) (hs : Sound r) :
    r.recent.frames.find? r.isEvictable =
      (m.evictables.filter fun n => (m.times n).length < m.k).argmin m.firstAccess := by
  refine find?_eq_argmin (hs.recent.pairwise_frames fun n t hn => ?_) fun n => ?_
  · obtain ⟨f, hf, hlt, ht⟩ := (hs.recent.mem_iff n t).mp hn
    exact h.firstAccess_eq hf hlt ht
  · rw [List.mem_filter, h.mem_evictables hs, decide_eq_true_iff, and_comm]
    exact and_congr_left fun he => (h.mem_recent hs he).symm

/-- If no frame with fewer than `k` accesses may be evicted, all that may be are aged. -/
theorem find?_aged (h : Represents m r) (hs : Sound r)
    (hnone : r.recent.frames.find? r.isEvictable = none) :
    r.aged.frames.find? r.isEvictable = m.evictables.argmin m.kthAccess := by
  refine find?_eq_argmin (hs.aged.pairwise_frames fun n t hn => ?_) fun n => ?_
  · obtain ⟨f, hf, hge, ht⟩ := (hs.aged.mem_iff n t).mp hn
    exact h.kthAccess_eq hf hge ht
  · rw [h.mem_evictables hs, and_comm, iff_self_and]
    intro he
    refine (h.mem_aged hs he).mpr (not_lt.mp fun hlt => ?_)
    exact List.find?_eq_none.mp hnone n ((h.mem_recent hs he).mpr hlt) he

/-- **The first evictable frame of the pools is the victim of the policy.** -/
theorem victim?_eq (h : Represents m r) (hs : Sound r) :
    r.nextVictim.map FrameRef.index = m.victim? := by
  -- the aged pool is asked only if no recent frame may be evicted
  have hsearch : (r.recent.frames.find? r.isEvictable).or (r.aged.frames.find? r.isEvictable) =
      m.victim? := by
    rw [LruK.victim?, ← h.find?_recent hs]
    cases hrecent : r.recent.frames.find? r.isEvictable with
    | some n => rfl
    | none => rw [Option.none_or, h.find?_aged hs hrecent]
  rw [index_nextVictim, ← hsearch]
  by_cases hcount : r.evictableCount = 0
  · -- nobody may be evicted, so the searches find nobody either
    rw [if_pos hcount]
    have hnobody : ∀ n, ¬ r.isEvictable n = true := by
      intro n he
      rw [hs.size_eq, Finset.card_eq_zero] at hcount
      have hmem : n ∈ r.evictables := Replacer.mem_evictables.mpr he
      rw [hcount] at hmem
      exact Finset.notMem_empty n hmem
    rw [List.find?_eq_none.mpr fun n _ => hnobody n, List.find?_eq_none.mpr fun n _ => hnobody n]
    rfl
  · rw [if_neg hcount]

/-! ### Steps -/

/-- One record and one track changed in the same way, and perhaps the clock moved. -/
theorem update (h : Represents m r) {x : Option FrameRecord} {y : Option Track} {now : Nat}
    (hrecord : r'.record? = Function.update r.record? n x) (hsettings : r'.settings = r.settings)
    (hclock : r'.clock = now) (hxy : x.map FrameRecord.unsigned = y.map (Track.record m.k)) :
    Represents { m.set n y with clock := now } r' where
  numFrames_eq := by
    rw [hsettings]
    exact h.numFrames_eq
  k_eq := by
    rw [hsettings]
    exact h.k_eq
  clock_eq := hclock.symm
  record_eq i := by
    show _ = (Function.update m.track n y i).map (Track.record m.k)
    rw [hrecord]
    by_cases hi : i = n
    · subst hi
      rw [Function.update_self, Function.update_self, hxy]
    · rw [Function.update_of_ne hi, Function.update_of_ne hi, h.record_eq i]

theorem set (h : Represents m r) {x : Option FrameRecord} {y : Option Track}
    (hrecord : r'.record? = Function.update r.record? n x) (hsettings : r'.settings = r.settings)
    (hclock : r'.clock = r.clock) (hxy : x.map FrameRecord.unsigned = y.map (Track.record m.k)) :
    Represents (m.set n y) r' :=
  h.update hrecord hsettings (hclock.trans h.clock_eq.symm) hxy

theorem forget (h : Represents m r) (n : Nat) : Represents (m.set n none) (forget n r) :=
  h.set (record?_forget n r) rfl rfl rfl

theorem withoutVictim (h : Represents m r) (hs : Sound r) : Represents m.evict r.withoutVictim := by
  rw [LruK.evict, ← h.victim?_eq hs, Replacer.withoutVictim]
  cases r.nextVictim with
  | none => exact h
  | some victim => exact h.forget victim.index

theorem withRoom (h : Represents m r) (hs : Sound r) : Represents m.makeRoom r.withRoom := by
  rw [LruK.makeRoom, h.size_eq hs, h.numFrames_eq, Replacer.withRoom, isFull]
  have hfull : r.evictableCount = r.settings.numFrames ↔
      decide (r.settings.numFrames ≤ r.evictableCount) = true := by
    rw [decide_eq_true_iff]
    exact ⟨fun heq => heq.ge, fun hge => le_antisymm hs.size_le hge⟩
  by_cases hc : r.evictableCount = r.settings.numFrames
  · rw [if_pos hc, if_pos (hfull.mp hc)]
    exact h.withoutVictim hs
  · rw [if_neg hc, if_neg fun hge => hc (hfull.mpr hge)]
    exact h

theorem clock_makeRoom (m : LruK) : m.makeRoom.clock = m.clock := by
  rw [LruK.makeRoom, LruK.evict]
  split
  · cases m.victim? <;> rfl
  · rfl

theorem accessed (h : Represents m r) (hs : Sound r) (f : FrameRef) :
    Represents (m.access f.index) (accessed f r) := by
  cases hn : r.record? f.index with
  | none =>
    -- room comes first in the policy, and may come first in the replacer
    rw [LruK.access, h.track_of_untracked hn, accessed_of_untracked f hn]
    have hroom := h.withRoom hs
    have hn' : r.withRoom.record? f.index = none := by
      rw [record?_withRoom (isEvictable_of_untracked hn), hn]
    obtain ⟨signed, hrecord⟩ := exists_record?_admitted f hn'
    have hkept : (admitted f r.withRoom).settings = r.withRoom.settings ∧
        (admitted f r.withRoom).clock = r.withRoom.clock + 1 := by
      rw [admitted]
      split <;> exact ⟨rfl, rfl⟩
    refine hroom.update hrecord hkept.1 ?_ ?_
    · rw [hkept.2, ← hroom.clock_eq, clock_makeRoom]
    · have hk : 0 < m.makeRoom.k := hroom.k_eq ▸ r.withRoom.settings.k_pos
      have hclock : r.withRoom.clock = m.clock := by rw [← hroom.clock_eq, clock_makeRoom]
      rw [hclock, Option.map_some, Option.map_some, Track.record]
      have hdrop : [m.clock + 1].length - m.makeRoom.k = 0 := Nat.sub_eq_zero_of_le hk
      rw [hdrop]
      rfl
  | some g =>
    obtain ⟨t, ht, heq⟩ := h.track_of_record? hn
    obtain ⟨signed, hrecord⟩ := exists_record?_accessed f hn (hs.histories.accessed hn)
    rw [LruK.access, ht]
    have hkept : (Replacer.accessed f r).settings = r.settings ∧
        (Replacer.accessed f r).clock = r.clock + 1 := by
      rw [accessed_of_tracked f hn (hs.histories.accessed hn)]
      split <;> exact ⟨rfl, rfl⟩
    refine h.update hrecord hkept.1 (hkept.2.trans (by rw [h.clock_eq])) ?_
    have hk : 0 < m.k := h.k_eq ▸ r.settings.k_pos
    rw [Option.map_some, Option.map_some, ← Track.record_touch hk t, ← heq, h.clock_eq, h.k_eq]
    rfl

theorem pin (h : Represents m r) {g : FrameRecord} {t : Track} (hg : r.record? n = some g)
    (heq : g.unsigned = t.record m.k) :
    Represents (m.set n (some { t with evictable := false })) (pin n r) := by
  refine h.set (record?_pin n r) rfl rfl ?_
  rw [hg]
  exact congrArg (fun f => some { f with evictable := false }) heq

/-- A frame that may not be evicted is still there when there is room for it. -/
theorem unpin (h : Represents m r) (hs : Sound r) {g : FrameRecord} {t : Track}
    (hg : r.record? n = some g) (hpinned : g.evictable = false)
    (heq : g.unsigned = t.record m.k) :
    Represents (m.makeRoom.set n (some { t with evictable := true })) (unpin n r.withRoom) := by
  have hroom := h.withRoom hs
  have hk : m.makeRoom.k = m.k := by rw [hroom.k_eq, settings_withRoom, h.k_eq]
  refine hroom.set (record?_unpin n r.withRoom) rfl rfl ?_
  rw [record?_withRoom ((isEvictable_of_record? hg).trans hpinned), hg, hk]
  exact congrArg (fun f => some { f with evictable := true }) heq

end Represents

/-! ### Operations -/

/-- A course answers what the policy answers, and ends in a state that stands for its. -/
def Agrees (c : Course) (result : Except ReplacerFault Answer × LruK) : Prop :=
  c.outcome = result.1.mapError Problem.fault ∧ Represents result.2 c.final

theorem Represents.onFrame (h : Represents m r) {x : Number} {c : FrameRef → Course}
    {next : Nat → Except ReplacerFault Answer × LruK} (hc : ∀ f, Agrees (c f) (next f.index)) :
    Agrees (onFrame x r c) (m.onFrame x next) := by
  have hx := index_frame? r x
  rw [Replacer.onFrame, LruK.onFrame, h.numFrames_eq]
  cases hf : r.frame? x with
  | some f =>
    obtain ⟨hindex, hrange⟩ := frame?_spec hf
    rw [hindex]
    dsimp only
    rw [if_pos hrange]
    exact hc f
  | none =>
    rw [hf, Option.map_none, eq_comm, Option.filter_eq_none_iff] at hx
    cases hn : x.toNat? with
    | none => exact ⟨rfl, h⟩
    | some n =>
      have hout : ¬ n ≤ r.settings.numFrames := by simpa using hx n hn
      dsimp only
      rw [if_neg hout]
      exact ⟨rfl, h⟩

/-- The course of an operation does what the operation does to the policy. -/
theorem course_represents (h : Represents m r) (hs : Sound r) (op : Operation) :
    Agrees (course op r) (m.step op) := by
  cases op with
  | access x kind => exact h.onFrame fun f => ⟨rfl, h.accessed hs f⟩
  | evict =>
    refine ⟨?_, h.withoutVictim hs⟩
    show Except.ok (Answer.victim _) = Except.ok (Answer.victim _)
    rw [h.victim?_eq hs]
  | setEvictable x evictable =>
    refine h.onFrame fun f => ?_
    rw [LruK.setEvictable]
    cases hg : r.record? f.index with
    | none =>
      rw [h.track_of_untracked hg]
      exact ⟨rfl, h⟩
    | some g =>
      obtain ⟨t, ht, heq⟩ := h.track_of_record? hg
      have hflag : t.evictable = g.evictable := (congrArg FrameRecord.evictable heq).symm
      rw [ht]
      dsimp only
      rw [hflag]
      by_cases hsame : g.evictable = evictable
      · rw [if_pos hsame, if_pos hsame]
        exact ⟨rfl, h⟩
      · rw [if_neg hsame, if_neg hsame]
        cases evictable with
        | true => exact ⟨rfl, h.unpin hs hg (by simpa using hsame) heq⟩
        | false => exact ⟨rfl, h.pin hg heq⟩
  | remove x =>
    refine h.onFrame fun f => ?_
    cases hg : r.record? f.index with
    | none =>
      rw [h.track_of_untracked hg]
      exact ⟨rfl, h⟩
    | some g =>
      obtain ⟨t, ht, heq⟩ := h.track_of_record? hg
      have hflag : t.evictable = g.evictable := (congrArg FrameRecord.evictable heq).symm
      rw [ht]
      dsimp only
      rw [hflag]
      by_cases he : g.evictable = true
      · rw [if_pos he, if_pos he]
        exact ⟨rfl, h.forget f.index⟩
      · rw [if_neg he, if_neg he]
        exact ⟨rfl, h⟩
  | size =>
    refine ⟨?_, h⟩
    show Except.ok (Answer.size _) = Except.ok (Answer.size _)
    rw [h.size_eq hs]

/-! ### Runs -/

section

variable {σ : Type} {logger : Logger σ}

/-- A run from a state that stands for a state of the policy. -/
theorem runAll_represents (hl : logger.Steady) (ops : List Operation) {s : Observed σ}
    (hs : Sound s.replacer) (h : Represents m s.replacer) (hfree : s.replacer.latch = .free) :
    (runAll logger ops s).1 = (m.runAll ops).1.map (Except.mapError Problem.fault) ∧
      Represents (m.runAll ops).2 (runAll logger ops s).2.replacer ∧
      Sound (runAll logger ops s).2.replacer := by
  induction ops generalizing m s with
  | nil => exact ⟨rfl, h, hs⟩
  | cons op rest ih =>
    -- one operation, which follows its course to the end
    obtain ⟨hanswer, hfinal⟩ := course_represents h hs op
    obtain ⟨houtcome, hnext⟩ := run_of_steady hl op hfree
    have hs' : Sound (run logger op s).2.replacer := by
      rw [hnext]
      exact hs.course op
    have h' : Represents (m.step op).2 (run logger op s).2.replacer := by
      rw [hnext]
      exact hfinal
    obtain ⟨hanswers, hlast⟩ := ih hs' h' (latch_run logger op hfree)
    rw [runAll_cons]
    refine ⟨?_, hlast⟩
    show _ = (Except.mapError _ (m.step op).1) ::
      ((m.step op).2.runAll rest).1.map (Except.mapError Problem.fault)
    rw [← hanswers, houtcome, hanswer]

/-- **Every run answers what the LRU-K policy answers**, as long as the logger does not fail. -/
theorem runAll_eq_lruK (hl : logger.Steady) (settings : Settings) (memory : σ)
    (ops : List Operation) :
    (runAll logger ops ⟨new settings, memory⟩).1 =
      ((LruK.new settings.numFrames settings.k).runAll ops).1.map
        (Except.mapError Problem.fault) :=
  (runAll_represents hl ops (sound_new settings) (represents_new settings) rfl).1

end

/-- A run in which room is made for a frame that is unpinned, with a logger that calls back. -/
theorem runAll_eq_lruK_asking :
    Logger.asking.Steady ∧
    (runAll Logger.asking
      [.access (.ofNat 1) .unknown, .access (.ofNat 2) .unknown, .access (.ofNat 1) .scan,
        .setEvictable (.ofNat 2) false, .remove (.ofNat 2), .access (.ofNat 0) .unknown,
        .setEvictable (.ofNat 2) true, .size, .evict, .evict, .evict, .remove (.ofNat 3)]
      ⟨new ⟨2, 2, by decide, by decide⟩, 0⟩).1 =
      [.ok .done, .ok .done, .ok .done, .ok .done,
        .error (.fault (.frameNotEvictable (.ofNat 2))), .ok .done, .ok .done, .ok (.size 2),
        .ok (.victim (some 2)), .ok (.victim (some 1)), .ok (.victim none),
        .error (.fault (.frameOutOfRange (.ofNat 3) (.ofNat 2)))] :=
  ⟨Logger.steady_asking,
    (runAll_eq_lruK Logger.steady_asking ⟨2, 2, by decide, by decide⟩ 0 _).trans (by decide)⟩

end Replacer
end StorageKit
