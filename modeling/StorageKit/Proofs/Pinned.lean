/-
Pinned frames.

A frame that is tracked and may not be evicted is pinned.  Nothing but an unpinning that succeeds
makes it possible to reclaim it, whatever the logger does:

* `IsPinned` — the frame is pinned;
* `course_spares` — what the course of one operation does to a pinned frame;
* `Spares` — what is left undone to a pinned frame by an operation with a logger;
* `pinned_until_unpinned` — **in every run a pinned frame stays pinned and is spared by every
  operation, until it is unpinned**.

Design notes: an unpinning whose report fails leaves the frame pinned, so what ends the time in
which a frame is spared is an unpinning that is answered.
-/
import StorageKit.Proofs.Sound

namespace StorageKit

/-- The frame that left, as an entry tells it. -/
def Entry.leaving : Entry → Option Nat
  | .accessed .. => none
  | .evicted victim => some victim.index
  | .madeRoom _ victim => victim.map FrameRef.index
  | .removed frame => some frame.index

/-- What a record says about the accesses to its frame. -/
def FrameRecord.accesses (f : FrameRecord) : List Nat × Nat := (f.history, f.accessCount)

namespace Replacer

namespace Operation

/-- An access to the frame. -/
def accesses (n : Nat) : Operation → Bool
  | .access x _ => x.toNat? = some n
  | _ => false

/-- A request that the frame may be evicted. -/
def unpins (n : Nat) : Operation → Bool
  | .setEvictable x evictable => evictable && x.toNat? = some n
  | _ => false

end Operation

/-- The frame is tracked and may not be evicted. -/
def IsPinned (n : Nat) (r : Replacer) : Prop :=
  ∃ f, r.record? n = some f ∧ f.evictable = false

variable {σ : Type} {r : Replacer} {n : Nat} {f : FrameRecord}

/-! ### Courses -/

theorem index_nextVictim_ne (hn : r.isEvictable n = false) :
    r.nextVictim.map FrameRef.index ≠ some n := by
  intro h
  obtain ⟨victim, hv, rfl⟩ := Option.map_eq_some_iff.mp h
  rw [nextVictim_spec hv] at hn
  exact absurd hn (by simp)

/-- An eviction is reported when the victim is forgotten. -/
theorem evictReports_leaving :
    ∀ report ∈ evictReports r,
      report.1.leaving = r.nextVictim.map FrameRef.index ∧ report.2 = r.withoutVictim := by
  intro report hr
  rw [evictReports] at hr
  cases hv : r.nextVictim with
  | none =>
    rw [hv] at hr
    exact absurd hr List.not_mem_nil
  | some victim =>
    rw [hv] at hr
    rw [List.mem_singleton.mp hr, withoutVictim, hv]
    exact ⟨rfl, rfl⟩

theorem roomReports_leaving (f : FrameRef) :
    ∀ report ∈ roomReports f r, report.1.leaving = r.nextVictim.map FrameRef.index ∧
      report.2 = r.withoutVictim ∧ r.withRoom = r.withoutVictim := by
  intro report hr
  rw [roomReports] at hr
  split at hr
  · next hfull =>
    have hroom : r.withRoom = r.withoutVictim := by rw [withRoom, if_pos hfull]
    rcases List.mem_append.mp hr with hr | hr
    · obtain ⟨hleaving, hstate⟩ := evictReports_leaving report hr
      exact ⟨hleaving, hstate, hroom⟩
    · rw [List.mem_singleton.mp hr]
      exact ⟨rfl, rfl, hroom⟩
  · exact absurd hr List.not_mem_nil

/-- Evictions are about frames that may be evicted, and change no other record. -/
theorem evictReports_spare (hn : r.isEvictable n = false) :
    ∀ report ∈ evictReports r,
      report.1.leaving ≠ some n ∧ report.2.record? n = r.record? n := by
  intro report hr
  obtain ⟨hleaving, hstate⟩ := evictReports_leaving report hr
  rw [hleaving, hstate]
  exact ⟨index_nextVictim_ne hn, record?_withoutVictim hn⟩

theorem roomReports_spare (f : FrameRef) (hn : r.isEvictable n = false) :
    ∀ report ∈ roomReports f r,
      report.1.leaving ≠ some n ∧ report.2.record? n = r.record? n := by
  intro report hr
  obtain ⟨hleaving, hstate, -⟩ := roomReports_leaving f report hr
  rw [hleaving, hstate]
  exact ⟨index_nextVictim_ne hn, record?_withoutVictim hn⟩

/-- An access to another frame changes nothing about a frame that may not be evicted. -/
theorem record?_accessed_of_ne {g : FrameRef} (hne : n ≠ g.index)
    (hn : r.isEvictable n = false) : (accessed g r).record? n = r.record? n := by
  have htouch : (touch g.index r).record? n = r.record? n := by
    rw [record?_touch, Function.update_of_ne hne]
  have hn' : (touch g.index r).isEvictable n = false := by
    rw [isEvictable_touch]
    exact hn
  unfold accessed
  extract_lets t record u
  have hu : u.record? n = r.record? n := by
    show (if _ then _ else _ : Replacer).record? n = _
    split
    · rw [record?_enroll, Function.update_of_ne hne, record?_withRoom hn', htouch]
    · exact htouch
  split
  · rw [record?_age, Function.update_of_ne hne, hu]
  · exact hu

/-- What a course does to a pinned frame: no report is about its leaving, and it stays pinned up to
the last report and beyond that, unless it is unpinned; only an access changes its history. -/
structure Course.SparesPinned (c : Course) (op : Operation) (n : Nat) (f : FrameRecord) : Prop where
  reports : ∀ report ∈ c.reports, report.1.leaving ≠ some n ∧
    ∃ g, report.2.record? n = some g ∧ g.evictable = false ∧ (op.accesses n = false → g = f)
  final : ∃ g, c.final.record? n = some g ∧
    (g.evictable = true → op.unpins n = true ∧ c.outcome = .ok .done) ∧
    (op.accesses n = false → g.accesses = f.accesses)

/-- A course of which a pinned frame sees nothing. -/
theorem Course.SparesPinned.of_same {c : Course} {op : Operation} (hf : f.evictable = false)
    (hreports : ∀ report ∈ c.reports,
      report.1.leaving ≠ some n ∧ report.2.record? n = some f)
    (hfinal : c.final.record? n = some f) : c.SparesPinned op n f where
  reports report hr := ⟨(hreports report hr).1, f, (hreports report hr).2, hf, fun _ => rfl⟩
  final := ⟨f, hfinal, fun h => absurd (h.symm.trans hf) Bool.noConfusion, fun _ => rfl⟩

/-- A later access makes one report, and room for nobody. -/
theorem accessReports_of_tracked (g : FrameRef) (kind : AccessKind)
    (hg : r.record? g.index = some f) (hpos : 0 < f.accessCount) :
    accessReports g kind r = [(.accessed g kind (r.clock + 1), touch g.index r)] := by
  have hlater : ((touch g.index r).recordOf g.index).accessCount ≠ 1 := by
    rw [recordOf_touch_self, recordOf_of_record? hg]
    show f.accessCount + 1 ≠ 1
    omega
  rw [accessReports, if_neg hlater]
  rfl

theorem access_spares_self {op : Operation} (hh : Histories r) {g : FrameRef}
    (hg : r.record? g.index = some f) (hf : f.evictable = false) (kind : AccessKind)
    (hop : op.accesses g.index = true) :
    (⟨accessReports g kind r, .ok .done, accessed g r⟩ : Course).SparesPinned op g.index f := by
  have hpos := hh.accessed hg
  have hcontra : ∀ {p : Prop}, op.accesses g.index = false → p := fun h => by
    rw [hop] at h
    cases h
  constructor
  · intro report hr
    rw [accessReports_of_tracked g kind hg hpos] at hr
    rw [List.mem_singleton.mp hr]
    refine ⟨by simp [Entry.leaving], f.touch r.settings.k (r.clock + 1), ?_, hf, hcontra⟩
    show (touch g.index r).record? g.index = _
    rw [record?_touch, Function.update_self, recordOf_of_record? hg]
  · obtain ⟨signed, hrecord⟩ := exists_record?_accessed g hg hpos
    refine ⟨{ f.touch r.settings.k (r.clock + 1) with signed }, ?_, fun h => ?_, hcontra⟩
    swap
    · exact absurd (h.symm.trans hf) Bool.noConfusion
    show (accessed g r).record? g.index = _
    rw [hrecord, Function.update_self]

theorem access_spares_other {op : Operation} {g : FrameRef} (hn : r.record? n = some f)
    (hf : f.evictable = false) (kind : AccessKind) (hne : n ≠ g.index) :
    (⟨accessReports g kind r, .ok .done, accessed g r⟩ : Course).SparesPinned op n f := by
  have hpinned : r.isEvictable n = false := (isEvictable_of_record? hn).trans hf
  have htouch : (touch g.index r).record? n = some f := by
    rw [record?_touch, Function.update_of_ne hne, hn]
  refine .of_same hf (fun report hr => ?_) ((record?_accessed_of_ne hne hpinned).trans hn)
  rcases List.mem_cons.mp hr with rfl | hr
  · exact ⟨by simp [Entry.leaving], htouch⟩
  · split at hr
    · obtain ⟨hleaving, hsame⟩ := roomReports_spare g
        ((isEvictable_of_record? htouch).trans hf) report hr
      exact ⟨hleaving, hsame.trans htouch⟩
    · exact absurd hr List.not_mem_nil

/-- The course of every operation spares a pinned frame. -/
theorem course_spares (hh : Histories r) (hn : r.record? n = some f) (hf : f.evictable = false)
    (op : Operation) : (course op r).SparesPinned op n f := by
  have hpinned : r.isEvictable n = false := (isEvictable_of_record? hn).trans hf
  have hroom : ∀ g, ∀ report ∈ roomReports g r,
      report.1.leaving ≠ some n ∧ report.2.record? n = some f := by
    intro g report hr
    obtain ⟨hleaving, hsame⟩ := roomReports_spare g hpinned report hr
    exact ⟨hleaving, hsame.trans hn⟩
  have hwithRoom := (record?_withRoom hpinned).trans hn
  -- a frame that may be evicted is another one
  have hother : ∀ {g record}, r.record? g = some record → record.evictable = true → n ≠ g := by
    rintro g record hg he rfl
    obtain rfl := Option.some.inj (hn.symm.trans hg)
    rw [hf] at he
    cases he
  refine course_cases (Q := fun op c => c.SparesPinned op n f) op r ?_ ?_ ?_ ?_ ?_ ?_
  · exact fun _ _ _ => .of_same hf (fun report hr => absurd hr List.not_mem_nil) hn
  · intro x kind g hx
    by_cases hne : n = g.index
    · subst hne
      exact access_spares_self hh hn hf kind (decide_eq_true (frame?_spec hx).1)
    · exact access_spares_other hn hf kind hne
  · refine .of_same hf (fun report hr => ?_) ((record?_withoutVictim hpinned).trans hn)
    obtain ⟨hleaving, hsame⟩ := evictReports_spare hpinned report hr
    exact ⟨hleaving, hsame.trans hn⟩
  · intro x g record hx _ _
    by_cases hne : n = g.index
    · -- the frame is unpinned once there is room for it
      subst hne
      have hop : (Operation.setEvictable x true).unpins g.index = true :=
        decide_eq_true (frame?_spec hx).1
      refine ⟨fun report hr => ⟨(hroom g report hr).1, f, (hroom g report hr).2, hf,
        fun _ => rfl⟩, { f with evictable := true }, ?_, fun _ => ⟨hop, rfl⟩, fun _ => rfl⟩
      show (unpin g.index r.withRoom).record? g.index = _
      rw [record?_unpin, Function.update_self, hwithRoom]
      rfl
    · refine .of_same hf (hroom g) ?_
      show (unpin g.index r.withRoom).record? n = _
      rw [record?_unpin, Function.update_of_ne hne, hwithRoom]
  · intro x g record _ hg he
    refine .of_same hf (fun report hr => absurd hr List.not_mem_nil) ?_
    show (pin g.index r).record? n = _
    rw [record?_pin, Function.update_of_ne (hother hg he), hn]
  · intro x g record _ hg he
    have hne := hother hg he
    have hforget : (forget g.index r).record? n = some f := by
      rw [record?_forget, Function.update_of_ne hne, hn]
    refine .of_same hf (fun report hr => ?_) hforget
    rw [List.mem_singleton.mp hr]
    exact ⟨fun h => hne (Option.some.inj h).symm, hforget⟩

/-! ### Operations with a logger -/

/-- What is left undone to a pinned frame by an operation with a logger: it is not answered as a
victim, a request to remove it is refused, no report is about its leaving, it is pinned in all
states a logger gets to see, where every call is refused, and only an access to the frame itself
changes its history and the count of its accesses. -/
structure Spares (logger : Logger σ) (op : Operation) (n : Nat) (s : Observed σ) : Prop where
  not_victim : op = .evict → (run logger op s).1 ≠ .ok (.victim (some n))
  not_removed : ∀ x, op = .remove x → x.toNat? = some n →
    (run logger op s).1 = .error (.fault (.frameNotEvictable x))
  not_leaving : ∀ report ∈ seen logger op s, report.1.leaving ≠ some n
  pinned : ∀ report ∈ seen logger op s, IsPinned n report.2
  refused : ∀ report ∈ seen logger op s, ∀ call,
    quietly call report.2 = (.error (.fault .reentered), report.2)
  same_accesses : op.accesses n = false →
    ∀ r, r = (run logger op s).2.replacer ∨ r ∈ (seen logger op s).map Prod.snd →
      (r.record? n).map FrameRecord.accesses =
        (s.replacer.record? n).map FrameRecord.accesses

section

variable {logger : Logger σ} {s : Observed σ}

/-- The course of a request to remove a pinned frame. -/
theorem course_remove_pinned (hh : Histories r) (hn : r.record? n = some f)
    (hf : f.evictable = false) {x : Number} (hx : x.toNat? = some n) :
    course (.remove x) r = .answer (.error (.fault (.frameNotEvictable x))) r := by
  obtain ⟨g, hg, rfl⟩ := frame?_of_toNat? hx (hh.inRange hn)
  show onFrame x r _ = _
  rw [onFrame, hg]
  dsimp only
  rw [hn]
  dsimp only
  rw [if_neg (by simp [hf])]

/-- **An operation spares a pinned frame**, whatever the logger does. -/
theorem run_spares (logger : Logger σ) (op : Operation) (hfree : s.replacer.latch = .free)
    (hh : Histories s.replacer) (hp : IsPinned n s.replacer) : Spares logger op n s := by
  obtain ⟨f, hn, hf⟩ := hp
  have hc := course_spares hh hn hf op
  constructor
  · rintro rfl h
    rcases run_cases logger .evict hfree with ⟨-, -, problem, herror, -⟩ | ⟨houtcome, -⟩
    · rw [herror] at h
      cases h
    · rw [houtcome] at h
      have hvictim : s.replacer.nextVictim.map FrameRef.index = some n := by
        injection h with h
        injection h
      exact index_nextVictim_ne ((isEvictable_of_record? hn).trans hf) hvictim
  · rintro x rfl hx
    have hcourse := course_remove_pinned hh hn hf hx
    rcases run_cases logger (.remove x) hfree with ⟨report, hr, -⟩ | ⟨houtcome, -⟩
    · rw [hcourse] at hr
      exact absurd hr List.not_mem_nil
    · rw [houtcome, hcourse]
      rfl
  · intro report hr
    obtain ⟨r, hmem, -⟩ := mem_seen hfree hr
    exact (hc.reports _ hmem).1
  · intro report hr
    obtain ⟨r, hmem, heq⟩ := mem_seen hfree hr
    obtain ⟨-, g, hg, hpinned, -⟩ := hc.reports _ hmem
    rw [heq]
    exact ⟨g, hg, hpinned⟩
  · intro report hr call
    obtain ⟨r, -, heq⟩ := mem_seen hfree hr
    rw [heq]
    exact quietly_of_held call rfl
  · intro hop r hr
    have hreport : ∀ made ∈ (course op s.replacer).reports,
        (made.2.record? n).map FrameRecord.accesses =
          (s.replacer.record? n).map FrameRecord.accesses := by
      intro made hmade
      obtain ⟨-, g, hg, -, hsame⟩ := hc.reports made hmade
      rw [hg, hn, hsame hop]
    rcases hr with rfl | hr
    · rcases run_cases logger op hfree with ⟨made, hmade, -, -, hstop⟩ | ⟨-, hend⟩
      · rw [hstop]
        exact hreport made hmade
      · obtain ⟨g, hg, -, hsame⟩ := hc.final
        rw [hend, hg, hn, Option.map_some, Option.map_some, hsame hop]
    · obtain ⟨report, hreport', rfl⟩ := List.mem_map.mp hr
      obtain ⟨r, hmem, heq⟩ := mem_seen hfree hreport'
      rw [heq]
      exact hreport _ hmem

/-- A frame is pinned after an operation that does not unpin it with success. -/
theorem pinned_run (op : Operation) (hfree : s.replacer.latch = .free)
    (hh : Histories s.replacer) (hp : IsPinned n s.replacer)
    (hop : op.unpins n = true → (run logger op s).1.isOk = false) :
    IsPinned n (run logger op s).2.replacer := by
  obtain ⟨f, hn, hf⟩ := hp
  have hc := course_spares hh hn hf op
  rcases run_cases logger op hfree with ⟨report, hr, -, -, hstop⟩ | ⟨houtcome, hend⟩
  · obtain ⟨-, g, hg, hpinned, -⟩ := hc.reports report hr
    rw [hstop]
    exact ⟨g, hg, hpinned⟩
  · obtain ⟨g, hg, hunpinned, -⟩ := hc.final
    rw [hend]
    refine ⟨g, hg, Bool.eq_false_iff.mpr fun he => ?_⟩
    -- otherwise the operation unpinned the frame and was answered
    obtain ⟨hunpins, hok⟩ := hunpinned he
    have hfailed := hop hunpins
    rw [houtcome, hok] at hfailed
    exact absurd hfailed (by simp [Except.isOk, Except.toBool])

/-- A frame is pinned as long as no operation unpins it with success. -/
theorem pinned_runAll (ops : List Operation) (hfree : s.replacer.latch = .free)
    (hh : Histories s.replacer) (hp : IsPinned n s.replacer)
    (huntil : ∀ p ∈ ops.zip (runAll logger ops s).1,
      p.1.unpins n = true → p.2.isOk = false) :
    IsPinned n (runAll logger ops s).2.replacer := by
  induction ops generalizing s with
  | nil => exact hp
  | cons op rest ih =>
    rw [runAll_cons, List.zip_cons_cons] at huntil
    have hp' := pinned_run op hfree hh hp fun h =>
      huntil _ List.mem_cons_self h
    exact ih (latch_run logger op hfree) ((kept_histories.course hh op).run hfree) hp'
      fun p hmem => huntil p (List.mem_cons_of_mem _ hmem)

/-- **A pinned frame is not reclaimed until it is unpinned.**  In every run, with any logger, a
frame that is pinned at some point is still pinned at every later point up to which no unpinning
of it was answered, and the operation that comes next spares it. -/
theorem pinned_until_unpinned (logger : Logger σ) (settings : Settings) (memory : σ)
    (before after : List Operation) (n : Nat) {t : Observed σ}
    (hs : s = (runAll logger before ⟨new settings, memory⟩).2)
    (ht : t = (runAll logger after s).2) (hp : IsPinned n s.replacer)
    (huntil : ∀ p ∈ after.zip (runAll logger after s).1,
      p.1.unpins n = true → p.2.isOk = false) :
    IsPinned n t.replacer ∧ ∀ op, Spares logger op n t := by
  subst hs ht
  -- the histories hold in every run, so that a pinned frame was accessed before
  have hfree := latch_runAll logger before (s := ⟨new settings, memory⟩) rfl
  have hh := kept_histories.runAll logger before (s := ⟨new settings, memory⟩)
    (histories_new settings) rfl
  have hp' := pinned_runAll after hfree hh hp huntil
  refine ⟨hp', fun op => run_spares logger op (latch_runAll logger after hfree) ?_ hp'⟩
  exact kept_histories.runAll logger after hh hfree

end

/-- A logger that fails at evictions, and at all other reports tries to unpin frame `2`. -/
def meddling : Logger Nat := fun entry reports =>
  match entry with
  | .evicted _ => .fail (.error "disk full") (reports + 1)
  | _ => .call (.setEvictable (.ofNat 2) true) fun _ => .done (reports + 1)

/-- A run in which the frame would have been unpinned, had the logger not failed. -/
theorem pinned_until_unpinned_meddling :
    ∃ s t : Observed Nat,
      s = (runAll meddling
        [.access (.ofNat 1) .scan, .access (.ofNat 2) .scan, .setEvictable (.ofNat 2) false]
        ⟨new ⟨2, 2, by decide, by decide⟩, 0⟩).2 ∧
      t = (runAll meddling [.access (.ofNat 0) .scan, .setEvictable (.ofNat 2) true] s).2 ∧
      (runAll meddling [.access (.ofNat 0) .scan, .setEvictable (.ofNat 2) true] s).1 =
        [.ok .done, .error (.error "disk full")] ∧
      IsPinned 2 t.replacer ∧ ∀ op, Spares meddling op 2 t :=
  ⟨_, _, rfl, rfl, by decide, pinned_until_unpinned meddling ⟨2, 2, by decide, by decide⟩ 0
    [.access (.ofNat 1) .scan, .access (.ofNat 2) .scan, .setEvictable (.ofNat 2) false]
    [.access (.ofNat 0) .scan, .setEvictable (.ofNat 2) true] 2 rfl rfl
    ⟨⟨[2], 1, false, false⟩, by decide, rfl⟩ (by decide)⟩

end Replacer
end StorageKit
