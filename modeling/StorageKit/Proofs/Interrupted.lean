/-
Operations that are cut short.

Wherever a report stops an operation, the state it leaves is close to the one the operation began
with:

* `Later`, `later_run` — once the access of an operation is in the records, no access of a frame is
  lost or added, and a frame that stays tracked stays in its pool;
* `pooled_run_access` — a first access that is answered has put its frame into a pool;
* `Course.Forgets`, `untracked_of_leaving` — **a frame whose leaving is reported is forgotten, in
  the state of the report and after the operation**.
-/
import StorageKit.Proofs.Intact
import StorageKit.Proofs.Pinned

namespace StorageKit
namespace Replacer

variable {σ : Type} {r r' t : Replacer} {n m : Nat} {f : FrameRecord}

/-! ### Frames that stay -/

/-- The state `r` comes after `t` in one operation, with no access between them. -/
structure Later (t r : Replacer) : Prop where
  settings_eq : r.settings = t.settings
  clock_eq : r.clock = t.clock
  accesses_eq : ∀ {n f}, r.record? n = some f → ∃ g, t.record? n = some g ∧ g.accesses = f.accesses
  pooled : ∀ {n}, n ∈ t.pooled → (r.record? n).isSome = true → n ∈ r.pooled

theorem later_refl (t : Replacer) : Later t t where
  settings_eq := rfl
  clock_eq := rfl
  accesses_eq hf := ⟨_, hf, rfl⟩
  pooled hn _ := hn

/-- A change of flags, after which no frame is missing from the pools. -/
theorem Later.adjust (h : Later t r) {change : FrameRecord → FrameRecord}
    (hrecord : r'.record? = Function.update r.record? n ((r.record? n).map change))
    (hsettings : r'.settings = r.settings) (hclock : r'.clock = r.clock)
    (hchange : ∀ f, (change f).accesses = f.accesses)
    (hpooled : ∀ m ∈ r.pooled, m ∈ r'.pooled) : Later t r' := by
  refine ⟨hsettings.trans h.settings_eq, hclock.trans h.clock_eq, ?_, ?_⟩
  · intro m f hm
    rcases record?_cases hrecord hm with ⟨rfl, hf⟩ | ⟨-, hf⟩
    · obtain ⟨f', hf', rfl⟩ := Option.map_eq_some_iff.mp hf
      rw [hchange]
      exact h.accesses_eq hf'
    · exact h.accesses_eq hf
  · intro m hm htracked
    refine hpooled m (h.pooled hm ?_)
    obtain ⟨f, hf⟩ := Option.isSome_iff_exists.mp htracked
    rcases record?_cases hrecord hf with ⟨rfl, hf⟩ | ⟨-, hf⟩
    · rw [← Option.isSome_map, hf, Option.isSome_some]
    · rw [hf, Option.isSome_some]

theorem mem_pooled_enroll (s : Nat) (hm : m = n ∨ m ∈ r.pooled) : m ∈ (enroll n s r).pooled := by
  refine mem_pooled.mpr ?_
  show m ∈ (r.recent.add n s).frames ∨ m ∈ r.aged.frames
  rw [ArrivalPool.frames_add, List.mem_append, List.mem_singleton]
  by_cases hmn : m = n
  · exact Or.inl (Or.inr hmn)
  · refine (mem_pooled.mp (hm.resolve_left hmn)).imp_left fun hrecent => Or.inl ?_
    exact List.mem_filter.mpr ⟨hrecent, by simpa using hmn⟩

theorem mem_pooled_age (f : FrameRef) (rank : Nat) (hm : m = f.index ∨ m ∈ r.pooled) :
    m ∈ (age f rank r).pooled := by
  rw [(pooled_age_perm f rank r).mem_iff, List.mem_cons]
  by_cases hmn : m = f.index
  · exact Or.inl hmn
  · exact Or.inr (List.mem_filter.mpr ⟨hm.resolve_left hmn, by simpa using hmn⟩)

theorem mem_pooled_forget (hmn : m ≠ n) (hm : m ∈ r.pooled) : m ∈ (forget n r).pooled := by
  refine mem_pooled.mpr ?_
  show m ∈ (r.recent.delete n).frames ∨
    m ∈ (if r.recent.has n then r.aged else r.aged.delete n).frames
  refine (mem_pooled.mp hm).imp (fun hrecent => ?_) fun haged => ?_
  · rw [ArrivalPool.frames_delete]
    exact List.mem_filter.mpr ⟨hrecent, by simpa using hmn⟩
  · split
    · exact haged
    · rw [RankedPool.frames_delete]
      exact List.mem_filter.mpr ⟨haged, by simpa using hmn⟩

theorem pooled_forget_sublist (n : Nat) (r : Replacer) :
    (forget n r).pooled.Sublist r.pooled := by
  show ((r.recent.delete n).frames ++
    (if r.recent.has n then r.aged else r.aged.delete n).frames).Sublist _
  rw [ArrivalPool.frames_delete]
  refine List.filter_sublist.append ?_
  split
  · exact List.Sublist.refl _
  · rw [RankedPool.frames_delete]
    exact List.filter_sublist

theorem kept_later (t : Replacer) : KeptByLaterSteps (Later t) where
  enroll n s r h := h.adjust (record?_enroll n s r) rfl rfl (fun _ => rfl)
    fun _ hm => mem_pooled_enroll s (Or.inr hm)
  age f rank r h := h.adjust (record?_age f rank r) rfl rfl (fun _ => rfl)
    fun _ hm => mem_pooled_age f rank (Or.inr hm)
  pin n r h := h.adjust (record?_pin n r) rfl rfl (fun _ => rfl) fun _ hm => hm
  unpin n r h := h.adjust (record?_unpin n r) rfl rfl (fun _ => rfl) fun _ hm => hm
  forget n r _ h := by
    have hrecord := record?_forget n r
    -- a frame that is still tracked is another one
    have hother : ∀ {m f}, (Replacer.forget n r).record? m = some f →
        m ≠ n ∧ r.record? m = some f := fun hm =>
      (record?_cases hrecord hm).resolve_left fun hself => by cases hself.2
    refine ⟨h.settings_eq, h.clock_eq, fun hm => h.accesses_eq (hother hm).2, ?_⟩
    intro m hm htracked
    obtain ⟨f, hf⟩ := Option.isSome_iff_exists.mp htracked
    obtain ⟨hmn, hf'⟩ := hother hf
    exact mem_pooled_forget hmn (h.pooled hm (by rw [hf', Option.isSome_some]))

/-- However an operation ends, its state comes after the one in which its access is noted. -/
theorem later_run (logger : Logger σ) (op : Operation) {s : Observed σ}
    (hfree : s.replacer.latch = .free) :
    Later (noted op s.replacer) (run logger op s).2.replacer :=
  ((kept_later _).course op (later_refl _)).run hfree

/-- A first access ends with its frame in a pool. -/
theorem mem_pooled_accessed (f : FrameRef) (hn : r.record? f.index = none) :
    f.index ∈ (accessed f r).pooled := by
  rw [accessed_of_untracked f hn, admitted]
  split
  · exact mem_pooled_age f _ (Or.inl rfl)
  · exact mem_pooled_enroll _ (Or.inl rfl)

/-- A first access that does not fail has put its frame into a pool. -/
theorem pooled_run_access (logger : Logger σ) {x : Number} {kind : AccessKind} {f : FrameRef}
    {s : Observed σ} (hfree : s.replacer.latch = .free) (hx : s.replacer.frame? x = some f)
    (hn : s.replacer.record? f.index = none) (hok : (run logger (.access x kind) s).1.isOk = true) :
    f.index ∈ (run logger (.access x kind) s).2.replacer.pooled := by
  have hcourse : course (.access x kind) s.replacer =
      ⟨accessReports f kind s.replacer, .ok .done, accessed f s.replacer⟩ := by
    show onFrame x s.replacer _ = _
    rw [onFrame, hx]
  rcases run_cases logger (.access x kind) hfree with ⟨-, -, problem, herror, -⟩ | ⟨-, hend⟩
  · rw [herror] at hok
    cases hok
  · rw [hend, hcourse]
    exact mem_pooled_accessed f hn

/-! ### Frames that leave -/

theorem kept_untracked (n : Nat) : KeptByLaterSteps fun r => r.record? n = none := by
  have hadjust : ∀ {r r' : Replacer} {m : Nat} {change : FrameRecord → FrameRecord},
      r'.record? = Function.update r.record? m ((r.record? m).map change) →
      r.record? n = none → r'.record? n = none := by
    intro r r' m change hrecord h
    rw [hrecord]
    by_cases hnm : n = m
    · rw [← hnm, Function.update_self, h, Option.map_none]
    · rw [Function.update_of_ne hnm, h]
  refine ⟨⟨?_⟩, ⟨?_, ?_, ?_, ?_⟩⟩
  · intro m r _ h
    rw [record?_forget]
    by_cases hnm : n = m
    · rw [hnm, Function.update_self]
    · rw [Function.update_of_ne hnm, h]
  · exact fun m s r h => hadjust (record?_enroll m s r) h
  · exact fun f rank r h => hadjust (record?_age f rank r) h
  · exact fun m r h => hadjust (record?_pin m r) h
  · exact fun m r h => hadjust (record?_unpin m r) h

theorem record?_withoutVictim_self (h : r.nextVictim.map FrameRef.index = some n) :
    r.withoutVictim.record? n = none := by
  obtain ⟨victim, hv, rfl⟩ := Option.map_eq_some_iff.mp h
  rw [withoutVictim, hv]
  show (forget victim.index r).record? victim.index = none
  rw [record?_forget, Function.update_self]

/-- A frame whose leaving is reported in a course is not tracked in the state of this report, of all
reports after it, and at the end. -/
structure Course.Forgets (c : Course) (n : Nat) : Prop where
  self : ∀ a ∈ c.reports, a.1.leaving = some n → a.2.record? n = none
  next : c.reports.Pairwise fun a b => a.1.leaving = some n → b.2.record? n = none
  final : ∀ a ∈ c.reports, a.1.leaving = some n → c.final.record? n = none

namespace Course.Forgets

/-- Reports that are all made in one state. -/
theorem of_state {c : Course} (state : Replacer) (hreports : ∀ a ∈ c.reports, a.2 = state)
    (hgone : ∀ a ∈ c.reports, a.1.leaving = some n →
      state.record? n = none ∧ c.final.record? n = none) : c.Forgets n where
  self a ha hn := hreports a ha ▸ (hgone a ha hn).1
  next := List.pairwise_of_forall_mem_list fun a ha b hb hn =>
    hreports b hb ▸ (hgone a ha hn).1
  final a ha hn := (hgone a ha hn).2

theorem of_nil {c : Course} (h : c.reports = []) : c.Forgets n := by
  refine of_state c.final (fun a ha => ?_) fun a ha => ?_ <;>
  · rw [h] at ha
    exact absurd ha List.not_mem_nil

/-- A report in front that is not about a frame that leaves. -/
theorem cons {entry : Entry} {reports : List (Entry × Replacer)}
    {outcome : Except Problem Answer} {final : Replacer} (hentry : entry.leaving = none)
    (h : (⟨reports, outcome, final⟩ : Course).Forgets n) :
    (⟨(entry, t) :: reports, outcome, final⟩ : Course).Forgets n := by
  have hne : entry.leaving ≠ some n := by
    rw [hentry]
    exact (Option.some_ne_none n).symm
  constructor
  · intro a ha hn
    rcases List.mem_cons.mp ha with rfl | ha
    · exact absurd hn hne
    · exact h.self a ha hn
  · exact List.pairwise_cons.mpr ⟨fun b _ hn => absurd hn hne, h.next⟩
  · intro a ha hn
    rcases List.mem_cons.mp ha with rfl | ha
    · exact absurd hn hne
    · exact h.final a ha hn

/-- The reports of making room, when a frame that is not tracked after it is not tracked in the end
either. -/
theorem room (f : FrameRef) {outcome : Except Problem Answer} {final : Replacer}
    (hfinal : r.withRoom.record? n = none → final.record? n = none) :
    (⟨roomReports f r, outcome, final⟩ : Course).Forgets n := by
  refine of_state r.withoutVictim (fun a ha => (roomReports_leaving f a ha).2.1) ?_
  intro a ha hn
  obtain ⟨hleaving, -, hroom⟩ := roomReports_leaving f a ha
  have hgone := record?_withoutVictim_self (hleaving.symm.trans hn)
  exact ⟨hgone, hfinal (hroom ▸ hgone)⟩

theorem access (f : FrameRef) (kind : AccessKind) (r : Replacer) (n : Nat) :
    (⟨accessReports f kind r, .ok .done, accessed f r⟩ : Course).Forgets n := by
  rw [accessReports]
  refine cons rfl ?_
  by_cases hfirst : ((touch f.index r).recordOf f.index).accessCount = 1
  · rw [if_pos hfirst]
    refine room f fun hgone => (kept_untracked n).accessed_of f (fun _ => hgone) fun hlater => ?_
    exact absurd hfirst hlater
  · rw [if_neg hfirst]
    exact of_nil rfl

end Course.Forgets

theorem course_forgets (op : Operation) (r : Replacer) (n : Nat) : (course op r).Forgets n := by
  refine course_cases (Q := fun _ c => c.Forgets n) op r ?_ ?_ ?_ ?_ ?_ ?_
  · exact fun _ _ _ => .of_nil rfl
  · exact fun x kind f _ => .access f kind r n
  · refine .of_state r.withoutVictim (fun a ha => (evictReports_leaving a ha).2) ?_
    intro a ha hn
    have hgone := record?_withoutVictim_self ((evictReports_leaving a ha).1.symm.trans hn)
    exact ⟨hgone, hgone⟩
  · exact fun x f _ _ _ _ => .room f fun hgone => (kept_untracked n).unpin f.index _ hgone
  · exact fun _ _ _ _ _ _ => .of_nil rfl
  · intro x f record _ _ _
    refine .of_state (forget f.index r) (fun a ha => by rw [List.mem_singleton.mp ha]) ?_
    intro a ha hn
    rw [List.mem_singleton.mp ha] at hn
    obtain rfl := Option.some.inj hn
    have hgone : (forget f.index r).record? f.index = none := by
      rw [record?_forget, Function.update_self]
    exact ⟨hgone, hgone⟩

/-- **A frame whose leaving is reported is forgotten**, in the state of the report and in the one
that the operation leaves, even if it is cut short. -/
theorem untracked_of_leaving (logger : Logger σ) (op : Operation) {s : Observed σ}
    (hfree : s.replacer.latch = .free) {report : Entry × Replacer}
    (hr : report ∈ seen logger op s) (hn : report.1.leaving = some n) :
    report.2.record? n = none ∧ (run logger op s).2.replacer.record? n = none := by
  have hc := course_forgets op s.replacer n
  rcases seen_cases logger op hfree with
    ⟨before, last, after, problem, hreports, hseen, -, hstop⟩ | ⟨hseen, -, hend⟩
  · rw [hseen] at hr
    obtain ⟨a, ha, rfl⟩ := List.mem_map.mp hr
    have hmem : a ∈ (course op s.replacer).reports := by
      rw [hreports, List.append_cons]
      exact List.mem_append_left _ ha
    refine ⟨hc.self a hmem hn, ?_⟩
    rw [hstop]
    rcases List.mem_append.mp ha with hbefore | hlast
    · have hnext := hc.next
      rw [hreports] at hnext
      exact (List.pairwise_append.mp hnext).2.2 a hbefore last List.mem_cons_self hn
    · rw [List.mem_singleton] at hlast
      exact hlast ▸ hc.self a hmem hn
  · rw [hseen] at hr
    obtain ⟨a, ha, rfl⟩ := List.mem_map.mp hr
    rw [hend]
    exact ⟨hc.self a ha hn, hc.final a ha hn⟩

end Replacer
end StorageKit
