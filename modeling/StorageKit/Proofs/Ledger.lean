/-
A ledger of accesses, and what agrees with it in every run.

Loggers may fail at any report and call the replacer from it.  Beside such a run somebody keeps a
ledger of the accesses to frames in range:

* `Ledger` — the number of these accesses, their times for each frame since it was last forgotten,
  and whether the first of these was cut short;
* `Tells` — the records of a replacer say what the ledger says, as far as they reach back;
* `Consistent` — what loggers cannot break;
* `consistent_runAll` — **every run ends in a consistent state, whatever the logger does**.

Design notes: the ledger sees which operations were called, how they ended and which frames are
tracked after them.  An access whose report fails is an access nevertheless, since the report is
made when the access is in the records.
-/
import StorageKit.Proofs.Interrupted
import StorageKit.Proofs.Policy
import Mathlib.Data.List.DropRight

namespace StorageKit

/-- An access keeps the last `k` times of a longer list of times. -/
theorem FrameRecord.history_touch_rtake {f : FrameRecord} {k now : Nat} {times : List Nat}
    (hk : 0 < k) (hcount : f.accessCount = times.length)
    (hhistory : f.history = times.rtake (min f.accessCount k)) :
    (f.touch k now).history = (times ++ [now]).rtake (min (f.touch k now).accessCount k) := by
  have hrtake : ∀ l : List Nat, l.rtake (min l.length k) = l.drop (l.length - k) := by
    intro l
    rw [List.rtake]
    congr 1
    omega
  have hcount' : (f.touch k now).accessCount = (times ++ [now]).length := by
    rw [List.length_append, ← hcount]
    rfl
  rw [hcount, hrtake] at hhistory
  have htouch := congrArg FrameRecord.history (Track.record_touch hk ⟨times, f.evictable⟩ now)
  rw [hcount', hrtake]
  refine Eq.trans ?_ htouch
  show (if _ then _ else _) = if _ then _ else _
  rw [hhistory]
  rfl

/-- What is noted of a run: how many accesses to frames in range there were; for every frame the
times of its accesses since it was last forgotten; and whether the operation failed that made the
first of these. -/
structure Ledger where
  clock : Nat
  times : Nat → List Nat
  cutShort : Nat → Bool

namespace Ledger

def empty : Ledger := ⟨0, fun _ => [], fun _ => false⟩

/-- One more access to a frame. -/
def access (n : Nat) (failed : Bool) (l : Ledger) : Ledger where
  clock := l.clock + 1
  times := Function.update l.times n (l.times n ++ [l.clock + 1])
  cutShort := if l.times n = [] then Function.update l.cutShort n failed else l.cutShort

/-- Frames that are not tracked were forgotten. -/
def keep (tracked : Nat → Bool) (l : Ledger) : Ledger :=
  { l with times := fun n => if tracked n then l.times n else [] }

end Ledger

namespace Replacer

variable {σ : Type} {r t : Replacer} {l : Ledger} {n : Nat} {f : FrameRecord}

/-- The frame that an operation accesses, if it is an access to a frame in range. -/
def Operation.accessed? (numFrames : Nat) : Operation → Option Nat
  | .access x _ => x.toNat?.filter fun n => n ≤ numFrames
  | _ => none

theorem accessed?_eq (r : Replacer) (op : Operation) :
    op.accessed? r.settings.numFrames = (touched r op).map FrameRef.index := by
  cases op with
  | access x kind => exact (index_frame? r x).symm
  | _ => rfl

/-- The ledger after an operation, given its outcome and the replacer it leaves. -/
def note (op : Operation) (outcome : Except Problem Answer) (r : Replacer) (l : Ledger) : Ledger :=
  let l := match op.accessed? r.settings.numFrames with
    | some n => l.access n (!outcome.isOk)
    | none => l
  l.keep fun n => (r.record? n).isSome

/-- The ledger after operations one after another. -/
def ledger (logger : Logger σ) : List Operation → Observed σ → Ledger → Ledger
  | [], _, l => l
  | op :: rest, s, l =>
    let (outcome, s) := run logger op s
    ledger logger rest s (note op outcome s.replacer l)

/-! ### Records and the ledger -/

/-- The records say what the ledger says: a frame has as many accesses as there are times, and of
these its history holds the last `k`. -/
structure Tells (l : Ledger) (r : Replacer) : Prop where
  clock_eq : l.clock = r.clock
  accessCount_eq : ∀ {n f}, r.record? n = some f → f.accessCount = (l.times n).length
  history_eq : ∀ {n f}, r.record? n = some f →
    f.history = (l.times n).rtake (min f.accessCount r.settings.k)
  times_eq_nil : ∀ {n}, r.record? n = none → l.times n = []

theorem tells_new (settings : Settings) : Tells .empty (new settings) where
  clock_eq := rfl
  accessCount_eq h := by cases h
  history_eq h := by cases h
  times_eq_nil _ := rfl

namespace Tells

theorem access (h : Tells l r) (n : Nat) (failed : Bool) :
    Tells (l.access n failed) (touch n r) := by
  have hrecord := record?_touch n r
  -- a frame that is not tracked has no times, like a fresh record
  have hself : (r.recordOf n).accessCount = (l.times n).length ∧
      (r.recordOf n).history = (l.times n).rtake (min (r.recordOf n).accessCount r.settings.k) := by
    rcases Histories.recordOf_cases r n with hf | ⟨hn, hf⟩
    · exact ⟨h.accessCount_eq hf, h.history_eq hf⟩
    · rw [hf, h.times_eq_nil hn]
      exact ⟨rfl, by simp [FrameRecord.fresh]⟩
  have hcases : ∀ {m f}, (touch n r).record? m = some f →
      m = n ∧ f = (r.recordOf n).touch r.settings.k (r.clock + 1) ∨
      m ≠ n ∧ r.record? m = some f := by
    intro m f hm
    exact (record?_cases hrecord hm).imp_left fun h => ⟨h.1, (Option.some.inj h.2).symm⟩
  have htimes : (l.access n failed).times n = l.times n ++ [r.clock + 1] := by
    rw [← h.clock_eq]
    exact Function.update_self ..
  have hother : ∀ {m}, m ≠ n → (l.access n failed).times m = l.times m :=
    fun hmn => Function.update_of_ne hmn ..
  constructor
  · exact congrArg (· + 1) h.clock_eq
  · intro m f hm
    rcases hcases hm with ⟨rfl, rfl⟩ | ⟨hmn, hf⟩
    · rw [htimes, List.length_append, ← hself.1]
      rfl
    · rw [hother hmn]
      exact h.accessCount_eq hf
  · intro m f hm
    rcases hcases hm with ⟨rfl, rfl⟩ | ⟨hmn, hf⟩
    · rw [htimes]
      exact FrameRecord.history_touch_rtake r.settings.k_pos hself.1 hself.2
    · rw [hother hmn]
      exact h.history_eq hf
  · intro m hm
    rw [hrecord] at hm
    by_cases hmn : m = n
    · rw [hmn, Function.update_self] at hm
      cases hm
    · rw [Function.update_of_ne hmn] at hm
      rw [hother hmn]
      exact h.times_eq_nil hm

/-- After an access is noted, frames are only forgotten. -/
theorem later (h : Tells l t) (hlater : Later t r) :
    Tells (l.keep fun n => (r.record? n).isSome) r := by
  have htimes : ∀ {n f}, r.record? n = some f →
      (l.keep fun n => (r.record? n).isSome).times n = l.times n := by
    intro n f hf
    show (if (r.record? n).isSome then _ else _) = _
    rw [hf, if_pos Option.isSome_some]
  constructor
  · exact h.clock_eq.trans hlater.clock_eq.symm
  · intro n f hf
    obtain ⟨g, hg, hsame⟩ := hlater.accesses_eq hf
    obtain ⟨-, hcount⟩ := (Prod.mk.injEq ..).mp hsame
    rw [htimes hf, ← hcount]
    exact h.accessCount_eq hg
  · intro n f hf
    obtain ⟨g, hg, hsame⟩ := hlater.accesses_eq hf
    obtain ⟨hhistory, hcount⟩ := (Prod.mk.injEq ..).mp hsame
    rw [htimes hf, ← hcount, ← hhistory, hlater.settings_eq]
    exact h.history_eq hg
  · intro n hn
    show (if (r.record? n).isSome then _ else _) = _
    rw [hn, if_neg (by simp)]

/-- A frame without times is not tracked. -/
theorem untracked_iff (h : Tells l r) (hh : Histories r) : r.record? n = none ↔ l.times n = [] := by
  refine ⟨h.times_eq_nil, fun htimes => ?_⟩
  cases hn : r.record? n with
  | none => rfl
  | some f =>
    have hcount := h.accessCount_eq hn
    have hpos := hh.accessed hn
    rw [htimes, List.length_nil] at hcount
    omega

end Tells

/-! ### Operations with a logger -/

/-- Tracked frames are in a pool, but for those whose first access was cut short. -/
def Admitted (l : Ledger) (r : Replacer) : Prop :=
  ∀ n, (r.record? n).isSome = true → l.cutShort n = false → n ∈ r.pooled

section

variable {s : Observed σ} (logger : Logger σ) (op : Operation)

theorem settings_run (hfree : s.replacer.latch = .free) :
    (run logger op s).2.replacer.settings = s.replacer.settings :=
  ((kept_settings s.replacer.settings).course rfl op).run hfree

theorem tells_run (h : Tells l s.replacer) (hfree : s.replacer.latch = .free) :
    Tells (note op (run logger op s).1 (run logger op s).2.replacer l)
      (run logger op s).2.replacer := by
  have hlater := later_run logger op hfree
  rw [note, settings_run logger op hfree, accessed?_eq]
  cases hop : touched s.replacer op with
  | none =>
    rw [noted_of_not_touched hop] at hlater
    exact h.later hlater
  | some f =>
    rw [noted_of_touched hop] at hlater
    exact (h.access f.index _).later hlater

theorem admitted_run (h : Admitted l s.replacer) (ht : Tells l s.replacer)
    (hh : Histories s.replacer) (hfree : s.replacer.latch = .free) :
    Admitted (note op (run logger op s).1 (run logger op s).2.replacer l)
      (run logger op s).2.replacer := by
  intro n htracked hcut
  have hlater := later_run logger op hfree
  obtain ⟨g, hg⟩ := Option.isSome_iff_exists.mp htracked
  obtain ⟨g', hg', -⟩ := hlater.accesses_eq hg
  rw [note, settings_run logger op hfree, accessed?_eq] at hcut
  cases hop : touched s.replacer op with
  | none =>
    rw [noted_of_not_touched hop] at hlater hg'
    rw [hop] at hcut
    exact hlater.pooled (h n (by rw [hg', Option.isSome_some]) hcut) htracked
  | some f =>
    rw [noted_of_touched hop] at hlater hg'
    rw [hop] at hcut
    have hcut' : (if l.times f.index = [] then
        Function.update l.cutShort f.index (!(run logger op s).1.isOk) else l.cutShort) n =
          false := hcut
    rw [record?_touch] at hg'
    by_cases hn : n = f.index
    · subst hn
      cases hf : s.replacer.record? f.index with
      | none =>
        -- a first access, which did not fail
        rw [if_pos (ht.times_eq_nil hf), Function.update_self, Bool.not_eq_false'] at hcut'
        cases op with
        | access x kind => exact pooled_run_access logger hfree hop hf hcut'
        | _ => cases hop
      | some g'' =>
        -- a later access, which leaves the frame in its pool even if it fails
        have htimes : l.times f.index ≠ [] := by
          rw [Ne, ← ht.untracked_iff hh, hf]
          exact Option.some_ne_none g''
        rw [if_neg htimes] at hcut'
        refine hlater.pooled ?_ htracked
        exact h f.index (by rw [hf, Option.isSome_some]) hcut'
    · -- an access to another frame, of which the ledger notes nothing for this one
      rw [Function.update_of_ne hn] at hg'
      have hcut'' : l.cutShort n = false := by
        split at hcut'
        · rwa [Function.update_of_ne hn] at hcut'
        · exact hcut'
      refine hlater.pooled ?_ htracked
      exact h n (by rw [hg', Option.isSome_some]) hcut''

end

/-- What loggers cannot break.  The latch is free, the size that is answered is the number of the
tracked frames that may be evicted, the pools hold tracked frames only and no frame twice, and every
tracked frame whose first access was not cut short is in one of them.  Histories are strictly
increasing and hold the last times of their frame.  And a frame whose leaving is reported is gone at
once from the records and the pools, and is still gone when the operation ends. -/
structure Consistent (logger : Logger σ) (l : Ledger) (s : Observed σ) : Prop where
  released : s.replacer.latch = .free
  size_eq : (run logger .size s).1 = .ok (.size s.replacer.evictables.card)
  recent_once : s.replacer.recent.frames.Nodup
  aged_once : s.replacer.aged.frames.Nodup
  disjoint : ∀ n ∈ s.replacer.recent.frames, n ∉ s.replacer.aged.frames
  tracked : ∀ n, n ∈ s.replacer.recent.frames ∨ n ∈ s.replacer.aged.frames →
    (s.replacer.record? n).isSome = true
  admitted : ∀ n, (s.replacer.record? n).isSome = true → l.cutShort n = false →
    Xor (n ∈ s.replacer.recent.frames) (n ∈ s.replacer.aged.frames)
  increasing : ∀ {n f}, s.replacer.record? n = some f → f.history.Pairwise (· < ·)
  accessCount_eq : ∀ {n f}, s.replacer.record? n = some f → f.accessCount = (l.times n).length
  history_eq : ∀ {n f}, s.replacer.record? n = some f →
    f.history = (l.times n).rtake (min f.accessCount s.replacer.settings.k)
  forgotten : ∀ op, ∀ report ∈ seen logger op s, ∀ n, report.1.leaving = some n →
    ∀ r, r = report.2 ∨ r = (run logger op s).2.replacer →
      r.record? n = none ∧ n ∉ r.recent.frames ∧ n ∉ r.aged.frames

section

variable {s : Observed σ} {logger : Logger σ}

/-- The size is answered without a report, so it does not depend on the logger. -/
theorem run_size (logger : Logger σ) (hfree : s.replacer.latch = .free) :
    (run logger .size s).1 = .ok (.size s.replacer.evictableCount) := by
  rw [run_eq_follow logger .size hfree]
  rfl

theorem Intact.forgotten (h : Intact s.replacer) (hfree : s.replacer.latch = .free)
    {op : Operation} {report : Entry × Replacer} (hr : report ∈ seen logger op s)
    (hn : report.1.leaving = some n) {r : Replacer}
    (hstate : r = report.2 ∨ r = (run logger op s).2.replacer) :
    r.record? n = none ∧ n ∉ r.pooled := by
  obtain ⟨hreport, hend⟩ := untracked_of_leaving logger op hfree hr hn
  have halways := Intact.course op s.replacer h
  rcases hstate with rfl | rfl
  · obtain ⟨t, hmem, heq⟩ := mem_seen hfree hr
    have ht : Intact t := halways.1 _ hmem
    rw [heq] at hreport ⊢
    exact ⟨hreport, ht.not_pooled hreport⟩
  · exact ⟨hend, (halways.run hfree).not_pooled hend⟩

theorem consistent_of_intact (hfree : s.replacer.latch = .free) (h : Intact s.replacer)
    (ht : Tells l s.replacer) (ha : Admitted l s.replacer) : Consistent logger l s := by
  obtain ⟨hrecent, haged, hdisjoint⟩ := List.nodup_append.mp h.once
  have hnot : ∀ n ∈ s.replacer.recent.frames, n ∉ s.replacer.aged.frames :=
    fun n hr ha => hdisjoint n hr n ha rfl
  refine {
    released := hfree
    size_eq := (run_size logger hfree).trans (by rw [h.size_eq])
    recent_once := hrecent
    aged_once := haged
    disjoint := hnot
    tracked := fun n hn => h.tracked n (mem_pooled.mpr hn)
    admitted := fun n htracked hcut => ?_
    increasing := h.histories.increasing
    accessCount_eq := ht.accessCount_eq
    history_eq := ht.history_eq
    forgotten := fun op report hr n hn r hstate => ?_ }
  · rcases mem_pooled.mp (ha n htracked hcut) with hmem | hmem
    · exact Or.inl ⟨hmem, hnot n hmem⟩
    · exact Or.inr ⟨hmem, fun hr => hnot n hr hmem⟩
  · obtain ⟨huntracked, hpooled⟩ := h.forgotten hfree hr hn hstate
    rw [mem_pooled, not_or] at hpooled
    exact ⟨huntracked, hpooled⟩

end

/-- What a run keeps: the state is intact, and the ledger is right about it. -/
theorem runAll_keeps (logger : Logger σ) (ops : List Operation) {s : Observed σ} {l : Ledger}
    (hfree : s.replacer.latch = .free) (h : Intact s.replacer) (ht : Tells l s.replacer)
    (ha : Admitted l s.replacer) :
    Intact (runAll logger ops s).2.replacer ∧
      Tells (ledger logger ops s l) (runAll logger ops s).2.replacer ∧
      Admitted (ledger logger ops s l) (runAll logger ops s).2.replacer := by
  induction ops generalizing s l with
  | nil => exact ⟨h, ht, ha⟩
  | cons op rest ih =>
    exact ih (latch_run logger op hfree) ((Intact.course op _ h).run hfree)
      (tells_run logger op ht hfree) (admitted_run logger op ha ht h.histories hfree)

/-- The same for a run that begins with a new replacer and an empty ledger. -/
theorem runAll_new_keeps (logger : Logger σ) (settings : Settings) (memory : σ)
    (ops : List Operation) :
    Intact (runAll logger ops ⟨new settings, memory⟩).2.replacer ∧
      Tells (ledger logger ops ⟨new settings, memory⟩ .empty)
        (runAll logger ops ⟨new settings, memory⟩).2.replacer ∧
      Admitted (ledger logger ops ⟨new settings, memory⟩ .empty)
        (runAll logger ops ⟨new settings, memory⟩).2.replacer :=
  runAll_keeps logger ops rfl (intact_new settings) (tells_new settings) fun n hn => by cases hn

/-- **What no logger can break.**  In every run, with any logger, the state after every operation is
consistent with the ledger of the run. -/
theorem consistent_runAll (logger : Logger σ) (settings : Settings) (memory : σ)
    (ops : List Operation) :
    Consistent logger (ledger logger ops ⟨new settings, memory⟩ .empty)
      (runAll logger ops ⟨new settings, memory⟩).2 := by
  obtain ⟨hintact, htells, hadmitted⟩ := runAll_new_keeps logger settings memory ops
  exact consistent_of_intact (latch_runAll logger ops rfl) hintact htells hadmitted

end Replacer
end StorageKit
