/-
Pools that answer alike.

Two pools that list the same frames answer every query alike; what tells pools apart is where they
put a frame that is added.  The searched pool is followed here next to the two pools that are plain
lists:

* `VictimPool.Alike` — a relation of pools that list the same frames and stay related when a frame
  is deleted from both;
* `SearchedPool.answers_eq_ranked` — **the searched pool answers as the ranked pool does**, for
  ranks of which every one is above the lower or below the higher of two that are in order, as with
  the times that a replacer takes for ranks (`SearchedPool.answers_eq_ranked_of_times`);
* `SearchedPool.answers_eq_arrival` — it answers as the pool in order of arrival does, as long as no
  rank is below an earlier one;
* `ArrivalPool.answers_eq` — the pool in order of arrival answers the same whatever the ranks are;
* `VictimPool.in_order_of_arrival` — **the last two together**.

Design notes: frames are compared by a test that need not tell all of them apart, as with the two
zeros when numbers are frames (`Number.sameKey`).  Ranks that never fall are taken as they are, so
`nan` may be among them: no place has to be found for it, since a new frame goes to the end.
-/
import StorageKit.Pool.Arrival
import StorageKit.Pool.Ranked
import StorageKit.Proofs.Lists
import StorageKit.Proofs.RankOrder
import StorageKit.Proofs.Tickets

namespace StorageKit
namespace VictimPool

section

variable {P Q F R S : Type} [VictimPool P F R] [VictimPool Q F S]

/-- The call without the rank that it adds. -/
def Call.withoutRank : Call F R → Call F Unit
  | .add f _ => .add f ()
  | .delete f => .delete f
  | .has f => .has f
  | .victim isEvictable => .victim isEvictable
  | .size => .size
  | .frames => .frames

/-- The ranks that are added, in order. -/
def ranks (calls : List (Call F R)) : List R :=
  calls.filterMap fun
    | .add _ r => some r
    | _ => none

omit [VictimPool P F R] in
theorem ranks_cons (c : Call F R) (rest : List (Call F R)) :
    ranks (c :: rest) = ranks [c] ++ ranks rest := by
  rw [← List.singleton_append, ranks, List.filterMap_append]
  rfl

/-- Related pools list the same frames, and stay related when a frame is deleted from both. -/
structure Alike (related : P → Q → Prop) : Prop where
  has_eq : ∀ {p q}, related p q → ∀ f, has f p = has f q
  size_eq : ∀ {p q}, related p q → size p = size q
  frames_eq : ∀ {p q}, related p q → frames p = frames q
  delete : ∀ {p q}, related p q → ∀ f, related (delete f p) (delete f q)

/-- One call on each of two related pools, if they stay related when it adds a frame. -/
theorem Alike.answer {related : P → Q → Prop} (h : Alike related) {p : P} {q : Q}
    (hpq : related p q) {c : Call F R} {d : Call F S} (hcd : c.withoutRank = d.withoutRank)
    (hadd : ∀ f r s, c = .add f r → d = .add f s → related (add f r p) (add f s q)) :
    (VictimPool.answer c p).1 = (VictimPool.answer d q).1 ∧
      related (VictimPool.answer c p).2 (VictimPool.answer d q).2 := by
  cases c <;> cases d <;> cases hcd
  case add.add.refl f r s => exact ⟨rfl, hadd f r s rfl rfl⟩
  case delete.delete.refl f => exact ⟨congrArg Answer.flag (h.has_eq hpq f), h.delete hpq f⟩
  case has.has.refl f => exact ⟨congrArg Answer.flag (h.has_eq hpq f), hpq⟩
  case victim.victim.refl isEvictable =>
    exact ⟨congrArg (fun fs => Answer.search (Search.first isEvictable fs)) (h.frames_eq hpq), hpq⟩
  case size.size.refl => exact ⟨congrArg Answer.count (h.size_eq hpq), hpq⟩
  case frames.frames.refl => exact ⟨congrArg Answer.order (h.frames_eq hpq), hpq⟩

end

end VictimPool

open VictimPool (Call answers ranks)

/-! ### In order of rank -/

section

variable {F R : Type} [BEq F] [LT R] [DecidableLT R] {entries before after : List (F × R)}
  {f : F} {r : R}

/-- Every rank is above the lower or below the higher of two that are in order. -/
def WeaklyOrdered (P : R → Prop) : Prop :=
  ∀ r s t, P r → P s → P t → r < s → r < t ∨ t < s

omit [DecidableLT R] [BEq F] in
/-- Among ranks that do not fall there is a place for a new one. -/
theorem exists_place {P : R → Prop} (hP : WeaklyOrdered P)
    (hsorted : entries.Pairwise fun a b => ¬ b.2 < a.2) (hentries : ∀ e ∈ entries, P e.2)
    (hr : P r) :
    ∃ before after, entries = before ++ after ∧ (∀ e ∈ before, ¬ r < e.2) ∧
      ∀ e ∈ after, r < e.2 := by
  induction entries with
  | nil => exact ⟨[], [], rfl, nofun, nofun⟩
  | cons e rest ih =>
    obtain ⟨he, hrest⟩ := List.pairwise_cons.mp hsorted
    have hrestP : ∀ x ∈ rest, P x.2 := fun x hx => hentries x (List.mem_cons_of_mem _ hx)
    have heP : P e.2 := hentries e List.mem_cons_self
    by_cases hlt : r < e.2
    · refine ⟨[], e :: rest, rfl, nofun, fun x hx => ?_⟩
      rcases List.mem_cons.mp hx with rfl | hx
      · exact hlt
      · exact (hP r e.2 x.2 hr heP (hrestP x hx) hlt).resolve_right (he x hx)
    · obtain ⟨before, after, rfl, hbefore, hafter⟩ := ih hrest hrestP
      refine ⟨e :: before, after, rfl, fun x hx => ?_, hafter⟩
      rcases List.mem_cons.mp hx with rfl | hx
      · exact hlt
      · exact hbefore x hx

omit [BEq F] in
theorem RankedPool.insert_append (hbefore : ∀ e ∈ before, ¬ r < e.2)
    (hafter : ∀ e ∈ after, r < e.2) :
    insert f r (before ++ after) = before ++ (f, r) :: after := by
  induction before with
  | nil =>
    cases after with
    | nil => rfl
    | cons e rest => exact if_pos (hafter e List.mem_cons_self)
  | cons e rest ih =>
    rw [List.cons_append, insert, if_neg (hbefore e List.mem_cons_self),
      ih fun x hx => hbefore x (List.mem_cons_of_mem _ hx)]
    rfl

namespace SearchedPool

variable [EquivBEq F] [Std.Asymm fun r s : R => r < s]

/-- A list of ranks in use, shown by a searched pool and held by a ranked pool. -/
def FollowsRanked (P : R → Prop) (p : SearchedPool F R) (q : RankedPool F R) : Prop :=
  p.Shows q.entries ∧ ∀ e ∈ q.entries, P e.2

theorem alike_ranked (P : R → Prop) :
    VictimPool.Alike (FollowsRanked P : SearchedPool F R → RankedPool F R → Prop) where
  has_eq h f := h.1.has f
  size_eq h := h.1.size
  frames_eq h := h.1.frames
  delete h f := ⟨h.1.delete f, fun e he => h.2 e (List.mem_filter.mp he).1⟩

theorem FollowsRanked.add {P : R → Prop} {p : SearchedPool F R} {q : RankedPool F R}
    (h : FollowsRanked P p q) (hP : WeaklyOrdered P) (f : F) (hr : P r) :
    FollowsRanked P (p.add f r) (q.add f r) := by
  obtain ⟨hq, hqP⟩ := (alike_ranked P).delete h f
  obtain ⟨before, after, hsplit, hbefore, hafter⟩ := exists_place hP hq.ranks_sorted hqP hr
  have hentries : (q.add f r).entries = before ++ (f, r) :: after := by
    rw [RankedPool.add, ← RankedPool.insert_append hbefore hafter, ← hsplit]
    rfl
  refine ⟨hentries ▸ h.1.add hsplit hbefore hafter, fun e he => ?_⟩
  rw [hentries, List.mem_append, List.mem_cons] at he
  rcases he with he | rfl | he
  · exact hqP e (hsplit ▸ List.mem_append_left _ he)
  · exact hr
  · exact hqP e (hsplit ▸ List.mem_append_right _ he)

theorem FollowsRanked.answers {P : R → Prop} (hP : WeaklyOrdered P) (calls : List (Call F R))
    (hcalls : ∀ r ∈ ranks calls, P r) {p : SearchedPool F R} {q : RankedPool F R}
    (h : FollowsRanked P p q) :
    (answers calls p).1 = (answers calls q).1 ∧
      FollowsRanked P (answers calls p).2 (answers calls q).2 := by
  induction calls generalizing p q with
  | nil => exact ⟨rfl, h⟩
  | cons c rest ih =>
    rw [VictimPool.ranks_cons] at hcalls
    have hrest : ∀ r ∈ ranks rest, P r := fun r hr => hcalls r (List.mem_append_right _ hr)
    obtain ⟨hanswer, hnext⟩ := (alike_ranked P).answer h (rfl : c.withoutRank = _)
      fun f r s hc hd => by
        subst hc
        cases hd
        exact h.add hP f (hcalls r List.mem_cons_self)
    obtain ⟨hanswers, hlast⟩ := ih hrest hnext
    exact ⟨List.cons_eq_cons.mpr ⟨hanswer, hanswers⟩, hlast⟩

/-- **The searched pool answers as the ranked pool does**, and shows the same frames after it. -/
theorem answers_eq_ranked {P : R → Prop} (hP : WeaklyOrdered P) (calls : List (Call F R))
    (hcalls : ∀ r ∈ ranks calls, P r) :
    (answers calls (empty : SearchedPool F R)).1 =
        (answers calls (RankedPool.empty : RankedPool F R)).1 ∧
      (answers calls (empty : SearchedPool F R)).2.Shows
        (answers calls (RankedPool.empty : RankedPool F R)).2.entries := by
  have hempty : FollowsRanked P (empty : SearchedPool F R) RankedPool.empty :=
    ⟨shows_empty, nofun⟩
  obtain ⟨hanswers, hshows, -⟩ := hempty.answers hP calls hcalls
  exact ⟨hanswers, hshows⟩

end SearchedPool
end

/-- Times are in a linear order, so a pool with times as ranks may be kept as a plain list. -/
theorem SearchedPool.answers_eq_ranked_of_times {F : Type} [BEq F] [EquivBEq F]
    (calls : List (Call F Nat)) :
    (answers calls (SearchedPool.empty : SearchedPool F Nat)).1 =
      (answers calls (RankedPool.empty : RankedPool F Nat)).1 :=
  (answers_eq_ranked (P := fun _ => True) (fun _ _ _ _ _ _ h => by omega) calls
    fun _ _ => trivial).1

/-! ### In order of arrival -/

section

variable {F R S : Type} [BEq F]

namespace SearchedPool

variable [EquivBEq F] [LT R] [DecidableLT R] [Std.Asymm fun r s : R => r < s]

/-- A list of frames, shown by a searched pool and held by one in order of arrival, of which no
rank is above one that is still to come. -/
def FollowsArrival (later : List R) (p : SearchedPool F R) (q : ArrivalPool F R) : Prop :=
  p.Shows q.entries ∧ ∀ e ∈ q.entries, ∀ r ∈ later, ¬ r < e.2

theorem alike_arrival (later : List R) :
    VictimPool.Alike (FollowsArrival later : SearchedPool F R → ArrivalPool F R → Prop) where
  has_eq h f := h.1.has f
  size_eq h := h.1.size
  frames_eq h := h.1.frames
  delete h f := ⟨h.1.delete f, fun e he => h.2 e (List.mem_filter.mp he).1⟩

theorem FollowsArrival.add {later : List R} {p : SearchedPool F R} {q : ArrivalPool F R} (f : F)
    {r : R} (h : FollowsArrival (r :: later) p q) (hr : ∀ s ∈ later, ¬ s < r) :
    FollowsArrival later (p.add f r) (q.add f r) := by
  obtain ⟨-, hq⟩ := (alike_arrival (r :: later)).delete h f
  refine ⟨h.1.add (List.append_nil _).symm (fun e he => hq e he r List.mem_cons_self) nofun,
    fun e he s hs => ?_⟩
  rcases List.mem_append.mp he with he | he
  · exact hq e he s (List.mem_cons_of_mem _ hs)
  · rw [List.mem_singleton.mp he]
    exact hr s hs

theorem FollowsArrival.answers (calls : List (Call F R))
    (hcalls : (ranks calls).Pairwise fun r s => ¬ s < r) {p : SearchedPool F R}
    {q : ArrivalPool F R} (h : FollowsArrival (ranks calls) p q) :
    (answers calls p).1 = (answers calls q).1 := by
  induction calls generalizing p q with
  | nil => rfl
  | cons c rest ih =>
    rw [VictimPool.ranks_cons] at hcalls h
    obtain ⟨-, hrest, hcross⟩ := List.pairwise_append.mp hcalls
    have hlater : FollowsArrival (ranks rest) p q :=
      ⟨h.1, fun e he r hr => h.2 e he r (List.mem_append_right _ hr)⟩
    obtain ⟨hanswer, hnext⟩ := (alike_arrival (ranks rest)).answer hlater (rfl : c.withoutRank = _)
      fun f r s hc hd => by
        subst hc
        cases hd
        exact FollowsArrival.add f h (hcross r List.mem_cons_self)
    exact List.cons_eq_cons.mpr ⟨hanswer, ih hrest hnext⟩

/-- **The searched pool answers as the pool in order of arrival does, as long as no rank is below an
earlier one.** -/
theorem answers_eq_arrival (calls : List (Call F R))
    (hcalls : (ranks calls).Pairwise fun r s => ¬ s < r) :
    (answers calls (empty : SearchedPool F R)).1 =
      (answers calls (ArrivalPool.empty : ArrivalPool F R)).1 :=
  FollowsArrival.answers calls hcalls ⟨shows_empty, nofun⟩

end SearchedPool

namespace ArrivalPool

/-- Frames in the same order, with whatever ranks. -/
def SameFrames (p : ArrivalPool F R) (q : ArrivalPool F S) : Prop := p.frames = q.frames

theorem has_eq_any (p : ArrivalPool F R) (f : F) : p.has f = p.frames.any (· == f) := by
  rw [has, frames, List.any_map]
  rfl

omit [BEq F] in
theorem size_eq_length (p : ArrivalPool F R) : p.size = p.frames.length := by
  rw [size, frames, List.length_map]

theorem alike_frames :
    VictimPool.Alike (SameFrames : ArrivalPool F R → ArrivalPool F S → Prop) where
  has_eq h f := by
    show ArrivalPool.has f _ = ArrivalPool.has f _
    rw [has_eq_any, has_eq_any, h]
  size_eq h := by
    show ArrivalPool.size _ = ArrivalPool.size _
    rw [size_eq_length, size_eq_length, h]
  frames_eq h := h
  delete h f := by
    show (ArrivalPool.delete f _).frames = (ArrivalPool.delete f _).frames
    rw [frames_delete, frames_delete, h]

/-- **The pool in order of arrival answers the same whatever the ranks are.** -/
theorem answers_eq {calls : List (Call F R)} {calls' : List (Call F S)}
    (hcalls : calls.map Call.withoutRank = calls'.map Call.withoutRank) {p : ArrivalPool F R}
    {q : ArrivalPool F S} (h : SameFrames p q) :
    (answers calls p).1 = (answers calls' q).1 := by
  induction calls generalizing calls' p q with
  | nil => rw [List.map_eq_nil_iff.mp hcalls.symm]; rfl
  | cons c rest ih =>
    obtain ⟨d, rest', rfl, hcd, hrest⟩ := List.map_eq_cons_iff.mp hcalls.symm
    obtain ⟨hanswer, hnext⟩ := alike_frames.answer h hcd.symm fun f r s _ _ => by
      show (ArrivalPool.add f r p).frames = (ArrivalPool.add f s q).frames
      rw [frames_add, frames_add, h]
    exact List.cons_eq_cons.mpr ⟨hanswer, ih hrest.symm hnext⟩

end ArrivalPool
end

/-- **A pool in order of arrival and one in order of rank answer alike when ranks never fall; and
the first answers the same for any other ranks.** -/
theorem VictimPool.in_order_of_arrival {F : Type} [BEq F] [EquivBEq F]
    (calls : List (Call F Number)) :
    ((ranks calls).Pairwise (fun r s => ¬ s < r) →
      (answers calls (ArrivalPool.empty : ArrivalPool F Number)).1 =
        (answers calls (SearchedPool.empty : SearchedPool F Number)).1) ∧
    ∀ others : List (Call F Number),
      others.map Call.withoutRank = calls.map Call.withoutRank →
      (answers others (ArrivalPool.empty : ArrivalPool F Number)).1 =
        (answers calls (ArrivalPool.empty : ArrivalPool F Number)).1 :=
  ⟨fun h => (SearchedPool.answers_eq_arrival calls h).symm,
    fun _ h => ArrivalPool.answers_eq h rfl⟩

/-- A frame that is added again moves behind the one with the same rank, in both pools. -/
theorem VictimPool.in_order_of_arrival_again :
    let one : Number := .finite false 1 0
    let calls : Number → Number → List (Call Nat Number) := fun r s =>
      [.add 1 r, .add 2 s, .add 1 s, .victim (· != 2), .delete 2, .frames]
    let expected : List (Answer Nat) :=
      [.done, .done, .done, .search ⟨[2, 1], some 1⟩, .flag true, .order [1]]
    (ranks (calls one (.infinite false))).Pairwise (fun r s => ¬ s < r) ∧
    (answers (calls one (.infinite false)) (ArrivalPool.empty : ArrivalPool Nat Number)).1 =
      expected ∧
    (answers (calls one (.infinite false)) (SearchedPool.empty : SearchedPool Nat Number)).1 =
      expected ∧
    (answers (calls one .nan) (ArrivalPool.empty : ArrivalPool Nat Number)).1 = expected := by
  intro one calls expected
  obtain ⟨hagree, hranks⟩ := in_order_of_arrival (calls one (.infinite false))
  have hsorted : (ranks (calls one (.infinite false))).Pairwise fun r s => ¬ s < r := by decide
  have harrival : (answers (calls one (.infinite false))
    (ArrivalPool.empty : ArrivalPool Nat Number)).1 = expected := by decide
  exact ⟨hsorted, harrival, (hagree hsorted).symm.trans harrival,
    (hranks (calls one .nan) rfl).trans harrival⟩

end StorageKit
