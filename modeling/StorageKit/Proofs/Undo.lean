/-
Undoing the writes of a store.

A store keeps the tries before its current one, up to its limit, and forgets the oldest first:

* `Store.Operation`, `Store.step`, `Store.runAll` — operations, one or one after another;
* `Store.Operation.isEffective`, `Store.displaced` — the writes that make a trie of their own, and
  the tries that were current just before them;
* `Store.Bounded` — what holds of every store that can be reached;
* `Store.step_cases` — all that an operation can do that undoes nothing;
* `Store.versions_runAll` — the versions are the last of all tries that were ever displaced;
* `Store.undo_exact` — **as many undos as there were effective writes make the very trie current
  again that was current before them**.

Design notes: a removal tells by the stamp of the trie that comes out of it whether anything was
removed.  That a trie made by a write never has the stamp of the current one follows from the stamps
of a store all being used up before its next one.
-/
import StorageKit.Trie.Store
import StorageKit.Proofs.Sharing
import Mathlib.Data.List.DropRight

namespace StorageKit

/-! ### The last entries of a list -/

section

variable {α : Type} {a b : List α} {m : Nat}

theorem rtake_of_length_le (h : a.length ≤ m) : a.rtake m = a := by
  rw [List.rtake, Nat.sub_eq_zero_of_le h, List.drop_zero]

theorem length_rtake_le (a : List α) (m : Nat) : (a.rtake m).length ≤ m := by
  rw [List.rtake, List.length_drop]
  omega

/-- What is last in a list that begins with the last entries of another is last in the whole. -/
theorem rtake_rtake_append (a b : List α) (m : Nat) :
    (a.rtake m ++ b).rtake m = (a ++ b).rtake m := by
  have hsuffix : a.rtake m ++ b = (a ++ b).drop (a.length - m) := by
    rw [List.rtake, List.drop_append_of_le_length (Nat.sub_le _ _)]
  rw [hsuffix, List.rtake, List.rtake, List.drop_drop, List.length_drop, List.length_append]
  congr 1
  omega

theorem rtake_append_of_le (h : b.length ≤ m) : (a ++ b).rtake m = a.rtake (m - b.length) ++ b := by
  rw [List.rtake, List.rtake, List.length_append, ← List.drop_append_of_le_length (Nat.sub_le _ _)]
  congr 1
  omega

end

namespace Trie

variable {objects : Objects} {t t' : Trie} {key : String} {value : Value} {type : ValueType}
  {next next' : Nat}

/-- A write that succeeds gives a trie with a stamp of its own, or the very trie it started from. -/
theorem stamp_put (h : t.put objects key value type next = .ok (t', next')) :
    next ≤ t'.stamp ∧ t'.stamp < next' := by
  have haccepts : type.accepts objects value = true := by
    by_contra hrejects
    rw [put_of_rejects (Bool.eq_false_iff.mpr hrejects)] at h
    cases h
  rw [put_eq haccepts] at h
  obtain ⟨rfl, rfl⟩ := (Prod.mk.injEq ..).mp (Except.ok.inj h)
  exact ⟨(Node.put_rewrites _ _ _ _).le, Nat.lt_succ_self _⟩

theorem stamp_remove (h : t.isBound key = true) (next : Nat) :
    next ≤ (t.remove key next).1.stamp ∧ (t.remove key next).1.stamp < (t.remove key next).2 := by
  obtain ⟨root, hroot⟩ := exists_root_of_bound h
  have hnode := nodeAt_isSome_of_bound h
  rw [nodeAt, hroot] at hnode
  rw [remove_eq hroot h]
  exact ⟨(Node.remove_rewrites _ root next hnode).le, Nat.lt_succ_self _⟩

end Trie

namespace Store

/-! ### Operations -/

/-- What can be asked of a store.  Shared records may change between operations, so those that look
at values are given the records as they are. -/
inductive Operation where
  | put (objects : Objects) (key : String) (value : Value) (type : ValueType)
  | remove (key : String)
  | get (objects : Objects) (key : String) (type : ValueType)
  | snapshot
  | versions
  | undo

/-- What a store answers. -/
inductive Answer where
  | done
  | refused (fault : TrieFault)
  | guard (found : Option Guard)
  | trie (t : Trie)
  | tries (ts : List Trie)
  | undone (b : Bool)

/-- One operation: its answer, and the store after it. -/
def step : Operation → Store → Answer × Store
  | .put objects key value type, s =>
    match s.put objects key value type with
    | .ok s' => (.done, s')
    | .error fault => (.refused fault, s)
  | .remove key, s => (.done, s.remove key)
  | .get objects key type, s => (.guard (s.get objects key type), s)
  | .snapshot, s => (.trie s.current, s)
  | .versions, s => (.tries s.versions, s)
  | .undo, s => (.undone s.undo.1, s.undo.2)

/-- Operations one after another, with their answers. -/
def runAll : List Operation → Store → List Answer × Store
  | [], s => ([], s)
  | op :: rest, s =>
    let (answer, s) := step op s
    let (answers, s) := runAll rest s
    (answer :: answers, s)

theorem runAll_cons (op : Operation) (rest : List Operation) (s : Store) :
    runAll (op :: rest) s =
      ((step op s).1 :: (runAll rest (step op s).2).1, (runAll rest (step op s).2).2) :=
  rfl

/-- The operation is a write that makes a trie of its own: a value is put and not refused, or there
is something to remove. -/
def Operation.isEffective (s : Store) : Operation → Bool
  | .put objects key value type => (s.put objects key value type).isOk
  | .remove key => s.current.isBound key
  | _ => false

/-- The tries that were current just before each effective write. -/
def displaced : List Operation → Store → List Trie
  | [], _ => []
  | op :: rest, s =>
    (if op.isEffective s then [s.current] else []) ++ displaced rest (step op s).2

/-! ### Stores that can be reached -/

/-- The stamps of all tries of a store are used up, and there are no more versions than it may
keep. -/
structure Bounded (s : Store) : Prop where
  stamp_lt : ∀ t ∈ s.versions ++ [s.current], t.stamp < s.next
  length_le : s.versions.length ≤ s.maxVersions

variable {s : Store} {t : Trie} {op : Operation} {next : Nat}

/-- The current trie becomes the last version, and the oldest goes if there are too many. -/
theorem versions_commit (h : s.versions.length ≤ s.maxVersions) (t : Trie) (next : Nat) :
    (s.commit t next).versions = (s.versions ++ [s.current]).rtake s.maxVersions := by
  show (if _ then _ else if _ then _ else _) = _
  rw [List.length_append, List.length_singleton]
  split
  · next hzero =>
    rw [hzero] at h ⊢
    rw [List.rtake_zero]
    exact List.eq_nil_of_length_eq_zero (by omega)
  · split
    · -- the limit was reached, so exactly one version is too many
      rw [List.rtake, List.length_append, List.length_singleton,
        show s.versions.length + 1 - s.maxVersions = 1 by omega, List.drop_one]
    · rw [rtake_of_length_le]
      rw [List.length_append, List.length_singleton]
      omega

/-- What an operation does that undoes nothing: an effective write makes a new trie the current one,
and all else leaves the store as it is. -/
theorem step_cases (hb : Bounded s) (hop : op ≠ .undo) :
    (op.isEffective s = true ∧ ∃ t next, s.next ≤ t.stamp ∧ t.stamp < next ∧
      (step op s).2 = s.commit t next) ∨
    (op.isEffective s = false ∧ (step op s).2 = s) := by
  cases op with
  | put objects key value type =>
    rw [Operation.isEffective, step, put]
    cases hput : s.current.put objects key value type s.next with
    | error fault => exact Or.inr ⟨rfl, rfl⟩
    | ok made =>
      obtain ⟨t, next⟩ := made
      obtain ⟨hle, hlt⟩ := Trie.stamp_put hput
      exact Or.inl ⟨rfl, t, next, hle, hlt, rfl⟩
  | remove key =>
    have hcurrent : s.current.stamp < s.next :=
      hb.stamp_lt _ (List.mem_append_right _ List.mem_cons_self)
    rw [Operation.isEffective, step, remove]
    cases hbound : s.current.isBound key with
    | true =>
      -- the new trie has a stamp that was not used up, so it is not the current one
      obtain ⟨hle, hlt⟩ := Trie.stamp_remove hbound s.next
      have hnew : (s.current.remove key s.next).1.isSame s.current = false := by
        rw [Trie.isSame, decide_eq_false_iff_not]
        omega
      refine Or.inl ⟨rfl, _, _, hle, hlt, ?_⟩
      simp only [hnew, Bool.false_eq_true, if_false]
    | false =>
      refine Or.inr ⟨rfl, ?_⟩
      simp [Trie.remove_of_unbound hbound, Trie.isSame]
  | get objects key type => exact Or.inr ⟨rfl, rfl⟩
  | snapshot => exact Or.inr ⟨rfl, rfl⟩
  | versions => exact Or.inr ⟨rfl, rfl⟩
  | undo => exact absurd rfl hop

/-- The last version becomes the current trie. -/
theorem undo_of_versions {h : List Trie} (hv : s.versions = h ++ [t]) :
    s.undo = (true, { s with current := t, versions := h }) := by
  rw [undo, hv, List.getLast?_append_of_ne_nil _ (by simp)]
  simp

theorem undo_of_nil (hv : s.versions = []) : s.undo = (false, s) := by
  rw [undo, hv]
  rfl

theorem undo_fst (s : Store) : s.undo.1 = !s.versions.isEmpty := by
  rcases List.eq_nil_or_concat' s.versions with hv | ⟨h, t, hv⟩
  · rw [undo_of_nil hv, hv]
    rfl
  · rw [undo_of_versions hv, hv]
    simp

namespace Bounded

theorem commit (hb : Bounded s) (hle : s.next ≤ t.stamp) (hlt : t.stamp < next) :
    Bounded (s.commit t next) := by
  have hv := versions_commit hb.length_le t next
  refine ⟨fun t' ht' => ?_, ?_⟩
  · rcases List.mem_append.mp ht' with hold | hnew
    · rw [hv] at hold
      have hstamp := hb.stamp_lt t' (List.mem_of_mem_drop hold)
      show t'.stamp < next
      omega
    · rw [List.mem_singleton.mp hnew]
      exact hlt
  · rw [hv]
    exact length_rtake_le _ _

theorem undo (hb : Bounded s) : Bounded s.undo.2 := by
  rcases List.eq_nil_or_concat' s.versions with hv | ⟨h, t, hv⟩
  · rw [undo_of_nil hv]
    exact hb
  · rw [undo_of_versions hv]
    refine ⟨fun t' ht' => hb.stamp_lt t' ?_, ?_⟩
    · rw [hv]
      exact List.mem_append_left _ ht'
    · have hlength := hb.length_le
      rw [hv, List.length_append] at hlength
      show h.length ≤ s.maxVersions
      omega

theorem step (hb : Bounded s) (op : Operation) : Bounded (step op s).2 := by
  by_cases hop : op = .undo
  · rw [hop]
    exact hb.undo
  · rcases step_cases hb hop with ⟨-, t, next, hle, hlt, heq⟩ | ⟨-, heq⟩
    · rw [heq]
      exact hb.commit hle hlt
    · rw [heq]
      exact hb

theorem runAll (hb : Bounded s) (ops : List Operation) : Bounded (runAll ops s).2 := by
  induction ops generalizing s with
  | nil => exact hb
  | cons op rest ih => exact ih (hb.step op)

end Bounded

/-- A new store keeps no versions, and its trie was made before. -/
theorem bounded_new {limit : Value} {initial : Trie} (h : initial.stamp < next)
    (hnew : new limit initial next = .ok s) : Bounded s := by
  rw [new] at hnew
  split at hnew
  · obtain rfl := Except.ok.inj hnew
    refine ⟨fun t ht => ?_, Nat.zero_le _⟩
    rw [List.mem_singleton.mp ht]
    exact h
  · cases hnew

theorem maxVersions_step (op : Operation) (s : Store) :
    (step op s).2.maxVersions = s.maxVersions := by
  cases op with
  | put objects key value type =>
    rw [step, put]
    cases s.current.put objects key value type s.next <;> rfl
  | remove key =>
    rw [step, remove]
    dsimp only
    split <;> rfl
  | undo =>
    rw [step, undo]
    cases s.versions.getLast? <;> rfl
  | _ => rfl

theorem maxVersions_runAll (ops : List Operation) (s : Store) :
    (runAll ops s).2.maxVersions = s.maxVersions := by
  induction ops generalizing s with
  | nil => rfl
  | cons op rest ih => exact (ih _).trans (maxVersions_step op s)

/-! ### Writes -/

/-- The versions of a store are the last of all tries that were displaced. -/
theorem versions_runAll (hb : Bounded s) {ops : List Operation} (hops : ∀ op ∈ ops, op ≠ .undo) :
    (runAll ops s).2.versions = (s.versions ++ displaced ops s).rtake s.maxVersions := by
  induction ops generalizing s with
  | nil =>
    rw [displaced, List.append_nil]
    exact (rtake_of_length_le hb.length_le).symm
  | cons op rest ih =>
    obtain ⟨hop, hrest⟩ := List.forall_mem_cons.mp hops
    have hrun := ih (hb.step op) hrest
    rw [maxVersions_step] at hrun
    refine hrun.trans ?_
    rw [displaced]
    rcases step_cases hb hop with ⟨heffective, t, next, -, -, heq⟩ | ⟨heffective, heq⟩
    · rw [if_pos heffective, heq, versions_commit hb.length_le, rtake_rtake_append,
        List.append_assoc]
    · rw [heffective, if_neg Bool.false_ne_true, heq, List.nil_append]

/-- The first trie that is displaced is the one that was current at the start. -/
theorem head?_displaced (hb : Bounded s) {ops : List Operation} (hops : ∀ op ∈ ops, op ≠ .undo) :
    (displaced ops s).head?.getD (runAll ops s).2.current = s.current := by
  induction ops generalizing s with
  | nil => rfl
  | cons op rest ih =>
    obtain ⟨hop, hrest⟩ := List.forall_mem_cons.mp hops
    have hrun := ih (hb.step op) hrest
    rw [displaced]
    rcases step_cases hb hop with ⟨heffective, -⟩ | ⟨heffective, heq⟩
    · rw [if_pos heffective]
      rfl
    · rw [heffective, if_neg Bool.false_ne_true, List.nil_append]
      rw [runAll_cons]
      rw [heq] at hrun ⊢
      exact hrun

/-! ### Undos -/

/-- One undo for each of the last versions makes the first of them current. -/
theorem runAll_undo (h d : List Trie) (hv : s.versions = h ++ d) :
    runAll (List.replicate d.length .undo) s =
      (List.replicate d.length (.undone true),
        { s with current := d.head?.getD s.current, versions := h }) := by
  induction d using List.reverseRecOn generalizing s with
  | nil =>
    rw [List.append_nil] at hv
    rw [← hv]
    rfl
  | append_singleton d t ih =>
    rw [← List.append_assoc] at hv
    have hundo : step .undo s = (.undone true, { s with current := t, versions := h ++ d }) := by
      rw [step, undo_of_versions hv]
    rw [List.length_append, List.length_singleton, List.replicate_succ, List.replicate_succ,
      runAll_cons, hundo]
    dsimp only
    rw [ih rfl, List.head?_append]
    cases d <;> rfl

/-- **Undo is exact and bounded.**  In every store that can be reached, and after any operations on
it that undo nothing, the versions are the last of those that were kept and of the tries that the
effective writes displaced.  If there were no more effective writes than versions may be kept, as
many undos succeed and make the very trie current again from which the writes started, with what is
then left of the versions; one more undo succeeds exactly if that is not nothing, and otherwise
changes nothing.  A value that is refused leaves the store as it is. -/
theorem undo_exact {limit : Value} {initial : Trie} (hinitial : initial.stamp < next)
    {first : Store} (hnew : new limit initial next = .ok first) (before ops : List Operation)
    (hops : ∀ op ∈ ops, op ≠ .undo) {s t : Store} (hs : s = (runAll before first).2)
    (ht : t = (runAll ops s).2) :
    t.versions = (s.versions ++ displaced ops s).rtake first.maxVersions ∧
    t.versions.length ≤ first.maxVersions ∧
    (∀ n, (displaced ops s).length = n → n ≤ first.maxVersions →
      ∃ u, runAll (List.replicate n .undo) t = (List.replicate n (.undone true), u) ∧
        u.current = s.current ∧ u.versions = s.versions.rtake (first.maxVersions - n) ∧
        (step .undo u).1 = .undone (!u.versions.isEmpty) ∧
        (u.versions = [] → (step .undo u).2 = u)) ∧
    ∀ objects key value type, type.schema.accepts objects value = false →
      ∃ fault, step (.put objects key value type) t = (.refused fault, t) := by
  have hb : Bounded s := by
    rw [hs]
    exact (bounded_new hinitial hnew).runAll before
  have hmax : s.maxVersions = first.maxVersions := by rw [hs, maxVersions_runAll]
  have hversions : t.versions = (s.versions ++ displaced ops s).rtake first.maxVersions := by
    rw [ht, versions_runAll hb hops, hmax]
  refine ⟨hversions, ?_, ?_, ?_⟩
  · rw [hversions]
    exact length_rtake_le _ _
  · intro n hn hle
    subst hn
    rw [rtake_append_of_le hle] at hversions
    have hcurrent := head?_displaced hb hops
    rw [← ht] at hcurrent
    refine ⟨_, runAll_undo _ _ hversions, hcurrent, rfl, ?_, fun hnil => ?_⟩
    · exact congrArg Answer.undone (undo_fst _)
    · rw [step, undo_of_nil hnil]
  · intro objects key value type hrejects
    refine ⟨.invalidValue key type.name (type.complaints objects value), ?_⟩
    rw [step, put, Trie.put_of_rejects hrejects]

/-- A write to a store that keeps one version and has it, between writes that come to nothing. -/
theorem undo_exact_full :
    ∃ first s t u : Store,
      (⟨0, none⟩ : Trie).stamp < 1 ∧ new (.number (.ofNat 1)) ⟨0, none⟩ 1 = .ok first ∧
      s = (runAll [.put [] "ab" (.text "x") .string] first).2 ∧ s.versions = [⟨0, none⟩] ∧
      t = (runAll [.remove "a", .remove "ab", .put [] "c" (.bool true) .string, .snapshot] s).2 ∧
      t.versions = [s.current] ∧
      runAll [.undo] t = ([.undone true], u) ∧ u.current = s.current ∧ u.versions = [] ∧
      (step .undo u).2 = u := by
  have hinitial : (⟨0, none⟩ : Trie).stamp < 1 := by decide
  have hnew : new (.number (.ofNat 1)) ⟨0, none⟩ 1 = .ok (⟨1, ⟨0, none⟩, [], 1⟩ : Store) := rfl
  obtain ⟨hversions, -, hundo, -⟩ := undo_exact hinitial hnew [.put [] "ab" (.text "x") .string]
    [.remove "a", .remove "ab", .put [] "c" (.bool true) .string, .snapshot] (by simp) rfl rfl
  obtain ⟨u, hu, hcurrent, hleft, -, hlast⟩ := hundo 1 rfl (by decide)
  exact ⟨_, _, _, u, hinitial, hnew, rfl, rfl, rfl, hversions, hu, hcurrent, hleft, hlast hleft⟩

end Store
end StorageKit
