/-
Tries as persistent maps.

A trie reads like a finite map from keys to values with tokens, and a write makes a new trie that
reads like the updated map, while the old one stays what it was and can be written to again.

* `ActsAsMap` — the laws of reading after one write;
* `Write`, `Edit` — writes, and writes to a version that is at hand;
* `Write.apply_cases` — all that a write can do to a trie;
* `deriveAll` — versions derived from one another in any order, each with the writes on its way;
* `persistent_map` — **every trie acts as a finite map, and every version derived from it reads as
  the map that the writes on its own way make of the first one**.
-/
import StorageKit.Proofs.Contents

namespace StorageKit
namespace Trie

/-! ### One write -/

/-- A trie acts as a finite map from keys to values with tokens. -/
structure ActsAsMap (t : Trie) : Prop where
  finite : {key | (t.contents key).isSome = true}.Finite
  get_eq : ∀ objects key type,
    t.get objects key type = (t.contents key).bind (Stored.read objects type)
  put_fails_iff : ∀ objects key value type next,
    (∃ fault, t.put objects key value type next = .error fault ∧
      fault.code = "invalid_trie_value") ↔ type.schema.accepts objects value = false
  put_succeeds_iff : ∀ objects key value type next,
    (∃ t' next', t.put objects key value type next = .ok (t', next')) ↔
      type.schema.accepts objects value = true
  get_put : ∀ {objects key value type next t' next'},
    t.put objects key value type next = .ok (t', next') → ∀ now,
      (type.schema.accepts now value = true → t'.get now key type = some value) ∧
      (type.schema.accepts now value = false → t'.get now key type = none) ∧
      (∀ other : ValueType, other.isSame type = false → t'.get now key other = none) ∧
      ∀ key', key' ≠ key → ∀ other, t'.get now key' other = t.get now key' other
  get_remove : ∀ key next now other,
    (t.remove key next).1.get now key other = none ∧
      ∀ key', key' ≠ key → (t.remove key next).1.get now key' other = t.get now key' other

section

variable {objects : Objects} {t : Trie} {key : String} {value : Value} {type : ValueType}
  {next : Nat}

theorem put_eq (h : type.accepts objects value = true) :
    t.put objects key value type next =
      .ok (ofRoot (some (Node.put ⟨type, value⟩ (Node.path key) t.root next).1)
        (Node.put ⟨type, value⟩ (Node.path key) t.root next).2) := by
  rw [put, if_pos h]

theorem remove_eq {root : Node} (hroot : t.root = some root) (h : t.isBound key = true) :
    t.remove key next = ofRoot (Node.remove (Node.path key) root next).1
      (Node.remove (Node.path key) root next).2 := by
  rw [remove, hroot]
  dsimp only
  rw [if_pos h]

theorem remove_of_unbound (h : t.isBound key = false) : t.remove key next = (t, next) := by
  rw [remove]
  cases t.root with
  | none => rfl
  | some root =>
    dsimp only
    rw [if_neg (by simp [h])]

theorem exists_root_of_bound (h : t.isBound key = true) : ∃ root, t.root = some root := by
  cases hroot : t.root with
  | none =>
    rw [isBound, find?, hroot] at h
    cases h
  | some root => exact ⟨root, rfl⟩

end

theorem put_of_accepts {objects : Objects} {value : Value} {type : ValueType}
    (h : type.schema.accepts objects value = true) (t : Trie) (key : String) (next : Nat) :
    ∃ t' next', t.put objects key value type next = .ok (t', next') :=
  ⟨_, _, put_eq h⟩

theorem put_of_rejects {objects : Objects} {value : Value} {type : ValueType}
    (h : type.schema.accepts objects value = false) (t : Trie) (key : String) (next : Nat) :
    t.put objects key value type next =
      .error (.invalidValue key type.name (type.complaints objects value)) := by
  have hrejects : ¬ type.accepts objects value = true := by
    rw [ValueType.accepts, h]
    exact Bool.false_ne_true
  rw [put, if_neg hrejects]

theorem actsAsMap (t : Trie) : ActsAsMap t where
  finite := t.finite_contents
  get_eq objects key type := t.get_eq objects key type
  put_fails_iff objects key value type next := by
    cases h : type.schema.accepts objects value with
    | true =>
      obtain ⟨t', next', hput⟩ := put_of_accepts h t key next
      rw [hput]
      simp
    | false =>
      rw [put_of_rejects h]
      simp [TrieFault.code]
  put_succeeds_iff objects key value type next := by
    cases h : type.schema.accepts objects value with
    | true => exact iff_of_true (put_of_accepts h t key next) rfl
    | false =>
      rw [put_of_rejects h]
      simp
  get_put {objects key value type next t' next'} hput now := by
    have hself : ∀ other, t'.get now key other = Stored.read now other ⟨type, value⟩ := by
      intro other
      rw [Trie.get_eq, contents_put hput, Function.update_self, Option.bind_some]
    have hsame : type.isSame type = true := decide_eq_true rfl
    refine ⟨fun h => ?_, fun h => ?_, fun other h => ?_, fun key' hkey other => ?_⟩
    · rw [hself, Stored.read, hsame, ValueType.accepts, h]
      rfl
    · rw [hself, Stored.read, hsame, ValueType.accepts, h]
      rfl
    · rw [hself, Stored.read, h]
      rfl
    · rw [Trie.get_eq, Trie.get_eq, contents_put hput, Function.update_of_ne hkey]
  get_remove key next now other := by
    constructor
    · rw [Trie.get_eq, contents_remove, Function.update_self, Option.bind_none]
    · intro key' hkey
      rw [Trie.get_eq, Trie.get_eq, contents_remove, Function.update_of_ne hkey]

/-! ### Versions -/

/-- A write to a trie, with the shared records as they are when it is made. -/
inductive Write where
  | put (objects : Objects) (key : String) (value : Value) (type : ValueType)
  | remove (key : String)

namespace Write

/-- What a write makes of a trie. -/
def apply (t : Trie) (next : Nat) : Write → Except TrieFault (Trie × Nat)
  | .put objects key value type => t.put objects key value type next
  | .remove key => .ok (t.remove key next)

/-- What a write makes of a map. -/
def update (m : String → Option Stored) : Write → String → Option Stored
  | .put _ key value type => Function.update m key (some ⟨type, value⟩)
  | .remove key => Function.update m key none

theorem contents_apply {w : Write} {t t' : Trie} {next next' : Nat}
    (h : w.apply t next = .ok (t', next')) : t'.contents = w.update t.contents := by
  cases w with
  | put objects key value type => exact contents_put h
  | remove key =>
    have htrie : (t.remove key next).1 = t' := congrArg Prod.fst (Except.ok.inj h)
    rw [← htrie]
    exact contents_remove t key next

/-- What a write that succeeds does to the root: the root is put anew or a removal is made below it,
or the trie is given back. -/
theorem apply_cases {w : Write} {t t' : Trie} {next next' : Nat}
    (h : w.apply t next = .ok (t', next')) :
    (∃ stored key, t'.root = some (Node.put stored (Node.path key) t.root next).1 ∧
      next' = (Node.put stored (Node.path key) t.root next).2 + 1) ∨
    (∃ key root, t.root = some root ∧ t.isBound key = true ∧
      t'.root = (Node.remove (Node.path key) root next).1 ∧
      next' = (Node.remove (Node.path key) root next).2 + 1) ∨
    (t' = t ∧ next' = next) := by
  cases w with
  | put objects key value type =>
    have hput : t.put objects key value type next = .ok (t', next') := h
    cases haccepts : type.accepts objects value with
    | true =>
      rw [put_eq haccepts] at hput
      obtain ⟨rfl, rfl⟩ := (Prod.mk.injEq ..).mp (Except.ok.inj hput)
      exact Or.inl ⟨_, key, rfl, rfl⟩
    | false =>
      rw [put_of_rejects haccepts] at hput
      cases hput
  | remove key =>
    have hremove : t.remove key next = (t', next') := Except.ok.inj h
    cases hbound : t.isBound key with
    | true =>
      obtain ⟨root, hroot⟩ := exists_root_of_bound hbound
      rw [remove_eq hroot hbound] at hremove
      obtain ⟨rfl, rfl⟩ := (Prod.mk.injEq ..).mp hremove
      exact Or.inr (Or.inl ⟨key, root, hroot, hbound, rfl, rfl⟩)
    | false =>
      rw [remove_of_unbound hbound] at hremove
      obtain ⟨rfl, rfl⟩ := (Prod.mk.injEq ..).mp hremove
      exact Or.inr (Or.inr ⟨rfl, rfl⟩)

end Write

/-- A version of a trie, and the writes that led to it from the first version. -/
structure Version where
  trie : Trie
  way : List Write

/-- A write to one of the versions at hand, which is given by its number. -/
structure Edit where
  version : Nat
  write : Write

/-- Derives a new version.  Without a version of that number, and when the write fails, there is no
new version. -/
def derive (e : Edit) (versions : List Version) (next : Nat) : List Version × Nat :=
  match versions[e.version]? with
  | none => (versions, next)
  | some v =>
    match e.write.apply v.trie next with
    | .ok (t, next) => (versions ++ [⟨t, v.way ++ [e.write]⟩], next)
    | .error _ => (versions, next)

/-- Derives versions one after another. -/
def deriveAll : List Edit → List Version → Nat → List Version × Nat
  | [], versions, next => (versions, next)
  | e :: rest, versions, next =>
    let (versions, next) := derive e versions next
    deriveAll rest versions next

/-- A version contains what the writes on its way make of a map. -/
def Version.Follows (m : String → Option Stored) (v : Version) : Prop :=
  v.trie.contents = v.way.foldl Write.update m

theorem derive_follows {m : String → Option Stored} {versions : List Version}
    (h : ∀ v ∈ versions, v.Follows m) (e : Edit) (next : Nat) :
    ∀ v ∈ (derive e versions next).1, v.Follows m := by
  rw [derive]
  cases hv : versions[e.version]? with
  | none => exact h
  | some v =>
    dsimp only
    cases hwrite : e.write.apply v.trie next with
    | error fault => exact h
    | ok result =>
      intro v' hv'
      rcases List.mem_append.mp hv' with hold | hnew
      · exact h v' hold
      · rw [List.mem_singleton.mp hnew, Version.Follows, List.foldl_append,
          ← h v (List.mem_of_getElem? hv)]
        exact Write.contents_apply hwrite

theorem deriveAll_follows {m : String → Option Stored} (edits : List Edit)
    {versions : List Version} (h : ∀ v ∈ versions, v.Follows m) (next : Nat) :
    ∀ v ∈ (deriveAll edits versions next).1, v.Follows m := by
  induction edits generalizing versions next with
  | nil => exact h
  | cons e rest ih => exact ih (derive_follows h e next) _

/-- The versions at hand stay as they are. -/
theorem prefix_derive (e : Edit) (versions : List Version) (next : Nat) :
    versions <+: (derive e versions next).1 := by
  rw [derive]
  split
  · exact List.prefix_refl _
  · split
    · exact List.prefix_append _ _
    · exact List.prefix_refl _

theorem prefix_deriveAll (edits : List Edit) (versions : List Version) (next : Nat) :
    versions <+: (deriveAll edits versions next).1 := by
  induction edits generalizing versions next with
  | nil => exact List.prefix_refl _
  | cons e rest ih => exact (prefix_derive e versions next).trans (ih _ _)

theorem deriveAll_append (before after : List Edit) (versions : List Version) (next : Nat) :
    deriveAll (before ++ after) versions next =
      deriveAll after (deriveAll before versions next).1 (deriveAll before versions next).2 := by
  induction before generalizing versions next with
  | nil => rfl
  | cons e rest ih => exact ih _ _

/-- **A trie is a persistent finite map.**  The trie without keys contains nothing; every trie obeys
the laws of a map; and however versions are derived from it and from one another, those at hand
stay as they are, and each reads as the map that the writes on its own way make of the contents of
the first. -/
theorem persistent_map :
    (∀ next, (empty next).1.contents = fun _ => none) ∧
    ∀ t : Trie, ActsAsMap t ∧
      ∀ (before after : List Edit) (next : Nat),
        (deriveAll before [⟨t, []⟩] next).1 <+: (deriveAll (before ++ after) [⟨t, []⟩] next).1 ∧
        ∀ v ∈ (deriveAll before [⟨t, []⟩] next).1, ∀ objects key type,
          v.trie.get objects key type =
            (v.way.foldl Write.update t.contents key).bind (Stored.read objects type) := by
  refine ⟨fun next => rfl, fun t => ⟨actsAsMap t, fun before after next => ⟨?_, ?_⟩⟩⟩
  · rw [deriveAll_append]
    exact prefix_deriveAll after _ _
  · intro v hv objects key type
    -- the first version has no writes on its way
    have hfollows : ∀ v ∈ [(⟨t, []⟩ : Version)], v.Follows t.contents := by
      intro v hv
      rw [List.mem_singleton.mp hv]
      rfl
    rw [Trie.get_eq, deriveAll_follows before hfollows next v hv]

end Trie
end StorageKit
