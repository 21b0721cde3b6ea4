/-
The shape of tries.

A trie that is written from the trie without keys has no dead branches, so its shape is determined
by what it contains:

* `Node.Tidy` — below every node the labels are distinct single characters, and a node without
  children holds a value;
* `Node.Tidy.put`, `Node.Tidy.remove` — writes keep a tree tidy;
* `Node.Tidy.exists_bound` — below every node of a tidy tree there is a value;
* `Node.SameTree` — trees that differ in the order of children and in stamps at most;
* `Node.sameTree_iff` — tidy trees are the same tree exactly if they store the same values;
* `Trie.canonical_written` — **whatever writes led to a trie, its nodes are at the prefixes of
  bound keys, and tries with the same contents are the same tree**.

Design notes: a removal has to drop every node of which nothing is left, up to the root.  A node
that it forgets is seen by no reader, so contents alone say nothing about it.
-/
import StorageKit.Proofs.Paths
import StorageKit.Proofs.Versions
import Mathlib.Data.List.Perm.Basic

namespace StorageKit

namespace Node

theorem path_cons (c : Char) (key : String) :
    path (String.ofList (c :: key.toList)) = String.singleton c :: path key := by
  rw [path, String.toList_ofList, List.map_cons, path]

theorem path_append (a b : String) : path (a ++ b) = path a ++ path b := by
  rw [path, String.toList_append, List.map_append, path, path]

/-! ### Tidy trees -/

/-- A tree without dead branches. -/
inductive Tidy : Node → Prop
  | intro {n : Node}
      (distinct : (Keyed.keys n.children).Nodup)
      (valued : n.children = [] → n.isValueNode = true)
      (single : ∀ label m, Keyed.get? label n.children = some m → ∃ c, label = String.singleton c)
      (below : ∀ label m, Keyed.get? label n.children = some m → Tidy m) :
      Tidy n

namespace Tidy

variable {n : Node}

theorem distinct (h : Tidy n) : (Keyed.keys n.children).Nodup := by
  cases h with
  | intro hdistinct _ _ _ => exact hdistinct

theorem valued (h : Tidy n) : n.children = [] → n.isValueNode = true := by
  cases h with
  | intro _ hvalued _ _ => exact hvalued

theorem child (h : Tidy n) {label : String} {m : Node}
    (hm : Keyed.get? label n.children = some m) :
    (∃ c, label = String.singleton c) ∧ Tidy m := by
  cases h with
  | intro _ _ hsingle hbelow => exact ⟨hsingle label m hm, hbelow label m hm⟩

theorem of_below (distinct : (Keyed.keys n.children).Nodup)
    (valued : n.children = [] → n.isValueNode = true)
    (below : ∀ label m, Keyed.get? label n.children = some m →
      (∃ c, label = String.singleton c) ∧ Tidy m) : Tidy n :=
  .intro distinct valued (fun label m hm => (below label m hm).1)
    fun label m hm => (below label m hm).2

/-- Every node of a tidy tree is tidy, and the path to it is the path of a key. -/
theorem nodeAt (h : Tidy n) {way : List String} {m : Node}
    (hm : Node.nodeAt (some n) way = some m) : Tidy m ∧ ∃ key, way = path key := by
  induction way generalizing n with
  | nil =>
    rw [nodeAt_nil] at hm
    obtain rfl := Option.some.inj hm
    exact ⟨h, "", rfl⟩
  | cons label rest ih =>
    rw [nodeAt_cons] at hm
    cases hchild : child? label (some n) with
    | none => rw [hchild] at hm; cases hm
    | some child =>
      rw [hchild] at hm
      obtain ⟨⟨c, rfl⟩, htidy⟩ := h.child hchild
      obtain ⟨hm', key, rfl⟩ := ih htidy hm
      exact ⟨hm', String.ofList (c :: key.toList), (path_cons c key).symm⟩

theorem exists_bound (h : Tidy n) : ∃ key, (n.lookup (path key)).isSome = true := by
  induction h with
  | @intro n distinct valued single below ih =>
    -- a node without children holds a value, and otherwise any child will do
    cases hchildren : n.children with
    | nil => exact ⟨"", by rw [show path "" = [] from rfl, lookup_nil]; exact valued hchildren⟩
    | cons pair rest =>
      obtain ⟨label, m⟩ := pair
      have hm : Keyed.get? label n.children = some m := by
        rw [hchildren, Keyed.get?_cons, if_pos rfl]
      obtain ⟨c, rfl⟩ := single label m hm
      obtain ⟨key, hkey⟩ := ih _ m hm
      refine ⟨String.ofList (c :: key.toList), ?_⟩
      rw [path_cons, lookup_cons, hm]
      exact hkey

/-! ### Writes -/

section

variable {root : Option Node} (h : ∀ n, root = some n → Tidy n)
include h

theorem nodup_children : (Keyed.keys ((root.map children).getD [])).Nodup := by
  cases root with
  | none => exact List.nodup_nil
  | some n => exact (h n rfl).distinct

theorem child? {label : String} {m : Node} (hm : Node.child? label root = some m) :
    (∃ c, label = String.singleton c) ∧ Tidy m := by
  obtain ⟨n, hn, hget⟩ := Option.bind_eq_some_iff.mp hm
  exact (h n hn).child hget

/-- A tree stays tidy when a value is put under a key, also if there was no tree before. -/
theorem put (stored : Stored) (cs : List Char) (next : Nat) :
    Tidy (Node.put stored (cs.map String.singleton) root next).1 := by
  induction cs generalizing root next with
  | nil =>
    rw [List.map_nil, Node.put]
    refine of_below (nodup_children h) (fun _ => rfl) fun label m hm => ?_
    exact child? h ((get?_children label root).symm.trans hm)
  | cons c cs ih =>
    have hchild : ∀ m, Node.child? (String.singleton c) root = some m → Tidy m :=
      fun m hm => (child? h hm).2
    have hput := ih hchild next
    rw [List.map_cons, Node.put, get?_children]
    refine of_below (Keyed.nodup_keys_set _ _ (nodup_children h)) (fun hempty => ?_)
      fun label m hm => ?_
    · -- the child on the path is there
      have hget := Keyed.get?_set_self (String.singleton c)
        (Node.put stored (cs.map String.singleton) (Node.child? (String.singleton c) root) next).1
        ((root.map children).getD [])
      rw [show Keyed.set _ _ _ = [] from hempty] at hget
      cases hget
    · have hm' := (get?_replaced (String.singleton c) label (some _) _).symm.trans hm
      split at hm'
      · next hlabel => exact ⟨⟨c, hlabel⟩, Option.some.inj hm' ▸ hput⟩
      · exact child? h ((get?_children label root).symm.trans hm')

end

theorem remove (h : Tidy n) (way : List String) (next : Nat) :
    ∀ m, (Node.remove way n next).1 = some m → Tidy m := by
  induction way generalizing n next with
  | nil =>
    intro m hm
    rw [Node.remove] at hm
    split at hm
    · cases hm
    · -- a node that loses its value is kept for its children
      next hchildren =>
      obtain rfl := Option.some.inj hm
      refine of_below h.distinct (fun hempty => ?_) fun label m hm => h.child hm
      exact absurd (List.isEmpty_iff.mpr hempty) hchildren
  | cons label rest ih =>
    intro m hm
    cases hchild : Keyed.get? label n.children with
    | none =>
      rw [Node.remove, hchild] at hm
      exact Option.some.inj hm ▸ h
    | some child =>
      obtain ⟨hlabel, htidy⟩ := h.child hchild
      obtain ⟨children, hchildren, hnodup, hremove⟩ := remove_cons hchild rest next
      rw [hremove] at hm
      split at hm
      · cases hm
      · next hkept =>
        obtain rfl := Option.some.inj hm
        refine of_below (hnodup h.distinct) (fun hempty => ?_) fun other m hm => ?_
        · -- without children the node was kept for its value
          rw [Bool.and_eq_true, not_and, Bool.not_eq_true', Bool.not_eq_false] at hkept
          exact hkept (List.isEmpty_iff.mpr hempty)
        · have hm' := (hchildren other).symm.trans hm
          split at hm'
          · next heq => exact ⟨heq ▸ hlabel, ih htidy next m hm'⟩
          · exact h.child hm'

end Tidy

/-! ### The same tree -/

/-- The same values at the same places: the trees differ in the order of children and in stamps at
most. -/
inductive SameTree : Node → Node → Prop
  | intro {a b : Node}
      (stored : a.stored = b.stored)
      (labels : (Keyed.keys a.children).Perm (Keyed.keys b.children))
      (below : ∀ label m m', Keyed.get? label a.children = some m →
        Keyed.get? label b.children = some m' → SameTree m m') :
      SameTree a b

theorem SameTree.lookup_eq {a b : Node} (h : SameTree a b) (way : List String) :
    a.lookup way = b.lookup way := by
  induction way generalizing a b with
  | nil =>
    obtain ⟨hstored, -, -⟩ := h
    rw [lookup_nil, lookup_nil, hstored]
  | cons label rest ih =>
    obtain ⟨-, hlabels, hbelow⟩ := h
    have hsome : (Keyed.get? label a.children).isSome = (Keyed.get? label b.children).isSome := by
      rw [Bool.eq_iff_iff, ← Keyed.mem_keys, ← Keyed.mem_keys]
      exact hlabels.mem_iff
    rw [lookup_cons, lookup_cons]
    cases ha : Keyed.get? label a.children with
    | none =>
      rw [ha, Option.isSome_none] at hsome
      rw [Option.isSome_eq_false_iff.mp hsome.symm |> Option.isNone_iff_eq_none.mp]
    | some m =>
      rw [ha, Option.isSome_some] at hsome
      obtain ⟨m', hb⟩ := Option.isSome_iff_exists.mp hsome.symm
      rw [hb]
      exact ih (hbelow label m m' ha hb)

/-- A child of a tidy tree is there for the sake of a value. -/
theorem Tidy.keys_subset {a b : Node} (h : Tidy a)
    (hbound : ∀ key, (a.lookup (path key)).isSome = true → (b.lookup (path key)).isSome = true) :
    Keyed.keys a.children ⊆ Keyed.keys b.children := by
  intro label hlabel
  obtain ⟨m, hm⟩ := Option.isSome_iff_exists.mp (Keyed.mem_keys.mp hlabel)
  obtain ⟨⟨c, rfl⟩, htidy⟩ := h.child hm
  obtain ⟨key, hkey⟩ := htidy.exists_bound
  have hsome := hbound (String.ofList (c :: key.toList)) <| by
    rw [path_cons, lookup_cons, hm]
    exact hkey
  rw [path_cons, lookup_cons] at hsome
  cases hb : Keyed.get? (String.singleton c) b.children with
  | none => rw [hb] at hsome; cases hsome
  | some m' => exact Keyed.mem_keys.mpr (by rw [hb]; rfl)

/-- Tidy trees are the same tree exactly if they store the same values under the same keys. -/
theorem sameTree_iff {a b : Node} (ha : Tidy a) (hb : Tidy b) :
    SameTree a b ↔ ∀ key, a.lookup (path key) = b.lookup (path key) := by
  refine ⟨fun h key => h.lookup_eq (path key), fun h => ?_⟩
  induction ha generalizing b with
  | @intro a distinct valued single below ih =>
    -- every child leads to a value, so both nodes have the same labels
    have hsub : Keyed.keys a.children ⊆ Keyed.keys b.children :=
      (Tidy.intro distinct valued single below).keys_subset fun key hkey => h key ▸ hkey
    have hsub' : Keyed.keys b.children ⊆ Keyed.keys a.children :=
      hb.keys_subset fun key hkey => h key ▸ hkey
    refine .intro (h "") ?_ fun label m m' hm hm' => ?_
    · exact (List.perm_ext_iff_of_nodup distinct hb.distinct).mpr fun label =>
        ⟨fun hlabel => hsub hlabel, fun hlabel => hsub' hlabel⟩
    · obtain ⟨c, rfl⟩ := single label m hm
      refine ih _ m hm (hb.child hm').2 fun key => ?_
      have hkey := h (String.ofList (c :: key.toList))
      rw [path_cons, lookup_cons, lookup_cons, hm, hm'] at hkey
      exact hkey

end Node

namespace Trie

/-- The same tree up to the order of children, or no tree at all. -/
def SameTree (a b : Trie) : Prop := Option.Rel Node.SameTree a.root b.root

/-- There is no root, or the tree is tidy. -/
def Tidy (t : Trie) : Prop := ∀ n, t.root = some n → n.Tidy

theorem tidy_apply {w : Write} {t t' : Trie} {next next' : Nat} (h : t.Tidy)
    (hw : w.apply t next = .ok (t', next')) : t'.Tidy := by
  rcases Write.apply_cases hw with
    ⟨stored, key, hput, -⟩ | ⟨key, root, hroot, -, hremove, -⟩ | ⟨rfl, -⟩
  · intro n hn
    rw [hput] at hn
    exact Option.some.inj hn ▸ Node.Tidy.put h stored key.toList next
  · intro n hn
    exact (h root hroot).remove (Node.path key) next n (hremove ▸ hn)
  · exact h

/-! ### Sequences of writes -/

/-- Makes writes one after another; a write that fails is left out. -/
def writeAll : List Write → Trie → Nat → Trie × Nat
  | [], t, next => (t, next)
  | w :: rest, t, next =>
    match w.apply t next with
    | .ok (t, next) => writeAll rest t next
    | .error _ => writeAll rest t next

/-- The trie that writes make of the trie without keys. -/
def written (writes : List Write) (next : Nat) : Trie :=
  (writeAll writes (empty next).1 (empty next).2).1

theorem tidy_writeAll (writes : List Write) {t : Trie} (h : t.Tidy) (next : Nat) :
    (writeAll writes t next).1.Tidy := by
  induction writes generalizing t next with
  | nil => exact h
  | cons w rest ih =>
    rw [writeAll]
    cases hw : w.apply t next with
    | error fault => exact ih h next
    | ok result => exact ih (tidy_apply h hw) result.2

theorem tidy_written (writes : List Write) (next : Nat) : (written writes next).Tidy :=
  tidy_writeAll writes (fun n hn => by cases hn) _

variable {t : Trie}

theorem Tidy.root_eq_none_iff (h : t.Tidy) : t.root = none ↔ ∀ key, t.isBound key = false := by
  constructor
  · intro hroot key
    rw [isBound_eq, contents, hroot]
    rfl
  · intro hunbound
    cases hroot : t.root with
    | none => rfl
    | some n =>
      obtain ⟨key, hkey⟩ := (h n hroot).exists_bound
      have hbound := hunbound key
      rw [isBound_eq, contents, hroot, Option.bind_some, hkey] at hbound
      cases hbound

theorem Tidy.nodeAt (h : t.Tidy) {path : List String} {n : Node} (hn : t.nodeAt path = some n) :
    n.Tidy ∧ ∃ key, path = Node.path key := by
  rw [Trie.nodeAt] at hn
  cases hroot : t.root with
  | none =>
    rw [hroot] at hn
    cases hn
  | some root =>
    rw [hroot] at hn
    exact (h root hroot).nodeAt hn

theorem Tidy.find?_isSome_iff (h : t.Tidy) (key : String) :
    (t.find? key).isSome = true ↔
      ∃ bound, t.isBound bound = true ∧ key.toList <+: bound.toList := by
  rw [find?_eq_nodeAt]
  constructor
  · intro hsome
    obtain ⟨m, hm⟩ := Option.isSome_iff_exists.mp hsome
    obtain ⟨rest, hrest⟩ := (h.nodeAt hm).1.exists_bound
    refine ⟨key ++ rest, ?_, by rw [String.toList_append]; exact List.prefix_append _ _⟩
    rw [isBound_eq, ← bind_find?, find?_eq_nodeAt, Trie.nodeAt, Node.path_append,
      Node.nodeAt_append, ← Trie.nodeAt, hm]
    exact hrest
  · rintro ⟨bound, hbound, hprefix⟩
    exact Node.nodeAt_isSome_of_prefix (Node.path_prefix_path.mpr hprefix)
      (nodeAt_isSome_of_bound hbound)

/-- Tidy tries are the same tree exactly if they contain the same. -/
theorem sameTree_iff {a b : Trie} (ha : a.Tidy) (hb : b.Tidy) :
    SameTree a b ↔ a.contents = b.contents := by
  -- if one of them has no root, the other has none either, since nothing is bound
  have hnone : ∀ {a b : Trie}, b.Tidy → a.root = none → a.contents = b.contents →
      b.root = none := by
    intro a b hb ha heq
    refine hb.root_eq_none_iff.mpr fun key => ?_
    rw [isBound_eq, ← heq, contents, ha]
    rfl
  rw [SameTree]
  cases hra : a.root with
  | none =>
    cases hrb : b.root with
    | none =>
      refine iff_of_true .none (funext fun key => ?_)
      rw [contents, contents, hra, hrb]
    | some n =>
      refine iff_of_false (fun h => by cases h) fun heq => ?_
      have hroot := hnone hb hra heq
      rw [hrb] at hroot
      cases hroot
  | some n =>
    cases hrb : b.root with
    | none =>
      refine iff_of_false (fun h => by cases h) fun heq => ?_
      have hroot := hnone ha hrb heq.symm
      rw [hra] at hroot
      cases hroot
    | some m =>
      rw [Option.rel_some_some, Node.sameTree_iff (ha n hra) (hb m hrb), funext_iff]
      refine forall_congr' fun key => ?_
      rw [contents, contents, hra, hrb, Option.bind_some, Option.bind_some]

/-- A trie has nodes at keys only, namely at the prefixes of bound keys; children of a node have
distinct labels, and a node without children holds a value. -/
structure Canonical (t : Trie) : Prop where
  at_key : ∀ path n, t.nodeAt path = some n → ∃ key, path = Node.path key
  distinct : ∀ path n, t.nodeAt path = some n → (Keyed.keys n.children).Nodup
  valued : ∀ path n, t.nodeAt path = some n → n.children = [] → n.isValueNode = true
  find?_isSome_iff : ∀ key, (t.find? key).isSome = true ↔
    ∃ bound, t.isBound bound = true ∧ key.toList <+: bound.toList
  isEmpty_iff : t.isEmpty = true ↔ ∀ key, t.isBound key = false

theorem Tidy.canonical (h : t.Tidy) : Canonical t where
  at_key path n hn := (h.nodeAt hn).2
  distinct path n hn := (h.nodeAt hn).1.distinct
  valued path n hn := (h.nodeAt hn).1.valued
  find?_isSome_iff := h.find?_isSome_iff
  isEmpty_iff := by
    rw [isEmpty, Option.isNone_iff_eq_none]
    exact h.root_eq_none_iff

/-- **Tries are canonical.**  Whatever writes made a trie from the trie without keys, it has a node
exactly at the prefixes of bound keys and none that could be dropped; and it is the same tree as any
other such trie, up to the order of children, exactly if both contain the same. -/
theorem canonical_written (writes : List Write) (next : Nat) :
    Canonical (written writes next) ∧
    ∀ writes' next', SameTree (written writes next) (written writes' next') ↔
      (written writes next).contents = (written writes' next').contents :=
  ⟨(tidy_written writes next).canonical, fun writes' next' =>
    sameTree_iff (tidy_written writes next) (tidy_written writes' next')⟩

end Trie
end StorageKit
