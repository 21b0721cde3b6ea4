/-
What versions share.

A write makes new nodes on the path of its key.  All other nodes of the new version are the very
nodes of the version it was made from:

* `Node.Rewrites` — from one root to another only the nodes on a path have changed;
* `Node.put_rewrites`, `Node.remove_rewrites` — the writes of nodes rewrite their path;
* `Trie.Shares` — a trie shares with another all nodes off the path of a key, and none on it;
* `Trie.shares_history` — **in every history of versions a write shares exactly the nodes off the
  path of its key, and a write that changes nothing makes no node**.

Design notes: sharing is stated for paths of labels of any kind.  A key stands for its path
(`Trie.find?_eq_nodeAt`), and prefixes of keys are prefixes of paths (`Node.path_prefix_path`).
-/
import StorageKit.Proofs.Allocation
import StorageKit.Proofs.Versions

namespace StorageKit

namespace Node

variable {label : String} {rest path : List String} {root replacement : Option Node}
  {next mid : Nat}

/-- From `root` to `root'` only the nodes on the path have changed, and those that are there now
were made with the stamps from `next` on, before `next'`. -/
structure Rewrites (path : List String) (root root' : Option Node) (next next' : Nat) : Prop where
  le : next ≤ next'
  off : ∀ other, ¬ other <+: path → nodeAt root' other = nodeAt root other
  on : ∀ other n, other <+: path → nodeAt root' other = some n → next ≤ n.stamp

/-- What is rewritten below a child is rewritten below a new node around it. -/
theorem Rewrites.wrap (h : Rewrites rest (child? label root) replacement next mid)
    {stored : Option Stored} {children : Keyed String Node}
    (hchildren : ∀ other, Keyed.get? other children =
      if other = label then replacement else child? other root) :
    Rewrites (label :: rest) root (some (.mk mid stored children)) next (mid + 1) := by
  have hchild : ∀ other, child? other (some (.mk mid stored children)) =
      if other = label then replacement else child? other root := hchildren
  refine ⟨h.le.trans (Nat.le_succ mid), fun other hoff => ?_, fun other n hon hn => ?_⟩
  · cases other with
    | nil => exact absurd List.nil_prefix hoff
    | cons label' rest' =>
      rw [List.cons_prefix_cons] at hoff
      rw [nodeAt_cons, nodeAt_cons, hchild]
      by_cases hlabel : label' = label
      · subst hlabel
        rw [if_pos rfl]
        exact h.off rest' fun hrest => hoff ⟨rfl, hrest⟩
      · rw [if_neg hlabel]
  · cases other with
    | nil =>
      rw [nodeAt_nil] at hn
      rw [← Option.some.inj hn]
      exact h.le
    | cons label' rest' =>
      obtain ⟨rfl, hrest⟩ := List.cons_prefix_cons.mp hon
      rw [nodeAt_cons, hchild, if_pos rfl] at hn
      exact h.on rest' n hrest hn

/-- A node of which no child is left can be dropped: off the path it had no nodes. -/
theorem Rewrites.prune (h : Rewrites rest (child? label root) replacement next mid)
    (hgone : ∀ other, (if other = label then replacement else child? other root) = none) :
    Rewrites (label :: rest) root none next mid := by
  refine ⟨h.le, fun other hoff => ?_, fun other n _ hn => by cases hn⟩
  cases other with
  | nil => exact absurd List.nil_prefix hoff
  | cons label' rest' =>
    rw [List.cons_prefix_cons] at hoff
    have hnone := hgone label'
    rw [nodeAt_none, nodeAt_cons]
    by_cases hlabel : label' = label
    · subst hlabel
      rw [if_pos rfl] at hnone
      rw [← h.off rest' fun hrest => hoff ⟨rfl, hrest⟩, hnone, nodeAt_none]
    · rw [if_neg hlabel] at hnone
      rw [hnone, nodeAt_none]

/-- A node in the place of another one, with the same children. -/
theorem rewrites_nil {root root' : Option Node} {next next' : Nat} (hle : next ≤ next')
    (hchildren : ∀ label, child? label root' = child? label root)
    (hnew : ∀ n, root' = some n → next ≤ n.stamp) : Rewrites [] root root' next next' := by
  refine ⟨hle, fun other hoff => ?_, fun other n hon hn => ?_⟩
  · cases other with
    | nil => exact absurd List.nil_prefix hoff
    | cons label rest => rw [nodeAt_cons, nodeAt_cons, hchildren]
  · rw [List.prefix_nil.mp hon, nodeAt_nil] at hn
    exact hnew n hn

theorem put_rewrites (stored : Stored) (path : List String) (root : Option Node) (next : Nat) :
    Rewrites path root (some (put stored path root next).1) next
      (put stored path root next).2 := by
  induction path generalizing root next with
  | nil =>
    rw [put]
    refine rewrites_nil (Nat.le_succ next) (fun label => get?_children label root) ?_
    intro n hn
    rw [← Option.some.inj hn]
    exact Nat.le_refl next
  | cons label rest ih =>
    have hchild := ih (child? label root) next
    rw [put, get?_children]
    refine hchild.wrap fun other => ?_
    exact (get?_replaced label other (some _) _).trans (by rw [get?_children])

/-- A value that is put under a path has a node at every place on the path. -/
theorem nodeAt_put_isSome (stored : Stored) {path other : List String} (h : other <+: path)
    (root : Option Node) (next : Nat) :
    (nodeAt (some (put stored path root next).1) other).isSome = true := by
  refine nodeAt_isSome_of_prefix h ?_
  have hlookup := lookup_put stored path path root next
  rw [if_pos rfl, lookup] at hlookup
  cases hn : (put stored path root next).1.find? path with
  | none =>
    rw [hn] at hlookup
    cases hlookup
  | some n =>
    rw [nodeAt, Option.bind_some, hn]
    rfl

theorem remove_rewrites (path : List String) (n : Node) (next : Nat)
    (h : (nodeAt (some n) path).isSome = true) :
    Rewrites path (some n) (remove path n next).1 next (remove path n next).2 := by
  induction path generalizing n next with
  | nil =>
    rw [remove]
    split
    · -- a leaf goes, and there is nothing below it that could be lost
      next hempty =>
      refine rewrites_nil (Nat.le_refl next) (fun label => ?_) fun m hm => by cases hm
      rw [child?, child?, Option.bind_some, List.isEmpty_iff.mp hempty]
      rfl
    · refine rewrites_nil (Nat.le_succ next) (fun label => rfl) fun m hm => ?_
      rw [← Option.some.inj hm]
      exact Nat.le_refl next
  | cons label rest ih =>
    rw [nodeAt_cons] at h
    have hchild : child? label (some n) = Keyed.get? label n.children := rfl
    cases hget : Keyed.get? label n.children with
    | none =>
      rw [hchild, hget] at h
      cases h
    | some child =>
      rw [hchild, hget] at h
      have hbelow := ih child next h
      rw [← hget, ← hchild] at hbelow
      obtain ⟨children, hchildren, -, hremove⟩ := remove_cons hget rest next
      rw [hremove]
      split
      · next hgone =>
        -- no child is left, so none was there beside the one that is dropped
        rw [Bool.and_eq_true, List.isEmpty_iff] at hgone
        refine hbelow.prune fun other => ?_
        rw [show child? other (some n) = Keyed.get? other n.children from rfl, ← hchildren,
          hgone.1]
        rfl
      · exact hbelow.wrap hchildren

end Node

namespace Trie

/-- The roots of versions. -/
def roots (versions : List Version) : List (Option Node) := versions.map fun v => v.trie.root

variable {objects : Objects} {t t' : Trie} {key : String} {value : Value} {type : ValueType}
  {next next' : Nat}

/-! ### Histories -/

theorem allocated_apply {w : Write} {rs : List (Option Node)} (h : Allocated rs next)
    (ht : t.root ∈ rs) (hw : w.apply t next = .ok (t', next')) :
    Allocated (t'.root :: rs) next' := by
  have hroot : ∀ n, t.root = some n → Within rs n := fun n hn =>
    ⟨t.root, ht, [], by rw [Node.nodeAt_nil, hn]⟩
  rcases Write.apply_cases hw with
    ⟨stored, key, hput, rfl⟩ | ⟨key, root, hr, -, hremove, rfl⟩ | ⟨rfl, rfl⟩
  · rw [hput]
    exact (h.put hroot stored (Node.path key)).le (Nat.le_succ _)
  · rw [hremove]
    exact (h.remove (hroot root hr) (Node.path key)).le (Nat.le_succ _)
  · exact h.mono (List.cons_subset.mpr ⟨ht, List.Subset.refl _⟩)

theorem allocated_derive (e : Edit) {versions : List Version}
    (h : Allocated (roots versions) next) :
    Allocated (roots (derive e versions next).1) (derive e versions next).2 := by
  rw [derive]
  cases hv : versions[e.version]? with
  | none => exact h
  | some v =>
    dsimp only
    cases hwrite : e.write.apply v.trie next with
    | error fault => exact h
    | ok result =>
      obtain ⟨t, next'⟩ := result
      have hmem : v.trie.root ∈ roots versions :=
        List.mem_map.mpr ⟨v, List.mem_of_getElem? hv, rfl⟩
      refine (allocated_apply h hmem hwrite).mono ?_
      rw [roots, List.map_append]
      exact List.append_subset.mpr
        ⟨List.subset_cons_self _ _, List.cons_subset.mpr ⟨List.mem_cons_self, List.nil_subset _⟩⟩

theorem allocated_deriveAll (edits : List Edit) {versions : List Version}
    (h : Allocated (roots versions) next) :
    Allocated (roots (deriveAll edits versions next).1) (deriveAll edits versions next).2 := by
  induction edits generalizing versions next with
  | nil => exact h
  | cons e rest ih => exact ih (allocated_derive e h)

/-- The trie `t'` has the very nodes of `t` everywhere off the path of the key, and on this path
only nodes that are in none of the versions. -/
structure Shares (versions : List Version) (key : String) (t t' : Trie) : Prop where
  off_path : ∀ path, ¬ path <+: Node.path key → t'.nodeAt path = t.nodeAt path
  on_path : ∀ path n, path <+: Node.path key → t'.nodeAt path = some n →
    ∀ old, Within (roots versions) old → n.isSame old = false

theorem shares_of_rewrites {versions : List Version} (h : Allocated (roots versions) next)
    (hr : Node.Rewrites (Node.path key) t.root t'.root next next') : Shares versions key t t' := by
  refine ⟨hr.off, fun path n hon hn old hold => decide_eq_false fun hsame => ?_⟩
  -- the stamps of the versions are all used up before the write
  have hnew := hr.on path n hon hn
  have hbefore := h.before hold
  omega

/-- **Versions share exactly the nodes off the written path.**  In every history of versions of a
trie, with stamps that tell nodes apart, nodes are the same only if they are equal.  A value that
is put under a key of one of the versions makes new nodes at every place on the path of the key,
and no others; a removal of what is stored under a key leaves only new nodes on the path and all
others as they were; a removal of nothing gives back the trie itself, and neither it nor a value
that is refused makes a node. -/
theorem shares_history {t : Trie} {next : Nat} (h : Allocated [t.root] next) (edits : List Edit)
    {versions : List Version} {now : Nat}
    (hversions : deriveAll edits [⟨t, []⟩] next = (versions, now)) :
    Allocated (roots versions) now ∧
    ∀ v ∈ versions, ∀ key,
      (∀ objects value type, type.accepts objects value = true →
        ∃ t' later, v.trie.put objects key value type now = .ok (t', later) ∧
          Shares versions key v.trie t' ∧
          ∀ path, path <+: Node.path key → (t'.nodeAt path).isSome = true) ∧
      (v.trie.isBound key = true → Shares versions key v.trie (v.trie.remove key now).1) ∧
      (v.trie.isBound key = false → v.trie.remove key now = (v.trie, now)) ∧
      ∀ objects value type, type.accepts objects value = false →
        (∃ fault, v.trie.put objects key value type now = .error fault) ∧
        ∀ i, versions[i]? = some v →
          derive ⟨i, .put objects key value type⟩ versions now = (versions, now) := by
  have hfirst : Allocated (roots [⟨t, []⟩]) next := h
  have hallocated := allocated_deriveAll edits hfirst
  rw [hversions] at hallocated
  refine ⟨hallocated, fun v hv key => ⟨?_, ?_, remove_of_unbound, ?_⟩⟩
  · intro objects value type haccepts
    refine ⟨_, _, put_eq haccepts, ?_, fun path hon => ?_⟩
    · exact shares_of_rewrites hallocated (Node.put_rewrites _ _ _ _)
    · exact Node.nodeAt_put_isSome _ hon _ _
  · intro hbound
    obtain ⟨root, hroot⟩ := exists_root_of_bound hbound
    have hnode := nodeAt_isSome_of_bound hbound
    rw [nodeAt, hroot] at hnode
    have hr := Node.remove_rewrites _ root now hnode
    rw [← hroot] at hr
    rw [remove_eq hroot hbound]
    exact shares_of_rewrites hallocated hr
  · intro objects value type hrejects
    have hfails := put_of_rejects hrejects v.trie key now
    refine ⟨⟨_, hfails⟩, fun i hi => ?_⟩
    rw [derive, hi]
    dsimp only
    rw [Write.apply, hfails]

/-- A tree made by hand that holds a value under `a`. -/
def handmade : Node.Sketch := .mk none [("a", .mk (some ⟨.string, .text "old"⟩) [])]

/-- Two versions of it, of which the second is made from the first. -/
def forked : List Edit :=
  [⟨0, .put [] "ab" (.text "new") .string⟩, ⟨1, .remove "a"⟩]

/-- A removal from a version in between, of which a later version exists already. -/
theorem shares_history_forked :
    ∃ versions now v, deriveAll forked [⟨⟨2, some (Node.ofSketch handmade 0).1⟩, []⟩] 3 =
        (versions, now) ∧
      versions.length = 3 ∧ versions[1]? = some v ∧ v.trie.isBound "ab" = true ∧
      Shares versions "ab" v.trie (v.trie.remove "ab" now).1 := by
  have h := (Allocated.ofSketch handmade (allocated_nil 0)).le (show _ ≤ 3 by decide)
  refine ⟨_, _, _, rfl, rfl, rfl, rfl, ?_⟩
  exact ((shares_history (t := ⟨2, some (Node.ofSketch handmade 0).1⟩) h forked rfl).2 _
    (List.mem_of_getElem? (i := 1) rfl) "ab").2.1 rfl

end Trie
end StorageKit
