/-
What a trie contains.

A trie contains, under every key, what is stored at the node the key leads to.  Its two writes
change this function at one key:

* `Node.lookup_put`, `Node.lookup_remove` — the writes of nodes, at every path;
* `Trie.contents` — what is stored under the keys;
* `Trie.contents_put`, `Trie.contents_remove` — the writes of tries update the contents at their
  key;
* `Trie.finite_contents` — something is stored under finitely many keys.

Design notes: none of this asks for the labels of the children of a node to be distinct.  Where
they are not, only the first child with a label is ever visited, by readers and writers alike.
-/
import StorageKit.Trie.Basic
import StorageKit.Proofs.Keyed
import Mathlib.Data.Set.Finite.Lattice

namespace StorageKit

namespace Node

/-! ### Paths -/

theorem path_injective : Function.Injective path := by
  intro a b h
  have hsingleton : Function.Injective String.singleton := by
    intro c d hcd
    have hlist := congrArg String.toList hcd
    simpa using hlist
  exact String.toList_injective (List.map_injective_iff.mpr hsingleton h)

/-- What is stored at a path. -/
def lookup (n : Node) (path : List String) : Option Stored := (n.find? path).bind stored

theorem lookup_nil (n : Node) : n.lookup [] = n.stored := by
  rw [lookup, find?, Option.bind_some]

theorem lookup_cons (n : Node) (label : String) (rest : List String) :
    n.lookup (label :: rest) =
      (Keyed.get? label n.children).bind fun child => child.lookup rest := by
  rw [lookup, find?]
  cases Keyed.get? label n.children <;> rfl

/-- The same for a node or none: no node has no children. -/
theorem bind_lookup_cons (root : Option Node) (label : String) (rest : List String) :
    (root.bind fun n => n.lookup (label :: rest)) =
      (Keyed.get? label ((root.map children).getD [])).bind fun child => child.lookup rest := by
  cases root with
  | none => rfl
  | some n => exact lookup_cons n label rest

/-! ### Writes -/

/-- A node with a value at a path stores that value there, and at all other paths what was stored
before. -/
theorem lookup_put (stored : Stored) (path other : List String) (root : Option Node)
    (next : Nat) :
    (put stored path root next).1.lookup other =
      if other = path then some stored else root.bind fun n => n.lookup other := by
  induction path generalizing other root next with
  | nil =>
    cases other with
    | nil =>
      rw [put, lookup_nil, if_pos rfl]
      rfl
    | cons label rest =>
      rw [if_neg (List.cons_ne_nil _ _), put, bind_lookup_cons, lookup_cons]
      rfl
  | cons label rest ih =>
    rw [put]
    cases other with
    | nil =>
      rw [if_neg (List.cons_ne_nil _ _).symm, lookup_nil]
      cases root with
      | none => rfl
      | some n => exact (lookup_nil n).symm
    | cons label' rest' =>
      rw [lookup_cons, bind_lookup_cons]
      set children := (root.map children).getD []
      show (Keyed.get? label' (Keyed.set label _ children)).bind _ = _
      by_cases hlabel : label' = label
      · -- the written path and the other one enter the same child
        subst hlabel
        rw [Keyed.get?_set_self, Option.bind_some, ih]
        by_cases hrest : rest' = rest
        · rw [if_pos hrest, if_pos (by rw [hrest])]
        · rw [if_neg hrest, if_neg fun h => hrest (List.cons.inj h).2]
      · rw [Keyed.get?_set_of_ne hlabel, if_neg fun h => hlabel (List.cons.inj h).1]

/-- Children of which one was replaced or dropped. -/
theorem get?_replaced (label other : String) (replacement : Option Node)
    (children : Keyed String Node) :
    Keyed.get? other
        (match replacement with
          | some n => Keyed.set label n children
          | none => Keyed.erase label children) =
      if other = label then replacement else Keyed.get? other children := by
  by_cases h : other = label
  · subst h
    rw [if_pos rfl]
    cases replacement with
    | none => exact Keyed.get?_erase_self _ _
    | some n => exact Keyed.get?_set_self _ _ _
  · rw [if_neg h]
    cases replacement with
    | none => exact Keyed.get?_erase_of_ne h _
    | some n => exact Keyed.get?_set_of_ne h _ _

/-- A node with other children may be dropped when nothing is left of it: no child, and no value of
its own. -/
theorem lookup_pruned (n : Node) (children : Keyed String Node) (other : List String)
    (next : Nat) :
    ((if children.isEmpty && !n.isValueNode then (none, next)
      else (some (.mk next n.stored children), next + 1) : Option Node × Nat).1.bind fun m =>
        m.lookup other) =
      match other with
      | [] => n.stored
      | label :: rest => (Keyed.get? label children).bind fun child => child.lookup rest := by
  split
  · next hgone =>
    rw [Bool.and_eq_true, List.isEmpty_iff, Bool.not_eq_true', isValueNode,
      Option.isSome_eq_false_iff, Option.isNone_iff_eq_none] at hgone
    obtain ⟨hempty, hvalue⟩ := hgone
    cases other with
    | nil => exact hvalue.symm
    | cons label rest =>
      rw [hempty]
      rfl
  · rw [Option.bind_some]
    cases other with
    | nil => exact lookup_nil _
    | cons label rest => exact lookup_cons _ label rest

/-- One step of a removal, at a child that is there: the child is replaced by what is left of it,
and the node is dropped if nothing is left of the node itself. -/
theorem remove_cons {label : String} {n child : Node}
    (h : Keyed.get? label n.children = some child) (rest : List String) (next : Nat) :
    ∃ children : Keyed String Node,
      (∀ other, Keyed.get? other children =
        if other = label then (remove rest child next).1 else Keyed.get? other n.children) ∧
      ((Keyed.keys n.children).Nodup → (Keyed.keys children).Nodup) ∧
      remove (label :: rest) n next =
        if children.isEmpty && !n.isValueNode then (none, (remove rest child next).2)
        else (some (.mk (remove rest child next).2 n.stored children),
          (remove rest child next).2 + 1) := by
  refine ⟨_, fun other => get?_replaced label other (remove rest child next).1 n.children, ?_, ?_⟩
  · intro hnodup
    cases (remove rest child next).1 with
    | none => exact Keyed.nodup_keys_erase label hnodup
    | some r => exact Keyed.nodup_keys_set label r hnodup
  · rewrite [remove, h]
    rfl

/-- A node without a value at a path stores nothing there, and at all other paths what was stored
before.  If nothing is left of it, nothing was stored at any other path. -/
theorem lookup_remove (path other : List String) (n : Node) (next : Nat) :
    ((remove path n next).1.bind fun m => m.lookup other) =
      if other = path then none else n.lookup other := by
  induction path generalizing other n next with
  | nil =>
    rw [remove]
    cases other with
    | nil =>
      rw [if_pos rfl]
      split
      · rfl
      · exact lookup_nil _
    | cons label rest =>
      rw [if_neg (List.cons_ne_nil _ _), lookup_cons]
      split
      · next hempty =>
        rw [List.isEmpty_iff.mp hempty]
        rfl
      · rw [Option.bind_some, lookup_cons]
        rfl
  | cons label rest ih =>
    cases hchild : Keyed.get? label n.children with
    | none =>
      rw [remove, hchild]
      dsimp only
      rw [Option.bind_some]
      split
      · next heq => rw [heq, lookup_cons, hchild, Option.bind_none]
      · rfl
    | some child =>
      obtain ⟨children, hchildren, -, hremove⟩ := remove_cons hchild rest next
      rw [hremove, lookup_pruned]
      cases other with
      | nil => rw [if_neg (List.cons_ne_nil _ _).symm, lookup_nil]
      | cons label' rest' =>
        dsimp only
        rw [hchildren, lookup_cons]
        by_cases hlabel : label' = label
        · -- the path and the other one enter the same child
          subst hlabel
          rw [if_pos rfl, ih, hchild, Option.bind_some]
          by_cases hrest : rest' = rest
          · rw [if_pos hrest, if_pos (by rw [hrest])]
          · rw [if_neg hrest, if_neg fun h => hrest (List.cons.inj h).2]
        · rw [if_neg hlabel, if_neg fun h => hlabel (List.cons.inj h).1]

/-! ### Finiteness -/

/-- The paths at which children store something. -/
def boundPaths (children : Keyed String Node) : Set (List String) :=
  {path | ∃ label rest, path = label :: rest ∧
    ((Keyed.get? label children).bind fun child => child.lookup rest).isSome = true}

theorem boundPaths_cons (label : String) (n : Node) (children : Keyed String Node) :
    boundPaths ((label, n) :: children) ⊆
      List.cons label '' {path | (n.lookup path).isSome = true} ∪ boundPaths children := by
  rintro path ⟨label', rest, rfl, hsome⟩
  rw [Keyed.get?_cons] at hsome
  by_cases hlabel : label = label'
  · subst hlabel
    rw [if_pos rfl, Option.bind_some] at hsome
    exact Or.inl ⟨rest, hsome, rfl⟩
  · rw [if_neg hlabel] at hsome
    exact Or.inr ⟨label', rest, rfl, hsome⟩

mutual

/-- A node stores something at finitely many paths. -/
theorem finite_lookup : (n : Node) → {path | (n.lookup path).isSome = true}.Finite
  | .mk stamp stored children => by
    -- the node itself is at the empty path, everything else is below a child
    refine ((finite_boundPaths children).insert []).subset fun path hpath => ?_
    cases path with
    | nil => exact Set.mem_insert _ _
    | cons label rest =>
      have hsome : ((mk stamp stored children).lookup (label :: rest)).isSome = true := hpath
      rw [lookup_cons] at hsome
      exact Set.mem_insert_of_mem _ ⟨label, rest, rfl, hsome⟩
termination_by structural n => n

theorem finite_boundPaths : (children : List (String × Node)) → (boundPaths children).Finite
  | [] => by
    refine Set.finite_empty.subset ?_
    rintro path ⟨label, rest, -, hsome⟩
    cases hsome
  | (label, n) :: rest =>
    (((finite_lookup n).image _).union (finite_boundPaths rest)).subset
      (boundPaths_cons label n rest)
termination_by structural children => children

end

end Node

/-- What a token reads of what is stored: the value, if it was written through this token and still
fits it. -/
def Stored.read (objects : Objects) (type : ValueType) (s : Stored) : Option Value :=
  if type.isSame s.type && type.accepts objects s.value then some s.value else none

namespace Trie

/-! ### Tries -/

/-- What is stored under the keys. -/
def contents (t : Trie) (key : String) : Option Stored :=
  t.root.bind fun n => n.lookup (Node.path key)

theorem bind_find? (t : Trie) (key : String) : (t.find? key).bind Node.stored = t.contents key := by
  rw [find?, contents]
  cases t.root <;> rfl

/-- A key is bound exactly if something is stored under it. -/
theorem isBound_eq (t : Trie) (key : String) : t.isBound key = (t.contents key).isSome := by
  rw [isBound, ← bind_find?]
  cases t.find? key <;> rfl

/-- Something is stored under finitely many keys. -/
theorem finite_contents (t : Trie) : {key | (t.contents key).isSome = true}.Finite := by
  cases hroot : t.root with
  | none =>
    refine Set.finite_empty.subset fun key (hkey : (t.contents key).isSome = true) => ?_
    rw [contents, hroot] at hkey
    cases hkey
  | some n =>
    have hfinite := (Node.finite_lookup n).preimage Node.path_injective.injOn
    refine hfinite.subset fun key (hkey : (t.contents key).isSome = true) => ?_
    rw [contents, hroot] at hkey
    exact hkey

/-- What is read through a token of what is stored. -/
theorem get_eq (objects : Objects) (t : Trie) (key : String) (type : ValueType) :
    t.get objects key type = (t.contents key).bind (Stored.read objects type) := by
  rw [get, ← bind_find?]
  cases t.find? key with
  | none => rfl
  | some n =>
    rw [Option.bind_some, Option.bind_some, Node.read]
    cases n.stored <;> rfl

theorem contents_ofRoot (root : Option Node) (next : Nat) (key : String) :
    (ofRoot root next).1.contents key = root.bind fun n => n.lookup (Node.path key) :=
  rfl

/-- A trie with a value under a key. -/
theorem contents_put {objects : Objects} {t t' : Trie} {key : String} {value : Value}
    {type : ValueType} {next next' : Nat}
    (h : t.put objects key value type next = .ok (t', next')) :
    t'.contents = Function.update t.contents key (some ⟨type, value⟩) := by
  rw [put] at h
  split at h
  · have htrie : (ofRoot (some (Node.put ⟨type, value⟩ (Node.path key) t.root next).1) _).1 = t' :=
      congrArg Prod.fst (Except.ok.inj h)
    funext other
    rw [← htrie, contents_ofRoot, Option.bind_some, Node.lookup_put]
    by_cases hkey : other = key
    · rw [if_pos (by rw [hkey]), hkey, Function.update_self]
    · rw [if_neg fun hpath => hkey (Node.path_injective hpath), Function.update_of_ne hkey]
      rfl
  · cases h

/-- A trie with nothing under a key. -/
theorem contents_remove (t : Trie) (key : String) (next : Nat) :
    (t.remove key next).1.contents = Function.update t.contents key none := by
  -- a trie with nothing under the key already is left as it is
  have hunbound : t.isBound key = false → t.contents = Function.update t.contents key none := by
    intro hbound
    rw [isBound_eq, Option.isSome_eq_false_iff, Option.isNone_iff_eq_none] at hbound
    rw [← hbound, Function.update_eq_self]
  rw [remove]
  cases hroot : t.root with
  | none =>
    refine hunbound ?_
    rw [isBound, find?, hroot]
    rfl
  | some root =>
    dsimp only
    split
    · funext other
      rw [contents_ofRoot, Node.lookup_remove]
      by_cases hkey : other = key
      · rw [if_pos (by rw [hkey]), hkey, Function.update_self]
      · rw [if_neg fun hpath => hkey (Node.path_injective hpath), Function.update_of_ne hkey,
          contents, hroot, Option.bind_some]
    · next hbound => exact hunbound (Bool.eq_false_iff.mpr hbound)

end Trie
end StorageKit
