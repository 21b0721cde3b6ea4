/-
Taking writes back.

A removal of what was just put under a key that was not bound, and a second write that puts back
what was bound before, leave a trie that looks as it did before both writes, the order of the
children of every node included:

* `Node.SameOutline` — nodes that look the same, with all that is below them; they may be different
  nodes;
* `Node.remove_put` — a removal takes back a put where nothing was stored;
* `Node.put_put` — a put takes back a put where something else was stored;
* `Trie.taken_back` — **both for the tries that writes make of the trie without keys**.

Design notes: a removal drops every node of which nothing is left, so it is the exact reverse of a
put only in a trie without dead branches.  Putting something back needs no such condition.
-/
import StorageKit.Proofs.Canonical

namespace StorageKit

namespace Keyed

variable {κ α : Type} [DecidableEq κ]

/-- A key that was not there is added at the end, and dropped from there again. -/
theorem erase_set_of_get?_eq_none {key : κ} {m : Keyed κ α} (h : get? key m = none) (value : α) :
    erase key (set key value m) = m := by
  induction m with
  | nil => simp [set, erase]
  | cons pair rest ih =>
    obtain ⟨k, v⟩ := pair
    rw [get?_cons] at h
    by_cases hk : k = key
    · rw [if_pos hk] at h
      cases h
    · rw [if_neg hk] at h
      rw [set, if_neg hk, erase, List.filter_cons_of_pos (by simpa using hk)]
      exact congrArg (List.cons (k, v)) (ih h)

theorem set_set (key : κ) (old new : α) (m : Keyed κ α) :
    set key new (set key old m) = set key new m := by
  induction m with
  | nil => simp [set]
  | cons pair rest ih =>
    obtain ⟨k, v⟩ := pair
    by_cases hk : k = key
    · rw [set, if_pos hk, set, if_pos rfl, set, if_pos hk]
    · rw [set, if_neg hk, set, if_neg hk, set, if_neg hk, ih]

theorem isEmpty_set (key : κ) (value : α) (m : Keyed κ α) :
    (set key value m).isEmpty = false := by
  cases m with
  | nil => rfl
  | cons pair rest =>
    rw [set]
    split <;> rfl

end Keyed

namespace Node

variable {n m : Node} {label : String} {root : Option Node} {path : List String}

/-- Nodes with the same outline. -/
def SameOutline (n m : Node) : Prop := ∀ depth label, n.outline depth label = m.outline depth label

theorem outline_eq (n : Node) (depth : Nat) (label : String) :
    n.outline depth label = ⟨depth, label, n.stored⟩ :: outlineChildren (depth + 1) n.children := by
  cases n
  rfl

/-- Nodes look the same if they store the same and their children look the same. -/
theorem sameOutline_of (hstored : n.stored = m.stored)
    (hchildren : ∀ depth, outlineChildren depth n.children = outlineChildren depth m.children) :
    SameOutline n m := by
  intro depth label
  rw [outline_eq, outline_eq, hstored, hchildren]

/-- A child that is replaced keeps its place. -/
theorem outlineChildren_set {children : Keyed String Node} {child new : Node}
    (h : Keyed.get? label children = some child) (hsame : SameOutline child new) (depth : Nat) :
    outlineChildren depth (Keyed.set label new children) = outlineChildren depth children := by
  induction children with
  | nil => cases h
  | cons pair rest ih =>
    obtain ⟨k, first⟩ := pair
    rw [Keyed.get?_cons] at h
    by_cases hk : k = label
    · rw [if_pos hk] at h
      obtain rfl := Option.some.inj h
      rw [Keyed.set, if_pos hk, outlineChildren, outlineChildren, hsame, hk]
    · rw [if_neg hk] at h
      rw [Keyed.set, if_neg hk, outlineChildren, outlineChildren, ih h]

/-! ### Writes and their reverse -/

/-- Children of which one is replaced by what is left of it. -/
def withLeft (label : String) (left : Option Node) (children : Keyed String Node) :
    Keyed String Node :=
  match left with
  | some n => Keyed.set label n children
  | none => Keyed.erase label children

/-- A removal below a child goes on with what is left of the child, and leaves no node if nothing is
left of the node itself. -/
theorem remove_at {children : Keyed String Node} {child : Node}
    (h : Keyed.get? label children = some child) (made : Nat) (stored : Option Stored)
    (rest : List String) (next : Nat) :
    ∃ stamp, (remove (label :: rest) (.mk made stored children) next).1 =
      if (withLeft label (remove rest child next).1 children).isEmpty && !stored.isSome then none
      else some (.mk stamp stored (withLeft label (remove rest child next).1 children)) := by
  have hget : Keyed.get? label (mk made stored children).children = some child := h
  refine ⟨(remove rest child next).2, ?_⟩
  rw [remove, hget]
  show (if (withLeft label (remove rest child next).1 children).isEmpty && !stored.isSome then _
    else _ : Option Node × Nat).1 = _
  split <;> rfl

/-- Children look as before when one is put among them and then replaced by what looks like the
child that was there before, or is dropped if there was none. -/
theorem withLeft_set {before : Keyed String Node} {left : Option Node}
    (h : Option.Rel SameOutline (Keyed.get? label before) left) (made : Node) :
    (withLeft label left (Keyed.set label made before)).isEmpty = before.isEmpty ∧
      ∀ depth, outlineChildren depth (withLeft label left (Keyed.set label made before)) =
        outlineChildren depth before := by
  cases hget : Keyed.get? label before with
  | none =>
    rw [hget] at h
    cases h
    rw [withLeft, Keyed.erase_set_of_get?_eq_none hget]
    exact ⟨rfl, fun _ => rfl⟩
  | some child =>
    rw [hget] at h
    cases h with
    | some hsame =>
      rw [withLeft, Keyed.set_set]
      refine ⟨?_, outlineChildren_set hget hsame⟩
      rw [Keyed.isEmpty_set]
      cases before with
      | nil => cases hget
      | cons => rfl

/-- **A removal takes back a put where nothing was stored.** -/
theorem remove_put (stored : Stored) (htidy : ∀ n, root = some n → Tidy n)
    (hfree : (root.bind fun n => n.lookup path) = none) (next later : Nat) :
    Option.Rel SameOutline root (remove path (put stored path root next).1 later).1 := by
  induction path generalizing root next with
  | nil =>
    cases root with
    | none => exact .none
    | some n =>
      rw [Option.bind_some, lookup_nil] at hfree
      -- without a value the node was there for its children
      have hchildren : n.children.isEmpty = false := by
        rw [← Bool.not_eq_true, List.isEmpty_iff]
        intro hempty
        have hvalue := (htidy n rfl).valued hempty
        rw [isValueNode, hfree] at hvalue
        cases hvalue
      have hremove : (remove [] (put stored [] (some n) next).1 later).1 =
          some (.mk later none n.children) := by
        show (if n.children.isEmpty then _ else _ : Option Node × Nat).1 = _
        rw [hchildren, if_neg Bool.false_ne_true]
        rfl
      rw [hremove]
      exact .some (sameOutline_of hfree fun _ => rfl)
  | cons label rest ih =>
    rw [bind_lookup_cons, get?_children] at hfree
    have hchild := ih (fun m hm => (Tidy.child? htidy hm).2) hfree next
    rw [← get?_children label root] at hchild
    -- the children look as they did, so the node is dropped only if it was not there
    rw [put]
    set before := (root.map children).getD [] with hbefore
    set made := put stored rest (Keyed.get? label before) next
    obtain ⟨hempty, houtline⟩ := withLeft_set hchild made.1
    obtain ⟨stamp, hremove⟩ := remove_at (Keyed.get?_set_self label made.1 before) made.2
      (root.bind Node.stored) rest later
    rw [hremove, hempty]
    cases root with
    | none => exact .none
    | some n =>
      have hkept : ¬ (before.isEmpty && !n.stored.isSome) = true := by
        rw [Bool.and_eq_true, List.isEmpty_iff, not_and, Bool.not_eq_true', Bool.not_eq_false]
        exact (htidy n rfl).valued
      rw [Option.bind_some, if_neg hkept]
      exact .some (sameOutline_of rfl fun depth => (houtline depth).symm)

/-- **A put takes back a put where something else was stored.** -/
theorem put_put (stored : Stored) {old : Stored}
    (hold : (root.bind fun n => n.lookup path) = some old) (next later : Nat) :
    Option.Rel SameOutline root
      (some (put old path (some (put stored path root next).1) later).1) := by
  induction path generalizing root next later with
  | nil =>
    obtain ⟨n, rfl, hn⟩ := Option.bind_eq_some_iff.mp hold
    rw [lookup_nil] at hn
    exact .some (sameOutline_of hn fun _ => rfl)
  | cons label rest ih =>
    rw [bind_lookup_cons] at hold
    have hchild := ih hold next later
    rw [put, put]
    set before := (root.map children).getD [] with hbefore
    set made := put stored rest (Keyed.get? label before) next
    show Option.Rel SameOutline root (some (.mk _ (root.bind Node.stored) (Keyed.set label
      (put old rest (Keyed.get? label (Keyed.set label made.1 before)) later).1
      (Keyed.set label made.1 before))))
    rw [Keyed.get?_set_self, Keyed.set_set]
    cases root with
    | none => cases hold
    | some n =>
      obtain ⟨child, hget, -⟩ := Option.bind_eq_some_iff.mp hold
      rw [hget] at hchild
      cases hchild with
      | some hsame =>
        exact .some (sameOutline_of rfl fun depth => (outlineChildren_set hget hsame depth).symm)

end Node

namespace Trie

/-- Tries with roots that look the same have the same dump, and both are empty or neither is. -/
theorem dump_eq_of_rel {t t' : Trie} (h : Option.Rel Node.SameOutline t.root t'.root) :
    t'.dump = t.dump ∧ t'.isEmpty = t.isEmpty := by
  rw [dump, dump, isEmpty, isEmpty]
  generalize t.root = root at h ⊢
  generalize t'.root = root' at h ⊢
  cases h with
  | none => exact ⟨rfl, rfl⟩
  | some hsame => exact ⟨(hsame 0 "").symm, rfl⟩

/-- **Writes can be taken back.**  Let a trie be made by any writes from the trie without keys, and a
value that its token accepts be put under a key of it.  If nothing was stored under the key, removing
it again gives a trie with the very dump that the first one had, and the empty trie if it was empty.
If something was stored there that its own token accepts, putting that back gives a trie with the
dump that the first one had. -/
theorem taken_back (writes : List Write) (start next : Nat) (key : String) {objects : Objects}
    {type : ValueType} {value : Value} (h : type.accepts objects value = true) :
    ∃ t' next', (written writes start).put objects key value type next = .ok (t', next') ∧
      ((written writes start).isBound key = false →
        (t'.remove key next').1.dump = (written writes start).dump ∧
        (t'.remove key next').1.isEmpty = (written writes start).isEmpty) ∧
      ∀ old, (written writes start).contents key = some old →
        ∀ objects', old.type.accepts objects' old.value = true →
          ∃ t'' next'', t'.put objects' key old.value old.type next' = .ok (t'', next'') ∧
            t''.dump = (written writes start).dump := by
  have htidy := tidy_written writes start
  generalize written writes start = t at htidy ⊢
  refine ⟨_, _, put_eq h, fun hunbound => ?_, fun old hold objects' haccepts => ?_⟩
  · -- the removal finds what was put
    set t' := (ofRoot (some (Node.put ⟨type, value⟩ (Node.path key) t.root next).1)
      (Node.put ⟨type, value⟩ (Node.path key) t.root next).2).1
    have hbound : t'.isBound key = true := by
      rw [isBound_eq, contents_ofRoot, Option.bind_some, Node.lookup_put, if_pos rfl]
      rfl
    have hfree : (t.root.bind fun n => n.lookup (Node.path key)) = none := by
      rwa [isBound_eq, Option.isSome_eq_false_iff, Option.isNone_iff_eq_none] at hunbound
    refine dump_eq_of_rel ?_
    show Option.Rel _ t.root (t'.remove key _).1.root
    rw [remove_eq rfl hbound]
    exact Node.remove_put ⟨type, value⟩ htidy hfree next _
  · refine ⟨_, _, put_eq haccepts, ?_⟩
    exact (dump_eq_of_rel (Node.put_put ⟨type, value⟩ hold next _)).1

/-- A key that is bound only further down, and one that is bound to something else. -/
theorem taken_back_inner :
    let writes : List Write := [.put [] "ab" (.text "x") .string, .put [] "ad" (.bool true) .boolean,
      .put [] "c" (.text "y") .string]
    let t := written writes 0
    ValueType.string.accepts [] (.text "z") = true ∧
    t.isBound "a" = false ∧
    t.contents "ad" = some ⟨.boolean, .bool true⟩ ∧
    (∃ t' next', t.put [] "a" (.text "z") .string 100 = .ok (t', next') ∧
      (t'.remove "a" next').1.dump = t.dump) ∧
    ∃ t' next' t'' next'', t.put [] "ad" (.text "z") .string 100 = .ok (t', next') ∧
      t'.put [] "ad" (.bool true) .boolean next' = .ok (t'', next'') ∧ t''.dump = t.dump := by
  intro writes t
  have haccepts : ValueType.string.accepts [] (.text "z") = true := rfl
  have hunbound : t.isBound "a" = false := by decide
  have hold : t.contents "ad" = some ⟨.boolean, .bool true⟩ := rfl
  obtain ⟨t₁, next₁, hput₁, hremoved, -⟩ := taken_back writes 0 100 "a" haccepts
  obtain ⟨t₂, next₂, hput₂, -, hback⟩ := taken_back writes 0 100 "ad" haccepts
  obtain ⟨t₃, next₃, hput₃, hdump⟩ := hback _ hold [] rfl
  exact ⟨haccepts, hunbound, hold, ⟨t₁, next₁, hput₁, (hremoved hunbound).1⟩,
    t₂, next₂, t₃, next₃, hput₂, hput₃, hdump⟩

end Trie
end StorageKit
