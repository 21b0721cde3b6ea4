/-
Nodes and their stamps.

A stamp is given to one node only.  Whatever nodes have been made, by hand or by writes, a node is
known by its stamp, and the stamps to come are known by no node yet:

* `Allocated` — a collection of trees in which stamps tell nodes apart, all of them given out
  before a certain stamp;
* `Allocated.wrap` — a new node around nodes that are there;
* `Allocated.ofSketch`, `Allocated.put`, `Allocated.remove` — **trees made by hand and by writes
  join the collection**.
-/
import StorageKit.Proofs.Paths

namespace StorageKit

/-! ### Collections of trees -/

/-- The node is part of one of the trees. -/
def Within (roots : List (Option Node)) (n : Node) : Prop :=
  ∃ root ∈ roots, ∃ path, Node.nodeAt root path = some n

/-- The trees have been made with stamps before `next`, and no stamp was given to two nodes. -/
structure Allocated (roots : List (Option Node)) (next : Nat) : Prop where
  before : ∀ {n}, Within roots n → n.stamp < next
  identified : ∀ {a b}, Within roots a → Within roots b → a.isSame b = true → a = b

section

variable {roots roots' : List (Option Node)} {n : Node} {next : Nat}

theorem Within.mono (h : Within roots n) (hsub : roots ⊆ roots') : Within roots' n := by
  obtain ⟨root, hroot, path, hpath⟩ := h
  exact ⟨root, hsub hroot, path, hpath⟩

theorem within_head : Within (some n :: roots) n :=
  ⟨some n, List.mem_cons_self, [], Node.nodeAt_nil _⟩

/-- What is below a node of a tree is part of the tree. -/
theorem Within.nodeAt (h : Within roots n) {path : List String} {m : Node}
    (hm : Node.nodeAt (some n) path = some m) : Within roots m := by
  obtain ⟨root, hroot, way, hway⟩ := h
  refine ⟨root, hroot, way ++ path, ?_⟩
  rw [Node.nodeAt_append, hway, hm]

theorem Within.child (h : Within roots n) {label : String} {m : Node}
    (hm : Keyed.get? label n.children = some m) : Within roots m := by
  have hnode : Node.nodeAt (some n) [label] = some m := by
    rw [Node.nodeAt_cons, Node.nodeAt_nil]
    exact hm
  exact h.nodeAt hnode

/-- A part of the first tree is its root, or it is below one of its children. -/
theorem within_cons_cases {m : Node} (h : Within (some n :: roots) m) :
    m = n ∨ (∃ label child path, Keyed.get? label n.children = some child ∧
      Node.nodeAt (some child) path = some m) ∨ Within roots m := by
  obtain ⟨root, hroot, path, hpath⟩ := h
  rcases List.mem_cons.mp hroot with rfl | hroot
  · -- the empty path ends at the root, every other one leads through a child
    cases path with
    | nil =>
      rw [Node.nodeAt_nil] at hpath
      exact Or.inl (Option.some.inj hpath).symm
    | cons label rest =>
      rw [Node.nodeAt_cons] at hpath
      cases hchild : Node.child? label (some n) with
      | none => rw [hchild] at hpath; cases hpath
      | some child => exact Or.inr (Or.inl ⟨label, child, rest, hchild, hchild ▸ hpath⟩)
  · exact Or.inr (Or.inr ⟨root, hroot, path, hpath⟩)

theorem allocated_nil (next : Nat) : Allocated [] next where
  before := by
    rintro n ⟨root, hroot, -⟩
    cases hroot
  identified := by
    rintro a b ⟨root, hroot, -⟩
    cases hroot

namespace Allocated

theorem mono (h : Allocated roots next) (hsub : roots' ⊆ roots) : Allocated roots' next where
  before hn := h.before (hn.mono hsub)
  identified ha hb := h.identified (ha.mono hsub) (hb.mono hsub)

theorem le {next' : Nat} (h : Allocated roots next) (hle : next ≤ next') :
    Allocated roots next' :=
  ⟨fun hn => (h.before hn).trans_le hle, h.identified⟩

/-- A collection to which only a missing tree is added. -/
theorem none (h : Allocated roots next) : Allocated (none :: roots) next := by
  have hwithin : ∀ {n}, Within (Option.none :: roots) n → Within roots n := by
    rintro n ⟨root, hroot, path, hpath⟩
    rcases List.mem_cons.mp hroot with rfl | hroot
    · cases hpath
    · exact ⟨root, hroot, path, hpath⟩
  exact ⟨fun hn => h.before (hwithin hn), fun ha hb => h.identified (hwithin ha) (hwithin hb)⟩

/-- A new node around nodes that are there. -/
theorem wrap (h : Allocated roots next) {stored : Option Stored} {children : Keyed String Node}
    (hchildren : ∀ label m, Keyed.get? label children = some m → Within roots m) :
    Allocated (some (.mk next stored children) :: roots) (next + 1) := by
  -- the only new part is the node itself, with a stamp that is above all others
  have hcases : ∀ {m}, Within (some (.mk next stored children) :: roots) m →
      m = .mk next stored children ∨ Within roots m := by
    intro m hm
    rcases within_cons_cases hm with rfl | ⟨label, child, path, hchild, hpath⟩ | hm
    · exact Or.inl rfl
    · exact Or.inr ((hchildren label child hchild).nodeAt hpath)
    · exact Or.inr hm
  have hnew : ∀ {m}, Within roots m → (Node.mk next stored children).stamp ≠ m.stamp :=
    fun hm => (Nat.ne_of_lt (h.before hm)).symm
  constructor
  · intro m hm
    rcases hcases hm with rfl | hm
    · exact Nat.lt_succ_self next
    · exact (h.before hm).trans (Nat.lt_succ_self next)
  · intro a b ha hb hsame
    have hstamp : a.stamp = b.stamp := of_decide_eq_true hsame
    rcases hcases ha with rfl | ha
    · rcases hcases hb with rfl | hb
      · rfl
      · exact absurd hstamp (hnew hb)
    · rcases hcases hb with rfl | hb
      · exact absurd hstamp.symm (hnew ha)
      · exact h.identified ha hb hsame

/-! ### Writes -/

variable {root : Option Node}

/-- A collection to which one of its parts is added. -/
theorem again (h : Allocated roots next) (hn : Within roots n) :
    Allocated (some n :: roots) next := by
  have hwithin : ∀ {m}, Within (some n :: roots) m → Within roots m := by
    rintro m ⟨root, hroot, path, hpath⟩
    rcases List.mem_cons.mp hroot with rfl | hroot
    · exact hn.nodeAt hpath
    · exact ⟨root, hroot, path, hpath⟩
  exact ⟨fun hm => h.before (hwithin hm), fun ha hb => h.identified (hwithin ha) (hwithin hb)⟩

theorem within_child? (hroot : ∀ n, root = some n → Within roots n) {label : String} {m : Node}
    (hm : Node.child? label root = some m) : Within roots m := by
  obtain ⟨n, hn, hchild⟩ := Option.bind_eq_some_iff.mp hm
  exact (hroot n hn).child hchild

/-- A new node with the children of a node that is there, one of them replaced. -/
theorem wrap_replaced (label : String) {replacement : Option Node}
    (h : Allocated (replacement :: roots) next) (hroot : ∀ n, root = some n → Within roots n)
    {stored : Option Stored} {children : Keyed String Node}
    (hchildren : ∀ other, Keyed.get? other children =
      if other = label then replacement else Node.child? other root) :
    Allocated (some (.mk next stored children) :: roots) (next + 1) := by
  have hwithin : ∀ other m, Keyed.get? other children = some m →
      Within (replacement :: roots) m := by
    intro other m hm
    rw [hchildren] at hm
    split at hm
    · subst hm
      exact within_head
    · exact (within_child? hroot hm).mono (List.subset_cons_self _ _)
  exact (h.wrap hwithin).mono (List.cons_subset_cons _ (List.subset_cons_self _ _))

theorem put (h : Allocated roots next) (hroot : ∀ n, root = some n → Within roots n)
    (stored : Stored) (path : List String) :
    Allocated (some (Node.put stored path root next).1 :: roots)
      (Node.put stored path root next).2 := by
  induction path generalizing root next with
  | nil =>
    rw [Node.put]
    refine h.wrap fun label m hm => ?_
    rw [Node.get?_children] at hm
    exact within_child? hroot hm
  | cons label rest ih =>
    have hroot' : ∀ m, Node.child? label root = some m → Within roots m :=
      fun m hm => within_child? hroot hm
    -- the child that was made for the rest joins first, and the new node is made around it
    have hchild := ih h hroot'
    rw [Node.put, Node.get?_children]
    refine hchild.wrap_replaced label hroot fun other => ?_
    exact (Node.get?_replaced label other (some _) _).trans (by rw [Node.get?_children])

theorem remove (h : Allocated roots next) (hn : Within roots n) (path : List String) :
    Allocated ((Node.remove path n next).1 :: roots) (Node.remove path n next).2 := by
  induction path generalizing n next with
  | nil =>
    rw [Node.remove]
    split
    · exact h.none
    · exact h.wrap fun label m hm => hn.child hm
  | cons label rest ih =>
    cases hchild : Keyed.get? label n.children with
    | none =>
      rw [Node.remove, hchild]
      exact h.again hn
    | some child =>
      have hreplaced := ih h (hn.child hchild)
      obtain ⟨children, hchildren, -, hremove⟩ := Node.remove_cons hchild rest next
      rw [hremove]
      split
      · -- nothing is left of the node, but stamps may have been spent below it
        exact (hreplaced.mono (List.subset_cons_self _ _)).none
      · have hroot : ∀ m, some n = some m → Within roots m := fun m hm => Option.some.inj hm ▸ hn
        exact hreplaced.wrap_replaced label hroot hchildren

end Allocated

/-! ### Trees made by hand -/

mutual

/-- A tree that is made by hand joins the collection. -/
theorem Allocated.ofSketch : (s : Node.Sketch) → {roots : List (Option Node)} → {next : Nat} →
    Allocated roots next →
    Allocated (some (Node.ofSketch s next).1 :: roots) (Node.ofSketch s next).2
  | .mk stored children, roots, next, h => by
    obtain ⟨made, hsub, hmade, hwithin⟩ := Allocated.ofSketches children h []
      fun label m hm => by cases hm
    rw [Node.ofSketch]
    exact (hmade.wrap hwithin).mono (List.cons_subset_cons _ hsub)
termination_by structural s => s

/-- The children made by hand join the collection, beside those that are there. -/
theorem Allocated.ofSketches : (sketches : List (String × Node.Sketch)) →
    {roots : List (Option Node)} → {next : Nat} → Allocated roots next →
    (children : Keyed String Node) →
    (∀ label m, Keyed.get? label children = some m → Within roots m) →
    ∃ made, roots ⊆ made ∧ Allocated made (Node.ofSketches sketches children next).2 ∧
      ∀ label m, Keyed.get? label (Node.ofSketches sketches children next).1 = some m →
        Within made m
  | [], roots, next, h, children, hchildren =>
    ⟨roots, List.Subset.refl _, by rwa [Node.ofSketches], by rwa [Node.ofSketches]⟩
  | (label, s) :: rest, roots, next, h, children, hchildren => by
    -- a child made before under the same label is replaced, and stays in the collection
    obtain ⟨made, hsub, hmade, hwithin⟩ := Allocated.ofSketches rest (Allocated.ofSketch s h)
      (Keyed.set label (Node.ofSketch s next).1 children) fun other m hm => by
        by_cases hother : other = label
        · subst hother
          rw [Keyed.get?_set_self] at hm
          obtain rfl := Option.some.inj hm
          exact within_head
        · rw [Keyed.get?_set_of_ne hother] at hm
          exact (hchildren other m hm).mono (List.subset_cons_self _ _)
    rw [Node.ofSketches]
    exact ⟨made, List.Subset.trans (List.subset_cons_self _ _) hsub, hmade, hwithin⟩
termination_by structural sketches => sketches

end

end

end StorageKit
