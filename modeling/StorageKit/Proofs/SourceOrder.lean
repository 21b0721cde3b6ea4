/-
In which order a configuration lists its sources.

Main statements:

* `eraseDups_concat`, `pairwise_eraseDups`, `eraseDups_eq_filter_iff` — of a list whose repetitions
  are dropped, the first occurrences stay, and their order is that of another list exactly when the
  first occurrences stand in it one after another;
* `Source.values`, `gather_eq` — the values of sources, written one after another into one record;
  `Source.gives` — those of them that are fields there by their names;
* `supplier`, `suppliers` — the source of the final value of a key, and of some keys one by one;
* `Config.sourcesUsed_eq` — without `default`, the sources are listed as their keys stand in that
  record;
* **`Config.load_sourcesUsed`** — the sources that are listed are those that supply the final value
  of a key, each once, in the order of the first keys that they supply; this is the order in which
  the sources were applied exactly when no source has its first such key behind that of a later one.

Design notes: a key keeps the place that it was first given, whoever overrides its value, and an
index name goes in front of all other names.  A later source can therefore come first.
-/
import StorageKit.Proofs.Accounts
import Mathlib.Data.List.Basic
import Mathlib.Data.List.Induction

namespace StorageKit

/-! ### Repetitions dropped -/

section

variable {α : Type} [DecidableEq α]

/-- An item at the end stays if it is new. -/
theorem eraseDups_concat (l : List α) (a : α) :
    (l ++ [a]).eraseDups = if a ∈ l then l.eraseDups else l.eraseDups ++ [a] := by
  rw [List.eraseDups_append]
  by_cases h : a ∈ l <;> simp [h, List.removeAll, List.eraseDups_cons]

theorem filter_eraseDups (p : α → Bool) (l : List α) :
    l.eraseDups.filter p = (l.filter p).eraseDups := by
  induction l using List.reverseRecOn with
  | nil => rfl
  | append_singleton l a ih =>
    rw [eraseDups_concat, List.filter_append, apply_ite (List.filter p), List.filter_append, ih]
    cases hp : p a with
    | true =>
      have hmem : a ∈ l.filter p ↔ a ∈ l := by rw [List.mem_filter, and_iff_left hp]
      rw [List.filter_cons_of_pos hp, List.filter_nil, eraseDups_concat, if_congr hmem rfl rfl]
    | false =>
      have hnone : [a].filter p = [] := by simp [hp]
      rw [hnone, List.append_nil, List.append_nil, ite_self]

/-- First occurrences stay in their order. -/
theorem pairwise_eraseDups (l : List α) :
    l.eraseDups.Pairwise fun a b => l.idxOf a < l.idxOf b := by
  induction l using List.reverseRecOn with
  | nil => exact List.Pairwise.nil
  | append_singleton l c ih =>
    have hold : l.eraseDups.Pairwise fun a b => (l ++ [c]).idxOf a < (l ++ [c]).idxOf b := by
      refine ih.imp_of_mem fun ha hb hlt => ?_
      rwa [List.idxOf_append_of_mem (List.mem_eraseDups.mp ha),
        List.idxOf_append_of_mem (List.mem_eraseDups.mp hb)]
    rw [eraseDups_concat]
    split
    · exact hold
    · next hnew =>
      refine List.pairwise_append.mpr ⟨hold, List.pairwise_singleton _ _, ?_⟩
      intro a ha b hb
      obtain rfl := List.mem_singleton.mp hb
      have ha := List.mem_eraseDups.mp ha
      rw [List.idxOf_append_of_mem ha, List.idxOf_append_of_notMem hnew]
      exact Nat.lt_add_right _ (List.idxOf_lt_length_of_mem ha)

theorem nodup_eraseDups (l : List α) : l.eraseDups.Nodup := by
  refine (pairwise_eraseDups l).imp fun hlt heq => ?_
  rw [heq] at hlt
  exact Nat.lt_irrefl _ hlt

/-- The first occurrences are in the order of another list exactly when they stand in it one after
another. -/
theorem eraseDups_eq_filter_iff {l order : List α} (horder : order.Nodup)
    (hmem : ∀ a ∈ l, a ∈ order) :
    l.eraseDups = order.filter (· ∈ l) ↔
      order.Pairwise fun a b => a ∈ l → b ∈ l → l.idxOf a < l.idxOf b := by
  have hpairwise : (order.filter (· ∈ l)).Pairwise (fun a b => l.idxOf a < l.idxOf b) ↔
      order.Pairwise fun a b => a ∈ l → b ∈ l → l.idxOf a < l.idxOf b := by
    rw [List.pairwise_filter]
    simp only [decide_eq_true_eq]
  rw [← hpairwise]
  constructor
  · intro heq
    rw [← heq]
    exact pairwise_eraseDups l
  · intro hsorted
    have hperm : l.eraseDups.Perm (order.filter (· ∈ l)) := by
      refine (List.perm_ext_iff_of_nodup (nodup_eraseDups l) (horder.filter _)).mpr fun a => ?_
      rw [List.mem_eraseDups, List.mem_filter, decide_eq_true_eq]
      exact ⟨fun h => ⟨hmem a h, h⟩, And.right⟩
    refine hperm.eq_of_pairwise (fun a b _ _ hab hba => ?_) (pairwise_eraseDups l) hsorted
    exact absurd hab (Nat.lt_asymm hba)

end

/-! ### The order of fields -/

namespace Fields

variable {α β : Type}

theorem names_place_congr {r : Fields α} {s : Fields β} (h : names r = names s) (name : String)
    (v : α) (w : β) : names (place name v r) = names (place name w s) := by
  induction r generalizing s with
  | nil =>
    obtain rfl : s = [] := List.map_eq_nil_iff.mp h.symm
    rfl
  | cons field rest ih =>
    obtain ⟨k, v'⟩ := field
    cases s with
    | nil => exact nomatch h
    | cons other others =>
      obtain ⟨k', w'⟩ := other
      obtain ⟨hname, hrest⟩ := List.cons.inj h
      obtain rfl : k = k' := hname
      rw [place, place]
      split
      · exact congrArg (name :: ·) h
      · exact congrArg (k :: ·) (ih hrest)

theorem names_set_of_has {r : Fields α} {name : String} (h : has name r = true) (v : α) :
    names (set name v r) = names r := by
  have hkeyed : ∀ {r : Fields α}, has name r = true → names (Keyed.set name v r) = names r := by
    intro r hr
    induction r with
    | nil => exact nomatch hr
    | cons field rest ih =>
      obtain ⟨k, w⟩ := field
      by_cases hk : k = name
      · simp [names, Keyed.set, hk]
      · have hrest : has name rest = true := by simpa [has, Keyed.has, hk] using hr
        simpa [names, Keyed.set, hk] using ih hrest
  rw [set, if_pos h]
  exact hkeyed h

theorem has_congr {r : Fields α} {s : Fields β} (h : names r = names s) (name : String) :
    has name r = has name s := by
  rw [Bool.eq_iff_iff]
  exact mem_names.symm.trans (h ▸ mem_names)

/-- Where a field is put depends on names only. -/
theorem names_set_congr {r : Fields α} {s : Fields β} (h : names r = names s) (name : String)
    (v : α) (w : β) : names (set name v r) = names (set name w s) := by
  cases hhas : has name r with
  | true => rw [names_set_of_has hhas, names_set_of_has (has_congr h name ▸ hhas), h]
  | false =>
    rw [set, set, ← has_congr h name, hhas]
    exact names_place_congr h name v w

theorem names_overlay_congr {r : Fields α} {s : Fields β} (h : names r = names s)
    {fields : Fields α} {fields' : Fields β} (hfields : names fields = names fields') :
    names (overlay r fields) = names (overlay s fields') := by
  induction fields generalizing r s fields' with
  | nil =>
    obtain rfl : fields' = [] := List.map_eq_nil_iff.mp hfields.symm
    exact h
  | cons field rest ih =>
    cases fields' with
    | nil => exact nomatch hfields
    | cons field' rest' =>
      obtain ⟨k, v⟩ := field
      obtain ⟨k', w⟩ := field'
      obtain ⟨hname, hrest⟩ := List.cons.inj hfields
      obtain rfl : k = k' := hname
      exact ih (names_set_congr h k v w) hrest

/-- A field that is left out later might as well not be put. -/
theorem filter_place {keep : String × α → Bool} {name : String} {v : α}
    (h : keep (name, v) = false) (r : Fields α) : (place name v r).filter keep = r.filter keep := by
  induction r with
  | nil => simp [place, h]
  | cons field rest ih =>
    rw [place]
    split
    · rw [List.filter_cons_of_neg (by simp [h])]
    · rw [List.filter_cons, List.filter_cons, ih]

end Fields

/-! ### Sources -/

/-- The values of a source. -/
def Source.values (s : Source) : Fields Value :=
  match s.load with
  | .ok fields => fields.filter fun field => !field.2.isUndefined
  | .error _ => []

/-- The values of a source that are fields by their names. -/
def Source.gives (s : Source) : Fields Value :=
  s.values.filter fun field => field.1 ≠ Members.parent

/-- The origins of these values. -/
def Source.origins (s : Source) : Fields String := s.gives.map fun field => (field.1, s.name)

/-- The source that supplies the final value of a key. -/
def supplier (sources : List Source) (key : String) : Option String :=
  if key = Members.parent then none else (lastSupply key sources).map Prod.fst

/-- The sources of the final values of some keys, key by key. -/
def suppliers (sources : List Source) (keys : List String) : List String :=
  keys.filterMap (supplier sources)

namespace Gathered

theorem supplyAll_eq (source : String) (fields : Fields Value) (g : Gathered) :
    g.supplyAll source fields =
      let values := fields.filter fun field => !field.2.isUndefined
      { values := g.values.writeAll values
        origins := Fields.overlay g.origins
          ((values.filter fun field => field.1 ≠ Members.parent).map fun field =>
            (field.1, source)) } := by
  induction fields generalizing g with
  | nil => rfl
  | cons field rest ih =>
    rw [supplyAll, List.foldl_cons, ← supplyAll, ih]
    dsimp only
    cases hv : field.2.isUndefined with
    | true => rw [supply_of_undefined hv, List.filter_cons_of_neg (by simp [hv])]
    | false =>
      rw [supply_of_defined hv, List.filter_cons_of_pos (by simp [hv])]
      by_cases hparent : field.1 = Members.parent
      · rw [List.filter_cons_of_neg (by simp [hparent]), if_pos hparent]
        rfl
      · rw [List.filter_cons_of_pos (by simp [hparent]), if_neg hparent]
        rfl

end Gathered

/-- All that sources give is written one after another. -/
theorem gather_eq {sources : List Source} {g g' : Gathered} (h : gather sources g = .ok g') :
    g'.values = g.values.writeAll (sources.flatMap Source.values) ∧
      g'.origins = Fields.overlay g.origins (sources.flatMap Source.origins) := by
  induction sources generalizing g with
  | nil =>
    cases h
    exact ⟨rfl, rfl⟩
  | cons s rest ih =>
    rw [gather] at h
    cases hload : s.load with
    | error thrown =>
      rw [hload] at h
      cases h
    | ok fields =>
      rw [hload] at h
      obtain ⟨hvalues, horigins⟩ := ih h
      have hgiven : s.values = fields.filter fun field => !field.2.isUndefined := by
        rw [Source.values, hload]
      rw [hvalues, horigins, Gathered.supplyAll_eq, List.flatMap_cons, List.flatMap_cons,
        Source.origins, Source.gives, hgiven]
      exact ⟨List.foldl_append.symm, List.foldl_append.symm⟩

theorem exists_of_supplier {sources : List Source} {key name : String}
    (h : supplier sources key = some name) : name ∈ sources.map Source.name := by
  rw [supplier] at h
  split at h
  · exact nomatch h
  · obtain ⟨⟨name, v⟩, hlast, rfl⟩ := Option.map_eq_some_iff.mp h
    obtain ⟨s, hs, hsupply⟩ := List.exists_of_findSome?_eq_some hlast
    obtain ⟨v, -, hpair⟩ := Option.map_eq_some_iff.mp hsupply
    obtain ⟨rfl, -⟩ := Prod.mk.inj hpair
    exact List.mem_map_of_mem (List.mem_reverse.mp hs)

/-- The names of a record of origins, and the origins. -/
theorem suppliers_names {sources : List Source} {origins : Fields String}
    (h : ∀ field ∈ origins, supplier sources field.1 = some field.2) (keep : String → Bool) :
    suppliers sources ((Fields.names origins).filter keep) =
      (origins.filter fun field => keep field.1).map Prod.snd := by
  have hnames : (Fields.names origins).filter keep =
      (origins.filter fun field => keep field.1).map Prod.fst := List.filter_map
  rw [hnames, suppliers, List.filterMap_map, ← List.filterMap_eq_map]
  exact List.filterMap_congr fun field hfield => h field (List.mem_of_mem_filter hfield)

namespace Config

variable {sources : List Source} {g : Gathered}

/-- What sources give is found under the keys that they supply. -/
theorem get?_origins (hs : ∀ s ∈ sources, s.Loads) (hg : gather sources .empty = .ok g)
    (key : String) : Fields.get? key g.origins = supplier sources key := by
  obtain ⟨g', hg', htells, hparent⟩ := exists_gather hs .empty
  obtain rfl : g = g' := Except.ok.inj (hg.symm.trans hg')
  rw [supplier]
  split
  · next hkey =>
    rw [hkey]
    exact (hparent Gathered.atParent_empty).origin
  · next hkey =>
    have hnone : Gathered.empty.Tells key none := ⟨rfl, rfl⟩
    rw [(htells hkey hnone).origin, Option.or_none]

/-- Adding defaults leaves the origins that are none as they are. -/
theorem filter_withDefaults (keys : List String) (origins : Fields String) :
    (keys.foldl
        (fun acc key =>
          if Fields.has key acc || Members.isInherited key then acc
          else Fields.set key "default" acc)
        origins).filter (fun field => field.2 ≠ "default") =
      origins.filter fun field => field.2 ≠ "default" := by
  induction keys generalizing origins with
  | nil => rfl
  | cons key rest ih =>
    rw [List.foldl_cons, ih]
    split
    · rfl
    · next hnew =>
      have hhas : Fields.has key origins = false := by
        rw [Bool.or_eq_true, not_or, Bool.not_eq_true] at hnew
        exact hnew.1
      rw [Fields.set, hhas]
      exact Fields.filter_place (decide_eq_false (not_not_intro rfl)) origins

/-- Without `default`, the sources are listed as their keys stand among the origins. -/
theorem sourcesUsed_eq (hs : ∀ s ∈ sources, s.Loads) (hg : gather sources .empty = .ok g)
    (hdefault : "default" ∉ sources.map Source.name) (data : Fields Value) :
    (ofGathered g data).sourcesUsed.filter (· ≠ "default") =
      (suppliers sources
        ((Fields.names g.origins).filter (Fields.names data).contains)).eraseDups := by
  have horigins : (Fields.names g.origins).Nodup := by
    rw [(gather_eq hg).2]
    exact Fields.nodup_names_overlay (show (Fields.names []).Nodup from List.nodup_nil) _
  have hsupplier : ∀ field ∈ g.origins, supplier sources field.1 = some field.2 := by
    intro field hfield
    rw [← get?_origins hs hg]
    exact Fields.get?_of_mem horigins hfield
  have hkept : g.origins.filter (fun field => field.2 ≠ "default") = g.origins := by
    refine List.filter_eq_self.mpr fun field hfield => decide_eq_true ?_
    intro heq
    exact hdefault (heq ▸ exists_of_supplier (hsupplier field hfield))
  have hfiltered : (provenanceOf data g.origins).filter (fun field => field.2 ≠ "default") =
      g.origins.filter fun field => (Fields.names data).contains field.1 := by
    rw [provenanceOf, List.filter_comm, filter_withDefaults, hkept]
  rw [sourcesUsed, ofGathered, filter_eraseDups, List.filter_map,
    suppliers_names hsupplier (Fields.names data).contains, ← hfiltered]
  rfl

/-- **The sources that are listed are those that supply the final value of a key, in the order of
their keys.**  For sources of distinct names, none of them `default`, and a validator that accepts
their values: leaving out `default`, each source that supplies the final value of a key is listed
once and no other source is.  The keys stand in the order of the record into which all that the
sources give is written, and the sources are listed as they first supply one of these keys.  That is
the order in which they were applied exactly when, of any two that are listed, the earlier one
supplies a key in front of all keys of the later one. -/
theorem load_sourcesUsed {sources : List Source} (hs : ∀ s ∈ sources, s.Loads)
    (hnames : (sources.map Source.name).Nodup) (hdefault : "default" ∉ sources.map Source.name)
    {validate : Validator} {data : Fields Value}
    (hdata : validate (Layered.empty.writeAll (sources.flatMap Source.values)) = .ok data) :
    ∃ c, load validate sources = .ok c ∧ c.data = data ∧
      let merged := Fields.ofList (sources.flatMap Source.gives)
      let inKeyOrder := suppliers sources ((Fields.names merged).filter c.keys.contains)
      let applied := sources.map Source.name
      let used := c.sourcesUsed.filter (· ≠ "default")
      used.Nodup ∧
        (∀ name, name ∈ used ↔ ∃ key ∈ c.keys, supplier sources key = some name) ∧
        used = inKeyOrder.eraseDups ∧
        (used = applied.filter (· ∈ inKeyOrder) ↔
          applied.Pairwise fun a b =>
            a ∈ inKeyOrder → b ∈ inKeyOrder → inKeyOrder.idxOf a < inKeyOrder.idxOf b) := by
  obtain ⟨g, hg, -⟩ := exists_gather hs .empty
  obtain ⟨hvalues, horigins⟩ := gather_eq hg
  have hload : load validate sources = .ok (ofGathered g data) := by
    have hvalid : validate g.values = .ok data := hvalues ▸ hdata
    simp only [load, hg, hvalid]
    rfl
  refine ⟨ofGathered g data, hload, rfl, ?_⟩
  intro merged inKeyOrder applied used
  have hkeys : Fields.names g.origins = Fields.names merged := by
    rw [horigins]
    have hempty : Fields.names Gathered.empty.origins = Fields.names ([] : Fields Value) := rfl
    refine Fields.names_overlay_congr hempty ?_
    simp only [Fields.names, List.map_flatMap, Source.origins, List.map_map]
    rfl
  have hused : used = inKeyOrder.eraseDups := by
    rw [show used = _ from sourcesUsed_eq hs hg hdefault data, hkeys]
    rfl
  have hmem (name : String) :
      name ∈ inKeyOrder ↔ ∃ key ∈ Fields.names data, supplier sources key = some name := by
    constructor
    · intro h
      obtain ⟨key, hkey, hsupplier⟩ := List.mem_filterMap.mp h
      exact ⟨key, List.contains_iff_mem.mp (List.mem_filter.mp hkey).2, hsupplier⟩
    · rintro ⟨key, hkey, hsupplier⟩
      have hmerged : key ∈ Fields.names merged := by
        rw [← hkeys, Fields.mem_names, get?_origins hs hg, hsupplier]
        rfl
      exact List.mem_filterMap.mpr
        ⟨key, List.mem_filter.mpr ⟨hmerged, List.contains_iff_mem.mpr hkey⟩, hsupplier⟩
  refine ⟨hused ▸ nodup_eraseDups _, fun name => ?_, hused, ?_⟩
  · rw [hused, List.mem_eraseDups]
    exact hmem name
  · rw [hused]
    refine eraseDups_eq_filter_iff hnames fun name hname => ?_
    obtain ⟨key, -, hsupplier⟩ := (hmem name).mp hname
    exact exists_of_supplier hsupplier

/-- Three sources, of which the second overrides a key of the first, and the third is used for
nothing; the first two are listed in the order in which they were applied. -/
theorem load_sourcesUsed_overridden :
    let sources : List Source :=
      [⟨"base", .ok [("a", .text "1"), ("b", .text "2")]⟩,
        ⟨"local", .ok [("b", .text "3"), ("c", .text "4"), ("a", .undefined)]⟩,
        ⟨"late", .ok [("7", .text "5")]⟩]
    let validate : Validator := fun values =>
      .ok (Fields.set "d" (.text "6") (Fields.erase "7" values.fields))
    let data : Fields Value :=
      [("a", .text "1"), ("b", .text "3"), ("c", .text "4"), ("d", .text "6")]
    (∀ s ∈ sources, s.Loads) ∧ (sources.map Source.name).Nodup ∧
      "default" ∉ sources.map Source.name ∧
      validate (Layered.empty.writeAll (sources.flatMap Source.values)) = .ok data ∧
      ∃ c, load validate sources = .ok c ∧ c.data = data ∧
        c.sourcesUsed.filter (· ≠ "default") = ["base", "local"] := by
  intro sources validate data
  have hs : ∀ s ∈ sources, s.Loads := by
    refine List.forall_mem_cons.mpr ⟨⟨_, rfl, by decide⟩, ?_⟩
    refine List.forall_mem_cons.mpr ⟨⟨_, rfl, by decide⟩, ?_⟩
    exact List.forall_mem_singleton.mpr ⟨_, rfl, by decide⟩
  have hnames : (sources.map Source.name).Nodup := by decide
  have hdefault : "default" ∉ sources.map Source.name := by decide
  have hdata : validate (Layered.empty.writeAll (sources.flatMap Source.values)) = .ok data := rfl
  obtain ⟨c, hload, hc, -, -, hused, -⟩ := load_sourcesUsed hs hnames hdefault hdata
  refine ⟨hs, hnames, hdefault, hdata, c, hload, hc, ?_⟩
  rw [hused, keys, hc]
  rfl

/-- A source that overrides the first key of another, or that supplies an index name, is listed
first, although it was applied last. -/
theorem later_source_listed_first :
    let schema : Schema := .ofFields .drop [("a", .optional, .text), ("b", .optional, .text)]
    (∃ c,
      load schema.validator
          [⟨"base", .ok [("a", .text "1"), ("b", .text "2")]⟩,
            ⟨"local", .ok [("a", .text "3")]⟩] = .ok c ∧
        c.explain "a" = some "local" ∧ c.explain "b" = some "base" ∧
        c.sourcesUsed = ["local", "base"]) ∧
    ∃ c,
      load (fun values => .ok values.fields)
          [⟨"base", .ok [("a", .text "1")]⟩, ⟨"local", .ok [("7", .text "2")]⟩] = .ok c ∧
        c.explain "a" = some "base" ∧ c.explain "7" = some "local" ∧
        c.sourcesUsed = ["local", "base"] := by
  exact ⟨⟨_, rfl, rfl, rfl, rfl⟩, ⟨_, rfl, rfl, rfl, rfl⟩⟩

end Config
end StorageKit
