/-
What a configuration accounts for.

Main statements:

* `lastSupply` — for a key, the last source that supplies a value, and that value; a value that is
  `undefined` supplies nothing;
* `atParent` — what sources supply at `Members.parent`, in order;
* `Config.AccountedFor` — a key that is supplied is either unknown or explained by its last source,
  and a key that is not is not unknown and, where the configuration has it, explained as `default`;
* `Source.supplied_environment` — what the environment supplies under a key is the variable with
  the start put before the key;
* **`Config.load_accounts`** — the validator receives of every key what the last source supplies,
  and every key is accounted for, but for the names that every record answers to: what is supplied
  at `Members.parent` chooses where the validator finds what no source supplies, and a key that the
  validator adds under an inherited name is not explained.

Design notes: values and origins are two records that sources write together, so one relation,
`Gathered.Tells`, says what both answer to a key, and it is carried through the fields of a source
and through the sources.  A source is asked for what its fields hold, hence the names of its fields
have to be distinct, as they are in every record.
-/
import StorageKit.Config.Load
import StorageKit.Proofs.Places

namespace StorageKit

/-! ### Sources -/

namespace Source

/-- Loading gives a record. -/
def Loads (s : Source) : Prop :=
  ∃ fields, s.load = .ok fields ∧ (Fields.names fields).Nodup

/-- The value that a source supplies under a key. -/
def supplied (key : String) (s : Source) : Option Value :=
  match s.load with
  | .ok fields => (Fields.get? key fields).filter fun v => !v.isUndefined
  | .error _ => none

theorem supplied_of_load {s : Source} {fields : Fields Value} (h : s.load = .ok fields)
    (key : String) :
    s.supplied key = (Fields.get? key fields).filter fun v => !v.isUndefined := by
  rw [supplied, h]

theorem dropStart_eq_some {start cs rest : List Char} :
    dropStart start cs = some rest ↔ cs = start ++ rest := by
  induction start generalizing cs with
  | nil => exact Option.some_inj
  | cons s start ih =>
    cases cs with
    | nil => simp [dropStart]
    | cons c cs =>
      rw [dropStart, List.cons_append, List.cons.injEq]
      by_cases h : s = c
      · rw [if_pos h, ih, and_iff_right h.symm]
      · rw [if_neg h]
        exact iff_of_false (fun hnone => Option.some_ne_none _ hnone.symm) fun hc => h hc.1.symm

theorem after?_eq_some {start s rest : String} :
    after? start s = some rest ↔ s = start ++ rest := by
  rw [after?, Option.map_eq_some_iff, ← String.toList_inj, String.toList_append]
  constructor
  · rintro ⟨cs, h, rfl⟩
    rw [dropStart_eq_some.mp h, String.toList_ofList]
  · intro h
    exact ⟨rest.toList, dropStart_eq_some.mpr h, String.ofList_toList⟩

/-- Taking a start off the names: a name is found by the start put before it. -/
theorem get?_stripped (start key : String) (given : Fields Value) :
    Fields.get? key
        (given.filterMap fun field =>
          (after? start field.1).map fun rest => (rest, field.2)) =
      Fields.get? (start ++ key) given := by
  induction given with
  | nil => rfl
  | cons field rest ih =>
    obtain ⟨k, v⟩ := field
    rw [List.filterMap_cons]
    show _ = if k = start ++ key then some v else Fields.get? (start ++ key) rest
    cases h : after? start k with
    | none =>
      have hk : k ≠ start ++ key := by
        intro hk
        rw [after?_eq_some.mpr hk] at h
        exact nomatch h
      rw [if_neg hk]
      exact ih
    | some found =>
      show (if found = key then some v else Fields.get? key _) = _
      have hk : found = key ↔ k = start ++ key := by
        rw [← after?_eq_some, h, Option.some_inj]
      rw [if_congr hk rfl ih]

theorem get?_select {given : Fields Value} (h : (Fields.names given).Nodup) (start key : String) :
    Fields.get? key (select start given) =
      if key = Members.parent then none else Fields.get? (start ++ key) given := by
  have hreverse : Fields.get? (start ++ key) given.reverse = Fields.get? (start ++ key) given :=
    Fields.get?_reverse h _
  rw [select, Fields.ofList, Fields.get?_overlay, ← List.filter_reverse, ← List.filterMap_reverse,
    Fields.get?_filter_name fun name => name ≠ Members.parent, get?_stripped, hreverse]
  by_cases hkey : key = Members.parent <;> simp [hkey, Fields.get?]

theorem loads_environment {given : Fields Value} (h : (Fields.names given).Nodup)
    (start : Option String) : (environment start given).Loads := by
  refine ⟨_, rfl, ?_⟩
  cases start with
  | none => exact h
  | some start =>
    show (Fields.names (if start = "" then given else select start given)).Nodup
    split
    · exact h
    · exact Fields.nodup_names_overlay (show (Fields.names []).Nodup from List.nodup_nil) _

/-- What the environment supplies under a key is the variable named by the start and the key. -/
theorem supplied_environment {given : Fields Value} (h : (Fields.names given).Nodup)
    {start : String} (hstart : start ≠ "") (key : String) :
    (environment (some start) given).supplied key =
      if key = Members.parent then none
      else (Fields.get? (start ++ key) given).filter fun v => !v.isUndefined := by
  have hload : (environment (some start) given).load = .ok (select start given) := by
    rw [environment, if_neg hstart]
  rw [supplied_of_load hload, get?_select h]
  split <;> rfl

end Source

/-- What the last source that supplies a key supplies, with the name of that source. -/
def lastSupply (key : String) (sources : List Source) : Option (String × Value) :=
  sources.reverse.findSome? fun s => (s.supplied key).map fun v => (s.name, v)

theorem lastSupply_cons (key : String) (s : Source) (rest : List Source) :
    lastSupply key (s :: rest) =
      (lastSupply key rest).or ((s.supplied key).map fun v => (s.name, v)) := by
  rw [lastSupply, List.reverse_cons, List.findSome?_append, List.findSome?_singleton]
  rfl

/-- What sources supply at `Members.parent`, in the order in which they are applied. -/
def atParent (sources : List Source) : List Value :=
  sources.filterMap (Source.supplied Members.parent)

/-- If the last source that supplies anything there does not exist, nothing is supplied there. -/
theorem atParent_of_lastSupply {sources : List Source}
    (h : lastSupply Members.parent sources = none) : atParent sources = [] := by
  rw [lastSupply, List.findSome?_eq_none_iff] at h
  refine List.filterMap_eq_nil_iff.mpr fun s hs => ?_
  exact Option.map_eq_none_iff.mp (h s (List.mem_reverse.mpr hs))

/-! ### What was gathered -/

namespace Gathered

/-- What was gathered answers to a key with a source and its value, or with nothing. -/
structure Tells (g : Gathered) (key : String) (found : Option (String × Value)) : Prop where
  value : Fields.get? key g.values.fields = found.map Prod.snd
  origin : Fields.get? key g.origins = found.map Prod.fst

/-- These values were supplied at `Members.parent`; none of them has an origin. -/
structure AtParent (g : Gathered) (written : List Value) : Prop where
  values : g.values.Wrote written
  origin : Fields.get? Members.parent g.origins = none

theorem atParent_empty : Gathered.empty.AtParent [] := ⟨Layered.wrote_empty, rfl⟩

variable {g : Gathered} {key : String} {found : Option (String × Value)} {written : List Value}

theorem supply_of_undefined {field : String × Value} (h : field.2.isUndefined = true)
    (source : String) (g : Gathered) : g.supply source field = g := by
  rw [supply, h]
  rfl

theorem supply_of_defined {field : String × Value} (h : field.2.isUndefined = false)
    (source : String) (g : Gathered) :
    g.supply source field =
      ⟨g.values.write field.1 field.2,
        if field.1 = Members.parent then g.origins else Fields.set field.1 source g.origins⟩ := by
  rw [supply, h]
  rfl

theorem Tells.supply (h : g.Tells key found) (hkey : key ≠ Members.parent) (source : String)
    (field : String × Value) :
    (g.supply source field).Tells key
      (if field.1 = key ∧ field.2.isUndefined = false then some (source, field.2) else found) := by
  obtain ⟨k, v⟩ := field
  cases hv : v.isUndefined with
  | true =>
    -- the field is no value
    rw [supply_of_undefined hv, if_neg fun hc => nomatch hc.2]
    exact h
  | false =>
    by_cases hk : k = key
    · subst hk
      rw [if_pos ⟨rfl, rfl⟩, supply_of_defined hv, if_neg hkey]
      exact ⟨Layered.get?_write hkey .., Fields.get?_set_self ..⟩
    · rw [if_neg fun hc => hk hc.1, supply_of_defined hv]
      refine ⟨(Layered.get?_write_of_ne (Ne.symm hk) ..).trans h.value, ?_⟩
      dsimp only
      split
      · exact h.origin
      · exact (Fields.get?_set_of_ne (Ne.symm hk) ..).trans h.origin

/-- After all fields of a source, it is the source that tells of the keys it supplies. -/
theorem Tells.supplyAll (h : g.Tells key found) (source : String) {fields : Fields Value}
    (hfields : (Fields.names fields).Nodup) (hkey : key ≠ Members.parent) :
    (g.supplyAll source fields).Tells key
      ((((Fields.get? key fields).filter fun v => !v.isUndefined).map
        fun v => (source, v)).or found) := by
  induction fields generalizing g found with
  | nil => exact h
  | cons field rest ih =>
    obtain ⟨k, v⟩ := field
    obtain ⟨hk, hrest⟩ := List.nodup_cons.mp hfields
    have hstep := ih (h.supply hkey source (k, v)) hrest
    show (Gathered.supplyAll source rest _).Tells key
      (Option.or (Option.map _ (Option.filter _ (if k = key then some v else Fields.get? key rest)))
        found)
    by_cases hname : k = key
    · -- the rest of the source is silent about the key
      subst hname
      rw [Fields.get?_eq_none_iff.mpr hk] at hstep
      cases hv : v.isUndefined with
      | true => simpa [hv, Option.filter] using hstep
      | false => simpa [hv, Option.filter] using hstep
    · simpa [hname] using hstep

theorem AtParent.supply_of_ne (h : g.AtParent written) (source : String) {field : String × Value}
    (hfield : field.1 ≠ Members.parent) : (g.supply source field).AtParent written := by
  cases hv : field.2.isUndefined with
  | true => rwa [supply_of_undefined hv]
  | false =>
    rw [supply_of_defined hv, if_neg hfield]
    exact ⟨h.values.write_of_ne hfield _,
      (Fields.get?_set_of_ne (Ne.symm hfield) ..).trans h.origin⟩

theorem AtParent.supply (h : g.AtParent written) (source : String) (v : Value) :
    (g.supply source (Members.parent, v)).AtParent
      (written ++ ((some v).filter fun v => !v.isUndefined).toList) := by
  cases hv : v.isUndefined with
  | true =>
    rw [supply_of_undefined hv]
    simpa [hv, Option.filter] using h
  | false =>
    rw [supply_of_defined hv, if_pos rfl]
    have hwritten : ((some v).filter fun v => !v.isUndefined).toList = [v] := by
      simp [hv, Option.filter]
    rw [hwritten]
    exact ⟨h.values.write v, h.origin⟩

/-- After all fields of a source, the value that it supplies at `Members.parent` was written there
last. -/
theorem AtParent.supplyAll (h : g.AtParent written) (source : String) {fields : Fields Value}
    (hfields : (Fields.names fields).Nodup) :
    (g.supplyAll source fields).AtParent
      (written ++
        ((Fields.get? Members.parent fields).filter fun v => !v.isUndefined).toList) := by
  induction fields generalizing g written with
  | nil =>
    show g.AtParent (written ++ [])
    rwa [List.append_nil]
  | cons field rest ih =>
    obtain ⟨k, v⟩ := field
    obtain ⟨hk, hrest⟩ := List.nodup_cons.mp hfields
    show (Gathered.supplyAll source rest _).AtParent (written ++ Option.toList
      (Option.filter _ (if k = Members.parent then some v else Fields.get? Members.parent rest)))
    by_cases hname : k = Members.parent
    · subst hname
      have hstep := ih (h.supply source v) hrest
      rw [Fields.get?_eq_none_iff.mpr hk] at hstep
      rw [if_pos rfl]
      simpa using hstep
    · rw [if_neg hname]
      exact ih (h.supply_of_ne source hname) hrest

end Gathered

/-- What a list of sources supplies under a key, and at `Members.parent`. -/
theorem exists_gather {sources : List Source} (hs : ∀ s ∈ sources, s.Loads) (g : Gathered) :
    ∃ g', gather sources g = .ok g' ∧
      (∀ {key found}, key ≠ Members.parent → g.Tells key found →
        g'.Tells key ((lastSupply key sources).or found)) ∧
      ∀ {written}, g.AtParent written → g'.AtParent (written ++ atParent sources) := by
  induction sources generalizing g with
  | nil =>
    refine ⟨g, rfl, fun {key found} _ h => h, fun {written} h => ?_⟩
    rwa [atParent, List.filterMap_nil, List.append_nil]
  | cons s rest ih =>
    obtain ⟨hhead, hrest⟩ := List.forall_mem_cons.mp hs
    obtain ⟨fields, hload, hfields⟩ := hhead
    obtain ⟨g', hg', htells, hparent⟩ := ih hrest (g.supplyAll s.name fields)
    refine ⟨g', ?_, fun {key found} hkey h => ?_, fun {written} h => ?_⟩
    · rw [gather, hload]
      exact hg'
    · rw [lastSupply_cons, Source.supplied_of_load hload, Option.or_assoc]
      exact htells hkey (h.supplyAll s.name hfields hkey)
    · have hlast := hparent (h.supplyAll s.name hfields)
      rw [← Source.supplied_of_load hload, List.append_assoc] at hlast
      rw [atParent, List.filterMap_cons, ← atParent]
      cases hsupplied : s.supplied Members.parent with
      | none => simpa [hsupplied] using hlast
      | some v => simpa [hsupplied] using hlast

/-! ### Configurations -/

namespace Config

/-- Every key of a result gets an origin, but for names that every record answers to. -/
theorem get?_withDefaults (keys : List String) (origins : Fields String) (key : String) :
    Fields.get? key
        (keys.foldl
          (fun acc key =>
            if Fields.has key acc || Members.isInherited key then acc
            else Fields.set key "default" acc)
          origins) =
      (Fields.get? key origins).or
        (if key ∈ keys ∧ Members.isInherited key = false then some "default" else none) := by
  induction keys generalizing origins with
  | nil => simp
  | cons k rest ih =>
    rw [List.foldl_cons, ih]
    split
    · next hskip =>
      by_cases hk : key = k
      · -- `k` is kept out because it has an origin, or because it is inherited
        subst hk
        rcases Bool.or_eq_true_iff.mp hskip with hhas | hinherited
        · obtain ⟨source, hsource⟩ := Option.isSome_iff_exists.mp hhas
          rw [show Fields.get? key origins = some source from hsource, Option.some_or,
            Option.some_or]
        · simp [hinherited]
      · simp [hk]
    · next hnew =>
      obtain ⟨hhas, hinherited⟩ : Fields.has k origins = false ∧ Members.isInherited k = false := by
        simpa using hnew
      rw [Fields.get?_set]
      by_cases hk : key = k
      · subst hk
        have hnone : Fields.get? key origins = none := by
          simpa [Fields.has, Keyed.has, Fields.get?] using hhas
        simp [hinherited, hnone]
      · simp [hk]

theorem get?_provenanceOf (data : Fields Value) (origins : Fields String) {key : String}
    (h : key ∈ Fields.names data) :
    Fields.get? key (provenanceOf data origins) =
      (Fields.get? key origins).or
        (if Members.isInherited key then none else some "default") := by
  rw [provenanceOf, Fields.get?_filter_name fun name => (Fields.names data).contains name,
    if_pos (List.contains_iff_mem.mpr h), get?_withDefaults]
  congr 1
  cases Members.isInherited key
  · exact if_pos ⟨h, rfl⟩
  · exact if_neg fun hc => nomatch hc.2

/-- The configuration made of a result and of what was gathered for it. -/
def ofGathered (g : Gathered) (data : Fields Value) : Config :=
  { data
    provenance := provenanceOf data g.origins
    mergedKeys := Fields.names g.values.fields }

/-- A configuration explains its keys by their origins. -/
theorem explain_ofGathered {g : Gathered} {data : Fields Value} {key : String}
    (h : key ∈ Fields.names data) :
    explain (ofGathered g data) key =
      (Fields.get? key g.origins).or
        (if Members.isInherited key then none else some "default") := by
  rw [explain, ofGathered, get?_provenanceOf data g.origins h]
  cases Fields.get? key g.origins with
  | some source => rfl
  | none => cases Members.isInherited key <;> rfl

theorem mem_unknownKeys {g : Gathered} {data : Fields Value} {key : String} :
    key ∈ (ofGathered g data).unknownKeys ↔
      (Fields.get? key g.values.fields).isSome = true ∧ key ∉ Fields.names data := by
  rw [← Fields.mem_names]
  simp [unknownKeys, ofGathered, keys]

/-- A key that is supplied is either unknown or explained by its source; one that is not is not
unknown and has the default as its source. -/
def AccountedFor (c : Config) (key : String) : Option String → Prop
  | some source =>
    (key ∈ c.unknownKeys ∧ key ∉ c.keys) ∨
      (key ∈ c.keys ∧ key ∉ c.unknownKeys ∧ c.explain key = some source)
  | none => key ∉ c.unknownKeys ∧ (key ∈ c.keys → c.explain key = some "default")

section
variable {g : Gathered} {key source : String} {v : Value}

theorem accountedFor_of_tells (h : g.Tells key (some (source, v))) (data : Fields Value) :
    AccountedFor (ofGathered g data) key (some source) := by
  by_cases hdata : key ∈ Fields.names data
  · refine Or.inr ⟨hdata, fun hc => (mem_unknownKeys.mp hc).2 hdata, ?_⟩
    rw [explain_ofGathered hdata, h.origin]
    rfl
  · exact Or.inl ⟨mem_unknownKeys.mpr ⟨by rw [h.value]; rfl, hdata⟩, hdata⟩

/-- A key without an origin is explained as a default, unless every record answers to it. -/
theorem explain_of_origin_none (h : Fields.get? key g.origins = none) (data : Fields Value)
    (hdata : key ∈ Fields.names data) :
    (ofGathered g data).explain key = if Members.isInherited key then none else some "default" := by
  rw [explain_ofGathered hdata, h]
  rfl

theorem accountedFor_none (hvalue : Fields.get? key g.values.fields = none)
    (horigin : Fields.get? key g.origins = none) (data : Fields Value) :
    AccountedFor (ofGathered g data) key none ↔
      (Members.isInherited key = true → key ∉ Fields.names data) := by
  constructor
  · rintro ⟨-, hdefault⟩ hinherited hdata
    have hexplain := hdefault hdata
    rw [explain_of_origin_none horigin data hdata, if_pos hinherited] at hexplain
    exact nomatch hexplain
  · intro hout
    refine ⟨fun hunknown => ?_, fun hdata => ?_⟩
    · have hfound := (mem_unknownKeys.mp hunknown).1
      rw [hvalue] at hfound
      exact nomatch hfound
    · rw [explain_of_origin_none horigin data hdata, if_neg fun hinherited => hout hinherited hdata]

/-- What is supplied at `Members.parent` is accounted for as an unknown key if one of the values
came too late to choose a place, and not at all otherwise. -/
theorem accountedFor_parent {written : List Value} (h : g.AtParent written) (data : Fields Value) :
    AccountedFor (ofGathered g data) Members.parent (some source) ↔
      (Place.split written).2 ≠ [] ∧ Members.parent ∉ Fields.names data := by
  have hunknown : Members.parent ∈ (ofGathered g data).unknownKeys ↔
      (Place.split written).2 ≠ [] ∧ Members.parent ∉ Fields.names data := by
    rw [mem_unknownKeys, h.values.field, List.getLast?_isSome]
  rw [← hunknown]
  constructor
  · rintro (⟨hlisted, -⟩ | ⟨hdata, -, hexplain⟩)
    · exact hlisted
    · rw [explain_of_origin_none h.origin data hdata] at hexplain
      exact nomatch hexplain
  · exact fun hlisted => Or.inl ⟨hlisted, (hunknown.mp hlisted).2⟩

end

/-- **Every key is accounted for, but for names that every record answers to.**  Of each key but
`Members.parent` the validator receives what the last source supplies.  What is supplied at
`Members.parent` chooses the place where the validator finds, under names that no source supplies,
what is written there; only what comes too late to choose is received as a value, and only then the
key is accounted for, as an unknown one.  A key that no source supplies is a default, unless every
record answers to it and the validator adds it nevertheless.  The environment supplies, without its
start, what is not at `Members.parent` then. -/
theorem load_accounts {sources : List Source} (hs : ∀ s ∈ sources, s.Loads) :
    (∃ merged : Layered,
      (∀ key, Fields.get? key merged.fields =
        if key = Members.parent then (Place.split (atParent sources)).2.getLast?
        else (lastSupply key sources).map Prod.snd) ∧
      (∀ key, merged.find? key =
        (Fields.get? key merged.fields).or ((Place.after (atParent sources)).find? key)) ∧
      ∀ validate : Validator,
        match validate merged with
        | .error issues =>
          load validate sources =
            .error (.fault (.invalid (Issue.report issues) (sources.map Source.name)))
        | .ok data =>
          ∃ c, load validate sources = .ok c ∧ c.data = data ∧
            ∀ key,
              c.AccountedFor key ((lastSupply key sources).map Prod.fst) ↔
                if (lastSupply key sources).isSome then
                  key ≠ Members.parent ∨
                    (Place.split (atParent sources)).2 ≠ [] ∧ key ∉ c.keys
                else Members.isInherited key = true → key ∉ c.keys) ∧
    ∀ (given : Fields Value) (start key : String), (Fields.names given).Nodup → start ≠ "" →
      (Source.environment (some start) given).supplied key =
        if key = Members.parent then none
        else (Fields.get? (start ++ key) given).filter fun v => !v.isUndefined := by
  refine ⟨?_, fun given start key hgiven hstart => Source.supplied_environment hgiven hstart key⟩
  -- read the sources
  obtain ⟨g, hg, htells, hparent⟩ := exists_gather hs .empty
  have htold (key : String) (hkey : key ≠ Members.parent) :
      g.Tells key (lastSupply key sources) := by
    have hnone : Gathered.empty.Tells key none := ⟨rfl, rfl⟩
    have htold := htells hkey hnone
    rwa [Option.or_none] at htold
  have hparent : g.AtParent (atParent sources) := hparent Gathered.atParent_empty
  refine ⟨g.values, fun key => ?_, fun key => ?_, fun validate => ?_⟩
  · split
    · next hkey => rw [hkey, hparent.values.field]
    · next hkey => exact (htold key hkey).value
  · rw [Layered.find?, hparent.values.place]
  -- what is loaded is made of the validated data and of what was gathered
  have hload : load validate sources =
      match validate g.values with
      | .error issues =>
        .error (.fault (.invalid (Issue.report issues) (sources.map Source.name)))
      | .ok data => .ok (ofGathered g data) := by
    rw [load, hg]
    rfl
  cases hvalid : validate g.values with
  | error issues => rw [hload, hvalid]
  | ok data =>
    refine ⟨ofGathered g data, by rw [hload, hvalid], rfl, fun key => ?_⟩
    by_cases hkey : key = Members.parent
    · -- at `Members.parent` nothing has an origin
      subst hkey
      cases hsupply : lastSupply Members.parent sources with
      | none =>
        refine accountedFor_none ?_ hparent.origin data
        rw [hparent.values.field, atParent_of_lastSupply hsupply]
        rfl
      | some found =>
        exact (accountedFor_parent hparent data).trans
          ⟨Or.inr, fun hc => hc.resolve_left fun hne => hne rfl⟩
    · have htold := htold key hkey
      cases hsupply : lastSupply key sources with
      | none =>
        rw [hsupply] at htold
        exact accountedFor_none htold.value htold.origin data
      | some found =>
        rw [hsupply] at htold
        exact iff_of_true (accountedFor_of_tells htold data) (Or.inl hkey)

/-- Two sources, of which the second overrides a value and withholds another, and a validator that
drops a key and adds one. -/
theorem load_accounts_overridden :
    let given : Fields Value := [("P_a", .text "1"), ("P_b", .text "2"), ("c", .text "3")]
    let sources :=
      [Source.environment (some "P_") given,
        Source.overrides [("a", .undefined), ("b", .text "4"), ("d", .text "5")]]
    let validate : Validator := fun values =>
      .ok (Fields.set "e" (.text "6") (Fields.erase "d" values.fields))
    (∀ s ∈ sources, s.Loads) ∧
      (Source.environment (some "P_") given).supplied "b" = some (.text "2") ∧
      ∃ c, load validate sources = .ok c ∧
        c.data = [("a", .text "1"), ("b", .text "4"), ("e", .text "6")] ∧
        c.AccountedFor "a" (some "env") ∧ c.AccountedFor "b" (some "object:overrides") ∧
        c.AccountedFor "d" (some "object:overrides") ∧ c.AccountedFor "e" none := by
  intro given sources validate
  have hgiven : (Fields.names given).Nodup := by decide
  have hs : ∀ s ∈ sources, s.Loads := by
    refine List.forall_mem_cons.mpr ⟨Source.loads_environment hgiven _, ?_⟩
    exact List.forall_mem_singleton.mpr ⟨_, rfl, by decide⟩
  obtain ⟨⟨merged, -, -, hvalidate⟩, hsupplied⟩ := load_accounts hs
  obtain ⟨c, hc, -, haccounts⟩ := hvalidate validate
  refine ⟨hs, hsupplied given "P_" "b" hgiven (by decide), c, hc, ?_, ?_, ?_, ?_, ?_⟩
  · rw [← Except.ok.inj hc]
    rfl
  · exact (haccounts "a").mpr (Or.inl (by decide))
  · exact (haccounts "b").mpr (Or.inl (by decide))
  · exact (haccounts "d").mpr (Or.inl (by decide))
  · exact (haccounts "e").mpr fun hinherited => absurd hinherited (by decide)

/-- A variable whose name is the start and `Members.parent` is supplied to nobody; a record that is
supplied at `Members.parent` is not accounted for, but the validator finds what is in it under a
key that no source supplies; and a key that the validator adds under an inherited name is not
explained as a default. -/
theorem parent_variable_unaccounted :
    let given : Fields Value := [("P___proto__", .text "x"), ("P_a", .text "1")]
    let schema : Schema := .ofFields .drop [("a", .optional, .text)]
    Fields.get? ("P_" ++ "__proto__") given = some (.text "x") ∧
      (Source.environment (some "P_") given).supplied "__proto__" = none ∧
      (∃ c, load schema.validator [.environment (some "P_") given] = .ok c ∧
        c.unknownKeys = [] ∧ c.keys = ["a"]) ∧
      (∃ c, load schema.validator
          [⟨"base", .ok [("__proto__", .record [("a", .text "2")])]⟩] = .ok c ∧
        c.unknownKeys = [] ∧ c.data = [("a", .text "2")] ∧ c.explain "a" = some "default") ∧
      ∃ c, load (fun _ => .ok [("constructor", .text "x")]) [] = .ok c ∧
        c.keys = ["constructor"] ∧ c.explain "constructor" = none := by
  exact ⟨rfl, rfl, ⟨_, rfl, rfl, rfl⟩, ⟨_, rfl, rfl, rfl, rfl⟩, ⟨_, rfl, rfl, rfl⟩⟩

end Config
end StorageKit
