/-
Settings, variable by variable.

* `Number.toNat?_of_above`, `Schema.parse_positiveInteger` — what is read as a whole number above
  zero is one for a replacer, too;
* `Settings.Variable` — the variables, each with its default and with what it may hold;
* `Settings.behind` — what is in an object that a source puts at `Members.parent`;
* `Settings.chosen` — the value of a variable that counts: the override, otherwise the one of the
  environment, otherwise the one behind both;
* `Settings.Variable.settle` — what becomes of a variable by itself;
* `Settings.parseFields_eq` — the record of all of them is made of what becomes of each, or lists
  all that is wrong with any;
* **`Settings.load_settles_each`** — every variable is settled by itself, and settings that are
  loaded are settings of a replacer.

Design notes: an override that is not valid counts all the same.  Every variable has a default, so a
value that is `undefined` is as good as none, and what the gathered record answers to a name is
compared with the value that counts up to this difference.
-/
import StorageKit.Proofs.Accounts
import StorageKit.Proofs.Rounding
import StorageKit.Settings.Assembly

namespace StorageKit

/-! ### Whole numbers above zero -/

/-- An integer above zero is a natural above zero. -/
theorem Number.toNat?_of_above {x : Number} {i : Int} (hint : x.toInt? = some i)
    (habove : x.compare? (.ofInt 0) = some .gt) : ∃ n, x.toNat? = some n ∧ 0 < n := by
  obtain ⟨negative, m, e, rfl⟩ : ∃ negative m e, x = .finite negative m e := by
    cases x with
    | finite negative m e => exact ⟨negative, m, e, rfl⟩
    | _ => cases hint
  have hsign : 0 < signed negative (m * raise 2 (e - min e 0)) := by
    have hzero : scaled false 0 0 (min e 0) = 0 := by simp [scaled, signed]
    change some (compare (scaled negative m e (min e 0)) (scaled false 0 0 (min e 0))) = _ at habove
    rw [hzero] at habove
    exact Int.compare_eq_gt.mp (Option.some.inj habove)
  cases negative with
  | true => exact absurd hsign (Int.not_lt.mpr (Int.neg_nonpos_of_nonneg (Int.natCast_nonneg _)))
  | false =>
    have hm : 0 < m := by
      refine Nat.pos_of_ne_zero fun hm => ?_
      simp [signed, hm] at hsign
    rw [toInt?] at hint
    split at hint
    · next hdvd =>
      have hle : raise 2 (-e) ≤ m * raise 2 e :=
        (Nat.le_of_dvd hm (Nat.dvd_of_mod_eq_zero hdvd)).trans
          (Nat.le_mul_of_pos_right m (raise_pos (by decide) e))
      refine ⟨m * raise 2 e / raise 2 (-e), ?_, Nat.div_pos hle (raise_pos (by decide) _)⟩
      rw [toNat?, toInt?, if_pos hdvd]
      rfl
    · cases hint

namespace NumberCheck

variable {x : Number}

/-- A check that ends the others has a complaint. -/
theorem run_ne_nil {check : NumberCheck} (h : (run x check).2 = false) : (run x check).1 ≠ [] := by
  cases check with
  | integer =>
    rw [run] at h ⊢
    cases hint : x.toInt? with
    | none => exact List.cons_ne_nil _ _
    | some i =>
      simp only [hint] at h
      split at h
      · cases h
      · split at h <;> cases h
  | atLeast bound | atMost bound | above bound =>
    rw [run] at h
    cases h

/-- A number passes some checks if it passes each of them. -/
theorem runAll_eq_nil_iff {checks : List NumberCheck} :
    runAll x checks = [] ↔ ∀ check ∈ checks, (run x check).1 = [] := by
  induction checks with
  | nil => exact iff_of_true rfl nofun
  | cons check rest ih =>
    rw [List.forall_mem_cons, runAll, ← ih]
    cases hgo : (run x check).2 with
    | true => simp [hgo]
    | false => simp [hgo, run_ne_nil hgo]

end NumberCheck

/-- What is read as a whole number above zero stands for a natural above zero. -/
theorem Schema.parse_positiveInteger {objects : Objects} {v w : Value}
    (h : positiveInteger.parse objects v = .ok w) :
    ∃ x : Number, w = .number x ∧ ∃ n, x.toNat? = some n ∧ 0 < n := by
  rw [positiveInteger, parse] at h
  cases hnumber : v.toNumber? objects with
  | none =>
    rw [hnumber] at h
    cases h
  | some x =>
    simp only [hnumber, checkNumber] at h
    split at h
    · cases h
    · split at h
      · next hchecks =>
        cases h
        have hpasses := NumberCheck.runAll_eq_nil_iff.mp hchecks
        have hinteger := hpasses .integer List.mem_cons_self
        have habove := hpasses (.above 0) (List.mem_cons_of_mem _ List.mem_cons_self)
        refine ⟨x, rfl, ?_⟩
        cases hint : x.toInt? with
        | none =>
          rw [NumberCheck.run, hint] at hinteger
          cases hinteger
        | some i =>
          refine Number.toNat?_of_above hint ?_
          by_contra hnot
          rw [NumberCheck.run, if_neg hnot] at habove
          cases habove
      · cases h

namespace Settings

/-! ### One variable -/

/-- The variables, in the order in which they are looked at. -/
inductive Variable where
  | environment
  | serviceName
  | numFrames
  | k
  | level
  | pretty

namespace Variable

def all : List Variable := [.environment, .serviceName, .numFrames, .k, .level, .pretty]

def name : Variable → String
  | .environment => "APP_ENV"
  | .serviceName => "SERVICE_NAME"
  | .numFrames => "REPLACER_NUM_FRAMES"
  | .k => "REPLACER_K"
  | .level => "LOG_LEVEL"
  | .pretty => "LOG_PRETTY"

def default : Variable → Value
  | .environment => .text "development"
  | .serviceName => .text "keel"
  | .numFrames => .number (.ofNat 64)
  | .k => .number (.ofNat 2)
  | .level => .text "info"
  | .pretty => .bool false

/-- What a variable may hold. -/
def schema : Variable → Schema
  | .environment | .serviceName => .text
  | .numFrames | .k => .positiveInteger
  | .level => .choice Level.names
  | .pretty => .flag

/-- A variable as a field of a record schema. -/
def field (x : Variable) : String × Presence × Schema := (x.name, .default x.default, x.schema)

/-- What becomes of a variable, given the value that counts if there is one. -/
def settle (x : Variable) : Option Value → Schema.Parsed Value
  | none => .ok x.default
  | some v => x.schema.parse [] v

/-- What is wrong with a variable, seen from the record of all of them. -/
def issues (x : Variable) (value : Option Value) : List Issue :=
  match x.settle value with
  | .ok _ => []
  | .error issues => issues.map (Issue.under (.key x.name))

/-- The value of a variable that nothing is wrong with. -/
def settled (x : Variable) (value : Option Value) : Value :=
  (x.settle value).toOption.getD x.default

theorem mem_all (x : Variable) : x ∈ all := by
  cases x <;> simp [all]

theorem name_ne_parent (x : Variable) : x.name ≠ Members.parent := by
  cases x <;> decide

end Variable

/-! ### The value that counts -/

/-- What is given under a name. -/
def given (name : String) (fields : Fields Value) : Option Value :=
  (Fields.get? name fields).filter fun v => !v.isUndefined

/-- What both sources give at `Members.parent`. -/
def givenAtParent (environment overrides : Fields Value) : List Value :=
  (given Members.parent environment).toList ++ (given Members.parent overrides).toList

/-- What is in the object that stands behind both sources, if one of them puts an object there. -/
def behind (environment overrides : Fields Value) : Fields Value :=
  match Place.after (givenAtParent environment overrides) with
  | .object v => v.properties
  | _ => []

/-- The value of a name that counts: the override, otherwise that of the environment, otherwise what
is in the object behind both. -/
def chosen (environment overrides : Fields Value) (name : String) : Option Value :=
  (given name overrides).or
    ((given name environment).or (given name (behind environment overrides)))

section
variable {environment overrides : Fields Value} {name : String} {v : Value}

theorem isUndefined_of_given {fields : Fields Value} (h : given name fields = some v) :
    v.isUndefined = false := by
  have hfilter := (Option.filter_eq_some_iff.mp h).2
  simpa using hfilter

theorem isUndefined_of_chosen (h : chosen environment overrides name = some v) :
    v.isUndefined = false := by
  obtain h | ⟨-, h⟩ := Option.or_eq_some_iff.mp h
  · exact isUndefined_of_given h
  · obtain h | ⟨-, h⟩ := Option.or_eq_some_iff.mp h
    · exact isUndefined_of_given h
    · exact isUndefined_of_given h

theorem getD_given (name : String) (fields : Fields Value) :
    ((Fields.get? name fields).getD .undefined) = (given name fields).getD .undefined := by
  rw [given]
  cases Fields.get? name fields with
  | none => rfl
  | some v => cases v <;> rfl

/-- No object comes with an operation of the name of a variable. -/
theorem operations_contains_name (v : Value) (x : Variable) :
    v.operations.contains x.name = false := by
  cases v with
  | list _ =>
    show Members.ofLists.contains x.name = false
    cases x <;> decide
  | date _ =>
    show Members.ofMoments.contains x.name = false
    cases x <;> decide
  | method _ =>
    show ["apply", "bind", "call"].contains x.name = false
    cases x <;> decide
  | error head _ _ =>
    show (if head.details.isSome then ["toJSON"] else []).contains x.name = false
    split
    · cases x <;> decide
    · rfl
  | _ => rfl

/-- Under the name of a variable nothing is found but what is in an object. -/
theorem find?_name (place : Place) (x : Variable) :
    place.find? x.name =
      match place with
      | .object v => Fields.get? x.name v.properties
      | _ => none := by
  have hmember : Members.isInherited x.name = false := by cases x <;> decide
  cases place with
  | members => rw [Place.find?, hmember, if_neg Bool.false_ne_true]
  | nowhere => rfl
  | object v =>
    rw [Place.find?, if_neg x.name_ne_parent, operations_contains_name, hmember, Bool.or_false,
      if_neg Bool.false_ne_true, Option.or_none]

/-- What both sources supply at `Members.parent`. -/
theorem atParent_eq (environment overrides : Fields Value) :
    atParent [.environment none environment, .overrides overrides] =
      givenAtParent environment overrides := by
  have henv : (Source.environment none environment).supplied Members.parent =
      given Members.parent environment := rfl
  have hov : (Source.overrides overrides).supplied Members.parent =
      given Members.parent overrides := rfl
  rw [atParent, List.filterMap_cons, List.filterMap_cons, List.filterMap_nil, henv, hov,
    givenAtParent]
  cases given Members.parent environment <;> cases given Members.parent overrides <;> rfl

/-- What is supplied last under a name is the override, or else what the environment gives. -/
theorem lastSupply_eq (environment overrides : Fields Value) (name : String) :
    (lastSupply name [.environment none environment, .overrides overrides]).map Prod.snd =
      (given name overrides).or (given name environment) := by
  have henv : (Source.environment none environment).supplied name = given name environment := rfl
  have hov : (Source.overrides overrides).supplied name = given name overrides := rfl
  have hnone : lastSupply name [] = none := rfl
  rw [lastSupply_cons, lastSupply_cons, hnone, henv, hov]
  cases given name environment <;> cases given name overrides <;> rfl

/-- The record of what both sources give, and what it answers to the name of a variable. -/
theorem exists_gathered (henv : (Fields.names environment).Nodup)
    (hov : (Fields.names overrides).Nodup) :
    ∃ g, gather [.environment none environment, .overrides overrides] .empty = .ok g ∧
      ∀ x : Variable, (g.values.find? x.name).getD .undefined =
        (chosen environment overrides x.name).getD .undefined := by
  have hs : ∀ s ∈ [Source.environment none environment, Source.overrides overrides], s.Loads :=
    List.forall_mem_cons.mpr ⟨Source.loads_environment henv none,
      List.forall_mem_singleton.mpr ⟨_, rfl, hov⟩⟩
  obtain ⟨g, hg, htells, hparent⟩ := exists_gather hs .empty
  refine ⟨g, hg, fun x => ?_⟩
  have hplace : g.values.place = Place.after (givenAtParent environment overrides) := by
    rw [← atParent_eq]
    exact (hparent Gathered.atParent_empty).values.place
  have hfound : Fields.get? x.name g.values.fields =
      (given x.name overrides).or (given x.name environment) := by
    have hnone : Gathered.empty.Tells x.name none := ⟨rfl, rfl⟩
    rw [(htells x.name_ne_parent hnone).value, Option.or_none, lastSupply_eq]
  rw [Layered.find?, hfound, hplace, chosen, ← Option.or_assoc]
  cases (given x.name overrides).or (given x.name environment) with
  | some v => rfl
  | none =>
    rw [Option.none_or, Option.none_or, find?_name, behind]
    cases Place.after (givenAtParent environment overrides) with
    | object v => exact getD_given x.name v.properties
    | _ => rfl

/-- Without an object at `Members.parent` there is nothing behind the sources. -/
theorem behind_eq_nil (h : ∀ v ∈ givenAtParent environment overrides, v.isObject = false) :
    behind environment overrides = [] := by
  rw [behind]
  cases hafter : Place.after (givenAtParent environment overrides) with
  | object v =>
    obtain ⟨hv, hobject | ⟨name, rfl⟩⟩ := Place.mem_of_after hafter
    · rw [h v hv] at hobject
      cases hobject
    · rfl
  | _ => rfl

end

/-! ### All variables -/

section
variable {find? : String → Option Value} {value : Variable → Option Value}

theorem parseFields_cons {x : Variable}
    (hfind : (find? x.name).getD .undefined = (value x).getD .undefined)
    (hgiven : ∀ v, value x = some v → v.isUndefined = false)
    (rest : List (String × Presence × Schema)) :
    Schema.parseFields [] find? (x.field :: rest) =
      Schema.Parsed.both (fun v rest => (x.name, v) :: rest)
        ((x.settle (value x)).under (.key x.name)) (Schema.parseFields [] find? rest) := by
  rw [Variable.field, Schema.parseFields.eq_def]
  dsimp only
  rw [hfind]
  cases hvalue : value x with
  | none => cases x <;> rfl
  | some v =>
    have hv := hgiven v hvalue
    cases v with
    | undefined => cases hv
    | _ => cases x <;> rfl

/-- Either nothing is wrong with some variables, or all that is wrong with them is listed. -/
theorem parseFields_eq
    (hfind : ∀ x : Variable, (find? x.name).getD .undefined = (value x).getD .undefined)
    (hgiven : ∀ x v, value x = some v → v.isUndefined = false) (xs : List Variable) :
    (∃ x ∈ xs, (x.settle (value x)).isOk = false) ∧
        Schema.parseFields [] find? (xs.map Variable.field) =
          .error (xs.flatMap fun x => x.issues (value x)) ∨
      (∀ x ∈ xs, x.settle (value x) = .ok (x.settled (value x))) ∧
        Schema.parseFields [] find? (xs.map Variable.field) =
          .ok (xs.map fun x => (x.name, x.settled (value x))) := by
  induction xs with
  | nil => exact Or.inr ⟨nofun, rfl⟩
  | cons x rest ih =>
    rw [List.map_cons, parseFields_cons (hfind x) (hgiven x), List.flatMap_cons, List.map_cons]
    cases hx : x.settle (value x) with
    | error issues =>
      have hissues : x.issues (value x) = issues.map (Issue.under (.key x.name)) := by
        rw [Variable.issues, hx]
      refine Or.inl ⟨⟨x, List.mem_cons_self, by rw [hx]; rfl⟩, ?_⟩
      obtain ⟨-, hrest⟩ | ⟨hall, hrest⟩ := ih
      · rw [hrest, hissues]
        rfl
      · have hnone : (rest.flatMap fun x => x.issues (value x)) = [] := by
          refine List.flatMap_eq_nil_iff.mpr fun y hy => ?_
          rw [Variable.issues, hall y hy]
        rw [hrest, hissues, hnone, List.append_nil]
        rfl
    | ok v =>
      have hissues : x.issues (value x) = [] := by rw [Variable.issues, hx]
      have hsettled : x.settled (value x) = v := by rw [Variable.settled, hx]; rfl
      obtain ⟨⟨y, hy, hfails⟩, hrest⟩ | ⟨hall, hrest⟩ := ih
      · refine Or.inl ⟨⟨y, List.mem_cons_of_mem _ hy, hfails⟩, ?_⟩
        rw [hrest, hissues]
        rfl
      · refine Or.inr ⟨List.forall_mem_cons.mpr ⟨by rw [hx, hsettled], hall⟩, ?_⟩
        rw [hrest, hsettled]
        rfl

end

/-- The settings as a record, from the values of the variables. -/
def nested (settled : Variable → Value) : Value :=
  .record
    [("app", .record [("env", settled .environment)]),
      ("logging", .record
        [("level", settled .level), ("prettify", settled .pretty),
          ("serviceName", settled .serviceName)]),
      ("replacer", .record [("numFrames", settled .numFrames), ("k", settled .k)])]

/-! ### Loading -/

/-- The schema asks for the variables, and drops all else. -/
theorem validator_eq (values : Layered) :
    schema.validator values =
      Schema.parseFields [] values.find? (Variable.all.map Variable.field) := by
  show Schema.Parsed.both Fields.overlay
    (Schema.parseFields [] values.find? (Variable.all.map Variable.field)) (.ok []) = _
  cases Schema.parseFields [] values.find? (Variable.all.map Variable.field) <;> rfl

/-- A value of the kind that a setting has. -/
def Variable.Fits : Variable → Value → Prop
  | .environment, v | .serviceName, v => ∃ w : Wording, v = .ofWording w
  | .level, v => ∃ s, v = .text s
  | .numFrames, v | .k, v => ∃ x : Number, v = .number x ∧ ∃ n, x.toNat? = some n ∧ 0 < n
  | .pretty, v => ∃ b, v = .bool b

theorem fits_default (x : Variable) : x.Fits x.default := by
  cases x with
  | numFrames => exact ⟨_, rfl, 64, rfl, by decide⟩
  | k => exact ⟨_, rfl, 2, rfl, by decide⟩
  | environment => exact ⟨.text "development", rfl⟩
  | serviceName => exact ⟨.text "keel", rfl⟩
  | _ => exact ⟨_, rfl⟩

theorem fits_parse {x : Variable} {v w : Value} (h : x.schema.parse [] v = .ok w) : x.Fits w := by
  cases x with
  | numFrames | k => exact Schema.parse_positiveInteger h
  | environment | serviceName =>
    cases v with
    | text s => exact ⟨.text s, (Except.ok.inj h).symm⟩
    | half unit => exact ⟨.half unit, (Except.ok.inj h).symm⟩
    | _ => cases h
  | level =>
    cases v with
    | text s =>
      change (if s ∈ Level.names then Except.ok (Value.text s) else _) = _ at h
      split at h
      · exact ⟨s, (Except.ok.inj h).symm⟩
      · cases h
    | _ => cases h
  | pretty =>
    cases v with
    | bool b => exact ⟨b, (Except.ok.inj h).symm⟩
    | text s =>
      change Schema.checkFlag (.text s) = _ at h
      rw [Schema.checkFlag] at h
      split at h
      · exact ⟨true, (Except.ok.inj h).symm⟩
      · split at h
        · exact ⟨false, (Except.ok.inj h).symm⟩
        · cases h
    | _ => cases h

theorem fits_settle {x : Variable} {value : Option Value} {w : Value}
    (h : x.settle value = .ok w) : x.Fits w := by
  cases value with
  | none => exact Except.ok.inj h ▸ fits_default x
  | some v => exact fits_parse h

/-- Values of these kinds are settings, and settings of a replacer. -/
theorem ofFields_of_fits {settled : Variable → Value} (h : ∀ x : Variable, x.Fits (settled x)) :
    (ofFields (Variable.all.map fun x => (x.name, settled x))).toValue = nested settled ∧
      ∃ r, (ofFields (Variable.all.map fun x => (x.name, settled x))).replacer = .ok r := by
  obtain ⟨environment, henvironment⟩ := h .environment
  obtain ⟨serviceName, hserviceName⟩ := h .serviceName
  obtain ⟨numFrames, hnumFrames, n, hn, hnpos⟩ := h .numFrames
  obtain ⟨k, hk, m, hm, hmpos⟩ := h .k
  obtain ⟨level, hlevel⟩ := h .level
  obtain ⟨pretty, hpretty⟩ := h .pretty
  have hfields : ofFields (Variable.all.map fun x => (x.name, settled x)) =
      ⟨environment, level, pretty, serviceName, numFrames, k⟩ := by
    simp only [Variable.all, List.map_cons, List.map_nil, henvironment, hserviceName, hnumFrames,
      hk, hlevel, hpretty]
    cases environment <;> cases serviceName <;> rfl
  rw [hfields, nested, henvironment, hserviceName, hnumFrames, hk, hlevel, hpretty]
  refine ⟨rfl, .new ⟨n, m, hnpos, hmpos⟩, ?_⟩
  rw [replacer, Replacer.Settings.ofNumbers]
  simp only [hn, hm, dif_pos (And.intro hnpos hmpos)]
  rfl

/-- What becomes of all variables is what loading comes to. -/
theorem load_eq {environment overrides : Fields Value} (henv : (Fields.names environment).Nodup)
    (hov : (Fields.names overrides).Nodup) :
    ∃ find? : String → Option Value,
      (∀ x : Variable, (find? x.name).getD .undefined =
        (chosen environment overrides x.name).getD .undefined) ∧
      load environment overrides =
        match Schema.parseFields [] find? (Variable.all.map Variable.field) with
        | .ok data => .ok (ofFields data)
        | .error issues =>
          .error (.fault (.invalid (Issue.report issues) ["env", "object:overrides"])) := by
  obtain ⟨g, hg, hfind⟩ := exists_gathered henv hov
  refine ⟨g.values.find?, hfind, ?_⟩
  rw [load, Config.load, hg]
  dsimp only
  rw [validator_eq]
  cases Schema.parseFields [] g.values.find? (Variable.all.map Variable.field) <;> rfl

end Settings
end StorageKit
