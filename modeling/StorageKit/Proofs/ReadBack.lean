/-
Documents are read as they were written.

* `Quoted.read?_body` — a text of any characters is read back from between its quotes;
* `Json.settled` — a document as a reader sees it: of several fields with one name the last one
  counts, and half of a character is none;
* `Json.Legible` — the numbers of a document are numbers of JSON;
* `Json.Reader.value_render`, `Json.Reader.items_render`, `Json.Reader.members_render` — the readers
  take from a text exactly what was written for a part;
* `Json.read?_render` — **what is written for a document is read as this document**.

Design notes: every part that is read takes one character at least, so the readers never run out of
fuel; the bound on it goes down with the parts.  A number ends where no character of numbers
follows, which is why the readers are asked about texts with something behind the part.
-/
import StorageKit.Proofs.Numerals

namespace StorageKit

/-! ### Quoted texts -/

namespace Quoted

theorem digit?_hexDigit : ∀ d < 16, Numeral.digit? 16 (hexDigit d) = some d := by decide

/-- Four digits are read back as the 16 bits they were made of. -/
theorem unit?_hexDigits (n : Nat) :
    unit? (hexDigit (n / 0x1000 % 16)) (hexDigit (n / 0x100 % 16)) (hexDigit (n / 0x10 % 16))
      (hexDigit (n % 16)) = some (n % 0x10000) := by
  simp only [unit?, Numeral.value?, digit?_hexDigit _ (Nat.mod_lt _ (by decide : 0 < 16)),
    Option.some.injEq]
  omega

section

variable {c e : Char}

/-- A character that stands for itself. -/
theorem units?_plain (hquote : c ≠ '"') (hslash : c ≠ '\\') (hspace : ¬ c.toNat < 0x20)
    (rest : List Char) : units? (c :: rest) = (units? rest).map (withUnit c.toNat) := by
  rw [units?.eq_def]
  split
  · next h => cases h
  · next h => cases h; exact absurd rfl hquote
  · next h => cases h; exact absurd rfl hslash
  · next h => cases h; exact absurd rfl hslash
  · next h =>
    cases h
    simp [hspace, hslash, Option.map_eq_bind]

/-- A character that stands behind a backslash as a letter. -/
theorem units?_letter (he : e ≠ 'u') (h : unescape? e = some c) (rest : List Char) :
    units? ('\\' :: e :: rest) = (units? rest).map (withUnit c.toNat) := by
  rw [units?.eq_def]
  split
  · next heq => cases heq
  · next heq => cases heq
  · next heq => cases heq; exact absurd rfl he
  · next heq =>
    cases heq
    simp [h, Option.map_eq_bind]
  · next hno heq => cases heq; exact (hno _ _ rfl rfl).elim

/-- A number behind a backslash. -/
theorem units?_escapeUnit (unit : Nat) (rest : List Char) :
    units? (escapeUnit unit ++ rest) = (units? rest).map (withUnit (unit % 0x10000)) := by
  simp [escapeUnit, units?, unit?_hexDigits, Option.map_eq_bind]

theorem units?_escape (c : Char) (rest : List Char) :
    units? (escape c ++ rest) = (units? rest).map (withUnit c.toNat) := by
  rw [escape]
  -- seven characters have letters
  iterate 7
    split
    · next h => exact units?_letter (by decide) (by rw [h]; decide) rest
  split
  · next hspace => rw [units?_escapeUnit, Nat.mod_eq_of_lt (by omega)]
  · next hquote hslash _ _ _ _ _ hspace => exact units?_plain hquote hslash hspace rest

end

theorem units?_body (cs rest : List Char) :
    units? (body cs ++ '"' :: rest) = some (cs.map Char.toNat, rest) := by
  induction cs with
  | nil => simp [body, units?]
  | cons c cs ih =>
    rw [body, List.flatMap_cons, List.append_assoc, units?_escape, ← body, ih]
    rfl

end Quoted

/-- A whole character among units is no half of one. -/
theorem Text.joinUnits_map_toNat (cs : List Char) : joinUnits (cs.map Char.toNat) = cs := by
  have hwhole : ∀ c : Char, isFirstHalf c.toNat = false ∧ isSecondHalf c.toNat = false := by
    intro c
    have hvalid : c.toNat < 0xd800 ∨ 0xdfff < c.toNat ∧ c.toNat < 0x110000 := c.valid
    simp only [isFirstHalf, isSecondHalf, Bool.and_eq_false_iff, decide_eq_false_iff_not]
    omega
  induction cs with
  | nil => rfl
  | cons c cs ih =>
    obtain ⟨hfirst, hsecond⟩ := hwhole c
    cases cs with
    | nil => simp [joinUnits, hfirst, hsecond, Char.ofNat_toNat]
    | cons d rest =>
      rw [List.map_cons, List.map_cons, joinUnits, hfirst, hsecond, Char.ofNat_toNat]
      rw [List.map_cons] at ih
      simp [ih]

/-- A text is read back from between its quotes. -/
theorem Quoted.read?_body (s : String) (rest : List Char) :
    read? (body s.toList ++ '"' :: rest) = some (s, rest) := by
  simp [read?, units?_body, Text.joinUnits_map_toNat]

/-! ### Documents -/

namespace Json

mutual

/-- A document as a reader sees it: of several fields with one name the last one counts, and half of
a character is none. -/
def settled : Json → Json
  | .half unit => .text (Text.ofUnit unit)
  | .list items => .list (settledItems items)
  | .object fields => .object (Fields.ofList (settledFields fields))
  | j => j
termination_by structural j => j

def settledItems : List Json → List Json
  | [] => []
  | j :: rest => settled j :: settledItems rest
termination_by structural items => items

def settledFields : List (String × Json) → List (String × Json)
  | [] => []
  | (name, j) :: rest => (name, settled j) :: settledFields rest
termination_by structural fields => fields

end

/-- A number as JSON writes it. -/
def IsNumeral (token : String) : Prop :=
  Numeral.isToken token.toList = true ∧ ∀ c ∈ token.toList, Reader.isNumeric c = true

mutual

/-- What is written for the document can be read: its numbers are numbers of JSON. -/
def Legible : Json → Prop
  | .number token => IsNumeral token
  | .list items => LegibleItems items
  | .object fields => LegibleFields fields
  | _ => True
termination_by structural j => j

def LegibleItems : List Json → Prop
  | [] => True
  | j :: rest => Legible j ∧ LegibleItems rest
termination_by structural items => items

def LegibleFields : List (String × Json) → Prop
  | [] => True
  | (_, j) :: rest => Legible j ∧ LegibleFields rest
termination_by structural fields => fields

end

namespace Reader

theorem skip_cons {c : Char} (h : isBlank c = false) (cs : List Char) :
    skip (c :: cs) = c :: cs := by
  simp [skip, h]

/-- What follows a document: no more of a number. -/
def Ends (rest : List Char) : Prop := ∀ c ∈ rest.head?, isNumeric c = false

theorem ends_nil : Ends [] := nofun

theorem ends_cons {c : Char} (h : isNumeric c = false) (rest : List Char) : Ends (c :: rest) := by
  intro d hd
  cases hd
  exact h

theorem number?_append {token : String} (h : IsNumeral token) {rest : List Char}
    (hrest : Ends rest) :
    number? (token.toList ++ rest) = some (.number token, rest) := by
  obtain ⟨htake, hdrop⟩ := span_append h.2 hrest
  rw [number?, htake, hdrop, if_pos h.1, String.ofList_toList]

theorem exists_cons_of_isNumeral {token : String} (h : IsNumeral token) :
    ∃ c cs, token.toList = c :: cs ∧ isNumeric c = true := by
  cases htoken : token.toList with
  | nil =>
    have hnone := h.1
    rw [htoken] at hnone
    exact absurd hnone (by decide)
  | cons c cs => exact ⟨c, cs, rfl, h.2 c (htoken ▸ List.mem_cons_self)⟩

theorem ne_of_isNumeric {c d : Char} (hc : isNumeric c = true) (hd : isNumeric d = false) :
    c ≠ d := by
  rintro rfl
  rw [hc] at hd
  cases hd

theorem isBlank_of_isNumeric {c : Char} (h : isNumeric c = true) : isBlank c = false := by
  simp [isBlank, ne_of_isNumeric h (d := ' ') (by decide),
    ne_of_isNumeric h (d := '\t') (by decide), ne_of_isNumeric h (d := '\n') (by decide),
    ne_of_isNumeric h (d := '\r') (by decide)]

/-- Nothing but a number begins like a number. -/
theorem value_of_isNumeric {c : Char} (h : isNumeric c = true) (fuel : Nat) (cs : List Char) :
    value (fuel + 1) (c :: cs) = number? (c :: cs) := by
  rw [value, skip_cons (isBlank_of_isNumeric h)]
  split
  · next heq => cases heq; exact absurd h (by decide)
  · next heq => cases heq; exact absurd h (by decide)
  · next heq => cases heq; exact absurd h (by decide)
  · next heq => cases heq; exact absurd h (by decide)
  · next heq => cases heq; exact absurd h (by decide)
  · next heq => cases heq; exact absurd h (by decide)
  · rfl

theorem exists_cons_of_render {j : Json} (h : j.Legible) :
    ∃ c cs, render j = c :: cs ∧ isBlank c = false ∧ c ≠ ']' := by
  cases j with
  | null => exact ⟨_, _, rfl, by decide, by decide⟩
  | bool b => cases b <;> exact ⟨_, _, rfl, by decide, by decide⟩
  | number token =>
    obtain ⟨c, cs, hcons, hc⟩ := exists_cons_of_isNumeral h
    refine ⟨c, cs, hcons, ?_, ?_⟩
    · exact isBlank_of_isNumeric hc
    · rintro rfl
      exact absurd hc (by decide)
  | text s => exact ⟨_, _, rfl, by decide, by decide⟩
  | half unit => exact ⟨_, _, rfl, by decide, by decide⟩
  | list items => exact ⟨_, _, rfl, by decide, by decide⟩
  | object fields => exact ⟨_, _, rfl, by decide, by decide⟩

theorem read?_escapeUnit (unit : Nat) (rest : List Char) :
    Quoted.read? (Quoted.escapeUnit unit ++ '"' :: rest) =
      some (Text.ofUnit unit, rest) := by
  have hquote : Quoted.units? ('"' :: rest) = some ([], rest) := by simp [Quoted.units?]
  rw [Quoted.read?, Quoted.units?_escapeUnit, hquote]
  rfl

theorem value_list {fuel : Nat} {cs rest : List Char} {xs : List Json}
    (h : ∃ c more, cs = c :: more ∧ isBlank c = false ∧ c ≠ ']')
    (hitems : items fuel cs = some (xs, rest)) :
    value (fuel + 1) ('[' :: cs) = some (.list xs, rest) := by
  obtain ⟨c, more, rfl, hblank, hc⟩ := h
  have hopen : skip ('[' :: c :: more) = '[' :: c :: more := skip_cons (by decide) _
  simp [value, hopen, skip_cons hblank, hc, hitems]

theorem value_object {fuel : Nat} {cs rest : List Char} {fs : List (String × Json)}
    (hmembers : members fuel ('"' :: cs) = some (fs, rest)) :
    value (fuel + 1) ('\x7b' :: '"' :: cs) = some (.object (Fields.ofList fs), rest) := by
  have hopen : skip ('\x7b' :: '"' :: cs) = '\x7b' :: '"' :: cs := skip_cons (by decide) _
  simp [value, hopen, skip_cons (c := '"') (by decide), hmembers]

section

variable {fuel : Nat} {name : String} {cs more rest : List Char} {j : Json} {xs : List Json}
  {fs : List (String × Json)}

theorem items_last (h : value fuel cs = some (j, ']' :: rest)) :
    items (fuel + 1) cs = some ([j], rest) := by
  simp [items, h, skip_cons (c := ']') (by decide)]

theorem items_cons (h : value fuel cs = some (j, ',' :: more))
    (hmore : items fuel more = some (xs, rest)) :
    items (fuel + 1) cs = some (j :: xs, rest) := by
  simp [items, h, hmore, skip_cons (c := ',') (by decide)]

theorem members_last (h : value fuel cs = some (j, '\x7d' :: rest)) :
    members (fuel + 1) (Quoted.encode name ++ ':' :: cs) = some ([(name, j)], rest) := by
  simp [Quoted.encode, members, skip_cons (c := '"') (by decide), Quoted.read?_body,
    skip_cons (c := ':') (by decide), h, skip_cons (c := '\x7d') (by decide)]

theorem members_cons (h : value fuel cs = some (j, ',' :: more))
    (hmore : members fuel more = some (fs, rest)) :
    members (fuel + 1) (Quoted.encode name ++ ':' :: cs) = some ((name, j) :: fs, rest) := by
  simp [Quoted.encode, members, skip_cons (c := '"') (by decide), Quoted.read?_body,
    skip_cons (c := ':') (by decide), h, skip_cons (c := ',') (by decide), hmore]

end

theorem length_render_pos {j : Json} (h : j.Legible) : 0 < (render j).length := by
  obtain ⟨c, cs, hcons, -⟩ := exists_cons_of_render h
  rw [hcons]
  exact Nat.succ_pos _

theorem exists_cons_of_renderItems {j : Json} (h : j.Legible) (items : List Json)
    (rest : List Char) :
    ∃ c more, renderItems (j :: items) ++ rest = c :: more ∧ isBlank c = false ∧ c ≠ ']' := by
  obtain ⟨c, cs, hcons, hc⟩ := exists_cons_of_render h
  cases items with
  | nil => exact ⟨c, cs ++ rest, by rw [renderItems, hcons]; rfl, hc⟩
  | cons => exact ⟨c, _, by simp only [renderItems, hcons]; rfl, hc⟩

theorem exists_quote_of_renderFields (name : String) (j : Json) (fields : List (String × Json))
    (rest : List Char) : ∃ more, renderFields ((name, j) :: fields) ++ rest = '"' :: more := by
  cases fields with
  | nil => exact ⟨_, by rw [renderFields, Quoted.encode]; rfl⟩
  | cons => exact ⟨_, by simp only [renderFields, Quoted.encode]; rfl⟩

mutual

/-- A document that was written is read, up to what follows it. -/
theorem value_render : ∀ (j : Json) (fuel : Nat) (rest : List Char), j.Legible →
    (render j).length ≤ fuel → Ends rest → value fuel (render j ++ rest) = some (settled j, rest)
  | j, 0, _, h, hfuel, _ => absurd hfuel (Nat.not_le.mpr (length_render_pos h))
  | .null, fuel + 1, rest, _, _, _ => by simp [render, value, skip, isBlank, settled]
  | .bool true, fuel + 1, rest, _, _, _ => by simp [render, value, skip, isBlank, settled]
  | .bool false, fuel + 1, rest, _, _, _ => by simp [render, value, skip, isBlank, settled]
  | .number token, fuel + 1, rest, h, _, hrest => by
    obtain ⟨c, cs, hcons, hc⟩ := exists_cons_of_isNumeral h
    rw [render, hcons]
    refine (value_of_isNumeric hc fuel (cs ++ rest)).trans ?_
    rw [← List.cons_append, ← hcons]
    exact number?_append h hrest
  | .text s, fuel + 1, rest, _, _, _ => by
    simp [render, value, skip, isBlank, settled, Quoted.encode, Quoted.read?_body]
  | .half unit, fuel + 1, rest, _, _, _ => by
    simp [render, value, skip, isBlank, settled, read?_escapeUnit]
  | .list [], fuel + 1, rest, _, _, _ => by
    simp [render, renderItems, value, skip, isBlank, settled, settledItems]
  | .list (j :: items), fuel + 1, rest, h, hfuel, _ => by
    have hitems := items_render (j :: items) fuel rest h (by simp [render] at hfuel; omega) nofun
    rw [render, List.cons_append, List.append_assoc]
    exact value_list (exists_cons_of_renderItems h.1 items _) hitems
  | .object [], fuel + 1, rest, _, _, _ => by
    simp [render, renderFields, value, skip, isBlank, settled, settledFields]
    rfl
  | .object ((name, j) :: fields), fuel + 1, rest, h, hfuel, _ => by
    have hmembers := members_render ((name, j) :: fields) fuel rest h
      (by simp [render] at hfuel; omega) nofun
    obtain ⟨more, hmore⟩ := exists_quote_of_renderFields name j fields ('\x7d' :: rest)
    rw [render, List.cons_append, List.append_assoc, List.singleton_append, hmore]
    exact value_object (hmore ▸ hmembers)
termination_by structural j => j

/-- Items that were written are read, up to the closing bracket. -/
theorem items_render : ∀ (items : List Json) (fuel : Nat) (rest : List Char), LegibleItems items →
    (renderItems items).length < fuel → items ≠ [] →
    Reader.items fuel (renderItems items ++ ']' :: rest) = some (settledItems items, rest)
  | [], _, _, _, _, hne => absurd rfl hne
  | [j], fuel + 1, rest, h, hfuel, _ =>
    items_last (value_render j fuel (']' :: rest) h.1 (by simp [renderItems] at hfuel; omega)
      (ends_cons (by decide) rest))
  | j :: j' :: items, fuel + 1, rest, h, hfuel, _ => by
    have hlength : (renderItems (j :: j' :: items)).length =
        (render j).length + 1 + (renderItems (j' :: items)).length := by
      simp [renderItems]
      omega
    have hj := value_render j fuel (',' :: (renderItems (j' :: items) ++ ']' :: rest)) h.1
      (by omega) (ends_cons (by decide) _)
    have hitems := items_render (j' :: items) fuel rest h.2 (by omega) nofun
    have hrender : renderItems (j :: j' :: items) ++ ']' :: rest =
        render j ++ ',' :: (renderItems (j' :: items) ++ ']' :: rest) := by
      simp [renderItems]
    rw [hrender]
    exact items_cons hj hitems
termination_by structural items => items

/-- Fields that were written are read, up to the closing brace. -/
theorem members_render : ∀ (fields : List (String × Json)) (fuel : Nat) (rest : List Char),
    LegibleFields fields → (renderFields fields).length < fuel → fields ≠ [] →
    Reader.members fuel (renderFields fields ++ '\x7d' :: rest) =
      some (settledFields fields, rest)
  | [], _, _, _, _, hne => absurd rfl hne
  | [(name, j)], fuel + 1, rest, h, hfuel, _ => by
    have hj := value_render j fuel ('\x7d' :: rest) h.1 (by simp [renderFields] at hfuel; omega)
      (ends_cons (by decide) rest)
    rw [renderFields, List.append_assoc]
    exact members_last hj
  | (name, j) :: (name', j') :: fields, fuel + 1, rest, h, hfuel, _ => by
    have hlength : (renderFields ((name, j) :: (name', j') :: fields)).length =
        (Quoted.encode name).length + 1 + (render j).length + 1 +
          (renderFields ((name', j') :: fields)).length := by
      simp [renderFields]
      omega
    have hj := value_render j fuel
      (',' :: (renderFields ((name', j') :: fields) ++ '\x7d' :: rest)) h.1 (by omega)
      (ends_cons (by decide) _)
    have hmembers := members_render ((name', j') :: fields) fuel rest h.2 (by omega) nofun
    have hrender : renderFields ((name, j) :: (name', j') :: fields) ++ '\x7d' :: rest =
        Quoted.encode name ++ ':' ::
          (render j ++ ',' :: (renderFields ((name', j') :: fields) ++ '\x7d' :: rest)) := by
      simp [renderFields]
    rw [hrender]
    exact members_cons hj hmembers
termination_by structural fields => fields

end

end Reader

/-- **What is written for a document is read as this document**, as far as a reader can see it. -/
theorem read?_render {j : Json} (h : j.Legible) : read? (render j) = some (settled j) := by
  have hvalue := Reader.value_render j (2 * (render j).length + 1) [] h (by omega) Reader.ends_nil
  rw [List.append_nil] at hvalue
  rw [read?, hvalue]
  rfl

end Json
end StorageKit
