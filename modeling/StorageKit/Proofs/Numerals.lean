/-
The text of a number, and reading it.

* `Numeral.Spelling` — the parts of a decimal: digits in front of the point, digits behind it, and
  an exponent, with what they stand for;
* `Numeral.Spelling.Proper` — the parts are digits, and the whole part is written as it should be;
  such a spelling is a number of JSON (`Numeral.Spelling.Proper.isToken`) and is read as what it
  stands for (`Numeral.Spelling.Proper.decimal?_chars`);
* `Numeral.exists_spelling` — every layout of digits is a proper spelling of them;
* `Number.isToken_text`, `Number.isNumeric_text` — **the text of a finite number is a number of
  JSON**;
* `Number.ofText_text` — **a number of the 64-bit format is read back from its text**, only the sign
  of a zero is lost.
-/
import StorageKit.Json.Read
import StorageKit.Proofs.Rounding
import Mathlib.Data.List.DropRight
import Mathlib.Tactic.IntervalCases

namespace StorageKit

theorem span_append {p : Char → Bool} {start rest : List Char} (hstart : ∀ c ∈ start, p c = true)
    (hrest : ∀ c ∈ rest.head?, p c = false) :
    (start ++ rest).takeWhile p = start ∧ (start ++ rest).dropWhile p = rest := by
  rw [List.takeWhile_append_of_pos hstart, List.dropWhile_append_of_pos hstart]
  cases rest with
  | nil => simp
  | cons c rest => simp [hrest c rfl]

namespace Numeral

/-! ### Digits -/

theorem toNat_of_isDigit {c : Char} (h : c.isDigit = true) : 48 ≤ c.toNat ∧ c.toNat ≤ 57 := by
  simp only [Char.isDigit, Bool.and_eq_true, decide_eq_true_eq] at h
  exact ⟨h.1, h.2⟩

theorem mem_of_isDigit {c : Char} (h : c.isDigit = true) :
    c ∈ ['0', '1', '2', '3', '4', '5', '6', '7', '8', '9'] := by
  obtain ⟨hlow, hhigh⟩ := toNat_of_isDigit h
  rw [← Char.ofNat_toNat c]
  generalize c.toNat = n at hlow hhigh
  interval_cases n <;> decide

theorem digit?_of_isDigit {c : Char} (h : c.isDigit = true) :
    digit? 10 c = some (c.toNat - '0'.toNat) := by
  have hrange := toNat_of_isDigit h
  have hle : '0' ≤ c ∧ c ≤ '9' := hrange
  simp [digit?, hle, Option.filter]
  omega

theorem isDigit_of_isDigit {c : Char} (h : c.isDigit = true) : isDigit c = true := by
  rw [isDigit, digit?_of_isDigit h]
  rfl

theorem decimalValue_eq {ds : List Char} (h : ∀ c ∈ ds, c.isDigit = true) :
    decimalValue ds = Nat.ofDigitChars 10 ds 0 := by
  refine List.foldl_ext _ _ 0 fun acc c hc => ?_
  rw [digit?_of_isDigit (h c hc), Nat.mul_comm]
  rfl

theorem digits_toDigits (n : Nat) : ∀ c ∈ Nat.toDigits 10 n, c.isDigit = true := fun _ hc =>
  Nat.isDigit_of_mem_toDigits (by decide) (by decide) hc

/-- Digits that begin a number. -/
structure Leading (ds : List Char) : Prop where
  digits : ∀ c ∈ ds, c.isDigit = true
  nonempty : ds ≠ []
  head : ds.head? ≠ some '0'

theorem Leading.isWhole {ds : List Char} (h : Leading ds) : isWhole ds = true := by
  unfold Numeral.isWhole
  split
  · rfl
  · exact absurd rfl h.head
  · simp only [Bool.and_eq_true, Bool.not_eq_true', List.isEmpty_eq_false_iff, List.all_eq_true]
    exact ⟨h.nonempty, fun c hc => isDigit_of_isDigit (h.digits c hc)⟩

theorem Leading.append {ds more : List Char} (h : Leading ds)
    (hmore : ∀ c ∈ more, c.isDigit = true) : Leading (ds ++ more) := by
  refine ⟨fun c hc => (List.mem_append.mp hc).elim (h.digits c) (hmore c), by simp [h.nonempty], ?_⟩
  rw [List.head?_append_of_ne_nil _ h.nonempty]
  exact h.head

theorem Leading.take {ds : List Char} {n : Nat} (h : Leading ds) (hne : ds.take n ≠ []) :
    Leading (ds.take n) := by
  refine ⟨fun c hc => h.digits c (List.mem_of_mem_take hc), hne, ?_⟩
  rw [List.head?_take]
  split
  · nofun
  · exact h.head

theorem leading_toDigits {n : Nat} (h : n ≠ 0) : Leading (Nat.toDigits 10 n) := by
  refine ⟨digits_toDigits n, Nat.toDigits_ne_nil, ?_⟩
  induction n using Nat.strongRecOn with
  | ind n ih =>
    rw [Nat.toDigits_eq_if (by decide)]
    split
    · next hlt =>
      have hdigit : ∀ d < 10, d ≠ 0 → [d.digitChar].head? ≠ some '0' := by decide
      exact hdigit n hlt h
    · next hge =>
      -- the first digit is that of the number without its last digit
      rw [List.head?_append_of_ne_nil _ Nat.toDigits_ne_nil]
      exact ih (n / 10) (by omega) (by omega)

/-- The zeros at the end of some digits are taken off and counted. -/
theorem dropZeros_eq (ds : List Char) (power : Int) :
    ∃ (kept : List Char) (zeros : Nat), ds = kept ++ List.replicate zeros '0' ∧
      Number.dropZeros ds power = (kept, power + zeros) := by
  have hsplit : ds.rdropWhile (· = '0') ++ ds.rtakeWhile (· = '0') = ds :=
    List.rdropWhile_append_rtakeWhile
  have hzeros : ds.rtakeWhile (· = '0') =
      List.replicate (ds.rtakeWhile (· = '0')).length '0' :=
    List.eq_replicate_of_mem fun c hc => by simpa using List.mem_rtakeWhile_imp hc
  refine ⟨ds.rdropWhile (· = '0'), (ds.rtakeWhile (· = '0')).length, ?_, ?_⟩
  · rw [← hzeros, hsplit]
  · have hlength := congrArg List.length hsplit
    rw [List.length_append] at hlength
    show (ds.rdropWhile (· = '0'),
      power + ((ds.length - (ds.rdropWhile (· = '0')).length : Nat) : Int)) = _
    congr 3
    omega

theorem Leading.of_append {kept : List Char} {zeros : Nat}
    (h : Leading (kept ++ List.replicate zeros '0')) : Leading kept := by
  have hne : kept ≠ [] := by
    rintro rfl
    cases zeros with
    | zero => exact h.nonempty rfl
    | succ zeros => exact h.head rfl
  refine ⟨fun c hc => h.digits c (List.mem_append_left _ hc), hne, ?_⟩
  rw [← List.head?_append_of_ne_nil _ hne]
  exact h.head

/-! ### Spellings -/

/-- The parts of a decimal without its sign. -/
structure Spelling where
  whole : List Char
  fraction : List Char
  exponent : Option Int

namespace Spelling

/-- The point and what follows it, if anything does. -/
def fractionChars (s : Spelling) : List Char :=
  if s.fraction = [] then [] else '.' :: s.fraction

/-- The letter of an exponent and what follows it, if there is one. -/
def exponentChars (s : Spelling) : List Char :=
  match s.exponent with
  | none => []
  | some e => 'e' :: (if e < 0 then '-' else '+') :: (toString e.natAbs).toList

def chars (s : Spelling) : List Char := s.whole ++ (s.fractionChars ++ s.exponentChars)

/-- All digits as one number. -/
def digits (s : Spelling) : Nat := Nat.ofDigitChars 10 (s.whole ++ s.fraction) 0

/-- The power of ten of the last digit. -/
def power (s : Spelling) : Int := s.exponent.getD 0 - s.fraction.length

/-- The digits are digits, and the whole part is written as it should be. -/
structure Proper (s : Spelling) : Prop where
  whole : ∀ c ∈ s.whole, c.isDigit = true
  isWhole : isWhole s.whole = true
  fraction : ∀ c ∈ s.fraction, c.isDigit = true

variable {s : Spelling}

theorem exponentChars_start (s : Spelling) : ∀ c ∈ s.exponentChars.head?, isDigit c = false := by
  rw [exponentChars]
  cases s.exponent with
  | none => nofun
  | some e =>
    intro c hc
    cases hc
    decide

theorem fractionChars_start (s : Spelling) :
    ∀ c ∈ (s.fractionChars ++ s.exponentChars).head?, isDigit c = false := by
  rw [fractionChars]
  split
  · exact s.exponentChars_start
  · intro c hc
    cases hc
    decide

theorem Proper.span_whole (h : s.Proper) :
    s.chars.takeWhile isDigit = s.whole ∧
      s.chars.dropWhile isDigit = s.fractionChars ++ s.exponentChars :=
  span_append (fun c hc => isDigit_of_isDigit (h.whole c hc)) s.fractionChars_start

theorem Proper.span_fraction (h : s.Proper) :
    (s.fraction ++ s.exponentChars).takeWhile isDigit = s.fraction ∧
      (s.fraction ++ s.exponentChars).dropWhile isDigit = s.exponentChars :=
  span_append (fun c hc => isDigit_of_isDigit (h.fraction c hc)) s.exponentChars_start

theorem Proper.exists_cons (h : s.Proper) : ∃ c cs, s.chars = c :: cs ∧ c.isDigit = true := by
  cases hwhole : s.whole with
  | nil =>
    have hnone := h.isWhole
    rw [hwhole] at hnone
    exact absurd hnone (by decide)
  | cons c cs =>
    refine ⟨c, cs ++ (s.fractionChars ++ s.exponentChars), ?_,
      h.whole c (hwhole ▸ List.mem_cons_self)⟩
    rw [chars, hwhole, List.cons_append]

theorem Proper.ne_minus (h : s.Proper) (cs : List Char) : s.chars ≠ '-' :: cs := by
  obtain ⟨c, cs', hcons, hc⟩ := h.exists_cons
  rw [hcons]
  rintro ⟨⟩
  exact absurd hc (by decide)

/-! ### Spellings as numbers of JSON -/

theorem isTail_point {more : List Char} (hfraction : more.takeWhile isDigit ≠ [])
    (hpoint : ∀ cs, more.dropWhile isDigit ≠ '.' :: cs) :
    isTail ('.' :: more) = isTail (more.dropWhile isDigit) := by
  rw [isTail, isTail]
  simp only [List.isEmpty_iff, hfraction, if_false]
  exact hpoint

theorem isTail_exponentChars (s : Spelling) : isTail s.exponentChars = true := by
  rw [exponentChars]
  cases s.exponent with
  | none => rfl
  | some e =>
    have hdigits : (Nat.toDigits 10 e.natAbs).all isDigit = true :=
      List.all_eq_true.mpr fun c hc => isDigit_of_isDigit (digits_toDigits e.natAbs c hc)
    have hexponent : ∀ sign, sign = '-' ∨ sign = '+' →
        isTail ('e' :: sign :: Nat.toDigits 10 e.natAbs) = true := by
      rintro sign (rfl | rfl) <;> simp [isTail, isExponent, hdigits]
    dsimp only
    rw [Nat.toString_eq_repr, Nat.toList_repr]
    refine hexponent _ ?_
    split
    · exact Or.inl rfl
    · exact Or.inr rfl

theorem Proper.isTail (h : s.Proper) : isTail (s.fractionChars ++ s.exponentChars) = true := by
  rw [fractionChars]
  split
  · exact s.isTail_exponentChars
  · next hne =>
    obtain ⟨htake, hdrop⟩ := h.span_fraction
    rw [List.cons_append, isTail_point (htake.symm ▸ hne), hdrop]
    · exact s.isTail_exponentChars
    · rw [hdrop, exponentChars]
      cases s.exponent <;> nofun

theorem Proper.isToken (h : s.Proper) :
    isToken s.chars = true ∧ isToken ('-' :: s.chars) = true := by
  obtain ⟨htake, hdrop⟩ := h.span_whole
  have hunsigned : (Numeral.isWhole (s.chars.takeWhile isDigit) &&
      Numeral.isTail (s.chars.dropWhile isDigit)) = true := by
    rw [htake, hdrop, h.isWhole, h.isTail]
    rfl
  refine ⟨?_, hunsigned⟩
  unfold Numeral.isToken
  split
  · next heq => exact absurd heq (h.ne_minus _)
  · exact hunsigned

theorem Proper.mem_chars (h : s.Proper) {c : Char} (hc : c ∈ s.chars) :
    c.isDigit = true ∨ c ∈ ['.', 'e', '-', '+'] := by
  rcases List.mem_append.mp hc with hc | hc
  · exact Or.inl (h.whole c hc)
  rcases List.mem_append.mp hc with hc | hc
  · rw [fractionChars] at hc
    split at hc
    · exact absurd hc List.not_mem_nil
    · rcases List.mem_cons.mp hc with rfl | hc
      · exact Or.inr (by decide)
      · exact Or.inl (h.fraction c hc)
  · rw [exponentChars] at hc
    cases hexponent : s.exponent with
    | none =>
      rw [hexponent] at hc
      exact absurd hc List.not_mem_nil
    | some e =>
      rw [hexponent] at hc
      dsimp only at hc
      rw [Nat.toString_eq_repr, Nat.toList_repr] at hc
      rcases List.mem_cons.mp hc with rfl | hc
      · exact Or.inr (by decide)
      rcases List.mem_cons.mp hc with rfl | hc
      · exact Or.inr (by split <;> decide)
      · exact Or.inl (digits_toDigits e.natAbs c hc)

/-- The characters of spellings with a sign. -/
def signedChars : List Char :=
  ['0', '1', '2', '3', '4', '5', '6', '7', '8', '9', '.', 'e', '-', '+']

theorem Proper.mem_signed (h : s.Proper) (negative : Bool) :
    ∀ c ∈ (if negative then ['-'] else []) ++ s.chars, c ∈ signedChars := by
  intro c hc
  rcases List.mem_append.mp hc with hc | hc
  · cases negative with
    | false => exact absurd hc List.not_mem_nil
    | true =>
      rw [List.mem_singleton.mp hc]
      decide
  · refine List.mem_append.mpr ((h.mem_chars hc).imp mem_of_isDigit id)

theorem Proper.isNumeric (h : s.Proper) (negative : Bool) :
    ∀ c ∈ (if negative then ['-'] else []) ++ s.chars, Json.Reader.isNumeric c = true := by
  have hall : signedChars.all Json.Reader.isNumeric = true := by decide
  exact fun c hc => List.all_eq_true.mp hall c (h.mem_signed negative c hc)

/-! ### Spellings as numbers -/

theorem exponent?_exponentChars (s : Spelling) :
    exponent? s.exponentChars = some (s.exponent.getD 0) := by
  rw [exponentChars]
  cases s.exponent with
  | none => rfl
  | some e =>
    have hdigits := digits_toDigits e.natAbs
    have hall : (Nat.toDigits 10 e.natAbs).all isDigit = true :=
      List.all_eq_true.mpr fun c hc => isDigit_of_isDigit (hdigits c hc)
    have hvalue : decimalValue (Nat.toDigits 10 e.natAbs) = e.natAbs := by
      rw [decimalValue_eq hdigits, Nat.ofDigitChars_ten_toDigits]
    dsimp only
    rw [Nat.toString_eq_repr, Nat.toList_repr]
    by_cases he : e < 0
    · simp [exponent?, he, hall, hvalue, abs_of_neg he]
    · simp [exponent?, he, hall, hvalue, not_lt.mp he]

/-- A decimal is read as the digits and the power of ten it is spelled with. -/
theorem Proper.decimal?_chars (h : s.Proper) (negative : Bool) :
    decimal? negative s.chars = some (Number.ofDecimal negative s.digits s.power) := by
  obtain ⟨htake, hdrop⟩ := h.span_whole
  have hne : s.whole ≠ [] := by
    intro hnil
    have hnone := h.isWhole
    rw [hnil] at hnone
    cases hnone
  have hvalue : decimalValue (s.whole ++ s.fraction) = s.digits :=
    decimalValue_eq fun c hc => (List.mem_append.mp hc).elim (h.whole c) (h.fraction c)
  have hexponent := s.exponent?_exponentChars
  unfold decimal?
  rw [htake, hdrop, fractionChars]
  by_cases hfraction : s.fraction = []
  · have hpoint : ∀ cs, s.exponentChars ≠ '.' :: cs := by
      rw [exponentChars]
      cases s.exponent <;> nofun
    rw [if_pos hfraction, List.nil_append]
    rw [hfraction, List.append_nil] at hvalue
    dsimp only
    split
    · next hcons => exact absurd hcons (hpoint _)
    · simp [hne, hexponent, hvalue, power, hfraction]
  · obtain ⟨htake', hdrop'⟩ := h.span_fraction
    rw [if_neg hfraction, List.cons_append]
    simp [htake', hdrop', hexponent, hvalue, hne, power]

/-! ### Layouts -/

/-- Digits in front of which there are only zeros stand for the same number, and so do digits with
zeros behind them that the power makes up for. -/
theorem value_eq {s : Spelling} {value : Nat} {power : Int} (zeros : Nat)
    (hdigits : s.digits = 10 ^ zeros * value) (hpower : s.power + zeros = power) :
    (s.digits : ℚ) * 10 ^ s.power = value * 10 ^ power := by
  have hten : (10 : ℚ) ≠ 0 := by norm_num
  rw [hdigits, ← hpower, zpow_add₀ hten, zpow_natCast]
  push_cast
  ring

theorem exists_spelling (l : Number.Layout) {ds : List Char} (h : Leading ds) (order : Int) :
    ∃ s : Spelling, s.Proper ∧ (l.set ds order).toList = s.chars ∧
      (s.digits : ℚ) * 10 ^ s.power = Nat.ofDigitChars 10 ds 0 * 10 ^ (order - ds.length) := by
  have hzeros : ∀ n, ∀ c ∈ List.replicate n '0', c.isDigit = true := by
    intro n c hc
    rw [List.eq_of_mem_replicate hc]
    decide
  unfold Number.Layout.set
  split
  · -- all digits stand in front of the point
    next hcase =>
    refine ⟨⟨ds ++ List.replicate (order - ds.length).toNat '0', [], none⟩, ⟨?_, ?_, ?_⟩, ?_,
      value_eq (order - ds.length).toNat ?_ ?_⟩
    · exact fun c hc => (List.mem_append.mp hc).elim (h.digits c) (hzeros _ c)
    · exact (h.append (hzeros _)).isWhole
    · exact fun c hc => absurd hc List.not_mem_nil
    · simp [chars, fractionChars, exponentChars]
    · simp [digits, Nat.ofDigitChars_append]
    · simp [power]
      omega
  split
  · next hcase =>
    have hwhole : ds.take order.toNat ≠ [] := by simp [h.nonempty]; omega
    have hfraction : ds.drop order.toNat ≠ [] := by simp; omega
    refine ⟨⟨ds.take order.toNat, ds.drop order.toNat, none⟩, ⟨?_, ?_, ?_⟩, ?_,
      value_eq 0 ?_ ?_⟩
    · exact fun c hc => h.digits c (List.mem_of_mem_take hc)
    · exact (h.take hwhole).isWhole
    · exact fun c hc => h.digits c (List.mem_of_mem_drop hc)
    · simp [chars, fractionChars, exponentChars, -List.drop_eq_nil_iff, hfraction]
    · simp [digits]
    · simp [power]
      omega
  split
  · next hcase =>
    refine ⟨⟨['0'], List.replicate (-order).toNat '0' ++ ds, none⟩, ⟨?_, rfl, ?_⟩, ?_,
      value_eq 0 ?_ ?_⟩
    · simp
    · exact fun c hc => (List.mem_append.mp hc).elim (hzeros _ c) (h.digits c)
    · simp [chars, fractionChars, exponentChars, h.nonempty]
    · simp [digits, Nat.ofDigitChars_cons, Nat.ofDigitChars_append]
    · simp [power]
      omega
  · cases ds with
    | nil => exact absurd rfl h.nonempty
    | cons d rest =>
      refine ⟨⟨[d], rest, some (order - 1)⟩, ⟨?_, ?_, ?_⟩, ?_,
        value_eq 0 ?_ ?_⟩
      · exact fun c hc => h.digits c (by simpa using Or.inl (List.mem_singleton.mp hc))
      · exact (h.take (n := 1) nofun).isWhole
      · exact fun c hc => h.digits c (List.mem_cons_of_mem _ hc)
      · cases rest <;> simp [chars, fractionChars, exponentChars]
      · simp [digits]
      · simp [power]
        omega

/-! ### Reading a spelling -/

section

variable {s : Spelling}

theorem trim_eq_self {cs : List Char} (h : ∀ c ∈ cs, Text.isBlank c = false) :
    Text.trim cs = cs := by
  have hdrop : ∀ l : List Char, (∀ c ∈ l, Text.isBlank c = false) →
      l.dropWhile Text.isBlank = l := by
    intro l hl
    cases l with
    | nil => rfl
    | cons c rest => simp [hl c List.mem_cons_self]
  rw [Text.trim, hdrop cs h, hdrop cs.reverse (by simpa using h), List.reverse_reverse]

/-- A decimal is not read as a numeral of another base. -/
theorem read?_eq_signed? {cs : List Char} (hne : cs ≠ []) (h : ∀ c ∈ cs, radix? c = none) :
    read? cs = signed? cs := by
  unfold read?
  split
  · exact absurd rfl hne
  · next c ds =>
    rw [h c (by simp)]
  · rfl

theorem Proper.signed? (h : s.Proper) (negative : Bool) :
    signed? ((if negative then ['-'] else []) ++ s.chars) =
      some (Number.ofDecimal negative s.digits s.power) := by
  have hdecimal := h.decimal?_chars negative
  obtain ⟨c, cs, hcons, hc⟩ := h.exists_cons
  have hminus : c ≠ '-' := by rintro rfl; exact absurd hc (by decide)
  have hplus : c ≠ '+' := by rintro rfl; exact absurd hc (by decide)
  have hinfinity : s.chars ≠ "Infinity".toList := by
    rw [hcons]
    intro heq
    rw [(List.cons.inj heq).1] at hc
    exact absurd hc (by decide)
  unfold Numeral.signed?
  cases negative with
  | true =>
    simp only [if_true, List.singleton_append]
    rw [if_neg hinfinity, hdecimal]
  | false =>
    simp only [Bool.false_eq_true, if_false, List.nil_append]
    rw [hcons] at hinfinity hdecimal ⊢
    split
    · next heq => exact absurd (List.cons.inj heq).1 hminus
    · next heq => exact absurd (List.cons.inj heq).1 hplus
    · rw [if_neg hinfinity, hdecimal]

/-- A spelling with a sign is read as what it stands for. -/
theorem Proper.ofText (h : s.Proper) (negative : Bool) {text : String}
    (htext : text.toList = (if negative then ['-'] else []) ++ s.chars) :
    Number.ofText text = Number.ofDecimal negative s.digits s.power := by
  have hmem : ∀ c ∈ text.toList, c ∈ signedChars := htext ▸ h.mem_signed negative
  have hplain : (signedChars.all fun c => !Text.isBlank c && (radix? c).isNone) = true := by decide
  have hchar : ∀ c ∈ text.toList, Text.isBlank c = false ∧ radix? c = none := by
    intro c hc
    simpa using List.all_eq_true.mp hplain c (hmem c hc)
  have hblank : ∀ c ∈ text.toList, Text.isBlank c = false := fun c hc => (hchar c hc).1
  have hradix : ∀ c ∈ text.toList, radix? c = none := fun c hc => (hchar c hc).2
  have hne : text.toList ≠ [] := by
    obtain ⟨c, cs, hcons, -⟩ := h.exists_cons
    rw [htext, hcons]
    simp
  rw [Number.ofText, trim_eq_self hblank, read?_eq_signed? hne hradix, htext, h.signed? negative,
    Option.getD_some]

end

end Spelling
end Numeral

namespace Number

open Numeral

/-- The text of a number is a spelling of its fewest digits. -/
theorem exists_spelling_text {m : Nat} (h : m ≠ 0) (negative : Bool) (e : Int) :
    ∃ s : Spelling, s.Proper ∧
      (finite negative m e).text.toList = (if negative then ['-'] else []) ++ s.chars ∧
      (s.digits : ℚ) * 10 ^ s.power = (shortest m e).1 * 10 ^ (shortest m e).2 := by
  obtain ⟨kept, zeros, hkept, hdrop⟩ :=
    dropZeros_eq (Nat.toDigits 10 (shortest m e).1) (shortest m e).2
  have hleading := leading_toDigits (shortest_ne_zero h e)
  rw [hkept] at hleading
  obtain ⟨s, hs, hchars, hvalue⟩ := Spelling.exists_spelling Layout.number hleading.of_append
    ((shortest m e).2 + zeros + kept.length)
  refine ⟨s, hs, ?_, ?_⟩
  · rw [text, if_neg h]
    dsimp only
    rw [hdrop]
    dsimp only
    rw [String.toList_append, hchars]
    cases negative <;> rfl
  · have hdigits : ((shortest m e).1 : ℚ) = Nat.ofDigitChars 10 kept 0 * 10 ^ (zeros : Int) := by
      have := congrArg (Nat.ofDigitChars 10 · 0) hkept
      simp [Nat.ofDigitChars_append] at this
      rw [this]
      push_cast
      rw [zpow_natCast, mul_comm]
    rw [hvalue, hdigits, mul_assoc, ← zpow_add₀ (by norm_num)]
    congr 2
    omega

/-! ### Reading the text of a number -/

/-- The text of a finite number is spelled properly, with a minus sign if it is negative. -/
theorem exists_spelling_of_isFinite {x : Number} (h : x.isFinite = true) :
    ∃ (s : Spelling) (negative : Bool), s.Proper ∧
      x.text.toList = (if negative then ['-'] else []) ++ s.chars := by
  cases x with
  | nan => cases h
  | infinite negative => cases h
  | finite negative m e =>
    by_cases hm : m = 0
    · refine ⟨⟨['0'], [], none⟩, false, ⟨by simp, rfl, nofun⟩, ?_⟩
      rw [text, if_pos hm]
      rfl
    · obtain ⟨s, hs, hchars, -⟩ := exists_spelling_text hm negative e
      exact ⟨s, negative, hs, hchars⟩

/-- **The text of a finite number is a number of JSON.** -/
theorem isToken_text {x : Number} (h : x.isFinite = true) : isToken x.text.toList = true := by
  obtain ⟨s, negative, hs, hchars⟩ := exists_spelling_of_isFinite h
  rw [hchars]
  cases negative with
  | false => exact hs.isToken.1
  | true => exact hs.isToken.2

theorem isNumeric_text {x : Number} (h : x.isFinite = true) :
    ∀ c ∈ x.text.toList, Json.Reader.isNumeric c = true := by
  obtain ⟨s, negative, hs, hchars⟩ := exists_spelling_of_isFinite h
  rw [hchars]
  exact hs.isNumeric negative

/-- A number of the 64-bit format: its significand and its exponent fit, unless it is zero. -/
def IsBinary64 : Number → Prop
  | .finite _ m e => m = 0 ∨ Fits m e
  | _ => True

instance : DecidablePred IsBinary64
  | .finite _ m e => inferInstanceAs (Decidable (m = 0 ∨ Fits m e))
  | .nan | .infinite _ => inferInstanceAs (Decidable True)

/-- **A number is read back from its text**, only the sign of a zero is lost. -/
theorem ofText_text {x : Number} (hfinite : x.isFinite = true) (h : x.IsBinary64) :
    ofText x.text = x.plainZero := by
  cases x with
  | nan => cases hfinite
  | infinite negative => cases hfinite
  | finite negative m e =>
    by_cases hm : m = 0
    · subst hm
      rw [text, if_pos rfl]
      rfl
    · obtain ⟨s, hs, hchars, hvalue⟩ := exists_spelling_text hm negative e
      have hfits : Fits m e := h.resolve_left hm
      have hholds := shortest_spec hfits
      rw [← hvalue] at hholds
      rw [hs.ofText negative hchars, ofDecimal_eq hfits negative hholds, plainZero]
      rintro _ _ ⟨⟩
      exact hm rfl

end Number
end StorageKit
