/-
Rounding, and the digits that undo it.

A decimal that lies in the interval of the reals that round to a number is read as this number, and
the fewest digits of a number lie in its interval:

* `Number.Fits` — the significands and exponents of the 64-bit format;
* `Number.Rounding.Holds` — a rational lies in the interval of a number;
* `Number.ofRatio_eq`, `Number.ofDecimal_eq` — **what lies in the interval of a number is rounded to
  this number**;
* `Number.shortest_spec` — **the fewest digits of a number lie in its interval**; seventeen of them
  are always enough.

Design notes: everything is said in rationals, in units of the last binary place.  Only numbers
just above a power of two need care, since the places below them are finer: a quotient below the
power is rounded at its own place, to twice the significand.  The decimal order of a number is found
from an estimate of the logarithm of two; that the estimate is good enough is checked for every
exponent of the format (`Number.estimate_le`).
-/
import StorageKit.Number.Text
import Mathlib.Data.Rat.Cast.Order
import Mathlib.Algebra.Order.Field.Power
import Mathlib.Tactic.FieldSimp
import Mathlib.Tactic.Linarith
import Mathlib.Tactic.Positivity
import Mathlib.Tactic.Ring

namespace StorageKit
namespace Number

/-! ### Powers -/

theorem raise_pos {base : Nat} (h : 0 < base) (e : Int) : 0 < raise base e := Nat.pow_pos h

theorem cast_raise_of_nonneg {base : Nat} {e : Int} (h : 0 ≤ e) :
    (raise base e : ℚ) = (base : ℚ) ^ e := by
  obtain ⟨n, rfl⟩ := Int.eq_ofNat_of_zero_le h
  simp [raise]

/-- A quotient of two powers is a power. -/
theorem raise_eq {base : Nat} (h : 0 < base) (e : Int) :
    (raise base e : ℚ) = (base : ℚ) ^ e * raise base (-e) := by
  have hbase : (base : ℚ) ≠ 0 := by exact_mod_cast h.ne'
  rcases le_total 0 e with he | he
  · have hone : raise base (-e) = 1 := by rw [raise, Int.toNat_of_nonpos (by omega)]; rfl
    rw [cast_raise_of_nonneg he, hone]
    simp
  · have hone : raise base e = 1 := by rw [raise, Int.toNat_of_nonpos he]; rfl
    rw [cast_raise_of_nonneg (by omega : 0 ≤ -e), hone, ← zpow_add₀ hbase]
    simp

theorem lt_of_zpow_le {q : ℚ} {a b : Int} (ha : (2 : ℚ) ^ a ≤ q) (hb : q < 2 ^ b) : a < b :=
  (zpow_lt_zpow_iff_right₀ (by norm_num)).mp (ha.trans_lt hb)

/-! ### Orders of magnitude -/

theorem log2_spec {n : Nat} (h : n ≠ 0) :
    (2 : ℚ) ^ (n.log2 : Int) ≤ n ∧ (n : ℚ) < 2 ^ ((n.log2 : Int) + 1) := by
  constructor
  · exact_mod_cast Nat.log2_self_le h
  · exact_mod_cast Nat.lt_log2_self

/-- The binary order of a quotient. -/
theorem binaryOrder_spec {num den : Nat} (hnum : num ≠ 0) (hden : den ≠ 0) :
    (2 : ℚ) ^ binaryOrder num den ≤ num / den ∧
      (num / den : ℚ) < 2 ^ (binaryOrder num den + 1) := by
  obtain ⟨hn, hn'⟩ := log2_spec hnum
  obtain ⟨hd, hd'⟩ := log2_spec hden
  have hpos : (0 : ℚ) < den := by positivity
  have htwo : (2 : ℚ) ≠ 0 := by norm_num
  rw [binaryOrder]
  set guess : Int := (num.log2 : Int) - den.log2 with hguess
  have hcond : den * raise 2 guess ≤ num * raise 2 (-guess) ↔ (2 : ℚ) ^ guess ≤ num / den := by
    rw [le_div_iff₀ hpos, ← Nat.cast_le (α := ℚ)]
    push_cast
    rw [raise_eq (by norm_num) guess]
    have hr : (0 : ℚ) < raise 2 (-guess) := by exact_mod_cast raise_pos (by norm_num) _
    push_cast
    rw [← mul_assoc, mul_le_mul_iff_left₀ hr, mul_comm]
  have hlow : (2 : ℚ) ^ (guess - 1) ≤ num / den := by
    rw [le_div_iff₀ hpos]
    calc (2 : ℚ) ^ (guess - 1) * den ≤ 2 ^ (guess - 1) * 2 ^ ((den.log2 : Int) + 1) := by gcongr
      _ = 2 ^ (num.log2 : Int) := by rw [← zpow_add₀ htwo]; congr 1; omega
      _ ≤ num := hn
  have hhigh : (num / den : ℚ) < 2 ^ (guess + 1) := by
    rw [div_lt_iff₀ hpos]
    calc (num : ℚ) < 2 ^ ((num.log2 : Int) + 1) := hn'
      _ = 2 ^ (guess + 1) * 2 ^ (den.log2 : Int) := by rw [← zpow_add₀ htwo]; congr 1; omega
      _ ≤ 2 ^ (guess + 1) * den := by gcongr
  split
  · next h => exact ⟨hcond.mp h, hhigh⟩
  · next h =>
    refine ⟨hlow, ?_⟩
    rw [sub_add_cancel]
    exact not_le.mp fun hle => h (hcond.mpr hle)

section
variable {num den : Nat} {place : Int} {t : ℚ}

/-- What is below a power of two in units of a place is of a lower order. -/
theorem binaryOrder_lt (hnum : num ≠ 0) (hden : den ≠ 0) (ht : (num / den : ℚ) = t * 2 ^ place)
    {order : Int} (h : t < 2 ^ order) : binaryOrder num den < order + place := by
  refine lt_of_zpow_le (binaryOrder_spec hnum hden).1 ?_
  rw [ht, zpow_add₀ (by norm_num)]
  exact mul_lt_mul_of_pos_right h (by positivity)

theorem le_binaryOrder (hnum : num ≠ 0) (hden : den ≠ 0) (ht : (num / den : ℚ) = t * 2 ^ place)
    {order : Int} (h : 2 ^ order ≤ t) : order + place ≤ binaryOrder num den := by
  refine Int.lt_add_one_iff.mp (lt_of_zpow_le ?_ (binaryOrder_spec hnum hden).2)
  rw [ht, zpow_add₀ (by norm_num)]
  exact mul_le_mul_of_nonneg_right h (by positivity)

end

/-- Between two halves around it, a quotient is rounded to the natural in the middle, and at the
halves too if that is even. -/
theorem roundHalfEven_eq {num den n : Nat} (hden : 0 < den) (hlow : 2 * n * den ≤ 2 * num + den)
    (hhigh : 2 * num ≤ 2 * n * den + den)
    (hodd : n % 2 = 1 → 2 * n * den < 2 * num + den ∧ 2 * num < 2 * n * den + den) :
    roundHalfEven num den = n := by
  have hdiv := Nat.div_add_mod num den
  have hmod := Nat.mod_lt num hden
  rw [roundHalfEven]
  generalize num / den = q at *
  generalize num % den = r at *
  -- the natural is the quotient rounded down or up
  have hqn : q ≤ n := by
    by_contra hlt
    have hmul : (n + 1) * den ≤ q * den := Nat.mul_le_mul_right den (by omega)
    nlinarith
  have hnq : n ≤ q + 1 := by
    by_contra hlt
    have hmul : (q + 2) * den ≤ n * den := Nat.mul_le_mul_right den (by omega)
    nlinarith
  subst hdiv
  obtain rfl | rfl : n = q ∨ n = q + 1 := by omega
  · have hle : 2 * r ≤ den := by nlinarith
    split
    · rfl
    · split
      · omega
      · split
        · rfl
        · have := (hodd (by omega)).2
          nlinarith
  · have hge : den ≤ 2 * r := by nlinarith
    split
    · omega
    · split
      · rfl
      · split
        · have := (hodd (by omega)).1
          nlinarith
        · rfl

theorem shiftTwos_eq {m : Nat} (hm : m % 2 = 1) (e : Int) (n fuel : Nat) (h : n ≤ fuel) :
    shiftTwos fuel (m * 2 ^ n) e = (m, e + n) := by
  induction n generalizing e fuel with
  | zero =>
    cases fuel with
    | zero => simp [shiftTwos]
    | succ fuel => simp [shiftTwos, hm]
  | succ n ih =>
    obtain ⟨fuel, rfl⟩ : ∃ k, fuel = k + 1 := ⟨fuel - 1, by omega⟩
    have heven : m * 2 ^ (n + 1) % 2 = 0 := by rw [pow_succ, ← mul_assoc]; omega
    have hhalf : m * 2 ^ (n + 1) / 2 = m * 2 ^ n := by rw [pow_succ, ← mul_assoc]; omega
    rw [shiftTwos, if_pos heven, hhalf, ih (e + 1) fuel (by omega)]
    simp
    omega

/-- Factors of two go into the exponent. -/
theorem ofParts_eq {m : Nat} (hm : m % 2 = 1) (negative : Bool) (e : Int) (n : Nat) :
    ofParts negative (m * 2 ^ n) e = .finite negative m (e + n) := by
  have hpos : m * 2 ^ n ≠ 0 := Nat.mul_ne_zero (by omega) (by positivity)
  have hfuel : n ≤ (m * 2 ^ n).log2 := by
    rw [Nat.le_log2 hpos]
    exact Nat.le_mul_of_pos_left _ (by omega)
  rw [ofParts, if_neg hpos, shiftTwos_eq hm e n _ hfuel]

/-! ### Numbers of the format -/

/-- An odd significand and an exponent of the 64-bit format. -/
structure Fits (m : Nat) (e : Int) : Prop where
  odd : m % 2 = 1
  small : m < 2 ^ 53
  least : leastExponent ≤ e
  bounded : (m.log2 : Int) + e < 1024

instance (m : Nat) (e : Int) : Decidable (Fits m e) :=
  decidable_of_iff (m % 2 = 1 ∧ m < 2 ^ 53 ∧ leastExponent ≤ e ∧ (m.log2 : Int) + e < 1024)
    ⟨fun ⟨h₁, h₂, h₃, h₄⟩ => ⟨h₁, h₂, h₃, h₄⟩, fun ⟨h₁, h₂, h₃, h₄⟩ => ⟨h₁, h₂, h₃, h₄⟩⟩

/-- A rational is in the interval. -/
structure Rounding.Holds (r : Rounding) (q : ℚ) : Prop where
  low : r.low * 2 ^ (r.place - 2) ≤ q
  high : q ≤ r.high * 2 ^ (r.place - 2)
  inside : r.closed = false → r.low * 2 ^ (r.place - 2) < q ∧ q < r.high * 2 ^ (r.place - 2)

/-- The last binary place of a number of the format, and its significand there. -/
theorem Fits.exists_significand {m : Nat} {e : Int} (h : Fits m e) :
    ∃ (place : Int) (n : Nat), e = place + n ∧ leastExponent ≤ place ∧ place ≤ 971 ∧
      m * 2 ^ n < 2 ^ 53 ∧ (place = leastExponent ∨ 2 ^ 52 ≤ m * 2 ^ n) ∧
      rounding m e =
        ⟨place,
          if m * 2 ^ n = 2 ^ 52 ∧ leastExponent < place then 4 * (m * 2 ^ n) - 1
          else 4 * (m * 2 ^ n) - 2, 4 * (m * 2 ^ n), 4 * (m * 2 ^ n) + 2, m * 2 ^ n % 2 = 0⟩ := by
  have hm : m ≠ 0 := by have := h.odd; omega
  have hlog : m.log2 ≤ 52 := by
    have := (Nat.log2_lt hm).mpr h.small
    omega
  have hleast := h.least
  have hbounded := h.bounded
  rw [leastExponent] at *
  obtain ⟨n, hn⟩ : ∃ n : Nat, e = max (-1074) ((m.log2 : Int) + e - 52) + n :=
    ⟨(e - max (-1074) ((m.log2 : Int) + e - 52)).toNat, by omega⟩
  refine ⟨max (-1074) ((m.log2 : Int) + e - 52), n, hn, by omega, by omega, ?_, ?_, ?_⟩
  · have hlt : m < 2 ^ (m.log2 + 1) := Nat.lt_log2_self
    calc m * 2 ^ n < 2 ^ (m.log2 + 1) * 2 ^ n := by gcongr
      _ = 2 ^ (m.log2 + 1 + n) := (pow_add ..).symm
      _ ≤ 2 ^ 53 := Nat.pow_le_pow_right (by norm_num) (by omega)
  · by_cases hplace : (m.log2 : Int) + e - 52 ≤ -1074
    · exact Or.inl (max_eq_left hplace)
    · right
      have hle : 2 ^ m.log2 ≤ m := Nat.log2_self_le hm
      calc 2 ^ 52 ≤ 2 ^ (m.log2 + n) := Nat.pow_le_pow_right (by norm_num) (by omega)
        _ = 2 ^ m.log2 * 2 ^ n := pow_add ..
        _ ≤ m * 2 ^ n := by gcongr
  · have hraise : raise 2 (e - max (-1074) ((m.log2 : Int) + e - 52)) = 2 ^ n := by
      rw [raise, show (e - max (-1074) ((m.log2 : Int) + e - 52)).toNat = n by omega]
      rfl
    have hraise' : raise 2 52 = 2 ^ 52 := rfl
    rw [rounding, leastExponent]
    simp only [hraise, hraise']

theorem roundHalfEven_of_rat {num den n : Nat} (hden : 0 < den) {t : ℚ} (ht : (num : ℚ) = t * den)
    (hlow : (n : ℚ) - 1 / 2 ≤ t) (hhigh : t ≤ n + 1 / 2)
    (hodd : n % 2 = 1 → (n : ℚ) - 1 / 2 < t ∧ t < n + 1 / 2) : roundHalfEven num den = n := by
  have hpos : (0 : ℚ) < den := by exact_mod_cast hden
  refine roundHalfEven_eq hden ?_ ?_ fun h => ⟨?_, ?_⟩
  · have : (2 * n * den : ℚ) ≤ 2 * num + den := by rw [ht]; nlinarith
    exact_mod_cast this
  · have : (2 * num : ℚ) ≤ 2 * n * den + den := by rw [ht]; nlinarith
    exact_mod_cast this
  · have := (hodd h).1
    have : (2 * n * den : ℚ) < 2 * num + den := by rw [ht]; nlinarith
    exact_mod_cast this
  · have := (hodd h).2
    have : (2 * num : ℚ) < 2 * n * den + den := by rw [ht]; nlinarith
    exact_mod_cast this

/-- A quotient that is rounded at the right place to the right significand. -/
theorem ofRatio_of_round {m k num den : Nat} {e p : Int} (h : Fits m e) (negative : Bool)
    (hnum : num ≠ 0) (hden : 0 < den) (he : e = p + k)
    (hplace : max leastExponent (binaryOrder num den - 52) = p)
    {t : ℚ} (ht : (num / den : ℚ) = t * 2 ^ p)
    (hlow : ((m * 2 ^ k : Nat) : ℚ) - 1 / 2 ≤ t) (hhigh : t ≤ (m * 2 ^ k : Nat) + 1 / 2)
    (hodd : m * 2 ^ k % 2 = 1 →
      ((m * 2 ^ k : Nat) : ℚ) - 1 / 2 < t ∧ t < (m * 2 ^ k : Nat) + 1 / 2) :
    ofRatio negative num den = .finite negative m e := by
  have hround : roundHalfEven (num * raise 2 (-p)) (den * raise 2 p) = m * 2 ^ k := by
    have hdenq : (den : ℚ) ≠ 0 := by exact_mod_cast hden.ne'
    refine roundHalfEven_of_rat (Nat.mul_pos hden (raise_pos (by norm_num) _)) ?_ hlow hhigh hodd
    have hnumq : (num : ℚ) = t * 2 ^ p * den := by rw [← ht]; field_simp
    push_cast
    rw [raise_eq (by norm_num) p, hnumq]
    push_cast
    ring
  have hbounded : ¬ (m * 2 ^ k ≠ 0 ∧ 1024 ≤ ((m * 2 ^ k).log2 : Int) + p) := by
    rintro ⟨hpos, hge⟩
    have hlt : (m * 2 ^ k).log2 < m.log2 + 1 + k := by
      rw [Nat.log2_lt hpos, pow_add]
      exact Nat.mul_lt_mul_of_pos_right Nat.lt_log2_self (by positivity)
    have := h.bounded
    omega
  rw [ofRatio, if_neg hnum]
  dsimp only
  rw [hplace, hround, if_neg hbounded, ofParts_eq h.odd, he]

section
variable {m n num den : Nat} {e place : Int} {t : ℚ}

/-- Just below the least power of two with its last place here, a quotient is rounded at the place
below, to twice the significand. -/
theorem ofRatio_of_below (h : Fits m e) (negative : Bool) (hnum : num ≠ 0) (hden : 0 < den)
    (he : e = place + n) (hpower : m * 2 ^ n = 2 ^ 52) (hplace : leastExponent < place)
    (ht : (num / den : ℚ) = t * 2 ^ place) (hlow : 2 ^ 52 - 1 / 4 ≤ t) (hlt : t < 2 ^ 52) :
    ofRatio negative num den = .finite negative m e := by
  have hbelow : binaryOrder num den < 52 + place :=
    binaryOrder_lt hnum hden.ne' ht (by exact_mod_cast hlt)
  have habove : 51 + place ≤ binaryOrder num den := by
    refine le_binaryOrder hnum hden.ne' ht ?_
    norm_num at hlow ⊢
    linarith
  have hdouble : m * 2 ^ (n + 1) = 2 ^ 53 := by rw [pow_succ, ← mul_assoc, hpower]; norm_num
  refine ofRatio_of_round (k := n + 1) (p := place - 1) (t := 2 * t) h negative hnum hden
    (by push_cast; omega) (by omega) ?_ ?_ ?_ ?_
  · rw [ht, zpow_sub_one₀ (by norm_num)]
    ring
  · rw [hdouble]
    norm_num at hlow ⊢
    linarith
  · rw [hdouble]
    norm_num at hlt ⊢
    linarith
  · rw [hdouble]
    intro hodd
    norm_num at hodd

/-- At the least place, or if it is not below the least power of two with its last place here, a
quotient is rounded at this place. -/
theorem ofRatio_of_not_below (h : Fits m e) (negative : Bool) (hnum : num ≠ 0) (hden : 0 < den)
    (he : e = place + n) (hleast : leastExponent ≤ place) (hsmall : m * 2 ^ n < 2 ^ 53)
    (ht : (num / den : ℚ) = t * 2 ^ place) (hlarge : place = leastExponent ∨ 2 ^ 52 ≤ t)
    (hlow : ((m * 2 ^ n : Nat) : ℚ) - 1 / 2 ≤ t) (hhigh : t ≤ (m * 2 ^ n : Nat) + 1 / 2)
    (hodd : m * 2 ^ n % 2 = 1 →
      ((m * 2 ^ n : Nat) : ℚ) - 1 / 2 < t ∧ t < (m * 2 ^ n : Nat) + 1 / 2) :
    ofRatio negative num den = .finite negative m e := by
  have hbelow : binaryOrder num den < 53 + place := by
    have hsmall' : ((m * 2 ^ n : Nat) : ℚ) + 1 ≤ 2 ^ 53 := by exact_mod_cast hsmall
    have hlt : t < 2 ^ 53 := by linarith
    exact binaryOrder_lt hnum hden.ne' ht (by exact_mod_cast hlt)
  refine ofRatio_of_round h negative hnum hden he ?_ ht hlow hhigh hodd
  rcases hlarge with heq | hlarge
  · omega
  · have habove : 52 + place ≤ binaryOrder num den :=
      le_binaryOrder hnum hden.ne' ht (by exact_mod_cast hlarge)
    omega

end

/-- **A quotient in the interval of a number is rounded to this number.** -/
theorem ofRatio_eq {m num den : Nat} {e : Int} (h : Fits m e) (negative : Bool) (hnum : num ≠ 0)
    (hden : 0 < den) (hq : (rounding m e).Holds (num / den)) :
    ofRatio negative num den = .finite negative m e := by
  obtain ⟨place, n, he, hleast, -, hsmall, hlarge, hr⟩ := h.exists_significand
  -- the quotient in units of the last place
  obtain ⟨t, ht⟩ : ∃ t : ℚ, (num / den : ℚ) = t * 2 ^ place :=
    ⟨num / den / 2 ^ place, by field_simp⟩
  have hquarters : (num / den : ℚ) = 4 * t * 2 ^ (place - 2) := by
    rw [ht, show place = 2 + (place - 2) by omega, zpow_add₀ (by norm_num)]
    norm_num
    ring
  have hu : (0 : ℚ) < 2 ^ (place - 2) := by positivity
  rw [hr] at hq
  obtain ⟨hlow, hhigh, hinside⟩ := hq
  dsimp only at hlow hhigh hinside
  rw [hquarters] at hlow hhigh hinside
  rw [mul_le_mul_iff_left₀ hu] at hlow hhigh
  rw [mul_lt_mul_iff_left₀ hu, mul_lt_mul_iff_left₀ hu] at hinside
  have hpos : 1 ≤ m * 2 ^ n := Nat.mul_pos (by have := h.odd; omega) (by positivity)
  by_cases hbelow : m * 2 ^ n = 2 ^ 52 ∧ leastExponent < place ∧ t < 2 ^ 52
  · obtain ⟨hpower, hplace, hlt⟩ := hbelow
    refine ofRatio_of_below h negative hnum hden he hpower hplace ht ?_ hlt
    rw [if_pos ⟨hpower, hplace⟩, hpower] at hlow
    norm_num at hlow ⊢
    linarith
  · have hlower : ((m * 2 ^ n : Nat) : ℚ) - 1 / 2 ≤ t := by
      split at hlow <;>
      · rw [Nat.cast_sub (by omega)] at hlow
        push_cast at hlow ⊢
        linarith
    refine ofRatio_of_not_below h negative hnum hden he hleast hsmall ht ?_ hlower ?_ ?_
    · rcases hleast.eq_or_lt with heq | hplace
      · exact Or.inl heq.symm
      · right
        rcases (hlarge.resolve_left hplace.ne').eq_or_lt with hpower | hgreater
        · exact not_lt.mp fun hlt => hbelow ⟨hpower.symm, hplace, hlt⟩
        · have hgreater' : (2 : ℚ) ^ 52 + 1 ≤ (m * 2 ^ n : Nat) := by exact_mod_cast hgreater
          linarith
    · push_cast at hhigh ⊢
      linarith
    · intro hodd
      obtain ⟨hl, hh⟩ := hinside (by simp [hodd])
      rw [if_neg (by rintro ⟨hpower, -⟩; omega), Nat.cast_sub (by omega)] at hl
      push_cast at hl hh ⊢
      constructor <;> linarith

/-! ### The fewest digits -/

/-- The decimal order of a power of two is at most one above its estimate. -/
theorem estimate_le : ∀ i : Fin 2098,
    let order : Int := (i : Int) - 1074
    let estimate := Int.fdiv (order * 30103) 100000
    raise 10 (estimate - 1) * raise 2 (-order) ≤ raise 2 order * raise 10 (-(estimate - 1)) := by
  decide +kernel

theorem isBelow_iff {m : Nat} {e p : Int} : isBelow m e p = true ↔ (m * 2 ^ e : ℚ) < 10 ^ p := by
  have hten : (0 : ℚ) < raise 10 (-p) := by exact_mod_cast raise_pos (by norm_num) _
  have htwo : (0 : ℚ) < raise 2 (-e) := by exact_mod_cast raise_pos (by norm_num) _
  rw [isBelow, decide_eq_true_iff, ← Nat.cast_lt (α := ℚ)]
  push_cast
  rw [raise_eq (by norm_num) p, raise_eq (by norm_num) e]
  push_cast
  have hleft : (m * (2 ^ e * raise 2 (-e)) * raise 10 (-p) : ℚ) =
      m * 2 ^ e * (raise 2 (-e) * raise 10 (-p)) := by ring
  have hright : (10 ^ p * raise 10 (-p) * raise 2 (-e) : ℚ) =
      10 ^ p * (raise 2 (-e) * raise 10 (-p)) := by ring
  rw [hleft, hright, mul_lt_mul_iff_left₀ (mul_pos htwo hten)]

/-- A number of the format is not below the power of ten before its decimal order. -/
theorem le_of_decimalOrder {m : Nat} {e : Int} (h : Fits m e) :
    (10 : ℚ) ^ (decimalOrder m e - 1) ≤ m * 2 ^ e := by
  have hm : m ≠ 0 := by have := h.odd; omega
  have hleast := h.least
  have hbounded := h.bounded
  rw [leastExponent] at hleast
  rw [decimalOrder]
  set guess := Int.fdiv (((m.log2 : Int) + e) * 30103) 100000 with hguess
  split
  · -- the estimate is right, and a power of two that is not above the number is large enough
    obtain ⟨i, heq⟩ : ∃ i : Fin 2098, (i : Int) - 1074 = m.log2 + e :=
      ⟨⟨((m.log2 : Int) + e + 1074).toNat, by omega⟩, by simp; omega⟩
    have hestimate := estimate_le i
    dsimp only at hestimate
    rw [heq, ← hguess, ← Nat.cast_le (α := ℚ)] at hestimate
    push_cast at hestimate
    rw [raise_eq (by norm_num) (guess - 1), raise_eq (by norm_num) ((m.log2 : Int) + e)]
      at hestimate
    have hten : (0 : ℚ) < raise 10 (-(guess - 1)) := by exact_mod_cast raise_pos (by norm_num) _
    have htwo : (0 : ℚ) < raise 2 (-((m.log2 : Int) + e)) := by
      exact_mod_cast raise_pos (by norm_num) _
    push_cast at hestimate
    have hle : (10 : ℚ) ^ (guess - 1) ≤ 2 ^ ((m.log2 : Int) + e) := by
      refine le_of_mul_le_mul_right ?_ (mul_pos hten htwo)
      linarith
    refine hle.trans ?_
    rw [zpow_add₀ (by norm_num)]
    exact mul_le_mul_of_nonneg_right (log2_spec hm).1 (by positivity)
  · split
    · next hnot _ =>
      rw [isBelow_iff, not_lt] at hnot
      simpa using hnot
    · next hnot =>
      rw [isBelow_iff, not_lt] at hnot
      rwa [show guess + 2 - 1 = guess + 1 by omega]

section

variable (r : Rounding) (power : Int)

/-- A point of a decimal grid is inside an interval. -/
def Rounding.inside (d : Nat) : Bool :=
  let unit := raise 10 power * raise 2 (2 - r.place)
  let quarter := raise 10 (-power) * raise 2 (r.place - 2)
  if r.closed then r.low * quarter ≤ d * unit && d * unit ≤ r.high * quarter
  else r.low * quarter < d * unit && d * unit < r.high * quarter

/-- The grid and the quarters of the interval have a common measure. -/
theorem exists_measure : ∃ c : ℚ, 0 < c ∧
    (∀ d : Nat, ((d * (raise 10 power * raise 2 (2 - r.place)) : Nat) : ℚ) = d * 10 ^ power * c) ∧
    ∀ n : Nat, ((n * (raise 10 (-power) * raise 2 (r.place - 2)) : Nat) : ℚ) =
      n * 2 ^ (r.place - 2) * c := by
  refine ⟨raise 10 (-power) * raise 2 (2 - r.place), ?_, fun d => ?_, fun n => ?_⟩
  · exact_mod_cast Nat.mul_pos (raise_pos (by norm_num) _) (raise_pos (by norm_num) _)
  · push_cast
    rw [raise_eq (by norm_num) power]
    push_cast
    ring
  · push_cast
    rw [raise_eq (by norm_num) (r.place - 2), neg_sub]
    push_cast
    ring

theorem Rounding.inside_iff (d : Nat) : r.inside power d = true ↔ r.Holds (d * 10 ^ power) := by
  obtain ⟨c, hc, hunit, hquarter⟩ := exists_measure r power
  rw [inside]
  cases hclosed : r.closed with
  | true =>
    simp only [if_true, Bool.and_eq_true, decide_eq_true_eq, ← Nat.cast_le (α := ℚ), hunit,
      hquarter, mul_le_mul_iff_left₀ hc]
    exact ⟨fun h => ⟨h.1, h.2, by simp [hclosed]⟩, fun h => ⟨h.low, h.high⟩⟩
  | false =>
    simp only [Bool.false_eq_true, if_false, Bool.and_eq_true, decide_eq_true_eq,
      ← Nat.cast_lt (α := ℚ), hunit, hquarter, mul_lt_mul_iff_left₀ hc]
    exact ⟨fun h => ⟨h.1.le, h.2.le, fun _ => h⟩, fun h => h.inside hclosed⟩

theorem onGrid?_eq :
    onGrid? r power =
      let unit := raise 10 power * raise 2 (2 - r.place)
      let target := r.value * (raise 10 (-power) * raise 2 (r.place - 2))
      let below := target / unit
      match r.inside power below, r.inside power (below + 1) with
      | true, false => some below
      | false, true => some (below + 1)
      | false, false => none
      | true, true =>
        let under := target - below * unit
        let beyond := (below + 1) * unit - target
        if under < beyond then some below
        else if beyond < under then some (below + 1)
        else if below % 2 = 0 then some below else some (below + 1) :=
  rfl

/-- What is found on the grid is inside the interval, and if nothing is found, neither of the two
neighbours of the value is inside. -/
theorem onGrid?_cases :
    (∃ d, onGrid? r power = some d ∧ r.inside power d = true) ∨
    onGrid? r power = none ∧ ∃ below : Nat,
      r.inside power below = false ∧ r.inside power (below + 1) = false ∧
      (below * 10 ^ power : ℚ) ≤ r.value * 2 ^ (r.place - 2) ∧
      (r.value * 2 ^ (r.place - 2) : ℚ) < (below + 1 : Nat) * 10 ^ power := by
  obtain ⟨c, hc, hunit, hquarter⟩ := exists_measure r power
  have hpos : 0 < raise 10 power * raise 2 (2 - r.place) :=
    Nat.mul_pos (raise_pos (by norm_num) _) (raise_pos (by norm_num) _)
  rw [onGrid?_eq]
  dsimp only
  set below := r.value * (raise 10 (-power) * raise 2 (r.place - 2)) /
    (raise 10 power * raise 2 (2 - r.place)) with hbelow
  split
  · next h _ => exact Or.inl ⟨_, rfl, h⟩
  · next _ h => exact Or.inl ⟨_, rfl, h⟩
  · next h h' =>
    refine Or.inr ⟨rfl, below, h, h', ?_, ?_⟩
    · rw [← mul_le_mul_iff_left₀ hc, ← hunit, ← hquarter, Nat.cast_le]
      exact Nat.div_mul_le_self _ _
    · rw [← mul_lt_mul_iff_left₀ hc, ← hunit, ← hquarter, Nat.cast_lt]
      rw [mul_comm (below + 1)]
      exact Nat.lt_mul_div_succ _ hpos
  · next h h' =>
    refine Or.inl ?_
    split
    · exact ⟨_, rfl, h⟩
    · split
      · exact ⟨_, rfl, h'⟩
      · split
        · exact ⟨_, rfl, h⟩
        · exact ⟨_, rfl, h'⟩

/-- On a grid that is finer than the interval there is a point inside. -/
theorem exists_onGrid? (hlow : r.low < r.value) (hhigh : r.value < r.high)
    (hfine : (10 : ℚ) ^ power < (r.high - r.low) * 2 ^ (r.place - 2)) :
    ∃ d, onGrid? r power = some d := by
  rcases onGrid?_cases r power with ⟨d, hd, -⟩ | ⟨-, below, hbelow, habove, hle, hlt⟩
  · exact ⟨d, hd⟩
  exfalso
  rw [Bool.eq_false_iff, ne_eq, Rounding.inside_iff] at hbelow habove
  have hquarter : (0 : ℚ) < 2 ^ (r.place - 2) := by positivity
  have hlow' : (r.low * 2 ^ (r.place - 2) : ℚ) < r.value * 2 ^ (r.place - 2) := by gcongr
  have hhigh' : (r.value * 2 ^ (r.place - 2) : ℚ) < r.high * 2 ^ (r.place - 2) := by gcongr
  -- both neighbours are outside, so the grid is not finer
  have hunder : (below * 10 ^ power : ℚ) ≤ r.low * 2 ^ (r.place - 2) := by
    by_contra hinside
    rw [not_le] at hinside
    exact hbelow ⟨hinside.le, (hle.trans_lt hhigh').le, fun _ => ⟨hinside, hle.trans_lt hhigh'⟩⟩
  have hbeyond : (r.high * 2 ^ (r.place - 2) : ℚ) ≤ (below + 1 : Nat) * 10 ^ power := by
    by_contra hinside
    rw [not_le] at hinside
    exact habove ⟨(hlow'.trans hlt).le, hinside.le, fun _ => ⟨hlow'.trans hlt, hinside⟩⟩
  push_cast at hbeyond
  linarith

end

/-- A grid with seventeen digits is finer than the interval. -/
theorem Fits.exists_onGrid? {m : Nat} {e : Int} (h : Fits m e) :
    ∃ d, onGrid? (rounding m e) (decimalOrder m e - 1 - 16) = some d := by
  obtain ⟨place, n, he, -, -, hsmall, -, hr⟩ := h.exists_significand
  have hten := le_of_decimalOrder h
  obtain ⟨s, hs⟩ : ∃ s, m * 2 ^ n = s := ⟨_, rfl⟩
  have hspos : 1 ≤ s := by
    rw [← hs]
    exact Nat.mul_pos (by have := h.odd; omega) (by positivity)
  have hvalue : (m * 2 ^ e : ℚ) = 4 * s * 2 ^ (place - 2) := by
    rw [he, ← hs, show place = 2 + (place - 2) by omega, zpow_add₀ (by norm_num),
      zpow_add₀ (by norm_num)]
    push_cast
    rw [zpow_natCast]
    norm_num
    ring
  have hquarter : (0 : ℚ) < 2 ^ (place - 2) := by positivity
  rw [hs] at hr hsmall
  have hlow : (rounding m e).low < 4 * s := by
    rw [hr]
    dsimp only
    split <;> omega
  have hwidth : (4 * s : ℚ) < ((rounding m e).high - (rounding m e).low) * 10 ^ 16 := by
    rw [hr]
    dsimp only
    split
    · next hnarrow =>
      rw [hnarrow.1]
      norm_num
    · have hs53 : (s : ℚ) + 1 ≤ 2 ^ 53 := by exact_mod_cast hsmall
      rw [Nat.cast_sub (by omega)]
      push_cast
      linarith
  refine Number.exists_onGrid? _ _ (by rw [hr] at hlow ⊢; exact hlow) (by rw [hr]; simp) ?_
  have hplace : (rounding m e).place = place := by rw [hr]
  rw [zpow_sub₀ (by norm_num), div_lt_iff₀ (by norm_num), hplace]
  calc (10 : ℚ) ^ (decimalOrder m e - 1) ≤ 4 * s * 2 ^ (place - 2) := hvalue ▸ hten
    _ < ((rounding m e).high - (rounding m e).low) * 10 ^ 16 * 2 ^ (place - 2) := by gcongr
    _ = ((rounding m e).high - (rounding m e).low) * 2 ^ (place - 2) * 10 ^ (16 : Int) := by
      rw [zpow_ofNat]
      ring

/-- The digits that are looked for are inside the interval, if there are any on seventeen grids. -/
theorem shortest_cases (m : Nat) (e : Int) :
    (rounding m e).Holds ((shortest m e).1 * 10 ^ (shortest m e).2) ∨
      shortest m e = (m * raise 2 e, 0) ∧
        ∀ n : Nat, n < 17 → onGrid? (rounding m e) (decimalOrder m e - 1 - (n : Int)) = none := by
  have hshortest : shortest m e = ((List.range 17).findSome? fun (n : Nat) =>
      (onGrid? (rounding m e) (decimalOrder m e - 1 - (n : Int))).map fun d =>
        (d, decimalOrder m e - 1 - (n : Int))).getD (m * raise 2 e, 0) := rfl
  cases hfound : (List.range 17).findSome? fun (n : Nat) =>
      (onGrid? (rounding m e) (decimalOrder m e - 1 - (n : Int))).map fun d =>
        (d, decimalOrder m e - 1 - (n : Int)) with
  | none =>
    rw [hfound, Option.getD_none] at hshortest
    refine Or.inr ⟨hshortest, fun n hn => ?_⟩
    exact Option.map_eq_none_iff.mp
      (List.findSome?_eq_none_iff.mp hfound n (List.mem_range.mpr hn))
  | some found =>
    rw [hfound, Option.getD_some] at hshortest
    obtain ⟨k, -, hk⟩ := List.exists_of_findSome?_eq_some hfound
    obtain ⟨d, hd, rfl⟩ := Option.map_eq_some_iff.mp hk
    left
    rw [hshortest, ← Rounding.inside_iff]
    rcases onGrid?_cases (rounding m e) (decimalOrder m e - 1 - (k : Int)) with
      ⟨d', hd', hinside⟩ | ⟨hnone, -⟩
    · rw [hd] at hd'
      obtain rfl := Option.some.inj hd'
      exact hinside
    · rw [hd] at hnone
      cases hnone

/-- There is always a digit that is no zero. -/
theorem shortest_ne_zero {m : Nat} (h : m ≠ 0) (e : Int) : (shortest m e).1 ≠ 0 := by
  rcases shortest_cases m e with hholds | ⟨hexact, -⟩
  · have hpos : 0 < m * raise 2 (e - max leastExponent ((m.log2 : Int) + e - 52)) :=
      Nat.mul_pos (Nat.pos_of_ne_zero h) (raise_pos (by norm_num) _)
    have hlow : 0 < (rounding m e).low := by
      rw [rounding]
      dsimp only
      split <;> omega
    intro hzero
    have hle := hholds.low
    rw [hzero, Nat.cast_zero, zero_mul] at hle
    exact absurd hle (not_le.mpr (by positivity))
  · rw [hexact]
    exact Nat.mul_ne_zero h (raise_pos (by norm_num) _).ne'

/-- **The fewest digits of a number are in its interval.**  Seventeen digits are enough. -/
theorem shortest_spec {m : Nat} {e : Int} (h : Fits m e) :
    (rounding m e).Holds ((shortest m e).1 * 10 ^ (shortest m e).2) := by
  rcases shortest_cases m e with hholds | ⟨-, hnone⟩
  · exact hholds
  · obtain ⟨d, hd⟩ := h.exists_onGrid?
    have hlast := hnone 16 (by norm_num)
    rw [Nat.cast_ofNat, hd] at hlast
    cases hlast

/-! ### Decimals -/

theorem two_zpow_lt_ten_zpow : (2 : ℚ) ^ (1100 : Int) < 10 ^ (400 : Int) := by
  rw [show (1100 : Int) = 11 * 100 from rfl, show (400 : Int) = 4 * 100 from rfl, zpow_mul,
    zpow_mul]
  exact zpow_lt_zpow_left₀ (by norm_num) (by norm_num) (by norm_num)

/-- The interval of a number of the format is well within the powers of ten that are computed. -/
theorem Fits.bounds {m : Nat} {e : Int} {q : ℚ} (h : Fits m e) (hq : (rounding m e).Holds q) :
    (10 : ℚ) ^ (-400 : Int) ≤ q ∧ q < 10 ^ (400 : Int) := by
  obtain ⟨place, n, -, hleast, hplace, hsmall, -, hr⟩ := h.exists_significand
  have hspos : 1 ≤ m * 2 ^ n := Nat.mul_pos (by have := h.odd; omega) (by positivity)
  have hlow := hq.low
  have hhigh := hq.high
  rw [hr] at hlow hhigh
  dsimp only at hlow hhigh
  rw [leastExponent] at hleast
  generalize m * 2 ^ n = s at *
  constructor
  · have hone : (1 : ℚ) ≤
        ((if s = 2 ^ 52 ∧ leastExponent < place then 4 * s - 1 else 4 * s - 2 : Nat) : ℚ) := by
      exact_mod_cast (by split <;> omega)
    have hten : (10 : ℚ) ^ (-400 : Int) ≤ 2 ^ (-1100 : Int) := by
      rw [zpow_neg, zpow_neg]
      exact inv_anti₀ (by positivity) two_zpow_lt_ten_zpow.le
    calc (10 : ℚ) ^ (-400 : Int) ≤ 2 ^ (-1100 : Int) := hten
      _ ≤ 2 ^ (place - 2) := zpow_le_zpow_right₀ (by norm_num) (by omega)
      _ ≤ _ := le_mul_of_one_le_left (by positivity) hone
      _ ≤ q := hlow
  · have hsmall' : ((4 * s + 2 : Nat) : ℚ) ≤ 2 ^ (56 : Int) := by
      exact_mod_cast (by omega : 4 * s + 2 ≤ 2 ^ 56)
    calc q ≤ _ := hhigh
      _ ≤ 2 ^ (56 : Int) * 2 ^ (place - 2) := by gcongr
      _ = 2 ^ (56 + (place - 2)) := (zpow_add₀ (by norm_num) _ _).symm
      _ ≤ 2 ^ (1100 : Int) := zpow_le_zpow_right₀ (by norm_num) (by omega)
      _ < 10 ^ (400 : Int) := two_zpow_lt_ten_zpow

/-- **A decimal in the interval of a number is read as this number.** -/
theorem ofDecimal_eq {m d : Nat} {e power : Int} (h : Fits m e) (negative : Bool)
    (hq : (rounding m e).Holds (d * 10 ^ power)) :
    ofDecimal negative d power = .finite negative m e := by
  obtain ⟨hleast, hmost⟩ := h.bounds hq
  have hd : d ≠ 0 := by
    rintro rfl
    rw [Nat.cast_zero, zero_mul] at hleast
    exact absurd hleast (not_le.mpr (by positivity))
  -- the order is that of the decimal
  have hten : (10 : ℚ) ≠ 0 := by norm_num
  have hlength := Nat.length_toDigits_pos (b := 10) (n := d)
  have hbelow : (d * 10 ^ power : ℚ) < 10 ^ (power + ((Nat.toDigits 10 d).length : Int)) := by
    have hlt : d < 10 ^ (Nat.toDigits 10 d).length :=
      (Nat.length_toDigits_le_iff (by norm_num) hlength).mp le_rfl
    rw [zpow_add₀ hten, mul_comm, zpow_natCast]
    exact mul_lt_mul_of_pos_left (by exact_mod_cast hlt) (by positivity)
  have habove : (10 : ℚ) ^ (power + ((Nat.toDigits 10 d).length : Int) - 1) ≤ d * 10 ^ power := by
    have hle : 10 ^ ((Nat.toDigits 10 d).length - 1) ≤ d := by
      by_contra hlt
      rw [not_le] at hlt
      by_cases hone : (Nat.toDigits 10 d).length - 1 = 0
      · rw [hone] at hlt
        omega
      · have := (Nat.length_toDigits_le_iff (by norm_num) (Nat.pos_of_ne_zero hone)).mpr hlt
        omega
    rw [add_sub_assoc, zpow_add₀ hten, mul_comm, ← Nat.cast_pred hlength, zpow_natCast]
    exact mul_le_mul_of_nonneg_right (by exact_mod_cast hle) (by positivity)
  have hmin : -400 < power + ((Nat.toDigits 10 d).length : Int) :=
    (zpow_lt_zpow_iff_right₀ (by norm_num : (1 : ℚ) < 10)).mp (hleast.trans_lt hbelow)
  have hmax : power + ((Nat.toDigits 10 d).length : Int) - 1 < 400 :=
    (zpow_lt_zpow_iff_right₀ (by norm_num : (1 : ℚ) < 10)).mp (habove.trans_lt hmost)
  rw [ofDecimal, if_neg hd, if_neg (by omega), if_neg (by omega)]
  have hpos := raise_pos (by norm_num : 0 < 10) power
  have hpos' := raise_pos (by norm_num : 0 < 10) (-power)
  refine ofRatio_eq h negative (Nat.mul_ne_zero hd hpos.ne') hpos' ?_
  have hposq : (raise 10 (-power) : ℚ) ≠ 0 := by exact_mod_cast hpos'.ne'
  have hratio : ((d * raise 10 power : Nat) : ℚ) / raise 10 (-power) = d * 10 ^ power := by
    push_cast
    rw [raise_eq (by norm_num) power]
    push_cast
    field_simp
  rwa [hratio]

end Number
end StorageKit
