/-
The order of ranks, and the difference that decides it.

Ranks are compared as the values they stand for, with the infinities at the two ends.  The tickets
of a pool go by the difference of their ranks instead, and by their numbers if the difference says
nothing:

* `Number.value` — the value of a number, between the infinities;
* `Number.lt_iff` — **the order of ranks is the order of their values**: a linear order up to the
  sign of a zero, with `nan` outside of it;
* `Number.minus`, `Number.sign` — the rounded difference of two numbers, and what it says;
* `Ticket.order_eq_difference` — **the order of tickets is what the difference of the ranks says,
  then the order of their numbers**.

Design notes: a difference is rounded, so it could be zero for ranks that are not the same.  It is
not, since the numbers of the format are multiples of the least of them, and a multiple of it is
never rounded to zero.  Equal infinities have no difference, which says nothing, as a zero does.
-/
import StorageKit.Pool.Searched
import StorageKit.Proofs.Rounding
import Mathlib.Order.WithBot

namespace StorageKit
namespace Number

variable {a b c : Number}

/-- The value of a number, between the infinities; that of `nan` means nothing. -/
def value : Number → WithBot (WithTop ℚ)
  | .nan => ⊥
  | .infinite negative => if negative then ⊥ else ⊤
  | .finite negative m e => (((signed negative m : ℚ) * 2 ^ e : ℚ) : WithTop ℚ)

theorem cast_scaled (negative : Bool) (m : Nat) {e least : Int} (h : least ≤ e) :
    (scaled negative m e least : ℚ) * 2 ^ least = signed negative m * 2 ^ e := by
  have hraise : (raise 2 (e - least) : ℚ) * 2 ^ least = 2 ^ e := by
    rw [cast_raise_of_nonneg (by omega), Nat.cast_ofNat, ← zpow_add₀ (by norm_num), sub_add_cancel]
  cases negative
  · simp [scaled, signed, mul_assoc, hraise]
  · simp [scaled, signed, mul_assoc, hraise]

section

variable {s t : Bool} {m n : Nat} {e f : Int}

theorem finite_lt_finite :
    finite s m e < finite t n f ↔ scaled s m e (min e f) < scaled t n f (min e f) := by
  show some _ = some _ ↔ _
  rw [Option.some.injEq, compare_lt_iff_lt]

theorem finite_lt_finite_iff_value :
    finite s m e < finite t n f ↔ (signed s m * 2 ^ e : ℚ) < signed t n * 2 ^ f := by
  have htwo : (0 : ℚ) < 2 ^ min e f := by positivity
  rw [finite_lt_finite, ← cast_scaled s m (min_le_left e f),
    ← cast_scaled t n (min_le_right e f), mul_lt_mul_iff_left₀ htwo, Int.cast_lt]

theorem infinite_lt_finite : infinite s < finite t n f ↔ s = true := by
  show some _ = some _ ↔ _
  cases s <;> simp

theorem finite_lt_infinite : finite s m e < infinite t ↔ t = false := by
  show some _ = some _ ↔ _
  cases t <;> simp

end

theorem not_lt_nan : ¬ a < nan := by
  intro h
  cases a <;> cases h

theorem not_nan_lt : ¬ nan < a := by
  intro h
  cases h

/-- **The order of ranks is the order of their values.** -/
theorem lt_iff (ha : a ≠ nan) (hb : b ≠ nan) : a < b ↔ a.value < b.value := by
  match a, b with
  | .infinite s, .infinite t => cases s <;> cases t <;> decide
  | .infinite s, .finite t n f =>
    rw [infinite_lt_finite]
    cases s
    · exact iff_of_false (by decide) not_top_lt
    · exact iff_of_true rfl (WithBot.bot_lt_coe _)
  | .finite s m e, .infinite t =>
    rw [finite_lt_infinite]
    cases t
    · exact iff_of_true rfl (WithBot.coe_lt_coe.mpr (WithTop.coe_lt_top _))
    · exact iff_of_false (by decide) not_lt_bot
  | .finite s m e, .finite t n f =>
    rw [finite_lt_finite_iff_value, value, value, WithBot.coe_lt_coe, WithTop.coe_lt_coe]

theorem lt_asymm (h : a < b) : ¬ b < a := by
  have ha : a ≠ nan := fun ha => not_nan_lt (ha ▸ h)
  have hb : b ≠ nan := fun hb => not_lt_nan (hb ▸ h)
  rw [lt_iff ha hb] at h
  rw [lt_iff hb ha]
  exact h.not_gt

instance : Std.Asymm fun a b : Number => a < b := ⟨fun _ _ => lt_asymm⟩

/-- A rank between two that are in order is above the lower or below the higher of them. -/
theorem lt_or_lt (hc : c ≠ nan) (h : a < b) : a < c ∨ c < b := by
  have ha : a ≠ nan := fun ha => not_nan_lt (ha ▸ h)
  have hb : b ≠ nan := fun hb => not_lt_nan (hb ▸ h)
  rw [lt_iff ha hb] at h
  rw [lt_iff ha hc, lt_iff hc hb]
  exact (lt_or_ge a.value c.value).imp_right fun hca => hca.trans_lt h

/-! ### Differences -/

/-- The difference of two numbers, rounded to the format. -/
def minus : Number → Number → Number
  | .nan, _ => .nan
  | _, .nan => .nan
  | .infinite s, .infinite t => if s = t then .nan else .infinite s
  | .infinite s, .finite .. => .infinite s
  | .finite .., .infinite t => .infinite (!t)
  | .finite s m e, .finite t n f =>
    let least := min e f
    let d := scaled s m e least - scaled t n f least
    if d = 0 then .finite (m = 0 && s && !t) 0 0
    else ofRatio (d < 0) (d.natAbs * raise 2 least) (raise 2 (-least))

/-- On which side of zero a number is; a zero is on neither, and so is `nan`. -/
def sign : Number → Ordering
  | .nan => .eq
  | .infinite negative => if negative then .lt else .gt
  | .finite negative m _ => if m = 0 then .eq else if negative then .lt else .gt

theorem shiftTwos_ne_zero {m : Nat} (hm : m ≠ 0) (fuel : Nat) (e : Int) :
    (shiftTwos fuel m e).1 ≠ 0 := by
  induction fuel generalizing m e with
  | zero => exact hm
  | succ fuel ih =>
    rw [shiftTwos]
    split
    · exact ih (by omega) _
    · exact hm

theorem sign_ofParts {m : Nat} (hm : m ≠ 0) (negative : Bool) (e : Int) :
    (ofParts negative m e).sign = if negative then .lt else .gt := by
  rw [ofParts, if_neg hm]
  show (if (shiftTwos m.log2 m e).1 = 0 then Ordering.eq else _) = _
  rw [if_neg (shiftTwos_ne_zero hm _ e)]

theorem roundHalfEven_ne_zero {num den : Nat} (hden : 0 < den) (h : den ≤ num) :
    roundHalfEven num den ≠ 0 := by
  have hq : 0 < num / den := Nat.div_pos h hden
  unfold roundHalfEven
  dsimp only
  split_ifs <;> omega

/-- A quotient that is not below the least positive number of the format is not rounded to zero. -/
theorem sign_ofRatio {num den : Nat} (negative : Bool) (hnum : num ≠ 0) (hden : den ≠ 0)
    (h : (2 : ℚ) ^ leastExponent ≤ num / den) :
    (ofRatio negative num den).sign = if negative then .lt else .gt := by
  rw [ofRatio, if_neg hnum]
  dsimp only
  set e := max leastExponent (binaryOrder num den - 52) with he
  have hle : (2 : ℚ) ^ e ≤ num / den := by
    rcases max_choice leastExponent (binaryOrder num den - 52) with hmax | hmax
    · rw [he, hmax]
      exact h
    · rw [he, hmax]
      exact le_trans (zpow_le_zpow_right₀ (by norm_num) (by omega)) (binaryOrder_spec hnum hden).1
  have hone : den * raise 2 e ≤ num * raise 2 (-e) := by
    have hr : (0 : ℚ) < raise 2 (-e) := by exact_mod_cast raise_pos (by norm_num) _
    rw [le_div_iff₀ (by positivity)] at hle
    rw [← Nat.cast_le (α := ℚ)]
    push_cast
    rw [raise_eq (by norm_num) e, Nat.cast_ofNat]
    calc (den : ℚ) * (2 ^ e * raise 2 (-e)) = 2 ^ e * den * raise 2 (-e) := by ring
      _ ≤ num * raise 2 (-e) := by gcongr
  have hpos : 0 < den * raise 2 e := Nat.mul_pos (by omega) (raise_pos (by norm_num) _)
  have hm := roundHalfEven_ne_zero hpos hone
  split
  · rfl
  · exact sign_ofParts hm negative e

/-- The number is an infinity, `nan` or a multiple of the least positive number of the format. -/
def OnGrid : Number → Prop
  | .finite _ _ e => leastExponent ≤ e
  | _ => True

theorem sign_minus_finite {s t : Bool} {m n : Nat} {e f : Int} (he : leastExponent ≤ e)
    (hf : leastExponent ≤ f) :
    (minus (finite s m e) (finite t n f)).sign =
      compare (scaled s m e (min e f)) (scaled t n f (min e f)) := by
  rw [minus]
  set d := scaled s m e (min e f) - scaled t n f (min e f) with hd
  have hleast : leastExponent ≤ min e f := le_min he hf
  split
  · next hzero =>
    have heq : scaled s m e (min e f) = scaled t n f (min e f) := by omega
    rw [compare_eq_iff_eq.mpr heq]
    rfl
  · next hne =>
    have hr : 0 < raise 2 (-min e f) := raise_pos (by norm_num) _
    have hr' : (0 : ℚ) < raise 2 (-min e f) := by exact_mod_cast hr
    have hnum : d.natAbs * raise 2 (min e f) ≠ 0 :=
      Nat.mul_ne_zero (by omega) (raise_pos (by norm_num) _).ne'
    have hone : (1 : ℚ) ≤ d.natAbs := by exact_mod_cast (by omega : 1 ≤ d.natAbs)
    have hvalue : (2 : ℚ) ^ leastExponent ≤
        ((d.natAbs * raise 2 (min e f) : Nat) : ℚ) / raise 2 (-min e f) := by
      rw [le_div_iff₀ hr', Nat.cast_mul, raise_eq (by norm_num) (min e f), Nat.cast_ofNat,
        ← mul_assoc]
      gcongr
      calc (2 : ℚ) ^ leastExponent ≤ 2 ^ min e f := zpow_le_zpow_right₀ (by norm_num) hleast
        _ ≤ d.natAbs * 2 ^ min e f := le_mul_of_one_le_left (by positivity) hone
    rw [sign_ofRatio _ hnum hr.ne' hvalue]
    split
    · next hlt =>
      have : d < 0 := by simpa using hlt
      exact (compare_lt_iff_lt.mpr (by omega)).symm
    · next hlt =>
      have : ¬ d < 0 := by simpa using hlt
      exact (compare_gt_iff_gt.mpr (by omega)).symm

/-- **The difference of two numbers of the format is below zero if the first is below the second,
and above zero if the second is below the first.** -/
theorem sign_minus (ha : a.OnGrid) (hb : b.OnGrid) :
    ((minus a b).sign = .lt ↔ a < b) ∧ ((minus a b).sign = .gt ↔ b < a) := by
  match a, b with
  | .nan, b => simp [minus, sign, not_nan_lt, not_lt_nan]
  | .infinite s, .nan => simp [minus, sign, not_nan_lt, not_lt_nan]
  | .finite s m e, .nan => simp [minus, sign, not_nan_lt, not_lt_nan]
  | .infinite s, .infinite t => cases s <;> cases t <;> decide
  | .infinite s, .finite t n f =>
    rw [infinite_lt_finite, finite_lt_infinite]
    cases s <;> simp [minus, sign]
  | .finite s m e, .infinite t =>
    rw [infinite_lt_finite, finite_lt_infinite]
    cases t <;> simp [minus, sign]
  | .finite s m e, .finite t n f =>
    rw [sign_minus_finite ha hb, compare_lt_iff_lt, compare_gt_iff_gt, finite_lt_finite,
      finite_lt_finite, min_comm f e]
    exact ⟨Iff.rfl, Iff.rfl⟩

end Number

/-- **The order of tickets is what the difference of their ranks says, then that of their
numbers.** -/
theorem Ticket.order_eq_difference {a b : Ticket Number} (ha : a.rank.OnGrid)
    (hb : b.rank.OnGrid) :
    Ticket.order a b = (Number.minus a.rank b.rank).sign.then (compare a.number b.number) := by
  obtain ⟨hlt, hgt⟩ := Number.sign_minus ha hb
  rw [Ticket.order]
  split
  · next h => rw [hlt.mpr h]; rfl
  · next h =>
    split
    · next h' => rw [hgt.mpr h']; rfl
    · next h' =>
      have heq : (Number.minus a.rank b.rank).sign = .eq := by
        cases hs : (Number.minus a.rank b.rank).sign with
        | lt => exact absurd (hlt.mp hs) h
        | gt => exact absurd (hgt.mp hs) h'
        | eq => rfl
      rw [heq]
      rfl

end StorageKit
