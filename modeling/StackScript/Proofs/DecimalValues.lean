import StackScript.Floating.Decimal
import StackScript.Proofs.Rounding

/-!
# Decimals that read back

Reading a decimal depends on the number that it stands for alone, not on how the number is split into
digits and exponent. The shortest decimal of a value reads back as the value: either it was tried,
or it has all digits of the value.

## Main definitions

* `Decimal.value`: the number that a decimal stands for.
* `Floating.withSign`: a value with another sign.

## Main results

* `Decimal.magnitude_eq_log`: the magnitude of a decimal is the logarithm of its number.
* `Floating.ofDecimal_congr`: decimals of one number are read as one value.
* `Floating.ofDecimal_exact`: a decimal of a value of the format is read as that value.
* `Floating.ofDecimal_shortest`: the shortest decimal of a value reads back.
-/

namespace StackScript

namespace Decimal

/-- The number that a decimal stands for. -/
def value (d : Decimal) : ℚ := d.digits * 10 ^ d.exponent

theorem value_eq_zero_iff {d : Decimal} : d.value = 0 ↔ d.digits = 0 := by
  unfold value
  rw [mul_eq_zero, Nat.cast_eq_zero, or_iff_left]
  positivity

theorem value_pos {d : Decimal} (h : d.digits ≠ 0) : 0 < d.value := by
  have hdigits : (0 : ℚ) < d.digits := by exact_mod_cast Nat.pos_of_ne_zero h
  unfold value
  positivity

theorem lt_pow_digitCount (n : Nat) : n < 10 ^ digitCount n :=
  (Nat.length_toDigits_le_iff (by decide) Nat.length_toDigits_pos).mp le_rfl

theorem pow_digitCount_le {n : Nat} (hn : n ≠ 0) : 10 ^ (digitCount n - 1) ≤ n := by
  rcases Nat.eq_zero_or_pos (digitCount n - 1) with h | h
  · rw [h]
    omega
  · by_contra hlt
    have hle : digitCount n ≤ digitCount n - 1 :=
      (Nat.length_toDigits_le_iff (by decide) h).mpr (Nat.lt_of_not_le hlt)
    omega

/-- The magnitude of a decimal is one more than the integer part of its logarithm. -/
theorem magnitude_eq_log {d : Decimal} (h : d.digits ≠ 0) :
    d.magnitude = Int.log 10 d.value + 1 := by
  have hpos := value_pos h
  have hcount : 0 < digitCount d.digits := Nat.length_toDigits_pos
  -- the digits lie between two powers of ten, and the exponent moves both alike
  have hlower : ((10 : ℕ) : ℚ) ^ (d.magnitude - 1) ≤ d.value := by
    have hsplit : d.magnitude - 1 = ((digitCount d.digits - 1 : Nat) : Int) + d.exponent := by
      unfold magnitude
      omega
    rw [hsplit, zpow_add₀ (by norm_num), value, zpow_natCast]
    push_cast
    gcongr
    exact_mod_cast pow_digitCount_le h
  have hupper : d.value < ((10 : ℕ) : ℚ) ^ d.magnitude := by
    rw [magnitude, zpow_add₀ (by norm_num), value, zpow_natCast]
    push_cast
    gcongr
    exact_mod_cast lt_pow_digitCount d.digits
  rw [Int.zpow_le_iff_le_log (by decide) hpos] at hlower
  rw [Int.lt_zpow_iff_log_lt (by decide) hpos] at hupper
  omega

/-- The two parts of the number that a decimal stands for. -/
theorem ratio_eq_value (d : Decimal) :
    ((d.digits * powNum 10 d.exponent : Nat) : ℚ) / (powDen 10 d.exponent : Nat) = d.value := by
  rw [value, Nat.cast_mul, mul_div_assoc, powNum_div_powDen (by decide)]
  push_cast
  rfl

/-- Stripping zeros does not change the number. -/
theorem value_strip (digits : Nat) (exponent : Int) :
    (strip digits exponent).value = digits * 10 ^ exponent := by
  fun_induction strip digits exponent with
  | case1 digits exponent h ih =>
    have hdigits : (digits : ℚ) = 10 * ((digits / 10 : Nat) : ℚ) := by
      exact_mod_cast (Nat.mul_div_cancel' (Nat.dvd_of_mod_eq_zero h.2)).symm
    rw [ih, zpow_add₀ (by norm_num), hdigits]
    ring
  | case2 digits exponent h => rfl

end Decimal

namespace Floating

variable {fmt : Format}

/-! ### Signs -/

/-- A value with another sign. -/
def withSign (negative : Bool) : Floating fmt → Floating fmt
  | nan => nan
  | infinite _ => infinite negative
  | finite _ m e h => finite negative m e h

theorem ofParts_eq_withSign (negative : Bool) (m : Nat) (e : Int) :
    (ofParts negative m e : Floating fmt) = (ofParts false m e).withSign negative := by
  unfold ofParts
  split <;> rfl

theorem ofRatio_eq_withSign (negative : Bool) (n d : Nat) :
    (ofRatio negative n d : Floating fmt) = (ofRatio false n d).withSign negative := by
  unfold ofRatio
  split
  · rfl
  · dsimp only
    split <;> exact ofParts_eq_withSign _ _ _

/-- The sign of what is read is the sign that is asked for. -/
theorem ofDecimal_eq_withSign (negative : Bool) (d : Decimal) :
    (ofDecimal negative d : Floating fmt) = (ofDecimal false d).withSign negative := by
  unfold ofDecimal
  split
  · rfl
  split
  · rfl
  split
  · rfl
  · exact ofRatio_eq_withSign _ _ _

/-! ### Reading a decimal -/

/-- Decimals of one number are read as one value. -/
theorem ofDecimal_congr {d d' : Decimal} (h : d.value = d'.value) (negative : Bool) :
    (ofDecimal negative d : Floating fmt) = ofDecimal negative d' := by
  unfold ofDecimal
  -- zero has many spellings and is told apart by its digits
  by_cases hdigits : d.digits = 0
  · have hdigits' : d'.digits = 0 := by
      rwa [← Decimal.value_eq_zero_iff, ← h, Decimal.value_eq_zero_iff]
    rw [if_pos hdigits, if_pos hdigits']
  · have hdigits' : d'.digits ≠ 0 := by
      rwa [ne_eq, ← Decimal.value_eq_zero_iff, ← h, Decimal.value_eq_zero_iff]
    have hmagnitude : d.magnitude = d'.magnitude := by
      rw [Decimal.magnitude_eq_log hdigits, Decimal.magnitude_eq_log hdigits', h]
    have hratio : (ofRatio negative (d.digits * powNum 10 d.exponent) (powDen 10 d.exponent) :
        Floating fmt) = ofRatio negative (d'.digits * powNum 10 d'.exponent)
          (powDen 10 d'.exponent) := by
      have hden := powDen_pos (b := 10) (by decide) d.exponent
      have hden' := powDen_pos (b := 10) (by decide) d'.exponent
      have hden₀ : (powDen 10 d.exponent : ℚ) ≠ 0 := by exact_mod_cast hden.ne'
      have hden₀' : (powDen 10 d'.exponent : ℚ) ≠ 0 := by exact_mod_cast hden'.ne'
      rw [← Decimal.ratio_eq_value, ← Decimal.ratio_eq_value, div_eq_div_iff hden₀ hden₀'] at h
      exact ofRatio_congr hden hden' (by exact_mod_cast h) negative
    rw [if_neg hdigits, if_neg hdigits', hmagnitude, hratio]

section Exact

variable (hmin : fmt.minExponent ≤ 0) (hmax : 0 ≤ fmt.maxExponent)
include hmin hmax

/-- The magnitude of a decimal of a value of the format is not outside its range. -/
theorem magnitude_bounds {m : Nat} {e : Int} (hcanonical : fmt.Canonical m e) {d : Decimal}
    (h : d.value = m * 2 ^ e) (hdigits : d.digits ≠ 0) :
    fmt.minExponent - 1 ≤ d.magnitude ∧ d.magnitude ≤ fmt.maxExponent + fmt.precision := by
  obtain ⟨hbound, hlow, hhigh, -⟩ := hcanonical
  have hpos := Decimal.value_pos hdigits
  rw [Decimal.magnitude_eq_log hdigits]
  have hm : 1 ≤ m := by
    by_contra hm
    obtain rfl : m = 0 := by omega
    simp [h] at hpos
  constructor
  -- `10 ^ e ≤ 2 ^ e` holds for the exponents that are not positive
  · have hvalue : ((10 : ℕ) : ℚ) ^ fmt.minExponent ≤ d.value := by
      calc ((10 : ℕ) : ℚ) ^ fmt.minExponent ≤ 2 ^ fmt.minExponent := by
            have hpow : (2 : ℚ) ^ (-fmt.minExponent) ≤ ((10 : ℕ) : ℚ) ^ (-fmt.minExponent) :=
              zpow_le_zpow_left₀ (by omega) (by norm_num) (by norm_num)
            rw [zpow_neg, zpow_neg] at hpow
            exact (inv_le_inv₀ (by positivity) (by positivity)).mp hpow
        _ ≤ 2 ^ e := zpow_le_zpow_right₀ (by norm_num) hlow
        _ ≤ m * 2 ^ e := le_mul_of_one_le_left (by positivity) (by exact_mod_cast hm)
        _ = d.value := h.symm
    rw [Int.zpow_le_iff_le_log (by decide) hpos] at hvalue
    omega
  -- and `2 ^ e ≤ 10 ^ e` for those that are not negative
  · have hvalue : d.value < ((10 : ℕ) : ℚ) ^ (fmt.maxExponent + fmt.precision) := by
      calc d.value = m * 2 ^ e := h
        _ < 2 ^ fmt.precision * 2 ^ e := by
          gcongr
          exact_mod_cast hbound
        _ ≤ 2 ^ fmt.precision * 2 ^ fmt.maxExponent := by
          gcongr
          norm_num
        _ = 2 ^ (fmt.maxExponent + fmt.precision) := by
          rw [zpow_add₀ (by norm_num), zpow_natCast, mul_comm]
        _ ≤ _ := zpow_le_zpow_left₀ (by omega) (by norm_num) (by norm_num)
    rw [Int.lt_zpow_iff_log_lt (by decide) hpos] at hvalue
    omega

/-- A decimal of a value of the format is read as that value. -/
theorem ofDecimal_exact {m : Nat} {e : Int} (hcanonical : fmt.Canonical m e) {d : Decimal}
    (h : d.value = m * 2 ^ e) (negative : Bool) :
    ofDecimal negative d = finite negative m e hcanonical := by
  unfold ofDecimal
  by_cases hdigits : d.digits = 0
  · have hm : m = 0 := by
      rw [Decimal.value_eq_zero_iff.mpr hdigits, eq_comm, mul_eq_zero, Nat.cast_eq_zero] at h
      exact h.resolve_right (by positivity)
    subst hm
    rw [if_pos hdigits, finite_zero]
  -- the cut-offs for tiny and huge decimals do not apply to a value of the format
  · obtain ⟨hlow, hhigh⟩ := magnitude_bounds hmin hmax hcanonical h hdigits
    rw [if_neg hdigits, if_neg (by omega), if_neg (by omega)]
    refine ofRatio_exact hcanonical (powDen_pos (by decide) _) ?_ negative
    have hden : (powDen 10 d.exponent : ℚ) ≠ 0 := by
      exact_mod_cast (powDen_pos (by decide) d.exponent).ne'
    have hden' : (powDen 2 e : ℚ) ≠ 0 := by exact_mod_cast (powDen_pos (by decide) e).ne'
    have hpow := powNum_div_powDen (b := 2) (by decide) e
    push_cast at hpow
    rw [← Decimal.ratio_eq_value, ← hpow, mul_div_assoc', div_eq_div_iff hden hden'] at h
    have hnat : d.digits * powNum 10 d.exponent * powDen 2 e =
        m * powNum 2 e * powDen 10 d.exponent := by
      exact_mod_cast h
    rw [hnat]
    ring

end Exact

/-- All digits of a value are a decimal of it. -/
theorem value_exactDecimal (m : Nat) (e : Int) : (exactDecimal m e).value = m * 2 ^ e := by
  unfold Decimal.value exactDecimal
  rcases Int.le_total 0 e with h | h
  · obtain ⟨k, rfl⟩ := Int.eq_ofNat_of_zero_le h
    simp [powNum, powDen]
  · obtain ⟨k, hk⟩ := Int.eq_ofNat_of_zero_le (Int.neg_nonneg.mpr h)
    obtain rfl : e = -(k : Int) := by omega
    have hten : (10 : ℚ) ^ k = 2 ^ k * 5 ^ k := by rw [← mul_pow]; norm_num
    simp only [powNum, powDen, neg_neg, Int.toNat_natCast, Int.toNat_neg_natCast, zpow_neg,
      zpow_natCast, Nat.pow_eq, pow_zero, Nat.cast_mul, Nat.cast_one, Nat.cast_pow, min_eq_left h]
    push_cast
    rw [hten]
    field_simp

/-- A decimal is only taken if it reads back. -/
theorem ofDecimal_of_roundTrip? {m : Nat} {e : Int} {h : fmt.Canonical m e} {count : Nat}
    {d : Decimal} (hd : roundTrip? m e h count = some d) :
    ofDecimal false d = finite false m e h := by
  unfold roundTrip? at hd
  extract_lets n den place num den' nearer other at hd
  by_cases hnearer : ofDecimal false ⟨nearer, place⟩ = finite false m e h
  · rw [if_pos hnearer] at hd
    cases hd
    exact hnearer
  · rw [if_neg hnearer] at hd
    by_cases hother : ofDecimal false ⟨other, place⟩ = finite false m e h
    · rw [if_pos hother] at hd
      cases hd
      exact hother
    · rw [if_neg hother] at hd
      cases hd

/-- The shortest decimal of a value reads back as the value. -/
theorem ofDecimal_shortest (hmin : fmt.minExponent ≤ 0) (hmax : 0 ≤ fmt.maxExponent) {m : Nat}
    {e : Int} (h : fmt.Canonical m e) (negative : Bool) :
    ofDecimal negative (shortest m e h) = finite negative m e h := by
  rw [ofDecimal_eq_withSign]
  suffices hfalse : ofDecimal false (shortest m e h) = finite false m e h by
    rw [hfalse]
    rfl
  unfold shortest
  by_cases hm : m = 0
  · subst hm
    rw [if_pos rfl, finite_zero]
    rfl
  · rw [if_neg hm]
    extract_lets found decimal
    have hvalue : (Decimal.strip decimal.digits decimal.exponent).value = decimal.value :=
      Decimal.value_strip _ _
    -- dropping trailing zeros changes the spelling only
    rw [ofDecimal_congr hvalue]
    cases hfound : found with
    | some d =>
      obtain ⟨i, -, hi⟩ := List.exists_of_findSome?_eq_some hfound
      have hdecimal : decimal = d := by simp [decimal, hfound]
      rw [hdecimal]
      exact ofDecimal_of_roundTrip? hi
    -- no short candidate reads back, and the exact expansion always does
    | none =>
      have hdecimal : decimal = exactDecimal m e := by simp [decimal, hfound]
      rw [hdecimal]
      exact ofDecimal_exact hmin hmax h (value_exactDecimal m e) false

end Floating

end StackScript
