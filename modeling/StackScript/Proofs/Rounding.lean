import Mathlib.Algebra.Order.Field.Power
import Mathlib.Data.Int.Log
import Mathlib.Data.Rat.Floor
import Mathlib.Tactic.FieldSimp
import Mathlib.Tactic.Linarith
import Mathlib.Tactic.Positivity
import Mathlib.Tactic.Ring
import StackScript.Floating.Basic

/-!
# Rounding to floating-point values

Rounding a ratio depends on its value alone, not on how it is written, and a value of the format is
rounded to itself. Both follow from what the exponent of the last place is: the integer logarithm of
the ratio is the one `k` with `2 ^ k ≤ n / d < 2 ^ (k + 1)`.

## Main results

* `ratioLog2_eq_log`: the exponent of the leading bit of a ratio.
* `Floating.ofRatio_congr`: equal ratios are rounded to the same value.
* `Floating.ofRatio_exact`: a value of the format is rounded to itself.
* `Floating.isNat_ofInt`, `Floating.IsNat.convert`: numbers with few bits are exact.
* `Floating.ofInt_eq_finite`: integers with few bits are values of a format.
* `Floating.ofInt_eq_finite_of_lt`: integers that are not too large are rounded to a value.
-/

namespace StackScript

/-! ### Powers -/

theorem powNum_pos {b : Nat} (hb : 0 < b) (e : Int) : 0 < powNum b e :=
  Nat.pow_pos hb

theorem powDen_pos {b : Nat} (hb : 0 < b) (e : Int) : 0 < powDen b e :=
  Nat.pow_pos hb

/-- The two parts of a power. -/
theorem powNum_div_powDen {b : Nat} (hb : 0 < b) (e : Int) :
    (powNum b e : ℚ) / powDen b e = (b : ℚ) ^ e := by
  have hb' : (b : ℚ) ≠ 0 := by positivity
  rcases Int.le_total 0 e with h | h
  · obtain ⟨k, rfl⟩ := Int.eq_ofNat_of_zero_le h
    simp [powNum, powDen]
  · obtain ⟨k, hk⟩ := Int.eq_ofNat_of_zero_le (Int.neg_nonneg.mpr h)
    obtain rfl : e = -(k : Int) := by omega
    simp [powNum, powDen]

/-- A comparison of a ratio with a power of two. -/
theorem le_ratio_iff {n d : Nat} (hd : 0 < d) (k : Int) :
    d * powNum 2 k ≤ n * powDen 2 k ↔ (2 : ℚ) ^ k ≤ n / d := by
  have hd' : (0 : ℚ) < d := by exact_mod_cast hd
  have hden : (0 : ℚ) < powDen 2 k := by exact_mod_cast powDen_pos (by decide) k
  have hpow := powNum_div_powDen (b := 2) (by decide) k
  push_cast at hpow
  rw [← hpow, div_le_div_iff₀ hden hd', ← Nat.cast_le (α := ℚ)]
  push_cast
  rw [mul_comm (d : ℚ)]

/-! ### The integer logarithm of a ratio -/

/-- The exponent of the leading bit of a ratio is the integer part of its logarithm. -/
theorem ratioLog2_eq_log {n d : Nat} (hn : 0 < n) (hd : 0 < d) :
    ratioLog2 n d = Int.log 2 (n / d : ℚ) := by
  have hn' : (0 : ℚ) < n := by exact_mod_cast hn
  have hd' : (0 : ℚ) < d := by exact_mod_cast hd
  have hpos : (0 : ℚ) < n / d := div_pos hn' hd'
  -- the logarithms of `n` and `d` round down
  have hn_le : (2 : ℚ) ^ (n.log2 : Int) ≤ n := by exact_mod_cast Nat.log2_self_le hn.ne'
  have hn_lt : (n : ℚ) < 2 ^ ((n.log2 : Int) + 1) := by exact_mod_cast Nat.lt_log2_self (n := n)
  have hd_le : (2 : ℚ) ^ (d.log2 : Int) ≤ d := by exact_mod_cast Nat.log2_self_le hd.ne'
  have hd_lt : (d : ℚ) < 2 ^ ((d.log2 : Int) + 1) := by exact_mod_cast Nat.lt_log2_self (n := d)
  have hupper : (n / d : ℚ) < (2 : ℕ) ^ ((n.log2 : Int) - d.log2 + 1) := by
    rw [div_lt_iff₀ hd']
    calc (n : ℚ) < 2 ^ ((n.log2 : Int) + 1) := hn_lt
      _ = 2 ^ ((n.log2 : Int) - d.log2 + 1) * 2 ^ (d.log2 : Int) := by
        rw [← zpow_add₀ (by norm_num)]
        congr 1
        omega
      _ ≤ _ := by
        push_cast
        gcongr
  have hlower : ((2 : ℕ) : ℚ) ^ ((n.log2 : Int) - d.log2 - 1) ≤ n / d := by
    rw [le_div_iff₀ hd']
    calc ((2 : ℕ) : ℚ) ^ ((n.log2 : Int) - d.log2 - 1) * d
        ≤ 2 ^ ((n.log2 : Int) - d.log2 - 1) * 2 ^ ((d.log2 : Int) + 1) := by
          push_cast
          gcongr
      _ = 2 ^ (n.log2 : Int) := by
        rw [← zpow_add₀ (by norm_num)]
        congr 1
        omega
      _ ≤ n := hn_le
  rw [Int.lt_zpow_iff_log_lt (by decide) hpos] at hupper
  rw [Int.zpow_le_iff_le_log (by decide) hpos] at hlower
  unfold ratioLog2
  simp only
  split
  · rename_i h
    rw [le_ratio_iff hd, ← Nat.cast_two, Int.zpow_le_iff_le_log (by decide) hpos] at h
    omega
  · rename_i h
    rw [le_ratio_iff hd, ← Nat.cast_two, Int.zpow_le_iff_le_log (by decide) hpos] at h
    omega

/-! ### Rounding to a natural number -/

theorem roundHalfEven_mul_right (n d : Nat) {k : Nat} (hk : 0 < k) :
    roundHalfEven (n * k) (d * k) = roundHalfEven n d := by
  unfold roundHalfEven
  simp only [Nat.mul_div_mul_right n d hk, Nat.mul_mod_mul_right, ← Nat.mul_assoc,
    Nat.mul_lt_mul_right hk]

/-- Equal ratios are rounded to the same number. -/
theorem roundHalfEven_congr {n d n' d' : Nat} (hd : 0 < d) (hd' : 0 < d') (h : n * d' = n' * d) :
    roundHalfEven n d = roundHalfEven n' d' := by
  rw [← roundHalfEven_mul_right n d hd', h, Nat.mul_comm d d', roundHalfEven_mul_right n' d' hd]

theorem roundHalfEven_exact (m : Nat) {d : Nat} (hd : 0 < d) : roundHalfEven (m * d) d = m := by
  unfold roundHalfEven
  simp [Nat.mul_div_cancel m hd, hd]

theorem div_le_roundHalfEven (n d : Nat) : n / d ≤ roundHalfEven n d := by
  unfold roundHalfEven
  dsimp only
  split
  · exact Nat.le_refl _
  split
  · exact Nat.le_succ _
  split
  · exact Nat.le_refl _
  · exact Nat.le_succ _

/-- A ratio is rounded to a number below another if it is more than a half smaller. -/
theorem roundHalfEven_lt {n d c : Nat} (h : 2 * n < (2 * c - 1) * d) : roundHalfEven n d < c := by
  have hc : 0 < c := Nat.pos_of_ne_zero fun h0 => by simp [h0] at h
  have hd : 0 < d := Nat.pos_of_ne_zero fun h0 => by simp [h0] at h
  have hdivision := Nat.div_add_mod n d
  have hscaled : (2 * c - 1) * d + d = 2 * (c * d) := by
    rw [← Nat.succ_mul, ← Nat.mul_assoc]
    congr 1
    omega
  have hdown : n / d < c := by
    refine (Nat.div_lt_iff_lt_mul hd).mpr ?_
    omega
  -- rounding goes up by a half at most
  have hup (hhalf : ¬ 2 * (n % d) < d) : n / d + 1 < c := by
    refine Nat.lt_of_mul_lt_mul_right (a := d) ?_
    rw [Nat.succ_mul, Nat.mul_comm (n / d)]
    omega
  unfold roundHalfEven
  dsimp only
  split
  · exact hdown
  rename_i hhalf
  split
  · exact hup hhalf
  split
  · exact hdown
  · exact hup hhalf

namespace Floating

variable {fmt : Format}

theorem ratio_eq {n d n' d' : Nat} (hd : 0 < d) (hd' : 0 < d') (h : n * d' = n' * d) :
    (n / d : ℚ) = n' / d' := by
  have hd : (d : ℚ) ≠ 0 := by exact_mod_cast hd.ne'
  have hd' : (d' : ℚ) ≠ 0 := by exact_mod_cast hd'.ne'
  rw [div_eq_div_iff hd hd']
  exact_mod_cast h

/-- Equal ratios are rounded to the same value. -/
theorem ofRatio_congr {n d n' d' : Nat} (hd : 0 < d) (hd' : 0 < d') (h : n * d' = n' * d)
    (negative : Bool) : (ofRatio negative n d : Floating fmt) = ofRatio negative n' d' := by
  rcases Nat.eq_zero_or_pos n with rfl | hn
  · have hn' : n' = 0 := by
      rw [Nat.zero_mul, eq_comm, Nat.mul_eq_zero] at h
      omega
    rw [hn']
    rfl
  · have hn' : 0 < n' := Nat.pos_of_ne_zero fun h0 => by
      rw [h0, Nat.zero_mul, Nat.mul_eq_zero] at h
      omega
    -- the place depends on the quotient alone
    have hplace : placeExponent fmt n d = placeExponent fmt n' d' := by
      rw [placeExponent, placeExponent, ratioLog2_eq_log hn hd, ratioLog2_eq_log hn' hd',
        ratio_eq hd hd' h]
    unfold ofRatio
    rw [if_neg hn.ne', if_neg hn'.ne', hplace]
    generalize placeExponent fmt n' d' = e
    have hround : roundHalfEven (n * powDen 2 e) (d * powNum 2 e) =
        roundHalfEven (n' * powDen 2 e) (d' * powNum 2 e) := by
      refine roundHalfEven_congr (Nat.mul_pos hd (powNum_pos (by decide) e))
        (Nat.mul_pos hd' (powNum_pos (by decide) e)) ?_
      calc n * powDen 2 e * (d' * powNum 2 e) = n * d' * (powDen 2 e * powNum 2 e) := by ring
        _ = n' * d * (powDen 2 e * powNum 2 e) := by rw [h]
        _ = _ := by ring
    simp only [hround]

/-- A magnitude of the format as a ratio. -/
theorem ratio_eq_mul_zpow {m n d : Nat} {e : Int} (hd : 0 < d)
    (h : n * powDen 2 e = m * (d * powNum 2 e)) : (n / d : ℚ) = m * 2 ^ e := by
  have hd' : (d : ℚ) ≠ 0 := by exact_mod_cast hd.ne'
  have hden : (powDen 2 e : ℚ) ≠ 0 := by exact_mod_cast (powDen_pos (by decide) e).ne'
  have hpow := powNum_div_powDen (b := 2) (by decide) e
  have hcast : (n : ℚ) * powDen 2 e = m * (d * powNum 2 e) := by exact_mod_cast h
  push_cast at hpow
  rw [← hpow]
  field_simp
  linarith

/-- The last place of a value of the format is where it is. -/
theorem placeExponent_exact {m : Nat} {e : Int} (hcanonical : fmt.Canonical m e) (hm : 0 < m)
    {n d : Nat} (hn : 0 < n) (hd : 0 < d) (h : n * powDen 2 e = m * (d * powNum 2 e)) :
    placeExponent fmt n d = e := by
  obtain ⟨hbound, hmin, -, hform⟩ := hcanonical
  have hvalue := ratio_eq_mul_zpow hd h
  have hpos : (0 : ℚ) < m * 2 ^ e := by positivity
  have hprecision := fmt.precision_pos
  have hlog_lt : Int.log 2 ((m : ℚ) * 2 ^ e) < fmt.precision + e := by
    rw [← Int.lt_zpow_iff_log_lt (by decide) hpos, Nat.cast_two, zpow_add₀ (by norm_num)]
    gcongr
    exact_mod_cast hbound
  unfold placeExponent
  rw [ratioLog2_eq_log hn hd, hvalue]
  rcases hform with hfull | rfl
  · -- a full significand has its leading bit in the first place
    have hle_log : ((fmt.precision - 1 : Nat) : Int) + e ≤ Int.log 2 ((m : ℚ) * 2 ^ e) := by
      rw [← Int.zpow_le_iff_le_log (by decide) hpos, Nat.cast_two, zpow_add₀ (by norm_num)]
      gcongr
      exact_mod_cast hfull
    omega
  · -- below that the exponent is the least one
    omega

/-- A value whose significand is zero is a zero. -/
theorem finite_zero {e : Int} (hcanonical : fmt.Canonical 0 e) (negative : Bool) :
    finite negative 0 e hcanonical = zero negative := by
  have he : e = fmt.minExponent :=
    hcanonical.2.2.2.resolve_left (Nat.not_le.mpr (Nat.two_pow_pos _))
  subst he
  rfl

/-- A value of the format is rounded to itself. -/
theorem ofRatio_exact {m : Nat} {e : Int} (hcanonical : fmt.Canonical m e) {n d : Nat} (hd : 0 < d)
    (h : n * powDen 2 e = m * (d * powNum 2 e)) (negative : Bool) :
    ofRatio negative n d = finite negative m e hcanonical := by
  have hnum := powNum_pos (b := 2) (by decide) e
  have hden := powDen_pos (b := 2) (by decide) e
  unfold ofRatio
  rcases Nat.eq_zero_or_pos m with rfl | hm
  · have hn : n = 0 := by
      rw [Nat.zero_mul, Nat.mul_eq_zero] at h
      omega
    rw [if_pos hn, finite_zero]
  · have hn : 0 < n := Nat.pos_of_ne_zero fun h0 => by
      rw [h0, Nat.zero_mul, eq_comm, Nat.mul_eq_zero, Nat.mul_eq_zero] at h
      omega
    -- there is nothing to round
    have hround : roundHalfEven (n * powDen 2 e) (d * powNum 2 e) = m := by
      rw [h]
      exact roundHalfEven_exact m (Nat.mul_pos hd hnum)
    simp only [if_neg hn.ne', placeExponent_exact hcanonical hm hn hd h, hround,
      if_neg hcanonical.1.ne]
    exact dif_pos hcanonical

/-! ### Whole numbers -/

theorem significandBound_eq (fmt : Format) : fmt.significandBound = 2 * fmt.leastFull := by
  have hprecision := fmt.precision_pos
  rw [Format.significandBound, Format.leastFull, Nat.pow_eq, Nat.pow_eq, ← Nat.pow_succ']
  congr 1
  omega

/-- A natural number is among the values of a format. -/
def Represents (fmt : Format) (n : Nat) : Prop :=
  ∃ m e, fmt.Canonical m e ∧ n * powDen 2 e = m * powNum 2 e

/-- A value is a natural number. -/
def IsNat (x : Floating fmt) (n : Nat) : Prop :=
  ∃ m e hcanonical, x = finite false m e hcanonical ∧ n * powDen 2 e = m * powNum 2 e

/-- Numbers with no more bits than a significand are values of the format, if its exponents reach
that far. -/
theorem represents_of_lt (hmin : fmt.minExponent + fmt.precision ≤ 1) (hmax : 0 ≤ fmt.maxExponent)
    {n : Nat} (hn : n < fmt.significandBound) : Represents fmt n := by
  rcases Nat.eq_zero_or_pos n with rfl | hpos
  · exact ⟨0, fmt.minExponent, fmt.canonical_zero, by simp⟩
  · -- the significand is full when the leading bit is in its first place
    have hlog : n.log2 < fmt.precision := (Nat.log2_lt hpos.ne').mpr hn
    obtain ⟨shift, hshift⟩ : ∃ shift, n.log2 + shift = fmt.precision - 1 :=
      ⟨fmt.precision - 1 - n.log2, by omega⟩
    have hlower : fmt.leastFull ≤ n * 2 ^ shift := by
      calc fmt.leastFull = 2 ^ n.log2 * 2 ^ shift := by
            rw [← Nat.pow_add, hshift]
            rfl
        _ ≤ n * 2 ^ shift := Nat.mul_le_mul_right _ (Nat.log2_self_le hpos.ne')
    have hupper : n * 2 ^ shift < fmt.significandBound := by
      calc n * 2 ^ shift < 2 ^ (n.log2 + 1) * 2 ^ shift :=
            Nat.mul_lt_mul_of_pos_right Nat.lt_log2_self (Nat.two_pow_pos _)
        _ = fmt.significandBound := by
            rw [← Nat.pow_add, show n.log2 + 1 + shift = fmt.precision by omega]
            rfl
    refine ⟨n * 2 ^ shift, -(shift : Int), ⟨hupper, by omega, by omega, .inl hlower⟩, ?_⟩
    simp [powNum, powDen]

/-- The first number with more bits is a value of the format too: it is a power of two. -/
theorem represents_of_le (hmin : fmt.minExponent + fmt.precision ≤ 1) (hmax : 1 ≤ fmt.maxExponent)
    {n : Nat} (hn : n ≤ fmt.significandBound) : Represents fmt n := by
  rcases Nat.lt_or_eq_of_le hn with hlt | rfl
  · exact represents_of_lt hmin (by omega) hlt
  · have hprecision := fmt.precision_pos
    have hleast : fmt.leastFull < fmt.significandBound := by
      rw [significandBound_eq]
      have hpos : 0 < fmt.leastFull := Nat.two_pow_pos _
      omega
    refine ⟨fmt.leastFull, 1, ⟨hleast, by omega, hmax, .inl (Nat.le_refl _)⟩, ?_⟩
    simp [significandBound_eq, powNum, powDen, Nat.mul_comm]

theorem isNat_ofRatio {n numerator denominator : Nat} (h : Represents fmt n)
    (hdenominator : 0 < denominator) (heq : numerator = n * denominator) :
    (ofRatio false numerator denominator : Floating fmt).IsNat n := by
  obtain ⟨m, e, hcanonical, hn⟩ := h
  refine ⟨m, e, hcanonical, ofRatio_exact hcanonical hdenominator ?_ false, hn⟩
  rw [heq, Nat.mul_right_comm, hn]
  ring

theorem isNat_ofInt {n : Nat} (h : Represents fmt n) : (ofInt n : Floating fmt).IsNat n := by
  have hsign : decide ((n : Int) < 0) = false := by simp
  rw [ofInt, hsign]
  exact isNat_ofRatio h Nat.one_pos (Nat.mul_one n).symm

namespace IsNat

variable {x : Floating fmt} {n : Nat}

/-- A number that both formats have is kept by conversion. -/
theorem convert {target : Format} (h : x.IsNat n) (htarget : Represents target n) :
    (x.convert target).IsNat n := by
  obtain ⟨m, e, hcanonical, rfl, hn⟩ := h
  exact isNat_ofRatio htarget (powDen_pos (by decide) e) hn.symm

theorem isWhole (h : x.IsNat n) : x.isWhole = true := by
  obtain ⟨m, e, hcanonical, rfl, hn⟩ := h
  simp [Floating.isWhole, ← hn]

theorem truncate? (h : x.IsNat n) : x.truncate? = some (n : Int) := by
  obtain ⟨m, e, hcanonical, rfl, hn⟩ := h
  have hden := powDen_pos (b := 2) (by decide) e
  simp [Floating.truncate?, ← hn, Nat.mul_div_cancel _ hden]

theorem isInfinite (h : x.IsNat n) : x.isInfinite = false := by
  obtain ⟨m, e, hcanonical, rfl, -⟩ := h
  rfl

end IsNat

/-- Integers with no more bits than a significand are values of the format, if its exponents reach
that far. -/
theorem ofInt_eq_finite (hmin : fmt.minExponent + fmt.precision ≤ 1) (hmax : 0 ≤ fmt.maxExponent)
    {n : Int} (hn : n.natAbs < fmt.significandBound) :
    ∃ m e hcanonical, (ofInt n : Floating fmt) = finite (decide (n < 0)) m e hcanonical := by
  obtain ⟨m, e, hcanonical, heq⟩ := represents_of_lt hmin hmax hn
  exact ⟨m, e, hcanonical, ofRatio_exact hcanonical Nat.one_pos (by rw [heq, Nat.one_mul]) _⟩

theorem ratioLog2_one {n : Nat} (hn : 0 < n) : ratioLog2 n 1 = n.log2 := by
  rw [ratioLog2_eq_log hn Nat.one_pos, Nat.cast_one, div_one, Int.log_natCast, Nat.log2_eq_log_two]

/-- A number that is too large for a significand, less the bits that go beyond one. -/
theorem exists_shift {n : Nat} (hn : fmt.significandBound ≤ n) :
    ∃ shift, n.log2 = fmt.precision - 1 + shift ∧ fmt.leastFull * 2 ^ shift ≤ n ∧
      n < fmt.significandBound * 2 ^ shift := by
  have hprecision := fmt.precision_pos
  have hpos : n ≠ 0 := (Nat.lt_of_lt_of_le (Nat.two_pow_pos _) hn).ne'
  have hlog : fmt.precision ≤ n.log2 := (Nat.le_log2 hpos).mpr hn
  obtain ⟨shift, hshift⟩ : ∃ shift, n.log2 = fmt.precision - 1 + shift :=
    ⟨n.log2 - (fmt.precision - 1), by omega⟩
  refine ⟨shift, hshift, ?_, ?_⟩
  · calc fmt.leastFull * 2 ^ shift = 2 ^ n.log2 := by
          rw [hshift, Nat.pow_add]
          rfl
      _ ≤ n := Nat.log2_self_le hpos
  · calc n < 2 ^ (n.log2 + 1) := Nat.lt_log2_self
      _ = fmt.significandBound * 2 ^ shift := by
          rw [show n.log2 + 1 = fmt.precision + shift by omega, Nat.pow_add]
          rfl

/-- No more bits go beyond a significand than the last exponent stands for. -/
theorem shift_le_of_lt {n shift limit : Nat} (hlower : fmt.leastFull * 2 ^ shift ≤ n)
    (hn : 2 * n < (2 * fmt.significandBound - 1) * 2 ^ limit) : shift ≤ limit := by
  by_contra hgreater
  have hpow : 2 * 2 ^ limit ≤ 2 ^ shift := by
    rw [← Nat.pow_succ']
    exact Nat.pow_le_pow_right (by decide) (by omega)
  have hle : (2 * fmt.significandBound - 1) * 2 ^ limit ≤ 2 * n := by
    calc (2 * fmt.significandBound - 1) * 2 ^ limit
        ≤ 2 * fmt.significandBound * 2 ^ limit := Nat.mul_le_mul_right _ (Nat.sub_le _ _)
      _ = 2 * (fmt.leastFull * (2 * 2 ^ limit)) := by
          rw [significandBound_eq]
          ring
      _ ≤ 2 * (fmt.leastFull * 2 ^ shift) := Nat.mul_le_mul_left _ (Nat.mul_le_mul_left _ hpow)
      _ ≤ 2 * n := Nat.mul_le_mul_left _ hlower
  omega

/-- Rounding a number that is too large for a significand. -/
theorem ofRatio_one {n shift : Nat} (hn : 0 < n) (hlog : n.log2 = fmt.precision - 1 + shift)
    (hmin : fmt.minExponent ≤ shift) (negative : Bool) :
    (ofRatio negative n 1 : Floating fmt) =
      if roundHalfEven n (2 ^ shift) = fmt.significandBound then
        ofParts negative fmt.leastFull (shift + 1)
      else ofParts negative (roundHalfEven n (2 ^ shift)) shift := by
  have hplace : placeExponent fmt n 1 = shift := by
    rw [placeExponent, ratioLog2_one hn, hlog]
    omega
  unfold ofRatio
  rw [if_neg hn.ne', hplace]
  simp [powNum, powDen]

/-- Integers are rounded to a value of the format if they lie less than half a place beyond its
greatest one. -/
theorem ofInt_eq_finite_of_lt (hmin : fmt.minExponent + fmt.precision ≤ 1)
    (hmax : 0 ≤ fmt.maxExponent) {n : Int}
    (hn : 2 * n.natAbs < (2 * fmt.significandBound - 1) * 2 ^ fmt.maxExponent.toNat) :
    ∃ m e hcanonical, (ofInt n : Floating fmt) = finite (decide (n < 0)) m e hcanonical := by
  rcases Nat.lt_or_ge n.natAbs fmt.significandBound with hsmall | hlarge
  · exact ofInt_eq_finite hmin hmax hsmall
  obtain ⟨shift, hlog, hlower, hupper⟩ := exists_shift hlarge
  obtain ⟨limit, hlimit⟩ := Int.eq_ofNat_of_zero_le hmax
  rw [hlimit, Int.toNat_natCast] at hn
  have hshift := shift_le_of_lt hlower hn
  have hprecision := fmt.precision_pos
  have hleast : 0 < fmt.leastFull := Nat.two_pow_pos _
  have hbound := significandBound_eq fmt
  have hfull : fmt.leastFull ≤ roundHalfEven n.natAbs (2 ^ shift) :=
    ((Nat.le_div_iff_mul_le (Nat.two_pow_pos _)).mpr hlower).trans (div_le_roundHalfEven _ _)
  have hle : roundHalfEven n.natAbs (2 ^ shift) ≤ fmt.significandBound := by
    refine Nat.le_of_lt_succ (roundHalfEven_lt ?_)
    rw [show 2 * (fmt.significandBound + 1) - 1 = 2 * fmt.significandBound + 1 by omega,
      Nat.add_mul, Nat.mul_assoc]
    omega
  rw [ofInt, ofRatio_one (by omega) hlog (by omega)]
  split
  · rename_i hcarry
    -- nothing is carried out of the last exponent
    have hne : shift ≠ limit := by
      rintro rfl
      exact absurd hcarry (roundHalfEven_lt hn).ne
    have hcanonical : fmt.Canonical fmt.leastFull (shift + 1) :=
      ⟨by omega, by omega, by omega, .inl (Nat.le_refl _)⟩
    exact ⟨_, _, hcanonical, dif_pos hcanonical⟩
  · have hcanonical : fmt.Canonical (roundHalfEven n.natAbs (2 ^ shift)) shift :=
      ⟨by omega, by omega, by omega, .inl hfull⟩
    exact ⟨_, _, hcanonical, dif_pos hcanonical⟩

end Floating

end StackScript
