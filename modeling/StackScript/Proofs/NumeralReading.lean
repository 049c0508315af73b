import Mathlib.Data.List.Basic
import Mathlib.Data.Nat.Cast.Field
import StackScript.ModuleText.Number
import StackScript.Proofs.DecimalValues

/-!
# Numbers that read back

A number that is written is read as what it was: an integer of not too many digits, and every double,
the infinities and the NaN among them. How the digits of a decimal are laid out does not matter, since
reading depends on the number that they stand for alone.

## Main definitions

* `isNumberCharacter`: the characters that written numbers are made of.

## Main results

* `Numeral.decimal?_render`: a decimal that is written is read as the same number.
* `Numeral.integer?_toString`: an integer reads back.
* `Numeral.real?_floatText`: a double reads back.
-/

namespace StackScript

/-- The characters of a kind at the start of a text end where something else starts. -/
theorem takeWhile_dropWhile_append {α : Type} {p : α → Bool} {first rest : List α}
    (hfirst : ∀ c ∈ first, p c = true) (hrest : ∀ c ∈ rest.head?, p c = false) :
    (first ++ rest).takeWhile p = first ∧ (first ++ rest).dropWhile p = rest := by
  rw [List.takeWhile_append_of_pos hfirst, List.dropWhile_append_of_pos hfirst]
  cases rest with
  | nil => simp
  | cons c rest =>
    have hc : p c = false := hrest c rfl
    simp [hc]

/-! ### The characters of numbers -/

/-- The characters that written numbers are made of. -/
def isNumberCharacter (c : Char) : Bool :=
  c.isDigit || c == '.' || c == 'e' || c == '+' || c == '-'

theorem isNumberCharacter_of_isDigit {c : Char} (h : c.isDigit = true) :
    isNumberCharacter c = true := by
  simp [isNumberCharacter, h]

theorem toNat_le_of_isDigit {c : Char} (h : c.isDigit = true) : 48 ≤ c.toNat ∧ c.toNat ≤ 57 := by
  simp only [Char.isDigit, Bool.and_eq_true, decide_eq_true_eq] at h
  exact h

theorem isNumberCharacter_cases {c : Char} (h : isNumberCharacter c = true) :
    c.isDigit = true ∨ c = '.' ∨ c = 'e' ∨ c = '+' ∨ c = '-' := by
  simpa [isNumberCharacter, or_assoc] using h

namespace Numeral

/-- Nothing has to be resolved in a number that is written. -/
theorem fold_of_isNumberCharacter {c : Char} (h : isNumberCharacter c = true) : fold c = c := by
  have hascii : c.toNat < 0x80 := by
    rcases isNumberCharacter_cases h with h | rfl | rfl | rfl | rfl
    · have := toNat_le_of_isDigit h
      omega
    all_goals decide
  rw [fold, if_pos hascii]

theorem isBlank_of_isNumberCharacter {c : Char} (h : isNumberCharacter c = true) :
    isBlank c = false := by
  rcases isNumberCharacter_cases h with h | rfl | rfl | rfl | rfl
  · have hbounds := toNat_le_of_isDigit h
    have hspace : c ≠ ' ' := by
      rintro rfl
      cases h
    simp [isBlank, hspace]
    omega
  all_goals decide

theorem dropWhile_isBlank {text : List Char} (h : ∀ c ∈ text, isNumberCharacter c = true) :
    text.dropWhile isBlank = text := by
  cases text with
  | nil => rfl
  | cons c rest =>
    rw [List.dropWhile_cons_of_neg]
    rw [isBlank_of_isNumberCharacter (h c List.mem_cons_self)]
    exact Bool.false_ne_true

theorem trim_eq_self {text : List Char} (h : ∀ c ∈ text, isNumberCharacter c = true) :
    trim text = text := by
  unfold trim
  rw [dropWhile_isBlank h, dropWhile_isBlank (by simpa using h), List.reverse_reverse]

theorem joinDigits_eq_self {text : List Char} (h : ∀ c ∈ text, isNumberCharacter c = true)
    (previous : Char) : joinDigits previous text = some text := by
  induction text generalizing previous with
  | nil => rfl
  | cons c rest ih =>
    obtain ⟨hc, hrest⟩ := List.forall_mem_cons.mp h
    have hunderscore : c ≠ '_' := by
      rintro rfl
      cases hc
    unfold joinDigits
    split <;> simp_all

theorem normalize_eq_self {text : List Char} (h : ∀ c ∈ text, isNumberCharacter c = true) :
    normalize text = some text := by
  have hfold : text.map fold = text := by
    conv_rhs => rw [← List.map_id text]
    exact List.map_congr_left fun c hc => fold_of_isNumberCharacter (h c hc)
  rw [normalize, hfold, trim_eq_self h, joinDigits_eq_self h]

/-! ### Digits -/

theorem natOfDigits_append (digits more : List Char) :
    natOfDigits (digits ++ more) = Nat.ofDigitChars 10 more (natOfDigits digits) :=
  Nat.ofDigitChars_append 0

theorem natOfDigits_toDigits (n : Nat) : natOfDigits (Nat.toDigits 10 n) = n :=
  Nat.ofDigitChars_toDigits (by decide) (by decide)

/-- Zeros behind a number. -/
theorem natOfDigits_append_zeros (digits : List Char) (count : Nat) :
    natOfDigits (digits ++ List.replicate count '0') = natOfDigits digits * 10 ^ count := by
  rw [natOfDigits_append, Nat.ofDigitChars_replicate_zero, Nat.mul_comm]

/-- Zeros in front of a number. -/
theorem natOfDigits_zeros_append (count : Nat) (digits : List Char) :
    natOfDigits (List.replicate count '0' ++ digits) = natOfDigits digits := by
  rw [natOfDigits_append, natOfDigits, ← Nat.ofDigitChars, Nat.ofDigitChars_replicate_zero,
    Nat.mul_zero]
  rfl

theorem isDigit_of_mem_toDigits {n : Nat} {c : Char} (h : c ∈ Nat.toDigits 10 n) :
    c.isDigit = true :=
  Nat.isDigit_of_mem_toDigits (by decide) (by decide) h

theorem isDigit_of_mem_zeros {count : Nat} {c : Char} (h : c ∈ List.replicate count '0') :
    c.isDigit = true := by
  rw [List.eq_of_mem_replicate h]
  rfl

/-! ### Reading a decimal -/

section Decimal

variable {whole fraction rest : List Char} {k : Int}

/-- Digits without a point. -/
theorem decimal?_whole (hwhole : ∀ c ∈ whole, c.isDigit = true) (hne : whole ≠ [])
    (hrest : ∀ c ∈ rest.head?, c.isDigit = false ∧ c ≠ '.') (hexponent : exponent? rest = some k) :
    decimal? (whole ++ rest) = some ⟨natOfDigits whole, k⟩ := by
  obtain ⟨htake, hdrop⟩ := takeWhile_dropWhile_append hwhole fun c hc => (hrest c hc).1
  have hsplit : splitFraction rest = ([], rest) := by
    unfold splitFraction
    split
    · exact absurd rfl (hrest '.' rfl).2
    · rfl
  unfold decimal?
  simp [htake, hdrop, hsplit, hne, hexponent]

/-- Digits with a point among them. -/
theorem decimal?_point (hwhole : ∀ c ∈ whole, c.isDigit = true) (hne : whole ≠ [])
    (hfraction : ∀ c ∈ fraction, c.isDigit = true) (hrest : ∀ c ∈ rest.head?, c.isDigit = false)
    (hexponent : exponent? rest = some k) :
    decimal? (whole ++ '.' :: (fraction ++ rest)) =
      some ⟨natOfDigits (whole ++ fraction), k - fraction.length⟩ := by
  have hpoint : ∀ c ∈ ('.' :: (fraction ++ rest)).head?, c.isDigit = false := by simp
  obtain ⟨htake, hdrop⟩ := takeWhile_dropWhile_append hwhole hpoint
  obtain ⟨htake', hdrop'⟩ := takeWhile_dropWhile_append hfraction hrest
  have hsplit : splitFraction ('.' :: (fraction ++ rest)) = (fraction, rest) := by
    simp [splitFraction, htake', hdrop']
  unfold decimal?
  simp [htake, hdrop, hsplit, hne, hexponent]

end Decimal

/-! ### Layouts -/

/-- An exponent with a sign, and zeros in front of its digits. -/
theorem exponent?_signed (k : Int) (count : Nat) :
    exponent? ('e' :: (if k < 0 then '-' else '+') ::
      (List.replicate count '0' ++ Nat.toDigits 10 k.natAbs)) = some k := by
  have hdigits : ∀ c ∈ List.replicate count '0' ++ Nat.toDigits 10 k.natAbs, c.isDigit = true := by
    intro c hc
    rcases List.mem_append.mp hc with hc | hc
    · exact isDigit_of_mem_zeros hc
    · exact isDigit_of_mem_toDigits hc
  have hsplit : ∀ digits : List Char, splitSign ((if k < 0 then '-' else '+') :: digits) =
      (decide (k < 0), digits) := by
    intro digits
    by_cases hk : k < 0 <;> simp [hk, splitSign]
  have hne : List.replicate count '0' ++ Nat.toDigits 10 k.natAbs ≠ [] :=
    List.append_ne_nil_of_right_ne_nil _ Nat.toDigits_ne_nil
  have hlower : ('e'.toLower == 'e') = true := by decide
  simp only [exponent?, hsplit, natOfDigits_zeros_append, natOfDigits_toDigits, hlower,
    List.all_eq_true.mpr hdigits, List.isEmpty_eq_false_iff.mpr hne, Bool.not_false,
    Bool.and_self, if_true, decide_eq_true_eq, Option.some.injEq]
  split <;> omega

theorem isDigit_of_mem_toDigits_append_zeros {n count : Nat} {c : Char}
    (h : c ∈ Nat.toDigits 10 n ++ List.replicate count '0') : c.isDigit = true := by
  rcases List.mem_append.mp h with h | h
  · exact isDigit_of_mem_toDigits h
  · exact isDigit_of_mem_zeros h

/-- Digits with zeros that fill up to the point, which need not be written. -/
theorem decimal?_filled (n count : Nat) (keepsPoint : Bool) :
    ∃ d', decimal? (Nat.toDigits 10 n ++ List.replicate count '0' ++
        if keepsPoint then ['.', '0'] else []) = some d' ∧
      d'.value = n * 10 ^ count := by
  have hdigits : ∀ c ∈ Nat.toDigits 10 n ++ List.replicate count '0', c.isDigit = true :=
    fun c => isDigit_of_mem_toDigits_append_zeros
  have hne : Nat.toDigits 10 n ++ List.replicate count '0' ≠ [] :=
    List.append_ne_nil_of_left_ne_nil Nat.toDigits_ne_nil _
  have hnumber : natOfDigits (Nat.toDigits 10 n ++ List.replicate count '0') = n * 10 ^ count := by
    rw [natOfDigits_append_zeros, natOfDigits_toDigits]
  -- the zero behind the point moves the exponent by one place
  cases keepsPoint with
  | true =>
    have hzero : ∀ c ∈ ['0'], c.isDigit = true := by simp
    have hend : ∀ c ∈ ([] : List Char).head?, c.isDigit = false := by simp
    refine ⟨_, decimal?_point hdigits hne hzero hend rfl, ?_⟩
    rw [natOfDigits_append, hnumber, Decimal.value]
    simp [Nat.ofDigitChars]
    field_simp
  | false =>
    have hend : ∀ c ∈ ([] : List Char).head?, c.isDigit = false ∧ c ≠ '.' := by simp
    refine ⟨_, decimal?_whole hdigits hne hend rfl, ?_⟩
    simp [Decimal.value, hnumber]

/-- A point among the digits. -/
theorem decimal?_inside (n : Nat) {count : Nat} (h : count < (Nat.toDigits 10 n).length) :
    decimal? ((Nat.toDigits 10 n).take ((Nat.toDigits 10 n).length - count) ++
      '.' :: (Nat.toDigits 10 n).drop ((Nat.toDigits 10 n).length - count)) =
        some ⟨n, -count⟩ := by
  have hend : ∀ c ∈ ([] : List Char).head?, c.isDigit = false := by simp
  generalize hplace : (Nat.toDigits 10 n).length - count = place
  have hwhole : ∀ c ∈ (Nat.toDigits 10 n).take place, c.isDigit = true := fun c hc =>
    isDigit_of_mem_toDigits (List.mem_of_mem_take hc)
  have hne : (Nat.toDigits 10 n).take place ≠ [] := by
    rw [ne_eq, List.take_eq_nil_iff, not_or]
    exact ⟨by omega, Nat.toDigits_ne_nil⟩
  have hfraction : ∀ c ∈ (Nat.toDigits 10 n).drop place, c.isDigit = true := fun c hc =>
    isDigit_of_mem_toDigits (List.mem_of_mem_drop hc)
  have hread := decimal?_point hwhole hne hfraction hend rfl
  rw [List.append_nil] at hread
  rw [hread, List.take_append_drop, natOfDigits_toDigits, List.length_drop]
  congr 2
  omega

/-- A point before the digits, with zeros between. -/
theorem decimal?_below (n count : Nat) :
    decimal? ('0' :: '.' :: (List.replicate count '0' ++ Nat.toDigits 10 n)) =
      some ⟨n, -(count + (Nat.toDigits 10 n).length : Nat)⟩ := by
  have hzero : ∀ c ∈ ['0'], c.isDigit = true := by simp
  have hend : ∀ c ∈ ([] : List Char).head?, c.isDigit = false := by simp
  have hdigits : ∀ c ∈ List.replicate count '0' ++ Nat.toDigits 10 n, c.isDigit = true := by
    intro c hc
    rcases List.mem_append.mp hc with hc | hc
    · exact isDigit_of_mem_zeros hc
    · exact isDigit_of_mem_toDigits hc
  have hread := decimal?_point hzero (by simp) hdigits hend rfl
  rw [List.append_nil] at hread
  have hnumber : natOfDigits (['0'] ++ (List.replicate count '0' ++ Nat.toDigits 10 n)) = n := by
    rw [show ['0'] = List.replicate 1 '0' from rfl, natOfDigits_zeros_append,
      natOfDigits_zeros_append, natOfDigits_toDigits]
  rw [hnumber, List.length_append, List.length_replicate, Int.zero_sub] at hread
  exact hread

/-- Digits in place are read as the same number. -/
theorem decimal?_positional (keepsPoint : Bool) (d : Decimal) :
    ∃ d', decimal? (d.positional keepsPoint) = some d' ∧ d'.value = d.value := by
  obtain ⟨n, e⟩ := d
  unfold Decimal.positional
  dsimp only
  by_cases hwhole : 0 ≤ e
  · obtain ⟨count, rfl⟩ := Int.eq_ofNat_of_zero_le hwhole
    rw [if_pos hwhole, Int.toNat_natCast]
    obtain ⟨d', hread, hvalue⟩ := decimal?_filled n count keepsPoint
    exact ⟨d', hread, by rw [hvalue, Decimal.value, zpow_natCast]⟩
  · obtain ⟨count, hcount⟩ := Int.eq_ofNat_of_zero_le (show 0 ≤ -e by omega)
    obtain rfl : e = -(count : Int) := by omega
    rw [if_neg hwhole, Int.neg_neg, Int.toNat_natCast]
    by_cases hinside : count < (Nat.toDigits 10 n).length
    · rw [if_pos hinside]
      exact ⟨_, decimal?_inside n hinside, rfl⟩
    · rw [if_neg hinside]
      refine ⟨_, decimal?_below n _, ?_⟩
      rw [Nat.sub_add_cancel (Nat.le_of_not_lt hinside)]

/-- Digits with an exponent are read as the same decimal. -/
theorem decimal?_scientific (d : Decimal) : decimal? d.scientific = some d := by
  obtain ⟨n, e⟩ := d
  unfold Decimal.scientific
  dsimp only
  have hne : Nat.toDigits 10 n ≠ [] := Nat.toDigits_ne_nil
  have hall : ∀ c ∈ Nat.toDigits 10 n, c.isDigit = true := fun c => isDigit_of_mem_toDigits
  have hnumber := natOfDigits_toDigits n
  generalize Nat.toDigits 10 n = digits at hne hall hnumber ⊢
  obtain ⟨first, others, rfl⟩ := List.exists_cons_of_ne_nil hne
  obtain ⟨hfirst, hothers⟩ := List.forall_mem_cons.mp hall
  -- the written exponent is that of the first digit
  generalize hleading : ((first :: others).length : Int) - 1 + e = leading
  have hexponent := exponent?_signed leading (2 - (Nat.toDigits 10 leading.natAbs).length)
  have hmark : ∀ rest : List Char, ∀ c ∈ ('e' :: rest).head?, c.isDigit = false ∧ c ≠ '.' := by simp
  cases others with
  | nil =>
    have hread := decimal?_whole (List.forall_mem_singleton.mpr hfirst) (by simp) (hmark _) hexponent
    rw [hnumber] at hread
    simp_all
  | cons second others =>
    have hread := decimal?_point (List.forall_mem_singleton.mpr hfirst) (by simp) hothers
      (fun c hc => (hmark _ c hc).1) hexponent
    -- the digits behind the point move it back
    have he : leading - ((second :: others).length : Int) = e := by
      rw [← hleading, List.length_cons]
      omega
    rw [List.singleton_append, List.singleton_append, hnumber, he] at hread
    rw [if_neg (by simp)]
    simpa using hread

/-- A decimal that is written is read as the same number. -/
theorem decimal?_render (style : Decimal.Style) (d : Decimal) :
    ∃ d', decimal? (d.render style) = some d' ∧ d'.value = d.value := by
  unfold Decimal.render
  split
  · exact decimal?_positional style.keepsPoint d
  · exact ⟨d, decimal?_scientific d, rfl⟩

/-! ### Written numbers -/

/-- A magnitude as it is written: characters of numbers, of which the first is a digit. -/
structure IsMagnitude (text : List Char) : Prop where
  characters : ∀ c ∈ text, isNumberCharacter c = true
  head : ∃ c rest, text = c :: rest ∧ c.isDigit = true

theorem isMagnitude_of_digits {text : List Char} (h : ∀ c ∈ text, c.isDigit = true)
    (hne : text ≠ []) : IsMagnitude text := by
  refine ⟨fun c hc => isNumberCharacter_of_isDigit (h c hc), ?_⟩
  obtain ⟨c, rest, rfl⟩ := List.exists_cons_of_ne_nil hne
  exact ⟨c, rest, rfl, h c List.mem_cons_self⟩

theorem isMagnitude_toDigits (n : Nat) : IsMagnitude (Nat.toDigits 10 n) :=
  isMagnitude_of_digits (fun _ => isDigit_of_mem_toDigits) Nat.toDigits_ne_nil

theorem IsMagnitude.append {text more : List Char} (h : IsMagnitude text)
    (hmore : ∀ c ∈ more, isNumberCharacter c = true) : IsMagnitude (text ++ more) := by
  obtain ⟨hcharacters, c, rest, rfl, hc⟩ := h
  refine ⟨fun x hx => ?_, c, rest ++ more, rfl, hc⟩
  rcases List.mem_append.mp hx with hx | hx
  · exact hcharacters x hx
  · exact hmore x hx

theorem isNumberCharacter_of_mem_toDigits {n : Nat} {c : Char} (h : c ∈ Nat.toDigits 10 n) :
    isNumberCharacter c = true :=
  isNumberCharacter_of_isDigit (isDigit_of_mem_toDigits h)

theorem isNumberCharacter_of_mem_zeros {count : Nat} {c : Char} (h : c ∈ List.replicate count '0') :
    isNumberCharacter c = true :=
  isNumberCharacter_of_isDigit (isDigit_of_mem_zeros h)

theorem isMagnitude_take_toDigits (n : Nat) {count : Nat} (h : 0 < count) :
    IsMagnitude ((Nat.toDigits 10 n).take count) := by
  refine isMagnitude_of_digits (fun c hc => isDigit_of_mem_toDigits (List.mem_of_mem_take hc)) ?_
  rw [ne_eq, List.take_eq_nil_iff, not_or]
  exact ⟨by omega, Nat.toDigits_ne_nil⟩

theorem isMagnitude_positional (keepsPoint : Bool) (d : Decimal) :
    IsMagnitude (d.positional keepsPoint) := by
  unfold Decimal.positional
  dsimp only
  split
  · refine ((isMagnitude_toDigits _).append fun c => isNumberCharacter_of_mem_zeros).append ?_
    refine List.all_eq_true.mp ?_
    cases keepsPoint <;> rfl
  split
  · refine (isMagnitude_take_toDigits _ (by omega)).append (List.forall_mem_cons.mpr ⟨rfl, ?_⟩)
    exact fun c hc => isNumberCharacter_of_mem_toDigits (List.mem_of_mem_drop hc)
  · have hzero : IsMagnitude ['0', '.'] := ⟨List.all_eq_true.mp rfl, '0', ['.'], rfl, rfl⟩
    refine (hzero.append fun c => isNumberCharacter_of_mem_zeros).append ?_
    exact fun c => isNumberCharacter_of_mem_toDigits

theorem isMagnitude_scientific (d : Decimal) : IsMagnitude d.scientific := by
  unfold Decimal.scientific
  dsimp only
  refine (((isMagnitude_take_toDigits _ Nat.one_pos).append ?_).append ?_).append ?_
  · split
    · simp
    · refine List.forall_mem_cons.mpr ⟨rfl, fun c hc => ?_⟩
      exact isNumberCharacter_of_mem_toDigits (List.mem_of_mem_drop hc)
  · refine List.forall_mem_cons.mpr ⟨rfl, List.forall_mem_cons.mpr ⟨?_, ?_⟩⟩
    · split <;> rfl
    · exact fun c => isNumberCharacter_of_mem_zeros
  · exact fun c => isNumberCharacter_of_mem_toDigits

theorem isMagnitude_render (style : Decimal.Style) (d : Decimal) : IsMagnitude (d.render style) := by
  unfold Decimal.render
  split
  · exact isMagnitude_positional _ d
  · exact isMagnitude_scientific d

/-- A text with a minus, or without. -/
def signedText (negative : Bool) (text : List Char) : List Char :=
  if negative then '-' :: text else text

theorem IsMagnitude.splitSign_signedText {text : List Char} (h : IsMagnitude text)
    (negative : Bool) : splitSign (signedText negative text) = (negative, text) := by
  cases negative with
  | true => rfl
  | false =>
    obtain ⟨-, c, rest, rfl, hc⟩ := h
    change splitSign (c :: rest) = _
    unfold splitSign
    split <;> simp_all

theorem IsMagnitude.normalize_signedText {text : List Char} (h : IsMagnitude text)
    (negative : Bool) : normalize (signedText negative text) = some (signedText negative text) := by
  refine normalize_eq_self ?_
  cases negative with
  | true => exact List.forall_mem_cons.mpr ⟨rfl, h.characters⟩
  | false => exact h.characters

/-- A magnitude with a sign is read as the value that its decimal is read as. -/
theorem IsMagnitude.real?_eq {text : List Char} (h : IsMagnitude text) {d : Decimal}
    (hd : decimal? text = some d) (negative : Bool) :
    real? (String.ofList (signedText negative text)) = some (.ofDecimal negative d) := by
  -- the words for the special values start with a letter
  have hword : ∀ word : String, (∀ c ∈ word.toList.head?, c.isDigit = false) →
      String.ofList (text.map Char.toLower) ≠ word := by
    rintro word hfirst rfl
    obtain ⟨-, c, rest, rfl, hc⟩ := h
    have hlower : c.toLower = c := by
      have hbounds := toNat_le_of_isDigit hc
      unfold Char.toLower
      refine dif_neg fun hupper => ?_
      have hle : 65 ≤ c.toNat := UInt32.le_iff_toNat_le.mp hupper.1
      omega
    rw [String.toList_ofList, List.map_cons, hlower] at hfirst
    rw [hfirst c rfl] at hc
    cases hc
  have hinf := hword "inf" (by simp)
  have hinfinity := hword "infinity" (by simp)
  have hnan := hword "nan" (by simp)
  unfold real?
  rw [String.toList_ofList, h.normalize_signedText]
  simp [h.splitSign_signedText, hd, hinf, hinfinity, hnan]

/-- An integer is written as a magnitude with a sign. -/
theorem toList_toString (n : Int) :
    (toString n).toList = signedText (decide (n < 0)) (Nat.toDigits 10 n.natAbs) := by
  rw [Int.toString_eq_repr, Int.repr_eq_if]
  by_cases hn : 0 ≤ n
  · rw [if_pos hn, Nat.toList_repr, decide_eq_false (by omega), show n.toNat = n.natAbs by omega]
    rfl
  · rw [if_neg hn, decide_eq_true (by omega), String.toList_append, Nat.toList_repr,
      show (-n).toNat = n.natAbs by omega]
    rfl

/-- An integer of not too many digits reads back. -/
theorem integer?_toString {n : Int} (h : n.natAbs < 10 ^ maxDigits) :
    integer? (toString n) = some n := by
  have hmagnitude := isMagnitude_toDigits n.natAbs
  have hdigits : (Nat.toDigits 10 n.natAbs).all Char.isDigit = true :=
    List.all_eq_true.mpr fun _ => isDigit_of_mem_toDigits
  have hlength : ¬ maxDigits < (Nat.toDigits 10 n.natAbs).length :=
    Nat.not_lt.mpr ((Nat.length_toDigits_le_iff (by decide) (by decide)).mpr h)
  unfold integer?
  rw [toList_toString, hmagnitude.normalize_signedText]
  simp only [Option.bind_eq_bind, Option.bind_some, hmagnitude.splitSign_signedText, hdigits,
    Bool.not_true, Bool.or_false, natOfDigits_toDigits, decide_eq_true_eq]
  rw [List.isEmpty_eq_false_iff.mpr Nat.toDigits_ne_nil, decide_eq_false hlength, Bool.or_false,
    if_neg Bool.false_ne_true, Option.some.injEq]
  split <;> omega

theorem isBare_toString (n : Int) : isBare (toString n) = true := by
  unfold isBare
  rw [toList_toString, (isMagnitude_toDigits _).splitSign_signedText]
  have hdigits : ∀ c ∈ Nat.toDigits 10 n.natAbs, (decimalDigit? c).isSome = true := by
    intro c hc
    rw [decimalDigit?, if_pos (isDigit_of_mem_toDigits hc)]
    rfl
  simp [Nat.toDigits_ne_nil, List.all_eq_true.mpr hdigits]

/-- An integer is read as the value that its digits are read as. -/
theorem real?_toString (n : Int) :
    real? (toString n) = some (.ofDecimal (decide (n < 0)) ⟨n.natAbs, 0⟩) := by
  have hend : ∀ c ∈ ([] : List Char).head?, c.isDigit = false ∧ c ≠ '.' := by simp
  have hread := decimal?_whole (fun c => isDigit_of_mem_toDigits (n := n.natAbs))
    Nat.toDigits_ne_nil hend rfl
  rw [List.append_nil, natOfDigits_toDigits] at hread
  rw [← String.ofList_toList (s := toString n), toList_toString]
  exact (isMagnitude_toDigits _).real?_eq hread _

/-- A whole value is its own integer part. -/
theorem value_truncated {m : Nat} {e : Int} (h : m * powNum 2 e % powDen 2 e = 0) :
    (⟨m * powNum 2 e / powDen 2 e, 0⟩ : Decimal).value = m * 2 ^ e := by
  have hden : (powDen 2 e : ℚ) ≠ 0 := by exact_mod_cast (powDen_pos (by decide) e).ne'
  have hpow := powNum_div_powDen (b := 2) (by decide) e
  push_cast at hpow
  rw [Decimal.value, zpow_zero, mul_one, Nat.cast_div (Nat.dvd_of_mod_eq_zero h) hden, ← hpow]
  push_cast
  ring

/-- A double reads back. -/
theorem real?_floatText (x : Double) : real? (floatText x) = some x := by
  match x with
  | .nan => decide
  | .infinite false => decide
  | .infinite true => decide
  | .finite negative m e h =>
    unfold floatText
    dsimp only
    split
    · -- a whole number is written as the integer it is
      rename_i hwhole
      have hmod : m * powNum 2 e % powDen 2 e = 0 := by simpa [Floating.isWhole] using hwhole
      split
      · rename_i hzero
        obtain rfl : m = 0 := by simpa [Floating.isZero] using hzero
        rw [Floating.finite_zero]
        cases negative <;> decide
      · rename_i hzero
        have hm : m ≠ 0 := by simpa [Floating.isZero] using hzero
        have hvalue := value_truncated hmod
        have hpos : m * powNum 2 e / powDen 2 e ≠ 0 := by
          intro h0
          rw [Decimal.value_eq_zero_iff.mpr h0, eq_comm, mul_eq_zero, Nat.cast_eq_zero] at hvalue
          exact hvalue.elim hm (by positivity)
        have htruncate : (Floating.truncate? (.finite negative m e h)).getD 0 =
            if negative then -((m * powNum 2 e / powDen 2 e : Nat) : Int)
            else ((m * powNum 2 e / powDen 2 e : Nat) : Int) := rfl
        rw [htruncate]
        -- the integer and its sign are all that is left of the number
        generalize m * powNum 2 e / powDen 2 e = k at hvalue hpos
        have hsign : decide ((if negative then -(k : Int) else k) < 0) = negative := by
          cases negative with
          | true => exact decide_eq_true (by simp; omega)
          | false => exact decide_eq_false (by simp)
        have habs : (if negative then -(k : Int) else k).natAbs = k := by
          cases negative <;> simp
        rw [real?_toString, hsign, habs,
          Floating.ofDecimal_exact (by decide) (by decide) h hvalue]
    · obtain ⟨d, hd, hvalue⟩ := decimal?_render .general (Floating.shortest m e h)
      have hread := (isMagnitude_render _ _).real?_eq hd negative
      rw [Floating.ofDecimal_congr hvalue, Floating.ofDecimal_shortest (by decide) (by decide)] at hread
      exact hread

end Numeral

end StackScript
