import Lox.Proofs.Decimal.Intervals
import Lox.Proofs.Token.Lexemes

/-!
# The text of a double

A finite double is shown as a numeral: digits, with a point between two of them at most, and with a
sign in front if the double is negative.  The numeral writes a number that is read as the double;
so two doubles that are shown alike are the same.
-/

namespace Lox.Decimal

open Token

/-! ## Numerals -/

/-- Digits with at most one point inside, and the number that they write. -/
inductive Numeral : List Char → ℚ → Prop where
  | whole {digits : List Char} (areDigits : IsDigits digits) :
      Numeral digits (natOfDigits digits)
  | decimal {whole fraction : List Char} (beforePoint : IsDigits whole)
      (afterPoint : IsDigits fraction) :
      Numeral (whole ++ '.' :: fraction) (natOfDigits (whole ++ fraction) / 10 ^ fraction.length)

theorem takeWhile_digits {digits : List Char} (areDigits : IsDigits digits) {after : List Char}
    (ends : after.head?.all (!Unicode.isDigit ·) = true) :
    (digits ++ after).takeWhile Unicode.isDigit = digits := by
  rw [List.takeWhile_append_of_pos areDigits.all]
  cases after with
  | nil => exact List.append_nil digits
  | cons c after => rw [List.takeWhile_cons_of_neg (by simpa using ends), List.append_nil]

theorem point_notMem {digits : List Char} (areDigits : IsDigits digits) : '.' ∉ digits :=
  fun held => absurd (areDigits.all '.' held) (by decide)

/-- A numeral writes one number. -/
theorem Numeral.unique {text other : List Char} {x y : ℚ} (first : Numeral text x)
    (second : Numeral other y) (same : text = other) : x = y := by
  cases first with
  | whole areDigits =>
      cases second with
      | whole areDigits' => rw [same]
      | decimal beforePoint afterPoint =>
          refine absurd ?_ (point_notMem areDigits)
          rw [same]
          exact List.mem_append_right _ List.mem_cons_self
  | decimal beforePoint afterPoint =>
      cases second with
      | whole areDigits =>
          refine absurd ?_ (point_notMem areDigits)
          rw [← same]
          exact List.mem_append_right _ List.mem_cons_self
      | decimal beforePoint' afterPoint' =>
          have wholes := congrArg (List.takeWhile Unicode.isDigit) same
          rw [takeWhile_digits beforePoint rfl, takeWhile_digits beforePoint' rfl] at wholes
          subst wholes
          obtain ⟨_, rfl⟩ := List.cons.inj (List.append_cancel_left same)
          rfl

/-! ## Digits as one number -/

theorem natOfDigits_append (digits more : List Char) :
    natOfDigits (digits ++ more) = 10 ^ more.length * natOfDigits digits + natOfDigits more :=
  (Nat.ofDigitChars_append 0).trans Nat.ofDigitChars_eq_ofDigitChars_zero

theorem natOfDigits_zeros (count : Nat) : natOfDigits (List.replicate count '0') = 0 :=
  Nat.ofDigitChars_replicate_zero

theorem isDigits_toDigits (n : Nat) : IsDigits (Nat.toDigits 10 n) := by
  refine ⟨Nat.toDigits_ne_nil, fun c held => ?_⟩
  have isDigit := Nat.isDigit_of_mem_toDigits (by decide) (by decide) held
  simpa [Char.isDigit, Unicode.isDigit, Char.le_def] using isDigit

/-- Zeros at the end are trimmed. -/
theorem trimZeros_append (digits : List Char) :
    ∃ count, digits = trimZeros digits ++ List.replicate count '0' := by
  refine ⟨(digits.reverse.takeWhile (· == '0')).length, ?_⟩
  have zeros : digits.reverse.takeWhile (· == '0') =
      List.replicate (digits.reverse.takeWhile (· == '0')).length '0' :=
    List.eq_replicate_of_mem fun c held => by simpa using List.mem_takeWhile_imp held
  rw [trimZeros, ← List.reverse_replicate, ← zeros, ← List.reverse_append,
    List.takeWhile_append_dropWhile, List.reverse_reverse]

theorem natOfDigits_toDigits (n : Nat) : natOfDigits (Nat.toDigits 10 n) = n :=
  Nat.ofDigitChars_ten_toDigits

theorem isDigits_append_zeros {digits : List Char} (areDigits : IsDigits digits) (count : Nat) :
    IsDigits (digits ++ List.replicate count '0') := by
  refine ⟨List.append_ne_nil_of_left_ne_nil areDigits.nonempty _, ?_⟩
  refine List.forall_mem_append.mpr ⟨areDigits.all, fun c held => ?_⟩
  rw [List.eq_of_mem_replicate held]
  decide

/-- Zeros in front of digits change nothing, and there are as many digits as are needed. -/
theorem padded_toDigits (n places : Nat) :
    (∀ c ∈ List.replicate (places + 1 - (Nat.toDigits 10 n).length) '0' ++ Nat.toDigits 10 n,
      Unicode.isDigit c = true) ∧
    natOfDigits (List.replicate (places + 1 - (Nat.toDigits 10 n).length) '0' ++
      Nat.toDigits 10 n) = n ∧
    places + 1 ≤ (List.replicate (places + 1 - (Nat.toDigits 10 n).length) '0' ++
      Nat.toDigits 10 n).length := by
  refine ⟨List.forall_mem_append.mpr ⟨fun c held => ?_, (isDigits_toDigits n).all⟩, ?_, ?_⟩
  · rw [List.eq_of_mem_replicate held]
    decide
  · rw [natOfDigits_append, natOfDigits_zeros, natOfDigits_toDigits, Nat.mul_zero, Nat.zero_add]
  · rw [List.length_append, List.length_replicate]
    omega

/-- Digits before and after the point write a number, to which zeros at the end add nothing. -/
theorem numeral_trimmed {whole fraction : List Char} (beforePoint : IsDigits whole)
    (digits : ∀ c ∈ fraction, Unicode.isDigit c = true) :
    Numeral (match trimZeros fraction with
      | [] => whole
      | fraction => whole ++ '.' :: fraction)
      (natOfDigits (whole ++ fraction) / 10 ^ fraction.length) := by
  obtain ⟨count, zeros⟩ := trimZeros_append fraction
  generalize trimZeros fraction = trimmed at zeros
  subst zeros
  have same : (natOfDigits (whole ++ (trimmed ++ List.replicate count '0')) : ℚ) /
      10 ^ (trimmed ++ List.replicate count '0').length =
      natOfDigits (whole ++ trimmed) / 10 ^ trimmed.length := by
    rw [← List.append_assoc, natOfDigits_append, natOfDigits_zeros, List.length_append,
      List.length_replicate, Nat.add_zero, Nat.cast_mul, Nat.cast_pow, Nat.cast_ofNat, pow_add,
      mul_comm, mul_div_mul_right _ _ (by positivity)]
  rw [same]
  cases trimmed with
  | nil => simpa using Numeral.whole beforePoint
  | cons c trimmed =>
      exact .decimal beforePoint ⟨List.cons_ne_nil _ _, (List.forall_mem_append.mp digits).1⟩

/-- Digits that are laid out around a point are a numeral of the number that they stand for. -/
theorem numeral_positional (d : Digits) : Numeral d.positional d.value := by
  have areDigits := isDigits_toDigits d.digits
  unfold Digits.positional Digits.value
  split
  · next whole =>
      obtain ⟨places, isPower⟩ : ∃ places : Nat, d.power = places := ⟨d.power.natAbs, by omega⟩
      have numeral := Numeral.whole (isDigits_append_zeros areDigits places)
      rw [natOfDigits_append, natOfDigits_zeros, natOfDigits_toDigits, List.length_replicate,
        Nat.add_zero, mul_comm] at numeral
      rw [isPower, zpow_natCast]
      exact_mod_cast numeral
  · next fraction =>
      obtain ⟨places, isPower⟩ : ∃ places : Nat, d.power = -places := ⟨d.power.natAbs, by omega⟩
      rw [isPower]
      dsimp only
      rw [Int.natAbs_neg, Int.natAbs_natCast]
      obtain ⟨digits, number, length⟩ := padded_toDigits d.digits places
      generalize List.replicate (places + 1 - (Nat.toDigits 10 d.digits).length) '0' ++
        Nat.toDigits 10 d.digits = padded at *
      have beforePoint : IsDigits (padded.take (padded.length - places)) := by
        refine ⟨List.ne_nil_of_length_pos ?_, fun c held => digits c (List.mem_of_mem_take held)⟩
        rw [List.length_take]
        omega
      have numeral := numeral_trimmed beforePoint fun c held =>
        digits c (List.mem_of_mem_drop (i := padded.length - places) held)
      rw [List.take_append_drop, number, List.length_drop,
        show padded.length - (padded.length - places) = places by omega] at numeral
      rwa [zpow_neg, zpow_natCast, ← div_eq_mul_inv]

/-! ## Doubles -/

/-- The text of the double with the given bits, but for its sign. -/
def magnitudeText (n : Nat) : List Char :=
  if n = 0 then ['0'] else (shortest (Binary.nth n)).positional

/-- A double that is a number. -/
def IsFinite (x : Float) : Prop := x.toBits.toNat / fractions % exponents + 1 ≠ exponents

theorem Binary.Proper.low_pos {b : Binary} (proper : b.Proper) : 0 < b.low := by
  have positive : (1 : ℚ) ≤ b.mantissa := by exact_mod_cast proper.positive
  unfold Binary.low
  refine mul_pos ?_ (by positivity)
  split <;> linarith

/-- The text of a double without its sign is a numeral, and its number is read as that double. -/
theorem numeral_magnitudeText {n : Nat} (finite : n / fractions + 1 < exponents) :
    ∃ x, Numeral (magnitudeText n) x ∧
      if n = 0 then x = 0
      else 0 < x ∧ Reads (Binary.nth n).low (Binary.nth n).high (Binary.nth n).isClosed x := by
  unfold magnitudeText
  split
  · have zero := Numeral.whole (isDigits_toDigits 0)
    rw [natOfDigits_toDigits, Nat.toDigits_zero, Nat.cast_zero] at zero
    exact ⟨0, zero, rfl⟩
  · next positive =>
      have proper := Binary.proper_nth (Nat.pos_of_ne_zero positive) finite
      have reads := proper.reads_shortest
      exact ⟨_, numeral_positional _, proper.low_pos.trans_le reads.bounds.1, reads⟩

theorem magnitudeText_injective {n k : Nat} (finite : n / fractions + 1 < exponents)
    (finite' : k / fractions + 1 < exponents) (same : magnitudeText n = magnitudeText k) :
    n = k := by
  obtain ⟨x, numeral, reads⟩ := numeral_magnitudeText finite
  obtain ⟨y, numeral', reads'⟩ := numeral_magnitudeText finite'
  obtain rfl := numeral.unique numeral' same
  split at reads
  · next isZero =>
      split at reads'
      · next isZero' => rw [isZero, isZero']
      · exact absurd reads reads'.1.ne'
  · split at reads'
    · exact absurd reads' reads.1.ne'
    · exact Binary.nth_unique reads.2 reads'.2

theorem toList_text (names : Names) {x : Float} (finite : IsFinite x) :
    (text names x).toList =
      (if magnitudes ≤ x.toBits.toNat then ['-'] else []) ++
        magnitudeText (x.toBits.toNat % magnitudes) := by
  have biased :
      x.toBits.toNat % magnitudes / fractions = x.toBits.toNat / fractions % exponents := by
    rw [magnitudes, Nat.mul_comm, Nat.mod_mul_right_div_self]
  have fraction : x.toBits.toNat % magnitudes % fractions = x.toBits.toNat % fractions :=
    Nat.mod_mod_of_dvd _ (Nat.dvd_mul_left _ _)
  have isZero : x.toBits.toNat % magnitudes = 0 ↔
      x.toBits.toNat / fractions % exponents = 0 ∧ x.toBits.toNat % fractions = 0 := by
    rw [← biased, ← fraction]
    have whole := Nat.div_add_mod (x.toBits.toNat % magnitudes) fractions
    constructor
    · intro none
      rw [none]
      exact ⟨rfl, rfl⟩
    · rintro ⟨none, none'⟩
      rw [← whole, none, none', Nat.mul_zero]
  unfold text magnitudeText Binary.nth
  dsimp only
  rw [if_neg finite, biased, fraction, String.toList_ofList]
  simp only [isZero]
  split <;> rfl

theorem Numeral.starts {chars : List Char} {x : ℚ} (numeral : Numeral chars x) :
    ∃ c rest, chars = c :: rest ∧ Unicode.isDigit c = true := by
  have ofDigits : ∀ {digits : List Char} (more : List Char), IsDigits digits →
      ∃ c rest, digits ++ more = c :: rest ∧ Unicode.isDigit c = true := by
    intro digits more areDigits
    obtain ⟨c, rest, rfl⟩ := List.exists_cons_of_ne_nil areDigits.nonempty
    exact ⟨c, rest ++ more, rfl, areDigits.all c List.mem_cons_self⟩
  cases numeral with
  | whole areDigits => exact List.append_nil chars ▸ ofDigits [] areDigits
  | decimal beforePoint afterPoint => exact ofDigits _ beforePoint

/-- Texts with a sign and without one are different. -/
theorem signed_injective {chars chars' : List Char} {x y : ℚ} {negative negative' : Prop}
    [Decidable negative] [Decidable negative'] (numeral : Numeral chars x)
    (numeral' : Numeral chars' y)
    (same : (if negative then ['-'] else []) ++ chars =
      (if negative' then ['-'] else []) ++ chars') :
    (negative ↔ negative') ∧ chars = chars' := by
  obtain ⟨c, rest, rfl, isDigit⟩ := numeral.starts
  obtain ⟨c', rest', rfl, isDigit'⟩ := numeral'.starts
  have apart : ∀ d, Unicode.isDigit d = true → d ≠ '-' := by
    rintro d isDigit rfl
    cases isDigit
  split at same <;> split at same
  · next left right => exact ⟨iff_of_true left right, List.cons_inj_right _ |>.mp same⟩
  · exact absurd (List.cons.inj same).1.symm (apart c' isDigit')
  · exact absurd (List.cons.inj same).1 (apart c isDigit)
  · next left right => exact ⟨iff_of_false left right, same⟩

theorem finite_magnitude {x : Float} (finite : IsFinite x) :
    x.toBits.toNat % magnitudes / fractions + 1 < exponents := by
  have biased : x.toBits.toNat / fractions % exponents < exponents := Nat.mod_lt _ (by decide)
  rw [magnitudes, Nat.mul_comm, Nat.mod_mul_right_div_self]
  unfold IsFinite at finite
  omega

/-- The text of a finite double tells the double. -/
theorem text_injective {names : Names} {x y : Float} (finite : IsFinite x) (finite' : IsFinite y)
    (same : text names x = text names y) : x = y := by
  have same := congrArg String.toList same
  rw [toList_text names finite, toList_text names finite'] at same
  obtain ⟨_, numeral, _⟩ := numeral_magnitudeText (finite_magnitude finite)
  obtain ⟨_, numeral', _⟩ := numeral_magnitudeText (finite_magnitude finite')
  obtain ⟨sign, magnitude⟩ := signed_injective numeral numeral' same
  have magnitude := magnitudeText_injective (finite_magnitude finite) (finite_magnitude finite')
    magnitude
  have size : magnitudes = 2 ^ 63 := by decide
  have bits := x.toBits.toNat_lt
  have bits' := y.toBits.toNat_lt
  rw [size] at sign magnitude
  refine Float.toBits_inj.mp (UInt64.toNat_inj.mp ?_)
  omega

end Lox.Decimal
