import Mathlib
import Lox.Decimal

/-!
# Counting down in doubles

A natural number that is written out is read as the double nearest to it, which is the number itself
as long as it has at most 53 bits.  Taking one away from such a double is exact; and from a larger
one it leaves a large one.  So counting down from a natural number comes to zero just when it should,
as far as anybody counts.
-/

namespace Lox.Doubles

open Float.Model Float.Model.UnpackedFloat

/-! ## Rounding to 53 bits -/

theorem shiftRight_succ (em : ExtendedMantissa) (shift : Nat) :
    em >>> (shift + 1) = (em >>> shift).shiftRightOne := rfl

theorem mantissa_shiftRight (em : ExtendedMantissa) (shift : Nat) :
    (em >>> shift).mantissa = em.mantissa / 2 ^ shift := by
  induction shift with
  | zero => exact (Nat.div_one _).symm
  | succ shift ih =>
      rw [shiftRight_succ, Nat.pow_succ, ← Nat.div_div_eq_div_mul, ← ih]
      rfl

/-- Nothing is lost if only zeros are shifted out. -/
theorem shiftRight_exact (quotient shift : Nat) :
    (⟨quotient * 2 ^ shift, false, false⟩ : ExtendedMantissa) >>> shift =
      ⟨quotient, false, false⟩ := by
  induction shift generalizing quotient with
  | zero =>
      show (⟨quotient * 2 ^ 0, false, false⟩ : ExtendedMantissa) = _
      rw [pow_zero, Nat.mul_one]
  | succ shift ih =>
      have split : quotient * 2 ^ (shift + 1) = quotient * 2 * 2 ^ shift := by ring
      rw [shiftRight_succ, split, ih]
      simp [ExtendedMantissa.shiftRightOne]

/-- Rounding goes to the number below or to the one above. -/
theorem roundedMantissa_bounds (em : ExtendedMantissa) :
    em.mantissa ≤ em.roundedMantissa ∧ em.roundedMantissa ≤ em.mantissa + 1 := by
  obtain ⟨mantissa, round, sticky⟩ := em
  cases round <;> cases sticky <;>
    simp [ExtendedMantissa.roundedMantissa, ExtendedMantissa.accuracy, Accuracy.roundToNearestEven]
  omega

theorem targetExponent_eq {mantissa : Nat} {exponent : Int} (high : -1000 ≤ exponent) :
    Format.binary64.targetExponent (totalExponent mantissa exponent) =
      max (mantissa.log2 + exponent - 52) (-1074) := by
  simp only [Format.targetExponent, totalExponent, Format.mantissaBits, Format.minExponent]
  norm_num
  omega

/-- What is rounded is shifted once by what it has in excess of 53 bits. -/
theorem shiftToTargetExponent_eq {mantissa : Nat} {exponent : Int} (high : -1000 ≤ exponent)
    (bits : 52 ≤ mantissa.log2) :
    shiftToTargetExponent .binary64 mantissa exponent .exact =
      ((⟨mantissa, false, false⟩ : ExtendedMantissa) >>> (mantissa.log2 - 52),
        exponent + (mantissa.log2 - 52 : Nat)) := by
  have shift : (Format.binary64.targetExponent (totalExponent mantissa exponent) - exponent).toNat =
      mantissa.log2 - 52 := by
    rw [targetExponent_eq high]
    omega
  simp only [shiftToTargetExponent, shiftToExponent, shift,
    ExtendedMantissa.ofMantissaAndAccuracy]

/--
A double of 53 bits, that is what is left of a larger mantissa with the given exponent: it is at
least every multiple of the last bit that the mantissa is, and the mantissa itself if this is one.
-/
structure Rounds (mantissa : Nat) (exponent : Int) (rounded : Nat) (exponent' : Int) : Prop where
  bits : rounded.log2 = 52
  above : exponent + (mantissa.log2 - 52 : Nat) ≤ exponent'
  least : ∀ bound, 2 ^ (mantissa.log2 - 52) ∣ bound → bound ≤ mantissa →
    bound ≤ rounded * 2 ^ (exponent' - exponent).toNat
  exact : 2 ^ (mantissa.log2 - 52) ∣ mantissa →
    rounded * 2 ^ (exponent' - exponent).toNat = mantissa

theorem log2_eq {mantissa bits : Nat} (low : 2 ^ bits ≤ mantissa) (high : mantissa < 2 ^ (bits + 1)) :
    mantissa.log2 = bits := by
  have positive : mantissa ≠ 0 := by
    have := Nat.two_pow_pos bits
    omega
  have := (Nat.le_log2 positive).mpr low
  have := (Nat.log2_lt positive).mpr high
  omega

theorem roundWithAccuracy_eq {mantissa : Nat} {exponent exponent' exponent'' : Int}
    {em final : ExtendedMantissa}
    (first : shiftToTargetExponent .binary64 mantissa exponent .exact = (em, exponent'))
    (second : shiftToTargetExponent .binary64 em.roundedMantissa exponent' .exact =
      (final, exponent''))
    (positive : 0 < final.mantissa) :
    roundWithAccuracy .binary64 .positive mantissa exponent .exact =
      .finite .positive final.mantissa exponent'' positive := by
  simp only [roundWithAccuracy, first, second, Nat.ne_of_gt positive, ↓reduceDIte]

theorem roundWithAccuracy_rounds (mantissa : Nat) (exponent : Int) (high : -1000 ≤ exponent)
    (bits : 52 ≤ mantissa.log2) :
    ∃ rounded exponent' positive,
      roundWithAccuracy .binary64 .positive mantissa exponent .exact =
        .finite .positive rounded exponent' positive ∧
      Rounds mantissa exponent rounded exponent' := by
  have positive : mantissa ≠ 0 := by
    rintro rfl
    simp at bits
  obtain ⟨shift, isShift⟩ : ∃ shift, mantissa.log2 = 52 + shift := ⟨mantissa.log2 - 52, by omega⟩
  have excess : mantissa.log2 - 52 = shift := by omega
  have first := shiftToTargetExponent_eq high bits
  rw [excess] at first
  obtain ⟨below, above⟩ :=
    roundedMantissa_bounds ((⟨mantissa, false, false⟩ : ExtendedMantissa) >>> shift)
  rw [mantissa_shiftRight] at below above
  dsimp only at below above
  have low : 2 ^ 52 ≤ mantissa / 2 ^ shift := by
    rw [Nat.le_div_iff_mul_le (Nat.two_pow_pos shift), ← Nat.pow_add, ← isShift]
    exact Nat.log2_self_le positive
  have upper : mantissa / 2 ^ shift < 2 ^ 53 := by
    rw [Nat.div_lt_iff_lt_mul (Nat.two_pow_pos shift), ← Nat.pow_add]
    have := Nat.lt_log2_self (n := mantissa)
    rwa [isShift, show 52 + shift + 1 = 53 + shift by omega] at this
  have isExact : 2 ^ shift ∣ mantissa →
      ((⟨mantissa, false, false⟩ : ExtendedMantissa) >>> shift).roundedMantissa =
        mantissa / 2 ^ shift := by
    rintro ⟨quotient, rfl⟩
    rw [Nat.mul_comm, shiftRight_exact, Nat.mul_div_cancel _ (Nat.two_pow_pos shift)]
    rfl
  revert first below above isExact
  generalize (⟨mantissa, false, false⟩ : ExtendedMantissa) >>> shift = em
  generalize rounding : em.roundedMantissa = rounded
  intro first below above isExact
  have rounds {m : Nat} {e : Int} (log : m.log2 = 52) (above : exponent + (shift : Nat) ≤ e)
      (same : m * 2 ^ (e - exponent).toNat = rounded * 2 ^ shift) :
      Rounds mantissa exponent m e := by
    refine ⟨log, excess ▸ above, ?_, ?_⟩
    · rw [excess, same]
      rintro _ ⟨quotient, rfl⟩ small
      have fits : quotient ≤ mantissa / 2 ^ shift := by
        rwa [Nat.le_div_iff_mul_le (Nat.two_pow_pos shift), Nat.mul_comm]
      rw [Nat.mul_comm]
      exact Nat.mul_le_mul_right _ (fits.trans below)
    · rw [excess, same]
      intro divides
      rw [isExact divides, Nat.div_mul_cancel divides]
  -- What is rounded has 53 bits, or it is the least number that has one more.
  by_cases fits : rounded < 2 ^ 53
  · have log : rounded.log2 = 52 := log2_eq (low.trans below) fits
    have second : shiftToTargetExponent .binary64 em.roundedMantissa (exponent + shift) .exact =
        (⟨rounded, false, false⟩, exponent + shift) := by
      rw [rounding, shiftToTargetExponent_eq (by omega) (by omega), log]
      simp only [Nat.sub_self, Nat.cast_zero, add_zero, Prod.mk.injEq, and_true]
      rfl
    refine ⟨rounded, exponent + shift, by omega, roundWithAccuracy_eq first second _, ?_⟩
    exact rounds log (by omega) (by rw [show (exponent + shift - exponent).toNat = shift by omega])
  · obtain rfl : rounded = 2 ^ 53 := by omega
    have second : shiftToTargetExponent .binary64 em.roundedMantissa (exponent + shift) .exact =
        (⟨2 ^ 52, false, false⟩, exponent + shift + 1) := by
      rw [rounding, shiftToTargetExponent_eq (by omega) (by rw [Nat.log2_two_pow]; omega),
        Nat.log2_two_pow, show (2 ^ 53 : Nat) = 2 ^ 52 * 2 ^ 1 by norm_num, shiftRight_exact]
      rfl
    refine ⟨2 ^ 52, exponent + shift + 1, by norm_num, roundWithAccuracy_eq first second _, ?_⟩
    refine rounds Nat.log2_two_pow (by omega) ?_
    rw [show (exponent + shift + 1 - exponent).toNat = shift + 1 by omega, Nat.pow_succ]
    ring

/-! ## Packing -/

theorem unpackSign_positive (exponent : BitVec 11) (mantissa : BitVec 52) :
    unpackSign (packComponents .binary64 .positive exponent mantissa) = 0#1 := by
  apply BitVec.eq_of_getLsbD_eq
  intro i small
  obtain rfl : i = 0 := by omega
  have bit : (0#1 ++ exponent ++ mantissa).getLsbD 63 = false := by
    rw [BitVec.getLsbD_append, BitVec.getLsbD_append]
    rfl
  simp only [unpackSign, packComponents, Sign.toBitVec, BitVec.getLsbD_cast, BitVec.getLsbD_extractLsb]
  simp [bit]

theorem toNat_implicit (mantissa : BitVec 52) :
    (1#1 ++ mantissa).toNat = 2 ^ 52 + mantissa.toNat := by
  rw [BitVec.toNat_append, ← Nat.shiftLeft_add_eq_or_of_lt mantissa.isLt]
  rfl

/-- The double of some bits, if it is a positive one with an implicit first bit. -/
theorem unpack_normal {exponent : BitVec 11} (mantissa : BitVec 52) {full : Nat} {power : Int}
    (positive : 0 < full) (regular : exponent ≠ -1#11) (normal : exponent ≠ 0#11)
    (isFull : 2 ^ 52 + mantissa.toNat = full)
    (isPower : (exponent.toNat : Int) - 1075 = power) :
    UnpackedFloat.unpack .binary64 (packComponents .binary64 .positive exponent mantissa) =
      .finite .positive full power positive := by
  subst isFull isPower
  unfold UnpackedFloat.unpack
  simp only [unpackMantissa_packComponents, unpackExponent_packComponents]
  erw [unpackSign_positive]
  rw [if_neg regular, if_neg normal]
  simp only [toNat_implicit]
  rfl

/-- Packing keeps a double of 53 bits, unless it is too large. -/
theorem unpack_pack_finite {mantissa : Nat} {exponent : Int} (positive : 0 < mantissa)
    (bits : mantissa.log2 = 52) (low : -52 ≤ exponent) :
    (pack (.finite .positive mantissa exponent positive)).unpack =
      if exponent ≤ 971 then .finite .positive mantissa exponent positive
      else .infinity .positive := by
  obtain ⟨biased, isBiased⟩ : ∃ biased : Nat, (biased : Int) = exponent + 1075 :=
    ⟨(exponent + 1075).toNat, by omega⟩
  have biasedEq : (exponent + (Format.binary64.exponentBias : Int) + (52 : Nat)).toNat = biased := by
    norm_num [Format.exponentBias]
    omega
  have packed : UnpackedFloat.pack .binary64 (.finite .positive mantissa exponent positive) =
      if 2 ^ 11 ≤ biased + 1 then packedInfinity .binary64 .positive
      else packComponents .binary64 .positive (BitVec.ofNat 11 biased) (BitVec.ofNat 52 mantissa) := by
    rw [UnpackedFloat.pack, biasedEq, bits]
    rfl
  show UnpackedFloat.unpack .binary64 (UnpackedFloat.pack .binary64 _) = _
  rw [packed]
  by_cases fits : exponent ≤ 971
  · rw [if_neg (by omega), if_pos fits]
    have small : (BitVec.ofNat 11 biased).toNat = biased := by
      rw [BitVec.toNat_ofNat, Nat.mod_eq_of_lt (by omega)]
    refine unpack_normal _ positive ?_ ?_ ?_ (by omega)
    · intro same
      have := congrArg BitVec.toNat same
      rw [small] at this
      simp at this
      omega
    · intro same
      have := congrArg BitVec.toNat same
      rw [small] at this
      simp at this
      omega
    · have := Nat.log2_self_le positive.ne'
      have := Nat.lt_log2_self (n := mantissa)
      rw [bits] at *
      rw [BitVec.toNat_ofNat]
      omega
  · rw [if_pos (by omega), if_neg fits]
    rfl
/-! ## Doubles that are counted down from -/

/-- A positive double of 53 bits, the last of which counts at least `2 ^ -52`, in such units. -/
structure Counts (mantissa : Nat) (exponent : Int) (units : Nat) : Prop where
  bits : mantissa.log2 = 52
  low : -52 ≤ exponent
  units : mantissa * 2 ^ (exponent + 52).toNat = units

/-- The double is the natural number. -/
inductive Is : Nat → UnpackedFloat → Prop where
  | zero : Is 0 (.zero .positive)
  | positive {n mantissa : Nat} {exponent : Int} (positive : 0 < mantissa)
      (counts : Counts mantissa exponent (n * 2 ^ 52)) :
      Is n (.finite .positive mantissa exponent positive)

/-- The double is the natural number or more. -/
inductive AtLeast (n : Nat) : UnpackedFloat → Prop where
  | infinite : AtLeast n (.infinity .positive)
  | finite {mantissa units : Nat} {exponent : Int} (positive : 0 < mantissa)
      (counts : Counts mantissa exponent units) (least : n * 2 ^ 52 ≤ units) :
      AtLeast n (.finite .positive mantissa exponent positive)

/-! ## Taking one away -/

/-- The difference to one, in units. -/
theorem sub_one {mantissa units : Nat} {exponent : Int} (positive : 0 < mantissa)
    (counts : Counts mantissa exponent units) (one : 0 < 2 ^ 52) :
    sub .binary64 (.finite .positive mantissa exponent positive)
      (.finite .positive (2 ^ 52) (-52) one) =
      UnpackedFloat.normalize .binary64 (units - (2 ^ 52 : Nat)) (-52) .positive := by
  have low := counts.low
  have smaller : min exponent (-52) = -52 := by omega
  have scaled : decreaseExponent mantissa exponent (-52) = (units, -52) := by
    have shifted : mantissa <<< (exponent - -52).toNat = units := by
      rw [sub_neg_eq_add, Nat.shiftLeft_eq, counts.units]
    have lowered : exponent - (exponent - -52).toNat = -52 := by omega
    unfold decreaseExponent
    dsimp only
    rw [shifted, lowered]
  unfold UnpackedFloat.sub
  dsimp only
  rw [smaller, scaled]
  rfl

/-- A difference of at least one has no bit below the last one that counts. -/
theorem normalize_rounds (units : Nat) (many : 2 ^ 52 ≤ units) :
    ∃ rounded exponent positive,
      UnpackedFloat.normalize .binary64 units (-52) .positive = .finite .positive rounded exponent positive ∧
      Rounds units (-52) rounded exponent := by
  have bits : 52 ≤ units.log2 := (Nat.le_log2 (by omega)).mpr many
  obtain ⟨rounded, exponent, positive, rounding, rounds⟩ :=
    roundWithAccuracy_rounds units (-52) (by omega) bits
  refine ⟨rounded, exponent, positive, ?_, rounds⟩
  have kept : decreaseExponent units (-52)
      (Format.binary64.targetExponent (totalExponent units (-52))) = (units, -52) := by
    have shift : (-52 - Format.binary64.targetExponent (totalExponent units (-52))).toNat = 0 := by
      rw [targetExponent_eq (by omega)]
      omega
    unfold decreaseExponent
    rw [shift]
    rfl
  have above : compare (units : Int) 0 = .gt := Int.compare_eq_gt.mpr (by omega)
  unfold UnpackedFloat.normalize
  rw [above]
  dsimp only
  rw [Int.toNat_natCast, UnpackedFloat.round]
  dsimp only
  rw [kept]
  exact rounding

/-- Packing keeps a large double large. -/
theorem Counts.atLeast {n mantissa units : Nat} {exponent : Int}
    (counts : Counts mantissa exponent units) (positive : 0 < mantissa)
    (least : n * 2 ^ 52 ≤ units) :
    AtLeast n (pack (.finite .positive mantissa exponent positive)).unpack := by
  rw [unpack_pack_finite positive counts.bits counts.low]
  split
  · exact .finite positive counts least
  · exact .infinite

/-- Packing keeps a natural number of 53 bits. -/
theorem Counts.is {n mantissa : Nat} {exponent : Int}
    (counts : Counts mantissa exponent (n * 2 ^ 52)) (positive : 0 < mantissa) (small : n < 2 ^ 53) :
    Is n (pack (.finite .positive mantissa exponent positive)).unpack := by
  have many : 2 ^ 52 ≤ mantissa := counts.bits ▸ Nat.log2_self_le positive.ne'
  have power : 2 ^ (exponent + 52).toNat ≤ n := by
    have least := Nat.mul_le_mul_right (2 ^ (exponent + 52).toNat) many
    rw [counts.units, Nat.mul_comm] at least
    exact Nat.le_of_mul_le_mul_right least (Nat.two_pow_pos 52)
  have fits : (exponent + 52).toNat < 53 :=
    (Nat.pow_lt_pow_iff_right (by omega)).mp (Nat.lt_of_le_of_lt power small)
  rw [unpack_pack_finite positive counts.bits counts.low, if_pos (by omega)]
  exact .positive positive counts

/-- Rounding does not take a number below a natural number of 53 bits. -/
theorem Rounds.le {n shift mantissa rounded : Nat} {exponent exponent' : Int}
    (rounds : Rounds mantissa exponent rounded exponent') (small : n < 2 ^ 53)
    (least : n * 2 ^ shift ≤ mantissa) :
    n * 2 ^ shift ≤ rounded * 2 ^ (exponent' - exponent).toNat := by
  by_cases few : mantissa.log2 - 52 ≤ shift
  · exact rounds.least _ ((pow_dvd_pow 2 few).mul_left n) least
  · have many : 2 ^ 52 ≤ rounded := by
      have positive : rounded ≠ 0 := by
        rintro rfl
        exact absurd rounds.bits (by decide)
      exact rounds.bits ▸ Nat.log2_self_le positive
    have := rounds.above
    have high : 2 ^ (shift + 1) ≤ 2 ^ (exponent' - exponent).toNat :=
      Nat.pow_le_pow_right (by omega) (by omega)
    calc n * 2 ^ shift ≤ 2 ^ 53 * 2 ^ shift := Nat.mul_le_mul_right _ small.le
      _ = 2 ^ 52 * 2 ^ (shift + 1) := by ring
      _ ≤ rounded * 2 ^ (exponent' - exponent).toNat := Nat.mul_le_mul many high

/-- Rounding keeps a natural number of 53 bits. -/
theorem Rounds.eq {n shift mantissa rounded : Nat} {exponent exponent' : Int}
    (rounds : Rounds mantissa exponent rounded exponent') (small : n < 2 ^ 53)
    (whole : mantissa = n * 2 ^ shift) :
    rounded * 2 ^ (exponent' - exponent).toNat = n * 2 ^ shift := by
  rw [rounds.exact, whole]
  have few : mantissa.log2 < 53 + shift := by
    by_cases zero : mantissa = 0
    · rw [zero]
      exact Nat.lt_of_lt_of_le (by decide) (Nat.le_add_right 53 shift)
    · rw [Nat.log2_lt zero, whole, Nat.pow_add]
      exact Nat.mul_lt_mul_of_pos_right small (Nat.two_pow_pos shift)
  rw [whole] at few ⊢
  exact (pow_dvd_pow 2 (by omega)).mul_left n

/-- What is rounded from units is counted in units. -/
theorem Rounds.counts {mantissa rounded : Nat} {exponent : Int}
    (rounds : Rounds mantissa (-52) rounded exponent) :
    Counts rounded exponent (rounded * 2 ^ (exponent - -52).toNat) := by
  have := rounds.above
  exact ⟨rounds.bits, by omega, by rw [sub_neg_eq_add]⟩

/-- One as a double. -/
def one : UnpackedFloat := .finite .positive (2 ^ 52) (-52) (by decide)

/-- A natural number less one, for a positive one. -/
theorem Is.sub_one {n : Nat} {x : UnpackedFloat} (isNat : Is (n + 1) x) (small : n < 2 ^ 53) :
    Is n (pack (sub .binary64 x one)).unpack := by
  cases isNat with
  | positive positive counts =>
  have difference : (((n + 1) * 2 ^ 52 : Nat) : Int) - (2 ^ 52 : Nat) = (n * 2 ^ 52 : Nat) := by
    push_cast
    ring
  rw [one, Doubles.sub_one positive counts, difference]
  cases n with
  | zero => exact .zero
  | succ n =>
      obtain ⟨rounded, exponent, positive, normal, rounds⟩ :=
        normalize_rounds ((n + 1) * 2 ^ 52) (by omega)
      have counts := rounds.counts
      rw [rounds.eq small rfl] at counts
      rw [normal]
      exact counts.is positive small

/-- A double of more than one less one. -/
theorem AtLeast.sub_one {n : Nat} {x : UnpackedFloat} (atLeast : AtLeast (n + 2) x)
    (small : n + 1 < 2 ^ 53) : AtLeast (n + 1) (pack (sub .binary64 x one)).unpack := by
  cases atLeast with
  | infinite => exact .infinite
  | @finite mantissa units exponent positive counts least =>
      rw [Nat.succ_mul] at least
      obtain ⟨rest, rfl⟩ : ∃ rest, units = rest + 2 ^ 52 := ⟨units - 2 ^ 52, by omega⟩
      have enough : (n + 1) * 2 ^ 52 ≤ rest := Nat.le_of_add_le_add_right least
      have difference : ((rest + 2 ^ 52 : Nat) : Int) - (2 ^ 52 : Nat) = (rest : Nat) := by
        push_cast
        ring
      rw [one, Doubles.sub_one positive counts, difference]
      obtain ⟨rounded, exponent, positive, normal, rounds⟩ :=
        normalize_rounds rest (by omega)
      have still := rounds.le small enough
      rw [normal]
      exact rounds.counts.atLeast positive still

/-! ## Numerals -/

theorem natOfDigits_toDigits (n : Nat) : Decimal.natOfDigits (Nat.toDigits 10 n) = n :=
  Nat.ofDigitChars_ten_toDigits

/-- A natural number of 53 bits is a double. -/
theorem is_toFloat {n : Nat} (small : n < 2 ^ 53) : Is n n.toUInt64.toFloat.toModel.unpack := by
  have same : n.toUInt64.toNat = n :=
    UInt64.toNat_ofNat_of_lt' (Nat.lt_trans small (by decide))
  show Is n (pack (ofNat .binary64 n.toUInt64.toNat)).unpack
  rw [same]
  unfold UnpackedFloat.ofNat UnpackedFloat.ofInt UnpackedFloat.normalize
  by_cases zero : n = 0
  · subst zero
    exact .zero
  rw [show compare (n : Int) 0 = .gt from Int.compare_eq_gt.mpr (by omega)]
  dsimp only
  rw [Int.toNat_natCast, UnpackedFloat.round]
  have bits : n.log2 < 53 := (Nat.log2_lt zero).mpr small
  obtain ⟨missing, isMissing⟩ : ∃ missing, n.log2 + missing = 52 := ⟨52 - n.log2, by omega⟩
  have raised : decreaseExponent n 0 (Format.binary64.targetExponent (totalExponent n 0)) =
      (n * 2 ^ missing, -(missing : Int)) := by
    have shift : (0 - Format.binary64.targetExponent (totalExponent n 0)).toNat = missing := by
      rw [targetExponent_eq (by omega)]
      omega
    unfold decreaseExponent
    rw [shift]
    simp [Nat.shiftLeft_eq]
  dsimp only
  rw [raised]
  dsimp only
  have log : (n * 2 ^ missing).log2 = 52 := by
    have low := Nat.mul_le_mul_right (2 ^ missing) (Nat.log2_self_le zero)
    have high := Nat.mul_lt_mul_of_pos_right (Nat.lt_log2_self (n := n)) (Nat.two_pow_pos missing)
    rw [← Nat.pow_add] at low high
    refine log2_eq ?_ ?_
    · rwa [isMissing] at low
    · rwa [show n.log2 + 1 + missing = 53 by omega] at high
  obtain ⟨rounded, exponent, positive, rounding, rounds⟩ :=
    roundWithAccuracy_rounds (n * 2 ^ missing) (-missing) (by omega) log.ge
  have whole := rounds.exact (by rw [log]; exact one_dvd _)
  have above := rounds.above
  have counts : Counts rounded exponent (n * 2 ^ 52) := by
    refine ⟨rounds.bits, by omega, ?_⟩
    rw [show (exponent + 52).toNat = (exponent - -(missing : Int)).toNat + n.log2 by omega,
      Nat.pow_add, ← Nat.mul_assoc, whole, Nat.mul_assoc, ← Nat.pow_add,
      show missing + n.log2 = 52 by omega]
  rw [rounding]
  exact counts.is positive small

/-- Division by one changes nothing. -/
theorem Is.div_one {n : Nat} {x : UnpackedFloat} (isNat : Is n x) (small : n < 2 ^ 53) :
    Is n (pack (div .binary64 x one)).unpack := by
  cases isNat with
  | zero => exact .zero
  | @positive _ mantissa exponent positive counts =>
      have low := counts.low
      have unit : Nat.log2 1 = 0 := by decide
      have quotient : divCore .binary64 mantissa exponent (2 ^ 52) (-52) =
          (mantissa * 2, exponent - 1, .exact) := by
        have total : totalExponent mantissa exponent - totalExponent (2 ^ 52) (-52) =
            totalExponent 1 (exponent + 51) := by
          simp only [totalExponent, counts.bits, Nat.log2_two_pow, unit]
          norm_num
          omega
        have target : min (exponent - -52) (Format.binary64.targetExponent
            (totalExponent mantissa exponent - totalExponent (2 ^ 52) (-52))) = exponent - 1 := by
          rw [total, targetExponent_eq (by omega), unit]
          omega
        have shift : (exponent - -52 - (exponent - 1)).toNat = 53 := by omega
        have split : mantissa <<< 53 = mantissa * 2 * 2 ^ 52 := by
          rw [Nat.shiftLeft_eq]
          ring
        unfold divCore
        dsimp only
        rw [target, shift, split, Nat.mul_div_cancel _ (Nat.two_pow_pos 52), Nat.mul_mod_left]
        rfl
      have log : (mantissa * 2).log2 = 53 := by
        have least := Nat.log2_self_le positive.ne'
        have most := Nat.lt_log2_self (n := mantissa)
        rw [counts.bits] at least most
        exact log2_eq (by omega) (by omega)
      obtain ⟨rounded, exponent', positive', rounding, rounds⟩ :=
        roundWithAccuracy_rounds (mantissa * 2) (exponent - 1) (by omega) (by omega)
      have whole := rounds.exact (by rw [log]; exact Nat.dvd_mul_left _ _)
      have above := rounds.above
      rw [log] at above
      have counts' : Counts rounded exponent' (n * 2 ^ 52) := by
        refine ⟨rounds.bits, by omega, ?_⟩
        rw [show (exponent' - (exponent - 1)).toNat = (exponent' - exponent).toNat + 1 by omega,
          Nat.pow_succ, ← Nat.mul_assoc] at whole
        have same := Nat.eq_of_mul_eq_mul_right (by omega) whole
        rw [show (exponent' + 52).toNat = (exponent' - exponent).toNat + (exponent + 52).toNat by
          omega, Nat.pow_add, ← Nat.mul_assoc, same, counts.units]
      unfold UnpackedFloat.div one
      dsimp only
      rw [quotient]
      dsimp only
      rw [show (Sign.positive / Sign.positive : Sign) = .positive from rfl, rounding]
      exact counts'.is positive' small

theorem ofScientific_eq {n : Nat} (positive : n ≠ 0) :
    UnpackedFloat.ofScientific .binary64 n 0 =
      roundWithAccuracy .binary64 .positive (n * 2 ^ 53) (-53) .exact := by
  have shifted : n <<< 53 * 1 = n * 2 ^ 53 := by rw [Nat.mul_one, Nat.shiftLeft_eq]
  rw [← shifted]
  unfold UnpackedFloat.ofScientific
  rw [dif_neg positive, if_neg (by norm_num), if_neg (by norm_num), if_pos le_rfl]
  rfl

/-- A larger natural number is read as a large double. -/
theorem atLeast_ofScientific {n : Nat} (large : 2 ^ 53 ≤ n) :
    AtLeast (2 ^ 53 - 1) (Float.Model.ofScientific n 0).unpack := by
  have bits : 53 ≤ n.log2 := (Nat.le_log2 (by omega)).mpr large
  have log : 106 ≤ (n * 2 ^ 53).log2 := by
    refine (Nat.le_log2 (by omega)).mpr ?_
    rw [show 106 = 53 + 53 from rfl, Nat.pow_add]
    exact Nat.mul_le_mul_right _ large
  obtain ⟨rounded, exponent, positive, rounding, rounds⟩ :=
    roundWithAccuracy_rounds (n * 2 ^ 53) (-53) (by omega) (by omega)
  have above := rounds.above
  have enough : (2 ^ 53 - 1) * 2 ^ 53 ≤ n * 2 ^ 53 := Nat.mul_le_mul_right _ (by omega)
  have least := rounds.le (by omega) enough
  have counts : Counts rounded exponent (rounded * 2 ^ (exponent + 52).toNat) :=
    ⟨rounds.bits, by omega, rfl⟩
  show AtLeast _ (pack (UnpackedFloat.ofScientific .binary64 n 0)).unpack
  rw [ofScientific_eq (by omega), rounding]
  refine counts.atLeast positive ?_
  have split : 2 ^ (exponent - -53).toNat = 2 ^ (exponent + 52).toNat * 2 := by
    rw [← Nat.pow_succ]
    congr 1
    omega
  rw [split, ← Nat.mul_assoc] at least
  omega

/-- The value of a natural number that is written out. -/
def numeral (n : Nat) : Float := Decimal.ofDigits (Nat.toDigits 10 n) []

theorem numeral_eq (n : Nat) : numeral n = Float.ofScientific n true 0 := by
  unfold numeral Decimal.ofDigits
  rw [List.append_nil, natOfDigits_toDigits]
  rfl

/-- The first power of ten is one. -/
theorem unpack_powerOfTen :
    (getElem Float.exactlyRepresentablePowersOfTen 0 (by decide)).toModel.unpack = one := by rfl

theorem is_numeral {n : Nat} (small : n < 2 ^ 53) : Is n (numeral n).toModel.unpack := by
  have quotient := (is_toFloat small).div_one small
  rw [← unpack_powerOfTen] at quotient
  rw [numeral_eq, Float.ofScientific, dif_pos ⟨small, by omega⟩]
  exact quotient

theorem atLeast_numeral {n : Nat} (large : 2 ^ 53 ≤ n) :
    AtLeast (2 ^ 53 - 1) (numeral n).toModel.unpack := by
  rw [numeral_eq, Float.ofScientific, dif_neg fun few => absurd few.1 (by omega)]
  exact atLeast_ofScientific large

/-! ## Counting down -/

theorem unpack_sub_one (x : Float) :
    (x - numeral 1).toModel.unpack = (pack (sub .binary64 x.toModel.unpack one)).unpack := by
  have isOne : (numeral 1).toModel.unpack = one := by rfl
  rw [← isOne]
  rfl

theorem beq_zero (x : Float) :
    (x == numeral 0) = x.toModel.unpack.beq (.zero .positive) := by
  have isZero : (numeral 0).toModel.unpack = .zero .positive := by rfl
  rw [← isZero]
  rfl

theorem Is.beq_zero {n : Nat} {x : UnpackedFloat} (isNat : Is n x) :
    x.beq (.zero .positive) = decide (n = 0) := by
  cases isNat with
  | zero => rfl
  | @positive _ mantissa exponent positive counts =>
      have some : n ≠ 0 := by
        rintro rfl
        have := Nat.mul_pos positive (Nat.two_pow_pos (exponent + 52).toNat)
        rw [counts.units] at this
        omega
      rw [decide_eq_false some]
      rfl

theorem AtLeast.beq_zero {n : Nat} {x : UnpackedFloat} (atLeast : AtLeast n x) :
    x.beq (.zero .positive) = false := by
  cases atLeast <;> rfl

/-- What is left of a numeral after taking one away some times. -/
def countdown (n : Nat) : Nat → Float
  | 0 => numeral n
  | taken + 1 => countdown n taken - numeral 1

theorem is_countdown {n taken : Nat} (small : n < 2 ^ 53) (enough : taken ≤ n) :
    Is (n - taken) (countdown n taken).toModel.unpack := by
  induction taken with
  | zero => exact is_numeral small
  | succ taken ih =>
      have before := ih (Nat.le_of_succ_le enough)
      rw [show n - taken = n - (taken + 1) + 1 by omega] at before
      rw [countdown, unpack_sub_one]
      exact before.sub_one (by omega)

theorem atLeast_countdown {n taken : Nat} (large : 2 ^ 53 ≤ n) (few : taken + 2 ≤ 2 ^ 53) :
    AtLeast (2 ^ 53 - 1 - taken) (countdown n taken).toModel.unpack := by
  induction taken with
  | zero => exact atLeast_numeral large
  | succ taken ih =>
      have before := ih (by omega)
      rw [show 2 ^ 53 - 1 - taken = 2 ^ 53 - 1 - (taken + 2) + 2 by omega] at before
      rw [countdown, unpack_sub_one, show 2 ^ 53 - 1 - (taken + 1) = 2 ^ 53 - 1 - (taken + 2) + 1 by
        omega]
      exact before.sub_one (by omega)

/-- Counting down from a natural number comes to zero when it should, not earlier. -/
theorem countdown_beq_zero {n taken : Nat} (enough : taken ≤ n) (few : taken + 2 ≤ 2 ^ 53) :
    (countdown n taken == numeral 0) = decide (taken = n) := by
  rw [beq_zero]
  by_cases small : n < 2 ^ 53
  · rw [(is_countdown small enough).beq_zero, decide_eq_decide]
    omega
  · rw [(atLeast_countdown (Nat.le_of_not_lt small) few).beq_zero]
    exact (decide_eq_false (by omega)).symm

end Lox.Doubles
