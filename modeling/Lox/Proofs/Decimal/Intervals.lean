import Mathlib
import Lox.Decimal

/-!
# The digits of a double are read as the double

A positive double stands for an interval of numbers, from half way to the double below it up to half
way to the one above; the ends belong to it if its mantissa is even.  The fewest digits are looked
for on finer and finer grids, and seventeen digits make a grid that is finer than any interval: so
digits are found, and the number that they write lies in the interval of the double.
-/

namespace Lox.Decimal

/-! ## Numbers -/

def Ratio.value (ratio : Ratio) : ℚ := ratio.num / ratio.den

def Digits.value (d : Digits) : ℚ := d.digits * 10 ^ d.power

def Binary.value (b : Binary) : ℚ := b.mantissa * 2 ^ b.exponent

section Ratio

variable {ratio : Ratio} {base : Nat}

theorem Ratio.den_scale (positive : 0 < ratio.den) (some : 0 < base) (power : Int) :
    0 < (ratio.scale base power).den := by
  unfold scale
  split
  · exact Nat.mul_pos positive (Nat.pow_pos some)
  · exact positive

theorem Ratio.value_scale (ratio : Ratio) (power : Int) :
    (ratio.scale base power).value = ratio.value * (base : ℚ) ^ power := by
  unfold scale value
  split
  · next below =>
      obtain ⟨n, rfl⟩ : ∃ n : Nat, power = -n := ⟨power.natAbs, by omega⟩
      rw [zpow_neg, zpow_natCast, ← div_eq_mul_inv, div_div]
      simp
  · next above =>
      obtain ⟨n, rfl⟩ : ∃ n : Nat, power = n := ⟨power.natAbs, by omega⟩
      rw [zpow_natCast, div_mul_eq_mul_div]
      simp

theorem Ratio.value_le_iff (positive : 0 < ratio.den) (n : Nat) :
    ratio.value ≤ n ↔ ratio.num ≤ n * ratio.den := by
  have positive : (0 : ℚ) < ratio.den := by exact_mod_cast positive
  rw [value, div_le_iff₀ positive]
  exact_mod_cast Iff.rfl

theorem Ratio.le_value_iff (positive : 0 < ratio.den) (n : Nat) :
    n ≤ ratio.value ↔ n * ratio.den ≤ ratio.num := by
  have positive : (0 : ℚ) < ratio.den := by exact_mod_cast positive
  rw [value, le_div_iff₀ positive]
  exact_mod_cast Iff.rfl

end Ratio

/-! ## Grids -/

/-- Between two ends, which may be met if the interval is closed. -/
def Reads (low high : ℚ) (closed : Bool) (x : ℚ) : Prop :=
  if closed then low ≤ x ∧ x ≤ high else low < x ∧ x < high

theorem Reads.of_lt {low high x : ℚ} {closed : Bool} (above : low < x) (below : x < high) :
    Reads low high closed x := by
  cases closed with
  | true => exact ⟨above.le, below.le⟩
  | false => exact ⟨above, below⟩

theorem reads_iff_of_lt_high {low high x : ℚ} {closed : Bool} (inside : x < high) :
    Reads low high closed x ↔ if closed then low ≤ x else low < x := by
  cases closed <;> simp [Reads, inside, inside.le]

theorem reads_iff_of_low_lt {low high x : ℚ} {closed : Bool} (inside : low < x) :
    Reads low high closed x ↔ if closed then x ≤ high else x < high := by
  cases closed <;> simp [Reads, inside, inside.le]

theorem Reads.bounds {low high x : ℚ} {closed : Bool} (reads : Reads low high closed x) :
    low ≤ x ∧ x ≤ high := by
  cases closed with
  | true => exact reads
  | false => exact ⟨reads.1.le, reads.2.le⟩

section Grid

variable {value low high : Ratio} {closed : Bool} {power : Int}

theorem le_point_iff {n : Nat} {x : ℚ} : x ≤ n * 10 ^ power ↔ x * 10 ^ (-power) ≤ n := by
  rw [zpow_neg, ← div_eq_mul_inv, div_le_iff₀ (by positivity)]

theorem point_le_iff {n : Nat} {x : ℚ} : n * 10 ^ power ≤ x ↔ n ≤ x * 10 ^ (-power) := by
  rw [zpow_neg, ← div_eq_mul_inv, le_div_iff₀ (by positivity)]

/-- An end is tested against a point on the grid. -/
theorem test_le_point {ratio : Ratio} (positive : 0 < ratio.den) (n : Nat) :
    (ratio.scale 10 (-power)).num ≤ n * (ratio.scale 10 (-power)).den ↔
      ratio.value ≤ n * 10 ^ power := by
  rw [← Ratio.value_le_iff (Ratio.den_scale positive (by decide) (-power)), Ratio.value_scale,
    le_point_iff, Nat.cast_ofNat]

theorem test_point_le {ratio : Ratio} (positive : 0 < ratio.den) (n : Nat) :
    n * (ratio.scale 10 (-power)).den ≤ (ratio.scale 10 (-power)).num ↔
      n * 10 ^ power ≤ ratio.value := by
  rw [← Ratio.le_value_iff (Ratio.den_scale positive (by decide) (-power)), Ratio.value_scale,
    point_le_iff, Nat.cast_ofNat]

variable (closed power) in
/-- What is found on a grid lies in the interval; and on a grid that is finer, something is. -/
theorem nearestOnGrid_spec (positive : 0 < value.den) (positiveLow : 0 < low.den)
    (positiveHigh : 0 < high.den) (above : low.value < value.value)
    (below : value.value < high.value) :
    match nearestOnGrid value low high closed power with
    | some d => Reads low.value high.value closed d.value
    | none => high.value - low.value ≤ 10 ^ power := by
  unfold nearestOnGrid
  dsimp only
  generalize isPoint : (value.scale 10 (-power)).num / (value.scale 10 (-power)).den = n
  have left : n * 10 ^ power ≤ value.value := by
    rw [← test_point_le positive, ← isPoint]
    exact Nat.div_mul_le_self _ _
  have right : value.value < (n + 1 : Nat) * 10 ^ power := by
    rw [← not_le, ← test_point_le positive, not_le, ← isPoint]
    exact Nat.lt_mul_of_div_lt (Nat.lt_succ_self _) (Ratio.den_scale positive (by decide) _)
  have step : ((n + 1 : Nat) : ℚ) * 10 ^ power = n * 10 ^ power + 10 ^ power := by
    rw [Nat.cast_succ, add_one_mul]
  have lowTest : (if closed then (low.scale 10 (-power)).num ≤ n * (low.scale 10 (-power)).den
      else (low.scale 10 (-power)).num < n * (low.scale 10 (-power)).den) ↔
      Reads low.value high.value closed (n * 10 ^ power) := by
    rw [reads_iff_of_lt_high (left.trans_lt below), test_le_point positiveLow, ← not_le,
      test_point_le positiveLow, not_le]
  have highTest : (if closed then
      (n + 1) * (high.scale 10 (-power)).den ≤ (high.scale 10 (-power)).num
      else (n + 1) * (high.scale 10 (-power)).den < (high.scale 10 (-power)).num) ↔
      Reads low.value high.value closed ((n + 1 : Nat) * 10 ^ power) := by
    rw [reads_iff_of_low_lt (above.trans right), test_point_le positiveHigh, ← not_le,
      test_le_point positiveHigh, not_le]
  by_cases lowReads : Reads low.value high.value closed (n * 10 ^ power)
  · rw [decide_eq_true (lowTest.mpr lowReads)]
    by_cases highReads : Reads low.value high.value closed ((n + 1 : Nat) * 10 ^ power)
    · rw [decide_eq_true (highTest.mpr highReads)]
      dsimp only [Digits.value]
      split
      · exact lowReads
      · exact highReads
    · rw [decide_eq_false (mt highTest.mp highReads)]
      exact lowReads
  · rw [decide_eq_false (mt lowTest.mp lowReads)]
    by_cases highReads : Reads low.value high.value closed ((n + 1 : Nat) * 10 ^ power)
    · rw [decide_eq_true (highTest.mpr highReads)]
      exact highReads
    · rw [decide_eq_false (mt highTest.mp highReads)]
      have beforeLow : n * 10 ^ power ≤ low.value := not_lt.mp fun inside =>
        lowReads (Reads.of_lt inside (left.trans_lt below))
      have afterHigh : high.value ≤ (n + 1 : Nat) * 10 ^ power := not_lt.mp fun inside =>
        highReads (Reads.of_lt (above.trans right) inside)
      dsimp only
      linarith

/-- Digits are found if the finest grid is finer than the interval. -/
theorem firstGrid_reads (positive : 0 < value.den) (positiveLow : 0 < low.den)
    (positiveHigh : 0 < high.den) (above : low.value < value.value)
    (below : value.value < high.value) {finer : Nat}
    (fine : 10 ^ (power - finer) < high.value - low.value) :
    Reads low.value high.value closed
      (firstGrid value low high closed power (finer + 1)).value := by
  have spec := nearestOnGrid_spec closed power positive positiveLow positiveHigh above below
  induction finer generalizing power with
  | zero =>
      rw [firstGrid]
      split
      · next found => rwa [found] at spec
      · next missed =>
          rw [missed] at spec
          rw [Nat.cast_zero, sub_zero] at fine
          exact absurd fine (not_lt.mpr spec)
  | succ finer ih =>
      rw [firstGrid]
      split
      · next found => rwa [found] at spec
      · refine ih ?_ (nearestOnGrid_spec closed _ positive positiveLow positiveHigh above below)
        rwa [sub_sub, add_comm 1, ← Nat.cast_succ]

/-- The first digit of a number stands in the place that is looked for, or in one before it. -/
theorem magnitude_le (positive : 0 < value.den) {guess : Int} {steps : Nat}
    (enough : 10 ^ (guess - 1 - steps) ≤ value.value) :
    10 ^ (magnitude value guess steps - 1) ≤ value.value := by
  induction steps generalizing guess with
  | zero =>
      rw [Nat.cast_zero, sub_zero] at enough
      exact enough
  | succ steps ih =>
      rw [magnitude]
      split
      · refine ih ?_
        rwa [show guess - 1 - 1 - (steps : Int) = guess - 1 - ((steps + 1 : Nat) : Int) by
          push_cast; ring]
      · next above =>
          have inside : ((1 : Nat) : ℚ) * 10 ^ (guess - 1) ≤ value.value := by
            rw [← test_point_le positive, one_mul, neg_sub]
            exact Nat.le_of_not_lt above
          rwa [Nat.cast_one, one_mul] at inside

end Grid

/-! ## Powers of ten and of two -/

theorem ten_pow_le_two_pow {n s : Nat} (few : 10 * n ≤ 3 * s) : 10 ^ n ≤ 2 ^ s := by
  refine le_of_pow_le_pow_left₀ (by decide : 3 ≠ 0) (Nat.zero_le _) ?_
  calc (10 ^ n) ^ 3 = (10 ^ 3) ^ n := pow_right_comm 10 n 3
    _ ≤ (2 ^ 10) ^ n := Nat.pow_le_pow_left (by decide) n
    _ = 2 ^ (10 * n) := (pow_mul 2 10 n).symm
    _ ≤ 2 ^ (s * 3) := Nat.pow_le_pow_right (by decide) (by omega)
    _ = (2 ^ s) ^ 3 := pow_mul 2 s 3

theorem two_pow_le_ten_pow {n s : Nat} (few : 10 * s ≤ 33 * n) : 2 ^ s ≤ 10 ^ n := by
  refine le_of_pow_le_pow_left₀ (by decide : 33 ≠ 0) (Nat.zero_le _) ?_
  calc (2 ^ s) ^ 33 = (2 ^ 33) ^ s := pow_right_comm 2 s 33
    _ ≤ (10 ^ 10) ^ s := Nat.pow_le_pow_left (by decide) s
    _ = 10 ^ (10 * s) := (pow_mul 10 10 s).symm
    _ ≤ 10 ^ (n * 33) := Nat.pow_le_pow_right (by decide) (by omega)
    _ = (10 ^ n) ^ 33 := pow_mul 10 n 33

theorem zpow_ten_le_zpow_two {n s : Int} (wide : 0 ≤ n → 10 * n ≤ 3 * s)
    (narrow : n < 0 → 10 * -s ≤ 33 * -n) : (10 : ℚ) ^ n ≤ 2 ^ s := by
  rcases Int.lt_or_le n 0 with below | above
  · obtain ⟨n, rfl⟩ : ∃ k : Nat, n = -k := ⟨n.natAbs, by omega⟩
    have enough := narrow below
    have least : (2 : ℚ) ^ (-s).toNat ≤ 10 ^ n := by
      exact_mod_cast two_pow_le_ten_pow (by omega)
    calc (10 : ℚ) ^ (-(n : Int)) = (10 ^ n)⁻¹ := by rw [zpow_neg, zpow_natCast]
      _ ≤ (2 ^ (-s).toNat)⁻¹ := inv_anti₀ (by positivity) least
      _ = 2 ^ (-((-s).toNat : Int)) := by rw [zpow_neg, zpow_natCast]
      _ ≤ 2 ^ s := zpow_le_zpow_right₀ one_le_two (by omega)
  · obtain ⟨n, rfl⟩ : ∃ k : Nat, n = k := ⟨n.natAbs, by omega⟩
    have enough := wide above
    obtain ⟨s, rfl⟩ : ∃ k : Nat, s = k := ⟨s.natAbs, by omega⟩
    rw [zpow_natCast, zpow_natCast]
    exact_mod_cast ten_pow_le_two_pow (by omega)

/-- The guess at the decimal places of a number is at most four too high. -/
theorem powerAbove_le {b : Binary} (positive : 0 < b.mantissa)
    (low : -1100 ≤ b.exponent) (high : (Nat.log2 b.mantissa : Int) + b.exponent ≤ 1100) :
    (10 : ℚ) ^ (b.powerAbove - 5) ≤ b.value := by
  have lead : ((2 ^ Nat.log2 b.mantissa : Nat) : ℚ) ≤ b.mantissa := by
    exact_mod_cast Nat.log2_self_le positive.ne'
  have least : (2 : ℚ) ^ ((Nat.log2 b.mantissa : Int) + b.exponent) ≤ b.value := by
    rw [Binary.value, zpow_add₀ two_ne_zero, zpow_natCast]
    gcongr
    exact_mod_cast lead
  refine le_trans ?_ least
  unfold Binary.powerAbove
  refine zpow_ten_le_zpow_two (fun wide => ?_) fun narrow => ?_ <;> omega

/-! ## The interval of a double -/

namespace Binary

/-- Half way to the double below. -/
def low (b : Binary) : ℚ := (b.mantissa - if b.narrowBelow then 1 / 4 else 1 / 2) * 2 ^ b.exponent

/-- Half way to the double above. -/
def high (b : Binary) : ℚ := (b.mantissa + 1 / 2) * 2 ^ b.exponent

/-- Whether the ends of the interval are read as the double. -/
def isClosed (b : Binary) : Bool := b.mantissa % 2 = 0

/-- What the fields of a positive double are like. -/
structure Proper (b : Binary) : Prop where
  positive : 0 < b.mantissa
  bits : b.mantissa < 2 ^ 53
  narrow : b.narrowBelow = true → b.mantissa ≤ 2 ^ 52
  atLeast : -1074 ≤ b.exponent
  atMost : b.exponent ≤ 971

theorem value_scale_quarters (quarters : Nat) (exponent : Int) :
    (Ratio.scale ⟨quarters, 4⟩ 2 exponent).value = quarters / 4 * 2 ^ exponent := by
  rw [Ratio.value_scale, Ratio.value, Nat.cast_ofNat, Nat.cast_ofNat]

variable {b : Binary}

theorem low_lt_value (b : Binary) : b.low < b.value := by
  unfold low value
  gcongr
  split <;> norm_num

theorem value_lt_high (b : Binary) : b.value < b.high := by
  unfold high value
  gcongr
  norm_num

/-- A grid on which a double has seventeen digits is finer than its interval. -/
theorem Proper.seventeen_suffice (proper : b.Proper) {power : Int} (lead : 10 ^ power ≤ b.value) :
    (10 : ℚ) ^ (power - (16 : Nat)) < b.high - b.low := by
  have bits : (b.mantissa : ℚ) < 2 ^ 53 := by exact_mod_cast proper.bits
  have wide : (b.mantissa : ℚ) / 10 ^ 16 < 1 / 2 + if b.narrowBelow then 1 / 4 else 1 / 2 := by
    split
    · next isNarrow =>
        have few : (b.mantissa : ℚ) ≤ 2 ^ 52 := by exact_mod_cast proper.narrow isNarrow
        norm_num [div_lt_iff₀] at few ⊢
        have := (Nat.cast_le (α := ℚ)).mpr few
        linarith
    · norm_num [div_lt_iff₀] at bits ⊢
      linarith
  calc (10 : ℚ) ^ (power - (16 : Nat)) = 10 ^ power / 10 ^ 16 := by
        rw [zpow_sub₀ (by norm_num), zpow_natCast]
    _ ≤ b.value / 10 ^ 16 := by gcongr
    _ = b.mantissa / 10 ^ 16 * 2 ^ b.exponent := by rw [value, mul_div_right_comm]
    _ < (1 / 2 + if b.narrowBelow then 1 / 4 else 1 / 2) * 2 ^ b.exponent := by gcongr
    _ = b.high - b.low := by rw [Binary.high, Binary.low]; ring

/-- The digits that are shown lie in the interval of the double. -/
theorem Proper.reads_shortest (proper : b.Proper) :
    Reads b.low b.high b.isClosed (shortest b).value := by
  have positive := proper.positive
  have atValue : (Ratio.scale ⟨4 * b.mantissa, 4⟩ 2 b.exponent).value = b.value := by
    rw [value_scale_quarters, value]
    push_cast
    ring
  have atHigh : (Ratio.scale ⟨4 * b.mantissa + 2, 4⟩ 2 b.exponent).value = b.high := by
    rw [value_scale_quarters, Binary.high]
    push_cast
    ring
  have atLow : (Ratio.scale ⟨4 * b.mantissa - if b.narrowBelow then 1 else 2, 4⟩ 2
      b.exponent).value = b.low := by
    rw [value_scale_quarters, Binary.low, Nat.cast_sub (by split <;> omega)]
    split <;> push_cast <;> ring
  have den (quarters : Nat) : 0 < (Ratio.scale ⟨quarters, 4⟩ 2 b.exponent).den :=
    Ratio.den_scale (Nat.succ_pos 3) Nat.two_pos _
  have log : Nat.log2 b.mantissa < 53 := (Nat.log2_lt positive.ne').mpr proper.bits
  have atLeast := proper.atLeast
  have atMost := proper.atMost
  have guess := powerAbove_le positive (by omega) (by omega)
  rw [← atValue, show b.powerAbove - 5 = b.powerAbove - 1 - (4 : Nat) by push_cast; ring] at guess
  have lead := magnitude_le (den _) guess
  rw [atValue] at lead
  rw [← atLow, ← atHigh]
  refine firstGrid_reads (den _) (den _) (den _) ?_ ?_ ?_
  · rw [atLow, atValue]
    exact b.low_lt_value
  · rw [atValue, atHigh]
    exact b.value_lt_high
  · rw [atLow, atHigh]
    exact proper.seventeen_suffice lead

/-! ## Neighbours -/

/-- The positive doubles, and zero before them, in the order of their bits. -/
def nth (n : Nat) : Binary := ofFields (n / fractions) (n % fractions)

theorem nth_of_lt {biased fraction : Nat} (few : fraction < fractions) :
    nth (biased * fractions + fraction) = ofFields biased fraction := by
  have divided : (biased * fractions + fraction) / fractions = biased := by
    rw [Nat.add_comm, Nat.add_mul_div_right _ _ (Nat.zero_lt_of_lt few), Nat.div_eq_of_lt few,
      Nat.zero_add]
  have left : (biased * fractions + fraction) % fractions = fraction := by
    rw [Nat.add_comm, Nat.add_mul_mod_self_right, Nat.mod_eq_of_lt few]
  rw [nth, divided, left]

theorem proper_ofFields {biased fraction : Nat} (few : fraction < fractions)
    (finite : biased + 1 < exponents) (positive : 0 < biased + fraction) :
    (ofFields biased fraction).Proper := by
  have size : fractions = 2 ^ 52 := rfl
  have limit : exponents = 2048 := rfl
  unfold ofFields
  split
  · next least => exact ⟨by dsimp only; omega, by dsimp only; omega, nofun, by simp, by simp⟩
  · refine ⟨by dsimp only; omega, by dsimp only; omega, ?_, by dsimp only; omega, ?_⟩
    · simp
      omega
    · dsimp only
      omega

theorem proper_nth {n : Nat} (positive : 0 < n) (finite : n / fractions + 1 < exponents) :
    (nth n).Proper := by
  refine proper_ofFields (Nat.mod_lt _ (by decide)) finite ?_
  have whole := Nat.div_add_mod n fractions
  by_contra none
  obtain ⟨isZero, isZero'⟩ := Nat.add_eq_zero_iff.mp (Nat.eq_zero_of_not_pos none)
  rw [isZero, isZero'] at whole
  omega

/-- The interval of a double ends where that of the next one begins. -/
theorem high_nth (n : Nat) : (nth n).high = (nth (n + 1)).low := by
  have few : n % fractions < fractions := Nat.mod_lt _ (by decide)
  have size : fractions = 2 ^ 52 := rfl
  rw [← Nat.div_add_mod' n fractions]
  generalize n / fractions = biased, n % fractions = fraction at few
  rcases Nat.lt_or_eq_of_le (Nat.succ_le_of_lt few) with inside | last
  · rw [nth_of_lt few, Nat.add_assoc, nth_of_lt inside]
    unfold ofFields low high
    by_cases least : biased = 0
    · simp [least]
      ring
    · simp only [if_neg least, Nat.cast_add, Nat.cast_succ, Nat.succ_ne_zero, decide_false,
        Bool.false_and, Bool.false_eq_true, if_false]
      ring
  · have next : biased * fractions + fraction + 1 = (biased + 1) * fractions + 0 := by
      rw [Nat.succ_mul, ← last]
      rfl
    rw [nth_of_lt few, next, nth_of_lt (by omega)]
    obtain rfl : fraction = 2 ^ 52 - 1 := by omega
    unfold ofFields low high
    by_cases least : biased = 0
    · simp [least, fractions]
      norm_num
    · simp [least, fractions]
      rw [if_pos (by omega), show (biased : Int) + 1 - 1075 = biased - 1075 + 1 by ring,
        zpow_add_one₀ two_ne_zero]
      ring

/-- Only doubles with even bits are read where their intervals end. -/
theorem isClosed_nth (n : Nat) : (nth n).isClosed = decide (n % 2 = 0) := by
  have size : fractions = 2 ^ 52 := rfl
  unfold nth ofFields isClosed
  rw [size]
  split
  · simp
  · simp
    omega

theorem high_lt_high (n : Nat) : (nth n).high < (nth (n + 1)).high := by
  rw [high_nth]
  exact (low_lt_value _).trans (value_lt_high _)

theorem high_le_low {n k : Nat} (before : n < k) : (nth n).high ≤ (nth k).low := by
  induction before with
  | refl => exact (high_nth n).le
  | @step k _ ih =>
      have within := (low_lt_value (nth k)).trans (value_lt_high (nth k))
      exact ih.trans (within.le.trans (high_nth k).le)

/-- An end of an interval that is read as the double belongs to a closed one. -/
theorem even_of_reads_end {n : Nat} {x : ℚ}
    (reads : Reads (nth n).low (nth n).high (nth n).isClosed x)
    (atEnd : x ≤ (nth n).low ∨ (nth n).high ≤ x) : n % 2 = 0 := by
  by_contra odd
  rw [isClosed_nth, decide_eq_false odd] at reads
  rcases atEnd with atLow | atHigh
  · exact absurd atLow (not_le.mpr reads.1)
  · exact absurd atHigh (not_le.mpr reads.2)

theorem not_reads_of_lt {n k : Nat} (before : n < k) {x : ℚ}
    (inFirst : Reads (nth n).low (nth n).high (nth n).isClosed x)
    (inSecond : Reads (nth k).low (nth k).high (nth k).isClosed x) : False := by
  have apart := high_le_low before
  have even := even_of_reads_end inFirst (.inr (apart.trans inSecond.bounds.1))
  have even' := even_of_reads_end inSecond (.inl (inFirst.bounds.2.trans apart))
  have between : (nth (n + 1)).high ≤ (nth k).low := high_le_low (by omega)
  have further := (high_lt_high n).trans_le (between.trans inSecond.bounds.1)
  exact absurd inFirst.bounds.2 (not_le.mpr further)

/-- A number is read as one double at most. -/
theorem nth_unique {n k : Nat} {x : ℚ}
    (inFirst : Reads (nth n).low (nth n).high (nth n).isClosed x)
    (inSecond : Reads (nth k).low (nth k).high (nth k).isClosed x) : n = k := by
  rcases Nat.lt_trichotomy n k with before | same | after
  · exact (not_reads_of_lt before inFirst inSecond).elim
  · exact same
  · exact (not_reads_of_lt after inSecond inFirst).elim

end Binary

end Lox.Decimal
