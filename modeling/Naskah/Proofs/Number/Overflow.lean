import Naskah.Proofs.Number.Exact
import Naskah.Proofs.Number.Nearest

/-
  Overflow. A number is rounded to an infinity from half a unit behind the greatest float on
  (`overflow`, `Rounds.isFinite_iff`). Products and quotients are rounded as sums are
  (`rounds_mul`, `rounds_div`), so a decimal is read as a finite float iff it is less than that
  (`Decimal.isFinite_toFloat_iff`).
-/

namespace Naskah

namespace Binary

open Float.Model Float.Model.UnpackedFloat

variable {m m₁ m₂ : Nat} {e e₁ e₂ t : Int} {s : Sign} {q : ℚ} {x : Float}
  {em : ExtendedMantissa} {u : UnpackedFloat}

theorem value_two_pow (k : Nat) (e : Int) : value (2 ^ k) e = 2 ^ (k + e) := by
  unfold value
  rw [zpow_add₀ two_ne_zero, zpow_natCast, Nat.cast_pow, Nat.cast_ofNat]

/-- The middle between the greatest float and the next number with as many digits. -/
def overflow : ℚ := 2 ^ 1024 - 2 ^ 970

theorem overflow_eq : overflow = value (2 ^ 54 - 1) 970 := by
  have hpower : (2 : ℚ) ^ 1024 = 2 ^ 54 * 2 ^ 970 := by rw [← pow_add]
  have hmantissa : ((2 ^ 54 - 1 : Nat) : ℚ) = 2 ^ 54 - 1 := by norm_num
  unfold overflow value
  rw [hpower, hmantissa, sub_mul, one_mul]
  rfl

/-- What has at most 53 digits, the last of them not behind `2 ^ 970`, is far below. -/
theorem value_lt_overflow (hm : m ≤ 2 ^ 53) (he : e < 971) : value m e < overflow :=
  calc value m e ≤ value (2 ^ 53) e := value_le_value_iff.2 hm
    _ = 2 ^ ((53 : Nat) + e) := value_two_pow 53 e
    _ ≤ 2 ^ ((53 : Nat) + (970 : Int)) := zpow_le_zpow_right₀ one_le_two (by omega)
    _ = value (2 ^ 53) 970 := (value_two_pow 53 970).symm
    _ < value (2 ^ 54 - 1) 970 := value_lt_value_iff.2 (by decide)
    _ = overflow := overflow_eq.symm

theorem overflow_lt : overflow < 2 ^ 1024 :=
  sub_lt_self _ (pow_pos two_pos 970)

theorem one_lt_overflow : 1 < overflow := by
  have hone : value 1 0 < overflow := value_lt_overflow (by decide) (by decide)
  rwa [value, Nat.cast_one, zpow_zero, one_mul] at hone

/-- What has 53 digits, the last of them before `2 ^ 971`, is far above. -/
theorem le_value_of_lt (hm : 2 ^ 52 ≤ m) (he : 971 < e) : 2 ^ 1024 ≤ value m e :=
  calc (2 : ℚ) ^ 1024 = 2 ^ (1024 : Int) := (zpow_natCast 2 1024).symm
    _ ≤ 2 ^ ((52 : Nat) + e) := zpow_le_zpow_right₀ one_le_two (by omega)
    _ ≤ value m e := le_value hm e

/-- A number is rounded to one beyond all floats from the middle on. -/
theorem Describes.le_rounded_iff (h : Describes em t q) (htrunc : Truncation q em.mantissa t) :
    2 ^ 1024 ≤ value em.roundedMantissa t ↔ overflow ≤ q := by
  have hshort := htrunc.short
  obtain ⟨hle, hge⟩ := roundedMantissa_bounds em
  rcases lt_trichotomy t 971 with hlt | rfl | hgt
  · have hrounded : value em.roundedMantissa t < overflow := value_lt_overflow (by omega) hlt
    have hq : q < overflow := h.lt.trans (value_lt_overflow (by omega) hlt)
    exact ⟨fun h0 => absurd (hrounded.trans overflow_lt) h0.not_gt, fun h0 => absurd hq h0.not_gt⟩
  · have hpower : (2 : ℚ) ^ 1024 = value (2 ^ 53) 971 := by
      rw [value_two_pow]
      exact (zpow_natCast 2 1024).symm
    rw [hpower, value_le_value_iff, overflow_eq]
    constructor
    · intro hfull
      rcases roundedMantissa_cases em with ⟨heq, -⟩ | ⟨heq, hround⟩
      · omega
      · have hmantissa : em.mantissa = 2 ^ 53 - 1 := by omega
        have hhalf := h.half.1 hround
        rw [hmantissa] at hhalf
        exact hhalf
    · intro hq
      have hmantissa : em.mantissa = 2 ^ 53 - 1 := by
        have hlt : value (2 ^ 54 - 1) 970 < value (2 * (em.mantissa + 1)) 970 := by
          rw [value_double]
          exact hq.trans_lt h.lt
        have := value_lt_value_iff.1 hlt
        omega
      have hround : em.roundBit = true := by
        rw [h.half, hmantissa]
        exact hq
      -- the greatest mantissa is odd, so it goes up also from the middle itself
      rcases roundedMantissa_cases em with ⟨-, hdown | heven⟩ | ⟨heq, -⟩
      · rw [hround] at hdown
        cases hdown
      · omega
      · omega
  · have hfull : 2 ^ 52 ≤ em.mantissa := htrunc.full.resolve_right (by omega)
    have hrounded : 2 ^ 1024 ≤ value em.roundedMantissa t := le_value_of_lt (by omega) hgt
    have hq : 2 ^ 1024 ≤ q := (le_value_of_lt hfull hgt).trans h.le
    exact ⟨fun _ => overflow_lt.le.trans hq, fun _ => hrounded⟩

/-- What a number is rounded to is packed to a finite float iff the number is less than the middle. -/
theorem Rounds.isFinite_iff (h : Rounds .positive q u) (hx : x.toModel = Float.Model.pack u) :
    x.isFinite = true ↔ q < overflow := by
  obtain ⟨em, t, hdescribes, htrunc, rfl⟩ := h
  rw [← not_le, ← hdescribes.le_rounded_iff htrunc, not_le]
  have hstands := htrunc.stands hx
  constructor
  · intro hfinite
    have hlt := (abs_lt.1 (abs_number_lt hfinite)).2
    rw [hstands.number_of_isFinite hfinite] at hlt
    exact hlt
  · intro hlt
    have hnonneg := value_nonneg em.roundedMantissa t
    exact (hstands.number_eq (abs_lt.2 ⟨(neg_neg_of_pos (pow_pos two_pos 1024)).trans_le hnonneg,
      hlt⟩)).1

/-! ## Products and quotients -/

theorem rounds_mul {h₁ : 0 < m₁} {h₂ : 0 < m₂} (hfull : 2 ^ 52 ≤ m₁ * m₂) :
    Rounds .positive (value m₁ e₁ * value m₂ e₂) (UnpackedFloat.mul Format.binary64
      (.finite .positive m₁ e₁ h₁) (.finite .positive m₂ e₂ h₂)) := by
  have hlog : 52 ≤ (m₁ * m₂).log2 := (Nat.le_log2 (Nat.mul_pos h₁ h₂).ne').2 hfull
  rw [← value_mul]
  exact rounds_roundWithAccuracy .positive (describes_exact _ _) (by omega)

theorem roundBit_fraction {n d : Nat} (hd : 0 < d) :
    (ExtendedMantissa.ofMantissaAndAccuracy m (accuracyOfFraction n d)).roundBit = true ↔
      d ≤ 2 * n := by
  unfold accuracyOfFraction
  split
  · next hn =>
    rw [hn]
    exact ⟨nofun, fun hle => absurd hle (by omega)⟩
  · rcases lt_trichotomy (2 * n) d with hlt | heq | hgt
    · rw [compare_lt_iff_lt.2 hlt]
      exact ⟨nofun, fun hle => absurd hlt hle.not_gt⟩
    · rw [compare_eq_iff_eq.2 heq]
      exact ⟨fun _ => heq.ge, fun _ => rfl⟩
    · rw [compare_gt_iff_gt.2 hgt]
      exact ⟨fun _ => hgt.le, fun _ => rfl⟩

theorem value_mul_natCast (m k : Nat) (e : Int) : value (m * k) e = value m e * k := by
  unfold value
  rw [Nat.cast_mul, mul_right_comm]

/-- A quotient of natural numbers is its whole part with what the fraction says of the rest. -/
theorem describes_fraction (n : Nat) {d : Nat} (hd : 0 < d) (t : Int) :
    Describes (.ofMantissaAndAccuracy (n / d) (accuracyOfFraction (n % d) d)) t (value n t / d) := by
  have hd' : (0 : ℚ) < d := Nat.cast_pos.2 hd
  have hmantissa : (ExtendedMantissa.ofMantissaAndAccuracy (n / d)
      (accuracyOfFraction (n % d) d)).mantissa = n / d := by
    rcases accuracyOfFraction (n % d) d with _ | ⟨_ | _ | _⟩ <;> rfl
  have hdivision := Nat.div_add_mod n d
  have hlt := Nat.mod_lt n hd
  refine ⟨?_, ?_, ?_⟩
  · rw [hmantissa, le_div_iff₀ hd', ← value_mul_natCast]
    exact value_le_value_iff.2 (Nat.div_mul_le_self n d)
  · rw [hmantissa, div_lt_iff₀ hd', ← value_mul_natCast]
    refine value_lt_value_iff.2 ?_
    rw [Nat.add_mul, Nat.mul_comm, Nat.one_mul]
    omega
  · have hdouble : value n t = value (2 * n) (t - 1) := by rw [value_double, Int.sub_add_cancel]
    rw [roundBit_fraction hd, hmantissa, hdouble, le_div_iff₀ hd', ← value_mul_natCast,
      value_le_value_iff, Nat.add_mul, Nat.mul_assoc, Nat.mul_comm (n / d), Nat.one_mul]
    omega

theorem rounds_div {h₁ : 0 < m₁} {h₂ : 0 < m₂} :
    Rounds .positive (value m₁ e₁ / value m₂ e₂) (UnpackedFloat.div Format.binary64
      (.finite .positive m₁ e₁ h₁) (.finite .positive m₂ e₂ h₂)) := by
  -- `t` is the exponent of the quotient, and `k` says how far it lies below the other one
  obtain ⟨t, ht⟩ : ∃ t, t = min (e₁ - e₂) (max ((m₁.log2 : Int) + 1 + e₁ - (m₂.log2 + 1 + e₂) - 53)
    (-1074)) := ⟨_, rfl⟩
  obtain ⟨k, hk⟩ : ∃ k : Nat, e₁ - e₂ = t + k := ⟨(e₁ - e₂ - t).toNat, by omega⟩
  have hamount : (e₁ - e₂ - t).toNat = k := by omega
  have hcore : divCore Format.binary64 m₁ e₁ m₂ e₂ =
      (m₁ * 2 ^ k / m₂, t, accuracyOfFraction (m₁ * 2 ^ k % m₂) m₂) := by
    have htarget : Format.binary64.targetExponent (totalExponent m₁ e₁ - totalExponent m₂ e₂) =
        max ((m₁.log2 : Int) + 1 + e₁ - (m₂.log2 + 1 + e₂) - 53) (-1074) := rfl
    unfold divCore
    dsimp only
    rw [htarget, ← ht, hamount, Nat.shiftLeft_eq]
  have hvalue : value m₁ e₁ / value m₂ e₂ = value (m₁ * 2 ^ k) t / m₂ := by
    have hshift : t = e₁ - e₂ - k := by omega
    rw [hshift, value_shift]
    unfold value
    rw [zpow_sub₀ two_ne_zero]
    field_simp
  show Rounds _ _ (match divCore Format.binary64 m₁ e₁ m₂ e₂ with
    | (m, e, acc) => roundWithAccuracy Format.binary64 .positive m e acc)
  rw [hcore, hvalue]
  refine rounds_roundWithAccuracy .positive (describes_fraction _ h₂ t) ?_
  by_cases hleast : t ≤ -1074
  · omega
  · have hfull : 2 ^ 52 ≤ m₁ * 2 ^ k / m₂ := by
      rw [Nat.le_div_iff_mul_le h₂]
      calc 2 ^ 52 * m₂ ≤ 2 ^ 52 * 2 ^ (m₂.log2 + 1) := Nat.mul_le_mul_left _ Nat.lt_log2_self.le
        _ = 2 ^ (52 + (m₂.log2 + 1)) := (Nat.pow_add ..).symm
        _ ≤ 2 ^ (m₁.log2 + k) := Nat.pow_le_pow_right Nat.two_pos (by omega)
        _ = 2 ^ m₁.log2 * 2 ^ k := Nat.pow_add ..
        _ ≤ m₁ * 2 ^ k := Nat.mul_le_mul_right _ (Nat.log2_self_le h₁.ne')
    have hlog : 52 ≤ (m₁ * 2 ^ k / m₂).log2 := (Nat.le_log2 (by omega)).2 hfull
    omega

/-! ## Decimals -/

theorem isFinite_mul_iff {x y : Float} {p q : ℚ} (hx : IsFull x p) (hy : IsFull y q) :
    (x * y).isFinite = true ↔ p * q < overflow := by
  obtain ⟨m₁, e₁, h₁, hx, rfl, hfull⟩ := hx
  obtain ⟨m₂, e₂, h₂, hy, rfl, -⟩ := hy
  have hmul : (x * y).toModel = Float.Model.pack (UnpackedFloat.mul Format.binary64
    x.toModel.unpack y.toModel.unpack) := rfl
  rw [hx, hy] at hmul
  exact (rounds_mul (hfull.trans (Nat.le_mul_of_pos_right m₁ h₂))).isFinite_iff hmul

theorem isFinite_div_iff {x y : Float} {p q : ℚ} (hx : IsFull x p) (hy : IsFull y q) :
    (x / y).isFinite = true ↔ p / q < overflow := by
  obtain ⟨m₁, e₁, h₁, hx, rfl, -⟩ := hx
  obtain ⟨m₂, e₂, h₂, hy, rfl, -⟩ := hy
  have hdiv : (x / y).toModel = Float.Model.pack (UnpackedFloat.div Format.binary64
    x.toModel.unpack y.toModel.unpack) := rfl
  rw [hx, hy] at hdiv
  exact rounds_div.isFinite_iff hdiv

theorem not_isFinite_of_infinity (h : x.toModel.unpack = .infinity s) : ¬ x.isFinite = true := by
  intro hx
  have hunpack : x.toModel.unpack.isFinite = true := hx
  rw [h] at hunpack
  cases hunpack

/-- A decimal that is too great to be computed overflows. -/
theorem overflow_le_of_lt {n : Nat} {k : Int} (hn : 0 < n) (hk : 1024 ≤ k) :
    overflow ≤ (n : ℚ) * 10 ^ k :=
  calc overflow ≤ (2 : ℚ) ^ (1024 : Int) := by
        rw [zpow_ofNat]
        exact overflow_lt.le
    _ ≤ 10 ^ (1024 : Int) := zpow_le_zpow_left₀ (by decide) (by norm_num) (by norm_num)
    _ ≤ 10 ^ k := zpow_le_zpow_right₀ (by norm_num) hk
    _ ≤ n * 10 ^ k := le_mul_of_one_le_left (zpow_pos (by norm_num) k).le (by exact_mod_cast hn)

/-- A decimal that is too small to be computed does not overflow. -/
theorem lt_overflow_of_lt {n : Nat} {k : Int} (hk : (n.log2 : Int) + 1 + k ≤ 0) :
    (n : ℚ) * 10 ^ k < overflow := by
  have hn : (n : ℚ) < 2 ^ ((n.log2 : Int) + 1) := by
    exact_mod_cast Nat.lt_log2_self (n := n)
  calc (n : ℚ) * 10 ^ k ≤ 2 ^ ((n.log2 : Int) + 1) * 2 ^ k :=
        mul_le_mul hn.le (ten_zpow_le (by omega)) (zpow_pos (by norm_num) k).le (zpow_pos two_pos _).le
    _ = 2 ^ ((n.log2 : Int) + 1 + k) := (zpow_add₀ two_ne_zero _ _).symm
    _ ≤ 1 := zpow_le_one_of_nonpos₀ one_le_two hk
    _ < overflow := one_lt_overflow

theorem isFinite_ofScientific_iff {n : Nat} {k : Int} (hn : n ≠ 0)
    (hx : x.toModel = Float.Model.pack (UnpackedFloat.ofScientific Format.binary64 n k)) :
    x.isFinite = true ↔ (n : ℚ) * 10 ^ k < overflow := by
  have hpos : 0 < n := Nat.pos_of_ne_zero hn
  unfold UnpackedFloat.ofScientific at hx
  rw [dif_neg hn] at hx
  split at hx
  · next hgreat =>
    have hk : 1024 ≤ k := by
      have : (2 : Int) ^ 11 < k := hgreat
      omega
    have hinfinity : x.toModel.unpack = .infinity .positive := by
      rw [hx]
      rfl
    exact ⟨fun h => absurd h (not_isFinite_of_infinity hinfinity),
      fun h => absurd (overflow_le_of_lt hpos hk) h.not_ge⟩
  · split at hx
    · next hsmall =>
      have hk : (n.log2 : Int) + 1 + k ≤ 0 := by
        have : k < -((2 : Int) ^ 11 + n.log2) := hsmall
        omega
      have hzero : x.toModel.unpack = .zero .positive := by
        rw [hx]
        rfl
      exact ⟨fun _ => lt_overflow_of_lt hk, fun _ => isFinite_of_zero hzero⟩
    · split at hx
      · next hnonneg =>
        obtain ⟨l, rfl⟩ := Int.eq_ofNat_of_zero_le hnonneg
        rw [← value_mul_powerOfTen]
        exact (rounds_mul (le_mul_powerOfTen hpos l)).isFinite_iff hx
      · next hneg =>
        obtain ⟨l, hl⟩ := Int.eq_ofNat_of_zero_le (Int.neg_nonneg.2 (Int.not_le.1 hneg).le)
        obtain rfl : k = -l := by omega
        simp only [Int.neg_neg, Int.toNat_natCast] at hx
        rw [← value_div_powerOfTen]
        exact rounds_div.isFinite_iff hx

end Binary

namespace Decimal

open Binary

theorem isFinite_toFloat_iff (d : Decimal) : d.toFloat.isFinite = true ↔ d.value < overflow := by
  obtain ⟨n, k⟩ := d
  rcases Nat.eq_zero_or_pos n with rfl | hn
  · have hzero : (Decimal.mk 0 k).toFloat.isFinite = true := by
      refine isFinite_of_zero (s := .positive) ?_
      rw [toFloat_zero]
      rfl
    have hvalue : (Decimal.mk 0 k).value < overflow := by
      rw [value, Nat.cast_zero, zero_mul]
      exact one_pos.trans one_lt_overflow
    exact ⟨fun _ => hvalue, fun _ => hzero⟩
  cases k with
  | ofNat k =>
    show (Float.ofScientific n false k).isFinite = true ↔ _
    unfold Float.ofScientific
    split
    case isTrue hfast =>
      exact isFinite_mul_iff (isFull_toFloat hn hfast.1) (isFull_powerOfTen k _)
    case isFalse =>
      exact isFinite_ofScientific_iff hn.ne' rfl
  | negSucc k =>
    show (Float.ofScientific n true (k + 1)).isFinite = true ↔ _
    unfold Float.ofScientific
    split
    case isTrue hfast =>
      rw [value, zpow_negSucc, ← div_eq_mul_inv]
      exact isFinite_div_iff (isFull_toFloat hn hfast.1) (isFull_powerOfTen (k + 1) _)
    case isFalse =>
      exact isFinite_ofScientific_iff hn.ne' rfl

end Decimal

end Naskah
