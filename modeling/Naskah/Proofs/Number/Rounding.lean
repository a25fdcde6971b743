import Mathlib.Algebra.Order.Field.Rat
import Mathlib.Algebra.Order.Field.Power
import Mathlib.Tactic.FieldSimp
import Mathlib.Tactic.Linarith
import Mathlib.Tactic.Ring
import Naskah.Proofs.Number.Binary

/-
  Rounding what needs no rounding. A number that can be stored is not changed when it is rounded,
  whatever mantissa and exponent it is given by (`roundWithAccuracy_exact`), so a product or a
  quotient that can be stored is computed exactly (`mul_exact`, `div_exact`). Numbers that are given by
  a mantissa and an exponent are compared as rationals.
-/

namespace Naskah.Binary

open Float.Model Float.Model.UnpackedFloat

variable {m m₁ m₂ : Nat} {e e₁ e₂ : Int} {s s₁ s₂ : Sign}

/-! ## Shifting -/

theorem targetExponent_eq (h : Stored m e) :
    Format.binary64.targetExponent (totalExponent m e) = e := by
  have hleast := h.least
  show max ((m.log2 : Int) + 1 + e - 53) (-1074) = e
  have hlog : m.log2 < 53 := (Nat.log2_lt h.pos.ne').2 h.lt
  rcases h.full with hfull | he
  · have : 52 ≤ m.log2 := (Nat.le_log2 h.pos.ne').2 hfull
    omega
  · omega

/-- The same number with a longer mantissa. -/
theorem totalExponent_shift (hm : 0 < m) (e : Int) (k : Nat) :
    totalExponent (m * 2 ^ k) (e - k) = totalExponent m e := by
  have hlog : (m * 2 ^ k).log2 = m.log2 + k := by
    rw [Nat.log2_eq_iff (Nat.mul_pos hm (Nat.two_pow_pos k)).ne', Nat.pow_add, Nat.add_right_comm,
      Nat.pow_add]
    exact ⟨Nat.mul_le_mul_right _ (Nat.log2_self_le hm.ne'),
      Nat.mul_lt_mul_of_pos_right Nat.lt_log2_self (Nat.two_pow_pos k)⟩
  unfold totalExponent
  rw [hlog]
  omega

/-- Shifting out zeros loses nothing. -/
theorem shiftRight_exact (m k : Nat) :
    (ExtendedMantissa.mk (m * 2 ^ k) false false) >>> k = ⟨m, false, false⟩ := by
  show Nat.repeat ExtendedMantissa.shiftRightOne k _ = _
  induction k generalizing m with
  | zero => rw [Nat.pow_zero, Nat.mul_one]; rfl
  | succ k ih =>
    have hmantissa : m * 2 ^ (k + 1) = m * 2 * 2 ^ k := by rw [Nat.pow_succ', Nat.mul_assoc]
    rw [Nat.repeat, hmantissa, ih (m * 2)]
    unfold ExtendedMantissa.shiftRightOne
    rw [Nat.mul_div_cancel m Nat.two_pos, Nat.mul_mod_left]
    rfl

theorem shiftToTargetExponent_exact (h : Stored m e) (k : Nat) :
    shiftToTargetExponent Format.binary64 (m * 2 ^ k) (e - k) .exact =
      (⟨m, false, false⟩, e) := by
  have hamount : (e - (e - k)).toNat = k := by omega
  unfold shiftToTargetExponent shiftToExponent
  rw [totalExponent_shift h.pos, targetExponent_eq h]
  dsimp only
  rw [hamount]
  refine Prod.ext (shiftRight_exact m k) ?_
  show e - k + k = e
  omega

/-- A number that can be stored is not changed by rounding. -/
theorem roundWithAccuracy_exact (h : Stored m e) (k : Nat) :
    roundWithAccuracy Format.binary64 s (m * 2 ^ k) (e - k) .exact = .finite s m e h.pos := by
  have hagain := shiftToTargetExponent_exact h 0
  have hmantissa : m * 2 ^ 0 = m := by rw [Nat.pow_zero, Nat.mul_one]
  rw [hmantissa, Int.natCast_zero, Int.sub_zero] at hagain
  unfold roundWithAccuracy
  rw [shiftToTargetExponent_exact h k]
  dsimp only
  rw [show (ExtendedMantissa.mk m false false).roundedMantissa = m from rfl, hagain]
  exact dif_neg h.pos.ne'

/-! ## Values -/

/-- The number that a mantissa and an exponent stand for. -/
def value (m : Nat) (e : Int) : ℚ := m * 2 ^ e

theorem value_pos (hm : 0 < m) (e : Int) : 0 < value m e :=
  mul_pos (Nat.cast_pos.2 hm) (zpow_pos two_pos e)

theorem value_shift (m : Nat) (e : Int) (k : Nat) : value (m * 2 ^ k) (e - k) = value m e := by
  unfold value
  rw [zpow_sub₀ two_ne_zero, zpow_natCast, Nat.cast_mul, Nat.cast_pow, Nat.cast_two]
  field_simp

theorem value_mul (m₁ m₂ : Nat) (e₁ e₂ : Int) :
    value (m₁ * m₂) (e₁ + e₂) = value m₁ e₁ * value m₂ e₂ := by
  unfold value
  rw [zpow_add₀ two_ne_zero, Nat.cast_mul]
  ring

theorem value_mantissa_inj (h : value m₁ e = value m₂ e) : m₁ = m₂ :=
  Nat.cast_injective (mul_right_cancel₀ (zpow_pos two_pos e).ne' h)

theorem value_lt {k : Nat} (hlt : m < 2 ^ k) (e : Int) : value m e < 2 ^ (k + e) := by
  have hcast : (m : ℚ) < 2 ^ k := by exact_mod_cast hlt
  rw [zpow_add₀ two_ne_zero, zpow_natCast]
  exact mul_lt_mul_of_pos_right hcast (zpow_pos two_pos e)

theorem le_value {k : Nat} (hle : 2 ^ k ≤ m) (e : Int) : 2 ^ (k + e) ≤ value m e := by
  have hcast : (2 : ℚ) ^ k ≤ m := by exact_mod_cast hle
  rw [zpow_add₀ two_ne_zero, zpow_natCast]
  exact mul_le_mul_of_nonneg_right hcast (zpow_pos two_pos e).le

/-- A mantissa for a smaller exponent is longer by zeros. -/
theorem eq_shift (h : value m₁ e₁ = value m e) (hle : e₁ ≤ e) :
    ∃ k : Nat, m₁ = m * 2 ^ k ∧ e₁ = e - k := by
  obtain ⟨k, hk⟩ := Int.eq_ofNat_of_zero_le (Int.sub_nonneg.2 hle)
  have he : e₁ = e - k := by omega
  subst he
  rw [← value_shift m e k] at h
  exact ⟨k, value_mantissa_inj h, rfl⟩

/-! ## Exact products and quotients -/

/-- A number that can be stored has no longer mantissa than a stored one. -/
theorem Stored.exponent_le (h : Stored m e) (hvalue : value m₁ e₁ = value m e)
    (hfull : 2 ^ 52 ≤ m₁) : e₁ ≤ e := by
  have hlt : (2 : ℚ) ^ ((52 : Nat) + e₁) < 2 ^ ((53 : Nat) + e) :=
    calc (2 : ℚ) ^ ((52 : Nat) + e₁) ≤ value m₁ e₁ := le_value hfull e₁
      _ = value m e := hvalue
      _ < 2 ^ ((53 : Nat) + e) := value_lt h.lt e
  have := (zpow_lt_zpow_iff_right₀ one_lt_two).1 hlt
  omega

theorem mul_exact {h₁ : 0 < m₁} {h₂ : 0 < m₂} (h : Stored m e)
    (hvalue : value m₁ e₁ * value m₂ e₂ = value m e) (hfull : 2 ^ 52 ≤ m₁ * m₂) :
    UnpackedFloat.mul Format.binary64 (.finite s₁ m₁ e₁ h₁) (.finite s₂ m₂ e₂ h₂) =
      .finite (s₁ * s₂) m e h.pos := by
  rw [← value_mul] at hvalue
  obtain ⟨k, hm, he⟩ := eq_shift hvalue (h.exponent_le hvalue hfull)
  show roundWithAccuracy Format.binary64 (s₁ * s₂) (m₁ * m₂) (e₁ + e₂) .exact = _
  rw [hm, he, roundWithAccuracy_exact h k]

/-- The exponent that a quotient is computed with is not greater than that of a quotient that can be
    stored. -/
theorem Stored.target_le (h : Stored m e) (h₁ : 0 < m₁) (h₂ : 0 < m₂)
    (hvalue : value m₁ e₁ = value m e * value m₂ e₂) :
    Format.binary64.targetExponent (totalExponent m₁ e₁ - totalExponent m₂ e₂) ≤ e := by
  have hlt : (2 : ℚ) ^ (m₁.log2 + e₁) < 2 ^ (((53 : Nat) + e) + ((m₂.log2 + 1 : Nat) + e₂)) :=
    calc (2 : ℚ) ^ (m₁.log2 + e₁) ≤ value m₁ e₁ := le_value (Nat.log2_self_le h₁.ne') e₁
      _ = value m e * value m₂ e₂ := hvalue
      _ < 2 ^ ((53 : Nat) + e) * 2 ^ ((m₂.log2 + 1 : Nat) + e₂) :=
        mul_lt_mul'' (value_lt h.lt e) (value_lt Nat.lt_log2_self e₂) (value_pos h.pos e).le
          (value_pos h₂ e₂).le
      _ = _ := (zpow_add₀ two_ne_zero _ _).symm
  have hexp := (zpow_lt_zpow_iff_right₀ one_lt_two).1 hlt
  have hleast := h.least
  show max ((m₁.log2 : Int) + 1 + e₁ - (m₂.log2 + 1 + e₂) - 53) (-1074) ≤ e
  omega

theorem div_exact {h₁ : 0 < m₁} {h₂ : 0 < m₂} (h : Stored m e)
    (hvalue : value m₁ e₁ = value m e * value m₂ e₂) :
    UnpackedFloat.div Format.binary64 (.finite s₁ m₁ e₁ h₁) (.finite s₂ m₂ e₂ h₂) =
      .finite (s₁ / s₂) m e h.pos := by
  have htarget := h.target_le h₁ h₂ hvalue
  -- `t` is the exponent of the quotient, `k` and `l` say how far it lies below the others
  obtain ⟨t, ht⟩ : ∃ t, t = min (e₁ - e₂) (Format.binary64.targetExponent
    (totalExponent m₁ e₁ - totalExponent m₂ e₂)) := ⟨_, rfl⟩
  obtain ⟨k, hk⟩ : ∃ k : Nat, (e₁ - e₂ - t).toNat = k ∧ e₁ = e₂ + t + k := ⟨_, rfl, by omega⟩
  obtain ⟨l, hl⟩ : ∃ l : Nat, t = e - l := ⟨(e - t).toNat, by omega⟩
  have hmantissa : m₁ * 2 ^ k = m * 2 ^ l * m₂ := by
    refine value_mantissa_inj (e := e₁ - k) ?_
    have hsum : e₁ - k = e - l + e₂ := by omega
    rw [value_shift, hvalue, hsum, value_mul, value_shift]
  have hcore : divCore Format.binary64 m₁ e₁ m₂ e₂ = (m * 2 ^ l, e - l, .exact) := by
    unfold divCore
    dsimp only
    rw [← ht, hk.1, Nat.shiftLeft_eq, hmantissa, Nat.mul_div_cancel _ h₂, Nat.mul_mod_left, hl]
    rfl
  show (match divCore Format.binary64 m₁ e₁ m₂ e₂ with
    | (m, e, acc) => roundWithAccuracy Format.binary64 (s₁ / s₂) m e acc) = _
  rw [hcore]
  exact roundWithAccuracy_exact h l

end Naskah.Binary
