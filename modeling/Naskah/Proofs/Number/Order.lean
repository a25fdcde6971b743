import Naskah.Proofs.Number.Rounding
import Naskah.Value.Operator

/-
  The order of floats. All comparisons of floats go back to one, which compares finite floats by the
  numbers that they are (`compare_eq`): so `≤` and `==` of finite floats are those of numbers
  (`le_iff`, `beq_iff`), and the order that the relational operators look at is that of the floats
  (`any_floatOrder_isLE`).
-/

namespace Naskah.Binary

open Float.Model Float.Model.UnpackedFloat

variable {x y z : Float} {m m₁ m₂ : Nat} {e e₁ e₂ : Int}

/-! ## Comparisons -/

theorem le_iff_compare (x y : Float) :
    x ≤ y ↔ (x.toModel.unpack.compare y.toModel.unpack).any Ordering.isLE = true := by
  show Float.le x y = true ↔ _
  unfold Float.le
  exact decide_eq_true_iff

theorem lt_iff_compare (x y : Float) :
    x < y ↔ x.toModel.unpack.compare y.toModel.unpack = some .lt := by
  show Float.lt x y = true ↔ _
  unfold Float.lt
  rw [decide_eq_true_iff]
  exact beq_iff_eq

theorem beq_iff_compare (x y : Float) :
    (x == y) = true ↔ x.toModel.unpack.compare y.toModel.unpack = some .eq := by
  show (x.toModel.unpack.compare y.toModel.unpack == some .eq) = true ↔ _
  exact beq_iff_eq

/-- Of the order of two floats `≤` holds where it holds of the floats. -/
theorem any_floatOrder_isLE (x y : Float) :
    (Value.floatOrder x y).any Ordering.isLE = decide (x ≤ y) := by
  rw [Bool.eq_iff_iff, decide_eq_true_iff, le_iff_compare]
  unfold Value.floatOrder
  by_cases hlt : x < y
  · rw [if_pos hlt, (lt_iff_compare x y).1 hlt]
  · by_cases heq : (x == y) = true
    · rw [if_neg hlt, if_pos heq, (beq_iff_compare x y).1 heq]
    · rw [if_neg hlt, if_neg heq]
      have hnot : ¬ (x.toModel.unpack.compare y.toModel.unpack).any Ordering.isLE = true := by
        rw [lt_iff_compare] at hlt
        rw [beq_iff_compare] at heq
        cases hcompare : x.toModel.unpack.compare y.toModel.unpack with
        | none => simp
        | some o => cases o <;> simp_all
      split <;> simp [hnot]

/-! ## The numbers that floats are -/

/-- The number with the given sign and size. -/
def signed : Sign → ℚ → ℚ
  | .positive, q => q
  | .negative, q => -q

/-- The number that a finite float is. -/
def number (x : Float) : ℚ :=
  match x.toModel.unpack with
  | .finite s m e _ => signed s (value m e)
  | _ => 0

/-- A finite float is zero, or it has a mantissa and an exponent. -/
theorem finite_cases (h : x.isFinite) : (∃ s, x.toModel.unpack = .zero s) ∨
    ∃ s m e hm, x.toModel.unpack = .finite s m e hm := by
  have hunpack : x.toModel.unpack.isFinite = true := h
  cases hx : x.toModel.unpack with
  | zero s => exact .inl ⟨s, rfl⟩
  | finite s m e hm => exact .inr ⟨s, m, e, hm, rfl⟩
  | notANumber | infinity =>
    rw [hx] at hunpack
    cases hunpack

theorem isFinite_of_zero {s : Sign} (h : x.toModel.unpack = .zero s) : x.isFinite := by
  show x.toModel.unpack.isFinite = true
  rw [h]
  rfl

theorem isFinite_of_finite {s : Sign} {hm : 0 < m} (h : x.toModel.unpack = .finite s m e hm) :
    x.isFinite := by
  show x.toModel.unpack.isFinite = true
  rw [h]
  rfl

theorem number_of_zero {s : Sign} (h : x.toModel.unpack = .zero s) : number x = 0 := by
  unfold number
  rw [h]

theorem number_of_finite {s : Sign} {hm : 0 < m} (h : x.toModel.unpack = .finite s m e hm) :
    number x = signed s (value m e) := by
  unfold number
  rw [h]

/-- With a greater exponent a stored number is greater: its mantissa is full. -/
theorem Stored.value_lt_of_lt (h₁ : Stored m₁ e₁) (h₂ : Stored m₂ e₂) (he : e₁ < e₂) :
    value m₁ e₁ < value m₂ e₂ := by
  have hleast := h₁.least
  have hfull : 2 ^ 52 ≤ m₂ := h₂.full.resolve_right (by omega)
  have hexp : ((53 : Nat) : Int) + e₁ ≤ (52 : Nat) + e₂ := by omega
  calc value m₁ e₁ < 2 ^ ((53 : Nat) + e₁) := value_lt h₁.lt e₁
    _ ≤ 2 ^ ((52 : Nat) + e₂) := zpow_le_zpow_right₀ one_le_two hexp
    _ ≤ value m₂ e₂ := le_value hfull e₂

theorem value_lt_value_iff : value m₁ e < value m₂ e ↔ m₁ < m₂ := by
  unfold value
  rw [mul_lt_mul_iff_left₀ (zpow_pos two_pos e)]
  exact Nat.cast_lt

/-- Stored numbers are compared by their exponents first and then by their mantissas. -/
theorem Stored.compare_eq (h₁ : Stored m₁ e₁) (h₂ : Stored m₂ e₂) :
    (compare e₁ e₂).then (compare m₁ m₂) = compare (value m₁ e₁) (value m₂ e₂) := by
  rcases lt_trichotomy e₁ e₂ with hlt | rfl | hgt
  · rw [compare_lt_iff_lt.2 hlt, compare_lt_iff_lt.2 (h₁.value_lt_of_lt h₂ hlt)]
    rfl
  · rw [compare_eq_iff_eq.2 rfl, Ordering.eq_then]
    rcases lt_trichotomy m₁ m₂ with hlt | rfl | hgt
    · rw [compare_lt_iff_lt.2 hlt, compare_lt_iff_lt.2 (value_lt_value_iff.2 hlt)]
    · rw [compare_eq_iff_eq.2 rfl, compare_eq_iff_eq.2 rfl]
    · rw [compare_gt_iff_gt.2 hgt, compare_gt_iff_gt.2 (value_lt_value_iff.2 hgt)]
  · rw [compare_gt_iff_gt.2 hgt, compare_gt_iff_gt.2 (h₂.value_lt_of_lt h₁ hgt)]
    rfl

theorem compare_neg (p q : ℚ) : compare (-p) (-q) = (compare p q).swap := by
  rcases lt_trichotomy p q with hlt | rfl | hgt
  · rw [compare_lt_iff_lt.2 hlt, compare_gt_iff_gt.2 (neg_lt_neg hlt)]
    rfl
  · rw [compare_eq_iff_eq.2 rfl, compare_eq_iff_eq.2 rfl]
    rfl
  · rw [compare_gt_iff_gt.2 hgt, compare_lt_iff_lt.2 (neg_lt_neg hgt)]
    rfl

/-- Finite floats are compared as the numbers that they are. -/
theorem compare_eq (hx : x.isFinite) (hy : y.isFinite) :
    x.toModel.unpack.compare y.toModel.unpack = some (compare (number x) (number y)) := by
  rcases finite_cases hx with ⟨s, hx⟩ | ⟨s, m, e, hm, hx⟩
  · rcases finite_cases hy with ⟨s', hy⟩ | ⟨s', m, e, hm, hy⟩
    · rw [hx, hy, number_of_zero hx, number_of_zero hy]
      exact congrArg some (compare_eq_iff_eq.2 rfl).symm
    · have hpos := value_pos hm e
      rw [hx, hy, number_of_zero hx, number_of_finite hy]
      cases s' with
      | positive => exact congrArg some (compare_lt_iff_lt.2 hpos).symm
      | negative => exact congrArg some (compare_gt_iff_gt.2 (neg_neg_of_pos hpos)).symm
  · have hpos := value_pos hm e
    rcases finite_cases hy with ⟨s', hy⟩ | ⟨s', m', e', hm', hy⟩
    · rw [hx, hy, number_of_finite hx, number_of_zero hy]
      cases s with
      | positive => exact congrArg some (compare_gt_iff_gt.2 hpos).symm
      | negative => exact congrArg some (compare_lt_iff_lt.2 (neg_neg_of_pos hpos)).symm
    · have hpos' := value_pos hm' e'
      have hlt : -value m e < value m' e' := (neg_neg_of_pos hpos).trans hpos'
      have hgt : -value m' e' < value m e := (neg_neg_of_pos hpos').trans hpos
      have hstored := (stored_of_unpack hx).compare_eq (stored_of_unpack hy)
      rw [hx, hy, number_of_finite hx, number_of_finite hy]
      cases s with
      | positive =>
        cases s' with
        | positive => exact congrArg some hstored
        | negative => exact congrArg some (compare_gt_iff_gt.2 hgt).symm
      | negative =>
        cases s' with
        | positive => exact congrArg some (compare_lt_iff_lt.2 hlt).symm
        | negative =>
          show some (Ordering.swap _) = some (compare (-_) (-_))
          rw [compare_neg, hstored]

theorem le_iff (hx : x.isFinite) (hy : y.isFinite) : x ≤ y ↔ number x ≤ number y := by
  rw [le_iff_compare, compare_eq hx hy, Option.any_some, Ordering.isLE_iff_ne_gt]
  exact compare_le_iff_le

theorem beq_iff (hx : x.isFinite) (hy : y.isFinite) : (x == y) = true ↔ number x = number y := by
  rw [beq_iff_compare, compare_eq hx hy, Option.some_inj]
  exact compare_eq_iff_eq

end Naskah.Binary
