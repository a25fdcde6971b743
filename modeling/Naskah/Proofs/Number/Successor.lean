import Naskah.Proofs.Number.Nearest

/-
  Adding one to a float. The sum is not less than the float (`Counter.le_succ`), but it may be the
  same: great floats absorb the one. From `-2 ^ 53` up to `2 ^ 53` it is another float (`succ_ne`),
  and of an integer there it is the next one (`IsInteger.succ`).
-/

namespace Naskah.Binary

open Float.Model Float.Model.UnpackedFloat

variable {x y : Float}

theorem isFinite_one : (1.0 : Float).isFinite :=
  isFinite_of_finite (s := .positive) (m := 2 ^ 52) (e := -52) (h := rfl)

theorem number_one : number 1.0 = 1 := by
  have hone : (1.0 : Float).toModel.unpack = .finite .positive (2 ^ 52) (-52) (by decide) := rfl
  rw [number_of_finite hone]
  show ((2 ^ 52 : Nat) : ℚ) * 2 ^ (-52 : Int) = 1
  norm_num

/-- A finite float is the only one with its number, unless that is zero. -/
theorem eq_of_number_eq (hx : x.isFinite) (hy : y.isFinite) (h : number x = number y)
    (hne : number x ≠ 0) : x = y := by
  have hbeq : (x == y) = true := (beq_iff hx hy).2 h
  rcases (Float.beq_iff_ne_nan_and_eq.1 hbeq).2.2 with heq | ⟨rfl, -⟩ | ⟨rfl, -⟩
  · exact heq
  · exact absurd (number_of_zero (s := .positive) rfl) hne
  · exact absurd (number_of_zero (s := .negative) rfl) hne

theorem exists_succ (hx : x.isFinite) :
    ∃ q, Stands (x + 1.0) q ∧ Faithful (number x + 1) q := by
  have h := exists_add hx isFinite_one
  rw [number_one] at h
  exact h

theorem succ_infinity (h : x.toModel.unpack = .infinity .positive) :
    (x + 1.0).toModel.unpack = .infinity .positive := by
  show (Float.Model.pack (UnpackedFloat.add Format.binary64 x.toModel.unpack
    (1.0 : Float).toModel.unpack)).unpack = _
  rw [h]
  rfl

theorem not_infinity_le (hx : x.toModel.unpack = .infinity .positive) (hy : y.isFinite) :
    ¬ x ≤ y := by
  intro hle
  rw [le_iff_compare, hx] at hle
  rcases finite_cases hy with ⟨s, huy⟩ | ⟨s, m, e, hm, huy⟩
  · rw [huy] at hle
    cases hle
  · rw [huy] at hle
    cases hle

/-! ## Counters -/

/-- A float that adding one again and again to a finite float may lead to. -/
def Counter (x : Float) : Prop :=
  x.isFinite ∨ x.toModel.unpack = .infinity .positive

namespace Counter

theorem succ (h : Counter x) : Counter (x + 1.0) := by
  rcases h with hx | hx
  · obtain ⟨q, hstands, hfaithful⟩ := exists_succ hx
    have hle : number x ≤ q :=
      hfaithful.below _ (representable_number hx) (le_add_of_nonneg_right zero_le_one)
    cases hstands with
    | finite hfinite _ => exact .inl hfinite
    | above hinfinite _ => exact .inr hinfinite
    | below _ hq =>
      have hgreater : -2 ^ 1024 < number x := (abs_lt.1 (abs_number_lt hx)).1
      exact absurd (hle.trans hq) (not_le.2 hgreater)
  · exact .inr (succ_infinity hx)

theorem isFinite_of_le (h : Counter x) (hy : y.isFinite) (hle : x ≤ y) : x.isFinite :=
  h.resolve_right fun hx => not_infinity_le hx hy hle

/-- Within a finite bound adding one does not lead back. -/
theorem le_succ (h : Counter x) (hy : y.isFinite) (hle : x + 1.0 ≤ y) :
    x.isFinite ∧ (x + 1.0).isFinite ∧ number x ≤ number (x + 1.0) := by
  have hsucc : (x + 1.0).isFinite := h.succ.isFinite_of_le hy hle
  have hx : x.isFinite := h.resolve_right fun hx => not_infinity_le (succ_infinity hx) hy hle
  obtain ⟨q, hstands, hfaithful⟩ := exists_succ hx
  refine ⟨hx, hsucc, ?_⟩
  rw [hstands.number_of_isFinite hsucc]
  exact hfaithful.below _ (representable_number hx) (le_add_of_nonneg_right zero_le_one)

end Counter

/-! ## Integers -/

/-- The float is the integer; both floats that are zero are. -/
def IsInteger (x : Float) (n : Int) : Prop :=
  x.isFinite ∧ number x = n

theorem IsInteger.le_iff {m n : Int} (hx : IsInteger x m) (hy : IsInteger y n) :
    x ≤ y ↔ m ≤ n := by
  rw [Binary.le_iff hx.1 hy.1, hx.2, hy.2, Int.cast_le]

/-- Of an integer that is followed by one among the floats, this is the sum. -/
theorem IsInteger.succ {n : Int} (hn : IsInteger x n) (h : |n + 1| ≤ 2 ^ 53) :
    IsInteger (x + 1.0) (n + 1) := by
  obtain ⟨hx, hnumber⟩ := hn
  have hsum : number x + number 1.0 = (n + 1 : Int) := by
    rw [hnumber, number_one, Int.cast_add, Int.cast_one]
  have hlt : |((n + 1 : Int) : ℚ)| < 2 ^ 1024 :=
    calc |((n + 1 : Int) : ℚ)| ≤ 2 ^ 53 := by exact_mod_cast h
      _ < 2 ^ 1024 := pow_lt_pow_right₀ one_lt_two (by decide)
  have hadd := number_add hx isFinite_one (hsum ▸ representable_int h) (hsum ▸ hlt)
  rw [hsum] at hadd
  exact hadd

/-- Adding one makes a float greater or leaves it as it is. -/
theorem Counter.lt_succ (h : Counter x) (hy : y.isFinite) (hle : x + 1.0 ≤ y)
    (hne : x + 1.0 ≠ x) : number x < number (x + 1.0) := by
  obtain ⟨hx, hsucc, hnumber⟩ := h.le_succ hy hle
  refine lt_of_le_of_ne hnumber fun heq => ?_
  by_cases hzero : number x = 0
  · have hinteger : IsInteger x 0 := ⟨hx, hzero.trans Int.cast_zero.symm⟩
    have hone := (hinteger.succ (by decide)).2
    rw [← heq, hzero] at hone
    norm_num at hone
  · exact hne (eq_of_number_eq hx hsucc heq hzero).symm

/-- Adding one leads to the next integer at least. -/
theorem succ_ne (hx : x.isFinite) (hleast : -2 ^ 53 ≤ number x) (hlt : number x < 2 ^ 53) :
    x + 1.0 ≠ x := by
  intro heq
  obtain ⟨q, hstands, hfaithful⟩ := exists_succ hx
  rw [heq] at hstands
  have hfloor : |⌊number x⌋ + 1| ≤ 2 ^ 53 := by
    have hlow : -2 ^ 53 ≤ ⌊number x⌋ := Int.le_floor.2 (by exact_mod_cast hleast)
    have hhigh : ⌊number x⌋ < 2 ^ 53 := Int.floor_lt.2 (by exact_mod_cast hlt)
    rw [abs_le]
    omega
  have hle : ((⌊number x⌋ + 1 : Int) : ℚ) ≤ number x + 1 := by
    rw [Int.cast_add, Int.cast_one]
    exact add_le_add_left (Int.floor_le _) 1
  have hbelow := hfaithful.below _ (representable_int hfloor) hle
  rw [← hstands.number_of_isFinite hx, Int.cast_add, Int.cast_one] at hbelow
  exact absurd hbelow (not_le.2 (Int.lt_floor_add_one _))

end Naskah.Binary
