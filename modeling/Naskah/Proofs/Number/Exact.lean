import Naskah.Number.Shortest
import Naskah.Proofs.Number.Rounding

/-
  Decimals that are floats. A decimal whose value can be stored is read as the float with this value
  (`Decimal.toFloat_of_value`), on the short way over powers of ten that are floats as well as on the
  long way. So the exact decimal of a float reads back as the float, and with it the shortest one
  (`Shortest.toFloat_ofBinary_eq`).
-/

namespace Naskah

open Float.Model Float.Model.UnpackedFloat Binary

variable {m : Nat} {e : Int}

/-! ## Values of decimals -/

namespace Decimal

/-- The number that a decimal stands for. -/
def value (d : Decimal) : ℚ := d.digits * 10 ^ d.exponent

theorem value_reduced (n : Nat) (e : Int) : (reduced n e).value = n * 10 ^ e := by
  fun_induction reduced n e with
  | case1 n e h ih =>
    have hn : (n : ℚ) = (n / 10 : Nat) * 10 := by
      exact_mod_cast (Nat.div_mul_cancel (Nat.dvd_of_mod_eq_zero h.2)).symm
    rw [ih, zpow_add_one₀ (by norm_num), hn]
    ring
  | case2 n e h => rfl

theorem reduced_zero (e : Int) : reduced 0 e = ⟨0, e⟩ := by
  rw [reduced, if_neg fun h => h.1 rfl]

/-- The digits of a decimal that is not zero do not end in zero. -/
structure IsReduced (d : Decimal) : Prop where
  pos : 0 < d.digits
  last : d.digits % 10 ≠ 0

theorem isReduced_reduced {n : Nat} (hn : n ≠ 0) (e : Int) : (reduced n e).IsReduced := by
  have hlast := reduced_mod_ten hn e
  exact ⟨Nat.pos_of_ne_zero fun h0 => hlast (by rw [h0]), hlast⟩

/-- A reduced decimal is what its digits and any zeros behind them are reduced to. -/
theorem IsReduced.reduced_mul_pow {d : Decimal} (h : d.IsReduced) (k : Nat) :
    reduced (d.digits * 10 ^ k) (d.exponent - k) = d := by
  induction k with
  | zero =>
    rw [Nat.pow_zero, Nat.mul_one, Int.natCast_zero, Int.sub_zero, reduced,
      if_neg fun h0 => h.last h0.2]
  | succ k ih =>
    have hpos : d.digits * 10 ^ k ≠ 0 := (Nat.mul_pos h.pos (Nat.pow_pos (by decide))).ne'
    have hdigits : d.digits * 10 ^ (k + 1) = 10 * (d.digits * 10 ^ k) := by
      rw [Nat.pow_succ, ← Nat.mul_assoc, Nat.mul_comm]
    have hexponent : d.exponent - (k + 1 : Nat) = d.exponent - k - 1 := by omega
    rw [hdigits, hexponent, reduced_mul_ten hpos, ih]

end Decimal

/-! ## Natural numbers and powers of ten -/

namespace Binary

/-- The float is the positive number `q`, and its mantissa is full. -/
def IsFull (x : Float) (q : ℚ) : Prop :=
  ∃ m e, ∃ h : 0 < m, x.toModel.unpack = .finite .positive m e h ∧ value m e = q ∧ 2 ^ 52 ≤ m

/-- A natural number that can be stored is not changed by rounding. -/
theorem round_exact {n k : Nat} {s : Sign} (h : Stored (n * 2 ^ k) (-k)) :
    UnpackedFloat.round Format.binary64 s n 0 = .finite s (n * 2 ^ k) (-k) h.pos := by
  have hn : 0 < n := Nat.pos_of_mul_pos_right h.pos
  have htarget := targetExponent_eq h
  have htotal := totalExponent_shift hn 0 k
  rw [Int.zero_sub] at htotal
  rw [htotal] at htarget
  have hexact := roundWithAccuracy_exact (s := s) h 0
  rw [Nat.pow_zero, Nat.mul_one, Int.natCast_zero, Int.sub_zero] at hexact
  have hamount : (0 - -(k : Int)).toNat = k := by omega
  unfold UnpackedFloat.round decreaseExponent
  dsimp only
  rw [htarget, hamount, Nat.shiftLeft_eq, Int.zero_sub]
  exact hexact

/-- A natural number that has no more than 53 binary digits is a float. -/
theorem isFull_toFloat {n : Nat} (hpos : 0 < n) (hlt : n < 2 ^ 53) :
    IsFull n.toUInt64.toFloat n := by
  have hlog : n.log2 < 53 := (Nat.log2_lt hpos.ne').2 hlt
  obtain ⟨k, hk⟩ : ∃ k, n.log2 + k = 52 := ⟨52 - n.log2, by omega⟩
  have hfull : 2 ^ 52 ≤ n * 2 ^ k := by
    rw [← hk, Nat.pow_add]
    exact Nat.mul_le_mul_right _ (Nat.log2_self_le hpos.ne')
  have hshort : n * 2 ^ k < 2 ^ 53 := by
    rw [show 53 = n.log2 + 1 + k by omega, Nat.pow_add]
    exact Nat.mul_lt_mul_of_pos_right Nat.lt_log2_self (Nat.two_pow_pos k)
  have hstored : Stored (n * 2 ^ k) (-k) :=
    ⟨by omega, hshort, by omega, by omega, .inl hfull⟩
  have hword : n.toUInt64.toNat = n := by
    show n % 2 ^ 64 = n
    omega
  have hmodel : n.toUInt64.toFloat.toModel =
      Float.Model.pack (.finite .positive (n * 2 ^ k) (-k) hstored.pos) := by
    show Float.Model.pack (UnpackedFloat.normalize Format.binary64 (n.toUInt64.toNat : Int) 0
      .positive) = _
    have hcompare : compare (n : Int) 0 = .gt := compare_gt_iff_gt.2 (by omega)
    rw [hword]
    unfold UnpackedFloat.normalize
    rw [hcompare]
    exact congrArg _ (round_exact hstored)
  refine ⟨n * 2 ^ k, -k, hstored.pos, ?_, ?_, hfull⟩
  · rw [hmodel, unpack_pack hstored]
  · rw [← Int.zero_sub, value_shift]
    exact mul_one _

/-- Whether a float is a power of ten and its mantissa is full. -/
def isPowerOfTen (x : Float) (n : Nat) : Bool :=
  match x.toModel.unpack with
  | .finite .positive m e _ =>
    decide (-52 ≤ e) && decide (2 ^ 52 ≤ m) &&
      decide (m * 2 ^ (e + 52).toNat = 10 ^ n * 2 ^ 52)
  | _ => false

theorem isFull_of_isPowerOfTen {x : Float} {n : Nat} (h : isPowerOfTen x n = true) :
    IsFull x (10 ^ n) := by
  unfold isPowerOfTen at h
  split at h
  case h_1 m e hm hx =>
    simp only [Bool.and_eq_true, decide_eq_true_eq] at h
    obtain ⟨⟨hleast, hfull⟩, heq⟩ := h
    refine ⟨m, e, hm, hx, ?_, hfull⟩
    have hexponent : e - ((e + 52).toNat : Int) = 0 - (52 : Nat) := by omega
    rw [← value_shift m e (e + 52).toNat, heq, hexponent, value_shift]
    unfold value
    rw [zpow_zero, mul_one, Nat.cast_pow]
    rfl
  case h_2 => cases h

theorem isPowerOfTen_powersOfTen : ∀ i : Fin Float.exactlyRepresentablePowersOfTen.size,
    isPowerOfTen Float.exactlyRepresentablePowersOfTen[i] i = true := by
  decide +kernel

/-- The powers of ten in the table are those that are floats. -/
theorem isFull_powerOfTen (n : Nat) (h : n < Float.exactlyRepresentablePowersOfTen.size) :
    IsFull Float.exactlyRepresentablePowersOfTen[n] (10 ^ n) :=
  isFull_of_isPowerOfTen (isPowerOfTen_powersOfTen ⟨n, h⟩)

/-! ## Reading -/

theorem toModel_mul {x y : Float} {p q : ℚ} (hx : IsFull x p) (hy : IsFull y q) (h : Stored m e)
    (hvalue : p * q = value m e) :
    (x * y).toModel = Float.Model.pack (.finite .positive m e h.pos) := by
  obtain ⟨m₁, e₁, h₁, hx, rfl, hfull₁⟩ := hx
  obtain ⟨m₂, e₂, h₂, hy, rfl, hfull₂⟩ := hy
  show Float.Model.pack (UnpackedFloat.mul Format.binary64 x.toModel.unpack y.toModel.unpack) = _
  rw [hx, hy, mul_exact h hvalue (hfull₁.trans (Nat.le_mul_of_pos_right m₁ h₂))]
  rfl

theorem toModel_div {x y : Float} {p q : ℚ} (hx : IsFull x p) (hy : IsFull y q) (h : Stored m e)
    (hvalue : p = value m e * q) :
    (x / y).toModel = Float.Model.pack (.finite .positive m e h.pos) := by
  obtain ⟨m₁, e₁, h₁, hx, rfl, -⟩ := hx
  obtain ⟨m₂, e₂, h₂, hy, rfl, -⟩ := hy
  show Float.Model.pack (UnpackedFloat.div Format.binary64 x.toModel.unpack y.toModel.unpack) = _
  rw [hx, hy, div_exact h hvalue]
  rfl

theorem unpack_toFloat_zero : (Nat.toUInt64 0).toFloat.toModel.unpack = .zero .positive := by
  rfl

theorem toModel_zero_mul {x : Float} {q : ℚ} (hx : IsFull x q) :
    ((Nat.toUInt64 0).toFloat * x).toModel = Float.Model.pack (.zero .positive) := by
  obtain ⟨m, e, hm, hx, -, -⟩ := hx
  show Float.Model.pack (UnpackedFloat.mul Format.binary64 _ x.toModel.unpack) = _
  rw [unpack_toFloat_zero, hx]
  rfl

theorem toModel_zero_div {x : Float} {q : ℚ} (hx : IsFull x q) :
    ((Nat.toUInt64 0).toFloat / x).toModel = Float.Model.pack (.zero .positive) := by
  obtain ⟨m, e, hm, hx, -, -⟩ := hx
  show Float.Model.pack (UnpackedFloat.div Format.binary64 _ x.toModel.unpack) = _
  rw [unpack_toFloat_zero, hx]
  rfl

/-- A decimal that can be stored is not too large to be computed. -/
theorem Stored.scale_lt {n : Nat} {k : Int} (h : Stored m e) (hn : 0 < n)
    (hvalue : (n : ℚ) * 10 ^ k = value m e) : k < 1024 := by
  by_contra hk
  have hgreatest := h.greatest
  have hten : (2 : ℚ) ^ (1024 : Int) ≤ 10 ^ k :=
    calc (2 : ℚ) ^ (1024 : Int) ≤ 10 ^ (1024 : Int) :=
          zpow_le_zpow_left₀ (by decide) (by norm_num) (by norm_num)
      _ ≤ 10 ^ k := zpow_le_zpow_right₀ (by norm_num) (by omega)
  have hlt : value m e < (2 : ℚ) ^ (1024 : Int) :=
    (value_lt h.lt e).trans_le (zpow_le_zpow_right₀ one_le_two (by omega))
  have hle : (10 : ℚ) ^ k ≤ n * 10 ^ k :=
    le_mul_of_one_le_left (zpow_pos (by norm_num) k).le (by exact_mod_cast hn)
  rw [hvalue] at hle
  exact absurd (hten.trans hle) hlt.not_ge

theorem ten_zpow_le {k : Int} (hk : k ≤ 0) : (10 : ℚ) ^ k ≤ 2 ^ k := by
  rw [← neg_neg k, zpow_neg, zpow_neg (2 : ℚ)]
  exact inv_anti₀ (zpow_pos two_pos _) (zpow_le_zpow_left₀ (by omega) (by norm_num) (by norm_num))

/-- A decimal that can be stored is not too small to be computed. -/
theorem Stored.lt_scale {n : Nat} {k : Int} (h : Stored m e)
    (hvalue : (n : ℚ) * 10 ^ k = value m e) : -(1076 + (n.log2 : Int)) < k := by
  by_contra hk
  have hleast := h.least
  have hn : (n : ℚ) < 2 ^ ((n.log2 : Int) + 1) := by
    have := value_lt (Nat.lt_log2_self (n := n)) 0
    rw [value, zpow_zero, mul_one, Int.add_zero] at this
    exact_mod_cast this
  have hten : (10 : ℚ) ^ k ≤ 2 ^ k := ten_zpow_le (by omega)
  have hlt : value m e < (2 : ℚ) ^ ((n.log2 : Int) + 1 + k) := by
    rw [← hvalue, zpow_add₀ two_ne_zero]
    exact mul_lt_mul hn hten (zpow_pos (by norm_num) k) (zpow_pos two_pos _).le
  have hle : (2 : ℚ) ^ ((0 : Nat) + e) ≤ value m e := le_value h.pos e
  have := (zpow_lt_zpow_iff_right₀ one_lt_two).1 (hle.trans_lt hlt)
  omega

/-- A natural number times a power of ten, as it is computed. -/
theorem value_mul_powerOfTen (n l : Nat) :
    value (n <<< 53) (-(53 : Nat)) * value (10 ^ l) 0 = n * 10 ^ (l : Int) := by
  rw [Nat.shiftLeft_eq, ← Int.zero_sub, value_shift]
  unfold value
  rw [zpow_zero, mul_one, mul_one, Nat.cast_pow, zpow_natCast]
  rfl

theorem le_mul_powerOfTen {n : Nat} (hn : 0 < n) (l : Nat) : 2 ^ 52 ≤ n <<< 53 * 10 ^ l :=
  calc 2 ^ 52 ≤ 1 * 2 ^ 53 := by decide
    _ ≤ n * 2 ^ 53 := Nat.mul_le_mul_right _ hn
    _ = n <<< 53 := (Nat.shiftLeft_eq n 53).symm
    _ ≤ n <<< 53 * 10 ^ l := Nat.le_mul_of_pos_right _ (Nat.pow_pos (by decide))

theorem value_div_powerOfTen (n l : Nat) :
    value n 0 / value (10 ^ l) 0 = n * 10 ^ (-(l : Int)) := by
  unfold value
  rw [zpow_zero, mul_one, mul_one, zpow_neg, zpow_natCast, Nat.cast_pow, Nat.cast_ofNat,
    div_eq_mul_inv]

/-- A decimal that can be stored is computed exactly, also where powers of ten are no floats. -/
theorem ofScientific_exact {n : Nat} {k : Int} (h : Stored m e)
    (hvalue : (n : ℚ) * 10 ^ k = value m e) :
    UnpackedFloat.ofScientific Format.binary64 n k = .finite .positive m e h.pos := by
  have hn : n ≠ 0 := by
    rintro rfl
    rw [Nat.cast_zero, zero_mul] at hvalue
    exact (value_pos h.pos e).ne hvalue
  have hupper := h.scale_lt (Nat.pos_of_ne_zero hn) hvalue
  have hlower := h.lt_scale hvalue
  unfold UnpackedFloat.ofScientific
  rw [dif_neg hn, if_neg (by show ¬ k > 2 ^ 11; omega),
    if_neg (by show ¬ k < -((2 : Int) ^ 11 + n.log2); omega)]
  by_cases hk : 0 ≤ k
  · obtain ⟨l, rfl⟩ := Int.eq_ofNat_of_zero_le hk
    rw [if_pos hk]
    exact mul_exact h ((value_mul_powerOfTen n l).trans hvalue)
      (le_mul_powerOfTen (Nat.pos_of_ne_zero hn) l)
  · obtain ⟨l, hl⟩ := Int.eq_ofNat_of_zero_le (Int.neg_nonneg.2 (Int.not_le.1 hk).le)
    obtain rfl : k = -l := by omega
    have hpower : value (10 ^ l) 0 ≠ 0 := (value_pos (Nat.pow_pos (by decide)) 0).ne'
    have hquotient : value n 0 = value m e * value (10 ^ l) 0 :=
      (div_eq_iff hpower).1 ((value_div_powerOfTen n l).trans hvalue)
    rw [if_neg hk]
    simp only [Int.neg_neg, Int.toNat_natCast]
    exact div_exact h hquotient

end Binary

namespace Decimal

/-- A decimal that can be stored is read as the float that stores it. -/
theorem toFloat_of_value {d : Decimal} (h : Stored m e) (hvalue : d.value = Binary.value m e) :
    d.toFloat.toModel = Float.Model.pack (.finite .positive m e h.pos) := by
  obtain ⟨n, k⟩ := d
  have hn : 0 < n := by
    refine Nat.pos_of_ne_zero ?_
    rintro rfl
    rw [value, Nat.cast_zero, zero_mul] at hvalue
    exact (value_pos h.pos e).ne hvalue
  cases k with
  | ofNat k =>
    show (Float.ofScientific n false k).toModel = _
    unfold Float.ofScientific
    split
    case isTrue hfast =>
      exact toModel_mul (isFull_toFloat hn hfast.1) (isFull_powerOfTen k _) h hvalue
    case isFalse =>
      exact congrArg Float.Model.pack (ofScientific_exact h hvalue)
  | negSucc k =>
    show (Float.ofScientific n true (k + 1)).toModel = _
    unfold Float.ofScientific
    split
    case isTrue hfast =>
      refine toModel_div (isFull_toFloat hn hfast.1) (isFull_powerOfTen (k + 1) _) h ?_
      rw [← hvalue, value, zpow_negSucc, inv_mul_cancel_right₀ (pow_ne_zero _ (by norm_num))]
    case isFalse =>
      exact congrArg Float.Model.pack (ofScientific_exact h hvalue)

/-- A decimal without a digit other than zero is read as zero. -/
theorem toFloat_zero (k : Int) :
    (Decimal.mk 0 k).toFloat.toModel = Float.Model.pack (.zero .positive) := by
  cases k with
  | ofNat k =>
    show (Float.ofScientific 0 false k).toModel = _
    unfold Float.ofScientific
    split
    case isTrue => exact toModel_zero_mul (isFull_powerOfTen k _)
    case isFalse => rfl
  | negSucc k =>
    show (Float.ofScientific 0 true (k + 1)).toModel = _
    unfold Float.ofScientific
    split
    case isTrue => exact toModel_zero_div (isFull_powerOfTen (k + 1) _)
    case isFalse => rfl

end Decimal

/-! ## The shortest decimal -/

namespace Shortest

variable {x : Float} {hm : 0 < m}

theorem value_exact (m : Nat) (e : Int) : (exact m e).value = Binary.value m e := by
  cases e with
  | ofNat k =>
    rw [exact, Decimal.value_reduced, zpow_zero, mul_one]
    show ((m * 2 ^ k : Nat) : ℚ) = m * 2 ^ (k : Int)
    rw [Nat.cast_mul, Nat.cast_pow, zpow_natCast, Nat.cast_ofNat]
  | negSucc k =>
    have hten : (10 : ℚ) ^ (k + 1) = 5 ^ (k + 1) * 2 ^ (k + 1) := by
      rw [← mul_pow]
      norm_num
    rw [exact, Decimal.value_reduced]
    show ((m * 5 ^ (k + 1) : Nat) : ℚ) * 10 ^ Int.negSucc k = m * 2 ^ Int.negSucc k
    rw [Nat.cast_mul, Nat.cast_pow, Nat.cast_ofNat, zpow_negSucc, zpow_negSucc, hten]
    field_simp

/-- The exact decimal of a float reads back as the float. -/
theorem toFloat_exact (hx : x.toModel.unpack = .finite .positive m e hm) :
    (exact m e).toFloat = x := by
  have hread := Decimal.toFloat_of_value (stored_of_unpack hx) (value_exact m e)
  rw [← hx, pack_unpack] at hread
  exact congrArg Float.ofModel hread

/-- The shortest decimal of a float reads back as the float. -/
theorem toFloat_ofBinary_eq (tie : Tie) (hx : x.toModel.unpack = .finite .positive m e hm) :
    (ofBinary tie x m e).toFloat = x := by
  rcases toFloat_ofBinary tie x m e with h | h
  · exact h
  · rw [h, toFloat_exact hx]

theorem exists_neighbours_eq {tie : Tie} {r : Ratio} {k : Int} {d : Decimal}
    (hd : d ∈ neighbours tie r k) : ∃ n, d = .reduced n k := by
  unfold neighbours at hd
  dsimp only at hd
  split at hd
  · exact ⟨_, List.mem_singleton.1 hd⟩
  · split at hd
    all_goals
      rcases List.mem_pair.1 hd with h | h
      · exact ⟨_, h⟩
      · exact ⟨_, h⟩

theorem exists_ofBinary_eq (tie : Tie) (x : Float) (m : Nat) (e : Int) :
    ∃ n k, ofBinary tie x m e = .reduced n k := by
  simp only [ofBinary]
  cases h : List.findSome? _ _ with
  | none =>
    cases e with
    | ofNat e => exact ⟨_, _, rfl⟩
    | negSucc e => exact ⟨_, _, rfl⟩
  | some d =>
    obtain ⟨n, _, hn⟩ := List.exists_of_findSome?_eq_some h
    obtain ⟨k, hk⟩ := exists_neighbours_eq (List.mem_of_find?_eq_some hn)
    exact ⟨k, _, hk⟩

/-- The digits of the shortest decimal do not end in zero. -/
theorem isReduced_ofBinary (tie : Tie) (hx : x.toModel.unpack = .finite .positive m e hm) :
    (ofBinary tie x m e).IsReduced := by
  have hread := toFloat_ofBinary_eq tie hx
  obtain ⟨n, k, heq⟩ := exists_ofBinary_eq tie x m e
  rw [heq] at hread ⊢
  refine Decimal.isReduced_reduced ?_ k
  rintro rfl
  rw [Decimal.reduced_zero] at hread
  have hzero := Decimal.toFloat_zero k
  rw [hread] at hzero
  rw [hzero] at hx
  cases hx

end Shortest

end Naskah
