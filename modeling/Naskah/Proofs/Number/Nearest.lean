import Mathlib.Algebra.Order.Ring.Abs
import Naskah.Proofs.Number.Order

/-
  Rounding. A number that need not be a float is cut off behind the last digit that a float has
  (`Truncation`), and the digits that remain go up by at most one, which the first digit that is cut
  off decides (`Describes`, `Rounds`). So no number that can be stored lies between a number and what
  it is rounded to (`Faithful`, `Rounds.exists_stands`), and the sum of two finite floats is a faithful
  rounding of the sum of their numbers (`exists_add`); one that can be stored is the sum itself.
-/

namespace Naskah.Binary

open Float.Model Float.Model.UnpackedFloat

variable {m r : Nat} {e t : Int} {s : Sign} {p q q' : ℚ} {x y : Float}

/-! ## Faithful rounding -/

/-- The number has no more digits than a float, and none beyond the last digit that floats have; it
    may be greater than all floats. -/
def Representable (q : ℚ) : Prop :=
  ∃ (m : Nat) (e : Int), m < 2 ^ 53 ∧ -1074 ≤ e ∧ |q| = value m e

theorem Representable.neg (h : Representable q) : Representable (-q) := by
  obtain ⟨m, e, hm, he, hq⟩ := h
  exact ⟨m, e, hm, he, (abs_neg q).trans hq⟩

theorem value_nonneg (m : Nat) (e : Int) : 0 ≤ value m e :=
  mul_nonneg (Nat.cast_nonneg m) (zpow_pos two_pos e).le

theorem value_le_value_iff {m₁ m₂ : Nat} : value m₁ e ≤ value m₂ e ↔ m₁ ≤ m₂ := by
  rw [← not_lt, value_lt_value_iff, Nat.not_lt]

theorem value_zero (e : Int) : value 0 e = 0 := by
  unfold value
  rw [Nat.cast_zero, zero_mul]

theorem abs_signed_value (s : Sign) (m : Nat) (e : Int) : |signed s (value m e)| = value m e := by
  cases s with
  | positive => exact abs_of_nonneg (value_nonneg m e)
  | negative => exact (abs_neg _).trans (abs_of_nonneg (value_nonneg m e))

theorem representable_number (h : x.isFinite) : Representable (number x) := by
  rcases finite_cases h with ⟨s, hx⟩ | ⟨s, m, e, hm, hx⟩
  · rw [number_of_zero hx]
    exact ⟨0, 0, by decide, by decide, abs_zero.trans (value_zero 0).symm⟩
  · have hstored := stored_of_unpack hx
    rw [number_of_finite hx]
    exact ⟨m, e, hstored.lt, hstored.least, abs_signed_value s m e⟩

/-- Integers are representable up to the first one that is followed by a gap. -/
theorem representable_int {n : Int} (h : |n| ≤ 2 ^ 53) : Representable n := by
  have habs : |(n : ℚ)| = value n.natAbs 0 := by
    unfold value
    rw [zpow_zero, mul_one, ← Int.cast_abs, Int.abs_eq_natAbs, Int.cast_natCast]
  have hle : n.natAbs ≤ 2 ^ 53 := by
    rw [Int.abs_eq_natAbs] at h
    omega
  rcases Nat.lt_or_eq_of_le hle with hlt | heq
  · exact ⟨n.natAbs, 0, hlt, by decide, habs⟩
  · refine ⟨2 ^ 52, 1, by decide, by decide, ?_⟩
    rw [habs, heq]
    exact value_shift (2 ^ 52) 1 1

/-- The number `q'` is what `q` may be rounded to: nothing that is representable lies between. -/
structure Faithful (q q' : ℚ) : Prop where
  below : ∀ p, Representable p → p ≤ q → p ≤ q'
  above : ∀ p, Representable p → q ≤ p → q' ≤ p

namespace Faithful

theorem refl (q : ℚ) : Faithful q q where
  below _ _ h := h
  above _ _ h := h

theorem neg (h : Faithful q q') : Faithful (-q) (-q') where
  below p hp hle := neg_le_neg_iff.1 (by
    rw [neg_neg]
    exact h.above (-p) hp.neg (le_neg_of_le_neg hle))
  above p hp hle := neg_le_neg_iff.1 (by
    rw [neg_neg]
    exact h.below (-p) hp.neg (neg_le_of_neg_le hle))

/-- What is representable is not changed. -/
theorem eq (h : Faithful q q') (hq : Representable q) : q' = q :=
  le_antisymm (h.above q hq le_rfl) (h.below q hq le_rfl)

end Faithful

/-- The number `q` begins with `m` units of `2 ^ t`, and these are as many digits as a float has. -/
structure Truncation (q : ℚ) (m : Nat) (t : Int) : Prop where
  le : value m t ≤ q
  lt : q < value (m + 1) t
  short : m < 2 ^ 53
  least : -1074 ≤ t
  full : 2 ^ 52 ≤ m ∨ t = -1074

namespace Truncation

/-- Numbers that are representable and not less than the digits of `q` have no digits beyond them. -/
theorem grid (h : Truncation q m t) {m' : Nat} {e : Int} (hm' : m' < 2 ^ 53) (he : -1074 ≤ e) :
    value m' e < value m t ∨ ∃ n, value m' e = value n t := by
  by_cases hle : t ≤ e
  · obtain ⟨k, hk⟩ : ∃ k : Nat, t = e - k := ⟨(e - t).toNat, by omega⟩
    refine .inr ⟨m' * 2 ^ k, ?_⟩
    rw [hk, value_shift]
  · have hfull : 2 ^ 52 ≤ m := h.full.resolve_right (by omega)
    have hexp : ((53 : Nat) : Int) + e ≤ (52 : Nat) + t := by omega
    refine .inl ?_
    calc value m' e < 2 ^ ((53 : Nat) + e) := value_lt hm' e
      _ ≤ 2 ^ ((52 : Nat) + t) := zpow_le_zpow_right₀ one_le_two hexp
      _ ≤ value m t := le_value hfull t

/-- The digits of `q`, which may go up by one if `q` has more of them, are a faithful rounding. -/
theorem faithful_round (h : Truncation q m t) (hr : r = m ∨ r = m + 1 ∧ value m t ≠ q) :
    Faithful q (value r t) where
  below p hp hle := by
    have hmr : value m t ≤ value r t := value_le_value_iff.2 (by omega)
    rcases le_or_gt p 0 with hneg | hpos
    · exact hneg.trans (value_nonneg r t)
    · obtain ⟨m', e, hm', he, heq⟩ := hp
      rw [abs_of_pos hpos] at heq
      rw [heq] at hle ⊢
      rcases h.grid hm' he with hlt | ⟨n, hn⟩
      · exact hlt.le.trans hmr
      · rw [hn] at hle ⊢
        have hn' : n < m + 1 := value_lt_value_iff.1 (hle.trans_lt h.lt)
        exact value_le_value_iff.2 (by omega)
  above p hp hle := by
    have hpos : 0 ≤ p := (value_nonneg m t).trans (h.le.trans hle)
    obtain ⟨m', e, hm', he, heq⟩ := hp
    rw [abs_of_nonneg hpos] at heq
    rw [heq] at hle ⊢
    rcases h.grid hm' he with hlt | ⟨n, hn⟩
    · exact absurd (h.le.trans hle) (not_le.2 hlt)
    · rw [hn] at hle ⊢
      rcases hr with rfl | ⟨rfl, hne⟩
      · exact h.le.trans hle
      · have hn' : m < n := value_lt_value_iff.1 ((lt_of_le_of_ne h.le hne).trans_le hle)
        exact value_le_value_iff.2 hn'

end Truncation

/-! ## Mantissas -/

theorem value_double (m : Nat) (e : Int) : value (2 * m) e = value m (e + 1) := by
  have hshift := value_shift m (e + 1) 1
  rwa [Nat.pow_one, Nat.mul_comm, Int.natCast_one, Int.add_sub_cancel] at hshift

theorem value_lt_half (m : Nat) (t : Int) : value m t < value (2 * m + 1) (t - 1) :=
  calc value m t = value (2 * m) (t - 1) := by rw [value_double, Int.sub_add_cancel]
    _ < value (2 * m + 1) (t - 1) := value_lt_value_iff.2 (Nat.lt_succ_self _)

/-- A mantissa with its digits behind it is the number `q` in units of `2 ^ t`: `q` begins with the
    mantissa, and the first digit behind it says whether the rest is half a unit or more. -/
structure Describes (em : ExtendedMantissa) (t : Int) (q : ℚ) : Prop where
  le : value em.mantissa t ≤ q
  lt : q < value (em.mantissa + 1) t
  half : em.roundBit = true ↔ value (2 * em.mantissa + 1) (t - 1) ≤ q

/-- A mantissa goes up only if half a unit or more is cut off, and an odd one always does then. -/
theorem roundedMantissa_cases (em : ExtendedMantissa) :
    (em.roundedMantissa = em.mantissa ∧ (em.roundBit = false ∨ em.mantissa % 2 = 0)) ∨
      em.roundedMantissa = em.mantissa + 1 ∧ em.roundBit = true := by
  obtain ⟨m, round, sticky⟩ := em
  cases round with
  | false => cases sticky <;> exact .inl ⟨rfl, .inl rfl⟩
  | true =>
    cases sticky with
    | false =>
      rcases Nat.mod_two_eq_zero_or_one m with heven | hodd
      · exact .inl ⟨congrArg (m + ·) heven, .inr heven⟩
      · exact .inr ⟨congrArg (m + ·) hodd, rfl⟩
    | true => exact .inr ⟨rfl, rfl⟩

theorem roundedMantissa_bounds (em : ExtendedMantissa) :
    em.mantissa ≤ em.roundedMantissa ∧ em.roundedMantissa ≤ em.mantissa + 1 := by
  rcases roundedMantissa_cases em with ⟨heq, -⟩ | ⟨heq, -⟩ <;> omega

theorem describes_exact (m : Nat) (t : Int) : Describes ⟨m, false, false⟩ t (value m t) where
  le := le_rfl
  lt := value_lt_value_iff.2 (Nat.lt_succ_self m)
  half := ⟨nofun, fun hle => absurd hle (value_lt_half m t).not_ge⟩

namespace Describes

variable {em : ExtendedMantissa}

theorem shiftRightOne (h : Describes em t q) : Describes em.shiftRightOne (t + 1) q where
  le := by
    rw [← value_double]
    exact (value_le_value_iff.2 (Nat.mul_div_le em.mantissa 2)).trans h.le
  lt := by
    rw [← value_double]
    refine h.lt.trans_le (value_le_value_iff.2 ?_)
    show em.mantissa + 1 ≤ 2 * (em.mantissa / 2 + 1)
    omega
  half := by
    rw [Int.add_sub_cancel]
    show (em.mantissa % 2 != 0) = true ↔ value (2 * (em.mantissa / 2) + 1) t ≤ q
    rw [bne_iff_ne]
    rcases Nat.mod_two_eq_zero_or_one em.mantissa with heven | hodd
    · have heq : 2 * (em.mantissa / 2) + 1 = em.mantissa + 1 := by omega
      rw [heq]
      exact ⟨fun hne => absurd heven hne, fun hle => absurd hle h.lt.not_ge⟩
    · have heq : 2 * (em.mantissa / 2) + 1 = em.mantissa := by omega
      rw [heq, hodd]
      exact ⟨fun _ => h.le, fun _ => Nat.one_ne_zero⟩

theorem shiftRight (h : Describes em t q) (k : Nat) : Describes (em >>> k) (t + k) q := by
  show Describes (Nat.repeat ExtendedMantissa.shiftRightOne k em) _ q
  induction k with
  | zero =>
    rw [Int.natCast_zero, Int.add_zero]
    exact h
  | succ k ih =>
    rw [Int.natCast_succ, ← Int.add_assoc]
    exact ih.shiftRightOne

/-- Where a mantissa goes up, something is cut off. -/
theorem faithful_rounded (h : Describes em t q) (htrunc : Truncation q em.mantissa t) :
    Faithful q (value em.roundedMantissa t) := by
  refine htrunc.faithful_round ?_
  rcases roundedMantissa_cases em with ⟨heq, -⟩ | ⟨heq, hround⟩
  · exact .inl heq
  · exact .inr ⟨heq, ((value_lt_half _ t).trans_le (h.half.1 hround)).ne⟩

end Describes

theorem mantissa_shiftRight (em : ExtendedMantissa) (k : Nat) :
    (em >>> k).mantissa = em.mantissa / 2 ^ k := by
  show (Nat.repeat ExtendedMantissa.shiftRightOne k em).mantissa = _
  induction k with
  | zero => rw [Nat.pow_zero, Nat.div_one]; rfl
  | succ k ih =>
    have hhalf : (Nat.repeat ExtendedMantissa.shiftRightOne (k + 1) em).mantissa =
        (Nat.repeat ExtendedMantissa.shiftRightOne k em).mantissa / 2 := rfl
    rw [hhalf, ih, Nat.div_div_eq_div_mul, Nat.pow_succ]

/-- A rounded mantissa may have one digit too many, which is then cut off. -/
def settled (s : Sign) (r : Nat) (t : Int) : UnpackedFloat :=
  if h : r = 0 then .zero s
  else if r < 2 ^ 53 then .finite s r t (Nat.pos_of_ne_zero h)
  else .finite s (2 ^ 52) (t + 1) (by decide)

theorem targetExponent_totalExponent (m : Nat) (e : Int) :
    Format.binary64.targetExponent (totalExponent m e) = max (m.log2 + 1 + e - 53) (-1074) :=
  rfl

/-- A mantissa that is short enough is not shifted. -/
theorem shiftToTargetExponent_short (hr : r < 2 ^ 53) (ht : -1074 ≤ t) :
    shiftToTargetExponent Format.binary64 r t .exact = (⟨r, false, false⟩, t) := by
  have hlog : r.log2 < 53 := by
    rcases Nat.eq_zero_or_pos r with rfl | hpos
    · decide
    · exact (Nat.log2_lt hpos.ne').2 hr
  have hamount : (max ((r.log2 : Int) + 1 + t - 53) (-1074) - t).toNat = 0 := by omega
  unfold shiftToTargetExponent shiftToExponent
  rw [targetExponent_totalExponent]
  dsimp only
  rw [hamount]
  exact Prod.ext rfl (Int.add_zero t)

theorem shiftToTargetExponent_carry (ht : -1074 ≤ t) :
    shiftToTargetExponent Format.binary64 (2 ^ 53) t .exact =
      (⟨2 ^ 52, false, false⟩, t + 1) := by
  have hlog : (2 ^ 53).log2 = 53 := by decide
  have hamount : (max (((2 ^ 53).log2 : Int) + 1 + t - 53) (-1074) - t).toNat = 1 := by omega
  unfold shiftToTargetExponent shiftToExponent
  rw [targetExponent_totalExponent]
  dsimp only
  rw [hamount]
  rfl

/-- The digits that are left when the last `k` are cut off, where `e + k` is the place that is meant for
    the last one. -/
theorem shiftRight_short {k : Nat} (ht : max ((m.log2 : Int) + 1 + e - 53) (-1074) = e + k) :
    m / 2 ^ k < 2 ^ 53 := by
  have hle : m.log2 + 1 ≤ 53 + k := by omega
  refine Nat.div_lt_of_lt_mul ?_
  rw [Nat.mul_comm, ← Nat.pow_add]
  exact Nat.lt_log2_self.trans_le (Nat.pow_le_pow_right Nat.two_pos hle)

theorem shiftRight_full {k : Nat} (ht : max ((m.log2 : Int) + 1 + e - 53) (-1074) = e + k) :
    2 ^ 52 ≤ m / 2 ^ k ∨ e + k = -1074 := by
  by_cases hleast : e + k = -1074
  · exact .inr hleast
  · have heq : m.log2 = 52 + k := by omega
    have hm : m ≠ 0 := by
      rintro rfl
      rw [Nat.log2_zero] at heq
      omega
    refine .inl ((Nat.le_div_iff_mul_le (Nat.two_pow_pos k)).2 ?_)
    rw [← Nat.pow_add, ← heq]
    exact Nat.log2_self_le hm

/-- The positive number `q` is rounded to `u`: it is cut off behind the last digit that a float has, and
    goes up by what is cut off. -/
def Rounds (s : Sign) (q : ℚ) (u : UnpackedFloat) : Prop :=
  ∃ em t, Describes em t q ∧ Truncation q em.mantissa t ∧ u = settled s em.roundedMantissa t

/-- A mantissa that has digits enough is rounded. -/
theorem rounds_roundWithAccuracy {acc : Accuracy} (s : Sign)
    (h : Describes (.ofMantissaAndAccuracy m acc) e q)
    (hle : e ≤ max ((m.log2 : Int) + 1 + e - 53) (-1074)) :
    Rounds s q (roundWithAccuracy Format.binary64 s m e acc) := by
  obtain ⟨k, hk⟩ : ∃ k : Nat, max ((m.log2 : Int) + 1 + e - 53) (-1074) = e + k :=
    ⟨(max ((m.log2 : Int) + 1 + e - 53) (-1074) - e).toNat, by omega⟩
  have hshift : shiftToTargetExponent Format.binary64 m e acc =
      (ExtendedMantissa.ofMantissaAndAccuracy m acc >>> k, e + k) := by
    have hamount : (e + k - e).toNat = k := by omega
    unfold shiftToTargetExponent shiftToExponent
    rw [targetExponent_totalExponent, hk]
    dsimp only
    rw [hamount]
  have hdescribes := h.shiftRight k
  have hmantissa : (ExtendedMantissa.ofMantissaAndAccuracy m acc >>> k).mantissa = m / 2 ^ k := by
    rw [mantissa_shiftRight]
    rcases acc with _ | ⟨_ | _ | _⟩ <;> rfl
  generalize ExtendedMantissa.ofMantissaAndAccuracy m acc >>> k = em at *
  have hshort : em.mantissa < 2 ^ 53 := hmantissa ▸ shiftRight_short hk
  have hfull : 2 ^ 52 ≤ em.mantissa ∨ e + k = -1074 := hmantissa ▸ shiftRight_full hk
  have hleast : -1074 ≤ e + k := by omega
  refine ⟨em, e + k, hdescribes, ⟨hdescribes.le, hdescribes.lt, hshort, hleast, hfull⟩, ?_⟩
  unfold roundWithAccuracy
  rw [hshift]
  dsimp only
  have hrounded : em.roundedMantissa ≤ 2 ^ 53 := (roundedMantissa_bounds em).2.trans hshort
  unfold settled
  rcases Nat.lt_or_eq_of_le hrounded with hlt | heq
  · rw [shiftToTargetExponent_short hlt hleast]
    exact dite_congr rfl (fun _ => rfl) fun _ => (if_pos hlt).symm
  · rw [heq, shiftToTargetExponent_carry hleast]
    rfl

/-- Before it is rounded a mantissa gets enough digits. -/
theorem decreaseExponent_eq (m : Nat) (e t : Int) :
    decreaseExponent m e t = (m * 2 ^ (e - t).toNat, e - (e - t).toNat) := by
  unfold decreaseExponent
  dsimp only
  rw [Nat.shiftLeft_eq]

/-- What a positive number is rounded to. -/
theorem rounds_round (hm : 0 < m) (e : Int) (s : Sign) :
    Rounds s (value m e) (UnpackedFloat.round Format.binary64 s m e) := by
  -- `m'` and `e'` are the mantissa and its exponent when there are enough digits
  obtain ⟨t, ht⟩ : ∃ t, t = Format.binary64.targetExponent (totalExponent m e) := ⟨_, rfl⟩
  obtain ⟨m', hm'⟩ : ∃ m', m' = m * 2 ^ (e - t).toNat := ⟨_, rfl⟩
  obtain ⟨e', he'⟩ : ∃ e', e' = e - ((e - t).toNat : Int) := ⟨_, rfl⟩
  have htotal : totalExponent m' e' = totalExponent m e := by
    rw [hm', he', totalExponent_shift hm]
  have hround : UnpackedFloat.round Format.binary64 s m e =
      roundWithAccuracy Format.binary64 s m' e' .exact := by
    unfold UnpackedFloat.round
    dsimp only
    rw [← ht, decreaseExponent_eq, hm', he']
  have hvalue : value m' e' = value m e := by rw [hm', he', value_shift]
  rw [hround, ← hvalue]
  refine rounds_roundWithAccuracy s (describes_exact m' e') ?_
  rw [← targetExponent_totalExponent, htotal, ← ht]
  omega


/-! ## Packing -/

/-- The float is the number, or the infinity of its sign if that is beyond all floats. -/
inductive Stands (x : Float) (q : ℚ) : Prop
  | finite (h : x.isFinite) (hq : number x = q)
  | above (h : x.toModel.unpack = .infinity .positive) (hq : 2 ^ 1024 ≤ q)
  | below (h : x.toModel.unpack = .infinity .negative) (hq : q ≤ -2 ^ 1024)

/-- A number whose exponent is too great is packed to an infinity. -/
theorem unpack_pack_overflow {hm : 0 < m} (he : 971 < e) :
    (Float.Model.pack (.finite s m e hm)).unpack = .infinity s := by
  have hpack : UnpackedFloat.pack Format.binary64 (.finite s m e hm) = word s (-1#11) 0#52 := by
    unfold UnpackedFloat.pack
    dsimp only
    rw [biased_eq, if_pos]
    · rfl
    · show 2 ^ 11 ≤ (e + 1075).toNat + 1
      omega
  show UnpackedFloat.unpack Format.binary64 (UnpackedFloat.pack Format.binary64 _) = _
  rw [hpack, unpack_infinity]

theorem stands_finite {hm : 0 < m} (hx : x.toModel = Float.Model.pack (.finite s m e hm))
    (hlt : m < 2 ^ 53) (hleast : -1074 ≤ e) (hfull : 2 ^ 52 ≤ m ∨ e = -1074) :
    Stands x (signed s (value m e)) := by
  by_cases hle : e ≤ 971
  · have hunpack : x.toModel.unpack = .finite s m e hm := by
      rw [hx]
      exact unpack_pack ⟨hm, hlt, hleast, hle, hfull⟩
    exact .finite (isFinite_of_finite hunpack) (number_of_finite hunpack)
  · have hunpack : x.toModel.unpack = .infinity s := by
      rw [hx]
      exact unpack_pack_overflow (by omega)
    have hexp : (1024 : Int) ≤ (52 : Nat) + e := by omega
    have hgreat : (2 : ℚ) ^ 1024 ≤ value m e :=
      calc (2 : ℚ) ^ 1024 = 2 ^ (1024 : Int) := (zpow_natCast 2 1024).symm
        _ ≤ 2 ^ ((52 : Nat) + e) := zpow_le_zpow_right₀ one_le_two hexp
        _ ≤ value m e := le_value (hfull.resolve_right (by omega)) e
    cases s with
    | positive => exact .above hunpack hgreat
    | negative => exact .below hunpack (neg_le_neg hgreat)

theorem stands_zero (hx : x.toModel = Float.Model.pack (.zero s)) : Stands x 0 := by
  have hunpack : x.toModel.unpack = .zero s := by
    rw [hx]
    cases s <;> rfl
  exact .finite (isFinite_of_zero hunpack) (number_of_zero hunpack)

theorem stands_settled (hx : x.toModel = Float.Model.pack (settled s r t)) (hr : r ≤ 2 ^ 53)
    (ht : -1074 ≤ t) (hfull : 2 ^ 52 ≤ r ∨ t = -1074) : Stands x (signed s (value r t)) := by
  unfold settled at hx
  by_cases hzero : r = 0
  · rw [dif_pos hzero] at hx
    rw [hzero, value_zero]
    have hsigned : signed s 0 = 0 := by cases s <;> simp [signed]
    rw [hsigned]
    exact stands_zero hx
  · rw [dif_neg hzero] at hx
    by_cases hlt : r < 2 ^ 53
    · rw [if_pos hlt] at hx
      exact stands_finite hx hlt ht hfull
    · have heq : r = 2 ^ 52 * 2 ^ 1 := by omega
      have hback : t = t + 1 - (1 : Nat) := by omega
      rw [if_neg hlt] at hx
      rw [heq, hback, value_shift]
      exact stands_finite hx (by decide) (by omega) (.inl (Nat.le_refl _))

theorem Truncation.stands {em : ExtendedMantissa} (htrunc : Truncation q em.mantissa t)
    (hx : x.toModel = Float.Model.pack (settled s em.roundedMantissa t)) :
    Stands x (signed s (value em.roundedMantissa t)) := by
  have hshort := htrunc.short
  obtain ⟨hle, hge⟩ := roundedMantissa_bounds em
  exact stands_settled hx (by omega) htrunc.least (htrunc.full.imp_left hle.trans')

/-- What a positive number is rounded to is packed to a float, with a sign. -/
theorem Rounds.exists_stands {u : UnpackedFloat} (h : Rounds s q u)
    (hx : x.toModel = Float.Model.pack u) : ∃ q', Stands x q' ∧ Faithful (signed s q) q' := by
  obtain ⟨em, t, hdescribes, htrunc, rfl⟩ := h
  refine ⟨_, htrunc.stands hx, ?_⟩
  cases s with
  | positive => exact hdescribes.faithful_rounded htrunc
  | negative => exact (hdescribes.faithful_rounded htrunc).neg

/-! ## Sums -/

theorem signed_value (s : Sign) (m : Nat) (e : Int) :
    signed s (value m e) = (s.apply m : Int) * (2 : ℚ) ^ e := by
  cases s with
  | positive =>
    show (m : ℚ) * 2 ^ e = ((m : Int) : ℚ) * 2 ^ e
    rw [Int.cast_natCast]
  | negative =>
    show -((m : ℚ) * 2 ^ e) = ((-(m : Int) : Int) : ℚ) * 2 ^ e
    rw [Int.cast_neg, Int.cast_natCast, neg_mul]

theorem exists_normalize (z : Int) (e : Int)
    (hx : x.toModel = Float.Model.pack (UnpackedFloat.normalize Format.binary64 z e .positive)) :
    ∃ q, Stands x q ∧ Faithful (z * (2 : ℚ) ^ e) q := by
  unfold UnpackedFloat.normalize at hx
  rcases Int.lt_trichotomy z 0 with hlt | rfl | hgt
  · rw [compare_lt_iff_lt.2 hlt] at hx
    have heq : z = Sign.negative.apply ((-z).toNat : Int) := by
      show z = -((-z).toNat : Int)
      omega
    rw [heq, ← signed_value]
    exact (rounds_round (by omega) e .negative).exists_stands hx
  · rw [compare_eq_iff_eq.2 rfl] at hx
    refine ⟨0, stands_zero hx, ?_⟩
    rw [Int.cast_zero, zero_mul]
    exact .refl 0
  · rw [compare_gt_iff_gt.2 hgt] at hx
    have heq : z = Sign.positive.apply (z.toNat : Int) := by
      show z = (z.toNat : Int)
      omega
    rw [heq, ← signed_value]
    exact (rounds_round (by omega) e .positive).exists_stands hx

/-- Adding two mantissas at the smaller one of their exponents. -/
theorem exists_add_finite (s s' : Sign) (e e' : Int) {m' : Nat} (hm : 0 < m) (hm' : 0 < m') :
    ∃ z t : Int, UnpackedFloat.add Format.binary64 (.finite s m e hm) (.finite s' m' e' hm') =
        UnpackedFloat.normalize Format.binary64 z t .positive ∧
      z * (2 : ℚ) ^ t = signed s (value m e) + signed s' (value m' e') := by
  obtain ⟨k, hk⟩ : ∃ k, (e - min e e').toNat = k := ⟨_, rfl⟩
  obtain ⟨k', hk'⟩ : ∃ k', (e' - min e e').toNat = k' := ⟨_, rfl⟩
  have hfirst : (s.apply (m * 2 ^ k : Nat) : Int) * (2 : ℚ) ^ min e e' = signed s (value m e) := by
    have heq : min e e' = e - k := by omega
    rw [← signed_value, heq, value_shift]
  have hsecond : (s'.apply (m' * 2 ^ k' : Nat) : Int) * (2 : ℚ) ^ min e e' =
      signed s' (value m' e') := by
    have heq : min e e' = e' - k' := by omega
    rw [← signed_value, heq, value_shift]
  refine ⟨s.apply (m * 2 ^ k : Nat) + s'.apply (m' * 2 ^ k' : Nat), min e e', ?_, ?_⟩
  · unfold UnpackedFloat.add
    dsimp only
    rw [decreaseExponent_eq, decreaseExponent_eq, hk, hk']
  · rw [Int.cast_add, add_mul, hfirst, hsecond]

/-- The sum of finite floats is a faithful rounding of the sum of their numbers. -/
theorem exists_add (hx : x.isFinite) (hy : y.isFinite) :
    ∃ q, Stands (x + y) q ∧ Faithful (number x + number y) q := by
  have hsum : (x + y).toModel =
      Float.Model.pack (UnpackedFloat.add Format.binary64 x.toModel.unpack y.toModel.unpack) := rfl
  rcases finite_cases hx with ⟨s, hux⟩ | ⟨s, m, e, hm, hux⟩
  · rw [number_of_zero hux, zero_add]
    rcases finite_cases hy with ⟨s', huy⟩ | ⟨s', m', e', hm', huy⟩
    · obtain ⟨s'', hzero⟩ : ∃ s'', UnpackedFloat.add Format.binary64 (.zero s) (.zero s') =
          .zero s'' := by cases s <;> cases s' <;> exact ⟨_, rfl⟩
      rw [hux, huy, hzero] at hsum
      rw [number_of_zero huy]
      exact ⟨0, stands_zero hsum, .refl 0⟩
    · have hstored := stored_of_unpack huy
      rw [hux, huy] at hsum
      rw [number_of_finite huy]
      exact ⟨_, stands_finite hsum hstored.lt hstored.least hstored.full, .refl _⟩
  · rw [number_of_finite hux]
    rcases finite_cases hy with ⟨s', huy⟩ | ⟨s', m', e', hm', huy⟩
    · have hstored := stored_of_unpack hux
      rw [hux, huy] at hsum
      rw [number_of_zero huy, add_zero]
      exact ⟨_, stands_finite hsum hstored.lt hstored.least hstored.full, .refl _⟩
    · obtain ⟨z, t, hadd, hvalue⟩ := exists_add_finite s s' e e' hm hm'
      rw [hux, huy, hadd] at hsum
      rw [number_of_finite huy, ← hvalue]
      exact exists_normalize z t hsum

/-- No float is as great as the numbers that are packed to an infinity. -/
theorem abs_number_lt (hx : x.isFinite) : |number x| < 2 ^ 1024 := by
  rcases finite_cases hx with ⟨s, hux⟩ | ⟨s, m, e, hm, hux⟩
  · rw [number_of_zero hux, abs_zero]
    exact pow_pos two_pos 1024
  · have hstored := stored_of_unpack hux
    have hgreatest := hstored.greatest
    have hexp : ((53 : Nat) : Int) + e ≤ (1024 : Nat) := by omega
    rw [number_of_finite hux, abs_signed_value, ← zpow_natCast]
    exact (value_lt hstored.lt e).trans_le (zpow_le_zpow_right₀ one_le_two hexp)

/-- A float that is packed from a number which is small enough is this number. -/
theorem Stands.number_eq (h : Stands x q) (hq : |q| < 2 ^ 1024) :
    x.isFinite ∧ number x = q := by
  obtain ⟨hleast, hgreatest⟩ := abs_lt.1 hq
  cases h with
  | finite hx hnumber => exact ⟨hx, hnumber⟩
  | above _ hle => exact absurd hgreatest (not_lt.2 hle)
  | below _ hle => exact absurd hleast (not_lt.2 hle)

theorem Stands.number_of_isFinite (h : Stands x q) (hx : x.isFinite) : number x = q := by
  have hunpack : x.toModel.unpack.isFinite = true := hx
  cases h with
  | finite _ hnumber => exact hnumber
  | above hinfinite _ | below hinfinite _ =>
    rw [hinfinite] at hunpack
    cases hunpack

/-- A sum that is representable, and not beyond all floats, is exact. -/
theorem number_add (hx : x.isFinite) (hy : y.isFinite) (h : Representable (number x + number y))
    (hlt : |number x + number y| < 2 ^ 1024) :
    (x + y).isFinite ∧ number (x + y) = number x + number y := by
  obtain ⟨q, hstands, hfaithful⟩ := exists_add hx hy
  rw [hfaithful.eq h] at hstands
  exact hstands.number_eq hlt

end Naskah.Binary
