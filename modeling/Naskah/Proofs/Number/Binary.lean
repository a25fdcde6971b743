import Mathlib

/-
  Floats as a mantissa and an exponent. A word is its sign, its exponent and its mantissa
  (`exists_word`). A finite float other than zero has one mantissa and one exponent (`Stored`,
  `stored_of_unpack`), and packing them gives the float back (`pack_unpack`, `unpack_pack`).
-/

namespace Naskah.Binary

open Float.Model Float.Model.UnpackedFloat

/-- The mantissa and the exponent of a float: a full mantissa has 53 digits, and with the least
    exponent it may have fewer. -/
structure Stored (m : Nat) (e : Int) : Prop where
  pos : 0 < m
  lt : m < 2 ^ 53
  least : -1074 ≤ e
  greatest : e ≤ 971
  full : 2 ^ 52 ≤ m ∨ e = -1074

variable {m : Nat} {e : Int} {s : Sign} {b : BitVec 52} {c : BitVec 11}

/-! ## Words -/

/-- A word from its sign, its exponent and its mantissa. -/
abbrev word (s : Sign) (c : BitVec 11) (b : BitVec 52) : BitVec 64 :=
  packComponents Format.binary64 s c b

theorem exists_word (w : BitVec 64) : ∃ s c b, w = word s c b :=
  ⟨_, _, _, (@packComponents_unpackSign_unpackExponent_unpackMantissa Format.binary64 w).symm⟩

/-- The number that the digits behind the first one spell, with the first one in front. -/
theorem toNat_one_append (b : BitVec 52) : (1#1 ++ b).toNat = 2 ^ 52 + b.toNat := by
  rw [BitVec.toNat_append, ← Nat.shiftLeft_add_eq_or_of_lt b.isLt, Nat.shiftLeft_eq]
  rfl

theorem unpack_infinity (s : Sign) :
    UnpackedFloat.unpack Format.binary64 (word s (-1#11) 0#52) = .infinity s := by
  cases s <;> rfl

theorem unpack_notANumber (hb : b ≠ 0#52) :
    UnpackedFloat.unpack Format.binary64 (word s (-1#11) b) = .notANumber := by
  unfold UnpackedFloat.unpack
  dsimp only
  simp only [unpackExponent_packComponents, unpackMantissa_packComponents]
  rw [if_pos trivial, if_neg hb]

theorem unpack_zero (s : Sign) :
    UnpackedFloat.unpack Format.binary64 (word s 0#11 0#52) = .zero s := by
  cases s <;> rfl

theorem unpack_small (hb : b ≠ 0#52) (hpos : 0 < b.toNat) :
    UnpackedFloat.unpack Format.binary64 (word s 0#11 b) = .finite s b.toNat (-1074) hpos := by
  unfold UnpackedFloat.unpack
  dsimp only
  simp only [unpackExponent_packComponents, unpackMantissa_packComponents,
    unpackSign_packComponents, Sign.ofBitVec_toBitVec]
  rw [if_neg (by decide), if_pos trivial, dif_neg hb]
  rfl

theorem unpack_full (hzero : c ≠ 0#11) (hones : c ≠ -1#11) (hpos : 0 < 2 ^ 52 + b.toNat) :
    UnpackedFloat.unpack Format.binary64 (word s c b) =
      .finite s (2 ^ 52 + b.toNat) (c.toNat - 1075) hpos := by
  unfold UnpackedFloat.unpack
  dsimp only
  simp only [unpackExponent_packComponents, unpackMantissa_packComponents,
    unpackSign_packComponents, Sign.ofBitVec_toBitVec, toNat_one_append]
  rw [if_neg hones, if_neg hzero]
  rfl

/-! ## Packing -/

theorem biased_eq (e : Int) :
    (e + Format.binary64.exponentBias + Format.binary64.mantissaBitsWithoutImplicit).toNat =
      (e + 1075).toNat := by
  show (e + (1023 : Nat) + (52 : Nat)).toNat = _
  congr 1
  omega

/-- A full mantissa is packed without its first digit. -/
theorem pack_full {hm : 0 < m} (h : Stored m e) (hfull : 2 ^ 52 ≤ m) :
    UnpackedFloat.pack Format.binary64 (.finite s m e hm) =
      word s (BitVec.ofNat 11 (e + 1075).toNat) (BitVec.ofNat 52 m) := by
  have hlog : m.log2 = 52 := (Nat.log2_eq_iff hm.ne').2 ⟨hfull, h.lt⟩
  have hgreatest := h.greatest
  unfold UnpackedFloat.pack
  dsimp only
  rw [biased_eq, if_neg, if_pos (by rw [hlog]; rfl)]
  show ¬ 2 ^ 11 ≤ (e + 1075).toNat + 1
  omega

theorem pack_small {hm : 0 < m} (hlt : m < 2 ^ 52) :
    UnpackedFloat.pack Format.binary64 (.finite s m (-1074) hm) =
      word s 0#11 (BitVec.ofNat 52 m) := by
  have hlog : m.log2 < 52 := (Nat.log2_lt hm.ne').2 hlt
  unfold UnpackedFloat.pack
  dsimp only
  rw [biased_eq, if_neg (by decide), if_neg]
  show ¬ m.log2 + 1 = 53
  omega

theorem toNat_ne_zero {n : Nat} {b : BitVec n} (h : b ≠ 0#n) : 0 < b.toNat :=
  Nat.pos_of_ne_zero fun h0 => h (BitVec.eq_of_toNat_eq (h0.trans BitVec.toNat_zero.symm))

theorem toNat_ne_ones {c : BitVec 11} (h : c ≠ -1#11) : c.toNat ≠ 2047 :=
  fun h1 => h (BitVec.eq_of_toNat_eq h1)

/-- A float is packed from what it is unpacked to. -/
theorem pack_unpack (x : Float.Model) : Float.Model.pack x.unpack = x := by
  have hbits : UnpackedFloat.pack Format.binary64 (UnpackedFloat.unpack Format.binary64
      x.toBits.toBitVec) = x.toBits.toBitVec := pack_unpack_of_valid x.valid
  obtain ⟨bits, valid⟩ := x
  have hword : (Float.Model.pack (Float.Model.unpack ⟨bits, valid⟩)).toBits = bits :=
    UInt64.toBitVec_inj.1 hbits
  generalize Float.Model.pack _ = y at hword
  obtain ⟨bits', valid'⟩ := y
  subst hword
  rfl

theorem finite_eq {m' : Nat} {e' : Int} {hm : 0 < m} {hm' : 0 < m'} (h : m = m') (h' : e = e') :
    UnpackedFloat.finite s m e hm = .finite s m' e' hm' := by
  subst h h'
  rfl

/-- A mantissa and an exponent that can be stored are those of the packed float. -/
theorem unpack_pack {hm : 0 < m} (h : Stored m e) :
    (Float.Model.pack (.finite s m e hm)).unpack = .finite s m e hm := by
  have hlt := h.lt
  have hleast := h.least
  have hgreatest := h.greatest
  show UnpackedFloat.unpack Format.binary64 (UnpackedFloat.pack Format.binary64 _) = _
  by_cases hfull : 2 ^ 52 ≤ m
  · have hexponent : (BitVec.ofNat 11 (e + 1075).toNat).toNat = (e + 1075).toNat :=
      Nat.mod_eq_of_lt (by omega)
    have hmantissa : 2 ^ 52 + (BitVec.ofNat 52 m).toNat = m := by
      rw [BitVec.toNat_ofNat]
      omega
    have hzero : BitVec.ofNat 11 (e + 1075).toNat ≠ 0#11 := by
      intro h0
      rw [h0] at hexponent
      have : (0#11).toNat = 0 := rfl
      omega
    have hones : BitVec.ofNat 11 (e + 1075).toNat ≠ -1#11 := by
      intro h1
      rw [h1] at hexponent
      have : (-1#11).toNat = 2047 := rfl
      omega
    rw [pack_full h hfull, unpack_full hzero hones (by omega)]
    exact finite_eq hmantissa (by omega)
  · have he := h.full.resolve_left hfull
    subst he
    have hmantissa : (BitVec.ofNat 52 m).toNat = m := Nat.mod_eq_of_lt (by omega)
    have hne : BitVec.ofNat 52 m ≠ 0#52 := by
      intro h0
      rw [h0] at hmantissa
      have : (0#52).toNat = 0 := rfl
      omega
    rw [pack_small (by omega), unpack_small hne (by omega)]
    exact finite_eq hmantissa rfl

/-- The mantissa and the exponent of a float that is finite and not zero can be stored. -/
theorem stored_of_unpack {x : Float.Model} {hm : 0 < m} (h : x.unpack = .finite s m e hm) :
    Stored m e := by
  obtain ⟨s, c, b, hword⟩ := exists_word x.toBits.toBitVec
  unfold Float.Model.unpack at h
  rw [hword] at h
  have hb := b.isLt
  have hlt := c.isLt
  by_cases hones : c = -1#11
  · subst hones
    by_cases hb : b = 0#52
    · subst hb
      rw [unpack_infinity] at h
      cases h
    · rw [unpack_notANumber hb] at h
      cases h
  · by_cases hzero : c = 0#11
    · subst hzero
      by_cases hb : b = 0#52
      · subst hb
        rw [unpack_zero] at h
        cases h
      · rw [unpack_small hb (toNat_ne_zero hb)] at h
        obtain ⟨-, rfl, rfl⟩ := UnpackedFloat.finite.inj h
        exact ⟨hm, by omega, by omega, by omega, .inr rfl⟩
    · have hc := toNat_ne_zero hzero
      have hc' := toNat_ne_ones hones
      rw [unpack_full hzero hones (by omega)] at h
      obtain ⟨-, rfl, rfl⟩ := UnpackedFloat.finite.inj h
      exact ⟨hm, by omega, by omega, by omega, .inl (by omega)⟩

/-! ## Signs -/

theorem unpack_neg {x : Float} {hm : 0 < m} (h : x.toModel.unpack = .finite .negative m e hm) :
    (-x).toModel.unpack = .finite .positive m e hm := by
  show (Float.Model.pack x.toModel.unpack.neg).unpack = _
  rw [h]
  exact unpack_pack (stored_of_unpack h)

theorem neg_neg_float {x : Float} {hm : 0 < m} (h : x.toModel.unpack = .finite .negative m e hm) :
    - -x = x := by
  show Float.ofModel (Float.Model.pack (-x).toModel.unpack.neg) = x
  rw [unpack_neg h]
  show Float.ofModel (Float.Model.pack (.finite .negative m e hm)) = x
  rw [← h, pack_unpack]

end Naskah.Binary
