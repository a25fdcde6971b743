import Naskah.Proofs.Number.Overflow
import Naskah.Proofs.Number.Writing
import Naskah.Value.Operator

/-
  Values from their printed forms. The printed form of a finite number has no blanks and is a numeral
  that stands for the number (`Value.exists_display`), so as an input entry it is this number again. An
  entry is a number iff, without blanks and sign, it is a decimal that does not overflow
  (`Value.ofInput_eq_text_iff`); otherwise it is the text itself, which is printed as it is.
-/

namespace Naskah

open Float.Model Float.Model.UnpackedFloat

/-! ## Blanks -/

namespace Text

theorem dropWhile_isBlank_eq_self {cs : List Char} (h : ∀ c ∈ cs, isBlank c = false) :
    cs.dropWhile isBlank = cs :=
  List.dropWhile_eq_self_iff.2 fun hl => by
    rw [h _ (List.getElem_mem hl)]
    decide

theorem trimBlanks_eq_self {cs : List Char} (h : ∀ c ∈ cs, isBlank c = false) :
    trimBlanks cs = cs := by
  have hreverse : ∀ c ∈ cs.reverse, isBlank c = false := fun c hc => h c (List.mem_reverse.1 hc)
  rw [trimBlanks, dropWhile_isBlank_eq_self h, dropWhile_isBlank_eq_self hreverse,
    List.reverse_reverse]

theorem isBlank_of_isDigit {c : Char} (h : c.isDigit = true) : isBlank c = false := by
  have hrange : 48 ≤ c.toNat ∧ c.toNat ≤ 57 := Char.isDigit_iff_toNat.1 h
  simp [isBlank, blankRanges]
  omega

end Text

namespace Layout

theorem isBlank_exponentChars (e : Int) : ∀ c ∈ exponentChars e, Text.isBlank c = false := by
  cases e with
  | ofNat n | negSucc n =>
    intro c hc
    rcases List.mem_cons.1 hc with rfl | hc
    · rfl
    · exact Text.isBlank_of_isDigit (Numeral.isDigit_toDigits _ c hc)

end Layout

namespace Numeral

namespace Writing

/-- A numeral has no blanks. -/
theorem isBlank_chars (w : Writing) : ∀ c ∈ w.chars, Text.isBlank c = false := by
  intro c hc
  rcases List.mem_append.1 hc with hc | hc
  · exact Text.isBlank_of_isDigit (w.isDigit_whole c hc)
  rcases List.mem_append.1 hc with hc | hc
  · unfold fractionChars at hc
    split at hc
    · cases hc
    · rcases List.mem_cons.1 hc with rfl | hc
      · rfl
      · exact Text.isBlank_of_isDigit (w.isDigit_fraction c hc)
  · unfold exponentChars at hc
    cases he : w.exponent with
    | none =>
      rw [he] at hc
      cases hc
    | some e =>
      rw [he] at hc
      rcases List.mem_cons.1 hc with rfl | hc
      · rfl
      · exact Layout.isBlank_exponentChars e c hc

theorem trimBlanks_signed (w : Writing) (negative : Bool) :
    Text.trimBlanks (w.signed negative) = w.signed negative := by
  refine Text.trimBlanks_eq_self ?_
  cases negative with
  | false => exact w.isBlank_chars
  | true => exact List.forall_mem_cons.2 ⟨rfl, w.isBlank_chars⟩

end Writing

end Numeral

/-! ## Printed numbers -/

open Numeral (Writing)

theorem eq_neg_zero_iff {x : Float} : x = -0.0 ↔ x.toModel.unpack = .zero .negative := by
  constructor
  · rintro rfl
    rfl
  · intro hx
    have hmodel : Float.ofModel (Float.Model.pack x.toModel.unpack) = x := by
      rw [Binary.pack_unpack]
    rw [← hmodel, hx]
    rfl

namespace Value

/-- A finite number is printed as a numeral that stands for it, without the sign of zero. -/
theorem exists_display {x : Float} (hx : x.isFinite) :
    ∃ (w : Writing) (negative : Bool), (number x).display.toList = w.signed negative ∧
      w.float negative = if x = -0.0 then 0.0 else x := by
  rcases Binary.finite_cases hx with ⟨s, hzero⟩ | ⟨s, m, e, hm, hunpack⟩
  · refine ⟨.zeros 0, false, ?_, (Writing.toFloat_zeros 0).trans ?_⟩
    · show (numberLayout.render x).toList = (Writing.zeros 0).signed false
      unfold Layout.render
      rw [hzero]
      cases s <;> exact (rfl : "0".toList = _)
    · cases s with
      | negative => rw [if_pos (eq_neg_zero_iff.2 hzero)]
      | positive =>
        have hne : x ≠ -0.0 := by
          rw [ne_eq, eq_neg_zero_iff, hzero]
          exact nofun
        have hmodel : Float.ofModel (Float.Model.pack x.toModel.unpack) = x := by
          rw [Binary.pack_unpack]
        rw [if_neg hne, ← hmodel, hzero]
        rfl
  · have hne : x ≠ -0.0 := by
      rw [ne_eq, eq_neg_zero_iff, hunpack]
      exact nofun
    rw [if_neg hne]
    exact Layout.exists_render numberLayout hunpack

theorem ofInput_display_number {x : Float} (hx : x.isFinite) :
    ofInput (number x).display = number (if x = -0.0 then 0.0 else x) := by
  obtain ⟨w, negative, hchars, hfloat⟩ := exists_display hx
  unfold ofInput
  rw [hchars, w.trimBlanks_signed, w.read?_signed, hfloat]
  refine if_pos ?_
  split
  · rfl
  · exact hx

end Value

/-! ## Input entries -/

theorem isFinite_neg (x : Float) : (-x).isFinite = x.isFinite := by
  have hneg : (-x).toModel = Float.Model.pack x.toModel.unpack.neg := rfl
  show (-x).toModel.unpack.isFinite = x.toModel.unpack.isFinite
  rw [hneg]
  cases hx : x.toModel.unpack with
  | notANumber => rfl
  | infinity s | zero s => cases s <;> rfl
  | finite s m e hm =>
    have hunpack : (Float.Model.pack (.finite (-s) m e hm)).unpack = .finite (-s) m e hm :=
      Binary.unpack_pack (Binary.stored_of_unpack hx)
    show (Float.Model.pack (.finite (-s) m e hm)).unpack.isFinite = _
    rw [hunpack]
    rfl

namespace Numeral

theorem decimal?_eq_none {c : Char} (hdigit : c.isDigit = false) (hpoint : c ≠ '.')
    (cs : List Char) : decimal? (c :: cs) = none := by
  have hspan : (c :: cs).span Char.isDigit = ([], c :: cs) :=
    span_digits (List.forall_mem_nil _) (noDigit_cons hdigit cs)
  have hfraction : splitFraction (c :: cs) = ([], c :: cs) := by
    unfold splitFraction
    split
    · next heq => exact absurd (List.cons.inj heq).1 hpoint
    · rfl
  simp only [decimal?, hspan, hfraction]
  rfl

/-- What begins with a letter, in any case, is no decimal. -/
theorem decimal?_eq_none_of_word {cs ds : List Char} {d : Char}
    (h : String.ofList (cs.map Char.toLower) = String.ofList (d :: ds)) (hdigit : d.isDigit = false)
    (hpoint : d ≠ '.') : decimal? cs = none := by
  cases cs with
  | nil => cases String.ofList_injective h
  | cons c cs =>
    have hlower : c.toLower = d := (List.cons.inj (String.ofList_injective h)).1
    refine decimal?_eq_none ?_ ?_ cs
    · rw [← Bool.not_eq_true]
      intro hc
      rw [toLower_of_isNumberChar (isNumberChar_of_digit hc)] at hlower
      rw [← hlower, hc] at hdigit
      cases hdigit
    · rintro rfl
      exact hpoint hlower.symm

/-- The names of floats are no decimals, and the floats that they name are not finite. -/
theorem named?_eq_some {cs : List Char} {x : Float} (h : named? cs = some x) :
    decimal? cs = none ∧ x.isFinite = false := by
  unfold named? at h
  dsimp only at h
  split at h
  · next hword =>
    obtain rfl := Option.some.inj h
    refine ⟨?_, rfl⟩
    rcases hword with hword | hword
    · exact decimal?_eq_none_of_word (d := 'i') hword rfl (by decide)
    · exact decimal?_eq_none_of_word (d := 'i') hword rfl (by decide)
  · split at h
    · next hword =>
      obtain rfl := Option.some.inj h
      exact ⟨decimal?_eq_none_of_word (d := 'n') hword rfl (by decide), rfl⟩
    · cases h

/-- A text is read as a finite float iff it is, without its sign, a decimal that does not overflow. -/
theorem read?_isFinite_iff (cs : List Char) :
    (∃ x, read? cs = some x ∧ x.isFinite = true) ↔
      ∃ d, decimal? (splitSign cs).2 = some d ∧ d.value < Binary.overflow := by
  have hsign (x : Float) : (if (splitSign cs).1 then -x else x).isFinite = x.isFinite := by
    split
    · exact isFinite_neg x
    · rfl
  have hread : read? cs = ((named? (splitSign cs).2).or
      ((decimal? (splitSign cs).2).map Decimal.toFloat)).map
        fun x => if (splitSign cs).1 then -x else x := rfl
  rw [hread]
  cases hname : named? (splitSign cs).2 with
  | some y =>
    obtain ⟨hdecimal, hy⟩ := named?_eq_some hname
    rw [hdecimal]
    constructor
    · rintro ⟨x, hx, hfinite⟩
      rw [← Option.some.inj hx, hsign, hy] at hfinite
      cases hfinite
    · rintro ⟨d, hd, -⟩
      cases hd
  | none =>
    cases decimal? (splitSign cs).2 with
    | none => exact ⟨nofun, nofun⟩
    | some d =>
      constructor
      · rintro ⟨x, hx, hfinite⟩
        rw [← Option.some.inj hx, hsign, d.isFinite_toFloat_iff] at hfinite
        exact ⟨d, rfl, hfinite⟩
      · rintro ⟨d, hd, hlt⟩
        cases hd
        exact ⟨_, rfl, by rw [hsign, d.isFinite_toFloat_iff]; exact hlt⟩

end Numeral

namespace Value

/-- What an entry is without the blanks at its ends and without a sign. -/
def unsigned (entry : String) : List Char :=
  (Numeral.splitSign (Text.trimBlanks entry.toList)).2

/-- An entry is a finite number or kept as it is. -/
theorem ofInput_cases (entry : String) :
    (∃ x : Float, x.isFinite = true ∧ ofInput entry = number x ∧
        Numeral.read? (Text.trimBlanks entry.toList) = some x) ∨
      ofInput entry = text entry ∧
        ¬ ∃ x, Numeral.read? (Text.trimBlanks entry.toList) = some x ∧ x.isFinite = true := by
  unfold ofInput
  cases hread : Numeral.read? (Text.trimBlanks entry.toList) with
  | none => exact .inr ⟨rfl, nofun⟩
  | some x =>
    by_cases hx : x.isFinite = true
    · exact .inl ⟨x, hx, if_pos hx, rfl⟩
    · refine .inr ⟨if_neg hx, ?_⟩
      rintro ⟨y, hy, hfinite⟩
      cases hy
      exact hx hfinite

theorem ofInput_eq_text_iff (entry : String) :
    ofInput entry = text entry ↔
      ∀ d, Numeral.decimal? (unsigned entry) = some d → Binary.overflow ≤ d.value := by
  have hfinite := Numeral.read?_isFinite_iff (Text.trimBlanks entry.toList)
  rcases ofInput_cases entry with ⟨x, hx, hentry, hread⟩ | ⟨hentry, hnone⟩
  · obtain ⟨d, hd, hlt⟩ := hfinite.1 ⟨x, hread, hx⟩
    rw [hentry]
    exact ⟨nofun, fun h => absurd hlt (h d hd).not_gt⟩
  · refine ⟨fun _ d hd => not_lt.1 fun hlt => hnone (hfinite.2 ⟨d, hd, hlt⟩), fun _ => hentry⟩

/-- An entry that is one of the names of floats, in any case, is kept as it is. -/
theorem ofInput_of_name {entry : String}
    (h : String.ofList ((unsigned entry).map Char.toLower) ∈ ["inf", "infinity", "nan"]) :
    ofInput entry = text entry := by
  have hdecimal : Numeral.decimal? (unsigned entry) = none := by
    simp only [List.mem_cons, List.not_mem_nil, or_false] at h
    rcases h with h | h | h
    · exact Numeral.decimal?_eq_none_of_word (d := 'i') h rfl (by decide)
    · exact Numeral.decimal?_eq_none_of_word (d := 'i') h rfl (by decide)
    · exact Numeral.decimal?_eq_none_of_word (d := 'n') h rfl (by decide)
  rw [ofInput_eq_text_iff, hdecimal]
  exact nofun

/-- The value of an entry is that of its printed form. -/
theorem same_ofInput_display (entry : String) :
    (ofInput (ofInput entry).display).same (ofInput entry) = true := by
  rcases ofInput_cases entry with ⟨x, hx, hentry, -⟩ | ⟨hentry, -⟩
  · rw [hentry, ofInput_display_number hx]
    show ((if x = -0.0 then 0.0 else x) == x) = true
    split
    · next hzero =>
      rw [hzero]
      rfl
    · exact (Binary.beq_iff hx hx).2 rfl
  · have hdisplay : (text entry).display = entry := rfl
    rw [hentry, hdisplay, hentry]
    exact beq_self_eq_true entry

/-- What is printed can be read back. The printed form of a finite number is as an entry this number, but
    for the sign of zero; that of an entry's value is as an entry the same value. An entry is kept as a
    text, as it is, iff without blanks and sign it is no decimal or one that overflows; the names of
    floats are kept. -/
theorem display_reads_back :
    (∀ x : Float, x.isFinite = true →
        ofInput (number x).display = number (if x = -0.0 then 0.0 else x)) ∧
      ∀ entry : String, (ofInput (ofInput entry).display).same (ofInput entry) = true ∧
        (∀ s, ofInput entry = text s → s = entry) ∧
        (ofInput entry = text entry ↔
          ∀ d, Numeral.decimal? (unsigned entry) = some d → 2 ^ 1024 - 2 ^ 970 ≤ d.value) ∧
        (String.ofList ((unsigned entry).map Char.toLower) ∈ ["inf", "infinity", "nan"] →
          ofInput entry = text entry) := by
  refine ⟨fun x => ofInput_display_number, fun entry => ⟨same_ofInput_display entry, fun s hs => ?_,
    ofInput_eq_text_iff entry, ofInput_of_name⟩⟩
  rcases ofInput_cases entry with ⟨x, -, hentry, -⟩ | ⟨hentry, -⟩
  · rw [hentry] at hs
    cases hs
  · rw [hentry] at hs
    exact (text.inj hs).symm

/-- A zero comes back without its sign, a number in the plain form and one in the form with an exponent
    as they are. An entry is read without the blanks around it, and the name of an infinity and a
    decimal that overflows are kept with them. -/
theorem display_reads_back_forms :
    ((number (-0.0)).display = "0" ∧ ofInput (number (-0.0)).display = number 0.0) ∧
      ((number 2.5).display = "2.5" ∧ ofInput (number 2.5).display = number 2.5) ∧
      ((number 1.5e-7).display = "1.5e-7" ∧ ofInput (number 1.5e-7).display = number 1.5e-7) ∧
      (ofInput " +2.50\t" = number 2.5 ∧
        (ofInput (ofInput " +2.50\t").display).same (ofInput " +2.50\t") = true) ∧
      ofInput " -Infinity " = text " -Infinity " ∧ ofInput " 1e999" = text " 1e999" := by
  have hzero := display_reads_back.1 (-0.0) rfl
  have hplain := display_reads_back.1 2.5 rfl
  have hexponent := display_reads_back.1 1.5e-7 rfl
  rw [if_pos rfl] at hzero
  rw [if_neg (by decide +kernel)] at hplain hexponent
  have hdecimal : Numeral.decimal? (unsigned " 1e999") = some ⟨1, 999⟩ := by decide +kernel
  have hlimit : 2 ^ 1024 ≤ 10 ^ 999 := by decide +kernel
  refine ⟨⟨by decide +kernel, hzero⟩, ⟨by decide +kernel, hplain⟩, ⟨by decide +kernel, hexponent⟩,
    ⟨by decide +kernel, (display_reads_back.2 " +2.50\t").1⟩,
    (display_reads_back.2 " -Infinity ").2.2.2 (by decide),
    (display_reads_back.2 " 1e999").2.2.1.2 fun d hd => ?_⟩
  rw [hdecimal] at hd
  rw [← Option.some.inj hd]
  calc (2 : ℚ) ^ 1024 - 2 ^ 970
    _ ≤ 2 ^ 1024 := sub_le_self _ (by positivity)
    _ ≤ 10 ^ 999 := by exact_mod_cast hlimit
    _ = Decimal.value ⟨1, 999⟩ := by simp [Decimal.value]

end Value

end Naskah
