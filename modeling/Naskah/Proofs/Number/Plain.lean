import Mathlib.Data.List.TakeDrop
import Mathlib.Data.List.TakeWhile
import Naskah.Number.Numeral
import Naskah.Proofs.Token.Lexeme

/-
  Plain numerals: digits with at most one point and at least one digit. Of the texts that a number
  token can have these are the ones that are read as a number (`read?_eq_some_iff`).
-/

namespace Naskah.Numeral

/-- A text of digits, at least one, with at most one point. -/
structure IsPlain (cs : List Char) : Prop where
  chars : ∀ c ∈ cs, Scan.isNumberChar c = true
  digit : ∃ c ∈ cs, c.isDigit = true
  point : cs.count '.' ≤ 1

/-- The float nearest to a plain numeral: all its digits as one number, divided by ten for each
    digit behind the point. -/
def plain (cs : List Char) : Float :=
  (Decimal.reduced (Decimal.natOfDigits (cs.filter (· != '.')))
    (-((cs.dropWhile (· != '.')).tail.length : Int))).toFloat

theorem isNumberChar_cases {c : Char} (h : Scan.isNumberChar c = true) :
    c.isDigit = true ∨ c = '.' := by
  simpa [Scan.isNumberChar] using h

theorem toLower_of_isNumberChar {c : Char} (h : Scan.isNumberChar c = true) : c.toLower = c := by
  rcases isNumberChar_cases h with h | rfl
  · simp only [Char.isDigit, Bool.and_eq_true, decide_eq_true_eq] at h
    have hn : ¬ (c.val ≥ 'A'.val ∧ c.val ≤ 'Z'.val) := by
      rintro ⟨hA, -⟩
      have h9 : c.val ≤ 57 := h.2
      have hA' : (65 : UInt32) ≤ c.val := hA
      exact absurd (UInt32.le_trans hA' h9) (by decide)
    exact dif_neg hn
  · rfl

/-- The names of floats have letters, which no number token has. -/
theorem named?_eq_none {cs : List Char} (h : ∀ c ∈ cs, Scan.isNumberChar c = true) :
    named? cs = none := by
  have hmap : cs.map Char.toLower = cs :=
    (List.map_congr_left fun c hc => toLower_of_isNumberChar (h c hc)).trans (List.map_id' cs)
  have hne (w : String) (c : Char) (hc : c ∈ w.toList) (hn : Scan.isNumberChar c = false) :
      String.ofList cs ≠ w := by
    rintro rfl
    rw [String.toList_ofList] at hc
    rw [h c hc] at hn
    cases hn
  simp only [named?, hmap]
  rw [if_neg, if_neg]
  · exact hne "nan" 'n' (by decide) rfl
  · rintro (he | he)
    · exact hne "inf" 'i' (by decide) rfl he
    · exact hne "infinity" 'i' (by decide) rfl he

/-- A number token has no sign. -/
theorem read?_eq_decimal? {cs : List Char} (h : ∀ c ∈ cs, Scan.isNumberChar c = true) :
    read? cs = (decimal? cs).map Decimal.toFloat := by
  have hsign : splitSign cs = (false, cs) := by
    unfold splitSign
    split
    · exact absurd (h '-' List.mem_cons_self) (by decide)
    · exact absurd (h '+' List.mem_cons_self) (by decide)
    · rfl
  simp only [read?, hsign, named?_eq_none h]
  cases decimal? cs <;> rfl

theorem exponent?_point (cs : List Char) : exponent? ('.' :: cs) = none := rfl

theorem span_isDigit {whole : List Char} (hw : ∀ c ∈ whole, c.isDigit = true) :
    whole.span Char.isDigit = (whole, []) := by
  rw [List.span_eq_takeWhile_dropWhile, List.takeWhile_eq_self_iff.2 hw,
    List.dropWhile_eq_nil_iff.2 hw]

theorem span_isDigit_point {whole : List Char} (rest : List Char)
    (hw : ∀ c ∈ whole, c.isDigit = true) :
    (whole ++ '.' :: rest).span Char.isDigit = (whole, '.' :: rest) := by
  rw [List.span_eq_takeWhile_dropWhile, List.takeWhile_append_of_pos hw,
    List.dropWhile_append_of_pos hw]
  simp [show '.'.isDigit = false from rfl]

theorem decimal?_digits {whole : List Char} (hw : ∀ c ∈ whole, c.isDigit = true) :
    decimal? whole =
      if whole = [] then none else some (.reduced (Decimal.natOfDigits whole) 0) := by
  simp only [decimal?, span_isDigit hw]
  by_cases h : whole = [] <;> simp [h, splitFraction, exponent?]

theorem decimal?_point {whole fraction : List Char} (hw : ∀ c ∈ whole, c.isDigit = true)
    (hf : ∀ c ∈ fraction, c.isDigit = true) :
    decimal? (whole ++ '.' :: fraction) =
      if whole = [] ∧ fraction = [] then none
      else some (.reduced (Decimal.natOfDigits (whole ++ fraction)) (-(fraction.length : Int))) := by
  simp only [decimal?, span_isDigit_point fraction hw, splitFraction, span_isDigit hf]
  by_cases h : whole = [] ∧ fraction = []
  · simp [h]
  · have h' : ¬ (whole.isEmpty && fraction.isEmpty) = true := by simpa using h
    rw [if_neg h', if_neg h]
    simp [exponent?]

theorem decimal?_two_points {whole fraction rest : List Char} (hw : ∀ c ∈ whole, c.isDigit = true)
    (hf : ∀ c ∈ fraction, c.isDigit = true) :
    decimal? (whole ++ '.' :: (fraction ++ '.' :: rest)) = none := by
  simp only [decimal?, span_isDigit_point (fraction ++ '.' :: rest) hw, splitFraction,
    span_isDigit_point rest hf, exponent?_point]
  simp

/-- Digits before and behind the points of a number token, up to the second point. -/
theorem exists_points {cs : List Char} (h : ∀ c ∈ cs, Scan.isNumberChar c = true) :
    ∃ whole rest, cs = whole ++ rest ∧ (∀ c ∈ whole, c.isDigit = true) ∧
      (rest = [] ∨ ∃ more, rest = '.' :: more) := by
  refine ⟨cs.takeWhile Char.isDigit, cs.dropWhile Char.isDigit,
    List.takeWhile_append_dropWhile.symm, Scan.forall_mem_takeWhile, ?_⟩
  match hr : cs.dropWhile Char.isDigit with
  | [] => exact .inl rfl
  | c :: more =>
    have hc : c.isDigit = false := Scan.forall_head?_dropWhile c (by rw [hr]; rfl)
    have hm : c ∈ cs := (List.dropWhile_sublist _).subset (hr ▸ List.mem_cons_self)
    rcases isNumberChar_cases (h c hm) with hd | rfl
    · rw [hc] at hd
      cases hd
    · exact .inr ⟨more, rfl⟩

theorem not_mem_of_digits {cs : List Char} (h : ∀ c ∈ cs, c.isDigit = true) : '.' ∉ cs :=
  fun hm => absurd (h '.' hm) (by decide)

theorem filter_of_digits {cs : List Char} (h : ∀ c ∈ cs, c.isDigit = true) :
    cs.filter (· != '.') = cs := by
  rw [List.filter_eq_self]
  intro c hc
  rw [bne_iff_ne]
  rintro rfl
  exact not_mem_of_digits h hc

theorem dropWhile_of_digits {cs : List Char} (rest : List Char) (h : ∀ c ∈ cs, c.isDigit = true) :
    (cs ++ rest).dropWhile (· != '.') = rest.dropWhile (· != '.') := by
  refine List.dropWhile_append_of_pos fun c hc => ?_
  rw [bne_iff_ne]
  rintro rfl
  exact not_mem_of_digits h hc

theorem plain_point {whole fraction : List Char} (hw : ∀ c ∈ whole, c.isDigit = true)
    (hf : ∀ c ∈ fraction, c.isDigit = true) :
    plain (whole ++ '.' :: fraction) =
      (Decimal.reduced (Decimal.natOfDigits (whole ++ fraction))
        (-(fraction.length : Int))).toFloat := by
  rw [plain, List.filter_append, filter_of_digits hw, List.filter_cons_of_neg (by simp),
    filter_of_digits hf, dropWhile_of_digits _ hw]
  rfl

theorem plain_digits {whole : List Char} (hw : ∀ c ∈ whole, c.isDigit = true) :
    plain whole = (Decimal.reduced (Decimal.natOfDigits whole) 0).toFloat := by
  have hdrop := dropWhile_of_digits [] hw
  rw [List.append_nil] at hdrop
  rw [plain, filter_of_digits hw, hdrop]
  rfl

/-! ## Plain numerals by their points -/

theorem isNumberChar_of_digit {c : Char} (h : c.isDigit = true) : Scan.isNumberChar c = true := by
  rw [Scan.isNumberChar, h, Bool.true_or]

theorem exists_digit {cs : List Char} (h : ∀ c ∈ cs, c.isDigit = true) (hne : cs ≠ []) :
    ∃ c ∈ cs, c.isDigit = true := by
  obtain ⟨c, ds, rfl⟩ := List.exists_cons_of_ne_nil hne
  exact ⟨c, List.mem_cons_self, h c List.mem_cons_self⟩

theorem isPlain_digits_iff {whole : List Char} (hw : ∀ c ∈ whole, c.isDigit = true) :
    IsPlain whole ↔ whole ≠ [] := by
  constructor
  · rintro h rfl
    obtain ⟨c, hc, -⟩ := h.digit
    exact absurd hc List.not_mem_nil
  · intro hne
    refine ⟨fun c hc => isNumberChar_of_digit (hw c hc), exists_digit hw hne, ?_⟩
    rw [List.count_eq_zero.2 (not_mem_of_digits hw)]
    exact Nat.zero_le 1

theorem isPlain_point_iff {whole fraction : List Char} (hw : ∀ c ∈ whole, c.isDigit = true)
    (hf : ∀ c ∈ fraction, c.isDigit = true) :
    IsPlain (whole ++ '.' :: fraction) ↔ ¬ (whole = [] ∧ fraction = []) := by
  constructor
  · rintro h ⟨rfl, rfl⟩
    obtain ⟨c, hc, hd⟩ := h.digit
    rw [List.mem_singleton.1 hc] at hd
    exact absurd hd (by decide)
  · intro hne
    refine ⟨fun c hc => ?_, ?_, ?_⟩
    · rcases List.mem_append.1 hc with hc | hc
      · exact isNumberChar_of_digit (hw c hc)
      · rcases List.mem_cons.1 hc with rfl | hc
        · rfl
        · exact isNumberChar_of_digit (hf c hc)
    · by_cases he : whole = []
      · obtain ⟨c, hc, hd⟩ := exists_digit hf fun hf => hne ⟨he, hf⟩
        exact ⟨c, List.mem_append_right _ (List.mem_cons_of_mem _ hc), hd⟩
      · obtain ⟨c, hc, hd⟩ := exists_digit hw he
        exact ⟨c, List.mem_append_left _ hc, hd⟩
    · rw [List.count_append, List.count_cons_self, List.count_eq_zero.2 (not_mem_of_digits hw),
        List.count_eq_zero.2 (not_mem_of_digits hf)]

theorem not_isPlain_two_points (whole fraction rest : List Char) :
    ¬ IsPlain (whole ++ '.' :: (fraction ++ '.' :: rest)) := by
  intro h
  have hpoint := h.point
  rw [List.count_append, List.count_cons_self, List.count_append, List.count_cons_self] at hpoint
  omega

/-- A number token is read as a number iff it is plain. -/
theorem read?_eq_some_iff {cs : List Char} (h : ∀ c ∈ cs, Scan.isNumberChar c = true) (x : Float) :
    read? cs = some x ↔ IsPlain cs ∧ x = plain cs := by
  rw [read?_eq_decimal? h]
  obtain ⟨whole, rest, rfl, hw, rfl | ⟨more, rfl⟩⟩ := exists_points h
  · rw [List.append_nil, decimal?_digits hw, plain_digits hw, isPlain_digits_iff hw]
    by_cases he : whole = []
    · simp [he]
    · simp [he, eq_comm]
  · have hmore : ∀ c ∈ more, Scan.isNumberChar c = true :=
      fun c hc => h c (List.mem_append_right _ (List.mem_cons_of_mem _ hc))
    obtain ⟨fraction, rest, rfl, hf, rfl | ⟨rest, rfl⟩⟩ := exists_points hmore
    · rw [List.append_nil, decimal?_point hw hf, plain_point hw hf, isPlain_point_iff hw hf]
      by_cases he : whole = [] ∧ fraction = []
      · simp [he]
      · rw [if_neg he, Option.map_some, Option.some.injEq, eq_comm, and_iff_right he]
    · rw [decimal?_two_points hw hf, Option.map_none]
      constructor
      · intro hx
        cases hx
      · intro hx
        exact absurd hx.1 (not_isPlain_two_points whole fraction rest)

end Naskah.Numeral
