import Naskah.Json.Read
import Naskah.Proofs.Number.Writing

/-
  Numerals in JSON. A sign, a whole part, a fraction and an exponent, of which only the whole part has
  to be there (`IsNumeral`). What is taken from the start of a text is a numeral
  (`isNumeral_of_numeral?`), and a numeral is taken whole if nothing behind it goes on with it
  (`numeral?_of_isNumeral`). The digits in front of the point are those of their number
  (`Whole.toDigits_natOfDigits`).
-/

namespace Naskah.Json

open Numeral (Writing NoDigit noDigit_cons span_digits isDigit_toDigits)
open Decimal (natOfDigits)

/-! ## The grammar -/

/-- Digits, at least one. -/
def Digits (ds : List Char) : Prop := ds ≠ [] ∧ ∀ d ∈ ds, d.isDigit = true

/-- The digits in front of the point. Only zero itself begins with a zero. -/
inductive Whole : List Char → Prop
  | zero : Whole ['0']
  | digits {ds : List Char} : Digits ds → ds.head? ≠ some '0' → Whole ds

/-- The point with the digits behind it, or nothing. -/
inductive Fraction : List Char → Prop
  | none : Fraction []
  | point {ds : List Char} : Digits ds → Fraction ('.' :: ds)

/-- A sign that an exponent may have. -/
def IsSign (s : List Char) : Prop := s = [] ∨ s = ['+'] ∨ s = ['-']

/-- The exponent, or nothing. -/
inductive Exponent : List Char → Prop
  | none : Exponent []
  | power {e : Char} {s ds : List Char} :
      e = 'e' ∨ e = 'E' → IsSign s → Digits ds → Exponent (e :: (s ++ ds))

/-- A numeral. -/
inductive IsNumeral : List Char → Prop
  | parts {minus whole fraction exponent : List Char} :
      minus = [] ∨ minus = ['-'] → Whole whole → Fraction fraction → Exponent exponent →
        IsNumeral (minus ++ whole ++ fraction ++ exponent)

variable {cs ds taken r rest : List Char}

theorem Digits.isEmpty_eq (h : Digits ds) : ds.isEmpty = false :=
  List.isEmpty_eq_false_iff.2 h.1

theorem digits_toDigits (n : Nat) : Digits (Nat.toDigits 10 n) :=
  ⟨Nat.toDigits_ne_nil, isDigit_toDigits n⟩

theorem Digits.exists_cons (h : Digits ds) : ∃ d ds', ds = d :: ds' ∧ d.isDigit = true := by
  obtain ⟨d, ds', rfl⟩ := List.exists_cons_of_ne_nil h.1
  exact ⟨d, ds', rfl, h.2 d List.mem_cons_self⟩

theorem Whole.digits_of (h : Whole ds) : Digits ds := by
  cases h with
  | zero => exact ⟨List.cons_ne_nil _ _, List.forall_mem_singleton.2 rfl⟩
  | digits hds _ => exact hds

theorem Whole.eq_or_head?_ne (h : Whole ds) : ds = ['0'] ∨ ds.head? ≠ some '0' := by
  cases h with
  | zero => exact .inl rfl
  | digits _ hzero => exact .inr hzero

/-- A numeral begins with its sign or with a digit. -/
theorem IsNumeral.exists_cons (h : IsNumeral cs) :
    ∃ c r, cs = c :: r ∧ (c = '-' ∨ c.isDigit = true) := by
  obtain ⟨rfl | rfl, hwhole, -, -⟩ := h
  · obtain ⟨d, ds, rfl, hd⟩ := hwhole.digits_of.exists_cons
    exact ⟨d, _, rfl, .inr hd⟩
  · exact ⟨'-', _, rfl, .inl rfl⟩

/-- A numeral of digits alone is a whole part. -/
theorem IsNumeral.whole (h : IsNumeral cs) (hdigits : ∀ c ∈ cs, c.isDigit = true) : Whole cs := by
  have hno {c : Char} (hc : c.isDigit = false) (hmem : c ∈ cs) : False := by
    have htrue := hdigits c hmem
    rw [hc] at htrue
    cases htrue
  obtain ⟨rfl | rfl, hwhole, hfraction, hexponent⟩ := h
  · cases hfraction with
    | point _ => exact (hno (c := '.') rfl (by simp)).elim
    | none =>
      cases hexponent with
      | none => rwa [List.nil_append, List.append_nil, List.append_nil]
      | power he _ _ =>
        rcases he with rfl | rfl
        · exact (hno (c := 'e') rfl (by simp)).elim
        · exact (hno (c := 'E') rfl (by simp)).elim
  · exact (hno (c := '-') rfl (by simp)).elim

/-! ## The number of a whole part -/

theorem digitChar_of_isDigit {d : Char} (hd : d.isDigit = true) :
    Nat.digitChar (d.toNat - '0'.toNat) = d ∧ d.toNat - '0'.toNat < 10 := by
  have hall : ∀ n < 10, Nat.digitChar n = Char.ofNat (n + 48) := by decide
  simp only [Char.isDigit, ge_iff_le, Bool.and_eq_true, decide_eq_true_eq] at hd
  have hlow : '0'.toNat ≤ d.toNat := hd.1
  have hhigh : d.toNat ≤ '9'.toNat := hd.2
  have hzero : '0'.toNat = 48 := rfl
  have hnine : '9'.toNat = 57 := rfl
  refine ⟨?_, by omega⟩
  rw [hall _ (by omega), hzero, Nat.sub_add_cancel (by omega), Char.ofNat_toNat]

theorem natOfDigits_concat (ds : List Char) (d : Char) :
    natOfDigits (ds ++ [d]) = 10 * natOfDigits ds + (d.toNat - '0'.toNat) := by
  unfold natOfDigits
  rw [List.foldl_append, List.foldl_cons, List.foldl_nil]

/-- Digits without a zero in front are those of their number. -/
theorem Whole.toDigits_natOfDigits (h : Whole ds) :
    Nat.toDigits 10 (natOfDigits ds) = ds := by
  induction ds using List.reverseRecOn with
  | nil => exact absurd rfl h.digits_of.1
  | append_singleton ds d ih =>
    obtain ⟨hchar, hlt⟩ := digitChar_of_isDigit (h.digits_of.2 d (by simp))
    rw [natOfDigits_concat]
    rcases ds with _ | ⟨e, ds⟩
    · rw [show natOfDigits [] = 0 from rfl, Nat.mul_zero, Nat.zero_add,
        Nat.toDigits_of_lt_base hlt, hchar]
      rfl
    · have hne : e ≠ '0' := by
        rcases h.eq_or_head?_ne with heq | hzero
        · simp at heq
        · exact fun h0 => hzero (congrArg some h0)
      have hds : Nat.toDigits 10 (natOfDigits (e :: ds)) = e :: ds :=
        ih (.digits ⟨List.cons_ne_nil _ _, fun c hc => h.digits_of.2 c (List.mem_append_left _ hc)⟩
          fun h0 => hne (Option.some.inj h0))
      have hpos : natOfDigits (e :: ds) ≠ 0 := by
        intro h0
        rw [h0] at hds
        exact hne (List.cons.inj hds).1.symm
      have hdiv : (10 * natOfDigits (e :: ds) + (d.toNat - '0'.toNat)) / 10 =
          natOfDigits (e :: ds) := by omega
      have hmod : (10 * natOfDigits (e :: ds) + (d.toNat - '0'.toNat)) % 10 =
          d.toNat - '0'.toNat := by omega
      rw [Nat.toDigits_of_base_le (by decide) (by omega), hdiv, hmod, hds, hchar]

/-! ## The numerals that layouts write -/

section

variable (w : Writing)

theorem whole_writing : Whole w.whole := by
  by_cases h : w.whole.head? = some '0'
  · rw [w.zero h]
    exact .zero
  · exact .digits ⟨w.whole_ne_nil, w.isDigit_whole⟩ h

theorem fraction_writing : Fraction w.fractionChars := by
  unfold Writing.fractionChars
  split
  case isTrue => exact .none
  case isFalse h => exact .point ⟨h, w.isDigit_fraction⟩

theorem exponent_writing : Exponent w.exponentChars := by
  unfold Writing.exponentChars
  cases w.exponent with
  | none => exact .none
  | some e =>
    cases e with
    | ofNat n => exact .power (s := ['+']) (.inl rfl) (.inr (.inl rfl)) (digits_toDigits n)
    | negSucc n => exact .power (s := ['-']) (.inl rfl) (.inr (.inr rfl)) (digits_toDigits (n + 1))

theorem isNumeral_signed (negative : Bool) : IsNumeral (w.signed negative) := by
  have hparts {minus : List Char} (hminus : minus = [] ∨ minus = ['-']) :
      IsNumeral (minus ++ w.chars) := by
    have h := IsNumeral.parts hminus (whole_writing w) (fraction_writing w)
      (exponent_writing w)
    rwa [List.append_assoc, List.append_assoc] at h
  cases negative with
  | false => exact hparts (.inl rfl)
  | true => exact hparts (.inr rfl)

end

namespace Read

/-- The parts of a numeral behind its sign. -/
def parts? (minus cs : List Char) : Option (List Char × List Char) := do
  let (whole, r) ← wholePart? cs
  let (fraction, r) ← fraction? r
  let (exponent, r) ← exponent? r
  return (minus ++ whole ++ fraction ++ exponent, r)

theorem numeral?_minus (cs : List Char) : numeral? ('-' :: cs) = parts? ['-'] cs := rfl

theorem numeral?_of_head? (h : cs.head? ≠ some '-') : numeral? cs = parts? [] cs := by
  rcases cs with _ | ⟨c, cs⟩
  · rfl
  · unfold numeral?
    split
    case h_1 heq =>
      split at heq
      case h_1 hcons => exact absurd (congrArg List.head? hcons) h
      case h_2 =>
        obtain ⟨rfl, rfl⟩ := Prod.mk.inj heq
        rfl

/-! ## A numeral is taken whole -/

/-- A text before which a numeral ends. -/
def Ends (cs : List Char) : Prop :=
  ∀ c ∈ cs.head?, c.isDigit = false ∧ c ≠ '.' ∧ c ≠ 'e' ∧ c ≠ 'E'

theorem Ends.noDigit (h : Ends rest) : NoDigit rest := fun c hc => (h c hc).1

theorem wholePart?_of_whole (h : Whole ds) (hrest : NoDigit rest) :
    wholePart? (ds ++ rest) = some (ds, rest) := by
  cases h with
  | zero => rfl
  | digits hds hzero =>
    obtain ⟨d, ds', rfl, -⟩ := hds.exists_cons
    unfold wholePart?
    split
    case h_1 heq => exact absurd (congrArg some (List.cons.inj heq).1) hzero
    case h_2 =>
      rw [span_digits hds.2 hrest]
      simp [hds.isEmpty_eq]

theorem fraction?_of_fraction (h : Fraction ds) (hrest : NoDigit rest)
    (hpoint : rest.head? ≠ some '.') : fraction? (ds ++ rest) = some (ds, rest) := by
  cases h with
  | none =>
    rw [List.nil_append]
    unfold fraction?
    split
    · exact absurd rfl hpoint
    · rfl
  | point hds =>
    simp only [fraction?, List.cons_append, span_digits hds.2 hrest, hds.isEmpty_eq]
    rfl

theorem sign_append {s : List Char} (hs : IsSign s) (hds : Digits ds) :
    sign (s ++ (ds ++ rest)) = (s, ds ++ rest) := by
  obtain ⟨d, ds', rfl, hd⟩ := hds.exists_cons
  rcases hs with rfl | rfl | rfl
  · unfold sign
    split
    case h_1 heq =>
      rw [(List.cons.inj heq).1] at hd
      cases hd
    case h_2 heq =>
      rw [(List.cons.inj heq).1] at hd
      cases hd
    case h_3 => rfl
  · rfl
  · rfl

theorem exponent?_of_exponent (h : Exponent ds) (hrest : Ends rest) :
    exponent? (ds ++ rest) = some (ds, rest) := by
  cases h with
  | none =>
    cases rest with
    | nil => rfl
    | cons c cs =>
      obtain ⟨-, -, he, hE⟩ := hrest c rfl
      simp [exponent?, he, hE]
  | power he hs hds =>
    simp only [exponent?, List.cons_append, List.append_assoc, if_pos he, sign_append hs hds,
      span_digits hds.2 hrest.noDigit, hds.isEmpty_eq]
    rfl

/-- What stands behind the digits in front of the point does not make them longer, nor a fraction
    where there is none. -/
theorem exponent_rest (h : Exponent ds) (hrest : Ends rest) :
    NoDigit (ds ++ rest) ∧ (ds ++ rest).head? ≠ some '.' := by
  cases h with
  | none => exact ⟨hrest.noDigit, fun h0 => (hrest '.' h0).2.1 rfl⟩
  | power he _ _ => rcases he with rfl | rfl <;> exact ⟨noDigit_cons rfl _, by simp⟩

/-- A numeral is taken whole. -/
theorem numeral?_of_isNumeral (h : IsNumeral cs) (hrest : Ends rest) :
    numeral? (cs ++ rest) = some (cs, rest) := by
  obtain ⟨hminus, hwhole, hfraction, hexponent⟩ := h
  rename_i minus whole fraction exponent
  obtain ⟨hdigit, hpoint⟩ := exponent_rest hexponent hrest
  have hbehind : NoDigit (fraction ++ (exponent ++ rest)) := by
    cases hfraction with
    | none => exact hdigit
    | point _ => exact noDigit_cons rfl _
  have hparts : parts? minus (whole ++ (fraction ++ (exponent ++ rest))) =
      some (minus ++ whole ++ fraction ++ exponent, rest) := by
    unfold parts?
    rw [wholePart?_of_whole hwhole hbehind]
    simp [fraction?_of_fraction hfraction hdigit hpoint, exponent?_of_exponent hexponent hrest]
  rw [← hparts, List.append_assoc, List.append_assoc, List.append_assoc]
  rcases hminus with rfl | rfl
  · obtain ⟨d, ds, rfl, hd⟩ := hwhole.digits_of.exists_cons
    refine numeral?_of_head? fun h0 => ?_
    rw [Option.some.inj h0] at hd
    cases hd
  · rfl

/-! ## What is taken is a numeral -/

theorem digits_of_span (h : cs.span Char.isDigit = (ds, r)) (hne : ds.isEmpty = false) :
    cs = ds ++ r ∧ Digits ds := by
  rw [List.span_eq_takeWhile_dropWhile] at h
  obtain ⟨rfl, rfl⟩ := Prod.mk.inj h
  refine ⟨List.takeWhile_append_dropWhile.symm, List.isEmpty_eq_false_iff.1 hne, fun d hd => ?_⟩
  exact List.all_eq_true.1 List.all_takeWhile d hd

theorem whole_of_wholePart? (h : wholePart? cs = some (taken, r)) :
    cs = taken ++ r ∧ Whole taken := by
  unfold wholePart? at h
  split at h
  case h_1 =>
    obtain ⟨rfl, rfl⟩ := Prod.mk.inj (Option.some.inj h)
    exact ⟨rfl, .zero⟩
  case h_2 hzero =>
    rcases hspan : cs.span Char.isDigit with ⟨ds, r'⟩
    rw [hspan] at h
    cases hne : ds.isEmpty with
    | true => simp [hne] at h
    | false =>
      obtain ⟨rfl, rfl⟩ : ds = taken ∧ r' = r := by simpa [hne] using h
      obtain ⟨rfl, hds⟩ := digits_of_span hspan hne
      refine ⟨rfl, .digits hds fun h0 => ?_⟩
      obtain ⟨d, ds', rfl, -⟩ := hds.exists_cons
      obtain rfl := Option.some.inj h0
      exact hzero _ rfl

theorem fraction_of_fraction? (h : fraction? cs = some (taken, r)) :
    cs = taken ++ r ∧ Fraction taken := by
  unfold fraction? at h
  split at h
  case h_1 cs' =>
    rcases hspan : cs'.span Char.isDigit with ⟨ds, r'⟩
    rw [hspan] at h
    cases hne : ds.isEmpty with
    | true => simp [hne] at h
    | false =>
      obtain ⟨rfl, rfl⟩ : '.' :: ds = taken ∧ r' = r := by simpa [hne] using h
      obtain ⟨rfl, hds⟩ := digits_of_span hspan hne
      exact ⟨rfl, .point hds⟩
  case h_2 =>
    obtain ⟨rfl, rfl⟩ := Prod.mk.inj (Option.some.inj h)
    exact ⟨rfl, .none⟩

theorem isSign_sign (cs : List Char) : cs = (sign cs).1 ++ (sign cs).2 ∧ IsSign (sign cs).1 := by
  unfold sign
  split
  case h_1 => exact ⟨rfl, .inr (.inl rfl)⟩
  case h_2 => exact ⟨rfl, .inr (.inr rfl)⟩
  case h_3 => exact ⟨rfl, .inl rfl⟩

theorem exponent_of_exponent? (h : exponent? cs = some (taken, r)) :
    cs = taken ++ r ∧ Exponent taken := by
  unfold exponent? at h
  split at h
  case h_1 =>
    obtain ⟨rfl, rfl⟩ := Prod.mk.inj (Option.some.inj h)
    exact ⟨rfl, .none⟩
  case h_2 e cs' =>
    split at h
    case isTrue he =>
      obtain ⟨hcs', hs⟩ := isSign_sign cs'
      rcases hsign : sign cs' with ⟨s, r₁⟩
      rcases hspan : r₁.span Char.isDigit with ⟨ds, r₂⟩
      rw [hsign] at h hcs' hs
      dsimp only at h
      rw [hspan] at h
      cases hne : ds.isEmpty with
      | true => simp [hne] at h
      | false =>
        obtain ⟨rfl, rfl⟩ : e :: (s ++ ds) = taken ∧ r₂ = r := by simpa [hne] using h
        obtain ⟨rfl, hds⟩ := digits_of_span hspan hne
        refine ⟨?_, .power he hs hds⟩
        rw [hcs', List.cons_append, List.append_assoc]
    case isFalse =>
      obtain ⟨rfl, rfl⟩ := Prod.mk.inj (Option.some.inj h)
      exact ⟨rfl, .none⟩

theorem isNumeral_of_parts? {minus : List Char} (hminus : minus = [] ∨ minus = ['-'])
    (h : parts? minus cs = some (taken, r)) : minus ++ cs = taken ++ r ∧ IsNumeral taken := by
  obtain ⟨⟨whole, r₁⟩, h₁, h⟩ := Option.bind_eq_some_iff.1 h
  obtain ⟨⟨fraction, r₂⟩, h₂, h⟩ := Option.bind_eq_some_iff.1 h
  obtain ⟨⟨exponent, r₃⟩, h₃, h⟩ := Option.bind_eq_some_iff.1 h
  obtain ⟨rfl, rfl⟩ := Prod.mk.inj (Option.some.inj h)
  obtain ⟨rfl, hwhole⟩ := whole_of_wholePart? h₁
  obtain ⟨rfl, hfraction⟩ := fraction_of_fraction? h₂
  obtain ⟨rfl, hexponent⟩ := exponent_of_exponent? h₃
  exact ⟨by simp only [List.append_assoc], .parts hminus hwhole hfraction hexponent⟩

/-- What is taken is a numeral. -/
theorem isNumeral_of_numeral? (h : numeral? cs = some (taken, r)) :
    cs = taken ++ r ∧ IsNumeral taken := by
  by_cases hminus : cs.head? = some '-'
  · obtain ⟨cs', rfl⟩ := List.head?_eq_some_iff.1 hminus
    rw [numeral?_minus] at h
    exact isNumeral_of_parts? (.inr rfl) h
  · rw [numeral?_of_head? hminus] at h
    exact isNumeral_of_parts? (.inl rfl) h

end Read

end Naskah.Json
