import Naskah.Number.Layout
import Naskah.Proofs.Number.Exact
import Naskah.Proofs.Number.Plain

/-
  Numerals as they are written. A written numeral has digits, which begin with zero only if there is no
  other one, digits behind a point and an exponent with a sign, of which the last two may be missing.
  Every layout writes a decimal in this form, and reading gives the decimal back
  (`Layout.exists_writing`, `Writing.decimal?_chars`). So a finite float reads back from its text
  (`Layout.read?_render`).
-/

namespace Naskah

namespace Numeral

/-- The parts of a numeral without sign. -/
structure Writing where
  whole : List Char
  fraction : List Char
  exponent : Option Int
  isDigit_whole : ∀ c ∈ whole, c.isDigit = true
  isDigit_fraction : ∀ c ∈ fraction, c.isDigit = true
  whole_ne_nil : whole ≠ []
  zero : whole.head? = some '0' → whole = ['0']

namespace Writing

/-- The point and the digits behind it, if there are any. -/
def fractionChars (w : Writing) : List Char :=
  if w.fraction = [] then [] else '.' :: w.fraction

/-- The exponent with its sign, if there is one. -/
def exponentChars (w : Writing) : List Char :=
  w.exponent.elim [] fun e => 'e' :: Layout.exponentChars e

def chars (w : Writing) : List Char :=
  w.whole ++ (w.fractionChars ++ w.exponentChars)

/-- The decimal that is written. -/
def decimal (w : Writing) : Decimal :=
  .reduced (Decimal.natOfDigits (w.whole ++ w.fraction))
    (w.exponent.getD 0 - w.fraction.length)

end Writing

/-! ## Digits -/

/-- A text that does not begin with a digit. -/
def NoDigit (cs : List Char) : Prop := ∀ c ∈ cs.head?, c.isDigit = false

theorem noDigit_cons {c : Char} (h : c.isDigit = false) (cs : List Char) : NoDigit (c :: cs) := by
  rintro _ ⟨⟩
  exact h

theorem span_digits {ds rest : List Char} (hd : ∀ c ∈ ds, c.isDigit = true) (hr : NoDigit rest) :
    (ds ++ rest).span Char.isDigit = (ds, rest) := by
  rw [List.span_eq_takeWhile_dropWhile, List.takeWhile_append_of_pos hd,
    List.dropWhile_append_of_pos hd]
  cases rest with
  | nil => rw [List.takeWhile_nil, List.dropWhile_nil, List.append_nil]
  | cons c cs =>
    have hc := hr c rfl
    rw [List.takeWhile_cons_of_neg (by rw [hc]; decide), List.append_nil,
      List.dropWhile_cons_of_neg (by rw [hc]; decide)]

theorem natOfDigits_zeros (n : Nat) (ds : List Char) :
    Decimal.natOfDigits (List.replicate n '0' ++ ds) = Decimal.natOfDigits ds := by
  show Nat.ofDigitChars 10 _ 0 = Nat.ofDigitChars 10 _ 0
  rw [Nat.ofDigitChars_append, Nat.ofDigitChars_replicate_zero, Nat.mul_zero]

theorem natOfDigits_append_zeros (ds : List Char) (n : Nat) :
    Decimal.natOfDigits (ds ++ List.replicate n '0') = Decimal.natOfDigits ds * 10 ^ n := by
  show Nat.ofDigitChars 10 _ 0 = Nat.ofDigitChars 10 _ 0 * _
  rw [Nat.ofDigitChars_append, Nat.ofDigitChars_replicate_zero, Nat.mul_comm]

theorem natOfDigits_toDigits (n : Nat) : Decimal.natOfDigits (Nat.toDigits 10 n) = n :=
  Nat.ofDigitChars_ten_toDigits

theorem isDigit_toDigits (n : Nat) : ∀ c ∈ Nat.toDigits 10 n, c.isDigit = true :=
  fun _ hc => Nat.isDigit_of_mem_toDigits (by decide) (by decide) hc

/-- A number other than zero is not written with a zero in front. -/
theorem head?_toDigits_ne_zero {n : Nat} (hn : 0 < n) : (Nat.toDigits 10 n).head? ≠ some '0' := by
  induction n using Nat.strongRecOn with
  | ind n ih =>
    by_cases h : n < 10
    · rw [Nat.toDigits_of_lt_base h]
      intro h0
      exact hn.ne' (Nat.digitChar_eq_zero.1 (Option.some.inj h0))
    · have hdiv : 0 < n / 10 := by omega
      rw [Nat.toDigits_of_base_le (by decide) (Nat.not_lt.1 h),
        List.head?_append_of_ne_nil _ Nat.toDigits_ne_nil]
      exact ih (n / 10) (by omega) hdiv

/-! ## Reading what is written -/

theorem exponent?_exponentChars (e : Int) :
    exponent? ('e' :: Layout.exponentChars e) = some e := by
  have hne (n : Nat) : (Nat.toDigits 10 n).isEmpty = false :=
    List.isEmpty_eq_false_iff.2 Nat.toDigits_ne_nil
  have hall (n : Nat) : (Nat.toDigits 10 n).all Char.isDigit = true :=
    List.all_eq_true.2 (isDigit_toDigits n)
  cases e with
  | ofNat n =>
    simp only [exponent?, Layout.exponentChars, splitSign, hne, hall, natOfDigits_toDigits]
    rfl
  | negSucc n =>
    simp only [exponent?, Layout.exponentChars, splitSign, hne, hall, natOfDigits_toDigits]
    rfl

namespace Writing

variable (w : Writing)

theorem noDigit_exponentChars : NoDigit w.exponentChars := by
  unfold exponentChars
  cases w.exponent with
  | none => exact fun c hc => absurd hc (Option.not_mem_none c)
  | some e => exact noDigit_cons rfl _

theorem noDigit_rest : NoDigit (w.fractionChars ++ w.exponentChars) := by
  unfold fractionChars
  split
  · exact w.noDigit_exponentChars
  · exact noDigit_cons rfl _

theorem splitFraction_rest :
    splitFraction (w.fractionChars ++ w.exponentChars) = (w.fraction, w.exponentChars) := by
  unfold fractionChars
  split
  case isTrue h =>
    rw [h, List.nil_append]
    unfold exponentChars
    cases w.exponent <;> rfl
  case isFalse h =>
    exact span_digits w.isDigit_fraction w.noDigit_exponentChars

theorem exponent?_chars : exponent? w.exponentChars = some (w.exponent.getD 0) := by
  unfold exponentChars
  cases w.exponent with
  | none => rfl
  | some e => exact exponent?_exponentChars e

/-- What is written is read. -/
theorem decimal?_chars : decimal? w.chars = some w.decimal := by
  have hspan : w.chars.span Char.isDigit = (w.whole, w.fractionChars ++ w.exponentChars) :=
    span_digits w.isDigit_whole w.noDigit_rest
  have hne : w.whole.isEmpty = false := List.isEmpty_eq_false_iff.2 w.whole_ne_nil
  simp only [decimal?, hspan, splitFraction_rest, hne, exponent?_chars]
  rfl

/-- A written numeral begins with a digit. -/
theorem exists_chars_eq : ∃ d cs, w.chars = d :: cs ∧ d.isDigit = true := by
  obtain ⟨d, ds, hd⟩ := List.exists_cons_of_ne_nil w.whole_ne_nil
  refine ⟨d, ds ++ (w.fractionChars ++ w.exponentChars), ?_, ?_⟩
  · rw [chars, hd]
    rfl
  · exact w.isDigit_whole d (hd ▸ List.mem_cons_self)

/-- The numeral with its sign. -/
def signed (negative : Bool) : List Char :=
  if negative then '-' :: w.chars else w.chars

/-- The float that the numeral with its sign stands for. -/
def float (negative : Bool) : Float :=
  if negative then -w.decimal.toFloat else w.decimal.toFloat

theorem named?_chars : named? w.chars = none := by
  obtain ⟨d, cs, hchars, hd⟩ := w.exists_chars_eq
  have hlower : d.toLower = d := toLower_of_isNumberChar (isNumberChar_of_digit hd)
  have hne {c : Char} {rest : List Char} (hc : c.isDigit = false) :
      String.ofList (w.chars.map Char.toLower) ≠ String.ofList (c :: rest) := by
    rw [hchars, List.map_cons, hlower]
    intro h
    rw [(List.cons.inj (String.ofList_injective h)).1, hc] at hd
    cases hd
  unfold named?
  dsimp only
  rw [if_neg, if_neg]
  · exact hne (c := 'n') rfl
  · rintro (h | h)
    · exact hne (c := 'i') rfl h
    · exact hne (c := 'i') rfl h

theorem splitSign_chars : splitSign w.chars = (false, w.chars) := by
  obtain ⟨d, cs, hchars, hd⟩ := w.exists_chars_eq
  rw [hchars]
  unfold splitSign
  split
  case h_1 heq =>
    rw [(List.cons.inj heq).1] at hd
    cases hd
  case h_2 heq =>
    rw [(List.cons.inj heq).1] at hd
    cases hd
  case h_3 => rfl

theorem read?_signed (negative : Bool) : read? (w.signed negative) = some (w.float negative) := by
  cases negative with
  | false =>
    show read? w.chars = some w.decimal.toFloat
    simp only [read?, splitSign_chars, named?_chars, decimal?_chars]
    rfl
  | true =>
    show read? ('-' :: w.chars) = some (-w.decimal.toFloat)
    simp only [read?, splitSign, named?_chars, decimal?_chars]
    rfl

/-- Zero with `k` zeros behind the point. -/
def zeros (k : Nat) : Writing where
  whole := Nat.toDigits 10 0
  fraction := List.replicate k '0'
  exponent := none
  isDigit_whole := isDigit_toDigits 0
  isDigit_fraction := fun c hc => by rw [List.eq_of_mem_replicate hc]; rfl
  whole_ne_nil := Nat.toDigits_ne_nil
  zero := fun _ => rfl

theorem toFloat_zeros (k : Nat) : (zeros k).decimal.toFloat = 0.0 := by
  have hdigits : Decimal.natOfDigits (Nat.toDigits 10 0 ++ List.replicate k '0') = 0 := by
    rw [natOfDigits_append_zeros, natOfDigits_toDigits, Nat.zero_mul]
  have hread : (zeros k).decimal.toFloat.toModel = Float.Model.pack (.zero .positive) := by
    show (Decimal.reduced (Decimal.natOfDigits
      (Nat.toDigits 10 0 ++ List.replicate k '0')) _).toFloat.toModel = _
    rw [hdigits, Decimal.reduced_zero, Decimal.toFloat_zero]
  exact congrArg Float.ofModel hread

end Writing

end Numeral

/-! ## Layouts -/

namespace Layout

open Numeral

variable {d : Decimal}

/-- A reduced decimal is written by its digits, with any zeros behind them. -/
theorem decimal_eq (h : d.IsReduced) {w : Writing} {k : Nat}
    (hdigits : Decimal.natOfDigits (w.whole ++ w.fraction) = d.digits * 10 ^ k)
    (hexponent : w.exponent.getD 0 - w.fraction.length = d.exponent - k) : w.decimal = d := by
  rw [Writing.decimal, hdigits, hexponent, h.reduced_mul_pow]

theorem natOfDigits_digitChars (d : Decimal) : Decimal.natOfDigits d.digitChars = d.digits :=
  natOfDigits_toDigits d.digits

theorem isDigit_digitChars (d : Decimal) : ∀ c ∈ d.digitChars, c.isDigit = true :=
  isDigit_toDigits d.digits

theorem digitChars_ne_nil (d : Decimal) : d.digitChars ≠ [] :=
  Nat.toDigits_ne_nil

theorem head?_digitChars_ne_zero (h : d.IsReduced) : d.digitChars.head? ≠ some '0' :=
  head?_toDigits_ne_zero h.pos

theorem exists_writing_small (h : d.IsReduced) (pointZero : Bool) (n : Nat)
    (htop : d.exponent + d.digitChars.length - 1 = .negSucc n) :
    ∃ w : Writing, w.chars = positional pointZero d.digitChars (.negSucc n) ∧ w.decimal = d := by
  have hne : List.replicate n '0' ++ d.digitChars ≠ [] :=
    List.append_ne_nil_of_right_ne_nil _ (digitChars_ne_nil d)
  refine ⟨⟨['0'], List.replicate n '0' ++ d.digitChars, none, ?_, ?_, ?_, ?_⟩, ?_,
    decimal_eq h (k := 0) ?_ ?_⟩
  · exact List.forall_mem_singleton.2 rfl
  · exact List.forall_mem_append.2 ⟨fun c hc => by rw [List.eq_of_mem_replicate hc]; rfl,
      isDigit_digitChars d⟩
  · exact List.cons_ne_nil _ _
  · exact fun _ => rfl
  · simp only [Writing.chars, Writing.fractionChars, Writing.exponentChars, if_neg hne]
    exact congrArg ('0' :: '.' :: ·) (List.append_nil _)
  · have hzeros := natOfDigits_zeros (n + 1) d.digitChars
    rw [natOfDigits_digitChars] at hzeros
    rw [Nat.pow_zero, Nat.mul_one]
    exact hzeros
  · show (0 : Int) - (List.replicate n '0' ++ d.digitChars).length = d.exponent - (0 : Nat)
    rw [List.length_append, List.length_replicate]
    omega

theorem exists_writing_fraction (h : d.IsReduced) (pointZero : Bool) (n : Nat)
    (htop : d.exponent + d.digitChars.length - 1 = n) (hlt : n + 1 < d.digitChars.length) :
    ∃ w : Writing, w.chars = positional pointZero d.digitChars n ∧ w.decimal = d := by
  have hdigits := isDigit_digitChars d
  have hdrop : d.digitChars.drop (n + 1) ≠ [] := fun h0 => hlt.not_ge (List.drop_eq_nil_iff.1 h0)
  have hzeros : n + 1 - d.digitChars.length = 0 := by omega
  refine ⟨⟨d.digitChars.take (n + 1), d.digitChars.drop (n + 1), none, ?_, ?_, ?_, ?_⟩, ?_,
    decimal_eq h (k := 0) ?_ ?_⟩
  · exact fun c hc => hdigits c (List.mem_of_mem_take hc)
  · exact fun c hc => hdigits c (List.mem_of_mem_drop hc)
  · exact fun h0 => digitChars_ne_nil d ((List.take_eq_nil_iff.1 h0).resolve_left (by omega))
  · rw [List.head?_take, if_neg (by omega)]
    exact fun h0 => absurd h0 (head?_digitChars_ne_zero h)
  · simp only [Writing.chars, Writing.fractionChars, Writing.exponentChars, if_neg hdrop]
    show _ = if (d.digitChars.drop (n + 1)).isEmpty then _ else _
    rw [List.isEmpty_eq_false_iff.2 hdrop, hzeros]
    simp
  · rw [List.take_append_drop, natOfDigits_digitChars, Nat.pow_zero, Nat.mul_one]
  · show (0 : Int) - (d.digitChars.drop (n + 1)).length = d.exponent - (0 : Nat)
    rw [List.length_drop]
    omega

theorem exists_writing_whole (h : d.IsReduced) (pointZero : Bool) (n : Nat)
    (htop : d.exponent + d.digitChars.length - 1 = n) (hle : d.digitChars.length ≤ n + 1) :
    ∃ w : Writing, w.chars = positional pointZero d.digitChars n ∧ w.decimal = d := by
  have hdrop : d.digitChars.drop (n + 1) = [] := List.drop_eq_nil_iff.2 hle
  -- the zeros between the digits and the point, and the one behind the point
  obtain ⟨k, hk⟩ : ∃ k, k = n + 1 - d.digitChars.length := ⟨_, rfl⟩
  obtain ⟨j, hj⟩ : ∃ j, j = if pointZero then 1 else 0 := ⟨_, rfl⟩
  refine ⟨⟨d.digitChars ++ List.replicate k '0', List.replicate j '0', none, ?_, ?_, ?_, ?_⟩, ?_,
    decimal_eq h (k := k + j) ?_ ?_⟩
  · exact List.forall_mem_append.2 ⟨isDigit_digitChars d,
      fun c hc => by rw [List.eq_of_mem_replicate hc]; rfl⟩
  · exact fun c hc => by rw [List.eq_of_mem_replicate hc]; rfl
  · exact List.append_ne_nil_of_left_ne_nil (digitChars_ne_nil d) _
  · rw [List.head?_append_of_ne_nil _ (digitChars_ne_nil d)]
    exact fun h0 => absurd h0 (head?_digitChars_ne_zero h)
  · simp only [Writing.chars, Writing.fractionChars, Writing.exponentChars]
    show _ = if (d.digitChars.drop (n + 1)).isEmpty then _ else _
    rw [hdrop, List.take_of_length_le hle, ← hk, hj]
    cases pointZero <;> simp
  · rw [List.append_assoc, List.replicate_append_replicate, natOfDigits_append_zeros,
      natOfDigits_digitChars]
  · show (0 : Int) - (List.replicate j '0').length = d.exponent - (k + j : Nat)
    rw [List.length_replicate]
    omega

theorem exists_writing_scientific (h : d.IsReduced) {top : Int}
    (htop : d.exponent + d.digitChars.length - 1 = top) :
    ∃ w : Writing, w.chars = scientific d.digitChars top ∧ w.decimal = d := by
  obtain ⟨c, cs, hcs⟩ := List.exists_cons_of_ne_nil (digitChars_ne_nil d)
  have hdigits := isDigit_digitChars d
  rw [hcs] at hdigits
  refine ⟨⟨[c], cs, some top, ?_, ?_, ?_, ?_⟩, ?_, decimal_eq h (k := 0) ?_ ?_⟩
  · exact List.forall_mem_singleton.2 (hdigits c List.mem_cons_self)
  · exact fun c hc => hdigits c (List.mem_cons_of_mem _ hc)
  · exact List.cons_ne_nil _ _
  · intro h0
    rw [Option.some.inj h0]
  · rw [hcs]
    cases cs <;> simp [Writing.chars, Writing.fractionChars, Writing.exponentChars, scientific]
  · rw [Nat.pow_zero, Nat.mul_one, ← natOfDigits_digitChars d, hcs]
    rfl
  · show top - cs.length = d.exponent - (0 : Nat)
    rw [hcs, List.length_cons] at htop
    omega

/-- A decimal is written as a numeral that stands for it. -/
theorem exists_writing (l : Layout) (h : d.IsReduced) :
    ∃ w : Writing, w.chars = l.decimal d ∧ w.decimal = d := by
  unfold decimal
  dsimp only
  split
  · cases htop : d.exponent + d.digitChars.length - 1 with
    | negSucc n => exact exists_writing_small h _ n htop
    | ofNat n =>
      rcases Nat.lt_or_ge (n + 1) d.digitChars.length with hn | hn
      · exact exists_writing_fraction h _ n htop hn
      · exact exists_writing_whole h _ n htop hn
  · exact exists_writing_scientific h rfl

/-- The text of a float that is finite and not zero is a numeral that stands for it. -/
theorem exists_render (l : Layout) {x : Float} {s : Float.Model.UnpackedFloat.Sign} {m : Nat} {e : Int}
    {hm : 0 < m} (hx : x.toModel.unpack = .finite s m e hm) :
    ∃ (w : Writing) (negative : Bool), (l.render x).toList = w.signed negative ∧
      w.float negative = x := by
  cases s with
  | positive =>
    obtain ⟨w, hchars, hdecimal⟩ := exists_writing l (Shortest.isReduced_ofBinary l.tie hx)
    refine ⟨w, false, ?_, ?_⟩
    · simp only [render, hx, String.toList_ofList]
      exact hchars.symm
    · show w.decimal.toFloat = x
      rw [hdecimal, Shortest.toFloat_ofBinary_eq l.tie hx]
  | negative =>
    have hneg := Binary.unpack_neg hx
    obtain ⟨w, hchars, hdecimal⟩ := exists_writing l (Shortest.isReduced_ofBinary l.tie hneg)
    refine ⟨w, true, ?_, ?_⟩
    · simp only [render, hx, String.toList_ofList]
      exact congrArg ('-' :: ·) hchars.symm
    · show -w.decimal.toFloat = x
      rw [hdecimal, Shortest.toFloat_ofBinary_eq l.tie hneg, Binary.neg_neg_float hx]

end Layout

end Naskah
