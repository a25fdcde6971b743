import Naskah.Number.Decimal

/-
  The shortest decimal that reads back as a given float: the fewest digits, and of the decimals
  with that many digits the one nearest to the float. With `n` digits only the two neighbours of
  the float on the grid of `n`-digit decimals have to be looked at. Two decimals equally near are
  a tie, which is left to the format that asks.
-/

namespace Naskah

/-- Which of two equally near decimals is taken. -/
inductive Tie where
  | away
  | even
deriving DecidableEq, Repr

namespace Shortest

/-- The positive rational `num / den`. -/
structure Ratio where
  num : Nat
  den : Nat
deriving Repr

/-- `mantissa · 2 ^ exponent`. -/
def Ratio.ofBinary (mantissa : Nat) : Int → Ratio
  | .ofNat e => ⟨mantissa * Nat.pow 2 e, 1⟩
  | .negSucc e => ⟨mantissa, Nat.pow 2 (e + 1)⟩

/-- `r / 10 ^ k`. -/
def Ratio.scaleDown (r : Ratio) : Int → Ratio
  | .ofNat k => ⟨r.num, r.den * Nat.pow 10 k⟩
  | .negSucc k => ⟨r.num * Nat.pow 10 (k + 1), r.den⟩

/-- The number of digits before the point: the least `p` with `r < 10 ^ p`, which is not positive
    when `r` is a proper fraction. The estimate from the lengths in bits is at most one too small. -/
def Ratio.magnitude (r : Ratio) : Int :=
  let bits : Int := (Nat.log2 r.num : Int) - Nat.log2 r.den
  let estimate : Int := (bits - 1) * 30103 / 100000
  let reaches (p : Int) : Bool := let s := r.scaleDown p; s.den ≤ s.num
  if reaches (estimate + 1) then estimate + 2
  else if reaches estimate then estimate + 1
  else estimate

/-- Whether the quotient is to be rounded up: it lies past the middle, or in the middle and the
    tie says so. -/
def roundsUp (tie : Tie) (low remainder den : Nat) : Bool :=
  if 2 * remainder = den then tie = .away ∨ low % 2 = 1 else den < 2 * remainder

/-- The neighbours of `r` on the grid of multiples of `10 ^ k`, the nearer one first. -/
def neighbours (tie : Tie) (r : Ratio) (k : Int) : List Decimal :=
  let s := r.scaleDown k
  let low := s.num / s.den
  let remainder := s.num % s.den
  let below : Decimal := .reduced low k
  let above : Decimal := .reduced (low + 1) k
  if remainder = 0 then [below]
  else if roundsUp tie low remainder s.den then [above, below]
  else [below, above]

/-- The decimal that is exactly `mantissa · 2 ^ exponent`. -/
def exact (mantissa : Nat) : Int → Decimal
  | .ofNat e => .reduced (mantissa * Nat.pow 2 e) 0
  | .negSucc e => .reduced (mantissa * Nat.pow 5 (e + 1)) (.negSucc e)

/-- The shortest decimal that reads back as `x`, the float `mantissa · 2 ^ exponent`. Seventeen
    digits always are enough; the exact decimal stands behind them. -/
def ofBinary (tie : Tie) (x : Float) (mantissa : Nat) (exponent : Int) : Decimal :=
  let r := Ratio.ofBinary mantissa exponent
  let top := r.magnitude
  let found := (List.range 17).findSome? fun (n : Nat) =>
    (neighbours tie r (top - (n + 1))).find? fun d => decide (d.toFloat = x)
  found.getD (exact mantissa exponent)

/-- A shortest decimal reads back as the float, or is the exact decimal of it. -/
theorem toFloat_ofBinary (tie : Tie) (x : Float) (m : Nat) (e : Int) :
    (ofBinary tie x m e).toFloat = x ∨ ofBinary tie x m e = exact m e := by
  simp only [ofBinary]
  cases h : List.findSome? _ _ with
  | none => exact .inr rfl
  | some d =>
    obtain ⟨n, _, hn⟩ := List.exists_of_findSome?_eq_some h
    exact .inl (by simpa using List.find?_some hn)

end Shortest

end Naskah
