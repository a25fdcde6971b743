/-
  Decimals: a natural number times a power of ten. A decimal is rounded to the nearest float, a tie
  going to the even mantissa. Zeros at the end of the digits are moved into the exponent first, so
  that all spellings of one decimal are rounded alike (`Decimal.reduced_mul_ten`).
-/

namespace Naskah

/-- The decimal `digits · 10 ^ exponent`. -/
structure Decimal where
  digits : Nat
  exponent : Int
deriving DecidableEq, Repr

namespace Decimal

/-- The decimal `n · 10 ^ e` with the zeros at the end of `n` moved into the exponent. -/
def reduced (n : Nat) (e : Int) : Decimal :=
  if n ≠ 0 ∧ n % 10 = 0 then reduced (n / 10) (e + 1) else ⟨n, e⟩
termination_by n
decreasing_by omega

/-- The number that digits spell, the most significant first. -/
def natOfDigits (ds : List Char) : Nat :=
  ds.foldl (fun n d => 10 * n + (d.toNat - '0'.toNat)) 0

/-- The float nearest to the decimal. -/
def toFloat (d : Decimal) : Float :=
  match d.exponent with
  | .ofNat e => Float.ofScientific d.digits false e
  | .negSucc e => Float.ofScientific d.digits true (e + 1)

/-- The digits of the decimal, the most significant first. -/
def digitChars (d : Decimal) : List Char :=
  Nat.toDigits 10 d.digits

/-- A zero more at the end and an exponent less by one give the same decimal. -/
theorem reduced_mul_ten {n : Nat} (hn : n ≠ 0) (e : Int) :
    reduced (10 * n) (e - 1) = reduced n e := by
  rw [reduced, if_pos (by omega)]
  congr 1 <;> omega

/-- The digits of a reduced decimal do not end in zero. -/
theorem reduced_mod_ten {n : Nat} (hn : n ≠ 0) (e : Int) : (reduced n e).digits % 10 ≠ 0 := by
  fun_induction reduced n e with
  | case1 n e h ih => exact ih (by omega)
  | case2 n e h => exact fun h0 => h ⟨hn, h0⟩

end Decimal

end Naskah
