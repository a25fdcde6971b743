import Naskah.Json.Basic

/-
  Reading JSON, strictly: no comments, no comma behind the last item, no leading zeros, no bare
  control characters in strings, and nothing but blanks behind the document.
-/

namespace Naskah.Json.Read

def isSpace (c : Char) : Bool :=
  c == ' ' || c == '\n' || c == '\t' || c == '\r'

def skipSpaces (cs : List Char) : List Char :=
  cs.dropWhile isSpace

theorem skipSpaces_length (cs : List Char) : (skipSpaces cs).length ≤ cs.length :=
  (List.dropWhile_suffix isSpace).length_le

/-- What is read from the start of a text, with less of it left. -/
structure Taken (α : Type) (n : Nat) where
  value : α
  rest : List Char
  shorter : rest.length < n

/-- The value of a hexadecimal digit. -/
def hexValue? (c : Char) : Option Nat :=
  if c.isDigit then some (c.toNat - '0'.toNat)
  else if 'a' ≤ c ∧ c ≤ 'f' then some (c.toNat - 'a'.toNat + 10)
  else if 'A' ≤ c ∧ c ≤ 'F' then some (c.toNat - 'A'.toNat + 10)
  else none

/-- The number that four hexadecimal digits spell. -/
def hex4? (a b c d : Char) : Option Nat := do
  return 4096 * (← hexValue? a) + 256 * (← hexValue? b) + 16 * (← hexValue? c) + (← hexValue? d)

/-- The characters that a backslash and one character stand for. -/
def shortEscape? : Char → Option Char
  | '"' => some '"'
  | '\\' => some '\\'
  | '/' => some '/'
  | 'b' => some '\x08'
  | 'f' => some '\x0c'
  | 'n' => some '\n'
  | 'r' => some '\r'
  | 't' => some '\t'
  | _ => none

/-- The code points behind an opening quote and the text behind the closing one. An escape may give
    half a surrogate pair; a bare character never is one. -/
def codes : List Char → Option (List Nat × List Char)
  | [] => none
  | '"' :: r => some ([], r)
  | '\\' :: 'u' :: a :: b :: c :: d :: r =>
    match hex4? a b c d, codes r with
    | some n, some (ns, rest) => some (n :: ns, rest)
    | _, _ => none
  | '\\' :: c :: r =>
    match shortEscape? c, codes r with
    | some ch, some (ns, rest) => some (ch.toNat :: ns, rest)
    | _, _ => none
  | c :: r =>
    if c.toNat < 0x20 ∨ c = '\\' then none
    else
      match codes r with
      | some (ns, rest) => some (c.toNat :: ns, rest)
      | none => none

theorem codes_shorter {cs rest : List Char} {ns : List Nat} (h : codes cs = some (ns, rest)) :
    rest.length < cs.length := by
  fun_induction codes cs generalizing ns with
  | case1 => simp at h
  | case2 r => simp_all
  | case3 a b c d r n _ _ hr _ ih =>
    obtain ⟨rfl, rfl⟩ := by simpa using h
    have := ih hr
    simp only [List.length_cons]
    omega
  | case4 => simp at h
  | case5 c r _ ch _ _ hr _ ih =>
    obtain ⟨rfl, rfl⟩ := by simpa using h
    have := ih hr
    simp only [List.length_cons]
    omega
  | case6 => simp at h
  | case7 => simp at h
  | case8 c r _ _ _ _ _ _ hr ih =>
    obtain ⟨rfl, rfl⟩ := by simpa using h
    have := ih hr
    simp only [List.length_cons]
    omega
  | case9 => simp at h

/-- The characters of code points; two halves of a surrogate pair make one character, and a half
    that stands alone makes none. -/
def joinCodes : List Nat → Option (List Char)
  | [] => some []
  | n :: rest =>
    if 0xd800 ≤ n ∧ n < 0xdc00 then
      match rest with
      | m :: rest =>
        if 0xdc00 ≤ m ∧ m < 0xe000 then
          (joinCodes rest).map (Char.ofNat (0x10000 + 0x400 * (n - 0xd800) + (m - 0xdc00)) :: ·)
        else none
      | [] => none
    else if 0xdc00 ≤ n ∧ n < 0xe000 then none
    else (joinCodes rest).map (Char.ofNat n :: ·)

/-- The rest of a string behind its opening quote. -/
def string? (cs : List Char) : Option (Taken (Option String) cs.length) :=
  match _h : codes cs with
  | some (ns, rest) => some ⟨(joinCodes ns).map .ofList, rest, codes_shorter _h⟩
  | none => none

/-- The whole part of a numeral: `0`, or digits that do not start with it. -/
def wholePart? (cs : List Char) : Option (List Char × List Char) :=
  match cs with
  | '0' :: r => some (['0'], r)
  | _ =>
    let (ds, r) := cs.span Char.isDigit
    if ds.isEmpty then none else some (ds, r)

/-- The point and the digits behind it, if there is a point. -/
def fraction? (cs : List Char) : Option (List Char × List Char) :=
  match cs with
  | '.' :: r =>
    let (ds, r) := r.span Char.isDigit
    if ds.isEmpty then none else some ('.' :: ds, r)
  | _ => some ([], cs)

/-- The sign that an exponent may have. -/
def sign : List Char → List Char × List Char
  | '+' :: r => (['+'], r)
  | '-' :: r => (['-'], r)
  | cs => ([], cs)

/-- The exponent, if there is one. -/
def exponent? (cs : List Char) : Option (List Char × List Char) :=
  match cs with
  | [] => some ([], [])
  | c :: r =>
    if c = 'e' ∨ c = 'E' then
      let (s, r) := sign r
      let (ds, r) := r.span Char.isDigit
      if ds.isEmpty then none else some (c :: (s ++ ds), r)
    else some ([], cs)

/-- A numeral and what follows it. -/
def numeral? (cs : List Char) : Option (List Char × List Char) := do
  let (minus, r) := match cs with
    | '-' :: r => (['-'], r)
    | _ => ([], cs)
  let (whole, r) ← wholePart? r
  let (fraction, r) ← fraction? r
  let (exponent, r) ← exponent? r
  return (minus ++ whole ++ fraction ++ exponent, r)

/-- The text behind a word that has to come next. -/
def word? (w cs : List Char) : Option (List Char) :=
  if w.isPrefixOf cs then some (cs.drop w.length) else none

/-- Anything that is not a string, an array or an object. -/
def scalar? (cs : List Char) : Option (Json × List Char) :=
  match cs with
  | 'n' :: _ => (word? ['n', 'u', 'l', 'l'] cs).map (null, ·)
  | 't' :: _ => (word? ['t', 'r', 'u', 'e'] cs).map (boolean true, ·)
  | 'f' :: _ => (word? ['f', 'a', 'l', 's', 'e'] cs).map (boolean false, ·)
  | _ => (numeral? cs).map fun (n, r) => (number (.ofList n), r)

/-- A scalar, if something has been read. -/
def taken? (cs : List Char) : Option (Taken Json cs.length) :=
  match scalar? cs with
  | none => none
  | some (j, rest) => if h : rest.length < cs.length then some ⟨j, rest, h⟩ else none

mutual

/-- A value, blanks before it skipped. -/
def value? (cs : List Char) : Option (Taken Json cs.length) :=
  have le := skipSpaces_length cs
  match _h : skipSpaces cs with
  | '"' :: r =>
    match string? r with
    | none => none
    | some s => some ⟨string s.value, s.rest, by
        have := s.shorter; rw [_h, List.length_cons] at le; omega⟩
  | '[' :: r =>
    match _h' : skipSpaces r with
    | ']' :: r' => some ⟨array [], r', by
        have := skipSpaces_length r
        rw [_h', List.length_cons] at this; rw [_h, List.length_cons] at le; omega⟩
    | _ =>
      match items? r with
      | none => none
      | some items => some ⟨array items.value, items.rest, by
          have := items.shorter; rw [_h, List.length_cons] at le; omega⟩
  | '{' :: r =>
    match _h' : skipSpaces r with
    | '}' :: r' => some ⟨object [], r', by
        have := skipSpaces_length r
        rw [_h', List.length_cons] at this; rw [_h, List.length_cons] at le; omega⟩
    | _ =>
      match members? r with
      | none => none
      | some members => some ⟨object members.value, members.rest, by
          have := members.shorter; rw [_h, List.length_cons] at le; omega⟩
  | cs' =>
    match taken? cs' with
    | none => none
    | some t => some ⟨t.value, t.rest, by have := t.shorter; rw [_h] at le; omega⟩
termination_by (cs.length, 0)
decreasing_by
  all_goals
    rw [_h, List.length_cons] at le
    exact Prod.Lex.left _ _ (by omega)

/-- The items of an array, at least one, and the bracket that closes it. -/
def items? (cs : List Char) : Option (Taken (List Json) cs.length) :=
  match value? cs with
  | none => none
  | some first =>
    have lt := first.shorter
    have le := skipSpaces_length first.rest
    match _h : skipSpaces first.rest with
    | ']' :: r => some ⟨[first.value], r, by rw [_h, List.length_cons] at le; omega⟩
    | ',' :: r =>
      match items? r with
      | none => none
      | some more => some ⟨first.value :: more.value, more.rest, by
          have := more.shorter; rw [_h, List.length_cons] at le; omega⟩
    | _ => none
termination_by (cs.length, 1)
decreasing_by
  · exact Prod.Lex.right _ (by omega)
  · rw [_h, List.length_cons] at le
    exact Prod.Lex.left _ _ (by omega)

/-- The members of an object, at least one, and the brace that closes it. -/
def members? (cs : List Char) : Option (Taken (List (Option String × Json)) cs.length) :=
  have le₀ := skipSpaces_length cs
  match _h₀ : skipSpaces cs with
  | '"' :: r₀ =>
    match string? r₀ with
    | none => none
    | some name =>
      have lt₁ := name.shorter
      have le₁ := skipSpaces_length name.rest
      match _h₁ : skipSpaces name.rest with
      | ':' :: r₁ =>
        match value? r₁ with
        | none => none
        | some v =>
          have lt₂ := v.shorter
          have le₂ := skipSpaces_length v.rest
          match _h₂ : skipSpaces v.rest with
          | '}' :: r => some ⟨[(name.value, v.value)], r, by
              rw [_h₀, List.length_cons] at le₀; rw [_h₁, List.length_cons] at le₁
              rw [_h₂, List.length_cons] at le₂; omega⟩
          | ',' :: r =>
            match members? r with
            | none => none
            | some more => some ⟨(name.value, v.value) :: more.value, more.rest, by
                have := more.shorter
                rw [_h₀, List.length_cons] at le₀; rw [_h₁, List.length_cons] at le₁
                rw [_h₂, List.length_cons] at le₂; omega⟩
          | _ => none
      | _ => none
  | _ => none
termination_by (cs.length, 1)
decreasing_by
  · rw [_h₀, List.length_cons] at le₀; rw [_h₁, List.length_cons] at le₁
    exact Prod.Lex.left _ _ (by omega)
  · rw [_h₀, List.length_cons] at le₀; rw [_h₁, List.length_cons] at le₁
    rw [_h₂, List.length_cons] at le₂
    exact Prod.Lex.left _ _ (by omega)

end

end Read

open Read in
/-- Reads a document, with nothing but blanks around it. -/
def read? (source : String) : Option Json :=
  match value? source.toList with
  | none => none
  | some t => if (skipSpaces t.rest).isEmpty then some t.value else none

end Naskah.Json
