import Naskah.Proofs.Source.RoundTrip
import Naskah.Proofs.Token.Extension

/-
  Lists of tokens written as source text. A token may stand right behind another one unless its
  first character would make the other one longer, so separators are needed in few places
  (`clashes_eq_grows`). A text that has them there is cut into the spellings of the tokens
  (`Spelled.cut`), and tokenizing it gives the tokens back (`tokenize_spelled`).
-/

namespace Naskah

/-- Of the characters of a number the digits are those of words too. -/
theorem Scan.isWordChar_of_number {c : Char} (h : isNumberChar c = true) :
    Text.isWordChar c = c.isDigit := by
  rw [isNumberChar, Bool.or_eq_true] at h
  rcases h with hd | hpoint
  · have hascii : c.toNat < 0x80 := by
      simp only [Char.isDigit, Bool.and_eq_true, decide_eq_true_eq, UInt32.le_iff_toNat_le] at hd
      exact Nat.lt_of_le_of_lt hd.2 (by decide)
    rw [Text.isWordChar_ascii hascii, Char.isAlphanum, hd, Bool.or_true, Bool.or_true]
  · obtain rfl : c = '.' := by simpa using hpoint
    decide

namespace Token.Kind

/-- The kinds that tokens can have: a number is made of digits and points, at least one of them, and
    a name is a word that is not reserved. -/
def Legal : Token.Kind → Prop
  | .number digits => digits ≠ "" ∧ ∀ c ∈ digits.toList, Scan.isNumberChar c = true
  | .identifier x => IsName x
  | _ => True

/-- How a token is written. -/
def spelling : Token.Kind → List Char
  | .symbol s => s.spelling.toList
  | .number digits => digits.toList
  | .string content => '"' :: content.toList.flatMap quoteChar ++ ['"']
  | .identifier x => x.toList
  | .keyword k => k.word.toList

/-- A number, and one that starts with a digit. -/
def isNumber : Token.Kind → Bool
  | .number _ => true
  | _ => false

def startsWithDigit : Token.Kind → Bool
  | .number digits => digits.toList.head?.any Char.isDigit
  | _ => false

/-- A name or a reserved word. -/
def isWord : Token.Kind → Bool
  | .identifier _ | .keyword _ => true
  | _ => false

/-- A token of the second kind has to be kept apart from one of the first kind in front of it: `=`
    and `==` from a single `=`, `!`, `>` or `<`; a number from a number; and a word, or a number
    that starts with a digit, from a word. -/
def clashes (k l : Token.Kind) : Bool :=
  match k with
  | .symbol s =>
    s ∈ [Symbol.equals, .bang, .greater, .less] && l ∈ [.symbol .equals, .symbol .doubleEquals]
  | .number _ => l.isNumber
  | .string _ => false
  | .identifier _ | .keyword _ => l.isWord || l.startsWithDigit

variable {k l : Token.Kind}

theorem Legal.lexeme (h : k.Legal) : Lexeme k.spelling k := by
  cases k with
  | symbol s => exact .symbol s
  | keyword k => exact .keyword k
  | number digits =>
    obtain ⟨hne, hchars⟩ := h
    have hlexeme := Lexeme.number (fun hnil => hne (String.toList_eq_nil_iff.1 hnil)) hchars
    rwa [String.ofList_toList] at hlexeme
  | string content =>
    obtain ⟨k, hlexeme, hfits⟩ := (Word.Spelled.string content).lexeme trivial
    cases hfits
    exact hlexeme
  | identifier x =>
    obtain ⟨k, hlexeme, hfits⟩ := (Word.Spelled.name x).lexeme h
    cases hfits
    exact hlexeme

/-- The first character of a token tells which class it belongs to. -/
theorem Legal.head (h : l.Legal) :
    ∃ c cs, l.spelling = c :: cs ∧
      (c == '=') = decide (l ∈ [.symbol .equals, .symbol .doubleEquals]) ∧
      Scan.isNumberChar c = l.isNumber ∧ Text.isWordChar c = (l.isWord || l.startsWithDigit) := by
  cases l with
  | symbol s => cases s <;> exact ⟨_, _, rfl, by decide, by decide, by decide⟩
  | keyword k => cases k <;> exact ⟨_, _, rfl, by decide, by decide, by decide⟩
  | string content => exact ⟨'"', _, rfl, rfl, rfl, rfl⟩
  | number digits =>
    obtain ⟨hne, hchars⟩ := h
    obtain ⟨c, cs, hcs⟩ :=
      List.exists_cons_of_ne_nil fun hnil => hne (String.toList_eq_nil_iff.1 hnil)
    have hc := hchars c (hcs ▸ List.mem_cons_self)
    have hstart : startsWithDigit (.number digits) = c.isDigit := by
      simp only [startsWithDigit, hcs, List.head?_cons, Option.any_some]
    refine ⟨c, cs, hcs, ?_, hc, ?_⟩
    · rw [beq_eq_false_iff_ne.2]
      · rfl
      · rintro rfl
        exact absurd hc (by decide)
    · rw [hstart, Scan.isWordChar_of_number hc]
      rfl
  | identifier x =>
    obtain ⟨hne, hchars, hstart, -⟩ := h
    obtain ⟨c, cs, hcs⟩ :=
      List.exists_cons_of_ne_nil fun hnil => hne (String.toList_eq_nil_iff.1 hnil)
    have hc := hchars c (hcs ▸ List.mem_cons_self)
    have hd : c.isDigit = false := hstart c (by rw [hcs]; rfl)
    refine ⟨c, cs, hcs, ?_, Scan.not_isNumberChar_of_word hc hd, hc⟩
    rw [beq_eq_false_iff_ne.2]
    · rfl
    · rintro rfl
      exact absurd hc (by decide)

/-- Tokens have to be kept apart exactly if the first character of the second one would make the
    first one longer. -/
theorem clashes_eq_grows (k : Token.Kind) (h : l.Legal) :
    k.clashes l = l.spelling.head?.any k.grows := by
  obtain ⟨c, cs, hcs, hequals, hnumber, hword⟩ := h.head
  rw [hcs, List.head?_cons, Option.any_some]
  cases k with
  | symbol s => cases s <;> simp [clashes, grows, hequals]
  | number digits => exact hnumber.symm
  | string content => rfl
  | identifier x => exact hword.symm
  | keyword k => exact hword.symm

end Token.Kind

open Token.Kind (Legal)

/-- The tokens are written one after another, with separators between them that may be missing
    where the tokens do not have to be kept apart. -/
inductive Spelled : List Token.Kind → List Char → Prop
  | nil : Spelled [] []
  | one (k : Token.Kind) : Spelled [k] k.spelling
  | more {k l : Token.Kind} {ks : List Token.Kind} {gap rest : List Char} (hgap : IsGap gap)
      (apart : k.clashes l = true → gap ≠ []) (h : Spelled (l :: ks) rest) :
      Spelled (k :: l :: ks) (k.spelling ++ gap ++ rest)

/-- The text of tokens with a space where, and only where, two of them have to be kept apart. -/
def spell : List Token.Kind → List Char
  | [] => []
  | [k] => k.spelling
  | k :: l :: ks => k.spelling ++ (if k.clashes l then [' '] else []) ++ spell (l :: ks)

theorem spelled_spell (ks : List Token.Kind) : Spelled ks (spell ks) := by
  induction ks using spell.induct with
  | case1 => exact .nil
  | case2 k => exact .one k
  | case3 k l ks ih =>
    rw [spell]
    split
    case isTrue hclash => exact .more isGap_space (fun _ => List.cons_ne_nil _ _) ih
    case isFalse hclash => exact .more (fun _ h => nomatch h) (fun h => absurd h hclash) ih

/-- A text begins as its first token is written. -/
theorem Spelled.exists_append {k : Token.Kind} {ks : List Token.Kind} {cs : List Char}
    (h : Spelled (k :: ks) cs) : ∃ rest, cs = k.spelling ++ rest := by
  cases h with
  | one => exact ⟨[], (List.append_nil _).symm⟩
  | more => exact ⟨_, List.append_assoc _ _ _⟩

/-- No token is longer than it is written. -/
theorem Spelled.stops {k l : Token.Kind} {ks : List Token.Kind} {gap rest : List Char}
    (h : Spelled (l :: ks) rest) (hl : l.Legal) (hgap : IsGap gap)
    (apart : k.clashes l = true → gap ≠ []) :
    ∀ c ∈ (gap ++ rest).head?, k.grows c = false := by
  intro c hc
  cases gap with
  | cons d gap =>
    obtain rfl : d = c := Option.some.inj hc
    exact k.grows_of_isSpace (hgap d List.mem_cons_self)
  | nil =>
    obtain ⟨rest, rfl⟩ := h.exists_append
    obtain ⟨d, ds, hds, -⟩ := hl.head
    have hgrows := Token.Kind.clashes_eq_grows k hl
    rw [hds] at hc hgrows
    cases hc
    rw [← Bool.not_eq_true]
    intro hd
    rw [List.head?_cons, Option.any_some, hd] at hgrows
    exact apart hgrows rfl

/-- A text is cut into the tokens that are written. -/
theorem Spelled.cut {ks : List Token.Kind} {cs : List Char} (h : Spelled ks cs)
    (hlegal : ∀ k ∈ ks, k.Legal) :
    ∃ ps tail, cs = Piece.text ps ++ tail ∧ Piece.Cut ps tail ∧ IsGap tail ∧
      ps.map Piece.kind = ks := by
  have hnone : IsGap [] := fun _ hc => nomatch hc
  induction h with
  | nil => exact ⟨[], [], rfl, .nil, hnone, rfl⟩
  | one k =>
    have hk := (hlegal k (List.mem_singleton_self k)).lexeme
    refine ⟨[⟨[], k.spelling, k⟩], [], ?_, .cons hnone hk (fun _ hc => nomatch hc) .nil, hnone, rfl⟩
    simp only [Piece.text, List.nil_append, List.append_nil]
  | @more k l ks gap rest hgap apart hrest ih =>
    obtain ⟨hk, hmore⟩ := List.forall_mem_cons.1 hlegal
    obtain ⟨ps, tail, hps, hcut, htail, hkinds⟩ := ih hmore
    obtain ⟨qs, tail', hqs, hcut', htail', hkinds'⟩ := hcut.spaced hgap
    have hstops := hrest.stops (hmore l List.mem_cons_self) hgap apart
    rw [hps, hqs] at hstops
    refine ⟨⟨[], k.spelling, k⟩ :: qs, tail' ++ tail, ?_, .cons hnone hk.lexeme hstops hcut',
      List.forall_mem_append.2 ⟨htail', htail⟩, ?_⟩
    · rw [hps, List.append_assoc, hqs, Piece.text, List.nil_append, List.append_assoc]
    · rw [List.map_cons, hkinds', hkinds]

theorem tokenize_of_spelled {ks : List Token.Kind} {source : String}
    (h : Spelled ks source.toList) (hlegal : ∀ k ∈ ks, k.Legal) :
    ∃ ts line, tokenize source = .ok (ts, line) ∧ ts.map Token.kind = ks := by
  obtain ⟨ps, tail, hsource, hcut, htail, rfl⟩ := h.cut hlegal
  exact ⟨_, _, tokenize_of_cut hsource hcut htail, Piece.map_kind_tokens [] ps⟩

/-- A list of tokens that is written with separators at least where they are needed is given back
    by tokenizing. A space there and nothing elsewhere is one way to write it, and so every content
    of a string is read back from between its quotes. -/
theorem tokenize_spelled (ks : List Token.Kind) (hlegal : ∀ k ∈ ks, k.Legal) :
    (∀ source : String, Spelled ks source.toList →
      ∃ ts line, tokenize source = .ok (ts, line) ∧ ts.map Token.kind = ks) ∧
    Spelled ks (spell ks) ∧
    ∀ content : String, ∃ t line,
      tokenize (.ofList ('"' :: content.toList.flatMap quoteChar ++ ['"'])) = .ok ([t], line) ∧
        t.kind = .string content := by
  refine ⟨fun source h => tokenize_of_spelled h hlegal, spelled_spell ks, fun content => ?_⟩
  have hspelled := Spelled.one (.string content)
  rw [← String.toList_ofList (l := Token.Kind.spelling _)] at hspelled
  obtain ⟨ts, line, htokens, hkinds⟩ :=
    tokenize_of_spelled hspelled (List.forall_mem_singleton.2 trivial)
  obtain ⟨t, rfl, hkind⟩ := List.map_eq_singleton_iff.1 hkinds
  exact ⟨t, line, htokens, hkind⟩

/-- Tokens with a space only where two of them would run together, and a string with both escapes. -/
theorem tokenize_spelled_neighbours :
    ∃ ts line, tokenize "kalo.5 2x! ==\"a\\\"\\\\\"" = .ok (ts, line) ∧
      ts.map Token.kind = [.keyword .kalo, .number ".5", .number "2", .identifier "x",
        .symbol .bang, .symbol .doubleEquals, .string "a\"\\"] := by
  have hname : IsName "x" :=
    ⟨by decide, List.forall_mem_singleton.2 rfl, fun c hc => Option.some.inj hc ▸ rfl,
      fun k => by cases k <;> decide⟩
  have hlegal : ∀ k ∈ ([.keyword .kalo, .number ".5", .number "2", .identifier "x", .symbol .bang,
      .symbol .doubleEquals, .string "a\"\\"] : List Token.Kind), k.Legal := by
    simp only [List.forall_mem_cons]
    exact ⟨trivial, ⟨by decide, List.all_eq_true.1 (by decide)⟩,
      ⟨by decide, List.all_eq_true.1 (by decide)⟩, hname, trivial, trivial, trivial,
      fun _ h => nomatch h⟩
  obtain ⟨htokens, hspelled, -⟩ := tokenize_spelled _ hlegal
  exact htokens _ hspelled

end Naskah
