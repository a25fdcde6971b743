import Naskah.Json.Read
import Naskah.Json.Write

/-
  Strings in JSON. Between the quotes stand characters and escapes (`Codes`), and the code points that
  they give make a text unless half of a surrogate pair stands alone (`Joins`). The reader takes these
  strings and no others (`string?_of_denotes`, `denotes_of_string?`). What is written between quotes
  denotes the text that was written (`quotes_quote`).
-/

namespace Naskah.Json

open Read (shortEscape? hex4? hexValue? codes joinCodes string?)

/-! ## The grammar -/

/-- What stands between the quotes of a string, and its code points. -/
inductive Codes : List Char → List Nat → Prop
  | nil : Codes [] []
  | bare {c : Char} {body : List Char} {ns : List Nat} :
      c ≠ '"' → c ≠ '\\' → 0x20 ≤ c.toNat → Codes body ns → Codes (c :: body) (c.toNat :: ns)
  | short {e c : Char} {body : List Char} {ns : List Nat} :
      shortEscape? e = some c → Codes body ns → Codes ('\\' :: e :: body) (c.toNat :: ns)
  | hex {a b c d : Char} {n : Nat} {body : List Char} {ns : List Nat} :
      hex4? a b c d = some n → Codes body ns →
        Codes ('\\' :: 'u' :: a :: b :: c :: d :: body) (n :: ns)

/-- The first half of the surrogate pair of a character. -/
def highHalf (c : Char) : Nat := 0xd800 + (c.toNat - 0x10000) / 0x400

/-- The second half of the surrogate pair of a character. -/
def lowHalf (c : Char) : Nat := 0xdc00 + (c.toNat - 0x10000) % 0x400

/-- Code points that make a text. A character beyond the first 65536 may come as a surrogate pair. -/
inductive Joins : List Nat → List Char → Prop
  | nil : Joins [] []
  | char {c : Char} {ns : List Nat} {cs : List Char} : Joins ns cs → Joins (c.toNat :: ns) (c :: cs)
  | pair {c : Char} {ns : List Nat} {cs : List Char} :
      0x10000 ≤ c.toNat → Joins ns cs → Joins (highHalf c :: lowHalf c :: ns) (c :: cs)

/-- What stands between the quotes of a string, and the text that it denotes, if it denotes one. -/
inductive Denotes : List Char → Option String → Prop
  | text {body : List Char} {ns : List Nat} {s : String} :
      Codes body ns → Joins ns s.toList → Denotes body (some s)
  | half {body : List Char} {ns : List Nat} :
      Codes body ns → (∀ cs, ¬Joins ns cs) → Denotes body none

/-- A string with its quotes. -/
inductive Quotes : List Char → Option String → Prop
  | around {body : List Char} {s : Option String} :
      Denotes body s → Quotes ('"' :: (body ++ ['"'])) s

namespace Read

variable {body cs rest : List Char} {ns : List Nat} {s : Option String}

/-! ## Code points -/

/-- No character is half of a surrogate pair. -/
theorem scalar_toNat (c : Char) : c.toNat < 0xd800 ∨ 0xdfff < c.toNat ∧ c.toNat < 0x110000 :=
  c.valid

theorem toNat_ofNat {n : Nat} (h : n.isValidChar) : (Char.ofNat n).toNat = n := by
  unfold Char.ofNat
  rw [dif_pos h]
  rfl

/-- One more code point in front of what has been read. -/
def consCode (n : Nat) : List Nat × List Char → List Nat × List Char
  | (ns, rest) => (n :: ns, rest)

theorem codes_short {c e : Char} (h : shortEscape? e = some c) (r : List Char) :
    codes ('\\' :: e :: r) = (codes r).map (consCode c.toNat) := by
  have hu : e ≠ 'u' := by
    rintro rfl
    cases h
  rw [codes, h]
  · cases codes r <;> rfl
  · exact fun _ _ _ _ _ he => absurd he hu

theorem codes_hex {a b c d : Char} {n : Nat} (h : hex4? a b c d = some n) (r : List Char) :
    codes ('\\' :: 'u' :: a :: b :: c :: d :: r) = (codes r).map (consCode n) := by
  rw [codes, h]
  cases codes r <;> rfl

theorem codes_bare {c : Char} (hquote : c ≠ '"') (hslash : c ≠ '\\') (hspace : 0x20 ≤ c.toNat)
    (r : List Char) : codes (c :: r) = (codes r).map (consCode c.toNat) := by
  rw [codes, if_neg]
  · cases codes r <;> rfl
  · rintro (h | h)
    · omega
    · exact hslash h
  · exact hquote
  · exact fun _ _ _ _ _ h => absurd h hslash
  · exact fun _ _ h => absurd h hslash

/-- The code points are read up to the closing quote. -/
theorem codes_of_codes (h : Codes body ns) (rest : List Char) :
    codes (body ++ '"' :: rest) = some (ns, rest) := by
  induction h with
  | nil => rfl
  | bare hquote hslash hspace _ ih =>
    rw [List.cons_append, codes_bare hquote hslash hspace, ih]
    rfl
  | short he _ ih =>
    rw [List.cons_append, List.cons_append, codes_short he, ih]
    rfl
  | hex hn _ ih =>
    simp only [List.cons_append]
    rw [codes_hex hn, ih]
    rfl

/-- What is read is in the grammar. -/
theorem exists_codes (h : codes cs = some (ns, rest)) :
    ∃ body, cs = body ++ '"' :: rest ∧ Codes body ns := by
  fun_induction codes cs generalizing ns with
  | case1 => cases h
  | case2 r =>
    obtain ⟨rfl, rfl⟩ := Prod.mk.inj (Option.some.inj h)
    exact ⟨[], rfl, .nil⟩
  | case3 a b c d r n ns' rest' hr hn ih =>
    obtain ⟨rfl, rfl⟩ := Prod.mk.inj (Option.some.inj h)
    obtain ⟨body, rfl, hbody⟩ := ih hr
    exact ⟨_, rfl, .hex hn hbody⟩
  | case4 => cases h
  | case5 e r _ c ns' rest' hr he ih =>
    obtain ⟨rfl, rfl⟩ := Prod.mk.inj (Option.some.inj h)
    obtain ⟨body, rfl, hbody⟩ := ih hr
    exact ⟨_, rfl, .short he hbody⟩
  | case6 => cases h
  | case7 => cases h
  | case8 c r hquote _ _ hc ns' rest' hr ih =>
    obtain ⟨rfl, rfl⟩ := Prod.mk.inj (Option.some.inj h)
    obtain ⟨body, rfl, hbody⟩ := ih hr
    exact ⟨_, rfl, .bare hquote (fun h0 => hc (.inr h0)) (by omega) hbody⟩
  | case9 => cases h

theorem hexValue?_lt {c : Char} {n : Nat} (h : hexValue? c = some n) : n < 16 := by
  have hle {a b : Char} (hab : a ≤ b) : a.toNat ≤ b.toNat := hab
  unfold hexValue? at h
  split at h
  case isTrue hdigit =>
    simp only [Char.isDigit, ge_iff_le, Bool.and_eq_true, decide_eq_true_eq] at hdigit
    have hnine : c.toNat ≤ '9'.toNat := hdigit.2
    obtain rfl := Option.some.inj h
    have : '9'.toNat = 57 := rfl
    have : '0'.toNat = 48 := rfl
    omega
  case isFalse =>
    split at h
    case isTrue hlower =>
      have := hle hlower.2
      obtain rfl := Option.some.inj h
      have : 'f'.toNat = 102 := rfl
      have : 'a'.toNat = 97 := rfl
      omega
    case isFalse =>
      split at h
      case isTrue hupper =>
        have := hle hupper.2
        obtain rfl := Option.some.inj h
        have : 'F'.toNat = 70 := rfl
        have : 'A'.toNat = 65 := rfl
        omega
      case isFalse => cases h

theorem hex4?_lt {a b c d : Char} {n : Nat} (h : hex4? a b c d = some n) : n < 0x10000 := by
  obtain ⟨va, ha, h⟩ := Option.bind_eq_some_iff.1 h
  obtain ⟨vb, hb, h⟩ := Option.bind_eq_some_iff.1 h
  obtain ⟨vc, hc, h⟩ := Option.bind_eq_some_iff.1 h
  obtain ⟨vd, hd, h⟩ := Option.bind_eq_some_iff.1 h
  have hsum : 4096 * va + 256 * vb + 16 * vc + vd = n := Option.some.inj h
  have := hexValue?_lt ha
  have := hexValue?_lt hb
  have := hexValue?_lt hc
  have := hexValue?_lt hd
  omega

theorem lt_of_codes (h : Codes body ns) : ∀ n ∈ ns, n < 0x110000 := by
  induction h with
  | nil => exact fun n hn => absurd hn List.not_mem_nil
  | @bare c _ _ _ _ _ _ ih =>
    have := scalar_toNat c
    exact List.forall_mem_cons.2 ⟨by omega, ih⟩
  | @short _ c _ _ _ _ ih =>
    have := scalar_toNat c
    exact List.forall_mem_cons.2 ⟨by omega, ih⟩
  | hex hn _ ih =>
    have := hex4?_lt hn
    exact List.forall_mem_cons.2 ⟨by omega, ih⟩

/-! ## Texts -/

/-- The code points of a text are joined to the text. -/
theorem joinCodes_of_joins (h : Joins ns cs) : joinCodes ns = some cs := by
  induction h with
  | nil => rfl
  | @char c ns cs _ ih =>
    have hc := scalar_toNat c
    rw [joinCodes.eq_def]
    dsimp only
    rw [if_neg (by omega), if_neg (by omega), ih, Char.ofNat_toNat]
    rfl
  | @pair c ns cs hc _ ih =>
    have hvalid := scalar_toNat c
    have hhigh : highHalf c = 0xd800 + (c.toNat - 0x10000) / 0x400 := rfl
    have hlow : lowHalf c = 0xdc00 + (c.toNat - 0x10000) % 0x400 := rfl
    have hchar : 0x10000 + 0x400 * (highHalf c - 0xd800) + (lowHalf c - 0xdc00) = c.toNat := by
      omega
    rw [joinCodes.eq_def]
    dsimp only
    rw [if_pos (by omega), if_pos (by omega), ih, hchar, Char.ofNat_toNat]
    rfl

theorem joins_of_joinCodes (hns : ∀ n ∈ ns, n < 0x110000) (h : joinCodes ns = some cs) :
    Joins ns cs := by
  fun_induction joinCodes ns generalizing cs with
  | case1 =>
    obtain rfl := Option.some.inj h
    exact .nil
  | case2 n hn m rest hm ih =>
    obtain ⟨cs', hcs', rfl⟩ := Option.map_eq_some_iff.1 h
    obtain ⟨c, hc⟩ : ∃ c, c = Char.ofNat (0x10000 + 0x400 * (n - 0xd800) + (m - 0xdc00)) := ⟨_, rfl⟩
    have htoNat : c.toNat = 0x10000 + 0x400 * (n - 0xd800) + (m - 0xdc00) := by
      rw [hc]
      exact toNat_ofNat (.inr ⟨by omega, by omega⟩)
    have hhigh : highHalf c = n := by unfold highHalf; omega
    have hlow : lowHalf c = m := by unfold lowHalf; omega
    have hjoins := Joins.pair (c := c) (by omega)
      (ih (fun k hk => hns k (.tail _ (.tail _ hk))) hcs')
    rwa [hhigh, hlow, hc] at hjoins
  | case3 => cases h
  | case4 => cases h
  | case5 => cases h
  | case6 n rest hhigh hlow ih =>
    obtain ⟨cs', hcs', rfl⟩ := Option.map_eq_some_iff.1 h
    have hn := hns n List.mem_cons_self
    have hvalid : n < 0xd800 ∨ 0xdfff < n ∧ n < 0x110000 := by omega
    have htoNat : (Char.ofNat n).toNat = n := toNat_ofNat hvalid
    have hjoins := Joins.char (c := Char.ofNat n) (ih (fun k hk => hns k (.tail _ hk)) hcs')
    rwa [htoNat] at hjoins

/-! ## Strings -/

/-- A string of the grammar is taken up to its closing quote. -/
theorem string?_of_denotes (h : Denotes body s) (rest : List Char) :
    ∃ t, string? (body ++ '"' :: rest) = some t ∧ t.value = s ∧ t.rest = rest := by
  obtain ⟨ns, hcodes, hjoin⟩ : ∃ ns, Codes body ns ∧ (joinCodes ns).map String.ofList = s := by
    cases h with
    | text hcodes hjoins =>
      refine ⟨_, hcodes, ?_⟩
      rw [joinCodes_of_joins hjoins, Option.map_some, String.ofList_toList]
    | @half ns hcodes hnone =>
      refine ⟨_, hcodes, ?_⟩
      cases hjoin : joinCodes ns with
      | none => rfl
      | some cs => exact absurd (joins_of_joinCodes (lt_of_codes hcodes) hjoin) (hnone cs)
  have hread := codes_of_codes hcodes rest
  unfold string?
  split
  case h_1 ns' rest' heq =>
    obtain ⟨rfl, rfl⟩ := Prod.mk.inj (Option.some.inj (hread.symm.trans heq))
    exact ⟨_, rfl, hjoin, rfl⟩
  case h_2 heq => cases hread.symm.trans heq

/-- What is taken is a string of the grammar. -/
theorem denotes_of_string? {t : Taken (Option String) cs.length} (h : string? cs = some t) :
    ∃ body, cs = body ++ '"' :: t.rest ∧ Denotes body t.value := by
  unfold string? at h
  split at h
  case h_1 ns rest heq =>
    obtain rfl := Option.some.inj h
    obtain ⟨body, hcs, hcodes⟩ := exists_codes heq
    refine ⟨body, hcs, ?_⟩
    cases hjoin : joinCodes ns with
    | some cs' =>
      refine .text hcodes ?_
      rw [String.toList_ofList]
      exact joins_of_joinCodes (lt_of_codes hcodes) hjoin
    | none =>
      refine .half hcodes fun cs' hjoins => ?_
      cases hjoin.symm.trans (joinCodes_of_joins hjoins)
  case h_2 => cases h

end Read

/-! ## What is written -/

theorem hexValue?_hexDigit (n : Nat) : hexValue? (hexDigit n) = some (n % 16) := by
  have hall : ∀ m < 16, hexValue? (Nat.digitChar m) = some m := by decide
  exact hall (n % 16) (Nat.mod_lt n (by decide))

theorem hex4?_hexDigit {n : Nat} (hn : n < 0x20) :
    hex4? '0' '0' (hexDigit (n / 16)) (hexDigit n) = some n := by
  have hzero : hexValue? '0' = some 0 := by decide
  have hsum : 4096 * 0 + 256 * 0 + 16 * (n / 16 % 16) + n % 16 = n := by omega
  unfold hex4?
  rw [hzero, hexValue?_hexDigit, hexValue?_hexDigit]
  exact congrArg some hsum

/-- A character is written so that it is read again. -/
theorem codes_escapeChar (c : Char) {body : List Char} {ns : List Nat} (h : Codes body ns) :
    Codes (escapeChar c ++ body) (c.toNat :: ns) := by
  have htoNat {n : Nat} (h : c.toNat = n) : c = Char.ofNat n := by rw [← h, Char.ofNat_toNat]
  unfold escapeChar
  by_cases hquote : c = '"'
  · rw [if_pos hquote, hquote]
    exact .short rfl h
  by_cases hslash : c = '\\'
  · rw [if_neg hquote, if_pos hslash, hslash]
    exact .short rfl h
  rw [if_neg hquote, if_neg hslash]
  split
  case isTrue hc => rw [hc]; exact .short rfl h
  split
  case isTrue hc => rw [hc]; exact .short rfl h
  split
  case isTrue hc => rw [hc]; exact .short rfl h
  split
  case isTrue hc => rw [htoNat hc]; exact .short rfl h
  split
  case isTrue hc => rw [htoNat hc]; exact .short rfl h
  split
  case isTrue hc => exact .hex (hex4?_hexDigit hc) h
  case isFalse hc => exact .bare hquote hslash (Nat.not_lt.1 hc) h

theorem codes_escaped (cs : List Char) : Codes (cs.flatMap escapeChar) (cs.map Char.toNat) := by
  induction cs with
  | nil => exact .nil
  | cons c cs ih => exact codes_escapeChar c ih

theorem joins_toNat (cs : List Char) : Joins (cs.map Char.toNat) cs := by
  induction cs with
  | nil => exact .nil
  | cons c cs ih => exact .char ih

/-- A text that is written between quotes denotes itself. -/
theorem quotes_quote (s : String) : Quotes (quote s) (some s) :=
  .around (.text (codes_escaped s.toList) (joins_toNat s.toList))

end Naskah.Json
