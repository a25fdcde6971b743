import Naskah.Token.Scan

/-
  Lexemes: the texts that make one token each. A lexeme is a sign, a run of digits and points, a
  word, or a quoted text. `Lexeme cs k` says that `cs` is a lexeme of the token kind `k`, without a
  word on how it is found. Found it is by `Scan.lexeme`, which always takes the longest lexeme
  (`lexeme_eq_ok`, `lexeme_eq_error`).
-/

namespace Naskah

/-- The text between the quotes of a string, and the content that it stands for. -/
inductive Quoted : List Char → List Char → Prop
  | nil : Quoted [] []
  | plain {c : Char} {body content : List Char} (hq : c ≠ '"') (hb : c ≠ '\\') :
      Quoted body content → Quoted (c :: body) (c :: content)
  | lineBreak {body content : List Char} :
      Quoted body content → Quoted ('\\' :: 'n' :: body) ('\n' :: content)
  | tab {body content : List Char} :
      Quoted body content → Quoted ('\\' :: 't' :: body) ('\t' :: content)
  | backslash {body content : List Char} :
      Quoted body content → Quoted ('\\' :: '\\' :: body) ('\\' :: content)
  | quote {body content : List Char} :
      Quoted body content → Quoted ('\\' :: '"' :: body) ('"' :: content)
  /-- A pair that is no escape stands for itself. -/
  | pair {c : Char} {body content : List Char} (h : c ∉ ['n', 't', '\\', '"']) :
      Quoted body content → Quoted ('\\' :: c :: body) ('\\' :: c :: content)

/-- The text of one token, and its kind. -/
inductive Lexeme : List Char → Token.Kind → Prop
  | symbol (s : Symbol) : Lexeme s.spelling.toList (.symbol s)
  | number {cs : List Char} (hne : cs ≠ []) (h : ∀ c ∈ cs, Scan.isNumberChar c = true) :
      Lexeme cs (.number (.ofList cs))
  | keyword (k : Keyword) : Lexeme k.word.toList (.keyword k)
  /-- A word that does not start with an ASCII digit and is not reserved. -/
  | identifier {c : Char} {cs : List Char} (hd : c.isDigit = false)
      (h : ∀ d ∈ c :: cs, Text.isWordChar d = true)
      (hr : ∀ k : Keyword, k.word ≠ .ofList (c :: cs)) :
      Lexeme (c :: cs) (.identifier (.ofList (c :: cs)))
  | string {body content : List Char} (h : Quoted body content) :
      Lexeme ('"' :: body ++ ['"']) (.string (.ofList content))

/-- The characters that, right behind a lexeme of the kind, would make it longer. -/
def Token.Kind.grows : Token.Kind → Char → Bool
  | .symbol .equals, c => c == '='
  | .symbol .bang, c => c == '='
  | .symbol .greater, c => c == '='
  | .symbol .less, c => c == '='
  | .symbol _, _ => false
  | .number _, c => Scan.isNumberChar c
  | .string _, _ => false
  | .identifier _, c => Text.isWordChar c
  | .keyword _, c => Text.isWordChar c

/-- A text that starts with no lexeme, though not with a separator, and the complaint about it. -/
inductive Stuck : List Char → (line : Nat) → LexError → Prop
  | invalid {c : Char} {r : List Char} {line : Nat} (hs : Scan.isSpace c = false)
      (h : ∀ cs k, ¬ Lexeme (c :: cs) k) : Stuck (c :: r) line (.invalidCharacter c line)
  | unclosed {r : List Char} {line : Nat}
      (h : ∀ body content rest, Quoted body content → r ≠ body ++ '"' :: rest) :
      Stuck ('"' :: r) line (.unclosedString line)

namespace Scan

/-! ## Quoted texts -/

theorem quoted_pair {body content : List Char} (h : Quoted body content) (c : Char) :
    Quoted ('\\' :: c :: body) (escape c ++ content) := by
  unfold escape
  split
  · exact .lineBreak h
  · exact .tab h
  · exact .backslash h
  · exact .quote h
  · next h1 h2 h3 h4 =>
    exact .pair (by simpa using ⟨h1, h2, h3, h4⟩) h

theorem escape_of_not_mem {c : Char} (h : c ∉ ['n', 't', '\\', '"']) : escape c = ['\\', c] := by
  simp only [List.mem_cons, List.not_mem_nil, or_false, not_or] at h
  unfold escape
  split <;> simp_all

/-- A quoted text is read up to its closing quote. -/
theorem quoted_append {body content : List Char} (h : Quoted body content) (rest : List Char) :
    quoted (body ++ '"' :: rest) = (some content, body.length + 1) := by
  induction h with
  | nil => rfl
  | @plain c body content hq hb _ ih =>
    rw [List.cons_append, quoted.eq_4 _ _ hq (fun _ _ h _ => hb h), ih]
    rfl
  | pair h _ ih =>
    rw [List.cons_append, List.cons_append, quoted, ih, escape_of_not_mem h]
    rfl
  | lineBreak _ ih => rw [List.cons_append, List.cons_append, quoted, ih]; rfl
  | tab _ ih => rw [List.cons_append, List.cons_append, quoted, ih]; rfl
  | backslash _ ih => rw [List.cons_append, List.cons_append, quoted, ih]; rfl
  | quote _ ih => rw [List.cons_append, List.cons_append, quoted, ih]; rfl

/-- What is read behind an opening quote is a quoted text and its closing quote. -/
theorem quoted_eq_some {r content : List Char} {n : Nat} (h : quoted r = (some content, n)) :
    ∃ body rest, r = body ++ '"' :: rest ∧ n = body.length + 1 ∧ Quoted body content := by
  induction r using quoted.induct generalizing content n with
  | case1 => simp [quoted] at h
  | case2 r =>
    simp only [quoted, Prod.mk.injEq, Option.some.injEq] at h
    obtain ⟨rfl, rfl⟩ := h
    exact ⟨[], r, rfl, rfl, .nil⟩
  | case3 c r inner? m hm ih =>
    rw [quoted, hm] at h
    simp only [Prod.mk.injEq, Option.map_eq_some_iff] at h
    obtain ⟨⟨inner, rfl, rfl⟩, rfl⟩ := h
    obtain ⟨body, rest, rfl, rfl, hb⟩ := ih hm
    exact ⟨'\\' :: c :: body, rest, rfl, rfl, quoted_pair hb c⟩
  | case4 c r hq hb inner? m hm ih =>
    rw [quoted.eq_4 _ _ hq hb, hm] at h
    simp only [Prod.mk.injEq, Option.map_eq_some_iff] at h
    obtain ⟨⟨inner, rfl, rfl⟩, rfl⟩ := h
    obtain ⟨body, rest, rfl, rfl, hbody⟩ := ih hm
    refine ⟨c :: body, rest, rfl, rfl, .plain hq ?_ hbody⟩
    -- a backslash here would be followed by a character, and taken together with it
    rintro rfl
    cases body with
    | nil => exact hb '"' rest rfl rfl
    | cons d body => exact hb d (body ++ '"' :: rest) rfl rfl

/-! ## Classes of first characters -/

theorem single?_spelling {c : Char} {s : Symbol} (h : single? c = some s) :
    s.spelling.toList = [c] ∧ ∀ d, (Token.Kind.symbol s).grows d = false := by
  unfold single? at h
  split at h <;> cases h <;> exact ⟨rfl, fun _ => rfl⟩

theorem doubling?_spelling {c : Char} {s t : Symbol} (h : doubling? c = some (s, t)) :
    s.spelling.toList = [c] ∧ t.spelling.toList = [c, '='] ∧
      (∀ d, (Token.Kind.symbol s).grows d = (d == '=')) ∧
      ∀ d, (Token.Kind.symbol t).grows d = false := by
  unfold doubling? at h
  split at h <;> cases h <;> exact ⟨rfl, rfl, fun _ => rfl, fun _ => rfl⟩

theorem single?_eq_none_of_number {c : Char} (h : isNumberChar c = true) : single? c = none := by
  unfold single?
  split <;> first | rfl | exact absurd h (by decide)

theorem doubling?_eq_none_of_number {c : Char} (h : isNumberChar c = true) :
    doubling? c = none := by
  unfold doubling?
  split <;> first | rfl | exact absurd h (by decide)

theorem single?_eq_none_of_word {c : Char} (h : Text.isWordChar c = true) : single? c = none := by
  unfold single?
  split <;> first | rfl | exact absurd h (by decide)

theorem doubling?_eq_none_of_word {c : Char} (h : Text.isWordChar c = true) :
    doubling? c = none := by
  unfold doubling?
  split <;> first | rfl | exact absurd h (by decide)

/-- A word character that is no ASCII digit starts no number. -/
theorem not_isNumberChar_of_word {c : Char} (h : Text.isWordChar c = true)
    (hd : c.isDigit = false) : isNumberChar c = false := by
  rw [isNumberChar, hd, Bool.false_or, beq_eq_false_iff_ne]
  rintro rfl
  exact absurd h (by decide)

theorem wordKind_word (k : Keyword) : wordKind k.word = .keyword k := by
  rw [wordKind, Keyword.ofWord?_eq_some.2 rfl]

theorem wordKind_of_forall_ne {w : String} (h : ∀ k : Keyword, k.word ≠ w) :
    wordKind w = .identifier w := by
  unfold wordKind
  split
  · next k hk => exact absurd (Keyword.ofWord?_eq_some.1 hk) (h k)
  · rfl

theorem wordKind_grows (w : String) (c : Char) : (wordKind w).grows c = Text.isWordChar c := by
  unfold wordKind
  split <;> rfl

/-- A word is a lexeme, whether it is reserved or not. -/
theorem lexeme_word {c : Char} {cs : List Char} (hd : c.isDigit = false)
    (h : ∀ d ∈ c :: cs, Text.isWordChar d = true) :
    Lexeme (c :: cs) (wordKind (.ofList (c :: cs))) := by
  unfold wordKind
  split
  · next k hk =>
    have hw := congrArg String.toList (Keyword.ofWord?_eq_some.1 hk)
    rw [String.toList_ofList] at hw
    exact hw ▸ .keyword k
  · next hk =>
    refine .identifier hd h fun k hw => ?_
    rw [Keyword.ofWord?_eq_some.2 hw] at hk
    cases hk

/-! ## The longest lexeme -/

theorem forall_mem_takeWhile {p : Char → Bool} {r : List Char} :
    ∀ c ∈ r.takeWhile p, p c = true :=
  List.all_eq_true.1 List.all_takeWhile

theorem forall_head?_dropWhile {p : Char → Bool} {r : List Char} :
    ∀ c ∈ (r.dropWhile p).head?, p c = false := by
  intro c hc
  have h := List.head?_dropWhile_not p r
  rw [Option.mem_def.1 hc] at h
  exact h

/-- A run of characters of one class is taken to its end. -/
theorem takeWhile_append_of_stop {p : Char → Bool} {cs rest : List Char}
    (h : ∀ c ∈ cs, p c = true) (hr : ∀ c ∈ rest.head?, p c = false) :
    (cs ++ rest).takeWhile p = cs := by
  rw [List.takeWhile_append_of_pos h]
  cases rest with
  | nil => simp
  | cons d rest => simp [hr d rfl]

/-- What is scanned is a lexeme, and the character behind it would not make it longer. -/
theorem lexeme_eq_ok {ch : Char} {r : List Char} {line n : Nat} {k : Token.Kind}
    (h : lexeme ch r line = (.ok k, n)) :
    ∃ cs rest, r = cs ++ rest ∧ n = cs.length ∧ Lexeme (ch :: cs) k ∧
      ∀ c ∈ rest.head?, k.grows c = false := by
  unfold lexeme at h
  split at h
  · next _ s hs =>
    cases h
    obtain ⟨hsp, hg⟩ := single?_spelling hs
    exact ⟨[], r, rfl, rfl, hsp ▸ .symbol s, fun c _ => hg c⟩
  · next alone doubled _ hd =>
    obtain ⟨hs, ht, hgs, hgt⟩ := doubling?_spelling hd
    split at h
    · next he =>
      cases h
      obtain ⟨rest, rfl⟩ := List.head?_eq_some_iff.1 he
      exact ⟨['='], rest, rfl, rfl, ht ▸ .symbol doubled, fun c _ => hgt c⟩
    · next he =>
      cases h
      refine ⟨[], r, rfl, rfl, hs ▸ .symbol alone, fun c hc => ?_⟩
      rw [hgs, beq_eq_false_iff_ne]
      rintro rfl
      exact he hc
  · split at h
    · next hn =>
      cases h
      refine ⟨r.takeWhile isNumberChar, r.dropWhile isNumberChar,
        List.takeWhile_append_dropWhile.symm, rfl, .number (by simp) ?_, forall_head?_dropWhile⟩
      intro c hc
      rcases List.mem_cons.1 hc with rfl | hc
      · exact hn
      · exact forall_mem_takeWhile c hc
    · next hn =>
      split at h
      · next hq =>
        split at h
        · next content m hm =>
          cases h
          obtain ⟨body, rest, rfl, rfl, hb⟩ := quoted_eq_some hm
          subst hq
          exact ⟨body ++ ['"'], rest, by simp, by simp, .string hb, fun _ _ => rfl⟩
        · cases h
      · split at h
        · next hw =>
          cases h
          have hd : ch.isDigit = false := by
            rw [Bool.not_eq_true, isNumberChar, Bool.or_eq_false_iff] at hn
            exact hn.1
          refine ⟨r.takeWhile Text.isWordChar, r.dropWhile Text.isWordChar,
            List.takeWhile_append_dropWhile.symm, rfl, lexeme_word hd ?_, fun c hc => ?_⟩
          · intro c hc
            rcases List.mem_cons.1 hc with rfl | hc
            · exact hw
            · exact forall_mem_takeWhile c hc
          · rw [wordKind_grows]
            exact forall_head?_dropWhile c hc
        · cases h

theorem lexeme_symbol (s : Symbol) {ch : Char} {cs rest : List Char} (line : Nat)
    (hs : s.spelling.toList = ch :: cs) (hr : ∀ c ∈ rest.head?, (Token.Kind.symbol s).grows c = false) :
    lexeme ch (cs ++ rest) line = (.ok (.symbol s), cs.length) := by
  have alone (d : Char) (h : ∀ c ∈ rest.head?, (c == d) = false) : rest.head? ≠ some d := by
    intro he
    simpa using h d he
  cases s <;> cases hs <;>
    first
      | rfl
      | (unfold lexeme; exact if_neg (alone '=' hr))

theorem lexeme_of_word {ch : Char} {cs rest : List Char} (line : Nat) (hd : ch.isDigit = false)
    (h : ∀ c ∈ ch :: cs, Text.isWordChar c = true)
    (hr : ∀ c ∈ rest.head?, Text.isWordChar c = false) :
    lexeme ch (cs ++ rest) line = (.ok (wordKind (.ofList (ch :: cs))), cs.length) := by
  have hw := h ch List.mem_cons_self
  have hq : ch ≠ '"' := by
    rintro rfl
    exact absurd hw (by decide)
  have hcs : ∀ c ∈ cs, Text.isWordChar c = true := fun c hc => h c (List.mem_cons_of_mem _ hc)
  simp only [lexeme, single?_eq_none_of_word hw, doubling?_eq_none_of_word hw,
    not_isNumberChar_of_word hw hd, hw, takeWhile_append_of_stop hcs hr]
  simp [hq]

theorem lexeme_quote (r : List Char) (line : Nat) :
    lexeme '"' r line =
      match quoted r with
      | (some content, n) => (.ok (.string (.ofList content)), n)
      | (none, n) => (.error (.unclosedString line), n) := rfl

/-- A lexeme is scanned as a whole, unless the character behind it would make it longer. -/
theorem lexeme_append {ch : Char} {cs rest : List Char} {k : Token.Kind} (line : Nat)
    (h : Lexeme (ch :: cs) k) (hr : ∀ c ∈ rest.head?, k.grows c = false) :
    lexeme ch (cs ++ rest) line = (.ok k, cs.length) := by
  generalize hw : ch :: cs = w at h
  cases h with
  | symbol s => exact lexeme_symbol s line hw.symm hr
  | number hne hc =>
    subst hw
    have hn := hc ch List.mem_cons_self
    have hcs : ∀ c ∈ cs, isNumberChar c = true := fun c h => hc c (List.mem_cons_of_mem _ h)
    simp only [lexeme, single?_eq_none_of_number hn, doubling?_eq_none_of_number hn, hn,
      takeWhile_append_of_stop hcs hr]
    simp
  | keyword k =>
    have hk : k.word.toList.all Text.isWordChar = true ∧
        k.word.toList.head?.all (!·.isDigit) = true := by
      cases k <;> decide
    rw [← hw] at hk
    have hd : ch.isDigit = false := by simpa using hk.2
    rw [lexeme_of_word line hd (List.all_eq_true.1 hk.1) hr, hw, String.ofList_toList,
      wordKind_word]
  | @identifier c ds hd hc hres =>
    cases hw
    rw [lexeme_of_word line hd hc hr, wordKind_of_forall_ne hres]
  | @string body content hb =>
    obtain ⟨rfl, rfl⟩ := List.cons.inj hw
    rw [lexeme_quote]
    simp [quoted_append hb]

/-- What cannot be scanned starts with no lexeme. -/
theorem lexeme_eq_error {ch : Char} {r : List Char} {line n : Nat} {e : LexError}
    (hs : isSpace ch = false) (h : lexeme ch r line = (.error e, n)) : Stuck (ch :: r) line e := by
  have stuck (cs : List Char) (k : Token.Kind) (hk : Lexeme (ch :: cs) k)
      (hc : ∀ r, (lexeme ch r line).1 = .error e) : False := by
    have h1 : lexeme ch (cs ++ []) line = (.ok k, cs.length) := lexeme_append line hk (by simp)
    rw [List.append_nil] at h1
    have h2 := hc cs
    rw [h1] at h2
    cases h2
  unfold lexeme at h
  split at h
  · cases h
  · split at h <;> cases h
  · next h1 h2 =>
    split at h
    · cases h
    · next hn =>
      split at h
      · next hq =>
        split at h
        · cases h
        · next m hm =>
          cases h
          subst hq
          refine .unclosed fun body content rest hb he => ?_
          rw [he, quoted_append hb] at hm
          cases hm
      · next hq =>
        split at h
        · cases h
        · next hw =>
          cases h
          refine .invalid hs fun cs k hk => stuck cs k hk fun r => ?_
          simp [lexeme, h1, h2, hn, hq, hw]

/-- Where the text is stuck, no lexeme is scanned. -/
theorem lexeme_of_stuck {ch : Char} {r : List Char} {line : Nat} {e : LexError}
    (h : Stuck (ch :: r) line e) : ∃ n, lexeme ch r line = (.error e, n) := by
  cases h with
  | invalid hs hno =>
    match hl : lexeme ch r line with
    | (.ok k, n) =>
      obtain ⟨cs, rest, -, -, hk, -⟩ := lexeme_eq_ok hl
      exact absurd hk (hno cs k)
    | (.error e, n) =>
      cases lexeme_eq_error hs hl with
      | invalid => exact ⟨n, rfl⟩
      | unclosed => exact absurd (.string .nil) (hno _ _)
  | unclosed hno =>
    rw [lexeme_quote]
    match hq : quoted r with
    | (some content, n) =>
      obtain ⟨body, rest, hr, -, hb⟩ := quoted_eq_some hq
      exact absurd hr (hno body content rest hb)
    | (none, n) => exact ⟨n, rfl⟩

end Scan

end Naskah
