import Naskah.Proofs.Token.Lexeme
import Naskah.Token.Feed

/-
  Tokenizing is cutting the text into pieces: separators and one lexeme, over and over, each lexeme
  as long as it can be. `tokenize_eq_iff_cut` says that `tokenize` returns the tokens of these
  pieces, with the lines on which they start, and that it fails exactly where the text goes on with
  something that is no lexeme.
-/

namespace Naskah

/-- The line of a character, given the text before it. -/
def lineBehind (passed : List Char) : Nat :=
  passed.count '\n' + 1

namespace Cursor

/-- The cursor that has passed one text and has another ahead. -/
def behind (passed rest : List Char) : Cursor :=
  ⟨rest, lineBehind passed.dropLast, passed.getLast? == some '\n'⟩

@[simp] theorem behind_rest (passed rest : List Char) : (behind passed rest).rest = rest := rfl

@[simp] theorem behind_line (passed rest : List Char) :
    (behind passed rest).line = lineBehind passed.dropLast := rfl

theorem start_eq_behind (source : String) : start source = behind [] source.toList := rfl

@[simp] theorem lineAhead_behind (passed rest : List Char) :
    (behind passed rest).lineAhead = lineBehind passed := by
  rcases List.eq_nil_or_concat passed with rfl | ⟨cs, c, rfl⟩
  · rfl
  · by_cases hc : c = '\n' <;> simp [behind, lineAhead, lineBehind, hc]

theorem advance_behind (passed rest : List Char) (c : Char) :
    (behind passed (c :: rest)).advance = behind (passed ++ [c]) rest := by
  have h : (behind passed (c :: rest)).advance =
      ⟨rest, (behind passed (c :: rest)).lineAhead, c == '\n'⟩ := rfl
  rw [h, lineAhead_behind]
  simp [behind]

theorem skip_behind (passed cs rest : List Char) :
    (behind passed (cs ++ rest)).skip cs.length = behind (passed ++ cs) rest := by
  induction cs generalizing passed with
  | nil => simp [skip]
  | cons c cs ih =>
    rw [List.length_cons, skip, List.cons_append, advance_behind, ih, List.append_assoc]
    rfl

end Cursor

/-! ## Scanning at a lexeme -/

/-- A text of separators only. -/
def IsGap (cs : List Char) : Prop :=
  ∀ c ∈ cs, Scan.isSpace c = true

theorem Scan.isSpace_cases {c : Char} (h : Scan.isSpace c = true) :
    c = ' ' ∨ c = '\n' ∨ c = '\t' ∨ c = '\r' := by
  simpa [Scan.isSpace, or_assoc] using h

/-- A separator ends every lexeme. -/
theorem Token.Kind.grows_of_isSpace (k : Token.Kind) {c : Char} (h : Scan.isSpace c = true) :
    k.grows c = false := by
  unfold grows
  rcases Scan.isSpace_cases h with rfl | rfl | rfl | rfl <;> split <;> rfl

/-- A lexeme is not empty and starts with no separator. -/
theorem Lexeme.head {cs : List Char} {k : Token.Kind} (h : Lexeme cs k) :
    ∃ c ds, cs = c :: ds ∧ Scan.isSpace c = false := by
  have hw (c : Char) (hc : Text.isWordChar c = true ∨ Scan.isNumberChar c = true) :
      Scan.isSpace c = false := by
    rw [← Bool.not_eq_true]
    intro hs
    rcases Scan.isSpace_cases hs with rfl | rfl | rfl | rfl <;>
      exact absurd hc (by decide)
  cases h with
  | symbol s => cases s <;> exact ⟨_, _, rfl, rfl⟩
  | number hne h =>
    obtain ⟨c, ds, rfl⟩ := List.exists_cons_of_ne_nil hne
    exact ⟨c, ds, rfl, hw c (.inr (h c List.mem_cons_self))⟩
  | keyword k => cases k <;> exact ⟨_, _, rfl, rfl⟩
  | @identifier c cs _ h _ => exact ⟨c, cs, rfl, hw c (.inl (h c List.mem_cons_self))⟩
  | string _ => exact ⟨'"', _, rfl, rfl⟩

namespace Cursor

theorem skipSpaces_behind {gap : List Char} (passed rest : List Char) (hg : IsGap gap)
    (hr : ∀ c ∈ rest.head?, Scan.isSpace c = false) :
    (behind passed (gap ++ rest)).skipSpaces = behind (passed ++ gap) rest := by
  rw [skipSpaces, behind_rest, Scan.takeWhile_append_of_stop hg hr, skip_behind]

theorem scan_gap {gap : List Char} (passed : List Char) (hg : IsGap gap) :
    (behind passed gap).scan =
      (.finish (lineBehind (passed ++ gap).dropLast), behind (passed ++ gap) []) := by
  have h := skipSpaces_behind passed [] hg (by simp)
  rw [List.append_nil] at h
  simp only [scan, h]
  rfl

theorem scan_lexeme {gap cs rest : List Char} {k : Token.Kind} (passed : List Char)
    (hg : IsGap gap) (hl : Lexeme cs k) (hr : ∀ c ∈ rest.head?, k.grows c = false) :
    (behind passed (gap ++ cs ++ rest)).scan =
      (.token ⟨k, lineBehind (passed ++ gap)⟩, behind (passed ++ gap ++ cs) rest) := by
  obtain ⟨c, ds, rfl, hs⟩ := hl.head
  have h := skipSpaces_behind passed (c :: ds ++ rest) hg (by simpa using hs)
  have hk := skip_behind (passed ++ gap) (c :: ds) rest
  rw [List.cons_append] at h hk
  rw [List.append_assoc, List.cons_append]
  simp only [scan, h, behind_rest, lineAhead_behind, Scan.lexeme_append _ hl hr]
  rw [← List.length_cons, hk]

theorem scan_stuck {gap rest : List Char} {e : LexError} (passed : List Char) (hg : IsGap gap)
    (hs : Stuck rest (lineBehind (passed ++ gap)) e) :
    (behind passed (gap ++ rest)).scan.1 = .fault e := by
  have hh : ∃ c r, rest = c :: r ∧ Scan.isSpace c = false := by
    cases hs with
    | @invalid c r _ hc _ => exact ⟨c, r, rfl, hc⟩
    | @unclosed r _ _ => exact ⟨'"', r, rfl, rfl⟩
  obtain ⟨c, r, rfl, hc⟩ := hh
  have h := skipSpaces_behind passed (c :: r) hg (by simpa using hc)
  obtain ⟨n, hn⟩ := Scan.lexeme_of_stuck hs
  simp only [scan, h, behind_rest, lineAhead_behind, hn]

end Cursor

/-! ## Pieces -/

/-- A lexeme of the given kind and the separators before it. -/
structure Piece where
  gap : List Char
  spelling : List Char
  kind : Token.Kind

namespace Piece

/-- The text of pieces put together. -/
def text : List Piece → List Char
  | [] => []
  | p :: ps => p.gap ++ p.spelling ++ text ps

/-- The tokens of pieces that stand behind a text. -/
def tokens (passed : List Char) : List Piece → List Token
  | [] => []
  | p :: ps =>
    ⟨p.kind, lineBehind (passed ++ p.gap)⟩ :: tokens (passed ++ p.gap ++ p.spelling) ps

/-- Pieces are cut off a text that goes on with `rest`: separators and a lexeme that could not be
    longer where it stands, over and over. -/
inductive Cut : List Piece → (rest : List Char) → Prop
  | nil {rest : List Char} : Cut [] rest
  | cons {p : Piece} {ps : List Piece} {rest : List Char} (gap : IsGap p.gap)
      (lexeme : Lexeme p.spelling p.kind)
      (longest : ∀ c ∈ (text ps ++ rest).head?, p.kind.grows c = false) (more : Cut ps rest) :
      Cut (p :: ps) rest

theorem map_kind_tokens (passed : List Char) (ps : List Piece) :
    (tokens passed ps).map Token.kind = ps.map Piece.kind := by
  induction ps generalizing passed with
  | nil => rfl
  | cons p ps ih => rw [tokens, List.map_cons, List.map_cons, ih]

/-- Every text can be cut up to its end or to a place where it is stuck. -/
theorem exists_cut (cs : List Char) :
    ∃ ps gap rest, cs = text ps ++ gap ++ rest ∧ Cut ps (gap ++ rest) ∧ IsGap gap ∧
      (rest = [] ∨ ∀ line, ∃ e, Stuck rest line e) := by
  have hsplit : cs = cs.takeWhile Scan.isSpace ++ cs.dropWhile Scan.isSpace :=
    List.takeWhile_append_dropWhile.symm
  have hgap : IsGap (cs.takeWhile Scan.isSpace) := Scan.forall_mem_takeWhile
  match hr : cs.dropWhile Scan.isSpace with
  | [] =>
    rw [hr, List.append_nil] at hsplit
    exact ⟨[], cs.takeWhile Scan.isSpace, [], by simpa [text] using hsplit, .nil, hgap, .inl rfl⟩
  | c :: r =>
    rw [hr] at hsplit
    have hc : Scan.isSpace c = false :=
      Scan.forall_head?_dropWhile c (by rw [hr]; rfl)
    match hl : Scan.lexeme c r 1 with
    | (.ok k, n) =>
      obtain ⟨ds, rest, rfl, -, hlex, hlong⟩ := Scan.lexeme_eq_ok hl
      have hlt : rest.length < cs.length := by
        rw [hsplit]
        simp
        omega
      obtain ⟨ps, gap, stuck, rfl, hcut, hg, hend⟩ := exists_cut rest
      refine ⟨⟨cs.takeWhile Scan.isSpace, c :: ds, k⟩ :: ps, gap, stuck, ?_, ?_, hg, hend⟩
      · exact hsplit.trans (by simp [text])
      · exact .cons hgap hlex (by simpa using hlong) hcut
    | (.error e, n) =>
      refine ⟨[], cs.takeWhile Scan.isSpace, c :: r, by simpa [text] using hsplit, .nil, hgap,
        .inr fun line => ?_⟩
      match hl' : Scan.lexeme c r line with
      | (.ok k, _) =>
        obtain ⟨ds, rest, rfl, -, hlex, hlong⟩ := Scan.lexeme_eq_ok hl'
        rw [Scan.lexeme_append 1 hlex hlong] at hl
        cases hl
      | (.error e, _) => exact ⟨e, Scan.lexeme_eq_error hc hl'⟩
termination_by cs.length

end Piece

/-! ## The tokens of a text -/

namespace Feed

theorem ofCursor_finish {c c' : Cursor} {line : Nat} (h : c.scan = (.finish line, c')) :
    ofCursor c = .ok (.finish line) := by
  rw [ofCursor]
  split <;> simp_all

theorem ofCursor_fault {c c' : Cursor} {e : LexError} (h : c.scan = (.fault e, c')) :
    ofCursor c = .error e := by
  rw [ofCursor]
  split <;> simp_all

theorem ofCursor_token {c c' : Cursor} {t : Token} (h : c.scan = (.token t, c')) :
    ofCursor c =
      match ofCursor c' with
      | .ok rest => .ok (.token t rest)
      | .error e => .ok (.faulty t e) := by
  rw [ofCursor]
  split
  · simp_all
  · simp_all
  · next t₁ c₁ h₁ =>
    rw [h, Prod.mk.injEq, Scan.token.injEq] at h₁
    obtain ⟨rfl, rfl⟩ := h₁
    rfl

/-- All tokens behind a cursor and the line of the end. -/
def tokensBehind (c : Cursor) : Except LexError (List Token × Nat) :=
  (ofCursor c).bind tokens

theorem tokenize_eq (source : String) : tokenize source = tokensBehind (.start source) := rfl

theorem tokensBehind_finish {c c' : Cursor} {line : Nat} (h : c.scan = (.finish line, c')) :
    tokensBehind c = .ok ([], line) := by
  rw [tokensBehind, ofCursor_finish h]
  rfl

theorem tokensBehind_fault {c c' : Cursor} {e : LexError} (h : c.scan = (.fault e, c')) :
    tokensBehind c = .error e := by
  rw [tokensBehind, ofCursor_fault h]
  rfl

theorem tokensBehind_token {c c' : Cursor} {t : Token} (h : c.scan = (.token t, c')) :
    tokensBehind c = (tokensBehind c').map fun (ts, line) => (t :: ts, line) := by
  rw [tokensBehind, ofCursor_token h, tokensBehind]
  cases ofCursor c' <;> rfl

theorem tokensBehind_cut {ps : List Piece} {rest : List Char} (h : Piece.Cut ps rest)
    (passed : List Char) :
    tokensBehind (.behind passed (Piece.text ps ++ rest)) =
      (tokensBehind (.behind (passed ++ Piece.text ps) rest)).map
        fun (ts, line) => (Piece.tokens passed ps ++ ts, line) := by
  induction h generalizing passed with
  | nil =>
    simp only [Piece.text, Piece.tokens, List.nil_append, List.append_nil]
    cases tokensBehind (.behind passed _) <;> rfl
  | @cons p ps rest hg hl hlong _ ih =>
    have hs := Cursor.scan_lexeme passed hg hl hlong
    rw [Piece.text, List.append_assoc (p.gap ++ p.spelling), tokensBehind_token hs, ih]
    simp only [List.append_assoc, Piece.tokens]
    cases tokensBehind (.behind _ rest) <;> rfl

theorem tokensBehind_cut_gap {ps : List Piece} {gap : List Char} (passed : List Char)
    (h : Piece.Cut ps gap) (hg : IsGap gap) :
    tokensBehind (.behind passed (Piece.text ps ++ gap)) =
      .ok (Piece.tokens passed ps, lineBehind (passed ++ (Piece.text ps ++ gap)).dropLast) := by
  rw [tokensBehind_cut h, tokensBehind_finish (Cursor.scan_gap _ hg), List.append_assoc]
  simp [Except.map]

theorem tokensBehind_cut_stuck {ps : List Piece} {gap rest : List Char} {e : LexError}
    (passed : List Char) (h : Piece.Cut ps (gap ++ rest)) (hg : IsGap gap)
    (hs : Stuck rest (lineBehind (passed ++ Piece.text ps ++ gap)) e) :
    tokensBehind (.behind passed (Piece.text ps ++ gap ++ rest)) = .error e := by
  rw [List.append_assoc, tokensBehind_cut h,
    tokensBehind_fault (Prod.ext (Cursor.scan_stuck _ hg hs) rfl)]
  rfl

end Feed

/-- A text that consists of pieces and separators is tokenized. -/
theorem tokenize_of_cut {source : String} {ps : List Piece} {gap : List Char}
    (hs : source.toList = Piece.text ps ++ gap) (hc : Piece.Cut ps gap) (hg : IsGap gap) :
    tokenize source = .ok (Piece.tokens [] ps, lineBehind source.toList.dropLast) := by
  rw [Feed.tokenize_eq, Cursor.start_eq_behind, hs, Feed.tokensBehind_cut_gap [] hc hg]
  rfl

/-- A text that goes on, behind pieces and separators, with no lexeme is refused. -/
theorem tokenize_of_stuck {source : String} {ps : List Piece} {gap rest : List Char} {e : LexError}
    (hs : source.toList = Piece.text ps ++ gap ++ rest) (hc : Piece.Cut ps (gap ++ rest))
    (hg : IsGap gap) (he : Stuck rest (lineBehind (Piece.text ps ++ gap)) e) :
    tokenize source = .error e := by
  rw [Feed.tokenize_eq, Cursor.start_eq_behind, hs]
  exact Feed.tokensBehind_cut_stuck [] hc hg he

/-- Tokenizing returns the tokens of the pieces of which the whole text consists, each with the
    line of its first character, and the line of the last character of the text. It fails exactly
    where, behind such pieces and separators, the text goes on with no lexeme. -/
theorem tokenize_eq_iff_cut (source : String) :
    (∀ ts line, tokenize source = .ok (ts, line) ↔
      ∃ ps gap, source.toList = Piece.text ps ++ gap ∧ Piece.Cut ps gap ∧ IsGap gap ∧
        ts = Piece.tokens [] ps ∧ line = lineBehind source.toList.dropLast) ∧
    (∀ e, tokenize source = .error e ↔
      ∃ ps gap rest, source.toList = Piece.text ps ++ gap ++ rest ∧ Piece.Cut ps (gap ++ rest) ∧
        IsGap gap ∧ Stuck rest (lineBehind (Piece.text ps ++ gap)) e) := by
  obtain ⟨ps, gap, rest, hs, hc, hg, hend⟩ := Piece.exists_cut source.toList
  constructor
  · intro ts line
    constructor
    · intro h
      rcases hend with rfl | hstuck
      · rw [List.append_nil] at hs hc
        rw [tokenize_of_cut hs hc hg, Except.ok.injEq, Prod.mk.injEq] at h
        exact ⟨ps, gap, hs, hc, hg, h.1.symm, h.2.symm⟩
      · obtain ⟨e, he⟩ := hstuck (lineBehind (Piece.text ps ++ gap))
        rw [tokenize_of_stuck hs hc hg he] at h
        cases h
    · rintro ⟨ps, gap, hs, hc, hg, rfl, rfl⟩
      exact tokenize_of_cut hs hc hg
  · intro e
    constructor
    · intro h
      rcases hend with rfl | hstuck
      · rw [List.append_nil] at hs hc
        rw [tokenize_of_cut hs hc hg] at h
        cases h
      · obtain ⟨e', he⟩ := hstuck (lineBehind (Piece.text ps ++ gap))
        rw [tokenize_of_stuck hs hc hg he, Except.error.injEq] at h
        exact ⟨ps, gap, rest, hs, hc, hg, h ▸ he⟩
    · rintro ⟨ps, gap, rest, hs, hc, hg, he⟩
      exact tokenize_of_stuck hs hc hg he

end Naskah
