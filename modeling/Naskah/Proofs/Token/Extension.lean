import Naskah.Proofs.Reading.Basic

/-
  Texts that go on behind a separator. What is cut off a text is cut off all texts that go on
  behind it with a separator (`Piece.Cut.extend`), so the tokens of a text are the first tokens of
  each such text (`tokenize_append`). A text that is refused may go on to one that is not only if it
  ends inside a string, and its feed breaks off where the other goes on
  (`ofSource_breaksOff`).
-/

namespace Naskah

theorem Piece.Cut.extend {ps : List Piece} {rest more : List Char} (h : Cut ps rest)
    (hmore : rest = [] → ∀ c ∈ more.head?, Scan.isSpace c = true) : Cut ps (rest ++ more) := by
  induction h with
  | nil => exact .nil
  | @cons p ps rest hgap hlexeme hlong _ ih =>
    refine .cons hgap hlexeme (fun c hc => ?_) (ih hmore)
    match htext : Piece.text ps ++ rest with
    | [] =>
      obtain ⟨htext, hrest⟩ := List.append_eq_nil_iff.1 htext
      rw [htext, hrest, List.nil_append, List.nil_append] at hc
      exact p.kind.grows_of_isSpace (hmore hrest c hc)
    | d :: ds =>
      rw [← List.append_assoc, htext] at hc
      exact hlong c (by rw [htext]; exact hc)

/-- A text of separators does not matter in front of pieces, as one of the first gap. -/
theorem Piece.Cut.spaced {ps : List Piece} {gap rest : List Char} (h : Cut ps rest)
    (hgap : IsGap gap) :
    ∃ qs tail, gap ++ (text ps ++ rest) = text qs ++ (tail ++ rest) ∧ Cut qs (tail ++ rest) ∧
      IsGap tail ∧ qs.map Piece.kind = ps.map Piece.kind := by
  cases h with
  | nil => exact ⟨[], gap, rfl, .nil, hgap, rfl⟩
  | @cons p ps _ hp hlexeme hlong hmore =>
    refine ⟨⟨gap ++ p.gap, p.spelling, p.kind⟩ :: ps, [], ?_, ?_, fun _ hc => (nomatch hc), rfl⟩
    · simp only [text, List.append_assoc, List.nil_append]
    · exact .cons (List.forall_mem_append.2 ⟨hgap, hp⟩) hlexeme hlong hmore

theorem isGap_space : IsGap " ".toList :=
  List.forall_mem_singleton.2 rfl

theorem IsGap.head {w : String} (hw : w ≠ "") (hgap : IsGap w.toList) (rest : List Char) :
    ∀ c ∈ (w.toList ++ rest).head?, Scan.isSpace c = true := by
  intro c hc
  have hne : w.toList ≠ [] := fun h => hw (String.toList_eq_nil_iff.1 h)
  obtain ⟨d, ds, hds⟩ := List.exists_cons_of_ne_nil hne
  rw [hds] at hc hgap
  exact Option.some.inj hc ▸ hgap d List.mem_cons_self

/-- The tokens of a text come first in a text that goes on, behind a separator, with another. -/
theorem tokenize_append {a w b : String} {ts us : List Token} {la lb : Nat} (hw : w ≠ "")
    (hgap : IsGap w.toList) (ha : tokenize a = .ok (ts, la)) (hb : tokenize b = .ok (us, lb)) :
    ∃ vs line, tokenize (a ++ w ++ b) = .ok (ts ++ vs, line) ∧
      vs.map Token.kind = us.map Token.kind := by
  obtain ⟨ps, ga, htexta, hcuta, hga, rfl, -⟩ := ((tokenize_eq_iff_cut a).1 ts la).1 ha
  obtain ⟨qs, gb, htextb, hcutb, hgb, rfl, -⟩ := ((tokenize_eq_iff_cut b).1 us lb).1 hb
  have hbetween : IsGap (ga ++ w.toList) := List.forall_mem_append.2 ⟨hga, hgap⟩
  obtain ⟨rs, gc, htextc, hcutc, hgc, hkinds⟩ := hcutb.spaced hbetween
  have hwhole : (a ++ w ++ b).toList = Piece.text ps ++ (Piece.text rs ++ (gc ++ gb)) := by
    rw [String.toList_append, String.toList_append, htexta, htextb, ← htextc]
    simp only [List.append_assoc]
  have hcut : Piece.Cut ps (Piece.text rs ++ (gc ++ gb)) := by
    rw [← htextc, List.append_assoc]
    exact hcuta.extend fun _ => hgap.head hw _
  have hend : IsGap (gc ++ gb) := List.forall_mem_append.2 ⟨hgc, hgb⟩
  have htokens := Feed.tokensBehind_cut hcut []
  rw [Feed.tokensBehind_cut_gap _ hcutc hend, ← hwhole, ← Cursor.start_eq_behind,
    ← Feed.tokenize_eq] at htokens
  refine ⟨_, _, htokens, ?_⟩
  rw [Piece.map_kind_tokens, Piece.map_kind_tokens, hkinds]

/-! ## Feeds of texts that go on -/

namespace Feed

/-- A token in front of what is scanned behind it. -/
def lead (t : Token) : Except LexError Feed → Except LexError Feed
  | .ok rest => .ok (.token t rest)
  | .error e => .ok (.faulty t e)

/-- Tokens in front of what is scanned behind them. -/
def after (ts : List Token) (x : Except LexError Feed) : Except LexError Feed :=
  ts.foldr lead x

theorem ofCursor_cut {ps : List Piece} {rest : List Char} (h : Piece.Cut ps rest)
    (passed : List Char) :
    ofCursor (.behind passed (Piece.text ps ++ rest)) =
      after (Piece.tokens passed ps) (ofCursor (.behind (passed ++ Piece.text ps) rest)) := by
  induction h generalizing passed with
  | nil => rw [Piece.text, List.append_nil, List.nil_append]; rfl
  | @cons p ps rest hgap hlexeme hlong _ ih =>
    have hscan := Cursor.scan_lexeme passed hgap hlexeme hlong
    rw [Piece.text, List.append_assoc (p.gap ++ p.spelling), ofCursor_token hscan, ih]
    simp only [List.append_assoc, Piece.tokens]
    rfl

/-- Where a text ends, its feed breaks off. -/
theorem after_finish (ts : List Token) (line : Nat) (g : Feed) :
    ∃ f h, after ts (.ok (.finish line)) = .ok f ∧ after ts (.ok g) = .ok h ∧ f.BreaksOff h ∧
      f.Complete := by
  induction ts with
  | nil => exact ⟨_, _, rfl, rfl, .finish, complete_finish line⟩
  | cons t ts ih =>
    obtain ⟨f, h, hf, hh, hbreaks, hcomplete⟩ := ih
    refine ⟨.token t f, .token t h, ?_, ?_, .token hbreaks, (Takes.one t f).complete hcomplete⟩
    · exact congrArg (lead t) hf
    · exact congrArg (lead t) hh

/-- Where the text behind some token has an error, the feed breaks off. -/
theorem after_error (t : Token) (ts : List Token) (e : LexError) (g : Feed) :
    ∃ f h, after (t :: ts) (.error e) = .ok f ∧ after (t :: ts) (.ok g) = .ok h ∧ f.BreaksOff h ∧
      f.tokens = .error e := by
  induction ts generalizing t with
  | nil => exact ⟨.faulty t e, .token t g, rfl, rfl, .faulty, rfl⟩
  | cons u ts ih =>
    obtain ⟨f, h, hf, hh, hbreaks, htokens⟩ := ih u
    refine ⟨.token t f, .token t h, ?_, ?_, .token hbreaks, (Takes.one t f).tokens_error htokens⟩
    · exact congrArg (lead t) hf
    · exact congrArg (lead t) hh

theorem exists_of_after {ts : List Token} {x : Except LexError Feed} {g : Feed}
    (h : after ts x = .ok g) (hg : g.Complete) : ∃ f, x = .ok f := by
  cases x with
  | ok f => exact ⟨f, rfl⟩
  | error e =>
    cases ts with
    | nil => cases h
    | cons t ts =>
      obtain ⟨f, -, hf, -, -, htokens⟩ := after_error t ts e (.finish 1)
      obtain ⟨us, line, hus⟩ := hg
      rw [hf] at h
      cases h
      rw [htokens] at hus
      cases hus

theorem ofCursor_gap {gap : List Char} (passed : List Char) (hg : IsGap gap) :
    ∃ line, ofCursor (.behind passed gap) = .ok (.finish line) :=
  ⟨_, ofCursor_finish (Cursor.scan_gap passed hg)⟩

theorem ofCursor_stuck {gap rest : List Char} {e : LexError} (passed : List Char) (hg : IsGap gap)
    (hs : Stuck rest (lineBehind (passed ++ gap)) e) :
    ofCursor (.behind passed (gap ++ rest)) = .error e :=
  ofCursor_fault (Prod.ext (Cursor.scan_stuck passed hg hs) rfl)

/-- Where a text ends or has an error, its feed breaks off, if a text that goes on behind it with a
    separator has no error. The error can be none but a string that is not closed. -/
theorem ofSource_breaksOff {a w b : String} {g : Feed} (hw : w ≠ "") (hgap : IsGap w.toList)
    (hg : ofSource (a ++ w ++ b) = .ok g) (hcomplete : g.Complete) :
    (∃ line, ofSource a = .error (.unclosedString line)) ∨
      ∃ f, ofSource a = .ok f ∧ f.BreaksOff g ∧
        ∀ e, f.tokens = .error e → ∃ line, e = .unclosedString line := by
  obtain ⟨ps, gap, rest, htext, hcut, hgap', hend⟩ := Piece.exists_cut a.toList
  have hwhole : (a ++ w ++ b).toList =
      Piece.text ps ++ (gap ++ rest ++ (w.toList ++ b.toList)) := by
    rw [String.toList_append, String.toList_append, htext]
    simp only [List.append_assoc]
  have hfa : ofSource a = after (Piece.tokens [] ps)
      (ofCursor (.behind (Piece.text ps) (gap ++ rest))) := by
    unfold ofSource
    rw [Cursor.start_eq_behind, htext, List.append_assoc, ofCursor_cut hcut]
    rfl
  have hfg : ofSource (a ++ w ++ b) = after (Piece.tokens [] ps)
      (ofCursor (.behind (Piece.text ps) (gap ++ rest ++ (w.toList ++ b.toList)))) := by
    unfold ofSource
    rw [Cursor.start_eq_behind, hwhole, ofCursor_cut (hcut.extend fun _ => hgap.head hw _)]
    rfl
  rw [hfg] at hg
  obtain ⟨g₀, hg₀⟩ := exists_of_after hg hcomplete
  rw [hg₀] at hg
  rcases hend with rfl | hstuck
  · obtain ⟨line, hline⟩ := ofCursor_gap (Piece.text ps) hgap'
    obtain ⟨f, h, hf, hh, hbreaks, ts, last, htokens⟩ :=
      after_finish (Piece.tokens [] ps) line g₀
    rw [hg] at hh
    cases hh
    rw [List.append_nil, hline, hf] at hfa
    refine .inr ⟨f, hfa, hbreaks, fun e he => ?_⟩
    rw [htokens] at he
    cases he
  · obtain ⟨e, he⟩ := hstuck (lineBehind (Piece.text ps ++ gap))
    have hunclosed : ∃ line, e = .unclosedString line := by
      cases he with
      | unclosed => exact ⟨_, rfl⟩
      | invalid hs hno =>
        -- What no lexeme starts with stays so, however the text goes on.
        rw [List.append_assoc, List.cons_append, ofCursor_stuck _ hgap' (.invalid hs hno)] at hg₀
        cases hg₀
    rw [ofCursor_stuck _ hgap' he] at hfa
    cases hps : Piece.tokens [] ps with
    | nil =>
      obtain ⟨line, rfl⟩ := hunclosed
      rw [hps] at hfa
      exact .inl ⟨line, hfa⟩
    | cons t ts =>
      obtain ⟨f, h, hf, hh, hbreaks, htokens⟩ := after_error t ts e g₀
      rw [hps] at hfa hg
      rw [hg] at hh
      cases hh
      rw [hf] at hfa
      refine .inr ⟨f, hfa, hbreaks, fun e' he' => ?_⟩
      rw [htokens] at he'
      cases he'
      exact hunclosed

end Feed

end Naskah
