import Naskah.Proofs.Source.Derivation

/-
  Printed programs compile to what was printed. A written text is cut into lexemes at its
  separators (`Written.cut`), whose kinds are those of the words; the printed words are derived by
  the grammar; so the text compiles, and to the statements that were printed (`compile_written`).
-/

namespace Naskah

/-! ## Names -/

/-- If the word is a name, then it is one that is not reserved. -/
def Word.Legal : Word → Prop
  | .token (.identifier x) => IsName x
  | _ => True

namespace Printed

/-- All names of the text can be names. -/
def Legal (p : Printed) : Prop :=
  ∀ w ∈ p.words, w.Legal

variable {p q : Printed}

theorem legal_append (hp : p.Legal) (hq : q.Legal) : (p ++ q).Legal :=
  List.forall_mem_append.2 ⟨hp, hq⟩

theorem legal_token {k : Token.Kind} (h : (Word.token k).Legal) : (token k).Legal :=
  List.forall_mem_singleton.2 h

theorem legal_keyword (k : Keyword) : (keyword k).Legal :=
  legal_token trivial

theorem legal_nil : nil.Legal :=
  fun _ h => nomatch h

theorem legal_enclosed {demanded : Bool} (hp : p.Legal) : (p.enclosed demanded).Legal := by
  cases demanded with
  | true => exact legal_append (legal_token trivial) (legal_append hp (legal_token trivial))
  | false => exact hp

end Printed

open Printed (legal_append legal_token legal_keyword)

theorem UnaryOp.legal_kind (op : UnaryOp) : (Word.token op.kind).Legal := by
  cases op <;> trivial

theorem BinaryOp.legal_kind (op : BinaryOp) : (Word.token op.kind).Legal := by
  cases op <;> trivial

theorem Expr.print_legal {e : Expr} {guarded : Bool} {l : Level} (h : e.WellFormed) :
    (e.print guarded l).Legal := by
  induction e generalizing guarded l with
  | number x => exact List.forall_mem_singleton.2 trivial
  | text s => exact legal_token trivial
  | boolean b => cases b <;> exact legal_keyword _
  | unary op operand ih =>
    exact Printed.legal_enclosed (legal_append (legal_token op.legal_kind) (ih h))
  | binary op left right ihl ihr =>
    exact Printed.legal_enclosed
      (legal_append (ihl h.1) (legal_append (legal_token op.legal_kind) (ihr h.2)))
  | _ => exact legal_token h

namespace Stmt

/-- What is printed for a statement at the place has legal names. -/
def Legible : Place → Stmt → Prop
  | .otherwise, s => s.textElse.Legal
  | _, s => ∀ after, (s.text after).Legal

theorem textAll_legal {ss : List Stmt} {after : Bool} (h : ∀ s ∈ ss, Legible .list s) :
    (textAll after ss).Legal := by
  induction ss generalizing after with
  | nil => exact Printed.legal_nil
  | cons s ss ih =>
    obtain ⟨hs, hss⟩ := List.forall_mem_cons.1 h
    exact legal_append (hs after) (ih hss)

theorem WellFormed.legible {p : Place} {s : Stmt} (h : WellFormed p s) : Legible p s := by
  induction h with
  | assign name hvalue =>
    exact fun _ => legal_append (legal_token name)
      (legal_append (legal_keyword _) (Expr.print_legal hvalue))
  | @cond p test yes no hp htest _ _ ihyes ihno =>
    have hchain : (test.print false .logical ++ (yes.text true ++ no.textElse)).Legal :=
      legal_append (Expr.print_legal htest) (legal_append (ihyes true) ihno)
    cases p with
    | list => exact fun _ => legal_append (legal_keyword _) hchain
    | body => exact absurd rfl hp
    | otherwise => exact legal_append (legal_keyword _) hchain
  | count name hfirst hlast _ ih =>
    exact fun _ => legal_append (legal_keyword _) (legal_append (legal_token name)
      (legal_append (legal_keyword _) (legal_append (Expr.print_legal hfirst)
        (legal_append (legal_keyword _) (legal_append (Expr.print_legal hlast)
          (legal_append (ih true) (legal_keyword _)))))))
  | loop htest _ ih =>
    exact fun _ => legal_append (legal_keyword _) (legal_append (Expr.print_legal htest)
      (legal_append (ih true) (legal_keyword _)))
  | input name => exact fun _ => legal_append (legal_keyword _) (legal_token name)
  | print hvalue => exact fun _ => legal_append (legal_keyword _) (Expr.print_legal hvalue)
  | @block p ss hp _ ih =>
    cases p with
    | list => exact absurd rfl hp
    | body => exact fun _ => textAll_legal ih
    | otherwise =>
      exact legal_append (legal_keyword _) (legal_append (textAll_legal ih) (legal_keyword _))
  | expr hvalue => exact fun _ => Expr.print_legal hvalue
  | empty => exact legal_keyword _

end Stmt

/-! ## Written words -/

/-- The escaped content of a string is read back. -/
theorem quoted_flatMap_quoteChar (cs : List Char) : Quoted (cs.flatMap quoteChar) cs := by
  induction cs with
  | nil => exact .nil
  | cons c cs ih =>
    rw [List.flatMap_cons]
    by_cases hb : c = '\\'
    · subst hb
      exact .backslash ih
    · by_cases hq : c = '"'
      · subst hq
        exact .quote ih
      · rw [quoteChar, if_neg (not_or.2 ⟨hb, hq⟩)]
        exact .plain hq hb ih

/-- A written word is a lexeme of a kind that fits the word. -/
theorem Word.Spelled.lexeme {w : Word} {cs : List Char} (h : w.Spelled cs) (hw : w.Legal) :
    ∃ k, Lexeme cs k ∧ Token.Kind.Fits k w := by
  cases h with
  | number hplain hx =>
    obtain ⟨c, hc, -⟩ := hplain.digit
    refine ⟨_, .number (List.ne_nil_of_mem hc) hplain.chars, .number ?_ ?_⟩
    · rwa [String.toList_ofList]
    · rwa [String.toList_ofList]
  | symbol s => exact ⟨_, .symbol s, .token⟩
  | keyword k => exact ⟨_, .keyword k, .token⟩
  | name x =>
    obtain ⟨hne, hchars, hstart, hfree⟩ := hw
    match hx : x.toList with
    | [] => exact absurd (String.toList_eq_nil_iff.1 hx) hne
    | c :: cs =>
      have hofList : String.ofList (c :: cs) = x := by rw [← hx, String.ofList_toList]
      rw [hx] at hchars hstart
      have hlexeme := Lexeme.identifier (hstart c rfl) hchars (hofList ▸ hfree)
      rw [hofList] at hlexeme
      exact ⟨_, hlexeme, .token⟩
  | string s =>
    have hlexeme := Lexeme.string (quoted_flatMap_quoteChar s.toList)
    rw [String.ofList_toList] at hlexeme
    exact ⟨_, hlexeme, .token⟩

/-- Separators may be put before a written text. -/
theorem Written.space {ws : List Word} {cs : List Char} (h : Written ws cs) :
    Written ws (' ' :: cs) := by
  cases h with
  | nil hg => exact .nil (List.forall_mem_cons.2 ⟨rfl, hg⟩)
  | cons hg hspelled hsep hmore =>
    have hgap : IsGap (' ' :: _) := List.forall_mem_cons.2 ⟨rfl, hg⟩
    exact .cons hgap hspelled hsep hmore

/-- A word may be put before a written text, with a space between them. -/
theorem Written.word {w : Word} {ws : List Word} {cs rest : List Char} (hw : w.Spelled cs)
    (h : Written ws rest) : Written (w :: ws) (cs ++ ' ' :: rest) := by
  have hsep : ∀ c ∈ (' ' :: rest).head?, Scan.isSpace c = true :=
    fun c hc => Option.some.inj hc ▸ rfl
  have hnone : IsGap [] := fun _ hc => nomatch hc
  exact .cons hnone hw hsep h.space

/-- Words that can be written can be written one after another. -/
theorem exists_written {ws : List Word} (h : ∀ w ∈ ws, ∃ cs, w.Spelled cs) :
    ∃ cs, Written ws cs := by
  induction ws with
  | nil => exact ⟨[], .nil fun _ hc => nomatch hc⟩
  | cons w ws ih =>
    obtain ⟨⟨cs, hcs⟩, hws⟩ := List.forall_mem_cons.1 h
    obtain ⟨rest, hrest⟩ := ih hws
    exact ⟨cs ++ ' ' :: rest, Written.word hcs hrest⟩

/-- A written text is cut into its words. -/
theorem Written.cut {ws : List Word} {cs : List Char} (h : Written ws cs)
    (hw : ∀ w ∈ ws, w.Legal) :
    ∃ ps gap, cs = Piece.text ps ++ gap ∧ Piece.Cut ps gap ∧ IsGap gap ∧
      List.Forall₂ Token.Kind.Fits (ps.map Piece.kind) ws := by
  induction h with
  | @nil gap hg => exact ⟨[], gap, rfl, .nil, hg, .nil⟩
  | @cons gap cs rest w ws hg hspelled hsep _ ih =>
    obtain ⟨hfirst, hmore⟩ := List.forall_mem_cons.1 hw
    obtain ⟨k, hlexeme, hfits⟩ := hspelled.lexeme hfirst
    obtain ⟨ps, tail, rfl, hcut, htail, hall⟩ := ih hmore
    have hlong : ∀ c ∈ (Piece.text ps ++ tail).head?, k.grows c = false :=
      fun c hc => k.grows_of_isSpace (hsep c hc)
    refine ⟨⟨gap, cs, k⟩ :: ps, tail, ?_, .cons hg hlexeme hlong hcut, htail, .cons hfits hall⟩
    rw [Piece.text, List.append_assoc (gap ++ cs)]

/-- A well-formed program that is written as it is printed, within the limits on nesting and on
    operators, compiles to itself. -/
theorem compile_written {ss : List Stmt} {source : String}
    (hform : ∀ s ∈ ss, Stmt.WellFormed .list s) (hnesting : (Stmt.textAll false ss).nesting ≤ 200)
    (hoperators : ∀ e ∈ Stmt.expressionsAll ss, e.operators ≤ 1000)
    (hwritten : Written (Stmt.textAll false ss).words source.toList) :
    compile source = .ok ⟨ss⟩ := by
  have hlegal : (Stmt.textAll false ss).Legal :=
    Stmt.textAll_legal fun s hs => (hform s hs).legible
  obtain ⟨ps, gap, hsource, hcut, hgap, hfits⟩ := hwritten.cut hlegal
  have htokens := tokenize_of_cut hsource hcut hgap
  have hdenotes : (Stmt.textAll false ss).Denotes maxNesting (ps.map Piece.kind) :=
    ⟨hnesting, hfits⟩
  have hstops : Expr.Stops [] := fun op h => nomatch h
  obtain ⟨hder, -⟩ := Stmt.textAll_derives (fun s hs => (hform s hs).printable) hdenotes
    hoperators hstops
  refine compile_of_derives htokens ?_
  rwa [Piece.map_kind_tokens, ← List.append_nil (ps.map Piece.kind)]

/-- A chain of two links. An expression that begins with a sign stands in parentheses behind the
    condition, and the text that is the second condition has an escape. -/
theorem compile_written_links :
    compile "kalo x ( - 1 ) kalogak \"\\\"\" yaudah " =
      .ok ⟨[.cond (.variable "x")
        (.block [.expr (.unary .negate (.number (Numeral.plain ['1'])))])
        (.cond (.text "\"") (.block []) .empty)]⟩ := by
  have hplain : Numeral.IsPlain ['1'] :=
    ⟨List.forall_mem_singleton.2 rfl, ⟨'1', List.mem_singleton_self _, rfl⟩, by decide⟩
  have hname : IsName "x" :=
    ⟨by decide, List.forall_mem_singleton.2 rfl, fun c hc => Option.some.inj hc ▸ rfl,
      fun k => by cases k <;> decide⟩
  refine compile_written (fun s hs => ?_) (by decide) ?_ ?_
  · rw [List.mem_singleton.1 hs]
    refine .cond (by decide) hname (.block (by decide) fun s hs => ?_)
      (.cond (by decide) trivial (.block (by decide) fun s hs => nomatch hs) .empty)
    rw [List.mem_singleton.1 hs]
    exact .expr trivial
  · intro e he
    simp only [Stmt.expressionsAll, Stmt.expressions, List.append_nil, List.cons_append,
      List.nil_append, List.mem_cons, List.not_mem_nil, or_false] at he
    rcases he with rfl | rfl | rfl <;> exact Nat.le_of_ble_eq_true rfl
  · have hnumber := (Numeral.read?_eq_some_iff hplain.chars _).2 ⟨hplain, rfl⟩
    exact .word (.keyword .kalo) (.word (.name "x") (.word (.symbol .parenOpen)
      (.word (.symbol .minus) (.word (.number hplain hnumber) (.word (.symbol .parenClose)
        (.word (.keyword .kalogak) (.word (.string "\"") (.word (.keyword .yaudah)
          (.nil fun _ hc => nomatch hc)))))))))

end Naskah
