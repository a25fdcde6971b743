import Naskah.Proofs.Program.Lazy

/-
  The layout of a text does not matter. Texts whose tokens are of the same kinds are compiled to the
  same program or refused with the same complaint, and the lines that the complaints name are those
  of the tokens at one place (`compile_of_kinds`). To see it the tokens are put on lines numbered by
  their places. What is read of these is read of all tokens of the same kinds, with the lines
  renumbered from the places to the lines of the text (`Parallel.renumbered`).
-/

namespace Naskah

open Reading Stmt.Parse

/-! ## Complaints and their lines -/

namespace ParseError

/-- The line that a complaint names. -/
def line : ParseError → Nat
  | unexpectedEnd _ line => line
  | missingTerminator _ openedAt => openedAt
  | unexpected _ _ line => line
  | invalidNumber _ line => line
  | chainedComparison line => line
  | nestingTooDeep _ line => line
  | expressionTooLarge _ line => line

/-- The same complaint, all but the line, which is replaced. -/
def withLine (e : ParseError) (line : Nat) : ParseError :=
  e.mapLine fun _ => line

theorem mapLine_eq_withLine (φ : Nat → Nat) (e : ParseError) :
    e.mapLine φ = e.withLine (φ e.line) := by
  cases e <;> rfl

theorem line_mapLine (φ : Nat → Nat) (e : ParseError) : (e.mapLine φ).line = φ e.line := by
  cases e <;> rfl

end ParseError

/-- The error that a text is refused with if its lines are numbered in another way. Scanning comes
    before the numbering, so its errors stay as they are. -/
def Error.mapLine (φ : Nat → Nat) : Error → Error
  | .structural e => .structural (e.mapLine φ)
  | e => e

/-! ## Renumbered texts -/

/-- The token on the line that its line is renumbered to. -/
def Token.mapLine (φ : Nat → Nat) (t : Token) : Token :=
  ⟨t.kind, φ t.line⟩

namespace Feed

/-- The feed of a text whose lines are numbered in another way. -/
def mapLine (φ : Nat → Nat) : Feed → Feed
  | finish line => finish (φ line)
  | token t rest => token (t.mapLine φ) (rest.mapLine φ)
  | faulty t e => faulty (t.mapLine φ) e

variable {φ : Nat → Nat}

@[simp] theorem current?_mapLine (f : Feed) : (f.mapLine φ).current? = f.current? := by
  cases f <;> rfl

@[simp] theorem line_mapLine (f : Feed) : (f.mapLine φ).line = φ f.line := by
  cases f <;> rfl

@[simp] theorem size_mapLine (f : Feed) : (f.mapLine φ).size = f.size := by
  induction f with
  | finish line => rfl
  | token t rest ih => exact congrArg (· + 1) ih
  | faulty t e => rfl

theorem mapLine_ofTokens (ts : List Token) (last : Nat) :
    (ofTokens ts last).mapLine φ = ofTokens (ts.map (Token.mapLine φ)) (φ last) := by
  induction ts with
  | nil => rfl
  | cons t ts ih => exact congrArg (token (t.mapLine φ)) ih

end Feed

namespace Reading

/-- What is read of a text, if its lines are numbered in another way. -/
def renumber {α : Type} (φ : Nat → Nat) : Except Error (α × Feed) → Except Error (α × Feed)
  | .ok (a, g) => .ok (a, g.mapLine φ)
  | .error e => .error (e.mapLine φ)

/-- A reading knows of lines only that they are written into complaints. -/
theorem Parallel.renumbered {φ : Nat → Nat} {C : ParseError → Prop} {d : Bool} {α : Type}
    {p p' : Reading α} (h : Parallel φ C d p p') (f : Feed) :
    p' (f.mapLine φ) = renumber φ (p f) := by
  induction h generalizing f with
  | done a => rfl
  | @refuse _ e e' line _ _ =>
    unfold Reading.refuse
    rw [f.line_mapLine, line]
    rfl
  | pass => cases f <;> rfl
  | look _ _ ihend ih =>
    unfold Reading.look
    rw [f.current?_mapLine]
    cases f.current? with
    | none => exact ihend f
    | some kind => exact ih kind f
  | @need _ e e' _ _ _ line _ _ _ ih =>
    unfold Reading.look
    rw [f.current?_mapLine]
    cases f.current? with
    | none =>
      unfold Reading.refuse
      rw [f.line_mapLine]
      dsimp only
      rw [line]
      rfl
    | some kind => exact ih kind f
  | @here _ _ k k' _ ih =>
    unfold Reading.here
    rw [f.line_mapLine]
    exact ih f.line f
  | @andThen _ _ _ _ p p' q q' _ _ ihp ihq =>
    have hfirst := ihp f
    cases hp : p f with
    | error e =>
      rw [hp] at hfirst
      rw [andThen_of_error hp, andThen_of_error hfirst]
      rfl
    | ok r =>
      rw [hp] at hfirst
      rw [andThen_of_ok (hp : p f = .ok (r.1, r.2)), andThen_of_ok hfirst]
      exact ihq r.1 r.2
  | rounds _ left right ih =>
    rw [left f.size f (Nat.le_refl _), right f.size _ (Nat.le_of_eq f.size_mapLine)]
    exact ih f.size f

end Reading

/-! ## Places -/

namespace Token

/-- The line of the token at a place. At the place behind the last token it is that of the end of
    the text. -/
def lineAt (ts : List Token) (last : Nat) (k : Nat) : Nat :=
  match ts[k]? with
  | some t => t.line
  | none => last

/-- Tokens of the kinds, each on the line whose number is the place of the token. -/
def placed (ks : List Token.Kind) : List Token :=
  ks.mapIdx fun k kind => ⟨kind, k⟩

theorem getElem?_placed (ks : List Token.Kind) (k : Nat) :
    (placed ks)[k]? = ks[k]?.map fun kind => ⟨kind, k⟩ :=
  List.getElem?_mapIdx

end Token

/-- The feed of tokens of the kinds, each on the line whose number is its place. -/
def Feed.placed (ks : List Token.Kind) : Feed :=
  ofTokens (Token.placed ks) ks.length

/-- With the places renumbered to lines of a text, the tokens are those of the text. -/
theorem Feed.mapLine_placed (ts : List Token) (last : Nat) :
    (placed (ts.map Token.kind)).mapLine (Token.lineAt ts last) = ofTokens ts last := by
  have htokens : (Token.placed (ts.map Token.kind)).map (Token.mapLine (Token.lineAt ts last)) =
      ts := by
    refine List.ext_getElem? fun k => ?_
    rw [List.getElem?_map, Token.getElem?_placed, List.getElem?_map]
    cases ht : ts[k]? with
    | none => rfl
    | some t =>
      have hline : Token.lineAt ts last k = t.line := by
        unfold Token.lineAt
        rw [ht]
      simp only [Option.map_some, Token.mapLine, hline]
  have hlast : Token.lineAt ts last (ts.map Token.kind).length = last := by
    unfold Token.lineAt
    rw [List.length_map, List.getElem?_eq_none (Nat.le_refl _)]
  unfold placed
  rw [mapLine_ofTokens, htokens, hlast]

/-- No place lies behind the end of the text. -/
theorem Feed.mapLine_min_placed (ks : List Token.Kind) :
    (placed ks).mapLine (min · ks.length) = placed ks := by
  have htokens : (Token.placed ks).map (Token.mapLine (min · ks.length)) = Token.placed ks := by
    refine List.ext_getElem? fun k => ?_
    rw [List.getElem?_map, Token.getElem?_placed]
    cases hk : ks[k]? with
    | none => rfl
    | some kind =>
      have hle : k ≤ ks.length := Nat.le_of_lt (List.getElem?_eq_some_iff.1 hk).1
      simp only [Option.map_some, Token.mapLine, Nat.min_eq_left hle]
  unfold placed
  rw [mapLine_ofTokens, htokens, Nat.min_self]

/-! ## Programs -/

theorem Stmt.all_mapLine (φ : Nat → Nat) (f : Feed) : all (f.mapLine φ) = renumber φ (all f) := by
  have hall : Parallel φ (fun _ => True) false all all := all_parallel
  exact hall.renumbered f

/-- A text is compiled as its tokens are parsed by their places, and where these are refused the
    complaint names a line instead of a place. -/
theorem compile_eq_placed {source : String} {ts : List Token} {last : Nat}
    (h : tokenize source = .ok (ts, last)) :
    compile source = ((renumber (Token.lineAt ts last)
      (all (Feed.placed (ts.map Token.kind)))).map Prod.fst).map Program.mk := by
  rw [compile_eq_parseAll (ofSource_eq_ofTokens h), parseAll_eq, ← Stmt.all_mapLine,
    Feed.mapLine_placed]

/-- What placed tokens are refused with is a complaint about one of them, or about their end. -/
theorem Stmt.all_placed_eq_error {ks : List Token.Kind} {e : Error}
    (h : all (Feed.placed ks) = .error e) :
    ∃ pe : ParseError, e = .structural pe ∧ pe.line ≤ ks.length := by
  have htrue := Stmt.parseAll_truthful (Stmt.parseAll_of_all h)
  cases e with
  | lexical le =>
    rw [Truthful, Feed.placed, Feed.tokens_ofTokens] at htrue
    cases htrue
  | structural pe =>
    have hmin := Stmt.all_mapLine (min · ks.length) (Feed.placed ks)
    rw [Feed.mapLine_min_placed, h] at hmin
    have hpe : pe = pe.mapLine (min · ks.length) := Error.structural.inj (Except.error.inj hmin)
    have hline : pe.line = min pe.line ks.length :=
      (congrArg ParseError.line hpe).trans (ParseError.line_mapLine _ _)
    exact ⟨pe, rfl, hline ▸ Nat.min_le_right _ _⟩
  | runtime e => exact htrue.elim

/-- What becomes of a text is a matter of the kinds of its tokens. Either all texts with tokens of
    these kinds are compiled to one program, or all are refused with one complaint, and the line
    that it names is that of the token at one place, or of the end of the text. -/
theorem compile_of_kinds (ks : List Token.Kind) :
    (∃ p, ∀ source ts last, tokenize source = .ok (ts, last) → ts.map Token.kind = ks →
        compile source = .ok p) ∨
      ∃ (e : ParseError) (k : Nat), k ≤ ks.length ∧ ∀ source ts last,
        tokenize source = .ok (ts, last) → ts.map Token.kind = ks →
          compile source = .error (.structural (e.withLine (Token.lineAt ts last k))) := by
  cases hall : all (Feed.placed ks) with
  | ok r =>
    refine .inl ⟨⟨r.1⟩, ?_⟩
    rintro source ts last htokens rfl
    rw [compile_eq_placed htokens, hall]
    rfl
  | error e =>
    obtain ⟨pe, rfl, hplace⟩ := Stmt.all_placed_eq_error hall
    refine .inr ⟨pe, pe.line, hplace, ?_⟩
    rintro source ts last htokens rfl
    rw [compile_eq_placed htokens, hall, ← pe.mapLine_eq_withLine]
    rfl

/-- An open conditional on one line and on two. -/
theorem compile_of_kinds_open :
    ∃ (e : ParseError) (k : Nat), k ≤ 2 ∧
      compile "kalo x" = .error (.structural (e.withLine
        (Token.lineAt [⟨.keyword .kalo, 1⟩, ⟨.identifier "x", 1⟩] 1 k))) ∧
      compile "\nkalo\nx\n" = .error (.structural (e.withLine
        (Token.lineAt [⟨.keyword .kalo, 2⟩, ⟨.identifier "x", 3⟩] 3 k))) := by
  have hone : tokenize "kalo x" =
      .ok ([⟨.keyword .kalo, 1⟩, ⟨.identifier "x", 1⟩], 1) := by decide +kernel
  have htwo : tokenize "\nkalo\nx\n" =
      .ok ([⟨.keyword .kalo, 2⟩, ⟨.identifier "x", 3⟩], 3) := by decide +kernel
  have hrefused : compile "kalo x" = .error (.structural (.missingTerminator .cond 1)) := by
    decide +kernel
  rcases compile_of_kinds [.keyword .kalo, .identifier "x"] with ⟨p, hp⟩ | ⟨e, k, hk, he⟩
  · have haccepted := hp _ _ _ hone rfl
    rw [hrefused] at haccepted
    cases haccepted
  · exact ⟨e, k, hk, he _ _ _ hone rfl, he _ _ _ htwo rfl⟩

end Naskah
