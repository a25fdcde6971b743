import Mathlib.Logic.Relation
import Naskah.Proofs.Descent.Basic
import Naskah.Proofs.Token.Takes

/-
  How the steps of a descent end. The feed ahead of a descent is what a parser would be given in its
  place (`Lookahead.feed`), so what a descent does can be compared to what the parser returns:
  `Ends act s P x` says that the action comes to an end, with the value or the error that `x` is, and
  that it has asked the scanner only in order to pass a token. Such ends are put together along the
  sequence of the actions (`Ends.next`, `Ends.seq`).
-/

namespace Naskah

namespace Descent

/-! ## Looking ahead -/

namespace Lookahead

/-- The token is passed that is looked at. -/
inductive Step : Lookahead → Lookahead → Prop
  | pass {l : Lookahead} {t : Token} (htoken : l.current = .token t) (hask : l.ask.1 = .ok ()) :
      Step l l.ask.2

/-- Tokens are passed one by one. -/
def Passes : Lookahead → Lookahead → Prop :=
  Relation.ReflTransGen Step

/-- Tokens are passed one by one, and then possibly an error is met where one should be passed. -/
inductive Stops (l : Lookahead) : Lookahead → Prop
  | passed {l' : Lookahead} (h : l.Passes l') : Stops l l'
  | fault {l' : Lookahead} {t : Token} {e : LexError} (h : l.Passes l')
      (htoken : l'.current = .token t) (hask : l'.ask.1 = .error e) : Stops l l'.ask.2

theorem Passes.refl (l : Lookahead) : l.Passes l :=
  Relation.ReflTransGen.refl

theorem Passes.trans {l₁ l₂ l₃ : Lookahead} (h : l₁.Passes l₂) (h' : l₂.Passes l₃) :
    l₁.Passes l₃ :=
  Relation.ReflTransGen.trans h h'

theorem Passes.stops {l₁ l₂ l₃ : Lookahead} (h : l₁.Passes l₂) (h' : l₂.Stops l₃) : l₁.Stops l₃ := by
  cases h' with
  | passed h' => exact .passed (h.trans h')
  | fault h' htoken hask => exact .fault (h.trans h') htoken hask

/-- What is ahead, as a parser is given it. -/
def feed (l : Lookahead) : Feed :=
  match l.current with
  | .finish line => .finish line
  | .token t =>
    match Feed.ofCursor l.cursor with
    | .ok rest => .token t rest
    | .error e => .faulty t e

theorem current?_feed (l : Lookahead) : l.feed.current? = l.current.kind? := by
  unfold feed
  cases l.current with
  | finish line => rfl
  | token t => cases Feed.ofCursor l.cursor <;> rfl

theorem line_feed (l : Lookahead) : l.feed.line = l.current.line := by
  unfold feed
  cases l.current with
  | finish line => rfl
  | token t => cases Feed.ofCursor l.cursor <;> rfl

variable {l : Lookahead} {f : Feed} {t : Token}

/-- The scanner gives what is behind the current token. -/
theorem feed_ask (h : l.current = .token t) :
    l.ask.1 = .ok () ∧ l.feed = .token t l.ask.2.feed ∨
      ∃ e, l.ask.1 = .error e ∧ l.feed = .faulty t e := by
  unfold feed ask
  rw [h]
  rcases hs : l.cursor.scan with ⟨t' | line | e, cursor⟩
  · rw [Feed.ofCursor_token hs]
    refine .inl ⟨rfl, ?_⟩
    cases Feed.ofCursor cursor <;> rfl
  · rw [Feed.ofCursor_finish hs]
    exact .inl ⟨rfl, rfl⟩
  · rw [Feed.ofCursor_fault hs]
    exact .inr ⟨e, rfl, rfl⟩

theorem current_of_take? {next : Except LexError { rest : Feed // rest.size < f.size }}
    (hf : l.feed = f) (h : f.take? = some (t, next)) : l.current = .token t := by
  cases hc : l.current with
  | finish line =>
    have hfeed : l.feed = .finish line := by rw [feed, hc]
    obtain rfl := hf.symm.trans hfeed
    cases h
  | token t' =>
    rcases feed_ask hc with ⟨-, hfeed⟩ | ⟨e, -, hfeed⟩
    · obtain rfl := hf.symm.trans hfeed
      cases h
      rfl
    · obtain rfl := hf.symm.trans hfeed
      cases h
      rfl

theorem current_of_take?_none (hf : l.feed = f) (h : f.take? = none) :
    l.current = .finish f.line := by
  subst hf
  cases hc : l.current with
  | finish line => rw [line_feed, hc, Current.line]
  | token t =>
    have hkind := Feed.take?_none h
    rw [current?_feed, hc] at hkind
    cases hkind

theorem ask_ok {g : { rest : Feed // rest.size < f.size }} (hf : l.feed = f)
    (h : f.take? = some (t, .ok g)) : l.ask.1 = .ok () ∧ l.ask.2.feed = g.1 := by
  have htoken := Feed.take?_eq_ok h
  rcases feed_ask (current_of_take? hf h) with ⟨hask, hfeed⟩ | ⟨e, -, hfeed⟩
  · rw [hf, htoken] at hfeed
    exact ⟨hask, (Feed.token.inj hfeed).2.symm⟩
  · rw [hf, htoken] at hfeed
    cases hfeed

theorem ask_error {e : LexError} (hf : l.feed = f) (h : f.take? = some (t, .error e)) :
    l.ask.1 = .error e := by
  rcases feed_ask (current_of_take? hf h) with ⟨-, hfeed⟩ | ⟨e', hask, hfeed⟩
  · obtain rfl := hf.symm.trans hfeed
    cases h
  · obtain rfl := hf.symm.trans hfeed
    cases h
    exact hask

end Lookahead

/-! ## Performing actions -/

namespace Performs

theorem bind {α β : Type} {act : Action α} {f : α → Action β} {s s' s'' : State} {a : α}
    {r : Except Halt β} (h : Performs act s (.ok a) s') (hf : Performs (f a) s' r s'') :
    Performs (act >>= f) s r s'' := by
  generalize hresult : Except.ok a = result at h
  induction h with
  | done =>
    cases hresult
    exact hf
  | step h _ ih => exact .step h (ih hf hresult)
  | stepFails => cases hresult
  | call h _ _ ih => exact .call h (ih hf hresult)
  | callFails => cases hresult

theorem bind_error {α β : Type} {act : Action α} {f : α → Action β} {s s' : State} {e : Halt}
    (h : Performs act s (.error e) s') : Performs (act >>= f) s (.error e) s' := by
  generalize hresult : Except.error e = result at h
  induction h with
  | done => cases hresult
  | step h _ ih => exact .step h (ih hresult)
  | stepFails h =>
    cases hresult
    exact .stepFails h
  | call h _ _ ih => exact .call h (ih hresult)
  | callFails h =>
    cases hresult
    exact .callFails h

/-- An action comes to one end only. -/
theorem unique {α : Type} {act : Action α} {s s₁ s₂ : State} {r₁ r₂ : Except Halt α}
    (h₁ : Performs act s r₁ s₁) (h₂ : Performs act s r₂ s₂) : r₁ = r₂ ∧ s₁ = s₂ := by
  induction h₁ generalizing s₂ with
  | done =>
    cases h₂
    exact ⟨rfl, rfl⟩
  | step h _ ih =>
    cases h₂ with
    | step h' hnext =>
      cases h.symm.trans h'
      exact ih hnext
    | stepFails h' => cases h.symm.trans h'
  | stepFails h =>
    cases h₂ with
    | step h' _ => cases h.symm.trans h'
    | stepFails h' =>
      cases h.symm.trans h'
      exact ⟨rfl, rfl⟩
  | call _ _ ihbody ih =>
    cases h₂ with
    | call hbody hnext =>
      obtain ⟨hvalue, rfl⟩ := ihbody hbody
      cases hvalue
      exact ih hnext
    | callFails hbody => cases (ihbody hbody).1
  | callFails _ ih =>
    cases h₂ with
    | call hbody _ => cases (ih hbody).1
    | callFails hbody =>
      obtain ⟨hvalue, rfl⟩ := ih hbody
      cases hvalue
      exact ⟨rfl, rfl⟩

theorem ofStep {α : Type} {f : State → Except Halt α × State} {s s' : State} {r : Except Halt α}
    (h : f s = (r, s')) : Performs (Descent.step f) s r s' := by
  cases r with
  | ok a => exact .step h .done
  | error e => exact .stepFails h

theorem ofBody {α : Type} {c : Call α} {s s' : State} {r : Except Halt α}
    (h : Performs c.body s r s') : Performs (Descent.call c) s r s' := by
  cases r with
  | ok a => exact .call h .done
  | error e => exact .callFails h

end Performs

/-! ## Ends -/

/-- Performed in the state `s` the action fails with the error. -/
inductive Fails {α : Type} (act : Action α) (s : State) (e : Error) : Prop
  | intro {s' : State} (run : Performs act s (.error (.refused e)) s')
      (stops : s.ahead.Stops s'.ahead)

/-- Performed in the state `s` the action comes to an end, which is that of `x`; the value that it
    returns and the state behind it are as `P` says. -/
inductive Ends {α β : Type} (act : Action α) (s : State) (P : β → α → State → Prop) :
    Except Error β → Prop
  | ok {r : β} {a : α} {s' : State} (run : Performs act s (.ok a) s')
      (passes : s.ahead.Passes s'.ahead) (post : P r a s') : Ends act s P (.ok r)
  | error {e : Error} (h : Fails act s e) : Ends act s P (.error e)

section

variable {α β γ δ : Type} {s : State} {act : Action α} {f : α → Action γ}
  {P : β → α → State → Prop} {Q : δ → γ → State → Prop} {e : Error}

/-- An action that fails ends what would follow it. -/
theorem Fails.bind (h : Fails act s e) : Fails (act >>= f) s e := by
  obtain ⟨run, stops⟩ := h
  exact ⟨run.bind_error, stops⟩

theorem Ends.fails (h : Ends act s P (.error e)) : Fails act s e := by
  cases h with
  | error h => exact h

/-- What follows an action goes on in the state behind it. -/
theorem Ends.next {r : β} {x : Except Error δ} (h : Ends act s P (.ok r))
    (hf : ∀ a s', P r a s' → Ends (f a) s' Q x) : Ends (act >>= f) s Q x := by
  cases h with
  | ok run passes post =>
    cases hf _ _ post with
    | ok run' passes' post' => exact .ok (run.bind run') (passes.trans passes') post'
    | error h =>
      obtain ⟨run', stops⟩ := h
      exact .error ⟨run.bind run', passes.stops stops⟩

/-- What follows an action follows it in `y` too: an error of `x` is one of `y`, and else `y` goes on
    with the value of `x`. -/
theorem Ends.seq {x : Except Error β} {y : Except Error δ} (h : Ends act s P x)
    (hok : ∀ r, x = .ok r → ∀ a s', P r a s' → Ends (f a) s' Q y)
    (herror : ∀ e, x = .error e → y = .error e := by intro e he; simp only [he]) :
    Ends (act >>= f) s Q y := by
  cases x with
  | error e =>
    rw [herror e rfl]
    exact .error h.fails.bind
  | ok r => exact h.next (hok r rfl)

theorem Ends.mono {P' : β → α → State → Prop} {x : Except Error β} (h : Ends act s P x)
    (himp : ∀ r a s', P r a s' → P' r a s') : Ends act s P' x := by
  cases h with
  | ok run passes post => exact .ok run passes (himp _ _ _ post)
  | error h => exact .error h

/-- The value and the state behind it may be described in another way. -/
theorem Ends.imp {r : β} {r' : δ} {P' : δ → α → State → Prop} (h : Ends act s P (.ok r))
    (himp : ∀ a s', P r a s' → P' r' a s') : Ends act s P' (.ok r') := by
  cases h with
  | ok run passes post => exact .ok run passes (himp _ _ post)

/-- What is called ends as its body does. -/
theorem Ends.call {c : Call α} {x : Except Error β} (h : Ends c.body s P x) :
    Ends (Descent.call c) s P x := by
  cases h with
  | ok run passes post => exact .ok (.ofBody run) passes post
  | error h =>
    obtain ⟨run, stops⟩ := h
    exact .error ⟨.ofBody run, stops⟩

/-- A step that leaves alone what is ahead. -/
theorem Ends.step {g : State → Except Halt α × State} {a : α} {s₀ : State} {x : Except Error δ}
    (hstep : g s = (.ok a, s₀)) (hahead : s₀.ahead = s.ahead) (h : Ends (f a) s₀ Q x) :
    Ends (Descent.step g >>= f) s Q x := by
  have hdone : Ends (Descent.step g) s (fun (_ : Unit) b s' => b = a ∧ s' = s₀) (.ok ()) :=
    .ok (.ofStep hstep) (hahead ▸ .refl _) ⟨rfl, rfl⟩
  refine hdone.next ?_
  rintro b s' ⟨rfl, rfl⟩
  exact h

theorem fails_step {g : State → Except Halt α × State} {s₀ : State}
    (hstep : g s = (.error (.refused e), s₀)) (hahead : s₀.ahead = s.ahead) :
    Fails (Descent.step g) s e :=
  ⟨.ofStep hstep, .passed (hahead ▸ .refl _)⟩

theorem ends_return {r : β} {a : α} (h : P r a s) : Ends (pure a) s P (.ok r) :=
  .ok .done (.refl _) h

theorem fails_refuse (e : ParseError) : Fails (refuse e : Action α) s (.structural e) :=
  fails_step rfl rfl

/-- Looking at the current token changes nothing. -/
theorem Ends.current {g : Current → Action γ} {x : Except Error δ}
    (h : Ends (g s.ahead.current) s Q x) : Ends (Descent.current >>= g) s Q x :=
  .step rfl rfl h

theorem Ends.kind {g : Option Token.Kind → Action γ} {x : Except Error δ}
    (h : Ends (g s.ahead.feed.current?) s Q x) : Ends (kind? >>= g) s Q x := by
  rw [Lookahead.current?_feed] at h
  exact .step rfl rfl h

theorem Ends.line {g : Nat → Action γ} {x : Except Error δ}
    (h : Ends (g s.ahead.feed.line) s Q x) : Ends (Descent.line >>= g) s Q x := by
  rw [Lookahead.line_feed] at h
  exact .step rfl rfl h

/-- Going on one nesting level deeper, unless no level is left. -/
theorem Ends.enter {g : Unit → Action γ} {x : Except Error δ} {room : Nat}
    (hroom : maxNesting - s.depth = room)
    (hfull : room = 0 → x = .error (.structural (.nestingTooDeep maxNesting s.ahead.feed.line)))
    (hfree : ∀ r, room = r + 1 → maxNesting - (s.depth + 1) = r →
      Ends (g ()) { s with depth := s.depth + 1 } Q x) :
    Ends (Descent.enter >>= g) s Q x := by
  cases room with
  | zero =>
    rw [hfull rfl, Lookahead.line_feed]
    have hfails : Fails Descent.enter s
        (.structural (.nestingTooDeep maxNesting s.ahead.current.line)) :=
      fails_step (if_pos (Nat.le_of_sub_eq_zero hroom)) rfl
    exact .error hfails.bind
  | succ r => exact .step (if_neg (by omega)) rfl (hfree r rfl (by omega))

/-- Going back to the nesting level that was entered. -/
theorem Ends.leave {g : Unit → Action γ} {x : Except Error δ} {depth : Nat}
    (hdepth : s.depth = depth + 1) (h : Ends (g ()) { s with depth := depth } Q x) :
    Ends (Descent.leave >>= g) s Q x := by
  obtain ⟨ahead, entered, operators, startLine⟩ := s
  obtain rfl : entered = depth + 1 := hdepth
  exact .step rfl rfl h

end

/-! ## Single steps -/

/-- Behind `s` the feed `g` is ahead and so many operators have been counted; all else is as it
    was. -/
structure Moved (s : State) (g : Feed) (operators : Nat) (s' : State) : Prop where
  feed : s'.ahead.feed = g
  operators : s'.operators = operators
  depth : s'.depth = s.depth
  startLine : s'.startLine = s.startLine

theorem Moved.trans {s s' s'' : State} {g g' : Feed} {k k' : Nat} (h : Moved s g k s')
    (h' : Moved s' g' k' s'') : Moved s g' k' s'' :=
  ⟨h'.feed, h'.operators, h'.depth.trans h.depth, h'.startLine.trans h.startLine⟩

/-- What is left behind when a parser would have returned `r`: its value, with what it left ahead, and
    no nesting level more or less than at `s`. -/
structure Done {α : Type} {n : Nat} (s : State) (r : Parsed α n) (a : α) (s' : State) : Prop where
  value : a = r.value
  feed : s'.ahead.feed = r.rest
  depth : s'.depth = s.depth

/-- What a parser in place of a descent would be given: what is ahead, the operators met so far, the
    line where the whole expression starts, and the nesting levels that are left. -/
structure Stands (s : State) (f : Feed) (used line room : Nat) : Prop where
  feed : s.ahead.feed = f
  operators : s.operators = used
  startLine : s.startLine = line
  room : maxNesting - s.depth = room

theorem Stands.moved {s s' : State} {f g : Feed} {used used' line room : Nat}
    (h : Stands s f used line room) (hs : Moved s g used' s') : Stands s' g used' line room :=
  ⟨hs.feed, hs.operators, hs.startLine.trans h.startLine, by rw [hs.depth, h.room]⟩

section

variable {s : State} {f : Feed} {t : Token}

theorem pass_ok {g : { rest : Feed // rest.size < f.size }} (hf : s.ahead.feed = f)
    (h : f.take? = some (t, .ok g)) :
    Ends pass s (fun (_ : Unit) _ s' => Moved s g.1 s.operators s') (.ok ()) := by
  have htoken := Lookahead.current_of_take? hf h
  obtain ⟨hask, hfeed⟩ := Lookahead.ask_ok hf h
  have hahead : s.ahead.ask = (.ok (), s.ahead.ask.2) := Prod.ext hask rfl
  have hrun : Performs pass s (.ok ()) { s with ahead := s.ahead.ask.2 } := by
    refine .ofStep ?_
    rw [hahead]
  exact .ok hrun (.single (.pass htoken hask)) ⟨hfeed, rfl, rfl, rfl⟩

theorem pass_error {e : LexError} (hf : s.ahead.feed = f) (h : f.take? = some (t, .error e)) :
    Fails pass s (.lexical e) := by
  have htoken := Lookahead.current_of_take? hf h
  have hask := Lookahead.ask_error hf h
  have hahead : s.ahead.ask = (.error e, s.ahead.ask.2) := Prod.ext hask rfl
  have hrun : Performs pass s (.error (.refused (.lexical e))) { s with ahead := s.ahead.ask.2 } := by
    refine .ofStep ?_
    rw [hahead]
  exact ⟨hrun, .fault (.refl _) htoken hask⟩

/-- Counting an operator and passing it. -/
theorem operator_ends {line used room : Nat}
    {next : Except LexError { rest : Feed // rest.size < f.size }} (hs : Stands s f used line room)
    (h : f.take? = some (t, next)) :
    Ends operator s (fun r _ s' => Moved s r.2.1 r.1 s' ∧ r.1 = s.operators + 1)
      (Expr.Parse.takeOperator line used next) := by
  obtain ⟨hf, rfl, rfl, -⟩ := hs
  unfold operator Expr.Parse.takeOperator
  split
  · next hfull =>
    have hfails : Fails countOperator s
        (.structural (.expressionTooLarge maxOperators s.startLine)) :=
      fails_step (if_pos (Nat.lt_succ_of_le hfull)) rfl
    exact .error hfails.bind
  · next hfree =>
    refine .step (if_neg fun h => hfree (Nat.le_of_lt_succ h)) rfl ?_
    cases next with
    | error e => exact .error (pass_error hf h)
    | ok g =>
      have hpass := pass_ok (s := { s with operators := s.operators + 1 }) hf h
      exact hpass.imp fun _ _ hs₂ =>
        ⟨⟨hs₂.feed, hs₂.operators, hs₂.depth, hs₂.startLine⟩, rfl⟩

/-- A complaint that there is no token. -/
theorem unexpected_finish {α β : Type} {wanted : Expectation} {P : β → α → State → Prop}
    (hf : s.ahead.feed = f) (h : f.take? = none) :
    Ends (unexpected wanted : Action α) s P
      (.error (.structural (.unexpectedEnd wanted f.line))) := by
  refine .current ?_
  rw [Lookahead.current_of_take?_none hf h]
  exact .error (fails_refuse _)

/-- A complaint about the current token. -/
theorem unexpected_token {α β : Type} {wanted : Expectation} {P : β → α → State → Prop}
    (h : s.ahead.current = .token t) :
    Ends (unexpected wanted : Action α) s P
      (.error (.structural (.unexpected wanted (.token t.kind) t.line))) := by
  refine .current ?_
  rw [h]
  exact .error (fails_refuse _)

/-- What is left behind when a token has been taken. -/
structure Taken {α : Type} {n : Nat} (s : State) (r : Parsed α n) (a : α) (s' : State) : Prop where
  value : a = r.value
  moved : Moved s r.rest s.operators s'

theorem Taken.done {α : Type} {n : Nat} {r : Parsed α n} {a : α} {s' : State}
    (h : Taken s r a s') : Done s r a s' :=
  ⟨h.value, h.moved.feed, h.moved.depth⟩

/-- Taking the current token if it is acceptable. -/
theorem take_ends {α : Type} (wanted : Expectation) (accept : Token.Kind → Option α)
    (hf : s.ahead.feed = f) :
    Ends (take wanted accept) s (Taken s) (expect wanted accept f) := by
  unfold take expect
  refine .kind ?_
  rw [hf]
  rcases htake : f.take? with _ | ⟨t, next⟩
  · rw [Feed.take?_none htake]
    exact unexpected_finish hf htake
  · rw [Feed.take?_kind htake, Option.bind_some]
    dsimp only
    cases haccept : accept t.kind with
    | none => exact unexpected_token (Lookahead.current_of_take? hf htake)
    | some a =>
      cases next with
      | error e => exact .error (pass_error hf htake).bind
      | ok g => exact (pass_ok hf htake).next fun _ _ hs₁ => ends_return ⟨rfl, hs₁⟩

theorem takeKeyword_ends (k : Keyword) (hf : s.ahead.feed = f) :
    Ends (takeKeyword k) s (Taken s) (expectKeyword k f) :=
  take_ends _ _ hf

theorem takeSymbol_ends (k : Symbol) (hf : s.ahead.feed = f) :
    Ends (takeSymbol k) s (Taken s) (expectSymbol k f) :=
  take_ends _ _ hf

theorem takeName_ends (wanted : Expectation) (hf : s.ahead.feed = f) :
    Ends (takeName wanted) s (Taken s) (expectName wanted f) :=
  take_ends _ _ hf

end

end Descent

end Naskah
