import Naskah.Proofs.Descent.Stmt
import Naskah.Proofs.Program.Lazy
import Naskah.Proofs.Token.Scanner

/-
  The discipline of the descent: every call comes to an end, in every state, however malformed the
  text is; when it returns, all the nesting levels that it has entered are left and exactly the
  operators of the tree that it returns have been counted; and it asks the scanner once for every
  token that it passes, and for nothing behind the end of the text. What a call does is taken from
  the parser in its place (`expr_does`, `statement_parses` and the like); what it asks for is read off
  the steps of the lookahead (`Lookahead.Asks`).
-/

namespace Naskah

/-! ## Scans -/

namespace Cursor

theorem meets_concat (c : Cursor) (n : Nat) : c.meets (n + 1) = c.meets n ++ [c.met n] := by
  unfold meets
  rw [List.range_succ, List.map_append]
  rfl

end Cursor

namespace Descent

/-! ## Questions to the scanner -/

theorem Current.met_injective {c c' : Current} (h : c.met = c'.met) : c = c' := by
  cases c <;> cases c' <;> cases h <;> rfl

theorem Current.exists_finish {c : Current} (h : c.kind? = none) : ∃ line, c = .finish line := by
  cases c with
  | token t => cases h
  | finish line => exact ⟨line, rfl⟩

namespace Lookahead

/-- From `l` to `l'` the scanner has been asked once at each of the tokens `ts`, of which the current
    one is the first. Each answer is what comes next, and `last` is that to the last question. -/
structure Asks (l : Lookahead) (ts : List Token) (last : Scan) (l' : Lookahead) : Prop where
  answers : l.current.met :: l.cursor.meets ts.length = ts.map Scan.token ++ [last]
  asked : l'.asked = l.asked ++ l.cursor.meets ts.length
  cursor : l'.cursor = l.cursor.later ts.length

theorem ask_snd (l : Lookahead) :
    l.ask.2.asked = l.asked ++ [l.cursor.scan.1] ∧ l.ask.2.cursor = l.cursor.scan.2 := by
  unfold ask
  rcases l.cursor.scan with ⟨t | line | e, cursor⟩ <;> exact ⟨rfl, rfl⟩

theorem ask_met {l : Lookahead} (h : l.ask.1 = .ok ()) :
    l.ask.2.current.met = l.cursor.scan.1 := by
  unfold ask at h ⊢
  rcases hs : l.cursor.scan with ⟨t | line | e, cursor⟩
  · rfl
  · rfl
  · rw [hs] at h
    cases h

theorem Asks.refl (l : Lookahead) : l.Asks [] l.current.met l :=
  ⟨rfl, (List.append_nil _).symm, rfl⟩

/-- One more question at a token. -/
theorem Asks.ask {l l' : Lookahead} {ts : List Token} {t : Token}
    (h : l.Asks ts l'.current.met l') (htoken : l'.current = .token t) :
    l.Asks (ts ++ [t]) l'.cursor.scan.1 l'.ask.2 := by
  -- The scanner has got as far as the questions so far have led it, so this answer is the next.
  have hlast : l'.cursor.scan.1 = l.cursor.met ts.length := by
    rw [h.cursor]
    rfl
  have hlength : (ts ++ [t]).length = ts.length + 1 := List.length_append
  obtain ⟨hasked, hcursor⟩ := l'.ask_snd
  refine ⟨?_, ?_, ?_⟩
  · have hanswers := h.answers
    rw [htoken] at hanswers
    rw [hlength, Cursor.meets_concat, ← List.cons_append, hanswers, hlast, List.map_append]
    rfl
  · rw [hlength, Cursor.meets_concat, hasked, h.asked, hlast, List.append_assoc]
  · rw [hlength, hcursor, h.cursor]
    rfl

theorem Passes.asks {l l' : Lookahead} (h : l.Passes l') :
    ∃ ts, l.Asks ts l'.current.met l' := by
  induction h with
  | refl => exact ⟨[], .refl l⟩
  | tail _ hstep ih =>
    obtain ⟨ts, hasks⟩ := ih
    cases hstep with
    | pass htoken hask =>
      have hnext := hasks.ask htoken
      rw [← ask_met hask] at hnext
      exact ⟨_, hnext⟩

theorem Stops.asks {l l' : Lookahead} (h : l.Stops l') : ∃ ts last, l.Asks ts last l' := by
  cases h with
  | passed h =>
    obtain ⟨ts, hasks⟩ := h.asks
    exact ⟨ts, _, hasks⟩
  | fault h htoken _ =>
    obtain ⟨ts, hasks⟩ := h.asks
    exact ⟨_, _, hasks.ask htoken⟩

/-- Where less is ahead than before, a token has been passed. -/
theorem Asks.ne_nil {l l' : Lookahead} {ts : List Token} (h : l.Asks ts l'.current.met l')
    (hshorter : l'.feed.size < l.feed.size) : ts ≠ [] := by
  rintro rfl
  have hcurrent : l.current = l'.current :=
    Current.met_injective (List.cons.inj h.answers).1
  have hfeed : l'.feed = l.feed := by
    unfold feed
    rw [hcurrent, h.cursor]
    rfl
  exact absurd hshorter (hfeed ▸ Nat.lt_irrefl _)

end Lookahead

/-! ## Calls -/

namespace Call

variable {α : Type}

/-- Whether at least one token is passed: only a loop, and a block, may have nothing to do. -/
def advances : Call α → Bool
  | joined _ _ _ => false
  | block _ _ => false
  | statements _ _ => false
  | program => false
  | _ => true

/-- The operators are counted as they should be: those of what is returned, beyond those counted
    before within the same whole expression. -/
def Counts : Call α → (s : State) → α → (s' : State) → Prop
  | expr _, s, e, s' => s'.operators = s.operators + e.operators
  | joined _ _ left, s, e, s' => s'.operators + left.operators = s.operators + e.operators
  | expression, _, e, s' => s'.operators = e.operators
  | _, _, _, _ => True

/-- What a call keeps to when it returns `a`. -/
structure Kept (c : Call α) (s : State) (a : α) (s' : State) : Prop where
  depth : s'.depth = s.depth
  counts : c.Counts s a s'
  shorter : c.advances = true → s'.ahead.feed.size < s.ahead.feed.size

/-- A call in the state `s` comes to an end. If it returns, it is at the nesting level where it
    started, has counted the operators and passed a token; if it fails, more levels have never been
    left than entered. The scanner has been asked once at every token passed. -/
structure Orderly (c : Call α) (s : State) : Prop where
  ends : ∃ r s', Performs (call c) s r s'
  returns : ∀ a s', Performs (call c) s (.ok a) s' →
    s'.depth = s.depth ∧ c.Counts s a s' ∧
      ∃ ts, s.ahead.Asks ts s'.ahead.current.met s'.ahead ∧ (c.advances = true → ts ≠ [])
  fails : ∀ h s', Performs (call c) s (.error h) s' →
    (∃ e, h = .refused e) ∧ ∃ ts last, s.ahead.Asks ts last s'.ahead

theorem orderly_of_ends {β : Type} {c : Call α} {s : State} {P : β → α → State → Prop}
    {x : Except Error β} (h : Ends (call c) s P x) (hkept : ∀ r a s', P r a s' → c.Kept s a s') :
    c.Orderly s := by
  cases h with
  | ok run passes post =>
    have hone := hkept _ _ _ post
    refine ⟨⟨_, _, run⟩, fun a s' hrun => ?_, fun h s' hrun => ?_⟩
    · obtain ⟨hvalue, rfl⟩ := run.unique hrun
      cases hvalue
      obtain ⟨ts, hasks⟩ := passes.asks
      exact ⟨hone.depth, hone.counts, ts, hasks, fun hadvances =>
        hasks.ne_nil (hone.shorter hadvances)⟩
    · cases (run.unique hrun).1
  | error h =>
    obtain ⟨run, stops⟩ := h
    refine ⟨⟨_, _, run⟩, fun a s' hrun => ?_, fun h s' hrun => ?_⟩
    · cases (run.unique hrun).1
    · obtain ⟨hvalue, rfl⟩ := run.unique hrun
      cases hvalue
      exact ⟨⟨_, rfl⟩, stops.asks⟩

theorem Kept.of_done {n : Nat} {c : Call α} {s s' : State} {r : Parsed α n} {a : α}
    (h : Done s r a s') (hcounts : c.Counts s a s')
    (hshorter : c.advances = true → n ≤ s.ahead.feed.size) : c.Kept s a s' :=
  ⟨h.depth, hcounts, fun hadvances =>
    h.feed ▸ Nat.lt_of_lt_of_le r.shorter (hshorter hadvances)⟩

theorem orderly_of_parses {c : Call α} {s : State} {n : Feed → Nat}
    {p : (f : Feed) → Except Error (Parsed α (n f))}
    (h : Parses (call c) (maxNesting - s.depth) p) (hcounts : ∀ a s', c.Counts s a s')
    (hshorter : c.advances = true → n s.ahead.feed ≤ s.ahead.feed.size) : c.Orderly s :=
  orderly_of_ends (h s _ rfl rfl) fun _ _ _ hdone => .of_done hdone (hcounts _ _) hshorter

/-- Every call is orderly, in every state. -/
theorem orderly (c : Call α) (s : State) : c.Orderly s := by
  have hlevels := deeper (maxNesting - s.depth)
  cases c with
  | expr l =>
    refine orderly_of_ends (expr_does _ _ l s _ _ ⟨rfl, rfl, rfl, rfl⟩) fun r a s' h => ?_
    refine ⟨h.moved.depth, ?_, fun _ => ?_⟩
    · show s'.operators = s.operators + a.operators
      rw [h.moved.operators, h.expr, ← h.counted, Nat.add_zero]
    · rw [h.moved.feed]
      exact r.shorter
  | joined op? operand left =>
    have hends := joined_ends op? (expr_does s.startLine (maxNesting - s.depth) operand)
      ⟨left, s.operators, s.ahead.feed, Nat.lt_succ_self _⟩ s ⟨rfl, rfl, rfl, rfl⟩
    refine orderly_of_ends hends fun r a s' h => ⟨h.moved.depth, ?_, fun hadvances => ?_⟩
    · show s'.operators + left.operators = s.operators + a.operators
      rw [h.moved.operators, h.expr, ← h.counted]
    · cases hadvances
  | expression =>
    exact orderly_of_ends (expression_ends rfl rfl) fun _ _ _ h =>
      .of_done h.toDone h.counted fun _ => Nat.le_refl _
  | statement =>
    exact orderly_of_parses (statement_parses _) (fun _ _ => trivial) fun _ => Nat.le_refl _
  | assignmentOrExpr =>
    exact orderly_of_parses assignmentOrExpr_parses (fun _ _ => trivial) fun _ => Nat.le_refl _
  | input => exact orderly_of_parses input_parses (fun _ _ => trivial) fun _ => Nat.le_refl _
  | print => exact orderly_of_parses print_parses (fun _ _ => trivial) fun _ => Nat.le_refl _
  | cond =>
    exact orderly_of_parses (cond_parses hlevels) (fun _ _ => trivial) fun _ => Nat.le_refl _
  | count =>
    exact orderly_of_parses (count_parses hlevels) (fun _ _ => trivial) fun _ => Nat.le_refl _
  | loop =>
    exact orderly_of_parses (loop_parses hlevels) (fun _ _ => trivial) fun _ => Nat.le_refl _
  | conditional openedAt =>
    exact orderly_of_parses (conditional_parses hlevels openedAt) (fun _ _ => trivial)
      fun _ => Nat.le_refl _
  | block construct openedAt =>
    exact orderly_of_parses (block_parses hlevels construct openedAt) (fun _ _ => trivial)
      fun hadvances => by cases hadvances
  | statements construct openedAt =>
    exact orderly_of_parses (statements_ends (statement_parses _) construct openedAt)
      (fun _ _ => trivial) fun hadvances => by cases hadvances
  | program =>
    obtain ⟨x, -, hends⟩ := program_ends (maxNesting - s.depth) s.ahead.feed
    exact orderly_of_ends (hends s rfl rfl) fun _ _ _ h =>
      ⟨h.depth, trivial, fun hadvances => by cases hadvances⟩

end Call

/-! ## Texts -/

/-- Where a descent through a text starts, it has what a parser is given, and has asked one
    question. -/
theorem State.start_eq_ok {source : String} {s : State} (h : State.start source = .ok s) :
    Feed.ofSource source = .ok s.ahead.feed ∧ s.depth = 0 ∧
      s.ahead.asked = [s.ahead.current.met] ∧
      s.ahead.current.met = (Cursor.start source).scan.1 ∧
      s.ahead.cursor = (Cursor.start source).scan.2 := by
  unfold State.start at h
  unfold Feed.ofSource
  rcases hs : (Cursor.start source).scan with ⟨t | line | e, cursor⟩
  · rw [hs] at h
    cases h
    refine ⟨?_, rfl, rfl, rfl, rfl⟩
    rw [Feed.ofCursor_token hs]
    unfold Lookahead.feed
    cases Feed.ofCursor cursor <;> rfl
  · rw [hs] at h
    cases h
    exact ⟨Feed.ofCursor_finish hs, rfl, rfl, rfl, rfl⟩
  · rw [hs] at h
    cases h

theorem State.start_eq_error {source : String} {e : LexError}
    (h : State.start source = .error e) : (Cursor.start source).scan.1 = .fault e := by
  unfold State.start at h
  rcases hs : (Cursor.start source).scan with ⟨t | line | e', cursor⟩
  · rw [hs] at h
    cases h
  · rw [hs] at h
    cases h
  · rw [hs] at h
    cases h
    rfl

/-- All that the scanner has been asked for: its first answers, one for each of the tokens `ts` and
    one more. -/
theorem Lookahead.Asks.all {source : String} {s s' : State} {ts : List Token} {last : Scan}
    (h : State.start source = .ok s) (hasks : s.ahead.Asks ts last s'.ahead) :
    s'.ahead.asked = ts.map Scan.token ++ [last] ∧
      (Cursor.start source).meets (ts.length + 1) = ts.map Scan.token ++ [last] := by
  obtain ⟨-, -, hfirst, hmet, hcursor⟩ := State.start_eq_ok h
  have hanswers := hasks.answers
  constructor
  · rw [hasks.asked, hfirst, ← hanswers]
    rfl
  · rw [Cursor.meets_succ, ← hmet, ← hcursor, hanswers]

theorem tokenize_of_meets {source : String} {ts : List Token} {line : Nat}
    (h : (Cursor.start source).meets (ts.length + 1) = ts.map Scan.token ++ [.finish line]) :
    tokenize source = .ok (ts, line) := by
  rw [Cursor.meets_concat] at h
  obtain ⟨hmeets, hlast⟩ := List.append_inj' h rfl
  exact ((Feed.tokensBehind_eq_iff (.start source)).1 ts line).2
    ⟨hmeets, (List.cons.inj hlast).1⟩

/-- A descent through the text, started in the state `s`, comes to an end as compiling the text does.
    The scanner has been asked for no answer twice, and for none behind the first that is no token;
    if the text is accepted, for all of its tokens and its end. -/
structure Descended (source : String) (s : State) (r : Except Halt (List Stmt)) (s' : State) :
    Prop where
  run : Performs (call .program) s r s'
  accepted : ∀ p, compile source = .ok p → r = .ok p.statements
  refused : ∀ e, compile source = .error e → r = .error (.refused e)
  asked : ∃ (ts : List Token) (last : Scan), s'.ahead.asked = ts.map Scan.token ++ [last] ∧
    (Cursor.start source).meets (ts.length + 1) = ts.map Scan.token ++ [last]
  whole : ∀ ss, r = .ok ss → s'.depth = 0 ∧ ∃ ts line, tokenize source = .ok (ts, line) ∧
    s'.ahead.asked = ts.map Scan.token ++ [.finish line]

/-- Every text can be descended through, unless its first token already is an error. -/
structure Descends (source : String) : Prop where
  started : ∀ s, State.start source = .ok s → ∃ r s', Descended source s r s'
  unstarted : ∀ e, State.start source = .error e →
    (Cursor.start source).meets 1 = [.fault e] ∧ compile source = .error (.lexical e)

theorem descended_of_start {source : String} {s : State} (h : State.start source = .ok s) :
    ∃ r s', Descended source s r s' := by
  obtain ⟨hfeed, hdepth, -⟩ := State.start_eq_ok h
  have hcompile := compile_eq_parseAll hfeed
  obtain ⟨x, hx, hends⟩ := program_ends maxNesting s.ahead.feed
  have hrun := hends s rfl (by rw [hdepth]; rfl)
  rw [hx rfl] at hrun
  cases hparse : Stmt.parseAll s.ahead.feed with
  | ok ss =>
    rw [hparse] at hcompile hrun
    cases hrun with
    | ok run passes post =>
      obtain ⟨ts, hasks⟩ := passes.asks
      obtain ⟨hasked, hmeets⟩ := hasks.all h
      obtain rfl := post.value
      obtain ⟨line, hline⟩ := Current.exists_finish post.finished
      rw [hline] at hasked hmeets
      refine ⟨_, _, run, ?_, ?_, ⟨ts, _, hasked, hmeets⟩, fun _ _ => ?_⟩
      · intro p hp
        cases hcompile.symm.trans hp
        rfl
      · intro e he
        cases hcompile.symm.trans he
      · exact ⟨post.depth.trans hdepth, ts, line, tokenize_of_meets hmeets, hasked⟩
  | error e =>
    rw [hparse] at hcompile hrun
    obtain ⟨run, stops⟩ := hrun.fails
    obtain ⟨ts, last, hasks⟩ := stops.asks
    refine ⟨_, _, run, ?_, ?_, ⟨ts, last, hasks.all h⟩, fun _ hss => ?_⟩
    · intro p hp
      cases hcompile.symm.trans hp
    · intro e' he
      cases hcompile.symm.trans he
      rfl
    · cases hss

/-- Every call of the descent is orderly, whatever the state that it is made in, and so is the
    descent through every text. -/
theorem disciplined :
    (∀ {α : Type} (c : Call α) (s : State), c.Orderly s) ∧ ∀ source, Descends source := by
  refine ⟨fun c s => c.orderly s, fun source => ⟨fun s h => descended_of_start h, fun e h => ?_⟩⟩
  have hfault := State.start_eq_error h
  have hsource : Feed.ofSource source = .error e := Feed.ofCursor_fault (Prod.ext hfault rfl)
  constructor
  · rw [Cursor.meets_succ, hfault]
    rfl
  · unfold compile
    rw [hsource]

end Descent

end Naskah
