import Naskah.Proofs.Token.Takes

/-
  Readings: parsers put together from a few actions. A reading looks at the current token, passes
  it, or complains, and that is all it knows of the text. `Parallel` says of two readings that they
  are put together in the same way, and what holds of all readings is proved by induction on it:
  that complaints are truthful about the text (`Parallel.truthful`), and what a text that breaks off
  tells about the texts that go on where it does (`Parallel.foretells`).
-/

namespace Naskah

/-- A parser without a bound on what is left. -/
abbrev Reading (α : Type) : Type :=
  Feed → Except Error (α × Feed)

namespace Reading

variable {α β : Type}

def done (a : α) : Reading α := fun f => .ok (a, f)

/-- Complains, whatever the current token is; `e` is given its line. -/
def refuse (e : Nat → ParseError) : Reading α := fun f => .error (.structural (e f.line))

/-- Passes the current token, if there is one. -/
def pass : Reading Unit
  | .finish line => .ok ((), .finish line)
  | .token _ rest => .ok ((), rest)
  | .faulty _ e => .error (.lexical e)

/-- Goes on as the current token demands, or as `atEnd` if there is none. -/
def look (atEnd : Reading α) (k : Token.Kind → Reading α) : Reading α := fun f =>
  match f.current? with
  | none => atEnd f
  | some kind => k kind f

/-- Notes the line of the current token. -/
def here (k : Nat → Reading α) : Reading α := fun f => k f.line f

def andThen (p : Reading α) (q : α → Reading β) : Reading β := fun f =>
  match p f with
  | .error e => .error e
  | .ok (a, g) => q a g

theorem andThen_eq_ok {p : Reading α} {q : α → Reading β} {f g : Feed} {b : β}
    (h : p.andThen q f = .ok (b, g)) : ∃ a f', p f = .ok (a, f') ∧ q a f' = .ok (b, g) := by
  unfold andThen at h
  split at h
  · cases h
  · next a f' hp => exact ⟨a, f', hp, h⟩

theorem andThen_eq_error {p : Reading α} {q : α → Reading β} {f : Feed} {e : Error}
    (h : p.andThen q f = .error e) :
    p f = .error e ∨ ∃ a f', p f = .ok (a, f') ∧ q a f' = .error e := by
  unfold andThen at h
  split at h
  · next e' hp =>
    cases h
    exact .inl hp
  · next a f' hp => exact .inr ⟨a, f', hp, h⟩

theorem andThen_of_ok {p : Reading α} {q : α → Reading β} {f g : Feed} {a : α}
    (h : p f = .ok (a, g)) : p.andThen q f = q a g := by
  unfold andThen
  rw [h]

theorem andThen_of_error {p : Reading α} {q : α → Reading β} {f : Feed} {e : Error}
    (h : p f = .error e) : p.andThen q f = .error e := by
  unfold andThen
  rw [h]

end Reading

/-! ## Complaints -/

namespace ParseError

/-- The complaint is that the text has come to its end. -/
def AtEnd : ParseError → Prop
  | unexpectedEnd .. => True
  | missingTerminator .. => True
  | _ => False

/-- The complaint is about a block that is not closed. -/
def Unclosed : ParseError → Prop
  | missingTerminator .. => True
  | _ => False

/-- The complaint about a text whose lines are numbered in another way. -/
def mapLine (φ : Nat → Nat) : ParseError → ParseError
  | unexpectedEnd expected line => unexpectedEnd expected (φ line)
  | missingTerminator construct openedAt => missingTerminator construct (φ openedAt)
  | unexpected expected found line => unexpected expected found (φ line)
  | invalidNumber text line => invalidNumber text (φ line)
  | chainedComparison line => chainedComparison (φ line)
  | nestingTooDeep limit line => nestingTooDeep limit (φ line)
  | expressionTooLarge limit line => expressionTooLarge limit (φ line)

@[simp] theorem mapLine_id (e : ParseError) : e.mapLine id = e := by
  cases e <;> rfl

end ParseError

/-- The error is that the text has come to its end, or one of scanning. -/
def Error.Incomplete : Error → Prop
  | .lexical _ => True
  | .structural e => e.AtEnd
  | .runtime _ => False

namespace Feed

/-- There is no error among the tokens of the feed. -/
def Complete (f : Feed) : Prop :=
  ∃ ts line, f.tokens = .ok (ts, line)

theorem complete_finish (line : Nat) : (finish line).Complete :=
  ⟨[], line, rfl⟩

theorem Takes.tokens_error {f g : Feed} {ks : List Token.Kind} {e : LexError} (h : f.Takes ks g)
    (he : g.tokens = .error e) : f.tokens = .error e := by
  obtain ⟨ts, -, rfl⟩ := h.exists_foldr
  rw [tokens_foldr, he]
  rfl

theorem Takes.complete {f g : Feed} {ks : List Token.Kind} (h : f.Takes ks g)
    (hg : g.Complete) : f.Complete := by
  obtain ⟨ts, -, rfl⟩ := h.exists_foldr
  obtain ⟨us, line, hus⟩ := hg
  exact ⟨ts ++ us, line, by rw [tokens_foldr, hus]; rfl⟩

/-- A feed with an error among its tokens is not complete. -/
theorem not_complete {f : Feed} {e : LexError} (h : f.tokens = .error e) : ¬ f.Complete := by
  rintro ⟨ts, line, hts⟩
  rw [h] at hts
  cases hts

/-- The feed breaks off, by its end or by an error, where another goes on. -/
inductive BreaksOff : Feed → Feed → Prop
  | finish {line : Nat} {g : Feed} : BreaksOff (.finish line) g
  | faulty {t : Token} {e : LexError} {g : Feed} : BreaksOff (.faulty t e) (.token t g)
  | token {t : Token} {f g : Feed} (h : BreaksOff f g) : BreaksOff (.token t f) (.token t g)

end Feed

namespace Reading

variable {α β : Type} {f g : Feed}

/-! ## Parallel readings -/

/-- Two readings do the same, up to the lines in their complaints, which `φ` takes to one another.
    The complaints are of the class `C`. If the readings are doomed, they complain about every
    text; if not, then at the end of the text they stay there or complain about nothing but the
    end. -/
inductive Parallel (φ : Nat → Nat) (C : ParseError → Prop) :
    (doomed : Bool) → {α : Type} → Reading α → Reading α → Prop
  | done {α : Type} (a : α) : Parallel φ C false (done a) (done a)
  | refuse {α : Type} {e e' : Nat → ParseError} (line : ∀ l, e' (φ l) = (e l).mapLine φ)
      (other : ∀ l, ¬ (e l).AtEnd) (mem : ∀ l, C (e l)) :
      Parallel φ C true (refuse e : Reading α) (refuse e')
  | pass : Parallel φ C false pass pass
  | look {α : Type} {p p' : Reading α} {k k' : Token.Kind → Reading α} {d : Token.Kind → Bool}
      (atEnd : Parallel φ C false p p') (go : ∀ kind, Parallel φ C (d kind) (k kind) (k' kind)) :
      Parallel φ C false (look p k) (look p' k')
  | need {α : Type} {e e' : Nat → ParseError} {k k' : Token.Kind → Reading α}
      {d : Token.Kind → Bool} (line : ∀ l, e' (φ l) = (e l).mapLine φ)
      (atEnd : ∀ l, (e l).AtEnd) (mem : ∀ l, C (e l))
      (go : ∀ kind, Parallel φ C (d kind) (k kind) (k' kind)) :
      Parallel φ C false (Reading.look (Reading.refuse e) k) (Reading.look (Reading.refuse e') k')
  | here {α : Type} {d : Bool} {k k' : Nat → Reading α}
      (go : ∀ l, Parallel φ C d (k l) (k' (φ l))) : Parallel φ C d (here k) (here k')
  | andThen {α β : Type} {d d' : Bool} {p p' : Reading α} {q q' : α → Reading β}
      (first : Parallel φ C d p p') (second : ∀ a, Parallel φ C d' (q a) (q' a)) :
      Parallel φ C (d || d') (p.andThen q) (p'.andThen q')
  /-- A reading that repeats something until the text ends is parallel to another if they are for
      every number of rounds. -/
  | rounds {α : Type} {d : Bool} {p p' : Reading α} {q q' : Nat → Reading α}
      (go : ∀ n, Parallel φ C d (q n) (q' n)) (left : ∀ n f, f.size ≤ n → p f = q n f)
      (right : ∀ n f, f.size ≤ n → p' f = q' n f) : Parallel φ C d p p'

variable {φ : Nat → Nat} {C : ParseError → Prop} {d : Bool} {p p' : Reading α}

/-- The kinds of the current token may be treated apart. -/
theorem Parallel.look' {k k' : Token.Kind → Reading α} (atEnd : Parallel φ C false p p')
    (go : ∀ kind, ∃ d, Parallel φ C d (k kind) (k' kind)) :
    Parallel φ C false (Reading.look p k) (Reading.look p' k') := by
  obtain ⟨_, go⟩ := Classical.skolem.1 go
  exact .look atEnd go

theorem Parallel.need' {e e' : Nat → ParseError} {k k' : Token.Kind → Reading α}
    (line : ∀ l, e' (φ l) = (e l).mapLine φ) (atEnd : ∀ l, (e l).AtEnd) (mem : ∀ l, C (e l))
    (go : ∀ kind, ∃ d, Parallel φ C d (k kind) (k' kind)) :
    Parallel φ C false (Reading.look (Reading.refuse e) k)
      (Reading.look (Reading.refuse e') k') := by
  obtain ⟨_, go⟩ := Classical.skolem.1 go
  exact .need line atEnd mem go

/-- A reading does nothing but take tokens. -/
theorem Parallel.takes (h : Parallel φ C d p p') {a : α} (hp : p f = .ok (a, g)) :
    ∃ ks, f.Takes ks g := by
  induction h generalizing f g with
  | done =>
    cases hp
    exact ⟨[], .nil⟩
  | refuse => cases hp
  | pass =>
    cases f with
    | finish line =>
      cases hp
      exact ⟨[], .nil⟩
    | token t =>
      cases hp
      exact ⟨[t.kind], .one t g⟩
    | faulty t e => cases hp
  | look _ _ ihend ih =>
    unfold Reading.look at hp
    split at hp
    · exact ihend hp
    · exact ih _ hp
  | need _ _ _ _ ih =>
    unfold Reading.look at hp
    split at hp
    · cases hp
    · exact ih _ hp
  | here _ ih => exact ih _ hp
  | andThen _ _ ihp ihq =>
    obtain ⟨b, f', hp, hq⟩ := andThen_eq_ok hp
    obtain ⟨ks, hks⟩ := ihp hp
    obtain ⟨ms, hms⟩ := ihq _ hq
    exact ⟨ks ++ ms, hks.append hms⟩
  | rounds _ left _ ih =>
    rw [left f.size f (Nat.le_refl _)] at hp
    exact ih _ hp

/-! ## Truthful complaints -/

/-- The error is one of the text: an error of scanning is that of the feed, and a complaint that the
    text has come to its end is made only if there is no error up to the end. -/
def Truthful (C : ParseError → Prop) (f : Feed) : Error → Prop
  | .lexical e => f.tokens = .error e
  | .structural e => C e ∧ (e.AtEnd → f.Complete)
  | .runtime _ => False

theorem Truthful.of_takes {ks : List Token.Kind} {e : Error} (hf : f.Takes ks g)
    (h : Truthful C g e) : Truthful C f e := by
  cases e with
  | lexical e => exact hf.tokens_error h
  | structural e => exact ⟨h.1, fun hend => hf.complete (h.2 hend)⟩
  | runtime e => exact h

theorem Parallel.truthful (h : Parallel φ C d p p') {e : Error} (hp : p f = .error e) :
    Truthful C f e := by
  induction h generalizing f e with
  | done => cases hp
  | refuse _ other mem =>
    cases hp
    exact ⟨mem _, fun hend => absurd hend (other _)⟩
  | pass =>
    cases f with
    | finish line => cases hp
    | token t rest => cases hp
    | faulty t le =>
      cases hp
      rfl
  | look _ _ ihend ih =>
    unfold Reading.look at hp
    split at hp
    · exact ihend hp
    · exact ih _ hp
  | need _ _ mem _ ih =>
    unfold Reading.look at hp
    split at hp
    · next hnone =>
      obtain ⟨line, rfl⟩ := Feed.exists_finish hnone
      cases hp
      exact ⟨mem _, fun _ => Feed.complete_finish line⟩
    · exact ih _ hp
  | here _ ih => exact ih _ hp
  | andThen hfirst _ ihp ihq =>
    rcases andThen_eq_error hp with hp | ⟨a, f', hp, hq⟩
    · exact ihp hp
    · obtain ⟨ks, hks⟩ := hfirst.takes hp
      exact .of_takes hks (ihq _ hq)
  | rounds _ left _ ih =>
    rw [left f.size f (Nat.le_refl _)] at hp
    exact ih _ hp

/-! ## At the end of the text -/

/-- The end of the text is all that is left, or all that is complained about. -/
def Waits (x : Except Error (α × Feed)) : Prop :=
  match x with
  | .ok (_, g) => g.current? = none
  | .error e => e.Incomplete

/-- What is doomed complains about every text. -/
theorem Parallel.complains (h : Parallel id C d p p') (hd : d = true) (g : Feed) :
    ∃ e, p' g = .error e := by
  induction h generalizing g with
  | done | pass | look | need => cases hd
  | refuse => exact ⟨_, rfl⟩
  | here _ ih => exact ih g.line hd g
  | @andThen _ _ d d' p p' q q' _ _ ihp ihq =>
    rcases Bool.or_eq_true_iff.1 hd with hd | hd
    · obtain ⟨e, he⟩ := ihp hd g
      exact ⟨e, andThen_of_error he⟩
    · cases hp : p' g with
      | error e => exact ⟨e, andThen_of_error hp⟩
      | ok r =>
        obtain ⟨e, he⟩ := ihq r.1 hd r.2
        exact ⟨e, (andThen_of_ok hp).trans he⟩
  | rounds _ _ right ih =>
    rw [right g.size g (Nat.le_refl _)]
    exact ih _ hd g

/-- What is not doomed waits at the end of the text. -/
theorem Parallel.waits (h : Parallel φ C d p p') (hd : d = false) (line : Nat) :
    Waits (p (.finish line)) := by
  induction h generalizing line with
  | done | pass => rfl
  | refuse => cases hd
  | look _ _ ihend _ => exact ihend rfl line
  | need _ atEnd => exact atEnd line
  | here _ ih => exact ih line hd line
  | @andThen _ _ d d' p p' q q' _ _ ihp ihq =>
    obtain ⟨hd, hd'⟩ := Bool.or_eq_false_iff.1 hd
    have hwaits := ihp hd line
    cases hp : p (.finish line) with
    | error e =>
      rw [hp] at hwaits
      rw [andThen_of_error hp]
      exact hwaits
    | ok r =>
      rw [hp] at hwaits
      obtain ⟨line', hline⟩ := Feed.exists_finish hwaits
      rw [andThen_of_ok (hp : p (.finish line) = .ok (r.1, r.2)), hline]
      exact ihq r.1 hd' line'
  | rounds _ left _ ih =>
    rw [left 0 (.finish line) (Nat.le_refl _)]
    exact ih 0 hd line

/-! ## Texts that break off -/

/-- What is read from a feed that breaks off, beside what is read from one that goes on. Either the
    reading has come to where the feed breaks off, or both readings are the same; and a complaint
    that does not wait for more text is not met by more text. -/
def Foretells (f : Feed) (x y : Except Error (α × Feed)) : Prop :=
  match x with
  | .ok (a, f') => f'.current? = none ∨ ∃ g', y = .ok (a, g') ∧ f'.BreaksOff g'
  | .error e => e.Incomplete ∨ y = .error e ∨ f.Complete ∧ ∃ e', y = .error e'

theorem Foretells.of_waits {x y : Except Error (α × Feed)} (h : Waits x) : Foretells f x y := by
  match x with
  | .ok (a, f') => exact .inl h
  | .error e => exact .inl h

theorem Foretells.of_takes {ks : List Token.Kind} {x y : Except Error (α × Feed)}
    (hf : f.Takes ks g) (h : Foretells g x y) : Foretells f x y := by
  match x with
  | .ok (a, f') => exact h
  | .error e => exact h.imp_right fun h => h.imp_right fun ⟨hg, he⟩ => ⟨hf.complete hg, he⟩

/-- Where the feed has come to its end, a reading that is doomed foretells complaints. -/
theorem Foretells.of_doomed {x y : Except Error (α × Feed)} (hf : f.Complete)
    (hx : ∀ a f', x = .ok (a, f') → f'.current? = none) (hy : ∃ e, y = .error e) :
    Foretells f x y := by
  match x with
  | .ok (a, f') => exact .inl (hx a f' rfl)
  | .error e => exact .inr (.inr ⟨hf, hy⟩)

theorem Parallel.foretells (h : Parallel id C d p p') (hb : f.BreaksOff g) :
    Foretells f (p f) (p' g) := by
  induction h generalizing f g with
  | done => exact .inr ⟨g, rfl, hb⟩
  | @refuse _ e e' line =>
    have hline (l : Nat) : e' l = e l := (line l).trans (e l).mapLine_id
    cases hb with
    | finish => exact .inr (.inr ⟨Feed.complete_finish _, _, rfl⟩)
    | faulty | token => exact .inr (.inl (congrArg (Except.error ∘ Error.structural) (hline _)))
  | pass =>
    cases hb with
    | finish => exact .inl rfl
    | faulty => exact .inl trivial
    | token hb => exact .inr ⟨_, rfl, hb⟩
  | look hend _ _ ih =>
    cases hb with
    | finish => exact .of_waits (hend.waits rfl _)
    | faulty => exact ih _ .faulty
    | token hb => exact ih _ (.token hb)
  | need _ atEnd _ _ ih =>
    cases hb with
    | finish => exact .inl (atEnd _)
    | faulty => exact ih _ .faulty
    | token hb => exact ih _ (.token hb)
  | @here _ d k k' hgo ih =>
    cases hb with
    | faulty => exact ih _ .faulty
    | token hb => exact ih _ (.token hb)
    | @finish line g =>
      cases d with
      | false => exact .of_waits ((hgo line).waits rfl line)
      | true =>
        refine .of_doomed (Feed.complete_finish line) (fun a f' hx => ?_)
          ((hgo g.line).complains rfl g)
        obtain ⟨ks, hks⟩ := (hgo line).takes hx
        cases hks
        rfl
  | @andThen _ _ d d' p p' q q' hp hq ihp ihq =>
    have hfirst := ihp hb
    match hpf : p f with
    | .error e =>
      rw [hpf] at hfirst
      rw [andThen_of_error hpf]
      refine hfirst.imp_right fun h => h.imp (fun h => andThen_of_error h) fun ⟨hf, e', he'⟩ => ?_
      exact ⟨hf, e', andThen_of_error he'⟩
    | .ok (a, f') =>
      obtain ⟨ks, hks⟩ := hp.takes hpf
      rw [hpf] at hfirst
      rw [andThen_of_ok hpf]
      rcases hfirst with hend | ⟨g', hg', hb'⟩
      · obtain ⟨line, rfl⟩ := Feed.exists_finish hend
        cases d' with
        | false => exact .of_waits ((hq a).waits rfl line)
        | true =>
          refine .of_doomed (hks.complete (Feed.complete_finish line)) (fun b f'' hx => ?_) ?_
          · obtain ⟨ms, hms⟩ := (hq a).takes hx
            cases hms
            rfl
          · exact (hp.andThen hq).complains (Bool.or_true d) g
      · rw [andThen_of_ok hg']
        exact (ihq a hb').of_takes hks
  | @rounds _ d p p' q q' _ left right ih =>
    have hf := left (max f.size g.size) f (Nat.le_max_left _ _)
    have hg := right (max f.size g.size) g (Nat.le_max_right _ _)
    rw [hf, hg]
    exact ih _ hb

/-- Where a complaint about the end of a text is made, an error on the way there would be met. -/
theorem Parallel.meets (h : Parallel id C d p p') (hb : f.BreaksOff g) {e : LexError}
    (he : f.tokens = .error e) {pe : ParseError} (hend : pe.AtEnd)
    (hg : p' g = .error (.structural pe)) : p f = .error (.lexical e) := by
  have hforetells := h.foretells hb
  rw [hg] at hforetells
  cases hp : p f with
  | ok r =>
    rw [hp] at hforetells
    rcases hforetells with hnone | ⟨g', hg', -⟩
    · obtain ⟨line, hline⟩ := Feed.exists_finish hnone
      obtain ⟨ks, hks⟩ := h.takes (hp : p f = .ok (r.1, r.2))
      rw [hline] at hks
      exact absurd (hks.complete (Feed.complete_finish line)) (Feed.not_complete he)
    · cases hg'
  | error e' =>
    have htrue := h.truthful hp
    cases e' with
    | lexical e' =>
      rw [Truthful, he] at htrue
      cases htrue
      rfl
    | structural pe' =>
      rw [hp] at hforetells
      rcases hforetells with hend' | heq | ⟨hcomplete, -⟩
      · exact absurd (htrue.2 hend') (Feed.not_complete he)
      · cases heq
        exact absurd (htrue.2 hend) (Feed.not_complete he)
      · exact absurd hcomplete (Feed.not_complete he)
    | runtime e' => exact htrue.elim

end Reading

/-! ## Parsers as readings -/

/-- What a parser returns, without the bound on what is left. -/
def Parsed.view {α : Type} {n : Nat} : Except Error (Parsed α n) → Except Error (α × Feed)
  | .error e => .error e
  | .ok r => .ok (r.value, r.rest)

theorem Parsed.view_eq_ok {α : Type} {n : Nat} {x : Except Error (Parsed α n)} {a : α} {g : Feed}
    (h : Parsed.view x = .ok (a, g)) : ∃ hlt, x = .ok ⟨a, g, hlt⟩ := by
  cases x with
  | error e => cases h
  | ok r =>
    cases h
    exact ⟨r.shorter, rfl⟩

/-- What a parser does, as a reading. -/
def reading {α : Type} {bound : Feed → Nat} (p : (f : Feed) → Except Error (Parsed α (bound f))) :
    Reading α := fun f => Parsed.view (p f)

open Reading

theorem expect_reading {α : Type} (wanted : Expectation) (accept : Token.Kind → Option α) :
    reading (expect wanted accept) =
      look (refuse (.unexpectedEnd wanted)) fun kind =>
        match accept kind with
        | none => refuse (.unexpected wanted (.token kind))
        | some a => pass.andThen fun _ => done a := by
  funext f
  unfold reading expect look
  cases f with
  | finish line => rfl
  | token t rest =>
    dsimp only [Feed.take?, Feed.current?]
    cases accept t.kind <;> rfl
  | faulty t e =>
    dsimp only [Feed.take?, Feed.current?]
    cases accept t.kind <;> rfl

variable {φ : Nat → Nat} {C : ParseError → Prop}

theorem expect_parallel {α : Type} (hC : ∀ e : ParseError, ¬ e.Unclosed → C e)
    (wanted : Expectation) (accept : Token.Kind → Option α) :
    Parallel φ C false (reading (expect wanted accept)) (reading (expect wanted accept)) := by
  rw [expect_reading]
  refine .need' (fun _ => rfl) (fun _ => trivial) (fun _ => hC _ id) fun kind => ?_
  cases accept kind with
  | none => exact ⟨_, .refuse (fun _ => rfl) (fun _ => id) fun _ => hC _ id⟩
  | some a => exact ⟨_, .andThen .pass fun _ => .done a⟩

end Naskah
