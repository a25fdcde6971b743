import Naskah.Parsed
import Naskah.Proofs.Token.Tokenize

/-
  Taking tokens off a feed. `Feed.Takes f ks g` says that the kinds `ks` are taken off the feed `f`
  and that `g` is left. The rules for parsers are stated on it, so that no parser's proof has to
  look into a feed.
-/

namespace Naskah

namespace Feed

/-- The feed `f` starts with tokens of the kinds `ks` and goes on as `g`. -/
inductive Takes : (f : Feed) → (ks : List Token.Kind) → (g : Feed) → Prop
  | nil {g : Feed} : Takes g [] g
  | cons {t : Token} {f g : Feed} {ks : List Token.Kind} (h : Takes f ks g) :
      Takes (.token t f) (t.kind :: ks) g

theorem Takes.one (t : Token) (f : Feed) : Takes (.token t f) [t.kind] f :=
  .cons .nil

theorem Takes.append {f g h : Feed} {ks ms : List Token.Kind} (hf : f.Takes ks g)
    (hg : g.Takes ms h) : f.Takes (ks ++ ms) h := by
  induction hf with
  | nil => exact hg
  | cons _ ih => exact .cons (ih hg)

theorem Takes.split {f h : Feed} {ks ms : List Token.Kind} (hf : f.Takes (ks ++ ms) h) :
    ∃ g, f.Takes ks g ∧ g.Takes ms h := by
  induction ks generalizing f with
  | nil => exact ⟨f, .nil, hf⟩
  | cons k ks ih =>
    cases hf with
    | cons hf =>
      obtain ⟨g, h1, h2⟩ := ih hf
      exact ⟨g, .cons h1, h2⟩

theorem Takes.uncons {f h : Feed} {k : Token.Kind} {ks : List Token.Kind}
    (hf : f.Takes (k :: ks) h) : ∃ t g, t.kind = k ∧ f = .token t g ∧ g.Takes ks h := by
  cases hf with
  | @cons t g _ _ hg => exact ⟨t, g, rfl, rfl, hg⟩

/-- What comes after the kinds taken shows on the feed that is left. -/
theorem Takes.head? {f g : Feed} {ks rest : List Token.Kind} (h : f.Takes ks g)
    (hr : rest.head? = g.current?) : (ks ++ rest).head? = f.current? := by
  cases h with
  | nil => exact hr
  | cons => rfl

/-- The first of all kinds that are left is that of the current token. -/
theorem Takes.head?_finish {f : Feed} {ks : List Token.Kind} {line : Nat}
    (h : f.Takes ks (.finish line)) : ks.head? = f.current? := by
  have := h.head? (rfl : List.head? [] = (finish line).current?)
  rwa [List.append_nil] at this

theorem exists_finish {f : Feed} (h : f.current? = none) : ∃ line, f = .finish line := by
  cases f with
  | finish line => exact ⟨line, rfl⟩
  | token t rest => cases h
  | faulty t e => cases h

/-- A feed that could pass its current token starts with that token. -/
theorem take?_eq_ok {f : Feed} {t : Token} {g : { rest : Feed // rest.size < f.size }}
    (h : f.take? = some (t, .ok g)) : f = .token t g.1 := by
  cases f with
  | finish line => cases h
  | token t rest =>
    simp only [take?, Option.some.injEq, Prod.mk.injEq, Except.ok.injEq] at h
    obtain ⟨rfl, rfl⟩ := h
    rfl
  | faulty t e =>
    simp only [take?, Option.some.injEq, Prod.mk.injEq, reduceCtorEq, and_false] at h

theorem take?_takes {f : Feed} {t : Token} {g : { rest : Feed // rest.size < f.size }}
    (h : f.take? = some (t, .ok g)) : f.Takes [t.kind] g.1 := by
  have htok := Takes.one t g.1
  rwa [← take?_eq_ok h] at htok

theorem take?_kind {f : Feed} {t : Token} {next : Except LexError { rest : Feed // rest.size < f.size }}
    (h : f.take? = some (t, next)) : f.current? = some t.kind := by
  rw [current?_eq, h]
  rfl

theorem take?_none {f : Feed} (h : f.take? = none) : f.current? = none := by
  rw [current?_eq, h]
  rfl

theorem take?_line {f : Feed} {t : Token} {next : Except LexError { rest : Feed // rest.size < f.size }}
    (h : f.take? = some (t, next)) : f.line = t.line := by
  cases f <;> cases h <;> rfl

/-! ## Tokens in front of a feed -/

/-- The tokens that are taken stand in front of the feed that is left. -/
theorem Takes.exists_foldr {f g : Feed} {ks : List Token.Kind} (h : f.Takes ks g) :
    ∃ ts : List Token, ts.map Token.kind = ks ∧ f = ts.foldr token g := by
  induction h with
  | nil => exact ⟨[], rfl, rfl⟩
  | @cons t _ _ _ _ ih =>
    obtain ⟨ts, rfl, rfl⟩ := ih
    exact ⟨t :: ts, rfl, rfl⟩

theorem takes_foldr (ts : List Token) (g : Feed) :
    (ts.foldr token g).Takes (ts.map Token.kind) g := by
  induction ts with
  | nil => exact .nil
  | cons t ts ih => exact .cons ih

theorem tokens_foldr (ts : List Token) (g : Feed) :
    (ts.foldr token g).tokens = g.tokens.map fun (us, line) => (ts ++ us, line) := by
  induction ts with
  | nil => cases h : g.tokens <;> simp only [List.foldr_nil, h] <;> rfl
  | cons t ts ih =>
    rw [List.foldr_cons, tokens, ih]
    cases g.tokens <;> rfl

/-! ## Feeds of scanned tokens -/

/-- Every token of the feed, the one before an error included, is of a kind that a lexeme has. -/
def Scanned : Feed → Prop
  | finish _ => True
  | token t rest => (∃ cs, Lexeme cs t.kind) ∧ rest.Scanned
  | faulty t _ => ∃ cs, Lexeme cs t.kind

theorem Takes.scanned {f g : Feed} {ks : List Token.Kind} (h : f.Takes ks g) (hf : f.Scanned) :
    g.Scanned := by
  induction h with
  | nil => exact hf
  | cons _ ih => exact ih hf.2

theorem exists_lexeme_of_scan {c c' : Cursor} {t : Token} (h : c.scan = (.token t, c')) :
    ∃ cs, Lexeme cs t.kind := by
  simp only [Cursor.scan] at h
  split at h
  · cases h
  · split at h
    · next hl =>
      cases h
      obtain ⟨cs, rest, -, -, hk, -⟩ := Scan.lexeme_eq_ok hl
      exact ⟨_, hk⟩
    · cases h

theorem ofCursor_scanned (c : Cursor) {f : Feed} (h : ofCursor c = .ok f) : f.Scanned := by
  match hs : c.scan with
  | (.finish line, c') =>
    rw [ofCursor_finish hs] at h
    cases h
    trivial
  | (.fault e, c') =>
    rw [ofCursor_fault hs] at h
    cases h
  | (.token t, c') =>
    rw [ofCursor_token hs] at h
    split at h
    · next rest hr =>
      cases h
      exact ⟨exists_lexeme_of_scan hs, ofCursor_scanned c' hr⟩
    · cases h
      exact exists_lexeme_of_scan hs
termination_by c.rest.length
decreasing_by exact Cursor.scan_shorter hs (by simp)

/-- The tokens of a feed and its end, taken off one after another. -/
theorem takes_of_tokens {f : Feed} {ts : List Token} {line : Nat} (h : f.tokens = .ok (ts, line)) :
    f.Takes (ts.map Token.kind) (.finish line) := by
  induction f generalizing ts with
  | finish l =>
    cases h
    exact .nil
  | token t rest ih =>
    rw [tokens] at h
    rcases hr : rest.tokens with e | ⟨us, l⟩
    · rw [hr] at h
      cases h
    · rw [hr] at h
      cases h
      exact .cons (ih hr)
  | faulty t e => cases h

/-- A feed that can be taken to its end has no error. -/
theorem tokens_of_takes {f : Feed} {ks : List Token.Kind} {line : Nat}
    (h : f.Takes ks (.finish line)) :
    ∃ ts, f.tokens = .ok (ts, line) ∧ ts.map Token.kind = ks := by
  generalize hg : Feed.finish line = g at h
  induction h with
  | nil =>
    subst hg
    exact ⟨[], rfl, rfl⟩
  | @cons t _ _ _ _ ih =>
    obtain ⟨ts, hts, rfl⟩ := ih hg
    exact ⟨t :: ts, by rw [tokens, hts]; rfl, rfl⟩

end Feed

/-! ## Taking one token -/

theorem expect_eq_ok {α : Type} {wanted : Expectation} {accept : Token.Kind → Option α} {f : Feed}
    {r : Parsed α f.size} (h : expect wanted accept f = .ok r) :
    ∃ k, f.Takes [k] r.rest ∧ accept k = some r.value := by
  unfold expect at h
  split at h
  · cases h
  · next t next htake =>
    split at h
    · cases h
    · next a ha =>
      split at h
      · cases h
      · next g shorter =>
        cases h
        exact ⟨t.kind, Feed.take?_takes htake, ha⟩

theorem expectKeyword_takes {k : Keyword} {f : Feed} {r : Parsed Unit f.size}
    (h : expectKeyword k f = .ok r) : f.Takes [.keyword k] r.rest := by
  obtain ⟨_, htok, ht⟩ := expect_eq_ok h
  split at ht
  · next hk => exact hk ▸ htok
  · cases ht

theorem expectSymbol_takes {s : Symbol} {f : Feed} {r : Parsed Unit f.size}
    (h : expectSymbol s f = .ok r) : f.Takes [.symbol s] r.rest := by
  obtain ⟨_, htok, ht⟩ := expect_eq_ok h
  split at ht
  · next hk => exact hk ▸ htok
  · cases ht

theorem expectName_takes {wanted : Expectation} {f : Feed} {r : Parsed String f.size}
    (h : expectName wanted f = .ok r) : f.Takes [.identifier r.value] r.rest := by
  obtain ⟨_, htok, ht⟩ := expect_eq_ok h
  split at ht
  · exact Option.some.inj ht ▸ htok
  · cases ht

end Naskah
