import Naskah.Proofs.Reading.Basic

/-
  Blocks that are open at the end of a text. The words `kalo`, `ulangin` and `selama` open a block
  and `yaudah` closes the block opened last; `openBlocks` keeps account of it token by token.
  `Encloses` says that a reading keeps the same account, though a chain of `kalogak` links is many
  readings and one block, and what the reading does if the text goes on with `yaudah`. It holds of
  two readings one after the other (`EnclosesAt.andThen`), of one that looks at the current token
  (`EnclosesAt.look`), and of one that passes it (`EnclosesAt.pass`).
-/

namespace Naskah

open Reading

/-- Open blocks, the one opened last first, each with the line of the word that opened it. -/
abbrev Blocks : Type :=
  List (Construct × Nat)

/-- What a token does to the open blocks. -/
def Token.scope (blocks : Blocks) (t : Token) : Blocks :=
  match t.kind with
  | .keyword .kalo => (.cond, t.line) :: blocks
  | .keyword .ulangin => (.count, t.line) :: blocks
  | .keyword .selama => (.loop, t.line) :: blocks
  | .keyword .yaudah => blocks.tail
  | _ => blocks

/-- The blocks that are open behind tokens. -/
def openBehind (blocks : Blocks) (ts : List Token) : Blocks :=
  ts.foldl Token.scope blocks

/-- The blocks that are open at the end of a text, given its tokens. -/
def openBlocks (ts : List Token) : Blocks :=
  openBehind [] ts

theorem openBehind_append (blocks : Blocks) (ts us : List Token) :
    openBehind blocks (ts ++ us) = openBehind (openBehind blocks ts) us :=
  List.foldl_append

/-- A token of the kind opens no block and closes none. -/
def Token.Kind.Neutral (k : Token.Kind) : Prop :=
  ∀ (blocks : Blocks) (line : Nat), Token.scope blocks ⟨k, line⟩ = blocks

theorem openBehind_of_neutral {ts : List Token} (h : ∀ k ∈ ts.map Token.kind, k.Neutral)
    (blocks : Blocks) : openBehind blocks ts = blocks := by
  induction ts with
  | nil => rfl
  | cons t ts ih =>
    rw [List.map_cons] at h
    obtain ⟨hfirst, hmore⟩ := List.forall_mem_cons.1 h
    have hscope : t.scope blocks = blocks := hfirst blocks t.line
    rw [openBehind, List.foldl_cons, hscope]
    exact ih hmore

/-! ## Texts that go on -/

namespace Feed

/-- The feed goes on, where it ends, as another. -/
def followedBy : Feed → Feed → Feed
  | finish _, h => h
  | token t f, h => token t (f.followedBy h)
  | faulty t e, _ => faulty t e

/-- The first token of the feed. -/
inductive StartsWith (t : Token) : Feed → Prop
  | token {f : Feed} : StartsWith t (.token t f)
  | faulty {e : LexError} : StartsWith t (.faulty t e)

theorem StartsWith.followedBy {t : Token} {f : Feed} (h : f.StartsWith t) (g : Feed) :
    (f.followedBy g).StartsWith t := by
  cases h with
  | token => exact .token
  | faulty => exact .faulty

theorem StartsWith.current? {t : Token} {f : Feed} (h : f.StartsWith t) :
    f.current? = some t.kind := by
  cases h <;> rfl

theorem StartsWith.line {t : Token} {f : Feed} (h : f.StartsWith t) : f.line = t.line := by
  cases h <;> rfl

theorem current?_followedBy {f h : Feed} {k : Token.Kind} (hf : f.current? = some k) :
    (f.followedBy h).current? = some k := by
  cases f with
  | finish line => cases hf
  | token t f | faulty t e => exact hf

theorem followedBy_foldr (ts : List Token) (g h : Feed) :
    (ts.foldr token g).followedBy h = ts.foldr token (g.followedBy h) := by
  induction ts with
  | nil => rfl
  | cons t ts ih => exact congrArg (token t) ih

theorem Takes.followedBy {f g : Feed} {ks : List Token.Kind} (hf : f.Takes ks g) (h : Feed) :
    (f.followedBy h).Takes ks (g.followedBy h) := by
  induction hf with
  | nil => exact .nil
  | cons _ ih => exact .cons ih

end Feed

/-! ## Readings and blocks -/

/-- The word that closes a block, and the end of the text behind it. -/
def Feed.closing (closedAt last : Nat) : Feed :=
  .token ⟨.keyword .yaudah, closedAt⟩ (.finish last)

/-- The reading has come to an end before `left`, or a block is not closed. -/
def Resumes {α : Type} (left : Feed) (x : Except Error (α × Feed)) : Prop :=
  (∃ a, x = .ok (a, left)) ∨ ∃ c l, x = .error (.structural (.missingTerminator c l))

/-- The reading keeps account of the open blocks of the feed, from `before` to `behind`. What it
    reads to the end it reads in the same way if `yaudah` follows. Where it complains about a
    block, the block is the one opened last; and where `yaudah` and the end of the text follow, it
    goes on, as far as `left`. -/
structure EnclosesAt (closedAt last : Nat) (left : Feed) (before behind : Blocks) {α : Type}
    (p : Reading α) (f : Feed) : Prop where
  account {g : Feed} {a : α} (h : p f = .ok (a, g)) :
    ∃ ts, f = ts.foldr .token g ∧ openBehind before ts = behind
  extend {g h : Feed} {a : α} (hp : p f = .ok (a, g))
    (hh : h.current? = some (.keyword .yaudah)) : p (f.followedBy h) = .ok (a, g.followedBy h)
  unclosed {c : Construct} {l : Nat} (h : p f = .error (.structural (.missingTerminator c l))) :
    ∃ ts line blocks, f = ts.foldr .token (.finish line) ∧
      openBehind before ts = (c, l) :: blocks
  resume {c : Construct} {l : Nat} (h : p f = .error (.structural (.missingTerminator c l))) :
    Resumes left (p (f.followedBy (.closing closedAt last)))

def Encloses (closedAt last : Nat) (left : Feed) (before behind : Blocks) {α : Type}
    (p : Reading α) : Prop :=
  ∀ f, f.Scanned → EnclosesAt closedAt last left before behind p f

/-- A reading that complains about no block. -/
def Untroubled {α : Type} (p : Reading α) : Prop :=
  ∀ f c l, p f ≠ .error (.structural (.missingTerminator c l))

theorem Untroubled.of_parallel {α : Type} {φ : Nat → Nat} {d : Bool} {p : Reading α}
    (h : Reading.Parallel φ (fun e => ¬ e.Unclosed) d p p) : Untroubled p :=
  fun _ _ _ hp => (h.truthful hp).1 trivial

variable {closedAt last line : Nat} {left mid : Feed} {before between behind : Blocks}
  {α β : Type} {p q : Reading α} {f : Feed} {t : Token}

namespace EnclosesAt

theorem done (a : α) (f : Feed) : EnclosesAt closedAt last left before before (done a) f where
  account h := by
    cases h
    exact ⟨[], rfl, rfl⟩
  extend h _ := by
    cases h
    rfl
  unclosed h := by cases h
  resume h := by cases h

/-- A complaint that is not about a block. -/
theorem of_error {e : Error} (hp : p f = .error e)
    (he : ∀ c l, e ≠ .structural (.missingTerminator c l)) :
    EnclosesAt closedAt last left before behind p f where
  account h := by
    rw [hp] at h
    cases h
  extend h _ := by
    rw [hp] at h
    cases h
  unclosed {c l} h := by
    rw [hp] at h
    exact absurd (Except.error.inj h) (he c l)
  resume {c l} h := by
    rw [hp] at h
    exact absurd (Except.error.inj h) (he c l)

theorem refuse {e : Nat → ParseError} (he : ∀ l, ¬ (e l).Unclosed) (f : Feed) :
    EnclosesAt closedAt last left before behind (refuse e : Reading α) f := by
  refine of_error rfl fun c l h => he f.line ?_
  rw [Error.structural.inj h]
  trivial

/-- Where the first reading can resume, the second one has to go on from where the first one comes
    to. -/
theorem andThen {q : α → Reading β} (hp : EnclosesAt closedAt last mid before between p f)
    (hf : f.Scanned)
    (hq : ∀ a g, p f = .ok (a, g) → g.Scanned →
      EnclosesAt closedAt last left between behind (q a) g)
    (hgo : Untroubled p ∨ ∀ a, Resumes left (q a mid)) :
    EnclosesAt closedAt last left before behind (p.andThen q) f := by
  have hfirst {a : α} {g : Feed} (hpf : p f = .ok (a, g)) :
      ∃ ts, f = ts.foldr .token g ∧ openBehind before ts = between ∧
        EnclosesAt closedAt last left between behind (q a) g := by
    obtain ⟨ts, rfl, hts⟩ := hp.account hpf
    exact ⟨ts, rfl, hts, hq a g hpf ((Feed.takes_foldr ts g).scanned hf)⟩
  constructor
  · intro g b h
    obtain ⟨a, f', hpf, hqf⟩ := andThen_eq_ok h
    obtain ⟨ts, rfl, hts, hsecond⟩ := hfirst hpf
    obtain ⟨us, rfl, hus⟩ := hsecond.account hqf
    exact ⟨ts ++ us, by rw [List.foldr_append], by rw [openBehind_append, hts, hus]⟩
  · intro g h b hpq hh
    obtain ⟨a, f', hpf, hqf⟩ := andThen_eq_ok hpq
    obtain ⟨-, -, -, hsecond⟩ := hfirst hpf
    rw [andThen_of_ok (hp.extend hpf hh)]
    exact hsecond.extend hqf hh
  · intro c l h
    rcases andThen_eq_error h with hpf | ⟨a, f', hpf, hqf⟩
    · exact hp.unclosed hpf
    · obtain ⟨ts, rfl, hts, hsecond⟩ := hfirst hpf
      obtain ⟨us, line, blocks, rfl, hus⟩ := hsecond.unclosed hqf
      exact ⟨ts ++ us, line, blocks, by rw [List.foldr_append],
        by rw [openBehind_append, hts, hus]⟩
  · intro c l h
    rcases andThen_eq_error h with hpf | ⟨a, f', hpf, hqf⟩
    · rcases hp.resume hpf with ⟨a, ha⟩ | ⟨c', l', hopen⟩
      · rw [andThen_of_ok ha]
        exact hgo.resolve_left (fun h => h f c l hpf) a
      · exact .inr ⟨c', l', andThen_of_error hopen⟩
    · obtain ⟨-, -, -, hsecond⟩ := hfirst hpf
      rw [andThen_of_ok (hp.extend hpf rfl)]
      exact hsecond.resume hqf

/-- Two readings that do the same on the feeds that start with a token do so where these go on. -/
theorem of_eq (hf : f.StartsWith t) (heq : ∀ f, f.StartsWith t → p f = q f)
    (hq : EnclosesAt closedAt last left before behind q f) :
    EnclosesAt closedAt last left before behind p f where
  account h := hq.account ((heq f hf).symm.trans h)
  extend {g h a} hp hh := by
    rw [heq _ (hf.followedBy h)]
    exact hq.extend ((heq f hf).symm.trans hp) hh
  unclosed h := hq.unclosed ((heq f hf).symm.trans h)
  resume h := by
    rw [heq _ (hf.followedBy _)]
    exact hq.resume ((heq f hf).symm.trans h)

/-- At the end of the text nothing is read, nor is it in front of `yaudah`. -/
theorem of_stays {a : α} (hend : p (.finish line) = .ok (a, .finish line))
    (hclose : ∀ f : Feed, f.current? = some (.keyword .yaudah) → p f = .ok (a, f)) :
    EnclosesAt closedAt last left before before p (.finish line) where
  account h := by
    rw [hend] at h
    cases h
    exact ⟨[], rfl, rfl⟩
  extend {g h a} hp hh := by
    rw [hend] at hp
    cases hp
    exact hclose h hh
  unclosed h := by
    rw [hend] at h
    cases h
  resume h := by
    rw [hend] at h
    cases h

/-- At the end of the text the block is missed that was opened last, and `yaudah` ends it. -/
theorem of_unclosed {a : α} {c : Construct} {l : Nat} {blocks : Blocks}
    (hend : p (.finish line) = .error (.structural (.missingTerminator c l)))
    (hclose : p (.closing closedAt last) = .ok (a, .closing closedAt last)) :
    EnclosesAt closedAt last (.closing closedAt last) ((c, l) :: blocks) behind p
      (.finish line) where
  account h := by
    rw [hend] at h
    cases h
  extend h _ := by
    rw [hend] at h
    cases h
  unclosed h := by
    rw [hend] at h
    cases h
    exact ⟨[], line, blocks, rfl, rfl⟩
  resume _ := .inl ⟨a, hclose⟩

theorem pass (hf : f.StartsWith t) :
    EnclosesAt closedAt last left before (t.scope before) Reading.pass f where
  account h := by
    cases hf with
    | token =>
      cases h
      exact ⟨[t], rfl, rfl⟩
    | faulty => cases h
  extend hp _ := by
    cases hf with
    | token =>
      cases hp
      rfl
    | faulty => cases hp
  unclosed h := by cases hf <;> cases h
  resume h := by cases hf <;> cases h

theorem pass_andThen {q : Unit → Reading α} (hs : f.Scanned) (hf : f.StartsWith t)
    (hq : Encloses closedAt last left (t.scope before) behind (q ())) :
    EnclosesAt closedAt last left before behind (Reading.pass.andThen q) f := by
  have hpass : Untroubled Reading.pass := fun f _ _ h => by cases f <;> cases h
  have hfirst : EnclosesAt closedAt last left before (t.scope before) Reading.pass f := pass hf
  exact hfirst.andThen hs (fun _ g _ hg => hq g hg) (.inl hpass)

/-- The feed may be treated by its first token. -/
theorem split (hend : ∀ line, EnclosesAt closedAt last left before behind p (.finish line))
    (hstart : ∀ t, f.StartsWith t → EnclosesAt closedAt last left before behind p f) :
    EnclosesAt closedAt last left before behind p f := by
  cases f with
  | finish line => exact hend line
  | token t f => exact hstart t .token
  | faulty t e => exact hstart t .faulty

theorem look {k : Token.Kind → Reading α}
    (hend : ∀ line, EnclosesAt closedAt last left before behind (Reading.look p k) (.finish line))
    (hgo : ∀ t, f.StartsWith t → EnclosesAt closedAt last left before behind (k t.kind) f) :
    EnclosesAt closedAt last left before behind (Reading.look p k) f := by
  refine .split hend fun t hstart => .of_eq hstart (fun f hf => ?_) (hgo t hstart)
  unfold Reading.look
  rw [hf.current?]

end EnclosesAt

namespace Encloses

theorem done (a : α) : Encloses closedAt last left before before (done a) :=
  fun f _ => .done a f

theorem refuse {e : Nat → ParseError} (he : ∀ l, ¬ (e l).Unclosed) :
    Encloses closedAt last left before behind (refuse e : Reading α) :=
  fun f _ => .refuse he f

theorem untroubled_andThen {q : α → Reading β}
    (hp : Encloses closedAt last left before between p) (hu : Untroubled p)
    (hq : ∀ a, Encloses closedAt last left between behind (q a)) :
    Encloses closedAt last left before behind (p.andThen q) :=
  fun f hf => (hp f hf).andThen hf (fun a g _ hg => hq a g hg) (.inl hu)

theorem andThen_resumed {q : α → Reading β}
    (hp : Encloses closedAt last mid before between p)
    (hq : ∀ a, Encloses closedAt last left between behind (q a))
    (hgo : ∀ a, Resumes left (q a mid)) :
    Encloses closedAt last left before behind (p.andThen q) :=
  fun f hf => (hp f hf).andThen hf (fun a g _ hg => hq a g hg) (.inr hgo)

theorem look {k : Token.Kind → Reading α}
    (hend : ∀ line, EnclosesAt closedAt last left before behind (Reading.look p k) (.finish line))
    (hgo : ∀ t f, f.StartsWith t → f.Scanned →
      EnclosesAt closedAt last left before behind (k t.kind) f) :
    Encloses closedAt last left before behind (Reading.look p k) :=
  fun f hf => .look hend fun t hstart => hgo t f hstart hf

end Encloses

theorem expect_untroubled (wanted : Expectation) (accept : Token.Kind → Option α) :
    Untroubled (reading (expect wanted accept)) :=
  .of_parallel (expect_parallel (φ := id) (fun _ h => h) wanted accept)

theorem expect_encloses {wanted : Expectation} {accept : Token.Kind → Option α}
    (haccept : ∀ t : Token, (accept t.kind).isSome → t.scope before = behind) :
    Encloses closedAt last left before behind (reading (expect wanted accept)) := by
  rw [expect_reading]
  refine .look (fun line => .of_error rfl fun _ _ h => nomatch h) fun t f hstart hf => ?_
  have hscope := haccept t
  cases ha : accept t.kind with
  | none => exact .refuse (fun _ => id) f
  | some a =>
    rw [ha] at hscope
    refine .pass_andThen hf hstart ?_
    rw [hscope rfl]
    exact .done a

end Naskah
