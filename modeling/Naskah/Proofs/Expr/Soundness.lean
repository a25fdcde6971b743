import Naskah.Proofs.Expr.Grammar
import Naskah.Proofs.Token.Takes

/-
  What the parser of expressions returns is derived by the grammar. `Sound p D l` is the invariant:
  the tokens that `p` has taken are derived with the tree that it returns, the operators of the
  tree have been counted, and the feed that is left goes on with no operator of the level `l` or a
  tighter one. Each way to build a parser keeps it, so the parser of every level has it
  (`atLevel_sound`), and by induction on the nesting levels that are left so has `Expr.parse`
  (`parse_sound`).
-/

namespace Naskah

namespace Expr.Level

theorem rank_injective {l m : Level} (h : l.rank = m.rank) : l = m := by
  cases l <;> cases m <;> first | rfl | cases h

end Expr.Level

open Naskah.Expr (Level)

/-! ## Tables of operators -/

namespace Expr.Parse

/-- The table holds the operators of the level, each under its token. -/
def Lists (op? : Token.Kind → Option BinaryOp) (l : Level) : Prop :=
  ∀ k op, op? k = some op ↔ op.kind = k ∧ op.level = l

theorem lists_of {op? : Token.Kind → Option BinaryOp} {l : Level}
    (h : ∀ k op, op? k = some op → op.kind = k ∧ op.level = l)
    (hall : ∀ op ∈ BinaryOp.all, op.level = l → op? op.kind = some op) : Lists op? l := by
  intro k op
  constructor
  · exact h k op
  · rintro ⟨rfl, hl⟩
    exact hall op op.mem_all hl

theorem lists_logical : Lists logical? .logical := by
  refine lists_of (fun k op h => ?_) (by decide)
  unfold logical? at h
  split at h <;> cases h <;> exact ⟨rfl, rfl⟩

theorem lists_relational : Lists relational? .comparison := by
  refine lists_of (fun k op h => ?_) (by decide)
  unfold relational? at h
  split at h <;> cases h <;> exact ⟨rfl, rfl⟩

theorem lists_additive : Lists additive? .sum := by
  refine lists_of (fun k op h => ?_) (by decide)
  unfold additive? at h
  split at h <;> cases h <;> exact ⟨rfl, rfl⟩

theorem lists_multiplicative : Lists multiplicative? .product := by
  refine lists_of (fun k op h => ?_) (by decide)
  unfold multiplicative? at h
  split at h <;> cases h <;> exact ⟨rfl, rfl⟩

/-! ## Where an expression stops -/

/-- The feed goes on with no operator of the level or a tighter one. -/
def StopsAt (l : Level) (f : Feed) : Prop :=
  ∀ op : BinaryOp, op.level.rank ≤ l.rank → f.current? ≠ some op.kind

theorem StopsAt.of_none {l : Level} {f : Feed} (h : f.current? = none) : StopsAt l f := by
  intro op _ hk
  rw [h] at hk
  cases hk

/-- A level stops where the next tighter one does, if no operator of its own follows. -/
theorem StopsAt.looser {l m : Level} {f : Feed} (hl : l.tighter? = some m) (h : StopsAt m f)
    (hop : ∀ op : BinaryOp, op.level = l → f.current? ≠ some op.kind) : StopsAt l f := by
  intro op hr
  rw [Level.rank_tighter hl] at hr
  rcases Nat.lt_or_eq_of_le hr with hr | hr
  · exact h op (Nat.le_of_lt_succ hr)
  · exact hop op (Level.rank_injective (hr.trans (Level.rank_tighter hl).symm))

theorem StopsAt.of_table {l m : Level} {op? : Token.Kind → Option BinaryOp} {f : Feed}
    (hl : l.tighter? = some m) (ht : Lists op? l) (h : StopsAt m f)
    (hop : f.current?.bind op? = none) : StopsAt l f := by
  refine h.looser hl fun op hop' hk => ?_
  rw [hk, Option.bind_some, (ht _ _).2 ⟨rfl, hop'⟩] at hop
  cases hop

/-- There are no operators as tight as a sign. -/
theorem stopsAt_literal (f : Feed) : StopsAt .literal f := by
  intro op hr
  cases op <;> cases hr

/-! ## The invariant -/

/-- What a parser has returned: the tokens taken are derived, the operators are counted, and the
    feed that is left goes on with no operator of the level or a tighter one. -/
structure Returned (D : List Token.Kind → Expr → Prop) (l : Level) (f : Feed) (used : Nat) {n : Nat}
    (r : Operand n) : Prop where
  derived : ∃ ks, f.Takes ks r.rest ∧ D ks r.expr
  counted : r.used = used + r.expr.operators
  bounded : r.used ≤ maxOperators
  stops : StopsAt l r.rest

/-- The invariant of a parser, on feeds of scanned tokens. -/
def Sound (p : OperandParser) (D : List Token.Kind → Expr → Prop) (l : Level) : Prop :=
  ∀ (f : Feed) (used : Nat) (r : Operand f.size), f.Scanned → used ≤ maxOperators →
    p f used = .ok r → Returned D l f used r

/-- Derived with one nesting level less than `n`. -/
def Below (l : Level) (n : Nat) (ks : List Token.Kind) (e : Expr) : Prop :=
  ∃ m, n = m + 1 ∧ Derives l m ks e

theorem takeOperator_eq_ok {n line used used' : Nat}
    {next : Except LexError { rest : Feed // rest.size < n }} {g : { rest : Feed // rest.size < n }}
    (h : takeOperator line used next = .ok (used', g)) :
    next = .ok g ∧ used' = used + 1 ∧ used < maxOperators := by
  unfold takeOperator at h
  split at h
  · cases h
  · next hu =>
    split at h
    · cases h
    · cases h
      exact ⟨rfl, rfl, Nat.lt_of_not_le hu⟩

/-- A loop that joins operands derives, from what its first operand derives, all that it returns.
    The induction is on the passes of the loop. -/
theorem chain_sound {op? : Token.Kind → Option BinaryOp} {operand : OperandParser} {line n N : Nat}
    {l m : Level} (hl : l.tighter? = some m) (ht : Lists op? l)
    (hne : l ≠ .comparison) (hs : Sound operand (Derives m n) m)
    (left r : Operand N) (h : chain op? operand line left = .ok r) (hf : left.rest.Scanned)
    (hu : left.used ≤ maxOperators) (hst : StopsAt m left.rest) :
    ∃ ks, left.rest.Takes ks r.rest ∧
      (∀ ls, Derives l n ls left.expr → Derives l n (ls ++ ks) r.expr) ∧
      r.used + left.expr.operators = left.used + r.expr.operators ∧ r.used ≤ maxOperators ∧
      StopsAt l r.rest := by
  fun_induction chain op? operand line left with
  | case1 left htake =>
    cases h
    exact ⟨[], .nil, fun ls hls => by rwa [List.append_nil], rfl, hu,
      .of_none (Feed.take?_none htake)⟩
  | case2 left t next htake hop =>
    cases h
    refine ⟨[], .nil, fun ls hls => by rwa [List.append_nil], rfl, hu, .of_table hl ht hst ?_⟩
    rw [Feed.take?_kind htake, Option.bind_some, hop]
  | case3 => cases h
  | case4 => cases h
  | case5 left t next htake op hop used behind htakeop right hright ih =>
    obtain ⟨rfl, rfl, hlt⟩ := takeOperator_eq_ok htakeop
    obtain ⟨hkind, hlevel⟩ := (ht _ _).1 hop
    have htok := Feed.take?_takes htake
    have hret := hs behind.1 _ right (htok.scanned hf) hlt hright
    obtain ⟨ms, hms, hder⟩ := hret.derived
    obtain ⟨ks, hks, hext, hcount, hle, hstop⟩ :=
      ih h ((htok.append hms).scanned hf) hret.bounded hret.stops
    refine ⟨t.kind :: (ms ++ ks), (htok.append hms).append hks, fun ls hls => ?_, ?_, hle, hstop⟩
    · have := hext (ls ++ op.kind :: ms)
        (.binary op hlevel (by rwa [BinaryOp.left_of_level hlevel hne])
          (by rwa [BinaryOp.right_of_level hlevel hl]))
      rwa [List.append_assoc, List.cons_append, hkind] at this
    · have := hret.counted
      simp only [Expr.operators] at hcount
      omega

theorem joined_sound {op? : Token.Kind → Option BinaryOp} {operand : OperandParser} {line n : Nat}
    {l m : Level} (hl : l.tighter? = some m) (ht : Lists op? l)
    (hne : l ≠ .comparison) (hs : Sound operand (Derives m n) m) :
    Sound (joined op? operand line) (Derives l n) l := by
  intro f used r hf hu h
  unfold joined at h
  split at h
  · cases h
  · next left hop =>
    have hret := hs f used left hf hu hop
    obtain ⟨ls, hls, hder⟩ := hret.derived
    obtain ⟨ks, hks, hext, hcount, hle, hstop⟩ :=
      chain_sound hl ht hne hs left r h (hls.scanned hf) hret.bounded hret.stops
    have := hret.counted
    exact ⟨⟨ls ++ ks, hls.append hks, hext ls (.tighter hl hder)⟩, by omega, hle, hstop⟩

theorem compared_sound {operand : OperandParser} {line n : Nat}
    (hs : Sound operand (Derives .sum n) .sum) :
    Sound (compared operand line) (Derives .comparison n) .comparison := by
  intro f used r hf hu h
  unfold compared at h
  split at h
  · cases h
  · next left hop =>
    have hret := hs f used left hf hu hop
    obtain ⟨ls, hls, hder⟩ := hret.derived
    split at h
    · next htake =>
      cases h
      exact ⟨⟨ls, hls, .tighter rfl hder⟩, hret.counted, hret.bounded,
        .of_none (Feed.take?_none htake)⟩
    · next t next htake =>
      split at h
      · next hrel =>
        cases h
        refine ⟨⟨ls, hls, .tighter rfl hder⟩, hret.counted, hret.bounded,
          .of_table rfl lists_relational hret.stops ?_⟩
        rw [Feed.take?_kind htake, Option.bind_some, hrel]
      · next op hrel =>
        split at h
        · cases h
        · next used' behind htakeop =>
          obtain ⟨rfl, rfl, hlt⟩ := takeOperator_eq_ok htakeop
          obtain ⟨hkind, hlevel⟩ := (lists_relational _ _).1 hrel
          have htok := Feed.take?_takes htake
          split at h
          · cases h
          · next right hright =>
            have hret' := hs behind.1 _ right (htok.scanned (hls.scanned hf)) hlt hright
            obtain ⟨ms, hms, hder'⟩ := hret'.derived
            split at h
            · cases h
            · next hchain =>
              cases h
              rw [Bool.not_eq_true, Option.isSome_eq_false_iff, Option.isNone_iff_eq_none] at hchain
              refine ⟨⟨ls ++ (t.kind :: ms), hls.append (htok.append hms), ?_⟩, ?_, hret'.bounded,
                .of_table rfl lists_relational hret'.stops hchain⟩
              · rw [← hkind]
                have hl := BinaryOp.sides_of_comparison hlevel
                exact .binary op hlevel (by rwa [hl.1]) (by rwa [hl.2])
              · have := hret.counted
                have := hret'.counted
                simp only [Expr.operators]
                omega

theorem marked_sound (op : UnaryOp) {operand otherwise : OperandParser} {line n : Nat} {m : Level}
    (hl : op.level.tighter? = some m) (hs : Sound operand (Below op.level n) op.level)
    (ho : Sound otherwise (Derives m n) m) :
    Sound (marked op op.kind operand otherwise line) (Derives op.level n) op.level := by
  have hlevel (op' : BinaryOp) : op'.level ≠ op.level := by
    cases op <;> cases op' <;> decide
  intro f used r hf hu h
  have hother (h : otherwise f used = .ok r) : Returned (Derives op.level n) op.level f used r := by
    have hret := ho f used r hf hu h
    obtain ⟨ks, hks, hder⟩ := hret.derived
    exact ⟨⟨ks, hks, .tighter hl hder⟩, hret.counted, hret.bounded,
      hret.stops.looser hl fun op' hop' => absurd hop' (hlevel op')⟩
  unfold marked at h
  split at h
  · exact hother h
  · next t next htake =>
    split at h
    · next hmark =>
      split at h
      · cases h
      · next used' behind htakeop =>
        obtain ⟨rfl, rfl, hlt⟩ := takeOperator_eq_ok htakeop
        have htok := Feed.take?_takes htake
        split at h
        · cases h
        · next inner hinner =>
          have hret := hs behind.1 _ inner (htok.scanned hf) hlt hinner
          obtain ⟨ks, hks, k, rfl, hder⟩ := hret.derived
          cases h
          refine ⟨⟨t.kind :: ks, htok.append hks, ?_⟩, ?_, hret.bounded, hret.stops⟩
          · rw [hmark]
            exact .unary op rfl hder
          · have := hret.counted
            simp only [Expr.operators]
            omega
    · exact hother h

/-- A number token of a lexeme is made of digits and points. -/
theorem isNumberChar_of_lexeme {cs : List Char} {text : String} (h : Lexeme cs (.number text)) :
    ∀ c ∈ text.toList, Scan.isNumberChar c = true := by
  cases h with
  | number _ h => rwa [String.toList_ofList]

theorem literal_sound {nested : Level → OperandParser} {n : Nat}
    (hs : ∀ l, Sound (nested l) (Below l n) l) :
    Sound (literal nested) (Derives .literal n) .literal := by
  intro f used r hf hu h
  unfold literal at h
  split at h
  · cases h
  · cases h
  · next t rest htake =>
    have htok := Feed.take?_takes htake
    have hleaf {e : Expr} (hd : Derives .literal n [t.kind] e) (he : e.operators = 0) :
        Returned (Derives .literal n) .literal f used (⟨e, used, rest.1, rest.2⟩ : Operand f.size) :=
      ⟨⟨_, htok, hd⟩, by rw [he]; rfl, hu, stopsAt_literal _⟩
    split at h
    · next hk =>
      split at h
      · cases h
      · next inner hinner =>
        have hret := hs .logical rest.1 used inner (htok.scanned hf) hu hinner
        obtain ⟨ks, hks, m, rfl, hder⟩ := hret.derived
        split at h
        · cases h
        · next close hclose =>
          cases h
          refine ⟨⟨t.kind :: (ks ++ [.symbol .parenClose]),
            htok.append (hks.append (expectSymbol_takes hclose)), ?_⟩, hret.counted, hret.bounded,
            stopsAt_literal _⟩
          rw [hk]
          exact .paren hder
    · next hk =>
      cases h
      exact hleaf (hk ▸ .benar) rfl
    · next hk =>
      cases h
      exact hleaf (hk ▸ .salah) rfl
    · next digits hk =>
      split at h
      · cases h
      · next x hx =>
        cases h
        have hscanned : ∃ cs, Lexeme cs t.kind := by
          rw [Feed.take?_eq_ok htake] at hf
          exact hf.1
        obtain ⟨cs, hcs⟩ := hscanned
        rw [hk] at hcs
        obtain ⟨hplain, rfl⟩ := (Numeral.read?_eq_some_iff (isNumberChar_of_lexeme hcs) x).1 hx
        exact hleaf (hk ▸ .number hplain) rfl
    · next content hk =>
      cases h
      exact hleaf (hk ▸ .text) rfl
    · next name hk =>
      cases h
      exact hleaf (hk ▸ .name) rfl
    · cases h

/-- The parser of every level is sound, if those of the operands one nesting level deeper are. -/
theorem atLevel_sound {nested : Level → OperandParser} {line n : Nat}
    (hs : ∀ l, Sound (nested l) (Below l n) l) (l : Level) :
    Sound (atLevel nested line l) (Derives l n) l := by
  have hliteral := literal_sound hs
  have hsign : Sound (sign nested line) (Derives .sign n) .sign :=
    marked_sound .negate rfl (hs .sign) hliteral
  have hproduct : Sound (product nested line) (Derives .product n) .product :=
    joined_sound rfl lists_multiplicative (by decide) hsign
  have hsum : Sound (sum nested line) (Derives .sum n) .sum :=
    joined_sound rfl lists_additive (by decide) hproduct
  have hcomparison : Sound (comparison nested line) (Derives .comparison n) .comparison :=
    compared_sound hsum
  have hnegation : Sound (negation nested line) (Derives .negation n) .negation :=
    marked_sound .not rfl (hs .negation) hcomparison
  have hlogical : Sound (logical nested line) (Derives .logical n) .logical :=
    joined_sound rfl lists_logical (by decide) hnegation
  cases l with
  | logical => exact hlogical
  | negation => exact hnegation
  | comparison => exact hcomparison
  | sum => exact hsum
  | product => exact hproduct
  | sign => exact hsign
  | literal => exact hliteral

theorem nested_sound (line n : Nat) (l : Level) : Sound (nested line n l) (Below l n) l := by
  induction n generalizing l with
  | zero =>
    intro f used r _ _ h
    cases h
  | succ n ih =>
    intro f used r hf hu h
    have hret := atLevel_sound ih l f used r hf hu h
    obtain ⟨ks, hks, hder⟩ := hret.derived
    exact ⟨⟨ks, hks, n, rfl, hder⟩, hret.counted, hret.bounded, hret.stops⟩

end Expr.Parse

open Expr.Parse in
/-- What `Expr.parse` returns is a whole expression that the rest could not continue. -/
theorem Expr.parse_sound {n : Nat} {f : Feed} {r : Parsed Expr f.size} (hf : f.Scanned)
    (h : Expr.parse n f = .ok r) :
    ∃ ks, f.Takes ks r.rest ∧ Whole n ks r.value ∧
      ∀ op : BinaryOp, r.rest.current? ≠ some op.kind := by
  unfold Expr.parse at h
  split at h
  · cases h
  · next whole hwhole =>
    cases h
    have hret := atLevel_sound (nested_sound f.line n) .logical f 0 whole hf (Nat.zero_le _) hwhole
    obtain ⟨ks, hks, hder⟩ := hret.derived
    have hcount : whole.used = whole.expr.operators := by
      rw [hret.counted, Nat.zero_add]
    refine ⟨ks, hks, ⟨hder, hcount ▸ hret.bounded⟩, fun op => hret.stops op ?_⟩
    cases op <;> decide

end Naskah
