import Naskah.Proofs.Source.Printer

/-
  What is printed is derived by the grammar. `Denotes p n ks` says that the printed text `p` has
  the token kinds `ks` and takes no more than `n` nesting levels; an expression printed for a level
  is then derived at that level (`print_derives`), and a statement list in front of anything that
  could not continue an expression (`textAll_derives`).
-/

namespace Naskah

open Naskah.Expr (Level Reads)

/-- A token kind that a word can have. -/
inductive Token.Kind.Fits : Token.Kind → Word → Prop
  | number {x : Float} {digits : String} (h : Numeral.IsPlain digits.toList)
      (hx : Numeral.read? digits.toList = some x) : Fits (.number digits) (.number x)
  | token {k : Token.Kind} : Fits k (.token k)

namespace Printed

/-- The text has these token kinds and stays within `n` nesting levels. -/
def Denotes (p : Printed) (n : Nat) (ks : List Token.Kind) : Prop :=
  p.nesting ≤ n ∧ List.Forall₂ Token.Kind.Fits ks p.words

variable {p q : Printed} {n : Nat} {ks : List Token.Kind}

theorem denotes_nil (h : nil.Denotes n ks) : ks = [] := by
  cases h.2
  rfl

theorem denotes_token {k : Token.Kind} (h : (token k).Denotes n ks) : ks = [k] := by
  obtain ⟨-, hwords⟩ := h
  cases hwords with
  | cons hw hnil =>
    cases hw
    cases hnil
    rfl

theorem denotes_number {x : Float} (h : (number x).Denotes n ks) :
    ∃ digits : String, ks = [.number digits] ∧ Numeral.IsPlain digits.toList ∧
      Numeral.plain digits.toList = x := by
  obtain ⟨-, hwords⟩ := h
  cases hwords with
  | cons hw hnil =>
    cases hw with
    | @number _ digits hplain hx =>
      cases hnil
      exact ⟨digits, rfl, hplain, ((Numeral.read?_eq_some_iff hplain.chars x).1 hx).2.symm⟩

theorem denotes_append (h : (p ++ q).Denotes n ks) :
    ∃ ls ms, ks = ls ++ ms ∧ p.Denotes n ls ∧ q.Denotes n ms := by
  obtain ⟨hn, hwords⟩ := h
  obtain ⟨hp, hq⟩ := Nat.max_le.1 hn
  exact ⟨_, _, (List.take_append_drop p.words.length ks).symm,
    ⟨hp, List.forall₂_take_append _ _ _ hwords⟩, ⟨hq, List.forall₂_drop_append _ _ _ hwords⟩⟩

/-- A token in front of a text comes first. -/
theorem denotes_token_append {k : Token.Kind} (h : (token k ++ q).Denotes n ks) :
    ∃ ms, ks = k :: ms ∧ q.Denotes n ms := by
  obtain ⟨ls, ms, rfl, hk, hq⟩ := denotes_append h
  rw [denotes_token hk]
  exact ⟨ms, rfl, hq⟩

theorem denotes_nested (h : p.nested.Denotes n ks) : ∃ m, n = m + 1 ∧ p.Denotes m ks := by
  obtain ⟨hn, hwords⟩ := h
  match n with
  | 0 => exact absurd hn (Nat.not_succ_le_zero _)
  | m + 1 => exact ⟨m, rfl, Nat.le_of_succ_le_succ hn, hwords⟩

/-- A text in parentheses lies one nesting level deeper, and one without them is the text. -/
theorem denotes_enclosed {demanded : Bool} (h : (p.enclosed demanded).Denotes n ks) :
    (demanded = true ∧ ∃ m ms, n = m + 1 ∧
        ks = .symbol .parenOpen :: (ms ++ [.symbol .parenClose]) ∧ p.Denotes m ms) ∨
      demanded = false ∧ p.Denotes n ks := by
  cases demanded with
  | true =>
    obtain ⟨m, rfl, hinner⟩ := denotes_nested h
    obtain ⟨ms, rfl, hrest⟩ := denotes_token_append hinner
    obtain ⟨ls, ms, rfl, hp, hclose⟩ := denotes_append hrest
    rw [denotes_token hclose]
    exact .inl ⟨rfl, m, ls, rfl, rfl, hp⟩
  | false => exact .inr ⟨rfl, h⟩

end Printed

namespace Expr

/-! ## Expressions -/

/-- Every level holds what a tighter one does. -/
theorem Derives.looser {l m : Level} {n : Nat} {ks : List Token.Kind} {e : Expr}
    (h : Derives m n ks e) (hl : m.rank ≤ l.rank) : Derives l n ks e := by
  generalize hr : l.rank = r at hl
  induction hl generalizing l with
  | refl => exact Level.rank_injective hr ▸ h
  | @step r _ ih =>
    cases l with
    | literal => cases hr
    | logical | negation | comparison | sum | product | sign =>
      exact .tighter rfl (ih (Nat.succ.inj hr))

/-- An expression in parentheses fits in at every level, and without them at the levels that are
    not tighter than its own. -/
theorem enclosed_derives {p : Printed} {demanded : Bool} {l m : Level} {n : Nat}
    {ks : List Token.Kind} {e : Expr} (h : (p.enclosed demanded).Denotes n ks)
    (hl : demanded = false → m.rank ≤ l.rank)
    (hp : ∀ n ks, p.Denotes n ks → Derives m n ks e) : Derives l n ks e := by
  rcases Printed.denotes_enclosed h with ⟨-, m', ms, rfl, rfl, hinner⟩ | ⟨hd, hinner⟩
  · have hlogical : m.rank ≤ Level.logical.rank := by cases m <;> decide
    exact (Derives.paren ((hp _ _ hinner).looser hlogical)).looser (Nat.zero_le _)
  · exact (hp _ _ hinner).looser (hl hd)

theorem print_derives {e : Expr} {guarded : Bool} {l : Level} {n : Nat} {ks : List Token.Kind}
    (h : (e.print guarded l).Denotes n ks) : Derives l n ks e := by
  induction e generalizing guarded l n ks with
  | number x =>
    obtain ⟨digits, rfl, hplain, rfl⟩ := Printed.denotes_number h
    exact (Derives.number hplain).looser (Nat.zero_le _)
  | text s =>
    rw [Printed.denotes_token h]
    exact Derives.text.looser (Nat.zero_le _)
  | boolean b =>
    cases b with
    | true =>
      rw [Printed.denotes_token h]
      exact Derives.benar.looser (Nat.zero_le _)
    | false =>
      rw [Printed.denotes_token h]
      exact Derives.salah.looser (Nat.zero_le _)
  | unary op operand ih =>
    refine enclosed_derives (m := op.level) h (fun hd => ?_) fun n ks hinner => ?_
    · rw [Bool.or_eq_false_iff, decide_eq_false_iff_not] at hd
      exact Nat.le_of_not_lt hd.1
    · obtain ⟨m, rfl, hmarked⟩ := Printed.denotes_nested hinner
      obtain ⟨ms, rfl, hoperand⟩ := Printed.denotes_token_append hmarked
      exact .unary op rfl (ih hoperand)
  | binary op left right ihl ihr =>
    refine enclosed_derives (m := op.level) h (fun hd => ?_) fun n ks hinner => ?_
    · rw [decide_eq_false_iff_not] at hd
      exact Nat.le_of_not_lt hd
    · obtain ⟨ls, ms, rfl, hleft, hrest⟩ := Printed.denotes_append hinner
      obtain ⟨ms, rfl, hright⟩ := Printed.denotes_token_append hrest
      exact .binary op rfl (ihl hleft) (ihr hright)
  | _ =>
    rw [Printed.denotes_token h]
    exact Derives.name.looser (Nat.zero_le _)

/-- The kinds go on with nothing that could continue an expression. -/
def Stops (rest : List Token.Kind) : Prop :=
  ∀ op : BinaryOp, rest.head? ≠ some op.kind

theorem stops_cons {k : Token.Kind} (ms : List Token.Kind) (h : k ∉ BinaryOp.all.map BinaryOp.kind) :
    Stops (k :: ms) := by
  intro op heq
  rw [Option.some.inj heq] at h
  exact h (List.mem_map_of_mem op.mem_all)

/-- Of the tokens with which an expression starts only a minus could continue another one. -/
theorem stops_of_starts {k : Token.Kind} (ms : List Token.Kind) (hk : Starts .logical k)
    (hm : k ≠ .symbol .minus) : Stops (k :: ms) := by
  intro op heq
  rw [Option.some.inj heq] at hk hm
  cases op with
  | subtract => exact hm rfl
  | _ => exact hk

/-- A guarded text starts with no minus. The induction is on the left operands, of which the first
    is what the text starts with. -/
theorem print_guarded {e : Expr} {l : Level} {n : Nat} {ks : List Token.Kind}
    (h : (e.print true l).Denotes n ks) : ks.head? ≠ some (.symbol .minus) := by
  induction e generalizing l n ks with
  | number x =>
    obtain ⟨digits, rfl, -, -⟩ := Printed.denotes_number h
    exact fun heq => nomatch heq
  | boolean b =>
    cases b with
    | true | false =>
      rw [Printed.denotes_token h]
      exact fun heq => nomatch heq
  | unary op operand =>
    rcases Printed.denotes_enclosed h with ⟨-, m, ms, rfl, rfl, -⟩ | ⟨hd, hinner⟩
    · exact fun heq => nomatch heq
    · obtain ⟨m, rfl, hmarked⟩ := Printed.denotes_nested hinner
      obtain ⟨ms, rfl, -⟩ := Printed.denotes_token_append hmarked
      cases op with
      | negate =>
        rw [Bool.or_eq_false_iff] at hd
        exact absurd hd.2 (by decide)
      | not => exact fun heq => nomatch heq
  | binary op left right ihl _ =>
    rcases Printed.denotes_enclosed h with ⟨-, m, ms, rfl, rfl, -⟩ | ⟨hd, hinner⟩
    · exact fun heq => nomatch heq
    · obtain ⟨ls, ms, rfl, hleft, -⟩ := Printed.denotes_append hinner
      rw [hd] at hleft
      obtain ⟨k, ls, rfl, -⟩ := (print_derives hleft).head
      have hhead := ihl hleft
      exact hhead
  | _ =>
    rw [Printed.denotes_token h]
    exact fun heq => nomatch heq

theorem print_stops {e : Expr} {n : Nat} {ks : List Token.Kind} (rest : List Token.Kind)
    (h : (e.print true .logical).Denotes n ks) : Stops (ks ++ rest) := by
  obtain ⟨k, ms, rfl, hk⟩ := (print_derives h).head
  exact stops_of_starts (ms ++ rest) hk fun heq => print_guarded h (congrArg some heq)

theorem print_reads {e : Expr} {guarded : Bool} {n : Nat} {ks rest : List Token.Kind}
    (h : (e.print guarded .logical).Denotes n ks) (he : e.operators ≤ maxOperators)
    (hrest : Stops rest) : Reads n (ks ++ rest) e rest :=
  ⟨ks, rfl, ⟨print_derives h, he⟩, hrest⟩

end Expr

namespace Stmt

open Naskah.Expr (Stops stops_cons print_reads print_stops)

/-! ## Statements -/

/-- The expressions hold no more operators than they may. -/
def Bounded (es : List Expr) : Prop :=
  ∀ e ∈ es, e.operators ≤ maxOperators

/-- What printing gives at each place: a statement, a block, or the rest of a conditional whose
    test and first branch stand before it. -/
def Printable : Place → Stmt → Prop
  | .list, s => ∀ (after : Bool) (n : Nat) (ks rest : List Token.Kind), (s.text after).Denotes n ks →
      Bounded s.expressions → (s.endsInExpr = true → Stops rest) →
      Derives .statement n (ks ++ rest) s rest ∧ (after = true → Stops (ks ++ rest))
  | .body, s => ∀ (after : Bool) (n : Nat) (ks rest : List Token.Kind), (s.text after).Denotes n ks →
      Bounded s.expressions → Stops rest →
      Derives .block n (ks ++ rest) s rest ∧ (after = true → Stops (ks ++ rest))
  | .otherwise, s => ∀ (n : Nat) (ks rest : List Token.Kind), s.textElse.Denotes n ks →
      Bounded s.expressions →
      Stops (ks ++ rest) ∧ ∀ (ls ms : List Token.Kind) (e : Expr) (yes : Stmt), Reads n ls e ms →
        Derives .block n ms yes (ks ++ rest) → Derives .conditional n ls (.cond e yes s) rest

variable {n : Nat} {ks : List Token.Kind}

theorem conditional_derives {test : Expr} {yes no : Stmt} (rest : List Token.Kind)
    (hyes : Printable .body yes) (hno : Printable .otherwise no)
    (h : (test.print false .logical ++ (yes.text true ++ no.textElse)).Denotes n ks)
    (hb : Bounded (Stmt.cond test yes no).expressions) :
    Derives .conditional n (ks ++ rest) (.cond test yes no) rest := by
  obtain ⟨htest, hbranches⟩ := List.forall_mem_cons.1 hb
  obtain ⟨hbyes, hbno⟩ := List.forall_mem_append.1 hbranches
  obtain ⟨ls, ks, rfl, hls, h⟩ := Printed.denotes_append h
  obtain ⟨ms, ks, rfl, hms, hks⟩ := Printed.denotes_append h
  obtain ⟨hstops, hrest⟩ := hno n ks rest hks hbno
  obtain ⟨hblock, hstops'⟩ := hyes true n ms (ks ++ rest) hms hbyes hstops
  have hreads := print_reads hls htest (hstops' rfl)
  rw [List.append_assoc, List.append_assoc]
  exact hrest _ _ test yes hreads hblock

theorem textAll_derives {rest : List Token.Kind} {ss : List Stmt} {after : Bool}
    (hs : ∀ s ∈ ss, Printable .list s) (h : (textAll after ss).Denotes n ks)
    (hb : Bounded (expressionsAll ss)) (hrest : Stops rest) :
    Derives .statements n (ks ++ rest) (.block ss) rest ∧ (after = true → Stops (ks ++ rest)) := by
  induction ss generalizing after ks with
  | nil =>
    rw [Printed.denotes_nil h]
    exact ⟨.nil, fun _ => hrest⟩
  | cons s ss ih =>
    obtain ⟨hfirst, hmore⟩ := List.forall_mem_cons.1 hs
    obtain ⟨hbs, hbss⟩ := List.forall_mem_append.1 hb
    obtain ⟨ls, ms, rfl, hls, hms⟩ := Printed.denotes_append h
    obtain ⟨hder, hstops⟩ := ih hmore hms hbss
    obtain ⟨hstmt, hguard⟩ := hfirst after n ls (ms ++ rest) hls hbs hstops
    rw [List.append_assoc]
    exact ⟨.cons hstmt hder, hguard⟩

/-- Every well-formed statement is printed as what its place demands. The induction is on the
    statements within one another; an expression stops where the text behind it is guarded. -/
theorem WellFormed.printable {p : Place} {s : Stmt} (h : WellFormed p s) : Printable p s := by
  induction h with
  | @assign x value =>
    intro after n ks rest h hb hrest
    obtain ⟨ks, rfl, h₁⟩ := Printed.denotes_token_append h
    obtain ⟨ks, rfl, h₂⟩ := Printed.denotes_token_append h₁
    have hreads := print_reads h₂ (hb value (List.mem_singleton_self _)) (hrest rfl)
    exact ⟨.assign .name hreads,
      fun _ => Expr.stops_of_starts _ trivial fun heq => nomatch heq⟩
  | @cond p test yes no hp _ _ _ ihyes ihno =>
    cases p with
    | list =>
      intro after n ks rest h hb _
      obtain ⟨ks, rfl, h₁⟩ := Printed.denotes_token_append h
      exact ⟨.cond (conditional_derives rest ihyes ihno h₁ hb), fun _ => stops_cons _ (by decide)⟩
    | body => exact absurd rfl hp
    | otherwise =>
      intro n ks rest h hb
      obtain ⟨m, rfl, h₁⟩ := Printed.denotes_nested h
      obtain ⟨ks, rfl, h₂⟩ := Printed.denotes_token_append h₁
      have hchain := conditional_derives rest ihyes ihno h₂ hb
      exact ⟨stops_cons _ (by decide),
        fun _ _ _ _ hreads hblock => .kalogak hreads hblock hchain⟩
  | @count x first last body _ _ _ _ ih =>
    intro after n ks rest h hb _
    obtain ⟨hfirst, hrest⟩ := List.forall_mem_cons.1 hb
    obtain ⟨hlast, hbody⟩ := List.forall_mem_cons.1 hrest
    obtain ⟨ks, rfl, h₁⟩ := Printed.denotes_token_append h
    obtain ⟨ks, rfl, h₂⟩ := Printed.denotes_token_append h₁
    obtain ⟨ks, rfl, h₃⟩ := Printed.denotes_token_append h₂
    obtain ⟨ls, ks, rfl, hls, h₄⟩ := Printed.denotes_append h₃
    obtain ⟨ks, rfl, h₅⟩ := Printed.denotes_token_append h₄
    obtain ⟨ms, ks, rfl, hms, h₆⟩ := Printed.denotes_append h₅
    obtain ⟨ks, us, rfl, hks, h₇⟩ := Printed.denotes_append h₆
    rw [Printed.denotes_token h₇]
    obtain ⟨hblock, hstops⟩ :=
      ih true n ks (.keyword .yaudah :: rest) hks hbody (stops_cons _ (by decide))
    have hreads := print_reads hms hlast (hstops rfl)
    have hreads' := print_reads hls hfirst
      (stops_cons (ms ++ (ks ++ .keyword .yaudah :: rest)) (by decide : .keyword .sampe ∉ _))
    refine ⟨?_, fun _ => stops_cons _ (by decide)⟩
    simp only [List.cons_append, List.append_assoc, List.nil_append]
    exact .count hreads' hreads hblock
  | @loop test body _ _ ih =>
    intro after n ks rest h hb _
    obtain ⟨htest, hbody⟩ := List.forall_mem_cons.1 hb
    obtain ⟨ks, rfl, h₁⟩ := Printed.denotes_token_append h
    obtain ⟨ls, ks, rfl, hls, h₂⟩ := Printed.denotes_append h₁
    obtain ⟨ms, us, rfl, hms, h₃⟩ := Printed.denotes_append h₂
    rw [Printed.denotes_token h₃]
    obtain ⟨hblock, hstops⟩ :=
      ih true n ms (.keyword .yaudah :: rest) hms hbody (stops_cons _ (by decide))
    have hreads := print_reads hls htest (hstops rfl)
    refine ⟨?_, fun _ => stops_cons _ (by decide)⟩
    simp only [List.cons_append, List.append_assoc, List.nil_append]
    exact .loop hreads hblock
  | input =>
    intro after n ks rest h _ _
    obtain ⟨ks, rfl, h₁⟩ := Printed.denotes_token_append h
    rw [Printed.denotes_token h₁]
    exact ⟨.input, fun _ => stops_cons _ (by decide)⟩
  | @print value =>
    intro after n ks rest h hb hrest
    obtain ⟨ks, rfl, h₁⟩ := Printed.denotes_token_append h
    have hreads := print_reads h₁ (hb value (List.mem_singleton_self _)) (hrest rfl)
    exact ⟨.print hreads, fun _ => stops_cons _ (by decide)⟩
  | @block p ss hp _ ih =>
    cases p with
    | list => exact absurd rfl hp
    | body =>
      intro after n ks rest h hb hrest
      obtain ⟨m, rfl, h₁⟩ := Printed.denotes_nested h
      obtain ⟨hder, hstops⟩ := textAll_derives ih h₁ hb hrest
      exact ⟨.block hder, hstops⟩
    | otherwise =>
      intro n ks rest h hb
      obtain ⟨ks, rfl, h₁⟩ := Printed.denotes_token_append h
      obtain ⟨ks, us, rfl, hks, h₂⟩ := Printed.denotes_append h₁
      obtain ⟨m, rfl, h₃⟩ := Printed.denotes_nested hks
      rw [Printed.denotes_token h₂]
      obtain ⟨hder, -⟩ := textAll_derives ih h₃ hb
        (stops_cons rest (by decide : .keyword .yaudah ∉ _))
      refine ⟨stops_cons _ (by decide), fun _ _ _ _ hreads hblock => ?_⟩
      rw [List.cons_append, List.append_assoc] at hblock
      exact .lainnya hreads hblock (.block hder)
  | @expr value =>
    intro after n ks rest h hb hrest
    have hreads := print_reads h (hb value (List.mem_singleton_self _)) (hrest rfl)
    refine ⟨.expr hreads, fun hafter => ?_⟩
    subst hafter
    exact print_stops rest h
  | empty =>
    intro n ks rest h _
    rw [Printed.denotes_token h]
    exact ⟨stops_cons _ (by decide), fun _ _ _ _ hreads hblock => .closed hreads hblock⟩

end Stmt

end Naskah
