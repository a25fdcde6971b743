import Naskah.Proofs.Stmt.Ends
import Naskah.Proofs.Stmt.Fragment

/-
  Chains of conditionals. The tokens of a chain are those of its links, each a condition with a block
  behind it, one after another, then a last block if there is one, and the one word that closes them
  all (`Chain.kinds`). A text with these tokens is compiled to conditionals within one another
  (`Chain.stmt`), and to execute them is to execute the block of the first link whose condition is
  true (`compile_chain`). All conditionals are chains.
-/

namespace Naskah

/-! ## Links -/

/-- The tokens of a block, and the statements that are derived from them. -/
structure BlockText where
  kinds : List Token.Kind
  body : List Stmt
  derives : Stmt.Derives .statements maxNesting kinds (.block body) []

/-- A condition and the block behind it. The block does not start with `-`, which would continue the
    condition. -/
structure Link where
  testKinds : List Token.Kind
  test : Expr
  whole : Expr.Whole maxNesting testKinds test
  block : BlockText
  apart : block.kinds.head? ≠ some (.symbol .minus)

/-- The links of a conditional, and the block that is executed if none of the conditions is true. -/
structure Chain where
  first : Link
  more : List Link
  otherwise : Option BlockText

namespace Chain

def links (c : Chain) : List Link :=
  c.first :: c.more

/-- The tokens behind the block of a link. -/
def kindsBehind (otherwise : Option BlockText) : List Link → List Token.Kind
  | [] =>
    match otherwise with
    | none => [.keyword .yaudah]
    | some b => .keyword .lainnya :: (b.kinds ++ [.keyword .yaudah])
  | l :: ls =>
    .keyword .kalogak :: (l.testKinds ++ (l.block.kinds ++ kindsBehind otherwise ls))

/-- The tokens of a chain. -/
def kinds (c : Chain) : List Token.Kind :=
  .keyword .kalo ::
    (c.first.testKinds ++ (c.first.block.kinds ++ kindsBehind c.otherwise c.more))

/-- What is executed when some links have been tried. -/
def stmtOf (otherwise : Option BlockText) : List Link → Stmt
  | [] =>
    match otherwise with
    | none => .empty
    | some b => .block b.body
  | l :: ls => .cond l.test (.block l.block.body) (stmtOf otherwise ls)

/-- A chain as a conditional whose second branch is the rest of the chain. -/
def stmt (c : Chain) : Stmt :=
  stmtOf c.otherwise c.links

/-! ## The tokens of a chain -/

variable {n : Nat} {ks ms rest : List Token.Kind} {e : Expr} {yes s : Stmt}
  {otherwise : Option BlockText}

theorem joinless_yaudah (ks : List Token.Kind) : Joinless (.keyword .yaudah :: ks) :=
  fun op h => by cases op <;> cases h

theorem joinless_behind (otherwise : Option BlockText) (ls : List Link) :
    Joinless (kindsBehind otherwise ls) := by
  intro op h
  cases ls with
  | nil =>
    cases otherwise with
    | none => cases op <;> cases h
    | some b => cases op <;> cases h
  | cons l ls => cases op <;> cases h

/-- A block is read wherever what follows it does not continue its last expression. -/
theorem block_derives (b : BlockText) (hn : maxNesting < n) (hrest : Joinless rest) :
    Stmt.Derives .block n (b.kinds ++ rest) (.block b.body) rest := by
  obtain ⟨n, rfl⟩ := Nat.exists_eq_add_one_of_ne_zero (Nat.ne_zero_of_lt hn)
  exact .block ((b.derives.deeper (Nat.le_of_lt_succ hn)).append hrest)

theorem test_reads (l : Link) (hn : maxNesting < n) (hrest : Joinless rest) :
    Expr.Reads n (l.testKinds ++ (l.block.kinds ++ rest)) l.test (l.block.kinds ++ rest) :=
  ⟨l.testKinds, rfl, l.whole.deeper hn.le, (l.block.derives.joinless l.apart).append hrest⟩

/-- The tokens of a chain are derived. The induction is on the links, each of which takes one nesting
    level. -/
theorem conditional_derives (otherwise : Option BlockText) (l : Link) (ls : List Link)
    (hn : maxNesting + ls.length < n) :
    Stmt.Derives .conditional n
      (l.testKinds ++ (l.block.kinds ++ kindsBehind otherwise ls)) (stmtOf otherwise (l :: ls))
      [] := by
  have hlt : maxNesting < n := by omega
  have htest := test_reads l hlt (joinless_behind otherwise ls)
  have hblock := block_derives l.block hlt (joinless_behind otherwise ls)
  induction ls generalizing l n with
  | nil =>
    cases otherwise with
    | none => exact .closed htest hblock
    | some b => exact .lainnya htest hblock (block_derives b hlt (joinless_yaudah []))
  | cons l' ls ih =>
    rw [List.length_cons] at hn
    obtain ⟨n, rfl⟩ := Nat.exists_eq_add_one_of_ne_zero (Nat.ne_zero_of_lt hn)
    have hlt' : maxNesting < n := by omega
    have hmore := ih l' (by omega) hlt' (test_reads l' hlt' (joinless_behind otherwise ls))
      (block_derives l'.block hlt' (joinless_behind otherwise ls))
    exact .kalogak htest hblock hmore

theorem statement_derives (c : Chain) :
    Stmt.Derives .statement (maxNesting + c.more.length + 1) c.kinds c.stmt [] :=
  .cond (conditional_derives c.otherwise c.first c.more (Nat.lt_succ_self _))

/-! ## All conditionals are chains -/

theorem exists_blockText {k : Token.Kind} (h : Stmt.Derives .block n ms yes (k :: rest))
    (hn : n ≤ maxNesting) : ∃ b : BlockText, ms = b.kinds ++ k :: rest := by
  cases h with
  | @block n _ _ _ h =>
    obtain ⟨body, rfl⟩ := h.exists_block
    obtain ⟨inside, rfl, hcut⟩ := h.cut
    have hinside := hcut [] (Stmt.milder_nil _)
    rw [List.append_nil] at hinside
    exact ⟨⟨inside, body, hinside.deeper (by omega)⟩, rfl⟩

theorem exists_link {k : Token.Kind} (htest : Expr.Reads n ks e ms)
    (hrun : Stmt.Derives .block n ms yes (k :: rest)) (hn : n ≤ maxNesting) :
    ∃ l : Link, ks = l.testKinds ++ (l.block.kinds ++ k :: rest) := by
  obtain ⟨b, rfl⟩ := exists_blockText hrun hn
  obtain ⟨front, rfl, hwhole, hstop⟩ := htest
  have hapart : b.kinds.head? ≠ some (.symbol .minus) := by
    cases hkinds : b.kinds with
    | nil => exact (Option.some_ne_none _).symm
    | cons k' ks' =>
      have hhead := hstop .subtract
      rw [hkinds] at hhead
      exact hhead
  exact ⟨⟨front, e, hwhole.deeper hn, b, hapart⟩, rfl⟩

/-- The induction is on the nesting levels, of which each link behind the first takes one. -/
theorem exists_links (h : Stmt.Derives .conditional n ks s []) (hn : n ≤ maxNesting) :
    ∃ (l : Link) (ls : List Link) (otherwise : Option BlockText),
      ks = l.testKinds ++ (l.block.kinds ++ kindsBehind otherwise ls) := by
  induction n generalizing ks s with
  | zero =>
    cases h with
    | closed _ run => cases run
    | lainnya _ run => cases run
  | succ n ih =>
    cases h with
    | closed test run =>
      obtain ⟨l, rfl⟩ := exists_link test run hn
      exact ⟨l, [], none, rfl⟩
    | lainnya test run last =>
      obtain ⟨l, rfl⟩ := exists_link test run hn
      obtain ⟨b, rfl⟩ := exists_blockText last hn
      exact ⟨l, [], some b, rfl⟩
    | kalogak test run more =>
      obtain ⟨l, rfl⟩ := exists_link test run hn
      obtain ⟨l', ls, otherwise, rfl⟩ := ih more (by omega)
      exact ⟨l, l' :: ls, otherwise, rfl⟩

theorem exists_chain {no : Stmt} (h : Stmt.Derives .statement maxNesting ks (.cond e yes no) []) :
    ∃ c : Chain, ks = c.kinds := by
  cases h with
  | cond h =>
    obtain ⟨l, ls, otherwise, rfl⟩ := exists_links h (Nat.le_refl _)
    exact ⟨⟨l, ls, otherwise⟩, rfl⟩

/-! ## Execution -/

variable {ctx : Context} {before after : List Link} {l : Link} {err : RuntimeError}

/-- All these conditions are false. -/
def NoneHolds (ctx : Context) (ls : List Link) : Prop :=
  ∀ l ∈ ls, l.test.evalTest ctx.environment = .ok false

/-- Links whose conditions are false are passed over. -/
theorem exec_of_noneHolds (hbefore : NoneHolds ctx before) (passes : Nat) :
    (stmtOf otherwise (before ++ after)).exec passes ctx =
      (stmtOf otherwise after).exec passes ctx := by
  induction before with
  | nil => rfl
  | cons b before ih =>
    obtain ⟨hfirst, hmore⟩ := List.forall_mem_cons.1 hbefore
    rw [List.cons_append, stmtOf, Stmt.exec, hfirst]
    exact ih hmore

theorem step_cond {test : Expr} {yes no : Stmt} {truth : Bool}
    (h : test.evalTest ctx.environment = .ok truth) :
    Machine.step ⟨[.stmt (.cond test yes no)], ctx⟩ =
      .running ⟨[.stmt (if truth then yes else no)], ctx⟩ := by
  simp only [Machine.step, Machine.stepStmt, h, Machine.proceed]

/-- In each step one condition is evaluated. -/
theorem reaches_of_noneHolds (hbefore : NoneHolds ctx before) :
    Machine.Reaches ⟨[.stmt (stmtOf otherwise (before ++ after))], ctx⟩ before.length
      ⟨[.stmt (stmtOf otherwise after)], ctx⟩ := by
  induction before with
  | nil => exact .refl _
  | cons b before ih =>
    obtain ⟨hfirst, hmore⟩ := List.forall_mem_cons.1 hbefore
    exact .cons (step_cond hfirst) (ih hmore)

/-- What a chain means in a context. The first link whose condition is true is picked, whatever the
    conditions behind it are: its block is executed in the context of the chain, and the machine
    comes to it as soon as it has evaluated the conditions up to this one. If a condition fails
    before one is true, the chain fails with nothing changed. If all are false, the last block is
    executed, or nothing if there is none. -/
structure Means (c : Chain) (p : Program) (ctx : Context) : Prop where
  picks : ∀ before l after, c.links = before ++ l :: after → NoneHolds ctx before →
    l.test.evalTest ctx.environment = .ok true →
      (∀ passes, p.execute passes ctx = Program.execute ⟨l.block.body⟩ passes ctx) ∧
        (p.machine ctx).Reaches (before.length + 1) ⟨[.stmt (.block l.block.body)], ctx⟩
  fails : ∀ before l after err, c.links = before ++ l :: after → NoneHolds ctx before →
    l.test.evalTest ctx.environment = .error err →
      ∀ passes, p.execute passes ctx = .failed err ctx
  last : ∀ b, c.otherwise = some b → NoneHolds ctx c.links →
    ∀ passes, p.execute passes ctx = Program.execute ⟨b.body⟩ passes ctx
  nothing : c.otherwise = none → NoneHolds ctx c.links →
    ∀ passes, p.execute passes ctx = .finished ctx passes

theorem exec_of_noneHolds_links {c : Chain} (h : NoneHolds ctx c.links) (passes : Nat) :
    c.stmt.exec passes ctx = (stmtOf c.otherwise []).exec passes ctx := by
  have hall : (stmtOf c.otherwise (c.links ++ [])).exec passes ctx =
      (stmtOf c.otherwise []).exec passes ctx := exec_of_noneHolds h passes
  rw [List.append_nil] at hall
  exact hall

theorem means (c : Chain) (ctx : Context) : c.Means ⟨[c.stmt]⟩ ctx where
  picks before l after hlinks hbefore h := by
    constructor
    · intro passes
      rw [Stmt.execute_single, stmt, hlinks, exec_of_noneHolds hbefore, stmtOf, Stmt.exec, h]
      dsimp only
      rw [Stmt.exec]
      rfl
    · show Machine.Reaches ⟨[.stmt (stmtOf c.otherwise c.links)], ctx⟩ _ _
      rw [hlinks]
      exact (reaches_of_noneHolds hbefore).trans (.cons (step_cond h) (.refl _))
  fails before l after err hlinks hbefore h passes := by
    rw [Stmt.execute_single, stmt, hlinks, exec_of_noneHolds hbefore, stmtOf, Stmt.exec, h]
  last b hlast hnone passes := by
    rw [Stmt.execute_single, exec_of_noneHolds_links hnone, hlast]
    dsimp only [stmtOf]
    rw [Stmt.exec]
    rfl
  nothing hnothing hnone passes := by
    rw [Stmt.execute_single, exec_of_noneHolds_links hnone, hnothing]
    dsimp only [stmtOf]
    rw [Stmt.exec]

end Chain

/-- A text that has the tokens of a chain is compiled, if it is, to one conditional that does what
    the chain means in every context. Every text that is compiled to one conditional has the tokens
    of a chain. -/
theorem compile_chain {source : String} {p : Program} (hp : compile source = .ok p) :
    (∀ (c : Chain) ts line, tokenize source = .ok (ts, line) → ts.map Token.kind = c.kinds →
      p.statements = [c.stmt] ∧ ∀ ctx, c.Means p ctx) ∧
    ∀ e yes no, p.statements = [.cond e yes no] →
      ∃ (c : Chain) (ts : List Token) (line : Nat), tokenize source = .ok (ts, line) ∧
        ts.map Token.kind = c.kinds := by
  obtain ⟨ss⟩ := p
  obtain ⟨ts, line, htokens, hder⟩ := derives_of_compile hp
  constructor
  · intro c ts' line' htokens' hkinds
    cases htokens.symm.trans htokens'
    have htakes := Feed.takes_foldr ts (.finish line)
    rw [hkinds] at hder htakes
    have hstatement : ss = [c.stmt] := hder.unique (by omega) c.statement_derives htakes
    subst hstatement
    exact ⟨rfl, c.means⟩
  · rintro e yes no hss
    rw [hss] at hder
    cases hder with
    | cons first more =>
      cases more
      obtain ⟨c, hkinds⟩ := Chain.exists_chain first
      exact ⟨c, ts, line, htokens, hkinds⟩

/-- The link of a variable and a block that reads an entry. -/
def Link.reading (x target : String) : Link where
  testKinds := [.identifier x]
  test := .variable x
  whole := Stmt.Target.name.whole
  block := ⟨[.keyword .baca, .identifier target], [.input target], .cons .input .nil⟩
  apart := nofun

/-- The second condition is the first one that is true, and the third one would fail. -/
theorem compile_chain_second : ∃ p,
    compile "kalo x baca a kalogak y baca b kalogak z baca c yaudah" = .ok p ∧
      ∀ passes, p.execute passes
          (((Context.start ["1"]).bind "x" (.boolean false)).bind "y" (.boolean true)) =
        Program.execute ⟨[.input "b"]⟩ passes
          (((Context.start ["1"]).bind "x" (.boolean false)).bind "y" (.boolean true)) := by
  have hcompile : compile "kalo x baca a kalogak y baca b kalogak z baca c yaudah" =
      .ok ⟨[.cond (.variable "x") (.block [.input "a"]) (.cond (.variable "y")
        (.block [.input "b"]) (.cond (.variable "z") (.block [.input "c"]) .empty))]⟩ := by
    decide +kernel
  have hkinds : (tokenize "kalo x baca a kalogak y baca b kalogak z baca c yaudah").map
      (fun r => r.1.map Token.kind) = .ok (Chain.kinds ⟨.reading "x" "a",
        [.reading "y" "b", .reading "z" "c"], none⟩) := by
    decide +kernel
  obtain ⟨ts, line, htokens, -⟩ := derives_of_compile hcompile
  rw [htokens] at hkinds
  obtain ⟨-, hmeans⟩ := (compile_chain hcompile).1 _ ts line htokens (Except.ok.inj hkinds)
  have hfalse : Chain.NoneHolds
      (((Context.start ["1"]).bind "x" (.boolean false)).bind "y" (.boolean true))
      [.reading "x" "a"] := List.forall_mem_singleton.2 (by decide +kernel)
  exact ⟨_, hcompile, ((hmeans _).picks _ _ [.reading "z" "c"] rfl hfalse (by decide +kernel)).1⟩

end Naskah
