import Naskah.Proofs.Program.Exact
import Naskah.Proofs.Stmt.Names

/-
  Assignments in a text and in its program. Expressions have no `itu` in them, so in a text that is
  derived each `itu` belongs to an assignment, and the target of the assignment stands right before
  it: a name, in any number of parentheses (`Stmt.Derives.assigns`). The names are those that the
  assignments of the program assign to, in the same order (`compile_assigns`).
-/

namespace Naskah

namespace Stmt

/-- The name that an assignment assigns to. -/
def assigned? : Stmt → Option String
  | .assign x _ => some x
  | _ => none

/-- The names that a statement and those within it assign to, in the order of the text. -/
def assigned (s : Stmt) : List String :=
  s.parts.filterMap assigned?

/-- In the tokens each `itu` comes right behind a target, and these are the names of the targets one
    after another. -/
inductive Assigns : List Token.Kind → List String → Prop
  | none {ks : List Token.Kind} (h : .keyword .itu ∉ ks) : Assigns ks []
  | itu {before ks rest : List Token.Kind} {n : Nat} {x : String} {xs : List String}
      (h : .keyword .itu ∉ before) (target : Target n ks x) (more : Assigns rest xs) :
      Assigns (before ++ (ks ++ .keyword .itu :: rest)) (x :: xs)

/-- The tokens go on as `rest`, behind assignments to the names. -/
def AssignsUpTo (ks rest : List Token.Kind) (xs : List String) : Prop :=
  ∃ ms, ks = ms ++ rest ∧ Assigns ms xs

variable {n : Nat} {ks ms rest : List Token.Kind} {x : String} {xs ys : List String}

theorem Assigns.skip (h : .keyword .itu ∉ ms) (hks : Assigns ks xs) : Assigns (ms ++ ks) xs := by
  cases hks with
  | none hnone => exact .none (List.mem_append.not.2 (not_or.2 ⟨h, hnone⟩))
  | itu hbefore target more =>
    rw [← List.append_assoc]
    exact .itu (List.mem_append.not.2 (not_or.2 ⟨h, hbefore⟩)) target more

theorem Assigns.append (hks : Assigns ks xs) (hms : Assigns ms ys) :
    Assigns (ks ++ ms) (xs ++ ys) := by
  induction hks with
  | none h => exact hms.skip h
  | itu h target _ ih =>
    rw [List.append_assoc, List.append_assoc]
    exact .itu h target ih

namespace AssignsUpTo

theorem refl (ks : List Token.Kind) : AssignsUpTo ks ks [] :=
  ⟨[], rfl, .none List.not_mem_nil⟩

theorem trans (h : AssignsUpTo ks ms xs) (h' : AssignsUpTo ms rest ys) :
    AssignsUpTo ks rest (xs ++ ys) := by
  obtain ⟨ls, rfl, hls⟩ := h
  obtain ⟨ls', rfl, hls'⟩ := h'
  exact ⟨ls ++ ls', (List.append_assoc _ _ _).symm, hls.append hls'⟩

/-- A token other than `itu` does not matter. -/
theorem token {k : Token.Kind} (hk : k ≠ .keyword .itu) (h : AssignsUpTo ks rest xs) :
    AssignsUpTo (k :: ks) rest xs := by
  obtain ⟨ms, rfl, hms⟩ := h
  exact ⟨k :: ms, rfl, hms.skip (List.mem_singleton.not.2 hk.symm)⟩

theorem token_behind {k : Token.Kind} (hk : k ≠ .keyword .itu) (h : AssignsUpTo ks (k :: rest) xs) :
    AssignsUpTo ks rest xs := by
  have htrans := h.trans (token hk (refl rest))
  rwa [List.append_nil] at htrans

end AssignsUpTo

end Stmt

/-- No expression has an `itu` in it. -/
theorem Expr.Derives.itu_not_mem {l : Expr.Level} {n : Nat} {ks : List Token.Kind} {e : Expr}
    (h : Expr.Derives l n ks e) : .keyword .itu ∉ ks := by
  induction h with
  | number | text | benar | salah | name => exact List.mem_singleton.not.2 (by simp)
  | paren _ ih => simpa using ih
  | unary op _ _ ih => cases op <;> simpa [UnaryOp.kind] using ih
  | binary op _ _ _ iha ihb => cases op <;> simpa [BinaryOp.kind] using ⟨iha, ihb⟩
  | tighter _ _ ih => exact ih

namespace Stmt

open AssignsUpTo

variable {n : Nat} {ks ms rest : List Token.Kind} {x : String} {xs ys : List String}

/-- An expression does not matter. -/
theorem AssignsUpTo.reads {e : Expr} (he : Expr.Reads n ks e ms) (h : AssignsUpTo ms rest xs) :
    AssignsUpTo ks rest xs := by
  obtain ⟨ls, rfl, ⟨hder, -⟩, -⟩ := he
  obtain ⟨ms, rfl, hms⟩ := h
  exact ⟨ls ++ ms, (List.append_assoc _ _ _).symm, hms.skip hder.itu_not_mem⟩

theorem assigned_cond (test : Expr) (yes no : Stmt) :
    (cond test yes no).assigned = yes.assigned ++ no.assigned :=
  List.filterMap_append

theorem assigned_cons (s : Stmt) (ss : List Stmt) :
    (block (s :: ss)).assigned = s.assigned ++ (block ss).assigned :=
  List.filterMap_append

/-- What is derived assigns to the names to which the tree does. The induction is on the derivation;
    the expressions and the words of a statement stand between the assignments within it. -/
theorem Derives.assigns {p : Part} {s : Stmt} (h : Derives p n ks s rest) :
    AssignsUpTo ks rest s.assigned := by
  induction h with
  | @assign n ks ms rest x e target value =>
    obtain ⟨ls, rfl, hls⟩ := (refl rest).reads value
    have hassigns := Assigns.itu List.not_mem_nil target hls
    exact ⟨ks ++ .keyword .itu :: ls, by simp, hassigns⟩
  | expr value => exact (refl _).reads value
  | input => exact token (by simp) (token (by simp) (refl _))
  | print value => exact token (by simp) ((refl _).reads value)
  | loop test _ ih => exact token (by simp) ((token_behind (by simp) ih).reads test)
  | count first last _ ih =>
    have hrest := (token_behind (by simp) ih).reads last
    exact token (by simp) (token (by simp) (token (by simp) ((token (by simp) hrest).reads first)))
  | cond _ ih => exact token (by simp) ih
  | @closed n ks ms rest e yes test _ ih =>
    have hempty : (Stmt.cond e yes .empty).assigned = yes.assigned :=
      (assigned_cond e yes .empty).trans (List.append_nil _)
    rw [hempty]
    exact (token_behind (by simp) ih).reads test
  | lainnya test _ _ ih ih' =>
    rw [assigned_cond]
    exact ((token_behind (by simp) ih).trans (token_behind (by simp) ih')).reads test
  | kalogak test _ _ ih ih' =>
    rw [assigned_cond]
    exact ((token_behind (by simp) ih).trans ih').reads test
  | block _ ih => exact ih
  | nil => exact refl _
  | cons _ _ ih ih' =>
    rw [assigned_cons]
    exact ih.trans ih'

end Stmt

/-- The names that the assignments of a program assign to, in the order of the text. -/
def Program.assigned (p : Program) : List String :=
  p.parts.filterMap Stmt.assigned?

/-! ## Names without parentheses -/

namespace Token.Kind

/-- Every `itu` comes right behind an identifier. -/
def Bare (ks : List Token.Kind) : Prop :=
  ∀ before rest, ks = before ++ .keyword .itu :: rest →
    ∃ front x, before = front ++ [.identifier x]

/-- The names of the identifiers right before an `itu`, in order. -/
def named : List Token.Kind → List String
  | .identifier x :: .keyword .itu :: ks => x :: named ks
  | _ :: ks => named ks
  | [] => []

theorem named_append {ks ms : List Token.Kind} (h : .keyword .itu ∉ ks)
    (hms : ms.head? ≠ some (.keyword .itu)) : named (ks ++ ms) = named ms := by
  induction ks with
  | nil => rfl
  | cons k ks ih =>
    obtain ⟨hk, hks⟩ := List.ne_and_not_mem_of_not_mem_cons h
    rw [List.cons_append, named.eq_2 k (ks ++ ms), ih hks]
    rintro x rest rfl heq
    cases ks with
    | nil => exact hms (congrArg List.head? heq)
    | cons k' ks =>
      obtain ⟨rfl, -⟩ := List.cons.inj heq
      exact hks List.mem_cons_self

theorem named_eq_nil {ks : List Token.Kind} (h : .keyword .itu ∉ ks) : named ks = [] := by
  have hnamed : named (ks ++ []) = named [] := named_append h (fun h => nomatch h)
  rwa [List.append_nil] at hnamed

end Token.Kind

namespace Stmt

open Token.Kind (Bare named)

/-- No `itu` comes right behind a closing parenthesis. -/
def Unclosed (ks : List Token.Kind) : Prop :=
  ∀ before rest, ks ≠ before ++ .symbol .parenClose :: .keyword .itu :: rest

/-- A token that does not come before another place of its kind is there or behind it. -/
theorem append_cons_cases {k : Token.Kind} {us vs before rest : List Token.Kind} (h : k ∉ us)
    (heq : us ++ k :: vs = before ++ k :: rest) :
    before = us ∨ ∃ between, before = us ++ k :: between ∧ vs = between ++ k :: rest := by
  rcases List.append_eq_append_iff.1 heq with ⟨as, rfl, has⟩ | ⟨bs, rfl, hbs⟩
  · cases as with
    | nil => exact .inl (List.append_nil _)
    | cons a as =>
      obtain ⟨rfl, rfl⟩ := List.cons.inj has
      exact .inr ⟨as, rfl, rfl⟩
  · cases bs with
    | nil => exact .inl (List.append_nil _).symm
    | cons b bs =>
      obtain ⟨rfl, -⟩ := List.cons.inj hbs
      exact absurd (List.mem_append_right _ List.mem_cons_self) h

/-- Where no target is in parentheses every `itu` comes right behind its name. -/
theorem Assigns.bare {ks : List Token.Kind} {xs : List String} (h : Assigns ks xs)
    (hclosed : Unclosed ks) : Bare ks ∧ named ks = xs := by
  induction h with
  | none h =>
    refine ⟨fun before rest heq => ?_, Token.Kind.named_eq_nil h⟩
    rw [heq] at h
    exact absurd (List.mem_append_right _ List.mem_cons_self) h
  | @itu before ks rest n x xs h target more ih =>
    have hrest : Unclosed rest := fun front tail heq =>
      hclosed (before ++ (ks ++ .keyword .itu :: front)) tail (by rw [heq]; simp)
    obtain ⟨hbare, hnamed⟩ := ih hrest
    cases target with
    | @paren n ks _ target =>
      exact absurd (by simp) (hclosed (before ++ .symbol .parenOpen :: ks) rest)
    | name =>
      refine ⟨fun front tail heq => ?_, ?_⟩
      · have hfront : .keyword .itu ∉ before ++ [.identifier x] :=
          List.mem_append.not.2 (not_or.2 ⟨h, List.mem_singleton.not.2 (by simp)⟩)
        rw [← List.append_assoc] at heq
        rcases append_cons_cases hfront heq with rfl | ⟨between, rfl, hbetween⟩
        · exact ⟨before, x, rfl⟩
        · obtain ⟨front, y, rfl⟩ := hbare between tail hbetween
          exact ⟨before ++ [.identifier x] ++ .keyword .itu :: front, y, by simp⟩
      · have hhead : ([.identifier x] ++ .keyword .itu :: rest : List Token.Kind).head? ≠
            some (.keyword .itu) := by simp
        rw [Token.Kind.named_append h hhead]
        exact congrArg (x :: ·) hnamed

end Stmt

/-- In a text that compiles every `itu` comes right behind a name, in any number of parentheses, and
    these names are those to which the assignments of the program assign, one by one and in order.
    Where no `itu` comes right behind a closing parenthesis, it comes right behind the name. -/
theorem compile_assigns {source : String} {p : Program} (h : compile source = .ok p) :
    ∃ ts line, tokenize source = .ok (ts, line) ∧
      Stmt.Assigns (ts.map Token.kind) p.assigned ∧
      (Stmt.Unclosed (ts.map Token.kind) →
        Token.Kind.Bare (ts.map Token.kind) ∧ Token.Kind.named (ts.map Token.kind) = p.assigned) := by
  obtain ⟨ts, line, htokens, hder⟩ := derives_of_compile h
  obtain ⟨ks, hks, hassigns⟩ := hder.assigns
  rw [List.append_nil] at hks
  subst hks
  exact ⟨ts, line, htokens, hassigns, hassigns.bare⟩

/-- An assignment to a name in two pairs of parentheses, and one inside a conditional. -/
theorem compile_assigns_nested :
    ∃ p ts line, compile "((x)) itu y kalo y a itu 1 yaudah" = .ok p ∧
      tokenize "((x)) itu y kalo y a itu 1 yaudah" = .ok (ts, line) ∧
      Stmt.Assigns (ts.map Token.kind) ["x", "a"] := by
  have hcompile : compile "((x)) itu y kalo y a itu 1 yaudah" =
      .ok ⟨[.assign "x" (.variable "y"),
        .cond (.variable "y") (.block [.assign "a" (.number (Numeral.plain ['1']))]) .empty]⟩ := by
    decide +kernel
  obtain ⟨ts, line, htokens, hassigns, -⟩ := compile_assigns hcompile
  exact ⟨_, ts, line, hcompile, htokens, hassigns⟩

/-- A name in parentheses is assigned to, though no identifier comes right before the `itu`. -/
theorem not_bare_parens :
    compile "(x) itu 5" = .ok ⟨[.assign "x" (.number (Numeral.plain ['5']))]⟩ ∧
      ∃ ts line, tokenize "(x) itu 5" = .ok (ts, line) ∧ ¬ Token.Kind.Bare (ts.map Token.kind) := by
  have htokens : tokenize "(x) itu 5" =
      .ok ([⟨.symbol .parenOpen, 1⟩, ⟨.identifier "x", 1⟩, ⟨.symbol .parenClose, 1⟩,
        ⟨.keyword .itu, 1⟩, ⟨.number "5", 1⟩], 1) := by decide +kernel
  refine ⟨by decide +kernel, _, _, htokens, fun hbare => ?_⟩
  obtain ⟨front, x, hfront⟩ :=
    hbare [.symbol .parenOpen, .identifier "x", .symbol .parenClose] [.number "5"] rfl
  have hlast := congrArg List.getLast? hfront
  rw [List.getLast?_concat] at hlast
  cases hlast

end Naskah
