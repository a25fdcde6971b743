import Naskah.Proofs.Program.History
import Naskah.Proofs.Program.Unrelated
import Naskah.Proofs.Stmt.Ends

/-
  Names that a program does not mention. Such names may be bound to anything: the program ends the
  same way, its contexts stay the same but for these names, and these keep their bindings
  (`Stmt.Ends.sameBut`).
-/

namespace Naskah

/-- The two contexts are the same, but for what the hidden names are bound to. -/
structure Context.SameBut (hidden : List String) (ctx ctx' : Context) : Prop where
  input : ctx.input = ctx'.input
  output : ctx.output = ctx'.output
  bound : ∀ x, x ∉ hidden → ctx.environment.get? x = ctx'.environment.get? x

namespace Context.SameBut

variable {hidden : List String} {ctx ctx' : Context}

theorem refl (ctx : Context) : SameBut hidden ctx ctx where
  input := rfl
  output := rfl
  bound _ _ := rfl

theorem symm (h : SameBut hidden ctx ctx') : SameBut hidden ctx' ctx where
  input := h.input.symm
  output := h.output.symm
  bound x hx := (h.bound x hx).symm

theorem bind (h : SameBut hidden ctx ctx') (x : String) (value : Value) :
    SameBut hidden (ctx.bind x value) (ctx'.bind x value) where
  input := h.input
  output := h.output
  bound y hy := by
    unfold Context.bind
    rw [Environment.get?_set, Environment.get?_set, h.bound y hy]

/-- What a hidden name is bound to does not matter. -/
theorem bind_hidden (h : SameBut hidden ctx ctx') {x : String} (hx : x ∈ hidden) (value : Value) :
    SameBut hidden ctx (ctx'.bind x value) where
  input := h.input
  output := h.output
  bound y hy := by
    have hne : y ≠ x := fun heq => hy (heq ▸ hx)
    unfold Context.bind
    rw [Environment.get?_set, if_neg hne, h.bound y hy]

theorem agree (h : SameBut hidden ctx ctx') {names : List String} (hnames : ∀ x ∈ names, x ∉ hidden) :
    ctx.environment.Agree names ctx'.environment :=
  fun x hx => h.bound x (hnames x hx)

end Context.SameBut

variable {hidden : List String} {ctx ctx' final : Context} {result : Except RuntimeError Unit}

/-- A name that the program does not bind is bound as it was. -/
theorem Program.Ends.kept {p : Program} (h : p.Ends ctx result final) {x : String}
    (hx : x ∉ p.targets) : final.environment.get? x = ctx.environment.get? x := by
  obtain ⟨n, m, hn, -, rfl⟩ := Program.ends_iff_reaches.1 h
  obtain ⟨_, hfollows, -⟩ := hn.follows (p.machine_within ctx)
  exact hfollows.kept x hx

namespace Stmt

variable {counter : String} {first last : Expr} {body : Stmt}

/-- All the names that occur in a statement. -/
def names (s : Stmt) : List String :=
  Program.names ⟨[s]⟩

theorem names_eq (s : Stmt) : s.names = mentioned s.parts := by
  show mentioned (s.parts ++ []) = _
  rw [List.append_nil]

theorem mentioned_subset {ss ts : List Stmt} (h : ss ⊆ ts) : mentioned ss ⊆ mentioned ts := by
  intro x hx
  rcases List.mem_append.1 hx with hx | hx
  · exact List.mem_append_left _ (List.filterMap_subset _ h hx)
  · obtain ⟨e, he, hname⟩ := List.mem_flatMap.1 hx
    obtain ⟨s, hs, hvalue⟩ := List.mem_flatMap.1 he
    exact names_subset_mentioned (h hs) hvalue hname

theorem counter_mem_names : counter ∈ (count counter first last body).names := by
  rw [names_eq]
  exact List.mem_append_left _ (mem_targets (mem_parts _) rfl)

theorem last_names_subset : last.names ⊆ (count counter first last body).names := by
  rw [names_eq]
  exact names_subset_mentioned (mem_parts _) (List.mem_cons_of_mem _ List.mem_cons_self)

theorem body_names_subset : body.names ⊆ (count counter first last body).names := by
  rw [names_eq, names_eq, parts]
  exact mentioned_subset (List.subset_cons_self _ _)

end Stmt

/-- A statement that mentions no hidden name ends the same way whatever these are bound to, and they
    keep their bindings. -/
theorem Stmt.Ends.sameBut {s : Stmt} (h : s.Ends ctx result final)
    (hsame : Context.SameBut hidden ctx ctx') (hnames : ∀ x ∈ s.names, x ∉ hidden) :
    ∃ final', s.Ends ctx' result final' ∧ Context.SameBut hidden final final' ∧
      ∀ x ∈ hidden, final'.environment.get? x = ctx'.environment.get? x := by
  obtain ⟨final', h', halike⟩ := Program.Ends.alike h hsame.input (hsame.agree hnames)
  obtain ⟨printed, hout, hout'⟩ := halike.output
  have htarget {x : String} (hx : x ∉ s.names) : x ∉ Program.targets ⟨[s]⟩ :=
    fun hmem => hx (List.mem_append_left _ hmem)
  have hbound (x : String) (hx : x ∉ hidden) :
      final.environment.get? x = final'.environment.get? x := by
    by_cases hmem : x ∈ s.names
    · exact halike.agree x hmem
    · rw [Program.Ends.kept h (htarget hmem), Program.Ends.kept h' (htarget hmem), hsame.bound x hx]
  refine ⟨final', h', ⟨halike.input, ?_, hbound⟩, fun x hx => ?_⟩
  · rw [hout, hout', hsame.output]
  · exact Program.Ends.kept h' (htarget fun hmem => hnames x hmem hx)

end Naskah
