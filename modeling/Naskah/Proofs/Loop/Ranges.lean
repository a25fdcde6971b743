import Naskah.Proofs.Loop.Passes
import Naskah.Proofs.Number.Successor

/-
  How many passes a counted loop makes. The counters of a loop with finite bounds go up until adding
  one changes nothing, so the loop ends if and only if this does not happen before they have gone
  beyond the last bound (`Stmt.count_ends_iff_advances`). Between two integers that are less than
  `2 ^ 53` there is one pass for each integer (`Stmt.count_integers`).
-/

namespace Naskah

open Binary

namespace Stmt

variable {counter : String} {first last : Expr} {body : Stmt} {x y next : Float}
  {ctx mid final : Context} {starts : List Context} {result : Except RuntimeError Unit} {k n : Nat}

/-! ## Counters -/

/-- Within the last bound adding one makes the counter another one. -/
def Advances (x y : Float) : Prop :=
  ∀ k, counterAt x k ≤ y → counterAt x (k + 1) ≠ counterAt x k

theorem counter_counterAt (hx : x.isFinite) (k : Nat) : Counter (counterAt x k) := by
  induction k with
  | zero => exact .inl hx
  | succ k ih =>
    rw [counterAt_succ]
    exact ih.succ

/-- Counters within the last bound are finite, and none is less than the one before. -/
theorem counterAt_le_succ (hx : x.isFinite) (hy : y.isFinite) (h : counterAt x (k + 1) ≤ y) :
    (counterAt x k).isFinite ∧ (counterAt x (k + 1)).isFinite ∧
      number (counterAt x k) ≤ number (counterAt x (k + 1)) := by
  rw [counterAt_succ] at h ⊢
  exact (counter_counterAt hx k).le_succ hy h

theorem counterAt_le_of_succ (hx : x.isFinite) (hy : y.isFinite) (h : counterAt x (k + 1) ≤ y) :
    counterAt x k ≤ y := by
  obtain ⟨hk, hsucc, hle⟩ := counterAt_le_succ hx hy h
  exact (le_iff hk hy).2 (hle.trans ((le_iff hsucc hy).1 h))

/-- A counter within the last bound has come from counters within the last bound. -/
theorem counterAt_le_of_le (hx : x.isFinite) (hy : y.isFinite) (hle : n ≤ k)
    (h : counterAt x k ≤ y) : counterAt x n ≤ y := by
  induction k, hle using Nat.le_induction with
  | base => exact h
  | succ k _ ih => exact ih (counterAt_le_of_succ hx hy h)

theorem number_le_counterAt (hx : x.isFinite) (hy : y.isFinite) (h : counterAt x k ≤ y) :
    number x ≤ number (counterAt x k) := by
  induction k with
  | zero => exact le_rfl
  | succ k ih =>
    obtain ⟨-, -, hle⟩ := counterAt_le_succ hx hy h
    exact (ih (counterAt_le_of_succ hx hy h)).trans hle

/-- Behind a counter that adding one does not change all counters are the same. -/
theorem counterAt_stuck (h : counterAt x (k + 1) = counterAt x k) (n : Nat) :
    counterAt x (k + n) = counterAt x k := by
  induction n with
  | zero => rfl
  | succ n ih =>
    have hsucc : counterAt x (k + (n + 1)) = counterAt x (k + n) + 1.0 := counterAt_succ x (k + n)
    rw [hsucc, ih, ← counterAt_succ, h]

theorem finite_float : Finite Float := by
  refine Finite.of_injective (fun x : Float => x.toBits.toFin) fun x y h => ?_
  exact Float.toBits_inj.1 (UInt64.toFin_inj.1 h)

/-- There are too few floats for counters that always advance and stay within the last bound. -/
theorem Advances.exists_beyond (h : Advances x y) (hx : x.isFinite) (hy : y.isFinite) :
    ∃ n, ¬ counterAt x n ≤ y := by
  by_contra hnone
  have hall (k : Nat) : counterAt x k ≤ y := by
    by_contra hk
    exact hnone ⟨k, hk⟩
  have hincreasing : StrictMono fun k => number (counterAt x k) := by
    refine strictMono_nat_of_lt_succ fun k => ?_
    have hle : counterAt x k + 1.0 ≤ y := by
      rw [← counterAt_succ]
      exact hall (k + 1)
    have hne : counterAt x k + 1.0 ≠ counterAt x k := by
      rw [← counterAt_succ]
      exact h k (hall k)
    have hlt := (counter_counterAt hx k).lt_succ hy hle hne
    rw [← counterAt_succ] at hlt
    exact hlt
  have hinjective : Function.Injective (counterAt x) := fun i j hij =>
    hincreasing.injective (congrArg number hij)
  have := finite_float
  exact not_injective_infinite_finite _ hinjective

/-- From `-2 ^ 53` up to `2 ^ 53` all counters advance. -/
theorem advances_of_lt (hx : x.isFinite) (hy : y.isFinite) (hleast : -2 ^ 53 ≤ number x)
    (hlt : number y < 2 ^ 53) : Advances x y := by
  intro k hk
  have hfinite := (counter_counterAt hx k).isFinite_of_le hy hk
  have hhigh : number (counterAt x k) ≤ number y := (le_iff hfinite hy).1 hk
  rw [counterAt_succ]
  exact succ_ne hfinite (hleast.trans (number_le_counterAt hx hy hk)) (hhigh.trans_lt hlt)

/-! ## Loops that end -/

/-- The body succeeds in every pass that the loop comes to. -/
def Succeeds (counter : String) (y : Float) (body : Stmt) (x : Float) (ctx : Context) : Prop :=
  ∀ starts next mid, Passes counter y body x ctx starts next mid → next ≤ y →
    ∃ final, body.Ends (mid.bind counter (.number next)) (.ok ()) final

/-- As many passes are made as there are counters within the last bound. -/
theorem Succeeds.exists_passes (h : Succeeds counter y body x ctx)
    (hwithin : ∀ k < n, counterAt x k ≤ y) :
    ∃ starts mid, Passes counter y body x ctx starts (counterAt x n) mid ∧ starts.length = n := by
  induction n with
  | zero => exact ⟨[], ctx, .none, rfl⟩
  | succ n ih =>
    obtain ⟨starts, mid, hpasses, hlength⟩ := ih fun k hk => hwithin k (Nat.lt_succ_of_lt hk)
    have hle : counterAt x n ≤ y := hwithin n (Nat.lt_succ_self n)
    obtain ⟨final, hrun⟩ := h _ _ _ hpasses hle
    have hmore := hpasses.snoc hle hrun
    rw [← counterAt_succ] at hmore
    refine ⟨_, final, hmore, ?_⟩
    rw [List.length_append, hlength]
    rfl

/-- A counted loop whose body succeeds ends when the counter has gone beyond the last bound. -/
theorem Succeeds.ends (h : Succeeds counter y body x ctx)
    (hx : first.evalBound ctx.environment = .ok x) (hy : last.evalBound ctx.environment = .ok y)
    (hwithin : ∀ k < n, counterAt x k ≤ y) (hbeyond : ¬ counterAt x n ≤ y) :
    ∃ starts final, Passes counter y body x ctx starts (counterAt x n) final ∧
      starts.length = n ∧ (count counter first last body).Ends ctx (.ok ()) final := by
  obtain ⟨starts, final, hpasses, hlength⟩ := h.exists_passes hwithin
  exact ⟨starts, final, hpasses, hlength,
    (count_ends_iff hx hy).2 ⟨starts, _, final, hpasses, .beyond hbeyond⟩⟩

/-- How a counted loop ends whose body succeeds: its passes have led beyond the last bound. -/
theorem Succeeds.result_eq (h : Succeeds counter y body x ctx)
    (hx : first.evalBound ctx.environment = .ok x) (hy : last.evalBound ctx.environment = .ok y)
    (hends : (count counter first last body).Ends ctx result final) :
    result = .ok () ∧ ∃ n, ¬ counterAt x n ≤ y := by
  obtain ⟨starts, next, mid, hpasses, hstops⟩ := (count_ends_iff hx hy).1 hends
  cases hstops with
  | beyond hbeyond => exact ⟨rfl, starts.length, hpasses.next_eq ▸ hbeyond⟩
  | failed within hfail =>
    obtain ⟨final', hrun⟩ := h _ _ _ hpasses within
    cases (hfail.unique hrun).1

/-- A loop whose counter is stuck within the last bound does not end. -/
theorem Succeeds.advances (h : Succeeds counter y body x ctx)
    (hx : first.evalBound ctx.environment = .ok x) (hy : last.evalBound ctx.environment = .ok y)
    (hfx : x.isFinite) (hfy : y.isFinite)
    (hends : (count counter first last body).Ends ctx result final) : Advances x y := by
  obtain ⟨-, n, hbeyond⟩ := h.result_eq hx hy hends
  intro k hk hstuck
  rcases Nat.le_total n k with hle | hle
  · exact hbeyond (counterAt_le_of_le hfx hfy hle hk)
  · obtain ⟨j, rfl⟩ := Nat.exists_eq_add_of_le hle
    rw [counterAt_stuck hstuck] at hbeyond
    exact hbeyond hk

/-- A loop whose counters advance ends. -/
theorem Succeeds.ends_of_advances (h : Succeeds counter y body x ctx)
    (hx : first.evalBound ctx.environment = .ok x) (hy : last.evalBound ctx.environment = .ok y)
    (hfx : x.isFinite) (hfy : y.isFinite) (hadvances : Advances x y) :
    ∃ final, (count counter first last body).Ends ctx (.ok ()) final := by
  have hbeyond : ∃ n, ¬ counterAt x n ≤ y := hadvances.exists_beyond hfx hfy
  have hwithin (k : Nat) (hk : k < Nat.find hbeyond) : counterAt x k ≤ y :=
    not_not.1 (Nat.find_min hbeyond hk)
  obtain ⟨starts, final, -, -, hends⟩ := h.ends hx hy hwithin (Nat.find_spec hbeyond)
  exact ⟨final, hends⟩

/-- Let the bounds of a counted loop be finite floats and its body succeed in every context. The
    loop ends, with success, if and only if within the last bound no counter is one that adding one
    does not change. So a loop whose bounds are the same makes exactly one pass unless adding one
    does not change them, and a loop with bounds from `-2 ^ 53` on and below `2 ^ 53` ends. -/
theorem count_ends_iff_advances (hx : first.evalBound ctx.environment = .ok x)
    (hy : last.evalBound ctx.environment = .ok y) (hfx : x.isFinite) (hfy : y.isFinite)
    (hbody : ∀ ctx, ∃ final, body.Ends ctx (.ok ()) final) :
    ((∃ result final, (count counter first last body).Ends ctx result final) ↔ Advances x y) ∧
      (∀ result final, (count counter first last body).Ends ctx result final → result = .ok ()) ∧
      ((x == y) = true → ((∃ start final, Passes counter y body x ctx [start] (x + 1.0) final ∧
        (count counter first last body).Ends ctx (.ok ()) final) ↔ x + 1.0 ≠ x)) ∧
      (-2 ^ 53 ≤ number x → number y < 2 ^ 53 →
        ∃ final, (count counter first last body).Ends ctx (.ok ()) final) := by
  have hsucceeds : Succeeds counter y body x ctx := fun _ _ mid _ _ => hbody _
  refine ⟨⟨?_, ?_⟩, ?_, ?_, ?_⟩
  · rintro ⟨result, final, hends⟩
    exact hsucceeds.advances hx hy hfx hfy hends
  · intro hadvances
    obtain ⟨final, hends⟩ := hsucceeds.ends_of_advances hx hy hfx hfy hadvances
    exact ⟨.ok (), final, hends⟩
  · intro result final hends
    exact (hsucceeds.result_eq hx hy hends).1
  · intro heq
    have hle : x ≤ y := (le_iff hfx hfy).2 ((beq_iff hfx hfy).1 heq).le
    constructor
    · rintro ⟨start, final, -, hends⟩
      exact hsucceeds.advances hx hy hfx hfy hends 0 hle
    · intro hne
      have hbeyond : ¬ x + 1.0 ≤ y := by
        intro hwithin
        have hlt := Counter.lt_succ (.inl hfx) hfy hwithin hne
        have hsucc := (Counter.succ (.inl hfx)).isFinite_of_le hfy hwithin
        have hback := (le_iff hsucc hfy).1 hwithin
        rw [← (beq_iff hfx hfy).1 heq] at hback
        exact absurd hlt (not_lt.2 hback)
      obtain ⟨starts, final, hpasses, hlength, hends⟩ := hsucceeds.ends (n := 1) hx hy
        (fun k hk => by rw [Nat.lt_one_iff.1 hk]; exact hle) hbeyond
      obtain ⟨start, rfl⟩ := List.length_eq_one_iff.1 hlength
      exact ⟨start, final, hpasses, hends⟩
  · intro hleast hlt
    exact hsucceeds.ends_of_advances hx hy hfx hfy (advances_of_lt hfx hfy hleast hlt)

/-- From a half to a half there is exactly one pass. -/
theorem count_ends_iff_advances_half : ∃ start final,
    Passes "i" 0.5 (.print (.number 2.0)) 0.5 (Context.start []) [start] (0.5 + 1.0) final ∧
      (count "i" (.number 0.5) (.number 0.5) (.print (.number 2.0))).Ends (Context.start [])
        (.ok ()) final := by
  have hfinite : Float.isFinite 0.5 := by decide +kernel
  have hbody (ctx : Context) : ∃ final, (print (.number 2.0)).Ends ctx (.ok ()) final :=
    ⟨_, ends_iff_exec.2 ⟨0, 0, rfl⟩⟩
  have hx : (Expr.number 0.5).evalBound (Context.start []).environment = .ok 0.5 := rfl
  obtain ⟨-, -, honce, -⟩ := count_ends_iff_advances hx hx hfinite hfinite hbody
  exact (honce (by decide +kernel)).2 (by decide +kernel)

/-- A number that adding one does not change: a loop from it to itself never ends. -/
theorem count_stuck : Float.isFinite 9007199254740992.0 ∧
    (∀ ctx, ∃ final, (block []).Ends ctx (.ok ()) final) ∧
    ¬ ∃ result final, (count "i" (.number 9007199254740992.0) (.number 9007199254740992.0)
      (block [])).Ends (Context.start []) result final := by
  have hfinite : Float.isFinite 9007199254740992.0 := by decide +kernel
  have hbody (ctx : Context) : ∃ final, (block []).Ends ctx (.ok ()) final :=
    ⟨ctx, ends_block.2 (ends_nil.2 ⟨rfl, rfl⟩)⟩
  refine ⟨hfinite, hbody, ?_⟩
  rintro ⟨result, final, hends⟩
  have hsucceeds : Succeeds "i" 9007199254740992.0 (block []) 9007199254740992.0
      (Context.start []) := fun _ _ mid _ _ => hbody _
  have hadvances := hsucceeds.advances rfl rfl hfinite hfinite hends
  exact hadvances 0 (by decide +kernel) (by decide +kernel)

/-! ## Integers -/

theorem isInteger_counterAt {m : Int} (h : IsInteger x m) (hm : -2 ^ 53 ≤ m)
    (hk : m + k ≤ 2 ^ 53) : IsInteger (counterAt x k) (m + k) := by
  induction k with
  | zero =>
    rw [Int.natCast_zero, Int.add_zero]
    exact h
  | succ k ih =>
    have habs : |m + k + 1| ≤ 2 ^ 53 := by
      rw [abs_le]
      omega
    have hsucc := (ih (by omega)).succ habs
    rw [← counterAt_succ, Int.add_assoc] at hsucc
    exact hsucc

/-- Between two integers of less than 54 binary digits a counted loop whose body succeeds in every
    pass makes one pass for each integer, in this order. Where there is none it changes nothing. -/
theorem count_integers {m n : Int} (hx : first.evalBound ctx.environment = .ok x)
    (hy : last.evalBound ctx.environment = .ok y) (hxm : IsInteger x m) (hyn : IsInteger y n)
    (hm : |m| < 2 ^ 53) (hn : |n| < 2 ^ 53) (hbody : Succeeds counter y body x ctx) :
    ∃ starts next final, Passes counter y body x ctx starts next final ∧ ¬ next ≤ y ∧
      (count counter first last body).Ends ctx (.ok ()) final ∧
      (starts.length : Int) = max 0 (n - m + 1) ∧
      (∀ k (hk : k < starts.length), ∃ z,
        starts[k].environment.get? counter = some (.number z) ∧ IsInteger z (m + k)) ∧
      (starts = [] → final = ctx) := by
  obtain ⟨hlow, hhigh⟩ := abs_lt.1 hm
  obtain ⟨hlow', hhigh'⟩ := abs_lt.1 hn
  have hinteger (k : Nat) (hk : k ≤ (n - m + 1).toNat) : IsInteger (counterAt x k) (m + k) :=
    isInteger_counterAt hxm hlow.le (by omega)
  have hwithin (k : Nat) (hk : k < (n - m + 1).toNat) : counterAt x k ≤ y :=
    ((hinteger k hk.le).le_iff hyn).2 (by omega)
  have hbeyond : ¬ counterAt x (n - m + 1).toNat ≤ y := by
    rw [(hinteger _ le_rfl).le_iff hyn]
    omega
  obtain ⟨starts, final, hpasses, hlength, hends⟩ := hbody.ends hx hy hwithin hbeyond
  refine ⟨starts, _, final, hpasses, hbeyond, hends, by omega, fun k hk => ?_, ?_⟩
  · exact ⟨_, (hpasses.get?_starts hk).1, hinteger k (by omega)⟩
  · rintro rfl
    exact hpasses.eq_of_nil

/-- From minus one to one there are three passes, though the body overwrites both the loop variable
    and the last bound. -/
theorem count_integers_overwriting : ∃ starts next final,
    Passes "i" 1.0 (.block [.assign "i" (.number 7.0), .assign "n" (.number 0.5)]) (-1.0)
        ((Context.start []).bind "n" (.number 1.0)) starts next final ∧ starts.length = 3 ∧
      (count "i" (.unary .negate (.number 1.0)) (.variable "n")
        (.block [.assign "i" (.number 7.0), .assign "n" (.number 0.5)])).Ends
          ((Context.start []).bind "n" (.number 1.0)) (.ok ()) final := by
  have hone : IsInteger 1.0 1 := ⟨isFinite_one, number_one.trans Int.cast_one.symm⟩
  have hminus : IsInteger (-1.0) (-1) := by
    have hunpack : (-1.0 : Float).toModel.unpack = .finite .negative (2 ^ 52) (-52) (by decide) :=
      rfl
    refine ⟨isFinite_of_finite hunpack, ?_⟩
    rw [number_of_finite hunpack]
    show -(((2 ^ 52 : Nat) : ℚ) * 2 ^ (-52 : Int)) = ((-1 : Int) : ℚ)
    norm_num
  have hx : (Expr.unary .negate (.number 1.0)).evalBound
      ((Context.start []).bind "n" (.number 1.0)).environment = .ok (-1.0) := rfl
  have hy : (Expr.variable "n").evalBound
      ((Context.start []).bind "n" (.number 1.0)).environment = .ok 1.0 := rfl
  have hbody : Succeeds "i" 1.0 (.block [.assign "i" (.number 7.0), .assign "n" (.number 0.5)])
      (-1.0) ((Context.start []).bind "n" (.number 1.0)) :=
    fun _ _ _ _ _ => ⟨_, ends_iff_exec.2 ⟨0, 0, rfl⟩⟩
  obtain ⟨starts, next, final, hpasses, -, hends, hlength, -⟩ :=
    count_integers hx hy hminus hone (by decide) (by decide) hbody
  exact ⟨starts, next, final, hpasses, by omega, hends⟩

end Stmt

end Naskah
