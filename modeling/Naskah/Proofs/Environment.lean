import Naskah.Environment

/-
  Frames over time. A history says how frames were made and what was set on them; a frame is made
  empty, over another one as it is at the time, or as a copy of another one. What is looked up in a
  frame follows from the history: it is what was set last on the frame itself (`Frames.assigned`), or
  else what its parent gave when the frame was made (`Frames.inherited`). What happens to other
  frames does not show, so an answer lasts until the name is set on the frame itself
  (`get?_of_continues`).
-/

namespace Naskah

/-- How a frame is made while there are `n` others. -/
inductive Frames.Origin (n : Nat) where
  /-- Empty and without a parent. -/
  | fresh
  /-- Empty, the parent being the given frame as it is now. -/
  | child (parent : Fin n)
  /-- As the given frame is now. -/
  | copy (original : Fin n)
deriving DecidableEq

/-- What has been done to frames, of which there are `n` by now, numbered as they were made. -/
inductive Frames : (n : Nat) → Type
  | start : Frames 0
  | make {n : Nat} (h : Frames n) (origin : Frames.Origin n) : Frames (n + 1)
  | set {n : Nat} (h : Frames n) (frame : Fin n) (name : String) (value : Value) : Frames n

namespace Frames

/-- The frames as they are behind a history. -/
def env : {n : Nat} → Frames n → Fin n → Environment
  | _, start, f => f.elim0
  | _, make h .fresh, f => f.lastCases .empty h.env
  | _, make h (.child parent), f => f.lastCases (h.env parent).withParent h.env
  | _, make h (.copy original), f => f.lastCases (h.env original) h.env
  | _, set h frame name value, f => if f = frame then (h.env f).set name value else h.env f

/-- The value that was set last for a name on the frame itself, or on the frame that it was copied
    from before it was made. -/
def assigned : {n : Nat} → Frames n → Fin n → String → Option Value
  | _, start, f => f.elim0
  | _, make h .fresh, f => f.lastCases (fun _ => none) h.assigned
  | _, make h (.child _), f => f.lastCases (fun _ => none) h.assigned
  | _, make h (.copy original), f => f.lastCases (h.assigned original) h.assigned
  | _, set h frame x value, f => fun name =>
    if f = frame ∧ name = x then some value else h.assigned f name

/-- What the parent of the frame gave for a name when the frame was made. A copy has the parent of
    the frame that it was copied from. -/
def inherited : {n : Nat} → Frames n → Fin n → String → Option Value
  | _, start, f => f.elim0
  | _, make h .fresh, f => f.lastCases (fun _ => none) h.inherited
  | _, make h (.child parent), f => f.lastCases (h.env parent).get? h.inherited
  | _, make h (.copy original), f => f.lastCases (h.inherited original) h.inherited
  | _, set h _ _ _, f => h.inherited f

/-- `h'` is `h` with more done, of which nothing sets the name on the frame; `f'` is the frame among
    those that there are then. -/
inductive Continues {n : Nat} (h : Frames n) (f : Fin n) (name : String) :
    {m : Nat} → Frames m → (f' : Fin m) → Prop
  | refl : Continues h f name h f
  | make {m : Nat} {h' : Frames m} {f' : Fin m} (hc : Continues h f name h' f')
      (origin : Origin m) : Continues h f name (h'.make origin) f'.castSucc
  | set {m : Nat} {h' : Frames m} {f' : Fin m} (hc : Continues h f name h' f') {frame : Fin m}
      {x : String} (value : Value) (hne : f' = frame → name ≠ x) :
      Continues h f name (h'.set frame x value) f'

end Frames

/-! ## One frame -/

namespace Bindings

theorem mem_names_iff (b : Bindings) (name : String) :
    name ∈ b.entries.map Prod.fst ↔ ∃ value, b.get? name = some value := by
  rw [← Option.isSome_iff_exists, get?, List.lookup_isSome_iff, List.mem_map]
  refine exists_congr fun e => and_congr_right fun _ => ?_
  rw [beq_iff_eq, eq_comm]

end Bindings

namespace Environment

/-- The value of a name in the chain of the parents. -/
def beyond? : Environment → String → Option Value
  | root _, _ => none
  | child _ parent, name => parent.get? name

theorem get?_eq_or (env : Environment) (name : String) :
    env.get? name = (env.bindings.get? name).or (env.beyond? name) := by
  cases env with
  | root own => exact Option.or_none.symm
  | child own parent => rfl

theorem beyond?_set (env : Environment) (name : String) (value : Value) :
    (env.set name value).beyond? = env.beyond? := by
  cases env <;> rfl

theorem contains_iff (env : Environment) (name : String) :
    env.contains name = true ↔ ∃ value, env.get? name = some value :=
  Option.isSome_iff_exists

end Environment

/-! ## All frames -/

namespace Frames

variable {n : Nat}

theorem env_set_of_ne (h : Frames n) {f g : Fin n} (hne : g ≠ f) (name : String) (value : Value) :
    (h.set f name value).env g = h.env g :=
  if_neg hne

/-- Making a frame leaves those that there are alone. -/
theorem env_make (h : Frames n) (origin : Origin n) (f : Fin n) :
    (h.make origin).env f.castSucc = h.env f := by
  cases origin <;> exact Fin.lastCases_castSucc f

/-- The bindings of a frame are those set on itself. -/
theorem get?_bindings (h : Frames n) (f : Fin n) (name : String) :
    (h.env f).bindings.get? name = h.assigned f name := by
  induction h with
  | start => exact f.elim0
  | make h origin ih =>
    refine Fin.lastCases ?_ (fun f => ?_) f
    · cases origin with
      | fresh | child => rw [env, assigned, Fin.lastCases_last, Fin.lastCases_last]; rfl
      | copy original => rw [env, assigned, Fin.lastCases_last, Fin.lastCases_last, ih]
    · have hassigned : (h.make origin).assigned f.castSucc = h.assigned f := by
        cases origin <;> exact Fin.lastCases_castSucc f
      rw [env_make, hassigned, ih]
  | set h frame x value ih =>
    rw [env, assigned]
    by_cases hf : f = frame
    · rw [if_pos hf, Environment.bindings_set, Bindings.get?_set, ih]
      simp only [hf, true_and]
    · rw [if_neg hf, ih]
      exact (if_neg fun hand => hf hand.1).symm

/-- Beyond its own bindings a frame finds what its parent gave when the frame was made. -/
theorem beyond?_env (h : Frames n) (f : Fin n) (name : String) :
    (h.env f).beyond? name = h.inherited f name := by
  induction h with
  | start => exact f.elim0
  | make h origin ih =>
    refine Fin.lastCases ?_ (fun f => ?_) f
    · cases origin with
      | fresh | child => rw [env, inherited, Fin.lastCases_last, Fin.lastCases_last]; rfl
      | copy original => rw [env, inherited, Fin.lastCases_last, Fin.lastCases_last, ih]
    · have hinherited : (h.make origin).inherited f.castSucc = h.inherited f := by
        cases origin <;> exact Fin.lastCases_castSucc f
      rw [env_make, hinherited, ih]
  | set h frame x value ih =>
    rw [env, inherited]
    by_cases hf : f = frame
    · rw [if_pos hf, Environment.beyond?_set, ih]
    · rw [if_neg hf, ih]

/-- An answer lasts until the name is set on the frame itself. -/
theorem get?_of_continues {m : Nat} {h : Frames n} {h' : Frames m} {f : Fin n} {f' : Fin m}
    {name : String} (hc : h.Continues f name h' f') :
    (h'.env f').get? name = (h.env f).get? name := by
  induction hc with
  | refl => rfl
  | make _ origin ih => rw [env_make, ih]
  | @set _ h' f' _ frame x value hne ih =>
    rw [env]
    by_cases hf : f' = frame
    · rw [if_pos hf, Environment.get?_set, if_neg (hne hf), ih]
    · rw [if_neg hf, ih]

end Frames

/-- What is found in the frames behind a history. -/
structure Frames.Answers {n : Nat} (h : Frames n) : Prop where
  /-- A name is looked up to what was set last on the frame itself, whatever the value is, and else
      to what the parent gave when the frame was made. -/
  get : ∀ f name, (h.env f).get? name = (h.assigned f name).or (h.inherited f name)
  contains : ∀ f name, (h.env f).contains name = true ↔ ∃ value, (h.env f).get? name = some value
  /-- The bindings of a frame are those set on itself, none of them inherited. -/
  own : ∀ f name, (h.env f).bindings.get? name = h.assigned f name
  names : ∀ f name, name ∈ (h.env f).bindings.entries.map Prod.fst ↔
    ∃ value, h.assigned f name = some value
  /-- Setting a name on a frame changes no other frame. -/
  apart : ∀ f g, g ≠ f → ∀ name value, (h.set f name value).env g = h.env g
  /-- An answer lasts until the name is set on the frame itself. -/
  lasting : ∀ f name {m : Nat} (h' : Frames m) (f' : Fin m), h.Continues f name h' f' →
    (h'.env f').get? name = (h.env f).get? name

/-- What is looked up in frames follows from what has been done to them. -/
theorem Frames.answers_history {n : Nat} (h : Frames n) : h.Answers where
  get f name := by rw [Environment.get?_eq_or, get?_bindings, beyond?_env]
  contains f := (h.env f).contains_iff
  own := h.get?_bindings
  names f name := by rw [Bindings.mem_names_iff, get?_bindings]
  apart _ _ hne name value := h.env_set_of_ne hne name value
  lasting _ _ _ _ _ hc := get?_of_continues hc

end Naskah
