import Naskah.Value.Basic

/-
  Environments: frames of variables. A frame may have a parent, which is a frame as it was when the
  child was made; it is looked at when a name is not found in the frame itself, and is never written
  to. The bindings of one frame are kept in the order of their names, so two frames that bind the
  same names to the same values are equal.
-/

namespace Naskah

/-- Bindings of names to values, in increasing order of the names. -/
structure Bindings where
  entries : List (String × Value)
  sorted : entries.Pairwise fun a b => a.1 < b.1
deriving DecidableEq

namespace Bindings

def empty : Bindings := ⟨[], .nil⟩

def get? (b : Bindings) (name : String) : Option Value :=
  b.entries.lookup name

/-- The entries with `name` bound to `value`, in place of an earlier binding if there is one. -/
def insertEntry (name : String) (value : Value) : List (String × Value) → List (String × Value)
  | [] => [(name, value)]
  | (n, v) :: r =>
    if name < n then (name, value) :: (n, v) :: r
    else if name = n then (name, value) :: r
    else (n, v) :: insertEntry name value r

theorem mem_insertEntry {name : String} {value : Value} {l : List (String × Value)}
    {e : String × Value} (h : e ∈ insertEntry name value l) : e = (name, value) ∨ e ∈ l := by
  fun_induction insertEntry name value l with
  | case1 => simpa using h
  | case2 n v r hlt => simpa using h
  | case3 v r hnl => exact (List.mem_cons.1 h).imp id (List.mem_cons_of_mem _)
  | case4 n v r hlt hne ih =>
    rcases List.mem_cons.1 h with rfl | h
    · exact .inr List.mem_cons_self
    · exact (ih h).imp id (List.mem_cons_of_mem _)

theorem lt_of_not_lt_of_ne {a b : String} (h : ¬a < b) (hne : a ≠ b) : b < a := by
  rcases Std.le_total (a := a) (b := b) with hab | hba
  · exact absurd (String.le_antisymm hab (String.not_lt.1 h)) hne
  · exact String.not_le.1 fun hab => hne (String.le_antisymm hab hba)

theorem sorted_insertEntry {name : String} {value : Value} {l : List (String × Value)}
    (h : l.Pairwise fun a b => a.1 < b.1) :
    (insertEntry name value l).Pairwise fun a b => a.1 < b.1 := by
  fun_induction insertEntry name value l with
  | case1 => exact List.pairwise_singleton _ _
  | case2 n v r hlt =>
    refine List.pairwise_cons.2 ⟨fun e he => ?_, h⟩
    rcases List.mem_cons.1 he with rfl | he
    · exact hlt
    · exact String.lt_trans hlt ((List.pairwise_cons.1 h).1 e he)
  | case3 v r hnl =>
    exact List.pairwise_cons.2 (List.pairwise_cons.1 h)
  | case4 n v r hlt hne ih =>
    obtain ⟨hfirst, hrest⟩ := List.pairwise_cons.1 h
    refine List.pairwise_cons.2 ⟨fun e he => ?_, ih hrest⟩
    rcases mem_insertEntry he with rfl | he
    · exact lt_of_not_lt_of_ne hlt hne
    · exact hfirst e he

theorem lookup_entry_cons (n m : String) (v : Value) (r : List (String × Value)) :
    ((m, v) :: r).lookup n = if n = m then some v else r.lookup n := by
  by_cases h : n = m
  · subst h
    simp
  · simp [List.lookup_cons, beq_eq_false_iff_ne.2 h, h]

theorem lookup_insertEntry (name n : String) (value : Value) (l : List (String × Value)) :
    (insertEntry name value l).lookup n = if n = name then some value else l.lookup n := by
  fun_induction insertEntry name value l with
  | case1 => rw [lookup_entry_cons]
  | case2 m v r hlt => rw [lookup_entry_cons]
  | case3 v r hnl =>
    rw [lookup_entry_cons, lookup_entry_cons]
    split <;> rfl
  | case4 m v r hlt hne ih =>
    rw [lookup_entry_cons, lookup_entry_cons, ih]
    by_cases h : n = m
    · have hn : n ≠ name := fun hn => hne (hn ▸ h)
      rw [if_pos h, if_pos h, if_neg hn]
    · rw [if_neg h, if_neg h]

/-- Creates or overwrites a binding. -/
def set (b : Bindings) (name : String) (value : Value) : Bindings :=
  ⟨insertEntry name value b.entries, sorted_insertEntry b.sorted⟩

@[simp] theorem get?_empty (n : String) : empty.get? n = none := rfl

theorem get?_set (b : Bindings) (name n : String) (value : Value) :
    (b.set name value).get? n = if n = name then some value else b.get? n :=
  lookup_insertEntry name n value b.entries

end Bindings

/-- A frame of variables with the chain of its parents. -/
inductive Environment where
  | root (own : Bindings)
  | child (own : Bindings) (parent : Environment)
deriving DecidableEq

namespace Environment

def empty : Environment := root .empty

/-- A frame without bindings whose parent is the given frame as it is now. -/
def withParent (parent : Environment) : Environment := child .empty parent

/-- The bindings of the frame itself, those of its parents left out. -/
def bindings : Environment → Bindings
  | root own => own
  | child own _ => own

/-- Creates or overwrites a binding of the frame itself. -/
def set : Environment → String → Value → Environment
  | root own, name, value => root (own.set name value)
  | child own parent, name, value => child (own.set name value) parent

/-- The value of a name in the frame or else in the chain of its parents. -/
def get? : Environment → String → Option Value
  | root own, name => own.get? name
  | child own parent, name => (own.get? name).or (parent.get? name)

def contains (env : Environment) (name : String) : Bool :=
  (env.get? name).isSome

theorem bindings_set (env : Environment) (name : String) (value : Value) :
    (env.set name value).bindings = env.bindings.set name value := by
  cases env <;> rfl

theorem get?_set (env : Environment) (name n : String) (value : Value) :
    (env.set name value).get? n = if n = name then some value else env.get? n := by
  cases env <;> simp only [set, get?, Bindings.get?_set] <;> split <;> rfl

theorem get?_withParent (parent : Environment) (n : String) :
    parent.withParent.get? n = parent.get? n := rfl

end Environment

end Naskah
