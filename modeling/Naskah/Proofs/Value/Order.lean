import Mathlib.Data.String.Basic
import Naskah.Proofs.Expr.Faults
import Naskah.Proofs.Number.Nearest
import Naskah.Proofs.Text.ByteOrder

/-
  The order of values. Floats that are numbers are compared by their places on the line
  (`Binary.place`), and NaN has none (`Binary.compare_nan`). Two values that stand to each other like two
  elements of a linear order (`Value.Placed`) are compared like these by all six operators, although the
  equality of values and their order are decided separately; texts are placed by their characters and
  floats by their places. So the operators make one order of the texts and one of the numbers
  (`Value.Placed.ordered`).
-/

namespace Naskah

/-! ## The places of floats -/

namespace Binary

open Float.Model Float.Model.UnpackedFloat

variable {x y : Float} {s : Sign}

theorem isNaN_iff (x : Float) : x.isNaN = true ↔ x.toModel.unpack = .notANumber :=
  UnpackedFloat.isNaN_iff

/-- The place of a float in the order: that of its number, and for the infinities one beyond all
    finite floats. -/
def place (x : Float) : ℚ :=
  match x.toModel.unpack with
  | .infinity s => signed s (2 ^ 1024)
  | _ => number x

theorem place_of_infinity (h : x.toModel.unpack = .infinity s) :
    place x = signed s (2 ^ 1024) := by
  unfold place
  rw [h]

theorem place_of_isFinite (h : x.isFinite) : place x = number x := by
  unfold place
  rcases finite_cases h with ⟨s, hx⟩ | ⟨s, m, e, hm, hx⟩
  · rw [hx]
  · rw [hx]

/-- A float that is a number is finite or infinite. -/
theorem cases_of_not_nan (h : x.isNaN = false) :
    x.isFinite ∨ ∃ s, x.toModel.unpack = .infinity s := by
  cases hx : x.toModel.unpack with
  | notANumber =>
    rw [(isNaN_iff x).2 hx] at h
    cases h
  | infinity s => exact .inr ⟨s, rfl⟩
  | zero s => exact .inl (isFinite_of_zero hx)
  | finite s m e hm => exact .inl (isFinite_of_finite hx)

theorem compare_infinity (hx : x.toModel.unpack = .infinity s) (hy : y.isFinite) :
    x.toModel.unpack.compare y.toModel.unpack = some (compare (place x) (place y)) ∧
      y.toModel.unpack.compare x.toModel.unpack = some (compare (place y) (place x)) := by
  obtain ⟨hleast, hgreatest⟩ := abs_lt.1 (abs_number_lt hy)
  rw [place_of_infinity hx, place_of_isFinite hy, hx]
  cases s with
  | positive =>
    rw [compare_gt_iff_gt.2 (show number y < signed .positive _ from hgreatest),
      compare_lt_iff_lt.2 (show number y < signed .positive _ from hgreatest)]
    rcases finite_cases hy with ⟨s', hy⟩ | ⟨s', m, e, hm, hy⟩ <;> rw [hy] <;> exact ⟨rfl, rfl⟩
  | negative =>
    rw [compare_lt_iff_lt.2 (show signed .negative _ < number y from hleast),
      compare_gt_iff_gt.2 (show signed .negative _ < number y from hleast)]
    rcases finite_cases hy with ⟨s', hy⟩ | ⟨s', m, e, hm, hy⟩ <;> rw [hy] <;> exact ⟨rfl, rfl⟩

theorem compare_infinities (s s' : Sign) :
    (UnpackedFloat.infinity s).compare (.infinity s') =
      some (compare (signed s (2 ^ 1024)) (signed s' (2 ^ 1024))) := by
  have hlt : signed .negative (2 ^ 1024) < signed .positive (2 ^ 1024) :=
    neg_lt_self (pow_pos two_pos 1024)
  cases s <;> cases s'
  · rw [compare_eq_iff_eq.2 rfl]; rfl
  · rw [compare_lt_iff_lt.2 hlt]; rfl
  · rw [compare_gt_iff_gt.2 hlt]; rfl
  · rw [compare_eq_iff_eq.2 rfl]; rfl

/-- Floats that are numbers are compared by their places. -/
theorem compare_place (hx : x.isNaN = false) (hy : y.isNaN = false) :
    x.toModel.unpack.compare y.toModel.unpack = some (compare (place x) (place y)) := by
  rcases cases_of_not_nan hx with hfx | ⟨s, hux⟩
  · rcases cases_of_not_nan hy with hfy | ⟨s', huy⟩
    · rw [place_of_isFinite hfx, place_of_isFinite hfy, compare_eq hfx hfy]
    · exact (compare_infinity huy hfx).2
  · rcases cases_of_not_nan hy with hfy | ⟨s', huy⟩
    · exact (compare_infinity hux hfy).1
    · rw [place_of_infinity hux, place_of_infinity huy, hux, huy]
      exact compare_infinities s s'

theorem compare_nan (h : x.isNaN = true ∨ y.isNaN = true) :
    x.toModel.unpack.compare y.toModel.unpack = none := by
  rcases h with h | h
  · rw [(isNaN_iff x).1 h]
    rfl
  · rw [(isNaN_iff y).1 h]
    cases x.toModel.unpack <;> rfl

theorem lt_iff_place (hx : x.isNaN = false) (hy : y.isNaN = false) : x < y ↔ place x < place y := by
  rw [lt_iff_compare, compare_place hx hy, Option.some_inj]
  exact compare_lt_iff_lt

theorem beq_iff_place (hx : x.isNaN = false) (hy : y.isNaN = false) :
    (x == y) = true ↔ place x = place y := by
  rw [beq_iff_compare, compare_place hx hy, Option.some_inj]
  exact compare_eq_iff_eq

theorem floatOrder_place (hx : x.isNaN = false) (hy : y.isNaN = false) :
    Value.floatOrder x y = some (compare (place x) (place y)) := by
  unfold Value.floatOrder
  rcases lt_trichotomy (place x) (place y) with hlt | heq | hgt
  · rw [if_pos ((lt_iff_place hx hy).2 hlt), compare_lt_iff_lt.2 hlt]
  · rw [if_neg (fun h => ((lt_iff_place hx hy).1 h).ne heq), if_pos ((beq_iff_place hx hy).2 heq),
      compare_eq_iff_eq.2 heq]
  · rw [if_neg (fun h => ((lt_iff_place hx hy).1 h).not_gt hgt),
      if_neg (fun h => hgt.ne' ((beq_iff_place hx hy).1 h)), if_pos ((lt_iff_place hy hx).2 hgt),
      compare_gt_iff_gt.2 hgt]

theorem floatOrder_nan (h : x.isNaN = true ∨ y.isNaN = true) : Value.floatOrder x y = none := by
  have hlt : ¬ x < y := fun hlt => by
    rw [lt_iff_compare, compare_nan h] at hlt
    cases hlt
  have heq : ¬ (x == y) = true := fun heq => by
    rw [beq_iff_compare, compare_nan h] at heq
    cases heq
  have hgt : ¬ y < x := fun hgt => by
    rw [lt_iff_compare, compare_nan h.symm] at hgt
    cases hgt
  unfold Value.floatOrder
  rw [if_neg hlt, if_neg heq, if_neg hgt]

end Binary

/-! ## The comparison operators -/

namespace BinaryOp

/-- The operators that ask for the order of two values. -/
def relational : List BinaryOp := [less, lessEqual, greater, greaterEqual]

/-- The operators that compare two values. -/
def comparisons : List BinaryOp := equal :: notEqual :: relational

/-- The operator that is true of two values in the given order. -/
def ofOrdering : Ordering → BinaryOp
  | .lt => less
  | .eq => equal
  | .gt => greater

/-- The operator is true of two values. -/
def Holds (op : BinaryOp) (a b : Value) : Prop :=
  op.apply a b = .ok (.boolean true)

end BinaryOp

open BinaryOp

namespace Value

/-- Two values stand to each other like two elements of a linear order: the order that the relational
    operators look at is that of the elements, and they are the same where the elements are. -/
structure Placed {α : Type} [LinearOrder α] (a b : Value) (i j : α) : Prop where
  order : a.order? b = some (some (compare i j))
  same : a.same b = true ↔ i = j

namespace Placed

variable {α : Type} [LinearOrder α] {a b c : Value} {i j k : α}

theorem apply_relational (h : Placed a b i j) {op : BinaryOp} (hop : op ∈ relational) :
    op.apply a b = .ok (.boolean (op.holds (compare i j))) := by
  have happly : op.apply a b = op.relation a b := by
    fin_cases hop <;> rfl
  rw [happly, relation, h.order]
  rfl

theorem holds_iff (h : Placed a b i j) {op : BinaryOp} (hop : op ∈ relational) :
    op.Holds a b ↔ op.holds (compare i j) = true := by
  rw [Holds, h.apply_relational hop, Except.ok.injEq, Value.boolean.injEq]

theorem less_iff (h : Placed a b i j) : less.Holds a b ↔ i < j := by
  rw [h.holds_iff (by decide)]
  exact Ordering.isLT_iff_eq_lt.trans compare_lt_iff_lt

theorem greater_iff (h : Placed a b i j) : greater.Holds a b ↔ j < i := by
  rw [h.holds_iff (by decide)]
  exact Ordering.isGT_iff_eq_gt.trans compare_gt_iff_gt

theorem lessEqual_iff (h : Placed a b i j) : lessEqual.Holds a b ↔ i ≤ j := by
  rw [h.holds_iff (by decide)]
  exact Ordering.isLE_iff_ne_gt.trans compare_le_iff_le

theorem greaterEqual_iff (h : Placed a b i j) : greaterEqual.Holds a b ↔ j ≤ i := by
  rw [h.holds_iff (by decide)]
  exact Ordering.isGE_iff_ne_lt.trans compare_ge_iff_ge

theorem equal_iff (h : Placed a b i j) : equal.Holds a b ↔ i = j := by
  rw [← h.same, Holds, BinaryOp.apply, Except.ok.injEq, Value.boolean.injEq]

theorem notEqual_iff (h : Placed a b i j) : notEqual.Holds a b ↔ i ≠ j := by
  rw [ne_eq, ← h.same, Holds, BinaryOp.apply, Except.ok.injEq, Value.boolean.injEq,
    Bool.not_eq_true', Bool.not_eq_true]

end Placed

/-- The comparison operators make one order of the values. -/
structure Ordered (a b c : Value) : Prop where
  boolean : ∀ op ∈ comparisons, ∃ r, op.apply a b = .ok (.boolean r)
  one : ∃! op, op ∈ [less, equal, greater] ∧ op.Holds a b
  lessEqual_iff : lessEqual.Holds a b ↔ less.Holds a b ∨ equal.Holds a b
  greaterEqual_iff : greaterEqual.Holds a b ↔ lessEqual.Holds b a
  notEqual_iff : notEqual.Holds a b ↔ ¬ equal.Holds a b
  trans : less.Holds a b → less.Holds b c → less.Holds a c

namespace Placed

variable {α : Type} [LinearOrder α] {a b c : Value} {i j k : α}

/-- Of the three operators exactly the one holds that says how the values stand to each other. -/
theorem holds_iff_eq (h : Placed a b i j) {op : BinaryOp} (hop : op ∈ [less, equal, greater]) :
    op.Holds a b ↔ op = ofOrdering (compare i j) := by
  fin_cases hop
  · rw [h.less_iff, ← compare_lt_iff_lt]
    cases compare i j <;> decide
  · rw [h.equal_iff, ← compare_eq_iff_eq]
    cases compare i j <;> decide
  · rw [h.greater_iff, ← compare_gt_iff_gt]
    cases compare i j <;> decide

theorem ordered (hab : Placed a b i j) (hba : Placed b a j i) (hbc : Placed b c j k)
    (hac : Placed a c i k) : Ordered a b c where
  boolean op hop := by
    rcases List.mem_cons.1 hop with rfl | hop
    · exact ⟨_, rfl⟩
    rcases List.mem_cons.1 hop with rfl | hop
    · exact ⟨_, rfl⟩
    exact ⟨_, hab.apply_relational hop⟩
  one := by
    have hmem : ofOrdering (compare i j) ∈ [less, equal, greater] := by
      cases compare i j <;> decide
    exact ⟨_, ⟨hmem, (hab.holds_iff_eq hmem).2 rfl⟩, fun op hop => (hab.holds_iff_eq hop.1).1 hop.2⟩
  lessEqual_iff := by
    rw [hab.lessEqual_iff, hab.less_iff, hab.equal_iff]
    exact le_iff_lt_or_eq
  greaterEqual_iff := by rw [hab.greaterEqual_iff, hba.lessEqual_iff]
  notEqual_iff := by rw [hab.notEqual_iff, hab.equal_iff]
  trans hlt hlt' := hac.less_iff.2 ((hab.less_iff.1 hlt).trans (hbc.less_iff.1 hlt'))

end Placed

theorem placed_text (s t : String) : Placed (.text s) (.text t) s t where
  order := rfl
  same := beq_iff_eq

theorem placed_number {x y : Float} (hx : x.isNaN = false) (hy : y.isNaN = false) :
    Placed (.number x) (.number y) (Binary.place x) (Binary.place y) where
  order := congrArg some (Binary.floatOrder_place hx hy)
  same := Binary.beq_iff_place hx hy

/-- What is no number is in no order to a number and differs from all. -/
theorem apply_nan {x y : Float} (h : x.isNaN = true ∨ y.isNaN = true) :
    (∀ op ∈ equal :: relational, op.apply (.number x) (.number y) = .ok (.boolean false)) ∧
      notEqual.apply (.number x) (.number y) = .ok (.boolean true) := by
  have hsame : (x == y) = false := by
    rw [← Bool.not_eq_true, Binary.beq_iff_compare, Binary.compare_nan h]
    exact nofun
  have horder : (Value.number x).order? (.number y) = some none :=
    congrArg some (Binary.floatOrder_nan h)
  refine ⟨fun op hop => ?_, ?_⟩
  · rcases List.mem_cons.1 hop with rfl | hop
    · exact congrArg (fun r => Except.ok (Value.boolean r)) hsame
    · have hrelation : op.relation (.number x) (.number y) = .ok (.boolean false) := by
        rw [relation, horder]
        rfl
      fin_cases hop <;> exact hrelation
  · exact congrArg (fun r => Except.ok (Value.boolean (!r))) hsame

theorem exists_text {v : Value} (h : v.type = .text) : ∃ s, v = .text s := by
  cases v with
  | text s => exact ⟨s, rfl⟩
  | number | boolean => cases h

theorem same_eq_false {a b : Value} (h : a.type ≠ b.type) : a.same b = false := by
  cases a <;> cases b <;> first | rfl | exact absurd rfl h

/-- The relational operators refuse values of different types, and booleans. -/
theorem apply_relational_eq_error {a b : Value}
    (h : a.type ≠ b.type ∨ a.type = .boolean ∧ b.type = .boolean) {op : BinaryOp}
    (hop : op ∈ relational) : op.apply a b = .error (op.mismatch a b) := by
  have hrefuses : ¬ (a.type = .number ∧ b.type = .number) ∧ ¬ (a.type = .text ∧ b.type = .text) := by
    rcases h with h | ⟨ha, hb⟩
    · exact ⟨fun ⟨ha, hb⟩ => h (ha.trans hb.symm), fun ⟨ha, hb⟩ => h (ha.trans hb.symm)⟩
    · rw [ha]
      exact ⟨nofun, nofun⟩
  fin_cases hop <;> exact BinaryOp.apply_eq_error.2 ⟨hrefuses, rfl⟩

/-- The comparison operators make one order of texts, and of the numbers that are not NaN. Texts are in
    the order of their characters, which is that of their bytes. NaN is in no order to a number and equal
    to none. Values of different types are never equal; the relational operators fail on them, and on
    booleans. -/
theorem comparisons_consistent :
    (∀ a b c : Value, (∀ v ∈ [a, b, c], v.type = .text) ∨
        (∀ v ∈ [a, b, c], ∃ x : Float, v = .number x ∧ x.isNaN = false) → Ordered a b c) ∧
      (∀ s t : String, (less.Holds (.text s) (.text t) ↔ s.toList < t.toList) ∧
        (s.toList < t.toList ↔ utf8Bytes s < utf8Bytes t)) ∧
      (∀ x y : Float, x.isNaN = true ∨ y.isNaN = true →
        (∀ op ∈ equal :: relational, op.apply (.number x) (.number y) = .ok (.boolean false)) ∧
          notEqual.apply (.number x) (.number y) = .ok (.boolean true)) ∧
      (∀ a b : Value, a.type ≠ b.type →
        equal.apply a b = .ok (.boolean false) ∧ notEqual.apply a b = .ok (.boolean true) ∧
          ∀ op ∈ relational, op.apply a b = .error (op.mismatch a b)) ∧
      (∀ b c : Bool, ∀ op ∈ relational,
        op.apply (.boolean b) (.boolean c) = .error (op.mismatch (.boolean b) (.boolean c))) := by
  refine ⟨fun a b c h => ?_, fun s t => ⟨(placed_text s t).less_iff, utf8Bytes_lt_iff.symm⟩,
    fun x y => apply_nan, fun a b h => ⟨?_, ?_, fun op => apply_relational_eq_error (.inl h)⟩,
    fun b c op => apply_relational_eq_error (.inr ⟨rfl, rfl⟩)⟩
  · rcases h with h | h
    · obtain ⟨s, rfl⟩ := exists_text (h a (by simp))
      obtain ⟨t, rfl⟩ := exists_text (h b (by simp))
      obtain ⟨u, rfl⟩ := exists_text (h c (by simp))
      exact (placed_text s t).ordered (placed_text t s) (placed_text t u) (placed_text s u)
    · obtain ⟨x, rfl, hx⟩ := h a (by simp)
      obtain ⟨y, rfl, hy⟩ := h b (by simp)
      obtain ⟨z, rfl, hz⟩ := h c (by simp)
      exact (placed_number hx hy).ordered (placed_number hy hx) (placed_number hy hz)
        (placed_number hx hz)
  · exact congrArg (fun r => Except.ok (Value.boolean r)) (same_eq_false h)
  · exact congrArg (fun r => Except.ok (Value.boolean (!r))) (same_eq_false h)

/-- Both zeros and an infinity are in one order, NaN is in none, and a text is not compared to a
    number. -/
theorem comparisons_consistent_zeros :
    Ordered (.number (-0.0)) (.number 0.0) (.number (1.0 / 0.0)) ∧
      Ordered (.text "a") (.text "ab") (.text "é") ∧
      less.apply (.number (0.0 / 0.0)) (.number 1.0) = .ok (.boolean false) ∧
      less.apply (.text "1") (.number 1.0) =
        .error (.typeMismatch (.binary .less .text .number)) := by
  refine ⟨comparisons_consistent.1 _ _ _ (.inr ?_), comparisons_consistent.1 _ _ _ (.inl ?_),
    (comparisons_consistent.2.2.1 _ _ (.inl rfl)).1 _ (by decide),
    (comparisons_consistent.2.2.2.1 _ _ (by decide)).2.2 _ (by decide)⟩
  · intro v hv
    fin_cases hv
    · exact ⟨_, rfl, rfl⟩
    · exact ⟨_, rfl, rfl⟩
    · exact ⟨_, rfl, rfl⟩
  · intro v hv
    fin_cases hv <;> rfl

end Value

end Naskah
