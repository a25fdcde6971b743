import Mathlib.Tactic.SplitIfs
import Naskah.Environment

/-
  The order of texts. Texts are compared by their characters; the order of their UTF-8 bytes is the
  same (`utf8Bytes_lt_iff`).
-/

namespace Naskah

/-- The bytes of a text. -/
def utf8Bytes (s : String) : List UInt8 := s.toUTF8.data.toList

theorem utf8Bytes_eq (s : String) : utf8Bytes s = s.toList.flatMap String.utf8EncodeChar := by
  show s.toByteArray.data.toList = _
  rw [← String.utf8Encode_toList]
  unfold List.utf8Encode
  simp

theorem byte_cons_lt {m n : Nat} {x y : List UInt8} (hn : n < 256) (hle : m ≤ n)
    (heq : m = n → x < y) : UInt8.ofNat m :: x < UInt8.ofNat n :: y := by
  rcases Nat.lt_or_eq_of_le hle with hlt | rfl
  · refine List.cons_lt_cons_iff.2 (.inl ?_)
    rw [UInt8.lt_iff_toNat_lt, UInt8.toNat_ofNat', UInt8.toNat_ofNat']
    omega
  · exact List.cons_lt_cons_iff.2 (.inr ⟨rfl, heq rfl⟩)

/-- The bytes of a smaller character come first, whatever follows: it has not more of them, and the
    first that differs is smaller. -/
theorem utf8EncodeChar_lt {c d : Char} (h : c < d) (x y : List UInt8) :
    String.utf8EncodeChar c ++ x < String.utf8EncodeChar d ++ y := by
  have hlt : c.val.toNat < d.val.toNat := h
  have hd : d.val.toNat < 0x110000 := by
    rcases d.valid with hd | ⟨-, hd⟩
    · exact Nat.lt_trans hd (by decide)
    · exact hd
  unfold String.utf8EncodeChar
  dsimp only
  split_ifs
  all_goals try omega
  all_goals refine byte_cons_lt (by omega) (by omega) fun h₁ => ?_
  all_goals try omega
  all_goals refine byte_cons_lt (by omega) (by omega) fun h₂ => ?_
  all_goals try omega
  all_goals refine byte_cons_lt (by omega) (by omega) fun h₃ => ?_
  all_goals try omega
  exact byte_cons_lt (by omega) (by omega) fun h₄ => by omega

theorem utf8Bytes_lt {a b : String} (h : a < b) : utf8Bytes a < utf8Bytes b := by
  rw [utf8Bytes_eq, utf8Bytes_eq]
  have h : a.toList < b.toList := h
  generalize a.toList = cs at h
  generalize b.toList = ds at h
  induction ds generalizing cs with
  | nil => exact absurd h (List.not_lt_nil cs)
  | cons d ds ih =>
    cases cs with
    | nil =>
      obtain ⟨b, bs, hb⟩ := List.exists_cons_of_ne_nil (String.utf8EncodeChar_ne_nil (c := d))
      rw [List.flatMap_cons, hb]
      exact List.nil_lt_cons b _
    | cons c cs =>
      rw [List.flatMap_cons, List.flatMap_cons]
      rcases List.cons_lt_cons_iff.1 h with hlt | ⟨rfl, hlt⟩
      · exact utf8EncodeChar_lt hlt _ _
      · exact List.append_left_lt (ih cs hlt)

/-- Texts are in the order of their bytes. -/
theorem utf8Bytes_lt_iff {a b : String} : utf8Bytes a < utf8Bytes b ↔ a < b := by
  constructor
  · intro h
    refine Decidable.byContradiction fun hn => ?_
    by_cases heq : a = b
    · rw [heq] at h
      exact List.lt_irrefl _ h
    · exact List.lt_asymm h (utf8Bytes_lt (Bindings.lt_of_not_lt_of_ne hn heq))
  · exact utf8Bytes_lt

end Naskah
