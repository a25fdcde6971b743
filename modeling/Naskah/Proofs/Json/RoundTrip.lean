import Naskah.Proofs.Json.Reading

/-
  Writing JSON and reading it back. A document whose numbers are written numerals and whose strings
  denote texts is spelled by its compact form and by its form over several lines, so it reads back from
  both (`read?_compact`, `read?_pretty`).
-/

namespace Naskah.Json

open Numeral (Writing)

/-- A document that has a text: its numbers are written numerals, and its strings denote texts. -/
inductive Writable : Json → Prop
  | null : Writable null
  | boolean (b : Bool) : Writable (boolean b)
  | number {numeral : String} (w : Writing) (negative : Bool) :
      numeral.toList = w.signed negative → Writable (number numeral)
  | text (s : String) : Writable (text s)
  | array {js : List Json} : (∀ j ∈ js, Writable j) → Writable (array js)
  | members {ms : List (String × Json)} : (∀ m ∈ ms, Writable m.2) → Writable (ofMembers ms)

/-- The numeral of a natural number, as a written one. -/
def natWriting (n : Nat) : Writing where
  whole := Nat.toDigits 10 n
  fraction := []
  exponent := none
  isDigit_whole := Numeral.isDigit_toDigits n
  isDigit_fraction := nofun
  whole_ne_nil := Nat.toDigits_ne_nil
  zero := fun h => by
    rcases Nat.eq_zero_or_pos n with rfl | hn
    · rfl
    · exact absurd h (Numeral.head?_toDigits_ne_zero hn)

theorem writable_nat (n : Nat) : Writable (nat n) := by
  refine .number (natWriting n) false ?_
  rw [String.toList_ofList]
  exact (List.append_nil _).symm

theorem blanks_nil : Blanks [] := fun _ h => absurd h List.not_mem_nil

variable {j : Json} {cs : List Char}

theorem Spells.padded (h : Spells j cs) : SpellsPadded j cs := by
  have hpad := SpellsPadded.pad blanks_nil h blanks_nil
  rwa [List.nil_append, List.append_nil] at hpad

/-! ## The compact form -/

theorem spells_compactItems {js : List Json} (hne : js ≠ [])
    (h : ∀ j ∈ js, Spells j (compactChars j)) : SpellsItems js (compactItems js) := by
  induction js with
  | nil => exact absurd rfl hne
  | cons j js ih =>
    have hj := (h j List.mem_cons_self).padded
    cases js with
    | nil => exact .one hj
    | cons j' js => exact .more hj (ih (List.cons_ne_nil _ _) fun k hk => h k (.tail _ hk))

theorem spells_compactMembers {ms : List (String × Json)} (hne : ms ≠ [])
    (h : ∀ m ∈ ms, Spells m.2 (compactChars m.2)) :
    SpellsMembers (ms.map fun (name, value) => (some name, value))
      (compactMembers (ms.map fun (name, value) => (some name, value))) := by
  induction ms with
  | nil => exact absurd rfl hne
  | cons m ms ih =>
    obtain ⟨name, j⟩ := m
    have hj := (h (name, j) List.mem_cons_self).padded
    cases ms with
    | nil => exact .one blanks_nil (quotes_quote name) blanks_nil hj
    | cons m' ms =>
      exact .more blanks_nil (quotes_quote name) blanks_nil hj
        (ih (List.cons_ne_nil _ _) fun k hk => h k (.tail _ hk))

theorem Writable.spells_compact (h : Writable j) : Spells j (compactChars j) := by
  induction h with
  | null => exact .null
  | boolean b => exact .boolean b
  | number w negative hnumeral =>
    rename_i numeral
    have hspells := Spells.number (isNumeral_signed w negative)
    rwa [← hnumeral, String.ofList_toList] at hspells
  | text s => exact .string (quotes_quote s)
  | @array js h ih =>
    cases js with
    | nil => exact .noItems blanks_nil
    | cons j js => exact .items (spells_compactItems (List.cons_ne_nil _ _) ih)
  | @members ms h ih =>
    cases ms with
    | nil => exact .noMembers blanks_nil
    | cons m ms => exact .members (spells_compactMembers (List.cons_ne_nil _ _) ih)

/-- A document reads back from its compact form. -/
theorem read?_compact (h : Writable j) : read? j.compact = some j := by
  refine read?_of_spells ?_
  rw [compact, String.toList_ofList]
  exact h.spells_compact.padded

/-! ## The form over several lines -/

theorem blanks_indent (level : Nat) : Blanks (indent level) := by
  intro c hc
  rcases List.mem_cons.1 hc with rfl | hc
  · rfl
  · rw [List.eq_of_mem_replicate hc]
    rfl

theorem blanks_space : Blanks [' '] := List.forall_mem_singleton.2 rfl

variable {ws : List Char}

/-- The blanks behind the last item belong to it. -/
theorem spells_prettyItems {js : List Json} (hne : js ≠ []) (level : Nat) (hws : Blanks ws)
    (h : ∀ j ∈ js, Spells j (prettyChars level j)) : SpellsItems js (prettyItems level js ++ ws) := by
  have hindent := blanks_indent level
  induction js with
  | nil => exact absurd rfl hne
  | cons j js ih =>
    have hj := h j List.mem_cons_self
    cases js with
    | nil =>
      have hpad := SpellsPadded.pad hindent hj hws
      rw [← List.append_assoc] at hpad
      exact .one hpad
    | cons j' js =>
      have hpad := SpellsPadded.pad hindent hj blanks_nil
      rw [List.append_nil] at hpad
      have hmore := SpellsItems.more hpad (ih (List.cons_ne_nil _ _) fun k hk => h k (.tail _ hk))
      rw [← List.cons_append, ← List.append_assoc] at hmore
      exact hmore

/-- The blanks behind the last member belong to its value. -/
theorem spells_prettyMembers {ms : List (String × Json)} (hne : ms ≠ []) (level : Nat)
    (hws : Blanks ws) (h : ∀ m ∈ ms, Spells m.2 (prettyChars level m.2)) :
    SpellsMembers (ms.map fun (name, value) => (some name, value))
      (prettyMembers level (ms.map fun (name, value) => (some name, value)) ++ ws) := by
  have hindent := blanks_indent level
  induction ms with
  | nil => exact absurd rfl hne
  | cons m ms ih =>
    obtain ⟨name, j⟩ := m
    have hj := h (name, j) List.mem_cons_self
    cases ms with
    | nil =>
      have hpad := SpellsPadded.pad blanks_space hj hws
      have hone := SpellsMembers.one hindent (quotes_quote name) blanks_nil hpad
      have hchars : indent level ++ (quote name ++ ([] ++ ':' ::
          ([' '] ++ (prettyChars level j ++ ws)))) =
          indent level ++ stringChars (some name) ++ ':' :: ' ' :: prettyChars level j ++ ws := by
        simp [stringChars]
      rw [hchars] at hone
      exact hone
    | cons m' ms =>
      have hpad := SpellsPadded.pad blanks_space hj blanks_nil
      have hmore := SpellsMembers.more hindent (quotes_quote name) blanks_nil hpad
        (ih (List.cons_ne_nil _ _) fun k hk => h k (.tail _ hk))
      have hchars (more : List Char) : indent level ++ (quote name ++ ([] ++ ':' ::
          ([' '] ++ (prettyChars level j ++ []) ++ ',' :: (more ++ ws)))) =
          indent level ++ stringChars (some name) ++ ':' :: ' ' :: (prettyChars level j ++
            ',' :: more) ++ ws := by
        simp [stringChars]
      rw [hchars] at hmore
      exact hmore

theorem Writable.spells_pretty (h : Writable j) (level : Nat) : Spells j (prettyChars level j) := by
  induction h generalizing level with
  | null => exact .null
  | boolean b => exact .boolean b
  | number w negative hnumeral =>
    rename_i numeral
    have hspells := Spells.number (isNumeral_signed w negative)
    rwa [← hnumeral, String.ofList_toList] at hspells
  | text s => exact .string (quotes_quote s)
  | @array js h ih =>
    cases js with
    | nil => exact .noItems blanks_nil
    | cons j js =>
      exact .items (spells_prettyItems (List.cons_ne_nil _ _) (level + 1) (blanks_indent level)
        fun k hk => ih k hk (level + 1))
  | @members ms h ih =>
    cases ms with
    | nil => exact .noMembers blanks_nil
    | cons m ms =>
      exact .members (spells_prettyMembers (List.cons_ne_nil _ _) (level + 1) (blanks_indent level)
        fun k hk => ih k hk (level + 1))

/-- A document reads back from its form over several lines, also when a line break follows. -/
theorem read?_pretty (h : Writable j) (hws : Blanks ws) :
    read? (j.pretty ++ .ofList ws) = some j := by
  refine read?_of_spells ?_
  have hpad := SpellsPadded.pad blanks_nil (h.spells_pretty 0) hws
  rwa [pretty, ← String.ofList_append, String.toList_ofList]

end Naskah.Json
