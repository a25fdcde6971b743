import Naskah.Proofs.Json.Numerals
import Naskah.Proofs.Json.Strings

/-
  Reading JSON. The texts that spell a document are given by a grammar that leaves the blanks open
  (`Spells`), and each of them is read as the document (`read?_of_spells`).
-/

namespace Naskah.Json

namespace Read

/-! ## Values -/

/-- What a reader gives, without the proof that less is left. -/
def Yields {α : Type} {n : Nat} (o : Option (Taken α n)) (a : α) (rest : List Char) : Prop :=
  ∃ t, o = some t ∧ t.value = a ∧ t.rest = rest

variable {cs r rest : List Char}

theorem value?_string {s : Option String} (hcs : skipSpaces cs = '"' :: r)
    (hs : Yields (string? r) s rest) : Yields (value? cs) (.string s) rest := by
  obtain ⟨t, ht, rfl, rfl⟩ := hs
  rw [value?]
  split
  case h_1 heq =>
    cases heq.symm.trans hcs
    rw [ht]
    exact ⟨_, rfl, rfl, rfl⟩
  all_goals simp_all

theorem value?_noItems (hcs : skipSpaces cs = '[' :: r) (hr : skipSpaces r = ']' :: rest) :
    Yields (value? cs) (.array []) rest := by
  rw [value?]
  split
  case h_2 heq =>
    cases heq.symm.trans hcs
    split
    case h_1 heq' =>
      cases heq'.symm.trans hr
      exact ⟨_, rfl, rfl, rfl⟩
    case h_2 hne => exact absurd hr (hne _)
  all_goals simp_all

theorem value?_items {js : List Json} (hcs : skipSpaces cs = '[' :: r)
    (hr : (skipSpaces r).head? ≠ some ']') (hjs : Yields (items? r) js rest) :
    Yields (value? cs) (.array js) rest := by
  obtain ⟨t, ht, rfl, rfl⟩ := hjs
  rw [value?]
  split
  case h_2 heq =>
    cases heq.symm.trans hcs
    split
    case h_1 heq' =>
      rw [heq'] at hr
      exact absurd rfl hr
    case h_2 =>
      rw [ht]
      exact ⟨_, rfl, rfl, rfl⟩
  all_goals simp_all

theorem value?_noMembers (hcs : skipSpaces cs = '{' :: r) (hr : skipSpaces r = '}' :: rest) :
    Yields (value? cs) (.object []) rest := by
  rw [value?]
  split
  case h_3 heq =>
    cases heq.symm.trans hcs
    split
    case h_1 heq' =>
      cases heq'.symm.trans hr
      exact ⟨_, rfl, rfl, rfl⟩
    case h_2 hne => exact absurd hr (hne _)
  all_goals simp_all

theorem value?_members {ms : List (Option String × Json)} (hcs : skipSpaces cs = '{' :: r)
    (hr : (skipSpaces r).head? ≠ some '}') (hms : Yields (members? r) ms rest) :
    Yields (value? cs) (.object ms) rest := by
  obtain ⟨t, ht, rfl, rfl⟩ := hms
  rw [value?]
  split
  case h_3 heq =>
    cases heq.symm.trans hcs
    split
    case h_1 heq' =>
      rw [heq'] at hr
      exact absurd rfl hr
    case h_2 =>
      rw [ht]
      exact ⟨_, rfl, rfl, rfl⟩
  all_goals simp_all

theorem value?_scalar {j : Json} (hhead : ∀ c ∈ (skipSpaces cs).head?, c ≠ '"' ∧ c ≠ '[' ∧ c ≠ '{')
    (hj : scalar? (skipSpaces cs) = some (j, rest)) (hlt : rest.length < (skipSpaces cs).length) :
    Yields (value? cs) j rest := by
  rw [value?]
  split
  case h_4 =>
    have ht : taken? (skipSpaces cs) = some ⟨j, rest, hlt⟩ := by
      unfold taken?
      rw [hj]
      exact dif_pos hlt
    rw [ht]
    exact ⟨_, rfl, rfl, rfl⟩
  all_goals simp_all

/-- What stands behind an item or a member: the end of the list, or more of it. -/
def Continues {α : Type} {n : List Char → Nat} (reader : (cs : List Char) → Option (Taken α (n cs)))
    (close : Char) (none : α) (a : α) (cs rest : List Char) : Prop :=
  (skipSpaces cs = close :: rest ∧ a = none) ∨
    ∃ r, skipSpaces cs = ',' :: r ∧ Yields (reader r) a rest

theorem items?_cons {j : Json} {js : List Json} (hj : Yields (value? cs) j r)
    (hjs : Continues items? ']' [] js r rest) : Yields (items? cs) (j :: js) rest := by
  obtain ⟨t, ht, rfl, rfl⟩ := hj
  rw [items?, ht]
  dsimp only
  rcases hjs with ⟨hclose, rfl⟩ | ⟨r', hcomma, t', ht', rfl, rfl⟩
  · split
    case h_1 heq =>
      cases heq.symm.trans hclose
      exact ⟨_, rfl, rfl, rfl⟩
    all_goals simp_all
  · split
    case h_2 heq =>
      cases heq.symm.trans hcomma
      rw [ht']
      exact ⟨_, rfl, rfl, rfl⟩
    all_goals simp_all

theorem members?_cons {name : Option String} {j : Json} {ms : List (Option String × Json)}
    {r₁ r₂ r₃ : List Char} (hcs : skipSpaces cs = '"' :: r) (hname : Yields (string? r) name r₁)
    (hcolon : skipSpaces r₁ = ':' :: r₂) (hj : Yields (value? r₂) j r₃)
    (hms : Continues members? '}' [] ms r₃ rest) : Yields (members? cs) ((name, j) :: ms) rest := by
  obtain ⟨t, ht, rfl, rfl⟩ := hname
  obtain ⟨t', ht', rfl, rfl⟩ := hj
  rw [members?]
  split
  case h_2 => simp_all
  case h_1 heq =>
    cases heq.symm.trans hcs
    rw [ht]
    dsimp only
    split
    case h_2 => simp_all
    case h_1 heq₁ =>
      cases heq₁.symm.trans hcolon
      rw [ht']
      dsimp only
      rcases hms with ⟨hclose, rfl⟩ | ⟨r', hcomma, t'', ht'', rfl, rfl⟩
      · split
        case h_1 heq₃ =>
          cases heq₃.symm.trans hclose
          exact ⟨_, rfl, rfl, rfl⟩
        all_goals simp_all
      · split
        case h_2 heq₃ =>
          cases heq₃.symm.trans hcomma
          rw [ht'']
          exact ⟨_, rfl, rfl, rfl⟩
        all_goals simp_all

end Read

/-! ## The grammar -/

open Read

/-- A text of blanks. -/
def Blanks (cs : List Char) : Prop := ∀ c ∈ cs, isSpace c = true

mutual

/-- A text that spells a document. -/
inductive Spells : Json → List Char → Prop
  | null : Spells null nullChars
  | boolean (b : Bool) : Spells (boolean b) (boolChars b)
  | number {cs : List Char} : IsNumeral cs → Spells (number (.ofList cs)) cs
  | string {cs : List Char} {s : Option String} : Quotes cs s → Spells (string s) cs
  | noItems {ws : List Char} : Blanks ws → Spells (array []) ('[' :: (ws ++ [']']))
  | items {js : List Json} {cs : List Char} :
      SpellsItems js cs → Spells (array js) ('[' :: (cs ++ [']']))
  | noMembers {ws : List Char} : Blanks ws → Spells (object []) ('{' :: (ws ++ ['}']))
  | members {ms : List (Option String × Json)} {cs : List Char} :
      SpellsMembers ms cs → Spells (object ms) ('{' :: (cs ++ ['}']))

/-- A document with blanks around it. -/
inductive SpellsPadded : Json → List Char → Prop
  | pad {ws ws' cs : List Char} {j : Json} :
      Blanks ws → Spells j cs → Blanks ws' → SpellsPadded j (ws ++ (cs ++ ws'))

/-- The items of an array, at least one. -/
inductive SpellsItems : List Json → List Char → Prop
  | one {j : Json} {cs : List Char} : SpellsPadded j cs → SpellsItems [j] cs
  | more {j : Json} {js : List Json} {cs ds : List Char} :
      SpellsPadded j cs → SpellsItems js ds → SpellsItems (j :: js) (cs ++ ',' :: ds)

/-- The members of an object, at least one. -/
inductive SpellsMembers : List (Option String × Json) → List Char → Prop
  | one {n : Option String} {j : Json} {ws ws' q cs : List Char} :
      Blanks ws → Quotes q n → Blanks ws' → SpellsPadded j cs →
        SpellsMembers [(n, j)] (ws ++ (q ++ (ws' ++ ':' :: cs)))
  | more {n : Option String} {j : Json} {ms : List (Option String × Json)}
      {ws ws' q cs ds : List Char} :
      Blanks ws → Quotes q n → Blanks ws' → SpellsPadded j cs → SpellsMembers ms ds →
        SpellsMembers ((n, j) :: ms) (ws ++ (q ++ (ws' ++ ':' :: (cs ++ ',' :: ds))))

end

variable {cs ws rest : List Char} {j : Json}

theorem SpellsPadded.exists_spells (h : SpellsPadded j cs) : ∃ ds, Spells j ds := by
  obtain ⟨-, hj, -⟩ := h
  exact ⟨_, hj⟩

theorem SpellsItems.exists_spells : ∀ {js : List Json} {cs : List Char}, SpellsItems js cs →
    ∀ j ∈ js, ∃ ds, Spells j ds
  | _, _, .one hj => List.forall_mem_singleton.2 hj.exists_spells
  | _, _, .more hj hjs => List.forall_mem_cons.2 ⟨hj.exists_spells, hjs.exists_spells⟩

theorem SpellsMembers.exists_spells : ∀ {ms : List (Option String × Json)} {cs : List Char},
    SpellsMembers ms cs → ∀ m ∈ ms, ∃ ds, Spells m.2 ds
  | _, _, .one _ _ _ hj => List.forall_mem_singleton.2 hj.exists_spells
  | _, _, .more _ _ _ hj hms => List.forall_mem_cons.2 ⟨hj.exists_spells, hms.exists_spells⟩

/-- A text that ends a value. -/
def Stops (cs : List Char) : Prop := ∀ c ∈ cs.head?, c = ',' ∨ c = ']' ∨ c = '}'

theorem skipSpaces_append (h : Blanks ws) (cs : List Char) :
    skipSpaces (ws ++ cs) = skipSpaces cs :=
  List.dropWhile_append_of_pos h

theorem skipSpaces_cons {c : Char} (h : isSpace c = false) (cs : List Char) :
    skipSpaces (c :: cs) = c :: cs :=
  List.dropWhile_cons_of_neg (by rw [h]; decide)

theorem Stops.skipSpaces_eq (h : Stops rest) : skipSpaces rest = rest := by
  cases rest with
  | nil => rfl
  | cons c cs => rcases h c rfl with rfl | rfl | rfl <;> rfl

theorem Stops.ends (h : Stops rest) (hws : Blanks ws) : Ends (ws ++ rest) := by
  intro c hc
  cases ws with
  | nil => rcases h c hc with rfl | rfl | rfl <;> decide
  | cons d ds =>
    obtain rfl : d = c := Option.some.inj hc
    have hd : isSpace d = true := hws d List.mem_cons_self
    simp only [isSpace, Bool.or_eq_true, beq_iff_eq] at hd
    rcases hd with ((rfl | rfl) | rfl) | rfl <;> decide

theorem scalar?_of_isNumeral (h : IsNumeral cs) (hrest : Ends rest) :
    scalar? (cs ++ rest) = some (number (.ofList cs), rest) := by
  obtain ⟨c, cs', hcs, hc⟩ := h.exists_cons
  have hne {d : Char} (hd : d.isDigit = false) (hminus : d ≠ '-') {r : List Char} :
      cs ++ rest ≠ d :: r := by
    rw [hcs]
    intro heq
    rw [(List.cons.inj heq).1, hd] at hc
    exact hc.elim hminus Bool.false_ne_true
  unfold scalar?
  split
  case h_1 heq => exact absurd heq (hne rfl (by decide))
  case h_2 heq => exact absurd heq (hne rfl (by decide))
  case h_3 heq => exact absurd heq (hne rfl (by decide))
  case h_4 =>
    rw [numeral?_of_isNumeral h hrest]
    rfl

theorem value?_of_scalar {c : Char} {r : List Char} (hws : Blanks ws) (hcs : cs = c :: r)
    (hc : isSpace c = false ∧ c ≠ '"' ∧ c ≠ '[' ∧ c ≠ '{')
    (hj : scalar? (cs ++ rest) = some (j, rest)) : Yields (value? (ws ++ (cs ++ rest))) j rest := by
  have hskip : skipSpaces (ws ++ (cs ++ rest)) = cs ++ rest := by
    rw [skipSpaces_append hws, hcs, List.cons_append, skipSpaces_cons hc.1]
  refine value?_scalar ?_ (by rw [hskip, hj]) ?_
  · rw [hskip, hcs]
    rintro _ ⟨⟩
    exact hc.2
  · rw [hskip, hcs]
    simp only [List.cons_append, List.length_cons, List.length_append]
    omega

theorem stops_cons {c : Char} (h : c = ',' ∨ c = ']' ∨ c = '}') (cs : List Char) :
    Stops (c :: cs) := by
  rintro _ ⟨⟩
  exact h

theorem isSpace_eq_false {c : Char} (h : c = '-' ∨ c.isDigit = true) :
    isSpace c = false ∧ c ≠ '"' ∧ c ≠ '[' ∧ c ≠ '{' ∧ c ≠ ']' := by
  have hne {d : Char} (hminus : d ≠ '-') (hd : d.isDigit = false) : c ≠ d := by
    rintro rfl
    rw [hd] at h
    exact h.elim hminus Bool.false_ne_true
  refine ⟨?_, hne ?_ rfl, hne ?_ rfl, hne ?_ rfl, hne ?_ rfl⟩
  · simp only [isSpace, Bool.or_eq_false_iff, beq_eq_false_iff_ne]
    refine ⟨⟨⟨hne ?_ rfl, hne ?_ rfl⟩, hne ?_ rfl⟩, hne ?_ rfl⟩
    all_goals decide
  all_goals decide

/-- A document begins with no blank and with no bracket that closes an array. -/
theorem Spells.exists_cons (h : Spells j cs) :
    ∃ c r, cs = c :: r ∧ isSpace c = false ∧ c ≠ ']' := by
  cases h with
  | null => exact ⟨_, _, rfl, by decide⟩
  | boolean b => cases b <;> exact ⟨_, _, rfl, by decide⟩
  | number hnumeral =>
    obtain ⟨c, r, hcs, hc⟩ := hnumeral.exists_cons
    obtain ⟨hspace, -, -, -, hclose⟩ := isSpace_eq_false hc
    exact ⟨c, r, hcs, hspace, hclose⟩
  | string hquotes =>
    cases hquotes
    exact ⟨_, _, rfl, by decide⟩
  | noItems => exact ⟨_, _, rfl, by decide⟩
  | items => exact ⟨_, _, rfl, by decide⟩
  | noMembers => exact ⟨_, _, rfl, by decide⟩
  | members => exact ⟨_, _, rfl, by decide⟩

theorem SpellsPadded.head?_ne (h : SpellsPadded j cs) (rest : List Char) :
    (skipSpaces (cs ++ rest)).head? ≠ some ']' := by
  obtain ⟨hws, hj, -⟩ := h
  obtain ⟨c, r, rfl, hspace, hclose⟩ := hj.exists_cons
  rw [List.append_assoc, skipSpaces_append hws, List.cons_append, List.cons_append,
    skipSpaces_cons hspace]
  exact fun h0 => hclose (Option.some.inj h0)

theorem SpellsItems.head?_ne {js : List Json} (h : SpellsItems js cs) (rest : List Char) :
    (skipSpaces (cs ++ rest)).head? ≠ some ']' := by
  cases h with
  | one hj => exact hj.head?_ne rest
  | more hj hjs =>
    rw [List.append_assoc]
    exact hj.head?_ne _

theorem SpellsMembers.head?_ne {ms : List (Option String × Json)} (h : SpellsMembers ms cs)
    (rest : List Char) : (skipSpaces (cs ++ rest)).head? ≠ some '}' := by
  cases h with
  | one hws hq _ _ =>
    cases hq
    rw [List.append_assoc, skipSpaces_append hws]
    exact fun h0 => absurd (Option.some.inj h0) (by decide)
  | more hws hq _ _ _ =>
    cases hq
    rw [List.append_assoc, skipSpaces_append hws]
    exact fun h0 => absurd (Option.some.inj h0) (by decide)

theorem skipSpaces_quotes {body : List Char} (hws : Blanks ws) (rest : List Char) :
    skipSpaces (ws ++ ('"' :: (body ++ ['"']) ++ rest)) = '"' :: (body ++ '"' :: rest) := by
  rw [skipSpaces_append hws, List.cons_append, skipSpaces_cons rfl, List.append_assoc]
  rfl

/-- The name of a member and the colon behind it are read. -/
theorem members?_of_quotes {name : Option String} {q ws' r r' : List Char}
    {ms : List (Option String × Json)} (hws : Blanks ws) (hq : Quotes q name) (hws' : Blanks ws')
    (hj : Yields (value? r) j r') (hms : Continues members? '}' [] ms r' rest) :
    Yields (members? (ws ++ (q ++ (ws' ++ ':' :: r)))) ((name, j) :: ms) rest := by
  obtain ⟨hname⟩ := hq
  refine members?_cons (skipSpaces_quotes hws _) (string?_of_denotes hname (ws' ++ ':' :: r)) ?_
    hj hms
  rw [skipSpaces_append hws', skipSpaces_cons rfl]

mutual

/-- Only a numeral needs a text behind it that ends it. -/
theorem value?_of_spells : ∀ {j : Json} {cs : List Char}, Spells j cs → ∀ ws rest : List Char,
    Blanks ws → (∀ n, j = number n → Ends rest) → Yields (value? (ws ++ (cs ++ rest))) j rest
  | _, _, .null, _, _, hws, _ => value?_of_scalar hws rfl (by decide) rfl
  | _, _, .boolean true, _, _, hws, _ => value?_of_scalar hws rfl (by decide) rfl
  | _, _, .boolean false, _, _, hws, _ => value?_of_scalar hws rfl (by decide) rfl
  | _, _, .number h, _, _, hws, hrest => by
    obtain ⟨c, cs, hcs, hc⟩ := h.exists_cons
    obtain ⟨hspace, hquote, hbracket, hbrace, -⟩ := isSpace_eq_false hc
    exact value?_of_scalar hws hcs ⟨hspace, hquote, hbracket, hbrace⟩
      (scalar?_of_isNumeral h (hrest _ rfl))
  | _, _, .string hq, _, rest, hws, _ => by
    obtain ⟨hs⟩ := hq
    exact value?_string (skipSpaces_quotes hws rest) (string?_of_denotes hs rest)
  | _, _, @Spells.noItems ws' hws', _, rest, hws, _ => by
    refine value?_noItems (r := ws' ++ ']' :: rest) ?_ ?_
    · rw [skipSpaces_append hws, List.cons_append, skipSpaces_cons rfl, List.append_assoc]
      rfl
    · rw [skipSpaces_append hws', skipSpaces_cons rfl]
  | _, _, @Spells.items _ cs hjs, _, rest, hws, _ => by
    refine value?_items (r := cs ++ ']' :: rest) ?_ (hjs.head?_ne _) (items?_of_spells hjs rest)
    rw [skipSpaces_append hws, List.cons_append, skipSpaces_cons rfl, List.append_assoc]
    rfl
  | _, _, @Spells.noMembers ws' hws', _, rest, hws, _ => by
    refine value?_noMembers (r := ws' ++ '}' :: rest) ?_ ?_
    · rw [skipSpaces_append hws, List.cons_append, skipSpaces_cons rfl, List.append_assoc]
      rfl
    · rw [skipSpaces_append hws', skipSpaces_cons rfl]
  | _, _, @Spells.members _ cs hms, _, rest, hws, _ => by
    refine value?_members (r := cs ++ '}' :: rest) ?_ (hms.head?_ne _)
      (members?_of_spells hms rest)
    rw [skipSpaces_append hws, List.cons_append, skipSpaces_cons rfl, List.append_assoc]
    rfl

theorem value?_of_padded : ∀ {j : Json} {cs : List Char}, SpellsPadded j cs →
    ∀ rest : List Char, Stops rest → ∃ r, Yields (value? (cs ++ rest)) j r ∧ skipSpaces r = rest
  | _, _, @SpellsPadded.pad ws ws' _ _ hws hj hws', rest, hrest => by
    refine ⟨ws' ++ rest, ?_, ?_⟩
    · rw [List.append_assoc, List.append_assoc]
      exact value?_of_spells hj ws (ws' ++ rest) hws fun _ _ => hrest.ends hws'
    · rw [skipSpaces_append hws', hrest.skipSpaces_eq]

theorem items?_of_spells : ∀ {js : List Json} {cs : List Char}, SpellsItems js cs →
    ∀ rest : List Char, Yields (items? (cs ++ ']' :: rest)) js rest
  | _, _, .one hj, rest => by
    obtain ⟨r, hr, hskip⟩ := value?_of_padded hj (']' :: rest) (stops_cons (by decide) rest)
    exact items?_cons hr (.inl ⟨hskip, rfl⟩)
  | _, _, @SpellsItems.more _ _ _ ds hj hjs, rest => by
    obtain ⟨r, hr, hskip⟩ := value?_of_padded hj (',' :: (ds ++ ']' :: rest))
      (stops_cons (by decide) _)
    rw [List.append_assoc]
    exact items?_cons hr (.inr ⟨_, hskip, items?_of_spells hjs rest⟩)

theorem members?_of_spells : ∀ {ms : List (Option String × Json)} {cs : List Char},
    SpellsMembers ms cs → ∀ rest : List Char, Yields (members? (cs ++ '}' :: rest)) ms rest
  | _, _, .one hws hq hws' hj, rest => by
    obtain ⟨r, hr, hskip⟩ := value?_of_padded hj ('}' :: rest) (stops_cons (by decide) rest)
    rw [List.append_assoc, List.append_assoc, List.append_assoc]
    exact members?_of_quotes hws hq hws' hr (.inl ⟨hskip, rfl⟩)
  | _, _, @SpellsMembers.more _ _ _ _ _ _ _ ds hws hq hws' hj hms, rest => by
    obtain ⟨r, hr, hskip⟩ := value?_of_padded hj (',' :: (ds ++ '}' :: rest))
      (stops_cons (by decide) _)
    rw [List.append_assoc, List.append_assoc, List.append_assoc, List.cons_append,
      List.append_assoc]
    exact members?_of_quotes hws hq hws' hr (.inr ⟨_, hskip, members?_of_spells hms rest⟩)

end

/-- A text that spells a document is read as the document, with any blanks around it. -/
theorem read?_of_spells {source : String} (h : SpellsPadded j source.toList) :
    read? source = some j := by
  obtain ⟨r, hread, hskip⟩ := value?_of_padded h [] (fun _ h0 => nomatch h0)
  rw [List.append_nil] at hread
  obtain ⟨t, ht, hj, hr⟩ := hread
  have hempty : (skipSpaces t.rest).isEmpty = true := by rw [hr, hskip]; rfl
  unfold read?
  rw [ht]
  dsimp only
  rw [if_pos hempty, hj]

end Naskah.Json
