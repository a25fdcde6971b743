import Naskah.Proofs.Json.Reading

/-
  What is read is in the grammar. Each reader takes one step of the grammar (`opens_of_value?`,
  `exists_of_items?`, `exists_of_members?`), so the text in front of what it leaves spells what it
  gives. A document is read from the texts that spell it and from no others (`read?_eq_some_iff`).
-/

namespace Naskah.Json

namespace Read

variable {cs r rest : List Char} {j : Json}

theorem Yields.shorter {α : Type} {n : Nat} {o : Option (Taken α n)} {a : α}
    (h : Yields o a rest) : rest.length < n := by
  obtain ⟨t, -, -, rfl⟩ := h
  exact t.shorter

/-! ## One step of a reader -/

/-- How a value begins, and what is read of it. -/
inductive Opens (cs : List Char) : Json → List Char → Prop
  | string {r rest : List Char} {s : Option String} :
      skipSpaces cs = '"' :: r → Yields (string? r) s rest → Opens cs (string s) rest
  | noItems {r rest : List Char} :
      skipSpaces cs = '[' :: r → skipSpaces r = ']' :: rest → Opens cs (array []) rest
  | items {r rest : List Char} {js : List Json} :
      skipSpaces cs = '[' :: r → Yields (items? r) js rest → Opens cs (array js) rest
  | noMembers {r rest : List Char} :
      skipSpaces cs = '{' :: r → skipSpaces r = '}' :: rest → Opens cs (object []) rest
  | members {r rest : List Char} {ms : List (Option String × Json)} :
      skipSpaces cs = '{' :: r → Yields (members? r) ms rest → Opens cs (object ms) rest
  | scalar {rest : List Char} {j : Json} :
      scalar? (skipSpaces cs) = some (j, rest) → Opens cs j rest

theorem opens_of_value? (h : Yields (value? cs) j rest) : Opens cs j rest := by
  obtain ⟨t, ht, rfl, rfl⟩ := h
  rw [value?] at ht
  split at ht
  case h_1 r hcs =>
    split at ht
    case h_1 => cases ht
    case h_2 s hs =>
      obtain rfl := Option.some.inj ht
      exact .string hcs ⟨s, hs, rfl, rfl⟩
  case h_2 r hcs =>
    split at ht
    case h_1 r' hr =>
      obtain rfl := Option.some.inj ht
      exact .noItems hcs hr
    case h_2 =>
      split at ht
      case h_1 => cases ht
      case h_2 items hitems =>
        obtain rfl := Option.some.inj ht
        exact .items hcs ⟨items, hitems, rfl, rfl⟩
  case h_3 r hcs =>
    split at ht
    case h_1 r' hr =>
      obtain rfl := Option.some.inj ht
      exact .noMembers hcs hr
    case h_2 =>
      split at ht
      case h_1 => cases ht
      case h_2 members hmembers =>
        obtain rfl := Option.some.inj ht
        exact .members hcs ⟨members, hmembers, rfl, rfl⟩
  case h_4 =>
    split at ht
    case h_1 => cases ht
    case h_2 u hu =>
      obtain rfl := Option.some.inj ht
      refine .scalar ?_
      unfold taken? at hu
      split at hu
      case h_1 => cases hu
      case h_2 j rest hscalar =>
        split at hu
        case isTrue =>
          obtain rfl := Option.some.inj hu
          exact hscalar
        case isFalse => cases hu

theorem exists_of_items? {js : List Json} (h : Yields (items? cs) js rest) :
    ∃ j js' r, js = j :: js' ∧ Yields (value? cs) j r ∧ Continues items? ']' [] js' r rest := by
  obtain ⟨t, ht, rfl, rfl⟩ := h
  rw [items?] at ht
  split at ht
  case h_1 => cases ht
  case h_2 first hfirst =>
    dsimp only at ht
    split at ht
    case h_1 r hclose =>
      obtain rfl := Option.some.inj ht
      exact ⟨first.value, [], first.rest, rfl, ⟨first, hfirst, rfl, rfl⟩, .inl ⟨hclose, rfl⟩⟩
    case h_2 r hcomma =>
      split at ht
      case h_1 => cases ht
      case h_2 more hmore =>
        obtain rfl := Option.some.inj ht
        exact ⟨first.value, more.value, first.rest, rfl, ⟨first, hfirst, rfl, rfl⟩,
          .inr ⟨r, hcomma, more, hmore, rfl, rfl⟩⟩
    case h_3 => cases ht

theorem exists_of_members? {ms : List (Option String × Json)} (h : Yields (members? cs) ms rest) :
    ∃ name j ms' r₀ r₁ r₂ r₃, ms = (name, j) :: ms' ∧ skipSpaces cs = '"' :: r₀ ∧
      Yields (string? r₀) name r₁ ∧ skipSpaces r₁ = ':' :: r₂ ∧ Yields (value? r₂) j r₃ ∧
      Continues members? '}' [] ms' r₃ rest := by
  obtain ⟨t, ht, rfl, rfl⟩ := h
  rw [members?] at ht
  split at ht
  case h_2 => cases ht
  case h_1 r₀ hcs =>
    split at ht
    case h_1 => cases ht
    case h_2 name hname =>
      dsimp only at ht
      split at ht
      case h_2 => cases ht
      case h_1 r₂ hcolon =>
        split at ht
        case h_1 => cases ht
        case h_2 v hv =>
          split at ht
          case h_1 r hclose =>
            obtain rfl := Option.some.inj ht
            exact ⟨_, _, [], _, _, _, _, rfl, hcs, ⟨name, hname, rfl, rfl⟩, hcolon,
              ⟨v, hv, rfl, rfl⟩, .inl ⟨hclose, rfl⟩⟩
          case h_2 r hcomma =>
            split at ht
            case h_1 => cases ht
            case h_2 more hmore =>
              obtain rfl := Option.some.inj ht
              exact ⟨_, _, more.value, _, _, _, _, rfl, hcs, ⟨name, hname, rfl, rfl⟩, hcolon,
                ⟨v, hv, rfl, rfl⟩, .inr ⟨r, hcomma, more, hmore, rfl, rfl⟩⟩
          case h_3 => cases ht

end Read

open Read

variable {cs r rest : List Char} {j : Json}

/-! ## What is read is spelled -/

theorem exists_blanks (cs : List Char) : ∃ ws, Blanks ws ∧ cs = ws ++ skipSpaces cs :=
  ⟨cs.takeWhile isSpace, fun _ hc => List.all_eq_true.1 List.all_takeWhile _ hc,
    List.takeWhile_append_dropWhile.symm⟩

theorem eq_append_of_word? {w : List Char} (h : word? w cs = some r) : cs = w ++ r := by
  unfold word? at h
  split at h
  case isTrue hprefix =>
    obtain ⟨r', rfl⟩ := List.isPrefixOf_iff_prefix.1 hprefix
    rw [List.drop_left] at h
    rw [Option.some.inj h]
  case isFalse => cases h

theorem spells_of_word? {w : List Char} {j' : Json} (hj : Spells j' w)
    (h : (word? w cs).map (j', ·) = some (j, rest)) : ∃ ds, cs = ds ++ rest ∧ Spells j ds := by
  obtain ⟨r, hr, heq⟩ := Option.map_eq_some_iff.1 h
  obtain ⟨rfl, rfl⟩ := Prod.mk.inj heq
  exact ⟨w, eq_append_of_word? hr, hj⟩

theorem spells_of_scalar? (h : scalar? cs = some (j, rest)) :
    ∃ ds, cs = ds ++ rest ∧ Spells j ds := by
  unfold scalar? at h
  split at h
  case h_1 => exact spells_of_word? .null h
  case h_2 => exact spells_of_word? (.boolean true) h
  case h_3 => exact spells_of_word? (.boolean false) h
  case h_4 =>
    obtain ⟨⟨ds, r⟩, hr, heq⟩ := Option.map_eq_some_iff.1 h
    obtain ⟨rfl, rfl⟩ := Prod.mk.inj heq
    obtain ⟨hcs, hnumeral⟩ := isNumeral_of_numeral? hr
    exact ⟨ds, hcs, .number hnumeral⟩

theorem length_of_skipSpaces {c : Char} (h : skipSpaces cs = c :: r) : r.length < cs.length := by
  have hle := skipSpaces_length cs
  rw [h, List.length_cons] at hle
  omega

theorem quotes_of_yields {s : Option String} (h : Yields (string? r) s rest) :
    ∃ q, '"' :: r = q ++ rest ∧ Quotes q s := by
  obtain ⟨t, ht, rfl, rfl⟩ := h
  obtain ⟨body, hr, hdenotes⟩ := denotes_of_string? ht
  refine ⟨_, ?_, .around hdenotes⟩
  rw [List.cons_append, List.append_assoc]
  exact congrArg ('"' :: ·) hr

/-- The blanks behind a document belong to it. -/
theorem exists_padded {ws ds : List Char} (c : Char) (hws : Blanks ws) (hj : Spells j ds)
    (hr : skipSpaces r = c :: rest) :
    ∃ es, ws ++ (ds ++ r) = es ++ c :: rest ∧ SpellsPadded j es := by
  obtain ⟨ws', hws', hr'⟩ := exists_blanks r
  refine ⟨_, ?_, .pad hws hj hws'⟩
  rw [List.append_assoc, List.append_assoc, ← hr, ← hr']

/-- What stands between two brackets, with the blanks in front of them. -/
theorem eq_enclosed {ws ds : List Char} {c d : Char} (hcs : cs = ws ++ skipSpaces cs)
    (hopen : skipSpaces cs = c :: (ds ++ d :: rest)) : cs = ws ++ (c :: (ds ++ [d]) ++ rest) := by
  rw [List.cons_append, List.append_assoc]
  exact hcs.trans (by rw [hopen]; rfl)

mutual

/-- The text in front of what is left spells the value, with blanks before it. The recursion is that
    of the readers: on the length of the text, and from items and members to values of the same text. -/
theorem spells_of_value? (cs : List Char) {j : Json} {rest : List Char}
    (h : Yields (value? cs) j rest) :
    ∃ ws ds, cs = ws ++ (ds ++ rest) ∧ Blanks ws ∧ Spells j ds := by
  obtain ⟨ws, hws, hcs⟩ := exists_blanks cs
  cases opens_of_value? h with
  | string hopen hs =>
    obtain ⟨q, hq, hquotes⟩ := quotes_of_yields hs
    exact ⟨ws, q, by rw [← hq, ← hopen]; exact hcs, hws, .string hquotes⟩
  | @noItems r _ hopen hclose =>
    obtain ⟨ws', hws', hr⟩ := exists_blanks r
    rw [hr, hclose] at hopen
    exact ⟨ws, _, eq_enclosed hcs hopen, hws, .noItems hws'⟩
  | @items r _ js hopen hjs =>
    have hlt : r.length < cs.length := length_of_skipSpaces hopen
    obtain ⟨ds, rfl, hds⟩ := spells_of_items? r hjs
    exact ⟨ws, _, eq_enclosed hcs hopen, hws, .items hds⟩
  | @noMembers r _ hopen hclose =>
    obtain ⟨ws', hws', hr⟩ := exists_blanks r
    rw [hr, hclose] at hopen
    exact ⟨ws, _, eq_enclosed hcs hopen, hws, .noMembers hws'⟩
  | @members r _ ms hopen hms =>
    have hlt : r.length < cs.length := length_of_skipSpaces hopen
    obtain ⟨ds, rfl, hds⟩ := spells_of_members? r hms
    exact ⟨ws, _, eq_enclosed hcs hopen, hws, .members hds⟩
  | scalar hscalar =>
    obtain ⟨ds, hds, hspells⟩ := spells_of_scalar? hscalar
    exact ⟨ws, ds, by rw [← hds]; exact hcs, hws, hspells⟩
termination_by (cs.length, 0)

theorem spells_of_items? (cs : List Char) {js : List Json} {rest : List Char}
    (h : Yields (items? cs) js rest) : ∃ ds, cs = ds ++ ']' :: rest ∧ SpellsItems js ds := by
  obtain ⟨j, js', r, rfl, hj, hmore⟩ := exists_of_items? h
  have hlt : r.length < cs.length := hj.shorter
  obtain ⟨ws, ds, rfl, hws, hspells⟩ := spells_of_value? cs hj
  rcases hmore with ⟨hclose, rfl⟩ | ⟨r', hcomma, hjs⟩
  · obtain ⟨es, hes, hpadded⟩ := exists_padded ']' hws hspells hclose
    exact ⟨es, hes, .one hpadded⟩
  · have hlt' : r'.length < r.length := length_of_skipSpaces hcomma
    obtain ⟨es, hes, hpadded⟩ := exists_padded ',' hws hspells hcomma
    obtain ⟨fs, rfl, hitems⟩ := spells_of_items? r' hjs
    refine ⟨_, ?_, .more hpadded hitems⟩
    rw [hes, List.append_assoc]
    rfl
termination_by (cs.length, 1)

theorem spells_of_members? (cs : List Char) {ms : List (Option String × Json)} {rest : List Char}
    (h : Yields (members? cs) ms rest) : ∃ ds, cs = ds ++ '}' :: rest ∧ SpellsMembers ms ds := by
  obtain ⟨name, j, ms', r₀, r₁, r₂, r₃, rfl, hopen, hname, hcolon, hj, hmore⟩ :=
    exists_of_members? h
  obtain ⟨ws, hws, hcs⟩ := exists_blanks cs
  obtain ⟨q, hq, hquotes⟩ := quotes_of_yields hname
  obtain ⟨ws', hws', hr₁⟩ := exists_blanks r₁
  have hlt₂ : r₂.length < cs.length :=
    (length_of_skipSpaces hcolon).trans (hname.shorter.trans (length_of_skipSpaces hopen))
  have hlt₃ : r₃.length < cs.length := hj.shorter.trans hlt₂
  obtain ⟨ws₂, ds, hr₂, hws₂, hspells⟩ := spells_of_value? r₂ hj
  -- what stands in front of the value
  have hfront : cs = ws ++ (q ++ (ws' ++ ':' :: r₂)) := by
    rw [← hcolon, ← hr₁, ← hq, ← hopen]
    exact hcs
  rcases hmore with ⟨hclose, rfl⟩ | ⟨r', hcomma, hms⟩
  · obtain ⟨es, hes, hpadded⟩ := exists_padded '}' hws₂ hspells hclose
    refine ⟨_, ?_, .one hws hquotes hws' hpadded⟩
    rw [hfront, hr₂, hes]
    simp only [List.append_assoc, List.cons_append]
  · have hlt' : r'.length < r₃.length := length_of_skipSpaces hcomma
    obtain ⟨es, hes, hpadded⟩ := exists_padded ',' hws₂ hspells hcomma
    obtain ⟨fs, rfl, hmembers⟩ := spells_of_members? r' hms
    refine ⟨_, ?_, .more hws hquotes hws' hpadded hmembers⟩
    rw [hfront, hr₂, hes]
    simp only [List.append_assoc, List.cons_append]
termination_by (cs.length, 1)

end

/-! ## Documents -/

theorem blanks_of_skipSpaces (h : skipSpaces cs = []) : Blanks cs := by
  obtain ⟨ws, hws, hcs⟩ := exists_blanks cs
  rw [h, List.append_nil] at hcs
  rwa [hcs]

/-- A document is read from the texts that spell it and from no others. -/
theorem read?_eq_some_iff {source : String} :
    read? source = some j ↔ SpellsPadded j source.toList := by
  refine ⟨fun h => ?_, read?_of_spells⟩
  unfold read? at h
  split at h
  case h_1 => cases h
  case h_2 t ht =>
    split at h
    case isTrue hempty =>
      obtain rfl := Option.some.inj h
      obtain ⟨ws, ds, hsource, hws, hspells⟩ := spells_of_value? source.toList ⟨t, ht, rfl, rfl⟩
      have hpad := SpellsPadded.pad hws hspells (blanks_of_skipSpaces (List.isEmpty_iff.1 hempty))
      rwa [← hsource] at hpad
    case isFalse => cases h

/-- A document other than a number is read whatever stands behind it. -/
theorem exists_yields (h : SpellsPadded j cs) (hj : ∀ n, j ≠ number n) (rest : List Char) :
    ∃ ws, Blanks ws ∧ Yields (value? (cs ++ rest)) j (ws ++ rest) := by
  obtain ⟨hws, hspells, hws'⟩ := h
  refine ⟨_, hws', ?_⟩
  rw [List.append_assoc, List.append_assoc]
  exact value?_of_spells hspells _ _ hws fun n hn => absurd hn (hj n)

/-- Nothing but blanks may stand behind a document other than a number. -/
theorem read?_append_eq_none {source extra : String} (h : SpellsPadded j source.toList)
    (hj : ∀ n, j ≠ number n) (hextra : ¬Blanks extra.toList) : read? (source ++ extra) = none := by
  obtain ⟨ws, hws, hread⟩ := exists_yields h hj extra.toList
  rw [← String.toList_append] at hread
  obtain ⟨t, ht, -, hrest⟩ := hread
  have hleft : (skipSpaces t.rest).isEmpty = false := by
    rw [hrest, skipSpaces_append hws, List.isEmpty_eq_false_iff]
    exact fun h0 => hextra (blanks_of_skipSpaces h0)
  unfold read?
  rw [ht]
  dsimp only
  rw [hleft]
  rfl

end Naskah.Json
