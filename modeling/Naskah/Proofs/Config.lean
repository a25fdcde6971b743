import Naskah.Config
import Naskah.Proofs.Json.RoundTrip
import Naskah.Proofs.Json.Soundness

/-
  Settings are loaded as a whole or not at all. Reading the members of a document is reading each of
  the two settings from the values under its own name (`foldlM_readMember?_eq_some_iff`), so a file
  gives settings if and only if it holds a document that describes them (`read?_eq_some_iff`). Neither
  the order of the members nor the layout nor other members count, and any other file leaves both
  settings unset (`load_all_or_nothing`).
-/

namespace Naskah

namespace Config

open Json (Digits IsNumeral Spells SpellsPadded Blanks)
open Decimal (natOfDigits)

/-! ## What a document describes -/

section

variable {α : Type}

/-- The values written for one setting, and the setting that they leave. -/
inductive Gives (IsValue : α → Json → Prop) : List Json → Option α → Prop
  | absent : Gives IsValue [] none
  | null : Gives IsValue [.null] none
  | value {a : α} {v : Json} : IsValue a v → Gives IsValue [v] (some a)

/-- Values that leave nothing for a setting: there are several, or one of them is wrong. -/
def Faulty (IsValue : α → Json → Prop) (vs : List Json) : Prop :=
  2 ≤ vs.length ∨ ∃ v ∈ vs, v ≠ .null ∧ ∀ a, ¬IsValue a v

theorem faulty_iff {IsValue : α → Json → Prop} {vs : List Json} :
    Faulty IsValue vs ↔ ∀ o, ¬Gives IsValue vs o := by
  constructor
  · rintro (hlength | ⟨v, hv, hnull, hwrong⟩) o hgives
    · cases hgives <;> simp at hlength
    · cases hgives with
      | absent => cases hv
      | null => exact hnull (List.mem_singleton.1 hv)
      | value hvalue => exact hwrong _ (List.mem_singleton.1 hv ▸ hvalue)
  · intro hnone
    rcases vs with _ | ⟨v, _ | ⟨v', vs⟩⟩
    · exact absurd .absent (hnone _)
    · refine .inr ⟨v, List.mem_cons_self, ?_, fun a ha => hnone _ (.value ha)⟩
      rintro rfl
      exact hnone _ .null
    · exact .inl (by simp)

end

/-- The numeral of a time: digits alone, for a number below `2 ^ 64`. -/
def IsTimeout (t : UInt64) (v : Json) : Prop := v = .nat t.toNat

/-- The name of a format, or an object with null under it. -/
def IsFormat (f : OutputFormat) (v : Json) : Prop :=
  v = .text f.name ∨ v = .object [(some f.name, .null)]

/-- The values of the members of a name, in their order. -/
def values (ms : List (Option String × Json)) (name : String) : List Json :=
  (ms.filter (·.1 = some name)).map Prod.snd

/-- A document that describes settings. Each member of an object has a text as its name; under other
    names than those of the settings any documents may stand. -/
inductive Describes : Json → Config → Prop
  | object {ms : List (Option String × Json)} {c : Config} :
      (∀ m ∈ ms, m.1.isSome) → Gives IsTimeout (values ms "timeout_ms") c.timeoutMs →
        Gives IsFormat (values ms "format") c.format → Describes (.object ms) c
  | array {js : List Json} {c : Config} :
      Gives IsTimeout (js.take 1) c.timeoutMs → Gives IsFormat (js.drop 1) c.format →
        Describes (.array js) c

/-- An object that describes no settings: a name is no text, or one of the settings is faulty. -/
def Refused (ms : List (Option String × Json)) : Prop :=
  (∃ m ∈ ms, m.1 = none) ∨ Faulty IsTimeout (values ms "timeout_ms") ∨
    Faulty IsFormat (values ms "format")

theorem Refused.not_describes {ms : List (Option String × Json)} (h : Refused ms) (c : Config) :
    ¬Describes (.object ms) c := by
  intro hdescribes
  cases hdescribes with
  | object hnames htimeout hformat =>
    rcases h with ⟨m, hm, hnone⟩ | hfaulty | hfaulty
    · have hsome := hnames m hm
      rw [hnone] at hsome
      cases hsome
    · exact faulty_iff.1 hfaulty _ htimeout
    · exact faulty_iff.1 hfaulty _ hformat

/-! ## Times -/

theorem word64?_of_digits {ds : List Char} (h : Digits ds) :
    word64? ds =
      if natOfDigits ds < UInt64.size then some (.ofNat (natOfDigits ds)) else none := by
  have hall : ds.all Char.isDigit = true := List.all_eq_true.2 h.2
  unfold word64?
  rw [h.isEmpty_eq, hall]
  rfl

theorem digits_of_word64? {ds : List Char} {t : UInt64} (h : word64? ds = some t) : Digits ds := by
  unfold word64? at h
  split at h
  case isTrue => cases h
  case isFalse hdigits =>
    simp only [Bool.or_eq_true, Bool.not_eq_true', not_or, Bool.not_eq_false] at hdigits
    exact ⟨fun h0 => hdigits.1 (List.isEmpty_iff.2 h0), List.all_eq_true.1 hdigits.2⟩

/-- A numeral is read as a time if and only if it is the decimal form of the time. -/
theorem word64?_eq_some_iff {ds : List Char} (h : IsNumeral ds) {t : UInt64} :
    word64? ds = some t ↔ ds = Nat.toDigits 10 t.toNat := by
  constructor
  · intro ht
    have hdigits := digits_of_word64? ht
    rw [word64?_of_digits hdigits] at ht
    split at ht
    case isTrue hlt =>
      rw [← Option.some.inj ht, UInt64.toNat_ofNat_of_lt' hlt,
        (h.whole hdigits.2).toDigits_natOfDigits]
    case isFalse => cases ht
  · rintro rfl
    have hvalue : natOfDigits (Nat.toDigits 10 t.toNat) = t.toNat := Nat.ofDigitChars_ten_toDigits
    rw [word64?_of_digits (Json.digits_toDigits t.toNat), hvalue, if_pos t.toNat_lt_size,
      UInt64.ofNat_toNat]

/-! ## Settings -/

section

variable {α : Type}

/-- A reader of one setting: null leaves it unset, and anything else has to be one of its values. -/
def Reads (read : Json → Option (Option α)) (IsValue : α → Json → Prop) (v : Json) : Prop :=
  ∀ o, read v = some o ↔ (v = .null ∧ o = none) ∨ ∃ a, IsValue a v ∧ o = some a

/-- Reads a setting that may have been met before. -/
def readOnce? (read : Json → Option (Option α)) (x : Option (Option α)) (v : Json) :
    Option (Option (Option α)) :=
  if x.isSome then none else (read v).map some

theorem gives_nil_iff {IsValue : α → Json → Prop} {o : Option α} : Gives IsValue [] o ↔ o = none := by
  constructor
  · rintro ⟨⟩
    rfl
  · rintro rfl
    exact .absent

theorem gives_singleton_iff {read : Json → Option (Option α)} {IsValue : α → Json → Prop} {v : Json}
    (hread : Reads read IsValue v) {o : Option α} : Gives IsValue [v] o ↔ read v = some o := by
  rw [hread o]
  constructor
  · rintro (_ | _ | ha)
    · exact .inl ⟨rfl, rfl⟩
    · exact .inr ⟨_, ha, rfl⟩
  · rintro (⟨rfl, rfl⟩ | ⟨a, ha, rfl⟩)
    · exact .null
    · exact .value ha

theorem not_gives_cons_cons {IsValue : α → Json → Prop} {v v' : Json} {vs : List Json}
    {o : Option α} : ¬Gives IsValue (v :: v' :: vs) o :=
  nofun

/-- A setting is read from no value or from one. -/
theorem gives_iff {read : Json → Option (Option α)} {IsValue : α → Json → Prop} {vs : List Json}
    (hreads : ∀ v ∈ vs, Reads read IsValue v) {o : Option α} :
    (∃ x, vs.foldlM (readOnce? read) none = some x ∧ x.join = o) ↔ Gives IsValue vs o := by
  rcases vs with _ | ⟨v, _ | ⟨v', vs⟩⟩
  · rw [gives_nil_iff]
    simp [eq_comm]
  · have hfold : [v].foldlM (readOnce? read) none = (read v).map some := by
      rw [List.foldlM_cons]
      cases h : read v <;> simp [readOnce?, h]
    rw [hfold, gives_singleton_iff (hreads v List.mem_cons_self)]
    simp
  · have hfold : (v :: v' :: vs).foldlM (readOnce? read) none = none := by
      rw [List.foldlM_cons]
      cases h : read v <;> simp [readOnce?, h]
    rw [hfold]
    refine iff_of_false ?_ not_gives_cons_cons
    rintro ⟨x, hx, -⟩
    cases hx

/-- A setting whose values are read one by one. -/
theorem reads_of_map {read? : Option α} {IsValue : α → Json → Prop} {v : Json} (hnull : v ≠ .null)
    (hvalue : ∀ a, IsValue a v ↔ read? = some a) (o : Option α) :
    read?.map some = some o ↔ (v = .null ∧ o = none) ∨ ∃ a, IsValue a v ∧ o = some a := by
  rw [Option.map_eq_some_iff]
  constructor
  · rintro ⟨a, ha, rfl⟩
    exact .inr ⟨a, (hvalue a).2 ha, rfl⟩
  · rintro (⟨h, -⟩ | ⟨a, ha, rfl⟩)
    · exact absurd h hnull
    · exact ⟨a, (hvalue a).1 ha, rfl⟩

end

theorem reads_timeout {v : Json} {cs : List Char} (h : Spells v cs) :
    Reads readTimeout? IsTimeout v := by
  intro o
  cases h with
  | null => simp [readTimeout?, IsTimeout, Json.nat, eq_comm]
  | number hnumeral =>
    refine reads_of_map Json.noConfusion (fun t => ?_) o
    rw [String.toList_ofList, word64?_eq_some_iff hnumeral, IsTimeout, Json.nat, Json.number.injEq,
      String.ofList_inj]
  | _ => simp [readTimeout?, IsTimeout, Json.nat]

theorem ofName?_eq_some_iff {s : String} {f : OutputFormat} :
    OutputFormat.ofName? s = some f ↔ s = f.name := by
  constructor
  · intro h
    unfold OutputFormat.ofName? at h
    split at h
    case isTrue htext =>
      obtain rfl := Option.some.inj h
      exact htext
    case isFalse =>
      split at h
      case isTrue hjson =>
        obtain rfl := Option.some.inj h
        exact hjson
      case isFalse => cases h
  · rintro rfl
    cases f <;> rfl

theorem reads_format (v : Json) : Reads readFormat? IsFormat v := by
  intro o
  unfold readFormat?
  split
  case h_1 => simp [IsFormat, Json.text, eq_comm]
  case h_2 s =>
    exact reads_of_map Json.noConfusion (by simp [IsFormat, Json.text, ofName?_eq_some_iff]) o
  case h_3 s =>
    exact reads_of_map Json.noConfusion (by simp [IsFormat, Json.text, ofName?_eq_some_iff]) o
  case h_4 hnull hname hobject =>
    constructor
    · intro h
      cases h
    · rintro (⟨h, -⟩ | ⟨f, h | h, -⟩)
      · exact absurd h hnull
      · exact absurd h (hname _)
      · exact absurd h (hobject _)

/-! ## Members -/

theorem values_cons {n name : String} {j : Json} {ms : List (Option String × Json)} :
    values ((some n, j) :: ms) name = if n = name then j :: values ms name else values ms name := by
  unfold values
  by_cases h : n = name <;> simp [h]

theorem readMember?_timeout (p : Draft) (j : Json) :
    readMember? p (some "timeout_ms", j) =
      (readOnce? readTimeout? p.timeoutMs j).map fun t => { p with timeoutMs := t } := by
  cases h : p.timeoutMs <;> simp [readMember?, readOnce?, h, Function.comp_def]

theorem readMember?_format (p : Draft) (j : Json) :
    readMember? p (some "format", j) =
      (readOnce? readFormat? p.format j).map fun f => { p with format := f } := by
  cases h : p.format <;> simp [readMember?, readOnce?, h, Function.comp_def]

theorem readMember?_other (p : Draft) {name : String} (j : Json) (htimeout : name ≠ "timeout_ms")
    (hformat : name ≠ "format") : readMember? p (some name, j) = some p := by
  simp [readMember?, htimeout, hformat]

/-- Reading the members is reading each setting from the values of its own name. -/
theorem foldlM_readMember?_eq_some_iff {ms : List (Option String × Json)} {p q : Draft} :
    ms.foldlM readMember? p = some q ↔ (∀ m ∈ ms, m.1.isSome) ∧
      (values ms "timeout_ms").foldlM (readOnce? readTimeout?) p.timeoutMs = some q.timeoutMs ∧
      (values ms "format").foldlM (readOnce? readFormat?) p.format = some q.format := by
  induction ms generalizing p with
  | nil =>
    cases p
    cases q
    simp [values]
  | cons m ms ih =>
    obtain ⟨name, j⟩ := m
    rw [List.foldlM_cons, List.forall_mem_cons]
    cases name with
    | none => simp [readMember?]
    | some name =>
      by_cases htimeout : name = "timeout_ms"
      · subst htimeout
        rw [readMember?_timeout, values_cons, if_pos rfl, values_cons, if_neg (by decide),
          List.foldlM_cons]
        cases readOnce? readTimeout? p.timeoutMs j with
        | none => simp
        | some t => simpa using ih (p := { p with timeoutMs := t })
      · by_cases hformat : name = "format"
        · subst hformat
          rw [readMember?_format, values_cons, if_neg (by decide), values_cons, if_pos rfl,
            List.foldlM_cons]
          cases readOnce? readFormat? p.format j with
          | none => simp
          | some f => simpa using ih (p := { p with format := f })
        · rw [readMember?_other p j htimeout hformat, values_cons, if_neg htimeout, values_cons,
            if_neg hformat]
          simpa using ih

/-! ## Documents -/

theorem mem_values {ms : List (Option String × Json)} {name : String} {v : Json}
    (h : v ∈ values ms name) : (some name, v) ∈ ms := by
  obtain ⟨⟨n, v⟩, hm, rfl⟩ := List.mem_map.1 h
  obtain ⟨hm, hn⟩ := List.mem_filter.1 hm
  obtain rfl : n = some name := of_decide_eq_true hn
  exact hm

theorem describes_object_iff {ms : List (Option String × Json)} {c : Config} :
    Describes (.object ms) c ↔ (∀ m ∈ ms, m.1.isSome) ∧
      Gives IsTimeout (values ms "timeout_ms") c.timeoutMs ∧
      Gives IsFormat (values ms "format") c.format := by
  constructor
  · rintro ⟨hnames, htimeout, hformat⟩
    exact ⟨hnames, htimeout, hformat⟩
  · rintro ⟨hnames, htimeout, hformat⟩
    exact .object hnames htimeout hformat

theorem describes_array_iff {js : List Json} {c : Config} :
    Describes (.array js) c ↔ Gives IsTimeout (js.take 1) c.timeoutMs ∧
      Gives IsFormat (js.drop 1) c.format := by
  constructor
  · rintro (_ | ⟨htimeout, hformat⟩)
    exact ⟨htimeout, hformat⟩
  · rintro ⟨htimeout, hformat⟩
    exact .array htimeout hformat

theorem ofJson?_object_eq_some_iff {ms : List (Option String × Json)} {c : Config}
    (h : ∀ m ∈ ms, ∃ ds, Spells m.2 ds) :
    ofJson? (.object ms) = some c ↔ Describes (.object ms) c := by
  have htimeout : ∀ v ∈ values ms "timeout_ms", Reads readTimeout? IsTimeout v := fun v hv =>
    (h _ (mem_values hv)).elim fun _ hds => reads_timeout hds
  rw [describes_object_iff, ← gives_iff htimeout, ← gives_iff fun v _ => reads_format v]
  show ((ms.foldlM readMember? ⟨none, none⟩).bind fun p => some ⟨p.timeoutMs.join, p.format.join⟩) =
    some c ↔ _
  rw [Option.bind_eq_some_iff]
  constructor
  · rintro ⟨p, hp, hc⟩
    obtain rfl := Option.some.inj hc
    obtain ⟨hnames, ht, hf⟩ := foldlM_readMember?_eq_some_iff.1 hp
    exact ⟨hnames, ⟨_, ht, rfl⟩, ⟨_, hf, rfl⟩⟩
  · rintro ⟨hnames, ⟨t, ht, htc⟩, ⟨f, hf, hfc⟩⟩
    refine ⟨⟨t, f⟩, foldlM_readMember?_eq_some_iff.2 ⟨hnames, ht, hf⟩, ?_⟩
    rw [htc, hfc]

theorem ofJson?_array_eq_some_iff {js : List Json} {c : Config} (h : ∀ j ∈ js, ∃ ds, Spells j ds) :
    ofJson? (.array js) = some c ↔ Describes (.array js) c := by
  obtain ⟨t, f⟩ := c
  rw [describes_array_iff]
  rcases js with _ | ⟨j, js⟩
  · simp [gives_nil_iff, ofJson?, unset, eq_comm]
  · obtain ⟨ds, hds⟩ := h j List.mem_cons_self
    rw [List.take_succ_cons, List.take_zero, List.drop_succ_cons, List.drop_zero,
      gives_singleton_iff (reads_timeout hds)]
    rcases js with _ | ⟨j', _ | ⟨j'', js⟩⟩
    · rw [gives_nil_iff]
      cases hread : readTimeout? j <;> simp [ofJson?, hread, eq_comm]
    · rw [gives_singleton_iff (reads_format j')]
      cases hread : readTimeout? j <;> cases hread' : readFormat? j' <;>
        simp [ofJson?, hread, hread']
    · simp [ofJson?, not_gives_cons_cons]

/-- The settings in a document are those that it describes. -/
theorem ofJson?_eq_some_iff {j : Json} {cs : List Char} (h : Spells j cs) {c : Config} :
    ofJson? j = some c ↔ Describes j c := by
  cases h with
  | noItems _ => exact ofJson?_array_eq_some_iff nofun
  | items hjs => exact ofJson?_array_eq_some_iff hjs.exists_spells
  | noMembers _ => exact ofJson?_object_eq_some_iff nofun
  | members hms => exact ofJson?_object_eq_some_iff hms.exists_spells
  | _ => exact iff_of_false nofun nofun

/-! ## Files -/

/-- A file gives settings if and only if it holds a document that describes them. -/
theorem read?_eq_some_iff {content : String} {c : Config} :
    read? content = some c ↔ ∃ j, SpellsPadded j content.toList ∧ Describes j c := by
  unfold read?
  rw [Option.bind_eq_some_iff]
  refine exists_congr fun j => ?_
  rw [Json.read?_eq_some_iff]
  refine and_congr_right fun hj => ?_
  obtain ⟨ds, hds⟩ := hj.exists_spells
  exact ofJson?_eq_some_iff hds

theorem load_eq {content : String} {j : Json} {c : Config} (hj : SpellsPadded j content.toList)
    (hc : Describes j c) : load (some content) = c := by
  have hread : read? content = some c := read?_eq_some_iff.2 ⟨j, hj, hc⟩
  show (read? content).getD unset = c
  rw [hread, Option.getD_some]

theorem load_eq_unset {content : String}
    (h : ∀ j c, SpellsPadded j content.toList → ¬Describes j c) : load (some content) = unset := by
  have hread : read? content = none := by
    cases hread : read? content with
    | none => rfl
    | some c =>
      obtain ⟨j, hj, hc⟩ := read?_eq_some_iff.1 hread
      exact absurd hc (h j c hj)
  show (read? content).getD unset = unset
  rw [hread, Option.getD_none]

/-! ## Written settings -/

theorem writable_toJson (c : Config) : c.toJson.Writable := by
  refine .members fun m hm => ?_
  rcases List.mem_append.1 hm with hm | hm
  · obtain ⟨t, -, rfl⟩ := Option.map_eq_some_iff.1 (Option.mem_toList.1 hm)
    exact Json.writable_nat t.toNat
  · obtain ⟨f, -, rfl⟩ := Option.map_eq_some_iff.1 (Option.mem_toList.1 hm)
    exact .text f.name

theorem describes_toJson (c : Config) : Describes c.toJson c := by
  obtain ⟨t, f⟩ := c
  have htimeout (t : UInt64) : Gives IsTimeout [.nat t.toNat] (some t) := .value rfl
  have hformat (f : OutputFormat) : Gives IsFormat [.text f.name] (some f) := .value (.inl rfl)
  cases t with
  | none =>
    cases f with
    | none => exact .object nofun .absent .absent
    | some f => exact .object (by simp) .absent (hformat f)
  | some t =>
    cases f with
    | none => exact .object (by simp) (htimeout t) .absent
    | some f => exact .object (by simp) (htimeout t) (hformat f)

theorem load_compact (c : Config) : load (some c.toJson.compact) = c :=
  load_eq (Json.read?_eq_some_iff.1 (Json.read?_compact (writable_toJson c))) (describes_toJson c)

theorem load_pretty (c : Config) : load (some c.toJson.pretty) = c := by
  have hread := Json.read?_pretty (writable_toJson c) Json.blanks_nil
  rw [String.ofList_nil, String.append_empty] at hread
  exact load_eq (Json.read?_eq_some_iff.1 hread) (describes_toJson c)

/-! ## Refused files -/

theorem load_refused {content : String} {ms : List (Option String × Json)}
    (hms : SpellsPadded (.object ms) content.toList) (h : Refused ms) :
    load (some content) = unset := by
  refine load_eq_unset fun j c hj hc => ?_
  -- a text spells one document only
  have hread := (Json.read?_eq_some_iff.2 hj).symm.trans (Json.read?_eq_some_iff.2 hms)
  obtain rfl := Option.some.inj hread
  exact h.not_describes c hc

theorem load_trailing {content extra : String} {j : Json} {c : Config}
    (hj : SpellsPadded j content.toList) (hc : Describes j c) (hextra : ¬Blanks extra.toList) :
    load (some (content ++ extra)) = unset := by
  have hnumber : ∀ n, j ≠ .number n := by
    rintro n rfl
    cases hc
  have hread := Json.read?_append_eq_none hj hnumber hextra
  refine load_eq_unset fun j' c' hj' _ => ?_
  cases hread.symm.trans (Json.read?_eq_some_iff.2 hj')

/-- Settings that are written are loaded again, and so are the settings that a file describes, whatever
    the order of its members, its blanks and its other members are. From any other file nothing is
    loaded, not even a setting that is right: not if it holds no document, if a name is no text, if a
    setting is written twice or with a wrong value, or if anything but blanks follows. -/
theorem load_all_or_nothing :
    (∀ c : Config, load (some c.toJson.compact) = c ∧ load (some c.toJson.pretty) = c) ∧
    (∀ (content : String) (j : Json) (c : Config), SpellsPadded j content.toList → Describes j c →
      load (some content) = c) ∧
    (∀ content : String, (∀ j c, SpellsPadded j content.toList → ¬Describes j c) →
      load (some content) = unset) ∧
    (∀ (content : String) (ms : List (Option String × Json)),
      SpellsPadded (.object ms) content.toList → Refused ms → load (some content) = unset) ∧
    (∀ (content extra : String) (j : Json) (c : Config), SpellsPadded j content.toList →
      Describes j c → ¬Blanks extra.toList → load (some (content ++ extra)) = unset) :=
  ⟨fun c => ⟨load_compact c, load_pretty c⟩, fun _ _ _ hj hc => load_eq hj hc,
    fun _ h => load_eq_unset h, fun _ _ hms h => load_refused hms h,
    fun _ _ _ _ hj hc hextra => load_trailing hj hc hextra⟩

/-- A document with another member between the settings, and one with a time written twice. -/
theorem load_all_or_nothing_mixed :
    load (some (Json.ofMembers [("format", .text "json"), ("theme", .array [.null]),
      ("timeout_ms", .nat 7)]).compact) = ⟨some 7, some .json⟩ ∧
    load (some ((Json.ofMembers [("format", .text "json"), ("theme", .array [.null]),
      ("timeout_ms", .nat 7)]).compact ++ "\x7d")) = unset ∧
    load (some (Json.ofMembers [("format", .text "json"), ("timeout_ms", .nat 7),
      ("timeout_ms", .nat 7)]).compact) = unset := by
  have htheme : (Json.array [.null]).Writable := .array (by simp [Json.Writable.null])
  have hspells := Json.read?_eq_some_iff.1 (Json.read?_compact
    (j := .ofMembers [("format", .text "json"), ("theme", .array [.null]), ("timeout_ms", .nat 7)])
    (.members (by simp [Json.Writable.text, Json.writable_nat, htheme])))
  have htwice := Json.read?_eq_some_iff.1 (Json.read?_compact
    (j := .ofMembers [("format", .text "json"), ("timeout_ms", .nat 7), ("timeout_ms", .nat 7)])
    (.members (by simp [Json.Writable.text, Json.writable_nat])))
  have htimeout : Gives IsTimeout [.nat 7] (some 7) := .value rfl
  have hformat : Gives IsFormat [.text "json"] (some .json) := .value (.inl rfl)
  have hdescribes : Describes (.ofMembers [("format", .text "json"), ("theme", .array [.null]),
      ("timeout_ms", .nat 7)]) ⟨some 7, some .json⟩ := .object (by simp) htimeout hformat
  refine ⟨load_all_or_nothing.2.1 _ _ _ hspells hdescribes,
    load_all_or_nothing.2.2.2.2 _ _ _ _ hspells hdescribes fun hblank => ?_,
    load_all_or_nothing.2.2.2.1 _ _ htwice (.inr (.inl (.inl ?_)))⟩
  · exact absurd (hblank '}' (by decide)) (by decide)
  · decide

end Config

end Naskah
