import Naskah.Report
import Naskah.Proofs.Json.RoundTrip
import Naskah.Proofs.Text.ByteOrder

/-
  Reports as JSON. Both forms of a report read back as the same document, which has the output and one
  member for each binding, in the order of the bytes of the names (`Report.faithful`). A document says
  which text, boolean or finite number a name is bound to, so of two contexts with the same output and
  without other numbers the reports are equal iff the bindings are.
-/

namespace Naskah

open Numeral (Writing)

/-! ## Values -/

/-- What stands for a value in a report: a text or a boolean for itself, a numeral for the finite
    number that it is read as, and null for any other number. -/
inductive Value.Encodes : Value → Json → Prop
  | text (s : String) : Encodes (.text s) (.text s)
  | boolean (b : Bool) : Encodes (.boolean b) (.boolean b)
  | number {x : Float} {numeral : String} : x.isFinite = true →
      Numeral.read? numeral.toList = some x → Encodes (.number x) (.number numeral)
  | notFinite {x : Float} : x.isFinite = false → Encodes (.number x) .null

/-- A value that is no infinity and not "not a number". -/
def Value.IsFinite (v : Value) : Prop := ∀ x, v = .number x → x.isFinite = true

/-- The zero that is written in a report, without its sign. -/
def zeroWriting : Writing where
  whole := ['0']
  fraction := ['0']
  exponent := none
  isDigit_whole := List.forall_mem_singleton.2 rfl
  isDigit_fraction := List.forall_mem_singleton.2 rfl
  whole_ne_nil := List.cons_ne_nil _ _
  zero := fun _ => rfl

theorem toFloat_zeroWriting :
    zeroWriting.decimal.toFloat = Float.ofModel (Float.Model.pack (.zero .positive)) :=
  Writing.toFloat_zeros 1

/-- A finite number is written as a numeral that stands for it, also when it is zero. -/
theorem exists_render_finite {x : Float} (hx : x.isFinite = true) :
    ∃ (w : Writing) (negative : Bool), (jsonNumberLayout.render x).toList = w.signed negative ∧
      w.float negative = x := by
  cases hunpack : x.toModel.unpack with
  | notANumber =>
    have hx : x.toModel.unpack.isFinite = true := hx
    rw [hunpack] at hx
    cases hx
  | infinity s =>
    have hx : x.toModel.unpack.isFinite = true := hx
    rw [hunpack] at hx
    cases hx
  | finite s m e hm => exact Layout.exists_render jsonNumberLayout hunpack
  | zero s =>
    have hx : Float.ofModel (Float.Model.pack (.zero s)) = x := by
      rw [← hunpack, Binary.pack_unpack]
    cases s with
    | positive =>
      refine ⟨zeroWriting, false, ?_, toFloat_zeroWriting.trans hx⟩
      simp only [Layout.render, hunpack]
      rfl
    | negative =>
      refine ⟨zeroWriting, true, ?_, ?_⟩
      · simp only [Layout.render, hunpack]
        rfl
      · show -zeroWriting.decimal.toFloat = x
        rw [toFloat_zeroWriting, ← hx]
        rfl

namespace Value

theorem toJson_finite {x : Float} (hx : x.isFinite = true) :
    (number x).toJson = .number (jsonNumberLayout.render x) :=
  if_pos hx

theorem toJson_notFinite {x : Float} (hx : x.isFinite = false) : (number x).toJson = .null :=
  if_neg (by rw [hx]; decide)

theorem encodes_toJson (v : Value) : v.Encodes v.toJson := by
  cases v with
  | text s => exact .text s
  | boolean b => exact .boolean b
  | number x =>
    cases hx : x.isFinite with
    | true =>
      obtain ⟨w, negative, hchars, hfloat⟩ := exists_render_finite hx
      rw [toJson_finite hx]
      refine .number hx ?_
      rw [hchars, w.read?_signed, hfloat]
    | false =>
      rw [toJson_notFinite hx]
      exact .notFinite hx

theorem writable_toJson (v : Value) : v.toJson.Writable := by
  cases v with
  | text s => exact .text s
  | boolean b => exact .boolean b
  | number x =>
    cases hx : x.isFinite with
    | true =>
      obtain ⟨w, negative, hchars, -⟩ := exists_render_finite hx
      rw [toJson_finite hx]
      exact .number w negative hchars
    | false =>
      rw [toJson_notFinite hx]
      exact .null

/-- What stands for a finite value stands for no other. -/
theorem Encodes.unique {v v' : Value} {j : Json} (h : v.Encodes j) (h' : v'.Encodes j)
    (hv : v.IsFinite) : v = v' := by
  cases h with
  | text s => cases h'; rfl
  | boolean b => cases h'; rfl
  | number hx hread =>
    cases h' with
    | number hx' hread' => rw [Option.some.inj (hread.symm.trans hread')]
  | notFinite hx =>
    rw [hv _ rfl] at hx
    cases hx

end Value

/-! ## Bindings -/

namespace Bindings

theorem lookup_eq_none {name : String} {l : List (String × Value)} (h : ∀ e ∈ l, name < e.1) :
    l.lookup name = none := by
  induction l with
  | nil => rfl
  | cons e l ih =>
    obtain ⟨n, v⟩ := e
    have hne : name ≠ n := fun h0 => String.lt_irrefl n (h0 ▸ h (n, v) List.mem_cons_self)
    rw [lookup_entry_cons, if_neg hne]
    exact ih fun e he => h e (List.mem_cons_of_mem _ he)

/-- The first entry has the least name. -/
theorem not_lt_of_lookup {e : String × Value} {l : List (String × Value)} {name : String} {v : Value}
    (hl : (e :: l).Pairwise fun a b => a.1 < b.1) (h : (e :: l).lookup name = some v) :
    ¬ name < e.1 := by
  intro hlt
  have hfirst := (List.pairwise_cons.1 hl).1
  rw [lookup_eq_none] at h
  · cases h
  · intro e' he'
    rcases List.mem_cons.1 he' with rfl | he'
    · exact hlt
    · exact String.lt_trans hlt (hfirst e' he')

/-- Entries in the order of their names are determined by what is found in them. -/
theorem eq_of_lookup_eq {l l' : List (String × Value)} (hl : l.Pairwise fun a b => a.1 < b.1)
    (hl' : l'.Pairwise fun a b => a.1 < b.1) (h : ∀ name, l.lookup name = l'.lookup name) :
    l = l' := by
  have hself (e : String × Value) (l : List (String × Value)) :
      (e :: l).lookup e.1 = some e.2 := by
    rw [lookup_entry_cons, if_pos rfl]
  induction l generalizing l' with
  | nil =>
    cases l' with
    | nil => rfl
    | cons e l' => exact absurd ((h e.1).trans (hself e l')) (by rw [List.lookup_nil]; nofun)
  | cons e l ih =>
    cases l' with
    | nil => exact absurd ((h e.1).symm.trans (hself e l)) (by rw [List.lookup_nil]; nofun)
    | cons e' l' =>
      have hle := not_lt_of_lookup hl' ((h e.1).symm.trans (hself e l))
      have hge := not_lt_of_lookup hl ((h e'.1).trans (hself e' l'))
      have hname : e.1 = e'.1 := by
        by_cases hne : e.1 = e'.1
        · exact hne
        · exact absurd (lt_of_not_lt_of_ne hle hne) hge
      have hvalue : e.2 = e'.2 := by
        have he := h e.1
        rw [hself, hname, hself] at he
        exact Option.some.inj he
      obtain ⟨hfirst, hrest⟩ := List.pairwise_cons.1 hl
      obtain ⟨hfirst', hrest'⟩ := List.pairwise_cons.1 hl'
      rw [Prod.ext hname hvalue, ih hrest hrest' fun name => ?_]
      by_cases hn : name = e.1
      · rw [hn, lookup_eq_none hfirst, hname, lookup_eq_none hfirst']
      · have hentry := h name
        rwa [lookup_entry_cons, lookup_entry_cons, if_neg hn, if_neg (hname ▸ hn)] at hentry

/-- Bindings of the same names to the same values are equal. -/
theorem ext_get? {b b' : Bindings} (h : ∀ name, b.get? name = b'.get? name) : b = b' := by
  obtain ⟨l, hl⟩ := b
  obtain ⟨l', hl'⟩ := b'
  cases eq_of_lookup_eq hl hl' h
  rfl

/-- No name is bound to an infinity or to what is not a number. -/
def IsFinite (b : Bindings) : Prop := ∀ name v, b.get? name = some v → v.IsFinite

theorem isFinite_empty : empty.IsFinite := fun _ _ h => nomatch h

theorem IsFinite.set {b : Bindings} (h : b.IsFinite) (name : String) {v : Value} (hv : v.IsFinite) :
    (b.set name v).IsFinite := by
  intro n v' hget
  rw [get?_set] at hget
  split at hget
  · cases hget
    exact hv
  · exact h n v' hget

end Bindings

/-! ## Documents -/

theorem Json.ofMembers_injective {ms ms' : List (String × Json)}
    (h : Json.ofMembers ms = Json.ofMembers ms') : ms = ms' := by
  refine List.map_injective_iff.2 ?_ (Json.object.inj h)
  rintro ⟨n, j⟩ ⟨n', j'⟩ heq
  obtain ⟨hn, hj⟩ := Prod.mk.inj heq
  exact Prod.ext (Option.some.inj hn) hj

namespace Report

/-- One member for each binding, in the order of the bytes of the names. -/
structure Lists (members : List (String × Json)) (b : Bindings) : Prop where
  increasing : members.Pairwise fun m n => utf8Bytes m.1 < utf8Bytes n.1
  lookup : ∀ name, Option.Rel Value.Encodes (b.get? name) (members.lookup name)

/-- A text that is read as a report on a context: an object whose members are the output, entry for
    entry, and the bindings. -/
def Decodes (source : String) (ctx : Context) : Prop :=
  ∃ members, Lists members ctx.environment.bindings ∧
    Json.read? source = some (.ofMembers [("output", .array (ctx.output.toList.map .text)),
      ("variables", .ofMembers members)])

theorem writable_toJson (r : Report) : r.toJson.Writable := by
  refine .members fun m hm => ?_
  rcases List.mem_pair.1 hm with rfl | rfl
  · refine .array fun j hj => ?_
    obtain ⟨s, -, rfl⟩ := List.mem_map.1 hj
    exact .text s
  · refine .members fun m hm => ?_
    obtain ⟨⟨name, v⟩, -, rfl⟩ := List.mem_map.1 hm
    exact v.writable_toJson

theorem lookup_map_toJson (l : List (String × Value)) (name : String) :
    (l.map fun (n, v) => (n, v.toJson)).lookup name = (l.lookup name).map Value.toJson := by
  induction l with
  | nil => rfl
  | cons e l ih =>
    obtain ⟨n, v⟩ := e
    rw [List.map_cons, List.lookup_cons, List.lookup_cons, ih]
    cases name == n <;> rfl

theorem lists_toJson (b : Bindings) :
    Lists (b.entries.map fun (name, v) => (name, v.toJson)) b where
  increasing := List.pairwise_map.2 (b.sorted.imp utf8Bytes_lt)
  lookup name := by
    rw [lookup_map_toJson]
    show Option.Rel _ (b.entries.lookup name) _
    cases b.entries.lookup name with
    | none => exact .none
    | some v => exact .some v.encodes_toJson

/-- A text is a report on no other bindings of finite numbers. -/
theorem Decodes.get?_eq {source : String} {ctx ctx' : Context} (h : Decodes source ctx)
    (h' : Decodes source ctx')
    (hfinite : ctx.environment.bindings.IsFinite) (name : String) :
    ctx.environment.bindings.get? name = ctx'.environment.bindings.get? name := by
  obtain ⟨members, hlists, hread⟩ := h
  obtain ⟨members', hlists', hread'⟩ := h'
  have hdocument := Json.ofMembers_injective (Option.some.inj (hread.symm.trans hread'))
  obtain rfl : members = members' := by
    have htail := (List.cons.inj (List.cons.inj hdocument).2).1
    exact Json.ofMembers_injective (Prod.mk.inj htail).2
  have hvalue := hfinite name
  have hname := hlists.lookup name
  have hname' := hlists'.lookup name
  generalize ctx.environment.bindings.get? name = o at hvalue hname ⊢
  generalize ctx'.environment.bindings.get? name = o' at hname' ⊢
  generalize members.lookup name = j at hname hname'
  cases hname with
  | none => cases hname'; rfl
  | some hv => cases hname' with | some hv' => rw [hv.unique hv' (hvalue _ rfl)]

theorem toJson_congr {ctx ctx' : Context} (e e' : Option RuntimeError)
    (houtput : ctx.output = ctx'.output)
    (h : ∀ name, ctx.environment.bindings.get? name = ctx'.environment.bindings.get? name) :
    (ofContext ctx e).toJson = (ofContext ctx' e').toJson := by
  unfold toJson ofContext
  rw [houtput, Bindings.ext_get? h]

/-- The report on a context reads back from both of its forms as its output and its bindings, and of
    two contexts with the same output, and with finite numbers only, the reports are equal iff the
    bindings are. -/
theorem faithful (ctx ctx' : Context) (e e' : Option RuntimeError) :
    Decodes (ofContext ctx e).toJson.compact ctx ∧
    Decodes (ofContext ctx e).toJson.pretty ctx ∧
    (ctx.output = ctx'.output →
      ctx.environment.bindings.IsFinite → ctx'.environment.bindings.IsFinite →
      ((ofContext ctx e).toJson.compact = (ofContext ctx' e').toJson.compact ↔
        ∀ name, ctx.environment.bindings.get? name = ctx'.environment.bindings.get? name) ∧
      ((ofContext ctx e).toJson.pretty = (ofContext ctx' e').toJson.pretty ↔
        ∀ name, ctx.environment.bindings.get? name = ctx'.environment.bindings.get? name)) := by
  have hcompact (ctx : Context) (e : Option RuntimeError) :
      Decodes (ofContext ctx e).toJson.compact ctx :=
    ⟨_, lists_toJson ctx.environment.bindings, Json.read?_compact (writable_toJson _)⟩
  have hpretty (ctx : Context) (e : Option RuntimeError) :
      Decodes (ofContext ctx e).toJson.pretty ctx := by
    have hread := Json.read?_pretty (writable_toJson (ofContext ctx e)) Json.blanks_nil
    rw [String.ofList_nil, String.append_empty] at hread
    exact ⟨_, lists_toJson ctx.environment.bindings, hread⟩
  refine ⟨hcompact ctx e, hpretty ctx e, fun houtput hfinite _ => ⟨⟨fun h => ?_, fun h => ?_⟩,
    fun h => ?_, fun h => ?_⟩⟩
  · exact (hcompact ctx e).get?_eq (h ▸ hcompact ctx' e') hfinite
  · rw [toJson_congr e e' houtput h]
  · exact (hpretty ctx e).get?_eq (h ▸ hpretty ctx' e') hfinite
  · rw [toJson_congr e e' houtput h]

/-- Two contexts with the same bindings, made in different orders, and with the same output, in which
    a quote and a line break are escaped. -/
theorem faithful_orders :
    ∃ ctx ctx' : Context,
      ctx = (((Context.start []).print (.text "a\"b\n")).bind "b" (.number 2.5)).bind "a"
        (.text "x") ∧
      ctx' = (((Context.start []).bind "a" (.text "x")).bind "b" (.number 2.5)).print
        (.text "a\"b\n") ∧
      (ofContext ctx none).toJson.compact =
        "\x7b\"output\":[\"a\\\"b\\n\"],\"variables\":\x7b\"a\":\"x\",\"b\":2.5\x7d\x7d" ∧
      Decodes (ofContext ctx none).toJson.compact ctx ∧
      Decodes (ofContext ctx none).toJson.pretty ctx ∧
      (ofContext ctx none).toJson.compact = (ofContext ctx' none).toJson.compact ∧
      (ofContext ctx none).toJson.pretty = (ofContext ctx' none).toJson.pretty := by
  have hnumber : (Value.number 2.5).IsFinite := by
    rintro _ ⟨⟩
    decide +kernel
  have htext : (Value.text "x").IsFinite := nofun
  refine ⟨_, _, rfl, rfl, by decide +kernel, ?_⟩
  obtain ⟨hcompact, hpretty, hequal⟩ := faithful
    ((((Context.start []).print (.text "a\"b\n")).bind "b" (.number 2.5)).bind "a" (.text "x"))
    ((((Context.start []).bind "a" (.text "x")).bind "b" (.number 2.5)).print (.text "a\"b\n"))
    none none
  obtain ⟨hcompacts, hpretties⟩ := hequal rfl
    ((Bindings.isFinite_empty.set "b" hnumber).set "a" htext)
    ((Bindings.isFinite_empty.set "a" htext).set "b" hnumber)
  exact ⟨hcompact, hpretty, hcompacts.2 fun name => rfl, hpretties.2 fun name => rfl⟩

end Report

end Naskah
