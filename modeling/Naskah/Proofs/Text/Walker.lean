import Naskah.Proofs.Token.Tokenize

/-
  Walking through a text with one character of lookahead. A walker draws its characters one at a
  time and holds the one that it has looked at until that is passed, so a look ahead does change it.
  What is ahead of a walker is a cursor (`Walker.cursor`), and no call shows more of the walker than
  this: looking ahead keeps the cursor (`cursor_peek`) and passing a character advances it
  (`cursor_next`). Hence a walker tells of the place that it has come to what the text says,
  whatever calls have led it there (`walker_tells`).
-/

namespace Naskah

/-- A place in a text whose characters are drawn one at a time. -/
structure Walker where
  /-- The characters that have not been drawn. -/
  source : List Char
  /-- What was drawn by looking ahead and has not been passed since; `some none` is the end of the
      text. -/
  held : Option (Option Char)
  /-- The line of the character passed last; 1 before the first. -/
  line : Nat
  /-- Whether the character passed last is a line break. -/
  afterBreak : Bool
  /-- Nothing is left where the end of the text was drawn. -/
  ended : held = some none → source = [] := by simp

namespace Walker

def start (text : String) : Walker where
  source := text.toList
  held := none
  line := 1
  afterBreak := false

/-- Draws the next character unless it is held. -/
def hold (w : Walker) : Walker :=
  match w.held with
  | some _ => w
  | none =>
    { w with
      source := w.source.tail
      held := some w.source.head?
      ended := fun h => by rw [List.head?_eq_none_iff.1 (Option.some.inj h), List.tail_nil] }

/-- Takes the next character away; the line and the flag are those of the walker behind it. -/
def drop (w : Walker) (line : Nat) (afterBreak : Bool) : Walker where
  source := w.hold.source
  held := none
  line := line
  afterBreak := afterBreak

/-- Looks at the next character. -/
def peek (w : Walker) : Option Char × Walker :=
  (w.hold.held.join, w.hold)

/-- Passes a character: the character and the one after it. The line goes up when the character
    after a line break is passed. -/
def next (w : Walker) : Option (Char × Option Char) × Walker :=
  match w.hold.held.join with
  | none => (none, w.drop w.line w.afterBreak)
  | some ch =>
    let behind := w.drop (if w.afterBreak then w.line + 1 else w.line) (ch == '\n')
    (some (ch, behind.peek.1), behind.peek.2)

/-! ## What is ahead -/

/-- What is ahead of a walker. -/
def cursor (w : Walker) : Cursor :=
  ⟨w.held.elim [] Option.toList ++ w.source, w.line, w.afterBreak⟩

theorem cursor_start (text : String) : (start text).cursor = .start text := rfl

theorem held_hold (w : Walker) : w.hold.held = some w.cursor.peek := by
  obtain ⟨source, held, line, afterBreak, ended⟩ := w
  rcases held with _ | _ | ch
  · rfl
  · obtain rfl := ended rfl
    rfl
  · rfl

theorem cursor_hold (w : Walker) : w.hold.cursor = w.cursor := by
  obtain ⟨source, held, line, afterBreak, ended⟩ := w
  cases held with
  | none => cases source <;> rfl
  | some ch => rfl

theorem cursor_drop (w : Walker) (line : Nat) (afterBreak : Bool) :
    (w.drop line afterBreak).cursor = ⟨w.cursor.rest.tail, line, afterBreak⟩ := by
  obtain ⟨source, held, _, _, ended⟩ := w
  rcases held with _ | _ | ch
  · rfl
  · obtain rfl := ended rfl
    rfl
  · rfl

theorem peek_fst (w : Walker) : w.peek.1 = w.cursor.peek := by
  rw [peek, held_hold, Option.join_some]

/-- Looking ahead keeps what is ahead. -/
theorem cursor_peek (w : Walker) : w.peek.2.cursor = w.cursor :=
  w.cursor_hold

/-- Passing a character gives what the cursor gives. -/
theorem next_eq (w : Walker) :
    w.next.1 = w.cursor.next?.map Prod.fst ∧ w.next.2.cursor = w.cursor.advance := by
  rw [next, held_hold, Option.join_some]
  cases hrest : w.cursor.rest with
  | nil =>
    have hpeek : w.cursor.peek = none := by rw [Cursor.peek, hrest, List.head?_nil]
    rw [hpeek, Cursor.next?_eq, hpeek]
    refine ⟨rfl, ?_⟩
    rw [cursor_drop, Cursor.advance, hrest]
    show (⟨[], w.cursor.line, w.cursor.afterBreak⟩ : Cursor) = w.cursor
    rw [← hrest]
  | cons ch rest =>
    have hpeek : w.cursor.peek = some ch := by rw [Cursor.peek, hrest, List.head?_cons]
    have hdrop : (w.drop (if w.afterBreak then w.line + 1 else w.line) (ch == '\n')).cursor =
        w.cursor.advance := by
      rw [cursor_drop, Cursor.advance, hrest]
      rfl
    rw [hpeek, Cursor.next?_eq, hpeek, ← hdrop, ← peek_fst]
    exact ⟨rfl, cursor_peek _⟩

/-! ## Calls in any order -/

/-- What can be asked of a walker. -/
inductive Call where
  | next
  | peek
  | line
deriving DecidableEq, Repr

/-- The walker behind a call. -/
def behind (w : Walker) : Call → Walker
  | .next => w.next.2
  | .peek => w.peek.2
  | .line => w

/-- The walker behind calls, one after another. -/
def asked (w : Walker) (calls : List Call) : Walker :=
  calls.foldl behind w

/-- Only passing characters leads on in the text. -/
theorem cursor_asked (w : Walker) (calls : List Call) :
    (w.asked calls).cursor = w.cursor.skip (calls.count .next) := by
  induction calls generalizing w with
  | nil => rfl
  | cons call calls ih =>
    rw [asked, List.foldl_cons, ← asked, ih]
    cases call with
    | next => rw [List.count_cons_self, Cursor.skip, behind, w.next_eq.2]
    | peek => rw [List.count_cons_of_ne (by decide), behind, cursor_peek]
    | line => rw [List.count_cons_of_ne (by decide), behind]

end Walker

/-! ## What the text says of a place -/

/-- What can be told of the place behind `k` characters of a text: the character that is passed
    next with the one after it, the character ahead, and the line of the last character passed. -/
structure Tells (text : List Char) (k : Nat) (next : Option (Char × Option Char))
    (peek : Option Char) (line : Nat) : Prop where
  next : next = text[k]?.map fun ch => (ch, text[k + 1]?)
  peek : peek = text[k]?
  line : line = (text.take (min k text.length - 1)).count '\n' + 1

namespace Cursor

/-- So many characters of what is ahead, or all of it, have been passed behind a skip. -/
theorem skip_behind_eq (passed ahead : List Char) (k : Nat) :
    (behind passed ahead).skip k = behind (passed ++ ahead.take k) (ahead.drop k) := by
  induction k generalizing passed ahead with
  | zero => rw [skip, List.take_zero, List.append_nil, List.drop_zero]
  | succ k ih =>
    cases ahead with
    | nil =>
      -- At the end the cursor stays where it is.
      have hstay : (behind passed []).advance = behind passed [] := rfl
      rw [skip, hstay, ih, List.take_nil, List.take_nil, List.drop_nil, List.drop_nil]
    | cons ch ahead =>
      rw [skip, advance_behind, ih, List.append_assoc]
      rfl

theorem skip_start_tells (source : String) (k : Nat) :
    Tells source.toList k (((start source).skip k).next?.map Prod.fst) ((start source).skip k).peek
      ((start source).skip k).line := by
  have hskip : (start source).skip k = behind (source.toList.take k) (source.toList.drop k) := by
    rw [start_eq_behind, skip_behind_eq, List.nil_append]
  have hpeek : ((start source).skip k).peek = source.toList[k]? := by
    rw [hskip, peek, behind_rest, List.head?_drop]
  have hbehind : ((start source).skip k).advance.peek = source.toList[k + 1]? := by
    rw [hskip, peek, advance_rest, behind_rest, List.tail_drop, List.head?_drop]
  refine ⟨?_, hpeek, ?_⟩
  · rw [next?_eq, Option.map_map, hpeek, ← hbehind]
    rfl
  · have hmin : min (min k source.toList.length - 1) k = min k source.toList.length - 1 := by omega
    rw [hskip, behind_line, lineBehind, List.dropLast_eq_take, List.length_take, List.take_take, hmin]

end Cursor

/-- Where calls have led a walker of a text: it stands where the cursor of the text stands behind as
    many characters as were passed, and both tell of the place what the text says. A call that
    passes no character makes no difference to those that follow it. -/
structure Walker.Follows (source : String) (calls : List Walker.Call) : Prop where
  cursor : ((start source).asked calls).cursor = (Cursor.start source).skip (calls.count .next)
  tells : Tells source.toList (calls.count .next) ((start source).asked calls).next.1
    ((start source).asked calls).peek.1 ((start source).asked calls).line
  cursorTells : Tells source.toList (calls.count .next)
    (((Cursor.start source).skip (calls.count .next)).next?.map Prod.fst)
    ((Cursor.start source).skip (calls.count .next)).peek
    ((Cursor.start source).skip (calls.count .next)).line
  idle : ∀ call, call ≠ .next → ∀ more,
    ((start source).asked (calls ++ call :: more)).cursor =
      ((start source).asked (calls ++ more)).cursor

/-- Whatever its calls are, a walker tells what the text says of the place that it has come to. -/
theorem walker_tells (source : String) (calls : List Walker.Call) :
    Walker.Follows source calls := by
  have hcursor := (Walker.start source).cursor_asked calls
  have htells := Cursor.skip_start_tells source (calls.count .next)
  refine ⟨hcursor, ?_, htells, fun call hcall more => ?_⟩
  · rw [Walker.cursor_start] at hcursor
    rw [(Walker.next_eq _).1, Walker.peek_fst]
    show Tells _ _ _ _ (Walker.cursor _).line
    rw [hcursor]
    exact htells
  · rw [Walker.cursor_asked, Walker.cursor_asked, List.count_append, List.count_append,
      List.count_cons_of_ne hcall]

end Naskah
