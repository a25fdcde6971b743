import Mathlib.Data.Nat.Find
import Naskah.Proofs.Token.Tokenize

/-
  A scanner that is asked in any order of its two calls. The scans of a text, one after another and
  also behind its errors and its end, are one fixed sequence: each of them passes a part of the text
  (`exists_passes`), and from some place on each meets the end (`exists_finish_from`). A call gives
  the next one of the sequence or nothing (`answers_answer`), so no order of calls loses one or
  gives one twice (`scanner_protocol`).
-/

namespace Naskah

/-! ## One scan -/

namespace Scan

/-- What a scan behind the text `passed` takes of the text, what it leaves, and what it meets. -/
inductive Passes (passed : List Char) : (taken rest : List Char) → Scan → Prop
  | finish {gap : List Char} (hgap : IsGap gap) :
      Passes passed gap [] (.finish (lineBehind (passed ++ gap).dropLast))
  | token {gap cs rest : List Char} {k : Token.Kind} (hgap : IsGap gap) (lexeme : Lexeme cs k)
      (longest : ∀ c ∈ rest.head?, k.grows c = false) :
      Passes passed (gap ++ cs) rest (.token ⟨k, lineBehind (passed ++ gap)⟩)
  /-- A character that starts no lexeme is taken alone. -/
  | invalid {gap rest : List Char} {c : Char} (hgap : IsGap gap)
      (stuck : Stuck (c :: rest) (lineBehind (passed ++ gap))
        (.invalidCharacter c (lineBehind (passed ++ gap)))) :
      Passes passed (gap ++ [c]) rest (.fault (.invalidCharacter c (lineBehind (passed ++ gap))))
  /-- Behind a quote that is not closed the whole text is taken. -/
  | unclosed {gap cs : List Char} (hgap : IsGap gap)
      (stuck : Stuck ('"' :: cs) (lineBehind (passed ++ gap))
        (.unclosedString (lineBehind (passed ++ gap)))) :
      Passes passed (gap ++ '"' :: cs) [] (.fault (.unclosedString (lineBehind (passed ++ gap))))

/-- A string that is not closed reaches to the end of the text. -/
theorem quoted_eq_none {r : List Char} {n : Nat} (h : quoted r = (none, n)) : n = r.length := by
  induction r using quoted.induct generalizing n with
  | case1 => exact (Prod.mk.inj h).2.symm
  | case2 r => cases h
  | case3 c r content m hm ih =>
    rw [quoted, hm] at h
    simp only [Prod.mk.injEq, Option.map_eq_none_iff] at h
    obtain ⟨rfl, rfl⟩ := h
    rw [ih hm, List.length_cons, List.length_cons]
  | case4 c r hq hb content m hm ih =>
    rw [quoted.eq_4 _ _ hq hb, hm] at h
    simp only [Prod.mk.injEq, Option.map_eq_none_iff] at h
    obtain ⟨rfl, rfl⟩ := h
    rw [ih hm, List.length_cons]

/-- How much of the text an error takes behind the first character. -/
theorem lexeme_error_length {ch : Char} {r : List Char} {line n : Nat} {e : LexError}
    (h : lexeme ch r line = (.error e, n)) :
    (e = .invalidCharacter ch line ∧ n = 0) ∨
      ch = '"' ∧ e = .unclosedString line ∧ n = r.length := by
  unfold lexeme at h
  split at h
  · cases h
  · split at h <;> cases h
  · split at h
    · cases h
    · split at h
      · next hq =>
        split at h
        · cases h
        · next hm =>
          cases h
          exact .inr ⟨hq, rfl, quoted_eq_none hm⟩
      · split at h
        · cases h
        · cases h
          exact .inl ⟨rfl, rfl⟩

/-- A scan that does not meet the end takes at least one character. -/
theorem Passes.taken_ne_nil {passed taken rest : List Char} {s : Scan} (h : Passes passed taken rest s)
    (hs : ∀ line, s ≠ .finish line) : taken ≠ [] := by
  cases h with
  | finish => exact absurd rfl (hs _)
  | token hgap hlexeme =>
    obtain ⟨c, cs, rfl, -⟩ := hlexeme.head
    exact List.append_ne_nil_of_right_ne_nil _ (List.cons_ne_nil _ _)
  | invalid => exact List.append_ne_nil_of_right_ne_nil _ (List.cons_ne_nil _ _)
  | unclosed => exact List.append_ne_nil_of_right_ne_nil _ (List.cons_ne_nil _ _)

/-- The end is met when nothing is left, and its line is that of the last character. -/
theorem Passes.finish_eq {passed taken rest : List Char} {line : Nat}
    (h : Passes passed taken rest (.finish line)) :
    rest = [] ∧ line = lineBehind (passed ++ taken).dropLast := by
  cases h
  exact ⟨rfl, rfl⟩

end Scan

namespace Cursor

theorem scan_error {gap r : List Char} {c : Char} {e : LexError} {n : Nat} (passed : List Char)
    (hg : IsGap gap) (hs : Scan.isSpace c = false)
    (hl : Scan.lexeme c r (lineBehind (passed ++ gap)) = (.error e, n)) :
    (behind passed (gap ++ c :: r)).scan = (.fault e, (behind (passed ++ gap) (c :: r)).skip (n + 1)) := by
  have h := skipSpaces_behind passed (c :: r) hg (by simpa using hs)
  simp only [scan, h, behind_rest, lineAhead_behind, hl]

/-- Every scan takes a part of the text. -/
theorem scan_passes (passed ahead : List Char) :
    ∃ taken rest s, ahead = taken ++ rest ∧
      (behind passed ahead).scan = (s, behind (passed ++ taken) rest) ∧
        Scan.Passes passed taken rest s := by
  have hsplit : ahead = ahead.takeWhile Scan.isSpace ++ ahead.dropWhile Scan.isSpace :=
    List.takeWhile_append_dropWhile.symm
  have hgap : IsGap (ahead.takeWhile Scan.isSpace) := Scan.forall_mem_takeWhile
  generalize ahead.takeWhile Scan.isSpace = gap at hsplit hgap
  match hr : ahead.dropWhile Scan.isSpace with
  | [] =>
    rw [hr, List.append_nil] at hsplit
    subst hsplit
    exact ⟨_, [], _, (List.append_nil _).symm, scan_gap passed hgap, .finish hgap⟩
  | c :: r =>
    rw [hr] at hsplit
    have hc : Scan.isSpace c = false := Scan.forall_head?_dropWhile c (by rw [hr]; rfl)
    subst hsplit
    match hl : Scan.lexeme c r (lineBehind (passed ++ gap)) with
    | (.ok k, n) =>
      obtain ⟨cs, rest, rfl, -, hlexeme, hlong⟩ := Scan.lexeme_eq_ok hl
      refine ⟨gap ++ c :: cs, rest, _, ?_, ?_, .token hgap hlexeme hlong⟩
      · rw [List.append_assoc]
        rfl
      · rw [← List.append_assoc passed, ← scan_lexeme passed hgap hlexeme hlong, List.append_assoc]
        rfl
    | (.error e, n) =>
      have hscan := scan_error passed hgap hc hl
      have hstuck := Scan.lexeme_eq_error hc hl
      rcases Scan.lexeme_error_length hl with ⟨rfl, rfl⟩ | ⟨rfl, rfl, rfl⟩
      · have hskip := skip_behind (passed ++ gap) [c] r
        refine ⟨gap ++ [c], r, _, ?_, ?_, .invalid hgap hstuck⟩
        · rw [List.append_assoc]
          rfl
        · rw [← List.append_assoc, ← hskip]
          exact hscan
      · have hskip := skip_behind (passed ++ gap) ('"' :: r) []
        refine ⟨gap ++ '"' :: r, [], _, (List.append_nil _).symm, ?_, .unclosed hgap hstuck⟩
        rw [← List.append_assoc, ← hskip, List.append_nil]
        exact hscan

end Cursor

/-! ## One scan after another -/

namespace Cursor

/-- The cursor after so many scans. -/
def later (c : Cursor) : Nat → Cursor
  | 0 => c
  | n + 1 => (c.later n).scan.2

/-- What the scan after so many others meets. -/
def met (c : Cursor) (n : Nat) : Scan :=
  (c.later n).scan.1

/-- What so many scans meet, one after another. -/
def meets (c : Cursor) (n : Nat) : List Scan :=
  (List.range n).map c.met

theorem later_succ (c : Cursor) (n : Nat) : c.later (n + 1) = c.scan.2.later n := by
  induction n with
  | zero => rfl
  | succ n ih => exact congrArg (·.scan.2) ih

theorem met_succ (c : Cursor) (n : Nat) : c.met (n + 1) = c.scan.2.met n := by
  rw [met, later_succ]
  rfl

theorem meets_succ (c : Cursor) (n : Nat) : c.meets (n + 1) = c.scan.1 :: c.scan.2.meets n := by
  rw [meets, List.range_succ_eq_map, List.map_cons, List.map_map]
  exact congrArg _ (List.map_congr_left fun i _ => c.met_succ i)

variable (source : String)

/-- After any number of scans the cursor has passed a part of the text. -/
theorem exists_behind (n : Nat) :
    ∃ passed ahead, source.toList = passed ++ ahead ∧ (start source).later n = behind passed ahead := by
  induction n with
  | zero => exact ⟨[], source.toList, rfl, start_eq_behind source⟩
  | succ n ih =>
    obtain ⟨passed, ahead, hsource, hlater⟩ := ih
    obtain ⟨taken, rest, s, rfl, hscan, -⟩ := scan_passes passed ahead
    refine ⟨passed ++ taken, rest, by rw [hsource, List.append_assoc], ?_⟩
    rw [later, hlater, hscan]

/-- Every scan, whatever came before it, takes what comes next in the text. -/
theorem exists_passes (n : Nat) :
    ∃ passed taken rest, source.toList = passed ++ (taken ++ rest) ∧
      (start source).later n = behind passed (taken ++ rest) ∧
      (start source).later (n + 1) = behind (passed ++ taken) rest ∧
      Scan.Passes passed taken rest ((start source).met n) := by
  obtain ⟨passed, ahead, hsource, hlater⟩ := exists_behind source n
  obtain ⟨taken, rest, s, rfl, hscan, hpasses⟩ := scan_passes passed ahead
  refine ⟨passed, taken, rest, hsource, hlater, ?_, ?_⟩
  · rw [later, hlater, hscan]
  · rwa [met, hlater, hscan]

/-- The line of the last character of the text. -/
theorem line_of_met_finish {n line : Nat} (h : (start source).met n = .finish line) :
    line = lineBehind source.toList.dropLast ∧ ((start source).later (n + 1)).rest = [] := by
  obtain ⟨passed, taken, rest, hsource, -, hnext, hpasses⟩ := exists_passes source n
  rw [h] at hpasses
  obtain ⟨rfl, rfl⟩ := hpasses.finish_eq
  rw [hsource, hnext, List.append_nil]
  exact ⟨rfl, rfl⟩

/-- Where nothing is left the end is met, and nothing is left behind it. -/
theorem met_of_rest_nil {n : Nat} (h : ((start source).later n).rest = []) :
    (start source).met n = .finish (lineBehind source.toList.dropLast) ∧
      ((start source).later (n + 1)).rest = [] := by
  obtain ⟨passed, taken, rest, -, hlater, -, hpasses⟩ := exists_passes source n
  rw [hlater, behind_rest, List.append_eq_nil_iff] at h
  match hm : (start source).met n with
  | .finish line =>
    obtain ⟨rfl, hrest⟩ := line_of_met_finish source hm
    exact ⟨rfl, hrest⟩
  | .token t | .fault e =>
    rw [hm] at hpasses
    exact absurd h.1 (hpasses.taken_ne_nil fun line hline => nomatch hline)

/-- Every scan that does not meet the end shortens what is left. -/
theorem later_rest_le (n : Nat) :
    ((start source).later n).rest = [] ∨
      ((start source).later n).rest.length + n ≤ source.toList.length := by
  induction n with
  | zero => exact .inr (Nat.le_refl _)
  | succ n ih =>
    rcases ih with hnil | hle
    · exact .inl (met_of_rest_nil source hnil).2
    · match hm : (start source).met n with
      | .finish line => exact .inl (line_of_met_finish source hm).2
      | .token t | .fault e =>
        have hlt : ((start source).later (n + 1)).rest.length < ((start source).later n).rest.length :=
          scan_shorter (Prod.ext hm rfl) fun line hline => nomatch hline
        exact .inr (by omega)

/-- The end is met over and over, and that from the scan on that meets it first. -/
theorem exists_finish_from :
    ∃ k ≤ source.toList.length, (∀ n < k, ∀ line, (start source).met n ≠ .finish line) ∧
      ∀ n, k ≤ n → (start source).met n = .finish (lineBehind source.toList.dropLast) := by
  have hlast : ((start source).later source.toList.length).rest = [] := by
    rcases later_rest_le source source.toList.length with hnil | hle
    · exact hnil
    · exact List.length_eq_zero_iff.1 (by omega)
  have hends : ∃ n, ∃ line, (start source).met n = .finish line :=
    ⟨_, _, (met_of_rest_nil source hlast).1⟩
  classical
  refine ⟨Nat.find hends, Nat.find_min' hends ⟨_, (met_of_rest_nil source hlast).1⟩,
    fun n hn line hline => Nat.find_min hends hn ⟨line, hline⟩, fun n hn => ?_⟩
  obtain ⟨line, hline⟩ := Nat.find_spec hends
  obtain ⟨rfl, hrest⟩ := line_of_met_finish source hline
  rcases Nat.eq_or_lt_of_le hn with heq | hlt
  · rw [← heq]
    exact hline
  · have hnil : ((start source).later n).rest = [] := by
      induction n, hlt using Nat.le_induction with
      | base => exact hrest
      | succ n hlt ih => exact (met_of_rest_nil source (ih (Nat.le_of_lt hlt))).2
    exact (met_of_rest_nil source hnil).1

end Cursor

/-! ## Tokenizing -/

namespace Feed

/-- Tokens that are met one after another are the first tokens of the text. -/
theorem tokensBehind_of_meets {c : Cursor} {ts : List Token}
    (h : c.meets ts.length = ts.map Scan.token) :
    tokensBehind c =
      (tokensBehind (c.later ts.length)).map fun (us, line) => (ts ++ us, line) := by
  induction ts generalizing c with
  | nil =>
    show tokensBehind c = (tokensBehind c).map _
    cases tokensBehind c <;> rfl
  | cons t ts ih =>
    rw [List.length_cons, Cursor.meets_succ, List.map_cons, List.cons.injEq] at h
    obtain ⟨hfirst, hmore⟩ := h
    rw [tokensBehind_token (Prod.ext hfirst rfl), ih hmore, List.length_cons, Cursor.later_succ]
    cases tokensBehind (c.scan.2.later ts.length) <;> rfl

/-- The tokens up to the end of the text or to its first error. -/
theorem exists_meets (c : Cursor) :
    ∃ ts : List Token, c.meets ts.length = ts.map Scan.token ∧ ∀ t, c.met ts.length ≠ .token t := by
  match hs : c.scan with
  | (.finish line, c') => exact ⟨[], rfl, fun t ht => nomatch (congrArg Prod.fst hs).symm.trans ht⟩
  | (.fault e, c') => exact ⟨[], rfl, fun t ht => nomatch (congrArg Prod.fst hs).symm.trans ht⟩
  | (.token t, c') =>
    obtain ⟨ts, hmeets, hend⟩ := exists_meets c'
    refine ⟨t :: ts, ?_, ?_⟩
    · rw [List.length_cons, Cursor.meets_succ, hs, hmeets, List.map_cons]
    · rw [List.length_cons, Cursor.met_succ, hs]
      exact hend
termination_by c.rest.length
decreasing_by exact Cursor.scan_shorter hs (by simp)

/-- Tokenizing gives what the scans meet, up to the end of the text or to the first error. -/
theorem tokensBehind_eq_iff (c : Cursor) :
    (∀ ts line, tokensBehind c = .ok (ts, line) ↔
      c.meets ts.length = ts.map Scan.token ∧ c.met ts.length = .finish line) ∧
    ∀ e, tokensBehind c = .error e ↔ ∃ ts : List Token,
      c.meets ts.length = ts.map Scan.token ∧ c.met ts.length = .fault e := by
  have hok {ts : List Token} {line : Nat} (hmeets : c.meets ts.length = ts.map Scan.token)
      (hend : c.met ts.length = .finish line) : tokensBehind c = .ok (ts, line) := by
    rw [tokensBehind_of_meets hmeets, tokensBehind_finish (Prod.ext hend rfl)]
    simp [Except.map]
  have herror {ts : List Token} {e : LexError} (hmeets : c.meets ts.length = ts.map Scan.token)
      (hend : c.met ts.length = .fault e) : tokensBehind c = .error e := by
    rw [tokensBehind_of_meets hmeets, tokensBehind_fault (Prod.ext hend rfl)]
    rfl
  obtain ⟨us, hmeets, hend⟩ := exists_meets c
  constructor
  · refine fun ts line => ⟨fun h => ?_, fun h => hok h.1 h.2⟩
    match hm : c.met us.length with
    | .token t => exact absurd hm (hend t)
    | .finish l =>
      rw [hok hmeets hm] at h
      cases h
      exact ⟨hmeets, hm⟩
    | .fault e =>
      rw [herror hmeets hm] at h
      cases h
  · refine fun e => ⟨fun h => ?_, fun ⟨ts, h⟩ => herror h.1 h.2⟩
    match hm : c.met us.length with
    | .token t => exact absurd hm (hend t)
    | .finish l =>
      rw [hok hmeets hm] at h
      cases h
    | .fault e' =>
      rw [herror hmeets hm] at h
      cases h
      exact ⟨us, hmeets, hm⟩

end Feed

/-! ## Calls in any order -/

namespace Scanner

/-- The two ways to ask a scanner for what it meets. -/
inductive Call where
  /-- Scans on, whatever was met before. -/
  | scan
  /-- Scans on unless this call has met the end or an error. -/
  | next
deriving DecidableEq, Repr

/-- The answer to a call, and the scanner afterwards. -/
def answer (s : Scanner) : Call → Option Scan × Scanner
  | .scan => (some s.scan.1, s.scan.2)
  | .next => s.next?

/-- The scanner after calls. -/
def asked (s : Scanner) (calls : List Call) : Scanner :=
  calls.foldl (fun s call => (s.answer call).2) s

/-- The calls with their answers. -/
def trace (s : Scanner) : List Call → List (Call × Option Scan)
  | [] => []
  | call :: calls => (call, (s.answer call).1) :: (s.answer call).2.trace calls

/-- What the answers of a trace met. -/
def results (trace : List (Call × Option Scan)) : List Scan :=
  trace.filterMap Prod.snd

/-- The answers of a trace to the one kind of calls. -/
def answers (call : Call) (trace : List (Call × Option Scan)) : List (Option Scan) :=
  (trace.filter (·.1 = call)).map Prod.snd

theorem answers_next_cons (a : Option Scan) (trace : List (Call × Option Scan)) :
    answers .next ((.next, a) :: trace) = a :: answers .next trace := rfl

/-- All that a call can do. -/
inductive Answers (s : Scanner) : Call → Option Scan → Scanner → Prop
  | scan : Answers s .scan (some s.cursor.scan.1) ⟨s.cursor.scan.2, s.finished⟩
  | idle (h : s.finished = true) : Answers s .next none s
  | token {t : Token} (h : s.finished = false) (hmet : s.cursor.scan.1 = .token t) :
      Answers s .next (some (.token t)) ⟨s.cursor.scan.2, false⟩
  | last {m : Scan} (h : s.finished = false) (hmet : s.cursor.scan.1 = m) (hm : ∀ t, m ≠ .token t) :
      Answers s .next (some m) ⟨s.cursor.scan.2, true⟩

theorem next?_token {s : Scanner} {t : Token} (h : s.finished = false)
    (hmet : s.cursor.scan.1 = .token t) : s.next? = (some (.token t), ⟨s.cursor.scan.2, false⟩) := by
  unfold next?
  rw [h, ← hmet]
  simp only [Bool.false_eq_true, if_false, hmet]

theorem next?_last {s : Scanner} {m : Scan} (h : s.finished = false) (hmet : s.cursor.scan.1 = m)
    (hm : ∀ t, m ≠ .token t) : s.next? = (some m, ⟨s.cursor.scan.2, true⟩) := by
  unfold next?
  rw [h]
  cases m with
  | token t => exact absurd rfl (hm t)
  | finish line => simp only [Bool.false_eq_true, if_false, hmet]
  | fault e => simp only [Bool.false_eq_true, if_false, hmet]

theorem answers_answer (s : Scanner) (call : Call) :
    Answers s call (s.answer call).1 (s.answer call).2 := by
  cases call with
  | scan => exact .scan
  | next =>
    show Answers s .next s.next?.1 s.next?.2
    cases h : s.finished with
    | true =>
      have hnext : s.next? = (none, s) := if_pos h
      rw [hnext]
      exact .idle h
    | false =>
      cases hmet : s.cursor.scan.1 with
      | token t =>
        rw [next?_token h hmet]
        exact .token h hmet
      | finish line =>
        have hm (t : Token) : Scan.finish line ≠ .token t := Scan.noConfusion
        rw [next?_last h hmet hm]
        exact .last h hmet hm
      | fault e =>
        have hm (t : Token) : Scan.fault e ≠ .token t := Scan.noConfusion
        rw [next?_last h hmet hm]
        exact .last h hmet hm

theorem asked_cons (s : Scanner) (call : Call) (calls : List Call) :
    s.asked (call :: calls) = (s.answer call).2.asked calls := rfl

/-- The results are the scans of the text one after another, none of them lost or given twice. -/
theorem results_trace (s : Scanner) (calls : List Call) :
    ∃ n, calls.count .scan ≤ n ∧ results (s.trace calls) = s.cursor.meets n ∧
      (s.asked calls).cursor = s.cursor.later n := by
  induction calls generalizing s with
  | nil => exact ⟨0, Nat.le_refl _, rfl, rfl⟩
  | cons call calls ih =>
    have hanswer := s.answers_answer call
    obtain ⟨n, hcount, hresults, hcursor⟩ := ih (s.answer call).2
    rw [trace, asked_cons]
    generalize s.answer call = p at hanswer hresults hcursor
    obtain ⟨a, s'⟩ := p
    have hscan (m : Scan) (hm : s.cursor.scan.1 = m) (hc : s'.cursor = s.cursor.scan.2) :
        ∃ k, (call :: calls).count .scan ≤ k ∧ results ((call, some m) :: s'.trace calls) =
          s.cursor.meets k ∧ (s'.asked calls).cursor = s.cursor.later k := by
      rw [hc] at hresults hcursor
      refine ⟨n + 1, ?_, ?_, ?_⟩
      · rw [List.count_cons]
        split <;> omega
      · rw [Cursor.meets_succ, hm, ← hresults]
        rfl
      · rw [Cursor.later_succ, ← hcursor]
    cases hanswer with
    | scan => exact hscan _ rfl rfl
    | idle => exact ⟨n, hcount, hresults, hcursor⟩
    | token _ hmet => exact hscan _ hmet rfl
    | last _ hmet => exact hscan _ hmet rfl

/-- Behind its last answer the iterator gives nothing. -/
theorem answers_next_finished (s : Scanner) (calls : List Call) (h : s.finished = true) :
    answers .next (s.trace calls) = List.replicate (calls.count .next) none := by
  induction calls generalizing s with
  | nil => rfl
  | cons call calls ih =>
    have hanswer := s.answers_answer call
    have hmore := ih (s.answer call).2
    rw [trace]
    generalize s.answer call = p at hanswer hmore
    obtain ⟨a, s'⟩ := p
    cases hanswer with
    | scan => exact hmore h
    | idle =>
      rw [answers_next_cons, hmore h, List.count_cons_self, List.replicate_succ]
    | token hrunning => exact absurd (hrunning.symm.trans h) (by decide)
    | last hrunning => exact absurd (hrunning.symm.trans h) (by decide)

/-- The iterator gives tokens, then the end or an error, if it gets there, and nothing behind it. -/
theorem answers_next (s : Scanner) (calls : List Call) (h : s.finished = false) :
    ∃ (ts : List Token) (tail : List (Option Scan)),
      answers .next (s.trace calls) = ts.map (fun t => some (.token t)) ++ tail ∧
      (tail = [] ∨ ∃ m k, (∀ t, m ≠ .token t) ∧ tail = some m :: List.replicate k none) := by
  induction calls generalizing s with
  | nil => exact ⟨[], [], rfl, .inl rfl⟩
  | cons call calls ih =>
    have hanswer := s.answers_answer call
    have hmore := ih (s.answer call).2
    have hlast := (s.answer call).2.answers_next_finished calls
    rw [trace]
    generalize s.answer call = p at hanswer hmore hlast
    obtain ⟨a, s'⟩ := p
    cases hanswer with
    | scan => exact hmore h
    | idle hfinished => exact absurd (hfinished.symm.trans h) (by decide)
    | @token t =>
      obtain ⟨ts, tail, hts, htail⟩ := hmore rfl
      refine ⟨t :: ts, tail, ?_, htail⟩
      rw [answers_next_cons, hts]
      rfl
    | @last m _ _ hm =>
      exact ⟨[], _, rfl, .inr ⟨m, _, hm, congrArg (List.cons (some m)) (hlast rfl)⟩⟩

/-- A call that is answered with nothing changes nothing. -/
theorem answer_none {s : Scanner} {call : Call} (h : (s.answer call).1 = none) :
    (s.answer call).2 = s := by
  have hanswer := s.answers_answer call
  rw [h] at hanswer
  generalize (s.answer call).2 = s' at hanswer ⊢
  cases hanswer
  rfl

end Scanner

/-! ## The whole protocol -/

/-- The scans of a text, one after another and behind errors too, pass the text part by part, and all
    but those at the end take something of it. Tokenizing gives them up to the first that meets the
    end or an error. -/
structure ScansThrough (source : String) : Prop where
  passes : ∀ n, ∃ passed taken rest, source.toList = passed ++ (taken ++ rest) ∧
    (Cursor.start source).later n = .behind passed (taken ++ rest) ∧
    (Cursor.start source).later (n + 1) = .behind (passed ++ taken) rest ∧
    Scan.Passes passed taken rest ((Cursor.start source).met n) ∧
    ((∀ line, (Cursor.start source).met n ≠ .finish line) → taken ≠ [])
  ends : ∃ k ≤ source.toList.length, (∀ n < k, ∀ line, (Cursor.start source).met n ≠ .finish line) ∧
    ∀ n, k ≤ n → (Cursor.start source).met n = .finish (lineBehind source.toList.dropLast)
  tokens : ∀ ts line, tokenize source = .ok (ts, line) ↔
    (Cursor.start source).meets ts.length = ts.map Scan.token ∧
      (Cursor.start source).met ts.length = .finish line
  fault : ∀ e, tokenize source = .error e ↔ ∃ ts : List Token,
    (Cursor.start source).meets ts.length = ts.map Scan.token ∧
      (Cursor.start source).met ts.length = .fault e

/-- What a scanner of a text answers to calls: the scans of the text in order, the end and its line
    after as many scans as the text has characters, on the other kind of calls no more than one
    answer that is no token, with nothing behind it; and a call without an answer takes nothing. -/
structure Scanner.Orderly (source : String) (calls : List Scanner.Call) : Prop where
  inOrder : ∃ n, results ((start source).trace calls) = (Cursor.start source).meets n ∧
    ((start source).asked calls).cursor = (Cursor.start source).later n
  ended : source.toList.length ≤ calls.count .scan →
    (((start source).asked calls).answer .scan).1 =
      some (.finish (lineBehind source.toList.dropLast))
  once : ∃ (ts : List Token) (tail : List (Option Scan)),
    answers .next ((start source).trace calls) = ts.map (fun t => some (.token t)) ++ tail ∧
    (tail = [] ∨ ∃ m k, (∀ t, m ≠ .token t) ∧ tail = some m :: List.replicate k none)
  idle : ∀ call, (((start source).asked calls).answer call).1 = none →
    (((start source).asked calls).answer call).2 = (start source).asked calls

/-- Whatever the order of its calls, a scanner hands out the scans of its text one after another. -/
theorem scanner_protocol (source : String) :
    ScansThrough source ∧ ∀ calls, Scanner.Orderly source calls := by
  obtain ⟨k, hk, hbefore, hends⟩ := Cursor.exists_finish_from source
  have htokens := Feed.tokensBehind_eq_iff (.start source)
  constructor
  · refine ⟨fun n => ?_, ⟨k, hk, hbefore, hends⟩, htokens.1, htokens.2⟩
    obtain ⟨passed, taken, rest, hsource, hlater, hnext, hpasses⟩ := Cursor.exists_passes source n
    exact ⟨passed, taken, rest, hsource, hlater, hnext, hpasses, hpasses.taken_ne_nil⟩
  · intro calls
    obtain ⟨n, hcount, hresults, hcursor⟩ := (Scanner.start source).results_trace calls
    refine ⟨⟨n, hresults, hcursor⟩, fun hlength => ?_,
      (Scanner.start source).answers_next calls rfl, fun _ => Scanner.answer_none⟩
    have hmet := hends n (Nat.le_trans hk (Nat.le_trans hlength hcount))
    rw [← hmet]
    exact congrArg (fun c => some (Cursor.scan c).1) hcursor

end Naskah
