import ReactMigration.Proofs.Bracketing
import ReactMigration.Proofs.MarkupRoundTrip

/-!
Where an interpolation ends.

A string of an expression ends with a quote that no backslash hides, but an interpolation is looked through
for its closing braces as if a backslash hid nothing.  Both readings agree as long as no string holds its own
quote behind a backslash.
-/

namespace ReactMigration.Template

open ReactMigration.Text
open ReactMigration.Script (Mode modeAfter isQuote)

/-- The quote that is open next, if a backslash hides nothing. -/
def nextQuote : Option Char → Char → Option Char
  | some q, c => if c == q then none else some q
  | none, c => if isQuote c then some c else none

/-- The quote that is open behind a text, if a backslash hides nothing. -/
def quoteBehind (q : Option Char) (x : List Char) : Option Char :=
  x.foldl nextQuote q

/-- Braces outside quotes close an interpolation at a place of a text. -/
def ClosesAt (q : Option Char) (cs : List Char) (n : Nat) : Prop :=
  quoteBehind q (cs.take n) = none ∧ startsWith (cs.drop n) closeBraces = true

theorem closesAt_zero {q : Option Char} {cs : List Char} :
    ClosesAt q cs 0 ↔ q = none ∧ startsWith cs closeBraces = true :=
  Iff.rfl

theorem closesAt_succ {q : Option Char} {c : Char} {cs : List Char} {n : Nat} :
    ClosesAt q (c :: cs) (n + 1) ↔ ClosesAt (nextQuote q c) cs n :=
  Iff.rfl

theorem startsWith_closeBraces (c : Char) (cs : List Char) :
    startsWith (c :: cs) closeBraces = (c == '\x7d' && cs.head? == some '\x7d') := by
  cases cs <;> by_cases first : c = '\x7d' <;> simp [startsWith, closeBraces, dropLead?, first]
  split <;> simp_all

/-- The search for the end stops at braces outside quotes, and else goes on behind the character. -/
theorem interpolationLength?_cons (q : Option Char) (n : Nat) (c : Char) (cs : List Char)
    [Decidable (ClosesAt q (c :: cs) 0)] :
    interpolationLength? q n (c :: cs) =
      if ClosesAt q (c :: cs) 0 then some n else interpolationLength? (nextQuote q c) (n + 1) cs := by
  cases q with
  | some q => simp [closesAt_zero, interpolationLength?, nextQuote]
  | none =>
      simp only [closesAt_zero, startsWith_closeBraces, interpolationLength?, nextQuote, true_and]
      by_cases quote : isQuote c = true
      · have other : c ≠ '\x7d' := by
          rintro rfl
          cases quote
        simp [quote, other]
      · simp [quote]

/-- An interpolation ends at the first place where braces outside quotes close it. -/
theorem interpolationLength?_eq_some_iff {q : Option Char} {n : Nat} {cs : List Char} (k : Nat) :
    interpolationLength? q n cs = some (n + k) ↔ ClosesAt q cs k ∧ ∀ j < k, ¬ClosesAt q cs j := by
  classical
  induction cs generalizing q n k with
  | nil => simp [interpolationLength?, ClosesAt, startsWith, closeBraces, dropLead?]
  | cons c cs ih =>
      rw [interpolationLength?_cons]
      split
      · rename_i here
        cases k with
        | zero => simp [here]
        | succ k => simpa using fun _ => ⟨0, by omega, here⟩
      · rename_i later
        cases k with
        | zero =>
            have behind : interpolationLength? (nextQuote q c) (n + 1) cs ≠ some n := by
              intro found
              obtain ⟨inside, rest, -, length⟩ := interpolationLength?_eq_some found
              omega
            simp [later, behind]
        | succ k =>
            rw [show n + (k + 1) = n + 1 + k by omega, ih k, closesAt_succ]
            refine and_congr_right fun _ => ⟨fun none_ j bound => ?_, fun none_ j bound => ?_⟩
            · cases j with
              | zero => exact later
              | succ j => exact none_ j (Nat.lt_of_succ_lt_succ bound)
            · exact none_ (j + 1) (Nat.succ_lt_succ bound)

/-! ### Expressions -/

/-- With every quote taken for a delimiter, the strings of the expression are closed and hold all of its pairs
of closing braces. -/
def Contained (e : List Char) : Prop :=
  quoteBehind none e = none ∧ ∀ u v, e = u ++ (closeBraces ++ v) → quoteBehind none u ≠ none

theorem isQuote_of_quoteBehind {e : List Char} {q : Char} (behind : quoteBehind none e = some q) : isQuote q = true := by
  have kept (o : Option Char) (sound : ∀ q ∈ o, isQuote q = true) (x : List Char) :
      ∀ q ∈ quoteBehind o x, isQuote q = true := by
    induction x generalizing o with
    | nil => exact sound
    | cons c x ih =>
        refine ih (nextQuote o c) fun q mem => ?_
        unfold nextQuote at mem
        split at mem
        · split at mem
          · cases mem
          · exact sound q mem
        · split at mem
          · cases mem
            assumption
          · cases mem
  exact kept none (by simp) e q behind

theorem closesAt_padded {e : List Char} {n : Nat} (inside : n ≤ e.length) :
    ClosesAt none (e ++ ' ' :: closeBraces) n ↔
      quoteBehind none (e.take n) = none ∧ ∃ v, e = e.take n ++ (closeBraces ++ v) := by
  rw [ClosesAt, List.take_append_of_le_length inside, List.drop_append_of_le_length inside, startsWith_iff]
  refine and_congr_right fun _ => ⟨fun ⟨rest, same⟩ => ?_, fun ⟨v, same⟩ => ?_⟩
  · match behind : e.drop n with
    | [] => simp [behind, closeBraces] at same
    | [_] => simp [behind, closeBraces] at same
    | a :: b :: v =>
        obtain ⟨rfl, rfl, -⟩ : a = '\x7d' ∧ b = '\x7d' ∧ v ++ ' ' :: closeBraces = rest := by
          simpa [behind, closeBraces] using same
        exact ⟨v, by rw [show closeBraces ++ v = e.drop n from behind.symm, List.take_append_drop]⟩
  · have behind : e.drop n = closeBraces ++ v := List.append_cancel_left ((List.take_append_drop n e).trans same)
    exact ⟨v ++ ' ' :: closeBraces, by rw [behind, List.append_assoc]⟩

theorem take_padded (e : List Char) : (e ++ ' ' :: closeBraces).take (e.length + 1) = e ++ [' '] := by
  rw [show e ++ ' ' :: closeBraces = (e ++ [' ']) ++ closeBraces by simp, List.take_left' (by simp)]

theorem drop_padded (e : List Char) : (e ++ ' ' :: closeBraces).drop (e.length + 1) = closeBraces := by
  rw [show e ++ ' ' :: closeBraces = (e ++ [' ']) ++ closeBraces by simp, List.drop_left' (by simp)]

/-- The expression is read as a whole exactly if it is contained. -/
theorem interpolationLength?_padded_iff (n : Nat) (e : List Char) :
    interpolationLength? none n (e ++ ' ' :: closeBraces) = some (n + (e.length + 1)) ↔ Contained e := by
  have ends : ClosesAt none (e ++ ' ' :: closeBraces) (e.length + 1) ↔ quoteBehind none e = none := by
    have blank : quoteBehind none (e ++ [' ']) = nextQuote (quoteBehind none e) ' ' := by simp [quoteBehind]
    rw [ClosesAt, take_padded, drop_padded, blank, and_iff_left (by decide)]
    cases behind : quoteBehind none e with
    | none => simp [nextQuote, isQuote]
    | some q =>
        have other : q ≠ ' ' := by
          rintro rfl
          cases isQuote_of_quoteBehind behind
        simp [nextQuote, other.symm]
  rw [interpolationLength?_eq_some_iff, ends, Contained]
  refine and_congr_right fun _ => ⟨fun before u v same open_ => ?_, fun inside n bound closes => ?_⟩
  · refine before u.length (Nat.lt_succ_of_le (by simp [same])) ((closesAt_padded (by simp [same])).mpr ?_)
    have front : e.take u.length = u := by simp [same]
    exact ⟨front.symm ▸ open_, v, front.symm ▸ same⟩
  · obtain ⟨open_, v, same⟩ := (closesAt_padded (Nat.le_of_lt_succ bound)).mp closes
    exact inside _ v same open_

/-! ### Hidden quotes -/

/-- The quote that is open at a place, if any. -/
def openQuote : Mode → Option Char
  | .code => none
  | .quoted q => some q
  | .hidden q => some q

/-- As long as a backslash hides no quote of its own string, quotes are open where they are without escapes. -/
theorem quoteBehind_openQuote {m : Mode} (sound : m.Sound) {x : List Char}
    (shown : ∀ u q v, x = u ++ q :: v → u.foldl Mode.next m ≠ .hidden q) :
    quoteBehind (openQuote m) x = openQuote (x.foldl Mode.next m) := by
  induction x generalizing m with
  | nil => rfl
  | cons c x ih =>
      have step : nextQuote (openQuote m) c = openQuote (m.next c) := by
        cases m with
        | code =>
            by_cases quote : isQuote c = true <;> simp [openQuote, nextQuote, Mode.next, quote]
        | quoted q =>
            by_cases hides : c = '\\'
            · have other : '\\' ≠ q := by
                rintro rfl
                cases sound
              simp [openQuote, nextQuote, Mode.next, hides, other]
            · by_cases ends : c = q
              · subst ends
                simp [openQuote, nextQuote, Mode.next, hides]
              · simp [openQuote, nextQuote, Mode.next, hides, ends]
        | hidden q =>
            have other : c ≠ q := by
              rintro rfl
              exact shown [] c x rfl rfl
            simp [openQuote, nextQuote, Mode.next, other]
      have rest := ih (sound.next c) fun u q v same => shown (c :: u) q v (by rw [same, List.cons_append])
      rw [List.foldl_cons, ← rest, ← step]
      rfl

/-- An expression with closing braces in strings only is contained if no backslash hides a quote of its own
string. -/
theorem contained_of_shown {e : List Char} (balanced : Script.Balanced e)
    (bare : ∀ u v, e = u ++ (closeBraces ++ v) → modeAfter u ≠ .code)
    (shown : ∀ u q v, e = u ++ q :: v → modeAfter u ≠ .hidden q) : Contained e := by
  have agree {u v : List Char} (same : e = u ++ v) : quoteBehind none u = openQuote (modeAfter u) := by
    refine quoteBehind_openQuote (m := .code) trivial fun w q z inner => shown w q (z ++ v) ?_
    rw [same, inner, List.append_assoc, List.cons_append]
  refine ⟨?_, fun u v same => ?_⟩
  · rw [agree (List.append_nil e).symm]
    rw [modeAfter, ← Script.scan_mode balanced]
    rfl
  · rw [agree same]
    cases mode : modeAfter u with
    | code => exact (bare u v same mode).elim
    | quoted q => simp [openQuote]
    | hidden q => simp [openQuote]

/-! ### Templates of one interpolation -/

/-- A contained expression is read between its braces. -/
theorem readInterpolation_padded {e : String} {c : Cursor} (contained : Contained e.toList) (shows : trim e ≠ "")
    (after : c.after = openBraces ++ (' ' :: (e.toList ++ ' ' :: closeBraces))) :
    ∃ d, d.after = [] ∧
      readInterpolation c =
        .ok (.interpolation (trim e) (parseBoundValue (trim e) (some (positionOf c))) (positionOf c), d) := by
  classical
  have body : c.after.drop 2 = ' ' :: (e.toList ++ ' ' :: closeBraces) := by
    rw [after]
    rfl
  have length : interpolationLength? none 0 (' ' :: (e.toList ++ ' ' :: closeBraces)) = some (e.toList.length + 2) := by
    have other : ¬ClosesAt none (' ' :: (e.toList ++ ' ' :: closeBraces)) 0 := by
      simp [closesAt_zero, startsWith_closeBraces]
    rw [interpolationLength?_cons, if_neg other, show nextQuote none ' ' = none from rfl,
      show e.toList.length + 2 = 0 + 1 + (e.toList.length + 1) by omega]
    exact (interpolationLength?_padded_iff _ _).mpr contained
  have own : trim (String.ofList ((' ' :: (e.toList ++ ' ' :: closeBraces)).take (e.toList.length + 2))) = trim e := by
    rw [List.take_succ_cons, take_padded, trim, String.toList_ofList, stripWith_between rfl rfl, trim]
  refine ⟨c.advance (e.toList.length + 2 + 4), ?_, ?_⟩
  · have whole : c.after = (openBraces ++ (' ' :: (e.toList ++ ' ' :: closeBraces))) ++ [] := by simp [after]
    have reached := (Cursor.spans_advance whole).remaining whole
    rw [← reached]
    simp [openBraces, closeBraces]
  · unfold readInterpolation
    rw [body, length]
    simp only [own, beq_eq_false_iff_ne.mpr shows]
    rfl

/-- The template that shows one expression. -/
theorem parse_interpolation {e : String} (contained : Contained e.toList) (shows : trim e ≠ "") :
    parse ("\x7b\x7b " ++ e ++ " \x7d\x7d") =
      .ok [.interpolation (trim e) (parseBoundValue (trim e) (some (positionOf (.start []))))
        (positionOf (.start []))] := by
  have braces : "\x7b\x7b ".toList = openBraces ++ [' '] ∧ " \x7d\x7d".toList = ' ' :: closeBraces := ⟨rfl, rfl⟩
  have letters : ("\x7b\x7b " ++ e ++ " \x7d\x7d").toList = openBraces ++ (' ' :: (e.toList ++ ' ' :: closeBraces)) := by
    simp [braces]
  have visible : isBlankText ("\x7b\x7b " ++ e ++ " \x7d\x7d") = false := by
    rw [isBlankText, letters]
    rfl
  unfold parse parseWithin
  rw [visible, if_neg (by simp), letters]
  generalize whole : openBraces ++ (' ' :: (e.toList ++ ' ' :: closeBraces)) = cs
  obtain ⟨d, empty, read⟩ := readInterpolation_padded (c := .start cs) contained shows whole.symm
  have opens : opensInterpolation (Cursor.start cs).after = true := startsWith_iff.mpr ⟨_, whole.symm⟩
  have inside : (Cursor.start cs).after = '\x7b' :: '\x7b' :: (' ' :: (e.toList ++ ' ' :: closeBraces)) := whole.symm
  obtain ⟨fuel, rounds⟩ : ∃ fuel, cs.length = fuel + 1 := ⟨_, congrArg List.length inside⟩
  have text : readText (fuel + 1 + 1) [] (.start cs) (.start cs) =
      .ok ([.interpolation (trim e) (parseBoundValue (trim e) (some (positionOf (.start cs))))
        (positionOf (.start cs))], d) := by
    rw [readText, if_neg (by simp [inside]), if_pos opens, read]
    simp only [textBetween_self, List.append_nil]
    rw [readText_ends (by simp [empty]) (.inl empty), textBetween_self]
    rfl
  have closed : ClosedBy none [] [] := ⟨rfl, rfl⟩
  obtain ⟨_, done, -⟩ := readNodes_closed fuel [.interpolation (trim e)
    (parseBoundValue (trim e) (some (positionOf (.start cs)))) (positionOf (.start cs))] closed empty
  have textual : endsText (Cursor.start cs).after = false := by
    rw [inside]
    rfl
  rw [rounds, readNodes_of_readText none [] (by simp [inside]) textual text, List.append_nil, List.reverse_singleton,
    done]
  rfl

/-- The search for the end of an interpolation finds the end of an expression that holds closing braces in its
strings only, exactly if the expression is also contained where a backslash hides nothing; so it is if no
string holds its own quote behind a backslash.  Then the template is read as this one interpolation. -/
theorem interpolationLength?_balanced {e : String} (balanced : Script.findUnbalanced e = none)
    (bare : ∀ u v, e.toList = u ++ (closeBraces ++ v) → modeAfter u ≠ .code) :
    (interpolationLength? none 0 (e ++ " \x7d\x7d").toList = some (e.length + 1) ↔ Contained e.toList) ∧
      ((∀ u q v, e.toList = u ++ q :: v → modeAfter u ≠ .hidden q) → Contained e.toList) ∧
      (Contained e.toList → trim e ≠ "" →
        parse ("\x7b\x7b " ++ e ++ " \x7d\x7d") =
          .ok [.interpolation (trim e) (parseBoundValue (trim e) (some (positionOf (.start []))))
            (positionOf (.start []))]) := by
  have letters : (e ++ " \x7d\x7d").toList = e.toList ++ ' ' :: closeBraces := by
    simp [show " \x7d\x7d".toList = ' ' :: closeBraces from rfl]
  refine ⟨?_, fun shown => contained_of_shown (Script.findUnbalanced_eq_none.mp balanced) bare shown,
    fun contained shows => parse_interpolation contained shows⟩
  rw [letters, ← interpolationLength?_padded_iff 0, Nat.zero_add, String.length_toList]

/-- Braces within a string, and a quote of another kind behind a backslash. -/
theorem interpolationLength?_balanced_marks :
    Script.findUnbalanced "go(' \x7d\x7d \"', \"\\'\", \x7bb: 1\x7d)" = none ∧
      interpolationLength? none 0 ("go(' \x7d\x7d \"', \"\\'\", \x7bb: 1\x7d)" ++ " \x7d\x7d").toList = some 26 ∧
      ∃ value p, parse ("\x7b\x7b " ++ "go(' \x7d\x7d \"', \"\\'\", \x7bb: 1\x7d)" ++ " \x7d\x7d") =
        .ok [.interpolation "go(' \x7d\x7d \"', \"\\'\", \x7bb: 1\x7d)" value p] := by
  generalize written : "go(' \x7d\x7d \"', \"\\'\", \x7bb: 1\x7d)" = e
  have balanced : Script.findUnbalanced e = none := written ▸ by decide +kernel
  have own : trim e = e := written ▸ by decide +kernel
  have length : e.length = 25 := written ▸ by decide +kernel
  have places : ∀ n < 25, (startsWith (e.toList.drop n) closeBraces = true → modeAfter (e.toList.take n) ≠ .code) ∧
      ((e.toList.drop n).head?.all fun q => modeAfter (e.toList.take n) != .hidden q) = true :=
    written ▸ by decide +kernel
  have place {u v : List Char} (same : e.toList = u ++ v) (more : v ≠ []) : u.length < 25 := by
    have := congrArg List.length same
    have := List.length_pos_iff.mpr more
    simp only [List.length_append, String.length_toList] at *
    omega
  obtain ⟨found, shown, read⟩ := interpolationLength?_balanced balanced fun u v same => by
    have here := (places u.length (place same (by simp [closeBraces]))).1
    rw [same, List.drop_left, List.take_left] at here
    exact here (startsWith_iff.mpr ⟨v, rfl⟩)
  have contained := shown fun u q v same => by
    have here := (places u.length (place same (by simp))).2
    rw [same, List.drop_left, List.take_left] at here
    simpa using here
  refine ⟨balanced, by rw [found.mpr contained, length], _, _, (read contained ?_).trans (by rw [own])⟩
  rw [own, ← written]
  decide

/-- A quote behind a backslash ends its string where the end of the interpolation is searched for. -/
theorem interpolationLength?_escapedQuote :
    Script.findUnbalanced "'\\''" = none ∧
      (∀ u v, "'\\''".toList = u ++ (closeBraces ++ v) → modeAfter u ≠ .code) ∧
      interpolationLength? none 0 ("'\\''" ++ " \x7d\x7d").toList = none ∧
      parse ("\x7b\x7b " ++ "'\\''" ++ " \x7d\x7d") =
        .error (markupError "Unterminated interpolation '\x7b\x7b'" (.start []) none) := by
  have refused : (match parse ("\x7b\x7b " ++ "'\\''" ++ " \x7d\x7d") with
      | .ok _ => none
      | .error e => some e) = some (markupError "Unterminated interpolation '\x7b\x7b'" (.start []) none) := by
    decide +kernel
  refine ⟨by decide +kernel, fun u v same => ?_, by decide +kernel, ?_⟩
  · have mem : '\x7d' ∈ "'\\''".toList := by
      rw [same]
      simp [closeBraces]
    exact absurd mem (by decide)
  · split at refused
    · cases refused
    · rename_i outcome
      rw [outcome, Option.some.inj refused]

end ReactMigration.Template
