import ReactMigration.Proofs.Bracketing

/-!
The parts of a text between separators outside brackets and quotes.

Joined by the separator the parts are the text again, and no part can be split any further.  A bar next to a bar
is no separator, and it finds its neighbour within its own part, as neither of the two splits.
-/

namespace ReactMigration.Script

open ReactMigration.Text

variable {separator c : Char} {previous q : Option Char} {depth : Nat} {cs first : List Char}
  {parts : List (List Char)}

/-! ### Bars -/

/-- A separator that does not split stands next to a bar. -/
theorem splitsHere_eq_false : splitsHere separator previous cs = false ↔
    separator = '|' ∧ (cs.head? = some '|' ∨ previous = some '|') := by
  rw [splitsHere, Bool.not_eq_false', Bool.and_eq_true, Bool.or_eq_true, beq_iff_eq, beq_iff_eq, beq_iff_eq]

/-- A bar behind a bar goes on with the part. -/
theorem splitParts_bar (depth : Nat) (cs : List Char) :
    splitParts '|' (some '|') none depth ('|' :: cs) = consPart '|' (splitParts '|' (some '|') none depth cs) := by
  simp [splitParts, isQuote, isOpener, closer?, isCloser, splitsHere]

/-- Only for a bar does it matter what comes before a text. -/
theorem splitParts_previous (other : separator = '|' → cs.head? ≠ some '|') (previous previous' : Option Char) :
    splitParts separator previous none depth cs = splitParts separator previous' none depth cs := by
  cases cs with
  | nil => rw [splitParts, splitParts]
  | cons c cs =>
      by_cases splits : c = separator
      · have bar : separator ≠ '|' := by
          intro bar
          exact other bar (congrArg some (splits.trans bar))
        rw [splitParts, splitParts]
        simp [splitsHere, bar]
      · rw [splitParts, splitParts]
        simp [splits]

/-! ### Parts of parts -/

/-- The parts are what stands between the separators. -/
theorem splitParts_joined (separator : Char) (previous q : Option Char) (depth : Nat) (cs : List Char) :
    ∃ first parts, splitParts separator previous q depth cs = first :: parts ∧
      cs = first ++ parts.flatMap (separator :: ·) := by
  have more {c : Char} {l : List (List Char)} {cs : List Char}
      (rest : ∃ first parts, l = first :: parts ∧ cs = first ++ parts.flatMap (separator :: ·)) :
      ∃ first parts, consPart c l = first :: parts ∧ c :: cs = first ++ parts.flatMap (separator :: ·) := by
    obtain ⟨first, parts, rfl, rfl⟩ := rest
    exact ⟨c :: first, parts, rfl, rfl⟩
  fun_induction splitParts separator previous q depth cs with
  | case1 => exact ⟨[], [], rfl, rfl⟩
  | case2 => exact ⟨_, [], rfl, rfl⟩
  | case3 previous q depth c cs ih => exact more (more ih)
  | case4 previous q depth c cs last hides ih => exact more ih
  | case5 previous depth c cs quote ih => exact more ih
  | case6 previous depth c cs quote opener ih => exact more ih
  | case7 previous depth c cs quote opener closer ih => exact more ih
  | case8 previous depth c cs quote opener closer splits ih =>
      obtain ⟨first, parts, same, rest⟩ := ih
      simp only [Bool.and_eq_true, beq_iff_eq] at splits
      refine ⟨[], first :: parts, by rw [same], ?_⟩
      rw [List.flatMap_cons, List.nil_append, List.cons_append, ← rest, splits.1.1]
  | case9 previous depth c cs quote opener closer splits ih => exact more ih

/-- The first part starts with the text, as far as it is not empty. -/
theorem head?_of_joined (joined : cs = first ++ parts.flatMap (separator :: ·)) {a : Char}
    (starts : first.head? = some a) : cs.head? = some a := by
  rw [joined, List.head?_append, starts]
  rfl

/-- The first part is not split any further where the text starts, and the others are not split anywhere. -/
theorem splitParts_parts (separator : Char) (previous q : Option Char) (depth : Nat) (cs : List Char) :
    ∃ first parts, splitParts separator previous q depth cs = first :: parts ∧
      splitParts separator previous q depth first = [first] ∧
      ∀ part ∈ parts, splitParts separator none none 0 part = [part] := by
  fun_induction splitParts separator previous q depth cs with
  | case1 previous q depth => exact ⟨[], [], rfl, by rw [splitParts], by simp⟩
  | case2 previous q depth => exact ⟨['\\'], [], rfl, by rw [splitParts], by simp⟩
  | case3 previous q depth c cs ih =>
      obtain ⟨first, parts, split, single, others⟩ := ih
      refine ⟨'\\' :: c :: first, parts, by rw [split]; rfl, ?_, others⟩
      rw [splitParts, single]
      rfl
  | case4 previous q depth c cs last hides ih =>
      obtain ⟨first, parts, split, single, others⟩ := ih
      have shown := ne_backslash last hides
      refine ⟨c :: first, parts, by rw [split]; rfl, ?_, others⟩
      rw [splitParts, single]
      · rfl
      all_goals simp_all
  | case5 previous depth c cs quote ih =>
      obtain ⟨first, parts, split, single, others⟩ := ih
      refine ⟨c :: first, parts, by rw [split]; rfl, ?_, others⟩
      rw [splitParts, if_pos quote, single]
      rfl
  | case6 previous depth c cs quote opener ih =>
      obtain ⟨first, parts, split, single, others⟩ := ih
      refine ⟨c :: first, parts, by rw [split]; rfl, ?_, others⟩
      rw [splitParts, if_neg quote, if_pos opener, single]
      rfl
  | case7 previous depth c cs quote opener closer ih =>
      obtain ⟨first, parts, split, single, others⟩ := ih
      refine ⟨c :: first, parts, by rw [split]; rfl, ?_, others⟩
      rw [splitParts, if_neg quote, if_neg opener, if_pos closer, single]
      rfl
  | case8 previous depth c cs quote opener closer splits ih =>
      obtain ⟨first, parts, split, single, others⟩ := ih
      simp only [Bool.and_eq_true, beq_iff_eq] at splits
      obtain ⟨⟨rfl, rfl⟩, here⟩ := splits
      have apart : c = '|' → first.head? ≠ some '|' := by
        rintro rfl bar
        obtain ⟨first', parts', split', joined⟩ := splitParts_joined '|' (some '|') none 0 cs
        obtain ⟨rfl, rfl⟩ := List.cons.inj (split'.symm.trans split)
        have next := head?_of_joined joined bar
        rw [splitsHere_eq_false.mpr ⟨rfl, .inl next⟩] at here
        cases here
      refine ⟨[], first :: parts, by rw [split], by rw [splitParts], fun part mem => ?_⟩
      obtain rfl | mem := List.mem_cons.mp mem
      · rw [splitParts_previous apart none (some c), single]
      · exact others part mem
  | case9 previous depth c cs quote opener closer whole ih =>
      obtain ⟨first, parts, split, single, others⟩ := ih
      have whole' : ¬(c == separator && depth == 0 && splitsHere separator previous first) = true := by
        intro splits
        simp only [Bool.and_eq_true, beq_iff_eq] at splits whole
        obtain ⟨⟨rfl, rfl⟩, here⟩ := splits
        obtain ⟨rfl, next | before⟩ := splitsHere_eq_false.mp (by simpa using whole)
        · -- the bar behind this one belongs to the same part
          obtain ⟨rest, rfl⟩ := List.head?_eq_some_iff.mp next
          rw [splitParts_bar] at split
          obtain ⟨first', parts', split', -⟩ := splitParts_joined '|' (some '|') none 0 rest
          rw [split'] at split
          obtain ⟨rfl, rfl⟩ := List.cons.inj split
          rw [splitsHere_eq_false.mpr ⟨rfl, .inl rfl⟩] at here
          cases here
        · rw [splitsHere_eq_false.mpr ⟨rfl, .inr before⟩] at here
          cases here
      refine ⟨c :: first, parts, by rw [split]; rfl, ?_, others⟩
      rw [splitParts, if_neg quote, if_neg opener, if_neg closer, if_neg whole', single]
      rfl

theorem intercalate_cons_flatMap (separator : Char) (first : List Char) (parts : List (List Char)) :
    [separator].intercalate (first :: parts) = first ++ parts.flatMap (separator :: ·) := by
  induction parts generalizing first with
  | nil => simp [List.intercalate]
  | cons second parts ih =>
      have step : [separator].intercalate (first :: second :: parts) =
          first ++ separator :: [separator].intercalate (second :: parts) := by
        simp [List.intercalate]
      rw [step, ih, List.flatMap_cons, List.cons_append]

/-- The parts of a text, joined by the separator, are the text; no part can be split; and the parts of a balanced
text are balanced. -/
theorem splitTopLevel_parts (separator : Char) (s : String) :
    (String.singleton separator).intercalate (splitTopLevel separator s) = s ∧
      (∀ part ∈ splitTopLevel separator s, splitTopLevel separator part = [part]) ∧
      (findUnbalanced s = none → ∀ part ∈ splitTopLevel separator s, findUnbalanced part = none) := by
  obtain ⟨first, parts, split, single, others⟩ := splitParts_parts separator none none 0 s.toList
  obtain ⟨first', parts', split', joined⟩ := splitParts_joined separator none none 0 s.toList
  obtain ⟨rfl, rfl⟩ := List.cons.inj (split'.symm.trans split)
  refine ⟨?_, fun part mem => ?_, fun balanced part mem => ?_⟩
  · rw [← String.toList_inj, String.toList_intercalate, splitTopLevel, split, List.map_map]
    have letters : String.toList ∘ String.ofList = id := funext fun cs => String.toList_ofList
    rw [letters, List.map_id, String.toList_singleton, intercalate_cons_flatMap, ← joined]
  · rw [splitTopLevel, split] at mem
    obtain ⟨cs, listed, rfl⟩ := List.mem_map.mp mem
    have whole : splitParts separator none none 0 cs = [cs] := by
      obtain rfl | listed := List.mem_cons.mp listed
      · exact single
      · exact others cs listed
    rw [splitTopLevel, String.toList_ofList, whole]
    rfl
  · have level := (findUnbalanced_eq_none.mp balanced).level
    exact findUnbalanced_eq_none.mpr (splitTopLevel_level level part mem [])

/-- Bars in brackets, in strings and next to bars do not split. -/
theorem splitTopLevel_parts_pipes :
    findUnbalanced "a || f(b | c) | d:'|'" = none ∧
      splitTopLevel '|' "a || f(b | c) | d:'|'" = ["a || f(b | c) ", " d:'|'"] ∧
      (∀ part ∈ splitTopLevel '|' "a || f(b | c) | d:'|'", splitTopLevel '|' part = [part]) ∧
      ∀ part ∈ splitTopLevel '|' "a || f(b | c) | d:'|'", findUnbalanced part = none := by
  have balanced : findUnbalanced "a || f(b | c) | d:'|'" = none := by decide +kernel
  obtain ⟨-, single, level⟩ := splitTopLevel_parts '|' "a || f(b | c) | d:'|'"
  exact ⟨balanced, by decide +kernel, single, level balanced⟩

end ReactMigration.Script
