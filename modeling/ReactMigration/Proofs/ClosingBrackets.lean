import Mathlib.Data.Nat.Find
import ReactMigration.Proofs.Bracketing

/-!
Where a bracket is closed.

The search for a closing bracket stops where nothing is awaited for the first time.  So it ends the shortest
balanced text that starts with the bracket, and it finds nothing exactly if no text from there on is balanced: a
bracket that is not awaited, or a string that stays open, is met by both in the same place.
-/

namespace ReactMigration.Script

open ReactMigration.Text

variable {p p' : Place} {c close : Char} {q : Option Char} {o cs : List Char} {start stop index j n : Nat}

/-! ### The first place where nothing is awaited -/

/-- Read from the place, nothing is awaited behind the character of this index. -/
def ClosedAt (p : Place) (cs : List Char) (n : Nat) : Prop :=
  n < cs.length ∧ scan p (cs.take (n + 1)) = some (.code, [])

/-- The first character behind which nothing is awaited. -/
def FirstClosed (p : Place) (cs : List Char) (n : Nat) : Prop :=
  ClosedAt p cs n ∧ ∀ m < n, ¬ ClosedAt p cs m

theorem not_closedAt_nil : ¬ ClosedAt p [] n :=
  fun closed => Nat.not_lt_zero n closed.1

theorem closedAt_zero : ClosedAt p (c :: cs) 0 ↔ p.next? c = some (.code, []) := by
  have one : scan p [c] = p.next? c := by
    rw [scan_cons]
    cases p.next? c with
    | none => rfl
    | some p' => rfl
  rw [← one]
  exact and_iff_right (Nat.zero_lt_succ cs.length)

theorem closedAt_succ (moved : p.next? c = some p') : ClosedAt p (c :: cs) (n + 1) ↔ ClosedAt p' cs n := by
  rw [ClosedAt, ClosedAt, List.length_cons, Nat.add_lt_add_iff_right, List.take_succ_cons, scan_cons, moved,
    Option.bind_some]

/-- Behind a bracket that is not awaited nothing is closed. -/
theorem not_closedAt_stuck (stuck : p.next? c = none) : ¬ ClosedAt p (c :: cs) n := by
  intro closed
  have read := closed.2
  rw [List.take_succ_cons, scan_cons, stuck] at read
  cases read

/-- Reading on after a character behind which something is awaited. -/
theorem firstClosed_next (moved : p.next? c = some p') (awaits : p' ≠ (.code, [])) :
    (∃ n, j = index + n ∧ FirstClosed p (c :: cs) n) ↔ ∃ n, j = index + 1 + n ∧ FirstClosed p' cs n := by
  have here : ¬ ClosedAt p (c :: cs) 0 := by
    rw [closedAt_zero, moved]
    exact fun same => awaits (Option.some.inj same)
  constructor
  · rintro ⟨n, rfl, closed, first⟩
    cases n with
    | zero => exact absurd closed here
    | succ n =>
        refine ⟨n, by omega, (closedAt_succ moved).mp closed, fun m before closed => ?_⟩
        exact first (m + 1) (Nat.succ_lt_succ before) ((closedAt_succ moved).mpr closed)
  · rintro ⟨n, rfl, closed, first⟩
    refine ⟨n + 1, by omega, (closedAt_succ moved).mpr closed, fun m before closed => ?_⟩
    cases m with
    | zero => exact here closed
    | succ m => exact first m (Nat.lt_of_succ_lt_succ before) ((closedAt_succ moved).mp closed)

/-- The search finds the first place where nothing is awaited. -/
theorem closingFrom?_eq_some_iff (awaits : o ≠ []) :
    closingFrom? q o index cs = some j ↔ ∃ n, j = index + n ∧ FirstClosed (.ofQuote? q, o) cs n := by
  have awaited {m : Mode} {o : List Char} (more : o ≠ []) : (m, o) ≠ (.code, []) :=
    fun same => more (congrArg Prod.snd same)
  have nowhere {p : Place} {cs : List Char} {index : Nat} (never : ∀ n, ¬ ClosedAt p cs n) :
      none = some j ↔ ∃ n, j = index + n ∧ FirstClosed p cs n := by
    constructor
    · intro found
      cases found
    · rintro ⟨n, -, closed, -⟩
      exact absurd closed (never n)
  fun_induction closingFrom? q o index cs with
  | case1 => exact nowhere fun n => not_closedAt_nil
  | case2 q o index =>
      refine nowhere fun n closed => ?_
      obtain rfl : n = 0 := Nat.lt_one_iff.mp closed.1
      cases closedAt_zero.mp closed
  | case3 q o index c cs ih =>
      have hides : Place.next? (.ofQuote? (some q), o) '\\' = some (.hidden q, o) := rfl
      have hidden : Place.next? (.hidden q, o) c = some (.ofQuote? (some q), o) := rfl
      exact (ih awaits).trans
        ((firstClosed_next hides (awaited awaits)).trans (firstClosed_next hidden (awaited awaits))).symm
  | case4 q o index c cs last hides ih =>
      exact (ih awaits).trans (firstClosed_next (next?_inside (ne_backslash last hides) o) (awaited awaits)).symm
  | case5 o index c cs quote ih =>
      have moved : Place.next? (.ofQuote? none, o) c = some (.ofQuote? (some c), o) := next?_quote quote o
      exact (ih awaits).trans (firstClosed_next moved (awaited awaits)).symm
  | case6 o index c cs quote close opener ih =>
      have moved : Place.next? (.ofQuote? none, o) c = some (.ofQuote? none, close :: o) := next?_opener opener o
      exact (ih (List.cons_ne_nil _ _)).trans (firstClosed_next moved (awaited (List.cons_ne_nil _ _))).symm
  | case7 index c cs quote opener closer top same =>
      obtain rfl := beq_iff_eq.mp same
      have ends : ClosedAt (.ofQuote? none, [top]) (top :: cs) 0 := by
        rw [closedAt_zero, Mode.ofQuote?, next?_closer closer]
        simp
      constructor
      · rintro ⟨⟩
        exact ⟨0, rfl, ends, fun m before => absurd before (Nat.not_lt_zero m)⟩
      · rintro ⟨n, rfl, -, first⟩
        obtain rfl : n = 0 := Nat.eq_zero_of_not_pos fun more => first 0 more ends
        rfl
  | case8 index c cs quote opener closer top other =>
      refine nowhere fun n => not_closedAt_stuck ?_
      rw [Mode.ofQuote?, next?_closer closer]
      simpa using other
  | case9 index c cs quote opener closer top below more same ih =>
      obtain rfl := beq_iff_eq.mp same
      have moved : Place.next? (.ofQuote? none, top :: below) top = some (.ofQuote? none, below) := by
        rw [Mode.ofQuote?, next?_closer closer]
        simp
      exact (ih more).trans (firstClosed_next moved (awaited more)).symm
  | case10 index c cs quote opener closer top below more other =>
      refine nowhere fun n => not_closedAt_stuck ?_
      rw [Mode.ofQuote?, next?_closer closer]
      simpa using other
  | case11 index c cs quote opener closer => exact absurd rfl awaits
  | case12 o index c cs quote opener closer ih =>
      have moved : Place.next? (.ofQuote? none, o) c = some (.ofQuote? none, o) :=
        next?_other opener (by simpa using closer) (by simpa using quote) o
      exact (ih awaits).trans (firstClosed_next moved (awaited awaits)).symm

/-! ### Balanced texts from a bracket on -/

/-- The text from the first place through the second one is balanced. -/
def Encloses (cs : List Char) (start stop : Nat) : Prop :=
  start ≤ stop ∧ stop < cs.length ∧ findUnbalanced (String.ofList (slice cs start (stop + 1))) = none

instance (cs : List Char) (start stop : Nat) : Decidable (Encloses cs start stop) :=
  inferInstanceAs (Decidable (_ ∧ _ ∧ _))

/-- The text from a bracket on is balanced where the bracket is no longer awaited behind it. -/
theorem encloses_iff (bracket : cs[start]? = some c) (opener : closer? c = some close) :
    Encloses cs start stop ↔ ∃ n, stop = start + 1 + n ∧ ClosedAt (.code, [close]) (cs.drop (start + 1)) n := by
  obtain ⟨inside, here⟩ := List.getElem?_eq_some_iff.mp bracket
  have from_bracket : cs.drop start = c :: cs.drop (start + 1) := by
    rw [List.drop_eq_getElem_cons inside, here]
  have balanced (n : Nat) : findUnbalanced (String.ofList (slice cs start (start + 1 + n))) = none ↔
      scan (.code, [close]) ((cs.drop (start + 1)).take n) = some (.code, []) := by
    rw [findUnbalanced_eq_none, String.toList_ofList, Balanced, slice, from_bracket,
      show start + 1 + n - start = n + 1 by omega, List.take_succ_cons, scan_cons, next?_opener opener,
      Option.bind_some]
  constructor
  · rintro ⟨le, short, read⟩
    obtain ⟨n, rfl⟩ := Nat.exists_eq_add_of_le le
    cases n with
    | zero =>
        -- the bracket alone awaits its own end
        cases (balanced 0).mp read
    | succ n =>
        refine ⟨n, by omega, by rw [List.length_drop]; omega, (balanced (n + 1)).mp ?_⟩
        rwa [show start + 1 + (n + 1) = start + (n + 1) + 1 by omega]
  · rintro ⟨n, rfl, short, read⟩
    rw [List.length_drop] at short
    refine ⟨by omega, by omega, ?_⟩
    rw [show start + 1 + n + 1 = start + 1 + (n + 1) by omega]
    exact (balanced (n + 1)).mpr read

/-- A bracket is closed at the end of the shortest balanced text that starts with it, and nowhere if there is no
such text. -/
theorem findClosing?_least (bracket : cs[start]? = some c) (opener : isOpener c = true) :
    (∀ stop, findClosing? cs start = some stop ↔
        Encloses cs start stop ∧ ∀ other, Encloses cs start other → stop ≤ other) ∧
      (findClosing? cs start = none ↔ ∀ stop, ¬ Encloses cs start stop) := by
  obtain ⟨close, opener⟩ := Option.isSome_iff_exists.mp opener
  obtain ⟨inside, here⟩ := List.getElem?_eq_some_iff.mp bracket
  have search : findClosing? cs start = closingFrom? none [close] (start + 1) (cs.drop (start + 1)) := by
    rw [findClosing?, List.drop_eq_getElem_cons inside, here, closingFrom?]
    simp [Reads.not_isQuote_of_closer? opener, opener]
  have found (stop : Nat) : findClosing? cs start = some stop ↔
      Encloses cs start stop ∧ ∀ other, Encloses cs start other → stop ≤ other := by
    rw [search, closingFrom?_eq_some_iff (List.cons_ne_nil _ _)]
    simp only [encloses_iff bracket opener]
    constructor
    · rintro ⟨n, rfl, closed, first⟩
      refine ⟨⟨n, rfl, closed⟩, ?_⟩
      rintro _ ⟨m, rfl, closed⟩
      have := Nat.le_of_not_lt fun before => first m before closed
      omega
    · rintro ⟨⟨n, rfl, closed⟩, least⟩
      refine ⟨n, rfl, closed, fun m before closed => ?_⟩
      have := least _ ⟨m, rfl, closed⟩
      omega
  refine ⟨found, fun lost stop closed => ?_, fun never => ?_⟩
  · have some_place : ∃ stop, Encloses cs start stop := ⟨stop, closed⟩
    have := (found (Nat.find some_place)).mpr ⟨Nat.find_spec some_place, fun other => Nat.find_min' some_place⟩
    rw [lost] at this
    cases this
  · cases search : findClosing? cs start with
    | none => rfl
    | some stop => exact absurd ((found stop).mp search).1 (never stop)

/-- Brackets within a string and behind a backslash do not count. -/
theorem findClosing?_least_call :
    "f(')\\'', [b])".toList[1]? = some '(' ∧ isOpener '(' = true ∧
      (findClosing? "f(')\\'', [b])".toList 1 = some 12 ∧ Encloses "f(')\\'', [b])".toList 1 12) ∧
      "(a]".toList[0]? = some '(' ∧ findClosing? "(a]".toList 0 = none ∧ ¬ Encloses "(a]".toList 0 2 := by
  have closed : findClosing? "f(')\\'', [b])".toList 1 = some 12 := by decide +kernel
  have lost : findClosing? "(a]".toList 0 = none := by decide +kernel
  refine ⟨by decide, by decide, ⟨closed, ?_⟩, by decide, lost, ?_⟩
  · exact (((findClosing?_least (c := '(') (by decide) (by decide)).1 12).mp closed).1
  · exact (findClosing?_least (c := '(') (by decide) (by decide)).2.mp lost 2

end ReactMigration.Script
