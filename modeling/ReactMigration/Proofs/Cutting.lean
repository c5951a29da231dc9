import ReactMigration.Proofs.Bracketing
import ReactMigration.Proofs.StateWrites

/-!
Passes that keep a balanced text balanced.

A pass that cuts out whole calls or writes does so round by round: each cut takes a level stretch out of code and
puts a level one in.
-/

namespace ReactMigration.Recast

open ReactMigration.Text
open ReactMigration.Text.Pattern (Captures)
open ReactMigration.Script

variable {p q : Pattern} {c d : Cursor} {m : Match} {x y : List Char}

/-! ### The text around a cursor -/

/-- The whole text around a cursor. -/
def around (c : Cursor) : List Char :=
  c.before.reverse ++ c.after

/-- Where a cursor stands. -/
def modeAt (c : Cursor) : Mode :=
  modeAfter c.before.reverse

theorem around_spans (spans : c.Spans x d) : around d = around c := by
  simp [around, spans.before, spans.after]

theorem modeAt_spans (spans : c.Spans x d) : modeAt d = x.foldl Mode.next (modeAt c) := by
  simp [modeAt, modeAfter, spans.before]

theorem spans_chars (spans : c.Spans x d) (spans' : c.Spans y d) : x = y :=
  List.append_cancel_right (spans.after.symm.trans spans'.after)

/-! ### What patterns take -/

/-- All that a pattern takes. -/
def TakesOnly (p : Pattern) (good : List Char → Prop) : Prop :=
  ∀ ⦃c g d h x⦄, p.Takes c g d h → c.Spans x d → good x

theorem TakesOnly.chars {good : List Char → Prop} (only : TakesOnly p good) (found : p.matchAt? c = some m) :
    good m.chars := by
  obtain ⟨taken, spans, -⟩ := Pattern.matchAt?_eq_some found
  exact only taken spans

theorem TakesOnly.seq {good good' good'' : List Char → Prop} (first : TakesOnly p good) (second : TakesOnly q good')
    (both : ∀ x y, good x → good' y → good'' (x ++ y)) : TakesOnly (p ++ q) good'' := by
  intro c g d h x taken spans
  obtain ⟨e, i, taken, taken'⟩ := Pattern.seq_takes.mp taken
  obtain ⟨y, before⟩ := taken.spans
  obtain ⟨z, behind⟩ := taken'.spans
  rw [spans_chars spans (before.trans behind)]
  exact both y z (first taken before) (second taken' behind)

theorem takesOnly_text (s : String) : TakesOnly (.text s) (· = s.toList) := by
  intro c g d h x taken spans
  exact spans_chars spans (Pattern.text_takes.mp taken).1

theorem takesOnly_boundary : TakesOnly .boundary (· = []) := by
  intro c g d h x taken spans
  obtain ⟨rfl, -⟩ := Pattern.boundary_takes.mp taken
  exact spans_chars spans (.refl _)

/-! ### Cutting round by round -/

/-- Some rounds of a step, as long as it goes on. -/
def rounds (step : Cursor → Option Cursor) : Nat → Cursor → Cursor
  | 0, c => c
  | n + 1, c =>
      match step c with
      | none => c
      | some d => rounds step n d

/-- What every fair step keeps, all rounds keep. -/
theorem rounds_keep {step : Cursor → Option Cursor} {fair holds : Cursor → Prop}
    (each : ∀ {c d}, fair c → step c = some d → holds c → holds d) {n : Nat}
    (fairly : ∀ k < n, fair (rounds step k c)) (start : holds c) : holds (rounds step n c) := by
  induction n generalizing c with
  | zero => exact start
  | succ n ih =>
      rw [rounds]
      cases stepped : step c with
      | none => exact start
      | some d =>
          refine ih (fun k less => ?_) (each (fairly 0 (Nat.succ_pos n)) stepped start)
          have further := fairly (k + 1) (Nat.succ_lt_succ less)
          rwa [rounds, stepped] at further

/-- A match that is found stands in code. -/
def FindsInCode (p : Pattern) (c : Cursor) : Prop :=
  ∀ m ∈ p.searchAt? c, modeAt (startOf c m) = .code

/-- Exchanging a level stretch of code for another one keeps the text balanced. -/
theorem exchange_balanced {before old new rest : List Char} (mode : modeAfter before = .code) (level : Level old)
    (level' : Level new) (balanced : Balanced (before ++ (old ++ rest))) : Balanced (before ++ (new ++ rest)) := by
  have same : Same (before.foldl Mode.next .code) old new := by
    rw [show before.foldl Mode.next .code = .code from mode]
    exact level.same level'
  exact (scan_exchange same []).symm.trans balanced

/-- One round of replacing writes of state. -/
def writeStep (state : Table String) (c : Cursor) : Option Cursor :=
  (memberAccess.searchAt? c).map fun m =>
    match writeOf? state m with
    | none => m.rest
    | some (front, replacement, after) => writeAt (startOf c m) (front ++ replacement) after

theorem stateWritesWithin_eq (state : Table String) (props : List String) (n : Nat) (c : Cursor)
    (notes : RecastNotes) :
    ((stateWritesWithin state props n c).run notes).1 = rounds (writeStep state) n c := by
  induction n generalizing c notes with
  | zero => rfl
  | succ n ih =>
      obtain ⟨notes', value⟩ := @stateWritesWithin_succ state props c n notes
      rw [value, rounds, writeStep]
      cases memberAccess.searchAt? c with
      | none => rfl
      | some m =>
          dsimp only [Option.map_some]
          cases writeOf? state m with
          | none => exact ih _ _
          | some write => exact ih _ _

/-! ### Calls that are found -/

/-- A call that is found, with its arguments. -/
theorem call_found {inner after : List Char} (opens : TakesOnly p (Turns [] · [')'])) (found : p.searchAt? c = some m)
    (closed : enclosed? '(' m.rest.after = some (inner, after)) :
    around c = (startOf c m).before.reverse ++ ((m.chars ++ (inner ++ [')'])) ++ after) ∧
      Level (m.chars ++ (inner ++ [')'])) ∧ Level inner := by
  obtain ⟨gap, d, toMatch, found, -⟩ := Pattern.searchAt?_eq_some found
  obtain ⟨-, spans, start, -⟩ := Pattern.matchAt?_eq_some found
  obtain ⟨rest, level⟩ := enclosed?_eq_some closed
  have close : Turns [')'] [')'] [] := turns_of rfl
  rw [startOf_eq toMatch start]
  refine ⟨?_, (opens.chars found).append ((level.turns _).append close), level⟩
  rw [← around_spans toMatch, around, spans.after, rest]
  simp

theorem around_writeAt (c : Cursor) (replacement after : List Char) :
    around (writeAt c replacement after) = c.before.reverse ++ (replacement ++ after) := by
  simp [around, writeAt]

theorem around_rest (found : p.searchAt? c = some m) : around m.rest = around c := by
  obtain ⟨gap, d, toMatch, found, -⟩ := Pattern.searchAt?_eq_some found
  obtain ⟨-, spans, -⟩ := Pattern.matchAt?_eq_some found
  rw [around_spans spans, around_spans toMatch]

end ReactMigration.Recast
