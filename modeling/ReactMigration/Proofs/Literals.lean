import Mathlib.Tactic.ByContra
import ReactMigration.Proofs.Bracketing

/-!
The quoted texts of a script.

A text is read from left to right; what stands between a quote and the next equal quote that no backslash hides
is a literal.  Literals of whole stretches of code are those of the parts, and a stretch without quotes that is
met outside code lies inside a literal.
-/

namespace ReactMigration.Script

open ReactMigration.Text

variable {m : Mode} {x y u v : List Char} {c : Char} {P : List Char → Prop}

/-! ### Literals -/

/-- The literals that are closed in a text, with their quotes; `read` is what has been read of one that is open,
nearest first. -/
def literalsFrom : Mode → List Char → List Char → List (List Char)
  | _, _, [] => []
  | .code, _, c :: cs => literalsFrom (Mode.code.next c) [c] cs
  | m, read, c :: cs =>
      if m.next c = .code then (c :: read).reverse :: literalsFrom .code [] cs
      else literalsFrom (m.next c) (c :: read) cs

/-- The literals of a text. -/
def literals (x : List Char) : List (List Char) :=
  literalsFrom .code [] x

theorem literalsFrom_code (read : List Char) : literalsFrom .code read x = literals x := by
  cases x with
  | nil => rfl
  | cons c x => rfl

theorem literalsFrom_closes (inside : m ≠ .code) (closes : m.next c = .code) (read : List Char) :
    literalsFrom m read (c :: x) = (c :: read).reverse :: literals x := by
  cases m with
  | code => exact absurd rfl inside
  | quoted q => simp [literalsFrom, closes, literals]
  | hidden q => cases closes

theorem literalsFrom_goes (goes : m.next c ≠ .code) (inside : m ≠ .code) (read : List Char) :
    literalsFrom m read (c :: x) = literalsFrom (m.next c) (c :: read) x := by
  cases m with
  | code => exact absurd rfl inside
  | quoted q => simp [literalsFrom, goes]
  | hidden q => simp [literalsFrom, goes]

/-- What is open behind a text. -/
def openAfter : Mode → List Char → List Char → List Char
  | _, read, [] => read
  | m, read, c :: cs => openAfter (m.next c) (if m = .code then [c] else c :: read) cs

theorem literalsFrom_append (m : Mode) (read x y : List Char) :
    literalsFrom m read (x ++ y) =
      literalsFrom m read x ++ literalsFrom (x.foldl Mode.next m) (openAfter m read x) y := by
  induction x generalizing m read with
  | nil => rfl
  | cons c x ih =>
      rw [List.cons_append, List.foldl_cons, openAfter]
      by_cases inside : m = .code
      · subst inside
        exact ih _ _
      · rw [if_neg inside]
        by_cases closes : m.next c = .code
        · rw [literalsFrom_closes inside closes, literalsFrom_closes inside closes, closes,
            ← literalsFrom_code (c :: read), ← literalsFrom_code (c :: read), ih]
          rfl
        · rw [literalsFrom_goes closes inside, literalsFrom_goes closes inside, ih]

theorem modeAfter_append : modeAfter (x ++ y) = y.foldl Mode.next (modeAfter x) :=
  List.foldl_append

/-- A stretch that starts in code and ends in code. -/
theorem literals_append (closed : modeAfter x = .code) : literals (x ++ y) = literals x ++ literals y := by
  rw [literals, literalsFrom_append, show x.foldl Mode.next .code = .code from closed,
    literalsFrom_code (openAfter .code [] x)]
  rfl

/-- An open literal is the first to be closed. -/
theorem exists_literal (inside : m ≠ .code) (closed : x.foldl Mode.next m = .code) (read : List Char) :
    ∃ l ∈ literalsFrom m read x, read.reverse <+: l := by
  induction x generalizing m read with
  | nil => exact absurd closed inside
  | cons c x ih =>
      by_cases closes : m.next c = .code
      · rw [literalsFrom_closes inside closes]
        exact ⟨_, List.mem_cons_self, [c], by simp⟩
      · rw [literalsFrom_goes closes inside]
        obtain ⟨l, mem, rest, same⟩ := ih closes closed (c :: read)
        exact ⟨l, mem, c :: rest, by rw [← same]; simp⟩

/-- A quiet stretch does not end a literal. -/
theorem foldl_quiet {q : Char} (quiet : Quiet x) (quote : isQuote q = true) :
    x.foldl Mode.next (.quoted q) = .quoted q := by
  have read := scan_quiet quiet quote []
  exact (scan_mode read).symm

theorem openAfter_quiet {q : Char} (quiet : Quiet x) (quote : isQuote q = true) (read : List Char) :
    openAfter (.quoted q) read x = x.reverse ++ read := by
  induction x generalizing read with
  | nil => rfl
  | cons c x ih =>
      have one : Mode.next (.quoted q) c = .quoted q :=
        foldl_quiet (x := [c]) (fun d mem => quiet d (by simp_all)) quote
      rw [openAfter, one, if_neg (by simp), ih fun d mem => quiet d (List.mem_cons_of_mem c mem)]
      simp

theorem openAfter_append (m : Mode) (read x y : List Char) :
    openAfter m read (x ++ y) = openAfter (x.foldl Mode.next m) (openAfter m read x) y := by
  induction x generalizing m read with
  | nil => rfl
  | cons c x ih => exact ih _ _

/-- A quiet stretch outside code goes on with the open literal. -/
theorem quiet_inside (quiet : Quiet y) (visible : y ≠ []) (inside : m ≠ .code) (sound : m.Sound) (read : List Char) :
    y.foldl Mode.next m ≠ .code ∧ openAfter m read y = y.reverse ++ read := by
  cases m with
  | code => exact absurd rfl inside
  | quoted q =>
      refine ⟨?_, openAfter_quiet quiet sound read⟩
      rw [foldl_quiet quiet sound]
      simp
  | hidden q =>
      obtain ⟨c, y, rfl⟩ := List.exists_cons_of_ne_nil visible
      have quiet : Quiet y := fun d mem => quiet d (List.mem_cons_of_mem c mem)
      constructor
      · rw [List.foldl_cons, show Mode.next (.hidden q) c = .quoted q from rfl, foldl_quiet quiet sound]
        simp
      · rw [openAfter, show Mode.next (.hidden q) c = .quoted q from rfl, openAfter_quiet quiet sound]
        simp

/-- What stands quietly outside code stands in a literal, if all literals are closed. -/
theorem exists_literal_around (quiet : Quiet y) (visible : y ≠ []) (outside : modeAfter u ≠ .code)
    (closed : modeAfter (u ++ (y ++ v)) = .code) :
    ∃ l ∈ literals (u ++ (y ++ v)), (openAfter .code [] u).reverse ++ y <+: l := by
  rw [modeAfter_append, List.foldl_append] at closed
  rw [literals, literalsFrom_append, literalsFrom_append]
  obtain ⟨inside, opened⟩ := quiet_inside quiet visible outside (modeAfter_sound u) (openAfter .code [] u)
  obtain ⟨l, mem, begins⟩ := exists_literal inside closed (openAfter (modeAfter u) (openAfter .code [] u) y)
  refine ⟨l, List.mem_append_right _ (List.mem_append_right _ mem), ?_⟩
  rwa [opened, List.reverse_append, List.reverse_reverse] at begins

/-! ### Texts and their literals -/

/-- All literals of the text are closed and have the property. -/
structure Quotes (P : List Char → Prop) (x : List Char) : Prop where
  closed : modeAfter x = .code
  each : ∀ l ∈ literals x, P l

namespace Quotes

theorem append (hx : Quotes P x) (hy : Quotes P y) : Quotes P (x ++ y) := by
  refine ⟨?_, fun l mem => ?_⟩
  · rw [modeAfter_append, hx.closed]
    exact hy.closed
  · rw [literals_append hx.closed] at mem
    exact (List.mem_append.mp mem).elim (hx.each l) (hy.each l)

/-- The parts of a text that is cut in code. -/
theorem split (h : Quotes P (x ++ y)) (closed : modeAfter x = .code) : Quotes P x ∧ Quotes P y := by
  have each := h.each
  rw [literals_append closed] at each
  refine ⟨⟨closed, fun l mem => each l (List.mem_append_left _ mem)⟩, ?_,
    fun l mem => each l (List.mem_append_right _ mem)⟩
  rw [← h.closed, modeAfter_append, closed]
  rfl

/-- Exchanging a stretch of code for another one. -/
theorem exchange {old new : List Char} (h : Quotes P (u ++ (old ++ v))) (code : modeAfter u = .code)
    (closed : modeAfter old = .code) (written : Quotes P old → Quotes P new) : Quotes P (u ++ (new ++ v)) := by
  obtain ⟨before, rest⟩ := h.split code
  obtain ⟨here, after⟩ := rest.split closed
  exact before.append ((written here).append after)

theorem nil : Quotes P [] :=
  ⟨rfl, by simp [literals, literalsFrom]⟩

theorem cons (unquoted : isQuote c = false) (h : Quotes P x) : Quotes P (c :: x) := by
  refine ⟨?_, fun l mem => h.each l ?_⟩
  · rw [← h.closed, modeAfter, List.foldl_cons, Mode.code_next unquoted]
    rfl
  · rw [literals, literalsFrom, Mode.code_next unquoted, literalsFrom_code] at mem
    exact mem

/-- A stretch without quotes. -/
theorem unquoted (unquoted : ∀ c ∈ x, isQuote c = false) : Quotes P x := by
  induction x with
  | nil => exact nil
  | cons c x ih => exact cons (unquoted c List.mem_cons_self) (ih fun d mem => unquoted d (List.mem_cons_of_mem c mem))

theorem ofAll (all : x.all (!isQuote ·) = true) : Quotes P x := by
  refine unquoted fun c mem => ?_
  simpa using List.all_eq_true.mp all c mem

theorem plain (plain : ∀ c ∈ x, isPlain c = true) : Quotes P x :=
  unquoted fun c mem => (isPlain_iff.mp (plain c mem)).1

/-- A text that the property excludes from literals stands in code. -/
theorem inCode (h : Quotes P (u ++ (y ++ v))) (quiet : Quiet y) (visible : y ≠ [])
    (excluded : ∀ l, P l → ¬ y <:+: l) : modeAfter u = .code := by
  by_contra outside
  obtain ⟨l, mem, begins⟩ := exists_literal_around quiet visible outside h.closed
  exact excluded l (h.each l mem) ((List.suffix_append _ y).isInfix.trans begins.isInfix)

/-- Quiet stretches at the ends can be left out. -/
theorem of_append_quiet (h : Quotes P (x ++ y)) (quiet : Quiet y) : Quotes P x := by
  refine (h.split ?_).1
  by_contra outside
  have closed := h.closed
  rw [modeAfter_append] at closed
  cases y with
  | nil => exact outside closed
  | cons c y =>
      have quiet' : Quiet y := fun d mem => quiet d (List.mem_cons_of_mem c mem)
      have sound := modeAfter_sound x
      generalize modeAfter x = m at outside closed sound
      cases m with
      | code => exact outside rfl
      | quoted q => simp [foldl_quiet quiet sound] at closed
      | hidden q =>
          rw [List.foldl_cons, show Mode.next (.hidden q) c = .quoted q from rfl, foldl_quiet quiet' sound] at closed
          cases closed

theorem of_quiet_append (h : Quotes P (x ++ y)) (quiet : Quiet x) : Quotes P y :=
  (h.split (unquoted (P := P) fun c mem => (quiet c mem).1).closed).2

theorem stripWith {p : Char → Bool} (h : Quotes P x) (quiet : ∀ c, p c = true → isQuote c = false ∧ c ≠ '\\') :
    Quotes P (stripWith p x) := by
  have lead : Quotes P (x.dropWhile p) := by
    rw [← List.takeWhile_append_dropWhile (p := p) (l := x)] at h
    exact h.of_quiet_append fun c mem => quiet c (List.all_eq_true.mp List.all_takeWhile c mem)
  unfold Text.stripWith dropTrailing
  have parts := congrArg List.reverse (List.takeWhile_append_dropWhile (p := p) (l := (x.dropWhile p).reverse))
  rw [List.reverse_append, List.reverse_reverse] at parts
  rw [← parts] at lead
  exact lead.of_append_quiet fun c mem =>
    quiet c (List.all_eq_true.mp List.all_takeWhile c (List.mem_reverse.mp mem))

theorem trim {s : String} (h : Quotes P s.toList) : Quotes P (trim s).toList := by
  rw [Text.trim, String.toList_ofList]
  refine h.stripWith fun c blank => ?_
  have plain := isPlain_iff.mp (isPlain_of_isBlank blank)
  exact ⟨plain.1, plain.2.2.2⟩

end Quotes

/-! ### Stretches of code -/

theorem Turns.closed {s s' : List Char} (turns : Turns s x s') : modeAfter x = .code := by
  have read := turns []
  exact (scan_mode read).symm

theorem Level.closed (level : Level x) : modeAfter x = .code :=
  Turns.closed (level.turns [])

/-- The stretch leads from some awaited closers to others, and its literals have the property. -/
structure Carries (P : List Char → Prop) (s x s' : List Char) : Prop where
  turns : Turns s x s'
  quotes : Quotes P x

/-- The stretch is level, and its literals have the property. -/
def Whole (P : List Char → Prop) (x : List Char) : Prop :=
  Carries P [] x []

namespace Carries

variable {s s' s'' : List Char}

theorem append (first : Carries P s x s') (second : Carries P s' y s'') : Carries P s (x ++ y) s'' :=
  ⟨first.turns.append second.turns, first.quotes.append second.quotes⟩

/-- A fixed stretch without quotes. -/
theorem text (read : scan (.code, s) x = some (.code, s')) (unquoted : x.all (!isQuote ·) = true) : Carries P s x s' :=
  ⟨turns_of read, .ofAll unquoted⟩

theorem plain (plain : ∀ a ∈ x, isPlain a = true) (s : List Char) : Carries P s x s :=
  ⟨(Level.plain plain).turns s, .plain plain⟩

end Carries

namespace Whole

theorem of (level : Level x) (quotes : Quotes P x) : Whole P x :=
  ⟨level.turns [], quotes⟩

theorem level (whole : Whole P x) : Level x :=
  Turns.level (Carries.turns whole)

theorem quotes (whole : Whole P x) : Quotes P x :=
  Carries.quotes whole

theorem leads (whole : Whole P x) (s : List Char) : Carries P s x s :=
  ⟨whole.level.turns s, whole.quotes⟩

theorem nil : Whole P [] :=
  .of .nil .nil

theorem plain (plain : ∀ a ∈ x, isPlain a = true) : Whole P x :=
  Carries.plain plain []

theorem trim {s : String} (whole : Whole P s.toList) : Whole P (Text.trim s).toList :=
  .of whole.level.trim whole.quotes.trim

end Whole

end ReactMigration.Script
