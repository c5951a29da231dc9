import ReactMigration.Conversion.Recast
import ReactMigration.Proofs.Quoting

/-!
Matching brackets as a machine.

Where a place stands and which brackets are still open there is the state of a machine that reads one
character after the other.  A text is balanced if the machine ends where it started, and a stretch of text is
level if it comes back to where it was from any place in code.
-/

namespace ReactMigration.Script

open ReactMigration.Text

variable {m m' : Mode} {o o' x y : List Char} {c : Char}

/-! ### The machine -/

/-- Where a place stands, and the closers that are awaited there, innermost first. -/
abbrev Place := Mode × List Char

/-- The next place, unless a closing bracket is met that is not awaited. -/
def Place.next? : Place → Char → Option Place
  | (.code, open_), c =>
      match closer? c with
      | some close => some (.code, close :: open_)
      | none =>
          if isCloser c then if open_.head? == some c then some (.code, open_.tail) else none
          else some (Mode.code.next c, open_)
  | (mode, open_), c => some (mode.next c, open_)

/-- The place behind a text. -/
def scan (p : Place) (x : List Char) : Option Place :=
  x.foldlM Place.next? p

theorem scan_cons (p : Place) (c : Char) (x : List Char) : scan p (c :: x) = (p.next? c).bind (scan · x) := rfl

theorem scan_append (p : Place) (x y : List Char) : scan p (x ++ y) = (scan p x).bind (scan · y) :=
  List.foldlM_append

theorem isPlain_of_isName (letter : Pattern.isName c = true) : isPlain c = true := by
  have marks : ∀ mark ∈ ['\'', '"', '\x60', '(', ')', '[', ']', '\x7b', '\x7d', '\\'], Pattern.isName mark = false :=
    List.all_iff_forall_prop.mp (by decide +kernel)
  have known : c ∉ ['\'', '"', '\x60', '(', ')', '[', ']', '\x7b', '\x7d', '\\'] := by
    intro mem
    rw [marks c mem] at letter
    cases letter
  simp only [List.mem_cons, List.not_mem_nil, or_false, not_or] at known
  obtain ⟨single, double, tick, r, r', s, s', b, b', hides⟩ := known
  rw [isPlain_iff]
  refine ⟨by simp [isQuote, single, double, tick], ?_, by simp [isCloser, r', s', b'], hides⟩
  fun_cases closer? c <;> simp_all

theorem not_isQuote_of_isCloser (closes : isCloser c = true) : isQuote c = false := by
  simp only [isCloser, Bool.or_eq_true, beq_iff_eq] at closes
  obtain (rfl | rfl) | rfl := closes <;> decide

theorem closer?_of_isCloser (closes : isCloser c = true) : closer? c = none := by
  simp only [isCloser, Bool.or_eq_true, beq_iff_eq] at closes
  obtain (rfl | rfl) | rfl := closes <;> decide

theorem Mode.code_next (unquoted : isQuote c = false) : Mode.code.next c = .code := by
  simp [Mode.next, unquoted]

theorem next?_opener {close : Char} (opener : closer? c = some close) (o : List Char) :
    Place.next? (.code, o) c = some (.code, close :: o) := by
  simp [Place.next?, opener]

theorem next?_closer (closer : isCloser c = true) (o : List Char) :
    Place.next? (.code, o) c = if o.head? == some c then some (.code, o.tail) else none := by
  simp [Place.next?, closer?_of_isCloser closer, closer]

theorem next?_quote (quote : isQuote c = true) (o : List Char) :
    Place.next? (.code, o) c = some (.quoted c, o) := by
  simp only [isQuote, Bool.or_eq_true, beq_iff_eq] at quote
  obtain (rfl | rfl) | rfl := quote <;> rfl

theorem next?_other (opener : closer? c = none) (closer : isCloser c = false) (quote : isQuote c = false)
    (o : List Char) : Place.next? (.code, o) c = some (.code, o) := by
  simp [Place.next?, opener, closer, Mode.next, quote]

/-- What one character does in code. -/
theorem next?_code (o : List Char) (c : Char) :
    (∃ close, closer? c = some close ∧ isQuote c = false ∧ Place.next? (.code, o) c = some (.code, close :: o)) ∨
      (closer? c = none ∧ isQuote c = false ∧ isCloser c = true ∧
        Place.next? (.code, o) c = if o.head? == some c then some (.code, o.tail) else none) ∨
      (closer? c = none ∧ isCloser c = false ∧ isQuote c = true ∧ Place.next? (.code, o) c = some (.quoted c, o)) ∨
      (closer? c = none ∧ isCloser c = false ∧ isQuote c = false ∧ Place.next? (.code, o) c = some (.code, o)) := by
  cases opener : closer? c with
  | some close => exact .inl ⟨close, rfl, Reads.not_isQuote_of_closer? opener, next?_opener opener o⟩
  | none =>
      cases closer : isCloser c with
      | true => exact .inr (.inl ⟨rfl, not_isQuote_of_isCloser closer, rfl, next?_closer closer o⟩)
      | false =>
          cases quote : isQuote c with
          | true => exact .inr (.inr (.inl ⟨rfl, rfl, rfl, next?_quote quote o⟩))
          | false => exact .inr (.inr (.inr ⟨rfl, rfl, rfl, next?_other opener closer quote o⟩))

@[simp] theorem next?_quoted (q : Char) (o : List Char) (c : Char) :
    Place.next? (.quoted q, o) c = some ((Mode.quoted q).next c, o) := rfl

@[simp] theorem next?_hidden (q : Char) (o : List Char) (c : Char) :
    Place.next? (.hidden q, o) c = some (.quoted q, o) := rfl

theorem next?_mode {p p' : Place} (moved : p.next? c = some p') : p'.1 = p.1.next c := by
  obtain ⟨m, o⟩ := p
  cases m with
  | code =>
      obtain ⟨close, -, quote, same⟩ | ⟨-, quote, -, same⟩ | ⟨-, -, quote, same⟩ | ⟨-, -, quote, same⟩ :=
        next?_code o c
      · rw [same] at moved
        cases moved
        exact (Mode.code_next quote).symm
      · rw [same] at moved
        split at moved
        · cases moved
          exact (Mode.code_next quote).symm
        · cases moved
      · rw [same] at moved
        cases moved
        simp [Mode.next, quote]
      · rw [same] at moved
        cases moved
        exact (Mode.code_next quote).symm
  | quoted q =>
      cases moved
      rfl
  | hidden q =>
      cases moved
      rfl

/-- Where a text ends does not depend on the brackets. -/
theorem scan_mode {p p' : Place} (read : scan p x = some p') : p'.1 = x.foldl Mode.next p.1 := by
  induction x generalizing p with
  | nil =>
      cases read
      rfl
  | cons c x ih =>
      obtain ⟨p₁, moved, read⟩ := Option.bind_eq_some_iff.mp read
      rw [ih read, next?_mode moved]
      rfl

/-- Closers that are awaited further out do not matter. -/
theorem scan_below (below : List Char) (read : scan (m, o) x = some (m', o')) :
    scan (m, o ++ below) x = some (m', o' ++ below) := by
  induction x generalizing m o with
  | nil =>
      cases read
      rfl
  | cons c x ih =>
      obtain ⟨⟨m₁, o₁⟩, moved, read⟩ := Option.bind_eq_some_iff.mp read
      rw [scan_cons]
      have further : Place.next? (m, o ++ below) c = some (m₁, o₁ ++ below) := by
        cases m with
        | code =>
            obtain ⟨close, opener, -, same⟩ | ⟨opener, -, closer, same⟩ | ⟨opener, closer, quote, same⟩ |
              ⟨opener, closer, quote, same⟩ := next?_code o c
            · rw [same] at moved
              cases moved
              simp [Place.next?, opener]
            · rw [same] at moved
              split at moved
              · rename_i awaited
                cases moved
                cases o with
                | nil => simp at awaited
                | cons top o => simpa [Place.next?, opener, closer] using awaited
              · cases moved
            · rw [same] at moved
              cases moved
              simp [Place.next?, opener, closer, Mode.next, quote]
            · rw [same] at moved
              cases moved
              simp [Place.next?, opener, closer, Mode.next, quote]
        | quoted q =>
            cases moved
            rfl
        | hidden q =>
            cases moved
            rfl
      rw [further]
      exact ih read

/-! ### Balanced text -/

theorem imbalance?_iff (x : List Char) :
    (∀ o, imbalance? none o x = none ↔ scan (.code, o) x = some (.code, [])) ∧
      (∀ q o, imbalance? (some q) o x = none ↔ scan (.quoted q, o) x = some (.code, [])) ∧
      ∀ q o, imbalance? (some q) o ('\\' :: x) = none ↔ scan (.hidden q, o) x = some (.code, []) := by
  induction x with
  | nil =>
      refine ⟨fun o => ?_, fun q o => ?_, fun q o => ?_⟩
      · cases o <;> simp [imbalance?, scan]
      · simp [imbalance?, scan]
      · simp [imbalance?, scan]
  | cons c x ih =>
      obtain ⟨code, quoted, hidden⟩ := ih
      refine ⟨fun o => ?_, fun q o => ?_, fun q o => ?_⟩
      · rw [imbalance?_outside, scan_cons]
        obtain ⟨close, opener, quote, same⟩ | ⟨opener, quote, closer, same⟩ | ⟨opener, closer, quote, same⟩ |
          ⟨opener, closer, quote, same⟩ := next?_code o c
        · simp [same, opener, quote, code]
        · rw [same]
          simp only [quote, opener, closer, Bool.false_eq_true, if_false, if_true]
          cases o with
          | nil => simp
          | cons top below =>
              by_cases awaited : (top == c) = true
              · simp [code, beq_iff_eq.mp awaited]
              · have other : (some top == some c) = false := by simpa using awaited
                simp [awaited, other]
        · simp [same, quote, quoted]
        · simp [same, opener, closer, quote, code]
      · rw [scan_cons, next?_quoted, Option.bind_some]
        by_cases hides : c = '\\'
        · subst hides
          rw [hidden]
          rfl
        · rw [imbalance?_inside hides]
          by_cases ends : c = q
          · subst ends
            simp [Mode.next, hides, code]
          · simp [Mode.next, hides, ends, quoted]
      · rw [imbalance?_hidden, scan_cons, next?_hidden, Option.bind_some, quoted]

/-- The text is balanced. -/
def Balanced (x : List Char) : Prop :=
  scan (.code, []) x = some (.code, [])

theorem findUnbalanced_eq_none {s : String} : findUnbalanced s = none ↔ Balanced s.toList :=
  (imbalance?_iff s.toList).1 []

/-- A stretch of text that comes back to where it was, from any place in code. -/
def Level (x : List Char) : Prop :=
  ∀ o, scan (.code, o) x = some (.code, o)

theorem Balanced.level (balanced : Balanced x) : Level x :=
  fun o => scan_below o balanced

instance (x : List Char) : Decidable (Level x) :=
  decidable_of_iff (scan (.code, []) x = some (.code, [])) ⟨Balanced.level, fun level => level []⟩

namespace Level

theorem nil : Level [] :=
  fun _ => rfl

theorem append (first : Level x) (second : Level y) : Level (x ++ y) := by
  intro o
  rw [scan_append, first, Option.bind_some, second]

theorem cons (opener : closer? c = none) (closer : isCloser c = false) (quote : isQuote c = false)
    (rest : Level x) : Level (c :: x) := by
  intro o
  rw [scan_cons]
  simp only [Place.next?, opener, closer, Mode.next, quote]
  exact rest o

theorem bracketed {close : Char} (opener : closer? c = some close) (inner : Level x) (rest : Level y) :
    Level (c :: (x ++ close :: y)) := by
  have closes : isCloser close = true := by
    revert opener
    fun_cases closer? c <;> rintro ⟨⟩ <;> decide
  intro o
  rw [scan_cons]
  simp only [Place.next?, opener, Option.bind_some, scan_append, inner (close :: o)]
  rw [scan_cons]
  simp only [Place.next?, closer?_of_isCloser closes, closes, List.head?_cons, BEq.rfl, if_true, List.tail_cons,
    Option.bind_some]
  exact rest o

/-- A stretch of plain characters. -/
theorem plain (plain : ∀ c ∈ x, isPlain c = true) : Level x := by
  induction x with
  | nil => exact nil
  | cons c x ih =>
      obtain ⟨quote, opener, closer, -⟩ := isPlain_iff.mp (plain c List.mem_cons_self)
      exact cons opener closer quote (ih fun d mem => plain d (List.mem_cons_of_mem c mem))

theorem ofAll (all : x.all isPlain = true) : Level x :=
  plain (List.all_eq_true.mp all)

end Level

/-! ### Texts with gaps -/

/-- The stretch leads from some awaited closers to others, whatever is awaited further out. -/
def Turns (s x s' : List Char) : Prop :=
  ∀ o, scan (.code, s ++ o) x = some (.code, s' ++ o)

theorem turns_of {s s' : List Char} (read : scan (.code, s) x = some (.code, s')) : Turns s x s' :=
  fun o => scan_below o read

theorem Level.turns (level : Level x) (s : List Char) : Turns s x s :=
  fun o => level (s ++ o)

theorem Turns.append {s s' s'' : List Char} (first : Turns s x s') (second : Turns s' y s'') : Turns s (x ++ y) s'' := by
  intro o
  rw [scan_append, first, Option.bind_some, second]

theorem Turns.level (turns : Turns [] x []) : Level x :=
  turns

/-! ### The same effect -/

/-- Both stretches lead to the same place, wherever the mode is this one. -/
def Same (m : Mode) (x y : List Char) : Prop :=
  ∀ o, scan (m, o) x = scan (m, o) y

theorem Level.same (level : Level x) (level' : Level y) : Same .code x y :=
  fun o => (level o).trans (level' o).symm

/-- A stretch without quotes and backslashes. -/
def Quiet (x : List Char) : Prop :=
  ∀ c ∈ x, isQuote c = false ∧ c ≠ '\\'

/-- The quote of a mode is one. -/
def Mode.Sound : Mode → Prop
  | .code => True
  | .quoted q => isQuote q = true
  | .hidden q => isQuote q = true

theorem Mode.Sound.next (sound : m.Sound) (c : Char) : (m.next c).Sound := by
  cases m with
  | code =>
      simp only [Mode.next]
      split
      · assumption
      · trivial
  | quoted q =>
      simp only [Mode.next]
      split
      · exact sound
      · split
        · trivial
        · exact sound
  | hidden q => exact sound

theorem foldl_sound (sound : m.Sound) (x : List Char) : (x.foldl Mode.next m).Sound := by
  induction x generalizing m with
  | nil => exact sound
  | cons c x ih => exact ih (sound.next c)

theorem Mode.Sound.scanned {m' : Mode} {o o' : List Char} (sound : m.Sound) (read : scan (m, o) x = some (m', o')) :
    m'.Sound := by
  obtain rfl : m' = x.foldl Mode.next m := scan_mode read
  exact foldl_sound sound x

theorem modeAfter_sound (x : List Char) : (modeAfter x).Sound :=
  foldl_sound (m := .code) trivial x

/-- Within quotes a quiet stretch does nothing. -/
theorem scan_quiet {q : Char} (quiet : Quiet x) (quote : isQuote q = true) (o : List Char) :
    scan (.quoted q, o) x = some (.quoted q, o) := by
  induction x with
  | nil => rfl
  | cons c x ih =>
      obtain ⟨unquoted, hides⟩ := quiet c List.mem_cons_self
      have other : c ≠ q := by
        rintro rfl
        rw [quote] at unquoted
        cases unquoted
      rw [scan_cons, next?_quoted, Option.bind_some]
      simp only [Mode.next, beq_eq_false_iff_ne.mpr hides, beq_eq_false_iff_ne.mpr other]
      exact ih fun d mem => quiet d (List.mem_cons_of_mem c mem)

/-- Quiet stretches with the same effect in code have it everywhere, if neither is empty. -/
theorem Same.quiet (same : Same .code x y) (quiet : Quiet x) (quiet' : Quiet y) (visible : x ≠ []) (visible' : y ≠ [])
    (sound : m.Sound) : Same m x y := by
  intro o
  cases m with
  | code => exact same o
  | quoted q => rw [scan_quiet quiet sound, scan_quiet quiet' sound]
  | hidden q =>
      obtain ⟨c, x, rfl⟩ := List.exists_cons_of_ne_nil visible
      obtain ⟨d, y, rfl⟩ := List.exists_cons_of_ne_nil visible'
      rw [scan_cons, scan_cons, next?_hidden, next?_hidden, Option.bind_some, Option.bind_some,
        scan_quiet (fun e mem => quiet e (List.mem_cons_of_mem c mem)) sound,
        scan_quiet (fun e mem => quiet' e (List.mem_cons_of_mem d mem)) sound]

/-- A quiet stretch that is level in code can be left out where nothing hides its first character. -/
theorem Level.same_nil (level : Level x) (quiet : Quiet x) (sound : m.Sound) (shown : ∀ q, m ≠ .hidden q) :
    Same m x [] := by
  intro o
  cases m with
  | code => exact level o
  | quoted q => exact scan_quiet quiet sound o
  | hidden q => exact absurd rfl (shown q)

/-- A stretch of a text can be exchanged for one with the same effect. -/
theorem scan_exchange {u v : List Char} (same : Same (u.foldl Mode.next m) x y) (o : List Char) :
    scan (m, o) (u ++ (x ++ v)) = scan (m, o) (u ++ (y ++ v)) := by
  rw [scan_append, scan_append]
  cases read : scan (m, o) u with
  | none => rfl
  | some p =>
      obtain ⟨m', o'⟩ := p
      have mode : m' = u.foldl Mode.next m := scan_mode read
      subst mode
      rw [Option.bind_some, Option.bind_some, scan_append, scan_append, same o']

/-! ### Blank space around a stretch -/

theorem Level.of_append_blank {b : Char} (level : Level (x ++ [b])) (blank : isBlank b = true) : Level x := by
  have plain := isPlain_iff.mp (isPlain_of_isBlank blank)
  intro o
  have whole := level o
  rw [scan_append] at whole
  obtain ⟨⟨m, o'⟩, read, last⟩ := Option.bind_eq_some_iff.mp whole
  rw [read]
  -- a blank character does not close a quoted text
  cases m with
  | code =>
      rw [scan_cons] at last
      simp only [Place.next?, plain.2.1, plain.2.2.1, Mode.next, plain.1] at last
      exact last
  | quoted q =>
      exfalso
      have sound := modeAfter_sound x
      rw [show modeAfter x = .quoted q from (scan_mode read).symm] at sound
      rw [scan_quiet (fun c mem => by rw [List.mem_singleton.mp mem]; exact ⟨plain.1, plain.2.2.2⟩) sound] at last
      cases last
  | hidden q => cases last

theorem Level.dropTrailing {p : Char → Bool} (blank : ∀ a, p a = true → isBlank a = true) (level : Level x) :
    Level (dropTrailing p x) := by
  unfold Text.dropTrailing
  generalize back : x.reverse = r
  have forth : x = r.reverse := by rw [← back, List.reverse_reverse]
  subst forth
  clear back
  induction r with
  | nil => exact level
  | cons b r ih =>
      rw [List.dropWhile_cons]
      split
      · rename_i holds
        rw [List.reverse_cons] at level
        exact ih (level.of_append_blank (blank b holds))
      · exact level

theorem Level.dropWhile {p : Char → Bool} (blank : ∀ a, p a = true → isBlank a = true) (level : Level x) :
    Level (x.dropWhile p) := by
  induction x with
  | nil => exact level
  | cons b x ih =>
      rw [List.dropWhile_cons]
      split
      · rename_i holds
        obtain ⟨quote, opener, closer, -⟩ := isPlain_iff.mp (isPlain_of_isBlank (blank b holds))
        refine ih fun o => ?_
        have whole := level o
        rw [scan_cons] at whole
        simpa [Place.next?, opener, closer, Mode.next, quote] using whole
      · exact level

theorem Level.stripWith {p : Char → Bool} (blank : ∀ a, p a = true → isBlank a = true) (level : Level x) :
    Level (stripWith p x) :=
  (level.dropWhile blank).dropTrailing blank

theorem Level.trim {s : String} (level : Level s.toList) : Level (trim s).toList := by
  unfold Text.trim
  rw [String.toList_ofList]
  exact level.stripWith fun _ blank => blank

/-! ### Stretches that are cut out -/

/-- Where a scanner with an open quote, or none, stands. -/
def Mode.ofQuote? : Option Char → Mode
  | none => .code
  | some q => .quoted q

theorem next?_inside {q : Char} (shown : c ≠ '\\') (o : List Char) :
    Place.next? (.quoted q, o) c = some (.ofQuote? (if c == q then none else some q), o) := by
  rw [next?_quoted]
  by_cases ends : c = q
  · subst ends
    simp [Mode.next, shown, Mode.ofQuote?]
  · simp [Mode.next, shown, ends, Mode.ofQuote?]

/-- Reading on after one character. -/
theorem scan_next {s s' : List Char} (moved : ∀ o, Place.next? (m, s ++ o) c = some (m', s' ++ o)) :
    (∀ o, scan (m, s ++ o) (c :: x) = some (.code, o)) ↔ ∀ o, scan (m', s' ++ o) x = some (.code, o) := by
  refine forall_congr' fun o => ?_
  rw [scan_cons, moved, Option.bind_some]

theorem scan_hides {q : Char} {s : List Char} :
    (∀ o, scan (.quoted q, s ++ o) ('\\' :: c :: x) = some (.code, o)) ↔
      ∀ o, scan (.quoted q, s ++ o) x = some (.code, o) :=
  have hides (o : List Char) : Place.next? (.quoted q, s ++ o) '\\' = some (.hidden q, s ++ o) := rfl
  (scan_next hides).trans (scan_next fun _ => rfl)

theorem scan_closes {s : List Char} (closer : isCloser c = true) :
    (∀ o, scan (.code, c :: s ++ o) (c :: x) = some (.code, o)) ↔ ∀ o, scan (.code, s ++ o) x = some (.code, o) :=
  scan_next fun o => by simp [next?_closer closer]

/-- A closing bracket that is met is awaited. -/
theorem exists_awaited {s : List Char} (closer : isCloser c = true)
    (read : ∀ o, scan (.code, s ++ o) (c :: x) = some (.code, o)) : ∃ s', s = c :: s' := by
  have here := read []
  rw [scan_cons, next?_closer closer, List.append_nil] at here
  cases s with
  | nil => simp at here
  | cons top s =>
      by_cases same : top = c
      · exact ⟨s, by rw [same]⟩
      · simp [same] at here

/-- What stands up to the bracket that closes the outermost one. -/
theorem closingFrom?_eq_some {q : Option Char} {s cs : List Char} {t : Char} {index j : Nat}
    (found : closingFrom? q (s ++ [t]) index cs = some j) :
    ∃ x y, cs = x ++ t :: y ∧ j = index + x.length ∧ ∀ o, scan (.ofQuote? q, s ++ o) x = some (.code, o) := by
  generalize all : s ++ [t] = open_ at found
  fun_induction closingFrom? q open_ index cs generalizing s with
  | case1 => cases found
  | case2 => cases found
  | case3 q open_ index c cs ih =>
      obtain ⟨x, y, rfl, rfl, read⟩ := ih all found
      exact ⟨'\\' :: c :: x, y, rfl, by simp only [List.length_cons]; omega, scan_hides.mpr read⟩
  | case4 q open_ index c cs last hides ih =>
      obtain ⟨x, y, rfl, rfl, read⟩ := ih all found
      exact ⟨c :: x, y, rfl, by simp only [List.length_cons]; omega,
        (scan_next fun _ => next?_inside (ne_backslash last hides) _).mpr read⟩
  | case5 open_ index c cs quote ih =>
      obtain ⟨x, y, rfl, rfl, read⟩ := ih all found
      exact ⟨c :: x, y, rfl, by simp only [List.length_cons]; omega,
        (scan_next fun _ => next?_quote quote _).mpr read⟩
  | case6 open_ index c cs quote close opener ih =>
      obtain ⟨x, y, rfl, rfl, read⟩ := ih (s := close :: s) (by rw [← all]; rfl) found
      exact ⟨c :: x, y, rfl, by simp only [List.length_cons]; omega,
        (scan_next fun _ => next?_opener opener _).mpr read⟩
  | case7 index c cs quote opener closer top same =>
      cases found
      obtain ⟨rfl, rfl⟩ : s = [] ∧ t = top := by
        cases s with
        | nil => simpa using all
        | cons a s => simp at all
      exact ⟨[], cs, by rw [beq_iff_eq.mp same]; rfl, rfl, fun o => rfl⟩
  | case8 => cases found
  | case9 index c cs quote opener closer top below more same ih =>
      cases s with
      | nil =>
          obtain ⟨-, rfl⟩ := List.cons.inj all
          exact absurd rfl more
      | cons a s =>
          obtain ⟨rfl, rest⟩ := List.cons.inj all
          obtain rfl := beq_iff_eq.mp same
          obtain ⟨x, y, rfl, rfl, read⟩ := ih rest found
          exact ⟨a :: x, y, rfl, by simp only [List.length_cons]; omega, (scan_closes closer).mpr read⟩
  | case10 => cases found
  | case11 => cases found
  | case12 open_ index c cs quote opener closer ih =>
      obtain ⟨x, y, rfl, rfl, read⟩ := ih all found
      exact ⟨c :: x, y, rfl, by simp only [List.length_cons]; omega,
        (scan_next fun _ => next?_other opener (by simpa using closer) (by simpa using quote) _).mpr read⟩

/-- What a round bracket encloses is level. -/
theorem enclosed?_eq_some {rest inner after : List Char} (found : Recast.enclosed? '(' rest = some (inner, after)) :
    rest = inner ++ ')' :: after ∧ Level inner := by
  unfold Recast.enclosed? at found
  obtain ⟨j, closing, same⟩ := Option.map_eq_some_iff.mp found
  obtain ⟨x, y, rfl, rfl, read⟩ := @closingFrom?_eq_some none [] rest ')' 1 j closing
  cases same
  have inner : (x ++ ')' :: y).take (1 + x.length - 1) = x := by
    rw [Nat.add_sub_cancel_left, List.take_left]
  have after : (x ++ ')' :: y).drop (1 + x.length) = y := by
    rw [Nat.add_comm, ← List.drop_drop, List.drop_left]
    rfl
  rw [inner, after]
  exact ⟨rfl, read⟩

/-- The parts between separators in code that no bracket encloses: the first one goes on from where the text
starts, and the others are level. -/
theorem splitParts_level {separator : Char} {previous q : Option Char} {depth : Nat} {s cs : List Char}
    (read : ∀ o, scan (.ofQuote? q, s ++ o) cs = some (.code, o)) (deep : depth = s.length) :
    ∃ first parts, splitParts separator previous q depth cs = first :: parts ∧
      (∀ o, scan (.ofQuote? q, s ++ o) first = some (.code, o)) ∧ ∀ part ∈ parts, Level part := by
  have more {c : Char} {s s' : List Char} {m m' : Mode} {l : List (List Char)}
      (moved : ∀ o, Place.next? (m, s ++ o) c = some (m', s' ++ o))
      (rest : ∃ first parts, l = first :: parts ∧ (∀ o, scan (m', s' ++ o) first = some (.code, o)) ∧
        ∀ part ∈ parts, Level part) :
      ∃ first parts, consPart c l = first :: parts ∧ (∀ o, scan (m, s ++ o) first = some (.code, o)) ∧
        ∀ part ∈ parts, Level part := by
    obtain ⟨first, parts, rfl, level, levels⟩ := rest
    exact ⟨c :: first, parts, rfl, (scan_next moved).mpr level, levels⟩
  fun_induction splitParts separator previous q depth cs generalizing s with
  | case1 => exact ⟨[], [], rfl, read, by simp⟩
  | case2 previous q depth => cases read []
  | case3 previous q depth c cs ih =>
      have hides (o : List Char) : Place.next? (.quoted q, s ++ o) '\\' = some (.hidden q, s ++ o) := rfl
      have hidden (o : List Char) : Place.next? (.hidden q, s ++ o) c = some (.quoted q, s ++ o) := rfl
      exact more hides (more hidden (ih (scan_hides.mp read) deep))
  | case4 previous q depth c cs last hides ih =>
      have moved (o : List Char) := next?_inside (q := q) (ne_backslash last hides) (s ++ o)
      exact more moved (ih ((scan_next moved).mp read) deep)
  | case5 previous depth c cs quote ih =>
      have moved (o : List Char) := next?_quote quote (s ++ o)
      exact more moved (ih ((scan_next moved).mp read) deep)
  | case6 previous depth c cs quote opener ih =>
      obtain ⟨close, opener⟩ := Option.isSome_iff_exists.mp opener
      have moved (o : List Char) : Place.next? (.code, s ++ o) c = some (.code, close :: s ++ o) :=
        next?_opener opener (s ++ o)
      exact more moved (ih ((scan_next moved).mp read) (by rw [deep]; rfl))
  | case7 previous depth c cs quote opener closer ih =>
      obtain ⟨s, rfl⟩ := exists_awaited closer read
      have moved (o : List Char) : Place.next? (.code, c :: s ++ o) c = some (.code, s ++ o) := by
        simp [next?_closer closer]
      exact more moved (ih ((scan_next moved).mp read) (by rw [deep]; rfl))
  | case8 previous depth c cs quote opener closer splits ih =>
      have moved (o : List Char) := next?_other (by simpa [isOpener] using opener) (by simpa using closer)
        (by simpa using quote) (s ++ o)
      have shallow : s = [] := by
        simp only [Bool.and_eq_true, beq_iff_eq] at splits
        exact List.length_eq_zero_iff.mp (deep.symm.trans splits.1.2)
      subst shallow
      obtain ⟨first, parts, same, level, levels⟩ := ih ((scan_next moved).mp read) deep
      refine ⟨[], first :: parts, by rw [same], fun _ => rfl, fun part mem => ?_⟩
      obtain rfl | mem := List.mem_cons.mp mem
      · exact level
      · exact levels part mem
  | case9 previous depth c cs quote opener closer splits ih =>
      have moved (o : List Char) := next?_other (by simpa [isOpener] using opener) (by simpa using closer)
        (by simpa using quote) (s ++ o)
      exact more moved (ih ((scan_next moved).mp read) deep)

/-- The parts of a level text are level. -/
theorem splitTopLevel_level {separator : Char} {text : String} (level : Level text.toList) :
    ∀ part ∈ splitTopLevel separator text, Level part.toList := by
  obtain ⟨first, parts, same, level, levels⟩ :=
    @splitParts_level separator none none 0 [] _ level rfl
  intro part mem
  rw [splitTopLevel, same] at mem
  obtain ⟨cs, listed, rfl⟩ := List.mem_map.mp mem
  rw [String.toList_ofList]
  obtain rfl | listed := List.mem_cons.mp listed
  · exact level
  · exact levels cs listed

theorem foldr_consPart (x y : List Char) (parts : List (List Char)) :
    x.foldr consPart (y :: parts) = (x ++ y) :: parts := by
  induction x with
  | nil => rfl
  | cons c x ih => simp [ih, consPart]

/-- Where no separator stands in code outside brackets, nothing is split. -/
theorem splitParts_inside {separator : Char} (rest x : List Char) :
    (∀ previous q s, scan (.ofQuote? q, s) x = some (.code, []) →
        (∀ u v, x = u ++ separator :: v → scan (.ofQuote? q, s) u ≠ some (.code, [])) →
        ∃ previous', splitParts separator previous q s.length (x ++ rest) =
          x.foldr consPart (splitParts separator previous' none 0 rest)) ∧
      ∀ previous q s, scan (.hidden q, s) x = some (.code, []) →
        (∀ u v, x = u ++ separator :: v → scan (.hidden q, s) u ≠ some (.code, [])) →
        ∃ previous', splitParts separator previous (some q) s.length ('\\' :: (x ++ rest)) =
          ('\\' :: x).foldr consPart (splitParts separator previous' none 0 rest) := by
  induction x with
  | nil =>
      refine ⟨fun previous q s read _ => ?_, fun previous q s read _ => by cases read⟩
      cases q with
      | none =>
          cases read
          exact ⟨previous, rfl⟩
      | some q => cases read
  | cons c x ih =>
      obtain ⟨shown, hidden⟩ := ih
      have further {p p' : Place} (moved : p.next? c = some p')
          (inside : ∀ u v, c :: x = u ++ separator :: v → scan p u ≠ some (.code, [])) :
          ∀ u v, x = u ++ separator :: v → scan p' u ≠ some (.code, []) := by
        intro u v same
        have := inside (c :: u) v (by rw [same, List.cons_append])
        rwa [scan_cons, moved] at this
      refine ⟨fun previous q s read inside => ?_, fun previous q s read inside => ?_⟩
      · cases q with
        | none =>
            obtain ⟨p, moved, later⟩ := Option.bind_eq_some_iff.mp read
            have outside := further moved inside
            rw [List.cons_append, splitParts]
            change Place.next? (.code, s) c = some p at moved
            obtain ⟨close, opener, quote, same⟩ | ⟨opener, quote, closer, same⟩ | ⟨opener, closer, quote, same⟩ |
              ⟨opener, closer, quote, same⟩ := next?_code s c
            · cases same.symm.trans moved
              obtain ⟨previous', split⟩ := shown (some c) none (close :: s) later outside
              exact ⟨previous', by simpa [quote, isOpener, opener] using congrArg (consPart c) split⟩
            · rw [same] at moved
              split at moved
              · rename_i awaited
                cases moved
                obtain ⟨s, rfl⟩ : ∃ s', s = c :: s' := List.head?_eq_some_iff.mp (beq_iff_eq.mp awaited)
                obtain ⟨previous', split⟩ := shown (some c) none s later outside
                exact ⟨previous', by simpa [quote, isOpener, opener, closer] using congrArg (consPart c) split⟩
              · cases moved
            · cases same.symm.trans moved
              obtain ⟨previous', split⟩ := shown (some c) (some c) s later outside
              exact ⟨previous', by simpa [quote] using congrArg (consPart c) split⟩
            · cases same.symm.trans moved
              have whole : ¬(c = separator ∧ s = []) := by
                rintro ⟨rfl, rfl⟩
                exact inside [] x rfl rfl
              obtain ⟨previous', split⟩ := shown (some c) none s later outside
              refine ⟨previous', ?_⟩
              rw [if_neg (by simp [quote]), if_neg (by simp [isOpener, opener]), if_neg (by simp [closer]),
                if_neg (by simp_all), split]
              rfl
        | some q =>
            by_cases hides : c = '\\'
            · subst hides
              have moved : Place.next? (.ofQuote? (some q), s) '\\' = some (.hidden q, s) := rfl
              rw [scan_cons, moved] at read
              exact hidden previous q s read (further moved inside)
            · have moved : Place.next? (.ofQuote? (some q), s) c =
                  some (.ofQuote? (if c == q then none else some q), s) := next?_inside hides s
              rw [scan_cons, moved] at read
              obtain ⟨previous', split⟩ := shown (some c) (if c == q then none else some q) s read (further moved inside)
              refine ⟨previous', ?_⟩
              rw [List.cons_append, splitParts, split]
              · rfl
              all_goals simp_all
      · have moved : Place.next? (.hidden q, s) c = some (.ofQuote? (some q), s) := rfl
        rw [scan_cons, moved] at read
        obtain ⟨previous', split⟩ := shown (some c) (some q) s read (further moved inside)
        exact ⟨previous', by rw [List.cons_append, splitParts, split]; rfl⟩

/-- The expression that starts at a place of a balanced text is level. -/
theorem expressionEndFrom_level {q : Option Char} {depth index : Nat} {before s cs o : List Char}
    (read : scan (.ofQuote? q, s ++ o) cs = some (.code, [])) (deep : depth = s.length) :
    ∃ x y, cs = x ++ y ∧ expressionEndFrom q depth before index cs = index + x.length ∧
      ∀ o, scan (.ofQuote? q, s ++ o) x = some (.code, o) := by
  have more {c : Char} {s s' cs : List Char} {m m' : Mode} {index stop : Nat}
      (moved : ∀ o, Place.next? (m, s ++ o) c = some (m', s' ++ o))
      (rest : ∃ x y, cs = x ++ y ∧ stop = index + 1 + x.length ∧ ∀ o, scan (m', s' ++ o) x = some (.code, o)) :
      ∃ x y, c :: cs = x ++ y ∧ stop = index + x.length ∧ ∀ o, scan (m, s ++ o) x = some (.code, o) := by
    obtain ⟨x, y, rfl, rfl, level⟩ := rest
    exact ⟨c :: x, y, rfl, by simp only [List.length_cons]; omega, (scan_next moved).mpr level⟩
  have here {s cs : List Char} {index : Nat} (shallow : s = []) :
      ∃ x y, cs = x ++ y ∧ index = index + x.length ∧ ∀ o, scan (.code, s ++ o) x = some (.code, o) := by
    subst shallow
    exact ⟨[], cs, rfl, rfl, fun _ => rfl⟩
  have further {c : Char} {p p' : Place} (moved : p.next? c = some p') {cs : List Char}
      (read : scan p (c :: cs) = some (.code, [])) : scan p' cs = some (.code, []) := by
    rwa [scan_cons, moved, Option.bind_some] at read
  fun_induction expressionEndFrom q depth before index cs generalizing s with
  | case1 q depth before index =>
      obtain ⟨code, empty⟩ := Prod.mk.inj (Option.some.inj read)
      refine ⟨[], [], rfl, rfl, fun o => ?_⟩
      rw [code, (List.append_eq_nil_iff.mp empty).1]
      rfl
  | case2 q depth before index => cases read
  | case3 q depth before index c cs ih =>
      have hides (o : List Char) : Place.next? (.quoted q, s ++ o) '\\' = some (.hidden q, s ++ o) := rfl
      have hidden (o : List Char) : Place.next? (.hidden q, s ++ o) c = some (.quoted q, s ++ o) := rfl
      exact more hides (more hidden (ih read deep))
  | case4 q depth before index c cs last hides ih =>
      have moved (o : List Char) := next?_inside (q := q) (ne_backslash last hides) (s ++ o)
      exact more moved (ih (further (moved o) read) deep)
  | case5 depth before index c cs quote ih =>
      have moved (o : List Char) := next?_quote quote (s ++ o)
      exact more moved (ih (further (moved o) read) deep)
  | case6 depth before index c cs quote opener ih =>
      obtain ⟨close, opener⟩ := Option.isSome_iff_exists.mp opener
      have moved (o : List Char) : Place.next? (.code, s ++ o) c = some (.code, close :: s ++ o) :=
        next?_opener opener (s ++ o)
      exact more moved (ih (further (moved o) read) (by rw [deep]; rfl))
  | case7 before index c cs quote opener closer => exact here (List.length_eq_zero_iff.mp deep.symm)
  | case8 depth before index c cs quote opener closer deeper ih =>
      cases s with
      | nil => exact absurd deep deeper
      | cons top s =>
          have first := read
          rw [scan_cons, Mode.ofQuote?, next?_closer closer] at first
          by_cases same : top = c
          · subst same
            have moved (o : List Char) : Place.next? (.code, top :: s ++ o) top = some (.code, s ++ o) := by
              simp [next?_closer closer]
            exact more moved (ih (further (moved o) read) (by rw [deep]; rfl))
          · simp [same] at first
  | case9 depth before index c cs quote opener closer ends =>
      simp only [Bool.and_eq_true, decide_eq_true_eq] at ends
      exact here (List.length_eq_zero_iff.mp (deep.symm.trans ends.1))
  | case10 depth before index c cs quote opener closer ends breaks =>
      simp only [Bool.and_eq_true, decide_eq_true_eq] at breaks
      exact here (List.length_eq_zero_iff.mp (deep.symm.trans breaks.1.1))
  | case11 depth before index c cs quote opener closer ends breaks ih =>
      have moved (o : List Char) := next?_other (by simpa [isOpener] using opener) (by simpa using closer)
        (by simpa using quote) (s ++ o)
      exact more moved (ih (further (moved o) read) deep)

end ReactMigration.Script
