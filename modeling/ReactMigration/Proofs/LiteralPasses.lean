import ReactMigration.Proofs.CodePasses
import ReactMigration.Proofs.MemberRules

/-!
Writes of state keep literals.

A write is cut out with the expression that is assigned and put back as a call, and the literals of the expression
are carried over.  Where the path ends within a literal, the literal has an equals sign behind a closing square
bracket.
-/

namespace ReactMigration.Recast

open ReactMigration.Text
open ReactMigration.Text.Pattern (Captures isName)
open ReactMigration.Script

variable {c d : Cursor} {m : Match} {x u v : List Char} {name : String} {P : List Char → Prop}

/-! ### Writes of state -/

theorem IsPlain.quotes (plain : IsPlain name) : Quotes P name.toList :=
  .plain plain

theorem spreadInto_quotes {keys : List String} {value : String} (base : IsPlain name)
    (plain : ∀ key ∈ keys, IsPlain key) (h : Quotes P value.toList) : Quotes P (spreadInto name keys value).toList := by
  induction keys generalizing name with
  | nil => exact h
  | cons key keys ih =>
      have key_plain := plain key List.mem_cons_self
      have inner := ih (IsPlain.key base key_plain) fun k mem => plain k (List.mem_cons_of_mem key mem)
      have front : Quotes P "\x7b ...".toList := .ofAll (by decide)
      have comma : Quotes P ", ".toList := .ofAll (by decide)
      have colon : Quotes P ": ".toList := .ofAll (by decide)
      have back : Quotes P " \x7d".toList := .ofAll (by decide)
      rw [spreadInto]
      simp only [String.toList_append]
      exact (((((front.append base.quotes).append comma).append key_plain.quotes).append colon).append inner).append back

theorem spreadUpdate_quotes {path value : String} (plain : IsPlain name) (hp : Quotes P path.toList)
    (hv : Quotes P value.toList) : Quotes P (spreadUpdate name path value).toList := by
  unfold spreadUpdate
  dsimp only
  split
  · have front : Quotes P "(() => \x7b const next = structuredClone(".toList := .ofAll (by decide)
    have next : Quotes P "); next".toList := .ofAll (by decide)
    have sign : Quotes P " = ".toList := .ofAll (by decide)
    have back : Quotes P "; return next; \x7d)()".toList := .ofAll (by decide)
    simp only [String.toList_append]
    exact (((((front.append plain.quotes).append next).append hp).append sign).append hv).append back
  · refine spreadInto_quotes plain (fun key mem => ?_) hv
    obtain ⟨entry, listed, same⟩ := List.mem_filterMap.mp mem
    cases entry with
    | inl k =>
        cases same
        exact accessKeys_plain listed
    | inr k => cases same

theorem call_quotes {setter value : String} (plain : IsPlain setter) (h : Quotes P value.toList) :
    Quotes P (setter ++ "(" ++ value ++ ")").toList := by
  have front : Quotes P "(".toList := .ofAll (by decide)
  have back : Quotes P ")".toList := .ofAll (by decide)
  simp only [String.toList_append]
  exact ((plain.quotes.append front).append h).append back

theorem arrayUpdate?_quotes {method args update : String} (plain : IsPlain name) (h : Quotes P args.toList)
    (found : arrayUpdate? name method args = some update) : Quotes P update.toList := by
  unfold arrayUpdate? at found
  split at found
  · cases found
    have front : Quotes P "[...".toList := .ofAll (by decide)
    have comma : Quotes P ", ".toList := .ofAll (by decide)
    have back : Quotes P "]".toList := .ofAll (by decide)
    rw [show s!"[...{name}, {args}]" = "[..." ++ name ++ ", " ++ args ++ "]" from rfl]
    simp only [String.toList_append]
    exact (((front.append plain.quotes).append comma).append h).append back
  · split at found
    · cases found
      have front : Quotes P "[".toList := .ofAll (by decide)
      have comma : Quotes P ", ...".toList := .ofAll (by decide)
      have back : Quotes P "]".toList := .ofAll (by decide)
      rw [show s!"[{args}, ...{name}]" = "[" ++ args ++ ", ..." ++ name ++ "]" from rfl]
      simp only [String.toList_append]
      exact (((front.append h).append comma).append plain.quotes).append back
    · split at found
      · rename_i mutator
        cases found
        have word : Quotes P method.toList := by
          have all : arrayMutators.all (fun method => method.toList.all (!isQuote ·)) = true := by decide
          exact .ofAll (List.all_eq_true.mp all method (List.contains_iff_mem.mp mutator))
        have front : Quotes P "(prev) => \x7b const next = [...prev]; next.".toList := .ofAll (by decide)
        have call : Quotes P "(".toList := .ofAll (by decide)
        have back : Quotes P "); return next; \x7d".toList := .ofAll (by decide)
        simp only [String.toList_append]
        exact (((front.append word).append call).append h).append back
      · cases found

theorem stepUpdate_quotes {setter step : String} (after : List Char) (plain : IsPlain setter) (plain' : IsPlain name) :
    Quotes P (stepUpdate setter name step after).1 := by
  have inner : Quotes P (name ++ " " ++ stepSign step ++ " 1").toList := by
    have space : Quotes P " ".toList := .ofAll (by decide)
    have sign : Quotes P (stepSign step).toList := by
      unfold stepSign
      split
      · exact .ofAll (by decide)
      · exact .ofAll (by decide)
    have one : Quotes P " 1".toList := .ofAll (by decide)
    simp only [String.toList_append]
    exact ((plain'.quotes.append space).append sign).append one
  have call := call_quotes plain inner
  simpa [stepUpdate, toString] using call

/-- The expression that starts in code ends in code. -/
theorem expressionEndFrom_closed {open_ : Option Char} {depth index : Nat} {before cs : List Char}
    (closed : cs.foldl Mode.next (.ofQuote? open_) = .code) :
    ∃ x y, cs = x ++ y ∧ expressionEndFrom open_ depth before index cs = index + x.length ∧
      x.foldl Mode.next (.ofQuote? open_) = .code := by
  have more {a : Char} {cs : List Char} {mode mode' : Mode} {index stop : Nat} (moved : mode.next a = mode')
      (rest : ∃ x y, cs = x ++ y ∧ stop = index + 1 + x.length ∧ x.foldl Mode.next mode' = .code) :
      ∃ x y, a :: cs = x ++ y ∧ stop = index + x.length ∧ x.foldl Mode.next mode = .code := by
    obtain ⟨x, y, rfl, rfl, ends⟩ := rest
    exact ⟨a :: x, y, rfl, by simp only [List.length_cons]; omega, by rw [List.foldl_cons, moved, ends]⟩
  fun_induction expressionEndFrom open_ depth before index cs with
  | case1 q depth before index => exact ⟨[], [], rfl, rfl, closed⟩
  | case2 q depth before index => cases closed
  | case3 q depth before index a cs ih => exact more rfl (more rfl (ih closed))
  | case4 q depth before index a cs last hides ih =>
      have moved : Mode.next (.quoted q) a = .ofQuote? (if a == q then none else some q) := by
        have step := next?_inside (q := q) (ne_backslash last hides) []
        rw [next?_quoted, Option.some.injEq] at step
        exact congrArg Prod.fst step
      exact more moved (ih (by rw [← moved]; exact closed))
  | case5 depth before index a cs quote ih =>
      have moved : Mode.next .code a = .quoted a := by simp [Mode.next, quote]
      exact more moved (ih (by rwa [List.foldl_cons, Mode.ofQuote?, moved] at closed))
  | case6 depth before index a cs quote opener ih =>
      have moved : Mode.next .code a = .code := Mode.code_next (by simpa using quote)
      exact more moved (ih (by rwa [List.foldl_cons, Mode.ofQuote?, moved] at closed))
  | case7 before index a cs quote opener closer => exact ⟨[], _, rfl, rfl, rfl⟩
  | case8 depth before index a cs quote opener closer deeper ih =>
      have moved : Mode.next .code a = .code := Mode.code_next (by simpa using quote)
      exact more moved (ih (by rwa [List.foldl_cons, Mode.ofQuote?, moved] at closed))
  | case9 depth before index a cs quote opener closer ends => exact ⟨[], _, rfl, rfl, rfl⟩
  | case10 depth before index a cs quote opener closer ends breaks => exact ⟨[], _, rfl, rfl, rfl⟩
  | case11 depth before index a cs quote opener closer ends breaks ih =>
      have moved : Mode.next .code a = .code := Mode.code_next (by simpa using quote)
      exact more moved (ih (by rwa [List.foldl_cons, Mode.ofQuote?, moved] at closed))

/-- An assignment takes a whole expression and carries its literals over. -/
theorem assignUpdate_quotes {setter path sign : String} (plain : IsPlain setter) (plain' : IsPlain name)
    (hp : Quotes P path.toList) (operator : sign ∈ assignmentOperators) (h : Quotes P c.after) :
    ∃ y, c.after = y ++ (assignUpdate setter name path sign c).2 ∧ modeAfter y = .code ∧
      Quotes P (assignUpdate setter name path sign c).1 := by
  have indent : Quotes P (c.after.takeWhile isIndent) := by
    refine .unquoted fun a mem => ?_
    have blank := List.all_eq_true.mp List.all_takeWhile a mem
    simp only [isIndent, Bool.or_eq_true, beq_iff_eq] at blank
    obtain rfl | rfl := blank <;> decide
  have spans : c.Spans (c.after.takeWhile isIndent) (c.advance (c.after.takeWhile isIndent).length) :=
    Cursor.spans_while isIndent c
  unfold assignUpdate
  generalize c.after.takeWhile isIndent = gap at spans indent
  generalize c.advance gap.length = e at spans
  rw [spans.after] at h
  have rest := (h.split indent.closed).2
  obtain ⟨x, y, behind, stop, closed⟩ :=
    @expressionEndFrom_closed none 0 e.offset e.before _ rest.closed
  rw [behind] at rest
  have value := (rest.split closed).1
  dsimp only
  rw [stop, Nat.add_sub_cancel_left, behind, List.take_left, List.drop_left]
  refine ⟨gap ++ x, by rw [spans.after, behind, List.append_assoc], (indent.append value).closed, ?_⟩
  have value : Quotes P (trim (String.ofList x)).toList := Quotes.trim (by rwa [String.toList_ofList])
  generalize trim (String.ofList x) = value_ at value
  have operand : Quotes P (if isSimple value_ then value_ else s!"({value_})").toList := by
    split
    · exact value
    · have front : Quotes P "(".toList := .ofAll (by decide)
      have back : Quotes P ")".toList := .ofAll (by decide)
      rw [show s!"({value_})" = "(" ++ value_ ++ ")" from rfl]
      simp only [String.toList_append]
      exact (front.append value).append back
  generalize (if isSimple value_ then value_ else s!"({value_})") = operand_ at operand
  have result : Quotes P (if sign == "=" then value_ else
      s!"{name}{path} {(sign.dropEnd 1).toString} {operand_}").toList := by
    split
    · exact value
    · have sign_plain : Quotes P (sign.dropEnd 1).toString.toList := by
        have all : assignmentOperators.all (fun sign => (sign.dropEnd 1).toString.toList.all (!isQuote ·)) = true := by
          decide +kernel
        exact .ofAll (List.all_eq_true.mp all sign operator)
      have space : Quotes P " ".toList := .ofAll (by decide)
      rw [show s!"{name}{path} {(sign.dropEnd 1).toString} {operand_}" =
        name ++ path ++ " " ++ (sign.dropEnd 1).toString ++ " " ++ operand_ from rfl]
      simp only [String.toList_append]
      exact ((((plain'.quotes.append hp).append space).append sign_plain).append space).append operand
  generalize (if sign == "=" then value_ else
    s!"{name}{path} {(sign.dropEnd 1).toString} {operand_}") = result_ at result
  have update : Quotes P (if path == "" then result_ else spreadUpdate name path result_).toList := by
    split
    · exact result
    · exact spreadUpdate_quotes plain' hp result
  exact call_quotes plain update

/-- In the literal there is no equals sign behind a closing square bracket. -/
def Unassigned (l : List Char) : Prop :=
  '=' ∉ l.dropWhile (· != ']')

theorem Unassigned.behind {l : List Char} (unassigned : Unassigned l) (same : l = u ++ ']' :: v) : '=' ∉ v := by
  subst same
  unfold Unassigned at unassigned
  induction u with
  | nil => exact fun mem => unassigned (by simp [mem])
  | cons a u ih =>
      rw [List.cons_append, List.dropWhile_cons] at unassigned
      split at unassigned
      · exact ih unassigned
      · exact fun mem => unassigned (by simp [mem])

/-- A path that ends within a literal has closed a bracket there. -/
theorem path_open {steps : List (List Char)} (accesses : ∀ x ∈ steps, IsAccess x) {mode : Mode} {read : List Char}
    (sound : mode.Sound) (marked : mode = .code ∨ ']' ∈ read) :
    steps.flatten.foldl Mode.next mode = .code ∨ ']' ∈ openAfter mode read steps.flatten := by
  induction steps generalizing mode read with
  | nil => exact marked
  | cons x steps ih =>
      rw [List.flatten_cons, List.foldl_append, openAfter_append]
      have sound' : (x.foldl Mode.next mode).Sound := foldl_sound sound x
      refine ih (fun y mem => accesses y (List.mem_cons_of_mem x mem)) sound' ?_
      cases accesses x List.mem_cons_self with
      | @key name named letters =>
          have quiet : Quiet ('.' :: name) := quiet_of_plain fun a mem => by
            rcases List.mem_cons.mp mem with rfl | mem
            · decide
            · exact isPlain_of_isName (letters a mem)
          by_cases inside : mode = .code
          · subst inside
            exact .inl (Quotes.unquoted (P := fun _ => True) fun a mem => (quiet a mem).1).closed
          · have marked := marked.resolve_left inside
            rw [(quiet_inside quiet (by simp) inside sound read).2]
            exact .inr (List.mem_append_right _ marked)
      | @index inner filled open_ =>
          rw [← List.cons_append, List.foldl_append, openAfter_append]
          generalize openAfter mode read ('[' :: inner) = read'
          generalize ('[' :: inner).foldl Mode.next mode = mode'
          by_cases inside : mode' = .code
          · subst inside
            exact .inl rfl
          · right
            rw [openAfter, if_neg inside]
            exact List.mem_cons_self

/-- The path of an assignment is read from code to code. -/
theorem path_closed {steps : List (List Char)} {blanks rest : List Char} {sign : String}
    (accesses : ∀ x ∈ steps, IsAccess x) (blank : ∀ b ∈ blanks, isBlank b = true)
    (operator : sign ∈ assignmentOperators) (unassigned : ∀ l, P l → Unassigned l)
    (h : Quotes P (steps.flatten ++ (blanks ++ sign.toList ++ rest))) : modeAfter steps.flatten = .code := by
  have signs : sign.toList.all (fun a => !isQuote a && a != '\\') = true ∧ '=' ∈ sign.toList := by
    have all : assignmentOperators.all (fun sign => sign.toList.all (fun a => !isQuote a && a != '\\') &&
        sign.toList.contains '=') = true := by
      decide
    simpa using List.all_eq_true.mp all sign operator
  have quiet : Quiet (blanks ++ sign.toList) := by
    refine Quiet.append (quiet_of_plain fun b mem => isPlain_of_isBlank (blank b mem)) fun a mem => ?_
    simpa using List.all_eq_true.mp signs.1 a mem
  have visible : blanks ++ sign.toList ≠ [] := List.append_ne_nil_of_right_ne_nil _ (List.ne_nil_of_mem signs.2)
  by_contra outside
  obtain ⟨l, mem, rest', same⟩ := exists_literal_around quiet visible outside h.closed
  have marked := (@path_open steps accesses .code [] trivial (.inl rfl)).resolve_left outside
  obtain ⟨z, w, split⟩ := List.append_of_mem (List.mem_reverse.mpr marked)
  refine (unassigned l (h.each l mem)).behind (u := z) (v := w ++ (blanks ++ sign.toList) ++ rest') ?_ ?_
  · rw [← same, split]
    simp
  · simp [signs.2]

/-- The path of an assignment that starts at the cursor ends in code. -/
def ClosedPath (c : Cursor) : Prop :=
  ∀ m ∈ assignment.matchAt? c, modeAfter (m.group 1).toList = .code

theorem WholePath.closed (whole : WholePath c) : ClosedPath c :=
  fun m matched => (whole m matched).closed

theorem closedPath_of_unassigned (unassigned : ∀ l, P l → Unassigned l) (h : Quotes P c.after) : ClosedPath c := by
  intro m matched
  obtain ⟨steps, blanks, sign, spans, accesses, blank, operator, -, group, -⟩ := assignment_matchAt matched
  rw [spans.after, List.append_assoc] at h
  rw [group, String.toList_ofList]
  exact path_closed accesses blank operator unassigned h

/-- A write takes a stretch that is read from code to code and carries its literals over. -/
theorem update?_quotes {setter : String} {replacement after : List Char} (plain : IsPlain setter)
    (plain' : IsPlain name) (closes : ClosedPath c) (h : Quotes P c.after)
    (found : update? setter name c = some (replacement, after)) :
    ∃ y, c.after = y ++ after ∧ modeAfter y = .code ∧ Quotes P replacement := by
  unfold update? at found
  split at found
  · rename_i m step
    cases found
    obtain ⟨⟨e, i, ⟨⟨blanks, space, blank, -⟩, rfl⟩, g, sign, -⟩, -⟩ := Pattern.matchAt?_eq_some step
    obtain ⟨⟨mark, marks, spans⟩, -⟩ := Pattern.oneOf_takes.mp sign
    have all : ["++", "--"].all (fun mark => mark.toList.all (!isQuote ·)) = true := by decide
    have whole : Quotes P (blanks ++ mark.toList) :=
      (Quotes.plain fun b mem => isPlain_of_isBlank (blank b mem)).append (.ofAll (List.all_eq_true.mp all mark marks))
    exact ⟨_, (space.trans spans).after, whole.closed, stepUpdate_quotes m.rest.after plain plain'⟩
  · split at found
    · rename_i m called
      obtain ⟨⟨inner, rest⟩, closed, found⟩ := Option.bind_eq_some_iff.mp found
      obtain ⟨update, written, same⟩ := Option.map_eq_some_iff.mp found
      cases same
      obtain ⟨behind, level⟩ := enclosed?_eq_some closed
      obtain ⟨m', matched, same⟩ := Option.bind_eq_some_iff.mp called
      obtain rfl : m' = m := by
        split at same
        · exact Option.some.inj same
        · cases same
      obtain ⟨⟨e, i, ⟨f, j, dot, g, ⟨⟨method, name_, letters, -⟩, rfl⟩, -⟩, opening⟩, -⟩ :=
        Pattern.matchAt?_eq_some matched
      have spans := (Pattern.text_takes.mp dot).1.trans (name_.trans (Pattern.text_takes.mp opening).1)
      have opens : Quotes P (".".toList ++ (method ++ "(".toList)) :=
        (Quotes.ofAll (by decide)).append
          ((Quotes.plain fun a mem => isPlain_of_isName (letters a mem)).append (.ofAll (by decide)))
      rw [spans.after, behind] at h
      have arguments := ((h.split opens.closed).2.split level.closed).1
      have close : Quotes P [')'] := .ofAll (by decide)
      refine ⟨".".toList ++ (method ++ "(".toList) ++ (inner ++ [')']), by rw [spans.after, behind]; simp,
        (opens.append (arguments.append close)).closed, ?_⟩
      refine call_quotes plain (arrayUpdate?_quotes plain' (Quotes.trim ?_) written)
      rwa [String.toList_ofList]
    · obtain ⟨m, matched, same⟩ := Option.map_eq_some_iff.mp found
      obtain ⟨steps, blanks, sign, spans, accesses, blank, operator, -, group, group'⟩ := assignment_matchAt matched
      rw [spans.after, List.append_assoc] at h
      have closed := closes m matched
      rw [group, String.toList_ofList] at closed
      have path := (h.split closed).1
      have signs : Quotes P (blanks ++ sign.toList) := by
        have all : assignmentOperators.all (fun sign => sign.toList.all (!isQuote ·)) = true := by decide
        exact (Quotes.plain fun b mem => isPlain_of_isBlank (blank b mem)).append
          (.ofAll (List.all_eq_true.mp all sign operator))
      have rest := ((h.split closed).2.split signs.closed).2
      obtain ⟨y, behind, closed', written⟩ := @assignUpdate_quotes _ _ _ _ (m.group 1) (m.group 2) plain plain'
        (by rwa [group, String.toList_ofList]) (by rwa [group']) rest
      rw [same] at behind written
      refine ⟨steps.flatten ++ (blanks ++ sign.toList) ++ y, by rw [spans.after, behind]; simp, ?_, written⟩
      rw [modeAfter_append, (path.append signs).closed]
      exact closed'

theorem writeStep_quotes {state : Table String} (setters : ∀ name setter, state.get? name = some setter → IsPlain setter)
    (excluded : ∀ l, P l → ¬ instanceDot <:+: l)
    (closes : ∀ m ∈ memberAccess.searchAt? c, (writeOf? state m).isSome = true → Quotes P m.rest.after →
      ClosedPath m.rest)
    (stepped : writeStep state c = some d) (h : Quotes P (around c)) : Quotes P (around d) := by
  obtain ⟨m, found, same⟩ := Option.map_eq_some_iff.mp stepped
  cases write : writeOf? state m with
  | none =>
      rw [write] at same
      rw [← same, around_rest found]
      exact h
  | some update =>
      obtain ⟨front, replacement, after⟩ := update
      rw [write] at same
      have inCode := memberAccess_enters.findsInCode instanceDot_visible excluded h m found
      obtain ⟨gap, e, toMatch, matched, -⟩ := Pattern.searchAt?_eq_some found
      obtain ⟨step, blanks, name, member⟩ := memberAccess_matchAt matched
      rw [startOf_eq toMatch member.start] at inCode same
      rw [← same, around_writeAt]
      have named : IsPlain (m.group 2) := by
        rw [member.member]
        exact isPlain_ofName member.letters
      have chars : Quotes P m.chars := by
        refine .unquoted fun a mem => ?_
        exact ((memberAccess_enters.chars matched).1.1 a mem).1
      rw [← around_spans toMatch, around, member.spans.after] at h
      have rest := ((h.split inCode).2.split chars.closed).2
      have path := closes m found (by rw [write]; rfl) rest
      obtain ⟨y, behind, closed, written⟩ : ∃ y, m.rest.after = y ++ after ∧ modeAfter y = .code ∧
          Quotes P (front ++ replacement) := by
        obtain ⟨setter, cell, found⟩ := Option.bind_eq_some_iff.mp write
        have plain := setters (m.group 2) setter cell
        cases sign : m.group? 1 with
        | some s =>
            rw [sign] at found
            cases found
            exact ⟨[], rfl, rfl, stepUpdate_quotes m.rest.after plain named⟩
        | none =>
            rw [sign] at found
            obtain ⟨⟨replacement', after'⟩, updated, same⟩ := Option.map_eq_some_iff.mp found
            cases same
            obtain ⟨-, -, frontBlank, -⟩ := writeOf?_eq_some member write
            obtain ⟨y, behind, closed, written⟩ := update?_quotes plain named path rest updated
            exact ⟨y, behind, closed,
              (Quotes.plain fun b mem => isPlain_of_isBlank (frontBlank b mem)).append written⟩
      rw [behind, ← List.append_assoc m.chars] at h
      refine h.exchange inCode ?_ fun _ => written
      rw [modeAfter_append, chars.closed]
      exact closed

end ReactMigration.Recast
