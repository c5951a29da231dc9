import ReactMigration.Proofs.MarkupGrammar

/-!
What the reader of templates accepts and refuses.

A text that is read spells the nodes that it is read as, piece by piece and nested as they are.  A text
that is refused is refused at a place inside of it.
-/

namespace ReactMigration.Template

open ReactMigration.Text

variable {c d start : Cursor} {x : List Char}

/-! ### Text and interpolations -/

theorem interpolationLength?_eq_some {q : Option Char} {n m : Nat} {cs : List Char}
    (h : interpolationLength? q n cs = some m) :
    ∃ inside rest, cs = inside ++ (closeBraces ++ rest) ∧ m = n + inside.length := by
  fun_induction interpolationLength? q n cs with
  | case1 => cases h
  | case2 n q c cs ih | case3 n c cs _ ih | case5 n c cs _ _ ih =>
      obtain ⟨inside, rest, rfl, rfl⟩ := ih h
      exact ⟨c :: inside, rest, rfl, by simp; omega⟩
  | case4 n c cs _ closes =>
      cases h
      simp only [Bool.and_eq_true, beq_iff_eq] at closes
      obtain ⟨rest, rfl⟩ := List.head?_eq_some_iff.mp closes.2
      exact ⟨[], rest, by simp [closeBraces, closes.1], rfl⟩

theorem readInterpolation_reads (opens : opensInterpolation c.after = true) :
    Reading (readInterpolation c)
      (fun (node, d) => Spells [node] c.after d.after ∧ ∃ x ≠ [], c.Spans x d) (PointsAt c) := by
  obtain ⟨body, after⟩ : ∃ body, c.after = openBraces ++ body := startsWith_iff.mp opens
  unfold readInterpolation
  rw [after, show (openBraces ++ body).drop 2 = body from rfl]
  split
  · exact .of_error (markupError_pointsAt ..)
  · rename_i n found
    obtain ⟨inside, rest, rfl, rfl⟩ := interpolationLength?_eq_some found
    rw [Nat.zero_add, List.take_left]
    extract_lets expression position
    split
    · exact .of_error (markupError_pointsAt ..)
    · rename_i shows
      have whole : c.after = (openBraces ++ (inside ++ closeBraces)) ++ rest := by
        rw [after]
        simp
      have spans : c.Spans (openBraces ++ (inside ++ closeBraces)) (c.advance (inside.length + 4)) := by
        simpa [openBraces, closeBraces] using Cursor.spans_advance whole
      have rest_eq : (c.advance (inside.length + 4)).after = rest := spans.remaining whole
      refine .of_ok ⟨?_, _, by simp [openBraces], spans⟩
      rw [rest_eq]
      exact .interpolation position (by simpa using found) (by simpa using shows) (.done rest)

theorem textBetween_spells (previous : Option Node) (spans : start.Spans x c)
    (quiet : Quiet x c.after) (ends : c.after = [] ∨ opensMarkup c.after = true) :
    Spells (textBetween previous start c) start.after c.after := by
  have raw : start.after.take (c.offset - start.offset) = x := by
    rw [spans.offset, spans.after, Nat.add_sub_cancel_left, List.take_left]
  unfold textBetween
  rw [raw]
  dsimp only
  rw [spans.after]
  by_cases empty : x = []
  · subst empty
    simpa [separatesInline] using Spells.done c.after
  · have run : IsRun x c.after := ⟨empty, quiet, ends⟩
    split
    · rename_i blank
      split
      · exact .space _ run blank (.done _)
      · exact .blank run blank (.done _)
    · rename_i shows
      exact .text _ run (by simpa using shows) (.done _)

theorem textBetween_reverse (previous : Option Node) (start stop : Cursor) :
    (textBetween previous start stop).reverse = textBetween previous start stop := by
  unfold textBetween
  dsimp only
  split
  · split <;> rfl
  · rfl

theorem Quiet.concat {a : Char} {rest : List Char} :
    ∀ {x : List Char}, Quiet x (a :: rest) → opensMarkup (a :: rest) = false → Quiet (x ++ [a]) rest
  | [], _, other => ⟨other, trivial⟩
  | b :: x, quiet, other => by
      refine ⟨?_, quiet.2.concat other⟩
      simpa using quiet.1

theorem visible_of_endsText (reached : c.Spans x d) (inside : c.after ≠ [])
    (textual : endsText c.after = false) (ends : d.after = [] ∨ endsText d.after = true) : x ≠ [] := by
  rintro rfl
  have stay : c.after = d.after := reached.after
  rw [← stay] at ends
  exact ends.elim inside (by simp [textual])

/-- Text and interpolations are read up to where something else opens. -/
theorem readText_reads :
    ∀ {fuel : Nat} (nodes : List Node) {start c : Cursor} {x : List Char}, c.after.length < fuel →
      start.Spans x c → Quiet x c.after →
      Reading (readText fuel nodes start c)
        (fun (result, d) => ∃ ns y, result = nodes.reverse ++ ns ∧ Spells ns start.after d.after ∧
          start.Spans y d ∧ (d.after = [] ∨ endsText d.after = true))
        (BreaksOff start)
  | 0, _, _, _, _, enough, _, _ => by omega
  | fuel + 1, nodes, start, c, x, enough, spans, quiet => by
      -- The run since `start` is still open.  It becomes a text here, or grows by one character below.
      have stop (ends : c.after = [] ∨ endsText c.after = true) :
          Reading (.ok ((textBetween nodes.head? start c ++ nodes).reverse, c))
            (fun (result, d) => ∃ ns y, result = nodes.reverse ++ ns ∧ Spells ns start.after d.after ∧
              start.Spans y d ∧ (d.after = [] ∨ endsText d.after = true))
            (BreaksOff start) := by
        refine .of_ok ⟨textBetween nodes.head? start c, x, ?_, ?_, spans, ends⟩
        · rw [List.reverse_append, textBetween_reverse]
        · exact textBetween_spells _ spans quiet (ends.imp_right fun h => by simp [opensMarkup, h])
      unfold readText
      split
      · rename_i empty
        exact stop (.inl (List.isEmpty_iff.mp empty))
      · rename_i more
        have inside : c.after ≠ [] := by simpa using more
        split
        · rename_i opens
          have read := readInterpolation_reads opens
          split
          · rename_i e failed
            exact .of_error (.points spans inside (read.error failed))
          · rename_i node after made
            obtain ⟨spells, y, visible, further⟩ := read.ok made
            have shorter : after.after.length < fuel := by
              have := further.shorter visible
              omega
            have reached := spans.trans further
            have first := textBetween_spells nodes.head? spans quiet
              (.inr (by simp [opensMarkup, opens]))
            refine (readText_reads _ shorter (.refl after) trivial).mono ?_
              fun _ failed => failed.behind reached
            rintro ⟨result, d⟩ ⟨ns, z, same, spelled, last, ends⟩
            refine ⟨textBetween nodes.head? start c ++ ([node] ++ ns), _, ?_,
              first.append (spells.append spelled), reached.trans last, ends⟩
            rw [same]
            simp [textBetween_reverse]
        · rename_i noInterpolation
          split
          · rename_i ends
            exact stop (.inr ends)
          · rename_i noEnd
            obtain ⟨a, rest, after⟩ := List.exists_cons_of_ne_nil inside
            have step := Cursor.spans_next after
            have next : c.next.after = rest := step.remaining after
            rw [after] at quiet noInterpolation noEnd
            refine readText_reads nodes ?_ (spans.trans step) ?_
            · rw [next]
              rw [after, List.length_cons] at enough
              omega
            · rw [next]
              exact quiet.concat (by simp [opensMarkup, noInterpolation, noEnd])

/-! ### Attributes -/

/-- Whatever is refused is refused at the place of the cursor. -/
structure PointsTo (c : Cursor) (r : Except Failure α) : Prop where
  error : ∀ {e}, r = .error e → PointsAt c e

theorem PointsTo.ok (c : Cursor) (a : α) : PointsTo c (.ok a : Except Failure α) :=
  ⟨fun h => by cases h⟩

theorem PointsTo.markup (message : String) (c : Cursor) (attr : Option String) :
    PointsTo c (.error (markupError message c attr) : Except Failure α) :=
  ⟨fun h => by cases h; exact markupError_pointsAt ..⟩

theorem PointsTo.bind {r : Except Failure α} {f : α → Except Failure β} (h : PointsTo c r)
    (k : ∀ a, PointsTo c (f a)) : PointsTo c (r >>= f) := by
  cases r with
  | error e => exact ⟨fun same => h.error (by cases same; rfl)⟩
  | ok a => exact k a

theorem PointsTo.reading {r : Except Failure α} (h : PointsTo c r) :
    Reading r (fun a => r = .ok a) (PointsAt c) :=
  ⟨id, h.error⟩

theorem PointsTo.ite {p : Prop} [Decidable p] {r r' : Except Failure α} (yes : PointsTo c r) (no : PointsTo c r') :
    PointsTo c (if p then r else r') := by
  split
  · exact yes
  · exact no

/-- A check in front of the rest. -/
theorem PointsTo.guarded {p : Prop} [Decidable p] {message : String} {attr : Option String}
    {rest : PUnit → Except Failure β} (next : PointsTo c (rest ())) :
    PointsTo c (if p then throw (markupError message c attr) >>= rest else rest ()) := by
  split
  · exact .markup ..
  · exact next

theorem checkExpression_pointsTo (name value : String) (c : Cursor) :
    PointsTo c (checkExpression name value c) := by
  unfold checkExpression
  split
  · exact .markup ..
  · split
    · exact .markup ..
    · exact .ok ..

theorem bindingValue_pointsTo (name : String) (value : Option String) (c : Cursor) :
    PointsTo c (bindingValue name value c) := by
  unfold bindingValue
  extract_lets text
  split
  · exact .markup ..
  · exact .bind (checkExpression_pointsTo ..) fun _ => .ok ..

theorem splitInterpolated_pointsTo (name : String) (c : Cursor) (cs : List Char) :
    PointsTo c (splitInterpolated name c cs) := by
  fun_induction splitInterpolated name c cs with
  | case1 => exact .ok ..
  | case2 => exact .markup ..
  | case3 => exact .markup ..
  | case4 =>
      rename_i ih
      exact .bind (checkExpression_pointsTo ..) fun _ => .bind ih fun _ => .ok ..

theorem interpolatedAttribute_pointsTo (name value : String) (c : Cursor) :
    PointsTo c (interpolatedAttribute name value c) := by
  unfold interpolatedAttribute
  refine .bind (splitInterpolated_pointsTo ..) fun (texts, expressions) => ?_
  dsimp only
  split
  · exact .ok ..
  · split <;> exact .ok ..

theorem classifyAttribute_pointsTo (name : String) (value : Option String) (c : Cursor) :
    PointsTo c (classifyAttribute name value c) := by
  have binding := bindingValue_pointsTo name value c
  unfold classifyAttribute
  extract_lets position unterminated
  refine .ite (.guarded (.bind binding fun _ => .ok ..)) ?_
  refine .ite (.bind binding fun _ => .ok ..) ?_
  refine .ite (.guarded (.bind binding fun _ => .ite (.ok ..) (.ok ..))) ?_
  refine .ite (.guarded (.bind binding fun _ => .ok ..)) ?_
  refine .ite ?structural (.ite (.ok ..) (.ite (.ok ..) (.guarded ?_)))
  case structural =>
    refine .guarded ?_
    dsimp +zetaDelta only
    split
    · exact .bind (checkExpression_pointsTo ..) fun _ => .ok ..
    · exact .ok ..
  dsimp +zetaDelta only
  split
  · split
    · refine .bind (interpolatedAttribute_pointsTo ..) fun _ => ?_
      split <;> exact .ok ..
    · exact .ok ..
  · exact .ok ..

theorem skipBlanks_after (c : Cursor) : (skipBlanks c).after = c.after.dropWhile isBlank :=
  (c.spans_while isBlank).remaining List.takeWhile_append_dropWhile.symm

theorem skipBlanks_spans (c : Cursor) :
    ∃ gap, gap.all isBlank = true ∧ c.Spans gap (skipBlanks c) ∧
      NotNext isBlank (skipBlanks c).after := by
  refine ⟨_, List.all_takeWhile, c.spans_while isBlank, ?_⟩
  rw [skipBlanks_after]
  exact notNext_dropWhile isBlank c.after

theorem exists_append_of_takeWhile_ne {q : Char} {cs : List Char}
    (closed : (cs.takeWhile (· != q)).length ≠ cs.length) :
    ∃ more, cs = cs.takeWhile (· != q) ++ q :: more := by
  have whole := List.takeWhile_append_dropWhile (p := (· != q)) (l := cs)
  cases rest : cs.dropWhile (· != q) with
  | nil =>
    rw [rest, List.append_nil] at whole
    exact absurd (congrArg List.length whole) closed
  | cons a more =>
    have stops := notNext_dropWhile (· != q) cs a (by simp [rest])
    rw [rest, show a = q by simpa using stops] at whole
    exact ⟨more, whole.symm⟩

theorem readAttributeValue_reads (name : String) (start c : Cursor) :
    Reading (readAttributeValue name start c)
      (fun (value, d) => SpellsValue value.toList c.after d.after ∧ ∃ x, c.Spans x d)
      (PointsAt start) := by
  have plain : Reading
      (if (c.after.takeWhile isUnquotedValue).isEmpty then
        .error (markupError "Missing attribute value" start (some name))
      else .ok (String.ofList (c.after.takeWhile isUnquotedValue),
        c.advance (c.after.takeWhile isUnquotedValue).length))
      (fun (value, d) => SpellsValue value.toList c.after d.after ∧ ∃ x, c.Spans x d)
      (PointsAt start) := by
    split
    · exact .of_error (markupError_pointsAt ..)
    · rename_i visible
      have spans := c.spans_while isUnquotedValue
      refine .of_ok ⟨?_, _, spans⟩
      rw [spans.remaining List.takeWhile_append_dropWhile.symm]
      have := SpellsValue.unquoted (by simpa using visible) List.all_takeWhile
        (notNext_dropWhile isUnquotedValue c.after)
      simpa using this
  unfold readAttributeValue
  split
  · rename_i q rest after
    split
    · rename_i quote
      dsimp only
      split
      · exact .of_error (markupError_pointsAt ..)
      · rename_i closed
        obtain ⟨more, whole⟩ := exists_append_of_takeWhile_ne (by simpa using closed)
        generalize known : rest.takeWhile (· != q) = value at whole
        have split : c.after = (q :: (value ++ [q])) ++ more := by
          rw [after, whole]
          simp
        have spans : c.Spans (q :: (value ++ [q])) (c.advance (value.length + 2)) := by
          simpa using Cursor.spans_advance split
        refine .of_ok ⟨?_, _, spans⟩
        rw [spans.remaining split, after, whole]
        simp only [String.toList_ofList]
        refine .quoted (by simpa using quote) fun mem => ?_
        rw [← known] at mem
        simpa using List.all_eq_true.mp List.all_takeWhile q mem
    · exact plain
  · exact plain

/-- An attribute is read with what its name and value mean. -/
theorem readAttribute_reads (c : Cursor) :
    Reading (readAttribute c)
      (fun (r, d) => ∃ name value, name ≠ [] ∧ name.all isAttributeName = true ∧
        SpellsAttribute name value c.after d.after ∧
        classifyAttribute (String.ofList name) (value.map String.ofList) c = .ok r ∧
        ∃ x ≠ [], c.Spans x d)
      (PointsAt c) := by
  have first := c.spans_while isAttributeName
  have ends := notNext_dropWhile isAttributeName c.after
  rw [← first.remaining List.takeWhile_append_dropWhile.symm] at ends
  have letters : (c.after.takeWhile isAttributeName).all isAttributeName = true := List.all_takeWhile
  unfold readAttribute
  dsimp only
  generalize c.after.takeWhile isAttributeName = name at *
  obtain ⟨gap, blank, second, stops⟩ := skipBlanks_spans (c.advance name.length)
  rw [second.after] at ends
  generalize skipBlanks (c.advance name.length) = d at *
  have reached := first.trans second
  split
  · exact .of_error (markupError_pointsAt ..)
  · rename_i visible
    have named : name ≠ [] := by simpa using visible
    split
    · rename_i equals
      have equal := Cursor.spans_next equals
      obtain ⟨gap', blank', third, -⟩ := skipBlanks_spans d.next
      refine (readAttributeValue_reads _ c (skipBlanks d.next)).bind ?_
      rintro ⟨value, stop⟩ ⟨spelled, x, fourth⟩
      refine (classifyAttribute_pointsTo (String.ofList name) (some value) c).reading.bind
        fun r means => ?_
      refine .of_ok ⟨name, some value.toList, named, letters, ?_, by simpa using means, _, ?_,
        reached.trans (equal.trans (third.trans fourth))⟩
      · have whole : SpellsAttribute name (some value.toList)
            (name ++ (gap ++ '=' :: (gap' ++ (skipBlanks d.next).after))) stop.after :=
          .valued blank blank' spelled
        rw [reached.after, List.append_assoc, equal.after, third.after]
        exact whole
      · simp [named]
    · rename_i alone
      refine (classifyAttribute_pointsTo (String.ofList name) none c).reading.bind fun r means => ?_
      refine .of_ok ⟨name, none, named, letters, ?_, means, _, ?_, reached⟩
      · rw [reached.after, List.append_assoc]
        refine .bare blank ends fun a next => ?_
        have other : a ≠ '=' := by
          rintro rfl
          obtain ⟨tail, equals⟩ := List.head?_eq_some_iff.mp next
          exact alone tail equals
        simp [stops a next, other]
      · simp [named]

/-- What a start tag holds beyond the attributes so far stands behind the cursor. -/
def StartTag.Follows (t : StartTag) (attributes : List Attribute)
    (structurals : List (String × String × Position)) (c : Cursor) : Prop :=
  ∃ further others, t.attributes = attributes.reverse ++ further ∧
    t.structurals = structurals.reverse ++ others ∧
    SpellsAttributes further others c.after (closeTag t.selfClosing ++ t.rest.after) ∧
    ∃ x, c.Spans x t.rest

/-- The attributes of a start tag are read in order.  The tag may be found to have no end. -/
theorem readAttributes_reads (tag : String) (start : Cursor) :
    ∀ (fuel : Nat) (attributes : List Attribute) (structurals : List (String × String × Position))
      (c : Cursor),
      Reading (readAttributes tag start fuel attributes structurals c)
        (·.Follows attributes structurals c) (fun e => PointsAt start e ∨ BreaksOff c e)
  | 0, _, _, _ => .of_error (.inl (markupError_pointsAt ..))
  | fuel + 1, attributes, structurals, c => by
      obtain ⟨gap, blank, first, -⟩ := skipBlanks_spans c
      have close {selfClosing : Bool} {d : Cursor}
          (step : (skipBlanks c).Spans (closeTag selfClosing) d) :
          StartTag.Follows ⟨attributes.reverse, structurals.reverse, selfClosing, d⟩ attributes
            structurals c := by
        refine ⟨[], [], (List.append_nil _).symm, (List.append_nil _).symm, ?_, _, first.trans step⟩
        rw [first.after, step.after]
        exact .done blank
      unfold readAttributes
      dsimp only
      split
      · exact .of_error (.inl (markupError_pointsAt ..))
      · rename_i after
        exact .of_ok (close (Cursor.spans_advance (x := closeTag true) after))
      · rename_i after
        have step : (skipBlanks c).Spans (closeTag false) (skipBlanks c).next := Cursor.spans_next after
        exact .of_ok (close step)
      · rename_i inside _ _
        have read := readAttribute_reads (skipBlanks c)
        split
        · rename_i e failed
          exact .of_error (.inr (.points first inside (read.error failed)))
        · rename_i a after made
          obtain ⟨name, value, named, letters, spelled, means, x, -, second⟩ := read.ok made
          refine (readAttributes_reads tag start fuel _ _ after).mono ?_ fun e failed =>
            failed.imp_right (·.behind (first.trans second))
          rintro t ⟨further, others, same, same', rest, y, third⟩
          refine ⟨a :: further, others, by simp [same], same', ?_, _, (first.trans second).trans third⟩
          rw [first.after]
          exact .plain blank named letters spelled means rest
        · rename_i directive expression p after made
          obtain ⟨name, value, named, letters, spelled, means, x, -, second⟩ := read.ok made
          refine (readAttributes_reads tag start fuel _ _ after).mono ?_ fun e failed =>
            failed.imp_right (·.behind (first.trans second))
          rintro t ⟨further, others, same, same', rest, y, third⟩
          refine ⟨further, (directive, expression, p) :: others, same, by simp [same'], ?_, _,
            (first.trans second).trans third⟩
          rw [first.after]
          exact .structural blank named letters spelled means rest

/-! ### Elements -/

theorem tagName?_eq_some {cs name : List Char} (h : tagName? cs = some name) :
    ∃ more, cs = name ++ more ∧ IsTagName name ∧ NotNext isTagPart more := by
  cases cs with
  | nil => cases h
  | cons l cs =>
      simp only [tagName?] at h
      split at h
      · rename_i letter
        cases h
        refine ⟨cs.dropWhile isTagPart, ?_, ⟨letter, List.all_takeWhile⟩,
          notNext_dropWhile isTagPart cs⟩
        rw [List.cons_append, List.takeWhile_append_dropWhile]
      · cases h

theorem exists_letter_of_opensElement {cs : List Char} (opens : opensElement cs = true) :
    ∃ l rest, cs = '<' :: l :: rest ∧ isLetter l = true := by
  unfold opensElement at opens
  split at opens
  · exact ⟨_, _, rfl, opens⟩
  · cases opens

/-- A start tag is read with its name, and has at most one structural directive. -/
theorem readStartTag_reads (bound : Nat) {c : Cursor} (opens : opensElement c.after = true) :
    Reading (readStartTag bound c)
      (fun (tag, t) => SpellsStart tag t.attributes t.structurals t.selfClosing c.after
          t.rest.after ∧ t.structurals.length ≤ 1 ∧ ∃ x ≠ [], c.Spans x t.rest)
      (BreaksOff c) := by
  obtain ⟨l, cs, after, letter⟩ := exists_letter_of_opensElement opens
  have inside : c.after ≠ [] := by simp [after]
  unfold readStartTag
  split
  · -- `opens` looks for a letter of any script, the name for one of ASCII.
    rename_i missing
    have notAscii : isAsciiLetter l = false := by simpa [after, tagName?] using missing
    exact .of_error (.foreign (.refl c) after letter notAscii)
  · rename_i name found
    rw [after] at found
    obtain ⟨more, rest, named, ends⟩ := tagName?_eq_some found
    have whole : c.after = ('<' :: name) ++ more := by
      rw [after, List.cons_append, ← rest]
      rfl
    have first : c.Spans ('<' :: name) (c.advance (name.length + 1)) := Cursor.spans_advance whole
    have behind := first.remaining whole
    dsimp only
    refine Reading.bind ((readAttributes_reads ..).mono (fun _ => id) fun e failed => ?_) ?_
    · exact failed.elim (.points (.refl c) inside) (·.behind first)
    · rintro t ⟨attributes, structurals, same, same', spelled, x, second⟩
      split
      · exact .of_error (.points (.refl c) inside ⟨_, rfl, .inr ⟨_, _, rfl⟩, rfl, rfl⟩)
      · rename_i few
        refine .of_ok ⟨?_, by simpa using few, _, by simp, first.trans second⟩
        rw [← String.toList_ofList (l := name)] at named
        rw [behind] at spelled
        rw [first.after, behind, List.cons_append, same, same']
        simpa using SpellsStart.intro named ends spelled

theorem readEndTag?_eq_some {c stop : Cursor} {tag : String} (opens : startsWith c.after ['<', '/'] = true)
    (h : readEndTag? c = some (tag, stop)) :
    ∃ close ≠ [], c.Spans close stop ∧
      ∀ expected, toLower tag = toLower expected → SpellsEnd expected close := by
  obtain ⟨rest, after⟩ := startsWith_iff.mp opens
  have first : c.Spans ['<', '/'] (c.advance 2) := Cursor.spans_advance after
  obtain ⟨gap, blank, second, -⟩ := skipBlanks_spans (c.advance 2)
  unfold readEndTag? at h
  dsimp only at h
  split at h
  · cases h
  · rename_i name found
    obtain ⟨more, whole, named, -⟩ := tagName?_eq_some found
    have third := Cursor.spans_advance whole
    obtain ⟨gap', blank', fourth, -⟩ :=
      skipBlanks_spans ((skipBlanks (c.advance 2)).advance name.length)
    split at h
    · rename_i closes
      cases h
      refine ⟨_, ?_, first.trans (second.trans (third.trans (fourth.trans (Cursor.spans_next closes)))),
        fun expected same => .intro named blank blank' same⟩
      simp
    · cases h

theorem skipComment?_eq_some {c stop : Cursor} (opens : startsWith c.after openComment = true)
    (h : skipComment? c = some stop) :
    ∃ body, c.Spans (openComment ++ (body ++ closeComment)) stop ∧
      breakOn? closeComment (body ++ (closeComment ++ stop.after)) = some (body, stop.after) := by
  obtain ⟨inside, after⟩ := startsWith_iff.mp opens
  obtain ⟨n, found, rfl⟩ := Option.map_eq_some_iff.mp h
  obtain ⟨⟨body, rest⟩, broken, rfl⟩ := Option.map_eq_some_iff.mp found
  rw [after, show (openComment ++ inside).drop 4 = inside from rfl] at broken
  have whole := eq_append_of_breakOn? broken
  have split : c.after = (openComment ++ (body ++ closeComment)) ++ rest := by
    rw [after, whole]
    simp [closeComment]
  have spans : c.Spans (openComment ++ (body ++ closeComment)) (c.advance (body.length + 7)) := by
    have := Cursor.spans_advance split
    simpa [openComment, closeComment] using this
  refine ⟨body, spans, ?_⟩
  rw [spans.remaining split, ← List.append_assoc]
  exact whole ▸ broken

/-- The element itself, without a structural directive around it. -/
def ownNode (tag : String) (t : StartTag) (children : List Node) (p : Position) : Node :=
  if containerTags.contains tag then .container tag t.attributes children p
  else .element tag t.attributes children p t.selfClosing none

theorem ownNode_hosts (tag : String) (t : StartTag) (children : List Node) (p : Position) :
    Hosts tag t.attributes t.selfClosing children [] (ownNode tag t children p) := by
  unfold ownNode
  split
  · rename_i group
    exact .container p (by simpa using group)
  · rename_i other
    exact .element p (by simpa using other)

theorem buildElement_hosts (tag : String) {t : StartTag} (children : List Node) (p : Position)
    (few : t.structurals.length ≤ 1) :
    Hosts tag t.attributes t.selfClosing children t.structurals (buildElement tag t children p) := by
  have own := ownNode_hosts tag t children p
  unfold buildElement
  dsimp only
  split
  · rename_i directive expression place others wrapped
    rw [wrapped, List.length_cons] at few
    obtain rfl : others = [] := List.length_eq_zero_iff.mp (by omega)
    rw [wrapped]
    exact .structural own
  · rename_i alone
    rw [alone]
    exact own

/-- How the content of an element ends: with its end tag, and outside of all elements with the text. -/
def Closes : Option (String × Cursor) → List Char → List Char → Prop
  | none, close, rest => close = [] ∧ rest = []
  | some (tag, _), close, _ => SpellsEnd tag close

/-- The nodes read beyond those so far are spelled behind the cursor. -/
def Follow (parent : Option (String × Cursor)) (nodes : List Node) (c : Cursor) (result : List Node)
    (d : Cursor) : Prop :=
  ∃ further close x, result = nodes.reverse ++ further ∧ Spells further c.after (close ++ d.after) ∧
    Closes parent close d.after ∧ c.Spans x d

theorem Follow.behind {parent : Option (String × Cursor)} {nodes made result : List Node}
    {c middle d : Cursor} {x : List Char} (h : Follow parent (made.reverse ++ nodes) middle result d)
    (spelled : Spells made c.after middle.after) (reached : c.Spans x middle) :
    Follow parent nodes c result d := by
  obtain ⟨further, close, y, same, spells, closes, more⟩ := h
  refine ⟨made ++ further, close, _, ?_, spelled.append spells, closes, reached.trans more⟩
  rw [same]
  simp

/-- Refused is what stands behind the cursor, or the element that it stands in. -/
def Refused (parent : Option (String × Cursor)) (c : Cursor) (e : Failure) : Prop :=
  BreaksOff c e ∨ ∃ tag start, parent = some (tag, start) ∧ PointsAt start e

theorem readNodes_reads :
    ∀ {fuel : Nat} (parent : Option (String × Cursor)) (nodes : List Node) {c : Cursor},
      c.after.length < fuel →
      Reading (readNodes fuel parent nodes c) (fun (result, d) => Follow parent nodes c result d)
        (Refused parent c)
  | 0, _, _, _, enough => by omega
  | fuel + 1, parent, nodes, c, enough => by
      have shorter {x : List Char} {d : Cursor} (visible : x ≠ []) (reached : c.Spans x d) :
          d.after.length < fuel := by
        have := reached.shorter visible
        omega
      -- A round that reads `made` hands over to the next one, on a shorter text.
      have goOn (made : List Node) {x : List Char} {d : Cursor} (visible : x ≠ [])
          (reached : c.Spans x d) (spelled : Spells made c.after d.after) :
          Reading (readNodes fuel parent (made.reverse ++ nodes) d)
            (fun (result, d) => Follow parent nodes c result d) (Refused parent c) :=
        (readNodes_reads _ _ (shorter visible reached)).mono (fun _ h => h.behind spelled reached)
          fun _ failed => failed.imp_left (·.behind reached)
      unfold readNodes
      split
      · rename_i empty
        split
        · exact .of_error (.inr ⟨_, _, rfl, markupError_pointsAt ..⟩)
        · refine .of_ok ⟨[], [], [], (List.append_nil _).symm, .done _, ⟨rfl, empty⟩, .refl c⟩
      · rename_i inside
        have fails (message : String) : Refused parent c (markupError message c none) :=
          .inl (.points (.refl c) inside (markupError_pointsAt ..))
        split
        · rename_i opens
          split
          · rename_i after skipped
            obtain ⟨body, reached, first⟩ := skipComment?_eq_some opens skipped
            refine goOn [] (by simp [openComment]) reached ?_
            rw [reached.after]
            simpa using Spells.comment first (.done _)
          · exact .of_error (fails _)
        split
        · rename_i opens
          split
          · exact .of_error (fails _)
          · rename_i tag after found
            obtain ⟨close, -, reached, ends⟩ := readEndTag?_eq_some opens found
            split
            · exact .of_error (fails _)
            · split
              · rename_i same
                refine .of_ok ⟨[], close, close, (List.append_nil _).symm, ?_,
                  ends _ (by simpa using same), reached⟩
                rw [reached.after]
                exact .done _
              · exact .of_error (fails _)
        split
        · rename_i opens
          have start := readStartTag_reads (fuel + 1) opens
          split
          · rename_i e failed
            exact .of_error (.inl (start.error failed))
          · rename_i tag t made
            obtain ⟨starts, few, x, visible, reached⟩ := start.ok made
            have hosts (children : List Node) := buildElement_hosts tag children (positionOf c) few
            split
            · rename_i childless
              refine goOn [_] visible reached ?_
              exact .childless starts (by simpa [IsChildless] using childless) (hosts []) (.done _)
            · rename_i hasChildren
              have within := readNodes_reads (some (tag, c)) [] (shorter visible reached)
              split
              · rename_i e failed
                refine .of_error (.inl ?_)
                obtain inner | ⟨_, _, own, points⟩ := within.error failed
                · exact inner.behind reached
                · -- The content does not end, which is refused at the start tag.
                  cases own
                  exact .points (.refl c) inside points
              · rename_i children after done
                obtain ⟨_, close, y, rfl, spells, ends, more⟩ := within.ok done
                refine goOn [_] (by simp [visible]) (reached.trans more) ?_
                exact .element starts (by simpa [IsChildless] using hasChildren) spells ends
                  (hosts children) (.done _)
        · rename_i noComment noEnd noElement
          have text := readText_reads [] enough (.refl c) trivial
          split
          · rename_i e failed
            exact .of_error (.inl (text.error failed))
          · rename_i texts after made
            obtain ⟨ns, x, rfl, spells, reached, ends⟩ := text.ok made
            have textual : endsText c.after = false := by simp [endsText, noComment, noEnd, noElement]
            exact goOn _ (visible_of_endsText reached inside textual ends) reached spells

/-! ### Whole templates -/

theorem quiet_of_blank : ∀ {x : List Char} (_ : x.all isBlank = true), Quiet x []
  | [], _ => trivial
  | a :: x, blank => by
      obtain ⟨first, others⟩ : isBlank a = true ∧ x.all isBlank = true := by simpa using blank
      refine ⟨?_, quiet_of_blank others⟩
      have noBrace : a ≠ '\x7b' := by rintro rfl; cases first
      have noAngle : a ≠ '<' := by rintro rfl; cases first
      simp [opensMarkup, opensInterpolation, endsText, opensElement, startsWith, dropLead?, noBrace,
        noAngle]

/-- A template that is read spells the nodes it is read as. -/
theorem parse_spells {s : String} {nodes : List Node} (h : parse s = .ok nodes) :
    Spells nodes s.toList [] := by
  unfold parse parseWithin at h
  split at h
  · rename_i blank
    cases h
    by_cases empty : s.toList = []
    · rw [empty]
      exact .done []
    · have run : IsRun s.toList [] := ⟨empty, quiet_of_blank blank, .inl rfl⟩
      simpa using Spells.blank run blank (.done [])
  · have enough : (Cursor.start s.toList).after.length < s.toList.length + 1 := Nat.lt_succ_self _
    have read := readNodes_reads none [] enough
    split at h
    · rename_i result d made
      cases h
      obtain ⟨_, _, _, rfl, spells, ⟨rfl, empty⟩, -⟩ := read.ok made
      rw [List.nil_append, empty] at spells
      exact spells
    · cases h

theorem parse_spells_paragraph :
    ∃ nodes, parse "<!-- a --><p (click)=\"go()\" id=main>Hi \x7b\x7b n \x7d\x7d<br></P> " = .ok nodes ∧
      Spells nodes "<!-- a --><p (click)=\"go()\" id=main>Hi \x7b\x7b n \x7d\x7d<br></P> ".toList [] := by
  have accepted :
      (parse "<!-- a --><p (click)=\"go()\" id=main>Hi \x7b\x7b n \x7d\x7d<br></P> ").isOk = true := by
    decide +kernel
  cases outcome : parse "<!-- a --><p (click)=\"go()\" id=main>Hi \x7b\x7b n \x7d\x7d<br></P> " with
  | ok nodes => exact ⟨nodes, rfl, parse_spells outcome⟩
  | error e => rw [outcome] at accepted; cases accepted

end ReactMigration.Template
