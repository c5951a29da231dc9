import Mathlib.Logic.Function.Iterate
import ReactMigration.Printing.Modules
import ReactMigration.Proofs.ImportPaths
import ReactMigration.Proofs.Subscriptions
import ReactMigration.Proofs.TextPositions

/-!
Lines that open a note.

Indenting ends every line of a text with a line feed, whatever ended it before, and drops an empty
line at the end.  A text that is indented once for each level it stands at thus keeps its lines, but
for one blank line at the end for every level below the first; a line opens a note before exactly if
it does afterwards.
-/

namespace ReactMigration.Text

open ReactMigration.Model (lineChars_append lines_unlines)

variable {cs ds : List Char} {c : Char}

/-! ### Where a note opens -/

/-- Whether the characters after the blank ones in front open a note. -/
def opensNote (cs : List Char) : Bool :=
  startsWith (cs.dropWhile isBlank) ['/', '/']

/-- Whether a note opens after one of the line breaks. -/
def breaksIntoNote : List Char → Bool
  | [] => false
  | c :: cs => isLineBreak c && opensNote cs || breaksIntoNote cs

/-- The text without the lines that open a note. -/
def withoutNotes (s : String) : String :=
  unlines ((splitAt '\n' s).filter fun row => !opensNote row.toList)

theorem opensNote_blank (blank : isBlank c = true) (cs : List Char) : opensNote (c :: cs) = opensNote cs := by
  rw [opensNote, List.dropWhile_cons_of_pos blank, opensNote]

theorem opensNote_visible (visible : isBlank c = false) (cs : List Char) :
    opensNote (c :: cs) = startsWith (c :: cs) ['/', '/'] := by
  rw [opensNote, List.dropWhile_cons_of_neg (by simp [visible])]

theorem opensNote_of_blank (blank : ∀ a ∈ cs, isBlank a = true) : opensNote cs = false := by
  rw [opensNote, List.dropWhile_eq_nil_iff.mpr blank]
  rfl

theorem startsWith_strokes (c d : Char) (cs : List Char) :
    startsWith (c :: d :: cs) ['/', '/'] = (c == '/' && d == '/') := by
  cases first : c == '/' <;> cases second : d == '/' <;> simp [startsWith, dropLead?, first, second]

/-- Two strokes are either both among the characters in front or not there at all. -/
theorem startsWith_strokes_append (other : ds.head? ≠ some '/') :
    startsWith (c :: cs ++ ds) ['/', '/'] = startsWith (c :: cs) ['/', '/'] := by
  match cs, ds, other with
  | d :: cs, ds, _ => rw [List.cons_append, List.cons_append, startsWith_strokes, startsWith_strokes]
  | [], [], _ => rw [List.append_nil]
  | [], d :: ds, other =>
      have different : (d == '/') = false := by simpa using other
      rw [List.singleton_append, startsWith_strokes, different, Bool.and_false]
      simp [startsWith, dropLead?]

/-- What neither opens a note nor starts with a stroke opens none behind other characters. -/
theorem opensNote_append (shut : opensNote ds = false) (other : ds.head? ≠ some '/') :
    opensNote (cs ++ ds) = opensNote cs := by
  induction cs with
  | nil => exact shut
  | cons c cs ih =>
      by_cases blank : isBlank c = true
      · rw [List.cons_append, opensNote_blank blank, opensNote_blank blank, ih]
      · have visible := Bool.eq_false_iff.mpr blank
        rw [List.cons_append, opensNote_visible visible, opensNote_visible visible, ← List.cons_append,
          startsWith_strokes_append other]

/-- A line break ends what opens a note, unless all before it is blank. -/
theorem opensNote_break (breaks : isLineBreak c = true) :
    opensNote (cs ++ c :: ds) = (opensNote cs || cs.all isBlank && opensNote ds) := by
  have blankBreak := isBlank_of_isLineBreak breaks
  have other : (c :: ds).head? ≠ some '/' := by
    rintro ⟨⟩
    cases breaks
  induction cs with
  | nil =>
      rw [List.nil_append, opensNote_blank blankBreak]
      rfl
  | cons a cs ih =>
      by_cases blank : isBlank a = true
      · rw [List.cons_append, opensNote_blank blank, opensNote_blank blank, ih, List.all_cons, blank, Bool.true_and]
      · have visible := Bool.eq_false_iff.mpr blank
        rw [List.cons_append, opensNote_visible visible, opensNote_visible visible, ← List.cons_append,
          startsWith_strokes_append other, List.all_cons, visible, Bool.false_and, Bool.false_and, Bool.or_false]

theorem breaksIntoNote_append (shut : opensNote ds = false) (other : ds.head? ≠ some '/') :
    breaksIntoNote (cs ++ ds) = (breaksIntoNote cs || breaksIntoNote ds) := by
  induction cs with
  | nil => rfl
  | cons c cs ih => rw [List.cons_append, breaksIntoNote, breaksIntoNote, opensNote_append shut other, ih, Bool.or_assoc]

theorem breaksIntoNote_unbroken (unbroken : cs.any isLineBreak = false) (ds : List Char) :
    breaksIntoNote (cs ++ ds) = breaksIntoNote ds := by
  induction cs with
  | nil => rfl
  | cons c cs ih =>
      obtain ⟨here, others⟩ := Bool.or_eq_false_iff.mp unbroken
      rw [List.cons_append, breaksIntoNote, here, Bool.false_and, Bool.false_or, ih others]

theorem opensNote_other (visible : isBlank c = false) (other : c ≠ '/') (cs : List Char) :
    opensNote (c :: cs) = false := by
  rw [opensNote_visible visible]
  simp [startsWith, dropLead?, other]

/-- A visible character other than a stroke parts what opens a note from what follows. -/
theorem opensNote_mark (visible : isBlank c = false) (other : c ≠ '/') : opensNote (cs ++ c :: ds) = opensNote cs :=
  opensNote_append (opensNote_other visible other ds) (by simpa using other)

theorem breaksIntoNote_mark (visible : isBlank c = false) (other : c ≠ '/') :
    breaksIntoNote (cs ++ c :: ds) = (breaksIntoNote cs || breaksIntoNote ds) := by
  have whole : isLineBreak c = false :=
    Bool.eq_false_iff.mpr fun breaks => Bool.false_ne_true (visible.symm.trans (isBlank_of_isLineBreak breaks))
  rw [breaksIntoNote_append (opensNote_other visible other ds) (by simpa using other), breaksIntoNote, whole, Bool.false_and, Bool.false_or]

/-- Some line opens a note if the first one does or a break is followed by a note. -/
theorem any_lineChars_opensNote {line : List Char} (unbroken : ∀ a ∈ line, isLineBreak a = false) (cs : List Char) :
    (lineChars line cs).any opensNote = (opensNote (line.reverse ++ cs) || breaksIntoNote cs) := by
  fun_induction lineChars line cs with
  | case1 => rfl
  | case2 line => simp [breaksIntoNote]
  | case3 line cs ih =>
      have carriage : isLineBreak '\r' = true := rfl
      have feed : isLineBreak '\n' = true := rfl
      have later : (lineChars [] cs).any opensNote = (opensNote cs || breaksIntoNote cs) := ih (by simp)
      rw [List.any_cons, later, opensNote_break carriage, breaksIntoNote, breaksIntoNote, carriage, feed,
        opensNote_blank (isBlank_of_isLineBreak feed)]
      cases opensNote line.reverse <;> cases opensNote cs <;> simp
  | case4 line c cs _ breaks ih =>
      have later : (lineChars [] cs).any opensNote = (opensNote cs || breaksIntoNote cs) := ih (by simp)
      rw [List.any_cons, later, opensNote_break breaks, breaksIntoNote, breaks]
      cases opensNote line.reverse <;> cases opensNote cs <;> simp
  | case5 line c cs _ plain ih =>
      have plain := Bool.eq_false_iff.mpr plain
      rw [ih (List.forall_mem_cons.mpr ⟨plain, unbroken⟩), List.reverse_cons, List.append_assoc, breaksIntoNote, plain,
        Bool.false_and, Bool.false_or]
      rfl

theorem opensNote_lines_iff (s : String) :
    (∀ line ∈ lines s, opensNote line.toList = false) ↔ opensNote s.toList = false ∧ breaksIntoNote s.toList = false := by
  have any := any_lineChars_opensNote (List.forall_mem_nil _) s.toList
  rw [List.reverse_nil, List.nil_append] at any
  rw [← Bool.or_eq_false_iff, ← any]
  simp [lines]

/-! ### Quoting -/

theorem quotedPart_cases (c : Char) :
    quotedPart c = [c] ∨ quotedPart c = ['\\', c] ∧ isBlank c = false ∧ c ≠ '/' := by
  unfold quotedPart
  split
  · rename_i backslash
    rw [beq_iff_eq.mp backslash]
    exact .inr (by decide)
  · split
    · rename_i quote
      rw [beq_iff_eq.mp quote]
      exact .inr (by decide)
    · exact .inl rfl

theorem startsWith_strokes_quoted (c : Char) (cs : List Char) :
    startsWith (c :: cs.flatMap quotedPart) ['/', '/'] = startsWith (c :: cs) ['/', '/'] := by
  cases cs with
  | nil => rfl
  | cons d cs =>
      rw [List.flatMap_cons, startsWith_strokes]
      rcases quotedPart_cases d with plain | ⟨quoted, -, other⟩
      · rw [plain, List.singleton_append, startsWith_strokes]
      · rw [quoted, List.cons_append, startsWith_strokes, beq_false_of_ne other]
        rfl

theorem opensNote_quoted (cs : List Char) : opensNote (cs.flatMap quotedPart) = opensNote cs := by
  induction cs with
  | nil => rfl
  | cons c cs ih =>
      rw [List.flatMap_cons]
      rcases quotedPart_cases c with plain | ⟨quoted, visible, other⟩
      · rw [plain, List.singleton_append]
        by_cases blank : isBlank c = true
        · rw [opensNote_blank blank, opensNote_blank blank, ih]
        · have visible := Bool.eq_false_iff.mpr blank
          rw [opensNote_visible visible, opensNote_visible visible, startsWith_strokes_quoted]
      · rw [quoted, opensNote_other visible other, List.cons_append, opensNote_other (by decide) (by decide)]

theorem breaksIntoNote_quoted (cs : List Char) : breaksIntoNote (cs.flatMap quotedPart) = breaksIntoNote cs := by
  induction cs with
  | nil => rfl
  | cons c cs ih =>
      rw [List.flatMap_cons, breaksIntoNote, ← ih]
      rcases quotedPart_cases c with plain | ⟨quoted, visible, -⟩
      · rw [plain, List.singleton_append, breaksIntoNote, opensNote_quoted]
      · have whole : isLineBreak c = false :=
          Bool.eq_false_iff.mpr fun breaks => Bool.false_ne_true (visible.symm.trans (isBlank_of_isLineBreak breaks))
        have stroke : isLineBreak '\\' = false := rfl
        rw [quoted, whole, breaksIntoNote_unbroken (by simp [stroke, whole]), Bool.false_and, Bool.false_or]

/-- A text in quotes breaks into a note as the text does. -/
theorem breaksIntoNote_quoteText {front : List Char} (whole : front.any isLineBreak = false) (text : String)
    (back : List Char) :
    breaksIntoNote (front ++ ((quoteText text).toList ++ back)) =
      (breaksIntoNote text.toList || breaksIntoNote back) := by
  have quoted : (quoteText text).toList ++ back = ['\''] ++ (text.toList.flatMap quotedPart ++ '\'' :: back) := by
    rw [quoteText_toList, List.cons_append, List.append_assoc]
    rfl
  rw [breaksIntoNote_unbroken whole, quoted, breaksIntoNote_unbroken (by decide), breaksIntoNote_mark (by decide) (by decide),
    breaksIntoNote_quoted]

/-! ### Rows -/

/-- Texts that are joined by line feeds are split into the rows of each. -/
theorem splitAt_unlines {parts : List String} (some : parts ≠ []) :
    splitAt '\n' (unlines parts) = parts.flatMap (splitAt '\n') := by
  induction parts with
  | nil => exact absurd rfl some
  | cons part parts ih =>
      cases parts with
      | nil => simp [unlines]
      | cons next parts =>
          rw [unlines, String.intercalate_cons_cons, splitAt_append_mark rfl, List.flatMap_cons, ← ih (by simp)]
          rfl

theorem splitAt_single {mark : Char} {s : String} (unbroken : mark ∉ s.toList) : splitAt mark s = [s] := by
  rw [splitAt, splitChar_unbroken unbroken, List.map_singleton, String.ofList_toList]

/-- What is left without the notes is told by the rows that are left. -/
theorem withoutNotes_eq_iff {s t row : String} (mem : row ∈ splitAt '\n' s) (code : opensNote row.toList = false) :
    withoutNotes s = t ↔ (splitAt '\n' s).filter (fun row => !opensNote row.toList) = splitAt '\n' t := by
  have kept : row ∈ (splitAt '\n' s).filter fun row => !opensNote row.toList :=
    List.mem_filter.mpr ⟨mem, by rw [code]; rfl⟩
  have single : ∀ r ∈ (splitAt '\n' s).filter (fun row => !opensNote row.toList), splitAt '\n' r = [r] := by
    intro r mem
    obtain ⟨part, listed, rfl⟩ := List.mem_map.mp (List.mem_filter.mp mem).1
    exact splitAt_single (by simpa using notMem_of_mem_splitChar listed)
  constructor
  · intro same
    rw [← same, withoutNotes, splitAt_unlines (List.ne_nil_of_mem kept), List.flatMap_congr single, ← List.map_eq_flatMap,
      List.map_id']
  · intro same
    rw [withoutNotes, same, unlines, intercalate_splitAt_mark rfl]

/-- The rows without an empty one at the end. -/
def dropEmptyEnd (rows : List String) : List String :=
  if rows.getLast? = some "" then rows.dropLast else rows

theorem lines_unlines_empty {rows : List String} (some : rows ≠ [])
    (whole : ∀ row ∈ rows, ∀ a ∈ row.toList, isLineBreak a = false) : lines (unlines (rows ++ [""])) = rows := by
  induction rows with
  | nil => exact absurd rfl some
  | cons row rows ih =>
      obtain ⟨here, others⟩ := List.forall_mem_cons.mp whole
      have joined : (unlines (row :: rows ++ [""])).toList = row.toList ++ '\n' :: (unlines (rows ++ [""])).toList := by
        rw [unlines, List.cons_append, String.intercalate_cons_of_ne_nil (by simp), String.toList_append,
          String.toList_append, List.append_assoc]
        rfl
      rw [lines, joined, lineChars_append here, List.map_cons, ← lines, List.reverse_nil, List.nil_append,
        String.ofList_toList]
      refine congrArg (row :: ·) ?_
      cases rows with
      | nil => rfl
      | cons next rows => exact ih (by simp) others

/-- Rows that are joined are read back, but for an empty one at the end. -/
theorem lines_unlines_rows {rows : List String} {shown : String} (mem : shown ∈ rows) (visible : shown ≠ "")
    (whole : ∀ row ∈ rows, ∀ a ∈ row.toList, isLineBreak a = false) : lines (unlines rows) = dropEmptyEnd rows := by
  rcases List.eq_nil_or_concat rows with rfl | ⟨front, last, rfl⟩
  · cases mem
  rw [List.concat_eq_append] at mem whole ⊢
  obtain ⟨wholeFront, wholeLast⟩ := List.forall_mem_append.mp whole
  by_cases empty : last = ""
  · subst empty
    have some : front ≠ [] := by
      rintro rfl
      exact visible (List.mem_singleton.mp mem)
    rw [lines_unlines_empty some wholeFront, dropEmptyEnd, List.getLast?_concat, if_pos rfl, List.dropLast_concat]
  · rw [lines_unlines wholeFront (wholeLast last (by simp)) empty, dropEmptyEnd, List.getLast?_concat,
      if_neg (by simpa using empty)]

/-- The rows open notes, but for so many blank ones at the end. -/
def NotesBut (blanks : Nat) (rows : List String) : Prop :=
  ∃ notes rest, rows = notes ++ rest ∧ (∀ row ∈ notes, opensNote row.toList = true) ∧
    (∀ row ∈ rest, isBlankText row = true) ∧ rest.length ≤ blanks

theorem notesBut_zero_iff {rows : List String} : NotesBut 0 rows ↔ ∀ row ∈ rows, opensNote row.toList = true := by
  constructor
  · rintro ⟨notes, rest, rfl, opens, -, few⟩
    obtain rfl := List.eq_nil_of_length_eq_zero (Nat.le_zero.mp few)
    rwa [List.append_nil]
  · intro opens
    exact ⟨rows, [], by simp, opens, by simp, Nat.le_refl 0⟩

theorem opensNote_blankText {row : String} (blank : isBlankText row = true) : opensNote row.toList = false :=
  opensNote_of_blank (List.all_eq_true.mp blank)

theorem notesBut_dropEmptyEnd_iff {n : Nat} {rows : List String} (tidy : ∀ row ∈ rows, isBlankText row = true → row = "") :
    NotesBut n (dropEmptyEnd rows) ↔ NotesBut (n + 1) rows := by
  rcases List.eq_nil_or_concat rows with rfl | ⟨front, last, rfl⟩
  · exact iff_of_true ⟨[], [], by simp [dropEmptyEnd]⟩ ⟨[], [], by simp⟩
  rw [List.concat_eq_append] at tidy ⊢
  by_cases empty : last = ""
  · subst empty
    rw [dropEmptyEnd, List.getLast?_concat, if_pos rfl, List.dropLast_concat]
    constructor
    · rintro ⟨notes, rest, rfl, opens, blank, few⟩
      refine ⟨notes, rest ++ [""], by simp, opens, ?_, by simpa using few⟩
      exact List.forall_mem_append.mpr ⟨blank, by simp [isBlankText]⟩
    · rintro ⟨notes, rest, same, opens, blank, few⟩
      rcases List.eq_nil_or_concat rest with rfl | ⟨rest, last, rfl⟩
      · have opened := opens "" (by rw [← List.append_nil notes, ← same]; simp)
        cases opened
      · rw [List.concat_eq_append] at same blank few
        rw [← List.append_assoc] at same
        obtain ⟨rfl, -⟩ := List.append_inj' same rfl
        exact ⟨notes, rest, rfl, opens, fun row mem => blank row (by simp [mem]), by simpa using few⟩
  · rw [dropEmptyEnd, List.getLast?_concat, if_neg (by simpa using empty)]
    constructor
    · rintro ⟨notes, rest, same, opens, blank, few⟩
      exact ⟨notes, rest, same, opens, blank, Nat.le_succ_of_le few⟩
    · rintro ⟨notes, rest, same, opens, blank, few⟩
      rcases List.eq_nil_or_concat rest with rfl | ⟨rest, other, rfl⟩
      · exact ⟨notes, [], same, opens, by simp, Nat.zero_le _⟩
      · rw [List.concat_eq_append] at same blank
        rw [← List.append_assoc] at same
        obtain ⟨-, ends⟩ := List.append_inj' same rfl
        obtain rfl := List.singleton_inj.mp ends
        exact absurd (tidy last (by simp) (blank last (by simp))) empty

end ReactMigration.Text

namespace ReactMigration.Printing

open ReactMigration.Text
open ReactMigration.Model (indentedRow indentBy_eq indentedRow_whole lines_whole lines_ne_nil)

/-! ### Indentation -/

theorem isBlankText_indentedRow (level : Nat) (row : String) : isBlankText (indentedRow level row) = isBlankText row := by
  unfold indentedRow
  split
  · rename_i blank
    rw [blank]
    rfl
  · rename_i visible
    rw [isBlankText] at visible
    rw [isBlankText, isBlankText, String.toList_append, List.all_append, Bool.eq_false_iff.mpr visible, Bool.and_false]

theorem opensNote_indentedRow (level : Nat) (row : String) :
    opensNote (indentedRow level row).toList = opensNote row.toList := by
  unfold indentedRow
  split
  · rename_i blank
    rw [opensNote_blankText blank]
    rfl
  · rw [String.toList_append, opensNote, List.dropWhile_append_of_pos, opensNote]
    intro a mem
    rw [spaces, String.toList_ofList] at mem
    rw [List.eq_of_mem_replicate mem]
    decide

theorem indentedRow_tidy {level : Nat} {row : String} (blank : isBlankText (indentedRow level row) = true) :
    indentedRow level row = "" := by
  rw [isBlankText_indentedRow] at blank
  rw [indentedRow, if_pos blank]

theorem notesBut_map_iff {n level : Nat} {rows : List String} : NotesBut n (rows.map (indentedRow level)) ↔ NotesBut n rows := by
  constructor
  · rintro ⟨notes, rest, same, opens, blank, few⟩
    obtain ⟨notes, rest, rfl, rfl, rfl⟩ := List.map_eq_append_iff.mp same
    simp only [List.forall_mem_map, opensNote_indentedRow, isBlankText_indentedRow, List.length_map] at opens blank few
    exact ⟨notes, rest, rfl, opens, blank, few⟩
  · rintro ⟨notes, rest, rfl, opens, blank, few⟩
    refine ⟨_, _, List.map_append, ?_, ?_, by rwa [List.length_map]⟩
    · simpa only [List.forall_mem_map, opensNote_indentedRow] using opens
    · simpa only [List.forall_mem_map, isBlankText_indentedRow] using blank

/-- Some line of the text is not blank. -/
def Shows (text : String) : Prop :=
  ∃ line ∈ lines text, isBlankText line = false

theorem Shows.ne_empty {text : String} (shows : Shows text) : text ≠ "" := by
  rintro rfl
  obtain ⟨line, mem, -⟩ := shows
  cases mem

theorem lines_indentBy {text : String} (shows : Shows text) (level : Nat) :
    lines (indentBy level text) = dropEmptyEnd ((lines text).map (indentedRow level)) := by
  obtain ⟨line, mem, visible⟩ := shows
  rw [indentBy_eq]
  refine lines_unlines_rows (List.mem_map_of_mem mem) (fun empty => ?_) ?_
  · rw [← isBlankText_indentedRow level, empty] at visible
    cases visible
  · exact List.forall_mem_map.mpr fun line mem => indentedRow_whole (lines_whole text line mem)

theorem mem_dropEmptyEnd {row : String} {rows : List String} (visible : row ≠ "") :
    row ∈ dropEmptyEnd rows ↔ row ∈ rows := by
  rcases List.eq_nil_or_concat rows with rfl | ⟨front, last, rfl⟩
  · rfl
  rw [List.concat_eq_append, dropEmptyEnd, List.getLast?_concat]
  split
  · rename_i empty
    have other : row ≠ last := (Option.some.inj empty).symm ▸ visible
    rw [List.dropLast_concat]
    simp [other]
  · rfl

theorem Shows.indentBy {text : String} (shows : Shows text) (level : Nat) : Shows (indentBy level text) := by
  obtain ⟨line, mem, visible⟩ := id shows
  have shown : isBlankText (indentedRow level line) = false := by rwa [isBlankText_indentedRow]
  refine ⟨indentedRow level line, ?_, shown⟩
  rw [lines_indentBy shows, mem_dropEmptyEnd]
  · exact List.mem_map_of_mem mem
  · intro empty
    rw [empty] at shown
    cases shown

theorem Shows.splitAt_indentBy {text : String} (shows : Shows text) (level : Nat) :
    splitAt '\n' (Printing.indentBy level text) = (lines text).map (indentedRow level) := by
  have some : (lines text).map (indentedRow level) ≠ [] := by simpa using lines_ne_nil shows.ne_empty
  rw [indentBy_eq, splitAt_unlines some, List.flatMap_map]
  have single : ∀ line ∈ lines text, splitAt '\n' (indentedRow level line) = [indentedRow level line] :=
    fun line mem => splitAt_single fun feed => by cases indentedRow_whole (lines_whole text line mem) '\n' feed
  rw [List.flatMap_congr single, ← List.map_eq_flatMap]

/-- A line so deep among the entries, as it stands in the table. -/
def nested (depth : Nat) (line : String) : String :=
  indentLine (indentTwice^[depth] line)

theorem nested_succ {text : String} (shows : Shows text) (depth : Nat) :
    nested (depth + 1) text = nested depth (indentBy 2 text) := by
  rw [nested, Function.iterate_succ_apply, indentTwice, if_neg (by simpa using shows.ne_empty), nested]

theorem splitAt_nested_zero {text : String} (shows : Shows text) :
    splitAt '\n' (nested 0 text) = (lines text).map (indentedRow 1) := by
  rw [nested, Function.iterate_zero_apply, indentLine, if_neg (by simpa using shows.ne_empty), indent,
    shows.splitAt_indentBy]

/-- Every level but the first lets a blank line at the end go. -/
theorem nested_notes_iff {text : String} (shows : Shows text) (depth : Nat) :
    (∀ row ∈ splitAt '\n' (nested depth text), opensNote row.toList = true) ↔ NotesBut depth (lines text) := by
  induction depth generalizing text with
  | zero => rw [splitAt_nested_zero shows, ← notesBut_zero_iff, notesBut_map_iff]
  | succ depth ih =>
      rw [nested_succ shows, ih (shows.indentBy 2), lines_indentBy shows, notesBut_dropEmptyEnd_iff, notesBut_map_iff]
      exact List.forall_mem_map.mpr fun line _ => indentedRow_tidy

theorem nested_code_iff {text : String} (shows : Shows text) (depth : Nat) :
    (∀ row ∈ splitAt '\n' (nested depth text), opensNote row.toList = false) ↔
      ∀ line ∈ lines text, opensNote line.toList = false := by
  induction depth generalizing text with
  | zero => simp only [splitAt_nested_zero shows, List.forall_mem_map, opensNote_indentedRow]
  | succ depth ih =>
      rw [nested_succ shows, ih (shows.indentBy 2), lines_indentBy shows]
      have all (rows : List String) : (∀ row ∈ dropEmptyEnd rows, opensNote row.toList = false) ↔
          ∀ row ∈ rows, opensNote row.toList = false := by
        refine forall_congr' fun row => ?_
        by_cases empty : row = ""
        · subst empty
          exact iff_of_true (fun _ => rfl) fun _ => rfl
        · rw [mem_dropEmptyEnd empty]
      rw [all]
      simp only [List.forall_mem_map, opensNote_indentedRow]

theorem shows_of_mem {a : Char} (visible : isBlank a = false) {s : String} (mem : a ∈ s.toList) : Shows s := by
  have other {b : Char} (breaks : isLineBreak b = true) : a ≠ b := by
    rintro rfl
    exact Bool.false_ne_true (visible.symm.trans (isBlank_of_isLineBreak breaks))
  have found (line cs : List Char) (mem : a ∈ line ∨ a ∈ cs) : ∃ l ∈ lineChars line cs, a ∈ l := by
    fun_induction lineChars line cs with
    | case1 => simp at mem
    | case2 line => simpa using mem
    | case3 line cs ih =>
        have carriage : a ≠ '\r' := other rfl
        have feed : a ≠ '\n' := other rfl
        rcases mem with before | mem
        · exact ⟨_, List.mem_cons_self, List.mem_reverse.mpr before⟩
        · obtain ⟨l, listed, within⟩ := ih (.inr (by simpa [carriage, feed] using mem))
          exact ⟨l, List.mem_cons_of_mem _ listed, within⟩
    | case4 line c cs _ breaks ih =>
        rcases mem with before | mem
        · exact ⟨_, List.mem_cons_self, List.mem_reverse.mpr before⟩
        · obtain ⟨l, listed, within⟩ := ih (.inr ((List.mem_cons.mp mem).resolve_left (other breaks)))
          exact ⟨l, List.mem_cons_of_mem _ listed, within⟩
    | case5 line c cs _ plain ih => exact ih (by simpa [or_assoc, or_comm, or_left_comm] using mem)
  obtain ⟨l, listed, within⟩ := found [] s.toList (.inr mem)
  refine ⟨String.ofList l, List.mem_map_of_mem listed, ?_⟩
  rw [isBlankText, String.toList_ofList, List.all_eq_false]
  exact ⟨a, within, by simp [visible]⟩

end ReactMigration.Printing
