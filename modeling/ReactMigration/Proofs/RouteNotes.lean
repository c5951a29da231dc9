import ReactMigration.Conversion.Module
import ReactMigration.Proofs.NoteLines
import ReactMigration.Proofs.Gathering

/-!
Notes in a table of routes.

Each entry stands in the table with its note in front and its children inside, every level of
children indented further.  Taking out the lines that open a note leaves the table of the same
entries without their notes exactly if every line of every note opens one and no line of another
text does.  A line break in a note ends it, so what follows stands among the entries.
-/

namespace ReactMigration

open ReactMigration.Text

/-! ### Entries without notes -/

mutual

/-- The entry without its note and those of its children. -/
def RouteEntry.withoutNotes : RouteEntry → RouteEntry
  | .mk path index element redirect children _ => .mk path index element redirect (RouteEntry.allWithoutNotes children) none

/-- The entries without their notes and those of their children. -/
def RouteEntry.allWithoutNotes : List RouteEntry → List RouteEntry
  | [] => []
  | e :: es => e.withoutNotes :: RouteEntry.allWithoutNotes es

end

/-- The texts from outside that an entry shows in its fields. -/
def shownTexts (path : Option String) (index : Bool) (element redirect : Option String) : List String :=
  (if index then [] else path.toList) ++ (redirect.or element).toList

mutual

/-- At so many levels below the first, the notes of the entry and its children are notes in every
line, but for a blank one at the end for each level, and nothing else that they show is one. -/
def RouteEntry.NotesApart (depth : Nat) : RouteEntry → Prop
  | .mk path index element redirect children comment =>
      (∀ note ∈ comment, NotesBut depth (lines ("// " ++ note))) ∧
        (∀ text ∈ shownTexts path index element redirect, breaksIntoNote text.toList = false) ∧
          RouteEntry.AllNotesApart (depth + 1) children

/-- The notes of all entries stand apart. -/
def RouteEntry.AllNotesApart (depth : Nat) : List RouteEntry → Prop
  | [] => True
  | e :: es => e.NotesApart depth ∧ RouteEntry.AllNotesApart depth es

end

theorem RouteEntry.allNotesApart_iff {depth : Nat} {es : List RouteEntry} :
    RouteEntry.AllNotesApart depth es ↔ ∀ e ∈ es, e.NotesApart depth := by
  induction es with
  | nil => simp [RouteEntry.AllNotesApart]
  | cons e es ih => rw [RouteEntry.AllNotesApart, ih, List.forall_mem_cons]

theorem RouteEntry.allWithoutNotes_eq_map (es : List RouteEntry) :
    RouteEntry.allWithoutNotes es = es.map RouteEntry.withoutNotes := by
  induction es with
  | nil => rfl
  | cons e es ih => rw [RouteEntry.allWithoutNotes, ih, List.map_cons]

namespace Printing

/-! ### Lines at their depths -/

/-- The lines of an entry before its children. -/
def openingLines (fields : List String) (childless : Bool) : List String :=
  if childless && (listed fields ++ ",").length ≤ maxEntry then [listed fields ++ ","]
  else "\x7b" :: fields.map (fun f => "  " ++ f ++ ",") ++ if childless then [] else ["  children: ["]

/-- The lines of an entry after its children. -/
def closingLines (fields : List String) (childless : Bool) : List String :=
  if childless && (listed fields ++ ",").length ≤ maxEntry then []
  else (if childless then [] else ["  ],"]) ++ ["\x7d,"]

/-- A line of an entry: a note or not, and at which level. -/
structure Placed where
  isNote : Bool
  depth : Nat
  text : String

mutual

/-- The lines of an entry at a level, its children one level below. -/
def placedLines (depth : Nat) : RouteEntry → List Placed
  | .mk path index element redirect children comment =>
      let fields := entryFields path index element redirect
      (commentLine comment).map (.mk true depth) ++ (openingLines fields children.isEmpty).map (.mk false depth) ++
        placedChildren (depth + 1) children ++ (closingLines fields children.isEmpty).map (.mk false depth)

/-- The lines of entries at a level. -/
def placedChildren (depth : Nat) : List RouteEntry → List Placed
  | [] => []
  | e :: es => placedLines depth e ++ placedChildren depth es

end

theorem entryLines_eq (path : Option String) (index : Bool) (element redirect : Option String)
    (children : List RouteEntry) (comment : Option String) :
    entryLines (.mk path index element redirect children comment) =
      let fields := entryFields path index element redirect
      commentLine comment ++ openingLines fields children.isEmpty ++ childEntryLines children ++
        closingLines fields children.isEmpty := by
  rw [entryLines]
  unfold openingLines closingLines
  cases children with
  | nil =>
      simp only [List.isEmpty_nil, Bool.true_and, childEntryLines, decide_eq_true_eq]
      split <;> simp
  | cons e es => simp [List.append_assoc]

mutual

theorem placedLines_text (depth : Nat) :
    ∀ e, (placedLines depth e).map (fun p => indentTwice^[p.depth] p.text) = (entryLines e).map indentTwice^[depth]
  | .mk path index element redirect children comment => by
      have inner := placedChildren_text depth children
      rw [placedLines, entryLines_eq]
      simp only [List.map_append, List.map_map, inner]
      rfl

theorem placedChildren_text (depth : Nat) :
    ∀ es, (placedChildren (depth + 1) es).map (fun p => indentTwice^[p.depth] p.text) =
      (childEntryLines es).map indentTwice^[depth]
  | [] => rfl
  | e :: es => by
      rw [placedChildren, childEntryLines, List.map_append, List.map_append, placedLines_text, placedChildren_text,
        List.map_map, Function.iterate_succ]

end

mutual

/-- Without its notes an entry keeps its other lines. -/
theorem placedLines_withoutNotes (depth : Nat) :
    ∀ e, placedLines depth e.withoutNotes = (placedLines depth e).filter fun p => !p.isNote
  | .mk path index element redirect children comment => by
      have inner := placedChildren_withoutNotes (depth + 1) children
      have childless : (RouteEntry.allWithoutNotes children).isEmpty = children.isEmpty := by cases children <;> rfl
      rw [RouteEntry.withoutNotes, placedLines, placedLines, childless, inner]
      simp [List.filter_append, List.filter_map, Function.comp_def, commentLine, present]

theorem placedChildren_withoutNotes (depth : Nat) :
    ∀ es, placedChildren depth (RouteEntry.allWithoutNotes es) = (placedChildren depth es).filter fun p => !p.isNote
  | [] => rfl
  | e :: es => by
      rw [RouteEntry.allWithoutNotes, placedChildren, placedChildren, placedLines_withoutNotes, placedChildren_withoutNotes,
        List.filter_append]

end

/-! ### Which lines are notes -/

/-- No line of the text opens a note. -/
def IsCode (text : String) : Prop :=
  opensNote text.toList = false ∧ breaksIntoNote text.toList = false

instance : DecidablePred IsCode := fun _ =>
  inferInstanceAs (Decidable (_ ∧ _))

/-- The fields of an entry break into a note where the texts from outside do. -/
theorem entryFields_breaks_iff (path : Option String) (index : Bool) (element redirect : Option String) :
    (∀ f ∈ entryFields path index element redirect, breaksIntoNote f.toList = false) ↔
      ∀ text ∈ shownTexts path index element redirect, breaksIntoNote text.toList = false := by
  have place (text : String) : breaksIntoNote ("path: " ++ quoteText text).toList = breaksIntoNote text.toList := by
    have front : "path: ".toList.any isLineBreak = false := by decide
    have same := breaksIntoNote_quoteText front text []
    rwa [List.append_nil, ← String.toList_append, breaksIntoNote, Bool.or_false] at same
  have target (text : String) : breaksIntoNote ("element: <Navigate to=" ++ braced (quoteText text) ++ " replace />").toList =
      breaksIntoNote text.toList := by
    have front : ("element: <Navigate to=".toList ++ "\x7b".toList).any isLineBreak = false := by decide
    have back : breaksIntoNote ("\x7d".toList ++ " replace />".toList) = false := by decide
    have same := breaksIntoNote_quoteText front text ("\x7d".toList ++ " replace />".toList)
    rw [back, Bool.or_false] at same
    rw [← same]
    simp only [braced, String.toList_append, List.append_assoc]
  have shown (text : String) : breaksIntoNote ("element: <" ++ text ++ " />").toList = breaksIntoNote text.toList := by
    rw [String.toList_append, String.toList_append, List.append_assoc, breaksIntoNote_unbroken (by decide),
      breaksIntoNote_append (by decide) (by decide)]
    exact Bool.or_false _
  unfold entryFields shownTexts
  rw [List.forall_mem_append, List.forall_mem_append]
  refine and_congr ?_ ?_
  · cases index with
    | true => exact iff_of_true (List.forall_mem_singleton.mpr (by decide)) (by simp)
    | false => simp only [Bool.false_eq_true, if_false, List.forall_mem_map, place]
  · cases redirect with
    | some text => simp only [List.forall_mem_singleton, target, Option.some_or, Option.toList_some]
    | none =>
        cases element with
        | none => simp
        | some name => simp only [List.forall_mem_singleton, shown, Option.none_or, Option.toList_some]

theorem isCode_indented_iff {f : String} (code : opensNote f.toList = false) :
    IsCode ("  " ++ f ++ ",") ↔ breaksIntoNote f.toList = false := by
  have whole : ("  " ++ f ++ ",").toList = [' ', ' '] ++ (f.toList ++ [',']) := by
    rw [String.toList_append, String.toList_append, List.append_assoc]
    rfl
  have blank : isBlank ' ' = true := rfl
  rw [IsCode, whole, breaksIntoNote_unbroken (by decide), breaksIntoNote_mark (by decide) (by decide), List.cons_append,
    opensNote_blank blank, List.singleton_append, opensNote_blank blank, opensNote_mark (by decide) (by decide)]
  simp [code, breaksIntoNote]

theorem breaksIntoNote_intercalate (fields : List String) :
    breaksIntoNote (", ".intercalate fields).toList = fields.any fun f => breaksIntoNote f.toList := by
  induction fields with
  | nil => rfl
  | cons f fields ih =>
      cases fields with
      | nil => simp
      | cons g fields =>
          have separator : ", ".toList = ',' :: [' '] := rfl
          rw [String.intercalate_cons_cons, String.toList_append, String.toList_append, separator, List.append_assoc,
            List.cons_append, breaksIntoNote_mark (by decide) (by decide), breaksIntoNote_unbroken (by decide), ih]
          rfl

theorem isCode_listed_iff (fields : List String) :
    IsCode (listed fields ++ ",") ↔ ∀ f ∈ fields, breaksIntoNote f.toList = false := by
  have whole : (listed fields ++ ",").toList = ['\x7b', ' '] ++ ((", ".intercalate fields).toList ++ [' ', '\x7d', ',']) := by
    rw [listed, String.toList_append, String.toList_append, String.toList_append, List.append_assoc, List.append_assoc]
    rfl
  have opens : opensNote (['\x7b', ' '] ++ ((", ".intercalate fields).toList ++ [' ', '\x7d', ','])) = false :=
    opensNote_other (by decide) (by decide) _
  have back : breaksIntoNote [' ', '\x7d', ','] = false := by decide
  rw [IsCode, whole, opens, breaksIntoNote_unbroken (by decide), breaksIntoNote_append (by decide) (by decide),
    breaksIntoNote_intercalate, back]
  simp

theorem opensNote_entryFields (path : Option String) (index : Bool) (element redirect : Option String) :
    ∀ f ∈ entryFields path index element redirect, opensNote f.toList = false := by
  have letter {c : Char} (visible : isBlank c = false) (other : c ≠ '/') {f : String} {cs : List Char}
      (starts : f.toList = c :: cs) : opensNote f.toList = false := by
    rw [starts]
    exact opensNote_other visible other cs
  unfold entryFields
  refine List.forall_mem_append.mpr ⟨?_, ?_⟩
  · cases index with
    | true => exact List.forall_mem_singleton.mpr (by decide)
    | false =>
        refine List.forall_mem_map.mpr fun text _ => ?_
        exact letter (c := 'p') (by decide) (by decide) (by rw [String.toList_append]; rfl)
  · cases redirect with
    | some text =>
        exact List.forall_mem_singleton.mpr (letter (c := 'e') (by decide) (by decide) (by
          rw [String.toList_append, String.toList_append]; rfl))
    | none =>
        cases element with
        | none => simp
        | some name =>
            exact List.forall_mem_singleton.mpr (letter (c := 'e') (by decide) (by decide) (by
              rw [String.toList_append, String.toList_append]; rfl))

/-- What holds of the lines that every entry shares holds of all if it holds of those with fields. -/
theorem forall_codeLines_iff {P : String → Prop} (opening : P "\x7b") (openingChildren : P "  children: [")
    (closingChildren : P "  ],") (closing : P "\x7d,") (fields : List String) (childless : Bool) :
    (∀ l ∈ openingLines fields childless ++ closingLines fields childless, P l) ↔
      if childless && (listed fields ++ ",").length ≤ maxEntry then P (listed fields ++ ",")
      else ∀ f ∈ fields, P ("  " ++ f ++ ",") := by
  unfold openingLines closingLines
  split
  · rw [List.append_nil, List.forall_mem_singleton]
  · cases childless <;>
      simp only [Bool.false_eq_true, if_false, if_true, List.forall_mem_append, List.forall_mem_cons, List.forall_mem_map,
        List.not_mem_nil, IsEmpty.forall_iff, implies_true, opening, openingChildren, closingChildren, closing, true_and,
        and_true]

/-- The lines of an entry but its note are code if its texts from outside break into no note. -/
theorem isCode_entry_iff (path : Option String) (index : Bool) (element redirect : Option String) (childless : Bool) :
    (∀ l ∈ openingLines (entryFields path index element redirect) childless ++
        closingLines (entryFields path index element redirect) childless, IsCode l) ↔
      ∀ text ∈ shownTexts path index element redirect, breaksIntoNote text.toList = false := by
  rw [forall_codeLines_iff (by decide) (by decide) (by decide) (by decide), ← entryFields_breaks_iff]
  split
  · rw [isCode_listed_iff]
  · exact forall₂_congr fun f mem => isCode_indented_iff (opensNote_entryFields _ _ _ _ f mem)

/-- A line with a visible character is code at every level if it is code. -/
theorem nested_isCode_iff {l : String} (shows : Shows l) (depth : Nat) :
    (∀ row ∈ splitAt '\n' (nested depth l), opensNote row.toList = false) ↔ IsCode l := by
  rw [nested_code_iff shows, opensNote_lines_iff, IsCode]

theorem shows_code (fields : List String) (childless : Bool) :
    ∀ l ∈ openingLines fields childless ++ closingLines fields childless, Shows l := by
  have comma {l : String} (mem : ',' ∈ l.toList) : Shows l := shows_of_mem (by decide) mem
  have ends (l : String) : Shows (l ++ ",") :=
    comma (by rw [String.toList_append]; exact List.mem_append_right _ (by decide))
  refine (forall_codeLines_iff ?_ ?_ (comma (by decide)) (comma (by decide)) fields childless).mpr ?_
  · exact shows_of_mem (a := '\x7b') (by decide) (by decide)
  · exact shows_of_mem (a := ':') (by decide) (by decide)
  · split
    · exact ends _
    · exact fun f _ => ends _

theorem note_apart_iff (depth : Nat) (comment : Option String) :
    (∀ l ∈ commentLine comment, ∀ row ∈ splitAt '\n' (nested depth l), opensNote row.toList = true) ↔
      ∀ note ∈ comment, NotesBut depth (lines ("// " ++ note)) := by
  cases comment with
  | none => simp [commentLine, present]
  | some note =>
      by_cases empty : note = ""
      · subst empty
        refine iff_of_true (by simp [commentLine, present]) fun note same => ?_
        obtain rfl := Option.some.inj same
        exact ⟨["// "], [], by decide, by decide, by simp, Nat.zero_le _⟩
      · have shows : Shows ("// " ++ note) := shows_of_mem (a := '/') (by decide) (by simp)
        simp [commentLine, present, empty, nested_notes_iff shows]

/-- The rows of a line in the table. -/
def Placed.rows (p : Placed) : List String :=
  splitAt '\n' (nested p.depth p.text)

/-- Each row of the line opens a note if the line is one. -/
def Placed.Apart (p : Placed) : Prop :=
  ∀ row ∈ p.rows, opensNote row.toList = p.isNote

mutual

theorem placedLines_apart_iff (depth : Nat) : ∀ e, (∀ p ∈ placedLines depth e, p.Apart) ↔ e.NotesApart depth
  | .mk path index element redirect children comment => by
      have inner := placedChildren_apart_iff (depth + 1) children
      have code := isCode_entry_iff path index element redirect children.isEmpty
      have shows := shows_code (entryFields path index element redirect) children.isEmpty
      rw [placedLines, RouteEntry.NotesApart, ← inner, ← code, ← note_apart_iff]
      simp only [List.forall_mem_append, List.forall_mem_map, Placed.Apart, Placed.rows] at shows ⊢
      have opening := forall₂_congr fun l mem => nested_isCode_iff (shows.1 l mem) depth
      have closing := forall₂_congr fun l mem => nested_isCode_iff (shows.2 l mem) depth
      rw [opening, closing]
      constructor
      · rintro ⟨⟨⟨note, before⟩, within⟩, after⟩
        exact ⟨note, ⟨before, after⟩, within⟩
      · rintro ⟨note, ⟨before, after⟩, within⟩
        exact ⟨⟨⟨note, before⟩, within⟩, after⟩

theorem placedChildren_apart_iff (depth : Nat) :
    ∀ es, (∀ p ∈ placedChildren depth es, p.Apart) ↔ RouteEntry.AllNotesApart depth es
  | [] => by simp [placedChildren, RouteEntry.AllNotesApart]
  | e :: es => by
      rw [placedChildren, RouteEntry.AllNotesApart, List.forall_mem_append, placedLines_apart_iff, placedChildren_apart_iff]

end

theorem tableLines_rows (es : List RouteEntry) :
    (tableLines es).flatMap (splitAt '\n') = (placedChildren 0 es).flatMap Placed.rows := by
  induction es with
  | nil => rfl
  | cons e es ih =>
      have text := placedLines_text 0 e
      rw [Function.iterate_zero, List.map_id] at text
      rw [tableLines, List.flatMap_cons, List.flatMap_append, placedChildren, List.flatMap_append, ← ih, ← text, tableLines,
        List.map_map, List.flatMap_map]
      rfl

/-- Of rows in groups, those that are no notes are the rows of the groups that are none exactly if each
row is what its group is. -/
theorem filter_flatMap_iff {α β : Type} {rows : α → List β} {isNote : α → Bool} {opens : β → Bool} (groups : List α) :
    (groups.flatMap rows).filter (fun r => !opens r) = (groups.filter fun g => !isNote g).flatMap rows ↔
      ∀ g ∈ groups, ∀ r ∈ rows g, opens r = isNote g := by
  constructor
  · intro same
    have code : ∀ g ∈ groups, isNote g = false → ∀ r ∈ rows g, opens r = false := by
      intro g mem plain r within
      have kept : r ∈ (groups.filter fun g => !isNote g).flatMap rows :=
        List.mem_flatMap.mpr ⟨g, List.mem_filter.mpr ⟨mem, by simp [plain]⟩, within⟩
      rw [← same] at kept
      exact Bool.not_eq_eq_eq_not.mp (List.mem_filter.mp kept).2
    have count (gs : List α) (code : ∀ g ∈ gs, isNote g = false → ∀ r ∈ rows g, opens r = false) :
        ((gs.flatMap rows).filter fun r => !opens r).length =
          ((gs.filter fun g => !isNote g).flatMap rows).length +
            (((gs.filter isNote).flatMap rows).filter fun r => !opens r).length := by
      induction gs with
      | nil => rfl
      | cons g gs ih =>
          obtain ⟨here, others⟩ := List.forall_mem_cons.mp code
          rw [List.flatMap_cons, List.filter_append, List.length_append, ih others]
          cases kind : isNote g with
          | false =>
              have kept : (rows g).filter (fun r => !opens r) = rows g :=
                List.filter_eq_self.mpr fun r mem => by simp [here kind r mem]
              rw [kept, List.filter_cons_of_pos (by simp [kind]), List.filter_cons_of_neg (by simp [kind]),
                List.flatMap_cons, List.length_append, Nat.add_assoc]
          | true =>
              rw [List.filter_cons_of_neg (by simp [kind]), List.filter_cons_of_pos kind, List.flatMap_cons,
                List.filter_append, List.length_append, Nat.add_left_comm]
    have none := count groups code
    rw [same, Nat.left_eq_add, List.length_eq_zero_iff, List.filter_eq_nil_iff] at none
    intro g mem r within
    cases kind : isNote g with
    | false => exact code g mem kind r within
    | true => simpa using none r (List.mem_flatMap.mpr ⟨g, List.mem_filter.mpr ⟨mem, kind⟩, within⟩)
  · intro apart
    induction groups with
    | nil => rfl
    | cons g groups ih =>
        obtain ⟨here, others⟩ := List.forall_mem_cons.mp apart
        rw [List.flatMap_cons, List.filter_append, ih others]
        cases kind : isNote g with
        | false =>
            have kept : (rows g).filter (fun r => !opens r) = rows g :=
              List.filter_eq_self.mpr fun r mem => by simp [here r mem, kind]
            rw [kept, List.filter_cons_of_pos (by simp [kind]), List.flatMap_cons]
        | true =>
            have dropped : (rows g).filter (fun r => !opens r) = [] :=
              List.filter_eq_nil_iff.mpr fun r mem => by simp [here r mem, kind]
            rw [dropped, List.nil_append, List.filter_cons_of_neg (by simp [kind])]

/-! ### The table -/

/-- The table of the entries of a module, as its text has it. -/
def tableText (table : String) (entries : List RouteEntry) : String :=
  unlines ([s!"export const {table}: RouteObject[] = ["] ++ tableLines entries ++ ["];"])

theorem routesText_table (settings : Settings) (a : RouteArtifact) :
    routesText settings a = compose settings a.imports (sections [tableText a.table a.routes, unlines
      ["export default function " ++ a.name ++ "() \x7b", s!"  return useRoutes({a.table});", "\x7d"]]) true :=
  rfl

/-- The rows of a table: those of its entries between the line that opens it and the one that closes it. -/
theorem splitAt_tableText {table : String} (oneLine : '\n' ∉ table.toList) (entries : List RouteEntry) :
    splitAt '\n' (tableText table entries) = s!"export const {table}: RouteObject[] = [" ::
      ((placedChildren 0 entries).flatMap Placed.rows ++ ["];"]) := by
  have head : splitAt '\n' s!"export const {table}: RouteObject[] = [" = [s!"export const {table}: RouteObject[] = ["] := by
    refine splitAt_single ?_
    simp only [String.toList_append, List.mem_append, not_or]
    exact ⟨⟨by decide, oneLine⟩, by decide⟩
  have last : splitAt '\n' "];" = ["];"] := by decide
  rw [tableText, splitAt_unlines (by simp), List.flatMap_append, List.flatMap_append, List.flatMap_singleton,
    List.flatMap_singleton, head, last, tableLines_rows, List.append_assoc, List.singleton_append]

/-- Taking the lines that open a note out of a table leaves the table of the entries without notes exactly if
every note keeps to its lines. -/
theorem withoutNotes_tableText_iff {table : String} (oneLine : '\n' ∉ table.toList) (entries : List RouteEntry) :
    withoutNotes (tableText table entries) = tableText table (entries.map RouteEntry.withoutNotes) ↔
      ∀ e ∈ entries, e.NotesApart 0 := by
  have head : opensNote (s!"export const {table}: RouteObject[] = [").toList = false := by
    have starts : (s!"export const {table}: RouteObject[] = [").toList =
        'e' :: ("xport const ".toList ++ (table ++ ": RouteObject[] = [").toList) := by
      rw [String.toList_append, String.toList_append, String.toList_append, List.append_assoc]
      rfl
    rw [starts]
    exact opensNote_other (by decide) (by decide) _
  have last : opensNote "];".toList = false := by decide
  rw [withoutNotes_eq_iff (by rw [splitAt_tableText oneLine]; exact List.mem_cons_self) head, splitAt_tableText oneLine,
    splitAt_tableText oneLine, List.filter_cons_of_pos (by rw [head]; rfl), List.filter_append,
    List.filter_cons_of_pos (by rw [last]; rfl), List.filter_nil, List.cons_inj_right, List.append_left_inj,
    ← RouteEntry.allWithoutNotes_eq_map, placedChildren_withoutNotes, filter_flatMap_iff, ← RouteEntry.allNotesApart_iff,
    ← placedChildren_apart_iff]
  rfl

end Printing

/-! ### The entries of routes -/

/-- What is noted about the component of a route: that it is not known. -/
def componentNotes (index : SymbolIndex) (component : Option String) : List String :=
  ((component.filter (· ≠ "")).filter fun name => (routeComponent? index name).isNone).toList.map fun name =>
    s!"component {name} was not found"

/-- What is noted about the loader of a route. -/
def loaderNotes (loadChildren : Option String) : List String :=
  (loadChildren.filter (· ≠ "")).toList.map fun loader => s!"loadChildren: {loader} is not converted"

/-- What is noted about a guard of a route. -/
def guardRemark (guard : String) : String :=
  let (key, name) := splitFirst ":" guard
  s!"{key}: {name} is not converted"

/-- What is noted about the title of a route. -/
def titleNotes (title : Option String) : List String :=
  (title.filter (· ≠ "")).toList.map ("title: " ++ ·)

/-- The component that a route renders, by its name, if it is known. -/
def shownComponent? (index : SymbolIndex) (component : Option String) : Option String :=
  ((component.filter (· ≠ "")).bind (routeComponent? index)).map fun symbol => Naming.componentName symbol.name

/-- An entry with its path and its notes in one. -/
def RouteEntry.ofParts (path : String) (element redirect : Option String) (children : List RouteEntry)
    (notes : List String) : RouteEntry :=
  .mk (if path == "" then none else some path) (path == "" && children.isEmpty) element redirect children
    (if notes.isEmpty then none else some ("; ".intercalate notes))

mutual

/-- The entry of a route, with the entries of its children inside. -/
def declaredEntry (index : SymbolIndex) (top : Bool) : RouteDecl → RouteEntry
  | .mk path component redirectTo _ children loadChildren guards title =>
      .ofParts (if path == "**" then "*" else path) (shownComponent? index component)
        (redirectTo.map (redirectTarget top)) (declaredEntries index children)
        (componentNotes index component ++ loaderNotes loadChildren ++ guards.map guardRemark ++ titleNotes title)

/-- The entries of the children of a route, one for each in its place. -/
def declaredEntries (index : SymbolIndex) : List RouteDecl → List RouteEntry
  | [] => []
  | r :: rs => declaredEntry index false r :: declaredEntries index rs

end

/-- Whatever the draft and the notes so far, the conversion gives the value. -/
def Settles {α : Type} (m : Converting α) (a : α) : Prop :=
  ∀ d t, ∃ d' t', Converting.outcome m d t = (.ok (a, d'), t')

namespace Settles

variable {α β : Type} {m : Converting α} {a : α}

theorem pure (a : α) : Settles (Pure.pure a : Converting α) a :=
  fun d t => ⟨d, t, rfl⟩

theorem bind {f : α → Converting β} {b : β} (first : Settles m a) (next : Settles (f a) b) : Settles (m >>= f) b := by
  intro d t
  obtain ⟨d', t', run⟩ := first d t
  rw [Converting.outcome_bind, run]
  exact next d' t'

theorem modify (f : Draft → Draft) : Settles (modify f : Converting PUnit) ⟨⟩ :=
  fun d t => ⟨f d, t, rfl⟩

theorem warn (message : String) : Settles (Converting.warn message) () :=
  fun d _ => ⟨d, _, rfl⟩

theorem mapM {f : β → Converting α} {g : β → α} : ∀ {l : List β}, (∀ b ∈ l, Settles (f b) (g b)) →
    Settles (l.mapM f) (l.map g)
  | [], _ => by
      rw [List.mapM_nil]
      exact pure []
  | b :: l, each => by
      obtain ⟨here, others⟩ := List.forall_mem_cons.mp each
      rw [List.mapM_cons]
      exact here.bind ((mapM others).bind (pure _))

end Settles

theorem guardNote_settles (path guard : String) : Settles (guardNote path guard) (guardRemark guard) :=
  (Settles.warn _).bind (.pure _)

mutual

theorem routeEntry_settles (index : SymbolIndex) (top : Bool) :
    ∀ r, Settles (routeEntry index top r) (declaredEntry index top r)
  | .mk path component redirectTo _ children loadChildren guards title => by
      unfold routeEntry declaredEntry
      extract_lets redirect titled shownPath rest shown
      have guarded : Settles (guards.mapM (guardNote path)) (guards.map guardRemark) :=
        .mapM fun guard _ => guardNote_settles path guard
      have within := routeEntries_settles index children
      -- the loader, the guards and the children come after the component, whatever that is
      have entry (element : Option String) (missing : List String) : Settles (rest (element, missing))
          (.ofParts shownPath element redirect (declaredEntries index children)
            (missing ++ loaderNotes loadChildren ++ guards.map guardRemark ++ titleNotes title)) := by
        unfold rest
        dsimp -zeta only
        extract_lets more
        have noted (lazy : List String) : Settles (more lazy)
            (.ofParts shownPath element redirect (declaredEntries index children)
              (missing ++ lazy ++ guards.map guardRemark ++ titleNotes title)) :=
          guarded.bind (within.bind (.pure _))
        unfold loaderNotes
        split
        · rename_i found
          rw [found]
          exact .bind (.pure _) (noted _)
        · rename_i found
          rw [found]
          exact (Settles.warn _).bind (.bind (.pure _) (noted _))
      have placed : Settles (shown ()) (.ofParts shownPath (shownComponent? index component) redirect
          (declaredEntries index children)
          (componentNotes index component ++ loaderNotes loadChildren ++ guards.map guardRemark ++ titleNotes title)) := by
        unfold shown shownComponent? componentNotes
        split
        · rename_i found
          rw [found]
          exact .bind (.pure _) (entry _ _)
        · rename_i name found
          rw [found]
          split
          · rename_i known
            rw [Option.bind_some, Option.filter_some, known]
            exact (Settles.modify _).bind (.bind (.pure _) (entry _ _))
          · rename_i unknown
            rw [Option.bind_some, Option.filter_some, unknown]
            exact .bind (.pure _) (entry _ _)
      split
      · exact (Settles.modify _).bind placed
      · exact placed

theorem routeEntries_settles (index : SymbolIndex) :
    ∀ rs, Settles (routeEntries index rs) (declaredEntries index rs)
  | [] => by
      unfold routeEntries
      exact .pure _
  | r :: rs => by
      unfold routeEntries
      exact (routeEntry_settles index false r).bind ((routeEntries_settles index rs).bind (.pure _))

end

/-- The module of routes has an entry for each of them, in their order. -/
theorem routeModule_entries (index : SymbolIndex) (base sourcePath : String) (routes : List RouteDecl) (t : Sink) :
    ∃ a t', (routeModule index base sourcePath routes).run.run t = (.ok (.routes a), t') ∧
      a.table = (Naming.routesNames base).2 ∧ a.routes = routes.map (declaredEntry index true) := by
  have converted : Settles (routes.mapM (routeEntry index true)) (routes.map (declaredEntry index true)) :=
    .mapM fun r _ => routeEntry_settles index true r
  unfold routeModule
  dsimp -zeta only
  extract_lets work
  have settled : Settles work (routes.map (declaredEntry index true)) := (Settles.modify _).bind converted
  obtain ⟨d', t', run⟩ := settled {} t
  let made : RouteArtifact :=
    { ref := .routes base sourcePath, name := (Naming.routesNames base).1, table := (Naming.routesNames base).2
      imports := d'.imports, routes := routes.map (declaredEntry index true) }
  refine ⟨made, t', ?_, rfl, rfl⟩
  simp only [ExceptT.run_bind, StateT.run_bind]
  rw [← Converting.outcome, run]
  rfl

open Printing in
/-- Whatever routes are declared, their table without the lines that open a note is the table of the same entries
without notes exactly if the notes are notes in every line and no other text breaks into one. -/
theorem routeModule_withoutNotes_iff (index : SymbolIndex) (base sourcePath : String) (routes : List RouteDecl)
    (oneLine : '\n' ∉ (Naming.routesNames base).2.toList) (t : Sink) :
    ∃ a t', (routeModule index base sourcePath routes).run.run t = (.ok (.routes a), t') ∧
      a.routes = routes.map (declaredEntry index true) ∧
      (∀ settings, ∃ shown, routesText settings a =
        compose settings a.imports (sections [tableText a.table a.routes, shown]) true) ∧
      (withoutNotes (tableText a.table a.routes) = tableText a.table (a.routes.map RouteEntry.withoutNotes) ↔
        ∀ e ∈ a.routes, e.NotesApart 0) := by
  obtain ⟨a, t', run, table, entries⟩ := routeModule_entries index base sourcePath routes t
  refine ⟨a, t', run, entries, fun settings => ⟨_, routesText_table settings a⟩, ?_⟩
  exact withoutNotes_tableText_iff (table ▸ oneLine) a.routes

/-- A route with a loader, a guard and a title, around a route that leads elsewhere. -/
def guardedRoutes : List RouteDecl :=
  [.mk "a" none none none [.mk "" none (some "b") none [] none [] none] (some "./m") ["canMatch:G"] (some "T")]

open Printing in
theorem routeModule_withoutNotes_guarded :
    '\n' ∉ (Naming.routesNames "App").2.toList ∧
      ∃ a t', (routeModule {} "App" "r.ts" guardedRoutes).run.run { unit := "r.ts" } = (.ok (.routes a), t') ∧
        withoutNotes (tableText a.table a.routes) = tableText a.table (a.routes.map RouteEntry.withoutNotes) := by
  have oneLine : '\n' ∉ (Naming.routesNames "App").2.toList := by decide
  refine ⟨oneLine, ?_⟩
  obtain ⟨a, t', run, entries, -, same⟩ :=
    routeModule_withoutNotes_iff {} "App" "r.ts" guardedRoutes oneLine { unit := "r.ts" }
  refine ⟨a, t', run, same.mpr ?_⟩
  have loader : loaderNotes (some "./m") = ["loadChildren: ./m is not converted"] := by decide
  have guard : guardRemark "canMatch:G" = "canMatch: G is not converted" := by decide +kernel
  have title : titleNotes (some "T") = ["title: T"] := by decide
  have apart : NotesBut 0
      (lines ("// " ++ "; ".intercalate ["loadChildren: ./m is not converted", "canMatch: G is not converted", "title: T"])) :=
    notesBut_zero_iff.mpr (by decide +kernel)
  have made : guardedRoutes.map (declaredEntry {} true) =
      [.mk (some "a") false none none [.mk none true none (some "b") [] none]
        (some ("; ".intercalate ["loadChildren: ./m is not converted", "canMatch: G is not converted", "title: T"]))] := by
    simp only [guardedRoutes, List.map_cons, List.map_nil, declaredEntry, declaredEntries, loader, guard, title]
    rfl
  rw [entries, made, List.forall_mem_singleton]
  refine ⟨fun note same => ?_, by decide, ⟨by simp, by decide, trivial⟩, trivial⟩
  exact Option.some.inj same ▸ apart

/-- A route whose loader is written on several lines. -/
def spreadRoutes : List RouteDecl :=
  [.mk "a" none none none [] (some "() => \x7b\n  return load();\n\x7d") [] none]

open Printing in
theorem routeModule_note_spills :
    ∃ a t', (routeModule {} "R" "r.ts" spreadRoutes).run.run { unit := "r.ts" } = (.ok (.routes a), t') ∧
      withoutNotes (tableText a.table a.routes) ≠ tableText a.table (a.routes.map RouteEntry.withoutNotes) := by
  obtain ⟨a, t', run, table, entries⟩ := routeModule_entries {} "R" "r.ts" spreadRoutes { unit := "r.ts" }
  refine ⟨a, t', run, fun same => ?_⟩
  have oneLine : '\n' ∉ a.table.toList := table ▸ by decide
  have apart := (withoutNotes_tableText_iff oneLine a.routes).mp same
  have loader : loaderNotes (some "() => \x7b\n  return load();\n\x7d") =
      ["loadChildren: () => \x7b\n  return load();\n\x7d is not converted"] := by decide
  have made : spreadRoutes.map (declaredEntry {} true) = [.mk (some "a") false none none []
      (some ("; ".intercalate ["loadChildren: () => \x7b\n  return load();\n\x7d is not converted"]))] := by
    simp only [spreadRoutes, List.map_cons, List.map_nil, declaredEntry, declaredEntries, loader]
    rfl
  rw [entries, made, List.forall_mem_singleton] at apart
  have opens := notesBut_zero_iff.mp (apart.1 _ rfl) "  return load();" (by decide +kernel)
  exact absurd opens (by decide)

end ReactMigration
