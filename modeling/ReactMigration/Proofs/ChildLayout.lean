import ReactMigration.Proofs.MarkupBalance
import ReactMigration.Proofs.ShownText
import ReactMigration.Proofs.Subscriptions

/-!
The children of an element as they are laid out and as they are read back.

Runs of texts and values share a line, everything else has lines of its own, and the whole may stand on
the line of the tags.  Either way the children are read back in order, up to the space that the layout
does not keep.
-/

namespace ReactMigration

open ReactMigration.Text
open ReactMigration.Printing

/-! ### Pieces of children -/

/-- A place where white space is shown. -/
def Glyph.isSpace (g : Glyph) : Bool :=
  g = .char ' '

theorem Glyph.isSpace_iff {g : Glyph} : g.isSpace = true ↔ g = .char ' ' :=
  decide_eq_true_iff

theorem Glyph.not_isSpace_iff {g : Glyph} : g.isSpace = false ↔ g ≠ .char ' ' :=
  decide_eq_false_iff_not

/-- Pieces without the spaces at their ends. -/
def stripPieces (ps : List Glyph) : List Glyph :=
  ((ps.dropWhile Glyph.isSpace).reverse.dropWhile Glyph.isSpace).reverse

/-- The source of lines of their own, as they stand among the lines of a tag. -/
def blockSource (ls : List String) : List Char :=
  (unlines (ls.map indentLine)).toList.dropWhile (· == ' ')

/-- The pieces of a child: the characters of a text, or the child as a whole. -/
def Markup.pieces (m : Markup) : List Glyph :=
  match m with
  | .text t => (collapse t).toList.map .char
  | .expression code =>
      if m.isInline then [.item (braced code).toList] else [.item (blockSource (blockLines m (render m)))]
  | _ => [.item (blockSource (blockLines m (render m)))]

/-- The space that the layout keeps between a run and a block, in braces. -/
def keptSide (edge : Option Glyph) (block : Bool) (blank : List Char) : List Glyph :=
  if edge == some (.char ' ') && block && !blank.contains '\n' then [.item (quotedChar ' ')] else []

/-- The pieces of a run of inline children that the layout keeps, with blocks before and after it or
not. -/
def keptRun (before after : Bool) (run : List Markup) : List Glyph :=
  let pieces := run.flatMap Markup.pieces
  let source := (String.join (run.map inlineSource)).toList
  if run = [] then []
  else if stripPieces pieces = [] then
    if before && after && !source.contains '\n' then [.item (quotedChar ' ')] else []
  else
    keptSide pieces.head? before (source.takeWhile isBlank) ++ stripPieces pieces ++
      keptSide pieces.getLast? after (source.reverse.takeWhile isBlank)

/-- The pieces of children that the layout keeps, after a run of inline ones. -/
def keptPieces (before : Bool) (run : List Markup) : List Markup → List Glyph
  | [] => keptRun before false run
  | m :: ms =>
      if m.isInline then keptPieces before (run ++ [m]) ms
      else keptRun before true run ++ m.pieces ++ keptPieces true [] ms

/-! ### Runs -/

/-- What a run of inline children consists of: characters that are no other blanks than spaces, and
code on one line in braces. -/
def Glyph.Inline : Glyph → Prop
  | .char c => isBlank c = true → c = ' '
  | .item source => ∃ code, source = '\x7b' :: (code ++ ['\x7d']) ∧ code.any isLineBreak = false

/-- A child of a run: a text, or code without line breaks. -/
def Markup.OneLine : Markup → Prop
  | .text _ => True
  | .expression code => code.toList.any isLineBreak = false
  | _ => False

/-- A piece is written as a space or with visible characters at its ends. -/
structure Edged (f : Glyph → List Char) (g : Glyph) : Prop where
  space : g.isSpace = true → f g = [' ']
  visible : g.isSpace = false → ∃ c tail, f g = c :: tail ∧ isBlank c = false

theorem dropWhile_edged {f : Glyph → List Char} {ps : List Glyph} (edged : ∀ g ∈ ps, Edged f g) :
    (ps.flatMap f).dropWhile isBlank = (ps.dropWhile Glyph.isSpace).flatMap f := by
  induction ps with
  | nil => rfl
  | cons g ps ih =>
      obtain ⟨first, rest⟩ := List.forall_mem_cons.mp edged
      cases kind : g.isSpace with
      | true =>
          have blank : isBlank ' ' = true := rfl
          rw [List.flatMap_cons, first.space kind, List.dropWhile_cons_of_pos kind, ← ih rest]
          simp [blank]
      | false =>
          obtain ⟨c, tail, same, visible⟩ := first.visible kind
          rw [List.dropWhile_cons_of_neg (by simp [kind]), List.flatMap_cons, same, List.cons_append,
            List.dropWhile_cons_of_neg (by simp [visible])]

theorem head?_edged {f : Glyph → List Char} {ps : List Glyph} (edged : ∀ g ∈ ps, Edged f g) :
    (ps.flatMap f).head? = some ' ' ↔ ps.head? = some (.char ' ') := by
  cases ps with
  | nil => simp
  | cons g ps =>
      have first := edged g List.mem_cons_self
      rw [List.flatMap_cons]
      cases kind : g.isSpace with
      | true => simpa [first.space kind] using Glyph.isSpace_iff.mp kind
      | false =>
          obtain ⟨c, tail, same, visible⟩ := first.visible kind
          have other : c ≠ ' ' := by
            rintro rfl
            cases visible
          simpa [same, other] using Glyph.not_isSpace_iff.mp kind

theorem escapeChar_ends {c : Char} (shown : isBlank c = false) :
    (∃ d tail, escapeChar c = d :: tail ∧ isBlank d = false) ∧
      ∃ d tail, (escapeChar c).reverse = d :: tail ∧ isBlank d = false := by
  rcases escapeChar_cases c with ⟨-, same⟩ | ⟨-, same⟩ | ⟨-, same⟩ | ⟨-, same⟩ <;> rw [same]
  · exact ⟨⟨_, _, rfl, rfl⟩, _, _, rfl, rfl⟩
  · exact ⟨⟨_, _, rfl, rfl⟩, _, _, rfl, rfl⟩
  · exact ⟨⟨_, _, rfl, rfl⟩, _, _, rfl, rfl⟩
  · exact ⟨⟨_, _, rfl, shown⟩, _, _, rfl, shown⟩

theorem Glyph.Inline.edged {g : Glyph} (inline : g.Inline) :
    Edged Glyph.written g ∧ Edged (fun g => g.written.reverse) g := by
  cases g with
  | char c =>
      cases blank : isBlank c with
      | true =>
          obtain rfl := inline blank
          have space : (char ' ').isSpace = true := isSpace_iff.mpr rfl
          have never {p : Prop} (none : (char ' ').isSpace = false) : p := by
            rw [space] at none
            cases none
          exact ⟨⟨fun _ => rfl, never⟩, fun _ => rfl, never⟩
      | false =>
          have visible : (char c).isSpace = false := by
            rw [not_isSpace_iff]
            rintro ⟨⟩
            cases blank
          have never {p : Prop} (space : (char c).isSpace = true) : p := by
            rw [visible] at space
            cases space
          obtain ⟨front, back⟩ := escapeChar_ends blank
          exact ⟨⟨never, fun _ => front⟩, never, fun _ => back⟩
  | item source =>
      obtain ⟨code, rfl, -⟩ := inline
      have back : (written (item ('\x7b' :: (code ++ ['\x7d'])))).reverse = '\x7d' :: (code.reverse ++ ['\x7b']) := by
        simp [written]
      have never {p : Prop} (space : (item ('\x7b' :: (code ++ ['\x7d']))).isSpace = true) : p := by
        cases isSpace_iff.mp space
      exact ⟨⟨never, fun _ => ⟨_, _, rfl, rfl⟩⟩, never, fun _ => ⟨_, _, back, rfl⟩⟩

theorem isBlank_of_isLineBreak {c : Char} (breaks : isLineBreak c = true) : isBlank c = true := by
  simp only [isLineBreak, isBlank, Bool.or_eq_true, Bool.and_eq_true, decide_eq_true_eq, beq_iff_eq] at breaks ⊢
  omega

theorem Glyph.Inline.unbroken {g : Glyph} (inline : g.Inline) : ∀ c ∈ g.written, isLineBreak c = false := by
  cases g with
  | item source =>
      obtain ⟨code, rfl, whole⟩ := inline
      have braces : ∀ c ∈ ['\x7b', '\x7d'], isLineBreak c = false := Model.unbroken_of_any rfl
      intro c mem
      rcases List.mem_cons.mp mem with rfl | mem
      · exact braces _ (by simp)
      · rcases List.mem_append.mp mem with inside | last
        · exact Model.unbroken_of_any whole c inside
        · exact braces c (List.mem_cons_of_mem _ last)
  | char c =>
      have here : isLineBreak c = false := by
        rw [← Bool.not_eq_true]
        intro breaks
        rw [inline (isBlank_of_isLineBreak breaks)] at breaks
        cases breaks
      rcases escapeChar_cases c with ⟨-, same⟩ | ⟨rfl, same⟩ | ⟨rfl, same⟩ | ⟨-, same⟩ <;> rw [written, same]
      · exact Model.unbroken_of_any (by simp only [quotedChar, List.any_cons, here]; decide)
      · exact Model.unbroken_of_any rfl
      · exact Model.unbroken_of_any rfl
      · exact List.forall_mem_singleton.mpr here

theorem reverse_written (ps : List Glyph) :
    (ps.flatMap Glyph.written).reverse = ps.reverse.flatMap fun g => g.written.reverse := by
  induction ps with
  | nil => rfl
  | cons g ps ih => simp [ih]

/-- Trimming the text of a run strips its pieces. -/
theorem stripWith_written {ps : List Glyph} (inline : ∀ g ∈ ps, g.Inline) :
    stripWith isBlank (ps.flatMap Glyph.written) = (stripPieces ps).flatMap Glyph.written := by
  have back (ps : List Glyph) : (ps.flatMap fun g => g.written.reverse).reverse =
      ps.reverse.flatMap Glyph.written := by
    rw [← List.reverse_reverse ps, ← reverse_written, List.reverse_reverse, List.reverse_reverse]
  have front := dropWhile_edged fun g mem => (inline g mem).edged.1
  have rest : ∀ g ∈ (ps.dropWhile Glyph.isSpace).reverse, Edged (fun g => g.written.reverse) g :=
    fun g mem => (inline g ((List.dropWhile_sublist _).subset (List.mem_reverse.mp mem))).edged.2
  rw [stripWith, dropTrailing, front, reverse_written, dropWhile_edged rest, back, stripPieces]

theorem written_eq_nil_iff {ps : List Glyph} (inline : ∀ g ∈ ps, g.Inline) :
    ps.flatMap Glyph.written = [] ↔ ps = [] := by
  refine ⟨fun none => ?_, fun none => by rw [none]; rfl⟩
  cases ps with
  | nil => rfl
  | cons g ps =>
      have edged := (inline g List.mem_cons_self).edged.1
      rw [List.flatMap_cons, List.append_eq_nil_iff] at none
      cases kind : g.isSpace with
      | true =>
          rw [edged.space kind] at none
          cases none.1
      | false =>
          obtain ⟨c, tail, same, -⟩ := edged.visible kind
          rw [same] at none
          cases none.1

theorem blank_of_collapsed {cs : List Char} : ∀ c ∈ collapseChars cs, isBlank c = true → c = ' ' := by
  fun_induction collapseChars cs with
  | case1 => simp
  | case2 d => grind
  | case3 d e cs _ _ ih => exact ih
  | case4 d e cs _ _ ih => simpa using ih
  | case5 d e cs visible ih => grind

theorem Markup.OneLine.isInline {m : Markup} (oneLine : m.OneLine) : m.isInline = true := by
  cases m with
  | text t => rfl
  | expression code =>
      have unbroken : code.toList.any isLineBreak = false := oneLine
      rw [Markup.isInline, Bool.not_eq_true', List.contains_eq_mem, decide_eq_false_iff_not]
      intro mem
      have breaks := List.any_eq_false.mp unbroken '\n' mem
      exact breaks rfl
  | _ => cases oneLine

theorem Markup.OneLine.pieces {m : Markup} (oneLine : m.OneLine) :
    (∀ g ∈ m.pieces, g.Inline) ∧ (inlineText m).toList = m.pieces.flatMap Glyph.written := by
  have inline := oneLine.isInline
  cases m with
  | text t =>
      refine ⟨List.forall_mem_map.mpr fun c mem => ?_, ?_⟩
      · rw [collapse, String.toList_ofList] at mem
        exact blank_of_collapsed c mem
      · rw [inlineText, escapeText, String.toList_ofList, Markup.pieces, List.flatMap_map]
        rfl
  | expression code =>
      have whole : (braced code).toList = '\x7b' :: (code.toList ++ ['\x7d']) := by simp [braced]
      rw [Markup.pieces, if_pos inline, List.forall_mem_singleton]
      exact ⟨⟨_, whole, oneLine⟩, by simp [inlineText, Glyph.written]⟩
  | _ => cases oneLine

theorem stripPieces_subset {ps : List Glyph} {g : Glyph} (mem : g ∈ stripPieces ps) : g ∈ ps := by
  have inside := (List.dropWhile_sublist _).subset (List.mem_reverse.mp mem)
  exact (List.dropWhile_sublist _).subset (List.mem_reverse.mp inside)

theorem startsWith_blank (s : String) : s.startsWith " " = true ↔ s.toList.head? = some ' ' := by
  rw [String.startsWith_string_iff]
  cases s.toList <;> simp [eq_comm]

theorem endsWith_blank (s : String) : s.endsWith " " = true ↔ s.toList.getLast? = some ' ' := by
  rw [String.endsWith_eq_endsWith_toSlice, String.Slice.endsWith_string_iff, String.copy_toSlice,
    ← List.reverse_prefix, ← List.head?_reverse]
  cases s.toList.reverse <;> simp [eq_comm]

theorem keptSide_written (edge : Option Glyph) (block : Bool) (blank : List Char) :
    String.ofList ((keptSide edge block blank).flatMap Glyph.written) =
      if edge == some (.char ' ') && block && !blank.contains '\n' then keptSpace else "" := by
  unfold keptSide
  split <;> rfl

/-- A run is printed on a line of its own that holds what is kept of it. -/
theorem runLine_eq {before after : Bool} {run : List Markup} (oneLine : ∀ m ∈ run, m.OneLine) :
    runLine before after run =
      if keptRun before after run = [] then []
      else [String.ofList ((keptRun before after run).flatMap Glyph.written)] := by
  have inline : ∀ g ∈ run.flatMap Markup.pieces, g.Inline := by
    intro g mem
    obtain ⟨m, listed, mem⟩ := List.mem_flatMap.mp mem
    exact (oneLine m listed).pieces.1 g mem
  have text : (String.join (run.map inlineText)).toList = (run.flatMap Markup.pieces).flatMap Glyph.written := by
    rw [String.toList_join, List.flatMap_map, List.flatMap_assoc]
    exact List.flatMap_congr fun m mem => (oneLine m mem).pieces.2
  have stripped : trim (String.join (run.map inlineText)) =
      String.ofList ((stripPieces (run.flatMap Markup.pieces)).flatMap Glyph.written) := by
    rw [trim, text, stripWith_written inline]
  have blank : (String.ofList ((stripPieces (run.flatMap Markup.pieces)).flatMap Glyph.written) == "") = true ↔
      stripPieces (run.flatMap Markup.pieces) = [] := by
    rw [beq_iff_eq, ← String.toList_inj, String.toList_ofList, String.toList_empty,
      written_eq_nil_iff fun g mem => inline g (stripPieces_subset mem)]
  have leads : (String.join (run.map inlineText)).startsWith " " =
      ((run.flatMap Markup.pieces).head? == some (.char ' ')) := by
    rw [Bool.eq_iff_iff, beq_iff_eq, ← head?_edged fun g mem => (inline g mem).edged.1, ← text,
      startsWith_blank]
  have trails : (String.join (run.map inlineText)).endsWith " " =
      ((run.flatMap Markup.pieces).getLast? == some (.char ' ')) := by
    have edged : ∀ g ∈ (run.flatMap Markup.pieces).reverse, Edged (fun g => g.written.reverse) g :=
      fun g mem => (inline g (List.mem_reverse.mp mem)).edged.2
    rw [Bool.eq_iff_iff, beq_iff_eq, ← List.head?_reverse, ← head?_edged edged, ← reverse_written, ← text,
      List.head?_reverse, endsWith_blank]
  by_cases empty : run = []
  · subst empty
    rfl
  by_cases hidden : stripPieces (run.flatMap Markup.pieces) = []
  · simp only [runLine, keptRun, List.isEmpty_iff, if_neg empty, stripped, blank, if_pos hidden]
    split <;> rfl
  · have some (front back : List Glyph) : front ++ stripPieces (run.flatMap Markup.pieces) ++ back ≠ [] := by
      simp [hidden]
    simp only [runLine, keptRun, List.isEmpty_iff, if_neg empty, stripped, blank, if_neg hidden, if_neg (some _ _),
      leads, trails, ← keptSide_written, List.flatMap_append, String.ofList_append]

/-- What the layout keeps of a run can stand on a line: nothing at its ends vanishes. -/
structure IsRow (ps : List Glyph) : Prop where
  inline : ∀ g ∈ ps, g.Inline
  front : ps.head? ≠ some (.char ' ')
  back : ps.getLast? ≠ some (.char ' ')

theorem head?_dropWhile_isSpace (ps : List Glyph) : (ps.dropWhile Glyph.isSpace).head? ≠ some (.char ' ') := by
  intro space
  have := List.head?_dropWhile_not Glyph.isSpace ps
  rw [space] at this
  simp [Glyph.isSpace] at this

theorem stripPieces_leading (ps : List Glyph) : stripPieces ps <+: ps.dropWhile Glyph.isSpace := by
  rw [stripPieces, ← List.reverse_suffix, List.reverse_reverse]
  exact List.dropWhile_suffix _

theorem stripPieces_ends (ps : List Glyph) :
    (stripPieces ps).head? ≠ some (.char ' ') ∧ (stripPieces ps).getLast? ≠ some (.char ' ') := by
  constructor
  · intro space
    obtain ⟨tail, same⟩ := List.head?_eq_some_iff.mp space
    obtain ⟨rest, whole⟩ := stripPieces_leading ps
    refine head?_dropWhile_isSpace ps ?_
    rw [← whole, same]
    rfl
  · rw [stripPieces, List.getLast?_reverse]
    exact head?_dropWhile_isSpace _

theorem keptSpace_inline : (Glyph.item (quotedChar ' ')).Inline :=
  ⟨['\'', ' ', '\''], rfl, by decide⟩

theorem keptSide_inline (edge : Option Glyph) (block : Bool) (blank : List Char) :
    ∀ g ∈ keptSide edge block blank, g.Inline := by
  unfold keptSide
  split
  · exact List.forall_mem_singleton.mpr keptSpace_inline
  · simp

theorem keptSide_cases (edge : Option Glyph) (block : Bool) (blank : List Char) :
    keptSide edge block blank = [] ∨ keptSide edge block blank = [.item (quotedChar ' ')] := by
  unfold keptSide
  split
  · exact .inr rfl
  · exact .inl rfl

theorem keptRun_isRow {before after : Bool} {run : List Markup} (oneLine : ∀ m ∈ run, m.OneLine) :
    IsRow (keptRun before after run) := by
  have inline : ∀ g ∈ stripPieces (run.flatMap Markup.pieces), g.Inline := by
    intro g mem
    obtain ⟨m, listed, mem⟩ := List.mem_flatMap.mp (stripPieces_subset mem)
    exact (oneLine m listed).pieces.1 g mem
  obtain ⟨front, back⟩ := stripPieces_ends (run.flatMap Markup.pieces)
  have none : IsRow [] := ⟨by simp, by simp, by simp⟩
  have space : IsRow [.item (quotedChar ' ')] :=
    ⟨List.forall_mem_singleton.mpr keptSpace_inline, by simp, by simp⟩
  unfold keptRun
  extract_lets pieces source
  split
  · exact none
  · split
    · split
      · exact space
      · exact none
    · refine ⟨fun g mem => ?_, ?_, ?_⟩
      · rcases List.mem_append.mp mem with mem | mem
        · rcases List.mem_append.mp mem with mem | mem
          · exact keptSide_inline _ _ _ g mem
          · exact inline g mem
        · exact keptSide_inline _ _ _ g mem
      · rename_i some
        rcases keptSide_cases pieces.head? before (source.takeWhile isBlank) with same | same <;> rw [same]
        · rw [List.nil_append, List.head?_append_of_ne_nil _ some]
          exact front
        · simp
      · rename_i some
        rcases keptSide_cases pieces.getLast? after (source.reverse.takeWhile isBlank) with same | same <;> rw [same]
        · rw [List.append_nil, List.getLast?_append_of_ne_nil _ some]
          exact back
        · simp

theorem visible_edged {f : Glyph → List Char} {ps : List Glyph} (edged : ∀ g ∈ ps, Edged f g)
    (front : ps.head? ≠ some (.char ' ')) : ∀ c ∈ (ps.flatMap f).head?, isIndent c = false := by
  cases ps with
  | nil => simp
  | cons g ps =>
      have other : g.isSpace = false := Glyph.not_isSpace_iff.mpr fun same => front (by rw [same]; rfl)
      obtain ⟨c, tail, same, visible⟩ := (edged g List.mem_cons_self).visible other
      rw [List.flatMap_cons, same, List.cons_append, List.head?_cons]
      rintro _ ⟨⟩
      rw [Bool.eq_false_iff] at visible ⊢
      intro indent
      refine visible ?_
      rcases Bool.or_eq_true_iff.mp indent with same | same <;> rw [eq_of_beq same] <;> rfl

namespace IsRow

variable {kept : List Glyph}

theorem visible_front (row : IsRow kept) (c : Char)
    (first : (kept.flatMap Glyph.printed).head? = some (.char c)) : isIndent c = false := by
  refine visible_edged (fun g mem => (row.inline g mem).edged.1) row.front c ?_
  obtain ⟨tail, same⟩ := List.head?_eq_some_iff.mp first
  rw [← Glyph.source_flatMap_printed, same]
  rfl

theorem visible_back (row : IsRow kept) (c : Char)
    (last : (kept.flatMap Glyph.printed).getLast? = some (.char c)) : isIndent c = false := by
  have edged : ∀ g ∈ kept.reverse, Edged (fun g => g.written.reverse) g :=
    fun g mem => (row.inline g (List.mem_reverse.mp mem)).edged.2
  refine visible_edged edged (by rw [List.head?_reverse]; exact row.back) c ?_
  obtain ⟨front, same⟩ := List.getLast?_eq_some_iff.mp last
  rw [← reverse_written, List.head?_reverse, ← Glyph.source_flatMap_printed, same]
  simp [Glyph.source]

theorem unbroken_written (row : IsRow kept) : ∀ c ∈ kept.flatMap Glyph.written, isLineBreak c = false := by
  intro c mem
  obtain ⟨g, listed, mem⟩ := List.mem_flatMap.mp mem
  exact (row.inline g listed).unbroken c mem

theorem unbroken (row : IsRow kept) : .char '\n' ∉ kept.flatMap Glyph.printed := by
  intro mem
  have inside : '\n' ∈ (kept.flatMap Glyph.printed).flatMap Glyph.source :=
    List.mem_flatMap.mpr ⟨_, mem, List.mem_singleton_self _⟩
  rw [Glyph.source_flatMap_printed] at inside
  cases row.unbroken_written _ inside

end IsRow

/-! ### Rows -/

/-- Lines of children as they stand between the lines of the tags. -/
def rowsSource (rows : List String) : List Char :=
  rows.flatMap (fun row => '\n' :: (indentLine row).toList) ++ ['\n']

/-- Pieces at the beginning of a line. -/
def lineStart (n : Nat) : List Glyph :=
  ('\n' :: List.replicate n ' ').map .char

/-- A run on a line of its own. -/
def rowPieces (kept : List Glyph) : List Glyph :=
  if kept = [] then [] else lineStart 2 ++ kept.flatMap Glyph.printed

namespace MarkupReader

variable {r : MarkupReader}

theorem textGlyphs_between {gap cs gap' : List Char} (before : IsGap gap) (after : IsGap gap')
    (unbroken : '\n' ∉ cs) (starts : gap ≠ [] → ∀ c ∈ cs.head?, isIndent c = false)
    (ends : gap' ≠ [] → ∀ c ∈ cs.getLast?, isIndent c = false) :
    r.textGlyphs (gap ++ (cs ++ gap')) = r.textGlyphs cs := by
  have alone : tidyText ([] ++ (cs ++ [])) = cs :=
    tidyText_between (.inl rfl) (.inl rfl) unbroken (by simp) (by simp)
  rw [List.nil_append, List.append_nil] at alone
  rw [textGlyphs, textGlyphs, tidyText_between before after unbroken starts ends, alone]

/-- Line breaks around pieces are not shown. -/
theorem shown_between {ps : List Glyph} {gap gap' : List Char} (before : IsGap gap) (after : IsGap gap')
    (whole : .char '\n' ∉ ps) {cs : List Char} (unbroken : '\n' ∉ cs)
    (starts : gap ≠ [] → ∀ c, (cs.map Glyph.char ++ ps).head? = some (.char c) → isIndent c = false)
    (ends : gap' ≠ [] → ∀ c, (cs.map Glyph.char ++ ps).getLast? = some (.char c) → isIndent c = false) :
    r.shown (gap ++ cs) (ps ++ gap'.map .char) = r.shown cs ps := by
  induction ps generalizing gap cs with
  | nil =>
      rw [List.nil_append, ← List.append_nil (gap'.map _), shown_append_chars, shown, shown, List.append_assoc]
      refine textGlyphs_between before after unbroken (fun some c mem => starts some c ?_)
        fun some c mem => ends some c ?_
      · simpa [List.head?_map] using mem
      · simpa [List.getLast?_map] using mem
  | cons g ps ih =>
      obtain ⟨here, rest⟩ := not_or.mp fun mem => whole (List.mem_cons.mpr mem)
      cases g with
      | char c =>
          rw [List.cons_append, shown, shown, List.append_assoc]
          refine ih before rest ?_ (by simpa using starts) (by simpa using ends)
          rw [List.mem_append, List.mem_singleton]
          rintro (inside | rfl)
          · exact unbroken inside
          · exact here rfl
      | item source =>
          have front : r.textGlyphs (gap ++ (cs ++ [])) = r.textGlyphs cs := by
            refine textGlyphs_between before (.inl rfl) unbroken (fun some c mem => starts some c ?_) (by simp)
            rw [List.head?_append, List.head?_map, mem]
            rfl
          have back : r.shown ([] ++ []) (ps ++ gap'.map .char) = r.shown [] ps := by
            refine ih (.inl rfl) rest (by simp) (by simp) fun some c last => ends some c ?_
            rw [List.map_nil, List.nil_append] at last
            rw [List.getLast?_append, List.getLast?_cons, last]
            rfl
          rw [List.append_nil] at front
          rw [List.cons_append, shown, shown, front]
          exact congrArg (_ ++ _ :: ·) back

/-- A row among line breaks shows what it shows alone. -/
theorem shown_rowPieces {kept : List Glyph} (row : IsRow kept) {gap : List Char} (after : IsGap gap) :
    r.shown [] (rowPieces kept ++ gap.map .char) = r.shown [] (kept.flatMap Glyph.printed) := by
  unfold rowPieces
  split
  · rename_i none
    have alone : r.shown ([] ++ []) ([] ++ gap.map .char) = r.shown [] [] :=
      shown_between (.inl rfl) after (by simp) (by simp) (by simp) (by simp)
    rw [none]
    exact alone
  · have between : r.shown (('\n' :: List.replicate 2 ' ') ++ []) (kept.flatMap Glyph.printed ++ gap.map .char) =
        r.shown [] (kept.flatMap Glyph.printed) := by
      refine shown_between (.inr ⟨2, rfl⟩) after row.unbroken (by simp) (fun _ c first => ?_) fun _ c last => ?_
      · exact row.visible_front c (by simpa using first)
      · exact row.visible_back c (by simpa using last)
    rw [List.append_nil] at between
    rw [lineStart, List.append_assoc, shown_append_chars]
    exact between

end MarkupReader

/-! ### Layouts -/

/-- A row of pieces is indented as a line. -/
theorem IsRow.indentLine {kept : List Glyph} (row : IsRow kept) (some : kept ≠ []) :
    (Printing.indentLine (String.ofList (kept.flatMap Glyph.written))).toList =
      ' ' :: ' ' :: kept.flatMap Glyph.written := by
  have whole : ∀ c ∈ (String.ofList (kept.flatMap Glyph.written)).toList, isLineBreak c = false := by
    rw [String.toList_ofList]
    exact row.unbroken_written
  have inside : kept.flatMap Glyph.written ≠ [] := (written_eq_nil_iff row.inline).not.mpr some
  have shown : String.ofList (kept.flatMap Glyph.written) ≠ "" := by
    rw [Ne, ← String.toList_inj, String.toList_ofList]
    exact inside
  have line := Model.lines_unlines (fun row (mem : row ∈ []) => nomatch mem) whole shown
  rw [List.nil_append, unlines, String.intercalate_singleton] at line
  have visible : isBlankText (String.ofList (kept.flatMap Glyph.written)) = false := by
    obtain ⟨g, rest, rfl⟩ := List.exists_cons_of_ne_nil some
    have other : g.isSpace = false := Glyph.not_isSpace_iff.mpr fun same => row.front (by rw [same]; rfl)
    obtain ⟨c, tail, same, visible⟩ := (row.inline g List.mem_cons_self).edged.1.visible other
    rw [isBlankText, String.toList_ofList, List.flatMap_cons, same, List.cons_append, List.all_cons, visible]
    rfl
  rw [Printing.indentLine, if_neg (by simpa using shown), indent, Model.indentBy_eq, line, List.map_singleton, unlines,
    String.intercalate_singleton, Model.indentedRow, visible, if_neg Bool.false_ne_true, String.toList_append,
    String.toList_ofList]
  rfl

/-- The line of a run among the lines. -/
theorem runLine_source {before after : Bool} {run : List Markup} (oneLine : ∀ m ∈ run, m.OneLine) :
    (runLine before after run).flatMap (fun row => '\n' :: (indentLine row).toList) =
      (rowPieces (keptRun before after run)).flatMap Glyph.source := by
  rw [runLine_eq oneLine, rowPieces]
  split
  · rfl
  · rename_i some
    rw [List.flatMap_singleton, (keptRun_isRow oneLine).indentLine some, List.flatMap_append, lineStart,
      Glyph.source_map_char, Glyph.source_flatMap_printed]
    rfl

theorem unlines_append {ls : List String} (some : ls ≠ []) (ms : List String) :
    (unlines (ls ++ ms)).toList = (unlines ls).toList ++ ms.flatMap fun m => '\n' :: m.toList := by
  induction ms generalizing ls with
  | nil => simp
  | cons m ms ih =>
      have next : unlines (ls ++ [m]) = unlines ls ++ "\n" ++ m := by
        rw [unlines, String.intercalate_append_of_ne_nil some (by simp), String.intercalate_singleton, ← unlines]
      rw [← List.singleton_append, ← List.append_assoc, ih (by simp), next]
      simp

/-- Lines of a block among the lines. -/
theorem block_source {ls : List String} (some : ls ≠ []) :
    ∃ n, ls.flatMap (fun row => '\n' :: (indentLine row).toList) =
      '\n' :: List.replicate n ' ' ++ blockSource ls := by
  have joined : ls.flatMap (fun row => '\n' :: (indentLine row).toList) = '\n' :: (unlines (ls.map indentLine)).toList := by
    obtain ⟨l, rest, rfl⟩ := List.exists_cons_of_ne_nil some
    have rows : (unlines (indentLine l :: rest.map indentLine)).toList = _ :=
      unlines_append (List.cons_ne_nil (indentLine l) []) _
    rw [List.map_cons, rows, List.flatMap_cons, List.flatMap_map, unlines, String.intercalate_singleton]
    rfl
  have margin (cs : List Char) : ∃ n, cs = List.replicate n ' ' ++ cs.dropWhile (· == ' ') := by
    refine ⟨(cs.takeWhile (· == ' ')).length, ?_⟩
    have spaces : cs.takeWhile (· == ' ') = List.replicate (cs.takeWhile (· == ' ')).length ' ' :=
      List.eq_replicate_iff.mpr ⟨rfl, fun c mem => eq_of_beq (List.all_eq_true.mp List.all_takeWhile c mem)⟩
    rw [← spaces, List.takeWhile_append_dropWhile]
  obtain ⟨n, same⟩ := margin (unlines (ls.map indentLine)).toList
  exact ⟨n, by rw [joined, same]; rfl⟩

namespace MarkupReader

variable {r : MarkupReader}

/-- The source holds pieces that show what the kept pieces show. -/
def Lays (r : MarkupReader) (source : List Char) (kept : List Glyph) : Prop :=
  ∃ laid : List Glyph, laid.flatMap Glyph.source = source ∧ (∀ g ∈ laid, r.Sound g) ∧
    r.shown [] laid = r.shown [] (kept.flatMap Glyph.printed)

theorem Lays.reads_iff {source : List Char} {kept gs : List Glyph} (lays : r.Lays source kept) :
    r.Reads source gs ↔ gs = r.shown [] (kept.flatMap Glyph.printed) := by
  obtain ⟨laid, rfl, sound, same⟩ := lays
  rw [← same]
  exact MarkupReader.reads_iff sound

/-- The items among the pieces are found as they stand. -/
def FindsAll (r : MarkupReader) (ps : List Glyph) : Prop :=
  ∀ source, .item source ∈ ps → r.Finds source

theorem sound_written {ps : List Glyph} (found : r.FindsAll ps) : ∀ g ∈ ps.flatMap Glyph.printed, r.Sound g := by
  intro g mem
  obtain ⟨p, listed, mem⟩ := List.mem_flatMap.mp mem
  exact sound_printed (fun source same => found source (same ▸ listed)) g mem

theorem sound_lineStart (n : Nat) : ∀ g ∈ lineStart n, r.Sound g := by
  refine List.forall_mem_map.mpr fun c mem => ?_
  rcases List.mem_cons.mp mem with rfl | mem
  · rfl
  · rw [List.eq_of_mem_replicate mem]
    rfl

theorem sound_rowPieces {kept : List Glyph} (found : r.FindsAll kept) : ∀ g ∈ rowPieces kept, r.Sound g := by
  unfold rowPieces
  split
  · simp
  · exact fun g mem => (List.mem_append.mp mem).elim (sound_lineStart 2 g) (sound_written found g)

theorem findsAll_keptRun {before after : Bool} {run : List Markup} (found : r.FindsAll (run.flatMap Markup.pieces)) :
    r.FindsAll (keptRun before after run) := by
  have space : r.Finds (quotedChar ' ') := r.quoted ' ' (by simp)
  have side (edge : Option Glyph) (block : Bool) (blank : List Char) : r.FindsAll (keptSide edge block blank) := by
    intro source mem
    rcases keptSide_cases edge block blank with same | same <;> rw [same] at mem
    · cases mem
    · cases List.mem_singleton.mp mem
      exact space
  intro source mem
  unfold keptRun at mem
  extract_lets pieces text at mem
  split at mem
  · cases mem
  · split at mem
    · split at mem
      · cases List.mem_singleton.mp mem
        exact space
      · cases mem
    · rcases List.mem_append.mp mem with mem | mem
      · rcases List.mem_append.mp mem with mem | mem
        · exact side _ _ _ source mem
        · exact found source (stripPieces_subset mem)
      · exact side _ _ _ source mem

/-- A run before the end tag. -/
theorem Lays.last {before : Bool} {run : List Markup} (oneLine : ∀ m ∈ run, m.OneLine)
    (found : r.FindsAll (run.flatMap Markup.pieces)) :
    r.Lays (rowsSource (runLine before false run)) (keptRun before false run) := by
  refine ⟨rowPieces (keptRun before false run) ++ lineStart 0, ?_, fun g mem => ?_, ?_⟩
  · rw [List.flatMap_append, rowsSource, runLine_source oneLine]
    rfl
  · exact (List.mem_append.mp mem).elim (sound_rowPieces (findsAll_keptRun found) g) (sound_lineStart 0 g)
  · exact shown_rowPieces (keptRun_isRow oneLine) (.inr ⟨0, rfl⟩)

/-- A run and a block before other lines. -/
theorem Lays.block {before : Bool} {run : List Markup} {block rows : List String} {kept : List Glyph}
    (oneLine : ∀ m ∈ run, m.OneLine) (found : r.FindsAll (run.flatMap Markup.pieces))
    (known : r.Finds (blockSource block)) (rest : r.Lays (rowsSource rows) kept) :
    r.Lays (rowsSource (runLine before true run ++ block ++ rows))
      (keptRun before true run ++ .item (blockSource block) :: kept) := by
  have some : block ≠ [] := by
    rintro rfl
    obtain ⟨c, tail, same, -⟩ := known.exists_cons
    cases same
  obtain ⟨n, margin⟩ := block_source some
  obtain ⟨laid, source, sound, shows⟩ := rest
  refine ⟨rowPieces (keptRun before true run) ++ lineStart n ++ .item (blockSource block) :: laid, ?_,
    fun g mem => ?_, ?_⟩
  · have rows : rows.flatMap (fun row => '\n' :: (indentLine row).toList) ++ ['\n'] = laid.flatMap Glyph.source :=
      source.symm
    have start : (lineStart n).flatMap Glyph.source = '\n' :: List.replicate n ' ' := Glyph.source_map_char _
    rw [rowsSource]
    simp only [List.flatMap_append, List.flatMap_cons, Glyph.source, runLine_source oneLine, margin, List.append_assoc,
      rows, start]
  · rcases List.mem_append.mp mem with mem | mem
    · exact (List.mem_append.mp mem).elim (sound_rowPieces (findsAll_keptRun found) g) (sound_lineStart n g)
    · rcases List.mem_cons.mp mem with rfl | mem
      · exact known
      · exact sound g mem
  · rw [shown_append_item, List.flatMap_append, List.flatMap_cons, Glyph.printed, List.singleton_append,
      shown_append_item, ← shows]
    exact congrArg (· ++ _) (shown_rowPieces (keptRun_isRow oneLine) (.inr ⟨n, rfl⟩))

end MarkupReader

theorem pieces_block {m : Markup} (block : m.isInline = false) :
    m.pieces = [.item (blockSource (blockLines m (render m)))] := by
  cases m with
  | text t => cases block
  | expression code => rw [Markup.pieces, block, if_neg Bool.false_ne_true]
  | _ => rfl

namespace MarkupReader

variable {r : MarkupReader}

theorem FindsAll.of_append {ps qs : List Glyph} (found : r.FindsAll (ps ++ qs)) : r.FindsAll ps ∧ r.FindsAll qs :=
  ⟨fun source mem => found source (List.mem_append_left _ mem),
    fun source mem => found source (List.mem_append_right _ mem)⟩

/-- The lines of children, a run standing before them. -/
theorem childLines_lays {children : List Markup} (single : ∀ m ∈ children, m.isInline = true → m.OneLine)
    {before : Bool} {run : List Markup} (oneLine : ∀ m ∈ run, m.OneLine)
    (found : r.FindsAll ((run ++ children).flatMap Markup.pieces)) :
    r.Lays (rowsSource (childLines before run.reverse (renderChildren children))) (keptPieces before run children) := by
  induction children generalizing before run with
  | nil =>
      rw [renderChildren, childLines, List.reverse_reverse, keptPieces]
      rw [List.append_nil] at found
      exact Lays.last oneLine found
  | cons m ms ih =>
      obtain ⟨first, rest⟩ := List.forall_mem_cons.mp single
      rw [renderChildren, childLines, keptPieces]
      split
      · rename_i inline
        have more : ∀ n ∈ run ++ [m], n.OneLine := fun n mem =>
          (List.mem_append.mp mem).elim (oneLine n) fun last => List.mem_singleton.mp last ▸ first inline
        have last : m :: run.reverse = (run ++ [m]).reverse := by simp
        rw [last]
        exact ih rest more (by simpa using found)
      · rename_i block
        have whole := pieces_block (Bool.eq_false_iff.mpr block)
        rw [List.flatMap_append] at found
        obtain ⟨foundRun, foundRest⟩ := found.of_append
        rw [List.flatMap_cons] at foundRest
        obtain ⟨known, foundRest⟩ := foundRest.of_append
        rw [List.reverse_reverse, whole, List.append_assoc _ [_], List.singleton_append]
        refine Lays.block oneLine foundRun (known _ (by rw [whole]; simp)) ?_
        have more : r.Lays (rowsSource (childLines true [].reverse (renderChildren ms))) (keptPieces true [] ms) :=
          ih rest (by simp) foundRest
        exact more

/-- A run alone between the tags. -/
theorem Lays.alone {run : List Markup} (oneLine : ∀ m ∈ run, m.OneLine)
    (found : r.FindsAll (run.flatMap Markup.pieces)) {line : String} (whole : runLine false false run = [line]) :
    r.Lays line.toList (keptRun false false run) := by
  refine ⟨(keptRun false false run).flatMap Glyph.printed, ?_, sound_written (findsAll_keptRun found), rfl⟩
  rw [runLine_eq oneLine] at whole
  split at whole
  · cases whole
  · rw [← List.singleton_inj.mp whole, String.toList_ofList, Glyph.source_flatMap_printed]

end MarkupReader

/-- What may stand between the tags around children: rows of lines, or inline children on one line. -/
inductive Laid (children : List Markup) : List Char → Prop
  | rows : Laid children (rowsSource (childLines false [] (renderChildren children)))
  | line {line : String} (inline : children.all Markup.isInline = true)
      (single : childLines false [] (renderChildren children) = [line]) : Laid children line.toList

/-- Tags around children keep one of the layouts. -/
theorem enclose_laid {opening : List String} (some : opening ≠ []) (closing : String) (children : List Markup) :
    ∃ content, Laid children content ∧
      unlines (enclose opening closing (childLines false [] (renderChildren children))
        (children.all Markup.isInline)) = unlines opening ++ String.ofList content ++ closing := by
  have rows : unlines (opening ++ (childLines false [] (renderChildren children)).map indentLine ++ [closing]) =
      unlines opening ++ String.ofList (rowsSource (childLines false [] (renderChildren children))) ++ closing := by
    rw [← String.toList_inj, List.append_assoc, unlines_append some, rowsSource]
    simp [List.flatMap_map]
  unfold enclose
  split
  · rename_i first child single
    extract_lets line
    split
    · rename_i short
      refine ⟨child.toList, .line (Bool.and_eq_true_iff.mp short).2 single, ?_⟩
      simp [unlines, line]
    · exact ⟨_, .rows, rows⟩
  · exact ⟨_, .rows, rows⟩

theorem keptPieces_inline {children : List Markup} (inline : children.all Markup.isInline = true) {before : Bool}
    {run : List Markup} : keptPieces before run children = keptRun before false (run ++ children) := by
  induction children generalizing run with
  | nil => rw [keptPieces, List.append_nil]
  | cons m ms ih =>
      obtain ⟨first, rest⟩ := Bool.and_eq_true_iff.mp (List.all_cons ▸ inline)
      rw [keptPieces, if_pos first, ih rest, List.append_assoc, List.singleton_append]

theorem childLines_inline {children : List Markup} (inline : children.all Markup.isInline = true) {before : Bool}
    {run : List Markup} :
    childLines before run.reverse (renderChildren children) = runLine before false (run ++ children) := by
  induction children generalizing run with
  | nil => rw [renderChildren, childLines, List.reverse_reverse, List.append_nil]
  | cons m ms ih =>
      obtain ⟨first, rest⟩ := Bool.and_eq_true_iff.mp (List.all_cons ▸ inline)
      have last : m :: run.reverse = (run ++ [m]).reverse := by simp
      rw [renderChildren, childLines, if_pos first, last, ih rest, List.append_assoc, List.singleton_append]

namespace MarkupReader

variable {r : MarkupReader}

/-- Either layout of children shows the pieces that are kept of them. -/
theorem reads_laid {children : List Markup} (single : ∀ m ∈ children, m.isInline = true → m.OneLine)
    (found : r.FindsAll (children.flatMap Markup.pieces)) {content : List Char} (laid : Laid children content)
    {gs : List Glyph} :
    r.Reads content gs ↔ gs = r.shown [] ((keptPieces false [] children).flatMap Glyph.printed) := by
  cases laid with
  | rows =>
      have none : ∀ m ∈ ([] : List Markup), m.OneLine := by simp
      exact Lays.reads_iff (childLines_lays single none found)
  | line inline alone =>
      have joined : childLines false [].reverse (renderChildren children) = runLine false false children :=
        childLines_inline inline
      rw [keptPieces_inline inline]
      refine Lays.reads_iff (Lays.alone (fun m mem => single m mem ?_) found (joined.symm.trans alone))
      exact List.all_eq_true.mp inline m mem

end MarkupReader

end ReactMigration
