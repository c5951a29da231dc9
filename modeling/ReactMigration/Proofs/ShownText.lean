import ReactMigration.Printing.Markup
import ReactMigration.Proofs.Scanning

/-!
What markup shows between two tags.

A stretch of text is shown without its line breaks and with its character references resolved; between
the stretches stand elements and code in braces.  A text that is printed as a child is read that way,
and the same text printed as code is a string, in which no reference is resolved.  So both show the
same exactly if the text holds no reference.
-/

namespace ReactMigration

open ReactMigration.Text
open ReactMigration.Printing

/-! ### Reading markup -/

/-- What is shown between two tags: characters, and elements and values of code by their source. -/
inductive Glyph where
  | char (c : Char)
  | item (source : List Char)
  deriving DecidableEq

/-- A character that ends a stretch of text. -/
def isMarkupMark (c : Char) : Bool :=
  c == '\x7b' || c == '\x7d' || c == '<' || c == '>'

/-- Code in braces that is one character in quotes. -/
def quotedChar (c : Char) : List Char :=
  ['\x7b', '\'', c, '\'', '\x7d']

/-- What reading markup takes from elsewhere: where an element or code in braces ends, and which
characters the names of references stand for. -/
structure MarkupReader where
  item? : List Char → Option (List Char × List Char)
  reference? : List Char → Option Char
  opens : ∀ {cs source rest}, item? cs = some (source, rest) →
    cs = source ++ rest ∧ ∃ c tail, source = c :: tail ∧ (c = '\x7b' ∨ c = '<')
  quoted : ∀ c ∈ [' ', '\x7b', '\x7d'], ∀ rest,
    item? (quotedChar c ++ rest) = some (quotedChar c, rest)
  less : reference? ['l', 't'] = some '<'
  greater : reference? ['g', 't'] = some '>'

/-- The lines of a text without the blanks next to line breaks; `first` tells that no line break
comes before. -/
def tidyLines (first : Bool) : List (List Char) → List (List Char)
  | [] => []
  | [line] => [if first then line else line.dropWhile isIndent]
  | line :: rest =>
      (if first then dropTrailing isIndent line else stripWith isIndent line) :: tidyLines false rest

/-- A stretch of text without its line breaks: lines that are left are a space apart. -/
def tidyText (cs : List Char) : List Char :=
  [' '].intercalate ((tidyLines true (splitChar '\n' cs)).filter (· ≠ []))

/-- A character that the name of a reference is made of. -/
def isReferencePart (c : Char) : Bool :=
  c.isAlphanum || c == '#'

/-- A character that stands neither in a reference nor before one. -/
def isReferenceEnd (c : Char) : Bool :=
  !isReferencePart c && c != ';' && c != '&'

/-- What shows an element or code in braces; a character in quotes is that character. -/
def itemGlyph (source : List Char) : Glyph :=
  match source with
  | ['\x7b', '\'', c, '\'', '\x7d'] =>
      if c == ' ' || c == '\x7b' || c == '\x7d' then .char c else .item source
  | _ => .item source

namespace MarkupReader

variable (r : MarkupReader)

/-- The character that a reference stands for whose name starts the text, and how long its name is
with the semicolon. -/
def referenceAt? (cs : List Char) : Option (Char × Nat) :=
  if (cs.dropWhile isReferencePart).head? = some ';' then
    (r.reference? (cs.takeWhile isReferencePart)).map
      (·, (cs.takeWhile isReferencePart).length + 1)
  else none

/-- The text with its references resolved, after some characters that have been read. -/
def resolve : Nat → List Char → List Char
  | _, [] => []
  | n + 1, _ :: cs => resolve n cs
  | 0, c :: cs =>
      match if c == '&' then r.referenceAt? cs else none with
      | some (d, n) => d :: resolve n cs
      | none => c :: resolve 0 cs

/-- No place of the text starts a reference. -/
def NoReference (cs : List Char) : Prop :=
  ∀ before after, cs = before ++ '&' :: after → r.referenceAt? after = none

/-- What a stretch of text shows. -/
def textGlyphs (cs : List Char) : List Glyph :=
  (r.resolve 0 (tidyText cs)).map .char

/-- The text shows the glyphs: stretches of text, and between them what can be read as items. -/
inductive Reads : List Char → List Glyph → Prop
  | text {chunk : List Char} (plain : chunk.all (!isMarkupMark ·) = true) : Reads chunk (r.textGlyphs chunk)
  | item {chunk source rest : List Char} {gs : List Glyph} (plain : chunk.all (!isMarkupMark ·) = true)
      (found : r.item? (source ++ rest) = some (source, rest)) (more : Reads rest gs) :
      Reads (chunk ++ (source ++ rest)) (r.textGlyphs chunk ++ itemGlyph source :: gs)

/-- The source is read as one item, whatever follows. -/
def Finds (source : List Char) : Prop :=
  ∀ rest, r.item? (source ++ rest) = some (source, rest)

variable {r}

theorem Finds.exists_cons {source : List Char} (h : r.Finds source) :
    ∃ c tail, source = c :: tail ∧ (c = '\x7b' ∨ c = '<') :=
  (r.opens (h [])).2

theorem exists_marked {source rest : List Char} (found : r.item? (source ++ rest) = some (source, rest)) :
    ∃ c tail, source ++ rest = c :: tail ∧ isMarkupMark c = true := by
  obtain ⟨-, c, tail, rfl, rfl | rfl⟩ := r.opens found
  · exact ⟨_, _, rfl, rfl⟩
  · exact ⟨_, _, rfl, rfl⟩

theorem marked_head {source rest : List Char} (found : r.item? (source ++ rest) = some (source, rest)) :
    ∀ c ∈ (source ++ rest).head?, isMarkupMark c = true := by
  obtain ⟨c, tail, marked, mark⟩ := exists_marked found
  rw [marked]
  simpa using mark

/-- A stretch of text goes up to the next mark. -/
theorem takeWhile_chunk {chunk rest : List Char} (plain : chunk.all (!isMarkupMark ·) = true)
    (marked : ∀ c ∈ rest.head?, isMarkupMark c = true) :
    (chunk ++ rest).takeWhile (!isMarkupMark ·) = chunk ∧
      (chunk ++ rest).dropWhile (!isMarkupMark ·) = rest := by
  have all := List.all_eq_true.mp plain
  rw [List.takeWhile_append_of_pos all, List.dropWhile_append_of_pos all]
  cases rest with
  | nil => simp
  | cons c rest => simp [marked c rfl]

/-- A text can be read in one way only. -/
theorem Reads.unique {cs : List Char} {gs gs' : List Glyph} (h : r.Reads cs gs) (h' : r.Reads cs gs') :
    gs = gs' := by
  induction h generalizing gs' with
  | text plain =>
      rename_i chunk
      generalize same : chunk = cs at h'
      cases h' with
      | text => rfl
      | item plain' found =>
          obtain ⟨c, tail, marked, mark⟩ := exists_marked found
          have none := List.all_eq_true.mp plain c (by rw [same, marked]; simp)
          simp [mark] at none
  | @item chunk source rest gs plain found more ih =>
      generalize same : chunk ++ (source ++ rest) = cs at h'
      obtain ⟨c, tail, marked, mark⟩ := exists_marked found
      have here := takeWhile_chunk plain (marked_head found)
      rw [same] at here
      cases h' with
      | text plain' =>
          have none := List.all_eq_true.mp plain' c (by rw [← same, marked]; simp)
          simp [mark] at none
      | @item chunk' source' rest' gs' plain' found' more' =>
          have there := takeWhile_chunk plain' (marked_head found')
          obtain rfl : chunk = chunk' := here.1.symm.trans there.1
          have rests : source ++ rest = source' ++ rest' := here.2.symm.trans there.2
          rw [rests, found', Option.some.injEq, Prod.mk.injEq] at found
          obtain ⟨rfl, rfl⟩ := found
          rw [ih more']

end MarkupReader

/-! ### Pieces of markup -/

theorem isMarkupMark_iff {c : Char} : isMarkupMark c = true ↔ c ∈ ['\x7b', '\x7d', '<', '>'] := by
  simp [isMarkupMark, or_assoc]

/-- Marks are replaced, all other characters stand for themselves. -/
theorem escapeChar_cases (c : Char) :
    ((c == '\x7b' || c == '\x7d') = true ∧ escapeChar c = quotedChar c) ∨
      (c = '<' ∧ escapeChar c = ['&', 'l', 't', ';']) ∨ (c = '>' ∧ escapeChar c = ['&', 'g', 't', ';']) ∨
        (isMarkupMark c = false ∧ escapeChar c = [c]) := by
  unfold escapeChar
  split
  · rename_i brace
    exact .inl ⟨brace, rfl⟩
  · rename_i brace
    split
    · rename_i angle
      exact .inr (.inl ⟨eq_of_beq angle, rfl⟩)
    · rename_i less
      split
      · rename_i angle
        exact .inr (.inr (.inl ⟨eq_of_beq angle, rfl⟩))
      · rename_i greater
        refine .inr (.inr (.inr ⟨?_, rfl⟩))
        simp only [Bool.not_eq_true] at brace less greater
        rw [isMarkupMark, brace, less, greater]
        rfl

theorem escapeChar_marked {c : Char} (mark : isMarkupMark c = true) :
    ∃ d tail, escapeChar c = d :: tail ∧ (d = '\x7b' ∨ d = '&') := by
  rcases escapeChar_cases c with ⟨-, same⟩ | ⟨-, same⟩ | ⟨-, same⟩ | ⟨plain, -⟩
  · exact ⟨_, _, same, .inl rfl⟩
  · exact ⟨_, _, same, .inr rfl⟩
  · exact ⟨_, _, same, .inr rfl⟩
  · rw [mark] at plain
    cases plain

theorem escapeChar_unmarked {c : Char} (plain : isMarkupMark c = false) : escapeChar c = [c] := by
  rcases escapeChar_cases c with ⟨brace, -⟩ | ⟨rfl, -⟩ | ⟨rfl, -⟩ | ⟨-, same⟩
  · rw [isMarkupMark, brace] at plain
    cases plain
  · cases plain
  · cases plain
  · exact same

/-- A piece as it stands in markup that is read. -/
def Glyph.source : Glyph → List Char
  | .char c => [c]
  | .item source => source

/-- A piece as it is printed: braces stand in quotes, angle brackets are references. -/
def Glyph.printed : Glyph → List Glyph
  | .char c => if c == '\x7b' || c == '\x7d' then [.item (quotedChar c)] else (escapeChar c).map .char
  | .item source => [.item source]

/-- What a piece stands for on its own. -/
def Glyph.read : Glyph → Glyph
  | .char c => .char c
  | .item source => itemGlyph source

/-- The text of a printed piece. -/
def Glyph.written : Glyph → List Char
  | .char c => escapeChar c
  | .item source => source

theorem Glyph.source_map_char (cs : List Char) : (cs.map Glyph.char).flatMap source = cs := by
  induction cs with
  | nil => rfl
  | cons c cs ih => simp [source, ih]

theorem Glyph.source_printed (g : Glyph) : g.printed.flatMap source = g.written := by
  cases g with
  | item source => simp [printed, Glyph.source, written]
  | char c =>
      simp only [printed, written]
      rcases escapeChar_cases c with ⟨brace, same⟩ | ⟨rfl, same⟩ | ⟨rfl, same⟩ | ⟨plain, same⟩
      · simp [brace, same, Glyph.source]
      · rfl
      · rfl
      · split
        · rename_i brace
          rw [isMarkupMark, brace] at plain
          cases plain
        · exact source_map_char _

theorem Glyph.source_flatMap_printed (gs : List Glyph) :
    (gs.flatMap printed).flatMap source = gs.flatMap written := by
  simp only [List.flatMap_assoc, source_printed]

namespace MarkupReader

variable {r : MarkupReader}

/-- What pieces show after some text. -/
def shown (r : MarkupReader) : List Char → List Glyph → List Glyph
  | chunk, [] => r.textGlyphs chunk
  | chunk, .char c :: gs => shown r (chunk ++ [c]) gs
  | chunk, .item source :: gs => r.textGlyphs chunk ++ itemGlyph source :: shown r [] gs

/-- The piece can be read as what it is. -/
def Sound (r : MarkupReader) : Glyph → Prop
  | .char c => isMarkupMark c = false
  | .item source => r.Finds source

theorem reads_shown {gs : List Glyph} (sound : ∀ g ∈ gs, r.Sound g) {chunk : List Char}
    (plain : chunk.all (!isMarkupMark ·) = true) :
    r.Reads (chunk ++ gs.flatMap Glyph.source) (r.shown chunk gs) := by
  induction gs generalizing chunk with
  | nil => simpa [shown] using Reads.text plain
  | cons g gs ih =>
      obtain ⟨first, rest⟩ := List.forall_mem_cons.mp sound
      cases g with
      | char c =>
          have here : isMarkupMark c = false := first
          have more : (chunk ++ [c]).all (!isMarkupMark ·) = true := by
            rw [List.all_append, plain, List.all_cons, here]
            rfl
          simpa [shown, Glyph.source] using ih rest more
      | item source =>
          have found : r.Finds source := first
          have more : r.Reads ([] ++ gs.flatMap Glyph.source) (r.shown [] gs) := ih rest rfl
          simpa [shown, Glyph.source] using Reads.item plain (found _) more

/-- Sound pieces are read as what they show. -/
theorem reads_iff {gs : List Glyph} (sound : ∀ g ∈ gs, r.Sound g) {shown : List Glyph} :
    r.Reads (gs.flatMap Glyph.source) shown ↔ shown = r.shown [] gs := by
  have reading : r.Reads ([] ++ gs.flatMap Glyph.source) (r.shown [] gs) := reads_shown sound rfl
  exact ⟨fun h => h.unique reading, fun same => same ▸ reading⟩

/-- Printed characters can be read, and so can printed items. -/
theorem sound_printed {g : Glyph} (found : ∀ source, g = .item source → r.Finds source) :
    ∀ h ∈ g.printed, r.Sound h := by
  cases g with
  | item source => exact List.forall_mem_singleton.mpr (found source rfl)
  | char c =>
      simp only [Glyph.printed]
      split
      · rename_i brace
        rw [List.forall_mem_singleton]
        exact r.quoted c (by simpa using Or.inr (by simpa using brace))
      · rename_i other
        have unmarked {cs : List Char} (all : cs.all (!isMarkupMark ·) = true) : ∀ c ∈ cs, isMarkupMark c = false := by
          simpa using all
        rw [List.forall_mem_map]
        rcases escapeChar_cases c with ⟨brace, -⟩ | ⟨-, same⟩ | ⟨-, same⟩ | ⟨plain, same⟩
        · exact absurd brace other
        · rw [same]
          exact unmarked rfl
        · rw [same]
          exact unmarked rfl
        · rw [same, List.forall_mem_singleton]
          exact plain

theorem shown_append_item (chunk : List Char) (gs : List Glyph) (source : List Char) (hs : List Glyph) :
    r.shown chunk (gs ++ .item source :: hs) = r.shown chunk gs ++ itemGlyph source :: r.shown [] hs := by
  induction gs generalizing chunk with
  | nil => rfl
  | cons g gs ih =>
      cases g with
      | char c => exact ih _
      | item s => simp [shown, ih]

theorem shown_append_chars (chunk : List Char) (cs : List Char) (gs : List Glyph) :
    r.shown chunk (cs.map .char ++ gs) = r.shown (chunk ++ cs) gs := by
  induction cs generalizing chunk with
  | nil => simp
  | cons c cs ih =>
      rw [List.map_cons, List.cons_append, shown, ih, List.append_assoc, List.singleton_append]

/-! ### Line breaks -/

end MarkupReader

theorem splitChar_unbroken {mark : Char} {cs : List Char} (unbroken : mark ∉ cs) : splitChar mark cs = [cs] := by
  induction cs with
  | nil => rfl
  | cons c cs ih =>
      obtain ⟨other, rest⟩ := not_or.mp fun mem => unbroken (List.mem_cons.mpr mem)
      rw [splitChar, if_neg (by simpa using Ne.symm other), ih rest]

theorem splitChar_break {cs : List Char} (unbroken : '\n' ∉ cs) (ds : List Char) :
    splitChar '\n' (cs ++ '\n' :: ds) = cs :: splitChar '\n' ds := by
  induction cs with
  | nil => rfl
  | cons c cs ih =>
      obtain ⟨other, rest⟩ := not_or.mp fun mem => unbroken (List.mem_cons.mpr mem)
      rw [List.cons_append, splitChar, if_neg (by simpa using Ne.symm other), ih rest]

/-- What may stand between pieces on different lines: nothing, or a line break and an indentation. -/
def IsGap (gap : List Char) : Prop :=
  gap = [] ∨ ∃ n, gap = '\n' :: List.replicate n ' '

theorem dropWhile_indent {n : Nat} {cs : List Char} (starts : ∀ c ∈ cs.head?, isIndent c = false) :
    (List.replicate n ' ' ++ cs).dropWhile isIndent = cs := by
  rw [List.dropWhile_append_of_pos (fun c mem => by rw [List.eq_of_mem_replicate mem]; rfl)]
  cases cs with
  | nil => rfl
  | cons c cs => rw [List.dropWhile_cons_of_neg (by simp [starts c rfl])]

theorem dropTrailing_indent {cs : List Char} (ends : ∀ c ∈ cs.getLast?, isIndent c = false) :
    dropTrailing isIndent cs = cs := by
  rw [dropTrailing]
  rcases List.eq_nil_or_concat cs with rfl | ⟨front, c, rfl⟩
  · rfl
  · have last : isIndent c = false := ends c (by simp)
    simp [last]

/-- A line of text among gaps is shown as it is. -/
theorem tidyText_between {gap cs gap' : List Char} (before : IsGap gap) (after : IsGap gap')
    (unbroken : '\n' ∉ cs) (starts : gap ≠ [] → ∀ c ∈ cs.head?, isIndent c = false)
    (ends : gap' ≠ [] → ∀ c ∈ cs.getLast?, isIndent c = false) :
    tidyText (gap ++ (cs ++ gap')) = cs := by
  have shown : [' '].intercalate ([cs].filter (· ≠ [])) = cs := by
    cases cs <;> simp [List.intercalate]
  have ended : [cs, []].filter (· ≠ []) = [cs].filter (· ≠ []) := by
    cases cs <;> rfl
  have blank (n : Nat) : '\n' ∉ List.replicate n ' ' := fun mem => by
    have := List.eq_of_mem_replicate mem
    cases this
  have none (n : Nat) : (List.replicate n ' ').dropWhile isIndent = [] := by
    rw [← List.append_nil (List.replicate n ' '), dropWhile_indent (by simp)]
  rcases before with rfl | ⟨n, rfl⟩ <;> rcases after with rfl | ⟨k, rfl⟩
  · rw [List.nil_append, List.append_nil, tidyText, splitChar_unbroken unbroken]
    exact shown
  · rw [List.nil_append, tidyText, splitChar_break unbroken, splitChar_unbroken (blank k)]
    simp only [tidyLines, if_true, Bool.false_eq_true, if_false, none, dropTrailing_indent (ends (by simp))]
    rw [ended, shown]
  · have whole : '\n' ∉ List.replicate n ' ' ++ cs := by simp [unbroken]
    rw [List.append_nil, List.cons_append, tidyText, ← List.nil_append ('\n' :: _),
      splitChar_break (by simp), splitChar_unbroken whole]
    simp only [tidyLines, if_true, Bool.false_eq_true, if_false, dropWhile_indent (starts (by simp))]
    exact shown
  · have whole : '\n' ∉ List.replicate n ' ' ++ cs := by simp [unbroken]
    rw [List.cons_append, ← List.append_assoc, tidyText, ← List.nil_append ('\n' :: _),
      splitChar_break (by simp), splitChar_break whole, splitChar_unbroken (blank k)]
    simp only [tidyLines, if_true, Bool.false_eq_true, if_false, stripWith, none,
      dropWhile_indent (starts (by simp)), dropTrailing_indent (ends (by simp))]
    exact (congrArg _ ended).trans shown

namespace MarkupReader

variable {r : MarkupReader}

/-! ### References -/

/-- A reference starts with its name and a semicolon. -/
theorem referenceAt?_eq_some {cs : List Char} {d : Char} {n : Nat} :
    r.referenceAt? cs = some (d, n) ↔ ∃ name rest, cs = name ++ ';' :: rest ∧
      name.all isReferencePart = true ∧ r.reference? name = some d ∧ n = name.length + 1 := by
  unfold referenceAt?
  constructor
  · intro h
    split at h
    · rename_i ends
      obtain ⟨c, known, same⟩ := Option.map_eq_some_iff.mp h
      obtain ⟨rfl, rfl⟩ := Prod.mk.inj same
      obtain ⟨tail, rest⟩ := List.head?_eq_some_iff.mp ends
      refine ⟨_, tail, ?_, List.all_takeWhile, known, rfl⟩
      rw [← rest, List.takeWhile_append_dropWhile]
    · cases h
  · rintro ⟨name, rest, rfl, parts, known, rfl⟩
    have all := List.all_eq_true.mp parts
    rw [List.takeWhile_append_of_pos all, List.dropWhile_append_of_pos all]
    have ends : isReferencePart ';' = false := rfl
    simp [ends, known]

/-- The characters of a reference behind its ampersand. -/
theorem plain_of_part {name : List Char} (parts : name.all isReferencePart = true) :
    ∀ c ∈ name ++ [';'], isMarkupMark c = false ∧ c ≠ '&' := by
  intro c mem
  rcases List.mem_append.mp mem with inside | last
  · have part := List.all_eq_true.mp parts c inside
    have none : ['\x7b', '\x7d', '<', '>', '&'].all (!isReferencePart ·) = true := by decide
    have other (d : Char) (listed : d ∈ ['\x7b', '\x7d', '<', '>', '&']) : c ≠ d := by
      rintro rfl
      simpa [part] using List.all_eq_true.mp none c listed
    refine ⟨?_, other '&' (by decide)⟩
    rw [← Bool.not_eq_true, isMarkupMark_iff]
    exact fun mark => other c (List.mem_append_left ['&'] mark) rfl
  · rw [List.mem_singleton.mp last]
    decide

theorem escaped_prefix_iff {front cs : List Char}
    (plain : ∀ c ∈ front, isMarkupMark c = false ∧ c ≠ '&') :
    (∃ rest, cs.flatMap escapeChar = front ++ rest) ↔ ∃ rest, cs = front ++ rest := by
  induction front generalizing cs with
  | nil => simp
  | cons c front ih =>
      obtain ⟨⟨unmarked, other⟩, more⟩ := List.forall_mem_cons.mp plain
      cases cs with
      | nil => simp
      | cons d cs =>
          rw [List.flatMap_cons]
          cases mark : isMarkupMark d with
          | false =>
              rw [escapeChar_unmarked mark]
              simp only [List.cons_append, List.nil_append, List.cons.injEq, exists_and_left, ih more]
          | true =>
              obtain ⟨e, tail, same, opens⟩ := escapeChar_marked mark
              rw [same]
              constructor
              · rintro ⟨rest, found⟩
                obtain rfl : e = c := (List.cons.inj found).1
                rcases opens with rfl | rfl
                · cases unmarked
                · exact absurd rfl other
              · rintro ⟨rest, found⟩
                rw [(List.cons.inj found).1, unmarked] at mark
                cases mark

/-- A text and its printed form hold the same references. -/
theorem referenceAt?_escaped {cs : List Char} :
    r.referenceAt? (cs.flatMap escapeChar) = r.referenceAt? cs := by
  have found (cs : List Char) (d : Char) (n : Nat) : r.referenceAt? cs = some (d, n) ↔
      ∃ name, (∃ rest, cs = (name ++ [';']) ++ rest) ∧
        name.all isReferencePart = true ∧ r.reference? name = some d ∧ n = name.length + 1 := by
    rw [referenceAt?_eq_some]
    simp
  ext ⟨d, n⟩
  simp only [found]
  refine exists_congr fun name => and_congr_left fun ⟨parts, _⟩ => ?_
  exact escaped_prefix_iff (plain_of_part parts)

attribute [local grind =] resolve

theorem resolve_skip (front cs : List Char) : r.resolve front.length (front ++ cs) = r.resolve 0 cs := by
  induction front with
  | nil => rfl
  | cons c front ih => exact ih

/-- Angle brackets are read back from their references. -/
theorem resolve_angle {c d : Char} (known : r.reference? [d, 't'] = some c) (part : isReferencePart d = true)
    (cs : List Char) : r.resolve 0 (['&', d, 't', ';'] ++ cs) = c :: r.resolve 0 cs := by
  have found : r.referenceAt? ([d, 't', ';'] ++ cs) = some (c, 3) :=
    referenceAt?_eq_some.mpr ⟨[d, 't'], cs, rfl, by simp [part]; rfl, known, rfl⟩
  have whole : ['&', d, 't', ';'] ++ cs = '&' :: ([d, 't', ';'] ++ cs) := rfl
  have ampersand : ('&' == '&') = true := rfl
  rw [whole, resolve, ampersand, if_pos rfl, found]
  exact congrArg (c :: ·) (resolve_skip [d, 't', ';'] cs)

/-- A text without braces is resolved as if it had not been printed. -/
theorem resolve_escaped {cs : List Char} (braceless : ∀ c ∈ cs, (c == '\x7b' || c == '\x7d') = false) :
    ∀ {n : Nat}, (∀ c ∈ cs.take n, isMarkupMark c = false) →
      r.resolve n (cs.flatMap escapeChar) = r.resolve n cs := by
  induction cs with
  | nil => simp
  | cons c cs ih =>
      obtain ⟨brace, braceless⟩ := List.forall_mem_cons.mp braceless
      intro n plain
      rw [List.flatMap_cons]
      cases n with
      | succ n =>
          obtain ⟨unmarked, more⟩ := List.forall_mem_cons.mp plain
          rw [escapeChar_unmarked unmarked]
          exact ih braceless more
      | zero =>
          have rest : r.resolve 0 (cs.flatMap escapeChar) = r.resolve 0 cs := ih braceless (by simp)
          rcases escapeChar_cases c with ⟨isBrace, -⟩ | ⟨rfl, same⟩ | ⟨rfl, same⟩ | ⟨unmarked, same⟩
          · rw [brace] at isBrace
            cases isBrace
          · rw [same, resolve_angle r.less rfl, rest]
            rfl
          · rw [same, resolve_angle r.greater rfl, rest]
            rfl
          · rw [same, List.singleton_append, resolve, resolve, referenceAt?_escaped]
            split
            · rename_i d n found
              split at found
              · obtain ⟨name, tail, rfl, parts, -, rfl⟩ := referenceAt?_eq_some.mp found
                have split : name ++ ';' :: tail = (name ++ [';']) ++ tail := by simp
                have front : (name ++ ';' :: tail).take (name.length + 1) = name ++ [';'] := by
                  rw [split, List.take_append_of_le_length (by simp), List.take_of_length_le (by simp)]
                rw [ih braceless]
                intro e mem
                rw [front] at mem
                exact (plain_of_part parts e mem).1
              · cases found
            · rw [rest]

theorem length_resolve_le (n : Nat) (cs : List Char) : (r.resolve n cs).length ≤ cs.length - n := by
  induction cs generalizing n with
  | nil => cases n <;> simp [resolve]
  | cons c cs ih =>
      cases n with
      | succ n => simpa [resolve] using ih n
      | zero =>
          rw [resolve]
          split
          · have := ih ‹Nat›
            simp only [List.length_cons]
            omega
          · simpa using ih 0

/-- A text without references is shown as it is. -/
theorem resolve_of_noReference {cs : List Char} (none : r.NoReference cs) : r.resolve 0 cs = cs := by
  induction cs with
  | nil => rfl
  | cons c cs ih =>
      have rest : r.resolve 0 cs = cs := ih fun before after same => none (c :: before) after (by rw [same]; rfl)
      have here : (if c == '&' then r.referenceAt? cs else Option.none) = Option.none := by
        split
        · rename_i ampersand
          exact none [] cs (by rw [eq_of_beq ampersand]; rfl)
        · rfl
      rw [resolve, here]
      exact congrArg (c :: ·) rest

/-- A reference is longer than the character that it stands for. -/
theorem length_resolve_lt {cs : List Char} (some : ¬ r.NoReference cs) :
    (r.resolve 0 cs).length < cs.length := by
  induction cs with
  | nil => exact absurd (fun before after same => by simp at same) some
  | cons c cs ih =>
      rw [resolve]
      split
      · rename_i d n found
        split at found
        · obtain ⟨name, rest, rfl, -, -, rfl⟩ := referenceAt?_eq_some.mp found
          have short : (r.resolve (name.length + 1) (name ++ ';' :: rest)).length ≤ _ := length_resolve_le ..
          simp only [List.length_append, List.length_cons] at short ⊢
          omega
        · cases found
      · rename_i here
        have later : ¬ r.NoReference cs := by
          intro none
          refine some fun before after same => ?_
          cases before with
          | nil =>
              obtain ⟨rfl, rfl⟩ := List.cons.inj same
              exact here
          | cons b before => exact none before after (List.cons.inj same).2
        simpa using ih later

/-! ### Meaning -/

theorem isReferenceEnd_of_mark {c : Char} (mark : isMarkupMark c = true) : isReferenceEnd c = true := by
  rw [isMarkupMark_iff] at mark
  have marks : ['\x7b', '\x7d', '<', '>'].all isReferenceEnd = true := by decide
  exact List.all_eq_true.mp marks c mark

theorem isReferenceEnd_iff {c : Char} :
    isReferenceEnd c = true ↔ isReferencePart c = false ∧ c ≠ ';' ∧ (c == '&') = false := by
  simp [isReferenceEnd, and_assoc]

theorem referenceAt?_append {c : Char} (ends : isReferenceEnd c = true) (cs ds : List Char) :
    r.referenceAt? (cs ++ c :: ds) = r.referenceAt? cs := by
  obtain ⟨part, semicolon, -⟩ := isReferenceEnd_iff.mp ends
  unfold referenceAt?
  rw [List.takeWhile_append, List.dropWhile_append]
  have front : (if (cs.takeWhile isReferencePart).length = cs.length then
      cs ++ (c :: ds).takeWhile isReferencePart else cs.takeWhile isReferencePart) =
        cs.takeWhile isReferencePart := by
    split
    · rename_i whole
      rw [List.takeWhile_cons_of_neg (by simp [part]), List.append_nil]
      exact ((List.takeWhile_sublist _).eq_of_length whole).symm
    · rfl
  rw [front]
  cases rest : cs.dropWhile isReferencePart with
  | nil => simp [part, semicolon]
  | cons d tail => simp

/-- No reference goes on behind such a character. -/
theorem resolve_append {c : Char} (ends : isReferenceEnd c = true) (cs ds : List Char) {n : Nat}
    (inside : n ≤ cs.length) :
    r.resolve n (cs ++ c :: ds) = r.resolve n cs ++ c :: r.resolve 0 ds := by
  induction cs generalizing n with
  | nil =>
      obtain rfl : n = 0 := Nat.le_zero.mp inside
      rw [List.nil_append, resolve, resolve, (isReferenceEnd_iff.mp ends).2.2]
      rfl
  | cons d cs ih =>
      cases n with
      | succ n => exact ih (Nat.le_of_succ_le_succ inside)
      | zero =>
          rw [List.cons_append, resolve, resolve, referenceAt?_append ends]
          split
          · rename_i e k found
            have short : k ≤ cs.length := by
              split at found
              · obtain ⟨name, rest, rfl, -, -, rfl⟩ := referenceAt?_eq_some.mp found
                simp
              · cases found
            rw [ih short]
            rfl
          · rw [ih (Nat.zero_le _)]
            rfl

/-- What pieces stand for after some text, references resolved. -/
def means (r : MarkupReader) : List Char → List Glyph → List Glyph
  | text, [] => (r.resolve 0 text).map .char
  | text, .char c :: gs => means r (text ++ [c]) gs
  | text, .item source :: gs => (r.resolve 0 text).map .char ++ itemGlyph source :: means r [] gs

attribute [local grind =] means

theorem means_append_end {c : Char} (ends : isReferenceEnd c = true) (text more : List Char) (gs : List Glyph) :
    r.means (text ++ c :: more) gs = (r.resolve 0 text).map .char ++ .char c :: r.means more gs := by
  induction gs generalizing more with
  | nil => simp [means, resolve_append ends]
  | cons g gs ih =>
      cases g with
      | char d => simpa [means] using ih (more ++ [d])
      | item source => simp [means, resolve_append ends]

theorem means_append_item (text : List Char) (gs hs : List Glyph) (source : List Char) :
    r.means text (gs ++ .item source :: hs) = r.means text gs ++ itemGlyph source :: r.means [] hs := by
  induction gs generalizing text with
  | nil => rfl
  | cons g gs ih =>
      cases g with
      | char c => exact ih _
      | item s => simp [means, ih]

theorem means_map_char (text cs : List Char) : r.means text (cs.map .char) = (r.resolve 0 (text ++ cs)).map .char := by
  induction cs generalizing text with
  | nil => rw [List.map_nil, means, List.append_nil]
  | cons c cs ih => rw [List.map_cons, means, ih, List.append_assoc, List.singleton_append]

theorem mem_escaped {cs : List Char} (unbroken : '\n' ∉ cs) : '\n' ∉ cs.flatMap escapeChar := by
  rw [List.mem_flatMap]
  rintro ⟨c, listed, mem⟩
  rcases escapeChar_cases c with ⟨brace, same⟩ | ⟨-, same⟩ | ⟨-, same⟩ | ⟨-, same⟩ <;> rw [same] at mem
  · obtain rfl : '\n' = c := by simpa [quotedChar] using mem
    exact unbroken listed
  · simp at mem
  · simp at mem
  · rw [List.mem_singleton] at mem
    exact unbroken (mem ▸ listed)

/-- An escaped text without braces and line breaks shows the text. -/
theorem textGlyphs_escaped {cs : List Char} (braceless : ∀ c ∈ cs, (c == '\x7b' || c == '\x7d') = false)
    (unbroken : '\n' ∉ cs) : r.textGlyphs (cs.flatMap escapeChar) = (r.resolve 0 cs).map .char := by
  have tidy : tidyText ([] ++ (cs.flatMap escapeChar ++ [])) = cs.flatMap escapeChar :=
    tidyText_between (.inl rfl) (.inl rfl) (mem_escaped unbroken) (by simp) (by simp)
  rw [List.nil_append, List.append_nil] at tidy
  rw [textGlyphs, tidy, resolve_escaped braceless (by simp)]

/-- Printed pieces show what the pieces mean. -/
theorem shown_printed {ps : List Glyph} (whole : .char '\n' ∉ ps) {cs : List Char}
    (braceless : ∀ c ∈ cs, (c == '\x7b' || c == '\x7d') = false) (unbroken : '\n' ∉ cs) :
    r.shown (cs.flatMap escapeChar) (ps.flatMap Glyph.printed) = r.means cs ps := by
  induction ps generalizing cs with
  | nil => exact textGlyphs_escaped braceless unbroken
  | cons g ps ih =>
      obtain ⟨here, rest⟩ := not_or.mp fun mem => whole (List.mem_cons.mpr mem)
      have fresh : r.shown ([].flatMap escapeChar) (ps.flatMap Glyph.printed) = r.means [] ps :=
        ih rest (by simp) (by simp)
      cases g with
      | item source =>
          rw [List.flatMap_cons, Glyph.printed, List.singleton_append, shown, means,
            textGlyphs_escaped braceless unbroken]
          exact congrArg (_ ++ _ :: ·) fresh
      | char c =>
          rw [List.flatMap_cons, Glyph.printed, means]
          split
          · rename_i brace
            have mark : isMarkupMark c = true := by simp [isMarkupMark, brace]
            have read : itemGlyph (quotedChar c) = .char c := by
              rw [quotedChar, itemGlyph, if_pos (by simpa [or_assoc] using Or.inr (by simpa using brace))]
            rw [List.singleton_append, shown, textGlyphs_escaped braceless unbroken,
              means_append_end (isReferenceEnd_of_mark mark), read]
            exact congrArg (_ ++ _ :: ·) fresh
          · rename_i plain
            have escaped : cs.flatMap escapeChar ++ escapeChar c = (cs ++ [c]).flatMap escapeChar := by simp
            rw [shown_append_chars, escaped]
            refine ih rest (fun d mem => ?_) (fun mem => ?_)
            · rcases List.mem_append.mp mem with before | last
              · exact braceless d before
              · rw [List.mem_singleton.mp last]
                exact Bool.eq_false_iff.mpr plain
            · rcases List.mem_append.mp mem with before | last
              · exact unbroken before
              · rw [← List.mem_singleton.mp last] at here
                exact here rfl

/-- No characters in a row hold a reference. -/
def Plain (r : MarkupReader) (ps : List Glyph) : Prop :=
  ∀ cs, cs.map Glyph.char <:+: ps → r.NoReference cs

/-- Pieces without references mean themselves. -/
theorem means_of_plain {ps : List Glyph} {cs : List Char} (plain : r.Plain (cs.map .char ++ ps)) :
    r.means cs ps = cs.map .char ++ ps.map Glyph.read := by
  induction ps generalizing cs with
  | nil => rw [means, resolve_of_noReference (plain cs (by simp)), List.map_nil, List.append_nil]
  | cons g ps ih =>
      cases g with
      | char c =>
          rw [means, ih (by simpa using plain)]
          simp [Glyph.read]
      | item source =>
          have here := plain cs (List.infix_append' [] _ _)
          have rest : r.Plain ([].map .char ++ ps) := fun ds inside => plain ds <| inside.trans <|
            (List.suffix_cons _ _).isInfix.trans (List.suffix_append _ _).isInfix
          rw [means, resolve_of_noReference here, ih rest]
          simp [Glyph.read]

end MarkupReader

end ReactMigration
