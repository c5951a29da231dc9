import ReactMigration.Proofs.ChildLayout

/-!
Children that are read back.

What the layout loses of the white space is what stands before the first child and after the last one,
as long as every run between blocks is set apart from them by single spaces.
-/

namespace ReactMigration

open ReactMigration.Text
open ReactMigration.Printing

/-! ### Spaces between children -/

/-- A run is set apart from the blocks around it by single spaces: one that is blank is a space if it
stands between two of them. -/
def IsSpaced (before after : Bool) (run : List Markup) : Prop :=
  run = [] ∨
    if stripPieces (run.flatMap Markup.pieces) = [] then
      before = true → after = true → run.flatMap Markup.pieces = [.char ' ']
    else
      (before = true → ¬ [.char ' ', .char ' '] <+: run.flatMap Markup.pieces) ∧
        (after = true → ¬ [.char ' ', .char ' '] <:+ run.flatMap Markup.pieces)

instance (before after : Bool) (run : List Markup) : Decidable (IsSpaced before after run) :=
  inferInstanceAs <| Decidable <| run = [] ∨
    if stripPieces (run.flatMap Markup.pieces) = [] then
      before = true → after = true → run.flatMap Markup.pieces = [.char ' ']
    else
      (before = true → ¬ [.char ' ', .char ' '] <+: run.flatMap Markup.pieces) ∧
        (after = true → ¬ [.char ' ', .char ' '] <:+ run.flatMap Markup.pieces)

/-- All runs among children are set apart by single spaces, the first one going on from a run. -/
def Spaced (before : Bool) (run : List Markup) : List Markup → Prop
  | [] => IsSpaced before false run
  | m :: ms => if m.isInline then Spaced before (run ++ [m]) ms else IsSpaced before true run ∧ Spaced true [] ms

/-- Pieces that stand after a block or not, without the spaces that vanish there. -/
def frontPieces (before : Bool) (ps : List Glyph) : List Glyph :=
  if before then ps else ps.dropWhile Glyph.isSpace

def rearPieces (after : Bool) (ps : List Glyph) : List Glyph :=
  if after then ps else (ps.reverse.dropWhile Glyph.isSpace).reverse

theorem rearPieces_eq (after : Bool) (ps : List Glyph) :
    rearPieces after ps = (frontPieces after ps.reverse).reverse := by
  unfold rearPieces frontPieces
  split <;> simp

theorem frontPieces_blank {ps : List Glyph} (blank : ∀ g ∈ ps, g.isSpace = true) : frontPieces false ps = [] :=
  List.dropWhile_eq_nil_iff.mpr blank

theorem rearPieces_blank {ps : List Glyph} (blank : ∀ g ∈ ps, g.isSpace = true) : rearPieces false ps = [] := by
  rw [rearPieces_eq, frontPieces_blank fun g mem => blank g (List.mem_reverse.mp mem), List.reverse_nil]

/-- Only spaces stand around the pieces that stripping leaves. -/
theorem exists_stripped (ps : List Glyph) :
    ∃ before after, ps = before ++ (stripPieces ps ++ after) ∧ (∀ g ∈ before, g.isSpace = true) ∧
      ∀ g ∈ after, g.isSpace = true := by
  have spaces (qs : List Glyph) : ∀ g ∈ qs.takeWhile Glyph.isSpace, g.isSpace = true :=
    List.all_eq_true.mp List.all_takeWhile
  refine ⟨ps.takeWhile Glyph.isSpace, ((ps.dropWhile Glyph.isSpace).reverse.takeWhile Glyph.isSpace).reverse, ?_,
    spaces ps, fun g mem => spaces _ g (List.mem_reverse.mp mem)⟩
  rw [stripPieces, ← List.reverse_append, List.takeWhile_append_dropWhile, List.reverse_reverse,
    List.takeWhile_append_dropWhile]

theorem frontPieces_append {g : Glyph} (visible : g.isSpace = false) (before : Bool) (ps qs : List Glyph) :
    frontPieces before (ps ++ g :: qs) = frontPieces before ps ++ g :: qs := by
  unfold frontPieces
  split
  · rfl
  · rw [List.dropWhile_append]
    split
    · rename_i none
      rw [List.dropWhile_cons_of_neg (by simp [visible]), List.isEmpty_iff.mp none, List.nil_append]
    · rfl

theorem rearPieces_append {g : Glyph} (visible : g.isSpace = false) (after : Bool) (ps qs : List Glyph) :
    rearPieces after (ps ++ g :: qs) = ps ++ g :: rearPieces after qs := by
  have turned := frontPieces_append visible after qs.reverse ps.reverse
  unfold rearPieces
  unfold frontPieces at turned
  split
  · rfl
  · rename_i open'
    rw [if_neg open', if_neg open'] at turned
    simpa using congrArg List.reverse turned

/-- What stands between visible pieces stays. -/
theorem edges_append {kept : List Glyph} (shown : kept ≠ []) (front : kept.head? ≠ some (.char ' '))
    (back : kept.getLast? ≠ some (.char ' ')) (before after : Bool) (lead trail : List Glyph) :
    rearPieces after (frontPieces before (lead ++ (kept ++ trail))) =
      frontPieces before lead ++ (kept ++ rearPieces after trail) := by
  have first : frontPieces before (lead ++ (kept ++ trail)) = frontPieces before lead ++ (kept ++ trail) := by
    obtain ⟨g, tail, rfl⟩ := List.exists_cons_of_ne_nil shown
    exact frontPieces_append (Glyph.not_isSpace_iff.mpr fun same => front (by rw [same]; rfl)) ..
  rw [first]
  rcases List.eq_nil_or_concat kept with rfl | ⟨body, g, rfl⟩
  · exact absurd rfl shown
  · have visible : g.isSpace = false := Glyph.not_isSpace_iff.mpr fun same => back (by simp [same])
    have last := rearPieces_append visible after (frontPieces before lead ++ body) trail
    simpa using last

/-- A single space before a visible piece is what the layout keeps there. -/
theorem keptSide_read {spaces rest : List Glyph} (blank : ∀ g ∈ spaces, g.isSpace = true)
    (visible : rest.head? ≠ some (.char ' ')) {block : Bool}
    (single : block = true → ¬ [.char ' ', .char ' '] <+: spaces ++ rest) {source : List Char}
    (whole : '\n' ∉ source) :
    (keptSide (spaces ++ rest).head? block source).map Glyph.read = (frontPieces block spaces).map Glyph.read := by
  have unbroken : source.contains '\n' = false := by simpa using whole
  unfold keptSide
  rw [unbroken, Bool.not_false, Bool.and_true]
  cases block with
  | false => rw [frontPieces_blank blank, Bool.and_false, if_neg Bool.false_ne_true]
  | true =>
      rw [Bool.and_true, frontPieces, if_pos rfl]
      match spaces with
      | [] => rw [List.nil_append, if_neg (by simpa using visible)]
      | [g] =>
          obtain rfl := Glyph.isSpace_iff.mp (blank g (by simp))
          rfl
      | g :: h :: more =>
          obtain rfl := Glyph.isSpace_iff.mp (blank g (by simp))
          obtain rfl := Glyph.isSpace_iff.mp (blank h (by simp))
          exact absurd ⟨more ++ rest, rfl⟩ (single rfl)

theorem reverse_keptSide (edge : Option Glyph) (block : Bool) (blank : List Char) :
    (keptSide edge block blank).reverse = keptSide edge block blank := by
  rcases keptSide_cases edge block blank with same | same <;> rw [same] <;> rfl

theorem keptSides_read {lead kept trail : List Glyph} (blankLead : ∀ g ∈ lead, g.isSpace = true)
    (blankTrail : ∀ g ∈ trail, g.isSpace = true) (shown : kept ≠ []) (front : kept.head? ≠ some (.char ' '))
    (back : kept.getLast? ≠ some (.char ' ')) {before after : Bool}
    (singleLead : before = true → ¬ [.char ' ', .char ' '] <+: lead ++ (kept ++ trail))
    (singleTrail : after = true → ¬ [.char ' ', .char ' '] <:+ lead ++ (kept ++ trail)) {source source' : List Char}
    (whole : '\n' ∉ source) (whole' : '\n' ∉ source') :
    (keptSide (lead ++ (kept ++ trail)).head? before source ++ kept ++
        keptSide (lead ++ (kept ++ trail)).getLast? after source').map Glyph.read =
      (rearPieces after (frontPieces before (lead ++ (kept ++ trail)))).map Glyph.read := by
  have turned : (lead ++ (kept ++ trail)).reverse = trail.reverse ++ (lead ++ kept).reverse := by simp
  have first := keptSide_read blankLead (by rwa [List.head?_append_of_ne_nil _ shown]) singleLead whole
  have last : (keptSide (lead ++ (kept ++ trail)).getLast? after source').map Glyph.read =
      (frontPieces after trail.reverse).map Glyph.read := by
    rw [← List.head?_reverse, turned]
    refine keptSide_read (fun g mem => blankTrail g (List.mem_reverse.mp mem)) ?_ (fun block double => ?_) whole'
    · rwa [List.head?_reverse, List.getLast?_append_of_ne_nil _ shown]
    · rw [← turned] at double
      exact singleTrail block (List.reverse_prefix.mp double)
  have turnedBack : (rearPieces after trail).map Glyph.read = ((frontPieces after trail.reverse).map Glyph.read).reverse := by
    rw [rearPieces_eq, List.map_reverse]
  rw [edges_append shown front back, List.map_append, List.map_append, List.map_append, List.map_append, turnedBack, ← last,
    ← List.map_reverse, reverse_keptSide, first, List.append_assoc]

/-- What is kept of a spaced run is the run up to the spaces that do not stand at a block. -/
theorem keptRun_read {before after : Bool} {run : List Markup} (spaced : IsSpaced before after run)
    (whole : '\n' ∉ (String.join (run.map inlineSource)).toList) :
    (keptRun before after run).map Glyph.read =
      (rearPieces after (frontPieces before (run.flatMap Markup.pieces))).map Glyph.read := by
  have unbroken : (String.join (run.map inlineSource)).toList.contains '\n' = false := by simpa using whole
  rcases spaced with rfl | spaced
  · cases before <;> cases after <;> rfl
  by_cases empty : run = []
  · subst empty
    cases before <;> cases after <;> rfl
  simp only [keptRun, if_neg empty]
  obtain ⟨lead, trail, split, blankLead, blankTrail⟩ := exists_stripped (run.flatMap Markup.pieces)
  split at spaced
  · rename_i hidden
    have blank : ∀ g ∈ run.flatMap Markup.pieces, g.isSpace = true := by
      rw [split, hidden, List.nil_append]
      exact fun g mem => (List.mem_append.mp mem).elim (blankLead g) (blankTrail g)
    rw [if_pos hidden, unbroken, Bool.not_false, Bool.and_true]
    cases before with
    | false => rw [frontPieces_blank blank]; cases after <;> rfl
    | true =>
        cases after with
        | false => rw [frontPieces, if_pos rfl, rearPieces_blank blank]; rfl
        | true => rw [spaced rfl rfl]; rfl
  · rename_i shown
    obtain ⟨front, back⟩ := stripPieces_ends (run.flatMap Markup.pieces)
    have blanks {cs : List Char} (none : '\n' ∉ cs) : '\n' ∉ cs.takeWhile isBlank :=
      fun mem => none ((List.takeWhile_sublist _).subset mem)
    rw [if_neg shown]
    have read := keptSides_read blankLead blankTrail shown front back (split ▸ spaced.1) (split ▸ spaced.2)
      (blanks whole) (blanks (List.mem_reverse.not.mpr whole))
    rwa [← split] at read

/-- What is kept of spaced children is all but the spaces before the first and after the last one. -/
theorem keptPieces_read {children : List Markup} {before : Bool} {run : List Markup}
    (spaced : Spaced before run children)
    (whole : ∀ t, .text t ∈ run ++ children → '\n' ∉ t.toList) :
    (keptPieces before run children).map Glyph.read =
      (rearPieces false (frontPieces before ((run ++ children).flatMap Markup.pieces))).map Glyph.read := by
  have letter : '\n' ∉ "x".toList := by decide
  have source (run : List Markup) (whole : ∀ t, .text t ∈ run → '\n' ∉ t.toList) :
      '\n' ∉ (String.join (run.map inlineSource)).toList := by
    rw [String.toList_join, List.flatMap_map, List.mem_flatMap]
    rintro ⟨m, listed, mem⟩
    cases m with
    | text t => exact whole t listed mem
    | _ => exact letter mem
  induction children generalizing before run with
  | nil =>
      rw [List.append_nil] at whole ⊢
      exact keptRun_read spaced (source run whole)
  | cons m ms ih =>
      rw [Spaced] at spaced
      rw [keptPieces]
      split at spaced
      · rename_i inline
        rw [if_pos inline, ih spaced (by simpa using whole)]
        simp
      · rename_i block
        obtain ⟨here, rest⟩ := spaced
        have piece := pieces_block (Bool.eq_false_iff.mpr block)
        have first := keptRun_read here (source run fun t mem => whole t (List.mem_append_left _ mem))
        have more : (keptPieces true [] ms).map Glyph.read = (rearPieces false (ms.flatMap Markup.pieces)).map Glyph.read :=
          ih rest fun t mem => whole t (List.mem_append_right _ (List.mem_cons_of_mem _ mem))
        have visible : (Glyph.item (blockSource (blockLines m (render m)))).isSpace = false := by
          rw [Glyph.not_isSpace_iff]
          rintro ⟨⟩
        rw [if_neg block, List.flatMap_append, List.flatMap_cons, piece, List.singleton_append,
          frontPieces_append visible, rearPieces_append visible]
        simp only [List.map_append, List.map_cons, first, more]
        simp [rearPieces]

/-! ### References -/

namespace MarkupReader

variable {r : MarkupReader}

theorem Plain.mono {ps qs : List Glyph} (plain : r.Plain qs) (inside : ps <:+: qs) : r.Plain ps :=
  fun cs infixed => plain cs (infixed.trans inside)

theorem infix_of_append_item {cs : List Char} {ps qs : List Glyph} {source : List Char}
    (inside : cs.map Glyph.char <:+: ps ++ .item source :: qs) :
    cs.map Glyph.char <:+: ps ∨ cs.map Glyph.char <:+: qs := by
  obtain ⟨lead, trail, split⟩ := inside
  rcases List.append_eq_append_iff.mp split with ⟨rest, same, -⟩ | ⟨rest, same, cut⟩
  · exact .inl ⟨lead, rest, same.symm⟩
  · cases rest with
    | nil => exact .inl ⟨lead, [], by rw [List.append_nil, same, List.append_nil]⟩
    | cons g rest =>
        obtain ⟨rfl, rfl⟩ := List.cons.inj cut
        have none : Glyph.item source ∉ cs.map Glyph.char := by simp
        rcases List.append_eq_append_iff.mp same with ⟨more, -, items⟩ | ⟨more, -, items⟩
        · exact absurd (items ▸ List.mem_append_right _ List.mem_cons_self) none
        · cases more with
          | nil =>
              rw [List.nil_append] at items
              exact absurd (items ▸ List.mem_cons_self) none
          | cons g more =>
              obtain ⟨rfl, rfl⟩ := List.cons.inj items
              exact .inr ⟨more, trail, rfl⟩

theorem plain_append_item {ps qs : List Glyph} {source : List Char} :
    r.Plain (ps ++ .item source :: qs) ↔ r.Plain ps ∧ r.Plain qs := by
  refine ⟨fun plain => ⟨plain.mono (List.prefix_append ..).isInfix,
    plain.mono (List.suffix_append_of_suffix (List.suffix_cons ..)).isInfix⟩, fun plain cs inside => ?_⟩
  exact (infix_of_append_item inside).elim (plain.1 cs) (plain.2 cs)

theorem plain_of_notMem {ps : List Glyph} (none : .char '&' ∉ ps) : r.Plain ps := by
  rintro cs inside before after rfl
  exact absurd (inside.subset (by simp)) none

theorem plain_nil : r.Plain [] := by
  intro cs inside
  obtain rfl : cs = [] := by simpa using List.infix_nil.mp inside
  exact fun before after same => by simp at same

theorem plain_keptRun {before after : Bool} {run : List Markup} (plain : r.Plain (run.flatMap Markup.pieces)) :
    r.Plain (keptRun before after run) := by
  have space : r.Plain [.item (quotedChar ' ')] := plain_append_item.mpr ⟨plain_nil, plain_nil⟩
  have kept : r.Plain (stripPieces (run.flatMap Markup.pieces)) :=
    plain.mono ((stripPieces_leading _).isInfix.trans (List.dropWhile_suffix _).isInfix)
  unfold keptRun
  extract_lets pieces source
  split
  · exact plain_nil
  · split
    · split
      · exact space
      · exact plain_nil
    · have last (edge : Option Glyph) (block : Bool) (blank : List Char) :
          r.Plain (stripPieces pieces ++ keptSide edge block blank) := by
        rcases keptSide_cases edge block blank with same | same <;> rw [same]
        · rwa [List.append_nil]
        · exact plain_append_item.mpr ⟨kept, plain_nil⟩
      rw [List.append_assoc]
      rcases keptSide_cases pieces.head? before (source.takeWhile isBlank) with same | same <;> rw [same]
      · exact last _ _ _
      · exact plain_append_item.mpr ⟨plain_nil, last _ _ _⟩

/-- The layout brings no references. -/
theorem plain_keptPieces {children : List Markup} {before : Bool} {run : List Markup}
    (plain : r.Plain ((run ++ children).flatMap Markup.pieces)) : r.Plain (keptPieces before run children) := by
  induction children generalizing before run with
  | nil => exact plain_keptRun (by simpa using plain)
  | cons m ms ih =>
      rw [keptPieces]
      split
      · exact ih (by simpa using plain)
      · rename_i block
        rw [List.flatMap_append, List.flatMap_cons, pieces_block (Bool.eq_false_iff.mpr block),
          List.singleton_append] at plain
        obtain ⟨front, back⟩ := plain_append_item.mp plain
        rw [pieces_block (Bool.eq_false_iff.mpr block), List.append_assoc, List.singleton_append]
        exact plain_append_item.mpr ⟨plain_keptRun front, ih back⟩

end MarkupReader

/-- The characters that are kept stand in texts. -/
theorem char_mem_keptPieces {children : List Markup} {before : Bool} {run : List Markup} {c : Char}
    (mem : .char c ∈ keptPieces before run children) : .char c ∈ (run ++ children).flatMap Markup.pieces := by
  have inRun {before after : Bool} {run : List Markup} (mem : .char c ∈ keptRun before after run) :
      .char c ∈ run.flatMap Markup.pieces := by
    have none (edge : Option Glyph) (block : Bool) (blank : List Char) : .char c ∉ keptSide edge block blank := by
      rcases keptSide_cases edge block blank with same | same <;> simp [same]
    unfold keptRun at mem
    extract_lets pieces source at mem
    split at mem
    · cases mem
    · split at mem
      · split at mem
        · simp at mem
        · cases mem
      · rcases List.mem_append.mp mem with mem | mem
        · rcases List.mem_append.mp mem with mem | mem
          · exact absurd mem (none _ _ _)
          · exact stripPieces_subset mem
        · exact absurd mem (none _ _ _)
  induction children generalizing before run with
  | nil => simpa using inRun mem
  | cons m ms ih =>
      rw [keptPieces] at mem
      split at mem
      · simpa using ih mem
      · rw [List.flatMap_append, List.flatMap_cons]
        rcases List.mem_append.mp mem with mem | mem
        · rcases List.mem_append.mp mem with mem | mem
          · exact List.mem_append_left _ (inRun mem)
          · exact List.mem_append_right _ (List.mem_append_left _ mem)
        · exact List.mem_append_right _ (List.mem_append_right _ (ih mem))

theorem unbroken_keptPieces (children : List Markup) : .char '\n' ∉ keptPieces false [] children := by
  intro mem
  obtain ⟨m, -, piece⟩ := List.mem_flatMap.mp (char_mem_keptPieces mem)
  cases m with
  | text t =>
      obtain ⟨c, listed, same⟩ := List.mem_map.mp piece
      rw [Glyph.char.inj same, collapse, String.toList_ofList] at listed
      exact absurd (blank_of_collapsed _ listed rfl) (by decide)
  | expression code =>
      rw [Markup.pieces] at piece
      split at piece <;> simp at piece
  | _ => simp [Markup.pieces] at piece

/-! ### Reading children back -/

/-- The tags around children: the lines of the start tag, the children and the end tag. -/
def Markup.tags? : Markup → Option (List String × List Markup × String)
  | .element tag attrs (child :: children) =>
      some (openTag tag (attrs.map attrText) ">", child :: children, "</" ++ tag ++ ">")
  | .fragment children (some key) => some (["<Fragment key=" ++ braced key ++ ">"], children, "</Fragment>")
  | .fragment children none => some (["<>"], children, "</>")
  | _ => none

theorem openTag_ne_nil (tag : String) (attrs : List String) (close : String) : openTag tag attrs close ≠ [] := by
  unfold openTag
  extract_lets single
  split <;> simp

/-- A node with children is printed as its tags around one of the layouts. -/
theorem render_tags {m : Markup} {opening : List String} {children : List Markup} {closing : String}
    (tags : m.tags? = some (opening, children, closing)) :
    ∃ content, Laid children content ∧
      unlines (render m) = unlines opening ++ String.ofList content ++ closing := by
  cases m with
  | element tag attrs inside =>
      cases inside with
      | nil => cases tags
      | cons child rest =>
          cases tags
          exact enclose_laid (openTag_ne_nil _ _ _) ..
  | fragment inside key =>
      cases key <;> cases tags <;> exact enclose_laid (by simp) ..
  | _ => cases tags

/-- Children that are spaced are read back in order, with all texts as they were, in either layout. -/
theorem children_read_back (r : MarkupReader) {m : Markup} {opening : List String} {children : List Markup}
    {closing : String} (tags : m.tags? = some (opening, children, closing))
    (collapsed : ∀ t, .text t ∈ children → collapse t = t)
    (single : ∀ m ∈ children, m.isInline = true → m.OneLine)
    (found : ∀ source, .item source ∈ children.flatMap Markup.pieces → r.Finds source)
    (spaced : Spaced false [] children) (plain : r.Plain (children.flatMap Markup.pieces)) :
    (∃ content, Laid children content ∧
      unlines (render m) = unlines opening ++ String.ofList content ++ closing) ∧
    ∀ content, Laid children content → ∀ gs, r.Reads content gs ↔
      gs = (stripPieces (children.flatMap Markup.pieces)).map Glyph.read := by
  refine ⟨render_tags tags, fun content laid gs => ?_⟩
  have whole (t : String) (listed : .text t ∈ [] ++ children) : '\n' ∉ t.toList := by
    intro mem
    rw [← collapsed t listed, collapse, String.toList_ofList] at mem
    exact absurd (blank_of_collapsed _ mem rfl) (by decide)
  have meaning : r.shown ([].flatMap escapeChar) ((keptPieces false [] children).flatMap Glyph.printed) =
      r.means [] (keptPieces false [] children) :=
    MarkupReader.shown_printed (unbroken_keptPieces children) (by simp) (by simp)
  have known : r.Plain ([].map .char ++ keptPieces false [] children) := MarkupReader.plain_keptPieces plain
  have read := (meaning.trans (MarkupReader.means_of_plain known)).trans (keptPieces_read spaced whole)
  rw [MarkupReader.reads_laid single found laid]
  exact ⟨fun same => same.trans read, fun same => same.trans read.symm⟩

/-- Where an item ends whose code and properties hold no closing sign. -/
def plainItem? : List Char → Option (List Char × List Char)
  | '\x7b' :: '\'' :: c :: '\'' :: '\x7d' :: rest => some (quotedChar c, rest)
  | '\x7b' :: cs => (breakOn? ['\x7d'] cs).map fun (code, rest) => ('\x7b' :: (code ++ ['\x7d']), rest)
  | '<' :: cs => (breakOn? ['>'] cs).map fun (inside, rest) => ('<' :: (inside ++ ['>']), rest)
  | _ => none

/-- Reading markup of plain items. -/
def plainReader : MarkupReader where
  item? := plainItem?
  reference? name := [(['l', 't'], '<'), (['g', 't'], '>'), (['a', 'm', 'p'], '&')].lookup name
  opens := by
    intro cs source rest found
    unfold plainItem? at found
    split at found
    · obtain ⟨rfl, rfl⟩ := found
      exact ⟨rfl, _, _, rfl, .inl rfl⟩
    · obtain ⟨⟨code, rest'⟩, cut, same⟩ := Option.map_eq_some_iff.mp found
      obtain ⟨rfl, rfl⟩ := Prod.mk.inj same
      exact ⟨by simp [eq_append_of_breakOn? cut], _, _, rfl, .inl rfl⟩
    · obtain ⟨⟨inside, rest'⟩, cut, same⟩ := Option.map_eq_some_iff.mp found
      obtain ⟨rfl, rfl⟩ := Prod.mk.inj same
      exact ⟨by simp [eq_append_of_breakOn? cut], _, _, rfl, .inr rfl⟩
    · cases found
  quoted := fun _ _ _ => rfl
  less := rfl
  greater := rfl

/-- A text, an element, a text and a value. -/
def listChildren : List Markup :=
  [.text "a ", .element "b" [] [], .text " c ", .expression "n"]

/-- What they show. -/
def listGlyphs : List Glyph :=
  [.char 'a', .char ' ', .item "<b />".toList, .char ' ', .char 'c', .char ' ', .item "\x7bn\x7d".toList]

theorem children_read_back_listChildren :
    (∃ content, Laid listChildren content ∧
      unlines (render (.fragment listChildren none)) = "<>" ++ String.ofList content ++ "</>") ∧
    ∀ content, Laid listChildren content → ∀ gs, plainReader.Reads content gs ↔ gs = listGlyphs := by
  have pieces : listChildren.flatMap Markup.pieces = listGlyphs := by decide +kernel
  have collapsed (t : String) (listed : .text t ∈ listChildren) : collapse t = t := by
    obtain rfl | rfl : t = "a " ∨ t = " c " := by simpa [listChildren] using listed
    · decide
    · decide
  have single (m : Markup) (listed : m ∈ listChildren) (inline : m.isInline = true) : m.OneLine := by
    simp only [listChildren, List.mem_cons, List.not_mem_nil, or_false] at listed
    rcases listed with rfl | rfl | rfl | rfl
    · trivial
    · cases inline
    · trivial
    · exact rfl
  have found (source : List Char) (listed : .item source ∈ listChildren.flatMap Markup.pieces) :
      plainReader.Finds source := by
    obtain rfl | rfl : source = "<b />".toList ∨ source = "\x7bn\x7d".toList := by
      simpa [pieces, listGlyphs] using listed
    · exact fun rest => rfl
    · exact fun rest => rfl
  have spaced : IsSpaced false true [.text "a "] ∧ IsSpaced true false [.text " c ", .expression "n"] := by
    decide +kernel
  have read := children_read_back plainReader (m := .fragment listChildren none) rfl collapsed single found spaced
    (MarkupReader.plain_of_notMem (by rw [pieces]; decide +kernel))
  have stripped : (stripPieces (listChildren.flatMap Markup.pieces)).map Glyph.read = listGlyphs := by
    rw [pieces]
    decide +kernel
  rw [stripped] at read
  exact read

/-- Between blocks a text that is empty is shown as a space. -/
theorem children_space_invented :
    let children : List Markup := [.element "b" [] [], .text "", .element "b" [] []]
    ∀ content, Laid children content →
      plainReader.Reads content [.item "<b />".toList, .char ' ', .item "<b />".toList] ∧
        stripPieces (children.flatMap Markup.pieces) = [.item "<b />".toList, .item "<b />".toList] := by
  intro children content laid
  have pieces : children.flatMap Markup.pieces = [.item "<b />".toList, .item "<b />".toList] := by decide +kernel
  have single (m : Markup) (listed : m ∈ children) (inline : m.isInline = true) : m.OneLine := by
    simp only [children, List.mem_cons, List.not_mem_nil, or_false] at listed
    rcases listed with rfl | rfl | rfl
    · cases inline
    · trivial
    · cases inline
  have found : plainReader.FindsAll (children.flatMap Markup.pieces) := by
    intro source listed
    obtain rfl : source = "<b />".toList := by simpa [pieces] using listed
    exact fun rest => rfl
  refine ⟨(MarkupReader.reads_laid single found laid).mpr ?_, by rw [pieces]; decide⟩
  decide +kernel

end ReactMigration
