import ReactMigration.Proofs.ChildReading

/-!
A text as a child and as a string.

Where a text stands as an expression it is a string in quotes, which says the text as it is.  Where it
stands as a child its references are resolved.  So both places show the same text exactly if it holds no
reference.
-/

namespace ReactMigration

open ReactMigration.Text
open ReactMigration.Printing

/-! ### Strings in quotes -/

/-- The character that stands behind a backslash in a string; codes of characters are left out. -/
def escapedChar? (c : Char) : Option Char :=
  if Script.isLineEnd c || c.isDigit || c == 'x' || c == 'u' then none
  else some ((([('n', '\n'), ('t', '\t'), ('r', '\r'), ('b', '\x08'), ('f', '\x0c'), ('v', '\x0b')] :
    List (Char × Char)).lookup c).getD c)

/-- What a string says that ends with a single quote, read behind its first quote. -/
def stringBody? : List Char → Option (List Char)
  | [] => none
  | ['\''] => some []
  | '\\' :: c :: cs => (escapedChar? c).bind fun d => (stringBody? cs).map (d :: ·)
  | c :: cs => if c == '\'' || c == '\\' || Script.isLineEnd c then none else (stringBody? cs).map (c :: ·)

/-- What a string in single quotes says. -/
def stringValue? : List Char → Option (List Char)
  | '\'' :: cs => stringBody? cs
  | _ => none

/-- Replacing single characters is done in each place alone. -/
theorem replaceAll_single {old : String} {mark : Char} (single : old.toList = [mark]) (new s : String) :
    (replaceAll old new s).toList = s.toList.flatMap fun c => if c == mark then new.toList else [c] := by
  have within (cs : List Char) (fuel : Nat) (enough : cs.length < fuel) :
      replaceWithin [mark] new.toList fuel cs = cs.flatMap fun c => if c == mark then new.toList else [c] := by
    induction cs generalizing fuel with
    | nil => cases fuel <;> rfl
    | cons c cs ih =>
        cases fuel with
        | zero => cases enough
        | succ fuel =>
            have rest := ih fuel (Nat.lt_of_succ_lt_succ enough)
            rw [replaceWithin, List.flatMap_cons, ← rest]
            cases same : c == mark <;> simp [dropLead?, same]
  rw [replaceAll, String.toList_ofList, replaceChars, single]
  exact within _ _ (Nat.lt_succ_self _)

/-- A character of a text in single quotes. -/
def quotedPart (c : Char) : List Char :=
  if c == '\\' then ['\\', '\\'] else if c == '\'' then ['\\', '\''] else [c]

theorem quoteText_toList (s : String) : (quoteText s).toList = '\'' :: (s.toList.flatMap quotedPart ++ ['\'']) := by
  have backslash : "\\".toList = ['\\'] := rfl
  have quote : "'".toList = ['\''] := rfl
  rw [quoteText, String.toList_append, String.toList_append, replaceAll_single quote, replaceAll_single backslash,
    List.flatMap_assoc, quote, List.singleton_append, List.cons_append]
  refine congrArg (fun cs => '\'' :: (cs ++ ['\''])) (List.flatMap_congr fun c _ => ?_)
  unfold quotedPart
  split
  · rfl
  · simp

/-- A text in quotes says the text. -/
theorem stringValue?_quoteText {s : String} (line : ∀ c ∈ s.toList, Script.isLineEnd c = false) :
    stringValue? (quoteText s).toList = some s.toList := by
  have body (cs : List Char) (line : ∀ c ∈ cs, Script.isLineEnd c = false) :
      stringBody? (cs.flatMap quotedPart ++ ['\'']) = some cs := by
    induction cs with
    | nil => rfl
    | cons c cs ih =>
        obtain ⟨here, rest⟩ := List.forall_mem_cons.mp line
        rw [List.flatMap_cons, List.append_assoc, quotedPart]
        split
        · rename_i same
          rw [eq_of_beq same]
          exact congrArg (·.map ('\\' :: ·)) (ih rest)
        · rename_i other
          split
          · rename_i same
            rw [eq_of_beq same]
            exact congrArg (·.map ('\'' :: ·)) (ih rest)
          · rename_i visible
            have plain : (c == '\'' || c == '\\' || Script.isLineEnd c) = false := by
              simp only [Bool.eq_false_iff.mpr other, Bool.eq_false_iff.mpr visible, here, Bool.or_self]
            rw [List.singleton_append, stringBody?, plain, if_neg Bool.false_ne_true, ih rest]
            · rfl
            · rintro rfl -
              exact visible rfl
            · rintro d ds rfl -
              exact other rfl
  rw [quoteText_toList]
  exact body _ line

theorem isBlank_of_isLineEnd {c : Char} (ends : Script.isLineEnd c = true) : isBlank c = true := by
  simp only [Script.isLineEnd, Bool.or_eq_true, beq_iff_eq] at ends
  obtain ((rfl | rfl) | code) | code := ends
  · rfl
  · rfl
  · simp [isBlank, code]
  · simp [isBlank, code]

/-! ### White space around characters -/

theorem stripWith_append_left {p : Char → Bool} {lead : List Char} (blank : ∀ c ∈ lead, p c = true) (cs : List Char) :
    stripWith p (lead ++ cs) = stripWith p cs := by
  rw [stripWith, List.dropWhile_append_of_pos blank, ← stripWith]

theorem stripWith_append_right {p : Char → Bool} {trail : List Char} (blank : ∀ c ∈ trail, p c = true)
    (cs : List Char) : stripWith p (cs ++ trail) = stripWith p cs := by
  have none : trail.dropWhile p = [] := List.dropWhile_eq_nil_iff.mpr blank
  have turned : ∀ c ∈ trail.reverse, p c = true := fun c mem => blank c (List.mem_reverse.mp mem)
  unfold stripWith
  rw [List.dropWhile_append]
  split
  · rename_i hidden
    rw [none, List.isEmpty_iff.mp hidden]
  · rw [dropTrailing, List.reverse_append, List.dropWhile_append_of_pos turned, ← dropTrailing]

theorem stripWith_dropWhile (p : Char → Bool) (cs : List Char) : stripWith p (cs.dropWhile p) = stripWith p cs := by
  have blank : ∀ c ∈ cs.takeWhile p, p c = true := List.all_eq_true.mp List.all_takeWhile
  rw [← stripWith_append_left blank, List.takeWhile_append_dropWhile]

theorem stripWith_dropTrailing (p : Char → Bool) (cs : List Char) : stripWith p (dropTrailing p cs) = stripWith p cs := by
  have blank : ∀ c ∈ (cs.reverse.takeWhile p).reverse, p c = true :=
    fun c mem => List.all_eq_true.mp List.all_takeWhile c (List.mem_reverse.mp mem)
  rw [← stripWith_append_right blank, dropTrailing, ← List.reverse_append, List.takeWhile_append_dropWhile,
    List.reverse_reverse]

theorem exists_stripWith (p : Char → Bool) (cs : List Char) :
    ∃ before after, cs = before ++ (stripWith p cs ++ after) ∧ (∀ c ∈ before, p c = true) ∧ ∀ c ∈ after, p c = true := by
  have blank (ds : List Char) : ∀ c ∈ ds.takeWhile p, p c = true := List.all_eq_true.mp List.all_takeWhile
  refine ⟨cs.takeWhile p, ((cs.dropWhile p).reverse.takeWhile p).reverse, ?_, blank cs,
    fun c mem => blank _ c (List.mem_reverse.mp mem)⟩
  rw [stripWith, dropTrailing, ← List.reverse_append, List.takeWhile_append_dropWhile, List.reverse_reverse,
    List.takeWhile_append_dropWhile]

theorem dropWhile_isSpace {cs : List Char} (spaces : ∀ c ∈ cs, isBlank c = true → c = ' ') :
    (cs.map Glyph.char).dropWhile Glyph.isSpace = (cs.dropWhile isBlank).map .char := by
  induction cs with
  | nil => rfl
  | cons c cs ih =>
      obtain ⟨here, rest⟩ := List.forall_mem_cons.mp spaces
      rw [List.map_cons]
      cases blank : isBlank c with
      | true =>
          obtain rfl := here blank
          rw [List.dropWhile_cons_of_pos (Glyph.isSpace_iff.mpr rfl), List.dropWhile_cons_of_pos blank, ih rest]
      | false =>
          have visible : (Glyph.char c).isSpace = false := by
            rw [Glyph.not_isSpace_iff]
            rintro ⟨⟩
            cases blank
          rw [List.dropWhile_cons_of_neg (by simp [visible]), List.dropWhile_cons_of_neg (by simp [blank]), List.map_cons]

/-- What stands of a text at its ends may be missing. -/
theorem edges_map_char {cs : List Char} (spaces : ∀ c ∈ cs, isBlank c = true → c = ' ') (before after : Bool) :
    ∃ ds, rearPieces after (frontPieces before (cs.map .char)) = ds.map .char ∧
      (∀ c ∈ ds, isBlank c = true → c = ' ') ∧ stripWith isBlank ds = stripWith isBlank cs := by
  obtain ⟨ds, front, kept, same⟩ : ∃ ds, frontPieces before (cs.map .char) = ds.map .char ∧ ds.Sublist cs ∧
      stripWith isBlank ds = stripWith isBlank cs := by
    cases before with
    | true => exact ⟨cs, rfl, .refl cs, rfl⟩
    | false => exact ⟨_, dropWhile_isSpace spaces, List.dropWhile_sublist _, stripWith_dropWhile ..⟩
  have spaces (c : Char) (mem : c ∈ ds) : isBlank c = true → c = ' ' := spaces c (kept.subset mem)
  rw [front]
  cases after with
  | true => exact ⟨ds, rfl, spaces, same⟩
  | false =>
      have turned : ∀ c ∈ ds.reverse, isBlank c = true → c = ' ' := fun c mem => spaces c (List.mem_reverse.mp mem)
      refine ⟨dropTrailing isBlank ds, ?_, fun c mem => ?_, (stripWith_dropTrailing ..).trans same⟩
      · rw [rearPieces_eq, ← List.map_reverse, frontPieces, if_neg Bool.false_ne_true, dropWhile_isSpace turned,
          dropTrailing, List.map_reverse]
      · exact turned c ((List.dropWhile_sublist _).subset (List.mem_reverse.mp mem))

/-! ### A text among its siblings -/

/-- Whether a child is a text. -/
def Markup.isText : Markup → Bool
  | .text _ => true
  | _ => false

theorem pieces_of_isText {m : Markup} (other : m.isText = false) : ∃ source, m.pieces = [.item source] := by
  cases m with
  | text t => cases other
  | expression code =>
      rw [Markup.pieces]
      split <;> exact ⟨_, rfl⟩
  | _ => exact ⟨_, rfl⟩

/-- The pieces end with an item, if there are any. -/
def EndsItem (ps : List Glyph) : Prop :=
  ps = [] ∨ ∃ front source, ps = front ++ [.item source]

/-- The pieces start with an item, if there are any. -/
def StartsItem (ps : List Glyph) : Prop :=
  ps = [] ∨ ∃ source rest, ps = .item source :: rest

theorem isSpace_item (source : List Char) : (Glyph.item source).isSpace = false :=
  Glyph.not_isSpace_iff.mpr nofun

theorem EndsItem.frontPieces {ps : List Glyph} (ends : EndsItem ps) :
    EndsItem (frontPieces false ps) ∧ (frontPieces false ps).getLast? = ps.getLast? := by
  rcases ends with rfl | ⟨front, source, rfl⟩
  · exact ⟨.inl rfl, rfl⟩
  · rw [frontPieces_append (isSpace_item source)]
    exact ⟨.inr ⟨_, _, rfl⟩, by simp⟩

theorem StartsItem.rearPieces {ps : List Glyph} (starts : StartsItem ps) :
    StartsItem (rearPieces false ps) ∧ (rearPieces false ps).head? = ps.head? := by
  rcases starts with rfl | ⟨source, rest, rfl⟩
  · exact ⟨.inl rfl, rfl⟩
  · rw [← List.nil_append (_ :: rest), rearPieces_append (isSpace_item source)]
    exact ⟨.inr ⟨_, _, rfl⟩, rfl⟩

/-- Between items all that stands is stripped in its own place. -/
theorem stripPieces_between {ps qs : List Glyph} (ends : EndsItem ps) (starts : StartsItem qs) (ts : List Glyph) :
    stripPieces (ps ++ (ts ++ qs)) =
      frontPieces false ps ++ (rearPieces (!qs.isEmpty) (frontPieces (!ps.isEmpty) ts) ++ rearPieces false qs) := by
  have front : frontPieces false (ps ++ (ts ++ qs)) = frontPieces false ps ++ (frontPieces (!ps.isEmpty) ts ++ qs) := by
    rcases ends with rfl | ⟨ps, source, rfl⟩
    · rcases starts with rfl | ⟨source, qs, rfl⟩
      · simp [frontPieces]
      · exact frontPieces_append (isSpace_item source) false ts qs
    · have first := frontPieces_append (isSpace_item source) false ps
      rw [List.append_assoc, List.singleton_append, first, first]
      simp [frontPieces]
  have back (ps ts : List Glyph) (ends : EndsItem ps) :
      rearPieces false (ps ++ (ts ++ qs)) = ps ++ (rearPieces (!qs.isEmpty) ts ++ rearPieces false qs) := by
    rcases starts with rfl | ⟨source, qs, rfl⟩
    · rcases ends with rfl | ⟨ps, source, rfl⟩
      · simp [rearPieces]
      · have last := rearPieces_append (isSpace_item source) false ps ts
        simpa [rearPieces] using last
    · have last := rearPieces_append (isSpace_item source) false (ps ++ ts) qs
      have alone := rearPieces_append (isSpace_item source) false [] qs
      rw [← List.append_assoc, last, ← List.nil_append (_ :: qs), alone]
      simp [rearPieces]
  have strip : stripPieces (ps ++ (ts ++ qs)) = rearPieces false (frontPieces false (ps ++ (ts ++ qs))) := rfl
  rw [strip, front, back _ _ ends.frontPieces.1]

/-- At most a space in braces. -/
def IsSide (ps : List Glyph) : Prop :=
  ps = [] ∨ ps = [.item (quotedChar ' ')]

theorem EndsItem.side {ps side : List Glyph} (ends : EndsItem ps) (isSide : IsSide side) :
    ∃ front lead, side ++ ReactMigration.frontPieces false ps = front ++ lead ∧ IsSide lead ∧ EndsItem front ∧
      front.getLast? = ps.getLast? := by
  rcases ends with rfl | ⟨body, source, rfl⟩
  · exact ⟨[], side, by simp [ReactMigration.frontPieces], isSide, .inl rfl, rfl⟩
  · refine ⟨side ++ (ReactMigration.frontPieces false body ++ [.item source]), [], ?_, .inl rfl,
      .inr ⟨_, source, (List.append_assoc ..).symm⟩, by simp⟩
    rw [frontPieces_append (isSpace_item source), List.append_nil]

theorem StartsItem.side {ps side : List Glyph} (starts : StartsItem ps) (isSide : IsSide side) :
    ∃ trail back, ReactMigration.rearPieces false ps ++ side = trail ++ back ∧ IsSide trail ∧ StartsItem back ∧
      back.head? = ps.head? := by
  rcases starts with rfl | ⟨source, body, rfl⟩
  · exact ⟨side, [], by simp [ReactMigration.rearPieces], isSide, .inl rfl, rfl⟩
  · have first := rearPieces_append (isSpace_item source) false [] body
    rw [List.nil_append, List.nil_append] at first
    exact ⟨[], .item source :: (ReactMigration.rearPieces false body ++ side), by rw [first]; rfl, .inl rfl,
      .inr ⟨source, _, rfl⟩, rfl⟩

/-- What is kept of a text: spaces at its ends may be missing, and spaces in braces may stand there. -/
def KeepsText (text : List Char) (ps : List Glyph) : Prop :=
  ∃ lead trail cs, ps = lead ++ (cs.map .char ++ trail) ∧
    IsSide lead ∧ IsSide trail ∧
    (∀ c ∈ cs, isBlank c = true → c = ' ') ∧ stripWith isBlank cs = stripWith isBlank text

/-- Pieces that hold what is kept of a text, between items that stand next to it. -/
def Holds (text : List Char) (before after ps : List Glyph) : Prop :=
  ∃ front kept back, ps = front ++ (kept ++ back) ∧ KeepsText text kept ∧
    EndsItem front ∧ front.getLast? = before.getLast? ∧ StartsItem back ∧ back.head? = after.head?

theorem keptRun_text {before after : Bool} {pre post : List Markup} {t : String}
    (ends : EndsItem (pre.flatMap Markup.pieces)) (starts : StartsItem (post.flatMap Markup.pieces)) :
    Holds (collapse t).toList (pre.flatMap Markup.pieces) (post.flatMap Markup.pieces)
      (keptRun before after (pre ++ .text t :: post)) := by
  have spaces : ∀ c ∈ (collapse t).toList, isBlank c = true → c = ' ' := by
    rw [collapse, String.toList_ofList]
    exact blank_of_collapsed
  have some : pre ++ .text t :: post ≠ [] := by simp
  have whole : (pre ++ .text t :: post).flatMap Markup.pieces =
      pre.flatMap Markup.pieces ++ ((collapse t).toList.map .char ++ post.flatMap Markup.pieces) := by
    simp [Markup.pieces]
  have strip := stripPieces_between ends starts ((collapse t).toList.map .char)
  obtain ⟨cs, middle, spaces, same⟩ := edges_map_char spaces
    (!(pre.flatMap Markup.pieces).isEmpty) (!(post.flatMap Markup.pieces).isEmpty)
  rw [middle] at strip
  simp only [keptRun, if_neg some, whole, strip]
  generalize pre.flatMap Markup.pieces = ps at *
  generalize post.flatMap Markup.pieces = qs at *
  split
  · rename_i hidden
    obtain ⟨none, hidden⟩ := List.append_eq_nil_iff.mp hidden
    obtain ⟨chars, blank⟩ := List.append_eq_nil_iff.mp hidden
    obtain rfl := List.map_eq_nil_iff.mp chars
    have none : ps.getLast? = Option.none := by rw [← ends.frontPieces.2, none]; rfl
    have blank : qs.head? = Option.none := by rw [← starts.rearPieces.2, blank]; rfl
    have kept (side : List Glyph) (isSide : IsSide side) : Holds (collapse t).toList ps qs side :=
      ⟨[], side, [], by simp, ⟨side, [], [], by simp, isSide, .inl rfl, by simp, same⟩,
        .inl rfl, none.symm, .inl rfl, blank.symm⟩
    split
    · exact kept _ (.inr rfl)
    · exact kept _ (.inl rfl)
  · have between (side side' : List Glyph) (isSide : IsSide side) (isSide' : IsSide side') :
        Holds (collapse t).toList ps qs
          (side ++ (frontPieces false ps ++ (cs.map .char ++ rearPieces false qs)) ++ side') := by
      obtain ⟨front, lead, first, isLead, endsFront, last⟩ := ends.side isSide
      obtain ⟨trail, back, second, isTrail, startsBack, head⟩ := starts.side isSide'
      refine ⟨front, lead ++ (cs.map .char ++ trail), back, ?_,
        ⟨lead, trail, cs, rfl, isLead, isTrail, spaces, same⟩, endsFront, last, startsBack, head⟩
      calc _ = (side ++ frontPieces false ps) ++ (cs.map .char ++ (rearPieces false qs ++ side')) := by
            simp only [List.append_assoc]
        _ = _ := by
            rw [first, second]
            simp only [List.append_assoc]
    exact between _ _ (keptSide_cases _ _ _) (keptSide_cases _ _ _)

/-- Children around a text are no texts. -/
structure Apart (pre post : List Markup) : Prop where
  before : ∀ m ∈ pre.getLast?, m.isText = false
  after : ∀ m ∈ post.head?, m.isText = false

theorem endsItem_pieces {pre : List Markup} (apart : ∀ m ∈ pre.getLast?, m.isText = false) :
    EndsItem (pre.flatMap Markup.pieces) := by
  rcases List.eq_nil_or_concat pre with rfl | ⟨front, m, rfl⟩
  · exact .inl rfl
  · obtain ⟨source, piece⟩ := pieces_of_isText (apart m (by simp))
    exact .inr ⟨front.flatMap Markup.pieces, source, by simp [piece]⟩

theorem startsItem_pieces {post : List Markup} (apart : ∀ m ∈ post.head?, m.isText = false) :
    StartsItem (post.flatMap Markup.pieces) := by
  cases post with
  | nil => exact .inl rfl
  | cons m rest =>
      obtain ⟨source, piece⟩ := pieces_of_isText (apart m rfl)
      exact .inr ⟨source, rest.flatMap Markup.pieces, by simp [piece]⟩

theorem Holds.append {text : List Char} {before after ps : List Glyph} (holds : Holds text before after ps)
    (source : List Char) (rest rest' : List Glyph) :
    Holds text before (after ++ .item source :: rest) (ps ++ .item source :: rest') := by
  obtain ⟨front, kept, back, rfl, keeps, ends, last, starts, head⟩ := holds
  refine ⟨front, kept, back ++ .item source :: rest', by simp, keeps, ends, last, ?_, ?_⟩
  · rcases starts with rfl | ⟨first, more, rfl⟩
    · exact .inr ⟨source, rest', rfl⟩
    · exact .inr ⟨first, _, rfl⟩
  · rw [List.head?_append, List.head?_append, head]
    rfl

theorem Holds.cons {text : List Char} {before after ps : List Glyph} (holds : Holds text before after ps)
    (source : List Char) (rest rest' : List Glyph) :
    Holds text (rest ++ .item source :: before) after (rest' ++ .item source :: ps) := by
  obtain ⟨front, kept, back, rfl, keeps, ends, last, starts, head⟩ := holds
  refine ⟨rest' ++ .item source :: front, kept, back, by simp, keeps, ?_, ?_, starts, head⟩
  · rcases ends with rfl | ⟨body, final, rfl⟩
    · exact .inr ⟨rest', source, rfl⟩
    · exact .inr ⟨rest' ++ .item source :: body, final, by simp⟩
  · rw [List.getLast?_append, List.getLast?_append, List.getLast?_cons, List.getLast?_cons, last]
    rfl

/-- What is kept of a text that stands in a run between children that are no texts. -/
theorem keptPieces_after {before : Bool} {pre more post : List Markup} {t : String}
    (apart : Apart pre (more ++ post)) :
    Holds (collapse t).toList (pre.flatMap Markup.pieces) ((more ++ post).flatMap Markup.pieces)
      (keptPieces before (pre ++ .text t :: more) post) := by
  induction post generalizing more with
  | nil =>
      rw [List.append_nil] at apart ⊢
      exact keptRun_text (endsItem_pieces apart.before) (startsItem_pieces apart.after)
  | cons m ms ih =>
      rw [keptPieces]
      split
      · have joined : (pre ++ .text t :: more) ++ [m] = pre ++ .text t :: (more ++ [m]) := by simp
        have rest : more ++ m :: ms = (more ++ [m]) ++ ms := by simp
        rw [joined, rest]
        exact ih (rest ▸ apart)
      · rename_i block
        have first : ∀ n ∈ more.head?, n.isText = false := by
          intro n mem
          refine apart.after n ?_
          rw [List.head?_append, mem]
          rfl
        have here : Holds _ _ _ (keptRun before true (pre ++ .text t :: more)) :=
          keptRun_text (endsItem_pieces apart.before) (startsItem_pieces first)
        rw [pieces_block (Bool.eq_false_iff.mpr block), List.append_assoc, List.singleton_append, List.flatMap_append,
          List.flatMap_cons, pieces_block (Bool.eq_false_iff.mpr block), List.singleton_append]
        exact here.append _ _ _

theorem keptPieces_text {before : Bool} {run pre post : List Markup} {t : String} (apart : Apart (run ++ pre) post) :
    Holds (collapse t).toList ((run ++ pre).flatMap Markup.pieces) (post.flatMap Markup.pieces)
      (keptPieces before run (pre ++ .text t :: post)) := by
  induction pre generalizing before run with
  | nil =>
      rw [List.append_nil] at apart ⊢
      have inline : (Markup.text t).isInline = true := rfl
      have alone : Apart run ([] ++ post) := apart
      rw [List.nil_append, keptPieces, if_pos inline]
      exact keptPieces_after alone
  | cons m ms ih =>
      rw [List.cons_append, keptPieces]
      split
      · have joined : run ++ m :: ms = (run ++ [m]) ++ ms := by simp
        rw [joined] at apart ⊢
        exact ih apart
      · rename_i block
        have piece := pieces_block (Bool.eq_false_iff.mpr block)
        have rest : ∀ n ∈ ([] ++ ms).getLast?, n.isText = false := by
          intro n mem
          refine apart.before n ?_
          rw [List.nil_append] at mem
          rw [List.getLast?_append, List.getLast?_cons, mem]
          rfl
        have later : Holds _ (([] ++ ms).flatMap Markup.pieces) _ (keptPieces true [] (ms ++ .text t :: post)) :=
          ih ⟨rest, apart.after⟩
        rw [List.flatMap_append, List.flatMap_cons, piece, List.append_assoc, List.singleton_append, List.singleton_append]
        exact later.cons _ _ _

/-! ### Both places -/

namespace MarkupReader

variable {r : MarkupReader}

theorem means_endsItem {ps : List Glyph} (ends : EndsItem ps) (qs : List Glyph) :
    r.means [] (ps ++ qs) = r.means [] ps ++ r.means [] qs := by
  rcases ends with rfl | ⟨front, source, rfl⟩
  · rfl
  · have none : r.means [] [] = [] := rfl
    rw [List.append_assoc, List.singleton_append, means_append_item, means_append_item, none, List.append_assoc]
    rfl

theorem means_startsItem {qs : List Glyph} (starts : StartsItem qs) (ps : List Glyph) :
    r.means [] (ps ++ qs) = r.means [] ps ++ r.means [] qs := by
  rcases starts with rfl | ⟨source, rest, rfl⟩
  · have none : r.means [] [] = [] := rfl
    rw [List.append_nil, none, List.append_nil]
  · rw [means_append_item]
    rfl

theorem resolve_lead {lead : List Char} (spaces : ∀ c ∈ lead, c = ' ') (cs : List Char) :
    r.resolve 0 (lead ++ cs) = lead ++ r.resolve 0 cs := by
  induction lead with
  | nil => rfl
  | cons c lead ih =>
      obtain ⟨rfl, rest⟩ := List.forall_mem_cons.mp spaces
      have first : r.resolve 0 ([] ++ ' ' :: (lead ++ cs)) = r.resolve 0 [] ++ ' ' :: r.resolve 0 (lead ++ cs) :=
        resolve_append rfl [] (lead ++ cs) (Nat.zero_le _)
      rw [ih rest] at first
      exact first

theorem resolve_trail {trail : List Char} (spaces : ∀ c ∈ trail, c = ' ') (cs : List Char) :
    r.resolve 0 (cs ++ trail) = r.resolve 0 cs ++ trail := by
  cases trail with
  | nil => rw [List.append_nil, List.append_nil]
  | cons c trail =>
      obtain ⟨rfl, rest⟩ := List.forall_mem_cons.mp spaces
      have alone : r.resolve 0 (trail ++ []) = trail ++ r.resolve 0 [] := resolve_lead rest []
      rw [List.append_nil] at alone
      rw [resolve_append rfl cs trail (Nat.zero_le _), alone]
      exact congrArg (_ ++ ' ' :: ·) (List.append_nil trail)

theorem means_side {side : List Glyph} (isSide : IsSide side) :
    ∃ cs : List Char, r.means [] side = cs.map .char ∧ ∀ c ∈ cs, c = ' ' := by
  rcases isSide with rfl | rfl
  · exact ⟨[], rfl, by simp⟩
  · exact ⟨[' '], rfl, by simp⟩

theorem IsSide.ends {side : List Glyph} (isSide : IsSide side) : EndsItem side ∧ StartsItem side := by
  rcases isSide with rfl | rfl
  · exact ⟨.inl rfl, .inl rfl⟩
  · exact ⟨.inr ⟨[], _, rfl⟩, .inr ⟨_, [], rfl⟩⟩

/-- What is kept of a text shows its characters with all references resolved, up to white space around. -/
theorem means_keepsText {text : List Char} {ps : List Glyph} (keeps : KeepsText text ps) :
    ∃ shown, r.means [] ps = shown.map .char ∧
      stripWith isBlank shown = stripWith isBlank (r.resolve 0 (stripWith isBlank text)) := by
  obtain ⟨lead, trail, cs, rfl, isLead, isTrail, spaces, same⟩ := keeps
  obtain ⟨front, showsFront, blankFront⟩ := means_side (r := r) isLead
  obtain ⟨back, showsBack, blankBack⟩ := means_side (r := r) isTrail
  have blank {ds : List Char} (spaces : ∀ c ∈ ds, c = ' ') : ∀ c ∈ ds, isBlank c = true :=
    fun c mem => by rw [spaces c mem]; rfl
  refine ⟨front ++ (r.resolve 0 cs ++ back), ?_, ?_⟩
  · rw [means_endsItem (IsSide.ends isLead).1, means_startsItem (IsSide.ends isTrail).2, showsFront, showsBack,
      means_map_char]
    simp
  · obtain ⟨before, after, split, blankBefore, blankAfter⟩ := exists_stripWith isBlank cs
    have whole : r.resolve 0 cs = before ++ (r.resolve 0 (stripWith isBlank text) ++ after) := by
      have inside {ds : List Char} (sub : ∀ c ∈ ds, c ∈ cs) (blank : ∀ c ∈ ds, isBlank c = true) : ∀ c ∈ ds, c = ' ' :=
        fun c mem => spaces c (sub c mem) (blank c mem)
      have first := inside (fun c mem => by rw [split]; simp [mem]) blankBefore
      have last := inside (fun c mem => by rw [split]; simp [mem]) blankAfter
      rw [split, same, resolve_lead first, resolve_trail last]
    rw [stripWith_append_left (blank blankFront), stripWith_append_right (blank blankBack), whole,
      stripWith_append_left blankBefore, stripWith_append_right blankAfter]

end MarkupReader

/-- The literal is what is printed for a text that is a branch of a condition or the body of a loop. -/
structure StandsFor (literal t : String) : Prop where
  shown : ∀ condition otherwise, render (.conditional condition (.text t) otherwise) =
    conditionalLines condition [literal] (renderOtherwise otherwise)
  otherwise : ∀ condition shown, render (.conditional condition shown (some (.text t))) =
    conditionalLines condition (branchLines shown (render shown)) [literal]
  body : ∀ iterable item index, render (.loop iterable item index (.text t)) =
    loopLines iterable item index [literal]

theorem quoteText_standsFor (t : String) : StandsFor (quoteText (trim (collapse t))) t where
  shown _ _ := rfl
  otherwise _ _ := rfl
  body _ _ _ := rfl

theorem mem_stripWith {p : Char → Bool} {cs : List Char} {c : Char} (mem : c ∈ stripWith p cs) : c ∈ cs := by
  obtain ⟨before, after, split, -, -⟩ := exists_stripWith p cs
  rw [split]
  simp [mem]

theorem stripWith_stripWith (p : Char → Bool) (cs : List Char) : stripWith p (stripWith p cs) = stripWith p cs := by
  obtain ⟨before, after, split, front, back⟩ := exists_stripWith p cs
  conv_rhs => rw [split, stripWith_append_left front, stripWith_append_right back]

/-- The string of a text says the text without white space around it. -/
theorem stringValue?_trim (t : String) :
    stringValue? (quoteText (trim (collapse t))).toList = some (stripWith isBlank (collapse t).toList) := by
  rw [stringValue?_quoteText, trim, String.toList_ofList]
  intro c mem
  rw [trim, String.toList_ofList, collapse, String.toList_ofList] at mem
  rw [← Bool.not_eq_true]
  intro ends
  rw [blank_of_collapsed c (mem_stripWith mem) (isBlank_of_isLineEnd ends)] at ends
  cases ends

theorem stripWith_resolve_iff {r : MarkupReader} {cs : List Char} :
    stripWith isBlank (r.resolve 0 (stripWith isBlank cs)) = stripWith isBlank (stripWith isBlank cs) ↔
      r.NoReference (stripWith isBlank cs) := by
  rw [stripWith_stripWith]
  refine ⟨fun same => Classical.byContradiction fun some => ?_, fun none => ?_⟩
  · have short := MarkupReader.length_resolve_lt some
    obtain ⟨before, after, split, -, -⟩ := exists_stripWith isBlank (r.resolve 0 (stripWith isBlank cs))
    have lengths := congrArg List.length split
    rw [same] at lengths
    simp only [List.length_append] at lengths
    omega
  · rw [MarkupReader.resolve_of_noReference none, stripWith_stripWith]

/-- A text is shown the same as a child, among children that are no texts, and as a string, up to white
space around it, exactly if it holds no reference. -/
theorem text_positions_agree_iff (r : MarkupReader) {t : String} {m : Markup} {opening : List String}
    {pre post : List Markup} {closing : String} (tags : m.tags? = some (opening, pre ++ .text t :: post, closing))
    (apart : Apart pre post) (single : ∀ m ∈ pre ++ .text t :: post, m.isInline = true → m.OneLine)
    (found : ∀ source, .item source ∈ (pre ++ .text t :: post).flatMap Markup.pieces → r.Finds source) :
    ∃ literal value front shown back,
      StandsFor literal t ∧ stringValue? literal.toList = some value ∧
      (∃ content, Laid (pre ++ .text t :: post) content ∧
        unlines (render m) = unlines opening ++ String.ofList content ++ closing) ∧
      (∀ content, Laid (pre ++ .text t :: post) content → ∀ gs, r.Reads content gs ↔
        gs = front ++ (shown.map .char ++ back)) ∧
      front.getLast? = (pre.flatMap Markup.pieces).getLast?.map Glyph.read ∧
      back.head? = (post.flatMap Markup.pieces).head?.map Glyph.read ∧
      (stripWith isBlank shown = stripWith isBlank value ↔ r.NoReference value) := by
  have holds : Holds (collapse t).toList (([] ++ pre).flatMap Markup.pieces) (post.flatMap Markup.pieces)
      (keptPieces false [] (pre ++ .text t :: post)) := keptPieces_text apart
  obtain ⟨front, kept, back, split, keeps, ends, last, starts, head⟩ := holds
  obtain ⟨shown, means, stripped⟩ := MarkupReader.means_keepsText (r := r) keeps
  refine ⟨_, _, r.means [] front, shown, r.means [] back, quoteText_standsFor t, stringValue?_trim t, render_tags tags,
    fun content laid gs => ?_, ?_, ?_, ?_⟩
  · have meaning : r.shown ([].flatMap escapeChar) ((keptPieces false [] (pre ++ .text t :: post)).flatMap Glyph.printed) =
        r.means [] (keptPieces false [] (pre ++ .text t :: post)) :=
      MarkupReader.shown_printed (unbroken_keptPieces _) (by simp) (by simp)
    rw [split, MarkupReader.means_endsItem ends, MarkupReader.means_startsItem starts, means, ← split] at meaning
    rw [MarkupReader.reads_laid single found laid]
    exact ⟨fun same => same.trans meaning, fun same => same.trans meaning.symm⟩
  · rw [← List.nil_append pre, ← last]
    rcases ends with rfl | ⟨body, source, rfl⟩
    · rfl
    · rw [MarkupReader.means_append_item]
      simp [MarkupReader.means, MarkupReader.resolve, Glyph.read]
  · rw [← head]
    rcases starts with rfl | ⟨source, rest, rfl⟩
    · rfl
    · rfl
  · rw [stripped]
    exact stripWith_resolve_iff

def comparison : String :=
  "1 < 2"

/-- What stands in front of the comparison. -/
def comparisonPre : List Markup :=
  [.element "b" [] []]

def comparisonChildren : List Markup :=
  comparisonPre ++ [.text comparison]

theorem text_positions_agree_comparison :
    ∃ literal value front shown back,
      StandsFor literal comparison ∧ stringValue? literal.toList = some value ∧
      (∃ content, Laid comparisonChildren content ∧
        unlines (render (.element "p" [] comparisonChildren)) = "<p>" ++ String.ofList content ++ "</p>") ∧
      (∀ content, Laid comparisonChildren content → ∀ gs, plainReader.Reads content gs ↔
        gs = front ++ (shown.map .char ++ back)) ∧
      front.getLast? = some (.item "<b />".toList) ∧ back.head? = none ∧
      (stripWith isBlank shown = stripWith isBlank value ↔ plainReader.NoReference value) := by
  have pieces : comparisonChildren.flatMap Markup.pieces = .item "<b />".toList :: comparison.toList.map .char := by
    decide +kernel
  have before : (comparisonPre.flatMap Markup.pieces).getLast?.map Glyph.read = some (.item "<b />".toList) := by
    decide +kernel
  have opening : unlines (openTag "p" ([].map attrText) ">") = "<p>" := by decide +kernel
  have closing : "</" ++ "p" ++ ">" = "</p>" := rfl
  have apart : Apart comparisonPre [] := ⟨by simp [comparisonPre, Markup.isText], by simp⟩
  have single (m : Markup) (listed : m ∈ comparisonChildren) (inline : m.isInline = true) : m.OneLine := by
    simp only [comparisonChildren, comparisonPre, List.cons_append, List.nil_append, List.mem_cons, List.not_mem_nil,
      or_false] at listed
    rcases listed with rfl | rfl
    · cases inline
    · trivial
  have found (source : List Char) (listed : .item source ∈ comparisonChildren.flatMap Markup.pieces) :
      plainReader.Finds source := by
    rw [pieces] at listed
    obtain rfl : source = "<b />".toList := by simpa using listed
    exact fun rest => rfl
  have agree := text_positions_agree_iff plainReader (m := .element "p" [] comparisonChildren) rfl apart single found
  rw [before, opening, closing] at agree
  exact agree

/-- A reference is a character where the text is a child, and stands as it is written in a string. -/
theorem text_positions_differ :
    StandsFor "'a &amp; b'" "a &amp; b" ∧ stringValue? "'a &amp; b'".toList = some "a &amp; b".toList ∧
      ∀ content, Laid [.text "a &amp; b"] content → plainReader.Reads content ("a & b".toList.map .char) := by
  have literal : quoteText (trim (collapse "a &amp; b")) = "'a &amp; b'" := by decide +kernel
  refine ⟨literal ▸ quoteText_standsFor "a &amp; b", by decide +kernel, fun content laid => ?_⟩
  have single (m : Markup) (listed : m ∈ [Markup.text "a &amp; b"]) (inline : m.isInline = true) : m.OneLine := by
    rw [List.mem_singleton.mp listed]
    trivial
  refine (MarkupReader.reads_laid single (fun source listed => ?_) laid).mpr (by decide +kernel)
  simp [Markup.pieces] at listed

end ReactMigration
