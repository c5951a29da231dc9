import ReactMigration.Printing.Markup
import ReactMigration.Proofs.Scanning

/-!
The brackets and quotes of printed markup.

In a tree whose code is balanced and whose names and texts hold no marks of their own, every layout of
every node closes what it opens, with one exception: a body of several lines that is passed on as a
property is closed by one round bracket too many.  So the lines of a tree are balanced exactly if it
holds no such body.
-/

namespace ReactMigration

open ReactMigration.Text ReactMigration.Script

/-! ### Texts -/

/-- The text closes what it opens, or else it closes a round bracket too many. -/
def Closes (excess : Bool) (s : String) : Prop :=
  Reads ')' excess s.toList

/-- The two texts stand around any text like brackets. -/
def Frames (before after : String) : Prop :=
  ∀ excess s, Closes excess s → Closes excess (before ++ s ++ after)

variable {b b' : Bool} {s t : String}

theorem closes_iff : Closes false s ↔ findUnbalanced s = none :=
  findUnbalanced_iff.symm

namespace Closes

theorem literal (s : String) (h : findUnbalanced s = none) : Closes false s :=
  closes_iff.mpr h

theorem append (hs : Closes b s) (ht : Closes b' t) : Closes (b || b') (s ++ t) := by
  rw [Closes, String.toList_append]
  exact Reads.append hs ht

/-- An excess bracket is found whatever follows. -/
theorem followed (h : Closes true s) (t : String) : Closes true (s ++ t) := by
  intro o rest
  rw [String.toList_append, List.append_assoc]
  exact h o (t.toList ++ rest)

theorem intercalate (hs : Closes false s) {ts : List String} (h : ∀ t ∈ ts, Closes false t) :
    Closes false (s.intercalate ts) := by
  cases ts with
  | nil => exact literal _ rfl
  | cons t ts =>
      induction ts generalizing t with
      | nil => simpa [String.intercalate_singleton] using h
      | cons t' ts ih =>
          rw [String.intercalate_cons_cons]
          refine ((h t List.mem_cons_self).append hs).append (ih t' fun u hu => ?_)
          exact h u (List.mem_cons_of_mem t hu)

/-- Blanks at both ends carry no marks. -/
theorem trim (h : Closes false s) : Closes false (Text.trim s) := by
  have blank (l : List Char) (c : Char) (hc : c ∈ l.takeWhile isBlank) : isPlain c = true :=
    isPlain_of_isBlank (List.all_eq_true.mp List.all_takeWhile c hc)
  have front (l : List Char) : Alike l (l.dropWhile isBlank) := by
    have read := Alike.plains (blank l) (l.dropWhile isBlank)
    rwa [List.takeWhile_append_dropWhile] at read
  have back (l : List Char) : Alike l (dropTrailing isBlank l) := by
    have read := Alike.lasts (fun c hc => blank l.reverse c (List.mem_reverse.mp hc))
      (dropTrailing isBlank l)
    rwa [dropTrailing, ← List.reverse_append, List.takeWhile_append_dropWhile,
      List.reverse_reverse] at read
  rw [closes_iff] at h ⊢
  rw [findUnbalanced, Text.trim, String.toList_ofList, stripWith, ← back _ none [] rfl,
    ← front _ none [] rfl]
  exact h

theorem indent (h : Closes b s) : Closes b (Printing.indent s) := by
  have line := reads_lineFeed ')'
  refine Reads.ofLast isPlain_lineFeed fun o rest => ?_
  rw [List.append_assoc, List.singleton_append, Printing.indent, Alike.indentBy 1 s rest none o rfl]
  have whole := Reads.append h line o rest
  rwa [Bool.or_false, List.append_assoc, List.singleton_append] at whole

end Closes

namespace Frames

theorem parens : Frames "(" ")" := by
  intro b s h
  have chars : ("(" ++ s ++ ")").toList = '(' :: (s.toList ++ [')']) := by simp
  rw [Closes, chars]
  exact Reads.bracketed rfl h

theorem braces : Frames "\x7b" "\x7d" := by
  intro b s h
  have chars : ("\x7b" ++ s ++ "\x7d").toList = '\x7b' :: (s.toList ++ ['\x7d']) := by simp
  rw [Closes, chars]
  exact Reads.bracketed rfl h

/-- A round bracket does not close a brace. -/
theorem overclosed (h : Closes b s) : Closes true ("\x7b" ++ s ++ ")") := by
  have chars : ("\x7b" ++ s ++ ")").toList = '\x7b' :: (s.toList ++ [')']) := by simp
  rw [Closes, chars]
  exact Reads.mismatched rfl (by decide) (by decide) h

theorem ofCloses (hs : Closes false s) (ht : Closes false t) : Frames s t := by
  intro b u h
  have whole := (hs.append h).append ht
  rwa [Bool.false_or, Bool.or_false] at whole

theorem comp {before after before' after' : String} (h : Frames before after)
    (h' : Frames before' after') : Frames (before ++ before') (after' ++ after) := by
  intro b s hs
  have inner := h b _ (h' b s hs)
  simpa only [String.append_assoc] using inner

/-- Brackets behind a text that closes what it opens. -/
theorem behind {before after : String} (h : Frames before after) (hs : Closes false s) :
    Frames (s ++ before) after := by
  have frame := (ofCloses hs (Closes.literal "" rfl)).comp h
  rwa [String.append_empty] at frame

/-- Brackets with a text that closes what it opens just inside. -/
theorem before {before after : String} (h : Frames before after) (hs : Closes false s) :
    Frames (before ++ s) after := by
  have frame := h.comp (ofCloses hs (Closes.literal "" rfl))
  rwa [String.empty_append] at frame

end Frames

/-! ### Lines -/

/-- Lines that close what they open, taken together, or else close a round bracket too many. -/
def ClosesLines (excess : Bool) (ls : List String) : Prop :=
  Closes excess (unlines ls)

namespace ClosesLines

variable {ls ms : List String} {l : String}

theorem iff_rows : ClosesLines b ls ↔ Reads ')' b (rows ls) :=
  reads_unlines

theorem nil : ClosesLines false [] :=
  iff_rows.mpr Reads.nil

theorem single : ClosesLines b [l] ↔ Closes b l := by
  rw [ClosesLines, unlines, String.intercalate_singleton]

theorem append (h : ClosesLines b ls) (h' : ClosesLines b' ms) : ClosesLines (b || b') (ls ++ ms) := by
  rw [iff_rows, rows, List.flatMap_append]
  exact (iff_rows.mp h).append (iff_rows.mp h')

theorem flatMap {α : Type} {f : α → List String} {excess : α → Bool} {l : List α}
    (h : ∀ a ∈ l, ClosesLines (excess a) (f a)) : ClosesLines (l.any excess) (l.flatMap f) := by
  induction l with
  | nil => exact nil
  | cons a l ih =>
      rw [List.flatMap_cons, List.any_cons]
      exact (h a List.mem_cons_self).append (ih fun a' ha => h a' (List.mem_cons_of_mem a ha))

theorem map {f : String → String}
    (same : ∀ l u, Alike ((f l).toList ++ '\n' :: u) (l.toList ++ '\n' :: u)) (h : ClosesLines b ls) :
    ClosesLines b (ls.map f) := by
  rw [iff_rows]
  intro o rest
  rw [rows_map same ls rest none o rfl]
  exact iff_rows.mp h o rest

theorem indented (h : ClosesLines b ls) : ClosesLines b (ls.map Printing.indentLine) :=
  h.map Alike.indentLine

theorem lines (h : Closes b s) : ClosesLines b (Text.lines s) := by
  have line := reads_lineFeed ')'
  rw [iff_rows]
  intro o rest
  have whole := Reads.append h line o rest
  rwa [Bool.or_false, List.append_assoc, List.singleton_append, ← rows_lines s rest none o rfl]
    at whole

/-- Lines as a text that starts with a break. -/
theorem inner (h : ClosesLines b ls) : Closes b (String.ofList ('\n' :: rows ls)) := by
  have line := reads_lineFeed ')'
  rw [Closes, String.toList_ofList]
  have whole := line.append (iff_rows.mp h)
  rwa [Bool.false_or] at whole

theorem ofText (h : Closes b s) (same : s.toList ++ ['\n'] = rows ls) : ClosesLines b ls := by
  have line := reads_lineFeed ')'
  have whole := Reads.append h line
  rwa [Bool.or_false, same, ← iff_rows] at whole

/-- Lines between two that frame them. -/
theorem framed {first last : String} (frame : Frames first last) (h : ClosesLines b ls) :
    ClosesLines b ([first] ++ ls ++ [last]) :=
  ofText (frame b _ h.inner) (by simp [rows])

theorem wrapped {before after : String} (frame : Frames before after) (h : ClosesLines b ls) :
    ClosesLines b (Printing.wrap before after ls) := by
  have first (l : String) (ls : List String) :
      unlines ((before ++ l) :: ls) = before ++ unlines (l :: ls) := by
    cases ls <;> simp [unlines, String.intercalate_cons_cons, String.append_assoc]
  have last (ls : List String) (l : String) :
      unlines (ls ++ [l ++ after]) = unlines (ls ++ [l]) ++ after := by
    induction ls with
    | nil => simp [unlines, String.intercalate_singleton]
    | cons k ls ih =>
        unfold unlines at ih ⊢
        rw [List.cons_append, List.cons_append, String.intercalate_cons_of_ne_nil (by simp),
          String.intercalate_cons_of_ne_nil (by simp), ih, String.append_assoc,
          String.append_assoc, String.append_assoc]
  unfold Printing.wrap
  split
  · exact h
  · exact single.mpr (frame b _ (single.mp h))
  · rename_i l rest more
    obtain ⟨init, k, rfl⟩ : ∃ init k, rest = init ++ [k] :=
      ⟨_, _, (List.dropLast_concat_getLast more).symm⟩
    have whole := frame b _ h
    rw [ClosesLines, first, List.getLast?_concat, List.dropLast_concat, Option.getD_some,
      ← List.cons_append, last, List.cons_append, ← String.append_assoc]
    exact whole

end ClosesLines

/-! ### What is asked of a tree -/

/-- A name without quotes and brackets. -/
def isMarkless (s : String) : Bool :=
  s.toList.all fun c => !(isQuote c || isOpener c || isCloser c)

/-- A text without quotes, backslashes and round or square brackets; braces may stand in it. -/
def isProse (s : String) : Bool :=
  s.toList.all fun c => !(isQuote c || c == '\\' || ['(', ')', '[', ']'].contains c)

/-- The name of the property has no marks, and its value is balanced code or prose. -/
def MarkupAttr.Sound (a : MarkupAttr) : Prop :=
  isMarkless a.name = true ∧
    ∀ v ∈ a.value, if a.expression || a.spread then findUnbalanced v = none else isProse v = true

instance (a : MarkupAttr) : Decidable a.Sound :=
  inferInstanceAs (Decidable (_ ∧ ∀ v ∈ a.value, _))

/-- All code in the tree is balanced, its texts are prose, and its names have no marks. -/
inductive Markup.Sound : Markup → Prop
  | element {tag : String} {attrs : List MarkupAttr} {children : List Markup}
      (name : isMarkless tag = true) (props : ∀ a ∈ attrs, a.Sound)
      (nodes : ∀ child ∈ children, Sound child) : Sound (.element tag attrs children)
  | text {t : String} (prose : isProse t = true) : Sound (.text t)
  | expression {code : String} (balanced : findUnbalanced code = none) : Sound (.expression code)
  | fragment {children : List Markup} {key : Option String}
      (balanced : ∀ k ∈ key, findUnbalanced k = none) (nodes : ∀ child ∈ children, Sound child) :
      Sound (.fragment children key)
  | conditional {condition : String} {shown : Markup} {otherwise : Option Markup}
      (balanced : findUnbalanced condition = none) (first : Sound shown)
      (second : ∀ m ∈ otherwise, Sound m) : Sound (.conditional condition shown otherwise)
  | loop {iterable item index : String} {body : Markup} (balanced : findUnbalanced iterable = none)
      (item_name : isMarkless item = true) (index_name : isMarkless index = true)
      (node : Sound body) : Sound (.loop iterable item index body)
  | renderProp {component : String} {attrs : List MarkupAttr} {params : List String} {body : Markup}
      (name : isMarkless component = true) (props : ∀ a ∈ attrs, a.Sound)
      (names : ∀ p ∈ params, isMarkless p = true) (node : Sound body) :
      Sound (.renderProp component attrs params body)

theorem closes_of_isMarkless (h : isMarkless s = true) : Closes false s := by
  refine Reads.name fun c hc => ?_
  simpa [isMarkless, and_assoc] using List.all_eq_true.mp h c hc

theorem prose_mem (h : isProse s = true) {c : Char} (hc : c ∈ s.toList) :
    isQuote c = false ∧ c ≠ '\\' ∧ c ∉ ['(', ')', '[', ']'] := by
  simpa [isProse, and_assoc] using List.all_eq_true.mp h c hc

namespace Printing

/-! ### Prose and properties -/

theorem replaceAll_absent {old new s : String} {mark : Char} (single : old.toList = [mark])
    (h : mark ∉ s.toList) : replaceAll old new s = s := by
  have within (cs new : List Char) (fuel : Nat) (h : mark ∉ cs) :
      replaceWithin [mark] new fuel cs = cs := by
    induction cs generalizing fuel with
    | nil => cases fuel <;> rfl
    | cons c cs ih =>
        cases fuel with
        | zero => rfl
        | succ fuel =>
            have other : (c == mark) = false := by
              rw [beq_eq_false_iff_ne]
              rintro rfl
              exact h List.mem_cons_self
            simp only [replaceWithin, dropLead?, other]
            rw [ih fuel fun hc => h (List.mem_cons_of_mem c hc)]
            rfl
  rw [replaceAll, single, replaceChars, within _ _ _ h, String.ofList_toList]

theorem mem_collapseChars {c : Char} {cs : List Char} (h : c ∈ collapseChars cs) :
    c = ' ' ∨ c ∈ cs := by
  fun_induction collapseChars cs with
  | case1 => cases h
  | case2 d => grind
  | case3 d e cs _ _ ih => grind
  | case4 d e cs _ _ ih => grind
  | case5 d e cs _ ih => grind

theorem collapse_prose (h : isProse t = true) : isProse (collapse t) = true := by
  refine List.all_eq_true.mpr fun c hc => ?_
  rw [collapse, String.toList_ofList] at hc
  rcases mem_collapseChars hc with rfl | mem
  · decide
  · exact List.all_eq_true.mp h c mem

theorem trim_prose (h : isProse t = true) : isProse (trim t) = true := by
  refine List.all_eq_true.mpr fun c hc => List.all_eq_true.mp h c ?_
  simp only [trim, stripWith, dropTrailing, String.toList_ofList, List.mem_reverse] at hc
  have inner := List.mem_reverse.mp ((List.dropWhile_sublist _).subset hc)
  exact (List.dropWhile_sublist _).subset inner

/-- Prose between quotes. -/
theorem quoted_closes {quote : String} {q : Char} (single : quote.toList = [q])
    (is : isQuote q = true) (h : isProse t = true) : Closes false (quote ++ t ++ quote) := by
  rw [Closes, String.toList_append, String.toList_append, single, List.append_assoc]
  refine Reads.quoted is fun c hc => ⟨?_, (prose_mem h hc).2.1⟩
  rintro rfl
  rw [(prose_mem h hc).1] at is
  cases is

theorem quoteText_closes (h : isProse t = true) : Closes false (quoteText t) := by
  have backslash : '\\' ∉ t.toList := fun mem => (prose_mem h mem).2.1 rfl
  have quote : '\'' ∉ t.toList := fun mem => by simpa [isQuote] using (prose_mem h mem).1
  rw [quoteText, replaceAll_absent rfl backslash, replaceAll_absent rfl quote]
  exact quoted_closes rfl rfl h

theorem escapeText_closes (h : isProse t = true) : Closes false (escapeText t) := by
  rw [Closes, escapeText, String.toList_ofList]
  have each (c : Char) (hc : c ∈ t.toList) : Reads ')' false (escapeChar c) := by
    obtain ⟨quote, _, brackets⟩ := prose_mem h hc
    unfold escapeChar
    split
    · rename_i brace
      rcases Bool.or_eq_true_iff.mp brace with is | is <;> rw [eq_of_beq is]
      · exact findUnbalanced_iff (s := "\x7b'\x7b'\x7d").mp rfl
      · exact findUnbalanced_iff (s := "\x7b'\x7d'\x7d").mp rfl
    · split
      · exact findUnbalanced_iff.mp rfl
      · split
        · exact findUnbalanced_iff.mp rfl
        · refine Reads.name fun d hd => ?_
          rw [List.mem_singleton.mp hd]
          simp_all [isOpener, isCloser]
          fun_cases closer? c <;> simp_all
  have whole := Reads.flatMap each
  rwa [List.any_eq_false.mpr (by simp)] at whole

theorem attrText_closes {a : MarkupAttr} (h : a.Sound) : Closes false (attrText a) := by
  obtain ⟨name, value⟩ := h
  have named := closes_of_isMarkless name
  unfold attrText
  split
  · rename_i spread
    refine Frames.braces false _ (Closes.append (b := false) (Closes.literal _ rfl) ?_)
    split
    · cases given : a.value with
      | none => exact Closes.literal _ rfl
      | some v => exact Closes.literal _ (by simpa [spread, given] using value v given)
    · exact named
  · rename_i plain
    split
    · exact named
    · rename_i v given
      have known := value v given
      split
      · rename_i code
        rw [code, Bool.true_or, if_pos rfl] at known
        exact (named.append (Closes.literal _ rfl)).append
          (Frames.braces false v (closes_iff.mpr known))
      · rename_i text
        have prose : isProse v = true := by simpa [text, plain] using known
        have absent : '"' ∉ v.toList := fun mem => by simpa [isQuote] using (prose_mem prose mem).1
        have parts : a.name ++ "=\"" ++ v ++ "\"" = a.name ++ "=" ++ ("\"" ++ v ++ "\"") := by
          simp [← String.toList_inj]
        rw [replaceAll_absent rfl absent, parts]
        exact (named.append (Closes.literal _ rfl)).append (quoted_closes rfl rfl prose)

/-- A start tag, of which only the properties in `more` may close too much. -/
theorem openTag_closes {tag close : String} {attrs : List String} (more : List String)
    (name : isMarkless tag = true) (h : ∀ a ∈ attrs, Closes false a) (hm : ∀ a ∈ more, Closes b a)
    (closes : Closes false close) :
    ClosesLines (more.any fun _ => b) (openTag tag (attrs ++ more) close) := by
  have start : Closes false ("<" ++ tag) :=
    Closes.append (b := false) (Closes.literal _ rfl) (closes_of_isMarkless name)
  have none : (attrs.any fun _ => false) = false := List.any_eq_false.mpr (by simp)
  unfold openTag
  extract_lets single
  split
  · have spaced {b : Bool} {l : List String} (h : ∀ a ∈ l, Closes b a) :
        Closes (l.any fun _ => b) (String.join (l.map (" " ++ ·))) := by
      rw [Closes, String.toList_join, List.flatMap_map]
      exact Reads.flatMap fun a ha => Closes.append (b := false) (Closes.literal _ rfl) (h a ha)
    have props := (spaced h).append (spaced hm)
    rw [← String.join_append, ← List.map_append, none] at props
    have whole := (start.append props).append closes
    rw [Bool.or_false, Bool.false_or, Bool.false_or] at whole
    exact ClosesLines.single.mpr whole
  · have rest {b : Bool} {l : List String} (h : ∀ a ∈ l, Closes b a) :=
      ClosesLines.flatMap fun a ha => ClosesLines.lines (h a ha).indent
    have whole := ((ClosesLines.single.mpr start).append ((rest h).append (rest hm))).append
      (ClosesLines.single.mpr closes.trim)
    simpa [none] using whole

/-! ### Children -/

theorem inlineText_closes {m : Markup} (h : m.Sound) : Closes false (inlineText m) := by
  cases h with
  | text prose => exact escapeText_closes (collapse_prose prose)
  | expression balanced => exact Frames.braces false _ (closes_iff.mpr balanced)
  | _ => exact Closes.literal _ rfl

theorem runLine_closes {run : List Markup} (h : ∀ m ∈ run, m.Sound) (before after : Bool) :
    ClosesLines false (runLine before after run) := by
  have space (b : Bool) : Closes false (if b then keptSpace else "") := by
    cases b <;> exact Closes.literal _ rfl
  have text : Closes false (trim (String.join (run.map inlineText))) := by
    refine Closes.trim ?_
    rw [Closes, String.toList_join, List.flatMap_map]
    have whole := Reads.flatMap fun m hm => inlineText_closes (h m hm)
    rwa [List.any_eq_false.mpr (by simp)] at whole
  unfold runLine
  extract_lets joined source stripped lead tail
  split
  · exact .nil
  · split
    · split
      · exact ClosesLines.single.mpr (space true)
      · exact .nil
    · exact ClosesLines.single.mpr (((space lead).append text).append (space tail))

/-- The walk over the children: a run is closed before the block that ends it. -/
theorem childLines_closes {excess : Markup → Bool} {children : List Child}
    (h : ∀ child ∈ children, child.1.Sound ∧
      if child.1.isInline then excess child.1 = false else ClosesLines (excess child.1) child.2) :
    ∀ (before : Bool) (run : List Markup), (∀ m ∈ run, m.Sound) →
      ClosesLines (children.any fun child => excess child.1) (childLines before run children) := by
  induction children with
  | nil =>
      intro before run sound
      exact runLine_closes (fun m hm => sound m (List.mem_reverse.mp hm)) before false
  | cons child children ih =>
      intro before run sound
      obtain ⟨here, known⟩ := h child List.mem_cons_self
      have rest := ih fun c hc => h c (List.mem_cons_of_mem child hc)
      rw [List.any_cons]
      unfold childLines
      split
      · rename_i inline
        rw [if_pos inline] at known
        rw [known]
        refine rest before _ fun m hm => ?_
        rcases List.mem_cons.mp hm with rfl | old
        · exact here
        · exact sound m old
      · rename_i block
        rw [if_neg block] at known
        have line := runLine_closes (fun m hm => sound m (List.mem_reverse.mp hm)) before true
        exact (line.append known).append (rest true [] (by simp))

theorem enclose_closes {opening children : List String} {closing : String}
    (opens : ClosesLines false opening) (closes : Closes false closing)
    (inner : ClosesLines b children) (inline : Bool) :
    ClosesLines b (enclose opening closing children inline) := by
  have several : ClosesLines b (opening ++ children.map indentLine ++ [closing]) := by
    have whole := (opens.append inner.indented).append (ClosesLines.single.mpr closes)
    rwa [Bool.false_or, Bool.or_false] at whole
  unfold enclose
  split
  · extract_lets single
    split
    · have frame := Frames.ofCloses (ClosesLines.single.mp opens) closes
      exact ClosesLines.single.mpr (frame b _ (ClosesLines.single.mp inner))
    · exact several
  · exact several

/-! ### Conditions, loops and bodies that are passed on -/

theorem conditionalLines_closes {condition : String} {shown otherwise : List String}
    (test : Closes false condition) (first : ClosesLines b shown)
    (second : ClosesLines b' otherwise) :
    ClosesLines (b || b') (conditionalLines condition shown otherwise) := by
  unfold conditionalLines
  extract_lets condition' long
  have test' : Closes false condition' := by
    unfold condition'
    split
    · exact Frames.parens false _ test
    · exact test
  have opens : Frames (condition' ++ " ? (") ")" := by
    have frame := Frames.parens.behind (test'.append (Closes.literal " ? " rfl))
    simpa [String.append_assoc] using frame
  have several : ClosesLines (b || b') long := by
    have head := opens b _ first.indented.inner
    unfold long
    split
    · rename_i line
      have tail := (Closes.literal " : " rfl).append (ClosesLines.single.mp second)
      exact ClosesLines.ofText (head.append tail) (by simp [rows])
    · have tail := (Frames.parens.behind (Closes.literal " : " rfl)) b' _ second.indented.inner
      exact ClosesLines.ofText (head.append tail) (by simp [rows])
  split
  · rename_i line line'
    extract_lets single
    split
    · have head := (test'.append (Closes.literal " ? " rfl)).append (ClosesLines.single.mp first)
      have tail := (Closes.literal " : " rfl).append (ClosesLines.single.mp second)
      have whole := head.append tail
      rw [← String.append_assoc] at whole
      exact ClosesLines.single.mpr whole
    · exact several
  · exact several

theorem loopLines_closes {iterable item index : String} {body : List String}
    (list : Closes false iterable) (item_name : isMarkless item = true)
    (index_name : isMarkless index = true) (inner : ClosesLines b body) :
    ClosesLines b (loopLines iterable item index body) := by
  unfold loopLines
  extract_lets used params source head long
  have names : Closes false params := by
    have item := closes_of_isMarkless item_name
    have index := closes_of_isMarkless index_name
    unfold params
    split
    · have both := (item.append (Closes.literal ", " rfl)).append index
      have whole := Frames.parens false _ both
      simpa only [String.append_assoc] using whole
    · exact Frames.parens false _ item
  have source_closes : Closes false source := by
    unfold source
    split
    · exact list
    · exact Frames.parens false _ list
  have call : Frames head ")" := by
    have frame := (Frames.parens.behind (source_closes.append (Closes.literal "?.map" rfl))).before
      (names.append (Closes.literal " => " rfl))
    simpa [head, String.append_assoc] using frame
  have both : Frames (head ++ "(") "))" := by
    have frame := call.comp Frames.parens
    simpa using frame
  have several : ClosesLines b long := ClosesLines.framed both inner.indented
  split
  · split
    · exact ClosesLines.single.mpr (call b _ (ClosesLines.single.mp inner))
    · exact several
  · exact several

/-- A body of several lines is followed by one round bracket too many. -/
theorem renderAttr_closes {params body : List String} (names : ∀ p ∈ params, isMarkless p = true)
    (inner : ClosesLines b body) :
    Closes (body.length != 1 || b) (renderAttr params body) := by
  have list : Closes false (", ".intercalate params) :=
    Closes.intercalate (Closes.literal _ rfl) fun p hp => closes_of_isMarkless (names p hp)
  have call : Closes false ("(" ++ ", ".intercalate params ++ ")" ++ " => ") :=
    (Frames.parens false _ list).append (Closes.literal _ rfl)
  unfold renderAttr
  extract_lets head
  have parts : head = "render=" ++ "\x7b" ++ ("(" ++ ", ".intercalate params ++ ")" ++ " => ") := by
    simp [head, ← String.toList_inj]
  split
  · have frame := (Frames.braces.behind (Closes.literal "render=" rfl)).before call
    rw [← parts] at frame
    exact frame b _ (ClosesLines.single.mp inner)
  · rename_i several
    have tall : (body.length != 1) = true := by
      rw [bne_iff_ne]
      intro one
      obtain ⟨line, rfl⟩ := List.length_eq_one_iff.mp one
      exact several line rfl
    have lines := (ClosesLines.map (f := indent) (Alike.indentBy 1) inner).inner
    have value := call.append (Frames.parens b _ lines)
    have excess := ((Closes.literal "render=" rfl).append (Frames.overclosed value)).followed
      "\x7d"
    rw [tall, Bool.true_or]
    refine ClosesLines.ofText excess ?_
    simp [parts, rows]

end Printing

/-! ### Whole trees -/

mutual

/-- Whether a body that is passed on as a property takes several lines. -/
def Markup.hasTallBody : Markup → Bool
  | .element _ _ children => anyTallBody children
  | .fragment children _ => anyTallBody children
  | .conditional _ shown otherwise => hasTallBody shown || optionTallBody otherwise
  | .loop _ _ _ body => hasTallBody body
  | .renderProp _ _ _ body => (Printing.render body).length != 1 || hasTallBody body
  | .text _ => false
  | .expression _ => false
  | .remark _ => false

def Markup.anyTallBody : List Markup → Bool
  | [] => false
  | m :: ms => hasTallBody m || anyTallBody ms

def Markup.optionTallBody : Option Markup → Bool
  | none => false
  | some m => hasTallBody m

end

namespace Printing

theorem anyTallBody_eq (children : List Markup) :
    Markup.anyTallBody children = children.any Markup.hasTallBody := by
  induction children with
  | nil => rw [Markup.anyTallBody, List.any_nil]
  | cons m ms ih => rw [Markup.anyTallBody, ih, List.any_cons]

theorem renderChildren_eq (children : List Markup) :
    renderChildren children = children.map fun m => (m, blockLines m (render m)) := by
  induction children with
  | nil => rw [renderChildren, List.map_nil]
  | cons m ms ih => rw [renderChildren, ih, List.map_cons]

theorem blockLines_closes {m : Markup} (h : m.Sound) {rendered : List String}
    (inner : ClosesLines b rendered) : ClosesLines b (blockLines m rendered) := by
  cases h with
  | element => exact inner
  | fragment => exact inner
  | renderProp => exact inner
  | _ => exact inner.wrapped Frames.braces

theorem branchLines_closes (m : Markup) {rendered : List String} (inner : ClosesLines b rendered) :
    ClosesLines b (branchLines m rendered) := by
  unfold branchLines
  split
  · exact inner.wrapped Frames.parens
  · exact inner

theorem children_closes {children : List Markup} (sound : ∀ m ∈ children, m.Sound)
    (h : ∀ m ∈ children, ClosesLines m.hasTallBody (render m)) :
    ClosesLines (Markup.anyTallBody children) (childLines false [] (renderChildren children)) := by
  have known : ∀ child ∈ renderChildren children, child.1.Sound ∧
      if child.1.isInline then child.1.hasTallBody = false
      else ClosesLines child.1.hasTallBody child.2 := by
    rw [renderChildren_eq]
    intro child hc
    obtain ⟨m, hm, rfl⟩ := List.mem_map.mp hc
    refine ⟨sound m hm, ?_⟩
    split
    · rename_i inline
      cases m with
      | text t => rw [Markup.hasTallBody]
      | expression code => rw [Markup.hasTallBody]
      | _ => cases inline
    · exact blockLines_closes (sound m hm) (h m hm)
  have lines := childLines_closes known false [] (by simp)
  rw [renderChildren_eq, List.any_map] at lines
  rw [renderChildren_eq, anyTallBody_eq]
  exact lines

theorem attrs_closes {attrs : List MarkupAttr} (h : ∀ a ∈ attrs, a.Sound) :
    ∀ text ∈ attrs.map attrText, Closes false text := by
  intro text mem
  obtain ⟨a, ha, rfl⟩ := List.mem_map.mp mem
  exact attrText_closes (h a ha)

/-- The lines of a sound tree close what they open, but for the bodies of several lines that are
passed on as properties. -/
theorem render_closes {m : Markup} (h : m.Sound) : ClosesLines m.hasTallBody (render m) := by
  induction h with
  | @element tag attrs children name props nodes ih =>
      have opening {close : String} (closes : Closes false close) :
          ClosesLines false (openTag tag (attrs.map attrText) close) := by
        have lines := openTag_closes (b := false) [] name (attrs_closes props) (by simp) closes
        rwa [List.append_nil] at lines
      have closing : Closes false ("</" ++ tag ++ ">") :=
        Frames.ofCloses (Closes.literal _ rfl) (Closes.literal _ rfl) false _
          (closes_of_isMarkless name)
      rw [Markup.hasTallBody]
      cases children with
      | nil =>
          rw [render, Markup.anyTallBody]
          exact opening (Closes.literal _ rfl)
      | cons child children =>
          rw [render]
          exact enclose_closes (opening (Closes.literal _ rfl)) closing (children_closes nodes ih) _
  | text prose =>
      rw [render, Markup.hasTallBody, ClosesLines.single]
      exact quoteText_closes (trim_prose (collapse_prose prose))
  | @expression code balanced =>
      rw [render.eq_def, Markup.hasTallBody]
      dsimp only
      split
      · exact ClosesLines.single.mpr (Closes.literal _ rfl)
      · exact ClosesLines.lines (closes_iff.mpr balanced)
  | @fragment children key balanced nodes ih =>
      rw [Markup.hasTallBody]
      cases key with
      | none =>
          rw [render]
          exact enclose_closes (ClosesLines.single.mpr (Closes.literal _ rfl)) (Closes.literal _ rfl)
            (children_closes nodes ih) _
      | some k =>
          have code := Frames.braces false k (closes_iff.mpr (balanced k rfl))
          have opening := Frames.ofCloses (s := "<Fragment key=") (t := ">") (Closes.literal _ rfl)
            (Closes.literal _ rfl) false _ code
          rw [render]
          exact enclose_closes (ClosesLines.single.mpr opening) (Closes.literal _ rfl)
            (children_closes nodes ih) _
  | @conditional condition shown otherwise balanced first second ihFirst ihSecond =>
      have other : ClosesLines (Markup.optionTallBody otherwise) (renderOtherwise otherwise) := by
        cases otherwise with
        | none =>
            rw [renderOtherwise, Markup.optionTallBody]
            exact ClosesLines.single.mpr (Closes.literal _ rfl)
        | some m =>
            rw [renderOtherwise, Markup.optionTallBody]
            exact branchLines_closes m (ihSecond m rfl)
      rw [render, Markup.hasTallBody]
      exact conditionalLines_closes (closes_iff.mpr balanced) (branchLines_closes shown ihFirst) other
  | @loop iterable item index body balanced item_name index_name node ih =>
      rw [render, Markup.hasTallBody]
      exact loopLines_closes (closes_iff.mpr balanced) item_name index_name ih
  | @renderProp component attrs params body name props names node ih =>
      have lines := openTag_closes [renderAttr params (render body)] name (attrs_closes props)
        (by simpa using renderAttr_closes names ih) (Closes.literal " />" rfl)
      rw [render, Markup.hasTallBody]
      simpa using lines

/-- The brackets and quotes of a printed tree match exactly if no body that is passed on as a property
takes several lines; otherwise a round bracket closes what is not open. -/
theorem findUnbalanced_render {m : Markup} (h : m.Sound) :
    findUnbalanced (unlines (render m)) =
      if m.hasTallBody then some (.unexpected ')') else none :=
  (render_closes h).findUnbalanced

/-- A tree with a node of every kind. -/
def patchwork : Markup :=
  .element "div"
    [{ name := "title", value := some "a \x7b b", expression := false },
     { name := "onClick", value := some "() => go(\x7b id: [1] \x7d, ')')" },
     { name := "rest", spread := true }]
    [.text "Total \x7bsum\x7d:", .expression "format(total, '(')",
     .fragment
       [.conditional "a &&\nb" (.text "yes")
         (some (.loop "rows[0]" "row" "index"
           (.renderProp "Guard" [] ["value"] (.expression "value(row)"))))]
       (some "row.id")]

theorem findUnbalanced_render_patchwork :
    patchwork.Sound ∧ patchwork.hasTallBody = false ∧
      findUnbalanced (unlines (render patchwork)) = none := by
  have sound : patchwork.Sound := by
    refine .element (by decide) (by decide) ?_
    simp only [List.forall_mem_cons]
    refine ⟨.text (by decide), .expression (by decide), .fragment (by decide) ?_, by simp⟩
    simp only [List.forall_mem_cons]
    refine ⟨.conditional (by decide) (.text (by decide)) ?_, by simp⟩
    rintro m ⟨⟩
    refine .loop (by decide) (by decide) (by decide) ?_
    exact .renderProp (by decide) (by decide) (by decide) (.expression (by decide))
  have flat : patchwork.hasTallBody = false := by decide +kernel
  refine ⟨sound, flat, ?_⟩
  rw [findUnbalanced_render sound, flat]
  rfl

/-- A body of several lines, passed on as a property. -/
def tallGuard : Markup :=
  .renderProp "Guard" [] [] (.element "div" [] [.element "p" [] []])

theorem findUnbalanced_render_tallGuard :
    tallGuard.Sound ∧ findUnbalanced (unlines (render tallGuard)) = some (.unexpected ')') := by
  refine ⟨?_, by decide +kernel⟩
  refine .renderProp (by decide) (by simp) (by simp) (.element (by decide) (by simp) ?_)
  intro child mem
  rw [List.mem_singleton.mp mem]
  exact .element (by decide) (by simp) (by simp)

end Printing

end ReactMigration
