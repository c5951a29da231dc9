import Mathlib.Data.Bool.AllAny
import ReactMigration.Printing.Declarations

/-!
How brackets and quotes are matched in texts that are put together from parts and laid out in lines.

A balanced text is read over wherever it stands outside quotes.  Breaking a text into lines, joining
lines and indenting them changes nothing for the matching, not even inside a quoted text.
-/

namespace ReactMigration.Script

open ReactMigration.Text

/-- A character that neither delimits, nests nor hides anything. -/
def isPlain (c : Char) : Bool :=
  !(isQuote c || isOpener c || isCloser c || c == '\\')

variable {c d q : Char} {o cs u v w x y : List Char}

/-! ### One character -/

attribute [local grind =] imbalance?

theorem imbalance?_hidden : imbalance? (some q) o ('\\' :: c :: cs) = imbalance? (some q) o cs := by
  rw [imbalance?]

theorem imbalance?_inside (h : c ≠ '\\') :
    imbalance? (some q) o (c :: cs) = imbalance? (if c == q then none else some q) o cs := by
  rw [imbalance?]
  · intro hides
    exact absurd hides h
  · intro _ _ hides
    exact absurd hides h

theorem imbalance?_outside (o : List Char) (c : Char) (cs : List Char) :
    imbalance? none o (c :: cs) =
      if isQuote c then imbalance? (some c) o cs
      else
        match closer? c with
        | some close => imbalance? none (close :: o) cs
        | none =>
            if isCloser c then
              match o with
              | top :: below => if top == c then imbalance? none below cs else some (.unexpected c)
              | [] => some (.unexpected c)
            else imbalance? none o cs := by
  cases o with
  | nil => exact imbalance?.eq_def none [] (c :: cs)
  | cons top below => exact imbalance?.eq_def none (top :: below) (c :: cs)

theorem isPlain_iff :
    isPlain c = true ↔ isQuote c = false ∧ closer? c = none ∧ isCloser c = false ∧ c ≠ '\\' := by
  simp [isPlain, isOpener, and_assoc]

theorem ne_backslash (last : c = '\\' → cs = [] → False)
    (hides : ∀ d ds, c = '\\' → cs = d :: ds → False) : c ≠ '\\' := by
  rintro rfl
  cases cs with
  | nil => exact last rfl rfl
  | cons d ds => exact hides d ds rfl rfl

/-- Outside quotes even a backslash is read over. -/
theorem imbalance?_skip (quote : isQuote c = false) (opener : closer? c = none)
    (closer : isCloser c = false) : imbalance? none o (c :: cs) = imbalance? none o cs := by
  simp [imbalance?_outside, quote, opener, closer]

theorem imbalance?_backslash : imbalance? none o ('\\' :: cs) = imbalance? none o cs :=
  imbalance?_skip (by decide) (by decide) (by decide)

/-! ### Texts with the same matching -/

/-- Two texts match alike, outside quotes and inside. -/
def Alike (u v : List Char) : Prop :=
  ∀ q o, q.all isQuote = true → imbalance? q o u = imbalance? q o v

namespace Alike

theorem refl (u : List Char) : Alike u u :=
  fun _ _ _ => rfl

theorem symm (h : Alike u v) : Alike v u :=
  fun q o hq => (h q o hq).symm

theorem trans (h : Alike u v) (h' : Alike v w) : Alike u w :=
  fun q o hq => (h q o hq).trans (h' q o hq)

theorem plain (h : isPlain c = true) (u : List Char) : Alike (c :: u) u := by
  obtain ⟨quote, opener, closer, hides⟩ := isPlain_iff.mp h
  intro q o hq
  cases q with
  | none => exact imbalance?_skip quote opener closer
  | some q =>
      have differs : (c == q) = false := by
        rw [beq_eq_false_iff_ne]
        rintro rfl
        simp [quote] at hq
      rw [imbalance?_inside hides, differs]
      rfl

theorem plains (h : ∀ c ∈ x, isPlain c = true) (u : List Char) : Alike (x ++ u) u := by
  induction x with
  | nil => exact .refl u
  | cons c x ih =>
      have rest := ih fun d hd => h d (List.mem_cons_of_mem c hd)
      exact (Alike.plain (h c List.mem_cons_self) _).trans rest

/-- Texts that match alike do so behind any text, if they also do behind a backslash in a quoted
text. -/
theorem behind (h : Alike u v)
    (hidden : ∀ q o, q.all isQuote = true →
      imbalance? q o ('\\' :: u) = imbalance? q o ('\\' :: v)) :
    ∀ w, Alike (w ++ u) (w ++ v)
  | [] => h
  | x :: w => by
      -- only a backslash inside quotes looks ahead, and at the end of `w` it meets `u` or `v`
      have next := behind h hidden w
      intro q o hq
      simp only [List.cons_append]
      cases q with
      | none =>
          simp only [imbalance?_outside]
          split
          · rename_i quote
            exact next (some x) o (by simpa using quote)
          · split
            · exact next none _ rfl
            · split
              · split
                · split
                  · exact next none _ rfl
                  · rfl
                · rfl
              · exact next none o rfl
      | some q =>
          by_cases hides : x = '\\'
          · subst hides
            cases w with
            | nil => exact hidden (some q) o hq
            | cons y w =>
                simp only [List.cons_append, imbalance?_hidden]
                exact behind h hidden w (some q) o hq
          · rw [imbalance?_inside hides, imbalance?_inside hides]
            refine next _ o ?_
            split
            · rfl
            · exact hq

/-- A plain character ends whatever a backslash before it may hide, so what follows may be
exchanged. -/
theorem after (hc : isPlain c = true) (hd : isPlain d = true) (h : Alike u v) (w : List Char) :
    Alike (w ++ c :: u) (w ++ d :: v) := by
  refine behind ((plain hc u).trans (h.trans (plain hd v).symm)) ?_ w
  intro q o hq
  cases q with
  | none =>
      rw [imbalance?_backslash, imbalance?_backslash]
      exact (plain hc u).trans (h.trans (plain hd v).symm) none o rfl
  | some q =>
      rw [imbalance?_hidden, imbalance?_hidden]
      exact h (some q) o hq

theorem last (hc : isPlain c = true) (w : List Char) : Alike (w ++ [c]) w := by
  have whole : Alike (w ++ [c]) (w ++ []) := by
    refine behind (plain hc []) ?_ w
    intro q o hq
    cases q with
    | none =>
        rw [imbalance?_backslash, imbalance?_backslash]
        exact plain hc [] none o rfl
    | some q => rw [imbalance?_hidden, imbalance?.eq_4]
  rwa [List.append_nil] at whole

theorem lasts (h : ∀ c ∈ x, isPlain c = true) (w : List Char) : Alike (w ++ x) w := by
  induction x generalizing w with
  | nil => simpa using Alike.refl w
  | cons c x ih =>
      have rest := ih (fun d hd => h d (List.mem_cons_of_mem c hd)) (w ++ [c])
      rw [List.append_assoc, List.singleton_append] at rest
      exact rest.trans (last (h c List.mem_cons_self) w)

end Alike

/-! ### What a text comes to outside quotes -/

/-- Outside quotes the text is read over, or it holds the bracket `c` where nothing awaits it. -/
def Reads (c : Char) (unexpected : Bool) (x : List Char) : Prop :=
  ∀ o rest, imbalance? none o (x ++ rest) =
    if unexpected then some (.unexpected c) else imbalance? none o rest

theorem imbalance?_append {q : Option Char} (h : imbalance? q o x = none) (below rest : List Char) :
    imbalance? q (o ++ below) (x ++ rest) = imbalance? none below rest := by
  fun_induction imbalance? q o x with
  | case1 => cases h
  | case2 => rfl
  | case3 => cases h
  | case4 q o ih => simp [imbalance?] at h
  | case5 q o c cs ih =>
      simp only [List.cons_append, imbalance?_hidden]
      exact ih h
  | case6 q o c cs last hides ih =>
      rw [List.cons_append, imbalance?_inside (ne_backslash last hides)]
      exact ih h
  | case7 o c cs quote ih =>
      rw [List.cons_append, imbalance?_outside, if_pos quote]
      exact ih h
  | case8 o c cs quote close opener ih =>
      rw [List.cons_append, imbalance?_outside, if_neg quote, opener]
      exact ih h
  | case9 c cs quote opener closer top below' same ih =>
      rw [List.cons_append, List.cons_append, imbalance?_outside, if_neg quote, opener]
      simp only [closer, same, if_true]
      exact ih h
  | case10 => cases h
  | case11 => cases h
  | case12 o c cs quote opener closer ih =>
      rw [List.cons_append, imbalance?_outside, if_neg quote, opener]
      simp only [closer]
      exact ih h

/-- A bracket that nothing awaits is found whatever follows. -/
theorem imbalance?_unexpected {q : Option Char} (h : imbalance? q o x = some (.unexpected d))
    (rest : List Char) : imbalance? q o (x ++ rest) = some (.unexpected d) := by
  fun_induction imbalance? q o x with
  | case1 => cases h
  | case2 => cases h
  | case3 => cases h
  | case4 q o ih => simp [imbalance?] at h
  | case5 q o c cs ih =>
      simp only [List.cons_append, imbalance?_hidden]
      exact ih h
  | case6 q o c cs last hides ih =>
      rw [List.cons_append, imbalance?_inside (ne_backslash last hides)]
      exact ih h
  | case7 o c cs quote ih =>
      rw [List.cons_append, imbalance?_outside, if_pos quote]
      exact ih h
  | case8 o c cs quote close opener ih =>
      rw [List.cons_append, imbalance?_outside, if_neg quote, opener]
      exact ih h
  | case9 c cs quote opener closer top below same ih =>
      rw [List.cons_append, imbalance?_outside, if_neg quote, opener]
      simp only [closer, same, if_true]
      exact ih h
  | case10 c cs quote opener closer top below other =>
      rw [List.cons_append, imbalance?_outside, if_neg quote, opener]
      simpa [closer, other] using h
  | case11 c cs quote opener closer =>
      rw [List.cons_append, imbalance?_outside, if_neg quote, opener]
      simpa [closer] using h
  | case12 o c cs quote opener closer ih =>
      rw [List.cons_append, imbalance?_outside, if_neg quote, opener]
      simp only [closer]
      exact ih h

theorem findUnbalanced_iff {s : String} : findUnbalanced s = none ↔ Reads c false s.toList := by
  constructor
  · intro h o rest
    exact imbalance?_append h o rest
  · intro h
    have whole := h [] []
    rw [List.append_nil] at whole
    exact whole.trans (by rw [imbalance?]; rfl)

namespace Reads

variable {b b' : Bool}

theorem findUnbalanced {s : String} (h : Reads c b s.toList) :
    findUnbalanced s = if b then some (.unexpected c) else none := by
  have whole := h [] []
  rwa [List.append_nil, imbalance?.eq_2] at whole

theorem nil : Reads c false [] :=
  fun _ _ => rfl

theorem append (hx : Reads c b x) (hy : Reads c b' y) : Reads c (b || b') (x ++ y) := by
  intro o rest
  rw [List.append_assoc, hx, hy]
  cases b <;> rfl

theorem flatMap {α : Type} {f : α → List Char} {stops : α → Bool} {l : List α}
    (h : ∀ a ∈ l, Reads c (stops a) (f a)) : Reads c (l.any stops) (l.flatMap f) := by
  induction l with
  | nil => exact nil
  | cons a l ih =>
      rw [List.flatMap_cons, List.any_cons]
      exact (h a List.mem_cons_self).append (ih fun a' ha => h a' (List.mem_cons_of_mem a ha))

/-- Names hold neither quotes nor brackets. -/
theorem name (h : ∀ d ∈ x, isQuote d = false ∧ isOpener d = false ∧ isCloser d = false) :
    Reads c false x := by
  induction x with
  | nil => exact nil
  | cons d x ih =>
      intro o rest
      obtain ⟨quote, opener, closer⟩ := h d List.mem_cons_self
      rw [List.cons_append, imbalance?_skip quote (by simpa [isOpener] using opener) closer]
      exact ih (fun e he => h e (List.mem_cons_of_mem d he)) o rest

theorem not_isQuote_of_closer? {opening closing : Char} (opener : closer? opening = some closing) :
    isQuote opening = false := by
  revert opener
  fun_cases closer? opening <;> simp_all [isQuote]

theorem bracketed {opening closing : Char} (opener : closer? opening = some closing)
    (h : Reads c b x) : Reads c b (opening :: (x ++ [closing])) := by
  have quote := not_isQuote_of_closer? opener
  have closer : closer? closing = none ∧ isCloser closing = true ∧ isQuote closing = false := by
    revert opener
    fun_cases closer? opening <;> rintro ⟨⟩ <;> decide
  obtain ⟨last, closes, plain⟩ := closer
  intro o rest
  rw [List.cons_append, imbalance?_outside, quote, opener]
  simp only [Bool.false_eq_true, if_false, List.append_assoc]
  rw [h, List.singleton_append, imbalance?_outside, plain, last]
  simp [closes]

/-- A bracket of one kind is not closed by one of another. -/
theorem mismatched {opening closing : Char} (opener : closer? opening = some closing)
    (closer : isCloser c = true) (other : c ≠ closing) (h : Reads c b x) :
    Reads c true (opening :: (x ++ [c])) := by
  have quote := not_isQuote_of_closer? opener
  have known : closer? c = none ∧ isQuote c = false := by
    simp only [isCloser, Bool.or_eq_true, beq_iff_eq] at closer
    obtain (rfl | rfl) | rfl := closer <;> decide
  have differs : (closing == c) = false := beq_eq_false_iff_ne.mpr other.symm
  intro o rest
  rw [List.cons_append, imbalance?_outside, quote, opener]
  simp only [Bool.false_eq_true, if_false, List.append_assoc]
  rw [h, List.singleton_append, imbalance?_outside, known.2, known.1]
  simp [closer, differs]

theorem quoted (quote : isQuote q = true) (h : ∀ d ∈ x, d ≠ q ∧ d ≠ '\\') :
    Reads c false (q :: (x ++ [q])) := by
  have inside (o rest : List Char) :
      imbalance? (some q) o (x ++ q :: rest) = imbalance? none o rest := by
    induction x with
    | nil =>
        have hides : q ≠ '\\' := by
          rintro rfl
          revert quote
          decide
        rw [List.nil_append, imbalance?_inside hides]
        simp
    | cons d x ih =>
        obtain ⟨other, hides⟩ := h d List.mem_cons_self
        rw [List.cons_append, imbalance?_inside hides, beq_eq_false_iff_ne.mpr other]
        exact ih fun e he => h e (List.mem_cons_of_mem d he)
  intro o rest
  rw [List.cons_append, imbalance?_outside, if_pos quote, List.append_assoc, List.singleton_append]
  exact inside o rest

/-- Plain characters at the end of a text do not matter. -/
theorem ofLast (plain : isPlain d = true) (h : Reads c b (x ++ [d])) : Reads c b x := by
  have ends (o : List Char) :
      imbalance? none o x = if b then some (.unexpected c) else imbalance? none o [] := by
    have whole := h o []
    rwa [List.append_nil, Alike.last plain x none o rfl] at whole
  cases b with
  | false =>
      intro o rest
      exact imbalance?_append ((ends []).trans imbalance?.eq_2) o rest
  | true =>
      intro o rest
      exact imbalance?_unexpected (ends o) rest

end Reads

/-! ### Lines -/

/-- The characters of lines, each with its line feed. -/
def rows (ls : List String) : List Char :=
  ls.flatMap fun l => l.toList ++ ['\n']

theorem rows_cons (l : String) (ls : List String) (u : List Char) :
    rows (l :: ls) ++ u = l.toList ++ '\n' :: (rows ls ++ u) := by
  simp [rows]

theorem isPlain_lineFeed : isPlain '\n' = true := by
  decide

theorem reads_lineFeed (c : Char) : Reads c false ['\n'] := by
  apply Reads.name
  intro d mem
  rw [List.mem_singleton.mp mem]
  decide

theorem isPlain_of_isBlank (h : isBlank c = true) : isPlain c = true := by
  rw [isPlain_iff]
  have marks : ∀ m ∈ ['\'', '"', '\x60', '(', ')', '[', ']', '\x7b', '\x7d', '\\'],
      isBlank m = false := by
    simp [isBlank]
  have known : c ∉ ['\'', '"', '\x60', '(', ')', '[', ']', '\x7b', '\x7d', '\\'] := by
    intro mem
    rw [marks c mem] at h
    cases h
  simp only [List.mem_cons, List.not_mem_nil, or_false, not_or] at known
  obtain ⟨single, double, tick, r, r', s, s', b, b', hides⟩ := known
  refine ⟨by simp [isQuote, single, double, tick], ?_, by simp [isCloser, r', s', b'], hides⟩
  fun_cases closer? c <;> simp_all

theorem isPlain_of_isLineBreak (h : isLineBreak c = true) : isPlain c = true := by
  refine isPlain_of_isBlank ?_
  simp only [isLineBreak, Bool.or_eq_true, Bool.and_eq_true, decide_eq_true_eq, beq_iff_eq] at h
  simp only [isBlank, Bool.or_eq_true, Bool.and_eq_true, decide_eq_true_eq, beq_iff_eq]
  omega

/-- Lines are matched like the text that they come from. -/
theorem rows_lineChars (line cs u : List Char) :
    Alike (rows ((lineChars line cs).map String.ofList) ++ u) (line.reverse ++ (cs ++ '\n' :: u)) := by
  fun_induction lineChars line cs with
  | case1 => exact (Alike.plain isPlain_lineFeed u).symm
  | case2 line _ => simpa [rows] using Alike.refl _
  | case3 line cs ih =>
      rw [List.map_cons, rows_cons, String.toList_ofList]
      refine Alike.after isPlain_lineFeed (by decide) (ih.trans ?_) line.reverse
      exact (Alike.plain isPlain_lineFeed _).symm
  | case4 line c cs _ breaks ih =>
      rw [List.map_cons, rows_cons, String.toList_ofList]
      exact Alike.after isPlain_lineFeed (isPlain_of_isLineBreak breaks) ih line.reverse
  | case5 line c cs _ _ ih => simpa using ih

theorem rows_lines (s : String) (u : List Char) :
    Alike (rows (lines s) ++ u) (s.toList ++ '\n' :: u) :=
  rows_lineChars [] s.toList u

theorem rows_eq_unlines {ls : List String} (some : ls ≠ []) : rows ls = (unlines ls).toList ++ ['\n'] := by
  obtain ⟨l, ls, rfl⟩ := List.exists_cons_of_ne_nil some
  clear some
  unfold unlines
  induction ls generalizing l with
  | nil => simp [rows, String.intercalate_singleton]
  | cons l' ls ih =>
      have rest := ih l'
      rw [String.intercalate_cons_cons]
      simp only [String.toList_append, List.append_assoc, ← rest]
      simp [rows]

theorem rows_unlines (ls : List String) (u : List Char) :
    Alike ((unlines ls).toList ++ '\n' :: u) (rows ls ++ u) := by
  cases ls with
  | nil => exact Alike.plain isPlain_lineFeed u
  | cons l ls =>
      rw [rows_eq_unlines (List.cons_ne_nil l ls), List.append_assoc]
      exact .refl _

theorem rows_map {f : String → String}
    (h : ∀ l u, Alike ((f l).toList ++ '\n' :: u) (l.toList ++ '\n' :: u)) (ls : List String)
    (u : List Char) : Alike (rows (ls.map f) ++ u) (rows ls ++ u) := by
  induction ls with
  | nil => exact .refl u
  | cons l ls ih =>
      rw [List.map_cons, rows_cons, rows_cons]
      exact (h l _).trans (Alike.after isPlain_lineFeed isPlain_lineFeed ih l.toList)

theorem Alike.indentBy (level : Nat) (text : String) (u : List Char) :
    Alike ((Printing.indentBy level text).toList ++ '\n' :: u) (text.toList ++ '\n' :: u) := by
  have lead (line : String) (u : List Char) :
      Alike ((if isBlankText line then "" else spaces (2 * level) ++ line).toList ++ '\n' :: u)
        (line.toList ++ '\n' :: u) := by
    split
    · rename_i blank
      simp only [isBlankText, List.all_eq_true] at blank
      exact (Alike.plains (fun c hc => isPlain_of_isBlank (blank c hc)) _).symm
    · rw [String.toList_append, List.append_assoc]
      refine Alike.plains (fun c hc => ?_) _
      simp only [spaces, String.toList_ofList, List.mem_replicate] at hc
      rw [hc.2]
      decide
  refine (rows_unlines _ u).trans ?_
  exact (rows_map lead (lines text) u).trans (rows_lines text u)

theorem Alike.indentLine (line : String) (u : List Char) :
    Alike ((Printing.indentLine line).toList ++ '\n' :: u) (line.toList ++ '\n' :: u) := by
  unfold Printing.indentLine
  split
  · exact .refl _
  · exact Alike.indentBy 1 line u

/-- Lines are read one after the other. -/
theorem reads_unlines {b : Bool} {ls : List String} :
    Reads c b (unlines ls).toList ↔ Reads c b (rows ls) := by
  have same (o rest : List Char) :
      imbalance? none o (((unlines ls).toList ++ ['\n']) ++ rest) =
        imbalance? none o (rows ls ++ rest) := by
    rw [List.append_assoc]
    exact rows_unlines ls rest none o rfl
  constructor
  · intro h o rest
    rw [← same, h.append (reads_lineFeed c) o rest, Bool.or_false]
  · intro h
    refine .ofLast isPlain_lineFeed fun o rest => ?_
    rw [same, h]

end ReactMigration.Script
