import Mathlib.Data.List.Chain
import ReactMigration.Proofs.LiteralPasses
import ReactMigration.Proofs.RecastPasses

/-!
Recasting leaves literals alone.

No pass knows of quotes: what it looks for is replaced wherever it stands.  A literal that holds none of the
texts that are looked for, no equals sign behind a closing square bracket, no white space at the end of a line and
no two blank lines in a row comes through all passes as it is, and no pass makes a new one.
-/

namespace ReactMigration.Recast

open ReactMigration.Text
open ReactMigration.Script
open Recasting (Gives)

variable {P : List Char → Prop} {x y : List Char} {text : String}

/-! ### Lines -/

/-- No line of the literal ends with white space, and no two lines in a row are blank. -/
structure SteadyLines (l : List Char) : Prop where
  trailing : l.IsChain fun a b => b = '\n' → isBlank a = true → a = '\n'
  blank : ¬ ['\n', '\n', '\n'] <:+: l

theorem SteadyLines.not_blank {l u v : List Char} {b : Char} (steady : SteadyLines l) (same : l = u ++ b :: '\n' :: v)
    (blank : isBlank b = true) : b = '\n' := by
  have chain := steady.trailing
  rw [same] at chain
  exact (List.isChain_append_cons_cons.mp chain).2.1 rfl blank

/-- Read from a place outside or inside a literal, all literals are closed and have the property. -/
def QuotesFrom (P : List Char → Prop) (m : Mode) (read x : List Char) : Prop :=
  x.foldl Mode.next m = .code ∧ ∀ l ∈ literalsFrom m read x, P l

theorem quotesFrom_code {read : List Char} : QuotesFrom P .code read x ↔ Quotes P x := by
  rw [QuotesFrom, literalsFrom_code]
  exact ⟨fun ⟨closed, each⟩ => ⟨closed, each⟩, fun ⟨closed, each⟩ => ⟨closed, each⟩⟩

theorem quotesFrom_append {mode : Mode} {read : List Char} : QuotesFrom P mode read (x ++ y) ↔
    (∀ l ∈ literalsFrom mode read x, P l) ∧ QuotesFrom P (x.foldl Mode.next mode) (openAfter mode read x) y := by
  rw [QuotesFrom, QuotesFrom, literalsFrom_append, List.foldl_append, List.forall_mem_append]
  exact and_left_comm

theorem quotesFrom_cons {mode : Mode} {read : List Char} {a : Char} : QuotesFrom P mode read (a :: x) ↔
    (∀ l ∈ literalsFrom mode read [a], P l) ∧ QuotesFrom P (mode.next a) (openAfter mode read [a]) x := by
  have parts := literalsFrom_append mode read [a] x
  rw [List.singleton_append] at parts
  rw [QuotesFrom, QuotesFrom, parts, List.foldl_cons, List.forall_mem_append]
  exact and_left_comm

theorem QuotesFrom.exists_open {mode : Mode} {read : List Char} (h : QuotesFrom P mode read x) (inside : mode ≠ .code) :
    ∃ l, P l ∧ read.reverse <+: l := by
  obtain ⟨l, mem, begins⟩ := exists_literal inside h.1 read
  exact ⟨l, h.2 l mem, begins⟩

theorem quotesFrom_unquoted {read : List Char} (unquoted : ∀ a ∈ x, isQuote a = false) :
    QuotesFrom P .code read (x ++ y) ↔ Quotes P y := by
  rw [quotesFrom_code]
  exact ⟨fun h => (h.split (Quotes.unquoted (P := P) unquoted).closed).2, fun h => (Quotes.unquoted unquoted).append h⟩

/-- Behind an open literal that a line ends in, there is no white space, and the line is not the second blank
one. -/
theorem openLine {mode : Mode} {read line rest : List Char} (steady : ∀ l, P l → SteadyLines l)
    (blank : ∀ a ∈ line, isBlank a = true) (single : '\n' ∉ line) (inside : mode ≠ .code) (sound : mode.Sound)
    (h : QuotesFrom P mode read (line ++ '\n' :: rest)) :
    line = [] ∧ (∀ r, read ≠ '\n' :: '\n' :: r) ∧ mode.next '\n' ≠ .code ∧
      QuotesFrom P (mode.next '\n') ('\n' :: read) rest := by
  have quiet : Quiet (line ++ ['\n']) := Quiet.append (quiet_of_plain fun a mem => isPlain_of_isBlank (blank a mem))
    (by simp [Quiet, isQuote])
  obtain ⟨outside, opened⟩ := quiet_inside quiet (by simp) inside sound read
  rw [← List.singleton_append, ← List.append_assoc, quotesFrom_append, opened] at h
  obtain ⟨l, holds, begins⟩ := h.2.exists_open outside
  rw [List.reverse_append, List.reverse_reverse] at begins
  obtain ⟨tail, same⟩ := begins
  have empty : line = [] := by
    by_contra filled
    obtain ⟨line', b, rfl⟩ := List.eq_nil_or_concat' line |>.resolve_left filled
    have mem : b ∈ line' ++ [b] := by simp
    have feed := (steady l holds).not_blank (u := read.reverse ++ line') (b := b) (v := tail) (by rw [← same]; simp)
      (blank b mem)
    exact single (feed ▸ mem)
  subst empty
  refine ⟨rfl, fun r twice => ?_, outside, h.2⟩
  subst twice
  refine (steady l holds).blank ⟨r.reverse, tail, ?_⟩
  rw [← same]
  simp

/-- A line that is kept without the white space at its end. -/
theorem QuotesFrom.keepLine {mode : Mode} {read t w rest rest' : List Char} (steady : ∀ l, P l → SteadyLines l)
    (blank : ∀ a ∈ w, isBlank a = true) (single : '\n' ∉ w) (sound : mode.Sound)
    (h : QuotesFrom P mode read (t ++ (w ++ '\n' :: rest)))
    (further : ∀ mode' read', mode'.Sound →
      mode' = .code ∨ t.foldl Mode.next mode ≠ .code ∧ read' = '\n' :: openAfter mode read t →
      QuotesFrom P mode' read' rest → QuotesFrom P mode' read' rest') :
    QuotesFrom P mode read (t ++ '\n' :: rest') := by
  rw [quotesFrom_append] at h ⊢
  refine ⟨h.1, ?_⟩
  have sound' : (t.foldl Mode.next mode).Sound := foldl_sound sound t
  have behind := h.2
  generalize t.foldl Mode.next mode = mode' at behind sound' further
  by_cases inside : mode' = .code
  · subst inside
    have unquoted : ∀ a ∈ w ++ ['\n'], isQuote a = false := by
      intro a mem
      rcases List.mem_append.mp mem with mem | mem
      · exact (isPlain_iff.mp (isPlain_of_isBlank (blank a mem))).1
      · rw [List.mem_singleton.mp mem]
        decide
    rw [← List.singleton_append, ← List.append_assoc, quotesFrom_unquoted unquoted] at behind
    rw [← List.singleton_append, quotesFrom_unquoted fun a mem => unquoted a (List.mem_append_right w mem)]
    exact quotesFrom_code.mp (further .code [] trivial (.inl rfl) (quotesFrom_code.mpr behind))
  · obtain ⟨rfl, -, outside, behind⟩ := openLine steady blank single inside sound' behind
    have none : literalsFrom mode' (openAfter mode read t) ['\n'] = [] := by
      rw [literalsFrom_goes outside inside, literalsFrom]
    rw [quotesFrom_cons, none, openAfter, openAfter, if_neg inside]
    exact ⟨by simp, further _ _ (sound'.next _) (.inr ⟨inside, rfl⟩) behind⟩

/-- Leaving out white space at the ends of lines and all but the first of blank lines in a row. -/
theorem dropBlankRuns_quotes (steady : ∀ l, P l → SteadyLines l) {ls : List String}
    (single : ∀ line ∈ ls, '\n' ∉ line.toList) {afterBlank : Bool} {mode : Mode} {read : List Char}
    (sound : mode.Sound) (starts : mode = .code ∨ ∃ r, read = '\n' :: r)
    (blank : afterBlank = true → mode = .code ∨ ∃ r, read = '\n' :: '\n' :: r)
    (h : QuotesFrom P mode read (rows ls)) : QuotesFrom P mode read (rows (dropBlankRuns afterBlank ls)) := by
  induction ls generalizing afterBlank mode read with
  | nil => exact h
  | cons line ls ih =>
      have single' : ∀ line ∈ ls, '\n' ∉ line.toList := fun l mem => single l (List.mem_cons_of_mem _ mem)
      obtain ⟨w, parts, blanks⟩ := exists_trimEnd line
      have unbroken : '\n' ∉ w := fun mem =>
        single line List.mem_cons_self (by rw [parts]; exact List.mem_append_right _ mem)
      rw [rows_line, parts, List.append_assoc] at h
      rw [dropBlankRuns]
      split
      · rename_i isBlank
        have none : (trimEnd line).toList = [] := trimEnd_of_isBlankText isBlank
        split
        · -- the line before was blank, so that this one can stand in no literal
          rename_i again
          rw [none, List.nil_append] at h
          by_cases inside : mode = .code
          · subst inside
            have unquoted : ∀ a ∈ w ++ ['\n'], isQuote a = false := by
              intro a mem
              rcases List.mem_append.mp mem with mem | mem
              · exact (isPlain_iff.mp (isPlain_of_isBlank (blanks a mem))).1
              · rw [List.mem_singleton.mp mem]
                decide
            rw [← List.singleton_append, ← List.append_assoc, quotesFrom_unquoted unquoted] at h
            exact ih single' trivial (.inl rfl) (fun _ => .inl rfl) (quotesFrom_code.mpr h)
          · obtain ⟨r, twice⟩ := (blank again).resolve_left inside
            exact absurd twice ((openLine steady blanks unbroken inside sound h).2.1 r)
        · rw [rows_line]
          refine h.keepLine steady blanks unbroken sound fun mode' read' sound' start h' => ?_
          refine ih single' sound' (start.imp_right fun ⟨_, same⟩ => ⟨_, same⟩) (fun _ => ?_) h'
          refine start.imp_right fun ⟨inside, same⟩ => ?_
          rw [none] at inside same
          obtain ⟨r, begun⟩ := starts.resolve_left inside
          exact ⟨r, by rw [same, openAfter, begun]⟩
      · rw [rows_line]
        refine h.keepLine steady blanks unbroken sound fun mode' read' sound' start h' => ?_
        exact ih single' sound' (start.imp_right fun ⟨_, same⟩ => ⟨_, same⟩) (by simp) h'

/-- Trimming lines keeps literals with steady lines. -/
theorem trimmed_quotes (steady : ∀ l, P l → SteadyLines l) (h : Quotes P text.toList) :
    Quotes P (trimNewlines (unlines (dropBlankRuns false (splitAt '\n' text)))).toList := by
  obtain ⟨whole, single⟩ := splitChar_rows text.toList
  have lines : Quotes P (rows (splitAt '\n' text)) := by
    rw [splitAt, whole]
    exact h.append (.ofAll (by decide))
  have single : ∀ line ∈ splitAt '\n' text, '\n' ∉ line.toList := by
    intro line mem
    obtain ⟨part, listed, rfl⟩ := List.mem_map.mp mem
    rw [String.toList_ofList]
    exact single part listed
  have runs : QuotesFrom P .code [] (rows (dropBlankRuns false (splitAt '\n' text))) :=
    dropBlankRuns_quotes steady single trivial (.inl rfl) (by simp) (quotesFrom_code.mpr lines)
  rw [quotesFrom_code] at runs
  rw [trimNewlines, String.toList_ofList]
  refine Quotes.stripWith ?_ fun c feed => ?_
  · by_cases some : dropBlankRuns false (splitAt '\n' text) = []
    · rw [some]
      exact .nil
    · rw [rows_eq_unlines some] at runs
      exact runs.of_append_quiet (by simp [Quiet, isQuote])
  · rw [beq_iff_eq] at feed
    subst feed
    decide

/-! ### Whole bodies -/

theorem recastState_quotes (shelters : Shelters P) (unassigned : ∀ l, P l → Unassigned l) {state : Table String}
    {props : List String} (setters : ∀ name setter, state.get? name = some setter → IsPlain setter)
    (h : Quotes P text.toList) : Gives (fun s => Quotes P s.toList) (recastState state props text) := by
  intro n
  unfold recastState
  split
  · exact h
  · have kept := @rounds_keep (.start text.toList) (writeStep state) (fun _ => True) (fun c => Quotes P (around c))
      (fun _ stepped held => writeStep_quotes setters shelters.instanceDot
        (fun _ _ _ => closedPath_of_unassigned unassigned) stepped held)
      (text.toList.length + 1) (fun _ _ => trivial) h
    rw [← stateWritesWithin_eq state props _ _ n] at kept
    exact (toList_wholeText _).symm ▸ kept

variable {ctx : RecastContext} {source : String}

theorem text_quotes (shelters : Shelters P) (unassigned : ∀ l, P l → Unassigned l) (steady : ∀ l, P l → SteadyLines l)
    (plain : ctx.Plain) (dependencies : ∀ text, Quotes P text.toList →
      Gives (fun s => Quotes P s.toList) (ctx.dependencies.foldlM (recastDependency ctx) text))
    (h : Quotes P source.toList) : Quotes P (Recast.text ctx source).toList := by
  by_cases visible : source = ""
  · rw [visible, text_empty]
    exact .nil
  · obtain ⟨n, same⟩ := @text_eq ctx source visible
    have before := beforeState_keeps frame_quotes shelters plain (dependencies _) h {}
    have written := @recastState_quotes _ _ shelters unassigned ctx.state ctx.props plain.setter before n
    rw [same, finished_eq]
    exact trimmed_quotes steady (beforeLines_keeps frame_quotes shelters
      (refs_keep frame_quotes shelters plain.refs written))

/-! ### Inert literals -/

/-- A literal that no pass can take for code. -/
structure Inert (l : List Char) : Prop extends SteadyLines l where
  sought : ∀ t ∈ soughtTexts, ¬ t.toList <:+: l
  unassigned : Unassigned l

instance (l : List Char) : Decidable (SteadyLines l) :=
  decidable_of_iff (l.IsChain (fun a b => b = '\n' → isBlank a = true → a = '\n') ∧ ¬ ['\n', '\n', '\n'] <:+: l)
    ⟨fun h => ⟨h.1, h.2⟩, fun h => ⟨h.trailing, h.blank⟩⟩

instance (l : List Char) : Decidable (Unassigned l) :=
  inferInstanceAs (Decidable ('=' ∉ l.dropWhile (· != ']')))

instance (l : List Char) : Decidable (Inert l) :=
  decidable_of_iff (SteadyLines l ∧ (∀ t ∈ soughtTexts, ¬ t.toList <:+: l) ∧ Unassigned l)
    ⟨fun h => ⟨h.1, h.2.1, h.2.2⟩, fun h => ⟨h.toSteadyLines, h.sought, h.unassigned⟩⟩

/-- If all literals of a body are closed and inert, and no framework class is injected, every literal of the
recast body is one of the body. -/
theorem literals_recast (plain : ctx.Plain) (custom : ∀ dep ∈ ctx.dependencies, dep.2.kind ≠ .builtin)
    (closed : modeAfter source.toList = .code) (inert : ∀ l ∈ literals source.toList, Inert l) :
    ∀ l ∈ literals (Recast.text ctx source).toList, l ∈ literals source.toList := by
  have start : Quotes (fun l => Inert l ∧ l ∈ literals source.toList) source.toList :=
    ⟨closed, fun l mem => ⟨inert l mem, mem⟩⟩
  have shelters : Shelters fun l => Inert l ∧ l ∈ literals source.toList :=
    fun t mem l held => held.1.sought t mem
  have kept := text_quotes shelters (fun l held => held.1.unassigned) (fun l held => held.1.toSteadyLines) plain
    (fun text held => .foldlM (fun text held dep mem => ?_) held) start
  · exact fun l mem => (kept.each l mem).2
  · have other : (dep.2.kind != .builtin) = true := by simpa using custom dep mem
    unfold recastDependency
    dsimp only
    rw [if_pos other]
    exact .pure held

/-- The names of a list with an output. -/
def boardNames : RecastContext where
  outputs := [("saved", "onSaved")]
  state := [("rows", "setRows")]

/-- A body with literals of all kinds, one over several lines. -/
def boardBody : String :=
  "this.rows.push(\x60a\n\nb\x60, \"c\");\nthis.saved.emit('it\\'s');"

theorem literals_recast_board : Recast.text boardNames boardBody =
      "setRows([...rows, \x60a\n\nb\x60, \"c\"]);\nonSaved('it\\'s');" ∧
    ∀ l ∈ literals (Recast.text boardNames boardBody).toList, l ∈ literals boardBody.toList := by
  refine ⟨by decide +kernel, literals_recast ⟨?_, ?_, ?_, ?_⟩ (by simp [boardNames]) (by decide +kernel) ?_⟩
  · decide +kernel
  · decide +kernel
  · decide +kernel
  · decide +kernel
  · decide +kernel

/-- A text that is looked for is replaced in a literal, too. -/
theorem literal_recast_log : ∃ l ∈ literals (Recast.text {} "log('this.x')").toList,
    l ∉ literals "log('this.x')".toList := by
  decide +kernel

end ReactMigration.Recast
