import ReactMigration.Proofs.FrameworkPasses
import ReactMigration.Proofs.LiteralPasses

/-!
Recasting keeps brackets and quotes balanced.

Each pass takes whole calls, writes and words out of code and puts whole ones in.  Two passes cut an index where
its first bracket closes, so that such an index must be level: the one that reads the query of a route, and the one
that turns the assignment of a part of a state variable into a call of its setter.
-/

namespace ReactMigration

open ReactMigration.Text
open ReactMigration.Script

/-- All names that are written hold no quotes, brackets and backslashes. -/
structure RecastContext.PlainThroughout (ctx : RecastContext) : Prop extends ctx.Plain where
  dependencies : ∀ dep ∈ ctx.dependencies, Recast.IsPlain dep.1
  elementRefs : ∀ r ∈ ctx.elementRefs, Recast.IsPlain r.2

namespace Recast

open Recasting (Gives)

variable {P : List Char → Prop} {mode : Mode} {w o : List Char} {text : String} {c d : Cursor} {state : Table String}

/-! ### Lines -/

theorem same_lineEnd (blank : ∀ a ∈ w, isBlank a = true) (sound : mode.Sound) : Same mode (w ++ ['\n']) ['\n'] := by
  have plain : ∀ a ∈ w ++ ['\n'], isPlain a = true := by
    intro a mem
    rcases List.mem_append.mp mem with mem | mem
    · exact isPlain_of_isBlank (blank a mem)
    · rw [List.mem_singleton.mp mem]
      decide
  have feed : ∀ a ∈ ['\n'], isPlain a = true := fun a mem => plain a (List.mem_append_right w mem)
  exact Same.quiet ((Level.plain plain).same (Level.plain feed)) (quiet_of_plain plain) (quiet_of_plain feed)
    (by simp) (by simp) sound

theorem next_feed_shown (mode : Mode) : ∀ q, mode.next '\n' ≠ .hidden q := by
  intro q
  cases mode with
  | code => simp [Mode.next, isQuote]
  | quoted q' =>
      simp only [Mode.next]
      split
      · rename_i hides
        simp at hides
      · split
        · simp
        · simp
  | hidden q' => simp [Mode.next]

/-- Where nothing hides the start of a line, leaving out white space at the ends of lines and blank lines does not
show. -/
theorem dropBlankRuns_scan {ls : List String} {afterBlank : Bool} (sound : mode.Sound) (shown : ∀ q, mode ≠ .hidden q) :
    scan (mode, o) (rows (dropBlankRuns afterBlank ls)) = scan (mode, o) (rows ls) := by
  induction ls generalizing afterBlank mode o with
  | nil => rfl
  | cons line ls ih =>
      obtain ⟨w, parts, blank⟩ := exists_trimEnd line
      have kept (afterBlank : Bool) : scan (mode, o) (rows (trimEnd line :: dropBlankRuns afterBlank ls)) =
          scan (mode, o) (rows (line :: ls)) := by
        rw [rows_line, rows_line, parts, List.append_assoc, scan_append, scan_append]
        cases read : scan (mode, o) (trimEnd line).toList with
        | none => rfl
        | some place =>
            obtain ⟨mode', o'⟩ := place
            have sound' : mode'.Sound := sound.scanned read
            rw [Option.bind_some, Option.bind_some, ← List.singleton_append, ← List.singleton_append (l := rows ls),
              ← List.append_assoc, scan_append, scan_append, same_lineEnd blank sound' o']
            cases moved : scan (mode', o') ['\n'] with
            | none => rfl
            | some place =>
                obtain ⟨mode'', o''⟩ := place
                have next : mode'' = mode'.next '\n' := scan_mode moved
                subst next
                exact ih (sound'.next _) (next_feed_shown mode')
      rw [dropBlankRuns]
      split
      · rename_i isBlank
        split
        · have none : (trimEnd line).toList = [] := trimEnd_of_isBlankText isBlank
          rw [none, List.nil_append] at parts
          have plain : ∀ a ∈ w ++ ['\n'], isPlain a = true := by
            intro a mem
            rcases List.mem_append.mp mem with mem | mem
            · exact isPlain_of_isBlank (blank a mem)
            · rw [List.mem_singleton.mp mem]
              decide
          have left_out : Same mode (w ++ ['\n']) [] :=
            (Level.plain plain).same_nil (quiet_of_plain plain) sound shown
          rw [rows_line, parts, ← List.singleton_append, ← List.append_assoc, scan_append, left_out o]
          exact ih sound shown
        · exact kept true
      · exact kept false

theorem trimmed_level (level : Level text.toList) :
    Level (trimNewlines (unlines (dropBlankRuns false (splitAt '\n' text)))).toList := by
  obtain ⟨whole, -⟩ := splitChar_rows text.toList
  have runs : Level (rows (dropBlankRuns false (splitAt '\n' text))) := by
    intro o
    have lines : Level (rows (splitAt '\n' text)) := by
      rw [splitAt, whole]
      exact level.append (.plain (List.all_eq_true.mp (by decide)))
    exact (@dropBlankRuns_scan .code o _ _ trivial (by simp)).trans (lines o)
  rw [trimNewlines, String.toList_ofList]
  refine Level.stripWith (fun a feed => ?_) ?_
  · rw [beq_iff_eq] at feed
    subst feed
    decide
  · by_cases some : dropBlankRuns false (splitAt '\n' text) = []
    · rw [some]
      exact .nil
    · rw [rows_eq_unlines some] at runs
      exact runs.of_append_blank (by decide)

/-! ### Writes of state -/

/-- A write of state that is found from here on and replaced assigns to a level path. -/
def PathWhole (state : Table String) (c : Cursor) : Prop :=
  ∀ m ∈ memberAccess.searchAt? c, (writeOf? state m).isSome = true → WholePath m.rest

/-- Wherever a write of state is replaced, the path that is assigned to is level. -/
def PathsWhole (state : Table String) (text : String) : Prop :=
  ∀ k, PathWhole state (rounds (writeStep state) k (.start text.toList))

instance (c : Cursor) : Decidable (WholePath c) :=
  inferInstanceAs (Decidable (∀ m ∈ assignment.matchAt? c, Level (m.group 1).toList))

instance (state : Table String) (c : Cursor) : Decidable (PathWhole state c) :=
  inferInstanceAs (Decidable (∀ m ∈ memberAccess.searchAt? c, (writeOf? state m).isSome = true → WholePath m.rest))

/-- Once no round follows, all further rounds are those so far. -/
theorem rounds_settle {step : Cursor → Option Cursor} {n : Nat} (stops : step (rounds step n c) = none) (k : Nat) :
    ∃ j ≤ n, rounds step k c = rounds step j c := by
  induction n generalizing c k with
  | zero =>
      refine ⟨0, le_rfl, ?_⟩
      cases k with
      | zero => rfl
      | succ k => simp [rounds, show step c = none from stops]
  | succ n ih =>
      cases k with
      | zero => exact ⟨0, Nat.zero_le _, rfl⟩
      | succ k =>
          cases stepped : step c with
          | none => exact ⟨0, Nat.zero_le _, by simp [rounds, stepped]⟩
          | some d =>
              rw [rounds, stepped] at stops
              obtain ⟨j, least, same⟩ := ih stops k
              exact ⟨j + 1, Nat.succ_le_succ least, by simpa [rounds, stepped] using same⟩

/-- The rounds up to the last one tell whether all paths are level. -/
theorem PathsWhole.of_settled {n : Nat} (stops : (writeStep state (rounds (writeStep state) n (.start text.toList))).isNone)
    (each : ∀ j ≤ n, PathWhole state (rounds (writeStep state) j (.start text.toList))) : PathsWhole state text := by
  intro k
  obtain ⟨j, least, same⟩ := rounds_settle (Option.isNone_iff_eq_none.mp stops) k
  rw [same]
  exact each j least

theorem writeStep_whole (shelters : Shelters P) (setters : ∀ name setter, state.get? name = some setter → IsPlain setter)
    (paths : PathWhole state c) (stepped : writeStep state c = some d) (whole : Whole P (around c)) : Whole P (around d) := by
  have inCode := memberAccess_enters.findsInCode instanceDot_visible shelters.instanceDot whole.quotes
  have balanced : Balanced (around d) := writeStep_balanced setters
    (fun m found updates => ⟨inCode m found, paths m found updates⟩) stepped (whole.level [])
  exact .of balanced.level (writeStep_quotes setters shelters.instanceDot
    (fun m found updates _ => (paths m found updates).closed) stepped whole.quotes)

theorem recastState_whole (shelters : Shelters P) {props : List String}
    (setters : ∀ name setter, state.get? name = some setter → IsPlain setter) (paths : PathsWhole state text)
    (whole : Whole P text.toList) : Gives (fun s => Whole P s.toList) (recastState state props text) := by
  intro n
  unfold recastState
  split
  · exact whole
  · have kept := @rounds_keep (.start text.toList) (writeStep state)
      (fun c => ∀ m ∈ memberAccess.searchAt? c, (writeOf? state m).isSome = true → WholePath m.rest)
      (fun c => Whole P (around c)) (fun paths stepped held => writeStep_whole shelters setters paths stepped held)
      (text.toList.length + 1) (fun k _ => paths k) whole
    rw [← stateWritesWithin_eq state props _ _ n] at kept
    exact (toList_wholeText _).symm ▸ kept

/-! ### Whole bodies -/

variable {ctx : RecastContext} {source : String}

/-- A balanced body is recast to a balanced body, if no literal holds a text that is looked for, and every index
that is cut at its first closing bracket is level up to there. -/
theorem body_balanced (plain : ctx.PlainThroughout) (balanced : findUnbalanced source = none)
    (unsought : ∀ l ∈ literals source.toList, Unsought l)
    (routes : RoutesWhole ctx ctx.dependencies (beforeDependencies source))
    (paths : PathsWhole ctx.state ((beforeState ctx source).run {}).1) :
    findUnbalanced (Recast.text ctx source) = none := by
  by_cases visible : source = ""
  · subst visible
    rwa [text_empty]
  · have level := (findUnbalanced_eq_none.mp balanced).level
    have start : Whole Unsought source.toList := .of level ⟨level.closed, unsought⟩
    have hosts (name ref : String) (found : ctx.elementRefs.get? name = some ref) : IsPlain ref :=
      plain.elementRefs _ (Table.mem_of_get? found)
    obtain ⟨n, same⟩ := @text_eq ctx source visible
    have before := beforeState_keeps frame_whole unsought_shelters plain.toPlain
      (dependencies_keep frame_whole plain.dependencies hosts routes) start {}
    have written := @recastState_whole _ _ _ unsought_shelters ctx.props plain.setter paths before n
    have lines := beforeLines_keeps frame_whole unsought_shelters
      (refs_keep frame_whole unsought_shelters plain.refs written)
    rw [same, finished_eq, findUnbalanced_eq_none]
    exact trimmed_level lines.level []

/-- The names of a list with a route and a state variable. -/
def hallNames : RecastContext where
  state := [("a", "setA")]
  dependencies := [("r", { name := "r", typeName := "ActivatedRoute", kind := .builtin })]

def hallBody : String := "this.a[i]=this.r.snapshot.queryParams['k']"

theorem body_balanced_hall : findUnbalanced hallBody = none ∧ findUnbalanced (Recast.text hallNames hallBody) = none := by
  have balanced : findUnbalanced hallBody = none := by decide +kernel
  have plain : hallNames.PlainThroughout := by
    refine ⟨⟨?_, ?_, ?_, ?_⟩, ?_, ?_⟩ <;> decide +kernel
  have unsought : ∀ l ∈ literals hallBody.toList, Unsought l := by decide +kernel
  have routes : RoutesWhole hallNames hallNames.dependencies (beforeDependencies hallBody) :=
    ⟨fun _ => by decide +kernel, trivial⟩
  have read : ((beforeState hallNames hallBody).run {}).1 = "this.a[i]=searchParams.get('k')" := by decide +kernel
  have paths : PathsWhole hallNames.state ((beforeState hallNames hallBody).run {}).1 := by
    rw [read]
    exact .of_settled (n := 1) (by decide +kernel) (by decide +kernel)
  exact ⟨balanced, body_balanced plain balanced unsought routes paths⟩

/-- An index of the query is cut at a bracket that closes in it. -/
theorem body_unbalanced_keys :
    let names : RecastContext :=
      { dependencies := [("route", { name := "route", typeName := "ActivatedRoute", kind := .builtin })] }
    findUnbalanced "this.go(this.route.snapshot.queryParams[keys[0]]);" = none ∧
      Recast.text names "this.go(this.route.snapshot.queryParams[keys[0]]);" = "go(searchParams.get(keys[0)]);" ∧
      findUnbalanced (Recast.text names "this.go(this.route.snapshot.queryParams[keys[0]]);") ≠ none := by
  intro names
  have recast : Recast.text names "this.go(this.route.snapshot.queryParams[keys[0]]);" =
      "go(searchParams.get(keys[0)]);" := by
    decide +kernel
  refine ⟨by decide, recast, ?_⟩
  rw [recast]
  decide

end Recast

end ReactMigration
