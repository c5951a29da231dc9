import Mathlib.Data.List.TakeWhile
import ReactMigration.Proofs.CodePasses
import ReactMigration.Proofs.SubjectPasses

/-!
What the passes of recasting keep.

Unwrapping calls, emitting events, reading and writing subjects, refs and dropping `this.` exchange stretches of
code, so all of them keep what such exchanges keep, as long as the names that are written are plain and no literal
holds a text that is looked for.
-/

namespace ReactMigration

open ReactMigration.Text
open ReactMigration.Script

/-- The names that a function is written with hold no quotes, brackets and backslashes. -/
structure RecastContext.Plain (ctx : RecastContext) : Prop where
  outputs : ∀ o ∈ ctx.outputs, Recast.IsPlain o.1 ∧ Recast.IsPlain o.2
  setters : ∀ s ∈ ctx.state, Recast.IsPlain s.2
  subjects : ∀ name ∈ ctx.subjects, Recast.IsPlain name
  refs : ∀ name ∈ ctx.refs, Recast.IsPlain name

theorem RecastContext.Plain.setter {ctx : RecastContext} (plain : ctx.Plain) (name setter : String)
    (found : ctx.state.get? name = some setter) : Recast.IsPlain setter :=
  plain.setters _ (Table.mem_of_get? found)

namespace Recast

open ReactMigration.Text.Pattern (isName)
open Recasting (Gives)

variable {P I : List Char → Prop} {text name : String}

/-- The texts that the passes look for. -/
def soughtTexts : List String :=
  ["firstValueFrom(", "lastValueFrom(", "$any(", ".toPromise()", ".bind(this)", "this."]

/-- Literals with the property hold no text that a pass looks for. -/
def Shelters (P : List Char → Prop) : Prop :=
  ∀ t ∈ soughtTexts, ∀ l, P l → ¬ t.toList <:+: l

theorem Shelters.instanceDot (shelters : Shelters P) : ∀ l, P l → ¬ Recast.instanceDot <:+: l :=
  shelters "this." (by decide)

/-! ### Members -/

/-- Replacing what is addressed through `this`. -/
theorem replaceMember_keeps (F : Frame P I) {p : Pattern} {new : String} {s : List Char} (shelters : Shelters P)
    (plain : IsPlain name) (rest : Passes [] p s) (written : Carries P [] new.toList s) (h : I text.toList) :
    I ((member name ++ p).replace new text).toList :=
  ((member_enters plain).before rest).replace F instanceDot_visible shelters.instanceDot written h

/-- A plain name begins no escape. -/
theorem IsPlain.unescaped {str : String} (plain : IsPlain str) : '\\' ∉ str.toList :=
  fun mem => absurd (plain _ mem) (by decide)

theorem substituteMember_keeps (F : Frame P I) {p : Pattern} {new : String} {s : List Char} (shelters : Shelters P)
    (plain : IsPlain name) (rest : Passes [] p s) (unescaped : '\\' ∉ new.toList) (written : Carries P [] new.toList s)
    (h : I text.toList) : I ((member name ++ p).substitute new text).toList := by
  rw [Pattern.substitute_plain _ unescaped]
  exact replaceMember_keeps F shelters plain rest written h

theorem IsPlain.followed {str rest : String} {s : List Char} (plain : IsPlain str)
    (read : scan (.code, []) rest.toList = some (.code, s)) (unquoted : rest.toList.all (!isQuote ·) = true) :
    Carries P [] (str ++ rest).toList s := by
  rw [String.toList_append]
  exact (Carries.plain plain []).append (.text read unquoted)

theorem recastOutputs_keeps (F : Frame P I) (shelters : Shelters P) {outputs : Table String}
    (plain : ∀ o ∈ outputs, IsPlain o.1 ∧ IsPlain o.2) (h : I text.toList) : I (recastOutputs outputs text).toList := by
  unfold recastOutputs
  induction outputs generalizing text with
  | nil => exact h
  | cons o outputs ih =>
      obtain ⟨name, callback⟩ := plain o List.mem_cons_self
      refine ih (fun o mem => plain o (List.mem_cons_of_mem _ mem)) ?_
      exact substituteMember_keeps F shelters name (s := [')']) (passes_text (by decide) rfl)
        (by simpa using callback.unescaped) (callback.followed rfl (by decide)) h

theorem readText_keeps (F : Frame P I) (shelters : Shelters P) (plain : IsPlain name) (h : I text.toList) :
    I (readText text name).toList := by
  have written : Carries P [] ("this." ++ name).toList [] := by
    rw [String.toList_append]
    exact (Carries.text rfl (by decide)).append (.plain plain [])
  have dotted : Passes [] (.text "." : Pattern) [] := passes_text (by decide) rfl
  have words : Passes [] (.oneOf ["getValue", "asObservable"] : Pattern) [] := passes_oneOf (by decide)
  have call : Passes [] (.text "()" : Pattern) [] := passes_text (by decide) rfl
  have gets := (((member_enters plain).before dotted).before words).before call
  have worth : Passes [] (.text ".value" : Pattern) [] := passes_text (by decide) rfl
  have value := ((member_enters plain).before worth).before passes_boundary
  have unescaped : '\\' ∉ ("this." ++ name).toList := by simpa using plain.unescaped
  rw [readText, Pattern.substitute_plain _ unescaped, Pattern.substitute_plain _ unescaped]
  exact value.replace F instanceDot_visible shelters.instanceDot written
    (gets.replace F instanceDot_visible shelters.instanceDot written h)

theorem recastSubject_keeps (F : Frame P I) (shelters : Shelters P) {state : Table String}
    (setters : ∀ name setter, state.get? name = some setter → IsPlain setter) (plain : IsPlain name)
    (h : I text.toList) : Gives (I ·.toList) (recastSubject state text name) := by
  intro n
  rw [recastSubject_run]
  refine readText_keeps F shelters plain ?_
  unfold setText
  split
  · rename_i setter found
    split
    · exact h
    · exact substituteMember_keeps F shelters plain (s := [')']) (passes_text (by decide) rfl)
        (by simpa using (setters name setter found).unescaped) ((setters name setter found).followed rfl (by decide)) h
  · exact h

theorem dereference_keeps (F : Frame P I) {head : Pattern} {ref : String} (shelters : Shelters P)
    (enters : Enters instanceDot head []) (plain : IsPlain ref) (h : I text.toList) :
    I (dereference head ref text).toList := by
  refine enters.replaceWith F instanceDot_visible shelters.instanceDot (fun d m _ => ?_) h
  split
  · exact plain.followed rfl (by decide)
  · exact plain.followed rfl (by decide)

theorem native_keeps (F : Frame P I) {head : Pattern} {ref : String} (shelters : Shelters P)
    (enters : Enters instanceDot head []) (plain : IsPlain name) (plain' : IsPlain ref) (h : I text.toList) :
    I ((member name ++ .text ".nativeElement" ++ .boundary : Pattern).substitute (ref ++ ".current")
      (dereference head ref text)).toList := by
  have element : Passes [] (.text ".nativeElement" : Pattern) [] := passes_text (by decide) rfl
  rw [Pattern.substitute_plain _ (by simpa using plain'.unescaped)]
  exact (((member_enters plain).before element).before passes_boundary).replace F instanceDot_visible
    shelters.instanceDot (plain'.followed rfl (by decide)) (dereference_keeps F shelters enters plain' h)

theorem recastRef_keeps (F : Frame P I) (shelters : Shelters P) (plain : IsPlain name) (h : I text.toList) :
    I (recastRef text name).toList := by
  have current : Carries P [] (name ++ ".current").toList [] := plain.followed rfl (by decide)
  have unescaped : '\\' ∉ (name ++ ".current").toList := by simpa using plain.unescaped
  have dot : Passes [] (.text "." : Pattern) [] := passes_text (by decide) rfl
  have dotted : Passes [] (.text ".nativeElement." : Pattern) [] := passes_text (by decide) rfl
  have bounded := native_keeps F shelters ((member_enters plain).before dotted) plain plain h
  have equated := substituteMember_keeps F shelters plain
    (passes_empty (@takesOnly_ahead (.blanks ++ loneEquals) true)) unescaped current bounded
  have accessed := dereference_keeps F shelters ((member_enters plain).before dot) plain equated
  exact substituteMember_keeps F shelters plain passes_boundary unescaped current accessed

/-! ### Lines -/

theorem exists_trimEnd (line : String) :
    ∃ w, line.toList = (trimEnd line).toList ++ w ∧ ∀ a ∈ w, isBlank a = true := by
  refine ⟨(line.toList.reverse.takeWhile isBlank).reverse, ?_, fun a mem =>
    List.all_eq_true.mp List.all_takeWhile a (List.mem_reverse.mp mem)⟩
  rw [trimEnd, dropTrailing, String.toList_ofList, ← List.reverse_append, List.takeWhile_append_dropWhile,
    List.reverse_reverse]

theorem trimEnd_of_isBlankText {line : String} (blank : isBlankText line = true) : (trimEnd line).toList = [] := by
  rw [trimEnd, dropTrailing, String.toList_ofList, List.reverse_eq_nil_iff, List.dropWhile_eq_nil_iff]
  exact fun a mem => List.all_eq_true.mp blank a (List.mem_reverse.mp mem)

theorem rows_line (l : String) (ls : List String) : rows (l :: ls) = l.toList ++ '\n' :: rows ls := by
  simpa using rows_cons l ls []

theorem splitChar_rows (cs : List Char) : rows ((splitChar '\n' cs).map String.ofList) = cs ++ ['\n'] ∧
    ∀ part ∈ splitChar '\n' cs, '\n' ∉ part := by
  fun_induction splitChar '\n' cs with
  | case1 => exact ⟨rfl, by simp⟩
  | case2 c cs same ih =>
      obtain ⟨whole, single⟩ := ih
      obtain rfl := beq_iff_eq.mp same
      refine ⟨?_, by simpa using single⟩
      rw [List.map_cons, rows_line, whole]
      simp
  | case3 c cs other part parts split ih =>
      rw [split] at ih
      obtain ⟨whole, single⟩ := ih
      rw [List.map_cons, rows_line, String.toList_ofList] at whole
      refine ⟨?_, ?_⟩
      · rw [List.map_cons, rows_line, String.toList_ofList, List.cons_append, whole, List.cons_append]
      · intro l mem
        rcases List.mem_cons.mp mem with rfl | mem
        · have first := single part List.mem_cons_self
          have other : c ≠ '\n' := by simpa using other
          simp only [List.mem_cons, not_or]
          exact ⟨other.symm, first⟩
        · exact single l (List.mem_cons_of_mem _ mem)
  | case4 c cs other split ih =>
      rw [split] at ih
      simp [rows] at ih

/-! ### Stages -/

/-- The text in which framework classes are looked for. -/
def beforeDependencies (source : String) : String :=
  replaceAll ".toPromise()" "" (["firstValueFrom", "lastValueFrom", "$any"].foldl unwrapCall source)

theorem beforeDependencies_keeps (F : Frame P I) (shelters : Shelters P) (h : I text.toList) :
    I (beforeDependencies text).toList := by
  have first := unwrapCall_keeps F "firstValueFrom" (List.all_eq_true.mp (by decide))
    (shelters "firstValueFrom(" (by decide)) h
  have last := unwrapCall_keeps F "lastValueFrom" (List.all_eq_true.mp (by decide))
    (shelters "lastValueFrom(" (by decide)) first
  have any := unwrapCall_keeps F "$any" (List.all_eq_true.mp (by decide)) (shelters "$any(" (by decide)) last
  refine replaceAll_keeps F ".toPromise()" (.text (fun a mem => ?_) (turns_of rfl) List.infix_rfl) (by decide)
    (shelters ".toPromise()" (by decide)) any
  have all : ".toPromise()".toList.all (fun a => !isQuote a && a != '\\') = true := by decide
  simpa using List.all_eq_true.mp all a mem

variable {ctx : RecastContext} {source : String}

/-- The text in which writes of state are looked for. -/
def beforeState (ctx : RecastContext) (source : String) : Recasting String := do
  ctx.subjects.foldlM (recastSubject ctx.state) (← beforeSubjects ctx source)

theorem beforeRefs_eq : beforeRefs ctx source = beforeState ctx source >>= recastState ctx.state ctx.props := by
  rw [beforeState, bind_assoc]
  rfl

/-- What the dependencies keep, all passes up to the writes of state keep. -/
theorem beforeState_keeps (F : Frame P I) (shelters : Shelters P) (plain : ctx.Plain)
    (dependencies : I (beforeDependencies source).toList →
      Gives (I ·.toList) (ctx.dependencies.foldlM (recastDependency ctx) (beforeDependencies source)))
    (h : I source.toList) : Gives (I ·.toList) (beforeState ctx source) := by
  have outputs : Gives (I ·.toList) (beforeSubjects ctx source) :=
    (dependencies (beforeDependencies_keeps F shelters h)).bind fun text held =>
      .pure (recastOutputs_keeps F shelters plain.outputs held)
  exact outputs.bind fun text held => .foldlM (fun text held name mem =>
    recastSubject_keeps F shelters plain.setter (plain.subjects name mem) held) held

theorem refs_keep (F : Frame P I) (shelters : Shelters P) {names : List String} (plain : ∀ name ∈ names, IsPlain name)
    (h : I text.toList) : I (names.foldl recastRef text).toList := by
  induction names generalizing text with
  | nil => exact h
  | cons name names ih =>
      rw [List.foldl_cons]
      exact ih (fun n mem => plain n (List.mem_cons_of_mem _ mem))
        (recastRef_keeps F shelters (plain name List.mem_cons_self) h)

/-- The text in which lines are trimmed. -/
def beforeLines (text : String) : String :=
  (.boundary ++ .text "this." ++ .ahead true (.one isName) : Pattern).replace "" (replaceAll ".bind(this)" "" text)

theorem finished_eq : finished text = trimNewlines (unlines (dropBlankRuns false (splitAt '\n' (beforeLines text)))) :=
  rfl

theorem beforeLines_keeps (F : Frame P I) (shelters : Shelters P) (h : I text.toList) :
    I (beforeLines text).toList := by
  have bound : I (replaceAll ".bind(this)" "" text).toList := by
    refine replaceAll_keeps F ".bind(this)" (.text (fun a mem => ?_) (turns_of rfl) List.infix_rfl) (by decide)
      (shelters ".bind(this)" (by decide)) h
    have all : ".bind(this)".toList.all (fun a => !isQuote a && a != '\\') = true := by decide
    simpa using List.all_eq_true.mp all a mem
  have dot : Enters instanceDot (.text "this.") [] :=
    .text (quiet_of_plain (List.all_eq_true.mp (by decide))) (Level.ofAll (by decide)) List.infix_rfl
  have name := (Enters.behind passes_boundary dot).before (passes_empty (@takesOnly_ahead (.one isName) true))
  exact name.replace F instanceDot_visible shelters.instanceDot Whole.nil bound

theorem text_eq (visible : source ≠ "") : ∃ n : RecastNotes, Recast.text ctx source = finished (ctx.refs.foldl
    recastRef ((recastState ctx.state ctx.props ((beforeState ctx source).run {}).1).run n).1) := by
  rw [Recast.text, body_eq visible, beforeRefs_eq]
  exact ⟨_, rfl⟩

theorem text_empty : Recast.text ctx "" = "" := by
  rw [Recast.text, body, if_pos (beq_self_eq_true "")]
  rfl

end Recast

end ReactMigration
