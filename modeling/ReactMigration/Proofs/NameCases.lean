import ReactMigration.Proofs.NameWords
import ReactMigration.Target.Ref

/-!
Names in Pascal and camel case.

Behind the first one every word of a run starts with a capital.  So a name of letters and digits is split where its
words were joined or where it makes no difference, and putting a name in Pascal or camel case any number of times
comes to doing it once.
-/

namespace ReactMigration.Naming

open ReactMigration.Text

variable {c : Char} {cs x : List Char}

/-! ### Capital letters at the front -/

/-- A text with a capital first letter. -/
def capitalize : List Char → List Char
  | [] => []
  | c :: cs => upper c ++ cs

/-- A text with a small first letter. -/
def uncapitalize : List Char → List Char
  | [] => []
  | c :: cs => lower c ++ cs

theorem upperFirst_toList (s : String) : (upperFirst s).toList = capitalize s.toList := by
  rw [upperFirst]
  cases s.toList <;> simp [capitalize]

theorem lowerFirst_toList (s : String) : (lowerFirst s).toList = uncapitalize s.toList := by
  rw [lowerFirst]
  cases s.toList <;> simp [uncapitalize]

/-- What the case maps do to a letter or digit. -/
theorem isAlphanum_cases (letter : c.isAlphanum = true) :
    (∃ b, upper c = [b] ∧ b.isAlphanum = true ∧ b.isLower = false) ∧
      (∃ b, lower c = [b] ∧ b.isAlphanum = true ∧ (c.isLower = false → upper b = [c])) ∧
      (c.isLower = false → upper c = [c]) := by
  have ascii := isAlphanum_ascii letter
  have raised : c.toUpper.isAlphanum = true ∧ c.toUpper.isLower = false :=
    forall_ascii (P := fun c => c.isAlphanum = true → c.toUpper.isAlphanum = true ∧ c.toUpper.isLower = false)
      (by decide +kernel) ascii letter
  have lowered : c.toLower.isAlphanum = true :=
    forall_ascii (P := fun c => c.isAlphanum = true → c.toLower.isAlphanum = true) (by decide +kernel) ascii letter
  have back : c.isLower = false → upper c.toLower = [c] ∧ c.toUpper = c :=
    forall_ascii (P := fun c => c.isAlphanum = true → c.isLower = false → upper c.toLower = [c] ∧ c.toUpper = c)
      (by decide +kernel) ascii letter
  rw [upper, lower, if_pos ascii, if_pos ascii]
  exact ⟨⟨_, rfl, raised⟩, ⟨_, rfl, lowered, fun other => (back other).1⟩, fun other => by rw [(back other).2]⟩

/-- Letters and digits that do not start with a small letter. -/
structure IsPascal (name : List Char) : Prop where
  letters : ∀ c ∈ name, c.isAlphanum = true
  starts : NotNext Char.isLower name

namespace IsPascal

variable {name : List Char}

theorem of_letters (letters : ∀ c ∈ name, c.isAlphanum = true) : IsPascal (capitalize name) := by
  cases name with
  | nil => exact ⟨by simp [capitalize], by simp [capitalize, NotNext]⟩
  | cons c cs =>
      obtain ⟨letter, letters⟩ := List.forall_mem_cons.mp letters
      obtain ⟨⟨b, large, known, starts⟩, -⟩ := isAlphanum_cases letter
      rw [capitalize, large]
      exact ⟨List.forall_mem_cons.mpr ⟨known, letters⟩, by simpa [NotNext] using starts⟩

theorem append (hx : IsPascal x) (hy : IsPascal cs) : IsPascal (x ++ cs) := by
  refine ⟨List.forall_mem_append.mpr ⟨hx.letters, hy.letters⟩, ?_⟩
  cases x with
  | nil => exact hy.starts
  | cons a x => exact hx.starts

theorem flatMap {words : List (List Char)} (letters : ∀ w ∈ words, ∀ c ∈ w, c.isAlphanum = true) :
    IsPascal (words.flatMap capitalize) := by
  induction words with
  | nil => exact ⟨by simp, by simp [NotNext]⟩
  | cons w words ih =>
      obtain ⟨first, letters⟩ := List.forall_mem_cons.mp letters
      exact (of_letters first).append (ih letters)

theorem capitalize_eq (h : IsPascal name) : capitalize name = name := by
  cases name with
  | nil => rfl
  | cons c cs =>
      rw [capitalize, (isAlphanum_cases (h.letters c List.mem_cons_self)).2.2 (h.starts c rfl)]
      rfl

theorem uncapitalize_letters (h : IsPascal name) : ∀ c ∈ uncapitalize name, c.isAlphanum = true := by
  cases name with
  | nil => exact h.letters
  | cons c cs =>
      obtain ⟨letter, letters⟩ := List.forall_mem_cons.mp h.letters
      obtain ⟨-, ⟨b, low, known, -⟩, -⟩ := isAlphanum_cases letter
      rw [uncapitalize, low]
      exact List.forall_mem_cons.mpr ⟨known, letters⟩

theorem capitalize_uncapitalize (h : IsPascal name) : capitalize (uncapitalize name) = name := by
  cases name with
  | nil => rfl
  | cons c cs =>
      obtain ⟨-, ⟨b, low, -, back⟩, -⟩ := isAlphanum_cases (h.letters c List.mem_cons_self)
      rw [uncapitalize, low, List.singleton_append, capitalize, back (h.starts c rfl)]
      rfl

end IsPascal

/-! ### One step -/

theorem pascalCase_toList (s : String) :
    (pascalCase s).toList = ((alphanumericRuns s.toList).flatMap runWords).flatMap capitalize := by
  rw [pascalCase, splitWords, String.toList_join, List.map_map, List.flatMap_map]
  exact List.flatMap_congr fun w _ => by simp [upperFirst_toList]

/-- Letters and digits alone only get a capital at the front. -/
theorem pascalCase_letters {s : String} (letters : ∀ c ∈ s.toList, c.isAlphanum = true) :
    (pascalCase s).toList = capitalize s.toList := by
  rw [pascalCase_toList]
  revert letters
  generalize s.toList = cs
  intro letters
  cases cs with
  | nil => rfl
  | cons c cs =>
      obtain ⟨w, words, split, joined, starts⟩ := runWords_cons c cs
      have kept : words.flatMap capitalize = words.flatten := by
        rw [← List.flatMap_id]
        refine List.flatMap_congr fun word mem => ?_
        obtain ⟨a, rest, rfl, large⟩ := starts word mem
        have starts := (Bool.or_eq_false_iff.mp (not_isWordTail_of_isUpper large)).1
        rw [capitalize, (isAlphanum_cases (isAlphanum_iff.mpr (.inl large))).2.2 starts]
        rfl
      rw [alphanumericRuns_single (List.cons_ne_nil c cs) letters, List.flatMap_singleton, split, List.flatMap_cons, kept,
        capitalize, capitalize, List.append_assoc, joined]

theorem isPascal_pascalCase (s : String) : IsPascal (pascalCase s).toList := by
  rw [pascalCase_toList]
  refine IsPascal.flatMap fun w mem c inside => ?_
  have listed := words_flatten s.toList ▸ List.mem_flatten.mpr ⟨w, mem, inside⟩
  exact (List.mem_filter.mp listed).2

theorem pascalCase_idempotent (s : String) : pascalCase (pascalCase s) = pascalCase s := by
  have pascal := isPascal_pascalCase s
  rw [← String.toList_inj, pascalCase_letters pascal.letters, pascal.capitalize_eq]

theorem pascalCase_camelCase (s : String) : pascalCase (camelCase s) = pascalCase s := by
  have pascal := isPascal_pascalCase s
  have spelled : (camelCase s).toList = uncapitalize (pascalCase s).toList := lowerFirst_toList _
  rw [← String.toList_inj, pascalCase_letters (spelled ▸ pascal.uncapitalize_letters), spelled, pascal.capitalize_uncapitalize]

/-! ### Any number of steps -/

/-- A step that derives one name from another. -/
inductive CaseStep where
  | pascal
  | camel
  deriving Repr, DecidableEq

/-- The name that a step gives. -/
def CaseStep.apply : CaseStep → String → String
  | .pascal => pascalCase
  | .camel => camelCase

/-- The name after some steps. -/
def recase (steps : List CaseStep) (s : String) : String :=
  steps.foldl (fun name step => step.apply name) s

/-- A step before it does not show in Pascal case. -/
theorem CaseStep.pascalCase_apply (step : CaseStep) (s : String) : pascalCase (step.apply s) = pascalCase s := by
  cases step with
  | pascal => exact pascalCase_idempotent s
  | camel => exact pascalCase_camelCase s

theorem pascalCase_recase (steps : List CaseStep) (s : String) : pascalCase (recase steps s) = pascalCase s := by
  induction steps generalizing s with
  | nil => rfl
  | cons step steps ih => exact (ih (step.apply s)).trans (step.pascalCase_apply s)

/-- The words of a name are what the patterns find and hold its letters and digits in order, Pascal case is settled
by one step and not changed by camel case before it, and so the modules of services and pipes, their files and what
is imported from them do not depend on how many steps a name has gone through. -/
theorem recase_agrees (s : String) :
    splitWords s = ((runPattern.findAll s).flatMap fun run => (wordPattern.findAll run.text).map (·.text)) ∧
      String.join (splitWords s) = String.ofList (s.toList.filter Char.isAlphanum) ∧
      pascalCase (pascalCase s) = pascalCase s ∧ pascalCase (camelCase s) = pascalCase s ∧
      ∀ (steps : List CaseStep) (sourcePath : String),
        pascalCase (recase steps s) = pascalCase s ∧ camelCase (recase steps s) = camelCase s ∧
        ArtifactRef.service (recase steps s) sourcePath = ArtifactRef.service s sourcePath ∧
        ArtifactRef.pipeFunction (recase steps s) sourcePath = ArtifactRef.pipeFunction s sourcePath ∧
        ArtifactRef.pipeHook (recase steps s) sourcePath = ArtifactRef.pipeHook s sourcePath := by
  refine ⟨splitWords_eq_matches s, join_splitWords s, pascalCase_idempotent s, pascalCase_camelCase s, fun steps sourcePath => ?_⟩
  have pascal := pascalCase_recase steps s
  have camel : camelCase (recase steps s) = camelCase s := congrArg lowerFirst pascal
  refine ⟨pascal, camel, ?_, ?_, ?_⟩
  · rw [ArtifactRef.service, serviceHookName, pascal]
    rfl
  · rw [ArtifactRef.pipeFunction, pipeFunctionName, camel]
    rfl
  · rw [ArtifactRef.pipeHook, pipeHookName, pascal]
    rfl

example : splitWords (camelCase "HTTPClient") = ["h", "TTP", "Client"] ∧
    pascalCase (camelCase "HTTPClient") = "HTTPClient" := by decide +kernel

end ReactMigration.Naming
