import ReactMigration.Layout

/-!
Where the path that one module names another by leads.

Resolving a path runs over its segments and keeps the segments that are still open, newest first.  Run on
from the folder of the importing module, the path of an import closes what that folder has beyond the shared
beginning and opens what the target has beyond it.
-/

namespace ReactMigration

open ReactMigration.Text

namespace Text

theorem splitChar_eq_splitOn (separator : Char) (cs : List Char) :
    splitChar separator cs = cs.splitOn separator := by
  induction cs with
  | nil => rfl
  | cons c cs ih =>
      rw [splitChar, ih, List.splitOn_cons_eq_if_modifyHead]
      split
      · rfl
      · cases parts : cs.splitOn separator with
        | nil => exact absurd parts (List.splitOn_ne_nil separator cs)
        | cons part parts => rfl

theorem notMem_of_mem_splitChar {separator : Char} {cs part : List Char} (mem : part ∈ splitChar separator cs) :
    separator ∉ part := by
  induction cs generalizing part with
  | nil => simp_all [splitChar]
  | cons c cs ih =>
      rw [splitChar] at mem
      split at mem
      · obtain rfl | mem := List.mem_cons.mp mem
        · simp
        · exact ih mem
      · rename_i other
        rw [beq_iff_eq] at other
        split at mem
        · rename_i first others parts
          obtain rfl | mem := List.mem_cons.mp mem
          · have rest := ih (parts ▸ List.mem_cons_self)
            simp [rest, Ne.symm other]
          · exact ih (parts ▸ List.mem_cons_of_mem first mem)
        · simp_all [Ne.symm other]

theorem splitAt_append_mark {separator : Char} {mark : String} (single : mark.toList = [separator]) (p q : String) :
    splitAt separator (p ++ mark ++ q) = splitAt separator p ++ splitAt separator q := by
  have whole : (p ++ mark ++ q).toList = p.toList ++ separator :: q.toList := by
    simp [String.toList_append, single]
  rw [splitAt, whole, splitChar_eq_splitOn, List.splitOn_append_cons_self, List.map_append]
  simp [splitAt, splitChar_eq_splitOn]

/-- A text is its parts, joined again. -/
theorem intercalate_splitAt_mark {separator : Char} {mark : String} (single : mark.toList = [separator]) (p : String) :
    mark.intercalate (splitAt separator p) = p := by
  rw [← String.toList_inj, String.toList_intercalate, splitAt, List.map_map, single]
  simp [Function.comp_def, splitChar_eq_splitOn]

end Text

namespace Path

/-! ### Segments -/

theorem splitAt_append (p q : String) : splitAt '/' (p ++ "/" ++ q) = splitAt '/' p ++ splitAt '/' q :=
  splitAt_append_mark rfl p q

/-- A path is its segments, joined again. -/
theorem intercalate_splitAt (p : String) : "/".intercalate (splitAt '/' p) = p :=
  intercalate_splitAt_mark rfl p

/-- Segments that are joined are the segments again. -/
theorem splitAt_intercalate {parts : List String} (some : parts ≠ [])
    (single : ∀ s ∈ parts, '/' ∉ s.toList) : splitAt '/' ("/".intercalate parts) = parts := by
  have split : (['/'].intercalate (parts.map String.toList)).splitOn '/' = parts.map String.toList :=
    List.splitOn_intercalate '/' (by simpa using single) (by simpa using some)
  rw [splitAt, String.toList_intercalate, splitChar_eq_splitOn]
  simp [split, Function.comp_def]

theorem notMem_of_mem_splitAt {p s : String} (mem : s ∈ splitAt '/' p) : '/' ∉ s.toList := by
  obtain ⟨part, listed, rfl⟩ := List.mem_map.mp mem
  rw [String.toList_ofList]
  exact notMem_of_mem_splitChar listed

/-! ### Resolving -/

/-- A segment that names a file or a folder. -/
def IsName (s : String) : Prop :=
  s ≠ "" ∧ s ≠ "." ∧ s ≠ ".."

instance : DecidablePred IsName := fun s =>
  inferInstanceAs (Decidable (s ≠ "" ∧ s ≠ "." ∧ s ≠ ".."))

variable {ss above open_ : List String} {p q : String}

/-- Segments that lead nowhere up leave those that name something. -/
theorem foldl_resolve_downward (down : ".." ∉ ss) (open_ : List String) :
    ss.foldl (resolveSegment false) open_ = (ss.filter (IsName ·)).reverse ++ open_ := by
  induction ss generalizing open_ with
  | nil => rfl
  | cons s ss ih =>
      have other : s ≠ ".." := fun same => down (same ▸ List.mem_cons_self)
      have step : resolveSegment false open_ s = if IsName s then s :: open_ else open_ := by
        by_cases empty : s = "" ∨ s = "."
        · have stays : ¬ IsName s := fun named => empty.elim named.1 named.2.1
          simp [resolveSegment, empty, stays]
        · have named : IsName s := ⟨fun same => empty (.inl same), fun same => empty (.inr same), other⟩
          simp [resolveSegment, empty, other, named]
      rw [List.foldl_cons, ih fun mem => down (List.mem_cons_of_mem s mem), step, List.filter_cons]
      by_cases named : IsName s <;> simp [named]

theorem foldl_resolve_names (named : ∀ s ∈ ss, IsName s) (open_ : List String) :
    ss.foldl (resolveSegment false) open_ = ss.reverse ++ open_ := by
  rw [foldl_resolve_downward fun mem => (named _ mem).2.2 rfl,
    List.filter_eq_self.mpr fun s mem => decide_eq_true (named s mem)]

/-- Each step up closes the segment opened last. -/
theorem foldl_resolve_upward (named : ∀ s ∈ above, IsName s) (open_ : List String) :
    (above.map fun _ => "..").foldl (resolveSegment false) (above ++ open_) = open_ := by
  induction above with
  | nil => rfl
  | cons s above ih =>
      have step : resolveSegment false (s :: above ++ open_) ".." = above ++ open_ := by
        simp [resolveSegment, (named s List.mem_cons_self).2.2]
      rw [List.map_cons, List.foldl_cons, step]
      exact ih fun t mem => named t (List.mem_cons_of_mem s mem)

theorem dropShared_split (ss ts : List String) :
    ∃ shared, ss = shared ++ (dropShared ss ts).1 ∧ ts = shared ++ (dropShared ss ts).2 := by
  fun_induction dropShared ss ts with
  | case1 a as b bs same ih =>
      obtain ⟨shared, first, second⟩ := ih
      exact ⟨a :: shared, congrArg (a :: ·) first, beq_iff_eq.mp same ▸ congrArg (a :: ·) second⟩
  | case2 => exact ⟨[], rfl, rfl⟩
  | case3 => exact ⟨[], rfl, rfl⟩

/-! ### Joining -/

theorem relative_iff : p.startsWith "/" = false ↔ ∀ rest, p.toList ≠ '/' :: rest := by
  rw [← Bool.not_eq_true, String.startsWith_string_iff]
  exact ⟨fun relative rest split => relative ⟨rest, split.symm⟩,
    fun relative ⟨rest, split⟩ => relative rest split.symm⟩

theorem join_relative (first : p.startsWith "/" = false) (second : q.startsWith "/" = false) :
    (join p q).startsWith "/" = false := by
  rw [join, second, if_neg Bool.false_ne_true]
  by_cases empty : p = ""
  · simpa [empty] using second
  · rw [relative_iff] at first ⊢
    cases start : p.toList with
    | nil => exact absurd (String.toList_eq_nil_iff.mp start) empty
    | cons c cs =>
        have other : c ≠ '/' := fun same => first cs (by rw [start, same])
        intro rest
        split <;> simp [start, other]

/-- A joined path goes on from where its first part leads. -/
theorem foldl_resolve_join (relative : q.startsWith "/" = false) (open_ : List String) :
    (splitAt '/' (join p q)).foldl (resolveSegment false) open_ =
      (splitAt '/' q).foldl (resolveSegment false) ((splitAt '/' p).foldl (resolveSegment false) open_) := by
  have nothing (done : List String) : [""].foldl (resolveSegment false) done = done := rfl
  rw [join, relative, if_neg Bool.false_ne_true]
  by_cases empty : p = ""
  · subst empty
    rw [show splitAt '/' "" = [""] from rfl, nothing]
    simp
  · by_cases ends : p.endsWith "/" = true
    · have suffix := ends
      rw [String.endsWith_eq_endsWith_toSlice, String.Slice.endsWith_string_iff, String.copy_toSlice] at suffix
      obtain ⟨front, split⟩ := suffix
      have whole : p = String.ofList front ++ "/" := by
        rw [← String.toList_inj, String.toList_append, String.toList_ofList, split]
      have alone : splitAt '/' p = splitAt '/' (String.ofList front) ++ [""] := by
        have parts := splitAt_append (String.ofList front) ""
        rwa [String.append_empty, ← whole] at parts
      rw [ends, Bool.or_true, if_pos rfl, alone, List.foldl_append, nothing, ← List.foldl_append,
        ← splitAt_append, ← whole]
    · rw [if_neg (by simp [empty, ends]), splitAt_append, List.foldl_append]

/-- A relative path is resolved from where it starts. -/
theorem normalize_of_relative (relative : p.startsWith "/" = false)
    (leads : (splitAt '/' p).foldl (resolveSegment false) [] = (splitAt '/' q).reverse) (visible : q ≠ "") :
    normalize p = q := by
  have shown : p ≠ "" := by
    rintro rfl
    have none : splitAt '/' q = [] := List.reverse_eq_nil_iff.mp leads.symm
    have whole := intercalate_splitAt q
    rw [none] at whole
    exact visible whole.symm
  have root : rootOf p = "" := by
    have twice : p.startsWith "//" = false := by
      rw [← Bool.not_eq_true, String.startsWith_string_iff] at relative ⊢
      exact fun starts => relative (List.IsPrefix.trans ⟨['/'], rfl⟩ starts)
    simp [rootOf, relative, twice]
  rw [normalize, if_neg (by simpa using shown)]
  simp [root, segments, leads, intercalate_splitAt, visible]

/-! ### Folders -/

/-- A relative path that never leads upward. -/
structure StaysBelow (p : String) : Prop where
  relative : p.startsWith "/" = false
  downward : ".." ∉ splitAt '/' p

/-- The folder of a relative path stands before its last slash. -/
theorem directory_cases (relative : p.startsWith "/" = false) :
    directory p = "" ∨ ∃ rest, p = directory p ++ "/" ++ rest := by
  obtain ⟨tail, after⟩ : ∃ tail, tail = (p.toList.reverse.takeWhile (· != '/')).reverse := ⟨_, rfl⟩
  obtain ⟨back, before⟩ : ∃ back, back = p.toList.reverse.dropWhile (· != '/') := ⟨_, rfl⟩
  obtain ⟨core, inner⟩ : ∃ core, core = (back.dropWhile (· == '/')).reverse := ⟨_, rfl⟩
  obtain ⟨n, slashes⟩ : ∃ n, back.takeWhile (· == '/') = List.replicate n '/' := by
    refine ⟨_, List.eq_replicate_iff.mpr ⟨rfl, fun c mem => ?_⟩⟩
    simpa using List.all_eq_true.mp List.all_takeWhile c mem
  have front : back.reverse = core ++ List.replicate n '/' := by
    rw [inner, ← List.reverse_replicate, ← slashes, ← List.reverse_append, List.takeWhile_append_dropWhile]
  have whole : p.toList = core ++ List.replicate n '/' ++ tail := by
    rw [← front, before, after, ← List.reverse_append, List.takeWhile_append_dropWhile, List.reverse_reverse]
  -- slashes alone before the last segment would make the path an absolute one
  have notAbsolute := relative_iff.mp relative
  rw [directory, ← before, front]
  cases n with
  | zero =>
      have none : back = [] := by
        cases last : back with
        | nil => rfl
        | cons c cs =>
            have isSlash : c = '/' := by
              have first := List.head?_dropWhile_not (· != '/') p.toList.reverse
              rw [← before, last] at first
              simpa using first
            simp [last, isSlash] at slashes
      exact .inl (by rw [← front, none]; rfl)
  | succ n =>
      have named : core.all (· == '/') = false := by
        rw [← Bool.not_eq_true]
        intro all
        cases start : core with
        | nil => exact notAbsolute (List.replicate n '/' ++ tail) (by simp [whole, start, List.replicate_succ])
        | cons c cs =>
            have isSlash : c = '/' := by simpa [start] using (List.all_eq_true.mp all c (by simp [start]))
            exact notAbsolute (cs ++ List.replicate (n + 1) '/' ++ tail) (by simp [whole, start, isSlash])
      refine .inr ⟨String.ofList (List.replicate n '/' ++ tail), ?_⟩
      have trimmed : dropTrailing (· == '/') (core ++ List.replicate (n + 1) '/') = core := by
        rw [← front, dropTrailing, List.reverse_reverse, ← inner]
      rw [if_neg (by simp [named]), trimmed, ← String.toList_inj, whole]
      simp [List.replicate_succ]

theorem StaysBelow.directory (below : StaysBelow p) : StaysBelow (directory p) := by
  obtain empty | ⟨rest, whole⟩ := directory_cases below.relative
  · rw [empty]
    exact ⟨rfl, by decide⟩
  · refine ⟨relative_iff.mpr fun more split => ?_, fun upward => below.downward ?_⟩
    · refine relative_iff.mp below.relative (more ++ '/' :: rest.toList) ?_
      rw [whole]
      simp [split]
    · rw [whole, splitAt_append]
      exact List.mem_append_left _ upward

/-- The path from a folder to a target leads from the one to the other. -/
theorem relative_leads {target start : String} (named : ∀ s ∈ segments false start, IsName s)
    (named' : ∀ s ∈ segments false target, IsName s) (single : ∀ s ∈ segments false target, '/' ∉ s.toList) :
    (splitAt '/' (relative target start)).foldl (resolveSegment false) (segments false start).reverse =
      (segments false target).reverse := by
  obtain ⟨shared, first, second⟩ := dropShared_split (segments false start) (segments false target)
  rw [relative]
  generalize dropShared (segments false start) (segments false target) = split at first second ⊢
  obtain ⟨up, down⟩ := split
  dsimp only at first second ⊢
  rw [first] at named ⊢
  rw [second] at named' single ⊢
  have above : ∀ s ∈ up.reverse, IsName s := fun s mem => named s (by simp_all)
  have below : ∀ s ∈ down, IsName s := fun s mem => named' s (by simp_all)
  have segmented : splitAt '/' (if (up.map (fun _ => "..") ++ down).isEmpty then "."
      else "/".intercalate (up.map (fun _ => "..") ++ down)) =
        if (up.map (fun _ => "..") ++ down).isEmpty then ["."] else up.map (fun _ => "..") ++ down := by
    split
    · rfl
    · rename_i shown
      refine splitAt_intercalate (by simpa using shown) fun s mem => ?_
      obtain mem | mem := List.mem_append.mp mem
      · obtain ⟨_, -, rfl⟩ := List.mem_map.mp mem
        decide
      · exact single s (by simp [mem])
  rw [segmented]
  split
  · simp_all [resolveSegment]
  · have upward := foldl_resolve_upward above shared.reverse
    rw [List.map_reverse, List.map_const', List.reverse_replicate] at upward
    rw [List.foldl_append, List.reverse_append, List.map_const', upward, foldl_resolve_names below,
      List.reverse_append]

end Path

/-- From the folder of the importing module, the path of an import leads to the module that it names. -/
theorem importPath_leads (l : Layout) {origin : String} {target : ArtifactRef}
    (below : Path.StaysBelow origin) (named : ∀ s ∈ splitAt '/' (l.modulePath target), Path.IsName s) :
    ((l.importPath origin target).startsWith "./" = true ∨ (l.importPath origin target).startsWith "../" = true) ∧
      Path.normalize (Path.join (Path.directory origin) (l.importPath origin target)) = l.modulePath target := by
  have folder := below.directory
  obtain ⟨path, made⟩ : ∃ path, path = Path.relative (l.modulePath target) (Path.directory origin) := ⟨_, rfl⟩
  have names : Path.segments false (l.modulePath target) = splitAt '/' (l.modulePath target) := by
    rw [Path.segments, Path.foldl_resolve_names named, List.append_nil, List.reverse_reverse]
  have here : ∀ s ∈ Path.segments false (Path.directory origin), Path.IsName s := fun s mem => by
    rw [Path.segments, Path.foldl_resolve_downward folder.downward] at mem
    simp only [List.append_nil, List.reverse_reverse, List.mem_filter, decide_eq_true_eq] at mem
    exact mem.2
  have there : ∀ s ∈ Path.segments false (l.modulePath target), Path.IsName s := names ▸ named
  have leads := Path.relative_leads here there (fun s mem => Path.notMem_of_mem_splitAt (names ▸ mem))
  rw [names, ← made] at leads
  have visible : l.modulePath target ≠ "" := fun empty => by
    rw [empty] at named
    exact (named "" List.mem_cons_self).1 rfl
  have arrives {path : String} (relative : path.startsWith "/" = false)
      (leads : (splitAt '/' path).foldl (Path.resolveSegment false)
        (Path.segments false (Path.directory origin)).reverse = (splitAt '/' (l.modulePath target)).reverse) :
      Path.normalize (Path.join (Path.directory origin) path) = l.modulePath target := by
    refine Path.normalize_of_relative (Path.join_relative folder.relative relative) ?_ visible
    rw [Path.foldl_resolve_join relative, ← leads, Path.segments, List.reverse_reverse]
  rw [Layout.importPath, ← made]
  split
  · rename_i upward
    refine ⟨.inr upward, arrives ?_ leads⟩
    rw [String.startsWith_string_iff] at upward
    obtain ⟨rest, split⟩ := upward
    exact Path.relative_iff.mpr fun more absolute => by simp [← split] at absolute
  · refine ⟨.inl ?_, arrives ?_ ?_⟩
    · rw [String.startsWith_string_iff, String.toList_append]
      exact List.prefix_append _ _
    · exact Path.relative_iff.mpr fun more absolute => by simp at absolute
    · have dot : ("./" : String) = "." ++ "/" := rfl
      have here : splitAt '/' "." = ["."] := rfl
      rw [dot, Path.splitAt_append, List.foldl_append, here]
      simpa [Path.resolveSegment] using leads

/-- A module deep below the folder of its kind, which another one above it imports. -/
theorem importPath_leads_nested :
    let l : Layout := { preserveStructure := true }
    let origin := "components/shop/cart/Total.tsx"
    let target : ArtifactRef := { category := .components, name := "shop", sourcePath := "" }
    Path.StaysBelow origin ∧ (∀ s ∈ splitAt '/' (l.modulePath target), Path.IsName s) ∧
      l.importPath origin target = "./.." ∧
      Path.normalize (Path.join (Path.directory origin) (l.importPath origin target)) = l.modulePath target := by
  intro l origin target
  have below : Path.StaysBelow origin := ⟨by decide +kernel, by decide +kernel⟩
  have named : ∀ s ∈ splitAt '/' (l.modulePath target), Path.IsName s := by decide +kernel
  exact ⟨below, named, by decide +kernel, (importPath_leads l below named).2⟩

end ReactMigration
