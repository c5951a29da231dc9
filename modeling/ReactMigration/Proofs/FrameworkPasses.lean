import Mathlib.Data.List.TakeWhile
import ReactMigration.Proofs.RecastPasses
import ReactMigration.Proofs.TopLevelParts

/-!
Framework classes are recast in whole stretches.

Calls of the router and the renderer are cut out with their arguments and put back around them; the members of the
route, the host element and the change detector are exchanged for plain words.  Only an index of the query is cut
where its first bracket closes, so it has to be level there.
-/

namespace ReactMigration.Script

variable {P : List Char → Prop} {x y : List Char}

/-! ### Quoted words -/

theorem literalsFrom_quiet {q : Char} (quiet : Quiet x) (quote : isQuote q = true) (read : List Char) :
    literalsFrom (.quoted q) read (x ++ [q]) = [read.reverse ++ (x ++ [q])] := by
  induction x generalizing read with
  | nil =>
      have shown : q ≠ '\\' := by
        rintro rfl
        cases quote
      rw [List.nil_append, literalsFrom_closes (by simp) (by simp [Mode.next, shown])]
      simp [literals, literalsFrom]
  | cons a x ih =>
      have one : Mode.next (.quoted q) a = .quoted q := foldl_quiet (fun b mem => quiet b (by simp_all)) quote (x := [a])
      rw [List.cons_append, literalsFrom_goes (by simp [one]) (by simp), one,
        ih fun b mem => quiet b (List.mem_cons_of_mem a mem)]
      simp

/-- A quoted text is one literal. -/
theorem whole_quoted (quiet : Quiet x) (holds : P ('\'' :: (x ++ ['\'']))) : Whole P ('\'' :: (x ++ ['\''])) := by
  have level : Level ('\'' :: (x ++ ['\''])) := by
    intro o
    rw [scan_cons, next?_quote rfl, Option.bind_some, scan_append, scan_quiet quiet rfl]
    rfl
  refine .of level ⟨level.closed, fun l mem => ?_⟩
  rw [literals, literalsFrom, show Mode.code.next '\'' = .quoted '\'' from rfl, literalsFrom_quiet quiet rfl,
    List.mem_singleton] at mem
  rwa [mem]

/-! ### Parts of a text -/

theorem quotes_parts {separator : Char} (unquoted : isQuote separator = false) {first : List Char}
    {parts : List (List Char)} (closed : ∀ part ∈ first :: parts, modeAfter part = .code)
    (h : Quotes P (first ++ parts.flatMap (separator :: ·))) : ∀ part ∈ first :: parts, Quotes P part := by
  induction parts generalizing first with
  | nil => simpa using h
  | cons second parts ih =>
      obtain ⟨here, rest⟩ := h.split (closed first List.mem_cons_self)
      rw [List.flatMap_cons, List.cons_append] at rest
      have one : Quotes P [separator] := .unquoted (by simpa using unquoted)
      have behind := (Quotes.split (x := [separator]) rest one.closed).2
      intro part mem
      rcases List.mem_cons.mp mem with rfl | mem
      · exact here
      · exact ih (fun part mem => closed part (List.mem_cons_of_mem first mem)) behind part mem

theorem splitTopLevel_whole {separator : Char} (unquoted : isQuote separator = false) {text : String}
    (whole : Whole P text.toList) : ∀ part ∈ splitTopLevel separator text, Whole P part.toList := by
  obtain ⟨first, parts, same, joined⟩ := splitParts_joined separator none none 0 text.toList
  have levels := @splitTopLevel_level separator text whole.level
  rw [splitTopLevel, same] at levels ⊢
  have each (part : List Char) (mem : part ∈ first :: parts) : Level part := by
    have level := levels (String.ofList part) (List.mem_map_of_mem mem)
    rwa [String.toList_ofList] at level
  have quotes := whole.quotes
  rw [joined] at quotes
  intro part mem
  obtain ⟨cs, listed, rfl⟩ := List.mem_map.mp mem
  rw [String.toList_ofList]
  exact .of (each cs listed) (quotes_parts unquoted (fun part mem => (each part mem).closed) quotes cs listed)

end ReactMigration.Script

namespace ReactMigration.Recast

open ReactMigration.Text
open ReactMigration.Text.Pattern (isName)
open ReactMigration.Script
open Recasting (Gives)

variable {I : List Char → Prop} {text name : String}

/-! ### Literals -/

/-- The literal holds no text that a pass looks for. -/
def Unsought (l : List Char) : Prop :=
  ∀ t ∈ soughtTexts, ¬ t.toList <:+: l

instance (l : List Char) : Decidable (Unsought l) :=
  inferInstanceAs (Decidable (∀ t ∈ soughtTexts, ¬ t.toList <:+: l))

theorem unsought_shelters : Shelters Unsought :=
  fun t mem _ held => held t mem

theorem unsought_of {l : List Char} (marks : ∀ a ∈ l, a ≠ '.' ∧ a ≠ '(') : Unsought l := by
  have marked : ∀ t ∈ soughtTexts, '.' ∈ t.toList ∨ '(' ∈ t.toList := by decide
  intro t mem within
  rcases marked t mem with dot | opener
  · exact (marks '.' (within.subset dot)).1 rfl
  · exact (marks '(' (within.subset opener)).2 rfl

/-- A quoted name. -/
theorem whole_key {key : String} (letters : ∀ a ∈ key.toList, isName a = true) :
    Whole Unsought ('\'' :: (key.toList ++ ['\''])) := by
  refine whole_quoted (quiet_of_plain fun a mem => isPlain_of_isName (letters a mem)) (unsought_of fun a mem => ?_)
  rw [List.mem_cons, List.mem_append, List.mem_singleton] at mem
  rcases mem with rfl | mem | rfl
  · decide
  · have letter := letters a mem
    constructor
    · rintro rfl
      revert letter
      decide +kernel
    · rintro rfl
      revert letter
      decide +kernel
  · decide

/-! ### Written calls -/

variable {P : List Char → Prop} {a b c front middle back : String}

/-- A text around an argument. -/
theorem whole_around {s : List Char} (opens : Carries P [] front.toList s) (closes : Carries P s back.toList [])
    (whole : Whole P a.toList) : Whole P (front ++ a ++ back).toList := by
  simp only [String.toList_append]
  exact (opens.append (whole.leads s)).append closes

/-- A call of a member with one argument. -/
theorem whole_call (opens : Carries P [] middle.toList [')']) (ha : Whole P a.toList) (hb : Whole P b.toList) :
    Whole P (a ++ middle ++ b ++ ")").toList := by
  have close : Carries P [')'] ")".toList [] := .text rfl (by decide)
  simp only [String.toList_append]
  exact ((ha.append opens).append (hb.leads _)).append close

/-- A call of a member with two arguments. -/
theorem whole_call₂ (opens : Carries P [] middle.toList [')']) (ha : Whole P a.toList) (hb : Whole P b.toList)
    (hc : Whole P c.toList) : Whole P (a ++ middle ++ b ++ ", " ++ c ++ ")").toList := by
  have comma : Carries P [')'] ", ".toList [')'] := .text rfl (by decide)
  have close : Carries P [')'] ")".toList [] := .text rfl (by decide)
  simp only [String.toList_append]
  exact ((((ha.append opens).append (hb.leads _)).append comma).append (hc.leads _)).append close

theorem whole_listen (ha : Whole P a.toList) (hb : Whole P b.toList) (hc : Whole P c.toList) :
    Whole P ("((target, type, listener) => \x7b target.addEventListener(type, listener); " ++
      "return () => target.removeEventListener(type, listener); \x7d)" ++ s!"({a}, {b}, {c})").toList := by
  have front : Carries P [] "((target, type, listener) => \x7b target.addEventListener(type, listener); ".toList
    ['\x7d', ')'] := .text rfl (by decide)
  have back : Carries P ['\x7d', ')'] "return () => target.removeEventListener(type, listener); \x7d)".toList [] :=
    .text rfl (by decide)
  have opener : Carries P [] "(".toList [')'] := .text rfl (by decide)
  have comma : Carries P [')'] ", ".toList [')'] := .text rfl (by decide)
  have close : Carries P [')'] ")".toList [] := .text rfl (by decide)
  rw [show s!"({a}, {b}, {c})" = "(" ++ a ++ ", " ++ b ++ ", " ++ c ++ ")" from rfl]
  simp only [String.toList_append]
  exact (front.append back).append ((((((opener.append (ha.leads _)).append comma).append (hb.leads _)).append
    comma).append (hc.leads _)).append close)

theorem rendererCall?_whole {method code : String} (ha : Whole P a.toList) (hb : Whole P b.toList)
    (hc : Whole P c.toList) (found : rendererCall? method a b c = some code) : Whole P code.toList := by
  unfold rendererCall? at found
  split at found
  · cases found
    exact whole_call₂ (.text rfl (by decide)) ha hb hc
  · cases found
    exact whole_call (.text rfl (by decide)) ha hb
  · cases found
    exact whole_call (.text rfl (by decide)) ha hb
  · cases found
    exact whole_call (.text rfl (by decide)) ha hb
  · cases found
    exact whole_call₂ (.text rfl (by decide)) ha hb hc
  · cases found
    exact whole_call (.text rfl (by decide)) ha hb
  · cases found
    have opener : Carries P [] "[".toList [']'] := .text rfl (by decide)
    have sign : Carries P [']'] "] = ".toList [] := .text rfl (by decide)
    rw [show s!"{a}[{b}] = {c}" = a ++ "[" ++ b ++ "] = " ++ c from rfl]
    simp only [String.toList_append]
    exact (((ha.append opener).append (hb.leads _)).append sign).append hc
  · cases found
    exact whole_call (.text rfl (by decide)) ha hb
  · cases found
    exact whole_call (.text rfl (by decide)) ha hb
  · cases found
    exact whole_call₂ (.text rfl (by decide)) ha hb hc
  · cases found
    exact whole_around (s := [')']) (.text rfl (by decide)) (.text rfl (by decide)) ha
  · cases found
    exact whole_around (s := [')']) (.text rfl (by decide)) (.text rfl (by decide)) ha
  · cases found
    exact whole_around (s := [')']) (.text rfl (by decide)) (.text rfl (by decide)) ha
  · cases found
    have sign : Carries P [] ".nodeValue = ".toList [] := .text rfl (by decide)
    rw [show s!"{a}.nodeValue = {b}" = a ++ ".nodeValue = " ++ b from rfl]
    simp only [String.toList_append]
    exact (ha.append sign).append hb
  · cases found
    -- the targets that are known by a name
    split
    · exact whole_listen (.plain (List.all_eq_true.mp (by decide))) hb hc
    · exact whole_listen (.plain (List.all_eq_true.mp (by decide))) hb hc
    · exact whole_listen (.plain (List.all_eq_true.mp (by decide))) hb hc
    · exact whole_listen ha hb hc
  · cases found

/-! ### Arguments -/

theorem argumentsOf_whole {inner : List Char} (whole : Whole P inner) : ∀ a ∈ argumentsOf inner, Whole P a.toList := by
  unfold argumentsOf
  dsimp only
  split
  · simp
  · intro a mem
    obtain ⟨part, listed, rfl⟩ := List.mem_map.mp mem
    refine (splitTopLevel_whole rfl ?_ part listed).trim
    rwa [String.toList_ofList]

theorem whole_getD {arguments : List String} (each : ∀ a ∈ arguments, Whole P a.toList) (i : Nat) :
    Whole P (arguments.getD i "").toList := by
  rw [List.getD_eq_getElem?_getD]
  cases found : arguments[i]? with
  | none => exact .nil
  | some a => exact each a (List.mem_of_getElem? found)

/-! ### Classes -/

theorem recastRouter_keeps (F : Frame Unsought I) (plain : IsPlain name) (h : I text.toList) :
    Gives (I ·.toList) (recastRouter text name) := by
  have opener : Carries Unsought [] "navigate(".toList [')'] := .text rfl (by decide)
  have close : Carries Unsought [')'] ")".toList [] := .text rfl (by decide)
  have join : Whole Unsought ".join('/')".toList := by
    have slash : Whole Unsought ('\'' :: (['/'] ++ ['\''])) := by
      refine whole_quoted ?_ (unsought_of ?_)
      · simp [Quiet, isQuote]
      · simp
    have front : Carries Unsought [] ".join(".toList [')'] := .text rfl (by decide)
    exact (front.append (slash.leads _)).append close
  unfold recastRouter
  refine (replaceMemberCalls_keeps F plain unsought_shelters.instanceDot (fun method inner whole => ?_) h).bind
    fun text held => ?_
  · have each := argumentsOf_whole whole
    generalize argumentsOf inner = arguments at each
    split
    · rename_i target rest
      have target_whole := each target List.mem_cons_self
      refine .after fun _ => .pure ?_
      rintro new ⟨⟩
      refine whole_around opener close ?_
      split
      · change Whole Unsought (target ++ ".join('/')").toList
        rw [String.toList_append]
        exact target_whole.append join
      · exact target_whole
    · rename_i target rest
      refine .after fun _ => .pure ?_
      rintro new ⟨⟩
      exact whole_around opener close (each target List.mem_cons_self)
    · exact .after fun _ => .pure (by simp)
  · have url : Passes [] (.text ".url" : Pattern) [] := passes_text (by decide) rfl
    have replaced := (((member_enters plain).before url).before passes_boundary).replace F instanceDot_visible
      unsought_shelters.instanceDot (Carries.text (x := "location.pathname".toList) rfl (by decide)) held
    dsimp only
    split
    · exact .after fun _ => .pure replaced
    · exact .pure held

/-- The text in which indices of the query are looked for. -/
def beforeIndices (text name : String) : String :=
  let route := member name ++ .text ".snapshot"
  let text := replaceGetCalls (route ++ .text ".paramMap.get") (fun a => s!"params[{a}]") text
  let text := (route ++ .text ".params" ++ .boundary).replace "params" text
  replaceGetCalls (route ++ .text ".queryParamMap.get") (fun a => s!"searchParams.get({a})") text

/-- What stands in front of an index of the query. -/
def queryFront (name : String) : List Char :=
  ("this." ++ name).toList ++ ".snapshot".toList ++ ".queryParams[".toList

/-- Up to the first bracket that closes there, every index of the query is level. -/
def IndicesWhole (name text : String) : Prop :=
  ∀ v ∈ text.toList.tails, ∀ rest ∈ dropLead? (queryFront name) v, Level (rest.takeWhile (· != ']'))

instance (name text : String) : Decidable (IndicesWhole name text) :=
  inferInstanceAs (Decidable (∀ v ∈ text.toList.tails, ∀ rest ∈ dropLead? (queryFront name) v,
    Level (rest.takeWhile (· != ']'))))

theorem TakesOnly.both {p q : Pattern} {x y : List Char} (first : TakesOnly p (· = x)) (second : TakesOnly q (· = y)) :
    TakesOnly (p ++ q) (· = x ++ y) :=
  first.seq second fun _ _ same same' => by rw [same, same']

theorem queryIndex_keeps (F : Frame Unsought I) (plain : IsPlain name) (indices : IndicesWhole name text)
    (h : I text.toList) : I ((member name ++ .text ".snapshot" ++ .text ".queryParams[" ++
      .group 1 (.many (· != ']') 1 true) ++ .text "]" : Pattern).replaceWith
        (fun m => "searchParams.get(" ++ m.group 1 ++ ")") text).toList := by
  have snapshot : Passes [] (.text ".snapshot" : Pattern) [] := passes_text (by decide) rfl
  have query : Passes [] (.text ".queryParams[" : Pattern) [']'] := passes_text (by decide) rfl
  have enters := ((member_enters plain).before snapshot).before query
  have only : TakesOnly (member name ++ .text ".snapshot" ++ .text ".queryParams[" : Pattern) (· = queryFront name) :=
    (((takesOnly_boundary.both (takesOnly_text _)).both (takesOnly_text _)).both (takesOnly_text _))
  have visible : TakesOnly (member name ++ .text ".snapshot" ++ .text ".queryParams[" ++
      .group 1 (.many (· != ']') 1 true) ++ .text "]" : Pattern) (· ≠ []) :=
    TakesOnly.seq (fun _ _ _ _ _ _ _ => trivial : TakesOnly _ fun _ => True) (takesOnly_text "]")
      fun x y _ close => by simp [close]
  refine replaceWith_keeps F visible (fun d m ⟨y, reached⟩ found => ?_) h
  obtain ⟨⟨e', i', ⟨e, i, front, g, ⟨⟨inner, spans, open_, -⟩, rfl⟩, rfl⟩, closing⟩, whole, -⟩ :=
    Pattern.matchAt?_eq_some found
  obtain ⟨close, same⟩ := Pattern.text_takes.mp closing
  obtain ⟨x, toIndex⟩ := front.spans
  obtain ⟨⟨quiet, turns⟩, within⟩ := enters front toIndex
  obtain rfl := only front toIndex
  have chars : m.chars = queryFront name ++ (inner ++ "]".toList) :=
    spans_chars whole (toIndex.trans (spans.trans close))
  have group : m.group 1 = String.ofList inner := by
    simp [Match.group, Match.group?, same, spans.after, spans.offset]
  have after : d.after = queryFront name ++ (inner ++ ']' :: m.rest.after) := by
    rw [(toIndex.trans (spans.trans close)).after]
    simp
  have level : Level inner := by
    have listed : d.after ∈ text.toList.tails := by
      rw [List.mem_tails]
      exact ⟨y, reached.after.symm⟩
    have read := indices d.after listed (inner ++ ']' :: m.rest.after) (dropLead?_eq_some_iff.mpr after)
    rwa [List.takeWhile_append_of_pos open_, List.takeWhile_cons_of_neg (by simp), List.append_nil] at read
  have quotes : Quotes Unsought (around d) := by
    rw [around_spans reached]
    exact F.quotes h
  have inCode : modeAt d = .code := by
    rw [around, after] at quotes
    refine quotes.inCode quiet (by simp [queryFront]) fun l held inside => ?_
    exact unsought_shelters.instanceDot l held (within.trans inside)
  have opener : Carries Unsought [] "searchParams.get(".toList [')'] := .text rfl (by decide)
  have closer : Carries Unsought [')'] ")".toList [] := .text rfl (by decide)
  refine ⟨inCode, [], ?_, fun read => ?_⟩
  · rw [chars]
    exact turns.append ((level.turns _).append (turns_of rfl))
  · rw [chars] at read
    rw [group]
    refine whole_around opener closer (.of ?_ ?_)
    · rwa [String.toList_ofList]
    · rw [String.toList_ofList]
      exact ((read.split turns.closed).2.split level.closed).1

theorem queryKey_keeps (F : Frame Unsought I) (plain : IsPlain name) (h : I text.toList) :
    I ((member name ++ .text ".snapshot" ++ .text ".queryParams." ++ .group 1 .name : Pattern).replaceWith
      (fun m => "searchParams.get('" ++ m.group 1 ++ "')") text).toList := by
  have snapshot : Passes [] (.text ".snapshot" : Pattern) [] := passes_text (by decide) rfl
  have query : Passes [] (.text ".queryParams." : Pattern) [] := passes_text (by decide) rfl
  have enters := (((member_enters plain).before snapshot).before query).before (passes_name.group 1)
  refine enters.replaceWith F instanceDot_visible unsought_shelters.instanceDot (fun d m found => ?_) h
  obtain ⟨⟨e, i, front, g, ⟨⟨word, spans, letters, -⟩, rfl⟩, same⟩, -⟩ := Pattern.matchAt?_eq_some found
  have group : m.group 1 = String.ofList word := by
    simp [Match.group, Match.group?, same, spans.after, spans.offset]
  have opener : Carries Unsought [] "searchParams.get(".toList [')'] := .text rfl (by decide)
  have closer : Carries Unsought [')'] ")".toList [] := .text rfl (by decide)
  have key : Whole Unsought ('\'' :: ((String.ofList word).toList ++ ['\''])) := by
    refine whole_key ?_
    rwa [String.toList_ofList]
  have written := (opener.append (key.leads _)).append closer
  rw [group]
  simpa using written

theorem recastRoute_keeps (F : Frame Unsought I) (plain : IsPlain name)
    (indices : IndicesWhole name (beforeIndices text name)) (h : I text.toList) :
    Gives (I ·.toList) (recastRoute text name) := by
  have shelters := unsought_shelters.instanceDot
  have snapshot : Passes [] (.text ".snapshot" : Pattern) [] := passes_text (by decide) rfl
  have route := (member_enters plain).before snapshot
  have path : Passes [] (.text ".paramMap.get" : Pattern) [] := passes_text (by decide) rfl
  have query : Passes [] (.text ".queryParamMap.get" : Pattern) [] := passes_text (by decide) rfl
  have params : Passes [] (.text ".params" : Pattern) [] := passes_text (by decide) rfl
  have dot : Passes [] (.text "." : Pattern) [] := passes_text (by decide) rfl
  have words : Passes [] (.oneOf ["paramMap", "params"] : Pattern) [] := passes_oneOf (by decide)
  have written : Whole Unsought "params".toList := .plain (List.all_eq_true.mp (by decide))
  have before : I (beforeIndices text name).toList := by
    have index : Carries Unsought [] "params[".toList [']'] := .text rfl (by decide)
    have behind : Carries Unsought [']'] "]".toList [] := .text rfl (by decide)
    have opener : Carries Unsought [] "searchParams.get(".toList [')'] := .text rfl (by decide)
    have closer : Carries Unsought [')'] ")".toList [] := .text rfl (by decide)
    have gets := replaceGetCalls_keeps F (route.before path) instanceDot_visible shelters
      (fun a whole => whole_around index behind whole) h
    have plains := ((route.before params).before passes_boundary).replace F instanceDot_visible shelters written gets
    exact replaceGetCalls_keeps F (route.before query) instanceDot_visible shelters
      (fun a whole => whole_around opener closer whole) plains
  have keyed := queryKey_keeps F plain (queryIndex_keeps F plain indices before)
  have streamed := ((((member_enters plain).before dot).before words).before passes_boundary).replace F
    instanceDot_visible shelters written keyed
  unfold recastRoute
  extract_lets _ _ _ _ _ _ _ streams queries
  have ends : Gives (I ·.toList) (streams ()) := by
    unfold streams
    split
    · exact .after fun _ => .after fun _ => .pure streamed
    · exact .pure keyed
  have continues : Gives (I ·.toList) (queries ()) := by
    unfold queries
    split
    · exact .after fun _ => ends
    · exact ends
  split
  · exact .after fun _ => continues
  · exact continues

theorem recastElement_keeps (F : Frame Unsought I) {ctx : RecastContext} (plain : IsPlain name)
    (hosts : ∀ name ref, ctx.elementRefs.get? name = some ref → IsPlain ref) (h : I text.toList) :
    I (recastElement ctx text name).toList := by
  have native : Passes [] (.text ".nativeElement" : Pattern) [] := passes_text (by decide) rfl
  have dot : Passes [] (.text "." : Pattern) [] := passes_text (by decide) rfl
  refine native_keeps F unsought_shelters (((member_enters plain).before native).before dot) plain ?_ h
  unfold hostRef
  cases found : ctx.elementRefs.get? name with
  | none => exact plain
  | some ref => exact hosts name ref found

theorem recastRenderer_keeps (F : Frame Unsought I) (plain : IsPlain name) (h : I text.toList) :
    Gives (I ·.toList) (recastRenderer text name) := by
  refine replaceMemberCalls_keeps F plain unsought_shelters.instanceDot (fun method inner whole => ?_) h
  have each := argumentsOf_whole whole
  split
  · rename_i code found
    refine .pure ?_
    rintro new ⟨⟩
    exact rendererCall?_whole (whole_getD each 0) (whole_getD each 1) (whole_getD each 2) found
  · exact .after fun _ => .pure (by simp)

theorem recastChangeDetector_keeps (F : Frame Unsought I) (plain : IsPlain name) (h : I text.toList) :
    I (recastChangeDetector text name).toList := by
  have indent : Passes [] (.many (fun c => c == ' ' || c == '\t') 0 true : Pattern) [] := by
    refine passes_plain (takesOnly_many.mono fun x blank a mem => ?_)
    obtain rfl | rfl : a = ' ' ∨ a = '\t' := by simpa using blank a mem
    · decide
    · decide
  have dot : Passes [] (.text "." : Pattern) [] := passes_text (by decide) rfl
  have words : Passes [] (.oneOf ["detectChanges", "markForCheck", "detach", "reattach", "checkNoChanges"] : Pattern)
    [] := passes_oneOf (by decide)
  have call : Passes [] (.text "()" : Pattern) [] := passes_text (by decide) rfl
  have ends : Passes [] (.text ";" : Pattern) [] := passes_text (by decide) rfl
  have enters := (((((Enters.behind indent (member_enters plain)).before dot).before words).before call).before
    passes_blanks).before ends.opt
  exact enters.replace F instanceDot_visible unsought_shelters.instanceDot Whole.nil h

/-! ### Dependencies -/

/-- The current route is injected. -/
def IsRoute (injected : Injected) : Prop :=
  injected.kind = .builtin ∧ toLower injected.typeName = "activatedroute"

variable {ctx : RecastContext}

theorem recastDependency_keeps (F : Frame Unsought I) {dep : String × Injected} (plain : IsPlain dep.1)
    (hosts : ∀ name ref, ctx.elementRefs.get? name = some ref → IsPlain ref)
    (indices : IsRoute dep.2 → IndicesWhole dep.1 (beforeIndices text dep.1)) (h : I text.toList) :
    Gives (I ·.toList) (recastDependency ctx text dep) := by
  unfold recastDependency
  dsimp only
  split
  · exact .pure h
  · rename_i builtin
    split
    · exact recastRouter_keeps F plain h
    · rename_i route
      exact recastRoute_keeps F plain (indices ⟨by simpa using builtin, route⟩) h
    · exact .pure (recastElement_keeps F plain hosts h)
    · exact recastRenderer_keeps F plain h
    · exact .pure (recastChangeDetector_keeps F plain h)
    · exact .pure h

/-- Wherever the route is recast, every index of the query is level. -/
def RoutesWhole (ctx : RecastContext) : List (String × Injected) → String → Prop
  | [], _ => True
  | dep :: deps, text =>
      (IsRoute dep.2 → IndicesWhole dep.1 (beforeIndices text dep.1)) ∧
        RoutesWhole ctx deps ((recastDependency ctx text dep).run {}).1

theorem dependencies_keep (F : Frame Unsought I) {deps : List (String × Injected)}
    (plain : ∀ dep ∈ deps, IsPlain dep.1) (hosts : ∀ name ref, ctx.elementRefs.get? name = some ref → IsPlain ref)
    (routes : RoutesWhole ctx deps text) (h : I text.toList) :
    Gives (I ·.toList) (deps.foldlM (recastDependency ctx) text) := by
  induction deps generalizing text with
  | nil => exact .pure h
  | cons dep deps ih =>
      obtain ⟨indices, further⟩ := routes
      rw [List.foldlM_cons]
      intro n
      have held := recastDependency_keeps F (plain dep List.mem_cons_self) hosts indices h n
      rw [recastDependency_blind ctx text dep n {}] at held
      have rest := ih (fun d mem => plain d (List.mem_cons_of_mem dep mem)) further held
      rw [← recastDependency_blind ctx text dep n {}] at rest
      exact rest _

end ReactMigration.Recast
