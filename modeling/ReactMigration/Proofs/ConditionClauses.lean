import ReactMigration.Proofs.Bracketing
import ReactMigration.Proofs.References
import ReactMigration.Template.Value

/-!
Conditions and their branches.

A condition may be followed by clauses that name the templates for its two outcomes.  Such a clause is also
searched for within the condition itself, in names and strings too; so the condition comes through as it is
exactly if it nowhere reads like a clause.
-/

namespace ReactMigration.Template

open ReactMigration.Text
open ReactMigration.Script (Balanced scan splitParts consPart)

/-! ### Heads and ends -/

/-- White space that shows. -/
def IsGap (x : List Char) : Prop :=
  x ≠ [] ∧ ∀ c ∈ x, isBlank c = true

/-- `let item of items`. -/
def IsLoop (x : List Char) : Prop :=
  ∃ gap item gap' gap'' items, IsGap gap ∧ IsWord item ∧ IsGap gap' ∧ IsGap gap'' ∧ items ≠ [] ∧
    x = "let".toList ++ (gap ++ (item ++ (gap' ++ ("of".toList ++ (gap'' ++ items)))))

/-- `… as name`. -/
def EndsInAlias (x : List Char) : Prop :=
  ∃ front gap gap' name, IsGap gap ∧ IsGap gap' ∧ IsWord name ∧ x = front ++ (gap ++ ("as".toList ++ (gap' ++ name)))

/-- The words that name a branch. -/
def IsBranchKey (key : List Char) : Prop :=
  key = "then".toList ∨ key = "else".toList

/-- Somewhere a branch is named: a word begins with `then` or `else`, and up to white space and a colon another
word character follows. -/
def NamesBranch (x : List Char) : Prop :=
  ∃ front key gap colon gap' c rest, (∀ d ∈ front.getLast?, isWord d = false) ∧ IsBranchKey key ∧
    (∀ d ∈ gap, isBlank d = true) ∧ (colon = [] ∨ colon = [':']) ∧ (∀ d ∈ gap', isBlank d = true) ∧
    isWord c = true ∧ x = front ++ (key ++ (gap ++ (colon ++ (gap' ++ c :: rest))))

theorem dropBlanks1?_eq_some {cs rest : List Char} (h : dropBlanks1? cs = some rest) :
    ∃ gap, IsGap gap ∧ cs = gap ++ rest := by
  cases cs with
  | nil => cases h
  | cons c cs =>
      rw [dropBlanks1?] at h
      split at h
      · rename_i blank
        cases h
        refine ⟨c :: cs.takeWhile isBlank, ⟨by simp, ?_⟩, by simp [List.takeWhile_append_dropWhile]⟩
        simpa [blank] using List.all_eq_true.mp (List.all_takeWhile (p := isBlank) (l := cs))
      · cases h

theorem dropKeyword?_eq_some {keyword : String} {cs rest : List Char} (h : dropKeyword? keyword cs = some rest) :
    ∃ gap, IsGap gap ∧ cs = keyword.toList ++ (gap ++ rest) := by
  rw [dropKeyword?] at h
  split at h
  · rename_i c more dropped
    have shows : dropBlanks1? (c :: more) = some rest := by simpa [dropBlanks1?] using h
    obtain ⟨gap, blank, split⟩ := dropBlanks1?_eq_some shows
    exact ⟨gap, blank, by rw [dropLead?_eq_some_iff.mp dropped, split]⟩
  · cases h

theorem takeWord?_eq_some {cs word rest : List Char} (h : takeWord? cs = some (word, rest)) :
    IsWord word ∧ cs = word ++ rest := by
  rw [takeWord?] at h
  split at h
  · cases h
  · rename_i visible
    cases h
    exact ⟨⟨visible, List.all_eq_true.mp List.all_takeWhile⟩, List.takeWhile_append_dropWhile.symm⟩

theorem isLoop_of_loopHead? {s : String} {head : String × String} (h : loopHead? s = some head) : IsLoop s.toList := by
  simp only [loopHead?, Option.bind_eq_bind, Option.bind_eq_some_iff] at h
  obtain ⟨x, opens, ⟨item, y⟩, word, z, blank, items, of_, h⟩ := h
  obtain ⟨gap, first, split⟩ := dropKeyword?_eq_some opens
  obtain ⟨named, rfl⟩ := takeWord?_eq_some word
  obtain ⟨gap', second, rfl⟩ := dropBlanks1?_eq_some blank
  obtain ⟨gap'', third, rfl⟩ := dropKeyword?_eq_some of_
  refine ⟨gap, item, gap', gap'', items, first, named, second, third, ?_, split⟩
  rintro rfl
  cases h

theorem endsInAlias_of_aliasEnd? {s : String} {a : String × String} (h : aliasEnd? s = some a) :
    EndsInAlias s.toList := by
  simp only [aliasEnd?, Option.bind_eq_bind, Option.bind_eq_some_iff] at h
  obtain ⟨⟨name, y⟩, word, z, blank, x, as_, front, blank', -⟩ := h
  obtain ⟨named, split⟩ := takeWord?_eq_some word
  obtain ⟨gap', second, rfl⟩ := dropBlanks1?_eq_some blank
  obtain rfl := dropLead?_eq_some_iff.mp as_
  obtain ⟨gap, first, rfl⟩ := dropBlanks1?_eq_some blank'
  have reversed {P : Char → Bool} {x : List Char} (all : ∀ c ∈ x, P c = true) : ∀ c ∈ x.reverse, P c = true :=
    fun c mem => all c (List.mem_reverse.mp mem)
  refine ⟨front.reverse, gap.reverse, gap'.reverse, name.reverse, ⟨by simpa using first.1, reversed first.2⟩,
    ⟨by simpa using second.1, reversed second.2⟩, ⟨by simpa using named.visible, reversed named.letters⟩, ?_⟩
  rw [← List.reverse_reverse s.toList, split]
  simp

theorem not_isBlank_of_mem_word {w : List Char} (word : IsWord w) {c : Char} (mem : c ∈ w) : isBlank c = false :=
  Pattern.not_isBlank_of_isName (isName_of_isWord (word.letters c mem))

/-! ### Parts -/

/-- Balanced text that no semicolon divides outside brackets and strings. -/
def Undivided (x : List Char) : Prop :=
  Balanced x ∧ ∀ u v, x = u ++ ';' :: v → scan (.code, []) u ≠ some (.code, [])

theorem Undivided.split {x : List Char} (h : Undivided x) (previous : Option Char) :
    splitParts ';' previous none 0 x = [x] := by
  obtain ⟨previous', same⟩ := (Script.splitParts_inside [] x).1 previous none [] h.1 h.2
  simpa [splitParts, Script.foldr_consPart] using same

theorem Undivided.split_append {x : List Char} (h : Undivided x) (previous : Option Char) (rest : List Char) :
    splitParts ';' previous none 0 (x ++ ';' :: rest) = x :: splitParts ';' (some ';') none 0 rest := by
  obtain ⟨previous', same⟩ := (Script.splitParts_inside (';' :: rest) x).1 previous none [] h.1 h.2
  have here : splitParts ';' previous' none 0 (';' :: rest) = [] :: splitParts ';' (some ';') none 0 rest := by
    simp [splitParts, Script.isQuote, Script.isOpener, Script.closer?, Script.isCloser, Script.splitsHere]
  simpa [here, Script.foldr_consPart] using same

/-- A clause that names a branch. -/
def branchClause (key w : List Char) : List Char :=
  key ++ ' ' :: w

theorem undivided_branchClause {key w : List Char} (named : IsBranchKey key) (word : IsWord w) :
    Undivided (' ' :: branchClause key w) := by
  have plain : ∀ c ∈ ' ' :: branchClause key w, Script.isPlain c = true ∧ c ≠ ';' := by
    have all : (' ' :: (key ++ [' '])).all (fun c => Script.isPlain c && c != ';') = true := by
      obtain rfl | rfl := named <;> decide +kernel
    have known : ∀ c ∈ ' ' :: (key ++ [' ']), Script.isPlain c = true ∧ c ≠ ';' := fun c mem => by
      simpa using List.all_eq_true.mp all c mem
    intro c mem
    simp only [branchClause, List.mem_cons, List.mem_append] at mem
    obtain rfl | mem | rfl | mem := mem
    · exact known _ (by simp)
    · exact known c (by simp [mem])
    · exact known _ (by simp)
    · refine ⟨Script.isPlain_of_isName (isName_of_isWord (word.letters c mem)), ?_⟩
      rintro rfl
      exact absurd (word.letters _ mem) (by decide)
  refine ⟨Script.Level.plain (fun c mem => (plain c mem).1) [], fun u v same => ?_⟩
  exact absurd rfl (plain ';' (by rw [same]; simp)).2

theorem trim_branchClause {key w : List Char} (named : IsBranchKey key) (word : IsWord w) :
    trim (String.ofList (' ' :: branchClause key w)) = String.ofList (branchClause key w) := by
  have front : (' ' :: branchClause key w).dropWhile isBlank = branchClause key w := by
    obtain rfl | rfl := named <;> rfl
  obtain ⟨c, z, last⟩ := List.exists_cons_of_ne_nil (List.reverse_ne_nil_iff.mpr word.visible)
  have visible : isBlank c = false := not_isBlank_of_mem_word word (List.mem_reverse.mp (last ▸ List.mem_cons_self))
  have back : (branchClause key w).reverse = c :: (z ++ ' ' :: key.reverse) := by
    rw [branchClause, List.reverse_append, List.reverse_cons, last]
    simp
  rw [trim, String.toList_ofList, stripWith, front, dropTrailing, back, List.dropWhile_cons_of_neg (by simp [visible]),
    ← back, List.reverse_reverse]

/-! ### Clauses that name a branch -/

theorem IsBranchKey.isWord {key : List Char} (named : IsBranchKey key) : IsWord key := by
  obtain rfl | rfl := named <;> exact .ofAll (by decide) (by decide)

theorem IsBranchKey.length {key : List Char} (named : IsBranchKey key) : key.length = 4 := by
  obtain rfl | rfl := named <;> rfl

theorem branchKey_takes {c d : Cursor} {g h : Pattern.Captures} :
    (Pattern.oneOf ["then", "else"]).Takes c g d h ↔ (∃ key, IsBranchKey key ∧ c.Spans key d) ∧ h = g := by
  rw [Pattern.oneOf_takes]
  refine and_congr_left fun _ => ⟨fun ⟨s, mem, spans⟩ => ⟨s.toList, ?_, spans⟩, fun ⟨key, named, spans⟩ => ?_⟩
  · obtain rfl | rfl : s = "then" ∨ s = "else" := by simpa using mem
    · exact .inl rfl
    · exact .inr rfl
  · obtain rfl | rfl := named
    · exact ⟨"then", by simp, spans⟩
    · exact ⟨"else", by simp, spans⟩

theorem branchPattern_takes {c d : Cursor} {g h : Pattern.Captures} :
    branchPattern.Takes c g d h ↔
      ∃ key gap colon gap' w, NotNext isWord c.before ∧ IsBranchKey key ∧ (∀ a ∈ gap, isBlank a = true) ∧
        (colon = [] ∨ colon = [':']) ∧ (∀ a ∈ gap', isBlank a = true) ∧ IsWord w ∧
        c.Spans (key ++ (gap ++ (colon ++ (gap' ++ w)))) d ∧ h = (2, w) :: (1, key) :: g := by
  constructor
  · rintro ⟨e, _, ⟨e', _, ⟨f, _, ⟨f', _, ⟨b, _, ⟨rfl, rfl, bound⟩, _, keyed, rfl⟩, ⟨gap, toColon, blank, -⟩, rfl⟩,
      marked⟩, ⟨gap', toWord, blank', -⟩, rfl⟩, _, ⟨⟨w, toEnd, letters, visible⟩, rfl⟩, rfl⟩
    obtain ⟨⟨key, branch, named⟩, rfl⟩ := branchKey_takes.mp keyed
    have start := (atBoundary_of_word branch.isWord named).mp bound
    have word : IsWord w := ⟨List.length_pos_iff.mp visible, letters⟩
    have taken {colon : List Char} (passed : f.Spans colon e') := named.trans (toColon.trans (passed.trans (toWord.trans toEnd)))
    rw [captured_eq toEnd]
    rw [captured_eq named] at marked
    rcases Pattern.opt_takes.mp marked with mark | ⟨rfl, rfl⟩
    · obtain ⟨passed, rfl⟩ := Pattern.text_takes.mp mark
      exact ⟨key, gap, [':'], gap', w, start, branch, blank, .inr rfl, blank', word, taken passed, rfl⟩
    · exact ⟨key, gap, [], gap', w, start, branch, blank, .inl rfl, blank', word, taken (.refl _), rfl⟩
  · rintro ⟨key, gap, colon, gap', w, start, branch, blank, sign, blank', word, spans, rfl⟩
    obtain ⟨f', named, spans⟩ := spans_append spans
    obtain ⟨f, toColon, spans⟩ := spans_append spans
    obtain ⟨e', passed, spans⟩ := spans_append spans
    obtain ⟨e, toWord, toEnd⟩ := spans_append spans
    have keyed := branchKey_takes.mpr ⟨⟨key, branch, named⟩, Eq.refl g⟩
    have marked : (Pattern.opt (.text ":")).Takes f ((1, key) :: g) e' ((1, key) :: g) := by
      obtain rfl | rfl := sign
      · exact Pattern.opt_takes.mpr (.inr ⟨passed.unique (.refl f), rfl⟩)
      · exact Pattern.opt_takes.mpr (.inl (Pattern.text_takes.mpr ⟨passed, rfl⟩))
    exact ⟨e, _, ⟨e', _, ⟨f, _, ⟨f', _, ⟨c, g, ⟨rfl, rfl, (atBoundary_of_word branch.isWord named).mpr start⟩, g, keyed,
      by rw [captured_eq named]⟩, ⟨gap, toColon, blank, Nat.zero_le _⟩, rfl⟩, marked⟩,
      ⟨gap', toWord, blank', Nat.zero_le _⟩, rfl⟩, _,
      ⟨⟨w, toEnd, word.letters, List.length_pos_iff.mpr word.visible⟩, rfl⟩, by rw [captured_eq toEnd]⟩

theorem branchPattern_steady : branchPattern.Steady := by
  simp [branchPattern, Pattern.Steady, Pattern.word, Pattern.blanks]

/-- A clause is read with its whole name. -/
theorem branchPattern_run {key w : List Char} (named : IsBranchKey key) (word : IsWord w) {c d : Cursor}
    (start : NotNext isWord c.before) (spans : c.Spans (branchClause key w) d) (ends : NotNext isWord d.after)
    {k : Pattern.Continuation} {r : Cursor × Pattern.Captures} (found : k d [(2, w), (1, key)] = some r) :
    branchPattern.run c [] k = some r := by
  obtain ⟨f', toGap, spans⟩ := spans_append spans
  obtain ⟨f, toWord, toEnd⟩ := spans_append (x := [' ']) spans
  obtain ⟨a, z, rfl, letter⟩ := word.head
  have after : f.after = a :: (z ++ d.after) := toEnd.after
  have visible : isBlank a = false := not_isBlank_of_mem_word word List.mem_cons_self
  have noMark : a ≠ ':' := by
    rintro rfl
    cases letter
  have last : (Pattern.group 2 Pattern.word).run f [(1, key)] k = some r := by
    have whole : f.after.takeWhile isWord = a :: z := by
      rw [toEnd.after, takeWhile_append_of_notNext (List.all_eq_true.mpr word.letters) ends]
    refine Pattern.runMany_longest (c := f) (d := d) (by rwa [whole]) (by simp [whole]) ?_
    rw [captured_eq toEnd]
    exact found
  have noGap : Pattern.blanks.run f [(1, key)] (fun c g => (Pattern.group 2 Pattern.word).run c g k) = some r := by
    have none_ : f.after.takeWhile isBlank = [] := by simp [after, visible]
    exact Pattern.runMany_longest (d := f) (by rw [none_]; exact .refl f) (Nat.zero_le _) last
  have unmarked : (Pattern.opt (.text ":")).run f [(1, key)]
      (fun c g => Pattern.blanks.run c g fun c g => (Pattern.group 2 Pattern.word).run c g k) = some r := by
    refine Pattern.run_of_unique (by simp) (Pattern.opt_takes.mpr (.inr ⟨rfl, rfl⟩)) (fun e i taken => ?_) noGap
    refine (Pattern.opt_takes.mp taken).resolve_left fun mark => ?_
    have colon := (Pattern.text_takes.mp mark).1.after
    rw [after] at colon
    exact noMark (List.cons.inj colon).1
  have gap : Pattern.blanks.run f' [(1, key)] (fun c g => (Pattern.opt (.text ":")).run c g fun c g =>
      Pattern.blanks.run c g fun c g => (Pattern.group 2 Pattern.word).run c g k) = some r := by
    have single : f'.after.takeWhile isBlank = [' '] := by
      rw [toWord.after, after]
      simp [visible, show isBlank ' ' = true from rfl]
    exact Pattern.runMany_longest (d := f) (by rwa [single]) (Nat.zero_le _) unmarked
  have keyed : (Pattern.group 1 (.oneOf ["then", "else"])).run c [] (fun c g => Pattern.blanks.run c g fun c g =>
      (Pattern.opt (.text ":")).run c g fun c g => Pattern.blanks.run c g fun c g =>
        (Pattern.group 2 Pattern.word).run c g k) = some r := by
    refine Pattern.run_of_unique (d := f') (h := [(1, key)]) (by simp [Pattern.Steady]) ?_ (fun e i taken => ?_) gap
    · exact ⟨[], branchKey_takes.mpr ⟨⟨key, named, toGap⟩, rfl⟩, by rw [captured_eq toGap]⟩
    · obtain ⟨_, taken, rfl⟩ := taken
      obtain ⟨⟨key', named', spans'⟩, rfl⟩ := branchKey_takes.mp taken
      obtain ⟨rfl, -⟩ := List.append_inj (spans'.after.symm.trans toGap.after) (named'.length.trans named.length.symm)
      exact ⟨spans'.unique toGap, by rw [captured_eq spans']⟩
  have bound := (atBoundary_of_word named.isWord toGap).mpr start
  exact (if_pos bound).trans keyed

/-- A clause takes characters. -/
theorem branchPattern_shorter {c : Cursor} {m : Match} (found : branchPattern.matchAt? c = some m) :
    m.rest.after.length < c.after.length := by
  obtain ⟨taken, -⟩ := Pattern.matchAt?_eq_some found
  obtain ⟨key, gap, colon, gap', w, -, named, -, -, -, -, spans, -⟩ := branchPattern_takes.mp taken
  exact spans.shorter (by simp [named.isWord.visible])

theorem branchPattern_visible (c : Cursor) (m : Match) (found : branchPattern.matchAt? c = some m) : m.chars ≠ [] := by
  intro empty
  have shorter := branchPattern_shorter found
  have spans := (Pattern.matchAt?_eq_some found).2.1
  rw [empty] at spans
  rw [spans.unique (.refl c)] at shorter
  exact Nat.lt_irrefl _ shorter

/-- The clause is found, and nothing else. -/
theorem findAll_branchClause {key w : List Char} (named : IsBranchKey key) (word : IsWord w) :
    ∃ m, branchPattern.findAll (String.ofList (branchClause key w)) = [m] ∧ m.group 1 = String.ofList key ∧
      m.group 2 = String.ofList w := by
  have spans : (Cursor.start (branchClause key w)).Spans (branchClause key w) _ :=
    Cursor.spans_advance (List.append_nil _).symm
  have empty := spans.remaining (List.append_nil _).symm
  generalize (Cursor.start (branchClause key w)).advance (branchClause key w).length = d at spans empty
  have ran := branchPattern_run named word (k := fun c g => some (c, g)) (by simp [Cursor.start, NotNext]) spans
    (by simp [empty, NotNext]) rfl
  obtain ⟨m, found, groups, rfl⟩ := Pattern.matchAt?_of_run ran
  have nothing : branchPattern.searchAt? m.rest = none := by
    cases search : branchPattern.searchAt? m.rest with
    | none => rfl
    | some m' =>
        obtain ⟨x, e, reached, here, -⟩ := Pattern.searchAt?_eq_some search
        have shorter := branchPattern_shorter here
        have length := reached.length
        rw [empty, List.length_nil] at length
        omega
  refine ⟨m, ?_, by simp [Match.group, Match.group?, groups], by simp [Match.group, Match.group?, groups]⟩
  rw [Pattern.findAll, String.toList_ofList, Pattern.matchesWithin_matched found (branchPattern_visible _ m found),
    Pattern.matchesWithin_unmatched nothing]

/-- The text names a branch exactly if such a clause is found in it. -/
theorem findAll_branchPattern_eq_nil_iff {s : String} : branchPattern.findAll s = [] ↔ ¬NamesBranch s.toList := by
  rw [Pattern.findAll_eq_nil_iff, ← Bool.not_eq_true, Pattern.occurs_iff branchPattern_steady]
  refine not_congr ⟨?_, ?_⟩
  · rintro ⟨front, c, d, h, reached, taken⟩
    obtain ⟨key, gap, colon, gap', w, start, named, blank, sign, blank', word, spans, -⟩ := branchPattern_takes.mp taken
    obtain ⟨a, z, rfl, letter⟩ := word.head
    refine ⟨front, key, gap, colon, gap', a, z ++ d.after, fun b mem => start b ?_, named, blank, sign, blank', letter, ?_⟩
    · rw [reached.before]
      simpa [Cursor.start] using mem
    · have whole : s.toList = front ++ c.after := reached.after
      rw [whole, spans.after]
      simp
  · rintro ⟨front, key, gap, colon, gap', a, rest, start, named, blank, sign, blank', letter, whole⟩
    have reached := Cursor.spans_advance (c := .start s.toList) whole
    generalize (Cursor.start s.toList).advance front.length = c at reached
    have after : c.after = (key ++ (gap ++ (colon ++ (gap' ++ [a])))) ++ rest := by
      rw [reached.remaining whole]
      simp
    refine ⟨front, c, _, _, reached, branchPattern_takes.mpr ⟨key, gap, colon, gap', [a], ?_, named, blank, sign, blank',
      .ofAll (by simp) (by simpa using letter), Cursor.spans_advance after, rfl⟩⟩
    intro b mem
    rw [reached.before] at mem
    exact start b (by simpa [Cursor.start] using mem)

theorem length_replace_branchPattern {s : String} (named : NamesBranch s.toList) :
    (branchPattern.replace "" s).length < s.length := by
  have found : branchPattern.occurs s = true := by
    rw [← Bool.not_eq_false]
    exact fun none => findAll_branchPattern_eq_nil_iff.mp (Pattern.findAll_eq_nil_iff.mpr none) named
  obtain ⟨x, c, d, h, reached, taken⟩ := (Pattern.occurs_iff branchPattern_steady).mp found
  have walk : branchPattern.Sweeps (fun _ => []) (.start s.toList) (branchPattern.replace "" s).toList :=
    Pattern.replaceWith_sweeps branchPattern_visible (fun _ => "") s
  have shorter := (walk.shorter branchPattern_visible).2 x c reached
    (Pattern.matchAt?_isSome branchPattern_steady ⟨d, h, taken⟩)
  rw [← String.length_toList, ← String.length_toList]
  exact shorter

/-! ### Conditions with branches -/

theorem countP_branchClause {key w : List Char} (named : IsBranchKey key) (word : IsWord w) :
    (branchClause key w).countP isBlank = 1 := by
  have letters {x : List Char} (word : IsWord x) : x.countP isBlank = 0 :=
    List.countP_eq_zero.mpr fun a mem => by simp [not_isBlank_of_mem_word word mem]
  rw [branchClause, List.countP_append, List.countP_cons_of_pos rfl, letters named.isWord, letters word]

theorem asClause?_branchClause {key w : List Char} (named : IsBranchKey key) (word : IsWord w) :
    asClause? (String.ofList (branchClause key w)) = none := by
  cases read : asClause? (String.ofList (branchClause key w)) with
  | none => rfl
  | some a =>
      simp only [asClause?, Option.bind_eq_bind, Option.bind_eq_some_iff, String.toList_ofList] at read
      obtain ⟨⟨source, x⟩, first, y, blank, z, second, -⟩ := read
      obtain ⟨-, split⟩ := takeWord?_eq_some first
      obtain ⟨gap, shows, rfl⟩ := dropBlanks1?_eq_some blank
      obtain ⟨gap', shows', rfl⟩ := dropKeyword?_eq_some second
      -- there would be two stretches of white space, and there is only one blank
      have some_ {gap : List Char} (shows : IsGap gap) : 0 < gap.countP isBlank := by
        obtain ⟨a, z, rfl⟩ := List.exists_cons_of_ne_nil shows.1
        rw [List.countP_cons_of_pos (shows.2 a List.mem_cons_self)]
        omega
      have count := countP_branchClause named word
      rw [split] at count
      simp only [List.countP_append] at count
      have := some_ shows
      have := some_ shows'
      omega

theorem readClause_branchClause (m : Clauses) {key w : List Char} (named : IsBranchKey key) (word : IsWord w) :
    readClause "ngIf" m (String.ofList (branchClause key w)) =
      if key = "then".toList then { m with thenRef := some (String.ofList w) }
      else { m with elseRef := some (String.ofList w) } := by
  have noLet : letClause? (String.ofList (branchClause key w)) = none := by
    rw [letClause?, String.toList_ofList]
    obtain rfl | rfl := named <;> rfl
  obtain ⟨b, found, first, second⟩ := findAll_branchClause named word
  rw [readClause, noLet, asClause?_branchClause named word, found]
  simp only [List.isEmpty_cons, Clauses.setBranches, first, second]
  obtain rfl | rfl := named <;> rfl

theorem setBranches_expression (m : Clauses) (bs : List Match) : (m.setBranches bs).expression = m.expression := by
  induction bs generalizing m with
  | nil => rfl
  | cons b bs ih =>
      rw [Clauses.setBranches, ih]
      split <;> rfl

theorem length_trim_le (s : String) : (trim s).length ≤ s.length := by
  have back (cs : List Char) : (dropTrailing isBlank cs).length ≤ cs.length := by
    simpa [dropTrailing] using (List.dropWhile_sublist isBlank (l := cs.reverse)).length_le
  have front := (List.dropWhile_sublist isBlank (l := s.toList)).length_le
  have whole := back (s.toList.dropWhile isBlank)
  rw [← String.length_toList, ← String.length_toList, trim, String.toList_ofList, stripWith]
  omega

/-- A condition that is no loop and has no alias is the expression, without the clauses that are found in it. -/
theorem readHead_condition {c : String} (noLoop : ¬IsLoop c.toList)
    (noAlias : ¬EndsInAlias c.toList) :
    (NamesBranch c.toList → (readHead "ngIf" c).expression ≠ c) ∧
      (¬NamesBranch c.toList → readHead "ngIf" c = { expression := c }) := by
  have loop : loopHead? c = none := Option.eq_none_iff_forall_ne_some.mpr fun _ found => noLoop (isLoop_of_loopHead? found)
  have alias_ : aliasEnd? c = none :=
    Option.eq_none_iff_forall_ne_some.mpr fun _ found => noAlias (endsInAlias_of_aliasEnd? found)
  rw [readHead, loop, alias_]
  refine ⟨fun named => ?_, fun unnamed => ?_⟩
  · have found : (branchPattern.findAll c).isEmpty = false :=
      List.isEmpty_eq_false_iff.mpr fun none => findAll_branchPattern_eq_nil_iff.mp none named
    simp only [found, show isCondition "ngIf" = true from rfl, Bool.not_false, Bool.and_self, if_true,
      setBranches_expression]
    intro same
    have shorter := length_replace_branchPattern named
    have stripped := length_trim_le (branchPattern.replace "" c)
    rw [same] at stripped
    omega
  · rw [findAll_branchPattern_eq_nil_iff.mpr unnamed]
    rfl

/-- The clauses of a condition are the condition and the clauses that name its branches. -/
theorem statements_branches {c : String} (trimmed : trim c = c) (shows : c ≠ "") (undivided : Undivided c.toList)
    {t f : List Char} (thenWord : IsWord t) (elseWord : IsWord f) :
    Script.statements c = [c] ∧
      Script.statements (c ++ "; then " ++ String.ofList t ++ "; else " ++ String.ofList f) =
        [c, String.ofList (branchClause "then".toList t), String.ofList (branchClause "else".toList f)] := by
  have texts : "; then ".toList = ';' :: ' ' :: ("then".toList ++ [' ']) ∧
      "; else ".toList = ';' :: ' ' :: ("else".toList ++ [' ']) := ⟨rfl, rfl⟩
  have then_ := undivided_branchClause (.inl rfl) thenWord
  have else_ := undivided_branchClause (.inr rfl) elseWord
  have whole : (c ++ "; then " ++ String.ofList t ++ "; else " ++ String.ofList f).toList =
      c.toList ++ ';' :: (' ' :: branchClause "then".toList t ++ ';' :: (' ' :: branchClause "else".toList f)) := by
    simp [texts, branchClause]
  have visible (key w : List Char) : String.ofList (branchClause key w) ≠ "" := by
    intro empty
    have := congrArg String.toList empty
    simp [branchClause] at this
  constructor
  · rw [Script.statements, Script.splitTopLevel, undivided.split]
    simp [trimmed, shows]
  · rw [Script.statements, Script.splitTopLevel, whole, undivided.split_append, then_.split_append, else_.split]
    simp only [List.map_cons, List.map_nil, String.ofList_toList, trimmed, trim_branchClause (.inl rfl) thenWord,
      trim_branchClause (.inr rfl) elseWord]
    simp [shows, visible]

/-- A condition comes through as it is, alone and with its two branches, exactly if no branch is named within it. -/
theorem parseClauses_condition_iff {c t f : String} (trimmed : trim c = c) (shows : c ≠ "")
    (balanced : Script.findUnbalanced c = none)
    (undivided : ∀ u v, c.toList = u ++ ';' :: v → scan (.code, []) u ≠ some (.code, []))
    (noLoop : ¬IsLoop c.toList) (noAlias : ¬EndsInAlias c.toList) (thenWord : IsWord t.toList)
    (elseWord : IsWord f.toList) :
    (parseClauses "ngIf" c = { expression := c } ↔ ¬NamesBranch c.toList) ∧
      (parseClauses "ngIf" (c ++ "; then " ++ t ++ "; else " ++ f) =
        { expression := c, thenRef := some t, elseRef := some f } ↔ ¬NamesBranch c.toList) := by
  obtain ⟨alone, branched⟩ := statements_branches trimmed shows ⟨Script.findUnbalanced_eq_none.mp balanced, undivided⟩
    thenWord elseWord
  simp only [String.ofList_toList] at branched
  have read (m : Clauses) : [String.ofList (branchClause "then".toList t.toList),
      String.ofList (branchClause "else".toList f.toList)].foldl (readClause "ngIf") m =
        { m with thenRef := some t, elseRef := some f } := by
    simp only [List.foldl_cons, List.foldl_nil]
    rw [readClause_branchClause m (.inl rfl) thenWord, if_pos rfl, readClause_branchClause _ (.inr rfl) elseWord,
      if_neg (by decide), String.ofList_toList, String.ofList_toList]
  obtain ⟨changed, kept⟩ := readHead_condition noLoop noAlias
  rw [parseClauses, parseClauses, alone, branched]
  simp only [List.foldl_nil, read]
  refine ⟨⟨fun same named => changed named (by rw [same]), kept⟩,
    ⟨fun same named => changed named (congrArg Clauses.expression same), fun unnamed => by rw [kept unnamed]⟩⟩

/-- A branch word in a string names no branch if no word follows it. -/
theorem parseClauses_condition_quoted :
    parseClauses "ngIf" "kind === 'then;' && ready" = { expression := "kind === 'then;' && ready" } ∧
      parseClauses "ngIf" ("kind === 'then;' && ready" ++ "; then " ++ "yes" ++ "; else " ++ "no") =
        { expression := "kind === 'then;' && ready", thenRef := some "yes", elseRef := some "no" } := by
  generalize written : "kind === 'then;' && ready" = c
  have places : ∀ n < 25, (c.toList.drop n).head? = some ';' →
      scan (.code, []) (c.toList.take n) ≠ some (.code, []) := written ▸ by decide +kernel
  have length : c.length = 25 := written ▸ by decide +kernel
  have unnamed : ¬NamesBranch c.toList := findAll_branchPattern_eq_nil_iff.mp
    (List.isEmpty_iff.mp (written ▸ by decide +kernel))
  have read := parseClauses_condition_iff (c := c) (t := "yes") (f := "no") (written ▸ by decide +kernel)
    (written ▸ by decide) (written ▸ by decide +kernel) ?undivided ?noLoop ?noAlias (.ofAll (by decide) (by decide))
    (.ofAll (by decide) (by decide))
  · exact ⟨read.1.mpr unnamed, read.2.mpr unnamed⟩
  case undivided =>
    intro u v same
    have inside : u.length < 25 := by
      have := congrArg List.length same
      simp only [List.length_append, List.length_cons, String.length_toList] at this
      omega
    have here := places u.length inside
    rw [same, List.drop_left, List.take_left] at here
    exact here rfl
  case noLoop =>
    rintro ⟨gap, item, gap', gap'', items, -, -, -, -, -, same⟩
    rw [← written] at same
    exact absurd (List.cons.inj same).1 (by decide)
  case noAlias =>
    rintro ⟨front, gap, gap', name, -, -, -, same⟩
    have mem : 's' ∈ c.toList := by
      rw [same]
      simp
    exact absurd mem (written ▸ by decide +kernel)

/-- The word stands by itself somewhere in the text. -/
def StandsAlone (w x : List Char) : Prop :=
  ∃ front rest, (∀ d ∈ front.getLast?, isWord d = false) ∧ NotNext isWord rest ∧ x = front ++ (w ++ rest)

/-- A name that begins like a branch is taken for one, though neither word stands by itself. -/
theorem parseClauses_thenable :
    trim "thenable" = "thenable" ∧ Script.findUnbalanced "thenable" = none ∧ ';' ∉ "thenable".toList ∧
      ¬IsLoop "thenable".toList ∧ ¬EndsInAlias "thenable".toList ∧
      (∀ key, IsBranchKey key → ¬StandsAlone key "thenable".toList) ∧
      parseClauses "ngIf" "thenable" = { expression := "", thenRef := some "able" } := by
  refine ⟨by decide +kernel, by decide +kernel, by decide, ?_, ?_, ?_, by decide +kernel⟩
  · rintro ⟨gap, item, gap', gap'', items, -, -, -, -, -, same⟩
    exact absurd (List.cons.inj same).1 (by decide)
  · rintro ⟨front, gap, gap', name, -, -, -, same⟩
    have mem : 's' ∈ "thenable".toList := by
      rw [same]
      simp
    exact absurd mem (by decide)
  · rintro key named ⟨front, rest, opens, ends, same⟩
    have letters : ∀ c ∈ "thenable".toList, isWord c = true := List.all_eq_true.mp (by decide +kernel)
    have noFront : front = [] := by
      refine List.getLast?_eq_none_iff.mp (Option.eq_none_iff_forall_not_mem.mpr fun d mem => ?_)
      have := letters d (by rw [same]; simp [List.mem_of_getLast? mem])
      simp [opens d mem] at this
    have noRest : rest = [] := by
      refine List.head?_eq_none_iff.mp (Option.eq_none_iff_forall_not_mem.mpr fun d mem => ?_)
      have := letters d (by rw [same]; simp [List.mem_of_head? mem])
      simp [ends d mem] at this
    have length := congrArg List.length same
    rw [noFront, noRest, List.append_nil, List.nil_append, named.length] at length
    exact absurd length (by decide)

end ReactMigration.Template
