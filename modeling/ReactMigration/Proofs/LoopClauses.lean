import ReactMigration.Proofs.ConditionClauses
import ReactMigration.Proofs.Index
import ReactMigration.Proofs.TextPositions

/-!
Loops and their clauses.

A loop names its item and its items, then the names that it binds beside the item, and how its items are told
apart.  However these are chosen, each comes out of the text as it was put in.
-/

namespace ReactMigration

open ReactMigration.Text

namespace Table

variable {α : Type}

theorem set_of_notMem {t : Table α} {key : String} (value : α) (fresh : key ∉ t.keys) :
    t.set key value = t ++ [(key, value)] := by
  induction t with
  | nil => rfl
  | cons entry t ih =>
      obtain ⟨other, later⟩ : key ≠ entry.1 ∧ key ∉ keys t := by simpa [keys] using fresh
      have apart : (entry.1 == key) = false := beq_eq_false_iff_ne.mpr (Ne.symm other)
      rw [set, if_neg (by simp [apart]), ih later]
      rfl

end Table

namespace Template

open ReactMigration.Script (Balanced scan splitParts consPart)

/-! ### Texts without white space at their ends -/

/-- The text neither starts nor ends with white space. -/
structure Trimmed (x : List Char) : Prop where
  front : NotNext isBlank x
  back : NotNext isBlank x.reverse

theorem Trimmed.strip {x : List Char} (h : Trimmed x) : stripWith isBlank x = x := by
  rw [stripWith, dropWhile_of_notNext h.front, dropTrailing, dropWhile_of_notNext h.back, List.reverse_reverse]

theorem Trimmed.trim {s : String} (h : Trimmed s.toList) : trim s = s := by
  rw [Text.trim, h.strip, String.ofList_toList]

/-- What trimming leaves is trimmed. -/
theorem trimmed_of_trim {s : String} (same : Text.trim s = s) : Trimmed s.toList := by
  have kept : stripWith isBlank s.toList = s.toList := by
    rw [← String.toList_ofList (l := stripWith isBlank s.toList), ← Text.trim, same]
  refine ⟨fun c first => Bool.eq_false_iff.mpr fun blank => ?_, ?_⟩
  · obtain ⟨rest, whole⟩ := List.head?_eq_some_iff.mp first
    have inner : Text.trim s = Text.trim (String.ofList rest) := by
      rw [Text.trim, whole, ← List.singleton_append, stripWith_append_left (by simpa using blank), Text.trim,
        String.toList_ofList]
    have shorter := length_trim_le (String.ofList rest)
    rw [← inner, same, ← String.length_toList, whole, String.length_ofList, List.length_cons] at shorter
    omega
  · rw [← kept, stripWith, dropTrailing, List.reverse_reverse]
    exact notNext_dropWhile _ _

/-- Between trimmed ends there may be anything. -/
theorem Trimmed.around {x y : List Char} (first : Trimmed x) (visible : x ≠ []) (last : Trimmed y)
    (visible' : y ≠ []) (mid : List Char) : Trimmed (x ++ (mid ++ y)) := by
  refine ⟨?_, ?_⟩
  · rw [NotNext, List.head?_append_of_ne_nil _ visible]
    exact first.front
  · have turned : (x ++ (mid ++ y)).reverse = y.reverse ++ (mid.reverse ++ x.reverse) := by simp
    rw [turned, NotNext, List.head?_append_of_ne_nil _ (List.reverse_ne_nil_iff.mpr visible')]
    exact last.back

theorem notNext_cons {p : Char → Bool} {c : Char} {rest : List Char} (other : p c = false) : NotNext p (c :: rest) := by
  simpa [NotNext] using other

theorem trimmed_word {w : List Char} (word : IsWord w) : Trimmed w :=
  ⟨fun _ mem => not_isBlank_of_mem_word word (List.mem_of_head? mem),
    fun _ mem => not_isBlank_of_mem_word word (List.mem_reverse.mp (List.mem_of_head? mem))⟩

/-! ### Joined clauses -/

/-- Characters that neither delimit strings and brackets nor separate clauses. -/
def Plain (x : List Char) : Prop :=
  ∀ c ∈ x, Script.isPlain c = true ∧ c ≠ ';'

instance (x : List Char) : Decidable (Plain x) :=
  List.decidableBAll _ x

theorem Plain.append {x y : List Char} (first : Plain x) (second : Plain y) : Plain (x ++ y) :=
  List.forall_mem_append.mpr ⟨first, second⟩

theorem plain_word {w : List Char} (word : IsWord w) : Plain w := by
  intro c mem
  refine ⟨Script.isPlain_of_isName (isName_of_isWord (word.letters c mem)), ?_⟩
  rintro rfl
  exact absurd (word.letters _ mem) (by decide)

theorem Undivided.prepend {x y : List Char} (plain : Plain x) (h : Undivided y) :
    Undivided (x ++ y) := by
  have level := Script.Level.plain fun c mem => (plain c mem).1
  refine ⟨level.append h.1.level [], fun u v same => ?_⟩
  obtain ⟨u', rfl, rest⟩ | ⟨v', front, back⟩ := List.append_eq_append_iff.mp same
  · rw [Script.scan_append, level, Option.bind_some]
    exact h.2 u' v rest
  · cases v' with
    | nil => exact absurd rfl (h.2 [] v back.symm)
    | cons c v' =>
        obtain ⟨rfl, -⟩ := List.cons.inj back
        exact absurd rfl (plain ';' (by simp [front])).2

theorem Plain.undivided {x : List Char} (plain : Plain x) : Undivided x := by
  have empty : Undivided [] := ⟨rfl, fun u v same => by simp at same⟩
  simpa using empty.prepend plain

/-- Texts that are joined by semicolons are split into these texts again. -/
theorem splitParts_joined (previous : Option Char) {x : List Char} {rest : List (List Char)}
    (undivided : ∀ y ∈ x :: rest, Undivided y) :
    splitParts ';' previous none 0 ([';', ' '].intercalate (x :: rest)) = x :: rest.map (' ' :: ·) := by
  induction rest generalizing previous x with
  | nil => simpa [List.intercalate] using (undivided x List.mem_cons_self).split previous
  | cons y rest ih =>
      have joined : [';', ' '].intercalate (x :: y :: rest) =
          x ++ ';' :: ' ' :: [';', ' '].intercalate (y :: rest) := by
        simp [List.intercalate]
      have inner := ih (some ' ') fun z mem => undivided z (List.mem_cons_of_mem x mem)
      rw [joined, (undivided x List.mem_cons_self).split_append]
      simp [splitParts, Script.isQuote, Script.isOpener, Script.closer?, Script.isCloser, inner, consPart]

theorem trim_space (s : String) : Text.trim (String.ofList (' ' :: s.toList)) = Text.trim s := by
  rw [Text.trim, String.toList_ofList, ← List.singleton_append,
    stripWith_append_left (List.all_eq_true.mp (by decide)), ← Text.trim]

/-- A clause in its own right: visible up to its ends and undivided. -/
structure IsClause (s : String) : Prop where
  trimmed : Text.trim s = s
  visible : s ≠ ""
  undivided : Undivided s.toList

theorem isClause_around {s : String} {x mid y : List Char} (whole : s.toList = x ++ (mid ++ y)) (first : Trimmed x)
    (visible : x ≠ []) (plain : Plain (x ++ mid)) (last : Trimmed y) (visible' : y ≠ []) (undivided : Undivided y) :
    IsClause s where
  trimmed := Trimmed.trim (whole ▸ first.around visible last visible' mid)
  visible empty := by
    rw [empty] at whole
    exact visible (List.append_eq_nil_iff.mp whole.symm).1
  undivided := by
    rw [whole, ← List.append_assoc]
    exact undivided.prepend plain

theorem statements_joined {first : String} {rest : List String} (clauses : ∀ s ∈ first :: rest, IsClause s) :
    Script.statements ("; ".intercalate (first :: rest)) = first :: rest := by
  have split : splitParts ';' none none 0 ("; ".intercalate (first :: rest)).toList =
      first.toList :: (rest.map String.toList).map (' ' :: ·) := by
    rw [String.toList_intercalate, List.map_cons]
    refine splitParts_joined none fun y mem => ?_
    obtain ⟨s, listed, rfl⟩ := List.mem_map.mp (List.map_cons.symm ▸ mem)
    exact (clauses s listed).undivided
  have shown : ((first.toList :: (rest.map String.toList).map (' ' :: ·)).map String.ofList).map Text.trim =
      first :: rest := by
    have led : rest.map (fun s => Text.trim (String.ofList (' ' :: s.toList))) = rest := by
      refine (List.map_congr_left fun s mem => ?_).trans (List.map_id rest)
      rw [trim_space, (clauses s (List.mem_cons_of_mem first mem)).trimmed, id]
    simpa [Function.comp_def, (clauses first List.mem_cons_self).trimmed] using led
  rw [Script.statements, Script.splitTopLevel, split, shown, List.filter_eq_self]
  exact fun s mem => decide_eq_true (clauses s mem).visible

/-! ### The words of a clause -/

theorem breakOn?_char {c : Char} {x : List Char} (rest : List Char) (apart : c ∉ x) :
    breakOn? [c] (x ++ c :: rest) = some (x, rest) := by
  induction x with
  | nil => simp [breakOn?, dropLead?]
  | cons d x ih =>
      obtain ⟨other, later⟩ : c ≠ d ∧ c ∉ x := by simpa using apart
      have kept : dropLead? [c] (d :: (x ++ c :: rest)) = none := by simp [dropLead?, Ne.symm other]
      rw [List.cons_append, breakOn?, kept, ih later]
      rfl

theorem dropKeyword?_append {keyword : String} {rest : List Char} (shows : NotNext isBlank rest) :
    dropKeyword? keyword (keyword.toList ++ ' ' :: rest) = some rest := by
  rw [dropKeyword?, dropLead?_eq_some_iff.mpr rfl]
  simp [dropWhile_of_notNext shows, show isBlank ' ' = true from rfl]

theorem takeWord?_append {w rest : List Char} (word : IsWord w) (ends : NotNext isWord rest) :
    takeWord? (w ++ rest) = some (w, rest) := by
  obtain ⟨a, z, rfl, -⟩ := word.head
  have whole := takeWhile_append_of_notNext (List.all_eq_true.mpr word.letters) ends
  rw [takeWord?, whole, List.dropWhile_append_of_pos word.letters, dropWhile_of_notNext ends]

theorem takeWord?_word {w : List Char} (word : IsWord w) : takeWord? w = some (w, []) := by
  have ends : NotNext isWord [] := by simp [NotNext]
  simpa using takeWord?_append word ends

theorem notNext_word {w rest : List Char} (word : IsWord w) : NotNext isBlank (w ++ rest) := by
  rw [NotNext, List.head?_append_of_ne_nil _ word.visible]
  exact (trimmed_word word).front

theorem mem_of_letClause? {s : String} {a : String × String} (read : letClause? s = some a) : '=' ∈ s.toList := by
  simp only [letClause?, Option.bind_eq_bind, Option.bind_eq_some_iff] at read
  obtain ⟨x, keyword, ⟨name, y⟩, word, read⟩ := read
  obtain ⟨gap, -, whole⟩ := dropKeyword?_eq_some keyword
  obtain ⟨-, rfl⟩ := takeWord?_eq_some word
  dsimp only at read
  split at read
  · rename_i rest sign
    have mem : '=' ∈ y := (List.dropWhile_sublist isBlank).mem (by rw [sign]; exact List.mem_cons_self)
    simp [whole, mem]
  · cases read

/-! ### Names that a loop binds -/

/-- A name that a loop binds beside its item, in one of the two spellings. -/
inductive LocalClause where
  | bound (name source : String)
  | given (source name : String)

namespace LocalClause

def name : LocalClause → String
  | bound name _ => name
  | given _ name => name

def source : LocalClause → String
  | bound _ source => source
  | given source _ => source

def text : LocalClause → String
  | bound name source => "let " ++ name ++ " = " ++ source
  | given source name => source ++ " as " ++ name

/-- Name and source are words. -/
structure IsSound (l : LocalClause) : Prop where
  name : IsWord l.name.toList
  source : IsWord l.source.toList

theorem toList_bound (name source : String) :
    (bound name source).text.toList = "let".toList ++ ' ' :: (name.toList ++ ' ' :: '=' :: ' ' :: source.toList) := by
  have parts : "let ".toList = "let".toList ++ [' '] ∧ " = ".toList = [' ', '=', ' '] := ⟨rfl, rfl⟩
  simp [text, parts]

theorem toList_given (source name : String) :
    (given source name).text.toList = source.toList ++ ' ' :: ("as".toList ++ ' ' :: name.toList) := by
  have parts : " as ".toList = ' ' :: ("as".toList ++ [' ']) := rfl
  simp [text, parts]

theorem IsSound.clause {l : LocalClause} (sound : l.IsSound) : IsClause l.text := by
  cases l with
  | bound name source =>
      have word : IsWord name.toList := sound.name
      have word' : IsWord source.toList := sound.source
      have plain : Plain ("let".toList ++ (" ".toList ++ (name.toList ++ " = ".toList))) :=
        .append (by decide +kernel) (.append (by decide +kernel) (.append (plain_word word) (by decide +kernel)))
      exact isClause_around (by simp [toList_bound]) ⟨by decide, by decide⟩ (by decide) plain (trimmed_word word')
        word'.visible (plain_word word').undivided
  | given source name =>
      have word : IsWord name.toList := sound.name
      have word' : IsWord source.toList := sound.source
      exact isClause_around (by simp [toList_given]) (trimmed_word word') word'.visible
        ((plain_word word').append (by decide +kernel : Plain " as ".toList)) (trimmed_word word) word.visible
        (plain_word word).undivided

theorem letClause?_bound {name source : String} (word : IsWord name.toList) (word' : IsWord source.toList) :
    letClause? (bound name source).text = some (name, source) := by
  have first : dropKeyword? "let" (bound name source).text.toList =
      some (name.toList ++ ' ' :: '=' :: ' ' :: source.toList) := by
    rw [toList_bound, dropKeyword?_append (notNext_word word)]
  have second : takeWord? (name.toList ++ ' ' :: '=' :: ' ' :: source.toList) =
      some (name.toList, ' ' :: '=' :: ' ' :: source.toList) :=
    takeWord?_append word (notNext_cons rfl)
  have sign : (' ' :: '=' :: ' ' :: source.toList).dropWhile isBlank = '=' :: ' ' :: source.toList := rfl
  have third : (' ' :: source.toList).dropWhile isBlank = source.toList :=
    dropWhile_of_notNext (trimmed_word word').front
  simp only [letClause?, first, second, sign, third, takeWord?_word word', Option.bind_eq_bind, Option.bind_some,
    List.isEmpty_nil, if_true, String.ofList_toList]

theorem letClause?_given {source name : String} (word : IsWord name.toList) (word' : IsWord source.toList) :
    letClause? (given source name).text = none := by
  refine Option.eq_none_iff_forall_ne_some.mpr fun a read => ?_
  have mem := mem_of_letClause? read
  have letters {w : List Char} (word : IsWord w) : '=' ∉ w := fun mem =>
    absurd (word.letters _ mem) (by decide)
  rw [toList_given] at mem
  simp [letters word, letters word'] at mem

theorem asClause?_given {source name : String} (word : IsWord name.toList) (word' : IsWord source.toList) :
    asClause? (given source name).text = some (name, source) := by
  have first : takeWord? (given source name).text.toList =
      some (source.toList, ' ' :: ("as".toList ++ ' ' :: name.toList)) := by
    rw [toList_given]
    exact takeWord?_append word' (notNext_cons rfl)
  have gap : dropBlanks1? (' ' :: ("as".toList ++ ' ' :: name.toList)) = some ("as".toList ++ ' ' :: name.toList) :=
    rfl
  simp only [asClause?, first, gap, dropKeyword?_append (trimmed_word word).front, takeWord?_word word,
    Option.bind_eq_bind, Option.bind_some, List.isEmpty_nil, if_true, String.ofList_toList]

/-- A clause that binds a name adds it behind the others. -/
theorem readClause_text (directive : String) (m : Clauses) {l : LocalClause} (sound : l.IsSound) :
    readClause directive m l.text = { m with locals := m.locals.set l.name l.source } := by
  cases l with
  | bound name source =>
      have read : letClause? (bound name source).text = some (name, source) := letClause?_bound sound.name sound.source
      rw [readClause, read]
      rfl
  | given source name =>
      have unread : letClause? (given source name).text = none := letClause?_given sound.name sound.source
      have read : asClause? (given source name).text = some (name, source) := asClause?_given sound.name sound.source
      rw [readClause, unread, read]
      rfl

theorem foldl_readClause (directive : String) (m : Clauses) {ls : List LocalClause} (sound : ∀ l ∈ ls, l.IsSound)
    (distinct : (m.locals.keys ++ ls.map name).Nodup) :
    (ls.map text).foldl (readClause directive) m =
      { m with locals := m.locals ++ ls.map fun l => (l.name, l.source) } := by
  induction ls generalizing m with
  | nil => simp
  | cons l ls ih =>
      obtain ⟨here, later⟩ := List.forall_mem_cons.mp sound
      have fresh : l.name ∉ m.locals.keys := fun mem =>
        (List.nodup_append.mp distinct).2.2 _ mem _ (List.mem_cons_self) rfl
      rw [List.map_cons, List.foldl_cons, readClause_text directive m here, Table.set_of_notMem _ fresh]
      rw [ih _ later (by simpa [Table.keys] using distinct)]
      simp

end LocalClause

/-! ### Loops -/

/-- An expression that a clause can hold. -/
structure IsOperand (e : String) : Prop where
  trimmed : Text.trim e = e
  visible : e ≠ ""
  balanced : Script.findUnbalanced e = none
  /-- No semicolon stands outside brackets and strings. -/
  undivided : ∀ u v, e.toList = u ++ ';' :: v → scan (.code, []) u ≠ some (.code, [])

theorem IsOperand.text {e : String} (h : IsOperand e) : Trimmed e.toList ∧ e.toList ≠ [] ∧ Undivided e.toList :=
  ⟨trimmed_of_trim h.trimmed, by simpa using h.visible, Script.findUnbalanced_eq_none.mp h.balanced, h.undivided⟩

/-- The text of a loop's head. -/
def loopHead (item e : String) : String :=
  "let " ++ item ++ " of " ++ e

/-- The text of the clause that tells items apart. -/
def trackClause (t : String) : String :=
  "trackBy: " ++ t

/-- The text of a loop. -/
def loopText (item e : String) (locals : List LocalClause) (trackBy : Option String) : String :=
  "; ".intercalate (loopHead item e :: (locals.map LocalClause.text ++ trackBy.toList.map trackClause))

theorem toList_loopHead (item e : String) :
    (loopHead item e).toList = "let".toList ++ ' ' :: (item.toList ++ ' ' :: ("of".toList ++ ' ' :: e.toList)) := by
  have parts : "let ".toList = "let".toList ++ [' '] ∧ " of ".toList = ' ' :: ("of".toList ++ [' ']) := ⟨rfl, rfl⟩
  simp [loopHead, parts]

theorem toList_trackClause (t : String) :
    (trackClause t).toList = "trackBy".toList ++ ':' :: ' ' :: t.toList := by
  have parts : "trackBy: ".toList = "trackBy".toList ++ [':', ' '] := rfl
  simp [trackClause, parts]

theorem isClause_loopHead {item e : String} (word : IsWord item.toList) (operand : IsOperand e) :
    IsClause (loopHead item e) := by
  obtain ⟨trimmed, visible, undivided⟩ := operand.text
  have plain : Plain ("let".toList ++ (" ".toList ++ (item.toList ++ " of ".toList))) :=
    .append (by decide +kernel) (.append (by decide +kernel) (.append (plain_word word) (by decide +kernel)))
  exact isClause_around (by simp [toList_loopHead]) ⟨by decide, by decide⟩ (by decide) plain trimmed visible undivided

theorem isClause_trackClause {t : String} (operand : IsOperand t) : IsClause (trackClause t) := by
  obtain ⟨trimmed, visible, undivided⟩ := operand.text
  have plain : Plain ("trackBy".toList ++ ": ".toList) := by decide +kernel
  exact isClause_around (by simp [toList_trackClause]) ⟨by decide, by decide⟩ (by decide) plain trimmed visible
    undivided

theorem loopHead?_loopHead {item e : String} (word : IsWord item.toList) (operand : IsOperand e) :
    loopHead? (loopHead item e) = some (item, e) := by
  obtain ⟨trimmed, visible, -⟩ := operand.text
  have first : dropKeyword? "let" (loopHead item e).toList =
      some (item.toList ++ ' ' :: ("of".toList ++ ' ' :: e.toList)) := by
    rw [toList_loopHead, dropKeyword?_append (notNext_word word)]
  have second : takeWord? (item.toList ++ ' ' :: ("of".toList ++ ' ' :: e.toList)) =
      some (item.toList, ' ' :: ("of".toList ++ ' ' :: e.toList)) :=
    takeWord?_append word (notNext_cons rfl)
  have gap : dropBlanks1? (' ' :: ("of".toList ++ ' ' :: e.toList)) = some ("of".toList ++ ' ' :: e.toList) := rfl
  simp only [loopHead?, first, second, gap, dropKeyword?_append trimmed.front, Option.bind_eq_bind, Option.bind_some,
    List.isEmpty_iff, if_neg visible, String.ofList_toList, operand.trimmed]

theorem readClause_trackClause {directive : String} (other : isCondition directive = false) (m : Clauses) {t : String}
    (operand : IsOperand t) : readClause directive m (trackClause t) = { m with trackBy := some t } := by
  have noLet : letClause? (trackClause t) = none := by
    rw [letClause?, toList_trackClause]
    rfl
  have word : IsWord "trackBy".toList := .ofAll (by decide) (by decide)
  have noAs : asClause? (trackClause t) = none := by
    have first : takeWord? (trackClause t).toList = some ("trackBy".toList, ':' :: ' ' :: t.toList) := by
      rw [toList_trackClause]
      exact takeWord?_append word (notNext_cons rfl)
    have stop : dropBlanks1? (':' :: ' ' :: t.toList) = none := rfl
    rw [asClause?, first, Option.bind_eq_bind, Option.bind_some]
    dsimp only
    rw [stop]
    rfl
  have keyed : keyed? (trackClause t) = some ("trackBy", t) := by
    have broken : breakOn? [':'] (trackClause t).toList = some ("trackBy".toList, ' ' :: t.toList) := by
      rw [toList_trackClause]
      exact breakOn?_char _ (by decide)
    rw [keyed?, broken]
    dsimp only
    rw [trim_space, operand.trimmed]
    rfl
  rw [readClause, noLet, noAs]
  dsimp only
  rw [other, Bool.and_false, if_neg Bool.false_ne_true, keyed]
  exact if_pos rfl

/-- A loop gives back its item, its items, the names that it binds in their order, and how items are told apart. -/
theorem parseClauses_loop {item e : String} {locals : List LocalClause} {trackBy : Option String}
    (word : IsWord item.toList) (items : IsOperand e) (sound : ∀ l ∈ locals, l.IsSound)
    (distinct : (locals.map LocalClause.name).Nodup) (tracked : ∀ t ∈ trackBy, IsOperand t) :
    parseClauses "ngFor" (loopText item e locals trackBy) =
      { expression := e, item := some item, locals := locals.map fun l => (l.name, l.source), trackBy } := by
  have clauses : ∀ s ∈ loopHead item e :: (locals.map LocalClause.text ++ trackBy.toList.map trackClause),
      IsClause s := by
    intro s mem
    obtain rfl | mem := List.mem_cons.mp mem
    · exact isClause_loopHead word items
    · obtain mem | mem := List.mem_append.mp mem
      · obtain ⟨l, listed, rfl⟩ := List.mem_map.mp mem
        exact (sound l listed).clause
      · obtain ⟨t, given, rfl⟩ := List.mem_map.mp mem
        exact isClause_trackClause (tracked t (Option.mem_toList.mp given))
  have head : readHead "ngFor" (loopHead item e) = { expression := e, item := some item } := by
    rw [readHead, loopHead?_loopHead word items]
  have bound := LocalClause.foldl_readClause "ngFor" { expression := e, item := some item } sound
    (by simpa [Table.keys] using distinct)
  rw [parseClauses, loopText, statements_joined clauses]
  dsimp only
  rw [head, List.foldl_append, bound, List.nil_append]
  cases trackBy with
  | none => rfl
  | some t => exact readClause_trackClause rfl _ (tracked t rfl)

/-- It is enough to look at the places where a semicolon stands. -/
theorem undivided_of_places {x : List Char}
    (places : ∀ n < x.length, (x.drop n).head? = some ';' → scan (.code, []) (x.take n) ≠ some (.code, [])) :
    ∀ u v, x = u ++ ';' :: v → scan (.code, []) u ≠ some (.code, []) := by
  rintro u v rfl
  simpa using places u.length (by simp)

/-- Semicolons in brackets and strings, and words that look like clauses, stay within the expressions. -/
theorem parseClauses_loop_nested :
    parseClauses "ngFor"
        "let of of rows['a;b'].map(r => \x7b r; let as; \x7d) as all; let i = index; let as last; trackBy: by[';'](of)" =
      { expression := "rows['a;b'].map(r => \x7b r; let as; \x7d) as all", item := some "of",
        locals := [("i", "index"), ("last", "let")], trackBy := some "by[';'](of)" } := by
  have word (w : String) (visible : w.toList ≠ []) (letters : w.toList.all isWord = true) : IsWord w.toList :=
    .ofAll visible letters
  have items : IsOperand "rows['a;b'].map(r => \x7b r; let as; \x7d) as all" :=
    ⟨by decide +kernel, by decide, by decide +kernel, undivided_of_places (by decide +kernel)⟩
  have tracked : IsOperand "by[';'](of)" :=
    ⟨by decide +kernel, by decide, by decide +kernel, undivided_of_places (by decide +kernel)⟩
  have index : (LocalClause.bound "i" "index").IsSound :=
    ⟨word "i" (by decide) (by decide), word "index" (by decide) (by decide)⟩
  have last : (LocalClause.given "let" "last").IsSound :=
    ⟨word "last" (by decide) (by decide), word "let" (by decide) (by decide)⟩
  have text : loopText "of" "rows['a;b'].map(r => \x7b r; let as; \x7d) as all" [.bound "i" "index", .given "let" "last"]
      (some "by[';'](of)") =
      "let of of rows['a;b'].map(r => \x7b r; let as; \x7d) as all; let i = index; let as last; trackBy: by[';'](of)" := by
    decide +kernel
  rw [← text]
  exact parseClauses_loop (word "of" (by decide) (by decide)) items
    (List.forall_mem_cons.mpr ⟨index, List.forall_mem_singleton.mpr last⟩) (by decide) (by simpa using tracked)

end Template

end ReactMigration
