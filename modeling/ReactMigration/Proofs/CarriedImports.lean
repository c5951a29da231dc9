import ReactMigration.Proofs.ImportBindings
import ReactMigration.Proofs.MemberRules
import ReactMigration.Proofs.ParsedFiles
import ReactMigration.Proofs.References

/-!
The imports of a source file that its generated modules take over.

A module binds a name of its source file to the same export if it takes imports over, the name is seen in
its text, and the import gives the export no other name; of default imports and imports of whole modules
only the last one from each module is kept, and none of the view library that markup needs.  A use is
overlooked where it is spread, and where the name ends in a character that is no part of words.
-/

namespace ReactMigration

open ReactMigration.Text
open ReactMigration.Text.Pattern (isName isPath atBoundary)
open ReactMigration.Recast (meetsWord atBoundary_behind)

/-! ### Local names -/

/-- The name has no blanks in it. -/
def Blankless (name : String) : Prop :=
  ∀ a ∈ name.toList, isBlank a = false

instance (name : String) : Decidable (Blankless name) :=
  decidable_of_iff (name.toList.any isBlank = false) (by simp [Blankless])

section Names

variable {p : Pattern} {c : Cursor} {n s : String}

theorem Blankless.trim (h : Blankless n) : trim n = n := by
  have visible {cs : List Char} (h : ∀ a ∈ cs, isBlank a = false) : cs.dropWhile isBlank = cs := by
    cases cs with
    | nil => rfl
    | cons a cs => rw [List.dropWhile_cons_of_neg (by simp [h a List.mem_cons_self])]
  rw [Text.trim, stripWith, dropTrailing, visible h, visible fun a mem => h a (List.mem_reverse.mp mem),
    List.reverse_reverse, String.ofList_toList]

/-- The separator of an import's name from its local name does not occur in text without blanks. -/
theorem searchAt?_separator (blankless : ∀ a ∈ c.after, isBlank a = false) :
    (Pattern.text " as ").searchAt? c = none := by
  cases found : (Pattern.text " as ").searchAt? c with
  | none => rfl
  | some m =>
      obtain ⟨x, d, reached, here, -⟩ := Pattern.searchAt?_eq_some found
      have spans := (Pattern.text_takes.mp (Pattern.matchAt?_eq_some here).1).1
      have := blankless ' ' (by rw [reached.after, spans.after]; simp)
      exact absurd this (by decide)

theorem Blankless.split (h : Blankless n) : (Pattern.text " as ").split n = [n] := by
  have none := searchAt?_separator (c := .start n.toList) h
  simp [Pattern.split, Pattern.findAll, Pattern.matchesWithin, none, Pattern.between]

theorem Blankless.boundName (h : Blankless n) : boundName n = n := by
  simp [ReactMigration.boundName, h.split, h.trim]

/-- The name of an imported module as a whole is found behind the separator. -/
theorem Blankless.split_whole (h : Blankless n) : (Pattern.text " as ").split ("* as " ++ n) = ["*", n] := by
  have letters : ("* as " ++ n).toList = ['*'] ++ (" as ".toList ++ n.toList) := by
    rw [String.toList_append]
    rfl
  have star : (Cursor.start ("* as " ++ n).toList).Spans ['*'] _ := Cursor.spans_advance letters
  have separator := Cursor.spans_advance (star.remaining letters)
  have able := Pattern.matchAt?_isSome (Pattern.text_steady " as ") ⟨_, _, Pattern.text_takes.mpr ⟨separator, rfl⟩⟩
  cases found : (Pattern.text " as ").searchAt? (.start ("* as " ++ n).toList) with
  | none =>
      rw [Pattern.matchAt?_of_searchAt? found star] at able
      cases able
  | some m =>
      obtain ⟨x, d, reached, here, leftmost⟩ := Pattern.searchAt?_eq_some found
      obtain ⟨taken, -, start, stop⟩ := Pattern.matchAt?_eq_some here
      have spans := (Pattern.text_takes.mp taken).1
      obtain rfl : x = ['*'] := by
        have split := letters.symm.trans (reached.after.trans (congrArg (x ++ ·) spans.after))
        match x, leftmost with
        | [], _ => exact absurd (List.cons.inj split).1 (by decide)
        | [a], _ => rw [(List.cons.inj split).1]
        | a :: b :: x, leftmost =>
            rw [leftmost ['*'] _ star (by simp)] at able
            cases able
      obtain rfl := reached.unique star
      have rest : m.rest.after = n.toList := spans.remaining (star.remaining letters)
      have one : m.start = 1 := start.trans reached.offset
      have five : m.stop = 5 := by rw [stop, spans.offset, reached.offset]; rfl
      have none := searchAt?_separator (c := m.rest) (by rw [rest]; exact h)
      have all : (Pattern.text " as ").findAll ("* as " ++ n) = [m] := by
        rw [Pattern.findAll, Pattern.matchesWithin, found]
        simp only [one, five, Pattern.matchesWithin_unmatched none]
        rfl
      rw [Pattern.split, all, letters]
      simp [Pattern.between, one, five]

theorem Blankless.boundName_whole (h : Blankless n) : ReactMigration.boundName ("* as " ++ n) = n := by
  simp [ReactMigration.boundName, h.split_whole, h.trim]

end Names

/-! ### Uses -/

/-- The name is seen at this place of the text: no dot and no part of a name comes before it, and words
start or end behind it. -/
structure SeenAt (name text : List Char) (place : Nat) : Prop where
  fresh : NotNext isPath (text.take place).reverse
  spelled : name <+: text.drop place
  edge : meetsWord name (text.drop (place + name.length)) = true

instance (name text : List Char) (place : Nat) : Decidable (SeenAt name text place) :=
  decidable_of_iff (NotNext isPath (text.take place).reverse ∧ name <+: text.drop place ∧
      meetsWord name (text.drop (place + name.length)) = true)
    ⟨fun h => ⟨h.1, h.2.1, h.2.2⟩, fun h => ⟨h.1, h.2, h.3⟩⟩

/-- The name is seen in the text. -/
def Seen (name text : List Char) : Prop :=
  ∃ place, SeenAt name text place

section Uses

variable {name text : List Char} {place : Nat} {n b s : String}

theorem referencePattern_takes {c d : Cursor} {g h : Pattern.Captures} :
    (Pattern.notAfter isPath ++ .text n ++ .boundary : Pattern).Takes c g d h ↔
      (NotNext isPath c.before ∧ c.Spans n.toList d ∧ atBoundary d = true) ∧ h = g := by
  simp only [Pattern.seq_takes, Pattern.notAfter_takes, Pattern.text_takes, Pattern.boundary_takes]
  constructor
  · rintro ⟨_, _, ⟨_, _, ⟨rfl, rfl, fresh⟩, spelled, rfl⟩, rfl, rfl, edge⟩
    exact ⟨⟨fresh, spelled, edge⟩, rfl⟩
  · rintro ⟨⟨fresh, spelled, edge⟩, rfl⟩
    exact ⟨d, h, ⟨c, h, ⟨rfl, rfl, fresh⟩, spelled, rfl⟩, rfl, rfl, edge⟩

/-- A name is referenced where it is seen. -/
theorem referencePattern_occurs (visible : n ≠ "") :
    (Pattern.notAfter isPath ++ .text n ++ .boundary).occurs s = true ↔ Seen n.toList s.toList := by
  have visible : n.toList ≠ [] := fun none => visible (String.toList_inj.mp none)
  have steady : (Pattern.notAfter isPath ++ .text n ++ .boundary : Pattern).Steady :=
    Pattern.seq_steady.mpr ⟨Pattern.seq_steady.mpr ⟨trivial, Pattern.text_steady _⟩, trivial⟩
  rw [Pattern.occurs_iff steady]
  simp only [referencePattern_takes]
  constructor
  · rintro ⟨x, c, d, _, reached, ⟨fresh, spelled, edge⟩, rfl⟩
    have front : s.toList = x ++ c.after := reached.after
    have before : c.before = x.reverse := by rw [reached.before]; exact List.append_nil _
    refine ⟨x.length, { fresh := ?_, spelled := ?_, edge := ?_ }⟩
    · rwa [front, List.take_left, ← before]
    · rw [front, List.drop_left]
      exact ⟨_, spelled.after.symm⟩
    · rw [front, ← List.drop_drop, List.drop_left, spelled.after, List.drop_left]
      rwa [← atBoundary_behind visible spelled]
  · rintro ⟨place, fresh, ⟨rest, split⟩, edge⟩
    have front : s.toList = s.toList.take place ++ s.toList.drop place := (List.take_append_drop ..).symm
    obtain ⟨c, reached⟩ : ∃ c, (Cursor.start s.toList).Spans (s.toList.take place) c :=
      ⟨_, Cursor.spans_advance front⟩
    have here : c.after = n.toList ++ rest := (reached.remaining front).trans split.symm
    obtain ⟨d, spelled⟩ : ∃ d, c.Spans n.toList d := ⟨_, Cursor.spans_advance here⟩
    refine ⟨_, c, d, [], reached, ⟨?_, spelled, ?_⟩, rfl⟩
    · have before : c.before = (s.toList.take place).reverse := by rw [reached.before]; exact List.append_nil _
      rwa [before]
    · rw [atBoundary_behind visible spelled, spelled.remaining here]
      rwa [← List.drop_drop, ← split, List.drop_left] at edge

theorem isReferenced_iff (bound : boundName n = b) (visible : b ≠ "") :
    isReferenced n s = true ↔ Seen b.toList s.toList := by
  rw [isReferenced, bound]
  exact referencePattern_occurs visible

/-- A use of a name is seen unless it is spread or the name does not end as a word does. -/
theorem Text.RefersAt.seenAt_iff (use : RefersAt name text place) :
    SeenAt name text place ↔ dots (text.take place).reverse = 0 ∧ name.getLast?.any isWord = true := by
  have word (o : Option Char) : (o.map isWord).getD false = o.any isWord := by
    cases o <;> rfl
  have ends : (text.drop (place + name.length)).head?.any isWord = false := by
    rw [Option.any_eq_false]
    intro a mem
    have := use.ends a mem
    simp only [isName, Bool.or_eq_false_iff] at this
    simp [this.1]
  have edge : meetsWord name (text.drop (place + name.length)) = true ↔ name.getLast?.any isWord = true := by
    rw [meetsWord, word, word, ends, Bool.bne_false]
  have dotless : NotNext isPath (text.take place).reverse ↔ dots (text.take place).reverse = 0 := by
    have fresh := use.opens.fresh
    cases before : (text.take place).reverse with
    | nil => simp [NotNext, dots]
    | cons a rest =>
        rw [before] at fresh
        have letter := fresh a rfl
        rw [dots_cons]
        by_cases dot : a = '.' <;> simp [NotNext, isPath, letter, dot]
  rw [← dotless, ← edge]
  exact ⟨fun seen => ⟨seen.fresh, seen.edge⟩, fun seen => ⟨seen.1, use.spelled, seen.2⟩⟩

end Uses

/-! ### Carrying over -/

/-- The module is none of the source framework or its stream library, and no relative one. -/
structure External (module : String) : Prop where
  foreign : module.startsWith "@angular/" = false
  streamless : (module == "rxjs" || module.startsWith "rxjs/") = false
  absolute : module.startsWith "." = false

/-- The default import of a statement, or else the module as a whole, unless it has no name. -/
def slot? (bs : List Binding) : Option Binding :=
  ((lastTo .default bs).filter (·.name ≠ "")).or ((lastTo .whole bs).filter (·.name ≠ ""))

/-- The last default import of the module, or import of it as a whole. -/
def lastSlot? (statements : List (List Binding)) (module : String) : Option Binding :=
  ((statements.filterMap slot?).filter (·.module = module)).getLast?

/-- How a default import, or an import of a module as a whole, is written. -/
def Binding.slotText (b : Binding) : String :=
  if b.exported = .whole then "* as " ++ b.name else b.name

section Slots

variable {bs : List Binding} {sts : List (List Binding)} {d : ImportDecl} {module : String} {b : Binding}

theorem exported_of_lastTo {exported : Export} (last : lastTo exported bs = some b) :
    b ∈ bs ∧ b.exported = exported := by
  have := List.mem_filter.mp (List.mem_of_getLast? last)
  exact ⟨this.1, of_decide_eq_true this.2⟩

theorem slotText_reads (reads : Reads bs d) :
    (d.default.filter (· ≠ "")).or ((d.whole.filter (· ≠ "")).map ("* as " ++ ·)) = (slot? bs).map (·.slotText) := by
  have default : d.default.filter (· ≠ "") = ((lastTo .default bs).filter (·.name ≠ "")).map (·.slotText) := by
    rw [reads.default]
    cases last : lastTo .default bs with
    | none => rfl
    | some b =>
        have := (exported_of_lastTo last).2
        by_cases empty : b.name = "" <;> simp [Option.filter, empty, Binding.slotText, this]
  have whole : (d.whole.filter (· ≠ "")).map ("* as " ++ ·) =
      ((lastTo .whole bs).filter (·.name ≠ "")).map (·.slotText) := by
    rw [reads.whole]
    cases last : lastTo .whole bs with
    | none => rfl
    | some b =>
        have := (exported_of_lastTo last).2
        by_cases empty : b.name = "" <;> simp [Option.filter, empty, Binding.slotText, this]
  rw [default, whole, slot?]
  cases (lastTo .default bs).filter (·.name ≠ "") <;> rfl

theorem slot?_mem (slot : slot? bs = some b) :
    b ∈ bs ∧ b.exported.isNamed = false ∧ b.name ≠ "" := by
  have each {exported : Export} (other : exported.isNamed = false)
      (kept : (lastTo exported bs).filter (·.name ≠ "") = some b) :
      b ∈ bs ∧ b.exported.isNamed = false ∧ b.name ≠ "" := by
    obtain ⟨last, visible⟩ := Option.filter_eq_some_iff.mp kept
    obtain ⟨mem, same⟩ := exported_of_lastTo last
    exact ⟨mem, by rw [same, other], of_decide_eq_true visible⟩
  rcases Option.or_eq_some_iff.mp slot with default | ⟨-, whole⟩
  · exact each rfl default
  · exact each rfl whole

theorem lastSlot?_cons (bs : List Binding) (sts : List (List Binding)) (module : String) :
    lastSlot? (bs :: sts) module = (lastSlot? sts module).or ((slot? bs).filter (·.module = module)) := by
  unfold lastSlot?
  cases slot : slot? bs with
  | none => simp [List.filterMap_cons_none slot]
  | some b =>
      rw [List.filterMap_cons_some slot]
      by_cases here : b.module = module
      · rw [List.filter_cons_of_pos (by simpa using here), List.getLast?_cons, Option.filter_some,
          if_pos (by simpa using here)]
        cases (List.filter (·.module = module) (sts.filterMap slot?)).getLast? <;> rfl
      · rw [List.filter_cons_of_neg (by simpa using here), Option.filter_some, if_neg (by simpa using here),
          Option.or_none]

theorem lastSlot?_mem (last : lastSlot? sts module = some b) :
    b ∈ sts.flatten ∧ b.module = module ∧ b.exported.isNamed = false ∧ b.name ≠ "" := by
  have mem := List.mem_filter.mp (List.mem_of_getLast? last)
  obtain ⟨bs, here, slot⟩ := List.mem_filterMap.mp mem.1
  obtain ⟨inside, other, visible⟩ := slot?_mem slot
  exact ⟨List.mem_flatten.mpr ⟨bs, here, inside⟩, of_decide_eq_true mem.2, other, visible⟩

end Slots

namespace Imports

/-- What is carried over from a package. -/
def ofPackage (i : Imports) (module : String) : ImportSpec :=
  (i.find? (·.place = packagePlace module)).getD { module := some module, prune := true }

section Packages

variable {i : Imports} {new : ImportSpec} {module : String}

theorem ofPackage_add_same (place : new.place = packagePlace module) :
    (i.add new).ofPackage module = absorb (i.ofPackage module) new := by
  unfold ofPackage
  induction i with
  | nil =>
      have fresh : ({ module := new.module, target := new.target, typeOnly := new.typeOnly, prune := new.prune } :
          ImportSpec) = { module := some module, prune := true } := by
        simp only [ImportSpec.place, packagePlace, Prod.mk.injEq] at place
        simp [place]
      rw [add, fresh]
      simp [absorb, ImportSpec.place, packagePlace]
  | cons old rest ih =>
      unfold add
      split
      · rename_i same
        have here : old.place = packagePlace module := ((samePlace_iff old new).mp same).trans place
        have there : (absorb old new).place = packagePlace module := here
        rw [List.find?_cons_of_pos (by simpa using there), List.find?_cons_of_pos (by simpa using here)]
        rfl
      · rename_i other
        have apart : old.place ≠ packagePlace module := fun here =>
          other ((samePlace_iff old new).mpr (here.trans place.symm))
        rw [List.find?_cons_of_neg (by simpa using apart), List.find?_cons_of_neg (by simpa using apart), ih]

theorem ofPackage_add_other (place : new.place ≠ packagePlace module) :
    (i.add new).ofPackage module = i.ofPackage module := by
  unfold ofPackage
  induction i with
  | nil => rw [add, List.find?_cons_of_neg (by simpa [absorb, ImportSpec.place] using place)]
  | cons old rest ih =>
      unfold add
      split
      · rename_i same
        have apart : old.place ≠ packagePlace module := (samePlace_iff old new).mp same ▸ place
        have apart' : (absorb old new).place ≠ packagePlace module := apart
        rw [List.find?_cons_of_neg (by simpa using apart'), List.find?_cons_of_neg (by simpa using apart)]
      · by_cases here : old.place = packagePlace module
        · rw [List.find?_cons_of_pos (by simpa using here), List.find?_cons_of_pos (by simpa using here)]
        · rw [List.find?_cons_of_neg (by simpa using here), List.find?_cons_of_neg (by simpa using here), ih]

theorem ofPackage_foldl_other {spec : String → ImportSpec} (other : ∀ n, (spec n).place ≠ packagePlace module)
    (names : List String) :
    (names.foldl (fun i n => i.add (spec n)) i).ofPackage module = i.ofPackage module := by
  induction names generalizing i with
  | nil => rfl
  | cons n names ih => exact ih.trans (ofPackage_add_other (other n))

/-- What is brought in leaves alone what is carried over. -/
theorem ofPackage_gathered {T : ArtifactRef → Prop} {start : Imports} (gathered : Gathered T start i)
    (module : String) : i.ofPackage module = start.ofPackage module := by
  induction gathered with
  | refl => rfl
  | tail _ step ih =>
      obtain ⟨new, brings, rfl⟩ := step
      refine (ofPackage_add_other fun place => ?_).trans ih
      have prune : new.prune = false := by
        cases brings with
        | library listed =>
            obtain ⟨_, _, _, _, prune, _⟩ := libraryImports_single new listed
            exact prune
        | unit _ _ prune _ => exact prune
      have := congrArg (·.2.2.2) place
      simp [ImportSpec.place, packagePlace, prune] at this

/-- What is carried over from a package is one import. -/
theorem mem_ofPackage (places : (i.map (·.place)).Nodup) {spec : ImportSpec} (mem : spec ∈ i)
    (place : spec.place = packagePlace module) : i.ofPackage module = spec := by
  have found : i.find? (·.place = packagePlace module) = some spec := by
    cases first : i.find? (·.place = packagePlace module) with
    | none => exact absurd place (by simpa using List.find?_eq_none.mp first spec mem)
    | some old =>
        have same : old.place = spec.place := (by simpa using List.find?_some first : old.place = _).trans place.symm
        exact congrArg some (List.inj_on_of_nodup_map places (List.mem_of_find?_eq_some first) mem same)
  rw [ofPackage, found]
  rfl

theorem ofPackage_mem (some : (i.ofPackage module).names ≠ [] ∨ (i.ofPackage module).default ≠ none) :
    i.ofPackage module ∈ i := by
  unfold ofPackage at some ⊢
  cases found : i.find? (·.place = packagePlace module) with
  | none => simp [found] at some
  | some spec => exact List.mem_of_find?_eq_some found

theorem ofPackage_place (i : Imports) (module : String) : (i.ofPackage module).place = packagePlace module := by
  unfold ofPackage
  cases found : i.find? (·.place = packagePlace module) with
  | none => rfl
  | some spec => simpa using List.find?_some found

end Packages

/-! ### One statement -/

section Statements

variable {index : SymbolIndex} {sourcePath module n : String} {i : Imports} {d : ImportDecl}
  {bs : List Binding} {sts : List (List Binding)} {ds : List ImportDecl}

theorem carryOne_other (other : d.module ≠ module) :
    (carryOne index sourcePath i d).ofPackage module = i.ofPackage module := by
  have apart {spec : ImportSpec} (here : spec.module = some d.module) : spec.place ≠ packagePlace module := fun place =>
    other (Option.some.inj (here.symm.trans (congrArg (·.1) place)))
  unfold carryOne
  extract_lets streams names path whole default
  have wholes : whole.ofPackage module = i.ofPackage module := by
    unfold whole
    split
    · exact ofPackage_add_other (apart rfl)
    · rfl
  have defaults : default.ofPackage module = i.ofPackage module := by
    unfold default
    split
    · exact (ofPackage_add_other (apart rfl)).trans wholes
    · exact wholes
  split
  · rfl
  · split
    · split
      · exact ofPackage_foldl_other (fun n => by simp [ImportSpec.place, packagePlace]) names
      · rfl
    · exact (ofPackage_foldl_other (fun n => apart rfl) names).trans defaults

/-- A statement that imports from a package, taken in by what has been carried over from it. -/
def takeIn (old : ImportSpec) (d : ImportDecl) : ImportSpec :=
  let old := if present d.whole then absorb old { default := d.whole.map ("* as " ++ ·) } else old
  let old := if present d.default then absorb old { default := d.default } else old
  d.names.foldl (fun old n => absorb old { names := [n] }) old

theorem carryOne_package (external : External d.module) :
    (carryOne index sourcePath i d).ofPackage d.module = takeIn (i.ofPackage d.module) d := by
  have add {i : Imports} (spec : ImportSpec) (place : spec.place = packagePlace d.module) :
      (i.add spec).ofPackage d.module = absorb (i.ofPackage d.module) spec :=
    ofPackage_add_same place
  have each (names : List String) (i : Imports) :
      (names.foldl (fun i n => i.add { names := [n], module := some d.module, prune := true }) i).ofPackage d.module =
        names.foldl (fun old n => absorb old { names := [n] }) (i.ofPackage d.module) := by
    induction names generalizing i with
    | nil => rfl
    | cons n names ih =>
        rw [List.foldl_cons, ih, add _ rfl]
        rfl
  unfold carryOne
  simp only [external.foreign, external.streamless, external.absolute, Bool.false_and, Bool.or_self,
    Bool.false_eq_true, if_false]
  rw [each]
  unfold takeIn
  dsimp only
  congr 1
  split
  · rw [add _ rfl]
    split
    · rw [add _ rfl]
      rfl
    · rfl
  · split
    · rw [add _ rfl]
      rfl
    · rfl

theorem takeIn_names {old : ImportSpec} :
    n ∈ (takeIn old d).names ↔ n ∈ old.names ∨ n ∈ d.names ∧ n ≠ "" := by
  have each (names : List String) (old : ImportSpec) :
      n ∈ (names.foldl (fun old n => absorb old { names := [n] }) old).names ↔
        n ∈ old.names ∨ n ∈ names ∧ n ≠ "" := by
    induction names generalizing old with
    | nil => simp
    | cons m names ih =>
        rw [List.foldl_cons, ih]
        simp only [absorb, List.foldl_cons, List.foldl_nil, List.mem_cons]
        split
        · rename_i known
          have listed : n = m → n ≠ "" → n ∈ old.names := by
            rintro rfl visible
            simpa [visible] using known
          tauto
        · rename_i fresh
          have visible : n = m → n ≠ "" := by
            rintro rfl rfl
            simp at fresh
          rw [List.mem_append, List.mem_singleton]
          tauto
  unfold takeIn
  dsimp only
  rw [each]
  split <;> split <;> rfl

theorem takeIn_default (old : ImportSpec) :
    (takeIn old d).default =
      ((d.default.filter (· ≠ "")).or ((d.whole.filter (· ≠ "")).map ("* as " ++ ·))).or old.default := by
  have each (names : List String) (old : ImportSpec) :
      (names.foldl (fun old n => absorb old { names := [n] }) old).default = old.default := by
    induction names generalizing old with
    | nil => rfl
    | cons m names ih => exact ih _
  unfold takeIn
  dsimp only
  rw [each]
  cases d.default <;> cases d.whole <;> simp [present, absorb] <;> grind

theorem takeIn_sideEffect (old : ImportSpec) : (takeIn old d).sideEffect = old.sideEffect := by
  have each (names : List String) (old : ImportSpec) :
      (names.foldl (fun old n => absorb old { names := [n] }) old).sideEffect = old.sideEffect := by
    induction names generalizing old with
    | nil => rfl
    | cons m names ih => exact (ih _).trans (Bool.or_false _)
  unfold takeIn
  dsimp only
  rw [each]
  split <;> split <;> simp [absorb]

/-- The names that have been carried over from a package. -/
theorem carry_names (external : External module) (reads : List.Forall₂ Reads sts ds) :
    n ∈ ((carry index sourcePath i ds).ofPackage module).names ↔ n ∈ (i.ofPackage module).names ∨
      n ≠ "" ∧ ∃ b ∈ sts.flatten, b.module = module ∧ b.exported.isNamed = true ∧ b.name = n := by
  induction reads generalizing i with
  | nil => simp [carry]
  | @cons bs d sts ds first rest ih =>
      have step : carry index sourcePath i (d :: ds) = carry index sourcePath (carryOne index sourcePath i d) ds := rfl
      rw [step, ih]
      simp only [List.flatten_cons, List.mem_append, or_and_right, exists_or, and_or_left]
      by_cases here : d.module = module
      · subst here
        rw [carryOne_package external, takeIn_names, first.names, or_assoc]
        refine or_congr_right (or_congr_left ?_)
        simp only [List.mem_map, List.mem_filter]
        constructor
        · rintro ⟨⟨b, ⟨mem, named⟩, same⟩, visible⟩
          exact ⟨visible, b, mem, first.module b mem, named, same⟩
        · rintro ⟨visible, b, mem, -, named, same⟩
          exact ⟨⟨b, ⟨mem, named⟩, same⟩, visible⟩
      · rw [carryOne_other here]
        refine or_congr_right (iff_or_self.mpr ?_)
        rintro ⟨-, b, mem, same, -⟩
        exact absurd ((first.module b mem).symm.trans same) here

/-- The default import that has been carried over from a package. -/
theorem carry_default (external : External module) (reads : List.Forall₂ Reads sts ds) :
    ((carry index sourcePath i ds).ofPackage module).default =
      ((lastSlot? sts module).map (·.slotText)).or (i.ofPackage module).default := by
  induction reads generalizing i with
  | nil => rfl
  | @cons bs d sts ds first rest ih =>
      have step : carry index sourcePath i (d :: ds) = carry index sourcePath (carryOne index sourcePath i d) ds := rfl
      rw [step, ih, lastSlot?_cons, Option.map_or, Option.or_assoc]
      congr 1
      by_cases here : d.module = module
      · subst here
        rw [carryOne_package external, takeIn_default, slotText_reads first]
        congr 1
        cases slot : slot? bs with
        | none => rfl
        | some b => rw [Option.filter_some, if_pos (by simpa using first.module b (slot?_mem slot).1)]
      · rw [carryOne_other here]
        cases slot : slot? bs with
        | none => rfl
        | some b =>
            have : b.module ≠ module := fun same => here ((first.module b (slot?_mem slot).1).symm.trans same)
            rw [Option.filter_some, if_neg (by simpa using this)]
            rfl

theorem carry_sideEffect (external : External module) (ds : List ImportDecl) :
    ((carry index sourcePath i ds).ofPackage module).sideEffect = (i.ofPackage module).sideEffect := by
  refine List.foldlRecOn (motive := fun j : Imports => (j.ofPackage module).sideEffect = (i.ofPackage module).sideEffect)
    ds _ rfl fun j same d _ => ?_
  by_cases here : d.module = module
  · subst here
    rw [carryOne_package external, takeIn_sideEffect, same]
  · rw [carryOne_other here, same]

end Statements

end Imports

/-! ### Import blocks -/

/-- The binding is one that a module which takes imports over can keep, given the statements of its file:
of a named export only under its own name, of default imports and imports of whole modules only the last
one from its module, and none of the view library if markup needs that itself. -/
def Binding.Kept (statements : List (List Binding)) (viewed : Bool) (b : Binding) : Prop :=
  match b.exported with
  | .named n => n = b.name
  | _ => lastSlot? statements b.module = some b ∧ ¬ (b.module = "react" ∧ viewed = true)

theorem Binding.kept_iff {statements : List (List Binding)} {viewed : Bool} {b : Binding}
    (plain : b.exported.isNamed = false) :
    b.Kept statements viewed ↔ lastSlot? statements b.module = some b ∧ ¬ (b.module = "react" ∧ viewed = true) := by
  unfold Kept
  split
  · rename_i named
    rw [named] at plain
    cases plain
  · rfl

theorem Binding.kept_named_iff {statements : List (List Binding)} {viewed : Bool} {b : Binding}
    (named : b.exported.isNamed = true) : b.Kept statements viewed ↔ b.exported = .named b.name := by
  obtain ⟨name, module, exported⟩ := b
  cases exported with
  | default => cases named
  | whole => cases named
  | named n => simp [Kept]

namespace Printing

section Blocks

variable {settings : Settings} {spec : ImportSpec} {body module n : String} {markup viewed : Bool} {b : Binding}
  {statements : List (List Binding)}

theorem nameBinding_of_blankless (h : Blankless n) : nameBinding module n = ⟨n, module, .named n⟩ := by
  rw [nameBinding, h.boundName, h.split]
  rfl

theorem boundName_slotText (h : Blankless b.name) : boundName b.slotText = b.name := by
  unfold Binding.slotText
  split
  · exact h.boundName_whole
  · exact h.boundName

theorem defaultBinding_slotText (h : Blankless b.name) (other : b.exported.isNamed = false) :
    defaultBinding b.module b.slotText = b := by
  rw [defaultBinding, boundName_slotText h]
  obtain ⟨name, module, exported⟩ := b
  cases exported with
  | default =>
      have none : startsWith name.toList "* as ".toList = false := by
        rw [← Bool.not_eq_true, startsWith_iff]
        rintro ⟨rest, split⟩
        have := h ' ' (by change ' ' ∈ name.toList; simp [split])
        exact absurd this (by decide)
      simp only [Binding.slotText, reduceCtorEq, if_false, none, Bool.false_eq_true]
  | whole =>
      have lead : startsWith ("* as " ++ name).toList "* as ".toList = true :=
        startsWith_iff.mpr ⟨name.toList, by rw [String.toList_append]⟩
      simp only [Binding.slotText, if_true, lead]
  | named => cases other

theorem specBindings_module (mem : b ∈ specBindings settings body viewed spec) :
    b.module = moduleOf settings spec := by
  unfold specBindings at mem
  split at mem
  · cases mem
  · rcases List.mem_append.mp mem with default | name
    · split at default
      · rw [List.mem_singleton.mp default]
        rfl
      · cases default
    · obtain ⟨n, -, rfl⟩ := List.mem_map.mp name
      rfl

/-- What is bound of a package that has been carried over. -/
theorem mem_specBindings_package (place : spec.place = packagePlace module) (loud : spec.sideEffect = false) :
    b ∈ specBindings settings body viewed spec ↔
      (module = "react" ∧ viewed = true ∧ b = viewBinding) ∨
      (¬ (module = "react" ∧ viewed = true) ∧ ∃ d, spec.default = some d ∧ d ≠ "" ∧
        isReferenced d body = true ∧ b = defaultBinding module d) ∨
      ∃ n ∈ spec.names, isReferenced n body = true ∧ b = nameBinding module n := by
  simp only [ImportSpec.place, packagePlace, Prod.mk.injEq] at place
  obtain ⟨here, -, values, prune⟩ := place
  have source : moduleOf settings spec = module := by
    unfold moduleOf
    rw [here]
  have view : defaultBinding "react" "React" = viewBinding := by decide
  have names : (∃ a, (a ∈ spec.names ∧ isReferenced a body = true) ∧ nameBinding module a = b) ↔
      ∃ n ∈ spec.names, isReferenced n body = true ∧ b = nameBinding module n := by
    simp only [and_assoc, eq_comm]
  simp only [specBindings, loud, Bool.false_eq_true, if_false, keptDefault, keptNames, source, values, prune,
    Bool.not_false, Bool.and_true, Bool.true_and, if_true, List.mem_append, List.mem_map, List.mem_filter,
    List.mem_mergeSort, names, Bool.and_eq_true, beq_iff_eq]
  rw [← or_assoc]
  refine or_congr_left ?_
  by_cases library : module = "react" ∧ viewed = true
  · obtain ⟨rfl, rfl⟩ := library
    simp [present, view]
  · simp only [library, not_false_eq_true, true_and]
    rw [← and_assoc, or_iff_right (fun h => library h.1)]
    cases default : spec.default with
    | none => simp [present]
    | some d =>
        by_cases visible : d = ""
        · simp [present, visible]
        · cases referenced : isReferenced d body <;> simp [present, visible, referenced]

/-- Unused names are left out of imports that were there at the start alone. -/
theorem exists_of_prune {T : ArtifactRef → Prop} {start i : Imports} (gathered : Gathered T start i)
    (mem : spec ∈ i) (prune : spec.prune = true) : ∃ new ∈ start, new.place = spec.place := by
  obtain ⟨new, origin, place⟩ := Imports.exists_brings gathered mem
  have prune' : new.prune = true := (congrArg (·.2.2.2) place).trans prune
  rcases origin with before | listed | ⟨-, -, kept, -⟩
  · exact ⟨new, before, place⟩
  · obtain ⟨_, _, _, _, kept, _⟩ := libraryImports_single new listed
    rw [kept] at prune'
    cases prune'
  · rw [kept] at prune'
    cases prune'

/-- A module that carries nothing over binds what it needs itself alone. -/
theorem mem_blockBindings_own {T : ArtifactRef → Prop} {i : Imports} (gathered : Gathered T [] i) :
    b ∈ blockBindings settings i body markup ↔ b ∈ blockBindings settings (i.filter (!·.prune)) body markup := by
  refine mem_blockBindings_filter.trans (or_iff_left ?_)
  rintro ⟨spec, mem, prune, -⟩
  obtain ⟨_, none, -⟩ := exists_of_prune gathered mem prune
  cases none

/-- A binding to a package that is carried over is bound of what has been carried over from it. -/
theorem place_of_bound (relative : ∀ t, (settings.importPath t).startsWith "." = true) (carried : spec.Carried)
    (mem : b ∈ specBindings settings body viewed spec) (external : External b.module) :
    spec.place = packagePlace b.module := by
  have source := specBindings_module mem
  obtain ⟨module, place⟩ | ⟨path, place⟩ := carried
  · have here : spec.module = some module := congrArg (·.1) place
    rw [place, source, moduleOf, here]
  · have none : spec.module = none := congrArg (·.1) place
    have target : spec.target = some (.types path) := congrArg (·.2.1) place
    have absolute := external.absolute
    rw [source, moduleOf, none, target, relative] at absolute
    cases absolute

/-- A module that takes the imports of its file over binds what it sees used and can keep. -/
theorem mem_blockBindings_carried {T : ArtifactRef → Prop} {index : SymbolIndex} {sourcePath : String}
    {ds : List ImportDecl} {i : Imports} (relative : ∀ t, (settings.importPath t).startsWith "." = true)
    (gathered : Gathered T (Imports.carry index sourcePath [] ds) i) (reads : List.Forall₂ Reads statements ds)
    (blankless : ∀ b ∈ statements.flatten, Blankless b.name) (mem : b ∈ statements.flatten) (visible : b.name ≠ "")
    (external : External b.module) :
    b ∈ blockBindings settings i body markup ↔
      b ∈ blockBindings settings (i.filter (!·.prune)) body markup ∨
        Seen b.name.toList body.toList ∧ b.Kept statements (needsView settings markup) := by
  have places := Imports.gathered_nodup gathered (Imports.carry_tidy index sourcePath ds).places
  have same := Imports.ofPackage_gathered gathered b.module
  have place := i.ofPackage_place b.module
  have loud : (i.ofPackage b.module).sideEffect = false := by
    rw [same, Imports.carry_sideEffect external]
    rfl
  have default : (i.ofPackage b.module).default = (lastSlot? statements b.module).map (·.slotText) := by
    rw [same, Imports.carry_default external reads]
    exact Option.or_none
  have names (n : String) : n ∈ (i.ofPackage b.module).names ↔ n ≠ "" ∧ ∃ c ∈ statements.flatten,
      c.module = b.module ∧ c.exported.isNamed = true ∧ c.name = n := by
    rw [same, Imports.carry_names external reads]
    exact or_iff_right List.not_mem_nil
  constructor
  · intro bound
    rcases mem_blockBindings_filter.mp bound with own | ⟨spec, here, prune, bound⟩
    · exact .inl own
    · have carried : spec.Carried := by
        obtain ⟨new, before, place⟩ := exists_of_prune gathered here prune
        unfold ImportSpec.Carried
        rw [← place]
        exact Imports.carry_carried index sourcePath ds new before
      have placed := place_of_bound relative carried bound external
      rw [← Imports.mem_ofPackage places here placed] at bound
      rcases (mem_specBindings_package place loud).mp bound with
        ⟨-, viewed, rfl⟩ | ⟨other, d, slot, -, referenced, bound⟩ | ⟨n, listed, referenced, bound⟩
      · exact .inl (mem_blockBindings.mpr (.inl ⟨viewed, rfl⟩))
      · rw [default] at slot
        obtain ⟨c, last, rfl⟩ := Option.map_eq_some_iff.mp slot
        obtain ⟨inside, module, plain, -⟩ := lastSlot?_mem last
        obtain rfl : b = c := by rw [bound, ← module, defaultBinding_slotText (blankless c inside) plain]
        have seen := (isReferenced_iff (boundName_slotText (blankless b inside)) visible).mp referenced
        exact .inr ⟨seen, (Binding.kept_iff plain).mpr ⟨last, other⟩⟩
      · obtain ⟨-, c, inside, -, -, rfl⟩ := (names n).mp listed
        rw [nameBinding_of_blankless (blankless c inside)] at bound
        have name : b.name = c.name := by rw [bound]
        have seen := (isReferenced_iff (blankless c inside).boundName (name ▸ visible)).mp referenced
        rw [← name] at seen
        have exported : b.exported = .named b.name := by rw [name, bound]
        have named : b.exported.isNamed = true := by rw [exported]; rfl
        exact .inr ⟨seen, (Binding.kept_named_iff named).mpr exported⟩
  · rintro (own | ⟨seen, kept⟩)
    · exact mem_blockBindings_filter.mpr (.inl own)
    · have whole := blankless b mem
      cases plain : b.exported.isNamed with
      | false =>
          obtain ⟨last, other⟩ := (Binding.kept_iff plain).mp kept
          have slot : (i.ofPackage b.module).default = some b.slotText := by rw [default, last]; rfl
          have bound := boundName_slotText whole
          have referenced := (isReferenced_iff bound visible).mpr seen
          have written : b.slotText ≠ "" := fun none => by
            rw [none] at bound
            exact visible (bound.symm.trans (by decide))
          refine mem_blockBindings_filter.mpr (.inr ⟨_, Imports.ofPackage_mem (.inr (by simp [slot])),
            congrArg (·.2.2.2) place, (mem_specBindings_package place loud).mpr (.inr (.inl ?_))⟩)
          exact ⟨other, _, slot, written, referenced, (defaultBinding_slotText whole plain).symm⟩
      | true =>
          have exported := (Binding.kept_named_iff plain).mp kept
          have listed : b.name ∈ (i.ofPackage b.module).names := (names _).mpr ⟨visible, b, mem, rfl, plain, rfl⟩
          have referenced := (isReferenced_iff whole.boundName visible).mpr seen
          refine mem_blockBindings_filter.mpr (.inr ⟨_, Imports.ofPackage_mem (.inl (List.ne_nil_of_mem listed)),
            congrArg (·.2.2.2) place, (mem_specBindings_package place loud).mpr (.inr (.inr ?_))⟩)
          exact ⟨b.name, listed, referenced, by rw [nameBinding_of_blankless whole, ← exported]⟩

/-- Without what is carried over, a module binds exports of the view library, the router and other generated
modules alone. -/
theorem module_of_own {T : ArtifactRef → Prop} {start i : Imports}
    (relative : ∀ t, (settings.importPath t).startsWith "." = true) (gathered : Gathered T start i)
    (carried : ∀ spec ∈ start, spec.Carried)
    (mem : b ∈ blockBindings settings (i.filter (!·.prune)) body markup) :
    b.module = "react" ∨ b.module = "react-router-dom" ∨ b.module.startsWith "." = true := by
  have shared : ∀ a ∈ libraryImports, a.module = some "react" ∨ a.module = some "react-router-dom" ∨
      a.module = none ∧ a.target.isSome := by
    decide
  rcases mem_blockBindings.mp mem with ⟨-, rfl⟩ | ⟨spec, here, bound⟩
  · exact .inl rfl
  · obtain ⟨here, own⟩ := List.mem_filter.mp here
    obtain ⟨new, origin, place⟩ := Imports.exists_brings gathered here
    have source : b.module = moduleOf settings new := by
      simp only [ImportSpec.place, Prod.mk.injEq] at place
      rw [specBindings_module bound, moduleOf, moduleOf, place.1, place.2.1]
    rw [source, moduleOf]
    rcases origin with before | listed | ⟨target, none, -, -⟩
    · have prune : spec.prune = true := (congrArg (·.2.2.2) place).symm.trans (carried new before).prune
      simp [prune] at own
    · rcases shared new listed with view | router | ⟨none, target⟩
      · exact .inl (by rw [view])
      · exact .inr (.inl (by rw [router]))
      · obtain ⟨t, target⟩ := Option.isSome_iff_exists.mp target
        exact .inr (.inr (by rw [none, target]; exact relative t))
    · exact .inr (.inr (by rw [none, target]; exact relative _))

end Blocks

end Printing

/-! ### Runs -/

/-- The run emits the module in the place of an item of the file. -/
def EmitsIn (works : List Work) (w : Work) (a : Artifact) (order : NameOrder := .written) : Prop :=
  ∃ item ∈ w.items, ∃ as sink, item.modules (Work.index works) w order = .ok (as, sink) ∧ a ∈ as

/-- The module is one that the model of an item is converted to; it is neither a stand-in nor a shared
module. -/
def Converts (works : List Work) (w : Work) (m : UnitModel) (a : Artifact) (order : NameOrder := .written) :
    Prop :=
  ∃ item ∈ w.items, ∃ noted own t,
    (item.model (Work.index works)).run.run { unit := w.path } = (.ok m, noted) ∧
    (convertOwn (Work.index works) order m).run.run noted = (.ok own, t) ∧ a ∈ own

/-- The module is one that takes the imports of its file over. -/
def TakesOver (works : List Work) (w : Work) (a : Artifact) (order : NameOrder := .written) : Prop :=
  ∃ m, Converts works w m a order ∧ m.carries a = true

section Runs

variable {works : List Work} {order : NameOrder} {w : Work} {a : Artifact} {m : UnitModel}

theorem EmitsIn.converts (emitted : EmitsIn works w a order) :
    (∃ m, Converts works w m a order) ∨ a.imports = [] := by
  obtain ⟨item, hi, as, sink, made, mem⟩ := emitted
  rcases WorkItem.modules_cases made with run | ⟨f, noted, b, _, _, rfl, stubbed⟩
  · obtain ⟨m, noted, built, converted⟩ := Noting.ok_of_bind run
    obtain ⟨own, t, ran, ended⟩ := Noting.ok_of_bind converted
    cases ended
    rcases List.mem_append.mp mem with here | shared
    · exact .inl ⟨m, item, hi, noted, own, _, built, ran, here⟩
    · obtain ⟨t, _, found⟩ := List.mem_filterMap.mp shared
      exact .inr (shared_imports a (List.mem_of_find?_eq_some found))
  · rw [List.mem_singleton.mp mem]
    exact .inr (stub_imports stubbed)

theorem Converts.gathered (converts : Converts works w m a order) :
    Gathered (fun _ => True) (m.carried (Work.index works) a) a.imports := by
  obtain ⟨item, _, noted, own, t, _, ran, mem⟩ := converts
  exact convertOwn_gathered m noted own t ran a mem

theorem Model.Built.sourceImports {index : SymbolIndex} {d : Declaration} {base : ModelBase}
    (built : Model.Built index d m) (class_ : m.class? = some base) :
    base.sourceImports = d.base.sourceImports ∧ d.kind ≠ .routes := by
  cases built with
  | component of =>
      cases class_
      obtain ⟨_, base⟩ := of.base
      exact ⟨base.sourceImports, nofun⟩
  | service of =>
      cases class_
      exact ⟨of.sourceImports, nofun⟩
  | pipe of =>
      cases class_
      exact ⟨of.sourceImports, nofun⟩
  | directive of =>
      cases class_
      exact ⟨of.base.sourceImports, nofun⟩
  | review => cases class_
  | module => cases class_
  | routes => cases class_

/-- A module that takes imports over starts with those of the file's text. -/
theorem Converts.carried {sources : Sources} (unit : w ∈ Work.ofSources sources)
    (converts : Converts (Work.ofSources sources) w m a order) (carries : m.carries a = true) :
    ∃ sourcePath, m.carried (Work.index (Work.ofSources sources)) a =
      Imports.carry (Work.index (Work.ofSources sources)) sourcePath [] (Declaration.sourceImports w.text) := by
  obtain ⟨item, hi, noted, _, _, built, -, -⟩ := converts
  obtain ⟨base, class_⟩ : ∃ base, m.class? = some base := by
    unfold UnitModel.carries at carries
    split at carries
    · exact ⟨_, rfl⟩
    · exact ⟨_, rfl⟩
    · exact ⟨_, rfl⟩
    · exact ⟨_, rfl⟩
    · cases carries
  cases item with
  | declaration d =>
      have of := (Model.build_ensures (Work.index_sound _) d { unit := w.path }).2 m (congrArg Prod.fst built)
      obtain ⟨same, kind⟩ := of.sourceImports class_
      obtain ⟨u, read, -, text⟩ := Work.ofSources_reads unit hi
      have imports := (Declaration.read_yields _ u d read).2.2 kind
      refine ⟨base.sourcePath, ?_⟩
      rw [UnitModel.carried, class_, ← text, ← imports, ← same]
      exact if_pos carries
  | stub s =>
      cases built
      cases class_
  | types n =>
      cases built
      cases class_

/-- What a module has gathered started with the imports of its file, or with none. -/
theorem EmitsIn.gathered {sources : Sources} (unit : w ∈ Work.ofSources sources)
    (emitted : EmitsIn (Work.ofSources sources) w a order) :
    (TakesOver (Work.ofSources sources) w a order → ∃ sourcePath, Gathered (fun _ => True)
      (Imports.carry (Work.index (Work.ofSources sources)) sourcePath [] (Declaration.sourceImports w.text)) a.imports) ∧
    (¬ TakesOver (Work.ofSources sources) w a order → Gathered (fun _ => True) [] a.imports) := by
  constructor
  · rintro ⟨m, converts, carries⟩
    obtain ⟨sourcePath, carried⟩ := converts.carried unit carries
    exact ⟨sourcePath, carried ▸ converts.gathered⟩
  · intro none
    rcases emitted.converts with ⟨m, converts⟩ | nothing
    · have carried : m.carried (Work.index (Work.ofSources sources)) a = [] := by
        have carries : ¬ m.carries a = true := fun carries => none ⟨m, converts, carries⟩
        unfold UnitModel.carried
        split
        · exact if_neg carries
        · rfl
      exact carried ▸ converts.gathered
    · rw [nothing]
      exact .refl

end Runs

theorem Layout.printing_relative (l : Layout) (major : Int) (a : Artifact) (t : ArtifactRef) :
    ((l.printing major a).importPath t).startsWith "." = true := by
  simp only [printing]
  exact l.importPath_relative (l.pathFor a) t

/-- A generated module binds a local name of its source file to the same export of the same module exactly
if it needs that itself, or if it takes imports over, sees the name used and can keep the binding. -/
theorem carried_bindings_iff {sources : Sources} {order : NameOrder} {w : Work}
    (unit : w ∈ Work.ofSources sources) {a : Artifact} (emitted : EmitsIn (Work.ofSources sources) w a order)
    (layout : Layout) (major : Int) (body : String) (markup : Bool)
    (blankless : ∀ b ∈ (Declaration.fileBindings w.text).flatten, Blankless b.name) {b : Binding}
    (mem : b ∈ (Declaration.fileBindings w.text).flatten) (visible : b.name ≠ "") (external : External b.module) :
    let settings := layout.printing major a
    let own := Printing.blockBindings settings (a.imports.filter (!·.prune)) body markup
    (Printing.boundStatements settings a.imports body markup).map (·.1) =
      Printing.importBlock settings a.imports body markup ∧
    (b ∈ Printing.blockBindings settings a.imports body markup ↔
      b ∈ own ∨ TakesOver (Work.ofSources sources) w a order ∧ Seen b.name.toList body.toList ∧
        b.Kept (Declaration.fileBindings w.text) (Printing.needsView settings markup)) ∧
    (∀ place, RefersAt b.name.toList body.toList place →
      (SeenAt b.name.toList body.toList place ↔
        dots (body.toList.take place).reverse = 0 ∧ b.name.toList.getLast?.any isWord = true)) ∧
    (b ∈ own → b.module = "react" ∨ b.module = "react-router-dom") := by
  intro settings own
  have relative := layout.printing_relative major a
  obtain ⟨taking, leaving⟩ := emitted.gathered unit
  refine ⟨Printing.boundStatements_text settings a.imports body markup, ?_, fun place use => use.seenAt_iff, ?_⟩
  · by_cases taken : TakesOver (Work.ofSources sources) w a order
    · obtain ⟨sourcePath, gathered⟩ := taking taken
      rw [and_iff_right taken]
      exact Printing.mem_blockBindings_carried relative gathered (Declaration.sourceImports_reads w.text)
        blankless mem visible external
    · rw [or_iff_left fun h => taken h.1]
      exact Printing.mem_blockBindings_own (leaving taken)
  · intro needed
    have library : b.module = "react" ∨ b.module = "react-router-dom" ∨ b.module.startsWith "." = true := by
      by_cases taken : TakesOver (Work.ofSources sources) w a order
      · obtain ⟨sourcePath, gathered⟩ := taking taken
        exact Printing.module_of_own relative gathered (Imports.carry_carried _ sourcePath _) needed
      · exact Printing.module_of_own relative (leaving taken) (by simp) needed
    rw [external.absolute] at library
    simpa using library

/-- A file with a default import and an export that it imports under another name. -/
def aliasedText : String :=
  "import d,\x7ba as b\x7d from 'm';@Pipe(\x7bname:'p'\x7d)class P\x7btransform()\x7bd(b)\x7d\x7d"

/-- What its module declares. -/
def aliasedBody : String :=
  "// 'p' pipe\nexport function p() \x7b\n  d(b)\n\x7d"

def Artifact.util? : Artifact → Option UtilArtifact
  | .util u => some u
  | .component _ | .context _ | .routes _ | .hook _ | .style _ => none

theorem Artifact.eq_of_util? {a : Artifact} {u : UtilArtifact} (is : a.util? = some u) : a = .util u := by
  cases a <;> cases is
  rfl

theorem fileBindings_aliasedText : Declaration.fileBindings aliasedText =
    [[⟨"d", "m", .default⟩, ⟨"b", "m", .named "a"⟩]] := by
  have read : Declaration.fileBindings aliasedText = _ :=
    Declaration.fileBindings_chars String.toList_ofList
  rw [read]
  decide +kernel

theorem aliased_emits : ∃ w u, w ∈ Work.ofSources [("a.ts", some aliasedText)] ∧
    EmitsIn (Work.ofSources [("a.ts", some aliasedText)]) w (.util u) ∧
    Declaration.fileBindings w.text = [[⟨"d", "m", .default⟩, ⟨"b", "m", .named "a"⟩]] ∧
    Printing.utilText (Layout.printing {} 18 (.util u)) u =
      Printing.compose (Layout.printing {} 18 (.util u)) u.imports aliasedBody false ∧
    Printing.blockBindings (Layout.printing {} 18 (.util u)) u.imports aliasedBody false =
      [⟨"d", "m", .default⟩, ⟨"b", "m", .named "b"⟩] := by
  have works : Work.ofSources [("a.ts", some aliasedText)] = [Work.prepare [] "a.ts" (some aliasedText)] :=
    Work.ofSources_single (isSourceUnit_iff.mpr (by decide))
  have text := Work.prepare_text [] "a.ts" aliasedText
  obtain ⟨w, same⟩ : ∃ w, w = Work.prepare [] "a.ts" (some aliasedText) := ⟨_, rfl⟩
  have computed : (((w.artifacts (Work.index [w])).filterMap Artifact.util?).any fun u => decide (
        Printing.utilText (Layout.printing {} 18 (.util u)) u =
          Printing.compose (Layout.printing {} 18 (.util u)) u.imports aliasedBody false ∧
        Printing.blockBindings (Layout.printing {} 18 (.util u)) u.imports aliasedBody false =
          [⟨"d", "m", .default⟩, ⟨"b", "m", .named "b"⟩])) = true := by
    rw [same.trans (Work.prepare_chars [] "a.ts" String.toList_ofList)]
    decide +kernel
  rw [← same] at works text
  obtain ⟨u, utils, facts⟩ := List.any_eq_true.mp computed
  obtain ⟨a, ha, is⟩ := List.mem_filterMap.mp utils
  obtain rfl := Artifact.eq_of_util? is
  obtain ⟨printed, bound⟩ := of_decide_eq_true facts
  rw [works]
  exact ⟨w, u, List.mem_singleton.mpr rfl, Work.modules_of_mem_artifacts ha,
    text ▸ fileBindings_aliasedText, printed, bound⟩

theorem external_m : External "m" := by
  constructor <;> decide +kernel

theorem carried_bindings_iff_default : ∃ w u, w ∈ Work.ofSources [("a.ts", some aliasedText)] ∧
    EmitsIn (Work.ofSources [("a.ts", some aliasedText)]) w (.util u) ∧
    TakesOver (Work.ofSources [("a.ts", some aliasedText)]) w (.util u) ∧
    (⟨"d", "m", .default⟩ : Binding) ∈
      Printing.blockBindings (Layout.printing {} 18 (.util u)) u.imports aliasedBody false := by
  obtain ⟨w, u, unit, emitted, bindings, -, bound⟩ := aliased_emits
  have blankless : ∀ b ∈ (Declaration.fileBindings w.text).flatten, Blankless b.name := by
    rw [bindings]
    decide
  have mem : (⟨"d", "m", .default⟩ : Binding) ∈ (Declaration.fileBindings w.text).flatten := by
    rw [bindings]
    decide
  obtain ⟨-, iff, -, own⟩ :=
    carried_bindings_iff unit emitted {} 18 aliasedBody false blankless mem (by decide) external_m
  have kept : (⟨"d", "m", .default⟩ : Binding) ∈
      Printing.blockBindings (Layout.printing {} 18 (.util u)) u.imports aliasedBody false := by
    rw [bound]
    decide
  rcases iff.mp kept with needed | ⟨taken, -⟩
  · exact absurd (own needed) (by decide)
  · exact ⟨w, u, unit, emitted, taken, kept⟩

/-- An export that is imported under another name is not bound to that name. -/
theorem alias_lost : ∃ w u, w ∈ Work.ofSources [("a.ts", some aliasedText)] ∧
    EmitsIn (Work.ofSources [("a.ts", some aliasedText)]) w (.util u) ∧
    Printing.utilText (Layout.printing {} 18 (.util u)) u =
      Printing.compose (Layout.printing {} 18 (.util u)) u.imports aliasedBody false ∧
    (⟨"b", "m", .named "a"⟩ : Binding) ∈ (Declaration.fileBindings w.text).flatten ∧ External "m" ∧
    Refers "b".toList aliasedBody.toList ∧
    (⟨"b", "m", .named "a"⟩ : Binding) ∉
      Printing.blockBindings (Layout.printing {} 18 (.util u)) u.imports aliasedBody false := by
  obtain ⟨w, u, unit, emitted, bindings, printed, bound⟩ := aliased_emits
  refine ⟨w, u, unit, emitted, printed, ?_, external_m, ⟨38, by decide +kernel⟩, ?_⟩
  · rw [bindings]
    decide
  · rw [bound]
    decide

end ReactMigration
