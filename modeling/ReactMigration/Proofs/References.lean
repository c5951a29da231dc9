import ReactMigration.Proofs.Sweeping

/-!
References to a name.

A name stands for itself where it is no part of a longer name and no member: no character of a name
comes before or after it, and no dot before it, unless three dots spread it.  Where every match of a
pattern starts with the name, and what is put in place of a match does not refer to it, the references
that are left are exactly the ones that the pattern does not match.
-/

namespace ReactMigration.Text

open Pattern (isName Sweeps)

/-! ### Occurrences -/

theorem breakOn?_isSome {separator : List Char} (visible : separator ≠ []) (front rest : List Char) :
    (breakOn? separator (front ++ (separator ++ rest))).isSome := by
  induction front with
  | nil =>
      obtain ⟨a, cs, rfl⟩ := List.exists_cons_of_ne_nil visible
      rw [List.nil_append, List.cons_append, breakOn?,
        dropLead?_eq_some_iff.mpr (show a :: (cs ++ rest) = (a :: cs) ++ rest from rfl)]
      rfl
  | cons a front ih =>
      rw [List.cons_append, breakOn?]
      split
      · rfl
      · rwa [Option.isSome_map]

theorem occursIn_iff {part s : String} (visible : part ≠ "") : occursIn part s = true ↔ part.toList <:+: s.toList := by
  constructor
  · intro found
    obtain ⟨⟨front, rest⟩, split⟩ := Option.isSome_iff_exists.mp found
    exact ⟨front, rest, (eq_append_of_breakOn? split).symm⟩
  · rintro ⟨front, rest, same⟩
    rw [occursIn, ← same, List.append_assoc]
    exact breakOn?_isSome (fun none => visible (String.toList_inj.mp none)) front rest

/-! ### Where a name stands for itself -/

/-- The number of dots at the end of a text, given from its end. -/
def dots (before : List Char) : Nat :=
  (before.takeWhile (· == '.')).length

/-- Behind this text, given from its end, a name can start that is no member: no part of a name comes
before it, and no dots but the three that spread it. -/
structure Opens (before : List Char) : Prop where
  fresh : NotNext isName before
  free : dots before = 0 ∨ 3 ≤ dots before

instance (before : List Char) : Decidable (Opens before) :=
  decidable_of_iff (NotNext isName before ∧ (dots before = 0 ∨ 3 ≤ dots before))
    ⟨fun h => ⟨h.1, h.2⟩, fun h => ⟨h.1, h.2⟩⟩

/-- The name stands for itself at this place of the text. -/
structure RefersAt (name text : List Char) (place : Nat) : Prop where
  opens : Opens (text.take place).reverse
  spelled : name <+: text.drop place
  ends : NotNext isName (text.drop (place + name.length))

instance (name text : List Char) (place : Nat) : Decidable (RefersAt name text place) :=
  decidable_of_iff (Opens (text.take place).reverse ∧ name <+: text.drop place ∧
      NotNext isName (text.drop (place + name.length)))
    ⟨fun h => ⟨h.1, h.2.1, h.2.2⟩, fun h => ⟨h.1, h.2, h.3⟩⟩

/-- The text refers to the name. -/
def Refers (name text : List Char) : Prop :=
  ∃ place, RefersAt name text place

/-- Between the two places the name stands for itself. -/
structure Stands (name : List Char) (c d : Cursor) : Prop where
  opens : Opens c.before
  spelled : c.Spans name d
  ends : NotNext isName d.after

/-- Letters, digits and underscores. -/
structure IsWord (name : List Char) : Prop where
  visible : name ≠ []
  letters : ∀ a ∈ name, isWord a = true

theorem IsWord.ofAll {name : List Char} (visible : name ≠ []) (letters : name.all isWord = true) :
    IsWord name :=
  ⟨visible, List.all_eq_true.mp letters⟩

section Places

variable {name text x y : List Char} {c d e : Cursor}

theorem isName_of_isWord {a : Char} (letter : isWord a = true) : isName a = true := by
  rw [isName, letter, Bool.true_or]

/-- A place of a text, and the places around what is read there. -/
theorem refersAt_iff {place : Nat} :
    RefersAt name text place ↔
      ∃ c d, (Cursor.start text).Spans (text.take place) c ∧ Stands name c d := by
  have front : text = text.take place ++ text.drop place := (List.take_append_drop ..).symm
  constructor
  · intro h
    obtain ⟨back, split⟩ := h.spelled
    have reached : (Cursor.start text).Spans (text.take place) _ := Cursor.spans_advance front
    have start := reached.remaining front
    have spelled := Cursor.spans_advance (start.trans split.symm)
    have rest : text.drop (place + name.length) = back := by
      rw [← List.drop_drop, ← split, List.drop_left]
    refine ⟨_, _, reached, ?_, spelled, ?_⟩
    · have before := reached.before
      rw [show (Cursor.start text).before = [] from rfl, List.append_nil] at before
      rw [before]
      exact h.opens
    · rw [spelled.remaining (start.trans split.symm), ← rest]
      exact h.ends
  · rintro ⟨c, d, reached, opens, spelled, ends⟩
    have start : c.after = text.drop place := reached.remaining front
    have before : c.before = (text.take place).reverse := by
      rw [reached.before]
      exact List.append_nil _
    have split : text.drop place = name ++ d.after := start.symm.trans spelled.after
    refine ⟨before ▸ opens, ⟨_, split.symm⟩, ?_⟩
    rw [← List.drop_drop, split, List.drop_left]
    exact ends

theorem RefersAt.lt_length {place : Nat} (h : RefersAt name text place) (visible : name ≠ []) :
    place < text.length := by
  have short := h.spelled.length_le
  have := List.length_pos_iff.mpr visible
  rw [List.length_drop] at short
  omega

theorem refers_iff :
    Refers name text ↔ ∃ x c d, (Cursor.start text).Spans x c ∧ Stands name c d := by
  constructor
  · rintro ⟨place, h⟩
    obtain ⟨c, d, reached, stands⟩ := refersAt_iff.mp h
    exact ⟨_, c, d, reached, stands⟩
  · rintro ⟨x, c, d, reached, stands⟩
    have front : text.take x.length = x := by
      have split : text = x ++ c.after := reached.after
      rw [split, List.take_left]
    exact ⟨x.length, refersAt_iff.mpr ⟨c, d, by rwa [front], stands⟩⟩

/-- The way to a place that is further on. -/
theorem Cursor.Spans.behind (far : c.Spans (x ++ y) e) (near : c.Spans x d) : d.Spans y e := by
  have further : d.after = y ++ e.after := near.remaining (by rw [far.after, List.append_assoc])
  have reached := Cursor.spans_advance further
  rwa [(near.trans reached).unique far] at reached

theorem dots_cons (a : Char) (before : List Char) :
    dots (a :: before) = if a = '.' then dots before + 1 else 0 := by
  by_cases dot : a = '.' <;> simp [dots, dot]

/-- Only the characters of a text count that stand behind one that is no dot. -/
theorem dots_append {x y : List Char} (stops : ∃ a ∈ x, a ≠ '.') : dots (x ++ y) = dots x := by
  induction x with
  | nil => simp at stops
  | cons a x ih =>
      rw [List.cons_append, dots_cons, dots_cons]
      by_cases dot : a = '.'
      · have rest : ∃ b ∈ x, b ≠ '.' := by simpa [dot] using stops
        rw [if_pos dot, if_pos dot, ih rest]
      · rw [if_neg dot, if_neg dot]

theorem IsWord.head (word : IsWord name) : ∃ a rest, name = a :: rest ∧ isWord a = true := by
  obtain ⟨a, rest, rfl⟩ := List.exists_cons_of_ne_nil word.visible
  exact ⟨a, rest, rfl, word.letters a List.mem_cons_self⟩

/-- Behind a word a word has just gone on. -/
theorem IsWord.inside (word : IsWord name) (spans : c.Spans name d) : ¬ NotNext isWord d.before := by
  obtain ⟨rest, a, rfl⟩ := List.eq_nil_or_concat name |>.resolve_left word.visible
  intro ends
  have letter := word.letters a (by simp)
  have := ends a (by simp [spans.before])
  rw [letter] at this
  cases this

theorem notNext_isWord_iff {cs : List Char} :
    NotNext isWord cs ↔ (cs.head?.map isWord).getD false = false := by
  cases cs <;> simp [NotNext]

/-- A word ends here. -/
theorem atBoundary_of_inside (inside : ¬ NotNext isWord c.before) :
    Pattern.atBoundary c = true ↔ NotNext isWord c.after := by
  rw [notNext_isWord_iff] at inside ⊢
  simp only [Bool.not_eq_false] at inside
  rw [Pattern.atBoundary, inside]
  cases (c.after.head?.map isWord).getD false <;> simp

/-- A word starts here. -/
theorem atBoundary_of_word (word : IsWord name) (spans : c.Spans name d) :
    Pattern.atBoundary c = true ↔ NotNext isWord c.before := by
  obtain ⟨a, rest, rfl, letter⟩ := word.head
  rw [notNext_isWord_iff, Pattern.atBoundary, spans.after]
  simp only [List.cons_append, List.head?_cons, Option.map_some, letter, Option.getD_some]
  cases (c.before.head?.map isWord).getD false <;> simp

theorem notNext_mono {p q : Char → Bool} {cs : List Char} (h : NotNext q cs)
    (imp : ∀ a, p a = true → q a = true) : NotNext p cs := by
  intro a mem
  have := h a mem
  cases hp : p a with
  | false => rfl
  | true =>
      rw [imp a hp] at this
      cases this

end Places

/-- The names that start in a text and stand for themselves, `before` coming before it, given from its
end, and `rest` behind it. -/
def freeNames (rest : List Char) : List Char → List Char → List (List Char)
  | _, [] => []
  | before, a :: cs =>
      if Opens before ∧ isName a = true then
        (a :: cs ++ rest).takeWhile isName :: freeNames rest (a :: before) cs
      else freeNames rest (a :: before) cs

section FreeNames

variable {name text rest before x y : List Char} {c d e : Cursor}

theorem freeNames_append (rest before x y : List Char) :
    freeNames rest before (x ++ y) =
      freeNames (y ++ rest) before x ++ freeNames rest (x.reverse ++ before) y := by
  induction x generalizing before with
  | nil => rfl
  | cons a x ih =>
      simp only [List.cons_append, freeNames, ih, List.reverse_cons, List.append_assoc, List.nil_append]
      split <;> rfl

/-- In text without characters of names no name starts. -/
theorem freeNames_other (others : ∀ a ∈ x, isName a = false) : freeNames rest before x = [] := by
  induction x generalizing before with
  | nil => rfl
  | cons a x ih =>
      obtain ⟨other, others⟩ := List.forall_mem_cons.mp others
      rw [freeNames, if_neg (by simp [other]), ih others]

theorem freeNames_marks (marks : x.any isName = false) : freeNames rest before x = [] :=
  freeNames_other (by simpa using marks)

theorem not_opens_of_isName {a : Char} (letter : isName a = true) : ¬ Opens (a :: before) :=
  fun opens => by
    have := opens.fresh a rfl
    rw [letter] at this
    cases this

/-- Where no name can start, none starts in the characters of a name. -/
theorem freeNames_goesOn (closed : ¬ Opens before) (letters : ∀ a ∈ x, isName a = true) :
    freeNames rest before x = [] := by
  induction x generalizing before with
  | nil => rfl
  | cons a x ih =>
      obtain ⟨letter, letters⟩ := List.forall_mem_cons.mp letters
      rw [freeNames, if_neg (fun h => closed h.1), ih (not_opens_of_isName letter) letters]

/-- Where a name can start, one starts. -/
theorem freeNames_name (opens : Opens before) (visible : x ≠ []) (letters : ∀ a ∈ x, isName a = true)
    (ends : NotNext isName rest) : freeNames rest before x = [x] := by
  obtain ⟨a, x, rfl⟩ := List.exists_cons_of_ne_nil visible
  obtain ⟨letter, others⟩ := List.forall_mem_cons.mp letters
  rw [freeNames, if_pos ⟨opens, letter⟩, freeNames_goesOn (not_opens_of_isName letter) others,
    takeWhile_append_of_notNext (List.all_eq_true.mpr letters) ends]

theorem freeNames_letters (letters : ∀ a ∈ x, isName a = true) (ends : NotNext isName rest) :
    freeNames rest before x ⊆ [x] := by
  by_cases closed : ¬ Opens before ∨ x = []
  · have none : freeNames rest before x = [] := by
      rcases closed with closed | rfl
      · exact freeNames_goesOn closed letters
      · rfl
    simp [none]
  · have opens := Classical.not_not.mp fun h => closed (.inl h)
    rw [freeNames_name opens (fun h => closed (.inr h)) letters ends]
    exact List.Subset.refl _

theorem Stands.mem_freeNames (word : IsWord name) (stands : Stands name e d) (spans : c.Spans x e)
    (after : c.after = text ++ rest) (short : x.length < text.length) :
    name ∈ freeNames rest c.before text := by
  induction text generalizing c x with
  | nil => simp at short
  | cons a text ih =>
      have next : c.Spans [a] c.next := Cursor.spans_next after
      rw [freeNames]
      cases x with
      | nil =>
          obtain rfl := spans.unique (.refl c)
          have read : (a :: text ++ rest).takeWhile isName = name := by
            rw [← after, stands.spelled.after, takeWhile_append_of_notNext _ stands.ends]
            exact List.all_eq_true.mpr fun b mem => isName_of_isWord (word.letters b mem)
          have letter : isName a = true := by
            obtain ⟨b, tail, rfl, letter⟩ := word.head
            obtain ⟨rfl, -⟩ := List.cons.inj (after.symm.trans stands.spelled.after)
            exact isName_of_isWord letter
          rw [if_pos ⟨stands.opens, letter⟩, read]
          exact List.mem_cons_self
      | cons b x =>
          obtain ⟨rfl, -⟩ : a = b ∧ _ := List.cons.inj (after.symm.trans spans.after)
          have further := ih (Cursor.Spans.behind (x := [a]) spans next) (next.remaining after)
            (by simpa using short)
          rw [next.before] at further
          split
          · exact List.mem_cons_of_mem _ further
          · exact further

/-- A place behind the first character of a match, and before its end. -/
theorem Stands.mem_freeNames_within {p : Pattern} {m : Match} (word : IsWord name)
    (found : p.matchAt? c = some m) (stands : Stands name e d) (spans : c.Spans x e) (visible : x ≠ [])
    (short : x.length < m.chars.length) :
    ∃ a tail, m.chars = a :: tail ∧ name ∈ freeNames m.rest.after (a :: c.before) tail := by
  obtain ⟨-, whole, -⟩ := Pattern.matchAt?_eq_some found
  obtain ⟨a, x, rfl⟩ := List.exists_cons_of_ne_nil visible
  obtain ⟨b, tail, chars⟩ := List.exists_cons_of_ne_nil (List.length_pos_iff.mp (Nat.zero_lt_of_lt short))
  have after : c.after = b :: (tail ++ m.rest.after) := by rw [whole.after, chars]; rfl
  obtain ⟨rfl, -⟩ : a = b ∧ _ := List.cons.inj (spans.after.symm.trans after)
  have next : c.Spans [a] c.next := Cursor.spans_next after
  refine ⟨a, tail, chars, ?_⟩
  have listed := stands.mem_freeNames word (Cursor.Spans.behind (x := [a]) spans next)
    (next.remaining after) (by rw [chars] at short; simpa using short)
  rwa [next.before] at listed

theorem Refers.mem_freeNames (word : IsWord name) (refers : Refers name text) :
    name ∈ freeNames [] [] text := by
  obtain ⟨x, c, d, spans, stands⟩ := refers_iff.mp refers
  have split : text = x ++ c.after := spans.after
  have whole : (Cursor.start text).after = text ++ [] := (List.append_nil text).symm
  refine stands.mem_freeNames word spans whole ?_
  have visible : c.after ≠ [] := by
    rw [stands.spelled.after]
    simp [word.visible]
  have := List.length_pos_iff.mpr visible
  rw [split, List.length_append]
  omega

end FreeNames

/-! ### Replacing -/

/-- A text to put in place of references to the name: it does not refer to it, and it has no dots at its
ends. -/
structure Silent (name put : List Char) : Prop where
  visible : put ≠ []
  starts : NotNext (· == '.') put
  ends : NotNext (· == '.') put.reverse
  silent : ¬ Refers name put

/-- All matches of the pattern start with the name, where no word has just gone on; and where the text
that is put in place ends in a name, no word goes on behind the match. -/
structure Removes (p : Pattern) (name put : List Char) : Prop where
  silent : Silent name put
  starts : ∀ c m, p.matchAt? c = some m → name <+: m.chars
  ends : ∀ c m, p.matchAt? c = some m → NotNext (· == '.') m.chars.reverse
  apart : ∀ c m, p.matchAt? c = some m → NotNext isWord c.before
  closed : ∀ c m, p.matchAt? c = some m →
    NotNext isName m.chars.reverse ∧ NotNext isName put.reverse ∨ NotNext isWord m.rest.after

/-- What has been written, given from its end, ends as the text up to the cursor does, as far as it
matters to a word that follows. -/
structure Alike (c : Cursor) (before : List Char) : Prop where
  dots : dots c.before = dots before
  fresh : ¬ NotNext isWord c.after → (NotNext isName c.before ↔ NotNext isName before)

section Replacing

variable {p : Pattern} {name put out w x y z before : List Char} {c d e : Cursor} {m : Match}

theorem start_after (text : List Char) : (Cursor.start text).after = text :=
  rfl

theorem alike_start (text : List Char) : Alike (.start text) [] :=
  ⟨rfl, fun _ => Iff.rfl⟩

theorem Alike.opens (alike : Alike c before) (goesOn : ¬ NotNext isWord c.after) :
    Opens c.before ↔ Opens before := by
  constructor
  · rintro ⟨fresh, free⟩
    exact ⟨(alike.fresh goesOn).mp fresh, alike.dots ▸ free⟩
  · rintro ⟨fresh, free⟩
    exact ⟨(alike.fresh goesOn).mpr fresh, alike.dots ▸ free⟩

theorem Alike.copy {a : Char} (alike : Alike c before) (next : c.Spans [a] d) :
    Alike d (a :: before) := by
  have behind : d.before = a :: c.before := next.before
  refine ⟨?_, fun _ => ?_⟩
  · rw [behind, dots_cons, dots_cons, alike.dots]
  · rw [behind]
    simp [NotNext]

theorem dots_of_notNext (h : NotNext (· == '.') before) : dots before = 0 := by
  cases before with
  | nil => rfl
  | cons a before =>
      have other : a ≠ '.' := by simpa using h a rfl
      rw [dots_cons, if_neg other]

theorem notNext_append {q : Char → Bool} (visible : x ≠ []) :
    NotNext q (x ++ y) ↔ NotNext q x := by
  obtain ⟨a, x, rfl⟩ := List.exists_cons_of_ne_nil visible
  simp [NotNext]

theorem Removes.alike (removes : Removes p name put) (word : IsWord name) (before : List Char)
    (found : p.matchAt? c = some m) (spans : c.Spans m.chars m.rest) :
    Alike m.rest (put.reverse ++ before) := by
  have visible : m.chars.reverse ≠ [] := by
    obtain ⟨x, split⟩ := removes.starts c m found
    simp [← split, word.visible]
  have visible' : put.reverse ≠ [] := by simpa using removes.silent.visible
  have ends := (notNext_append (y := c.before) visible).mpr (removes.ends c m found)
  have ends' := (notNext_append (y := before) visible').mpr removes.silent.ends
  refine ⟨?_, fun goesOn => ?_⟩
  · rw [spans.before, dots_of_notNext ends, dots_of_notNext ends']
  · rcases removes.closed c m found with ⟨last, last'⟩ | closed
    · rw [spans.before, notNext_append visible, notNext_append visible']
      exact iff_of_true last last'
    · exact absurd closed goesOn

/-- Where the pattern matches, a match is found, unless an earlier match goes beyond that place. -/
theorem Pattern.findAll_covers (visible : ∀ c m, p.matchAt? c = some m → m.chars ≠ []) {s : String}
    (reached : (Cursor.start s.toList).Spans x d) (found : p.matchAt? d = some m) :
    m ∈ p.findAll s ∨ ∃ y e m' z, (Cursor.start s.toList).Spans y e ∧ p.matchAt? e = some m' ∧
      e.Spans z d ∧ z ≠ [] ∧ z.length < m'.chars.length := by
  have within : ∀ n (c : Cursor) (x : List Char), c.after.length < n → c.Spans x d →
      m ∈ p.matchesWithin n c ∨ ∃ y e m' z, c.Spans y e ∧ p.matchAt? e = some m' ∧
        e.Spans z d ∧ z ≠ [] ∧ z.length < m'.chars.length := by
    intro n
    induction n with
    | zero => exact fun c x short => absurd short (Nat.not_lt_zero _)
    | succ n ih =>
        intro c x short reached
        rw [Pattern.matchesWithin]
        cases search : p.searchAt? c with
        | none =>
            rw [Pattern.matchAt?_of_searchAt? search reached] at found
            cases found
        | some m' =>
            obtain ⟨gap, e, toMatch, found', leftmost⟩ := Pattern.searchAt?_eq_some search
            have spans := (Pattern.matchAt?_eq_some found').2.1
            have far : gap.length ≤ x.length := Nat.le_of_not_lt fun before => by
              rw [leftmost x d reached before] at found
              cases found
            obtain ⟨z, rfl⟩ : gap <+: x :=
              List.prefix_of_prefix_length_le ⟨_, toMatch.after.symm⟩ ⟨_, reached.after.symm⟩ far
            have toPlace : e.Spans z d := reached.behind toMatch
            by_cases here : z = []
            · subst here
              obtain rfl := toPlace.unique (.refl e)
              obtain rfl := Option.some.inj (found.symm.trans found')
              exact .inl List.mem_cons_self
            · rcases Nat.lt_or_ge z.length m'.chars.length with inside | behind
              · exact .inr ⟨gap, e, m', z, toMatch, found', toPlace, here, inside⟩
              · obtain ⟨w, rfl⟩ : m'.chars <+: z :=
                  List.prefix_of_prefix_length_le ⟨_, spans.after.symm⟩ ⟨_, toPlace.after.symm⟩ behind
                have moved := Pattern.matchAt?_moves found' (visible e m' found')
                have shorter := spans.shorter (visible e m' found')
                have length := toMatch.length
                simp only [moved]
                rcases ih m'.rest w (by omega) (toPlace.behind spans) with listed | ⟨y, e', m'', z, toNext, rest⟩
                · exact .inl (List.mem_cons_of_mem _ listed)
                · exact .inr ⟨_, e', m'', z, (toMatch.trans spans).trans toNext, rest⟩
  exact within _ _ x (Nat.lt_succ_self _) reached

/-- Where no match starts, the text is copied. -/
theorem Pattern.Sweeps.unskip {f : Match → List Char} (walk : Sweeps p f c out) (spans : c.Spans x d)
    (unmatched : ∀ y e, c.Spans y e → y.length < x.length → p.matchAt? e = none) :
    ∃ z, out = x ++ z ∧ Sweeps p f d z := by
  induction x generalizing c out with
  | nil =>
      obtain rfl := spans.unique (.refl c)
      exact ⟨out, rfl, walk⟩
  | cons a x ih =>
      have none := unmatched [] c (.refl c) (by simp)
      cases walk with
      | done ends => simp [spans.after] at ends
      | put found => simp [none] at found
      | @copy _ e b out next _ rest =>
          obtain ⟨rfl, -⟩ : b = a ∧ e.after = x ++ d.after :=
            List.cons.inj (next.after.symm.trans spans.after)
          have further : e.Spans x d := by
            have := Cursor.spans_advance (next.remaining spans.after)
            rwa [(next.trans this).unique spans] at this
          obtain ⟨z, rfl, walk⟩ := ih rest further fun y g reached short =>
            unmatched (b :: y) g (next.trans reached) (by simpa using short)
          exact ⟨z, rfl, walk⟩

/-- Where a word has just gone on no match starts. -/
theorem Removes.unmatched (removes : Removes p name put) (inside : ¬ NotNext isWord c.before) :
    p.matchAt? c = none := by
  cases found : p.matchAt? c with
  | none => rfl
  | some m => exact absurd (removes.apart c m found) inside

/-- A word goes on in the result as in the text. -/
theorem Removes.head (removes : Removes p name put) (inside : ¬ NotNext isWord c.before)
    (walk : Sweeps p (fun _ => put) c out) : out.head? = c.after.head? := by
  have none := removes.unmatched inside
  cases walk with
  | done ends => rw [ends]
  | put found => simp [none] at found
  | copy next => simp [next.after]

/-- Where no word goes on in the text, none goes on in the result. -/
theorem Removes.notWord (removes : Removes p name put) (word : IsWord name)
    (closed : NotNext isWord c.after) (walk : Sweeps p (fun _ => put) c out) : NotNext isWord out := by
  cases walk with
  | done => simp [NotNext]
  | copy next =>
      rw [next.after] at closed
      simpa [NotNext] using closed
  | @put _ m _ found =>
      obtain ⟨-, spans, -⟩ := Pattern.matchAt?_eq_some found
      obtain ⟨x, split⟩ := removes.starts c m found
      obtain ⟨a, rest, rfl, letter⟩ := word.head
      have := closed a (by simp [spans.after, ← split])
      rw [letter] at this
      cases this

/-- Letters that follow on a word in the result are letters of the text. -/
theorem Removes.uncopied (removes : Removes p name put) (inside : ¬ NotNext isWord c.before)
    (letters : ∀ a ∈ w, isWord a = true) (walk : Sweeps p (fun _ => put) c (w ++ z)) :
    ∃ d, c.Spans w d ∧ Sweeps p (fun _ => put) d z := by
  induction w generalizing c with
  | nil => exact ⟨c, .refl c, walk⟩
  | cons a w ih =>
      have none := removes.unmatched inside
      generalize result : a :: w ++ z = out at walk
      cases walk with
      | done => cases result
      | put found => simp [none] at found
      | @copy _ d _ _ next _ rest =>
          obtain ⟨rfl, rfl⟩ := List.cons.inj result
          have further : ¬ NotNext isWord d.before := fun h => by
            have := h a (by rw [next.before]; rfl)
            simp [letters a List.mem_cons_self] at this
          obtain ⟨e, spans, walk⟩ := ih further (fun b mem => letters b (List.mem_cons_of_mem a mem)) rest
          exact ⟨e, next.trans spans, walk⟩

/-- What a text refers to it refers to wherever it is put. -/
theorem Silent.apart (silent : Silent name put) (split : put = y ++ (name ++ w))
    (opens : Opens (y.reverse ++ before)) (ends : NotNext isName w) : False := by
  refine silent.silent ⟨y.length, ?_, ⟨w, by rw [split, List.drop_left]⟩, ?_⟩
  · rw [split, List.take_left]
    rcases List.eq_nil_or_concat y with rfl | ⟨front, last, concat⟩
    · decide
    · have visible : y.reverse ≠ [] := by simp [concat]
      have stops : ∃ a ∈ y.reverse, a ≠ '.' := by
        obtain ⟨a, y, rfl⟩ := List.exists_cons_of_ne_nil (List.reverse_ne_nil_iff.mp visible)
        exact ⟨a, by simp, by simpa using silent.starts a (by simp [split])⟩
      have free := opens.free
      rw [dots_append stops] at free
      exact ⟨(notNext_append visible).mp opens.fresh, free⟩
  · rw [split, ← List.drop_drop, List.drop_left, List.drop_left]
    exact ends

/-- No reference of the result starts in what has been put in place of a match. -/
theorem Removes.outside (removes : Removes p name put) (word : IsWord name)
    (found : p.matchAt? c = some m) (walk : Sweeps p (fun _ => put) m.rest out)
    (split : put = y ++ w) (visible : w ≠ []) (spelled : name ++ z = w ++ out)
    (opens : Opens (y.reverse ++ before)) (ends : NotNext isName z) : False := by
  rcases List.append_eq_append_iff.mp spelled with ⟨v, rfl, rfl⟩ | ⟨v, rfl, rfl⟩
  · have ends' : NotNext isName v := by
      cases v with
      | nil => simp [NotNext]
      | cons a v => simpa [NotNext] using ends
    exact removes.silent.apart split opens ends'
  · cases v with
    | nil =>
        refine removes.silent.apart (w := []) (by simpa using split) opens (by simp [NotNext])
    | cons a v =>
        -- the name would go on behind what has been put there
        rcases removes.closed c m found with ⟨-, last⟩ | closed
        · obtain ⟨front, b, concat⟩ := List.eq_nil_or_concat w |>.resolve_left visible
          have := last b (by simp [split, concat])
          rw [isName_of_isWord (word.letters b (by simp [concat]))] at this
          cases this
        · have := removes.notWord word closed walk a (by simp)
          rw [word.letters a (by simp)] at this
          cases this

/-- Letters that follow on a word in the text are letters of the result. -/
theorem Removes.copied (removes : Removes p name put) (inside : ¬ NotNext isWord c.before)
    (letters : ∀ a ∈ w, isWord a = true) (spans : c.Spans w d) (walk : Sweeps p (fun _ => put) c out) :
    ∃ z, out = w ++ z ∧ Sweeps p (fun _ => put) d z := by
  refine walk.unskip spans fun y e reached short => removes.unmatched fun fresh => ?_
  rcases List.eq_nil_or_concat y with rfl | ⟨front, a, rfl⟩
  · obtain rfl := reached.unique (.refl c)
    exact inside fresh
  · rw [List.concat_eq_append] at reached short
    have split : front ++ [a] ++ e.after = w ++ d.after := reached.after.symm.trans spans.after
    have part : front ++ [a] <+: w :=
      List.prefix_of_prefix_length_le ⟨_, split⟩ ⟨_, rfl⟩ (Nat.le_of_lt short)
    have := fresh a (by simp [reached.before])
    rw [letters a (part.subset (by simp))] at this
    cases this

theorem inside_of_next {a : Char} (next : c.Spans [a] d) (letter : isWord a = true) :
    ¬ NotNext isWord d.before := fun h => by
  have := h a (by rw [next.before]; rfl)
  rw [letter] at this
  cases this

theorem goesOn_of_next {a : Char} (next : c.Spans [a] d) (letter : isWord a = true) :
    ¬ NotNext isWord c.after := fun h => by
  have := h a (by rw [next.after]; rfl)
  rw [letter] at this
  cases this

/-- A reference of the text that the pattern does not match, and that is in no match, is a reference of
the result. -/
theorem Removes.kept (removes : Removes p name put) (word : IsWord name)
    (apart : ∀ c m x e d, p.matchAt? c = some m → c.Spans x e → x ≠ [] → x.length < m.chars.length →
      ¬ Stands name e d)
    (walk : Sweeps p (fun _ => put) c out) (alike : Alike c before) (spans : c.Spans x e)
    (none : p.matchAt? e = none) (stands : Stands name e d) :
    ∃ y z, out = y ++ (name ++ z) ∧ Opens (y.reverse ++ before) ∧ NotNext isName z ∧
      Sweeps p (fun _ => put) d z := by
  obtain ⟨b, rest, named, letter⟩ := word.head
  induction walk generalizing before x with
  | done ends =>
      have := spans.after.symm.trans ends
      simp [stands.spelled.after, word.visible] at this
  | @copy c c' a out next none' walk ih =>
      cases x with
      | nil =>
          obtain rfl := spans.unique (.refl c)
          have spelled := stands.spelled
          rw [named, ← List.singleton_append] at spelled
          obtain ⟨rfl, -⟩ : a = b ∧ _ := List.cons.inj (next.after.symm.trans spelled.after)
          obtain ⟨z, rfl, rest⟩ := removes.copied (inside_of_next next letter)
            (fun x mem => word.letters x (named ▸ List.mem_cons_of_mem a mem)) (spelled.behind next) walk
          have head := removes.head (word.inside stands.spelled) rest
          refine ⟨[], z, by rw [named]; rfl, (alike.opens (goesOn_of_next next letter)).mp stands.opens, ?_,
            rest⟩
          rw [NotNext, head]
          exact stands.ends
      | cons a' x =>
          obtain ⟨rfl, -⟩ : a = a' ∧ _ := List.cons.inj (next.after.symm.trans spans.after)
          obtain ⟨y, z, rfl, opens, ends⟩ :=
            ih (alike.copy next) (Cursor.Spans.behind (x := [a]) spans next)
          exact ⟨a :: y, z, rfl, by simpa using opens, ends⟩
  | @put c m out found walk ih =>
      obtain ⟨-, toRest, -⟩ := Pattern.matchAt?_eq_some found
      have visible : x ≠ [] := by
        rintro rfl
        obtain rfl := spans.unique (.refl c)
        rw [none] at found
        cases found
      have long : m.chars.length ≤ x.length :=
        Nat.le_of_not_lt fun short => apart c m x e d found spans visible short stands
      obtain ⟨x', rfl⟩ : m.chars <+: x :=
        List.prefix_of_prefix_length_le ⟨_, toRest.after.symm⟩ ⟨_, spans.after.symm⟩ long
      obtain ⟨y, z, rfl, opens, ends⟩ :=
        ih (removes.alike word before found toRest) (spans.behind toRest)
      exact ⟨put ++ y, z, by simp, by simpa using opens, ends⟩

/-- A reference of the result is a reference of the text that the pattern does not match. -/
theorem Removes.left (removes : Removes p name put) (word : IsWord name)
    (walk : Sweeps p (fun _ => put) c out) (alike : Alike c before) (split : out = y ++ (name ++ z))
    (opens : Opens (y.reverse ++ before)) (ends : NotNext isName z) :
    ∃ x e d, c.Spans x e ∧ p.matchAt? e = none ∧ Stands name e d ∧ Sweeps p (fun _ => put) d z := by
  obtain ⟨a, rest, named, letter⟩ := word.head
  induction walk generalizing before y with
  | done => simp [named] at split
  | @copy c d b out next none walk ih =>
      cases y with
      | nil =>
          have begins : b :: out = a :: (rest ++ z) := by rw [split, named]; rfl
          obtain ⟨rfl, rfl⟩ := List.cons.inj begins
          obtain ⟨e, spans, walk⟩ := removes.uncopied (inside_of_next next letter)
            (fun x mem => word.letters x (named ▸ List.mem_cons_of_mem b mem)) walk
          have spelled : c.Spans name e := named ▸ next.trans spans
          have head := removes.head (word.inside spelled) walk
          rw [NotNext, head] at ends
          exact ⟨[], c, e, .refl c, none,
            ⟨(alike.opens (goesOn_of_next next letter)).mpr opens, spelled, ends⟩, walk⟩
      | cons b' y =>
          obtain ⟨rfl, rfl⟩ := List.cons.inj split
          obtain ⟨x, e, d, spans, found⟩ :=
            ih (y := y) (alike.copy next) rfl (by simpa using opens)
          exact ⟨_, e, d, next.trans spans, found⟩
  | @put c m out found walk ih =>
      obtain ⟨-, spans, -⟩ := Pattern.matchAt?_eq_some found
      have behind := removes.alike word before found spans
      rcases List.append_eq_append_iff.mp split with ⟨y', rfl, rest⟩ | ⟨w, starts, spelled⟩
      · obtain ⟨x, e, d, further, left⟩ := ih behind rest (by simpa using opens)
        exact ⟨_, e, d, spans.trans further, left⟩
      · by_cases visible : w = []
        · subst visible
          obtain rfl : put = y := by simpa using starts
          obtain ⟨x, e, d, further, left⟩ := ih (y := []) behind spelled.symm opens
          exact ⟨_, e, d, spans.trans further, left⟩
        · exact (removes.outside word found walk starts visible spelled opens ends).elim

/-- Replacing all matches is a walk over the text. -/
theorem Removes.walk (removes : Removes p name put) (word : IsWord name) {text : String}
    (same : text.toList = put) (s : String) :
    Sweeps p (fun _ => put) (.start s.toList) (p.replace text s).toList := by
  have visible (c : Cursor) (m : Match) (found : p.matchAt? c = some m) : m.chars ≠ [] := by
    obtain ⟨x, split⟩ := removes.starts c m found
    simp [← split, word.visible]
  have walk := Pattern.replaceWith_sweeps visible (fun _ => text) s
  rwa [same] at walk

/-- Where a reference that is left comes from. -/
theorem Removes.of_replace {s text : String} (removes : Removes p name text.toList) (word : IsWord name)
    (reached : (Cursor.start (p.replace text s).toList).Spans y c) (stands : Stands name c d) :
    ∃ x e g, (Cursor.start s.toList).Spans x e ∧ p.matchAt? e = none ∧ Stands name e g ∧
      Sweeps p (fun _ => text.toList) g d.after := by
  have split : (p.replace text s).toList = y ++ (name ++ d.after) := by
    rw [← stands.spelled.after, ← reached.after, start_after]
  have opens : Opens (y.reverse ++ []) := by
    have before : c.before = y.reverse ++ [] := reached.before
    exact before ▸ stands.opens
  exact removes.left word (removes.walk word rfl s) (alike_start s.toList) split opens stands.ends

/-- What becomes of a reference that is not matched. -/
theorem Removes.replace_of {s text : String} (removes : Removes p name text.toList) (word : IsWord name)
    (apart : ∀ c m x e d, p.matchAt? c = some m → c.Spans x e → x ≠ [] → x.length < m.chars.length →
      ¬ Stands name e d)
    (reached : (Cursor.start s.toList).Spans x c) (none : p.matchAt? c = none) (stands : Stands name c d) :
    ∃ y e g, (Cursor.start (p.replace text s).toList).Spans y e ∧ Stands name e g ∧
      Sweeps p (fun _ => text.toList) d g.after := by
  obtain ⟨y, z, split, opens, ends, walk⟩ :=
    removes.kept word apart (removes.walk word rfl s) (alike_start s.toList) reached none stands
  have whole : (Cursor.start (p.replace text s).toList).after = y ++ (name ++ z) := by
    rw [start_after, split]
  have toName : (Cursor.start (p.replace text s).toList).Spans y _ := Cursor.spans_advance whole
  have start := toName.remaining whole
  have spelled := Cursor.spans_advance start
  have rest := spelled.remaining start
  refine ⟨y, _, _, toName, ⟨?_, spelled, rest ▸ ends⟩, rest ▸ walk⟩
  have before := toName.before
  rw [before]
  exact opens

end Replacing

end ReactMigration.Text
