import Mathlib.Data.List.Basic
import ReactMigration.Naming
import ReactMigration.Proofs.Sweeping

/-!
The words of a name.

The words are what the pattern of a word finds in the runs of letters and digits, and they hold each of these once
and in order.  The first word of a run is described by one case for each alternative of the pattern; this is where
the pattern matches, and where the boundaries between the characters put the first word.
-/

namespace ReactMigration.Naming

open ReactMigration.Text
open Pattern (Finds)

variable {c : Char} {cs x rest : List Char}

/-! ### Letters and digits -/

theorem isAlphanum_eq (c : Char) : c.isAlphanum = ((c.isUpper || c.isLower) || c.isDigit) := rfl

theorem isAlphanum_iff : c.isAlphanum = true ↔ c.isUpper = true ∨ isWordTail c = true := by
  simp [isAlphanum_eq, isWordTail, or_assoc]

theorem isAlphanum_ascii (letter : c.isAlphanum = true) : c.toNat < 128 := by
  have upTo {last : Char} (le : c.val ≤ last.val) (ascii : last.toNat < 128) : c.toNat < 128 :=
    Nat.lt_of_le_of_lt (show c.toNat ≤ last.toNat from le) ascii
  rw [isAlphanum_eq, Bool.or_eq_true, Bool.or_eq_true] at letter
  obtain (upper | lower) | digit := letter
  · exact upTo (of_decide_eq_true upper).2 (by decide)
  · exact upTo (of_decide_eq_true ((Bool.and_eq_true ..).mp lower).2) (by decide)
  · exact upTo (of_decide_eq_true ((Bool.and_eq_true ..).mp digit).2) (by decide)

theorem not_isWordTail_of_isUpper (capital : c.isUpper = true) : isWordTail c = false :=
  forall_ascii (P := fun c => c.isUpper = true → isWordTail c = false) (by decide +kernel)
    (isAlphanum_ascii (isAlphanum_iff.mpr (.inl capital))) capital

theorem not_isUpper_of_isWordTail (tail : isWordTail c = true) : c.isUpper = false := by
  rw [← Bool.not_eq_true]
  intro capital
  rw [not_isWordTail_of_isUpper capital] at tail
  cases tail

/-! ### Runs of letters and digits -/

/-- A run of letters and digits. -/
def runPattern : Pattern :=
  .many Char.isAlphanum 1 true

theorem alphanumericRuns_skip (other : c.isAlphanum = false) (cs : List Char) :
    alphanumericRuns (c :: cs) = alphanumericRuns cs := by
  cases cs <;> simp [alphanumericRuns, other]

/-- What stands up to the next other character is one run. -/
theorem alphanumericRuns_append (visible : x ≠ []) (letters : ∀ a ∈ x, a.isAlphanum = true)
    (ends : NotNext Char.isAlphanum rest) : alphanumericRuns (x ++ rest) = x :: alphanumericRuns rest := by
  induction x with
  | nil => exact absurd rfl visible
  | cons a x ih =>
      have letter := letters a List.mem_cons_self
      cases x with
      | nil =>
          cases rest with
          | nil => simp [alphanumericRuns, letter]
          | cons d rest =>
              have other : d.isAlphanum = false := ends d rfl
              simp [alphanumericRuns, letter, other]
      | cons d x =>
          have more := ih (List.cons_ne_nil d x) fun b mem => letters b (List.mem_cons_of_mem a mem)
          rw [List.cons_append] at more
          rw [List.cons_append, List.cons_append, alphanumericRuns, if_pos letter]
          simp only [letters d (by simp), if_true, more]

/-- Taken alone, a run is one run. -/
theorem alphanumericRuns_single (visible : x ≠ []) (letters : ∀ a ∈ x, a.isAlphanum = true) :
    alphanumericRuns x = [x] := by
  have alone : alphanumericRuns (x ++ []) = [x] := alphanumericRuns_append visible letters (by simp [NotNext])
  rwa [List.append_nil] at alone

/-- The runs are what the pattern finds. -/
theorem runPattern_finds (c : Cursor) : Finds runPattern c (alphanumericRuns c.after) := by
  induction size : c.after.length using Nat.strongRecOn generalizing c with
  | ind n ih =>
      cases after : c.after with
      | nil => exact .done after (Pattern.many_unmatched (by simp [NotNext, after]))
      | cons a rest =>
          by_cases letter : a.isAlphanum = true
          · have visible : c.after.takeWhile Char.isAlphanum ≠ [] := by simp [after, letter]
            obtain ⟨m, here, taken, behind⟩ := Pattern.many_matchAt? visible
            rw [← taken] at visible
            have spans := (Pattern.matchAt?_eq_some here).2.1
            have whole : alphanumericRuns c.after = m.chars :: alphanumericRuns m.rest.after := by
              rw [spans.after]
              refine alphanumericRuns_append visible ?_ (behind ▸ notNext_dropWhile _ _)
              rw [taken]
              exact List.all_eq_true.mp List.all_takeWhile
            rw [← after, whole]
            exact .take here visible (ih _ (size ▸ spans.shorter visible) m.rest rfl)
          · have next := Cursor.spans_next after
            have other : NotNext Char.isAlphanum c.after := by simpa [NotNext, after] using letter
            have more := ih _ (size ▸ next.shorter (List.cons_ne_nil a [])) c.next rfl
            rw [next.remaining after] at more
            rw [alphanumericRuns_skip (Bool.not_eq_true _ ▸ letter)]
            exact .skip after (Pattern.many_unmatched other) more

/-- The runs hold every letter and digit. -/
theorem alphanumericRuns_flatten (cs : List Char) : (alphanumericRuns cs).flatten = cs.filter Char.isAlphanum := by
  fun_induction alphanumericRuns cs with
  | case1 => rfl
  | case2 c letter => simp [letter]
  | case3 c letter d cs next run runs same ih =>
      rw [same] at ih ⊢
      rw [List.filter_cons_of_pos letter, ← ih]
      rfl
  | case4 c letter d cs next none ih =>
      rw [none, List.filter_cons_of_pos next] at ih
      cases ih
  | case5 c letter d cs other ih =>
      rw [List.flatten_cons, ih, List.filter_cons_of_pos letter]
      rfl
  | case6 c cs other ih => rw [ih, List.filter_cons_of_neg other]

/-! ### Words of a run -/

/-- Capitals before another capital with a small letter or digit behind it. -/
def acronymPattern : Pattern :=
  .many Char.isUpper 1 true ++ .ahead true (.one Char.isUpper ++ .one isWordTail)

/-- Small letters and digits, with a capital before them or without. -/
def tailPattern : Pattern :=
  .opt (.one Char.isUpper) ++ .many isWordTail 1 true

/-- A word of a run. -/
def wordPattern : Pattern :=
  acronymPattern <|> tailPattern <|> .many Char.isUpper 1 true

/-- The first word of a run and what follows it, in the three ways of the pattern. -/
inductive FirstWord : List Char → List Char → Prop
  | acronym {w rest : List Char} {a t : Char} (visible : w ≠ []) (capitals : ∀ b ∈ w, b.isUpper = true)
      (capital : a.isUpper = true) (tail : isWordTail t = true) : FirstWord w (a :: t :: rest)
  | tail {lead : Option Char} {w rest : List Char} (capital : ∀ a ∈ lead, a.isUpper = true) (visible : w ≠ [])
      (tails : ∀ b ∈ w, isWordTail b = true) (ends : NotNext isWordTail rest) : FirstWord (lead.toList ++ w) rest
  | capitals {w : List Char} (visible : w ≠ []) (capitals : ∀ b ∈ w, b.isUpper = true) : FirstWord w []

namespace FirstWord

variable {w : List Char}

theorem visible (first : FirstWord w rest) : w ≠ [] := by
  cases first with
  | acronym visible => exact visible
  | tail _ visible => simp [visible]
  | capitals visible => exact visible

theorem exists_of_letters (visible : x ≠ []) (letters : ∀ a ∈ x, a.isAlphanum = true) :
    ∃ w rest, x = w ++ rest ∧ FirstWord w rest := by
  have split : x.takeWhile Char.isUpper ++ x.dropWhile Char.isUpper = x := List.takeWhile_append_dropWhile
  have capitals : ∀ a ∈ x.takeWhile Char.isUpper, a.isUpper = true := List.all_eq_true.mp List.all_takeWhile
  have behind := notNext_dropWhile Char.isUpper x
  revert split capitals behind
  generalize x.takeWhile Char.isUpper = front
  generalize x.dropWhile Char.isUpper = rest
  rintro rfl capitals behind
  cases rest with
  | nil => exact ⟨front, [], rfl, .capitals (by simpa using visible) capitals⟩
  | cons t rest =>
      have tail : isWordTail t = true := by
        have letter := isAlphanum_iff.mp (letters t (by simp))
        rwa [behind t rfl, Bool.false_eq_true, false_or] at letter
      have led (lead : Option Char) (capital : ∀ a ∈ lead, a.isUpper = true) :
          ∃ w rest', lead.toList ++ t :: rest = w ++ rest' ∧ FirstWord w rest' := by
        refine ⟨_, _, ?_, .tail (w := (t :: rest).takeWhile isWordTail) capital (by simp [tail])
          (List.all_eq_true.mp List.all_takeWhile) (notNext_dropWhile isWordTail (t :: rest))⟩
        rw [List.append_assoc, List.takeWhile_append_dropWhile]
      obtain rfl | ⟨front, a, rfl⟩ := front.eq_nil_or_concat
      · exact led none (by simp)
      · rw [List.concat_eq_append] at capitals ⊢
        obtain ⟨capitals, capital⟩ := List.forall_mem_append.mp capitals
        have capital := capital a List.mem_cons_self
        by_cases many : front = []
        · subst many
          exact led (some a) (by simpa using capital)
        · exact ⟨front, a :: t :: rest, by simp, .acronym many capitals capital tail⟩

end FirstWord

/-! ### Where words start -/

theorem startsWord_tail {next : Char} (tail : isWordTail next = true) (previous : Char) (after : List Char) :
    startsWord previous next after = false := by
  rw [startsWord, not_isUpper_of_isWordTail tail, Bool.false_and]

theorem startsWord_capitals {previous next : Char} {after : List Char} (capital : previous.isUpper = true)
    (ends : NotNext isWordTail after) : startsWord previous next after = false := by
  rw [startsWord, not_isWordTail_of_isUpper capital, Bool.false_or]
  cases after with
  | nil => simp
  | cons a after => simp [ends a rfl]

/-- A stretch in which no word starts is one word if one starts behind it. -/
theorem runWords_append {w : List Char} (visible : w ≠ [])
    (whole : ∀ front c d back, w = front ++ c :: d :: back → startsWord c d (back ++ rest) = false)
    (split : ∀ front c, w = front ++ [c] → ∀ d back, rest = d :: back → startsWord c d back = true) :
    runWords (w ++ rest) = w :: runWords rest := by
  induction w with
  | nil => exact absurd rfl visible
  | cons c w ih =>
      cases w with
      | nil =>
          cases rest with
          | nil => rfl
          | cons d rest => rw [List.singleton_append, runWords, if_pos (split [] c rfl d rest rfl)]
      | cons d w =>
          have more := ih (List.cons_ne_nil d w) (fun front a b back same => whole (c :: front) a b back (by rw [same]; rfl))
            (fun front a same => split (c :: front) a (by rw [same]; rfl))
          rw [List.cons_append] at more
          rw [List.cons_append, List.cons_append, runWords, whole [] c d w rfl, more]
          rfl

theorem notNext_capitals (capitals : ∀ a ∈ x, a.isUpper = true) (ends : NotNext isWordTail rest) :
    NotNext isWordTail (x ++ rest) := by
  cases x with
  | nil => exact ends
  | cons a x => simpa [NotNext] using not_isWordTail_of_isUpper (capitals a List.mem_cons_self)

/-- The words of a run are its first word and the words of what follows. -/
theorem FirstWord.runWords {w : List Char} (first : FirstWord w rest) (letters : ∀ a ∈ rest, a.isAlphanum = true) :
    runWords (w ++ rest) = w :: runWords rest := by
  cases first with
  | @acronym _ rest a t visible capitals capital tail =>
      refine runWords_append visible (fun front c d back same => ?_) (fun front c same d back next => ?_)
      · rw [same] at capitals
        refine startsWord_capitals (capitals c (by simp)) (notNext_capitals (fun b mem => capitals b (by simp [mem])) ?_)
        simpa [NotNext] using not_isWordTail_of_isUpper capital
      · obtain ⟨rfl, rfl⟩ := List.cons.inj next
        simp [startsWord, capital, tail]
  | @tail lead w _ capital visible tails ends =>
      have behind {front : List Char} {d : Char} {back : List Char} {c : Char}
          (same : lead.toList ++ w = front ++ c :: d :: back) : d ∈ w := by
        cases lead with
        | none =>
            have split : w = front ++ c :: d :: back := same
            simp [split]
        | some a =>
            cases front with
            | nil =>
                have split : w = d :: back := (List.cons.inj same).2
                simp [split]
            | cons e front =>
                have split : w = front ++ c :: d :: back := (List.cons.inj same).2
                simp [split]
      refine runWords_append (by simp [visible]) (fun front c d back same => ?_) (fun front c same d back next => ?_)
      · exact startsWord_tail (tails d (behind same)) c _
      · have last : isWordTail c = true := by
          have ending := congrArg List.getLast? same
          rw [List.getLast?_append, List.getLast?_eq_some_getLast visible, List.getLast?_concat] at ending
          obtain rfl : w.getLast visible = c := Option.some.inj ending
          exact tails _ (List.getLast_mem visible)
        have other := ends d (by rw [next]; rfl)
        have capital : d.isUpper = true := by
          have letter := isAlphanum_iff.mp (letters d (by rw [next]; exact List.mem_cons_self))
          rwa [other, Bool.false_eq_true, or_false] at letter
        simp [startsWord, capital, last]
  | capitals visible capitals =>
      refine runWords_append visible (fun front c d back same => ?_) (fun front c same d back next => by cases next)
      rw [same] at capitals
      exact startsWord_capitals (capitals c (by simp))
        (notNext_capitals (fun b mem => capitals b (by simp [mem])) (by simp [NotNext]))

/-! ### All words -/

/-- Each word of a run behind the first one starts with a capital. -/
theorem runWords_cons (c : Char) (cs : List Char) : ∃ w words, runWords (c :: cs) = (c :: w) :: words ∧
    w ++ words.flatten = cs ∧ ∀ word ∈ words, ∃ a rest, word = a :: rest ∧ a.isUpper = true := by
  induction cs generalizing c with
  | nil => exact ⟨[], [], rfl, rfl, by simp⟩
  | cons d cs ih =>
      obtain ⟨w, words, split, joined, starts⟩ := ih d
      by_cases new : startsWord c d cs = true
      · refine ⟨[], (d :: w) :: words, by rw [runWords, if_pos new, split], by simp [joined], ?_⟩
        rw [startsWord, Bool.and_eq_true] at new
        exact List.forall_mem_cons.mpr ⟨⟨d, w, rfl, new.1⟩, starts⟩
      · exact ⟨d :: w, words, by rw [runWords, if_neg new, split], by simp [joined], starts⟩

theorem runWords_flatten (cs : List Char) : (runWords cs).flatten = cs := by
  cases cs with
  | nil => rfl
  | cons c cs =>
      obtain ⟨w, words, split, joined, -⟩ := runWords_cons c cs
      rw [split, List.flatten_cons, List.cons_append, joined]

/-- The words of a name hold its letters and digits. -/
theorem words_flatten (cs : List Char) :
    ((alphanumericRuns cs).flatMap runWords).flatten = cs.filter Char.isAlphanum := by
  rw [← alphanumericRuns_flatten, ← List.flatMap_id, ← List.flatMap_id, List.flatMap_assoc]
  exact List.flatMap_congr fun run _ => List.flatMap_id.trans (runWords_flatten run)

/-- Joined, the words of a name are its letters and digits. -/
theorem join_splitWords (s : String) : String.join (splitWords s) = String.ofList (s.toList.filter Char.isAlphanum) := by
  rw [← String.toList_inj, String.toList_join, String.toList_ofList, ← words_flatten, splitWords, List.flatMap_map,
    ← List.flatMap_id]
  exact List.flatMap_congr fun w _ => String.toList_ofList

/-! ### Words as matches -/

section Matches

variable {w : List Char} {c d : Cursor} {g h : Pattern.Captures} {k : Pattern.Continuation} {a t : Char}

theorem capitalAhead_takes : (Pattern.ahead true (.one Char.isUpper ++ .one isWordTail)).Takes c g d h ↔
    d = c ∧ h = g ∧ ∃ a t rest, c.after = a :: t :: rest ∧ a.isUpper = true ∧ isWordTail t = true := by
  refine and_congr_right fun _ => ⟨?_, ?_⟩
  · rintro ⟨e, ran⟩
    obtain ⟨d, i, ⟨e', i', ⟨⟨a, capital, first⟩, rfl⟩, ⟨t, tail, second⟩, rfl⟩, same⟩ := Pattern.run_takes ran
    cases same
    exact ⟨rfl, a, t, _, (first.trans second).after, capital, tail⟩
  · rintro ⟨rfl, a, t, rest, after, capital, tail⟩
    have next : c.next.after = t :: rest := (Cursor.spans_next after).remaining after
    refine ⟨c.next.next, ?_⟩
    change (Pattern.one Char.isUpper).run c h (fun c g => (Pattern.one isWordTail).run c g _) = _
    rw [Pattern.run, after]
    simp only [capital, if_true]
    rw [Pattern.run, next]
    simp only [tail, if_true]

theorem acronymPattern_takes : acronymPattern.Takes c g d h ↔
    h = g ∧ ∃ w a t rest, c.Spans w d ∧ d.after = a :: t :: rest ∧ w ≠ [] ∧ (∀ b ∈ w, b.isUpper = true) ∧
      a.isUpper = true ∧ isWordTail t = true := by
  rw [acronymPattern, Pattern.seq_takes]
  constructor
  · rintro ⟨e, i, ⟨⟨w, spans, capitals, long⟩, rfl⟩, ahead⟩
    obtain ⟨rfl, rfl, a, t, rest, after, capital, tail⟩ := capitalAhead_takes.mp ahead
    exact ⟨rfl, w, a, t, rest, spans, after, List.length_pos_iff.mp long, capitals, capital, tail⟩
  · rintro ⟨rfl, w, a, t, rest, spans, after, visible, capitals, capital, tail⟩
    exact ⟨d, h, ⟨⟨w, spans, capitals, List.length_pos_iff.mpr visible⟩, rfl⟩,
      capitalAhead_takes.mpr ⟨rfl, rfl, a, t, rest, after, capital, tail⟩⟩

/-- The capital that is left is the last one of all. -/
theorem takeWhile_acronym (capitals : ∀ b ∈ w, b.isUpper = true) (capital : a.isUpper = true)
    (tail : isWordTail t = true) : (w ++ a :: t :: rest).takeWhile Char.isUpper = w ++ [a] := by
  have all : (w ++ [a]).all Char.isUpper = true := by simpa [capital] using capitals
  have ends : NotNext Char.isUpper (t :: rest) := by simpa [NotNext] using not_isUpper_of_isWordTail tail
  have whole := takeWhile_append_of_notNext all ends
  rwa [List.append_assoc, List.singleton_append] at whole

theorem acronymPattern_run (visible : w ≠ []) (capitals : ∀ b ∈ w, b.isUpper = true) (capital : a.isUpper = true)
    (tail : isWordTail t = true) (spans : c.Spans w d) (after : d.after = a :: t :: rest) :
    acronymPattern.run c [] (fun c g => some (c, g)) = some (d, []) := by
  refine Pattern.run_of_unique ⟨trivial, trivial⟩
    (acronymPattern_takes.mpr ⟨rfl, w, a, t, rest, spans, after, visible, capitals, capital, tail⟩) ?_ rfl
  intro e i taken
  obtain ⟨rfl, w', a', t', rest', spans', after', -, capitals', capital', tail'⟩ := acronymPattern_takes.mp taken
  have here : (w ++ a :: t :: rest).takeWhile Char.isUpper = w ++ [a] := takeWhile_acronym capitals capital tail
  have there : (w' ++ a' :: t' :: rest').takeWhile Char.isUpper = w' ++ [a'] :=
    takeWhile_acronym capitals' capital' tail'
  rw [← after, ← spans.after] at here
  rw [← after', ← spans'.after, here] at there
  obtain ⟨rfl, -⟩ := List.append_inj' there rfl
  exact ⟨spans'.unique spans, rfl⟩

/-- Without two capitals at the front there is no acronym. -/
theorem acronymPattern_fails (few : (c.after.takeWhile Char.isUpper).length ≤ 1 ∨ ∀ b ∈ c.after, b.isUpper = true) :
    acronymPattern.run c g k = none := by
  cases ran : acronymPattern.run c g k with
  | none => rfl
  | some r =>
      obtain ⟨e, i, taken, -⟩ := Pattern.run_takes ran
      obtain ⟨-, w, a, t, rest, spans, after, visible, capitals, capital, tail⟩ := acronymPattern_takes.mp taken
      rw [spans.after, after] at few
      rw [takeWhile_acronym capitals capital tail] at few
      obtain few | all := few
      · have := List.length_pos_iff.mpr visible
        simp only [List.length_append, List.length_singleton] at few
        omega
      · have other := all t (by simp)
        rw [not_isUpper_of_isWordTail tail] at other
        cases other

theorem tailPattern_run {lead : Option Char} (capital : ∀ a ∈ lead, a.isUpper = true) (visible : w ≠ [])
    (tails : ∀ b ∈ w, isWordTail b = true) (ends : NotNext isWordTail rest) (spans : c.Spans (lead.toList ++ w) d)
    (after : d.after = rest) : tailPattern.run c [] (fun c g => some (c, g)) = some (d, []) := by
  have longest {c : Cursor} (spans : c.Spans w d) :
      (Pattern.many isWordTail 1 true).run c [] (fun c g => some (c, g)) = some (d, []) := by
    have whole : c.after.takeWhile isWordTail = w := by
      rw [spans.after, after]
      exact takeWhile_append_of_notNext (List.all_eq_true.mpr tails) ends
    exact Pattern.runMany_longest (whole ▸ spans) (whole ▸ List.length_pos_iff.mpr visible) rfl
  change (Pattern.alt (.one Char.isUpper) .empty).run c [] (fun c g => (Pattern.many isWordTail 1 true).run c g _) = _
  cases lead with
  | none =>
      obtain ⟨t, w, rfl⟩ := List.exists_cons_of_ne_nil visible
      have small := not_isUpper_of_isWordTail (tails t List.mem_cons_self)
      have fails : (Pattern.one Char.isUpper).run c []
          (fun c g => (Pattern.many isWordTail 1 true).run c g fun c g => some (c, g)) = none := by
        rw [Pattern.run, spans.after]
        simp [small]
      rw [Pattern.run, fails]
      exact longest spans
  | some a =>
      obtain ⟨e, first, second⟩ := spans_append (x := [a]) spans
      have leads : (Pattern.one Char.isUpper).run c []
          (fun c g => (Pattern.many isWordTail 1 true).run c g fun c g => some (c, g)) = some (d, []) := by
        rw [Pattern.run, first.after, (Cursor.spans_next first.after).unique first]
        simpa [capital a rfl] using longest second
      rw [Pattern.run, leads]

theorem tailPattern_fails (capitals : ∀ b ∈ c.after, b.isUpper = true) : tailPattern.run c g k = none := by
  cases ran : tailPattern.run c g k with
  | none => rfl
  | some r =>
      obtain ⟨e, i, ⟨d, h, front, ⟨⟨x, spans, tails, long⟩, -⟩⟩, -⟩ := Pattern.run_takes ran
      obtain ⟨y, before⟩ := front.spans
      obtain ⟨t, x, rfl⟩ := List.exists_cons_of_ne_nil (List.length_pos_iff.mp long)
      have other := capitals t (by rw [(before.trans spans).after]; simp)
      rw [not_isUpper_of_isWordTail (tails t List.mem_cons_self)] at other
      cases other

end Matches

/-- The first word of a run is what the pattern matches. -/
theorem FirstWord.matchAt? {w : List Char} (first : FirstWord w rest) {c : Cursor} (after : c.after = w ++ rest) :
    ∃ m, wordPattern.matchAt? c = some m ∧ m.chars = w ∧ m.rest.after = rest := by
  have spans : c.Spans w _ := Cursor.spans_advance after
  have behind := spans.remaining after
  generalize c.advance w.length = d at spans behind
  have ran : wordPattern.run c [] (fun c g => some (c, g)) = some (d, []) := by
    change (Pattern.alt acronymPattern (.alt tailPattern (.many Char.isUpper 1 true))).run c [] _ = _
    rw [Pattern.run]
    cases first with
    | acronym visible capitals capital tail =>
        rw [acronymPattern_run visible capitals capital tail spans behind]
    | @tail lead w _ capital visible tails ends =>
        have few : (c.after.takeWhile Char.isUpper).length ≤ 1 := by
          obtain ⟨t, w, rfl⟩ := List.exists_cons_of_ne_nil visible
          have small : NotNext Char.isUpper (t :: w ++ rest) := by
            simpa [NotNext] using not_isUpper_of_isWordTail (tails t List.mem_cons_self)
          rw [after, List.append_assoc,
            takeWhile_append_of_notNext (List.all_eq_true.mpr (by simpa using capital)) small]
          cases lead <;> simp
        rw [acronymPattern_fails (.inl few), Pattern.run, tailPattern_run capital visible tails ends spans behind]
    | capitals visible capitals =>
        have all : ∀ b ∈ c.after, b.isUpper = true := by simpa [after] using capitals
        have whole : c.after.takeWhile Char.isUpper = w := by
          rw [after]
          exact takeWhile_append_of_notNext (List.all_eq_true.mpr capitals) (by simp [NotNext])
        rw [acronymPattern_fails (.inr all), Pattern.run, tailPattern_fails all]
        exact Pattern.runMany_longest (whole ▸ spans) (whole ▸ List.length_pos_iff.mpr visible) rfl
  obtain ⟨m, here, taken, rest⟩ := Pattern.matchAt?_spans ran spans
  exact ⟨m, here, taken, rest ▸ behind⟩

/-- The words of a run are what the pattern finds. -/
theorem wordPattern_finds (c : Cursor) (letters : ∀ a ∈ c.after, a.isAlphanum = true) :
    Finds wordPattern c (runWords c.after) := by
  induction size : c.after.length using Nat.strongRecOn generalizing c with
  | ind n ih =>
      by_cases visible : c.after = []
      · rw [visible]
        refine .done visible ?_
        obtain ⟨before, _, offset⟩ := c
        subst visible
        rfl
      · obtain ⟨w, rest, after, first⟩ := FirstWord.exists_of_letters visible letters
        obtain ⟨m, here, taken, behind⟩ := first.matchAt? after
        rw [after] at letters
        obtain ⟨-, letters⟩ := List.forall_mem_append.mp letters
        have spans := (Pattern.matchAt?_eq_some here).2.1
        have visible : m.chars ≠ [] := taken ▸ first.visible
        have more := ih _ (size ▸ spans.shorter visible) m.rest (behind ▸ letters) rfl
        rw [after, first.runWords letters, ← taken, ← behind]
        exact .take here visible more

/-- The words of a name are the matches of the word pattern in the matches of the run pattern. -/
theorem splitWords_eq_matches (s : String) : splitWords s =
    (runPattern.findAll s).flatMap fun run => (wordPattern.findAll run.text).map (·.text) := by
  have runs : (runPattern.findAll s).map (·.chars) = alphanumericRuns s.toList := (runPattern_finds _).findAll
  rw [splitWords, ← runs, List.flatMap_map, List.map_flatMap]
  refine List.flatMap_congr fun run mem => ?_
  have letters : ∀ a ∈ run.chars, a.isAlphanum = true := by
    intro a inside
    have listed : a ∈ (alphanumericRuns s.toList).flatten :=
      List.mem_flatten.mpr ⟨run.chars, runs ▸ List.mem_map_of_mem mem, inside⟩
    rw [alphanumericRuns_flatten] at listed
    exact (List.mem_filter.mp listed).2
  have spelled : run.text.toList = run.chars := String.toList_ofList
  have walk := wordPattern_finds (.start run.text.toList) (fun a inside => letters a (spelled ▸ inside))
  have words : (wordPattern.findAll run.text).map (·.chars) = runWords run.chars :=
    walk.findAll.trans (congrArg runWords spelled)
  rw [← words, List.map_map]
  rfl

end ReactMigration.Naming
