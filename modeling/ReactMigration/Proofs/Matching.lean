import Mathlib.Data.Bool.AllAny
import Mathlib.Logic.Relation
import ReactMigration.Proofs.MarkupGrammar

/-!
What patterns match.

`Pattern.Takes` says what a pattern can take from a place, whichever choice it makes; matching finds one
of these, and fails only if there is none.  Searching gives the leftmost match, and replacing copies the
text between the matches, which do not overlap.
-/

namespace ReactMigration.Text

/-- A stretch of text leads to one place. -/
theorem Cursor.Spans.unique {c d e : Cursor} {x : List Char} (hd : c.Spans x d) (he : c.Spans x e) :
    d = e := by
  have after := List.append_cancel_left (hd.after.symm.trans he.after)
  have before := hd.before.trans he.before.symm
  have offset := hd.offset.trans he.offset.symm
  cases d
  cases e
  simp_all

/-- What stands up to a place further on. -/
theorem captured_eq {c d : Cursor} {x : List Char} (spans : c.Spans x d) :
    c.after.take (d.offset - c.offset) = x := by
  rw [spans.offset, Nat.add_sub_cancel_left, spans.after, List.take_left]

theorem spans_append {c d : Cursor} {x y : List Char} (spans : c.Spans (x ++ y) d) :
    ∃ e, c.Spans x e ∧ e.Spans y d := by
  have after : c.after = x ++ (y ++ d.after) := by
    rw [spans.after, List.append_assoc]
  have first := Cursor.spans_advance after
  have second := Cursor.spans_advance (first.remaining after)
  rw [(first.trans second).unique spans] at second
  exact ⟨_, first, second⟩

namespace Pattern

/-- The pattern can take the text between two cursors, with the captures before and after it.  A look
ahead keeps the captures of the first match that it finds. -/
def Takes : Pattern → Cursor → Captures → Cursor → Captures → Prop
  | .empty, c, g, d, h => d = c ∧ h = g
  | .one p, c, g, d, h => (∃ a, p a = true ∧ c.Spans [a] d) ∧ h = g
  | .many p least _, c, g, d, h =>
      (∃ x, c.Spans x d ∧ (∀ a ∈ x, p a = true) ∧ least ≤ x.length) ∧ h = g
  | .seq p q, c, g, d, h => ∃ e i, p.Takes c g e i ∧ q.Takes e i d h
  | .alt p q, c, g, d, h => p.Takes c g d h ∨ q.Takes c g d h
  | .star p, c, g, d, h =>
      Relation.ReflTransGen (fun s t : Cursor × Captures => p.Takes s.1 s.2 t.1 t.2) (c, g) (d, h)
  | .group i p, c, g, d, h =>
      ∃ g', p.Takes c g d g' ∧ h = (i, c.after.take (d.offset - c.offset)) :: g'
  | .again i, c, g, d, h =>
      (∃ t, g.find? (·.1 == i) = some (i, t) ∧ c.Spans t d) ∧ h = g
  | .ahead true p, c, g, d, h => d = c ∧ ∃ e, p.run c g (fun c g => some (c, g)) = some (e, h)
  | .ahead false p, c, g, d, h => d = c ∧ h = g ∧ p.run c g (fun c g => some (c, g)) = none
  | .notAfter p, c, g, d, h => d = c ∧ h = g ∧ NotNext p c.before
  | .boundary, c, g, d, h => d = c ∧ h = g ∧ atBoundary c = true
  | .first, c, g, d, h => d = c ∧ h = g ∧ c.before = []
  | .last, c, g, d, h => d = c ∧ h = g ∧ (c.after = [] ∨ c.after = ['\n'])

variable {p q : Pattern} {c d e : Cursor} {g h : Captures} {k : Continuation} {x : List Char}
  {r : Cursor × Captures}

theorem Takes.spans (taken : p.Takes c g d h) : ∃ x, c.Spans x d := by
  induction p generalizing c g d h with
  | empty => exact ⟨[], taken.1 ▸ .refl c⟩
  | one p =>
      obtain ⟨⟨a, -, spans⟩, -⟩ := taken
      exact ⟨[a], spans⟩
  | many p least greedy =>
      obtain ⟨⟨x, spans, -⟩, -⟩ := taken
      exact ⟨x, spans⟩
  | seq p q ihp ihq =>
      obtain ⟨e, i, first, second⟩ := taken
      obtain ⟨x, hx⟩ := ihp first
      obtain ⟨y, hy⟩ := ihq second
      exact ⟨x ++ y, hx.trans hy⟩
  | alt p q ihp ihq =>
      cases taken with
      | inl taken => exact ihp taken
      | inr taken => exact ihq taken
  | star p ih =>
      have rounds : ∀ s t : Cursor × Captures,
          Relation.ReflTransGen (fun s t : Cursor × Captures => p.Takes s.1 s.2 t.1 t.2) s t →
            ∃ x, s.1.Spans x t.1 := by
        intro s t reached
        induction reached with
        | refl => exact ⟨[], .refl _⟩
        | tail _ last ih' =>
            obtain ⟨x, hx⟩ := ih'
            obtain ⟨y, hy⟩ := ih last
            exact ⟨x ++ y, hx.trans hy⟩
      exact rounds _ _ taken
  | group i p ih =>
      obtain ⟨g', taken, -⟩ := taken
      exact ih taken
  | again i =>
      obtain ⟨⟨t, -, spans⟩, -⟩ := taken
      exact ⟨t, spans⟩
  | ahead wanted p =>
      cases wanted <;> exact ⟨[], taken.1 ▸ .refl c⟩
  | notAfter p => exact ⟨[], taken.1 ▸ .refl c⟩
  | boundary => exact ⟨[], taken.1 ▸ .refl c⟩
  | first => exact ⟨[], taken.1 ▸ .refl c⟩
  | last => exact ⟨[], taken.1 ▸ .refl c⟩

/-! ### Matching finds what a pattern can take -/

theorem runMany_eq_some {p : Char → Bool} {greedy : Bool} {least offset : Nat} {before after : List Char}
    (found : runMany p greedy g k least before after offset = some r) :
    ∃ d x, (Cursor.mk before after offset).Spans x d ∧ (∀ a ∈ x, p a = true) ∧ least ≤ x.length ∧
      k d g = some r := by
  have here {least : Nat} {after : List Char} {before : List Char} {offset : Nat}
      (found : (if least = 0 then k ⟨before, after, offset⟩ g else none) = some r) :
      ∃ d x, (Cursor.mk before after offset).Spans x d ∧ (∀ a ∈ x, p a = true) ∧ least ≤ x.length ∧
        k d g = some r := by
    split at found
    · rename_i zero
      exact ⟨_, [], .refl _, by simp, by simp [zero], found⟩
    · cases found
  induction after generalizing least before offset with
  | nil => exact here found
  | cons a after ih =>
      have further (found : runMany p greedy g k (least - 1) (a :: before) after (offset + 1) = some r)
          (pa : p a = true) : ∃ d x, (Cursor.mk before (a :: after) offset).Spans x d ∧
            (∀ b ∈ x, p b = true) ∧ least ≤ x.length ∧ k d g = some r := by
        obtain ⟨d, x, spans, all, enough, result⟩ := ih found
        refine ⟨d, a :: x, ?_, ?_, ?_, result⟩
        · exact (Cursor.spans_next rfl).trans spans
        · simpa [pa] using all
        · simp only [List.length_cons]
          omega
      rw [runMany] at found
      simp only at found
      split at found
      · rename_i pa
        split at found
        · split at found
          · rename_i same
            cases found
            exact further same pa
          · exact here found
        · split at found
          · rename_i same
            cases found
            exact here same
          · exact further found pa
      · exact here found

theorem run_takes (found : p.run c g k = some r) : ∃ d h, p.Takes c g d h ∧ k d h = some r := by
  induction p generalizing c g k with
  | empty => exact ⟨c, g, ⟨rfl, rfl⟩, found⟩
  | one p =>
      rw [run] at found
      split at found
      · cases found
      · rename_i a rest after
        split at found
        · rename_i pa
          exact ⟨c.next, g, ⟨⟨a, pa, Cursor.spans_next after⟩, rfl⟩, found⟩
        · cases found
  | many p least greedy =>
      obtain ⟨d, x, spans, all, enough, result⟩ := runMany_eq_some found
      exact ⟨d, g, ⟨⟨x, spans, all, enough⟩, rfl⟩, result⟩
  | seq p q ihp ihq =>
      obtain ⟨e, i, first, found⟩ := ihp found
      obtain ⟨d, h, second, result⟩ := ihq found
      exact ⟨d, h, ⟨e, i, first, second⟩, result⟩
  | alt p q ihp ihq =>
      rw [run] at found
      split at found
      · rename_i same
        cases found
        obtain ⟨d, h, taken, result⟩ := ihp same
        exact ⟨d, h, .inl taken, result⟩
      · obtain ⟨d, h, taken, result⟩ := ihq found
        exact ⟨d, h, .inr taken, result⟩
  | star p ih =>
      have rounds : ∀ n c g, runStar p.run k n c g = some r →
          ∃ d h, (Pattern.star p).Takes c g d h ∧ k d h = some r := by
        intro n
        induction n with
        | zero => exact fun c g found => ⟨c, g, .refl, found⟩
        | succ n ihn =>
            intro c g found
            rw [runStar] at found
            split at found
            · rename_i same
              cases found
              obtain ⟨e, i, first, more⟩ := ih same
              obtain ⟨d, h, taken, result⟩ := ihn e i more
              exact ⟨d, h, .head first taken, result⟩
            · exact ⟨c, g, .refl, found⟩
      exact rounds _ c g found
  | group i p ih =>
      obtain ⟨d, g', taken, result⟩ := ih found
      exact ⟨d, _, ⟨g', taken, rfl⟩, result⟩
  | again i =>
      rw [run] at found
      split at found
      · rename_i j t known
        split at found
        · rename_i starts
          obtain ⟨rest, after⟩ := startsWith_iff.mp starts
          have same : j = i := by simpa using List.find?_some known
          subst same
          exact ⟨_, g, ⟨⟨t, known, Cursor.spans_advance after⟩, rfl⟩, found⟩
        · cases found
      · cases found
  | ahead wanted p =>
      rw [run] at found
      split at found
      · rename_i e h inner
        cases wanted with
        | true => exact ⟨c, h, ⟨rfl, e, inner⟩, found⟩
        | false => cases found
      · rename_i inner
        cases wanted with
        | true => cases found
        | false => exact ⟨c, g, ⟨rfl, rfl, inner⟩, found⟩
  | notAfter p =>
      rw [run] at found
      split at found
      · rename_i b rest before
        split at found
        · cases found
        · rename_i other
          exact ⟨c, g, ⟨rfl, rfl, by simpa [NotNext, before] using other⟩, found⟩
      · rename_i before
        exact ⟨c, g, ⟨rfl, rfl, by simp [NotNext, before]⟩, found⟩
  | boundary =>
      rw [run] at found
      split at found
      · rename_i bound
        exact ⟨c, g, ⟨rfl, rfl, bound⟩, found⟩
      · cases found
  | first =>
      rw [run] at found
      split at found
      · rename_i empty
        exact ⟨c, g, ⟨rfl, rfl, List.isEmpty_iff.mp empty⟩, found⟩
      · cases found
  | last =>
      rw [run] at found
      split at found
      · rename_i ends
        exact ⟨c, g, ⟨rfl, rfl, by simpa using ends⟩, found⟩
      · cases found

theorem runMany_isSome {p : Char → Bool} {greedy : Bool} {least : Nat} (spans : c.Spans x d)
    (all : ∀ a ∈ x, p a = true) (enough : least ≤ x.length) (goesOn : (k d g).isSome) :
    (runMany p greedy g k least c.before c.after c.offset).isSome := by
  induction x generalizing c least with
  | nil =>
      have zero : least = 0 := Nat.le_zero.mp enough
      obtain rfl : d = c := spans.unique (.refl c)
      subst zero
      obtain ⟨before, after, offset⟩ := d
      cases after with
      | nil => exact goesOn
      | cons a after =>
          rw [runMany]
          simp only [if_true]
          split
          · split
            · split
              · rfl
              · exact goesOn
            · split
              · rfl
              · rename_i failed
                rw [failed] at goesOn
                cases goesOn
          · exact goesOn
  | cons a x ih =>
      have after : c.after = a :: (x ++ d.after) := spans.after
      have rest : c.next.Spans x d := by
        refine ⟨?_, ?_, ?_⟩
        · simp [Cursor.next, after]
        · rw [spans.before]
          simp [Cursor.next, after]
        · rw [spans.offset]
          simp only [Cursor.next, after, List.length_cons]
          omega
      have further := ih rest (fun b mem => all b (List.mem_cons_of_mem a mem))
        (show least - 1 ≤ x.length by simp only [List.length_cons] at enough; omega)
      simp only [Cursor.next, after] at further
      obtain ⟨result, further⟩ := Option.isSome_iff_exists.mp further
      rw [after, runMany]
      simp only [all a List.mem_cons_self, if_true, further]
      split
      · rfl
      · split
        · rfl
        · rfl

/-- As many characters as possible are taken, if the rest then matches. -/
theorem runMany_longest {p : Char → Bool} {least : Nat} (spans : c.Spans (c.after.takeWhile p) d)
    (enough : least ≤ (c.after.takeWhile p).length) (found : k d g = some r) :
    runMany p true g k least c.before c.after c.offset = some r := by
  obtain ⟨before, after, offset⟩ := c
  induction after generalizing before offset least with
  | nil =>
      obtain rfl := spans.unique (.refl _)
      have zero : least = 0 := Nat.le_zero.mp enough
      rw [runMany, if_pos zero]
      exact found
  | cons a after ih =>
      by_cases pa : p a = true
      · simp only [List.takeWhile_cons, pa, if_true] at spans enough
        have next : (Cursor.mk before (a :: after) offset).Spans [a] ⟨a :: before, after, offset + 1⟩ :=
          Cursor.spans_next rfl
        have rest := Cursor.spans_while p ⟨a :: before, after, offset + 1⟩
        obtain rfl := spans.unique (next.trans rest)
        have enough' : least - 1 ≤ (after.takeWhile p).length := by
          simp only [List.length_cons] at enough
          omega
        have further := ih (a :: before) (offset + 1) rest enough'
        rw [runMany]
        simp only [pa, if_true]
        rw [further]
      · simp only [List.takeWhile_cons, pa] at spans enough
        obtain rfl := spans.unique (.refl _)
        have zero : least = 0 := Nat.le_zero.mp enough
        rw [runMany]
        simp only [pa, zero, if_true]
        exact found

/-- Every body that is repeated takes at least one character. -/
def Steady : Pattern → Prop
  | .seq p q => p.Steady ∧ q.Steady
  | .alt p q => p.Steady ∧ q.Steady
  | .star p => p.Steady ∧ ∀ c g d h, p.Takes c g d h → d.after.length < c.after.length
  | .group _ p => p.Steady
  | _ => True

theorem run_isSome (steady : p.Steady) (taken : p.Takes c g d h) (goesOn : (k d h).isSome) :
    (p.run c g k).isSome := by
  induction p generalizing c g d h k with
  | empty =>
      obtain ⟨rfl, rfl⟩ := taken
      exact goesOn
  | one p =>
      obtain ⟨⟨a, pa, spans⟩, rfl⟩ := taken
      have after : c.after = a :: d.after := spans.after
      have next : c.next = d := (Cursor.spans_next after).unique spans
      rw [run, after]
      simpa [pa, next] using goesOn
  | many p least greedy =>
      obtain ⟨⟨x, spans, all, enough⟩, rfl⟩ := taken
      exact runMany_isSome spans all enough goesOn
  | seq p q ihp ihq =>
      obtain ⟨e, i, first, second⟩ := taken
      exact ihp steady.1 first (ihq steady.2 second goesOn)
  | alt p q ihp ihq =>
      rw [run]
      split
      · rfl
      · rename_i failed
        cases taken with
        | inl taken => simpa [failed] using ihp steady.1 taken goesOn
        | inr taken => exact ihq steady.2 taken goesOn
  | star p ih =>
      -- the rounds left suffice, since each one takes a character
      have rounds : ∀ (s t : Cursor × Captures),
          Relation.ReflTransGen (fun s t : Cursor × Captures => p.Takes s.1 s.2 t.1 t.2) s t →
            (k t.1 t.2).isSome → ∀ n, s.1.after.length ≤ n → (runStar p.run k n s.1 s.2).isSome := by
        intro s t reached goesOn
        induction reached using Relation.ReflTransGen.head_induction_on with
        | refl =>
            intro n _
            cases n with
            | zero => exact goesOn
            | succ n =>
                rw [runStar]
                split
                · rfl
                · exact goesOn
        | head first _ ih' =>
            intro n enough
            have shorter := steady.2 _ _ _ _ first
            cases n with
            | zero => omega
            | succ n =>
                rw [runStar]
                have found := ih steady.1 first (ih' n (by omega))
                obtain ⟨result, found⟩ := Option.isSome_iff_exists.mp found
                rw [found]
                rfl
      exact rounds _ _ taken goesOn _ (Nat.le_refl _)
  | group i p ih =>
      obtain ⟨g', taken, rfl⟩ := taken
      exact ih steady taken goesOn
  | again i =>
      obtain ⟨⟨t, known, spans⟩, rfl⟩ := taken
      have next : c.advance t.length = d := (Cursor.spans_advance spans.after).unique spans
      rw [run, known]
      simpa [startsWith_iff.mpr ⟨_, spans.after⟩, next] using goesOn
  | ahead wanted p =>
      cases wanted with
      | true =>
          obtain ⟨rfl, e, found⟩ := taken
          rw [run, found]
          exact goesOn
      | false =>
          obtain ⟨rfl, rfl, failed⟩ := taken
          rw [run, failed]
          exact goesOn
  | notAfter p =>
      obtain ⟨rfl, rfl, before⟩ := taken
      rw [run]
      split
      · rename_i b rest hb
        have := before b (by rw [hb]; rfl)
        simpa [this] using goesOn
      · exact goesOn
  | boundary =>
      obtain ⟨rfl, rfl, bound⟩ := taken
      rw [run, if_pos bound]
      exact goesOn
  | first =>
      obtain ⟨rfl, rfl, before⟩ := taken
      rw [run, before]
      exact goesOn
  | last =>
      obtain ⟨rfl, rfl, ends⟩ := taken
      rw [run, if_pos (by simpa using ends)]
      exact goesOn

/-- A pattern that can take one stretch only takes it. -/
theorem run_of_unique (steady : p.Steady) (taken : p.Takes c g d h)
    (unique : ∀ e i, p.Takes c g e i → e = d ∧ i = h) (found : k d h = some r) : p.run c g k = some r := by
  obtain ⟨r', ran⟩ := Option.isSome_iff_exists.mp (run_isSome (k := k) steady taken (by rw [found]; rfl))
  obtain ⟨e, i, taken', result⟩ := run_takes ran
  obtain ⟨rfl, rfl⟩ := unique e i taken'
  rw [ran, ← result, found]

/-- A look ahead that must fail asks that the pattern can take nothing. -/
theorem notAhead_takes (steady : p.Steady) :
    (Pattern.ahead false p).Takes c g d h ↔ d = c ∧ h = g ∧ ∀ e i, ¬ p.Takes c g e i := by
  have fails : p.run c g (fun c g => some (c, g)) = none ↔ ∀ e i, ¬ p.Takes c g e i := by
    constructor
    · intro failed e i taken
      have found := run_isSome (k := fun c g => some (c, g)) steady taken rfl
      rw [failed] at found
      cases found
    · intro unable
      cases ran : p.run c g (fun c g => some (c, g)) with
      | none => rfl
      | some r =>
          obtain ⟨e, i, taken, -⟩ := run_takes ran
          exact absurd taken (unable e i)
  rw [← fails]
  rfl

/-! ### Literal texts -/

theorem chars_takes {cs : List Char} : (chars cs).Takes c g d h ↔ c.Spans cs d ∧ h = g := by
  have one {a : Char} {c d : Cursor} {g h : Captures} :
      (Pattern.one (· == a)).Takes c g d h ↔ c.Spans [a] d ∧ h = g := by
    simp [Takes]
  induction cs using chars.induct generalizing c g d h with
  | case1 =>
      constructor
      · rintro ⟨rfl, rfl⟩
        exact ⟨.refl _, rfl⟩
      · rintro ⟨spans, rfl⟩
        exact ⟨spans.unique (.refl c), rfl⟩
  | case2 a => exact one
  | case3 a cs more ih =>
      rw [chars]
      · constructor
        · rintro ⟨e, i, first, rest⟩
          have first := one.mp first
          have rest := ih.mp rest
          exact ⟨first.1.trans rest.1, rest.2.trans first.2⟩
        · rintro ⟨spans, rfl⟩
          have next : c.Spans [a] c.next := Cursor.spans_next spans.after
          have rest : c.next.Spans cs (c.next.advance cs.length) :=
            Cursor.spans_advance (next.remaining spans.after)
          obtain rfl := spans.unique (next.trans rest)
          exact ⟨c.next, h, one.mpr ⟨next, rfl⟩, ih.mpr ⟨rest, rfl⟩⟩
      · exact more

@[simp] theorem text_takes {s : String} : (text s).Takes c g d h ↔ c.Spans s.toList d ∧ h = g :=
  chars_takes

@[simp] theorem seq_takes :
    (p ++ q : Pattern).Takes c g d h ↔ ∃ e i, p.Takes c g e i ∧ q.Takes e i d h :=
  Iff.rfl

@[simp] theorem alt_takes :
    (p <|> q : Pattern).Takes c g d h ↔ p.Takes c g d h ∨ q.Takes c g d h :=
  Iff.rfl

@[simp] theorem opt_takes :
    (opt p).Takes c g d h ↔ p.Takes c g d h ∨ d = c ∧ h = g :=
  Iff.rfl

@[simp] theorem boundary_takes :
    Pattern.boundary.Takes c g d h ↔ d = c ∧ h = g ∧ atBoundary c = true :=
  Iff.rfl

@[simp] theorem notAfter_takes {p : Char → Bool} :
    (Pattern.notAfter p).Takes c g d h ↔ d = c ∧ h = g ∧ NotNext p c.before :=
  Iff.rfl

@[simp] theorem one_takes {p : Char → Bool} :
    (Pattern.one p).Takes c g d h ↔ (∃ a, p a = true ∧ c.Spans [a] d) ∧ h = g :=
  Iff.rfl

theorem many_takes {p : Char → Bool} {least : Nat} {greedy : Bool} :
    (Pattern.many p least greedy).Takes c g d h ↔
      (∃ x, c.Spans x d ∧ (∀ a ∈ x, p a = true) ∧ least ≤ x.length) ∧ h = g :=
  Iff.rfl

@[simp] theorem group_takes {i : Nat} :
    (Pattern.group i p).Takes c g d h ↔
      ∃ g', p.Takes c g d g' ∧ h = (i, c.after.take (d.offset - c.offset)) :: g' :=
  Iff.rfl

@[simp] theorem oneOf_takes {l : List String} :
    (oneOf l).Takes c g d h ↔ (∃ s ∈ l, c.Spans s.toList d) ∧ h = g := by
  induction l using oneOf.induct with
  | case1 => simp [oneOf, Takes, run]
  | case2 s => simp [oneOf]
  | case3 s l more ih =>
      rw [oneOf]
      · rw [Takes, ih, text_takes]
        simp only [List.mem_cons, exists_eq_or_imp]
        rw [or_and_right]
      · exact more

theorem chars_steady (cs : List Char) : (chars cs).Steady := by
  induction cs using chars.induct with
  | case1 => trivial
  | case2 => trivial
  | case3 a cs more ih =>
      rw [chars]
      · exact ⟨trivial, ih⟩
      · exact more

@[simp] theorem text_steady (s : String) : (text s).Steady :=
  chars_steady s.toList

/-- A character does not follow. -/
theorem notFollowed_takes {s : String} {a : Char} (single : s.toList = [a]) :
    (Pattern.ahead false (text s)).Takes c g d h ↔ d = c ∧ h = g ∧ NotNext (· == a) c.after := by
  rw [notAhead_takes (text_steady s)]
  refine and_congr_right fun _ => and_congr_right fun _ => ?_
  constructor
  · intro unable b mem
    rw [beq_eq_false_iff_ne]
    rintro rfl
    cases after : c.after with
    | nil => simp [after] at mem
    | cons x rest =>
        obtain rfl : x = b := by simpa [after] using mem
        exact unable c.next g (text_takes.mpr ⟨by rw [single]; exact Cursor.spans_next after, rfl⟩)
  · intro other e i taken
    have spans := (text_takes.mp taken).1
    rw [single] at spans
    have := other a (by rw [spans.after]; rfl)
    simp at this

@[simp] theorem oneOf_steady (l : List String) : (oneOf l).Steady := by
  induction l using oneOf.induct with
  | case1 => trivial
  | case2 s => exact text_steady s
  | case3 s l more ih =>
      rw [oneOf]
      · exact ⟨text_steady s, ih⟩
      · exact more

@[simp] theorem seq_steady : (p ++ q : Pattern).Steady ↔ p.Steady ∧ q.Steady :=
  Iff.rfl

@[simp] theorem alt_steady : (p <|> q : Pattern).Steady ↔ p.Steady ∧ q.Steady :=
  Iff.rfl

@[simp] theorem opt_steady : (opt p).Steady ↔ p.Steady :=
  iff_of_eq (and_true _)

/-! ### Matches and searches -/

variable {m : Match}

theorem matchAt?_eq_some (found : p.matchAt? c = some m) :
    p.Takes c [] m.rest m.groups ∧ c.Spans m.chars m.rest ∧ m.start = c.offset ∧
      m.stop = m.rest.offset := by
  unfold matchAt? matchThen? at found
  split at found
  · rename_i d g ran
    cases found
    obtain ⟨d', g', taken, same⟩ := run_takes ran
    simp only [if_true, Option.some.injEq, Prod.mk.injEq] at same
    obtain ⟨rfl, rfl⟩ := same
    obtain ⟨x, spans⟩ := taken.spans
    exact ⟨taken, by rwa [captured_eq spans], rfl, rfl⟩
  · cases found

/-- A match that takes something ends behind its start. -/
theorem matchAt?_moves (found : p.matchAt? c = some m) (visible : m.chars ≠ []) : (m.stop == m.start) = false := by
  obtain ⟨-, spans, start, stop⟩ := matchAt?_eq_some found
  have := List.length_pos_iff.mpr visible
  rw [beq_eq_false_iff_ne, stop, start, spans.offset]
  omega

theorem matchAt?_isSome (steady : p.Steady) (able : ∃ d h, p.Takes c [] d h) :
    (p.matchAt? c).isSome := by
  obtain ⟨d, h, taken⟩ := able
  have ran : (p.run c [] fun c g => if (fun _ => true) c then some (c, g) else none).isSome :=
    run_isSome steady taken rfl
  obtain ⟨⟨e, i⟩, ran⟩ := Option.isSome_iff_exists.mp ran
  unfold matchAt? matchThen?
  rw [ran]
  rfl

theorem matchAt?_of_run (ran : p.run c [] (fun c g => some (c, g)) = some (d, h)) :
    ∃ m, p.matchAt? c = some m ∧ m.groups = h ∧ m.rest = d := by
  refine ⟨⟨c.offset, d.offset, c.after.take (d.offset - c.offset), h, d⟩, ?_, rfl, rfl⟩
  unfold matchAt? matchThen?
  simp only [if_true, ran]

/-- The match that a run up to a place gives. -/
theorem matchAt?_spans (ran : p.run c [] (fun c g => some (c, g)) = some (d, h)) (spans : c.Spans x d) :
    ∃ m, p.matchAt? c = some m ∧ m.chars = x ∧ m.rest = d := by
  obtain ⟨m, found, -, rfl⟩ := matchAt?_of_run ran
  have taken := (matchAt?_eq_some found).2.1
  exact ⟨m, found, List.append_cancel_right (taken.after.symm.trans spans.after), rfl⟩

/-- Characters of a class are matched as far as they go. -/
theorem many_matchAt? {q : Char → Bool} (visible : c.after.takeWhile q ≠ []) :
    ∃ m, (Pattern.many q 1 true).matchAt? c = some m ∧ m.chars = c.after.takeWhile q ∧
      m.rest.after = c.after.dropWhile q := by
  have spans := Cursor.spans_while q c
  have ran : (Pattern.many q 1 true).run c [] (fun c g => some (c, g)) = _ :=
    runMany_longest spans (List.length_pos_iff.mpr visible) rfl
  obtain ⟨m, here, taken, behind⟩ := matchAt?_spans ran spans
  exact ⟨m, here, taken, behind ▸ spans.remaining List.takeWhile_append_dropWhile.symm⟩

theorem many_unmatched {q : Char → Bool} (ends : NotNext q c.after) :
    (Pattern.many q 1 true).matchAt? c = none := by
  cases search : (Pattern.many q 1 true).matchAt? c with
  | none => rfl
  | some m =>
      obtain ⟨⟨⟨x, spans, all, long⟩, -⟩, -⟩ := matchAt?_eq_some search
      cases x with
      | nil => simp at long
      | cons a x =>
          have other := ends a (by rw [spans.after]; rfl)
          rw [all a List.mem_cons_self] at other
          cases other

/-- A match right here is the first one. -/
theorem searchAt?_of_matchAt? (found : p.matchAt? c = some m) : p.searchAt? c = some m := by
  unfold searchAt?
  cases c.after.length with
  | zero => exact found
  | succ n => rw [searchWithin, found]

theorem matchesWithin_unmatched (none : p.searchAt? c = none) (fuel : Nat) : p.matchesWithin fuel c = [] := by
  cases fuel with
  | zero => rfl
  | succ fuel => rw [matchesWithin, none]

/-- A match right here comes before those behind it. -/
theorem matchesWithin_matched (found : p.matchAt? c = some m) (visible : m.chars ≠ []) (n : Nat) :
    p.matchesWithin (n + 1) c = m :: p.matchesWithin n m.rest := by
  rw [matchesWithin, searchAt?_of_matchAt? found]
  simp only [matchAt?_moves found visible, Bool.false_eq_true, if_false]

/-- Without a match here the matches are those from the next character on. -/
theorem matchesWithin_next {a : Char} {rest : List Char} (after : c.after = a :: rest)
    (unmatched : p.matchAt? c = none) (n : Nat) : p.matchesWithin n c = p.matchesWithin n c.next := by
  have search : p.searchAt? c = p.searchAt? c.next := by
    have next : c.next.after = rest := (Cursor.spans_next after).remaining after
    rw [searchAt?, searchAt?, after, next, List.length_cons, searchWithin, unmatched]
  cases n with
  | zero => rfl
  | succ n => rw [matchesWithin, matchesWithin, search]

/-- No match from here on. -/
theorem matchAt?_of_searchAt? (failed : p.searchAt? c = none) (spans : c.Spans x d) :
    p.matchAt? d = none := by
  have within : ∀ n (c : Cursor) (x : List Char), p.searchWithin n c = none → c.Spans x d →
      x.length ≤ n → p.matchAt? d = none := by
    intro n
    induction n with
    | zero =>
        intro c x failed spans short
        obtain rfl := List.length_eq_zero_iff.mp (Nat.le_zero.mp short)
        obtain rfl := spans.unique (.refl c)
        exact failed
    | succ n ih =>
        intro c x failed spans short
        rw [searchWithin] at failed
        split at failed
        · cases failed
        · rename_i here
          cases x with
          | nil =>
              obtain rfl := spans.unique (.refl c)
              exact here
          | cons a x =>
              have next : c.Spans [a] c.next := Cursor.spans_next spans.after
              have rest := Cursor.spans_advance (next.remaining spans.after)
              obtain rfl := spans.unique (next.trans rest)
              exact ih c.next x failed rest (Nat.le_of_succ_le_succ short)
  refine within _ c x failed spans ?_
  rw [spans.length]
  omega

/-- The leftmost match. -/
theorem searchAt?_eq_some (found : p.searchAt? c = some m) :
    ∃ x d, c.Spans x d ∧ p.matchAt? d = some m ∧
      ∀ y e, c.Spans y e → y.length < x.length → p.matchAt? e = none := by
  have within : ∀ n (c : Cursor), n ≤ c.after.length → p.searchWithin n c = some m →
      ∃ x d, c.Spans x d ∧ p.matchAt? d = some m ∧
        ∀ y e, c.Spans y e → y.length < x.length → p.matchAt? e = none := by
    intro n
    induction n with
    | zero => exact fun c _ found => ⟨[], c, .refl c, found, by simp⟩
    | succ n ih =>
        intro c long found
        rw [searchWithin] at found
        split at found
        · rename_i here
          cases found
          exact ⟨[], c, .refl c, here, by simp⟩
        · rename_i failed
          cases after : c.after with
          | nil => simp [after] at long
          | cons a rest =>
              have next : c.Spans [a] c.next := Cursor.spans_next after
              have length : c.next.after.length = rest.length := by rw [next.remaining after]
              rw [after] at long
              obtain ⟨x, d, spans, here, before⟩ :=
                ih c.next (by rw [length]; exact Nat.le_of_succ_le_succ long) found
              refine ⟨a :: x, d, next.trans spans, here, ?_⟩
              intro y e reached short
              cases y with
              | nil =>
                  obtain rfl := reached.unique (.refl c)
                  exact failed
              | cons b y =>
                  have same : b :: (y ++ e.after) = a :: rest := reached.after.symm.trans after
                  obtain rfl := (List.cons.inj same).1
                  have rest' := Cursor.spans_advance (next.remaining reached.after)
                  obtain rfl := reached.unique (next.trans rest')
                  exact before y _ rest' (Nat.lt_of_succ_lt_succ short)
  exact within _ c (Nat.le_refl _) found

/-- A pattern occurs where it can take something. -/
theorem occurs_iff (steady : p.Steady) {s : String} :
    p.occurs s = true ↔ ∃ x c d h, (Cursor.start s.toList).Spans x c ∧ p.Takes c [] d h := by
  constructor
  · intro found
    obtain ⟨m, found⟩ := Option.isSome_iff_exists.mp found
    obtain ⟨x, c, reached, here, -⟩ := searchAt?_eq_some found
    exact ⟨x, c, m.rest, m.groups, reached, (matchAt?_eq_some here).1⟩
  · rintro ⟨x, c, d, h, reached, taken⟩
    have able := matchAt?_isSome steady ⟨d, h, taken⟩
    rw [occurs, Option.isSome_iff_ne_none]
    intro failed
    rw [matchAt?_of_searchAt? failed reached] at able
    cases able

/-- Where a pattern does not occur it is not found. -/
theorem findAll_eq_nil_iff {s : String} : p.findAll s = [] ↔ p.occurs s = false := by
  rw [findAll, matchesWithin, occurs, find?]
  cases p.searchAt? (.start s.toList) <;> simp

/-! ### Names -/

theorem not_isBlank_of_isName {a : Char} (letter : isName a = true) : isBlank a = false := by
  have none : ∀ n ∈ List.range' 9 5 ++ List.range' 28 5 ++ List.range' 0x2000 11 ++
      [0x85, 0xA0, 0x1680, 0x2028, 0x2029, 0x202F, 0x205F, 0x3000], isName (Char.ofNat n) = false := by
    decide +kernel
  rw [← Bool.not_eq_true]
  intro blank
  have listed : a.toNat ∈ List.range' 9 5 ++ List.range' 28 5 ++ List.range' 0x2000 11 ++
      [0x85, 0xA0, 0x1680, 0x2028, 0x2029, 0x202F, 0x205F, 0x3000] := by
    simp only [isBlank, Bool.or_eq_true, Bool.and_eq_true, decide_eq_true_eq, beq_iff_eq] at blank
    simp only [List.mem_append, List.mem_range'_1, List.mem_cons, List.not_mem_nil, or_false]
    omega
  have := none _ listed
  rw [Char.ofNat_toNat, letter] at this
  cases this

end Pattern
end ReactMigration.Text
