import ReactMigration.Proofs.Matching

/-!
Replacing every match of a pattern, as a walk over the text: at each place the pattern matches and its
replacement is written, or one character is copied.  Finding every match is such a walk as well.
-/

namespace ReactMigration.Text.Pattern

variable {p : Pattern} {f : Match → List Char} {c d : Cursor} {m : Match} {out out' x : List Char}

/-- From the cursor on, the text with every match replaced. -/
inductive Sweeps (p : Pattern) (f : Match → List Char) : Cursor → List Char → Prop
  | done {c : Cursor} (ends : c.after = []) (unmatched : p.matchAt? c = none) : Sweeps p f c []
  | copy {c d : Cursor} {a : Char} {out : List Char} (next : c.Spans [a] d) (unmatched : p.matchAt? c = none)
      (rest : Sweeps p f d out) : Sweeps p f c (a :: out)
  | put {c : Cursor} {m : Match} {out : List Char} (found : p.matchAt? c = some m)
      (rest : Sweeps p f m.rest out) : Sweeps p f c (f m ++ out)

/-- The walk is determined. -/
theorem Sweeps.unique (h : Sweeps p f c out) (h' : Sweeps p f c out') : out = out' := by
  induction h generalizing out' with
  | done ends unmatched =>
      cases h' with
      | done => rfl
      | copy next => simp [next.after] at ends
      | put found => simp [unmatched] at found
  | copy next unmatched _ ih =>
      cases h' with
      | done ends => simp [next.after] at ends
      | copy next' _ rest' =>
          obtain ⟨rfl, -⟩ := List.cons.inj (next.after.symm.trans next'.after)
          obtain rfl := next.unique next'
          rw [ih rest']
      | put found => simp [unmatched] at found
  | put found _ ih =>
      cases h' with
      | done _ unmatched => simp [found] at unmatched
      | copy _ unmatched => simp [found] at unmatched
      | put found' rest' =>
          obtain rfl := Option.some.inj (found.symm.trans found')
          rw [ih rest']

/-- A stretch without matches is copied. -/
theorem Sweeps.skip (spans : c.Spans x d)
    (unmatched : ∀ y e, c.Spans y e → y.length < x.length → p.matchAt? e = none) (rest : Sweeps p f d out) :
    Sweeps p f c (x ++ out) := by
  induction x generalizing c with
  | nil =>
      obtain rfl := spans.unique (.refl c)
      exact rest
  | cons a x ih =>
      have next : c.Spans [a] c.next := Cursor.spans_next spans.after
      have further := Cursor.spans_advance (next.remaining spans.after)
      rw [(next.trans further).unique spans] at further
      refine .copy next (unmatched [] c (.refl c) (by simp)) (ih further fun y e reached short => ?_)
      exact unmatched (a :: y) e (next.trans reached) (by simpa using short)

/-- Leaving out the matches makes a text shorter, if there is one. -/
theorem Sweeps.shorter (visible : ∀ c m, p.matchAt? c = some m → m.chars ≠ [])
    (walk : Sweeps p (fun _ => []) c out) :
    out.length ≤ c.after.length ∧
      ∀ x d, c.Spans x d → (p.matchAt? d).isSome → out.length < c.after.length := by
  induction walk with
  | done ends unmatched =>
      refine ⟨Nat.zero_le _, fun x d reached found => ?_⟩
      obtain rfl : x = [] := (List.append_eq_nil_iff.mp (reached.after.symm.trans ends)).1
      obtain rfl := reached.unique (.refl _)
      simp [unmatched] at found
  | copy next unmatched _ ih =>
      obtain ⟨most, less⟩ := ih
      have length := next.length
      simp only [List.length_cons, List.length_nil] at length ⊢
      refine ⟨by omega, fun x d reached found => ?_⟩
      cases x with
      | nil =>
          obtain rfl := reached.unique (.refl _)
          simp [unmatched] at found
      | cons a x =>
          obtain ⟨rfl, -⟩ := List.cons.inj (next.after.symm.trans reached.after)
          obtain ⟨e, first, more⟩ := spans_append (x := [_]) reached
          obtain rfl := next.unique first
          have := less x d more found
          omega
  | put found _ ih =>
      have shorter := (matchAt?_eq_some found).2.1.shorter (visible _ _ found)
      have := ih.1
      simp only [List.nil_append]
      exact ⟨by omega, fun _ _ _ _ => by omega⟩

/-- Replacing all matches is such a walk, if no match is empty. -/
theorem replaceWith_sweeps (visible : ∀ c m, p.matchAt? c = some m → m.chars ≠ [])
    (replacement : Match → String) (s : String) :
    Sweeps p (fun m => (replacement m).toList) (.start s.toList) (p.replaceWith replacement s).toList := by
  have within : ∀ n (c : Cursor), c.after.length < n →
      Sweeps p (fun m => (replacement m).toList) c
        (weave (fun m => (replacement m).toList) (p.matchesWithin n c) c.offset c.after) := by
    intro n
    induction n with
    | zero => exact fun c short => absurd short (Nat.not_lt_zero _)
    | succ n ih =>
        intro c short
        rw [matchesWithin]
        cases search : p.searchAt? c with
        | none =>
            have spans : c.Spans c.after (c.advance c.after.length) :=
              Cursor.spans_advance (List.append_nil _).symm
            have ends := spans.remaining (List.append_nil _).symm
            have walk := Sweeps.skip (f := fun m => (replacement m).toList) spans
              (fun y e reached _ => matchAt?_of_searchAt? search reached)
              (.done ends (matchAt?_of_searchAt? search spans))
            simpa [weave] using walk
        | some m =>
            obtain ⟨gap, d, toMatch, found, leftmost⟩ := searchAt?_eq_some search
            obtain ⟨-, spans, start, stop⟩ := matchAt?_eq_some found
            have shorter := spans.shorter (visible d m found)
            have length := toMatch.length
            have moved := matchAt?_moves found (visible d m found)
            have behind : c.after.drop (m.stop - c.offset) = m.rest.after := by
              rw [stop, (toMatch.trans spans).offset, Nat.add_sub_cancel_left, (toMatch.trans spans).after,
                List.drop_left]
            have before : c.after.take (m.start - c.offset) = gap := by
              rw [start, toMatch.offset, Nat.add_sub_cancel_left, toMatch.after, List.take_left]
            simp only [moved, weave, before, behind]
            rw [stop, List.append_assoc]
            exact .skip toMatch leftmost (.put found (ih m.rest (by omega)))
  unfold replaceWith findAll
  rw [String.toList_ofList]
  exact within _ (.start s.toList) (Nat.lt_succ_self _)

/-! ### The matches one after the other -/

/-- From the cursor on, the texts that a pattern finds one after the other, all of them visible. -/
inductive Finds (p : Pattern) : Cursor → List (List Char) → Prop
  | done {c : Cursor} (ends : c.after = []) (unmatched : p.matchAt? c = none) : Finds p c []
  | skip {c : Cursor} {a : Char} {rest : List Char} {found : List (List Char)} (after : c.after = a :: rest)
      (unmatched : p.matchAt? c = none) (more : Finds p c.next found) : Finds p c found
  | take {c : Cursor} {m : Match} {found : List (List Char)} (here : p.matchAt? c = some m)
      (visible : m.chars ≠ []) (more : Finds p m.rest found) : Finds p c (m.chars :: found)

theorem Finds.matchesWithin {found : List (List Char)} (walk : Finds p c found) {n : Nat}
    (enough : c.after.length < n) : (p.matchesWithin n c).map (·.chars) = found := by
  induction walk generalizing n with
  | @done c ends unmatched =>
      have nothing : p.searchAt? c = none := by rw [searchAt?, ends, List.length_nil, searchWithin, unmatched]
      rw [matchesWithin_unmatched nothing]
      rfl
  | skip after unmatched _ ih =>
      have shorter := (Cursor.spans_next after).shorter (List.cons_ne_nil _ _)
      rw [matchesWithin_next after unmatched]
      exact ih (by omega)
  | take here visible _ ih =>
      have shorter := (matchAt?_eq_some here).2.1.shorter visible
      obtain ⟨n, rfl⟩ := Nat.exists_eq_succ_of_ne_zero (Nat.ne_of_gt (Nat.zero_lt_of_lt enough))
      rw [matchesWithin_matched here visible, List.map_cons, ih (by omega)]

theorem Finds.findAll {s : String} {found : List (List Char)} (walk : Finds p (.start s.toList) found) :
    (p.findAll s).map (·.chars) = found :=
  walk.matchesWithin (Nat.lt_succ_self _)

end ReactMigration.Text.Pattern
