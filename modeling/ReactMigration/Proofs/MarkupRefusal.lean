import ReactMigration.Proofs.MarkupReading

/-!
Where the reader of templates stops.

Each round of the reader takes at least one character, so more rounds than characters change nothing,
and the reader gives a tree or a finding at a place inside of the text.  The only other outcome is a
fault, over a tag that begins with a letter outside of ASCII.
-/

namespace ReactMigration.Template

open ReactMigration.Text

/-! ### Rounds -/

theorem readText_succ :
    ∀ {fuel : Nat} {nodes : List Node} {start c : Cursor}, c.after.length < fuel →
      readText (fuel + 1) nodes start c = readText fuel nodes start c
  | 0, _, _, _, enough => by omega
  | fuel + 1, nodes, start, c, enough => by
      rw [readText, readText]
      refine ite_congr rfl (fun _ => rfl) fun inside => ?_
      refine ite_congr rfl (fun opens => ?_) fun _ => ite_congr rfl (fun _ => rfl) fun _ => ?_
      · have read := readInterpolation_reads opens
        cases made : readInterpolation c with
        | error e => rfl
        | ok r =>
            obtain ⟨-, x, visible, reached⟩ := read.ok made
            have := reached.shorter visible
            exact readText_succ (by omega)
      · obtain ⟨a, rest, after⟩ := List.exists_cons_of_ne_nil (by simpa using inside)
        have := (Cursor.spans_next after).shorter (by simp)
        exact readText_succ (by omega)

theorem readAttributes_succ {tag : String} {start : Cursor} :
    ∀ {fuel : Nat} {attributes : List Attribute} {structurals : List (String × String × Position)}
      {c : Cursor}, c.after.length < fuel →
      readAttributes tag start (fuel + 1) attributes structurals c =
        readAttributes tag start fuel attributes structurals c
  | 0, _, _, _, enough => by omega
  | fuel + 1, attributes, structurals, c, enough => by
      rw [readAttributes, readAttributes]
      split
      · rfl
      · rfl
      · rfl
      · have read := readAttribute_reads (skipBlanks c)
        obtain ⟨gap, -, first, -⟩ := skipBlanks_spans c
        have := first.length
        split
        · rfl
        · rename_i made
          obtain ⟨_, _, -, -, -, -, x, visible, second⟩ := read.ok made
          have := second.shorter visible
          exact readAttributes_succ (by omega)
        · rename_i made
          obtain ⟨_, _, -, -, -, -, x, visible, second⟩ := read.ok made
          have := second.shorter visible
          exact readAttributes_succ (by omega)

theorem readStartTag_succ {bound : Nat} {c : Cursor} (enough : c.after.length < bound) :
    readStartTag (bound + 1) c = readStartTag bound c := by
  unfold readStartTag
  split
  · rfl
  · rename_i name found
    have := Cursor.length_advance_le (name.length + 1) c
    dsimp only
    rw [readAttributes_succ (by omega)]

theorem readNodes_succ :
    ∀ {fuel : Nat} {parent : Option (String × Cursor)} {nodes : List Node} {c : Cursor},
      c.after.length < fuel → readNodes (fuel + 1) parent nodes c = readNodes fuel parent nodes c
  | 0, _, _, _, enough => by omega
  | fuel + 1, parent, nodes, c, enough => by
      -- Whichever piece stands here is not empty, so the rounds left are enough for the rest.
      have shorter {x : List Char} {d : Cursor} (visible : x ≠ []) (reached : c.Spans x d) :
          d.after.length < fuel := by
        have := reached.shorter visible
        omega
      conv => lhs; unfold readNodes
      conv => rhs; unfold readNodes
      split
      · rfl
      · rename_i inside
        refine ite_congr rfl (fun opens => ?_) fun noComment => ite_congr rfl (fun _ => rfl) fun noEnd =>
          ite_congr rfl (fun opens => ?_) fun noElement => ?_
        · split
          · rename_i skipped
            obtain ⟨body, reached, -⟩ := skipComment?_eq_some opens skipped
            exact readNodes_succ (shorter (by simp [openComment]) reached)
          · rfl
        · rw [readStartTag_succ enough]
          have start := readStartTag_reads (fuel + 1) opens
          split
          · rfl
          · rename_i made
            obtain ⟨-, -, x, visible, reached⟩ := start.ok made
            refine ite_congr rfl (fun _ => ?_) fun _ => ?_
            · exact readNodes_succ (shorter visible reached)
            · rw [readNodes_succ (shorter visible reached)]
              split
              · rfl
              · rename_i done
                obtain ⟨_, _, y, -, -, -, more⟩ := (readNodes_reads _ _ (shorter visible reached)).ok done
                exact readNodes_succ (shorter (by simp [visible]) (reached.trans more))
        · rw [readText_succ enough]
          have text := readText_reads [] enough (.refl c) trivial
          split
          · rfl
          · rename_i made
            obtain ⟨_, x, -, -, reached, ends⟩ := text.ok made
            have textual : endsText c.after = false := by simp [endsText, noComment, noEnd, noElement]
            exact readNodes_succ (shorter (visible_of_endsText reached inside textual ends) reached)

theorem readNodes_of_le {fuel bound : Nat} {parent : Option (String × Cursor)} {nodes : List Node}
    {c : Cursor} (enough : c.after.length < fuel) (more : fuel ≤ bound) :
    readNodes bound parent nodes c = readNodes fuel parent nodes c := by
  induction more with
  | refl => rfl
  | step more ih => rw [readNodes_succ (Nat.lt_of_lt_of_le enough more), ih]

/-- More rounds than characters change nothing. -/
theorem parseWithin_eq_parse {s : String} {bound : Nat} (enough : s.toList.length < bound) :
    parseWithin bound s = parse s := by
  unfold parse parseWithin
  rw [readNodes_of_le (Nat.lt_succ_self s.toList.length) enough]

/-! ### Places -/

/-- The line of a character, counted from one. -/
def lineAt (cs : List Char) (n : Nat) : Nat :=
  1 + (cs.take n).count '\n'

/-- The column of a character within its line, counted from one. -/
def columnAt (cs : List Char) (n : Nat) : Nat :=
  1 + ((cs.take n).reverse.takeWhile (· != '\n')).length

theorem positionOf_line {cs x : List Char} {d : Cursor} (reached : (Cursor.start cs).Spans x d) :
    (positionOf d).line = lineAt cs x.length ∧ (positionOf d).column = columnAt cs x.length := by
  have before : d.before = x.reverse := by rw [reached.before]; exact List.append_nil _
  have front : cs.take x.length = x := by
    rw [show cs = x ++ d.after from reached.after, List.take_left]
  simp [positionOf, lineAt, columnAt, before, front]

/-- The failure is a finding about markup whose place is that of a character of the text. -/
def IsFindingIn (cs : List Char) (e : Failure) : Prop :=
  ∃ f n, e = .finding f ∧ IsAboutMarkup f ∧
    n < cs.length ∧ f.line = some (lineAt cs n : Int) ∧ f.column = some (columnAt cs n : Int)

theorem BreaksOff.isFindingIn {cs : List Char} {e : Failure} (h : BreaksOff (.start cs) e)
    (ascii : ∀ l, ['<', l] <:+: cs → isLetter l = true → isAsciiLetter l = true) :
    IsFindingIn cs e := by
  cases h with
  | @points x d reached inside points =>
      obtain ⟨f, rfl, kind, line, column⟩ := points.finding
      obtain ⟨sameLine, sameColumn⟩ := positionOf_line reached
      have length : cs.length = x.length + d.after.length := reached.length
      have := List.length_pos_iff.mpr inside
      exact ⟨f, x.length, rfl, kind, by omega, by rw [line, sameLine], by rw [column, sameColumn]⟩
  | @foreign x d l rest reached opens letter notAscii =>
      have occurs : ['<', l] <:+: cs := ⟨x, rest, by
        rw [show cs = x ++ d.after from reached.after, opens]
        simp⟩
      rw [ascii l occurs letter] at notAscii
      cases notAscii

/-- Reading a template comes to an end with a tree, or with a finding at a place inside of it. -/
theorem parse_ends {s : String}
    (ascii : ∀ l, ['<', l] <:+: s.toList → isLetter l = true → isAsciiLetter l = true) :
    (∀ bound, s.toList.length < bound → parseWithin bound s = parse s) ∧
      ((∃ nodes, parse s = .ok nodes) ∨ ∃ e, parse s = .error e ∧ IsFindingIn s.toList e) := by
  refine ⟨fun bound enough => parseWithin_eq_parse enough, ?_⟩
  cases outcome : parse s with
  | ok nodes => exact .inl ⟨nodes, rfl⟩
  | error e =>
      refine .inr ⟨e, rfl, ?_⟩
      unfold parse parseWithin at outcome
      split at outcome
      · cases outcome
      · split at outcome
        · cases outcome
        · rename_i failed
          cases outcome
          have enough : (Cursor.start s.toList).after.length < s.toList.length + 1 := Nat.lt_succ_self _
          obtain breaks | ⟨_, _, own, -⟩ := (readNodes_reads none [] enough).error failed
          · exact breaks.isFindingIn ascii
          · cases own

theorem parse_ends_unclosed :
    (∀ l, ['<', l] <:+: "a\n<p>< <b [x".toList → isLetter l = true → isAsciiLetter l = true) ∧
      ∃ e, parse "a\n<p>< <b [x" = .error e ∧ IsFindingIn "a\n<p>< <b [x".toList e := by
  have ascii (l : Char) (occurs : ['<', l] <:+: "a\n<p>< <b [x".toList) (letter : isLetter l = true) :
      isAsciiLetter l = true := by
    have : l = 'p' ∨ l = ' ' ∨ l = 'b' := by
      simpa [List.infix_cons_iff] using occurs
    obtain rfl | rfl | rfl := this <;> first | rfl | cases letter
  have refused : (parse "a\n<p>< <b [x").isOk = false := by decide +kernel
  refine ⟨ascii, (parse_ends ascii).2.resolve_left ?_⟩
  rintro ⟨nodes, accepted⟩
  rw [accepted] at refused
  cases refused

end ReactMigration.Template
