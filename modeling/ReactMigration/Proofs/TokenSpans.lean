import ReactMigration.Script.Token.Lexer

/-!
Where tokens stand.

Every reader of script text takes a front of it and counts the characters.  So the tokens of a text stand in it one
behind the other, each with its own text at its place.
-/

namespace ReactMigration.Script

open ReactMigration.Text

/-- From a place in the text a reader goes to a later one, over the characters between them. -/
def Advances (n : Nat) (cs : List Char) (t : Taken) : Prop :=
  ∃ x, cs = x ++ t.2 ∧ t.1 = n + x.length

variable {n m : Nat} {cs ds : List Char} {t : Taken}

namespace Advances

theorem stay (n : Nat) (cs : List Char) : Advances n cs (n, cs) :=
  ⟨[], rfl, rfl⟩

theorem across (x : List Char) (further : Advances (n + x.length) cs t) : Advances n (x ++ cs) t := by
  obtain ⟨y, rfl, same⟩ := further
  refine ⟨x ++ y, (List.append_assoc _ _ _).symm, ?_⟩
  rw [same, List.length_append, Nat.add_assoc]

theorem next {c : Char} (further : Advances (n + 1) cs t) : Advances n (c :: cs) t :=
  across [c] further

theorem trans (first : Advances n cs (m, ds)) (second : Advances m ds t) : Advances n cs t := by
  obtain ⟨x, rfl, rfl⟩ := first
  exact across x second

/-- Characters counted from nought, behind others. -/
theorem behind (n : Nat) (counted : Advances 0 cs t) : Advances n cs (n + t.1, t.2) := by
  obtain ⟨x, rfl, same⟩ := counted
  exact ⟨x, rfl, by rw [same, Nat.zero_add]⟩

theorem le (moved : Advances n cs t) : n ≤ t.1 := by
  obtain ⟨x, -, same⟩ := moved
  rw [same]
  exact Nat.le_add_right n x.length

end Advances

theorem takenWhile_advances (p : Char → Bool) (cs : List Char) : Advances 0 cs (takenWhile p cs) :=
  ⟨cs.takeWhile p, List.takeWhile_append_dropWhile.symm, (Nat.zero_add _).symm⟩

/-! ### Comments and gaps -/

theorem skipLine_advances (n : Nat) (cs : List Char) : Advances n cs (skipLine n cs) := by
  fun_induction skipLine n cs with
  | case1 n => exact .stay n []
  | case2 n cs => exact ⟨['\r', '\n'], rfl, rfl⟩
  | case3 n c cs _ ends => exact ⟨[c], rfl, rfl⟩
  | case4 n c cs _ goesOn ih => exact ih.next

theorem skipBlock?_advances (found : skipBlock? n cs = some t) : Advances n cs t := by
  fun_induction skipBlock? n cs with
  | case1 n => cases found
  | case2 n cs =>
      cases found
      exact ⟨['*', '/'], rfl, rfl⟩
  | case3 n c cs _ ih => exact (ih found).next

/-- A comment after its opening, and what is skipped behind it. -/
theorem Advances.comment {rest after : List Char} {x : List Char} (skipped : skipLine (n + x.length) rest = (m, after))
    (further : Advances m after t) : Advances n (x ++ rest) t := by
  have comment := skipLine_advances (n + x.length) rest
  rw [skipped] at comment
  exact across x (comment.trans further)

theorem skipGaps?_advances {fuel : Nat} {fresh : Bool} (found : skipGaps? fuel fresh n cs = some t) :
    Advances n cs t := by
  fun_induction skipGaps? fuel fresh n cs with
  | case1 fresh n cs => exact Option.some.inj found ▸ .stay n cs
  | case2 fuel fresh n => exact Option.some.inj found ▸ .stay n []
  | case3 fuel fresh n c cs gap ih => exact (ih found).next
  | case4 fuel fresh n c cs gap lineEnd ih => exact (ih found).next
  | case5 fuel fresh n rest m after skipped _ _ ih => exact .comment (x := ['/', '/']) skipped (ih found)
  | case6 fuel fresh n rest m after skipped _ _ ih =>
      exact .across ['/', '*'] ((skipBlock?_advances skipped).trans (ih found))
  | case7 fuel fresh n rest endless => cases found
  | case8 fuel n rest m after skipped _ _ ih => exact .comment (x := ['-', '-', '>']) skipped (ih found)
  | case9 fuel fresh n rest => exact Option.some.inj found ▸ .stay n _
  | case10 fuel fresh n rest m after skipped _ _ ih => exact .comment (x := ['<', '!', '-', '-']) skipped (ih found)
  | case11 fuel fresh n c cs => exact Option.some.inj found ▸ .stay n _

/-! ### Words -/

theorem dropHex?_advances {rest : List Char} (found : RegexBody.dropHex? m cs = some rest) :
    Advances n cs (n + m, rest) := by
  fun_induction RegexBody.dropHex? m cs generalizing n with
  | case1 cs => exact Option.some.inj found ▸ .stay n cs
  | case2 m c cs hex ih =>
      have further := (ih (n := n + 1) found).next (c := c)
      rwa [Nat.add_right_comm] at further
  | case3 m c cs other => cases found
  | case4 m => cases found

theorem readUnit?_advances {unit : Nat} {rest : List Char} (found : Json.readUnit? cs = some (unit, rest)) :
    Advances n cs (n + 4, rest) := by
  unfold Json.readUnit? at found
  split at found
  · rename_i a b c d rest'
    simp only [Option.bind_eq_bind, Option.bind_eq_some_iff, Option.pure_def, Option.some.injEq, Prod.mk.injEq] at found
    obtain ⟨-, -, -, -, -, -, -, -, -, rfl⟩ := found
    exact ⟨[a, b, c, d], rfl, rfl⟩
  · cases found

theorem codePoint?_advances {c : Char} (found : codePoint? cs = some (c, t)) : Advances 0 cs t := by
  unfold codePoint? at found
  dsimp only at found
  split at found
  · rename_i rest same
    split at found
    · cases found
    · cases found
      refine ⟨cs.takeWhile RegexBody.isHex ++ ['\x7d'], ?_, by simp⟩
      rw [List.append_assoc, List.singleton_append, ← same]
      exact List.prefix_iff_eq_append.mp (List.takeWhile_prefix _) |>.symm
  · cases found

/-- A braced escape after the `u`. -/
theorem Advances.braced {c : Char} (found : codePoint? cs = some (c, t)) :
    Advances 0 ('u' :: '\x7b' :: cs) (t.1 + 2, t.2) := by
  rw [Nat.add_comm]
  exact across ['u', '\x7b'] ((codePoint?_advances found).behind 2)

theorem identifierEscape?_advances {allowed : Char → Bool} {c : Char}
    (found : identifierEscape? allowed cs = some (c, t)) : Advances 0 cs t := by
  unfold identifierEscape? at found
  split at found
  · obtain ⟨⟨d, u⟩, read, same⟩ := Option.map_eq_some_iff.mp found
    cases same
    exact .braced read
  · split at found
    · rename_i unit rest read
      dsimp only at found
      split at found
      · cases found
        exact .next (readUnit?_advances read)
      · cases found
    · cases found
  · cases found

theorem identifierRest?_advances {fuel : Nat} {name spelled : List Char}
    (found : identifierRest? fuel name n cs = some (spelled, t)) : Advances n cs t := by
  fun_induction identifierRest? fuel name n cs with
  | case1 name n cs => cases found; exact .stay n cs
  | case2 fuel name n => cases found; exact .stay n []
  | case3 fuel name n c cs escape d m rest read ih =>
      exact .next (((identifierEscape?_advances read).behind (n + 1)).trans (ih found))
  | case4 => cases found
  | case5 fuel name n c cs plain part ih => exact (ih found).next
  | case6 fuel name n c cs plain other => cases found; exact .stay n _

theorem readWord?_advances {kind : TokenKind} (found : readWord? cs = some (kind, t)) : Advances 0 cs t := by
  unfold readWord? at found
  dsimp only at found
  split at found
  · cases found
  · rename_i c n rest first
    have front : Advances 0 cs (n, rest) := by
      split at first
      · rename_i rest'
        obtain ⟨⟨d, u⟩, read, same⟩ := Option.map_eq_some_iff.mp first
        cases same
        rw [Nat.add_comm]
        exact .next ((identifierEscape?_advances read).behind 1)
      · cases first
        exact .next (.stay 1 rest)
      · cases first
    split at found
    · cases found
    · rename_i name m after read
      split at found
      · cases found
      · cases found
        exact front.trans (identifierRest?_advances read)

/-! ### Numbers -/

theorem radixDigits?_advances {digit : Char → Bool} {strict : Bool} (found : radixDigits? digit strict n cs = some t) :
    Advances n cs t := by
  unfold radixDigits? at found
  dsimp only at found
  split at found
  · cases found
  · cases found
    exact (takenWhile_advances digit cs).behind n

/-- The digits of an exponent behind its letter and its sign. -/
theorem Advances.exponent {x : List Char}
    (found : (if (takenWhile Char.isDigit cs).1 == 0 then none
      else some (n + x.length + (takenWhile Char.isDigit cs).1, (takenWhile Char.isDigit cs).2)) = some t) :
    Advances n (x ++ cs) t := by
  split at found
  · cases found
  · cases found
    exact across x ((takenWhile_advances Char.isDigit cs).behind _)

theorem exponent?_advances (found : exponent? n cs = some t) : Advances n cs t := by
  unfold exponent? at found
  dsimp only at found
  split at found
  · rename_i e rest
    split at found
    · split at found
      · rename_i more
        exact .exponent (x := [e, '+']) found
      · rename_i more
        exact .exponent (x := [e, '-']) found
      · exact .exponent (x := [e]) found
    · cases found
      exact .stay n _
  · cases found
    exact .stay n _

theorem decimal?_advances (found : decimal? cs = some t) : Advances 0 cs t := by
  unfold decimal? at found
  dsimp only at found
  have whole : Advances 0 cs ((takenWhile Char.isDigit cs).1, (takenWhile Char.isDigit cs).2) :=
    takenWhile_advances Char.isDigit cs
  split at found
  · rename_i k rest read
    split at found
    · cases found
      split at read
      · rename_i more same
        rw [same] at whole
        have digits := (takenWhile_advances Char.isDigit more).behind ((takenWhile Char.isDigit cs).1 + 1)
        exact whole.trans ((Advances.next digits).trans (exponent?_advances read))
      · exact whole.trans (exponent?_advances read)
    · cases found
  · cases found

theorem number?_advances (found : number? cs = some t) : Advances 0 cs t := by
  unfold number? at found
  split at found
  · rename_i r rest
    split at found
    · exact .across ['0', r] (radixDigits?_advances found)
    split at found
    · exact .across ['0', r] (radixDigits?_advances found)
    split at found
    · exact .across ['0', r] (radixDigits?_advances found)
    split at found
    · exact .next (radixDigits?_advances found)
    · exact decimal?_advances found
  · exact decimal?_advances found

/-! ### Strings and templates -/

theorem stringEscape?_advances (found : stringEscape? cs = some t) : Advances 0 cs t := by
  unfold stringEscape? at found
  split at found
  · obtain ⟨⟨d, u⟩, read, same⟩ := Option.map_eq_some_iff.mp found
    cases same
    exact .braced read
  · obtain ⟨rest, read, rfl⟩ := Option.map_eq_some_iff.mp found
    exact .next (dropHex?_advances read)
  · obtain ⟨rest, read, rfl⟩ := Option.map_eq_some_iff.mp found
    exact .next (dropHex?_advances read)
  · cases found
    exact ⟨['\r', '\n'], rfl, rfl⟩
  · split at found
    · cases found
    · cases found
      exact .next (.stay 1 _)
  · cases found

theorem stringRest?_advances {quote : Char} {fuel : Nat} (found : stringRest? quote fuel n cs = some t) :
    Advances n cs t := by
  fun_induction stringRest? quote fuel n cs with
  | case1 => cases found
  | case2 => cases found
  | case3 fuel n c cs closing => cases found; exact .next (.stay _ cs)
  | case4 fuel n c cs _ escape m rest read ih =>
      exact .next (((stringEscape?_advances read).behind (n + 1)).trans (ih found))
  | case5 => cases found
  | case6 => cases found
  | case7 fuel n c cs _ _ _ ih => exact (ih found).next

theorem templateEscape?_advances (found : templateEscape? cs = some t) (goesOn : t.2 ≠ []) : Advances 0 cs t := by
  unfold templateEscape? at found
  split at found
  · obtain ⟨⟨d, u⟩, read, same⟩ := Option.map_eq_some_iff.mp found
    cases same
    exact .braced read
  · split at found
    · rename_i rest read
      cases found
      exact .next (dropHex?_advances read)
    · cases found
      exact .next (.stay 1 _)
  · obtain ⟨rest, read, rfl⟩ := Option.map_eq_some_iff.mp found
    exact .next (dropHex?_advances read)
  · cases found
    exact ⟨['\r', '\n'], rfl, rfl⟩
  · rename_i rest
    split at found
    · split at found
      · cases found
      · cases found
        exact .next (.stay 1 _)
    · cases found
      exact .next (.stay 1 _)
  · split at found
    · cases found
    · cases found
      exact .next (.stay 1 _)
  · cases found
    exact absurd rfl goesOn

theorem templateRest?_advances {fuel : Nat} {opens : Bool} (found : templateRest? fuel n cs = some (opens, t)) :
    Advances n cs t := by
  fun_induction templateRest? fuel n cs with
  | case1 => cases found
  | case2 => cases found
  | case3 fuel n cs => cases found; exact .next (.stay _ cs)
  | case4 fuel n cs => cases found; exact .across ['$', '\x7b'] (.stay _ cs)
  | case5 fuel n cs m rest read ih =>
      have goesOn : rest ≠ [] := by
        rintro rfl
        cases fuel <;> cases found
      exact .next (((templateEscape?_advances read goesOn).behind (n + 1)).trans (ih found))
  | case6 => cases found
  | case7 fuel n c cs _ _ _ ih => exact (ih found).next

/-! ### Regular expressions and punctuators -/

theorem regexRest?_advances {fuel : Nat} {inClass : Bool} {body read : List Char}
    (found : regexRest? fuel inClass body n cs = some (read, t)) : Advances n cs t := by
  fun_induction regexRest? fuel inClass body n cs with
  | case1 | case2 | case3 | case5 | case6 => cases found
  | case4 fuel inClass body n c escape e rest _ ih => exact .across [c, e] (ih found)
  | case7 fuel body n c cs _ _ ih => exact (ih found).next
  | case8 fuel inClass body n c cs => cases found; exact .next (.stay _ cs)
  | case9 fuel inClass body n c cs _ _ _ _ ih => exact (ih found).next

theorem regex?_advances (found : regex? cs = some t) : Advances 0 cs t := by
  unfold regex? at found
  split at found
  · split at found
    · rename_i body k after read
      dsimp only at found
      split at found
      · cases found
      · cases found
        refine .next ((regexRest?_advances read).trans ⟨after.takeWhile isIdentifierPart, ?_, rfl⟩)
        exact (List.prefix_iff_eq_append.mp (List.takeWhile_prefix _)).symm
    · cases found
  · cases found

theorem punctuator?_advances (found : punctuator? cs = some t) : Advances 0 cs t := by
  unfold punctuator? at found
  split at found
  · cases found
    exact ⟨['.', '.', '.'], rfl, rfl⟩
  · cases found
    exact ⟨['.'], rfl, rfl⟩
  · rename_i c rest _ _
    split at found
    · cases found
      exact .next (.stay 1 rest)
    · split at found
      · rename_i p fits
        cases found
        have lead := List.find?_some fits
        obtain ⟨more, same⟩ := Option.isSome_iff_exists.mp lead
        refine ⟨p.toList, ?_, ?_⟩
        · rw [dropLead?_eq_some_iff.mp same, ← String.length_toList, List.drop_left]
        · rw [← String.length_toList, Nat.zero_add]
      · split at found
        · cases found
          exact .next (.stay 1 rest)
        · cases found
  · cases found

/-! ### Tokens -/

theorem readToken?_advances {braces outer : List Bool} {kind : TokenKind}
    (found : readToken? braces cs = some (kind, t, outer)) : Advances 0 cs t := by
  unfold readToken? at found
  dsimp only at found
  split at found
  · cases found
  · rename_i c rest
    split at found
    · obtain ⟨u, read, same⟩ := Option.map_eq_some_iff.mp found
      cases same
      exact readWord?_advances read
    split at found
    · obtain ⟨u, read, same⟩ := Option.map_eq_some_iff.mp found
      cases same
      exact .next (stringRest?_advances read)
    split at found
    · obtain ⟨u, read, same⟩ := Option.map_eq_some_iff.mp found
      cases same
      exact number?_advances read
    split at found
    · obtain ⟨u, read, same⟩ := Option.map_eq_some_iff.mp found
      cases same
      exact .next (templateRest?_advances read)
    split at found
    · obtain ⟨u, read, same⟩ := Option.map_eq_some_iff.mp found
      cases same
      exact .next (templateRest?_advances read)
    split at found
    · cases found
      exact .next (.stay 1 rest)
    split at found
    · cases found
      exact .next (.stay 1 rest)
    · obtain ⟨u, read, same⟩ := Option.map_eq_some_iff.mp found
      cases same
      exact punctuator?_advances read

/-! ### The whole text -/

/-- From a place on, the tokens stand in the text one behind the other. -/
def Laid (text : List Char) : Nat → List Token → Prop
  | _, [] => True
  | place, t :: tokens =>
      place ≤ t.start ∧ t.start ≤ t.stop ∧ t.stop ≤ text.length ∧
        slice text t.start t.stop = t.text.toList ∧ Laid text t.stop tokens

theorem Laid.le {text : List Char} {tokens : List Token} (laid : Laid text n tokens) {t : Token} (mem : t ∈ tokens) :
    n ≤ t.start := by
  induction tokens generalizing n with
  | nil => cases mem
  | cons u tokens ih =>
      obtain ⟨first, whole, -, -, laid⟩ := laid
      obtain rfl | mem := List.mem_cons.mp mem
      · exact first
      · exact Nat.le_trans (Nat.le_trans first whole) (ih laid mem)

/-- What is read from a place on stands behind it. -/
theorem lexFrom_laid {text : List Char} {fuel start : Nat} {state : LexState} {fresh : Bool} {done tokens : List Token}
    (here : text.drop start = cs) (inside : start ≤ text.length)
    (read : lexFrom fuel state fresh start done cs = .ok tokens) :
    ∃ more, tokens = done.reverse ++ more ∧ Laid text start more := by
  induction fuel generalizing state fresh start done cs with
  | zero =>
      cases read
      exact ⟨[], (List.append_nil _).symm, trivial⟩
  | succ fuel ih =>
      unfold lexFrom at read
      split at read
      · cases read
      · cases read
        exact ⟨[], (List.append_nil _).symm, trivial⟩
      · rename_i start' cs' _ skipped
        obtain ⟨x, split, moved⟩ := skipGaps?_advances skipped
        dsimp only at split moved read
        split at read
        · cases read
        split at read
        · cases read
        · rename_i kind n rest braces found
          have taken : Advances 0 cs' (n, rest) := by
            split at found
            · rename_i u regex
              cases found
              split at regex
              · exact regex?_advances regex
              · cases regex
            · exact readToken?_advances found
          obtain ⟨y, rfl, counted⟩ := taken
          obtain rfl : n = y.length := counted.trans (Nat.zero_add _)
          have length : text.length - start = x.length + (y.length + rest.length) := by
            rw [← List.length_drop, here, split, List.length_append, List.length_append]
          have there : text.drop start' = y ++ rest := by
            rw [moved, ← List.drop_drop, here, split, List.drop_left]
          have behind : text.drop (start' + y.length) = rest := by
            rw [← List.drop_drop, there, List.drop_left]
          obtain ⟨more, same, laid⟩ := ih behind (by omega) read
          let token : Token := ⟨kind, String.ofList ((y ++ rest).take y.length), start', start' + y.length⟩
          refine ⟨token :: more, ?_, ?_, Nat.le_add_right _ _, ?_, ?_, laid⟩
          · rw [same, List.reverse_cons, List.append_assoc, List.singleton_append]
          · exact Nat.le.intro moved.symm
          · change start' + y.length ≤ text.length
            omega
          · rw [slice, there, Nat.add_sub_cancel_left, String.toList_ofList]

end ReactMigration.Script
