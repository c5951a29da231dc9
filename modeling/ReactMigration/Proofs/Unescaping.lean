import ReactMigration.Declaration.Metadata
import ReactMigration.Proofs.TemplateLiterals

/-!
Escapes of string literals.

The escapes of a literal are undone one kind after the other, each over the whole text.  So an `n` or a `t` that
follows a backslash of the text itself is taken for the second half of an escape; all other texts come back.
-/

namespace ReactMigration.Metadata

open ReactMigration.Text
open ReactMigration.Template (replaceChars_cons)

/-- Letters of escapes, each with the character that it stands for. -/
abbrev Letters := List (Char × Char)

/-- The escape of a character, if it has one. -/
def codeOf (letters : Letters) (c : Char) : List Char :=
  match letters.find? (·.2 == c) with
  | some (letter, _) => ['\\', letter]
  | .none => [c]

/-- The letters of a literal's escapes. -/
def literalLetters : Letters :=
  [('n', '\n'), ('t', '\t'), ('\'', '\''), ('"', '"'), ('\x60', '\x60'), ('\\', '\\')]

/-- A text with each character that has an escape replaced by it. -/
def escape (s : String) : String :=
  String.ofList (s.toList.flatMap (codeOf literalLetters))

/-- A text while its escapes are undone: those of `left` still stand, and behind a backslash the letters of `turned`
have been replaced. -/
def halfway (turned left : Letters) : List Char → List Char
  | '\\' :: d :: cs =>
      match turned.lookup d with
      | some plain => '\\' :: plain :: halfway turned left cs
      | .none => codeOf left '\\' ++ halfway turned left (d :: cs)
  | c :: cs => codeOf left c ++ halfway turned left cs
  | [] => []

theorem halfway_escape (cs : List Char) : halfway [] literalLetters cs = cs.flatMap (codeOf literalLetters) := by
  fun_induction halfway [] literalLetters cs with
  | case1 d cs plain turned ih => cases turned
  | case2 d cs turned ih => rw [ih, ← List.flatMap_cons]
  | case3 c cs other ih => rw [ih, List.flatMap_cons]
  | case4 => rfl

/-! ### One pass -/

section Pass

variable {x : Char} {new cs : List Char}

theorem replaceChars_plain {c : Char} (other : c ≠ '\\') :
    replaceChars ['\\', x] new (c :: cs) = c :: replaceChars ['\\', x] new cs := by
  have kept : dropLead? ['\\', x] (c :: cs) = .none := by simp [dropLead?, other]
  rw [replaceChars_cons (by simp), kept]

theorem replaceChars_apart (apart : cs.head? ≠ some x) :
    replaceChars ['\\', x] new ('\\' :: cs) = '\\' :: replaceChars ['\\', x] new cs := by
  have kept : dropLead? ['\\', x] ('\\' :: cs) = .none := by
    cases cs with
    | nil => rfl
    | cons d cs => simpa [dropLead?] using apart
  rw [replaceChars_cons (by simp), kept]

theorem replaceChars_code : replaceChars ['\\', x] new ('\\' :: x :: cs) = new ++ replaceChars ['\\', x] new cs := by
  have taken : dropLead? ['\\', x] ('\\' :: x :: cs) = some cs := dropLead?_eq_some_iff.mpr rfl
  rw [replaceChars_cons (by simp), taken]

end Pass

/-- The escape of `plain` by `letter` is apart from those that are left and from what has been turned. -/
structure Apart (turned left : Letters) (letter plain : Char) : Prop where
  letter_ne : letter ≠ '\\'
  plain_ne : plain ≠ '\\'
  fresh : ∀ e ∈ left, e.1 ≠ letter ∧ e.2 ≠ plain
  bare : letter = plain ∨ ∀ e ∈ left, e.2 ≠ letter
  pair : codeOf left '\\' = ['\\', '\\']
  backslash : ∀ e ∈ left, e.1 = '\\' → e.2 = '\\'
  turned : ∀ e ∈ turned, e.1 ≠ letter ∧ e.2 ≠ letter ∧ e.2 ≠ '\\'

section Undoing

variable {turned left : Letters} {letter plain : Char}

theorem codeOf_own : codeOf ((letter, plain) :: left) plain = ['\\', letter] := by
  simp [codeOf]

theorem codeOf_other {c : Char} (other : c ≠ plain) : codeOf ((letter, plain) :: left) c = codeOf left c := by
  simp [codeOf, Ne.symm other]

theorem codeOf_bare {c : Char} (bare : ∀ e ∈ left, e.2 ≠ c) : codeOf left c = [c] := by
  have unfound : left.find? (·.2 == c) = .none := List.find?_eq_none.mpr fun e mem => by simpa using bare e mem
  rw [codeOf, unfound]

theorem codeOf_cases (left : Letters) (c : Char) :
    codeOf left c = [c] ∨ ∃ e ∈ left, e.2 = c ∧ codeOf left c = ['\\', e.1] := by
  unfold codeOf
  split
  · rename_i e found
    exact .inr ⟨_, List.mem_of_find?_eq_some found, by simpa using List.find?_some found, rfl⟩
  · exact .inl rfl

theorem mem_of_lookup {d p : Char} (found : turned.lookup d = some p) : (d, p) ∈ turned := by
  obtain ⟨before, after, rfl, -⟩ := List.lookup_eq_some_iff.mp found
  simp

/-- The letters that have been turned once the escape is undone: one that stands for itself turns nothing. -/
def turning (turned : Letters) (letter plain : Char) : Letters :=
  if letter = plain then turned else (letter, plain) :: turned

theorem lookup_turning {d : Char} (other : d = letter → letter = plain) :
    (turning turned letter plain).lookup d = turned.lookup d := by
  unfold turning
  split
  · rfl
  · rename_i turns
    have apart : (d == letter) = false := beq_eq_false_iff_ne.mpr fun same => turns (other same)
    rw [List.lookup_cons, apart]

theorem Apart.codeOf_backslash (apart : Apart turned left letter plain) :
    codeOf ((letter, plain) :: left) '\\' = ['\\', '\\'] :=
  (codeOf_other apart.plain_ne.symm).trans apart.pair

theorem Apart.head?_codeOf (apart : Apart turned left letter plain) {d : Char} (other : d = letter → letter = plain)
    (rest : List Char) : (codeOf ((letter, plain) :: left) d ++ rest).head? ≠ some letter := by
  have ne : '\\' ≠ letter := apart.letter_ne.symm
  by_cases own : d = plain
  · simp [own, codeOf_own, ne]
  · rw [codeOf_other own]
    obtain bare | ⟨e, -, -, code⟩ := codeOf_cases left d
    · simpa [bare] using fun same => own (same.trans (other same))
    · simp [code, ne]

theorem Apart.head?_halfway (apart : Apart turned left letter plain) {d : Char} (other : d = letter → letter = plain)
    (cs : List Char) : (halfway turned ((letter, plain) :: left) (d :: cs)).head? ≠ some letter := by
  have ne : '\\' ≠ letter := apart.letter_ne.symm
  rw [halfway.eq_def]
  split
  · rename_i d cs
    split
    · simp [ne]
    · simp [apart.codeOf_backslash, ne]
  · rename_i here
    obtain ⟨rfl, rfl⟩ := List.cons.inj here
    exact apart.head?_codeOf other _
  · simp

/-- Behind the escape of a character, and behind a backslash with no letter to come, the pass goes on. -/
theorem Apart.replaceChars_codeOf (apart : Apart turned left letter plain) {c : Char} {rest : List Char}
    (guarded : c = '\\' → rest.head? ≠ some letter) :
    replaceChars ['\\', letter] [plain] (codeOf ((letter, plain) :: left) c ++ rest) =
      codeOf left c ++ replaceChars ['\\', letter] [plain] rest := by
  by_cases own : c = plain
  · subst own
    rw [codeOf_own, codeOf_bare fun e mem => (apart.fresh e mem).2]
    exact replaceChars_code
  · rw [codeOf_other own]
    have single (d : Char) (guarded : d = '\\' → rest.head? ≠ some letter) :
        replaceChars ['\\', letter] [plain] (d :: rest) = d :: replaceChars ['\\', letter] [plain] rest := by
      by_cases escapes : d = '\\'
      · subst escapes
        exact replaceChars_apart (guarded rfl)
      · exact replaceChars_plain escapes
    obtain bare | ⟨e, mem, same, code⟩ := codeOf_cases left c
    · rw [bare]
      exact single c guarded
    · rw [code]
      have first : (e.1 :: rest).head? ≠ some letter := by simpa using (apart.fresh e mem).1
      exact (replaceChars_apart first).trans
        (congrArg _ (single e.1 fun escapes => guarded (same ▸ apart.backslash e mem escapes)))

/-- One pass undoes one kind of escapes, and turns its letter behind every backslash of the text. -/
theorem Apart.replaceChars_halfway (apart : Apart turned left letter plain) (cs : List Char) :
    replaceChars ['\\', letter] [plain] (halfway turned ((letter, plain) :: left) cs) =
      halfway (turning turned letter plain) left cs := by
  fun_induction halfway turned ((letter, plain) :: left) cs with
  | case1 d cs p found ih =>
      obtain ⟨other, unread, visible⟩ := apart.turned (d, p) (mem_of_lookup found)
      have kept : (turning turned letter plain).lookup d = some p :=
        (lookup_turning fun same => absurd same other).trans found
      rw [halfway, kept, replaceChars_apart (by simpa using unread), replaceChars_plain visible, ih]
  | case2 d cs unfound ih =>
      by_cases turns : d = letter ∧ letter ≠ plain
      · obtain ⟨rfl, turns⟩ := turns
        -- the second backslash and the letter are taken for an escape
        have bare : codeOf left d = [d] := codeOf_bare (apart.bare.resolve_left turns)
        have here : (turning turned d plain).lookup d = some plain := by simp [turning, turns]
        have next (turned left : Letters) (bare : codeOf left d = [d]) :
            halfway turned left (d :: cs) = d :: halfway turned left cs := by
          rw [halfway, bare, List.singleton_append]
          exact fun _ _ same => absurd same apart.letter_ne
        have later : replaceChars ['\\', d] [plain] (halfway turned ((d, plain) :: left) cs) =
            halfway (turning turned d plain) left cs := by
          rw [next _ _ ((codeOf_other turns).trans bare), next _ _ bare, replaceChars_plain apart.letter_ne] at ih
          exact (List.cons.inj ih).2
        rw [halfway, here, next _ _ ((codeOf_other turns).trans bare), apart.codeOf_backslash, List.cons_append,
          replaceChars_apart (by simpa using apart.letter_ne.symm), List.singleton_append, replaceChars_code, later]
        rfl
      · have other : d = letter → letter = plain := fun same => by simpa [same] using turns
        have kept : (turning turned letter plain).lookup d = .none := (lookup_turning other).trans unfound
        rw [halfway, kept, apart.replaceChars_codeOf fun _ => apart.head?_halfway other cs, ih]
  | case3 c cs other ih =>
      have guarded : c = '\\' → (halfway turned ((letter, plain) :: left) cs).head? ≠ some letter := by
        intro escapes
        cases cs with
        | nil => simp [halfway]
        | cons d cs => exact absurd rfl (other d cs escapes)
      rw [halfway, apart.replaceChars_codeOf guarded, ih]
      exact other
  | case4 => rfl

/-- The last pass undoes the escapes of backslashes. -/
theorem replaceChars_backslashes (visible : ∀ e ∈ turned, e.2 ≠ '\\') (cs : List Char) :
    replaceChars ['\\', '\\'] ['\\'] (halfway turned [('\\', '\\')] cs) = halfway turned [] cs := by
  have own : codeOf [('\\', '\\')] '\\' = ['\\', '\\'] := rfl
  fun_induction halfway turned [('\\', '\\')] cs with
  | case1 d cs p found ih =>
      have shown := visible (d, p) (mem_of_lookup found)
      rw [halfway, found, replaceChars_apart (by simpa using shown), replaceChars_plain shown, ih]
  | case2 d cs unfound ih =>
      rw [halfway, unfound, own]
      exact replaceChars_code.trans (congrArg _ ih)
  | case3 c cs other ih =>
      have whole : halfway turned [] (c :: cs) = c :: halfway turned [] cs := by
        rw [halfway]
        · rfl
        · exact other
      rw [whole]
      by_cases escapes : c = '\\'
      · subst escapes
        exact replaceChars_code.trans (congrArg _ ih)
      · have bare : codeOf [('\\', '\\')] c = [c] := by simp [codeOf, Ne.symm escapes]
        rw [bare]
        exact (replaceChars_plain escapes).trans (congrArg _ ih)
  | case4 => rfl

end Undoing

/-! ### All passes -/

/-- The letters that are turned by undoing all escapes: those that do not stand for themselves. -/
def turnedLetters : Letters := [('t', '\t'), ('n', '\n')]

/-- The order of the passes. -/
theorem toList_unescape (s : String) :
    (unescape s).toList =
      literalLetters.foldl (fun cs e => replaceChars ['\\', e.1] [e.2] cs) s.toList := by
  have texts : "\\n".toList = ['\\', 'n'] ∧ "\\t".toList = ['\\', 't'] ∧ "\\'".toList = ['\\', '\''] ∧
      "\\\"".toList = ['\\', '"'] ∧ "\\\x60".toList = ['\\', '\x60'] ∧ "\\\\".toList = ['\\', '\\'] := by
    decide
  have plain : "\n".toList = ['\n'] ∧ "\t".toList = ['\t'] ∧ "'".toList = ['\''] ∧ "\"".toList = ['"'] ∧
      "\x60".toList = ['\x60'] ∧ "\\".toList = ['\\'] := by decide
  simp only [unescape, escapes, literalLetters, List.foldl_cons, List.foldl_nil, replaceAll, String.toList_ofList,
    texts, plain]

/-- Escaping and undoing it turns letters behind backslashes and nothing else. -/
theorem unescape_escape (s : String) : (unescape (escape s)).toList = halfway turnedLetters [] s.toList := by
  have line : Apart [] (literalLetters.drop 1) 'n' '\n' := by constructor <;> decide
  have tab : Apart [('n', '\n')] (literalLetters.drop 2) 't' '\t' := by constructor <;> decide
  have single : Apart turnedLetters (literalLetters.drop 3) '\'' '\'' := by constructor <;> decide
  have double : Apart turnedLetters (literalLetters.drop 4) '"' '"' := by constructor <;> decide
  have tick : Apart turnedLetters (literalLetters.drop 5) '\x60' '\x60' := by constructor <;> decide
  rw [toList_unescape, escape, String.toList_ofList, ← halfway_escape]
  simp only [literalLetters, List.foldl_cons, List.foldl_nil]
  exact (congrArg _ ((congrArg _ ((congrArg _ ((congrArg _ ((congrArg _ (line.replaceChars_halfway _)).trans
    (tab.replaceChars_halfway _))).trans (single.replaceChars_halfway _))).trans (double.replaceChars_halfway _))).trans
    (tick.replaceChars_halfway _))).trans (replaceChars_backslashes (by decide) _)

/-- Somewhere a backslash stands before an `n` or a `t`. -/
def HidesEscape (x : List Char) : Prop :=
  ∃ u d v, x = u ++ '\\' :: d :: v ∧ (d = 'n' ∨ d = 't')

theorem HidesEscape.cons {x : List Char} (h : HidesEscape x) (c : Char) : HidesEscape (c :: x) := by
  obtain ⟨u, d, v, rfl, turned⟩ := h
  exact ⟨c :: u, d, v, rfl, turned⟩

theorem halfway_eq_self_iff (cs : List Char) : halfway turnedLetters [] cs = cs ↔ ¬HidesEscape cs := by
  have keys {d : Char} : turnedLetters.lookup d = .none ↔ ¬(d = 'n' ∨ d = 't') := by
    rw [List.lookup_eq_none_iff]
    simp [turnedLetters, and_comm]
  fun_induction halfway turnedLetters [] cs with
  | case1 d cs p found ih =>
      have differs : p ≠ d := by
        obtain ⟨rfl, rfl⟩ | ⟨rfl, rfl⟩ : d = 't' ∧ p = '\t' ∨ d = 'n' ∧ p = '\n' := by
          simpa [turnedLetters] using mem_of_lookup found
        · decide
        · decide
      have turned : d = 'n' ∨ d = 't' := by
        by_contra other
        rw [keys.mpr other] at found
        cases found
      exact iff_of_false (fun same => differs (List.cons.inj (List.cons.inj same).2).1)
        (not_not_intro ⟨[], d, cs, rfl, turned⟩)
  | case2 d cs unfound ih =>
      have code : codeOf [] '\\' = ['\\'] := rfl
      rw [code, List.singleton_append, List.cons.injEq, and_iff_right rfl]
      refine ih.trans (not_congr ⟨fun h => h.cons _, ?_⟩)
      rintro ⟨u, d', v, same, turned⟩
      cases u with
      | nil =>
          obtain ⟨rfl, -⟩ := List.cons.inj (List.cons.inj same).2
          exact absurd turned (keys.mp unfound)
      | cons a u => exact ⟨u, d', v, (List.cons.inj same).2, turned⟩
  | case3 c cs other ih =>
      have code : codeOf [] c = [c] := rfl
      rw [code, List.singleton_append, List.cons.injEq, and_iff_right rfl]
      refine ih.trans (not_congr ⟨fun h => h.cons _, ?_⟩)
      rintro ⟨u, d', v, same, turned⟩
      cases u with
      | nil =>
          obtain ⟨rfl, rfl⟩ := List.cons.inj same
          exact absurd rfl (other d' v rfl)
      | cons a u => exact ⟨u, d', v, (List.cons.inj same).2, turned⟩
  | case4 => simp [HidesEscape]

/-! ### Literals -/

open ReactMigration.TypeScript in
theorem ofNode_string {src : Source} {n : Node} {q : Char} {body : String}
    (kind : n.kind = .string ∨ n.kind = .templateString)
    (text : src.text n = String.ofList (q :: (body.toList ++ [q]))) : ofNode src n = .str (unescape body) := by
  have within : inner (src.text n) = body := by
    simp [inner, text]
  rw [ofNode, ofNodeWithin]
  obtain kind | kind := kind
  · rw [kind, within]
  · rw [kind, within]

open ReactMigration.TypeScript in
/-- A text whose backslashes, line feeds, tabs and quotes are escaped is read back, on its own and as a literal in
quotes, exactly if in it no backslash stands before an `n` or a `t`. -/
theorem unescape_escape_iff (s : String) :
    (unescape (escape s) = s ↔ ¬HidesEscape s.toList) ∧
      ∀ (src : Source) (n : Node) (q : Char), n.kind = .string ∨ n.kind = .templateString →
        src.text n = String.ofList (q :: ((escape s).toList ++ [q])) →
          (ofNode src n = .str s ↔ ¬HidesEscape s.toList) := by
  have whole : unescape (escape s) = s ↔ ¬HidesEscape s.toList := by
    rw [← String.toList_inj, unescape_escape, halfway_eq_self_iff]
  refine ⟨whole, fun src n q kind text => ?_⟩
  rw [ofNode_string kind text, str.injEq, whole]

open ReactMigration.TypeScript in
/-- Backslashes before quotes, line feeds and further backslashes are no obstacle. -/
theorem unescape_escape_stacked :
    let s := "\\'it\\\\\n\\\t'\\\"tn\\ \\\\"
    let literal := String.ofList ('"' :: ((escape s).toList ++ ['"']))
    unescape (escape s) = s ∧
      ofNode (.ofString literal) (.mk .string .none 0 literal.length []) = .str s := by
  intro s literal
  have shown : ¬HidesEscape s.toList := (halfway_eq_self_iff s.toList).mp (by decide +kernel)
  obtain ⟨whole, quoted⟩ := unescape_escape_iff s
  exact ⟨whole.mpr shown, (quoted _ _ '"' (.inl rfl) (by decide +kernel)).mpr shown⟩

/-- A backslash before an `n` comes back as one before a line feed. -/
theorem unescape_escape_turned : escape "\\n" = "\\\\n" ∧ unescape (escape "\\n") = "\\\n" ∧ "\\\n" ≠ "\\n" := by
  decide

end ReactMigration.Metadata
