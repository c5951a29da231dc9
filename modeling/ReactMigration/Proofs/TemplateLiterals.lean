import ReactMigration.Proofs.Bracketing
import ReactMigration.Proofs.MarkupReading
import ReactMigration.Proofs.Outcome

/-!
Attribute values with interpolations, and the template literals that stand for them.

A template literal is read piece by piece: in a static text a backslash hides the character after it, and a
substitution goes on to the brace that closes it in its code.  What is read are the static texts of the value
and its trimmed expressions, in turn.
-/

namespace ReactMigration.Template

open ReactMigration.Text
open ReactMigration.Script (scan consPart foldr_consPart)

/-! ### Reading a template literal -/

/-- The pieces of a template literal from a place on, static texts and substitutions in turn; the place
stands in a static text, or within the code of a substitution.  There are none if a piece is not closed. -/
def literalPieces : Option Script.Place → List Char → Option (List (List Char))
  | _, [] => none
  | none, '\\' :: c :: cs => (literalPieces none cs).map (consPart c)
  | none, '$' :: '\x7b' :: cs => (literalPieces (some (.code, [])) cs).map ([] :: ·)
  | none, '\x60' :: cs => if cs.isEmpty then some [[]] else none
  | none, c :: cs => (literalPieces none cs).map (consPart c)
  | some place, c :: cs =>
      if place = (.code, []) ∧ c = '\x7d' then (literalPieces none cs).map ([] :: ·)
      else
        match place.next? c with
        | some next => (literalPieces (some next) cs).map (consPart c)
        | none => none

/-- The static texts and substitutions of a template literal, in turn. -/
def readLiteral (s : String) : Option (List (List Char)) :=
  match s.toList with
  | '\x60' :: cs => literalPieces none cs
  | _ => none

/-! ### Values with interpolations -/

/-- The value is put together from these static texts and bodies of interpolations, in turn. -/
inductive Interpolates : List (List Char) → List Char → Prop
  | last {text : List Char} (plain : breakOn? openBraces text = none) : Interpolates [text] text
  | next {text body rest : List Char} {pieces : List (List Char)}
      (opens : breakOn? openBraces (text ++ (openBraces ++ (body ++ (closeBraces ++ rest)))) =
        some (text, body ++ (closeBraces ++ rest)))
      (closes : interpolationLength? none 0 (body ++ (closeBraces ++ rest)) = some body.length)
      (more : Interpolates pieces rest) :
      Interpolates (text :: body :: pieces) (text ++ (openBraces ++ (body ++ (closeBraces ++ rest))))

/-- A value is put together in one way. -/
theorem Interpolates.unique {pieces others : List (List Char)} {value : List Char} (h : Interpolates pieces value)
    (other : Interpolates others value) : others = pieces := by
  induction h generalizing others with
  | last plain =>
      cases other with
      | last => rfl
      | next opens => rw [plain] at opens; cases opens
  | @next text body rest pieces opens closes more ih =>
      generalize whole : text ++ (openBraces ++ (body ++ (closeBraces ++ rest))) = value at opens other
      cases other with
      | last plain => rw [plain] at opens; cases opens
      | @next text' body' rest' pieces' opens' closes' more' =>
          rw [opens'] at opens
          obtain ⟨rfl, inner⟩ := Prod.mk.inj (Option.some.inj opens)
          rw [inner, closes] at closes'
          obtain ⟨rfl, behind⟩ := List.append_inj inner (Option.some.inj closes').symm
          obtain rfl := List.append_cancel_left behind
          rw [ih more']

/-- The bodies of the interpolations trimmed, the static texts as they are. -/
def trimBodies : List (List Char) → List (List Char)
  | text :: body :: pieces => text :: stripWith isBlank body :: trimBodies pieces
  | pieces => pieces

/-! ### Static texts -/

/-- A static text as it is written in a template literal. -/
def escapedChunk : List Char → List Char
  | [] => []
  | '\\' :: cs => '\\' :: '\\' :: escapedChunk cs
  | '\x60' :: cs => '\\' :: '\x60' :: escapedChunk cs
  | '$' :: '\x7b' :: cs => '\\' :: '$' :: '\x7b' :: escapedChunk cs
  | c :: cs => c :: escapedChunk cs

/-- Rounds enough to walk over the text are as good as any more. -/
theorem replaceWithin_enough {old : List Char} (visible : old ≠ []) (new : List Char) {n m : Nat}
    {cs : List Char} (enough : cs.length < n) (enough' : cs.length < m) :
    replaceWithin old new n cs = replaceWithin old new m cs := by
  induction n generalizing m cs with
  | zero => cases enough
  | succ n ih =>
      cases m with
      | zero => cases enough'
      | succ m =>
          cases cs with
          | nil => rfl
          | cons c cs =>
              simp only [List.length_cons] at enough enough'
              rw [replaceWithin, replaceWithin]
              cases found : dropLead? old (c :: cs) with
              | none =>
                  have same : replaceWithin old new n cs = replaceWithin old new m cs := ih (by omega) (by omega)
                  simp only [same]
              | some rest =>
                  have split := congrArg List.length (dropLead?_eq_some_iff.mp found)
                  have := List.length_pos_iff.mpr visible
                  simp only [List.length_append, List.length_cons] at split
                  have same : replaceWithin old new n rest = replaceWithin old new m rest := ih (by omega) (by omega)
                  simp only [same]

theorem replaceChars_cons {old : List Char} (visible : old ≠ []) (new : List Char) (c : Char) (cs : List Char) :
    replaceChars old new (c :: cs) =
      match dropLead? old (c :: cs) with
      | some rest => new ++ replaceChars old new rest
      | none => c :: replaceChars old new cs := by
  rw [replaceChars, List.length_cons, replaceWithin]
  cases found : dropLead? old (c :: cs) with
  | none => simp only [replaceChars]
  | some rest =>
      have split := congrArg List.length (dropLead?_eq_some_iff.mp found)
      have := List.length_pos_iff.mpr visible
      simp only [List.length_append, List.length_cons] at split
      have same : replaceWithin old new (cs.length + 1) rest = replaceWithin old new (rest.length + 1) rest :=
        replaceWithin_enough visible new (by omega) (by omega)
      simp only [replaceChars, same]

/-- Replacing single characters is done in each place alone. -/
theorem replaceAll_single' {old : String} {mark : Char} (single : old.toList = [mark]) (new s : String) :
    (replaceAll old new s).toList = s.toList.flatMap fun c => if c == mark then new.toList else [c] := by
  rw [replaceAll, String.toList_ofList, single]
  induction s.toList with
  | nil => rfl
  | cons c cs ih =>
      rw [replaceChars_cons (by simp), List.flatMap_cons, ← ih]
      cases same : c == mark <;> simp [dropLead?, same]

/-- A character whose escape does not look at the next one. -/
def escapedMark (c : Char) : List Char :=
  if c == '\\' then ['\\', '\\'] else if c == '\x60' then ['\\', '\x60'] else [c]

theorem exists_cons_of_escapedMark (c : Char) : ∃ d more, escapedMark c = d :: more ∧ (d = '\x7b' → c = '\x7b') := by
  unfold escapedMark
  split
  · exact ⟨_, _, rfl, by simp⟩
  split
  · exact ⟨_, _, rfl, by simp⟩
  · exact ⟨_, _, rfl, id⟩

theorem literalText_toList (s : String) : (literalText s).toList = escapedChunk s.toList := by
  have dollar (cs : List Char) :
      replaceChars ['$', '\x7b'] ['\\', '$', '\x7b'] (cs.flatMap escapedMark) = escapedChunk cs := by
    have visible : ['$', '\x7b'] ≠ [] := by simp
    fun_induction escapedChunk cs with
    | case1 => rfl
    | case2 cs ih => simp [escapedMark, replaceChars_cons visible, dropLead?, ih]
    | case3 cs ih => simp [escapedMark, replaceChars_cons visible, dropLead?, ih]
    | case4 cs ih => simp [escapedMark, replaceChars_cons visible, dropLead?, ih]
    | case5 c cs backslash tick opens ih =>
        have alone : escapedMark c = [c] := by simp_all [escapedMark]
        have keeps : dropLead? ['$', '\x7b'] (c :: cs.flatMap escapedMark) = none := by
          by_cases same : c = '$'
          · cases cs with
            | nil => simp [dropLead?]
            | cons d ds =>
                obtain ⟨e, more, written, brace⟩ := exists_cons_of_escapedMark d
                have other : e ≠ '\x7b' := fun opener => opens ds same (by rw [brace opener])
                simp [dropLead?, written, other]
          · simp [dropLead?, same]
        rw [List.flatMap_cons, alone, List.singleton_append, replaceChars_cons visible, keeps, ih]
  have marks : "\\".toList = ['\\'] ∧ "\x60".toList = ['\x60'] := ⟨rfl, rfl⟩
  have hidden : (replaceAll "\x60" "\\\x60" (replaceAll "\\" "\\\\" s)).toList = s.toList.flatMap escapedMark := by
    rw [replaceAll_single' marks.2, replaceAll_single' marks.1, List.flatMap_assoc]
    refine congrArg s.toList.flatMap (funext fun c => ?_)
    unfold escapedMark
    split
    · rfl
    · simp
  rw [literalText, replaceAll, String.toList_ofList, hidden]
  exact dollar s.toList

/-! ### What is read back -/

attribute [local grind =] literalPieces

/-- A character of a static text that neither escapes, nor ends the text. -/
theorem literalPieces_plain {c : Char} {cs : List Char} (escapes : c ≠ '\\') (ends : c ≠ '\x60')
    (opens : c = '$' → ∀ more, cs ≠ '\x7b' :: more) :
    literalPieces none (c :: cs) = (literalPieces none cs).map (consPart c) := by
  rw [literalPieces]
  all_goals simp_all

theorem escapedChunk_append_ne {t rest : List Char} (inside : ∀ more, t ≠ '\x7b' :: more)
    (outside : ∀ more, rest ≠ '\x7b' :: more) : ∀ more, escapedChunk t ++ rest ≠ '\x7b' :: more := by
  fun_cases escapedChunk t <;> simp_all

/-- A static text is read back as it is. -/
theorem literalPieces_escapedChunk (t : List Char) {rest : List Char} (apart : ∀ more, rest ≠ '\x7b' :: more) :
    literalPieces none (escapedChunk t ++ rest) = (literalPieces none rest).map (t.foldr consPart ·) := by
  fun_induction escapedChunk t with
  | case1 => simp
  | case2 t ih => simp [literalPieces, ih, Function.comp_def]
  | case3 t ih => simp [literalPieces, ih, Function.comp_def]
  | case4 t ih =>
      have brace : literalPieces none ('\x7b' :: (escapedChunk t ++ rest)) =
          (literalPieces none (escapedChunk t ++ rest)).map (consPart '\x7b') :=
        literalPieces_plain (by decide) (by decide) (by simp)
      simp [literalPieces, brace, ih, Function.comp_def]
  | case5 c t escapes ends opens ih =>
      have single : c = '$' → ∀ more, escapedChunk t ++ rest ≠ '\x7b' :: more :=
        fun dollar => escapedChunk_append_ne (fun more => opens more dollar) apart
      rw [List.cons_append, literalPieces_plain escapes ends single, ih]
      simp [Function.comp_def]

/-- Code is read up to where it leads. -/
theorem literalPieces_code {p p' : Script.Place} {e : List Char} (rest : List Char) (read : scan p e = some p') :
    literalPieces (some p) (e ++ rest) = (literalPieces (some p') rest).map (e.foldr consPart ·) := by
  induction e generalizing p with
  | nil =>
      cases read
      simp
  | cons c e ih =>
      obtain ⟨next, moved, read⟩ := Option.bind_eq_some_iff.mp read
      have within : ¬(p = (.code, []) ∧ c = '\x7d') := by
        rintro ⟨rfl, rfl⟩
        cases moved
      rw [List.cons_append, literalPieces, if_neg within]
      simp [moved, ih read, Function.comp_def]

/-- The static texts and the expressions in turn. -/
def alternate : List String → List String → List (List Char)
  | t :: ts, e :: es => t.toList :: e.toList :: alternate ts es
  | ts, _ => ts.map String.toList

theorem literalPieces_literalBody {texts expressions : List String} (turns : texts.length = expressions.length + 1)
    (balanced : ∀ e ∈ expressions, Script.Balanced e.toList) :
    literalPieces none ((literalBody texts expressions).toList ++ ['\x60']) = some (alternate texts expressions) := by
  fun_induction literalBody texts expressions with
  | case1 t ts e es ih =>
      have inner := ih (by simpa using turns) fun e mem => balanced e (List.mem_cons_of_mem _ mem)
      have code := literalPieces_code ('\x7d' :: ((literalBody ts es).toList ++ ['\x60']))
        (balanced e List.mem_cons_self)
      have closes : literalPieces (some (.code, [])) ('\x7d' :: ((literalBody ts es).toList ++ ['\x60'])) =
          some ([] :: alternate ts es) := by
        rw [literalPieces, if_pos ⟨rfl, rfl⟩, inner]
        rfl
      rw [closes] at code
      have apart : ∀ more, '$' :: '\x7b' :: (e.toList ++ '\x7d' :: ((literalBody ts es).toList ++ ['\x60'])) ≠
          '\x7b' :: more := by simp
      have opens := literalPieces_escapedChunk t.toList apart
      rw [literalPieces, code] at opens
      have marks : "$\x7b".toList = ['$', '\x7b'] ∧ "\x7d".toList = ['\x7d'] := ⟨rfl, rfl⟩
      simpa [literalText_toList, marks, foldr_consPart, alternate] using opens
  | case2 t ts =>
      obtain rfl : ts = [] := by simpa using turns
      have closes : literalPieces none ['\x60'] = some [[]] := rfl
      rw [literalText_toList, literalPieces_escapedChunk _ (by simp), closes]
      simp [foldr_consPart, alternate]
  | case3 => simp at turns

/-! ### Values put together -/

/-- An expression that passes the check is balanced. -/
theorem checkExpression_reads (name value : String) (c : Cursor) :
    Reading (checkExpression name value c) (fun _ => Script.Balanced value.toList) fun _ => True := by
  unfold checkExpression
  split
  · exact .of_error trivial
  split
  · exact .of_error trivial
  · rename_i sound
    exact .of_ok (Script.findUnbalanced_eq_none.mp sound)

theorem splitInterpolated_interpolates (name : String) (c : Cursor) (cs : List Char) :
    Reading (splitInterpolated name c cs)
      (fun parts => ∃ pieces, Interpolates pieces cs ∧ alternate parts.1 parts.2 = trimBodies pieces ∧
        parts.1.length = parts.2.length + 1 ∧ ∀ e ∈ parts.2, Script.Balanced e.toList)
      fun _ => True := by
  fun_induction splitInterpolated name c cs with
  | case1 cs plain => exact .of_ok ⟨[cs], .last plain, by simp [alternate, trimBodies], rfl, by simp⟩
  | case2 => exact .of_error trivial
  | case3 => exact .of_error trivial
  | case4 cs before body found n closes expression onwards shows ih =>
      obtain ⟨inside, rest, rfl, rfl⟩ := interpolationLength?_eq_some closes
      have whole := eq_append_of_breakOn? found
      rw [List.append_assoc] at whole
      dsimp only [onwards]
      refine .bind (checkExpression_reads ..) fun _ sound => .bind ih fun parts read => ?_
      obtain ⟨pieces, more, same, turns, balanced⟩ := read
      have behind : (inside ++ (closeBraces ++ rest)).drop (0 + inside.length + 2) = rest := by
        simp [← List.drop_drop, closeBraces]
      rw [behind] at more
      refine .of_ok ⟨before :: inside :: pieces, ?_, ?_, by simpa using turns, ?_⟩
      · rw [whole] at found ⊢
        exact .next found (by simpa using closes) more
      · simp [alternate, trimBodies, same, expression, trim]
      · simpa using ⟨sound, balanced⟩

theorem splitInterpolated_last {name : String} {c : Cursor} {cs : List Char} (plain : breakOn? openBraces cs = none) :
    splitInterpolated name c cs = .ok ([String.ofList cs], []) := by
  rw [splitInterpolated]
  split
  · rfl
  · rename_i found
    rw [show ['\x7b', '\x7b'] = openBraces from rfl, plain] at found
    cases found

theorem splitInterpolated_next {name : String} {c : Cursor} {cs text body rest : List Char}
    {texts expressions : List String} (opens : breakOn? openBraces cs = some (text, body ++ (closeBraces ++ rest)))
    (closes : interpolationLength? none 0 (body ++ (closeBraces ++ rest)) = some body.length)
    (shows : (trim (String.ofList body) == "") = false)
    (sound : checkExpression name (trim (String.ofList body)) c = .ok ())
    (more : splitInterpolated name c rest = .ok (texts, expressions)) :
    splitInterpolated name c cs = .ok (String.ofList text :: texts, trim (String.ofList body) :: expressions) := by
  have behind : (body ++ (closeBraces ++ rest)).drop (body.length + 2) = rest := by
    simp [← List.drop_drop, closeBraces]
  rw [splitInterpolated]
  split
  · rename_i plain
    rw [show ['\x7b', '\x7b'] = openBraces from rfl, opens] at plain
    cases plain
  · rename_i found
    rw [show ['\x7b', '\x7b'] = openBraces from rfl, opens] at found
    cases found
    simp only [closes, List.take_left, shows, sound, behind, more]
    rfl

theorem trimBodies_single {pieces : List (List Char)} {e : List Char} (h : trimBodies pieces = [[], e, []]) :
    ∃ body, pieces = [[], body, []] ∧ e = stripWith isBlank body := by
  fun_cases trimBodies pieces with
  | case1 text body more =>
      rw [trimBodies, List.cons.injEq, List.cons.injEq] at h
      obtain ⟨rfl, rfl, last⟩ := h
      refine ⟨body, ?_, rfl⟩
      fun_cases trimBodies more <;> simp_all [trimBodies]
  | case2 => simp_all [trimBodies]

theorem alternate_single {texts expressions : List String} {body : List Char}
    (turns : texts.length = expressions.length + 1) (h : alternate texts expressions = [[], body, []]) :
    texts = ["", ""] ∧ expressions = [String.ofList body] := by
  fun_cases alternate texts expressions with
  | case1 t ts e es =>
      rw [alternate, List.cons.injEq, List.cons.injEq, String.toList_eq_nil_iff] at h
      obtain ⟨rfl, rfl, last⟩ := h
      fun_cases alternate ts es with
      | case1 => simp [alternate] at last
      | case2 ts =>
          obtain ⟨u, rfl, rfl⟩ : ∃ u, ts = [u] ∧ u = "" := by simpa [alternate] using last
          obtain rfl : es = [] := by simpa using turns
          simp
  | case2 _ _ apart =>
      have many := congrArg List.length h
      match texts, expressions with
      | t :: ts, e :: es => exact (apart t ts e es rfl rfl).elim
      | t :: ts, [] => simp_all [alternate]
      | [], _ => simp at turns

/-- An attribute value binds its one expression, if it is an interpolation as a whole.  Otherwise it binds a
template literal, in which its static texts and its trimmed expressions are read in turn. -/
theorem interpolatedAttribute_reads {name value : String} {c : Cursor} {a : Attribute}
    (made : interpolatedAttribute name value c = .ok (some a)) :
    ∃ pieces, (∀ others, Interpolates others value.toList ↔ others = pieces) ∧
      ((∃ body, pieces = [[], body, []] ∧
          a = .property name (trim (String.ofList body))
            (parseBoundValue (trim (String.ofList body)) (some (positionOf c))) (positionOf c) false) ∨
        ((∀ body, pieces ≠ [[], body, []]) ∧
          ∃ literal, a = .property name literal (.text literal) (positionOf c) false ∧
            readLiteral literal = some (trimBodies pieces))) := by
  unfold interpolatedAttribute at made
  obtain ⟨⟨texts, expressions⟩, split, made⟩ := ok_of_bind made
  obtain ⟨pieces, whole, same, turns, balanced⟩ := (splitInterpolated_interpolates name c value.toList).ok split
  refine ⟨pieces, fun others => ⟨whole.unique, fun same => same ▸ whole⟩, ?_⟩
  dsimp only at made
  split at made
  · rename_i e
    obtain ⟨body, rfl, trimmed⟩ := trimBodies_single (e := e.toList) (by rw [← same]; rfl)
    cases made
    refine .inl ⟨body, rfl, ?_⟩
    rw [trim, String.toList_ofList, ← trimmed, String.ofList_toList]
  · rename_i mixed
    split at made
    · cases made
    · cases made
      refine .inr ⟨?_, _, rfl, ?_⟩
      · rintro body rfl
        obtain ⟨rfl, rfl⟩ := alternate_single turns same
        exact mixed _ rfl rfl
      · rw [← same, readLiteral]
        simpa using literalPieces_literalBody turns balanced

/-- Escapes and substitutions in the value itself are static text. -/
theorem interpolatedAttribute_reads_marks :
    ∃ literal,
      interpolatedAttribute "title"
          "a\\\x60$\x7bb\x7d $\x7b\x7b '\x7d\x7d' \x7d\x7d\x7b \x7b\x7b d \x7d\x7d" (.start []) =
        .ok (some (.property "title" literal (.text literal) (positionOf (.start [])) false)) ∧
      readLiteral literal =
        some ["a\\\x60$\x7bb\x7d $".toList, "'\x7d\x7d'".toList, "\x7b ".toList, "d".toList, []] := by
  have last : splitInterpolated "title" (.start []) "\x7b \x7b\x7b d \x7d\x7d".toList = .ok (["\x7b ", ""], ["d"]) :=
    @splitInterpolated_next _ _ _ ['\x7b', ' '] [' ', 'd', ' '] _ _ _
      (by decide +kernel) (by decide +kernel) (by decide +kernel) rfl (splitInterpolated_last rfl)
  have split : splitInterpolated "title" (.start [])
      "a\\\x60$\x7bb\x7d $\x7b\x7b '\x7d\x7d' \x7d\x7d\x7b \x7b\x7b d \x7d\x7d".toList =
        .ok (["a\\\x60$\x7bb\x7d $", "\x7b ", ""], ["'\x7d\x7d'", "d"]) :=
    @splitInterpolated_next _ _ _ "a\\\x60$\x7bb\x7d $".toList " '\x7d\x7d' ".toList _ _ _
      (by decide +kernel) (by decide +kernel) (by decide +kernel) rfl last
  obtain ⟨a, made⟩ : ∃ a, interpolatedAttribute "title"
      "a\\\x60$\x7bb\x7d $\x7b\x7b '\x7d\x7d' \x7d\x7d\x7b \x7b\x7b d \x7d\x7d" (.start []) = .ok (some a) := by
    rw [interpolatedAttribute, split]
    exact ⟨_, rfl⟩
  have ending : Interpolates ["\x7b ".toList, " d ".toList, []] "\x7b \x7b\x7b d \x7d\x7d".toList :=
    @Interpolates.next ['\x7b', ' '] [' ', 'd', ' '] _ _ (by decide +kernel) (by decide +kernel) (.last rfl)
  have whole : Interpolates ["a\\\x60$\x7bb\x7d $".toList, " '\x7d\x7d' ".toList, "\x7b ".toList, " d ".toList, []]
      "a\\\x60$\x7bb\x7d $\x7b\x7b '\x7d\x7d' \x7d\x7d\x7b \x7b\x7b d \x7d\x7d".toList :=
    @Interpolates.next "a\\\x60$\x7bb\x7d $".toList " '\x7d\x7d' ".toList _ _
      (by decide +kernel) (by decide +kernel) ending
  obtain ⟨pieces, put, read⟩ := interpolatedAttribute_reads made
  cases (put _).mp whole
  obtain ⟨body, single, -⟩ | ⟨-, literal, same, read⟩ := read
  · cases single
  · cases same
    exact ⟨_, made, read⟩

end ReactMigration.Template
