import ReactMigration.Text.Basic

/-!
Patterns over text, matched by backtracking with the first successful choice winning.

`Pattern.run` is a structural recursion on the pattern that passes the rest of the match on as a
continuation.  Repetition of a character class walks the remaining text; repetition of a compound
body is bounded by the number of remaining characters, since every body used here consumes at
least one.
-/

namespace ReactMigration.Text

/-- A place in a text: the characters before it, nearest first, those after it, and how many stand
before it. -/
structure Cursor where
  before : List Char
  after : List Char
  offset : Nat
  deriving Inhabited

/-- The beginning of a text. -/
def Cursor.start (cs : List Char) : Cursor :=
  ⟨[], cs, 0⟩

/-- One character further. -/
def Cursor.next (c : Cursor) : Cursor :=
  match c.after with
  | [] => c
  | a :: rest => ⟨a :: c.before, rest, c.offset + 1⟩

/-- `n` characters further, or at the end. -/
def Cursor.advance : Nat → Cursor → Cursor
  | 0, c => c
  | n + 1, c => Cursor.advance n c.next

/-- A pattern of text. -/
inductive Pattern where
  /-- Nothing. -/
  | empty
  /-- One character of a class. -/
  | one (p : Char → Bool)
  /-- At least `least` characters of a class, as many or as few as possible. -/
  | many (p : Char → Bool) (least : Nat) (greedy : Bool)
  | seq (first second : Pattern)
  | alt (first second : Pattern)
  /-- Any number of bodies, as many as possible. -/
  | star (body : Pattern)
  /-- A numbered group, remembered with the text it matched last. -/
  | group (index : Nat) (body : Pattern)
  /-- The text that a group matched. -/
  | again (index : Nat)
  /-- What follows matches the body, or does not. -/
  | ahead (wanted : Bool) (body : Pattern)
  /-- The character before belongs to no such class. -/
  | notAfter (p : Char → Bool)
  /-- A word starts or ends here. -/
  | boundary
  /-- The text starts here. -/
  | first
  /-- The text ends here, or only a line feed follows. -/
  | last

namespace Pattern

instance : Append Pattern := ⟨.seq⟩

instance : OrElse Pattern := ⟨fun p q => .alt p (q ())⟩

/-- The given characters in a row. -/
def chars : List Char → Pattern
  | [] => .empty
  | [c] => .one (· == c)
  | c :: cs => .seq (.one (· == c)) (chars cs)

/-- A literal text. -/
def text (s : String) : Pattern :=
  chars s.toList

/-- One of several literal texts, the first that fits. -/
def oneOf : List String → Pattern
  | [] => .ahead false .empty
  | [s] => text s
  | s :: rest => .alt (text s) (oneOf rest)

/-- The body or nothing, the body first. -/
def opt (p : Pattern) : Pattern :=
  .alt p .empty

/-- The characters of a name: word characters and the dollar sign. -/
def isName (c : Char) : Bool :=
  isWord c || c == '$'

/-- The characters of a member path: those of a name and the dot. -/
def isPath (c : Char) : Bool :=
  isName c || c == '.'

/-- The characters an identifier may start with, in ASCII. -/
def isNameStart (c : Char) : Bool :=
  isAsciiLetter c || c == '_' || c == '$'

/-- Any white space, also none. -/
def blanks : Pattern :=
  .many isBlank 0 true

/-- At least one white space. -/
def blanks1 : Pattern :=
  .many isBlank 1 true

/-- At least one word character. -/
def word : Pattern :=
  .many isWord 1 true

/-- At least one name character. -/
def name : Pattern :=
  .many isName 1 true

/-- Any characters, as many as possible. -/
def anything : Pattern :=
  .many (fun _ => true) 0 true

/-- An identifier. -/
def identifier : Pattern :=
  .one isNameStart ++ .many isName 0 true

/-- What the numbered groups matched, the latest first. -/
abbrev Captures := List (Nat × List Char)

/-- The rest of a match. -/
abbrev Continuation := Cursor → Captures → Option (Cursor × Captures)

/-- Repeats a character class from a cursor. -/
def runMany (p : Char → Bool) (greedy : Bool) (g : Captures) (k : Continuation) :
    Nat → List Char → List Char → Nat → Option (Cursor × Captures)
  | least, before, [], offset => if least = 0 then k ⟨before, [], offset⟩ g else none
  | least, before, c :: cs, offset =>
      let here := fun (_ : Unit) =>
        if least = 0 then k ⟨before, c :: cs, offset⟩ g else none
      if p c then
        if greedy then
          match runMany p greedy g k (least - 1) (c :: before) cs (offset + 1) with
          | some r => some r
          | none => here ()
        else
          match here () with
          | some r => some r
          | none => runMany p greedy g k (least - 1) (c :: before) cs (offset + 1)
      else here ()

/-- Repeats a body within a number of rounds. -/
def runStar (body : Cursor → Captures → Continuation → Option (Cursor × Captures))
    (k : Continuation) : Nat → Cursor → Captures → Option (Cursor × Captures)
  | 0, c, g => k c g
  | n + 1, c, g =>
      match body c g (runStar body k n) with
      | some r => some r
      | none => k c g

/-- Whether a word starts or ends at the cursor. -/
def atBoundary (c : Cursor) : Bool :=
  ((c.before.head?.map isWord).getD false) != ((c.after.head?.map isWord).getD false)

/-- Matches the pattern at the cursor and then the rest. -/
def run : Pattern → Cursor → Captures → Continuation → Option (Cursor × Captures)
  | .empty, c, g, k => k c g
  | .one p, c, g, k =>
      match c.after with
      | [] => none
      | a :: _ => if p a then k c.next g else none
  | .many p least greedy, c, g, k => runMany p greedy g k least c.before c.after c.offset
  | .seq p q, c, g, k => p.run c g fun c g => q.run c g k
  | .alt p q, c, g, k =>
      match p.run c g k with
      | some r => some r
      | none => q.run c g k
  | .star p, c, g, k => runStar p.run k c.after.length c g
  | .group i p, c, g, k =>
      p.run c g fun c' g' => k c' ((i, c.after.take (c'.offset - c.offset)) :: g')
  | .again i, c, g, k =>
      match g.find? (·.1 == i) with
      | some (_, t) => if startsWith c.after t then k (c.advance t.length) g else none
      | none => none
  | .ahead wanted p, c, g, k =>
      match p.run c g fun c g => some (c, g) with
      | some (_, g') => if wanted then k c g' else none
      | none => if wanted then none else k c g
  | .notAfter p, c, g, k =>
      match c.before with
      | b :: _ => if p b then none else k c g
      | [] => k c g
  | .boundary, c, g, k => if atBoundary c then k c g else none
  | .first, c, g, k => if c.before.isEmpty then k c g else none
  | .last, c, g, k => if c.after.isEmpty || c.after == ['\n'] then k c g else none

end Pattern

/-- A stretch of text that a pattern matched. -/
structure Match where
  /-- Where it starts. -/
  start : Nat
  /-- Where it ends. -/
  stop : Nat
  /-- The matched text. -/
  chars : List Char
  groups : Pattern.Captures
  /-- The place just after it. -/
  rest : Cursor
  deriving Inhabited

namespace Match

/-- The matched text. -/
def text (m : Match) : String :=
  String.ofList m.chars

/-- What a group matched, if it took part. -/
def group? (m : Match) (i : Nat) : Option String :=
  (m.groups.find? (·.1 == i)).map fun (_, t) => String.ofList t

/-- What a group matched, the empty text if it took no part. -/
def group (m : Match) (i : Nat) : String :=
  (m.group? i).getD ""

end Match

namespace Pattern

/-- The match that starts exactly at the cursor and meets a final condition. -/
def matchThen? (p : Pattern) (c : Cursor) (accept : Cursor → Bool) : Option Match :=
  match p.run c [] fun c g => if accept c then some (c, g) else none with
  | some (c', g) =>
      some ⟨c.offset, c'.offset, c.after.take (c'.offset - c.offset), g, c'⟩
  | none => none

/-- The match that starts exactly at the cursor. -/
def matchAt? (p : Pattern) (c : Cursor) : Option Match :=
  p.matchThen? c fun _ => true

/-- The first match at the cursor or later. -/
def searchWithin (p : Pattern) : Nat → Cursor → Option Match
  | 0, c => p.matchAt? c
  | n + 1, c =>
      match p.matchAt? c with
      | some m => some m
      | none => searchWithin p n c.next

/-- The first match at the cursor or later. -/
def searchAt? (p : Pattern) (c : Cursor) : Option Match :=
  p.searchWithin c.after.length c

/-- The first match in a text. -/
def find? (p : Pattern) (s : String) : Option Match :=
  p.searchAt? (.start s.toList)

/-- The match at the very beginning of a text. -/
def lead? (p : Pattern) (s : String) : Option Match :=
  p.matchAt? (.start s.toList)

/-- The match of the whole text. -/
def whole? (p : Pattern) (s : String) : Option Match :=
  p.matchThen? (.start s.toList) fun c => c.after.isEmpty

/-- Whether the pattern occurs in a text. -/
def occurs (p : Pattern) (s : String) : Bool :=
  (p.find? s).isSome

/-- Whether the pattern covers a whole text. -/
def covers (p : Pattern) (s : String) : Bool :=
  (p.whole? s).isSome

/-- The matches from a cursor on that do not overlap, within a number of steps. -/
def matchesWithin (p : Pattern) : Nat → Cursor → List Match
  | 0, _ => []
  | n + 1, c =>
      match p.searchAt? c with
      | none => []
      | some m =>
          m :: (if m.stop == m.start then
              (if m.rest.after.isEmpty then [] else matchesWithin p n m.rest.next)
            else matchesWithin p n m.rest)

/-- All matches in a text that do not overlap, from left to right. -/
def findAll (p : Pattern) (s : String) : List Match :=
  let cs := s.toList
  p.matchesWithin (cs.length + 1) (.start cs)

/-- The text with every match replaced, `from` being the end of the last one. -/
def weave (replacement : Match → List Char) : List Match → Nat → List Char → List Char
  | [], _, cs => cs
  | m :: ms, done, cs =>
      cs.take (m.start - done) ++ replacement m ++
        weave replacement ms m.stop (cs.drop (m.stop - done))

/-- Replaces every match by a text computed from it. -/
def replaceWith (p : Pattern) (replacement : Match → String) (s : String) : String :=
  String.ofList (weave (fun m => (replacement m).toList) (p.findAll s) 0 s.toList)

/-- Replaces every match by one text. -/
def replace (p : Pattern) (replacement s : String) : String :=
  p.replaceWith (fun _ => replacement) s

/-- The parts between the matches. -/
def between : List Match → Nat → List Char → List (List Char)
  | [], _, cs => [cs]
  | m :: ms, done, cs => cs.take (m.start - done) :: between ms m.stop (cs.drop (m.stop - done))

/-- Splits a text at every match. -/
def split (p : Pattern) (s : String) : List String :=
  (between (p.findAll s) 0 s.toList).map String.ofList

end Pattern

end ReactMigration.Text
