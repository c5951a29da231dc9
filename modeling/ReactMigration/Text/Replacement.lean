import ReactMigration.Text.Pattern
import ReactMigration.Text.Quoted

/-!
Replacements that are written with escapes.

What a search puts in the place of its matches is a small language of its own: a backslash begins an
escape for a control character, for a character by its octal code, or for a group of the match.  Only
patterns without numbered groups are replaced so, which leaves group zero, the match itself.  A
replacement is read before the text is searched, so one that cannot be read is refused even where
nothing matches.
-/

namespace ReactMigration.Text

namespace Replacement

/-- What a replacement writes: a character, or the match again. -/
inductive Piece where
  | char (c : Char)
  | whole
  deriving Repr, DecidableEq

def Piece.write (m : Match) : Piece → List Char
  | .char c => [c]
  | .whole => m.chars

/-- Why a replacement cannot be read: an escape that is none, or a group, its name in quotes, that no
pattern has. -/
inductive Refusal where
  | malformed (message : String)
  | unknownGroup (quoted : String)
  deriving Repr, DecidableEq, Inhabited

def Refusal.message : Refusal → String
  | .malformed message => message
  | .unknownGroup quoted => s!"unknown group name {quoted}"

/-- A replacement is read in characters and escaped characters; a backslash at its end escapes
nothing. -/
inductive Mark where
  | char (c : Char)
  | escape (c : Char)
  | dangling
  deriving DecidableEq

def Mark.chars : Mark → List Char
  | .char c => [c]
  | .escape c => ['\\', c]
  | .dangling => ['\\']

def marks : List Char → List Mark
  | [] => []
  | [c] => [if c = '\\' then .dangling else .char c]
  | c :: d :: cs => if c = '\\' then .escape d :: marks cs else .char c :: marks (d :: cs)

/-- The refusal of a replacement, with the place in it. -/
def malformed (source : List Char) (message : String) (place : Nat) : Refusal :=
  let before := source.take place
  let line := before.count '\n' + 1
  let column := (before.reverse.takeWhile (· != '\n')).length + 1
  let lines := if source.contains '\n' then s!" (line {line}, column {column})" else ""
  .malformed (message ++ s!" at position {place}" ++ lines)

/-- The place in front of the marks that are left. -/
def placeOf (source : List Char) (rest : List Mark) : Nat :=
  source.length - (rest.flatMap Mark.chars).length

/-- The marks after one that was taken; reading looks one mark ahead. -/
def ahead (source : List Char) (rest : List Mark) : Except Refusal (List Mark) :=
  if rest = [.dangling] then .error (malformed source "bad escape (end of pattern)" (source.length - 1))
  else .ok rest

/-! ### Numbers -/

def isOctal (c : Char) : Bool :=
  '0' ≤ c && c ≤ '7'

def octalValue (digits : List Char) : Nat :=
  digits.foldl (fun n c => n * 8 + (c.toNat - '0'.toNat)) 0

/-- At most so many octal digits. -/
def octalDigits (source : List Char) : Nat → List Mark → Except Refusal (List Char × List Mark)
  | n + 1, .char c :: rest =>
      if isOctal c then do
        let (digits, rest) ← octalDigits source n (← ahead source rest)
        return (c :: digits, rest)
      else .ok ([], .char c :: rest)
  | _, rest => .ok ([], rest)

/-- A numbered group, which the pattern does not have. -/
def numbered {α : Type} (source digits : List Char) (rest : List Mark) : Except Refusal α :=
  .error (malformed source s!"invalid group reference {decimalNumber digits}"
    (placeOf source rest - digits.length))

/-- A number that does not start with zero: an octal code if it has three octal digits, a numbered
group otherwise. -/
def number (source : List Char) (c : Char) : List Mark → Except Refusal (Char × List Mark)
  | .char d :: rest =>
      if d.isDigit then do
        match ← ahead source rest with
        | .char e :: rest =>
            if isOctal c && isOctal d && isOctal e then do
              let rest ← ahead source rest
              let value := octalValue [c, d, e]
              if value ≤ 0xFF then return (Char.ofNat value, rest)
              else .error (malformed source ("octal escape value " ++ String.ofList ['\\', c, d, e] ++
                " outside of range 0-0o377") (placeOf source rest - 4))
            else numbered source [c, d] (.char e :: rest)
        | rest => numbered source [c, d] rest
      else numbered source [c] (.char d :: rest)
  | rest => numbered source [c] rest

/-! ### Groups -/

def isGroupName (name : List Char) : Bool :=
  let starts (c : Char) := isLetter c || isLetterNumber c || c == '_'
  (name.head?.any starts) && name.all fun c => starts c || isDecimal c || isJoiner c

/-- The number that a text writes in digits of any script, with lone underscores between them, a sign
in front, and white space around; less than nothing is no number of a group. -/
def groupNumber? (name : List Char) : Option Nat :=
  let name := stripWith isBlank name
  let (negative, digits) :=
    match name with
    | '-' :: digits => (true, digits)
    | '+' :: digits => (false, digits)
    | digits => (false, digits)
  let parts := splitChar '_' digits
  let value := decimalNumber parts.flatten
  if parts.all (fun part => !part.isEmpty && part.all isDecimal) && (!negative || value == 0) then
    some value
  else none

/-- The name of a group up to its closing bracket, `name` being read. -/
def groupName (source : List Char) : List Char → List Mark → Except Refusal (List Char × List Mark)
  | name, [] =>
      if name.isEmpty then .error (malformed source "missing group name" source.length)
      else .error (malformed source "missing >, unterminated name" (source.length - name.length))
  | name, m :: rest => do
      let left ← ahead source rest
      if m = .char '>' then
        if name.isEmpty then .error (malformed source "missing group name" (placeOf source rest - 1))
        else return (name, left)
      else groupName source (name ++ m.chars) rest

/-- A group by its name: the match itself has the number zero, and no group has a name. -/
def group (source : List Char) : List Mark → Except Refusal (Piece × List Mark)
  | .char '<' :: rest => do
      let (name, rest) ← groupName source [] (← ahead source rest)
      let place := placeOf source rest - (name.length + 1)
      let shown := quoted (String.ofList name)
      if isGroupName name then .error (.unknownGroup shown)
      else
        match groupNumber? name with
        | some 0 => return (.whole, rest)
        | some n => .error (malformed source s!"invalid group reference {n}" place)
        | none => .error (malformed source s!"bad character in group name {shown}" place)
  | rest => .error (malformed source "missing <" (placeOf source rest))

/-! ### Reading -/

/-- The control characters with a letter, and the backslash. -/
def controls : List (Char × Char) :=
  [('a', Char.ofNat 7), ('b', Char.ofNat 8), ('f', Char.ofNat 12), ('n', '\n'), ('r', '\r'), ('t', '\t'),
    ('v', Char.ofNat 11), ('\\', '\\')]

/-- What an escape writes, with the marks after it. -/
def escape (source : List Char) (c : Char) (rest : List Mark) : Except Refusal (List Piece × List Mark) :=
  if c == 'g' then do
    let (piece, rest) ← group source rest
    return ([piece], rest)
  else if c == '0' then do
    let (digits, rest) ← octalDigits source 2 rest
    return ([.char (Char.ofNat (octalValue digits % 0x100))], rest)
  else if c.isDigit then do
    let (image, rest) ← number source c rest
    return ([.char image], rest)
  else
    match controls.lookup c with
    | some image => .ok ([.char image], rest)
    | none =>
        if isAsciiLetter c then
          .error (malformed source ("bad escape " ++ String.ofList ['\\', c]) (placeOf source rest - 2))
        else .ok ([.char '\\', .char c], rest)

/-- Reads marks within a number of steps. -/
def readWithin (source : List Char) : Nat → List Mark → Except Refusal (List Piece)
  | 0, _ => .ok []
  | _, [] => .ok []
  | n + 1, m :: rest => do
      let rest ← ahead source rest
      match m with
      | .escape c =>
          let (pieces, rest) ← escape source c rest
          return pieces ++ (← readWithin source n rest)
      | m => return m.chars.map .char ++ (← readWithin source n rest)

/-- Reads a replacement; one without a backslash is written as it is. -/
def read (replacement : String) : Except Refusal (List Piece) := do
  let source := replacement.toList
  if '\\' ∈ source then readWithin source source.length (← ahead source (marks source))
  else return source.map .char

theorem read_plain {replacement : String} (plain : '\\' ∉ replacement.toList) :
    read replacement = .ok (replacement.toList.map .char) :=
  if_neg plain

end Replacement

open Replacement (Piece)

/-- Replaces every match by what a replacement writes there; one that cannot be read replaces
nothing. -/
def Pattern.substitute (p : Pattern) (replacement s : String) : String :=
  match Replacement.read replacement with
  | .ok pieces => p.replaceWith (fun m => String.ofList (pieces.flatMap (Piece.write m))) s
  | .error _ => s

theorem Pattern.substitute_plain (p : Pattern) {replacement : String} (plain : '\\' ∉ replacement.toList)
    (s : String) : p.substitute replacement s = p.replace replacement s := by
  have written (m : Match) : (replacement.toList.map Piece.char).flatMap (Piece.write m) = replacement.toList := by
    rw [List.flatMap_map]
    exact List.flatMap_singleton' replacement.toList
  simp only [substitute, Replacement.read_plain plain, written, String.ofList_toList]
  rfl

/-- A name begins no escape. -/
theorem unescaped_of_isName {cs : List Char} (letters : ∀ a ∈ cs, Pattern.isName a = true) : '\\' ∉ cs :=
  fun mem => absurd (letters _ mem) (by decide)

end ReactMigration.Text
