import ReactMigration.Text.CaseTable
import ReactMigration.Text.Category

/-!
Predicates and case maps on single characters, for every script.

`isBlank`, `isWord`, `isLetter`, `isDecimal` and `isPrintable` decide the classes the text rules of
this project speak of; `upper` and `lower` give the full case images, which may have several
characters.
-/

namespace ReactMigration.Text

/-- White space in the wide sense: control blanks, separators and every space of the standard. -/
def isBlank (c : Char) : Bool :=
  let n := c.toNat
  (9 ≤ n && n ≤ 13) || (28 ≤ n && n ≤ 32) || n == 0x85 || n == 0xA0 || n == 0x1680 ||
    (0x2000 ≤ n && n ≤ 0x200A) || n == 0x2028 || n == 0x2029 || n == 0x202F || n == 0x205F ||
    n == 0x3000

/-- A letter of any script. -/
def isLetter (c : Char) : Bool :=
  if c.toNat < 128 then c.isAlpha else Runs.contains letterRuns c.toNat

/-- A decimal digit of any script. -/
def isDecimal (c : Char) : Bool :=
  if c.toNat < 128 then c.isDigit else Runs.contains decimalRuns c.toNat

/-- The value of a decimal digit of any script; the digits of a script stand in a row from zero. -/
def decimalValue (c : Char) : Nat :=
  if c.toNat < 128 then c.toNat - '0'.toNat else (Runs.offset? decimalRuns c.toNat).getD 0 % 10

/-- The number that decimal digits of any script write. -/
def decimalNumber (cs : List Char) : Nat :=
  cs.foldl (fun n c => n * 10 + decimalValue c) 0

/-- A numeral written with letter forms, such as a Roman numeral sign. -/
def isLetterNumber (c : Char) : Bool :=
  128 ≤ c.toNat && Runs.contains letterNumberRuns c.toNat

/-- A letter or a numeric character of any kind. -/
def isAlphanumeric (c : Char) : Bool :=
  isLetter c || isDecimal c || isLetterNumber c ||
    (128 ≤ c.toNat && Runs.contains otherNumberRuns c.toNat)

/-- A word character: alphanumeric or an underscore. -/
def isWord (c : Char) : Bool :=
  isAlphanumeric c || c == '_'

/-- A combining mark or connector punctuation. -/
def isJoiner (c : Char) : Bool :=
  c == '_' || (128 ≤ c.toNat && Runs.contains joinerRuns c.toNat)

/-- A character that shows on paper; the plain space counts, other separators do not. -/
def isPrintable (c : Char) : Bool :=
  if c.toNat < 128 then 32 ≤ c.toNat && c.toNat < 127
  else !Runs.contains unprintableRuns c.toNat

/-- An ASCII letter. -/
def isAsciiLetter (c : Char) : Bool :=
  ('a' ≤ c && c ≤ 'z') || ('A' ≤ c && c ≤ 'Z')

/-- The image of a character under a case table, an expansion taking precedence over a span. -/
def caseImage (spans : List CaseSpan) (expansions : List (Nat × List Nat)) (c : Char) :
    List Char :=
  match expansions.find? (·.1 == c.toNat) with
  | some (_, image) => image.map Char.ofNat
  | none =>
      match spans.findSome? (·.image? c.toNat) with
      | some n => [Char.ofNat n]
      | none => [c]

/-- Upper case of one character. -/
def upper (c : Char) : List Char :=
  if c.toNat < 128 then [c.toUpper] else caseImage upperSpans upperExpansions c

/-- Lower case of one character. -/
def lower (c : Char) : List Char :=
  if c.toNat < 128 then [c.toLower] else caseImage lowerSpans lowerExpansions c

/-- A letter with a case, whether or not its image is another one. -/
def isCased (c : Char) : Bool :=
  if c.toNat < 128 then c.isAlpha else Runs.contains casedRuns c.toNat

/-- A character that case rules look past. -/
def isCaseIgnorable (c : Char) : Bool :=
  if c.toNat < 128 then "'.:^\x60".toList.contains c
  else Runs.contains caseIgnorableRuns c.toNat

/-- A letter that has a different lower case. -/
def isUpperCase (c : Char) : Bool :=
  lower c != [c]

/-- A letter that has a different upper case. -/
def isLowerCase (c : Char) : Bool :=
  upper c != [c]

/-- What holds of the first 128 characters, one by one, holds of a character that is one of them. -/
theorem forall_ascii {P : Char → Prop} (all : ∀ n < 128, P (Char.ofNat n)) {c : Char} (ascii : c.toNat < 128) :
    P c := by
  have this := all c.toNat ascii
  rwa [Char.ofNat_toNat] at this

end ReactMigration.Text
