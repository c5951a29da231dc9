import ReactMigration.Text.Character

/-!
Operations on whole texts: trimming, lines, indentation, splitting at the first or last occurrence
of a separator, and replacement.

Each operation is defined on `List Char`, where it can be reasoned about by induction, and lifted
to `String`.
-/

namespace ReactMigration.Text

/-- The characters without the trailing ones that satisfy `p`. -/
def dropTrailing (p : Char → Bool) (cs : List Char) : List Char :=
  (cs.reverse.dropWhile p).reverse

/-- The characters without the leading and trailing ones that satisfy `p`. -/
def stripWith (p : Char → Bool) (cs : List Char) : List Char :=
  dropTrailing p (cs.dropWhile p)

/-- The text without surrounding white space. -/
def trim (s : String) : String :=
  String.ofList (stripWith isBlank s.toList)

/-- The text without trailing white space. -/
def trimEnd (s : String) : String :=
  String.ofList (dropTrailing isBlank s.toList)

/-- The text without surrounding line feeds. -/
def trimNewlines (s : String) : String :=
  String.ofList (stripWith (· == '\n') s.toList)

/-- Whether the text holds nothing but white space. -/
def isBlankText (s : String) : Bool :=
  s.toList.all isBlank

/-- The first character in upper case, the rest unchanged. -/
def upperFirst (s : String) : String :=
  match s.toList with
  | [] => ""
  | c :: cs => String.ofList (upper c ++ cs)

/-- The first character in lower case, the rest unchanged. -/
def lowerFirst (s : String) : String :=
  match s.toList with
  | [] => ""
  | c :: cs => String.ofList (lower c ++ cs)

/-- Whether a sigma between two texts, the first one backwards, ends a word. -/
def endsWord (before after : List Char) : Bool :=
  let meetsLetter (cs : List Char) := (cs.dropWhile isCaseIgnorable).head?.any isCased
  meetsLetter before && !meetsLetter after

/-- Every character in lower case, `before` being what is already read, backwards. -/
def lowerFrom (before : List Char) : List Char → List Char
  | [] => []
  | c :: cs =>
      (if c == 'Σ' && endsWord before cs then ['ς'] else lower c) ++ lowerFrom (c :: before) cs

/-- Every character in lower case; a capital sigma at the end of a word becomes a final one. -/
def toLower (s : String) : String :=
  String.ofList (lowerFrom [] s.toList)

/-- The characters from index `start` up to but not including index `stop`. -/
def slice (cs : List Char) (start stop : Nat) : List Char :=
  (cs.drop start).take (stop - start)

/-- Removes `lead` from the front when the text starts with it. -/
def dropLead? (lead : List Char) : List Char → Option (List Char) :=
  match lead with
  | [] => some
  | l :: ls => fun cs =>
      match cs with
      | c :: cs => if c == l then dropLead? ls cs else none
      | [] => none

theorem dropLead?_eq_some_iff {lead cs rest : List Char} :
    dropLead? lead cs = some rest ↔ cs = lead ++ rest := by
  induction lead generalizing cs with
  | nil => simp [dropLead?]
  | cons l ls ih =>
      cases cs with
      | nil => simp [dropLead?]
      | cons c cs => by_cases h : c = l <;> simp [dropLead?, h, ih]

/-- Whether `lead` opens the text. -/
def startsWith (cs lead : List Char) : Bool :=
  (dropLead? lead cs).isSome

/-- The text before and after the first occurrence of a non-empty separator. -/
def breakOn? (separator : List Char) : List Char → Option (List Char × List Char)
  | [] => none
  | c :: cs =>
      match dropLead? separator (c :: cs) with
      | some rest => some ([], rest)
      | none => (breakOn? separator cs).map fun (before, rest) => (c :: before, rest)

theorem eq_append_of_breakOn? {separator before rest : List Char} :
    ∀ {cs : List Char}, breakOn? separator cs = some (before, rest) → cs = before ++ separator ++ rest
  | [], h => by simp [breakOn?] at h
  | c :: cs, h => by
      unfold breakOn? at h
      split at h
      · rename_i dropped
        cases h
        exact dropLead?_eq_some_iff.mp dropped
      · obtain ⟨⟨before, rest⟩, found, same⟩ := Option.map_eq_some_iff.mp h
        cases same
        simpa using eq_append_of_breakOn? found

/-- Whether the non-empty text `part` occurs in `s`. -/
def occursIn (part s : String) : Bool :=
  (breakOn? part.toList s.toList).isSome

/-- The number of characters before the first occurrence of a non-empty text. -/
def indexOf? (part : List Char) (cs : List Char) : Option Nat :=
  (breakOn? part cs).map (·.1.length)

/-- The text before and after the first occurrence of the separator; the second part is empty when
the separator does not occur. -/
def splitFirst (separator s : String) : String × String :=
  match breakOn? separator.toList s.toList with
  | some (before, rest) => (String.ofList before, String.ofList rest)
  | none => (s, "")

/-- The text before and after the last occurrence of the separator character; the first part is
empty when it does not occur. -/
def splitLast (separator : Char) (s : String) : String × String :=
  let back := s.toList.reverse
  let tail := (back.takeWhile (· != separator)).reverse
  let head := ((back.dropWhile (· != separator)).drop 1).reverse
  (String.ofList head, String.ofList tail)

/-- Replaces every occurrence of the non-empty text `old`, from left to right, within `fuel`
steps. -/
def replaceWithin (old new : List Char) : Nat → List Char → List Char
  | 0, cs => cs
  | _, [] => []
  | fuel + 1, c :: cs =>
      match dropLead? old (c :: cs) with
      | some rest => new ++ replaceWithin old new fuel rest
      | none => c :: replaceWithin old new fuel cs

/-- Replaces every occurrence of the non-empty text `old`, from left to right. -/
def replaceChars (old new : List Char) (cs : List Char) : List Char :=
  replaceWithin old new (cs.length + 1) cs

/-- Replaces every occurrence of the non-empty text `old`, from left to right. -/
def replaceAll (old new s : String) : String :=
  String.ofList (replaceChars old.toList new.toList s.toList)

/-- Splits at every occurrence of a character; there is always at least one part. -/
def splitChar (separator : Char) : List Char → List (List Char)
  | [] => [[]]
  | c :: cs =>
      if c == separator then [] :: splitChar separator cs
      else
        match splitChar separator cs with
        | part :: parts => (c :: part) :: parts
        | [] => [[c]]

/-- Splits at every occurrence of a character; there is always at least one part. -/
def splitAt (separator : Char) (s : String) : List String :=
  (splitChar separator s.toList).map String.ofList

/-- Every run of white space becomes one plain space. -/
def collapseChars : List Char → List Char
  | [] => []
  | [c] => [if isBlank c then ' ' else c]
  | c :: d :: cs =>
      if isBlank c then
        if isBlank d then collapseChars (d :: cs) else ' ' :: collapseChars (d :: cs)
      else c :: collapseChars (d :: cs)

/-- Every run of white space becomes one plain space. -/
def collapse (s : String) : String :=
  String.ofList (collapseChars s.toList)

/-- The maximal runs of characters that are not white space. -/
def words (s : String) : List String :=
  ((splitChar ' ' (s.toList.map fun c => if isBlank c then ' ' else c)).filter (· ≠ [])).map
    String.ofList

/-! ### Lines -/

/-- A character that ends a line of text. -/
def isLineBreak (c : Char) : Bool :=
  let n := c.toNat
  (10 ≤ n && n ≤ 13) || (28 ≤ n && n ≤ 30) || n == 0x85 || n == 0x2028 || n == 0x2029

/-- Lines by every line break of the standard, a carriage return with a following line feed being
one break; nothing follows a final break. -/
def lineChars : List Char → List Char → List (List Char)
  | [], [] => []
  | line, [] => [line.reverse]
  | line, '\r' :: '\n' :: cs => line.reverse :: lineChars [] cs
  | line, c :: cs => if isLineBreak c then line.reverse :: lineChars [] cs else lineChars (c :: line) cs

/-- The lines of a text, without their breaks. -/
def lines (s : String) : List String :=
  (lineChars [] s.toList).map String.ofList

/-- Every carriage return, alone or before a line feed, becomes a line feed. -/
def plainBreaks : List Char → List Char
  | [] => []
  | '\r' :: '\n' :: cs => '\n' :: plainBreaks cs
  | c :: cs => (if c == '\r' then '\n' else c) :: plainBreaks cs

/-- Lines joined by line feeds. -/
def unlines (parts : List String) : String :=
  "\n".intercalate parts

/-- The longest common beginning of two texts. -/
def commonLead : List Char → List Char → List Char
  | a :: as, b :: bs => if a == b then a :: commonLead as bs else []
  | _, _ => []

/-- A plain space or a tab. -/
def isIndent (c : Char) : Bool :=
  c == ' ' || c == '\t'

/-- Removes the indentation that all lines with content share and empties the lines of spaces and
tabs alone. -/
def dedent (s : String) : String :=
  let rows := (splitChar '\n' s.toList).map fun row => if row.all isIndent then [] else row
  let margins := (rows.filter (· ≠ [])).map (·.takeWhile isIndent)
  let margin :=
    match margins with
    | [] => []
    | m :: ms => ms.foldl commonLead m
  unlines (rows.map fun row => String.ofList ((dropLead? margin row).getD row))

/-- The number of plain spaces a text of `n` holds. -/
def spaces (n : Nat) : String :=
  String.ofList (List.replicate n ' ')

end ReactMigration.Text
