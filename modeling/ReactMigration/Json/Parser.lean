import ReactMigration.Json.Basic

/-!
Reading JSON text.  A repeated member takes the last value at the place of the first; numbers
without fraction and exponent are integers of any size.
-/

namespace ReactMigration.Json

/-- White space between JSON tokens. -/
def isSpace (c : Char) : Bool :=
  c == ' ' || c == '\n' || c == '\t' || c == '\r'

/-- Drops white space. -/
def skipSpace (cs : List Char) : List Char :=
  cs.dropWhile isSpace

/-- The value of a hexadecimal digit. -/
def hexValue? (c : Char) : Option Nat :=
  if c.isDigit then some (c.toNat - '0'.toNat)
  else if 'a' ≤ c && c ≤ 'f' then some (c.toNat - 'a'.toNat + 10)
  else if 'A' ≤ c && c ≤ 'F' then some (c.toNat - 'A'.toNat + 10)
  else none

/-- Four hexadecimal digits. -/
def readUnit? : List Char → Option (Nat × List Char)
  | a :: b :: c :: d :: rest => do
      let a ← hexValue? a
      let b ← hexValue? b
      let c ← hexValue? c
      let d ← hexValue? d
      return (((a * 16 + b) * 16 + c) * 16 + d, rest)
  | _ => none

/-- The character of a `\u` escape after its four digits: a pair of surrogates is one character and
a lone surrogate is the replacement character. -/
def joinUnits (unit : Nat) (rest : List Char) : Char × List Char :=
  let replacement := Char.ofNat 0xFFFD
  if 0xD800 ≤ unit && unit < 0xDC00 then
    match rest with
    | '\\' :: 'u' :: more =>
        match readUnit? more with
        | some (low, after) =>
            if 0xDC00 ≤ low && low < 0xE000 then
              (Char.ofNat (0x10000 + (unit - 0xD800) * 0x400 + (low - 0xDC00)), after)
            else (replacement, rest)
        | none => (replacement, rest)
    | _ => (replacement, rest)
  else if 0xDC00 ≤ unit && unit < 0xE000 then (replacement, rest)
  else (Char.ofNat unit, rest)

/-- The plain character that a one-letter escape stands for. -/
def simpleEscape? : Char → Option Char
  | '"' => some '"'
  | '\\' => some '\\'
  | '/' => some '/'
  | 'b' => some '\x08'
  | 'f' => some '\x0c'
  | 'n' => some '\n'
  | 'r' => some '\r'
  | 't' => some '\t'
  | _ => none

/-- The rest of a string after its opening quote, the characters read so far newest first. -/
def readString : Nat → List Char → List Char → Option (String × List Char)
  | 0, _, _ => none
  | _, _, [] => none
  | fuel + 1, done, c :: cs =>
      if c == '"' then some (String.ofList done.reverse, cs)
      else if c == '\\' then
        match cs with
        | 'u' :: digits =>
            match readUnit? digits with
            | some (unit, rest) =>
                let (char, after) := joinUnits unit rest
                readString fuel (char :: done) after
            | none => none
        | e :: rest =>
            match simpleEscape? e with
            | some char => readString fuel (char :: done) rest
            | none => none
        | [] => none
      else if c.toNat < 32 then none
      else readString fuel (c :: done) cs

/-- A number of decimal digits. -/
def digitsValue (ds : List Char) : Nat :=
  ds.foldl (fun n d => n * 10 + (d.toNat - '0'.toNat)) 0

/-- An optional exponent: its value and the rest. -/
def readExponent (cs : List Char) : Option (Int × List Char) :=
  match cs with
  | e :: rest =>
      if e == 'e' || e == 'E' then
        let (negative, rest) :=
          match rest with
          | '-' :: more => (true, more)
          | '+' :: more => (false, more)
          | _ => (false, rest)
        let digits := rest.takeWhile Char.isDigit
        if digits.isEmpty then none
        else
          let n : Int := digitsValue digits
          some (if negative then -n else n, rest.dropWhile Char.isDigit)
      else none
  | [] => none

/-- A number without its sign. -/
def readMagnitude (negative : Bool) (cs : List Char) : Option (Json × List Char) :=
  let whole :=
    match cs with
    | '0' :: _ => ['0']
    | _ => cs.takeWhile Char.isDigit
  if whole.isEmpty then none
  else
    let rest := cs.drop whole.length
    let (fraction, rest) :=
      match rest with
      | '.' :: more =>
          let ds := more.takeWhile Char.isDigit
          if ds.isEmpty then ([], rest) else (ds, more.dropWhile Char.isDigit)
      | _ => ([], rest)
    let exponent := readExponent rest
    let n := digitsValue (whole ++ fraction)
    match fraction, exponent with
    | [], none => some (.int (if negative then -(n : Int) else n), rest)
    | _, _ =>
        let (e, rest) := exponent.getD (0, rest)
        let x := Decimal.toFloat n (e - fraction.length)
        some (.float (if negative then -x else x), rest)

mutual

/-- A value at the front of the text. -/
def readValue : Nat → List Char → Option (Json × List Char)
  | 0, _ => none
  | fuel + 1, cs =>
      match cs with
      | '\x7b' :: rest =>
          match skipSpace rest with
          | '\x7d' :: after => some (.obj [], after)
          | _ => readMembers fuel [] rest
      | '[' :: rest =>
          match skipSpace rest with
          | ']' :: after => some (.arr [], after)
          | _ => readItems fuel [] rest
      | '"' :: rest => (readString (rest.length + 1) [] rest).map fun (s, after) => (.str s, after)
      | 'n' :: 'u' :: 'l' :: 'l' :: rest => some (.null, rest)
      | 't' :: 'r' :: 'u' :: 'e' :: rest => some (.bool true, rest)
      | 'f' :: 'a' :: 'l' :: 's' :: 'e' :: rest => some (.bool false, rest)
      | 'N' :: 'a' :: 'N' :: rest => some (.float (0.0 / 0.0), rest)
      | 'I' :: 'n' :: 'f' :: 'i' :: 'n' :: 'i' :: 't' :: 'y' :: rest => some (.float (1.0 / 0.0), rest)
      | '-' :: 'I' :: 'n' :: 'f' :: 'i' :: 'n' :: 'i' :: 't' :: 'y' :: rest =>
          some (.float (-1.0 / 0.0), rest)
      | '-' :: rest => readMagnitude true rest
      | _ => readMagnitude false cs

/-- The items of an array up to its closing bracket, newest first so far. -/
def readItems : Nat → List Json → List Char → Option (Json × List Char)
  | 0, _, _ => none
  | fuel + 1, done, cs =>
      match readValue fuel (skipSpace cs) with
      | none => none
      | some (v, rest) =>
          match skipSpace rest with
          | ',' :: more => readItems fuel (v :: done) more
          | ']' :: after => some (.arr (v :: done).reverse, after)
          | _ => none

/-- The members of an object up to its closing brace. -/
def readMembers : Nat → List (String × Json) → List Char → Option (Json × List Char)
  | 0, _, _ => none
  | fuel + 1, done, cs =>
      match skipSpace cs with
      | '"' :: rest =>
          match readString (rest.length + 1) [] rest with
          | none => none
          | some (key, rest) =>
              match skipSpace rest with
              | ':' :: rest =>
                  match readValue fuel (skipSpace rest) with
                  | none => none
                  | some (v, rest) =>
                      let members := setMember key v done
                      match skipSpace rest with
                      | ',' :: more => readMembers fuel members more
                      | '\x7d' :: after => some (.obj members, after)
                      | _ => none
              | _ => none
      | _ => none

end

/-- The value a whole text holds. -/
def parse? (s : String) : Option Json :=
  let cs := s.toList
  match readValue (cs.length + 2) (skipSpace cs) with
  | some (v, rest) => if (skipSpace rest).isEmpty then some v else none
  | none => none

end ReactMigration.Json
