import ReactMigration.Script.Token
import ReactMigration.Script.Token.RegexBody

/-!
Reading script text into tokens.

The grammar is that of the 2017 edition: `?.`, `??` and the logical assignments are read as their
parts.  A slash starts a regular expression or a division depending on the tokens before it, which
`History` remembers.  A text that cannot be read to its end has no tokens at all.
-/

namespace ReactMigration.Script

open ReactMigration.Text

/-- A read attempt that consumed characters: how many, and the rest. -/
abbrev Taken := Nat × List Char

/-- Characters consumed while they satisfy `p`. -/
def takenWhile (p : Char → Bool) (cs : List Char) : Taken :=
  ((cs.takeWhile p).length, cs.dropWhile p)

/-! ### Comments and gaps -/

/-- A line comment up to and including its line end. -/
def skipLine : Nat → List Char → Taken
  | n, [] => (n, [])
  | n, '\r' :: '\n' :: cs => (n + 2, cs)
  | n, c :: cs => if isLineEnd c then (n + 1, cs) else skipLine (n + 1) cs

/-- A block comment after its opening, or nothing if it never ends. -/
def skipBlock? : Nat → List Char → Option Taken
  | _, [] => none
  | n, '*' :: '/' :: cs => some (n + 2, cs)
  | n, _ :: cs => skipBlock? (n + 1) cs

/-- Skips white space and comments; `fresh` holds at the start of a line, where an arrow starts a
comment.  Nothing when a block comment never ends. -/
def skipGaps? : Nat → Bool → Nat → List Char → Option Taken
  | 0, _, n, cs => some (n, cs)
  | _, _, n, [] => some (n, [])
  | fuel + 1, fresh, n, c :: cs =>
      if isGap c then skipGaps? fuel fresh (n + 1) cs
      else if isLineEnd c then skipGaps? fuel true (n + 1) cs
      else
        match c, cs with
        | '/', '/' :: rest =>
            let (m, after) := skipLine (n + 2) rest
            skipGaps? fuel true m after
        | '/', '*' :: rest =>
            match skipBlock? (n + 2) rest with
            | some (m, after) => skipGaps? fuel fresh m after
            | none => none
        | '-', '-' :: '>' :: rest =>
            if fresh then
              let (m, after) := skipLine (n + 3) rest
              skipGaps? fuel fresh m after
            else some (n, c :: cs)
        | '<', '!' :: '-' :: '-' :: rest =>
            let (m, after) := skipLine (n + 4) rest
            skipGaps? fuel fresh m after
        | _, _ => some (n, c :: cs)

/-! ### Words -/

/-- A braced code point escape after its opening brace: the character and what was consumed. -/
def codePoint? (cs : List Char) : Option (Char × Taken) :=
  let digits := cs.takeWhile RegexBody.isHex
  let value := digits.foldl (fun n d => n * 16 + (Json.hexValue? d).getD 0) 0
  match cs.drop digits.length with
  | '\x7d' :: rest =>
      if digits.isEmpty || 0x10FFFF < value then none
      else some (Char.ofNat value, digits.length + 1, rest)
  | _ => none

/-- The character of an escape in an identifier, after its backslash. -/
def identifierEscape? (allowed : Char → Bool) : List Char → Option (Char × Taken)
  | 'u' :: '\x7b' :: cs => (codePoint? cs).map fun (c, n, rest) => (c, n + 2, rest)
  | 'u' :: cs =>
      match Json.readUnit? cs with
      | some (unit, rest) =>
          let c := Char.ofNat unit
          if c != '\\' && allowed c then some (c, 5, rest) else none
      | none => none
  | _ => none

/-- The rest of an identifier: its plain spelling, newest first, and what was consumed. -/
def identifierRest? : Nat → List Char → Nat → List Char → Option (List Char × Taken)
  | 0, name, n, cs => some (name, n, cs)
  | _, name, n, [] => some (name, n, [])
  | fuel + 1, name, n, c :: cs =>
      if c == '\\' then
        match identifierEscape? isIdentifierPart cs with
        | some (d, m, rest) => identifierRest? fuel (d :: name) (n + 1 + m) rest
        | none => none
      else if isIdentifierPart c then identifierRest? fuel (c :: name) (n + 1) cs
      else some (name, n, c :: cs)

/-- A word: an identifier or reserved word; a reserved word must be spelled without escapes. -/
def readWord? (cs : List Char) : Option (TokenKind × Taken) :=
  let first : Option (Char × Taken) :=
    match cs with
    | '\\' :: rest =>
        (identifierEscape? isIdentifierStart rest).map fun (c, n, after) => (c, n + 1, after)
    | c :: rest => some (c, 1, rest)
    | [] => none
  match first with
  | none => none
  | some (c, n, rest) =>
      match identifierRest? (rest.length + 1) [c] n rest with
      | none => none
      | some (name, m, after) =>
          let kind := wordKind (String.ofList name.reverse)
          if kind != .identifier && name.length != m then none else some (kind, m, after)

/-! ### Numbers -/

/-- An octal digit. -/
def isOctal (c : Char) : Bool :=
  '0' ≤ c && c ≤ '7'

/-- A number must not run into an identifier, nor, for a `strict` radix, into a further digit. -/
def numberEnds (strict : Bool) (cs : List Char) : Bool :=
  match cs with
  | [] => true
  | c :: _ => !(isIdentifierStart c || (strict && c.isDigit))

/-- Digits of one radix after a number's opening. -/
def radixDigits? (digit : Char → Bool) (strict : Bool) (opening : Nat) (cs : List Char) :
    Option Taken :=
  let (n, rest) := takenWhile digit cs
  if n == 0 || !numberEnds strict rest then none else some (opening + n, rest)

/-- An optional exponent. -/
def exponent? (n : Nat) (cs : List Char) : Option Taken :=
  match cs with
  | e :: rest =>
      if e == 'e' || e == 'E' then
        let (sign, rest) :=
          match rest with
          | '+' :: more => (1, more)
          | '-' :: more => (1, more)
          | _ => (0, rest)
        let (m, rest) := takenWhile Char.isDigit rest
        if m == 0 then none else some (n + 1 + sign + m, rest)
      else some (n, cs)
  | [] => some (n, cs)

/-- A decimal number. -/
def decimal? (cs : List Char) : Option Taken :=
  let (n, rest) := takenWhile Char.isDigit cs
  let (n, rest) :=
    match rest with
    | '.' :: more =>
        let (m, after) := takenWhile Char.isDigit more
        (n + 1 + m, after)
    | _ => (n, rest)
  match exponent? n rest with
  | some (n, rest) => if numberEnds false rest then some (n, rest) else none
  | none => none

/-- Whether the digits after a leading zero make the number octal. -/
def impliesOctal (cs : List Char) : Bool :=
  match cs.dropWhile isOctal with
  | c :: _ => !(c == '8' || c == '9')
  | [] => true

/-- A number of any radix. -/
def number? (cs : List Char) : Option Taken :=
  match cs with
  | '0' :: r :: rest =>
      if r == 'x' || r == 'X' then radixDigits? RegexBody.isHex false 2 rest
      else if r == 'b' || r == 'B' then radixDigits? (fun c => c == '0' || c == '1') true 2 rest
      else if r == 'o' || r == 'O' then radixDigits? isOctal true 2 rest
      else if isOctal r && impliesOctal rest then radixDigits? isOctal true 1 (r :: rest)
      else decimal? cs
  | _ => decimal? cs

/-! ### Strings and templates -/

/-- What an escape inside a string consumes, after its backslash. -/
def stringEscape? : List Char → Option Taken
  | 'u' :: '\x7b' :: cs => (codePoint? cs).map fun (_, n, rest) => (n + 2, rest)
  | 'u' :: cs => (RegexBody.dropHex? 4 cs).map fun rest => (5, rest)
  | 'x' :: cs => (RegexBody.dropHex? 2 cs).map fun rest => (3, rest)
  | '\r' :: '\n' :: cs => some (2, cs)
  | c :: cs => if c == '8' || c == '9' then none else some (1, cs)
  | [] => none

/-- The rest of a string after its opening quote. -/
def stringRest? (quote : Char) : Nat → Nat → List Char → Option Taken
  | 0, _, _ => none
  | _, _, [] => none
  | fuel + 1, n, c :: cs =>
      if c == quote then some (n + 1, cs)
      else if c == '\\' then
        match stringEscape? cs with
        | some (m, rest) => stringRest? quote fuel (n + 1 + m) rest
        | none => none
      else if isLineEnd c then none
      else stringRest? quote fuel (n + 1) cs

/-- What an escape inside a template consumes, after its backslash. -/
def templateEscape? : List Char → Option Taken
  | 'u' :: '\x7b' :: cs => (codePoint? cs).map fun (_, n, rest) => (n + 2, rest)
  | 'u' :: cs =>
      match RegexBody.dropHex? 4 cs with
      | some rest => some (5, rest)
      | none => some (1, cs)
  | 'x' :: cs => (RegexBody.dropHex? 2 cs).map fun rest => (3, rest)
  | '\r' :: '\n' :: cs => some (2, cs)
  | '0' :: cs =>
      match cs with
      | d :: _ => if d.isDigit then none else some (1, cs)
      | [] => some (1, cs)
  | c :: cs => if isOctal c then none else some (1, cs)
  | [] => some (1, [])

/-- The rest of a template piece: up to a closing backtick, or up to a substitution. -/
def templateRest? : Nat → Nat → List Char → Option (Bool × Taken)
  | 0, _, _ => none
  | _, _, [] => none
  | _ + 1, n, '\x60' :: cs => some (false, n + 1, cs)
  | _ + 1, n, '$' :: '\x7b' :: cs => some (true, n + 2, cs)
  | fuel + 1, n, '\\' :: cs =>
      match templateEscape? cs with
      | some (m, rest) => templateRest? fuel (n + 1 + m) rest
      | none => none
  | fuel + 1, n, _ :: cs => templateRest? fuel (n + 1) cs

/-! ### Regular expressions -/

/-- The body of a regular expression after its opening slash, with the closing slash consumed. -/
def regexRest? : Nat → Bool → List Char → Nat → List Char → Option (List Char × Taken)
  | 0, _, _, _, _ => none
  | _, _, _, _, [] => none
  | fuel + 1, inClass, body, n, c :: cs =>
      if c == '\\' then
        match cs with
        | d :: rest =>
            if isLineEnd d then none else regexRest? fuel inClass (d :: c :: body) (n + 2) rest
        | [] => none
      else if isLineEnd c then none
      else if inClass then regexRest? fuel (c != ']') (c :: body) (n + 1) cs
      else if c == '/' then some (body.reverse, n + 1, cs)
      else regexRest? fuel (c == '[') (c :: body) (n + 1) cs

/-- A regular expression with its flags. -/
def regex? (cs : List Char) : Option Taken :=
  match cs with
  | '/' :: rest =>
      match regexRest? (rest.length + 1) false [] 1 rest with
      | some (body, n, after) =>
          let flags := after.takeWhile isIdentifierPart
          if flags.contains '\\' || !RegexBody.isValid body then none
          else some (n + flags.length, after.drop flags.length)
      | none => none
  | _ => none

/-! ### Punctuators -/

/-- A punctuator, the longest that fits. -/
def punctuator? (cs : List Char) : Option Taken :=
  match cs with
  | '.' :: '.' :: '.' :: rest => some (3, rest)
  | '.' :: rest => some (1, rest)
  | c :: rest =>
      if lonePunctuators.contains c then some (1, rest)
      else
        match longPunctuators.find? fun p => startsWith cs p.toList with
        | some p => some (p.length, cs.drop p.length)
        | none => if operatorChars.contains c then some (1, rest) else none
  | [] => none

/-! ### Earlier tokens -/

/-- The punctuators and keywords read so far, other tokens being blank, with the places of the last
opening brace and parenthesis (one before the first while there is none). -/
structure History where
  values : Array (Option String) := #[]
  curly : Int := -1
  paren : Int := -1

/-- Adds a token. -/
def History.push (h : History) (kind : TokenKind) (text : String) : History :=
  let place : Int := h.values.size
  if kind == .punctuator || kind == .keyword then
    { values := h.values.push (some text)
      curly := if text == "\x7b" then place else h.curly
      paren := if text == "(" then place else h.paren }
  else { h with values := h.values.push none }

/-- The value at a place; negative places count back from the end. -/
def History.at (h : History) (place : Int) : Except Fault (Option String) :=
  let i := if place < 0 then place + h.values.size else place
  if i < 0 then .error .historyExhausted
  else
    match h.values[i.toNat]? with
    | some v => .ok v
    | none => .error .historyExhausted

/-- Whether a slash after these tokens starts a regular expression. -/
def History.regexMayStart (h : History) : Except Fault Bool := do
  match h.values.back? with
  | none => return true
  | some none => return false
  | some (some previous) =>
      if previous == "this" || previous == "]" then return false
      else if previous == ")" then
        let before ← h.at (h.paren - 1)
        return ["if", "while", "for", "with"].contains (before.getD "")
      else if previous == "\x7d" then
        let anonymous ← if 3 ≤ h.values.size then h.at (h.curly - 3) else pure none
        if anonymous == some "function" then
          match ← h.at (h.curly - 4) with
          | some check => return !beforeFunctionExpression.contains check
          | none => return false
        else
          let named ← if 4 ≤ h.values.size then h.at (h.curly - 4) else pure none
          if named == some "function" then
            match ← h.at (h.curly - 5) with
            | some check => return !beforeFunctionExpression.contains check
            | none => return true
          else return true
      else return true

/-! ### The whole text -/

/-- What the reader remembers between tokens: earlier tokens, and the open braces, innermost first,
`true` for those of template substitutions. -/
structure LexState where
  history : History := {}
  braces : List Bool := []

/-- One token at the front of a non-empty text, with the braces open after it. -/
def readToken? (braces : List Bool) (cs : List Char) :
    Option (TokenKind × Taken × List Bool) :=
  let plain (kind : TokenKind) (r : Option Taken) : Option (TokenKind × Taken × List Bool) :=
    r.map fun t => (kind, t, braces)
  let template (outer : List Bool) (rest : List Char) :
      Option (TokenKind × Taken × List Bool) :=
    (templateRest? (rest.length + 1) 1 rest).map fun (opens, t) =>
      (.template, t, if opens then true :: outer else outer)
  match cs with
  | [] => none
  | c :: rest =>
      if isIdentifierStart c then (readWord? cs).map fun (kind, t) => (kind, t, braces)
      else if c == '\'' || c == '"' then plain .string (stringRest? c (rest.length + 1) 1 rest)
      else if c.isDigit || (c == '.' && (rest.head?.map Char.isDigit).getD false) then
        plain .numeric (number? cs)
      else if c == '\x60' then template braces rest
      else if c == '\x7d' && braces.head? == some true then template braces.tail rest
      else if c == '\x7b' then some (.punctuator, (1, rest), false :: braces)
      else if c == '\x7d' then some (.punctuator, (1, rest), braces.tail)
      else plain .punctuator (punctuator? cs)

/-- Why a text has no tokens. -/
inductive LexError where
  | malformed
  | fault (f : Fault)
  deriving Repr

/-- The tokens from a place on, newest first so far. -/
def lexFrom : Nat → LexState → Bool → Nat → List Token → List Char → Except LexError (List Token)
  | 0, _, _, _, done, _ => .ok done.reverse
  | fuel + 1, state, fresh, start, done, cs =>
      match skipGaps? (cs.length + 1) fresh start cs with
      | none => .error .malformed
      | some (_, []) => .ok done.reverse
      | some (start, cs) =>
          let slash :=
            if cs.head? == some '/' then state.history.regexMayStart else .ok false
          match slash with
          | .error f => .error (.fault f)
          | .ok mayBeRegex =>
              let asRegex := if mayBeRegex then regex? cs else none
              let read :=
                match asRegex with
                | some t => some (.regex, t, state.braces)
                | none => readToken? state.braces cs
              match read with
              | none => .error .malformed
              | some (kind, (n, rest), braces) =>
                  let text := String.ofList (cs.take n)
                  let token : Token := ⟨kind, text, start, start + n⟩
                  lexFrom fuel ⟨state.history.push kind text, braces⟩ false (start + n)
                    (token :: done) rest

/-- The tokens of a text; a text that cannot be read has none. -/
def tokenize (s : String) : Except Fault (List Token) :=
  let cs := s.toList
  match lexFrom (cs.length + 1) {} true 0 [] cs with
  | .ok tokens => .ok tokens
  | .error .malformed => .ok []
  | .error (.fault f) => .error f

end ReactMigration.Script
