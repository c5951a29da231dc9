import ReactMigration.Json.Parser
import ReactMigration.Text.Replacement

/-!
Which texts between two slashes are accepted as regular expressions.

The rules are those of a strict reader: a quantifier needs something to repeat and is not repeated
itself, an escaped letter must have a meaning, a class range runs upwards, a back reference names a
group that is already closed, and what is looked for behind a place has one width.  Characters are not
named in such a text.
-/

namespace ReactMigration.Script.RegexBody

open ReactMigration.Text
open ReactMigration.Text.Replacement (controls groupNumber? isGroupName isOctal octalValue)

/-! ### Widths -/

/-- The largest number that a reader has room for. -/
def largest : Nat := 0xFFFFFFFF

/-- The lengths of the texts that a part can match, without a bound if there is no longest one. -/
structure Width where
  least : Nat
  most : Option Nat
  deriving Repr, DecidableEq

namespace Width

def zero : Width := ⟨0, some 0⟩

def one : Width := ⟨1, some 1⟩

/-- One part after the other. -/
def andThen (w v : Width) : Width :=
  ⟨w.least + v.least, w.most.bind fun m => v.most.map (m + ·)⟩

/-- One part or the other. -/
def orElse (w v : Width) : Width :=
  ⟨min w.least v.least, w.most.bind fun m => v.most.map (max m)⟩

/-- A part repeated. -/
def times (w : Width) (least : Nat) (most : Option Nat) : Width :=
  ⟨w.least * least,
    if w.most = some 0 ∨ most = some 0 then some 0 else w.most.bind fun m => most.map (m * ·)⟩

/-- The part has one width, which is not too large. -/
def isFixed (w : Width) : Bool :=
  w.most == some w.least && w.least ≤ largest

end Width

/-! ### Digits -/

/-- A hexadecimal digit. -/
def isHex (c : Char) : Bool :=
  (Json.hexValue? c).isSome

/-- Drops exactly `n` hexadecimal digits. -/
def dropHex? : Nat → List Char → Option (List Char)
  | 0, cs => some cs
  | n + 1, c :: cs => if isHex c then dropHex? n cs else none
  | _ + 1, [] => none

/-- The code that exactly `n` hexadecimal digits write. -/
def hexCode? (n : Nat) (cs : List Char) : Option (Nat × List Char) :=
  (dropHex? n cs).bind fun rest =>
    let code := (cs.take n).foldl (fun code c => code * 16 + (Json.hexValue? c).getD 0) 0
    if code < 0x110000 then some (code, rest) else none

/-! ### Classes -/

/-- A member of a class: a single character, or a set such as the digits. -/
inductive Member where
  | char (code : Nat)
  | set

/-- The member that an escape inside a class stands for. -/
def classEscape? : List Char → Option (Member × List Char)
  | 'x' :: cs => (hexCode? 2 cs).map fun (code, rest) => (.char code, rest)
  | 'u' :: cs => (hexCode? 4 cs).map fun (code, rest) => (.char code, rest)
  | 'U' :: cs => (hexCode? 8 cs).map fun (code, rest) => (.char code, rest)
  | c :: cs =>
      match controls.lookup c with
      | some control => some (.char control.toNat, cs)
      | none =>
          if "dDsSwW".toList.contains c then some (.set, cs)
          else if isOctal c then
            let more := (cs.take 2).takeWhile isOctal
            if octalValue (c :: more) < 0x100 then some (.char (octalValue (c :: more)), cs.drop more.length)
            else none
          else if c == '8' || c == '9' || isAsciiLetter c then none
          else some (.char c.toNat, cs)
  | [] => none

/-- One member at the front of a class. -/
def member? : List Char → Option (Member × List Char)
  | '\\' :: cs => classEscape? cs
  | c :: cs => some (.char c.toNat, cs)
  | [] => none

/-- The rest after a class, whose opening bracket is already read; `empty` holds while it has no
member. -/
def class? : Nat → Bool → List Char → Option (List Char)
  | 0, _, _ => none
  | _, _, [] => none
  | fuel + 1, empty, c :: cs =>
      if c == ']' && !empty then some cs
      else
        match member? (c :: cs) with
        | none => none
        | some (low, rest) =>
            match rest with
            | '-' :: ']' :: after => some after
            | '-' :: more =>
                match member? more, low with
                | some (.char high, after), .char low => if low ≤ high then class? fuel false after else none
                | _, _ => none
            | _ => class? fuel false rest

/-! ### Groups -/

/-- The groups so far: the width of each closed one, the names, how many there were at the look
behind that is open, the numbers that conditions ask for, and the flags of the whole text. -/
structure Groups where
  widths : List (Option Width) := []
  names : List (List Char × Nat) := []
  behind : Option Nat := none
  asked : List Nat := []
  flags : List Char := []

/-- The width of a closed group that can be referred to. -/
def Groups.width? (g : Groups) (number : Nat) : Option Width :=
  if number = 0 ∨ g.behind.any (· < number) then none else (g.widths[number - 1]?).join

/-- Opens a group. -/
def Groups.opened (g : Groups) (name : Option (List Char)) : Groups :=
  { g with
    widths := g.widths ++ [none]
    names := name.toList.map (·, g.widths.length + 1) ++ g.names }

/-- What stands for a group, up to a closing mark.  An escape has no place in it. -/
def groupMark? (close : Char) (cs : List Char) : Option (List Char × List Char) :=
  let name := cs.takeWhile (· != close)
  match cs.drop name.length with
  | _ :: rest => some (name, rest)
  | [] => none

/-- The letters of the flags that are set inside a text: those set, those removed, whether they are
for a group, and the rest. -/
def inlineFlags? (cs : List Char) : Option (List Char × List Char × Bool × List Char) :=
  let letters (cs : List Char) := cs.takeWhile "iLmsxatu".toList.contains
  let set := letters cs
  if set.contains 'L' || (set.contains 'a' && set.contains 'u') then none
  else
    match cs.drop set.length with
    | ')' :: rest => some (set, [], false, rest)
    | ':' :: rest => if set.contains 't' then none else some (set, [], true, rest)
    | '-' :: more =>
        let removed := letters more
        match more.drop removed.length with
        | ':' :: rest =>
            if removed.isEmpty || set.contains 't' || removed.any ("Latu".toList ++ set).contains then none
            else some (set, removed, true, rest)
        | _ => none
    | _ => none

/-- The rest after a comment. -/
def afterComment? : List Char → Option (List Char)
  | '\\' :: _ :: cs => afterComment? cs
  | ')' :: cs => some cs
  | _ :: cs => afterComment? cs
  | [] => none

/-! ### Sequences -/

/-- What stands directly before a quantifier. -/
inductive Before where
  | nothing
  | position
  | quantifier
  | item
  deriving DecidableEq

/-- A sequence that is being read: its last part, with its width, and the width of what stands before
that. -/
structure Sequence where
  before : Before := .nothing
  done : Width := .zero
  last : Width := .zero

namespace Sequence

def width (s : Sequence) : Width :=
  s.done.andThen s.last

def push (s : Sequence) (before : Before) (w : Width) : Sequence :=
  ⟨before, s.width, w⟩

/-- The last part repeated. -/
def repeat? (s : Sequence) (least : Nat) (most : Option Nat) : Option Sequence :=
  if s.before = .item then some { s with before := .quantifier, last := s.last.times least most } else none

end Sequence

/-- A counted quantifier, or nothing when the brace is an ordinary character. -/
def counted? (cs : List Char) : Option ((Nat × Option Nat) × List Char) :=
  let low := cs.takeWhile Char.isDigit
  let least := Json.digitsValue low
  match cs.drop low.length with
  | '\x7d' :: after => if low.isEmpty then none else some ((least, some least), after)
  | ',' :: more =>
      let high := more.takeWhile Char.isDigit
      match more.drop high.length with
      | '\x7d' :: after => some ((least, if high.isEmpty then none else some (Json.digitsValue high)), after)
      | _ => none
  | _ => none

/-- The count of a quantifier is not too large, and its bounds are in order. -/
def isCount (least : Nat) (most : Option Nat) : Bool :=
  least < largest && most.all fun most => least ≤ most && most < largest

/-- The text after a quantifier's lazy or possessive mark. -/
def afterMark : List Char → List Char
  | '?' :: cs => cs
  | '+' :: cs => cs
  | cs => cs

/-- What an escape outside a class stands for: a position or a character, or a group again. -/
def escape? (g : Groups) : List Char → Option ((Before × Width) × List Char)
  | 'x' :: cs => (hexCode? 2 cs).map fun (_, rest) => ((.item, .one), rest)
  | 'u' :: cs => (hexCode? 4 cs).map fun (_, rest) => ((.item, .one), rest)
  | 'U' :: cs => (hexCode? 8 cs).map fun (_, rest) => ((.item, .one), rest)
  | '0' :: cs => some ((.item, .one), cs.drop ((cs.take 2).takeWhile isOctal).length)
  | c :: cs =>
      if "AbBZ".toList.contains c then some ((.position, .zero), cs)
      else if c.isDigit then
        match cs with
        | d :: e :: rest =>
            if isOctal c && isOctal d && isOctal e then
              if octalValue [c, d, e] < 0x100 then some ((.item, .one), rest) else none
            else if d.isDigit then (g.width? (Json.digitsValue [c, d])).map fun w => ((.item, w), e :: rest)
            else (g.width? (Json.digitsValue [c])).map fun w => ((.item, w), d :: e :: rest)
        | d :: rest =>
            if d.isDigit then (g.width? (Json.digitsValue [c, d])).map fun w => ((.item, w), rest)
            else (g.width? (Json.digitsValue [c])).map fun w => ((.item, w), d :: rest)
        | [] => (g.width? (Json.digitsValue [c])).map fun w => ((.item, w), [])
      else if "dDsSwW".toList.contains c || (controls.lookup c).isSome || !isAsciiLetter c then
        some ((.item, .one), cs)
      else none
  | [] => none

mutual

/-- Alternatives up to a closing bracket or the end: their width, the groups after them and the rest.
`outer` says that they are the whole text, `first` that no alternative stands before them. -/
def alternatives? : Nat → Bool → Bool → Bool → Groups → List Char → Option (Width × Groups × List Char)
  | 0, _, _, _, _, _ => none
  | n + 1, verbose, outer, first, g, cs => do
      let (w, g, rest) ← sequence? n verbose (outer && first) {} g cs
      match rest with
      | '|' :: rest =>
          let verbose := if outer then g.flags.contains 'x' else verbose
          let (v, g, rest) ← alternatives? n verbose outer false g rest
          return (w.orElse v, g, rest)
      | rest => return (w, g, rest)

/-- A sequence up to a bar, a closing bracket or the end. -/
def sequence? : Nat → Bool → Bool → Sequence → Groups → List Char → Option (Width × Groups × List Char)
  | 0, _, _, _, _, _ => none
  | _, _, _, s, g, [] => some (s.width, g, [])
  | n + 1, verbose, first, s, g, c :: cs =>
      let item (cs : List Char) := sequence? n verbose first (s.push .item .one) g cs
      -- nothing is repeated in a template
      let repeated (least : Nat) (most : Option Nat) (cs : List Char) := do
        if g.flags.contains 't' then none
        else sequence? n verbose first (← s.repeat? least most) g (afterMark cs)
      if c == '|' || c == ')' then some (s.width, g, c :: cs)
      else if verbose && " \t\n\r\x0b\x0c".toList.contains c then sequence? n verbose first s g cs
      else if verbose && c == '#' then
        sequence? n verbose first s g ((cs.dropWhile (· != '\n')).drop 1)
      else
        match c with
        | '\\' => do
            let ((before, w), rest) ← escape? g cs
            sequence? n verbose first (s.push before w) g rest
        | '[' => do
            let body := match cs with
              | '^' :: rest => rest
              | _ => cs
            item (← class? (body.length + 1) true body)
        | '*' => repeated 0 none cs
        | '+' => repeated 1 none cs
        | '?' => repeated 0 (some 1) cs
        | '\x7b' =>
            match counted? cs with
            | some ((least, most), rest) => if isCount least most then repeated least most rest else none
            | none => item cs
        | '^' => sequence? n verbose first (s.push .position .zero) g cs
        | '$' => sequence? n verbose first (s.push .position .zero) g cs
        | '(' => group? n verbose first s g cs
        | _ => item cs

/-- A sequence from a group on, whose opening bracket is already read. -/
def group? : Nat → Bool → Bool → Sequence → Groups → List Char → Option (Width × Groups × List Char)
  | 0, _, _, _, _, _ => none
  | n + 1, verbose, first, s, g, cs =>
      -- a group without a number, and one with it
      let plain (inner : Bool) (cs : List Char) := do
        let (w, g, rest) ← alternatives? n inner false true g cs
        match rest with
        | ')' :: rest => sequence? n verbose first (s.push .item w) g rest
        | _ => none
      let numbered (name : Option (List Char)) (cs : List Char) := do
        let (w, g', rest) ← alternatives? n verbose false true (g.opened name) cs
        match rest with
        | ')' :: rest =>
            sequence? n verbose first (s.push .item w) { g' with widths := g'.widths.set g.widths.length (some w) } rest
        | _ => none
      -- what is looked for matches no characters
      let look (behind : Bool) (cs : List Char) := do
        let start := if behind then some (g.behind.getD g.widths.length) else g.behind
        let (w, g', rest) ← alternatives? n verbose false true { g with behind := start } cs
        match rest with
        | ')' :: rest =>
            if behind && !w.isFixed then none
            else sequence? n verbose first (s.push .item .zero) { g' with behind := g.behind } rest
        | _ => none
      -- one of two sequences, as a group has matched or not
      let branch (number : Nat) (cs : List Char) := do
        if g.behind.isSome then discard (g.width? number)
        let g := if g.asked.contains number then g else { g with asked := number :: g.asked }
        let (w, g, rest) ← sequence? n verbose false {} g cs
        match rest with
        | ')' :: rest => sequence? n verbose first (s.push .item (w.orElse .zero)) g rest
        | '|' :: rest =>
            let (v, g, rest) ← sequence? n verbose false {} g rest
            match rest with
            | ')' :: rest => sequence? n verbose first (s.push .item (w.orElse v)) g rest
            | _ => none
        | _ => none
      match cs with
      | '?' :: ':' :: rest => plain verbose rest
      | '?' :: '>' :: rest => plain verbose rest
      | '?' :: '=' :: rest => look false rest
      | '?' :: '!' :: rest => look false rest
      | '?' :: '<' :: '=' :: rest => look true rest
      | '?' :: '<' :: '!' :: rest => look true rest
      | '?' :: '#' :: rest => do sequence? n verbose first s g (← afterComment? rest)
      | '?' :: 'P' :: '<' :: rest => do
          let (name, rest) ← groupMark? '>' rest
          if !isGroupName name || (g.names.lookup name).isSome then none else numbered (some name) rest
      | '?' :: 'P' :: '=' :: rest => do
          let (name, rest) ← groupMark? ')' rest
          let w ← g.width? (← g.names.lookup name)
          sequence? n verbose first (s.push .item w) g rest
      | '?' :: '(' :: rest => do
          let (mark, rest) ← groupMark? ')' rest
          let number ← if isGroupName mark then g.names.lookup mark else groupNumber? mark
          if number = 0 then none else branch number rest
      | '?' :: rest => do
          let (set, removed, grouped, rest) ← inlineFlags? rest
          if grouped then plain ((verbose || set.contains 'x') && !removed.contains 'x') rest
          else if first && s.before = .nothing then
            let g := { g with flags := set ++ g.flags }
            sequence? n (g.flags.contains 'x') first s g rest
          else none
      | cs => numbered none cs

end

/-- Whether a text between slashes is a regular expression. -/
def isValid (body : List Char) : Bool :=
  match alternatives? (3 * body.length + 3) false true true {} body with
  | some (_, g, []) => g.asked.all (· ≤ g.widths.length) && !(g.flags.contains 'a' && g.flags.contains 'u')
  | _ => false

end ReactMigration.Script.RegexBody
