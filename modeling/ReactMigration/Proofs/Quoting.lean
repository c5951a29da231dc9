import ReactMigration.Proofs.Scanning

/-!
Where a place of a text stands: in code, in a quoted text, or behind a backslash in a quoted text.
-/

namespace ReactMigration.Script

/-- Where a place stands. -/
inductive Mode where
  | code
  | quoted (quote : Char)
  | hidden (quote : Char)
  deriving Repr, DecidableEq

/-- Where the next place stands. -/
def Mode.next : Mode → Char → Mode
  | .code, c => if isQuote c then .quoted c else .code
  | .quoted q, c => if c == '\\' then .hidden q else if c == q then .code else .quoted q
  | .hidden q, _ => .quoted q

/-- Where a text that starts in code ends. -/
def modeAfter (x : List Char) : Mode :=
  x.foldl Mode.next .code

end ReactMigration.Script
