import ReactMigration.Text.Replacement

/-!
Failures that stop the conversion of one unit without being a finding about its source.

Each one has a text, which a report repeats after saying what the converter was doing.
-/

namespace ReactMigration

/-- Why the conversion of a unit broke off. -/
inductive Fault where
  /-- A look-up in earlier tokens went past the first one. -/
  | historyExhausted
  /-- A value that is absent was asked for a property. -/
  | absentValue (property : String)
  /-- A metadata entry that should hold several values holds a single one of this kind. -/
  | notSeveral (kind : String)
  /-- An indexed declaration of this kind lacks a property. -/
  | lacksProperty (kind property : String)
  /-- A value of this kind stands where a path is needed. -/
  | notPath (kind : String)
  /-- A template shows itself, directly or through others. -/
  | endlessTemplate
  /-- A name that is written as a replacement has an escape that cannot be read. -/
  | unreadReplacement (refusal : Text.Replacement.Refusal)
  deriving Repr, DecidableEq, Inhabited

/-- The text of a fault in a report. -/
def Fault.message : Fault → String
  | .historyExhausted => "list index out of range"
  | .absentValue property => s!"'NoneType' object has no attribute '{property}'"
  | .notSeveral kind => s!"'{kind}' object is not iterable"
  | .lacksProperty kind property => s!"'{kind}' object has no attribute '{property}'"
  | .notPath kind => s!"stat: path should be string, bytes, os.PathLike or integer, not {kind}"
  | .endlessTemplate => "maximum recursion depth exceeded"
  | .unreadReplacement refusal => refusal.message

end ReactMigration
