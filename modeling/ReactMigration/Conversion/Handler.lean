import ReactMigration.Conversion.Draft
import ReactMigration.Framework
import ReactMigration.Template.Node

/-!
Event handlers: event bindings of a template become functions of one parameter, keyed events
guarded by a test of the key.
-/

namespace ReactMigration

open ReactMigration.Text

/-- A converted handler: `(param) => { if (guard) { statements } }`. -/
structure Handler where
  prop : String
  param : String
  statements : List String
  guard : Option String := none
  deriving Repr, DecidableEq, Inhabited

namespace Handler

/-- Braces around a block. -/
def braced (inner : String) : String :=
  "\x7b " ++ inner ++ " \x7d"

/-- The statements, under the guard if there is one. -/
def block (h : Handler) : String :=
  let inner := " ".intercalate (h.statements.map (· ++ ";"))
  if present h.guard then "if (" ++ h.guard.getD "" ++ ") " ++ braced inner else inner

/-- Whether a text uses the parameter. -/
def mentions (param text : String) : Bool :=
  (Pattern.notAfter Pattern.isPath ++ .text param ++ .boundary).occurs text

/-- The handler as a function; a parameter that nothing uses is left out. -/
def render (h : Handler) : String :=
  let usesParam := h.guard.isSome || h.statements.any (mentions h.param)
  let head := if usesParam then "(" ++ h.param ++ ") =>" else "() =>"
  match h.guard, h.statements with
  | none, [statement] => head ++ " " ++ statement
  | _, _ => head ++ " " ++ braced h.block

/-- Several handlers of one prop as one function. -/
def merge : List Handler → String
  | [] => ""
  | [h] => h.render
  | h :: hs =>
      let part (x : Handler) : String :=
        if x.param != h.param then
          braced ("const " ++ x.param ++ " = " ++ h.param ++ "; " ++ x.block)
        else x.block
      "(" ++ h.param ++ ") => " ++ braced (" ".intercalate ((h :: hs).map part))

/-- The property of a keyboard event that holds a modifier key. -/
def modifierKeys : Table String :=
  [("shift", "shiftKey"), ("control", "ctrlKey"), ("ctrl", "ctrlKey"), ("alt", "altKey"),
   ("meta", "metaKey")]

/-- The test that a key is a modifier that is held. -/
def modifierTest? (key : String) : Option String :=
  (modifierKeys.get? (toLower key)).map ("event." ++ ·)

/-- The test of a keyed event: its modifiers, then its key. -/
def keyGuard (modifiers : List String) : Option String :=
  match modifiers.getLast? with
  | none => none
  | some key =>
      let last := (modifierTest? key).getD ("event.key === '" ++ Framework.keyValue key ++ "'")
      some (" && ".intercalate (modifiers.dropLast.filterMap modifierTest? ++ [last]))

/-- Converts an event binding.  On a component an event is an output; half of a two-way binding
receives the value itself, or reads it off a form control. -/
def ofBinding (ctx : RecastContext) (locals : Table String) (name handler : String)
    (position : Template.Position) (twoWay component : Bool) (formValue : Option String) :
    Converting (Option Handler) := do
  let (target, event) := splitLast ':' name
  if target != "" then
    Converting.warnAt s!"Global event binding ({name}) in a template is not converted" position
    return none
  let parts := splitAt '.' event
  let event := parts.headD ""
  let (prop, param, value) :=
    if twoWay && present formValue then ("onChange", "event", "event.target." ++ formValue.getD "")
    else if twoWay then (Naming.callbackPropName event, "value", "value")
    else if component then (Naming.callbackPropName event, "event", "event")
    else (Framework.eventProp event, "event", "event")
  let statements ← Converting.statements ctx (locals.set "$event" value) handler
  return some { prop, param, statements, guard := keyGuard (parts.drop 1) }

end Handler

end ReactMigration
