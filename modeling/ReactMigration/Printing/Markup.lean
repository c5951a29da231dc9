import ReactMigration.Printing.Declarations
import ReactMigration.Target.Markup

/-!
The text of generated markup, as lines with relative indentation.  A node takes one line if it fits
and holds nothing that needs lines of its own.
-/

namespace ReactMigration.Printing

open ReactMigration.Text

/-- The longest line that a node is put on. -/
def maxLine : Nat := 100

/-- Braces around code. -/
def braced (code : String) : String :=
  "\x7b" ++ code ++ "\x7d"

/-- A character of a text as it is written in markup. -/
def escapeChar (c : Char) : List Char :=
  if c == '\x7b' || c == '\x7d' then ['\x7b', '\'', c, '\'', '\x7d']
  else if c == '<' then "&lt;".toList
  else if c == '>' then "&gt;".toList
  else [c]

/-- A text as it is written in markup. -/
def escapeText (s : String) : String :=
  String.ofList (s.toList.flatMap escapeChar)

/-- Puts a text before the first line and one after the last. -/
def wrap (before after : String) : List String → List String
  | [] => []
  | [line] => [before ++ line ++ after]
  | first :: rest => (before ++ first) :: (rest.dropLast ++ [rest.getLast?.getD "" ++ after])

/-- A property. -/
def attrText (a : MarkupAttr) : String :=
  if a.spread then braced ("..." ++ if present a.value then a.value.getD "" else a.name)
  else
    match a.value with
    | none => a.name
    | some v =>
        if a.expression then a.name ++ "=" ++ braced v
        else a.name ++ "=\"" ++ replaceAll "\"" "&quot;" v ++ "\""

/-- A start tag: on one line if it fits, otherwise one property a line. -/
def openTag (tag : String) (attrs : List String) (close : String) : List String :=
  let single := "<" ++ tag ++ String.join (attrs.map (" " ++ ·)) ++ close
  if single.length ≤ maxLine && attrs.all (!·.toList.contains '\n') then [single]
  else ("<" ++ tag) :: attrs.flatMap (fun a => lines (indent a)) ++ [trim close]

/-- The text of a space that would otherwise vanish. -/
def keptSpace : String :=
  "\x7b' '\x7d"

/-- The text of one inline node in a run. -/
def inlineText : Markup → String
  | .text t => escapeText (collapse t)
  | .expression code => braced code
  | _ => ""

/-- The source of one inline node, code standing for something visible. -/
def inlineSource : Markup → String
  | .text t => t
  | _ => "x"

/-- The line of a run of inline nodes.  White space next to a block is kept unless it holds a line
break. -/
def runLine (blockBefore blockAfter : Bool) (run : List Markup) : List String :=
  if run.isEmpty then []
  else
    let text := String.join (run.map inlineText)
    let source := (String.join (run.map inlineSource)).toList
    let stripped := trim text
    if stripped == "" then
      if blockBefore && blockAfter && !source.contains '\n' then [keptSpace] else []
    else
      let lead := text.startsWith " " && blockBefore &&
        !(source.takeWhile isBlank).contains '\n'
      let tail := text.endsWith " " && blockAfter &&
        !(source.reverse.takeWhile isBlank).contains '\n'
      [(if lead then keptSpace else "") ++ stripped ++ (if tail then keptSpace else "")]

/-- A child with the lines it has when it stands as a block. -/
abbrev Child := Markup × List String

/-- The lines of children: runs of inline nodes share a line, all others are blocks.  `run` is the
run so far, newest first. -/
def childLines : Bool → List Markup → List Child → List String
  | blockBefore, run, [] => runLine blockBefore false run.reverse
  | blockBefore, run, (node, block) :: rest =>
      if node.isInline then childLines blockBefore (node :: run) rest
      else runLine blockBefore true run.reverse ++ block ++ childLines true [] rest

/-- Puts children between two tags: on one line if that fits and all children are inline. -/
def enclose (opening : List String) (closing : String) (children : List String) (inline : Bool) :
    List String :=
  match opening, children with
  | [first], [child] =>
      let single := first ++ child ++ closing
      if single.length ≤ maxLine && inline then [single]
      else opening ++ children.map indentLine ++ [closing]
  | _, _ => opening ++ children.map indentLine ++ [closing]

/-- A condition with the lines of its two branches. -/
def conditionalLines (condition : String) (shown otherwise : List String) : List String :=
  let condition := if condition.toList.contains '\n' then "(" ++ condition ++ ")" else condition
  let long :=
    (condition ++ " ? (") :: shown.map indentLine ++
      (match otherwise with
       | [line] => [") : " ++ line]
       | ls => [") : ("] ++ ls.map indentLine ++ [")"])
  match shown, otherwise with
  | [a], [b] =>
      let single := condition ++ " ? " ++ a ++ " : " ++ b
      if single.length ≤ maxLine then [single] else long
  | _, _ => long

/-- A loop with the lines of its body; an index that the body does not use is left out. -/
def loopLines (iterable item index : String) (body : List String) : List String :=
  let used := body.any fun line =>
    (Pattern.notAfter Pattern.isPath ++ .text index ++ .boundary).occurs line
  let params := if used then "(" ++ item ++ ", " ++ index ++ ")" else "(" ++ item ++ ")"
  let source := if Scope.accessPath.covers iterable then iterable else "(" ++ iterable ++ ")"
  let head := source ++ "?.map(" ++ params ++ " => "
  let long := [head ++ "("] ++ body.map indentLine ++ ["))"]
  match body with
  | [line] => if (head ++ line).length + 1 ≤ maxLine then [head ++ line ++ ")"] else long
  | _ => long

/-- The property that passes a body on. -/
def renderAttr (params : List String) (body : List String) : String :=
  let head := "render=\x7b(" ++ ", ".intercalate params ++ ") => "
  match body with
  | [line] => head ++ line ++ "\x7d"
  | ls => unlines ([head ++ "("] ++ ls.map indent ++ ["))\x7d"])

/-- A node as a block among children. -/
def blockLines (node : Markup) (rendered : List String) : List String :=
  match node with
  | .element .. => rendered
  | .renderProp .. => rendered
  | .fragment .. => rendered
  | .remark comment => ["\x7b/* " ++ comment ++ " */\x7d"]
  | _ => wrap "\x7b" "\x7d" rendered

/-- A node as a branch of a condition. -/
def branchLines (node : Markup) (rendered : List String) : List String :=
  match node with
  | .conditional .. => wrap "(" ")" rendered
  | _ => rendered

mutual

/-- The lines of a node that stands as an expression. -/
def render : Markup → List String
  | .element tag attrs children =>
      let attrs := attrs.map attrText
      match children with
      | [] => openTag tag attrs " />"
      | _ :: _ =>
          enclose (openTag tag attrs ">") ("</" ++ tag ++ ">")
            (childLines false [] (renderChildren children)) (children.all Markup.isInline)
  | .renderProp component attrs params body =>
      openTag component (attrs.map attrText ++ [renderAttr params (render body)]) " />"
  | .fragment children key =>
      let (opening, closing) :=
        match key with
        | some k => ("<Fragment key=" ++ braced k ++ ">", "</Fragment>")
        | none => ("<>", "</>")
      enclose [opening] closing (childLines false [] (renderChildren children))
        (children.all Markup.isInline)
  | .text t => [quoteText (trim (collapse t))]
  | .expression code =>
      match lines code with
      | [] => ["null"]
      | ls => ls
  | .conditional condition shown otherwise =>
      conditionalLines condition (branchLines shown (render shown)) (renderOtherwise otherwise)
  | .loop iterable item index body => loopLines iterable item index (render body)
  | .remark comment => ["null /* " ++ comment ++ " */"]

/-- The children with the lines they have as blocks. -/
def renderChildren : List Markup → List Child
  | [] => []
  | m :: ms => (m, blockLines m (render m)) :: renderChildren ms

/-- The lines of the second branch of a condition. -/
def renderOtherwise : Option Markup → List String
  | none => ["null"]
  | some m => branchLines m (render m)

end

end ReactMigration.Printing
