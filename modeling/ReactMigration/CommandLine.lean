import ReactMigration.Run.Migrate

/-!
The command line: two optional positions, options that may be abbreviated, and the text a run prints.

Arguments are first told apart into options and plain ones.  Plain arguments are taken in groups
between options; both positions are filled from the first group, so a plain argument in a later
group is one too many.
-/

namespace ReactMigration.CommandLine

open ReactMigration.Text

/-- An option of the command line. -/
inductive Opt where
  | help
  | config
  | noTypeScript
  | generateTests
  | preserveStructure
  | reactVersion
  | dryRun
  | reportJson
  | workers
  | verbose
  | quiet
  deriving Repr, DecidableEq, Inhabited

/-- The spellings of options. -/
def spellings : List (String × Opt) :=
  [("-h", .help), ("--help", .help), ("--config", .config), ("--no-typescript", .noTypeScript),
   ("--generate-tests", .generateTests), ("--preserve-structure", .preserveStructure),
   ("--react-version", .reactVersion), ("--dry-run", .dryRun), ("--report-json", .reportJson),
   ("--workers", .workers), ("--verbose", .verbose), ("-v", .verbose), ("--quiet", .quiet),
   ("-q", .quiet)]

/-- Whether an option takes a value. -/
def Opt.takesValue : Opt → Bool
  | .config => true
  | .reactVersion => true
  | .reportJson => true
  | .workers => true
  | _ => false

/-- An argument as it is told apart. -/
inductive Arg where
  /-- A plain argument. -/
  | plain (text : String)
  /-- An option, with a value that is attached to it. -/
  | option (spelling : String) (opt : Opt) (value : Option String)
  /-- Something that looks like an option and is none. -/
  | unknown
  /-- The mark after which every argument is plain. -/
  | mark
  deriving Repr, DecidableEq, Inhabited

/-- A command line that cannot be read. -/
inductive UsageError where
  | usage
  deriving Repr, DecidableEq

/-- The options that an abbreviated spelling may stand for, with attached values. -/
def candidates (arg : String) : List (String × Opt × Option String) :=
  if arg.startsWith "--" then
    let (stem, value) :=
      match breakOn? ['='] arg.toList with
      | some (stem, rest) => (String.ofList stem, some (String.ofList rest))
      | none => (arg, none)
    (spellings.filter fun (s, _) => s.startsWith stem).map fun (s, o) => (s, o, value)
  else
    let short := (arg.take 2).toString
    spellings.filterMap fun (s, o) =>
      if s == short then some (s, o, some (arg.drop 2).toString)
      else if s.startsWith arg then some (s, o, none)
      else none

/-- Whether an argument is a negative number. -/
def isNegativeNumber (arg : String) : Bool :=
  let digits := fun least => Pattern.many isDecimal least true
  let p : Pattern := .first ++ .text "-" ++
    ((digits 1 ++ .last) <|> (digits 0 ++ .text "." ++ digits 1 ++ .last))
  (p.lead? arg).isSome

/-- Tells one argument apart. -/
def readArg (arg : String) : Except UsageError Arg :=
  if !arg.startsWith "-" || arg == "-" then .ok (.plain arg)
  else
    match spellings.find? (·.1 == arg) with
    | some (s, o) => .ok (.option s o none)
    | none =>
        let attached :=
          match breakOn? ['='] arg.toList with
          | some (stem, value) =>
              (spellings.find? (·.1 == String.ofList stem)).map fun (s, o) =>
                Arg.option s o (some (String.ofList value))
          | none => none
        match attached, candidates arg with
        | some a, _ => .ok a
        | none, [(s, o, value)] => .ok (.option s o value)
        | none, _ :: _ :: _ => .error .usage
        | none, [] =>
            if isNegativeNumber arg || arg.toList.contains ' ' then .ok (.plain arg) else .ok .unknown

/-- Tells all arguments apart. -/
def readArgs : List String → Except UsageError (List Arg)
  | [] => .ok []
  | "--" :: rest => .ok (.mark :: rest.map .plain)
  | arg :: rest => do
      let first ← readArg arg
      return first :: (← readArgs rest)

/-- What a command line asks for. -/
structure Request where
  source : Option String := none
  output : Option String := none
  config : Option String := none
  noTypeScript : Bool := false
  generateTests : Bool := false
  preserveStructure : Bool := false
  reactVersion : Option String := none
  dryRun : Bool := false
  reportJson : Option String := none
  workers : Option Int := none
  verbose : Bool := false
  quiet : Bool := false
  help : Bool := false
  /-- Whether the positions have been filled. -/
  placed : Bool := false
  deriving Repr, Inhabited

/-- An integer with an optional sign; single underscores may separate digits. -/
def integer? (s : String) : Option Int :=
  let (negative, digits) :=
    match (trim s).toList with
    | '-' :: rest => (true, rest)
    | '+' :: rest => (false, rest)
    | rest => (false, rest)
  let groups := splitChar '_' digits
  if groups.all fun g => !g.isEmpty && g.all isDecimal then
    let n : Int := decimalNumber groups.flatten
    some (if negative then -n else n)
  else none

/-- Applies an option; verbose and quiet exclude each other. -/
def Request.apply (r : Request) (o : Opt) (value : String) : Except UsageError Request :=
  match o with
  | .help => .ok { r with help := true }
  | .config => .ok { r with config := some value }
  | .noTypeScript => .ok { r with noTypeScript := true }
  | .generateTests => .ok { r with generateTests := true }
  | .preserveStructure => .ok { r with preserveStructure := true }
  | .reactVersion => .ok { r with reactVersion := some value }
  | .dryRun => .ok { r with dryRun := true }
  | .reportJson => .ok { r with reportJson := some value }
  | .workers =>
      match integer? value with
      | some n => .ok { r with workers := some n }
      | none => .error .usage
  | .verbose => if r.quiet then .error .usage else .ok { r with verbose := true }
  | .quiet => if r.verbose then .error .usage else .ok { r with quiet := true }

/-- Applies the flags that are joined to a short flag, as in `-vq`. -/
def Request.applyJoined (r : Request) : List Char → Except UsageError Request
  | [] => .ok r
  | c :: cs =>
      match spellings.find? (·.1 == String.ofList ['-', c]) with
      | some (_, o) => do
          let r ← r.apply o ""
          if r.help then return r else r.applyJoined cs
      | none => .error .usage

/-- Fills the positions from a group of plain arguments, and gives how many are left over. -/
def Request.place (r : Request) (group : List String) : Request × Nat :=
  if r.placed then (r, group.length)
  else
    ({ r with source := group.head?, output := (group.drop 1).head?, placed := true },
      group.length - 2)

/-- Reads told-apart arguments, `extra` telling whether something was too many, within a number of
steps. -/
def readRequest : Nat → Request → Bool → List Arg → Except UsageError (Request × Bool)
  | 0, r, extra, _ => .ok (r, extra)
  | fuel + 1, r, extra, args =>
      match args with
      | [] => .ok (r, extra)
      | .unknown :: rest => readRequest fuel r true rest
      | .option spelling o value :: rest =>
          if r.help then .ok (r, extra)
          else
            match o.takesValue, value, rest with
            | true, some v, _ => do readRequest fuel (← r.apply o v) extra rest
            | true, none, .plain v :: rest => do readRequest fuel (← r.apply o v) extra rest
            | true, none, _ => .error .usage
            | false, none, _ => do readRequest fuel (← r.apply o "") extra rest
            | false, some v, _ =>
                if spelling.startsWith "--" || v == "" then .error .usage
                else do readRequest fuel (← (← r.apply o "").applyJoined v.toList) extra rest
      | _ =>
          if r.help then .ok (r, extra)
          else
            let isPlain := fun
              | Arg.plain _ => true
              | .mark => true
              | _ => false
            let group := (args.takeWhile isPlain).filterMap fun
              | .plain t => some t
              | _ => none
            let (r, left) := r.place group
            readRequest fuel r (extra || 0 < left) (args.dropWhile isPlain)

/-- Reads a command line. -/
def Request.ofArgs (argv : List String) : Except UsageError Request := do
  let args ← readArgs argv
  let (r, extra) ← readRequest (args.length + 1) {} false args
  if extra && !r.help then throw .usage
  return r

/-- The options that the command line sets. -/
def Request.overrides (r : Request) : Table Json :=
  let text (v : Option String) : Json := (v.map .str).getD .null
  let flag (b value : Bool) : Json := if b then .bool value else .null
  [("source_dir", text r.source), ("output_dir", text r.output),
   ("use_typescript", flag r.noTypeScript false), ("generate_tests", flag r.generateTests true),
   ("preserve_structure", flag r.preserveStructure true), ("react_version", text r.reactVersion),
   ("dry_run", flag r.dryRun true), ("max_workers", (r.workers.map .int).getD .null)]

/-- How a command ended. -/
structure Outcome where
  exit : Nat
  stdout : String := ""
  stderr : String := ""
  deriving Repr, DecidableEq, Inhabited

/-- How the program is called. -/
def usage : String :=
  unlines ["usage: react-migration [source] [output] [--config FILE] [--no-typescript]",
    "  [--generate-tests] [--preserve-structure] [--react-version VERSION] [--dry-run]",
    "  [--report-json FILE] [--workers N] [--verbose | --quiet]", ""]

/-- The outcome of a command that was not carried out. -/
def refused (reason : String) : Outcome :=
  { exit := 2, stderr := unlines [reason, ""] }

/-- The configuration that a request asks for. -/
def Request.configuration {m : Type → Type} [Monad m] (fs : FileSystem m) (r : Request) :
    m (Except ConfigError Config) := do
  let base ←
    if present r.config then
      let path := r.config.getD ""
      pure (Config.ofFile path (← readText fs path))
    else pure (.ok {})
  return base.bind fun c => c.merged r.overrides

/-- The text that a finished run prints. -/
def summary (dryRun : Bool) (result : RunResult) : String :=
  let head := if dryRun then "Files that would be written:" else "Successfully transpiled to:"
  unlines ([head] ++ result.written.map ("  " ++ ·) ++ [result.report.text, ""])

/-- Runs a command line.  It ends with two if the arguments or the configuration are wrong, with one
if errors were reported, and with zero otherwise. -/
def execute {m : Type → Type} [Monad m] (fs : FileSystem m) (argv : List String)
    (order : NameOrder := .written) : m (Except Fault Outcome) := do
  match Request.ofArgs argv with
  | .error _ => return .ok { exit := 2, stderr := usage }
  | .ok r =>
      if r.help then return .ok { exit := 0, stdout := usage }
      match ← r.configuration fs with
      | .error e => return .ok (refused e.message)
      | .ok c =>
          match ← run fs c order with
          | .error (.fault f) => return .error f
          | .error e => return .ok (refused e.message)
          | .ok result =>
              if present r.reportJson then
                let _ ← fs.write (r.reportJson.getD "") result.report.jsonText
              return .ok { exit := if result.report.hasErrors then 1 else 0
                           stdout := summary c.dryRun.isSet result }

end ReactMigration.CommandLine
