import Espalier.Cli.Grammar
import Espalier.Text.Similarity

/-!
# Reading the command line

The words of the command line are read left to right, one level at a time. A word is:

* `--` : every later word is a value;
* `--name` or `--name=value` : a named argument, whose value may be the next word;
* `-xyz` : one-letter names, the first that takes a value taking the rest of the word
  (less a leading `=`) or else the next word;
* the value an option waits for, even when it names a command;
* at the top level, the name of a command: it ends the level, and the rest belongs to the
  command; `help` instead names the commands whose help page is asked for;
* anything else: the positional argument.

Values are checked when the next argument starts, or at the end: an option given no
value, an empty path, or an option other than `-I` given twice is refused then. Help and
version requests stop the reading where they stand. After the words, a missing command
or a missing required argument is refused; a top level with no words at all shows its
help page.

Options given both before and after a command's name take the values given after it.
Every refusal carries the exact text the program prints for it.
-/

namespace Espalier.Cli

/-- A command with its argument. -/
inductive Command where
  | run (file : String)
  | expand (file : String)
  | ast (file : String)
  | deps (file : String)
  | check (dir : String)
deriving DecidableEq, Repr

/-- An accepted command line. -/
structure CommandLine where
  searchRoots : List String := []
  config : Option String := none
  maxExpansionDepth : Option String := none
  command : Command
deriving Repr

/-- Why a command line does not run a command. -/
inductive RefusalKind where
  | displayHelp
  | displayVersion
  | displayHelpOnMissingArgumentOrSubcommand
  | missingRequiredArgument
  | missingSubcommand
  | invalidSubcommand
  | unknownArgument
  | invalidValue
  | argumentConflict
  | tooManyValues
deriving DecidableEq, Repr

/-- The name of a kind of refusal. -/
def RefusalKind.name : RefusalKind → String
  | .displayHelp => "DisplayHelp"
  | .displayVersion => "DisplayVersion"
  | .displayHelpOnMissingArgumentOrSubcommand => "DisplayHelpOnMissingArgumentOrSubcommand"
  | .missingRequiredArgument => "MissingRequiredArgument"
  | .missingSubcommand => "MissingSubcommand"
  | .invalidSubcommand => "InvalidSubcommand"
  | .unknownArgument => "UnknownArgument"
  | .invalidValue => "InvalidValue"
  | .argumentConflict => "ArgumentConflict"
  | .tooManyValues => "TooManyValues"

/-- A refusal with the text shown for it. -/
structure Refusal where
  kind : RefusalKind
  message : String
deriving Repr

/-! ## Messages -/

/-- The text of an error: the description, the tips, the usage line and the pointer to
`--help`. -/
def errorText (what : String) (tips : List String) (usage : Option String) : String :=
  "error: " ++ what ++
    (if tips.isEmpty then "" else "\n" ++ String.join (tips.map ("\n  tip: " ++ ·))) ++
    (match usage with
      | some u => "\n\nUsage: " ++ u
      | none => "") ++
    "\n\nFor more information, try '--help'.\n"

/-- A refusal with an error text. -/
def refuse (kind : RefusalKind) (what : String) (tips : List String) (usage : Option String) :
    Refusal :=
  ⟨kind, errorText what tips usage⟩

/-- The tip that names similar words. -/
def similarTip (what : String) (words : List String) : String :=
  let quoted := ", ".intercalate (words.map fun w => "'" ++ w ++ "'")
  match words with
  | [_] => "a similar " ++ what ++ " exists: " ++ quoted
  | _ => "some similar " ++ what ++ "s exist: " ++ quoted

/-- The tip for a word that looks like an argument but was meant as a value. -/
def valueTip (word : String) : String :=
  "to pass '" ++ word ++ "' as a value, use '-- " ++ word ++ "'"

/-- The refusal of an argument given no value, or an empty path. -/
def emptyValue (display : String) : Refusal :=
  refuse .invalidValue ("a value is required for '" ++ display ++ "' but none was supplied") [] none

/-! ## One level -/

/-- Values collected for an argument and not yet checked. -/
structure Pending where
  key : String
  values : List String

/-- What a level has read so far. -/
structure Reading where
  /-- The values of the arguments given, by key, in the order they were first given. -/
  given : List (String × List String) := []
  pending : Option Pending := none
  /-- Whether a named argument waits for its value in the next word. -/
  awaiting : Bool := false
  /-- Whether the positional argument has its value. -/
  positionalTaken : Bool := false
  /-- Whether `--` was read. -/
  escaped : Bool := false

namespace Reading

/-- The keys of the arguments given. -/
def keys (r : Reading) : List String := r.given.map (·.1)

/-- The values given for a key. -/
def valuesOf? (r : Reading) (key : String) : Option (List String) := r.given.lookup key

/-- Adds values to a key, keeping the order in which keys were first given. -/
def store (r : Reading) (key : String) (vs : List String) : Reading :=
  if r.keys.contains key then
    { r with given := r.given.map fun (k, old) => if k = key then (k, old ++ vs) else (k, old) }
  else { r with given := r.given ++ [(key, vs)] }

end Reading

/-- Checks values for an argument and records them. -/
def accept (l : Level) (r : Reading) (p : Pending) : Except Refusal Reading :=
  match l.flagByKey? p.key with
  | some f =>
    match f.effect with
    | .value repeatable isPath =>
        if p.values.isEmpty then .error (emptyValue f.display)
        else if !repeatable && r.keys.contains p.key then
          .error (refuse .argumentConflict
            ("the argument '" ++ f.display ++ "' cannot be used multiple times") [] (some l.usage))
        else if isPath && p.values.any (·.isEmpty) then .error (emptyValue f.display)
        else .ok (r.store p.key p.values)
    | _ => .ok (r.store p.key p.values)
  | none =>
    match l.positional with
    | some pos =>
        if p.values.any (·.isEmpty) then .error (emptyValue pos.display)
        else .ok (r.store p.key p.values)
    | none => .ok r

/-- Checks the pending values, if any. -/
def settle (l : Level) (r : Reading) : Except Refusal Reading :=
  match r.pending with
  | none => .ok { r with awaiting := false }
  | some p => accept l { r with pending := none, awaiting := false } p

/-- Checks the pending values before a refusal: what fails is dropped. -/
def settleQuietly (l : Level) (r : Reading) : Reading :=
  match settle l r with
  | .ok r' => r'
  | .error _ => { r with pending := none, awaiting := false }

/-- The help page of the commands named after `help`. -/
def helpFor (words : List String) : Refusal :=
  let rec go : Level → List String → Refusal
    | l, [] => ⟨.displayHelp, l.helpPage⟩
    | l, w :: ws =>
        match (if l.commandNames.contains w then commandLevel? w else none) with
        | some sub => go sub ws
        | none => refuse .invalidSubcommand ("unrecognized subcommand '" ++ w ++ "'") [] (some l.usage)
  go topLevel words

/-- The refusal of a word that fits nowhere. -/
def strayWord (l : Level) (r : Reading) (w : String) : Refusal :=
  let looksNamed := w.startsWith "-" && w.length > 1
  let valueTips := if !r.escaped && l.positional.isSome && looksNamed then [valueTip w] else []
  if r.escaped && l.commandNames.contains w then
    refuse .unknownArgument ("unexpected argument '" ++ w ++ "' found")
      ["subcommand '" ++ w ++ "' exists; to use it, remove the '--' before it"] (some l.usage)
  else if !l.commands.isEmpty then
    match Text.similarWords w l.commandNames with
    | [] => refuse .invalidSubcommand ("unrecognized subcommand '" ++ w ++ "'") [] (some l.usage)
    | similar =>
        refuse .invalidSubcommand ("unrecognized subcommand '" ++ w ++ "'")
          (similarTip "subcommand" similar :: valueTips) (some l.usage)
  else refuse .unknownArgument ("unexpected argument '" ++ w ++ "' found") valueTips (some l.usage)

/-- Reacts to a named argument without a value: a help or version request, or an option
that waits for its value. -/
def startFlag (l : Level) (r : Reading) (f : Flag) : Except Refusal Reading := do
  let r ← settle l r
  match f.effect with
  | .help => .error ⟨.displayHelp, l.helpPage⟩
  | .version => .error ⟨.displayVersion, programName ++ " " ++ programVersion ++ "\n"⟩
  | .value .. => pure { r with pending := some ⟨f.key, []⟩, awaiting := true }

/-- Reacts to an option written with its value. -/
def flagWithValue (l : Level) (r : Reading) (f : Flag) (v : String) : Except Refusal Reading := do
  let r ← settle l r
  accept l r ⟨f.key, [v]⟩

/-- Reads a word of the form `--name` or `--name=value`. -/
def readLong (l : Level) (r : Reading) (body : String) : Except Refusal Reading :=
  let (name, value) := match body.splitOn "=" with
    | n :: v :: more => (n, some ("=".intercalate (v :: more)))
    | _ => (body, none)
  match l.flagByLong? name, value with
  | some f, some v =>
      if f.takesValue then flagWithValue l r f v
      else
        let r := settleQuietly l r
        let used := r.keys.filter (fun k => !(l.positional.any fun p => p.required && p.key == k))
        .error (refuse .tooManyValues
          ("unexpected value '" ++ v ++ "' for '" ++ f.display ++ "' found; no more were expected") []
          (some (l.usageFor (used ++ [f.key]))))
  | some f, none => startFlag l r f
  | none, _ =>
      let r := settleQuietly l r
      match Text.closestWord? name (l.flags.map (·.long)) with
      | some similar =>
          let used := r.keys ++ ((l.flagByLong? similar).map (·.key)).toList
          .error (refuse .unknownArgument ("unexpected argument '--" ++ name ++ "' found")
            [similarTip "argument" ["--" ++ similar]] (some (l.usageFor used)))
      | none =>
          let tips := if l.positional.isSome then [valueTip ("--" ++ name)] else []
          .error (refuse .unknownArgument ("unexpected argument '--" ++ name ++ "' found") tips
            (some (l.usageFor r.keys)))

/-- Reads a word of one-letter names. -/
def readShorts (l : Level) (r : Reading) : List Char → Except Refusal Reading
  | [] => .ok r
  | c :: rest =>
    match l.flagByShort? c with
    | some f =>
        if !f.takesValue then do
          let r ← startFlag l r f
          readShorts l r rest
        else match rest with
          | [] => startFlag l r f
          | '=' :: v => flagWithValue l r f (String.ofList v)
          | v => flagWithValue l r f (String.ofList v)
    | none =>
        let tips := if l.positional.isSome then [valueTip ("-" ++ String.singleton c)] else []
        .error (refuse .unknownArgument ("unexpected argument '-" ++ String.singleton c ++ "' found")
          tips (some l.usage))

/-- The outcome of reading a level's words: what it read, and the command that ends it
with the words that follow. -/
abbrev LevelResult := Except Refusal (Reading × Option (String × List String))

/-- Reads the words of a level. -/
def readLevel (l : Level) : List String → Reading → LevelResult
  | [], r => .ok (r, none)
  | w :: ws, r =>
    if !r.escaped && w = "--" then readLevel l ws { r with escaped := true }
    else if !r.escaped && w.startsWith "--" then
      match readLong l r (w.drop 2).toString with
      | .ok r => readLevel l ws r
      | .error e => .error e
    else if !r.escaped && w.startsWith "-" && w.length > 1 then
      match readShorts l r (w.toList.drop 1) with
      | .ok r => readLevel l ws r
      | .error e => .error e
    else if !r.escaped && r.awaiting then
      let p := (r.pending.map fun p => { p with values := p.values ++ [w] })
      readLevel l ws { r with pending := p, awaiting := false }
    else if !r.escaped && l.commandNames.contains w then
      if w = "help" then .error (helpFor ws) else .ok (r, some (w, ws))
    else
      match l.positional with
      | some pos =>
          if r.positionalTaken && !pos.many then .error (strayWord l (settleQuietly l r) w)
          else match settle l r with
            | .ok r => readLevel l ws { r with pending := some ⟨pos.key, [w]⟩, positionalTaken := true }
            | .error e => .error e
      | none => .error (strayWord l (settleQuietly l r) w)

/-- Finishes a command's level: checks what is pending and that the required argument
was given. -/
def finishCommand (l : Level) (r : Reading) : Except Refusal Reading := do
  let r ← settle l r
  if let some pos := l.positional then
    if pos.required && !r.keys.contains pos.key then
      throw (refuse .missingRequiredArgument
        ("the following required arguments were not provided:\n  " ++ pos.display) []
        (some (l.usageFor (r.keys ++ [pos.key]))))
  pure r

/-- The value of a shared option: the command's, else the top level's. -/
def sharedValues (top sub : Reading) (key : String) : List String :=
  (sub.valuesOf? key).getD ((top.valuesOf? key).getD [])

/-- Reads a whole command line, the program's name left out. -/
def parseCommandLine (words : List String) : Except Refusal CommandLine := do
  let (top, next) ← readLevel topLevel words {}
  match next with
  | none =>
      let top ← settle topLevel top
      if top.given.isEmpty then throw ⟨.displayHelpOnMissingArgumentOrSubcommand, topLevel.helpPage⟩
      throw (refuse .missingSubcommand
        ("'" ++ programName ++ "' requires a subcommand but one was not provided\n  [subcommands: " ++
          ", ".intercalate topLevel.commandNames ++ "]") [] (some topLevel.usage))
  | some (name, rest) =>
      let some l := commandLevel? name
        | throw (refuse .invalidSubcommand ("unrecognized subcommand '" ++ name ++ "'") [] (some topLevel.usage))
      let (sub, _) ← readLevel l rest {}
      let sub ← finishCommand l sub
      let top ← settle topLevel top
      let arg := match l.positional with
        | some pos => ((sub.valuesOf? pos.key).bind (·.head?)).getD (pos.default.getD "")
        | none => ""
      let command ← match name with
        | "run" => pure (Command.run arg)
        | "expand" => pure (.expand arg)
        | "ast" => pure (.ast arg)
        | "deps" => pure (.deps arg)
        | _ => pure (.check arg)
      pure { searchRoots := sharedValues top sub "search_roots"
             config := (sharedValues top sub "config").head?
             maxExpansionDepth := (sharedValues top sub "max_expansion_depth").head?
             command }

end Espalier.Cli
