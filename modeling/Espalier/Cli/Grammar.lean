/-!
# The command line's grammar

The command line is `trellis [OPTIONS] <COMMAND>`. Its options apply at every level, so
they may be written before or after the command's name:

| option                        | value                               | repeated      |
|-------------------------------|-------------------------------------|---------------|
| `-I`, `--search-root`         | a directory searched for modules    | adds a root   |
| `--config`                    | a settings file                     | refused       |
| `--max-expansion-depth`       | an integer or `none`                | refused       |

Every level also knows `-h`/`--help`; the top level knows `-V`/`--version`. The commands
`run`, `expand`, `ast` and `deps` take a required `<FILE>`, `check` an optional `[DIR]`
that defaults to `.`, and `help` the names of the commands to describe.

This module holds the grammar as data together with the texts derived from it: usage
lines and help pages. A help page is the level's description, its usage, then the
sections `Commands:`, `Arguments:` and `Options:` that apply, on a page of 100 columns.
When some option's description would not fit beside the longest option name, every
description of the section goes on its own line, indented by ten blanks.
-/

namespace Espalier.Cli

/-- The program's name. -/
def programName : String := "trellis"

/-- The program's version. -/
def programVersion : String := "0.1.0"

/-- The width of a help page. -/
def pageWidth : Nat := 100

/-- What a named argument does when it is given. -/
inductive Effect where
  /-- It takes one value; `repeatable` arguments collect them, others may occur once;
  `isPath` values may not be empty. -/
  | value (repeatable isPath : Bool)
  /-- It asks for the level's help page. -/
  | help
  /-- It asks for the program's version. -/
  | version
deriving DecidableEq

/-- A named argument: a long name, perhaps a one-letter name, and a description. -/
structure Flag where
  key : String
  short : Option Char
  long : String
  effect : Effect
  /-- The placeholder of its value, for arguments that take one. -/
  valueName : String := ""
  help : String

namespace Flag

/-- Whether the argument takes a value. -/
def takesValue (f : Flag) : Bool :=
  match f.effect with
  | .value .. => true
  | _ => false

/-- How the argument is named in messages: its long name and its value's placeholder. -/
def display (f : Flag) : String :=
  "--" ++ f.long ++ (if f.takesValue then " <" ++ f.valueName ++ ">" else "")

end Flag

/-- A positional argument. -/
structure Positional where
  key : String
  valueName : String
  required : Bool
  /-- Whether it collects any number of values. -/
  many : Bool := false
  default : Option String := none
  help : String := ""

namespace Positional

/-- How the argument is written when it is, or is not, required. -/
def shown (p : Positional) (required : Bool) : String :=
  (if required then "<" ++ p.valueName ++ ">" else "[" ++ p.valueName ++ "]") ++
    (if p.many then "..." else "")

/-- How the argument is named in messages. -/
def display (p : Positional) : String := p.shown p.required

/-- The description of the argument, with its default. -/
def describe (p : Positional) : String :=
  let spec := match p.default with
    | some d => "[default: " ++ d ++ "]"
    | none => ""
  if spec.isEmpty then p.help else if p.help.isEmpty then spec else p.help ++ " " ++ spec

end Positional

/-- A level of the command line: the program itself or one of its commands. -/
structure Level where
  /-- The words that start its usage line, such as `trellis run`. -/
  path : String
  about : String
  flags : List Flag
  positional : Option Positional := none
  /-- The commands below it, with their descriptions. -/
  commands : List (String × String) := []

/-! ## The levels -/

/-- The options every level accepts. -/
def sharedFlags : List Flag :=
  [{ key := "search_roots", short := some 'I', long := "search-root", effect := .value true true,
     valueName := "SEARCH_ROOTS",
     help := "Extra directory to search for modules; searched before configured roots" },
   { key := "config", short := none, long := "config", effect := .value false true,
     valueName := "CONFIG", help := "YAML configuration file" },
   { key := "max_expansion_depth", short := none, long := "max-expansion-depth",
     effect := .value false false, valueName := "MAX_EXPANSION_DEPTH",
     help := "Bound on nested macro applications: an integer, or \x60none\x60" }]

/-- The help flag. -/
def helpFlag : Flag :=
  { key := "help", short := some 'h', long := "help", effect := .help, help := "Print help" }

/-- The version flag. -/
def versionFlag : Flag :=
  { key := "version", short := some 'V', long := "version", effect := .version,
    help := "Print version" }

/-- The commands with their descriptions, in the order they are listed. -/
def commandList : List (String × String) :=
  [("run", "Expand, compile and execute a file"),
   ("expand", "Print the fully macro-expanded source of a file"),
   ("ast", "Print the parsed tree of a file as JSON, before any expansion"),
   ("deps", "List the macro and dialect modules a file depends on"),
   ("check", "Expand every source file below a directory and report failures"),
   ("help", "Print this message or the help of the given subcommand(s)")]

/-- The top level. -/
def topLevel : Level :=
  { path := programName, about := "Macro expansion with dialects and multi-phase compilation.",
    flags := sharedFlags ++ [helpFlag, versionFlag], commands := commandList }

/-- The level of a command, by name. -/
def commandLevel? (name : String) : Option Level :=
  let about := ((commandList.lookup name).getD "")
  let path := programName ++ " " ++ name
  let fileArg : Positional := { key := "file", valueName := "FILE", required := true }
  if name = "run" || name = "expand" || name = "ast" || name = "deps" then
    some { path, about, flags := sharedFlags ++ [helpFlag], positional := some fileArg }
  else if name = "check" then
    some { path, about, flags := sharedFlags ++ [helpFlag],
           positional := some { key := "dir", valueName := "DIR", required := false,
                                default := some "." } }
  else if name = "help" then
    some { path, about, flags := [],
           positional := some { key := "subcommand", valueName := "COMMAND", required := false,
                                many := true, help := "Print help for the subcommand(s)" } }
  else none

namespace Level

/-- The names of the commands below the level. -/
def commandNames (l : Level) : List String := l.commands.map (·.1)

/-- The named argument with a long name. -/
def flagByLong? (l : Level) (long : String) : Option Flag := l.flags.find? (·.long == long)

/-- The named argument with a one-letter name. -/
def flagByShort? (l : Level) (c : Char) : Option Flag := l.flags.find? (·.short == some c)

/-- The named argument with a key. -/
def flagByKey? (l : Level) (key : String) : Option Flag := l.flags.find? (·.key == key)

/-- Whether the usage line shows `[OPTIONS]`: some option other than help and version. -/
def showsOptions (l : Level) : Bool := l.flags.any fun f => f.takesValue

/-! ## Usage lines -/

/-- The usage line of the help page: every option summarised as `[OPTIONS]`, the
positional argument, and the command placeholder. -/
def usage (l : Level) : String :=
  " ".intercalate (l.path ::
    ((if l.showsOptions then ["[OPTIONS]"] else []) ++
     (l.positional.map (·.display)).toList ++
     (if l.commands.isEmpty then [] else ["<COMMAND>"])))

/-- The usage line for messages about a command line in which the arguments `used` (by
key) were given: those options written out, the positional argument as required when it
was given or is required, and the command placeholder. -/
def usageWith (l : Level) (used : List String) : String :=
  let opts := (used.filterMap l.flagByKey?).map (·.display)
  let opts := opts.foldl (fun acc o => if acc.contains o then acc else acc ++ [o]) []
  let pos := l.positional.map fun p => p.shown (p.required || used.contains p.key)
  " ".intercalate (l.path :: opts ++ pos.toList ++
    (if l.commands.isEmpty then [] else ["<COMMAND>"]))

/-- The usage line of a message: the help page's when nothing was given, otherwise the
one that shows what was given. -/
def usageFor (l : Level) (used : List String) : String :=
  if used.isEmpty then l.usage else l.usageWith used

/-! ## Help pages -/

/-- A run of blanks. -/
def blanks (n : Nat) : String := String.ofList (List.replicate n ' ')

/-- The lines of the `Commands:` section. -/
def commandLines (l : Level) : List String :=
  let longest := l.commands.foldl (fun m (n, _) => max m n.length) 2
  l.commands.map fun (n, about) => "  " ++ n ++ blanks (longest + 2 - n.length) ++ about

/-- The lines of the `Arguments:` section. -/
def argumentLines (p : Positional) : List String :=
  let d := p.display
  let longest := max 2 d.length
  ["  " ++ d ++ blanks (longest + 2 - d.length) ++ p.describe]

/-- Whether the descriptions of a section of options go on their own lines: when one of
them does not fit beside the longest name and the names take over two fifths of the
page. -/
def descriptionsBelow (flags : List Flag) : Bool :=
  let longest := flags.foldl (fun m f => max m f.display.length) 2
  let taken := longest + 8
  flags.any fun f =>
    pageWidth ≥ taken && 4 * pageWidth < 10 * taken && f.help.length > pageWidth - taken

/-- The lines of the `Options:` section. -/
def optionLines (flags : List Flag) : List String :=
  let longest := flags.foldl (fun m f => max m f.display.length) 2
  let below := descriptionsBelow flags
  flags.map fun f =>
    let name := "  " ++ (match f.short with
      | some c => "-" ++ String.singleton c ++ ", "
      | none => "    ") ++ f.display
    if below then name ++ "\n" ++ blanks 10 ++ f.help
    else name ++ blanks (longest + 2 - f.display.length) ++ f.help

/-- The help page of a level. -/
def helpPage (l : Level) : String :=
  let sections :=
    (if l.commands.isEmpty then [] else ["Commands:\n" ++ "\n".intercalate l.commandLines]) ++
    (match l.positional with
      | some p => ["Arguments:\n" ++ "\n".intercalate (argumentLines p)]
      | none => []) ++
    (if l.flags.isEmpty then [] else ["Options:\n" ++ "\n".intercalate (optionLines l.flags)])
  let body := l.about ++ "\n\n" ++ "Usage: " ++ l.usage ++ "\n\n" ++ "\n\n".intercalate sections
  String.ofList (body.toList.reverse.dropWhile Char.isWhitespace).reverse ++ "\n"

end Level

end Espalier.Cli
