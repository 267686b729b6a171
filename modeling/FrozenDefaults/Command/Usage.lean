import FrozenDefaults.Command.Arguments

/-!
# Usage

The help texts of the command line.
-/

namespace FrozenDefaults.Command

def programName : String := "defaults-gen"

def padTo (width : Nat) (s : String) : String := s.pushn ' ' (width - s.length)

def columns (rows : List (String × String)) : List String :=
  let width := (rows.map (·.1.length)).foldl max 0
  rows.map fun (left, right) => s!"  {padTo width left}  {right}"

namespace Choice

def longUsage (c : Choice) : String :=
  match c.valueName? with
  | some value => "--" ++ c.name ++ s!" <{value}>"
  | none => "--" ++ c.name

def usage (c : Choice) : String :=
  match c.letter? with
  | some l => s!"-{l}, " ++ c.longUsage
  | none => "    " ++ c.longUsage

def about : Choice → String
  | help => "Print help"
  | _ => ""

end Choice

def usageLines : Option Verb → List String
  | none =>
    ["Default value table generator for schema accessors", "",
      s!"Usage: {programName} <COMMAND>", "", "Commands:"] ++
    columns (Verb.all.map (fun v => (v.name, "")) ++
      [("help", "Print this message or the help of the given subcommand(s)")]) ++
    ["", "Options:"] ++ columns [(Choice.help.usage, Choice.help.about)]
  | some v =>
    [s!"Usage: {programName} {v.name} [OPTIONS] " ++ Choice.file.longUsage, "", "Options:"] ++
    columns (v.choices.map fun c => (c.usage, c.about))

def usage (v : Option Verb) : String := String.join ((usageLines v).map (· ++ "\n"))

/-- What is said about a command line that is not understood. -/
def misuseText : String :=
  s!"error: the arguments are not understood\n\nUsage: {programName} <COMMAND>\n\n" ++
    "For more information, try '--help'.\n"

end FrozenDefaults.Command
