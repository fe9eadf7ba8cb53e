import BranchPrediction.Document
import BranchPrediction.Evaluation

/-!
# The command line

Evaluates both predictors on a synthetic workload.  Options set the number of branches, the length
of wrong paths and the seed, and name documents with configurations.
-/

namespace BranchPrediction.CommandLine

/-- What the command line asks for; configurations are given by the path of a document. -/
structure Arguments where
  options : Evaluation.Options := {}
  tageSclPath? : Option String := none
  ittagePath? : Option String := none

/-- Split an option from a value that is joined to it, as in `--name=value` and `-nvalue`. -/
def separate (argument : String) : List String :=
  match argument.toList with
  | '-' :: '-' :: option =>
    match option.span (· ≠ '=') with
    | (name, '=' :: value) => ["--" ++ String.ofList name, String.ofList value]
    | _ => [argument]
  | '-' :: letter :: '=' :: value => [String.ofList ['-', letter], String.ofList value]
  | '-' :: letter :: first :: rest => [String.ofList ['-', letter], String.ofList (first :: rest)]
  | _ => [argument]

/-- The number that digits write, after an optional plus sign, if a word holds it. -/
def number? (text : String) : Option Nat :=
  let digits := match text.toList with
    | '+' :: rest => rest
    | cs => cs
  if digits.isEmpty || !digits.all Char.isDigit then none
  else
    let n := Json.digitsValue digits
    if n < UInt64.size then some n else none

/-- Read options, each with its value. -/
def readOptions : List String → Arguments → Except String Arguments
  | [], a => .ok a
  | name :: value :: rest, a =>
    let number (f : Nat → Evaluation.Options) : Except String Arguments :=
      match number? value with
      | some n => .ok { a with options := f n }
      | none => .error s!"invalid value '{value}' for '{name}'"
    let read : Except String Arguments :=
      match name with
      | "--branches" | "-b" => number fun n => { a.options with branches := n }
      | "--detour" | "-d" => number fun n => { a.options with detour := n }
      | "--seed" | "-s" => number fun n => { a.options with seed := UInt64.ofNat n }
      | "--tagescl" => .ok { a with tageSclPath? := some value }
      | "--ittage" => .ok { a with ittagePath? := some value }
      | _ => .error s!"unexpected argument '{name}'"
    match read with
    | .ok a => readOptions rest a
    | .error message => .error message
  | [name], _ => .error s!"a value is required for '{name}'"

def parse (arguments : List String) : Except String Arguments :=
  readOptions (arguments.flatMap separate) {}

/-- Read a configuration from the document at a path, if one is given. -/
def load {α : Type} (format : Json.Format α) (default : α) :
    Option String → IO (Except ConfigError α)
  | none => return .ok default
  | some path => return format.parse (← IO.FS.readFile path)

/-- A duration in seconds with three decimal places. -/
def seconds (milliseconds : Nat) : String :=
  fixedPoint 3 milliseconds 1000 ++ "s"

/-- Read both configurations.  A document that cannot be opened fails after the line on the
workload. -/
def loadAll (a : Arguments) : IO Evaluation.Options := do
  try
    let tageScl ← load TageScl.Config.format {} a.tageSclPath?
    let ittage ← load Ittage.Config.format {} a.ittagePath?
    return { a.options with tageScl, ittage }
  catch failure =>
    IO.println (Evaluation.workloadLine a.options.branches)
    throw failure

def run (a : Arguments) : IO UInt32 := do
  let options ← loadAll a
  let start ← IO.monoMsNow
  let report := Evaluation.report options
  report.before.forM IO.println
  match report.results with
  | .ok lines =>
    IO.println s!"[*] Completed in {seconds ((← IO.monoMsNow) - start)}"
    lines.forM IO.println
    return 0
  | .error cause =>
    IO.eprintln s!"Error: {Evaluation.failureMessage cause}"
    return 1

end BranchPrediction.CommandLine

def main (arguments : List String) : IO UInt32 := do
  match BranchPrediction.CommandLine.parse arguments with
  | .ok a =>
    try BranchPrediction.CommandLine.run a
    catch failure =>
      IO.eprintln s!"Error: {failure}"
      return 1
  | .error message =>
    IO.eprintln s!"error: {message}"
    return 2
