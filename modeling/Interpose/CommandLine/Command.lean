import Interpose.CommandLine.Arguments
import Interpose.Path

/-!
The commands of the program.
-/

namespace Interpose.CommandLine

inductive SettingsAction where
  /-- Shows the exclude list that is in effect. -/
  | show
  /-- Goes back to the default exclude list and saves it. -/
  | reset
  deriving DecidableEq, Repr

inductive Command where
  /-- Runs one pass over a project. -/
  | weave (manifest : Path) (dirty : List Path) (release : Bool) (settings : Option Path)
    (weaverUnit : Option String)
  /-- Lists a compiled unit. -/
  | dump (unit : Path)
  | settings (manifest : Path) (settings : Option Path) (action : SettingsAction)
  | version
  deriving Repr

/-- A command, and whether it logs at debug level. -/
structure Invocation where
  verbose : Bool
  command : Command
  deriving Repr

/-! ### What each command takes -/

def switch (long : String) (short : Option Char) : OptionSpec := ⟨long, short, false, false, false⟩

def pathOption (long : String) (short : Option Char) (repeatable : Bool) : OptionSpec :=
  ⟨long, short, true, repeatable, true⟩

/-- The switches of every command. -/
def globalOptions : List OptionSpec := [switch "verbose" (some 'v'), switch helpName (some 'h')]

def programSpec : CommandSpec :=
  ⟨switch versionName (some 'V') :: globalOptions, 0, ["weave", "dump", "settings", "version", helpName]⟩

def weaveSpec : CommandSpec :=
  ⟨[pathOption "dirty" (some 'd') true, switch "release" none, pathOption "settings" none false,
    ⟨"weaver-unit", none, true, false, false⟩] ++ globalOptions, 1, []⟩

def dumpSpec : CommandSpec := ⟨globalOptions, 1, []⟩

def settingsSpec : CommandSpec :=
  ⟨pathOption "settings" none false :: globalOptions, 1, ["show", "reset", helpName]⟩

/-- A command that takes nothing. -/
def plainSpec : CommandSpec := ⟨globalOptions, 0, []⟩

/-! ### Reading a command -/

def missing (what : String) : Stop := .usage ("the required " ++ what ++ " was not provided")

/-- The one operand of a command. -/
def operand (what : String) (a : Arguments) : Except Stop Path :=
  match a.operands with
  | s :: _ => .ok ⟨s⟩
  | [] => .error (missing what)

def lastPath? (a : Arguments) (long : String) : Option Path := (a.values long).getLast?.map Path.mk

/-- The names of the subcommands of a command. -/
def subcommandsOf (name : String) : List String :=
  if name = "settings" then settingsSpec.subcommands else []

/-- Help on the command that a list of names leads to; every name is a subcommand of the command
before it. -/
def helpOn (known : List String) : List String → Stop
  | [] => .help
  | s :: rest =>
    if known.contains s then helpOn (subcommandsOf s) rest
    else .usage ("unrecognized subcommand '" ++ s ++ "'")

def readWeave (verbose : Bool) (args : List String) : Except Stop Invocation := do
  let a ← scan weaveSpec .empty args
  let manifest ← operand "manifest" a
  return ⟨verbose || a.has "verbose", .weave manifest ((a.values "dirty").map Path.mk)
    (a.has "release") (lastPath? a "settings") (a.values "weaver-unit").getLast?⟩

def readDump (verbose : Bool) (args : List String) : Except Stop Invocation := do
  let a ← scan dumpSpec .empty args
  let unit ← operand "unit" a
  return ⟨verbose || a.has "verbose", .dump unit⟩

def readVersion (verbose : Bool) (args : List String) : Except Stop Invocation := do
  let a ← scan plainSpec .empty args
  return ⟨verbose || a.has "verbose", .version⟩

def readSettings (verbose : Bool) (args : List String) : Except Stop Invocation := do
  let a ← scan settingsSpec .empty args
  match a.subcommand with
  | none => .error (missing "subcommand")
  | some (name, rest) =>
    if name = helpName then .error (helpOn settingsSpec.subcommands rest)
    else
      let b ← scan plainSpec .empty rest
      let manifest ← operand "manifest" a
      return ⟨verbose || a.has "verbose" || b.has "verbose", .settings manifest
        (lastPath? a "settings") (if name = "show" then .show else .reset)⟩

/-- The command that a list of arguments asks for. -/
def read (args : List String) : Except Stop Invocation := do
  let a ← scan programSpec .empty args
  match a.subcommand with
  | none => .error (missing "subcommand")
  | some (name, rest) =>
    let verbose := a.has "verbose"
    match name with
    | "weave" => readWeave verbose rest
    | "dump" => readDump verbose rest
    | "settings" => readSettings verbose rest
    | "version" => readVersion verbose rest
    | _ => .error (helpOn programSpec.subcommands rest)

end Interpose.CommandLine
