/-!
Arguments of a command: switches, options with a value, and operands.

A command lists its options, how many operands it takes and its subcommands. Arguments are taken
from left to right. A lone double dash makes operands of all that follow. A long option may have its
value behind an equals sign, a short one right behind its letter; otherwise the next argument is the
value, unless it looks like an option. The first name of a subcommand ends the arguments of a
command.
-/

namespace Interpose.CommandLine

structure OptionSpec where
  long : String
  short : Option Char
  takesValue : Bool
  repeatable : Bool
  /-- An empty value is refused. -/
  needsText : Bool
  deriving DecidableEq, Repr

/-- A command as far as its arguments go; operands are refused when empty. -/
structure CommandSpec where
  options : List OptionSpec
  operands : Nat
  subcommands : List String
  deriving Repr

/-- Why no arguments come out: they make no sense, or ask for something else. -/
inductive Stop where
  | usage (message : String)
  | help
  | version
  deriving DecidableEq, Repr

/-- The arguments of one command, its options with their values, and those of its subcommand. -/
structure Arguments where
  given : List (String × String)
  operands : List String
  subcommand : Option (String × List String)
  deriving Repr

namespace Arguments

def empty : Arguments := ⟨[], [], none⟩

def has (a : Arguments) (long : String) : Bool := a.given.any (·.1 == long)

def values (a : Arguments) (long : String) : List String :=
  (a.given.filter (·.1 == long)).map (·.2)

end Arguments

def helpName : String := "help"
def versionName : String := "version"

/-- Adds an option; help and version end the reading of arguments. -/
def addOption (o : OptionSpec) (value : String) (a : Arguments) : Except Stop Arguments :=
  if o.long = helpName then .error .help
  else if o.long = versionName then .error .version
  else if !o.repeatable && a.has o.long then
    .error (.usage ("the argument '--" ++ o.long ++ "' cannot be used multiple times"))
  else if o.needsText && value.isEmpty then
    .error (.usage ("a value is required for '--" ++ o.long ++ "' but none was supplied"))
  else .ok { a with given := a.given ++ [(o.long, value)] }

def addOperand (spec : CommandSpec) (s : String) (a : Arguments) : Except Stop Arguments :=
  if spec.operands ≤ a.operands.length then
    .error (.usage ("unexpected argument '" ++ s ++ "' found"))
  else if s.isEmpty then .error (.usage "a value is required but none was supplied")
  else .ok { a with operands := a.operands ++ [s] }

def looksLikeOption : List Char → Bool
  | '-' :: _ :: _ => true
  | _ => false

/-- What comes of an argument with options: arguments, or an option that waits for its value. -/
inductive Scanned where
  | done (a : Arguments)
  | waiting (o : OptionSpec) (a : Arguments)

def scanShort (spec : CommandSpec) (a : Arguments) : List Char → Except Stop Scanned
  | [] => .ok (.done a)
  | c :: rest =>
    match spec.options.find? (·.short == some c) with
    | none => .error (.usage ("unexpected argument '-" ++ String.singleton c ++ "' found"))
    | some o =>
      if o.takesValue then
        match rest with
        | [] => .ok (.waiting o a)
        | '=' :: value => (addOption o (String.ofList value) a).map .done
        | value => (addOption o (String.ofList value) a).map .done
      else
        match addOption o "" a with
        | .error e => .error e
        | .ok a => scanShort spec a rest

def scanLong (spec : CommandSpec) (a : Arguments) (cs : List Char) : Except Stop Scanned :=
  let name := String.ofList (cs.takeWhile (· ≠ '='))
  match spec.options.find? (·.long == name), cs.dropWhile (· ≠ '=') with
  | none, _ => .error (.usage ("unexpected argument '--" ++ name ++ "' found"))
  | some o, _ :: value =>
    if o.takesValue then (addOption o (String.ofList value) a).map .done
    else .error (.usage ("unexpected value for '--" ++ name ++ "' found"))
  | some o, [] =>
    if o.takesValue then .ok (.waiting o a) else (addOption o "" a).map .done

def scanOperands (spec : CommandSpec) (a : Arguments) : List String → Except Stop Arguments
  | [] => .ok a
  | s :: rest =>
    match addOperand spec s a with
    | .error e => .error e
    | .ok a => scanOperands spec a rest

def scan (spec : CommandSpec) (a : Arguments) : List String → Except Stop Arguments
  | [] => .ok a
  | s :: rest =>
    let cs := s.toList
    if cs = ['-', '-'] then scanOperands spec a rest
    else if looksLikeOption cs then
      let scanned := match cs with
        | '-' :: '-' :: name => scanLong spec a name
        | _ => scanShort spec a (cs.drop 1)
      match scanned, rest with
      | .error e, _ => .error e
      | .ok (.done a), rest => scan spec a rest
      | .ok (.waiting o a), value :: rest =>
        if looksLikeOption value.toList then
          .error (.usage ("a value is required for '--" ++ o.long ++ "' but none was supplied"))
        else
          match addOption o value a with
          | .error e => .error e
          | .ok a => scan spec a rest
      | .ok (.waiting o _), [] =>
        .error (.usage ("a value is required for '--" ++ o.long ++ "' but none was supplied"))
    else if spec.subcommands.contains s then .ok { a with subcommand := some (s, rest) }
    else
      match addOperand spec s a with
      | .error e => .error e
      | .ok a => scan spec a rest

end Interpose.CommandLine
