import ScalableCongestion.Decimal.Typed

/-! The arguments of the command line: options, then a command with one operand,
or a request for the manual. -/
namespace ScalableCongestion

inductive Command where
  | encode (ceBytes : UInt32)
  | decode (hex : String)
  | replay (path : String)
deriving DecidableEq, Repr

structure Invocation where
  logLevel : Option String
  settingsPath : Option String
  command : Command
deriving DecidableEq, Repr

/-- What is printed in place of a run: the version, or the manual of the program
or of one command. -/
inductive Manual where
  | version
  | program
  | command (name : String)
deriving DecidableEq, Repr

inductive Request where
  | run (i : Invocation)
  | manual (m : Manual)
deriving DecidableEq, Repr

namespace Invocation

inductive OptionName where
  | logLevel
  | settings
deriving DecidableEq, Repr

def isDashed (arg : String) : Bool := '-' == arg.front && arg != "-"

/-- An argument that starts an option: its name, and a value in the same
argument, behind an equals sign or right behind a short name. -/
def optionStart? (arg : String) : Option (OptionName × Option String) :=
  match arg.toList with
  | '-' :: '-' :: rest =>
    let value := match rest.dropWhile (· != '=') with
      | _ :: value => some (String.ofList value)
      | [] => none
    match String.ofList (rest.takeWhile (· != '=')) with
    | "log-level" => some (.logLevel, value)
    | "config" => some (.settings, value)
    | _ => none
  | '-' :: letter :: rest =>
    let value := match rest with
      | [] => none
      | '=' :: value => some (String.ofList value)
      | value => some (String.ofList value)
    match letter with
    | 'l' => some (.logLevel, value)
    | 'c' => some (.settings, value)
    | _ => none
  | _ => none

def setOption? (logLevel settings : Option String) (name : OptionName) (value : String) :
    Option (Option String × Option String) :=
  match name with
  | .logLevel => if logLevel.isSome then none else some (some value, settings)
  | .settings => if settings.isSome || value.isEmpty then none else some (logLevel, some value)

/-- The single operand of a command. Behind a double dash it may start with a
dash. -/
def operand? : List String → Option String
  | ["--", value] => some value
  | [value] => if isDashed value then none else some value
  | [value, "--"] => if isDashed value then none else some value
  | _ => none

def count? (text : String) : Option UInt32 :=
  (Decimal.typedInteger? text.toList).bind fun n =>
    if 0 ≤ n ∧ n < UInt32.size then some (UInt32.ofNat n.toNat) else none

def command? (name : String) (args : List String) : Option Command := do
  let value ← operand? args
  match name with
  | "encode" => (count? value).map .encode
  | "decode" => some (.decode value)
  | "replay" => if value.isEmpty then none else some (.replay value)
  | _ => none

def commandNames : List String := ["encode", "decode", "replay"]

/-! The first letter of a short option decides, and the long ones have no value. -/

def isHelp (arg : String) : Bool := arg == "--help" || ['-', 'h'].isPrefixOf arg.toList

def isVersion (arg : String) : Bool := arg == "--version" || ['-', 'V'].isPrefixOf arg.toList

/-- Help with a command is asked for in front of its operand, or behind one that fits. -/
def asksHelp (name : String) : List String → Bool
  | [] => false
  | arg :: args => isHelp arg || ((command? name [arg]).isSome && args.head?.any isHelp)

def topic? : List String → Option Manual
  | [] => some .program
  | [name] => if name ∈ "help" :: commandNames then some (.command name) else none
  | _ => none

def request? (logLevel settings : Option String) (name : String) (args : List String) :
    Option Request :=
  if name = "help" then (topic? args).map .manual
  else if name ∈ commandNames ∧ asksHelp name args then some (.manual (.command name))
  else (command? name args).map fun command => .run ⟨logLevel, settings, command⟩

def parseFrom? (logLevel settings : Option String) : List String → Option Request
  | [] => none
  | arg :: args =>
    if isHelp arg then some (.manual .program)
    else if isVersion arg then some (.manual .version)
    else if isDashed arg then
      match optionStart? arg, args with
      | some (name, some value), rest => do
        let (logLevel, settings) ← setOption? logLevel settings name value
        parseFrom? logLevel settings rest
      | some (name, none), value :: rest =>
        if isDashed value then none
        else do
          let (logLevel, settings) ← setOption? logLevel settings name value
          parseFrom? logLevel settings rest
      | _, _ => none
    else request? logLevel settings arg args

def parse? (args : List String) : Option Request := parseFrom? none none args

end Invocation

end ScalableCongestion
