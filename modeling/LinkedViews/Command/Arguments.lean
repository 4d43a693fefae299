import LinkedViews.Session.Basic

/-! The command line. Options may stand anywhere, with their value attached or next to them, each at
most once; the configuration file may be named before the command, after it, or both. Whatever does
not fit is a usage fault, and nothing is run then. -/
namespace LinkedViews

inductive Command
  | map (product : String) (offset : UInt64) (direction : Direction)
  | replay (script : String) (frames : Option String) (display : Display)
  deriving DecidableEq, Repr

structure Invocation where
  config : Option String
  command : Command
  deriving DecidableEq, Repr

namespace Arguments

/-- An option by its long name and perhaps a letter. -/
structure OptionName where
  long : String
  short : Option Char
  deriving DecidableEq, Repr

def configOption : OptionName := ⟨"config", some 'c'⟩

def offsetOption : OptionName := ⟨"offset", some 'o'⟩

def directionOption : OptionName := ⟨"direction", some 'd'⟩

def framesOption : OptionName := ⟨"frames", none⟩

def showOption : OptionName := ⟨"show", none⟩

/-- An argument by its form. A lone dash is plain. -/
inductive Form
  | separator
  | long (name : List Char) (value : Option String)
  | short (letter : Char) (rest : List Char)
  | plain (text : String)

def Form.of (arg : String) : Form :=
  match arg.toList with
  | ['-', '-'] => .separator
  | '-' :: '-' :: body =>
    match Text.cut '=' body with
    | some (name, value) => .long name (some (String.ofList value))
    | none => .long body none
  | '-' :: letter :: rest => .short letter rest
  | _ => .plain arg

/-- What follows the letter of an option is its value, perhaps after an equals sign. -/
def attached (rest : List Char) : Option String :=
  match rest with
  | [] => none
  | '=' :: value => some (String.ofList value)
  | value => some (String.ofList value)

/-- Options with their values, and plain arguments in order. -/
structure Given where
  options : List (OptionName × String)
  plain : List String
  deriving DecidableEq, Repr

namespace Given

def empty : Given := ⟨[], []⟩

def get? (g : Given) (name : OptionName) : Option String := g.options.lookup name

/-- An option is given once. -/
def putOption? (g : Given) (name : OptionName) (value : String) : Option Given :=
  if (g.get? name).isSome then none else some { g with options := g.options ++ [(name, value)] }

def putPlain (g : Given) (text : String) : Given := { g with plain := g.plain ++ [text] }

end Given

/-- Why nothing is run: the arguments do not fit, or ask about the program. -/
inductive Halt
  | usage
  | help
  | version
  deriving DecidableEq, Repr

/-- The option that an argument names, with a value that is attached to it. -/
def named? (known : List OptionName) : Form → Option (OptionName × Option String)
  | .long name value =>
    (known.find? fun o => o.long.toList = name).map fun o => (o, value)
  | .short letter rest =>
    (known.find? fun o => o.short = some letter).map fun o => (o, attached rest)
  | _ => none

def asksHelp : Form → Bool
  | .long ['h', 'e', 'l', 'p'] none => true
  | .short 'h' _ => true
  | _ => false

/-- The arguments of a command. After a separator all arguments are plain; an option whose value is
not attached takes the next argument, which must be plain. -/
def collect (known : List OptionName) (g : Given) : List String → Except Halt Given
  | [] => .ok g
  | arg :: args =>
    match Form.of arg with
    | .separator => .ok (args.foldl Given.putPlain g)
    | .plain text => collect known (g.putPlain text) args
    | form =>
      if asksHelp form then .error .help
      else
        match named? known form with
        | none => .error .usage
        | some (name, some value) =>
          match g.putOption? name value with
          | some g => collect known g args
          | none => .error .usage
        | some (name, none) =>
          match args with
          | [] => .error .usage
          | next :: args =>
            match Form.of next with
            | .plain value =>
              match g.putOption? name value with
              | some g => collect known g args
              | none => .error .usage
            | _ => .error .usage

/-- A path has at least one character. -/
def readPath? (text : String) : Option String := if text = "" then none else some text

def readOffset? (text : String) : Option UInt64 := (Decimal.read? text.toList).map Nat.toUInt64

def readDirection? (text : String) : Option Direction :=
  if text = "forward" then some .forward
  else if text = "backward" then some .backward
  else none

def readDisplay? (text : String) : Option Display :=
  if text = "all" then some .present
  else if text = "none" then some .ignore
  else none

/-- An option that may be absent; its value must be readable all the same. -/
def optional? (g : Given) (name : OptionName) (read : String → Option α) : Option (Option α) :=
  match g.get? name with
  | none => some none
  | some text => (read text).map some

def required? (g : Given) (name : OptionName) (read : String → Option α) : Option α :=
  (g.get? name).bind read

def only? (g : Given) : Option String :=
  match g.plain with
  | [text] => readPath? text
  | _ => none

inductive CommandName
  | map
  | replay
  deriving DecidableEq, Repr

def CommandName.ofText? (text : String) : Option CommandName :=
  if text = "map" then some .map
  else if text = "replay" then some .replay
  else none

def CommandName.options : CommandName → List OptionName
  | map => [configOption, offsetOption, directionOption]
  | replay => [configOption, framesOption, showOption]

def CommandName.read? (name : CommandName) (g : Given) : Option Command :=
  match name with
  | map => do
    let product ← only? g
    let offset ← required? g offsetOption readOffset?
    let direction ← optional? g directionOption readDirection?
    return .map product offset (direction.getD .forward)
  | replay => do
    let script ← only? g
    let frames ← optional? g framesOption readPath?
    let display ← optional? g showOption readDisplay?
    return .replay script frames (display.getD .present)

/-- A command with its arguments. A configuration named here goes before one named earlier. -/
def readCommand (earlier : Option String) (name : CommandName) (args : List String) :
    Except Halt Invocation := do
  let g ← collect name.options .empty args
  match name.read? g, optional? g configOption readPath? with
  | some command, some config => return ⟨config.or earlier, command⟩
  | _, _ => .error .usage

/-- The configuration named before the command. -/
def nameConfig (before : Option String) (value : String) : Except Halt String :=
  match before, readPath? value with
  | none, some path => .ok path
  | _, _ => .error .usage

def asksVersion : Form → Bool
  | .long ['v', 'e', 'r', 's', 'i', 'o', 'n'] none => true
  | .short 'V' _ => true
  | _ => false

/-- Before the command only the configuration may be named. -/
def readFrom (config : Option String) : List String → Except Halt Invocation
  | [] => .error .usage
  | arg :: args =>
    match CommandName.ofText? arg with
    | some name => readCommand config name args
    | none =>
      let form := Form.of arg
      if arg = "help" ∨ asksHelp form then .error .help
      else if asksVersion form then .error .version
      else
        match named? [configOption] form with
        | none => .error .usage
        | some (_, some value) => do readFrom (some (← nameConfig config value)) args
        | some (_, none) =>
          match args with
          | [] => .error .usage
          | next :: args =>
            match Form.of next with
            | .plain value => do readFrom (some (← nameConfig config value)) args
            | _ => .error .usage

def read (args : List String) : Except Halt Invocation := readFrom none args

end Arguments

end LinkedViews
