import LinkedViews.Command.Arguments
import LinkedViews.Command.Map
import LinkedViews.Command.Replay

/-! What a command line comes to: text for the output, a failure, an exit code. -/
namespace LinkedViews

structure Execution where
  output : List String
  failure : Option CommandFailure
  code : UInt32
  deriving DecidableEq, Repr

namespace Execution

def ofResult (output : List String) : Option CommandFailure → Execution
  | none => ⟨output, none, 0⟩
  | some failure => ⟨output, some failure, 1⟩

/-- The file that is used when it is there and no other is named. -/
def defaultConfig : String := "monto.toml"

def loadConfig (files : Files) : Option String → Except ConfigError Config
  | some path => Config.load files path
  | none =>
    match files defaultConfig with
    | .error .missing => .ok {}
    | _ => Config.load files defaultConfig

def policyOf : Display → Policy
  | .present => .all
  | .ignore => .none

def runCommand (files : Files) (config : Config) : Command → Execution
  | .map product offset direction =>
    match MapCommand.run config files product offset direction with
    | .ok line => ofResult [line] none
    | .error failure => ofResult [] (some failure)
  | .replay script frames display =>
    let outcome := Replay.run config files script frames (policyOf display)
    ofResult outcome.lines outcome.failure

def versionLine : String := "monto-cli 0.1.0"

def usageLines : List String :=
  ["Usage: monto-cli [--config FILE] map PRODUCT --offset N [--direction forward|backward]",
    "       monto-cli [--config FILE] replay SCRIPT [--frames FILE] [--show all|none]"]

/-- A usage fault says nothing on the output. -/
def run (files : Files) (args : List String) : Execution :=
  match Arguments.read args with
  | .error .usage => ⟨[], none, 2⟩
  | .error .help => ⟨usageLines, none, 0⟩
  | .error .version => ⟨[versionLine], none, 0⟩
  | .ok ⟨config, command⟩ =>
    match loadConfig files config with
    | .error error => ofResult [] (some (.configuration error))
    | .ok config => runCommand files config command

/-- The files that a command line may ask for. -/
def paths (args : List String) : List String :=
  match Arguments.read args with
  | .error _ => []
  | .ok ⟨config, .map product _ _⟩ => [config.getD defaultConfig, product]
  | .ok ⟨config, .replay script frames _⟩ => [config.getD defaultConfig, script] ++ frames.toList

/-- What is written beside the output. -/
def complaints (e : Execution) : List String :=
  match e.failure with
  | none => if e.code = 0 then [] else usageLines
  | some failure =>
    match failure.chain with
    | [] => []
    | attempt :: causes => ("Error: " ++ attempt) :: causes.map ("    " ++ ·)

end Execution

end LinkedViews
