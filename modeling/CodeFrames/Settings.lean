import CodeFrames.Assembly
import CodeFrames.Settings.Config

/-!
The settings of a run.  What the command line says wins over the configuration, and the configuration
over the built-in values.
-/

namespace CodeFrames

inductive LogLevel where
  | error
  | warn
  | info
  | debug
  | trace
  deriving DecidableEq, Repr

namespace LogLevel

def all : List LogLevel := [.error, .warn, .info, .debug, .trace]

def name : LogLevel → String
  | .error => "ERROR"
  | .warn => "WARN"
  | .info => "INFO"
  | .debug => "DEBUG"
  | .trace => "TRACE"

/-- A level is given by its number, starting from one, or by its name in any letter case. -/
def ofText? (t : Text) : Option LogLevel :=
  match (Text.natural? t).bind fun n => if n = 0 then none else all[n - 1]? with
  | some level => some level
  | none => all.find? fun level => level.name.toList = t.map Char.toUpper

end LogLevel

/-- What the command line says about settings. -/
structure Choices where
  output : Option Format
  quiet : Bool
  verbose : Nat
  denyWarnings : Bool
  commentWidth : Option Nat
  deriving DecidableEq, Repr

structure Settings where
  format : Format
  pretty : Bool
  quiet : Bool
  denyWarnings : Bool
  level : LogLevel
  options : Options
  deriving DecidableEq, Repr

namespace Settings

/-- The name of a log level that does not exist. -/
structure UnknownLevel where
  name : Text
  deriving DecidableEq, Repr

def UnknownLevel.message (e : UnknownLevel) : String :=
  "invalid log_level '" ++ String.ofList e.name ++ "' in config"

/-- The configured level counts only where the command line says nothing about the log. -/
def resolveLevel (config : Config) (choices : Choices) : Except UnknownLevel LogLevel :=
  if choices.quiet then .ok .error
  else
    match choices.verbose, config.logLevel with
    | 0, none => .ok .warn
    | 0, some name =>
        match LogLevel.ofText? name with
        | some level => .ok level
        | none => .error ⟨name⟩
    | 1, _ => .ok .debug
    | _, _ => .ok .trace

def resolve (config : Config) (choices : Choices) (format : Format) :
    Except UnknownLevel Settings := do
  return {
    format := (choices.output.or config.format).getD format
    pretty := config.pretty.getD true
    quiet := choices.quiet
    denyWarnings := choices.denyWarnings || config.denyWarnings.getD false
    level := ← resolveLevel config choices
    options := ⟨choices.commentWidth.or config.commentWidth⟩ }

end Settings

end CodeFrames
