import CodeFrames.Settings.ConfigText

/-!
Configuration files.  A file has at most one table for conversion and one for output, each key at most
once, and no key outside them.
-/

namespace CodeFrames

inductive Format where
  | text
  | json
  deriving DecidableEq, Repr

def Format.ofText? (t : Text) : Option Format :=
  if t = "text".toList then some .text
  else if t = "json".toList then some .json
  else none

structure Config where
  commentWidth : Option Nat
  format : Option Format
  pretty : Option Bool
  denyWarnings : Option Bool
  logLevel : Option Text
  deriving DecidableEq, Repr

def Config.empty : Config := ⟨none, none, none, none, none⟩

inductive ConfigFault where
  | brokenLine
  | repeatedTable
  | unknownTable
  | repeatedKey
  | unknownKey
  | wrongValue
  deriving DecidableEq, Repr

def ConfigFault.message : ConfigFault → String
  | .brokenLine => "neither a table nor a key with a value"
  | .repeatedTable => "the table is there already"
  | .unknownTable => "no such table"
  | .repeatedKey => "the key is there already"
  | .unknownKey => "no such key"
  | .wrongValue => "the value does not fit the key"

/-- Why a configuration text is refused. -/
structure ConfigError where
  line : Nat
  fault : ConfigFault
  deriving DecidableEq, Repr

def ConfigError.message (e : ConfigError) : String :=
  "line " ++ toString e.line ++ ": " ++ e.fault.message

namespace Config

open ConfigText

/-! ## Keys -/

inductive Table where
  | convert
  | output
  deriving DecidableEq, Repr

def Table.ofText? (t : Text) : Option Table :=
  if t = "convert".toList then some .convert
  else if t = "output".toList then some .output
  else none

inductive Key where
  | commentWidth
  | format
  | pretty
  | denyWarnings
  | logLevel
  deriving DecidableEq, Repr

def Table.keys : Table → List (Text × Key)
  | .convert => [("comment_width".toList, .commentWidth)]
  | .output =>
      [("format".toList, .format), ("pretty".toList, .pretty),
        ("deny_warnings".toList, .denyWarnings), ("log_level".toList, .logLevel)]

/-- The configuration with a key set; `none` where the value is not of the key's type. -/
def set? (c : Config) : Key → Value → Option Config
  | .commentWidth, .integer n => if 0 ≤ n then some { c with commentWidth := some n.toNat } else none
  | .format, .text t => (Format.ofText? t).map fun f => { c with format := some f }
  | .pretty, .bool b => some { c with pretty := some b }
  | .denyWarnings, .bool b => some { c with denyWarnings := some b }
  | .logLevel, .text t => some { c with logLevel := some t }
  | _, _ => none

/-! ## Whole files -/

/-- What has been read so far: the tables and keys that are taken, and the table that is open. -/
structure Progress where
  config : Config
  tables : List Table
  keys : List Key
  deriving DecidableEq, Repr

def Progress.start : Progress := ⟨.empty, [], []⟩

def Progress.openTable (p : Progress) (name : Text) : Except ConfigFault Progress :=
  match Table.ofText? name with
  | none => .error .unknownTable
  | some table =>
      if p.tables.contains table then .error .repeatedTable
      else .ok { p with tables := table :: p.tables }

def Progress.enter (p : Progress) (key : Text) (value : Value) : Except ConfigFault Progress :=
  match p.tables.head?.bind fun table => table.keys.lookup key with
  | none => .error .unknownKey
  | some key =>
      if p.keys.contains key then .error .repeatedKey
      else
        match p.config.set? key value with
        | none => .error .wrongValue
        | some config => .ok { p with config, keys := key :: p.keys }

def Progress.read (p : Progress) (line : Text) : Except ConfigFault Progress :=
  match line? line with
  | none => .error .brokenLine
  | some .empty => .ok p
  | some (.table name) => p.openTable name
  | some (.entry key value) => p.enter key value

def readLines (p : Progress) (number : Nat) : List Text → Except ConfigError Progress
  | [] => .ok p
  | line :: lines =>
      match p.read line with
      | .error fault => .error ⟨number, fault⟩
      | .ok p => readLines p (number + 1) lines

def parse (t : Text) : Except ConfigError Config :=
  (readLines .start 1 (Text.lines (withoutMark t))).map (·.config)

end Config

end CodeFrames
