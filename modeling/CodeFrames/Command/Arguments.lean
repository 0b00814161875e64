import CodeFrames.Settings

/-!
The arguments of the command line.  Options may stand before and behind the command; `--` makes file
names of all arguments after it.  An option with a value can be given once at each of the two places,
and the one behind the command wins.
-/

namespace CodeFrames

namespace Command

inductive Verb where
  | convert
  | check
  deriving DecidableEq, Repr

def Verb.ofText? (t : Text) : Option Verb :=
  if t = "convert".toList then some .convert
  else if t = "check".toList then some .check
  else none

/-- The format of a command that no setting gives a format. -/
def Verb.format : Verb → Format
  | .convert => .json
  | .check => .text

structure Invocation where
  verb : Verb
  files : List Text
  config : Option Text
  choices : Choices
  deriving DecidableEq, Repr

/-- Why arguments make no invocation. -/
inductive Stop where
  | usage
  | help
  | version
  deriving DecidableEq, Repr

/-! ## Forms of arguments -/

inductive Form where
  | plain (text : Text)
  /-- Two dashes and nothing else. -/
  | separator
  | long (name : Text) (value : Option Text)
  | short (letters : Text)
  deriving DecidableEq, Repr

def Form.ofText : Text → Form
  | ['-', '-'] => .separator
  | '-' :: '-' :: t =>
      let name := t.takeWhile (· ≠ '=')
      match t.dropWhile (· ≠ '=') with
      | '=' :: value => .long name (some value)
      | _ => .long name none
  | '-' :: c :: t => .short (c :: t)
  | t => .plain t

/-! ## Options -/

structure Flags where
  output : Option Format
  config : Option Text
  quiet : Bool
  denyWarnings : Bool
  verbose : Nat
  deriving DecidableEq, Repr

def Flags.none : Flags := ⟨.none, .none, false, false, 0⟩

/-- The flags behind the command together with those before it. -/
def Flags.orElse (inner outer : Flags) : Flags where
  output := inner.output.or outer.output
  config := inner.config.or outer.config
  quiet := inner.quiet || outer.quiet
  denyWarnings := inner.denyWarnings || outer.denyWarnings
  verbose := if inner.verbose = 0 then outer.verbose else inner.verbose

/-- The arguments read so far. -/
structure Progress where
  outer : Flags
  verb : Option Verb
  inner : Flags
  commentWidth : Option Nat
  files : List Text
  deriving DecidableEq, Repr

def Progress.start : Progress := ⟨.none, none, .none, none, []⟩

namespace Progress

def flags (p : Progress) : Flags := if p.verb.isSome then p.inner else p.outer

def withFlags (p : Progress) (f : Flags) : Progress :=
  if p.verb.isSome then { p with inner := f } else { p with outer := f }

inductive ValueOption where
  | output
  | config
  | commentWidth
  deriving DecidableEq, Repr

/-- The width belongs to the command that converts. -/
def valueOption? (p : Progress) (name : Text) : Option ValueOption :=
  if name = "output".toList then some .output
  else if name = "config".toList then some .config
  else if name = "comment-width".toList && p.verb = some .convert then some .commentWidth
  else none

def setValue (p : Progress) (value : Text) : ValueOption → Except Stop Progress
  | .output =>
      match p.flags.output, Format.ofText? value with
      | none, some format => .ok (p.withFlags { p.flags with output := some format })
      | _, _ => .error .usage
  | .config =>
      if p.flags.config.isSome || value.isEmpty then .error .usage
      else .ok (p.withFlags { p.flags with config := some value })
  | .commentWidth =>
      match p.commentWidth, Text.natural? value with
      | none, some width => .ok { p with commentWidth := some width }
      | _, _ => .error .usage

def verbose (p : Progress) : Progress :=
  p.withFlags { p.flags with verbose := p.flags.verbose + 1 }

/-- Takes a long option without a value. -/
def setFlag (p : Progress) (name : Text) : Except Stop Progress :=
  if name = "quiet".toList then
    if p.flags.quiet then .error .usage else .ok (p.withFlags { p.flags with quiet := true })
  else if name = "deny-warnings".toList then
    if p.flags.denyWarnings then .error .usage
    else .ok (p.withFlags { p.flags with denyWarnings := true })
  else if name = "verbose".toList then .ok p.verbose
  else if name = "help".toList then .error .help
  else if name = "version".toList && p.verb.isNone then .error .version
  else .error .usage

def setLetters (p : Progress) : Text → Except Stop Progress
  | [] => .ok p
  | c :: t =>
      if c = 'v' then p.verbose.setLetters t
      else if c = 'h' then .error .help
      else if c = 'V' && p.verb.isNone then .error .version
      else .error .usage

def addFile (p : Progress) (file : Text) : Except Stop Progress :=
  if p.verb.isNone || file.isEmpty then .error .usage else .ok { p with files := p.files ++ [file] }

/-- A plain argument is the command, or else the name of a file. -/
def addPlain (p : Progress) (text : Text) : Except Stop Progress :=
  match p.verb with
  | some _ => p.addFile text
  | none =>
      match Verb.ofText? text with
      | some verb => .ok { p with verb := some verb }
      | none => .error .usage

/-- An argument that an option before it can take as its value. -/
def isValue (t : Text) : Bool :=
  match Form.ofText t with
  | .plain _ => true
  | _ => false

def readAll (p : Progress) : List Text → Except Stop Progress
  | [] => .ok p
  | argument :: rest =>
      match Form.ofText argument with
      | .separator => rest.foldlM addFile p
      | .plain text => do (← p.addPlain text).readAll rest
      | .short letters => do (← p.setLetters letters).readAll rest
      | .long name value =>
          match p.valueOption? name, value with
          | some o, some value => do (← p.setValue value o).readAll rest
          | some o, none =>
              match rest with
              | [] => .error .usage
              | value :: rest =>
                  if isValue value then do (← p.setValue value o).readAll rest else .error .usage
          | none, some _ => .error .usage
          | none, none => do (← p.setFlag name).readAll rest

def invocation (p : Progress) : Except Stop Invocation :=
  match p.verb with
  | none => .error .usage
  | some verb =>
      if p.files.isEmpty then .error .usage
      else
        let flags := p.inner.orElse p.outer
        .ok ⟨verb, p.files, flags.config,
          ⟨flags.output, flags.quiet, flags.verbose, flags.denyWarnings, p.commentWidth⟩⟩

end Progress

def parseArguments (arguments : List Text) : Except Stop Invocation := do
  (← Progress.start.readAll arguments).invocation

end Command

end CodeFrames
