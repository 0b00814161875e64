import CodeFrames.Assembly.Declaration
import CodeFrames.Assembly.Extraction
import CodeFrames.Assembly.Handler
import CodeFrames.Comment
import CodeFrames.Event
import CodeFrames.ExpressionText
import CodeFrames.Warning

/-!
The assembly of elements from events.  An assembly keeps one stack for each kind of open construct,
the top first.  `Assembly.step` takes one event, `Assembly.finish` ends the run and asks that every
stack be back where it started.
-/

namespace CodeFrames

structure Options where
  /-- Paragraphs of documentation are wrapped at this many characters. -/
  commentWidth : Option Nat
  deriving DecidableEq, Repr

def Options.default : Options := ⟨none⟩

structure Conversion where
  elements : Block
  warnings : List Warning
  deriving Repr

structure Assembly where
  source : Text
  options : Options
  handlers : List Handler
  expressions : List Extraction
  arguments : List ArgumentCollector
  declarations : List Declaration
  locals : List VariableHeader
  /-- Types that nothing has claimed yet. -/
  types : List Fragment
  /-- How many types there were when each open throws clause began. -/
  throwsStarts : List Nat
  /-- The nearest comment that a declaration could claim. -/
  comment : Option Text
  warnings : List Warning
  deriving Repr

namespace Assembly

def start (source : Text) (options : Options) : Assembly :=
  ⟨source, options, [.root []], [], [], [], [], [], [], none, []⟩

def textOf (a : Assembly) (s : Span) : Text := (Text.slice? a.source s.start s.stop).getD []

def warn (a : Assembly) (line : Nat) (omission : Omission) : Assembly :=
  { a with warnings := a.warnings ++ [⟨line, omission⟩] }

def warnModifiers (a : Assembly) (line : Nat) (owner : ModifierOwner) (modifiers : List Text) :
    Assembly :=
  { a with warnings := a.warnings ++ modifiers.map fun m => ⟨line, .modifier m owner⟩ }

def dropComment (a : Assembly) : Assembly := { a with comment := none }

def await (a : Assembly) (use : ExpressionUse) : Assembly :=
  { a with expressions := .awaiting use :: a.expressions }

def claimType (a : Assembly) : Except ConversionError (Fragment × Assembly) :=
  match a.types with
  | [] => .error (.emptyStack .type)
  | type :: types => .ok (type, { a with types })

/-- Gives a finished element to the handler on top.  Comments before it belong to no declaration. -/
def report (a : Assembly) (e : Element) : Except ConversionError Assembly :=
  match a.handlers with
  | [] => .error (.emptyStack .statement)
  | top :: below =>
      (top.push e).map fun top => { a with handlers := top :: below, comment := none }

/-! ## Expressions and arguments -/

def updateChain (a : Assembly) (f : OpenChain → Except ConversionError OpenChain) :
    Except ConversionError Assembly :=
  match a.handlers with
  | [] => .error (.emptyStack .statement)
  | .chain chain :: below =>
      (f chain).map fun chain => { a with handlers := .chain chain :: below }
  | top :: _ => .error (.mismatch .anyChain top.situation)

def statementElement (text : Text) : Element :=
  match assignmentSides? text with
  | some (target, value) => .assign (.expression target) (.expression value)
  | none => .call (.expression text)

/-- Takes the text of a finished expression to the place it was extracted for. -/
def fulfil (a : Assembly) (use : ExpressionUse) (text : Text) : Except ConversionError Assembly :=
  match use with
  | .ifCondition =>
      .ok { a with handlers := .chain (.start (.expression text)) :: a.handlers }
  | .elseIfCondition => a.updateChain (·.setCondition (.expression text))
  | .whileCondition =>
      .ok { a with handlers := .loop (.start (.expression text)) :: a.handlers }
  | .returnValue => a.report (.returnValue (some (.expression text)))
  | .statement => a.report (statementElement text)
  | .thrown => a.report (.throwValue (.expression text))
  | .initializer name =>
      match a.locals with
      | [] => .error (.emptyStack .locals)
      | header :: _ => a.report (header.element (.name name) (some (.expression text)))
  | .argument =>
      match a.arguments with
      | [] => .error (.emptyStack .argument)
      | list :: below =>
          let list := { list with arguments := list.arguments ++ [Text.trim text] }
          .ok { a with arguments := list :: below }
  | .discarded => .ok a

def openExpression (a : Assembly) (first : Span) : Assembly :=
  match a.expressions with
  | [] => a
  | top :: below => { a with expressions := top.opened first.start :: below }

def closeExpression (a : Assembly) (last : Span) (isEmpty : Bool) :
    Except ConversionError Assembly :=
  match a.expressions with
  | [] => .ok a
  | top :: below => do
      match ← top.closed a.source last.stop isEmpty with
      | (top, none) => return { a with expressions := top :: below }
      | (top, some text) =>
          let a := { a with expressions := below }
          a.fulfil top.use (withSubtypeOperator text)

def openArguments (a : Assembly) : Assembly :=
  match a.arguments with
  | [] => a
  | top :: below => { a with arguments := top.opened :: below }

/-- Only the arguments of the outermost list are extracted. -/
def argument (a : Assembly) : Assembly :=
  match a.arguments with
  | [] => a
  | top :: _ => if top.depth = 1 then a.await .argument else a

def updateDeclaration (a : Assembly) (f : Declaration → Except ConversionError Declaration) :
    Except ConversionError Assembly :=
  match a.declarations with
  | [] => .error (.emptyStack .declaration)
  | top :: below => (f top).map fun top => { a with declarations := top :: below }

def requireConstructor (d : Declaration) : Except ConversionError Unit :=
  if d.isConstructor then .ok ()
  else .error (.mismatch (.situation .constructorHeader) d.situation)

def closeArguments (a : Assembly) : Except ConversionError Assembly :=
  match a.arguments with
  | [] => .ok a
  | top :: below => do
      let top ← top.closed
      if top.depth = 0 then
        let a := { a with arguments := below }
        a.updateDeclaration fun d => do
          requireConstructor d
          return { d with delegate := some (top.kind, top.arguments) }
      else return { a with arguments := top :: below }

/-! ## Blocks and branches -/

def openBlock (a : Assembly) : Except ConversionError Assembly :=
  match a.handlers with
  | [] => .error (.emptyStack .statement)
  | top :: below =>
      let replaceTop (top : Handler) : Assembly := { a with handlers := top :: below }
      let nested : Except ConversionError Assembly :=
        if top.collects then .ok { a with handlers := .block .nested :: a.handlers }
        else .error (.mismatch .readyForBlock top.situation)
      match top with
      | .block b =>
          if b.stage = .unopened then .ok (replaceTop (.block { b with stage := .opened }))
          else nested
      | .chain c => if c.isBeforeBlock then c.openBlock.map (replaceTop ∘ .chain) else nested
      | .loop w =>
          if w.stage = .beforeBody then w.openBody.map (replaceTop ∘ .loop) else nested
      | .root _ => nested

/-- The elements of a nested block go to the handler below it, one by one. -/
def closeBlock (a : Assembly) : Except ConversionError Assembly :=
  match a.handlers with
  | [] => .error (.emptyStack .statement)
  | top :: below =>
      let a := a.dropComment
      let replaceTop (top : Handler) : Assembly := { a with handlers := top :: below }
      match top with
      | .block b =>
          if b.stage = .opened then
            if b.isBody then .ok (replaceTop (.block { b with stage := .closed }))
            else b.statements.foldlM report { a with handlers := below }
          else .error (.mismatch .withOpenBlock b.situation)
      | .chain c => c.closeBlock.map (replaceTop ∘ .chain)
      | .loop w => w.closeBody.map (replaceTop ∘ .loop)
      | .root _ => .error (.mismatch .withOpenBlock .root)

def elseIf (a : Assembly) : Except ConversionError Assembly :=
  (a.updateChain OpenChain.openElseIf).map (·.await .elseIfCondition)

def closeIf (a : Assembly) : Except ConversionError Assembly :=
  match a.handlers with
  | [] => .error (.emptyStack .statement)
  | .chain chain :: below => do
      let a := { a with handlers := below }
      a.report (← chain.finish)
  | top :: _ => .error (.mismatch .anyChain top.situation)

def closeWhile (a : Assembly) : Except ConversionError Assembly :=
  match a.handlers with
  | [] => .error (.emptyStack .statement)
  | .loop loop :: below => do
      let a := { a with handlers := below }
      a.report (← loop.finish)
  | top :: _ => .error (.mismatch (.situation (.loop .afterBody)) top.situation)

/-! ## Simple statements and variables -/

def returned (a : Assembly) (hasValue : Bool) : Except ConversionError Assembly :=
  if hasValue then .ok (a.await .returnValue) else a.report (.returnValue none)

def jumped (a : Assembly) (jump : Jump) (keyword : Span) (label : Option Span) :
    Except ConversionError Assembly :=
  let a :=
    match label with
    | some label => a.warn keyword.line (.label jump (a.textOf label))
    | none => a
  a.report (.jump jump)

def openVariables (a : Assembly) (first : Span) (modifiers : List Span) :
    Except ConversionError Assembly := do
  let (type, a) ← a.claimType
  let words := modifiers.map a.textOf
  let final := "final".toList
  let a := a.warnModifiers first.line .locals (withoutWords [final] words)
  return { a with locals := ⟨words.contains final, type⟩ :: a.locals }

def declarator (a : Assembly) (name : Span) (hasValue : Bool) :
    Except ConversionError Assembly :=
  let name := a.textOf name
  if hasValue then .ok (a.await (.initializer name))
  else
    match a.locals with
    | [] => .error (.emptyStack .locals)
    | header :: _ => a.report (header.element (.name name) none)

def closeVariables (a : Assembly) : Except ConversionError Assembly :=
  match a.locals with
  | [] => .error (.emptyStack .locals)
  | _ :: locals => .ok { a with locals }

/-! ## Declarations -/

def openDeclaration (a : Assembly) (header : Header) (first : Span) (modifiers : List Span) :
    Assembly :=
  let declaration := Declaration.start header (modifiers.map a.textOf) a.comment first.line
  { a with
    declarations := declaration :: a.declarations
    handlers := .block .body :: a.handlers
    comment := none }

def openMethod (a : Assembly) (first : Span) (modifiers : List Span) (name : Span) :
    Except ConversionError Assembly := do
  let (type, a) ← a.claimType
  return a.openDeclaration (.method type (.name (a.textOf name))) first modifiers

def parameter (a : Assembly) (name : Span) (ellipsis : Option Span) :
    Except ConversionError Assembly := do
  let (type, a) ← a.claimType
  let text := a.textOf name
  let a := if ellipsis.isSome then a.warn name.line (.variableArity text type.text) else a
  a.updateDeclaration fun d =>
    .ok { d with parameters := d.parameters ++ [⟨type, .name text⟩] }

def openThrows (a : Assembly) : Except ConversionError Assembly :=
  match a.declarations with
  | [] => .error (.emptyStack .declaration)
  | _ :: _ => .ok { a with throwsStarts := a.types.length :: a.throwsStarts }

/-- The types reported since the clause began are the ones it names. -/
def closeThrows (a : Assembly) : Except ConversionError Assembly :=
  match a.throwsStarts with
  | [] => .error (.emptyStack .throwsClause)
  | mark :: throwsStarts =>
      let count := a.types.length
      if mark > count then .error (.mismatch (.typesFrom mark) (.types count))
      else
        let thrown := (a.types.take (count - mark)).reverse
        let a := { a with throwsStarts, types := a.types.drop (count - mark) }
        a.updateDeclaration fun d => .ok { d with throws := d.throws ++ thrown }

/-- The statement that was announced turns out to be a call of another constructor: its text is not
needed, and its arguments are collected for the declaration. -/
def delegateCall (a : Assembly) (keyword : Span) : Except ConversionError Assembly :=
  let word := a.textOf keyword
  match DelegateTarget.ofText? word with
  | none => .error (.mismatch .delegateWord (.word word))
  | some kind => do
      let a ← a.updateDeclaration fun d => (requireConstructor d).map fun _ => d
      match a.expressions with
      | [] => .error (.emptyStack .expression)
      | top :: below =>
          if top.use = .statement && top.depth = 1 then
            return { a with
              expressions := { top with use := .discarded } :: below
              arguments := .awaiting kind :: a.arguments }
          else .error (.mismatch .expressionStatement top.situation)

def closeDeclaration (a : Assembly) (hasBody : Bool) : Except ConversionError Assembly :=
  let stage : BlockStage := if hasBody then .closed else .unopened
  match a.handlers with
  | [] => .error (.emptyStack .statement)
  | top :: handlers =>
      let refused : Except ConversionError Assembly :=
        .error (.mismatch (.situation (.block true stage)) top.situation)
      match top with
      | .block b =>
          if b.isBody && b.stage = stage then
            match a.declarations with
            | [] => .error (.emptyStack .declaration)
            | d :: declarations => do
                let element ← d.finish (if hasBody then some b.statements else none)
                let owner : ModifierOwner := if d.isConstructor then .constructors else .methods
                let a := { a with handlers, declarations }
                (a.warnModifiers d.line owner (d.leftovers hasBody)).report element
          else refused
      | _ => refused

/-! ## Events -/

def step (a : Assembly) : Event → Except ConversionError Assembly
  | .openExpression first => .ok (a.openExpression first)
  | .closeExpression last isEmpty => a.closeExpression last isEmpty
  | .openArguments _ => .ok a.openArguments
  | .argument _ => .ok a.argument
  | .closeArguments _ => a.closeArguments
  | .openBlock _ => a.openBlock
  | .closeBlock _ => a.closeBlock
  | .openIf _ => .ok (a.await .ifCondition)
  | .elseIf _ => a.elseIf
  | .otherwise _ => a.updateChain OpenChain.openElse
  | .closeIf _ => a.closeIf
  | .openWhile _ => .ok (a.await .whileCondition)
  | .closeWhile _ => a.closeWhile
  | .returned _ hasValue => a.returned hasValue
  | .jumped jump keyword label => a.jumped jump keyword label
  | .thrown _ => .ok (a.await .thrown)
  | .emptyStatement _ => .ok a.dropComment
  | .expressionStatement _ => .ok (a.await .statement)
  | .unsupported place construct => .ok (a.dropComment.warn place.line (.construct construct))
  | .typeName first last =>
      .ok { a with types := .type (a.textOf ⟨first.line, first.start, last.stop⟩) :: a.types }
  | .openVariables first modifiers => a.openVariables first modifiers
  | .declarator name hasValue => a.declarator name hasValue
  | .closeVariables _ => a.closeVariables
  | .openMethod first modifiers name => a.openMethod first modifiers name
  | .openConstructor first modifiers _ => .ok (a.openDeclaration .constructor first modifiers)
  | .parameter name ellipsis => a.parameter name ellipsis
  | .openThrows _ => a.openThrows
  | .closeThrows => a.closeThrows
  | .delegateCall keyword => a.delegateCall keyword
  | .closeDeclaration _ hasBody => a.closeDeclaration hasBody
  | .comment whole =>
      .ok { a with comment := some (plainComment a.options.commentWidth (a.textOf whole)) }

/-- The first open construct, in the order expressions, arguments, declarations, variables, types. -/
def leftOpen? (a : Assembly) : Option ConversionError :=
  match a.expressions, a.arguments, a.declarations, a.locals with
  | x :: _, _, _, _ => some (.mismatch .noExpression x.situation)
  | [], l :: _, _, _ => some (.mismatch .noArguments l.situation)
  | [], [], d :: _, _ => some (.mismatch .noDeclaration d.situation)
  | [], [], [], _ :: _ => some (.mismatch .noVariables (.openVariables a.locals.length))
  | [], [], [], [] =>
      if a.types.isEmpty && a.throwsStarts.isEmpty then none
      else some (.mismatch .noType (.unclaimedTypes a.types.length))

def finish (a : Assembly) : Except ConversionError Conversion :=
  match a.leftOpen?, a.handlers with
  | some error, _ => .error error
  | none, [.root elements] => .ok ⟨elements, a.warnings⟩
  | none, top :: _ => .error (.mismatch .rootOnly top.situation)
  | none, [] => .error (.emptyStack .statement)

end Assembly

end CodeFrames
