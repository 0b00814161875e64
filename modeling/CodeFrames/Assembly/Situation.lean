import CodeFrames.Element
import CodeFrames.Text.Quoted

/-!
The stages that the parts of an assembly go through, and the words for them.  A `Situation` says what
an event met, a `Requirement` what it needed; an event that meets anything else is refused with both.
-/

namespace CodeFrames

/-! ## Stages -/

/-- A declaration's body waits for its opening brace, and stays closed until the declaration ends. -/
inductive BlockStage where
  | unopened
  | opened
  | closed
  deriving DecidableEq, Repr

inductive ChainStage where
  /-- A condition is known and its block has not begun. -/
  | beforeBlock
  | inBlock
  /-- A block has ended; another branch or the end of the chain may follow. -/
  | betweenBranches
  | beforeCondition
  | beforeElseBlock
  /-- The else block has ended. -/
  | afterElse
  deriving DecidableEq, Repr

inductive LoopStage where
  | beforeBody
  | inBody
  | afterBody
  deriving DecidableEq, Repr

/-- What the text of an expression is for. -/
inductive ExpressionUse where
  | ifCondition
  | elseIfCondition
  | whileCondition
  | returnValue
  | statement
  | thrown
  | initializer (name : Text)
  | argument
  | discarded
  deriving DecidableEq, Repr

inductive Stack where
  | statement
  | declaration
  | type
  | locals
  | argument
  | expression
  | throwsClause
  deriving DecidableEq, Repr

/-! ## Situations and requirements -/

inductive Situation where
  | root
  | block (isBody : Bool) (stage : BlockStage)
  | chain (stage : ChainStage)
  | chainWithoutBlocks
  | loop (stage : LoopStage)
  | expression (use : ExpressionUse) (depth : Nat)
  | arguments (kind : DelegateTarget) (depth : Nat)
  | constructorHeader
  | methodHeader
  | openVariables (count : Nat)
  | unclaimedTypes (count : Nat)
  | types (count : Nat)
  | bounds (start stop size : Nat)
  | word (text : Text)
  deriving DecidableEq, Repr

inductive Requirement where
  /-- Exactly this situation. -/
  | situation (situation : Situation)
  | noExpression
  | noArguments
  | noDeclaration
  | noVariables
  | noType
  | rootOnly
  | readyForBlock
  | withOpenBlock
  | openCollector
  | anyChain
  | chainAt (stage : ChainStage)
  | chainWithCondition
  | chainWithOpenBlock
  | chainReadyToEnd
  | chainWithFirstBlock
  | openExpression
  | openArguments
  | expressionStatement
  | boundsInside
  | typesFrom (count : Nat)
  | delegateWord
  deriving DecidableEq, Repr

/-! ## Wording -/

def BlockStage.describe : BlockStage → String
  | .unopened => "awaiting open"
  | .opened => "open"
  | .closed => "closed"

def ChainStage.describe : ChainStage → String
  | .beforeBlock => "awaiting block"
  | .inBlock => "collecting a block"
  | .betweenBranches => "awaiting else-if, else or end"
  | .beforeCondition => "awaiting else-if condition"
  | .beforeElseBlock => "awaiting else block"
  | .afterElse => "complete"

def LoopStage.describe : LoopStage → String
  | .beforeBody => "awaiting body"
  | .inBody => "collecting"
  | .afterBody => "closed"

def ExpressionUse.describe : ExpressionUse → String
  | .ifCondition => "IfCondition"
  | .elseIfCondition => "ElseIfCondition"
  | .whileCondition => "WhileCondition"
  | .returnValue => "ReturnValue"
  | .statement => "StatementExpression"
  | .thrown => "Throw"
  | .initializer name => "VariableInit \x7b name: Name(" ++ String.ofList (Text.escaped name) ++ ") \x7d"
  | .argument => "Argument"
  | .discarded => "Discard"

def Stack.describe : Stack → String
  | .statement => "statement"
  | .declaration => "declaration"
  | .type => "type"
  | .locals => "variable declaration"
  | .argument => "argument"
  | .expression => "expression"
  | .throwsClause => "throws"

def delegateLabel : DelegateTarget → String
  | .super => "Delegate(Super)"
  | .this => "Delegate(This)"

def Situation.describe : Situation → String
  | .root => "root handler"
  | .block isBody stage =>
      (if isBody then "body" else "block") ++ " collector (" ++ stage.describe ++ ")"
  | .chain stage => "if-chain builder (" ++ stage.describe ++ ")"
  | .chainWithoutBlocks => "if-chain builder without blocks"
  | .loop stage => "while builder (" ++ stage.describe ++ ")"
  | .expression use depth =>
      "expression consumer for " ++ use.describe ++ " at depth " ++ toString depth
  | .arguments kind depth =>
      "argument consumer for " ++ delegateLabel kind ++ " at depth " ++ toString depth
  | .constructorHeader => "constructor declaration"
  | .methodHeader => "method declaration"
  | .openVariables count => toString count ++ " open"
  | .unclaimedTypes count => toString count ++ " unclaimed"
  | .types count => toString count ++ " types"
  | .bounds start stop size =>
      toString start ++ ".." ++ toString stop ++ " of " ++ toString size ++ " bytes"
  | .word text => "'" ++ String.ofList text ++ "'"

def Requirement.describe : Requirement → String
  | .situation s => s.describe
  | .noExpression => "no open expression"
  | .noArguments => "no open argument list"
  | .noDeclaration => "no open declaration"
  | .noVariables => "no open variable declaration"
  | .noType => "no unclaimed type"
  | .rootOnly => "root handler only"
  | .readyForBlock => "handler ready for a block"
  | .withOpenBlock => "handler with an open block"
  | .openCollector => "open block collector"
  | .anyChain => "if-chain builder"
  | .chainAt stage => "if-chain builder " ++ stage.describe
  | .chainWithCondition => "if-chain builder with a pending condition"
  | .chainWithOpenBlock => "if-chain builder with an open block"
  | .chainReadyToEnd => "if-chain builder ready to end"
  | .chainWithFirstBlock => "if-chain builder with a primary block"
  | .openExpression => "expression consumer with an open expression"
  | .openArguments => "argument consumer with an open list"
  | .expressionStatement => "expression consumer for StatementExpression"
  | .boundsInside => "expression bounds inside the source"
  | .typesFrom count => "at least " ++ toString count ++ " types"
  | .delegateWord => "'super' or 'this'"

end CodeFrames
