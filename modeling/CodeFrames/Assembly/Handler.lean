import CodeFrames.ConversionError

/-!
The statement handlers of an assembly.  Each open construct has a handler that collects the elements
found inside it: the root, blocks and declaration bodies, if chains, and while loops.
-/

namespace CodeFrames

/-! ## Blocks -/

structure OpenBlock where
  /-- The body of a declaration, as opposed to a block among statements. -/
  isBody : Bool
  stage : BlockStage
  statements : Block
  deriving Repr

namespace OpenBlock

def nested : OpenBlock := ⟨false, .opened, []⟩

def body : OpenBlock := ⟨true, .unopened, []⟩

def situation (b : OpenBlock) : Situation := .block b.isBody b.stage

def push (b : OpenBlock) (e : Element) : Except ConversionError OpenBlock :=
  if b.stage = .opened then .ok { b with statements := b.statements ++ [e] }
  else .error (.mismatch .openCollector b.situation)

end OpenBlock

/-! ## If chains -/

/--
One chain of `if`, `else if` and `else`.  A condition stays pending until its block begins, so there
are as many blocks as conditions until an else block begins, and one more from then on.
-/
structure OpenChain where
  conditions : List Fragment
  blocks : List Block
  pending : Option Fragment
  stage : ChainStage
  deriving Repr

namespace OpenChain

def start (condition : Fragment) : OpenChain := ⟨[], [], some condition, .beforeBlock⟩

def situation (c : OpenChain) : Situation := .chain c.stage

def refuse {α : Type} (c : OpenChain) (expected : Requirement) : Except ConversionError α :=
  .error (.mismatch expected c.situation)

def isBeforeBlock (c : OpenChain) : Bool := c.stage = .beforeBlock || c.stage = .beforeElseBlock

def unmatchedBlocks (c : OpenChain) : Nat := c.blocks.length - c.conditions.length

def openBlock (c : OpenChain) : Except ConversionError OpenChain :=
  match c.stage, c.pending with
  | .beforeBlock, some condition =>
      .ok ⟨c.conditions ++ [condition], c.blocks ++ [[]], none, .inBlock⟩
  | .beforeBlock, none => c.refuse .chainWithCondition
  | .beforeElseBlock, _ => .ok { c with blocks := c.blocks ++ [[]], stage := .inBlock }
  | _, _ => c.refuse (.chainAt .beforeBlock)

/-- Adds an element to the last of some blocks. -/
def pushLast? (e : Element) : List Block → Option (List Block)
  | [] => none
  | [block] => some [block ++ [e]]
  | block :: blocks => (pushLast? e blocks).map (block :: ·)

def push (c : OpenChain) (e : Element) : Except ConversionError OpenChain :=
  if c.stage = .inBlock then
    match pushLast? e c.blocks with
    | some blocks => .ok { c with blocks }
    | none => c.refuse .chainWithOpenBlock
  else c.refuse (.chainAt .inBlock)

def closeBlock (c : OpenChain) : Except ConversionError OpenChain :=
  if c.stage = .inBlock then
    .ok { c with stage := if c.unmatchedBlocks = 1 then .afterElse else .betweenBranches }
  else c.refuse (.chainAt .inBlock)

def openElseIf (c : OpenChain) : Except ConversionError OpenChain :=
  if c.stage = .betweenBranches then .ok { c with stage := .beforeCondition }
  else c.refuse (.chainAt .betweenBranches)

def setCondition (c : OpenChain) (condition : Fragment) : Except ConversionError OpenChain :=
  if c.stage = .beforeCondition then
    .ok { c with pending := some condition, stage := .beforeBlock }
  else c.refuse (.chainAt .beforeCondition)

def openElse (c : OpenChain) : Except ConversionError OpenChain :=
  if c.stage = .betweenBranches then .ok { c with stage := .beforeElseBlock }
  else c.refuse (.chainAt .betweenBranches)

/-- The first block belongs to the first condition, each further condition has the next block, and a
block beyond those is the else block. -/
def finish (c : OpenChain) : Except ConversionError Element :=
  if c.stage = .betweenBranches || c.stage = .afterElse then
    match c.conditions, c.blocks with
    | condition :: conditions, block :: blocks =>
        .ok (.ifChain condition block conditions (blocks.take conditions.length)
          (blocks.drop conditions.length).head?)
    | _, _ => .error (.mismatch .chainWithFirstBlock .chainWithoutBlocks)
  else c.refuse .chainReadyToEnd

end OpenChain

/-! ## While loops -/

structure OpenLoop where
  condition : Fragment
  body : Block
  stage : LoopStage
  deriving Repr

namespace OpenLoop

def start (condition : Fragment) : OpenLoop := ⟨condition, [], .beforeBody⟩

def situation (w : OpenLoop) : Situation := .loop w.stage

def require (w : OpenLoop) (stage : LoopStage) : Except ConversionError Unit :=
  if w.stage = stage then .ok () else .error (.mismatch (.situation (.loop stage)) w.situation)

def openBody (w : OpenLoop) : Except ConversionError OpenLoop := do
  w.require .beforeBody
  return { w with stage := .inBody }

def closeBody (w : OpenLoop) : Except ConversionError OpenLoop := do
  w.require .inBody
  return { w with stage := .afterBody }

def push (w : OpenLoop) (e : Element) : Except ConversionError OpenLoop := do
  w.require .inBody
  return { w with body := w.body ++ [e] }

def finish (w : OpenLoop) : Except ConversionError Element := do
  w.require .afterBody
  return .whileLoop w.condition w.body

end OpenLoop

/-! ## Handlers -/

inductive Handler where
  | root (elements : Block)
  | block (block : OpenBlock)
  | chain (chain : OpenChain)
  | loop (loop : OpenLoop)
  deriving Repr

namespace Handler

def situation : Handler → Situation
  | .root _ => .root
  | .block b => b.situation
  | .chain c => c.situation
  | .loop w => w.situation

/-- The handler takes elements in its present stage. -/
def collects : Handler → Bool
  | .root _ => true
  | .block b => b.stage = .opened
  | .chain c => c.stage = .inBlock
  | .loop w => w.stage = .inBody

def push (e : Element) : Handler → Except ConversionError Handler
  | .root elements => .ok (.root (elements ++ [e]))
  | .block b => (b.push e).map .block
  | .chain c => (c.push e).map .chain
  | .loop w => (w.push e).map .loop

end Handler

end CodeFrames
