import CodeFrames.Assembly

/-!
# The grammar of events

A source is described by a sentence of events.  The relations below derive the sentences, one
constructor for each production, and read off what a sentence describes: the elements of the frame,
the warnings, and the documentation, which is the comment pending where a declaration begins.  A
derivation fixes the source, since the texts are in it, and asks that the bounds of each expression
whose text is needed cut a text out of it.
-/

namespace CodeFrames

def Span.textIn (source : Text) (s : Span) : Text := (Text.slice? source s.start s.stop).getD []

/-- The text from the start of the first span to the end of the last. -/
def textThrough (source : Text) (first last : Span) : Text :=
  (Text.slice? source first.start last.stop).getD []

/-- The access level that some modifiers name, the first one where they name several. -/
def Access.named (modifiers : List Text) : Access :=
  (Access.all.find? fun level => modifiers.contains level.word).getD .protectedAccess

namespace Sentence

variable (source : Text) (width : Option Nat)

/-! ## Expressions -/

/-- An unsupported construct warns, and a comment before it belongs to no declaration. -/
def kept (warnings : List Warning) (comment : Option Text) : Option Text :=
  if warnings = [] then comment else none

mutual
/-- The events between the two ends of an expression. -/
inductive Inside : List Event → List Warning → Prop
  | nothing : Inside [] []
  | expression {events rest warnings later} (first last : Span) (isEmpty : Bool) :
      Inside events warnings → Inside rest later →
      Inside (.openExpression first :: (events ++ .closeExpression last isEmpty :: rest))
        (warnings ++ later)
  | arguments {events rest warnings later} (opening closing : Span) :
      Arguments events warnings → Inside rest later →
      Inside (.openArguments opening :: (events ++ .closeArguments closing :: rest))
        (warnings ++ later)
  | unsupported {rest later} (place : Span) (construct : String) :
      Inside rest later →
      Inside (.unsupported place construct :: rest) (⟨place.line, .construct construct⟩ :: later)
/-- The events between the parentheses of an argument list. -/
inductive Arguments : List Event → List Warning → Prop
  | nothing : Arguments [] []
  | argument {events rest warnings later} (announced first last : Span) (isEmpty : Bool) :
      Inside events warnings → Arguments rest later →
      Arguments
        (.argument announced :: .openExpression first ::
          (events ++ .closeExpression last isEmpty :: rest))
        (warnings ++ later)
end

/-- A whole expression and its text, type tests shown as frames show them. -/
inductive Expression : List Event → Text → List Warning → Prop
  | bounded {events warnings text} (first last : Span) :
      Inside events warnings → Text.slice? source first.start last.stop = some text →
      Expression (.openExpression first :: (events ++ [.closeExpression last false]))
        (withSubtypeOperator text) warnings
  | empty {events warnings} (first last : Span) :
      Inside events warnings →
      Expression (.openExpression first :: (events ++ [.closeExpression last true]))
        (withSubtypeOperator []) warnings

/-- The arguments of a call of another constructor, each with its text. -/
inductive DelegateArguments : List Event → List Text → List Warning → Prop
  | nothing : DelegateArguments [] [] []
  | argument {events rest text texts warnings later} (announced : Span) :
      Expression source events text warnings → DelegateArguments rest texts later →
      DelegateArguments (.argument announced :: (events ++ rest)) (Text.trim text :: texts)
        (warnings ++ later)

/-! ## Variables and headers -/

inductive Declarator (header : VariableHeader) : List Event → Element → List Warning → Prop
  | bare (name : Span) :
      Declarator header [.declarator name false]
        (.localVariable header.isFinal header.type (.name (name.textIn source)) none) []
  | initialized {events text warnings} (name : Span) :
      Expression source events text warnings →
      Declarator header (.declarator name true :: events)
        (.localVariable header.isFinal header.type (.name (name.textIn source))
          (some (.expression text)))
        warnings

inductive Declarators (header : VariableHeader) : List Event → Block → List Warning → Prop
  | last {events element warnings} :
      Declarator source header events element warnings →
      Declarators header events [element] warnings
  | more {events rest element elements warnings later} :
      Declarator source header events element warnings →
      Declarators header rest elements later →
      Declarators header (events ++ rest) (element :: elements) (warnings ++ later)

/-- The warnings about the modifiers that an element cannot show. -/
def leftoverWarnings (line : Nat) (owner : ModifierOwner) (shown modifiers : List Text) :
    List Warning :=
  (withoutWords shown modifiers).map fun text => ⟨line, .modifier text owner⟩

/-- A parameter of variable arity is declared with the type before the ellipsis. -/
inductive Parameters : List Event → List Parameter → List Warning → Prop
  | nothing : Parameters [] [] []
  | parameter {rest parameters later} (first last name : Span) (ellipsis : Option Span) :
      Parameters rest parameters later →
      Parameters (.typeName first last :: .parameter name ellipsis :: rest)
        (⟨.type (textThrough source first last), .name (name.textIn source)⟩ :: parameters)
        ((if ellipsis.isSome then
          [⟨name.line, .variableArity (name.textIn source) (textThrough source first last)⟩]
        else []) ++ later)

/-- A clause names at least one type. -/
inductive Throws : List Event → List Fragment → Prop
  | nothing : Throws [] []
  | clause (keyword : Span) (types : List (Span × Span)) : types ≠ [] →
      Throws
        (.openThrows keyword :: (types.map (fun t => .typeName t.1 t.2) ++ [.closeThrows]))
        (types.map fun t => .type (textThrough source t.1 t.2))

/-! ## Statements and declarations -/

/-- The comment that is pending after some comments. -/
def afterComments (comments : List Span) (pending : Option Text) : Option Text :=
  comments.foldl (fun _ whole => some (plainComment width (whole.textIn source))) pending

/-- The modifiers that a method shows: its access level and a few more, which differ for a method
with a body and one without. -/
def methodWords (hasBody : Bool) : List Text :=
  Access.all.map Access.word ++
    if hasBody then ["static".toList, "final".toList] else ["abstract".toList]

/-- The element of a method: an abstract method where there is no body. -/
def methodElement (documentation : Option Text) (modifiers : List Text) (returnType name : Text)
    (parameters : List Parameter) (throws : List Fragment) : Option Block → Element
  | some body =>
      .method documentation (Access.named modifiers) (modifiers.contains "static".toList)
        (modifiers.contains "final".toList) (.type returnType) (.name name) parameters throws body
  | none =>
      .abstractMethod documentation (Access.named modifiers) (.type returnType) (.name name)
        parameters throws

mutual
/-- One statement or declaration behind a pending comment. -/
inductive Statement : Option Text → List Event → Block → List Warning → Prop
  | empty {pending} (semicolon : Span) : Statement pending [.emptyStatement semicolon] [] []
  | unsupported {pending} (place : Span) (construct : String) :
      Statement pending [.unsupported place construct] [] [⟨place.line, .construct construct⟩]
  /-- The elements of a nested block are those of the block around it. -/
  | block {pending events elements warnings} (first last : Span) :
      Items pending events elements warnings →
      Statement pending (.openBlock first :: (events ++ [.closeBlock last])) elements warnings
  | ifChain {pending condition text w₁ events block w₂ branches conditions blocks w₃ final
        elseBlock w₄} (keyword first last closing : Span) :
      Expression source condition text w₁ →
      Items (kept w₁ pending) events block w₂ →
      Branches branches conditions blocks w₃ →
      Otherwise final elseBlock w₄ →
      Statement pending
        (.openIf keyword :: (condition ++ .openBlock first ::
          (events ++ .closeBlock last :: (branches ++ (final ++ [.closeIf closing])))))
        [.ifChain (.expression text) block conditions blocks elseBlock] (w₁ ++ (w₂ ++ (w₃ ++ w₄)))
  | whileLoop {pending condition text w₁ events body w₂} (keyword first last closing : Span) :
      Expression source condition text w₁ →
      Items (kept w₁ pending) events body w₂ →
      Statement pending
        (.openWhile keyword :: (condition ++ .openBlock first ::
          (events ++ [.closeBlock last, .closeWhile closing])))
        [.whileLoop (.expression text) body] (w₁ ++ w₂)
  | returned {pending} (keyword : Span) :
      Statement pending [.returned keyword false] [.returnValue none] []
  | returnedValue {pending events text warnings} (keyword : Span) :
      Expression source events text warnings →
      Statement pending (.returned keyword true :: events) [.returnValue (some (.expression text))]
        warnings
  | jumped {pending} (jump : Jump) (keyword : Span) :
      Statement pending [.jumped jump keyword none] [.jump jump] []
  | jumpedTo {pending} (jump : Jump) (keyword label : Span) :
      Statement pending [.jumped jump keyword (some label)] [.jump jump]
        [⟨keyword.line, .label jump (label.textIn source)⟩]
  | thrown {pending events text warnings} (keyword : Span) :
      Expression source events text warnings →
      Statement pending (.thrown keyword :: events) [.throwValue (.expression text)] warnings
  | expression {pending events text warnings} (first : Span) :
      Expression source events text warnings →
      Statement pending (.expressionStatement first :: events) [Assembly.statementElement text]
        warnings
  /-- Every declarator is a variable of its own. -/
  | variables {pending events elements warnings} (typeFirst typeLast first semicolon : Span)
      (modifiers : List Span) :
      Declarators source
        ⟨(modifiers.map (Span.textIn source)).contains "final".toList,
          .type (textThrough source typeFirst typeLast)⟩ events elements warnings →
      Statement pending
        (.typeName typeFirst typeLast :: .openVariables first modifiers ::
          (events ++ [.closeVariables semicolon]))
        elements
        (leftoverWarnings first.line .locals ["final".toList]
          (modifiers.map (Span.textIn source)) ++ warnings)
  | method {pending events parameters w₁ clause throws bodyEvents body w₂}
      (typeFirst typeLast first name last : Span) (modifiers : List Span) :
      Parameters source events parameters w₁ →
      Throws source clause throws →
      Body bodyEvents body w₂ →
      Statement pending
        (.typeName typeFirst typeLast :: .openMethod first modifiers name ::
          (events ++ (clause ++ (bodyEvents ++ [.closeDeclaration last body.isSome]))))
        [methodElement pending (modifiers.map (Span.textIn source))
          (textThrough source typeFirst typeLast) (name.textIn source) parameters throws body]
        (w₁ ++ (w₂ ++ leftoverWarnings first.line .methods (methodWords body.isSome)
          (modifiers.map (Span.textIn source))))
  | constructor {pending events parameters w₁ clause throws bodyEvents delegate body w₂}
      (first name last : Span) (modifiers : List Span) :
      Parameters source events parameters w₁ →
      Throws source clause throws →
      ConstructorBody bodyEvents delegate body w₂ →
      Statement pending
        (.openConstructor first modifiers name ::
          (events ++ (clause ++ (bodyEvents ++ [.closeDeclaration last body.isSome]))))
        [.constructor pending (Access.named (modifiers.map (Span.textIn source))) parameters throws
          delegate (body.getD [])]
        (w₁ ++ (w₂ ++ leftoverWarnings first.line .constructors (Access.all.map Access.word)
          (modifiers.map (Span.textIn source))))
/-- Statements and declarations with comments between them.  A statement or declaration uses up the
comment before it. -/
inductive Items : Option Text → List Event → Block → List Warning → Prop
  | nothing {pending} : Items pending [] [] []
  | comment {pending rest elements warnings} (whole : Span) :
      Items (some (plainComment width (whole.textIn source))) rest elements warnings →
      Items pending (.comment whole :: rest) elements warnings
  | statement {pending events elements warnings rest others later} :
      Statement pending events elements warnings →
      Items none rest others later →
      Items pending (events ++ rest) (elements ++ others) (warnings ++ later)
/-- The further branches of an if chain, each with its condition. -/
inductive Branches : List Event → List Fragment → List Block → List Warning → Prop
  | nothing : Branches [] [] [] []
  | elseIf {condition text w₁ events block w₂ rest conditions blocks w₃}
      (keyword first last : Span) :
      Expression source condition text w₁ →
      Items none events block w₂ →
      Branches rest conditions blocks w₃ →
      Branches
        (.elseIf keyword :: (condition ++ .openBlock first ::
          (events ++ .closeBlock last :: rest)))
        (.expression text :: conditions) (block :: blocks) (w₁ ++ (w₂ ++ w₃))
inductive Otherwise : List Event → Option Block → List Warning → Prop
  | nothing : Otherwise [] none []
  | otherwise {events block warnings} (keyword first last : Span) :
      Items none events block warnings →
      Otherwise (.otherwise keyword :: .openBlock first :: (events ++ [.closeBlock last]))
        (some block) warnings
inductive Body : List Event → Option Block → List Warning → Prop
  | missing : Body [] none []
  | block {events elements warnings} (first last : Span) :
      Items none events elements warnings →
      Body (.openBlock first :: (events ++ [.closeBlock last])) (some elements) warnings
/-- The body of a constructor, which may start with a call of another constructor. -/
inductive ConstructorBody : List Event → Option Delegate → Option Block → List Warning → Prop
  | plain {events body warnings} :
      Body events body warnings → ConstructorBody events none body warnings
  | delegating {arguments texts w₁ events elements w₂} {kind : DelegateTarget}
      (brace start first keyword opening closing last finish : Span) (isEmpty : Bool)
      (comments : List Span) :
      DelegateTarget.ofText? (keyword.textIn source) = some kind →
      DelegateArguments source arguments texts w₁ →
      (isEmpty = true ∨ (Text.slice? source first.start last.stop).isSome = true) →
      Items (kept w₁ (afterComments source width comments none)) events elements w₂ →
      ConstructorBody
        (.openBlock brace :: (comments.map Event.comment ++
          .expressionStatement start :: .openExpression first :: .delegateCall keyword ::
            .openArguments opening :: (arguments ++ .closeArguments closing ::
              .closeExpression last isEmpty :: (events ++ [.closeBlock finish]))))
        (some ⟨kind, .expression (Text.join [','] texts)⟩) (some elements) (w₁ ++ w₂)
end

end Sentence

end CodeFrames
