import CodeFrames.Conversion
import CodeFrames.Proofs.Sentence
import CodeFrames.Proofs.Resemblance

/-!
# Two assemblies side by side

Two assemblies that resemble each other still do so after events that resemble each other.  Nothing
in the assembly asks for the text of an expression, a type or a comment, so texts that are merely
alike go the same way through it.
-/

namespace CodeFrames

/-! ## Outcomes -/

/-- Both computations give related results, or both fail for the same conflict of access levels.
Nothing is said of a computation that leaves the protocol. -/
inductive Agree {α β : Type} (R : α → β → Prop) :
    Except ConversionError α → Except ConversionError β → Prop
  | ok {a b} : R a b → Agree R (.ok a) (.ok b)
  | conflict (levels : List Access) :
      Agree R (.error (.accessConflict levels)) (.error (.accessConflict levels))
  | left {e} (y) : (∀ levels, e ≠ .accessConflict levels) → Agree R (.error e) y
  | right {e} (x) : (∀ levels, e ≠ .accessConflict levels) → Agree R x (.error e)

namespace Agree

variable {α β γ δ : Type} {R : α → β → Prop} {S : γ → δ → Prop}
  {x : Except ConversionError α} {y : Except ConversionError β}

theorem mismatch (y : Except ConversionError β) (expected : Requirement) (actual : Situation) :
    Agree R (.error (.mismatch expected actual)) y :=
  .left y fun _ => by simp

theorem mismatch_right (x : Except ConversionError α) (expected : Requirement)
    (actual : Situation) : Agree R x (.error (.mismatch expected actual)) :=
  .right x fun _ => by simp

theorem emptyStack (y : Except ConversionError β) (stack : Stack) :
    Agree R (.error (.emptyStack stack)) y :=
  .left y fun _ => by simp

theorem bind (h : Agree R x y) {f : α → Except ConversionError γ} {g : β → Except ConversionError δ}
    (hfg : ∀ a b, R a b → Agree S (f a) (g b)) : Agree S (x >>= f) (y >>= g) := by
  cases h with
  | ok h => exact hfg _ _ h
  | conflict levels => exact .conflict levels
  | left y h => exact .left _ h
  | right x h => exact .right _ h

theorem map (h : Agree R x y) {f : α → γ} {g : β → δ} (hfg : ∀ a b, R a b → S (f a) (g b)) :
    Agree S (x.map f) (y.map g) := by
  cases h with
  | ok h => exact .ok (hfg _ _ h)
  | conflict levels => exact .conflict levels
  | left y h => exact .left _ h
  | right x h => exact .right _ h

end Agree

/-! ## What is compared -/

/-- Two sources with their wrapping widths, what counts as alike in their frames, and which places
and which extracted texts belong together. -/
structure Comparison extends Likeness where
  source : Text
  source' : Text
  width : Option Nat
  width' : Option Nat
  /-- Where corresponding expressions start. -/
  start : Nat → Nat → Prop
  /-- Where corresponding expressions end. -/
  stop : Nat → Nat → Prop
  extract : Text → Text → Prop

/-- The elements that two statements with these expressions become resemble each other. -/
def Comparison.Sides (C : Comparison) (s t : Text) : Prop :=
  Option.Rel (fun x y => C.text x.1 y.1 ∧ C.text x.2 y.2) (assignmentSides? s) (assignmentSides? t)

/-- Corresponding expressions have texts that may take each other's place in a frame. -/
structure Comparison.Sound (C : Comparison) : Prop where
  none : C.documentation none none
  slices {start start' stop stop' : Nat} {s t : Text} :
    C.start start start' → C.stop stop stop' →
    Text.slice? C.source start stop = some s → Text.slice? C.source' start' stop' = some t →
    C.extract (withSubtypeOperator s) (withSubtypeOperator t)
  empty : C.extract (withSubtypeOperator []) (withSubtypeOperator [])
  text {s t : Text} : C.extract s t → C.text s t
  sides {s t : Text} : C.extract s t → C.Sides s t
  joined {ss ts : List Text} : List.Forall₂ C.extract ss ts →
    C.text (Text.join [','] (ss.map Text.trim)) (Text.join [','] (ts.map Text.trim))

/-! ## Parts of an assembly -/

section Parts

variable (L : Likeness)

structure OpenBlock.Resembles (b b' : OpenBlock) : Prop where
  isBody : b.isBody = b'.isBody
  stage : b.stage = b'.stage
  statements : List.Forall₂ (Element.Resembles L) b.statements b'.statements

structure OpenChain.Resembles (c c' : OpenChain) : Prop where
  conditions : List.Forall₂ (Fragment.Resembles L) c.conditions c'.conditions
  blocks : List.Forall₂ (List.Forall₂ (Element.Resembles L)) c.blocks c'.blocks
  pending : Option.Rel (Fragment.Resembles L) c.pending c'.pending
  stage : c.stage = c'.stage

structure OpenLoop.Resembles (w w' : OpenLoop) : Prop where
  condition : w.condition.Resembles L w'.condition
  body : List.Forall₂ (Element.Resembles L) w.body w'.body
  stage : w.stage = w'.stage

inductive Handler.Resembles : Handler → Handler → Prop
  | root {elements elements'} :
      List.Forall₂ (Element.Resembles L) elements elements' →
      Resembles (.root elements) (.root elements')
  | block {b b'} : OpenBlock.Resembles L b b' → Resembles (.block b) (.block b')
  | chain {c c'} : OpenChain.Resembles L c c' → Resembles (.chain c) (.chain c')
  | loop {w w'} : OpenLoop.Resembles L w w' → Resembles (.loop w) (.loop w')

inductive Header.Resembles : Header → Header → Prop
  | method {type type' name name'} :
      Fragment.Resembles L type type' → Fragment.Resembles L name name' →
      Resembles (.method type name) (.method type' name')
  | constructor : Resembles .constructor .constructor

structure VariableHeader.Resembles (h h' : VariableHeader) : Prop where
  isFinal : h.isFinal = h'.isFinal
  type : h.type.Resembles L h'.type

end Parts

section Compared

variable (C : Comparison)

structure Extraction.Resembles (x x' : Extraction) : Prop where
  use : x.use = x'.use
  depth : x.depth = x'.depth
  /-- An open expression has a start. -/
  start : x.depth = 0 ∨ ∃ s s', x.start = some s ∧ x'.start = some s' ∧ C.start s s'

structure ArgumentCollector.Resembles (l l' : ArgumentCollector) : Prop where
  kind : l.kind = l'.kind
  depth : l.depth = l'.depth
  arguments : ∃ ss ts, l.arguments = ss.map Text.trim ∧ l'.arguments = ts.map Text.trim ∧
    List.Forall₂ C.extract ss ts

structure Declaration.Resembles (d d' : Declaration) : Prop where
  header : d.header.Resembles C.toLikeness d'.header
  modifiers : List.Forall₂ C.Modifier d.modifiers d'.modifiers
  documentation : C.documentation d.documentation d'.documentation
  line : C.line d.line d'.line
  parameters : List.Forall₂ (Parameter.Resembles C.toLikeness) d.parameters d'.parameters
  throws : List.Forall₂ (Fragment.Resembles C.toLikeness) d.throws d'.throws
  delegate : Option.Rel (Delegate.Resembles C.toLikeness) d.delegateCall d'.delegateCall

structure Assembly.Resembles (a a' : Assembly) : Prop where
  source : a.source = C.source
  source' : a'.source = C.source'
  width : a.options.commentWidth = C.width
  width' : a'.options.commentWidth = C.width'
  handlers : List.Forall₂ (Handler.Resembles C.toLikeness) a.handlers a'.handlers
  expressions : List.Forall₂ (Extraction.Resembles C) a.expressions a'.expressions
  arguments : List.Forall₂ (ArgumentCollector.Resembles C) a.arguments a'.arguments
  declarations : List.Forall₂ (Declaration.Resembles C) a.declarations a'.declarations
  locals : List.Forall₂ (VariableHeader.Resembles C.toLikeness) a.locals a'.locals
  types : List.Forall₂ (Fragment.ResemblesType C.toLikeness) a.types a'.types
  throwsStarts : a.throwsStarts = a'.throwsStarts
  comment : C.documentation a.comment a'.comment
  warnings : List.Forall₂ (Warning.Resembles C.toLikeness) a.warnings a'.warnings

/-- Events of the same kind about corresponding places of the two sources. -/
inductive Event.Resembles : Event → Event → Prop
  | openExpression {first first' : Span} :
      C.start first.start first'.start → Resembles (.openExpression first) (.openExpression first')
  | closeExpression {last last' : Span} (isEmpty : Bool) :
      C.stop last.stop last'.stop →
      Resembles (.closeExpression last isEmpty) (.closeExpression last' isEmpty)
  | openArguments (paren paren' : Span) : Resembles (.openArguments paren) (.openArguments paren')
  | argument (first first' : Span) : Resembles (.argument first) (.argument first')
  | closeArguments (paren paren' : Span) :
      Resembles (.closeArguments paren) (.closeArguments paren')
  | openBlock (first first' : Span) : Resembles (.openBlock first) (.openBlock first')
  | closeBlock (last last' : Span) : Resembles (.closeBlock last) (.closeBlock last')
  | openIf (keyword keyword' : Span) : Resembles (.openIf keyword) (.openIf keyword')
  | elseIf (keyword keyword' : Span) : Resembles (.elseIf keyword) (.elseIf keyword')
  | otherwise (keyword keyword' : Span) : Resembles (.otherwise keyword) (.otherwise keyword')
  | closeIf (last last' : Span) : Resembles (.closeIf last) (.closeIf last')
  | openWhile (keyword keyword' : Span) : Resembles (.openWhile keyword) (.openWhile keyword')
  | closeWhile (last last' : Span) : Resembles (.closeWhile last) (.closeWhile last')
  | returned (keyword keyword' : Span) (hasValue : Bool) :
      Resembles (.returned keyword hasValue) (.returned keyword' hasValue)
  | jumped (jump : Jump) (keyword keyword' : Span) :
      Resembles (.jumped jump keyword none) (.jumped jump keyword' none)
  | jumpedTo (jump : Jump) {keyword keyword' label label' : Span} :
      C.line keyword.line keyword'.line →
      label.textIn C.source = label'.textIn C.source' →
      Resembles (.jumped jump keyword (some label)) (.jumped jump keyword' (some label'))
  | thrown (keyword keyword' : Span) : Resembles (.thrown keyword) (.thrown keyword')
  | emptyStatement (semicolon semicolon' : Span) :
      Resembles (.emptyStatement semicolon) (.emptyStatement semicolon')
  | expressionStatement (first first' : Span) :
      Resembles (.expressionStatement first) (.expressionStatement first')
  | unsupported (construct : String) {place place' : Span} :
      C.line place.line place'.line →
      Resembles (.unsupported place construct) (.unsupported place' construct)
  | typeName {first first' last last' : Span} :
      C.type (textThrough C.source first last) (textThrough C.source' first' last') →
      Resembles (.typeName first last) (.typeName first' last')
  | openVariables {first first' : Span} {modifiers modifiers' : List Span} :
      C.line first.line first'.line →
      List.Forall₂ C.Modifier (modifiers.map (Span.textIn C.source))
        (modifiers'.map (Span.textIn C.source')) →
      Resembles (.openVariables first modifiers) (.openVariables first' modifiers')
  | declarator {name name' : Span} (hasValue : Bool) :
      name.textIn C.source = name'.textIn C.source' →
      Resembles (.declarator name hasValue) (.declarator name' hasValue)
  | closeVariables (semicolon semicolon' : Span) :
      Resembles (.closeVariables semicolon) (.closeVariables semicolon')
  | openMethod {first first' name name' : Span} {modifiers modifiers' : List Span} :
      C.line first.line first'.line →
      List.Forall₂ C.Modifier (modifiers.map (Span.textIn C.source))
        (modifiers'.map (Span.textIn C.source')) →
      name.textIn C.source = name'.textIn C.source' →
      Resembles (.openMethod first modifiers name) (.openMethod first' modifiers' name')
  | openConstructor {first first' : Span} {modifiers modifiers' : List Span} (name name' : Span) :
      C.line first.line first'.line →
      List.Forall₂ C.Modifier (modifiers.map (Span.textIn C.source))
        (modifiers'.map (Span.textIn C.source')) →
      Resembles (.openConstructor first modifiers name) (.openConstructor first' modifiers' name')
  | parameter {name name' : Span} {ellipsis ellipsis' : Option Span} :
      C.line name.line name'.line →
      name.textIn C.source = name'.textIn C.source' →
      ellipsis.isSome = ellipsis'.isSome →
      Resembles (.parameter name ellipsis) (.parameter name' ellipsis')
  | openThrows (keyword keyword' : Span) : Resembles (.openThrows keyword) (.openThrows keyword')
  | closeThrows : Resembles .closeThrows .closeThrows
  | delegateCall {keyword keyword' : Span} :
      keyword.textIn C.source = keyword'.textIn C.source' →
      Resembles (.delegateCall keyword) (.delegateCall keyword')
  | closeDeclaration (last last' : Span) (hasBody : Bool) :
      Resembles (.closeDeclaration last hasBody) (.closeDeclaration last' hasBody)
  | comment {whole whole' : Span} :
      C.documentation (some (plainComment C.width (whole.textIn C.source)))
        (some (plainComment C.width' (whole'.textIn C.source'))) →
      Resembles (.comment whole) (.comment whole')

end Compared

/-! ## Handlers -/

section Handlers

variable {L : Likeness} {e e' : Element}

theorem forall₂_concat {α β : Type} {R : α → β → Prop} {as : List α} {bs : List β} {a : α}
    {b : β} (h : List.Forall₂ R as bs) (hab : R a b) : List.Forall₂ R (as ++ [a]) (bs ++ [b]) :=
  List.rel_append h (.cons hab .nil)

theorem forall₂_head? {α β : Type} {R : α → β → Prop} {as : List α} {bs : List β}
    (h : List.Forall₂ R as bs) : Option.Rel R as.head? bs.head? := by
  cases h with
  | nil => exact .none
  | cons hab _ => exact .some hab

theorem OpenBlock.Resembles.push {b b' : OpenBlock} (h : b.Resembles L b')
    (he : e.Resembles L e') : Agree (OpenBlock.Resembles L) (b.push e) (b'.push e') := by
  unfold OpenBlock.push
  rw [← h.stage]
  split
  · exact .ok ⟨h.isBody, rfl, forall₂_concat h.statements he⟩
  · exact .mismatch _ _ _

theorem OpenChain.pushLast?_resembles {blocks blocks' : List Block}
    (h : List.Forall₂ (List.Forall₂ (Element.Resembles L)) blocks blocks')
    (he : e.Resembles L e') :
    Option.Rel (List.Forall₂ (List.Forall₂ (Element.Resembles L)))
      (OpenChain.pushLast? e blocks) (OpenChain.pushLast? e' blocks') := by
  induction h with
  | nil => exact .none
  | @cons block block' _ _ hblock hrest ih =>
      cases hrest with
      | nil => exact .some (.cons (forall₂_concat hblock he) .nil)
      | @cons next next' later later' hnext hlater =>
          change Option.Rel _ ((OpenChain.pushLast? e (next :: later)).map (block :: ·))
            ((OpenChain.pushLast? e' (next' :: later')).map (block' :: ·))
          generalize OpenChain.pushLast? e (next :: later) = pushed,
            OpenChain.pushLast? e' (next' :: later') = pushed' at ih
          cases ih with
          | none => exact .none
          | some hpushed => exact .some (.cons hblock hpushed)

theorem OpenChain.Resembles.push {c c' : OpenChain} (h : c.Resembles L c')
    (he : e.Resembles L e') : Agree (OpenChain.Resembles L) (c.push e) (c'.push e') := by
  unfold OpenChain.push
  rw [← h.stage]
  split
  · have hblocks := OpenChain.pushLast?_resembles h.blocks he
    revert hblocks
    cases OpenChain.pushLast? e c.blocks <;> cases OpenChain.pushLast? e' c'.blocks <;> intro hblocks
    · exact .mismatch _ _ _
    · cases hblocks
    · cases hblocks
    · cases hblocks with
      | some hblocks => exact .ok ⟨h.conditions, hblocks, h.pending, rfl⟩
  · exact .mismatch _ _ _

theorem OpenLoop.Resembles.require {w w' : OpenLoop} (h : w.Resembles L w') (stage : LoopStage) :
    Agree (fun _ _ => True) (w.require stage) (w'.require stage) := by
  unfold OpenLoop.require
  rw [← h.stage]
  split
  · exact .ok trivial
  · exact .mismatch _ _ _

theorem OpenLoop.Resembles.push {w w' : OpenLoop} (h : w.Resembles L w') (he : e.Resembles L e') :
    Agree (OpenLoop.Resembles L) (w.push e) (w'.push e') :=
  (h.require _).bind fun _ _ _ => .ok ⟨h.condition, forall₂_concat h.body he, h.stage⟩

theorem Handler.Resembles.push {top top' : Handler} (h : top.Resembles L top')
    (he : e.Resembles L e') : Agree (Handler.Resembles L) (top.push e) (top'.push e') := by
  cases h with
  | root h => exact .ok (.root (forall₂_concat h he))
  | block h => exact (h.push he).map fun _ _ => .block
  | chain h => exact (h.push he).map fun _ _ => .chain
  | loop h => exact (h.push he).map fun _ _ => .loop

theorem Handler.Resembles.collects {top top' : Handler} (h : top.Resembles L top') :
    top.collects = top'.collects := by
  cases h with
  | root h => rfl
  | block h => simp only [Handler.collects, h.stage]
  | chain h => simp only [Handler.collects, h.stage]
  | loop h => simp only [Handler.collects, h.stage]

theorem OpenChain.Resembles.openBlock {c c' : OpenChain} (h : c.Resembles L c') :
    Agree (OpenChain.Resembles L) c.openBlock c'.openBlock := by
  obtain ⟨conditions, blocks, pending, stage⟩ := c
  obtain ⟨conditions', blocks', pending', stage'⟩ := c'
  obtain ⟨hconditions, hblocks, hpending, hstage⟩ := h
  obtain rfl : stage = stage' := hstage
  cases stage with
  | beforeBlock =>
      cases hpending with
      | none => exact .mismatch _ _ _
      | some hcondition =>
          exact .ok ⟨forall₂_concat hconditions hcondition, forall₂_concat hblocks .nil, .none, rfl⟩
  | beforeElseBlock => exact .ok ⟨hconditions, forall₂_concat hblocks .nil, hpending, rfl⟩
  | inBlock | betweenBranches | beforeCondition | afterElse => exact .mismatch _ _ _

theorem OpenChain.Resembles.closeBlock {c c' : OpenChain} (h : c.Resembles L c') :
    Agree (OpenChain.Resembles L) c.closeBlock c'.closeBlock := by
  unfold OpenChain.closeBlock OpenChain.unmatchedBlocks
  rw [← h.stage, ← h.blocks.length_eq, ← h.conditions.length_eq]
  split
  · exact .ok ⟨h.conditions, h.blocks, h.pending, rfl⟩
  · exact .mismatch _ _ _

theorem OpenChain.Resembles.openElseIf {c c' : OpenChain} (h : c.Resembles L c') :
    Agree (OpenChain.Resembles L) c.openElseIf c'.openElseIf := by
  unfold OpenChain.openElseIf
  rw [← h.stage]
  split
  · exact .ok ⟨h.conditions, h.blocks, h.pending, rfl⟩
  · exact .mismatch _ _ _

theorem OpenChain.Resembles.setCondition {c c' : OpenChain} {f f' : Fragment}
    (h : c.Resembles L c') (hf : f.Resembles L f') :
    Agree (OpenChain.Resembles L) (c.setCondition f) (c'.setCondition f') := by
  unfold OpenChain.setCondition
  rw [← h.stage]
  split
  · exact .ok ⟨h.conditions, h.blocks, .some hf, rfl⟩
  · exact .mismatch _ _ _

theorem OpenChain.Resembles.openElse {c c' : OpenChain} (h : c.Resembles L c') :
    Agree (OpenChain.Resembles L) c.openElse c'.openElse := by
  unfold OpenChain.openElse
  rw [← h.stage]
  split
  · exact .ok ⟨h.conditions, h.blocks, h.pending, rfl⟩
  · exact .mismatch _ _ _

theorem OpenChain.Resembles.finish {c c' : OpenChain} (h : c.Resembles L c') :
    Agree (Element.Resembles L) c.finish c'.finish := by
  obtain ⟨conditions, blocks, pending, stage⟩ := c
  obtain ⟨conditions', blocks', pending', stage'⟩ := c'
  obtain ⟨hconditions, hblocks, hpending, hstage⟩ := h
  obtain rfl : stage = stage' := hstage
  unfold OpenChain.finish
  split
  · cases hconditions with
    | nil => exact .mismatch _ _ _
    | cons hcondition hconditions =>
        cases hblocks with
        | nil => exact .mismatch _ _ _
        | cons hblock hblocks =>
            simp only [hconditions.length_eq]
            exact .ok (.ifChain hcondition hblock hconditions (List.forall₂_take _ hblocks)
              (forall₂_head? (List.forall₂_drop _ hblocks)))
  · exact .mismatch _ _ _

theorem OpenLoop.Resembles.openBody {w w' : OpenLoop} (h : w.Resembles L w') :
    Agree (OpenLoop.Resembles L) w.openBody w'.openBody :=
  (h.require _).bind fun _ _ _ => .ok ⟨h.condition, h.body, rfl⟩

theorem OpenLoop.Resembles.closeBody {w w' : OpenLoop} (h : w.Resembles L w') :
    Agree (OpenLoop.Resembles L) w.closeBody w'.closeBody :=
  (h.require _).bind fun _ _ _ => .ok ⟨h.condition, h.body, rfl⟩

theorem OpenLoop.Resembles.finish {w w' : OpenLoop} (h : w.Resembles L w') :
    Agree (Element.Resembles L) w.finish w'.finish :=
  (h.require _).bind fun _ _ _ => .ok (.whileLoop h.condition h.body)

end Handlers

/-! ## Declarations -/

section Declarations

variable {C : Comparison} {d d' : Declaration}

theorem mem_modifierWords_of_access (level : Access) : level.word ∈ Token.modifierWords := by
  cases level <;> decide

/-- The same words stand in lists of modifiers that are alike. -/
theorem contains_of_modifiers {modifiers modifiers' : List Text}
    (h : List.Forall₂ C.Modifier modifiers modifiers') {word : Text}
    (hword : word ∈ Token.modifierWords) : modifiers.contains word = modifiers'.contains word := by
  induction h with
  | nil => rfl
  | @cons s t _ _ hst _ ih =>
      rw [List.contains_cons, List.contains_cons, ih]
      congr 1
      rw [Bool.eq_iff_iff, beq_iff_eq, beq_iff_eq, eq_comm, hst.word word hword, eq_comm]

theorem accessOf_of_modifiers {modifiers modifiers' : List Text}
    (h : List.Forall₂ C.Modifier modifiers modifiers') : accessOf modifiers = accessOf modifiers' := by
  have hcontains : (fun level : Access => modifiers.contains level.word) =
      fun level => modifiers'.contains level.word :=
    funext fun level => contains_of_modifiers h (mem_modifierWords_of_access level)
  unfold accessOf
  rw [hcontains]

theorem withoutWords_of_modifiers {modifiers modifiers' words : List Text}
    (h : List.Forall₂ C.Modifier modifiers modifiers') (hwords : words ⊆ Token.modifierWords) :
    List.Forall₂ C.Modifier (withoutWords words modifiers) (withoutWords words modifiers') := by
  refine List.rel_filter (fun s t hst => ?_) h
  have hmem : s ∈ words ↔ t ∈ words := by
    constructor
    · intro hs
      rwa [(hst.word s (hwords hs)).mp rfl]
    · intro ht
      rwa [(hst.word t (hwords ht)).mpr rfl]
  simpa using not_congr hmem

theorem Declaration.Resembles.isConstructor (h : d.Resembles C d') :
    d.isConstructor = d'.isConstructor := by
  unfold Declaration.isConstructor
  have hheader := h.header
  generalize d.header = header, d'.header = header' at hheader ⊢
  cases hheader with
  | method htype hname => simp
  | constructor => rfl

theorem Declaration.Resembles.requireConstructor (h : d.Resembles C d') :
    Agree (fun _ _ => True) (Assembly.requireConstructor d) (Assembly.requireConstructor d') := by
  unfold Assembly.requireConstructor
  rw [h.isConstructor]
  split
  · exact .ok trivial
  · exact .mismatch _ _ _

theorem Declaration.Resembles.leftovers (h : d.Resembles C d') (hasBody : Bool) :
    List.Forall₂ C.Modifier (d.leftovers hasBody) (d'.leftovers hasBody) := by
  have hwords : d.shownWords hasBody = d'.shownWords hasBody := by
    unfold Declaration.shownWords
    have hheader := h.header
    generalize d.header = header, d'.header = header' at hheader ⊢
    cases hheader <;> cases hasBody <;> rfl
  unfold Declaration.leftovers
  rw [hwords]
  apply withoutWords_of_modifiers h.modifiers
  unfold Declaration.shownWords
  cases d'.header <;> cases hasBody <;> dsimp only <;> decide

theorem Declaration.Resembles.finish (h : d.Resembles C d') {body body' : Option Block}
    (hbody : Option.Rel (List.Forall₂ (Element.Resembles C.toLikeness)) body body') :
    Agree (Element.Resembles C.toLikeness) (d.finish body) (d'.finish body') := by
  have helement (access : Access) :
      (d.element access body).Resembles C.toLikeness (d'.element access body') := by
    unfold Declaration.element
    have hheader := h.header
    generalize d.header = header, d'.header = header' at hheader ⊢
    cases hheader with
    | constructor =>
        refine .constructor access h.documentation h.parameters h.throws h.delegate ?_
        cases hbody with
        | none => exact .nil
        | some hbody => exact hbody
    | method htype hname =>
        rw [contains_of_modifiers h.modifiers (by decide : "static".toList ∈ Token.modifierWords),
          contains_of_modifiers h.modifiers (by decide : "final".toList ∈ Token.modifierWords)]
        cases hbody with
        | none =>
            exact .abstractMethod access h.documentation htype hname h.parameters h.throws
        | some hbody =>
            exact .method access _ _ h.documentation htype hname h.parameters h.throws hbody
  unfold Declaration.finish
  rw [accessOf_of_modifiers h.modifiers]
  cases haccess : accessOf d'.modifiers with
  | ok access => exact .ok (helement access)
  | error e =>
      unfold accessOf at haccess
      split at haccess
      · cases haccess
      · cases haccess
      · cases haccess
        exact .conflict _

end Declarations

/-! ## Parts of events -/

namespace Assembly.Resembles

variable {C : Comparison} {a a' : Assembly}

theorem textIn (h : a.Resembles C a') {s s' : Span} (hs : s.textIn C.source = s'.textIn C.source') :
    a.textOf s = a'.textOf s' := by
  unfold textOf
  rw [h.source, h.source']
  exact hs

theorem texts (h : a.Resembles C a') {spans spans' : List Span}
    (hspans : List.Forall₂ C.Modifier (spans.map (Span.textIn C.source))
      (spans'.map (Span.textIn C.source'))) :
    List.Forall₂ C.Modifier (spans.map a.textOf) (spans'.map a'.textOf) := by
  have htexts : a.textOf = Span.textIn C.source := by
    funext s
    rw [textOf, h.source, Span.textIn]
  have htexts' : a'.textOf = Span.textIn C.source' := by
    funext s
    rw [textOf, h.source', Span.textIn]
  rw [htexts, htexts']
  exact hspans

theorem withHandlers (h : a.Resembles C a') {handlers handlers' : List Handler}
    (hhandlers : List.Forall₂ (Handler.Resembles C.toLikeness) handlers handlers') :
    ({ a with handlers }).Resembles C { a' with handlers := handlers' } :=
  { h with handlers := hhandlers }

theorem withExpressions (h : a.Resembles C a') {expressions expressions' : List Extraction}
    (hexpressions : List.Forall₂ (Extraction.Resembles C) expressions expressions') :
    ({ a with expressions }).Resembles C { a' with expressions := expressions' } :=
  { h with expressions := hexpressions }

theorem warn (h : a.Resembles C a') {line line' : Nat} {omission omission' : Omission}
    (hline : C.line line line') (homission : omission.Resembles C.toLikeness omission') :
    (a.warn line omission).Resembles C (a'.warn line' omission') :=
  { h with warnings := forall₂_concat h.warnings ⟨hline, homission⟩ }

theorem warnModifiers (h : a.Resembles C a') {line line' : Nat} (owner : ModifierOwner)
    {modifiers modifiers' : List Text} (hline : C.line line line')
    (hmodifiers : List.Forall₂ C.Modifier modifiers modifiers') :
    (a.warnModifiers line owner modifiers).Resembles C
      (a'.warnModifiers line' owner modifiers') :=
  { h with
    warnings := List.rel_append h.warnings
      (List.rel_map (fun _ _ hm => ⟨hline, .modifier owner hm⟩) hmodifiers) }

theorem await (h : a.Resembles C a') (use : ExpressionUse) :
    (a.await use).Resembles C (a'.await use) :=
  { h with expressions := .cons ⟨rfl, rfl, .inl rfl⟩ h.expressions }

theorem claimType (h : a.Resembles C a') :
    Agree (fun x y => x.1.ResemblesType C.toLikeness y.1 ∧ x.2.Resembles C y.2) a.claimType
      a'.claimType := by
  have htypes := h.types
  unfold Assembly.claimType
  generalize a.types = types, a'.types = types' at htypes ⊢
  cases htypes with
  | nil => exact .emptyStack _ _
  | cons htype htypes => exact .ok ⟨htype, { h with types := htypes }⟩

theorem updateChain (h : a.Resembles C a') {f f' : OpenChain → Except ConversionError OpenChain}
    (hf : ∀ c c', c.Resembles C.toLikeness c' →
      Agree (OpenChain.Resembles C.toLikeness) (f c) (f' c')) :
    Agree (Resembles C) (a.updateChain f) (a'.updateChain f') := by
  have hhandlers := h.handlers
  unfold Assembly.updateChain
  generalize a.handlers = handlers, a'.handlers = handlers' at hhandlers ⊢
  cases hhandlers with
  | nil => exact .emptyStack _ _
  | cons htop hbelow =>
      cases htop with
      | chain hchain =>
          exact (hf _ _ hchain).map fun _ _ hnew => { h with handlers := .cons (.chain hnew) hbelow }
      | root _ | block _ | loop _ => exact .mismatch _ _ _

theorem updateDeclaration (h : a.Resembles C a')
    {f f' : Declaration → Except ConversionError Declaration}
    (hf : ∀ d d', d.Resembles C d' → Agree (Declaration.Resembles C) (f d) (f' d')) :
    Agree (Resembles C) (a.updateDeclaration f) (a'.updateDeclaration f') := by
  have hdeclarations := h.declarations
  unfold Assembly.updateDeclaration
  generalize a.declarations = declarations, a'.declarations = declarations' at hdeclarations ⊢
  cases hdeclarations with
  | nil => exact .emptyStack _ _
  | cons htop hbelow =>
      exact (hf _ _ htop).map fun _ _ hnew => { h with declarations := .cons hnew hbelow }

theorem openExpression (h : a.Resembles C a') {first first' : Span}
    (hfirst : C.start first.start first'.start) :
    (a.openExpression first).Resembles C (a'.openExpression first') := by
  have hexpressions := h.expressions
  unfold Assembly.openExpression
  generalize hx : a.expressions = expressions, hx' : a'.expressions = expressions'
    at hexpressions ⊢
  cases hexpressions with
  | nil => exact h
  | @cons x x' _ _ htop hbelow =>
      have hopened : (x.opened first.start).Resembles C (x'.opened first'.start) := by
        refine ⟨htop.use, congrArg (· + 1) htop.depth, .inr ?_⟩
        simp only [Extraction.opened, ← htop.depth]
        rcases htop.start with hzero | ⟨s, s', hs, hs', hss⟩
        · exact ⟨_, _, if_pos hzero, if_pos hzero, hfirst⟩
        · split
          · exact ⟨_, _, rfl, rfl, hfirst⟩
          · exact ⟨s, s', hs, hs', hss⟩
      exact { h with expressions := .cons hopened hbelow }

theorem openArguments (h : a.Resembles C a') : a.openArguments.Resembles C a'.openArguments := by
  have harguments := h.arguments
  unfold Assembly.openArguments
  generalize a.arguments = lists, a'.arguments = lists' at harguments ⊢
  cases harguments with
  | nil => exact h
  | cons htop hbelow =>
      exact { h with
        arguments := .cons ⟨htop.kind, congrArg (· + 1) htop.depth, htop.arguments⟩ hbelow }

theorem argument (h : a.Resembles C a') : a.argument.Resembles C a'.argument := by
  have harguments := h.arguments
  unfold Assembly.argument
  generalize a.arguments = lists, a'.arguments = lists' at harguments ⊢
  cases harguments with
  | nil => exact h
  | cons htop hbelow =>
      simp only [← htop.depth]
      split
      · exact h.await .argument
      · exact h

theorem openDeclaration (h : a.Resembles C a') (hnone : C.documentation none none)
    {header header' : Header} (hheader : header.Resembles C.toLikeness header')
    {first first' : Span} (hline : C.line first.line first'.line) {modifiers modifiers' : List Span}
    (hmodifiers : List.Forall₂ C.Modifier (modifiers.map (Span.textIn C.source))
      (modifiers'.map (Span.textIn C.source'))) :
    (a.openDeclaration header first modifiers).Resembles C
      (a'.openDeclaration header' first' modifiers') :=
  { h with
    declarations := .cons
      ⟨hheader, h.texts hmodifiers, h.comment, hline, .nil, .nil, .none⟩ h.declarations
    handlers := .cons (.block ⟨rfl, rfl, .nil⟩) h.handlers
    comment := hnone }

section Reporting

variable (hC : C.Sound)

include hC

theorem dropComment (h : a.Resembles C a') : a.dropComment.Resembles C a'.dropComment :=
  { h with comment := hC.none }

theorem report (h : a.Resembles C a') {e e' : Element} (he : e.Resembles C.toLikeness e') :
    Agree (Resembles C) (a.report e) (a'.report e') := by
  have hhandlers := h.handlers
  unfold Assembly.report
  generalize a.handlers = handlers, a'.handlers = handlers' at hhandlers ⊢
  cases hhandlers with
  | nil => exact .emptyStack _ _
  | cons htop hbelow =>
      exact (htop.push he).map fun _ _ hpushed =>
        { h with handlers := .cons hpushed hbelow, comment := hC.none }

theorem reports (h : a.Resembles C a') {elements elements' : Block}
    (helements : List.Forall₂ (Element.Resembles C.toLikeness) elements elements') :
    Agree (Resembles C) (elements.foldlM Assembly.report a)
      (elements'.foldlM Assembly.report a') := by
  induction helements generalizing a a' with
  | nil => exact .ok h
  | cons he _ ih =>
      rw [List.foldlM_cons, List.foldlM_cons]
      exact (h.report hC he).bind fun _ _ hnext => ih hnext

theorem statementElement {s t : Text} (hst : C.extract s t) :
    (Assembly.statementElement s).Resembles C.toLikeness (Assembly.statementElement t) := by
  have hsides := hC.sides hst
  unfold Comparison.Sides at hsides
  unfold Assembly.statementElement
  generalize assignmentSides? s = sides, assignmentSides? t = sides' at hsides ⊢
  cases hsides with
  | none => exact .call (.expression (hC.text hst))
  | some hsides => exact .assign (.expression hsides.1) (.expression hsides.2)

theorem fulfil (h : a.Resembles C a') (use : ExpressionUse) {s t : Text} (hst : C.extract s t) :
    Agree (Resembles C) (a.fulfil use s) (a'.fulfil use t) := by
  have hexpression : (Fragment.expression s).Resembles C.toLikeness (.expression t) :=
    .expression (hC.text hst)
  cases use with
  | ifCondition =>
      exact .ok { h with
        handlers := .cons (.chain ⟨.nil, .nil, .some hexpression, rfl⟩) h.handlers }
  | elseIfCondition => exact h.updateChain fun _ _ hchain => hchain.setCondition hexpression
  | whileCondition =>
      exact .ok { h with handlers := .cons (.loop ⟨hexpression, .nil, rfl⟩) h.handlers }
  | returnValue => exact h.report hC (.returnValue (.some hexpression))
  | statement => exact h.report hC (statementElement hC hst)
  | thrown => exact h.report hC (.throwValue hexpression)
  | initializer name =>
      have hlocals := h.locals
      unfold Assembly.fulfil
      dsimp only
      generalize a.locals = locals, a'.locals = locals' at hlocals ⊢
      cases hlocals with
      | nil => exact .emptyStack _ _
      | @cons header header' _ _ hheader _ =>
          refine h.report hC ?_
          unfold VariableHeader.element
          rw [hheader.isFinal]
          exact .localVariable _ hheader.type (.name name) (.some hexpression)
  | argument =>
      have harguments := h.arguments
      unfold Assembly.fulfil
      dsimp only
      generalize a.arguments = lists, a'.arguments = lists' at harguments ⊢
      cases harguments with
      | nil => exact .emptyStack _ _
      | cons htop hbelow =>
          obtain ⟨ss, ts, hss, hts, hall⟩ := htop.arguments
          refine .ok { h with arguments := .cons ⟨htop.kind, htop.depth, ?_⟩ hbelow }
          exact ⟨ss ++ [s], ts ++ [t], by simp [hss], by simp [hts], forall₂_concat hall hst⟩
  | discarded => exact .ok h

theorem closeExpression (h : a.Resembles C a') {last last' : Span} (isEmpty : Bool)
    (hlast : C.stop last.stop last'.stop) :
    Agree (Resembles C) (a.closeExpression last isEmpty) (a'.closeExpression last' isEmpty) := by
  have hexpressions := h.expressions
  unfold Assembly.closeExpression
  generalize a.expressions = expressions, a'.expressions = expressions' at hexpressions ⊢
  cases hexpressions with
  | nil => exact .ok h
  | @cons x x' below below' htop hbelow =>
      obtain ⟨use, depth, start⟩ := x
      obtain ⟨use', depth', start'⟩ := x'
      obtain ⟨huse, hdepth, hstart⟩ := htop
      obtain rfl : use = use' := huse
      obtain rfl : depth = depth' := hdepth
      match depth with
      | 0 => exact .mismatch _ _ _
      | 1 =>
          obtain ⟨s, s', rfl, rfl, hss⟩ : ∃ s s', start = some s ∧ start' = some s' ∧
            C.start s s' := hstart.resolve_left (by simp)
          have hfulfil {text text' : Text}
              (htext : C.extract (withSubtypeOperator text) (withSubtypeOperator text')) :
              Agree (Resembles C)
                (({ a with expressions := below } : Assembly).fulfil use (withSubtypeOperator text))
                (({ a' with expressions := below' } : Assembly).fulfil use
                  (withSubtypeOperator text')) :=
            (h.withExpressions hbelow).fulfil hC use htext
          cases isEmpty with
          | true => exact hfulfil hC.empty
          | false =>
              simp only [Extraction.closed, Extraction.textTo, Option.getD_some, Bool.false_eq_true,
                if_false]
              cases hslice : Text.slice? a.source s last.stop with
              | none => exact .mismatch _ _ _
              | some text =>
                  cases hslice' : Text.slice? a'.source s' last'.stop with
                  | none => exact .mismatch_right _ _ _
                  | some text' =>
                      rw [h.source] at hslice
                      rw [h.source'] at hslice'
                      exact hfulfil (hC.slices hss hlast hslice hslice')
      | depth + 2 =>
          refine .ok { h with expressions := .cons ⟨rfl, rfl, .inr ?_⟩ hbelow }
          exact hstart.resolve_left (by simp)

theorem closeArguments (h : a.Resembles C a') :
    Agree (Resembles C) a.closeArguments a'.closeArguments := by
  have harguments := h.arguments
  unfold Assembly.closeArguments
  generalize a.arguments = lists, a'.arguments = lists' at harguments ⊢
  cases harguments with
  | nil => exact .ok h
  | @cons list list' below below' htop hbelow =>
      obtain ⟨kind, depth, texts⟩ := list
      obtain ⟨kind', depth', texts'⟩ := list'
      obtain ⟨hkind, hdepth, ss, ts, hss, hts, hall⟩ := htop
      obtain rfl : kind = kind' := hkind
      obtain rfl : depth = depth' := hdepth
      obtain rfl : texts = ss.map Text.trim := hss
      obtain rfl : texts' = ts.map Text.trim := hts
      match depth with
      | 0 => exact .mismatch _ _ _
      | 1 =>
          have hrest : ({ a with arguments := below }).Resembles C { a' with arguments := below' } :=
            { h with arguments := hbelow }
          refine hrest.updateDeclaration fun d d' hd => ?_
          exact hd.requireConstructor.bind fun _ _ _ => .ok
            { hd with delegate := .some ⟨rfl, .expression (hC.joined hall)⟩ }
      | depth + 2 =>
          exact .ok { h with arguments := .cons ⟨rfl, rfl, ss, ts, rfl, rfl, hall⟩ hbelow }

omit hC in
theorem openBlock (h : a.Resembles C a') : Agree (Resembles C) a.openBlock a'.openBlock := by
  have hhandlers := h.handlers
  unfold Assembly.openBlock
  generalize a.handlers = handlers, a'.handlers = handlers' at hhandlers ⊢
  cases hhandlers with
  | nil => exact .emptyStack _ _
  | @cons top top' below below' htop hbelow =>
      have hnested : Agree (Resembles C)
          (if top.collects then .ok { a with handlers := .block .nested :: top :: below }
            else .error (.mismatch .readyForBlock top.situation))
          (if top'.collects then .ok { a' with handlers := .block .nested :: top' :: below' }
            else .error (.mismatch .readyForBlock top'.situation)) := by
        rw [← htop.collects]
        split
        · exact .ok { h with handlers := .cons (.block ⟨rfl, rfl, .nil⟩) (.cons htop hbelow) }
        · exact .mismatch _ _ _
      cases htop with
      | root _ => exact hnested
      | block hblock =>
          dsimp only
          rw [← hblock.stage]
          split
          · exact .ok { h with handlers := .cons (.block ⟨hblock.isBody, rfl, hblock.statements⟩) hbelow }
          · exact hnested
      | chain hchain =>
          dsimp only
          unfold OpenChain.isBeforeBlock
          rw [← hchain.stage]
          split
          · exact hchain.openBlock.map fun _ _ hnew =>
              { h with handlers := .cons (.chain hnew) hbelow }
          · exact hnested
      | loop hloop =>
          dsimp only
          rw [← hloop.stage]
          split
          · exact hloop.openBody.map fun _ _ hnew => { h with handlers := .cons (.loop hnew) hbelow }
          · exact hnested

theorem closeBlock (h : a.Resembles C a') : Agree (Resembles C) a.closeBlock a'.closeBlock := by
  have hhandlers := h.handlers
  unfold Assembly.closeBlock
  generalize a.handlers = handlers, a'.handlers = handlers' at hhandlers ⊢
  cases hhandlers with
  | nil => exact .emptyStack _ _
  | @cons top top' below below' htop hbelow =>
      have hdropped := h.dropComment hC
      cases htop with
      | root _ => exact .mismatch _ _ _
      | block hblock =>
          dsimp only
          rw [← hblock.stage, ← hblock.isBody]
          split
          · split
            · exact .ok { hdropped with
                handlers := .cons (.block ⟨rfl, rfl, hblock.statements⟩) hbelow }
            · exact (hdropped.withHandlers hbelow).reports hC hblock.statements
          · exact .mismatch _ _ _
      | chain hchain =>
          exact hchain.closeBlock.map fun _ _ hnew =>
            { hdropped with handlers := .cons (.chain hnew) hbelow }
      | loop hloop =>
          exact hloop.closeBody.map fun _ _ hnew =>
            { hdropped with handlers := .cons (.loop hnew) hbelow }

omit hC in
theorem elseIf (h : a.Resembles C a') : Agree (Resembles C) a.elseIf a'.elseIf :=
  (h.updateChain fun _ _ hchain => hchain.openElseIf).map fun _ _ hnew => hnew.await _

theorem closeIf (h : a.Resembles C a') : Agree (Resembles C) a.closeIf a'.closeIf := by
  have hhandlers := h.handlers
  unfold Assembly.closeIf
  generalize a.handlers = handlers, a'.handlers = handlers' at hhandlers ⊢
  cases hhandlers with
  | nil => exact .emptyStack _ _
  | @cons _ _ below below' htop hbelow =>
      cases htop with
      | chain hchain =>
          exact hchain.finish.bind fun _ _ he => (h.withHandlers hbelow).report hC he
      | root _ | block _ | loop _ => exact .mismatch _ _ _

theorem closeWhile (h : a.Resembles C a') : Agree (Resembles C) a.closeWhile a'.closeWhile := by
  have hhandlers := h.handlers
  unfold Assembly.closeWhile
  generalize a.handlers = handlers, a'.handlers = handlers' at hhandlers ⊢
  cases hhandlers with
  | nil => exact .emptyStack _ _
  | @cons _ _ below below' htop hbelow =>
      cases htop with
      | loop hloop =>
          exact hloop.finish.bind fun _ _ he => (h.withHandlers hbelow).report hC he
      | root _ | block _ | chain _ => exact .mismatch _ _ _

theorem returned (h : a.Resembles C a') (hasValue : Bool) :
    Agree (Resembles C) (a.returned hasValue) (a'.returned hasValue) := by
  unfold Assembly.returned
  split
  · exact .ok (h.await _)
  · exact h.report hC (.returnValue .none)

omit hC in
theorem openVariables (h : a.Resembles C a') {first first' : Span} {modifiers modifiers' : List Span}
    (hline : C.line first.line first'.line)
    (hmodifiers : List.Forall₂ C.Modifier (modifiers.map (Span.textIn C.source))
      (modifiers'.map (Span.textIn C.source'))) :
    Agree (Resembles C) (a.openVariables first modifiers) (a'.openVariables first' modifiers') := by
  refine h.claimType.bind fun x y hxy => ?_
  obtain ⟨htype, hrest⟩ := hxy
  have htexts := hrest.texts hmodifiers
  have hwarned := hrest.warnModifiers .locals hline
    (withoutWords_of_modifiers htexts (by decide : ["final".toList] ⊆ Token.modifierWords))
  refine .ok { hwarned with locals := .cons ⟨?_, htype.resembles⟩ hrest.locals }
  exact contains_of_modifiers htexts (by decide)

theorem declarator (h : a.Resembles C a') {name name' : Span} (hasValue : Bool)
    (hname : name.textIn C.source = name'.textIn C.source') :
    Agree (Resembles C) (a.declarator name hasValue) (a'.declarator name' hasValue) := by
  have hlocals := h.locals
  unfold Assembly.declarator
  rw [h.textIn hname]
  dsimp only
  split
  · exact .ok (h.await _)
  · generalize a.locals = locals, a'.locals = locals' at hlocals ⊢
    cases hlocals with
    | nil => exact .emptyStack _ _
    | cons hheader _ =>
        refine h.report hC ?_
        unfold VariableHeader.element
        rw [hheader.isFinal]
        exact .localVariable _ hheader.type (.name _) .none

omit hC in
theorem closeVariables (h : a.Resembles C a') :
    Agree (Resembles C) a.closeVariables a'.closeVariables := by
  have hlocals := h.locals
  unfold Assembly.closeVariables
  generalize a.locals = locals, a'.locals = locals' at hlocals ⊢
  cases hlocals with
  | nil => exact .emptyStack _ _
  | cons _ hbelow => exact .ok { h with locals := hbelow }

theorem openMethod (h : a.Resembles C a') {first first' name name' : Span}
    {modifiers modifiers' : List Span} (hline : C.line first.line first'.line)
    (hmodifiers : List.Forall₂ C.Modifier (modifiers.map (Span.textIn C.source))
      (modifiers'.map (Span.textIn C.source')))
    (hname : name.textIn C.source = name'.textIn C.source') :
    Agree (Resembles C) (a.openMethod first modifiers name)
      (a'.openMethod first' modifiers' name') := by
  refine h.claimType.bind fun x y hxy => ?_
  obtain ⟨htype, hrest⟩ := hxy
  dsimp only
  rw [hrest.textIn hname]
  exact .ok (hrest.openDeclaration hC.none (.method htype.resembles (.name _)) hline hmodifiers)

omit hC in
theorem parameter (h : a.Resembles C a') {name name' : Span} {ellipsis ellipsis' : Option Span}
    (hline : C.line name.line name'.line) (hname : name.textIn C.source = name'.textIn C.source')
    (hellipsis : ellipsis.isSome = ellipsis'.isSome) :
    Agree (Resembles C) (a.parameter name ellipsis) (a'.parameter name' ellipsis') := by
  refine h.claimType.bind fun x y hxy => ?_
  obtain ⟨htype, hrest⟩ := hxy
  have hwarned : (if ellipsis.isSome then
        x.2.warn name.line (.variableArity (x.2.textOf name) x.1.text) else x.2).Resembles C
      (if ellipsis'.isSome then
        y.2.warn name'.line (.variableArity (y.2.textOf name') y.1.text) else y.2) := by
    rw [hellipsis, hrest.textIn hname]
    split
    · exact hrest.warn hline (.variableArity _ (htype.text))
    · exact hrest
  dsimp only
  rw [← hrest.textIn hname] at hwarned ⊢
  exact hwarned.updateDeclaration fun d d' hd => .ok
    { hd with parameters := forall₂_concat hd.parameters ⟨htype.resembles, .name _⟩ }

omit hC in
theorem openThrows (h : a.Resembles C a') : Agree (Resembles C) a.openThrows a'.openThrows := by
  have hdeclarations := h.declarations
  unfold Assembly.openThrows
  generalize a.declarations = declarations, a'.declarations = declarations' at hdeclarations ⊢
  cases hdeclarations with
  | nil => exact .emptyStack _ _
  | cons htop hbelow =>
      exact .ok { h with
        declarations := .cons htop hbelow
        throwsStarts := congrArg₂ List.cons h.types.length_eq h.throwsStarts }

omit hC in
theorem closeThrows (h : a.Resembles C a') : Agree (Resembles C) a.closeThrows a'.closeThrows := by
  unfold Assembly.closeThrows
  rw [← h.throwsStarts]
  cases hmarks : a.throwsStarts with
  | nil => exact .emptyStack _ _
  | cons mark below =>
      dsimp only
      rw [← h.types.length_eq]
      split
      · exact .mismatch _ _ _
      · let count := a.types.length - mark
        have hrest : ({ a with throwsStarts := below, types := a.types.drop count }).Resembles C
            { a' with throwsStarts := below, types := a'.types.drop count } :=
          { h with throwsStarts := rfl, types := List.forall₂_drop _ h.types }
        have htypes := h.types.imp fun _ _ => Fragment.ResemblesType.resembles
        exact hrest.updateDeclaration fun d d' hd => .ok { hd with
          throws := List.rel_append hd.throws
            (List.forall₂_reverse_iff.mpr (List.forall₂_take _ htypes)) }

omit hC in
theorem delegateCall (h : a.Resembles C a') {keyword keyword' : Span}
    (hkeyword : keyword.textIn C.source = keyword'.textIn C.source') :
    Agree (Resembles C) (a.delegateCall keyword) (a'.delegateCall keyword') := by
  unfold Assembly.delegateCall
  rw [h.textIn hkeyword]
  dsimp only
  cases DelegateTarget.ofText? (a'.textOf keyword') with
  | none => exact .mismatch _ _ _
  | some kind =>
      refine (h.updateDeclaration fun d d' hd =>
        hd.requireConstructor.map fun _ _ _ => hd).bind fun b b' hb => ?_
      have hexpressions := hb.expressions
      generalize b.expressions = expressions, b'.expressions = expressions' at hexpressions ⊢
      cases hexpressions with
      | nil => exact .emptyStack _ _
      | cons htop hbelow =>
          dsimp only
          rw [← htop.use, ← htop.depth]
          split
          · exact .ok { hb with
              expressions := .cons ⟨rfl, rfl, htop.start⟩ hbelow
              arguments := .cons ⟨rfl, rfl, [], [], rfl, rfl, .nil⟩ hb.arguments }
          · exact .mismatch _ _ _

theorem closeDeclaration (h : a.Resembles C a') (hasBody : Bool) :
    Agree (Resembles C) (a.closeDeclaration hasBody) (a'.closeDeclaration hasBody) := by
  have hhandlers := h.handlers
  unfold Assembly.closeDeclaration
  generalize a.handlers = handlers, a'.handlers = handlers' at hhandlers ⊢
  cases hhandlers with
  | nil => exact .emptyStack _ _
  | @cons _ _ below below' htop hbelow =>
      cases htop with
      | root _ | chain _ | loop _ => exact .mismatch _ _ _
      | @block b b' hblock =>
          dsimp only
          generalize (if hasBody = true then BlockStage.closed else .unopened) = stage
          rw [← hblock.isBody, ← hblock.stage]
          split
          · have hdeclarations := h.declarations
            generalize a.declarations = declarations, a'.declarations = declarations'
              at hdeclarations ⊢
            cases hdeclarations with
            | nil => exact .emptyStack _ _
            | @cons d d' outer outer' hd hdeclarations =>
                have hbody : Option.Rel (List.Forall₂ (Element.Resembles C.toLikeness))
                    (if hasBody then some b.statements else none)
                    (if hasBody then some b'.statements else none) := by
                  cases hasBody
                  · exact .none
                  · exact .some hblock.statements
                refine (hd.finish hbody).bind fun e e' he => ?_
                rw [hd.isConstructor]
                refine report hC ?_ he
                have hclosed := h.withHandlers hbelow
                have hrest : ({ a with handlers := below, declarations := outer }).Resembles C
                    { a' with handlers := below', declarations := outer' } :=
                  { hclosed with declarations := hdeclarations }
                exact hrest.warnModifiers _ hd.line (hd.leftovers hasBody)
          · exact .mismatch _ _ _

end Reporting

end Assembly.Resembles

/-! ## Events and runs -/

namespace Assembly

variable {C : Comparison} {a a' : Assembly}

/-- What one pair of events preserves. -/
theorem Resembles.step (hC : C.Sound) (h : a.Resembles C a') {e e' : Event}
    (he : e.Resembles C e') : Agree (Resembles C) (a.step e) (a'.step e') := by
  cases he with
  | openExpression hfirst => exact .ok (h.openExpression hfirst)
  | closeExpression isEmpty hlast => exact h.closeExpression hC isEmpty hlast
  | openArguments => exact .ok h.openArguments
  | argument => exact .ok h.argument
  | closeArguments => exact h.closeArguments hC
  | openBlock => exact h.openBlock
  | closeBlock => exact h.closeBlock hC
  | openIf => exact .ok (h.await _)
  | elseIf => exact h.elseIf
  | otherwise => exact h.updateChain fun _ _ hchain => hchain.openElse
  | closeIf => exact h.closeIf hC
  | openWhile => exact .ok (h.await _)
  | closeWhile => exact h.closeWhile hC
  | returned _ _ hasValue => exact h.returned hC hasValue
  | jumped jump => exact h.report hC (.jump jump)
  | jumpedTo jump hline hlabel =>
      refine (h.warn hline ?_).report hC (.jump jump)
      rw [h.textIn hlabel]
      exact .label jump _
  | thrown => exact .ok (h.await _)
  | emptyStatement => exact .ok (h.dropComment hC)
  | expressionStatement => exact .ok (h.await _)
  | unsupported construct hline => exact .ok ((h.dropComment hC).warn hline (.construct construct))
  | typeName htype =>
      refine .ok { h with types := .cons (.type ?_) h.types }
      simpa only [textOf, h.source, h.source', textThrough] using htype
  | openVariables hline hmodifiers => exact h.openVariables hline hmodifiers
  | declarator hasValue hname => exact h.declarator hC hasValue hname
  | closeVariables => exact h.closeVariables
  | openMethod hline hmodifiers hname => exact h.openMethod hC hline hmodifiers hname
  | openConstructor _ _ hline hmodifiers =>
      exact .ok (h.openDeclaration hC.none .constructor hline hmodifiers)
  | parameter hline hname hellipsis => exact h.parameter hline hname hellipsis
  | openThrows => exact h.openThrows
  | closeThrows => exact h.closeThrows
  | delegateCall hkeyword => exact h.delegateCall hkeyword
  | closeDeclaration _ _ hasBody => exact h.closeDeclaration hC hasBody
  | comment hwhole =>
      refine .ok { h with comment := ?_ }
      rw [h.width, h.width', textOf, textOf, h.source, h.source']
      exact hwhole

end Assembly

/-- Events that resemble each other one by one.  Where any two documentations are alike, a comment
needs no counterpart. -/
inductive EventsResemble (C : Comparison) : List Event → List Event → Prop
  | nil : EventsResemble C [] []
  | cons {e e' : Event} {events events' : List Event} :
      e.Resembles C e' → EventsResemble C events events' →
      EventsResemble C (e :: events) (e' :: events')
  | commentLeft (whole : Span) {events events' : List Event} :
      (∀ d d', C.documentation d d') → EventsResemble C events events' →
      EventsResemble C (.comment whole :: events) events'
  | commentRight (whole : Span) {events events' : List Event} :
      (∀ d d', C.documentation d d') → EventsResemble C events events' →
      EventsResemble C events (.comment whole :: events')

namespace Assembly

variable {C : Comparison} {a a' : Assembly}

/-- What whole runs preserve. -/
theorem Resembles.run (hC : C.Sound) (h : a.Resembles C a') {events events' : List Event}
    (hevents : EventsResemble C events events') :
    Agree (Resembles C) (a.run events) (a'.run events') := by
  induction hevents generalizing a a' with
  | nil => exact .ok h
  | cons he _ ih => exact (h.step hC he).bind fun _ _ hnext => ih hnext
  | commentLeft whole hany _ ih => exact ih { h with comment := hany _ _ }
  | commentRight whole hany _ ih => exact ih { h with comment := hany _ _ }

/-- The elements and the warnings of two assemblies that have come to their ends. -/
theorem Resembles.finish (h : a.Resembles C a') :
    Agree (Conversion.Resembles C.toLikeness) a.finish a'.finish := by
  unfold Assembly.finish
  cases hopen : a.leftOpen? with
  | some e =>
      refine .left _ fun levels he => ?_
      subst he
      unfold leftOpen? at hopen
      split at hopen <;> (try split at hopen) <;> simp at hopen
  | none =>
      cases hopen' : a'.leftOpen? with
      | some e =>
          refine .right _ fun levels he => ?_
          subst he
          unfold leftOpen? at hopen'
          split at hopen' <;> (try split at hopen') <;> simp at hopen'
      | none =>
          have hhandlers := h.handlers
          generalize a.handlers = handlers, a'.handlers = handlers' at hhandlers ⊢
          cases hhandlers with
          | nil => exact .emptyStack _ _
          | cons htop hbelow =>
              cases htop with
              | root helements =>
                  cases hbelow with
                  | nil => exact .ok ⟨helements, h.warnings⟩
                  | cons _ _ => exact .mismatch _ _ _
              | block _ | chain _ | loop _ => exact .mismatch _ _ _

end Assembly

end CodeFrames
