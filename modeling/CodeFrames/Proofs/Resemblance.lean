import CodeFrames.Assembly
import CodeFrames.Token.Word
import Mathlib.Data.List.Forall2
import Mathlib.Data.Option.Basic

/-!
# Frames that resemble each other

Two frames resemble each other when they have the same shape, the same access levels and the same
flags, and when the texts, the documentations and the lines of warnings in corresponding places are
alike.  What counts as alike is a parameter, so that one relation serves for frames that differ in
their documentation only, and for frames of sources that differ in layout.
-/

namespace CodeFrames

/-- What counts as alike in two frames. -/
structure Likeness where
  /-- For the texts of types and modifiers; names have to be equal. -/
  type : Text → Text → Prop
  /-- For the texts of expressions. -/
  text : Text → Text → Prop
  documentation : Option Text → Option Text → Prop
  line : Nat → Nat → Prop

namespace Likeness

/-- Equal texts and lines, and any documentations. -/
def exceptDocumentation : Likeness := ⟨Eq, Eq, fun _ _ => True, Eq⟩

end Likeness

variable (L : Likeness)

/-! ## Elements -/

inductive Fragment.Resembles : Fragment → Fragment → Prop
  | type {s t : Text} : L.type s t → Resembles (.type s) (.type t)
  | name (t : Text) : Resembles (.name t) (.name t)
  | expression {s t : Text} : L.text s t → Resembles (.expression s) (.expression t)

/-- Both fragments are types. -/
inductive Fragment.ResemblesType : Fragment → Fragment → Prop
  | type {s t : Text} : L.type s t → ResemblesType (.type s) (.type t)

section Types

variable {L} {f g : Fragment}

theorem Fragment.ResemblesType.resembles (h : f.ResemblesType L g) : f.Resembles L g := by
  cases h with
  | type h => exact .type h

theorem Fragment.ResemblesType.text (h : f.ResemblesType L g) : L.type f.text g.text := by
  cases h with
  | type h => exact h

end Types

structure Parameter.Resembles (p q : Parameter) : Prop where
  type : p.type.Resembles L q.type
  name : p.name.Resembles L q.name

structure Delegate.Resembles (d e : Delegate) : Prop where
  kind : d.kind = e.kind
  arguments : d.arguments.Resembles L e.arguments

inductive Element.Resembles : Element → Element → Prop
  | ifChain {condition condition' first first' conditions conditions' blocks blocks' last last'} :
      condition.Resembles L condition' →
      List.Forall₂ Resembles first first' →
      List.Forall₂ (Fragment.Resembles L) conditions conditions' →
      List.Forall₂ (List.Forall₂ Resembles) blocks blocks' →
      Option.Rel (List.Forall₂ Resembles) last last' →
      Resembles (.ifChain condition first conditions blocks last)
        (.ifChain condition' first' conditions' blocks' last')
  | whileLoop {condition condition' body body'} :
      condition.Resembles L condition' →
      List.Forall₂ Resembles body body' →
      Resembles (.whileLoop condition body) (.whileLoop condition' body')
  | returnValue {value value'} :
      Option.Rel (Fragment.Resembles L) value value' →
      Resembles (.returnValue value) (.returnValue value')
  | call {expression expression'} :
      expression.Resembles L expression' → Resembles (.call expression) (.call expression')
  | assign {target target' value value'} :
      target.Resembles L target' → value.Resembles L value' →
      Resembles (.assign target value) (.assign target' value')
  | localVariable (isFinal : Bool) {type type' name name' value value'} :
      type.Resembles L type' → name.Resembles L name' →
      Option.Rel (Fragment.Resembles L) value value' →
      Resembles (.localVariable isFinal type name value) (.localVariable isFinal type' name' value')
  | jump (jump : Jump) : Resembles (.jump jump) (.jump jump)
  | throwValue {expression expression'} :
      expression.Resembles L expression' →
      Resembles (.throwValue expression) (.throwValue expression')
  | method (access : Access) (isStatic isFinal : Bool) {documentation documentation' type type' name
        name' parameters parameters' throws throws' body body'} :
      L.documentation documentation documentation' →
      type.Resembles L type' → name.Resembles L name' →
      List.Forall₂ (Parameter.Resembles L) parameters parameters' →
      List.Forall₂ (Fragment.Resembles L) throws throws' →
      List.Forall₂ Resembles body body' →
      Resembles (.method documentation access isStatic isFinal type name parameters throws body)
        (.method documentation' access isStatic isFinal type' name' parameters' throws' body')
  | abstractMethod (access : Access) {documentation documentation' type type' name name' parameters
        parameters' throws throws'} :
      L.documentation documentation documentation' →
      type.Resembles L type' → name.Resembles L name' →
      List.Forall₂ (Parameter.Resembles L) parameters parameters' →
      List.Forall₂ (Fragment.Resembles L) throws throws' →
      Resembles (.abstractMethod documentation access type name parameters throws)
        (.abstractMethod documentation' access type' name' parameters' throws')
  | constructor (access : Access) {documentation documentation' parameters parameters' throws throws'
        delegate delegate' body body'} :
      L.documentation documentation documentation' →
      List.Forall₂ (Parameter.Resembles L) parameters parameters' →
      List.Forall₂ (Fragment.Resembles L) throws throws' →
      Option.Rel (Delegate.Resembles L) delegate delegate' →
      List.Forall₂ Resembles body body' →
      Resembles (.constructor documentation access parameters throws delegate body)
        (.constructor documentation' access parameters' throws' delegate' body')

/-! ## Warnings -/

/-- The texts of two modifiers are alike, and the same words stand in them. -/
structure Likeness.Modifier (s t : Text) : Prop where
  text : L.type s t
  word : ∀ word ∈ Token.modifierWords, s = word ↔ t = word

inductive Omission.Resembles : Omission → Omission → Prop
  | construct (name : String) : Resembles (.construct name) (.construct name)
  | label (jump : Jump) (name : Text) : Resembles (.label jump name) (.label jump name)
  | variableArity (name : Text) {type type' : Text} :
      L.type type type' → Resembles (.variableArity name type) (.variableArity name type')
  | modifier (owner : ModifierOwner) {text text' : Text} :
      L.Modifier text text' → Resembles (.modifier text owner) (.modifier text' owner)

structure Warning.Resembles (w v : Warning) : Prop where
  line : L.line w.line v.line
  omission : w.omission.Resembles L v.omission

structure Conversion.Resembles (x y : Conversion) : Prop where
  elements : List.Forall₂ (Element.Resembles L) x.elements y.elements
  warnings : List.Forall₂ (Warning.Resembles L) x.warnings y.warnings

/-! ## Equal texts -/

variable {L}

theorem Omission.Resembles.eq (htext : ∀ s t, L.type s t → s = t) {o o' : Omission}
    (h : o.Resembles L o') : o = o' := by
  cases h with
  | construct name => rfl
  | label jump name => rfl
  | variableArity name htype => rw [htext _ _ htype]
  | modifier owner hmodifier => rw [htext _ _ hmodifier.text]

theorem Warning.eq_map_of_resembles (htext : ∀ s t, L.type s t → s = t) {f : Nat → Nat}
    (hline : ∀ m n, L.line m n → f m = n) {ws vs : List Warning}
    (h : List.Forall₂ (Warning.Resembles L) ws vs) : vs = ws.map fun w => ⟨f w.line, w.omission⟩ := by
  induction h with
  | nil => rfl
  | @cons w v _ _ hw _ ih =>
      have hwv : v = ⟨f w.line, w.omission⟩ := by
        obtain ⟨line', omission'⟩ := v
        exact congrArg₂ Warning.mk (hline _ _ hw.line).symm (hw.omission.eq htext).symm
      rw [ih, hwv, List.map_cons]

theorem Warning.eq_of_resembles (htext : ∀ s t, L.type s t → s = t)
    (hline : ∀ m n, L.line m n → m = n) {ws vs : List Warning}
    (h : List.Forall₂ (Warning.Resembles L) ws vs) : ws = vs := by
  rw [eq_map_of_resembles htext hline h, List.map_id']

theorem Fragment.Resembles.eq (htype : ∀ s t, L.type s t → s = t) (htext : ∀ s t, L.text s t → s = t)
    {f g : Fragment} (h : f.Resembles L g) : f = g := by
  cases h with
  | type h => rw [htype _ _ h]
  | name t => rfl
  | expression h => rw [htext _ _ h]

theorem Parameter.Resembles.eq (htype : ∀ s t, L.type s t → s = t) (htext : ∀ s t, L.text s t → s = t)
    {p q : Parameter} (h : p.Resembles L q) : p = q := by
  obtain ⟨type, name⟩ := p
  obtain ⟨type', name'⟩ := q
  exact congrArg₂ Parameter.mk (h.type.eq htype htext) (h.name.eq htype htext)

theorem Delegate.Resembles.eq (htype : ∀ s t, L.type s t → s = t) (htext : ∀ s t, L.text s t → s = t)
    {d e : Delegate} (h : d.Resembles L e) : d = e := by
  obtain ⟨kind, arguments⟩ := d
  obtain ⟨kind', arguments'⟩ := e
  exact congrArg₂ Delegate.mk h.kind (h.arguments.eq htype htext)

theorem eq_of_forall₂ {α : Type} {R : α → α → Prop} (hR : ∀ x y, R x y → x = y) {xs ys : List α}
    (h : List.Forall₂ R xs ys) : xs = ys := by
  induction h with
  | nil => rfl
  | cons hxy _ ih => rw [hR _ _ hxy, ih]

theorem eq_of_optionRel {α : Type} {R : α → α → Prop} (hR : ∀ x y, R x y → x = y) {x y : Option α}
    (h : Option.Rel R x y) : x = y := by
  cases h with
  | none => rfl
  | some hxy => rw [hR _ _ hxy]

/-! ## Without documentation -/

mutual

/-- The element with no documentation, neither its own nor any in it. -/
def Element.undocumented : Element → Element
  | .ifChain condition first conditions blocks last =>
      .ifChain condition (undocumentedBlock first) conditions (undocumentedBlocks blocks)
        (undocumentedLast last)
  | .whileLoop condition body => .whileLoop condition (undocumentedBlock body)
  | .returnValue value => .returnValue value
  | .call expression => .call expression
  | .assign target value => .assign target value
  | .localVariable isFinal type name value => .localVariable isFinal type name value
  | .jump jump => .jump jump
  | .throwValue expression => .throwValue expression
  | .method _ access isStatic isFinal type name parameters throws body =>
      .method none access isStatic isFinal type name parameters throws (undocumentedBlock body)
  | .abstractMethod _ access type name parameters throws =>
      .abstractMethod none access type name parameters throws
  | .constructor _ access parameters throws delegate body =>
      .constructor none access parameters throws delegate (undocumentedBlock body)

def undocumentedBlock : Block → Block
  | [] => []
  | e :: es => e.undocumented :: undocumentedBlock es

def undocumentedBlocks : List Block → List Block
  | [] => []
  | b :: bs => undocumentedBlock b :: undocumentedBlocks bs

def undocumentedLast : Option Block → Option Block
  | none => none
  | some b => some (undocumentedBlock b)

end

@[simp] theorem undocumentedBlock_append (es fs : Block) :
    undocumentedBlock (es ++ fs) = undocumentedBlock es ++ undocumentedBlock fs := by
  induction es with
  | nil => rfl
  | cons e es ih => rw [List.cons_append, undocumentedBlock, undocumentedBlock, ih, List.cons_append]

section Undocumented

variable (htype : ∀ s t, L.type s t → s = t) (htext : ∀ s t, L.text s t → s = t)

include htype htext

mutual

/-- Elements with equal texts that resemble each other are the same but for the documentation. -/
theorem Element.Resembles.undocumented_eq :
    ∀ {e e' : Element}, e.Resembles L e' → e.undocumented = e'.undocumented
  | _, _, .ifChain condition first conditions blocks last => by
      have hconditions := eq_of_forall₂ (fun _ _ h => h.eq htype htext) conditions
      simp only [Element.undocumented, condition.eq htype htext, hconditions, undocumentedBlock_eq first,
        undocumentedBlocks_eq blocks, undocumentedLast_eq last]
  | _, _, .whileLoop condition body => by
      simp only [Element.undocumented, condition.eq htype htext, undocumentedBlock_eq body]
  | _, _, .returnValue value => by
      simp only [Element.undocumented, eq_of_optionRel (fun _ _ h => h.eq htype htext) value]
  | _, _, .call expression => by simp only [Element.undocumented, expression.eq htype htext]
  | _, _, .assign target value => by
      simp only [Element.undocumented, target.eq htype htext, value.eq htype htext]
  | _, _, .localVariable isFinal type name value => by
      have hvalue := eq_of_optionRel (fun _ _ h => h.eq htype htext) value
      simp only [Element.undocumented, type.eq htype htext, name.eq htype htext, hvalue]
  | _, _, .jump jump => rfl
  | _, _, .throwValue expression => by simp only [Element.undocumented, expression.eq htype htext]
  | _, _, .method access isStatic isFinal _ type name parameters throws body => by
      have hparameters := eq_of_forall₂ (fun _ _ h => h.eq htype htext) parameters
      have hthrows := eq_of_forall₂ (fun _ _ h => h.eq htype htext) throws
      simp only [Element.undocumented, type.eq htype htext, name.eq htype htext, hparameters, hthrows,
        undocumentedBlock_eq body]
  | _, _, .abstractMethod access _ type name parameters throws => by
      have hparameters := eq_of_forall₂ (fun _ _ h => h.eq htype htext) parameters
      have hthrows := eq_of_forall₂ (fun _ _ h => h.eq htype htext) throws
      simp only [Element.undocumented, type.eq htype htext, name.eq htype htext, hparameters, hthrows]
  | _, _, .constructor access _ parameters throws delegate body => by
      have hparameters := eq_of_forall₂ (fun _ _ h => h.eq htype htext) parameters
      have hthrows := eq_of_forall₂ (fun _ _ h => h.eq htype htext) throws
      have hdelegate := eq_of_optionRel (fun _ _ h => h.eq htype htext) delegate
      simp only [Element.undocumented, hparameters, hthrows, hdelegate, undocumentedBlock_eq body]

theorem undocumentedBlock_eq : ∀ {es es' : Block},
    List.Forall₂ (Element.Resembles L) es es' → undocumentedBlock es = undocumentedBlock es'
  | _, _, .nil => rfl
  | _, _, .cons h hs => by
      rw [undocumentedBlock, undocumentedBlock, h.undocumented_eq, undocumentedBlock_eq hs]

theorem undocumentedBlocks_eq : ∀ {bs bs' : List Block},
    List.Forall₂ (List.Forall₂ (Element.Resembles L)) bs bs' →
      undocumentedBlocks bs = undocumentedBlocks bs'
  | _, _, .nil => rfl
  | _, _, .cons h hs => by
      rw [undocumentedBlocks, undocumentedBlocks, undocumentedBlock_eq h, undocumentedBlocks_eq hs]

theorem undocumentedLast_eq : ∀ {b b' : Option Block},
    Option.Rel (List.Forall₂ (Element.Resembles L)) b b' → undocumentedLast b = undocumentedLast b'
  | _, _, .none => rfl
  | _, _, .some h => by rw [undocumentedLast, undocumentedLast, undocumentedBlock_eq h]

end

end Undocumented

end CodeFrames
