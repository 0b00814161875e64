import CodeFrames.Proofs.Rereading.Headers

/-!
# Expression trees

The trees of the expressions without lambdas.  There is a category for each place in which an
expression can stand, so that a tree is built as it can be written: what binds less than its place
allows is in parentheses there.  Operands and binary operators form any tree, since precedence plays no
role.

A tree is printed as its tokens with single spaces between them.  Its nesting is what it takes up of the
nesting levels.
-/

namespace CodeFrames

open Token Text

/-! ## Leaves -/

/-- The text of the token is split into the token alone. -/
def Token.IsSpelled (p : Token) : Prop := p.text.Spells [p]

namespace TypeName

/-- A qualified name whose last type argument list is left empty. -/
inductive Diamond : List Token → Prop
  | last {name less greater} : name.isName → less.isOperator ['<'] → greater.isOperator ['>'] →
      Diamond [name, less, greater]
  | more {name args dot ts} : name.isName → OptionalArguments args → dot.kind = .dot → Diamond ts →
      Diamond (name :: (args ++ dot :: ts))

/-- What can be created: a primitive type or a qualified name, with no array dimensions. -/
inductive Created : List Token → Prop
  | primitive {t} : t.isPrimitive → Created [t]
  | named {ts} : Qualified ts → Created ts
  | inferred {ts} : Diamond ts → Created ts

end TypeName

namespace Phrase

structure Name where
  token : Token
  spelled : token.IsSpelled
  isName : token.isName = true

structure Literal where
  token : Token
  spelled : token.IsSpelled
  isLiteral : (token.isLiteral || token.isWordIn ["true".toList, "false".toList, "null".toList]) = true

structure WholeType where
  tokens : List Token
  spelled : ∀ p ∈ tokens, p.IsSpelled
  whole : TypeName.Whole (tokens.flatMap angles)

/-- The type starts with the word for a primitive one. -/
def WholeType.IsPrimitive (type : WholeType) : Prop := ∀ p ∈ type.tokens.head?, p.isPrimitive = true

structure CreatedType where
  tokens : List Token
  spelled : ∀ p ∈ tokens, p.IsSpelled
  created : TypeName.Created (tokens.flatMap angles)

def signs : List Text := ["+", "-", "++", "--"].map String.toList

def inversions : List Text := ["!", "~"].map String.toList

/-- The operators that can stand behind a type test. -/
def logicalOperators : List Text := ["&&", "||"].map String.toList

/-! ## Trees -/

inductive Category where
  | assignment
  | conditional
  /-- Operands and binary operators; `tested` if a type test stands last. -/
  | operation (tested : Bool)
  | unary
  /-- A unary expression with neither a sign nor a step in front, so that a cast can stand there. -/
  | unsigned
  /-- An operand with what is selected from it; `array` if it is a created array, perhaps with indexes
  behind it. -/
  | operand (array : Bool)
  | arguments
  /-- One or more arguments with commas between them. -/
  | values
  deriving DecidableEq, Repr

end Phrase

open Phrase in
inductive Phrase : Category → Type
  | value : Phrase .conditional → Phrase .assignment
  | assigned (operator : Text) : operator ∈ assignmentOperators → Phrase .conditional →
      Phrase .assignment → Phrase .assignment
  | operation {tested} : Phrase (.operation tested) → Phrase .conditional
  | chosen {tested} : Phrase (.operation tested) → Phrase .assignment → Phrase .conditional →
      Phrase .conditional
  | single : Phrase .unary → Phrase (.operation false)
  | joined {tested tested'} (operator : Text) : operator ∈ binaryOperators →
      (tested = true → operator ∈ logicalOperators) → Phrase (.operation tested) →
      Phrase (.operation tested') → Phrase (.operation tested')
  | tested : Phrase (.operation false) → WholeType → Phrase (.operation true)
  | signed (operator : Text) : operator ∈ signs → Phrase .unary → Phrase .unary
  | unsigned : Phrase .unsigned → Phrase .unary
  | inverted (operator : Text) : operator ∈ inversions → Phrase .unary → Phrase .unsigned
  | primitiveCast (type : WholeType) : type.IsPrimitive → Phrase .unary → Phrase .unsigned
  | cast : WholeType → Phrase .unsigned → Phrase .unsigned
  | operand {array} : Phrase (.operand array) → Phrase .unsigned
  | literal : Literal → Phrase (.operand false)
  | name : Name → Phrase (.operand false)
  | this : Phrase (.operand false)
  | call : Name → Phrase .arguments → Phrase (.operand false)
  | parenthesized : Phrase .assignment → Phrase (.operand false)
  | object : CreatedType → Phrase .arguments → Phrase (.operand false)
  /-- A created array with the size of its first dimension. -/
  | array : CreatedType → Phrase .assignment → Phrase (.operand true)
  | openArray : CreatedType → Phrase (.operand true)
  /-- A further dimension without a size; one with a size is an index. -/
  | dimension : Phrase (.operand true) → Phrase (.operand true)
  | index {array} : Phrase (.operand array) → Phrase .assignment → Phrase (.operand array)
  | field {array} : Phrase (.operand array) → Name → Phrase (.operand false)
  | method {array} : Phrase (.operand array) → Name → Phrase .arguments → Phrase (.operand false)
  | stepped {array} (operator : Text) : operator ∈ stepOperators → Phrase (.operand array) →
      Phrase (.operand false)
  | noArguments : Phrase .arguments
  | given : Phrase .values → Phrase .arguments
  | last : Phrase .assignment → Phrase .values
  | more : Phrase .assignment → Phrase .values → Phrase .values

namespace Phrase

def openParen : Token := symbol .openParen ['(']

def closeParen : Token := symbol .closeParen [')']

def openBracket : Token := symbol .openBracket ['[']

def closeBracket : Token := symbol .closeBracket [']']

def dot : Token := symbol .dot ['.']

def comma : Token := symbol .comma [',']

variable {s : Category}

def tokens : {s : Category} → Phrase s → List Token
  | _, .value e => e.tokens
  | _, .assigned operator _ target e => target.tokens ++ symbol .operator operator :: e.tokens
  | _, .operation e => e.tokens
  | _, .chosen condition yes no =>
      condition.tokens ++ symbol .operator ['?'] :: (yes.tokens ++ symbol .operator [':'] :: no.tokens)
  | _, .single e => e.tokens
  | _, .joined operator _ _ left right => left.tokens ++ symbol .operator operator :: right.tokens
  | _, .tested e type => e.tokens ++ symbol .word "instanceof".toList :: type.tokens
  | _, .signed operator _ e => symbol .operator operator :: e.tokens
  | _, .unsigned e => e.tokens
  | _, .inverted operator _ e => symbol .operator operator :: e.tokens
  | _, .primitiveCast type _ e => openParen :: (type.tokens ++ closeParen :: e.tokens)
  | _, .cast type e => openParen :: (type.tokens ++ closeParen :: e.tokens)
  | _, .operand e => e.tokens
  | _, .literal l => [l.token]
  | _, .name n => [n.token]
  | _, .this => [symbol .word "this".toList]
  | _, .call n arguments => n.token :: arguments.tokens
  | _, .parenthesized e => openParen :: (e.tokens ++ [closeParen])
  | _, .object type arguments => symbol .word "new".toList :: (type.tokens ++ arguments.tokens)
  | _, .array type size =>
      symbol .word "new".toList :: (type.tokens ++ openBracket :: (size.tokens ++ [closeBracket]))
  | _, .openArray type => symbol .word "new".toList :: (type.tokens ++ [openBracket, closeBracket])
  | _, .dimension e => e.tokens ++ [openBracket, closeBracket]
  | _, .index e i => e.tokens ++ openBracket :: (i.tokens ++ [closeBracket])
  | _, .field e n => e.tokens ++ [dot, n.token]
  | _, .method e n arguments => e.tokens ++ dot :: n.token :: arguments.tokens
  | _, .stepped operator _ e => e.tokens ++ [symbol .operator operator]
  | _, .noArguments => [openParen, closeParen]
  | _, .given values => openParen :: (values.tokens ++ [closeParen])
  | _, .last e => e.tokens
  | _, .more e others => e.tokens ++ comma :: others.tokens

/-- The tokens of the tree with single spaces between them. -/
def text (e : Phrase s) : Text := join [' '] (e.tokens.map Token.text)

/-- The nesting levels that the tree takes up: one for each expression in parentheses or brackets or in
an argument list, and one for the branches of each conditional. -/
def nesting : {s : Category} → Phrase s → Nat
  | _, .value e => e.nesting
  | _, .assigned _ _ target e => max target.nesting e.nesting
  | _, .operation e => e.nesting
  | _, .chosen condition yes no => max condition.nesting (max yes.nesting no.nesting + 1)
  | _, .single e => e.nesting
  | _, .joined _ _ _ left right => max left.nesting right.nesting
  | _, .tested e _ => e.nesting
  | _, .signed _ _ e => e.nesting
  | _, .unsigned e => e.nesting
  | _, .inverted _ _ e => e.nesting
  | _, .primitiveCast _ _ e => e.nesting
  | _, .cast _ e => e.nesting
  | _, .operand e => e.nesting
  | _, .literal _ => 0
  | _, .name _ => 0
  | _, .this => 0
  | _, .call _ arguments => arguments.nesting
  | _, .parenthesized e => e.nesting + 1
  | _, .object _ arguments => arguments.nesting
  | _, .array _ size => size.nesting + 1
  | _, .openArray _ => 0
  | _, .dimension e => e.nesting
  | _, .index e i => max e.nesting (i.nesting + 1)
  | _, .field e _ => e.nesting
  | _, .method e _ arguments => max e.nesting arguments.nesting
  | _, .stepped _ _ e => e.nesting
  | _, .noArguments => 0
  | _, .given values => values.nesting
  | _, .last e => e.nesting + 1
  | _, .more e others => max (e.nesting + 1) others.nesting

/-- An operation fits where both its sides do. -/
theorem nesting_joined_le {tested tested' : Bool} {operator : Text} (hop : operator ∈ binaryOperators)
    (htested : tested = true → operator ∈ logicalOperators) (left : Phrase (.operation tested))
    (right : Phrase (.operation tested')) (levels : Nat) :
    (joined operator hop htested left right).nesting ≤ levels ↔
      left.nesting ≤ levels ∧ right.nesting ≤ levels := by
  rw [nesting, Nat.max_le]

end Phrase

/-! ## The printed text -/

namespace Text

theorem spells_join {ps : List Token} (h : ∀ p ∈ ps, p.IsSpelled) :
    (join [' '] (ps.map Token.text)).Spells ps := by
  refine spells_iff.mpr ⟨?_, fun p hp => (spells_iff.mp (h p hp)).2 p List.mem_cons_self⟩
  induction ps with
  | nil => rfl
  | cons p ps ih =>
      obtain ⟨hp, hps⟩ := List.forall_mem_cons.mp h
      cases ps with
      | nil => exact hp.symbols_eq
      | cons q ps =>
          rw [List.map_cons, List.map_cons, join_cons_cons, List.append_assoc, List.singleton_append,
            (hp.splits (isApart_cons (by decide) _)).symbols_eq, symbols_blank]
          exact congrArg (p :: ·) (ih hps)

theorem tight_join {ps : List Token} (h : ∀ p ∈ ps, p.IsSpelled) :
    (join [' '] (ps.map Token.text)).IsTight := by
  induction ps with
  | nil => simp [join, IsTight]
  | cons p ps ih =>
      obtain ⟨hp, hps⟩ := List.forall_mem_cons.mp h
      obtain ⟨hne, hfirst, hlast⟩ := tight_of_spells hp List.mem_cons_self
      cases ps with
      | nil => exact ⟨hfirst, hlast⟩
      | cons q ps =>
          obtain ⟨hne', -⟩ := tight_of_spells (hps q List.mem_cons_self) List.mem_cons_self
          obtain ⟨v, hv⟩ := Reading.exists_join_cons [' '] q.text (ps.map Token.text)
          have hrest : join [' '] ((q :: ps).map Token.text) ≠ [] := by simp [hv, hne']
          rw [List.map_cons, List.map_cons, join_cons_cons, ← List.map_cons, List.append_assoc]
          refine ⟨?_, ?_⟩
          · rwa [List.head?_append_of_ne_nil _ hne]
          · rw [List.getLast?_append_of_ne_nil _ (by simp), List.getLast?_append_of_ne_nil _ hrest]
            exact (ih hps).2

end Text

namespace Token

theorem isSpelled_symbol {kind : Kind} {w : Text}
    (h : symbols w = [symbol kind w, symbol .endOfInput []]) (hkind : kind ≠ .comment) :
    (symbol kind w).IsSpelled :=
  spells_iff.mpr ⟨h, by simpa [symbol] using hkind⟩

theorem isSpelled_operator {ops : List Text} {op : Text} (hop : op ∈ ops)
    (h : ∀ op ∈ ops, symbols op = [symbol .operator op, symbol .endOfInput []]) :
    (symbol .operator op).IsSpelled :=
  isSpelled_symbol (h op hop) (by decide)

end Token

namespace Phrase

variable {s : Category}

theorem spelled_mark {c : Char} {kind : Kind} (h : (c, kind) ∈ marks) : (symbol kind [c]).IsSpelled := by
  have hall : ∀ m ∈ marks, m.2 ≠ .comment := by decide
  exact isSpelled_symbol (symbols_mark h []) (hall _ h)

theorem spelled (e : Phrase s) : ∀ p ∈ e.tokens, p.IsSpelled := by
  have hparens : openParen.IsSpelled ∧ closeParen.IsSpelled :=
    ⟨spelled_mark (by decide), spelled_mark (by decide)⟩
  have hbrackets : openBracket.IsSpelled ∧ closeBracket.IsSpelled :=
    ⟨spelled_mark (by decide), spelled_mark (by decide)⟩
  have hcomma : comma.IsSpelled := spelled_mark (by decide)
  have hdot : dot.IsSpelled := isSpelled_symbol (by decide) (by decide)
  have hword (w : Text) (hw : symbols w = [symbol .word w, symbol .endOfInput []]) :
      (symbol .word w).IsSpelled := isSpelled_symbol hw (by decide)
  have hconditional : (symbol .operator ['?']).IsSpelled ∧ (symbol .operator [':']).IsSpelled :=
    ⟨isSpelled_symbol (by decide) (by decide), isSpelled_symbol (by decide) (by decide)⟩
  induction e with
  | literal l => simpa [tokens] using l.spelled
  | name n => simpa [tokens] using n.spelled
  | call n _ ih => simpa [tokens] using ⟨n.spelled, ih⟩
  | field _ n ih => simpa [tokens, hdot, or_imp, forall_and] using ⟨ih, n.spelled⟩
  | method _ n _ ih ih' => simpa [tokens, hdot, or_imp, forall_and] using ⟨ih, n.spelled, ih'⟩
  | tested _ type ih => simpa [tokens, or_imp, forall_and] using ⟨ih, hword _ (by decide), type.spelled⟩
  | primitiveCast type _ _ ih | cast type _ ih =>
      simpa [tokens, hparens, or_imp, forall_and] using ⟨type.spelled, ih⟩
  | object type _ ih => simpa [tokens, or_imp, forall_and] using ⟨hword _ (by decide), type.spelled, ih⟩
  | array type _ ih =>
      simpa [tokens, hbrackets, or_imp, forall_and] using ⟨hword _ (by decide), type.spelled, ih⟩
  | openArray type =>
      simpa [tokens, hbrackets, or_imp, forall_and] using ⟨hword _ (by decide), type.spelled⟩
  | assigned _ hop _ _ ih ih' =>
      simpa [tokens, or_imp, forall_and, isSpelled_operator hop (by decide)] using ⟨ih, ih'⟩
  | joined _ hop _ _ _ ih ih' =>
      simpa [tokens, or_imp, forall_and, isSpelled_operator hop (by decide)] using ⟨ih, ih'⟩
  | signed _ hop _ ih => simpa [tokens, or_imp, forall_and, isSpelled_operator hop (by decide)] using ih
  | inverted _ hop _ ih => simpa [tokens, or_imp, forall_and, isSpelled_operator hop (by decide)] using ih
  | stepped _ hop _ ih => simpa [tokens, or_imp, forall_and, isSpelled_operator hop (by decide)] using ih
  | value _ ih | operation _ ih | single _ ih | unsigned _ ih | operand _ ih | last _ ih => exact ih
  | chosen _ _ _ ih ih' ih'' => simpa [tokens, hconditional, or_imp, forall_and] using ⟨ih, ih', ih''⟩
  | this => simpa [tokens] using hword _ (by decide)
  | parenthesized _ ih | given _ ih => simpa [tokens, hparens, or_imp, forall_and] using ih
  | dimension _ ih => simpa [tokens, hbrackets, or_imp, forall_and] using ih
  | index _ _ ih ih' => simpa [tokens, hbrackets, or_imp, forall_and] using ⟨ih, ih'⟩
  | noArguments => simpa [tokens] using hparens
  | more _ _ ih ih' => simpa [tokens, hcomma, or_imp, forall_and] using ⟨ih, ih'⟩

theorem spells_text (e : Phrase s) : e.text.Spells e.tokens := spells_join e.spelled

theorem tight_text (e : Phrase s) : e.text.IsTight := tight_join e.spelled

/-! ## The first token -/

/-- A phrase of the category can start with a sign or a step. -/
def Category.isSigned : Category → Bool
  | .unsigned | .operand _ | .arguments => false
  | _ => true

theorem startsCastOperand_mono {p : Token} {primitive : Bool} (h : p.startsCastOperand false = true) :
    p.startsCastOperand primitive = true := by
  simp only [startsCastOperand, Bool.false_and, Bool.or_false] at h
  simp only [startsCastOperand, h, Bool.true_or]

theorem startsCastOperand_word {w : Text} (h : w ∈ operandKeywords) :
    (symbol .word w).startsCastOperand false = true := by
  have hall : ∀ w ∈ operandKeywords, (symbol .word w).startsCastOperand false = true := by decide
  exact hall w h

/-- A phrase starts where the operand of a cast can start. -/
theorem exists_first (e : Phrase s) :
    ∃ p ps, e.tokens = p :: ps ∧ p.startsCastOperand s.isSigned = true := by
  have hmore {ps qs : List Token} {signed : Bool}
      (h : ∃ p rest, ps = p :: rest ∧ p.startsCastOperand false = true) :
      ∃ p rest, ps ++ qs = p :: rest ∧ p.startsCastOperand signed = true := by
    obtain ⟨p, rest, rfl, hp⟩ := h
    exact ⟨p, rest ++ qs, rfl, startsCastOperand_mono hp⟩
  have hsigned {ps qs : List Token}
      (h : ∃ p rest, ps = p :: rest ∧ p.startsCastOperand true = true) :
      ∃ p rest, ps ++ qs = p :: rest ∧ p.startsCastOperand true = true := by
    obtain ⟨p, rest, rfl, hp⟩ := h
    exact ⟨p, rest ++ qs, rfl, hp⟩
  have hname (n : Name) : n.token.startsCastOperand false = true := by
    simp [startsCastOperand, n.isName]
  induction e with
  | value _ ih | operation _ ih | single _ ih | last _ ih => exact ih
  | assigned _ _ _ _ ih | chosen _ _ _ ih | joined _ _ _ _ _ ih | tested _ _ ih | more _ _ ih => exact hsigned ih
  | unsigned _ ih =>
      obtain ⟨p, ps, hps, hp⟩ := ih
      exact ⟨p, ps, hps, startsCastOperand_mono hp⟩
  | operand _ ih => exact ih
  | signed op hop _ _ =>
      have hall : ∀ op ∈ signs, (symbol .operator op).startsCastOperand true = true := by decide
      exact ⟨_, _, rfl, hall op hop⟩
  | inverted op hop _ _ =>
      have hall : ∀ op ∈ inversions, (symbol .operator op).startsCastOperand false = true := by decide
      exact ⟨_, _, rfl, hall op hop⟩
  | primitiveCast | cast | parenthesized | noArguments | given => exact ⟨_, _, rfl, rfl⟩
  | literal l =>
      refine ⟨_, _, rfl, ?_⟩
      rcases Bool.or_eq_true_iff.mp l.isLiteral with h | h
      · simp [startsCastOperand, h]
      · have hword : l.token.isWordIn operandKeywords = true := by
          simp only [isWordIn, Bool.and_eq_true, List.contains_eq_mem, decide_eq_true_eq] at h ⊢
          refine ⟨h.1, ?_⟩
          have hall : ∀ w ∈ ["true".toList, "false".toList, "null".toList], w ∈ operandKeywords := by decide
          exact hall _ h.2
        simp [startsCastOperand, hword]
  | name n => exact ⟨_, _, rfl, hname n⟩
  | call n => exact ⟨_, _, rfl, hname n⟩
  | this => exact ⟨_, _, rfl, startsCastOperand_word (by decide)⟩
  | object | array | openArray => exact ⟨_, _, rfl, startsCastOperand_word (by decide)⟩
  | dimension _ ih => exact hmore ih
  | index _ _ ih => exact hmore ih
  | field _ _ ih => exact hmore ih
  | method _ _ _ ih => exact hmore ih
  | stepped _ _ _ ih => exact hmore ih

end Phrase

end CodeFrames
