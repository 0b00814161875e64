import CodeFrames.Proofs.ExpressionTexts

/-!
# Printing elements

The source text of elements, with braces around every body, a semicolon behind every simple statement
and single spaces.  An element that is printed is built from texts of the right kind: names, types,
expressions, calls and targets of assignments.
-/

namespace CodeFrames

open Token Text

/-! ## Sources of elements -/

namespace Print

def parameter (p : Parameter) : Text := p.type.text ++ ' ' :: p.name.text

def parameters (ps : List Parameter) : Text :=
  '(' :: (Text.join ", ".toList (ps.map parameter) ++ [')'])

def throwsClause : List Fragment → Text
  | [] => []
  | types => ' ' :: ("throws".toList ++ ' ' :: Text.join ", ".toList (types.map Fragment.text))

/-- Modifiers, each with a space behind it. -/
def modifiers (words : List Text) : Text := words.flatMap (· ++ [' '])

def flag (set : Bool) (word : String) : List Text := if set then [word.toList] else []

def value : Option Fragment → Text
  | none => []
  | some value => ' ' :: '=' :: ' ' :: value.text

def delegate : Option Delegate → Text
  | none => []
  | some d => ' ' :: (d.kind.keyword.toList ++ '(' :: (d.arguments.text ++ [')', ';']))

variable (constructorName : Text)

mutual

def element : Element → Text
  | .ifChain condition thenBlock conditions blocks elseBlock =>
      "if".toList ++ ' ' :: '(' :: (condition.text ++ ')' :: (block thenBlock ++
        (branches conditions blocks ++ otherwise elseBlock)))
  | .whileLoop condition body =>
      "while".toList ++ ' ' :: '(' :: (condition.text ++ ')' :: block body)
  | .returnValue none => "return".toList ++ [';']
  | .returnValue (some value) => "return".toList ++ ' ' :: (value.text ++ [';'])
  | .call expression => expression.text ++ [';']
  | .assign target value => target.text ++ ' ' :: '=' :: ' ' :: (value.text ++ [';'])
  | .localVariable isFinal type name initial =>
      modifiers (flag isFinal "final") ++ (type.text ++ ' ' :: (name.text ++ (value initial ++ [';'])))
  | .jump jump => jump.keyword.toList ++ [';']
  | .throwValue expression => "throw".toList ++ ' ' :: (expression.text ++ [';'])
  | .method _ access isStatic isFinal returnType name ps throws body =>
      modifiers (access.keyword.toList :: (flag isStatic "static" ++ flag isFinal "final")) ++
        (returnType.text ++ ' ' :: (name.text ++ (parameters ps ++ (throwsClause throws ++ block body))))
  | .abstractMethod _ access returnType name ps throws =>
      modifiers [access.keyword.toList, "abstract".toList] ++
        (returnType.text ++ ' ' :: (name.text ++ (parameters ps ++ (throwsClause throws ++ [';']))))
  | .constructor _ access ps throws call body =>
      modifiers [access.keyword.toList] ++ (constructorName ++ (parameters ps ++
        (throwsClause throws ++ ' ' :: '{' :: (delegate call ++ (items body ++ [' ', '}'])))))

/-- A body in braces, with a space in front of it. -/
def block (body : List Element) : Text := ' ' :: '{' :: (items body ++ [' ', '}'])

/-- Elements with a space in front of each. -/
def items : List Element → Text
  | [] => []
  | e :: es => ' ' :: (element e ++ items es)

def branches : List Fragment → List (List Element) → Text
  | condition :: conditions, body :: bodies =>
      ' ' :: ("else".toList ++ ' ' :: ("if".toList ++ ' ' :: '(' :: (condition.text ++
        ')' :: (block body ++ branches conditions bodies))))
  | _, _ => []

def otherwise : Option (List Element) → Text
  | none => []
  | some body => ' ' :: ("else".toList ++ block body)

end

end Print

/-- The source of some elements, with a space between each two. -/
def printed (constructorName : Text) (elements : Block) : Text :=
  Text.join [' '] (elements.map (Print.element constructorName))

/-! ## Texts of calls and targets -/

namespace Plain

/-- Names joined by dots. -/
inductive DottedName : List Token → Prop
  | last {name} : name.isIdentifier → DottedName [name]
  | more {name dot ps} : name.isIdentifier → dot.kind = .dot → DottedName ps →
      DottedName (name :: dot :: ps)

section

variable (options : Options)

/-- One or more expressions with commas between them. -/
inductive Listed : List Token → Prop
  | last {e ps} : Text.IsExpression options e → e.Spells ps → Listed ps
  | more {e ps comma rest} : Text.IsExpression options e → e.Spells ps → comma.kind = .comma →
      Listed rest → Listed (ps ++ comma :: rest)

/-- Expressions in brackets. -/
inductive Indexes : List Token → Prop
  | nothing : Indexes []
  | more {opening e ps closing rest} : opening.kind = .openBracket → Text.IsExpression options e →
      e.Spells ps → closing.kind = .closeBracket → Indexes rest →
      Indexes (opening :: (ps ++ closing :: rest))

/-- A dotted name and an argument list. -/
inductive CallTokens : List Token → Prop
  | call {names opening arguments closing} : DottedName names → opening.kind = .openParen →
      (arguments = [] ∨ Listed options arguments) → closing.kind = .closeParen →
      CallTokens (names ++ opening :: (arguments ++ [closing]))

/-- A dotted name, perhaps with indexes. -/
inductive TargetTokens : List Token → Prop
  | target {names indexes} : DottedName names → Indexes options indexes →
      TargetTokens (names ++ indexes)

def IsCall (t : Text) : Prop := t.IsTight ∧ ∃ ps, t.Spells ps ∧ CallTokens options ps

def IsTarget (t : Text) : Prop := t.IsTight ∧ ∃ ps, t.Spells ps ∧ TargetTokens options ps

/-! ## Elements that are built from such texts -/

def IsParameter (p : Parameter) : Prop :=
  ∃ type name, p = ⟨.type type, .name name⟩ ∧ type.IsType ∧ name.IsIdentifier

/-- The types of a throws clause. -/
def AreTypes (throws : List Fragment) : Prop := ∀ f ∈ throws, ∃ t, f = .type t ∧ t.IsType

def IsDelegate (d : Delegate) : Prop :=
  ∃ es, d.arguments = .expression (Text.join [','] es) ∧ ∀ e ∈ es, e.IsExpression options

variable (everywhere : Bool)

mutual
/-- A statement without documentation whose texts are of the right kinds.  The declarations in it,
where `everywhere` allows them, are as well. -/
inductive Statement : Element → Prop
  | ifChain {condition thenBlock conditions blocks elseBlock} : condition.IsExpression options →
      Elements everywhere thenBlock → Branches conditions blocks → Otherwise elseBlock →
      Statement (.ifChain (.expression condition) thenBlock conditions blocks elseBlock)
  | whileLoop {condition body} : condition.IsExpression options → Elements everywhere body →
      Statement (.whileLoop (.expression condition) body)
  | returned : Statement (.returnValue none)
  | returnedValue {value} : value.IsExpression options →
      Statement (.returnValue (some (.expression value)))
  | call {t} : IsCall options t → Statement (.call (.expression t))
  | assign {target value} : IsTarget options target → value.IsExpression options →
      Statement (.assign (.expression target) (.expression value))
  | localVariable {type name} (isFinal : Bool) : type.IsType → name.IsIdentifier →
      Statement (.localVariable isFinal (.type type) (.name name) none)
  | initialized {type name value} (isFinal : Bool) : type.IsType → name.IsIdentifier →
      value.IsExpression options →
      Statement (.localVariable isFinal (.type type) (.name name) (some (.expression value)))
  | jump (jump : Jump) : Statement (.jump jump)
  | thrown {value} : value.IsExpression options → Statement (.throwValue (.expression value))
/-- Elements in a row.  There are declarations among them only where these may stand. -/
inductive Elements : Bool → Block → Prop
  | nil {here} : Elements here []
  | statement {here e es} : Statement e → Elements here es → Elements here (e :: es)
  | method {type name ps throws body es} (access : Access) (isStatic isFinal : Bool) : type.IsType →
      name.IsIdentifier → (∀ p ∈ ps, IsParameter p) → AreTypes throws →
      Elements everywhere body → Elements true es →
      Elements true (.method none access isStatic isFinal (.type type) (.name name) ps throws body :: es)
  | abstractMethod {type name ps throws es} (access : Access) : type.IsType → name.IsIdentifier →
      (∀ p ∈ ps, IsParameter p) → AreTypes throws → Elements true es →
      Elements true (.abstractMethod none access (.type type) (.name name) ps throws :: es)
  | constructor {ps throws delegate body es} (access : Access) : (∀ p ∈ ps, IsParameter p) →
      AreTypes throws → (∀ d ∈ delegate, IsDelegate options d) → Elements everywhere body →
      Elements true es → Elements true (.constructor none access ps throws delegate body :: es)
/-- Conditions and blocks in pairs. -/
inductive Branches : List Fragment → List Block → Prop
  | nothing : Branches [] []
  | elseIf {condition block conditions blocks} : condition.IsExpression options →
      Elements everywhere block → Branches conditions blocks →
      Branches (.expression condition :: conditions) (block :: blocks)
inductive Otherwise : Option Block → Prop
  | nothing : Otherwise none
  | otherwise {block} : Elements everywhere block → Otherwise (some block)
end

end

end Plain

/-! ## The tokens of a source -/

namespace Text

theorem join_cons_cons (separator t t' : Text) (ts : List Text) :
    Text.join separator (t :: t' :: ts) = t ++ separator ++ Text.join separator (t' :: ts) := rfl

/-- The text `u'` is split into some tokens, none of them a comment, and then into those of `u`. -/
def Extends (u' u : Text) : Prop :=
  ∃ ps, (∀ p ∈ ps, p.kind ≠ .comment) ∧ symbols u' = ps ++ symbols u

namespace Extends

variable {t u v w : Text}

theorem refl (u : Text) : Extends u u := ⟨[], by simp, rfl⟩

theorem trans (h : Extends u v) (g : Extends v w) : Extends u w := by
  obtain ⟨ps, hps, hu⟩ := h
  obtain ⟨qs, hqs, hv⟩ := g
  refine ⟨ps ++ qs, ?_, by rw [hu, hv, List.append_assoc]⟩
  intro p hp
  rcases List.mem_append.mp hp with hp | hp
  · exact hps p hp
  · exact hqs p hp

theorem blank (h : Extends u v) : Extends (' ' :: u) v := h

theorem mark {c : Char} {kind : Kind} (hmark : (c, kind) ∈ marks) (h : Extends u v) :
    Extends (c :: u) v := by
  refine trans ⟨[symbol kind [c]], ?_, symbols_mark hmark u⟩ h
  have hall : ∀ m ∈ marks, m.2 ≠ .comment := by decide
  simpa [symbol] using hall _ hmark

theorem spelled (ht : ∃ ps, t.Spells ps) (hu : IsApart u) (h : Extends u v) :
    Extends (t ++ u) v := by
  obtain ⟨ps, hps⟩ := ht
  exact trans ⟨ps, (spells_iff.mp hps).2, (hps.splits hu).symbols_eq⟩ h

theorem join {separator : Text} {ts : List Text}
    (hseparator : ∀ {u}, Extends u v → Extends (separator ++ u) v)
    (hapart : ∀ u, IsApart (separator ++ u))
    (hts : ∀ t ∈ ts, ∀ u, IsApart u → Extends u v → Extends (t ++ u) v) (hu : IsApart u)
    (h : Extends u v) : Extends (Text.join separator ts ++ u) v := by
  induction ts with
  | nil => exact h
  | cons t ts ih =>
      have ht := hts t List.mem_cons_self
      have hrest := ih fun t ht => hts t (List.mem_cons_of_mem _ ht)
      cases ts with
      | nil => exact ht u hu h
      | cons t' ts =>
          rw [join_cons_cons, List.append_assoc, List.append_assoc]
          exact ht _ (hapart _) (hseparator hrest)

end Extends

/-- The text `u'` is split into some tokens, the last of them a mark, and then into those of `u`. -/
def Closes (u' u : Text) : Prop := ∃ c kind, (c, kind) ∈ marks ∧ Extends u' (c :: u)

theorem Closes.trans {u v w : Text} (h : Closes u v) (g : v = w ∨ Closes v w) : Closes u w := by
  obtain ⟨c, kind, hmark, hu⟩ := h
  rcases g with rfl | ⟨d, kind', hmark', hv⟩
  · exact ⟨c, kind, hmark, hu⟩
  · exact ⟨d, kind', hmark', hu.trans (.mark hmark hv)⟩

end Text

namespace Print

open Plain

variable {options : Options} {everywhere : Bool} {name : Text}

theorem extends_word {w u v : Text} (hw : symbols w = [symbol .word w, symbol .endOfInput []])
    (hu : IsApart u) (h : Extends u v) : Extends (w ++ u) v :=
  Extends.spelled ⟨[symbol .word w], spells_iff.mpr ⟨hw, by simp [symbol]⟩⟩ hu h

theorem isApart_block (name : Text) (body : Block) (u : Text) : IsApart (block name body ++ u) := by
  rw [block]
  exact isApart_cons (by decide) _

theorem extends_items {body : Block} (h : ∀ e ∈ body, ∀ u, Closes (element name e ++ u) u) (u : Text) :
    Closes (items name body ++ ([' ', '}'] ++ u)) u := by
  refine ⟨'}', .closeBrace, by decide, ?_⟩
  induction body with
  | nil =>
      rw [items]
      exact (Extends.refl ('}' :: u)).blank
  | cons e body ih =>
      obtain ⟨c, kind, hmark, helement⟩ := h e List.mem_cons_self
        (items name body ++ ([' ', '}'] ++ u))
      rw [items, List.cons_append, List.append_assoc]
      exact helement.trans (.mark hmark (ih fun e he => h e (List.mem_cons_of_mem _ he)))

theorem extends_block {body : Block} (h : ∀ e ∈ body, ∀ u, Closes (element name e ++ u) u) (u : Text) :
    Closes (block name body ++ u) u := by
  obtain ⟨c, kind, hmark, hitems⟩ := extends_items h u
  refine ⟨c, kind, hmark, ?_⟩
  rw [block, List.cons_append, List.cons_append, List.append_assoc]
  exact .blank (@Extends.mark _ _ '{' .openBrace (by decide) hitems)

theorem extends_parameter {p : Parameter} (hp : IsParameter p) {u v : Text} (hu : IsApart u)
    (h : Extends u v) : Extends (parameter p ++ u) v := by
  obtain ⟨type, name, rfl, ⟨-, ps, htype, -⟩, hname⟩ := hp
  rw [parameter, List.append_assoc]
  exact .spelled ⟨ps, htype⟩ (isApart_cons (by decide) _) (.blank (.spelled ⟨_, hname.spells⟩ hu h))

theorem extends_commas {ts : List Text} {u v : Text}
    (hts : ∀ t ∈ ts, ∀ u, IsApart u → Extends u v → Extends (t ++ u) v) (hu : IsApart u)
    (h : Extends u v) : Extends (Text.join ", ".toList ts ++ u) v :=
  .join (fun hu => @Extends.mark _ _ ',' .comma (by decide) (.blank hu))
    (fun _ => isApart_cons (by decide) _) hts hu h

theorem extends_parameters {ps : List Parameter} (hps : ∀ p ∈ ps, IsParameter p) {u v : Text}
    (h : Extends u v) : Extends (parameters ps ++ u) v := by
  rw [parameters, List.cons_append, List.append_assoc]
  refine @Extends.mark _ _ '(' .openParen (by decide) (extends_commas ?_ (isApart_cons (by decide) _)
    (@Extends.mark _ _ ')' .closeParen (by decide) h))
  intro t ht u hu hmore
  obtain ⟨p, hp, rfl⟩ := List.mem_map.mp ht
  exact extends_parameter (hps p hp) hu hmore

theorem throwsClause_cons (f : Fragment) (throws : List Fragment) :
    throwsClause (f :: throws) = ' ' :: ("throws".toList ++ ' ' ::
      Text.join ", ".toList ((f :: throws).map Fragment.text)) := rfl

theorem extends_throwsClause {throws : List Fragment} (hthrows : AreTypes throws) {u v : Text}
    (hu : IsApart u) (h : Extends u v) : Extends (throwsClause throws ++ u) v := by
  cases throws with
  | nil => exact h
  | cons f throws =>
      rw [throwsClause_cons, List.cons_append, List.append_assoc, List.cons_append]
      refine .blank (extends_word (by decide) (isApart_cons (by decide) _) (.blank
        (extends_commas ?_ hu h)))
      intro t ht u hu hmore
      obtain ⟨f, hf, rfl⟩ := List.mem_map.mp ht
      obtain ⟨t, rfl, -, ps, hps, -⟩ := hthrows f hf
      exact .spelled ⟨ps, hps⟩ hu hmore

theorem extends_modifiers {words : List Text}
    (hwords : ∀ w ∈ words, symbols w = [symbol .word w, symbol .endOfInput []]) {u v : Text}
    (h : Extends u v) : Extends (modifiers words ++ u) v := by
  induction words with
  | nil => exact h
  | cons w words ih =>
      rw [modifiers, List.flatMap_cons, List.append_assoc, List.append_assoc]
      exact extends_word (hwords w List.mem_cons_self) (isApart_cons (by decide) _)
        (.blank (ih fun w hw => hwords w (List.mem_cons_of_mem _ hw)))

theorem extends_delegate {d : Option Delegate} (hd : ∀ x ∈ d, IsDelegate options x) {u v : Text}
    (h : Extends u v) : Extends (delegate d ++ u) v := by
  cases d with
  | none => exact h
  | some d =>
      obtain ⟨es, hes, hall⟩ := hd d rfl
      have hword : symbols d.kind.keyword.toList =
          [symbol .word d.kind.keyword.toList, symbol .endOfInput []] := by
        cases d.kind <;> decide
      rw [delegate, hes, List.cons_append, List.append_assoc, List.cons_append, List.append_assoc]
      refine .blank (extends_word hword (isApart_cons (by decide) _)
        (@Extends.mark _ _ '(' .openParen (by decide) (.join (fun hu => @Extends.mark _ _ ',' .comma
          (by decide) hu) (fun _ => isApart_cons (by decide) _) ?_ (isApart_cons (by decide) _)
            (@Extends.mark _ _ ')' .closeParen (by decide) (@Extends.mark _ _ ';' .semicolon
              (by decide) h)))))
      intro e he u hu hmore
      obtain ⟨ps, hps, -⟩ := (hall e he).nested
      exact .spelled ⟨ps, hps⟩ hu hmore

/-- A piece of source in front of a text that a mark starts. -/
theorem extends_expression {e : Text} (he : e.IsExpression options) {u v : Text} (hu : IsApart u)
    (h : Extends u v) : Extends (e ++ u) v := by
  obtain ⟨ps, hps, -⟩ := he.nested
  exact .spelled ⟨ps, hps⟩ hu h

theorem extends_type {t : Text} (ht : t.IsType) {u v : Text} (hu : IsApart u) (h : Extends u v) :
    Extends (t ++ u) v := by
  obtain ⟨-, ps, hps, -⟩ := ht
  exact .spelled ⟨ps, hps⟩ hu h

theorem extends_identifier {t : Text} (ht : t.IsIdentifier) {u v : Text} (hu : IsApart u)
    (h : Extends u v) : Extends (t ++ u) v := .spelled ⟨_, ht.spells⟩ hu h

theorem extends_condition {e : Text} (he : e.IsExpression options) {u v : Text} (h : Extends u v) :
    Extends ('(' :: (e ++ ')' :: u)) v :=
  @Extends.mark _ _ '(' .openParen (by decide) (extends_expression he (isApart_cons (by decide) _)
    (@Extends.mark _ _ ')' .closeParen (by decide) h))

theorem extends_equals {u v : Text} (h : Extends u v) : Extends (' ' :: '=' :: ' ' :: u) v := by
  have hequals : ∃ ps, Spells ['='] ps :=
    ⟨[symbol .operator ['=']], spells_iff.mpr ⟨by decide, by simp [symbol]⟩⟩
  exact .blank (.spelled hequals (isApart_cons (by decide) _) (.blank h))

theorem closes_semicolon {u v : Text} (h : Extends u (';' :: v)) : Closes u v :=
  ⟨';', .semicolon, by decide, h⟩

theorem symbols_flag {set : Bool} {word : String}
    (hword : symbols word.toList = [symbol .word word.toList, symbol .endOfInput []]) :
    ∀ w ∈ flag set word, symbols w = [symbol .word w, symbol .endOfInput []] := by
  cases set <;> simp [flag, hword]

theorem symbols_access (access : Access) : symbols access.keyword.toList =
    [symbol .word access.keyword.toList, symbol .endOfInput []] := by
  cases access <;> decide

/-- The header of a declaration behind its modifiers and its type. -/
theorem extends_header {name : Text} (hname : name.IsIdentifier) {ps : List Parameter}
    (hps : ∀ p ∈ ps, IsParameter p) {throws : List Fragment} (hthrows : AreTypes throws) {u v : Text}
    (hu : IsApart u) (h : Extends u v) :
    Extends (name ++ (parameters ps ++ (throwsClause throws ++ u))) v :=
  extends_identifier hname (isApart_cons (by decide) _)
    (extends_parameters hps (extends_throwsClause hthrows hu h))

/-- A further branch with its condition. -/
theorem closes_branch {condition : Text} (hcondition : condition.IsExpression options) {body : Block}
    (h : ∀ e ∈ body, ∀ u, Closes (element name e ++ u) u) (u : Text) :
    Closes (' ' :: ("else".toList ++ ' ' :: ("if".toList ++ ' ' :: '(' :: (condition ++
      ')' :: (block name body ++ u))))) u := by
  obtain ⟨c, kind, hmark, hblock⟩ := extends_block h u
  refine ⟨c, kind, hmark, ?_⟩
  exact .blank (extends_word (by decide) (isApart_cons (by decide) _) (.blank
    (extends_word (by decide) (isApart_cons (by decide) _)
      (.blank (extends_condition hcondition hblock)))))

mutual
theorem closes_statement {name : Text} (hname : name.IsIdentifier) :
    ∀ {e : Element}, Plain.Statement options everywhere e → ∀ u, Closes (element name e ++ u) u
  | _, .ifChain hcondition hthen hbranches helse, u => by
      have hblock := ((extends_block (closes_elements hname hthen) _).trans
        (closes_branches hname hbranches _)).trans (closes_otherwise hname helse u)
      obtain ⟨c, kind, hmark, hblock⟩ := hblock
      refine ⟨c, kind, hmark, ?_⟩
      simp only [element, List.append_assoc, List.cons_append]
      exact extends_word (by decide) (isApart_cons (by decide) _)
        (.blank (extends_condition hcondition hblock))
  | _, .whileLoop hcondition hbody, u => by
      obtain ⟨c, kind, hmark, hblock⟩ := extends_block (closes_elements hname hbody) u
      refine ⟨c, kind, hmark, ?_⟩
      simp only [element, List.append_assoc, List.cons_append]
      exact extends_word (by decide) (isApart_cons (by decide) _)
        (.blank (extends_condition hcondition hblock))
  | _, .returned, u => by
      apply closes_semicolon
      rw [element, List.append_assoc]
      exact extends_word (by decide) (isApart_cons (by decide) _) (.refl _)
  | _, .returnedValue hvalue, u => by
      apply closes_semicolon
      simp only [element, List.append_assoc, List.cons_append]
      exact extends_word (by decide) (isApart_cons (by decide) _)
        (.blank (extends_expression hvalue (isApart_cons (by decide) _) (.refl _)))
  | _, .call ⟨_, ps, hps, _⟩, u => by
      apply closes_semicolon
      rw [element, List.append_assoc]
      exact .spelled ⟨ps, hps⟩ (isApart_cons (by decide) _) (.refl _)
  | _, .assign ⟨_, ps, hps, _⟩ hvalue, u => by
      apply closes_semicolon
      simp only [element, List.append_assoc, List.cons_append]
      exact .spelled ⟨ps, hps⟩ (isApart_cons (by decide) _) (extends_equals
        (extends_expression hvalue (isApart_cons (by decide) _) (.refl _)))
  | _, .localVariable isFinal htype hname, u => by
      apply closes_semicolon
      simp only [element, value, List.append_assoc, List.cons_append]
      exact extends_modifiers (symbols_flag (by decide)) (extends_type htype
        (isApart_cons (by decide) _) (.blank (extends_identifier hname (isApart_cons (by decide) _)
          (.refl _))))
  | _, .initialized isFinal htype hname hvalue, u => by
      apply closes_semicolon
      simp only [element, value, List.append_assoc, List.cons_append]
      exact extends_modifiers (symbols_flag (by decide)) (extends_type htype
        (isApart_cons (by decide) _) (.blank (extends_identifier hname (isApart_cons (by decide) _)
          (extends_equals (extends_expression hvalue (isApart_cons (by decide) _) (.refl _))))))
  | _, .jump jump, u => by
      apply closes_semicolon
      rw [element, List.append_assoc]
      exact extends_word (by cases jump <;> decide) (isApart_cons (by decide) _) (.refl _)
  | _, .thrown hvalue, u => by
      apply closes_semicolon
      simp only [element, List.append_assoc, List.cons_append]
      exact extends_word (by decide) (isApart_cons (by decide) _)
        (.blank (extends_expression hvalue (isApart_cons (by decide) _) (.refl _)))
theorem closes_elements {name : Text} (hname : name.IsIdentifier) : ∀ {here : Bool} {body : Block},
    Elements options everywhere here body → ∀ e ∈ body, ∀ u, Closes (element name e ++ u) u
  | _, _, .nil => by simp
  | _, _, .statement he hes => by
      have hfirst := closes_statement hname he
      have hrest := closes_elements hname hes
      exact List.forall_mem_cons.mpr ⟨hfirst, hrest⟩
  | _, _, .method access isStatic isFinal htype hmethod hps hthrows hbody hes => by
      have hblock := closes_elements hname hbody
      have hrest := closes_elements hname hes
      refine List.forall_mem_cons.mpr ⟨fun u => ?_, hrest⟩
      obtain ⟨c, kind, hmark, hblock⟩ := extends_block hblock u
      refine ⟨c, kind, hmark, ?_⟩
      simp only [element, List.append_assoc, List.cons_append]
      refine extends_modifiers ?_ (extends_type htype (isApart_cons (by decide) _)
        (.blank (extends_header hmethod hps hthrows (isApart_block _ _ _) hblock)))
      intro w hw
      simp only [List.mem_cons, List.mem_append] at hw
      rcases hw with rfl | hw | hw
      · exact symbols_access access
      · exact symbols_flag (by decide) w hw
      · exact symbols_flag (by decide) w hw
  | _, _, .abstractMethod access htype hmethod hps hthrows hes => by
      have hrest := closes_elements hname hes
      refine List.forall_mem_cons.mpr ⟨fun u => ?_, hrest⟩
      apply closes_semicolon
      simp only [element, List.append_assoc, List.cons_append]
      refine extends_modifiers ?_ (extends_type htype (isApart_cons (by decide) _)
        (.blank (extends_header hmethod hps hthrows (isApart_cons (by decide) _) (.refl _))))
      intro w hw
      simp only [List.mem_cons, List.not_mem_nil, or_false] at hw
      rcases hw with rfl | rfl
      · exact symbols_access access
      · decide
  | _, _, .constructor access hps hthrows hdelegate hbody hes => by
      have hblock := closes_elements hname hbody
      have hrest := closes_elements hname hes
      refine List.forall_mem_cons.mpr ⟨fun u => ?_, hrest⟩
      obtain ⟨c, kind, hmark, hblock⟩ := extends_items hblock u
      refine ⟨c, kind, hmark, ?_⟩
      simp only [element, List.append_assoc, List.cons_append]
      refine extends_modifiers ?_ (extends_header hname hps hthrows (isApart_cons (by decide) _)
        (.blank (@Extends.mark _ _ '{' .openBrace (by decide) (extends_delegate hdelegate hblock))))
      intro w hw
      obtain rfl := by simpa using hw
      exact symbols_access access
theorem closes_branches {name : Text} (hname : name.IsIdentifier) :
    ∀ {conditions : List Fragment} {blocks : List Block},
    Branches options everywhere conditions blocks → ∀ u,
      branches name conditions blocks ++ u = u ∨ Closes (branches name conditions blocks ++ u) u
  | _, _, .nothing, u => by
      left
      rw [branches.eq_def]
      rfl
  | _, _, .elseIf hcondition hblock hrest, u => by
      right
      simp only [branches, List.cons_append, List.append_assoc]
      exact (closes_branch hcondition (closes_elements hname hblock) _).trans
        (closes_branches hname hrest u)
theorem closes_otherwise {name : Text} (hname : name.IsIdentifier) :
    ∀ {elseBlock : Option Block}, Otherwise options everywhere elseBlock → ∀ u,
      otherwise name elseBlock ++ u = u ∨ Closes (otherwise name elseBlock ++ u) u
  | _, .nothing, u => by
      left
      rw [otherwise]
      rfl
  | _, .otherwise hblock, u => by
      right
      obtain ⟨c, kind, hmark, hblock⟩ := extends_block (closes_elements hname hblock) u
      refine ⟨c, kind, hmark, ?_⟩
      simp only [otherwise, List.cons_append, List.append_assoc]
      exact .blank (extends_word (by decide) (isApart_block _ _ _) hblock)
end

end Print

theorem Text.Closes.length_lt {u v : Text} (h : Closes u v) :
    (symbols v).length < (symbols u).length := by
  obtain ⟨c, kind, hmark, ps, -, hu⟩ := h
  rw [hu, symbols_mark hmark]
  simp
  omega

/-- The source of some elements is split into tokens, and none of them is a comment. -/
theorem spells_printed {options : Options} {everywhere here : Bool} {name : Text} {elements : Block}
    (hname : name.IsIdentifier) (h : Plain.Elements options everywhere here elements) :
    ∃ ps, (printed name elements).Spells ps := by
  have hjoin : Extends (printed name elements ++ []) [] := by
    refine .join .blank (fun _ => isApart_cons (by decide) _) ?_ isApart_nil (.refl _)
    intro t ht u hu hrest
    obtain ⟨e, he, rfl⟩ := List.mem_map.mp ht
    obtain ⟨c, kind, hmark, helement⟩ := Print.closes_elements hname h e he u
    exact helement.trans (.mark hmark hrest)
  obtain ⟨ps, hps, hsymbols⟩ := hjoin
  rw [List.append_nil] at hsymbols
  exact ⟨ps, spells_iff.mpr ⟨hsymbols, hps⟩⟩

end CodeFrames
