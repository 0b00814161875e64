import Mathlib.Computability.Language
import Mathlib.Order.CompletePartialOrder
import CodeFrames.Proofs.Sentence

/-!
# The languages of the grammar

The sequences of events that each relation of the grammar derives, whatever is read off them, and the
productions as inclusions between these languages.
-/

namespace CodeFrames

open scoped Computability

namespace Sentence

/-- A single event of a kind. -/
def single {ι : Type} (event : ι → Event) : Language Event := {es | ∃ i, es = [event i]}

theorem mem_single {ι : Type} (event : ι → Event) (i : ι) : [event i] ∈ single event := ⟨i, rfl⟩

theorem exists_map_of_mem_kstar {ι : Type} {event : ι → Event} {events : List Event}
    (h : events ∈ (single event)∗) : ∃ is : List ι, events = is.map event := by
  obtain ⟨pieces, rfl, hpieces⟩ := Language.mem_kstar.mp h
  clear h
  induction pieces with
  | nil => exact ⟨[], rfl⟩
  | cons piece pieces ih =>
      obtain ⟨i, rfl⟩ := hpieces piece List.mem_cons_self
      obtain ⟨is, his⟩ := ih fun y hy => hpieces y (List.mem_cons_of_mem _ hy)
      exact ⟨i :: is, by simp [his]⟩

theorem map_mem_kstar {ι : Type} (event : ι → Event) (is : List ι) :
    is.map event ∈ (single event)∗ := by
  refine Language.mem_kstar.mpr ⟨is.map fun i => [event i], ?_, ?_⟩
  · induction is with
    | nil => rfl
    | cons i is ih => simp [ih]
  · intro y hy
    obtain ⟨i, -, rfl⟩ := List.mem_map.mp hy
    exact mem_single event i

variable (source : Text) (width : Option Nat)

def insides : Language Event := {es | ∃ warnings, Inside es warnings}

def expressions : Language Event := {es | ∃ text warnings, Expression source es text warnings}

/-- A type, as it is reported. -/
def types : Language Event := single fun t : Span × Span => .typeName t.1 t.2

def declarators : Language Event :=
  {es | ∀ header, ∃ element warnings, Declarator source header es element warnings}

def parameterLists : Language Event := {es | ∃ parameters warnings, Parameters source es parameters warnings}

def throwsClauses : Language Event := {es | ∃ throws, Throws source es throws}

def delegateArguments : Language Event :=
  {es | ∃ texts warnings, DelegateArguments source es texts warnings}

/-- What is read off a statement depends on the comment before it, but whether it is one does not. -/
def statements : Language Event :=
  {es | ∀ pending, ∃ elements warnings, Statement source width pending es elements warnings}

def items : Language Event :=
  {es | ∀ pending, ∃ elements warnings, Items source width pending es elements warnings}

def branches : Language Event :=
  {es | ∃ conditions blocks warnings, Branches source width es conditions blocks warnings}

def otherwises : Language Event := {es | ∃ final warnings, Otherwise source width es final warnings}

def blocks : Language Event := single .openBlock * (items source width * single .closeBlock)

/-- The bodies of constructors, which have to be there. -/
def constructorBodies : Language Event :=
  {es | ∃ delegate elements warnings, ConstructorBody source width es delegate (some elements) warnings}

variable {source width}

/-! ## Expressions -/

theorem Inside.append : ∀ {events : List Event} {warnings : List Warning}, Inside events warnings →
    ∀ {more : List Event} {later : List Warning}, Inside more later →
      ∃ all, Inside (events ++ more) all
  | _, _, .nothing, _, _, h => ⟨_, h⟩
  | _, _, .expression first last isEmpty inner rest, _, _, h => by
      obtain ⟨all, hrest⟩ := Inside.append rest h
      exact ⟨_, by simpa using Inside.expression first last isEmpty inner hrest⟩
  | _, _, .arguments opening closing inner rest, _, _, h => by
      obtain ⟨all, hrest⟩ := Inside.append rest h
      exact ⟨_, by simpa using Inside.arguments opening closing inner hrest⟩
  | _, _, .unsupported place construct rest, _, _, h => by
      obtain ⟨all, hrest⟩ := Inside.append rest h
      exact ⟨_, .unsupported place construct hrest⟩

theorem nil_mem_insides : [] ∈ insides := ⟨[], .nothing⟩

theorem insides_mul_insides : insides * insides ≤ insides := by
  rintro _ ⟨events, ⟨warnings, h⟩, more, ⟨later, g⟩, rfl⟩
  exact h.append g

theorem insides_kstar : insides∗ ≤ insides := by
  refine (mul_one insides∗).symm.le.trans (kstar_mul_le ?_ insides_mul_insides)
  exact fun es hes => (Set.mem_singleton_iff.mp hes) ▸ nil_mem_insides

theorem expressions_le_insides : expressions source ≤ insides := by
  rintro _ ⟨text, warnings, h⟩
  cases h with
  | bounded first last inner hslice => exact ⟨_, .expression first last false inner .nothing⟩
  | empty first last inner => exact ⟨_, .expression first last true inner .nothing⟩

theorem unsupported_le_insides :
    (single fun u : Span × String => .unsupported u.1 u.2) ≤ insides := by
  rintro _ ⟨⟨place, construct⟩, rfl⟩
  exact ⟨_, .unsupported place construct .nothing⟩

/-- The events of an argument list between its parentheses. -/
def argumentLists (source : Text) : Language Event := (single .argument * expressions source)∗

theorem argumentLists_le_delegateArguments : argumentLists source ≤ delegateArguments source := by
  refine (mul_one (argumentLists source)).symm.le.trans (kstar_mul_le ?_ ?_)
  · rintro _ rfl
    exact ⟨[], [], .nothing⟩
  · rintro _ ⟨_, ⟨_, ⟨announced, rfl⟩, events, ⟨text, warnings, h⟩, rfl⟩, rest,
      ⟨texts, later, g⟩, rfl⟩
    exact ⟨_, _, .argument announced h g⟩

theorem exists_arguments {events : List Event} (h : events ∈ argumentLists source) :
    ∃ warnings, Arguments events warnings := by
  have hle : argumentLists source ≤ {es | ∃ warnings, Arguments es warnings} := by
    refine (mul_one (argumentLists source)).symm.le.trans (kstar_mul_le ?_ ?_)
    · rintro _ rfl
      exact ⟨[], .nothing⟩
    · rintro _ ⟨_, ⟨_, ⟨announced, rfl⟩, events, ⟨text, warnings, h⟩, rfl⟩, rest, ⟨later, g⟩, rfl⟩
      cases h with
      | bounded first last inner hslice =>
          exact ⟨_, by simpa using Arguments.argument announced first last false inner g⟩
      | empty first last inner =>
          exact ⟨_, by simpa using Arguments.argument announced first last true inner g⟩
  exact hle h

theorem arguments_le_insides :
    single .openArguments * (argumentLists source * single .closeArguments) ≤ insides := by
  rintro _ ⟨_, ⟨opening, rfl⟩, _, ⟨events, hevents, _, ⟨closing, rfl⟩, rfl⟩, rfl⟩
  obtain ⟨warnings, h⟩ := exists_arguments hevents
  exact ⟨_, .arguments opening closing h .nothing⟩

/-! ## Variables and headers -/

theorem bare_le_declarators :
    (single fun name => .declarator name false) ≤ declarators source := by
  rintro _ ⟨name, rfl⟩ header
  exact ⟨_, _, .bare name⟩

theorem initialized_le_declarators :
    (single fun name => .declarator name true) * expressions source ≤ declarators source := by
  rintro _ ⟨_, ⟨name, rfl⟩, events, ⟨text, warnings, h⟩, rfl⟩ header
  exact ⟨_, _, .initialized name h⟩

theorem exists_declarators {events : List Event}
    (h : events ∈ declarators source * (declarators source)∗) (header : VariableHeader) :
    ∃ elements warnings, Declarators source header events elements warnings := by
  obtain ⟨first, hfirst, _, hmore, rfl⟩ := h
  obtain ⟨pieces, rfl, hpieces⟩ := Language.mem_kstar.mp hmore
  clear hmore
  induction pieces generalizing first with
  | nil =>
      obtain ⟨element, warnings, hone⟩ := hfirst header
      exact ⟨_, _, by simpa using Declarators.last hone⟩
  | cons piece pieces ih =>
      obtain ⟨element, warnings, hone⟩ := hfirst header
      obtain ⟨elements, later, hrest⟩ := ih piece (hpieces piece List.mem_cons_self)
        fun y hy => hpieces y (List.mem_cons_of_mem _ hy)
      exact ⟨_, _, .more hone hrest⟩

/-- One parameter behind its type. -/
def parameterEvents : Language Event :=
  types * single fun p : Span × Option Span => .parameter p.1 p.2

theorem parameterEvents_kstar : parameterEvents∗ ≤ parameterLists source := by
  refine (mul_one parameterEvents∗).symm.le.trans (kstar_mul_le ?_ ?_)
  · rintro _ rfl
    exact ⟨[], [], .nothing⟩
  · rintro _ ⟨_, ⟨_, ⟨⟨first, last⟩, rfl⟩, _, ⟨⟨name, ellipsis⟩, rfl⟩, rfl⟩, rest,
      ⟨parameters, later, h⟩, rfl⟩
    exact ⟨_, _, .parameter first last name ellipsis h⟩

theorem nil_mem_throwsClauses : [] ∈ throwsClauses source := ⟨[], .nothing⟩

theorem clause_le_throwsClauses :
    single .openThrows * ((types * types∗) * {[.closeThrows]}) ≤ throwsClauses source := by
  rintro _ ⟨_, ⟨keyword, rfl⟩, _, ⟨_, ⟨_, ⟨t, rfl⟩, more, hmore, rfl⟩, _, rfl, rfl⟩, rfl⟩
  obtain ⟨ts, rfl⟩ := exists_map_of_mem_kstar hmore
  exact ⟨_, .clause keyword (t :: ts) (List.cons_ne_nil t ts)⟩

/-! ## Statements -/

theorem Items.append : ∀ {pending : Option Text} {events : List Event} {elements : Block}
    {warnings : List Warning}, Items source width pending events elements warnings →
    ∀ {more : List Event}, more ∈ items source width →
      ∃ others later, Items source width pending (events ++ more) others later
  | pending, _, _, _, .nothing, _, h => h pending
  | _, _, _, _, .comment whole rest, _, h => by
      obtain ⟨others, later, hrest⟩ := rest.append h
      exact ⟨_, _, .comment whole hrest⟩
  | _, _, _, _, .statement one rest, _, h => by
      obtain ⟨others, later, hrest⟩ := rest.append h
      exact ⟨_, _, by simpa using Items.statement one hrest⟩

theorem nil_mem_items : [] ∈ items source width := fun _ => ⟨_, _, .nothing⟩

theorem items_mul_items : items source width * items source width ≤ items source width := by
  rintro _ ⟨events, h, more, g, rfl⟩ pending
  obtain ⟨elements, warnings, h⟩ := h pending
  exact h.append g

theorem items_kstar : (items source width)∗ ≤ items source width := by
  refine (mul_one (items source width)∗).symm.le.trans (kstar_mul_le ?_ items_mul_items)
  rintro _ rfl
  exact nil_mem_items

theorem statements_le_items : statements source width ≤ items source width := by
  intro events h pending
  obtain ⟨elements, warnings, h⟩ := h pending
  exact ⟨_, _, by simpa using Items.statement h .nothing⟩

theorem comments_le_items : (single Event.comment)∗ ≤ items source width := by
  refine (mul_one (single Event.comment)∗).symm.le.trans (kstar_mul_le ?_ ?_)
  · rintro _ rfl
    exact nil_mem_items
  · rintro _ ⟨_, ⟨whole, rfl⟩, rest, h, rfl⟩ pending
    obtain ⟨elements, warnings, h⟩ := h _
    exact ⟨_, _, .comment whole h⟩

theorem single_le_statements {ι : Type} {event : ι → Event}
    (h : ∀ i pending, ∃ elements warnings, Statement source width pending [event i] elements warnings) :
    single event ≤ statements source width := by
  rintro _ ⟨i, rfl⟩ pending
  exact h i pending

theorem blocks_le_statements : blocks source width ≤ statements source width := by
  rintro _ ⟨_, ⟨first, rfl⟩, _, ⟨events, h, _, ⟨last, rfl⟩, rfl⟩, rfl⟩ pending
  obtain ⟨elements, warnings, h⟩ := h pending
  exact ⟨_, _, .block first last h⟩

theorem nil_mem_branches : [] ∈ branches source width := ⟨_, _, _, .nothing⟩

theorem nil_mem_otherwises : [] ∈ otherwises source width := ⟨_, _, .nothing⟩

theorem elseIf_mul_branches :
    single .elseIf * (expressions source * blocks source width) * branches source width ≤
      branches source width := by
  rintro _ ⟨_, ⟨_, ⟨keyword, rfl⟩, _, ⟨condition, ⟨text, w₁, hcondition⟩, _, ⟨_, ⟨first, rfl⟩, _,
    ⟨events, hitems, _, ⟨last, rfl⟩, rfl⟩, rfl⟩, rfl⟩, rfl⟩, rest, ⟨_, _, _, hrest⟩, rfl⟩
  obtain ⟨elements, w₂, hitems⟩ := hitems none
  exact ⟨_, _, _, by simpa using Branches.elseIf keyword first last hcondition hitems hrest⟩

theorem otherwise_le_otherwises :
    single .otherwise * blocks source width ≤ otherwises source width := by
  rintro _ ⟨_, ⟨keyword, rfl⟩, _, ⟨_, ⟨first, rfl⟩, _, ⟨events, hitems, _, ⟨last, rfl⟩, rfl⟩, rfl⟩,
    rfl⟩
  obtain ⟨elements, warnings, hitems⟩ := hitems none
  exact ⟨_, _, .otherwise keyword first last hitems⟩

theorem ifChain_le_statements :
    single .openIf * (expressions source * (blocks source width *
      (branches source width * otherwises source width * single .closeIf))) ≤
      statements source width := by
  rintro _ ⟨_, ⟨keyword, rfl⟩, _, ⟨condition, ⟨text, w₁, hcondition⟩, _, ⟨_, ⟨_, ⟨first, rfl⟩, _,
    ⟨events, hitems, _, ⟨last, rfl⟩, rfl⟩, rfl⟩, _, ⟨_, ⟨branches, ⟨_, _, _, hbranches⟩, final,
    ⟨_, _, hfinal⟩, rfl⟩, _, ⟨closing, rfl⟩, rfl⟩, rfl⟩, rfl⟩, rfl⟩ pending
  obtain ⟨elements, w₂, hitems⟩ := hitems (kept w₁ pending)
  exact ⟨_, _, by
    simpa using Statement.ifChain keyword first last closing hcondition hitems hbranches hfinal⟩

theorem whileLoop_le_statements :
    single .openWhile * (expressions source * (blocks source width * single .closeWhile)) ≤
      statements source width := by
  rintro _ ⟨_, ⟨keyword, rfl⟩, _, ⟨condition, ⟨text, w₁, hcondition⟩, _, ⟨_, ⟨_, ⟨first, rfl⟩, _,
    ⟨events, hitems, _, ⟨last, rfl⟩, rfl⟩, rfl⟩, _, ⟨closing, rfl⟩, rfl⟩, rfl⟩, rfl⟩ pending
  obtain ⟨elements, w₂, hitems⟩ := hitems (kept w₁ pending)
  exact ⟨_, _, by simpa using Statement.whileLoop keyword first last closing hcondition hitems⟩

theorem returnedValue_le_statements :
    (single fun keyword => .returned keyword true) * expressions source ≤
      statements source width := by
  rintro _ ⟨_, ⟨keyword, rfl⟩, events, ⟨text, warnings, h⟩, rfl⟩ pending
  exact ⟨_, _, .returnedValue keyword h⟩

theorem thrown_le_statements :
    single .thrown * expressions source ≤ statements source width := by
  rintro _ ⟨_, ⟨keyword, rfl⟩, events, ⟨text, warnings, h⟩, rfl⟩ pending
  exact ⟨_, _, .thrown keyword h⟩

theorem expression_le_statements :
    single .expressionStatement * expressions source ≤ statements source width := by
  rintro _ ⟨_, ⟨first, rfl⟩, events, ⟨text, warnings, h⟩, rfl⟩ pending
  exact ⟨_, _, .expression first h⟩

theorem jumped_le_statements (jump : Jump) :
    (single fun j : Span × Option Span => .jumped jump j.1 j.2) ≤ statements source width := by
  rintro _ ⟨⟨keyword, label⟩, rfl⟩ pending
  cases label with
  | none => exact ⟨_, _, .jumped jump keyword⟩
  | some label => exact ⟨_, _, .jumpedTo jump keyword label⟩

theorem variables_le_statements :
    types * ((single fun v : Span × List Span => .openVariables v.1 v.2) *
      (declarators source * (declarators source)∗ * single .closeVariables)) ≤
      statements source width := by
  rintro _ ⟨_, ⟨⟨typeFirst, typeLast⟩, rfl⟩, _, ⟨_, ⟨⟨first, modifiers⟩, rfl⟩, _, ⟨events, h, _,
    ⟨semicolon, rfl⟩, rfl⟩, rfl⟩, rfl⟩ pending
  obtain ⟨elements, warnings, h⟩ := exists_declarators h
    ⟨(modifiers.map (Span.textIn source)).contains "final".toList,
      .type (textThrough source typeFirst typeLast)⟩
  exact ⟨_, _, .variables typeFirst typeLast first semicolon modifiers h⟩

/-! ## Declarations -/

/-- The event that begins a method. -/
def methodHeads : Language Event :=
  single fun m : (Span × List Span) × Span => .openMethod m.1.1 m.1.2 m.2

def constructorHeads : Language Event :=
  single fun m : (Span × List Span) × Span => .openConstructor m.1.1 m.1.2 m.2

def closings (hasBody : Bool) : Language Event := single fun last => .closeDeclaration last hasBody

theorem method_le_statements :
    types * (methodHeads * (parameterLists source * (throwsClauses source *
      (blocks source width * closings true)))) ≤ statements source width := by
  rintro _ ⟨_, ⟨⟨typeFirst, typeLast⟩, rfl⟩, _, ⟨_, ⟨⟨⟨first, modifiers⟩, name⟩, rfl⟩, _,
    ⟨events, ⟨_, _, hparameters⟩, _, ⟨clause, ⟨_, hthrows⟩, _, ⟨_, ⟨_, ⟨opening, rfl⟩, _,
    ⟨bodyEvents, hitems, _, ⟨closing, rfl⟩, rfl⟩, rfl⟩, _, ⟨last, rfl⟩, rfl⟩, rfl⟩, rfl⟩, rfl⟩,
    rfl⟩ pending
  obtain ⟨elements, warnings, hitems⟩ := hitems none
  have h : Statement source width pending _ _ _ := .method typeFirst typeLast first name last modifiers
    hparameters hthrows (.block opening closing hitems)
  exact ⟨_, _, by simpa using h⟩

theorem abstractMethod_le_statements :
    types * (methodHeads * (parameterLists source * (throwsClauses source * closings false))) ≤
      statements source width := by
  rintro _ ⟨_, ⟨⟨typeFirst, typeLast⟩, rfl⟩, _, ⟨_, ⟨⟨⟨first, modifiers⟩, name⟩, rfl⟩, _,
    ⟨events, ⟨_, _, hparameters⟩, _, ⟨clause, ⟨_, hthrows⟩, _, ⟨last, rfl⟩, rfl⟩, rfl⟩, rfl⟩,
    rfl⟩ pending
  exact ⟨_, _, .method typeFirst typeLast first name last modifiers hparameters hthrows .missing⟩

/-- The statement that calls another constructor. -/
def delegateCalls (source : Text) : Language Event :=
  {es | ∃ (start first keyword opening closing last : Span) (arguments : List Event)
    (kind : DelegateTarget), es = .expressionStatement start :: .openExpression first ::
      .delegateCall keyword :: .openArguments opening :: (arguments ++ [.closeArguments closing,
        .closeExpression last false]) ∧
    DelegateTarget.ofText? (keyword.textIn source) = some kind ∧
    arguments ∈ argumentLists source ∧
    (Text.slice? source first.start last.stop).isSome = true}

theorem blocks_le_constructorBodies : blocks source width ≤ constructorBodies source width := by
  rintro _ ⟨_, ⟨first, rfl⟩, _, ⟨events, hitems, _, ⟨last, rfl⟩, rfl⟩, rfl⟩
  obtain ⟨elements, warnings, hitems⟩ := hitems none
  exact ⟨_, _, _, .plain (.block first last hitems)⟩

theorem delegating_le_constructorBodies :
    single .openBlock * ((single Event.comment)∗ * (delegateCalls source * (items source width *
      single .closeBlock))) ≤ constructorBodies source width := by
  rintro _ ⟨_, ⟨brace, rfl⟩, _, ⟨commentEvents, hcomments, _, ⟨_, ⟨start, first, keyword, opening,
    closing, last, arguments, kind, rfl, hkind, harguments, hslice⟩, _, ⟨bodyEvents, hitems, _,
    ⟨finish, rfl⟩, rfl⟩, rfl⟩, rfl⟩, rfl⟩
  obtain ⟨comments, rfl⟩ := exists_map_of_mem_kstar hcomments
  obtain ⟨texts, w₁, harguments⟩ := argumentLists_le_delegateArguments harguments
  obtain ⟨elements, w₂, hitems⟩ := hitems (kept w₁ (afterComments source width comments none))
  have h := ConstructorBody.delegating brace start first keyword opening closing last finish false
    comments hkind harguments (.inr hslice) hitems
  exact ⟨_, _, _, by simpa using h⟩

theorem constructor_le_statements :
    constructorHeads * (parameterLists source * (throwsClauses source *
      (constructorBodies source width * closings true))) ≤ statements source width := by
  rintro _ ⟨_, ⟨⟨⟨first, modifiers⟩, name⟩, rfl⟩, _, ⟨events, ⟨_, _, hparameters⟩, _, ⟨clause,
    ⟨_, hthrows⟩, _, ⟨bodyEvents, ⟨_, _, _, hbody⟩, _, ⟨last, rfl⟩, rfl⟩, rfl⟩, rfl⟩, rfl⟩ pending
  exact ⟨_, _, .constructor first name last modifiers hparameters hthrows hbody⟩

end Sentence

end CodeFrames
