import CodeFrames.Proofs.Decoding.Expression

/-!
# Assembling statements and declarations

A statement adds its elements to the handler on top and uses up the pending comment; everything else
is as before, except for the warnings that have been added.  Only a declaration can stop the
assembly, and only because it names more than one access level.
-/

namespace CodeFrames

open Sentence

/-! ## Access levels -/

/-- No two access levels are among the modifiers. -/
def Access.IsClear (modifiers : List Text) : Prop :=
  ∀ level other : Access, level.word ∈ modifiers → other.word ∈ modifiers → level = other

/-- The modifiers of the declaration that an event begins. -/
def Event.modifiers : Event → List Span
  | .openMethod _ modifiers _ => modifiers
  | .openConstructor _ modifiers _ => modifiers
  | _ => []

/-- A declaration that the event begins names at most one access level. -/
def Event.AccessClear (source : Text) (event : Event) : Prop :=
  Access.IsClear (event.modifiers.map (Span.textIn source))

theorem Access.mem_all (level : Access) : level ∈ Access.all := by
  cases level <;> decide

instance (modifiers : List Text) : Decidable (Access.IsClear modifiers) :=
  decidable_of_iff
    (∀ level ∈ Access.all, ∀ other ∈ Access.all, level.word ∈ modifiers → other.word ∈ modifiers →
      level = other)
    ⟨fun h level other => h level level.mem_all other other.mem_all,
      fun h level _ other _ => h level other⟩

instance (source : Text) (event : Event) : Decidable (event.AccessClear source) :=
  inferInstanceAs (Decidable (Access.IsClear _))

theorem accessOf_eq (modifiers : List Text) :
    accessOf modifiers = .ok (Access.named modifiers) ∨
      (∃ levels, accessOf modifiers = .error (.accessConflict levels)) ∧
        ¬ Access.IsClear modifiers := by
  have hclear {level other : Access} (hne : level ≠ other) (h : level.word ∈ modifiers)
      (h' : other.word ∈ modifiers) : ¬ Access.IsClear modifiers :=
    fun hclear => hne (hclear level other h h')
  by_cases h₁ : Access.publicAccess.word ∈ modifiers <;>
    by_cases h₂ : Access.protectedAccess.word ∈ modifiers <;>
    by_cases h₃ : Access.privateAccess.word ∈ modifiers <;>
    simp [accessOf, Access.named, Access.all, h₁, h₂, h₃]
  · exact hclear (by decide) h₁ h₂
  · exact hclear (by decide) h₁ h₂
  · exact hclear (by decide) h₁ h₃
  · exact hclear (by decide) h₂ h₃

/-! ## Handlers -/

namespace OpenChain

/-- Adds elements to the last of some blocks. -/
def addLast (elements : Block) : List Block → List Block
  | [] => []
  | [block] => [block ++ elements]
  | block :: blocks => block :: addLast elements blocks

theorem addLast_concat (elements block : Block) (blocks : List Block) :
    addLast elements (blocks ++ [block]) = blocks ++ [block ++ elements] := by
  induction blocks with
  | nil => rfl
  | cons first blocks ih =>
      cases hrest : blocks ++ [block] with
      | nil => simp at hrest
      | cons second rest => rw [List.cons_append, hrest, addLast, ← hrest, ih] <;> simp

theorem pushLast?_concat (e : Element) (block : Block) (blocks : List Block) :
    pushLast? e (blocks ++ [block]) = some (blocks ++ [block ++ [e]]) := by
  induction blocks with
  | nil => rfl
  | cons first blocks ih =>
      cases hrest : blocks ++ [block] with
      | nil => simp at hrest
      | cons second rest => rw [List.cons_append, hrest, pushLast?, ← hrest, ih] <;> simp

end OpenChain

namespace Handler

open OpenChain

/-- The handler takes elements, and a block is there to put them into. -/
def Ready : Handler → Prop
  | .root _ => True
  | .block b => b.stage = .opened
  | .chain c => c.stage = .inBlock ∧ c.blocks ≠ []
  | .loop w => w.stage = .inBody

def add (elements : Block) : Handler → Handler
  | .root others => .root (others ++ elements)
  | .block b => .block { b with statements := b.statements ++ elements }
  | .chain c => .chain { c with blocks := addLast elements c.blocks }
  | .loop w => .loop { w with body := w.body ++ elements }

theorem push_eq {h : Handler} (hready : h.Ready) (e : Element) : h.push e = .ok (h.add [e]) := by
  cases h with
  | root elements => rfl
  | block b =>
      have hstage : b.stage = .opened := hready
      simp [push, OpenBlock.push, hstage, add, Except.map]
  | chain c =>
      obtain ⟨hstage, hblocks⟩ := hready
      have hinit := List.dropLast_concat_getLast hblocks
      have hpush := pushLast?_concat e (c.blocks.getLast hblocks) c.blocks.dropLast
      have hadd := addLast_concat [e] (c.blocks.getLast hblocks) c.blocks.dropLast
      rw [hinit] at hpush hadd
      simp [push, OpenChain.push, hstage, hpush, hadd, add, Except.map]
  | loop w =>
      have hstage : w.stage = .inBody := hready
      simp [push, OpenLoop.push, OpenLoop.require, hstage, add, Except.map, Except.ok_bind, pure,
        Except.pure]

theorem ready_add {h : Handler} (hready : h.Ready) (elements : Block) :
    (h.add elements).Ready := by
  cases h with
  | root others => trivial
  | block b => exact hready
  | loop w => exact hready
  | chain c =>
      obtain ⟨hstage, hblocks⟩ := hready
      refine ⟨hstage, ?_⟩
      rw [← List.dropLast_concat_getLast hblocks, addLast_concat]
      simp

theorem add_nil (h : Handler) : h.add [] = h := by
  cases h with
  | root others => simp [add]
  | block b => simp [add]
  | loop w => simp [add]
  | chain c =>
      obtain ⟨conditions, blocks, pending, stage⟩ := c
      rcases List.eq_nil_or_concat blocks with rfl | ⟨init, last, rfl⟩
      · simp [add, addLast]
      · simp [add, List.concat_eq_append, addLast_concat]

theorem add_add (h : Handler) (elements others : Block) :
    (h.add elements).add others = h.add (elements ++ others) := by
  cases h with
  | root others => simp [add]
  | block b => simp [add]
  | loop w => simp [add]
  | chain c =>
      obtain ⟨conditions, blocks, pending, stage⟩ := c
      rcases List.eq_nil_or_concat blocks with rfl | ⟨init, last, rfl⟩
      · simp [add, addLast]
      · simp [add, List.concat_eq_append, addLast_concat]

end Handler

/-! ## Runs that only a conflict of access levels stops -/

/-- The events lead from one assembly to another, unless one of them begins a declaration with more
than one access level. -/
def Leads (source : Text) (a : Assembly) (events : List Event) (b : Assembly) : Prop :=
  a.run events = .ok b ∨
    (∃ levels, a.run events = .error (.accessConflict levels)) ∧
      ∃ event ∈ events, ¬ event.AccessClear source

namespace Leads

variable {source : Text} {a b c : Assembly} {event : Event} {events more : List Event}

theorem of_run (h : a.run events = .ok b) : Leads source a events b := .inl h

theorem append (h : Leads source a events b) (g : Leads source b more c) :
    Leads source a (events ++ more) c := by
  rcases h with h | ⟨⟨levels, h⟩, event, hmem, hclear⟩
  · rcases g with g | ⟨⟨levels, g⟩, event, hmem, hclear⟩
    · exact .inl (by rw [Assembly.run_append_of_ok _ h, g])
    · exact .inr ⟨⟨levels, by rw [Assembly.run_append_of_ok _ h, g]⟩, event,
        List.mem_append_right _ hmem, hclear⟩
  · exact .inr ⟨⟨levels, by rw [Assembly.run_append, h, Except.error_bind]⟩, event,
      List.mem_append_left _ hmem, hclear⟩

theorem cons (h : a.step event = .ok b) (g : Leads source b events c) :
    Leads source a (event :: events) c :=
  append (of_run (by rw [Assembly.run_singleton, h]) : Leads source a [event] b) g

theorem append_run (h : a.run events = .ok b) (g : Leads source b more c) :
    Leads source a (events ++ more) c :=
  append (of_run h) g

theorem single (h : a.step event = .ok b) : Leads source a [event] b :=
  of_run (by rw [Assembly.run_singleton, h])

end Leads

namespace Assembly

/-- The assembly with other handlers, more warnings, and another pending comment. -/
def updated (a : Assembly) (handlers : List Handler) (warnings : List Warning)
    (comment : Option Text) : Assembly :=
  { a with handlers, warnings := a.warnings ++ warnings, comment }

theorem updated_updated (a : Assembly) (handlers others : List Handler) (warnings later : List Warning)
    (comment other : Option Text) :
    (a.updated handlers warnings comment).updated others later other =
      a.updated others (warnings ++ later) other := by
  simp [updated]

theorem noting_eq (a : Assembly) (warnings : List Warning) :
    a.noting warnings = a.updated a.handlers warnings (kept warnings a.comment) := rfl

theorem report_eq {a : Assembly} {top : Handler} {below : List Handler}
    (hhandlers : a.handlers = top :: below) (hready : top.Ready) (e : Element) :
    a.report e = .ok (a.updated (top.add [e] :: below) [] none) := by
  simp [report, hhandlers, Handler.push_eq hready, updated, Except.map]

theorem foldlM_report {top : Handler} {below : List Handler} (hready : top.Ready)
    (elements : Block) (a : Assembly) :
    elements.foldlM report (a.updated (top :: below) [] none) =
      .ok (a.updated (top.add elements :: below) [] none) := by
  induction elements generalizing top with
  | nil => rw [Handler.add_nil]; rfl
  | cons e elements ih =>
      rw [List.foldlM_cons, report_eq rfl hready, Except.ok_bind, updated_updated,
        List.append_nil, ih (Handler.ready_add hready [e]), Handler.add_add]
      rfl

/-- An expression that a statement announces: its text goes to the use, and the pending comment is
lost if something in it is not supported. -/
theorem run_awaited {source text : Text} {events : List Event} {warnings : List Warning}
    (h : Expression source events text warnings) {a : Assembly} (use : ExpressionUse)
    (hsource : a.source = source) (hlists : a.arguments = []) :
    (a.await use).run events = (a.noting warnings).fulfil use text :=
  run_expression h (a := a.await use) hsource rfl (by simp [await, hlists])

/-! ## Variables -/

theorem run_declarator {source : Text} {header : VariableHeader} {events : List Event}
    {element : Element} {warnings : List Warning}
    (h : Declarator source header events element warnings) {a : Assembly} {top : Handler}
    {below : List Handler} {outer : List VariableHeader} (hsource : a.source = source)
    (hlists : a.arguments = []) (hlocals : a.locals = header :: outer)
    (hhandlers : a.handlers = top :: below) (hready : top.Ready) :
    a.run events = .ok (a.updated (top.add [element] :: below) warnings none) := by
  subst hsource
  cases h with
  | bare name =>
      have hreport := report_eq hhandlers hready
        (header.element (.name (a.textOf name)) none)
      rw [run_singleton]
      simp only [step, declarator, hlocals]
      exact hreport
  | @initialized _ text warnings name value =>
      have hstep : a.step (.declarator name true) = .ok (a.await (.initializer (a.textOf name))) :=
        rfl
      have hreport := report_eq (a := a.noting warnings) hhandlers hready
        (header.element (.name (a.textOf name)) (some (.expression text)))
      rw [run_cons_of_ok _ hstep, run_awaited value _ rfl hlists, noting_eq]
      simp only [fulfil, updated, hlocals]
      rw [noting_eq, updated_updated, List.append_nil] at hreport
      simp only [updated, hlocals] at hreport
      exact hreport

theorem run_declarators {source : Text} {header : VariableHeader} {events : List Event}
    {elements : Block} {warnings : List Warning}
    (h : Declarators source header events elements warnings) {a : Assembly} {top : Handler}
    {below : List Handler} {outer : List VariableHeader} (hsource : a.source = source)
    (hlists : a.arguments = []) (hlocals : a.locals = header :: outer)
    (hhandlers : a.handlers = top :: below) (hready : top.Ready) :
    a.run events = .ok (a.updated (top.add elements :: below) warnings none) := by
  induction h generalizing a top with
  | last one => exact run_declarator one hsource hlists hlocals hhandlers hready
  | @more _ _ element _ warnings _ one _ ih =>
      have hone := run_declarator one hsource hlists hlocals hhandlers hready
      rw [run_append_of_ok _ hone,
        ih (a := a.updated (top.add [element] :: below) warnings none) hsource hlists hlocals rfl
          (Handler.ready_add hready [element]),
        updated_updated, Handler.add_add]
      rfl

/-! ## Headers and bodies of declarations -/

/-- The assembly with another declaration on top. -/
def declaring (a : Assembly) (d : Declaration) (outer : List Declaration) (warnings : List Warning) :
    Assembly :=
  { a with declarations := d :: outer, warnings := a.warnings ++ warnings }

theorem declaring_self {a : Assembly} {d : Declaration} {outer : List Declaration}
    (h : a.declarations = d :: outer) : a.declaring d outer [] = a := by
  simp [declaring, ← h]

/-- A type is claimed by the parameter behind it. -/
theorem run_parameter {a : Assembly} {d : Declaration} {outer : List Declaration}
    (hdeclared : a.declarations = d :: outer) (first last name : Span) (ellipsis : Option Span) :
    a.run [.typeName first last, .parameter name ellipsis] =
      .ok (a.declaring
        { d with parameters := d.parameters ++
            [⟨.type (textThrough a.source first last), .name (name.textIn a.source)⟩] }
        outer
        (if ellipsis.isSome then
          [⟨name.line, .variableArity (name.textIn a.source) (textThrough a.source first last)⟩]
        else [])) := by
  cases ellipsis <;>
    simp [run, step, parameter, claimType, updateDeclaration, hdeclared, declaring, textOf,
      Span.textIn, textThrough, Except.ok_bind, Except.map, warn, Fragment.type, pure, Except.pure]

theorem run_parameters {source : Text} {events : List Event} {parameters : List Parameter}
    {warnings : List Warning} (h : Parameters source events parameters warnings) {a : Assembly}
    {d : Declaration} {outer : List Declaration} (hsource : a.source = source)
    (hdeclared : a.declarations = d :: outer) :
    a.run events = .ok (a.declaring { d with parameters := d.parameters ++ parameters } outer
      warnings) := by
  induction h generalizing a d with
  | nothing => simp [run_nil, declaring, ← hdeclared]
  | parameter first last name ellipsis rest ih =>
      have hone := run_parameter hdeclared first last name ellipsis
      change a.run ([_, _] ++ _) = _
      rw [run_append_of_ok _ hone, ih (by exact hsource) rfl, hsource]
      simp [declaring]

theorem run_typeNames (types : List (Span × Span)) (a : Assembly) :
    a.run (types.map fun t => .typeName t.1 t.2) =
      .ok { a with
        types := (types.map fun t => .type (textThrough a.source t.1 t.2)).reverse ++ a.types } := by
  induction types generalizing a with
  | nil => rfl
  | cons t types ih =>
      rw [List.map_cons, run_cons_of_ok _ rfl, ih]
      simp [textThrough, textOf]

/-- The types of the clause are those reported since it began. -/
theorem run_throws {source : Text} {events : List Event} {throws : List Fragment}
    (h : Throws source events throws) {a : Assembly} {d : Declaration} {outer : List Declaration}
    (hsource : a.source = source) (hdeclared : a.declarations = d :: outer) :
    a.run events = .ok (a.declaring { d with throws := d.throws ++ throws } outer []) := by
  subst hsource
  cases h with
  | nothing => simp [run_nil, declaring, ← hdeclared]
  | clause keyword types hne =>
      have hopen : a.step (.openThrows keyword) =
          .ok { a with throwsStarts := a.types.length :: a.throwsStarts } := by
        simp [step, openThrows, hdeclared]
      rw [run_cons_of_ok _ hopen, run_append_of_ok _ (run_typeNames types _), run_singleton]
      simp [step, closeThrows, updateDeclaration, hdeclared, Except.map, declaring]

/-- Only the outermost arguments of a call of another constructor are extracted. -/
theorem run_delegateArguments {source : Text} {events : List Event} {texts : List Text}
    {warnings : List Warning} (h : DelegateArguments source events texts warnings) {a : Assembly}
    {kind : DelegateTarget} {given : List Text} {lists : List ArgumentCollector}
    (hsource : a.source = source) (hlists : a.arguments = ⟨kind, 1, given⟩ :: lists) :
    a.run events =
      .ok { a.noting warnings with arguments := ⟨kind, 1, given ++ texts⟩ :: lists } := by
  induction h generalizing a given with
  | nothing => simp [run_nil, noting_nil, ← hlists]
  | @argument _ _ text _ warnings _ announced value rest ih =>
      have hawait : a.step (.argument announced) = .ok (a.await .argument) := by
        simp [step, argument, hlists]
      have hvalue := run_expression value (a := a.await .argument) hsource rfl
        (by simp [await, hlists])
      have hfulfil : (((a.await .argument).noting warnings).extracting a.expressions).fulfil
          .argument text =
          .ok { a.noting warnings with
            arguments := ⟨kind, 1, given ++ [Text.trim text]⟩ :: lists } := by
        simp [fulfil, extracting, noting, await, hlists]
      rw [run_cons_of_ok _ hawait, run_append, hvalue, hfulfil, Except.ok_bind,
        ih (by exact hsource) rfl]
      simp [noting, kept_append]

/-! ## Blocks, branches and ends of declarations -/

section Steps

variable {a : Assembly} {top : Handler} {below : List Handler}

theorem step_openBlock_nested (h : a.handlers = top :: below) (hready : top.Ready) (first : Span) :
    a.step (.openBlock first) = .ok (a.updated (.block .nested :: top :: below) [] a.comment) := by
  cases top with
  | root elements => simp [step, openBlock, h, Handler.collects, updated]
  | block b =>
      have hstage : b.stage = .opened := hready
      simp [step, openBlock, h, Handler.collects, updated, hstage]
  | chain c =>
      have hstage : c.stage = .inBlock := hready.1
      simp [step, openBlock, h, Handler.collects, updated, hstage, OpenChain.isBeforeBlock]
  | loop w =>
      have hstage : w.stage = .inBody := hready
      simp [step, openBlock, h, Handler.collects, updated, hstage]

theorem step_closeBlock_nested {elements : Block}
    (h : a.handlers = .block ⟨false, .opened, elements⟩ :: top :: below) (hready : top.Ready)
    (last : Span) :
    a.step (.closeBlock last) = .ok (a.updated (top.add elements :: below) [] none) := by
  have hreport : elements.foldlM report (a.updated (top :: below) [] none) = _ :=
    foldlM_report hready elements a
  simp [updated] at hreport
  simp [step, closeBlock, h, dropComment, updated, hreport]

theorem step_openBlock_chain {conditions : List Fragment} {blocks : List Block}
    {condition : Fragment}
    (h : a.handlers = .chain ⟨conditions, blocks, some condition, .beforeBlock⟩ :: below)
    (first : Span) :
    a.step (.openBlock first) =
      .ok (a.updated (.chain ⟨conditions ++ [condition], blocks ++ [[]], none, .inBlock⟩ :: below) []
        a.comment) := by
  simp [step, openBlock, h, OpenChain.isBeforeBlock, OpenChain.openBlock, Except.map, updated]

theorem step_openBlock_else {conditions : List Fragment} {blocks : List Block}
    (h : a.handlers = .chain ⟨conditions, blocks, none, .beforeElseBlock⟩ :: below)
    (first : Span) :
    a.step (.openBlock first) =
      .ok (a.updated (.chain ⟨conditions, blocks ++ [[]], none, .inBlock⟩ :: below) []
        a.comment) := by
  simp [step, openBlock, h, OpenChain.isBeforeBlock, OpenChain.openBlock, Except.map, updated]

theorem step_closeBlock_chain {conditions : List Fragment} {blocks : List Block}
    (h : a.handlers = .chain ⟨conditions, blocks, none, .inBlock⟩ :: below) (last : Span) :
    a.step (.closeBlock last) =
      .ok (a.updated
        (.chain ⟨conditions, blocks, none,
          if blocks.length - conditions.length = 1 then .afterElse else .betweenBranches⟩ :: below)
        [] none) := by
  simp [step, closeBlock, h, OpenChain.closeBlock, OpenChain.unmatchedBlocks, Except.map, updated,
    dropComment]
  rfl

theorem step_openBlock_loop {condition : Fragment}
    (h : a.handlers = .loop ⟨condition, [], .beforeBody⟩ :: below) (first : Span) :
    a.step (.openBlock first) =
      .ok (a.updated (.loop ⟨condition, [], .inBody⟩ :: below) [] a.comment) := by
  simp [step, openBlock, h, OpenLoop.openBody, OpenLoop.require, Except.map, Except.ok_bind, updated,
    pure, Except.pure]

theorem step_closeBlock_loop {condition : Fragment} {body : Block}
    (h : a.handlers = .loop ⟨condition, body, .inBody⟩ :: below) (last : Span) :
    a.step (.closeBlock last) =
      .ok (a.updated (.loop ⟨condition, body, .afterBody⟩ :: below) [] none) := by
  simp [step, closeBlock, h, OpenLoop.closeBody, OpenLoop.require, Except.map, Except.ok_bind, updated,
    pure, Except.pure, dropComment]

theorem step_openBlock_body (h : a.handlers = .block .body :: below) (first : Span) :
    a.step (.openBlock first) =
      .ok (a.updated (.block ⟨true, .opened, []⟩ :: below) [] a.comment) := by
  simp [step, openBlock, h, OpenBlock.body, updated]

theorem step_closeBlock_body {elements : Block}
    (h : a.handlers = .block ⟨true, .opened, elements⟩ :: below) (last : Span) :
    a.step (.closeBlock last) =
      .ok (a.updated (.block ⟨true, .closed, elements⟩ :: below) [] none) := by
  simp [step, closeBlock, h, updated, dropComment]

theorem step_closeIf {condition : Fragment} {conditions : List Fragment} {block : Block}
    {blocks : List Block} {stage : ChainStage}
    (h : a.handlers = .chain ⟨condition :: conditions, block :: blocks, none, stage⟩ :: top ::
      below)
    (hready : top.Ready) (hstage : stage = .betweenBranches ∨ stage = .afterElse) (last : Span) :
    a.step (.closeIf last) =
      .ok (a.updated
        (top.add [.ifChain condition block conditions (blocks.take conditions.length)
          (blocks.drop conditions.length).head?] :: below) [] none) := by
  have hreport := report_eq (a := { a with handlers := top :: below }) rfl hready
  rcases hstage with rfl | rfl <;>
    simp [step, closeIf, h, OpenChain.finish, Except.ok_bind, hreport, updated]

theorem step_closeWhile {condition : Fragment} {body : Block}
    (h : a.handlers = .loop ⟨condition, body, .afterBody⟩ :: top :: below) (hready : top.Ready)
    (last : Span) :
    a.step (.closeWhile last) =
      .ok (a.updated (top.add [.whileLoop condition body] :: below) [] none) := by
  have hreport := report_eq (a := { a with handlers := top :: below }) rfl hready
  simp [step, closeWhile, h, OpenLoop.finish, OpenLoop.require, Except.ok_bind, hreport, updated, pure,
    Except.pure]

/-- The end of a declaration is the only event that a sentence cannot always follow. -/
theorem step_closeDeclaration {d : Declaration} {outer : List Declaration} {body : Option Block}
    (h : a.handlers = .block ⟨true, if body.isSome then .closed else .unopened, body.getD []⟩ ::
      top :: below)
    (hdeclared : a.declarations = d :: outer) (hready : top.Ready) (last : Span) :
    a.step (.closeDeclaration last body.isSome) =
        .ok ({ a with declarations := outer }.updated
          (top.add [d.element (Access.named d.modifiers) body] :: below)
          (leftoverWarnings d.line (if d.isConstructor then .constructors else .methods)
            (d.shownWords body.isSome) d.modifiers) none) ∨
      (∃ levels, a.step (.closeDeclaration last body.isSome) = .error (.accessConflict levels)) ∧
        ¬ Access.IsClear d.modifiers := by
  rcases accessOf_eq d.modifiers with haccess | ⟨⟨levels, haccess⟩, hclear⟩
  · left
    have hreport := report_eq
      (a := { a with
        handlers := top :: below
        declarations := outer
        warnings := a.warnings ++ leftoverWarnings d.line
          (if d.isConstructor then .constructors else .methods) (d.shownWords body.isSome)
          d.modifiers }) rfl hready
    cases body <;>
      simp [step, closeDeclaration, h, hdeclared, Declaration.finish, haccess, Except.map,
        Except.ok_bind, warnModifiers, Declaration.leftovers, updated]
    · exact (hreport _).trans (by simp [updated])
    · exact (hreport _).trans (by simp [updated])
  · right
    refine ⟨⟨levels, ?_⟩, hclear⟩
    cases body <;>
      simp [step, closeDeclaration, h, hdeclared, Declaration.finish, haccess, Except.map,
        Except.error_bind]

end Steps

end Assembly

end CodeFrames
