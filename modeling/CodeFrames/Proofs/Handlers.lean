import CodeFrames.Proofs.Ledger

/-!
# What an event does to the handlers

Of the handlers, an event reaches the topmost only.  It reports some elements to the handler on top,
it takes that handler to another stage, it puts a new one above it, or it takes it away and reports
to the handler below.  A new body comes with a new declaration, and the end of a body is the end of a
declaration.  What holds of the handlers of every run follows from these cases.
-/

namespace CodeFrames

namespace Assembly

/-- The expression that an event ends, where it was awaited for the use `use`. -/
def captured? (a : Assembly) (use : ExpressionUse) : Event → Option Fragment
  | .closeExpression last isEmpty =>
      a.expressions.head?.bind fun x =>
        match x.closed a.source last.stop isEmpty with
        | .ok (_, some text) =>
            if x.use = use then some (.expression (withSubtypeOperator text)) else none
        | _ => none
  | _ => none

/-- The event is for the handler on top: it leads to another stage of it, if it neither ends it nor puts
a new one above it. -/
def addressesTop (a : Assembly) : Event → Bool
  | .openBlock _ | .closeBlock _ | .elseIf _ | .otherwise _ => true
  | e => (a.captured? .elseIfCondition e).isSome

/-- The elements that an event reports to the handler that is on top behind it: those of a block among
statements that it closes, or the one that it completes. -/
def reported (a : Assembly) : Event → Block
  | .closeBlock _ =>
      match a.handlers with
      | .block b :: _ => if b.isBody then [] else b.statements
      | _ => []
  | e => (a.completed? e).toList

end Assembly

namespace Handler

def isRoot : Handler → Bool
  | .root _ => true
  | _ => false

/-- The body of a declaration. -/
def isBody : Handler → Bool
  | .block b => b.isBody
  | _ => false

/-- Elements given to a handler one after the other. -/
def pushAll (h : Handler) (elements : Block) : Except ConversionError Handler :=
  elements.foldlM (fun h e => h.push e) h

/-- A handler that an event puts on top without a declaration. -/
inductive IsNew (a : Assembly) : Event → Handler → Prop
  | chain {event : Event} {condition : Fragment} :
      a.captured? .ifCondition event = some condition → IsNew a event (.chain (.start condition))
  | loop {event : Event} {condition : Fragment} :
      a.captured? .whileCondition event = some condition → IsNew a event (.loop (.start condition))
  | block (first : Span) : IsNew a (.openBlock first) (.block .nested)

/-- How an event takes a handler from one stage to another. -/
inductive Turns (a : Assembly) : Event → Handler → Handler → Prop
  | openBody (first : Span) {b : OpenBlock} :
      b.stage = .unopened → Turns a (.openBlock first) (.block b) (.block { b with stage := .opened })
  | closeBody (last : Span) {b : OpenBlock} :
      b.stage = .opened → b.isBody = true →
      Turns a (.closeBlock last) (.block b) (.block { b with stage := .closed })
  | openBranch (first : Span) {c d : OpenChain} :
      c.isBeforeBlock = true → c.openBlock = .ok d → Turns a (.openBlock first) (.chain c) (.chain d)
  | closeBranch (last : Span) {c d : OpenChain} :
      c.closeBlock = .ok d → Turns a (.closeBlock last) (.chain c) (.chain d)
  | elseIf (keyword : Span) {c d : OpenChain} :
      c.openElseIf = .ok d → Turns a (.elseIf keyword) (.chain c) (.chain d)
  | condition (last : Span) (isEmpty : Bool) {condition : Fragment} {c d : OpenChain} :
      a.captured? .elseIfCondition (.closeExpression last isEmpty) = some condition →
      c.setCondition condition = .ok d → Turns a (.closeExpression last isEmpty) (.chain c) (.chain d)
  | otherwise (keyword : Span) {c d : OpenChain} :
      c.openElse = .ok d → Turns a (.otherwise keyword) (.chain c) (.chain d)
  | openLoop (first : Span) {w v : OpenLoop} :
      w.openBody = .ok v → Turns a (.openBlock first) (.loop w) (.loop v)
  | closeLoop (last : Span) {w v : OpenLoop} :
      w.closeBody = .ok v → Turns a (.closeBlock last) (.loop w) (.loop v)

/-- Some handlers before and after elements were reported to the one on top. -/
inductive Receives : List Handler → Block → List Handler → Prop
  | nothing (handlers : List Handler) : Receives handlers [] handlers
  | elements {top grown : Handler} (below : List Handler) {elements : Block} :
      top.pushAll elements = .ok grown → Receives (top :: below) elements (grown :: below)

theorem isRoot_eq_false_of_isBody {h : Handler} (hbody : h.isBody = true) : h.isRoot = false := by
  cases h <;> simp_all [isRoot, isBody]

section

variable {a : Assembly} {event : Event} {h top turned : Handler}

theorem IsNew.isRoot (hnew : IsNew a event h) : h.isRoot = false := by
  cases hnew <;> rfl

theorem IsNew.isBody (hnew : IsNew a event h) : h.isBody = false := by
  cases hnew <;> rfl

/-- A handler stays what it is when it goes to another stage. -/
theorem Turns.kind (h : Turns a event top turned) :
    turned.isRoot = top.isRoot ∧ turned.isBody = top.isBody := by
  cases h <;> exact ⟨rfl, rfl⟩

end

theorem kind_of_push {h grown : Handler} {e : Element} (hpush : h.push e = .ok grown) :
    grown.isRoot = h.isRoot ∧ grown.isBody = h.isBody := by
  cases h with
  | root elements =>
      cases hpush
      exact ⟨rfl, rfl⟩
  | block b =>
      obtain ⟨d, hd, rfl⟩ := Except.exists_of_map hpush
      unfold OpenBlock.push at hd
      split at hd <;> cases hd
      exact ⟨rfl, rfl⟩
  | chain c =>
      obtain ⟨d, -, rfl⟩ := Except.exists_of_map hpush
      exact ⟨rfl, rfl⟩
  | loop w =>
      obtain ⟨v, -, rfl⟩ := Except.exists_of_map hpush
      exact ⟨rfl, rfl⟩

theorem kind_of_pushAll {h grown : Handler} {elements : Block} (hpush : h.pushAll elements = .ok grown) :
    grown.isRoot = h.isRoot ∧ grown.isBody = h.isBody := by
  induction elements generalizing h with
  | nil =>
      cases hpush
      exact ⟨rfl, rfl⟩
  | cons e elements ih =>
      rw [pushAll, List.foldlM_cons] at hpush
      obtain ⟨next, hnext, hrest⟩ := Except.exists_of_bind hpush
      obtain ⟨hroot, hbody⟩ := ih hrest
      obtain ⟨hroot', hbody'⟩ := kind_of_push hnext
      exact ⟨hroot.trans hroot', hbody.trans hbody'⟩

theorem Receives.append {handlers others final : List Handler} {elements more : Block}
    (h : Receives handlers elements others) (g : Receives others more final) :
    Receives handlers (elements ++ more) final := by
  cases h with
  | nothing => exact g
  | @elements top grown below _ hpush =>
      cases g with
      | nothing => exact .elements below (by rwa [List.append_nil])
      | elements _ hmore =>
          refine .elements below ?_
          rw [pushAll, List.foldlM_append, ← pushAll, hpush]
          exact hmore

section

variable {above below rest handlers : List Handler} {h top other : Handler}

/-- With another handler of its kind on top, each handler has its counterpart at the same place: the one
on top is the other one, and all else is as it was. -/
theorem exists_of_retop (hkind : other.isBody = top.isBody)
    (hsplit : other :: rest = above ++ h :: below) :
    ∃ above' h', top :: rest = above' ++ h' :: below ∧ h'.isBody = h.isBody ∧
      above'.countP isBody = above.countP isBody ∧
      (above = [] ∧ h = other ∧ h' = top ∨ above ≠ [] ∧ h' = h) := by
  cases above with
  | nil =>
      obtain ⟨rfl, rfl⟩ := List.cons.inj hsplit
      exact ⟨[], top, rfl, hkind.symm, rfl, .inl ⟨rfl, rfl, rfl⟩⟩
  | cons first above =>
      obtain ⟨rfl, rfl⟩ := List.cons.inj hsplit
      exact ⟨top :: above, h, rfl, rfl, by simp only [List.countP_cons, hkind],
        .inr ⟨List.cons_ne_nil _ _, rfl⟩⟩

theorem Receives.exists_of_append {elements : Block}
    (hreceives : Receives handlers elements (above ++ h :: below)) :
    ∃ above' h', handlers = above' ++ h' :: below ∧ h'.isBody = h.isBody ∧
      above'.countP isBody = above.countP isBody ∧
      (above = [] ∧ h'.pushAll elements = .ok h ∨ above ≠ [] ∧ h' = h) := by
  generalize hothers : above ++ h :: below = others at hreceives
  cases hreceives with
  | nothing =>
      refine ⟨above, h, hothers.symm, rfl, rfl, ?_⟩
      by_cases habove : above = []
      · exact .inl ⟨habove, rfl⟩
      · exact .inr ⟨habove, rfl⟩
  | elements rest hpush =>
      obtain ⟨above', h', hhandlers, hkind, hcount, ⟨htop, rfl, rfl⟩ | hcovered⟩ :=
        exists_of_retop (kind_of_pushAll hpush).2 hothers.symm
      · exact ⟨above', h', hhandlers, hkind, hcount, .inl ⟨htop, hpush⟩⟩
      · exact ⟨above', h', hhandlers, hkind, hcount, .inr hcovered⟩

end

theorem Receives.ne_nil {handlers others : List Handler} {elements : Block}
    (h : Receives handlers elements others) (hne : handlers ≠ []) : others ≠ [] := by
  cases h with
  | nothing => exact hne
  | elements below _ => exact List.cons_ne_nil _ below

end Handler

open Handler

namespace Assembly

variable {a b : Assembly}

/-- What an event does to the handlers and the open declarations. -/
inductive Moves (a b : Assembly) (event : Event) : Prop
  /-- The handler on top receives what the event reports. -/
  | received :
      b.begun = a.begun → a.addressesTop event = false →
      Receives a.handlers (a.reported event) b.handlers → Moves a b event
  /-- A new handler is put on top. -/
  | pushed {top : Handler} :
      b.begun = a.begun → IsNew a event top → b.handlers = top :: a.handlers → Moves a b event
  /-- The handler on top goes to another stage. -/
  | turned {top turned : Handler} {below : List Handler} :
      b.begun = a.begun → a.handlers = top :: below → b.handlers = turned :: below →
      Turns a event top turned → a.reported event = [] → Moves a b event
  /-- The handler on top ends, and the one below receives what the event reports. -/
  | popped {top : Handler} {below : List Handler} :
      b.begun = a.begun → a.handlers = top :: below → top.isRoot = false → top.isBody = false →
      Receives below (a.reported event) b.handlers → Moves a b event
  /-- A declaration begins with its body. -/
  | began {d : Declaration} :
      a.begins? event = some d → b.begun = d :: a.begun → b.handlers = .block .body :: a.handlers →
      Moves a b event
  /-- A declaration ends with its body. -/
  | ended {body : OpenBlock} {below : List Handler} {d : Declaration} :
      a.begun = d :: b.begun → a.handlers = .block body :: below → body.isBody = true →
      Receives below (a.reported event) b.handlers → Moves a b event

/-! ## Reports -/

theorem receives_report {e : Element} (h : a.report e = .ok b) :
    Receives a.handlers [e] b.handlers := by
  unfold report at h
  split at h
  · cases h
  · next top below hhandlers =>
      obtain ⟨grown, hpush, rfl⟩ := Except.exists_of_map h
      rw [hhandlers]
      exact .elements below (by simpa [pushAll] using hpush)

theorem receives_reports {elements : Block} (h : elements.foldlM report a = .ok b) :
    Receives a.handlers elements b.handlers := by
  induction elements generalizing a with
  | nil =>
      obtain rfl : a = b := by simpa [pure, Except.pure] using h
      exact .nothing _
  | cons e elements ih =>
      rw [List.foldlM_cons] at h
      obtain ⟨next, hreport, hrest⟩ := Except.exists_of_bind h
      exact (receives_report hreport).append (ih hrest)

/-! ## Events -/

namespace Moves

variable {event : Event}

/-- An event that leaves the handlers alone and reports nothing. -/
theorem of_handlers (hbegun : b.begun = a.begun) (haddresses : a.addressesTop event = false)
    (hreported : a.reported event = []) (h : b.handlers = a.handlers) : Moves a b event := by
  refine .received hbegun haddresses ?_
  rw [hreported, h]
  exact .nothing _

theorem of_report {e : Element} (hbegun : b.begun = a.begun)
    (haddresses : a.addressesTop event = false) (hreported : a.reported event = [e])
    {c : Assembly} (hc : c.handlers = a.handlers) (h : c.report e = .ok b) : Moves a b event := by
  refine .received hbegun haddresses ?_
  rw [hreported, ← hc]
  exact receives_report h

end Moves

theorem exists_of_updateChain {f : OpenChain → Except ConversionError OpenChain}
    (h : a.updateChain f = .ok b) :
    ∃ chain below d, a.handlers = .chain chain :: below ∧ f chain = .ok d ∧
      b = { a with handlers := .chain d :: below } := by
  unfold updateChain at h
  split at h
  · cases h
  · next chain below hhandlers =>
      obtain ⟨d, hd, rfl⟩ := Except.exists_of_map h
      exact ⟨chain, below, d, hhandlers, hd, rfl⟩
  · cases h

theorem moves_fulfil {last : Span} {isEmpty : Bool} {use : ExpressionUse} {text : Text} {c : Assembly}
    (hbegun : c.begun = a.begun) (hc : c.handlers = a.handlers)
    (hreported : a.reported (.closeExpression last isEmpty) = (c.fulfilled? use text).toList)
    (hcaptured : ∀ wanted, a.captured? wanted (.closeExpression last isEmpty) =
      if use = wanted then some (.expression text) else none)
    (h : c.fulfil use text = .ok b) : Moves a b (.closeExpression last isEmpty) := by
  replace hbegun : b.begun = a.begun := (congrArg Ledger.begun (ledger_fulfil h)).trans hbegun
  have haddresses : a.addressesTop (.closeExpression last isEmpty) =
      decide (use = .elseIfCondition) := by
    change (a.captured? .elseIfCondition (.closeExpression last isEmpty)).isSome = _
    rw [hcaptured]
    split <;> simp_all
  cases use with
  | ifCondition =>
      cases h
      exact .pushed hbegun (.chain (hcaptured .ifCondition)) (by rw [hc])
  | whileCondition =>
      cases h
      exact .pushed hbegun (.loop (hcaptured .whileCondition)) (by rw [hc])
  | elseIfCondition =>
      obtain ⟨chain, below, d, hhandlers, hd, rfl⟩ := exists_of_updateChain h
      exact .turned hbegun (hc.symm.trans hhandlers) rfl
        (.condition last isEmpty (hcaptured .elseIfCondition) hd) hreported
  | returnValue | statement | thrown => exact .of_report hbegun haddresses hreported hc h
  | initializer name =>
      simp only [fulfil] at h
      cases hlocals : c.locals with
      | nil => simp [hlocals] at h
      | cons header outer =>
          simp only [hlocals] at h
          rw [fulfilled?, hlocals] at hreported
          exact .of_report hbegun haddresses hreported hc h
  | argument =>
      simp only [fulfil] at h
      split at h <;> cases h
      exact .of_handlers hbegun haddresses hreported hc
  | discarded =>
      cases h
      exact .of_handlers hbegun haddresses hreported hc

theorem moves_closeExpression {last : Span} {isEmpty : Bool}
    (h : a.closeExpression last isEmpty = .ok b) : Moves a b (.closeExpression last isEmpty) := by
  unfold closeExpression at h
  cases hexpressions : a.expressions with
  | nil =>
      simp only [hexpressions, Except.ok.injEq] at h
      subst h
      exact .of_handlers rfl (by simp [addressesTop, captured?, hexpressions])
        (by simp [reported, completed?, hexpressions]) rfl
  | cons x below =>
      simp only [hexpressions] at h
      obtain ⟨⟨y, ended⟩, hclosed, h⟩ := Except.exists_of_bind h
      cases ended with
      | none =>
          cases h
          exact .of_handlers rfl (by simp [addressesTop, captured?, hexpressions, hclosed])
            (by simp [reported, completed?, hexpressions, hclosed]) rfl
      | some text =>
          have huse := (closed_text hclosed).2
          refine moves_fulfil (c := { a with expressions := below }) rfl rfl ?_ (fun wanted => ?_) h
          · simp [reported, completed?, hexpressions, hclosed, huse, fulfilled?]
          · simp [captured?, hexpressions, hclosed, huse]

theorem moves_openBlock {first : Span} (h : a.openBlock = .ok b) :
    Moves a b (.openBlock first) := by
  unfold openBlock at h
  cases hhandlers : a.handlers with
  | nil => simp [hhandlers] at h
  | cons top below =>
    simp only [hhandlers] at h
    have hnested (h : (if top.collects = true then
          Except.ok { a with handlers := .block .nested :: top :: below }
        else Except.error (ConversionError.mismatch .readyForBlock top.situation)) = .ok b) :
        Moves a b (.openBlock first) := by
      split at h <;> cases h
      exact .pushed rfl (.block first) (by rw [hhandlers])
    cases top with
    | root elements => exact hnested h
    | block body =>
        simp only at h
        split at h
        · next hstage =>
            cases h
            exact .turned rfl hhandlers rfl (.openBody first hstage) rfl
        · exact hnested h
    | chain c =>
        simp only at h
        split at h
        · next hbefore =>
            obtain ⟨d, hd, rfl⟩ := Except.exists_of_map h
            exact .turned rfl hhandlers rfl (.openBranch first hbefore hd) rfl
        · exact hnested h
    | loop w =>
        simp only at h
        split at h
        · obtain ⟨v, hv, rfl⟩ := Except.exists_of_map h
          exact .turned rfl hhandlers rfl (.openLoop first hv) rfl
        · exact hnested h

theorem moves_closeBlock {last : Span} (hbegun : b.begun = a.begun) (h : a.closeBlock = .ok b) :
    Moves a b (.closeBlock last) := by
  unfold closeBlock at h
  cases hhandlers : a.handlers with
  | nil => simp [hhandlers] at h
  | cons top below =>
    simp only [hhandlers] at h
    cases top with
    | root elements => cases h
    | block block =>
        simp only at h
        split at h
        · next hstage =>
            split at h
            · next hbody =>
                cases h
                exact .turned rfl hhandlers rfl (.closeBody last hstage hbody)
                  (by simp [reported, hhandlers, hbody])
            · next hnested =>
                have hnot : block.isBody = false := by simpa using hnested
                refine .popped hbegun hhandlers rfl hnot ?_
                rw [reported, hhandlers]
                simp only [hnot, Bool.false_eq_true, if_false]
                exact (receives_reports h :)
        · cases h
    | chain c =>
        obtain ⟨d, hd, rfl⟩ := Except.exists_of_map h
        exact .turned rfl hhandlers rfl (.closeBranch last hd) (by simp [reported, hhandlers])
    | loop w =>
        obtain ⟨v, hv, rfl⟩ := Except.exists_of_map h
        exact .turned rfl hhandlers rfl (.closeLoop last hv) (by simp [reported, hhandlers])

theorem moves_closeIf {last : Span} (hbegun : b.begun = a.begun) (h : a.closeIf = .ok b) :
    Moves a b (.closeIf last) := by
  unfold closeIf at h
  split at h
  · cases h
  · next chain below hhandlers =>
      obtain ⟨e, he, h⟩ := Except.exists_of_bind h
      refine .popped hbegun hhandlers rfl rfl ?_
      simp only [reported, completed?, hhandlers, he]
      exact (receives_report h :)
  · cases h

theorem moves_closeWhile {last : Span} (hbegun : b.begun = a.begun) (h : a.closeWhile = .ok b) :
    Moves a b (.closeWhile last) := by
  unfold closeWhile at h
  split at h
  · cases h
  · next loop below hhandlers =>
      obtain ⟨e, he, h⟩ := Except.exists_of_bind h
      refine .popped hbegun hhandlers rfl rfl ?_
      simp only [reported, completed?, hhandlers, he]
      exact (receives_report h :)
  · cases h

theorem moves_closeDeclaration {last : Span} {hasBody : Bool} (hbegun : b.begun = a.begun.tail)
    (h : a.closeDeclaration hasBody = .ok b) : Moves a b (.closeDeclaration last hasBody) := by
  obtain ⟨body, below, d, outer, e, hhandlers, hdeclarations, hbody, -, he, hreport⟩ :=
    exists_of_closeDeclaration h
  refine .ended (d := d.begun) ?_ hhandlers hbody ?_
  · rw [hbegun, begun, hdeclarations]
    rfl
  · simp only [reported, completed?, hhandlers, hdeclarations, he]
    exact (receives_report hreport :)

/-- What every event does to the handlers. -/
theorem moves_step {event : Event} (h : a.step event = .ok b) : Moves a b event := by
  obtain ⟨-, -, hbegun, -, -⟩ := Ledger.mk.inj (ledger_step h)
  change b.begun = _ at hbegun
  cases event with
  | openExpression first =>
      cases h
      refine .of_handlers hbegun rfl rfl ?_
      unfold openExpression
      split <;> rfl
  | closeExpression last isEmpty => exact moves_closeExpression h
  | openArguments paren =>
      cases h
      refine .of_handlers hbegun rfl rfl ?_
      unfold openArguments
      split <;> rfl
  | argument first =>
      cases h
      refine .of_handlers hbegun rfl rfl ?_
      unfold argument
      split
      · rfl
      · split <;> rfl
  | closeArguments paren => exact .of_handlers hbegun rfl rfl (handlers_closeArguments h)
  | openBlock first => exact moves_openBlock h
  | closeBlock last => exact moves_closeBlock hbegun h
  | openIf keyword | openWhile keyword | thrown keyword | expressionStatement first
  | typeName first last | emptyStatement semicolon | unsupported place construct | comment whole =>
      cases h
      exact .of_handlers rfl rfl rfl rfl
  | elseIf keyword =>
      obtain ⟨c, hc, rfl⟩ := Except.exists_of_map h
      obtain ⟨chain, below, d, hhandlers, hd, rfl⟩ := exists_of_updateChain hc
      exact .turned hbegun hhandlers rfl (.elseIf keyword hd) rfl
  | otherwise keyword =>
      obtain ⟨chain, below, d, hhandlers, hd, rfl⟩ := exists_of_updateChain h
      exact .turned hbegun hhandlers rfl (.otherwise keyword hd) rfl
  | closeIf last => exact moves_closeIf hbegun h
  | closeWhile last => exact moves_closeWhile hbegun h
  | returned keyword hasValue =>
      cases hasValue with
      | true =>
          cases h
          exact .of_handlers rfl rfl rfl rfl
      | false => exact .of_report (c := a) hbegun rfl rfl rfl h
  | jumped jump keyword label =>
      refine .of_report hbegun rfl rfl ?_ (show Assembly.report _ (.jump jump) = .ok b from h)
      split <;> rfl
  | openVariables first modifiers => exact .of_handlers hbegun rfl rfl (handlers_openVariables h)
  | declarator name hasValue =>
      cases hasValue with
      | true =>
          cases h
          exact .of_handlers rfl rfl rfl rfl
      | false =>
          simp only [step, declarator, Bool.false_eq_true, if_false] at h
          cases hlocals : a.locals with
          | nil => simp [hlocals] at h
          | cons header outer =>
              simp only [hlocals] at h
              exact .of_report (c := a) hbegun rfl (by simp [reported, completed?, hlocals]) rfl h
  | closeVariables semicolon => exact .of_handlers hbegun rfl rfl (handlers_closeVariables h)
  | openMethod first modifiers name =>
      obtain ⟨⟨type, c⟩, hclaim, h⟩ := Except.exists_of_bind h
      obtain ⟨types, htypes, rfl⟩ := exists_of_claimType hclaim
      cases h
      have hbegins : a.begins? (.openMethod first modifiers name) = some (.start
          (.method type (.name (a.textOf name))) (modifiers.map a.textOf) a.comment first.line) := by
        rw [begins?, htypes]
        rfl
      simp only [begunAfter, hbegins] at hbegun
      exact .began hbegins hbegun rfl
  | openConstructor first modifiers name =>
      cases h
      exact .began rfl hbegun rfl
  | parameter name ellipsis => exact .of_handlers hbegun rfl rfl (handlers_parameter h)
  | openThrows keyword => exact .of_handlers hbegun rfl rfl (handlers_openThrows h)
  | closeThrows => exact .of_handlers hbegun rfl rfl (handlers_closeThrows h)
  | delegateCall keyword => exact .of_handlers hbegun rfl rfl (handlers_delegateCall h)
  | closeDeclaration last hasBody => exact moves_closeDeclaration hbegun h

/-- The last step of a run. -/
theorem exists_of_run_concat {events : List Event} {event : Event}
    (h : a.run (events ++ [event]) = .ok b) : ∃ c, a.run events = .ok c ∧ c.step event = .ok b := by
  rw [run_append] at h
  obtain ⟨c, hrun, hstep⟩ := Except.exists_of_bind h
  exact ⟨c, hrun, (run_singleton c event).symm.trans hstep⟩

end Assembly

end CodeFrames
