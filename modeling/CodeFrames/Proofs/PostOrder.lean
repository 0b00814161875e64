import CodeFrames.Proofs.Decoding.Inversion

/-!
# Elements in the order of their completion

No element is lost, doubled or moved.  In post-order, where the elements in the blocks of an element
come before the element itself, a frame lists exactly the elements that the events completed, in the
order in which they did.  This holds of every sequence of events that an assembly takes, whether or
not it describes a source.  The invariant behind it: what the open handlers hold, from the bottom of
the stack to its top, is what has been completed so far.
-/

namespace CodeFrames

/-! ## Post-order -/

mutual

/-- An element behind the elements in its blocks. -/
def Element.postOrder : Element → List Element
  | .ifChain condition thenBlock conditions blocks elseBlock =>
      blockPostOrder thenBlock ++ (branchesPostOrder blocks ++ (elsePostOrder elseBlock ++
        [.ifChain condition thenBlock conditions blocks elseBlock]))
  | .whileLoop condition body => blockPostOrder body ++ [.whileLoop condition body]
  | .method documentation access isStatic isFinal returnType name parameters throws body =>
      blockPostOrder body ++
        [.method documentation access isStatic isFinal returnType name parameters throws body]
  | .constructor documentation access parameters throws delegate body =>
      blockPostOrder body ++ [.constructor documentation access parameters throws delegate body]
  | e => [e]

def blockPostOrder : List Element → List Element
  | [] => []
  | e :: es => e.postOrder ++ blockPostOrder es

def branchesPostOrder : List (List Element) → List Element
  | [] => []
  | block :: blocks => blockPostOrder block ++ branchesPostOrder blocks

def elsePostOrder : Option (List Element) → List Element
  | none => []
  | some block => blockPostOrder block

end

theorem blockPostOrder_append (block others : Block) :
    blockPostOrder (block ++ others) = blockPostOrder block ++ blockPostOrder others := by
  induction block with
  | nil => simp [blockPostOrder]
  | cons e block ih => simp [blockPostOrder, ih]

theorem blockPostOrder_singleton (e : Element) : blockPostOrder [e] = e.postOrder := by
  simp [blockPostOrder]

theorem branchesPostOrder_append (blocks others : List Block) :
    branchesPostOrder (blocks ++ others) =
      branchesPostOrder blocks ++ branchesPostOrder others := by
  induction blocks with
  | nil => simp [branchesPostOrder]
  | cons block blocks ih => simp [branchesPostOrder, ih]

theorem postOrder_statementElement (text : Text) :
    (Assembly.statementElement text).postOrder = [Assembly.statementElement text] := by
  unfold Assembly.statementElement
  split <;> rfl

theorem postOrder_variable (header : VariableHeader) (name : Fragment) (value : Option Fragment) :
    (header.element name value).postOrder = [header.element name value] := rfl

/-- The body of a declaration comes before the declaration. -/
theorem Declaration.postOrder_finish {d : Declaration} {body : Option Block} {e : Element}
    (h : d.finish body = .ok e) : e.postOrder = blockPostOrder (body.getD []) ++ [e] := by
  unfold Declaration.finish at h
  cases haccess : accessOf d.modifiers with
  | error conflict => simp [haccess, Except.map] at h
  | ok access =>
      simp only [haccess, Except.map, Except.ok.injEq] at h
      subst h
      cases hheader : d.header <;> cases body <;>
        simp [Declaration.element, hheader, Element.postOrder, blockPostOrder]

/-! ## What a handler holds -/

namespace OpenChain

/-- Each condition has its block, and a further block is there once the else block has begun. -/
def Paired (c : OpenChain) : Prop :=
  match c.stage with
  | .inBlock =>
      c.blocks.length = c.conditions.length ∨ c.blocks.length = c.conditions.length + 1
  | .afterElse => c.blocks.length = c.conditions.length + 1
  | _ => c.blocks.length = c.conditions.length

theorem branchesPostOrder_pushLast? {e : Element} {blocks others : List Block}
    (h : pushLast? e blocks = some others) :
    others.length = blocks.length ∧
      branchesPostOrder others = branchesPostOrder blocks ++ e.postOrder := by
  induction blocks generalizing others with
  | nil => simp [pushLast?] at h
  | cons block blocks ih =>
      cases blocks with
      | nil =>
          obtain rfl : [block ++ [e]] = others := by simpa [pushLast?] using h
          simp [branchesPostOrder, blockPostOrder_append, blockPostOrder_singleton]
      | cons second blocks =>
          obtain ⟨pushed, hpushed, rfl⟩ : ∃ pushed, pushLast? e (second :: blocks) = some pushed ∧
              block :: pushed = others := by
            simpa [pushLast?, Option.map_eq_some_iff] using h
          obtain ⟨hlength, horder⟩ := ih hpushed
          rw [branchesPostOrder.eq_2, horder, branchesPostOrder.eq_2 block, List.append_assoc]
          simp [hlength]

end OpenChain

namespace Handler

/-- The elements in the blocks of a handler, in post-order. -/
def collected : Handler → List Element
  | .root elements => blockPostOrder elements
  | .block b => blockPostOrder b.statements
  | .chain c => branchesPostOrder c.blocks
  | .loop w => blockPostOrder w.body

/-- Nothing is in a body that has not been opened, and a chain pairs conditions with blocks. -/
def Sound : Handler → Prop
  | .block b => b.stage = .unopened → b.statements = []
  | .chain c => c.Paired
  | _ => True

/-- An element that a handler takes comes behind those it holds. -/
theorem collected_push {h top : Handler} {e : Element} (hpush : h.push e = .ok top)
    (hsound : h.Sound) : top.Sound ∧ top.collected = h.collected ++ e.postOrder := by
  cases h with
  | root elements =>
      obtain rfl : Handler.root (elements ++ [e]) = top := by simpa [push] using hpush
      exact ⟨trivial, by simp [collected, blockPostOrder_append, blockPostOrder_singleton]⟩
  | block b =>
      by_cases hstage : b.stage = .opened
      · obtain rfl : Handler.block { b with statements := b.statements ++ [e] } = top := by
          simpa [push, OpenBlock.push, hstage, Except.map] using hpush
        exact ⟨by simp [Sound, hstage],
          by simp [collected, blockPostOrder_append, blockPostOrder_singleton]⟩
      · simp [push, OpenBlock.push, hstage, Except.map] at hpush
  | chain c =>
      by_cases hstage : c.stage = .inBlock
      · cases hblocks : OpenChain.pushLast? e c.blocks with
        | none => simp [push, OpenChain.push, hstage, hblocks, OpenChain.refuse, Except.map] at hpush
        | some blocks =>
            obtain rfl : Handler.chain { c with blocks } = top := by
              simpa [push, OpenChain.push, hstage, hblocks, Except.map] using hpush
            obtain ⟨hlength, horder⟩ := OpenChain.branchesPostOrder_pushLast? hblocks
            exact ⟨by simpa [Sound, OpenChain.Paired, hstage, hlength] using hsound, horder⟩
      · simp [push, OpenChain.push, hstage, OpenChain.refuse, Except.map] at hpush
  | loop w =>
      by_cases hstage : w.stage = .inBody
      · obtain rfl : Handler.loop { w with body := w.body ++ [e] } = top := by
          simpa [push, OpenLoop.push, OpenLoop.require, hstage, Except.map, bind, Except.bind, pure,
            Except.pure] using hpush
        exact ⟨trivial, by simp [collected, blockPostOrder_append, blockPostOrder_singleton]⟩
      · simp [push, OpenLoop.push, OpenLoop.require, hstage, Except.map, bind, Except.bind] at hpush

end Handler

theorem Handler.sound_body : (Handler.block .body).Sound := fun _ => rfl

namespace OpenChain

/-- A chain that ends puts the element behind all its blocks: none of them is left over. -/
theorem postOrder_finish {c : OpenChain} {e : Element} (hpaired : c.Paired)
    (h : c.finish = .ok e) : e.postOrder = branchesPostOrder c.blocks ++ [e] := by
  obtain ⟨conditions, blocks, pending, stage⟩ := c
  have hready : stage = .betweenBranches ∨ stage = .afterElse := by
    cases stage <;> simp [finish, refuse] at h ⊢
  have hlength : blocks.length = conditions.length ∨ blocks.length = conditions.length + 1 := by
    rcases hready with rfl | rfl
    · exact .inl hpaired
    · exact .inr hpaired
  cases conditions with
  | nil => rcases hready with rfl | rfl <;> simp [finish] at h
  | cons condition conditions =>
    cases blocks with
    | nil => rcases hready with rfl | rfl <;> simp [finish] at h
    | cons block blocks =>
        obtain rfl : Element.ifChain condition block conditions (blocks.take conditions.length)
            (blocks.drop conditions.length).head? = e := by
          rcases hready with rfl | rfl <;> simpa [finish] using h
        have helse : elsePostOrder (blocks.drop conditions.length).head? =
            branchesPostOrder (blocks.drop conditions.length) := by
          rcases hrest : blocks.drop conditions.length with _ | ⟨final, rest⟩
          · rfl
          · have hone : (final :: rest).length ≤ 1 := by
              rw [← hrest, List.length_drop]
              simp only [List.length_cons] at hlength
              omega
            obtain rfl : rest = [] := by simpa using hone
            simp [elsePostOrder, branchesPostOrder]
        have hsplit := branchesPostOrder_append (blocks.take conditions.length)
          (blocks.drop conditions.length)
        rw [List.take_append_drop] at hsplit
        rw [Element.postOrder, helse, branchesPostOrder, hsplit]
        simp only [List.append_assoc]

theorem paired_openBlock {c d : OpenChain} (h : c.openBlock = .ok d) (hpaired : c.Paired) :
    d.Paired ∧ branchesPostOrder d.blocks = branchesPostOrder c.blocks := by
  obtain ⟨conditions, blocks, pending, stage⟩ := c
  cases stage <;> cases pending <;> simp only [openBlock, refuse, Except.ok.injEq, reduceCtorEq] at h <;>
    subst h <;> simp_all [Paired, branchesPostOrder_append, branchesPostOrder, blockPostOrder]

theorem paired_closeBlock {c d : OpenChain} (h : c.closeBlock = .ok d) (hpaired : c.Paired) :
    d.Paired ∧ d.blocks = c.blocks := by
  obtain ⟨conditions, blocks, pending, stage⟩ := c
  by_cases hstage : stage = .inBlock
  · simp only [closeBlock, hstage, if_true, Except.ok.injEq] at h
    subst h
    subst hstage
    refine ⟨?_, rfl⟩
    rcases hpaired with hlength | hlength <;> simp only at hlength <;>
      simp [Paired, unmatchedBlocks, hlength]
  · simp [closeBlock, hstage, refuse] at h

/-- Between two stages in which each condition has its block, the pairs stay the same. -/
theorem paired_moved {c d : OpenChain} {stage next : ChainStage} {pending : Option Fragment}
    {expected : Requirement} (hstage : stage ≠ .inBlock ∧ stage ≠ .afterElse)
    (hnext : next ≠ .inBlock ∧ next ≠ .afterElse)
    (h : (if c.stage = stage then .ok { c with pending, stage := next } else c.refuse expected) =
      .ok d) (hpaired : c.Paired) : d.Paired ∧ d.blocks = c.blocks := by
  split at h
  · rename_i hc
    cases h
    obtain ⟨conditions, blocks, awaited, was⟩ := c
    simp only at hc
    subst hc
    cases was <;> cases next <;> simp_all [Paired]
  · cases h

theorem paired_openElseIf {c d : OpenChain} (h : c.openElseIf = .ok d) :
    c.Paired → d.Paired ∧ d.blocks = c.blocks :=
  paired_moved (by decide) (by decide) h

theorem paired_openElse {c d : OpenChain} (h : c.openElse = .ok d) :
    c.Paired → d.Paired ∧ d.blocks = c.blocks :=
  paired_moved (by decide) (by decide) h

theorem paired_setCondition {c d : OpenChain} {condition : Fragment}
    (h : c.setCondition condition = .ok d) : c.Paired → d.Paired ∧ d.blocks = c.blocks :=
  paired_moved (by decide) (by decide) h

end OpenChain

theorem OpenLoop.postOrder_finish {w : OpenLoop} {e : Element} (h : w.finish = .ok e) :
    e.postOrder = blockPostOrder w.body ++ [e] := by
  by_cases hstage : w.stage = .afterBody
  · obtain rfl : Element.whileLoop w.condition w.body = e := by
      simpa [finish, require, hstage, bind, Except.bind, pure, Except.pure] using h
    rfl
  · simp [finish, require, hstage, bind, Except.bind] at h

/-! ## What an event completes -/

/-- The finished expression makes an element of its own. -/
def ExpressionUse.makesElement : ExpressionUse → Bool
  | .returnValue | .statement | .thrown | .initializer _ => true
  | _ => false

namespace Assembly

/-- The element that a finished expression becomes, where it is the value of a statement. -/
def fulfilled? (a : Assembly) (use : ExpressionUse) (text : Text) : Option Element :=
  match use with
  | .returnValue => some (.returnValue (some (.expression text)))
  | .statement => some (statementElement text)
  | .thrown => some (.throwValue (.expression text))
  | .initializer name =>
      a.locals.head?.map (·.element (.name name) (some (.expression text)))
  | _ => none

/-- The element that an event completes, if it completes one: a statement without an expression, a
statement whose expression ends here, or a construct with blocks at its end. -/
def completed? (a : Assembly) : Event → Option Element
  | .returned _ hasValue => if hasValue then none else some (.returnValue none)
  | .jumped jump _ _ => some (.jump jump)
  | .declarator name hasValue =>
      if hasValue then none
      else a.locals.head?.map (·.element (.name (a.textOf name)) none)
  | .closeExpression last isEmpty =>
      a.expressions.head?.bind fun x =>
        match x.closed a.source last.stop isEmpty with
        | .ok (_, some text) => a.fulfilled? x.use (withSubtypeOperator text)
        | _ => none
  | .closeIf _ =>
      match a.handlers with
      | .chain chain :: _ => chain.finish.toOption
      | _ => none
  | .closeWhile _ =>
      match a.handlers with
      | .loop loop :: _ => loop.finish.toOption
      | _ => none
  | .closeDeclaration _ hasBody =>
      match a.handlers, a.declarations with
      | .block b :: _, d :: _ => (d.finish (if hasBody then some b.statements else none)).toOption
      | _, _ => none
  | _ => none

/-- The events that complete an element: a return without a value, a jump, a variable without a
value, the end of the text of a value or a statement, and the end of a construct with blocks. -/
def completes (a : Assembly) : Event → Bool
  | .returned _ hasValue | .declarator _ hasValue => !hasValue
  | .jumped _ _ _ | .closeIf _ | .closeWhile _ | .closeDeclaration _ _ => true
  | .closeExpression _ _ => a.expressions.head?.any fun x => x.depth = 1 && x.use.makesElement
  | _ => false

/-- The states of a run, each with the event that is met in it. -/
def history (a : Assembly) : List Event → List (Assembly × Event)
  | [] => []
  | event :: events =>
      (a, event) ::
        match a.step event with
        | .ok b => b.history events
        | .error _ => []

/-- The elements that the events of a run complete. -/
def completions (a : Assembly) (events : List Event) : List Element :=
  (a.history events).filterMap fun met => met.1.completed? met.2

theorem history_cons_of_ok {a b : Assembly} {event : Event} (events : List Event)
    (h : a.step event = .ok b) : a.history (event :: events) = (a, event) :: b.history events := by
  simp only [history, h]

theorem completions_cons_of_ok {a b : Assembly} {event : Event} (events : List Event)
    (h : a.step event = .ok b) :
    a.completions (event :: events) = (a.completed? event).toList ++ b.completions events := by
  rw [completions, history_cons_of_ok events h, List.filterMap_cons]
  cases hcompleted : a.completed? event <;> simp [completions]

/-! ## What an assembly holds -/

/-- What the handlers hold, from the bottom of the stack to its top. -/
def collected (a : Assembly) : List Element := a.handlers.reverse.flatMap Handler.collected

/-- From one assembly to the other the handlers stay sound and come to hold some more elements. -/
def Gains (a b : Assembly) (gained : List Element) : Prop :=
  (∀ h ∈ a.handlers, h.Sound) →
    (∀ h ∈ b.handlers, h.Sound) ∧ b.collected = a.collected ++ gained

theorem collected_of_handlers {a : Assembly} {top : Handler} {below : List Handler}
    (h : a.handlers = top :: below) :
    a.collected = { a with handlers := below }.collected ++ top.collected := by
  simp [collected, h]

namespace Gains

variable {a b c : Assembly} {gained more : List Element}

theorem of_handlers (h : b.handlers = a.handlers) : Gains a b [] := by
  intro hsound
  rw [collected, collected, h]
  exact ⟨hsound, by simp⟩

theorem trans (h : Gains a b gained) (g : Gains b c more) : Gains a c (gained ++ more) := by
  intro hsound
  obtain ⟨hb, hcollected⟩ := h hsound
  obtain ⟨hc, hmore⟩ := g hb
  exact ⟨hc, by rw [hmore, hcollected, List.append_assoc]⟩

/-- Another handler on top, with what the old one holds and some more. -/
theorem of_top {top other : Handler} {below : List Handler} (ha : a.handlers = top :: below)
    (hb : b.handlers = other :: below)
    (h : top.Sound → other.Sound ∧ other.collected = top.collected ++ gained) : Gains a b gained := by
  intro hsound
  rw [ha] at hsound
  obtain ⟨hother, hcollected⟩ := h (hsound top (by simp))
  refine ⟨?_, by simp [collected, ha, hb, hcollected]⟩
  intro handler hmem
  rw [hb, List.mem_cons] at hmem
  rcases hmem with rfl | hmem
  · exact hother
  · exact hsound handler (by simp [hmem])

/-- A handler that holds nothing is put on top. -/
theorem of_opened {top : Handler} (hb : b.handlers = top :: a.handlers) (htop : top.Sound)
    (hempty : top.collected = []) : Gains a b [] := by
  intro hsound
  refine ⟨?_, by simp [collected, hb, hempty]⟩
  intro handler hmem
  rw [hb, List.mem_cons] at hmem
  rcases hmem with rfl | hmem
  · exact htop
  · exact hsound handler hmem

/-- The handler on top goes away, and what it holds is gained by the rest. -/
theorem of_closed {top : Handler} {below : List Handler} (ha : a.handlers = top :: below)
    (h : top.Sound → Gains { a with handlers := below } b (top.collected ++ gained)) :
    Gains a b gained := by
  intro hsound
  have hbelow : ∀ handler ∈ below, handler.Sound := fun handler hmem =>
    hsound handler (by simp [ha, hmem])
  obtain ⟨hb, hcollected⟩ := h (hsound top (by simp [ha])) hbelow
  exact ⟨hb, by rw [hcollected, collected_of_handlers ha, List.append_assoc]⟩

end Gains

theorem gains_report {a b : Assembly} {e : Element} (h : a.report e = .ok b) :
    Gains a b e.postOrder := by
  cases hhandlers : a.handlers with
  | nil => simp [report, hhandlers] at h
  | cons top below =>
    cases hpush : top.push e with
    | error error => simp [report, hhandlers, hpush, Except.map] at h
    | ok pushed =>
        simp only [report, hhandlers, hpush, Except.map, Except.ok.injEq] at h
        subst h
        exact .of_top hhandlers rfl (Handler.collected_push hpush)

theorem gains_reports {a b : Assembly} {elements : Block} (h : elements.foldlM report a = .ok b) :
    Gains a b (blockPostOrder elements) := by
  induction elements generalizing a with
  | nil =>
      obtain rfl : a = b := by simpa [pure, Except.pure] using h
      exact .of_handlers rfl
  | cons e elements ih =>
      rw [List.foldlM_cons] at h
      cases hreport : a.report e with
      | error error => simp [hreport, Except.error_bind] at h
      | ok next =>
          rw [hreport, Except.ok_bind] at h
          exact (gains_report hreport).trans (ih h)

/-! ## Steps -/

variable {a b : Assembly}

theorem gains_updateChain {f : OpenChain → Except ConversionError OpenChain}
    (hf : ∀ {c d : OpenChain}, f c = .ok d → c.Paired → d.Paired ∧ d.blocks = c.blocks)
    (h : a.updateChain f = .ok b) : Gains a b [] := by
  unfold updateChain at h
  split at h
  · cases h
  · rename_i chain below hhandlers
    obtain ⟨d, hd, rfl⟩ := Except.exists_of_map h
    refine .of_top hhandlers rfl fun hsound => ?_
    obtain ⟨hpaired, hblocks⟩ := hf hd hsound
    exact ⟨hpaired, by simp [Handler.collected, hblocks]⟩
  · cases h

/-- The uses that make an element report it, and those that begin a construct put a handler that holds
nothing on top. -/
theorem gains_fulfil {use : ExpressionUse} {text : Text} (h : a.fulfil use text = .ok b) :
    Gains a b (a.fulfilled? use text).toList := by
  have hreport {e : Element} (he : e.postOrder = [e]) (h : a.report e = .ok b) :
      Gains a b [e] := he ▸ gains_report h
  cases use with
  | ifCondition =>
      cases h
      exact .of_opened rfl rfl rfl
  | elseIfCondition => exact gains_updateChain OpenChain.paired_setCondition h
  | whileCondition =>
      cases h
      exact .of_opened rfl trivial rfl
  | returnValue => exact hreport rfl h
  | statement => exact hreport (postOrder_statementElement text) h
  | thrown => exact hreport rfl h
  | initializer name =>
      simp only [fulfil] at h
      cases hlocals : a.locals with
      | nil => simp [hlocals] at h
      | cons header outer =>
          simp only [hlocals] at h
          simpa [fulfilled?, hlocals] using hreport (postOrder_variable header _ _) h
  | argument =>
      simp only [fulfil] at h
      split at h <;> cases h
      exact .of_handlers rfl
  | discarded =>
      cases h
      exact .of_handlers rfl

theorem gains_closeExpression {last : Span} {isEmpty : Bool}
    (h : a.closeExpression last isEmpty = .ok b) :
    Gains a b (a.completed? (.closeExpression last isEmpty)).toList := by
  unfold closeExpression at h
  cases hexpressions : a.expressions with
  | nil =>
      simp only [hexpressions, Except.ok.injEq] at h
      subst h
      simpa [completed?, hexpressions] using Gains.of_handlers (a := a) rfl
  | cons x below =>
      simp only [hexpressions] at h
      obtain ⟨⟨y, ended⟩, hclosed, h⟩ := Except.exists_of_bind h
      cases ended with
      | none =>
          cases h
          simp only [completed?, hexpressions, List.head?_cons, Option.bind_some, hclosed]
          exact .of_handlers rfl
      | some text =>
          simp only [completed?, hexpressions, List.head?_cons, Option.bind_some, hclosed,
            ← (closed_text hclosed).2]
          exact gains_fulfil (a := { a with expressions := below }) h

theorem gains_openBlock (h : a.openBlock = .ok b) : Gains a b [] := by
  unfold openBlock at h
  cases hhandlers : a.handlers with
  | nil => simp [hhandlers] at h
  | cons top below =>
    simp only [hhandlers] at h
    have hnested (h : (if top.collects = true then
          Except.ok { a with handlers := .block .nested :: top :: below }
        else Except.error (ConversionError.mismatch .readyForBlock top.situation)) = .ok b) :
        Gains a b [] := by
      split at h <;> cases h
      exact .of_opened (by rw [hhandlers]) (by simp [Handler.Sound, OpenBlock.nested]) rfl
    cases top with
    | root elements => exact hnested h
    | block body =>
        simp only at h
        split at h
        · cases h
          exact .of_top hhandlers rfl fun _ => ⟨by simp [Handler.Sound], by simp [Handler.collected]⟩
        · exact hnested h
    | chain c =>
        simp only at h
        split at h
        · obtain ⟨d, hd, rfl⟩ := Except.exists_of_map h
          refine .of_top hhandlers rfl fun hsound => ?_
          obtain ⟨hpaired, horder⟩ := OpenChain.paired_openBlock hd hsound
          exact ⟨hpaired, by simpa [Handler.collected] using horder⟩
        · exact hnested h
    | loop w =>
        simp only at h
        split at h
        · obtain ⟨d, hd, rfl⟩ := Except.exists_of_map h
          obtain ⟨-, -, hd⟩ := Except.exists_of_bind hd
          cases hd
          exact .of_top hhandlers rfl fun _ => ⟨trivial, by simp [Handler.collected]⟩
        · exact hnested h

theorem gains_closeBlock (h : a.closeBlock = .ok b) : Gains a b [] := by
  unfold closeBlock at h
  cases hhandlers : a.handlers with
  | nil => simp [hhandlers] at h
  | cons top below =>
    simp only [hhandlers] at h
    cases top with
    | root elements => cases h
    | block body =>
        simp only at h
        split at h
        · split at h
          · cases h
            exact .of_top hhandlers rfl fun _ => ⟨by simp [Handler.Sound], by simp [Handler.collected]⟩
          · refine .of_closed hhandlers fun _ => ?_
            rw [List.append_nil]
            have hreports := gains_reports h
            exact (Gains.of_handlers rfl).trans hreports
        · cases h
    | chain c =>
        obtain ⟨d, hd, rfl⟩ := Except.exists_of_map h
        refine .of_top hhandlers rfl fun hsound => ?_
        obtain ⟨hpaired, hblocks⟩ := OpenChain.paired_closeBlock hd hsound
        exact ⟨hpaired, by simp [Handler.collected, hblocks]⟩
    | loop w =>
        obtain ⟨d, hd, rfl⟩ := Except.exists_of_map h
        obtain ⟨-, -, hd⟩ := Except.exists_of_bind hd
        cases hd
        exact .of_top hhandlers rfl fun _ => ⟨trivial, by simp [Handler.collected]⟩

/-- A construct at its end: what its handler holds comes before the element itself. -/
theorem gains_finished {top : Handler} {below : List Handler} {e : Element}
    (hhandlers : a.handlers = top :: below)
    (he : top.Sound → e.postOrder = top.collected ++ [e])
    (h : { a with handlers := below }.report e = .ok b) : Gains a b [e] :=
  .of_closed hhandlers fun hsound => he hsound ▸ gains_report h

theorem gains_closeIf {last : Span} (h : a.closeIf = .ok b) :
    Gains a b (a.completed? (.closeIf last)).toList := by
  unfold closeIf at h
  split at h
  · cases h
  · rename_i chain below hhandlers
    obtain ⟨e, he, h⟩ := Except.exists_of_bind h
    simp only [completed?, hhandlers, he]
    exact gains_finished hhandlers (fun hsound => OpenChain.postOrder_finish hsound he) h
  · cases h

theorem gains_closeWhile {last : Span} (h : a.closeWhile = .ok b) :
    Gains a b (a.completed? (.closeWhile last)).toList := by
  unfold closeWhile at h
  split at h
  · cases h
  · rename_i loop below hhandlers
    obtain ⟨e, he, h⟩ := Except.exists_of_bind h
    simp only [completed?, hhandlers, he]
    exact gains_finished hhandlers (fun _ => OpenLoop.postOrder_finish he) h
  · cases h

theorem gains_closeDeclaration {last : Span} {hasBody : Bool}
    (h : a.closeDeclaration hasBody = .ok b) :
    Gains a b (a.completed? (.closeDeclaration last hasBody)).toList := by
  obtain ⟨body, below, d, outer, e, hhandlers, hdeclarations, -, hstage, he, hreport⟩ :=
    exists_of_closeDeclaration h
  simp only [completed?, hhandlers, hdeclarations, he]
  refine .of_closed hhandlers fun hsound => ?_
  -- A body that was never opened holds nothing, so nothing is lost without it.
  have hbody : blockPostOrder ((if hasBody = true then some body.statements else none).getD []) =
      blockPostOrder body.statements := by
    cases hasBody with
    | true => rfl
    | false =>
        have hnone : body.statements = [] := hsound hstage
        simp [hnone]
  have horder := Declaration.postOrder_finish he
  rw [hbody] at horder
  have hgains := gains_report hreport
  rw [horder] at hgains
  exact (Gains.of_handlers rfl).trans hgains

theorem gains_step {event : Event} (h : a.step event = .ok b) :
    Gains a b (a.completed? event).toList := by
  cases event with
  | openExpression first =>
      cases h
      refine .of_handlers ?_
      unfold openExpression
      split <;> rfl
  | closeExpression last isEmpty => exact gains_closeExpression h
  | openArguments paren =>
      cases h
      refine .of_handlers ?_
      unfold openArguments
      split <;> rfl
  | argument first =>
      cases h
      refine .of_handlers ?_
      unfold argument
      split
      · rfl
      · split <;> rfl
  | closeArguments paren => exact .of_handlers (handlers_closeArguments h)
  | openBlock first => exact gains_openBlock h
  | closeBlock last => exact gains_closeBlock h
  | openIf keyword =>
      cases h
      exact .of_handlers rfl
  | elseIf keyword =>
      obtain ⟨c, hc, rfl⟩ := Except.exists_of_map h
      exact (gains_updateChain OpenChain.paired_openElseIf hc).trans (.of_handlers rfl)
  | otherwise keyword => exact gains_updateChain OpenChain.paired_openElse h
  | closeIf last => exact gains_closeIf h
  | openWhile keyword =>
      cases h
      exact .of_handlers rfl
  | closeWhile last => exact gains_closeWhile h
  | returned keyword hasValue =>
      cases hasValue with
      | true =>
          cases h
          exact .of_handlers rfl
      | false => exact gains_report h
  | jumped jump keyword label =>
      have hgains := gains_report (e := .jump jump) h
      refine (Gains.of_handlers ?_).trans hgains
      split <;> rfl
  | thrown keyword =>
      cases h
      exact .of_handlers rfl
  | emptyStatement semicolon =>
      cases h
      exact .of_handlers rfl
  | expressionStatement first =>
      cases h
      exact .of_handlers rfl
  | unsupported place construct =>
      cases h
      exact .of_handlers rfl
  | typeName first last =>
      cases h
      exact .of_handlers rfl
  | openVariables first modifiers => exact .of_handlers (handlers_openVariables h)
  | declarator name hasValue =>
      cases hasValue with
      | true =>
          cases h
          exact .of_handlers rfl
      | false =>
          simp only [step, declarator, Bool.false_eq_true, if_false] at h
          cases hlocals : a.locals with
          | nil => simp [hlocals] at h
          | cons header outer =>
              simp only [hlocals] at h
              simpa [completed?, hlocals, postOrder_variable] using gains_report h
  | closeVariables semicolon => exact .of_handlers (handlers_closeVariables h)
  | openMethod first modifiers name =>
      obtain ⟨⟨type, c⟩, hclaim, h⟩ := Except.exists_of_bind h
      cases h
      exact .of_opened (by rw [openDeclaration, handlers_claimType hclaim]) Handler.sound_body rfl
  | openConstructor first modifiers name =>
      cases h
      exact .of_opened rfl Handler.sound_body rfl
  | parameter name ellipsis => exact .of_handlers (handlers_parameter h)
  | openThrows keyword => exact .of_handlers (handlers_openThrows h)
  | closeThrows => exact .of_handlers (handlers_closeThrows h)
  | delegateCall keyword => exact .of_handlers (handlers_delegateCall h)
  | closeDeclaration last hasBody => exact gains_closeDeclaration h
  | comment whole =>
      cases h
      exact .of_handlers rfl

theorem gains_run {events : List Event} (h : a.run events = .ok b) :
    Gains a b (a.completions events) := by
  induction events generalizing a with
  | nil =>
      cases h
      exact .of_handlers rfl
  | cons event events ih =>
      obtain ⟨next, hstep, hrest⟩ := Except.exists_of_bind h
      rw [completions_cons_of_ok events hstep]
      exact (gains_step hstep).trans (ih hrest)

/-! ## The order of completion -/

theorem isSome_fulfilled? {use : ExpressionUse} {text : Text} (h : a.fulfil use text = .ok b) :
    (a.fulfilled? use text).isSome = use.makesElement := by
  cases use with
  | initializer name =>
      simp only [fulfil] at h
      cases hlocals : a.locals with
      | nil => simp [hlocals] at h
      | cons header outer => simp [fulfilled?, hlocals, ExpressionUse.makesElement]
  | _ => rfl

theorem isSome_completed? {event : Event} (h : a.step event = .ok b) :
    (a.completed? event).isSome = a.completes event := by
  cases event with
  | returned keyword hasValue => cases hasValue <;> rfl
  | declarator name hasValue =>
      cases hasValue with
      | true => rfl
      | false =>
          simp only [step, declarator, Bool.false_eq_true, if_false] at h
          cases hlocals : a.locals with
          | nil => simp [hlocals] at h
          | cons header outer => simp [completed?, hlocals, completes]
  | closeExpression last isEmpty =>
      simp only [step, closeExpression] at h
      cases hexpressions : a.expressions with
      | nil => simp [completed?, completes, hexpressions]
      | cons x below =>
          simp only [hexpressions] at h
          obtain ⟨⟨y, ended⟩, hclosed, h⟩ := Except.exists_of_bind h
          cases ended with
          | none =>
              have hdepth : x.depth ≠ 1 := closed_none hclosed
              simp [completed?, completes, hexpressions, hclosed, hdepth]
          | some text =>
              obtain ⟨hdepth, huse⟩ := closed_text hclosed
              have hsome := isSome_fulfilled? (a := { a with expressions := below }) h
              simp only [completed?, completes, hexpressions, List.head?_cons, Option.bind_some,
                hclosed, Option.any_some, hdepth, ← huse]
              exact hsome
  | closeIf last =>
      simp only [step, closeIf] at h
      split at h
      · cases h
      · rename_i chain below hhandlers
        obtain ⟨e, he, -⟩ := Except.exists_of_bind h
        simp [completed?, completes, hhandlers, he, Except.toOption]
      · cases h
  | closeWhile last =>
      simp only [step, closeWhile] at h
      split at h
      · cases h
      · rename_i loop below hhandlers
        obtain ⟨e, he, -⟩ := Except.exists_of_bind h
        simp [completed?, completes, hhandlers, he, Except.toOption]
      · cases h
  | closeDeclaration last hasBody =>
      obtain ⟨body, below, d, outer, e, hhandlers, hdeclarations, -, -, he, -⟩ :=
        exists_of_closeDeclaration h
      simp [completed?, completes, hhandlers, hdeclarations, he, Except.toOption]
  | _ => rfl

theorem map_snd_history {events : List Event} (h : a.run events = .ok b) :
    (a.history events).map Prod.snd = events := by
  induction events generalizing a with
  | nil => rfl
  | cons event events ih =>
      obtain ⟨next, hstep, hrest⟩ := Except.exists_of_bind h
      rw [history_cons_of_ok events hstep, List.map_cons, ih hrest]

theorem exists_step_of_mem_history {events : List Event} (h : a.run events = .ok b)
    {met : Assembly × Event} (hmet : met ∈ a.history events) :
    ∃ next, met.1.step met.2 = .ok next := by
  induction events generalizing a with
  | nil => cases hmet
  | cons event events ih =>
      obtain ⟨next, hstep, hrest⟩ := Except.exists_of_bind h
      rw [history_cons_of_ok events hstep, List.mem_cons] at hmet
      rcases hmet with rfl | hmet
      · exact ⟨next, hstep⟩
      · exact ih hrest hmet

/-- A state of a run is the one behind the events before the event that is met in it. -/
theorem exists_run_of_mem_history {events : List Event} (h : a.run events = .ok b)
    {met : Assembly × Event} (hmet : met ∈ a.history events) :
    ∃ earlier later, events = earlier ++ met.2 :: later ∧ a.run earlier = .ok met.1 := by
  induction events generalizing a with
  | nil => cases hmet
  | cons event events ih =>
      obtain ⟨next, hstep, hrest⟩ := Except.exists_of_bind h
      rw [history_cons_of_ok events hstep, List.mem_cons] at hmet
      rcases hmet with rfl | hmet
      · exact ⟨[], events, rfl, rfl⟩
      · obtain ⟨earlier, later, rfl, hrun⟩ := ih hrest hmet
        exact ⟨event :: earlier, later, rfl, (run_cons_of_ok earlier hstep).trans hrun⟩

theorem sound_start (source : Text) (options : Options) :
    ∀ h ∈ (start source options).handlers, h.Sound := by
  simp [start, Handler.Sound]

theorem sound_of_run {source : Text} {options : Options} {events : List Event}
    (hrun : (start source options).run events = .ok a) : ∀ h ∈ a.handlers, h.Sound :=
  (gains_run hrun (sound_start source options)).1

theorem elements_of_finish {conversion : Conversion} (h : a.finish = .ok conversion) :
    a.handlers = [.root conversion.elements] := by
  unfold finish at h
  split at h
  · cases h
  · cases h; assumption
  · cases h
  · cases h

theorem blockPostOrder_of_finish {source : Text} {options : Options} {events : List Event}
    {conversion : Conversion} (hrun : (start source options).run events = .ok a)
    (hfinish : a.finish = .ok conversion) :
    blockPostOrder conversion.elements = (start source options).completions events := by
  obtain ⟨-, hcollected⟩ := gains_run hrun (sound_start source options)
  rw [collected, elements_of_finish hfinish] at hcollected
  simpa [Handler.collected, collected, start, blockPostOrder] using hcollected

/-- Each element of a finished frame was completed by one of the events. -/
theorem exists_met_of_finish {source : Text} {options : Options} {events : List Event}
    {conversion : Conversion} (hrun : (start source options).run events = .ok a)
    (hfinish : a.finish = .ok conversion) {e : Element} (he : e ∈ blockPostOrder conversion.elements) :
    ∃ earlier event later b, events = earlier ++ event :: later ∧
      (start source options).run earlier = .ok b ∧ b.completed? event = some e := by
  rw [blockPostOrder_of_finish hrun hfinish] at he
  obtain ⟨met, hmet, hcompleted⟩ := List.mem_filterMap.mp he
  obtain ⟨earlier, later, hevents, hearlier⟩ := exists_run_of_mem_history hrun hmet
  exact ⟨earlier, met.2, later, met.1, hevents, hearlier, hcompleted⟩

/-- The elements of a finished frame in post-order are those that the events completed, each of them
once and in the order of completion.  All events are met, and exactly those that end a statement or a
declaration complete one. -/
theorem postOrder_elements {source : Text} {options : Options} {events : List Event}
    {conversion : Conversion} (hrun : (start source options).run events = .ok a)
    (hfinish : a.finish = .ok conversion) :
    blockPostOrder conversion.elements = (start source options).completions events ∧
      ((start source options).history events).map Prod.snd = events ∧
      ∀ met ∈ (start source options).history events,
        (met.1.completed? met.2).isSome = met.1.completes met.2 := by
  refine ⟨blockPostOrder_of_finish hrun hfinish, map_snd_history hrun, fun met hmet => ?_⟩
  obtain ⟨next, hstep⟩ := exists_step_of_mem_history hrun hmet
  exact isSome_completed? hstep

/-- The events of `while(a){break;}b();`. -/
def loopEvents : List Event :=
  [.openWhile ⟨1, 0, 5⟩, .openExpression ⟨1, 6, 7⟩, .closeExpression ⟨1, 6, 7⟩ false,
    .openBlock ⟨1, 8, 9⟩, .jumped .breakLoop ⟨1, 9, 14⟩ none, .closeBlock ⟨1, 15, 16⟩,
    .closeWhile ⟨1, 15, 16⟩, .expressionStatement ⟨1, 16, 17⟩, .openExpression ⟨1, 16, 17⟩,
    .closeExpression ⟨1, 18, 19⟩ false]

/-- The jump comes before the loop around it, and the call behind both. -/
theorem postOrder_elements_loop :
    ∃ a, (start "while(a){break;}b();".toList .default).run loopEvents = .ok a ∧
      a.finish = .ok ⟨[.whileLoop (.expression "a".toList) [.jump .breakLoop],
        .call (.expression "b()".toList)], []⟩ ∧
      (start "while(a){break;}b();".toList .default).completions loopEvents =
        [.jump .breakLoop, .whileLoop (.expression "a".toList) [.jump .breakLoop],
          .call (.expression "b()".toList)] := by
  obtain ⟨a, hrun, hfinish⟩ :
      ∃ a, (start "while(a){break;}b();".toList .default).run loopEvents = .ok a ∧
        a.finish = .ok ⟨[.whileLoop (.expression "a".toList) [.jump .breakLoop],
          .call (.expression "b()".toList)], []⟩ := ⟨_, rfl, rfl⟩
  exact ⟨a, hrun, hfinish, (postOrder_elements hrun hfinish).1.symm⟩

end Assembly

end CodeFrames
