import CodeFrames.Proofs.Decoding.Statement

/-!
# Decoding sentences

The induction over derivations: from a handler that takes elements, a sentence leads to the same
assembly with the elements that are read off it added to the handler.
-/

namespace CodeFrames

open Sentence

namespace Assembly

/-- The assembly is at work on the source, and no call of another constructor is open. -/
structure Suits (source : Text) (width : Option Nat) (a : Assembly) : Prop where
  source_eq : a.source = source
  width_eq : a.options.commentWidth = width
  arguments_eq : a.arguments = []

theorem Suits.updated {source : Text} {width : Option Nat} {a : Assembly} (h : a.Suits source width)
    (handlers : List Handler) (warnings : List Warning) (comment : Option Text) :
    (a.updated handlers warnings comment).Suits source width :=
  ⟨h.source_eq, h.width_eq, h.arguments_eq⟩

variable {source : Text} {width : Option Nat}

/-- An expression behind the event that announces it. -/
theorem leads_awaited {events : List Event} {text : Text} {warnings : List Warning}
    (value : Expression source events text warnings) {a b c : Assembly} {announcement : Event}
    {use : ExpressionUse} (hsuits : b.Suits source width)
    (hstep : a.step announcement = .ok (b.await use))
    (hfulfil : (b.noting warnings).fulfil use text = .ok c) :
    Leads source a (announcement :: events) c := by
  apply Leads.cons hstep
  apply Leads.of_run
  rw [run_awaited value use hsuits.source_eq hsuits.arguments_eq, hfulfil]

/-- An expression whose text only becomes an element. -/
theorem leads_value {events : List Event} {text : Text} {warnings : List Warning}
    (value : Expression source events text warnings) {a : Assembly} {top : Handler}
    {below : List Handler} {announcement : Event} {use : ExpressionUse} {element : Element}
    (hsuits : a.Suits source width) (hhandlers : a.handlers = top :: below) (hready : top.Ready)
    (hstep : a.step announcement = .ok (a.await use))
    (huse : ∀ b : Assembly, b.fulfil use text = b.report element) :
    Leads source a (announcement :: events)
      (a.updated (top.add [element] :: below) warnings none) := by
  apply leads_awaited value hsuits hstep
  rw [huse, report_eq (a := a.noting warnings) hhandlers hready, noting_eq, updated_updated,
    List.append_nil]

/-- A condition behind the keyword of a new chain or loop. -/
theorem leads_condition {events : List Event} {text : Text} {warnings : List Warning}
    (value : Expression source events text warnings) {a : Assembly} {handlers : List Handler}
    (announcement : Event) (use : ExpressionUse) (opened : Handler)
    (hsuits : a.Suits source width) (hhandlers : a.handlers = handlers)
    (hstep : a.step announcement = .ok (a.await use))
    (huse : ∀ b : Assembly, b.fulfil use text = .ok { b with handlers := opened :: b.handlers }) :
    Leads source a (announcement :: events)
      (a.updated (opened :: handlers) warnings (kept warnings a.comment)) := by
  apply leads_awaited value hsuits hstep
  rw [huse, ← hhandlers]
  rfl

theorem leads_elseIf {events : List Event} {text : Text} {warnings : List Warning}
    (value : Expression source events text warnings) (keyword : Span) {a : Assembly}
    {below : List Handler} {given : List Fragment} {before : List Block}
    (hsuits : a.Suits source width)
    (hhandlers : a.handlers = .chain ⟨given, before, none, .betweenBranches⟩ :: below)
    (hpending : a.comment = none) :
    Leads source a (.elseIf keyword :: events)
      (a.updated (.chain ⟨given, before, some (.expression text), .beforeBlock⟩ :: below) warnings
        none) := by
  let b := a.updated (.chain ⟨given, before, none, .beforeCondition⟩ :: below) [] none
  have hstep : a.step (.elseIf keyword) = .ok (b.await .elseIfCondition) := by
    simp [step, elseIf, updateChain, hhandlers, OpenChain.openElseIf, Except.map, updated, await, b,
      ← hpending]
  apply leads_awaited value (hsuits.updated _ [] none) hstep
  simp [fulfil, updateChain, OpenChain.setCondition, Except.map, noting, updated]

/-- A condition is pending, and the block behind it becomes the last one of the chain. -/
theorem leads_chainBlock {a b : Assembly} {below : List Handler} {given : List Fragment}
    {before : List Block} {condition : Fragment} {events rest : List Event} {block : Block}
    {warnings : List Warning}
    (hhandlers : a.handlers = .chain ⟨given, before, some condition, .beforeBlock⟩ :: below)
    (hlength : given.length = before.length) (first last : Span)
    (hitems : ∃ comment, Leads source
      (a.updated (.chain ⟨given ++ [condition], before ++ [[]], none, .inBlock⟩ :: below) [] a.comment)
      events
      ((a.updated (.chain ⟨given ++ [condition], before ++ [[]], none, .inBlock⟩ :: below) []
        a.comment).updated
          ((Handler.chain ⟨given ++ [condition], before ++ [[]], none, .inBlock⟩).add block :: below)
          warnings comment))
    (hrest : Leads source
      (a.updated (.chain ⟨given ++ [condition], before ++ [block], none, .betweenBranches⟩ :: below)
        warnings none) rest b) :
    Leads source a (.openBlock first :: (events ++ .closeBlock last :: rest)) b := by
  obtain ⟨comment, hitems⟩ := hitems
  rw [Handler.add, OpenChain.addLast_concat, updated_updated, List.nil_append, List.nil_append] at hitems
  refine Leads.cons (step_openBlock_chain hhandlers first) (hitems.append
    (Leads.cons (step_closeBlock_chain (by rfl) last) ?_))
  simpa [updated_updated, hlength] using hrest

theorem leads_elseBlock {a : Assembly} {below : List Handler} {given : List Fragment}
    {before : List Block} {events : List Event} {block : Block} {warnings : List Warning}
    (hhandlers : a.handlers = .chain ⟨given, before, none, .beforeElseBlock⟩ :: below)
    (hlength : given.length = before.length) (first last : Span)
    (hitems : ∃ comment, Leads source
      (a.updated (.chain ⟨given, before ++ [[]], none, .inBlock⟩ :: below) [] a.comment)
      events
      ((a.updated (.chain ⟨given, before ++ [[]], none, .inBlock⟩ :: below) [] a.comment).updated
        ((Handler.chain ⟨given, before ++ [[]], none, .inBlock⟩).add block :: below)
        warnings comment)) :
    Leads source a (.openBlock first :: (events ++ [.closeBlock last]))
      (a.updated (.chain ⟨given, before ++ [block], none, .afterElse⟩ :: below) warnings none) := by
  obtain ⟨comment, hitems⟩ := hitems
  rw [Handler.add, OpenChain.addLast_concat, updated_updated, List.nil_append, List.nil_append] at hitems
  refine Leads.cons (step_openBlock_else hhandlers first) (hitems.append (Leads.single ?_))
  exact (step_closeBlock_chain (by rfl) last).trans (by simp [updated_updated, hlength])

theorem run_comments (comments : List Span) {a : Assembly} (hsuits : a.Suits source width) :
    a.run (comments.map Event.comment) =
      .ok (a.updated a.handlers [] (afterComments source width comments a.comment)) := by
  induction comments generalizing a with
  | nil => simp [run_nil, updated, afterComments]
  | cons whole comments ih =>
      have hstep : a.step (.comment whole) =
          .ok (a.updated a.handlers [] (some (plainComment width (whole.textIn source)))) := by
        simp [step, updated, textOf, Span.textIn, hsuits.source_eq, hsuits.width_eq]
      rw [List.map_cons, run_cons_of_ok _ hstep, ih (hsuits.updated _ _ _), updated_updated]
      rfl

/-- The statement that calls another constructor adds no element. -/
theorem run_delegateCall {events : List Event} {texts : List Text} {warnings : List Warning}
    {kind : DelegateTarget} {a : Assembly} {d : Declaration} {outer : List Declaration}
    {first keyword last : Span} {isEmpty : Bool} (start opening closing : Span)
    (harguments : DelegateArguments source events texts warnings) (hsuits : a.Suits source width)
    (hkind : DelegateTarget.ofText? (keyword.textIn source) = some kind)
    (hbounds : isEmpty = true ∨ (Text.slice? source first.start last.stop).isSome = true)
    (hdeclared : a.declarations = d :: outer) (hheader : d.header = .constructor) :
    a.run (.expressionStatement start :: .openExpression first :: .delegateCall keyword ::
        .openArguments opening :: (events ++ [.closeArguments closing,
          .closeExpression last isEmpty])) =
      .ok ((a.noting warnings).declaring { d with delegate := some (kind, texts) } outer []) := by
  obtain ⟨rfl, -, hlists⟩ := hsuits
  let x : Extraction := ⟨.discarded, 1, some first.start⟩
  have hclosed : ∃ text, x.closed a.source last.stop isEmpty =
      .ok (⟨.discarded, 0, some first.start⟩, some text) := by
    cases isEmpty with
    | true => exact ⟨[], rfl⟩
    | false =>
        obtain ⟨text, htext⟩ := Option.isSome_iff_exists.mp (hbounds.resolve_left (by decide))
        exact ⟨text, by simp [x, Extraction.closed, Extraction.textTo, htext, Except.ok_bind, pure,
          Except.pure]⟩
  obtain ⟨text, hclosed⟩ := hclosed
  let b : Assembly :=
    { a with
      expressions := x :: a.expressions
      arguments := [⟨kind, 1, []⟩]
      declarations := d :: outer }
  have hcall : a.run [.expressionStatement start, .openExpression first, .delegateCall keyword,
      .openArguments opening] = .ok b := by
    change DelegateTarget.ofText? (a.textOf keyword) = some kind at hkind
    simp only [textOf] at hkind
    simp [run, step, await, openExpression, delegateCall, textOf, hkind, updateDeclaration,
      hdeclared, requireConstructor, Declaration.isConstructor, hheader, Except.map, Except.ok_bind,
      Extraction.opened, Extraction.awaiting, openArguments, ArgumentCollector.awaiting,
      ArgumentCollector.opened, hlists, pure, Except.pure, b, x]
  have hinner := run_delegateArguments harguments (a := b) rfl rfl
  have hlist : { b.noting warnings with arguments := [⟨kind, 1, [] ++ texts⟩] }.step
      (.closeArguments closing) =
        .ok { (a.noting warnings).declaring { d with delegate := some (kind, texts) } outer [] with
          expressions := x :: a.expressions } := by
    simp [step, closeArguments, ArgumentCollector.closed, updateDeclaration, requireConstructor,
      Declaration.isConstructor, hheader, Except.map, Except.ok_bind, noting, declaring, b, pure,
      Except.pure, hlists]
  have hclose := step_closeExpression_outermost
    (a := { (a.noting warnings).declaring { d with delegate := some (kind, texts) } outer [] with
      expressions := x :: a.expressions }) rfl hclosed
  change a.run ([_, _, _, _] ++ (events ++ [_, _])) = _
  rw [run_append_of_ok _ hcall, run_append_of_ok _ hinner, run_cons_of_ok _ hlist, run_singleton]
  exact hclose

/-- The assembly with other variables under declaration and more warnings. -/
def holding (a : Assembly) (locals : List VariableHeader) (warnings : List Warning) : Assembly :=
  { a with locals, warnings := a.warnings ++ warnings }

/-- The type before a declaration of variables is claimed by it. -/
theorem run_openVariables (a : Assembly) (typeFirst typeLast first : Span) (modifiers : List Span) :
    a.run [.typeName typeFirst typeLast, .openVariables first modifiers] =
      .ok (a.holding
        (⟨(modifiers.map (Span.textIn a.source)).contains "final".toList,
          .type (textThrough a.source typeFirst typeLast)⟩ :: a.locals)
        (leftoverWarnings first.line .locals ["final".toList]
          (modifiers.map (Span.textIn a.source)))) := by
  simp only [run, List.foldlM_cons, step, openVariables, claimType, Except.ok_bind]
  rfl

theorem run_variables {typeFirst typeLast : Span} {modifiers : List Span} {events : List Event}
    {elements : Block} {warnings : List Warning}
    (h : Declarators source
      ⟨(modifiers.map (Span.textIn source)).contains "final".toList,
        .type (textThrough source typeFirst typeLast)⟩ events elements warnings)
    {a : Assembly} {top : Handler} {below : List Handler} (hsource : a.source = source)
    (hlists : a.arguments = []) (hhandlers : a.handlers = top :: below) (hready : top.Ready)
    (first semicolon : Span) :
    a.run (.typeName typeFirst typeLast :: .openVariables first modifiers ::
        (events ++ [.closeVariables semicolon])) =
      .ok (a.updated (top.add elements :: below)
        (leftoverWarnings first.line .locals ["final".toList]
          (modifiers.map (Span.textIn source)) ++ warnings) none) := by
  subst hsource
  have hopen := run_openVariables a typeFirst typeLast first modifiers
  have hdeclared := run_declarators h (a := a.holding _ (leftoverWarnings first.line .locals
    ["final".toList] (modifiers.map (Span.textIn a.source)))) rfl hlists (rfl : _ = _ :: a.locals)
    hhandlers hready
  change a.run ([_, _] ++ (events ++ [_])) = _
  rw [run_append_of_ok _ hopen, run_append_of_ok _ hdeclared, run_singleton]
  simp [step, closeVariables, updated, holding]

theorem run_openMethod (a : Assembly) (typeFirst typeLast first name : Span)
    (modifiers : List Span) :
    a.run [.typeName typeFirst typeLast, .openMethod first modifiers name] =
      .ok (a.openDeclaration (.method (.type (textThrough a.source typeFirst typeLast))
        (.name (name.textIn a.source))) first modifiers) := by
  simp only [run, List.foldlM_cons, step, openMethod, claimType, Except.ok_bind]
  rfl

/-- A declaration from its opening on.  Its access levels are resolved when it ends, but the event
that begins it tells them. -/
theorem leads_declaration {header : Header} {first : Span} {modifiers : List Span}
    {opening events clause bodyEvents : List Event} {parameters : List Parameter}
    {throws : List Fragment} {body : Option Block} {w₁ w₂ : List Warning} (last : Span)
    (given : Option (DelegateTarget × List Text)) (hparameters : Parameters source events parameters w₁)
    (hthrows : Throws source clause throws) {a : Assembly} {top : Handler} {below : List Handler}
    (hsuits : a.Suits source width) (hhandlers : a.handlers = top :: below) (hready : top.Ready)
    (hopen : a.run opening = .ok (a.openDeclaration header first modifiers))
    (hclear : ¬ Access.IsClear (modifiers.map (Span.textIn source)) →
      ∃ event ∈ opening, ¬ event.AccessClear source)
    (hbody : ∀ {b : Assembly} {d : Declaration}, b.Suits source width →
      b.handlers = .block .body :: top :: below → b.comment = none →
      b.declarations = d :: a.declarations → d.header = header → d.delegate = none →
      Leads source b bodyEvents
        ((b.declaring { d with delegate := given } a.declarations []).updated
          (.block ⟨true, if body.isSome then .closed else .unopened, body.getD []⟩ :: top :: below)
          w₂ none)) :
    Leads source a
      (opening ++ (events ++ (clause ++ (bodyEvents ++ [.closeDeclaration last body.isSome]))))
      (a.updated
        (top.add [Declaration.element ⟨header, modifiers.map (Span.textIn source), a.comment,
          first.line, parameters, throws, given⟩
          (Access.named (modifiers.map (Span.textIn source))) body] :: below)
        (w₁ ++ (w₂ ++ leftoverWarnings first.line
          (if header = .constructor then .constructors else .methods)
          (Declaration.shownWords ⟨header, modifiers.map (Span.textIn source), a.comment,
            first.line, parameters, throws, given⟩ body.isSome)
          (modifiers.map (Span.textIn source)))) none) := by
  have hmodifiers : modifiers.map a.textOf = modifiers.map (Span.textIn source) := by
    rw [← hsuits.source_eq]; rfl
  let d : Declaration :=
    ⟨header, modifiers.map (Span.textIn source), a.comment, first.line, parameters, throws, none⟩
  let b := (a.openDeclaration header first modifiers).declaring d a.declarations w₁
  have hsuits' : b.Suits source width := ⟨hsuits.source_eq, hsuits.width_eq, hsuits.arguments_eq⟩
  have hhandlers' : b.handlers = .block .body :: top :: below := congrArg _ hhandlers
  have hheader : (a.openDeclaration header first modifiers).run (events ++ clause) = .ok b := by
    have hopened : (a.openDeclaration header first modifiers).declarations =
        Declaration.start header (modifiers.map (Span.textIn source)) a.comment first.line ::
          a.declarations := by
      rw [← hmodifiers]; rfl
    rw [run_append_of_ok _ (run_parameters hparameters (by exact hsuits.source_eq) hopened),
      run_throws hthrows (by exact hsuits.source_eq) (by rfl)]
    simp [declaring, b, d, Declaration.start]
  have hstarted := (Leads.of_run hopen).append ((Leads.of_run hheader).append
    (hbody (d := d) hsuits' hhandlers' rfl rfl rfl rfl))
  have hclose := step_closeDeclaration (d := { d with delegate := given })
    (a := (b.declaring { d with delegate := given } a.declarations []).updated
      (.block ⟨true, if body.isSome then .closed else .unopened, body.getD []⟩ :: top :: below)
      w₂ none) rfl rfl hready last
  have hregroup : opening ++ (events ++ (clause ++ (bodyEvents ++
      [.closeDeclaration last body.isSome]))) =
      opening ++ ((events ++ clause) ++ bodyEvents) ++ [.closeDeclaration last body.isSome] := by
    simp
  rw [hregroup]
  rcases hclose with hclose | ⟨⟨levels, hclose⟩, hconflict⟩
  · refine hstarted.append (Leads.single (hclose.trans ?_))
    simp [updated, declaring, b, d, openDeclaration, Declaration.isConstructor]
  · obtain ⟨event, hmem, hclear⟩ := hclear hconflict
    rcases hstarted with hstarted | ⟨⟨levels, hstarted⟩, hstarted'⟩
    · refine .inr ⟨⟨levels, ?_⟩, event, by simp [hmem], hclear⟩
      rw [run_append_of_ok _ hstarted, run_singleton, hclose]
    · refine .inr ⟨⟨levels, ?_⟩, event, by simp [hmem], hclear⟩
      rw [run_append, hstarted, Except.error_bind]

mutual
theorem leads_statement : ∀ {pending : Option Text} {events : List Event} {elements : Block}
    {warnings : List Warning}, Statement source width pending events elements warnings →
    ∀ {a : Assembly} {top : Handler} {below : List Handler}, a.Suits source width →
      a.handlers = top :: below → top.Ready → a.comment = pending →
      Leads source a events (a.updated (top.add elements :: below) warnings none)
  | _, _, _, _, .empty semicolon, a, top, below, hsuits, hhandlers, hready, hpending => by
      apply Leads.single
      simp [step, dropComment, updated, Handler.add_nil, ← hhandlers]
  | _, _, _, _, .unsupported place construct, a, top, below, hsuits, hhandlers, hready, hpending => by
      apply Leads.single
      simp [step, dropComment, warn, updated, Handler.add_nil, ← hhandlers]
  | _, _, _, _, .block first last items, a, top, below, hsuits, hhandlers, hready, hpending => by
      obtain ⟨comment, hitems⟩ := leads_items items
        (hsuits.updated (.block .nested :: top :: below) [] a.comment) rfl rfl hpending
      refine Leads.cons (step_openBlock_nested hhandlers hready first)
        (hitems.append (Leads.single ?_))
      exact (step_closeBlock_nested (by rfl) hready last).trans
        (by simp [updated_updated, OpenBlock.nested])
  | _, _, _, _, @Statement.ifChain _ _ _ _ text w₁ _ block w₂ _ conditions blocks w₃ _ elseBlock _
      keyword first last closing condition items branches otherwise, a, top, below, hsuits, hhandlers, hready, hpending => by
      obtain ⟨hlength, hbranches⟩ := leads_branches branches
      have hcondition := leads_condition condition (.openIf keyword) .ifCondition
        (.chain (.start (.expression text))) hsuits hhandlers rfl fun _ => rfl
      have hopened := hsuits.updated (.chain (.start (.expression text)) :: top :: below) w₁
        (kept w₁ a.comment)
      have hitems := leads_items items
        (hopened.updated (.chain ⟨[.expression text], [[]], none, .inBlock⟩ :: top :: below) []
          (kept w₁ a.comment))
        rfl ⟨rfl, List.cons_ne_nil _ _⟩ (by rw [← hpending]; rfl)
      have hmore := hbranches
        (hopened.updated (.chain ⟨[.expression text], [block], none, .betweenBranches⟩ :: top :: below)
          w₂ none) rfl rfl rfl
      have hfinal := leads_otherwise otherwise
        ((hopened.updated (.chain ⟨[.expression text], [block], none, .betweenBranches⟩ :: top ::
          below) w₂ none).updated
          (.chain ⟨.expression text :: conditions, block :: blocks, none, .betweenBranches⟩ ::
            top :: below) w₃ none) rfl (congrArg Nat.succ hlength) rfl
      refine hcondition.append (leads_chainBlock rfl rfl first last hitems
        (hmore.append (hfinal.append (Leads.single ?_))))
      refine (step_closeIf (by rfl) hready ?_ closing).trans ?_
      · cases elseBlock with
        | none => exact .inl rfl
        | some _ => exact .inr rfl
      · simp [updated_updated, hlength]
  | _, _, _, _, @Statement.whileLoop _ _ _ _ text w₁ _ _ _ keyword first last closing condition items, a, top, below, hsuits, hhandlers, hready, hpending => by
      have hcondition := leads_condition condition (.openWhile keyword) .whileCondition
        (.loop (.start (.expression text))) hsuits hhandlers rfl fun _ => rfl
      have hopened := hsuits.updated (.loop (.start (.expression text)) :: top :: below) w₁
        (kept w₁ a.comment)
      obtain ⟨comment, hitems⟩ := leads_items items
        (hopened.updated (.loop ⟨.expression text, [], .inBody⟩ :: top :: below) [] (kept w₁ a.comment))
        rfl rfl (by rw [← hpending]; rfl)
      refine hcondition.append (Leads.cons (step_openBlock_loop (by rfl) first) (hitems.append
        (Leads.cons (step_closeBlock_loop (by rfl) last) (Leads.single ?_))))
      exact (step_closeWhile (by rfl) hready closing).trans (by simp [updated_updated])
  | _, _, _, _, .returned keyword, a, top, below, hsuits, hhandlers, hready, hpending =>
      Leads.single (report_eq hhandlers hready _)
  | _, _, _, _, .returnedValue keyword value, a, top, below, hsuits, hhandlers, hready, hpending =>
      leads_value value hsuits hhandlers hready rfl fun _ => rfl
  | _, _, _, _, .jumped jump keyword, a, top, below, hsuits, hhandlers, hready, hpending =>
      Leads.single (report_eq hhandlers hready _)
  | _, _, _, _, .jumpedTo jump keyword label, a, top, below, hsuits, hhandlers, hready, hpending => by
      have hreport := report_eq (a := a.warn keyword.line (.label jump (a.textOf label))) hhandlers
        hready (.jump jump)
      apply Leads.single
      rw [← hsuits.source_eq]
      exact hreport.trans (by simp [updated, warn, textOf, Span.textIn])
  | _, _, _, _, .thrown keyword value, a, top, below, hsuits, hhandlers, hready, hpending =>
      leads_value value hsuits hhandlers hready rfl fun _ => rfl
  | _, _, _, _, .expression first value, a, top, below, hsuits, hhandlers, hready, hpending =>
      leads_value value hsuits hhandlers hready rfl fun _ => rfl
  | _, _, _, _, .variables typeFirst typeLast first semicolon modifiers declarators, a, top, below,
      hsuits, hhandlers, hready, hpending => by
      obtain ⟨rfl, -, hlists⟩ := hsuits
      exact Leads.of_run (run_variables declarators rfl hlists hhandlers hready first semicolon)
  | _, _, _, _, @Statement.method _ _ _ _ _ _ _ _ _ block _ typeFirst typeLast first name last
      modifiers parameters throws body, a, top, below, hsuits, hhandlers, hready, hpending => by
      have hopen := run_openMethod a typeFirst typeLast first name modifiers
      have hdeclared := leads_declaration last none parameters throws hsuits hhandlers hready hopen
        (fun hclear => ⟨.openMethod first modifiers name, by simp, hclear⟩)
        (fun {b d} hsuits hhandlers hpending hdeclared _ hdelegate => by
          rw [← hdelegate, declaring_self hdeclared]
          exact leads_body body hsuits hhandlers hpending)
      rw [hsuits.source_eq, hpending] at hdeclared
      cases block <;> exact hdeclared
  | _, _, _, _, .constructor first name last modifiers parameters throws body, a, top, below, hsuits, hhandlers, hready, hpending => by
      obtain ⟨call, rfl, hbody⟩ := leads_constructorBody body
      have hopen : a.run [.openConstructor first modifiers name] =
          .ok (a.openDeclaration .constructor first modifiers) := rfl
      have hdeclared := leads_declaration last call parameters throws hsuits hhandlers hready hopen
        (fun hclear => ⟨.openConstructor first modifiers name, by simp, hclear⟩)
        (fun {b d} hsuits hhandlers hpending hdeclared hheader hdelegate =>
          hbody hsuits hhandlers hpending hdeclared hheader hdelegate)
      rw [hpending] at hdeclared
      exact hdeclared
theorem leads_items : ∀ {pending : Option Text} {events : List Event} {elements : Block}
    {warnings : List Warning}, Items source width pending events elements warnings →
    ∀ {a : Assembly} {top : Handler} {below : List Handler}, a.Suits source width →
      a.handlers = top :: below → top.Ready → a.comment = pending →
      ∃ comment, Leads source a events (a.updated (top.add elements :: below) warnings comment)
  | _, _, _, _, .nothing, a, top, below, hsuits, hhandlers, hready, hpending => by
      refine ⟨a.comment, Leads.of_run ?_⟩
      simp [run_nil, updated, Handler.add_nil, ← hhandlers]
  | _, _, _, _, .comment whole rest, a, top, below, hsuits, hhandlers, hready, hpending => by
      have hstep : a.step (.comment whole) =
          .ok (a.updated (top :: below) [] (some (plainComment width (whole.textIn source)))) := by
        simp [step, updated, textOf, Span.textIn, hsuits.source_eq, hsuits.width_eq, ← hhandlers]
      obtain ⟨comment, hrest⟩ := leads_items rest (hsuits.updated (top :: below) [] _) rfl hready rfl
      rw [updated_updated] at hrest
      exact ⟨comment, Leads.cons hstep hrest⟩
  | _, _, _, _, @Items.statement _ _ _ _ elements warnings _ _ _ one rest, a, top, below, hsuits, hhandlers, hready, hpending => by
      have hone := leads_statement one hsuits hhandlers hready hpending
      obtain ⟨comment, hrest⟩ := leads_items rest
        (hsuits.updated (top.add elements :: below) warnings none) rfl (Handler.ready_add hready _) rfl
      rw [updated_updated, Handler.add_add] at hrest
      exact ⟨comment, hone.append hrest⟩
theorem leads_branches : ∀ {events : List Event} {conditions : List Fragment}
    {blocks : List Block} {warnings : List Warning},
    Branches source width events conditions blocks warnings →
    conditions.length = blocks.length ∧
    ∀ {a : Assembly} {below : List Handler} {given : List Fragment} {before : List Block},
      a.Suits source width →
      a.handlers = .chain ⟨given, before, none, .betweenBranches⟩ :: below →
      given.length = before.length → a.comment = none →
      Leads source a events
        (a.updated (.chain ⟨given ++ conditions, before ++ blocks, none, .betweenBranches⟩ :: below)
          warnings none)
  | _, _, _, _, .nothing => by
      refine ⟨rfl, ?_⟩
      intro a below given before hsuits hhandlers hlength hpending
      apply Leads.of_run
      simp [run_nil, updated, ← hhandlers, ← hpending]
  | _, _, _, _, @Branches.elseIf _ _ _ text w₁ _ block w₂ _ _ _ _ keyword first last condition items rest => by
      obtain ⟨hlengths, hrest⟩ := leads_branches rest
      refine ⟨congrArg Nat.succ hlengths, ?_⟩
      intro a below given before hsuits hhandlers hlength hpending
      have hcondition := leads_elseIf condition keyword hsuits hhandlers hpending
      have hopened := hsuits.updated
        (.chain ⟨given, before, some (.expression text), .beforeBlock⟩ :: below) w₁ none
      have hitems := leads_items items
        (hopened.updated (.chain ⟨given ++ [.expression text], before ++ [[]], none, .inBlock⟩ ::
          below) [] none) rfl ⟨rfl, by simp⟩ rfl
      have hmore := @hrest _ _ (given ++ [.expression text]) (before ++ [block])
        (hopened.updated (.chain ⟨given ++ [.expression text], before ++ [block], none,
          .betweenBranches⟩ :: below) w₂ none) rfl (by simp [hlength]) rfl
      have hbranch := hcondition.append (leads_chainBlock rfl hlength first last hitems hmore)
      rw [updated_updated, updated_updated, List.append_assoc, List.append_assoc] at hbranch
      exact hbranch
theorem leads_otherwise : ∀ {events : List Event} {final : Option Block}
    {warnings : List Warning}, Otherwise source width events final warnings →
    ∀ {a : Assembly} {below : List Handler} {given : List Fragment} {before : List Block},
      a.Suits source width →
      a.handlers = .chain ⟨given, before, none, .betweenBranches⟩ :: below →
      given.length = before.length → a.comment = none →
      Leads source a events
        (a.updated (.chain ⟨given, before ++ final.toList, none,
          if final.isSome then .afterElse else .betweenBranches⟩ :: below) warnings none)
  | _, _, _, .nothing, a, below, given, before, hsuits, hhandlers, hlength, hpending => by
      apply Leads.of_run
      simp [run_nil, updated, ← hhandlers, ← hpending]
  | _, _, _, .otherwise keyword first last items, a, below, given, before, hsuits, hhandlers, hlength,
      hpending => by
      have hstep : a.step (.otherwise keyword) =
          .ok (a.updated (.chain ⟨given, before, none, .beforeElseBlock⟩ :: below) [] none) := by
        simp [step, updateChain, hhandlers, OpenChain.openElse, Except.map, updated, ← hpending]
      have hitems := leads_items items
        ((hsuits.updated (.chain ⟨given, before, none, .beforeElseBlock⟩ :: below) [] none).updated
          (.chain ⟨given, before ++ [[]], none, .inBlock⟩ :: below) [] none)
        rfl ⟨rfl, by simp⟩ rfl
      have hblock := leads_elseBlock rfl hlength first last hitems
      rw [updated_updated] at hblock
      exact Leads.cons hstep hblock
theorem leads_body : ∀ {events : List Event} {body : Option Block} {warnings : List Warning},
    Body source width events body warnings →
    ∀ {a : Assembly} {below : List Handler}, a.Suits source width →
      a.handlers = .block .body :: below → a.comment = none →
      Leads source a events
        (a.updated (.block ⟨true, if body.isSome then .closed else .unopened, body.getD []⟩ :: below)
          warnings none)
  | _, _, _, .missing, a, below, hsuits, hhandlers, hpending => by
      apply Leads.of_run
      have hbody : Handler.block ⟨true, .unopened, []⟩ = .block .body := rfl
      simp [run_nil, updated, hbody, ← hhandlers, ← hpending]
  | _, _, _, .block first last items, a, below, hsuits, hhandlers, hpending => by
      obtain ⟨comment, hitems⟩ := leads_items items
        (hsuits.updated (.block ⟨true, .opened, []⟩ :: below) [] a.comment) rfl rfl hpending
      refine Leads.cons (step_openBlock_body hhandlers first) (hitems.append (Leads.single ?_))
      exact (step_closeBlock_body (by rfl) last).trans (by simp [updated_updated])
theorem leads_constructorBody : ∀ {events : List Event} {delegate : Option Delegate}
    {body : Option Block} {warnings : List Warning},
    ConstructorBody source width events delegate body warnings →
    ∃ given : Option (DelegateTarget × List Text),
      (given.map fun call => ⟨call.1, .expression (Text.join [','] call.2)⟩) = delegate ∧
      ∀ {a : Assembly} {below : List Handler} {d : Declaration} {outer : List Declaration},
        a.Suits source width → a.handlers = .block .body :: below → a.comment = none →
        a.declarations = d :: outer → d.header = .constructor → d.delegate = none →
        Leads source a events
          ((a.declaring { d with delegate := given } outer []).updated
            (.block ⟨true, if body.isSome then .closed else .unopened, body.getD []⟩ :: below)
            warnings none)
  | _, _, _, _, .plain body => by
      refine ⟨none, rfl, ?_⟩
      intro a below d outer hsuits hhandlers hpending hdeclared hheader hdelegate
      rw [← hdelegate, declaring_self hdeclared]
      exact leads_body body hsuits hhandlers hpending
  | _, _, _, _, @ConstructorBody.delegating _ _ _ texts w₁ _ _ _ kind brace start first keyword
      opening closing last finish isEmpty comments hkind arguments hbounds items => by
      refine ⟨some (kind, texts), rfl, ?_⟩
      intro a below d outer hsuits hhandlers hpending hdeclared hheader hdelegate
      have hopened := hsuits.updated (.block ⟨true, .opened, []⟩ :: below) [] a.comment
      have hcomments := run_comments comments hopened
      have hcall := run_delegateCall start opening closing arguments (hopened.updated (.block ⟨true, .opened, []⟩ :: below) []
          (afterComments source width comments a.comment)) hkind hbounds hdeclared hheader
      obtain ⟨comment, hitems⟩ := leads_items items
        (a := Assembly.declaring (Assembly.noting ((a.updated _ [] a.comment).updated _ []
          (afterComments source width comments a.comment)) w₁)
          { d with delegate := some (kind, texts) } outer [])
        ⟨hsuits.source_eq, hsuits.width_eq, hsuits.arguments_eq⟩
        (rfl : _ = .block ⟨true, .opened, []⟩ :: below) rfl (by rw [hpending]; rfl)
      have hbody := hitems.append (Leads.single (step_closeBlock_body (by rfl) finish))
      have hwhole := Leads.cons (step_openBlock_body hhandlers brace)
        (.append_run hcomments (Leads.append_run hcall hbody))
      simpa [updated, noting, declaring] using hwhole
end

/-! ## Whole sentences -/

theorem leads_sentence {options : Options} {events : List Event} {elements : Block}
    {warnings : List Warning} (h : Items source options.commentWidth none events elements warnings) :
    ∃ comment, Leads source (start source options) events
      ((start source options).updated [.root elements] warnings comment) := by
  have hroot : (start source options).handlers = [.root []] := rfl
  obtain ⟨comment, hleads⟩ := leads_items h ⟨rfl, rfl, rfl⟩ hroot trivial rfl
  exact ⟨comment, hleads⟩

theorem finish_updated (source : Text) (options : Options) (elements : Block)
    (warnings : List Warning) (comment : Option Text) :
    ((start source options).updated [.root elements] warnings comment).finish =
      .ok ⟨elements, warnings⟩ := rfl

/-- An assembly takes every event of a sentence in which each declaration names at most one access
level, and finishes with exactly the elements and warnings that are read off the sentence. -/
theorem decodes_sentence {options : Options} {events : List Event} {elements : Block}
    {warnings : List Warning} (h : Items source options.commentWidth none events elements warnings)
    (hclear : ∀ event ∈ events, event.AccessClear source) :
    ∃ a, (start source options).run events = .ok a ∧ a.finish = .ok ⟨elements, warnings⟩ := by
  obtain ⟨comment, hrun | ⟨-, event, hmem, hconflict⟩⟩ := leads_sentence h
  · exact ⟨_, hrun, finish_updated source options elements warnings comment⟩
  · exact absurd (hclear event hmem) hconflict

/-- The sentence of `public int f(){return 1;}`. -/
theorem decodes_method : ∃ a,
    (start "public int f(){return 1;}".toList .default).run
      [.typeName ⟨1, 7, 10⟩ ⟨1, 7, 10⟩, .openMethod ⟨1, 0, 6⟩ [⟨1, 0, 6⟩] ⟨1, 11, 12⟩,
        .openBlock ⟨1, 14, 15⟩, .returned ⟨1, 15, 21⟩ true, .openExpression ⟨1, 22, 23⟩,
        .closeExpression ⟨1, 22, 23⟩ false, .closeBlock ⟨1, 24, 25⟩,
        .closeDeclaration ⟨1, 24, 25⟩ true] = .ok a ∧
    a.finish = .ok ⟨[.method none .publicAccess false false (.type "int".toList)
      (.name "f".toList) [] [] [.returnValue (some (.expression "1".toList))]], []⟩ := by
  have hvalue : Expression "public int f(){return 1;}".toList
      [.openExpression ⟨1, 22, 23⟩, .closeExpression ⟨1, 22, 23⟩ false]
      (withSubtypeOperator "1".toList) [] :=
    .bounded ⟨1, 22, 23⟩ ⟨1, 22, 23⟩ .nothing (by decide)
  have hbody : Items "public int f(){return 1;}".toList none none _ _ _ :=
    .statement (.returnedValue ⟨1, 15, 21⟩ hvalue) .nothing
  have hmethod : Items "public int f(){return 1;}".toList none none _ _ _ :=
    .statement (.method ⟨1, 7, 10⟩ ⟨1, 7, 10⟩ ⟨1, 0, 6⟩ ⟨1, 11, 12⟩ ⟨1, 24, 25⟩ [⟨1, 0, 6⟩] .nothing
      .nothing (.block ⟨1, 14, 15⟩ ⟨1, 24, 25⟩ hbody)) .nothing
  exact decodes_sentence hmethod (by decide)

end Assembly

end CodeFrames
