import CodeFrames.Proofs.Documentation
import CodeFrames.Proofs.Productions
import CodeFrames.Proofs.Settling

/-!
# Where expressions begin and end

The ends of expressions pair up among the events of a source that can be read.  The first span of a
pair is that of the token at one cursor, the last one that of the token behind a later cursor, and
there an expression may end.
-/

namespace CodeFrames

/-- The spans are those of the token at one cursor and of the token behind a later one, at which an
expression may end. -/
def Cursor.Bounds (start : Cursor) (first last : Span) : Prop :=
  ∃ c d, start.Reaches c ∧ c.Passes d ∧ d.Settled ∧ c.here.toSpan = first ∧ d.before.toSpan = last

def Event.boundsExpression : Event → Bool
  | .openExpression _ | .closeExpression _ _ => true
  | _ => false

theorem Event.boundsExpression_of_isPlain {e : Event} (h : e.isPlain = true) :
    e.boundsExpression = false := by
  cases e <;> simp_all [isPlain, boundsExpression]

/-- Events in which the ends of expressions pair up. -/
inductive Framed (start : Cursor) : List Event → Prop
  | nil : Framed start []
  | other {e : Event} {events : List Event} : e.boundsExpression = false → Framed start events →
      Framed start (e :: events)
  | expression {first last : Span} {inside rest : List Event} : start.Bounds first last →
      Framed start inside → Framed start rest →
      Framed start (.openExpression first :: (inside ++ .closeExpression last false :: rest))

namespace Framed

variable {start : Cursor} {events more : List Event}

theorem append (h : Framed start events) (g : Framed start more) : Framed start (events ++ more) := by
  induction h with
  | nil => exact g
  | other he _ ih => exact .other he ih
  | expression hbounds hinside _ _ ih =>
      rw [List.cons_append, List.append_assoc, List.cons_append]
      exact .expression hbounds hinside ih

theorem single {e : Event} (h : e.isPlain = true) : Framed start [e] :=
  .other (Event.boundsExpression_of_isPlain h) .nil

theorem comments (ts : List Token) : Framed start (ts.map fun t => .comment t.toSpan) := by
  induction ts with
  | nil => exact .nil
  | cons t ts ih => exact .other rfl ih

end Framed

/-! ## Pairs -/

/-- The expressions that are open behind some events, the innermost first. -/
def openedBy (opened : List Span) : List Event → List Span
  | [] => opened
  | .openExpression first :: events => openedBy (first :: opened) events
  | .closeExpression _ _ :: events => openedBy opened.tail events
  | _ :: events => openedBy opened events

theorem openedBy_other {e : Event} (he : e.boundsExpression = false) (opened : List Span)
    (events : List Event) : openedBy opened (e :: events) = openedBy opened events := by
  cases e <;> simp_all [Event.boundsExpression, openedBy]

theorem openedBy_append (opened : List Span) (events more : List Event) :
    openedBy opened (events ++ more) = openedBy (openedBy opened events) more := by
  induction events generalizing opened with
  | nil => rfl
  | cons e events ih => cases e <;> exact ih _

namespace Framed

variable {start : Cursor} {events earlier later : List Event}

theorem openedBy_eq (h : Framed start events) (opened : List Span) : openedBy opened events = opened := by
  induction h generalizing opened with
  | nil => rfl
  | other he _ ih => rw [openedBy_other he, ih]
  | expression _ _ _ ihinside ih =>
      change openedBy _ (_ ++ _) = _
      rw [openedBy_append, ihinside]
      exact ih opened

/-- Where an expression ends, the innermost open one is the one that it pairs up with. -/
theorem exists_opened (h : Framed start events) {last : Span} {isEmpty : Bool}
    (hevents : events = earlier ++ .closeExpression last isEmpty :: later) (opened : List Span) :
    isEmpty = false ∧ ∃ first outer, openedBy opened earlier = first :: outer ∧
      start.Bounds first last := by
  induction h generalizing earlier later opened with
  | nil => simp at hevents
  | @other e events he _ ih =>
      cases earlier with
      | nil =>
          obtain ⟨rfl, -⟩ := List.cons.inj hevents
          cases he
      | cons e earlier =>
          obtain ⟨rfl, hmore⟩ := List.cons.inj hevents
          rw [openedBy_other he]
          exact ih hmore opened
  | @expression first last' inside rest hbounds hinside _ ihinside ih =>
      cases earlier with
      | nil => cases hevents
      | cons e earlier =>
          obtain ⟨rfl, hmore⟩ := List.cons.inj hevents
          change _ ∧ ∃ first' outer, openedBy (first :: opened) earlier = _ ∧ _
          -- The end belongs to an expression inside, is the one in question, or comes behind it.
          rcases List.append_eq_append_iff.mp hmore with ⟨middle, rfl, hmiddle⟩ | ⟨middle, rfl, hmiddle⟩
          · cases middle with
            | nil =>
                obtain ⟨heq, -⟩ := List.cons.inj hmiddle
                obtain ⟨rfl, rfl⟩ := by simpa using heq
                rw [List.append_nil, hinside.openedBy_eq]
                exact ⟨rfl, first, opened, rfl, hbounds⟩
            | cons e middle =>
                obtain ⟨rfl, hrest⟩ := List.cons.inj hmiddle
                rw [openedBy_append, hinside.openedBy_eq]
                exact ih hrest opened
          · cases middle with
            | nil =>
                obtain ⟨heq, -⟩ := List.cons.inj hmiddle
                obtain ⟨rfl, rfl⟩ := by simpa using heq
                rw [List.append_nil] at hinside
                rw [hinside.openedBy_eq]
                exact ⟨rfl, first, opened, rfl, hbounds⟩
            | cons e middle =>
                obtain ⟨rfl, -⟩ := List.cons.inj hmiddle
                exact ihinside rfl (first :: opened)

end Framed

/-! ## Readings -/

/-- The productions one nesting level deeper step over a token and end where an expression may. -/
structure Enclosed.Bounding (source : Text) (inner : Enclosed) : Prop where
  settles : inner.Settles source
  reports : inner.Reports source none

theorem Enclosed.bounding_within (source : Text) (levels : Nat) :
    (Enclosed.within levels).Bounding source :=
  ⟨Enclosed.settles_within source levels, Enclosed.reports_within source none levels⟩

namespace Reading

variable {α β : Type} {source : Text} {start : Cursor}

/-- In the events of a successful run behind `start` the ends of expressions pair up. -/
def Frames (start : Cursor) (r : Reading α) : Prop :=
  ∀ (c : Cursor) (events : List Event) (a : α) (d : Cursor), start.Reaches c →
    r c = (events, .ok (a, d)) → Framed start events ∧ start.Reaches d

namespace Frames

variable {r : Reading α} {f : α → Reading β}

theorem of_step {step : Cursor → Cursor} {value : Cursor → α}
    (h : ∀ c : Cursor, c.Reaches (step c)) :
    Frames start fun c => ([], .ok (value c, step c)) := by
  intro c events a d hc hrun
  obtain ⟨rfl, hrun⟩ := Prod.mk.injEq .. |>.mp hrun
  obtain ⟨-, rfl⟩ := by simpa using hrun
  exact ⟨.nil, hc.trans (h c)⟩

theorem pure (a : α) : (Pure.pure a : Reading α).Frames start := of_step fun c => .refl c

theorem cursor : Reading.cursor.Frames start := of_step fun c => .refl c

theorem here : Reading.here.Frames start := of_step fun c => .refl c

theorem take : Reading.take.Frames start := of_step Cursor.reaches_advance

theorem emit {e : Event} (he : e.isPlain = true) : (Reading.emit e).Frames start := by
  intro c events a d hc hrun
  obtain ⟨rfl, hrun⟩ := Prod.mk.injEq .. |>.mp hrun
  obtain ⟨-, rfl⟩ := by simpa using hrun
  exact ⟨.single he, hc⟩

theorem fail (fault : Fault) : (Reading.fail fault : Reading α).Frames start :=
  fun _ _ _ _ _ hrun => nomatch hrun

theorem reportComments : Reading.reportComments.Frames start := by
  intro c events a d hc hrun
  obtain ⟨rfl, hrun⟩ := Prod.mk.injEq .. |>.mp hrun
  obtain ⟨-, rfl⟩ := by simpa using hrun
  exact ⟨.comments _, hc.trans ⟨[], Cursor.spans_nil rfl rfl⟩⟩

theorem bind (h : r.Frames start) (hf : ∀ a, (f a).Frames start) : (r >>= f).Frames start := by
  intro c events b e hc hrun
  obtain ⟨first, a, d, more, hfirst, hmore, rfl⟩ := exists_of_bind_ok hrun
  obtain ⟨hframed, hd⟩ := h c first a d hc hfirst
  obtain ⟨hframed', he⟩ := hf a d more b e hd hmore
  exact ⟨hframed.append hframed', he⟩

theorem semicolon : (do let _ ← Reading.semicolon : Reading Unit).Frames start :=
  (cursor.bind fun _ => Rules.choice (P := fun _ r => r.Frames start) take
    (here.bind fun _ => fail _)).bind fun _ => pure ()

/-- The ends of one expression with a reading between that steps over a token and ends where an
expression may. -/
theorem bounded {r : Reading Unit} (h : r.Frames start) {c d : Cursor} {events : List Event}
    (hc : start.Reaches c) (hadvances : r.AdvancesAt c) (hsettles : r.SettlesAt c)
    (hrun : (do
      Reading.emit (.openExpression c.here.toSpan)
      r
      Reading.emit (.closeExpression (← before).toSpan false) : Reading Unit) c =
        (events, .ok ((), d))) : Framed start events ∧ start.Reaches d := by
  obtain ⟨opening, _, _, rest, hopening, hrest, rfl⟩ := exists_of_bind_ok hrun
  obtain ⟨rfl, hopening⟩ := Prod.mk.injEq .. |>.mp hopening
  obtain ⟨-, rfl⟩ := by simpa using hopening
  obtain ⟨inside, _, e, closing, hinside, hclosing, rfl⟩ := exists_of_bind_ok hrest
  have hclosing : ([Event.closeExpression e.before.toSpan false], Except.ok ((), e)) =
    (closing, (Except.ok ((), d) : Except SourceError (Unit × Cursor))) := hclosing
  obtain ⟨rfl, rfl⟩ := by simpa using hclosing
  obtain ⟨hframed, hreaches⟩ := h c inside () e hc hinside
  exact ⟨.expression ⟨c, e, hc, hadvances inside () e hinside, hsettles inside () e hinside, rfl, rfl⟩
    hframed .nil, hreaches⟩

end Frames

/-- The call of another constructor steps over its keyword, since parentheses follow. -/
theorem advancesAt_call {inner : Enclosed} (h : inner.Reports source none) {c : Cursor}
    (hc : Token.Laid source c.tokens) : (do
      let _ ← take
      arguments inner : Reading Unit).AdvancesAt c := by
  intro events a d hrun
  have hend : ¬ c.here.isEnd := by
    obtain ⟨before, here, ahead, comments⟩ := c
    have harguments : arguments inner (Cursor.advance ⟨before, here, ahead, comments⟩) =
        (events, .ok ((), d)) := hrun
    cases ahead with
    | nil => exact not_isEnd_of_kind (kind_of_expect harguments) (by decide)
    | cons t ts =>
        have hsplit : Token.Laid source ([here] ++ t :: ts) := hc
        exact hsplit.not_isEnd (List.cons_ne_nil t ts) here (by simp)
  have hpasses := Cursor.passes_advance hc hend
  exact hpasses.trans_reaches ((reports_arguments h).reaches (hpasses.reaches.laid hc) hrun)

/-- In the events of every production the ends of expressions pair up. -/
theorem rules_frames (hstart : start.Sited source) :
    Rules (fun _ r => r.Frames start) (Enclosed.Bounding source) where
  pure := .pure
  fail := .fail
  emit he := .emit he
  cursor := .cursor
  here := .here
  before := .of_step fun c => .refl c
  take := .take
  forward n := .of_step (Cursor.reaches_forward n)
  reportComments := .reportComments
  bind h hf := h.bind hf
  choose h c := h c c
  expression {inner} h := by
    intro c events a d hc hrun
    have hsited := hstart.reaching hc
    change (if c.here.endsExpression = true then _ else _ : Reading Unit) c = _ at hrun
    split at hrun
    · cases hrun
    · exact h.assignment.bounded hc (h.asked.reports.advances c hsited.laid)
        (h.asked.settles.assignment c hsited) hrun
  variableValue {inner} h harray hexpression := by
    intro c events a d hc hrun
    have hsited := hstart.reaching hc
    change (if c.here.kind = .openBrace then _ else _ : Reading Unit) c = _ at hrun
    split at hrun
    · exact harray.bounded hc (advances_arrayInitializer h.asked.reports c hsited.laid)
        (settles_arrayInitializer h.asked.settles.delivers c hsited) hrun
    · exact hexpression c events a d hc hrun
  delegateCall {inner} h harguments := by
    intro c events a d hc hrun
    have hsited := hstart.reaching hc
    let call (keyword : Token) : Reading Unit := do
      emit (.delegateCall keyword.toSpan)
      let _ ← take
      arguments inner
    have hcall (keyword : Token) : (call keyword).Frames start :=
      (Frames.emit rfl).bind fun _ => Frames.take.bind fun _ => harguments
    have hsplit : delegateCall inner c = (emit (.expressionStatement c.here.toSpan) >>= fun _ => (do
        emit (.openExpression c.here.toSpan)
        call c.here
        emit (.closeExpression (← before).toSpan false)) >>= fun _ => do
          let _ ← semicolon) c := by
      simp only [delegateCall, call, bind_assoc, here_bind]
    rw [hsplit] at hrun
    obtain ⟨announced, _, _, rest, hannounced, hrest, rfl⟩ := exists_of_bind_ok hrun
    obtain ⟨rfl, hannounced⟩ := Prod.mk.injEq .. |>.mp hannounced
    obtain ⟨-, rfl⟩ := by simpa using hannounced
    obtain ⟨inside, _, e, closing, hinside, hclosing, rfl⟩ := exists_of_bind_ok hrest
    obtain ⟨hframed, he⟩ := (hcall c.here).bounded hc (advancesAt_emit (advancesAt_call h.asked.reports hsited.laid))
      (.behind (.emit rfl rfl) hsited fun _ => .behind .take fun _ =>
        settles_arguments h.asked.settles.delivers) hinside
    obtain ⟨hclosed, hd⟩ := Frames.semicolon e closing () d he hclosing
    exact ⟨.append (.single rfl) (hframed.append hclosed), hd⟩

end Reading

/-- In the events of a source that can be read the ends of expressions pair up. -/
theorem framed_of_lex {source : Text} {tokens : List Token} (htokens : lex source = .ok tokens)
    (hread : (readEvents source).2 = .ok ()) :
    ∃ start, Cursor.ofTokens tokens = some start ∧ Framed start (readEvents source).1 := by
  obtain ⟨c, d, hc, hmembers⟩ := exists_members_of_readEvents htokens hread
  have hrules := Reading.rules_frames (Cursor.sited_of_ofTokens (laid_of_lex htokens) hc)
  have hwithin := hrules.within (Enclosed.bounding_within source) nestingLimit
  exact ⟨c, hc, (hrules.members hwithin c _ () d (.refl c) hmembers).1⟩

end CodeFrames
