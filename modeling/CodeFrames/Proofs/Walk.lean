import CodeFrames.Proofs.Delivery
import CodeFrames.Proofs.Productions

/-!
# Readings step by step

Every reading is put together from a few steps: it looks at the cursor, moves it forward, reports an
event, reports the comments that are due, or stops with a fault.  `Walk` follows the steps of one run
and keeps the cursor of every event.  What holds of each step then holds of the whole run: the cursor
only moves forward, a fault is on the line of a token that was reached, and the comments come out one
by one, each ahead of the token at the cursor.
-/

namespace CodeFrames

namespace Reading

variable {α β : Type}

/-- A run of a reading: each reported event with the cursor it was reported at, and the result. -/
inductive Walk : {α : Type} → Reading α → Cursor → List (Event × Cursor) →
    Except SourceError (α × Cursor) → Prop
  | pure {α : Type} (a : α) (c : Cursor) : Walk (Pure.pure a) c [] (.ok (a, c))
  | fail {α : Type} (fault : Fault) (c : Cursor) :
      Walk (Reading.fail fault : Reading α) c [] (.error ⟨c.here.line, fault⟩)
  | emit {e : Event} (c : Cursor) : e.comment? = none → Walk (Reading.emit e) c [(e, c)] (.ok ((), c))
  | cursor (c : Cursor) : Walk Reading.cursor c [] (.ok (c, c))
  | here (c : Cursor) : Walk Reading.here c [] (.ok (c.here, c))
  | before (c : Cursor) : Walk Reading.before c [] (.ok (c.before, c))
  | take (c : Cursor) : Walk Reading.take c [] (.ok (c.here, c.advance))
  | forward (n : Nat) (c : Cursor) : Walk (Reading.forward n) c [] (.ok ((), c.forward n))
  | reportComments (c : Cursor) :
      Walk Reading.reportComments c (c.due.map fun t => (.comment t.toSpan, c)) (.ok ((), c.relieved))
  | stop {α β : Type} {r : Reading α} {f : α → Reading β} {c : Cursor}
      {trace : List (Event × Cursor)} {e : SourceError} :
      Walk r c trace (.error e) → Walk (r >>= f) c trace (.error e)
  | bind {α β : Type} {r : Reading α} {f : α → Reading β} {c d : Cursor} {a : α}
      {trace more : List (Event × Cursor)} {result : Except SourceError (β × Cursor)} :
      Walk r c trace (.ok (a, d)) → Walk (f a) d more result → Walk (r >>= f) c (trace ++ more) result
  /-- What is read may depend on the cursor. -/
  | choose {α : Type} {f : Cursor → Reading α} {c : Cursor} {trace : List (Event × Cursor)}
      {result : Except SourceError (α × Cursor)} :
      Walk (f c) c trace result → Walk (fun c => f c c) c trace result

/-! ## What a walk keeps -/

namespace Walk

variable {r : Reading α} {c : Cursor} {trace : List (Event × Cursor)}
  {result : Except SourceError (α × Cursor)}

/-- The walk is the run of the reading: it has its events and its result. -/
theorem run_eq (h : Walk r c trace result) : r c = (trace.map Prod.fst, result) := by
  induction h with
  | pure | fail | emit | cursor | here | before | take | forward => rfl
  | reportComments c => rw [List.map_map, c.reportComments_eq]; rfl
  | stop hr ih => exact bind_of_error _ ih
  | bind hr hf ihr ihf => rw [bind_of_ok _ ihr, ihf, List.map_append]
  | choose _ ih => exact ih

/-- The cursor only moves forward. -/
theorem reaches (h : Walk r c trace result) : ∀ a d, result = .ok (a, d) → c.Reaches d := by
  induction h with
  | pure | emit | cursor | here | before =>
      rintro a d ⟨⟩
      exact .refl _
  | fail | stop => exact nofun
  | take c =>
      rintro a d ⟨⟩
      exact c.reaches_advance
  | forward n c =>
      rintro a d ⟨⟩
      exact c.reaches_forward n
  | reportComments c =>
      rintro a d ⟨⟩
      exact ⟨[], Cursor.spans_nil rfl rfl⟩
  | bind hr hf ihr ihf => exact fun b e he => (ihr _ _ rfl).trans (ihf b e he)
  | choose _ ih => exact ih

/-- A fault is on the line of the token at a cursor that was reached. -/
theorem line_of_error (h : Walk r c trace result) :
    ∀ e, result = .error e → ∃ d, c.Reaches d ∧ e.line = d.here.line := by
  induction h with
  | pure | emit | cursor | here | before | take | forward | reportComments => exact nofun
  | fail fault c =>
      rintro e ⟨⟩
      exact ⟨c, .refl c, rfl⟩
  | stop hr ih =>
      rintro e ⟨⟩
      exact ih _ rfl
  | bind hr hf ihr ihf =>
      intro e he
      obtain ⟨d, hd, hline⟩ := ihf e he
      exact ⟨d, (hr.reaches _ _ rfl).trans hd, hline⟩
  | choose _ ih => exact ih

/-- The comments reported are the first of those that had not been, and the others are left. -/
theorem comments_eq (h : Walk r c trace result) :
    ∃ reported rest, c.comments = reported ++ rest ∧
      trace.filterMap (·.1.comment?) = reported.map Token.toSpan ∧
      ∀ a d, result = .ok (a, d) → d.comments = rest := by
  induction h with
  | pure | cursor | here | before => exact ⟨[], _, rfl, rfl, by rintro a d ⟨⟩; rfl⟩
  | fail => exact ⟨[], _, rfl, rfl, nofun⟩
  | emit c he => exact ⟨[], _, rfl, by simp [he], by rintro a d ⟨⟩; rfl⟩
  | take c =>
      exact ⟨[], _, rfl, rfl, by rintro a d ⟨⟩; exact Delivers.comments_advance c⟩
  | forward n c =>
      exact ⟨[], _, rfl, rfl, by rintro a d ⟨⟩; exact Delivers.comments_forward n c⟩
  | reportComments c =>
      refine ⟨c.due, c.relieved.comments, c.comments_eq_due, ?_, by rintro a d ⟨⟩; rfl⟩
      simp [List.filterMap_map, Event.comment?]
  | stop hr ih =>
      obtain ⟨reported, rest, hcomments, hspans, -⟩ := ih
      exact ⟨reported, rest, hcomments, hspans, nofun⟩
  | bind hr hf ihr ihf =>
      obtain ⟨reported, rest, hcomments, hspans, hrest⟩ := ihr
      obtain ⟨more, others, hmore, hothers, hend⟩ := ihf
      refine ⟨reported ++ more, others, ?_, ?_, hend⟩
      · rw [hcomments, ← hrest _ _ rfl, hmore, List.append_assoc]
      · rw [List.filterMap_append, hspans, hothers, List.map_append]
  | choose _ ih => exact ih

/-- A comment is reported ahead of the token at the cursor. -/
theorem start_lt_of_comment (h : Walk r c trace result) :
    ∀ e d, (e, d) ∈ trace → ∀ whole, e.comment? = some whole → whole.start < d.here.start := by
  induction h with
  | pure | fail | cursor | here | before | take | forward => simp
  | @emit e c he => simp [he]
  | reportComments c =>
      intro e d hmem whole hwhole
      obtain ⟨t, ht, heq⟩ := List.mem_map.mp hmem
      obtain ⟨rfl, rfl⟩ := Prod.mk.inj heq
      obtain rfl := Option.some.inj hwhole
      exact Cursor.start_lt_of_due ht
  | stop _ ih | choose _ ih => exact ih
  | bind hr hf ihr ihf =>
      intro e d hmem
      rcases List.mem_append.mp hmem with hmem | hmem
      · exact ihr e d hmem
      · exact ihf e d hmem

end Walk

/-! ## Every reading is a walk -/

/-- From every cursor the run of the reading is a walk. -/
def Walks (r : Reading α) : Prop :=
  ∀ c, ∃ trace, Walk r c trace (r c).2 ∧ trace.map Prod.fst = (r c).1

end Reading

theorem Event.comment?_of_isPlain {e : Event} (h : e.isPlain = true) : e.comment? = none := by
  cases e <;> simp_all [isPlain, comment?]

namespace Reading.Walks

variable {α β : Type} {r : Reading α} {f : α → Reading β}

theorem bind (h : r.Walks) (hf : ∀ a, (f a).Walks) : (r >>= f).Walks := by
  intro c
  obtain ⟨trace, hwalk, htrace⟩ := h c
  cases hr : r c with
  | mk events result =>
      rw [hr] at hwalk htrace
      cases result with
      | error e =>
          rw [bind_of_error f hr]
          exact ⟨trace, .stop hwalk, htrace⟩
      | ok p =>
          obtain ⟨a, d⟩ := p
          obtain ⟨more, hmore, hevents⟩ := hf a d
          rw [bind_of_ok f hr]
          exact ⟨trace ++ more, .bind hwalk hmore, by rw [List.map_append, htrace, hevents]⟩

theorem choose {f : Cursor → Reading α} (h : ∀ c, (f c).Walks) : Walks fun c => f c c := by
  intro c
  obtain ⟨trace, hwalk, htrace⟩ := h c c
  exact ⟨trace, .choose hwalk, htrace⟩

theorem emit {e : Event} (he : e.comment? = none) : (Reading.emit e).Walks :=
  fun c => ⟨[(e, c)], .emit c he, rfl⟩

theorem before : Reading.before.Walks := fun c => ⟨[], .before c, rfl⟩

theorem here : Reading.here.Walks := fun c => ⟨[], .here c, rfl⟩

theorem cursor : Reading.cursor.Walks := fun c => ⟨[], .cursor c, rfl⟩

theorem take : Reading.take.Walks := fun c => ⟨[], .take c, rfl⟩

theorem pure (a : α) : (Pure.pure a : Reading α).Walks := fun c => ⟨[], .pure a c, rfl⟩

theorem fail (fault : Fault) : (Reading.fail fault : Reading α).Walks :=
  fun c => ⟨[], .fail fault c, rfl⟩

theorem reportComments : Reading.reportComments.Walks := fun c =>
  ⟨_, .reportComments c, by rw [List.map_map, c.reportComments_eq]; rfl⟩

theorem refuse (expected : Expectation) : (Reading.refuse expected : Reading α).Walks :=
  here.bind fun _ => fail _

theorem expect (kind : Token.Kind) (symbol : String) : (Reading.expect kind symbol).Walks :=
  cursor.bind fun _ => Rules.choice take (refuse _)

/-- The events around an expression and between them what is read. -/
theorem bounded {r : Reading Unit} (h : r.Walks) (first : Token) : (do
    Reading.emit (.openExpression first.toSpan)
    r
    Reading.emit (.closeExpression (← Reading.before).toSpan false) : Reading Unit).Walks :=
  (@emit (.openExpression first.toSpan) rfl).bind fun _ => h.bind fun _ => before.bind fun _ => emit rfl

end Reading.Walks

/-- Every production is a walk where those one nesting level deeper are. -/
theorem Reading.rules_walks : Reading.Rules (fun _ r => r.Walks) fun _ => True where
  pure := .pure
  fail := .fail
  emit he := .emit (Event.comment?_of_isPlain he)
  cursor := .cursor
  here := .here
  before := .before
  take := .take
  forward n c := ⟨[], .forward n c, rfl⟩
  reportComments := .reportComments
  bind h hf := h.bind hf
  choose h := .choose h
  expression h := Walks.here.bind fun first => Rules.choice
    ((Walks.refuse _).bind fun _ => .bounded h.assignment first)
    (.bounded h.assignment first)
  variableValue _ harray hexpression :=
    Walks.here.bind fun first => Rules.choice (.bounded harray first) hexpression
  delegateCall _ harguments :=
    have hclose := Walks.before.bind fun t => (@Walks.emit (.closeExpression t.toSpan false) rfl).bind
      fun _ => (Walks.expect .semicolon ";").bind fun _ => .pure ()
    Walks.here.bind fun _ => (Walks.emit rfl).bind fun _ => (Walks.emit rfl).bind fun _ =>
      (Walks.emit rfl).bind fun _ => Walks.take.bind fun _ => harguments.bind fun _ => hclose

/-- At every nesting level the productions are walks. -/
theorem Enclosed.walks_within (levels : Nat) :
    (Enclosed.within levels).Obeys (fun _ r => r.Walks) fun _ => True :=
  Reading.rules_walks.within (fun _ => trivial) levels

theorem Reading.Walks.members {inner : Enclosed} (h : inner.Obeys (fun _ r => r.Walks) fun _ => True) :
    (Reading.members inner).Walks := Reading.rules_walks.members h

end CodeFrames
