import CodeFrames.Conversion
import CodeFrames.Proofs.Sentence

/-!
# Assembling a sentence

An assembly takes every event of a sentence and ends up with exactly what is read off it, unless some
declaration names more than one access level.  The frame of each production says what else of the
state it touches: inside an expression only the warnings and the pending comment change, and a
statement adds its elements to the handler on top.
-/

namespace CodeFrames

open Sentence

theorem Except.ok_bind {ε α β : Type} (a : α) (f : α → Except ε β) :
    (Except.ok a >>= f) = f a := rfl

theorem Except.error_bind {ε α β : Type} (e : ε) (f : α → Except ε β) :
    ((Except.error e : Except ε α) >>= f) = .error e := rfl

theorem Except.exists_of_bind {ε α β : Type} {x : Except ε α} {f : α → Except ε β} {b : β}
    (h : x >>= f = .ok b) : ∃ a, x = .ok a ∧ f a = .ok b := by
  cases x with
  | error e => rw [Except.error_bind] at h; cases h
  | ok a => exact ⟨a, rfl, h⟩

theorem Except.exists_of_map {ε α β : Type} {x : Except ε α} {f : α → β} {b : β}
    (h : x.map f = .ok b) : ∃ a, x = .ok a ∧ f a = b := by
  cases x with
  | error e => cases h
  | ok a => exact ⟨a, rfl, by simpa [Except.map] using h⟩

theorem Except.exists_of_isOk {ε α : Type} {x : Except ε α} (h : x.isOk = true) :
    ∃ a, x = .ok a := by
  cases x with
  | error e => cases h
  | ok a => exact ⟨a, rfl⟩

theorem Except.exists_of_map_eq {ε α β : Type} {x : Except ε α} {f : α → β} {b : β}
    (h : x.toOption.map f = some b) : ∃ a, x = .ok a ∧ f a = b := by
  cases x with
  | error e => cases h
  | ok a => exact ⟨a, rfl, Option.some.inj h⟩

/-- A conversion that succeeds has read the source to its end and finished what was assembled. -/
theorem exists_of_convert {options : Options} {source : Text} {conversion : Conversion}
    (h : convert options source = .ok conversion) :
    ∃ events a, readEvents source = (events, .ok ()) ∧
      (Assembly.start source options).run events = .ok a ∧ a.finish = .ok conversion := by
  unfold convert at h
  rcases hread : readEvents source with ⟨events, result⟩
  rw [hread] at h
  obtain ⟨a, hrun, hfinish⟩ := Except.exists_of_bind h
  cases result with
  | error e => cases hfinish
  | ok u => exact ⟨events, a, rfl, hrun, hfinish⟩

namespace Assembly

theorem run_nil (a : Assembly) : a.run [] = .ok a := rfl

theorem run_cons (a : Assembly) (event : Event) (events : List Event) :
    a.run (event :: events) = a.step event >>= fun b => b.run events := rfl

theorem run_append (a : Assembly) (events more : List Event) :
    a.run (events ++ more) = a.run events >>= fun b => b.run more :=
  List.foldlM_append

theorem run_singleton (a : Assembly) (event : Event) : a.run [event] = a.step event := by
  rw [run_cons]
  cases a.step event <;> rfl

theorem run_cons_of_ok {a b : Assembly} {event : Event} (events : List Event)
    (h : a.step event = .ok b) : a.run (event :: events) = b.run events := by
  rw [run_cons, h, Except.ok_bind]

theorem run_append_of_ok {a b : Assembly} {events : List Event} (more : List Event)
    (h : a.run events = .ok b) : a.run (events ++ more) = b.run more := by
  rw [run_append, h, Except.ok_bind]

end Assembly

/-! ## Inside expressions -/

namespace Sentence

theorem kept_nil (comment : Option Text) : kept [] comment = comment := rfl

theorem kept_cons (w : Warning) (warnings : List Warning) (comment : Option Text) :
    kept (w :: warnings) comment = none := rfl

theorem kept_append (warnings later : List Warning) (comment : Option Text) :
    kept (warnings ++ later) comment = kept later (kept warnings comment) := by
  cases warnings <;> cases later <;> rfl

@[simp] theorem kept_none (warnings : List Warning) : kept warnings none = none := by
  simp [kept]

end Sentence

namespace Assembly

/-- What the events inside an expression do to an assembly. -/
def noting (a : Assembly) (warnings : List Warning) : Assembly :=
  { a with warnings := a.warnings ++ warnings, comment := kept warnings a.comment }

theorem noting_nil (a : Assembly) : a.noting [] = a := by
  simp [noting, kept_nil]

theorem noting_noting (a : Assembly) (warnings later : List Warning) :
    (a.noting warnings).noting later = a.noting (warnings ++ later) := by
  simp [noting, kept_append]

/-- The assembly with other expressions under extraction. -/
def extracting (a : Assembly) (expressions : List Extraction) : Assembly := { a with expressions }

/-- An expression inside an open one leaves it as it was. -/
theorem closed_opened {x : Extraction} (h : 0 < x.depth) (source : Text) (start stop : Nat)
    (isEmpty : Bool) : (x.opened start).closed source stop isEmpty = .ok (x, none) := by
  obtain ⟨use, depth, first⟩ := x
  cases depth with
  | zero => simp at h
  | succ depth => simp [Extraction.opened, Extraction.closed]

theorem step_openExpression {a : Assembly} {x : Extraction} {below : List Extraction}
    (hx : a.expressions = x :: below) (first : Span) :
    a.step (.openExpression first) = .ok (a.extracting (x.opened first.start :: below)) := by
  simp only [step, openExpression, hx, extracting]

theorem step_closeExpression_inside {a : Assembly} {x : Extraction} {below : List Extraction}
    {start : Nat} (hx : a.expressions = x.opened start :: below) (h : 0 < x.depth) (last : Span)
    (isEmpty : Bool) :
    a.step (.closeExpression last isEmpty) = .ok (a.extracting (x :: below)) := by
  simp only [step, closeExpression, hx, closed_opened h]
  rfl

/-- A nested argument list leaves the list around it as it was. -/
theorem step_closeArguments_inside {a b : Assembly} (h : ∀ l ∈ a.arguments.head?, 0 < l.depth)
    (hb : b.arguments = a.openArguments.arguments) (closing : Span) :
    b.step (.closeArguments closing) = .ok { b with arguments := a.arguments } := by
  change b.closeArguments = _
  cases ha : a.arguments with
  | nil =>
      have hb' : b.arguments = [] := by rw [hb, openArguments, ha]; exact ha
      simp only [closeArguments, hb']
      rw [← hb']
  | cons l lists =>
      have hl : 0 < l.depth := h l (by simp [ha])
      have hb' : b.arguments = l.opened :: lists := by rw [hb, openArguments, ha]
      obtain ⟨kind, depth, texts⟩ := l
      have hdepth : depth ≠ 0 := Nat.pos_iff_ne_zero.mp hl
      simp [closeArguments, hb', ArgumentCollector.opened, ArgumentCollector.closed,
        Except.ok_bind, hdepth, pure, Except.pure]

theorem openArguments_depth {a : Assembly} (h : ∀ l ∈ a.arguments.head?, 0 < l.depth) :
    ∀ l ∈ a.openArguments.arguments.head?, 1 < l.depth := by
  intro l hl
  cases ha : a.arguments with
  | nil => simp [openArguments, ha] at hl
  | cons m lists =>
      have hm : 0 < m.depth := h m (by simp [ha])
      simp only [openArguments, ha, List.head?_cons, Option.mem_some_iff] at hl
      subst l
      exact Nat.succ_lt_succ hm

/-- The arguments of nested lists are not extracted. -/
theorem step_argument_inside {a : Assembly} (h : ∀ l ∈ a.arguments.head?, 1 < l.depth)
    (announced : Span) : a.step (.argument announced) = .ok a := by
  cases ha : a.arguments with
  | nil => simp only [step, argument, ha]
  | cons l lists =>
      have hl : 1 < l.depth := h l (by simp [ha])
      simp only [step, argument, ha, if_neg (Nat.ne_of_gt hl)]

theorem extracting_self {a : Assembly} {expressions : List Extraction}
    (h : a.expressions = expressions) : a.extracting expressions = a := by
  subst h; rfl

/-- What a nested expression leaves behind, given what the events between its ends do. -/
private theorem run_nested {a : Assembly} {x : Extraction} {below : List Extraction}
    {events : List Event} {warnings : List Warning} (hx : a.expressions = x :: below)
    (hdepth : 0 < x.depth) (first last : Span) (isEmpty : Bool) (rest : List Event)
    (hinner : (a.extracting (x.opened first.start :: below)).run events =
      .ok ((a.extracting (x.opened first.start :: below)).noting warnings)) :
    a.run (.openExpression first :: (events ++ .closeExpression last isEmpty :: rest)) =
      (a.noting warnings).run rest := by
  have hclose := step_closeExpression_inside
    (a := (a.extracting (x.opened first.start :: below)).noting warnings) rfl hdepth last isEmpty
  have hback : ((a.extracting (x.opened first.start :: below)).noting warnings).extracting
      (x :: below) = a.noting warnings := by
    rw [← hx]; rfl
  rw [run_cons_of_ok _ (step_openExpression hx first), run_append_of_ok _ hinner,
    run_cons_of_ok _ hclose, hback]

mutual
/-- An open expression and the argument lists around it stay as they are. -/
theorem run_inside : ∀ {events : List Event} {warnings : List Warning}, Inside events warnings →
    ∀ {a : Assembly} {x : Extraction} {below : List Extraction}, a.expressions = x :: below →
      0 < x.depth → (∀ l ∈ a.arguments.head?, 0 < l.depth) →
      a.run events = .ok (a.noting warnings)
  | _, _, .nothing, a, _, _, _, _, _ => by rw [run_nil, noting_nil]
  | _, _, .unsupported place construct rest, a, x, below, hx, hdepth, hlists => by
      rw [run_cons_of_ok _ rfl, run_inside rest (by exact hx) hdepth (by exact hlists)]
      simp [dropComment, warn, noting, kept_cons, List.append_assoc]
  | _, _, .expression first last isEmpty inner rest, a, x, below, hx, hdepth, hlists => by
      have hinner := run_inside inner (a := a.extracting (x.opened first.start :: below)) rfl
        (Nat.succ_pos x.depth) hlists
      rw [run_nested hx hdepth first last isEmpty _ hinner,
        run_inside rest (by exact hx) hdepth (by exact hlists), noting_noting]
  | _, _, @Inside.arguments _ _ warnings _ opening closing inner rest, a, x, below, hx, hdepth,
      hlists => by
      have hopened : a.openArguments.expressions = a.expressions := by
        unfold openArguments; split <;> rfl
      have hinner := run_arguments inner (a := a.openArguments) (hopened.trans hx) hdepth
        (openArguments_depth hlists)
      have hclose := step_closeArguments_inside (b := a.openArguments.noting warnings) hlists rfl
        closing
      have hback : { a.openArguments.noting warnings with arguments := a.arguments } =
          a.noting warnings := by
        unfold openArguments noting; split <;> rfl
      rw [run_cons_of_ok _ rfl, run_append_of_ok _ hinner, run_cons_of_ok _ hclose, hback,
        run_inside rest (by exact hx) hdepth (by exact hlists), noting_noting]
theorem run_arguments : ∀ {events : List Event} {warnings : List Warning},
    Arguments events warnings →
    ∀ {a : Assembly} {x : Extraction} {below : List Extraction}, a.expressions = x :: below →
      0 < x.depth → (∀ l ∈ a.arguments.head?, 1 < l.depth) →
      a.run events = .ok (a.noting warnings)
  | _, _, .nothing, a, _, _, _, _, _ => by rw [run_nil, noting_nil]
  | _, _, .argument announced first last isEmpty inner rest, a, x, below, hx, hdepth, hlists => by
      have hinner := run_inside inner (a := a.extracting (x.opened first.start :: below)) rfl
        (Nat.succ_pos x.depth) fun l hl => Nat.zero_lt_of_lt (hlists l hl)
      rw [run_cons_of_ok _ (step_argument_inside hlists announced),
        run_nested hx hdepth first last isEmpty _ hinner,
        run_arguments rest (by exact hx) hdepth (by exact hlists), noting_noting]
end

theorem step_closeExpression_outermost {a : Assembly} {x y : Extraction} {below : List Extraction}
    {text : Text} {last : Span} {isEmpty : Bool} (hx : a.expressions = x :: below)
    (h : x.closed a.source last.stop isEmpty = .ok (y, some text)) :
    a.step (.closeExpression last isEmpty) =
      (a.extracting below).fulfil y.use (withSubtypeOperator text) := by
  simp only [step, closeExpression, hx, h, Except.ok_bind]
  rfl

/-- The text of a whole expression goes to the use that awaits it. -/
theorem run_expression {source text : Text} {events : List Event} {warnings : List Warning}
    (h : Expression source events text warnings) {a : Assembly} {use : ExpressionUse}
    {below : List Extraction} (hsource : a.source = source)
    (hx : a.expressions = .awaiting use :: below)
    (hlists : ∀ l ∈ a.arguments.head?, 0 < l.depth) :
    a.run events = ((a.noting warnings).extracting below).fulfil use text := by
  subst hsource
  have hrun {events : List Event} {first last : Span} {isEmpty : Bool} {text : Text}
      (inner : Inside events warnings)
      (hclosed : ((Extraction.awaiting use).opened first.start).closed a.source last.stop isEmpty =
        .ok (⟨use, 0, some first.start⟩, some text)) :
      a.run (.openExpression first :: (events ++ [.closeExpression last isEmpty])) =
        ((a.noting warnings).extracting below).fulfil use (withSubtypeOperator text) := by
    have hinside := run_inside inner
      (a := a.extracting ((Extraction.awaiting use).opened first.start :: below)) rfl
      Nat.zero_lt_one hlists
    rw [run_cons_of_ok _ (step_openExpression hx first), run_append_of_ok _ hinside, run_singleton]
    exact step_closeExpression_outermost
      (a := (a.extracting ((Extraction.awaiting use).opened first.start :: below)).noting warnings)
      rfl hclosed
  cases h with
  | bounded first last inner hslice =>
      apply hrun inner
      simp [Extraction.closed, Extraction.opened, Extraction.awaiting, Extraction.textTo, hslice,
        Except.ok_bind, pure, Except.pure]
  | empty first last inner => exact hrun inner rfl

end Assembly

end CodeFrames
