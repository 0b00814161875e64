import CodeFrames.Proofs.Language
import CodeFrames.Proofs.Layout
import CodeFrames.Reading.Basic

/-!
# Readings and the languages they report

A reading reports a language when the events of every successful run are a word of it and those of
every other run begin one.  The rules follow how readings are put together, so that each production
is checked against the grammar where it is written.
-/

namespace CodeFrames

open scoped Computability
open Sentence

/-! ## Positions -/

namespace Cursor

/-- The tokens between two cursors have been stepped over. -/
def Spans (c : Cursor) (passed : List Token) (d : Cursor) : Prop :=
  c.tokens = passed ++ d.tokens ∧ d.before = passed.getLastD c.before

/-- The second cursor is at or behind the first. -/
def Reaches (c d : Cursor) : Prop := ∃ passed, c.Spans passed d

/-- The second cursor is behind the first. -/
def Passes (c d : Cursor) : Prop := ∃ passed, passed ≠ [] ∧ c.Spans passed d

variable {c d e : Cursor}

theorem Spans.trans {passed more : List Token} (h : c.Spans passed d) (g : d.Spans more e) :
    c.Spans (passed ++ more) e := by
  obtain ⟨h₁, h₂⟩ := h
  obtain ⟨g₁, g₂⟩ := g
  refine ⟨by rw [h₁, g₁, List.append_assoc], ?_⟩
  rw [g₂, h₂]
  cases more using List.reverseRecOn <;> simp

theorem spans_nil (hbefore : d.before = c.before) (htokens : d.tokens = c.tokens) :
    c.Spans [] d := ⟨htokens.symm, hbefore⟩

theorem Reaches.refl (c : Cursor) : c.Reaches c := ⟨[], spans_nil rfl rfl⟩

theorem Reaches.trans (h : c.Reaches d) (g : d.Reaches e) : c.Reaches e := by
  obtain ⟨passed, h⟩ := h
  obtain ⟨more, g⟩ := g
  exact ⟨passed ++ more, h.trans g⟩

theorem Passes.reaches (h : c.Passes d) : c.Reaches d := by
  obtain ⟨passed, -, h⟩ := h
  exact ⟨passed, h⟩

theorem Passes.trans_reaches (h : c.Passes d) (g : d.Reaches e) : c.Passes e := by
  obtain ⟨passed, hne, h⟩ := h
  obtain ⟨more, g⟩ := g
  exact ⟨passed ++ more, by simp [hne], h.trans g⟩

theorem Reaches.trans_passes (h : c.Reaches d) (g : d.Passes e) : c.Passes e := by
  obtain ⟨passed, h⟩ := h
  obtain ⟨more, hne, g⟩ := g
  exact ⟨passed ++ more, by simp [hne], h.trans g⟩

/-- The token before a cursor further on is one of those ahead of the first. -/
theorem Passes.before_mem (h : c.Passes d) : d.before ∈ c.tokens := by
  obtain ⟨passed, hne, htokens, hbefore⟩ := h
  rw [htokens, hbefore, List.getLastD_eq_getLast?, List.getLast?_eq_some_getLast hne]
  exact List.mem_append_left _ (List.getLast_mem hne)

theorem Spans.ne_nil_of_passes {passed : List Token} (h : c.Spans passed d) (hpasses : c.Passes d) :
    passed ≠ [] := by
  obtain ⟨more, hne, hmore⟩ := hpasses
  rwa [List.append_cancel_right (h.1.symm.trans hmore.1)]

/-- The first token that has been stepped over is the one at the cursor. -/
theorem Spans.exists_cons {passed : List Token} (h : c.Spans passed d) (hne : passed ≠ []) :
    ∃ rest, passed = c.here :: rest := by
  obtain ⟨t, rest, rfl⟩ := List.exists_cons_of_ne_nil hne
  exact ⟨rest, by rw [(List.cons.inj h.1).1]⟩

theorem Reaches.laid {source : Text} (h : c.Reaches d) (hc : Token.Laid source c.tokens) :
    Token.Laid source d.tokens := by
  obtain ⟨passed, htokens, -⟩ := h
  rw [htokens] at hc
  exact hc.drop (List.cons_ne_nil _ _)

theorem reaches_advance (c : Cursor) : c.Reaches c.advance := by
  obtain ⟨before, here, ahead, comments⟩ := c
  cases ahead with
  | nil => exact Reaches.refl _
  | cons t ts => exact ⟨[here], rfl, rfl⟩

theorem reaches_forward (n : Nat) (c : Cursor) : c.Reaches (c.forward n) := by
  induction n generalizing c with
  | zero => exact Reaches.refl c
  | succ n ih => exact (reaches_advance c).trans (ih c.advance)

/-- Behind a token that is not the end of input there is another one to step to. -/
theorem spans_advance {source : Text} (h : Token.Laid source c.tokens) (hend : ¬ c.here.isEnd) :
    c.Spans [c.here] c.advance := by
  obtain ⟨before, here, ahead, comments⟩ := c
  cases ahead with
  | nil => exact absurd rfl (h.tail hend).ne_nil
  | cons t ts => exact ⟨rfl, rfl⟩

theorem passes_advance {source : Text} (h : Token.Laid source c.tokens) (hend : ¬ c.here.isEnd) :
    c.Passes c.advance := ⟨[c.here], List.cons_ne_nil _ _, spans_advance h hend⟩

theorem passes_forward {source : Text} (h : Token.Laid source c.tokens) (hend : ¬ c.here.isEnd)
    (n : Nat) : c.Passes (c.forward (n + 1)) :=
  (passes_advance h hend).trans_reaches (reaches_forward n c.advance)

end Cursor

/-! ## The languages of runs -/

/-- A language with a word in it, so that what has been read so far can be completed. -/
class Viable (L : Language Event) : Prop where
  exists_mem : ∃ events, events ∈ L

namespace Viable

theorem of_mem {L : Language Event} {events : List Event} (h : events ∈ L) : Viable L := ⟨events, h⟩

instance : Viable 1 := of_mem Language.nil_mem_one

instance (event : Event) : Viable {[event]} := of_mem (Set.mem_singleton [event])

instance : Nonempty Span := ⟨⟨0, 0, 0⟩⟩

instance {ι : Type} [hι : Nonempty ι] (event : ι → Event) : Viable (single event) :=
  of_mem (mem_single event hι.some)

instance (L M : Language Event) [hL : Viable L] [hM : Viable M] : Viable (L * M) := by
  obtain ⟨events, h⟩ := hL.exists_mem
  obtain ⟨more, g⟩ := hM.exists_mem
  exact of_mem (Language.append_mem_mul h g)

instance (L M : Language Event) [hL : Viable L] : Viable (L + M) := by
  obtain ⟨events, h⟩ := hL.exists_mem
  exact of_mem (.inl h)

instance (L : Language Event) : Viable L∗ := of_mem (Language.nil_mem_kstar L)

variable {source : Text} {width : Option Nat}

instance : Viable insides := of_mem nil_mem_insides

instance : Viable (expressions source) :=
  of_mem ⟨_, _, .empty ⟨0, 0, 0⟩ ⟨0, 0, 0⟩ .nothing⟩

instance : Viable types := inferInstanceAs (Viable (single _))

instance : Viable parameterEvents := inferInstanceAs (Viable (types * single _))

instance : Viable (argumentLists source) := of_mem (Language.nil_mem_kstar _)

instance : Viable (declarators source) :=
  of_mem (bare_le_declarators (mem_single _ ⟨0, 0, 0⟩))

instance : Viable (parameterLists source) := of_mem ⟨_, _, .nothing⟩

instance : Viable (throwsClauses source) := of_mem nil_mem_throwsClauses

instance : Viable (items source width) := of_mem nil_mem_items

instance : Viable (blocks source width) := inferInstanceAs (Viable (_ * (_ * _)))

instance : Viable (statements source width) :=
  of_mem (blocks_le_statements (Viable.exists_mem (L := blocks source width)).choose_spec)

instance : Viable (branches source width) := of_mem nil_mem_branches

instance : Viable (otherwises source width) := of_mem nil_mem_otherwises

instance : Viable (constructorBodies source width) :=
  of_mem (blocks_le_constructorBodies (Viable.exists_mem (L := blocks source width)).choose_spec)

instance : Viable methodHeads := inferInstanceAs (Viable (single _))

instance : Viable constructorHeads := inferInstanceAs (Viable (single _))

instance (hasBody : Bool) : Viable (closings hasBody) := inferInstanceAs (Viable (single _))

end Viable

namespace Reading

variable {α β : Type}

/-- What a run of the reading from a cursor reports. -/
def ReportsAt (r : Reading α) (c : Cursor) (L : Language Event) : Prop :=
  match r c with
  | (events, .ok (_, d)) => events ∈ L ∧ c.Reaches d
  | (events, .error _) => ∃ more, events ++ more ∈ L

/-- What the reading reports from every position in the source. -/
def Reports (source : Text) (r : Reading α) (L : Language Event) : Prop :=
  ∀ c : Cursor, Token.Laid source c.tokens → r.ReportsAt c L

namespace ReportsAt

variable {r : Reading α} {f : α → Reading β} {c : Cursor} {L M : Language Event}

theorem mono (h : r.ReportsAt c L) (hle : L ≤ M) : r.ReportsAt c M := by
  unfold ReportsAt at h ⊢
  split at h
  · exact ⟨hle h.1, h.2⟩
  · obtain ⟨more, h⟩ := h
    exact ⟨more, hle h⟩

theorem of_ok {events : List Event} {a : α} {d : Cursor} (h : r c = (events, .ok (a, d)))
    (hmem : events ∈ L) (hreaches : c.Reaches d) : r.ReportsAt c L := by
  unfold ReportsAt
  rw [h]
  exact ⟨hmem, hreaches⟩

theorem of_error {events more : List Event} {e : SourceError} (h : r c = (events, .error e))
    (hmem : events ++ more ∈ L) : r.ReportsAt c L := by
  unfold ReportsAt
  rw [h]
  exact ⟨more, hmem⟩

/-- What a successful run has reported. -/
theorem mem_and_reaches {events : List Event} {a : α} {d : Cursor} (h : r.ReportsAt c L)
    (hrun : r c = (events, .ok (a, d))) : events ∈ L ∧ c.Reaches d := by
  unfold ReportsAt at h
  rw [hrun] at h
  exact h

/-- A run that goes on as another reading does from a cursor at or behind the first. -/
theorem of_start {s : Reading α} {d : Cursor} {first : List Event}
    (hr : r c = (first ++ (s d).1, (s d).2)) (hreaches : c.Reaches d) (h : s.ReportsAt d L)
    (hmem : ∀ events ∈ L, first ++ events ∈ M) : r.ReportsAt c M := by
  unfold ReportsAt at h
  cases hs : s d with
  | mk events result =>
      rw [hs] at h hr
      cases result with
      | error e =>
          obtain ⟨more, h⟩ := h
          exact of_error hr (by rw [List.append_assoc]; exact hmem _ h)
      | ok p => exact of_ok hr (hmem _ h.1) (hreaches.trans h.2)

theorem bind (h : r.ReportsAt c L)
    (hf : ∀ events a d, r c = (events, .ok (a, d)) → c.Reaches d → (f a).ReportsAt d M)
    [hM : Viable M] : (r >>= f).ReportsAt c (L * M) := by
  unfold ReportsAt at h
  cases hr : r c with
  | mk events result =>
      cases result with
      | error e =>
          rw [hr] at h
          obtain ⟨more, h⟩ := h
          obtain ⟨rest, g⟩ := hM.exists_mem
          have hwhole := Language.append_mem_mul h g
          rw [List.append_assoc] at hwhole
          exact of_error (bind_of_error f hr) hwhole
      | ok p =>
          obtain ⟨a, d⟩ := p
          rw [hr] at h
          obtain ⟨hmem, hreaches⟩ := h
          have hrest := hf events a d hr hreaches
          unfold ReportsAt at hrest
          cases hg : f a d with
          | mk more result =>
              have hbind : (r >>= f) c = (events ++ more, result) := by rw [bind_of_ok f hr, hg]
              rw [hg] at hrest
              cases result with
              | error e =>
                  obtain ⟨rest, hrest⟩ := hrest
                  have hwhole := Language.append_mem_mul hmem hrest
                  rw [← List.append_assoc] at hwhole
                  exact of_error hbind hwhole
              | ok q =>
                  exact of_ok hbind (Language.append_mem_mul hmem hrest.1)
                    (hreaches.trans hrest.2)

end ReportsAt

namespace Reports

variable {source : Text} {r : Reading α} {f : α → Reading β} {L M : Language Event}

theorem mono (h : r.Reports source L) (hle : L ≤ M) : r.Reports source M := fun c hc =>
  (h c hc).mono hle

theorem bind (h : r.Reports source L) (hf : ∀ a, (f a).Reports source M) [Viable M] :
    (r >>= f).Reports source (L * M) := fun c hc =>
  (h c hc).bind fun _ a d _ hreaches => hf a d (hreaches.laid hc)

/-- A reading that reports nothing in front of another one. -/
theorem silent (h : r.Reports source 1) (hf : ∀ a, (f a).Reports source M) [Viable M] :
    (r >>= f).Reports source M :=
  (h.bind hf).mono (one_mul M).le

/-- A reading in front of one that reports nothing. -/
theorem bind_silent (h : r.Reports source L) (hf : ∀ a, (f a).Reports source 1) :
    (r >>= f).Reports source L :=
  (h.bind hf).mono (mul_one L).le

theorem pure (a : α) : (Pure.pure a : Reading α).Reports source 1 := fun c _ =>
  ReportsAt.of_ok (a := a) (d := c) rfl Language.nil_mem_one (Cursor.Reaches.refl c)

theorem pure_of_nil_mem (a : α) (h : [] ∈ L) : (Pure.pure a : Reading α).Reports source L := fun c _ =>
  ReportsAt.of_ok (a := a) (d := c) rfl h (Cursor.Reaches.refl c)

theorem emit (e : Event) : (Reading.emit e).Reports source {[e]} := fun c _ =>
  ReportsAt.of_ok rfl (Set.mem_singleton [e]) (Cursor.Reaches.refl c)

theorem emit_single {ι : Type} (event : ι → Event) (i : ι) :
    (Reading.emit (event i)).Reports source (single event) := fun c _ =>
  ReportsAt.of_ok rfl (mem_single event i) (Cursor.Reaches.refl c)

theorem fail (fault : Fault) [hL : Viable L] : (Reading.fail fault : Reading α).Reports source L := by
  intro c _
  obtain ⟨events, h⟩ := hL.exists_mem
  exact ReportsAt.of_error rfl h

theorem cursor : Reading.cursor.Reports source 1 := fun c _ =>
  ReportsAt.of_ok rfl Language.nil_mem_one (Cursor.Reaches.refl c)

theorem here : Reading.here.Reports source 1 := fun c _ =>
  ReportsAt.of_ok rfl Language.nil_mem_one (Cursor.Reaches.refl c)

theorem before : Reading.before.Reports source 1 := fun c _ =>
  ReportsAt.of_ok rfl Language.nil_mem_one (Cursor.Reaches.refl c)

theorem forward (n : Nat) : (Reading.forward n).Reports source 1 := fun c _ =>
  ReportsAt.of_ok rfl Language.nil_mem_one (Cursor.reaches_forward n c)

theorem take : Reading.take.Reports source 1 := fun c _ =>
  ReportsAt.of_ok rfl Language.nil_mem_one (Cursor.reaches_advance c)

theorem refuse (expected : Expectation) [Viable L] :
    (Reading.refuse expected : Reading α).Reports source L :=
  here.silent fun _ => fail _

/-- Nothing is read behind a fault. -/
theorem fail_bind (fault : Fault) (f : α → Reading β) [hL : Viable L] :
    (Reading.fail fault >>= f).Reports source L := fun c hc => fail (α := β) fault c hc

theorem refuse_bind (expected : Expectation) (f : α → Reading β) [hL : Viable L] :
    (Reading.refuse expected >>= f).Reports source L := fun c hc =>
  refuse (α := β) expected c hc

theorem ite {p : Prop} [Decidable p] {s : Reading α} (hr : p → r.Reports source L)
    (hs : ¬ p → s.Reports source L) : (if p then r else s).Reports source L := by
  split
  · next h => exact hr h
  · next h => exact hs h

theorem reportComments : Reading.reportComments.Reports source (single Event.comment)∗ := by
  intro c _
  refine ReportsAt.of_ok rfl ?_ ⟨[], Cursor.spans_nil rfl rfl⟩
  rw [show (fun t : Token => Event.comment t.toSpan) = Event.comment ∘ Token.toSpan from rfl,
    ← List.map_map]
  exact map_mem_kstar Event.comment _

theorem expect (kind : Token.Kind) (symbol : String) :
    (Reading.expect kind symbol).Reports source 1 :=
  cursor.silent fun _ => ite (fun _ => take) fun _ => refuse _

theorem expectOperator (operator : String) :
    (Reading.expectOperator operator).Reports source 1 :=
  cursor.silent fun _ => ite (fun _ => take) fun _ => refuse _

theorem expectName : Reading.expectName.Reports source 1 :=
  here.silent fun _ => ite (fun _ => take) fun _ => refuse _

theorem comma : Reading.comma.Reports source 1 :=
  cursor.silent fun _ => ite (fun _ => take.silent fun _ => pure _) fun _ => pure _

/-- Every round reports the same language, and there is at least one round. -/
theorem loop {body : Reading Bool} (h : body.Reports source L) (budget : List Token) :
    (Reading.loop body budget).Reports source (L * L∗) := by
  induction budget with
  | nil => exact (h.bind_silent fun _ => pure ()).mono (le_mul_of_one_le_right' one_le_kstar)
  | cons t budget ih =>
      refine h.bind fun again => ite (fun _ => ?_) fun _ => ?_
      · exact ih.mono mul_kstar_le_kstar
      · exact pure_of_nil_mem () (Language.nil_mem_kstar L)

theorem repeatWhile {body : Reading Bool} (h : body.Reports source L) :
    (Reading.repeatWhile body).Reports source (L * L∗) := fun c hc => loop h c.ahead c hc

theorem repeatWhile_kstar {body : Reading Bool} (h : body.Reports source L) :
    (Reading.repeatWhile body).Reports source L∗ :=
  (repeatWhile h).mono mul_kstar_le_kstar

theorem repeatWhile_silent {body : Reading Bool} (h : body.Reports source 1) :
    (Reading.repeatWhile body).Reports source 1 :=
  (repeatWhile_kstar h).mono kstar_one.le

/-! ### Types and modifiers -/

theorem typeName : Reading.typeName.Reports source types := by
  refine cursor.silent fun c => ?_
  split
  · exact refuse _
  · next n _ =>
      exact here.silent fun first => (forward n).silent fun _ => before.silent fun last =>
        emit_single (fun t : Span × Span => Event.typeName t.1 t.2) (first.toSpan, last.toSpan)

theorem unreportedType : Reading.unreportedType.Reports source 1 := by
  refine cursor.silent fun c => ?_
  split
  · exact refuse _
  · exact forward _

theorem modifiers : Reading.modifiers.Reports source 1 :=
  cursor.silent fun _ => (forward _).silent fun _ => pure _

end Reports

end Reading

end CodeFrames
