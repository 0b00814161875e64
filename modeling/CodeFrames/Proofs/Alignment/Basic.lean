import CodeFrames.Proofs.Resemblance.Assembly
import CodeFrames.Proofs.Settling
import CodeFrames.Proofs.Shapes

/-!
# Two readings side by side

Two sources whose tokens belong together are read the same way: the readings report events that
resemble each other, and they come to corresponding tokens or meet the same fault.  The rules follow
how readings are put together, so that each production is compared where it is written.
-/

namespace CodeFrames

namespace Token

/-- The tokens do not end in a number with a dot behind it. -/
def EndsWell (ps : List Token) : Prop :=
  ∀ qs n d, ps = qs ++ [n, d] → n.kind = .number → d.kind ≠ .dot

theorem EndsPlain.endsWell {ps : List Token} (h : EndsPlain ps) : EndsWell ps := by
  obtain ⟨last, hlast, hkind⟩ := h
  rintro qs n d rfl -
  obtain rfl : d = last := by simpa using hlast
  exact hkind

theorem spansOf_cons {n : Nat} (lengths : List Nat) (t : Token) (ts : List Token) :
    spansOf ((n + 1) :: lengths) (t :: ts) =
      t.through ((ts.take n).getLastD t) :: spansOf lengths (ts.drop n) := rfl

/-- Tokens that the end of input is not among have others behind them. -/
theorem Laid.lt_length {source : Text} {ts : List Token} {n : Nat} (h : Laid source ts)
    (hn : ∀ t ∈ ts.take n, ¬ t.isEnd) : n < ts.length := by
  obtain ⟨inside, last, rfl, hlast, -⟩ := h.ended
  by_contra hle
  rw [List.take_of_length_le (by omega)] at hn
  exact hn last (by simp) hlast

/-! ## Modifiers -/

theorem dottedWordsLength_bare (ts : List Token) :
    dottedWordsLength (ts.map bare) = dottedWordsLength ts := by
  fun_induction dottedWordsLength ts with
  | case1 => rfl
  | case2 t hword dot ts hdot ih => simp [dottedWordsLength, hword, hdot, ih]
  | case3 t hword dot ts hdot => simp [dottedWordsLength, hword, hdot]
  | case4 t hword => simp [dottedWordsLength, hword]
  | case5 t ts hword =>
      rw [List.map_cons]
      unfold dottedWordsLength
      simp [hword]

theorem annotationRestLength_bare (ts : List Token) :
    annotationRestLength (ts.map bare) = annotationRestLength ts := by
  rw [annotationRestLength, annotationRestLength, dottedWordsLength_bare, ← List.map_drop]
  cases ts.drop (dottedWordsLength ts) with
  | nil => rfl
  | cons u us =>
      have hgroup := groupLength?_bare (u :: us)
      rw [List.map_cons] at hgroup ⊢
      simp only [bare_kind, hgroup]

theorem modifierLength_bare (ts : List Token) : modifierLength (ts.map bare) = modifierLength ts := by
  cases ts with
  | nil => rfl
  | cons t ts =>
      rw [List.map_cons, modifierLength, modifierLength, annotationRestLength_bare]
      cases ts <;> rfl

theorem modifierLengthsFrom_bare (skip : Nat) (ts : List Token) :
    modifierLengthsFrom skip (ts.map bare) = modifierLengthsFrom skip ts := by
  induction ts generalizing skip with
  | nil => cases skip <;> rfl
  | cons t ts ih =>
      cases skip with
      | succ skip => exact ih skip
      | zero =>
          have hfirst := modifierLength_bare (t :: ts)
          rw [List.map_cons] at hfirst ⊢
          rw [modifierLengthsFrom, modifierLengthsFrom, hfirst]
          simp only [ih]

theorem modifierLengths_bare (ts : List Token) : modifierLengths (ts.map bare) = modifierLengths ts :=
  modifierLengthsFrom_bare 0 ts

theorem modifierLengthsFrom_eq (skip : Nat) (ts : List Token) :
    modifierLengthsFrom skip ts = modifierLengths (ts.drop skip) := by
  induction ts generalizing skip with
  | nil => cases skip <;> rfl
  | cons t ts ih =>
      cases skip with
      | zero => rfl
      | succ skip => exact ih skip

theorem word_or_dot_of_dottedWords (ts : List Token) :
    ∀ t ∈ ts.take (dottedWordsLength ts), t.kind = .word ∨ t.kind = .dot := by
  fun_induction dottedWordsLength ts with
  | case1 => simp
  | case2 t hword dot ts hdot ih =>
      simp only [List.take_succ_cons, List.mem_cons, forall_eq_or_imp]
      exact ⟨.inl (by simpa [isAnyWord] using hword), .inr hdot, ih⟩
  | case3 t hword dot ts hdot => simp [show t.kind = .word by simpa [isAnyWord] using hword]
  | case4 t hword => simp [show t.kind = .word by simpa [isAnyWord] using hword]
  | case5 => simp

theorem endsWell_of_kinds {t : Token} {ps : List Token} (ht : t.kind ≠ .number)
    (hps : ∀ p ∈ ps, p.kind = .word ∨ p.kind = .dot) : EndsWell (t :: ps) := by
  intro qs n d heq hnumber
  have hmem : n ∈ t :: ps := heq ▸ by simp
  rcases List.mem_cons.mp hmem with rfl | hmem
  · exact absurd hnumber ht
  · have := hps n hmem
    simp [hnumber] at this

theorem endsWell_modifier (t : Token) {ts : List Token} {n : Nat}
    (h : modifierLength (t :: ts) = n + 1) : EndsWell (t :: ts.take n) := by
  have hsingle : EndsWell [t] := fun qs n d heq => by
    have := congrArg List.length heq
    simp at this
  rw [modifierLength] at h
  split at h
  · obtain rfl : n = 0 := by split at h <;> omega
    simpa using hsingle
  · split at h
    · next hat =>
        have hat : t.kind = .atSign := by
          simp only [Bool.and_eq_true, decide_eq_true_eq] at hat
          exact hat.1
        have hwords : EndsWell (t :: ts.take (dottedWordsLength ts)) :=
          endsWell_of_kinds (by simp [hat]) (word_or_dot_of_dottedWords ts)
        obtain rfl : annotationRestLength ts = n := by omega
        rw [annotationRestLength]
        split
        · exact hwords
        · next u us hdrop =>
            split
            · cases hgroup : groupLength? (u :: us) with
              | none => simpa using hwords
              | some m =>
                  rw [Option.getD_some, List.take_add, hdrop]
                  exact (((endsPlain_groupFrom hgroup).behind _).cons t).endsWell
            · exact hwords
    · cases h

end Token

/-- A relation between the tokens ahead in one source and those ahead in another. -/
structure Pairing (C : Comparison) where
  Paired : List Token → List Token → Prop
  bare {ts ts' : List Token} : Paired ts ts' → ts.map Token.bare = ts'.map Token.bare
  tail {t u t' u' : Token} {ts ts' : List Token} :
    Paired (t :: u :: ts) (t' :: u' :: ts') → Paired (u :: ts) (u' :: ts')
  line {t t' : Token} {ts ts' : List Token} : Paired (t :: ts) (t' :: ts') → C.line t.line t'.line
  text {t t' : Token} {ts ts' : List Token} : Paired (t :: ts) (t' :: ts') →
    t.toSpan.textIn C.source = t'.toSpan.textIn C.source'
  start {t t' : Token} {ts ts' : List Token} :
    Paired (t :: ts) (t' :: ts') → C.start t.start t'.start
  /-- Where an expression may end behind `t`. -/
  stop {t u t' u' : Token} {ts ts' : List Token} : Paired (t :: u :: ts) (t' :: u' :: ts') →
    (t.kind = .dot → Reading.endsLambdaBody u = true) → C.stop t.stop t'.stop
  /-- Types and modifiers of `n + 1` tokens. -/
  slice {t t' : Token} {ts ts' : List Token} {n : Nat} : Paired (t :: ts) (t' :: ts') →
    n < ts.length → Token.EndsWell (t :: ts.take n) →
    C.Modifier ((t.through ((ts.take n).getLastD t)).textIn C.source)
      ((t'.through ((ts'.take n).getLastD t')).textIn C.source')
  documentation (d d' : Option Text) : C.documentation d d'

/-- Cursors at corresponding tokens. -/
structure Pairing.Aligned {C : Comparison} (K : Pairing C) (c c' : Cursor) : Prop where
  paired : K.Paired c.tokens c'.tokens
  sited : c.Sited C.source
  sited' : c'.Sited C.source'

namespace Pairing

variable {C : Comparison} {K : Pairing C} {c c' d d' : Cursor}

theorem drop {ts ts' : List Token} {n : Nat} (h : K.Paired ts ts') (hn : n < ts.length) :
    K.Paired (ts.drop n) (ts'.drop n) := by
  induction n generalizing ts ts' with
  | zero => exact h
  | succ n ih =>
      have hlength := congrArg List.length (K.bare h)
      simp only [List.length_map] at hlength
      match ts, ts', h with
      | t :: u :: ts, t' :: u' :: ts', h => exact ih (K.tail h) (by simpa using hn)
      | [t], _, _ => simp at hn
      | [], _, _ => simp at hn
      | _ :: _ :: _, [], _ => simp at hlength
      | _ :: _ :: _, [_], _ => simp at hlength

namespace Aligned

variable {α : Type}

/-- What is told by looking ahead is the same. -/
theorem same {f : List Token → α} (h : K.Aligned c c') (hf : ∀ ts, f (ts.map Token.bare) = f ts) :
    f c.tokens = f c'.tokens := by rw [← hf, K.bare h.paired, hf]

theorem bare_here (h : K.Aligned c c') : c.here.bare = c'.here.bare :=
  (List.cons.inj (K.bare h.paired)).1

theorem kind_here (h : K.Aligned c c') : c.here.kind = c'.here.kind :=
  by simpa using congrArg Token.kind h.bare_here

theorem text_here (h : K.Aligned c c') : c.here.text = c'.here.text :=
  by simpa using congrArg Token.text h.bare_here

/-- So is what is told by the token at the cursor. -/
theorem same_here {f : Token → α} (h : K.Aligned c c') (hf : ∀ t, f t.bare = f t) :
    f c.here = f c'.here := by rw [← hf, h.bare_here, hf]

theorem isAt (h : K.Aligned c c') (kind : Token.Kind) : c.isAt kind = c'.isAt kind := by
  rw [Cursor.isAt, Cursor.isAt, h.kind_here]

theorem isAtWord (h : K.Aligned c c') (word : String) : c.isAtWord word = c'.isAtWord word :=
  h.same_here (f := (·.isWord word.toList)) fun _ => rfl

theorem isAtOperator (h : K.Aligned c c') (operator : String) :
    c.isAtOperator operator = c'.isAtOperator operator :=
  h.same_here (f := (·.isOperator operator.toList)) fun _ => rfl

theorem nextIs (h : K.Aligned c c') {p : Token → Bool} (hp : ∀ t, p t.bare = p t) :
    c.nextIs p = c'.nextIs p := by
  have hahead (c : Cursor) : c.nextIs p = c.tokens.tail.head?.any p := rfl
  rw [hahead, hahead]
  refine h.same (f := fun ts => ts.tail.head?.any p) fun ts => ?_
  rcases ts with _ | ⟨t, _ | ⟨u, ts⟩⟩
  · rfl
  · rfl
  · exact hp u

theorem length_ahead (h : K.Aligned c c') : c.ahead.length = c'.ahead.length := by
  simpa [Cursor.tokens] using congrArg List.length (K.bare h.paired)

theorem advance (h : K.Aligned c c') : K.Aligned c.advance c'.advance := by
  refine ⟨?_, h.sited.advance, h.sited'.advance⟩
  have hlength := h.length_ahead
  obtain ⟨before, here, ahead, comments⟩ := c
  obtain ⟨before', here', ahead', comments'⟩ := c'
  match ahead, ahead', hlength with
  | [], [], _ => exact h.paired
  | t :: ts, t' :: ts', _ => exact K.tail h.paired
  | [], _ :: _, hlength => cases hlength
  | _ :: _, [], hlength => cases hlength

theorem forward (h : K.Aligned c c') (n : Nat) : K.Aligned (c.forward n) (c'.forward n) := by
  induction n generalizing c c' with
  | zero => exact h
  | succ n ih => exact ih h.advance

/-- Pending comments play no role. -/
theorem of_tokens (h : K.Aligned c c') (comments comments' : List Token) :
    K.Aligned { c with comments := comments } { c' with comments := comments' } :=
  ⟨h.paired, ⟨h.sited.laid, h.sited.behind⟩, ⟨h.sited'.laid, h.sited'.behind⟩⟩

theorem line (h : K.Aligned c c') : C.line c.here.line c'.here.line := K.line h.paired

theorem textIn (h : K.Aligned c c') :
    c.here.toSpan.textIn C.source = c'.here.toSpan.textIn C.source' := K.text h.paired

/-- Tokens that are stepped over in one go have texts that may take each other's place. -/
theorem modifier_forward {n : Nat} (h : K.Aligned c c')
    (hend : ∀ t ∈ c.tokens.take (n + 1), ¬ t.isEnd) (hend' : ∀ t ∈ c'.tokens.take (n + 1), ¬ t.isEnd)
    (hends : Token.EndsWell (c.tokens.take (n + 1))) :
    C.Modifier ((c.here.through (c.forward (n + 1)).before).textIn C.source)
      ((c'.here.through (c'.forward (n + 1)).before).textIn C.source') := by
  rw [Cursor.before_forward h.sited.laid hend, Cursor.before_forward h.sited'.laid hend']
  have hlength := h.sited.laid.lt_length hend
  simp only [Cursor.tokens, List.take_succ_cons, List.getLastD_cons]
  exact K.slice h.paired (by simpa [Cursor.tokens] using hlength) hends

end Aligned

end Pairing

/-! ## Outcomes -/

/-- The readings have reported events that resemble each other, and both have come to corresponding
tokens with related answers or both have met the same fault. -/
inductive Mirror {C : Comparison} (K : Pairing C) {α β : Type} (A : α → β → Prop) :
    List Event × Except SourceError (α × Cursor) → List Event × Except SourceError (β × Cursor) →
      Prop
  | ok {events events' : List Event} {a : α} {b : β} {d d' : Cursor} :
      EventsResemble C events events' → A a b → K.Aligned d d' →
      Mirror K A (events, .ok (a, d)) (events', .ok (b, d'))
  | error {events events' : List Event} {e e' : SourceError} :
      EventsResemble C events events' → e.fault = e'.fault →
      Mirror K A (events, .error e) (events', .error e')

theorem EventsResemble.append {C : Comparison} {events events' more more' : List Event}
    (h : EventsResemble C events events') (g : EventsResemble C more more') :
    EventsResemble C (events ++ more) (events' ++ more') := by
  induction h with
  | nil => exact g
  | cons he _ ih => exact .cons he ih
  | commentLeft whole hany _ ih => exact .commentLeft whole hany ih
  | commentRight whole hany _ ih => exact .commentRight whole hany ih

/-- Events that were reported before. -/
theorem Mirror.behind {C : Comparison} {K : Pairing C} {α β : Type} {A : α → β → Prop}
    {x : List Event × Except SourceError (α × Cursor)}
    {y : List Event × Except SourceError (β × Cursor)} (h : Mirror K A x y)
    {events events' : List Event} (hevents : EventsResemble C events events') :
    Mirror K A (events ++ x.1, x.2) (events' ++ y.1, y.2) := by
  cases h with
  | ok hmore hab hd => exact .ok (hevents.append hmore) hab hd
  | error hmore hfault => exact .error (hevents.append hmore) hfault

namespace Reading

variable {C : Comparison} {K : Pairing C} {α β γ δ : Type} {A : α → β → Prop} {B : γ → δ → Prop}
  {c c' d d' : Cursor}

/-- Two readings from two cursors go the same way. -/
def MirrorsAt (K : Pairing C) (A : α → β → Prop) (r : Reading α) (s : Reading β)
    (c c' : Cursor) : Prop := Mirror K A (r c) (s c')

/-- Two readings go the same way from all corresponding cursors. -/
def Mirrors (K : Pairing C) (A : α → β → Prop) (r : Reading α) (s : Reading β) : Prop :=
  ∀ c c', K.Aligned c c' → MirrorsAt K A r s c c'

/-- A reading goes the same way in both sources. -/
abbrev MirrorsSelf (K : Pairing C) (r : Reading α) : Prop := r.Mirrors K Eq r

namespace MirrorsAt

variable {r : Reading α} {s : Reading β} {f : α → Reading γ} {g : β → Reading δ}

theorem pure {a : α} {b : β} (hab : A a b) (h : K.Aligned c c') :
    MirrorsAt K A (Pure.pure a : Reading α) (Pure.pure b) c c' := .ok .nil hab h

theorem fail (fault : Fault) :
    MirrorsAt K A (Reading.fail fault : Reading α) (Reading.fail fault : Reading β) c c' :=
  .error .nil rfl

theorem refuse (h : K.Aligned c c') (expected : Expectation) :
    MirrorsAt K A (Reading.refuse expected : Reading α) (Reading.refuse expected : Reading β) c c' := by
  refine .error .nil ?_
  rw [h.same_here (f := Token.found) fun _ => rfl]

theorem bind (h : MirrorsAt K A r s c c')
    (hfg : ∀ a b d d', A a b → K.Aligned d d' → MirrorsAt K B (f a) (g b) d d') :
    MirrorsAt K B (r >>= f) (s >>= g) c c' := by
  unfold MirrorsAt at h ⊢
  generalize hr : r c = x, hs : s c' = y at h
  cases h with
  | @ok events events' a b d d' hevents hab hd =>
      rw [bind_of_ok f hr, bind_of_ok g hs]
      exact (hfg a b d d' hab hd).behind hevents
  | error hevents hfault =>
      rw [bind_of_error f hr, bind_of_error g hs]
      exact .error hevents hfault

/-- What is read behind a reading that gives the same answers. -/
theorem bind_eq {r s : Reading α} {f : α → Reading γ} {g : α → Reading δ}
    (h : MirrorsAt K Eq r s c c')
    (hfg : ∀ a d d', K.Aligned d d' → MirrorsAt K B (f a) (g a) d d') :
    MirrorsAt K B (r >>= f) (s >>= g) c c' :=
  h.bind fun a b d d' hab hd => by
    subst hab
    exact hfg a d d' hd

theorem here_bind {f : Token → Reading γ} {g : Token → Reading δ}
    (h : MirrorsAt K B (f c.here) (g c'.here) c c') :
    MirrorsAt K B (here >>= f) (here >>= g) c c' := h

theorem cursor_bind {f : Cursor → Reading γ} {g : Cursor → Reading δ}
    (h : MirrorsAt K B (f c) (g c') c c') : MirrorsAt K B (cursor >>= f) (cursor >>= g) c c' := h

theorem before_bind {f : Token → Reading γ} {g : Token → Reading δ}
    (h : MirrorsAt K B (f c.before) (g c'.before) c c') :
    MirrorsAt K B (before >>= f) (before >>= g) c c' := h

theorem take_bind {f : Token → Reading γ} {g : Token → Reading δ}
    (h : MirrorsAt K B (f c.here) (g c'.here) c.advance c'.advance) :
    MirrorsAt K B (take >>= f) (take >>= g) c c' := h

theorem forward_bind {n : Nat} {f : Unit → Reading γ} {g : Unit → Reading δ}
    (h : MirrorsAt K B (f ()) (g ()) (c.forward n) (c'.forward n)) :
    MirrorsAt K B (forward n >>= f) (forward n >>= g) c c' := h

theorem emit (h : K.Aligned c c') {e e' : Event} (he : e.Resembles C e') :
    MirrorsAt K Eq (Reading.emit e) (Reading.emit e') c c' := .ok (.cons he .nil) rfl h

theorem emit_bind {e e' : Event} {f : Unit → Reading γ} {g : Unit → Reading δ}
    (he : e.Resembles C e') (h : MirrorsAt K B (f ()) (g ()) c c') :
    MirrorsAt K B (Reading.emit e >>= f) (Reading.emit e' >>= g) c c' :=
  Mirror.behind h (.cons he .nil)

theorem ite {p q : Prop} [Decidable p] [Decidable q] (hpq : p ↔ q) {r' : Reading α}
    {s' : Reading β} (h : p → MirrorsAt K A r s c c') (h' : ¬ p → MirrorsAt K A r' s' c c') :
    MirrorsAt K A (if p then r else r') (if q then s else s') c c' := by
  by_cases hp : p
  · rw [if_pos hp, if_pos (hpq.mp hp)]
    exact h hp
  · rw [if_neg hp, if_neg (hpq.not.mp hp)]
    exact h' hp

/-- A choice by a test that comes out the same. -/
theorem cond {p q : Bool} (hpq : p = q) {r' : Reading α} {s' : Reading β}
    (h : p = true → MirrorsAt K A r s c c') (h' : ¬ p = true → MirrorsAt K A r' s' c c') :
    MirrorsAt K A (if p = true then r else r') (if q = true then s else s') c c' :=
  ite (by rw [hpq]) h h'

end MirrorsAt

/-! ## Tokens, loops and comments -/

namespace MirrorsAt

/-- A token that has to be there. -/
theorem expected_bind (h : K.Aligned c c') {p q : Bool} (hpq : p = q) (expected : Expectation)
    {f : Token → Reading γ} {g : Token → Reading δ}
    (hfg : K.Aligned c.advance c'.advance →
      MirrorsAt K B (f c.here) (g c'.here) c.advance c'.advance) :
    MirrorsAt K B ((if p = true then take else Reading.refuse expected) >>= f)
      ((if q = true then take else Reading.refuse expected) >>= g) c c' := by
  rw [← hpq]
  split
  · exact .take_bind (hfg h.advance)
  · exact .error .nil (by rw [h.same_here (f := Token.found) fun _ => rfl])

theorem expect_bind (h : K.Aligned c c') {kind : Token.Kind} {symbol : String}
    {f : Token → Reading γ} {g : Token → Reading δ}
    (hfg : K.Aligned c.advance c'.advance →
      MirrorsAt K B (f c.here) (g c'.here) c.advance c'.advance) :
    MirrorsAt K B (expect kind symbol >>= f) (expect kind symbol >>= g) c c' := by
  rw [expect, bind_assoc, bind_assoc]
  exact expected_bind h (h.isAt kind) _ hfg

theorem expectName_bind (h : K.Aligned c c') {f : Token → Reading γ} {g : Token → Reading δ}
    (hfg : K.Aligned c.advance c'.advance →
      MirrorsAt K B (f c.here) (g c'.here) c.advance c'.advance) :
    MirrorsAt K B (expectName >>= f) (expectName >>= g) c c' := by
  rw [expectName, bind_assoc, bind_assoc]
  exact expected_bind h (h.same_here (f := Token.isName) fun _ => rfl) _ hfg

theorem expectOperator_bind (h : K.Aligned c c') {operator : String}
    {f : Token → Reading γ} {g : Token → Reading δ}
    (hfg : K.Aligned c.advance c'.advance →
      MirrorsAt K B (f c.here) (g c'.here) c.advance c'.advance) :
    MirrorsAt K B (expectOperator operator >>= f) (expectOperator operator >>= g) c c' := by
  rw [expectOperator, bind_assoc, bind_assoc]
  exact expected_bind h (h.isAtOperator operator) _ hfg

end MirrorsAt

namespace Mirrors

variable {r : Reading α} {s : Reading β} {f : α → Reading γ} {g : β → Reading δ}

theorem bind (h : r.Mirrors K A s) (hfg : ∀ a b, A a b → (f a).Mirrors K B (g b)) :
    (r >>= f).Mirrors K B (s >>= g) :=
  fun c c' hc => (h c c' hc).bind fun a b d d' hab hd => hfg a b hab d d' hd

theorem bind_eq {r s : Reading α} {f : α → Reading γ} {g : α → Reading δ} (h : r.Mirrors K Eq s)
    (hfg : ∀ a, (f a).Mirrors K B (g a)) : (r >>= f).Mirrors K B (s >>= g) :=
  fun c c' hc => (h c c' hc).bind_eq fun a d d' hd => hfg a d d' hd

theorem pure (a : α) : (Pure.pure a : Reading α).Mirrors K Eq (Pure.pure a) :=
  fun _ _ hc => .pure rfl hc

theorem comma : Reading.comma.MirrorsSelf K := fun _ _ hc =>
  .cursor_bind (.cond (hc.isAt .comma) (fun _ => .take_bind (.pure rfl hc.advance))
    fun _ => .pure rfl hc)

theorem loop {body body' : Reading Bool} (h : body.Mirrors K Eq body') {budget budget' : List Token}
    (hlength : budget.length = budget'.length) :
    (Reading.loop body budget).Mirrors K Eq (Reading.loop body' budget') := by
  induction budget generalizing budget' with
  | nil =>
      obtain rfl := List.eq_nil_of_length_eq_zero hlength.symm
      exact h.bind_eq fun _ => pure ()
  | cons t budget ih =>
      cases budget' with
      | nil => cases hlength
      | cons t' budget' =>
          refine h.bind_eq fun again c c' hc => .cond rfl (fun _ => ?_) fun _ => .pure rfl hc
          exact ih (by simpa using hlength) c c' hc

theorem rounds {body body' : Reading Bool} (h : body.Mirrors K Eq body') :
    (repeatWhile body).Mirrors K Eq (repeatWhile body') :=
  fun c c' hc => loop h hc.length_ahead c c' hc

/-- The comments before corresponding tokens may differ. -/
theorem reportComments : Reading.reportComments.MirrorsSelf K := by
  have hcomments (spans spans' : List Span) :
      EventsResemble C (spans.map .comment) (spans'.map .comment) := by
    induction spans with
    | nil =>
        induction spans' with
        | nil => exact .nil
        | cons s' spans' ih => exact .commentRight s' K.documentation ih
    | cons s spans ih => exact .commentLeft s K.documentation ih
  intro c c' hc
  have hevents := hcomments (c.due.map Token.toSpan) (c'.due.map Token.toSpan)
  rw [List.map_map, List.map_map] at hevents
  exact .ok hevents rfl (hc.of_tokens _ _)

/-! ## Types and modifiers -/

theorem typeName : Reading.typeName.MirrorsSelf K := by
  intro c c' hc
  refine .cursor_bind ?_
  have hsame := hc.same Token.typeLength?_bare
  rw [← hsame]
  cases htype : Token.typeLength? c.tokens with
  | none => exact .refuse hc _
  | some n =>
      have hpos := typeLength?_pos htype
      obtain ⟨n, rfl⟩ : ∃ m, n = m + 1 := ⟨n - 1, by omega⟩
      have hmodifier := hc.modifier_forward (fun t ht => Token.not_isEnd_of_typeKinds
        (Token.typeKinds_of_type htype t ht)) (fun t ht => Token.not_isEnd_of_typeKinds
        (Token.typeKinds_of_type (hsame ▸ htype) t ht)) (Token.endsPlain_type htype).endsWell
      exact .here_bind (.forward_bind (.before_bind (.emit (hc.forward _)
        (.typeName hmodifier.text))))

theorem unreportedType : Reading.unreportedType.MirrorsSelf K := by
  intro c c' hc
  refine .cursor_bind ?_
  rw [← hc.same Token.typeLength?_bare]
  cases htype : Token.typeLength? c.tokens with
  | none => exact .refuse hc _
  | some n => exact .ok .nil rfl (hc.forward n)

theorem spansOf_modifiers {ts ts' : List Token} (h : K.Paired ts ts')
    (hts : Token.Laid C.source ts) :
    List.Forall₂ C.Modifier
      ((Token.spansOf (Token.modifierLengths ts) ts).map (Span.textIn C.source))
      ((Token.spansOf (Token.modifierLengths ts) ts').map (Span.textIn C.source')) := by
  induction hn : ts.length using Nat.strong_induction_on generalizing ts ts' with
  | _ n ih =>
      subst hn
      have hlength := congrArg List.length (K.bare h)
      match ts, ts' with
      | [], [] => exact .nil
      | [], _ :: _ => cases hlength
      | _ :: _, [] => cases hlength
      | t :: ts, t' :: ts' =>
          rw [Token.modifierLengths, Token.modifierLengthsFrom]
          cases hfirst : Token.modifierLength (t :: ts) with
          | zero => exact .nil
          | succ n =>
              have hend := Token.not_isEnd_of_modifier (t :: ts)
              rw [hfirst] at hend
              have hlt := hts.lt_length hend
              rw [List.length_cons, Nat.add_lt_add_iff_right] at hlt
              simp only [Token.modifierLengthsFrom_eq, Token.spansOf_cons]
              refine .cons (K.slice h hlt (Token.endsWell_modifier t hfirst)) ?_
              have hdrop : ts.drop n ≠ [] := by simpa using hlt
              refine ih _ ?_ (K.drop (n := n + 1) h (by simpa using hlt)) ?_ rfl
              · rw [List.length_drop, List.length_cons]
                omega
              · refine @Token.Laid.drop C.source _ (t :: ts.take n) ?_ hdrop
                rwa [List.cons_append, List.take_append_drop]

theorem modifiers : Reading.modifiers.Mirrors K (fun spans spans' => List.Forall₂ C.Modifier
      (spans.map (Span.textIn C.source)) (spans'.map (Span.textIn C.source')))
    Reading.modifiers := by
  intro c c' hc
  have hlengths := hc.same Token.modifierLengths_bare
  change Mirror K _
    ([], .ok (Token.spansOf (Token.modifierLengths c.tokens) c.tokens, c.forward c.modifierCount))
    ([], .ok (Token.spansOf (Token.modifierLengths c'.tokens) c'.tokens, c'.forward c'.modifierCount))
  rw [Cursor.modifierCount, Cursor.modifierCount, ← hlengths]
  exact .ok .nil (spansOf_modifiers hc.paired hc.sited.laid) (hc.forward _)

end Mirrors

end Reading

end CodeFrames
