import CodeFrames.Proofs.Brackets.Expression

/-!
# How expressions end

The last token of an expression is not a dot, unless the expression ends in the body of a lambda, and
then what ends such a body stands behind it.
-/

namespace CodeFrames

namespace Token

/-! ## The last tokens of types and groups -/

/-- The tokens end in one that is not a dot. -/
def EndsPlain (ts : List Token) : Prop := ∃ last, ts.getLast? = some last ∧ last.kind ≠ .dot

namespace EndsPlain

variable {t : Token} {ts us : List Token}

theorem single (h : t.kind ≠ .dot) : EndsPlain [t] := ⟨t, rfl, h⟩

theorem behind (h : EndsPlain us) (ts : List Token) : EndsPlain (ts ++ us) := by
  obtain ⟨last, hlast, hkind⟩ := h
  exact ⟨last, by rw [List.getLast?_append, hlast, Option.some_or], hkind⟩

theorem cons (h : EndsPlain us) (t : Token) : EndsPlain (t :: us) := h.behind [t]

theorem tail {u : Token} (h : EndsPlain (t :: u :: us)) : EndsPlain (u :: us) := by
  obtain ⟨last, hlast, hkind⟩ := h
  exact ⟨last, by rwa [List.getLast?_cons_cons] at hlast, hkind⟩

end EndsPlain

theorem endsPlain_typeArgumentsFrom {depth : Int} {ts : List Token} {n : Nat}
    (h : typeArgumentsLengthFrom? depth ts = some n) (hdepth : 0 < depth) :
    EndsPlain (ts.take n) := by
  induction ts generalizing depth n with
  | nil => cases h
  | cons t ts ih =>
      rw [typeArgumentsLengthFrom?] at h
      split at h
      · cases h
      · next change hchange =>
          simp only at h
          split at h
          · next hzero =>
              obtain rfl : 1 = n := by simpa using h
              refine .single fun hdot => ?_
              obtain rfl : 0 = change := by simpa [typeArgumentChange?, hdot] using hchange
              omega
          · split at h
            · cases h
            · obtain ⟨m, hm, rfl⟩ := Option.map_eq_some_iff.mp h
              exact (ih hm (by omega)).cons t

theorem endsPlain_typeArguments {t : Token} {ts : List Token} {n : Nat} (ht : t.isOperator ['<'] = true)
    (h : typeArgumentsLength? (t :: ts) = some n) : EndsPlain ((t :: ts).take n) := by
  simp only [isOperator, Bool.and_eq_true, decide_eq_true_eq] at ht
  rw [typeArgumentsLength?, typeArgumentsLengthFrom?] at h
  simp only [typeArgumentChange?, ht] at h
  obtain ⟨m, hm, rfl⟩ := Option.map_eq_some_iff.mp h
  exact (endsPlain_typeArgumentsFrom hm (by decide)).cons t

/-- A type goes on plainly behind a token `p`. -/
theorem endsPlain_qualified {skip n : Nat} {p : Token} {ts : List Token}
    (h : qualifiedLength? skip ts = some n) (hskip : EndsPlain (p :: ts.take skip)) :
    EndsPlain (p :: ts.take n) := by
  induction ts generalizing skip n p with
  | nil => simpa using hskip
  | cons t ts ih =>
      cases skip with
      | succ skip =>
          obtain ⟨m, hm, rfl⟩ := Option.map_eq_some_iff.mp h
          exact (ih hm hskip.tail).cons p
      | zero =>
          rw [qualifiedLength?] at h
          obtain ⟨m, hm, h⟩ := Option.bind_eq_some_iff.mp h
          split at h
          · next hmore =>
              obtain ⟨k, hk, rfl⟩ := Option.map_eq_some_iff.mp h
              obtain ⟨dot, name, rest, hdrop, -, hname⟩ := exists_of_continuesQualified hmore
              have hfirst : EndsPlain ((t :: ts).take (m + 2)) := by
                rw [List.take_add, hdrop]
                refine EndsPlain.behind (.cons (.single ?_) dot) _
                simp [kind_of_isName hname]
              exact (ih hk hfirst).cons p
          · obtain rfl : m = n := by simpa using h
            rw [optionalArgumentsLength?] at hm
            split at hm
            · exact (endsPlain_typeArguments ‹_› hm).cons p
            · obtain rfl : 0 = m := by simpa using hm
              exact hskip

theorem endsPlain_typeName {ts : List Token} {n : Nat} (h : typeNameLength? ts = some n) :
    EndsPlain (ts.take n) := by
  cases ts with
  | nil => cases h
  | cons t ts =>
      rw [typeNameLength?] at h
      split at h
      · next hopens =>
          obtain ⟨k, hk, rfl⟩ := Option.map_eq_some_iff.mp h
          exact endsPlain_qualified hk (.single (by simp [kind_of_opensType hopens]))
      · cases h

theorem endsPlain_dimensions (ts : List Token) :
    dimensionsLength ts = 0 ∨ EndsPlain (ts.take (dimensionsLength ts)) := by
  fun_induction dimensionsLength ts with
  | case1 l r ts h ih =>
      simp only [Bool.and_eq_true, decide_eq_true_eq] at h
      refine .inr ?_
      rcases ih with hnone | hends
      · rw [hnone]
        exact (EndsPlain.single (by simp [h.2])).cons l
      · exact (hends.cons r).cons l
  | case2 => exact .inl rfl
  | case3 => exact .inl rfl

theorem endsPlain_type {ts : List Token} {n : Nat} (h : typeLength? ts = some n) :
    EndsPlain (ts.take n) := by
  obtain ⟨m, hm, rfl⟩ := Option.map_eq_some_iff.mp h
  rcases endsPlain_dimensions (ts.drop m) with hnone | hends
  · rw [hnone]
    exact endsPlain_typeName hm
  · rw [List.take_add]
    exact hends.behind _

theorem endsPlain_groupFrom {depth n : Nat} {ts : List Token} (h : groupLengthFrom? depth ts = some n) :
    EndsPlain (ts.take n) := by
  induction ts generalizing depth n with
  | nil => cases h
  | cons t ts ih =>
      have hnext {depth n : Nat} (h : (groupLengthFrom? depth ts).map (· + 1) = some n) :
          EndsPlain ((t :: ts).take n) := by
        obtain ⟨m, hm, rfl⟩ := Option.map_eq_some_iff.mp h
        exact (ih hm).cons t
      rw [groupLengthFrom?.eq_def] at h
      simp only at h
      split at h
      · exact hnext h
      · split at h
        · next hcloser =>
            split at h
            · cases h
            · obtain rfl : 1 = n := by simpa using h
              refine .single fun hdot => ?_
              rw [hdot] at hcloser
              cases hcloser
            · exact hnext h
        · split at h
          · cases h
          · exact hnext h

end Token

theorem Cursor.before_forward {source : Text} {c : Cursor} {n : Nat}
    (hc : Token.Laid source c.tokens) (h : ∀ t ∈ c.tokens.take n, ¬ t.isEnd) :
    (c.forward n).before = (c.tokens.take n).getLastD c.before := (Cursor.spans_forward hc h).2

/-- The token behind the cursor is not a dot, or the token at it ends the body of a lambda. -/
def Cursor.Settled (c : Cursor) : Prop :=
  c.before.kind = .dot → Reading.endsLambdaBody c.here = true

namespace Reading

variable {α β : Type} {source : Text} {inner : Enclosed}

/-- A successful run from the cursor ends where an expression may end. -/
def SettlesAt (r : Reading α) (c : Cursor) : Prop :=
  ∀ (events : List Event) (a : α) (d : Cursor), r c = (events, .ok (a, d)) → d.Settled

/-- Every successful run ends where an expression may end. -/
def Settles (source : Text) (r : Reading α) : Prop := ∀ c, c.Sited source → r.SettlesAt c

/-- So does every successful run that starts there. -/
def StaysSettled (source : Text) (r : Reading α) : Prop :=
  ∀ c, c.Sited source → c.Settled → r.SettlesAt c

/-! ## Rules -/

theorem settled_advance {c : Cursor} (hc : c.Sited source) (hend : ¬ c.here.isEnd)
    (hkind : c.here.kind ≠ .dot) : c.advance.Settled := by
  obtain ⟨before, here, ahead, comments⟩ := c
  cases ahead with
  | nil => exact absurd rfl (hc.laid.tail hend).ne_nil
  | cons t ts => exact fun hdot => absurd hdot hkind

/-- Behind the tokens of a group or a type. -/
theorem settled_forward {c : Cursor} {n : Nat} (hc : c.Sited source)
    (hend : ∀ t ∈ c.tokens.take n, ¬ t.isEnd) (hends : Token.EndsPlain (c.tokens.take n)) :
    (c.forward n).Settled := by
  obtain ⟨last, hlast, hkind⟩ := hends
  intro hdot
  rw [Cursor.before_forward hc.laid hend, List.getLastD_eq_getLast?, hlast] at hdot
  exact absurd hdot hkind

namespace SettlesAt

variable {r : Reading α} {f : α → Reading β} {c : Cursor}

theorem fail (fault : Fault) : (Reading.fail fault : Reading α).SettlesAt c :=
  fun _ _ _ hrun => nomatch hrun

theorem refuse (expected : Expectation) : (Reading.refuse expected : Reading α).SettlesAt c :=
  fun _ _ _ hrun => nomatch hrun

theorem of_step {step : Cursor → Cursor} {value : Cursor → α} (h : (step c).Settled) :
    SettlesAt (fun c => ([], .ok (value c, step c))) c := by
  intro events a d hrun
  obtain ⟨-, hrun⟩ := Prod.mk.injEq .. |>.mp hrun
  obtain ⟨-, rfl⟩ := by simpa using hrun
  exact h

theorem ite {p : Prop} [Decidable p] {s : Reading α} (hr : p → r.SettlesAt c)
    (hs : ¬ p → s.SettlesAt c) : (if p then r else s).SettlesAt c := by
  split
  · exact hr ‹_›
  · exact hs ‹_›

theorem take {kind : Token.Kind} (hend : kind ≠ .endOfInput) (hdot : kind ≠ .dot)
    (hc : c.Sited source) (hkind : c.here.kind = kind) : Reading.take.SettlesAt c :=
  of_step (settled_advance hc (not_isEnd_of_kind hkind hend) (hkind ▸ hdot))

/-- What goes on behind a run that says where it ends. -/
theorem bind (h : r.SettlesAt c) (hd : r.Delivers source) (hc : c.Sited source)
    (hf : ∀ a, (f a).StaysSettled source) : (r >>= f).SettlesAt c := by
  intro events b e hrun
  obtain ⟨first, a, d, more, hfirst, hmore, -⟩ := exists_of_bind_ok hrun
  exact hf a d (hd.carries.sited hc hfirst) (h first a d hfirst) more b e hmore

theorem behind (hd : r.Delivers source) (hc : c.Sited source) (hf : ∀ a, (f a).Settles source) :
    (r >>= f).SettlesAt c := by
  intro events b e hrun
  obtain ⟨first, a, d, more, hfirst, hmore, -⟩ := exists_of_bind_ok hrun
  exact hf a d (hd.carries.sited hc hfirst) more b e hmore

theorem cursor_bind {f : Cursor → Reading β} (h : (f c).SettlesAt c) :
    (Reading.cursor >>= f).SettlesAt c := h

theorem here_bind {f : Token → Reading β} (h : (f c.here).SettlesAt c) :
    (Reading.here >>= f).SettlesAt c := h

end SettlesAt

namespace Settles

variable {r : Reading α} {f : α → Reading β}

theorem fail (fault : Fault) : (Reading.fail fault : Reading α).Settles source :=
  fun _ _ => .fail fault

theorem ite {p : Prop} [Decidable p] {s : Reading α} (hr : r.Settles source)
    (hs : s.Settles source) : (if p then r else s).Settles source :=
  fun c hc => .ite (fun _ => hr c hc) fun _ => hs c hc

theorem behind (hd : r.Delivers source) (hf : ∀ a, (f a).Settles source) :
    (r >>= f).Settles source := fun _ hc => .behind hd hc hf

theorem front (h : r.Settles source) (hd : r.Delivers source)
    (hf : ∀ a, (f a).StaysSettled source) : (r >>= f).Settles source :=
  fun c hc => (h c hc).bind hd hc hf

theorem expect {kind : Token.Kind} {symbol : String} (hend : kind ≠ .endOfInput)
    (hdot : kind ≠ .dot) : (Reading.expect kind symbol).Settles source := fun _ hc =>
  .ite (fun hat => .take hend hdot hc (kind_of_isAt hat)) fun _ => .refuse _

theorem expectName : Reading.expectName.Settles source := fun _ hc =>
  .ite (fun hname => .take (by decide) (by decide) hc
    (Token.kind_of_isName hname)) fun _ => .refuse _

end Settles

namespace StaysSettled

variable {r : Reading α} {f : α → Reading β}

theorem pure (a : α) : (Pure.pure a : Reading α).StaysSettled source :=
  fun _ _ hsettled => @SettlesAt.of_step _ _ id (fun _ => a) hsettled

theorem emit (e : Event) : (Reading.emit e).StaysSettled source := by
  intro c _ hsettled events a d hrun
  obtain ⟨-, hrun⟩ := Prod.mk.injEq .. |>.mp hrun
  obtain ⟨-, rfl⟩ := by simpa using hrun
  exact hsettled

theorem ite {p : Prop} [Decidable p] {s : Reading α} (hr : r.StaysSettled source)
    (hs : s.StaysSettled source) : (if p then r else s).StaysSettled source :=
  fun c hc hsettled => .ite (fun _ => hr c hc hsettled) fun _ => hs c hc hsettled

theorem bind (h : r.StaysSettled source) (hd : r.Delivers source)
    (hf : ∀ a, (f a).StaysSettled source) : (r >>= f).StaysSettled source :=
  fun c hc hsettled => (h c hc hsettled).bind hd hc hf

theorem rounds {body : Reading Bool} (h : body.StaysSettled source) (hd : body.Delivers source) :
    (repeatWhile body).StaysSettled source := by
  have hloop (budget : List Token) : (loop body budget).StaysSettled source := by
    induction budget with
    | nil => exact h.bind hd fun _ => pure ()
    | cons t budget ih => exact h.bind hd fun _ => ite ih (pure ())
  exact fun c => hloop c.ahead c

end StaysSettled

/-! ## Types, groups and lists -/

open Settles

theorem settles_unreportedType : unreportedType.Settles source := by
  intro c hc events u d hrun
  rw [unreportedType, cursor_bind] at hrun
  cases htype : Token.typeLength? c.tokens with
  | none =>
      rw [htype] at hrun
      cases hrun
  | some n =>
      rw [htype] at hrun
      cases hrun
      exact settled_forward hc (fun t ht => Token.not_isEnd_of_typeKinds
        (Token.typeKinds_of_type htype t ht)) (Token.endsPlain_type htype)

theorem settles_skipGroup : skipGroup.Settles source := by
  intro c hc events u d hrun
  rw [skipGroup, cursor_bind] at hrun
  cases hgroup : Token.groupLength? c.tokens with
  | none =>
      rw [hgroup] at hrun
      cases hrun
  | some n =>
      rw [hgroup] at hrun
      cases hrun
      exact settled_forward hc (Token.not_isEnd_of_groupFrom hgroup) (Token.endsPlain_groupFrom hgroup)

/-- What ends in a token that is asked for. -/
theorem settles_close {kind : Token.Kind} {symbol : String} (hend : kind ≠ .endOfInput)
    (hdot : kind ≠ .dot) {f : Token → Reading α} (hf : ∀ t, (f t).StaysSettled source) :
    (expect kind symbol >>= f).Settles source := (Settles.expect hend hdot).front (.expect _ _) hf

theorem settles_arguments (h : inner.Delivers source) : (arguments inner).Settles source := by
  have hclose : (do
      let paren ← expect .closeParen ")"
      emit (.closeArguments paren.toSpan) : Reading Unit).Settles source :=
    settles_close (by decide) (by decide) fun _ => .emit _
  have hround := (@Delivers.here source).bind fun t =>
    @Delivers.emit_bind _ source (.argument t.toSpan) _ rfl rfl fun _ =>
      (Delivers.expression h).bind fun _ => Delivers.comma
  exact behind (.expect _ _) fun _ => behind (.emit rfl rfl) fun _ => behind .cursor fun _ =>
    ite (behind (.rounds hround) fun _ => hclose) hclose

theorem stays_optionalArguments (h : inner.Delivers source) :
    (optionalArguments inner).StaysSettled source :=
  fun c hc hsettled => SettlesAt.ite (fun _ => settles_arguments h c hc) fun _ =>
    StaysSettled.pure () c hc hsettled

theorem settles_arrayInitializer (h : inner.Delivers source) :
    (arrayInitializer inner).Settles source := by
  have hround := (@Delivers.cursor source).bind fun c => Delivers.ite (p := c.isAt .closeBrace = true)
    (.pure false) (.ite (p := c.isAt .openBrace = true)
      (h.arrayInitializer.bind fun _ => Delivers.comma)
      ((Delivers.expression h).bind fun _ => Delivers.comma))
  exact behind (.expect _ _) fun _ => behind (.rounds hround) fun _ =>
    settles_close (by decide) (by decide) fun _ => .pure ()

/-! ## Operands -/

theorem stays_dimension (h : inner.Delivers source) : (dimension inner).StaysSettled source := by
  have hclose : (do
      let _ ← expect .closeBracket "]"
      return true : Reading Bool).Settles source :=
    settles_close (by decide) (by decide) fun _ => .pure true
  intro c hc hsettled
  refine SettlesAt.ite (fun _ => ?_) fun _ => StaysSettled.pure false c hc hsettled
  exact .behind .take hc fun _ => behind .cursor fun _ =>
    ite (behind (.expression h) fun _ => hclose) hclose

theorem stays_createdObject (h : inner.Delivers source) :
    (createdObject inner).StaysSettled source := by
  intro c hc hsettled
  refine SettlesAt.here_bind ?_
  split
  · refine (settles_arguments h c hc).bind (.arguments h) hc fun _ e he hsettled => ?_
    exact .ite (p := e.here.kind = .openBrace)
      (fun _ => .behind (.emit rfl rfl) he fun _ => settles_skipGroup) fun _ =>
        StaysSettled.pure () e he hsettled
  · refine ((StaysSettled.rounds (stays_dimension h) (.dimension h)).bind (.rounds (.dimension h))
      fun _ e he hsettled => ?_) c hc hsettled
    exact .ite (p := e.isAt .openBrace = true) (fun _ => settles_arrayInitializer h e he) fun _ =>
      StaysSettled.pure () e he hsettled
  · exact .refuse _

theorem settles_creation (h : inner.Delivers source) : (creation inner).Settles source := by
  refine behind .take fun _ c hc => ?_
  refine SettlesAt.cursor_bind ?_
  split
  · exact .refuse _
  · next n hn =>
      have hsettled : (c.forward n).Settled := settled_forward hc
        (fun t ht => Token.not_isEnd_of_typeKinds (Token.typeKinds_of_typeName hn t ht))
        (Token.endsPlain_typeName hn)
      exact (SettlesAt.of_step hsettled).bind (.forward n) hc fun _ => stays_createdObject h

theorem settles_typeLiteral (word : Text) : (typeLiteral word).Settles source :=
  settles_unreportedType.front .unreportedType fun _ e he hsettled =>
    .ite (fun _ => .fail _) fun _ => StaysSettled.pure () e he hsettled

/-- One round of the walk over a lambda body that is no block. -/
theorem passes_lambdaRound {c d : Cursor} (hc : c.Sited source) {events : List Event} {again : Bool}
    (h : (do
      let t ← here
      if t.kind.isOpener then
        skipGroup
        return true
      else if endsLambdaBody t then return false
      else
        let _ ← take
        return true : Reading Bool) c = (events, .ok (again, d))) :
    (again = true → c.Passes d) ∧ (again = false → d.Settled) := by
  rw [here_bind] at h
  split at h
  · next hopener =>
      obtain ⟨rfl, u, h⟩ := exists_of_bind_pure h
      have hend : ¬ c.here.isEnd := fun hend => by
        rw [show c.here.kind = .endOfInput from by simpa [Token.isEnd] using hend] at hopener
        cases hopener
      exact ⟨fun _ => advancesAt_skipGroup hc.laid hend events u d h, fun hagain => by cases hagain⟩
  split at h
  · next hends =>
      cases h
      exact ⟨fun hagain => (by cases hagain), fun _ _ => hends⟩
  · next hends =>
      obtain ⟨rfl, t, h⟩ := exists_of_bind_pure h
      have hend : ¬ c.here.isEnd := fun hend => by
        rw [endsLambdaBody, show c.here.kind = .endOfInput from by simpa [Token.isEnd] using hend]
          at hends
        exact hends rfl
      exact ⟨fun _ => advancesAt_take hc.laid hend events t d h, fun hagain => by cases hagain⟩

theorem settles_skipLambdaBody : skipLambdaBody.Settles source := by
  refine fun c hc => .ite (fun _ => settles_skipGroup c hc) fun _ => .ite (fun _ => .refuse _)
    fun _ events u d hrun => ?_
  obtain ⟨e, last, he, -, hlast⟩ := exists_last_round
    (fun c events d (hc : c.Sited source) h =>
      have hpasses := (passes_lambdaRound hc h).1 rfl
      ⟨hpasses, hc.reaching hpasses.reaches⟩) hc hrun
  exact (passes_lambdaRound he hlast).2 rfl

theorem settles_lambda : lambda.Settles source :=
  behind .here fun _ => behind (.emit rfl rfl) fun _ =>
    ite (behind .skipGroup fun _ => behind .take fun _ => settles_skipLambdaBody)
      (behind .take fun _ => behind .take fun _ => settles_skipLambdaBody)

theorem kind_of_operandShape {c : Cursor}
    (h : operandShape c = .literal ∨ operandShape c = .reference) :
    c.here.kind ≠ .endOfInput ∧ c.here.kind ≠ .dot := by
  rw [operandShape] at h
  constructor <;> rintro hkind <;> simp [hkind] at h

theorem settles_operand (h : inner.Delivers source) : (operand inner).Settles source := by
  intro c hc
  refine SettlesAt.cursor_bind ?_
  cases hshape : operandShape c with
  | literal =>
      obtain ⟨hend, hdot⟩ := kind_of_operandShape (.inl hshape)
      exact (SettlesAt.take hend hdot hc rfl).bind .take hc fun _ => .pure ()
  | lambda => exact settles_lambda c hc
  | parenthesized =>
      exact .behind .take hc fun _ => behind (.expression h) fun _ =>
        settles_close (by decide) (by decide) fun _ => .pure ()
  | creation => exact settles_creation h c hc
  | reference =>
      obtain ⟨hend, hdot⟩ := kind_of_operandShape (.inr hshape)
      exact (SettlesAt.take hend hdot hc rfl).bind .take hc fun _ => stays_optionalArguments h
  | typeLiteral word => exact settles_typeLiteral word c hc
  | reserved word => exact .fail _
  | other => exact .refuse _

/-! ## Selectors, operators and casts -/

theorem settles_memberAccess (h : inner.Delivers source) : (memberAccess inner).Settles source := by
  have hname : (do
      let _ ← expectName
      optionalArguments inner : Reading Unit).Settles source :=
    Settles.expectName.front .expectName fun _ => stays_optionalArguments h
  refine fun c hc => .ite (fun _ => settles_creation h c hc) fun _ => .ite (fun hself => ?_)
    fun _ => .ite (fun _ => .behind .skipTypeArguments hc fun _ => hname) fun _ => hname c hc
  have hkind : c.here.kind = .word := by
    simp only [Bool.or_eq_true] at hself
    rcases hself with (hself | hself) | hself <;> exact kind_of_isWord hself
  exact (SettlesAt.take (by decide) (by decide) hc hkind).bind .take hc fun _ => .pure ()

theorem stays_selector (h : inner.Delivers source) : (selector inner).StaysSettled source := by
  intro c hc hsettled
  refine SettlesAt.ite (fun _ => ?_) fun _ => .ite (fun _ => ?_) fun _ => .ite (fun _ => ?_)
    fun _ => .ite (fun hstep => ?_) fun _ => StaysSettled.pure false c hc hsettled
  · exact .behind .take hc fun _ => (settles_memberAccess h).front (.memberAccess h) fun _ => .pure true
  · exact .behind .take hc fun _ => behind (.expression h) fun _ =>
      settles_close (by decide) (by decide) fun _ => .pure true
  · refine .behind .take hc fun _ e he => .ite (p := e.isAtWord "new" = true) (fun hnew => ?_) fun _ => ?_
    · exact (SettlesAt.take (by decide) (by decide) he (kind_of_isWord hnew)).bind .take he
        fun _ => .pure true
    · exact (Settles.expectName e he).bind .expectName he fun _ => .pure true
  · exact (SettlesAt.take (by decide) (by decide) hc (kind_of_isOperatorIn hstep)).bind .take hc
      fun _ => .pure true

theorem settles_unary (h : inner.Delivers source) : (unary inner).Settles source :=
  behind (.rounds .leading) fun _ => (settles_operand h).front (.operand h) fun _ =>
    .rounds (stays_selector h) (.selector h)

theorem settles_typeTest : typeTest.Settles source := by
  have htested : (do
      unreportedType
      if (← here).isName then let _ ← take : Reading Unit).Settles source := by
    refine settles_unreportedType.front .unreportedType fun _ e he hsettled => ?_
    refine SettlesAt.ite (p := e.here.isName = true) (fun hname => ?_) fun _ =>
      StaysSettled.pure () e he hsettled
    exact (SettlesAt.take (by decide) (by decide) he (Token.kind_of_isName hname)).bind .take he
      fun _ => .pure ()
  exact behind .take fun _ => behind .cursor fun _ => ite (behind .take fun _ => htested) htested

theorem settles_binary (h : inner.Delivers source) : (binary inner).Settles source := by
  have hround := (@Delivers.cursor source).bind fun c =>
    Delivers.ite (p := c.isAtWord "instanceof" = true) (Delivers.typeTest.bind fun _ => .pure true)
      (.ite (p := c.here.isOperatorIn Token.binaryOperators = true)
        (Delivers.take.bind fun _ => (Delivers.unary h).bind fun _ => .pure true) (.pure false))
  refine (settles_unary h).front (.unary h) fun _ => .rounds (fun c hc hsettled => ?_) hround
  refine SettlesAt.ite (p := c.isAtWord "instanceof" = true) (fun _ => ?_) fun _ =>
    .ite (p := c.here.isOperatorIn Token.binaryOperators = true) (fun _ => ?_) fun _ =>
      StaysSettled.pure false c hc hsettled
  · exact (settles_typeTest c hc).bind .typeTest hc fun _ => .pure true
  · exact .behind .take hc fun _ => (settles_unary h).front (.unary h) fun _ => .pure true

end Reading

/-- The productions one nesting level deeper that an expression may end with. -/
structure Enclosed.Settles (source : Text) (inner : Enclosed) : Prop where
  delivers : inner.Delivers source
  assignment : inner.assignment.Settles source
  branches : inner.branches.Settles source
  arrayInitializer : inner.arrayInitializer.Settles source

namespace Reading

open Settles

variable {source : Text} {inner : Enclosed}

theorem settles_conditional (h : inner.Settles source) : (conditional inner).Settles source :=
  (settles_binary h.delivers).front (.binary h.delivers) fun _ c hc hsettled =>
    SettlesAt.ite (p := c.isAtOperator "?" = true)
      (fun _ => .behind .take hc fun _ => h.branches) fun _ => StaysSettled.pure () c hc hsettled

theorem settles_assignment (h : inner.Settles source) : (assignment inner).Settles source := by
  have hround := (@Delivers.here source).bind fun t =>
    Delivers.ite (p := t.isOperatorIn Token.assignmentOperators = true)
      (Delivers.take.bind fun _ => (Delivers.conditional h.delivers).bind fun _ => .pure true)
      (.pure false)
  refine (settles_conditional h).front (.conditional h.delivers) fun _ =>
    .rounds (fun c hc hsettled => ?_) hround
  exact SettlesAt.ite (p := c.here.isOperatorIn Token.assignmentOperators = true)
    (fun _ => .behind .take hc fun _ => (settles_conditional h).front (.conditional h.delivers)
      fun _ => .pure true) fun _ => StaysSettled.pure false c hc hsettled

theorem settles_branches (h : inner.Settles source) : (branches inner).Settles source :=
  behind (.assignment h.delivers) fun _ => behind (.expectOperator ":") fun _ =>
    settles_conditional h

end Reading

theorem Enclosed.settles_within (source : Text) (levels : Nat) :
    (Enclosed.within levels).Settles source := by
  induction levels with
  | zero =>
      exact ⟨delivers_within source 0, .fail _, .fail _, .fail _⟩
  | succ levels ih =>
      exact ⟨delivers_within source (levels + 1), Reading.settles_assignment ih,
        Reading.settles_branches ih, Reading.settles_arrayInitializer ih.delivers⟩

end CodeFrames
