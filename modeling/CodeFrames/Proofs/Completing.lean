import CodeFrames.Proofs.Lexing
import CodeFrames.Proofs.Reporting.Expression

/-!
# Readings that complete

A reading completes from a cursor when its run there succeeds, with the events and the end that are
asked for.  Where a run has to end is said by what is still ahead: by the tokens without their places,
or by the text of the rest of the source.
-/

namespace CodeFrames

open scoped Computability
open Sentence

/-! ## Cursors in front of tokens -/

namespace Cursor

/-- The cursor stands in front of the given tokens, and no comment is waiting. -/
structure Faces (c : Cursor) (ps : List Token) : Prop where
  tokens_eq : c.tokens.map Token.bare = ps
  comments_eq : c.comments = []

namespace Faces

variable {c : Cursor} {p : Token} {ps qs : List Token}

theorem here_eq (h : c.Faces (p :: ps)) : c.here.bare = p := (List.cons.inj h.tokens_eq).1

theorem ahead_eq (h : c.Faces (p :: ps)) : c.ahead.map Token.bare = ps := (List.cons.inj h.tokens_eq).2

theorem length_ahead (h : c.Faces ps) : c.ahead.length + 1 = ps.length := by
  simpa [Cursor.tokens] using congrArg List.length h.tokens_eq

theorem advance (h : c.Faces (p :: ps)) (hps : ps ≠ []) : c.advance.Faces ps := by
  obtain ⟨before, here, ahead, comments⟩ := c
  have hahead := h.ahead_eq
  cases ahead with
  | nil => exact absurd hahead.symm hps
  | cons t ts => exact ⟨hahead, h.comments_eq⟩

theorem forward (h : c.Faces (ps ++ qs)) (hqs : qs ≠ []) : (c.forward ps.length).Faces qs := by
  induction ps generalizing c with
  | nil => exact h
  | cons p ps ih => exact ih (h.advance (by simp [hqs]))

end Faces

end Cursor

/-! ## Readings -/

namespace Reading

variable {α β : Type}

/-- The run of the reading from a cursor succeeds. -/
def CompletesAt (r : Reading α) (c : Cursor) (L : Language Event) (Q : α → Cursor → Prop) : Prop :=
  ∃ events a d, r c = (events, .ok (a, d)) ∧ events ∈ L ∧ Q a d

namespace CompletesAt

variable {r : Reading α} {f : α → Reading β} {c : Cursor} {L M : Language Event}
  {Q : α → Cursor → Prop} {R : β → Cursor → Prop}

theorem mono (h : r.CompletesAt c L Q) (hle : L ≤ M) : r.CompletesAt c M Q := by
  obtain ⟨events, a, d, hr, hmem, hQ⟩ := h
  exact ⟨events, a, d, hr, hle hmem, hQ⟩

theorem imp {Q' : α → Cursor → Prop} (h : r.CompletesAt c L Q) (hQ : ∀ a d, Q a d → Q' a d) :
    r.CompletesAt c L Q' := by
  obtain ⟨events, a, d, hr, hmem, hend⟩ := h
  exact ⟨events, a, d, hr, hmem, hQ a d hend⟩

theorem bind (h : r.CompletesAt c L Q) (hf : ∀ a d, Q a d → (f a).CompletesAt d M R) :
    (r >>= f).CompletesAt c (L * M) R := by
  obtain ⟨events, a, d, hr, hmem, hQ⟩ := h
  obtain ⟨more, b, e, hg, hmore, hR⟩ := hf a d hQ
  refine ⟨events ++ more, b, e, ?_, Language.append_mem_mul hmem hmore, hR⟩
  rw [bind_of_ok f hr, hg]

/-- A reading that reports nothing in front of another one. -/
theorem silent (h : r.CompletesAt c 1 Q) (hf : ∀ a d, Q a d → (f a).CompletesAt d M R) :
    (r >>= f).CompletesAt c M R :=
  (h.bind hf).mono (one_mul M).le

/-- A reading in front of one that reports nothing. -/
theorem bind_silent (h : r.CompletesAt c L Q) (hf : ∀ a d, Q a d → (f a).CompletesAt d 1 R) :
    (r >>= f).CompletesAt c L R :=
  (h.bind hf).mono (mul_one L).le

theorem pure {a : α} (h : Q a c) : (Pure.pure a : Reading α).CompletesAt c 1 Q :=
  ⟨[], a, c, rfl, Language.nil_mem_one, h⟩

theorem emit {e : Event} {Q : Unit → Cursor → Prop} (h : Q () c) :
    (Reading.emit e).CompletesAt c {[e]} Q :=
  ⟨[e], (), c, rfl, rfl, h⟩

theorem emit_single {ι : Type} (event : ι → Event) (i : ι) {Q : Unit → Cursor → Prop} (h : Q () c) :
    (Reading.emit (event i)).CompletesAt c (single event) Q :=
  ⟨_, (), c, rfl, mem_single event i, h⟩

theorem cursor_bind {f : Cursor → Reading β} (h : (f c).CompletesAt c L R) :
    (Reading.cursor >>= f).CompletesAt c L R := h

theorem here_bind {f : Token → Reading β} (h : (f c.here).CompletesAt c L R) :
    (Reading.here >>= f).CompletesAt c L R := h

theorem before_bind {f : Token → Reading β} (h : (f c.before).CompletesAt c L R) :
    (Reading.before >>= f).CompletesAt c L R := h

theorem take_bind {f : Token → Reading β} (h : (f c.here).CompletesAt c.advance L R) :
    (Reading.take >>= f).CompletesAt c L R := h

theorem forward_bind {n : Nat} {f : Unit → Reading β} (h : (f ()).CompletesAt (c.forward n) L R) :
    (Reading.forward n >>= f).CompletesAt c L R := h

theorem take {Q : Token → Cursor → Prop} (h : Q c.here c.advance) :
    Reading.take.CompletesAt c 1 Q :=
  ⟨[], c.here, c.advance, rfl, Language.nil_mem_one, h⟩

theorem ite_true {p : Prop} [Decidable p] {s : Reading α} (hp : p) (h : r.CompletesAt c L Q) :
    (if p then r else s).CompletesAt c L Q := by rwa [if_pos hp]

theorem ite_false {p : Prop} [Decidable p] {s : Reading α} (hp : ¬ p) (h : s.CompletesAt c L Q) :
    (if p then r else s).CompletesAt c L Q := by rwa [if_neg hp]

theorem expect {kind : Token.Kind} {symbol : String} {Q : Token → Cursor → Prop}
    (hkind : c.here.kind = kind) (h : Q c.here c.advance) :
    (Reading.expect kind symbol).CompletesAt c 1 Q :=
  cursor_bind (ite_true (by simp [Cursor.isAt, hkind]) (take h))

theorem expectName {Q : Token → Cursor → Prop} (hname : c.here.isName) (h : Q c.here c.advance) :
    Reading.expectName.CompletesAt c 1 Q :=
  here_bind (ite_true hname (take h))

end CompletesAt

/-! ## Loops -/

/-- Rounds of a loop through one that answers `false`; each other one leaves fewer tokens ahead. -/
inductive Rounds (body : Reading Bool) : Cursor → List Event → Cursor → Prop
  | last {c d events} : body c = (events, .ok (false, d)) → Rounds body c events d
  | more {c d e events others} :
      body c = (events, .ok (true, d)) → d.ahead.length < c.ahead.length → Rounds body d others e →
      Rounds body c (events ++ others) e

theorem loop_of_false {body : Reading Bool} {c d : Cursor} {events : List Event}
    (h : body c = (events, .ok (false, d))) (budget : List Token) :
    Reading.loop body budget c = (events, .ok ((), d)) := by
  cases budget <;> rw [Reading.loop, bind_of_ok _ h] <;> simp [Reading.pure, Pure.pure]

theorem loop_of_true {body : Reading Bool} {c d : Cursor} {events : List Event}
    (h : body c = (events, .ok (true, d))) (t : Token) (budget : List Token) :
    Reading.loop body (t :: budget) c =
      (events ++ (Reading.loop body budget d).1, (Reading.loop body budget d).2) := by
  rw [Reading.loop, bind_of_ok _ h, if_pos rfl]

theorem Rounds.loop {body : Reading Bool} {c d : Cursor} {events : List Event}
    (h : Rounds body c events d) {budget : List Token} (hbudget : c.ahead.length ≤ budget.length) :
    Reading.loop body budget c = (events, .ok ((), d)) := by
  induction h generalizing budget with
  | last hbody => exact loop_of_false hbody budget
  | more hbody hless hrest ih =>
      cases budget with
      | nil =>
          simp only [List.length_nil, Nat.le_zero_eq] at hbudget
          omega
      | cons t budget =>
          rw [loop_of_true hbody, ih (by simp only [List.length_cons] at hbudget; omega)]

/-- A loop whose rounds complete. -/
def RepeatsAt (body : Reading Bool) (c : Cursor) (L : Language Event) (Q : Cursor → Prop) : Prop :=
  ∃ events d, Rounds body c events d ∧ events ∈ L ∧ Q d

namespace RepeatsAt

variable {body : Reading Bool} {c : Cursor} {L M : Language Event} {P Q : Cursor → Prop}

theorem repeatWhile (h : RepeatsAt body c L Q) :
    (Reading.repeatWhile body).CompletesAt c L fun _ => Q := by
  obtain ⟨events, d, hrounds, hmem, hQ⟩ := h
  exact ⟨events, (), d, hrounds.loop (Nat.le_refl _), hmem, hQ⟩

theorem last (h : body.CompletesAt c L fun again d => again = false ∧ Q d) : RepeatsAt body c L Q := by
  obtain ⟨events, again, d, hbody, hmem, rfl, hQ⟩ := h
  exact ⟨events, d, .last hbody, hmem, hQ⟩

theorem more (h : body.CompletesAt c L fun again d =>
      again = true ∧ d.ahead.length < c.ahead.length ∧ P d)
    (hrest : ∀ d, P d → RepeatsAt body d M Q) : RepeatsAt body c (L * M) Q := by
  obtain ⟨events, again, d, hbody, hmem, rfl, hless, hP⟩ := h
  obtain ⟨others, e, hrounds, hothers, hQ⟩ := hrest d hP
  exact ⟨events ++ others, e, .more hbody hless hrounds, Language.append_mem_mul hmem hothers, hQ⟩

theorem mono (h : RepeatsAt body c L Q) (hle : L ≤ M) : RepeatsAt body c M Q := by
  obtain ⟨events, d, hrounds, hmem, hQ⟩ := h
  exact ⟨events, d, hrounds, hle hmem, hQ⟩

end RepeatsAt

end Reading

end CodeFrames
