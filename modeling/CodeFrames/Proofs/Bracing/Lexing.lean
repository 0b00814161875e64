import CodeFrames.Proofs.Bracing.Assembly
import CodeFrames.Proofs.Slices

/-!
# The tokens of a source with braces

A brace is a token of its own wherever it stands.  In front of a token and behind one it leaves the
other tokens what they are, unless a number with a dot would go on: so the text with the braces is
split into the same tokens, some bytes further on.
-/

namespace CodeFrames

open Text

namespace Token

/-- Pieces in front of what starts no line stay what they are in front of a separator, if they are
pieces of a text of their own. -/
theorem Pieced.before {d : Char} {u v : Text} {ps : List Token} (h : Pieced (d :: v) ps)
    (halone : Pieced [] ps) (hd : d ≠ '\n') (hu : IsApart u) : Pieced u ps := by
  induction h with
  | nil => exact .nil
  | blank hblank _ ih => exact .blank hblank (ih (@Pieced.right [] [_] _ halone))
  | @token kind c t ps hlexeme _ ih =>
      refine .token ?_ (ih (@Pieced.right [] [_] _ halone))
      rw [← List.append_assoc] at hlexeme ⊢
      by_cases hkind : kind = .comment
      · subst hkind
        exact lexeme_comment_before hlexeme (by simp) hd u
      · cases halone with
        | blank => exact absurd rfl hkind
        | token halone =>
            rw [List.append_nil] at halone
            exact (lexeme_append hu halone hkind).1

/-- The walk from a place so many bytes further on finds the tokens so many bytes further on. -/
theorem Walked.shift {p q : Position} {ps ts : List Token} (h : Walked p ps ts q) (bytes : Nat) :
    Walked ⟨p.line, p.offset + bytes⟩ ps (ts.map (Token.shift 0 bytes)) ⟨q.line, q.offset + bytes⟩ := by
  induction h with
  | nil => exact .nil
  | @blank p q c ps ts hblank _ ih =>
      refine .blank hblank ?_
      rw [show Position.afterBlank ⟨p.line, p.offset + bytes⟩ c =
        ⟨(p.afterBlank c).line, (p.afterBlank c).offset + bytes⟩ by
          simp [Position.afterBlank, Nat.add_right_comm]]
      exact ih
  | @token p q kind c t ps ts hblank hend _ ih =>
      have hplace : Position.afterToken ⟨p.line, p.offset + bytes⟩ kind (c :: t) =
          ⟨(p.afterToken kind (c :: t)).line, (p.afterToken kind (c :: t)).offset + bytes⟩ := by
        simp [Position.afterToken, Nat.add_right_comm]
      rw [List.map_cons, show (ofText kind (c :: t) p).shift 0 bytes =
        ofText kind (c :: t) ⟨p.line, p.offset + bytes⟩ by simp [ofText, Token.shift, hplace]]
      exact .token hblank hend (hplace ▸ ih)

end Token

namespace Bracing

open Token

variable {b : Bracing} {tokens before stretch behind : List Token} {first last : Token}

/-- The braces are tokens around those of the stretch, and all tokens behind the one or both of them
are one or two bytes further on. -/
theorem exists_braces (hlex : lex b.source = .ok tokens) (hsplit : tokens = before ++ (stretch ++ behind))
    (hfirst : first ∈ stretch.head?) (hlast : last ∈ stretch.getLast?) (hend : ¬ last.isEnd)
    (hfirstKind : first.kind ≠ .comment) (hlastKind : last.kind ≠ .comment)
    (hstart : first.start = byteSize b.front) (hstop : last.stop = byteSize b.front + byteSize b.stretch) :
    ∃ opening closing : Token, opening.kind = .openBrace ∧ opening.start = byteSize b.front ∧
      closing.kind = .closeBrace ∧ closing.start = byteSize b.front + byteSize b.stretch + 1 ∧
      ((∀ t ∈ (code before).getLast?, t.kind = .dot → Reading.endsLambdaBody first = true) →
        (last.kind = .dot → ∀ t ∈ (code behind).head?, Reading.endsLambdaBody t = true) →
        lex b.braced = .ok (before ++ opening :: (stretch.map (shift 0 1) ++ closing :: behind.map (shift 0 2)))) := by
  obtain ⟨front, inside, back, p, r, q, more, hps, hspelled, hfront, hinside, hback, rfl, -, hp, hr, hblank, hbare⟩ :=
    exists_walked_stretch hlex hsplit hfirst hlast hend
  refine ⟨ofText .openBrace ['{'] p, ofText .closeBrace ['}'] ⟨r.line, r.offset + 1⟩, rfl, hp.trans hstart, rfl,
    congrArg (· + 1) (hr.trans hstop), fun hbefore hbehind => ?_⟩
  obtain ⟨hfrontText, hrest⟩ := append_inj_of_byteSize hspelled
    (by simpa using hfront.offset_eq.symm.trans (hp.trans hstart))
  obtain ⟨hinsideText, hbackText⟩ := append_inj_of_byteSize hrest (by
    have := hinside.offset_eq
    omega)
  have hfront' : Pieced [] front := by
    refine hfront.settled hps fun t ht hkind =>
      @Walked.endsLambdaBody p q _ _ [] (hinside.append hback) fun u hu => ?_
    obtain ⟨init, rfl⟩ := List.getLast?_eq_some_iff.mp ht
    obtain ⟨rest, rfl⟩ := List.head?_eq_some_iff.mp hfirst
    have hlastCode : t ∈ (code (init ++ [t])).getLast? := by
      rw [code_append, code_cons (by rw [hkind]; decide), code_nil, List.getLast?_concat]
      rfl
    rw [List.append_nil, List.cons_append, code_cons hfirstKind] at hu
    obtain rfl : first = u := by simpa using hu
    exact hbefore t hlastCode hkind
  have hinside' : Pieced [] inside := hinside.settled hps.right fun t ht hkind =>
    hback.endsLambdaBody (hbehind (Option.some.inj (ht.symm.trans hlast) ▸ hkind))
  have hpieced : Pieced [] (front ++ symbol .openBrace ['{'] :: (inside ++ symbol .closeBrace ['}'] :: back)) := by
    refine Pieced.append ?_ (.token rfl (Pieced.append (hinside'.apart ?_ (isApart_cons (by decide) _))
      (.token rfl hps.right.right)))
    · have hmore : Pieced (spelled inside ++ spelled back) front := by simpa using hps.left
      cases hopen : spelled inside with
      | nil =>
          rw [hps.right.left.eq_nil hopen] at hbare
          cases hbare
      | cons d v =>
          rw [hopen] at hmore hblank
          refine hmore.before hfront' ?_ (isApart_cons (by decide) _)
          rintro rfl
          exact absurd (hblank '\n' rfl) (by decide)
    · intro t ht
      obtain rfl : last.bare = t := Option.some.inj (hbare.symm.trans ht)
      exact hlastKind
  have hclose := @Walked.token ⟨r.line, r.offset + 1⟩ _ .closeBrace '}' [] _ _ rfl (by decide) (hback.shift 2)
  have hwalk := hfront.append (@Walked.token p _ .openBrace '{' [] _ _ rfl (by decide)
    ((hinside.shift 1).append hclose))
  have hrun := hwalk.tokensFrom_eq (u := []) hpieced
  have htext : b.braced = spelled (front ++ symbol .openBrace ['{'] :: (inside ++ symbol .closeBrace ['}'] :: back)) := by
    simp [braced, ← hfrontText, ← hinsideText, ← hbackText, symbol]
  rw [lex, htext, ← List.append_nil (spelled _), hrun]
  simp [tokensFrom, Except.map, ofText, Token.shift, Position.afterToken]

end Bracing

end CodeFrames
