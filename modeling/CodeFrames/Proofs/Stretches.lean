import CodeFrames.Proofs.Seam.Lexing

/-!
# Stretches of a source

A stretch of a source from the start of one token to the end of another is split into the tokens
between the two, unless the last of them is a dot that a number in front of it would take in.
-/

namespace CodeFrames

open Text

namespace Token

/-! ## The walk over pieces -/

/-- The tokens that the walk over some pieces finds, from one position to another.  A piece that
starts with a blank character is no token. -/
inductive Walked : Position → List Token → List Token → Position → Prop
  | nil {p : Position} : Walked p [] [] p
  | blank {p q : Position} {c : Char} {ps ts : List Token} : isBlank c = true →
      Walked (p.afterBlank c) ps ts q → Walked p (symbol .comment [c] :: ps) ts q
  | token {p q : Position} {kind : Kind} {c : Char} {t : Text} {ps ts : List Token} :
      isBlank c = false → kind ≠ .endOfInput → Walked (p.afterToken kind (c :: t)) ps ts q →
      Walked p (symbol kind (c :: t) :: ps) (ofText kind (c :: t) p :: ts) q

theorem isBlank_eq_false {c : Char} {t : Text} {kind : Kind} {size : Nat}
    (h : lexeme c t = .ok (.token kind size)) : isBlank c = false := by
  cases hblank : isBlank c with
  | false => rfl
  | true => simp [lexeme_of_isBlank hblank] at h

theorem Pieced.exists_walked {u : Text} {ps : List Token} (h : Pieced u ps) (p : Position) :
    ∃ ts q, Walked p ps ts q := by
  induction h generalizing p with
  | nil => exact ⟨[], p, .nil⟩
  | @blank c ps hblank _ ih =>
      obtain ⟨ts, q, h⟩ := ih (p.afterBlank c)
      exact ⟨ts, q, .blank hblank h⟩
  | @token kind c t ps hlexeme _ ih =>
      obtain ⟨ts, q, h⟩ := ih (p.afterToken kind (c :: t))
      exact ⟨_, q, .token (isBlank_eq_false hlexeme) (lexeme_token hlexeme).2 h⟩

namespace Walked

variable {p q : Position} {ps ts us : List Token}

/-- The walk over a text that starts with the pieces finds their tokens first. -/
theorem tokensFrom_eq (h : Walked p ps ts q) {u : Text} (hps : Pieced u ps) :
    tokensFrom 0 p (spelled ps ++ u) = (tokensFrom 0 q u).map (ts ++ ·) := by
  induction h with
  | nil =>
      rw [spelled_nil, List.nil_append]
      cases tokensFrom 0 _ u <;> rfl
  | @blank p q c ps ts hblank h ih =>
      have hmore : Pieced u ps := @Pieced.right u [_] ps hps
      exact (tokensFrom_blank (lexeme_of_isBlank hblank _)).trans (ih hmore)
  | @token p q kind c t ps ts hblank hend h ih =>
      have hlexeme : lexeme c (t ++ (spelled ps ++ u)) = .ok (.token kind (t.length + 1)) := by
        cases hps with
        | blank hblank' => simp [hblank'] at hblank
        | token hlexeme => exact hlexeme
      have hmore : Pieced u ps := @Pieced.right u [_] ps hps
      have htake : (c :: (t ++ (spelled ps ++ u))).take (t.length + 1) = c :: t := by simp
      change tokensFrom 0 p (c :: (t ++ spelled ps) ++ u) = _
      rw [List.cons_append, List.append_assoc, tokensFrom_token hlexeme, htake, Nat.add_sub_cancel,
        tokensFrom_length, ih hmore, map_cons_map]

theorem offset_eq (h : Walked p ps ts q) : q.offset = p.offset + byteSize (spelled ps) := by
  induction h with
  | nil => simp
  | blank _ _ ih =>
      rw [ih, spelled_cons, byteSize_append]
      simp [symbol, Position.afterBlank, Nat.add_assoc]
  | token _ _ _ ih =>
      rw [ih, spelled_cons, byteSize_append]
      simp [symbol, Position.afterToken, Nat.add_assoc]

theorem line_le (h : Walked p ps ts q) : p.line ≤ q.line := by
  induction h with
  | nil => exact le_rfl
  | @blank p _ c _ _ _ _ ih =>
      refine le_trans ?_ ih
      simp only [Position.afterBlank]
      split <;> omega
  | @token p _ kind _ _ _ _ _ _ _ ih =>
      refine le_trans ?_ ih
      simp only [Position.afterToken]
      split <;> omega

theorem code_eq (h : Walked p ps ts q) : code ps = (code ts).map bare := by
  induction h with
  | nil => rfl
  | blank _ _ ih => rw [code_comment rfl, ih]
  | @token p q kind c t ps ts _ _ _ ih =>
      by_cases hkind : kind = .comment
      · rw [code_comment hkind, code_comment (show (ofText kind (c :: t) p).kind = _ from hkind), ih]
      · rw [code_cons hkind, code_cons (show (ofText kind (c :: t) p).kind ≠ _ from hkind), ih,
          List.map_cons]
        rfl

/-- The last piece is the last token, unless it is a comment or blank. -/
theorem exists_last (h : Walked p ps ts q) {s : Token} (hs : s ∈ ps.getLast?) (hkind : s.kind ≠ .comment) :
    ∃ t ∈ ts.getLast?, t.bare = s := by
  induction h with
  | nil => cases hs
  | @blank _ _ c ps _ _ _ ih =>
      cases ps with
      | nil =>
          obtain rfl : symbol .comment [c] = s := Option.some.inj hs
          exact absurd rfl hkind
      | cons => exact ih hs
  | @token p _ kind c t ps _ _ _ h ih =>
      cases ps with
      | nil =>
          cases h
          exact ⟨ofText kind (c :: t) p, rfl, Option.some.inj hs⟩
      | cons =>
          obtain ⟨t, ht, hbare⟩ := ih hs
          exact ⟨t, by rw [List.getLast?_cons, ht]; rfl, hbare⟩

/-- The walk over the first tokens ends where the last of them ends. -/
theorem split (h : Walked p ps (ts ++ us) q) :
    ∃ front back r, ps = front ++ back ∧ Walked p front ts r ∧ Walked r back us q ∧
      ∀ t ∈ ts.getLast?, front.getLast? = some t.bare ∧ t.stop = r.offset := by
  generalize hwhole : ts ++ us = whole at h
  induction h generalizing ts with
  | @nil p =>
      obtain ⟨rfl, rfl⟩ := List.append_eq_nil_iff.mp hwhole
      exact ⟨[], [], p, rfl, .nil, .nil, by simp⟩
  | @blank p q c ps whole hblank h ih =>
      cases ts with
      | nil =>
          obtain rfl : us = whole := hwhole
          exact ⟨[], _, p, rfl, .nil, .blank hblank h, by simp⟩
      | cons t ts =>
          obtain ⟨front, back, r, rfl, hfront, hback, hlast⟩ := ih hwhole
          refine ⟨symbol .comment [c] :: front, back, r, rfl, .blank hblank hfront, hback,
            fun t ht => ?_⟩
          obtain ⟨hbare, hstop⟩ := hlast t ht
          exact ⟨by rw [List.getLast?_cons, hbare]; rfl, hstop⟩
  | @token p q kind c t ps whole hblank hend h ih =>
      cases ts with
      | nil =>
          obtain rfl : us = _ := hwhole
          exact ⟨[], _, p, rfl, .nil, .token hblank hend h, by simp⟩
      | cons v ts =>
          obtain ⟨rfl, rfl⟩ := List.cons.inj hwhole
          cases ts with
          | nil =>
              refine ⟨[symbol kind (c :: t)], ps, p.afterToken kind (c :: t), rfl,
                .token hblank hend .nil, h, fun v hv => ?_⟩
              obtain rfl : ofText kind (c :: t) p = v := by simpa using hv
              exact ⟨rfl, rfl⟩
          | cons w ts =>
              obtain ⟨front, back, r, rfl, hfront, hback, hlast⟩ := @ih (w :: ts) rfl
              refine ⟨symbol kind (c :: t) :: front, back, r, rfl, .token hblank hend hfront, hback,
                fun v hv => ?_⟩
              obtain ⟨hbare, hstop⟩ := hlast v (by simpa [List.getLast?_cons] using hv)
              exact ⟨by rw [List.getLast?_cons, hbare]; rfl, hstop⟩

/-- In front of the first token there are blank characters only, and it starts with no blank one. -/
theorem skipBlanks {t : Token} (h : Walked p ps (t :: ts) q) :
    ∃ blanks back r, ps = blanks ++ back ∧ Walked p blanks [] r ∧ Walked r back (t :: ts) q ∧
      r.line = t.line ∧ r.offset = t.start ∧ ∀ c ∈ (spelled back).head?, isBlank c = false := by
  generalize hwhole : t :: ts = whole at h
  induction h with
  | nil => cases hwhole
  | @blank p q c ps whole hblank h ih =>
      obtain ⟨blanks, back, r, rfl, hblanks, hback, hplace⟩ := ih hwhole
      exact ⟨_ :: blanks, back, r, rfl, .blank hblank hblanks, hback, hplace⟩
  | @token p q kind c t ps whole hblank hend h ih =>
      obtain ⟨rfl, rfl⟩ := List.cons.inj hwhole
      exact ⟨[], _, p, rfl, .nil, .token hblank hend h, rfl, rfl, by simpa [symbol] using hblank⟩

theorem append (h : Walked p ps ts q) {qs : List Token} {r : Position} (hmore : Walked q qs us r) :
    Walked p (ps ++ qs) (ts ++ us) r := by
  induction h with
  | nil => exact hmore
  | blank hblank _ ih => exact .blank hblank (ih hmore)
  | token hblank hend _ ih => exact .token hblank hend (ih hmore)

end Walked

theorem exists_walked_of_lex {source : Text} {tokens : List Token} (h : lex source = .ok tokens) :
    ∃ ps ts q, Pieced [] ps ∧ spelled ps = source ∧ Walked ⟨1, 0⟩ ps ts q ∧
      tokens = ts ++ [ofText .endOfInput [] q] := by
  obtain ⟨ps, hps, hspelled⟩ := exists_pieced (Nat.zero_le _) h
  obtain ⟨ts, q, hwalk⟩ := hps.exists_walked ⟨1, 0⟩
  have hrun := hwalk.tokensFrom_eq hps
  rw [List.append_nil, hspelled, List.drop_zero] at hrun
  exact ⟨ps, ts, q, hps, hspelled, hwalk, Except.ok.inj (h.symm.trans hrun)⟩

/-- Pieces are those of a text of their own, unless they end in a dot behind which no lambda may end. -/
theorem Pieced.settled {front rest : List Token} (h : Pieced [] (front ++ rest))
    (hsettled : ∀ t ∈ front.getLast?, t.kind = .dot → ∀ p ∈ (code rest).head?,
      Reading.endsLambdaBody p = true) : Pieced [] front := by
  have hfront : Pieced (spelled rest) front := by simpa using h.left
  by_cases hdot : ∃ t ∈ front.getLast?, t.kind = .dot
  · obtain ⟨t, ht, hkind⟩ := hdot
    exact hfront.alone (.inr (h.right.endsNumber (hsettled t ht hkind)))
  · refine hfront.alone (.inl fun qs n d heq _ hkind => hdot ⟨d, ?_, hkind⟩)
    rw [heq, List.getLast?_append]
    rfl

namespace Walked

variable {p q : Position} {ps rest ts us : List Token}

/-- The pieces that tokens are found in are those of a text of their own, unless the last token is a dot
behind which no lambda may end. -/
theorem settled (h : Walked p ps ts q) (hps : Pieced [] (ps ++ rest)) (hdot : ∀ t ∈ ts.getLast?, t.kind = .dot →
    ∀ u ∈ (code rest).head?, Reading.endsLambdaBody u = true) : Pieced [] ps := by
  refine hps.settled fun s hs hkind => ?_
  obtain ⟨t, ht, rfl⟩ := h.exists_last hs (by rw [hkind]; decide)
  exact hdot t ht hkind

theorem endsLambdaBody (h : Walked p ps ts q)
    (hends : ∀ t ∈ (code (ts ++ us)).head?, Reading.endsLambdaBody t = true) :
    ∀ u ∈ (code ps).head?, Reading.endsLambdaBody u = true := by
  intro u hu
  rw [h.code_eq, List.head?_map] at hu
  obtain ⟨t, ht, rfl⟩ := Option.map_eq_some_iff.mp hu
  exact hends t (by rw [code_append, List.head?_append, ht]; rfl)

end Walked

/-! ## Stretches -/

/-- The pieces in front of a stretch, those from its first token to its last one, and those behind it. -/
theorem exists_walked_stretch {source : Text} {tokens before stretch behind : List Token} {first last : Token}
    (hlex : CodeFrames.lex source = .ok tokens) (hsplit : tokens = before ++ (stretch ++ behind))
    (hfirst : first ∈ stretch.head?) (hlast : last ∈ stretch.getLast?) (hend : ¬ last.isEnd) :
    ∃ front inside back p r q more, Pieced [] (front ++ (inside ++ back)) ∧
      spelled front ++ (spelled inside ++ spelled back) = source ∧ Walked ⟨1, 0⟩ front before p ∧
      Walked p inside stretch r ∧ Walked r back more q ∧ behind = more ++ [ofText .endOfInput [] q] ∧
      p.line = first.line ∧ p.offset = first.start ∧ r.offset = last.stop ∧
      (∀ c ∈ (spelled inside).head?, isBlank c = false) ∧ inside.getLast? = some last.bare := by
  obtain ⟨ps, ts, q, hps, rfl, hwalk, rfl⟩ := exists_walked_of_lex hlex
  obtain ⟨more, rfl, rfl⟩ : ∃ more, ts = before ++ (stretch ++ more) ∧
      behind = more ++ [ofText .endOfInput [] q] := by
    rcases List.eq_nil_or_concat behind with rfl | ⟨more, t, rfl⟩
    · obtain ⟨inside, rfl⟩ := List.getLast?_eq_some_iff.mp hlast
      rw [List.append_nil, ← List.append_assoc] at hsplit
      have hstop := (List.append_inj' hsplit rfl).2
      obtain rfl : ofText .endOfInput [] q = last := by simpa using hstop
      exact absurd rfl hend
    · rw [List.concat_eq_append, ← List.append_assoc, ← List.append_assoc] at hsplit
      obtain ⟨hts, hstop⟩ := List.append_inj' hsplit rfl
      exact ⟨more, by rw [hts, List.append_assoc], by rw [hstop, List.concat_eq_append]⟩
  obtain ⟨front, back, r, rfl, hfront, hback, -⟩ := hwalk.split
  obtain ⟨rest, rfl⟩ := List.head?_eq_some_iff.mp hfirst
  obtain ⟨blanks, back, p, rfl, hblanks, hback, hline, hstart, hblank⟩ := hback.skipBlanks
  obtain ⟨inside, back, r', rfl, hinside, hback, hstop⟩ := @Walked.split p q back (first :: rest) more hback
  obtain ⟨hbare, hstop⟩ := hstop last hlast
  refine ⟨front ++ blanks, inside, back, p, r', q, more, by rwa [List.append_assoc], by simp,
    by simpa using hfront.append hblanks, hinside, hback, rfl, hline, hstart, hstop.symm, fun c hc => hblank c ?_,
    hbare⟩
  rw [spelled_append, List.head?_append, Option.mem_def.mp hc]
  rfl

/-- The text is split into the tokens of a stretch, as far from the start of the text as they are
from the start of `first` in their source, and the end of input behind them. -/
def SplitsInto (text : Text) (first : Token) (stretch : List Token) : Prop :=
  ∃ (ts : List Token) (stop : Token), CodeFrames.lex text = .ok (ts ++ [stop]) ∧
    stop.kind = .endOfInput ∧ stop.text = [] ∧ stop.start = byteSize text ∧
    stretch = ts.map (shift (first.line - 1) first.start)

/-- What is cut out from the start of one token to the end of another is split into the tokens from
the one to the other.  A dot may be the last one where a lambda could end behind it. -/
theorem exists_stretch {source : Text} {tokens before stretch behind : List Token} {first last : Token}
    (hlex : CodeFrames.lex source = .ok tokens) (hsplit : tokens = before ++ (stretch ++ behind))
    (hfirst : first ∈ stretch.head?) (hlast : last ∈ stretch.getLast?)
    (hend : ∀ t ∈ stretch, ¬ t.isEnd)
    (hdot : last.kind = .dot → ∀ t ∈ (code behind).head?, Reading.endsLambdaBody t = true) :
    ∃ text, slice? source first.start last.stop = some text ∧ SplitsInto text first stretch := by
  obtain ⟨front, inside, back, p, r, q, more, hps, rfl, hfront, hinside, hback, rfl, hline, hstart, hstop, -⟩ :=
    exists_walked_stretch hlex hsplit hfirst hlast (hend last (List.mem_of_getLast? hlast))
  have hinside' : Pieced [] inside := hinside.settled hps.right fun t ht hkind =>
    hback.endsLambdaBody (hdot (Option.some.inj (ht.symm.trans hlast) ▸ hkind))
  refine ⟨spelled inside, ?_, ?_⟩
  · have hslice := slice?_append (spelled front) (spelled inside) (spelled back)
    rw [← hstart, ← hstop, hinside.offset_eq, hfront.offset_eq]
    simpa using hslice
  · obtain ⟨ts, hts, -⟩ := hinside'.lex
    have hposition : p = ⟨1 + (first.line - 1), 0 + first.start⟩ := by
      have hle := hfront.line_le
      cases p
      simp only [Position.mk.injEq] at hline hstart hle ⊢
      omega
    have hrun := hinside.tokensFrom_eq hinside'
    rw [List.append_nil, hposition, tokensFrom_shift _ _ hts] at hrun
    obtain ⟨ts, us, rfl, hts', hus⟩ := List.map_eq_append_iff.mp (Except.ok.inj hrun)
    obtain ⟨stop, rfl, hstop'⟩ := List.map_eq_singleton_iff.mp hus
    refine ⟨ts, stop, hts, ?_, ?_, ?_, hts'.symm⟩
    · exact congrArg Token.kind hstop'
    · exact congrArg Token.text hstop'
    · have hplace := congrArg (·.start) hstop'
      have := hinside.offset_eq
      simp [ofText] at hplace
      omega

end Token
end CodeFrames
