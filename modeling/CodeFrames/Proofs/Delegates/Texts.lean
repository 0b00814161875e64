import CodeFrames.Proofs.Delegates.Arguments
import CodeFrames.Proofs.LayoutIndependence
import CodeFrames.Proofs.SubtypeOperator

/-!
# The texts of the arguments

The text of an argument is cut out between two tokens, so trimming takes nothing away from it, and the
texts with commas between them are split into the tokens of the arguments and the commas, unless a type
test touches a token that the subtype operator in its place runs into.
-/

namespace CodeFrames

namespace Token

theorem Placed.exists_code {n : Nat} {p : Token} {ps ts : List Token} (h : Placed n (p :: ps) ts)
    (hp : p.kind ≠ .comment) :
    ∃ t us, code ts = t :: code us ∧ t.bare = p ∧ t.start = n ∧ Placed t.stop ps us := by
  cases h with
  | blank => exact absurd rfl hp
  | token _ hstart _ h => exact ⟨_, _, code_cons (by simpa using hp) _, rfl, hstart, h⟩

/-- Type tests that are glued among the first pieces are glued among the first tokens. -/
theorem Placed.glued_front {n : Nat} {ps after ts : List Token} (h : Placed n (ps ++ after) ts)
    (hps : Glued ps) : Glued ((code ts).take (code ps).length) := by
  have hcommented {p : Token} {kind : Kind} (hp : p.kind = kind) (hkind : kind ≠ .comment) :
      p.kind ≠ .comment := hp ▸ hkind
  induction hps generalizing n ts with
  | behindLess hless _ htest =>
      have hkind := hcommented (Reading.kind_of_isOperator hless) (by decide)
      have hword := hcommented (isTest_symbol htest).1 (by decide)
      obtain ⟨t, us, hcode, rfl, -, h⟩ := h.exists_code hkind
      obtain ⟨u, vs, hcode', rfl, hplace, -⟩ := h.exists_code hword
      rw [code_cons hkind, code_cons hword, hcode, hcode']
      exact .behindLess hless hplace.symm htest
  | behindNumber hnumber _ hdot _ htest =>
      have hkind := hcommented hnumber (by decide)
      have hkind' := hcommented hdot (by decide)
      have hword := hcommented (isTest_symbol htest).1 (by decide)
      obtain ⟨t, us, hcode, rfl, -, h⟩ := h.exists_code hkind
      obtain ⟨d, vs, hcode', rfl, hplace, h⟩ := h.exists_code hkind'
      obtain ⟨u, ws, hcode'', rfl, hplace', -⟩ := h.exists_code hword
      rw [code_cons hkind, code_cons hkind', code_cons hword, hcode, hcode', hcode'']
      exact .behindNumber hnumber hplace.symm hdot hplace'.symm htest
  | beforeColon htest _ hcolon =>
      have hword := hcommented (isTest_symbol htest).1 (by decide)
      have hkind := hcommented (Reading.kind_of_isOperatorIn hcolon) (by decide)
      obtain ⟨t, us, hcode, rfl, -, h⟩ := h.exists_code hword
      obtain ⟨u, vs, hcode', rfl, hplace, -⟩ := h.exists_code hkind
      rw [code_cons hword, code_cons hkind, hcode, hcode']
      exact .beforeColon htest hplace.symm hcolon
  | later _ ih =>
      cases h with
      | blank _ h => exact ih h
      | @token _ t _ ts _ _ _ h =>
          by_cases hkind : t.kind = .comment
          · rw [code_comment hkind, code_comment (by simpa using hkind)]
            exact ih h
          · rw [code_cons hkind, code_cons (by simpa using hkind)]
            exact .later (ih h)

/-- A comma is always written the same way. -/
theorem Pieced.eq_comma {u : Text} {ps : List Token} (h : Pieced u ps) :
    ∀ p ∈ ps, p.kind = .comma → p = symbol .comma [','] := by
  induction h with
  | nil => simp
  | blank _ _ ih => exact List.forall_mem_cons.mpr ⟨nofun, ih⟩
  | token hlexeme _ ih =>
      refine List.forall_mem_cons.mpr ⟨fun hkind => ?_, ih⟩
      obtain rfl : _ = Kind.comma := hkind
      have hpunctuation := punctuation_of_lexeme hlexeme (by decide)
      unfold punctuation? at hpunctuation
      split at hpunctuation <;> simp at hpunctuation
      simp_all

theorem bare_of_comma {source : Text} {tokens : List Token} (hlex : lex source = .ok tokens) {t : Token}
    (ht : t ∈ code tokens) (hkind : t.kind = .comma) : t.bare = symbol .comma [','] := by
  obtain ⟨ps, hps, -, hplaced⟩ := exists_placed_of_lex hlex
  have hbare : t.bare ∈ code ps ++ [symbol .endOfInput []] :=
    hplaced.code_eq ▸ List.mem_map_of_mem ht
  rcases List.mem_append.mp hbare with hmem | hend
  · exact hps.eq_comma t.bare (List.mem_filter.mp hmem).1 hkind
  · have hstop := congrArg Token.kind (List.mem_singleton.mp hend)
    rw [bare_kind, hkind] at hstop
    cases hstop

end Token

open Token

namespace Reading

variable {source : Text} {inner : Enclosed} {tokens passed argument behind between : List Token}
  {arguments : List (List Token)}

/-- The text of an argument is cut out of the source between two of its tokens. -/
theorem ReadsOff.exists_cut (h : ReadsOff source inner argument behind) (hinner : inner.Bounding source)
    (hlex : lex source = .ok tokens) (hcode : code tokens = passed ++ (argument ++ behind)) :
    ∃ ps, Cut ps ∧ code ps = argument.map bare ∧ (Glued ps → Glued argument) ∧
      textOf source argument = spelled ps := by
  obtain ⟨c, d, events, hc, htokens, rfl, hrun⟩ := h
  obtain ⟨argument', hne, ⟨hspans, hbefore⟩, hsettled, -⟩ := exists_of_expression hinner hc hrun
  obtain rfl : argument' = argument := List.append_cancel_right (hspans.symm.trans htokens)
  obtain ⟨t, ts, rfl⟩ := List.exists_cons_of_ne_nil hne
  rw [List.getLastD_cons] at hbefore
  have hlast : t :: ts = (t :: ts).dropLast ++ [d.before] := by
    have := List.dropLast_append_getLast hne
    rw [@List.getLast_eq_getLastD _ t] at this
    rw [hbefore]
    exact this.symm
  have hsplit : t :: (ts ++ d.tokens) = (t :: ts).dropLast ++ d.before :: d.here :: d.ahead := by
    rw [← List.cons_append, hlast, List.append_assoc, ← hlast]
    rfl
  obtain ⟨whole, hwhole, rfl, hplaced⟩ := exists_placed_of_lex hlex
  obtain ⟨before, ps, after, rfl, hcut, hps, hslice, us, hfront, hus⟩ :=
    hplaced.cut hwhole hcode hsplit (.inl hsettled)
  rw [← hlast] at hps
  refine ⟨ps, hcut, hps, fun hglued => ?_, ?_⟩
  · have htake := hfront.glued_front hglued
    rw [hus, hps, List.length_map] at htake
    rwa [show t :: ts.append d.tokens = (t :: ts) ++ d.tokens from rfl, List.take_left] at htake
  · rw [textOf, ← hbefore, textThrough, hslice, Option.getD_some]

/-- Trimming takes nothing away from the text of an argument. -/
theorem ReadsOff.trim_shownText (h : ReadsOff source inner argument behind)
    (hinner : inner.Bounding source) (hlex : lex source = .ok tokens)
    (hcode : code tokens = passed ++ (argument ++ behind)) :
    Text.trim (shownText source argument) = shownText source argument := by
  obtain ⟨ps, hcut, -, -, htext⟩ := h.exists_cut hinner hlex hcode
  rw [shownText, htext, hcut.pieced.withSubtypeOperator]
  exact Text.trim_of_tight (hcut.pieced.isTight_shown hcut.tight)

/-- The text of an argument whose type tests are apart has the tokens of the argument. -/
theorem ReadsOff.exists_shown (h : ReadsOff source inner argument behind) (hinner : inner.Bounding source)
    (hlex : lex source = .ok tokens) (hcode : code tokens = passed ++ (argument ++ behind))
    (hglued : ¬ Glued argument) :
    ∃ qs, Cut qs ∧ spelled qs = shownText source argument ∧ code qs = (argument.map bare).flatMap shown := by
  obtain ⟨ps, hcut, hps, hlocal, htext⟩ := h.exists_cut hinner hlex hcode
  have hapart : ¬ Glued ps := fun hmore => hglued (hlocal hmore)
  obtain ⟨qs, hqs⟩ := Token.exists_shown hcut.pieced
  refine ⟨qs, hqs.cut hcut hapart, ?_, by rw [hqs.code_eq hapart, hps]⟩
  rw [hqs.spelled_eq, shownText, htext, hcut.pieced.withSubtypeOperator]

namespace ArgumentList

/-- Each argument of a list stands somewhere between the parentheses. -/
theorem exists_of_mem (h : ArgumentList source inner behind arguments between) (hmem : argument ∈ arguments) :
    ∃ front rest, between ++ behind = front ++ (argument ++ rest) ∧ ReadsOff source inner argument rest := by
  induction h with
  | none => cases hmem
  | last hreads =>
      obtain rfl := List.mem_singleton.mp hmem
      exact ⟨[], behind, rfl, hreads⟩
  | @more first next tokens arguments comma hreads _ _ ih =>
      rcases List.mem_cons.mp hmem with rfl | hmem
      · exact ⟨[], comma :: (tokens ++ behind), by simp, hreads⟩
      · obtain ⟨front, rest, hsplit, hreads⟩ := ih hmem
        exact ⟨first ++ comma :: front, rest, by simp [hsplit], hreads⟩

theorem argumentTexts_eq (h : ArgumentList source inner behind arguments between)
    (hinner : inner.Bounding source) (hlex : lex source = .ok tokens)
    (hcode : code tokens = passed ++ (between ++ behind)) :
    argumentTexts source arguments = arguments.map (shownText source) := by
  refine List.map_congr_left fun argument hmem => ?_
  obtain ⟨front, rest, hsplit, hreads⟩ := h.exists_of_mem hmem
  exact hreads.trim_shownText hinner hlex (by rw [hcode, hsplit, List.append_assoc])

/-- The texts of the arguments in pieces. -/
theorem exists_pieces (h : ArgumentList source inner behind arguments between)
    (hinner : inner.Bounding source) (hlex : lex source = .ok tokens)
    (hcode : code tokens = passed ++ (between ++ behind)) (hglued : ¬ Glued between) :
    ∃ pss, (∀ ps ∈ pss, Pieced [] ps ∧ EndsInCode ps) ∧
      pss.map spelled = arguments.map (shownText source) ∧
      code (joined pss) = (between.map bare).flatMap shown := by
  induction h generalizing passed with
  | none => exact ⟨[], by simp, rfl, rfl⟩
  | last hreads =>
      obtain ⟨qs, hcut, htext, hqs⟩ := hreads.exists_shown hinner hlex hcode hglued
      exact ⟨[qs], by simpa using ⟨hcut.pieced, hcut.ends⟩, by simp [htext], hqs⟩
  | @more argument next between arguments comma hreads hcomma _ ih =>
      have hfirst : code tokens = passed ++ (argument ++ comma :: (between ++ behind)) := by
        rw [hcode, List.append_assoc, List.cons_append]
      have hrest : code tokens = (passed ++ (argument ++ [comma])) ++ (between ++ behind) := by
        rw [hfirst]
        simp
      obtain ⟨qs, hcut, htext, hqs⟩ :=
        hreads.exists_shown hinner hlex hfirst fun hmore => hglued (hmore.append _)
      obtain ⟨pss, hpss, htexts, hjoined⟩ :=
        ih hrest fun hmore => hglued (by simpa using hmore.behind (argument ++ [comma]))
      obtain ⟨ps, pss, rfl⟩ := List.exists_cons_of_length_pos (l := pss) (by
        rw [← List.length_map spelled, htexts, List.length_map]
        exact Nat.succ_pos _)
      have hmark : comma.bare = symbol .comma [','] :=
        bare_of_comma hlex (by rw [hfirst]; simp) hcomma
      refine ⟨qs :: ps :: pss, List.forall_mem_cons.mpr ⟨⟨hcut.pieced, hcut.ends⟩, hpss⟩, ?_, ?_⟩
      · rw [List.map_cons, htext, htexts]
        rfl
      · rw [joined, code_append, code_cons (by simp [symbol]), hqs, hjoined, List.map_append,
          List.flatMap_append, List.map_cons, List.flatMap_cons, hmark, shown_of_kind (by simp [symbol])]
        · rfl
        · simp

/-- The texts of the arguments with commas between them are split into the tokens between the
parentheses, with the subtype operator in place of each type test. -/
theorem lex_join (h : ArgumentList source inner behind arguments between) (hinner : inner.Bounding source)
    (hlex : lex source = .ok tokens) (hcode : code tokens = passed ++ (between ++ behind))
    (hglued : ¬ Glued between) :
    ∃ ts, lex (Text.join [','] (arguments.map (shownText source))) = .ok ts ∧
      (code ts).map bare = (between.map bare).flatMap shown ++ [symbol .endOfInput []] := by
  obtain ⟨pss, hpss, htexts, hjoined⟩ := h.exists_pieces hinner hlex hcode hglued
  obtain ⟨ts, hts, hplaced⟩ := (Pieced.joined hpss).lex
  rw [spelled_joined, htexts] at hts
  exact ⟨ts, hts, by rw [hplaced.code_eq, hjoined]⟩

end ArgumentList

end Reading

end CodeFrames
