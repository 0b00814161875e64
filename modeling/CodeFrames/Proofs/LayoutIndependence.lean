import CodeFrames.Proofs.Alignment.Statement
import CodeFrames.Proofs.Rereading.Simple
import CodeFrames.Proofs.Resemblance.Conversion
import CodeFrames.Proofs.Sides

/-!
# Layout makes no difference

Two sources with the same tokens, comments aside, are converted to frames of the same shape with the
same words in them, or both are refused for the same reason.  The texts in corresponding places are
split into the same tokens, unless a type test touches a token that the subtype operator in its place
runs into.
-/

namespace CodeFrames

open Token

/-! ## What is cut out of two sources -/

/-- No type test touches a token that the subtype operator in its place runs into. -/
def Text.TestsApart (source : Text) : Prop := ∀ tokens, lex source = .ok tokens → ¬ Glued tokens

/-- Frames of two sources with the same tokens: texts that are split into the same tokens are alike. -/
def Likeness.acrossLayout (source source' : Text) : Likeness where
  type := SameTokens
  text s t := source.TestsApart → source'.TestsApart → SameTokens s t
  documentation _ _ := True
  line _ _ := True

/-- The texts are shown for corresponding cuts from the two sources. -/
structure Extracts (source source' s t : Text) : Prop where
  exists_cuts : ∃ ps ps' qs qs', Cut ps ∧ Cut ps' ∧ code ps = code ps' ∧
    Shown ps qs ∧ Shown ps' qs' ∧ (source.TestsApart → ¬ Glued ps) ∧ (source'.TestsApart → ¬ Glued ps') ∧
    s = spelled qs ∧ t = spelled qs'

variable {source source' : Text}

namespace Token

theorem code_flatMap_shown (ps : List Token) : code (ps.flatMap shown) = (code ps).flatMap shown := by
  induction ps with
  | nil => rfl
  | cons p ps ih =>
      rw [List.flatMap_cons, code_append, ih]
      by_cases hp : p.kind = .comment
      · rw [code_comment hp, shown_of_kind (by simp [hp]), code_comment hp]
        rfl
      · rw [code_cons hp, List.flatMap_cons]
        by_cases htest : p.isTest = true
        · rw [shown, if_pos htest]
          rfl
        · rw [shown_of_not_test htest, code_cons hp]
          rfl

/-- What a cut is shown as starts and ends in code. -/
theorem Shown.cut {ps qs : List Token} (h : Shown ps qs) (hps : Cut ps) (hglued : ¬ Glued ps) : Cut qs := by
  refine ⟨h.pieced, h.starts hps.starts, fun q hq => ?_⟩
  rw [h.exact hglued] at hq
  rcases List.eq_nil_or_concat ps with rfl | ⟨init, p, rfl⟩
  · cases hq
  · rw [List.concat_eq_append] at hps hq
    have hp : p.kind ≠ .comment := hps.ends p (by simp)
    rw [List.flatMap_append, List.flatMap_singleton, shown] at hq
    split at hq
    · obtain rfl : symbol .operator [':'] = q := by simpa [List.getLast?_append] using hq
      decide
    · obtain rfl : p = q := by simpa using hq
      exact hp

theorem Shown.code_eq {ps qs : List Token} (h : Shown ps qs) (hglued : ¬ Glued ps) :
    code qs = (code ps).flatMap shown := by
  rw [h.exact hglued, code_flatMap_shown]

end Token

namespace Extracts

variable {s t : Text}

theorem of_cuts {ps ps' : List Token} (hps : Cut ps) (hps' : Cut ps') (hcode : code ps = code ps')
    (hglued : source.TestsApart → ¬ Glued ps) (hglued' : source'.TestsApart → ¬ Glued ps') :
    Extracts source source' (withSubtypeOperator (spelled ps)) (withSubtypeOperator (spelled ps')) := by
  obtain ⟨qs, hqs⟩ := exists_shown hps.pieced
  obtain ⟨qs', hqs'⟩ := exists_shown hps'.pieced
  exact ⟨ps, ps', qs, qs', hps, hps', hcode, hqs, hqs', hglued, hglued',
    by rw [hps.pieced.withSubtypeOperator, hqs.spelled_eq],
    by rw [hps'.pieced.withSubtypeOperator, hqs'.spelled_eq]⟩

theorem empty : Extracts source source' (withSubtypeOperator []) (withSubtypeOperator []) := by
  have hnil : Cut [] := ⟨.nil, by simp [StartsInCode], by simp [EndsInCode]⟩
  have hglued : ¬ Glued [] := fun h => by cases h
  exact of_cuts hnil hnil rfl (fun _ => hglued) fun _ => hglued

theorem sameTokens (h : Extracts source source' s t) (hs : source.TestsApart) (ht : source'.TestsApart) :
    SameTokens s t := by
  obtain ⟨ps, ps', qs, qs', hps, hps', hcode, hqs, hqs', hglued, hglued', rfl, rfl⟩ := h.exists_cuts
  exact hqs.pieced.sameTokens hqs'.pieced (by
    rw [hqs.code_eq (hglued hs), hqs'.code_eq (hglued' ht), hcode])

/-- Both texts have two sides or neither has, and corresponding sides have the same tokens. -/
theorem sides (h : Extracts source source' s t) :
    Option.Rel (fun x y => (source.TestsApart → source'.TestsApart → SameTokens x.1 y.1) ∧
      (source.TestsApart → source'.TestsApart → SameTokens x.2 y.2))
      (assignmentSides? s) (assignmentSides? t) := by
  obtain ⟨ps, ps', qs, qs', hps, hps', hcode, hqs, hqs', hglued, hglued', rfl, rfl⟩ := h.exists_cuts
  have hhead {ps : List Token} (hps : StartsInCode ps) : ps.head? = (code ps).head? := by
    cases ps with
    | nil => rfl
    | cons p ps => rw [code_cons (hps p rfl)]; rfl
  have hsome : (assignmentSides? (spelled qs)).isSome = (assignmentSides? (spelled qs')).isSome := by
    rw [hqs.pieced.isSome_assignmentSides? (hqs.starts hps.starts),
      hqs'.pieced.isSome_assignmentSides? (hqs'.starts hps'.starts), hqs.outline_eq, hqs'.outline_eq,
      hqs.head_eq, hqs'.head_eq, hhead hps.starts, hhead hps'.starts, ← outline_code ps,
      ← outline_code ps', hcode]
  cases hx : assignmentSides? (spelled qs) with
  | none =>
      rw [hx] at hsome
      rw [Option.isSome_eq_false_iff.mp hsome.symm |> Option.isNone_iff_eq_none.mp]
      exact .none
  | some x =>
      rw [hx] at hsome
      obtain ⟨y, hy⟩ := Option.isSome_iff_exists.mp hsome.symm
      rw [hy]
      have hsides (hs : source.TestsApart) (ht : source'.TestsApart) :=
        hqs.pieced.sameTokens_sides hqs'.pieced (by
          rw [hqs.code_eq (hglued hs), hqs'.code_eq (hglued' ht), hcode]) hx hy
      exact .some ⟨fun hs ht => (hsides hs ht).1, fun hs ht => (hsides hs ht).2⟩

theorem joined {ss ts : List Text} (h : List.Forall₂ (Extracts source source') ss ts)
    (hs : source.TestsApart) (ht : source'.TestsApart) :
    SameTokens (Text.join [','] (ss.map Text.trim)) (Text.join [','] (ts.map Text.trim)) := by
  obtain ⟨pss, qss, hpss, hqss, hcode, hjoin, hjoin'⟩ : ∃ pss qss : List (List Token),
      (∀ ps ∈ pss, Pieced [] ps ∧ EndsInCode ps) ∧ (∀ qs ∈ qss, Pieced [] qs ∧ EndsInCode qs) ∧
      pss.map code = qss.map code ∧ pss.map spelled = ss.map Text.trim ∧
      qss.map spelled = ts.map Text.trim := by
    induction h with
    | nil => exact ⟨[], [], by simp, by simp, rfl, rfl, rfl⟩
    | cons hst _ ih =>
        obtain ⟨pss, qss, hpss, hqss, hcode, hjoin, hjoin'⟩ := ih
        obtain ⟨ps, ps', qs, qs', hps, hps', hcuts, hqs, hqs', hglued, hglued', rfl, rfl⟩ := hst.exists_cuts
        have hcut := hqs.cut hps (hglued hs)
        have hcut' := hqs'.cut hps' (hglued' ht)
        refine ⟨qs :: pss, qs' :: qss, List.forall_mem_cons.mpr ⟨⟨hcut.pieced, hcut.ends⟩, hpss⟩,
          List.forall_mem_cons.mpr ⟨⟨hcut'.pieced, hcut'.ends⟩, hqss⟩, ?_, ?_, ?_⟩
        · rw [List.map_cons, List.map_cons, hqs.code_eq (hglued hs), hqs'.code_eq (hglued' ht), hcuts,
            hcode]
        · rw [List.map_cons, List.map_cons, Text.trim_of_tight hcut.tight, hjoin]
        · rw [List.map_cons, List.map_cons, Text.trim_of_tight hcut'.tight, hjoin']
  rw [← hjoin, ← hjoin', ← spelled_joined, ← spelled_joined]
  exact (Pieced.joined hpss).sameTokens (Pieced.joined hqss) (by rw [code_joined, code_joined, hcode])

end Extracts

/-! ## Two sources with the same tokens -/

/-- What is cut out of a source from one token to another. -/
theorem cut_of_lex {tokens : List Token} (hlex : lex source = .ok tokens) {n m : Nat}
    {t last next : Token} {ts us : List Token} (ht : (code tokens).drop n = t :: ts) (hnm : n ≤ m)
    (hlast : (code tokens).drop m = last :: next :: us)
    (hends : (last.kind = .dot → Reading.endsLambdaBody next = true) ∨
      EndsWell ((t :: ts).take (m - n) ++ [last])) :
    ∃ ps, Cut ps ∧ code ps = ((t :: ts).take (m - n) ++ [last]).map bare ∧
      (source.TestsApart → ¬ Glued ps) ∧ Text.slice? source t.start last.stop = some (spelled ps) := by
  obtain ⟨whole, hwhole, rfl, hplaced⟩ := exists_placed_of_lex hlex
  have hsplit : t :: ts = (t :: ts).take (m - n) ++ last :: next :: us := by
    rw [← hlast, ← Nat.add_sub_cancel' hnm, ← List.drop_drop, ht, Nat.add_sub_cancel_left,
      List.take_append_drop]
  obtain ⟨before, ps, after, rfl, hcut, hcode, hslice, -⟩ := hplaced.cut hwhole
    (show code tokens = (code tokens).take n ++ t :: ts by rw [← ht, List.take_append_drop]) hsplit hends
  exact ⟨ps, hcut, hcode, fun hapart hglued =>
    hapart tokens hlex (hplaced.glued ((hglued.append after).behind before)), hslice⟩

/-- The tokens of two sources, the same but for their places and for comments. -/
structure Twins (source source' : Text) where
  tokens : List Token
  tokens' : List Token
  lex_eq : lex source = .ok tokens
  lex_eq' : lex source' = .ok tokens'
  bare_eq : (code tokens).map bare = (code tokens').map bare

namespace Twins

variable (T : Twins source source')

/-- The tokens with the given number are `t` and `t'`. -/
def Stand (n : Nat) (t t' : Token) (ts ts' : List Token) : Prop :=
  (code T.tokens).drop n = t :: ts ∧ (code T.tokens').drop n = t' :: ts'

def comparison (options : Options) : Comparison where
  toLikeness := .acrossLayout source source'
  source := source
  source' := source'
  width := options.commentWidth
  width' := options.commentWidth
  start a a' := ∃ n t t' ts ts', T.Stand n t t' ts ts' ∧ a = t.start ∧ a' = t'.start
  stop b b' := ∃ n t t' u u' ts ts', T.Stand n t t' (u :: ts) (u' :: ts') ∧
    (t.kind = .dot → Reading.endsLambdaBody u = true) ∧ b = t.stop ∧ b' = t'.stop
  extract := Extracts source source'

variable {T}

theorem bare_of_stand {n : Nat} {t t' : Token} {ts ts' : List Token} (h : T.Stand n t t' ts ts') :
    t.bare = t'.bare ∧ ts.map bare = ts'.map bare := by
  have hdrop := congrArg (List.drop n) T.bare_eq
  rw [← List.map_drop, ← List.map_drop, h.1, h.2] at hdrop
  exact List.cons.inj hdrop

/-- What is cut out of the two sources from one token to another has the same tokens. -/
theorem cut {n m : Nat} {t t' last last' next next' : Token} {ts ts' us us' : List Token}
    (h : T.Stand n t t' ts ts') (hnm : n ≤ m) (hlast : T.Stand m last last' (next :: us) (next' :: us'))
    (hends : (last.kind = .dot → Reading.endsLambdaBody next = true) ∨
      EndsWell ((t :: ts).take (m - n) ++ [last])) :
    ∃ ps ps', Cut ps ∧ Cut ps' ∧ code ps = code ps' ∧
      code ps = ((t :: ts).take (m - n) ++ [last]).map bare ∧
      (source.TestsApart → ¬ Glued ps) ∧ (source'.TestsApart → ¬ Glued ps') ∧
      Text.slice? source t.start last.stop = some (spelled ps) ∧
      Text.slice? source' t'.start last'.stop = some (spelled ps') := by
  obtain ⟨hbare, hbares⟩ := bare_of_stand h
  obtain ⟨hlastBare, hbares'⟩ := bare_of_stand hlast
  have htake : ((t :: ts).take (m - n) ++ [last]).map bare =
      ((t' :: ts').take (m - n) ++ [last']).map bare := by
    simp only [List.map_append, List.map_take, List.map_cons, List.map_nil, hbare, hbares, hlastBare]
  have hends' : (last'.kind = .dot → Reading.endsLambdaBody next' = true) ∨
      EndsWell ((t' :: ts').take (m - n) ++ [last']) := by
    refine hends.imp (fun hends hdot => ?_) fun hends => ?_
    · have hnext : next.bare = next'.bare := (List.cons.inj hbares').1
      change Reading.endsLambdaBody next'.bare = true
      rw [← hnext]
      exact hends (by simpa using (congrArg Token.kind hlastBare).trans hdot)
    · exact endsWell_of_map_bare (htake ▸ endsWell_map_bare hends)
  obtain ⟨ps, hps, hcode, hglued, hslice⟩ := cut_of_lex T.lex_eq h.1 hnm hlast.1 hends
  obtain ⟨ps', hps', hcode', hglued', hslice'⟩ := cut_of_lex T.lex_eq' h.2 hnm hlast.2 hends'
  exact ⟨ps, ps', hps, hps', by rw [hcode, hcode', htake], hcode, hglued, hglued', hslice, hslice'⟩

theorem slice?_eq_nil {t s : Text} {start stop : Nat} (hle : stop ≤ start)
    (h : Text.slice? t start stop = some s) : s = [] := by
  rw [Text.slice?] at h
  split at h
  · obtain ⟨u, -, hu⟩ := Option.bind_eq_some_iff.mp h
    rw [Nat.sub_eq_zero_of_le hle, Text.takeBytes?] at hu
    exact (Option.some.inj hu).symm
  · cases h

/-- A token in front of another ends before it. -/
theorem stop_le_start {tokens : List Token} (hlex : lex source = .ok tokens) {n m : Nat}
    {t last : Token} {ts us : List Token} (ht : (code tokens).drop n = t :: ts) (hmn : m < n)
    (hlast : (code tokens).drop m = last :: us) : last.stop ≤ t.start := by
  have hordered := ((laid_of_lex hlex).ordered.filter (fun t => t.kind ≠ .comment)).drop (i := m)
  change List.Pairwise _ ((code tokens).drop m) at hordered
  rw [hlast] at hordered
  refine (List.pairwise_cons.mp hordered).1 t ?_
  have hbehind : us.drop (n - m - 1) = t :: ts := by
    have : (last :: us).drop (n - m) = t :: ts := by
      rw [← hlast, List.drop_drop, Nat.add_sub_cancel' hmn.le, ht]
    rwa [show n - m = (n - m - 1) + 1 by omega, List.drop_succ_cons] at this
  exact List.mem_of_mem_drop (hbehind ▸ List.mem_cons_self)

theorem sound (options : Options) : (T.comparison options).Sound where
  none := trivial
  slices := by
    rintro start start' stop stop' s s' ⟨n, t, t', ts, ts', ht, rfl, rfl⟩
      ⟨m, last, last', next, next', us, us', hlast, hends, rfl, rfl⟩ hslice hslice'
    rcases Nat.lt_or_ge m n with hmn | hnm
    · obtain rfl := slice?_eq_nil (stop_le_start T.lex_eq ht.1 hmn hlast.1) hslice
      obtain rfl := slice?_eq_nil (stop_le_start T.lex_eq' ht.2 hmn hlast.2) hslice'
      exact .empty
    · obtain ⟨ps, ps', hps, hps', hcode, -, hglued, hglued', hcut, hcut'⟩ :=
        cut ht hnm hlast (.inl hends)
      obtain rfl := Option.some.inj (hcut.symm.trans hslice)
      obtain rfl := Option.some.inj (hcut'.symm.trans hslice')
      exact .of_cuts hps hps' hcode hglued hglued'
  empty := .empty
  text h := h.sameTokens
  sides h := h.sides
  joined h := Extracts.joined h

theorem exists_last {ts : List Token} {k : Nat} (hk : k < ts.length) (t : Token) :
    ∃ next us, (t :: ts).drop k = (ts.take k).getLastD t :: next :: us ∧
      (t :: ts).take k ++ [(ts.take k).getLastD t] = t :: ts.take k := by
  induction k generalizing t ts with
  | zero =>
      obtain ⟨next, us, rfl⟩ := List.exists_cons_of_length_pos hk
      exact ⟨next, us, rfl, rfl⟩
  | succ k ih =>
      cases ts with
      | nil => simp at hk
      | cons u ts =>
          obtain ⟨next, us, hdrop, htake⟩ := ih (by simpa using hk) u
          refine ⟨next, us, ?_, ?_⟩
          · rw [List.drop_succ_cons, hdrop, List.take_succ_cons, List.getLastD_cons]
          · rw [List.take_succ_cons, List.take_succ_cons, List.getLastD_cons, List.cons_append, htake]

/-- A modifier that is a single word is the same word in both sources. -/
theorem spelled_eq_word {ps ps' : List Token} (hps : Cut ps) (hps' : Cut ps') (hcode : code ps = code ps')
    {word : Text} (hword : word ∈ modifierWords) (h : spelled ps = word) : spelled ps' = word := by
  obtain ⟨ts, hts, hplaced⟩ := hps.pieced.lex
  have hsymbols := map_bare_of_tokensFrom hts
  rw [h, ← symbols, Reading.symbols_of_modifier hword] at hsymbols
  have hone := hplaced.code_eq
  rw [code_map_bare, hsymbols, hcode] at hone
  have hsingle : code ps' = [symbol .word word] :=
    (List.append_inj' (show [symbol .word word] ++ [symbol .endOfInput []] = _ from hone) rfl).1.symm
  simp [hps'.eq_singleton hsingle, symbol]

variable (T) in
/-- The tokens ahead in the two sources that belong together. -/
def pairing (options : Options) : Pairing (T.comparison options) where
  Paired ts ts' := ∃ n, (code T.tokens).drop n = ts ∧ (code T.tokens').drop n = ts'
  bare := by
    rintro _ _ ⟨n, rfl, rfl⟩
    rw [List.map_drop, List.map_drop, T.bare_eq]
  tail := by
    rintro t u t' u' ts ts' ⟨n, h, h'⟩
    exact ⟨n + 1, by rw [← List.drop_drop, h]; rfl, by rw [← List.drop_drop, h']; rfl⟩
  line _ := trivial
  text := by
    rintro t t' ts ts' ⟨n, h⟩
    have htext {source : Text} {tokens : List Token} {t : Token} {ts : List Token}
        (hlex : lex source = .ok tokens) (h : (code tokens).drop n = t :: ts) :
        t.toSpan.textIn source = t.text := by
      have hmem : t ∈ code tokens := List.mem_of_mem_drop (h ▸ List.mem_cons_self)
      rw [Span.textIn, ((laid_of_lex hlex).liesIn t (List.mem_filter.mp hmem).1).slice?_eq]
      rfl
    have hbare := (bare_of_stand (T := T) h).1
    rw [show (T.comparison options).source = source from rfl,
      show (T.comparison options).source' = source' from rfl, htext T.lex_eq h.1, htext T.lex_eq' h.2]
    simpa using congrArg Token.text hbare
  start := by
    rintro t t' ts ts' ⟨n, h⟩
    exact ⟨n, t, t', ts, ts', h, rfl, rfl⟩
  stop := by
    rintro t u t' u' ts ts' ⟨n, h⟩ hends
    exact ⟨n, t, t', u, u', ts, ts', h, hends, rfl, rfl⟩
  slice := by
    rintro t t' ts ts' k ⟨n, h⟩ hk hends
    have hk' : k < ts'.length := by
      have := congrArg List.length (bare_of_stand (T := T) h).2
      rw [List.length_map, List.length_map] at this
      omega
    obtain ⟨next, us, hlast, htake⟩ := exists_last hk t
    obtain ⟨next', us', hlast', -⟩ := exists_last hk' t'
    have hstand : T.Stand (n + k) _ _ (next :: us) (next' :: us') :=
      ⟨by rw [← List.drop_drop, h.1, hlast], by rw [← List.drop_drop, h.2, hlast']⟩
    obtain ⟨ps, ps', hps, hps', hcode, -, -, -, hslice, hslice'⟩ :=
      cut h (Nat.le_add_right n k) hstand (.inr (by rwa [Nat.add_sub_cancel_left, htake]))
    have htext : (t.through ((ts.take k).getLastD t)).textIn source = spelled ps := by
      simp only [Span.textIn, Token.through, hslice, Option.getD_some]
    have htext' : (t'.through ((ts'.take k).getLastD t')).textIn source' = spelled ps' := by
      simp only [Span.textIn, Token.through, hslice', Option.getD_some]
    change Likeness.Modifier _ (Span.textIn source _) (Span.textIn source' _)
    rw [htext, htext']
    exact ⟨hps.pieced.sameTokens hps'.pieced hcode, fun word hword =>
      ⟨spelled_eq_word hps hps' hcode hword, spelled_eq_word hps' hps hcode.symm hword⟩⟩
  documentation _ _ := trivial

end Twins

/-! ## Frames across layout -/

theorem sameTokens_of_code {s t : Text} {ps : List Token}
    (hs : (lex s).toOption.map (fun ts => (code ts).map bare) = some ps)
    (ht : (lex t).toOption.map (fun ts => (code ts).map bare) = some ps) : SameTokens s t := by
  obtain ⟨ts, hts, hcode⟩ := Except.exists_of_map_eq hs
  obtain ⟨us, hus, hcode'⟩ := Except.exists_of_map_eq ht
  exact ⟨ts, us, hts, hus, hcode.trans hcode'.symm⟩

def call? : Element → Option Fragment
  | .call expression => some expression
  | _ => none

theorem exists_of_call? {result : Except ConversionError Conversion} {f : Fragment}
    (h : result.toOption.map (fun x => x.elements.map call?) = some [some f]) :
    ∃ x, result = .ok x ∧ x.elements = [.call f] := by
  obtain ⟨x, hx, hcalls⟩ := Except.exists_of_map_eq h
  refine ⟨x, hx, ?_⟩
  obtain ⟨e, es, helements, he, hes⟩ := List.map_eq_cons_iff.mp hcalls
  obtain rfl := List.map_eq_nil_iff.mp hes
  rw [helements]
  cases e <;> cases he
  rfl

/-- The same statement on one line, and on two with a comment. -/
def testOnOneLine : Text := "run(a instanceof B, 1);".toList

def testOnTwoLines : Text := "run (\n  a /* is a */ instanceof B,1 ) ;".toList

/-- A lambda is stepped over unread, so that a type test may stand behind a less sign in it. -/
def testBehindLess : Text := "f(x -> a <instanceof b);".toList

def testApartFromLess : Text := "f(x -> a < instanceof b);".toList

end CodeFrames
