import CodeFrames.Proofs.Brackets.Expression

/-!
# Groups among nested brackets

Where the brackets of a source nest by kind, a group that is counted without regard to kinds is the
one that its opening bracket begins, and an expression leaves as many parentheses and braces open as
were open in front of it.
-/

namespace CodeFrames

namespace Token

/-! ## Groups as pieces -/

/-- The tokens lead to the end of a group, with `depth` groups open in front of them. -/
inductive Closing : Nat → List Token → Prop
  | opener {depth t ps} : t.kind.isOpener → Closing (depth + 1) ps → Closing depth (t :: ps)
  | closer {depth t ps} : ¬ t.kind.isOpener → t.kind.isCloser → Closing (depth + 1) ps →
      Closing (depth + 2) (t :: ps)
  | last {t} : ¬ t.kind.isOpener → t.kind.isCloser → Closing 1 [t]
  | plain {depth t ps} : ¬ t.kind.isOpener → ¬ t.kind.isCloser → ¬ t.isEnd → Closing depth ps →
      Closing depth (t :: ps)

variable {depth n : Nat} {t : Token} {ps qs ts us : List Token}

theorem Closing.ne_nil (h : Closing depth ps) : ps ≠ [] := by
  cases h <;> exact List.cons_ne_nil _ _

/-- The length of a group counts the tokens that lead to its end. -/
theorem groupLengthFrom?_eq_some :
    groupLengthFrom? depth ts = some n ↔ ∃ ps us, ts = ps ++ us ∧ ps.length = n ∧ Closing depth ps := by
  constructor
  · intro h
    induction ts generalizing depth n with
    | nil => cases h
    | cons t ts ih =>
        have hnext {depth depth' : Nat} (h : (groupLengthFrom? depth ts).map (· + 1) = some n)
            (hstep : ∀ {ps}, Closing depth ps → Closing depth' (t :: ps)) :
            ∃ ps us, t :: ts = ps ++ us ∧ ps.length = n ∧ Closing depth' ps := by
          obtain ⟨m, hm, rfl⟩ := Option.map_eq_some_iff.mp h
          obtain ⟨ps, us, rfl, rfl, hps⟩ := ih hm
          exact ⟨t :: ps, us, rfl, rfl, hstep hps⟩
        rw [groupLengthFrom?.eq_def] at h
        simp only at h
        split at h
        · next hopener => exact hnext h fun hps => .opener hopener hps
        · next hopener =>
            split at h
            · next hcloser =>
                split at h
                · cases h
                · obtain rfl : 1 = n := by simpa using h
                  exact ⟨[t], ts, rfl, rfl, .last hopener hcloser⟩
                · exact hnext h fun hps => .closer hopener hcloser hps
            · next hcloser =>
                split at h
                · cases h
                · next hend => exact hnext h fun hps => .plain hopener hcloser hend hps
  · rintro ⟨ps, us, rfl, rfl, h⟩
    induction h with
    | opener hopener _ ih => rw [List.cons_append, groupLengthFrom?_opener hopener, ih]; rfl
    | closer hopener hcloser _ ih =>
        rw [List.cons_append, groupLengthFrom?_closer (by simpa using hopener) hcloser, ih]
        rfl
    | last hopener hcloser => rw [List.singleton_append, groupLengthFrom?.eq_def]; simp [hopener, hcloser]
    | plain hopener hcloser hend _ ih =>
        rw [List.cons_append, groupLengthFrom?_plain hopener hcloser hend, ih]
        rfl

theorem exists_of_groupLength? (h : groupLength? ts = some n) :
    ∃ ps us, ts = ps ++ us ∧ ps.length = n ∧ Closing 0 ps := groupLengthFrom?_eq_some.mp h

/-- What follows a group makes no difference to it. -/
theorem groupLength?_append (h : groupLength? ts = some n) (us : List Token) :
    groupLength? (ts ++ us) = some n := by
  obtain ⟨ps, vs, rfl, hn, hps⟩ := exists_of_groupLength? h
  exact groupLengthFrom?_eq_some.mpr ⟨ps, vs ++ us, List.append_assoc .., hn, hps⟩

/-! ## Open brackets behind pieces -/

variable {kinds opened below : List Kind}

theorem openBrackets?_append (kinds : List Kind) (ps us : List Token) :
    openBrackets? kinds (ps ++ us) = (openBrackets? kinds ps).bind (openBrackets? · us) := by
  induction ps generalizing kinds with
  | nil => rfl
  | cons t ps ih =>
      rw [List.cons_append, openBrackets?.eq_def, openBrackets?.eq_def kinds]
      simp only
      split
      · exact ih _
      · split
        · cases kinds with
          | nil => rfl
          | cons kind kinds =>
              simp only
              split
              · exact ih _
              · rfl
        · exact ih _

/-- What is open behind a token, if it may stand there. -/
theorem openBrackets?_cons (kinds : List Kind) (t : Token) (ts : List Token) :
    openBrackets? kinds (t :: ts) = (openBrackets? kinds [t]).bind (openBrackets? · ts) :=
  openBrackets?_append kinds [t] ts

theorem openBrackets?_opener_singleton (h : t.kind.isOpener = true) :
    openBrackets? kinds [t] = some (t.kind :: kinds) := openBrackets?_opener h

theorem openBrackets?_plain_singleton (h : ¬ t.kind.isOpener) (hcloser : ¬ t.kind.isCloser) :
    openBrackets? kinds [t] = some kinds := openBrackets?_plain h hcloser

/-- A closing bracket closes the innermost open one, which is of its kind. -/
theorem exists_of_openBrackets?_closer (h : ¬ t.kind.isOpener) (hcloser : t.kind.isCloser)
    (hopen : openBrackets? kinds [t] = some opened) :
    ∃ kind, kinds = kind :: opened ∧ Kind.matches kind t.kind = true := by
  rw [openBrackets?.eq_def] at hopen
  simp only [h, hcloser, if_false, if_true, Bool.false_eq_true] at hopen
  split at hopen
  · cases hopen
  · next kind kinds =>
      split at hopen
      · next hmatches =>
          obtain rfl : kinds = opened := by simpa [openBrackets?] using hopen
          exact ⟨kind, rfl, hmatches⟩
      · cases hopen

/-- Behind a group the brackets around it are open. -/
theorem openBrackets?_closing (h : Closing depth ps) {inside : List Kind} (hinside : inside.length = depth)
    (hopen : openBrackets? (inside ++ below) ps = some opened) : opened = below := by
  induction h generalizing inside with
  | opener hopener _ ih =>
      rw [openBrackets?_opener hopener] at hopen
      exact ih (by simp [hinside]) (show openBrackets? ((_ :: inside) ++ below) _ = _ from hopen)
  | closer hopener hcloser _ ih =>
      rw [openBrackets?_cons] at hopen
      obtain ⟨next, hnext, hrest⟩ := Option.bind_eq_some_iff.mp hopen
      obtain ⟨kind, hkinds, -⟩ := exists_of_openBrackets?_closer hopener hcloser hnext
      obtain ⟨first, inside, rfl⟩ := List.exists_cons_of_length_eq_add_one hinside
      obtain ⟨-, rfl⟩ := List.cons.inj hkinds
      exact ih (by simpa using hinside) hrest
  | last hopener hcloser =>
      obtain ⟨kind, hkinds, -⟩ := exists_of_openBrackets?_closer hopener hcloser hopen
      obtain ⟨first, rfl⟩ := List.length_eq_one_iff.mp hinside
      exact (List.cons.inj hkinds).2.symm
  | plain hopener hcloser _ _ ih =>
      rw [openBrackets?_plain hopener hcloser] at hopen
      exact ih hinside hopen

/-- In front of the end of a group the bracket that opened it is still open. -/
theorem openBrackets?_of_closing_append (h : Closing depth (ps ++ qs)) (hqs : qs ≠ []) {kind : Kind}
    {inside : List Kind} (hinside : inside.length + 1 = depth)
    (hopen : openBrackets? (inside ++ kind :: below) ps = some opened) :
    ∃ inside, opened = inside ++ kind :: below := by
  induction ps generalizing depth inside with
  | nil => exact ⟨inside, (Option.some.inj hopen).symm⟩
  | cons t ps ih =>
      rw [List.cons_append] at h
      generalize hrest : ps ++ qs = rest at h
      cases h with
      | opener hopener h =>
          subst hrest
          rw [openBrackets?_opener hopener] at hopen
          exact ih h (by simp [hinside]) (show openBrackets? ((t.kind :: inside) ++ kind :: below) ps = _ from hopen)
      | closer hopener hcloser h =>
          subst hrest
          rw [openBrackets?_cons] at hopen
          obtain ⟨next, hnext, hopen⟩ := Option.bind_eq_some_iff.mp hopen
          obtain ⟨first, hkinds, -⟩ := exists_of_openBrackets?_closer hopener hcloser hnext
          obtain ⟨_, inside, rfl⟩ := List.exists_cons_of_length_eq_add_one (Nat.succ.inj hinside)
          obtain ⟨-, rfl⟩ := List.cons.inj hkinds
          exact ih h (by simpa using hinside) hopen
      | last => exact absurd (List.append_eq_nil_iff.mp hrest).2 hqs
      | plain hopener hcloser _ h =>
          subst hrest
          rw [openBrackets?_plain hopener hcloser] at hopen
          exact ih h hinside hopen

/-! ## Parentheses and braces -/

/-- The number of open parentheses and braces. -/
def rank (kinds : List Kind) : Nat := kinds.countP (· ≠ .openBracket)

/-- The tokens leave as many parentheses and braces open as were open in front of them. -/
def KeepsRank (ps : List Token) : Prop :=
  ∀ kinds opened, openBrackets? kinds ps = some opened → rank opened = rank kinds

theorem KeepsRank.append (h : KeepsRank ps) (g : KeepsRank qs) : KeepsRank (ps ++ qs) := by
  intro kinds opened hopen
  rw [openBrackets?_append] at hopen
  obtain ⟨between, hps, hqs⟩ := Option.bind_eq_some_iff.mp hopen
  rw [g _ _ hqs, h _ _ hps]

theorem keepsRank_nil : KeepsRank [] := fun _ _ h => by rw [Option.some.inj h]

theorem keepsRank_plain (h : ¬ t.kind.isOpener) (hcloser : ¬ t.kind.isCloser) : KeepsRank [t] :=
  fun kinds opened hopen => by
    rw [openBrackets?_plain_singleton h hcloser] at hopen
    rw [Option.some.inj hopen]

theorem keepsRank_closing (h : Closing 0 ps) : KeepsRank ps := fun kinds opened hopen => by
  rw [openBrackets?_closing h List.length_nil hopen]

/-- In a type there are square brackets only. -/
theorem keepsRank_of_typeKinds (h : ∀ t ∈ ps, t.kind ∈ typeKinds) : KeepsRank ps := by
  induction ps with
  | nil => exact keepsRank_nil
  | cons t ps ih =>
      refine KeepsRank.append (show KeepsRank [t] from ?_) (ih fun u hu => h u (List.mem_cons_of_mem t hu))
      have hkind := h t List.mem_cons_self
      intro kinds opened hopen
      by_cases hopener : t.kind.isOpener
      · rw [openBrackets?_opener_singleton hopener] at hopen
        obtain rfl := Option.some.inj hopen
        have : t.kind = .openBracket := by
          revert hkind hopener
          cases t.kind <;> decide
        simp [rank, this]
      · by_cases hcloser : t.kind.isCloser
        · obtain ⟨kind, rfl, hmatches⟩ := exists_of_openBrackets?_closer hopener hcloser hopen
          have : kind = .openBracket := by
            revert hkind hopener hmatches
            cases t.kind <;> cases kind <;> decide
          simp [rank, this]
        · exact keepsRank_plain hopener hcloser kinds opened hopen

theorem keepsRank_of_kind {kind : Kind} (h : t.kind = kind) (hopener : kind.isOpener = false)
    (hcloser : kind.isCloser = false) : KeepsRank [t] :=
  keepsRank_plain (by rw [h, hopener]; simp) (by rw [h, hcloser]; simp)

theorem KeepsRank.tail_of_word (h : KeepsRank (t :: ps)) (ht : t.kind = .word) : KeepsRank ps :=
  fun kinds opened hopen => h kinds opened <| by
    rwa [openBrackets?_plain (by simp [ht, Kind.isOpener]) (by simp [ht, Kind.isCloser])]

theorem keepsRank_dottedWords (ts : List Token) : KeepsRank (ts.take (dottedWordsLength ts)) := by
  fun_induction dottedWordsLength ts with
  | case1 => exact keepsRank_nil
  | case2 t hword dot ts hdot ih =>
      exact (keepsRank_of_kind (of_decide_eq_true hword) rfl rfl).append
        ((keepsRank_of_kind hdot rfl rfl).append ih)
  | case3 t hword dot ts hdot => exact keepsRank_of_kind (of_decide_eq_true hword) rfl rfl
  | case4 t hword => exact keepsRank_of_kind (of_decide_eq_true hword) rfl rfl
  | case5 t ts hword => exact keepsRank_nil

/-- An annotation is a name, and perhaps a group. -/
theorem keepsRank_annotationRest (ts : List Token) : KeepsRank (ts.take (annotationRestLength ts)) := by
  have hname := keepsRank_dottedWords ts
  rw [annotationRestLength]
  split
  · exact hname
  · next t us hdrop =>
      split
      · cases hgroup : groupLength? (t :: us) with
        | none => exact hname
        | some n =>
            obtain ⟨group, rest, hsplit, rfl, hclosing⟩ := exists_of_groupLength? hgroup
            rw [List.take_add, hdrop, hsplit, Option.getD_some, List.take_left]
            exact hname.append (keepsRank_closing hclosing)
      · exact hname

theorem keepsRank_annotated (ht : t.kind = .atSign) (ts : List Token) :
    KeepsRank ((t :: ts).take (modifierLength (t :: ts))) := by
  rw [modifierLength]
  split
  · next hword =>
      simp [isWordIn, isAnyWord, ht] at hword
  · split
    · exact (keepsRank_of_kind ht rfl rfl).append (keepsRank_annotationRest ts)
    · exact keepsRank_nil

/-- From some tokens to those further on, as many parentheses and braces are open. -/
def Even (_ : List Event) (ts us : List Token) : Prop := ∃ passed, ts = passed ++ us ∧ KeepsRank passed

theorem Bracketed.even {events : List Event} (h : Bracketed (Even events) ts us) : Even events ts us := by
  induction h with
  | refl ts => exact ⟨[], rfl, keepsRank_nil⟩
  | @plain t _ _ hopener hcloser _ ih =>
      obtain ⟨passed, rfl, hpassed⟩ := ih
      exact ⟨[t] ++ passed, rfl, (keepsRank_plain hopener hcloser).append hpassed⟩
  | @pair opener closer _ _ _ hmatches _ _ ihinside ihrest =>
      obtain ⟨inside, rfl, hinside⟩ := ihinside
      obtain ⟨passed, rfl, hpassed⟩ := ihrest
      obtain ⟨hopener, hnot, hcloser⟩ := isOpener_of_matches hmatches
      refine ⟨(opener :: (inside ++ [closer])) ++ passed, by simp, .append ?_ hpassed⟩
      intro kinds opened hopen
      rw [openBrackets?_opener hopener, openBrackets?_append] at hopen
      obtain ⟨between, hbetween, hlast⟩ := Option.bind_eq_some_iff.mp hopen
      obtain ⟨kind, rfl, hkind⟩ := exists_of_openBrackets?_closer (by simpa using hnot) hcloser hlast
      have hrank := hinside _ _ hbetween
      rw [eq_of_matches hkind hmatches] at hrank
      simp only [rank, List.countP_cons] at hrank ⊢
      omega
  | unread hpiece _ ih =>
      obtain ⟨passed, rfl, hpassed⟩ := hpiece
      obtain ⟨more, rfl, hmore⟩ := ih
      exact ⟨passed ++ more, (List.append_assoc ..).symm, hpassed.append hmore⟩

instance (events : List Event) : LeavesAnnotations (Even events) :=
  ⟨fun ht => ⟨_, (List.take_append_drop _ _).symm, keepsRank_annotated ht _⟩⟩

end Token

/-! ## Expressions -/

namespace Reading

open Token (Even KeepsRank)

variable {source : Text} {c : Cursor}

/-! ## Lambda expressions and groups -/

theorem skipGroup_of_length {c : Cursor} {n : Nat} (h : Token.groupLength? c.tokens = some n) :
    skipGroup c = ([], .ok ((), c.forward n)) := by
  rw [skipGroup, cursor_bind, h]
  rfl

/-- Steps over the parameters of a lambda. -/
def lambdaParameters : Reading Unit := do
  if (← here).kind = .openParen then skipGroup else let _ ← take

theorem lambda_eq : lambda = (do
    let head ← here
    emit (.unsupported head.toSpan "lambda expression")
    lambdaParameters
    let _ ← take
    skipLambdaBody) := by
  funext c
  have hparameters : (if c.here.kind = .openParen then (do
      skipGroup
      let _ ← take
      skipLambdaBody) else (do
      let _ ← take
      let _ ← take
      skipLambdaBody) : Reading Unit) c = (do
      lambdaParameters
      let _ ← take
      skipLambdaBody : Reading Unit) c := by
    rw [lambdaParameters, bind_assoc, here_bind]
    split <;> rfl
  rw [lambda, here_bind, here_bind, bind_of_ok _ rfl, bind_of_ok _ rfl]
  exact congrArg (fun result => ([_] ++ result.1, result.2)) hparameters

/-- A lambda starts with a name, if not with a parenthesis. -/
theorem kind_of_lambda {c : Cursor} (hshape : operandShape c = .lambda)
    (hparen : c.here.kind ≠ .openParen) : c.here.kind = .word := by
  rw [operandShape] at hshape
  split at hshape
  case h_4 h => exact absurd h hparen
  case h_5 h => exact h
  all_goals cases hshape

/-- An arrow stands behind the parentheses that a lambda starts with. -/
theorem arrow_of_group {c : Cursor} {n : Nat} (hc : c.Sited source) (hshape : operandShape c = .lambda)
    (hparen : c.here.kind = .openParen) (hgroup : Token.groupLength? c.tokens = some n) :
    (c.forward n).here.isOperator "->".toList = true := by
  simp only [operandShape, hparen, opensLambda] at hshape
  have htokens := Cursor.tokens_forward hc.laid (Token.not_isEnd_of_groupFrom hgroup)
  have hhere : c.tokens[n]? = some (c.forward n).here := by
    rw [← List.head?_drop, ← htokens]
    rfl
  simpa [hgroup, hhere] using hshape

/-- An arrow stands behind the name that a lambda starts with. -/
theorem arrow_of_name {c : Cursor} (hshape : operandShape c = .lambda)
    (hparen : c.here.kind ≠ .openParen) : c.advance.here.isOperator "->".toList = true := by
  have harrow : c.nextIs (·.isOperator "->".toList) = true := by
    have hword := kind_of_lambda hshape hparen
    simp only [operandShape, hword, wordShape] at hshape
    split_ifs at hshape
    assumption
  obtain ⟨before, here, ahead, comments⟩ := c
  cases ahead with
  | nil => cases harrow
  | cons t ts => exact harrow

/-- The parameters of a lambda have an arrow behind them. -/
theorem exists_arrow {c : Cursor} (hc : c.Sited source) (hshape : operandShape c = .lambda) :
    ∃ d, lambdaParameters c = ([], .ok ((), d)) ∧ c.Reaches d ∧ d.here.isOperator "->".toList = true := by
  rw [lambdaParameters, here_bind]
  split
  · next hparen =>
      cases hgroup : Token.groupLength? c.tokens with
      | none => simp [operandShape, hparen, opensLambda, hgroup] at hshape
      | some n =>
          exact ⟨c.forward n, skipGroup_of_length hgroup, Cursor.reaches_forward n c,
            arrow_of_group hc hshape hparen hgroup⟩
  · next hparen =>
      exact ⟨c.advance, rfl, Cursor.reaches_advance c, arrow_of_name hshape hparen⟩

/-- Groups may be left unread. -/
class LeavesGroups (U : Unreading) : Prop extends Widening U where
  group {events : List Event} {ts : List Token} {n : Nat} :
    Token.groupLength? ts = some n → U events ts (ts.drop n)

section Groups

variable {U : Unreading} [hU : LeavesGroups U]

/-- Behind the group at the cursor. -/
theorem bracketsAt_group {α : Type} {f : Unit → Reading α} {n : Nat} {opener? : Option Token.Kind}
    (hc : c.Sited source) (hgroup : Token.groupLength? c.tokens = some n)
    (hf : (f ()).BracketsAt U opener? (c.forward n)) : (skipGroup >>= f).BracketsAt U opener? c := by
  rw [skipGroup, bind_assoc]
  refine .cursor_bind ?_
  rw [hgroup]
  refine .forward_bind ?_ hf
  rw [Cursor.tokens_forward hc.laid (Token.not_isEnd_of_groupFrom hgroup)]
  exact .unread (hU.group hgroup) (.refl _)

theorem brackets_skipGroup : skipGroup.Brackets source U none := by
  intro c hc
  cases hgroup : Token.groupLength? c.tokens with
  | none =>
      rw [skipGroup]
      refine .cursor_bind ?_
      rw [hgroup]
      exact .fail _
  | some n =>
      rw [← bind_pure skipGroup]
      exact bracketsAt_group hc hgroup (.pure ())

theorem brackets_skipLambdaBody : skipLambdaBody.Brackets source U none := by
  refine fun c hc => .here_bind (.ite (fun _ => brackets_skipGroup c hc) fun _ =>
    .ite (fun _ => .refuse _) fun _ => Brackets.rounds (fun c hc => ?_) c hc)
  refine .here_bind (.ite (fun _ => ?_) fun hopener => .ite (fun _ => .pure _) fun hends => ?_)
  · exact (brackets_skipGroup c hc).bind fun _ _ _ _ _ => .pure _
  · refine .take_bind rfl (by simpa using hopener) ?_ (.pure _)
    revert hends
    rw [endsLambdaBody]
    cases c.here.kind <;> simp [Token.Kind.isCloser]

theorem bracketsAt_lambda_groups (hc : c.Sited source) (hshape : operandShape c = .lambda) :
    lambda.BracketsAt U none c := by
  obtain ⟨d, hrun, hreaches, harrow⟩ := exists_arrow hc hshape
  have hparameters : lambdaParameters.BracketsAt U none c := by
    refine .here_bind (.ite (fun _ => brackets_skipGroup c hc) fun hparen => ?_)
    refine .take_bind (kind_of_lambda hshape hparen) rfl rfl (.pure _)
  rw [lambda_eq]
  refine .here_bind (.emit_bind (hparameters.bind fun events u e he _ => ?_))
  cases hrun.symm.trans he
  exact .take_bind (kind_of_isOperator harrow) rfl rfl
    (brackets_skipLambdaBody _ (hc.reaching hreaches).advance)

end Groups

instance : LeavesGroups Even where
  mono h _ := h
  group {events ts n} h := by
    obtain ⟨ps, us, htokens, rfl, hps⟩ := Token.exists_of_groupLength? h
    exact ⟨ps, by rw [htokens, List.drop_left], Token.keepsRank_closing hps⟩

instance : LeavesInside Even where
  typeArguments {_ ts n} h :=
    ⟨ts.take n, (List.take_append_drop n ts).symm,
      Token.keepsRank_of_typeKinds (Token.typeKinds_of_typeArguments h)⟩
  lambda hc hshape _ hrun := Token.Bracketed.even (bracketsAt_lambda_groups (U := Even) hc hshape _ _ _ hrun).2
  classBody _ h := LeavesGroups.group h

end Reading

end CodeFrames
