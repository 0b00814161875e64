import CodeFrames.Proofs.Brackets
import CodeFrames.Proofs.Skipping.Expression
import CodeFrames.Proofs.Skipping.Shapes

/-!
# Blocks and heads as groups

Skipping a statement passes closing brackets that belong to nothing, and type arguments hold square
brackets that need not match.  But no opening parenthesis of an expression and no opening brace of a
statement is left open.  So where the brackets nest, what is read between a brace or a parenthesis and
its closing bracket is a group.
-/

namespace CodeFrames

namespace Token

variable {kind : Kind} {t closer : Token} {ps qs rest : List Token} {kinds opened : List Kind}

/-! ## Pieces that leave no bracket open -/

/-- Behind the tokens no more brackets of the kind are open than behind any first part of them. -/
def Sinks (kind : Kind) (ps : List Token) : Prop :=
  ∀ kinds opened, openBrackets? kinds ps = some opened →
    ∀ qs rs between, ps = qs ++ rs → openBrackets? kinds qs = some between →
      opened.count kind ≤ between.count kind

theorem Sinks.start (h : Sinks kind ps) (hopen : openBrackets? kinds ps = some opened) :
    opened.count kind ≤ kinds.count kind :=
  h kinds opened hopen [] ps kinds rfl rfl

theorem sinks_nil : Sinks kind [] := by
  intro kinds opened hopen qs rs between hsplit hbetween
  obtain ⟨rfl, rfl⟩ := List.append_eq_nil_iff.mp hsplit.symm
  rw [Option.some.inj (hbetween.symm.trans hopen)]

theorem Sinks.append (h : Sinks kind ps) (g : Sinks kind qs) : Sinks kind (ps ++ qs) := by
  intro kinds opened hopen front back between hsplit hbetween
  rw [openBrackets?_append] at hopen
  obtain ⟨middle, hps, hqs⟩ := Option.bind_eq_some_iff.mp hopen
  rcases List.append_eq_append_iff.mp hsplit with ⟨more, rfl, rfl⟩ | ⟨more, rfl, rfl⟩
  · rw [openBrackets?_append, hps] at hbetween
    exact g middle opened hqs more back between rfl hbetween
  · exact (g.start hqs).trans (h kinds middle hps front more between rfl hbetween)

/-- A token that opens no bracket of the kind. -/
theorem sinks_singleton (h : t.kind ≠ kind ∨ ¬ t.kind.isOpener) : Sinks kind [t] := by
  have hstart {kinds opened : List Kind} (hopen : openBrackets? kinds [t] = some opened) :
      opened.count kind ≤ kinds.count kind := by
    by_cases hopener : t.kind.isOpener
    · rw [openBrackets?_opener_singleton hopener] at hopen
      obtain rfl := Option.some.inj hopen
      rw [List.count_cons_of_ne (by simpa [hopener] using h)]
    by_cases hcloser : t.kind.isCloser
    · obtain ⟨other, rfl, -⟩ := exists_of_openBrackets?_closer hopener hcloser hopen
      rw [List.count_cons]
      omega
    · rw [openBrackets?_plain_singleton hopener hcloser] at hopen
      rw [Option.some.inj hopen]
  intro kinds opened hopen qs rs between hsplit hbetween
  cases qs with
  | nil =>
      obtain rfl := Option.some.inj hbetween
      exact hstart hopen
  | cons u qs =>
      obtain ⟨rfl, hnil⟩ := List.cons.inj hsplit
      obtain ⟨rfl, rfl⟩ := List.append_eq_nil_iff.mp hnil.symm
      rw [Option.some.inj (hbetween.symm.trans hopen)]

theorem sinks_of_forall (h : ∀ t ∈ ps, t.kind ≠ kind) : Sinks kind ps := by
  induction ps with
  | nil => exact sinks_nil
  | cons t ps ih =>
      exact (show Sinks kind [t] from sinks_singleton (.inl (h t List.mem_cons_self))).append
        (ih fun u hu => h u (List.mem_cons_of_mem t hu))

/-- Inside a group the brackets around it stay open. -/
theorem exists_below_of_closing {depth : Nat} {inside below : List Kind} (h : Closing depth (ps ++ qs))
    (hinside : inside.length = depth) (hopen : openBrackets? (inside ++ below) ps = some opened) :
    ∃ inside, opened = inside ++ below := by
  induction ps generalizing depth inside with
  | nil => exact ⟨inside, (Option.some.inj hopen).symm⟩
  | cons t ps ih =>
      rw [List.cons_append] at h
      generalize hrest : ps ++ qs = rest at h
      cases h with
      | opener hopener h =>
          subst hrest
          rw [openBrackets?_opener hopener] at hopen
          exact ih h (by simp [hinside]) (show openBrackets? ((t.kind :: inside) ++ below) ps = _ from hopen)
      | closer hopener hcloser h =>
          subst hrest
          rw [openBrackets?_cons] at hopen
          obtain ⟨next, hnext, hopen⟩ := Option.bind_eq_some_iff.mp hopen
          obtain ⟨first, hkinds, -⟩ := exists_of_openBrackets?_closer hopener hcloser hnext
          obtain ⟨_, inside, rfl⟩ := List.exists_cons_of_length_eq_add_one hinside
          obtain ⟨-, rfl⟩ := List.cons.inj hkinds
          exact ih h (by simpa using hinside) hopen
      | last hopener hcloser =>
          obtain ⟨rfl, -⟩ := List.append_eq_nil_iff.mp hrest
          obtain ⟨first, hkinds, -⟩ := exists_of_openBrackets?_closer hopener hcloser hopen
          obtain ⟨_, rfl⟩ := List.length_eq_one_iff.mp hinside
          exact ⟨[], (List.cons.inj hkinds).2.symm⟩
      | plain hopener hcloser _ h =>
          subst hrest
          rw [openBrackets?_plain hopener hcloser] at hopen
          exact ih h hinside hopen

theorem sinks_closing (h : Closing 0 ps) : Sinks kind ps := by
  intro kinds opened hopen qs rs between hsplit hbetween
  obtain rfl := openBrackets?_closing h List.length_nil hopen
  obtain ⟨inside, rfl⟩ := exists_below_of_closing (hsplit ▸ h) List.length_nil hbetween
  rw [List.count_append]
  omega

/-- A pair of brackets around tokens that leave none open. -/
theorem Sinks.pair {opener : Token} (hmatches : Kind.matches opener.kind closer.kind = true)
    (h : Sinks kind ps) : Sinks kind (opener :: (ps ++ [closer])) := by
  obtain ⟨hopener, hnot, hcloser⟩ := isOpener_of_matches hmatches
  have hinside : Sinks kind (ps ++ [closer]) := h.append (sinks_singleton (.inr (by simp [hnot])))
  intro kinds opened hopen qs rs between hsplit hbetween
  rw [openBrackets?_opener hopener] at hopen
  cases qs with
  | nil =>
      obtain rfl := Option.some.inj hbetween
      rw [openBrackets?_append] at hopen
      obtain ⟨middle, hmiddle, hlast⟩ := Option.bind_eq_some_iff.mp hopen
      obtain ⟨other, rfl, hother⟩ := exists_of_openBrackets?_closer (by simp [hnot]) hcloser hlast
      have hle := h.start hmiddle
      rw [eq_of_matches hother hmatches, List.count_cons, List.count_cons] at hle
      omega
  | cons u qs =>
      obtain ⟨rfl, hrest⟩ := List.cons.inj (hsplit : opener :: (ps ++ [closer]) = u :: (qs ++ rs))
      rw [openBrackets?_opener hopener] at hbetween
      exact hinside _ _ hopen qs rs between hrest hbetween

/-- In brackets that nest, a pair around tokens that leave none of its kind open is a group. -/
theorem Sinks.closing {opener : Token} (hmatches : Kind.matches opener.kind closer.kind = true)
    (h : Sinks opener.kind ps) (hend : ∀ t ∈ ps ++ closer :: rest, ¬ t.isEnd)
    (hopen : openBrackets? [opener.kind] (ps ++ closer :: rest) = some []) :
    Closing 1 (ps ++ [closer]) := by
  obtain ⟨-, hnot, hcloser⟩ := isOpener_of_matches hmatches
  have hall := hopen
  rw [openBrackets?_append] at hopen
  obtain ⟨middle, hmiddle, hrest⟩ := Option.bind_eq_some_iff.mp hopen
  rw [openBrackets?_cons] at hrest
  obtain ⟨opened, hopened, -⟩ := Option.bind_eq_some_iff.mp hrest
  obtain ⟨other, rfl, hother⟩ := exists_of_openBrackets?_closer (by simp [hnot]) hcloser hopened
  rw [eq_of_matches hother hmatches] at hmiddle hopened
  obtain ⟨group, behind, hsplit, hgroup, -⟩ := exists_closing_of_openBrackets? hend hall
  have hbelow {opened : List Kind} (hopen : openBrackets? [opener.kind] group = some opened) :
      opened = [] :=
    openBrackets?_closing hgroup (List.length_singleton (a := opener.kind)) hopen
  -- The group ends neither in front of the closing bracket nor behind it.
  rcases List.append_eq_append_iff.mp hsplit with ⟨more, rfl, hmore⟩ | ⟨more, rfl, -⟩
  · cases more with
    | nil =>
        rw [List.append_nil] at hbelow
        cases hbelow hmiddle
    | cons t more =>
        obtain ⟨rfl, -⟩ := List.cons.inj hmore
        by_cases hnil : more = []
        · rwa [hnil] at hgroup
        have hcount := h.start hmiddle
        have hsplit : Closing 1 (ps ++ [closer] ++ more) := by simpa using hgroup
        have hopened : openBrackets? ([] ++ opener.kind :: []) (ps ++ [closer]) = some opened := by
          rw [openBrackets?_append, List.nil_append, hmiddle]
          exact hopened
        obtain ⟨inside, rfl⟩ := openBrackets?_of_closing_append hsplit hnil rfl hopened
        simp at hcount
  · obtain ⟨between, hbetween, -⟩ := Option.bind_eq_some_iff.mp
      ((openBrackets?_append ..).symm.trans hmiddle)
    have hcount := h _ _ hmiddle group more between rfl hbetween
    rw [hbelow hbetween] at hcount
    simp at hcount

theorem sinks_annotation {ts : List Token} (hat : t.kind = .atSign)
    (hkind : kind ≠ .atSign ∧ kind ≠ .word ∧ kind ≠ .dot) :
    Sinks kind ((t :: ts).take (modifierLength (t :: ts))) := by
  rcases exists_of_annotation hat ts with hnone | ⟨words, group, hsplit, hwords, hgroup⟩
  · exact hnone ▸ sinks_nil
  have hfront : Sinks kind (t :: words) := sinks_of_forall fun u hu heq => by
    rcases List.mem_cons.mp hu with rfl | hu
    · exact hkind.1 (heq.symm.trans hat)
    · exact (hwords u hu).elim (fun h => hkind.2.1 (heq.symm.trans h))
        fun h => hkind.2.2 (heq.symm.trans h)
  rw [hsplit]
  refine hfront.append ?_
  rcases hgroup with rfl | ⟨paren, ps, rfl, -, hclosing⟩
  · exact sinks_nil
  · exact sinks_closing hclosing

/-- From some tokens to those further on, no bracket of the kind is left open. -/
def Sunk (kind : Kind) (_ : List Event) (ts us : List Token) : Prop :=
  ∃ passed, ts = passed ++ us ∧ Sinks kind passed

theorem Bracketed.sunk {events : List Event} {ts us : List Token}
    (h : Bracketed (Sunk kind events) ts us) : Sunk kind events ts us := by
  induction h with
  | refl ts => exact ⟨[], rfl, sinks_nil⟩
  | @plain t _ _ hopener _ _ ih =>
      obtain ⟨passed, rfl, hpassed⟩ := ih
      exact ⟨[t] ++ passed, rfl, (sinks_singleton (.inr hopener)).append hpassed⟩
  | @pair opener closer _ _ _ hmatches _ _ ihinside ihrest =>
      obtain ⟨inside, rfl, hinside⟩ := ihinside
      obtain ⟨passed, rfl, hpassed⟩ := ihrest
      exact ⟨opener :: (inside ++ [closer]) ++ passed, by simp, (hinside.pair hmatches).append hpassed⟩
  | unread hpiece _ ih =>
      obtain ⟨passed, rfl, hpassed⟩ := hpiece
      obtain ⟨more, rfl, hmore⟩ := ih
      exact ⟨passed ++ more, (List.append_assoc ..).symm, hpassed.append hmore⟩

theorem sunk_take {events : List Event} {ts : List Token} {n : Nat} (h : Sinks kind (ts.take n)) :
    Sunk kind events ts (ts.drop n) :=
  ⟨ts.take n, (List.take_append_drop n ts).symm, h⟩

end Token

open Token (Kind Sunk)

namespace Reading

variable {source : Text} {kind : Kind}

instance : LeavesGroups (Sunk kind) where
  mono h _ := h
  group {events ts n} h := by
    obtain ⟨ps, us, htokens, rfl, hps⟩ := Token.exists_of_groupLength? h
    exact ⟨ps, by rw [htokens, List.drop_left], Token.sinks_closing hps⟩

/-- No bracket is left open in an expression, apart from the square brackets in types. -/
theorem leavesInside_sunk (hkind : kind ∉ Token.typeKinds) : LeavesInside (Sunk kind) where
  mono h _ := h
  typeArguments h := Token.sunk_take (Token.sinks_of_forall fun t ht heq =>
    hkind (heq ▸ Token.typeKinds_of_typeArguments h t ht))
  lambda hc hshape _ hrun :=
    Token.Bracketed.sunk (bracketsAt_lambda_groups (U := Sunk kind) hc hshape _ _ _ hrun).2
  classBody _ h := LeavesGroups.group h

/-! ## Skipped statements -/

/-- Over any token that is no opening brace. -/
theorem BracketsAt.take_sunk {α : Type} {f : Token → Reading α} {c : Cursor}
    {opener? : Option Kind} (hhere : c.here.kind ≠ kind)
    (hf : (f c.here).BracketsAt (Sunk kind) opener? c.advance) :
    (Reading.take >>= f).BracketsAt (Sunk kind) opener? c := by
  have htake : Reading.take.BracketsAt (Sunk kind) none c := by
    refine @of_step _ _ _ _ Cursor.advance Cursor.here rfl (Cursor.reaches_advance c) ?_
    obtain ⟨before, here, ahead, comments⟩ := c
    cases ahead with
    | nil => exact .refl _
    | cons t ts => exact .unread ⟨[here], rfl, Token.sinks_singleton (.inl hhere)⟩ (.refl _)
  refine htake.bind fun events t d hrun _ => ?_
  cases hrun
  exact hf

theorem sinks_skipToSemicolon : skipToSemicolon.Brackets source (Sunk .openBrace) none := by
  refine Brackets.rounds fun c hc => .here_bind ?_
  have hgroup : (do
      skipGroup
      return true : Reading Bool).BracketsAt (Sunk .openBrace) none c :=
    (brackets_skipGroup c hc).bind fun _ _ _ _ _ => .pure _
  cases hkind : c.here.kind <;> simp only
  case openParen => exact hgroup
  case openBracket => exact hgroup
  case openBrace => exact hgroup
  case endOfInput => exact .refuse _
  case closeBrace => exact .refuse _
  all_goals exact .take_sunk (by rw [hkind]; decide) (.pure _)

theorem sinks_skipWordAndGroup {c : Cursor} (hc : c.Sited source) (hhere : c.here.kind ≠ .openBrace) :
    skipWordAndGroup.BracketsAt (Sunk .openBrace) none c :=
  .take_sunk hhere (brackets_skipGroup _ hc.advance)

theorem sinks_skipTypeBody (word : Text) : (skipTypeBody word).Brackets source (Sunk .openBrace) none := by
  refine (Brackets.rounds fun c hc => .here_bind (.ite (fun _ => .pure _) fun hbrace => ?_)).bind
    fun _ => brackets_skipGroup
  exact .ite (fun _ => .fail _) fun _ => .take_sunk hbrace (.pure _)

theorem not_brace_of_isAtWord {c : Cursor} {word : String} (h : c.isAtWord word = true) :
    c.here.kind ≠ .openBrace := by
  rw [kind_of_isWord h]
  decide

theorem sinks_skipTry {c : Cursor} (hc : c.Sited source) (hhere : c.here.kind ≠ .openBrace) :
    skipTry.BracketsAt (Sunk .openBrace) none c := by
  have hcatch : (do
      if (← cursor).isAtWord "catch" then
        skipWordAndGroup
        skipGroup
        return true
      else return false : Reading Bool).Brackets source (Sunk .openBrace) none :=
    fun c hc => .cursor_bind (.ite (fun hat => (sinks_skipWordAndGroup hc (not_brace_of_isAtWord hat)).bind
      fun _ _ d _ hreaches => (brackets_skipGroup d (hc.reaching hreaches)).bind fun _ _ _ _ _ => .pure _)
      fun _ => .pure _)
  have hblocks : (do
      skipGroup
      repeatWhile do
        if (← cursor).isAtWord "catch" then
          skipWordAndGroup
          skipGroup
          return true
        else return false
      if (← cursor).isAtWord "finally" then skipWordAndGroup : Reading Unit).Brackets source
        (Sunk .openBrace) none :=
    brackets_skipGroup.bind fun _ => (Brackets.rounds hcatch).bind fun _ c hc => .cursor_bind (.ite
      (fun hat => sinks_skipWordAndGroup hc (not_brace_of_isAtWord hat)) fun _ => .pure _)
  exact .take_sunk hhere (.cursor_bind (.ite
    (fun _ => brackets_skipGroup.bind (fun _ => hblocks) _ hc.advance) fun _ => hblocks _ hc.advance))

theorem not_brace_of_isLabel {c : Cursor} (h : isLabel c = true) :
    c.advance.here.kind ≠ .openBrace := by
  obtain ⟨before, here, ahead, comments⟩ := c
  obtain ⟨-, hcolon⟩ := Bool.and_eq_true_iff.mp h
  cases ahead with
  | nil => cases hcolon
  | cons t ts =>
      have hkind : t.kind = .operator := @kind_of_isOperator t [':'] hcolon
      exact fun hbrace => absurd (hkind.symm.trans hbrace) (by decide)

theorem sinks_skipNested (budget : List Token) :
    (skipNested budget).Brackets source (Sunk .openBrace) none := by
  induction budget with
  | nil => exact sinks_skipToSemicolon
  | cons t budget ih =>
      intro c hc
      have hhere (hshape : skipShape c ≠ .group) : c.here.kind ≠ .openBrace := fun hkind =>
        hshape (by rw [skipShape, hkind])
      refine .cursor_bind ?_
      cases hshape : skipShape c with
      | group => exact brackets_skipGroup c hc
      | empty => exact .take_sunk (hhere (by simp [hshape])) (.pure _)
      | ifElse =>
          refine (sinks_skipWordAndGroup hc (hhere (by simp [hshape]))).bind fun _ _ d _ hreaches =>
            ih.bind (fun _ e he => .cursor_bind (.ite (fun hat => ?_) fun _ => .pure _)) d
              (hc.reaching hreaches)
          exact .take_sunk (not_brace_of_isAtWord hat) (ih _ he.advance)
      | loop =>
          exact (sinks_skipWordAndGroup hc (hhere (by simp [hshape]))).bind fun _ _ d _ hreaches =>
            ih d (hc.reaching hreaches)
      | headAndBlock =>
          exact (sinks_skipWordAndGroup hc (hhere (by simp [hshape]))).bind fun _ _ d _ hreaches =>
            brackets_skipGroup d (hc.reaching hreaches)
      | doWhile =>
          refine .take_sunk (hhere (by simp [hshape])) (ih.bind (fun _ e he => .cursor_bind (.ite
            (fun hat => ?_) fun _ => .fail _)) _ hc.advance)
          exact (sinks_skipWordAndGroup he (not_brace_of_isAtWord hat)).bind fun _ _ f _ hreaches =>
            (Brackets.expect rfl rfl).bind (fun _ => Brackets.pure _) f (he.reaching hreaches)
      | tryCatch => exact sinks_skipTry hc (hhere (by simp [hshape]))
      | typeDeclaration word => exact sinks_skipTypeBody word c hc
      | labelled =>
          -- The two tokens in front are stepped over one by one.
          change ((take >>= fun _ => take >>= fun _ => skipNested budget : Reading Unit)).BracketsAt _ _ c
          refine .take_sunk (hhere (by simp [hshape])) (.take_sunk ?_ (ih _ hc.advance.advance))
          exact not_brace_of_isLabel (isLabel_of_skipLabelled hshape)
      | simple => exact sinks_skipToSemicolon c hc

theorem sinks_skipStatement : skipStatement.Brackets source (Sunk .openBrace) none :=
  fun c => sinks_skipNested c.ahead c

instance : LeavesStatements (Sunk .openBrace) where
  toLeavesInside := leavesInside_sunk (by decide)
  annotation hat := Token.sunk_take (Token.sinks_annotation hat (by decide))
  statement hc _ hrun := Token.Bracketed.sunk (sinks_skipStatement _ hc _ _ _ hrun).2

end Reading

end CodeFrames
