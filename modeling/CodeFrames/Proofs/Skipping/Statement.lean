import CodeFrames.Proofs.Skipping.Simple
import CodeFrames.Proofs.Skipping.Sinking

/-!
# Where a skipped statement ends

Reading and skipping agree on where a statement ends, if the brackets of the statement and of those it
embeds outside brackets nest, and none of them begins with `record` as a plain name.  Skipping takes that
word for the start of a declaration, whatever follows it.
-/

namespace CodeFrames

open Token (Closing Kind Sinks Sunk openBrackets?)

namespace Token

variable {ps qs ts us vs : List Token}

/-! ## Statements in statements -/

/-- Behind these tokens a statement is embedded in another one: behind an `else`, or behind the head of
a branch or a loop. -/
structure LeadsToStatement (ps : List Token) : Prop where
  nested : openBrackets? [] ps = some []
  leads : (∃ qs t, ps = qs ++ [t] ∧ t.isWord "else".toList) ∨
    ∃ qs t head, ps = qs ++ t :: head ∧ (t.isWord "if".toList ∨ t.isWord "while".toList) ∧ Closing 0 head

theorem openBrackets?_nil_append (hps : openBrackets? [] ps = some []) (qs : List Token) :
    openBrackets? [] (ps ++ qs) = openBrackets? [] qs := by
  rw [openBrackets?_append, hps]
  rfl

theorem openBrackets?_of_plain (h : ∀ t ∈ ps, ¬ t.kind.isOpener ∧ ¬ t.kind.isCloser) :
    openBrackets? [] ps = some [] := by
  induction ps with
  | nil => rfl
  | cons t ps ih =>
      have hplain := h t List.mem_cons_self
      rw [openBrackets?_plain hplain.1 hplain.2]
      exact ih fun u hu => h u (List.mem_cons_of_mem t hu)

theorem LeadsToStatement.behind (h : LeadsToStatement qs) (hps : openBrackets? [] ps = some []) :
    LeadsToStatement (ps ++ qs) := by
  refine ⟨(openBrackets?_nil_append hps qs).trans h.nested, ?_⟩
  rcases h.leads with ⟨front, t, rfl, ht⟩ | ⟨front, t, head, rfl, ht, hhead⟩
  · exact .inl ⟨ps ++ front, t, (List.append_assoc ..).symm, ht⟩
  · exact .inr ⟨ps ++ front, t, head, (List.append_assoc ..).symm, ht, hhead⟩

/-- The brackets nest, and `record` at the start has a word or a colon behind it. -/
structure Regular (part : List Token) : Prop where
  nested : openBrackets? [] part = some []
  declares : ∀ t rest, part = t :: rest → t.isWord "record".toList →
    rest.head?.any (fun u => u.isAnyWord || u.isOperator [':'])

/-! ## Pairs of brackets -/

/-- A pair of brackets, in which none of its kind is left open. -/
def Paired (ps : List Token) : Prop :=
  ∃ opener inside closer, ps = opener :: (inside ++ [closer]) ∧
    Kind.matches opener.kind closer.kind = true ∧ Sinks opener.kind inside

/-- In brackets that nest a pair is a group. -/
theorem Paired.closing (h : Paired ps) (hend : ∀ t ∈ ps ++ qs, ¬ t.isEnd)
    (hopen : openBrackets? [] (ps ++ qs) = some []) :
    Closing 0 ps ∧ openBrackets? [] ps = some [] := by
  obtain ⟨opener, inside, closer, rfl, hmatches, hsinks⟩ := h
  obtain ⟨hopener, -, -⟩ := isOpener_of_matches hmatches
  have hclosing : Closing 0 (opener :: (inside ++ [closer])) := by
    have hinside := hopen
    rw [List.cons_append, openBrackets?_opener hopener, List.append_assoc] at hinside
    exact .opener hopener (hsinks.closing hmatches (fun t ht => hend t (by simp_all)) hinside)
  refine ⟨hclosing, ?_⟩
  rw [openBrackets?_append] at hopen
  obtain ⟨opened, hopened, -⟩ := Option.bind_eq_some_iff.mp hopen
  rw [hopened, openBrackets?_closing hclosing List.length_nil hopened]

end Token

namespace Reading

variable {source : Text} {c d e : Cursor} {events more : List Event} {part rest vs : List Token}
  {levels : Nat}

/-- A statement can be read in front of some tokens, up to those further on. -/
def Stands (source : Text) (ts us : List Token) : Prop :=
  ∃ levels c d events, c.Sited source ∧ c.tokens = ts ∧ d.tokens = us ∧
    body (Enclosed.within levels) c = (events, .ok ((), d))

/-- The statements embedded in a statement, outside brackets, are regular. -/
def Orderly (source : Text) (part after : List Token) : Prop :=
  ∀ before inside behind, part = before ++ (inside ++ behind) → Token.LeadsToStatement before →
    Stands source (inside ++ (behind ++ after)) (behind ++ after) → Token.Regular inside

theorem Orderly.sub {before inside behind after : List Token}
    (h : Orderly source (before ++ (inside ++ behind)) after) (hbefore : openBrackets? [] before = some []) :
    Orderly source inside (behind ++ after) := by
  rintro front part back rfl hfront hstands
  refine h (before ++ front) part (back ++ behind) (by simp) (hfront.behind hbefore) ?_
  simpa using hstands

theorem Orderly.behind {before inside after : List Token} (h : Orderly source (before ++ inside) after)
    (hbefore : openBrackets? [] before = some []) : Orderly source inside after := by
  rw [← List.append_nil inside] at h
  exact h.sub hbefore

/-! ## Heads and blocks -/

/-- A condition is a pair of parentheses. -/
theorem paired_condition (hc : c.Sited source)
    (hrun : condition (Enclosed.within levels) c = (events, .ok ((), d))) :
    ∃ head, c.tokens = head ++ d.tokens ∧ Token.Paired head := by
  obtain ⟨_, opener, _, _, hopener, hrest, -⟩ := exists_of_bind_ok hrun
  obtain ⟨hopening, rfl, rfl⟩ := exists_of_expect hopener
  obtain ⟨_, _, e, _, hexpression, hrest, -⟩ := exists_of_bind_ok hrest
  obtain ⟨_, closer, _, _, hcloser, hrest, -⟩ := exists_of_bind_ok hrest
  obtain ⟨hclosing, rfl, rfl⟩ := exists_of_expect hcloser
  cases hrest
  have : LeavesInside (Sunk .openParen) := leavesInside_sunk (by decide)
  obtain ⟨hreaches, hbrackets⟩ := brackets_expression (U := Sunk .openParen)
    (Enclosed.bracketsInside_within source _ levels) c.advance hc.advance _ _ _ hexpression
  obtain ⟨passed, htokens, hpassed⟩ := Token.Bracketed.sunk hbrackets
  refine ⟨c.here :: (passed ++ [e.here]), ?_, c.here, passed, e.here, rfl, by rw [hopening, hclosing]; rfl,
    by rwa [hopening]⟩
  rw [Cursor.tokens_advance hc.laid (not_isEnd_of_kind hopening (by decide)), htokens,
    Cursor.tokens_advance (hc.advance.reaching hreaches).laid (not_isEnd_of_kind hclosing (by decide))]
  simp

/-- A block is a pair of braces. -/
theorem paired_block (hc : c.Sited source)
    (hrun : block (Enclosed.within levels) c = (events, .ok ((), d))) :
    ∃ head, c.tokens = head ++ d.tokens ∧ Token.Paired head := by
  have hinner := Enclosed.brackets_within source (Sunk .openBrace) levels
  obtain ⟨_, opener, _, _, hopener, hrest, -⟩ := exists_of_bind_ok hrun
  obtain ⟨hopening, rfl, rfl⟩ := exists_of_expect hopener
  obtain ⟨_, _, _, _, hemit, hrest, -⟩ := exists_of_bind_ok hrest
  cases hemit
  obtain ⟨_, _, e, _, hrounds, hrest, -⟩ := exists_of_bind_ok hrest
  obtain ⟨hreaches, hbrackets⟩ := Brackets.rounds (brackets_blockRound hinner) c.advance hc.advance _ _ _ hrounds
  obtain ⟨passed, htokens, hpassed⟩ := Token.Bracketed.sunk hbrackets
  obtain ⟨f, last, -, -, hlast⟩ := exists_last_round
    (fun c events d hc hrun => blockRound_true hinner.delivers hc hrun) hc.advance hrounds
  have hclosing := blockRound_false hlast
  obtain ⟨_, hrest, -⟩ := exists_of_reported hrest
  cases hrest
  have he : e.relieved.Sited source := (hc.advance.reaching hreaches).relieved
  have hlast : e.tokens = e.here :: e.relieved.advance.tokens :=
    Cursor.tokens_advance he.laid (not_isEnd_of_kind hclosing (by decide))
  refine ⟨c.here :: (passed ++ [e.here]), ?_, c.here, passed, e.here, rfl, by rw [hopening, hclosing]; rfl,
    by rwa [hopening]⟩
  rw [Cursor.tokens_advance hc.laid (not_isEnd_of_kind hopening (by decide)), htokens, hlast]
  simp

/-! ## Branches and loops -/

/-- Bodies at a nesting level are skipped up to where they are read, if they and the statements in them
are regular. -/
def SkipsBodies (source : Text) (inner : Enclosed) : Prop :=
  ∀ c d events part, c.Sited source → body inner c = (events, .ok ((), d)) → c.tokens = part ++ d.tokens →
    Token.Regular part → Orderly source part d.tokens → Skips c.tokens d.tokens

/-- A body that is embedded in a statement. -/
theorem SkipsBodies.embedded {before : List Token} (h : SkipsBodies source (Enclosed.within levels))
    (hc : c.Sited source) (hrun : body (Enclosed.within levels) c = (events, .ok ((), d)))
    (htokens : c.tokens = part ++ d.tokens) (hrest : d.tokens = rest ++ vs)
    (hbefore : Token.LeadsToStatement before) (horderly : Orderly source (before ++ (part ++ rest)) vs) :
    Skips c.tokens d.tokens ∧ openBrackets? [] part = some [] := by
  have hregular : Token.Regular part := horderly before part rest rfl hbefore
    ⟨levels, c, d, events, hc, by rw [htokens, hrest], hrest, hrun⟩
  exact ⟨h c d events part hc hrun htokens hregular (hrest ▸ horderly.sub hbefore.nested), hregular.nested⟩

/-- The head of a branch or of a loop, and what it decides on. -/
theorem SkipsBodies.branch (h : SkipsBodies source (Enclosed.within levels)) (hc : c.Sited source)
    (hword : c.here.isWord "if".toList ∨ c.here.isWord "while".toList)
    (hcondition : condition (Enclosed.within levels) c.advance = (events, .ok ((), d)))
    (hbody : body (Enclosed.within levels) d = (more, .ok ((), e)))
    (htokens : c.tokens = part ++ vs) (hvs : vs ≠ []) (hrest : e.tokens = rest ++ vs)
    (hopen : openBrackets? [] part = some []) (horderly : Orderly source part vs) :
    ∃ head, c.tokens = c.here :: (head ++ d.tokens) ∧ Closing 0 head ∧ Skips d.tokens e.tokens ∧
      openBrackets? [] rest = some [] ∧ Orderly source rest vs := by
  have hkind : c.here.kind = .word := hword.elim kind_of_isWord kind_of_isWord
  have hinner := Enclosed.brackets_within source (Sunk .openBrace) levels
  have hend := Token.Laid.not_isEnd (htokens ▸ hc.laid) hvs
  have hd := hc.advance.reaching (brackets_condition hinner _ hc.advance _ _ _ hcondition).1
  obtain ⟨inside, hinside, -⟩ := (brackets_body hinner d hd _ _ _ hbody).1
  obtain ⟨head, hhead, hpaired⟩ := paired_condition hc.advance hcondition
  have hadvanced : c.tokens = c.here :: (head ++ d.tokens) := by
    rw [Cursor.tokens_advance hc.laid (not_isEnd_of_kind hkind (by decide)), hhead]
  obtain rfl : part = c.here :: (head ++ (inside ++ rest)) := by
    refine @List.append_cancel_right _ _ vs _ ?_
    rw [← htokens, hadvanced, hinside, hrest]
    simp
  have hplain (qs : List Token) : openBrackets? [] (c.here :: qs) = openBrackets? [] qs :=
    Token.openBrackets?_plain (by rw [hkind]; decide) (by rw [hkind]; decide)
  rw [hplain] at hopen
  obtain ⟨hclosing, hgroup⟩ := hpaired.closing (fun t ht => hend t (List.mem_cons_of_mem _ ht)) hopen
  have hleads : Token.LeadsToStatement (c.here :: head) :=
    ⟨(hplain head).trans hgroup, .inr ⟨[], c.here, head, rfl, hword, hclosing⟩⟩
  obtain ⟨hskips, hnested⟩ := h.embedded hd hbody hinside hrest hleads horderly
  rw [Token.openBrackets?_nil_append hgroup, Token.openBrackets?_nil_append hnested] at hopen
  refine ⟨head, hadvanced, hclosing, hskips, hopen, ?_⟩
  refine @Orderly.behind _ (c.here :: head ++ inside) _ _ (by simpa using horderly) ?_
  rw [Token.openBrackets?_nil_append hleads.nested, hnested]

/-- What is read for one further branch: nothing, a branch, or a body. -/
theorem furtherBranch_cases {inner : Enclosed} {again : Bool}
    (hrun : furtherBranch inner c = (events, .ok (again, d))) :
    (again = false ∧ d = c ∧ c.isAtWord "else" = false) ∨
    c.isAtWord "else" = true ∧
      ((again = true ∧ c.advance.isAtWord "if" = true ∧ ∃ e first last,
        condition inner c.advance.advance = (first, .ok ((), e)) ∧ body inner e = (last, .ok ((), d))) ∨
      again = false ∧ ∃ inside, body inner c.advance = (inside, .ok ((), d))) := by
  rw [furtherBranch, cursor_bind] at hrun
  split at hrun
  · next hat =>
      cases hrun
      exact .inl ⟨rfl, rfl, by simpa using hat⟩
  next hat =>
  refine .inr ⟨by simpa using hat, ?_⟩
  split at hrun
  · next hnext =>
      obtain ⟨_, _, _, _, htake, hrun, -⟩ := exists_of_bind_ok hrun
      cases htake
      obtain ⟨_, _, _, _, htake, hrun, -⟩ := exists_of_bind_ok hrun
      cases htake
      obtain ⟨_, _, _, _, hemit, hrun, -⟩ := exists_of_bind_ok hrun
      cases hemit
      obtain ⟨first, _, e, _, hcondition, hrun, -⟩ := exists_of_bind_ok hrun
      obtain ⟨rfl, _, hbody⟩ := exists_of_bind_pure hrun
      refine .inl ⟨rfl, ?_, e, first, _, hcondition, hbody⟩
      obtain ⟨before, here, ahead, comments⟩ := c
      cases ahead with
      | nil => cases hnext
      | cons t ts => exact hnext
  · obtain ⟨_, _, _, _, htake, hrun, -⟩ := exists_of_bind_ok hrun
    cases htake
    obtain ⟨_, _, _, _, hemit, hrun, -⟩ := exists_of_bind_ok hrun
    cases hemit
    obtain ⟨rfl, _, hbody⟩ := exists_of_bind_pure hrun
    exact .inr ⟨rfl, _, hbody⟩

theorem passes_furtherBranch {inner : Enclosed} (hinner : inner.Brackets source (Sunk .openBrace))
    (hc : c.Sited source) (hrun : furtherBranch inner c = (events, .ok (true, d))) : c.Passes d := by
  rcases furtherBranch_cases hrun with ⟨hfalse, -⟩ |
    ⟨helse, ⟨-, -, e, _, _, hcondition, hbody⟩ | ⟨hfalse, -⟩⟩
  · cases hfalse
  · have hbranch := (brackets_condition hinner _ hc.advance.advance _ _ _ hcondition).1
    have he := hc.advance.advance.reaching hbranch
    have hpasses := Cursor.passes_advance hc.laid (not_isEnd_of_kind (kind_of_isWord helse) (by decide))
    exact hpasses.trans_reaches ((Cursor.reaches_advance c.advance).trans
      (hbranch.trans (brackets_body hinner e he _ _ _ hbody).1))
  · cases hfalse

/-- The branches of a chain behind the first are skipped as one statement behind an `else`, or there are
none. -/
theorem SkipsBodies.further (h : SkipsBodies source (Enclosed.within levels))
    (hrounds : Rounds (furtherBranch (Enclosed.within levels)) c events d) :
    ∀ {part}, c.Sited source → c.tokens = part ++ d.tokens → openBrackets? [] part = some [] →
      Orderly source part d.tokens →
      (∃ word rest, c.tokens = word :: rest ∧ rest ≠ [] ∧ word.isWord "else".toList = true ∧
        Skips rest d.tokens) ∨
      c.tokens.head?.any (·.isWord "else".toList) = false ∧ d.tokens = c.tokens := by
  have hinner := Enclosed.brackets_within source (Sunk .openBrace) levels
  have helse_tokens {c : Cursor} (hc : c.Sited source) (helse : c.isAtWord "else" = true) :
      c.tokens = c.here :: c.advance.tokens :=
    Cursor.tokens_advance hc.laid (not_isEnd_of_kind (kind_of_isWord helse) (by decide))
  have hplain {c : Cursor} (helse : c.isAtWord "else" = true) (qs : List Token) :
      openBrackets? [] (c.here :: qs) = openBrackets? [] qs :=
    Token.openBrackets?_plain (by rw [kind_of_isWord helse]; decide) (by rw [kind_of_isWord helse]; decide)
  induction hrounds with
  | @last c d events hlast =>
      intro part hc htokens hopen horderly
      rcases furtherBranch_cases hlast with ⟨-, rfl, helse⟩ | ⟨helse, ⟨hfalse, -⟩ | ⟨-, _, hbody⟩⟩
      · exact .inr ⟨helse, rfl⟩
      · cases hfalse
      obtain ⟨inside, hinside, -⟩ := (brackets_body hinner _ hc.advance _ _ _ hbody).1
      obtain rfl : part = [c.here] ++ (inside ++ []) :=
        @List.append_cancel_right _ _ d.tokens _ (by simp [← htokens, helse_tokens hc helse, hinside])
      have hleads : Token.LeadsToStatement [c.here] := ⟨hplain helse [], .inl ⟨[], c.here, rfl, helse⟩⟩
      obtain ⟨hskips, -⟩ := h.embedded hc.advance hbody hinside rfl hleads horderly
      exact .inl ⟨c.here, c.advance.tokens, helse_tokens hc helse, List.cons_ne_nil _ _, helse, hskips⟩
  | @more c d e events others hmore _ hrounds ih =>
      intro part hc htokens hopen horderly
      rcases furtherBranch_cases hmore with ⟨hfalse, -⟩ |
        ⟨helse, ⟨-, hif, f, _, _, hcondition, hbody⟩ | ⟨hfalse, -⟩⟩
      · cases hfalse
      · have hbranch := (brackets_condition hinner _ hc.advance.advance _ _ _ hcondition).1
        have hf := hc.advance.advance.reaching hbranch
        have hd := hf.reaching (brackets_body hinner f hf _ _ _ hbody).1
        have hreaches := (Brackets.rounds (brackets_furtherBranch hinner) d hd _ _ _ (hrounds.loop le_rfl)).1
        obtain ⟨inside, hinside, -⟩ := (Cursor.reaches_advance c.advance).trans
          (hbranch.trans ((brackets_body hinner f hf _ _ _ hbody).1.trans hreaches))
        obtain ⟨rest, hrest, -⟩ := hreaches
        obtain rfl : part = [c.here] ++ inside :=
          @List.append_cancel_right _ _ e.tokens _ (by simp [← htokens, helse_tokens hc helse, hinside])
        have hnested := (hplain helse inside).symm.trans hopen
        obtain ⟨head, hhead, hclosing, hskips, hopened, horderly⟩ := h.branch hc.advance (.inl hif) hcondition
          hbody hinside (List.cons_ne_nil _ _) hrest hnested (horderly.behind (hplain helse []))
        refine .inl ⟨c.here, c.advance.tokens, helse_tokens hc helse, List.cons_ne_nil _ _, helse, ?_⟩
        exact skips_ifElse hc.advance.laid (skipShape_of_word hif rfl) hhead hclosing hskips
          (ih hd hrest hopened horderly)
      · cases hfalse

/-! ## Statements -/

theorem skips_ifChain (h : SkipsBodies source (Enclosed.within levels)) (hc : c.Sited source)
    (hif : c.here.isWord "if".toList = true)
    (hrun : ifChain (Enclosed.within levels) c = (events, .ok ((), d))) (htokens : c.tokens = part ++ d.tokens)
    (hopen : openBrackets? [] part = some []) (horderly : Orderly source part d.tokens) :
    Skips c.tokens d.tokens := by
  have hinner := Enclosed.brackets_within source (Sunk .openBrace) levels
  obtain ⟨_, _, _, _, htake, hrun, -⟩ := exists_of_bind_ok hrun
  cases htake
  obtain ⟨_, _, _, _, hemit, hrun, -⟩ := exists_of_bind_ok hrun
  cases hemit
  obtain ⟨_, _, e, _, hcondition, hrun, -⟩ := exists_of_bind_ok hrun
  obtain ⟨_, _, f, _, hbody, hrun, -⟩ := exists_of_bind_ok hrun
  obtain ⟨_, _, d, _, hrounds, hrun, -⟩ := exists_of_bind_ok hrun
  cases hrun
  have he := hc.advance.reaching (brackets_condition hinner _ hc.advance _ _ _ hcondition).1
  have hf := he.reaching (brackets_body hinner e he _ _ _ hbody).1
  obtain ⟨rest, hrest, -⟩ := (Brackets.rounds (brackets_furtherBranch hinner) f hf _ _ _ hrounds).1
  obtain ⟨head, hhead, hclosing, hskips, hopened, horderly⟩ := h.branch hc (.inl hif) hcondition hbody htokens
    (List.cons_ne_nil _ _) hrest hopen horderly
  have hrounds := rounds_of_repeatWhile (fun c events d (hc : c.Sited source) hmore =>
    have hpasses := passes_furtherBranch hinner hc hmore
    ⟨hpasses, hc.reaching hpasses.reaches⟩) hf hrounds
  exact skips_ifElse hc.laid (skipShape_of_word hif rfl) hhead hclosing hskips
    (h.further hrounds hf hrest hopened horderly)

theorem skips_whileLoop (h : SkipsBodies source (Enclosed.within levels)) (hc : c.Sited source)
    (hwhile : c.here.isWord "while".toList = true)
    (hrun : whileLoop (Enclosed.within levels) c = (events, .ok ((), d))) (htokens : c.tokens = part ++ d.tokens)
    (hopen : openBrackets? [] part = some []) (horderly : Orderly source part d.tokens) :
    Skips c.tokens d.tokens := by
  obtain ⟨_, _, _, _, htake, hrun, -⟩ := exists_of_bind_ok hrun
  cases htake
  obtain ⟨_, _, _, _, hemit, hrun, -⟩ := exists_of_bind_ok hrun
  cases hemit
  obtain ⟨_, _, e, _, hcondition, hrun, -⟩ := exists_of_bind_ok hrun
  obtain ⟨_, _, f, _, hbody, hrun, -⟩ := exists_of_bind_ok hrun
  cases hrun
  obtain ⟨head, hhead, hclosing, hskips, -⟩ := h.branch hc (.inr hwhile) hcondition hbody htokens
    (List.cons_ne_nil _ _) (List.nil_append _).symm hopen horderly
  exact skips_loop hc.laid (skipShape_of_word hwhile rfl) hhead hclosing hskips

/-- Simple statements have their semicolon only at the end. -/
theorem closed_statementOf {inner : Enclosed} (h : inner.UnbrokenIn source) (hc : c.Sited source)
    (hsimple : (statementShape c).isSimple = true) : (statementOf inner (statementShape c)).ClosedAt c := by
  have hword := @kind_of_statementShape c _ rfl
  cases hshape : statementShape c with
  | returned => exact closed_returned h hc (hword (by simp [hshape]))
  | jump jump => exact closed_jumped jump hc (hword (by simp [hshape]))
  | thrown => exact closed_thrown h hc (hword (by simp [hshape]))
  | locals => exact closed_localVariables h hc
  | expression => exact closed_expressionStatement h hc
  | _ => rw [hshape] at hsimple; cases hsimple

theorem skips_block (hc : c.Sited source)
    (hrun : block (Enclosed.within levels) c = (events, .ok ((), d))) (htokens : c.tokens = part ++ d.tokens)
    (hopen : openBrackets? [] part = some []) : Skips c.tokens d.tokens := by
  obtain ⟨_, _, _, _, hbrace, -, -⟩ := exists_of_bind_ok hrun
  obtain ⟨head, hhead, hpaired⟩ := paired_block hc hrun
  obtain rfl : part = head := List.append_cancel_right (htokens.symm.trans hhead)
  have hend := Token.Laid.not_isEnd (htokens ▸ hc.laid) (List.cons_ne_nil d.here d.ahead)
  rw [← List.append_nil part] at hend hopen
  exact skips_group hc.laid (exists_of_expect hbrace).1 htokens (hpaired.closing hend hopen).1

/-- What stands behind a `record` that may be read as a name. -/
theorem nextIs_of_regular (h : Token.Regular part) (htokens : c.tokens = part ++ d.tokens) (hne : part ≠ [])
    (hrecord : c.here.isWord "record".toList = true) :
    c.nextIs (fun u => u.isAnyWord || u.isOperator [':']) = true := by
  obtain ⟨t, rest, rfl⟩ := List.exists_cons_of_ne_nil hne
  obtain ⟨rfl, hahead⟩ := List.cons.inj (htokens : c.here :: c.ahead = t :: (rest ++ d.tokens))
  have hnext := h.declares c.here rest rfl hrecord
  cases rest with
  | nil => cases hnext
  | cons u rest => rwa [Cursor.nextIs, hahead]

theorem skips_statementOf (h : SkipsBodies source (Enclosed.within levels)) (hc : c.Sited source)
    (hrun : statementOf (Enclosed.within levels) (statementShape c) c = (events, .ok ((), d)))
    (htokens : c.tokens = part ++ d.tokens) (hregular : Token.Regular part)
    (horderly : Orderly source part d.tokens) : Skips c.tokens d.tokens := by
  by_cases hsimple : (statementShape c).isSimple = true
  · obtain ⟨passed, last, hsplit, hpassed, hlast⟩ :=
      closed_statementOf (Enclosed.unbroken_within source levels) hc hsimple events () d hrun
    obtain rfl : part = passed ++ [last] :=
      @List.append_cancel_right _ _ d.tokens _ (by rw [← htokens, hsplit, List.append_assoc]; rfl)
    have hshape := skipShape_of_isSimple hsimple hrun (nextIs_of_regular hregular htokens (by simp))
    exact skips_simple hc.laid hshape hsplit (List.cons_ne_nil _ _) hpassed hlast hregular.nested
  cases hshape : statementShape c with
  | block =>
      rw [hshape] at hrun
      exact skips_block hc hrun htokens hregular.nested
  | empty =>
      rw [hshape] at hrun
      cases hrun
      exact skips_empty hc.laid (kind_of_empty hshape)
  | ifChain =>
      have hword : c.here.isWord "if".toList = true :=
        isWord_of_statementShape hshape (.inl rfl) (by decide)
      rw [hshape] at hrun
      exact skips_ifChain h hc hword hrun htokens hregular.nested horderly
  | whileLoop =>
      have hword : c.here.isWord "while".toList = true :=
        isWord_of_statementShape hshape (.inr rfl) (by decide)
      rw [hshape] at hrun
      exact skips_whileLoop h hc hword hrun htokens hregular.nested horderly
  | misplaced fault =>
      rw [hshape] at hrun
      cases hrun
  | unsupported construct =>
      rw [hshape] at hrun
      obtain ⟨_, _, _, _, hhere, hrun, -⟩ := exists_of_bind_ok hrun
      cases hhere
      obtain ⟨_, _, _, _, hemit, hskip, -⟩ := exists_of_bind_ok hrun
      cases hemit
      exact skips_of_run _ _ hskip
  | _ => simp [hshape, StatementShape.isSimple] at hsimple

theorem skips_statement (h : SkipsBodies source (Enclosed.within levels)) (hc : c.Sited source)
    (hrun : statement (Enclosed.within levels) c = (events, .ok ((), d))) (htokens : c.tokens = part ++ d.tokens)
    (hregular : Token.Regular part) (horderly : Orderly source part d.tokens) :
    Skips c.tokens d.tokens := by
  rw [statement_eq_reported] at hrun
  obtain ⟨_, hstatement, -⟩ := exists_of_reported hrun
  exact skips_statementOf (c := c.relieved) h hc.relieved hstatement htokens hregular horderly

/-- At every nesting level bodies are skipped up to where they are read. -/
theorem skipsBodies_within (source : Text) (levels : Nat) : SkipsBodies source (Enclosed.within levels) := by
  induction levels with
  | zero =>
      intro c d events part hc hrun htokens hregular horderly
      rw [body, cursor_bind] at hrun
      split at hrun
      · exact skips_block hc hrun htokens hregular.nested
      · cases hrun
  | succ levels ih =>
      intro c d events part hc hrun htokens hregular horderly
      rw [body, cursor_bind] at hrun
      split at hrun
      · exact skips_block hc hrun htokens hregular.nested
      · obtain ⟨_, _, _, _, hhere, hrun, -⟩ := exists_of_bind_ok hrun
        cases hhere
        obtain ⟨_, _, _, _, hemit, hrun, -⟩ := exists_of_bind_ok hrun
        cases hemit
        obtain ⟨_, _, e, _, hstatement, hrun, -⟩ := exists_of_bind_ok hrun
        cases hrun
        exact skips_statement ih hc hstatement htokens hregular horderly

/-- A statement that is read is skipped up to where it is read, if it and the statements in it are
regular. -/
theorem skipStatement_ends (hc : c.Sited source)
    (hrun : (Enclosed.within levels).statement c = (events, .ok ((), d)))
    (htokens : c.tokens = part ++ d.tokens) (hregular : Token.Regular part)
    (horderly : Orderly source part d.tokens) :
    ∃ inside e, skipStatement c = (inside, .ok ((), e)) ∧ e.tokens = d.tokens := by
  cases levels with
  | zero => cases hrun
  | succ levels =>
      exact skips_statement (skipsBodies_within source levels) hc hrun htokens hregular horderly c rfl

/-- A branch with assignments on both sides. -/
def branchedAssignment : Text := "if (a) x = 1; else y = 2;".toList

def branchedTokens : List Token :=
  [⟨⟨1, 0, 2⟩, .word, ['i', 'f']⟩, ⟨⟨1, 3, 4⟩, .openParen, ['(']⟩, ⟨⟨1, 4, 5⟩, .word, ['a']⟩,
    ⟨⟨1, 5, 6⟩, .closeParen, [')']⟩, ⟨⟨1, 7, 8⟩, .word, ['x']⟩, ⟨⟨1, 9, 10⟩, .operator, ['=']⟩,
    ⟨⟨1, 11, 12⟩, .number, ['1']⟩, ⟨⟨1, 12, 13⟩, .semicolon, [';']⟩,
    ⟨⟨1, 14, 18⟩, .word, ['e', 'l', 's', 'e']⟩, ⟨⟨1, 19, 20⟩, .word, ['y']⟩,
    ⟨⟨1, 21, 22⟩, .operator, ['=']⟩, ⟨⟨1, 23, 24⟩, .number, ['2']⟩, ⟨⟨1, 24, 25⟩, .semicolon, [';']⟩]

/-- Behind its head the branch holds no bracket and no `record`, whatever is embedded in it. -/
theorem orderly_branched (after : List Token) : Orderly branchedAssignment branchedTokens after := by
  intro before inside behind hsplit hleads _
  have hbehind : ∀ n ≤ 13, openBrackets? [] (branchedTokens.take n) = some [] → n ≤ 1 ∨ 4 ≤ n := by decide
  have hplain : ∀ t ∈ branchedTokens.drop 4, ¬ t.kind.isOpener ∧ ¬ t.kind.isCloser ∧
      t.isWord "record".toList = false := by decide
  have htake : branchedTokens.take before.length = before := by rw [hsplit, List.take_left]
  have hlength : before.length ≤ 13 := by
    have htotal := congrArg List.length hsplit
    simp only [List.length_append, branchedTokens, List.length_cons, List.length_nil] at htotal
    omega
  have hfour : 4 ≤ before.length := by
    refine (hbehind _ hlength (by rw [htake]; exact hleads.nested)).resolve_left fun hle => ?_
    have hshort : before.length = 0 ∨ before.length = 1 := by omega
    rcases hshort with hzero | hone
    · obtain rfl := List.eq_nil_of_length_eq_zero hzero
      rcases hleads.leads with ⟨qs, t, hqs, -⟩ | ⟨qs, t, head, hqs, -⟩ <;> simp at hqs
    · rw [hone] at htake
      rcases hleads.leads with ⟨qs, t, rfl, helse⟩ | ⟨qs, t, head, rfl, -, hhead⟩
      · obtain rfl : qs = [] := by simpa using hone
        obtain rfl : branchedTokens.head (by decide) = t := by simpa [branchedTokens] using htake
        revert helse
        decide
      · obtain rfl : head = [] := List.eq_nil_of_length_eq_zero (by simp at hone; omega)
        exact absurd rfl hhead.ne_nil
  have hinside (t : Token) (ht : t ∈ inside) : t ∈ branchedTokens.drop 4 := by
    have hdrop : branchedTokens.drop 4 = before.drop 4 ++ (inside ++ behind) := by
      rw [hsplit, List.drop_append_of_le_length hfour]
    simp [hdrop, ht]
  refine ⟨Token.openBrackets?_of_plain fun t ht => ?_, ?_⟩
  · exact ⟨(hplain t (hinside t ht)).1, (hplain t (hinside t ht)).2.1⟩
  · rintro t rest rfl hrecord
    have hnot := (hplain t (hinside t List.mem_cons_self)).2.2
    cases hnot.symm.trans hrecord

/-- The cursor so many tokens from the start. -/
def branchedAssignmentAt (n : Nat) : Cursor :=
  let word : Token := ⟨⟨1, 0, 2⟩, .word, ['i', 'f']⟩
  Cursor.forward n ⟨word, word, branchedTokens.tail ++ [⟨⟨1, 25, 25⟩, .endOfInput, []⟩], []⟩

theorem skipStatement_ends_branched : (branchedAssignmentAt 0).Sited branchedAssignment ∧
    (∃ events, (Enclosed.within 3).statement (branchedAssignmentAt 0) =
      (events, .ok ((), branchedAssignmentAt 13))) ∧
    (branchedAssignmentAt 0).tokens = branchedTokens ++ (branchedAssignmentAt 13).tokens ∧
    Token.Regular branchedTokens ∧
    Orderly branchedAssignment branchedTokens (branchedAssignmentAt 13).tokens ∧
    ∃ inside e, skipStatement (branchedAssignmentAt 0) = (inside, .ok ((), e)) ∧
      e.tokens = (branchedAssignmentAt 13).tokens := by
  obtain ⟨tokens, htokens, hstart⟩ : ∃ tokens, lex branchedAssignment = .ok tokens ∧
      Cursor.ofTokens tokens = some (branchedAssignmentAt 0) := Except.exists_of_map_eq (by decide +kernel)
  have hsited : (branchedAssignmentAt 0).Sited branchedAssignment :=
    Cursor.sited_of_ofTokens (laid_of_lex htokens) hstart
  obtain ⟨events, hread⟩ : ∃ events, (Enclosed.within 3).statement (branchedAssignmentAt 0) =
      (events, .ok ((), branchedAssignmentAt 13)) := ⟨_, Prod.ext rfl (by decide +kernel)⟩
  have hregular : Token.Regular branchedTokens := by
    refine ⟨by decide, ?_⟩
    rintro t rest hcons hrecord
    obtain ⟨rfl, -⟩ := List.cons.inj hcons
    cases hrecord
  have horderly := orderly_branched (branchedAssignmentAt 13).tokens
  exact ⟨hsited, ⟨events, hread⟩, rfl, hregular, horderly,
    skipStatement_ends hsited hread rfl hregular horderly⟩

/-- Wherever a statement of the source is read, it is skipped to the same token. -/
def SkipsAsRead (source : Text) : Prop :=
  ∀ tokens start c d levels events, lex source = .ok tokens → openBrackets? [] tokens = some [] →
    Cursor.ofTokens tokens = some start → start.Reaches c →
    (Enclosed.within levels).statement c = (events, .ok ((), d)) →
    ∃ inside e, skipStatement c = (inside, .ok ((), e)) ∧ e.tokens = d.tokens

def recordAssigned : Text := "record = 5;".toList

/-- The cursor so many tokens from the start. -/
def recordAssignedAt (n : Nat) : Cursor :=
  let word : Token := ⟨⟨1, 0, 6⟩, .word, "record".toList⟩
  Cursor.forward n ⟨word, word, [⟨⟨1, 7, 8⟩, .operator, ['=']⟩, ⟨⟨1, 9, 10⟩, .number, ['5']⟩,
    ⟨⟨1, 10, 11⟩, .semicolon, [';']⟩, ⟨⟨1, 11, 11⟩, .endOfInput, []⟩], []⟩

/-- An assignment to `record` is read, but it is skipped as a declaration and has no body. -/
theorem not_skipsAsRead_record : ¬ SkipsAsRead recordAssigned := by
  intro hall
  obtain ⟨tokens, htokens, hfacts⟩ : ∃ tokens, lex recordAssigned = .ok tokens ∧
      (openBrackets? [] tokens, Cursor.ofTokens tokens) = (some [], some (recordAssignedAt 0)) :=
    Except.exists_of_map_eq (by decide +kernel)
  obtain ⟨hopen, hstart⟩ := Prod.mk.inj hfacts
  have hread : (Enclosed.within 2).statement (recordAssignedAt 0) = ([.expressionStatement ⟨1, 0, 6⟩,
      .openExpression ⟨1, 0, 6⟩, .closeExpression ⟨1, 9, 10⟩ false], .ok ((), recordAssignedAt 4)) := by
    decide +kernel
  obtain ⟨inside, e, hrun, -⟩ := hall tokens _ (recordAssignedAt 0) _ 2 _ htokens hopen hstart (.refl _) hread
  have hskipped : skipStatement (recordAssignedAt 0) = ([], .error ⟨1, .missingBody "record".toList⟩) := by
    decide +kernel
  cases hskipped.symm.trans hrun

/-- A bracket that is opened in type arguments and closed behind the statement. -/
def bracketInType : Text := "A<[> b; ]".toList

/-- The cursor so many tokens from the start. -/
def bracketInTypeAt (n : Nat) : Cursor :=
  let name : Token := ⟨⟨1, 0, 1⟩, .word, ['A']⟩
  Cursor.forward n ⟨name, name, [⟨⟨1, 1, 2⟩, .operator, ['<']⟩, ⟨⟨1, 2, 3⟩, .openBracket, ['[']⟩,
    ⟨⟨1, 3, 4⟩, .operator, ['>']⟩, ⟨⟨1, 5, 6⟩, .word, ['b']⟩, ⟨⟨1, 6, 7⟩, .semicolon, [';']⟩,
    ⟨⟨1, 8, 9⟩, .closeBracket, [']']⟩, ⟨⟨1, 9, 9⟩, .endOfInput, []⟩], []⟩

/-- That the brackets of the statement nest does not follow from those of the source nesting. -/
theorem not_skipsAsRead_bracket : ¬ SkipsAsRead bracketInType := by
  intro hall
  obtain ⟨tokens, htokens, hfacts⟩ : ∃ tokens, lex bracketInType = .ok tokens ∧
      (openBrackets? [] tokens, Cursor.ofTokens tokens) = (some [], some (bracketInTypeAt 0)) :=
    Except.exists_of_map_eq (by decide +kernel)
  obtain ⟨hopen, hstart⟩ := Prod.mk.inj hfacts
  obtain ⟨events, hread⟩ : ∃ events, (Enclosed.within 2).statement (bracketInTypeAt 0) =
      (events, .ok ((), bracketInTypeAt 6)) := ⟨_, Prod.ext rfl (by decide +kernel)⟩
  obtain ⟨inside, e, hrun, -⟩ := hall tokens _ (bracketInTypeAt 0) _ 2 _ htokens hopen hstart (.refl _) hread
  have hskipped : (skipStatement (bracketInTypeAt 0)).2.toOption.isSome = false := by decide +kernel
  rw [hrun] at hskipped
  cases hskipped

end Reading

end CodeFrames
