import CodeFrames.Proofs.Searches.Statement

/-!
# Where groups are found

A search comes to the first group ahead of its start, from its opening bracket through the bracket that
closes as many as have been opened, or it ends the run.  What stands between the start and the group is
passed over with it: only a search at an opening bracket passes over nothing else, and nothing makes sure
that the head or the block of a statement that is stepped over starts with its bracket.
-/

namespace CodeFrames

namespace Token

/-! ## Groups behind other tokens -/

/-- A group from an opening bracket through the one that closes as many as have been opened, with tokens
in front of it that are neither brackets nor the end of input. -/
structure GroupBehind (front : List Token) (opener : Token) (inside : List Token) (closer : Token) :
    Prop where
  plain : ∀ t ∈ front, ¬ t.kind.isOpener ∧ ¬ t.kind.isCloser ∧ ¬ t.isEnd
  opens : opener.kind.isOpener
  closes : Closing 1 (inside ++ [closer])

variable {t opener closer : Token} {front inside ps : List Token} {kinds opened : List Kind}

theorem GroupBehind.cons (hopener : ¬ t.kind.isOpener) (hcloser : ¬ t.kind.isCloser) (hend : ¬ t.isEnd)
    (h : GroupBehind front opener inside closer) : GroupBehind (t :: front) opener inside closer where
  plain := List.forall_mem_cons.mpr ⟨⟨hopener, hcloser, hend⟩, h.plain⟩
  opens := h.opens
  closes := h.closes

/-- Where no group is open, the tokens through the end of one begin with those in front of it. -/
theorem closing_zero_iff : Closing 0 ps ↔ ∃ front opener inside closer,
    ps = front ++ opener :: (inside ++ [closer]) ∧ GroupBehind front opener inside closer := by
  constructor
  · intro h
    generalize hdepth : 0 = depth at h
    induction h with
    | @opener depth t ps hopener hps _ =>
        subst hdepth
        obtain ⟨inside, closer, rfl⟩ := (List.eq_nil_or_concat' _).resolve_left hps.ne_nil
        exact ⟨[], t, inside, closer, rfl, nofun, hopener, hps⟩
    | closer => cases hdepth
    | last => cases hdepth
    | plain hopener hcloser hend _ ih =>
        obtain ⟨front, opener, inside, closer, rfl, hgroup⟩ := ih hdepth
        exact ⟨_ :: front, opener, inside, closer, rfl, hgroup.cons hopener hcloser hend⟩
  · rintro ⟨front, opener, inside, closer, rfl, hplain, hopens, hcloses⟩
    induction front with
    | nil => exact .opener hopens hcloses
    | cons t front ih =>
        obtain ⟨⟨hopener, hcloser, hend⟩, hfront⟩ := List.forall_mem_cons.mp hplain
        exact .plain hopener hcloser hend (ih hfront)

/-- The last token of a group closes a bracket. -/
theorem Closing.isCloser {depth : Nat} (h : Closing depth (inside ++ [closer])) :
    ¬ closer.kind.isOpener ∧ closer.kind.isCloser := by
  induction inside generalizing depth with
  | nil =>
      cases h with
      | opener _ h => exact absurd rfl h.ne_nil
      | closer _ _ h => exact absurd rfl h.ne_nil
      | last hopener hcloser => exact ⟨hopener, hcloser⟩
      | plain _ _ _ h => exact absurd rfl h.ne_nil
  | cons t inside ih =>
      rw [List.cons_append] at h
      generalize hrest : inside ++ [closer] = rest at h
      cases h with
      | opener _ h => exact ih (hrest ▸ h)
      | closer _ _ h => exact ih (hrest ▸ h)
      | last => simp at hrest
      | plain _ _ _ h => exact ih (hrest ▸ h)

/-- Where brackets nest by kind, the group ends with the bracket that belongs to its first one. -/
theorem GroupBehind.matches (h : GroupBehind front opener inside closer)
    (hopen : openBrackets? kinds (opener :: (inside ++ [closer])) = some opened) :
    openBrackets? (opener.kind :: kinds) inside = some (opener.kind :: kinds) ∧
      Kind.matches opener.kind closer.kind = true ∧ opened = kinds := by
  rw [openBrackets?_opener h.opens] at hopen
  obtain rfl : opened = kinds :=
    openBrackets?_closing h.closes (List.length_singleton (a := opener.kind)) hopen
  rw [openBrackets?_append] at hopen
  obtain ⟨between, hinside, hlast⟩ := Option.bind_eq_some_iff.mp hopen
  obtain ⟨hopener, hcloser⟩ := h.closes.isCloser
  obtain ⟨kind, rfl, hmatches⟩ := exists_of_openBrackets?_closer hopener hcloser hlast
  obtain ⟨others, hothers⟩ := openBrackets?_of_closing_append h.closes (List.cons_ne_nil _ _)
    (show ([] : List Kind).length + 1 = 1 from rfl) hinside
  -- no bracket is open inside any more, so the first one is the innermost
  obtain rfl : others = [] := by
    have hlength := congrArg List.length hothers
    simp only [List.length_cons, List.length_append] at hlength
    exact List.eq_nil_of_length_eq_zero (by omega)
  obtain rfl : kind = opener.kind := (List.cons.inj hothers).1
  exact ⟨hinside, hmatches, rfl⟩

end Token

/-! ## What a search comes to -/

namespace Search

/-- The search steps over a group up to the cursor, and over what stands in front of it. -/
structure Finds (q : Search) (front : List Token) (opener : Token) (inside : List Token) (closer : Token)
    (d : Cursor) : Prop where
  skips : (Reading.skipGroup q.start).2 = .ok ((), d)
  spans : q.start.Spans (front ++ opener :: (inside ++ [closer])) d
  group : Token.GroupBehind front opener inside closer
  /-- It steps over nothing else if it starts at a bracket. -/
  front_nil : q.start.here.kind.isOpener = true ↔ front = []
  /-- Kinds of brackets make no difference to it, but where they nest the group ends with the closing
  bracket of the opening one. -/
  nests : ∀ kinds opened, Token.openBrackets? kinds (opener :: (inside ++ [closer])) = some opened →
    Token.openBrackets? (opener.kind :: kinds) inside = some (opener.kind :: kinds) ∧
      Token.Kind.matches opener.kind closer.kind = true ∧ opened = kinds

/-- There is no group ahead: a closing bracket or the end of input comes first, or the end of input comes
inside. -/
def Misses (q : Search) : Prop :=
  ¬ ∃ front opener inside closer rest, q.start.tokens = front ++ opener :: (inside ++ [closer]) ++ rest ∧
    Token.GroupBehind front opener inside closer

/-- The tokens are a group that one of the searches has come to in that role. -/
def Found (searches : List Search) (role : GroupRole) (ps : List Token) : Prop :=
  ∃ q ∈ searches, q.role = role ∧ ∃ d, (Reading.skipGroup q.start).2 = .ok ((), d) ∧ q.start.Spans ps d

variable {source : Text} {q : Search} {d : Cursor}

theorem exists_finds (hq : q.start.Sited source) (h : (Reading.skipGroup q.start).2 = .ok ((), d)) :
    ∃ front opener inside closer, q.Finds front opener inside closer d := by
  have hskips := h
  cases hlength : Token.groupLength? q.start.tokens with
  | none =>
      rw [Reading.skipGroup, Reading.cursor_bind, hlength] at h
      cases h
  | some n =>
      rw [Reading.skipGroup_of_length hlength] at h
      cases h
      have hspans := Cursor.spans_forward hq.laid (Token.not_isEnd_of_groupFrom hlength)
      obtain ⟨ps, rest, htokens, hps, hclosing⟩ := Token.exists_of_groupLength? hlength
      obtain ⟨front, opener, inside, closer, rfl, hgroup⟩ := Token.closing_zero_iff.mp hclosing
      rw [htokens, List.take_append_of_le_length hps.ge, List.take_of_length_le hps.le] at hspans
      refine ⟨front, opener, inside, closer, hskips, hspans, hgroup, ?_, fun _ _ => hgroup.matches⟩
      cases front with
      | nil =>
          have hhere : q.start.here = opener := (List.cons.inj htokens).1
          exact iff_of_true (hhere ▸ hgroup.opens) rfl
      | cons t front =>
          have hhere : q.start.here = t := (List.cons.inj htokens).1
          exact iff_of_false (hhere ▸ (hgroup.plain t List.mem_cons_self).1) (List.cons_ne_nil _ _)

theorem misses_of_error {e : SourceError} (h : (Reading.skipGroup q.start).2 = .error e) :
    q.Misses ∧ e = ⟨q.start.here.line, .unbalanced q.start.here.found⟩ := by
  cases hlength : Token.groupLength? q.start.tokens with
  | none =>
      rw [Reading.skipGroup, Reading.cursor_bind, hlength] at h
      refine ⟨?_, by cases h; rfl⟩
      rintro ⟨front, opener, inside, closer, rest, htokens, hgroup⟩
      have hclosing := Token.closing_zero_iff.mpr ⟨front, opener, inside, closer, rfl, hgroup⟩
      have hsome := Token.groupLengthFrom?_eq_some.mpr ⟨_, rest, htokens, rfl, hclosing⟩
      cases hlength.symm.trans hsome
  | some n =>
      rw [Reading.skipGroup_of_length hlength] at h
      cases h

theorem grants_found {searches : List Search} (hq : q ∈ searches) : q.Grants (Found searches) :=
  fun _ d hskips hspans => ⟨q, hq, rfl, d, hskips, hspans⟩

end Search

/-! ## The recoveries -/

/-- Wherever code is stepped over, and whatever it is, every search of the run starts at a bracket unless
it is for the head or the block of a statement, comes to a group or ends the run, and what is stepped over
as a statement is one whose heads and blocks are what has been found. -/
theorem recovery_searches {source : Text} {tokens : List Token} (htokens : lex source = .ok tokens) :
    ∃ start, Cursor.ofTokens tokens = some start ∧
      ∀ c, start.Reaches c → ∀ (recovery : Reading.Recovery) (searches : List Search)
        (result : Except SourceError (Unit × Cursor)),
        Searching.ofRecovery recovery c = (searches, result) →
          result = (recovery.reading c).2 ∧
          (∀ q ∈ searches, c.Reaches q.start ∧
            (q.role = .seen → q.start.here.kind.isOpener = true) ∧
            ((∃ front opener inside closer d, q.Finds front opener inside closer d) ∨
              q.Misses ∧ result = .error ⟨q.start.here.line, .unbalanced q.start.here.found⟩)) ∧
          (recovery = .statement → ∀ d, result = .ok ((), d) →
            ∃ ps, c.Spans ps d ∧ SkippedStatement (Search.Found searches) ps) := by
  have hlaid := laid_of_lex htokens
  obtain ⟨start, hstart⟩ := Cursor.exists_ofTokens hlaid
  refine ⟨start, hstart, fun c hreaches recovery searches result hrun => ?_⟩
  have hc := (Cursor.sited_of_ofTokens hlaid hstart).reaching hreaches
  have hsound := (Searching.sound_ofRecovery recovery c hc).searches
  rw [hrun] at hsound
  refine ⟨?_, fun q hq => ?_, ?_⟩
  · exact (congrArg Prod.snd hrun).symm.trans (Searching.follows_ofRecovery recovery c)
  · obtain ⟨hforward, hopens, hstops⟩ := hsound q hq
    refine ⟨hforward, hopens, ?_⟩
    cases hgroup : (Reading.skipGroup q.start).2 with
    | ok found =>
        obtain ⟨front, opener, inside, closer, hfinds⟩ :=
          Search.exists_finds (hc.reaching hforward) hgroup
        exact .inl ⟨front, opener, inside, closer, found.2, hfinds⟩
    | error e =>
        obtain ⟨hmisses, rfl⟩ := Search.misses_of_error hgroup
        exact .inr ⟨hmisses, hstops _ hgroup⟩
  · rintro rfl d rfl
    exact Searching.steps_skipStatement hc searches () d hrun fun _ => Search.grants_found

/-- A statement with its resources, a handler, and a block for the end. -/
def tryWithHandlers : Text :=
  "try (r) \x7b f(); \x7d catch (E e) \x7b \x7d finally \x7b \x7d".toList

theorem recovery_searches_tryWithHandlers : ∃ tokens start searches d,
    lex tryWithHandlers = .ok tokens ∧ Cursor.ofTokens tokens = some start ∧
    Searching.ofRecovery .statement start = (searches, .ok ((), d)) ∧
    searches.map (·.role) = [.seen, .block, .head, .block, .block] ∧
    (∀ q ∈ searches, ∃ front opener inside closer d, q.Finds front opener inside closer d) ∧
    ∃ ps, start.Spans ps d ∧ SkippedStatement (Search.Found searches) ps := by
  let summary (c : Cursor) : Bool × List GroupRole :=
    ((Searching.ofRecovery .statement c).2.isOk, (Searching.ofRecovery .statement c).1.map (·.role))
  obtain ⟨tokens, htokens, hsummary⟩ : ∃ tokens, lex tryWithHandlers = .ok tokens ∧
      (Cursor.ofTokens tokens).map summary = some (true, [.seen, .block, .head, .block, .block]) :=
    Except.exists_of_map_eq (by decide +kernel)
  obtain ⟨start, hstart, hall⟩ := recovery_searches htokens
  rw [hstart, Option.map_some, Option.some.injEq, Prod.mk.injEq] at hsummary
  obtain ⟨⟨u, d⟩, hresult⟩ := Except.exists_of_isOk hsummary.1
  have hrun : Searching.ofRecovery .statement start = (_, .ok ((), d)) := Prod.ext rfl hresult
  obtain ⟨-, hsearches, hskipped⟩ := hall start (.refl start) .statement _ _ hrun
  refine ⟨tokens, start, _, d, htokens, hstart, hrun, hsummary.2, fun q hq => ?_, hskipped rfl d rfl⟩
  exact (hsearches q hq).2.2.resolve_right nofun

/-- A head that is missing, with a call behind the block. -/
def headlessSwitch : Text := "switch x \x7b \x7d f();".toList

/-- The braces are passed as the head, and the parentheses of the call as the block: the call is stepped
over with the statement, and the source is accepted. -/
theorem not_searches_at_bracket : ¬ ∀ (source : Text) (tokens : List Token) (start c : Cursor)
    (construct : String), lex source = .ok tokens → Cursor.ofTokens tokens = some start →
      (readEvents source).2 = .ok () → start.Reaches c →
      .unsupported c.here.toSpan construct ∈ (readEvents source).1 →
      Reading.statementShape c = .unsupported construct →
      ∀ q ∈ (Searching.skipStatement c).1, ∀ d, (Reading.skipGroup q.start).2 = .ok ((), d) →
        q.start.here.kind.isOpener = true := by
  intro hall
  let summary (c : Cursor) : Span × Reading.StatementShape × List (Bool × Bool) :=
    (c.here.toSpan, Reading.statementShape c, (Searching.skipStatement c).1.map fun q =>
      (q.start.here.kind.isOpener, (Reading.skipGroup q.start).2.isOk))
  obtain ⟨tokens, htokens, hsummary⟩ : ∃ tokens, lex headlessSwitch = .ok tokens ∧
      (Cursor.ofTokens tokens).map summary =
        some (⟨1, 0, 6⟩, .unsupported "'switch' statement", [(false, true), (false, true)]) :=
    Except.exists_of_map_eq (by decide +kernel)
  obtain ⟨start, hstart⟩ := Cursor.exists_ofTokens (laid_of_lex htokens)
  rw [hstart, Option.map_some, Option.some.injEq, Prod.mk.injEq, Prod.mk.injEq] at hsummary
  obtain ⟨hspan, hshape, hsearches⟩ := hsummary
  obtain ⟨q, others, hsplit, hq, -⟩ := List.map_eq_cons_iff.mp hsearches
  obtain ⟨hopener, hfound⟩ := Prod.mk.inj hq
  obtain ⟨⟨u, d⟩, hskips⟩ := Except.exists_of_isOk hfound
  have hreported : .unsupported start.here.toSpan "'switch' statement" ∈ (readEvents headlessSwitch).1 := by
    rw [hspan]
    decide +kernel
  have hbracket := hall headlessSwitch tokens start start _ htokens hstart (by decide +kernel) (.refl start)
    hreported hshape q (hsplit ▸ List.mem_cons_self) d hskips
  exact absurd (hopener.symm.trans hbracket) (by decide)

end CodeFrames
