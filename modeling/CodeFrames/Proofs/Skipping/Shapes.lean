import CodeFrames.Proofs.Brackets.Basic

/-!
# The shapes of skipped statements

How a statement is skipped is told by its first tokens.  The statements in it have a budget to spend
that the tokens ahead never use up.
-/

namespace CodeFrames

namespace Reading

variable {α β : Type} {source : Text} {c : Cursor}

theorem mem_skipWords {word : Text} {shape : SkipShape} (h : skipWords.lookup word = some shape) :
    (word, shape) ∈ skipWords := by
  obtain ⟨before, after, hwords, -⟩ := List.lookup_eq_some_iff.mp h
  rw [hwords]
  exact List.mem_append_right before List.mem_cons_self

/-- No word stands for an empty statement or a label. -/
theorem skipWord_ne {word : Text} {shape : SkipShape} (h : skipWords.lookup word = some shape) :
    shape ≠ .empty ∧ shape ≠ .labelled := by
  have hmem := mem_skipWords h
  constructor <;> rintro rfl <;> simp [skipWords] at hmem

theorem kind_of_skipEmpty (h : skipShape c = .empty) : c.here.kind = .semicolon := by
  rw [skipShape] at h
  split at h
  · cases h
  · assumption
  · split at h
    · next hlookup => exact absurd h (skipWord_ne hlookup).1
    · split_ifs at h
  · cases h

theorem isLabel_of_skipLabelled (h : skipShape c = .labelled) : isLabel c = true := by
  rw [skipShape] at h
  split at h
  · cases h
  · cases h
  · split at h
    · next hlookup => exact absurd h (skipWord_ne hlookup).2
    · split_ifs at h
      assumption
  · cases h

/-- A shape that words stand for is told by one of them. -/
theorem exists_word_of_skipShape {shape : SkipShape} (h : skipShape c = shape)
    (hshape : shape ∈ skipWords.map Prod.snd) :
    ∃ word, c.here.isWord word = true ∧ (word, shape) ∈ skipWords := by
  have hother {other : SkipShape} (hother : other ∉ skipWords.map Prod.snd) (h : other = shape) :
      ∃ word, c.here.isWord word = true ∧ (word, shape) ∈ skipWords := absurd (h ▸ hshape) hother
  rw [skipShape] at h
  split at h
  · exact hother (by decide) h
  · exact hother (by decide) h
  · next hkind =>
      split at h
      · next hlookup => exact ⟨c.here.text, by simp [Token.isWord, hkind], h ▸ mem_skipWords hlookup⟩
      · split_ifs at h
        · exact hother (by simp [skipWords]) h
        · exact hother (by decide) h
        · exact hother (by decide) h
  · exact hother (by decide) h

theorem kind_of_skipGroup (h : skipShape c = .group) : c.here.kind = .openBrace := by
  rw [skipShape] at h
  split at h
  · assumption
  · cases h
  · split at h
    · next hlookup => exact absurd (h ▸ mem_skipWords hlookup) (by simp [skipWords])
    · split_ifs at h
  · cases h

theorem isTypeWord_of_skipShape {word : Text} (h : skipShape c = .typeDeclaration word) :
    c.here.isWordIn Token.typeWords = true := by
  rw [skipShape] at h
  split at h
  · cases h
  · cases h
  · split at h
    · next hlookup => exact absurd (h ▸ mem_skipWords hlookup) (by simp [skipWords])
    · split_ifs at h
      assumption
  · cases h

/-- No token starts a simple statement that tells of another shape. -/
theorem starts_of_skipSimple (h : skipShape c = .simple) :
    c.here.kind ≠ .openBrace ∧ c.here.kind ≠ .semicolon ∧
      (c.here.kind = .word → skipWords.lookup c.here.text = none) ∧ ¬ c.here.isWordIn Token.typeWords := by
  rw [skipShape] at h
  split at h
  · cases h
  · cases h
  · next hkind =>
      split at h
      · next hlookup => exact absurd (h ▸ mem_skipWords hlookup) (by simp [skipWords])
      · next hlookup =>
          split_ifs at h with htype
          exact ⟨by simp [hkind], by simp [hkind], fun _ => hlookup, htype⟩
  · next hbrace hsemicolon hword =>
      exact ⟨hbrace, hsemicolon, fun hkind => absurd hkind hword,
        fun htype => hword (Token.kind_of_isWordIn htype)⟩

theorem not_isEnd_of_skipShape {shape : SkipShape} (h : skipShape c = shape) (hne : shape ≠ .simple) :
    ¬ c.here.isEnd := by
  rcases kind_of_skipShape h hne with h | h | h <;> exact not_isEnd_of_kind h (by decide)

/-- A name and the colon behind it are no end of input. -/
theorem not_isEnd_of_isLabel (h : isLabel c = true) : ∀ t ∈ c.tokens.take 2, ¬ t.isEnd := by
  obtain ⟨before, here, ahead, comments⟩ := c
  obtain ⟨hname, hcolon⟩ := Bool.and_eq_true_iff.mp h
  cases ahead with
  | nil => cases hcolon
  | cons t ts =>
      have hword := not_isEnd_of_kind (Token.kind_of_isName hname) (by decide)
      have hmark : ¬ t.isEnd := not_isEnd_of_kind (@kind_of_isOperator t [':'] hcolon) (by decide)
      intro u hu
      rcases List.mem_cons.mp hu with rfl | hu
      · exact hword
      · rwa [List.mem_singleton.mp hu]

/-! ## Statements in statements -/

/-- Steps over one statement; `deep` steps over the statements in it that are nested deeper than so
many levels. -/
def skipOver (deep : Reading Unit) : Nat → Reading Unit
  | 0 => deep
  | levels + 1 => do
      match skipShape (← cursor) with
      | .group => skipGroup
      | .empty => let _ ← take
      | .ifElse =>
          skipWordAndGroup
          skipOver deep levels
          if (← cursor).isAtWord "else" then
            let _ ← take
            skipOver deep levels
      | .loop =>
          skipWordAndGroup
          skipOver deep levels
      | .headAndBlock =>
          skipWordAndGroup
          skipGroup
      | .doWhile =>
          let _ ← take
          skipOver deep levels
          if (← cursor).isAtWord "while" then
            skipWordAndGroup
            let _ ← expect .semicolon ";"
          else fail .doWithoutWhile
      | .tryCatch => skipTry
      | .typeDeclaration word => skipTypeBody word
      | .labelled =>
          forward 2
          skipOver deep levels
      | .simple => skipToSemicolon

theorem bind_congr_of_ok {r r' : Reading α} {f g : α → Reading β} (hr : r c = r' c)
    (h : ∀ events a d, r c = (events, .ok (a, d)) → f a d = g a d) : (r >>= f) c = (r' >>= g) c := by
  cases hrun : r c with
  | mk events result =>
      have hrun' := hr.symm.trans hrun
      cases result with
      | error e => rw [bind_of_error f hrun, bind_of_error g hrun']
      | ok p => rw [bind_of_ok f hrun, bind_of_ok g hrun', h events p.1 p.2 hrun]

/-- What steps over the statements in a statement plays a role further on only, if it goes forward. -/
theorem skipOver_congr {deep deep' : Reading Unit} (hc : Token.Laid source c.tokens)
    (hdeep : ∀ d, c.Passes d → ∀ events u e, deep d = (events, .ok (u, e)) → d.Reaches e)
    (h : ∀ d, c.Passes d → deep d = deep' d) : skipOver deep 1 c = skipOver deep' 1 c := by
  have htake (hshape : skipShape c ≠ .simple) : take.AdvancesAt c :=
    advancesAt_take hc (not_isEnd_of_skipShape rfl hshape)
  have hhead (hshape : skipShape c ≠ .simple) : skipWordAndGroup.AdvancesAt c :=
    (htake hshape).bind_left hc fun _ => Reports.skipGroup
  simp only [skipOver, Reading.cursor_bind]
  cases hshape : skipShape c with
  | ifElse =>
      refine bind_congr_of_ok rfl fun events u d hd => ?_
      have hpasses := hhead (by simp [hshape]) events u d hd
      refine bind_congr_of_ok (h d hpasses) fun more u e he => ?_
      have hbehind := hpasses.trans_reaches (hdeep d hpasses more u e he)
      rw [Reading.cursor_bind, Reading.cursor_bind]
      split
      · exact h _ (hbehind.trans_reaches e.reaches_advance)
      · rfl
  | loop =>
      exact bind_congr_of_ok rfl fun events u d hd => h d (hhead (by simp [hshape]) events u d hd)
  | doWhile =>
      refine bind_congr_of_ok rfl fun events t d hd => ?_
      exact bind_congr_of_ok (h d (htake (by simp [hshape]) events t d hd)) fun _ _ _ _ => rfl
  | labelled =>
      refine bind_congr_of_ok rfl fun events u d hd => h d ?_
      have hend := not_isEnd_of_skipShape hshape (by simp)
      exact advancesAt_forward hc hend Nat.two_pos events u d hd
  | _ => rfl

/-! ## The budget for skipped statements -/

theorem skipNested_cons (t : Token) (budget : List Token) :
    skipNested (t :: budget) = skipOver (skipNested budget) 1 := by
  rw [skipNested, skipOver]
  refine congrArg (cursor >>= ·) (funext fun c => ?_)
  cases skipShape c <;> rfl

theorem reaches_skipNested {budget : List Token} (hc : Token.Laid source c.tokens) (d : Cursor)
    (hpasses : c.Passes d) (events : List Event) (u : Unit) (e : Cursor)
    (hrun : skipNested budget d = (events, .ok (u, e))) : d.Reaches e :=
  (Reports.skipNested budget).reaches (hpasses.reaches.laid hc) hrun

theorem skipNested_of_ahead {budget : List Token} (hc : Token.Laid source c.tokens) (hnil : c.ahead = []) :
    skipNested budget c = skipToSemicolon c := by
  cases budget with
  | nil => rfl
  | cons t budget =>
      have hend : c.here.isEnd = true := by
        obtain ⟨inside, last, hsplit, hlast, -⟩ := hc.ended
        rw [Cursor.tokens, hnil] at hsplit
        obtain ⟨-, rfl⟩ := by simpa using List.append_inj' (show [] ++ _ = _ from hsplit) rfl
        exact hlast
      rw [skipNested, Reading.cursor_bind, skipShape, show c.here.kind = .endOfInput from by
        simpa [Token.isEnd] using hend]

/-- Any budget that the tokens ahead do not exceed is as good as any other. -/
theorem skipNested_of_budget {budget budget' : List Token} (hc : Token.Laid source c.tokens)
    (h : c.ahead.length ≤ budget.length) (h' : c.ahead.length ≤ budget'.length) :
    skipNested budget c = skipNested budget' c := by
  induction budget generalizing budget' c with
  | nil =>
      have hnil := List.eq_nil_of_length_eq_zero (Nat.le_zero.mp h)
      rw [skipNested_of_ahead hc hnil, skipNested_of_ahead hc hnil]
  | cons t budget ih =>
      cases budget' with
      | nil =>
          have hnil := List.eq_nil_of_length_eq_zero (Nat.le_zero.mp h')
          rw [skipNested_of_ahead hc hnil, skipNested_of_ahead hc hnil]
      | cons t' budget' =>
          rw [skipNested_cons, skipNested_cons]
          refine skipOver_congr hc (reaches_skipNested hc) fun d hpasses => ?_
          have hlength := hpasses.length_lt
          rw [List.length_cons] at h h'
          exact ih (hpasses.reaches.laid hc) (by omega) (by omega)

/-- A skipped statement has no budget to spend: the statements in it start further on, where they are
skipped the same way. -/
theorem skipStatement_eq_skipOver {deep : Reading Unit} (hc : Token.Laid source c.tokens)
    (h : ∀ d, c.Passes d → deep d = skipStatement d) : skipStatement c = skipOver deep 1 c := by
  have hlonger : skipStatement c = skipNested (c.here :: c.ahead) c :=
    skipNested_of_budget hc le_rfl (Nat.le_succ _)
  rw [hlonger, skipNested_cons]
  refine skipOver_congr hc (reaches_skipNested hc) fun d hpasses => ?_
  rw [h d hpasses]
  exact skipNested_of_budget (hpasses.reaches.laid hc) hpasses.length_lt.le le_rfl

theorem skipStatement_unfold (hc : Token.Laid source c.tokens) :
    skipStatement c = skipOver skipStatement 1 c := skipStatement_eq_skipOver hc fun _ _ => rfl

end Reading

end CodeFrames
