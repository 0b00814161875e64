import CodeFrames.Reading.Cursor
import CodeFrames.Token.Lexer

/-!
# The layout of tokens

The tokens of a source lie in it one behind the other, each over its own text, and the last one alone
marks the end of input.  So the bytes from the start of a token to the end of one at or behind it
are a slice of the source.
-/

namespace CodeFrames

namespace Text

theorem byteSize_eq_zero {t : Text} (h : byteSize t = 0) : t = [] := by
  cases t with
  | nil => rfl
  | cons c t =>
      have hpos := c.utf8Size_pos
      simp at h
      omega

/-- Byte `n` of the text is not inside a character. -/
def IsCut (t : Text) (n : Nat) : Prop := ∃ before after, t = before ++ after ∧ byteSize before = n

theorem slice?_isSome {t : Text} {start stop : Nat} (hstart : t.IsCut start) (hstop : t.IsCut stop)
    (hle : start ≤ stop) : (slice? t start stop).isSome = true := by
  obtain ⟨before, rest, rfl, rfl⟩ := hstart
  obtain ⟨upTo, after, happend, rfl⟩ := hstop
  have hprefix : ∃ mid, upTo = before ++ mid ∧ rest = mid ++ after := by
    rcases List.append_eq_append_iff.mp happend with ⟨mid, rfl, rfl⟩ | ⟨mid, rfl, rfl⟩
    · exact ⟨mid, rfl, rfl⟩
    · obtain rfl : mid = [] := byteSize_eq_zero (by simp at hle; omega)
      exact ⟨[], by simp, by simp⟩
  obtain ⟨mid, rfl, rfl⟩ := hprefix
  rw [byteSize_append, slice?_append]
  rfl

end Text

namespace Token

/-- The token covers its text in the source. -/
def LiesIn (source : Text) (t : Token) : Prop :=
  ∃ before after, source = before ++ (t.text ++ after) ∧ t.start = Text.byteSize before ∧
    t.stop = Text.byteSize before + Text.byteSize t.text

namespace LiesIn

variable {source : Text} {t : Token}

theorem isCut_start (h : t.LiesIn source) : source.IsCut t.start := by
  obtain ⟨before, after, rfl, hstart, -⟩ := h
  exact ⟨before, t.text ++ after, rfl, hstart.symm⟩

theorem isCut_stop (h : t.LiesIn source) : source.IsCut t.stop := by
  obtain ⟨before, after, rfl, -, hstop⟩ := h
  exact ⟨before ++ t.text, after, by simp, by simp [hstop]⟩

theorem start_le_stop (h : t.LiesIn source) : t.start ≤ t.stop := by
  obtain ⟨before, after, -, hstart, hstop⟩ := h
  omega

theorem slice?_eq (h : t.LiesIn source) : Text.slice? source t.start t.stop = some t.text := by
  obtain ⟨before, after, rfl, hstart, hstop⟩ := h
  rw [hstart, hstop, Text.slice?_append]

end LiesIn

/-- The tokens lie in the source one behind the other and end with the end of input. -/
structure Laid (source : Text) (tokens : List Token) : Prop where
  liesIn : ∀ t ∈ tokens, t.LiesIn source
  ordered : tokens.Pairwise fun t u => t.stop ≤ u.start
  ended : ∃ inside last, tokens = inside ++ [last] ∧ last.isEnd ∧ ∀ t ∈ inside, ¬ t.isEnd

namespace Laid

variable {source : Text} {tokens : List Token}

theorem ne_nil (h : Laid source tokens) : tokens ≠ [] := by
  obtain ⟨inside, last, rfl, -⟩ := h.ended
  simp

theorem cons {t : Token} (ht : t.LiesIn source) (hend : ¬ t.isEnd)
    (hbehind : ∀ u ∈ tokens, t.stop ≤ u.start) (h : Laid source tokens) :
    Laid source (t :: tokens) := by
  obtain ⟨inside, last, rfl, hlast, hinside⟩ := h.ended
  refine ⟨?_, List.pairwise_cons.mpr ⟨hbehind, h.ordered⟩, t :: inside, last, rfl, hlast, ?_⟩
  · intro u hu
    rcases List.mem_cons.mp hu with rfl | hu
    · exact ht
    · exact h.liesIn u hu
  · intro u hu
    rcases List.mem_cons.mp hu with rfl | hu
    · exact hend
    · exact hinside u hu

/-- Behind a token that is not the end of input there is another one. -/
theorem tail {t : Token} (h : Laid source (t :: tokens)) (hend : ¬ t.isEnd) :
    Laid source tokens := by
  obtain ⟨inside, last, htokens, hlast, hinside⟩ := h.ended
  cases inside with
  | nil =>
      obtain ⟨rfl, rfl⟩ := by simpa using htokens
      exact absurd hlast hend
  | cons u inside =>
      obtain ⟨rfl, rfl⟩ := by simpa using htokens
      exact ⟨fun u hu => h.liesIn u (List.mem_cons_of_mem t hu), (List.pairwise_cons.mp h.ordered).2,
        inside, last, rfl, hlast, fun u hu => hinside u (List.mem_cons_of_mem t hu)⟩

theorem drop {passed : List Token} (h : Laid source (passed ++ tokens)) (hne : tokens ≠ []) :
    Laid source tokens := by
  induction passed with
  | nil => exact h
  | cons t passed ih =>
      refine ih (h.tail ?_)
      obtain ⟨inside, last, htokens, -, hinside⟩ := h.ended
      cases inside with
      | nil => simp [hne] at htokens
      | cons u inside =>
          obtain ⟨rfl, -⟩ := by simpa using htokens
          exact hinside t List.mem_cons_self

/-- The end of input is not among tokens that have others behind them. -/
theorem not_isEnd {passed : List Token} (h : Laid source (passed ++ tokens)) (hne : tokens ≠ []) :
    ∀ t ∈ passed, ¬ t.isEnd := by
  obtain ⟨inside, last, htokens, -, hinside⟩ := h.ended
  rcases List.eq_nil_or_concat tokens with rfl | ⟨more, other, rfl⟩
  · exact absurd rfl hne
  · rw [List.concat_eq_append, ← List.append_assoc] at htokens
    have heq := (List.append_inj' htokens rfl).1
    exact fun t ht => hinside t (heq ▸ List.mem_append_left _ ht)

/-- From a token to one at or behind it there is a slice of the source. -/
theorem slice?_isSome {t u : Token} (h : Laid source (t :: tokens)) (hu : u ∈ t :: tokens) :
    (Text.slice? source t.start u.stop).isSome = true := by
  have ht := h.liesIn t List.mem_cons_self
  have hlies := h.liesIn u hu
  apply Text.slice?_isSome ht.isCut_start hlies.isCut_stop
  rcases List.mem_cons.mp hu with rfl | hu
  · exact ht.start_le_stop
  · have hordered := (List.pairwise_cons.mp h.ordered).1 u hu
    have := ht.start_le_stop
    have := hlies.start_le_stop
    omega

/-- Comments are no part of what is laid out for a cursor. -/
theorem filter {p : Token → Bool} (h : Laid source tokens) (hp : ∀ t, t.isEnd → p t) :
    Laid source (tokens.filter p) := by
  obtain ⟨inside, last, rfl, hlast, hinside⟩ := h.ended
  refine ⟨fun t ht => h.liesIn t ((List.mem_filter.mp ht).1), h.ordered.filter p,
    inside.filter p, last, ?_, hlast, fun t ht => hinside t ((List.mem_filter.mp ht).1)⟩
  simp [hp last hlast]

end Laid

/-! ## What the walk over the text finds -/

theorem numberLength_pos {c : Char} {t : Text} {hex : Bool}
    (h : (c.isDigit || (c = '.' && isDigitOf t.head?)) = true) :
    0 < numberLength hex false false (c :: t) := by
  rw [numberLength.eq_def]
  by_cases hword : (c.isAlphanum || c = '_') = true
  · simp only [hword, if_true]
    split
    · split <;> omega
    · omega
  · have hdigit : c.isDigit = false := by
      simp [Char.isAlphanum] at hword
      exact hword.1.2
    have hdot : (c = '.' && isDigitOf t.head?) = true := by simpa [hdigit] using h
    simp [hword, hdot]

theorem literal_token {quote : Char} {t : Text} {kind : Kind} {size : Nat}
    (h : literal quote t = .ok (.token kind size)) : 0 < size ∧ kind ≠ .endOfInput := by
  unfold literal at h
  repeat' split at h
  all_goals simp at h
  all_goals
    obtain ⟨rfl, rfl⟩ := h
    simp

theorem punctuation?_token {t : Text} {kind : Kind} {size : Nat}
    (h : punctuation? t = some (.token kind size)) : 0 < size ∧ kind ≠ .endOfInput := by
  unfold punctuation? at h
  split at h <;> simp at h
  all_goals
    obtain ⟨rfl, rfl⟩ := h
    simp

theorem operator?_token {t : Text} {kind : Kind} {size : Nat}
    (h : operator? t = some (.token kind size)) : 0 < size ∧ kind ≠ .endOfInput := by
  simp only [operator?, Option.map_eq_some_iff, Lexeme.token.injEq] at h
  obtain ⟨op, hfind, rfl, rfl⟩ := h
  have hpos : ∀ op ∈ operators, 0 < op.length := by decide
  exact ⟨hpos op (List.mem_of_find?_eq_some hfind), by decide⟩

/-- A token is not empty, and only the walk itself marks the end of input. -/
theorem lexeme_token {c : Char} {t : Text} {kind : Kind} {size : Nat}
    (h : lexeme c t = .ok (.token kind size)) : 0 < size ∧ kind ≠ .endOfInput := by
  rw [lexeme.eq_def] at h
  split at h
  · next hslash =>
      simp only [Bool.and_eq_true, decide_eq_true_eq] at hslash
      obtain ⟨rfl, -⟩ := hslash
      simp only [lineComment, Except.ok.injEq, Lexeme.token.injEq] at h
      obtain ⟨rfl, rfl⟩ := h
      simp
  split at h
  · simp only [blockComment] at h
    split at h
    · simp only [Except.ok.injEq, Lexeme.token.injEq] at h
      obtain ⟨rfl, rfl⟩ := h
      simp
    · cases h
  split at h
  · cases h
  split at h
  · exact literal_token h
  split at h
  · next hnumber =>
      simp only [Except.ok.injEq, Lexeme.token.injEq] at h
      obtain ⟨rfl, rfl⟩ := h
      exact ⟨numberLength_pos hnumber, by decide⟩
  split at h
  · simp only [Except.ok.injEq, Lexeme.token.injEq] at h
    obtain ⟨rfl, rfl⟩ := h
    simp
  cases hpunctuation : punctuation? (c :: t) with
  | some l =>
      simp only [hpunctuation, Option.some_or, Except.ok.injEq] at h
      exact punctuation?_token (h ▸ hpunctuation)
  | none =>
      rw [hpunctuation, Option.none_or] at h
      cases hoperator : operator? (c :: t) with
      | some l =>
          simp only [hoperator, Except.ok.injEq] at h
          exact operator?_token (h ▸ hoperator)
      | none => simp [hoperator] at h

/-- The walk is `skip` characters inside a token found earlier, and `p` is where that token ends. -/
theorem tokensFrom_laid {source : Text} {t : Text} {skip : Nat} {p : Position} {before : Text}
    {tokens : List Token} (hsource : source = before ++ t)
    (hoffset : p.offset = Text.byteSize before + Text.byteSize (t.take skip))
    (h : tokensFrom skip p t = .ok tokens) :
    Laid source tokens ∧ ∀ u ∈ tokens, p.offset ≤ u.start := by
  induction t generalizing skip p before tokens with
  | nil =>
      simp only [tokensFrom, Except.ok.injEq] at h
      subst h
      have hend : (ofText .endOfInput [] p).LiesIn source :=
        ⟨before, [], by simpa [ofText] using hsource, by simpa [ofText] using hoffset,
          by simpa [ofText, Position.afterToken] using hoffset⟩
      refine ⟨⟨by simpa using hend, by simp, [], _, rfl, rfl, by simp⟩, ?_⟩
      simp [ofText]
  | cons c t ih =>
      have hmore : source = (before ++ [c]) ++ t := by simp [hsource]
      cases skip with
      | succ skip =>
          rw [tokensFrom] at h
          exact ih hmore (by simp [hoffset]; omega) h
      | zero =>
          simp only [List.take_zero, Text.byteSize_nil, Nat.add_zero] at hoffset
          cases hlexeme : lexeme c t with
          | error fault => simp [tokensFrom, hlexeme] at h
          | ok l =>
              cases l with
              | blank =>
                  simp only [tokensFrom, hlexeme] at h
                  obtain ⟨hlaid, hstart⟩ := ih hmore (by simp [hoffset, Position.afterBlank]) h
                  exact ⟨hlaid, fun u hu => Nat.le_trans (Nat.le_add_right _ _) (hstart u hu)⟩
              | token kind size =>
                  obtain ⟨hsize, hkind⟩ := lexeme_token hlexeme
                  have htaken : (c :: t).take size = c :: t.take (size - 1) := by
                    obtain ⟨n, rfl⟩ : ∃ n, size = n + 1 := ⟨size - 1, by omega⟩
                    rfl
                  simp only [tokensFrom, hlexeme] at h
                  cases hrest : tokensFrom (size - 1) (p.afterToken kind ((c :: t).take size)) t with
                  | error e => simp [hrest, Except.map] at h
                  | ok rest =>
                      simp only [hrest, Except.map, Except.ok.injEq] at h
                      subst h
                      obtain ⟨hlaid, hstart⟩ := ih hmore
                        (by simp [hoffset, Position.afterToken, htaken]; omega) hrest
                      have hlies : (ofText kind ((c :: t).take size) p).LiesIn source :=
                        ⟨before, (c :: t).drop size, by simp [ofText, hsource], hoffset,
                          by simp [ofText, Position.afterToken, hoffset]⟩
                      refine ⟨hlaid.cons hlies (by simp [isEnd, ofText, hkind]) hstart, ?_⟩
                      intro u hu
                      rcases List.mem_cons.mp hu with rfl | hu
                      · exact Nat.le_refl p.offset
                      · exact Nat.le_trans (Nat.le_add_right _ _) (hstart u hu)

/-- Every token but the end of input takes up some bytes. -/
theorem start_lt_stop_of_tokensFrom {t : Text} {skip : Nat} {p : Position} {tokens : List Token}
    (h : tokensFrom skip p t = .ok tokens) : ∀ u ∈ tokens, ¬ u.isEnd → u.start < u.stop := by
  induction t generalizing skip p tokens with
  | nil =>
      cases h
      simp [isEnd, ofText]
  | cons c t ih =>
      cases skip with
      | succ skip => exact ih h
      | zero =>
          cases hlexeme : lexeme c t with
          | error fault => simp [tokensFrom, hlexeme] at h
          | ok l =>
              cases l with
              | blank => exact ih (by simpa only [tokensFrom, hlexeme] using h)
              | token kind size =>
                  have hsize := (lexeme_token hlexeme).1
                  simp only [tokensFrom, hlexeme] at h
                  cases hrest : tokensFrom (size - 1) (p.afterToken kind ((c :: t).take size)) t with
                  | error e => simp [hrest, Except.map] at h
                  | ok rest =>
                      simp only [hrest, Except.map, Except.ok.injEq] at h
                      subst h
                      intro u hu hend
                      rcases List.mem_cons.mp hu with rfl | hu
                      · obtain ⟨n, rfl⟩ : ∃ n, size = n + 1 := ⟨size - 1, by omega⟩
                        have := c.utf8Size_pos
                        simp [ofText, Position.afterToken]
                        omega
                      · exact ih hrest u hu hend

end Token

theorem laid_of_lex {source : Text} {tokens : List Token} (h : lex source = .ok tokens) :
    Token.Laid source tokens :=
  (Token.tokensFrom_laid (List.nil_append source).symm rfl h).1

theorem start_lt_stop_of_lex {source : Text} {tokens : List Token} (h : lex source = .ok tokens) :
    ∀ t ∈ tokens, ¬ t.isEnd → t.start < t.stop :=
  Token.start_lt_stop_of_tokensFrom h

/-! ## Cursors over laid out tokens -/

namespace Cursor

theorem laid_of_ofTokens {source : Text} {tokens : List Token} {c : Cursor}
    (h : Token.Laid source tokens) (hc : ofTokens tokens = some c) : Token.Laid source c.tokens := by
  have hfilter := h.filter (p := fun t => t.kind ≠ .comment) (fun t ht => by
    simp only [Token.isEnd, decide_eq_true_eq] at ht
    simp [ht])
  unfold ofTokens at hc
  split at hc
  · cases hc
  · next here ahead htokens =>
      simp only [Option.some.injEq] at hc
      subst hc
      rw [htokens] at hfilter
      exact hfilter

theorem tokens_of_ofTokens {tokens : List Token} {c : Cursor} (hc : ofTokens tokens = some c) :
    c.tokens = tokens.filter (·.kind ≠ .comment) := by
  unfold ofTokens at hc
  split at hc
  · cases hc
  · next here ahead hcode =>
      cases hc
      exact hcode.symm

theorem comments_of_ofTokens {tokens : List Token} {c : Cursor} (hc : ofTokens tokens = some c) :
    c.comments = tokens.filter (·.kind = .comment) := by
  unfold ofTokens at hc
  split at hc
  · cases hc
  · cases hc
    rfl

theorem exists_ofTokens {source : Text} {tokens : List Token} (h : Token.Laid source tokens) :
    ∃ c, ofTokens tokens = some c := by
  have hfilter := h.filter (p := fun t => t.kind ≠ .comment) (fun t ht => by
    simp only [Token.isEnd, decide_eq_true_eq] at ht
    simp [ht])
  unfold ofTokens
  split
  · next hnil => exact absurd hnil hfilter.ne_nil
  · exact ⟨_, rfl⟩

end Cursor

end CodeFrames
