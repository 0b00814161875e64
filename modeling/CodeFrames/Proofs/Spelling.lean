import CodeFrames.Proofs.Standing
import CodeFrames.Conversion

/-!
# Texts that are made of tokens

A text is spelled by its tokens if the walk over it gets to its end and meets no comment.  A token
other than a comment neither starts nor ends with a blank character.
-/

namespace CodeFrames

open Token

namespace Text

/-! ## Spelled texts -/

theorem exists_tokensFrom {t : Text} {skip : Nat} {ps : List Token}
    (h : symbolsFrom skip t = ps ++ [symbol .endOfInput []]) (p : Position) :
    ∃ tokens, tokensFrom skip p t = .ok tokens := by
  induction t generalizing skip ps p with
  | nil => exact ⟨_, by rw [tokensFrom]⟩
  | cons c t ih =>
      cases skip with
      | succ skip => exact ih h p
      | zero =>
          rcases hlexeme : lexeme c t with fault | _ | ⟨kind, size⟩
          · rw [symbolsFrom, hlexeme] at h
            simp at h
          · rw [symbolsFrom_blank hlexeme] at h
            rw [tokensFrom_blank hlexeme]
            exact ih h (p.afterBlank c)
          · rw [symbolsFrom_token hlexeme] at h
            rw [tokensFrom_token hlexeme]
            have hend := (lexeme_token hlexeme).2
            cases ps with
            | nil => simp [symbol, hend] at h
            | cons q ps =>
                obtain ⟨-, hrest⟩ := by simpa using h
                obtain ⟨tokens, htokens⟩ := ih hrest (p.afterToken kind ((c :: t).take size))
                exact ⟨_, by rw [htokens]; rfl⟩

theorem spells_iff {t : Text} {ps : List Token} :
    t.Spells ps ↔ symbols t = ps ++ [symbol .endOfInput []] ∧ ∀ p ∈ ps, p.kind ≠ .comment := by
  constructor
  · intro h
    obtain ⟨_, _, _, _, hcomment⟩ := id h
    exact ⟨h.symbols_eq, hcomment⟩
  · rintro ⟨hsymbols, hcomment⟩
    obtain ⟨tokens, hlex⟩ := exists_tokensFrom hsymbols ⟨1, 0⟩
    obtain ⟨inside, last, rfl, hlast⟩ := exists_end_of_tokensFrom hlex
    refine ⟨inside, last, hlex, ?_, hcomment⟩
    have hbare := map_bare_of_tokensFrom hlex
    rw [List.map_append, show symbolsFrom 0 t = _ from hsymbols] at hbare
    exact (List.append_inj' hbare rfl).1

end Text

/-! ## The ends of a token -/

namespace Text

theorem exists_range_of_contains {ranges : Ranges} {n : Nat} (h : ranges.contains n = true) :
    ∃ r ∈ ranges, ∃ k < r.2 - r.1 + 1, n = r.1 + k := by
  induction ranges with
  | nil => cases h
  | cons r ranges ih =>
      obtain ⟨first, last⟩ := r
      rw [Ranges.contains] at h
      split at h
      · cases h
      · next hfirst =>
          rw [Bool.or_eq_true, decide_eq_true_eq] at h
          rcases h with h | h
          · exact ⟨(first, last), List.mem_cons_self, n - first, by omega, by omega⟩
          · obtain ⟨r, hr, hrange⟩ := ih h
            exact ⟨r, List.mem_cons_of_mem _ hr, hrange⟩

/-- No blank character can stand in a word. -/
theorem not_continuesName_of_isBlank {c : Char} (h : isBlank c = true) : continuesName c = false := by
  have hall : ∀ r ∈ blankRanges, ∀ k < r.2 - r.1 + 1,
      continuesName (Char.ofNat (r.1 + k)) = false := by decide +kernel
  obtain ⟨r, hr, k, hk, hc⟩ := exists_range_of_contains h
  have := hall r hr k hk
  rwa [← hc, Char.ofNat_toNat] at this

end Text

namespace Token

open Text

theorem not_isBlank_of_continuesName {c : Char} (h : continuesName c = true) : ¬ isBlank c := by
  intro hblank
  rw [not_continuesName_of_isBlank hblank] at h
  cases h

theorem not_isBlank_of_isAlphanum {c : Char} (h : (c.isAlphanum || c = '_') = true) :
    ¬ isBlank c := by
  intro hblank
  have hall : ∀ r ∈ blankRanges, ∀ k < r.2 - r.1 + 1,
      ((Char.ofNat (r.1 + k)).isAlphanum || Char.ofNat (r.1 + k) = '_') = false := by decide +kernel
  obtain ⟨r, hr, k, hk, hc⟩ := exists_range_of_contains hblank
  have := hall r hr k hk
  rw [← hc, Char.ofNat_toNat, h] at this
  cases this

theorem not_isBlank_of_number (hex seenDot started : Bool) (t : Text) :
    ∀ c ∈ t.take (numberLength hex seenDot started t), ¬ isBlank c := by
  have hsign : ∀ c ∈ ['+', '-', '.'], ¬ isBlank c := forall_mem_of_all (by decide)
  fun_induction numberLength hex seenDot started t with
  | case1 => simp
  | case2 seenDot started c hword sign t hexponent ih =>
      simp only [List.take_succ_cons, List.mem_cons, forall_eq_or_imp]
      refine ⟨not_isBlank_of_isAlphanum hword, hsign sign ?_, ih⟩
      simp only [Bool.and_eq_true, Bool.or_eq_true, decide_eq_true_eq] at hexponent
      rcases hexponent.2 with rfl | rfl <;> simp
  | case3 seenDot started c hword sign t hexponent ih =>
      simpa only [List.take_succ_cons, List.mem_cons, forall_eq_or_imp] using
        ⟨not_isBlank_of_isAlphanum hword, ih⟩
  | case4 seenDot started c hword => simpa using not_isBlank_of_isAlphanum hword
  | case5 seenDot started c t hword hdigit ih =>
      simp only [Bool.and_eq_true, decide_eq_true_eq] at hdigit
      simpa only [List.take_succ_cons, List.mem_cons, forall_eq_or_imp] using
        ⟨hsign c (by simp [hdigit.1]), ih⟩
  | case6 => simp
  | case7 seenDot started c t hword hdigit hdot d hhead halpha ih =>
      simp only [Bool.and_eq_true, decide_eq_true_eq] at hdot
      simpa only [List.take_succ_cons, List.mem_cons, forall_eq_or_imp] using
        ⟨hsign c (by simp [hdot.1.1.1]), ih⟩
  | case8 seenDot started c t hword hdigit hdot hhead =>
      simp only [Bool.and_eq_true, decide_eq_true_eq] at hdot
      simpa using hsign c (by simp [hdot.1.1.1])
  | case9 => simp

/-- The last character of a literal is the closing quote. -/
theorem getLast?_of_literalLength {quote : Char} {t : Text} {n : Nat}
    (h : literalLength? quote t = some n) : (t.take n).getLast? = some quote := by
  fun_induction literalLength? quote t generalizing n with
  | case1 => cases h
  | case2 => cases h
  | case3 c t ih =>
      obtain ⟨k, hk, rfl⟩ := Option.map_eq_some_iff.mp h
      have hlast := ih hk
      rw [List.take_succ_cons, List.take_succ_cons, List.getLast?_cons, List.getLast?_cons, hlast]
      rfl
  | case4 => cases h
  | case5 t hslash hline =>
      obtain rfl : 1 = n := by simpa using h
      simp
  | case6 c t hslash hline hquote ih =>
      obtain ⟨k, hk, rfl⟩ := Option.map_eq_some_iff.mp h
      have hlast := ih hk
      rw [List.take_succ_cons, List.getLast?_cons, hlast]
      rfl

theorem not_isBlank_of_operator {t : Text} {kind : Kind} {size : Nat}
    (h : operator? t = some (.token kind size)) : ∀ c ∈ t.take size, ¬ isBlank c := by
  have hops : ∀ op ∈ operators, op.all (fun c => ¬ isBlank c) = true := by decide
  have hall (op : Text) (hop : op ∈ operators) : ∀ c ∈ op, ¬ isBlank c :=
    forall_mem_of_all (hops op hop)
  simp only [operator?, Option.map_eq_some_iff, Lexeme.token.injEq] at h
  obtain ⟨op, hfind, rfl, rfl⟩ := h
  have hop := List.find?_some (p := fun op : Text => op.isPrefixOf t) hfind
  rw [← List.prefix_iff_eq_take.mp (List.isPrefixOf_iff_prefix.mp hop)]
  exact hall op (List.mem_of_find?_eq_some hfind)

theorem not_isBlank_of_punctuation {t : Text} {kind : Kind} {size : Nat}
    (h : punctuation? t = some (.token kind size)) : ∀ c ∈ t.take size, ¬ isBlank c := by
  have hall : ∀ c ∈ "()[]{};,@.".toList, ¬ isBlank c := forall_mem_of_all (by decide)
  unfold punctuation? at h
  split at h <;> simp at h
  all_goals
    obtain ⟨rfl, rfl⟩ := h
    simp only [List.take_succ_cons, List.take_zero, List.mem_cons, List.not_mem_nil, or_false,
      forall_eq_or_imp, forall_eq]
    decide

theorem getLast?_of_literal {quote : Char} {t : Text} {kind : Kind} {size : Nat}
    (h : literal quote t = .ok (.token kind size)) :
    ((quote :: t).take size).getLast? = some quote := by
  have hlast {n : Nat} (hn : literalLength? quote t = some n) :
      ((quote :: t).take (n + 1)).getLast? = some quote := by
    rw [List.take_succ_cons, List.getLast?_cons, getLast?_of_literalLength hn]
    rfl
  unfold literal at h
  repeat' split at h
  all_goals
    first
    | cases h; done
    | next hn =>
        obtain ⟨-, rfl⟩ := by simpa using h
        exact hlast hn

/-- A token that is no comment is a literal, or no character of it is blank. -/
theorem literal_or_not_isBlank {c : Char} {t : Text} {kind : Kind} {size : Nat}
    (h : lexeme c t = .ok (.token kind size)) (hkind : kind ≠ .comment) :
    ((c = '"' ∨ c = '\'') ∧ literal c t = .ok (.token kind size)) ∨
      ∀ d ∈ (c :: t).take size, ¬ isBlank d := by
  have hc : ¬ isBlank c := fun hblank => by
    rw [lexeme_of_isBlank hblank] at h
    cases h
  rw [lexeme.eq_def] at h
  split at h
  · obtain ⟨rfl, -⟩ := by simpa [lineComment] using h
    exact absurd rfl hkind
  split at h
  · unfold blockComment at h
    split at h
    · obtain ⟨rfl, -⟩ := by simpa using h
      exact absurd rfl hkind
    · cases h
  split at h
  · next hquote => exact .inl ⟨by simpa using hquote, h⟩
  right
  split at h
  · obtain ⟨rfl, rfl⟩ := by simpa using h
    exact not_isBlank_of_number _ _ _ _
  split at h
  · next hname =>
      obtain ⟨rfl, rfl⟩ := by simpa using h
      rw [List.take_succ_cons, ← List.prefix_iff_eq_take.mp (List.takeWhile_prefix _)]
      intro d hd
      rcases List.mem_cons.mp hd with rfl | hd
      · exact hc
      · exact not_isBlank_of_continuesName (List.all_eq_true.mp List.all_takeWhile d hd)
  cases hpunctuation : punctuation? (c :: t) with
  | some l =>
      rw [hpunctuation, Option.some_or] at h
      simp only [Except.ok.injEq] at h
      exact not_isBlank_of_punctuation (h ▸ hpunctuation)
  | none =>
      rw [hpunctuation, Option.none_or] at h
      cases hoperator : operator? (c :: t) with
      | some l =>
          simp only [hoperator, Except.ok.injEq] at h
          exact not_isBlank_of_operator (h ▸ hoperator)
      | none => simp [hoperator] at h

/-- The characters at the two ends of a token that is no comment are not blank. -/
theorem not_isBlank_of_lexeme {c : Char} {t : Text} {kind : Kind} {size : Nat}
    (h : lexeme c t = .ok (.token kind size)) (hkind : kind ≠ .comment) :
    ¬ isBlank c ∧ ∀ d ∈ ((c :: t).take size).getLast?, ¬ isBlank d := by
  rcases literal_or_not_isBlank h hkind with ⟨hquote, hliteral⟩ | hblank
  · have hc : ¬ isBlank c := by rcases hquote with rfl | rfl <;> decide
    refine ⟨hc, fun d hd => ?_⟩
    obtain rfl := by simpa [getLast?_of_literal hliteral] using hd
    exact hc
  · have hpos := (lexeme_token h).1
    refine ⟨hblank c ?_, fun d hd => hblank d (List.mem_of_getLast? hd)⟩
    obtain ⟨n, rfl⟩ : ∃ n, size = n + 1 := ⟨size - 1, by omega⟩
    exact List.mem_cons_self

/-- A token of a text, unless it is a comment or the end of input, has characters, and those at its
ends are not blank. -/
theorem tight_of_mem_symbolsFrom {t : Text} {skip : Nat} {p : Token} (h : p ∈ symbolsFrom skip t)
    (hcomment : p.kind ≠ .comment) (hend : p.kind ≠ .endOfInput) : p.text ≠ [] ∧ p.text.IsTight := by
  induction t generalizing skip with
  | nil =>
      have hlast : p = symbol .endOfInput [] := by
        cases skip <;> simpa [symbolsFrom] using h
      rw [hlast] at hend
      exact absurd rfl hend
  | cons c t ih =>
      cases skip with
      | succ skip => exact ih h
      | zero =>
          rw [symbolsFrom] at h
          split at h
          · cases h
          · exact ih h
          · next kind size hlexeme =>
              rcases List.mem_cons.mp h with rfl | h
              · obtain ⟨hfirst, hlast⟩ := not_isBlank_of_lexeme hlexeme hcomment
                obtain ⟨n, rfl⟩ : ∃ n, size = n + 1 := by
                  have := (lexeme_token hlexeme).1
                  exact ⟨size - 1, by omega⟩
                refine ⟨by simp [symbol], ?_, hlast⟩
                simpa [symbol] using hfirst
              · exact ih h

theorem kind_ne_of_spells {t : Text} {ps : List Token} (h : t.Spells ps) :
    ∀ p ∈ ps, p.kind ≠ .endOfInput := by
  obtain ⟨tokens, last, hlex, rfl, -⟩ := h
  obtain ⟨inside, final, happend, -, hinside⟩ := (laid_of_lex hlex).ended
  obtain ⟨rfl, -⟩ := List.append_inj' happend rfl
  intro p hp
  obtain ⟨t, ht, rfl⟩ := List.mem_map.mp hp
  simpa [isEnd] using hinside t ht

theorem tight_of_spells {t : Text} {ps : List Token} (h : t.Spells ps) {p : Token} (hp : p ∈ ps) :
    p.text ≠ [] ∧ p.text.IsTight := by
  obtain ⟨hsymbols, hcomment⟩ := spells_iff.mp h
  refine @tight_of_mem_symbolsFrom t 0 p ?_ (hcomment p hp) (kind_ne_of_spells h p hp)
  rw [show symbolsFrom 0 t = _ from hsymbols]
  exact List.mem_append_left _ hp

end Token

open Text

/-! ## Type tests in a text -/

theorem Token.text_of_isWord {t : Token} {w : Text} (h : t.isWord w = true) : t.text = w := by
  rw [Token.isWord, Bool.and_eq_true, decide_eq_true_eq, decide_eq_true_eq] at h
  exact h.2

theorem withSubtypeOperator_eq {t : Text} {ps : List Token} (h : t.Spells ps)
    (hps : ∀ p ∈ ps, p.isWord "instanceof".toList = false) : withSubtypeOperator t = t := by
  obtain ⟨tokens, last, hlex, rfl, -⟩ := h
  obtain ⟨inside, final, happend, hfinal⟩ := exists_end_of_tokensFrom hlex
  obtain ⟨rfl, rfl⟩ := List.append_inj' happend rfl |>.imp id (by simpa using ·)
  have hnone : (tokens ++ [last]).filter (·.isWord "instanceof".toList) = [] := by
    refine List.filter_eq_nil_iff.mpr fun t ht => ?_
    rcases List.mem_append.mp ht with ht | ht
    · rw [show t.isWord _ = t.bare.isWord _ from rfl, hps t.bare (List.mem_map_of_mem ht)]
      simp
    · obtain rfl := by simpa using ht
      rw [show t.isWord _ = t.bare.isWord _ from rfl, hfinal]
      decide
  rw [withSubtypeOperator, hlex]
  simp only [hnone]
  rw [ExpressionText.replaceWords, Text.dropBytes?, Option.getD_some]

namespace Text

theorem IsCut.exists_slice {t : Text} {start stop : Nat} (hstart : t.IsCut start)
    (hstop : t.IsCut stop) (hle : start ≤ stop) :
    ∃ s, slice? t start stop = some s ∧ byteSize s = stop - start := by
  obtain ⟨before, after, rfl, rfl⟩ := hstart
  obtain ⟨whole, rest, hwhole, rfl⟩ := hstop
  rcases List.append_eq_append_iff.mp hwhole with ⟨mid, rfl, rfl⟩ | ⟨mid, rfl, rfl⟩
  · refine ⟨mid, ?_, by simp⟩
    rw [byteSize_append, slice?_append]
  · rw [byteSize_append] at hle
    obtain rfl := byteSize_eq_zero (t := mid) (by omega)
    refine ⟨[], ?_, by simp⟩
    have hslice := slice?_append whole [] after
    rw [byteSize_nil, Nat.add_zero] at hslice
    simpa using hslice

theorem IsCut.exists_drop {t : Text} {n : Nat} (h : t.IsCut n) :
    ∃ s, dropBytes? t n = some s ∧ byteSize s + n = byteSize t := by
  obtain ⟨before, after, rfl, rfl⟩ := h
  refine ⟨after, dropBytes?_append before after, ?_⟩
  rw [byteSize_append]
  omega

/-- Two texts that start the same source and are equally long are the same. -/
theorem append_inj_of_byteSize {s t u v : Text} (h : s ++ t = u ++ v)
    (hsize : byteSize s = byteSize u) : s = u ∧ t = v := by
  have hs := takeBytes?_append s t
  rw [h, hsize, takeBytes?_append, Option.some.injEq] at hs
  exact ⟨hs.symm, List.append_cancel_left (hs ▸ h)⟩

end Text

/-- The subtype operator is eight bytes shorter than the word that it stands for. -/
theorem byteSize_replaceWords {source : Text} {words : List Token} {copied : Nat}
    (hwords : ∀ w ∈ words, w.LiesIn source ∧ w.text = "instanceof".toList)
    (hordered : words.Pairwise fun v w => v.stop ≤ w.start) (hcut : source.IsCut copied)
    (hcopied : ∀ w ∈ words, copied ≤ w.start) :
    byteSize (ExpressionText.replaceWords source copied words) + 8 * words.length + copied =
      byteSize source := by
  induction words generalizing copied with
  | nil =>
      obtain ⟨s, hdrop, hsize⟩ := hcut.exists_drop
      simpa [ExpressionText.replaceWords, hdrop] using hsize
  | cons w words ih =>
      obtain ⟨hlies, htext⟩ := hwords w List.mem_cons_self
      obtain ⟨hbehind, hordered⟩ := List.pairwise_cons.mp hordered
      obtain ⟨s, hslice, hsize⟩ := hcut.exists_slice hlies.isCut_start
        (hcopied w List.mem_cons_self)
      have hrest := ih (fun v hv => hwords v (List.mem_cons_of_mem w hv)) hordered hlies.isCut_stop
        hbehind
      have hle := hcopied w List.mem_cons_self
      have hstop : w.stop = w.start + 10 := by
        obtain ⟨before, after, -, hstart, hstop⟩ := hlies
        rw [hstop, hstart, htext]
        rfl
      have hoperator : byteSize ExpressionText.subtypeOperator = 2 := rfl
      simp only [ExpressionText.replaceWords, hslice, Option.getD_some, byteSize_append, hoperator,
        hsize, List.length_cons]
      omega

/-- Showing type tests makes a text shorter, unless there are none. -/
theorem byteSize_withSubtypeOperator (s : Text) :
    byteSize (withSubtypeOperator s) ≤ byteSize s ∧
      (byteSize s ≤ byteSize (withSubtypeOperator s) → ∀ tokens, lex s = .ok tokens →
        ∀ t ∈ tokens, t.isWord "instanceof".toList = false) := by
  cases hlex : lex s with
  | error e => simp [withSubtypeOperator, hlex]
  | ok tokens =>
      have hlaid := laid_of_lex hlex
      have hsize := @byteSize_replaceWords s (tokens.filter (·.isWord "instanceof".toList)) 0
        (fun w hw => ⟨hlaid.liesIn w (List.mem_filter.mp hw).1,
          text_of_isWord (List.mem_filter.mp hw).2⟩)
        (hlaid.ordered.filter _) ⟨[], s, rfl, rfl⟩ fun _ _ => Nat.zero_le _
      have hwhole : withSubtypeOperator s = ExpressionText.replaceWords s 0
          (tokens.filter (·.isWord "instanceof".toList)) := by rw [withSubtypeOperator, hlex]
      rw [hwhole]
      refine ⟨by omega, fun hle others hothers t ht => ?_⟩
      obtain rfl : tokens = others := by simpa using hothers
      have hnone : tokens.filter (·.isWord "instanceof".toList) = [] :=
        List.eq_nil_of_length_eq_zero (by omega)
      exact Bool.not_eq_true _ ▸ List.filter_eq_nil_iff.mp hnone t ht

/-! ## The start of a source -/

/-- The reading of a source starts in front of its whole text. -/
theorem exists_start {source : Text} {ps : List Token} (h : source.Spells ps) :
    ∃ c : Cursor, c.StandsAt source source ∧ readEvents source =
      ((Reading.members (Enclosed.within nestingLimit) c).1,
        (Reading.members (Enclosed.within nestingLimit) c).2.map fun _ => ()) := by
  obtain ⟨tokens, last, hlex, rfl, hcomment⟩ := h
  obtain ⟨inside, final, happend, hfinal⟩ := exists_end_of_tokensFrom hlex
  obtain ⟨rfl, rfl⟩ := List.append_inj' happend rfl |>.imp id (by simpa using ·)
  have hall : ∀ t ∈ tokens ++ [last], t.kind ≠ .comment := by
    intro t ht
    rcases List.mem_append.mp ht with ht | ht
    · exact hcomment t.bare (List.mem_map_of_mem ht)
    · obtain rfl := by simpa using ht
      rw [show t.kind = t.bare.kind from rfl, hfinal]
      decide
  have hkept : (tokens ++ [last]).filter (·.kind ≠ .comment) = tokens ++ [last] :=
    List.filter_eq_self.mpr fun t ht => by simpa using hall t ht
  have hnone : (tokens ++ [last]).filter (·.kind = .comment) = [] :=
    List.filter_eq_nil_iff.mpr fun t ht => by simpa using hall t ht
  obtain ⟨here, ahead, htokens⟩ := List.exists_cons_of_ne_nil (l := tokens ++ [last]) (by simp)
  refine ⟨⟨here, here, ahead, []⟩, ⟨⟨[], ⟨1, 0⟩, rfl, rfl, ?_⟩, rfl⟩, ?_⟩
  · rw [show Cursor.tokens ⟨here, here, ahead, []⟩ = here :: ahead from rfl, ← htokens]
    exact hlex
  · simp only [readEvents, hlex, Cursor.ofTokens, hkept, hnone]
    rw [htokens]

end CodeFrames
