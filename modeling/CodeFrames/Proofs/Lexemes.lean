import CodeFrames.Proofs.Spelling

/-!
# Lexemes and what stands behind them

A token stays one where the text behind it is cut off or replaced.  The exceptions are few: a number
takes a dot in once no letter and no further dot follows, and two operators can become a longer one.
-/

namespace CodeFrames

open Text

namespace Token

/-! ## Where a text is cut off -/

theorem literalLength?_pos {quote : Char} {t : Text} {n : Nat} (h : literalLength? quote t = some n) :
    0 < n := by
  unfold literalLength? at h
  repeat' split at h
  all_goals simp only [Option.map_eq_some_iff, Option.some.injEq, reduceCtorEq] at h
  all_goals omega

theorem literalLength?_of_append {quote : Char} {t u : Text} {n : Nat}
    (h : literalLength? quote (t ++ u) = some n) (hn : n ≤ t.length) :
    literalLength? quote t = some n := by
  fun_induction literalLength? quote t generalizing n with
  | case1 =>
      have := literalLength?_pos h
      simp at hn
      omega
  | case2 =>
      obtain _ | ⟨d, u⟩ := u
      · exact h
      · obtain ⟨k, hk, rfl⟩ := Option.map_eq_some_iff.mp h
        simp at hn
  | case3 c t ih =>
      obtain ⟨k, hk, rfl⟩ := Option.map_eq_some_iff.mp h
      rw [ih hk (by simpa using hn)]
      rfl
  | case4 t hslash =>
      rw [List.cons_append, literalLength?.eq_def] at h
      split at h
      · simp_all
      · simp_all
      · next heq =>
          obtain ⟨rfl, -⟩ := by simpa using heq
          simp at h
  | case5 t hslash hline =>
      rw [List.cons_append, literalLength?.eq_def] at h
      split at h <;> simp_all
  | case6 c t hslash hline hquote ih =>
      rw [List.cons_append, literalLength?.eq_def] at h
      split at h
      · simp_all
      · simp_all
      · next d v hd heq =>
          obtain ⟨rfl, rfl⟩ := by simpa using heq
          rw [if_neg hline, if_neg hquote] at h
          obtain ⟨k, hk, rfl⟩ := Option.map_eq_some_iff.mp h
          rw [ih hk (by simpa using hn)]
          rfl

/-- No letter and no dot follows. -/
def EndsNumber (u : Text) : Prop := ∀ d ∈ u.head?, (d.isAlpha || d = '.') = false

theorem endsNumber_of_isBlank {c : Char} (h : isBlank c = true) (u : Text) : EndsNumber (c :: u) := by
  intro d hd
  obtain rfl : c = d := by simpa using hd
  have hword := mt (@not_isBlank_of_isAlphanum c) (not_not.mpr h)
  simp only [Char.isAlphanum, Bool.or_eq_true, not_or] at hword
  have hdot : c ≠ '.' := by
    rintro rfl
    revert h
    decide
  simp [hword.1.1, hdot]

theorem numberLength_other {hex seenDot started : Bool} {c : Char} {t : Text}
    (hword : ¬ (c.isAlphanum || c = '_') = true) :
    numberLength hex seenDot started (c :: t) =
      if (c = '.' && isDigitOf t.head?) = true then numberLength hex true true t + 1
      else if (c = '.' && started && !seenDot && !hex) = true then
        match t.head? with
        | some d => if (d.isAlpha || d = '.') = true then 0 else numberLength hex true true t + 1
        | none => 1
      else 0 := by
  rw [numberLength.eq_def]
  simp only [hword]
  rfl

theorem numberLength_word_pos {hex seenDot started : Bool} {c : Char} {t : Text}
    (hword : (c.isAlphanum || c = '_') = true) : 0 < numberLength hex seenDot started (c :: t) := by
  rw [numberLength.eq_def]
  simp only [hword, if_true]
  split
  · split <;> omega
  · omega

theorem numberLength_pos_of_isDigitOf {hex seenDot started : Bool} {t : Text}
    (h : isDigitOf t.head? = true) : 0 < numberLength hex seenDot started t := by
  cases t with
  | nil => cases h
  | cons c t =>
      simp only [List.head?_cons, isDigitOf] at h
      exact numberLength_word_pos (by simp [Char.isAlphanum, h])

theorem numberLength_of_append {u : Text} (hex seenDot started : Bool) {t : Text}
    (hn : numberLength hex seenDot started (t ++ u) ≤ t.length)
    (hdot : t.drop (numberLength hex seenDot started (t ++ u)) = ['.'] → EndsNumber u) :
    numberLength hex seenDot started t = numberLength hex seenDot started (t ++ u) := by
  fun_induction numberLength hex seenDot started t with
  | case1 => simpa using (hn.antisymm (Nat.zero_le _)).symm
  | case2 seenDot started c hword sign t hsign ih =>
      have hmore : numberLength hex seenDot started (c :: sign :: t ++ u) =
          numberLength hex seenDot true (t ++ u) + 2 := by
        rw [List.cons_append, List.cons_append, numberLength.eq_def]
        simp only [hword, hsign, if_true]
      rw [hmore] at hn hdot ⊢
      rw [ih (by simpa using hn) (by simpa using hdot)]
  | case3 seenDot started c hword sign t hsign ih =>
      have hmore : numberLength hex seenDot started (c :: sign :: t ++ u) =
          numberLength hex seenDot true (sign :: t ++ u) + 1 := by
        rw [List.cons_append, List.cons_append, numberLength.eq_def]
        simp [hword, hsign]
      rw [hmore] at hn hdot ⊢
      rw [ih (by simpa using hn) (by simpa using hdot)]
  | case4 seenDot started c hword =>
      cases u with
      | nil => simp [numberLength, hword]
      | cons d u =>
          rw [List.singleton_append, numberLength.eq_def] at hn ⊢
          simp only [hword, if_true, List.length_singleton] at hn ⊢
          split at hn <;> simp_all
  | case5 seenDot started c t hword hdigit ih =>
      have hhead : (t ++ u).head? = t.head? := by
        cases t with
        | nil => simp [isDigitOf] at hdigit
        | cons d t => rfl
      rw [List.cons_append, numberLength_other hword, hhead, if_pos hdigit] at hn hdot ⊢
      rw [ih (by simpa using hn) (by simpa using hdot)]
  | case6 seenDot started c t hword hdigit hstarted d hhead halpha =>
      obtain ⟨t, rfl⟩ := List.head?_eq_some_iff.mp hhead
      rw [List.head?_cons] at hdigit
      rw [List.cons_append, List.cons_append, numberLength_other hword, List.head?_cons,
        if_neg hdigit, if_pos hstarted]
      simp only [halpha, if_true]
  | case7 seenDot started c t hword hdigit hstarted d hhead halpha ih =>
      obtain ⟨t, rfl⟩ := List.head?_eq_some_iff.mp hhead
      rw [List.head?_cons] at hdigit
      rw [List.cons_append, List.cons_append, numberLength_other hword, List.head?_cons,
        if_neg hdigit, if_pos hstarted] at hn hdot ⊢
      simp only [halpha, if_false, ← List.cons_append, Bool.false_eq_true] at hn hdot ⊢
      rw [ih (by simpa using hn) (by simpa using hdot)]
  | case8 seenDot started c t hword hdigit hstarted hhead =>
      obtain rfl := List.head?_eq_none_iff.mp hhead
      have hc : c = '.' := by
        simp only [Bool.and_eq_true, decide_eq_true_eq] at hstarted
        exact hstarted.1.1.1
      subst hc
      cases u with
      | nil => rw [List.append_nil, numberLength_other hword, if_neg hdigit, if_pos hstarted]; rfl
      | cons d u =>
          have hd : ¬ isDigitOf (d :: u).head? = true := fun hd => by
            rw [List.singleton_append, numberLength_other hword, if_pos (by simpa using hd)] at hn
            have := @numberLength_pos_of_isDigitOf hex true true _ hd
            simp only [List.length_singleton] at hn
            omega
          rw [List.singleton_append, numberLength_other hword, if_neg (by simpa using hd),
            if_pos hstarted] at hn hdot ⊢
          simp only [List.head?_cons] at hn hdot ⊢
          by_cases halpha : (d.isAlpha || d = '.') = true
          · rw [if_pos halpha] at hdot
            simp [hdot rfl d rfl] at halpha
          · rw [if_neg halpha] at hn ⊢
            simp only [List.length_singleton] at hn
            omega
  | case9 seenDot started c t hword hdigit hstarted =>
      have hmore : ¬ (c = '.' && isDigitOf (t ++ u).head?) = true := fun hmore => by
        rw [List.cons_append, numberLength_other hword, if_pos hmore] at hn
        simp only [Bool.and_eq_true, decide_eq_true_eq] at hmore hdigit
        cases t with
        | cons d t => exact hdigit hmore
        | nil =>
            have := @numberLength_pos_of_isDigitOf hex true true _ hmore.2
            simp only [List.length_singleton] at hn
            omega
      rw [List.cons_append, numberLength_other hword, if_neg hmore, if_neg hstarted]

theorem takeWhile_of_append {p : Char → Bool} {t u : Text}
    (h : ((t ++ u).takeWhile p).length ≤ t.length) : t.takeWhile p = (t ++ u).takeWhile p := by
  induction t with
  | nil => simpa using h
  | cons c t ih =>
      rw [List.cons_append, List.takeWhile_cons, List.takeWhile_cons] at *
      split
      · next hc =>
          rw [if_pos hc] at h
          rw [ih (by simpa using h)]
      · rfl

theorem commentLength?_of_append {t u : Text} {n : Nat} (h : commentLength? (t ++ u) = some n)
    (hn : n ≤ t.length) : commentLength? t = some n := by
  have hpos {t : Text} {n : Nat} (h : commentLength? t = some n) : 1 < n := by
    fun_induction commentLength? t generalizing n with
    | case1 => cases h
    | case2 =>
        obtain rfl : 2 = n := by simpa using h
        decide
    | case3 c t hstar ih =>
        obtain ⟨k, hk, rfl⟩ := Option.map_eq_some_iff.mp h
        have := ih hk
        omega
  fun_induction commentLength? t generalizing n with
  | case1 =>
      have := hpos h
      simp at hn
      omega
  | case2 => exact h
  | case3 c t hstar ih =>
      rw [List.cons_append, commentLength?.eq_def] at h
      split at h
      · simp_all
      · next hshort =>
          have hlength := congrArg List.length hshort
          cases t with
          | nil =>
              simp only [Option.some.injEq] at h
              simp only [List.length_singleton] at hn
              omega
          | cons d t =>
              obtain ⟨rfl, rfl, rfl⟩ := by simpa using hshort
              exact absurd rfl (hstar t rfl)
      · next heq =>
          obtain ⟨rfl, rfl⟩ := by simpa using heq
          obtain ⟨k, hk, rfl⟩ := Option.map_eq_some_iff.mp h
          rw [ih hk (by simpa using hn)]
          rfl

theorem isPrefixOf_of_append {op t : Text} (u : Text) (h : op.length ≤ t.length) :
    op.isPrefixOf (t ++ u) = op.isPrefixOf t := by
  rw [Bool.eq_iff_iff, List.isPrefixOf_iff_prefix, List.isPrefixOf_iff_prefix]
  exact ⟨fun hop => List.prefix_of_prefix_length_le hop (List.prefix_append t u) h,
    fun hop => hop.trans (List.prefix_append t u)⟩

theorem operator?_of_append {t u : Text} {kind : Kind} {size : Nat}
    (h : operator? (t ++ u) = some (.token kind size)) (hsize : size ≤ t.length) :
    operator? t = some (.token kind size) := by
  have hfind {ops : List Text} {op : Text} (hop : ops.find? (·.isPrefixOf (t ++ u)) = some op)
      (hlength : op.length ≤ t.length) : ops.find? (·.isPrefixOf t) = some op := by
    induction ops with
    | nil => cases hop
    | cons o ops ih =>
        rw [List.find?_cons] at hop ⊢
        cases ho : o.isPrefixOf (t ++ u) with
        | true =>
            obtain rfl : o = op := by simpa [ho] using hop
            rw [← isPrefixOf_of_append u hlength, ho]
        | false =>
            have hnone : o.isPrefixOf t = false := by
              by_contra hsome
              rw [Bool.not_eq_false, List.isPrefixOf_iff_prefix] at hsome
              have := List.isPrefixOf_iff_prefix.mpr (hsome.trans (List.prefix_append t u))
              simp [ho] at this
            rw [ho] at hop
            rw [hnone]
            exact ih hop
  simp only [operator?, Option.map_eq_some_iff, Lexeme.token.injEq] at h ⊢
  obtain ⟨op, hop, rfl, rfl⟩ := h
  exact ⟨op, hfind hop hsize, rfl, rfl⟩

theorem punctuation?_of_ne_dot {c : Char} (hc : c ≠ '.') (s t : Text) :
    punctuation? (c :: s) = punctuation? (c :: t) := by
  rw [punctuation?.eq_def, punctuation?.eq_def]
  split <;> simp_all

theorem punctuation?_of_append {c : Char} {t u : Text} {kind : Kind} {size : Nat}
    (h : punctuation? (c :: (t ++ u)) = some (.token kind size)) (hsize : size ≤ t.length + 1) :
    punctuation? (c :: t) = some (.token kind size) := by
  by_cases hc : c = '.'
  · rw [hc, punctuation?_dot] at h ⊢
    by_cases hmore : "..".toList.isPrefixOf (t ++ u) = true
    · rw [if_pos hmore] at h
      obtain ⟨rfl, rfl⟩ := by simpa using h
      rw [isPrefixOf_of_append u (by simpa using hsize)] at hmore
      rw [if_pos hmore]
    · have hnone : ¬ "..".toList.isPrefixOf t = true := fun hsome =>
        hmore (List.isPrefixOf_iff_prefix.mpr
          ((List.isPrefixOf_iff_prefix.mp hsome).trans (List.prefix_append t u)))
      rw [if_neg hmore] at h
      rw [if_neg hnone, h]
  · rw [punctuation?_of_ne_dot hc t (t ++ u), h]

theorem punctuation?_eq_none (c : Char) (s t : Text) :
    punctuation? (c :: s) = none → punctuation? (c :: t) = none := by
  intro h
  by_cases hc : c = '.'
  · rw [hc, punctuation?_dot] at h
    cases h
  · rw [punctuation?_of_ne_dot hc t s, h]

theorem literal_of_append {quote : Char} {t u : Text} {kind : Kind} {size : Nat}
    (h : literal quote (t ++ u) = .ok (.token kind size)) (hsize : size ≤ t.length + 1) :
    literal quote t = .ok (.token kind size) := by
  unfold literal at h ⊢
  split at h
  · next hquote =>
      rw [if_pos hquote]
      split at h
      · cases h
      · next hblock =>
          have hblock' : ¬ ['"', '"'].isPrefixOf t = true := fun hsome =>
            hblock (List.isPrefixOf_iff_prefix.mpr
              ((List.isPrefixOf_iff_prefix.mp hsome).trans (List.prefix_append t u)))
          rw [if_neg hblock']
          split at h
          · next n hn =>
              obtain ⟨rfl, rfl⟩ := by simpa using h
              rw [literalLength?_of_append hn (by omega)]
          · cases h
  · next hquote =>
      rw [if_neg hquote]
      split at h
      · next n hn =>
          obtain ⟨rfl, rfl⟩ := by simpa using h
          rw [literalLength?_of_append hn (by omega)]
      · cases h

/-- Whether a number starts here, and which sort of number, is told by the characters of the number. -/
theorem number_of_append {c : Char} {t u : Text}
    (h : (c.isDigit || (c = '.' && isDigitOf (t ++ u).head?)) = true)
    (hsize : numberLength (isHexadecimal (c :: (t ++ u))) false false (c :: (t ++ u)) ≤ t.length + 1) :
    (c.isDigit || (c = '.' && isDigitOf t.head?)) = true ∧
      isHexadecimal (c :: (t ++ u)) = isHexadecimal (c :: t) := by
  cases t with
  | cons d t => exact ⟨h, by simp [isHexadecimal_cons]⟩
  | nil =>
      rw [List.nil_append] at h hsize ⊢
      constructor
      · by_contra hnone
        have hdigit : c.isDigit = false := by simpa [isDigitOf] using hnone
        obtain ⟨rfl, hu⟩ : c = '.' ∧ isDigitOf u.head? = true := by simpa [hdigit] using h
        rw [numberLength_other (by decide), if_pos (by simpa using hu)] at hsize
        have := @numberLength_pos_of_isDigitOf (isHexadecimal ('.' :: u)) true true u hu
        simp only [List.length_nil] at hsize
        omega
      · cases hhex : isHexadecimal (c :: u) with
        | false => simp [isHexadecimal_cons]
        | true =>
            rw [hhex] at hsize
            simp only [isHexadecimal_cons, Bool.and_eq_true, Bool.or_eq_true, decide_eq_true_eq] at hhex
            obtain ⟨rfl, hx⟩ := hhex
            obtain ⟨d, u, rfl, hword⟩ : ∃ d v, u = d :: v ∧ (d.isAlphanum || d = '_') = true := by
              rcases hx with hx | hx <;> obtain ⟨v, rfl⟩ := List.head?_eq_some_iff.mp hx
              · exact ⟨'x', v, rfl, by decide⟩
              · exact ⟨'X', v, rfl, by decide⟩
            have := @numberLength_word_pos true false true d u hword
            rw [numberLength.eq_def] at hsize
            simp [show Char.isAlphanum '0' = true by decide] at hsize
            omega

/-- A token that does not reach into `u` is one without `u` behind it. -/
theorem lexeme_of_append {u : Text} {c : Char} {t : Text} {kind : Kind} {size : Nat}
    (h : lexeme c (t ++ u) = .ok (.token kind size)) (hsize : size ≤ t.length + 1)
    (hdot : kind = .number → t.drop (size - 1) = ['.'] → EndsNumber u) :
    lexeme c t = .ok (.token kind size) := by
  have hpos := (lexeme_token h).1
  have hhead {d : Char} (hd : 1 < size) : (t ++ u).head? = some d ↔ t.head? = some d := by
    cases t with
    | cons e t => rfl
    | nil =>
        simp only [List.length_nil] at hsize
        omega
  have hsmaller {d : Char} (ht : t.head? = some d) : (t ++ u).head? = some d := by
    obtain ⟨t, rfl⟩ := List.head?_eq_some_iff.mp ht
    rfl
  rw [lexeme.eq_def] at h ⊢
  simp only [Bool.and_eq_true, decide_eq_true_eq] at h ⊢
  split at h
  · next hline =>
      obtain ⟨rfl, rfl⟩ := by simpa [lineComment] using h
      have htake := @takeWhile_of_append (· ≠ '\n') (c :: t) u (by simpa using hsize)
      have hline' : t.head? = some '/' := by
        refine (hhead ?_).mp hline.2
        obtain ⟨rest, hrest⟩ := List.head?_eq_some_iff.mp hline.2
        rw [hline.1, hrest]
        simp
      rw [if_pos ⟨hline.1, hline'⟩, lineComment, htake]
      simp
  next hline =>
  rw [if_neg fun hline' => hline ⟨hline'.1, hsmaller hline'.2⟩]
  split at h
  · next hblock =>
      unfold blockComment at h ⊢
      cases hcomment : commentLength? (t ++ u).tail with
      | none => simp [hcomment] at h
      | some n =>
          obtain ⟨rfl, rfl⟩ := by simpa [hcomment] using h
          have hblock' := (hhead (by omega)).mp hblock.2
          obtain ⟨rest, rfl⟩ := List.head?_eq_some_iff.mp hblock'
          rw [if_pos ⟨hblock.1, rfl⟩, List.tail_cons,
            commentLength?_of_append hcomment (by simpa using hsize)]
  next hblock =>
  rw [if_neg fun hblock' => hblock ⟨hblock'.1, hsmaller hblock'.2⟩]
  split at h
  · cases h
  next hblank =>
  rw [if_neg hblank]
  split at h
  · next hquote =>
      rw [if_pos hquote]
      exact literal_of_append h hsize
  next hquote =>
  rw [if_neg hquote]
  split at h
  · next hnumber =>
      obtain ⟨rfl, rfl⟩ := by simpa using h
      obtain ⟨hfirst, hhex⟩ := number_of_append hnumber hsize
      rw [hhex, ← List.cons_append] at hsize hdot hpos ⊢
      rw [if_pos hfirst, numberLength_of_append _ _ _ (by simpa using hsize) fun hdrop => hdot rfl ?_]
      rwa [← Nat.sub_add_cancel hpos, List.drop_succ_cons] at hdrop
  next hnumber =>
  rw [if_neg fun hnumber' => hnumber ?_]
  · split at h
    · next hname =>
        obtain ⟨rfl, rfl⟩ := by simpa using h
        rw [if_pos hname, takeWhile_of_append (by simpa using hsize)]
    next hname =>
    rw [if_neg hname]
    cases hpunctuation : punctuation? (c :: (t ++ u)) with
    | some l =>
        rw [hpunctuation, Option.some_or] at h
        obtain rfl : l = .token kind size := by simpa using h
        rw [punctuation?_of_append hpunctuation hsize]
        rfl
    | none =>
        rw [hpunctuation, Option.none_or] at h
        rw [punctuation?_eq_none c _ t hpunctuation, Option.none_or]
        cases hoperator : operator? (c :: (t ++ u)) with
        | none => simp [hoperator] at h
        | some l =>
            obtain rfl : l = .token kind size := by simpa [hoperator] using h
            rw [@operator?_of_append (c :: t) u kind size hoperator hsize]
  · cases t with
    | cons d t => exact hnumber'
    | nil =>
        have hdigit : c.isDigit = true := by simpa [isDigitOf] using hnumber'
        simp [hdigit]

/-! ## In front of the subtype operator -/

/-- A less sign behind a text makes an operator at its start longer only where the text is one. -/
theorem operator?_less {c : Char} {t v : Text} (h : c :: t ≠ ['<']) :
    operator? (c :: t ++ '<' :: v) = operator? (c :: t) := by
  have hops : ∀ op ∈ operators, op ≠ [] ∧ ('<' ∉ op.tail ∨ op.take 2 = ['<', '<'] ∧ '<' ∉ op.drop 2) := by
    decide
  have hprefix {op : Text} (hop : op ∈ operators) :
      op.isPrefixOf (c :: t ++ '<' :: v) = op.isPrefixOf (c :: t) := by
    obtain ⟨hne, hless⟩ := hops op hop
    obtain ⟨d, op, rfl⟩ := List.exists_cons_of_ne_nil hne
    rw [List.cons_append, List.isPrefixOf_cons_cons, List.isPrefixOf_cons_cons]
    by_cases hd : d = c
    · subst hd
      rcases hless with hless | ⟨htwo, hless⟩
      · rw [isPrefixOf_append fun c hc => by simpa [← Option.mem_some.mp hc] using hless]
      · obtain ⟨e, op, rfl⟩ : ∃ e op', op = e :: op' := by
          cases op with
          | nil => simp at htwo
          | cons e op => exact ⟨e, op, rfl⟩
        obtain ⟨rfl, rfl⟩ := by simpa using htwo
        obtain ⟨f, t, rfl⟩ : ∃ f t', t = f :: t' := by
          cases t with
          | nil => exact absurd rfl h
          | cons f t => exact ⟨f, t, rfl⟩
        rw [List.cons_append, List.isPrefixOf_cons_cons, List.isPrefixOf_cons_cons,
          isPrefixOf_append fun c hc => by simpa [← Option.mem_some.mp hc] using hless]
    · rw [beq_false_of_ne hd, Bool.false_and, Bool.false_and]
  have hfind (ops : List Text) (hall : ∀ op ∈ ops, op ∈ operators) :
      ops.find? (·.isPrefixOf (c :: t ++ '<' :: v)) = ops.find? (·.isPrefixOf (c :: t)) := by
    induction ops with
    | nil => rfl
    | cons op ops ih =>
        rw [List.find?_cons, List.find?_cons, hprefix (hall op List.mem_cons_self),
          ih fun o ho => hall o (List.mem_cons_of_mem op ho)]
  rw [operator?, operator?, hfind operators fun _ hop => hop]

/-- Characters that start operators and nothing else. -/
theorem lexeme_operator {c : Char} (hc : c ∈ ['<', '>', '?', ':', '=']) (t : Text) :
    lexeme c t = match operator? (c :: t) with
      | some l => .ok l
      | none => .error (.unexpectedCharacter c) := by
  have hall : ∀ c ∈ ['<', '>', '?', ':', '='], c ≠ '/' ∧ isBlank c = false ∧ c ≠ '"' ∧ c ≠ '\'' ∧
      c.isDigit = false ∧ c ≠ '.' ∧ punctuation? [c] = none := forall_mem_of_all (by decide +kernel)
  have hnames : ∀ c ∈ ['<', '>', '?', ':', '='], startsName c = false := forall_mem_of_all (by decide +kernel)
  obtain ⟨hslash, hblank, hquote, hcharacter, hdigit, hdot, hpunctuation⟩ := hall c hc
  have hname := hnames c hc
  rw [← punctuation?_of_ne_dot hdot t] at hpunctuation
  simp only [lexeme, hslash, hblank, hquote, hcharacter, hdigit, hdot, hname, hpunctuation,
    Option.none_or]
  rfl

theorem kind_of_lexeme_operator {c : Char} (hc : c ∈ ['<', '>', '?', ':', '=']) {t : Text} {kind : Kind} {size : Nat}
    (h : lexeme c t = .ok (.token kind size)) : kind = .operator := by
  rw [lexeme_operator hc] at h
  cases hoperator : operator? (c :: t) with
  | none => simp [hoperator] at h
  | some l =>
      obtain ⟨op, -, rfl⟩ := Option.map_eq_some_iff.mp hoperator
      obtain ⟨rfl, -⟩ := by simpa [hoperator] using h
      rfl

theorem lexeme_less (v : Text) : lexeme '<' (':' :: v) = .ok (.token .operator 1) := by
  rw [lexeme_operator (by decide)]
  rfl

theorem lexeme_less_less (v : Text) : lexeme '<' ('<' :: ':' :: v) = .ok (.token .operator 2) := by
  rw [lexeme_operator (by decide)]
  rfl

theorem lexeme_colon (v : Text) :
    lexeme ':' v = .ok (.token .operator (if v.head? = some ':' then 2 else 1)) := by
  rw [lexeme_operator (by decide)]
  cases v with
  | nil => rfl
  | cons d v =>
      by_cases hd : d = ':'
      · subst hd
        rfl
      · simp [operator?, operators, List.isPrefixOf, hd, Ne.symm hd]

/-- A number starts at a digit, or at a dot before one. -/
theorem lexeme_number {c : Char} {t : Text}
    (h : (c.isDigit || (c = '.' && isDigitOf t.head?)) = true) :
    lexeme c t = .ok (.token .number (numberLength (isHexadecimal (c :: t)) false false (c :: t))) := by
  have hc : c.isDigit = true ∨ c = '.' := by
    simp only [Bool.or_eq_true, Bool.and_eq_true, decide_eq_true_eq] at h
    tauto
  have hblank : isBlank c = false := by
    rcases hc with hdigit | rfl
    · have := @not_isBlank_of_isAlphanum c (by simp [Char.isAlphanum, hdigit])
      simpa using this
    · decide
  have hother : c ≠ '/' ∧ c ≠ '"' ∧ c ≠ '\'' := by
    refine ⟨?_, ?_, ?_⟩ <;>
      · rintro rfl
        revert hc
        decide
  simp only [lexeme, hother, hblank, h, decide_false, Bool.false_and, Bool.or_self]
  rfl

/-! ## The kinds of tokens -/

theorem kind_of_literal {quote : Char} {t : Text} {kind : Kind} {size : Nat}
    (h : literal quote t = .ok (.token kind size)) : kind = .string ∨ kind = .character := by
  unfold literal at h
  repeat' split at h
  all_goals simp at h
  · exact .inl h.1.symm
  · exact .inr h.1.symm

theorem kind_of_symbols {c : Char} {t : Text} {kind : Kind} {size : Nat}
    (h : (punctuation? (c :: t)).or (operator? (c :: t)) = some (.token kind size)) :
    kind ≠ .number ∧ kind ≠ .comment ∧ kind ≠ .word := by
  cases hpunctuation : punctuation? (c :: t) with
  | some l =>
      obtain rfl : l = .token kind size := by simpa [hpunctuation] using h
      unfold punctuation? at hpunctuation
      split at hpunctuation <;> cases hpunctuation <;> decide
  | none =>
      rw [hpunctuation, Option.none_or] at h
      obtain ⟨op, -, hop⟩ := Option.map_eq_some_iff.mp h
      obtain ⟨rfl, -⟩ := by simpa using hop
      decide

theorem lexeme_comment {c : Char} {t : Text} {size : Nat}
    (h : lexeme c t = .ok (.token .comment size)) :
    c = '/' ∧ ((t.head? = some '/' ∧ size = ((c :: t).takeWhile (· ≠ '\n')).length) ∨
      (t.head? = some '*' ∧ ∃ n, commentLength? t.tail = some n ∧ size = n + 2)) := by
  rw [lexeme.eq_def] at h
  simp only [Bool.and_eq_true, decide_eq_true_eq] at h
  split at h
  · next hline => exact ⟨hline.1, .inl ⟨hline.2, by simpa [lineComment] using h.symm⟩⟩
  split at h
  · next hblock =>
      refine ⟨hblock.1, .inr ⟨hblock.2, ?_⟩⟩
      unfold blockComment at h
      split at h
      · next n hn => exact ⟨n, hn, by simpa using h.symm⟩
      · cases h
  exfalso
  split at h
  · cases h
  split at h
  · simpa using kind_of_literal h
  split at h
  · simp at h
  split at h
  · simp at h
  cases hsymbol : (punctuation? (c :: t)).or (operator? (c :: t)) with
  | none => simp [hsymbol] at h
  | some l =>
      obtain rfl : l = .token .comment size := by simpa [hsymbol] using h
      exact (kind_of_symbols hsymbol).2.1 rfl

/-- Nothing but a digit, or a dot before one, starts a number. -/
theorem number_of_lexeme {c : Char} {t : Text} {size : Nat}
    (h : lexeme c t = .ok (.token .number size)) :
    (c.isDigit || (c = '.' && isDigitOf t.head?)) = true ∧
      size = numberLength (isHexadecimal (c :: t)) false false (c :: t) := by
  rw [lexeme.eq_def] at h
  split at h
  · simp [lineComment] at h
  split at h
  · unfold blockComment at h
    split at h <;> simp at h
  split at h
  · cases h
  split at h
  · simpa using kind_of_literal h
  split at h
  · next hnumber => exact ⟨hnumber, by simpa using h.symm⟩
  split at h
  · simp at h
  cases hsymbol : (punctuation? (c :: t)).or (operator? (c :: t)) with
  | none => simp [hsymbol] at h
  | some l =>
      obtain rfl : l = .token .number size := by simpa [hsymbol] using h
      exact absurd rfl (kind_of_symbols hsymbol).1

/-- What starts a word decides that it is one; what follows says where it ends. -/
theorem word_of_lexeme {c : Char} {t : Text} {size : Nat} (h : lexeme c t = .ok (.token .word size)) :
    startsName c = true ∧ ∀ u, lexeme c u = .ok (.token .word ((u.takeWhile continuesName).length + 1)) := by
  rw [lexeme.eq_def] at h
  split at h
  · simp [lineComment] at h
  split at h
  · unfold blockComment at h
    split at h <;> simp at h
  split at h
  · cases h
  split at h
  · simpa using kind_of_literal h
  split at h
  · simp at h
  next hblank hquote hnumber =>
  split at h
  · next hname =>
    have hslash : c ≠ '/' := by
      rintro rfl
      exact absurd hname (by decide +kernel)
    have hdot : c ≠ '.' := by
      rintro rfl
      exact absurd hname (by decide +kernel)
    refine ⟨hname, fun u => ?_⟩
    simp only [Bool.or_eq_true, not_or, decide_eq_true_eq] at hquote hnumber
    simp [lexeme, hslash, hblank, hquote, hnumber.1, hdot, hname]
  · exfalso
    cases hsymbol : (punctuation? (c :: t)).or (operator? (c :: t)) with
    | none => simp [hsymbol] at h
    | some l =>
        obtain rfl : l = .token .word size := by simpa [hsymbol] using h
        exact (kind_of_symbols hsymbol).2.2 rfl

theorem punctuation_of_lexeme {c : Char} {t : Text} {kind : Kind} {size : Nat}
    (h : lexeme c t = .ok (.token kind size))
    (hkind : kind ∉ [.comment, .string, .character, .number, .word, .operator]) :
    punctuation? (c :: t) = some (.token kind size) := by
  rw [lexeme.eq_def] at h
  split at h
  · obtain ⟨rfl, -⟩ := by simpa [lineComment] using h
    simp at hkind
  split at h
  · unfold blockComment at h
    split at h
    · obtain ⟨rfl, -⟩ := by simpa using h
      simp at hkind
    · cases h
  split at h
  · cases h
  split at h
  · rcases kind_of_literal h with rfl | rfl <;> simp at hkind
  split at h
  · obtain ⟨rfl, -⟩ := by simpa using h
    simp at hkind
  split at h
  · obtain ⟨rfl, -⟩ := by simpa using h
    simp at hkind
  cases hpunctuation : punctuation? (c :: t) with
  | some l => simpa [hpunctuation] using h
  | none =>
      rw [hpunctuation, Option.none_or] at h
      cases hoperator : operator? (c :: t) with
      | none => simp [hoperator] at h
      | some l =>
          obtain ⟨op, -, rfl⟩ := Option.map_eq_some_iff.mp hoperator
          obtain ⟨rfl, -⟩ := by simpa [hoperator] using h
          simp at hkind

theorem closing_of_lexeme {c : Char} {t : Text} {kind : Kind} {size : Nat}
    (h : lexeme c t = .ok (.token kind size))
    (hkind : kind ∈ [.comma, .closeParen, .closeBracket, .closeBrace, .semicolon]) :
    c ∈ ",)]\x7d;".toList := by
  have hpunctuation := punctuation_of_lexeme h (by simp at hkind ⊢; grind)
  unfold punctuation? at hpunctuation
  split at hpunctuation <;> cases hpunctuation <;> simp_all

theorem single_dot_of_lexeme {c : Char} {t : Text} {size : Nat}
    (h : lexeme c t = .ok (.token .dot size)) : c = '.' ∧ size = 1 := by
  have hpunctuation := punctuation_of_lexeme h (by decide)
  unfold punctuation? at hpunctuation
  split at hpunctuation <;> cases hpunctuation
  next heq => exact ⟨(List.cons.inj heq).1, rfl⟩

/-- A single dot is no number. -/
theorem dot_of_lexeme {v : Text} {kind : Kind} (h : lexeme '.' v = .ok (.token kind 1)) :
    kind = .dot := by
  by_cases hdigit : isDigitOf v.head? = true
  · rw [lexeme_number (by simp [hdigit])] at h
    obtain ⟨-, hsize⟩ := by simpa using h
    rw [numberLength_other (by decide), if_pos (by simp [hdigit])] at hsize
    have := @numberLength_pos_of_isDigitOf (isHexadecimal ('.' :: v)) true true v hdigit
    omega
  · have hname : startsName '.' = false := by decide +kernel
    have hblank : isBlank '.' = false := by decide
    rw [Bool.not_eq_true] at hdigit
    simp [lexeme, hdigit, hname, hblank, punctuation?_dot] at h
    split at h
    · simp at h
    · simpa using h.symm

theorem commentLength?_append {t : Text} {n : Nat} (h : commentLength? t = some n) (u : Text) :
    commentLength? (t ++ u) = some n := by
  fun_induction commentLength? t generalizing n with
  | case1 => cases h
  | case2 => exact h
  | case3 c t hstar ih =>
      obtain ⟨k, hk, rfl⟩ := Option.map_eq_some_iff.mp h
      have hnext := ih hk
      rw [List.cons_append, commentLength?.eq_def]
      split
      · simp_all
      · next heq =>
          cases t with
          | nil => cases hk
          | cons d t =>
              obtain ⟨rfl, rfl, rfl⟩ := by simpa using heq
              exact absurd rfl (hstar t rfl)
      · next heq =>
          obtain ⟨rfl, rfl⟩ := by simpa using heq
          rw [hnext]
          rfl

/-- A comment stays one in front of any text, a line comment if its line has ended. -/
theorem lexeme_comment_append {c : Char} {t : Text} {size : Nat}
    (h : lexeme c t = .ok (.token .comment size))
    (hline : t.head? = some '/' → size ≤ t.length) (u : Text) :
    lexeme c (t ++ u) = .ok (.token .comment size) := by
  obtain ⟨rfl, ⟨hhead, rfl⟩ | ⟨hhead, n, hn, rfl⟩⟩ := lexeme_comment h
  · have hlt := hline hhead
    have htake : (('/' :: t ++ u).takeWhile (· ≠ '\n')).length =
        (('/' :: t).takeWhile (· ≠ '\n')).length := by
      rw [List.takeWhile_append, if_neg]
      rw [List.length_cons]
      omega
    obtain ⟨t, rfl⟩ := List.head?_eq_some_iff.mp hhead
    rw [List.cons_append, ← htake]
    rfl
  · obtain ⟨t, rfl⟩ := List.head?_eq_some_iff.mp hhead
    rw [List.tail_cons] at hn
    have hmore := commentLength?_append hn u
    simp [lexeme, blockComment, hmore]

/-- A comment in front of what starts no line is the same in front of everything. -/
theorem lexeme_comment_before {c d : Char} {t v : Text} {size : Nat}
    (h : lexeme c (t ++ d :: v) = .ok (.token .comment size)) (hsize : size ≤ t.length + 1) (hd : d ≠ '\n')
    (w : Text) : lexeme c (t ++ w) = .ok (.token .comment size) := by
  have halone := lexeme_of_append h hsize nofun
  refine lexeme_comment_append halone (fun hhead => ?_) _
  obtain ⟨t, rfl⟩ := List.head?_eq_some_iff.mp hhead
  obtain ⟨rfl, ⟨-, rfl⟩ | ⟨hstar, -⟩⟩ := lexeme_comment h
  · -- A line comment that reached the end of `t` would go on over what follows.
    by_contra hlong
    have hall : ∀ e ∈ '/' :: '/' :: t, decide (e ≠ '\n') = true := by
      have hline : ('/' :: '/' :: t) <+: ('/' :: ('/' :: t ++ d :: v)).takeWhile (· ≠ '\n') := by
        refine List.prefix_of_prefix_length_le ?_ (List.takeWhile_prefix _) ?_
        · exact ⟨d :: v, rfl⟩
        · rw [List.length_cons]
          omega
      exact fun e he => List.all_eq_true.mp List.all_takeWhile e (hline.subset he)
    have hmore : (('/' :: '/' :: t ++ d :: v).takeWhile (· ≠ '\n')).length ≤ t.length + 2 := hsize
    rw [List.takeWhile_append_of_pos hall, List.takeWhile_cons, if_pos (by simpa using hd)] at hmore
    simp only [List.length_append, List.length_cons] at hmore
    omega
  · cases hstar

/-- A lexeme is the same with the subtype operator in place of a type test behind it, unless it is a
less sign right in front or a number with a dot in between. -/
theorem lexeme_before_test {c : Char} {t v : Text} {kind : Kind} {size : Nat}
    (h : lexeme c (t ++ 'i' :: v) = .ok (.token kind size)) (hsize : size ≤ t.length + 1)
    (hless : c :: t ≠ ['<']) (hdot : kind = .number → t.drop (size - 1) ≠ ['.']) (w : Text) :
    lexeme c (t ++ '<' :: w) = .ok (.token kind size) := by
  by_cases hkind : kind = .comment
  · subst hkind
    exact lexeme_comment_before h hsize (by decide) _
  · have halone := lexeme_of_append h hsize fun hkind hdrop => absurd hdrop (hdot hkind)
    exact (lexeme_append_of_isLoose (by simp [IsLoose]) (operator?_less hless) halone hkind).1

theorem numberLength_before_test {v : Text} (hex seenDot started : Bool) {t : Text}
    (h : numberLength hex seenDot started (t ++ '.' :: 'i' :: v) = t.length) :
    t.length ≤ numberLength hex seenDot started (t ++ ['.']) := by
  fun_induction numberLength hex seenDot started t with
  | case1 => simp
  | case2 seenDot started c hword sign t hsign ih =>
      rw [List.cons_append, List.cons_append, numberLength.eq_def] at h ⊢
      simp only [hword, hsign, if_true, List.length_cons, Nat.add_right_cancel_iff] at h ⊢
      have := ih h
      omega
  | case3 seenDot started c hword sign t hsign ih =>
      have hmore (w : Text) : numberLength hex seenDot started (c :: sign :: t ++ w) =
          numberLength hex seenDot true (sign :: t ++ w) + 1 := by
        rw [List.cons_append, List.cons_append, numberLength.eq_def]
        simp [hword, hsign]
      rw [hmore, List.length_cons, Nat.add_right_cancel_iff] at h
      rw [hmore, List.length_cons]
      exact Nat.succ_le_succ (ih h)
  | case4 seenDot started c hword => exact numberLength_word_pos hword
  | case5 seenDot started c t hword hdigit ih =>
      have hhead (w : Text) : (t ++ w).head? = t.head? := by
        cases t with
        | nil => simp [isDigitOf] at hdigit
        | cons d t => rfl
      rw [List.cons_append, numberLength_other hword, hhead, if_pos hdigit, List.length_cons,
        Nat.add_right_cancel_iff] at h
      rw [List.cons_append, numberLength_other hword, hhead, if_pos hdigit, List.length_cons]
      exact Nat.succ_le_succ (ih h)
  | case6 seenDot started c t hword hdigit hstarted d hhead halpha =>
      obtain ⟨t, rfl⟩ := List.head?_eq_some_iff.mp hhead
      rw [List.cons_append, List.cons_append, numberLength_other hword, List.head?_cons,
        if_neg (by simpa using hdigit), if_pos hstarted] at h
      simp [halpha] at h
  | case7 seenDot started c t hword hdigit hstarted d hhead halpha ih =>
      obtain ⟨t, rfl⟩ := List.head?_eq_some_iff.mp hhead
      have hmore (w : Text) : numberLength hex seenDot started (c :: d :: t ++ w) =
          numberLength hex true true (d :: t ++ w) + 1 := by
        rw [List.cons_append, List.cons_append, numberLength_other hword, List.head?_cons,
          if_neg (by simpa using hdigit), if_pos hstarted]
        simp [halpha]
      rw [hmore, List.length_cons, Nat.add_right_cancel_iff] at h
      rw [hmore, List.length_cons]
      exact Nat.succ_le_succ (ih h)
  | case8 seenDot started c t hword hdigit hstarted hhead =>
      obtain rfl := List.head?_eq_none_iff.mp hhead
      rw [List.singleton_append, numberLength_other hword, if_neg (by simp [isDigitOf]),
        if_pos hstarted] at h
      simp at h
  | case9 seenDot started c t hword hdigit hstarted =>
      have hnone : ¬ (c = '.' && isDigitOf (t ++ '.' :: 'i' :: v).head?) = true := by
        cases t with
        | nil => simp [isDigitOf]
        | cons d t => simpa using hdigit
      rw [List.cons_append, numberLength_other hword, if_neg hnone, if_neg hstarted] at h
      simp at h

theorem lexeme_number_before_test {c : Char} {t v : Text}
    (h : lexeme c (t ++ '.' :: 'i' :: v) = .ok (.token .number (t.length + 1))) (w : Text) :
    ∃ size, lexeme c (t ++ '.' :: '<' :: w) = .ok (.token .number size) ∧
      (size = t.length + 1 ∨ size = t.length + 2) := by
  obtain ⟨hnumber, hsize⟩ := number_of_lexeme h
  have hhead (w : Text) : (t ++ '.' :: w).head? = (t ++ ['.']).head? := by cases t <;> rfl
  have hhex (w : Text) : isHexadecimal (c :: (t ++ '.' :: w)) = isHexadecimal (c :: (t ++ ['.'])) := by
    rw [isHexadecimal_cons, isHexadecimal_cons, hhead]
  rw [hhead] at hnumber
  rw [hhex] at hsize
  have hloose : IsLoose ('<' :: w) := by simp [IsLoose]
  have hlength : numberLength (isHexadecimal (c :: (t ++ ['.']))) false false (c :: (t ++ '.' :: '<' :: w)) =
      numberLength (isHexadecimal (c :: (t ++ ['.']))) false false (c :: t ++ ['.']) := by
    rw [← numberLength_append hloose _ _ _ (c :: t ++ ['.'])]
    simp
  have hle := numberLength_le (isHexadecimal (c :: (t ++ ['.']))) false false (c :: t ++ ['.'])
  have hge := @numberLength_before_test v _ _ _ (c :: t) (by simpa using hsize.symm)
  refine ⟨_, lexeme_number (by rwa [hhead]), ?_⟩
  rw [hhex, hlength]
  simp only [List.length_append, List.length_cons, List.length_nil] at hle hge
  omega

end Token

end CodeFrames
