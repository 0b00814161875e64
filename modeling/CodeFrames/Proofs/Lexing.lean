import CodeFrames.Proofs.Layout

/-!
# Tokens of a text in front of another

A token ends before a blank, a bracket, a semicolon or a comma wherever it stands.  So a text in
front of one of these is split into the tokens that it is split into alone, up to their places in the
source.
-/

namespace CodeFrames

/-! ## Lexemes in front of a separator -/

namespace Text

def separators : List Char := " \n()[]{};,".toList

/-- A property of the characters of a list is decided by running through the list, not through all
characters. -/
theorem forall_mem_of_all {P : Char → Prop} [DecidablePred P] {cs : List Char}
    (h : cs.all (fun c => P c) = true) : ∀ c ∈ cs, P c := fun c hc =>
  of_decide_eq_true (List.all_eq_true.mp h c hc)

/-- The first character, if there is one, ends every token before it. -/
def IsApart (u : Text) : Prop := ∀ c ∈ u.head?, c ∈ separators

/-- The first character, if there is one, ends every token before it that is no operator. -/
def IsLoose (u : Text) : Prop := ∀ c ∈ u.head?, c ∈ '<' :: separators

theorem isApart_nil : IsApart [] := by simp [IsApart]

theorem isApart_cons {c : Char} (h : c ∈ separators) (u : Text) : IsApart (c :: u) := by
  simpa [IsApart] using h

theorem IsApart.loose {u : Text} (hu : IsApart u) : IsLoose u :=
  fun c hc => List.mem_cons_of_mem _ (hu c hc)

/-- Whether a text starts with `op` is told without what stands behind it and does not go on. -/
theorem isPrefixOf_append {op u : Text} (hop : ∀ c ∈ u.head?, c ∉ op) (t : Text) :
    op.isPrefixOf (t ++ u) = op.isPrefixOf t := by
  induction op generalizing t with
  | nil => simp
  | cons c op ih =>
      cases t with
      | nil =>
          cases u with
          | nil => rfl
          | cons d u =>
              have hd : c ≠ d := by
                rintro rfl
                exact hop c rfl List.mem_cons_self
              simp [List.isPrefixOf, hd]
      | cons d t =>
          simp [List.isPrefixOf, ih fun e he hmem => hop e he (List.mem_cons_of_mem c hmem)]

theorem IsLoose.isPrefixOf_append {u : Text} (hu : IsLoose u) {op : Text}
    (hop : ∀ c ∈ op, c ∉ '<' :: separators) (t : Text) : op.isPrefixOf (t ++ u) = op.isPrefixOf t :=
  Text.isPrefixOf_append (fun c hc hmem => hop c hmem (hu c hc)) t

end Text

namespace Token

open Text

variable {u : Text}

theorem literalLength?_append {quote : Char} {t : Text} {n : Nat}
    (h : literalLength? quote t = some n) (u : Text) :
    literalLength? quote (t ++ u) = some n ∧ n ≤ t.length := by
  fun_induction literalLength? quote t generalizing n with
  | case1 => cases h
  | case2 => cases h
  | case3 c t ih =>
      obtain ⟨k, hk, rfl⟩ := Option.map_eq_some_iff.mp h
      obtain ⟨hk, hle⟩ := ih hk
      exact ⟨by simp [literalLength?, hk], by simpa using hle⟩
  | case4 => cases h
  | case5 t hslash hline =>
      obtain rfl : 1 = n := by simpa using h
      refine ⟨?_, by simp⟩
      rw [List.cons_append, literalLength?.eq_def]
      split <;> simp_all
  | case6 c t hslash hline hquote ih =>
      obtain ⟨k, hk, rfl⟩ := Option.map_eq_some_iff.mp h
      obtain ⟨hk, hle⟩ := ih hk
      refine ⟨?_, by simpa using hle⟩
      rw [List.cons_append, literalLength?.eq_def]
      split <;> simp_all

theorem numberLength_of_isLoose (hu : IsLoose u) (hex seenDot started : Bool) :
    numberLength hex seenDot started u = 0 := by
  have hall : ∀ c ∈ '<' :: separators, (c.isAlphanum || c = '_') = false ∧ c ≠ '.' :=
    forall_mem_of_all (by decide)
  cases u with
  | nil => rfl
  | cons c u =>
      obtain ⟨hword, hdot⟩ := hall c (hu c (by simp))
      rw [numberLength.eq_def]
      simp [hword, hdot]

theorem isDigitOf_head?_append (hu : IsLoose u) (t : Text) :
    isDigitOf (t ++ u).head? = isDigitOf t.head? := by
  have hall : ∀ c ∈ '<' :: separators, c.isDigit = false := forall_mem_of_all (by decide)
  cases t with
  | cons c t => rfl
  | nil =>
      cases u with
      | nil => rfl
      | cons c u => exact hall c (hu c (by simp))

theorem numberLength_append (hu : IsLoose u) (hex seenDot started : Bool) (t : Text) :
    numberLength hex seenDot started (t ++ u) = numberLength hex seenDot started t := by
  have hall : ∀ c ∈ '<' :: separators, c ≠ '+' ∧ c ≠ '-' ∧ c.isAlpha = false ∧ c ≠ '.' :=
    forall_mem_of_all (by decide)
  fun_induction numberLength hex seenDot started t with
  | case1 => exact numberLength_of_isLoose hu _ _ _
  | case2 seenDot started c hword sign t hsign ih =>
      rw [List.cons_append, List.cons_append, numberLength.eq_def]
      simp only [hword, hsign, if_true, ih]
  | case3 seenDot started c hword sign t hsign ih =>
      rw [List.cons_append, List.cons_append, numberLength.eq_def]
      simp only [hword, hsign, if_true, ← List.cons_append, ih]
      rfl
  | case4 seenDot started c hword =>
      cases u with
      | nil => simp [numberLength, hword]
      | cons d u =>
          obtain ⟨hplus, hminus, -, -⟩ := hall d (hu d (by simp))
          rw [List.cons_append, List.nil_append, numberLength.eq_def]
          simp [hword, hplus, hminus, numberLength_of_isLoose hu]
  | case5 seenDot started c t hword hdigit ih =>
      rw [List.cons_append, numberLength.eq_def]
      simp only [hword, isDigitOf_head?_append hu, hdigit, if_true, ih]
      rfl
  | case6 seenDot started c t hword hdigit hdot d hhead halpha =>
      obtain ⟨t, rfl⟩ := List.head?_eq_some_iff.mp hhead
      rw [List.cons_append, numberLength.eq_def]
      simp only [List.head?_cons] at hdigit
      simp [hword, hdigit, hdot, halpha]
  | case7 seenDot started c t hword hdigit hdot d hhead halpha ih =>
      obtain ⟨t, rfl⟩ := List.head?_eq_some_iff.mp hhead
      rw [List.cons_append, numberLength.eq_def]
      simp only [hword, isDigitOf_head?_append hu, hdigit, hdot, ih, if_true]
      simp [halpha]
  | case8 seenDot started c t hword hdigit hdot hhead =>
      obtain rfl := List.head?_eq_none_iff.mp hhead
      rw [List.cons_append, numberLength.eq_def]
      simp only [hword, isDigitOf_head?_append hu, hdigit, hdot, if_true]
      cases u with
      | nil => rfl
      | cons d u =>
          obtain ⟨-, -, halpha, hdot⟩ := hall d (hu d (by simp))
          simp [halpha, hdot, numberLength_of_isLoose hu]
  | case9 seenDot started c t hword hdigit hdot =>
      rw [List.cons_append, numberLength.eq_def]
      simp only [hword, isDigitOf_head?_append hu, hdigit, hdot]
      rfl

theorem numberLength_le (hex seenDot started : Bool) (t : Text) :
    numberLength hex seenDot started t ≤ t.length := by
  fun_induction numberLength hex seenDot started t <;> simp only [List.length_cons, Nat.zero_le] at * <;>
    omega

theorem takeWhile_continuesName_append (hu : IsLoose u) (t : Text) :
    (t ++ u).takeWhile continuesName = t.takeWhile continuesName := by
  have hall : ∀ c ∈ '<' :: separators, continuesName c = false := forall_mem_of_all (by decide +kernel)
  induction t with
  | nil =>
      cases u with
      | nil => rfl
      | cons c u => simp [hall c (hu c (by simp))]
  | cons c t ih => simp only [List.cons_append, List.takeWhile_cons, ih]

theorem operator?_append (hu : IsApart u) (t : Text) : operator? (t ++ u) = operator? t := by
  have hops : ∀ op ∈ operators, op.all (fun c => c ∉ separators) = true := by decide
  have hall (op : Text) (hop : op ∈ operators) : ∀ c ∈ op, c ∉ separators :=
    forall_mem_of_all (hops op hop)
  have hfind (ops : List Text) (hops : ∀ op ∈ ops, op ∈ operators) :
      ops.find? (·.isPrefixOf (t ++ u)) = ops.find? (·.isPrefixOf t) := by
    induction ops with
    | nil => rfl
    | cons op ops ih =>
        rw [List.find?_cons, List.find?_cons,
          isPrefixOf_append (fun c hc hmem => hall op (hops op List.mem_cons_self) c hmem (hu c hc)) t,
          ih fun o ho => hops o (List.mem_cons_of_mem op ho)]
  rw [operator?, operator?, hfind operators fun _ hop => hop]

theorem punctuation?_dot (t : Text) :
    punctuation? ('.' :: t) =
      some (if "..".toList.isPrefixOf t then .token .ellipsis 3 else .token .dot 1) := by
  match t with
  | [] => rfl
  | [d] => by_cases hd : d = '.' <;> simp [punctuation?, List.isPrefixOf, hd]
  | d :: e :: t =>
      by_cases hd : d = '.'
      · by_cases he : e = '.'
        · rw [hd, he]
          rfl
        · simp [punctuation?, List.isPrefixOf, hd, Ne.symm he, he]
      · simp [punctuation?, List.isPrefixOf, Ne.symm hd, hd]

theorem punctuation?_append (hu : IsLoose u) (c : Char) (t : Text) :
    punctuation? (c :: (t ++ u)) = punctuation? (c :: t) := by
  by_cases hdot : c = '.'
  · rw [hdot, punctuation?_dot, punctuation?_dot, hu.isPrefixOf_append (forall_mem_of_all (by decide))]
  · rw [punctuation?.eq_def, punctuation?.eq_def]
    split <;> simp_all

theorem literal_append (hu : IsLoose u) {quote : Char} {t : Text} {kind : Kind} {size : Nat}
    (h : literal quote t = .ok (.token kind size)) :
    literal quote (t ++ u) = .ok (.token kind size) ∧ size ≤ t.length + 1 := by
  unfold literal at h ⊢
  rw [hu.isPrefixOf_append (forall_mem_of_all (by decide))]
  have hsize {n : Nat} (hn : literalLength? quote t = some n) : n + 1 ≤ t.length + 1 := by
    simpa using (literalLength?_append hn u).2
  split at h
  · next hquote =>
      split at h
      · cases h
      · next hblock =>
          split at h
          · next n hn =>
              obtain ⟨rfl, rfl⟩ := by simpa using h
              have hmore := (literalLength?_append hn u).1
              exact ⟨by rw [if_pos hquote, if_neg hblock, hmore], hsize hn⟩
          · cases h
  · next hquote =>
      split at h
      · next n hn =>
          obtain ⟨rfl, rfl⟩ := by simpa using h
          have hmore := (literalLength?_append hn u).1
          exact ⟨by rw [if_neg hquote, hmore], hsize hn⟩
      · cases h

theorem operator?_size {t : Text} {kind : Kind} {size : Nat}
    (h : operator? t = some (.token kind size)) : size ≤ t.length := by
  simp only [operator?, Option.map_eq_some_iff, Lexeme.token.injEq] at h
  obtain ⟨op, hfind, rfl, rfl⟩ := h
  have hop := List.find?_some (p := fun op : Text => op.isPrefixOf t) hfind
  exact (List.isPrefixOf_iff_prefix.mp hop).length_le

theorem punctuation?_size {t : Text} {kind : Kind} {size : Nat}
    (h : punctuation? t = some (.token kind size)) : size ≤ t.length := by
  unfold punctuation? at h
  split at h <;> simp at h
  all_goals
    obtain ⟨rfl, rfl⟩ := h
    simp

theorem head?_append_eq_some (hu : IsLoose u) {d : Char} (hd : d ∉ '<' :: separators) (t : Text) :
    (t ++ u).head? = some d ↔ t.head? = some d := by
  cases t with
  | cons e t => rfl
  | nil =>
      cases u with
      | nil => rfl
      | cons e u =>
          have he := hu e (by simp)
          simp only [List.nil_append, List.head?_cons, Option.some.injEq, List.head?_nil]
          refine ⟨?_, fun h => by cases h⟩
          rintro rfl
          exact absurd he hd

theorem isHexadecimal_cons (c : Char) (t : Text) :
    isHexadecimal (c :: t) = (c = '0' && (t.head? = some 'x' || t.head? = some 'X')) := by
  match t with
  | [] => simp [isHexadecimal]
  | d :: t => rw [isHexadecimal.eq_def]; split <;> simp_all

theorem isHexadecimal_append (hu : IsLoose u) (c : Char) (t : Text) :
    isHexadecimal (c :: (t ++ u)) = isHexadecimal (c :: t) := by
  simp only [isHexadecimal_cons, head?_append_eq_some hu (d := 'x') (by decide),
    head?_append_eq_some hu (d := 'X') (by decide)]

/-- A lexeme other than a comment is the same in front of a character that ends it. -/
theorem lexeme_append_of_isLoose (hu : IsLoose u) {c : Char} {t : Text} {kind : Kind} {size : Nat}
    (hop : operator? (c :: t ++ u) = operator? (c :: t))
    (h : lexeme c t = .ok (.token kind size)) (hkind : kind ≠ .comment) :
    lexeme c (t ++ u) = .ok (.token kind size) ∧ size ≤ t.length + 1 := by
  rw [lexeme.eq_def] at h ⊢
  simp only [head?_append_eq_some hu (d := '/') (by decide),
    head?_append_eq_some hu (d := '*') (by decide), isDigitOf_head?_append hu]
  split at h
  · obtain ⟨rfl, -⟩ := by simpa [lineComment] using h
    exact absurd rfl hkind
  next hline =>
  split at h
  · simp only [blockComment] at h
    split at h
    · obtain ⟨rfl, -⟩ := by simpa using h
      exact absurd rfl hkind
    · cases h
  next hblock =>
  split at h
  · cases h
  next hblank =>
  rw [if_neg hline, if_neg hblock, if_neg hblank]
  split at h
  · next hquote =>
      rw [if_pos hquote]
      exact literal_append hu h
  next hquote =>
  rw [if_neg hquote]
  split at h
  · next hdigit =>
      rw [if_pos hdigit]
      obtain ⟨rfl, rfl⟩ := by simpa using h
      rw [isHexadecimal_append hu, ← List.cons_append, numberLength_append hu]
      exact ⟨rfl, numberLength_le _ _ _ (c :: t)⟩
  next hdigit =>
  rw [if_neg hdigit]
  split at h
  · next hname =>
      obtain ⟨rfl, rfl⟩ := by simpa using h
      rw [if_pos hname, takeWhile_continuesName_append hu]
      exact ⟨rfl, Nat.succ_le_succ (List.takeWhile_prefix _).length_le⟩
  next hname =>
  rw [if_neg hname, punctuation?_append hu, ← List.cons_append, hop]
  cases hpunctuation : punctuation? (c :: t) with
  | some l =>
      rw [hpunctuation, Option.some_or] at h
      simp only [Except.ok.injEq] at h
      exact ⟨h ▸ rfl, punctuation?_size (h ▸ hpunctuation)⟩
  | none =>
      rw [hpunctuation, Option.none_or] at h
      cases hoperator : operator? (c :: t) with
      | some l =>
          simp only [hoperator, Except.ok.injEq] at h
          exact ⟨h ▸ rfl, operator?_size (h ▸ hoperator)⟩
      | none => simp [hoperator] at h

/-- In front of a separator it is always the same. -/
theorem lexeme_append (hu : IsApart u) {c : Char} {t : Text} {kind : Kind} {size : Nat}
    (h : lexeme c t = .ok (.token kind size)) (hkind : kind ≠ .comment) :
    lexeme c (t ++ u) = .ok (.token kind size) ∧ size ≤ t.length + 1 :=
  lexeme_append_of_isLoose hu.loose (operator?_append hu (c :: t)) h hkind

theorem lexeme_of_isBlank {c : Char} (h : isBlank c = true) (t : Text) : lexeme c t = .ok .blank := by
  have hslash : c ≠ '/' := by
    rintro rfl
    revert h
    decide
  simp [lexeme, hslash, h]

theorem isBlank_of_lexeme {c : Char} {t : Text} (h : lexeme c t = .ok .blank) : isBlank c = true := by
  have hliteral : literal c t ≠ .ok .blank := by
    unfold literal
    repeat' split
    all_goals simp
  have hpunctuation : punctuation? (c :: t) ≠ some .blank := by
    unfold punctuation?
    split <;> simp
  have hoperator : operator? (c :: t) ≠ some .blank := by simp [operator?]
  cases hblank : isBlank c with
  | true => rfl
  | false =>
      rw [lexeme.eq_def] at h
      simp only [hblank, lineComment, blockComment, Bool.false_eq_true, if_false] at h
      repeat' split at h
      all_goals simp_all [Option.or_eq_some_iff]

/-! ## Tokens without their places -/

/-- The token without its place in a source. -/
def bare (t : Token) : Token := ⟨⟨0, 0, 0⟩, t.kind, t.text⟩

/-- A token that has no place in a source. -/
def symbol (kind : Kind) (text : Text) : Token := ⟨⟨0, 0, 0⟩, kind, text⟩

/-- The tokens of a text without their places, as far as the text can be split; `skip` characters
belong to a token found earlier. -/
def symbolsFrom : Nat → Text → List Token
  | _, [] => [symbol .endOfInput []]
  | skip + 1, _ :: t => symbolsFrom skip t
  | 0, c :: t =>
      match lexeme c t with
      | .error _ => []
      | .ok .blank => symbolsFrom 0 t
      | .ok (.token kind size) =>
          symbol kind ((c :: t).take size) :: symbolsFrom (size - 1) t

def symbols (t : Text) : List Token := symbolsFrom 0 t

section

variable {c : Char} {t : Text} {p : Position} {kind : Kind} {size : Nat}

theorem tokensFrom_blank (h : lexeme c t = .ok .blank) :
    tokensFrom 0 p (c :: t) = tokensFrom 0 (p.afterBlank c) t := by
  rw [tokensFrom, h]

theorem tokensFrom_token (h : lexeme c t = .ok (.token kind size)) :
    tokensFrom 0 p (c :: t) = (tokensFrom (size - 1) (p.afterToken kind ((c :: t).take size)) t).map
      (ofText kind ((c :: t).take size) p :: ·) := by
  rw [tokensFrom, h]

theorem symbolsFrom_blank (h : lexeme c t = .ok .blank) : symbolsFrom 0 (c :: t) = symbolsFrom 0 t := by
  rw [symbolsFrom, h]

theorem symbolsFrom_token (h : lexeme c t = .ok (.token kind size)) :
    symbolsFrom 0 (c :: t) = symbol kind ((c :: t).take size) :: symbolsFrom (size - 1) t := by
  rw [symbolsFrom, h]

end

theorem map_bare_of_tokensFrom {t : Text} {skip : Nat} {p : Position} {tokens : List Token}
    (h : tokensFrom skip p t = .ok tokens) : tokens.map bare = symbolsFrom skip t := by
  induction t generalizing skip p tokens with
  | nil =>
      obtain rfl := by simpa [tokensFrom] using h
      cases skip <;> rfl
  | cons c t ih =>
      cases skip with
      | succ skip => exact ih h
      | zero =>
          rcases hlexeme : lexeme c t with fault | _ | ⟨kind, size⟩
          · rw [tokensFrom, hlexeme] at h
            cases h
          · rw [tokensFrom_blank hlexeme] at h
            rw [symbolsFrom_blank hlexeme]
            exact ih h
          · rw [tokensFrom_token hlexeme] at h
            rw [symbolsFrom_token hlexeme]
            cases hrest : tokensFrom (size - 1) (p.afterToken kind ((c :: t).take size)) t with
            | error e => simp [hrest, Except.map] at h
            | ok rest =>
                obtain rfl := by simpa [hrest, Except.map] using h
                rw [List.map_cons, ih hrest]
                rfl

end Token

/-! ## Texts in front of others -/

namespace Text

open Token

/-- The text is split into the given tokens, none of them a comment, and the end of input. -/
def Spells (t : Text) (ps : List Token) : Prop :=
  ∃ tokens last, lex t = .ok (tokens ++ [last]) ∧ tokens.map bare = ps ∧ ∀ p ∈ ps, p.kind ≠ .comment

/-- A text with no blank at either end. -/
def IsTight (t : Text) : Prop := (∀ c ∈ t.head?, ¬ isBlank c) ∧ ∀ c ∈ t.getLast?, ¬ isBlank c

/-- The tokens lie between two positions and touch both. -/
def Fills (tokens : List Token) (p q : Position) : Prop :=
  tokens.head?.map (·.start) = some p.offset ∧ tokens.getLast?.map (·.stop) = some q.offset

/-- In front of `u` the text is split into the given tokens, wherever it stands. -/
structure Splits (t u : Text) (ps : List Token) : Prop where
  symbols_eq : symbols (t ++ u) = ps ++ symbols u
  walk : ∀ p, ∃ tokens q, tokens.map bare = ps ∧ q.offset = p.offset + byteSize t ∧
    tokensFrom 0 p (t ++ u) = (tokensFrom 0 q u).map (tokens ++ ·) ∧
    (t ≠ [] → t.IsTight → Fills tokens p q)

theorem map_cons_map {tokens : List Token} {x : Token} {r : Except SourceError (List Token)} :
    (r.map (tokens ++ ·)).map (x :: ·) = r.map (x :: tokens ++ ·) := by
  cases r <;> rfl

/-- The walk over a text in front of a separator, where it starts `skip` characters inside a
token. -/
theorem tokensFrom_append {u : Text} (hu : IsApart u) {t : Text} {skip : Nat} {p : Position}
    {tokens : List Token} (hskip : skip ≤ t.length) (h : tokensFrom skip p t = .ok tokens)
    (hcomment : ∀ x ∈ tokens, x.kind ≠ .comment) (p' : Position) :
    ∃ placed q, tokens.map bare = placed.map bare ++ [symbol .endOfInput []] ∧
      q.offset = p'.offset + byteSize (t.drop skip) ∧
      tokensFrom skip p' (t ++ u) = (tokensFrom 0 q u).map (placed ++ ·) ∧
      (skip = t.length → placed = []) ∧
      (skip = 0 → t ≠ [] → (∀ c ∈ t.head?, ¬ isBlank c) →
        placed.head?.map (·.start) = some p'.offset) ∧
      (skip < t.length → (∀ c ∈ t.getLast?, ¬ isBlank c) →
        placed.getLast?.map (·.stop) = some q.offset) := by
  induction t generalizing skip p p' tokens with
  | nil =>
      obtain rfl : skip = 0 := by simpa using hskip
      obtain rfl := by simpa [tokensFrom] using h
      refine ⟨[], p', rfl, by simp, ?_, by simp, by simp, by simp⟩
      rw [List.nil_append]
      cases tokensFrom 0 p' u <;> rfl
  | cons c t ih =>
      have hgetLast (hne : t ≠ []) : (c :: t).getLast? = t.getLast? := List.getLast?_cons_of_ne_nil hne
      cases skip with
      | succ skip =>
          have hskip : skip ≤ t.length := by simpa using hskip
          obtain ⟨placed, q, hbare, hoffset, htokens, hempty, -, hlast⟩ := ih hskip h hcomment p'
          refine ⟨placed, q, hbare, hoffset, htokens, by simpa using hempty, by simp, ?_⟩
          intro hlt hblank
          have hlt : skip < t.length := by simpa using hlt
          rw [hgetLast (by rintro rfl; simp at hlt)] at hblank
          exact hlast hlt hblank
      | zero =>
          rw [tokensFrom] at h
          cases hlexeme : lexeme c t with
          | error fault => simp [hlexeme] at h
          | ok l =>
              cases l with
              | blank =>
                  have hc := isBlank_of_lexeme hlexeme
                  simp only [hlexeme] at h
                  obtain ⟨placed, q, hbare, hoffset, htokens, hempty, -, hlast⟩ :=
                    ih (Nat.zero_le _) h hcomment (p'.afterBlank c)
                  refine ⟨placed, q, hbare, ?_, ?_, by simp, ?_, ?_⟩
                  · simp [hoffset, Position.afterBlank]
                    omega
                  · rw [List.cons_append, tokensFrom, lexeme_of_isBlank hc]
                    exact htokens
                  · intro _ _ hblank
                    exact absurd hc (hblank c rfl)
                  · intro _ hblank
                    have hne : t ≠ [] := by
                      rintro rfl
                      exact hblank c rfl hc
                    rw [hgetLast hne] at hblank
                    exact hlast (List.length_pos_iff.mpr hne) hblank
              | token kind size =>
                  simp only [hlexeme] at h
                  obtain ⟨hsize, -⟩ := lexeme_token hlexeme
                  cases hrest : tokensFrom (size - 1) (p.afterToken kind ((c :: t).take size)) t with
                  | error e => simp [hrest, Except.map] at h
                  | ok rest =>
                      obtain rfl := by simpa [hrest, Except.map] using h
                      have hkind : kind ≠ .comment := hcomment _ List.mem_cons_self
                      obtain ⟨hmore, hle⟩ := lexeme_append hu hlexeme hkind
                      have htake : (c :: (t ++ u)).take size = (c :: t).take size := by
                        rw [← List.cons_append]
                        exact List.take_append_of_le_length hle
                      have hdrop : (c :: t).drop size = t.drop (size - 1) := by
                        obtain ⟨n, rfl⟩ : ∃ n, size = n + 1 := ⟨size - 1, by omega⟩
                        rfl
                      have hwhole := congrArg byteSize (List.take_append_drop size (c :: t))
                      rw [byteSize_append, hdrop] at hwhole
                      obtain ⟨placed, q, hbare, hoffset, htokens, hempty, -, hlast⟩ :=
                        ih (by omega) hrest (fun x hx => hcomment x (List.mem_cons_of_mem _ hx))
                          (p'.afterToken kind ((c :: t).take size))
                      refine ⟨ofText kind ((c :: t).take size) p' :: placed, q, ?_, ?_, ?_, by simp,
                        fun _ _ _ => rfl, ?_⟩
                      · rw [List.map_cons, hbare]
                        rfl
                      · simp only [hoffset, Position.afterToken, List.drop_zero]
                        omega
                      · rw [List.cons_append, tokensFrom, hmore]
                        simp only [htake, htokens, map_cons_map]
                      · intro _ hblank
                        by_cases hlt : size - 1 < t.length
                        · have hne : t ≠ [] := by
                            rintro rfl
                            simp at hlt
                          rw [hgetLast hne] at hblank
                          have hstop := hlast hlt hblank
                          rwa [List.getLast?_cons_of_ne_nil]
                          rintro rfl
                          simp at hstop
                        · have hall : size - 1 = t.length := by omega
                          rw [hempty hall]
                          simp [hoffset, hall, ofText, Position.afterToken]

theorem exists_end_of_tokensFrom {t : Text} {skip : Nat} {p : Position} {tokens : List Token}
    (h : tokensFrom skip p t = .ok tokens) :
    ∃ inside last, tokens = inside ++ [last] ∧ last.bare = symbol .endOfInput [] := by
  induction t generalizing skip p tokens with
  | nil =>
      obtain rfl := by simpa [tokensFrom] using h
      exact ⟨[], _, rfl, rfl⟩
  | cons c t ih =>
      cases skip with
      | succ skip => exact ih h
      | zero =>
          rw [tokensFrom] at h
          split at h
          · cases h
          · exact ih h
          · next kind size hlexeme =>
              cases hrest : tokensFrom (size - 1) (p.afterToken kind ((c :: t).take size)) t with
              | error e => simp [hrest, Except.map] at h
              | ok rest =>
                  obtain rfl := by simpa [hrest, Except.map] using h
                  obtain ⟨inside, last, rfl, hlast⟩ := ih hrest
                  exact ⟨_ :: inside, last, rfl, hlast⟩

theorem symbolsFrom_append {u : Text} (hu : IsApart u) {t : Text} {skip : Nat} {ps : List Token}
    (hskip : skip ≤ t.length) (h : symbolsFrom skip t = ps ++ [symbol .endOfInput []])
    (hcomment : ∀ p ∈ ps, p.kind ≠ .comment) :
    symbolsFrom skip (t ++ u) = ps ++ symbols u := by
  induction t generalizing skip ps with
  | nil =>
      obtain rfl : skip = 0 := by simpa using hskip
      cases ps with
      | nil => rfl
      | cons p ps => simp [symbolsFrom] at h
  | cons c t ih =>
      cases skip with
      | succ skip => exact ih (by simpa using hskip) h hcomment
      | zero =>
          rw [symbolsFrom] at h
          rw [List.cons_append, symbolsFrom]
          split at h
          · simp at h
          · next hlexeme =>
              rw [lexeme_of_isBlank (isBlank_of_lexeme hlexeme)]
              exact ih (Nat.zero_le _) h hcomment
          · next kind size hlexeme =>
              obtain ⟨hsize, hend⟩ := lexeme_token hlexeme
              cases ps with
              | nil => simp [symbol, hend] at h
              | cons p ps =>
                  obtain ⟨rfl, hrest⟩ := by simpa using h
                  obtain ⟨hmore, hle⟩ := lexeme_append hu hlexeme (hcomment _ List.mem_cons_self)
                  have htake : (c :: (t ++ u)).take size = (c :: t).take size := by
                    rw [← List.cons_append]
                    exact List.take_append_of_le_length hle
                  rw [hmore]
                  simp only [htake]
                  rw [ih (by omega) hrest fun p hp => hcomment p (List.mem_cons_of_mem _ hp)]
                  rfl

theorem Spells.symbols_eq {t : Text} {ps : List Token} (h : t.Spells ps) :
    symbols t = ps ++ [symbol .endOfInput []] := by
  obtain ⟨tokens, last, hlex, rfl, -⟩ := h
  obtain ⟨inside, final, happend, hfinal⟩ := exists_end_of_tokensFrom hlex
  obtain ⟨rfl, rfl⟩ := List.append_inj' happend rfl |>.imp id (by simpa using ·)
  rw [symbols, ← map_bare_of_tokensFrom hlex, List.map_append, List.map_singleton, hfinal]

theorem Spells.splits {t : Text} {ps : List Token} (h : t.Spells ps) {u : Text} (hu : IsApart u) :
    Splits t u ps := by
  refine ⟨symbolsFrom_append hu (Nat.zero_le _) h.symbols_eq ?_, ?_⟩
  · obtain ⟨tokens, last, -, -, hcomment⟩ := h
    exact hcomment
  obtain ⟨tokens, last, hlex, rfl, hcomment⟩ := h
  obtain ⟨inside, final, happend, hfinal⟩ := exists_end_of_tokensFrom hlex
  obtain ⟨rfl, rfl⟩ := List.append_inj' happend rfl |>.imp id (by simpa using ·)
  have hall : ∀ x ∈ tokens ++ [last], x.kind ≠ .comment := by
    intro x hx
    rcases List.mem_append.mp hx with hx | hx
    · exact hcomment x.bare (List.mem_map_of_mem hx)
    · rw [List.mem_singleton.mp hx]
      have hkind : last.kind = .endOfInput := congrArg Token.kind hfinal
      rw [hkind]
      decide
  intro p
  obtain ⟨placed, q, hbare, hoffset, htokens, -, hfirst, hlast⟩ :=
    tokensFrom_append hu (Nat.zero_le _) hlex hall p
  refine ⟨placed, q, ?_, hoffset, htokens, fun hne htight => ⟨hfirst rfl hne htight.1, ?_⟩⟩
  · rw [List.map_append] at hbare
    exact (List.append_inj' hbare rfl).1.symm
  · exact hlast (List.length_pos_iff.mpr hne) htight.2

/-- A bracket, a semicolon or a comma is a token of its own in front of everything. -/
theorem splits_punctuation {c : Char} {kind : Kind} (h : ∀ u, lexeme c u = .ok (.token kind 1))
    (u : Text) : Splits [c] u [symbol kind [c]] := by
  have htake : (c :: u).take 1 = [c] := by cases u <;> rfl
  refine ⟨?_, ?_⟩
  · rw [List.singleton_append, symbols, symbolsFrom, h u]
    simp only [htake]
    rfl
  · intro p
    refine ⟨[ofText kind [c] p], p.afterToken kind [c], rfl, by simp [Position.afterToken], ?_,
      fun _ _ => ⟨rfl, rfl⟩⟩
    rw [List.singleton_append, tokensFrom, h u]
    simp only [htake]
    rfl

theorem symbols_blank (u : Text) : symbols (' ' :: u) = symbols u := rfl

end Text

end CodeFrames
