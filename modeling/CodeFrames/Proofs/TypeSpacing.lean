import CodeFrames.Proofs.Phrases.Basic
import CodeFrames.Proofs.Pieces

/-!
# Types in any spacing

A type may be written with any blanks between its tokens, and without them wherever no two words meet.
Consecutive closing angle brackets then become shift operators, two or three of them at once.  However
that comes out, the type is found whole, and what has become of its tokens is what it is made of.
-/

namespace CodeFrames

open Text

namespace Token

/-! ## Lexemes of types -/

/-- A word ends where no character behind it could go on with it. -/
theorem lexeme_word_append {c : Char} {t : Text}
    (h : lexeme c t = .ok (.token .word (t.length + 1))) {u : Text}
    (hu : ∀ d ∈ u.head?, continuesName d = false) :
    lexeme c (t ++ u) = .ok (.token .word (t.length + 1)) := by
  obtain ⟨-, hall⟩ := word_of_lexeme h
  have hsize : (t.takeWhile continuesName).length = t.length := by simpa [hall] using h
  have hinside : ∀ d ∈ t, continuesName d = true :=
    List.takeWhile_eq_self_iff.mp ((List.takeWhile_prefix _).eq_of_length hsize)
  have hbehind : u.takeWhile continuesName = [] := by
    cases u with
    | nil => rfl
    | cons d u => exact List.takeWhile_cons_of_neg (by simp [hu d rfl])
  rw [hall, List.takeWhile_append_of_pos hinside, hbehind, List.append_nil]

theorem lexeme_dot {u : Text} (hu : ∀ d ∈ u.head?, d.isDigit = false ∧ d ≠ '.') :
    lexeme '.' u = .ok (.token .dot 1) := by
  have hname : startsName '.' = false := by decide +kernel
  have hblank : isBlank '.' = false := by decide
  cases u with
  | nil => rfl
  | cons d u =>
      obtain ⟨hdigit, hdot⟩ := hu d rfl
      simp [lexeme, hname, hblank, isDigitOf, hdigit, punctuation?_dot, List.isPrefixOf, Ne.symm hdot]

theorem lexeme_question (u : Text) : lexeme '?' u = .ok (.token .operator 1) := by
  rw [lexeme_operator (by decide)]
  rfl

theorem lexeme_opening {u : Text} (hu : ∀ d ∈ u.head?, d ≠ '<' ∧ d ≠ '=') :
    lexeme '<' u = .ok (.token .operator 1) := by
  rw [lexeme_operator (by decide)]
  cases u with
  | nil => rfl
  | cons d u =>
      obtain ⟨hless, hequals⟩ := hu d rfl
      simp [operator?, operators, List.isPrefixOf, hless.symm, hequals.symm]

/-- One, two or three closing angle brackets make one operator. -/
theorem lexeme_closing {u : Text} (hu : ∀ d ∈ u.head?, d ≠ '>' ∧ d ≠ '=') :
    lexeme '>' u = .ok (.token .operator 1) ∧ lexeme '>' ('>' :: u) = .ok (.token .operator 2) := by
  rw [lexeme_operator (by decide), lexeme_operator (by decide)]
  cases u with
  | nil => exact ⟨rfl, rfl⟩
  | cons d u =>
      obtain ⟨hgreater, hequals⟩ := hu d rfl
      simp [operator?, operators, List.isPrefixOf, hgreater.symm, hequals.symm]

theorem lexeme_closings {u : Text} (hu : ∀ d ∈ u.head?, d ≠ '=') :
    lexeme '>' ('>' :: '>' :: u) = .ok (.token .operator 3) := by
  rw [lexeme_operator (by decide)]
  cases u with
  | nil => rfl
  | cons d u => simp [operator?, operators, List.isPrefixOf, (hu d rfl).symm]

/-! ## The pieces at the start of a text -/

/-- The first piece of a text is the lexeme that stands there. -/
theorem Pieced.of_lexeme {rs : List Token} (h : Pieced [] rs) {c : Char} {w u : Text} {kind : Kind}
    (hspelled : spelled rs = c :: (w ++ u)) (hlexeme : lexeme c (w ++ u) = .ok (.token kind (w.length + 1))) :
    ∃ rest, rs = symbol kind (c :: w) :: rest ∧ Pieced [] rest ∧ spelled rest = u := by
  cases h with
  | nil => simp at hspelled
  | @blank d ps hblank hps =>
      obtain ⟨rfl, -⟩ := by simpa [symbol] using hspelled
      rw [lexeme_of_isBlank hblank] at hlexeme
      cases hlexeme
  | @token kind' d t ps hfound hps =>
      obtain ⟨rfl, hbehind⟩ := by simpa [symbol] using hspelled
      rw [List.append_nil, hbehind, hlexeme] at hfound
      obtain ⟨rfl, hlength⟩ := by simpa using hfound
      obtain ⟨rfl, hrest⟩ := List.append_inj hbehind hlength.symm
      exact ⟨ps, rfl, hps, hrest⟩

/-- Blanks at the start of a text are pieces of their own. -/
theorem Pieced.of_blanks {rs : List Token} (h : Pieced [] rs) {gap u : Text}
    (hgap : ∀ c ∈ gap, isBlank c = true) (hspelled : spelled rs = gap ++ u) :
    ∃ rest, rs = gap.map (fun c => symbol .comment [c]) ++ rest ∧ Pieced [] rest ∧ spelled rest = u := by
  induction gap generalizing rs with
  | nil => exact ⟨rs, rfl, h, hspelled⟩
  | cons c gap ih =>
      obtain ⟨hc, hmore⟩ := List.forall_mem_cons.mp hgap
      cases h with
      | nil => simp at hspelled
      | @blank d ps hblank hps =>
          obtain ⟨rfl, hbehind⟩ := by simpa [symbol] using hspelled
          obtain ⟨rest, rfl, hrest⟩ := ih hps hmore hbehind
          exact ⟨rest, rfl, hrest⟩
      | @token kind d t ps hfound hps =>
          obtain ⟨rfl, -⟩ := by simpa [symbol] using hspelled
          rw [lexeme_of_isBlank hc] at hfound
          cases hfound

theorem code_blanks (gap : Text) : code (gap.map fun c => symbol .comment [c]) = [] := by
  induction gap with
  | nil => rfl
  | cons c gap ih => rw [List.map_cons, code_comment rfl, ih]

theorem spelled_blanks (gap : Text) : spelled (gap.map fun c => symbol .comment [c]) = gap := by
  induction gap with
  | nil => rfl
  | cons c gap ih => rw [List.map_cons, spelled_cons, ih]; rfl

/-- The tokens of the first pieces come first, and end where these pieces do. -/
theorem Placed.exists_append {n : Nat} {ps qs us : List Token} (h : Placed n (ps ++ qs) us)
    (hne : ∀ p ∈ ps, p.text ≠ []) :
    ∃ vs ws, us = vs ++ ws ∧ (code vs).map bare = code ps ∧
      (∀ t ∈ vs, t.start < n + byteSize (spelled ps)) ∧ Placed (n + byteSize (spelled ps)) qs ws := by
  induction ps generalizing n us with
  | nil => exact ⟨[], us, rfl, rfl, by simp, h⟩
  | cons p ps ih =>
      obtain ⟨hp, hmore⟩ := List.forall_mem_cons.mp hne
      have hpos : byteSize p.text ≠ 0 := fun hzero => hp (byteSize_eq_zero hzero)
      cases h with
      | @blank _ c _ _ hblank hrest =>
          obtain ⟨vs, ws, rfl, hcode, hstart, hplaced⟩ := ih hrest hmore
          refine ⟨vs, ws, rfl, by rw [hcode, code_comment rfl], fun t ht => ?_, ?_⟩
          · have := hstart t ht
            simp [symbol]
            omega
          · simpa [symbol, Nat.add_assoc] using hplaced
      | @token _ t _ ts hend hstart hstop hrest =>
          obtain ⟨vs, ws, rfl, hcode, hstarts, hplaced⟩ := ih hrest hmore
          refine ⟨t :: vs, ws, rfl, ?_, List.forall_mem_cons.mpr ⟨?_, fun u hu => ?_⟩, ?_⟩
          · by_cases hkind : t.kind = .comment
            · rw [code_comment hkind, code_comment (by simpa using hkind), hcode]
            · rw [code_cons hkind, code_cons (by simpa using hkind), List.map_cons, hcode]
          · simp at hpos ⊢
            omega
          · have := hstarts u hu
            simp
            omega
          · simpa [hstop, Nat.add_assoc] using hplaced

theorem Placed.le_start {n : Nat} {ps ts : List Token} (h : Placed n ps ts) : ∀ t ∈ ts, n ≤ t.start := by
  induction h with
  | nil _ hstart _ => simp [hstart]
  | blank _ _ ih => exact fun t ht => by have := ih t ht; omega
  | token _ hstart hstop _ ih =>
      refine List.forall_mem_cons.mpr ⟨by omega, fun u hu => ?_⟩
      have := ih u hu
      omega

end Token

/-! ## Types with blanks in them -/

namespace TypeName

open Token

/-- The text in which tokens stand behind a given one, with blanks in front of each.  There may be no
blanks unless two words would meet. -/
inductive Spaced : Token → List Token → Text → Prop
  | nothing {t} : Spaced t [] []
  | more {t u ts gap text} : (∀ c ∈ gap, isBlank c = true) →
      (gap = [] → ¬ (t.kind = .word ∧ u.kind = .word)) → Spaced u ts text →
      Spaced t (u :: ts) (gap ++ (u.text ++ text))

theorem Spaced.touching {t u : Token} {ts : List Token} {text : Text}
    (hwords : ¬ (t.kind = .word ∧ u.kind = .word)) (h : Spaced u ts text) :
    Spaced t (u :: ts) (u.text ++ text) :=
  @more t u ts [] text (by simp) (fun _ => hwords) h

/-- The text is the tokens with blanks between them. -/
inductive Shows : Text → List Token → Prop
  | intro {t ts text} : Spaced t ts text → Shows (t.text ++ text) (t :: ts)

/-- Every dot and every opening angle bracket has a word or a question mark right behind it, and no
other operators than angle brackets and question marks are there. -/
inductive Led : List Token → Prop
  | nil : Led []
  | cons {t ts} : t.kind ∈ [.word, .comma, .openBracket, .closeBracket] ∨ t.isOperator ['>'] = true ∨
      t.isOperator ['?'] = true → Led ts → Led (t :: ts)
  | lead {t u ts} : t.kind = .dot ∨ t.isOperator ['<'] = true →
      u.kind = .word ∨ u.isOperator ['?'] = true → Led (u :: ts) → Led (t :: u :: ts)

theorem Led.append {ts us : List Token} (h : Led ts) (g : Led us) : Led (ts ++ us) := by
  induction h with
  | nil => exact g
  | cons ht _ ih => exact .cons ht ih
  | lead ht hu _ ih => exact .lead ht hu ih

theorem led_dimensions {ds : List Token} (h : Dimensions ds) : Led ds := by
  induction h with
  | nothing => exact .nil
  | more hl hr _ ih => exact .cons (.inl (by simp [hl])) (.cons (.inl (by simp [hr])) ih)

theorem led_word {t : Token} {ts : List Token} (ht : t.kind = .word) (h : Led ts) : Led (t :: ts) :=
  .cons (.inl (by simp [ht])) h

theorem exists_first_of_qualified {ts : List Token} (h : Qualified ts) :
    ∃ t us, ts = t :: us ∧ t.kind = .word := by
  cases h with
  | last hname => exact ⟨_, _, rfl, kind_of_isName hname⟩
  | more hname => exact ⟨_, _, rfl, kind_of_isName hname⟩

theorem exists_first_of_argument {ts : List Token} (h : Argument ts) :
    ∃ t us, ts = t :: us ∧ (t.kind = .word ∨ t.isOperator ['?'] = true) := by
  cases h with
  | wildcard hmark => exact ⟨_, _, rfl, .inr hmark⟩
  | bounded hmark => exact ⟨_, _, rfl, .inr hmark⟩
  | type hts =>
      cases hts with
      | primitive ht =>
          exact ⟨_, _, rfl, .inl (kind_of_opensType (by simp [opensType, ht]))⟩
      | named hts =>
          obtain ⟨t, us, rfl, ht⟩ := exists_first_of_qualified hts
          exact ⟨t, _, rfl, .inl ht⟩

theorem exists_first_of_arguments {ts : List Token} (h : Arguments ts) :
    ∃ t us, ts = t :: us ∧ (t.kind = .word ∨ t.isOperator ['?'] = true) := by
  cases h with
  | last hts => exact exists_first_of_argument hts
  | more hts =>
      obtain ⟨t, us, rfl, ht⟩ := exists_first_of_argument hts
      exact ⟨t, _, rfl, ht⟩

mutual
theorem led_whole : ∀ {ts : List Token}, Whole ts → Led ts
  | _, .primitive ht hds =>
      led_word (kind_of_opensType (by simp [opensType, ht])) (led_dimensions hds)
  | _, .named hts hds => (led_qualified hts).append (led_dimensions hds)
theorem led_qualified : ∀ {ts : List Token}, Qualified ts → Led ts
  | _, .last hname hargs => led_word (kind_of_isName hname) (led_optionalArguments hargs)
  | _, .more hname hargs hdot hts => by
      refine led_word (kind_of_isName hname) ((led_optionalArguments hargs).append ?_)
      have hrest := led_qualified hts
      obtain ⟨t, us, rfl, ht⟩ := exists_first_of_qualified hts
      exact .lead (.inl hdot) (.inl ht) hrest
theorem led_optionalArguments : ∀ {ts : List Token}, OptionalArguments ts → Led ts
  | _, .nothing => .nil
  | _, .list hopening hts hclosing => by
      have hrest := (led_arguments hts).append (.cons (.inr (.inl hclosing)) .nil)
      obtain ⟨t, us, rfl, ht⟩ := exists_first_of_arguments hts
      exact .lead (.inr hopening) ht hrest
theorem led_arguments : ∀ {ts : List Token}, Arguments ts → Led ts
  | _, .last h => led_argument h
  | _, .more h hcomma hrest =>
      (led_argument h).append (.cons (.inl (by simp [hcomma])) (led_arguments hrest))
theorem led_argument : ∀ {ts : List Token}, Argument ts → Led ts
  | _, .type h => led_whole h
  | _, .wildcard hmark => .cons (.inr (.inr hmark)) .nil
  | _, .bounded hmark hword hts => by
      have hkind : _ = Kind.word := kind_of_isWordIn hword
      exact .cons (.inr (.inr hmark)) (led_word hkind (led_whole hts))
end

/-! ## The tokens of a type -/

/-- The characters that types are put together with. -/
def signs : List (Char × Kind) :=
  [('.', .dot), (',', .comma), ('[', .openBracket), (']', .closeBracket), ('<', .operator),
    ('>', .operator), ('?', .operator)]

/-- A word, or one of the signs. -/
inductive IsPart : Token → Prop
  | word {c w} : startsName c = true → c.isDigit = false →
      lexeme c w = .ok (.token .word (w.length + 1)) → IsPart (symbol .word (c :: w))
  | sign {c kind} : (c, kind) ∈ signs → IsPart (symbol kind [c])

theorem exists_lexeme_of_isSpelled {t : Token} (h : t.IsSpelled) :
    ∃ kind c w, t = symbol kind (c :: w) ∧ lexeme c w = .ok (.token kind (w.length + 1)) := by
  obtain ⟨hne, hfirst, -⟩ := tight_of_spells h List.mem_cons_self
  obtain ⟨c, w, htext⟩ := List.exists_cons_of_ne_nil hne
  have hsymbols : symbolsFrom 0 (c :: w) = [t, symbol .endOfInput []] := htext ▸ h.symbols_eq
  rcases hlexeme : lexeme c w with fault | _ | ⟨kind, size⟩
  · rw [symbolsFrom, hlexeme] at hsymbols
    cases hsymbols
  · exact absurd (isBlank_of_lexeme hlexeme) (hfirst c (by simp [htext]))
  · rw [symbolsFrom_token hlexeme] at hsymbols
    obtain ⟨rfl, -⟩ := by simpa using hsymbols
    have hsize := lexeme_size hlexeme
    have hlength := congrArg List.length htext
    simp only [symbol, List.length_take, List.length_cons] at hlength
    obtain rfl : size = w.length + 1 := by omega
    exact ⟨kind, c, w, by simp [symbol], hlexeme⟩

theorem isPart_of_word {c : Char} {w : Text} (h : lexeme c w = .ok (.token .word (w.length + 1))) :
    IsPart (symbol .word (c :: w)) := by
  obtain ⟨hname, hall⟩ := word_of_lexeme h
  refine .word hname (Bool.eq_false_iff.mpr fun hdigit => ?_) h
  have hnumber := @lexeme_number c [] (by rw [hdigit]; rfl)
  rw [hall] at hnumber
  simp at hnumber

theorem sign_of_lexeme {kind : Kind} {c : Char} {w : Text}
    (h : lexeme c w = .ok (.token kind (w.length + 1)))
    (hkind : kind ∈ [.comma, .openBracket, .closeBracket]) : w = [] ∧ (c, kind) ∈ signs := by
  have hmark := punctuation_of_lexeme h (by
    simp only [List.mem_cons, List.not_mem_nil, or_false] at hkind
    rcases hkind with rfl | rfl | rfl <;> decide)
  unfold punctuation? at hmark
  split at hmark <;> simp only [Option.some.injEq, Lexeme.token.injEq, reduceCtorEq] at hmark
  all_goals
    obtain ⟨rfl, hsize⟩ := hmark
    first
      | exact absurd hkind (by decide)
      | next hcons =>
        obtain ⟨rfl, -⟩ := List.cons.inj hcons
        exact ⟨by simpa using hsize, by decide⟩

theorem isPart_of_led {t : Token} {ts : List Token} (h : Led (t :: ts)) (hspelled : t.IsSpelled) :
    IsPart t := by
  obtain ⟨kind, c, w, rfl, hlexeme⟩ := exists_lexeme_of_isSpelled hspelled
  have hoperator {d : Char} (hd : (d, .operator) ∈ signs)
      (hop : (symbol kind (c :: w)).isOperator [d] = true) : IsPart (symbol kind (c :: w)) := by
    obtain ⟨hkind, rfl, rfl⟩ := by simpa [isOperator] using hop
    obtain rfl : kind = .operator := hkind
    exact .sign hd
  cases h with
  | cons ht =>
      rcases ht with hkind | hop | hop
      · by_cases hword : kind = .word
        · subst hword
          exact isPart_of_word hlexeme
        · obtain ⟨rfl, hsign⟩ := sign_of_lexeme hlexeme (by simpa [symbol, hword] using hkind)
          exact .sign hsign
      · exact hoperator (by decide) hop
      · exact hoperator (by decide) hop
  | lead ht =>
      rcases ht with hdot | hop
      · obtain rfl : kind = .dot := hdot
        obtain ⟨rfl, hsize⟩ := single_dot_of_lexeme hlexeme
        obtain rfl : w = [] := by simpa using hsize
        exact .sign (by decide)
      · exact hoperator (by decide) hop

/-! ## Reading spaced types -/

/-- In front of `u` the pieces of the text come to these tokens. -/
def ReadAs (u : Text) (ts : List Token) (text : Text) : Prop :=
  ∀ rs, Pieced [] rs → spelled rs = text ++ u →
    ∃ ps qs, rs = ps ++ qs ∧ spelled ps = text ∧ (code ps).flatMap angles = ts

namespace ReadAs

variable {u text : Text} {ts : List Token}

theorem nil : ReadAs u [] [] := fun rs _ _ => ⟨[], rs, rfl, rfl, rfl⟩

theorem gap {gap : Text} (hgap : ∀ c ∈ gap, isBlank c = true) (h : ReadAs u ts text) :
    ReadAs u ts (gap ++ text) := by
  intro rs hrs hspelled
  obtain ⟨rest, rfl, hrest, hbehind⟩ := hrs.of_blanks hgap (by rwa [← List.append_assoc])
  obtain ⟨ps, qs, rfl, rfl, rfl⟩ := h rest hrest hbehind
  refine ⟨_ ++ ps, qs, (List.append_assoc _ _ _).symm, ?_, ?_⟩
  · rw [spelled_append, spelled_blanks]
  · rw [code_append, code_blanks, List.nil_append]

theorem token {kind : Kind} {c : Char} {w : Text} (hkind : kind ≠ .comment)
    (hlexeme : lexeme c (w ++ (text ++ u)) = .ok (.token kind (w.length + 1))) (h : ReadAs u ts text) :
    ReadAs u ((symbol kind (c :: w)).angles ++ ts) (c :: (w ++ text)) := by
  intro rs hrs hspelled
  obtain ⟨rest, rfl, hrest, hbehind⟩ := hrs.of_lexeme (by rw [hspelled]; simp) hlexeme
  obtain ⟨ps, qs, rfl, rfl, rfl⟩ := h rest hrest hbehind
  exact ⟨_ :: ps, qs, rfl, rfl, by rw [code_cons hkind, List.flatMap_cons]⟩

theorem sign {kind : Kind} {c : Char} (hsign : (c, kind) ∈ signs)
    (hlexeme : lexeme c (text ++ u) = .ok (.token kind 1)) (h : ReadAs u ts text) :
    ReadAs u (symbol kind [c] :: ts) ([c] ++ text) := by
  have hkind : ∀ m ∈ signs, m.2 ≠ .comment := by decide
  have hangles : (symbol kind [c]).angles = [symbol kind [c]] := by
    simp [angles, isOperator, symbol]
  have hread := h.token (hkind _ hsign) (w := []) hlexeme
  rwa [hangles] at hread

theorem twoClosing (hlexeme : lexeme '>' ('>' :: (text ++ u)) = .ok (.token .operator 2))
    (h : ReadAs u ts text) :
    ReadAs u (symbol .operator ['>'] :: symbol .operator ['>'] :: ts) ('>' :: '>' :: text) :=
  h.token (c := '>') (w := ['>']) (by decide) hlexeme

theorem threeClosing (hlexeme : lexeme '>' ('>' :: '>' :: (text ++ u)) = .ok (.token .operator 3))
    (h : ReadAs u ts text) :
    ReadAs u (symbol .operator ['>'] :: symbol .operator ['>'] :: symbol .operator ['>'] :: ts)
      ('>' :: '>' :: '>' :: text) :=
  h.token (c := '>') (w := ['>', '>']) (by decide) hlexeme

end ReadAs

/-- What stands behind a token starts with a blank or with the next token. -/
theorem head_of_spaced {t : Token} {ts : List Token} {text u : Text} (h : Spaced t ts text)
    (hspelled : ∀ x ∈ ts, x.IsSpelled) (hu : ∀ d ∈ u.head?, isBlank d = true) {d : Char}
    (hd : d ∈ (text ++ u).head?) :
    isBlank d = true ∨ ∃ x us behind, ts = x :: us ∧ text = x.text ++ behind ∧ Spaced x us behind ∧
      x.text.head? = some d ∧ ¬ (t.kind = .word ∧ x.kind = .word) := by
  cases h with
  | nothing => exact .inl (hu d hd)
  | @more _ x us gap behind hgap hwords hbehind =>
      cases gap with
      | cons c gap =>
          obtain rfl : c = d := by simpa using hd
          exact .inl (hgap c List.mem_cons_self)
      | nil =>
          obtain ⟨hne, -⟩ := tight_of_spells (hspelled x List.mem_cons_self) List.mem_cons_self
          rw [List.nil_append, List.append_assoc, List.head?_append_of_ne_nil _ hne] at hd
          exact .inr ⟨x, us, behind, rfl, rfl, hbehind, hd, hwords rfl⟩

theorem Led.tail {t : Token} {ts : List Token} (h : Led (t :: ts)) : Led ts := by
  cases h with
  | cons _ h => exact h
  | lead _ _ h => exact h

theorem Led.second {t x : Token} {ts : List Token} (h : Led (t :: x :: ts))
    (ht : t.kind = .dot ∨ t.isOperator ['<'] = true) : x.kind = .word ∨ x.isOperator ['?'] = true := by
  cases h with
  | lead _ hx => exact hx
  | cons hnot => rcases ht with ht | ht <;> simp_all [isOperator]

theorem plain_of_sign {c : Char} {kind : Kind} (h : (c, kind) ∈ signs) :
    continuesName c = false ∧ c ≠ '=' ∧ kind ≠ .word := by
  have hall : ∀ m ∈ signs, continuesName m.1 = false ∧ m.1 ≠ '=' ∧ m.2 ≠ .word := by decide +kernel
  exact hall _ h

/-- Behind a word stands nothing that would go on with it. -/
theorem continuesName_of_spaced {t : Token} {ts : List Token} {text u : Text} (h : Spaced t ts text)
    (hled : Led ts) (hspelled : ∀ x ∈ ts, x.IsSpelled) (hu : ∀ d ∈ u.head?, isBlank d = true)
    (ht : t.kind = .word) : ∀ d ∈ (text ++ u).head?, continuesName d = false := by
  intro d hd
  rcases head_of_spaced h hspelled hu hd with hblank | ⟨x, us, behind, rfl, -, -, hfirst, hwords⟩
  · exact not_continuesName_of_isBlank hblank
  · cases isPart_of_led hled (hspelled x List.mem_cons_self) with
    | word => exact absurd ⟨ht, rfl⟩ hwords
    | sign hsign =>
        obtain rfl := by simpa [symbol] using hfirst
        exact (plain_of_sign hsign).1

theorem not_mem_of_isBlank {d : Char} (h : isBlank d = true) :
    d.isDigit = false ∧ d ∉ ['.', '<', '>', '='] := by
  refine ⟨Bool.eq_false_iff.mpr fun hdigit => ?_, ?_⟩
  · exact not_isBlank_of_isAlphanum (by simp [Char.isAlphanum, hdigit]) h
  · have hall : ∀ d ∈ ['.', '<', '>', '='], isBlank d = false := forall_mem_of_all (by decide)
    exact fun hmem => absurd h (by simp [hall d hmem])

theorem not_mem_of_startsName {d : Char} (h : startsName d = true) : d ∉ ['.', '<', '>', '='] := by
  have hall : ∀ d ∈ ['.', '<', '>', '='], startsName d = false := forall_mem_of_all (by decide +kernel)
  exact fun hmem => absurd h (by simp [hall d hmem])

/-- Behind a dot or an opening angle bracket stands nothing that would go on with it. -/
theorem head_of_lead {t : Token} {ts : List Token} {text u : Text} (h : Spaced t ts text)
    (hled : Led (t :: ts)) (hspelled : ∀ x ∈ ts, x.IsSpelled) (hu : ∀ d ∈ u.head?, isBlank d = true)
    (ht : t.kind = .dot ∨ t.isOperator ['<'] = true) :
    ∀ d ∈ (text ++ u).head?, d.isDigit = false ∧ d ∉ ['.', '<', '>', '='] := by
  intro d hd
  rcases head_of_spaced h hspelled hu hd with hblank | ⟨x, us, behind, rfl, -, -, hfirst, -⟩
  · exact not_mem_of_isBlank hblank
  · have hx := hled.second ht
    cases isPart_of_led hled.tail (hspelled x List.mem_cons_self) with
    | @word c w hname hdigit =>
        obtain rfl : c = d := by simpa [symbol] using hfirst
        exact ⟨hdigit, not_mem_of_startsName hname⟩
    | @sign c kind hsign =>
        obtain rfl : c = d := by simpa [symbol] using hfirst
        rcases hx with hword | hquestion
        · exact absurd hword (plain_of_sign hsign).2.2
        · obtain ⟨-, rfl⟩ := by simpa [isOperator, symbol] using hquestion
          decide

/-- A closing angle bracket has another one right behind it, or nothing that would go on with it. -/
theorem closing_of_spaced {t : Token} {ts : List Token} {text u : Text} (h : Spaced t ts text)
    (hled : Led ts) (hspelled : ∀ x ∈ ts, x.IsSpelled) (hu : ∀ d ∈ u.head?, isBlank d = true) :
    (∀ d ∈ (text ++ u).head?, d ≠ '>' ∧ d ≠ '=') ∨
      ∃ us behind, ts = symbol .operator ['>'] :: us ∧ text = '>' :: behind ∧
        Spaced (symbol .operator ['>']) us behind := by
  refine Classical.or_iff_not_imp_left.mpr fun hnot => ?_
  obtain ⟨d, hd, hgoes⟩ : ∃ d ∈ (text ++ u).head?, d ∈ ['.', '<', '>', '='] ∧ (d = '>' ∨ d = '=') := by
    by_contra hnone
    refine hnot fun d hd => ?_
    constructor <;> rintro rfl <;> exact hnone ⟨_, hd, by decide⟩
  rcases head_of_spaced h hspelled hu hd with hblank | ⟨x, us, behind, rfl, rfl, hbehind, hfirst, -⟩
  · exact absurd hgoes.1 (not_mem_of_isBlank hblank).2
  · cases isPart_of_led hled (hspelled x List.mem_cons_self) with
    | @word c w hname =>
        obtain rfl : c = d := by simpa [symbol] using hfirst
        exact absurd hgoes.1 (not_mem_of_startsName hname)
    | @sign c kind hsign =>
        obtain rfl : c = d := by simpa [symbol] using hfirst
        obtain rfl : c = '>' := hgoes.2.resolve_right (plain_of_sign hsign).2.1
        obtain rfl : kind = .operator := by simpa [signs] using hsign
        exact ⟨us, behind, rfl, rfl, hbehind⟩

/-- A text with the tokens of a type comes to these tokens, shift operators taken apart. -/
theorem readAs_spaced {t : Token} {ts : List Token} {text u : Text} (h : Spaced t ts text)
    (hled : Led ts) (hspelled : ∀ x ∈ ts, x.IsSpelled) (hu : ∀ d ∈ u.head?, isBlank d = true) :
    ReadAs u ts text := by
  cases h with
  | nothing => exact .nil
  | @more _ x us gap text hgap _ hbehind =>
      refine .gap hgap ?_
      have hrest : ∀ y ∈ us, y.IsSpelled := fun y hy => hspelled y (List.mem_cons_of_mem _ hy)
      have hread := readAs_spaced hbehind hled.tail hrest hu
      cases isPart_of_led hled (hspelled x List.mem_cons_self) with
      | @word c w hname hdigit hlexeme =>
          have hhead := continuesName_of_spaced hbehind hled.tail hrest hu rfl
          exact .token (by decide) (lexeme_word_append hlexeme hhead) hread
      | @sign c kind hsign =>
          simp only [signs, List.mem_cons, Prod.mk.injEq, List.not_mem_nil, or_false] at hsign
          rcases hsign with h | h | h | h | h | h | h
          all_goals obtain ⟨rfl, rfl⟩ := h
          · have hhead := head_of_lead hbehind hled hrest hu (.inl rfl)
            refine .sign (by decide) (lexeme_dot fun d hd => ⟨(hhead d hd).1, ?_⟩) hread
            rintro rfl
            exact (hhead _ hd).2 (by decide)
          · exact .sign (by decide) (lexeme_mark (by decide) _) hread
          · exact .sign (by decide) (lexeme_mark (by decide) _) hread
          · exact .sign (by decide) (lexeme_mark (by decide) _) hread
          · have hhead := head_of_lead hbehind hled hrest hu (.inr rfl)
            refine .sign (by decide) (lexeme_opening fun d hd => ⟨?_, ?_⟩) hread
            · rintro rfl
              exact (hhead _ hd).2 (by decide)
            · rintro rfl
              exact (hhead _ hd).2 (by decide)
          · -- As many closing angle brackets as stand in a row, up to three, make one operator.
            rcases closing_of_spaced hbehind hled.tail hrest hu with
              hend | ⟨vs, text, rfl, rfl, hsecond⟩
            · exact .sign (by decide) (lexeme_closing hend).1 hread
            · obtain ⟨-, hvs⟩ := List.forall_mem_cons.mp hrest
              rcases closing_of_spaced hsecond hled.tail.tail hvs hu with
                hend | ⟨ws, text, rfl, rfl, hthird⟩
              · exact (readAs_spaced hsecond hled.tail.tail hvs hu).twoClosing (lexeme_closing hend).2
              · obtain ⟨-, hws⟩ := List.forall_mem_cons.mp hvs
                have hled' := hled.tail.tail.tail
                refine (readAs_spaced hthird hled' hws hu).threeClosing (lexeme_closings fun d hd => ?_)
                rcases closing_of_spaced hthird hled' hws hu with hend | ⟨_, _, -, rfl, -⟩
                · exact (hend d hd).2
                · obtain rfl : '>' = d := by simpa using hd
                  decide
          · exact .sign (by decide) (lexeme_question _) hread
termination_by ts.length

theorem Shows.ne_nil {text : Text} {ts : List Token} (h : Shows text ts)
    (hspelled : ∀ t ∈ ts, t.IsSpelled) : text ≠ [] := by
  obtain ⟨-⟩ := h
  obtain ⟨hne, -⟩ := tight_of_spells (hspelled _ List.mem_cons_self) List.mem_cons_self
  simp [hne]

/-- Where no two words meet, no blanks are needed. -/
theorem shows_spelled {t : Token} {ts : List Token}
    (h : (t :: ts).IsChain fun t u => ¬ (t.kind = .word ∧ u.kind = .word)) :
    Shows (spelled (t :: ts)) (t :: ts) := by
  have hspaced : Spaced t ts (spelled ts) := by
    induction ts generalizing t with
    | nil => exact .nothing
    | cons u ts ih =>
        obtain ⟨hwords, hrest⟩ := List.isChain_cons_cons.mp h
        exact .touching hwords (ih hrest)
  exact .intro hspaced

theorem readAs_shows {text u : Text} {ts : List Token} (h : Shows text ts) (hwhole : Whole ts)
    (hspelled : ∀ t ∈ ts, t.IsSpelled) (hu : ∀ d ∈ u.head?, isBlank d = true) : ReadAs u ts text := by
  obtain ⟨hspaced⟩ := h
  have hfront : Spaced (symbol .comma [',']) _ _ := hspaced.touching (by simp [symbol])
  exact readAs_spaced hfront (led_whole hwhole) hspelled hu

/-- A type in any spacing, in front of a blank and a token that does not go on with it, is found whole:
its length is the number of tokens that start in it, and these are the tokens of the type with closing
angle brackets put together. -/
theorem typeLength?_of_shows {front text rest : Text} {blank : Char} {ts : List Token}
    (hwhole : Whole ts) (hspelled : ∀ t ∈ ts, t.IsSpelled) (hshows : Shows text ts)
    (hblank : isBlank blank = true) {tokens before ps others : List Token} {first next : Token}
    (hlex : lex (front ++ (text ++ blank :: rest)) = .ok tokens)
    (hcode : code tokens = before ++ (first :: ps ++ next :: others))
    (hfirst : first.start = byteSize front)
    (hinside : ∀ t ∈ ps, t.start < byteSize (front ++ text))
    (hbehind : byteSize (front ++ text) ≤ next.start) (hends : Ends (next :: others)) :
    typeLength? (first :: ps ++ next :: others) = some (first :: ps).length ∧
      ((first :: ps).map bare).flatMap angles = ts := by
  obtain ⟨pieces, hpieced, hsource, hplaced⟩ := exists_placed_of_lex hlex
  obtain ⟨qs, rs, us, rfl, -, -, hus, hstart, hplaced⟩ := hplaced.split hcode
  rw [spelled_append] at hsource
  obtain ⟨-, hrs⟩ := append_inj_of_byteSize hsource (by omega)
  obtain ⟨inside, after, rfl, hspelledInside, hangles⟩ := readAs_shows hshows hwhole hspelled
    (u := blank :: rest) (by simpa using hblank) rs hpieced.right hrs
  obtain ⟨vs, ws, rfl, hvs, hvsStart, hws⟩ := hplaced.exists_append hpieced.right.left.text_ne_nil
  rw [hspelledInside, hfirst, ← byteSize_append] at hvsStart hws
  -- The tokens of the type are those that start in front of its end.
  have hsplit : code vs = first :: ps ∧ code ws = next :: others := by
    have hus : code vs ++ code ws = (first :: ps) ++ next :: others := by
      rw [← code_append, hus]
      rfl
    have hne : first.start < byteSize (front ++ text) := by
      have hpos : byteSize text ≠ 0 := fun hzero => hshows.ne_nil hspelled (byteSize_eq_zero hzero)
      rw [byteSize_append]
      omega
    have hall : ∀ t ∈ first :: ps, t.start < byteSize (front ++ text) :=
      List.forall_mem_cons.mpr ⟨hne, hinside⟩
    rcases List.append_eq_append_iff.mp hus with ⟨extra, hextra, hmore⟩ | ⟨extra, hextra, hmore⟩
    · cases extra with
      | nil => exact ⟨by simpa using hextra.symm, by simpa using hmore⟩
      | cons t extra =>
          have hin : t ∈ code ws := by simp [hmore]
          have hle := hws.le_start t (List.mem_filter.mp hin).1
          have hlt := hall t (by simp [hextra])
          omega
    · cases extra with
      | nil => exact ⟨by simpa using hextra, by simpa using hmore.symm⟩
      | cons t extra =>
          obtain ⟨rfl, -⟩ := List.cons.inj hmore
          have hin : next ∈ code vs := by simp [hextra]
          have hlt := hvsStart next (List.mem_filter.mp hin).1
          omega
  have hparts : ((first :: ps).map bare).flatMap angles = ts := by rw [← hsplit.1, hvs, hangles]
  refine ⟨?_, hparts⟩
  have hends' : Ends ((next :: others).map bare) := by
    intro t ht
    obtain rfl : next.bare = t := by simpa using ht
    exact hends next rfl
  have hlength := typeLength?_of_whole (hparts ▸ hwhole) hends'
  rwa [← List.map_append, typeLength?_bare, List.length_map] at hlength

/-- The tokens of `A<B<C>>` with the shift operator taken apart. -/
def nestedType : List Token :=
  [symbol .word ['A'], symbol .operator ['<'], symbol .word ['B'], symbol .operator ['<'],
    symbol .word ['C'], symbol .operator ['>'], symbol .operator ['>']]

/-- The tokens of `(A<B<C>> x`. -/
def nestedShift : List Token :=
  [⟨⟨1, 0, 1⟩, .openParen, ['(']⟩, ⟨⟨1, 1, 2⟩, .word, ['A']⟩, ⟨⟨1, 2, 3⟩, .operator, ['<']⟩,
    ⟨⟨1, 3, 4⟩, .word, ['B']⟩, ⟨⟨1, 4, 5⟩, .operator, ['<']⟩, ⟨⟨1, 5, 6⟩, .word, ['C']⟩,
    ⟨⟨1, 6, 8⟩, .operator, ['>', '>']⟩, ⟨⟨1, 9, 10⟩, .word, ['x']⟩, ⟨⟨1, 10, 10⟩, .endOfInput, []⟩]

theorem typeLength?_of_shows_shift :
    lex ("(".toList ++ ("A<B<C>>".toList ++ ' ' :: "x".toList)) = .ok nestedShift ∧
      typeLength? nestedShift.tail = some 6 := by
  have hlex : lex ("(".toList ++ ("A<B<C>>".toList ++ ' ' :: "x".toList)) = .ok nestedShift := by
    decide +kernel
  have hinner : Whole [symbol .word ['C']] := .named (.last (by decide) .nothing) .nothing
  have hmiddle : Whole [symbol .word ['B'], symbol .operator ['<'], symbol .word ['C'],
      symbol .operator ['>']] :=
    .named (.last (by decide) (.list rfl (.last (.type hinner)) rfl)) .nothing
  have houter : Whole nestedType :=
    .named (.last (by decide) (.list rfl (.last (.type hmiddle)) rfl)) .nothing
  have hspelled : ∀ t ∈ nestedType, t.IsSpelled := by
    intro t ht
    simp only [nestedType, List.mem_cons, List.not_mem_nil, or_false] at ht
    rcases ht with rfl | rfl | rfl | rfl | rfl | rfl | rfl
    all_goals exact isSpelled_symbol (by decide +kernel) (by decide)
  have hshows : Shows "A<B<C>>".toList nestedType := by
    rw [show "A<B<C>>".toList = spelled nestedType by decide]
    exact shows_spelled (by decide)
  have hcode : code nestedShift = [_] ++ (_ :: [_, _, _, _, _] ++ _ :: [_]) := rfl
  have hends : Ends [⟨⟨1, 9, 10⟩, .word, ['x']⟩, ⟨⟨1, 10, 10⟩, .endOfInput, []⟩] := by
    intro t ht
    obtain rfl := Option.some.inj ht
    decide
  exact ⟨hlex, (typeLength?_of_shows houter hspelled hshows (by decide) hlex hcode (by decide)
    (by decide) (by decide) hends).1⟩

end TypeName

end CodeFrames
