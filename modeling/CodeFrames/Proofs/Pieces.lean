import CodeFrames.Proofs.Alignment.Basic
import CodeFrames.Proofs.Lexemes
import CodeFrames.Proofs.Rereading.Calls

/-!
# The pieces of a text

A text that can be split into tokens is a sequence of pieces: its tokens, comments included, and the
blank characters between them, which stand here as comments too.  The texts that frames show are cut
out between two pieces, so what they are split into is told from the pieces.
-/

namespace CodeFrames

open Text

namespace Token

/-! ## Texts in pieces -/

def spelled (ps : List Token) : Text := ps.flatMap Token.text

@[simp] theorem spelled_nil : spelled [] = [] := rfl

@[simp] theorem spelled_cons (p : Token) (ps : List Token) : spelled (p :: ps) = p.text ++ spelled ps := rfl

@[simp] theorem spelled_append (ps qs : List Token) : spelled (ps ++ qs) = spelled ps ++ spelled qs :=
  List.flatMap_append

/-- The tokens that are no comments. -/
def code (ps : List Token) : List Token := ps.filter (·.kind ≠ .comment)

@[simp] theorem code_nil : code [] = [] := rfl

theorem code_comment {p : Token} (h : p.kind = .comment) (ps : List Token) : code (p :: ps) = code ps := by
  simp [code, h]

theorem code_cons {p : Token} (h : p.kind ≠ .comment) (ps : List Token) :
    code (p :: ps) = p :: code ps := by
  simp [code, h]

@[simp] theorem code_append (ps qs : List Token) : code (ps ++ qs) = code ps ++ code qs :=
  List.filter_append ps qs

theorem code_cons_congr (p : Token) {ps qs : List Token} (h : code ps = code qs) :
    code (p :: ps) = code (p :: qs) := by
  by_cases hp : p.kind = .comment
  · rw [code_comment hp, code_comment hp, h]
  · rw [code_cons hp, code_cons hp, h]

theorem code_map_bare (ps : List Token) : (code ps).map bare = code (ps.map bare) := by
  induction ps with
  | nil => rfl
  | cons p ps ih =>
      by_cases hp : p.kind = .comment
      · rw [code_comment hp, List.map_cons, code_comment (by simpa using hp), ih]
      · rw [code_cons hp, List.map_cons, List.map_cons, code_cons (by simpa using hp), ih]

/-- The list starts with a token that is no comment, if with any. -/
def StartsInCode (ps : List Token) : Prop := ∀ p ∈ ps.head?, p.kind ≠ .comment

def EndsInCode (ps : List Token) : Prop := ∀ p ∈ ps.getLast?, p.kind ≠ .comment

/-- Pieces that a text is split into in front of `u`. -/
inductive Pieced (u : Text) : List Token → Prop
  | nil : Pieced u []
  | blank {c : Char} {ps : List Token} : isBlank c = true → Pieced u ps →
      Pieced u (symbol .comment [c] :: ps)
  | token {kind : Kind} {c : Char} {t : Text} {ps : List Token} :
      lexeme c (t ++ (spelled ps ++ u)) = .ok (.token kind (t.length + 1)) → Pieced u ps →
      Pieced u (symbol kind (c :: t) :: ps)

/-- The tokens of a text and their places, the text starting at byte `n`. -/
inductive Placed : Nat → List Token → List Token → Prop
  | nil {n : Nat} {t : Token} : t.bare = symbol .endOfInput [] → t.start = n → t.stop = n →
      Placed n [] [t]
  | blank {n : Nat} {c : Char} {ps ts : List Token} : isBlank c = true →
      Placed (n + c.utf8Size) ps ts → Placed n (symbol .comment [c] :: ps) ts
  | token {n : Nat} {t : Token} {ps ts : List Token} : ¬ t.isEnd → t.start = n →
      t.stop = n + byteSize t.text → Placed t.stop ps ts → Placed n (t.bare :: ps) (t :: ts)

theorem lexeme_size {c : Char} {t : Text} {kind : Kind} {size : Nat}
    (h : lexeme c t = .ok (.token kind size)) : size ≤ t.length + 1 := by
  have hcomment {t : Text} {n : Nat} (hn : commentLength? t = some n) : n ≤ t.length := by
    fun_induction commentLength? t generalizing n with
    | case1 => cases hn
    | case2 =>
        obtain rfl : 2 = n := by simpa using hn
        simp
    | case3 c t hstar ih =>
        obtain ⟨k, hk, rfl⟩ := Option.map_eq_some_iff.mp hn
        exact Nat.succ_le_succ (ih hk)
  by_cases hkind : kind = .comment
  · subst hkind
    obtain ⟨rfl, ⟨-, rfl⟩ | ⟨hhead, n, hn, rfl⟩⟩ := lexeme_comment h
    · exact (List.takeWhile_prefix _).length_le
    · obtain ⟨t, rfl⟩ := List.head?_eq_some_iff.mp hhead
      exact Nat.succ_le_succ (Nat.succ_le_succ (hcomment hn))
  · exact (lexeme_append isApart_nil h hkind).2

theorem tokensFrom_length (p : Position) (t u : Text) :
    tokensFrom t.length p (t ++ u) = tokensFrom 0 p u := by
  induction t with
  | nil => rfl
  | cons c t ih => exact ih

/-- A text that can be split into tokens is one in pieces. -/
theorem exists_pieced {t : Text} {skip : Nat} {p : Position} {ts : List Token} (hskip : skip ≤ t.length)
    (h : tokensFrom skip p t = .ok ts) : ∃ ps, Pieced [] ps ∧ spelled ps = t.drop skip := by
  induction t generalizing skip p ts with
  | nil => exact ⟨[], .nil, by simp⟩
  | cons c t ih =>
      cases skip with
      | succ skip => exact ih (by simpa using hskip) h
      | zero =>
          cases hlexeme : lexeme c t with
          | error fault => simp [tokensFrom, hlexeme] at h
          | ok l =>
              cases l with
              | blank =>
                  obtain ⟨ps, hps, hspelled⟩ := ih (Nat.zero_le _) (tokensFrom_blank hlexeme ▸ h)
                  exact ⟨_, .blank (isBlank_of_lexeme hlexeme) hps, by simp [hspelled, symbol]⟩
              | token kind size =>
                  have hpos := (lexeme_token hlexeme).1
                  have hsize := lexeme_size hlexeme
                  rw [tokensFrom_token hlexeme] at h
                  cases hrest : tokensFrom (size - 1) (p.afterToken kind ((c :: t).take size)) t with
                  | error e => simp [hrest, Except.map] at h
                  | ok rest =>
                  obtain ⟨ps, hps, hspelled⟩ := ih (by omega) hrest
                  refine ⟨symbol kind (c :: t.take (size - 1)) :: ps, .token ?_ hps, ?_⟩
                  · rw [List.append_nil, hspelled, List.take_append_drop, hlexeme,
                      List.length_take, Nat.min_eq_left (by omega), Nat.sub_add_cancel hpos]
                  · simp [hspelled, symbol]

/-- Pieces are what the walk over their text finds. -/
theorem Pieced.placed {ps : List Token} (h : Pieced [] ps) (p : Position) :
    ∃ ts, tokensFrom 0 p (spelled ps) = .ok ts ∧ Placed p.offset ps ts := by
  induction h generalizing p with
  | nil => exact ⟨_, rfl, .nil rfl rfl (by simp [ofText, Position.afterToken])⟩
  | @blank c ps hblank hps ih =>
      obtain ⟨ts, hts, hplaced⟩ := ih (p.afterBlank c)
      exact ⟨ts, (tokensFrom_blank (lexeme_of_isBlank hblank _)).trans hts, .blank hblank hplaced⟩
  | @token kind c t ps hlexeme hps ih =>
      obtain ⟨ts, hts, hplaced⟩ := ih (p.afterToken kind (c :: t))
      rw [List.append_nil] at hlexeme
      have htake : (c :: (t ++ spelled ps)).take (t.length + 1) = c :: t := by simp
      refine ⟨ofText kind (c :: t) p :: ts, ?_, .token (t := ofText kind (c :: t) p) ?_ rfl ?_ hplaced⟩
      · change tokensFrom 0 p (c :: (t ++ spelled ps)) = _
        rw [tokensFrom_token hlexeme, htake, Nat.add_sub_cancel, tokensFrom_length, hts]
        rfl
      · simp [isEnd, ofText, (lexeme_token hlexeme).2]
      · rfl

theorem exists_placed_of_lex {source : Text} {tokens : List Token} (h : lex source = .ok tokens) :
    ∃ ps, Pieced [] ps ∧ spelled ps = source ∧ Placed 0 ps tokens := by
  obtain ⟨ps, hps, hspelled⟩ := exists_pieced (Nat.zero_le _) h
  rw [List.drop_zero] at hspelled
  obtain ⟨ts, hts, hplaced⟩ := hps.placed ⟨1, 0⟩
  rw [hspelled] at hts
  obtain rfl : ts = tokens := Except.ok.inj (hts.symm.trans h)
  exact ⟨ps, hps, hspelled, hplaced⟩

theorem Pieced.lex {ps : List Token} (h : Pieced [] ps) :
    ∃ ts, lex (spelled ps) = .ok ts ∧ Placed 0 ps ts := h.placed ⟨1, 0⟩

/-! ## Slices -/

namespace Placed

variable {n : Nat} {ps ts : List Token}

theorem code_eq (h : Placed n ps ts) : (code ts).map bare = code ps ++ [symbol .endOfInput []] := by
  induction h with
  | nil ht =>
      have hkind := congrArg Token.kind ht
      simp only [bare_kind] at hkind
      rw [code_cons (by simp [hkind, symbol]), code_nil, List.map_singleton, ht]
      rfl
  | blank hblank hps ih => rw [ih, code_comment rfl]
  | @token n t ps ts hend hstart hstop hps ih =>
      by_cases hkind : t.kind = .comment
      · rw [code_comment hkind, code_comment (by simpa using hkind), ih]
      · rw [code_cons hkind, code_cons (by simpa using hkind), List.map_cons, ih, List.cons_append]

/-- What is in front of a token that is no comment, and what is there and behind. -/
theorem split (h : Placed n ps ts) {passed rest : List Token} {t : Token}
    (hts : code ts = passed ++ t :: rest) :
    ∃ qs rs us, ps = qs ++ rs ∧ code qs = passed.map bare ∧ StartsInCode rs ∧ code us = t :: rest ∧
      t.start = n + byteSize (spelled qs) ∧ Placed t.start rs us := by
  induction h generalizing passed with
  | @nil n u hu hstart hstop =>
      have hkind := congrArg Token.kind hu
      simp only [bare_kind] at hkind
      rw [code_cons (by simp [hkind, symbol]), code_nil] at hts
      cases passed with
      | nil =>
          obtain ⟨rfl, rfl⟩ := by simpa using hts
          exact ⟨[], [], [u], rfl, rfl, by simp [StartsInCode], by
            rw [code_cons (by simp [hkind, symbol]), code_nil], by simpa using hstart, .nil hu rfl
            (hstop.trans hstart.symm)⟩
      | cons v passed => simp at hts
  | @blank n c ps ts hblank hps ih =>
      obtain ⟨qs, rs, us, rfl, hqs, hrs, hus, hplace, hplaced⟩ := ih hts
      refine ⟨symbol .comment [c] :: qs, rs, us, rfl, by rw [code_comment rfl, hqs], hrs, hus, ?_, hplaced⟩
      simp [hplace, symbol, Nat.add_assoc]
  | @token n u ps ts hend hstart hstop hps ih =>
      by_cases hkind : u.kind = .comment
      · rw [code_comment hkind] at hts
        obtain ⟨qs, rs, us, rfl, hqs, hrs, hus, hplace, hplaced⟩ := ih hts
        refine ⟨u.bare :: qs, rs, us, rfl, by rw [code_comment (by simpa using hkind), hqs], hrs, hus,
          ?_, hplaced⟩
        simp [hplace, hstop, Nat.add_assoc]
      · rw [code_cons hkind] at hts
        cases passed with
        | nil =>
            obtain ⟨rfl, hrest⟩ := by simpa using hts
            exact ⟨[], u.bare :: ps, u :: ts, rfl, rfl, by simpa [StartsInCode] using hkind,
              by rw [code_cons hkind, hrest], by simpa using hstart, .token hend rfl
              (hstart ▸ hstop) hps⟩
        | cons v passed =>
            obtain ⟨rfl, hmore⟩ := List.cons.inj hts
            obtain ⟨qs, rs, us, rfl, hqs, hrs, hus, hplace, hplaced⟩ := ih hmore
            refine ⟨u.bare :: qs, rs, us, rfl, ?_, hrs, hus, ?_, hplaced⟩
            · rw [code_cons (by simpa using hkind), hqs, List.map_cons]
            · simp [hplace, hstop, Nat.add_assoc]

end Placed

/-! ## Where pieces are cut -/

namespace Pieced

variable {u : Text} {ps qs rs : List Token}

theorem left (h : Pieced u (ps ++ qs)) : Pieced (spelled qs ++ u) ps := by
  induction ps with
  | nil => exact .nil
  | cons p ps ih =>
      cases h with
      | blank hblank h => exact .blank hblank (ih h)
      | token hlexeme h => exact .token (by simpa using hlexeme) (ih h)

theorem right (h : Pieced u (ps ++ qs)) : Pieced u qs := by
  induction ps with
  | nil => exact h
  | cons p ps ih =>
      cases h with
      | blank _ h => exact ih h
      | token _ h => exact ih h

theorem append (h : Pieced (spelled qs ++ u) ps) (hqs : Pieced u qs) : Pieced u (ps ++ qs) := by
  induction h with
  | nil => exact hqs
  | blank hblank _ ih => exact .blank hblank ih
  | token hlexeme _ ih => exact .token (by simpa using hlexeme) ih

theorem text_ne_nil (h : Pieced u ps) : ∀ p ∈ ps, p.text ≠ [] := by
  induction h with
  | nil => simp
  | blank _ _ ih => simpa [symbol] using ih
  | token _ _ ih => simpa [symbol] using ih

/-- Pieces have no places of their own. -/
theorem place (h : Pieced u ps) : ∀ p ∈ ps, p.start = 0 ∧ p.stop = 0 := by
  induction h with
  | nil => simp
  | blank _ _ ih => exact List.forall_mem_cons.mpr ⟨⟨rfl, rfl⟩, ih⟩
  | token _ _ ih => exact List.forall_mem_cons.mpr ⟨⟨rfl, rfl⟩, ih⟩

theorem dot_of_text (h : Pieced u ps) : ∀ p ∈ ps, p.text = ['.'] → p.kind = .dot := by
  induction h with
  | nil => simp
  | @blank c ps hblank _ ih =>
      refine List.forall_mem_cons.mpr ⟨fun htext => ?_, ih⟩
      obtain rfl : c = '.' := by simpa [symbol] using htext
      revert hblank
      decide
  | @token kind c t ps hlexeme hps ih =>
      refine List.forall_mem_cons.mpr ⟨fun htext => ?_, ih⟩
      obtain ⟨rfl, rfl⟩ : c = '.' ∧ t = [] := by simpa [symbol] using htext
      exact dot_of_lexeme hlexeme

theorem eq_nil (h : Pieced u ps) (hspelled : spelled ps = []) : ps = [] := by
  cases ps with
  | nil => rfl
  | cons p ps => exact absurd (List.append_eq_nil_iff.mp hspelled).1 (h.text_ne_nil p List.mem_cons_self)

theorem single_dot (h : Pieced u ps) (hspelled : spelled ps = ['.']) : ∃ d, ps = [d] ∧ d.kind = .dot := by
  cases ps with
  | nil => cases hspelled
  | cons d ps =>
      have hne := h.text_ne_nil d List.mem_cons_self
      obtain ⟨htext, hmore⟩ : d.text = ['.'] ∧ spelled ps = [] := by
        rcases List.append_eq_singleton_iff.mp hspelled with ⟨hnil, -⟩ | htext
        · exact absurd hnil hne
        · exact htext
      obtain rfl := (@Pieced.right u [d] ps h).eq_nil hmore
      exact ⟨d, rfl, h.dot_of_text d List.mem_cons_self htext⟩

/-- Pieces are pieces of a text that ends with them, unless they end in a number with a dot behind it
that the number would take in. -/
theorem alone (h : Pieced u ps) (hends : EndsWell ps ∨ EndsNumber u) : Pieced [] ps := by
  induction h with
  | nil => exact .nil
  | blank hblank hps ih =>
      refine .blank hblank (ih (hends.imp_left fun hends qs n d heq => ?_))
      exact hends (_ :: qs) n d (by rw [heq, List.cons_append])
  | @token kind c t ps hlexeme hps ih =>
      refine .token ?_ (ih (hends.imp_left fun hends qs n d heq =>
        hends (_ :: qs) n d (by rw [heq, List.cons_append])))
      rw [← List.append_assoc] at hlexeme
      rw [List.append_nil]
      refine lexeme_of_append hlexeme (by simp) fun hkind hdrop => hends.resolve_left fun hends => ?_
      -- What is behind the number is a single dot, so the last piece is one.
      rw [Nat.add_sub_cancel, List.drop_left] at hdrop
      obtain ⟨d, rfl, hd⟩ := hps.single_dot hdrop
      exact hends [] _ d rfl hkind hd

end Pieced

theorem endsWell_of_code {ps : List Token} (h : EndsWell (code ps)) : EndsWell ps := by
  rintro qs n d rfl hn hd
  refine h (code qs) n d ?_ hn hd
  rw [code_append, code_cons (by simp [hn]), code_cons (by simp [hd]), code_nil]

theorem endsWell_map_bare {ps : List Token} (h : EndsWell ps) : EndsWell (ps.map bare) := by
  intro qs n d heq hn hd
  obtain ⟨as, bs, rfl, rfl, hbs⟩ := List.map_eq_append_iff.mp heq
  match bs, hbs with
  | [m, e], hbs =>
      obtain ⟨rfl, rfl⟩ : m.bare = n ∧ e.bare = d := by simpa using hbs
      exact h as m e rfl (by simpa using hn) (by simpa using hd)

theorem endsWell_of_map_bare {ps : List Token} (h : EndsWell (ps.map bare)) : EndsWell ps := by
  rintro qs n d rfl hn hd
  exact h (qs.map bare) n.bare d.bare (by simp) hn hd

/-- A number does not go on over a dot behind which one of the tokens stands that end a lambda. -/
theorem Pieced.endsNumber {ps : List Token} (h : Pieced [] ps)
    (hps : ∀ p ∈ (code ps).head?, Reading.endsLambdaBody p = true) : EndsNumber (spelled ps) := by
  have hall : ∀ d ∈ ",)]\x7d;/".toList, (d.isAlpha || d = '.') = false := forall_mem_of_all (by decide)
  cases h with
  | nil => simp [EndsNumber]
  | blank hblank h => exact endsNumber_of_isBlank hblank _
  | @token kind c t ps hlexeme h =>
      intro d hd
      obtain rfl : c = d := by simpa [symbol] using hd
      apply hall
      by_cases hkind : kind = .comment
      · subst hkind
        rw [(lexeme_comment hlexeme).1]
        decide
      · rw [code_cons hkind] at hps
        have hends := hps _ rfl
        refine List.mem_append_left ['/'] (closing_of_lexeme hlexeme ?_)
        have := (lexeme_token hlexeme).2
        cases kind <;> simp_all [Reading.endsLambdaBody, symbol]

/-! ## Excerpts -/

/-- Pieces from one token that is no comment to another, or nothing. -/
structure Cut (qs : List Token) : Prop where
  pieced : Pieced [] qs
  starts : StartsInCode qs
  ends : EndsInCode qs

/-- What is cut out from the start of a token to the end of one at or behind it. -/
theorem Placed.cut {ps tokens passed inside behind rest : List Token} {t last next : Token}
    (h : Placed 0 ps tokens) (hps : Pieced [] ps) (hpassed : code tokens = passed ++ t :: rest)
    (hlast : t :: rest = inside ++ last :: next :: behind)
    (hends : (last.kind = .dot → Reading.endsLambdaBody next = true) ∨ EndsWell (inside ++ [last])) :
    ∃ before qs after, ps = before ++ (qs ++ after) ∧ Cut qs ∧
      code qs = (inside ++ [last]).map bare ∧
      Text.slice? (spelled ps) t.start last.stop = some (spelled qs) ∧
      ∃ ts, Placed t.start (qs ++ after) ts ∧ code ts = t :: rest := by
  obtain ⟨before, rs, us, rfl, hbefore, hstarts, hwhole, hplace, hplaced⟩ := h.split hpassed
  have hus := hwhole
  rw [hlast] at hus
  obtain ⟨qs, ss, vs, rfl, hqs, hstarts', hvs, hplace', hplaced'⟩ := hplaced.split hus
  obtain ⟨after, rfl, hafter, hstop⟩ : ∃ after, ss = last.bare :: after ∧
      (∀ p ∈ (code after).head?, p = next.bare) ∧ last.stop = last.start + byteSize last.text := by
    cases hplaced' with
    | @nil _ v =>
        have hlength := List.length_filter_le (fun t : Token => decide (t.kind ≠ .comment)) [v]
        rw [show [v].filter _ = code [v] from rfl, hvs] at hlength
        simp at hlength
    | blank => exact absurd rfl (hstarts' _ rfl)
    | @token _ v after vs hend hstart hstop hafter =>
        have hkind : v.kind ≠ .comment := by simpa using hstarts' _ rfl
        obtain ⟨rfl, hnext⟩ := List.cons.inj ((code_cons hkind vs).symm.trans hvs)
        refine ⟨after, rfl, fun p hp => ?_, hstop⟩
        have hcode := hafter.code_eq
        rw [hnext] at hcode
        obtain ⟨more, hmore⟩ := List.head?_eq_some_iff.mp hp
        rw [hmore] at hcode
        exact (List.cons.inj hcode).1.symm
  have hlastKind : last.bare.kind ≠ .comment := hstarts' _ rfl
  refine ⟨before, qs ++ [last.bare], after, by simp, ⟨?_, ?_, ?_⟩, ?_, ?_, us, by simpa using hplaced,
    hwhole⟩
  · have hpieced : Pieced (spelled after) (qs ++ [last.bare]) := by
      have := @Pieced.right [] before (qs ++ last.bare :: after) hps
      rw [show qs ++ last.bare :: after = qs ++ [last.bare] ++ after by simp] at this
      simpa using this.left
    by_cases hdot : last.kind = .dot
    · refine hpieced.alone (hends.symm.imp (fun hends => ?_) fun hends => ?_)
      · apply endsWell_of_code
        rw [code_append, hqs, code_cons hlastKind, code_nil]
        simpa using endsWell_map_bare hends
      · refine Pieced.endsNumber ?_ fun p hp => ?_
        · have := @Pieced.right [] before (qs ++ last.bare :: after) hps
          rw [show qs ++ last.bare :: after = qs ++ [last.bare] ++ after by simp] at this
          exact this.right
        · rw [hafter p hp]
          exact hends hdot
    · refine hpieced.alone (.inl fun as n d heq _ hd => hdot ?_)
      have heq : qs ++ [last.bare] = (as ++ [n]) ++ [d] := by simpa using heq
      obtain rfl : last.bare = d := by simpa using (List.append_inj' heq rfl).2
      simpa using hd
  · intro p hp
    refine hstarts p ?_
    cases qs with
    | nil => simpa using hp
    | cons q qs => simpa using hp
  · intro p hp
    obtain rfl : last.bare = p := by simpa using hp
    exact hlastKind
  · rw [code_append, hqs, code_cons hlastKind, code_nil, List.map_append, List.map_singleton]
  · have hstart : t.start = byteSize (spelled before) := by simpa using hplace
    rw [hstop, hplace', hstart, Nat.add_assoc, ← bare_text, ← byteSize_append]
    have := Text.slice?_append (spelled before) (spelled (qs ++ [last.bare])) (spelled after)
    simpa using this

/-! ## Trimming -/

theorem getLast?_of_commentLength {t : Text} {n : Nat} (h : commentLength? t = some n) :
    (t.take n).getLast? = some '/' := by
  fun_induction commentLength? t generalizing n with
  | case1 => cases h
  | case2 =>
      obtain rfl : 2 = n := by simpa using h
      simp
  | case3 c t hstar ih =>
      obtain ⟨k, hk, rfl⟩ := Option.map_eq_some_iff.mp h
      have hlast := ih hk
      rw [List.take_succ_cons, List.getLast?_cons, hlast]
      rfl

/-- A token at whose end a blank is is a line comment, and stays one without the blank. -/
theorem lexeme_of_blank_end {c d : Char} {t b u : Text} {kind : Kind}
    (h : lexeme c (t ++ b ++ u) = .ok (.token kind ((t ++ b).length + 1)))
    (hd : b.getLast? = some d) (hb : ∀ d ∈ b, isBlank d = true) :
    kind = .comment ∧ lexeme c t = .ok (.token .comment (t.length + 1)) := by
  have htake (n : Nat) (hn : n = (t ++ b).length) : (c :: (t ++ b ++ u)).take (n + 1) = c :: (t ++ b) := by
    rw [hn, List.take_succ_cons, List.take_left]
  have hlast : (c :: (t ++ b)).getLast? = some d := by
    rw [← List.cons_append, List.getLast?_append, hd]
    rfl
  have hblank := hb d (List.mem_of_getLast? hd)
  have hkind : kind = .comment := by
    by_contra hkind
    have hnot := (not_isBlank_of_lexeme h hkind).2
    rw [htake _ rfl, hlast] at hnot
    exact hnot d rfl hblank
  subst hkind
  refine ⟨rfl, ?_⟩
  obtain ⟨rfl, ⟨hhead, hsize⟩ | ⟨hhead, n, hn, hsize⟩⟩ := lexeme_comment h
  · have hall : ∀ e ∈ '/' :: (t ++ b), decide (e ≠ '\n') = true := by
      have := List.prefix_iff_eq_take.mp (List.takeWhile_prefix (l := '/' :: (t ++ b ++ u)) (· ≠ '\n'))
      rw [← hsize, htake _ rfl] at this
      exact fun e he => List.all_eq_true.mp List.all_takeWhile e (this ▸ he)
    cases t with
    | nil =>
        cases b with
        | nil => cases hd
        | cons e b =>
            obtain rfl : e = '/' := by simpa using hhead
            have := hb '/' List.mem_cons_self
            revert this
            decide
    | cons e t =>
        obtain rfl : e = '/' := by simpa using hhead
        have hwhole : ('/' :: '/' :: t).takeWhile (· ≠ '\n') = '/' :: '/' :: t :=
          List.takeWhile_eq_self_iff.mpr fun e he => hall e (List.mem_append_left b he)
        change Except.ok (lineComment ('/' :: '/' :: t)) = _
        rw [lineComment, hwhole]
        rfl
  · exfalso
    obtain ⟨v, hv⟩ := List.head?_eq_some_iff.mp hhead
    rw [hv, List.tail_cons] at hn
    have hlong := htake (n + 1) (by omega)
    rw [hv, List.take_succ_cons, List.take_succ_cons] at hlong
    rw [← hlong, List.getLast?_cons, List.getLast?_cons, getLast?_of_commentLength hn] at hlast
    obtain rfl : '/' = d := by simpa using hlast
    revert hblank
    decide

namespace Pieced

variable {ps : List Token}

theorem code_of_blank (h : Pieced [] ps) (hblank : ∀ c ∈ spelled ps, isBlank c = true) :
    code ps = [] := by
  induction h with
  | nil => rfl
  | blank _ _ ih =>
      rw [code_comment rfl, ih fun c hc => hblank c (List.mem_append_right _ hc)]
  | token hlexeme _ _ =>
      rw [lexeme_of_isBlank (hblank _ List.mem_cons_self)] at hlexeme
      cases hlexeme

theorem flatMap_of_code_eq_nil {f : Token → List Token} (hf : ∀ p, p.kind = .comment → f p = [p])
    (h : code ps = []) : ps.flatMap f = ps := by
  have hall : ∀ p ∈ ps, p.kind = .comment := by
    simpa [code, List.filter_eq_nil_iff] using h
  rw [List.flatMap_congr fun p hp => hf p (hall p hp), List.flatMap_singleton']

/-- Blanks at the end are left out, also where the tokens are replaced that are no comments. -/
theorem without_blanks {x b : Text} (h : Pieced [] ps) (hspelled : spelled ps = x ++ b)
    (hb : ∀ c ∈ b, isBlank c = true) (hx : ∀ c ∈ x.getLast?, ¬ isBlank c = true) :
    ∃ qs, Pieced [] qs ∧ spelled qs = x ∧ code qs = code ps ∧
      ∀ f : Token → List Token, (∀ p, p.kind = .comment → f p = [p]) →
        spelled (ps.flatMap f) = spelled (qs.flatMap f) ++ b := by
  have hends : EndsNumber b := by
    cases b with
    | nil => simp [EndsNumber]
    | cons c b => exact endsNumber_of_isBlank (hb c List.mem_cons_self) b
  have hshorter {x y : Text} (hx : ∀ d ∈ (x ++ y).getLast?, ¬ isBlank d = true) :
      ∀ d ∈ y.getLast?, ¬ isBlank d = true := fun d hd => hx d (by
    rw [List.getLast?_append, Option.mem_def.mp hd]
    rfl)
  induction h generalizing x with
  | nil =>
      obtain ⟨rfl, rfl⟩ : x = [] ∧ b = [] := by simpa using hspelled.symm
      exact ⟨[], .nil, rfl, rfl, fun _ _ => rfl⟩
  | @blank c ps hblank hps ih =>
      cases x with
      | nil =>
          have hcode := (Pieced.blank hblank hps).code_of_blank fun d hd => hb d (by rwa [hspelled] at hd)
          exact ⟨[], .nil, rfl, hcode.symm, fun f hf => by
            rw [flatMap_of_code_eq_nil hf hcode, hspelled]
            rfl⟩
      | cons d x =>
          obtain ⟨rfl, hmore⟩ := List.cons.inj hspelled
          obtain ⟨qs, hqs, rfl, hcode, hreplaced⟩ := ih hmore (@hshorter [c] x hx)
          refine ⟨_, .blank hblank hqs, rfl, by rw [code_comment rfl, code_comment rfl, hcode], fun f hf => ?_⟩
          simp only [List.flatMap_cons, spelled_append, hreplaced f hf, List.append_assoc]
  | @token kind c t ps hlexeme hps ih =>
      cases x with
      | nil =>
          have hblank := hb c (show c ∈ [] ++ b from hspelled ▸ List.mem_cons_self)
          rw [lexeme_of_isBlank hblank] at hlexeme
          cases hlexeme
      | cons d x =>
          obtain ⟨rfl, hmore⟩ := List.cons.inj hspelled
          have hmore : t ++ spelled ps = x ++ b := hmore
          rw [List.append_nil] at hlexeme
          rcases List.append_eq_append_iff.mp hmore with ⟨y, rfl, hrest⟩ | ⟨y, rfl, hrest⟩
          · obtain ⟨qs, hqs, rfl, hcode, hreplaced⟩ := ih hrest (@hshorter (c :: t) y hx)
            rw [hrest, ← List.append_assoc] at hlexeme
            refine ⟨symbol kind (c :: t) :: qs, .token ?_ hqs, rfl, ?_, fun f hf => ?_⟩
            · rw [List.append_nil]
              exact lexeme_of_append hlexeme (by simp) fun _ _ => hends
            · exact code_cons_congr _ hcode
            · simp only [List.flatMap_cons, spelled_append, hreplaced f hf, List.append_assoc]
          · have hcode : code ps = [] :=
              hps.code_of_blank fun d hd => hb d (hrest ▸ List.mem_append_right y hd)
            have hkept {kind : Kind} (hlexeme : lexeme c x = .ok (.token kind (x.length + 1))) :
                Pieced [] [symbol kind (c :: x)] := .token (by simpa using hlexeme) .nil
            cases hy : y.getLast? with
            | none =>
                obtain rfl := List.getLast?_eq_none_iff.mp hy
                rw [List.append_nil] at hlexeme ⊢
                refine ⟨_, hkept (lexeme_of_append hlexeme (by simp) fun _ _ => ?_), by simp [symbol], ?_,
                  fun f hf => ?_⟩
                · rwa [hrest] at hends
                · exact code_cons_congr _ hcode.symm
                · rw [hrest, List.flatMap_cons, flatMap_of_code_eq_nil hf hcode]
                  simp
            | some e =>
                obtain ⟨rfl, halone⟩ := lexeme_of_blank_end hlexeme hy fun d hd =>
                  hb d (hrest ▸ List.mem_append_left _ hd)
                refine ⟨_, hkept halone, by simp [symbol], by
                  rw [code_comment rfl, code_comment rfl, code_nil, hcode], fun f hf => ?_⟩
                rw [hrest, List.flatMap_cons, flatMap_of_code_eq_nil hf hcode, hf _ rfl, List.flatMap_singleton,
                  hf _ rfl]
                simp [symbol]

/-- What is trimmed away are blanks between tokens and at the end of a line comment, also where the tokens
are replaced that are no comments. -/
theorem exists_trimmed (h : Pieced [] ps) :
    ∃ qs before behind, Pieced [] qs ∧ spelled qs = trim (spelled ps) ∧ code qs = code ps ∧
      (∀ c ∈ before, isBlank c = true) ∧ (∀ c ∈ behind, isBlank c = true) ∧
      ∀ f : Token → List Token, (∀ p, p.kind = .comment → f p = [p]) →
        spelled (ps.flatMap f) = before ++ spelled (qs.flatMap f) ++ behind := by
  have hstart : ∃ qs before, Pieced [] qs ∧ spelled qs = trimStart (spelled ps) ∧ code qs = code ps ∧
      (∀ c ∈ before, isBlank c = true) ∧
      ∀ f : Token → List Token, (∀ p, p.kind = .comment → f p = [p]) →
        spelled (ps.flatMap f) = before ++ spelled (qs.flatMap f) := by
    induction h with
    | nil => exact ⟨[], [], .nil, rfl, rfl, by simp, fun _ _ => rfl⟩
    | @blank c ps hblank hps ih =>
        obtain ⟨qs, before, hqs, hspelled, hcode, hbefore, hreplaced⟩ := ih
        refine ⟨qs, c :: before, hqs, ?_, by rw [code_comment rfl, hcode],
          List.forall_mem_cons.mpr ⟨hblank, hbefore⟩, fun f hf => ?_⟩
        · simp [hspelled, trimStart, symbol, hblank]
        · rw [List.flatMap_cons, hf _ rfl, spelled_append, hreplaced f hf]
          rfl
    | @token kind c t ps hlexeme hps ih =>
        refine ⟨_, [], .token hlexeme hps, ?_, rfl, by simp, fun _ _ => rfl⟩
        have hc : ¬ isBlank c = true := fun hblank => by
          rw [lexeme_of_isBlank hblank] at hlexeme
          cases hlexeme
        simp [trimStart, symbol, hc]
  obtain ⟨qs, before, hqs, hspelled, hcode, hbefore, hreplaced⟩ := hstart
  have hwhole : spelled qs =
      trimEnd (spelled qs) ++ ((spelled qs).reverse.takeWhile isBlank).reverse := by
    rw [trimEnd, trimStart, ← List.reverse_append, List.takeWhile_append_dropWhile,
      List.reverse_reverse]
  have hblank : ∀ c ∈ ((spelled qs).reverse.takeWhile isBlank).reverse, isBlank c = true :=
    fun c hc => List.all_eq_true.mp List.all_takeWhile c (List.mem_reverse.mp hc)
  obtain ⟨rs, hrs, hrspelled, hrcode, hrreplaced⟩ := hqs.without_blanks hwhole hblank fun c hc => by
    rw [trimEnd, trimStart, List.getLast?_reverse] at hc
    have := List.head?_dropWhile_not isBlank (spelled qs).reverse
    rw [Option.mem_def.mp hc] at this
    simpa using this
  refine ⟨rs, before, _, hrs, by rw [hrspelled, hspelled, trim], hrcode.trans hcode, hbefore, hblank,
    fun f hf => ?_⟩
  rw [hreplaced f hf, hrreplaced f hf, List.append_assoc]

theorem trimmed (h : Pieced [] ps) :
    ∃ qs, Pieced [] qs ∧ spelled qs = trim (spelled ps) ∧ code qs = code ps := by
  obtain ⟨qs, -, -, hqs, hspelled, hcode, -⟩ := h.exists_trimmed
  exact ⟨qs, hqs, hspelled, hcode⟩

end Pieced

/-! ## What a cut is split into -/

/-- Two texts are split into the same tokens, comments aside. -/
def SameTokens (s t : Text) : Prop :=
  ∃ ts us, lex s = .ok ts ∧ lex t = .ok us ∧ (code ts).map bare = (code us).map bare

theorem Pieced.sameTokens {ps qs : List Token} (hps : Pieced [] ps) (hqs : Pieced [] qs)
    (h : code ps = code qs) : SameTokens (spelled ps) (spelled qs) := by
  obtain ⟨ts, hts, hplaced⟩ := hps.lex
  obtain ⟨us, hus, hplaced'⟩ := hqs.lex
  exact ⟨ts, us, hts, hus, by rw [hplaced.code_eq, hplaced'.code_eq, h]⟩

theorem Pieced.tight_of_mem {u : Text} {ps : List Token} (h : Pieced u ps) :
    ∀ p ∈ ps, p.kind ≠ .comment → p.text.IsTight := by
  induction h with
  | nil => simp
  | blank _ _ ih => exact List.forall_mem_cons.mpr ⟨fun hkind => absurd rfl hkind, ih⟩
  | token hlexeme _ ih =>
      refine List.forall_mem_cons.mpr ⟨fun hkind => ?_, ih⟩
      obtain ⟨hfirst, hlast⟩ := not_isBlank_of_lexeme hlexeme hkind
      rw [List.take_succ_cons, List.take_left] at hlast
      exact ⟨by simpa [symbol] using hfirst, hlast⟩

namespace Cut

variable {qs : List Token}

theorem tight (h : Cut qs) : (spelled qs).IsTight := by
  constructor
  · intro c hc
    cases qs with
    | nil => cases hc
    | cons q qs =>
        have htight := h.pieced.tight_of_mem q List.mem_cons_self (h.starts q rfl)
        refine htight.1 c ?_
        obtain ⟨d, t, htext⟩ := List.exists_cons_of_ne_nil (h.pieced.text_ne_nil q List.mem_cons_self)
        rw [spelled_cons, htext] at hc
        simpa [htext] using hc
  · intro c hc
    rcases List.eq_nil_or_concat qs with rfl | ⟨init, q, rfl⟩
    · cases hc
    · rw [List.concat_eq_append] at h hc
      have hq : q ∈ init ++ [q] := by simp
      have htight := h.pieced.tight_of_mem q hq (h.ends q (by simp))
      refine htight.2 c ?_
      have hne := h.pieced.text_ne_nil q hq
      rw [spelled_append, spelled_cons, spelled_nil, List.append_nil, List.getLast?_append] at hc
      rw [List.getLast?_eq_some_getLast hne] at hc ⊢
      simpa using hc

theorem eq_singleton {p : Token} (h : Cut qs) (hcode : code qs = [p]) : qs = [p] := by
  cases qs with
  | nil => cases hcode
  | cons q qs =>
      rw [code_cons (h.starts q rfl)] at hcode
      obtain ⟨rfl, hnone⟩ := List.cons.inj hcode
      rcases List.eq_nil_or_concat qs with rfl | ⟨init, r, rfl⟩
      · rfl
      · rw [List.concat_eq_append] at h hnone
        have hr : r.kind ≠ .comment := h.ends r (by simp [List.getLast?_cons])
        rw [code_append, code_cons hr] at hnone
        simp at hnone

end Cut

theorem EndsInCode.of_cons {p : Token} {ps : List Token} (h : EndsInCode (p :: ps)) :
    EndsInCode ps ∧ (p.kind = .comment → ps ≠ []) := by
  cases ps with
  | nil => exact ⟨by simp [EndsInCode], fun hkind => absurd hkind (h p rfl)⟩
  | cons q ps => exact ⟨fun r hr => h r (by rw [List.getLast?_cons_cons]; exact hr), by simp⟩

/-- Pieces up to a token that is no comment stay what they are in front of a separator. -/
theorem Pieced.apart {ps : List Token} (h : Pieced [] ps) (hends : EndsInCode ps) {u : Text}
    (hu : IsApart u) : Pieced u ps := by
  induction h with
  | nil => exact .nil
  | blank hblank _ ih => exact .blank hblank (ih hends.of_cons.1)
  | @token kind c t ps hlexeme hps ih =>
      obtain ⟨hmore, hne⟩ := hends.of_cons
      refine .token ?_ (ih hmore)
      rw [List.append_nil] at hlexeme
      rw [← List.append_assoc]
      by_cases hkind : kind = .comment
      · subst hkind
        refine lexeme_comment_append hlexeme (fun _ => ?_) u
        obtain ⟨p, ps, rfl⟩ := List.exists_cons_of_ne_nil (hne rfl)
        have := List.length_pos_of_ne_nil (hps.text_ne_nil p List.mem_cons_self)
        simp only [spelled_cons, List.length_append]
        omega
      · exact (lexeme_append hu hlexeme hkind).1

/-- Lists of pieces with commas between them. -/
def joined : List (List Token) → List Token
  | [] => []
  | [ps] => ps
  | ps :: pss => ps ++ symbol .comma [','] :: joined pss

theorem spelled_joined (pss : List (List Token)) :
    spelled (joined pss) = Text.join [','] (pss.map spelled) := by
  fun_induction joined pss with
  | case1 => rfl
  | case2 ps => rfl
  | case3 ps pss hne ih =>
      obtain ⟨qs, pss, rfl⟩ := List.exists_cons_of_ne_nil (by simpa using hne)
      rw [spelled_append, spelled_cons, ih]
      simp [Text.join, symbol]

theorem code_joined (pss : List (List Token)) : code (joined pss) = joined (pss.map code) := by
  fun_induction joined pss with
  | case1 => rfl
  | case2 ps => rfl
  | case3 ps pss hne ih =>
      obtain ⟨qs, pss, rfl⟩ := List.exists_cons_of_ne_nil (by simpa using hne)
      rw [code_append, code_cons (by simp [symbol]), ih]
      rfl

theorem Pieced.joined {pss : List (List Token)} (h : ∀ ps ∈ pss, Pieced [] ps ∧ EndsInCode ps) :
    Pieced [] (joined pss) := by
  fun_induction Token.joined pss with
  | case1 => exact .nil
  | case2 ps => exact (h ps (by simp)).1
  | case3 ps pss hne ih =>
      obtain ⟨hps, hends⟩ := h ps List.mem_cons_self
      have hmore := ih fun qs hqs => h qs (List.mem_cons_of_mem ps hqs)
      exact (hps.apart hends (isApart_cons (by decide) _)).append (.token rfl hmore)

end Token

end CodeFrames
