import CodeFrames.Proofs.Alignment.Basic
import CodeFrames.Proofs.Brackets.Balance
import Mathlib.Algebra.GroupWithZero.Nat

/-!
# How far ahead the readings look

A type is told by the tokens in front of the first one that is neither a word nor part of a type, and a
group by the tokens through its closing bracket.  So a seam further on plays no role: what is told in
front of it is the same whatever follows.
-/

namespace CodeFrames

namespace Token

/-! ## Types -/

/-- No type goes on over the token, and it is no name either. -/
def Guards (t : Token) : Prop := t.kind ≠ .word ∧ ¬ t.StandsInType

/-- One of the tokens ends every type in front of it. -/
def Guarded (ts : List Token) : Prop := ∃ t ∈ ts, t.Guards

theorem guards_of_kind {t : Token} {kind : Kind} (h : t.kind = kind) (hkind : kind ∉ typeKinds) :
    t.Guards := by
  refine ⟨fun hword => hkind ?_, fun hstands => hkind (h ▸ typeKinds_of_standsInType hstands)⟩
  rw [← h, hword]
  decide

theorem guards_of_operator {t : Token} {op : Text} (h : t.isOperator op = true)
    (hop : (symbol .operator op).typeArgumentChange? = none) : t.Guards := by
  refine ⟨?_, fun hstands => hstands ?_⟩
  · rw [← bare_kind, bare_of_isOperator h]
    simp [symbol]
  · rw [← typeArgumentChange?_bare, bare_of_isOperator h, hop]

theorem Guards.kind_ne {t : Token} (h : t.Guards) :
    t.kind ≠ .dot ∧ t.kind ≠ .openBracket ∧ t.kind ≠ .closeBracket :=
  ⟨fun hkind => h.2 (standsInType_of_kind (by simp [hkind])),
    fun hkind => h.2 (standsInType_of_kind (by simp [hkind])),
    fun hkind => h.2 (standsInType_of_kind (by simp [hkind]))⟩

theorem Guards.not_isName {t : Token} (h : t.Guards) : t.isName = false := by
  simp [isName, isAnyWord, h.1]

namespace Guarded

variable {t : Token} {ps qs us vs : List Token} {n : Nat}

theorem cons (h : Guarded ps) : Guarded (t :: ps) :=
  have ⟨u, hu, hguards⟩ := h
  ⟨u, List.mem_cons_of_mem t hu, hguards⟩

theorem here (h : t.Guards) : Guarded (t :: ps) := ⟨t, List.mem_cons_self, h⟩

theorem ne_nil (h : Guarded ps) : ps ≠ [] :=
  have ⟨_, hu, _⟩ := h
  List.ne_nil_of_mem hu

theorem exists_split (h : Guarded ps) : ∃ qs g rest, ps = qs ++ g :: rest ∧ g.Guards := by
  obtain ⟨g, hg, hguards⟩ := h
  obtain ⟨qs, rest, rfl⟩ := List.append_of_mem hg
  exact ⟨qs, g, rest, rfl, hguards⟩

/-- Tokens of a type leave the token that ends it. -/
theorem drop (h : Guarded ps) (hn : ∀ t ∈ (ps ++ us).take n, t.StandsInType) :
    n < ps.length ∧ Guarded (ps.drop n) := by
  obtain ⟨qs, g, rest, rfl, hguards⟩ := h.exists_split
  rw [List.append_assoc, List.cons_append] at hn
  have hle := le_length_of_forall_take hn hguards.2
  refine ⟨by simp; omega, ?_⟩
  rw [List.drop_append_of_le_length hle]
  exact ⟨g, by simp, hguards⟩

end Guarded

section Types

variable {g : Token} (hg : g.Guards) (qs us vs : List Token)
include hg

theorem typeArgumentsLengthFrom?_guard (depth : Int) :
    typeArgumentsLengthFrom? depth (qs ++ g :: us) =
      typeArgumentsLengthFrom? depth (qs ++ g :: vs) := by
  induction qs generalizing depth with
  | nil =>
      have hnone : g.typeArgumentChange? = none := not_not.mp hg.2
      simp [typeArgumentsLengthFrom?, hnone]
  | cons t qs ih => simp only [List.cons_append, typeArgumentsLengthFrom?, ih]

theorem optionalArgumentsLength?_guard :
    optionalArgumentsLength? (qs ++ g :: us) = optionalArgumentsLength? (qs ++ g :: vs) := by
  have hsame := typeArgumentsLengthFrom?_guard hg qs us vs 0
  cases qs with
  | nil =>
      rw [List.nil_append, List.nil_append] at hsame ⊢
      simp only [optionalArgumentsLength?, typeArgumentsLength?, hsame]
  | cons t qs =>
      rw [List.cons_append, List.cons_append] at hsame ⊢
      simp only [optionalArgumentsLength?, typeArgumentsLength?, hsame]

theorem continuesQualified_guard :
    continuesQualified (qs ++ g :: us) = continuesQualified (qs ++ g :: vs) := by
  rcases qs with _ | ⟨t, _ | ⟨u, qs⟩⟩
  · cases us <;> cases vs <;> simp [continuesQualified, hg.kind_ne.1]
  · rfl
  · rfl

theorem qualifiedLength?_guard {skip : Nat} (hskip : skip ≤ qs.length) :
    qualifiedLength? skip (qs ++ g :: us) = qualifiedLength? skip (qs ++ g :: vs) := by
  induction qs generalizing skip with
  | nil =>
      obtain rfl : skip = 0 := by simpa using hskip
      have hzero (us : List Token) : qualifiedLength? 0 (g :: us) = some 0 := by
        have hless : g.isOperator ['<'] = false := by
          cases hop : g.isOperator ['<'] with
          | false => rfl
          | true =>
              simp only [isOperator, Bool.and_eq_true, decide_eq_true_eq] at hop
              exact absurd (by simp [StandsInType, typeArgumentChange?, hop]) hg.2
        have hqualified : continuesQualified (g :: us) = false := by
          cases us <;> simp [continuesQualified, hg.kind_ne.1]
        simp [qualifiedLength?, optionalArgumentsLength?, hless, hqualified]
      rw [List.nil_append, List.nil_append, hzero, hzero]
  | cons t qs ih =>
      cases skip with
      | succ skip =>
          rw [List.cons_append, List.cons_append, qualifiedLength?, qualifiedLength?,
            ih (by simpa using hskip)]
      | zero =>
          have hoptional := optionalArgumentsLength?_guard hg (t :: qs) us vs
          rw [List.cons_append, List.cons_append] at hoptional ⊢
          rw [qualifiedLength?, qualifiedLength?, hoptional]
          refine Option.bind_congr fun n hn => ?_
          have hle : n ≤ (t :: qs).length :=
            le_length_of_forall_take (standsInType_of_optionalArguments hn) hg.2
          have hdrop (us : List Token) :
              (t :: (qs ++ g :: us)).drop n = (t :: qs).drop n ++ g :: us := by
            rw [← List.cons_append, List.drop_append_of_le_length hle]
          rw [hdrop, hdrop, continuesQualified_guard hg _ us vs]
          split
          · next hmore =>
              obtain ⟨dot, name, rest, hsplit, hdot, hname⟩ := exists_of_continuesQualified hmore
              have hshort : n + 2 ≤ (t :: qs).length := by
                have hlength := List.length_drop (i := n) (l := t :: qs)
                rcases hrest : (t :: qs).drop n with _ | ⟨a, _ | ⟨b, more⟩⟩
                · rw [hrest, List.nil_append] at hsplit
                  obtain ⟨rfl, -⟩ := List.cons.inj hsplit
                  exact absurd hdot hg.kind_ne.1
                · rw [hrest] at hsplit
                  obtain ⟨-, rfl, -⟩ := by simpa using hsplit
                  exact absurd (kind_of_isName hname) hg.1
                · rw [hrest, List.length_cons, List.length_cons] at hlength
                  omega
              rw [ih (by simp at hshort; omega)]
          · rfl

theorem typeNameLength?_guard :
    typeNameLength? (qs ++ g :: us) = typeNameLength? (qs ++ g :: vs) := by
  cases qs with
  | nil =>
      have hopens : ¬ g.opensType := fun h => hg.2 (standsInType_of_opensType h)
      simp [typeNameLength?, hopens]
  | cons t qs =>
      rw [List.cons_append, List.cons_append, typeNameLength?, typeNameLength?,
        qualifiedLength?_guard hg qs us vs (Nat.zero_le _)]

theorem dimensionsLength_guard :
    dimensionsLength (qs ++ g :: us) = dimensionsLength (qs ++ g :: vs) := by
  fun_induction dimensionsLength qs with
  | case1 l r ts h ih => simp only [List.cons_append, dimensionsLength, h, if_true, ih]
  | case2 l r ts h => simp only [List.cons_append, dimensionsLength, h, if_false, Bool.false_eq_true]
  | case3 ts h =>
      rcases ts with _ | ⟨t, _ | ⟨u, ts⟩⟩
      · cases us <;> cases vs <;> simp [dimensionsLength, hg.kind_ne.2.1]
      · simp [dimensionsLength, hg.kind_ne.2.2]
      · exact absurd rfl (h t u ts)

theorem typeLength?_guard : typeLength? (qs ++ g :: us) = typeLength? (qs ++ g :: vs) := by
  rw [typeLength?, typeLength?, typeNameLength?_guard hg qs us vs]
  refine Option.map_congr fun n hn => ?_
  have hle : n ≤ qs.length := le_length_of_forall_take (standsInType_of_typeName hn) hg.2
  rw [List.drop_append_of_le_length hle, List.drop_append_of_le_length hle,
    dimensionsLength_guard hg _ us vs]

end Types

namespace Guarded

variable {ps : List Token} (h : Guarded ps) (us vs : List Token)
include h

theorem typeArgumentsLength?_eq :
    typeArgumentsLength? (ps ++ us) = typeArgumentsLength? (ps ++ vs) := by
  obtain ⟨qs, g, rest, rfl, hg⟩ := h.exists_split
  simp only [List.append_assoc, List.cons_append]
  exact typeArgumentsLengthFrom?_guard hg qs _ _ 0

theorem optionalArgumentsLength?_eq :
    optionalArgumentsLength? (ps ++ us) = optionalArgumentsLength? (ps ++ vs) := by
  obtain ⟨qs, g, rest, rfl, hg⟩ := h.exists_split
  simp only [List.append_assoc, List.cons_append]
  exact optionalArgumentsLength?_guard hg qs _ _

theorem typeNameLength?_eq : typeNameLength? (ps ++ us) = typeNameLength? (ps ++ vs) := by
  obtain ⟨qs, g, rest, rfl, hg⟩ := h.exists_split
  simp only [List.append_assoc, List.cons_append]
  exact typeNameLength?_guard hg qs _ _

theorem typeLength?_eq : typeLength? (ps ++ us) = typeLength? (ps ++ vs) := by
  obtain ⟨qs, g, rest, rfl, hg⟩ := h.exists_split
  simp only [List.append_assoc, List.cons_append]
  exact typeLength?_guard hg qs _ _

end Guarded

/-! ## Ends -/

/-- The tokens that no expression goes on over. -/
def sealKinds : List Kind := [.semicolon, .openBrace, .closeBrace, .closeParen]

/-- What an expression is part of ends among the tokens, or goes on with a block. -/
def Sealed (ts : List Token) : Prop := ∃ t ∈ ts, t.kind ∈ sealKinds

namespace Sealed

variable {t : Token} {ps qs : List Token}

theorem here (h : t.kind ∈ sealKinds) : Sealed (t :: ps) := ⟨t, List.mem_cons_self, h⟩

theorem cons (h : Sealed ps) : Sealed (t :: ps) :=
  have ⟨u, hu, hkind⟩ := h
  ⟨u, List.mem_cons_of_mem t hu, hkind⟩

theorem append_left (h : Sealed ps) : Sealed (qs ++ ps) :=
  have ⟨u, hu, hkind⟩ := h
  ⟨u, List.mem_append_right qs hu, hkind⟩

theorem guarded (h : Sealed ps) : Guarded ps :=
  have ⟨u, hu, hkind⟩ := h
  ⟨u, hu, guards_of_kind rfl ((by decide : ∀ kind ∈ sealKinds, kind ∉ typeKinds) _ hkind)⟩

theorem ne_nil (h : Sealed ps) : ps ≠ [] := h.guarded.ne_nil

theorem tail (h : Sealed (t :: ps)) (ht : t.kind ∉ sealKinds) : Sealed ps := by
  obtain ⟨u, hu, hkind⟩ := h
  rcases List.mem_cons.mp hu with rfl | hu
  · exact absurd hkind ht
  · exact ⟨u, hu, hkind⟩

end Sealed

/-! ## Words and marks -/

/-- One of the tokens is no word, so that behind a first word there is another token. -/
def Marked (ps : List Token) : Prop := ∃ t ∈ ps, t.kind ≠ .word

theorem marked_cons {t : Token} {ps : List Token} (h : t.kind ≠ .word) : Marked (t :: ps) :=
  ⟨t, List.mem_cons_self, h⟩

theorem Marked.ne_nil {ps : List Token} (h : Marked ps) : ps ≠ [] :=
  have ⟨_, ht, _⟩ := h
  List.ne_nil_of_mem ht

theorem Marked.append_right {ps : List Token} (h : Marked ps) (qs : List Token) : Marked (ps ++ qs) :=
  have ⟨t, ht, hkind⟩ := h
  ⟨t, List.mem_append_left qs ht, hkind⟩

theorem Marked.append_left {ps : List Token} (h : Marked ps) (qs : List Token) : Marked (qs ++ ps) :=
  have ⟨t, ht, hkind⟩ := h
  ⟨t, List.mem_append_right qs ht, hkind⟩

theorem Marked.two_le_length {t : Token} {ps : List Token} (h : Marked (t :: ps)) (ht : t.kind = .word) :
    2 ≤ (t :: ps).length := by
  obtain ⟨u, hu, hkind⟩ := h
  rcases List.mem_cons.mp hu with rfl | hu
  · exact absurd ht hkind
  · exact Nat.succ_le_succ (List.length_pos_of_mem hu)

theorem Sealed.marked {ps : List Token} (h : Sealed ps) : Marked ps := by
  obtain ⟨t, ht, hguards⟩ := h.guarded
  exact ⟨t, ht, hguards.1⟩

/-- Past the first so many tokens there are tokens with the property. -/
def Past (m : Nat) (P : List Token → Prop) (ps : List Token) : Prop :=
  ∃ front us, ps = front ++ us ∧ front.length = m ∧ P us

/-! ## Groups -/

/-- A group ends with a closing bracket. -/
theorem Closing.marked {depth : Nat} {ps : List Token} (h : Closing depth ps) : Marked ps := by
  induction h with
  | opener hopener _ ih => exact ih.append_left [_]
  | closer hopener hcloser _ ih => exact ih.append_left [_]
  | last hopener hcloser => exact marked_cons fun hkind => by simp [hkind, Kind.isCloser] at hcloser
  | plain hopener hcloser hend _ ih => exact ih.append_left [_]

/-- The end of input is not among the tokens, and no bracket is closed among them by one of another
kind. -/
structure Matched (ps : List Token) : Prop where
  closes : ∃ kinds opened, openBrackets? kinds ps = some opened
  code : ∀ t ∈ ps, ¬ t.isEnd

theorem Matched.of_append {ps qs : List Token} (h : Matched (ps ++ qs)) : Matched ps ∧ Matched qs := by
  obtain ⟨⟨kinds, opened, hopened⟩, hcode⟩ := h
  rw [openBrackets?_append] at hopened
  obtain ⟨between, hps, hqs⟩ := Option.bind_eq_some_iff.mp hopened
  exact ⟨⟨⟨kinds, between, hps⟩, fun t ht => hcode t (List.mem_append_left qs ht)⟩,
    ⟨⟨between, opened, hqs⟩, fun t ht => hcode t (List.mem_append_right ps ht)⟩⟩

theorem Matched.tail {t : Token} {ps : List Token} (h : Matched (t :: ps)) : Matched ps :=
  (Matched.of_append (show Matched ([t] ++ ps) from h)).2

/-- The open brackets are closed further on, or the first of them is still open. -/
theorem exists_closing {ps : List Token} {inside kinds opened : List Kind} {first : Kind}
    (hopen : openBrackets? (inside ++ first :: kinds) ps = some opened) (hcode : ∀ t ∈ ps, ¬ t.isEnd) :
    (∃ n, groupLengthFrom? (inside.length + 1) ps = some n) ∨ ∃ more, opened = more ++ first :: kinds := by
  induction ps generalizing inside with
  | nil => exact .inr ⟨inside, (Option.some.inj hopen).symm⟩
  | cons t ps ih =>
      have hcode' : ∀ t ∈ ps, ¬ t.isEnd := fun u hu => hcode u (List.mem_cons_of_mem t hu)
      by_cases hopener : t.kind.isOpener
      · rw [openBrackets?_opener hopener] at hopen
        refine (@ih (t.kind :: inside) hopen hcode').imp_left ?_
        rintro ⟨n, hn⟩
        refine ⟨n + 1, ?_⟩
        rw [groupLengthFrom?_opener hopener, ← List.length_cons (a := t.kind), hn]
        rfl
      by_cases hcloser : t.kind.isCloser
      · rw [openBrackets?_cons] at hopen
        obtain ⟨next, hnext, hopen⟩ := Option.bind_eq_some_iff.mp hopen
        obtain ⟨kind, hkinds, -⟩ := exists_of_openBrackets?_closer hopener hcloser hnext
        cases inside with
        | nil => exact .inl ⟨1, by rw [groupLengthFrom?.eq_def]; simp [hopener, hcloser]⟩
        | cons second inside =>
            obtain ⟨-, rfl⟩ := List.cons.inj hkinds
            refine (ih hopen hcode').imp_left ?_
            rintro ⟨n, hn⟩
            refine ⟨n + 1, ?_⟩
            rw [List.length_cons, groupLengthFrom?_closer (by simpa using hopener) hcloser, hn]
            rfl
      · rw [openBrackets?_plain hopener hcloser] at hopen
        refine (ih hopen hcode').imp_left ?_
        rintro ⟨n, hn⟩
        refine ⟨n + 1, ?_⟩
        rw [groupLengthFrom?_plain hopener hcloser (hcode t List.mem_cons_self), hn]
        rfl

/-- Parentheses end among tokens that leave as many open as there were. -/
theorem KeepsRank.exists_group {t : Token} {ps : List Token} (h : KeepsRank (t :: ps))
    (hmatched : Matched (t :: ps)) (ht : t.kind = .openParen) :
    ∃ n, groupLength? (t :: ps) = some n ∧ n ≤ (t :: ps).length := by
  have hopener : t.kind.isOpener = true := by rw [ht]; rfl
  obtain ⟨⟨kinds, opened, hopened⟩, hcode⟩ := hmatched
  have hrank := h kinds opened hopened
  rw [openBrackets?_opener hopener] at hopened
  obtain ⟨n, hn⟩ | ⟨more, rfl⟩ := exists_closing (show openBrackets? ([] ++ t.kind :: kinds) ps = some opened from
    hopened) fun u hu => hcode u (List.mem_cons_of_mem t hu)
  · have hgroup : groupLength? (t :: ps) = some (n + 1) := by
      rw [groupLength?, groupLengthFrom?_opener hopener]
      exact congrArg (Option.map (· + 1)) hn
    obtain ⟨group, rest, hsplit, hlength, -⟩ := exists_of_groupLength? hgroup
    refine ⟨n + 1, hgroup, ?_⟩
    rw [hsplit, List.length_append]
    omega
  · simp only [rank, List.countP_append, List.countP_cons, ht] at hrank
    simp at hrank
    omega

/-- Parentheses that the tokens open with end in front of others. -/
def GroupEnds (ps : List Token) : Prop :=
  (ps.head?.any (·.kind = .openParen)) = true → ∃ n < ps.length, groupLength? ps = some n

/-- A cast that the tokens open with ends in front of others, whatever follows. -/
def CastEnds (ps : List Token) : Prop := ∀ us n, castLength? (ps ++ us) = some n → n < ps.length

section Ends

variable {t : Token} {ps qs : List Token}

theorem KeepsRank.groupEnds (h : KeepsRank ps) (hne : ps ≠ []) (hqs : qs ≠ [])
    (hmatched : Matched (ps ++ qs)) : GroupEnds (ps ++ qs) := by
  obtain ⟨t, ps, rfl⟩ := List.exists_cons_of_ne_nil hne
  intro hparen
  obtain ⟨n, hn, hle⟩ := h.exists_group hmatched.of_append.1 (of_decide_eq_true hparen)
  refine ⟨n, ?_, groupLength?_append hn qs⟩
  have := List.length_pos_of_ne_nil hqs
  rw [List.length_append]
  omega

/-- The type of a cast is not in parentheses, so that the tokens of the operand do not end in it. -/
theorem KeepsRank.castEnds (h : KeepsRank ps) (hne : ps ≠ []) (hqs : qs ≠ [])
    (hmatched : Matched (ps ++ qs)) : CastEnds (ps ++ qs) := by
  intro us n hcast
  have hlength := List.length_pos_of_ne_nil hqs
  obtain ⟨paren, type, rest, m, close, operand, more, htokens, hparen, hm, -, -, -, rfl⟩ :=
    castLength?_eq_some.mp hcast
  obtain ⟨t, ps, rfl⟩ := List.exists_cons_of_ne_nil hne
  obtain ⟨rfl, hrest⟩ := List.cons.inj (show t :: (ps ++ (qs ++ us)) = paren :: type :: rest by
    rw [← htokens, List.cons_append, List.cons_append, List.append_assoc])
  rw [List.length_append, List.length_cons]
  suffices hlt : m < ps.length by omega
  by_contra hge
  have hinside : ∀ u ∈ ps, u.kind ∈ typeKinds := fun u hu => typeKinds_of_type hm u <| by
    rw [← hrest, List.take_append]
    exact List.mem_append_left _ ((List.take_of_length_le (Nat.le_of_not_lt hge)).symm ▸ hu)
  have hopener : t.kind.isOpener = true := by rw [hparen]; rfl
  obtain ⟨⟨kinds, opened, hopened⟩, -⟩ := hmatched.of_append.1
  have hrank := h kinds opened hopened
  rw [openBrackets?_opener hopener] at hopened
  rw [keepsRank_of_typeKinds hinside _ _ hopened] at hrank
  simp [rank, hparen] at hrank

theorem CastEnds.castLength?_eq (h : CastEnds ps) (us vs : List Token) :
    castLength? (ps ++ us) = castLength? (ps ++ vs) := by
  have hsame {us vs : List Token} {n : Nat} (hcast : castLength? (ps ++ us) = some n) :
      castLength? (ps ++ vs) = some n := castLength?_of_lt hcast (h us n hcast) vs
  exact Option.ext fun n => ⟨fun hcast => hsame hcast, fun hcast => hsame hcast⟩

/-- A cast that is found in front of others is the one that the tokens open with, whatever follows. -/
theorem castEnds_of_lt {us : List Token} {n : Nat} (h : castLength? (ps ++ us) = some n) (hn : n < ps.length) :
    CastEnds ps := fun vs m hm => by
  rw [castLength?_of_lt h hn vs] at hm
  exact Option.some.inj hm ▸ hn

theorem castEnds_of_kind (h : t.kind ≠ .openParen) : CastEnds (t :: ps) := by
  intro us n hcast
  rw [List.cons_append, Reading.castLength?_of_kind h] at hcast
  cases hcast

end Ends

/-- What stands where an operand is read: parentheses at the start end in front of the end of what the
operand is part of. -/
structure Operable (ps : List Token) : Prop where
  sealed : Sealed ps
  group : Matched ps → GroupEnds ps
  cast : Matched ps → CastEnds ps

/-- What stands where leading operators are read: a cast at the start ends in front of others. -/
def Castable (ps : List Token) : Prop := Sealed ps ∧ (Matched ps → CastEnds ps)

/-! ## Modifiers -/

section Modifiers

variable {ps qs us vs : List Token} {k : Nat}

theorem dottedWordsLength_eq (hk : dottedWordsLength (ps ++ us) < ps.length) :
    dottedWordsLength (ps ++ us) = dottedWordsLength (ps ++ vs) := by
  fun_induction dottedWordsLength ps with
  | case1 => simp at hk
  | case2 t hword dot ts hdot ih =>
      simp only [List.cons_append, dottedWordsLength, hword, hdot, if_true, List.length_cons] at hk ⊢
      rw [ih (by omega)]
  | case3 t hword dot ts hdot => simp [dottedWordsLength, hword, hdot]
  | case4 t hword =>
      cases us with
      | nil => simp [dottedWordsLength, hword] at hk
      | cons u us =>
          simp only [List.singleton_append, dottedWordsLength, hword, if_true, List.length_singleton] at hk
          split at hk <;> omega
  | case5 t ts hword =>
      rw [List.cons_append, List.cons_append]
      unfold dottedWordsLength
      simp [hword]

/-- No parenthesis is the first of the tokens. -/
def Unparenthesized (ps : List Token) : Prop := ∀ t ∈ ps.head?, t.kind ≠ .openParen

theorem groupLength?_of_le {n : Nat} (h : groupLength? (ps ++ us) = some n) (hn : n ≤ ps.length) :
    groupLength? ps = some n := by
  obtain ⟨group, rest, hsplit, rfl, hclosing⟩ := exists_of_groupLength? h
  refine groupLengthFrom?_eq_some.mpr ⟨group, ps.drop group.length, ?_, rfl, hclosing⟩
  have htake := congrArg (List.take group.length) hsplit
  rw [List.take_append_of_le_length hn, List.take_left] at htake
  rw [← htake, List.length_take, Nat.min_eq_left hn, List.take_append_drop]

/-- An annotation is told by its own tokens if no parenthesis follows them. -/
theorem annotationRestLength_eq (hk : annotationRestLength (ps ++ us) < ps.length)
    (hparen : Unparenthesized (ps.drop (annotationRestLength (ps ++ us)))) :
    annotationRestLength (ps ++ us) = annotationRestLength (ps ++ vs) := by
  have hname : dottedWordsLength (ps ++ us) < ps.length := by
    refine lt_of_le_of_lt ?_ hk
    rw [annotationRestLength]
    split
    · exact le_rfl
    · split <;> omega
  rw [annotationRestLength, List.drop_append_of_le_length hname.le] at hk hparen ⊢
  rw [annotationRestLength, ← (dottedWordsLength_eq hname : _ = dottedWordsLength (ps ++ vs)),
    List.drop_append_of_le_length hname.le]
  have hlength := List.length_drop (i := dottedWordsLength (ps ++ us)) (l := ps)
  cases hdrop : ps.drop (dottedWordsLength (ps ++ us)) with
  | nil =>
      rw [List.drop_eq_nil_iff] at hdrop
      omega
  | cons t ts =>
      rw [hdrop] at hk hparen hlength
      simp only [List.cons_append] at hk hparen ⊢
      split
      · next hopen =>
          rw [if_pos hopen] at hk hparen
          cases hgroup : groupLength? (t :: (ts ++ us)) with
          | none =>
              rw [hgroup, Option.getD_none, Nat.add_zero, hdrop] at hparen
              exact absurd hopen (hparen t rfl)
          | some n =>
              rw [hgroup, Option.getD_some] at hk
              have hsame := groupLength?_of_le (show groupLength? (t :: ts ++ us) = some n from hgroup)
                (by omega)
              rw [← List.cons_append, groupLength?_append hsame vs]
      · rfl

theorem modifierLength_cons_cons (t u : Token) (ts : List Token) : modifierLength (t :: u :: ts) =
    if t.isWordIn modifierWords then
      if t.isWord "synchronized".toList && u.kind = .openParen then 0 else 1
    else if t.kind = .atSign && !u.isWord "interface".toList then annotationRestLength (u :: ts) + 1
    else 0 := rfl

theorem modifierLength_eq (hpos : 0 < modifierLength (ps ++ us))
    (hk : modifierLength (ps ++ us) < ps.length)
    (hparen : Unparenthesized (ps.drop (modifierLength (ps ++ us)))) :
    modifierLength (ps ++ us) = modifierLength (ps ++ vs) := by
  rcases ps with _ | ⟨t, _ | ⟨u, ts⟩⟩
  · simp at hk
  · simp only [List.length_singleton] at hk
    omega
  · rw [List.cons_append, List.cons_append, modifierLength_cons_cons] at hk hparen ⊢
    rw [List.cons_append, List.cons_append, modifierLength_cons_cons]
    split
    · rfl
    · next hword =>
        rw [if_neg hword] at hk hparen
        split
        · next hat =>
            rw [if_pos hat, List.length_cons] at hk
            rw [if_pos hat, List.drop_succ_cons] at hparen
            exact congrArg (· + 1) (show annotationRestLength (u :: ts ++ us) =
              annotationRestLength (u :: ts ++ vs) from
                annotationRestLength_eq (Nat.lt_of_succ_lt_succ hk) hparen)
        · rfl

/-- A modifier starts with a word or with the sign of an annotation. -/
theorem unparenthesized_of_modifierLength (h : modifierLength ps ≠ 0) : Unparenthesized ps := by
  rintro t ht hopen
  obtain ⟨ts, rfl⟩ := List.head?_eq_some_iff.mp ht
  rw [modifierLength] at h
  simp [isWordIn, isAnyWord, hopen] at h

/-- No modifier starts at the tokens, whatever follows. -/
def Halts (ps : List Token) : Prop := ps ≠ [] ∧ ∀ us, modifierLength (ps ++ us) = 0

theorem modifierLengths_cons (t : Token) (ts : List Token) :
    modifierLengths (t :: ts) = match modifierLength (t :: ts) with
      | 0 => []
      | n + 1 => (n + 1) :: modifierLengths (ts.drop n) := by
  rw [modifierLengths, modifierLengthsFrom]
  cases modifierLength (t :: ts) with
  | zero => rfl
  | succ n => simp only [modifierLengthsFrom_eq]

theorem modifierLengths_of_halts (h : Halts ps) (us : List Token) : modifierLengths (ps ++ us) = [] := by
  obtain ⟨hne, hzero⟩ := h
  obtain ⟨t, ps, rfl⟩ := List.exists_cons_of_ne_nil hne
  have := hzero us
  rw [List.cons_append] at this ⊢
  rw [modifierLengths_cons, this]

/-- The modifiers in front of something that is none are the same whatever follows. -/
theorem modifierLengths_eq (hqs : Halts qs) (hparen : ps ≠ [] → Unparenthesized qs)
    (hsum : (modifierLengths (ps ++ qs ++ us)).sum = ps.length) :
    modifierLengths (ps ++ qs ++ us) = modifierLengths (ps ++ qs ++ vs) := by
  induction hn : ps.length using Nat.strong_induction_on generalizing ps with
  | _ n ih =>
      subst hn
      cases ps with
      | nil => rw [List.nil_append, modifierLengths_of_halts hqs, modifierLengths_of_halts hqs]
      | cons t ps =>
          rw [List.cons_append, List.cons_append, modifierLengths_cons] at hsum ⊢
          rw [List.cons_append, modifierLengths_cons]
          cases hfirst : modifierLength (t :: (ps ++ qs ++ us)) with
          | zero =>
              rw [hfirst] at hsum
              simp at hsum
          | succ m =>
              rw [hfirst] at hsum
              simp only [List.sum_cons, List.length_cons] at hsum
              have hle : m ≤ ps.length := by omega
              have hqs' : 0 < qs.length := List.length_pos_of_ne_nil hqs.1
              have hdropped : (ps.drop m).length = ps.length - m := List.length_drop
              have hdrop (us : List Token) : (ps ++ qs ++ us).drop m = ps.drop m ++ qs ++ us := by
                rw [List.append_assoc, List.drop_append_of_le_length hle, List.append_assoc]
              simp only [hdrop] at hsum ⊢
              have hnext : Unparenthesized ((t :: (ps ++ qs)).drop (m + 1)) := by
                rw [List.drop_succ_cons, List.drop_append_of_le_length hle]
                -- what follows is another modifier, or what is modified
                cases hrest : ps.drop m with
                | nil => exact hparen (List.cons_ne_nil _ _)
                | cons u rest =>
                    rw [hrest, List.cons_append, List.cons_append, modifierLengths_cons] at hsum
                    have hmore : modifierLength (u :: (rest ++ qs ++ us)) ≠ 0 := by
                      intro hzero
                      rw [hzero] at hsum
                      rw [hrest, List.length_cons] at hdropped
                      simp only [List.sum_nil] at hsum
                      omega
                    exact fun v hv => unparenthesized_of_modifierLength hmore v hv
              have hsame : modifierLength (t :: (ps ++ qs ++ us)) = modifierLength (t :: (ps ++ qs ++ vs)) :=
                @modifierLength_eq (t :: (ps ++ qs)) us vs (by rw [List.cons_append, hfirst]; omega)
                  (by rw [List.cons_append, hfirst]; simp only [List.length_cons, List.length_append]; omega)
                  (by rwa [List.cons_append, hfirst])
              rw [← hsame, hfirst]
              simp only [hdrop]
              rw [ih (ps.drop m).length (by rw [List.length_cons]; omega) (fun _ => hparen (List.cons_ne_nil _ _))
                (by omega) rfl]

/-- Past all modifiers there is no other one. -/
theorem modifierLength_drop (ts : List Token) : modifierLength (ts.drop (modifierLengths ts).sum) = 0 := by
  induction hn : ts.length using Nat.strong_induction_on generalizing ts with
  | _ n ih =>
      subst hn
      cases ts with
      | nil => rfl
      | cons t ts =>
          rw [modifierLengths_cons]
          cases hfirst : modifierLength (t :: ts) with
          | zero => exact hfirst
          | succ n =>
              simp only [List.sum_cons]
              rw [← List.drop_drop, List.drop_succ_cons]
              exact ih _ (by rw [List.length_drop, List.length_cons]; omega) _ rfl

/-- That no modifier starts is told by the first token and, behind a word or the sign of an annotation,
the next one. -/
theorem Marked.halts (h : Marked ps) (hat : ∀ t ∈ ps.head?, t.kind = .atSign → 2 ≤ ps.length)
    (hzero : modifierLength (ps ++ us) = 0) : Halts ps := by
  refine ⟨h.ne_nil, fun vs => ?_⟩
  obtain ⟨t, ps, rfl⟩ := List.exists_cons_of_ne_nil h.ne_nil
  by_cases hplain : t.kind ≠ .word ∧ t.kind ≠ .atSign
  · have hword : t.isWordIn modifierWords = false := by simp [isWordIn, isAnyWord, hplain.1]
    rw [List.cons_append, modifierLength]
    simp [hword, hplain.2]
  · have hlength : 2 ≤ (t :: ps).length := by
      by_cases hword : t.kind = .word
      · exact h.two_le_length hword
      · exact hat t rfl (by_contra fun hnot => hplain ⟨hword, hnot⟩)
    obtain ⟨u, ps, rfl⟩ := List.exists_cons_of_ne_nil
      (List.ne_nil_of_length_pos (Nat.le_of_succ_le_succ hlength))
    rw [List.cons_append, List.cons_append, modifierLength_cons_cons] at hzero ⊢
    split at hzero
    · next hword => rw [if_pos hword, hzero]
    · next hword =>
        split at hzero
        · cases hzero
        · next hat => rw [if_neg hword, if_neg hat]

/-- Where what the tokens are part of ends among them, they need no more to tell that no modifier
starts. -/
theorem Sealed.halts (h : Sealed ps) (hzero : modifierLength (ps ++ us) = 0) : Halts ps := by
  refine h.marked.halts (fun t ht hat => ?_) hzero
  obtain ⟨t, ps, rfl⟩ := List.exists_cons_of_ne_nil h.ne_nil
  obtain rfl := Option.some.inj ht
  exact Nat.succ_le_succ (List.length_pos_of_ne_nil (h.tail (by rw [hat]; decide)).ne_nil)

/-- What stands behind modifiers: no parenthesis comes first, and it ends among the tokens. -/
def Modified (ps : List Token) : Prop := Sealed ps ∧ Unparenthesized ps

theorem Past.imp {m : Nat} {P Q : List Token → Prop} (h : Past m P ps) (hPQ : ∀ us, P us → Q us) :
    Past m Q ps :=
  have ⟨front, us, hps, hfront, hus⟩ := h
  ⟨front, us, hps, hfront, hPQ us hus⟩

theorem Past.sealed {m : Nat} (h : Past m Modified ps) : Sealed ps := by
  obtain ⟨front, us, rfl, -, hus⟩ := h
  exact hus.1.append_left

/-- Whether there are modifiers at all is told in front of the end. -/
theorem Sealed.isEmpty_modifierLengths (h : Sealed ps) (us vs : List Token) :
    (modifierLengths (ps ++ us)).isEmpty = (modifierLengths (ps ++ vs)).isEmpty := by
  have hiff (us : List Token) : (modifierLengths (ps ++ us)).isEmpty = true ↔ Halts ps := by
    refine ⟨fun hempty => h.halts (show modifierLength (ps ++ us) = 0 from ?_), fun hhalts => by rw [modifierLengths_of_halts hhalts]; rfl⟩
    obtain ⟨t, ps, rfl⟩ := List.exists_cons_of_ne_nil h.ne_nil
    rw [List.cons_append, modifierLengths_cons] at hempty
    cases hlength : modifierLength (t :: (ps ++ us)) with
    | zero => exact hlength
    | succ n =>
        rw [hlength] at hempty
        cases hempty
  rw [Bool.eq_iff_iff, hiff, hiff]

theorem spansOf_append (lengths : List Nat) (hle : lengths.sum ≤ ps.length) (us : List Token) :
    spansOf lengths (ps ++ us) = spansOf lengths ps := by
  induction lengths generalizing ps with
  | nil => rfl
  | cons n lengths ih =>
      rw [List.sum_cons] at hle
      rw [spansOf, spansOf, List.take_append_of_le_length (by omega),
        List.drop_append_of_le_length (by omega), ih (by rw [List.length_drop]; omega)]

end Modifiers

/-! ## Declarations -/

section Declarations

variable {t : Token} {ps : List Token} (us vs : List Token)

/-- A constructor is told when the parentheses behind its name end before the tokens do. -/
theorem declaresConstructor_eq (hname : t.isName = true → ps ≠ []) (hgroup : t.isName = true → GroupEnds ps) :
    Reading.declaresConstructor (t :: (ps ++ us)) = Reading.declaresConstructor (t :: (ps ++ vs)) := by
  cases hn : t.isName with
  | false => simp only [Reading.declaresConstructor, hn, Bool.false_and]
  | true =>
      obtain ⟨p, ps, rfl⟩ := List.exists_cons_of_ne_nil (hname hn)
      cases hp : decide (p.kind = .openParen) with
      | false =>
          simp only [Reading.declaresConstructor, List.cons_append, List.head?_cons, Option.any_some, hp,
            Bool.and_false, Bool.false_and]
      | true =>
          obtain ⟨n, hlt, hlength⟩ := hgroup hn hp
          simp only [Reading.declaresConstructor, groupLength?_append hlength,
            List.getElem?_append_left hlt]
          rfl

/-- Parentheses behind a first name end before the tokens do. -/
def CallEnds (ts : List Token) : Prop := ∀ t ps, ts = t :: ps → t.isName = true → GroupEnds ps

/-- A name is a type on its own when parentheses follow it. -/
theorem typeLength?_of_call {p : Token} (ht : t.isName = true) (hp : p.kind = .openParen) :
    typeLength? (t :: p :: ps) = some 1 := by
  have hless : p.isOperator ['<'] = false := by simp [isOperator, hp]
  have hdot : continuesQualified (p :: ps) = false := by cases ps <;> simp [continuesQualified, hp]
  have hbracket : dimensionsLength (p :: ps) = 0 := by cases ps <;> simp [dimensionsLength, hp]
  simp [typeLength?, typeNameLength?, opensType, ht, qualifiedLength?, optionalArgumentsLength?, hless, hdot,
    hbracket]

/-- What is told as a method does not start with a call. -/
theorem callEnds_of_declaresMethod (h : Reading.declaresMethod (ps ++ us) = true) : CallEnds ps := by
  rintro t ps rfl ht hparen
  obtain ⟨p, ps, rfl⟩ : ∃ p us, ps = p :: us := by
    cases ps with
    | nil => cases hparen
    | cons p ps => exact ⟨p, ps, rfl⟩
  have hp : p.kind = .openParen := of_decide_eq_true hparen
  have hword : t.kind = .word := kind_of_isName ht
  have hparameters : optionalArgumentsLength? (t :: p :: (ps ++ us)) = some 0 := by
    simp [optionalArgumentsLength?, isOperator, hword]
  rw [List.cons_append, List.cons_append, Reading.declaresMethod, hparameters] at h
  simp only [List.drop_zero, typeLength?_of_call ht hp, List.drop_succ_cons] at h
  cases hmore : ps ++ us <;> simp [hmore, isName, isAnyWord, hp] at h

theorem declaresMethod_of_head (ht : t.isOperator ['<'] = false) (htype : t.opensType = false) :
    Reading.declaresMethod (t :: ps) = false := by
  simp [Reading.declaresMethod, optionalArgumentsLength?, ht, typeLength?, typeNameLength?, htype]

/-- A declaration is told by its first two tokens, or by how constructors and methods are. -/
theorem declarationShape_eq (m : Nat) (htype : t.isWordIn typeWords = true → ps ≠ [])
    (hdeclares : (t.isWordIn typeWords && (ps ++ us).head?.any isAnyWord) = false → t.kind ≠ .atSign →
      Reading.declaresConstructor (t :: (ps ++ us)) = Reading.declaresConstructor (t :: (ps ++ vs)) ∧
      Reading.declaresMethod (t :: (ps ++ us)) = Reading.declaresMethod (t :: (ps ++ vs))) :
    Reading.declarationShape m (t :: (ps ++ us)) = Reading.declarationShape m (t :: (ps ++ vs)) := by
  have hfirst : (t.isWordIn typeWords && (ps ++ us).head?.any isAnyWord) =
      (t.isWordIn typeWords && (ps ++ vs).head?.any isAnyWord) := by
    cases hword : t.isWordIn typeWords with
    | false => rfl
    | true =>
        obtain ⟨u, ps, rfl⟩ := List.exists_cons_of_ne_nil (htype hword)
        rfl
  simp only [Reading.declarationShape, ← hfirst]
  split
  · rfl
  · next hnot =>
      split
      · rfl
      · next hat =>
          obtain ⟨hconstructor, hmethod⟩ := hdeclares (by simpa using hnot) hat
          rw [hconstructor, hmethod]

theorem Guarded.declaresVariable_eq (h : Guarded ps) :
    Reading.declaresVariable (ps ++ us) = Reading.declaresVariable (ps ++ vs) := by
  obtain ⟨qs, g, rest, rfl, hg⟩ := h.exists_split
  have hsame := typeLength?_guard hg qs (rest ++ us) (rest ++ vs)
  simp only [List.append_assoc, List.cons_append]
  rw [Reading.declaresVariable, Reading.declaresVariable, ← hsame]
  cases htype : typeLength? (qs ++ g :: (rest ++ us)) with
  | none => rfl
  | some n =>
      have hle : n ≤ qs.length := le_length_of_forall_take (standsInType_of_type htype) hg.2
      simp only [List.drop_append_of_le_length hle]
      rcases qs.drop n with _ | ⟨a, _ | ⟨b, more⟩⟩
      · cases h₁ : rest ++ us <;> cases h₂ : rest ++ vs <;> simp [hg.not_isName]
      · rfl
      · rfl

theorem Guarded.declaresMethod_eq (h : Guarded ps) :
    Reading.declaresMethod (ps ++ us) = Reading.declaresMethod (ps ++ vs) := by
  rw [Reading.declaresMethod, Reading.declaresMethod, ← h.optionalArgumentsLength?_eq us vs]
  cases hparameters : optionalArgumentsLength? (ps ++ us) with
  | none => rfl
  | some k =>
      obtain ⟨hk, hrest⟩ := h.drop (standsInType_of_optionalArguments hparameters)
      simp only [List.drop_append_of_le_length hk.le, ← hrest.typeLength?_eq us vs]
      cases htype : typeLength? (ps.drop k ++ us) with
      | none => rfl
      | some n =>
          obtain ⟨hn, hbehind⟩ := hrest.drop (standsInType_of_type htype)
          simp only [List.drop_append_of_le_length hn.le]
          rcases hmore : (ps.drop k).drop n with _ | ⟨a, _ | ⟨b, more⟩⟩
          · exact absurd hmore hbehind.ne_nil
          · have ha : a.isName = false := by
              rw [hmore] at hbehind
              obtain ⟨g, hmem, hg⟩ := hbehind
              obtain rfl := List.mem_singleton.mp hmem
              exact hg.not_isName
            cases us <;> cases vs <;> simp [ha]
          · rfl

end Declarations

end Token

end CodeFrames
