import CodeFrames.Proofs.Lexing
import CodeFrames.Reading.Member

/-!
# What is told by looking ahead

The functions that look ahead read the kinds and texts of tokens and not their places.  How far they
look is bounded: a type is told by its own tokens and the two behind it, a group by the tokens through
its closer.
-/

namespace CodeFrames

namespace Token

/-! ## Places play no role -/

section Bare

variable (t : Token)

@[simp] theorem bare_kind : t.bare.kind = t.kind := rfl

@[simp] theorem bare_text : t.bare.text = t.text := rfl

@[simp] theorem isWord_bare (w : Text) : t.bare.isWord w = t.isWord w := rfl

@[simp] theorem isOperator_bare (op : Text) : t.bare.isOperator op = t.isOperator op := rfl

@[simp] theorem isOperatorIn_bare (ops : List Text) : t.bare.isOperatorIn ops = t.isOperatorIn ops := rfl

@[simp] theorem isWordIn_bare (ws : List Text) : t.bare.isWordIn ws = t.isWordIn ws := rfl

@[simp] theorem isAnyWord_bare : t.bare.isAnyWord = t.isAnyWord := rfl

@[simp] theorem isName_bare : t.bare.isName = t.isName := rfl

@[simp] theorem isEnd_bare : t.bare.isEnd = t.isEnd := rfl

@[simp] theorem isPrimitive_bare : t.bare.isPrimitive = t.isPrimitive := rfl

@[simp] theorem opensType_bare : t.bare.opensType = t.opensType := rfl

@[simp] theorem startsCastOperand_bare (primitive : Bool) :
    t.bare.startsCastOperand primitive = t.startsCastOperand primitive := rfl

@[simp] theorem typeArgumentChange?_bare : t.bare.typeArgumentChange? = t.typeArgumentChange? := rfl

end Bare

theorem groupLengthFrom?_bare (depth : Nat) (ts : List Token) :
    groupLengthFrom? depth (ts.map bare) = groupLengthFrom? depth ts := by
  induction ts generalizing depth with
  | nil => rfl
  | cons t ts ih => simp only [List.map_cons, groupLengthFrom?, bare_kind, isEnd_bare, ih]

theorem groupLength?_bare (ts : List Token) : groupLength? (ts.map bare) = groupLength? ts :=
  groupLengthFrom?_bare 0 ts

theorem typeArgumentsLengthFrom?_bare (depth : Int) (ts : List Token) :
    typeArgumentsLengthFrom? depth (ts.map bare) = typeArgumentsLengthFrom? depth ts := by
  induction ts generalizing depth with
  | nil => rfl
  | cons t ts ih => simp only [List.map_cons, typeArgumentsLengthFrom?, typeArgumentChange?_bare, ih]

theorem optionalArgumentsLength?_bare (ts : List Token) :
    optionalArgumentsLength? (ts.map bare) = optionalArgumentsLength? ts := by
  cases ts with
  | nil => rfl
  | cons t ts =>
      simp only [List.map_cons, optionalArgumentsLength?, isOperator_bare, typeArgumentsLength?]
      rw [← List.map_cons, typeArgumentsLengthFrom?_bare]
      rfl

theorem continuesQualified_bare (ts : List Token) :
    continuesQualified (ts.map bare) = continuesQualified ts := by
  rcases ts with _ | ⟨t, _ | ⟨u, ts⟩⟩ <;> rfl

theorem qualifiedLength?_bare (skip : Nat) (ts : List Token) :
    qualifiedLength? skip (ts.map bare) = qualifiedLength? skip ts := by
  induction ts generalizing skip with
  | nil => cases skip <;> rfl
  | cons t ts ih =>
      cases skip with
      | succ skip => simp only [List.map_cons, qualifiedLength?, ih]
      | zero =>
          simp only [List.map_cons, qualifiedLength?, ih]
          simp only [← List.map_cons, ← List.map_drop, optionalArgumentsLength?_bare,
            continuesQualified_bare]

theorem typeNameLength?_bare (ts : List Token) :
    typeNameLength? (ts.map bare) = typeNameLength? ts := by
  cases ts with
  | nil => rfl
  | cons t ts => simp only [List.map_cons, typeNameLength?, opensType_bare, qualifiedLength?_bare]

theorem dimensionsLength_bare (ts : List Token) :
    dimensionsLength (ts.map bare) = dimensionsLength ts := by
  fun_induction dimensionsLength ts with
  | case1 l r ts h ih => exact (if_pos h).trans (congrArg (· + 2) ih)
  | case2 l r ts h => exact if_neg h
  | case3 ts h =>
      rcases ts with _ | ⟨t, _ | ⟨u, ts⟩⟩
      · rfl
      · rfl
      · exact absurd rfl (h t u ts)

theorem typeLength?_bare (ts : List Token) : typeLength? (ts.map bare) = typeLength? ts := by
  simp only [typeLength?, typeNameLength?_bare, ← List.map_drop, dimensionsLength_bare]

theorem castLength?_bare (ts : List Token) : castLength? (ts.map bare) = castLength? ts := by
  rcases ts with _ | ⟨t, _ | ⟨u, ts⟩⟩
  · rfl
  · rfl
  · simp only [List.map_cons, castLength?, bare_kind]
    rw [← List.map_cons, typeLength?_bare]
    congr 2
    funext n
    rw [← List.map_drop]
    rcases (u :: ts).drop n with _ | ⟨v, _ | ⟨w, rest⟩⟩ <;> rfl

/-! ## Types -/

theorem typeArgumentsLengthFrom?_append {depth : Int} {ts : List Token} {rest : List Token} {n : Nat}
    (h : typeArgumentsLengthFrom? depth (ts ++ rest) = some n) (hn : n ≤ ts.length)
    (rest' : List Token) : typeArgumentsLengthFrom? depth (ts ++ rest') = some n := by
  induction ts generalizing depth n with
  | nil =>
      obtain rfl : n = 0 := by simpa using hn
      cases rest with
      | nil => cases h
      | cons t ts =>
          rw [List.nil_append, typeArgumentsLengthFrom?] at h
          simp only at h
          repeat' split at h
          all_goals simp at h
  | cons t ts ih =>
      rw [List.cons_append, typeArgumentsLengthFrom?] at h ⊢
      split at h
      · cases h
      · simp only at h ⊢
        split at h
        · rw [if_pos ‹_›, h]
        · split at h
          · cases h
          · rw [if_neg ‹_›, if_neg ‹_›]
            obtain ⟨m, hm, rfl⟩ := Option.map_eq_some_iff.mp h
            rw [ih hm (by simpa using hn)]
            rfl

theorem optionalArgumentsLength?_append {ts rest : List Token} {n : Nat}
    (h : optionalArgumentsLength? (ts ++ rest) = some n) (hne : ts ≠ []) (hn : n ≤ ts.length)
    (rest' : List Token) : optionalArgumentsLength? (ts ++ rest') = some n := by
  cases ts with
  | nil => exact absurd rfl hne
  | cons t ts =>
      rw [List.cons_append, optionalArgumentsLength?] at h ⊢
      split at h
      · rw [if_pos ‹_›]
        exact typeArgumentsLengthFrom?_append (show typeArgumentsLengthFrom? 0 (t :: ts ++ rest) = some n
          from h) hn rest'
      · rw [if_neg ‹_›, h]

theorem continuesQualified_append {ts : List Token} (h : 2 ≤ ts.length) (rest : List Token) :
    continuesQualified (ts ++ rest) = continuesQualified ts := by
  rcases ts with _ | ⟨t, _ | ⟨u, ts⟩⟩
  · simp at h
  · simp at h
  · rfl

theorem le_of_qualifiedLength? {skip n : Nat} {ts : List Token}
    (h : qualifiedLength? skip ts = some n) (hskip : skip ≤ ts.length) : skip ≤ n := by
  induction ts generalizing skip n with
  | nil =>
      obtain rfl : skip = 0 := by simpa using hskip
      exact Nat.zero_le n
  | cons t ts ih =>
      cases skip with
      | zero => exact Nat.zero_le n
      | succ skip =>
          obtain ⟨m, hm, rfl⟩ := Option.map_eq_some_iff.mp h
          exact Nat.succ_le_succ (ih hm (by simpa using hskip))

theorem exists_of_continuesQualified {ts : List Token} (h : continuesQualified ts = true) :
    ∃ dot name rest, ts = dot :: name :: rest ∧ dot.kind = .dot ∧ name.isName = true := by
  rcases ts with _ | ⟨t, _ | ⟨u, rest⟩⟩
  · cases h
  · cases h
  · obtain ⟨hdot, hname⟩ := by simpa [continuesQualified] using h
    exact ⟨t, u, rest, rfl, hdot, hname⟩

theorem le_of_continuesQualified {n : Nat} {ts : List Token}
    (h : continuesQualified (ts.drop n) = true) : n + 2 ≤ ts.length := by
  have hlength : (ts.drop n).length = ts.length - n := List.length_drop
  obtain ⟨dot, name, rest, hdrop, -, -⟩ := exists_of_continuesQualified h
  rw [hdrop, List.length_cons, List.length_cons] at hlength
  omega

theorem qualifiedLength?_append {skip n : Nat} {ts rest : List Token}
    (h : qualifiedLength? skip (ts ++ rest) = some n) (hn : n + 2 ≤ ts.length)
    (rest' : List Token) : qualifiedLength? skip (ts ++ rest') = some n := by
  induction ts generalizing skip n with
  | nil => simp at hn
  | cons t ts ih =>
      cases skip with
      | succ skip =>
          obtain ⟨m, hm, rfl⟩ := Option.map_eq_some_iff.mp h
          rw [List.cons_append, qualifiedLength?, ih hm (by simp at hn; omega)]
          rfl
      | zero =>
          rw [List.cons_append, qualifiedLength?, ← List.cons_append] at h ⊢
          obtain ⟨m, hm, h⟩ := Option.bind_eq_some_iff.mp h
          have hle : m ≤ n := by
            split at h
            · next hmore =>
                obtain ⟨k, hk, rfl⟩ := Option.map_eq_some_iff.mp h
                have hlength := le_of_continuesQualified hmore
                have := le_of_qualifiedLength? hk (by simp at hlength ⊢; omega)
                omega
            · obtain rfl : m = n := by simpa using h
              exact Nat.le_refl m
          have hdrop (rest : List Token) : continuesQualified ((t :: ts ++ rest).drop m) =
              continuesQualified ((t :: ts).drop m) := by
            rw [List.drop_append_of_le_length (by omega), continuesQualified_append]
            rw [List.length_drop]
            omega
          rw [optionalArgumentsLength?_append hm (by simp) (by omega) rest', Option.bind_eq_bind,
            Option.bind_some, hdrop]
          rw [hdrop] at h
          split at h
          · rw [if_pos ‹_›]
            obtain ⟨k, hk, rfl⟩ := Option.map_eq_some_iff.mp h
            rw [ih hk (by simp at hn; omega)]
            rfl
          · rw [if_neg ‹_›, h]

theorem typeNameLength?_append {n : Nat} {ts rest : List Token}
    (h : typeNameLength? (ts ++ rest) = some n) (hn : n + 2 ≤ ts.length) (rest' : List Token) :
    typeNameLength? (ts ++ rest') = some n := by
  cases ts with
  | nil => simp at hn
  | cons t ts =>
      rw [List.cons_append, typeNameLength?] at h ⊢
      split at h
      · rw [if_pos ‹_›]
        obtain ⟨m, hm, rfl⟩ := Option.map_eq_some_iff.mp h
        rw [qualifiedLength?_append hm (by simp at hn; omega)]
        rfl
      · cases h

theorem dimensionsLength_append {ts rest : List Token}
    (hn : dimensionsLength (ts ++ rest) + 2 ≤ ts.length) (rest' : List Token) :
    dimensionsLength (ts ++ rest') = dimensionsLength (ts ++ rest) := by
  fun_induction dimensionsLength ts with
  | case1 l r ts h ih =>
      have hmore (rest : List Token) :
          dimensionsLength (l :: r :: ts ++ rest) = dimensionsLength (ts ++ rest) + 2 := if_pos h
      rw [hmore] at hn
      rw [hmore, hmore, ih (by simp at hn; omega)]
  | case2 l r ts h =>
      have hnone (rest : List Token) : dimensionsLength (l :: r :: ts ++ rest) = 0 := if_neg h
      rw [hnone, hnone]
  | case3 ts h =>
      rcases ts with _ | ⟨t, _ | ⟨u, ts⟩⟩
      · simp at hn
      · simp at hn
      · exact absurd rfl (h t u ts)

/-- A type is told by its own tokens and the two behind it. -/
theorem typeLength?_append {n : Nat} {ts rest : List Token}
    (h : typeLength? (ts ++ rest) = some n) (hn : n + 2 ≤ ts.length) (rest' : List Token) :
    typeLength? (ts ++ rest') = some n := by
  obtain ⟨m, hm, rfl⟩ := Option.map_eq_some_iff.mp h
  have hname := typeNameLength?_append hm (by omega) rest'
  have hdrop (rest : List Token) : (ts ++ rest).drop m = ts.drop m ++ rest :=
    List.drop_append_of_le_length (by omega)
  rw [hdrop] at hn ⊢
  have hdimensions := dimensionsLength_append (show dimensionsLength (ts.drop m ++ rest) + 2 ≤ (ts.drop m).length by
    rw [List.length_drop]; omega) rest'
  rw [typeLength?, hname, Option.map_some, hdrop, hdimensions]

/-! ## The tokens of types -/

theorem kind_of_isName {t : Token} (h : t.isName = true) : t.kind = .word := by
  simp only [isName, isAnyWord, Bool.and_eq_true, decide_eq_true_eq] at h
  exact h.1

theorem kind_of_isWordIn {t : Token} {words : List Text} (h : t.isWordIn words = true) : t.kind = .word := by
  rw [isWordIn, Bool.and_eq_true] at h
  simpa [isAnyWord] using h.1

theorem kind_of_opensType {t : Token} (h : t.opensType = true) : t.kind = .word := by
  simp only [opensType, isPrimitive, isWordIn, isAnyWord, Bool.or_eq_true, Bool.and_eq_true,
    decide_eq_true_eq] at h
  rcases h with h | h
  · exact h.1
  · exact kind_of_isName h

theorem bare_of_isOperator {t : Token} {op : Text} (h : t.isOperator op = true) :
    t.bare = symbol .operator op := by
  simp only [isOperator, Bool.and_eq_true, decide_eq_true_eq] at h
  rw [bare, h.1, h.2]
  rfl

theorem change_of_kind {t : Token}
    (h : t.kind = .dot ∨ t.kind = .comma ∨ t.kind = .openBracket ∨ t.kind = .closeBracket) :
    t.typeArgumentChange? = some 0 := by
  rcases h with h | h | h | h <;> simp [typeArgumentChange?, h]

theorem change_of_opensType {t : Token} (h : t.opensType = true) :
    t.typeArgumentChange? = some 0 := by
  simp [typeArgumentChange?, kind_of_opensType h, h]

/-- The token can be part of a type. -/
def StandsInType (t : Token) : Prop := t.typeArgumentChange? ≠ none

theorem standsInType_of_kind {t : Token}
    (h : t.kind = .dot ∨ t.kind = .comma ∨ t.kind = .openBracket ∨ t.kind = .closeBracket) :
    t.StandsInType := by simp [StandsInType, change_of_kind h]

theorem standsInType_of_opensType {t : Token} (h : t.opensType = true) : t.StandsInType := by
  simp [StandsInType, change_of_opensType h]

theorem opensType_of_isName {t : Token} (h : t.isName = true) : t.opensType = true := by
  rw [opensType, h, Bool.or_true]

theorem standsInType_of_typeArguments {depth : Int} {ts : List Token} {n : Nat}
    (h : typeArgumentsLengthFrom? depth ts = some n) : ∀ t ∈ ts.take n, t.StandsInType := by
  induction ts generalizing depth n with
  | nil => cases h
  | cons t ts ih =>
      rw [typeArgumentsLengthFrom?] at h
      split at h
      · cases h
      · next change hchange =>
          have ht : t.StandsInType := by simp [StandsInType, hchange]
          simp only at h
          split at h
          · obtain rfl : 1 = n := by simpa using h
            simpa using ht
          · split at h
            · cases h
            · obtain ⟨m, hm, rfl⟩ := Option.map_eq_some_iff.mp h
              simpa using ⟨ht, ih hm⟩

theorem standsInType_of_optionalArguments {ts : List Token} {n : Nat}
    (h : optionalArgumentsLength? ts = some n) : ∀ t ∈ ts.take n, t.StandsInType := by
  cases ts with
  | nil => simp
  | cons t ts =>
      rw [optionalArgumentsLength?] at h
      split at h
      · exact standsInType_of_typeArguments h
      · obtain rfl : 0 = n := by simpa using h
        simp

theorem standsInType_of_qualified {skip n : Nat} {ts : List Token}
    (h : qualifiedLength? skip ts = some n) (hskip : ∀ t ∈ ts.take skip, t.StandsInType) :
    ∀ t ∈ ts.take n, t.StandsInType := by
  induction ts generalizing skip n with
  | nil => simp
  | cons t ts ih =>
      cases skip with
      | succ skip =>
          obtain ⟨m, hm, rfl⟩ := Option.map_eq_some_iff.mp h
          simp only [List.take_succ_cons, List.mem_cons, forall_eq_or_imp] at hskip ⊢
          exact ⟨hskip.1, ih hm hskip.2⟩
      | zero =>
          rw [qualifiedLength?] at h
          obtain ⟨m, hm, h⟩ := Option.bind_eq_some_iff.mp h
          have harguments := standsInType_of_optionalArguments hm
          split at h
          · next hmore =>
              have hfirst : ∀ u ∈ (t :: ts).take (m + 2), u.StandsInType := by
                obtain ⟨dot, name, rest, hdrop, hdot, hname⟩ := exists_of_continuesQualified hmore
                rw [List.take_add, hdrop]
                intro u hu
                rcases List.mem_append.mp hu with hu | hu
                · exact harguments u hu
                · rcases List.mem_cons.mp hu with rfl | hu
                  · exact standsInType_of_kind (.inl hdot)
                  · obtain rfl : u = name := by simpa using hu
                    exact standsInType_of_opensType (opensType_of_isName hname)
              obtain ⟨k, hk, rfl⟩ := Option.map_eq_some_iff.mp h
              simp only [List.take_succ_cons, List.mem_cons, forall_eq_or_imp] at hfirst ⊢
              exact ⟨hfirst.1, ih hk hfirst.2⟩
          · obtain rfl : m = n := by simpa using h
            exact harguments

theorem standsInType_of_dimensions (ts : List Token) :
    ∀ t ∈ ts.take (dimensionsLength ts), t.StandsInType := by
  fun_induction dimensionsLength ts with
  | case1 l r ts h ih =>
      simp only [Bool.and_eq_true, decide_eq_true_eq] at h
      simp only [List.take_succ_cons, List.mem_cons, forall_eq_or_imp]
      exact ⟨standsInType_of_kind (by simp [h.1]), standsInType_of_kind (by simp [h.2]), ih⟩
  | case2 => simp
  | case3 => simp

theorem standsInType_of_typeName {ts : List Token} {n : Nat} (h : typeNameLength? ts = some n) :
    ∀ t ∈ ts.take n, t.StandsInType := by
  cases ts with
  | nil => simp
  | cons t ts =>
      rw [typeNameLength?] at h
      split at h
      · next hopens =>
          obtain ⟨k, hk, rfl⟩ := Option.map_eq_some_iff.mp h
          simp only [List.take_succ_cons, List.mem_cons, forall_eq_or_imp]
          exact ⟨standsInType_of_opensType hopens, standsInType_of_qualified hk (by simp)⟩
      · cases h

theorem standsInType_of_type {ts : List Token} {n : Nat} (h : typeLength? ts = some n) :
    ∀ t ∈ ts.take n, t.StandsInType := by
  obtain ⟨m, hm, rfl⟩ := Option.map_eq_some_iff.mp h
  intro t ht
  rw [List.take_add] at ht
  rcases List.mem_append.mp ht with ht | ht
  · exact standsInType_of_typeName hm t ht
  · exact standsInType_of_dimensions _ t ht

/-- What only certain tokens are part of does not reach over another one. -/
theorem le_length_of_forall_take {P : Token → Prop} {ts rest : List Token} {t : Token} {n : Nat}
    (h : ∀ u ∈ (ts ++ t :: rest).take n, P u) (ht : ¬ P t) : n ≤ ts.length := by
  refine Nat.le_of_not_lt fun hlt => ht (h t ?_)
  rw [List.take_append, List.take_cons (by omega)]
  exact List.mem_append_right _ List.mem_cons_self

/-- The kinds of the tokens that types are made of. -/
def typeKinds : List Kind := [.word, .operator, .dot, .comma, .openBracket, .closeBracket]

theorem typeKinds_of_standsInType {t : Token} (h : t.StandsInType) : t.kind ∈ typeKinds := by
  rw [StandsInType, typeArgumentChange?.eq_def] at h
  cases hkind : t.kind <;> rw [hkind] at h <;> first | decide | exact absurd rfl h

theorem typeKinds_of_typeArguments {depth : Int} {ts : List Token} {n : Nat}
    (h : typeArgumentsLengthFrom? depth ts = some n) : ∀ t ∈ ts.take n, t.kind ∈ typeKinds :=
  fun t ht => typeKinds_of_standsInType (standsInType_of_typeArguments h t ht)

theorem typeKinds_of_typeName {ts : List Token} {n : Nat} (h : typeNameLength? ts = some n) :
    ∀ t ∈ ts.take n, t.kind ∈ typeKinds :=
  fun t ht => typeKinds_of_standsInType (standsInType_of_typeName h t ht)

theorem typeKinds_of_type {ts : List Token} {n : Nat} (h : typeLength? ts = some n) :
    ∀ t ∈ ts.take n, t.kind ∈ typeKinds :=
  fun t ht => typeKinds_of_standsInType (standsInType_of_type h t ht)

/-! ## Casts -/

theorem castLength?_eq_some {ts : List Token} {n : Nat} :
    castLength? ts = some n ↔ ∃ paren type rest m close operand more,
      ts = paren :: type :: rest ∧ paren.kind = .openParen ∧
      typeLength? (type :: rest) = some m ∧ (type :: rest).drop m = close :: operand :: more ∧
      close.kind = .closeParen ∧ startsCastOperand type.isPrimitive operand = true ∧ m + 2 = n := by
  constructor
  · intro h
    rcases ts with _ | ⟨paren, _ | ⟨type, rest⟩⟩
    · cases h
    · cases h
    rw [castLength?] at h
    split at h
    case isFalse => cases h
    case isTrue hparen =>
      obtain ⟨m, hm, h⟩ := Option.bind_eq_some_iff.mp h
      split at h
      case h_2 => cases h
      case h_1 close operand more hdrop =>
        split at h
        case isFalse => cases h
        case isTrue htest =>
          obtain ⟨hclose, hoperand⟩ := by
            simpa only [Bool.and_eq_true, decide_eq_true_eq] using htest
          exact ⟨paren, type, rest, m, close, operand, more, rfl, hparen, hm, hdrop, hclose,
            hoperand, by simpa using h⟩
  · rintro ⟨paren, type, rest, m, close, operand, more, rfl, hparen, hm, hdrop, hclose, hoperand,
      rfl⟩
    rw [castLength?, if_pos hparen, hm, Option.bind_some, hdrop]
    simp [hclose, hoperand]

/-- A cast is told by its own tokens and the one behind it. -/
theorem castLength?_of_lt {ts rest : List Token} {n : Nat} (h : castLength? (ts ++ rest) = some n)
    (hn : n < ts.length) (rest' : List Token) : castLength? (ts ++ rest') = some n := by
  obtain ⟨paren, type, more, m, close, operand, behind, happend, hparen, hm, hdrop, hkind, hoperand,
    rfl⟩ := castLength?_eq_some.mp h
  rcases ts with _ | ⟨paren, _ | ⟨type, ts⟩⟩
  · simp at hn
  · simp at hn
  obtain ⟨rfl, rfl, rfl⟩ := by simpa using happend
  rw [← List.cons_append] at hm hdrop
  have hbefore : m + 2 ≤ (type :: ts).length := by
    simp only [List.length_cons] at hn ⊢
    omega
  rw [List.drop_append_of_le_length (by omega)] at hdrop
  have hlength := List.length_drop (i := m) (l := type :: ts)
  refine castLength?_eq_some.mpr ⟨_, type, ts ++ rest', m, close, operand,
    ((type :: ts).drop m).drop 2 ++ rest', rfl, hparen, typeLength?_append hm hbefore rest', ?_, hkind,
    hoperand, rfl⟩
  rw [← List.cons_append, List.drop_append_of_le_length (by omega)]
  rcases hdrop' : (type :: ts).drop m with _ | ⟨t, _ | ⟨u, others⟩⟩
  · rw [hdrop'] at hlength
    simp at hlength hbefore
    omega
  · rw [hdrop'] at hlength
    simp at hlength hbefore
    omega
  · rw [hdrop'] at hdrop
    obtain ⟨rfl, rfl, -⟩ := by simpa using hdrop
    rfl

/-- A closing parenthesis that nothing behind it makes part of a cast is in front of the end of one. -/
theorem castLength?_append {ts rest : List Token} {n : Nat} (h : castLength? (ts ++ rest) = some n)
    (hclose : ∃ t ∈ ts.tail, t.kind = .closeParen)
    (hrest : ∀ t ∈ rest.head?, ∀ primitive, t.startsCastOperand primitive = false)
    (rest' : List Token) : castLength? (ts ++ rest') = some n ∧ n < ts.length := by
  suffices hn : n < ts.length from ⟨castLength?_of_lt h hn rest', hn⟩
  obtain ⟨paren, type, more, m, close, operand, behind, happend, hparen, hm, hdrop, hkind, hoperand,
    rfl⟩ := castLength?_eq_some.mp h
  obtain ⟨last, hmem, hlast⟩ := hclose
  rcases ts with _ | ⟨paren, _ | ⟨type, ts⟩⟩
  · simp at hmem
  · simp at hmem
  obtain ⟨rfl, rfl, rfl⟩ := by simpa using happend
  rw [← List.cons_append] at hm hdrop
  have hinside : m < (type :: ts).length := by
    obtain ⟨before, behind, hsplit⟩ := List.append_of_mem hmem
    have hsplit : type :: ts = before ++ last :: behind := hsplit
    have htypes := typeKinds_of_type hm
    rw [hsplit, List.append_assoc, List.cons_append] at htypes
    have hle := le_length_of_forall_take htypes (by simp [hlast, typeKinds])
    rw [hsplit, List.length_append, List.length_cons]
    omega
  rw [List.drop_append_of_le_length (by omega)] at hdrop
  refine Nat.lt_of_not_le fun hle => ?_
  have hlength : ((type :: ts).drop m).length = 1 := by
    rw [List.length_drop]
    simp only [List.length_cons] at hinside hle ⊢
    omega
  obtain ⟨final, hfinal⟩ := List.length_eq_one_iff.mp hlength
  rw [hfinal, List.singleton_append, List.cons.injEq] at hdrop
  have hhead : operand ∈ rest.head? := by simp [hdrop.2]
  rw [hrest operand hhead] at hoperand
  cases hoperand

/-! ## Groups -/

/-- An opening bracket and the closing one that belongs to it. -/
def Kind.matches : Kind → Kind → Bool
  | .openParen, .closeParen | .openBrace, .closeBrace | .openBracket, .closeBracket => true
  | _, _ => false

/-- Tokens in which every bracket belongs to another one, and pairs do not cross. -/
inductive Nested : List Token → Prop
  | nil : Nested []
  | plain {t ts} : ¬ t.kind.isOpener → ¬ t.kind.isCloser → ¬ t.isEnd → Nested ts → Nested (t :: ts)
  | group {opener closer inside ts} : Kind.matches opener.kind closer.kind → Nested inside →
      Nested ts → Nested (opener :: (inside ++ closer :: ts))

theorem matches_cases {k l : Kind} (h : Kind.matches k l = true) :
    k = .openParen ∧ l = .closeParen ∨ k = .openBrace ∧ l = .closeBrace ∨
      k = .openBracket ∧ l = .closeBracket := by
  unfold Kind.matches at h
  split at h
  · exact .inl ⟨rfl, rfl⟩
  · exact .inr (.inl ⟨rfl, rfl⟩)
  · exact .inr (.inr ⟨rfl, rfl⟩)
  · cases h

theorem isOpener_of_matches {k l : Kind} (h : Kind.matches k l = true) :
    k.isOpener = true ∧ l.isOpener = false ∧ l.isCloser = true := by
  rcases matches_cases h with ⟨rfl, rfl⟩ | ⟨rfl, rfl⟩ | ⟨rfl, rfl⟩ <;> decide

/-- A closing bracket belongs to one kind of opening ones. -/
theorem eq_of_matches {k l closer : Kind} (hk : Kind.matches k closer = true)
    (hl : Kind.matches l closer = true) : k = l := by
  rcases matches_cases hk with ⟨rfl, rfl⟩ | ⟨rfl, rfl⟩ | ⟨rfl, rfl⟩ <;>
    rcases matches_cases hl with ⟨rfl, h⟩ | ⟨rfl, h⟩ | ⟨rfl, h⟩ <;> first | rfl | cases h

theorem groupLengthFrom?_opener {t : Token} (h : t.kind.isOpener = true) (depth : Nat)
    (ts : List Token) :
    groupLengthFrom? depth (t :: ts) = (groupLengthFrom? (depth + 1) ts).map (· + 1) := by
  rw [groupLengthFrom?.eq_def]
  simp only [h, if_true]

theorem groupLengthFrom?_closer {t : Token} (h : t.kind.isOpener = false)
    (hcloser : t.kind.isCloser = true) (depth : Nat) (ts : List Token) :
    groupLengthFrom? (depth + 2) (t :: ts) = (groupLengthFrom? (depth + 1) ts).map (· + 1) := by
  rw [groupLengthFrom?.eq_def]
  simp [h, hcloser]

theorem groupLengthFrom?_plain {t : Token} (h : ¬ t.kind.isOpener) (hcloser : ¬ t.kind.isCloser)
    (hend : ¬ t.isEnd) (depth : Nat) (ts : List Token) :
    groupLengthFrom? depth (t :: ts) = (groupLengthFrom? depth ts).map (· + 1) := by
  rw [groupLengthFrom?.eq_def]
  simp only [h, hcloser, hend, if_false, Bool.false_eq_true]

theorem groupLengthFrom?_nested {inside : List Token} (h : Nested inside) (depth : Nat)
    (rest : List Token) : groupLengthFrom? (depth + 1) (inside ++ rest) =
      (groupLengthFrom? (depth + 1) rest).map (· + inside.length) := by
  induction h generalizing depth rest with
  | nil => simp
  | plain hopener hcloser hend hts ih =>
      rw [List.cons_append, groupLengthFrom?_plain hopener hcloser hend, ih, Option.map_map]
      rfl
  | group hmatches hinside hts ihinside ihts =>
      obtain ⟨hopener, hnot, hcloser⟩ := isOpener_of_matches hmatches
      rw [List.cons_append, groupLengthFrom?_opener hopener, List.append_assoc, ihinside,
        List.cons_append, groupLengthFrom?_closer hnot hcloser, ihts]
      simp only [Option.map_map]
      congr 1
      funext n
      simp
      omega

/-- A group is told by the tokens through its closing bracket. -/
theorem groupLength?_nested {opener closer : Token} {inside : List Token}
    (hmatches : Kind.matches opener.kind closer.kind = true) (h : Nested inside)
    (rest : List Token) :
    groupLength? (opener :: (inside ++ closer :: rest)) = some (inside.length + 2) := by
  obtain ⟨hopener, hnot, hcloser⟩ := isOpener_of_matches hmatches
  have hlast : groupLengthFrom? 1 (closer :: rest) = some 1 := by
    rw [groupLengthFrom?.eq_def]
    simp [hnot, hcloser]
  rw [groupLength?, groupLengthFrom?_opener hopener, groupLengthFrom?_nested h, hlast]
  simp
  omega

end Token

end CodeFrames
