import CodeFrames.Proofs.Standing
import CodeFrames.Proofs.Progress

/-!
# How statements and members are told

What the first tokens of a statement or a member say about it, over tokens without their places.
-/

namespace CodeFrames

open Token

namespace Reading

variable {c : Cursor} {w : Text}

theorem statementShape_of_word {shape : StatementShape} (hhere : c.here.bare = symbol .word w)
    (hw : statementWords.lookup w = some shape) : statementShape c = shape := by
  have hkind : c.here.kind = .word := congrArg Token.kind hhere
  have htext : c.here.text = w := congrArg Token.text hhere
  rw [statementShape, hkind]
  simp only [wordStatementShape, htext, hw]

theorem modifierLengths_of_word {ts : List Token} {t : Token} (hw : t.text ∉ modifierWords)
    (hkind : t.kind ≠ .atSign) : modifierLengths (t :: ts) = [] := by
  have hlength : modifierLength (t :: ts) = 0 := by
    simp [modifierLength, isWordIn, hw, hkind]
  rw [modifierLengths, modifierLengthsFrom, hlength]

/-- The words that a statement can start with, and nothing else. -/
def opensStatement (w : Text) : Bool :=
  keywords.contains w && !primitiveTypes.contains w && !modifierWords.contains w &&
    !typeWords.contains w && !(["import".toList, "package".toList].contains w)

theorem memberShape_of_word (hhere : c.here.bare = symbol .word w) (hw : opensStatement w = true) :
    memberShape c = .statement := by
  have hkind : c.here.kind = .word := congrArg Token.kind hhere
  have htext : c.here.text = w := congrArg Token.text hhere
  simp only [opensStatement, Bool.and_eq_true, Bool.not_eq_true', List.contains_eq_mem,
    decide_eq_true_eq, decide_eq_false_iff_not] at hw
  obtain ⟨⟨⟨⟨hkeyword, hprimitive⟩, hmodifier⟩, htype⟩, hdirective⟩ := hw
  have hword (words : List Text) (h : w ∉ words) : c.here.isWordIn words = false := by
    simp [isWordIn, htext, h]
  have hname : c.here.isName = false := by simp [isName, htext, hkeyword]
  have hcount : c.modifierCount = 0 := by
    rw [Cursor.modifierCount, Cursor.tokens, modifierLengths_of_word (by rwa [htext]) (by simp [hkind])]
    rfl
  have hconstructor : declaresConstructor (c.here :: c.ahead) = false := by
    simp [declaresConstructor, hname]
  have hmethod : declaresMethod (c.here :: c.ahead) = false := by
    have hopens : c.here.opensType = false := by
      simp [opensType, isPrimitive, hword primitiveTypes hprimitive, hname]
    simp [declaresMethod, optionalArgumentsLength?, isOperator, hkind, typeLength?, typeNameLength?,
      hopens]
  rw [memberShape, hword _ hdirective, hcount]
  simp only [Bool.false_eq_true, if_false, List.drop_zero, Cursor.tokens, declarationShape,
    hword typeWords htype, Bool.false_and, hkind, hconstructor, hmethod]
  simp

/-! ## Tokens without their places -/

theorem declaresVariable_bare (ts : List Token) :
    declaresVariable (ts.map bare) = declaresVariable ts := by
  rw [declaresVariable, declaresVariable, typeLength?_bare]
  cases typeLength? ts with
  | none => rfl
  | some n =>
      simp only [← List.map_drop]
      rcases ts.drop n with _ | ⟨name, _ | ⟨next, rest⟩⟩ <;> rfl

theorem declaresConstructor_bare (ts : List Token) :
    declaresConstructor (ts.map bare) = declaresConstructor ts := by
  cases ts with
  | nil => rfl
  | cons name rest =>
      rw [List.map_cons, declaresConstructor, declaresConstructor, groupLength?_bare]
      cases groupLength? rest with
      | none => cases rest <;> rfl
      | some n =>
          simp only [List.getElem?_map, List.head?_map, Option.any_map]
          rfl

theorem declaresMethod_bare (ts : List Token) : declaresMethod (ts.map bare) = declaresMethod ts := by
  rw [declaresMethod, declaresMethod, optionalArgumentsLength?_bare]
  cases optionalArgumentsLength? ts with
  | none => rfl
  | some parameters =>
      simp only [← List.map_drop, typeLength?_bare]
      cases typeLength? (ts.drop parameters) with
      | none => rfl
      | some n =>
          simp only
          rcases (ts.drop parameters).drop n with _ | ⟨name, _ | ⟨paren, rest⟩⟩ <;> rfl

theorem declarationShape_bare (n : Nat) (ts : List Token) :
    declarationShape n (ts.map bare) = declarationShape n ts := by
  cases ts with
  | nil => rfl
  | cons head rest =>
      have hconstructor := declaresConstructor_bare (head :: rest)
      have hmethod := declaresMethod_bare (head :: rest)
      rw [List.map_cons] at hconstructor hmethod ⊢
      rw [declarationShape, declarationShape, hconstructor, hmethod]
      cases rest <;> rfl

/-! ## Modifiers -/

/-- Modifiers that are words, none of which can open a statement. -/
def AreModifiers (words : List Text) : Prop :=
  ∀ w ∈ words, w ∈ modifierWords ∧ w ≠ "synchronized".toList

theorem modifierLengths_append {words : List Text} (hwords : AreModifiers words) {ts rest : List Token}
    (hts : ts.map bare = words.map (symbol .word)) (hrest : modifierLengths rest = []) :
    modifierLengths (ts ++ rest) = List.replicate words.length 1 := by
  induction words generalizing ts with
  | nil =>
      obtain rfl := List.map_eq_nil_iff.mp hts
      exact hrest
  | cons w words ih =>
      obtain ⟨t, ts, rfl, ht, hmore⟩ := List.map_eq_cons_iff.mp hts
      obtain ⟨hmember, hsynchronized⟩ := hwords w List.mem_cons_self
      have hkind : t.kind = .word := congrArg Token.kind ht
      have htext : t.text = w := congrArg Token.text ht
      have hlength : modifierLength (t :: (ts ++ rest)) = 1 := by
        have hnot : t.isWord "synchronized".toList = false := by
          rw [isWord, htext, Bool.and_eq_false_iff]
          exact .inr (decide_eq_false hsynchronized)
        rw [modifierLength, if_pos (by simp [isWordIn, isAnyWord, hkind, htext, hmember]), hnot]
        rfl
      rw [List.cons_append, modifierLengths, modifierLengthsFrom, hlength]
      exact congrArg (1 :: ·) (ih (fun v hv => hwords v (List.mem_cons_of_mem w hv)) hmore)

theorem spansOf_replicate {n : Nat} {ts rest : List Token} (h : ts.length = n) :
    spansOf (List.replicate n 1) (ts ++ rest) = ts.map Token.toSpan := by
  induction n generalizing ts with
  | zero =>
      obtain rfl := List.eq_nil_of_length_eq_zero h
      rfl
  | succ n ih =>
      cases ts with
      | nil => cases h
      | cons t ts =>
          rw [List.replicate_succ, List.cons_append, spansOf, List.map_cons]
          exact congrArg (t.toSpan :: ·) (ih (Nat.succ.inj h))

/-! ## Declarations -/

variable {ps rest ts : List Token} {p t n next : Token}

theorem Token.typeLength?_single (hp : p.opensType = true) (hless : t.isOperator ['<'] = false)
    (hdot : t.kind ≠ .dot) (hbracket : t.kind ≠ .openBracket) :
    typeLength? (p :: t :: ts) = some 1 := by
  have hmore : continuesQualified (t :: ts) = false :=
    TypeName.not_continuesQualified (by simpa using hdot)
  have hqualified : qualifiedLength? 0 (t :: ts) = some 0 := by
    refine TypeName.qualifiedLength?_last ?_ (by simpa using hmore)
    simp [optionalArgumentsLength?, hless]
  rw [typeLength?, typeNameLength?, if_pos hp, hqualified]
  cases ts <;> simp [dimensionsLength, hbracket]

/-- What can stand behind the first token of a type in front of a name. -/
theorem second_of_type (hwhole : TypeName.Whole (ps.flatMap angles)) (hn : n.kind = .word)
    (h : ps ++ n :: rest = p :: t :: ts) :
    t.kind = .word ∨ t.isOperator ['<'] = true ∨ t.kind = .dot ∨ t.kind = .openBracket := by
  by_cases hless : t.isOperator ['<'] = true
  · exact .inr (.inl hless)
  by_cases hdot : t.kind = .dot
  · exact .inr (.inr (.inl hdot))
  by_cases hbracket : t.kind = .openBracket
  · exact .inr (.inr (.inr hbracket))
  obtain ⟨q, qs, rfl, hopens⟩ := TypeName.exists_first_of_whole hwhole
  obtain ⟨rfl, hrest⟩ := List.cons.inj h
  have hlength := @TypeName.typeLength?_of_whole _ (n :: rest) hwhole
    (by simp [TypeName.Ends, isOperator, hn])
  rw [h, Token.typeLength?_single hopens (by simpa using hless) hdot hbracket] at hlength
  obtain rfl : qs = [] := by simpa using hlength
  obtain ⟨rfl, -⟩ := List.cons.inj hrest
  exact .inl hn

theorem ends_of_word (hn : n.kind = .word) : TypeName.Ends (n :: rest) := by
  simp [TypeName.Ends, isOperator, hn]

/-- A type and a name do not look like the header of a constructor. -/
theorem not_declaresConstructor (hwhole : TypeName.Whole (ps.flatMap angles)) (hn : n.kind = .word) :
    declaresConstructor (ps ++ n :: rest) = false := by
  obtain ⟨p, qs, rfl, -⟩ := TypeName.exists_first_of_whole hwhole
  obtain ⟨t, ts, hts⟩ := List.exists_cons_of_ne_nil (l := qs ++ n :: rest) (by simp)
  have hkind : t.kind ≠ .openParen := by
    rcases second_of_type hwhole hn (congrArg (p :: ·) hts) with h | h | h | h
    · simp [h]
    · simp only [isOperator, Bool.and_eq_true, decide_eq_true_eq] at h
      simp [h.1]
    · simp [h]
    · simp [h]
  rw [List.cons_append, hts, declaresConstructor]
  simp [hkind]

theorem declaresMethod_of_type (hwhole : TypeName.Whole (ps.flatMap angles)) (hn : n.isName = true) :
    declaresMethod (ps ++ n :: next :: rest) = decide (next.kind = .openParen) := by
  obtain ⟨p, qs, rfl, hopens⟩ := TypeName.exists_first_of_whole hwhole
  have hparameters : optionalArgumentsLength? (p :: (qs ++ n :: next :: rest)) = some 0 := by
    simp [optionalArgumentsLength?, isOperator, kind_of_opensType hopens]
  have hlength := TypeName.typeLength?_of_whole hwhole (@ends_of_word (next :: rest) n (kind_of_isName hn))
  rw [List.cons_append] at hlength ⊢
  rw [declaresMethod, hparameters]
  simp only [List.drop_zero, hlength]
  rw [← List.cons_append, List.drop_left]
  simp [hn]

theorem declaresVariable_of_type (hwhole : TypeName.Whole (ps.flatMap angles)) (hn : n.isName = true)
    (hnext : (next.isOperator ['='] || next.kind = .comma || next.kind = .semicolon) = true) :
    declaresVariable (ps ++ n :: next :: rest) = true := by
  have hlength := TypeName.typeLength?_of_whole hwhole (@ends_of_word (next :: rest) n (kind_of_isName hn))
  rw [declaresVariable, hlength]
  simp only [List.drop_left, hn, hnext, Bool.and_self]

/-! ## Words that start no type -/

theorem not_mem_of_opensType {words : List Text} (hp : p.opensType = true)
    (hwords : ∀ w ∈ words, w ∈ keywords ∧ w ∉ primitiveTypes) : p.text ∉ words := by
  intro hmem
  obtain ⟨hkeyword, hprimitive⟩ := hwords _ hmem
  simp [opensType, isPrimitive, isWordIn, isName, hkeyword, hprimitive] at hp

theorem not_typeWord (hp : p.opensType = true) (hrecord : p.isWord "record".toList = false) :
    p.isWordIn typeWords = false := by
  have hkind := kind_of_opensType hp
  have hothers : p.text ∉ ["class".toList, "interface".toList, "enum".toList] :=
    not_mem_of_opensType hp (by decide)
  have hword : p.text ≠ "record".toList := by
    intro htext
    rw [isWord, hkind, htext] at hrecord
    simp at hrecord
  rw [isWordIn, Bool.and_eq_false_iff]
  right
  rw [List.contains_eq_mem, decide_eq_false_iff_not]
  intro hmem
  have hall : p.text ∈ ["class".toList, "interface".toList, "enum".toList] ++ ["record".toList] := hmem
  rcases List.mem_append.mp hall with h | h
  · exact hothers h
  · exact hword (List.mem_singleton.mp h)

theorem lookup_of_opensType (hp : p.opensType = true) : statementWords.lookup p.text = none := by
  have hwords : p.text ∉ statementWords.map Prod.fst := not_mem_of_opensType hp (by decide)
  rw [List.lookup_eq_none_iff]
  intro entry hentry
  refine bne_iff_ne.mpr fun hsame => ?_
  exact hwords (hsame ▸ List.mem_map_of_mem hentry)

/-- What a statement is that starts with a name or a type. -/
theorem statementShape_of_opensType (hhere : c.here.bare = p) (hp : p.opensType = true)
    (hrecord : p.isWord "record".toList = false)
    (hlabel : c.nextIs (·.isOperator [':']) = false) (hmodifiers : modifierLengths c.tokens = []) :
    statementShape c = if declaresVariable c.tokens then .locals else .expression := by
  have hkind : c.here.kind = .word := by
    rw [show c.here.kind = c.here.bare.kind from rfl, hhere]
    exact kind_of_opensType hp
  have hlookup : statementWords.lookup c.here.text = none := by
    rw [show c.here.text = c.here.bare.text from rfl, hhere]
    exact lookup_of_opensType hp
  have htype : c.here.isWordIn typeWords = false := by
    rw [← isWordIn_bare, hhere]
    exact not_typeWord hp hrecord
  rw [statementShape, hkind]
  simp only [wordStatementShape, hlookup, htype, isLabel, hlabel, opensVariables, hmodifiers]
  simp

theorem modifierLengths_of_opensType (hp : t.opensType = true) : modifierLengths (t :: ts) = [] :=
  modifierLengths_of_word (not_mem_of_opensType hp (by decide)) (by simp [kind_of_opensType hp])

theorem opensType_of_bare (hhere : t.bare = p) (hp : p.opensType = true) : t.opensType = true := by
  rwa [← opensType_bare, hhere]

theorem statementShape_locals (hwhole : TypeName.Whole (ps.flatMap angles))
    (hrecord : ∀ p ∈ ps, p.isWord "record".toList = false) (hn : n.isName = true)
    (hnext : (next.isOperator ['='] || next.kind = .comma || next.kind = .semicolon) = true)
    (hc : c.Faces (ps ++ n :: next :: rest)) : statementShape c = .locals := by
  have hvariable : declaresVariable (ps ++ n :: next :: rest) = true :=
    declaresVariable_of_type hwhole hn hnext
  rw [← hc.tokens_eq, declaresVariable_bare] at hvariable
  obtain ⟨p, qs, rfl, hopens⟩ := TypeName.exists_first_of_whole hwhole
  have hhere : c.here.bare = p := hc.here_eq
  have hlabel : c.nextIs (·.isOperator [':']) = false := by
    obtain ⟨t, ts, hts⟩ := List.exists_cons_of_ne_nil (l := qs ++ n :: next :: rest) (by simp)
    have hahead : c.ahead.map bare = qs ++ n :: next :: rest := hc.ahead_eq
    rw [hts] at hahead
    obtain ⟨t', ts', hcons, rfl, -⟩ := List.map_eq_cons_iff.mp hahead
    rw [Cursor.nextIs, hcons]
    rcases second_of_type hwhole (kind_of_isName hn) (congrArg (p :: ·) hts) with h | h | h | h
    · simp [isOperator, show t'.kind = .word from h]
    · simp only [isOperator, Bool.and_eq_true, decide_eq_true_eq] at h
      simp [isOperator, show t'.text = ['<'] from h.2]
    · simp [isOperator, show t'.kind = .dot from h]
    · simp [isOperator, show t'.kind = .openBracket from h]
  rw [statementShape_of_opensType hhere hopens (hrecord p List.mem_cons_self) hlabel
    (modifierLengths_of_opensType (opensType_of_bare hhere hopens)), if_pos hvariable]

theorem statementShape_final (hc : c.Faces (symbol .word "final".toList :: rest)) :
    statementShape c = .locals := by
  have hhere := hc.here_eq
  have hkind : c.here.kind = .word := congrArg Token.kind hhere
  have htext : c.here.text = "final".toList := congrArg Token.text hhere
  have hlookup : statementWords.lookup c.here.text = none := by
    rw [htext]
    decide
  have htype : c.here.isWordIn typeWords = false := by
    rw [← isWordIn_bare, hhere]
    decide
  have hname : c.here.isName = false := by
    rw [← isName_bare, hhere]
    decide
  have hmodifiers : (modifierLengths c.tokens).isEmpty = false := by
    have hlength : modifierLength c.tokens = 1 := by
      rw [Cursor.tokens, modifierLength, ← isWordIn_bare, ← isWord_bare, hhere]
      rfl
    rw [Cursor.tokens] at hlength ⊢
    rw [modifierLengths, modifierLengthsFrom, hlength]
    rfl
  rw [statementShape, hkind]
  simp only [wordStatementShape, hlookup, htype, isLabel, hname, opensVariables, hmodifiers]
  simp

theorem modifierCount_of_replicate {n : Nat} (h : modifierLengths c.tokens = List.replicate n 1) :
    c.modifierCount = n := by
  rw [Cursor.modifierCount, h, ← List.sum_eq_foldr, List.sum_replicate_nat, Nat.mul_one]

theorem memberShape_of_modifiers {words : List Text} (hwords : AreModifiers words)
    (hc : c.Faces (words.map (symbol .word) ++ p :: rest)) (hp : p.kind = .word)
    (hmodifier : p.text ∉ modifierWords) (hdirective : p.text ∉ ["import".toList, "package".toList]) :
    memberShape c = declarationShape words.length (p :: rest) := by
  obtain ⟨taken, behind, htokens, htaken, hbehind⟩ := List.map_eq_append_iff.mp hc.tokens_eq
  obtain ⟨t, ts, rfl, rfl, hts⟩ := List.map_eq_cons_iff.mp hbehind
  have hlengths : modifierLengths c.tokens = List.replicate words.length 1 := by
    rw [htokens]
    exact modifierLengths_append hwords htaken
      (modifierLengths_of_word hmodifier (by simp [show t.kind = .word from hp]))
  have hcount : c.modifierCount = words.length := modifierCount_of_replicate hlengths
  have hlength : taken.length = words.length := by simpa using congrArg List.length htaken
  have hword : c.here.isWordIn ["import".toList, "package".toList] = false := by
    rw [isWordIn, Bool.and_eq_false_iff]
    right
    rw [List.contains_eq_mem, decide_eq_false_iff_not]
    cases taken with
    | nil =>
        have hhere : c.here = t := (List.cons.inj htokens).1
        rw [hhere]
        exact hdirective
    | cons u us =>
        have hhere : c.here = u := (List.cons.inj htokens).1
        obtain ⟨w, more, hwordsEq, hw, -⟩ := List.map_eq_cons_iff.mp htaken.symm
        have htext : c.here.text = w := by
          rw [hhere]
          exact (congrArg Token.text hw).symm
        have hmember := (hwords w (by simp [hwordsEq])).1
        rw [htext]
        have hall : ∀ w ∈ modifierWords, w ∉ ["import".toList, "package".toList] := by decide
        exact hall w hmember
  rw [memberShape, if_neg (hword ▸ Bool.false_ne_true), hcount, htokens, ← hlength, List.drop_left, hlength,
    ← declarationShape_bare, List.map_cons, hts]

theorem declarationShape_of_word {n : Nat} (hp : p.kind = .word)
    (htype : p.isWordIn typeWords = false) :
    declarationShape n (p :: rest) = if declaresConstructor (p :: rest) then .constructor
      else if declaresMethod (p :: rest) then .method else .statement := by
  rw [declarationShape, htype]
  simp [hp]

/-- A type, a name and no parenthesis, perhaps behind modifiers. -/
theorem memberShape_of_type {words : List Text} (hwords : AreModifiers words)
    (hwhole : TypeName.Whole (ps.flatMap angles))
    (hrecord : ∀ p ∈ ps, p.isWord "record".toList = false) (hn : n.isName = true)
    (hc : c.Faces (words.map (symbol .word) ++ (ps ++ n :: next :: rest))) :
    memberShape c = if next.kind = .openParen then .method else .statement := by
  have hconstructor : declaresConstructor (ps ++ n :: next :: rest) = false :=
    not_declaresConstructor hwhole (kind_of_isName hn)
  have hmethod : declaresMethod (ps ++ n :: next :: rest) = decide (next.kind = .openParen) :=
    declaresMethod_of_type hwhole hn
  obtain ⟨p, qs, rfl, hopens⟩ := TypeName.exists_first_of_whole hwhole
  have hkind := kind_of_opensType hopens
  rw [List.cons_append] at hc hconstructor hmethod
  rw [memberShape_of_modifiers hwords hc hkind (not_mem_of_opensType hopens (by decide))
    (not_mem_of_opensType hopens (by decide)),
    declarationShape_of_word hkind (not_typeWord hopens (hrecord p List.mem_cons_self)),
    hconstructor, hmethod]
  simp

/-! ## The production behind a shape -/

theorem reportComments_of_nil (h : c.comments = []) : reportComments c = ([], .ok ((), c)) := by
  obtain ⟨before, here, ahead, comments⟩ := c
  obtain rfl : comments = [] := h
  rfl

theorem statement_eq {inner : Enclosed} (h : c.comments = []) :
    statement inner c = statementOf inner (statementShape c) c := by
  rw [statement, bind_of_ok _ (reportComments_of_nil h)]
  simp only [List.nil_append, Prod.eta]
  rfl

theorem member_eq {inner : Enclosed} : member inner c = memberOf inner (memberShape c) c := rfl

end Reading

end CodeFrames
