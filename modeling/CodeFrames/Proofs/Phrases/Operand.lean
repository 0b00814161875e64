import CodeFrames.Proofs.Phrases.Reading

/-!
# Reading an operand

An operand is read up to what is selected from it, and each selector is a round of the loop behind it.
The dimensions of a created array are a loop of their own, which is over before a selector comes.
-/

namespace CodeFrames

open Token

namespace Phrase

open Reading

variable {levels : Nat} {inner : Enclosed} {t first : Token} {ps rest : List Token} {c : Cursor} {p : Prop}

/-! ## In front of an operand -/

section Start

variable {array : Bool}

theorem has_dot : (Category.operand array).follow.Has dot := .inl List.mem_cons_self

theorem has_openBracket : (Category.operand array).follow.Has openBracket :=
  .inl (List.mem_cons_of_mem _ List.mem_cons_self)

theorem has_step {op : Text} (hop : op ∈ stepOperators) :
    (Category.operand array).follow.Has (symbol .operator op) :=
  has_operator (by simp [Category.follow, hop])

theorem leading_stop_of_kind (ht : t.kind ≠ .operator ∧ t.kind ≠ .openParen) (hc : c.Faces (t :: ps)) :
    leading c = ([], .ok (false, c)) := by
  refine leading_stop (by rw [kind_of_faces hc]; exact ht.1) ?_
  rw [← castLength?_bare, hc.tokens_eq, castLength?_of_kind ht.2]

/-- Neither a sign nor a cast stands at the start of an operand. -/
theorem leading_operand {first : Token} {rest : List Token} {c : Cursor} :
    {array : Bool} → (e : Phrase (.operand array)) → (Category.operand array).follow.Has first →
      c.Faces (e.tokens ++ first :: rest) → leading c = ([], .ok (false, c))
  | _, .literal l, _, hc => by
      have hkind := kind_of_literal l
      refine leading_stop_of_kind ⟨fun h => ?_, fun h => ?_⟩ hc
      · have hliteral := l.isLiteral
        simp [isLiteral, isWordIn, isAnyWord, h] at hliteral
      · simp [h, Kind.isOpener] at hkind
  | _, .name n, _, hc | _, .call n _, _, hc => leading_stop_of_kind (by simp [kind_of_isName n.isName]) hc
  | _, .this, _, hc | _, .object _ _, _, hc | _, .array _ _, _, hc | _, .openArray _, _, hc =>
      leading_stop_of_kind (by simp [symbol]) hc
  | _, .parenthesized e, h, hc => by
      simp only [tokens, List.cons_append, List.append_assoc, List.nil_append] at hc
      refine leading_stop (by simp [kind_of_faces hc, openParen, symbol]) ?_
      rw [← castLength?_bare, hc.tokens_eq, castLength?_parenthesized e (not_startsCastOperand h)]
  | _, .dimension e, _, hc => leading_operand e has_openBracket (by simpa [tokens] using hc)
  | _, .index e _, _, hc => leading_operand e has_openBracket (by simpa [tokens] using hc)
  | _, .field e _, _, hc => leading_operand e has_dot (by simpa [tokens] using hc)
  | _, .method e _ _, _, hc => leading_operand e has_dot (by simpa [tokens] using hc)
  | _, .stepped _ hop e, _, hc => leading_operand e (has_step hop) (by simpa [tokens] using hc)

end Start

/-! ## What is selected -/

section Selectors

variable {array : Bool} {e : Phrase (.operand array)} {i : Phrase .assignment}

theorem dimension_end (inner : Enclosed) (h : (Category.operand array).follow.Has t) (hbracket : t.kind ≠ .openBracket)
    {k : Reading Unit} {Q : Cursor → Prop}
    (hk : ∀ c : Cursor, c.Faces (t :: rest) → k.Limited c p fun _ => Q) :
    ReadsOn (Reading.dimension inner) (initializer inner >>= fun _ => k) (t :: rest) p Q := by
  refine .stop (fun c hc => dimension_stop hbracket hc) fun c hc => ?_
  have hbrace : t.kind ≠ .openBrace := h.kind_ne (by cases array <;> decide) (by decide) (by decide)
  refine .step (r := initializer inner) (d := c) (a := ()) ?_ (hk c hc)
  rw [initializer, cursor_bind, if_neg (by simp [Cursor.isAt, kind_of_faces hc, hbrace])]
  rfl

/-- In front of a selector the dimensions of a created array are over. -/
theorem IsRead.selected (levels : Nat) (h : e.IsRead) (hfirst : (Category.operand array).follow.Has first)
    (hbracket : array = true → first.kind ≠ .openBracket) :
    Proceeds (Reading.operand (Enclosed.within levels)) (selector (Enclosed.within levels)) e.tokens
      (first :: rest) (e.nesting ≤ levels) := by
  cases array with
  | false => exact h levels first rest hfirst
  | true =>
      intro l k hl q Q hk c hc
      have hdimensions := dimension_end (Enclosed.within levels) hfirst (hbracket rfl) fun d hd =>
        hk l d (hl.mono (by simp)) hd
      exact h levels first rest hfirst (l >>= fun _ => k) q Q hdimensions c hc

/-- An operand, what is selected from it, and nothing in front. -/
theorem isRead_operand (h : e.IsRead) : (Phrase.operand e).IsRead := by
  intro levels first rest hfirst
  obtain ⟨t, ts, htokens, -⟩ := e.exists_first
  have hselected : (Category.operand array).follow.Has first := hfirst.operand
  have hbracket : first.kind ≠ .openBracket := hfirst.kind_ne (by decide) (by decide) (by decide)
  have hpasses : Passes _ e.tokens (first :: rest) (e.nesting ≤ levels) :=
    (h.selected levels hselected fun _ => hbracket).passes fun c hc => selector_stop hfirst hc
  have hleading (c : Cursor) (hc : c.Faces (e.tokens ++ first :: rest)) :
      leading c = ([], .ok (false, c)) := leading_operand e hselected hc
  change ReadsOn leading _ (e.tokens ++ first :: rest) (e.nesting ≤ levels) _
  unfold Passes at hpasses
  rw [htokens, List.cons_append] at hleading hpasses ⊢
  exact .stop hleading hpasses

theorem not_endsExpression {primitive : Bool} (h : t.startsCastOperand primitive = true) :
    t.endsExpression = false := by
  revert h
  rw [endsExpression, startsCastOperand, isName, isWordIn, isAnyWord, isLiteral, isOperatorIn, isOperatorIn]
  cases t.kind <;> simp

theorem endsExpression_first {s : Category} (e : Phrase s) (hc : c.Faces (e.tokens ++ ps)) :
    c.here.endsExpression = false := by
  obtain ⟨t, ts, htokens, hstarts⟩ := e.exists_first
  rw [htokens] at hc
  change c.here.bare.endsExpression = false
  rw [hc.here_eq, not_endsExpression hstarts]

theorem endsExpression_of_delimits (h : t.Delimits) : t.endsExpression = true := by
  revert h
  rw [Delimits, endsExpression]
  cases t.kind <;> simp [delimiters]

/-- What closes a group or ends a statement does not stand at the start of a tree. -/
theorem kind_first {s : Category} (e : Phrase s) (hc : c.Faces (e.tokens ++ ps)) {kind : Kind}
    (hkind : kind ∈ delimiters) : c.here.kind ≠ kind := by
  rintro rfl
  have hends := endsExpression_first e hc
  rw [endsExpression_of_delimits hkind] at hends
  cases hends

/-- An expression that is reported takes up a level. -/
theorem IsRead.expression (levels : Nat) (h : i.IsRead) (hfirst : Category.assignment.follow.Has first) :
    Passes (Reading.expression (Enclosed.within levels)) i.tokens (first :: rest) (i.nesting + 1 ≤ levels) := by
  intro c hc
  refine .step (r := here) rfl ?_
  rw [if_neg (by simp [endsExpression_first i hc])]
  refine .emit_bind (by simp) ?_
  cases levels with
  | zero => exact ⟨fun h => absurd h (by simp), fun _ => ⟨[], _, rfl⟩⟩
  | succ levels =>
      rw [Nat.add_le_add_iff_right]
      refine (h.assignment hfirst c hc).before fun _ d hd => ?_
      exact ⟨[.closeExpression d.before.toSpan false], (), d, rfl,
        (cons_mem_quiets (by simp)).mpr nil_mem_quiets, hd⟩

/-- An expression in front of the token that closes the group it stands in. -/
theorem IsRead.enclosed {kind : Kind} {w : Text} (h : i.IsRead) (symbol : String) (hkind : kind ∈ delimiters) :
    Passes (do
      Reading.expression (Enclosed.within levels)
      let _ ← expect kind symbol : Reading Unit) (i.tokens ++ [Token.symbol kind w]) (first :: rest)
      (i.nesting + 1 ≤ levels) := by
  have hexpression : Passes (Reading.expression (Enclosed.within levels)) i.tokens
      ([Token.symbol kind w] ++ first :: rest) (i.nesting + 1 ≤ levels) := h.expression levels (.inl hkind)
  have henclosed := hexpression.bind (passes_expect symbol rfl (by simp))
  rwa [and_true] at henclosed

theorem passes_dimensionRest (h : i.IsRead) : Passes (dimensionRest (Enclosed.within levels))
    (i.tokens ++ [closeBracket]) (first :: rest) (i.nesting + 1 ≤ levels) := by
  intro c hc
  have hbracket : c.here.kind ≠ .closeBracket := kind_first i (List.append_assoc .. ▸ hc) (by decide)
  refine .step (r := cursor) rfl ?_
  rw [if_pos (by simp [Cursor.isAt, hbracket])]
  exact h.enclosed "]" (by decide) c hc

theorem passes_dimensionRest_open : Passes (dimensionRest inner) [closeBracket] (first :: rest) True := by
  intro c hc
  refine .step (r := cursor) rfl ?_
  rw [if_neg (by simp [Cursor.isAt, kind_of_faces hc, closeBracket, symbol])]
  exact passes_expect "]" rfl (by simp) c hc

theorem isRead_index (he : e.IsRead) (hi : i.IsRead) : (Phrase.index e i).IsRead := by
  intro levels first rest hfirst
  rw [nesting, Nat.max_le]
  cases array with
  | false =>
      have hhead : Proceeds _ _ _ _ _ := he levels openBracket (i.tokens ++ [closeBracket] ++ first :: rest) has_openBracket
      exact hhead.join (fun c hc => selector_of_index (kind_of_faces hc)) (by simp)
        (Proceeds.of_passes (hi.enclosed "]" (by decide)))
  | true =>
      intro k
      have hhead := he levels openBracket (i.tokens ++ [closeBracket] ++ first :: rest) has_openBracket k
      exact hhead.join (fun c hc => dimension_of_bracket (kind_of_faces hc)) (by simp)
        (Proceeds.of_passes (passes_dimensionRest hi))

theorem isRead_dimension {e : Phrase (.operand true)} (h : e.IsRead) : (Phrase.dimension e).IsRead := by
  intro levels first rest hfirst k
  have hhead := h levels openBracket ([closeBracket] ++ first :: rest) has_openBracket k
  have hjoin := hhead.join (fun c hc => dimension_of_bracket (kind_of_faces hc)) (by simp)
    (Proceeds.of_passes passes_dimensionRest_open)
  rwa [and_true] at hjoin

theorem isRead_stepped {op : Text} (hop : op ∈ stepOperators) (h : e.IsRead) :
    (Phrase.stepped op hop e).IsRead := by
  intro levels first rest hfirst
  have hround : Passes (pure ()) [] (first :: rest) True := fun _ hc => .pure hc
  have hhead : Proceeds _ _ e.tokens (symbol .operator op :: ([] ++ first :: rest)) _ :=
    h.selected levels (has_step hop) fun _ => by simp [symbol]
  have hjoin := hhead.join (fun c hc => selector_of_step (here_operator hop hc)) (by simp)
    (Proceeds.of_passes hround)
  rwa [and_true] at hjoin

end Selectors

/-! ## Arguments -/

section Arguments

variable {array : Bool} {e : Phrase .assignment} {values : Phrase .values} {arguments : Phrase .arguments}

theorem passes_closeArguments (hrest : rest ≠ []) : Passes (do
    let paren ← expect .closeParen ")"
    emit (.closeArguments paren.toSpan) : Reading Unit) [closeParen] rest True := fun _ hc =>
  .step (expect_eq ")" (kind_of_faces hc)) (.of_completes ⟨_, (), _, rfl,
    (cons_mem_quiets (by simp)).mpr nil_mem_quiets, hc.advance hrest⟩)

theorem isRead_noArguments : Phrase.noArguments.IsRead := by
  intro levels first rest hfirst c hc
  refine .step (expect_eq "(" (kind_of_faces hc)) (.emit_bind (by simp) ?_)
  have hclosing : c.advance.Faces ([closeParen] ++ first :: rest) := hc.advance (by simp)
  refine .step (r := cursor) rfl ?_
  rw [if_neg (by simp [Cursor.isAt, kind_of_faces hclosing, closeParen, symbol])]
  exact (passes_closeArguments (by simp) _ hclosing).congr (by simp [nesting])

theorem isRead_given (h : values.IsRead) : (Phrase.given values).IsRead := by
  intro levels first rest hfirst c hc
  have hinside : c.advance.Faces (values.tokens ++ closeParen :: first :: rest) := by
    simpa using hc.advance (by simp)
  have hparen : c.advance.here.kind ≠ .closeParen := kind_first values hinside (by decide)
  refine .step (expect_eq "(" (kind_of_faces hc)) (.emit_bind (by simp) (.step (r := cursor) rfl ?_))
  rw [if_pos (by simp [Cursor.isAt, hparen])]
  have hvalues := (h levels closeParen (first :: rest) (.inl (by decide))).repeatWhile hinside
  rw [bind_pure_unit] at hvalues
  exact hvalues.before fun _ d hd => (passes_closeArguments (by simp) d hd).completes trivial

/-- What an argument is announced with comes in front of the argument. -/
theorem argumentRound_limited {Q : Bool → Cursor → Prop}
    (h : (Reading.expression inner >>= fun _ => Reading.comma).Limited c p Q) :
    (argumentRound inner).Limited c p Q :=
  .step (r := here) rfl (.emit_bind (by simp) h)

theorem isRead_last (h : e.IsRead) : (Phrase.last e).IsRead := by
  intro levels first rest hfirst
  have hkind : first.kind ≠ .comma := hfirst.kind_ne (by decide) (by decide) (by decide)
  have hassignment : Category.assignment.follow.Has first := hfirst.mono (by decide) (by decide) (by decide)
  have hlast := ReadsOn.last (k := pure ()) (q := True) (Q := (·.Faces (first :: rest)))
    (fun c hc => argumentRound_limited ((h.expression levels hassignment c hc).before fun _ d hd =>
      ⟨[], false, d, comma_of_kind_ne (by rw [kind_of_faces hd]; exact hkind), nil_mem_quiets, rfl, hd⟩))
    fun d hd => .pure hd
  rwa [and_true] at hlast

theorem isRead_more (h : e.IsRead) (hothers : values.IsRead) : (Phrase.more e values).IsRead := by
  intro levels first rest hfirst
  have hcomma : Category.assignment.follow.Has comma := .inl (by decide)
  have hround (c : Cursor) (hc : c.Faces (e.tokens ++ comma :: (values.tokens ++ first :: rest))) :
      (argumentRound (Enclosed.within levels)).Limited c (e.nesting + 1 ≤ levels) fun again d =>
        again = true ∧ d.Faces (values.tokens ++ first :: rest) :=
    argumentRound_limited ((h.expression _ hcomma c hc).before fun _ d hd =>
      ⟨[], true, d.advance, comma_of_kind (kind_of_faces hd), nil_mem_quiets, rfl, hd.advance (by simp)⟩)
  have hmore := ReadsOn.more hround (by simp; omega) (by simp) (hothers levels first rest hfirst)
  rw [nesting, Nat.max_le]
  simpa [Category.Reads, tokens] using hmore

theorem IsRead.optionalArguments (h : arguments.IsRead) (hfirst : Category.arguments.follow.Has first) :
    Passes (Reading.optionalArguments (Enclosed.within levels)) arguments.tokens (first :: rest)
      (arguments.nesting ≤ levels) := by
  intro c hc
  have hparen : c.isAt .openParen = true := by
    cases arguments <;> exact decide_eq_true (kind_of_faces hc)
  exact .step (r := cursor) rfl (.ite_true hparen (h levels first rest hfirst c hc))

theorem passes_noArguments (hfirst : Category.arguments.follow.Has first) :
    Passes (Reading.optionalArguments inner) [] (first :: rest) True := by
  intro c hc
  have hparen : first.kind ≠ .openParen := hfirst.kind_ne (by decide) (by decide) (by decide)
  exact .of_completes ⟨[], (), c, optionalArguments_of_kind (by rw [kind_of_faces hc]; exact hparen),
    nil_mem_quiets, hc⟩

theorem nextIs_eq (hc : c.Faces (t :: first :: ps)) {f : Token → Bool} (hf : ∀ t, f t.bare = f t) :
    c.nextIs f = f first := by
  obtain ⟨before, here, ahead, comments⟩ := c
  obtain ⟨next, more, rfl, hnext, -⟩ := List.map_eq_cons_iff.mp hc.ahead_eq
  rw [← hnext, hf]
  rfl

/-- A name and the arguments behind it, if there are any. -/
theorem passes_name (n : Name) (h : Passes (Reading.optionalArguments inner) ps (first :: rest) p)
    (harrow : ∀ q ∈ (ps ++ first :: rest).head?, q.isOperator "->".toList = false) :
    Passes (Reading.operand inner) (n.token :: ps) (first :: rest) p := by
  intro c hc
  obtain ⟨q, qs, hqs⟩ := List.exists_cons_of_ne_nil (l := ps ++ first :: rest) (by simp)
  have hname : c.here.isName = true := by rw [← isName_bare, hc.here_eq, n.isName]
  have hshape : operandShape c = .reference := by
    rw [List.cons_append, hqs] at hc
    refine operandShape_of_name hname ?_
    rw [nextIs_eq hc fun _ => rfl]
    exact harrow q (by simp [hqs])
  have hrun : Reading.operand inner c = Reading.optionalArguments inner c.advance := by
    rw [Reading.operand, cursor_bind, hshape]
    rfl
  exact (h c.advance (hc.advance (by simp))).of_eq hrun

theorem isRead_name (n : Name) : (Phrase.name n).IsRead := by
  intro levels first rest hfirst
  have hnone : Passes (Reading.optionalArguments (Enclosed.within levels)) [] (first :: rest) (0 ≤ levels) :=
    fun c hc => (passes_noArguments hfirst c hc).congr (by simp)
  exact Proceeds.of_passes (passes_name n hnone (by simpa using not_arrow hfirst))

theorem isRead_call (n : Name) (h : arguments.IsRead) : (Phrase.call n arguments).IsRead := by
  intro levels first rest hfirst
  refine Proceeds.of_passes (passes_name n (h.optionalArguments hfirst) ?_)
  cases arguments <;> simp [tokens, openParen, symbol, isOperator]

theorem isRead_this : Phrase.this.IsRead := by
  intro levels first rest hfirst
  refine Proceeds.of_passes fun c hc => ?_
  have hshape : operandShape c = .reference := by
    have htext : c.here.text = "this".toList := congrArg Token.text hc.here_eq
    rw [operandShape, kind_of_faces hc, symbol]
    simp only [wordShape, htext]
    rfl
  have hrun : Reading.operand (Enclosed.within levels) c =
      Reading.optionalArguments (Enclosed.within levels) c.advance := by
    rw [Reading.operand, cursor_bind, hshape]
    rfl
  exact ((passes_noArguments hfirst c.advance (hc.advance (by simp))).of_eq hrun).congr (by simp [nesting])

/-- A member and the arguments behind its name, if there are any. -/
theorem passes_member (n : Name) (h : Passes (Reading.optionalArguments inner) ps (first :: rest) p) :
    Passes (memberAccess inner) (n.token :: ps) (first :: rest) p := by
  intro c hc
  have hname : c.here.isName = true := by rw [← isName_bare, hc.here_eq, n.isName]
  exact (h c.advance (hc.advance (by simp))).of_eq (memberAccess_of_name hname)

variable {object : Phrase (.operand array)}

theorem isRead_field (n : Name) (h : object.IsRead) : (Phrase.field object n).IsRead := by
  intro levels first rest hfirst
  have hname : Passes (memberAccess (Enclosed.within levels)) [n.token] (first :: rest) True :=
    passes_member n (passes_noArguments hfirst)
  have hjoin := Proceeds.join (h.selected levels has_dot fun _ => by simp [dot, symbol])
    (fun c hc => selector_of_member (kind_of_faces hc)) (by simp) (Proceeds.of_passes hname)
  rwa [and_true] at hjoin

theorem isRead_method (n : Name) (h : object.IsRead) (harguments : arguments.IsRead) :
    (Phrase.method object n arguments).IsRead := by
  intro levels first rest hfirst
  rw [nesting, Nat.max_le]
  exact Proceeds.join (h.selected levels has_dot fun _ => by simp [dot, symbol])
    (fun c hc => selector_of_member (kind_of_faces hc)) (by simp)
    (Proceeds.of_passes (passes_member n (harguments.optionalArguments hfirst)))

end Arguments

/-! ## Literals and groups -/

section Groups

variable {e : Phrase .assignment}

theorem isRead_literal (l : Literal) : (Phrase.literal l).IsRead := by
  intro levels first rest hfirst
  refine Proceeds.of_passes fun c hc => ?_
  have hshape : operandShape c = .literal := by
    have htext : c.here.text = l.token.text := by rw [← hc.here_eq]; rfl
    rw [operandShape, kind_of_faces hc]
    rcases Bool.or_eq_true_iff.mp l.isLiteral with h | h
    · revert h
      rw [isLiteral]
      cases l.token.kind <;> simp
    · simp only [isWordIn, isAnyWord, Bool.and_eq_true, decide_eq_true_eq, List.contains_eq_mem] at h
      obtain ⟨hkind, hword⟩ := h
      rw [hkind]
      simp only [wordShape, htext]
      simp only [List.mem_cons, List.not_mem_nil, or_false] at hword
      rcases hword with h | h | h <;> rw [h] <;> rfl
  rw [Reading.operand]
  refine .step (r := cursor) rfl ?_
  rw [hshape]
  refine .step (r := take) rfl ?_
  exact (Limited.pure (hc.advance (by simp))).congr (by simp [nesting])

theorem isRead_parenthesized (h : e.IsRead) : (Phrase.parenthesized e).IsRead := by
  intro levels first rest hfirst
  refine Proceeds.of_passes fun c hc => ?_
  have hgroup : c.Faces (openParen :: (e.tokens ++ closeParen :: first :: rest)) := by
    simpa [tokens] using hc
  have hshape : operandShape c = .parenthesized := by
    rw [operandShape, kind_of_faces hc]
    simp [openParen, symbol, not_opensLambda e (not_arrow hfirst) hgroup]
  rw [Reading.operand]
  refine .step (r := cursor) rfl ?_
  rw [hshape]
  refine .step (r := take) rfl ?_
  exact h.enclosed ")" (by decide) c.advance (by simpa [closeParen] using hgroup.advance (by simp))

end Groups

/-! ## Created objects -/

section Creation

variable {size : Phrase .assignment} {arguments : Phrase .arguments} {array : Bool}

/-- The reading of a created object up to the end of its type. -/
theorem operand_of_created (inner : Enclosed) {type : CreatedType} (ht : t.kind = .openParen ∨ t.kind = .openBracket)
    (hc : c.Faces (symbol .word "new".toList :: (type.tokens ++ t :: rest))) :
    ∃ d : Cursor, d.Faces (t :: rest) ∧ Reading.operand inner c = createdObject inner d := by
  have htext : c.here.text = "new".toList := congrArg Token.text hc.here_eq
  have hshape : operandShape c = .creation := by
    rw [operandShape, kind_of_faces hc, symbol]
    simp only [wordShape, htext, if_true]
  have htype : c.advance.Faces (type.tokens ++ t :: rest) := hc.advance (by simp)
  have hlength : typeNameLength? c.advance.tokens = some type.tokens.length := by
    rw [← typeNameLength?_bare, htype.tokens_eq, typeNameLength?_created type ht]
  refine ⟨_, htype.forward (by simp), ?_⟩
  rw [Reading.operand, cursor_bind, hshape]
  change creation inner c = _
  rw [creation, take_bind, cursor_bind, hlength]
  rfl

theorem isRead_object (type : CreatedType) (h : arguments.IsRead) : (Phrase.object type arguments).IsRead := by
  intro levels first rest hfirst
  refine Proceeds.of_passes fun c hc => ?_
  obtain ⟨ps, hps⟩ : ∃ ps, arguments.tokens = openParen :: ps := by cases arguments <;> exact ⟨_, rfl⟩
  have harguments := h levels first rest hfirst
  simp only [tokens, List.cons_append, List.append_assoc, hps] at hc
  obtain ⟨d, hd, hrun⟩ := operand_of_created (Enclosed.within levels) (.inl rfl) hc
  have hshape : createdObject (Enclosed.within levels) d = (do
      Reading.arguments (Enclosed.within levels)
      let brace ← here
      if brace.kind = .openBrace then
        emit (.unsupported brace.toSpan "anonymous class body")
        skipGroup : Reading Unit) d := by
    rw [createdObject, here_bind, kind_of_faces hd]
    rfl
  rw [← List.cons_append, ← hps] at hd
  have hbrace : first.kind ≠ .openBrace := hfirst.kind_ne (by decide) (by decide) (by decide)
  refine Limited.of_eq ((harguments d hd).before fun _ e he => ?_) (hrun.trans hshape)
  exact CompletesAt.here_bind (CompletesAt.ite_false (by rw [kind_of_faces he]; exact hbrace)
    (CompletesAt.pure_quiet he))

/-- A created array is in the loop over its dimensions in front of the first of them. -/
theorem enters_created (type : CreatedType) (k : Reading Unit) :
    Enters (Reading.operand inner >>= fun _ => k) (Reading.dimension inner)
      (initializer inner >>= fun _ => k) (symbol .word "new".toList :: type.tokens) (openBracket :: rest) True := by
  intro q Q hk c hc
  obtain ⟨d, hd, hrun⟩ := operand_of_created inner (.inr rfl) (by simpa using hc)
  have hshape : createdObject inner d = (do
      repeatWhile (Reading.dimension inner)
      initializer inner : Reading Unit) d := by
    rw [createdObject, here_bind, kind_of_faces hd]
    rfl
  refine ((hk.repeatWhile hd).of_eq ?_).congr (by simp)
  rw [bind_eq (hrun.trans hshape), bind_assoc]

theorem isRead_array (type : CreatedType) (h : size.IsRead) : (Phrase.array type size).IsRead := by
  intro levels first rest hfirst k
  have hsize : Passes (dimensionRest (Enclosed.within levels)) (size.tokens ++ [closeBracket]) (first :: rest)
      (size.nesting + 1 ≤ levels) := passes_dimensionRest h
  have hjoin := (enters_created type k).join (fun c hc => dimension_of_bracket (kind_of_faces hc)) (by simp)
    (Proceeds.of_passes hsize)
  rwa [true_and] at hjoin

theorem isRead_openArray (type : CreatedType) : (Phrase.openArray type).IsRead := by
  intro levels first rest hfirst k
  have hopen : Passes (dimensionRest (Enclosed.within levels)) [closeBracket] (first :: rest) True :=
    passes_dimensionRest_open
  have hjoin := (enters_created type k).join (fun c hc => dimension_of_bracket (kind_of_faces hc)) (by simp)
    (Proceeds.of_passes hopen)
  simpa [tokens, nesting] using hjoin

end Creation

/-! ## All trees -/

/-- Every tree is read, in front of every token that can stand behind it. -/
theorem isRead {s : Category} (e : Phrase s) : e.IsRead := by
  induction e with
  | value _ ih => exact isRead_value ih
  | assigned _ hop _ _ ih ih' => exact isRead_assigned hop ih ih'
  | operation _ ih => exact isRead_operation ih
  | chosen _ _ _ ih ih' ih'' => exact isRead_chosen ih ih' ih''
  | single _ ih => exact isRead_single ih
  | joined _ hop htested _ _ ih ih' => exact isRead_joined hop htested ih ih'
  | tested _ _ ih => exact isRead_tested ih
  | signed _ hop _ ih => exact isRead_signed hop ih
  | unsigned _ ih => exact isRead_unsigned ih
  | inverted _ hop _ ih => exact isRead_inverted hop ih
  | primitiveCast _ htype _ ih => exact isRead_primitiveCast htype ih
  | cast _ _ ih => exact isRead_cast ih
  | operand _ ih => exact isRead_operand ih
  | literal l => exact isRead_literal l
  | name n => exact isRead_name n
  | this => exact isRead_this
  | call n _ ih => exact isRead_call n ih
  | parenthesized _ ih => exact isRead_parenthesized ih
  | object type _ ih => exact isRead_object type ih
  | array type _ ih => exact isRead_array type ih
  | openArray type => exact isRead_openArray type
  | dimension _ ih => exact isRead_dimension ih
  | index _ _ ih ih' => exact isRead_index ih ih'
  | field _ n ih => exact isRead_field n ih
  | method _ n _ ih ih' => exact isRead_method n ih ih'
  | stepped _ hop _ ih => exact isRead_stepped hop ih
  | noArguments => exact isRead_noArguments
  | given _ ih => exact isRead_given ih
  | last _ ih => exact isRead_last ih
  | more _ _ ih ih' => exact isRead_more ih ih'

end Phrase

end CodeFrames
