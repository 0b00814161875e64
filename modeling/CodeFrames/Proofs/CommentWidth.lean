import CodeFrames.Proofs.Resemblance.Conversion

/-!
# The width at which comments are wrapped

Wrapping moves line ends between the words of a comment and leaves the words alone, whatever the
width.  The assembly never looks into a comment, so nothing but the documentation of declarations
depends on the width.
-/

namespace CodeFrames

namespace Text

/-! ## Words -/

/-- A text that is one word. -/
def IsWord (t : Text) : Prop := t ≠ [] ∧ ∀ c ∈ t, isBlank c = false

theorem words_of_blank {c : Char} (t : Text) (h : isBlank c = true) : words (c :: t) = words t := by
  cases t <;> simp [words, h]

/-- The first character of a text goes with the word behind it. -/
theorem words_cons {c d : Char} (t : Text) (hc : isBlank c = false) (hd : isBlank d = false) :
    words (c :: d :: t) = consFirst c (words (d :: t)) := by
  rw [words, if_neg (by simp [hc])]
  simp [hd]

theorem words_cons_blank {c d : Char} (t : Text) (hc : isBlank c = false) (hd : isBlank d = true) :
    words (c :: d :: t) = [c] :: words t := by
  rw [words, if_neg (by simp [hc])]
  simp [hd, words_of_blank]

theorem words_ne_nil {c : Char} (t : Text) (hc : isBlank c = false) : words (c :: t) ≠ [] := by
  cases t with
  | nil => simp [words, hc]
  | cons d t =>
      cases hd : isBlank d with
      | true => simp [words_cons_blank t hc hd]
      | false =>
          rw [words_cons t hc hd]
          cases words (d :: t) <;> simp [consFirst]

/-- A blank separates the words before it from those behind it. -/
theorem words_append_blank (s : Text) {c : Char} (t : Text) (hc : isBlank c = true) :
    words (s ++ c :: t) = words s ++ words t := by
  induction s with
  | nil => simp [words_of_blank t hc, words]
  | cons x s ih =>
      cases hx : isBlank x with
      | true => rw [List.cons_append, words_of_blank _ hx, words_of_blank _ hx, ih]
      | false =>
          cases s with
          | nil =>
              rw [List.cons_append, List.nil_append, words_cons_blank t hx hc]
              simp [words, hx]
          | cons y s =>
              simp only [List.cons_append] at ih ⊢
              cases hy : isBlank y with
              | true =>
                  rw [words_of_blank _ hy, words_of_blank _ hy] at ih
                  rw [words_cons_blank _ hx hy, words_cons_blank _ hx hy, ih, List.cons_append]
              | false =>
                  rw [words_cons _ hx hy, words_cons _ hx hy, ih]
                  cases hwords : words (y :: s) with
                  | nil => exact absurd hwords (words_ne_nil s hy)
                  | cons w ws => rfl

theorem words_append_blanks (s : Text) {separator : Text} (t : Text) (hne : separator ≠ [])
    (hblank : ∀ c ∈ separator, isBlank c = true) :
    words (s ++ (separator ++ t)) = words s ++ words t := by
  induction separator generalizing s with
  | nil => exact absurd rfl hne
  | cons c separator ih =>
      have hc := hblank c List.mem_cons_self
      cases separator with
      | nil => exact words_append_blank s t hc
      | cons d separator =>
          rw [List.cons_append, words_append_blank _ _ hc]
          have h := ih [] (by simp) fun c hc => hblank c (List.mem_cons_of_mem _ hc)
          rw [List.nil_append] at h
          rw [h]
          rfl

/-- Texts joined with blanks have their words one after the other. -/
theorem words_join {separator : Text} (hne : separator ≠ [])
    (hblank : ∀ c ∈ separator, isBlank c = true) (ts : List Text) :
    words (join separator ts) = ts.flatMap words := by
  induction ts with
  | nil => rfl
  | cons t ts ih =>
      cases ts with
      | nil => simp [join]
      | cons u us =>
          rw [join, List.append_assoc, words_append_blanks t _ hne hblank, ih]
          · rfl
          · simp

theorem words_of_isWord {t : Text} (h : IsWord t) : words t = [t] := by
  obtain ⟨hne, hsolid⟩ := h
  induction t with
  | nil => exact absurd rfl hne
  | cons c t ih =>
      have hc := hsolid c List.mem_cons_self
      cases t with
      | nil => simp [words, hc]
      | cons d t =>
          have hd := hsolid d (by simp)
          rw [words_cons t hc hd, ih (by simp) fun c hc => hsolid c (List.mem_cons_of_mem _ hc)]
          rfl

theorem isWord_of_mem_words {t w : Text} (h : w ∈ words t) : IsWord w := by
  induction t generalizing w with
  | nil => simp [words] at h
  | cons c t ih =>
      cases hc : isBlank c with
      | true => exact ih (by rwa [words_of_blank t hc] at h)
      | false =>
          have hsingle : IsWord [c] := ⟨by simp, by simp [hc]⟩
          cases t with
          | nil =>
              obtain rfl : w = [c] := by simpa [words, hc] using h
              exact hsingle
          | cons d t =>
              cases hd : isBlank d with
              | true =>
                  rw [words_cons_blank t hc hd, List.mem_cons] at h
                  rcases h with rfl | h
                  · exact hsingle
                  · exact ih (by rwa [words_of_blank t hd])
              | false =>
                  rw [words_cons t hc hd] at h
                  cases hwords : words (d :: t) with
                  | nil => exact absurd hwords (words_ne_nil t hd)
                  | cons v vs =>
                      rw [hwords, consFirst, List.mem_cons] at h
                      rcases h with rfl | h
                      · obtain ⟨-, hv⟩ := ih (w := v) (by simp [hwords])
                        exact ⟨by simp, List.forall_mem_cons.mpr ⟨hc, hv⟩⟩
                      · exact ih (by simp [hwords, h])

end Text

/-! ## Wrapped comments -/

namespace Comment

open Text

theorem words_fillLines (width : Nat) (line : Text) {ws : List Text} (h : ∀ w ∈ ws, IsWord w) :
    (fillLines width line ws).flatMap words = words line ++ ws := by
  induction ws generalizing line with
  | nil => simp [fillLines]
  | cons w ws ih =>
      have hw := words_of_isWord (h w List.mem_cons_self)
      have hws : ∀ w ∈ ws, IsWord w := fun w hw => h w (List.mem_cons_of_mem _ hw)
      unfold fillLines
      split
      · rw [List.flatMap_cons, ih w hws, hw]
        rfl
      · rw [ih _ hws, words_append_blank _ _ (by decide), hw, List.append_assoc]
        rfl

theorem isBlank_lineEnd : isBlank '\n' = true := by decide

/-- Wrapping keeps the words of a paragraph, also those that are longer than a line. -/
theorem words_wrap (width : Option Nat) (paragraph : Text) :
    words (wrap width paragraph) = words paragraph := by
  unfold wrap
  split
  · rfl
  · rfl
  · rw [words_join (by simp) (by simp [isBlank_lineEnd])]
    cases hwords : words paragraph with
    | nil => rfl
    | cons w ws =>
        have hall : ∀ v ∈ w :: ws, IsWord v := fun v hv => isWord_of_mem_words (hwords ▸ hv)
        rw [wrapLines, words_fillLines _ _ fun v hv => hall v (List.mem_cons_of_mem _ hv),
          words_of_isWord (hall w List.mem_cons_self)]
        rfl

theorem words_plainComment (width : Option Nat) (raw : Text) :
    words (plainComment width raw) = (paragraphsOf raw).flatMap words := by
  unfold plainComment
  rw [words_join (by simp) (by simp [isBlank_lineEnd]), List.flatMap_map]
  simp only [words_wrap]

end Comment

/-! ## Conversions at two widths -/

/-- Two documentations are both absent or both present with the same words. -/
def SameWords : Option Text → Option Text → Prop :=
  Option.Rel fun s t => Text.words s = Text.words t

/-- Frames that differ in the line breaks of their documentation only. -/
def Likeness.rewrapped : Likeness := ⟨Eq, Eq, SameWords, Eq⟩

namespace Comparison

/-- One source at two widths. -/
def rewrapped (source : Text) (width width' : Option Nat) : Comparison where
  toLikeness := .rewrapped
  source := source
  source' := source
  width := width
  width' := width'
  start := Eq
  stop := Eq
  extract := Eq

theorem sound_rewrapped (source : Text) (width width' : Option Nat) :
    (rewrapped source width width').Sound where
  none := .none
  slices := by
    rintro start _ stop _ s t rfl rfl hs ht
    exact congrArg withSubtypeOperator (Option.some.inj (hs.symm.trans ht))
  empty := rfl
  text := id
  sides := by
    rintro s _ rfl
    unfold Sides
    cases assignmentSides? s with
    | none => exact .none
    | some sides => exact .some ⟨rfl, rfl⟩
  joined := by
    intro ss ts h
    obtain rfl : ss = ts := List.forall₂_eq_eq_eq ▸ h
    rfl

variable {source : Text} {width width' : Option Nat}

theorem modifier_rewrapped (t : Text) : (rewrapped source width width').Modifier t t :=
  ⟨rfl, fun _ _ => .rfl⟩

theorem modifiers_rewrapped (ts : List Text) :
    List.Forall₂ (rewrapped source width width').Modifier ts ts :=
  List.forall₂_same.mpr fun t _ => modifier_rewrapped t

theorem event_rewrapped (e : Event) : e.Resembles (rewrapped source width width') e := by
  cases e with
  | openExpression first => exact .openExpression rfl
  | closeExpression last isEmpty => exact .closeExpression isEmpty rfl
  | openArguments paren => exact .openArguments _ _
  | argument first => exact .argument _ _
  | closeArguments paren => exact .closeArguments _ _
  | openBlock first => exact .openBlock _ _
  | closeBlock last => exact .closeBlock _ _
  | openIf keyword => exact .openIf _ _
  | elseIf keyword => exact .elseIf _ _
  | otherwise keyword => exact .otherwise _ _
  | closeIf last => exact .closeIf _ _
  | openWhile keyword => exact .openWhile _ _
  | closeWhile last => exact .closeWhile _ _
  | returned keyword hasValue => exact .returned _ _ hasValue
  | jumped jump keyword label =>
      cases label with
      | none => exact .jumped jump _ _
      | some label => exact .jumpedTo jump rfl rfl
  | thrown keyword => exact .thrown _ _
  | emptyStatement semicolon => exact .emptyStatement _ _
  | expressionStatement first => exact .expressionStatement _ _
  | unsupported place construct => exact .unsupported construct rfl
  | typeName first last => exact .typeName rfl
  | openVariables first modifiers => exact .openVariables rfl (modifiers_rewrapped _)
  | declarator name hasValue => exact .declarator hasValue rfl
  | closeVariables semicolon => exact .closeVariables _ _
  | openMethod first modifiers name => exact .openMethod rfl (modifiers_rewrapped _) rfl
  | openConstructor first modifiers name =>
      exact .openConstructor _ _ rfl (modifiers_rewrapped _)
  | parameter name ellipsis => exact .parameter rfl rfl rfl
  | openThrows keyword => exact .openThrows _ _
  | closeThrows => exact .closeThrows
  | delegateCall keyword => exact .delegateCall rfl
  | closeDeclaration last hasBody => exact .closeDeclaration _ _ hasBody
  | comment whole =>
      refine .comment (.some ?_)
      exact (Comment.words_plainComment width _).trans (Comment.words_plainComment width' _).symm

theorem events_rewrapped (events : List Event) :
    EventsResemble (rewrapped source width width') events events := by
  induction events with
  | nil => exact .nil
  | cons e events ih => exact .cons (event_rewrapped e) ih

end Comparison

/-- The width at which comments are wrapped matters for nothing but the line breaks in the
documentation of declarations: at any two widths a source is refused with the same error, or becomes
the same elements with the same warnings, corresponding documentations having the same words. -/
theorem convert_rewrapped (options options' : Options) (source : Text) :
    (∃ e, convert options source = .error e ∧ convert options' source = .error e) ∨
    ∃ x y, convert options source = .ok x ∧ convert options' source = .ok y ∧
      List.Forall₂ (Element.Resembles .rewrapped) x.elements y.elements ∧
      x.warnings = y.warnings := by
  have hcomparable := convert_comparable options options'
    (Comparison.sound_rewrapped source options.commentWidth options'.commentWidth) rfl rfl
    (Comparison.events_rewrapped _) .rfl
  change Comparable _ source source (convert options source) (convert options' source)
    at hcomparable
  generalize convert options source = result, convert options' source = result'
    at hcomparable ⊢
  cases hcomparable with
  | @ok x y h =>
      refine .inr ⟨x, y, rfl, rfl, h.elements, ?_⟩
      exact Warning.eq_of_resembles (fun _ _ => id) (fun _ _ => id) h.warnings
  | conflict levels => exact .inl ⟨_, rfl, rfl⟩
  | @faulty e e' he he' =>
      obtain rfl : e = e' := Except.error.inj (he.symm.trans he')
      exact .inl ⟨_, rfl, rfl⟩

end CodeFrames
