import CodeFrames.Proofs.Alignment.Statement
import CodeFrames.Proofs.Pieces
import CodeFrames.Proofs.Resemblance.Conversion
import CodeFrames.Proofs.Walk
import Mathlib.Algebra.GroupWithZero.Nat
import Mathlib.Algebra.Ring.Int.Defs

/-!
# The lines of tokens, faults and warnings

The walk over a text counts the line ends between its tokens and those in comments.  A line end that a
literal takes in behind a backslash is not counted, so every token behind such a literal bears too low
a number.  Faults and warnings repeat the number of a token.
-/

namespace CodeFrames

namespace Text

/-- The number of the line that byte `n` is on. -/
def lineAt (t : Text) (n : Nat) : Nat := 1 + ((takeBytes? t n).getD []).count '\n'

theorem lineAt_append (before after : Text) :
    (before ++ after).lineAt (byteSize before) = 1 + before.count '\n' := by
  rw [lineAt, takeBytes?_append, Option.getD_some]

end Text

open Text

namespace Token

/-- The line ends in a literal. -/
def uncounted (t : Token) : Nat :=
  if t.kind = .string ∨ t.kind = .character then t.text.count '\n' else 0

/-- Only comments and literals contain line ends. -/
theorem uncounted_of_lexeme {c : Char} {t : Text} {kind : Kind} {size : Nat}
    (h : lexeme c t = .ok (.token kind size)) (hkind : kind ≠ .comment) (p : Position) :
    (ofText kind ((c :: t).take size) p).uncounted = ((c :: t).take size).count '\n' := by
  rw [uncounted]
  rcases literal_or_not_isBlank h hkind with ⟨-, hliteral⟩ | hblank
  · exact if_pos (kind_of_literal hliteral)
  · have hnone : ((c :: t).take size).count '\n' = 0 :=
      List.count_eq_zero.mpr fun hmem => hblank '\n' hmem (by decide)
    change (if _ then ((c :: t).take size).count '\n' else 0) = _
    rw [hnone, ite_self]

/-- A token moves the position over the line ends in its text, but those in a literal are not counted. -/
theorem line_afterToken {c : Char} {t : Text} {kind : Kind} {size : Nat}
    (h : lexeme c t = .ok (.token kind size)) (p : Position) :
    (p.afterToken kind ((c :: t).take size)).line + (ofText kind ((c :: t).take size) p).uncounted =
      p.line + ((c :: t).take size).count '\n' := by
  by_cases hkind : kind = .comment
  · subst hkind
    simp [Position.afterToken, uncounted, ofText]
  · rw [uncounted_of_lexeme h hkind, Position.afterToken, if_neg hkind]

/-- The walk is `skip` characters inside a token found earlier, and `p` is where that token ends. -/
theorem line_of_tokensFrom {source t : Text} {skip : Nat} {p : Position} {before : Text}
    {tokens : List Token} (hsource : source = before ++ t) (hskip : skip ≤ t.length)
    (hoffset : p.offset = byteSize before + byteSize (t.take skip))
    (h : tokensFrom skip p t = .ok tokens) {passed rest : List Token} {u : Token}
    (htokens : tokens = passed ++ u :: rest) :
    u.line + (passed.map uncounted).sum + source.lineAt p.offset = p.line + source.lineAt u.start := by
  induction t generalizing skip p before tokens passed with
  | nil =>
      obtain rfl := Except.ok.inj h
      cases passed with
      | nil =>
          obtain ⟨rfl, -⟩ := List.cons.inj htokens
          simp [ofText]
      | cons v passed => simp at htokens
  | cons c t ih =>
      have hmore : source = (before ++ [c]) ++ t := by simp [hsource]
      cases skip with
      | succ skip =>
          exact ih hmore (by simpa using hskip) (by simp [hoffset]; omega) h htokens
      | zero =>
          have hhere : source.lineAt p.offset = 1 + before.count '\n' := by
            rw [hoffset, hsource, List.take_zero, byteSize_nil, Nat.add_zero, lineAt_append]
          rw [List.take_zero, byteSize_nil, Nat.add_zero] at hoffset
          cases hlexeme : lexeme c t with
          | error fault => simp [tokensFrom, hlexeme] at h
          | ok l =>
              cases l with
              | blank =>
                  rw [tokensFrom_blank hlexeme] at h
                  have hafter : (p.afterBlank c).offset = byteSize (before ++ [c]) := by
                    simp [Position.afterBlank, hoffset]
                  have hline := ih hmore (Nat.zero_le _) (by simpa using hafter) h htokens
                  rw [hafter, hmore, lineAt_append, ← hmore, List.count_append] at hline
                  have hcount : (p.afterBlank c).line = p.line + [c].count '\n' := by
                    by_cases hc : c = '\n' <;> simp [Position.afterBlank, hc]
                  omega
              | token kind size =>
                  have hpos := (lexeme_token hlexeme).1
                  have hsize := lexeme_size hlexeme
                  rw [tokensFrom_token hlexeme] at h
                  cases hrest : tokensFrom (size - 1) (p.afterToken kind ((c :: t).take size)) t with
                  | error e => simp [hrest, Except.map] at h
                  | ok later =>
                      rw [hrest] at h
                      obtain rfl := Except.ok.inj h
                      cases passed with
                      | nil =>
                          obtain ⟨rfl, -⟩ := List.cons.inj htokens
                          simp [ofText]
                      | cons v passed =>
                          obtain ⟨rfl, hlater⟩ := List.cons.inj htokens
                          have hsplit : source = (before ++ (c :: t).take size) ++ (c :: t).drop size := by
                            rw [List.append_assoc, List.take_append_drop, hsource]
                          have htake : (c :: t).take size = c :: t.take (size - 1) := by
                            obtain ⟨n, rfl⟩ : ∃ n, size = n + 1 := ⟨size - 1, by omega⟩
                            rfl
                          have hafter : (p.afterToken kind ((c :: t).take size)).offset =
                              byteSize (before ++ (c :: t).take size) := by
                            simp [Position.afterToken, hoffset]
                          have hline := ih hmore (by omega)
                            (by rw [hafter, htake]; simp [Nat.add_assoc]) hrest hlater
                          have hstep := line_afterToken hlexeme p
                          rw [hafter, hsplit, lineAt_append, ← hsplit, List.count_append] at hline
                          rw [List.map_cons, List.sum_cons]
                          omega

end Token

/-! ## Faults and warnings -/

/-- One source beside itself, where only the lines of its tokens are told apart. -/
def besideItself (options : Options) (source : Text) (tokens : List Token) : Comparison where
  type := Eq
  text := Eq
  documentation _ _ := True
  line m n := m = n ∧ ∃ t ∈ tokens, t.line = m
  source := source
  source' := source
  width := options.commentWidth
  width' := options.commentWidth
  start := Eq
  stop := Eq
  extract := Eq

theorem besideItself_sound (options : Options) (source : Text) (tokens : List Token) :
    (besideItself options source tokens).Sound where
  none := trivial
  slices := by
    rintro start _ stop _ s t rfl rfl hs ht
    rw [Option.some.inj (hs.symm.trans ht)]
    rfl
  empty := rfl
  text h := h
  sides := by
    rintro s _ rfl
    change Option.Rel _ (assignmentSides? s) (assignmentSides? s)
    cases assignmentSides? s with
    | none => exact .none
    | some x => exact .some ⟨rfl, rfl⟩
  joined h := by
    obtain rfl := (congrFun₂ List.forall₂_eq_eq_eq _ _).mp h
    rfl

/-- The tokens ahead, each beside itself. -/
def besideItself_pairing (options : Options) (source : Text) (tokens : List Token) :
    Pairing (besideItself options source tokens) where
  Paired ts ts' := ts = ts' ∧ ts ⊆ tokens
  bare h := by rw [h.1]
  tail := by
    rintro t u _ _ ts _ ⟨heq, hmem⟩
    exact ⟨(List.cons.inj heq).2, fun v hv => hmem (List.mem_cons_of_mem t hv)⟩
  line := by
    rintro t _ ts _ ⟨heq, hmem⟩
    obtain ⟨rfl, -⟩ := List.cons.inj heq
    exact ⟨rfl, t, hmem List.mem_cons_self, rfl⟩
  text h := by rw [(List.cons.inj h.1).1]; rfl
  start h := by rw [(List.cons.inj h.1).1]; rfl
  stop h _ := by rw [(List.cons.inj h.1).1]; rfl
  slice := by
    rintro t _ ts _ n ⟨heq, -⟩ - -
    obtain ⟨rfl, rfl⟩ := List.cons.inj heq
    exact ⟨rfl, fun _ _ => Iff.rfl⟩
  documentation _ _ := trivial

theorem line_of_fault {source : Text} {tokens : List Token} (htokens : lex source = .ok tokens)
    {e : SourceError} (he : (readEvents source).2 = .error e) :
    ∃ t ∈ tokens, t.kind ≠ .comment ∧ e.line = t.line := by
  obtain ⟨c, hc⟩ := Cursor.exists_ofTokens (laid_of_lex htokens)
  simp only [readEvents, htokens, hc] at he
  obtain ⟨trace, hwalk, -⟩ := Reading.Walks.members (Enclosed.walks_within nestingLimit) c
  cases hresult : (Reading.members (Enclosed.within nestingLimit) c).2 with
  | ok behind => simp [hresult, Except.map] at he
  | error fault =>
      obtain rfl : fault = e := by simpa [hresult, Except.map] using he
      obtain ⟨d, ⟨passed, hpassed, -⟩, hline⟩ := hwalk.line_of_error fault hresult
      have hmem : d.here ∈ c.tokens := hpassed ▸ List.mem_append_right _ List.mem_cons_self
      rw [Cursor.tokens_of_ofTokens hc, List.mem_filter, decide_eq_true_eq] at hmem
      exact ⟨d.here, hmem.1, hmem.2, hline⟩

theorem line_of_warning {options : Options} {source : Text} {tokens : List Token}
    (htokens : lex source = .ok tokens) {x : Conversion} (hx : convert options source = .ok x) :
    ∀ w ∈ x.warnings, ∃ t ∈ tokens, t.kind ≠ .comment ∧ w.line = t.line := by
  have hevents := ((besideItself_pairing options source (tokens.filter (·.kind ≠ .comment))).readEvents
    htokens htokens ⟨rfl, List.Subset.refl _⟩).1
  have hcomparable := convert_comparable options options (besideItself_sound options source _) rfl rfl
    hevents Iff.rfl
  change Comparable _ source source (convert options source) (convert options source) at hcomparable
  rw [hx] at hcomparable
  cases hcomparable with
  | ok hresembles =>
      intro w hw
      obtain ⟨-, t, ht, hline⟩ := (List.forall₂_same.mp hresembles.warnings w hw).line
      rw [List.mem_filter, decide_eq_true_eq] at ht
      exact ⟨t, ht.1, ht.2, hline.symm⟩

/-- A literal that takes in a line end, and a call on the next line that is not closed. -/
def callBehindLiteral : Text := "x = \"\\\n\"; f(".toList

end CodeFrames
