import CodeFrames.Proofs.Pieces

/-!
# Sources one behind the other

A line end separates the tokens in front of it from those behind, also if a line comment is in front.
So a source behind another one is split into the tokens that it has alone, further on in the text.
-/

namespace CodeFrames

open Text

namespace Token

/-- The token at a place that is so many lines and so many bytes further on. -/
def shift (lines bytes : Nat) (t : Token) : Token :=
  ⟨⟨t.line + lines, t.start + bytes, t.stop + bytes⟩, t.kind, t.text⟩

section Shift

variable (lines bytes : Nat) (t : Token)

@[simp] theorem shift_line : (t.shift lines bytes).line = t.line + lines := rfl

@[simp] theorem shift_start : (t.shift lines bytes).start = t.start + bytes := rfl

@[simp] theorem shift_stop : (t.shift lines bytes).stop = t.stop + bytes := rfl

@[simp] theorem shift_kind : (t.shift lines bytes).kind = t.kind := rfl

@[simp] theorem shift_text : (t.shift lines bytes).text = t.text := rfl

@[simp] theorem bare_shift : (t.shift lines bytes).bare = t.bare := rfl

end Shift

/-! ## Splitting -/

theorem takeWhile_newline (t v : Text) :
    (t ++ '\n' :: v).takeWhile (· ≠ '\n') = t.takeWhile (· ≠ '\n') := by
  induction t with
  | nil => rfl
  | cons c t ih => rw [List.cons_append, List.takeWhile_cons, List.takeWhile_cons, ih]

/-- A lexeme is the same in front of a line end. -/
theorem lexeme_newline {c : Char} {t : Text} {kind : Kind} {size : Nat}
    (h : lexeme c t = .ok (.token kind size)) (v : Text) :
    lexeme c (t ++ '\n' :: v) = .ok (.token kind size) := by
  by_cases hkind : kind = .comment
  · subst hkind
    obtain ⟨rfl, ⟨hhead, rfl⟩ | ⟨hhead, n, hn, rfl⟩⟩ := lexeme_comment h
    · obtain ⟨t, rfl⟩ := List.head?_eq_some_iff.mp hhead
      rw [← takeWhile_newline _ v]
      rfl
    · refine lexeme_comment_append h (fun hline => ?_) _
      rw [hhead] at hline
      cases hline
  · exact (lexeme_append (isApart_cons (by decide) v) h hkind).1

/-- The walk over a text goes on behind a line end where the text has ended. -/
theorem tokensFrom_newline {t : Text} {skip : Nat} {p : Position} {tokens : List Token}
    (hskip : skip ≤ t.length) (h : tokensFrom skip p t = .ok tokens) (v : Text) :
    ∃ front q, tokens = front ++ [ofText .endOfInput [] q] ∧
      q.offset = p.offset + byteSize (t.drop skip) ∧
      tokensFrom skip p (t ++ '\n' :: v) = (tokensFrom 0 q ('\n' :: v)).map (front ++ ·) := by
  induction t generalizing skip p tokens with
  | nil =>
      obtain rfl : skip = 0 := by simpa using hskip
      obtain rfl := Except.ok.inj h
      refine ⟨[], p, rfl, by simp, ?_⟩
      rw [List.nil_append]
      cases tokensFrom 0 p ('\n' :: v) <;> rfl
  | cons c t ih =>
      cases skip with
      | succ skip => exact ih (by simpa using hskip) h
      | zero =>
          cases hlexeme : lexeme c t with
          | error fault => simp [tokensFrom, hlexeme] at h
          | ok l =>
              cases l with
              | blank =>
                  rw [tokensFrom_blank hlexeme] at h
                  obtain ⟨front, q, rfl, hoffset, hwalk⟩ := ih (Nat.zero_le _) h
                  refine ⟨front, q, rfl, ?_, ?_⟩
                  · simp [hoffset, Position.afterBlank]
                    omega
                  · rw [List.cons_append, tokensFrom_blank (lexeme_of_isBlank (isBlank_of_lexeme hlexeme) _),
                      hwalk]
              | token kind size =>
                  have hpos := (lexeme_token hlexeme).1
                  have hsize := lexeme_size hlexeme
                  rw [tokensFrom_token hlexeme] at h
                  cases hrest : tokensFrom (size - 1) (p.afterToken kind ((c :: t).take size)) t with
                  | error e => simp [hrest, Except.map] at h
                  | ok rest =>
                      rw [hrest] at h
                      obtain rfl := Except.ok.inj h
                      obtain ⟨front, q, rfl, hoffset, hwalk⟩ := ih (by omega) hrest
                      have htake : (c :: (t ++ '\n' :: v)).take size = (c :: t).take size := by
                        rw [← List.cons_append]
                        exact List.take_append_of_le_length hsize
                      refine ⟨ofText kind ((c :: t).take size) p :: front, q, rfl, ?_, ?_⟩
                      · have hwhole := congrArg byteSize (List.take_append_drop size (c :: t))
                        rw [byteSize_append, show (c :: t).drop size = t.drop (size - 1) by
                          rw [← Nat.sub_add_cancel hpos, List.drop_succ_cons, Nat.add_sub_cancel]] at hwhole
                        simp only [hoffset, Position.afterToken, List.drop_zero]
                        omega
                      · rw [List.cons_append, tokensFrom_token (lexeme_newline hlexeme v), htake, hwalk,
                          map_cons_map]

/-- Where the walk starts makes no difference but for the places of the tokens. -/
theorem tokensFrom_shift (lines bytes : Nat) {t : Text} {skip : Nat} {p : Position} {tokens : List Token}
    (h : tokensFrom skip p t = .ok tokens) :
    tokensFrom skip ⟨p.line + lines, p.offset + bytes⟩ t = .ok (tokens.map (shift lines bytes)) := by
  induction t generalizing skip p tokens with
  | nil =>
      obtain rfl := Except.ok.inj h
      simp [tokensFrom, ofText, shift, Position.afterToken]
  | cons c t ih =>
      cases skip with
      | succ skip => exact ih h
      | zero =>
          cases hlexeme : lexeme c t with
          | error fault => simp [tokensFrom, hlexeme] at h
          | ok l =>
              cases l with
              | blank =>
                  rw [tokensFrom_blank hlexeme] at h ⊢
                  rw [← ih h]
                  congr 1
                  by_cases hc : c = '\n' <;> simp [Position.afterBlank, hc] <;> omega
              | token kind size =>
                  rw [tokensFrom_token hlexeme] at h ⊢
                  cases hrest : tokensFrom (size - 1) (p.afterToken kind ((c :: t).take size)) t with
                  | error e => simp [hrest, Except.map] at h
                  | ok rest =>
                      rw [hrest] at h
                      obtain rfl := Except.ok.inj h
                      have hmore := ih hrest
                      have hplace : Position.afterToken ⟨p.line + lines, p.offset + bytes⟩ kind
                          ((c :: t).take size) =
                          ⟨(p.afterToken kind ((c :: t).take size)).line + lines,
                            (p.afterToken kind ((c :: t).take size)).offset + bytes⟩ := by
                        by_cases hkind : kind = .comment <;> simp [Position.afterToken, hkind] <;> omega
                      rw [hplace, hmore]
                      simp only [Except.map, List.map_cons, Except.ok.injEq, List.cons.injEq, and_true]
                      simp [ofText, shift, Position.afterToken]
                      omega

end Token

open Token

/-- The tokens of a source behind another one follow those of the other, on the lines behind. -/
theorem lex_append {front back : Text} {tokens more : List Token} (hfront : lex front = .ok tokens)
    (hback : lex back = .ok more) : ∃ inside last, tokens = inside ++ [last] ∧ last.isEnd = true ∧
      last.start = byteSize front ∧ lex (front ++ '\n' :: back) =
        .ok (inside ++ more.map (shift last.line (byteSize front + 1))) := by
  obtain ⟨inside, q, rfl, hoffset, hwalk⟩ := tokensFrom_newline (Nat.zero_le _) hfront back
  have hplace : q.offset = byteSize front := by simpa using hoffset
  refine ⟨inside, _, rfl, rfl, hplace, ?_⟩
  have hshift := tokensFrom_shift q.line (byteSize front + 1) hback
  have hposition : q.afterBlank '\n' = ⟨1 + q.line, 0 + (byteSize front + 1)⟩ := by
    simp [Position.afterBlank, hplace, Nat.add_comm]
    decide
  rw [lex, hwalk, tokensFrom_blank (lexeme_of_isBlank (by decide) _), hposition, hshift]
  rfl

end CodeFrames
