import CodeFrames.Proofs.Pieces

/-!
# Tokens tile their source

What the tokens of a source leave uncovered, comments being tokens too, are blank characters.  So the
source is its tokens with a gap of blank characters in front of each, and the end of input behind the
last gap.
-/

namespace CodeFrames

namespace Text

/-- Byte `n` of the text belongs to a blank character. -/
def IsBlankAt (t : Text) (n : Nat) : Prop :=
  ∃ before c after, t = before ++ c :: after ∧ isBlank c ∧ byteSize before ≤ n ∧
    n < byteSize before + c.utf8Size

/-- A text in front takes up its bytes. -/
theorem IsBlankAt.behind {t : Text} {n : Nat} (h : t.IsBlankAt n) (s : Text) :
    (s ++ t).IsBlankAt (byteSize s + n) := by
  obtain ⟨before, c, after, rfl, hblank, hle, hlt⟩ := h
  refine ⟨s ++ before, c, after, (List.append_assoc s before _).symm, hblank, ?_, ?_⟩
  · rw [byteSize_append]
    omega
  · rw [byteSize_append]
    omega

end Text

open Text

namespace Token

/-- The token covers byte `n`. -/
def Covers (t : Token) (n : Nat) : Prop := t.start ≤ n ∧ n < t.stop

/-- The texts of the tokens, each behind a gap of its own. -/
def woven (gaps : List Text) (tokens : List Token) : Text :=
  (List.zipWith (fun gap t => gap ++ t.text) gaps tokens).flatten

/-- The tokens are the source cut to pieces, but for blank characters. -/
structure Tiles (source : Text) (tokens : List Token) : Prop where
  ended : ∃ inside last, tokens = inside ++ [last] ∧ last.isEnd ∧ last.start = byteSize source ∧
    last.stop = byteSize source ∧ ∀ t ∈ inside, ¬ t.isEnd ∧ t.start < t.stop
  ordered : tokens.Pairwise fun t u => t.start < u.start ∧ t.stop ≤ u.start
  cut : ∀ t ∈ tokens, source.IsCut t.start ∧ source.IsCut t.stop
  slice_eq : ∀ t ∈ tokens, slice? source t.start t.stop = some t.text
  blank : ∀ n < byteSize source, (∀ t ∈ tokens, ¬ t.Covers n) → source.IsBlankAt n
  woven_eq : ∃ gaps, gaps.length = tokens.length ∧ (∀ gap ∈ gaps, ∀ c ∈ gap, isBlank c) ∧
    woven gaps tokens = source

namespace Placed

variable {n : Nat} {ps ts : List Token}

/-- The last token stands behind all pieces and takes up no bytes. -/
theorem exists_last (h : Placed n ps ts) :
    ∃ inside last, ts = inside ++ [last] ∧ last.isEnd ∧ last.start = n + byteSize (spelled ps) ∧
      last.stop = n + byteSize (spelled ps) ∧ ∀ t ∈ inside, ¬ t.isEnd := by
  induction h with
  | @nil n t ht hstart hstop =>
      have hkind := congrArg Token.kind ht
      exact ⟨[], t, rfl, by simpa [isEnd, symbol] using hkind, hstart, hstop, by simp⟩
  | blank hblank hps ih =>
      obtain ⟨inside, last, rfl, hlast, hstart, hstop, hinside⟩ := ih
      refine ⟨inside, last, rfl, hlast, ?_, ?_, hinside⟩
      · simp [hstart, symbol, Nat.add_assoc]
      · simp [hstop, symbol, Nat.add_assoc]
  | @token n t ps ts hend hstart hstop hps ih =>
      obtain ⟨inside, last, rfl, hlast, hplace, hplaceStop, hinside⟩ := ih
      refine ⟨t :: inside, last, rfl, hlast, ?_, ?_, List.forall_mem_cons.mpr ⟨hend, hinside⟩⟩
      · simp [hplace, hstop, Nat.add_assoc]
      · simp [hplaceStop, hstop, Nat.add_assoc]

/-- A byte of the pieces that no token covers belongs to a blank character. -/
theorem isBlankAt (h : Placed n ps ts) {k : Nat} (hk : k < byteSize (spelled ps))
    (hcovers : ∀ t ∈ ts, ¬ t.Covers (n + k)) : (spelled ps).IsBlankAt k := by
  induction h generalizing k with
  | nil => simp at hk
  | @blank n c ps ts hblank hps ih =>
      have hspelled : spelled (symbol .comment [c] :: ps) = [c] ++ spelled ps := rfl
      rw [hspelled] at hk ⊢
      by_cases hc : k < c.utf8Size
      · exact ⟨[], c, spelled ps, rfl, hblank, by simp, by simpa using hc⟩
      · obtain ⟨m, rfl⟩ : ∃ m, k = byteSize [c] + m := ⟨k - c.utf8Size, by simp; omega⟩
        rw [byteSize_append] at hk
        refine (ih (Nat.lt_of_add_lt_add_left hk) fun t ht => ?_).behind [c]
        simpa [Nat.add_assoc] using hcovers t ht
  | @token n t ps ts hend hstart hstop hps ih =>
      have hspelled : spelled (t.bare :: ps) = t.text ++ spelled ps := rfl
      rw [hspelled] at hk ⊢
      have hbehind : byteSize t.text ≤ k := by
        have := hcovers t List.mem_cons_self
        simp only [Covers, hstart, hstop] at this
        omega
      obtain ⟨m, rfl⟩ := Nat.exists_eq_add_of_le hbehind
      rw [byteSize_append] at hk
      refine (ih (Nat.lt_of_add_lt_add_left hk) fun u hu => ?_).behind t.text
      simpa [hstop, Nat.add_assoc] using hcovers u (List.mem_cons_of_mem t hu)

/-- The blank characters in front of each token make up its gap. -/
theorem woven_eq (h : Placed n ps ts) :
    ∃ gaps, gaps.length = ts.length ∧ (∀ gap ∈ gaps, ∀ c ∈ gap, isBlank c) ∧
      woven gaps ts = spelled ps := by
  induction h with
  | @nil n t ht =>
      have htext := congrArg Token.text ht
      exact ⟨[[]], rfl, by simp, by simpa [woven, symbol] using htext⟩
  | @blank n c ps ts hblank hps ih =>
      obtain ⟨gaps, hlength, hgaps, hwoven⟩ := ih
      obtain ⟨inside, last, rfl, -⟩ := hps.exists_last
      cases gaps with
      | nil => simp at hlength
      | cons gap gaps =>
          refine ⟨(c :: gap) :: gaps, hlength, ?_, ?_⟩
          · obtain ⟨hgap, hgaps⟩ := List.forall_mem_cons.mp hgaps
            exact List.forall_mem_cons.mpr ⟨List.forall_mem_cons.mpr ⟨hblank, hgap⟩, hgaps⟩
          · rw [spelled_cons, ← hwoven]
            cases inside <;> rfl
  | @token n t ps ts hend hstart hstop hps ih =>
      obtain ⟨gaps, hlength, hgaps, hwoven⟩ := ih
      refine ⟨[] :: gaps, congrArg (· + 1) hlength, List.forall_mem_cons.mpr ⟨by simp, hgaps⟩, ?_⟩
      rw [spelled_cons, ← hwoven]
      rfl

end Placed

end Token

theorem tiles_of_lex {source : Text} {tokens : List Token} (h : lex source = .ok tokens) :
    Token.Tiles source tokens := by
  obtain ⟨ps, -, rfl, hplaced⟩ := Token.exists_placed_of_lex h
  have hlaid := laid_of_lex h
  have hnonempty := start_lt_stop_of_lex h
  obtain ⟨inside, last, rfl, hlast, hstart, hstop, hinside⟩ := hplaced.exists_last
  rw [Nat.zero_add] at hstart hstop
  have hproper : ∀ t ∈ inside, ¬ t.isEnd ∧ t.start < t.stop := fun t ht =>
    ⟨hinside t ht, hnonempty t (List.mem_append_left _ ht) (hinside t ht)⟩
  refine ⟨⟨inside, last, rfl, hlast, hstart, hstop, hproper⟩, ?_,
    fun t ht => ⟨(hlaid.liesIn t ht).isCut_start, (hlaid.liesIn t ht).isCut_stop⟩,
    fun t ht => (hlaid.liesIn t ht).slice?_eq, fun n hn hcovers => ?_, hplaced.woven_eq⟩
  · -- Only the last token may be empty, and no other one stands behind it.
    obtain ⟨hordered, -, hlastBehind⟩ := List.pairwise_append.mp hlaid.ordered
    refine List.pairwise_append.mpr ⟨?_, List.pairwise_singleton _ _, ?_⟩
    · exact hordered.imp_of_mem fun ht _ hle => ⟨Nat.lt_of_lt_of_le (hproper _ ht).2 hle, hle⟩
    · exact fun t ht u hu => ⟨Nat.lt_of_lt_of_le (hproper t ht).2 (hlastBehind t ht u hu),
        hlastBehind t ht u hu⟩
  · exact hplaced.isBlankAt hn (by simpa using hcovers)

theorem tiles_of_lex_assignment :
    lex "é = 'x'; // ü\n".toList = .ok
      [⟨⟨1, 0, 2⟩, .word, ['é']⟩, ⟨⟨1, 3, 4⟩, .operator, ['=']⟩,
        ⟨⟨1, 5, 8⟩, .character, "'x'".toList⟩, ⟨⟨1, 8, 9⟩, .semicolon, [';']⟩,
        ⟨⟨1, 10, 15⟩, .comment, "// ü".toList⟩, ⟨⟨2, 16, 16⟩, .endOfInput, []⟩] ∧
    Token.Tiles "é = 'x'; // ü\n".toList
      [⟨⟨1, 0, 2⟩, .word, ['é']⟩, ⟨⟨1, 3, 4⟩, .operator, ['=']⟩,
        ⟨⟨1, 5, 8⟩, .character, "'x'".toList⟩, ⟨⟨1, 8, 9⟩, .semicolon, [';']⟩,
        ⟨⟨1, 10, 15⟩, .comment, "// ü".toList⟩, ⟨⟨2, 16, 16⟩, .endOfInput, []⟩] :=
  have hlex := by decide +kernel
  ⟨hlex, tiles_of_lex hlex⟩

end CodeFrames
