import CodeFrames.Proofs.Completing
import CodeFrames.Proofs.TypeNames

/-!
# Cursors in a text

Where a cursor stands is said by the text from there to the end of the source.  A reading that steps
over a text in front of another leaves the cursor in front of the other one, and the bounds of what it
has stepped over cut that text out of the source.
-/

namespace CodeFrames

open scoped Computability
open Sentence Text

/-! ## Marks -/

namespace Token

/-- The characters that are tokens of their own wherever they stand. -/
def marks : List (Char × Kind) :=
  [('(', .openParen), (')', .closeParen), ('{', .openBrace), ('}', .closeBrace),
    ('[', .openBracket), (']', .closeBracket), (';', .semicolon), (',', .comma)]

theorem lexeme_mark {c : Char} {kind : Kind} (h : (c, kind) ∈ marks) (u : Text) :
    lexeme c u = .ok (.token kind 1) := by
  have hall : ∀ m ∈ marks, m.1 ≠ '/' ∧ isBlank m.1 = false ∧ m.1 ≠ '"' ∧ m.1 ≠ '\'' ∧
      m.1.isDigit = false ∧ m.1 ≠ '.' ∧ startsName m.1 = false := by decide +kernel
  obtain ⟨hslash, hblank, hquote, hcharacter, hdigit, hdot, hname⟩ := hall _ h
  simp only [lexeme, hslash, hblank, hquote, hcharacter, hdigit, hdot, hname]
  simp only [marks, List.mem_cons, Prod.mk.injEq, List.not_mem_nil, or_false] at h
  rcases h with h | h | h | h | h | h | h | h
  all_goals
    obtain ⟨rfl, rfl⟩ := h
    rfl

theorem mem_separators_of_mark {c : Char} {kind : Kind} (h : (c, kind) ∈ marks) :
    c ∈ separators := by
  have hall : ∀ m ∈ marks, m.1 ∈ separators := by decide
  exact hall _ h

end Token

namespace Text

open Token

theorem symbols_mark {c : Char} {kind : Kind} (h : (c, kind) ∈ marks) (u : Text) :
    symbols (c :: u) = symbol kind [c] :: symbols u :=
  (splits_punctuation (lexeme_mark h) u).symbols_eq

theorem symbols_ne_nil_of_ok {u : Text} {p : Position} {tokens : List Token}
    (h : tokensFrom 0 p u = .ok tokens) : symbols u ≠ [] := by
  obtain ⟨inside, last, rfl, -⟩ := exists_end_of_tokensFrom h
  rw [symbols, ← map_bare_of_tokensFrom h]
  simp

end Text

/-! ## Standing in front of a text -/

namespace Cursor

/-- The cursor stands in front of the text, which goes on to the end of the source, and no comment is
waiting. -/
structure StandsAt (source : Text) (c : Cursor) (u : Text) : Prop where
  walk : ∃ before p, source = before ++ u ∧ p.offset = byteSize before ∧
    Token.tokensFrom 0 p u = .ok c.tokens
  comments_eq : c.comments = []

namespace StandsAt

variable {source t u : Text} {c d : Cursor} {ps : List Token}

theorem faces (h : c.StandsAt source u) : c.Faces (Token.symbols u) := by
  obtain ⟨before, p, -, -, hwalk⟩ := h.walk
  exact ⟨Token.map_bare_of_tokensFrom hwalk, h.comments_eq⟩

theorem laid (h : c.StandsAt source u) : Token.Laid source c.tokens := by
  obtain ⟨before, p, hsource, hoffset, hwalk⟩ := h.walk
  exact (Token.tokensFrom_laid hsource (by simpa using hoffset) hwalk).1

theorem of_blank (h : c.StandsAt source (' ' :: u)) : c.StandsAt source u := by
  obtain ⟨before, p, hsource, hoffset, hwalk⟩ := h.walk
  refine ⟨⟨before ++ [' '], p.afterBlank ' ', by simpa using hsource, ?_, hwalk⟩, h.comments_eq⟩
  simp [Token.Position.afterBlank, hoffset]

/-- Behind a text that is split into some tokens stands the cursor that has stepped over as many. -/
theorem of_reaches (h : c.StandsAt source (t ++ u)) (hs : Splits t u ps) (hreaches : c.Reaches d)
    (hd : d.Faces (Token.symbols u)) :
    d.StandsAt source u ∧
      (t ≠ [] → t.IsTight → Text.slice? source c.here.start d.before.stop = some t) := by
  obtain ⟨before, p, hsource, hoffset, hwalk⟩ := h.walk
  obtain ⟨passed, htokens, hbefore⟩ := hreaches
  obtain ⟨tokens, q, hbare, hq, hsplit, hfills⟩ := hs.walk p
  rw [hwalk] at hsplit
  cases hrest : Token.tokensFrom 0 q u with
  | error e => simp [hrest, Except.map] at hsplit
  | ok rest =>
      have hall : passed ++ d.tokens = tokens ++ rest := by
        rw [← htokens]
        simpa [hrest, Except.map] using hsplit
      have hlength : d.tokens.length = rest.length := by
        have := congrArg List.length (hd.tokens_eq.trans (Token.map_bare_of_tokensFrom hrest).symm)
        simpa using this
      obtain ⟨rfl, rfl⟩ := List.append_inj' hall hlength
      refine ⟨⟨⟨before ++ t, q, by simp [hsource], by simp [hq, hoffset], hrest⟩, hd.comments_eq⟩, ?_⟩
      intro hne htight
      obtain ⟨hfirst, hlast⟩ := hfills hne htight
      have hpassed : passed ≠ [] := by
        rintro rfl
        simp at hfirst
      have hstart : c.here.start = byteSize before := by
        cases passed with
        | nil => exact absurd rfl hpassed
        | cons t ts =>
            have hhere : c.here = t := (List.cons.inj htokens).1
            rw [hhere, ← hoffset]
            simpa using hfirst
      have hstop : d.before.stop = byteSize before + byteSize t := by
        rw [hbefore, List.getLastD_eq_getLast?, List.getLast?_eq_some_getLast hpassed,
          Option.getD_some, ← hoffset, ← hq]
        simpa [List.getLast?_eq_some_getLast hpassed] using hlast
      rw [hsource, hstart, hstop, slice?_append]

theorem symbols_ne_nil (h : c.StandsAt source (t ++ u)) (hs : Splits t u ps) :
    Token.symbols u ≠ [] := by
  obtain ⟨before, p, -, -, hwalk⟩ := h.walk
  obtain ⟨tokens, q, -, -, hsplit, -⟩ := hs.walk p
  rw [hwalk] at hsplit
  cases hrest : Token.tokensFrom 0 q u with
  | error e => simp [hrest, Except.map] at hsplit
  | ok rest => exact symbols_ne_nil_of_ok hrest

theorem forward (h : c.StandsAt source (t ++ u)) (hs : Splits t u ps) :
    (c.forward ps.length).StandsAt source u ∧ (t ≠ [] → t.IsTight →
      Text.slice? source c.here.start (c.forward ps.length).before.stop = some t) := by
  have hfaces := h.faces
  rw [hs.symbols_eq] at hfaces
  exact h.of_reaches hs (reaches_forward _ c) (hfaces.forward (h.symbols_ne_nil hs))

theorem advance {p : Token} (h : c.StandsAt source (t ++ u)) (hs : Splits t u [p]) :
    c.here.bare = p ∧ c.advance.StandsAt source u := by
  have hfaces := h.faces
  rw [hs.symbols_eq] at hfaces
  exact ⟨hfaces.here_eq, (h.forward hs).1⟩

/-- The text of a token is what its place in the source cuts out. -/
theorem textIn_here (h : c.StandsAt source u) : c.here.toSpan.textIn source = c.here.text := by
  rw [Span.textIn, (h.laid.liesIn c.here List.mem_cons_self).slice?_eq, Option.getD_some]

theorem length_ahead (h : c.StandsAt source u) : c.ahead.length + 1 = (Token.symbols u).length :=
  h.faces.length_ahead

end StandsAt

end Cursor

/-! ## Steps over marks, words and names -/

namespace Reading.CompletesAt

variable {α β : Type} {source t u : Text} {c : Cursor} {L : Language Event} {R : β → Cursor → Prop}

theorem expect_bind {ch : Char} {kind : Token.Kind} {symbol : String} {f : Token → Reading β}
    (h : c.StandsAt source (ch :: u)) (hmark : (ch, kind) ∈ Token.marks)
    (hf : ∀ d, d.StandsAt source u → (f c.here).CompletesAt d L R) :
    (Reading.expect kind symbol >>= f).CompletesAt c L R := by
  obtain ⟨hhere, hadvance⟩ := h.advance (splits_punctuation (Token.lexeme_mark hmark) u)
  refine (CompletesAt.expect (Q := fun t d => t = c.here ∧ d.StandsAt source u)
    (show c.here.kind = kind from congrArg Token.kind hhere) ⟨rfl, hadvance⟩).silent ?_
  rintro _ d ⟨rfl, hd⟩
  exact hf d hd

end Reading.CompletesAt

/-! ## Names and types -/

/-- A name, but not the word that can open the declaration of a record. -/
def Token.isIdentifier (t : Token) : Bool := t.isName && !t.isWord "record".toList

theorem Token.isName_of_isIdentifier {t : Token} (h : t.isIdentifier = true) : t.isName = true :=
  (Bool.and_eq_true_iff.mp h).1

structure Text.IsIdentifier (t : Text) : Prop where
  spells : t.Spells [Token.symbol .word t]
  isIdentifier : (Token.symbol .word t).isIdentifier = true

theorem Token.ne_nil_of_spells {t : Text} {p : Token} {ps : List Token} (h : t.Spells (p :: ps)) :
    t ≠ [] := by
  rintro rfl
  have hsymbols := h.symbols_eq
  simp [Token.symbols, Token.symbolsFrom] at hsymbols

namespace Reading

variable {α : Type} {source t u : Text} {c : Cursor} {L : Language Event} {R : α → Cursor → Prop}

theorem CompletesAt.expectName_bind {f : Token → Reading α} (h : c.StandsAt source (t ++ u))
    (ht : t.IsIdentifier) (hu : IsApart u)
    (hf : c.here.toSpan.textIn source = t → ∀ d, d.StandsAt source u →
      (f c.here).CompletesAt d L R) :
    (Reading.expectName >>= f).CompletesAt c L R := by
  obtain ⟨hhere, hadvance⟩ := h.advance (ht.spells.splits hu)
  have hname : c.here.isName = true := by
    rw [show c.here.isName = c.here.bare.isName from rfl, hhere]
    exact Token.isName_of_isIdentifier ht.isIdentifier
  have htext : c.here.toSpan.textIn source = t := by
    rw [h.textIn_here]
    exact congrArg Token.text hhere
  refine (CompletesAt.expectName (Q := fun t d => t = c.here ∧ d.StandsAt source u) hname
    ⟨rfl, hadvance⟩).silent ?_
  rintro _ d ⟨rfl, hd⟩
  exact hf htext d hd

/-- The report of a type with the given text. -/
def typed (source t : Text) : Language Event :=
  {es | ∃ first last, es = [.typeName first last] ∧ textThrough source first last = t}

theorem completesAt_typeName (h : c.StandsAt source (t ++ u)) (ht : t.IsType) (hu : IsApart u)
    (hends : TypeName.Ends (Token.symbols u)) :
    typeName.CompletesAt c (typed source t) fun _ d => d.StandsAt source u := by
  obtain ⟨htight, ps, hspells, hwhole, -⟩ := ht
  have hs := hspells.splits hu
  have hne : t ≠ [] := by
    obtain ⟨p, rest, rfl, -⟩ := TypeName.exists_first_of_whole hwhole
    exact Token.ne_nil_of_spells hspells
  have hlength : Token.typeLength? c.tokens = some ps.length := by
    rw [← Token.typeLength?_bare, h.faces.tokens_eq, hs.symbols_eq]
    exact TypeName.typeLength?_of_whole hwhole hends
  obtain ⟨hforward, hslice⟩ := h.forward hs
  rw [typeName]
  refine CompletesAt.cursor_bind ?_
  rw [hlength]
  refine CompletesAt.here_bind (CompletesAt.forward_bind (CompletesAt.before_bind ?_))
  refine CompletesAt.mono (CompletesAt.emit hforward) ?_
  rintro _ rfl
  refine ⟨_, _, rfl, ?_⟩
  rw [textThrough, hslice hne htight, Option.getD_some]

end Reading

end CodeFrames
