import CodeFrames.Proofs.Completing
import CodeFrames.Proofs.Lookahead
import CodeFrames.Reading.Statement

/-!
# An expression read in two places

The reading of an expression looks at nothing behind it but the token there.  So an expression that is
read with a semicolon behind it is read to the same end where a parenthesis, a bracket or a comma stands
behind it, with at least as many nesting levels to go.
-/

namespace CodeFrames

open scoped Computability
open Sentence

/-- The events that report nothing unsupported. -/
def quiets : Language Event := {es | ∀ place construct, Event.unsupported place construct ∉ es}

theorem append_mem_quiets {events more : List Event} :
    events ++ more ∈ quiets ↔ events ∈ quiets ∧ more ∈ quiets := by
  constructor
  · intro h
    exact ⟨fun place construct hmem => h place construct (List.mem_append_left _ hmem),
      fun place construct hmem => h place construct (List.mem_append_right _ hmem)⟩
  · rintro ⟨h, g⟩ place construct hmem
    rcases List.mem_append.mp hmem with hmem | hmem
    · exact h place construct hmem
    · exact g place construct hmem

theorem cons_mem_quiets {e : Event} {events : List Event}
    (he : ∀ place construct, e ≠ .unsupported place construct) :
    e :: events ∈ quiets ↔ events ∈ quiets := by
  rw [← List.singleton_append, append_mem_quiets]
  refine ⟨fun h => h.2, fun h => ⟨fun place construct hmem => ?_, h⟩⟩
  exact he place construct (List.mem_singleton.mp hmem).symm

theorem nil_mem_quiets : [] ∈ quiets := fun _ _ => List.not_mem_nil

namespace Token

/-- Every bracket in the tokens is closed there, and no type test is made. -/
structure Sound (ps : List Token) : Prop where
  closed : ∀ t ts, t :: ts <:+ ps → t.kind.isOpener = true →
    ∃ inside closer rest, ts = inside ++ closer :: rest ∧
      Kind.matches t.kind closer.kind = true ∧ Nested inside
  noTest : ∀ t ∈ ps, t.isWord "instanceof".toList = false

theorem Sound.of_suffix {ps qs : List Token} (h : Sound qs) (hsuffix : ps <:+ qs) : Sound ps :=
  ⟨fun t ts hts => h.closed t ts (hts.trans hsuffix), fun t ht => h.noTest t (hsuffix.mem ht)⟩

/-- The tokens that may stand behind an expression. -/
def delimiters : List Kind := [.semicolon, .closeParen, .closeBracket, .comma]

def Delimits (t : Token) : Prop := t.kind ∈ delimiters

theorem Delimits.kind_ne {t : Token} (h : t.Delimits) {kind : Kind} (hkind : kind ∉ delimiters) :
    t.kind ≠ kind := fun heq => hkind (heq ▸ h)

theorem delimits_of_semicolon {t : Token} (h : t.kind = .semicolon) : t.Delimits := by
  simp [Delimits, delimiters, h]

end Token

/-! ## The same tokens ahead -/

theorem Token.eq_of_bare {α : Type} (f : Token → α) (hf : ∀ t, f t.bare = f t) {t u : Token}
    (h : t.bare = u.bare) : f t = f u := by
  rw [← hf t, h, hf u]

/-- What stands behind an expression in two places where it is read. -/
structure Behind where
  first : Token
  rest : List Token
  first' : Token
  rest' : List Token

/-- Two cursors in front of the same tokens of an expression. -/
structure Alike (b : Behind) (ps : List Token) (c c' : Cursor) : Prop where
  sound : Token.Sound ps
  semicolon : b.first.kind = .semicolon
  delimits : b.first'.Delimits
  faces : c.Faces (ps ++ b.first :: b.rest)
  faces' : c'.Faces (ps ++ b.first' :: b.rest')

variable {b : Behind}

theorem Cursor.nextIs_eq {c : Cursor} (h : c.ahead ≠ []) (p : Token → Bool) :
    c.nextIs p = p c.advance.here := by
  obtain ⟨before, here, ahead, comments⟩ := c
  cases ahead with
  | nil => exact absurd rfl h
  | cons t ts => rfl

namespace Alike

variable {ps : List Token} {c c' : Cursor}

theorem cases_here (h : Alike b ps c c') :
    (ps = [] ∧ c.here.bare = b.first ∧ c'.here.bare = b.first') ∨
      ∃ t rest, ps = t :: rest ∧ c.here.bare = t ∧ c'.here.bare = t := by
  cases ps with
  | nil => exact .inl ⟨rfl, h.faces.here_eq, h.faces'.here_eq⟩
  | cons t rest => exact .inr ⟨t, rest, rfl, h.faces.here_eq, h.faces'.here_eq⟩

/-- A test that none of the delimiters passes comes out the same. -/
theorem test (h : Alike b ps c c') {p : Token → Bool} (hp : ∀ t, p t.bare = p t)
    (hdelimits : ∀ t : Token, t.Delimits → p t = false) : p c'.here = p c.here := by
  rcases h.cases_here with ⟨-, hs, hq⟩ | ⟨t, rest, -, ht, ht'⟩
  · rw [← hp c.here, ← hp c'.here, hs, hq, hdelimits _ (Token.delimits_of_semicolon h.semicolon), hdelimits _ h.delimits]
  · rw [← hp c.here, ← hp c'.here, ht, ht']

/-- So does every other test where the first cursor is not at the semicolon. -/
theorem test_inside (h : Alike b ps c c') (hkind : c.here.kind ≠ .semicolon) {p : Token → Bool}
    (hp : ∀ t, p t.bare = p t) : p c'.here = p c.here := by
  rcases h.cases_here with ⟨-, hs, -⟩ | ⟨t, rest, -, ht, ht'⟩
  · exact absurd ((congrArg Token.kind hs).trans h.semicolon) hkind
  · rw [← hp c.here, ← hp c'.here, ht, ht']

theorem isAt (h : Alike b ps c c') {kind : Token.Kind} (hkind : kind ∉ Token.delimiters) :
    c'.isAt kind = c.isAt kind :=
  h.test (p := fun t => decide (t.kind = kind)) (fun _ => rfl)
    fun t ht => by simp [ht.kind_ne hkind]

theorem isAtWord (h : Alike b ps c c') (word : String) : c'.isAtWord word = c.isAtWord word :=
  h.test (p := (·.isWord word.toList)) (fun _ => rfl)
    fun t ht => by simp [Token.isWord, ht.kind_ne (by decide : Token.Kind.word ∉ Token.delimiters)]

theorem isAtOperator (h : Alike b ps c c') (operator : String) :
    c'.isAtOperator operator = c.isAtOperator operator :=
  h.test (p := (·.isOperator operator.toList)) (fun _ => rfl)
    fun t ht => by simp [Token.isOperator, ht.kind_ne (by decide : Token.Kind.operator ∉ Token.delimiters)]

theorem isOperatorIn (h : Alike b ps c c') (operators : List Text) :
    c'.here.isOperatorIn operators = c.here.isOperatorIn operators :=
  h.test (p := (·.isOperatorIn operators)) (fun _ => rfl)
    fun t ht => by simp [Token.isOperatorIn, ht.kind_ne (by decide : Token.Kind.operator ∉ Token.delimiters)]

theorem bare_eq (h : Alike b ps c c') (hkind : c.here.kind ≠ .semicolon) :
    c'.here.bare = c.here.bare := by
  rcases h.cases_here with ⟨-, hs, -⟩ | ⟨t, rest, -, ht, ht'⟩
  · exact absurd ((congrArg Token.kind hs).trans h.semicolon) hkind
  · rw [ht, ht']

theorem kind_eq (h : Alike b ps c c') (hkind : c.here.kind ≠ .semicolon) :
    c'.here.kind = c.here.kind :=
  Token.eq_of_bare Token.kind (fun _ => rfl) (h.bare_eq hkind)

/-- Both cursors can step over a token that is not the semicolon. -/
theorem advance (h : Alike b ps c c') (hkind : c.here.kind ≠ .semicolon) :
    ∃ t rest, ps = t :: rest ∧ c.here.bare = t ∧ c'.here.bare = t ∧
      Alike b rest c.advance c'.advance := by
  rcases h.cases_here with ⟨-, hs, -⟩ | ⟨t, rest, rfl, ht, ht'⟩
  · exact absurd ((congrArg Token.kind hs).trans h.semicolon) hkind
  · exact ⟨t, rest, rfl, ht, ht', h.sound.of_suffix (List.suffix_cons t rest), h.semicolon,
      h.delimits, h.faces.advance (by simp), h.faces'.advance (by simp)⟩

theorem forward (h : Alike b ps c c') {n : Nat} (hn : n ≤ ps.length) :
    Alike b (ps.drop n) (c.forward n) (c'.forward n) := by
  have hlength : (ps.take n).length = n := by simp [hn]
  have hfaces := h.faces
  have hfaces' := h.faces'
  rw [← List.take_append_drop n ps, List.append_assoc] at hfaces hfaces'
  refine ⟨h.sound.of_suffix (List.drop_suffix n ps), h.semicolon, h.delimits, ?_, ?_⟩
  · have := hfaces.forward (by simp)
    rwa [hlength] at this
  · have := hfaces'.forward (by simp)
    rwa [hlength] at this

theorem ahead_ne_nil (h : Alike b ps c c') (hkind : c.here.kind ≠ .semicolon) :
    c.ahead ≠ [] ∧ c'.ahead ≠ [] := by
  obtain ⟨t, rest, rfl, -⟩ := h.advance hkind
  have hlength := h.faces.length_ahead
  have hlength' := h.faces'.length_ahead
  simp only [List.length_append, List.length_cons] at hlength hlength'
  exact ⟨List.ne_nil_of_length_pos (by omega), List.ne_nil_of_length_pos (by omega)⟩

theorem nextIs (h : Alike b ps c c') (hkind : c.here.kind ≠ .semicolon) {p : Token → Bool}
    (hp : ∀ t, p t.bare = p t) (hdelimits : ∀ t : Token, t.Delimits → p t = false) :
    c'.nextIs p = c.nextIs p := by
  obtain ⟨t, rest, -, -, -, hadvance⟩ := h.advance hkind
  obtain ⟨hahead, hahead'⟩ := h.ahead_ne_nil hkind
  rw [Cursor.nextIs_eq hahead, Cursor.nextIs_eq hahead', hadvance.test hp hdelimits]

end Alike

/-! ## Runs that follow each other -/

variable {α β : Type}

/-- Where the first run succeeds quietly and ends as it is asked to, so does the second one, in front
of the same tokens. -/
def Tracks (b : Behind) (S : Cursor → Prop) (ps : List Token) (Q : List Token → α → α → Prop)
    (out out' : List Event × Except SourceError (α × Cursor)) : Prop :=
  ∀ events x d, out = (events, .ok (x, d)) → events ∈ quiets → S d →
    ∃ events' y d' rest, out' = (events', .ok (y, d')) ∧ events' ∈ quiets ∧ rest <:+ ps ∧
      Alike b rest d d' ∧ Q rest x y

/-- The first run does not stop in front of the semicolon. -/
def Unended (d : Cursor) : Prop := d.here.kind ≠ .semicolon

/-- Both rounds give the same answer, and if it is that there is another one, then a token has been
stepped over. -/
def Again (ps rest : List Token) (again again' : Bool) : Prop :=
  again' = again ∧ (again = true → rest.length < ps.length)

theorem Again.mono {ps qs rest : List Token} {again again' : Bool} (h : Again ps rest again again')
    (hle : ps.length ≤ qs.length) : Again qs rest again again' :=
  ⟨h.1, fun hagain => Nat.lt_of_lt_of_le (h.2 hagain) hle⟩

theorem Again.stop {ps : List Token} : Again ps ps false false := ⟨rfl, fun h => by cases h⟩

theorem Again.go_on {ps rest : List Token} (h : rest.length < ps.length) : Again ps rest true true :=
  ⟨rfl, fun _ => h⟩

namespace Tracks

variable {S : Cursor → Prop} {ps : List Token} {Q : List Token → α → α → Prop}

theorem of_error {events : List Event} {e : SourceError}
    {out' : List Event × Except SourceError (α × Cursor)} :
    Tracks b S ps Q (events, .error e) out' := by
  rintro _ x d ⟨⟩

theorem imp {Q' : List Token → α → α → Prop}
    {out out' : List Event × Except SourceError (α × Cursor)} (h : Tracks b S ps Q out out')
    (hQ : ∀ rest x y, rest <:+ ps → Q rest x y → Q' rest x y) : Tracks b S ps Q' out out' := by
  intro events x d hout hquiet hS
  obtain ⟨events', y, d', rest, hout', hquiet', hsuffix, halike, hxy⟩ := h events x d hout hquiet hS
  exact ⟨events', y, d', rest, hout', hquiet', hsuffix, halike, hQ rest x y hsuffix hxy⟩

theorem of_suffix {rest : List Token} {out out' : List Event × Except SourceError (α × Cursor)}
    (h : Tracks b S rest Q out out') (hsuffix : rest <:+ ps) : Tracks b S ps Q out out' := by
  intro events x d hout hquiet hS
  obtain ⟨events', y, d', last, hout', hquiet', hlast, hends⟩ := h events x d hout hquiet hS
  exact ⟨events', y, d', last, hout', hquiet', hlast.trans hsuffix, hends⟩

theorem bind {T : Cursor → Prop} {R : List Token → β → β → Prop} {r r' : Reading α}
    {f f' : α → Reading β} {c c' : Cursor} (h : Tracks b S ps Q (r c) (r' c'))
    (hS : ∀ x d events y e, f x d = (events, .ok (y, e)) → T e → S d)
    (hf : ∀ rest x y d d', rest <:+ ps → Alike b rest d d' → Q rest x y →
      Tracks b T rest R (f x d) (f' y d')) :
    Tracks b T ps R ((r >>= f) c) ((r' >>= f') c') := by
  intro events y e hout hquiet hT
  obtain ⟨first, x, d, more, hr, hmore, rfl⟩ := Reading.exists_of_bind_ok hout
  obtain ⟨hfirst, hrest⟩ := append_mem_quiets.mp hquiet
  obtain ⟨first', x', d', rest, hr', hquiet', hsuffix, halike, hxy⟩ :=
    h first x d hr hfirst (hS x d more y e hmore hT)
  obtain ⟨more', y', e', last, hout', hlast, hsuffix', hends, hR⟩ :=
    hf rest x x' d d' hsuffix halike hxy more y e hmore hrest hT
  refine ⟨first' ++ more', y', e', last, ?_, append_mem_quiets.mpr ⟨hquiet', hlast⟩,
    hsuffix'.trans hsuffix, hends, hR⟩
  rw [Reading.bind_of_ok f' hr', hout']

theorem pure {c c' : Cursor} (h : Alike b ps c c') {x y : α} (hQ : Q ps x y) :
    Tracks b S ps Q ((Pure.pure x : Reading α) c) ((Pure.pure y : Reading α) c') := by
  rintro events z d hout hquiet -
  obtain ⟨rfl, hout⟩ := Prod.mk.injEq .. |>.mp hout
  obtain ⟨rfl, rfl⟩ := by simpa using hout
  exact ⟨[], y, c', ps, rfl, nil_mem_quiets, List.suffix_refl ps, h, hQ⟩

theorem cond {t t' : Bool} (ht : t' = t) {r r' u u' : Reading α} {c c' : Cursor}
    (htrue : t = true → Tracks b S ps Q (r c) (r' c'))
    (hfalse : t = false → Tracks b S ps Q (u c) (u' c')) :
    Tracks b S ps Q ((if t = true then r else u) c) ((if t' = true then r' else u') c') := by
  subst ht
  cases t' with
  | true => exact htrue rfl
  | false => exact hfalse rfl

/-- Both runs report an event of their own that is not the report of an unsupported construct. -/
theorem emit_bind {R : List Token → β → β → Prop} {e e' : Event} {f f' : Unit → Reading β}
    {c c' : Cursor} (he : ∀ place construct, e' ≠ .unsupported place construct)
    (h : Tracks b S ps R (f () c) (f' () c')) :
    Tracks b S ps R ((Reading.emit e >>= f) c) ((Reading.emit e' >>= f') c') := by
  intro events y d hout hquiet hS
  rw [Reading.bind_of_ok f rfl, Prod.mk.injEq] at hout
  obtain ⟨rfl, hout⟩ := hout
  obtain ⟨events', y', d', rest, hout', hquiet', hsuffix, halike, hxy⟩ :=
    h _ y d (Prod.ext rfl hout) (append_mem_quiets.mp hquiet).2 hS
  refine ⟨[e'] ++ events', y', d', rest, ?_, append_mem_quiets.mpr ⟨?_, hquiet'⟩, hsuffix, halike,
    hxy⟩
  · rw [Reading.bind_of_ok f' rfl, hout']
  · intro place construct hmem
    exact he place construct (List.mem_singleton.mp hmem).symm

theorem emit {e e' : Event} {c c' : Cursor} {Q : List Token → Unit → Unit → Prop}
    (he : ∀ place construct, e' ≠ .unsupported place construct) (h : Alike b ps c c') (hQ : Q ps () ()) :
    Tracks b S ps Q (Reading.emit e c) (Reading.emit e' c') :=
  emit_bind he (pure h hQ)

theorem take_bind {R : List Token → β → β → Prop} {f f' : Token → Reading β} {c c' : Cursor}
    (h : Alike b ps c c') (hkind : c.here.kind ≠ .semicolon)
    (hf : ∀ rest, rest <:+ ps → rest.length < ps.length → Alike b rest c.advance c'.advance →
      Tracks b S rest R (f c.here c.advance) (f' c'.here c'.advance)) :
    Tracks b S ps R ((Reading.take >>= f) c) ((Reading.take >>= f') c') := by
  obtain ⟨t, rest, rfl, -, -, hadvance⟩ := h.advance hkind
  have hsuffix := List.suffix_cons t rest
  exact (hf rest hsuffix (by simp) hadvance).of_suffix hsuffix

/-- A token that the first run finds where it asks for one is found by the second. -/
theorem demand_bind {R : List Token → β → β → Prop} {p : Token → Bool} {expected : Expectation}
    {f f' : Token → Reading β} {c c' : Cursor} (h : Alike b ps c c') (hp : ∀ t, p t.bare = p t)
    (hsemicolon : ∀ t : Token, t.kind = .semicolon → p t = false)
    (hf : ∀ rest, rest <:+ ps → rest.length < ps.length → Alike b rest c.advance c'.advance →
      Tracks b S rest R (f c.here c.advance) (f' c'.here c'.advance)) :
    Tracks b S ps R
      (((do if p (← Reading.here) then Reading.take else Reading.refuse expected) >>= f) c)
      (((do if p (← Reading.here) then Reading.take else Reading.refuse expected) >>= f') c') := by
  have hbind (d : Cursor) (g : Token → Reading β) :
      ((do if p (← Reading.here) then Reading.take else Reading.refuse expected) >>= g) d =
        ((if p d.here then Reading.take else Reading.refuse expected) >>= g) d := rfl
  rw [hbind, hbind]
  by_cases hat : p c.here = true
  · have hkind : c.here.kind ≠ .semicolon := fun hkind => by simp [hsemicolon _ hkind] at hat
    rw [if_pos hat, if_pos ((h.test_inside hkind hp).trans hat)]
    exact take_bind h hkind hf
  · rw [if_neg hat]
    exact of_error (e := ⟨c.here.line, .expected expected c.here.found⟩)

theorem expect_bind {R : List Token → β → β → Prop} {kind : Token.Kind} {symbol : String}
    {f f' : Token → Reading β} {c c' : Cursor} (h : Alike b ps c c') (hkind : kind ≠ .semicolon)
    (hf : ∀ rest, rest <:+ ps → rest.length < ps.length → Alike b rest c.advance c'.advance →
      Tracks b S rest R (f c.here c.advance) (f' c'.here c'.advance)) :
    Tracks b S ps R ((Reading.expect kind symbol >>= f) c)
      ((Reading.expect kind symbol >>= f') c') :=
  demand_bind (p := fun t => decide (t.kind = kind)) h (fun _ => rfl)
    (fun t ht => by simp [ht, hkind.symm]) hf

theorem expectOperator_bind {R : List Token → β → β → Prop} {operator : String}
    {f f' : Token → Reading β} {c c' : Cursor} (h : Alike b ps c c')
    (hf : ∀ rest, rest <:+ ps → rest.length < ps.length → Alike b rest c.advance c'.advance →
      Tracks b S rest R (f c.here c.advance) (f' c'.here c'.advance)) :
    Tracks b S ps R ((Reading.expectOperator operator >>= f) c)
      ((Reading.expectOperator operator >>= f') c') :=
  demand_bind (p := (·.isOperator operator.toList)) h (fun _ => rfl)
    (fun t ht => by simp [Token.isOperator, ht]) hf

theorem expectName_bind {R : List Token → β → β → Prop} {f f' : Token → Reading β} {c c' : Cursor}
    (h : Alike b ps c c')
    (hf : ∀ rest, rest <:+ ps → rest.length < ps.length → Alike b rest c.advance c'.advance →
      Tracks b S rest R (f c.here c.advance) (f' c'.here c'.advance)) :
    Tracks b S ps R ((Reading.expectName >>= f) c) ((Reading.expectName >>= f') c') :=
  demand_bind (p := Token.isName) h (fun _ => rfl)
    (fun t ht => by simp [Token.isName, Token.isAnyWord, ht]) hf

/-- Loops follow each other if their rounds do.  Where the first loop has to end as it is asked to, no round may start otherwise. -/
theorem loop {body body' : Reading Bool}
    (hbody : ∀ rest c c', rest <:+ ps → Alike b rest c c' →
      Tracks b S rest (Again rest) (body c) (body' c'))
    (hstays : ∀ c events x d, body c = (events, .ok (x, d)) → S c)
    {budget budget' : List Token} {c c' : Cursor} (h : Alike b ps c c')
    (hbudget : ps.length ≤ budget.length) (hbudget' : ps.length ≤ budget'.length) :
    Tracks b S ps (fun _ _ _ => True) (Reading.loop body budget c)
      (Reading.loop body' budget' c') := by
  induction budget generalizing ps budget' c c' with
  | nil =>
      obtain rfl : ps = [] := by simpa using hbudget
      intro events x d hout hquiet hS
      rw [Reading.loop] at hout
      obtain ⟨first, again, e, more, hr, hmore, rfl⟩ := Reading.exists_of_bind_ok hout
      obtain ⟨rfl, hmore⟩ := Prod.mk.injEq .. |>.mp hmore
      obtain ⟨-, rfl⟩ := by simpa using hmore
      obtain ⟨events', again', d', rest, hr', hquiet', hsuffix, halike, rfl, hless⟩ :=
        hbody [] c c' (List.suffix_refl _) h first again d hr (append_mem_quiets.mp hquiet).1 hS
      cases again' with
      | true => exact absurd (hless rfl) (Nat.not_lt_zero _)
      | false =>
          exact ⟨events', (), d', rest, Reading.loop_of_false hr' budget', hquiet', hsuffix, halike,
            trivial⟩
  | cons t budget ih =>
      intro events x d hout hquiet hS
      rw [Reading.loop] at hout
      obtain ⟨first, again, e, more, hr, hmore, rfl⟩ := Reading.exists_of_bind_ok hout
      obtain ⟨hfirst, hrest⟩ := append_mem_quiets.mp hquiet
      cases again with
      | false =>
          obtain ⟨rfl, hmore⟩ := Prod.mk.injEq .. |>.mp hmore
          obtain ⟨-, rfl⟩ := by simpa using hmore
          obtain ⟨events', again', d', rest, hr', hquiet', hsuffix, halike, rfl, -⟩ :=
            hbody ps c c' (List.suffix_refl _) h first false d hr hfirst hS
          exact ⟨events', (), d', rest, Reading.loop_of_false hr' budget', hquiet', hsuffix, halike,
            trivial⟩
      | true =>
          rw [if_pos rfl] at hmore
          have hSe : S e := by
            cases budget with
            | nil =>
                rw [Reading.loop] at hmore
                obtain ⟨_, _, _, _, hbody, _⟩ := Reading.exists_of_bind_ok hmore
                exact hstays _ _ _ _ hbody
            | cons u budget =>
                rw [Reading.loop] at hmore
                obtain ⟨_, _, _, _, hbody, _⟩ := Reading.exists_of_bind_ok hmore
                exact hstays _ _ _ _ hbody
          obtain ⟨events', again', d', rest, hr', hquiet', hsuffix, halike, rfl, hless⟩ :=
            hbody ps c c' (List.suffix_refl _) h first true e hr hfirst hSe
          have hshort := hless rfl
          cases budget' with
          | nil =>
              simp only [List.length_nil, Nat.le_zero_eq] at hbudget'
              omega
          | cons u budget' =>
              simp only [List.length_cons] at hbudget hbudget'
              obtain ⟨more', y, e', last, hr'', hquiet'', hsuffix', hends, -⟩ :=
                ih (fun r c c' hr => hbody r c c' (hr.trans hsuffix)) halike (by omega)
                  (show rest.length ≤ budget'.length by omega) more x d hmore hrest hS
              refine ⟨events' ++ more', (), e', last, ?_, append_mem_quiets.mpr ⟨hquiet', hquiet''⟩,
                hsuffix'.trans hsuffix, hends, trivial⟩
              rw [Reading.loop_of_true hr', hr'']

theorem repeatWhile {body body' : Reading Bool}
    (hbody : ∀ rest c c', rest <:+ ps → Alike b rest c c' →
      Tracks b S rest (Again rest) (body c) (body' c'))
    (hstays : ∀ c events x d, body c = (events, .ok (x, d)) → S c) {c c' : Cursor}
    (h : Alike b ps c c') :
    Tracks b S ps (fun _ _ _ => True) (Reading.repeatWhile body c) (Reading.repeatWhile body' c') := by
  have hlength := h.faces.length_ahead
  have hlength' := h.faces'.length_ahead
  simp only [List.length_append, List.length_cons] at hlength hlength'
  exact loop hbody hstays h (by omega) (by omega)

end Tracks

/-! ## Productions -/

/-- From alike cursors the second reading does as the first one does. -/
def Follows (b : Behind) (r r' : Reading Unit) : Prop :=
  ∀ ps c c', Alike b ps c c' →
    Tracks b (fun _ => True) ps (fun _ _ _ => True) (r c) (r' c')

/-- The rounds of a loop. -/
def RoundFollows (b : Behind) (S : Cursor → Prop) (r r' : Reading Bool) : Prop :=
  ∀ ps c c', Alike b ps c c' → Tracks b S ps (Again ps) (r c) (r' c')

structure Enclosed.Follows (b : Behind) (inner inner' : Enclosed) : Prop where
  assignment : CodeFrames.Follows b inner.assignment inner'.assignment
  branches : CodeFrames.Follows b inner.branches inner'.branches
  arrayInitializer : CodeFrames.Follows b inner.arrayInitializer inner'.arrayInitializer

namespace Follows

theorem refuse_left {r' : Reading Unit} {expected : Expectation} :
    Follows b (Reading.refuse expected) r' := fun _ c _ _ =>
  Tracks.of_error (e := ⟨c.here.line, .expected expected c.here.found⟩)

theorem pure : Follows b (Pure.pure ()) (Pure.pure ()) := fun _ _ _ h => Tracks.pure h trivial

theorem bind {f f' : Unit → Reading Unit} {r r' : Reading Unit} (h : Follows b r r')
    (hf : Follows b (f ()) (f' ())) : Follows b (r >>= f) (r' >>= f') := fun ps c c' hc =>
  (h ps c c' hc).bind (fun _ _ _ _ _ _ _ => trivial) fun rest _ _ d d' _ hd _ => hf rest d d' hd

theorem repeatWhile {body body' : Reading Bool} (h : RoundFollows b (fun _ => True) body body') :
    Follows b (Reading.repeatWhile body) (Reading.repeatWhile body') := fun _ _ _ hc =>
  Tracks.repeatWhile (fun rest d d' _ hd => h rest d d' hd) (fun _ _ _ _ _ => trivial) hc

end Follows

namespace Reading

variable {inner inner' : Enclosed}

theorem endsExpression_of_semicolon {t : Token} (h : t.kind = .semicolon) :
    t.endsExpression = true := by simp [Token.endsExpression, h]

theorem follows_expression (h : inner.Follows b inner') :
    Follows b (expression inner) (expression inner') := by
  intro ps c c' hc
  change Tracks b _ ps _ ((if c.here.endsExpression = true then _ else _ : Reading Unit) c)
    ((if c'.here.endsExpression = true then _ else _ : Reading Unit) c')
  by_cases hends : c.here.endsExpression = true
  · rw [if_pos hends]
    exact Tracks.of_error (e := ⟨c.here.line, .expected .expression c.here.found⟩)
  · have hkind : c.here.kind ≠ .semicolon := fun hkind => hends (endsExpression_of_semicolon hkind)
    rw [if_neg hends, if_neg (by rwa [hc.test_inside hkind (p := Token.endsExpression) fun _ => rfl])]
    refine Tracks.emit_bind (by simp) ((h.assignment ps c c' hc).bind
      (fun _ _ _ _ _ _ _ => trivial) fun rest _ _ d d' _ hd _ => ?_)
    exact Tracks.emit (by simp) hd trivial

/-- A comma behind an expression, where the first run does not stop in front of the semicolon. -/
theorem roundFollows_comma : RoundFollows b Unended comma comma := by
  intro ps c c' hc
  change Tracks b _ ps _ ((if c.isAt .comma = true then _ else _ : Reading Bool) c)
    ((if c'.isAt .comma = true then _ else _ : Reading Bool) c')
  by_cases hkind : c.here.kind = .semicolon
  · rw [if_neg (by simp [Cursor.isAt, hkind])]
    rintro events x d hout - hinside
    obtain ⟨-, hout⟩ := Prod.mk.injEq .. |>.mp hout
    obtain ⟨-, rfl⟩ := by simpa using hout
    exact absurd hkind hinside
  · rw [show c'.isAt .comma = c.isAt .comma from
      hc.test_inside hkind (p := fun t => decide (t.kind = .comma)) fun _ => rfl]
    split
    · exact Tracks.take_bind hc hkind fun _ _ hless hrest => Tracks.pure hrest (.go_on hless)
    · exact Tracks.pure hc .stop

theorem unended_of_expression {inner : Enclosed} {c d : Cursor} {events : List Event}
    (h : expression inner c = (events, .ok ((), d))) : Unended c := by
  intro hkind
  change (if c.here.endsExpression = true then _ else _ : Reading Unit) c = _ at h
  rw [if_pos (endsExpression_of_semicolon hkind)] at h
  cases h

/-- An argument and the comma behind it. -/
def argumentRound (inner : Enclosed) : Reading Bool := do
  emit (.argument (← here).toSpan)
  expression inner
  comma

theorem unended_of_argumentRound {c d : Cursor} {events : List Event} {again : Bool}
    (h : argumentRound inner c = (events, .ok (again, d))) : Unended c := by
  change (emit (.argument c.here.toSpan) >>= fun _ => expression inner >>= fun _ => comma) c = _ at h
  obtain ⟨_, _, _, _, ⟨⟩, h, -⟩ := exists_of_bind_ok h
  obtain ⟨_, _, _, _, hexpression, -⟩ := exists_of_bind_ok h
  exact unended_of_expression hexpression

theorem unended_of_loop {body : Reading Bool} {S : Cursor → Prop}
    (hbody : ∀ c events x d, body c = (events, .ok (x, d)) → S c) {budget : List Token} {c d : Cursor}
    {events : List Event} {u : Unit} (h : loop body budget c = (events, .ok (u, d))) : S c := by
  cases budget with
  | nil =>
      obtain ⟨_, _, _, _, h, -⟩ := exists_of_bind_ok h
      exact hbody _ _ _ _ h
  | cons t budget =>
      obtain ⟨_, _, _, _, h, -⟩ := exists_of_bind_ok h
      exact hbody _ _ _ _ h

theorem roundFollows_argument (h : inner.Follows b inner') :
    RoundFollows b Unended (argumentRound inner) (argumentRound inner') := by
  intro ps c c' hc
  change Tracks b _ ps _ ((emit (.argument c.here.toSpan) >>= fun _ => expression inner >>= fun _ =>
    comma) c) ((emit (.argument c'.here.toSpan) >>= fun _ => expression inner' >>= fun _ => comma) c')
  refine Tracks.emit_bind (by simp) ((follows_expression h ps c c' hc).bind
    (fun _ _ _ _ _ _ _ => trivial) fun rest _ _ d d' hsuffix hd _ => ?_)
  exact (roundFollows_comma rest d d' hd).imp fun _ _ _ _ hround => hround.mono hsuffix.length_le

theorem kind_of_expect {kind : Token.Kind} {symbol : String} {f : Token → Reading Unit} {c d : Cursor}
    {events : List Event} (h : (expect kind symbol >>= f) c = (events, .ok ((), d))) :
    c.here.kind = kind := by
  obtain ⟨_, _, _, _, h, -⟩ := exists_of_bind_ok h
  change (if c.isAt kind = true then _ else _ : Reading Token) c = _ at h
  split at h
  · next hat => simpa [Cursor.isAt] using hat
  · cases h

/-- Rounds inside brackets and the closing bracket behind them. -/
theorem follows_closed {body body' : Reading Bool} (hbody : RoundFollows b Unended body body')
    (hinside : ∀ c events x d, body c = (events, .ok (x, d)) → Unended c) {kind : Token.Kind}
    (hkind : kind ≠ .semicolon) {symbol : String} {f f' : Token → Reading Unit}
    (hclose : Follows b (expect kind symbol >>= f) (expect kind symbol >>= f')) :
    Follows b (repeatWhile body >>= fun _ => expect kind symbol >>= f)
      (repeatWhile body' >>= fun _ => expect kind symbol >>= f') := by
  intro ps c c' hc
  have hloop := Tracks.repeatWhile (fun rest d d' _ hd => hbody rest d d' hd) hinside hc
  refine hloop.bind ?_ fun rest _ _ d d' _ hd _ => hclose rest d d' hd
  intro _ d events y e hrun _
  have hat := kind_of_expect hrun
  exact fun hsemicolon => hkind (hat.symm.trans hsemicolon)

theorem follows_arguments (h : inner.Follows b inner') :
    Follows b (arguments inner) (arguments inner') := by
  intro ps c c' hc
  refine Tracks.expect_bind hc (by decide) fun rest _ _ hrest => Tracks.emit_bind (by simp) ?_
  have hclose : Follows b (expect .closeParen ")" >>= fun t => emit (.closeArguments t.toSpan))
      (expect .closeParen ")" >>= fun t => emit (.closeArguments t.toSpan)) :=
    fun _ _ _ hc => Tracks.expect_bind hc (by decide) fun _ _ _ hrest =>
      Tracks.emit (by simp) hrest trivial
  have hall := follows_closed (roundFollows_argument h) (fun _ _ _ _ => unended_of_argumentRound)
    (by decide) hclose
  generalize c.advance = d at hrest ⊢
  generalize c'.advance = d' at hrest ⊢
  change Tracks b _ rest _ ((if (!d.isAt .closeParen) = true then _ else _ : Reading Unit) d)
    ((if (!d'.isAt .closeParen) = true then _ else _ : Reading Unit) d')
  by_cases hkind : d.here.kind = .semicolon
  · rw [if_pos (by simp [Cursor.isAt, hkind])]
    intro events x e hrun
    obtain ⟨_, _, _, _, hloop, -⟩ := exists_of_bind_ok hrun
    have hinside (c : Cursor) (events : List Event) (x : Bool) (d : Cursor)
        (h : argumentRound inner c = (events, .ok (x, d))) : Unended c := unended_of_argumentRound h
    exact absurd hkind (unended_of_loop hinside hloop)
  · rw [show d'.isAt .closeParen = d.isAt .closeParen from
      hrest.test_inside hkind (p := fun t => decide (t.kind = .closeParen)) fun _ => rfl]
    split
    · exact hall rest d d' hrest
    · exact hclose rest d d' hrest

theorem follows_optionalArguments (h : inner.Follows b inner') :
    Follows b (optionalArguments inner) (optionalArguments inner') := by
  intro ps c c' hc
  change Tracks b _ ps _ ((if c.isAt .openParen = true then _ else _ : Reading Unit) c)
    ((if c'.isAt .openParen = true then _ else _ : Reading Unit) c')
  rw [hc.isAt (by decide)]
  split
  · exact follows_arguments h ps c c' hc
  · exact Follows.pure ps c c' hc

/-- A value of an array initializer and the comma behind it. -/
def valueRound (inner : Enclosed) : Reading Bool := do
  let c ← cursor
  if c.isAt .closeBrace then return false
  if c.isAt .openBrace then inner.arrayInitializer else expression inner
  comma

theorem unended_of_valueRound {c d : Cursor} {events : List Event} {again : Bool}
    (h : valueRound inner c = (events, .ok (again, d))) : Unended c := by
  intro hkind
  change (if c.isAt .closeBrace = true then _ else if c.isAt .openBrace = true then _ else
    expression inner >>= fun _ => comma : Reading Bool) c = _ at h
  rw [if_neg (by simp [Cursor.isAt, hkind]), if_neg (by simp [Cursor.isAt, hkind])] at h
  obtain ⟨_, _, _, _, hexpression, -⟩ := exists_of_bind_ok h
  exact unended_of_expression hexpression hkind

theorem roundFollows_listed {r r' : Reading Unit} (h : Follows b r r') :
    RoundFollows b Unended (r >>= fun _ => comma) (r' >>= fun _ => comma) := by
  intro ps c c' hc
  refine (h ps c c' hc).bind (fun _ _ _ _ _ _ _ => trivial) fun rest _ _ d d' hsuffix hd _ => ?_
  exact (roundFollows_comma rest d d' hd).imp fun _ _ _ _ hround => hround.mono hsuffix.length_le

theorem roundFollows_value (h : inner.Follows b inner') :
    RoundFollows b Unended (valueRound inner) (valueRound inner') := by
  intro ps c c' hc
  change Tracks b Unended ps _
    ((if c.isAt .closeBrace = true then _ else if c.isAt .openBrace = true then _ else _ :
      Reading Bool) c)
    ((if c'.isAt .closeBrace = true then _ else if c'.isAt .openBrace = true then _ else _ :
      Reading Bool) c')
  rw [hc.isAt (by decide), hc.isAt (by decide)]
  split
  · exact Tracks.pure hc .stop
  · split
    · exact roundFollows_listed h.arrayInitializer ps c c' hc
    · exact roundFollows_listed (follows_expression h) ps c c' hc

theorem follows_arrayInitializer (h : inner.Follows b inner') :
    Follows b (arrayInitializer inner) (arrayInitializer inner') := by
  intro ps c c' hc
  refine Tracks.expect_bind hc (by decide) fun rest _ _ hrest => ?_
  have hclose : Follows b (expect .closeBrace "\x7d" >>= fun _ => Pure.pure ())
      (expect .closeBrace "\x7d" >>= fun _ => Pure.pure ()) :=
    fun _ _ _ hc => Tracks.expect_bind hc (by decide) fun _ _ _ hrest => Tracks.pure hrest trivial
  exact follows_closed (roundFollows_value h) (fun _ _ _ _ => unended_of_valueRound) (by decide) hclose
    rest _ _ hrest

/-! ## Operands -/

/-- A step over the token at the cursors and a reading behind it. -/
theorem roundFollows_take {r r' : Reading Unit} (h : Follows b r r') {ps : List Token} {c c' : Cursor}
    (hc : Alike b ps c c') (hkind : c.here.kind ≠ .semicolon) :
    Tracks b (fun _ => True) ps (Again ps)
      ((take >>= fun _ => r >>= fun _ => Pure.pure true) c)
      ((take >>= fun _ => r' >>= fun _ => Pure.pure true) c') :=
  Tracks.take_bind hc hkind fun rest _ hless hrest =>
    (h rest _ _ hrest).bind (fun _ _ _ _ _ _ _ => trivial) fun _ _ _ _ _ hsuffix hd _ =>
      Tracks.pure hd (.go_on (Nat.lt_of_le_of_lt hsuffix.length_le hless))

theorem kind_ne_of_isAt {c : Cursor} {kind : Token.Kind} (h : c.isAt kind = true)
    (hkind : kind ≠ .semicolon) : c.here.kind ≠ .semicolon := by
  simp only [Cursor.isAt, decide_eq_true_eq] at h
  rwa [h]

theorem roundFollows_closeBracket :
    RoundFollows b (fun _ => True) (do let _ ← expect .closeBracket "]"; return true)
      (do let _ ← expect .closeBracket "]"; return true) :=
  fun _ _ _ hc => Tracks.expect_bind hc (by decide) fun _ _ hless hrest =>
    Tracks.pure hrest (.go_on hless)

/-- An expression in brackets behind the opening one. -/
theorem roundFollows_index (h : inner.Follows b inner') :
    RoundFollows b (fun _ => True)
      (do expression inner; let _ ← expect .closeBracket "]"; return true)
      (do expression inner'; let _ ← expect .closeBracket "]"; return true) := by
  intro ps c c' hc
  refine (follows_expression h ps c c' hc).bind (fun _ _ _ _ _ _ _ => trivial)
    fun rest _ _ d d' hsuffix hd _ => ?_
  exact (roundFollows_closeBracket rest d d' hd).imp fun _ _ _ _ hround =>
    hround.mono hsuffix.length_le

theorem roundFollows_dimension (h : inner.Follows b inner') :
    RoundFollows b (fun _ => True) (dimension inner) (dimension inner') := by
  intro ps c c' hc
  change Tracks b _ ps _ ((if c.isAt .openBracket = true then _ else _ : Reading Bool) c)
    ((if c'.isAt .openBracket = true then _ else _ : Reading Bool) c')
  rw [hc.isAt (by decide)]
  split
  case isFalse => exact Tracks.pure hc .stop
  case isTrue hat =>
    refine Tracks.take_bind hc (kind_ne_of_isAt hat (by decide)) fun rest hsuffix hless hrest => ?_
    generalize c.advance = d at hrest ⊢
    generalize c'.advance = d' at hrest ⊢
    change Tracks b _ rest _ ((if (!d.isAt .closeBracket) = true then _ else _ : Reading Bool) d)
      ((if (!d'.isAt .closeBracket) = true then _ else _ : Reading Bool) d')
    by_cases hkind : d.here.kind = .semicolon
    · rw [if_pos (by simp [Cursor.isAt, hkind])]
      intro events x e hrun
      obtain ⟨_, _, _, _, hexpression, -⟩ := exists_of_bind_ok hrun
      exact absurd hkind (unended_of_expression hexpression)
    · rw [show d'.isAt .closeBracket = d.isAt .closeBracket from
        hrest.test_inside hkind (p := fun t => decide (t.kind = .closeBracket)) fun _ => rfl]
      split
      · exact (roundFollows_index h rest d d' hrest).imp fun _ _ _ _ hround => hround.mono hless.le
      · exact (roundFollows_closeBracket rest d d' hrest).imp fun _ _ _ _ hround =>
          hround.mono hless.le

/-- A run that reports an unsupported construct is not quiet. -/
theorem tracks_of_unsupported {α β : Type} {place : Span} {construct : String} {r : Reading α}
    {f : α → Reading β} {ps : List Token} {c : Cursor} {Q : List Token → β → β → Prop}
    {out' : List Event × Except SourceError (β × Cursor)}
    (hr : ∀ events x d, r c = (events, .ok (x, d)) → .unsupported place construct ∈ events) :
    Tracks b (fun _ => True) ps Q ((r >>= f) c) out' := by
  intro events x d hout hquiet
  obtain ⟨first, y, e, more, hrun, -, rfl⟩ := exists_of_bind_ok hout
  exact absurd (hr first y e hrun) ((append_mem_quiets.mp hquiet).1 place construct)

theorem unsupported_mem_of_emit {place : Span} {construct : String} {c d : Cursor}
    {events : List Event} {u : Unit}
    (h : emit (.unsupported place construct) c = (events, .ok (u, d))) :
    .unsupported place construct ∈ events := by
  obtain ⟨rfl, -⟩ := Prod.mk.injEq .. |>.mp h
  exact List.mem_cons_self

theorem follows_classBody :
    Follows b
      (do
        let brace ← here
        if brace.kind = .openBrace then
          emit (.unsupported brace.toSpan "anonymous class body")
          skipGroup)
      (do
        let brace ← here
        if brace.kind = .openBrace then
          emit (.unsupported brace.toSpan "anonymous class body")
          skipGroup) := by
  intro ps c c' hc
  rw [here_bind, here_bind]
  by_cases hbrace : c.here.kind = .openBrace
  · rw [if_pos hbrace]
    exact tracks_of_unsupported fun _ _ _ => unsupported_mem_of_emit
  · have hat := hc.isAt (show Token.Kind.openBrace ∉ Token.delimiters by decide)
    simp only [Cursor.isAt, hbrace, decide_false, decide_eq_false_iff_not] at hat
    rw [if_neg hbrace, if_neg hat]
    exact Tracks.pure hc trivial

theorem follows_createdObject (h : inner.Follows b inner') :
    Follows b (createdObject inner) (createdObject inner') := by
  intro ps c c' hc
  rw [createdObject, createdObject, here_bind, here_bind]
  by_cases hkind : c.here.kind = .semicolon
  · rw [hkind]
    exact Follows.refuse_left ps c c' hc
  rw [hc.kind_eq hkind]
  by_cases hparen : c.here.kind = .openParen
  · rw [hparen]
    exact (follows_arguments h).bind follows_classBody ps c c' hc
  by_cases hbracket : c.here.kind = .openBracket
  · rw [hbracket]
    refine (Follows.repeatWhile (roundFollows_dimension h)).bind ?_ ps c c' hc
    intro ps c c' hc
    rw [cursor_bind, cursor_bind, hc.isAt (by decide)]
    split
    · exact follows_arrayInitializer h ps c c' hc
    · exact Follows.pure ps c c' hc
  generalize c.here.kind = kind at hparen hbracket
  cases kind
  all_goals first
    | exact absurd rfl hparen
    | exact absurd rfl hbracket
    | exact Follows.refuse_left ps c c' hc

theorem kind_of_createdObject {c d : Cursor} {events : List Event}
    (h : createdObject inner c = (events, .ok ((), d))) : c.here.kind.isOpener = true := by
  rw [createdObject, here_bind] at h
  generalize c.here.kind = kind at h
  cases kind <;> first | rfl | cases h

/-- Behind an opener in front of the cursors the tokens go on at least to its closer. -/
theorem exists_closer {ps : List Token} {c c' : Cursor} (h : Alike b ps c c')
    (hopener : c.here.kind.isOpener = true) : ∃ t u rest, ps = t :: u :: rest := by
  rcases h.cases_here with ⟨-, hs, -⟩ | ⟨t, rest, rfl, ht, -⟩
  · have hkind : c.here.kind = .semicolon := (congrArg Token.kind hs).trans h.semicolon
    rw [hkind] at hopener
    cases hopener
  · have hkind : t.kind = c.here.kind := (congrArg Token.kind ht).symm
    obtain ⟨inside, closer, more, hrest, -, -⟩ :=
      h.sound.closed t rest (List.suffix_refl _) (hkind ▸ hopener)
    cases inside with
    | nil => exact ⟨t, closer, more, by rw [hrest]; rfl⟩
    | cons u inside => exact ⟨t, u, inside ++ closer :: more, by rw [hrest]; rfl⟩

theorem follows_created (h : inner.Follows b inner') :
    Follows b
      (do
        match Token.typeNameLength? (← cursor).tokens with
        | none => refuse .typeName
        | some n =>
            forward n
            createdObject inner)
      (do
        match Token.typeNameLength? (← cursor).tokens with
        | none => refuse .typeName
        | some n =>
            forward n
            createdObject inner') := by
  intro ps c c' hc
  rw [cursor_bind, cursor_bind]
  cases htype : Token.typeNameLength? c.tokens with
  | none => exact Follows.refuse_left ps c c' hc
  | some n =>
      intro events x e hrun hquiet hS
      have hbare : Token.typeNameLength? (ps ++ b.first :: b.rest) = some n := by
        rw [← hc.faces.tokens_eq, Token.typeNameLength?_bare, htype]
      have hn : n ≤ ps.length :=
        Token.le_length_of_forall_take (Token.typeKinds_of_typeName hbare)
          (by rw [hc.semicolon]; decide)
      have hcreated : createdObject inner (c.forward n) = (events, .ok (x, e)) := hrun
      obtain ⟨t, u, rest, hdrop⟩ := exists_closer (hc.forward hn) (kind_of_createdObject hcreated)
      have hlength := congrArg List.length hdrop
      simp only [List.length_drop, List.length_cons] at hlength
      have htype' : Token.typeNameLength? c'.tokens = some n := by
        rw [← Token.typeNameLength?_bare, hc.faces'.tokens_eq]
        exact Token.typeNameLength?_append hbare (by omega) _
      rw [htype']
      exact (follows_createdObject h _ _ _ (hc.forward hn)).of_suffix (List.drop_suffix n ps)
        events x e hcreated hquiet hS

theorem follows_creation (h : inner.Follows b inner') {ps : List Token} {c c' : Cursor}
    (hc : Alike b ps c c') (hkind : c.here.kind ≠ .semicolon) :
    Tracks b (fun _ => True) ps (fun _ _ _ => True) (creation inner c) (creation inner' c') :=
  Tracks.take_bind hc hkind fun rest _ _ hrest => follows_created h rest _ _ hrest

theorem follows_typeLiteral (word word' : Text) : Follows b (typeLiteral word) (typeLiteral word') := by
  intro ps c c' hc
  have hbind (word : Text) (d : Cursor) : typeLiteral word d =
      ((match Token.typeLength? d.tokens with
        | none => refuse .typeName
        | some n => forward n : Reading Unit) >>= fun _ => cursor >>= fun c =>
          if !(c.isAt .dot && c.nextIs (·.isWord "class".toList)) then fail (.typeInExpression word)
          else Pure.pure ()) d := rfl
  rw [hbind, hbind]
  cases htype : Token.typeLength? c.tokens with
  | none => exact Tracks.of_error (e := ⟨c.here.line, .expected .typeName c.here.found⟩)
  | some n =>
      have hbare : Token.typeLength? (ps ++ b.first :: b.rest) = some n := by
        rw [← hc.faces.tokens_eq, Token.typeLength?_bare, htype]
      have hn : n ≤ ps.length :=
        Token.le_length_of_forall_take (Token.typeKinds_of_type hbare) (by rw [hc.semicolon]; decide)
      have hforward := hc.forward hn
      by_cases hclass : ((c.forward n).isAt .dot && (c.forward n).nextIs (·.isWord "class".toList)) = true
      · obtain ⟨hdot, hnext⟩ := Bool.and_eq_true .. |>.mp hclass
        have hkind := kind_ne_of_isAt hdot (by decide)
        have hclass' : ((c'.forward n).isAt .dot &&
            (c'.forward n).nextIs (·.isWord "class".toList)) = true := by
          rw [hforward.isAt (by decide), hforward.nextIs hkind (fun _ => rfl)
            fun t ht => by
              simp [Token.isWord, ht.kind_ne (by decide : Token.Kind.word ∉ Token.delimiters)]]
          exact hclass
        have hlong : n + 2 ≤ ps.length := by
          obtain ⟨t, rest, hdrop, -, -, hadvance⟩ := hforward.advance hkind
          rw [Cursor.nextIs_eq (hforward.ahead_ne_nil hkind).1] at hnext
          have hword : (c.forward n).advance.here.kind ≠ .semicolon := by
            intro hsemicolon
            simp [Token.isWord, hsemicolon] at hnext
          obtain ⟨u, more, rfl, -⟩ := hadvance.advance hword
          have hlength := congrArg List.length hdrop
          simp only [List.length_drop, List.length_cons] at hlength
          omega
        have htype' : Token.typeLength? c'.tokens = some n := by
          rw [← Token.typeLength?_bare, hc.faces'.tokens_eq]
          exact Token.typeLength?_append hbare hlong _
        rw [htype']
        refine Tracks.of_suffix ?_ (List.drop_suffix n ps)
        change Tracks b _ _ _ ((if (!_) = true then _ else _ : Reading Unit) (c.forward n))
          ((if (!_) = true then _ else _ : Reading Unit) (c'.forward n))
        rw [hclass, hclass', if_neg (by simp), if_neg (by simp)]
        exact Tracks.pure hforward trivial
      · change Tracks b _ _ _ ((if (!_) = true then _ else _ : Reading Unit) (c.forward n)) _
        rw [Bool.eq_false_iff.mpr hclass, if_pos (by decide)]
        exact Tracks.of_error (e := ⟨(c.forward n).here.line, .typeInExpression word⟩)

theorem wordShape_eq {ps : List Token} {c c' : Cursor} (hc : Alike b ps c c')
    (hkind : c.here.kind ≠ .semicolon) : wordShape c' = wordShape c := by
  have hbare := hc.bare_eq hkind
  have htext : c'.here.text = c.here.text := Token.eq_of_bare Token.text (fun _ => rfl) hbare
  have hprimitive := Token.eq_of_bare Token.isPrimitive (fun _ => rfl) hbare
  have hname := Token.eq_of_bare Token.isName (fun _ => rfl) hbare
  have hnext : c'.nextIs (·.isOperator "->".toList) = c.nextIs (·.isOperator "->".toList) :=
    hc.nextIs hkind (fun _ => rfl) fun t ht => by
      simp [Token.isOperator, ht.kind_ne (by decide : Token.Kind.operator ∉ Token.delimiters)]
  simp only [wordShape, htext, hprimitive, hname, hnext]

/-- The group at the cursors ends where its closing bracket is. -/
theorem opensLambda_eq {ps : List Token} {c c' : Cursor} (hc : Alike b ps c c')
    (hopener : c.here.kind.isOpener = true) : opensLambda c' = opensLambda c := by
  rcases hc.cases_here with ⟨-, hs, -⟩ | ⟨t, rest, rfl, ht, -⟩
  · have hkind : c.here.kind = .semicolon := (congrArg Token.kind hs).trans hc.semicolon
    rw [hkind] at hopener
    cases hopener
  have hkind : t.kind = c.here.kind := (congrArg Token.kind ht).symm
  obtain ⟨inside, closer, more, rfl, hmatches, hnested⟩ :=
    hc.sound.closed t rest (List.suffix_refl _) (hkind ▸ hopener)
  have hlambda (d : Cursor) (first : Token) (behind : List Token)
      (hd : d.Faces (t :: (inside ++ closer :: more) ++ first :: behind)) (hfirst : first.Delimits) :
      opensLambda d = more.head?.any (·.isOperator "->".toList) := by
    have htokens : d.tokens.map Token.bare = t :: (inside ++ closer :: (more ++ first :: behind)) := by
      simpa using hd.tokens_eq
    have hlength : Token.groupLength? d.tokens = some (inside.length + 2) := by
      rw [← Token.groupLength?_bare, htokens, Token.groupLength?_nested hmatches hnested]
    have hget : (d.tokens[inside.length + 2]?.any (·.isOperator "->".toList)) =
        ((d.tokens.map Token.bare)[inside.length + 2]?.any (·.isOperator "->".toList)) := by
      rw [List.getElem?_map]
      cases d.tokens[inside.length + 2]? <;> rfl
    rw [opensLambda, hlength]
    simp only [hget, htokens]
    rw [List.getElem?_cons_succ, List.getElem?_append_right (by omega)]
    rw [show inside.length + 1 - inside.length = 1 by omega, List.getElem?_cons_succ]
    cases more with
    | nil => simp [Token.isOperator, hfirst.kind_ne (by decide : Token.Kind.operator ∉ Token.delimiters)]
    | cons m more => simp
  rw [hlambda c' _ _ hc.faces' hc.delimits,
    hlambda c _ _ hc.faces (Token.delimits_of_semicolon hc.semicolon)]

theorem operandShape_eq {ps : List Token} {c c' : Cursor} (hc : Alike b ps c c')
    (hkind : c.here.kind ≠ .semicolon) : operandShape c' = operandShape c := by
  rw [operandShape, operandShape, hc.kind_eq hkind, wordShape_eq hc hkind]
  by_cases hparen : c.here.kind = .openParen
  · rw [opensLambda_eq hc (by rw [hparen]; rfl)]
  · generalize c.here.kind = kind at hparen
    cases kind <;> first | rfl | exact absurd rfl hparen

theorem follows_parenthesized (h : inner.Follows b inner') :
    Follows b (do expression inner; let _ ← expect .closeParen ")")
      (do expression inner'; let _ ← expect .closeParen ")") :=
  (follows_expression h).bind fun _ _ _ hc =>
    Tracks.expect_bind hc (by decide) fun _ _ _ hrest => Tracks.pure hrest trivial

theorem tracks_lambda {ps : List Token} {c : Cursor}
    {out' : List Event × Except SourceError (Unit × Cursor)} :
    Tracks b (fun _ => True) ps (fun _ _ _ => True) (lambda c) out' := by
  rw [lambda, here_bind]
  exact tracks_of_unsupported fun _ _ _ => unsupported_mem_of_emit

theorem follows_operand (h : inner.Follows b inner') : Follows b (operand inner) (operand inner') := by
  intro ps c c' hc
  rw [operand, operand, cursor_bind, cursor_bind]
  by_cases hkind : c.here.kind = .semicolon
  · rw [show operandShape c = .other by rw [operandShape, hkind]]
    exact Follows.refuse_left ps c c' hc
  rw [operandShape_eq hc hkind]
  cases operandShape c with
  | literal => exact Tracks.take_bind hc hkind fun _ _ _ hrest => Tracks.pure hrest trivial
  | lambda => exact tracks_lambda
  | parenthesized =>
      exact Tracks.take_bind hc hkind fun rest _ _ hrest => follows_parenthesized h rest _ _ hrest
  | creation => exact follows_creation h hc hkind
  | reference =>
      exact Tracks.take_bind hc hkind fun rest _ _ hrest => follows_optionalArguments h rest _ _ hrest
  | typeLiteral word => exact follows_typeLiteral word word ps c c' hc
  | reserved word => exact Tracks.of_error (e := ⟨c.here.line, .keywordInExpression word⟩)
  | other => exact Follows.refuse_left ps c c' hc

/-! ## Selectors, operators and casts -/

theorem kind_ne_of_isWord {t : Token} {word : Text} (h : t.isWord word = true) :
    t.kind ≠ .semicolon := by
  intro hkind
  simp [Token.isWord, hkind] at h

theorem kind_ne_of_isOperator {t : Token} {operator : Text} (h : t.isOperator operator = true) :
    t.kind ≠ .semicolon := by
  intro hkind
  simp [Token.isOperator, hkind] at h

theorem kind_ne_of_isOperatorIn {t : Token} {operators : List Text}
    (h : t.isOperatorIn operators = true) : t.kind ≠ .semicolon := by
  intro hkind
  simp [Token.isOperatorIn, hkind] at h

theorem follows_named (h : inner.Follows b inner') :
    Follows b (do let _ ← expectName; optionalArguments inner)
      (do let _ ← expectName; optionalArguments inner') := fun _ _ _ hc =>
  Tracks.expectName_bind hc fun rest _ _ hrest => follows_optionalArguments h rest _ _ hrest

theorem follows_memberAccess (h : inner.Follows b inner') :
    Follows b (memberAccess inner) (memberAccess inner') := by
  intro ps c c' hc
  rw [memberAccess, memberAccess, cursor_bind, cursor_bind]
  refine Tracks.cond (hc.isAtWord _) (fun hnew => follows_creation h hc (kind_ne_of_isWord hnew))
    fun _ => Tracks.cond ?_ (fun hself => ?_) fun _ =>
      Tracks.cond (hc.isAtOperator _) (fun _ => ?_) fun _ => follows_named h ps c c' hc
  · rw [hc.isAtWord, hc.isAtWord, hc.isAtWord]
  · have hkind : c.here.kind ≠ .semicolon := by
      rcases Bool.or_eq_true .. |>.mp hself with hself | hself
      · rcases Bool.or_eq_true .. |>.mp hself with hself | hself <;> exact kind_ne_of_isWord hself
      · exact kind_ne_of_isWord hself
    exact Tracks.take_bind hc hkind fun _ _ _ hrest => Tracks.pure hrest trivial
  · refine @tracks_of_unsupported b _ _ c.here.toSpan "explicit type argument list" _ _ _ _ _ _
      fun events x d hrun => ?_
    rw [skipTypeArguments, here_bind] at hrun
    obtain ⟨first, _, _, _, hemit, -, rfl⟩ := exists_of_bind_ok hrun
    exact List.mem_append_left _ (unsupported_mem_of_emit hemit)

theorem roundFollows_name :
    RoundFollows b (fun _ => True) (do let _ ← expectName; return true)
      (do let _ ← expectName; return true) := fun _ _ _ hc =>
  Tracks.expectName_bind hc fun _ _ hless hrest => Tracks.pure hrest (.go_on hless)

/-- What follows a double colon. -/
theorem roundFollows_method :
    RoundFollows b (fun _ => True)
      (do
        if (← cursor).isAtWord "new" then let _ ← take
        else let _ ← expectName
        return true)
      (do
        if (← cursor).isAtWord "new" then let _ ← take
        else let _ ← expectName
        return true) := by
  intro ps c c' hc
  rw [cursor_bind, cursor_bind]
  exact Tracks.cond (hc.isAtWord _)
    (fun hnew => Tracks.take_bind hc (kind_ne_of_isWord hnew) fun _ _ hless hrest =>
      Tracks.pure hrest (.go_on hless))
    fun _ => roundFollows_name ps c c' hc

theorem roundFollows_selector (h : inner.Follows b inner') :
    RoundFollows b (fun _ => True) (selector inner) (selector inner') := by
  intro ps c c' hc
  rw [selector, selector, cursor_bind, cursor_bind]
  refine Tracks.cond (hc.isAt (by decide)) (fun hdot => ?_) fun _ =>
    Tracks.cond (hc.isAt (by decide)) (fun hbracket => ?_) fun _ =>
      Tracks.cond (hc.isAtOperator _) (fun hreference => ?_) fun _ =>
        Tracks.cond (hc.isOperatorIn _) (fun hstep => ?_) fun _ => Tracks.pure hc .stop
  · exact roundFollows_take (follows_memberAccess h) hc (kind_ne_of_isAt hdot (by decide))
  · exact Tracks.take_bind hc (kind_ne_of_isAt hbracket (by decide)) fun rest _ hless hrest =>
      (roundFollows_index h rest _ _ hrest).imp fun _ _ _ _ hround => hround.mono hless.le
  · exact Tracks.take_bind hc (kind_ne_of_isOperator hreference) fun rest _ hless hrest =>
      (roundFollows_method rest _ _ hrest).imp fun _ _ _ _ hround => hround.mono hless.le
  · exact Tracks.take_bind hc (kind_ne_of_isOperatorIn hstep) fun _ _ hless hrest =>
      Tracks.pure hrest (.go_on hless)

theorem castLength?_of_kind {t : Token} {ts : List Token} (h : t.kind ≠ .openParen) :
    Token.castLength? (t :: ts) = none := by
  refine Option.eq_none_iff_forall_ne_some.mpr fun n hn => ?_
  obtain ⟨paren, _, _, _, _, _, _, heq, hparen, -⟩ := Token.castLength?_eq_some.mp hn
  obtain ⟨rfl, -⟩ := List.cons.inj heq
  exact h hparen

theorem startsCastOperand_of_delimits {t : Token} (h : t.Delimits) (primitive : Bool) :
    t.startsCastOperand primitive = false := by
  have hne (kind : Token.Kind) (hkind : kind ∉ Token.delimiters) : t.kind ≠ kind := h.kind_ne hkind
  have hliteral : t.isLiteral = false := by
    rw [Token.isLiteral]
    split
    · exact absurd ‹_› (hne .number (by decide))
    · exact absurd ‹_› (hne .string (by decide))
    · exact absurd ‹_› (hne .character (by decide))
    · rfl
  simp [Token.startsCastOperand, Token.isName, Token.isWordIn, Token.isAnyWord, Token.isOperatorIn,
    hliteral, hne .word (by decide), hne .openParen (by decide), hne .operator (by decide)]

/-- The same casts are found. -/
theorem castLength?_eq {ps : List Token} {c c' : Cursor} (hc : Alike b ps c c') :
    Token.castLength? c'.tokens = Token.castLength? c.tokens ∧
      ∀ n, Token.castLength? c.tokens = some n → n ≤ ps.length := by
  rw [← Token.castLength?_bare, hc.faces'.tokens_eq, ← Token.castLength?_bare c.tokens,
    hc.faces.tokens_eq]
  cases ps with
  | nil =>
      have hsemicolon : b.first.kind ≠ .openParen := by rw [hc.semicolon]; decide
      rw [List.nil_append, List.nil_append, castLength?_of_kind hsemicolon,
        castLength?_of_kind (hc.delimits.kind_ne (by decide))]
      exact ⟨rfl, fun n hn => by cases hn⟩
  | cons t rest =>
      by_cases hparen : t.kind = .openParen
      · obtain ⟨inside, closer, more, rfl, hmatches, -⟩ :=
          hc.sound.closed t rest (List.suffix_refl _) (by rw [hparen]; rfl)
        have hclose : ∃ u ∈ (t :: (inside ++ closer :: more)).tail, u.kind = .closeParen := by
          refine ⟨closer, by simp, ?_⟩
          rw [hparen] at hmatches
          generalize closer.kind = kind at hmatches
          cases kind <;> first | rfl | cases hmatches
        have hcast {first first' : Token} {behind behind' : List Token} {n : Nat}
            (hfirst : first.Delimits)
            (h : Token.castLength? (t :: (inside ++ closer :: more) ++ first :: behind) = some n) :
            Token.castLength? (t :: (inside ++ closer :: more) ++ first' :: behind') = some n ∧
              n < (t :: (inside ++ closer :: more)).length := by
          refine Token.castLength?_append h hclose ?_ _
          intro u hu primitive
          obtain rfl := by simpa using hu
          exact startsCastOperand_of_delimits hfirst primitive
        have hsemicolon := Token.delimits_of_semicolon hc.semicolon
        refine ⟨Option.ext fun n => ⟨fun h => (hcast hc.delimits h).1, fun h => (hcast hsemicolon h).1⟩,
          fun n hn => (@hcast _ t _ [] n hsemicolon hn).2.le⟩
      · rw [List.cons_append, List.cons_append, castLength?_of_kind hparen, castLength?_of_kind hparen]
        exact ⟨rfl, fun n hn => by cases hn⟩

theorem roundFollows_leading : RoundFollows b (fun _ => True) leading leading := by
  intro ps c c' hc
  obtain ⟨hcast, hle⟩ := castLength?_eq hc
  rw [leading, cursor_bind, cursor_bind, hcast]
  refine Tracks.cond (hc.isOperatorIn _) (fun hoperator => ?_) fun _ => ?_
  · exact Tracks.take_bind hc (kind_ne_of_isOperatorIn hoperator) fun _ _ hless hrest =>
      Tracks.pure hrest (.go_on hless)
  cases hlength : Token.castLength? c.tokens with
  | none => exact Tracks.pure hc .stop
  | some n =>
      have hn := hle n hlength
      obtain ⟨_, _, _, m, _, _, _, _, _, _, _, _, _, rfl⟩ := Token.castLength?_eq_some.mp hlength
      refine Tracks.of_suffix (Tracks.pure (hc.forward hn) (.go_on ?_)) (List.drop_suffix _ ps)
      rw [List.length_drop]
      omega

theorem follows_unary (h : inner.Follows b inner') : Follows b (unary inner) (unary inner') :=
  (Follows.repeatWhile roundFollows_leading).bind
    ((follows_operand h).bind (Follows.repeatWhile (roundFollows_selector h)))

theorem roundFollows_operation (h : inner.Follows b inner') :
    RoundFollows b (fun _ => True)
      (do
        let c ← cursor
        if c.isAtWord "instanceof" then
          typeTest
          return true
        else if c.here.isOperatorIn Token.binaryOperators then
          let _ ← take
          unary inner
          return true
        else return false)
      (do
        let c ← cursor
        if c.isAtWord "instanceof" then
          typeTest
          return true
        else if c.here.isOperatorIn Token.binaryOperators then
          let _ ← take
          unary inner'
          return true
        else return false) := by
  intro ps c c' hc
  have htest : c.isAtWord "instanceof" = false := by
    rcases hc.cases_here with ⟨-, hs, -⟩ | ⟨t, rest, rfl, ht, -⟩
    · have hkind : c.here.kind = .semicolon := (congrArg Token.kind hs).trans hc.semicolon
      simp [Cursor.isAtWord, Token.isWord, hkind]
    · rw [Cursor.isAtWord, ← Token.isWord_bare, ht]
      exact hc.sound.noTest t List.mem_cons_self
  rw [cursor_bind, cursor_bind]
  refine Tracks.cond (hc.isAtWord _) (fun hat => ?_) fun _ =>
    Tracks.cond (hc.isOperatorIn _) (fun hoperator => ?_) fun _ => Tracks.pure hc .stop
  · rw [htest] at hat
    cases hat
  · exact roundFollows_take (follows_unary h) hc (kind_ne_of_isOperatorIn hoperator)

theorem follows_binary (h : inner.Follows b inner') : Follows b (binary inner) (binary inner') :=
  (follows_unary h).bind (Follows.repeatWhile (roundFollows_operation h))

theorem follows_conditional (h : inner.Follows b inner') :
    Follows b (conditional inner) (conditional inner') := by
  refine (follows_binary h).bind fun ps c c' hc => ?_
  rw [cursor_bind, cursor_bind]
  exact Tracks.cond (hc.isAtOperator _)
    (fun hmark => Tracks.take_bind hc (kind_ne_of_isOperator hmark) fun rest _ _ hrest =>
      h.branches rest _ _ hrest)
    fun _ => Tracks.pure hc trivial

/-- An assignment operator and the value behind it. -/
def assignedRound (inner : Enclosed) : Reading Bool := do
  if (← here).isOperatorIn Token.assignmentOperators then
    let _ ← take
    conditional inner
    return true
  else return false

theorem roundFollows_assigned (h : inner.Follows b inner') :
    RoundFollows b (fun _ => True) (assignedRound inner) (assignedRound inner') := by
  intro ps c c' hc
  rw [assignedRound, assignedRound, here_bind, here_bind]
  exact Tracks.cond (hc.isOperatorIn _)
    (fun hoperator =>
      roundFollows_take (follows_conditional h) hc (kind_ne_of_isOperatorIn hoperator))
    fun _ => Tracks.pure hc .stop

theorem follows_assignment (h : inner.Follows b inner') :
    Follows b (assignment inner) (assignment inner') :=
  (follows_conditional h).bind (Follows.repeatWhile (roundFollows_assigned h))

theorem follows_branches (h : inner.Follows b inner') :
    Follows b (branches inner) (branches inner') :=
  (follows_assignment h).bind fun _ _ _ hc =>
    Tracks.expectOperator_bind hc fun rest _ _ hrest => follows_conditional h rest _ _ hrest

end Reading

/-- More nesting levels to go do no harm. -/
theorem Enclosed.follows_within (b : Behind) {levels levels' : Nat} (h : levels ≤ levels') :
    (Enclosed.within levels).Follows b (Enclosed.within levels') := by
  induction levels generalizing levels' with
  | zero =>
      have hfail (r' : Reading Unit) : CodeFrames.Follows b (Reading.fail .nestedTooDeep) r' :=
        fun _ c _ _ => Tracks.of_error (e := ⟨c.here.line, .nestedTooDeep⟩)
      exact ⟨hfail _, hfail _, hfail _⟩
  | succ levels ih =>
      cases levels' with
      | zero => omega
      | succ levels' =>
          have hinner := ih (Nat.le_of_succ_le_succ h)
          exact ⟨Reading.follows_assignment hinner, Reading.follows_branches hinner,
            Reading.follows_arrayInitializer hinner⟩

end CodeFrames
