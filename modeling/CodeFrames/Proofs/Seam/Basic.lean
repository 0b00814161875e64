import CodeFrames.Proofs.Progress
import CodeFrames.Proofs.Seam.Lookahead

/-!
# Readings in front of a seam

At a seam other tokens are put behind the same ones.  A reading that comes to an end in front of the
seam, or at it, has not seen what follows: it reports the same events and gives the same answer.  How
many tokens have to be left in front of the seam is a condition on the end of the reading, and what is
known of the tokens at its start comes out of it.
-/

namespace CodeFrames

open Token (Marked Matched Sealed)

/-- What follows some tokens, and what follows them instead, each with the comments that come with it.
No statement goes on over the seam that did not go on before. -/
structure Seam where
  rest : List Token
  rest' : List Token
  comments : List Token
  comments' : List Token
  /-- The text that what follows instead belongs to. -/
  source' : Text
  rest_ne : rest ≠ []
  rest_ne' : rest' ≠ []
  /-- A word that goes on with a statement is there only if it was. -/
  word {w : String} : w ∈ ["else", "catch", "finally"] →
    (rest'.head?.any (·.isWord w.toList)) = true → (rest.head?.any (·.isWord w.toList)) = true

/-- Cursors in front of the same tokens on two sides of a seam. -/
structure Seam.At (s : Seam) (ps : List Token) (c c' : Cursor) : Prop where
  tokens : c.tokens = ps ++ s.rest
  tokens' : c'.tokens = ps ++ s.rest'
  before : c'.before = c.before
  comments : ∃ pending, c.comments = pending ++ s.comments ∧ c'.comments = pending ++ s.comments'
  matched : Matched ps
  early : ∀ t ∈ ps, ∀ u ∈ s.comments ++ s.comments', t.start ≤ u.start
  sited' : c'.Sited s.source'

theorem Cursor.advance_eq {c : Cursor} {t : Token} {ts : List Token} (h : c.ahead = t :: ts) :
    c.advance = ⟨c.here, t, ts, c.comments⟩ := by
  rw [Cursor.advance, h]

namespace Seam.At

variable {s : Seam} {ps : List Token} {t : Token} {c c' : Cursor}

theorem here_eq (h : s.At ps c c') (hps : ps ≠ []) : c'.here = c.here := by
  obtain ⟨t, ps, rfl⟩ := List.exists_cons_of_ne_nil hps
  rw [(List.cons.inj h.tokens).1, (List.cons.inj h.tokens').1]

theorem isAt_eq (h : s.At ps c c') (hps : ps ≠ []) (kind : Token.Kind) : c'.isAt kind = c.isAt kind := by
  rw [Cursor.isAt, Cursor.isAt, h.here_eq hps]

theorem isAtWord_eq (h : s.At ps c c') (hps : ps ≠ []) (word : String) :
    c'.isAtWord word = c.isAtWord word := by
  rw [Cursor.isAtWord, Cursor.isAtWord, h.here_eq hps]

theorem isAtOperator_eq (h : s.At ps c c') (hps : ps ≠ []) (operator : String) :
    c'.isAtOperator operator = c.isAtOperator operator := by
  rw [Cursor.isAtOperator, Cursor.isAtOperator, h.here_eq hps]

theorem ahead_eq (h : s.At (t :: ps) c c') : c.ahead = ps ++ s.rest ∧ c'.ahead = ps ++ s.rest' :=
  ⟨(List.cons.inj h.tokens).2, (List.cons.inj h.tokens').2⟩

theorem nextIs_eq (h : s.At ps c c') (hps : 2 ≤ ps.length) (p : Token → Bool) :
    c'.nextIs p = c.nextIs p := by
  obtain ⟨t, u, ps, rfl⟩ : ∃ t u us, ps = t :: u :: us := by
    match ps, hps with
    | t :: u :: us, _ => exact ⟨t, u, us, rfl⟩
  obtain ⟨hahead, hahead'⟩ := h.ahead_eq
  rw [Cursor.nextIs, Cursor.nextIs, hahead, hahead']
  rfl

/-- Behind a word there is another token in front of the seam, if one of the tokens is no word. -/
theorem nextIs_of_marked (h : s.At ps c c') (hps : Marked ps) (hhere : c.here.kind = .word)
    (p : Token → Bool) : c'.nextIs p = c.nextIs p := by
  obtain ⟨t, ps, rfl⟩ := List.exists_cons_of_ne_nil hps.ne_nil
  rw [show c.here = t from (List.cons.inj h.tokens).1] at hhere
  exact h.nextIs_eq (hps.two_le_length hhere) p

/-- A word that goes on with a statement is in front of the seam, if there is one. -/
theorem isAtWord_of_word (h : s.At ps c c') {w : String} (hw : w ∈ ["else", "catch", "finally"])
    (hps : c.isAtWord w = true → ps ≠ []) : c'.isAtWord w = c.isAtWord w := by
  by_cases hnil : ps = []
  · subst hnil
    have hhere : s.rest.head?.any (·.isWord w.toList) = c.isAtWord w := by
      rw [← show c.tokens = s.rest from h.tokens]
      rfl
    have hhere' : s.rest'.head?.any (·.isWord w.toList) = c'.isAtWord w := by
      rw [← show c'.tokens = s.rest' from h.tokens']
      rfl
    have hnot : c.isAtWord w = false := by
      cases hat : c.isAtWord w with
      | false => rfl
      | true => exact absurd rfl (hps hat)
    rw [hnot]
    cases hat : c'.isAtWord w with
    | false => rfl
    | true => rw [← hnot, ← hhere, s.word hw (hhere'.trans hat)]
  · exact h.isAtWord_eq hnil w

theorem advance (h : s.At (t :: ps) c c') : s.At ps c.advance c'.advance := by
  obtain ⟨hahead, hahead'⟩ := h.ahead_eq
  obtain ⟨u, us, heq⟩ :=
    List.exists_cons_of_ne_nil (List.append_ne_nil_of_right_ne_nil ps s.rest_ne)
  obtain ⟨u', us', heq'⟩ :=
    List.exists_cons_of_ne_nil (List.append_ne_nil_of_right_ne_nil ps s.rest_ne')
  have hsited := h.sited'.advance
  rw [Cursor.advance_eq (hahead'.trans heq')] at hsited
  rw [Cursor.advance_eq (hahead.trans heq), Cursor.advance_eq (hahead'.trans heq')]
  exact ⟨heq.symm, heq'.symm, h.here_eq (List.cons_ne_nil _ _), h.comments, h.matched.tail,
    fun t ht => h.early t (List.mem_cons_of_mem _ ht), hsited⟩

theorem forward {qs : List Token} (h : s.At (qs ++ ps) c c') :
    s.At ps (c.forward qs.length) (c'.forward qs.length) := by
  induction qs generalizing c c' with
  | nil => exact h
  | cons t qs ih => exact ih h.advance

/-- The comments that come with what follows are not due where both cursors are in front of them. -/
theorem relieved_of_start (h : s.At ps c c') (hstart : c'.here.start = c.here.start)
    (hlater : ∀ u ∈ s.comments ++ s.comments', ¬ u.start < c.here.start) :
    c'.due = c.due ∧ s.At ps c.relieved c'.relieved := by
  have hdue {later : List Token} (hlater : ∀ u ∈ later, ¬ u.start < c.here.start) (pending : List Token) :
      (pending ++ later).takeWhile (fun t => t.start < c.here.start) =
        pending.takeWhile (fun t => t.start < c.here.start) ∧
      (pending ++ later).dropWhile (fun t => t.start < c.here.start) =
        pending.dropWhile (fun t => t.start < c.here.start) ++ later := by
    induction pending with
    | nil => cases later <;> simp_all
    | cons t pending ih => by_cases ht : t.start < c.here.start <;> simp [ht, ih]
  obtain ⟨pending, hpending, hpending'⟩ := h.comments
  obtain ⟨hbefore, hbehind⟩ := hdue (fun u hu => hlater u (List.mem_append_left _ hu)) pending
  obtain ⟨hbefore', hbehind'⟩ := hdue (fun u hu => hlater u (List.mem_append_right _ hu)) pending
  refine ⟨?_, h.tokens, h.tokens', h.before, ⟨pending.dropWhile (fun t => t.start < c.here.start), ?_, ?_⟩,
    h.matched, h.early, h.sited'.relieved⟩
  · rw [Cursor.due, Cursor.due, hstart, hpending, hpending', hbefore, hbefore']
  · rw [Cursor.relieved, hpending, hbehind]
  · rw [Cursor.relieved, hstart, hpending', hbehind']

theorem relieved (h : s.At ps c c') (hps : ps ≠ []) :
    c'.due = c.due ∧ s.At ps c.relieved c'.relieved := by
  refine h.relieved_of_start (by rw [h.here_eq hps]) ?_
  obtain ⟨t, ps, rfl⟩ := List.exists_cons_of_ne_nil hps
  rw [(List.cons.inj h.tokens).1]
  exact fun u hu => not_lt.mpr (h.early t List.mem_cons_self u hu)

theorem length_lt {qs : List Token} {d d' : Cursor} (hc : s.At ps c c')
    (hd : s.At qs d d') (h : qs.length < ps.length) : d'.ahead.length < c'.ahead.length := by
  have hc := congrArg List.length hc.tokens'
  have hd := congrArg List.length hd.tokens'
  simp only [Cursor.tokens, List.length_cons, List.length_append] at hc hd
  omega

end Seam.At

/-! ## Local readings -/

namespace Token

/-- There are at least so many tokens, and they have a property. -/
def AtLeast (n : Nat) (P : List Token → Prop) (ps : List Token) : Prop := n ≤ ps.length ∧ P ps

/-- More tokens in front do no harm to the property. -/
class Growing (P : List Token → Prop) : Prop where
  cons {t : Token} {ps : List Token} : P ps → P (t :: ps)

instance : Growing Sealed := ⟨.cons⟩

instance : Growing Marked := ⟨fun h => h.append_left [_]⟩

instance : Growing fun _ => True := ⟨fun _ => trivial⟩

namespace AtLeast

variable {n : Nat} {P : List Token → Prop} {t : Token} {ps qs : List Token}

theorem cons [Growing P] (h : AtLeast (n - 1) P ps) : AtLeast n P (t :: ps) :=
  ⟨by have := h.1; simp only [List.length_cons]; omega, Growing.cons h.2⟩

theorem cons_self [Growing P] (h : AtLeast n P ps) : AtLeast n P (t :: ps) :=
  ⟨h.1.trans (Nat.le_succ _), Growing.cons h.2⟩

instance [Growing P] : Growing (AtLeast n P) := ⟨cons_self⟩

theorem append_left [Growing P] (h : AtLeast n P ps) : AtLeast n P (qs ++ ps) := by
  induction qs with
  | nil => exact h
  | cons t qs ih => exact ih.cons_self

theorem append_left_of_ne_nil [Growing P] (h : AtLeast (n - 1) P ps) (hqs : qs ≠ []) :
    AtLeast n P (qs ++ ps) := by
  obtain ⟨t, qs, rfl⟩ := List.exists_cons_of_ne_nil hqs
  exact AtLeast.cons (h.append_left : AtLeast (n - 1) P (qs ++ ps))

end AtLeast

end Token

namespace Reading

variable {α β : Type} {source : Text} {s : Seam} {P T : List Token → Prop}
  {Q Q' : α → List Token → Prop} {R : β → List Token → Prop} {c : Cursor}

/-- Where a run from the cursor comes to an end in front of the seam with `Q`, the tokens at the cursor
have `P`, and the run is the same whatever follows the seam. -/
def LocalAt (s : Seam) (P : List Token → Prop) (Q : α → List Token → Prop) (r : Reading α)
    (c : Cursor) : Prop :=
  ∀ events a d, r c = (events, .ok (a, d)) → c.Reaches d ∧
    ∀ qs, d.tokens = qs ++ s.rest → Q a qs → ∃ ps, c.tokens = ps ++ s.rest ∧ P ps ∧
      ∀ c', s.At ps c c' → ∃ d', r c' = (events, .ok (a, d')) ∧ s.At qs d d'

namespace LocalAt

variable {r : Reading α} {f : α → Reading β}

theorem imp (h : r.LocalAt s P Q c) (hP : ∀ ps, P ps → T ps) (hQ : ∀ a qs, Q' a qs → Q a qs) :
    r.LocalAt s T Q' c := by
  intro events a d hrun
  obtain ⟨hreaches, hlocal⟩ := h events a d hrun
  refine ⟨hreaches, fun qs hqs hend => ?_⟩
  obtain ⟨ps, htokens, hps, hsame⟩ := hlocal qs hqs (hQ a qs hend)
  exact ⟨ps, htokens, hP ps hps, hsame⟩

theorem start (h : r.LocalAt s P Q c) (hP : ∀ ps, P ps → T ps) : r.LocalAt s T Q c :=
  h.imp hP fun _ _ => id

theorem of_error {e : SourceError} (h : (r c).2 = .error e) : r.LocalAt s P Q c := by
  intro more a d hrun
  rw [hrun] at h
  cases h

/-- Where the tokens in front of the seam are known to be more once the reading is at its end. -/
theorem start_of_run (h : r.LocalAt s P Q c) (hP : ∀ events a d ps qs, r c = (events, .ok (a, d)) →
    c.tokens = ps ++ s.rest → d.tokens = qs ++ s.rest → P ps → Q a qs → T ps) : r.LocalAt s T Q c := by
  intro events a d hrun
  obtain ⟨hreaches, hlocal⟩ := h events a d hrun
  refine ⟨hreaches, fun qs hqs hend => ?_⟩
  obtain ⟨ps, htokens, hstart, hsame⟩ := hlocal qs hqs hend
  exact ⟨ps, htokens, hP events a d ps qs hrun htokens hqs hstart hend, hsame⟩

/-- What more tokens in front do no harm to holds at the start if it holds at the end. -/
theorem frame {R : List Token → Prop} [Token.Growing R] (h : r.LocalAt s P Q c) :
    r.LocalAt s (fun ps => P ps ∧ R ps) (fun a qs => Q a qs ∧ R qs) c := by
  intro events a d hrun
  obtain ⟨hreaches, hlocal⟩ := h events a d hrun
  refine ⟨hreaches, fun qs hqs hend => ?_⟩
  obtain ⟨ps, htokens, hstart, hsame⟩ := hlocal qs hqs hend.1
  refine ⟨ps, htokens, ⟨hstart, ?_⟩, hsame⟩
  obtain ⟨passed, hpassed, -⟩ := hreaches
  rw [htokens, hqs, ← List.append_assoc] at hpassed
  rw [List.append_cancel_right hpassed]
  have hgrowing (passed : List Token) : R (passed ++ qs) := by
    induction passed with
    | nil => exact hend.2
    | cons t passed ih => exact Token.Growing.cons ih
  exact hgrowing passed

theorem fail (fault : Fault) : (Reading.fail fault : Reading α).LocalAt s P Q c :=
  of_error (e := ⟨c.here.line, fault⟩) rfl

theorem refuse (expected : Expectation) : (Reading.refuse expected : Reading α).LocalAt s P Q c :=
  of_error (e := ⟨c.here.line, .expected expected c.here.found⟩) rfl

theorem pure (a : α) : (Pure.pure a : Reading α).LocalAt s (Q a) Q c := by
  intro events b d hrun
  obtain ⟨rfl, hrun⟩ := Prod.mk.injEq .. |>.mp hrun
  obtain ⟨rfl, rfl⟩ := by simpa using hrun
  exact ⟨.refl c, fun qs hqs hend => ⟨qs, hqs, hend, fun c' hc' => ⟨c', rfl, hc'⟩⟩⟩

theorem emit {Q : Unit → List Token → Prop} (e : Event) : (Reading.emit e).LocalAt s (Q ()) Q c := by
  intro events b d hrun
  obtain ⟨rfl, hrun⟩ := Prod.mk.injEq .. |>.mp hrun
  obtain ⟨-, rfl⟩ := by simpa using hrun
  exact ⟨.refl c, fun qs hqs hend => ⟨qs, hqs, hend, fun c' hc' => ⟨c', rfl, hc'⟩⟩⟩

theorem bind (h : r.LocalAt s P Q c)
    (hf : ∀ events a d, r c = (events, .ok (a, d)) → c.Reaches d → (f a).LocalAt s (Q a) R d) :
    (r >>= f).LocalAt s P R c := by
  intro events b e hrun
  obtain ⟨first, a, d, more, hr, hmore, rfl⟩ := exists_of_bind_ok hrun
  obtain ⟨hreaches, hfirst⟩ := h first a d hr
  obtain ⟨hreaches', hrest⟩ := hf first a d hr hreaches more b e hmore
  refine ⟨hreaches.trans hreaches', fun us hus hend => ?_⟩
  obtain ⟨qs, hqs, hmid, hsecond⟩ := hrest us hus hend
  obtain ⟨ps, hps, hstart, hfirst⟩ := hfirst qs hqs hmid
  refine ⟨ps, hps, hstart, fun c' hc' => ?_⟩
  obtain ⟨d', hr', hd'⟩ := hfirst c' hc'
  obtain ⟨e', hmore', he'⟩ := hsecond d' hd'
  exact ⟨e', by rw [bind_of_ok f hr', hmore'], he'⟩

theorem emit_bind {e : Event} {f : Unit → Reading β} (h : (f ()).LocalAt s P R c) :
    (Reading.emit e >>= f).LocalAt s P R c :=
  (emit (Q := fun _ => P) e).bind fun events u d hrun _ => by
    obtain ⟨-, hrun⟩ := Prod.mk.injEq .. |>.mp hrun
    obtain ⟨-, rfl⟩ := by simpa using hrun
    exact h

/-- What is read depends on the cursor, but not on what follows the seam. -/
theorem cursor_bind {f : Cursor → Reading β} (h : (f c).LocalAt s P R c)
    (hsame : ∀ ps c', P ps → s.At ps c c' → f c' = f c) : (Reading.cursor >>= f).LocalAt s P R c := by
  intro events b d hrun
  obtain ⟨hreaches, hlocal⟩ := h events b d hrun
  refine ⟨hreaches, fun qs hqs hend => ?_⟩
  obtain ⟨ps, htokens, hps, hrest⟩ := hlocal qs hqs hend
  refine ⟨ps, htokens, hps, fun c' hc' => ?_⟩
  obtain ⟨d', hd', hat⟩ := hrest c' hc'
  exact ⟨d', (congrFun (hsame ps c' hps hc') c').trans hd', hat⟩

theorem here_bind {f : Token → Reading β} (h : (f c.here).LocalAt s P R c)
    (hne : ∀ ps, P ps → ps ≠ []) : (Reading.here >>= f).LocalAt s P R c :=
  cursor_bind (f := fun c => f c.here) h fun ps _ hps hc' => by rw [hc'.here_eq (hne ps hps)]

theorem before_bind {f : Token → Reading β} (h : (f c.before).LocalAt s P R c) :
    (Reading.before >>= f).LocalAt s P R c :=
  cursor_bind (f := fun c => f c.before) h fun _ _ _ hc' => by rw [hc'.before]

theorem forward_bind {n : Nat} {f : Unit → Reading β} (hc : c.Sited source)
    (hcode : ∀ t ∈ c.tokens.take n, ¬ t.isEnd) (h : (f ()).LocalAt s P R (c.forward n))
    (hP : ∀ ps us, ps = c.tokens.take n → ps.length = n → P us → T (ps ++ us)) :
    (Reading.forward n >>= f).LocalAt s T R c := by
  intro events b d hrun
  obtain ⟨hreaches, hlocal⟩ := h events b d hrun
  refine ⟨(Cursor.reaches_forward n c).trans hreaches, fun qs hqs hend => ?_⟩
  obtain ⟨us, hus, hstart, hrest⟩ := hlocal qs hqs hend
  rw [Cursor.tokens_forward hc.laid hcode] at hus
  have hlength : (c.tokens.take n).length = n :=
    List.length_take_of_le (hc.laid.lt_length hcode).le
  have htokens : c.tokens = (c.tokens.take n ++ us) ++ s.rest := by
    rw [List.append_assoc, ← hus, List.take_append_drop]
  refine ⟨_, htokens, hP _ us rfl hlength hstart, fun c' hc' => hrest (c'.forward n) ?_⟩
  have hforward := hc'.forward
  rwa [hlength] at hforward

theorem take_bind {f : Token → Reading β} (hc : c.Sited source) (hcode : ¬ c.here.isEnd)
    (h : (f c.here).LocalAt s P R c.advance) (hP : ∀ us, P us → T (c.here :: us)) :
    (Reading.take >>= f).LocalAt s T R c := by
  intro events b d hrun
  obtain ⟨hreaches, hlocal⟩ := h events b d hrun
  refine ⟨(Cursor.reaches_advance c).trans hreaches, fun qs hqs hend => ?_⟩
  obtain ⟨us, hus, hstart, hrest⟩ := hlocal qs hqs hend
  have htokens : c.tokens = (c.here :: us) ++ s.rest := by
    have hpasses := Cursor.tokens_forward (n := 1) hc.laid (by simpa [Cursor.tokens] using hcode)
    rw [List.cons_append, ← hus]
    exact congrArg (c.here :: ·) (by simpa [Cursor.tokens, Cursor.forward] using hpasses.symm)
  refine ⟨_, htokens, hP us hstart, fun c' hc' => ?_⟩
  obtain ⟨d', hd', hat⟩ := hrest c'.advance hc'.advance
  refine ⟨d', ?_, hat⟩
  change f c'.here c'.advance = _
  rw [hc'.here_eq (List.cons_ne_nil _ _), hd']

theorem ite {p : Prop} [Decidable p] {r' : Reading α} (hr : p → r.LocalAt s P Q c)
    (hr' : ¬ p → r'.LocalAt s P Q c) : (if p then r else r').LocalAt s P Q c := by
  split
  · exact hr ‹_›
  · exact hr' ‹_›

/-! ## Tokens that have to be there -/

/-- A reading that steps over the token at the cursor if the token passes a test. -/
theorem tested_bind {r : Reading Token} {f : Token → Reading β} {p : Token → Bool}
    (hr : ∀ c, p c.here = true → r c = take c) (hr' : p c.here = false → ∃ e, r c = ([], .error e))
    (hc : c.Sited source) (hp : p c.here = true → ¬ c.here.isEnd)
    (h : p c.here = true → (f c.here).LocalAt s P R c.advance)
    (hP : ∀ us, p c.here = true → P us → T (c.here :: us)) : (r >>= f).LocalAt s T R c := by
  cases hhere : p c.here with
  | false =>
      obtain ⟨e, he⟩ := hr' hhere
      exact of_error (congrArg Prod.snd (bind_of_error f he))
  | true =>
      have htake := (take_bind (T := fun ps => T ps ∧ ∃ us, ps = c.here :: us) hc (hp hhere) (h hhere)
        fun us hus => ⟨hP us hhere hus, us, rfl⟩)
      have hrun {c : Cursor} (hhere : p c.here = true) : (r >>= f) c = (Reading.take >>= f) c := by
        rw [bind_of_ok f (hr c hhere), bind_of_ok f (show Reading.take c = _ from rfl)]
      intro events b d hd
      rw [hrun hhere] at hd
      obtain ⟨hreaches, hlocal⟩ := htake events b d hd
      refine ⟨hreaches, fun qs hqs hend => ?_⟩
      obtain ⟨ps, htokens, ⟨hstart, us, rfl⟩, hrest⟩ := hlocal qs hqs hend
      refine ⟨_, htokens, hstart, fun c' hc' => ?_⟩
      obtain ⟨d', hd', hat⟩ := hrest c' hc'
      exact ⟨d', by rw [hrun (by rw [hc'.here_eq (List.cons_ne_nil _ _), hhere]), hd'], hat⟩

theorem expect_bind {kind : Token.Kind} {symbol : String} {f : Token → Reading β}
    (hc : c.Sited source) (hkind : kind ≠ .endOfInput)
    (h : c.here.kind = kind → (f c.here).LocalAt s P R c.advance)
    (hP : ∀ us, c.here.kind = kind → P us → T (c.here :: us)) :
    (expect kind symbol >>= f).LocalAt s T R c := by
  have hrun (c : Cursor) : expect kind symbol c =
      if c.here.kind = kind then Reading.take c else Reading.refuse (.symbol symbol) c := by
    rw [expect, Reading.cursor_bind, Cursor.isAt]
    split <;> simp_all
  refine tested_bind (p := fun t => t.kind = kind) (fun c hhere => ?_) (fun hhere => ?_) hc
    (fun hhere => ?_) (fun hhere => h (of_decide_eq_true hhere))
    fun us hhere => hP us (of_decide_eq_true hhere)
  · rw [hrun, if_pos (of_decide_eq_true hhere)]
  · exact ⟨⟨c.here.line, .expected (.symbol symbol) c.here.found⟩,
      by rw [hrun, if_neg (of_decide_eq_false hhere)]; rfl⟩
  · rw [Token.isEnd, of_decide_eq_true hhere, decide_eq_true_eq]
    exact hkind

theorem expectOperator_bind {operator : String} {f : Token → Reading β} (hc : c.Sited source)
    (h : c.here.kind = .operator → (f c.here).LocalAt s P R c.advance)
    (hP : ∀ us, P us → T (c.here :: us)) : (expectOperator operator >>= f).LocalAt s T R c := by
  have hrun (c : Cursor) : expectOperator operator c =
      if c.here.isOperator operator.toList then Reading.take c
      else Reading.refuse (.symbol operator) c := by
    rw [expectOperator, Reading.cursor_bind, Cursor.isAtOperator]
    split <;> rfl
  refine tested_bind (p := fun t => t.isOperator operator.toList) (fun c hhere => ?_)
    (fun hhere => ?_) hc (fun hhere => ?_) (fun hhere => h (kind_of_isOperator hhere)) fun us _ => hP us
  · rw [hrun, if_pos hhere]
  · exact ⟨⟨c.here.line, .expected (.symbol operator) c.here.found⟩,
      by rw [hrun, if_neg (by simpa using hhere)]; rfl⟩
  · simp [Token.isEnd, kind_of_isOperator hhere]

theorem expectName_bind {f : Token → Reading β} (hc : c.Sited source)
    (h : c.here.isName = true → (f c.here).LocalAt s P R c.advance)
    (hP : ∀ us, c.here.isName = true → P us → T (c.here :: us)) :
    (expectName >>= f).LocalAt s T R c := by
  have hrun (c : Cursor) : expectName c =
      if c.here.isName then Reading.take c else Reading.refuse .identifier c := by
    rw [expectName, Reading.here_bind]
    split <;> rfl
  refine tested_bind (p := Token.isName) (fun c hhere => ?_) (fun hhere => ?_) hc (fun hhere => ?_)
    h hP
  · rw [hrun, if_pos hhere]
  · exact ⟨⟨c.here.line, .expected .identifier c.here.found⟩,
      by rw [hrun, if_neg (by simpa using hhere)]; rfl⟩
  · simp [Token.isEnd, Token.kind_of_isName hhere]

end LocalAt

/-! ## Loops -/

/-- What a round leaves in front of the seam: tokens with `P`, one less than there were, if there is to
be another round, and tokens with `Q` if not. -/
def Left (n : Nat) (P Q : List Token → Prop) : Bool → List Token → Prop
  | true => Token.AtLeast (n - 1) P
  | false => Token.AtLeast n Q

/-- One round of a loop, which steps over a token if there is to be another round. -/
def LocalRound (source : Text) (s : Seam) (P Q : List Token → Prop) (body : Reading Bool) : Prop :=
  ∀ n c, c.Sited source → body.LocalAt s (Token.AtLeast n P) (Left n P Q) c

variable {Q : List Token → Prop} {body : Reading Bool}

/-- A round in front of another one starts further from the seam. -/
theorem LocalRound.again (h : LocalRound source s P Q body) (hc : c.Sited source)
    {events : List Event} {d : Cursor} (hrun : body c = (events, .ok (true, d))) {n : Nat}
    {qs : List Token} (hqs : d.tokens = qs ++ s.rest) (hend : Token.AtLeast n P qs) :
    ∃ ps, c.tokens = ps ++ s.rest ∧ Token.AtLeast n P ps ∧ qs.length < ps.length ∧
      ∀ c', s.At ps c c' → ∃ d', body c' = (events, .ok (true, d')) ∧ s.At qs d d' := by
  obtain ⟨ps, hps, ⟨hlength, hP⟩, hsame⟩ := (h (qs.length + 1) c hc events true d hrun).2 qs hqs
    ⟨le_rfl, hend.2⟩
  exact ⟨ps, hps, ⟨hend.1.trans (by omega), hP⟩, hlength, hsame⟩

theorem LocalRound.last (h : LocalRound source s P Q body) (hc : c.Sited source)
    {events : List Event} {d : Cursor} (hrun : body c = (events, .ok (false, d))) {n : Nat}
    {qs : List Token} (hqs : d.tokens = qs ++ s.rest) (hend : Token.AtLeast n Q qs) :
    ∃ ps, c.tokens = ps ++ s.rest ∧ Token.AtLeast n P ps ∧
      ∀ c', s.At ps c c' → ∃ d', Rounds body c' events d' ∧ s.At qs d d' := by
  obtain ⟨ps, htokens, hstart, hsame⟩ := (h n c hc events false d hrun).2 qs hqs hend
  refine ⟨ps, htokens, hstart, fun c' hc' => ?_⟩
  obtain ⟨d', hd', hat⟩ := hsame c' hc'
  exact ⟨d', .last hd', hat⟩

/-- A loop whose rounds leave the same in front of the seam, the last one and the others. -/
theorem LocalRound.rounds (h : LocalRound source s P P body) (n : Nat) (c : Cursor)
    (hc : c.Sited source) :
    (repeatWhile body).LocalAt s (Token.AtLeast n P) (fun _ => Token.AtLeast n P) c := by
  have hloop (budget : List Token) : ∀ (c : Cursor) (events : List Event) (d : Cursor), c.Sited source →
      loop body budget c = (events, .ok ((), d)) → c.Reaches d ∧
      ∀ qs, d.tokens = qs ++ s.rest → Token.AtLeast n P qs →
        ∃ ps, c.tokens = ps ++ s.rest ∧ Token.AtLeast n P ps ∧ (c.ahead.length ≤ budget.length →
          ∀ c', s.At ps c c' → ∃ d', Rounds body c' events d' ∧ s.At qs d d') := by
    have hlast {c : Cursor} {events : List Event} {d : Cursor} (budget : List Token) (hc : c.Sited source)
        (hrun : body c = (events, .ok (false, d))) : c.Reaches d ∧
        ∀ qs, d.tokens = qs ++ s.rest → Token.AtLeast n P qs →
          ∃ ps, c.tokens = ps ++ s.rest ∧ Token.AtLeast n P ps ∧ (c.ahead.length ≤ budget.length →
            ∀ c', s.At ps c c' → ∃ d', Rounds body c' events d' ∧ s.At qs d d') := by
      refine ⟨(h n c hc events false d hrun).1, fun qs hqs hend => ?_⟩
      obtain ⟨ps, htokens, hstart, hsame⟩ := h.last hc hrun hqs hend
      exact ⟨ps, htokens, hstart, fun _ => hsame⟩
    induction budget with
    | nil =>
        intro c events d hc hrun
        obtain ⟨first, again, e, more, hfirst, hmore, rfl⟩ := exists_of_bind_ok hrun
        cases hmore
        rw [List.append_nil]
        cases again with
        | false => exact hlast [] hc hfirst
        | true =>
            refine ⟨(h 0 c hc first true d hfirst).1, fun qs hqs hend => ?_⟩
            obtain ⟨ps, htokens, hstart, hlength, -⟩ := h.again hc hfirst hqs hend
            refine ⟨ps, htokens, hstart, fun hbudget => ?_⟩
            have hone := congrArg List.length htokens
            have hrest := List.length_pos_of_ne_nil s.rest_ne
            simp only [Cursor.tokens, List.length_cons, List.length_append, List.length_nil] at hone hbudget
            omega
    | cons t budget ih =>
        intro c events d hc hrun
        obtain ⟨first, again, e, more, hfirst, hmore, rfl⟩ := exists_of_bind_ok hrun
        cases again with
        | false =>
            cases hmore
            rw [List.append_nil]
            exact hlast (t :: budget) hc hfirst
        | true =>
            have hreaches := (h 0 c hc first true e hfirst).1
            obtain ⟨hreaches', hlocal⟩ := ih e more d (hc.reaching hreaches) hmore
            refine ⟨hreaches.trans hreaches', fun us hus hend => ?_⟩
            obtain ⟨qs, hqs, hmid, hrest⟩ := hlocal us hus hend
            obtain ⟨ps, hps, hstart, hlength, hsame⟩ := h.again hc hfirst hqs hmid
            refine ⟨ps, hps, hstart, fun hbudget c' hc' => ?_⟩
            have hshort : e.ahead.length ≤ budget.length := by
              have hone := congrArg List.length hps
              have htwo := congrArg List.length hqs
              simp only [Cursor.tokens, List.length_cons, List.length_append] at hone htwo hbudget
              omega
            obtain ⟨e', he', hat⟩ := hsame c' hc'
            obtain ⟨d', hd', hat'⟩ := hrest hshort e' hat
            exact ⟨d', .more he' (hc'.length_lt hat hlength) hd', hat'⟩
  intro events u d hrun
  obtain ⟨hreaches, hlocal⟩ := hloop c.ahead c events d hc hrun
  refine ⟨hreaches, fun qs hqs hend => ?_⟩
  obtain ⟨ps, htokens, hstart, hsame⟩ := hlocal qs hqs hend
  refine ⟨ps, htokens, hstart, fun c' hc' => ?_⟩
  obtain ⟨d', hd', hat⟩ := hsame le_rfl c' hc'
  exact ⟨d', hd'.loop le_rfl, hat⟩

/-- A loop whose last round may leave something else. -/
theorem LocalRound.rounds_of_passes (h : LocalRound source s P Q body)
    (hpasses : ∀ c events d, c.Sited source → body c = (events, .ok (true, d)) → c.Passes d) (n : Nat)
    (hc : c.Sited source) :
    (repeatWhile body).LocalAt s (Token.AtLeast n P) (fun _ => Token.AtLeast n Q) c := by
  intro events u d hrun
  have hrounds := rounds_of_repeatWhile (P := fun c => c.Sited source) (fun c events d hc hrun =>
    have hpass := hpasses c events d hc hrun
    ⟨hpass, hc.reaching hpass.reaches⟩) hc hrun
  clear hrun
  suffices hlocal : c.Reaches d ∧ ∀ qs, d.tokens = qs ++ s.rest → Token.AtLeast n Q qs →
      ∃ ps, c.tokens = ps ++ s.rest ∧ Token.AtLeast n P ps ∧
        ∀ c', s.At ps c c' → ∃ d', Rounds body c' events d' ∧ s.At qs d d' by
    refine ⟨hlocal.1, fun qs hqs hend => ?_⟩
    obtain ⟨ps, htokens, hstart, hsame⟩ := hlocal.2 qs hqs hend
    refine ⟨ps, htokens, hstart, fun c' hc' => ?_⟩
    obtain ⟨d', hd', hat⟩ := hsame c' hc'
    exact ⟨d', hd'.loop le_rfl, hat⟩
  induction hrounds with
  | last hrun => exact ⟨(h 0 _ hc _ _ _ hrun).1, fun qs hqs hend => h.last hc hrun hqs hend⟩
  | @more c e d first more hfirst _ _ ih =>
      have hreaches := (h 0 c hc first true e hfirst).1
      obtain ⟨hreaches', hlocal⟩ := ih (hc.reaching hreaches)
      refine ⟨hreaches.trans hreaches', fun us hus hend => ?_⟩
      obtain ⟨qs, hqs, hmid, hrest⟩ := hlocal us hus hend
      obtain ⟨ps, hps, hstart, hlength, hsame⟩ := h.again hc hfirst hqs hmid
      refine ⟨ps, hps, hstart, fun c' hc' => ?_⟩
      obtain ⟨e', he', hat⟩ := hsame c' hc'
      obtain ⟨d', hd', hat'⟩ := hrest e' hat
      exact ⟨d', .more he' (hc'.length_lt hat hlength) hd', hat'⟩

end Reading

end CodeFrames
