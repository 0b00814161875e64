import CodeFrames.Proofs.Bracing.Site

/-!
# Readings over the place of the statement

A reading that comes to the statement has a part in front of it and a part behind it.  With the braces
the part in front is read the same, since nothing is told by what follows, and the part behind is read
the same some bytes further on.  How a reading is told to come to the statement: it goes another way
with productions that refuse the statement.
-/

namespace CodeFrames

open Reading

namespace Bracing.Site

variable {b : Bracing} (σ : b.Site) {α β : Type}

/-- A cursor where the statement is read. -/
structure Hole (h : Cursor) : Prop where
  sited : h.Sited b.source
  tokens : h.tokens = σ.rest
  read : ∃ levels events d, (Enclosed.within levels).statement h = (events, .ok ((), d)) ∧ d.tokens = σ.behind

/-- A run that has come over the statement, and what the other reading does with the braces. -/
def Crossed (Pre : Assembly → Prop) (P : List Token → Prop) (r' : Reading α) (c : Cursor) (events : List Event)
    (a : α) (d : Cursor) : Prop :=
  ∃ ps h, c.Spans ps h ∧ (ps = [] ∨ h.Settled) ∧ σ.Hole h ∧ P ps ∧ ∀ c', σ.seam.At ps c c' →
    ∃ events' d', r' c' = (events', .ok (a, d')) ∧ b.Twin Pre events events' ∧ (b.pairing .back).Aligned d d'

/-- Where the first reading does not do as the second, which comes to its end, the second has come over
the statement, and the third reads the braces there. -/
def Crosses (Pre : Assembly → Prop) (P : List Token → Prop) (r₀ r r' : Reading α) (c : Cursor) : Prop :=
  c.Sited b.source → ∀ events a d, r c = (events, .ok (a, d)) → r₀ c ≠ r c → σ.Crossed Pre P r' c events a d

/-- A reading that may stand in front of the statement. -/
structure InFront (Pre Mid : Assembly → Prop) (P : List Token → Prop) (Q : α → List Token → Prop)
    (r r' : Reading α) (c : Cursor) : Prop where
  near {s : Seam} : σ.Meets s → r.LocalAt s P Q c
  mirrors : ∃ A : α → α → Prop, r.Mirrors (b.pairing .front) A r
  takes : ∃ L, r.ReportsAt c L ∧ Assembly.Takes Pre Mid L
  settles {events : List Event} {a : α} {d : Cursor} : r c = (events, .ok (a, d)) → Q a [] →
    d.Settled ∨ d.tokens = c.tokens
  below : r.Below r'

variable {σ} {Pre Mid Pre' : Assembly → Prop} {P P' : List Token → Prop} {Q : α → List Token → Prop}
  {c m d : Cursor} {first more events : List Event} {a : α} {e : β}

namespace Crossed

variable {r' : Reading α} {f : α → Reading β} {f' : α → Reading β}

theorem imp (h : σ.Crossed Pre P r' c events a d) (hPre : ∀ a, Pre' a → Pre a) (hP : ∀ ps, P ps → P' ps) :
    σ.Crossed Pre' P' r' c events a d := by
  obtain ⟨ps, hole, hspans, hsettled, hhole, hps, hsame⟩ := h
  refine ⟨ps, hole, hspans, hsettled, hhole, hP ps hps, fun c' hc' => ?_⟩
  obtain ⟨events', d', hrun, htwin, hd⟩ := hsame c' hc'
  exact ⟨events', d', hrun, htwin.weaken hPre, hd⟩

theorem of_run (h : σ.Crossed Pre P r' c events a d) {s' : Reading α}
    (hs : ∀ ps c', P ps → σ.seam.At ps c c' → ∀ events a d, r' c' = (events, .ok (a, d)) →
      s' c' = (events, .ok (a, d))) : σ.Crossed Pre P s' c events a d := by
  obtain ⟨ps, hole, hspans, hsettled, hhole, hps, hsame⟩ := h
  refine ⟨ps, hole, hspans, hsettled, hhole, hps, fun c' hc' => ?_⟩
  obtain ⟨events', d', hrun, htwin, hd⟩ := hsame c' hc'
  exact ⟨events', d', hs ps c' hps hc' _ _ _ hrun, htwin, hd⟩

/-- What is read behind the statement. -/
theorem behind (h : σ.Crossed Pre P r' c first a m) (hmore : f a m = (more, .ok (e, d)))
    (hmirrors : (f a).MirrorsSelf (b.pairing .back)) (hbelow : (f a).Below (f' a)) :
    σ.Crossed Pre P (r' >>= f') c (first ++ more) e d := by
  obtain ⟨ps, hole, hspans, hsettled, hhole, hps, hsame⟩ := h
  refine ⟨ps, hole, hspans, hsettled, hhole, hps, fun c' hc' => ?_⟩
  obtain ⟨events', m', hrun, htwin, hm⟩ := hsame c' hc'
  have hmirror := hmirrors m m' hm
  unfold MirrorsAt at hmirror
  rw [hmore] at hmirror
  generalize hother : f a m' = outcome at hmirror
  cases hmirror with
  | ok hevents heq hd =>
      subst heq
      exact ⟨_, _, by rw [bind_of_ok f' hrun, hbelow.eq_of_ok hother], htwin.behind hevents, hd⟩

end Crossed

/-- What is read in front of the statement. -/
theorem InFront.crossed {g g' : Reading α} {f' : α → Reading β} (hg : σ.InFront Pre Mid P Q g g' c)
    (hc : c.Sited b.source) (hrun : g c = (first, .ok (a, m))) (h : σ.Crossed Mid (Q a) (f' a) m more e d) :
    σ.Crossed Pre P (g' >>= f') c (first ++ more) e d := by
  obtain ⟨qs, hole, hspans, hsettled, hhole, hqs, hcross⟩ := h
  obtain ⟨⟨passed, hpassed⟩, hlocal⟩ := hg.near σ.meets_seam first a m hrun
  have hm : m.tokens = qs ++ σ.rest := hspans.1.trans (by rw [hhole.tokens])
  obtain ⟨ps, hps, hstart, hsame⟩ := hlocal qs hm hqs
  have hwhole := hpassed.trans hspans
  obtain rfl : ps = passed ++ qs :=
    List.append_cancel_right (hps.symm.trans (hwhole.1.trans (congrArg _ hhole.tokens)))
  refine ⟨_, hole, hwhole, ?_, hhole, hstart, fun c' hc' => ?_⟩
  · rcases hsettled with rfl | hsettled
    · rcases hg.settles hrun hqs with hend | hend
      · rw [Cursor.Settled] at hend ⊢
        rw [show hole.before = m.before from hspans.2, show hole.here = m.here from (List.cons.inj hspans.1).1.symm]
        exact .inr hend
      · exact .inl (by simpa [hend] using hpassed.1)
    · exact .inr hsettled
  · obtain ⟨m', hm', hat⟩ := hsame c' hc'
    obtain ⟨more', d', hmore', htwin, hd⟩ := hcross m' hat
    refine ⟨first ++ more', d', by rw [bind_of_ok f' (hg.below.eq_of_ok hm'), hmore'], ?_, hd⟩
    obtain ⟨A, hmirrors⟩ := hg.mirrors
    obtain ⟨e, he, haligned⟩ := exists_edge hc hc'
    obtain ⟨us, hus, -, hedge⟩ := (hg.near σ.meets_edge first a m hrun).2 qs hm hqs
    obtain rfl := List.append_cancel_right (hps.symm.trans hus)
    obtain ⟨f, hf, -⟩ := hedge e he
    have hmirror := hmirrors e e haligned
    unfold MirrorsAt at hmirror
    rw [hf] at hmirror
    obtain ⟨L, hreports, htakes⟩ := hg.takes
    cases hmirror with
    | ok hevents _ _ => exact htwin.front hevents (hreports.mem_and_reaches hrun).1 htakes

namespace Crosses

variable {r₀ r r' s₀ s s' : Reading α} {f₀ f f' : α → Reading β}

theorem imp (h : σ.Crosses Pre P r₀ r r' c) (hPre : ∀ a, Pre' a → Pre a) (hP : ∀ ps, P ps → P' ps) :
    σ.Crosses Pre' P' r₀ r r' c := fun hc events a d hrun hne => (h hc events a d hrun hne).imp hPre hP

/-- A reading that no statement is part of. -/
theorem same : σ.Crosses Pre P r r r' c := fun _ _ _ _ _ hne => absurd rfl hne

theorem ite {p : Prop} [Decidable p] (h : p → σ.Crosses Pre P r₀ r r' c) (g : ¬ p → σ.Crosses Pre P s₀ s s' c) :
    σ.Crosses Pre P (if p then r₀ else s₀) (if p then r else s) (if p then r' else s') c := by
  split
  · exact h ‹_›
  · exact g ‹_›

/-- The statement is in the second reading. -/
theorem front (hr : σ.InFront Pre Mid P Q r r' c) (hf : ∀ events a d, r c = (events, .ok (a, d)) →
      d.Sited b.source → σ.Crosses Mid (Q a) (f₀ a) (f a) (f' a) d) :
    σ.Crosses Pre P (r >>= f₀) (r >>= f) (r' >>= f') c := by
  intro hc events e d hrun hne
  obtain ⟨first, a, m, more, hfirst, hmore, rfl⟩ := exists_of_bind_ok hrun
  obtain ⟨hreaches, -⟩ := hr.near σ.meets_seam first a m hfirst
  have hm := hc.reaching hreaches
  refine hr.crossed hc hfirst (hf first a m hfirst hm hm more e d hmore fun heq => hne ?_)
  rw [bind_of_ok f₀ hfirst, bind_of_ok f hfirst, heq]

/-- The statement is in the first reading. -/
theorem behind (hr : σ.Crosses Pre P r₀ r r' c) (hmirrors : ∀ a, (f a).MirrorsSelf (b.pairing .back))
    (hbelow : ∀ a, (f a).Below (f' a)) : σ.Crosses Pre P (r₀ >>= f) (r >>= f) (r' >>= f') c := by
  intro hc events e d hrun hne
  obtain ⟨first, a, m, more, hfirst, hmore, rfl⟩ := exists_of_bind_ok hrun
  refine (hr hc first a m hfirst fun heq => hne ?_).behind hmore (hmirrors a) (hbelow a)
  rw [bind_of_ok f (heq.trans hfirst), bind_of_ok f hfirst]

theorem returning (h : σ.Crosses Pre P r₀ r r' c) (e : β) :
    σ.Crosses Pre P (r₀ >>= fun _ => Pure.pure e) (r >>= fun _ => Pure.pure e) (r' >>= fun _ => Pure.pure e) c :=
  h.behind (fun _ _ _ hd => .pure rfl hd) fun _ => .refl _

/-- The statement is in the one or in the other. -/
theorem bind (hr : σ.Crosses Pre P r₀ r r' c) (hmirrors : ∀ a, (f a).MirrorsSelf (b.pairing .back))
    (hbelow : ∀ a, (f a).Below (f' a)) (hfront : σ.InFront Pre Mid P Q r r' c)
    (hf : ∀ events a d, r c = (events, .ok (a, d)) → d.Sited b.source → σ.Crosses Mid (Q a) (f₀ a) (f a) (f' a) d) :
    σ.Crosses Pre P (r₀ >>= f₀) (r >>= f) (r' >>= f') c := by
  intro hc events e d hrun hne
  by_cases hsame : r₀ c = r c
  · refine front hfront hf hc events e d hrun fun heq => hne (Eq.trans ?_ heq)
    obtain ⟨first, a, m, more, hfirst, -, -⟩ := exists_of_bind_ok hrun
    rw [bind_of_ok f₀ (hsame.trans hfirst), bind_of_ok f₀ hfirst]
  · obtain ⟨first, a, m, more, hfirst, hmore, rfl⟩ := exists_of_bind_ok hrun
    exact (hr hc first a m hfirst hsame).behind hmore (hmirrors a) (hbelow a)

/-- What is read depends on the cursor, but not on what the statement is put in. -/
theorem cursor_bind {f₀ f f' : Cursor → Reading β} (h : σ.Crosses Pre P (f₀ c) (f c) (f' c) c)
    (hsame : ∀ ps c', P ps → σ.seam.At ps c c' → f' c' = f' c) :
    σ.Crosses Pre P (cursor >>= f₀) (cursor >>= f) (cursor >>= f') c := fun hc events e d hrun hne =>
  (h hc events e d hrun hne).of_run fun ps c' hps hc' _ _ _ => (congrFun (hsame ps c' hps hc') c').trans

end Crosses

/-! ## Loops -/

/-- The rounds behind the first one are a loop of their own. -/
theorem repeatWhile_of_unrolled {source : Text} {body : Reading Bool}
    (hpasses : ∀ c events d, c.Sited source → body c = (events, .ok (true, d)) → c.Passes d)
    {c d : Cursor} (hc : c.Sited source) (h : (body >>= fun again => if again = true then repeatWhile body
      else Pure.pure ()) c = (events, .ok ((), d))) : repeatWhile body c = (events, .ok ((), d)) := by
  obtain ⟨first, again, m, more, hfirst, hmore, rfl⟩ := exists_of_bind_ok h
  cases again with
  | false =>
      cases hmore
      exact (Rounds.last (by simpa using hfirst)).loop le_rfl
  | true =>
      have hpass := hpasses c first m hc hfirst
      exact (Rounds.more hfirst hpass.length_lt (rounds_of_repeatWhile (P := (·.Sited source))
        (fun c events d hc hrun => have hpass := hpasses c events d hc hrun; ⟨hpass, hc.reaching hpass.reaches⟩)
        (hc.reaching hpass.reaches) hmore)).loop le_rfl

/-- A loop comes to the statement in one of its rounds: the rounds before are in front of it. -/
theorem Crosses.rounds {body₀ body body' : Reading Bool} {I : Cursor → Prop}
    (hstep : ∀ c events d, I c → body c = (events, .ok (true, d)) → c.Passes d ∧ I d)
    (hsited : ∀ c, I c → c.Sited b.source)
    (hfront : ∀ c, I c → σ.InFront Pre Pre (fun _ => True) (fun again _ => again = true) body body' c)
    (hcross : ∀ c, I c → σ.Crosses Pre (fun _ => True) body₀ body body' c)
    (hmirrors : body.MirrorsSelf (b.pairing .back))
    (hpasses : ∀ c events d, c.Sited b.braced → body' c = (events, .ok (true, d)) → c.Passes d) (hc : I c) :
    σ.Crosses Pre (fun _ => True) (repeatWhile body₀) (repeatWhile body) (repeatWhile body') c := by
  intro hstart events u d hrun hne
  have hrounds := rounds_of_repeatWhile hstep hc hrun
  have hnone : ¬ Rounds body₀ c events d := fun h => hne ((h.loop le_rfl).trans hrun.symm)
  clear hstart hrun hne
  have hunrolled {events : List Event} {c d : Cursor} (h : σ.Crossed Pre (fun _ => True) (body' >>= fun again =>
      if again = true then repeatWhile body' else Pure.pure ()) c events () d) :
      σ.Crossed Pre (fun _ => True) (repeatWhile body') c events () d :=
    h.of_run fun _ _ _ hc' _ _ _ => repeatWhile_of_unrolled hpasses hc'.sited'
  induction hrounds with
  | @last c d events hlast =>
      have hcrossed := hcross c hc (hsited c hc) events false d hlast fun heq => hnone (.last (heq.trans hlast))
      have hdone : σ.Crossed Pre (fun _ => True) (body' >>= fun again => if again = true then repeatWhile body'
          else Pure.pure ()) c (events ++ []) () d :=
        hcrossed.behind (f := fun _ => Pure.pure ()) rfl (fun _ _ hd => .pure rfl hd) (.refl _)
      rw [List.append_nil] at hdone
      exact hunrolled hdone
  | @more c m d first others hfirst hless hrest ih =>
      obtain ⟨-, hm⟩ := hstep c first m hc hfirst
      refine hunrolled ?_
      by_cases hsame : body₀ c = body c
      · have hlater := ih hm fun h => hnone (.more (hsame.trans hfirst) hless h)
        exact (hfront c hc).crossed (hsited c hc) hfirst (hlater.imp (fun _ h => h) fun _ _ => rfl)
      · exact (hcross c hc (hsited c hc) first true m hfirst hsame).behind (f := fun _ => repeatWhile body)
          (hrest.loop le_rfl) (Mirrors.rounds hmirrors) (Below.rounds (hfront c hc).below)

end Bracing.Site

end CodeFrames
