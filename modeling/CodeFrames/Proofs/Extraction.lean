import CodeFrames.Proofs.Decoding.Expression
import CodeFrames.Proofs.Framing
import CodeFrames.Proofs.Layout
import Mathlib.Data.List.Infix
import Mathlib.Algebra.Ring.Int.Defs

/-!
# The extent of an extraction

The extraction on top of an assembly counts the expressions that are open.  As long as one is, it stays
in place and keeps where the first one began; the event that closes the last one takes it off and hands
on the text from there.  What lies between the two ends plays no role but for this count.
-/

namespace CodeFrames

namespace Event

/-- How many more expressions are open behind the event than in front of it. -/
def depthChange : Event → Int
  | .openExpression _ => 1
  | .closeExpression .. => -1
  | _ => 0

end Event

/-- How many more expressions the events open than they close. -/
def depthBehind (events : List Event) : Int := (events.map Event.depthChange).sum

theorem depthBehind_nil : depthBehind [] = 0 := rfl

theorem depthBehind_cons (event : Event) (events : List Event) :
    depthBehind (event :: events) = event.depthChange + depthBehind events := by
  simp [depthBehind]

theorem depthBehind_append (events more : List Event) :
    depthBehind (events ++ more) = depthBehind events + depthBehind more := by
  simp [depthBehind]

namespace Assembly

variable {a : Assembly} {x : Extraction} {below : List Extraction} {first last : Span}
  {events inner : List Event}

theorem extracting_extracting (a : Assembly) (expressions others : List Extraction) :
    (a.extracting expressions).extracting others = a.extracting others := rfl

/-- Within an open expression only the depth of the extraction changes. -/
theorem run_within (hbounds : ∀ event ∈ events, event.boundsExpression = true)
    (hx : a.expressions = x :: below)
    (hopen : ∀ passed, passed <+: events → 1 ≤ x.depth + depthBehind passed) :
    a.run events =
      .ok (a.extracting ({ x with depth := (x.depth + depthBehind events).toNat } :: below)) := by
  induction events generalizing a x with
  | nil =>
      rw [run_nil, depthBehind_nil, Int.add_zero, Int.toNat_natCast, extracting_self hx]
  | cons event events ih =>
      obtain ⟨hevent, hevents⟩ := List.forall_mem_cons.mp hbounds
      obtain ⟨use, depth, start⟩ := x
      have hdepth : 1 ≤ (depth : Int) := by simpa [depthBehind_nil] using hopen [] List.nil_prefix
      have hmore (passed : List Event) (hpassed : passed <+: events) :
          1 ≤ depth + event.depthChange + depthBehind passed := by
        have := hopen (event :: passed) (List.cons_prefix_cons.mpr ⟨rfl, hpassed⟩)
        rw [depthBehind_cons] at this
        dsimp only at this
        omega
      -- The event takes the extraction one level up or down, and the rest of the events go on there.
      have hgo (next : Nat) (hnext : (next : Int) = depth + event.depthChange)
          (hstep : a.step event = .ok (a.extracting (⟨use, next, start⟩ :: below))) :
          a.run (event :: events) = .ok (a.extracting
            (⟨use, (depth + depthBehind (event :: events)).toNat, start⟩ :: below)) := by
        rw [run_cons_of_ok events hstep, @ih (a.extracting (⟨use, next, start⟩ :: below)) ⟨use, next, start⟩
          hevents rfl (by simpa only [hnext] using hmore), extracting_extracting, depthBehind_cons, hnext,
          Int.add_assoc]
      cases event with
      | openExpression first =>
          have hne : depth ≠ 0 := by omega
          refine hgo (depth + 1) (by simp [Event.depthChange]) ?_
          rw [step_openExpression hx first, Extraction.opened, if_neg hne]
      | closeExpression last isEmpty =>
          have htwo : 1 ≤ (depth : Int) + -1 := by
            simpa [Event.depthChange, depthBehind_nil] using hmore [] List.nil_prefix
          obtain ⟨outer, rfl⟩ : ∃ outer, depth = outer + 2 := ⟨depth - 2, by omega⟩
          refine hgo (outer + 1) (by simp [Event.depthChange]; omega) ?_
          simp only [step, closeExpression, hx, Extraction.closed]
          rfl
      | _ => simp [Event.boundsExpression] at hevent

/-- An extraction at depth zero takes the text from the start of the expression that is opened first to
the end of the one that closes it, and stays in place until then.  Nothing depends on the places of the
expressions in between or on whether they are empty. -/
theorem run_extent (hx : a.expressions = x :: below) (hdepth : x.depth = 0)
    (hbounds : ∀ event ∈ inner, event.boundsExpression = true)
    (hopen : ∀ passed, passed <+: .openExpression first :: inner → passed ≠ [] → 1 ≤ depthBehind passed)
    (hclosed : depthBehind (.openExpression first :: (inner ++ [.closeExpression last false])) = 0)
    (hfirst : a.source.IsCut first.start) (hlast : a.source.IsCut last.stop)
    (hle : first.start ≤ last.stop) :
    (∀ passed, passed <+: .openExpression first :: inner → passed ≠ [] →
      a.run passed =
        .ok (a.extracting (⟨x.use, (depthBehind passed).toNat, some first.start⟩ :: below))) ∧
      ∃ text, Text.slice? a.source first.start last.stop = some text ∧
        a.run (.openExpression first :: (inner ++ [.closeExpression last false])) =
          (a.extracting below).fulfil x.use (withSubtypeOperator text) := by
  obtain ⟨use, depth, start⟩ := x
  obtain rfl : depth = 0 := hdepth
  have hopened : a.step (.openExpression first) =
      .ok (a.extracting (⟨use, 1, some first.start⟩ :: below)) := step_openExpression hx first
  have hinside (passed : List Event) (hpassed : passed <+: inner) :
      a.run (.openExpression first :: passed) = .ok (a.extracting
        (⟨use, (depthBehind (.openExpression first :: passed)).toNat, some first.start⟩ :: below)) := by
    rw [run_cons_of_ok passed hopened, run_within (x := ⟨use, 1, some first.start⟩)
      (fun event hevent => hbounds event (hpassed.subset hevent)) rfl, extracting_extracting,
      depthBehind_cons]
    · rfl
    · intro shorter hshorter
      have := hopen (.openExpression first :: shorter)
        (List.cons_prefix_cons.mpr ⟨rfl, hshorter.trans hpassed⟩) (by simp)
      rwa [depthBehind_cons] at this
  refine ⟨?_, ?_⟩
  · intro passed hpassed hne
    obtain ⟨event, passed, rfl⟩ := List.exists_cons_of_ne_nil hne
    obtain ⟨rfl, hinner⟩ := List.cons_prefix_cons.mp hpassed
    exact hinside passed hinner
  · obtain ⟨text, htext⟩ := Option.isSome_iff_exists.mp (Text.slice?_isSome hfirst hlast hle)
    refine ⟨text, htext, ?_⟩
    have hone : depthBehind (.openExpression first :: inner) = 1 := by
      rw [← List.cons_append, depthBehind_append, depthBehind_cons (.closeExpression last false),
        depthBehind_nil] at hclosed
      simp only [Event.depthChange] at hclosed
      omega
    rw [← List.cons_append, run_append_of_ok _ (hinside inner (List.prefix_refl inner)), run_singleton, hone]
    refine step_closeExpression_outermost (a := a.extracting (⟨use, 1, some first.start⟩ :: below))
      (y := ⟨use, 0, some first.start⟩) rfl ?_
    simp only [Extraction.closed, Extraction.textTo, extracting, Option.getD_some, htext]
    rfl

/-- The ends of the expressions in `f(g(h(1)))`, apart from those of the whole. -/
def nestedCallBounds : List Event :=
  [.openExpression ⟨1, 2, 3⟩, .openExpression ⟨1, 4, 5⟩, .openExpression ⟨1, 6, 7⟩,
    .closeExpression ⟨1, 6, 7⟩ false, .closeExpression ⟨1, 7, 8⟩ true, .closeExpression ⟨1, 99, 3⟩ false]

/-- The whole call becomes a statement, although one of the inner ends is not even in the source. -/
theorem run_extent_nestedCall :
    ((start "f(g(h(1)))".toList .default).await .statement).run
      (.openExpression ⟨1, 0, 1⟩ :: (nestedCallBounds ++ [.closeExpression ⟨1, 9, 10⟩ false])) =
        (start "f(g(h(1)))".toList .default).fulfil .statement "f(g(h(1)))".toList := by
  have hslice : Text.slice? "f(g(h(1)))".toList 0 10 = some "f(g(h(1)))".toList := by decide
  obtain ⟨-, text, htext, hrun⟩ := @run_extent ((start "f(g(h(1)))".toList .default).await .statement)
    (.awaiting .statement) [] ⟨1, 0, 1⟩ ⟨1, 9, 10⟩ nestedCallBounds rfl rfl (by decide)
    (by
      intro passed hpassed hne
      have hall : ∀ passed ∈ (.openExpression ⟨1, 0, 1⟩ :: nestedCallBounds).inits, passed ≠ [] →
        1 ≤ depthBehind passed := by decide
      exact hall passed ((List.mem_inits _ _).mpr hpassed) hne)
    (by decide) ⟨[], _, rfl, rfl⟩ ⟨"f(g(h(1)))".toList, [], rfl, rfl⟩ (by decide)
  obtain rfl : "f(g(h(1)))".toList = text := Option.some.inj (hslice.symm.trans htext)
  have hshown : withSubtypeOperator "f(g(h(1)))".toList = "f(g(h(1)))".toList := by decide +kernel
  rw [hshown] at hrun
  exact hrun

end Assembly

end CodeFrames
