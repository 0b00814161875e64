import CodeFrames.Proofs.Handlers
import CodeFrames.Proofs.Reporting.Statement
import CodeFrames.Proofs.Seam.Assembly

/-!
# Assemblies between statements

Where a statement may stand, no expression is open and no call of another constructor, and the handler
on top takes elements.  There the events of a statement may be enclosed in a block of their own: the
block hands on the elements that the statement adds.
-/

namespace CodeFrames

open scoped Computability
open Sentence

/-- An event that neither belongs to an expression nor announces one. -/
def Event.isQuiet : Event → Bool
  | .openBlock _ | .closeBlock _ | .otherwise _ | .unsupported .. | .typeName .. | .openMethod ..
  | .openConstructor .. | .parameter .. | .openThrows _ | .closeThrows | .comment _ => true
  | _ => false

/-- Quiet events only. -/
def Sentence.quietly : Language Event := {es | ∀ e ∈ es, e.isQuiet = true}

namespace Assembly

variable {source : Text} {width : Option Nat} {a b c : Assembly} {event : Event}
  {events more : List Event} {L M : Language Event}

/-- Where a block begins, the handler on top takes elements. -/
theorem exists_of_openBlock (h : a.openBlock = .ok b) :
    ∃ top below, b = { a with handlers := top :: below } ∧ top.Ready := by
  unfold openBlock at h
  cases hhandlers : a.handlers with
  | nil => simp [hhandlers] at h
  | cons top below =>
    simp only [hhandlers] at h
    have hnested (h : (if top.collects = true then
          Except.ok { a with handlers := .block .nested :: top :: below }
        else Except.error (ConversionError.mismatch .readyForBlock top.situation)) = .ok b) :
        ∃ top below, b = { a with handlers := top :: below } ∧ top.Ready := by
      split at h <;> cases h
      exact ⟨.block .nested, _, rfl, rfl⟩
    cases top with
    | root elements => exact hnested h
    | block body =>
        simp only at h
        split at h
        · cases h
          exact ⟨_, below, rfl, rfl⟩
        · exact hnested h
    | chain chain =>
        simp only at h
        split at h
        · obtain ⟨d, hd, rfl⟩ := Except.exists_of_map h
          refine ⟨_, below, rfl, ?_⟩
          unfold OpenChain.openBlock at hd
          split at hd <;> cases hd <;> exact ⟨rfl, by simp⟩
        · exact hnested h
    | loop w =>
        simp only at h
        split at h
        · next hstage =>
            obtain ⟨v, hv, rfl⟩ := Except.exists_of_map h
            refine ⟨_, below, rfl, ?_⟩
            rw [OpenLoop.openBody, OpenLoop.require, if_pos hstage] at hv
            cases hv
            rfl
        · exact hnested h

/-- Only a constructor calls another one. -/
theorem exists_of_delegateCall {keyword : Span} (h : a.delegateCall keyword = .ok b) :
    ∃ d outer, a.declarations = d :: outer ∧ d.header = .constructor := by
  unfold delegateCall at h
  dsimp only at h
  split at h
  · cases h
  · obtain ⟨c, hupdate, -⟩ := Except.exists_of_bind h
    unfold updateDeclaration at hupdate
    split at hupdate
    · cases hupdate
    · next d outer hdeclared =>
        obtain ⟨e, he, -⟩ := Except.exists_of_map hupdate
        refine ⟨d, outer, hdeclared, ?_⟩
        by_contra hheader
        simp [requireConstructor, Declaration.isConstructor, hheader, Except.map] at he

/-! ## What quiet events leave alone -/

/-- Both assemblies are at the same work, and the open expressions and calls are the same. -/
structure Beside (a b : Assembly) : Prop where
  source_eq : b.source = a.source
  options_eq : b.options = a.options
  expressions : b.expressions = a.expressions
  arguments : b.arguments = a.arguments

namespace Beside

theorem refl (a : Assembly) : a.Beside a := ⟨rfl, rfl, rfl, rfl⟩

theorem trans (h : a.Beside b) (g : b.Beside c) : a.Beside c :=
  ⟨g.source_eq.trans h.source_eq, g.options_eq.trans h.options_eq, g.expressions.trans h.expressions,
    g.arguments.trans h.arguments⟩

theorem report {e : Element} (h : a.report e = .ok b) : a.Beside b := by
  unfold Assembly.report at h
  split at h
  · cases h
  · obtain ⟨top, -, rfl⟩ := Except.exists_of_map h
    exact ⟨rfl, rfl, rfl, rfl⟩

theorem reports {es : Block} (h : es.foldlM Assembly.report a = .ok b) : a.Beside b := by
  induction es generalizing a with
  | nil =>
      cases h
      exact .refl _
  | cons e es ih =>
      obtain ⟨c, hreport, h⟩ := Except.exists_of_bind h
      exact (report hreport).trans (ih h)

theorem updateChain {f : OpenChain → Except ConversionError OpenChain} (h : a.updateChain f = .ok b) :
    a.Beside b := by
  obtain ⟨chain, below, d, -, -, rfl⟩ := exists_of_updateChain h
  exact ⟨rfl, rfl, rfl, rfl⟩

theorem updateDeclaration {f : Declaration → Except ConversionError Declaration}
    (h : a.updateDeclaration f = .ok b) : a.Beside b := by
  unfold Assembly.updateDeclaration at h
  split at h
  · cases h
  · obtain ⟨d, -, rfl⟩ := Except.exists_of_map h
    exact ⟨rfl, rfl, rfl, rfl⟩

theorem claimType {type : Fragment} (h : a.claimType = .ok (type, b)) : a.Beside b := by
  obtain ⟨types, -, rfl⟩ := exists_of_claimType h
  exact ⟨rfl, rfl, rfl, rfl⟩

theorem openBlock (h : a.openBlock = .ok b) : a.Beside b := by
  obtain ⟨top, below, rfl, -⟩ := exists_of_openBlock h
  exact ⟨rfl, rfl, rfl, rfl⟩

theorem closeBlock (h : a.closeBlock = .ok b) : a.Beside b := by
  unfold Assembly.closeBlock at h
  split at h
  · cases h
  · simp only at h
    split at h
    · split at h
      · split at h
        · cases h
          exact ⟨rfl, rfl, rfl, rfl⟩
        · exact trans (b := { a.dropComment with handlers := _ }) ⟨rfl, rfl, rfl, rfl⟩ (reports h)
      · cases h
    · obtain ⟨d, -, rfl⟩ := Except.exists_of_map h
      exact ⟨rfl, rfl, rfl, rfl⟩
    · obtain ⟨v, -, rfl⟩ := Except.exists_of_map h
      exact ⟨rfl, rfl, rfl, rfl⟩
    · cases h

theorem step (h : a.step event = .ok b) (hquiet : event.isQuiet = true) : a.Beside b := by
  cases event with
  | openBlock first => exact openBlock h
  | closeBlock last => exact closeBlock h
  | otherwise keyword => exact updateChain h
  | openMethod first modifiers name =>
      obtain ⟨⟨type, c⟩, hclaim, h⟩ := Except.exists_of_bind h
      cases h
      exact (claimType hclaim).trans ⟨rfl, rfl, rfl, rfl⟩
  | parameter name ellipsis =>
      obtain ⟨⟨type, c⟩, hclaim, h⟩ := Except.exists_of_bind h
      refine (claimType hclaim).trans (trans ?_ (updateDeclaration h))
      split <;> exact ⟨rfl, rfl, rfl, rfl⟩
  | openThrows keyword =>
      simp only [Assembly.step, openThrows] at h
      split at h <;> cases h
      exact ⟨rfl, rfl, rfl, rfl⟩
  | closeThrows =>
      simp only [Assembly.step, closeThrows] at h
      split at h
      · cases h
      · split at h
        · cases h
        · have hupdated := updateDeclaration h
          exact ⟨hupdated.source_eq, hupdated.options_eq, hupdated.expressions, hupdated.arguments⟩
  | unsupported place construct | typeName first last | openConstructor first modifiers name
  | comment whole =>
      cases h
      exact ⟨rfl, rfl, rfl, rfl⟩
  | _ => cases hquiet

theorem run (h : a.run events = .ok b) (hquiet : ∀ e ∈ events, e.isQuiet = true) : a.Beside b := by
  induction events generalizing a with
  | nil =>
      cases h
      exact .refl _
  | cons event events ih =>
      obtain ⟨hevent, hevents⟩ := List.forall_mem_cons.mp hquiet
      obtain ⟨next, hstep, hrest⟩ := Except.exists_of_bind h
      exact (step hstep hevent).trans (ih hrest hevents)

end Beside

/-! ## Where a statement may stand -/

/-- No expression is open, and no call of another constructor. -/
structure Calm (source : Text) (width : Option Nat) (a : Assembly) : Prop
    extends a.Suits source width where
  expressions_eq : a.expressions = []

/-- Besides, the handler on top takes elements. -/
structure Poised (source : Text) (width : Option Nat) (a : Assembly) : Prop
    extends a.Calm source width where
  ready : ∃ top below, a.handlers = top :: below ∧ top.Ready

theorem Calm.beside (h : a.Calm source width) (hb : a.Beside b) : b.Calm source width :=
  ⟨⟨hb.source_eq.trans h.source_eq, hb.options_eq ▸ h.width_eq, hb.arguments.trans h.arguments_eq⟩,
    hb.expressions.trans h.expressions_eq⟩

theorem Calm.updated (h : a.Calm source width) (handlers : List Handler) (warnings : List Warning)
    (comment : Option Text) : (a.updated handlers warnings comment).Calm source width :=
  ⟨h.toSuits.updated handlers warnings comment, h.expressions_eq⟩

/-- Words of the language take an assembly of one kind to one of another. -/
def Takes (Pre Post : Assembly → Prop) (L : Language Event) : Prop :=
  ∀ events ∈ L, ∀ a b, Pre a → a.run events = .ok b → Post b

namespace Takes

variable {Pre Mid Post Pre' : Assembly → Prop}

theorem mul (h : Takes Pre Mid L) (g : Takes Mid Post M) : Takes Pre Post (L * M) := by
  rintro _ ⟨events, hevents, more, hmore, rfl⟩ a b ha hrun
  obtain ⟨next, hfirst, hrest⟩ := Except.exists_of_bind ((run_append a events more).symm.trans hrun)
  exact g more hmore next b (h events hevents a next ha hfirst) hrest

theorem add (h : Takes Pre Post L) (g : Takes Pre Post M) : Takes Pre Post (L + M) :=
  fun events hevents => hevents.elim (h events) (g events)

theorem weaken (h : Takes Pre Post L) (hPre : ∀ a, Pre' a → Pre a) : Takes Pre' Post L :=
  fun events hevents a b ha => h events hevents a b (hPre a ha)

theorem nil (hPost : ∀ a, Pre a → Post a) : Takes Pre Post 1 := by
  rintro _ rfl a b ha hrun
  cases hrun
  exact hPost a ha

theorem quietly : Takes (Calm source width) (Calm source width) quietly :=
  fun _ hevents _ _ ha hrun => ha.beside (.run hrun hevents)

theorem items : Takes (Poised source width) (Poised source width) (items source width) := by
  rintro events hevents a b ⟨hcalm, top, below, hhandlers, hready⟩ hrun
  obtain ⟨elements, warnings, hitems⟩ := hevents a.comment
  obtain ⟨comment, hleads | ⟨⟨levels, hconflict⟩, -⟩⟩ :=
    leads_items hitems hcalm.toSuits hhandlers hready rfl
  · obtain rfl := Except.ok.inj (hrun.symm.trans hleads)
    exact ⟨hcalm.updated _ _ _, _, _, rfl, Handler.ready_add hready _⟩
  · cases hrun.symm.trans hconflict

theorem openBlock : Takes (Calm source width) (Poised source width) (single Event.openBlock) := by
  rintro _ ⟨first, rfl⟩ a b ha hrun
  rw [run_singleton] at hrun
  obtain ⟨top, below, rfl, hready⟩ := exists_of_openBlock hrun
  exact ⟨ha.beside ⟨rfl, rfl, rfl, rfl⟩, top, below, rfl, hready⟩

theorem quiet {ι : Type} {event : ι → Event} (h : ∀ i, (event i).isQuiet = true) :
    Takes (Calm source width) (Calm source width) (single event) := by
  rintro _ ⟨i, rfl⟩ a b ha hrun
  exact ha.beside (.run hrun (by simp [h]))

theorem blocks : Takes (Calm source width) (Calm source width) (blocks source width) :=
  openBlock.mul (items.mul ((quiet fun _ => rfl).weaken fun _ h => h.toCalm))

/-- A condition, with the keyword that announces it. -/
theorem condition {announce : Span → Event} (use : ExpressionUse)
    (hstep : ∀ {a b : Assembly} {keyword : Span}, a.step (announce keyword) = .ok b →
      ∃ c : Assembly, a.Beside c ∧ b = c.await use)
    (hfulfil : ∀ {a b : Assembly} {text : Text}, a.fulfil use text = .ok b → a.Beside b) :
    Takes (Calm source width) (Calm source width) (single announce * Sentence.expressions source) := by
  rintro _ ⟨_, ⟨keyword, rfl⟩, events, ⟨text, warnings, hvalue⟩, rfl⟩ a b ha hrun
  obtain ⟨next, hnext, hrest⟩ := Except.exists_of_bind hrun
  obtain ⟨c, hc, rfl⟩ := hstep hnext
  have hcalm := ha.beside hc
  have hvalued := (run_awaited hvalue use hcalm.source_eq hcalm.arguments_eq).symm.trans hrest
  exact (hcalm.updated _ _ _).beside (hfulfil hvalued)

theorem openIf : Takes (Calm source width) (Calm source width) (single Event.openIf * Sentence.expressions source) :=
  condition .ifCondition (fun h => ⟨_, .refl _, (Except.ok.inj h).symm⟩) fun h => by
    cases h
    exact ⟨rfl, rfl, rfl, rfl⟩

theorem openWhile :
    Takes (Calm source width) (Calm source width) (single Event.openWhile * Sentence.expressions source) :=
  condition .whileCondition (fun h => ⟨_, .refl _, (Except.ok.inj h).symm⟩) fun h => by
    cases h
    exact ⟨rfl, rfl, rfl, rfl⟩

theorem elseIf : Takes (Calm source width) (Calm source width) (single Event.elseIf * Sentence.expressions source) :=
  condition .elseIfCondition (fun h => by
    obtain ⟨c, hc, rfl⟩ := Except.exists_of_map h
    exact ⟨c, .updateChain hc, rfl⟩) fun h => .updateChain h

theorem delegateCalls :
    Takes (Poised source width) (Poised source width) (Sentence.delegateCalls source) := by
  rintro _ ⟨start, first, keyword, opening, closing, last, events, kind, rfl, hkind, hevents, hslice⟩ a b ha
    hrun
  obtain ⟨texts, warnings, harguments⟩ := argumentLists_le_delegateArguments hevents
  obtain ⟨announced, hannounced, hrest⟩ := Except.exists_of_bind hrun
  obtain ⟨opened, hopened, hrest⟩ := Except.exists_of_bind hrest
  obtain ⟨called, hcalled, -⟩ := Except.exists_of_bind hrest
  obtain ⟨d, outer, hdeclared, hheader⟩ := exists_of_delegateCall hcalled
  cases hannounced
  cases hopened
  have hcall := run_delegateCall start opening closing harguments ha.toSuits hkind
    (show false = true ∨ _ from .inr hslice) hdeclared hheader
  obtain rfl := Except.ok.inj (hrun.symm.trans hcall)
  exact ⟨ha.toCalm.beside ⟨rfl, rfl, rfl, rfl⟩, ha.ready⟩

end Takes

end Assembly

/-- An event that begins no declaration names no access level. -/
theorem Event.accessClear_of_plain {event : Event} {source : Text} (h : event.declares = false) :
    event.AccessClear source := by
  cases event <;> first | exact Access.isClear_nil | cases h

theorem Handler.Resembles.ready {L : Likeness} {top top' : Handler} (h : top.Resembles L top')
    (hready : top.Ready) : top'.Ready := by
  cases h with
  | root => trivial
  | block h => exact h.stage.symm.trans hready
  | loop h => exact h.stage.symm.trans hready
  | chain h =>
      refine ⟨h.stage ▸ hready.1, fun hnone => hready.2 ?_⟩
      exact List.forall₂_nil_right_iff.mp (hnone ▸ h.blocks)

/-! ## A stretch in braces -/

namespace Text

/-- The same text behind two other ones is shared. -/
theorem shares_of_append {x x' m y y' : Text} {bytes : Nat} (hsize : byteSize x' = byteSize x + bytes) :
    (x ++ (m ++ y)).Shares (x' ++ (m ++ y'))
      (fun n => byteSize x ≤ n ∧ n ≤ byteSize x + byteSize m) bytes := by
  have hcut {t u v w : Text} (h : t ++ u = v ++ w) (hle : byteSize t ≤ byteSize v) :
      ∃ e, v = t ++ e ∧ u = e ++ w := by
    rcases List.append_eq_append_iff.mp h with ⟨e, rfl, rfl⟩ | ⟨e, rfl, rfl⟩
    · exact ⟨e, rfl, rfl⟩
    · obtain rfl : e = [] := byteSize_eq_zero (by rw [byteSize_append] at hle; omega)
      exact ⟨[], by simp, rfl⟩
  intro start stop s hstart hstop hs
  rw [slice?] at hs
  split at hs
  · next hle =>
      obtain ⟨rest, hdrop, htake⟩ := Option.bind_eq_some_iff.mp hs
      obtain ⟨before, hbefore, rfl⟩ := exists_of_dropBytes? hdrop
      obtain ⟨after, rfl, hlength⟩ := exists_of_takeBytes? htake
      obtain ⟨inner, rfl, hinner⟩ := hcut hbefore hstart.1
      have hstop := hstop.2
      simp only [byteSize_append] at hlength hle hstop ⊢
      rw [← List.append_assoc] at hinner
      obtain ⟨later, rfl, -⟩ := hcut hinner.symm (by rw [byteSize_append]; omega)
      have hslice := slice?_append (x' ++ inner) s (later ++ y')
      rw [← show x' ++ inner ++ (s ++ (later ++ y')) = x' ++ (inner ++ s ++ later ++ y') by simp, ← hslice]
      simp only [byteSize_append]
      congr 1 <;> omega
  · cases hs

end Text

/-- A source with a stretch of it that is put in braces. -/
structure Bracing where
  options : Options
  front : Text
  stretch : Text
  back : Text

namespace Bracing

inductive Part where
  | front
  | stretch
  | back

variable (b : Bracing)

def source : Text := b.front ++ (b.stretch ++ b.back)

def braced : Text := b.front ++ '{' :: (b.stretch ++ '}' :: b.back)

/-- The places of a part in the source. -/
def range : Part → Nat → Prop
  | .front => fun n => n ≤ Text.byteSize b.front
  | .stretch => fun n => Text.byteSize b.front ≤ n ∧ n ≤ Text.byteSize b.front + Text.byteSize b.stretch
  | .back => fun n => Text.byteSize b.front + Text.byteSize b.stretch ≤ n ∧
      n ≤ Text.byteSize b.front + Text.byteSize b.stretch + Text.byteSize b.back

/-- How much further on a part stands with the braces. -/
def Part.shift : Part → Nat
  | .front => 0
  | .stretch => 1
  | .back => 2

theorem shares : ∀ part, b.source.Shares b.braced (b.range part) part.shift
  | .front => by
      have h := @Text.shares_of_append [] [] b.front (b.stretch ++ b.back) ('{' :: (b.stretch ++ '}' :: b.back)) 0 rfl
      exact fun hstart hstop hs => h ⟨Nat.zero_le _, by simpa [range] using hstart⟩
        ⟨Nat.zero_le _, by simpa [range] using hstop⟩ hs
  | .stretch => by
      have h := @Text.shares_of_append b.front (b.front ++ ['{']) b.stretch b.back ('}' :: b.back) 1
        (by rw [Text.byteSize_append]; rfl)
      rw [List.append_assoc] at h
      exact h
  | .back => by
      have h := @Text.shares_of_append (b.front ++ b.stretch) (b.front ++ '{' :: (b.stretch ++ ['}'])) b.back [] [] 2
        (by simp [show Char.utf8Size '{' = 1 from rfl, show Char.utf8Size '}' = 1 from rfl]; omega)
      simp only [List.append_nil, List.append_assoc, List.cons_append, List.nil_append, Text.byteSize_append] at h
      exact h

/-- The source beside the one with the braces, where a part of it is concerned. -/
def comparison (part : Part) : Comparison :=
  standingIn b.options b.source b.braced (b.range part) 0 part.shift

theorem sound (part : Part) : (b.comparison part).Sound := standingIn_sound b.options (b.shares part) 0

def pairing (part : Part) : Pairing (b.comparison part) := standingIn_pairing b.options (b.shares part) 0

variable {b} {part : Part} {a a' : Assembly}

/-- Which part is concerned plays a role only for the expressions that are open. -/
theorem change (h : a.Resembles (b.comparison part) a') (hnone : a.expressions = []) (other : Part) :
    a.Resembles (b.comparison other) a' :=
  { source := h.source
    source' := h.source'
    width := h.width
    width' := h.width'
    handlers := h.handlers
    expressions := by
      have hexpressions := h.expressions
      rw [hnone] at hexpressions ⊢
      rw [List.forall₂_nil_left_iff.mp hexpressions]
      exact .nil
    arguments := h.arguments.imp fun _ _ hl => ⟨hl.kind, hl.depth, hl.arguments⟩
    declarations := h.declarations.imp fun _ _ hd => ⟨hd.header, hd.modifiers, hd.documentation, hd.line,
      hd.parameters, hd.throws, hd.delegate⟩
    locals := h.locals
    types := h.types
    throwsStarts := h.throwsStarts
    comment := h.comment
    warnings := h.warnings }

/-! ## Events over the braces -/

open Assembly

/-- From assemblies of a kind that resemble each other in front of the stretch, the events lead to
assemblies that resemble each other behind it. -/
def Twin (b : Bracing) (Pre : Assembly → Prop) (events events' : List Event) : Prop :=
  ∀ a a' d, Pre a → a.Resembles (b.comparison .front) a' → a.run events = .ok d →
    Agree (Assembly.Resembles (b.comparison .back)) (.ok d) (a'.run events')

namespace Twin

variable {Pre Mid : Assembly → Prop} {L : Language Event} {events events' more more' : List Event}

theorem front (hfront : EventsResemble (b.comparison .front) events events') (hmem : events ∈ L)
    (htakes : Takes Pre Mid L) (h : b.Twin Mid more more') :
    b.Twin Pre (events ++ more) (events' ++ more') := by
  intro a a' d ha hres hrun
  obtain ⟨c, hfirst, hrest⟩ := Except.exists_of_bind ((run_append a events more).symm.trans hrun)
  have hagree := hres.run (b.sound .front) hfront
  rw [hfirst] at hagree
  generalize hother : a'.run events' = other at hagree
  rw [run_append, hother]
  cases hagree with
  | ok hmid => exact h c _ d (htakes events hmem a c ha hfirst) hmid hrest
  | right _ hnever => exact .right _ hnever

theorem behind (h : b.Twin Pre events events') (hback : EventsResemble (b.comparison .back) more more') :
    b.Twin Pre (events ++ more) (events' ++ more') := by
  intro a a' d ha hres hrun
  obtain ⟨c, hfirst, hrest⟩ := Except.exists_of_bind ((run_append a events more).symm.trans hrun)
  have hagree := h a a' c ha hres hfirst
  generalize hother : a'.run events' = other at hagree
  rw [run_append, hother]
  cases hagree with
  | ok hmid =>
      have hlast := hmid.run (b.sound .back) hback
      rwa [show c.run more = .ok d from hrest] at hlast
  | right _ hnever => exact .right _ hnever

theorem weaken (h : b.Twin Mid events events') (hPre : ∀ a, Pre a → Mid a) : b.Twin Pre events events' :=
  fun a a' d ha => h a a' d (hPre a ha)

/-- The block of a lone statement is there without the braces too. -/
theorem lone (h : EventsResemble (b.comparison .stretch) events events')
    (hmem : events ∈ Sentence.blocks b.source b.options.commentWidth) :
    b.Twin (Calm b.source b.options.commentWidth) events events' := by
  intro a a' d ha hres hrun
  have hagree := (change hres ha.expressions_eq .stretch).run (b.sound .stretch) h
  rw [hrun] at hagree
  generalize a'.run events' = other at hagree ⊢
  cases hagree with
  | ok hlast => exact .ok (change hlast (Takes.blocks _ hmem a d ha hrun).expressions_eq .back)
  | right _ hnever => exact .right _ hnever

/-- Among other statements, the block of a statement hands on what the statement adds. -/
theorem nested (h : EventsResemble (b.comparison .stretch) events events')
    (hmem : events ∈ Sentence.items b.source b.options.commentWidth)
    (hmem' : events' ∈ Sentence.items b.braced b.options.commentWidth)
    (hplain : ∀ e ∈ events', e.declares = false) (first last : Span) :
    b.Twin (Poised b.source b.options.commentWidth) events
      (.openBlock first :: (events' ++ [.closeBlock last])) := by
  intro a a' d ha hres hrun
  have hlater := Takes.items _ hmem a d ha hrun
  obtain ⟨hcalm, top, below, hhandlers, hready⟩ := ha
  obtain ⟨top', below', htop, -, hhandlers'⟩ := List.forall₂_cons_left_iff.mp (hhandlers ▸ hres.handlers)
  have hsuits : a'.Suits b.braced b.options.commentWidth :=
    ⟨hres.source', hres.width', List.forall₂_nil_left_iff.mp (hcalm.arguments_eq ▸ hres.arguments)⟩
  have hready' := htop.ready hready
  have hclear : ∀ e ∈ events', e.AccessClear b.braced := fun e he => Event.accessClear_of_plain (hplain e he)
  obtain ⟨elements, warnings, hitems⟩ := hmem' a'.comment
  obtain ⟨comment, hleads⟩ := leads_items hitems hsuits hhandlers' hready' rfl
  have hblock := run_of_leads (leads_statement (.block first last hitems) hsuits hhandlers' hready' rfl) (by
    simpa [or_imp, forall_and] using ⟨Event.accessClear_of_plain rfl, hclear, Event.accessClear_of_plain rfl⟩)
  have hagree := (change hres hcalm.expressions_eq .stretch).run (b.sound .stretch) h
  rw [hrun, run_of_leads hleads hclear] at hagree
  rw [hblock]
  cases hagree with
  | ok hlast =>
      have hres : d.Resembles (b.comparison .stretch) (a'.updated (top'.add elements :: below') warnings none) :=
        { hlast with comment := trivial }
      exact .ok (change hres hlater.expressions_eq .back)

/-- Events that make up a source lead to the same elements, but for the documentation. -/
theorem exists_run (h : b.Twin (Poised b.source b.options.commentWidth) events events')
    (hitems : events' ∈ Sentence.items b.braced b.options.commentWidth) {elements : Block} {warnings : List Warning}
    {comment : Option Text} (hrun : (start b.source b.options).run events =
      .ok ((start b.source b.options).updated [.root elements] warnings comment)) :
    ∃ others left, (start b.braced b.options).run events' =
        .ok ((start b.braced b.options).updated [.root others] warnings left) ∧
      undocumentedBlock others = undocumentedBlock elements := by
  have hagree := h _ (start b.braced b.options) _ ⟨⟨⟨rfl, rfl, rfl⟩, rfl⟩, .root [], [], rfl, trivial⟩
    (start_resembles b.options b.options (b.sound .front) rfl rfl) hrun
  obtain ⟨others, later, hothers⟩ := hitems none
  obtain ⟨left, hleads⟩ := leads_items hothers (a := start b.braced b.options) ⟨rfl, rfl, rfl⟩ rfl trivial rfl
  rcases hleads with hok | ⟨⟨levels, hconflict⟩, -⟩
  · rw [hok] at hagree
    cases hagree with
    | ok hres =>
        have hwarnings : List.Forall₂ (Warning.Resembles (b.comparison .back).toLikeness) warnings later :=
          hres.warnings
        obtain rfl := Warning.eq_map_of_resembles (f := id) (fun _ _ h => h)
          (fun m n (h : n = m + 0) => h.symm) hwarnings
        obtain ⟨htop, -⟩ := List.forall₂_cons.mp hres.handlers
        cases htop with
        | root helements =>
            refine ⟨others, left, hok.trans ?_,
              (undocumentedBlock_eq (fun _ _ h => h) (fun _ _ h => h) helements).symm⟩
            rw [show (warnings.map fun w => (⟨id w.line, w.omission⟩ : Warning)) = warnings from List.map_id' _]
            rfl
  · rw [hconflict] at hagree
    cases hagree with
    | right _ hnever => exact absurd rfl (hnever levels)

end Twin

end Bracing

end CodeFrames
