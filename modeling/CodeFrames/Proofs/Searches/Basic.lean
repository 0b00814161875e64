import CodeFrames.Proofs.Walk
import CodeFrames.Reading.Skip

/-!
# Searches for groups

`Reading.skipGroup` steps to the end of the first group ahead, whether or not a bracket opens at the
cursor.  A searching is a reading that keeps, in the place of its events, where it does so and what
for.  Dropping the searches leaves the result of the reading.
-/

namespace CodeFrames

/-! ## Searches -/

/-- What a group is searched for as. -/
inductive GroupRole where
  /-- Its opening bracket has been seen at the cursor. -/
  | seen
  /-- The head of a statement or of a handler, behind its word. -/
  | head
  /-- The block of a statement or of a handler, behind its word or its head. -/
  | block
  deriving DecidableEq, Repr

structure Search where
  role : GroupRole
  start : Cursor
  deriving DecidableEq, Repr

/-- A reading with the searches that it makes, also those before a fault, and no events. -/
def Searching (α : Type) : Type := Cursor → List Search × Except SourceError (α × Cursor)

namespace Searching

variable {α β : Type}

protected def pure (a : α) : Searching α := fun c => ([], .ok (a, c))

protected def bind (s : Searching α) (f : α → Searching β) : Searching β := fun c =>
  match s c with
  | (searches, .error e) => (searches, .error e)
  | (searches, .ok (a, c)) =>
      let (more, result) := f a c
      (searches ++ more, result)

instance : Monad Searching where
  pure := Searching.pure
  bind := Searching.bind

/-- A reading that searches for no group. -/
instance : MonadLift Reading Searching where
  monadLift r := fun c => ([], (r c).2)

/-- The group that starts at the cursor, if one does. -/
def group (role : GroupRole) : Searching Unit := fun c => ([⟨role, c⟩], (Reading.skipGroup c).2)

def loop (body : Searching Bool) : List Token → Searching Unit
  | [] => do let _ ← body
  | _ :: budget => do if ← body then loop body budget

def repeatWhile (body : Searching Bool) : Searching Unit := fun c => loop body c.ahead c

section Bind

variable {s : Searching α} {f : α → Searching β} {c d : Cursor} {searches : List Search}

theorem bind_of_error (f : α → Searching β) {e : SourceError} (h : s c = (searches, .error e)) :
    (s >>= f) c = (searches, .error e) := by
  change Searching.bind s f c = _
  simp only [Searching.bind, h]

theorem bind_of_ok (f : α → Searching β) {a : α} (h : s c = (searches, .ok (a, d))) :
    (s >>= f) c = (searches ++ (f a d).1, (f a d).2) := by
  change Searching.bind s f c = _
  simp only [Searching.bind, h]

theorem exists_of_bind_ok {b : β} (h : (s >>= f) c = (searches, .ok (b, d))) :
    ∃ first a e more, s c = (first, .ok (a, e)) ∧ f a e = (more, .ok (b, d)) ∧
      searches = first ++ more := by
  cases hs : s c with
  | mk first result =>
      rcases result with error | ⟨a, e⟩
      · simp [bind_of_error f hs] at h
      · rw [bind_of_ok f hs, Prod.mk.injEq] at h
        exact ⟨first, a, e, (f a e).1, rfl, Prod.ext rfl h.2, h.1.symm⟩

end Bind

/-! ## Dropping the searches -/

/-- The searching comes to the result of the reading. -/
def Follows (s : Searching α) (r : Reading α) : Prop := ∀ c, (s c).2 = (r c).2

namespace Follows

variable {s t : Searching α} {r q : Reading α} {f : α → Searching β} {g : α → Reading β}

theorem pure (a : α) : (Pure.pure a : Searching α).Follows (Pure.pure a) := fun _ => rfl

theorem lift (r : Reading α) : (liftM r : Searching α).Follows r := fun _ => rfl

theorem group (role : GroupRole) : (Searching.group role).Follows Reading.skipGroup := fun _ => rfl

theorem bind (h : s.Follows r) (hf : ∀ a, (f a).Follows (g a)) : (s >>= f).Follows (r >>= g) := by
  intro c
  have hresult := h c
  cases hr : r c with
  | mk events result =>
      cases hs : s c with
      | mk searches result' =>
          obtain rfl : result' = result := by simpa only [hr, hs] using hresult
          rcases result' with e | ⟨a, d⟩
          · rw [bind_of_error f hs, Reading.bind_of_error g hr]
          · rw [bind_of_ok f hs, Reading.bind_of_ok g hr]
            exact hf a d

theorem lift_bind (r : Reading α) (hf : ∀ a, (f a).Follows (g a)) :
    ((liftM r : Searching α) >>= f).Follows (r >>= g) := (lift r).bind hf

/-- A searching that is done with a group or a token behind it. -/
theorem done (h : s.Follows r) (b : β) :
    (s >>= fun _ => Pure.pure b).Follows (r >>= fun _ => Pure.pure b) := h.bind fun _ => pure b

theorem ite {p : Prop} [Decidable p] (h : s.Follows r) (h' : t.Follows q) :
    (if p then s else t).Follows (if p then r else q) := by
  split
  · exact h
  · exact h'

theorem rounds {body : Searching Bool} {body' : Reading Bool} (h : body.Follows body') :
    (repeatWhile body).Follows (Reading.repeatWhile body') := by
  have hloop (budget : List Token) : (loop body budget).Follows (Reading.loop body' budget) := by
    induction budget with
    | nil => exact h.done ()
    | cons t budget ih => exact h.bind fun _ => ite ih (pure ())
  exact fun c => hloop c.ahead c

end Follows

theorem Follows.run {s : Searching α} {r : Reading α} {c d : Cursor} {searches : List Search} {a : α}
    (h : s.Follows r) (hrun : s c = (searches, .ok (a, d))) : ∃ events, r c = (events, .ok (a, d)) :=
  ⟨(r c).1, Prod.ext rfl ((h c).symm.trans (congrArg Prod.snd hrun))⟩

/-! ## What is known of the searches -/

/-- A search in a run from the cursor with such a result: it starts at or behind the cursor, at an opening
bracket if that is said to have been seen, and ends the run if there is no group to be found. -/
structure SoundSearch (c : Cursor) (result : Except SourceError (α × Cursor)) (q : Search) : Prop where
  reaches : c.Reaches q.start
  opens : q.role = .seen → q.start.here.kind.isOpener = true
  stops : ∀ e, (Reading.skipGroup q.start).2 = .error e → result = .error e

/-- The run from the cursor goes forward, and its searches are sound. -/
structure SoundAt (s : Searching α) (c : Cursor) : Prop where
  reaches : ∀ a d, (s c).2 = .ok (a, d) → c.Reaches d
  searches : ∀ q ∈ (s c).1, SoundSearch c (s c).2 q

/-- From every cursor in the source. -/
def Sound (source : Text) (s : Searching α) : Prop := ∀ c : Cursor, c.Sited source → s.SoundAt c

namespace SoundAt

variable {source : Text} {s t : Searching α} {f : α → Searching β} {c : Cursor}

theorem pure (a : α) : (Pure.pure a : Searching α).SoundAt c where
  reaches := by
    rintro b d ⟨⟩
    exact .refl c
  searches := nofun

theorem lift {r : Reading α} (h : r.Walks) : (liftM r : Searching α).SoundAt c where
  reaches a d hresult := by
    obtain ⟨trace, hwalk, -⟩ := h c
    exact hwalk.reaches a d hresult
  searches := nofun

theorem group {role : GroupRole} (h : role = .seen → c.here.kind.isOpener = true) :
    (Searching.group role).SoundAt c where
  reaches a d hresult := by
    obtain ⟨trace, hwalk, -⟩ := Reading.rules_walks.skipGroup c
    exact hwalk.reaches a d hresult
  searches q hq := by
    obtain rfl := List.mem_singleton.mp hq
    exact ⟨.refl c, h, fun e => id⟩

/-- What follows is asked about where the run gets to. -/
theorem bind (h : s.SoundAt c)
    (hf : ∀ a d, (s c).2 = .ok (a, d) → c.Reaches d → (f a).SoundAt d) : (s >>= f).SoundAt c := by
  cases hs : s c with
  | mk searches result =>
      rcases result with e | ⟨a, d⟩
      · have hrun := bind_of_error f hs
        refine ⟨fun b d hresult => ?_, fun q hq => ?_⟩
        · rw [hrun] at hresult
          cases hresult
        · rw [hrun] at hq ⊢
          obtain ⟨hreaches, hopens, hstops⟩ := h.searches q (by rwa [hs])
          exact ⟨hreaches, hopens, fun e' he => by simpa [hs] using hstops e' he⟩
      · have hrun := bind_of_ok f hs
        have hreaches := h.reaches a d (by rw [hs])
        have hnext := hf a d (by rw [hs]) hreaches
        refine ⟨fun b e hresult => ?_, fun q hq => ?_⟩
        · rw [hrun] at hresult
          exact hreaches.trans (hnext.reaches b e hresult)
        · rw [hrun] at hq ⊢
          rcases List.mem_append.mp hq with hq | hq
          · -- a search without a group would have ended the first part
            obtain ⟨hstart, hopens, hstops⟩ := h.searches q (by rwa [hs])
            exact ⟨hstart, hopens, fun e he => by simpa [hs] using hstops e he⟩
          · obtain ⟨hstart, hopens, hstops⟩ := hnext.searches q hq
            exact ⟨hreaches.trans hstart, hopens, hstops⟩

theorem lift_bind {r : Reading α} (h : r.Walks)
    (hf : ∀ a d, (r c).2 = .ok (a, d) → c.Reaches d → (f a).SoundAt d) :
    ((liftM r : Searching α) >>= f).SoundAt c := (lift h).bind hf

theorem here_bind {f : Token → Searching β} (h : (f c.here).SoundAt c) :
    ((liftM Reading.here : Searching Token) >>= f).SoundAt c :=
  lift_bind .here fun a d hresult _ => by
    cases hresult
    exact h

theorem cursor_bind {f : Cursor → Searching β} (h : (f c).SoundAt c) :
    ((liftM Reading.cursor : Searching Cursor) >>= f).SoundAt c :=
  lift_bind .cursor fun a d hresult _ => by
    cases hresult
    exact h

theorem ite {p : Prop} [Decidable p] (h : p → s.SoundAt c) (h' : ¬ p → t.SoundAt c) :
    (if p then s else t).SoundAt c := by
  split
  · exact h ‹_›
  · exact h' ‹_›

end SoundAt

namespace Sound

variable {source : Text} {s : Searching α} {f : α → Searching β}

theorem pure (a : α) : (Pure.pure a : Searching α).Sound source := fun _ _ => .pure a

theorem lift {r : Reading α} (h : r.Walks) : (liftM r : Searching α).Sound source :=
  fun _ _ => .lift h

theorem group {role : GroupRole} (h : role ≠ .seen) : (Searching.group role).Sound source :=
  fun _ _ => .group fun hrole => absurd hrole h

theorem bind (h : s.Sound source) (hf : ∀ a, (f a).Sound source) : (s >>= f).Sound source :=
  fun c hc => (h c hc).bind fun a d _ hreaches => hf a d (hreaches.sited hc).1

theorem done (h : s.Sound source) (b : β) : (s >>= fun _ => Pure.pure b).Sound source :=
  h.bind fun _ => pure b

theorem ite {p : Prop} [Decidable p] {t : Searching α} (h : s.Sound source) (h' : t.Sound source) :
    (if p then s else t).Sound source := fun c hc => .ite (fun _ => h c hc) fun _ => h' c hc

theorem rounds {body : Searching Bool} (h : body.Sound source) : (repeatWhile body).Sound source := by
  have hloop (budget : List Token) : (loop body budget).Sound source := by
    induction budget with
    | nil => exact h.done ()
    | cons t budget ih => exact h.bind fun _ => ite ih (pure ())
  exact fun c hc => ⟨(hloop c.ahead c hc).reaches, (hloop c.ahead c hc).searches⟩

end Sound

end Searching

end CodeFrames
