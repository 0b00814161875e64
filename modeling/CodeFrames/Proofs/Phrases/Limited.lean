import CodeFrames.Proofs.Rereading.Reference

/-!
# Readings that the nesting limits

A reading of a tree completes where the tree fits the nesting levels, and elsewhere it stops because
the nesting is too deep.  Which of the two it does is carried along as a condition, and readings in a
row need all their conditions.

A tree in front of a loop is read up to where the loop goes on, so what is said of such a tree is said
in front of whatever the loop reads next.
-/

namespace CodeFrames

open Token

namespace Reading

variable {α β : Type}

/-- Where the condition holds the reading completes with nothing to warn about, and elsewhere it stops
because the nesting is too deep. -/
structure Limited (r : Reading α) (c : Cursor) (fits : Prop) (Q : α → Cursor → Prop) : Prop where
  completes : fits → r.CompletesAt c quiets Q
  stops : ¬ fits → ∃ events line, r c = (events, .error ⟨line, .nestedTooDeep⟩)

namespace Limited

variable {r s : Reading α} {f : α → Reading β} {c d : Cursor} {p q : Prop} {Q Q' : α → Cursor → Prop}
  {R : β → Cursor → Prop}

theorem of_completes (h : r.CompletesAt c quiets Q) : r.Limited c True Q :=
  ⟨fun _ => h, fun h => (h trivial).elim⟩

theorem congr (h : r.Limited c p Q) (hp : p ↔ q) : r.Limited c q Q :=
  ⟨fun hq => h.completes (hp.mpr hq), fun hq => h.stops (mt hp.mp hq)⟩

theorem imp (h : r.Limited c p Q) (hQ : ∀ a d, Q a d → Q' a d) : r.Limited c p Q' :=
  ⟨fun hp => (h.completes hp).imp hQ, h.stops⟩

theorem of_eq (h : s.Limited d p Q) (heq : r c = s d) : r.Limited c p Q := by
  refine ⟨fun hp => ?_, fun hp => ?_⟩
  · rw [CompletesAt, heq]
    exact h.completes hp
  · rw [heq]
    exact h.stops hp

theorem bind (h : r.Limited c p Q) (hf : ∀ a d, Q a d → (f a).Limited d q R) :
    (r >>= f).Limited c (p ∧ q) R := by
  refine ⟨fun hpq => (h.completes hpq.1).quiet_bind fun a d hd => (hf a d hd).completes hpq.2,
    fun hnot => ?_⟩
  by_cases hp : p
  · obtain ⟨events, a, d, hr, -, hQ⟩ := h.completes hp
    obtain ⟨more, line, hstops⟩ := (hf a d hQ).stops fun hq => hnot ⟨hp, hq⟩
    exact ⟨events ++ more, line, by rw [bind_of_ok f hr, hstops]⟩
  · obtain ⟨events, line, hr⟩ := h.stops hp
    exact ⟨events, line, bind_of_error f hr⟩

/-- A reading that completes in front of one that is limited. -/
theorem behind (h : r.CompletesAt c quiets Q) (hf : ∀ a d, Q a d → (f a).Limited d p R) :
    (r >>= f).Limited c p R := ((of_completes h).bind hf).congr (Iff.of_eq (true_and p))

/-- A reading that is limited in front of one that completes. -/
theorem before (h : r.Limited c p Q) (hf : ∀ a d, Q a d → (f a).CompletesAt d quiets R) :
    (r >>= f).Limited c p R :=
  (h.bind fun a d hd => of_completes (hf a d hd)).congr (Iff.of_eq (and_true p))

/-- A step that reports nothing. -/
theorem step {a : α} (hr : r c = ([], .ok (a, d))) (h : (f a).Limited d p R) : (r >>= f).Limited c p R :=
  @behind _ _ r f c p (fun b e => b = a ∧ e = d) R ⟨[], a, d, hr, nil_mem_quiets, rfl, rfl⟩
    (by rintro _ _ ⟨rfl, rfl⟩; exact h)

theorem emit_bind {e : Event} {f : Unit → Reading β}
    (he : ∀ place construct, e ≠ .unsupported place construct) (h : (f ()).Limited c p R) :
    (Reading.emit e >>= f).Limited c p R :=
  @behind _ _ (Reading.emit e) f c p (fun _ d => d = c) R
    ⟨[e], (), c, rfl, (cons_mem_quiets he).mpr nil_mem_quiets, rfl⟩ (by rintro ⟨⟩ _ rfl; exact h)

theorem pure {a : α} (h : Q a c) : (Pure.pure a : Reading α).Limited c True Q :=
  of_completes (CompletesAt.pure_quiet h)

theorem ite_true {b : Prop} [Decidable b] (hb : b) (h : r.Limited c p Q) :
    (if b then r else s).Limited c p Q := by rwa [if_pos hb]

theorem ite_false {b : Prop} [Decidable b] (hb : ¬ b) (h : s.Limited c p Q) :
    (if b then r else s).Limited c p Q := by rwa [if_neg hb]

end Limited

/-! ## Trees in front of other tokens -/

/-- In front of the tokens `ps` and `rest` the reading steps over `ps`. -/
def Passes (r : Reading Unit) (ps rest : List Token) (fits : Prop) : Prop :=
  ∀ c : Cursor, c.Faces (ps ++ rest) → r.Limited c fits fun _ d => d.Faces rest

/-- A loop over the body with a budget for so many tokens. -/
def Loops (body : Reading Bool) (n : Nat) (l : Reading Unit) : Prop :=
  ∀ c : Cursor, c.ahead.length < n → ∃ budget, c.ahead.length ≤ budget.length ∧ l c = loop body budget c

/-- A loop over the body and what stands behind it in front of the tokens. -/
def ReadsOn (body : Reading Bool) (k : Reading Unit) (ps : List Token) (fits : Prop)
    (Q : Cursor → Prop) : Prop :=
  ∀ l c, Loops body ps.length l → c.Faces ps → (l >>= fun _ => k).Limited c fits fun _ => Q

/-- In front of the tokens `ps` the reading gets into a loop, which goes on in front of `rest`. -/
def Enters (r : Reading Unit) (body : Reading Bool) (k : Reading Unit) (ps rest : List Token)
    (fits : Prop) : Prop :=
  ∀ p Q, ReadsOn body k rest p Q → ∀ c : Cursor, c.Faces (ps ++ rest) →
    r.Limited c (fits ∧ p) fun _ => Q

/-- In front of the tokens `ps` the reading and the loop behind it get to where the loop goes on. -/
def Proceeds (r : Reading Unit) (body : Reading Bool) (ps rest : List Token) (fits : Prop) : Prop :=
  ∀ l k, Loops body (ps ++ rest).length l →
    Enters (r >>= fun _ => l >>= fun _ => k) body k ps rest fits

variable {r r' k l : Reading Unit} {body : Reading Bool} {ps qs rest : List Token} {t first : Token}
  {p q : Prop} {Q : Cursor → Prop}

theorem loops_repeatWhile (n : Nat) : Loops body n (repeatWhile body) :=
  fun c _ => ⟨c.ahead, Nat.le_refl _, rfl⟩

theorem Loops.mono {m n : Nat} (h : Loops body n l) (hle : m ≤ n) : Loops body m l :=
  fun c hc => h c (Nat.lt_of_lt_of_le hc hle)

theorem ReadsOn.repeatWhile {c : Cursor} (h : ReadsOn body k ps p Q) (hc : c.Faces ps) :
    (Reading.repeatWhile body >>= fun _ => k).Limited c p fun _ => Q :=
  h _ c (loops_repeatWhile _) hc

theorem bind_eq {f : α → Reading β} {r s : Reading α} {c d : Cursor} (h : r c = s d) :
    (r >>= f) c = (s >>= f) d := by
  change Reading.bind r f c = Reading.bind s f d
  simp only [Reading.bind, h]

/-- The loop ends at the first token. -/
theorem ReadsOn.stop (hbody : ∀ c : Cursor, c.Faces (t :: rest) → body c = ([], .ok (false, c)))
    (h : ∀ c : Cursor, c.Faces (t :: rest) → k.Limited c p fun _ => Q) :
    ReadsOn body k (t :: rest) p Q := by
  intro l c hl hc
  have hlength := hc.length_ahead
  obtain ⟨budget, -, hrun⟩ := hl c (by omega)
  exact .step (hrun.trans (loop_of_false (hbody c hc) budget)) (h c hc)

/-- A round of the loop steps over some tokens, the first of them before all else. -/
theorem ReadsOn.round
    (hbody : ∀ c : Cursor, c.Faces (t :: ps) → body c = (r >>= fun _ => pure true : Reading Bool) c.advance)
    (hps : ps ≠ [])
    (h : ∀ l c, Loops body ps.length l → c.Faces ps →
      (r >>= fun _ => l >>= fun _ => k).Limited c p fun _ => Q) :
    ReadsOn body k (t :: ps) p Q := by
  intro l c hl hc
  have hlength : c.ahead.length + 1 = ps.length + 1 := hc.length_ahead
  obtain ⟨budget, hbudget, hrun⟩ := hl c (by simp; omega)
  have hpos := List.length_pos_iff.mpr hps
  obtain ⟨u, budget, rfl⟩ : ∃ u more, budget = u :: more :=
    List.exists_cons_of_length_pos (by omega)
  have hless : Loops body ps.length (loop body budget) := fun d hd => by
    refine ⟨budget, ?_, rfl⟩
    simp only [List.length_cons] at hbudget
    omega
  refine Limited.of_eq (h _ c.advance hless (hc.advance hps)) ?_
  have hloop : loop body (u :: budget) c = (r >>= fun _ => loop body budget) c.advance := by
    rw [loop, bind_eq (hbody c hc), bind_assoc]
    simp only [pure_bind, if_true]
  rw [bind_eq (hrun.trans hloop), bind_assoc]

/-- A round that ends the loop. -/
theorem ReadsOn.last {R : Cursor → Prop}
    (hbody : ∀ c : Cursor, c.Faces ps → body.Limited c p fun again d => again = false ∧ R d)
    (h : ∀ d, R d → k.Limited d q fun _ => Q) : ReadsOn body k ps (p ∧ q) Q := by
  intro l c hl hc
  have hlength := hc.length_ahead
  obtain ⟨budget, -, hrun⟩ := hl c (by omega)
  have hend : (loop body budget).Limited c p fun _ d => R d := by
    cases budget with
    | nil => exact (hbody c hc).before fun again d hd => CompletesAt.pure_quiet hd.2
    | cons u budget =>
        refine (hbody c hc).before fun again d hd => ?_
        rw [hd.1]
        exact CompletesAt.pure_quiet hd.2
  exact (hend.of_eq hrun).bind fun _ d hd => h d hd

/-- A round in front of others. -/
theorem ReadsOn.more
    (hbody : ∀ c : Cursor, c.Faces ps → body.Limited c p fun again d => again = true ∧ d.Faces qs)
    (hless : qs.length < ps.length) (hqs : qs ≠ []) (h : ReadsOn body k qs q Q) :
    ReadsOn body k ps (p ∧ q) Q := by
  intro l c hl hc
  have hlength := hc.length_ahead
  have hpos := List.length_pos_iff.mpr hqs
  obtain ⟨budget, hbudget, hrun⟩ := hl c (by omega)
  obtain ⟨u, budget, rfl⟩ : ∃ u more, budget = u :: more :=
    List.exists_cons_of_length_pos (by omega)
  simp only [List.length_cons] at hbudget
  have hrest : Loops body qs.length (loop body budget) := fun d hd => ⟨budget, by omega, rfl⟩
  have hround : (body >>= fun again => if again then loop body budget >>= fun _ => k else k).Limited c
      (p ∧ q) fun _ => Q := by
    refine (hbody c hc).bind fun again d hd => ?_
    rw [hd.1, if_pos rfl]
    exact h _ d hrest hd.2
  refine hround.of_eq ?_
  rw [bind_eq hrun, loop, bind_assoc]
  refine congrFun (congrArg (body >>= ·) (funext fun again => ?_)) c
  cases again <;> simp

theorem Passes.bind {s : Reading Unit} (h : Passes r ps (qs ++ rest) p) (hs : Passes s qs rest q) :
    Passes (r >>= fun _ => s) (ps ++ qs) rest (p ∧ q) :=
  fun c hc => (h c (by simpa using hc)).bind fun _ d hd => hs d hd

theorem Proceeds.of_passes (h : Passes r ps rest p) : Proceeds r body ps rest p :=
  fun l _ hl _ _ hk c hc => (h c hc).bind fun _ d hd =>
    hk l d (hl.mono (by simp)) hd

/-- A round behind what has been read. -/
theorem Enters.join {s : Reading Unit} (h : Enters s body k ps (t :: (qs ++ rest)) p)
    (hbody : ∀ c : Cursor, c.Faces (t :: (qs ++ rest)) →
      body c = (r >>= fun _ => pure true : Reading Bool) c.advance)
    (hrest : rest ≠ []) (hround : Proceeds r body qs rest q) :
    Enters s body k (ps ++ t :: qs) rest (p ∧ q) := by
  intro p' Q hk c hc
  have hmore : ReadsOn body k (t :: (qs ++ rest)) (q ∧ p') Q :=
    .round hbody (by simp [hrest]) fun l c hl hc => hround l k hl p' Q hk c hc
  exact (h _ _ hmore c (by simpa using hc)).congr and_assoc.symm

theorem Proceeds.join (h : Proceeds r body ps (t :: (qs ++ rest)) p)
    (hbody : ∀ c : Cursor, c.Faces (t :: (qs ++ rest)) →
      body c = (r' >>= fun _ => pure true : Reading Bool) c.advance)
    (hrest : rest ≠ []) (hround : Proceeds r' body qs rest q) : Proceeds r body (ps ++ t :: qs) rest (p ∧ q) :=
  fun l k hl => Enters.join (h l k (by simpa using hl)) hbody hrest hround

/-- The loop ends behind what has been read. -/
theorem Proceeds.passes (h : Proceeds r body ps (t :: rest) p)
    (hbody : ∀ c : Cursor, c.Faces (t :: rest) → body c = ([], .ok (false, c))) :
    Passes (r >>= fun _ => repeatWhile body) ps (t :: rest) p := by
  intro c hc
  have hstop : ReadsOn body (pure ()) (t :: rest) True (·.Faces (t :: rest)) :=
    .stop hbody fun d hd => .pure hd
  have hall := (h _ _ (loops_repeatWhile _) _ _ hstop c hc).congr (Iff.of_eq (and_true p))
  refine hall.of_eq (congrFun (congrArg (r >>= ·) (funext fun _ => ?_)) c)
  exact (bind_pure_unit (x := repeatWhile body)).symm

end Reading

end CodeFrames
