import CodeFrames.Proofs.Layers
import Mathlib.Data.List.Induction

/-!
# Bodies and their declarations

The bodies among the handlers belong to the open declarations, the innermost to the innermost: the same
event put both on their stacks, and both have been there since.  So a declaration that ends has collected
its statements in its own body.
-/

namespace CodeFrames

open Handler

namespace Assembly

variable {a b : Assembly}

/-! ## Since when a body is open -/

/-- One of the events began the declaration `d`, on top of the declarations `outer`, and put its body on
top of the handlers `below`; both have been there ever since, at the same place among their kind. -/
def OpenedTogether (origin : Assembly) (events : List Event) (below : List Handler) (d : Declaration)
    (outer : List Declaration) : Prop :=
  ∃ before opening life a, events = before ++ opening :: life ∧ origin.run before = .ok a ∧
    a.handlers = below ∧ a.begun = outer ∧ a.begins? opening = some d ∧
    ∀ passed, passed <+: life → ∃ b above h inner,
      origin.run (before ++ opening :: passed) = .ok b ∧ b.handlers = above ++ h :: below ∧
      h.isBody = true ∧ b.begun = inner ++ d :: outer ∧ above.countP isBody = inner.length

variable {origin : Assembly} {events : List Event} {event : Event} {below above : List Handler}
  {h : Handler} {d : Declaration} {inner outer : List Declaration}

/-- What was opened together and is still there after one more event. -/
theorem OpenedTogether.concat (hopened : OpenedTogether origin events below d outer)
    (hrun : origin.run (events ++ [event]) = .ok b) (hb : b.handlers = above ++ h :: below)
    (hbody : h.isBody = true) (hbegun : b.begun = inner ++ d :: outer)
    (hcount : above.countP isBody = inner.length) :
    OpenedTogether origin (events ++ [event]) below d outer := by
  obtain ⟨before, opening, life, a, rfl, hbefore, hbelow, houter, hbegins, hlife⟩ := hopened
  refine ⟨before, opening, life ++ [event], a, by simp, hbefore, hbelow, houter, hbegins, ?_⟩
  intro passed hpassed
  rcases List.prefix_concat_iff.mp hpassed with rfl | hpassed
  · exact ⟨b, above, h, inner, by simpa using hrun, hb, hbody, hbegun, hcount⟩
  · exact hlife passed hpassed

/-- A body behind an event and the declaration that it belongs to were there in front of it, unless the
event begins them. -/
theorem exists_of_moves (hmoves : Moves a b event) (hb : b.handlers = above ++ h :: below)
    (hbody : h.isBody = true) (hbegun : b.begun = inner ++ d :: outer)
    (hcount : above.countP isBody = inner.length) :
    (∃ above' h' inner', a.handlers = above' ++ h' :: below ∧ h'.isBody = true ∧
      a.begun = inner' ++ d :: outer ∧ above'.countP isBody = inner'.length) ∨
    (a.handlers = below ∧ a.begun = outer ∧ a.begins? event = some d) := by
  -- Only the beginning and the end of a declaration change how many bodies there are, and with them how
  -- many declarations; everywhere else the place among the bodies is the same.
  cases hmoves with
  | received hsame _ hreceives =>
      obtain ⟨above', h', ha, hkind, hcount', -⟩ := (hb ▸ hreceives).exists_of_append
      exact .inl ⟨above', h', inner, ha, hkind.trans hbody, hsame.symm.trans hbegun,
        hcount'.trans hcount⟩
  | turned hsame ha hturned hturns _ =>
      obtain ⟨above', h', ha', hkind, hcount', -⟩ :=
        exists_of_retop hturns.kind.2 (hturned.symm.trans hb)
      exact .inl ⟨above', h', inner, ha.trans ha', hkind.trans hbody, hsame.symm.trans hbegun,
        hcount'.trans hcount⟩
  | pushed hsame hnew hpushed =>
      cases above with
      | nil =>
          obtain ⟨rfl, -⟩ := List.cons.inj (hpushed.symm.trans hb)
          simp [hnew.isBody] at hbody
      | cons top above =>
          obtain ⟨rfl, ha⟩ := List.cons.inj (hpushed.symm.trans hb)
          rw [List.countP_cons_of_neg (by simp [hnew.isBody])] at hcount
          exact .inl ⟨above, h, inner, ha, hbody, hsame.symm.trans hbegun, hcount⟩
  | @popped top rest hsame ha _ hnot hreceives =>
      obtain ⟨above', h', hrest, hkind, hcount', -⟩ := (hb ▸ hreceives).exists_of_append
      refine .inl ⟨top :: above', h', inner, by rw [ha, hrest]; rfl, hkind.trans hbody,
        hsame.symm.trans hbegun, ?_⟩
      rw [List.countP_cons_of_neg (by simp [hnot]), hcount', hcount]
  | began hbegins hnew hbegan =>
      cases above with
      | nil =>
          obtain ⟨rfl, rfl⟩ := List.cons.inj (hbegan.symm.trans hb)
          obtain rfl : inner = [] := by simpa using hcount.symm
          obtain ⟨rfl, rfl⟩ := List.cons.inj (hnew.symm.trans hbegun)
          exact .inr ⟨rfl, rfl, hbegins⟩
      | cons top above =>
          obtain ⟨rfl, ha⟩ := List.cons.inj (hbegan.symm.trans hb)
          rw [List.countP_cons_of_pos rfl] at hcount
          have hinner : inner ≠ [] := by
            rintro rfl
            simp at hcount
          obtain ⟨first, inner, rfl⟩ := List.exists_cons_of_ne_nil hinner
          obtain ⟨-, ha'⟩ := List.cons.inj (hnew.symm.trans hbegun)
          exact .inl ⟨above, h, inner, ha, hbody, ha', by simpa using hcount⟩
  | @ended body rest ended hends ha hisBody hreceives =>
      obtain ⟨above', h', hrest, hkind, hcount', -⟩ := (hb ▸ hreceives).exists_of_append
      refine .inl ⟨.block body :: above', h', ended :: inner, by rw [ha, hrest]; rfl,
        hkind.trans hbody, by rw [hends, hbegun]; rfl, ?_⟩
      rw [List.countP_cons_of_pos (show (Handler.block body).isBody = true from hisBody), hcount', hcount,
        List.length_cons]

theorem openedTogether_of_run (horigin : origin.handlers.countP isBody = 0)
    (hrun : origin.run events = .ok a) (ha : a.handlers = above ++ h :: below)
    (hbody : h.isBody = true) (hbegun : a.begun = inner ++ d :: outer)
    (hcount : above.countP isBody = inner.length) :
    OpenedTogether origin events below d outer := by
  -- The place among the bodies is carried along, so that the origin found is that of the same declaration.
  induction events using List.reverseRecOn generalizing a above h inner with
  | nil =>
      cases hrun
      rw [ha, List.countP_append, List.countP_cons_of_pos hbody] at horigin
      omega
  | append_singleton events event ih =>
      obtain ⟨c, hearlier, hstep⟩ := exists_of_run_concat hrun
      obtain ⟨above', h', inner', hc, hbody', hbegun', hcount'⟩ | ⟨hbelow, houter, hbegins⟩ :=
        exists_of_moves (moves_step hstep) ha hbody hbegun hcount
      · exact (ih hearlier hc hbody' hbegun' hcount').concat hrun ha hbody hbegun hcount
      · refine ⟨events, event, [], c, rfl, hearlier, hbelow, houter, hbegins, ?_⟩
        intro passed hpassed
        rw [List.prefix_nil.mp hpassed]
        exact ⟨a, above, h, inner, hrun, ha, hbody, hbegun, hcount⟩

/-! ## Every run -/

/-- The events of `A(){{int f(){break;}}}` up to the first of the three braces at the end. -/
def nestedEvents : List Event :=
  [.openConstructor ⟨1, 0, 1⟩ [] ⟨1, 0, 1⟩, .openBlock ⟨1, 3, 4⟩, .openBlock ⟨1, 4, 5⟩,
    .typeName ⟨1, 5, 8⟩ ⟨1, 5, 8⟩, .openMethod ⟨1, 5, 8⟩ [] ⟨1, 9, 10⟩, .openBlock ⟨1, 12, 13⟩,
    .jumped .breakLoop ⟨1, 13, 18⟩ none, .closeBlock ⟨1, 19, 20⟩]

end Assembly

end CodeFrames
