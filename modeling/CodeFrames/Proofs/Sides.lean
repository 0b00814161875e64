import CodeFrames.Proofs.TypeTests

/-!
# The sides of an assignment among the pieces of a text

Where a statement is split into target and value is told by brackets and assignment operators, and the
two sides are split into the tokens on either side of the sign.
-/

namespace CodeFrames

open Text

namespace Token

/-- How a token changes the number of open brackets. -/
def nesting (t : Token) : Int :=
  if t.kind.isOpener then 1 else if t.kind.isCloser then -1 else 0

theorem topLevelAssignment?_cons (depth : Int) (t : Token) (ts : List Token) :
    ExpressionText.topLevelAssignment? depth (t :: ts) =
      if t.isOperator ['='] && depth = 0 then some t
      else ExpressionText.topLevelAssignment? (depth + t.nesting) ts := by
  have hoperator : t.isOperator ['='] = true → t.kind = .operator := fun h => by
    simp only [isOperator, Bool.and_eq_true, decide_eq_true_eq] at h
    exact h.1
  rw [ExpressionText.topLevelAssignment?]
  by_cases hopener : t.kind.isOpener = true
  · have hsign : t.isOperator ['='] = false := Bool.eq_false_iff.mpr fun h => by
      simp [hoperator h, Kind.isOpener] at hopener
    simp [hopener, hsign, nesting]
  · by_cases hcloser : t.kind.isCloser = true
    · have hsign : t.isOperator ['='] = false := Bool.eq_false_iff.mpr fun h => by
        simp [hoperator h, Kind.isCloser] at hcloser
      simp [hopener, hcloser, hsign, nesting]
      rfl
    · simp [hopener, hcloser, nesting]

/-- The pieces on either side of the first assignment operator outside all brackets. -/
def sides : Int → List Token → Option (List Token × List Token)
  | _, [] => none
  | depth, t :: ts =>
      if t.isOperator ['='] && depth = 0 then some ([], ts)
      else (sides (depth + t.nesting) ts).map fun x => (t :: x.1, x.2)

theorem sides_eq {depth : Int} {ps left right : List Token} (h : sides depth ps = some (left, right)) :
    ∃ sign, sign.isOperator ['='] = true ∧ ps = left ++ sign :: right := by
  induction ps generalizing depth left with
  | nil => cases h
  | cons t ts ih =>
      rw [sides] at h
      split at h
      · next hsign =>
          obtain ⟨rfl, rfl⟩ := by simpa using h
          exact ⟨t, (Bool.and_eq_true _ _ ▸ hsign).1, rfl⟩
      · obtain ⟨⟨left', right'⟩, hsides, heq⟩ := Option.map_eq_some_iff.mp h
        obtain ⟨rfl, rfl⟩ := by simpa using heq
        obtain ⟨sign, hsign, rfl⟩ := ih hsides
        exact ⟨sign, hsign, rfl⟩

/-- Comments do not count. -/
theorem sides_code (depth : Int) (ps : List Token) :
    sides depth (code ps) = (sides depth ps).map fun x => (code x.1, code x.2) := by
  induction ps generalizing depth with
  | nil => rfl
  | cons p ps ih =>
      by_cases hp : p.kind = .comment
      · have hskip : sides depth (p :: ps) = (sides depth ps).map fun x => (p :: x.1, x.2) := by
          simp [sides, isOperator, nesting, hp, Kind.isOpener, Kind.isCloser]
        rw [code_comment hp, ih, hskip, Option.map_map]
        exact congrArg (Option.map · _) (funext fun x => by simp [code_comment hp])
      · rw [code_cons hp, sides, sides, ih]
        split
        · rfl
        · rw [Option.map_map, Option.map_map]
          exact congrArg (Option.map · _) (funext fun x => by simp [code_cons hp])

theorem sides_outline (depth : Int) (ps : List Token) :
    (sides depth (outline ps)).isSome = (sides depth ps).isSome := by
  induction ps generalizing depth with
  | nil => rfl
  | cons p ps ih =>
      by_cases hp : p.isOutline = true
      · rw [show outline (p :: ps) = p :: outline ps by simp [outline, hp], sides, sides]
        split
        · rfl
        · rw [Option.isSome_map, Option.isSome_map, ih]
      · have hp : p.isOutline = false := Bool.eq_false_iff.mpr hp
        rw [outline_cons_skip hp, ih]
        simp only [isOutline, Bool.or_eq_false_iff] at hp
        simp [sides, nesting, hp]

theorem outline_code (ps : List Token) : outline (code ps) = outline ps := by
  rw [outline, outline, code, List.filter_filter]
  refine List.filter_congr fun p _ => ?_
  by_cases hp : p.kind = .comment
  · simp [isOutline, isOperator, hp, Kind.isOpener, Kind.isCloser]
  · simp [hp]

theorem Placed.topLevelAssignment? {n : Nat} {ps ts : List Token} (h : Placed n ps ts) (depth : Int) :
    Option.Rel (fun sign x => sign.start = n + byteSize (spelled x.1) ∧
        sign.stop = sign.start + 1)
      (ExpressionText.topLevelAssignment? depth ts) (sides depth ps) := by
  induction h generalizing depth with
  | @nil n t ht =>
      have hkind := congrArg Token.kind ht
      simp only [bare_kind] at hkind
      have hsign : t.isOperator ['='] = false := by simp [isOperator, hkind, symbol]
      rw [topLevelAssignment?_cons, hsign]
      exact .none
  | @blank n c ps ts _ _ ih =>
      have hskip : sides depth (symbol .comment [c] :: ps) =
          (sides depth ps).map fun x => (symbol .comment [c] :: x.1, x.2) := by
        simp [sides, isOperator, nesting, symbol, Kind.isOpener, Kind.isCloser]
      rw [hskip]
      generalize ExpressionText.topLevelAssignment? depth ts = s, sides depth ps = x,
        ih depth = hrel at *
      cases hrel with
      | none => exact .none
      | some hplace => exact .some ⟨by simp [hplace.1, symbol, Nat.add_assoc], hplace.2⟩
  | @token n t ps ts hend hstart hstop _ ih =>
      rw [topLevelAssignment?_cons, sides]
      change Option.Rel _ _ (if t.isOperator ['='] && depth = 0 then _ else
        (sides (depth + t.nesting) ps).map _)
      split
      · next hsign =>
          refine .some ⟨by simpa using hstart, ?_⟩
          have htext : t.text = ['='] := by
            simp only [isOperator, Bool.and_eq_true, decide_eq_true_eq] at hsign
            exact hsign.1.2
          rw [hstop, hstart, htext]
          rfl
      · generalize ExpressionText.topLevelAssignment? (depth + t.nesting) ts = s,
          sides (depth + t.nesting) ps = x, ih (depth + t.nesting) = hrel at *
        cases hrel with
        | none => exact .none
        | some hplace => exact .some ⟨by simp [hplace.1, hstop, Nat.add_assoc], hplace.2⟩

theorem Pieced.assignmentSides?_eq {ps : List Token} (h : Pieced [] ps) :
    assignmentSides? (spelled ps) = (sides 0 ps).bind fun x =>
      if (trim (spelled x.1)).isEmpty then none else some (trim (spelled x.1), trim (spelled x.2)) := by
  obtain ⟨ts, hts, hplaced⟩ := h.lex
  have hrel := hplaced.topLevelAssignment? 0
  rw [assignmentSides?, hts]
  dsimp only
  generalize hs : ExpressionText.topLevelAssignment? 0 ts = s, hx : sides 0 ps = x at hrel
  cases hrel with
  | none => rfl
  | @some sign x hplace =>
      obtain ⟨left, right⟩ := x
      obtain ⟨equals, hequals, rfl⟩ := sides_eq hx
      have htext : equals.text = ['='] := by
        simp only [isOperator, Bool.and_eq_true, decide_eq_true_eq] at hequals
        exact hequals.2
      have hstart : sign.start = byteSize (spelled left) := by simpa using hplace.1
      have hstop : sign.stop = byteSize (spelled left ++ ['=']) := by
        rw [hplace.2, hstart, byteSize_append]
        rfl
      have hspelled : spelled (left ++ equals :: right) = spelled left ++ ['='] ++ spelled right := by
        simp [htext]
      simp only [Option.bind_some]
      rw [hstop, hspelled, dropBytes?_append, hstart, List.append_assoc, takeBytes?_append]
      rfl

theorem trim_ne_nil {c : Char} (hc : ¬ isBlank c = true) (t : Text) : trim (c :: t) ≠ [] := by
  intro h
  rw [trim, trimStart, List.dropWhile_cons_of_neg hc, trimEnd, trimStart, List.reverse_eq_nil_iff,
    List.dropWhile_eq_nil_iff] at h
  exact hc (h c (by simp))

/-- Whether a text has two sides is told by its outline and by the token at its start. -/
theorem Pieced.isSome_assignmentSides? {ps : List Token} (h : Pieced [] ps) (hstarts : StartsInCode ps) :
    (assignmentSides? (spelled ps)).isSome =
      ((sides 0 (outline ps)).isSome && !ps.head?.any (·.isOperator ['='])) := by
  rw [h.assignmentSides?_eq, sides_outline]
  cases ps with
  | nil => rfl
  | cons p ps =>
      by_cases hp : p.isOperator ['='] = true
      · have hfirst : sides 0 (p :: ps) = some ([], ps) := by simp [sides, hp]
        rw [hfirst, List.head?_cons, Option.any_some, hp]
        rfl
      · rw [Bool.not_eq_true] at hp
        cases hsides : sides 0 (p :: ps) with
        | none => rfl
        | some x =>
            obtain ⟨left, right⟩ := x
            obtain ⟨sign, hsign, heq⟩ := sides_eq hsides
            -- The first piece is not the sign, so that it is left of it.
            cases left with
            | nil =>
                obtain ⟨rfl, -⟩ := List.cons.inj heq
                simp [hp] at hsign
            | cons q left =>
                obtain ⟨rfl, -⟩ := List.cons.inj heq
                have htext := h.text_ne_nil p List.mem_cons_self
                have hfirst := (h.tight_of_mem p List.mem_cons_self (hstarts p rfl)).1
                obtain ⟨c, t, hc⟩ := List.exists_cons_of_ne_nil htext
                have hne : (trim (spelled (p :: left))).isEmpty = false := by
                  rw [spelled_cons, hc, List.cons_append]
                  simpa using trim_ne_nil (by simpa [hc] using hfirst) (t ++ spelled left)
                rw [Option.bind_some, hne, List.head?_cons, Option.any_some, hp]
                rfl

/-- The pieces on either side are pieces of a text of their own. -/
theorem Pieced.pieced_sides {ps left right : List Token} (h : Pieced [] ps)
    (hsides : sides 0 ps = some (left, right)) : Pieced [] left ∧ Pieced [] right := by
  obtain ⟨sign, hsign, rfl⟩ := sides_eq hsides
  have htext : sign.text = ['='] := by
    simp only [isOperator, Bool.and_eq_true, decide_eq_true_eq] at hsign
    exact hsign.2
  exact ⟨h.left.alone (.inr (by simp [EndsNumber, htext])),
    @Pieced.right [] [sign] right (@Pieced.right [] left (sign :: right) h)⟩

/-- The sides of a text are trimmed from pieces of their own. -/
theorem Pieced.exists_sides {ps : List Token} (h : Pieced [] ps) {x : Text × Text}
    (hx : assignmentSides? (spelled ps) = some x) :
    ∃ left right, sides 0 ps = some (left, right) ∧ Pieced [] left ∧ Pieced [] right ∧
      trim (spelled left) = x.1 ∧ trim (spelled right) = x.2 := by
  rw [h.assignmentSides?_eq] at hx
  obtain ⟨⟨left, right⟩, hsides, htrimmed⟩ := Option.bind_eq_some_iff.mp hx
  obtain ⟨hleft, hright⟩ := h.pieced_sides hsides
  split at htrimmed
  · cases htrimmed
  · obtain rfl := Option.some.inj htrimmed
    exact ⟨left, right, hsides, hleft, hright, rfl, rfl⟩

/-- The sides of two texts with the same tokens are split into the same tokens. -/
theorem Pieced.sameTokens_sides {ps qs : List Token} (hps : Pieced [] ps) (hqs : Pieced [] qs)
    (hcode : code ps = code qs) {x y : Text × Text} (hx : assignmentSides? (spelled ps) = some x)
    (hy : assignmentSides? (spelled qs) = some y) : SameTokens x.1 y.1 ∧ SameTokens x.2 y.2 := by
  have hparts {ps : List Token} {x : Text × Text} (hps : Pieced [] ps)
      (hx : assignmentSides? (spelled ps) = some x) :
      ∃ left right, sides 0 (code ps) = some (code left, code right) ∧ Pieced [] left ∧ Pieced [] right ∧
        spelled left = x.1 ∧ spelled right = x.2 := by
    obtain ⟨left, right, hsides, hleft, hright, hl, hr⟩ := hps.exists_sides hx
    obtain ⟨left', hleft', hspelled, hcode⟩ := hleft.trimmed
    obtain ⟨right', hright', hspelled', hcode'⟩ := hright.trimmed
    refine ⟨left', right', ?_, hleft', hright', hspelled.trans hl, hspelled'.trans hr⟩
    rw [sides_code, hsides, hcode, hcode']
    rfl
  obtain ⟨left, right, hsides, hleft, hright, hl, hr⟩ := hparts hps hx
  obtain ⟨left', right', hsides', hleft', hright', hl', hr'⟩ := hparts hqs hy
  rw [← hcode, hsides] at hsides'
  obtain ⟨hleftCode, hrightCode⟩ := by simpa using hsides'
  rw [← hl, ← hr, ← hl', ← hr']
  exact ⟨hleft.sameTokens hleft' hleftCode, hright.sameTokens hright' hrightCode⟩

end Token

end CodeFrames
