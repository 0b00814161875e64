import CodeFrames.Proofs.Lookahead

/-!
# Types in a source

The grammar of types, over tokens without their places.  A shift operator at the end of type arguments
stands for as many closing angle brackets, so the grammar is one of tokens in which it has been taken
apart.  A type of the grammar is as long for the functions that look ahead as it is.
-/

namespace CodeFrames

namespace Token

/-- The closing angle brackets that a shift operator is made of; every other token is itself. -/
def angles (t : Token) : List Token :=
  if t.isOperator ">>".toList then [symbol .operator ['>'], symbol .operator ['>']]
  else if t.isOperator ">>>".toList then
    [symbol .operator ['>'], symbol .operator ['>'], symbol .operator ['>']]
  else [t]

end Token

/-! ## The grammar -/

namespace TypeName

open Token

inductive Dimensions : List Token → Prop
  | nothing : Dimensions []
  | more {l r ts} : l.kind = .openBracket → r.kind = .closeBracket → Dimensions ts →
      Dimensions (l :: r :: ts)

mutual
/-- A primitive type or a qualified name, and array dimensions. -/
inductive Whole : List Token → Prop
  | primitive {t ds} : t.isPrimitive → Dimensions ds → Whole (t :: ds)
  | named {ts ds} : Qualified ts → Dimensions ds → Whole (ts ++ ds)
/-- Names joined by dots, each perhaps with type arguments. -/
inductive Qualified : List Token → Prop
  | last {name args} : name.isName → OptionalArguments args → Qualified (name :: args)
  | more {name args dot ts} : name.isName → OptionalArguments args → dot.kind = .dot → Qualified ts →
      Qualified (name :: (args ++ dot :: ts))
inductive OptionalArguments : List Token → Prop
  | nothing : OptionalArguments []
  | list {opening ts closing} : opening.isOperator ['<'] → Arguments ts → closing.isOperator ['>'] →
      OptionalArguments (opening :: (ts ++ [closing]))
/-- One or more type arguments with commas between them. -/
inductive Arguments : List Token → Prop
  | last {ts} : Argument ts → Arguments ts
  | more {ts comma us} : Argument ts → comma.kind = .comma → Arguments us →
      Arguments (ts ++ comma :: us)
/-- A type or a wildcard. -/
inductive Argument : List Token → Prop
  | type {ts} : Whole ts → Argument ts
  | wildcard {mark} : mark.isOperator ['?'] → Argument [mark]
  | bounded {mark word ts} : mark.isOperator ['?'] →
      word.isWordIn ["extends".toList, "super".toList] → Whole ts → Argument (mark :: word :: ts)
end

end TypeName

/-- The text is a type: its tokens are those of one, none of its names is the word that can open the
declaration of a record, and no blank stands at either end. -/
def Text.IsType (t : Text) : Prop :=
  t.IsTight ∧ ∃ ps, t.Spells ps ∧ TypeName.Whole (ps.flatMap Token.angles) ∧
    ∀ p ∈ ps, p.isWord "record".toList = false

namespace TypeName

open Token

/-! ## Type arguments -/

/-- The tokens can stand inside type arguments and leave as many lists open as they find, without
closing the outermost one. -/
inductive Scans : Int → List Token → Int → Prop
  | nil {depth} : Scans depth [] depth
  | cons {depth change final t ts} : t.typeArgumentChange? = some change → 1 ≤ depth + change →
      Scans (depth + change) ts final → Scans depth (t :: ts) final

theorem Scans.append {a b c : Int} {ts us : List Token} (h : Scans a ts b) (g : Scans b us c) :
    Scans a (ts ++ us) c := by
  induction h with
  | nil => exact g
  | cons hchange hdepth _ ih => exact .cons hchange hdepth (ih g)

theorem scans_still {t : Token} {ts : List Token} {depth final : Int}
    (h : t.typeArgumentChange? = some 0) (hdepth : 1 ≤ depth) (hts : Scans depth ts final) :
    Scans depth (t :: ts) final :=
  .cons h (by omega) (by rwa [Int.add_zero])

theorem change_of_bound {t : Token}
    (h : t.isWordIn ["extends".toList, "super".toList] = true) :
    t.typeArgumentChange? = some 0 := by
  have hkind : t.kind = .word := by
    simp only [isWordIn, isAnyWord, Bool.and_eq_true, decide_eq_true_eq] at h
    exact h.1
  have hbound : (t.opensType || t.isWordIn ["extends".toList, "super".toList]) = true := by
    rw [h, Bool.or_true]
  simp only [typeArgumentChange?, hkind, hbound, if_true]

theorem change_of_isOperator {t : Token} {op : Text} (h : t.isOperator op = true) {change : Int}
    (hop : (symbol .operator op).typeArgumentChange? = some change) :
    t.typeArgumentChange? = some change := by
  rw [← typeArgumentChange?_bare, bare_of_isOperator h, hop]

theorem scans_dimensions {ds : List Token} (h : Dimensions ds) {depth : Int} (hdepth : 1 ≤ depth) :
    Scans depth ds depth := by
  induction h with
  | nothing => exact .nil
  | more hl hr _ ih =>
      exact scans_still (change_of_kind (.inr (.inr (.inl hl)))) hdepth
        (scans_still (change_of_kind (.inr (.inr (.inr hr)))) hdepth ih)

mutual
theorem scans_whole : ∀ {ts : List Token}, Whole ts → ∀ {depth : Int}, 1 ≤ depth →
    Scans depth ts depth
  | _, .primitive ht hds, _, hdepth =>
      scans_still (change_of_opensType (by simp [opensType, ht])) hdepth (scans_dimensions hds hdepth)
  | _, .named hts hds, _, hdepth =>
      (scans_qualified hts hdepth).append (scans_dimensions hds hdepth)
theorem scans_qualified : ∀ {ts : List Token}, Qualified ts → ∀ {depth : Int}, 1 ≤ depth →
    Scans depth ts depth
  | _, .last hname hargs, _, hdepth =>
      scans_still (change_of_opensType (by simp [opensType, hname])) hdepth
        (scans_optionalArguments hargs hdepth)
  | _, .more hname hargs hdot hts, _, hdepth =>
      scans_still (change_of_opensType (by simp [opensType, hname])) hdepth
        ((scans_optionalArguments hargs hdepth).append
          (scans_still (change_of_kind (.inl hdot)) hdepth (scans_qualified hts hdepth)))
theorem scans_optionalArguments : ∀ {ts : List Token}, OptionalArguments ts → ∀ {depth : Int},
    1 ≤ depth → Scans depth ts depth
  | _, .nothing, _, _ => .nil
  | _, .list hopening hts hclosing, depth, hdepth => by
      refine .cons (change_of_isOperator hopening rfl) (by omega)
        ((scans_arguments hts (by omega)).append (.cons (change_of_isOperator hclosing rfl) ?_ ?_))
      · omega
      · rw [show depth + 1 + -1 = depth by omega]
        exact .nil
theorem scans_arguments : ∀ {ts : List Token}, Arguments ts → ∀ {depth : Int}, 1 ≤ depth →
    Scans depth ts depth
  | _, .last h, _, hdepth => scans_argument h hdepth
  | _, .more h hcomma hrest, _, hdepth =>
      (scans_argument h hdepth).append
        (scans_still (change_of_kind (.inr (.inl hcomma))) hdepth (scans_arguments hrest hdepth))
theorem scans_argument : ∀ {ts : List Token}, Argument ts → ∀ {depth : Int}, 1 ≤ depth →
    Scans depth ts depth
  | _, .type h, _, hdepth => scans_whole h hdepth
  | _, .wildcard hmark, _, hdepth => scans_still (change_of_isOperator hmark rfl) hdepth .nil
  | _, .bounded hmark hword hts, _, hdepth =>
      scans_still (change_of_isOperator hmark rfl) hdepth
        (scans_still (change_of_bound hword) hdepth (scans_whole hts hdepth))
end

/-! ## Shift operators taken apart -/

theorem angles_cases (t : Token) :
    (t.angles = [t] ∧ (t.isOperator ">>".toList = false ∧ t.isOperator ">>>".toList = false)) ∨
    (t.isOperator ">>".toList = true ∧ t.angles = [symbol .operator ['>'], symbol .operator ['>']]) ∨
    (t.isOperator ">>>".toList = true ∧
      t.angles = [symbol .operator ['>'], symbol .operator ['>'], symbol .operator ['>']]) := by
  unfold angles
  split
  · exact .inr (.inl ⟨‹_›, rfl⟩)
  · split
    · exact .inr (.inr ⟨‹_›, rfl⟩)
    · exact .inl ⟨rfl, by simp_all⟩

theorem angles_ne_nil (t : Token) : t.angles ≠ [] := by
  rcases angles_cases t with ⟨h, -⟩ | ⟨-, h⟩ | ⟨-, h⟩ <;> simp [h]

theorem flatMap_angles_eq_nil {ps : List Token} (h : ps.flatMap angles = []) : ps = [] := by
  cases ps with
  | nil => rfl
  | cons p ps => simp [angles_ne_nil] at h

theorem eq_of_scans_nil {depth final : Int} (h : Scans depth [] final) : depth = final := by
  cases h
  rfl

theorem scans_gt {depth final : Int} {ts : List Token}
    (h : Scans depth (symbol .operator ['>'] :: ts) final) :
    1 ≤ depth + -1 ∧ Scans (depth + -1) ts final := by
  cases h with
  | cons hchange hpos hrest =>
      obtain rfl := Option.some.inj (hchange.symm.trans (rfl : _ = some (-1)))
      exact ⟨hpos, hrest⟩

/-- A list of type arguments is as long as the tokens through its last closing bracket. -/
theorem typeArgumentsLengthFrom?_of_scans {ps ts : List Token} {closing : Token} {depth : Int}
    (h : Scans depth ts 1) (hclosing : closing.isOperator ['>'] = true)
    (hps : ps.flatMap angles = ts ++ [closing]) (hdepth : 0 ≤ depth) (rest : List Token) :
    typeArgumentsLengthFrom? depth (ps ++ rest) = some ps.length := by
  induction ps generalizing ts depth with
  | nil => simp at hps
  | cons p ps ih =>
      rw [List.flatMap_cons] at hps
      have hlast {change : Int} (hp : p.typeArgumentChange? = some change)
          (hzero : depth + change = 0) (hnil : ps.flatMap angles = []) :
          typeArgumentsLengthFrom? depth (p :: ps ++ rest) = some (p :: ps).length := by
        obtain rfl := flatMap_angles_eq_nil hnil
        rw [List.cons_append, typeArgumentsLengthFrom?, hp]
        simp [hzero]
      have hmore {change : Int} {us : List Token} (hp : p.typeArgumentChange? = some change)
          (hpos : 1 ≤ depth + change) (hscans : Scans (depth + change) us 1)
          (hus : ps.flatMap angles = us ++ [closing]) :
          typeArgumentsLengthFrom? depth (p :: ps ++ rest) = some (p :: ps).length := by
        rw [List.cons_append, typeArgumentsLengthFrom?, hp]
        simp only
        rw [if_neg (by omega), if_neg (by omega), ih hscans hus (by omega)]
        rfl
      rcases angles_cases p with ⟨hp, -⟩ | ⟨hop, hp⟩ | ⟨hop, hp⟩
      · rw [hp, List.singleton_append] at hps
        cases h with
        | nil =>
            obtain ⟨rfl, hnil⟩ := by simpa using hps
            exact hlast (change_of_isOperator hclosing rfl) (by omega)
              (List.flatMap_eq_nil_iff.mpr hnil)
        | cons hchange hpos hrest =>
            obtain ⟨rfl, hus⟩ := by simpa using hps
            exact hmore hchange hpos hrest hus
      · have hchange : p.typeArgumentChange? = some (-2) := change_of_isOperator hop rfl
        rw [hp] at hps
        rcases ts with _ | ⟨t, _ | ⟨u, ts⟩⟩
        · simp at hps
        · -- the second sign is the one that closes
            obtain ⟨rfl, -, hnil⟩ := by simpa using hps
            obtain ⟨-, h⟩ := scans_gt h
            have hone := eq_of_scans_nil h
            exact hlast hchange (by omega) (List.flatMap_eq_nil_iff.mpr hnil)
        · -- both signs are inside
            obtain ⟨rfl, rfl, hus⟩ := by simpa using hps
            obtain ⟨hfirst, h⟩ := scans_gt h
            obtain ⟨hsecond, h⟩ := scans_gt h
            exact hmore hchange (by omega) (by simpa [Int.add_assoc] using h) hus
      · have hchange : p.typeArgumentChange? = some (-3) := change_of_isOperator hop rfl
        rw [hp] at hps
        rcases ts with _ | ⟨t, _ | ⟨u, _ | ⟨v, ts⟩⟩⟩
        · simp at hps
        · simp at hps
        · -- the third sign is the one that closes
            obtain ⟨rfl, rfl, -, hnil⟩ := by simpa using hps
            obtain ⟨-, h⟩ := scans_gt h
            obtain ⟨-, h⟩ := scans_gt h
            have hone := eq_of_scans_nil h
            exact hlast hchange (by omega) (List.flatMap_eq_nil_iff.mpr hnil)
        · -- all three signs are inside
            obtain ⟨rfl, rfl, rfl, hus⟩ := by simpa using hps
            obtain ⟨hfirst, h⟩ := scans_gt h
            obtain ⟨hsecond, h⟩ := scans_gt h
            obtain ⟨hthird, h⟩ := scans_gt h
            exact hmore hchange (by omega) (by simpa [Int.add_assoc] using h) hus

/-- Where a token is no closing angle bracket, the tokens can be split in front of it. -/
theorem split_of_flatMap_angles {ps ts us : List Token} {t : Token}
    (h : ps.flatMap angles = ts ++ t :: us) (ht : t.kind ≠ .operator) :
    ∃ qs rs, ps = qs ++ t :: rs ∧ qs.flatMap angles = ts ∧ rs.flatMap angles = us := by
  induction ps generalizing ts with
  | nil => simp at h
  | cons p ps ih =>
      rw [List.flatMap_cons] at h
      rcases List.append_eq_append_iff.mp h with ⟨vs, rfl, hps⟩ | ⟨vs, hp, hrest⟩
      · obtain ⟨qs, rs, rfl, rfl, rfl⟩ := ih hps
        exact ⟨p :: qs, rs, rfl, by simp, rfl⟩
      · cases vs with
        | nil =>
            simp only [List.append_nil, List.nil_append] at hp hrest
            obtain ⟨qs, rs, rfl, hqs, rfl⟩ := ih (show _ = [] ++ t :: us from hrest.symm)
            exact ⟨p :: qs, rs, rfl, by simp [hqs, hp], rfl⟩
        | cons v vs =>
            obtain ⟨rfl, rfl⟩ := by simpa using hrest
            have hmem : t ∈ p.angles := by simp [hp]
            rcases angles_cases p with ⟨hself, -⟩ | ⟨-, hmany⟩ | ⟨-, hmany⟩
            · rw [hself] at hp
              cases ts with
              | nil =>
                  obtain ⟨rfl, rfl⟩ := by simpa using hp
                  exact ⟨[], ps, rfl, rfl, rfl⟩
              | cons u ts => simp at hp
            · rw [hmany] at hmem
              obtain rfl : t = symbol .operator ['>'] := by simpa using hmem
              exact absurd rfl ht
            · rw [hmany] at hmem
              obtain rfl : t = symbol .operator ['>'] := by simpa using hmem
              exact absurd rfl ht

theorem split_first {ps us : List Token} {t : Token} (h : ps.flatMap angles = t :: us)
    (ht : t.kind ≠ .operator) : ∃ rs, ps = t :: rs ∧ rs.flatMap angles = us := by
  obtain ⟨qs, rs, rfl, hqs, hrs⟩ := split_of_flatMap_angles (by rwa [List.nil_append]) ht
  obtain rfl := flatMap_angles_eq_nil hqs
  exact ⟨rs, rfl, hrs⟩

/-! ## The length of a type -/

/-- Nothing that follows goes on with the type before it. -/
def Ends (rest : List Token) : Prop :=
  ∀ t ∈ rest.head?, t.isOperator ['<'] = false ∧ t.kind ≠ .dot ∧ t.kind ≠ .openBracket

theorem dimensionsLength_of_dimensions {ds rest : List Token} (h : Dimensions ds)
    (hrest : ∀ t ∈ rest.head?, t.kind ≠ .openBracket) :
    dimensionsLength (ds ++ rest) = ds.length := by
  induction h with
  | nothing =>
      rw [List.nil_append]
      rcases rest with _ | ⟨t, _ | ⟨u, rest⟩⟩
      · rfl
      · rfl
      · simp [dimensionsLength, hrest t rfl]
  | more hl hr _ ih => simp [dimensionsLength, hl, hr, ih]

theorem flatMap_angles_dimensions {ps ds : List Token} (h : Dimensions ds)
    (hps : ps.flatMap angles = ds) : ps = ds := by
  induction h generalizing ps with
  | nothing => exact flatMap_angles_eq_nil hps
  | @more l r ts hl hr _ ih =>
      obtain ⟨rs, rfl, hrs⟩ := split_first hps (by simp [hl])
      obtain ⟨us, rfl, hus⟩ := split_first hrs (by simp [hr])
      rw [ih hus]

/-- An argument list is as long as the tokens through the bracket that closes it. -/
theorem optionalArgumentsLength?_of_scans {ps ts : List Token} {opening closing : Token}
    (hopening : opening.isOperator ['<'] = true) (h : Scans 1 ts 1)
    (hclosing : closing.isOperator ['>'] = true) (hps : ps.flatMap angles = opening :: (ts ++ [closing]))
    (rest : List Token) : optionalArgumentsLength? (ps ++ rest) = some ps.length := by
  have hscans : Scans 0 (opening :: ts) 1 := .cons (change_of_isOperator hopening rfl) (by omega) h
  have hlength := typeArgumentsLengthFrom?_of_scans hscans hclosing hps (by omega) rest
  cases ps with
  | nil => simp at hps
  | cons p ps =>
      have hp : p.isOperator ['<'] = true := by
        rw [List.flatMap_cons] at hps
        have hne : (symbol .operator ['>']).isOperator ['<'] = false := rfl
        rcases angles_cases p with ⟨h, -⟩ | ⟨-, h⟩ | ⟨-, h⟩
        · rw [h] at hps
          obtain ⟨rfl, -⟩ := by simpa using hps
          exact hopening
        · rw [h] at hps
          obtain ⟨rfl, -⟩ := by simpa using hps
          rw [hne] at hopening
          cases hopening
        · rw [h] at hps
          obtain ⟨rfl, -⟩ := by simpa using hps
          rw [hne] at hopening
          cases hopening
      rw [List.cons_append, optionalArgumentsLength?, if_pos hp]
      exact hlength

theorem optionalArgumentsLength?_of_arguments {ps ts rest : List Token} (h : OptionalArguments ts)
    (hps : ps.flatMap angles = ts) (hrest : ∀ t ∈ rest.head?, t.isOperator ['<'] = false) :
    optionalArgumentsLength? (ps ++ rest) = some ps.length := by
  cases h with
  | nothing =>
      obtain rfl := flatMap_angles_eq_nil hps
      cases rest with
      | nil => rfl
      | cons t rest => simp [optionalArgumentsLength?, hrest t rfl]
  | list hopening hts hclosing =>
      exact optionalArgumentsLength?_of_scans hopening (scans_arguments hts (by omega)) hclosing hps rest

theorem qualifiedLength?_skip {skip : Nat} {ts : List Token} (h : skip ≤ ts.length) :
    qualifiedLength? skip ts = (qualifiedLength? 0 (ts.drop skip)).map (· + skip) := by
  induction ts generalizing skip with
  | nil =>
      obtain rfl : skip = 0 := by simpa using h
      rfl
  | cons t ts ih =>
      cases skip with
      | zero => simp
      | succ skip =>
          rw [qualifiedLength?, ih (by simpa using h), Option.map_map]
          rfl

theorem qualifiedLength?_last {n : Nat} {ts : List Token} (h : optionalArgumentsLength? ts = some n)
    (hmore : continuesQualified (ts.drop n) = false) : qualifiedLength? 0 ts = some n := by
  cases ts with
  | nil =>
      obtain rfl : 0 = n := by simpa [optionalArgumentsLength?] using h
      rfl
  | cons t ts =>
      rw [qualifiedLength?, h]
      simp [hmore]

theorem not_continuesQualified {ts : List Token} (h : ∀ t ∈ ts.head?, t.kind ≠ .dot) :
    continuesQualified ts = false := by
  rcases ts with _ | ⟨t, _ | ⟨u, ts⟩⟩
  · rfl
  · rfl
  · simp [continuesQualified, h t rfl]

theorem qualifiedLength?_more {n m : Nat} {ts : List Token} {dot name : Token} {rest : List Token}
    (h : optionalArgumentsLength? ts = some n) (hdrop : ts.drop n = dot :: name :: rest)
    (hdot : dot.kind = .dot) (hname : name.isName = true) (hrest : qualifiedLength? 0 rest = some m) :
    qualifiedLength? 0 ts = some (n + 2 + m) := by
  cases ts with
  | nil => simp at hdrop
  | cons t ts =>
      have hlength := congrArg List.length hdrop
      simp only [List.length_drop, List.length_cons] at hlength
      have hbehind : ts.drop (n + 1) = rest := by
        have := congrArg (List.drop 2) hdrop
        rwa [List.drop_drop] at this
      have hmore : continuesQualified (dot :: name :: rest) = true := by
        simp [continuesQualified, hdot, hname]
      rw [qualifiedLength?, h]
      simp only [Option.bind_eq_bind, Option.bind_some, hdrop, hmore, if_true]
      rw [qualifiedLength?_skip (by omega), hbehind, hrest]
      simp
      omega

theorem qualifiedLength?_of_qualified {ps ts rest : List Token} (h : Qualified ts)
    (hps : ps.flatMap angles = ts)
    (hrest : ∀ t ∈ rest.head?, t.isOperator ['<'] = false ∧ t.kind ≠ .dot) :
    ∃ name tail, ps = name :: tail ∧ name.isName = true ∧
      qualifiedLength? 0 (tail ++ rest) = some tail.length := by
  cases h with
  | @last name _ hname hargs =>
      obtain ⟨tail, rfl, htail⟩ := split_first hps (by simp [kind_of_isName hname])
      refine ⟨name, tail, rfl, hname, qualifiedLength?_last
        (optionalArgumentsLength?_of_arguments hargs htail fun t ht => (hrest t ht).1) ?_⟩
      rw [List.drop_left]
      exact not_continuesQualified fun t ht => (hrest t ht).2
  | @more name _ dot _ hname hargs hdot hts =>
      obtain ⟨tail, rfl, htail⟩ := split_first hps (by simp [kind_of_isName hname])
      obtain ⟨args, others, rfl, hargsEq, hothers⟩ :=
        split_of_flatMap_angles htail (by simp [hdot])
      obtain ⟨next, behind, rfl, hnext, hlength⟩ := qualifiedLength?_of_qualified hts hothers hrest
      have hnot : dot.isOperator ['<'] = false := by simp [isOperator, hdot]
      refine ⟨name, _, rfl, hname, ?_⟩
      have hfirst : optionalArgumentsLength? (args ++ dot :: next :: (behind ++ rest)) =
          some args.length :=
        optionalArgumentsLength?_of_arguments hargs hargsEq (by simpa using hnot)
      have hwhole := qualifiedLength?_more hfirst List.drop_left hdot hnext hlength
      rw [List.append_assoc, List.cons_append, List.cons_append, hwhole]
      simp
      omega
termination_by ps.length
decreasing_by
  subst_vars
  simp only [List.length_cons, List.length_append]
  omega

theorem split_dimensions {ps ts ds : List Token} (hds : Dimensions ds)
    (h : ps.flatMap angles = ts ++ ds) : ∃ qs, ps = qs ++ ds ∧ qs.flatMap angles = ts := by
  cases hds with
  | nothing => exact ⟨ps, by simp, by simpa using h⟩
  | more hl hr hmore =>
      obtain ⟨qs, rs, rfl, hqs, hrs⟩ := split_of_flatMap_angles h (by simp [hl])
      obtain ⟨us, rfl, hus⟩ := split_first hrs (by simp [hr])
      rw [flatMap_angles_dimensions hmore hus]
      exact ⟨qs, rfl, hqs⟩

theorem ends_dimensions {ds rest : List Token} (hds : Dimensions ds)
    (h : Ends rest) : ∀ t ∈ (ds ++ rest).head?, t.isOperator ['<'] = false ∧ t.kind ≠ .dot := by
  cases hds with
  | nothing => exact fun t ht => ⟨(h t ht).1, (h t ht).2.1⟩
  | more hl hr hmore =>
      intro t ht
      obtain rfl := by simpa using ht
      simp [isOperator, hl]

/-- The length of a type is the number of its tokens. -/
theorem typeLength?_of_whole {ps rest : List Token} (h : Whole (ps.flatMap angles))
    (hrest : Ends rest) : typeLength? (ps ++ rest) = some ps.length := by
  generalize hps : ps.flatMap angles = ts at h
  have hbracket : ∀ t ∈ rest.head?, t.kind ≠ .openBracket := fun t ht => (hrest t ht).2.2
  cases h with
  | @primitive t ds ht hds =>
      have hopens : t.opensType = true := by simp [opensType, ht]
      obtain ⟨us, rfl, hus⟩ := split_first hps (by simp [kind_of_opensType hopens])
      obtain rfl := flatMap_angles_dimensions hds hus
      have hhead := ends_dimensions hds hrest
      have hname : qualifiedLength? 0 (us ++ rest) = some 0 := by
        refine qualifiedLength?_last ?_ ?_
        · exact (optionalArgumentsLength?_of_arguments .nothing rfl fun t ht => (hhead t ht).1 :
            optionalArgumentsLength? ([] ++ (us ++ rest)) = some [].length)
        · exact not_continuesQualified fun t ht => (hhead t ht).2
      rw [typeLength?, List.cons_append, typeNameLength?, if_pos hopens, hname]
      simp [dimensionsLength_of_dimensions hds hbracket]
      omega
  | @named ts ds hts hds =>
      obtain ⟨qs, rfl, hqs⟩ := split_dimensions hds hps
      obtain ⟨name, tail, rfl, hname, hlength⟩ :=
        qualifiedLength?_of_qualified hts hqs (ends_dimensions hds hrest)
      have hopens : name.opensType = true := by simp [opensType, hname]
      rw [List.append_assoc, typeLength?, List.cons_append, typeNameLength?, if_pos hopens, hlength]
      simp [dimensionsLength_of_dimensions hds hbracket]
      omega

theorem exists_first_of_whole {ps : List Token} (h : Whole (ps.flatMap angles)) :
    ∃ t ts, ps = t :: ts ∧ t.opensType = true := by
  generalize hps : ps.flatMap angles = ts at h
  cases h with
  | @primitive t ds ht hds =>
      have hopens : t.opensType = true := by simp [opensType, ht]
      obtain ⟨us, rfl, -⟩ := split_first hps (by simp [kind_of_opensType hopens])
      exact ⟨t, us, rfl, hopens⟩
  | @named ts ds hts hds =>
      obtain ⟨qs, rfl, hqs⟩ := split_dimensions hds hps
      obtain ⟨name, tail, rfl, hname, -⟩ :=
        @qualifiedLength?_of_qualified _ _ [] hts hqs (by simp)
      exact ⟨name, _, rfl, by simp [opensType, hname]⟩

end TypeName

end CodeFrames
