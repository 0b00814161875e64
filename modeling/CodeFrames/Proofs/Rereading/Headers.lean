import CodeFrames.Proofs.Rereading.Blocks

/-!
# Reading headers back

The parameters and the throws clause of a declaration, and the call of another constructor.  The
parameters are a group whatever their types are, so a constructor is told from a call.
-/

namespace CodeFrames

open scoped Computability
open Token Sentence Text Plain

/-! ## Groups -/

namespace Token

/-- How many groups are open behind some tokens, unless one of them closes the last or ends the
source. -/
def openAfter? : Nat → List Token → Option Nat
  | depth, [] => some depth
  | depth, t :: ts =>
      if t.kind.isOpener then openAfter? (depth + 1) ts
      else if t.kind.isCloser then if 2 ≤ depth then openAfter? (depth - 1) ts else none
      else if t.isEnd then none
      else openAfter? depth ts

variable {ps qs rest : List Token} {t : Token} {depth final : Nat}

theorem openAfter?_append (ps qs : List Token) (depth : Nat) :
    openAfter? depth (ps ++ qs) = (openAfter? depth ps).bind (openAfter? · qs) := by
  induction ps generalizing depth with
  | nil => rfl
  | cons t ps ih =>
      rw [List.cons_append, openAfter?, openAfter?]
      split
      · exact ih _
      · split
        · split
          · exact ih _
          · rfl
        · split
          · rfl
          · exact ih _

theorem openAfter?_plain {kind : Kind} (ht : t.kind = kind)
    (hkind : kind.isOpener = false ∧ kind.isCloser = false ∧ kind ≠ .endOfInput) (ps : List Token) :
    openAfter? depth (t :: ps) = openAfter? depth ps := by
  obtain ⟨hopener, hcloser, hend⟩ := hkind
  rw [openAfter?, ht, hopener, hcloser, isEnd, ht, decide_eq_false hend]
  rfl

/-- Tokens that leave the open groups as they are, in front of others. -/
theorem openAfter?_of_some (h : openAfter? depth ps = some depth) (qs : List Token) :
    openAfter? depth (ps ++ qs) = openAfter? depth qs := by
  rw [openAfter?_append, h, Option.bind_some]

theorem kind_of_isOperator {op : Text} (h : t.isOperator op = true) : t.kind = .operator := by
  rw [isOperator, Bool.and_eq_true, decide_eq_true_eq] at h
  exact h.1

/-- A shift operator opens and closes as much as the closing angle brackets it is made of. -/
theorem openAfter?_angles (ps : List Token) (depth : Nat) :
    openAfter? depth (ps.flatMap angles) = openAfter? depth ps := by
  induction ps generalizing depth with
  | nil => rfl
  | cons t ps ih =>
      have hoperator {t : Token} {op : Text} (h : t.isOperator op = true) (qs : List Token) :
          openAfter? depth (t :: qs) = openAfter? depth qs :=
        openAfter?_plain (kind_of_isOperator h) (by decide) qs
      have hangle : (symbol .operator ['>']).isOperator ['>'] = true := by decide
      rw [List.flatMap_cons]
      rcases TypeName.angles_cases t with ⟨hangles, -⟩ | ⟨hshift, hangles⟩ | ⟨hshift, hangles⟩
      · rw [hangles, List.singleton_append, openAfter?, openAfter?]
        simp only [ih]
      · rw [hangles, hoperator hshift]
        simp only [List.cons_append, List.nil_append, hoperator hangle, ih]
      · rw [hangles, hoperator hshift]
        simp only [List.cons_append, List.nil_append, hoperator hangle, ih]

theorem groupLengthFrom?_of_openAfter? (h : openAfter? depth ps = some final) (rest : List Token) :
    groupLengthFrom? depth (ps ++ rest) = (groupLengthFrom? final rest).map (· + ps.length) := by
  induction ps generalizing depth with
  | nil =>
      obtain rfl : depth = final := by simpa [openAfter?] using h
      simp
  | cons t ps ih =>
      have hstep {n : Nat} (h : openAfter? n ps = some final) :
          (groupLengthFrom? n (ps ++ rest)).map (· + 1) =
            (groupLengthFrom? final rest).map (· + (t :: ps).length) := by
        rw [ih h, Option.map_map]
        rfl
      rw [openAfter?] at h
      rw [List.cons_append]
      split at h
      · next hopener => rw [groupLengthFrom?_opener hopener, hstep h]
      · next hopener =>
          split at h
          · next hcloser =>
              split at h
              · next hdepth =>
                  obtain ⟨n, rfl⟩ : ∃ n, depth = n + 2 := ⟨depth - 2, by omega⟩
                  rw [groupLengthFrom?_closer (by simpa using hopener) hcloser]
                  exact hstep h
              · cases h
          · next hcloser =>
              split at h
              · cases h
              · next hend => rw [groupLengthFrom?_plain hopener hcloser hend, hstep h]

end Token

/-! ## Types close what they open -/

namespace TypeName

open Token

variable {depth : Nat}

theorem openAfter?_dimensions {ds : List Token} (h : Dimensions ds) (hdepth : 1 ≤ depth) :
    openAfter? depth ds = some depth := by
  induction h with
  | nothing => rfl
  | more hl hr _ ih =>
      rw [openAfter?, hl, if_pos (by rfl), openAfter?, hr, if_neg (by decide), if_pos (by rfl),
        if_pos (by omega), Nat.add_sub_cancel, ih]

mutual
theorem openAfter?_whole : ∀ {ts : List Token}, Whole ts → 1 ≤ depth → openAfter? depth ts = some depth
  | _, .primitive ht hds, hdepth => by
      rw [openAfter?_plain (kind_of_isWordIn ht) (by decide), openAfter?_dimensions hds hdepth]
  | _, .named hts hds, hdepth => by
      rw [openAfter?_of_some (openAfter?_qualified hts hdepth), openAfter?_dimensions hds hdepth]
theorem openAfter?_qualified : ∀ {ts : List Token}, Qualified ts → 1 ≤ depth →
    openAfter? depth ts = some depth
  | _, .last hname hargs, hdepth => by
      rw [openAfter?_plain (kind_of_isName hname) (by decide), openAfter?_optionalArguments hargs hdepth]
  | _, .more hname hargs hdot hts, hdepth => by
      rw [openAfter?_plain (kind_of_isName hname) (by decide),
        openAfter?_of_some (openAfter?_optionalArguments hargs hdepth), openAfter?_plain hdot (by decide),
        openAfter?_qualified hts hdepth]
theorem openAfter?_optionalArguments : ∀ {ts : List Token}, OptionalArguments ts → 1 ≤ depth →
    openAfter? depth ts = some depth
  | _, .nothing, _ => rfl
  | _, .list hopening hts hclosing, hdepth => by
      rw [openAfter?_plain (kind_of_isOperator hopening) (by decide),
        openAfter?_of_some (openAfter?_arguments hts hdepth),
        openAfter?_plain (kind_of_isOperator hclosing) (by decide)]
      rfl
theorem openAfter?_arguments : ∀ {ts : List Token}, Arguments ts → 1 ≤ depth →
    openAfter? depth ts = some depth
  | _, .last hts, hdepth => openAfter?_argument hts hdepth
  | _, .more hts hcomma hus, hdepth => by
      rw [openAfter?_of_some (openAfter?_argument hts hdepth), openAfter?_plain hcomma (by decide),
        openAfter?_arguments hus hdepth]
theorem openAfter?_argument : ∀ {ts : List Token}, Argument ts → 1 ≤ depth →
    openAfter? depth ts = some depth
  | _, .type hts, hdepth => openAfter?_whole hts hdepth
  | _, .wildcard hmark, _ => openAfter?_plain (kind_of_isOperator hmark) (by decide) []
  | _, .bounded hmark hword hts, hdepth => by
      rw [openAfter?_plain (kind_of_isOperator hmark) (by decide),
        openAfter?_plain (kind_of_isWordIn hword) (by decide), openAfter?_whole hts hdepth]
end

end TypeName

/-! ## Parameters -/

namespace Reading

variable {options : Options} {source t u : Text} {c : Cursor} {L : Language Event}
  {ps : List Parameter} {p : Parameter}

/-- The parameters of a declaration are a group. -/
theorem symbols_parameterList (hps : ∀ p ∈ ps, IsParameter p) (u : Text) :
    ∃ ts, symbols (Text.join ", ".toList (ps.map Print.parameter) ++ ')' :: u) =
      ts ++ symbol .closeParen [')'] :: symbols u ∧ openAfter? 1 ts = some 1 := by
  have hparameter {p : Parameter} {v : Text} (hp : IsParameter p) (hv : IsApart v) :
      ∃ ts, symbols (Print.parameter p ++ v) = ts ++ symbols v ∧ openAfter? 1 ts = some 1 := by
    obtain ⟨type, name, rfl, htype, hname⟩ := hp
    obtain ⟨qs, hwhole, -, hsymbols⟩ := symbols_declared htype hname hv
    refine ⟨qs ++ [symbol .word name], ?_, ?_⟩
    · rw [Print.parameter, List.append_assoc, List.append_assoc]
      exact hsymbols
    · have htypes := TypeName.openAfter?_whole hwhole (Nat.le_refl 1)
      rw [openAfter?_angles] at htypes
      have hword : (symbol .word name).kind = .word := rfl
      rw [openAfter?_of_some htypes, openAfter?_plain hword (by decide)]
      rfl
  have hparen := @symbols_mark ')' .closeParen (by decide) u
  induction ps with
  | nil => exact ⟨[], hparen, rfl⟩
  | cons p ps ih =>
      obtain ⟨ts, hts, hopen⟩ := ih fun p hp => hps p (List.mem_cons_of_mem _ hp)
      have hp := hps p List.mem_cons_self
      cases ps with
      | nil =>
          obtain ⟨qs, hqs, hopen⟩ := hparameter hp (@isApart_cons ')' (by decide) u)
          exact ⟨qs, hqs.trans (by rw [hparen]), hopen⟩
      | cons p' ps =>
          obtain ⟨qs, hqs, hopens⟩ := hparameter hp (@isApart_cons ',' (by decide)
            (' ' :: (Text.join ", ".toList ((p' :: ps).map Print.parameter) ++ ')' :: u)))
          rw [@symbols_mark ',' .comma (by decide), symbols_blank, hts] at hqs
          refine ⟨qs ++ symbol .comma [','] :: ts, ?_, ?_⟩
          · rw [List.map_cons, List.map_cons, join_cons_cons, List.append_assoc, List.append_assoc]
            rw [List.append_assoc, List.cons_append]
            exact hqs
          · rw [openAfter?_of_some hopens, openAfter?_plain rfl (by decide), hopen]

theorem groupLength?_parameters (hps : ∀ p ∈ ps, IsParameter p) (u : Text) :
    ∃ ts, symbols (Print.parameters ps ++ u) =
        symbol .openParen ['('] :: (ts ++ symbol .closeParen [')'] :: symbols u) ∧
      groupLength? (symbol .openParen ['('] :: (ts ++ symbol .closeParen [')'] :: symbols u)) =
        some (ts.length + 2) := by
  obtain ⟨ts, hts, hopen⟩ := symbols_parameterList hps u
  refine ⟨ts, ?_, ?_⟩
  · rw [Print.parameters, List.cons_append, @symbols_mark '(' .openParen (by decide), List.append_assoc,
      List.singleton_append, hts]
  · rw [groupLength?, groupLengthFrom?_opener rfl, groupLengthFrom?_of_openAfter? hopen,
      groupLengthFrom?]
    simp [symbol, Kind.isOpener, Kind.isCloser]
    omega

variable (source) in
def parametersOf (ps : List Parameter) : Language Event :=
  {es | Parameters source es ps [] ∧ es ∈ clears source}

variable (source) in
/-- The report of something by its name. -/
def naming (event : Span → Event) (t : Text) : Language Event :=
  {es | ∃ s : Span, es = [event s] ∧ s.textIn source = t}

variable (source) in
/-- The report of one parameter. -/
def parameterOf (p : Parameter) : Language Event :=
  {es | ∃ first last name, es = [.typeName first last, .parameter name none] ∧
    p = ⟨.type (textThrough source first last), .name (name.textIn source)⟩}

theorem nil_mem_parametersOf : [] ∈ parametersOf source [] := ⟨.nothing, nil_mem_clears⟩

theorem parameterOf_mul_parametersOf :
    parameterOf source p * parametersOf source ps ≤ parametersOf source (p :: ps) := by
  rintro _ ⟨_, ⟨first, last, name, rfl, rfl⟩, more, ⟨h, hclear⟩, rfl⟩
  have hplain : [.typeName first last, .parameter name none] ∈ clears source :=
    cons_mem_clears (accessClear_of_modifiers rfl) (single_mem_clears_of rfl)
  exact ⟨.parameter first last name none h, append_mem_clears hplain hclear⟩

theorem ends_mark {ch : Char} {kind : Kind} (hmark : (ch, kind) ∈ marks) (hkind : kind ≠ .openBracket)
    (u : Text) : TypeName.Ends (symbols (ch :: u)) := by
  have hall : ∀ m ∈ marks, m.2 ≠ .operator ∧ m.2 ≠ .dot := by decide
  intro t ht
  rw [symbols_mark hmark] at ht
  obtain rfl := by simpa using ht
  simp [isOperator, symbol, hall _ hmark, hkind]

theorem ends_identifier (ht : t.IsIdentifier) (hu : IsApart u) : TypeName.Ends (symbols (t ++ u)) := by
  rw [(ht.spells.splits hu).symbols_eq]
  exact ends_of_word rfl

/-- A parameter through its name, in front of the mark that follows. -/
theorem completesAt_parameter {ch : Char} {kind : Kind} (hmark : (ch, kind) ∈ marks) {Q : Bool → Cursor → Prop}
    (hp : IsParameter p) (hcomma : ∀ d : Cursor, d.StandsAt source (ch :: u) → comma.CompletesAt d 1 Q)
    (hc : c.StandsAt source (Print.parameter p ++ ch :: u)) :
    parameter.CompletesAt c (parameterOf source p) Q := by
  obtain ⟨type, name, rfl, htype, hname⟩ := hp
  have hapart : IsApart (ch :: u) := isApart_cons (mem_separators_of_mark hmark) u
  simp only [Print.parameter, Fragment.type, Fragment.name, List.append_assoc, List.cons_append] at hc
  obtain ⟨qs, hwhole, -, hsymbols⟩ := symbols_declared htype hname hapart
  have hfirst : ∃ p rest, symbols (type ++ ' ' :: (name ++ ch :: u)) = p :: rest ∧ p.kind = .word ∧
      p.text ∉ modifierWords := by
    obtain ⟨p, qs, rfl, hopens⟩ := TypeName.exists_first_of_whole hwhole
    exact ⟨p, _, hsymbols, kind_of_opensType hopens, not_mem_of_opensType hopens (by decide)⟩
  have hnone : AreModifiers [] := fun _ h => (List.not_mem_nil h).elim
  rw [parameter]
  refine (completesAt_modifiers hnone hc hfirst).silent ?_
  rintro _ d ⟨-, hd⟩
  have htyped := completesAt_typeName hd htype (isApart_cons (by decide) _)
    (symbols_blank (name ++ ch :: u) ▸ ends_identifier hname hapart)
  refine CompletesAt.mono (L := typed source type * naming source (.parameter · none) name)
    (htyped.bind fun _ d hd => CompletesAt.cursor_bind ?_) ?_
  · have hkind : d.here.kind = .word := by
      have hfaces := hd.of_blank.faces
      rw [(hname.spells.splits hapart).symbols_eq] at hfaces
      exact kind_of_faces hfaces
    rw [if_neg (by simp [Cursor.isAt, hkind]), pure_bind]
    refine CompletesAt.expectName_bind hd.of_blank hname hapart fun htext e he => ?_
    refine CompletesAt.mono (CompletesAt.emit_bind (hcomma e he)) ?_
    rw [mul_one]
    rintro _ rfl
    exact ⟨_, rfl, htext⟩
  · rintro _ ⟨_, ⟨first, last, rfl, htype⟩, _, ⟨s, rfl, hname⟩, rfl⟩
    exact ⟨first, last, s, rfl, by rw [htype, hname]⟩

theorem completesAt_commas {ch : Char} {kind : Kind} (hmark : (ch, kind) ∈ marks) (hkind : kind ≠ .comma)
    (hc : c.StandsAt source (ch :: u)) :
    comma.CompletesAt c 1 fun again d => again = false ∧ d.StandsAt source (ch :: u) :=
  ⟨[], false, c, comma_of_kind_ne (by rwa [kind_mark hc hmark]), Language.nil_mem_one, rfl, hc⟩

theorem completesAt_commaMore (hc : c.StandsAt source (',' :: u)) :
    comma.CompletesAt c 1 fun again d => again = true ∧ d.StandsAt source u := by
  have hkind := @kind_mark _ _ _ ',' .comma hc (by decide)
  obtain ⟨-, hadvance⟩ := hc.advance (splits_punctuation (lexeme_mark
    (show (',', Kind.comma) ∈ marks by decide)) u)
  exact ⟨[], true, c.advance, comma_of_kind hkind, Language.nil_mem_one, rfl, hadvance⟩

/-- A text in front of a comma leaves more tokens ahead than what stands behind the comma. -/
theorem length_ahead_of_comma {d : Cursor} (hextends : Extends (t ++ ',' :: u) (',' :: u))
    (hc : c.StandsAt source (t ++ ',' :: u)) (hd : d.StandsAt source u) :
    d.ahead.length < c.ahead.length :=
  length_ahead_of_closes hc hd ⟨',', .comma, by decide, hextends⟩

/-- Parameters, with a comma and a space between each two. -/
theorem repeatsAt_parameters (hps : ∀ q ∈ p :: ps, IsParameter q)
    (hc : c.StandsAt source (Text.join ", ".toList ((p :: ps).map Print.parameter) ++ ')' :: u)) :
    RepeatsAt parameter c (parametersOf source (p :: ps)) (·.StandsAt source (')' :: u)) := by
  induction ps generalizing p c with
  | nil =>
      have hp := hps p List.mem_cons_self
      refine RepeatsAt.mono (.last (@completesAt_parameter _ _ _ _ ')' .closeParen (by decide) _ hp
        (fun d hd => @completesAt_commas _ _ _ ')' .closeParen (by decide) (by decide) hd) hc)) ?_
      exact fun es hes => parameterOf_mul_parametersOf ⟨es, hes, [], nil_mem_parametersOf, List.append_nil es⟩
  | cons p' ps ih =>
      obtain ⟨hp, hps⟩ := List.forall_mem_cons.mp hps
      rw [List.map_cons, List.map_cons, join_cons_cons, List.append_assoc, List.append_assoc] at hc
      have hround := @completesAt_parameter _ _ _ _ ',' .comma (by decide) _ hp
        (fun d hd => completesAt_commaMore hd) hc
      refine RepeatsAt.mono (RepeatsAt.more (hround.imp ?_) fun d hd => ih hps hd)
        parameterOf_mul_parametersOf
      rintro again d ⟨rfl, hd⟩
      exact ⟨rfl, length_ahead_of_comma (Print.extends_parameter hp (isApart_cons (by decide) _) (.refl _))
        hc hd, hd.of_blank⟩

theorem exists_join_cons (separator t : Text) (ts : List Text) :
    ∃ v, Text.join separator (t :: ts) = t ++ v := by
  cases ts with
  | nil => exact ⟨[], (List.append_nil t).symm⟩
  | cons t' ts => exact ⟨_, by rw [join_cons_cons, List.append_assoc]⟩

theorem completesAt_parameters (hps : ∀ p ∈ ps, IsParameter p)
    (hc : c.StandsAt source (Print.parameters ps ++ u)) :
    parameters.CompletesAt c (parametersOf source ps) fun _ d => d.StandsAt source u := by
  rw [Print.parameters, List.cons_append, List.append_assoc] at hc
  rw [parameters]
  refine @CompletesAt.expect_bind _ _ _ _ _ _ '(' .openParen _ _ hc (by decide) fun d hd =>
    CompletesAt.cursor_bind ?_
  have hclosed {d : Cursor} (hd : d.StandsAt source (')' :: u)) :
      (do let _ ← expect .closeParen ")" : Reading Unit).CompletesAt d 1 fun _ d => d.StandsAt source u :=
    @CompletesAt.expect_bind _ _ _ _ _ _ ')' .closeParen _ _ hd (by decide) fun _ hd => CompletesAt.pure hd
  cases ps with
  | nil =>
      have hkind := @kind_mark _ _ _ ')' .closeParen hd (by decide)
      refine CompletesAt.ite_false (by simp [Cursor.isAt, hkind]) (CompletesAt.mono (hclosed hd) ?_)
      exact Set.singleton_subset_iff.mpr nil_mem_parametersOf
  | cons p ps =>
      have hkind : d.here.kind = .word := by
        obtain ⟨v, hv⟩ := exists_join_cons ", ".toList (Print.parameter p) (ps.map Print.parameter)
        obtain ⟨type, name, rfl, htype, -⟩ := hps p List.mem_cons_self
        have hfaces := hd.faces
        rw [List.map_cons, hv] at hfaces
        simp only [Print.parameter, Fragment.type, Fragment.name, List.append_assoc, List.cons_append,
          List.nil_append] at hfaces
        obtain ⟨q, rest, hsymbols, hkind, -⟩ := startsElement_type htype
          (@isApart_cons ' ' (by decide) (name ++ (v ++ ')' :: u)))
        rw [show symbols _ = q :: rest from hsymbols] at hfaces
        exact (kind_of_faces hfaces).trans hkind
      exact CompletesAt.ite_true (by simp [Cursor.isAt, hkind])
        ((repeatsAt_parameters hps hd).repeatWhile.bind_silent fun _ d hd => hclosed hd)

/-! ## Throws clauses -/

variable (source) in
def thrownTypes (types : List Fragment) : Language Event :=
  {es | ∃ bounds : List (Span × Span), es = bounds.map (fun b => .typeName b.1 b.2) ∧
    types = bounds.map fun b => .type (textThrough source b.1 b.2)}

variable (source) in
def throwing (types : List Fragment) : Language Event :=
  {es | Throws source es types ∧ es ∈ clears source}

theorem nil_mem_throwing : [] ∈ throwing source [] := ⟨.nothing, nil_mem_clears⟩

theorem typed_mul_thrownTypes (types : List Fragment) :
    typed source t * thrownTypes source types ≤ thrownTypes source (.type t :: types) := by
  rintro _ ⟨_, ⟨first, last, rfl, rfl⟩, _, ⟨bounds, rfl, rfl⟩, rfl⟩
  exact ⟨(first, last) :: bounds, rfl, rfl⟩

theorem clause_le_throwing {f : Fragment} {types : List Fragment} :
    single .openThrows * (thrownTypes source (f :: types) * {[.closeThrows]}) ≤
      throwing source (f :: types) := by
  rintro _ ⟨_, ⟨keyword, rfl⟩, _, ⟨_, ⟨bounds, rfl, htypes⟩, _, rfl, rfl⟩, rfl⟩
  have hne : bounds ≠ [] := by
    rintro rfl
    cases htypes
  refine ⟨htypes ▸ .clause keyword bounds hne, append_mem_clears (single_mem_clears_of rfl)
    (append_mem_clears ?_ (single_mem_clears_of rfl))⟩
  intro event hevent
  obtain ⟨b, -, rfl⟩ := List.mem_map.mp hevent
  exact accessClear_of_modifiers rfl

/-- What follows the header of a declaration: its body or a semicolon. -/
structure EndsHeader (u : Text) : Prop where
  apart : IsApart u
  first : ∃ p rest, symbols u = p :: rest ∧ (p.kind = .openBrace ∨ p.kind = .semicolon)

theorem endsHeader_block (name : Text) (body : Block) (u : Text) :
    EndsHeader (Print.block name body ++ u) := by
  refine ⟨Print.isApart_block name body u, ?_⟩
  rw [Print.block, List.cons_append, symbols_blank, List.cons_append]
  exact ⟨_, _, @symbols_mark '{' .openBrace (by decide) _, .inl rfl⟩

theorem endsHeader_brace (u : Text) : EndsHeader (' ' :: '{' :: u) :=
  ⟨isApart_cons (by decide) _, _, _, @symbols_mark '{' .openBrace (by decide) u, .inl rfl⟩

theorem endsHeader_semicolon (u : Text) : EndsHeader (';' :: u) :=
  ⟨isApart_cons (by decide) _, _, _, @symbols_mark ';' .semicolon (by decide) u, .inr rfl⟩

theorem EndsHeader.ends (h : EndsHeader u) : TypeName.Ends (symbols u) := by
  obtain ⟨p, rest, hsymbols, hkind⟩ := h.first
  intro q hq
  rw [hsymbols] at hq
  obtain rfl := by simpa using hq
  rcases hkind with hkind | hkind <;> simp [isOperator, hkind]

theorem EndsHeader.kind (h : EndsHeader u) (hc : c.StandsAt source u) :
    c.here.kind = .openBrace ∨ c.here.kind = .semicolon := by
  obtain ⟨p, rest, hsymbols, hkind⟩ := h.first
  have hfaces := hc.faces
  rw [hsymbols] at hfaces
  rwa [kind_of_faces hfaces]

/-- A type and perhaps a comma behind it. -/
def thrownRound : Reading Bool := do
  typeName
  comma

theorem repeatsAt_thrownTypes {f : Fragment} {types : List Fragment} (htypes : AreTypes (f :: types))
    (hu : EndsHeader u)
    (hc : c.StandsAt source (Text.join ", ".toList ((f :: types).map Fragment.text) ++ u)) :
    RepeatsAt thrownRound c (thrownTypes source (f :: types)) (·.StandsAt source u) := by
  induction types generalizing f c with
  | nil =>
      obtain ⟨t, rfl, ht⟩ := htypes f List.mem_cons_self
      have hround := completesAt_typeName hc ht hu.apart hu.ends
      refine RepeatsAt.mono (.last (hround.bind_silent fun _ d hd => ?_)) ?_
      · exact ⟨[], false, d, comma_of_kind_ne (by rcases hu.kind hd with h | h <;> simp [h]),
          Language.nil_mem_one, rfl, hd⟩
      · exact fun es hes => typed_mul_thrownTypes [] ⟨es, hes, [], ⟨[], rfl, rfl⟩, List.append_nil es⟩
  | cons g types ih =>
      obtain ⟨⟨t, rfl, ht⟩, hmore⟩ := List.forall_mem_cons.mp htypes
      rw [List.map_cons, List.map_cons, join_cons_cons, List.append_assoc, List.append_assoc] at hc
      have hround := (completesAt_typeName hc ht (isApart_cons (by decide) _)
        (@ends_mark ',' .comma (by decide) (by decide) _)).bind_silent fun _ d hd => completesAt_commaMore hd
      refine RepeatsAt.mono (RepeatsAt.more (hround.imp ?_) fun d hd => ih hmore hd)
        (typed_mul_thrownTypes _)
      rintro again d ⟨rfl, hd⟩
      exact ⟨rfl, length_ahead_of_comma (Print.extends_type ht (isApart_cons (by decide) _) (.refl _))
        hc hd, hd.of_blank⟩

theorem completesAt_throwsClause {types : List Fragment} (htypes : AreTypes types) (hu : EndsHeader u)
    (hc : c.StandsAt source (Print.throwsClause types ++ u)) :
    throwsClause.CompletesAt c (throwing source types) fun _ d => d.StandsAt source u := by
  rw [throwsClause]
  cases types with
  | nil =>
      have hc : c.StandsAt source u := hc
      have hword : c.isAtWord "throws" = false := by
        rcases hu.kind hc with h | h <;> simp [Cursor.isAtWord, isWord, h]
      refine CompletesAt.cursor_bind (CompletesAt.ite_false (by simp [hword])
        (CompletesAt.mono (CompletesAt.pure hc) ?_))
      exact Set.singleton_subset_iff.mpr nil_mem_throwing
  | cons f types =>
      rw [Print.throwsClause_cons, List.cons_append, List.append_assoc, List.cons_append] at hc
      obtain ⟨hhere, hadvance⟩ := advance_word hc.of_blank (by decide) (isApart_cons (by decide) _)
      refine CompletesAt.cursor_bind (CompletesAt.ite_true (isWord_of_bare hhere) (CompletesAt.mono
        (CompletesAt.take_bind ?_) clause_le_throwing))
      exact (CompletesAt.emit_single Event.openThrows _ hadvance.of_blank).bind fun _ d hd =>
        (repeatsAt_thrownTypes htypes hu hd).repeatWhile.bind fun _ d hd => CompletesAt.emit hd

/-! ## Calls of other constructors -/

variable (source) in
def delegateArguments (texts : List Text) : Language Event :=
  {es | DelegateArguments source es texts [] ∧ es ∈ clears source}

theorem argument_mul_delegateArguments {e : Text} {texts : List Text} (he : e.IsTight) :
    single .argument * expressed source e * delegateArguments source texts ≤
      delegateArguments source (e :: texts) := by
  rintro _ ⟨_, ⟨_, ⟨announced, rfl⟩, events, h, rfl⟩, more, ⟨hmore, hclear⟩, rfl⟩
  have hwhole := DelegateArguments.argument announced h hmore
  rw [trim_of_tight he] at hwhole
  refine ⟨by simpa using hwhole, append_mem_clears (append_mem_clears (single_mem_clears_of rfl)
    (clears_of_expressed h)) hclear⟩

theorem completesAt_argument {ch : Char} {kind : Kind} {levels : Nat} {e : Text} (hmark : (ch, kind) ∈ marks)
    (hkind : kind ∈ delimiters) {Q : Bool → Cursor → Prop} (he : e.IsExpression options)
    (hlevels : 127 ≤ levels)
    (hcomma : ∀ d : Cursor, d.StandsAt source (ch :: u) → comma.CompletesAt d 1 Q)
    (hc : c.StandsAt source (e ++ ch :: u)) :
    (argumentRound (Enclosed.within levels)).CompletesAt c (single .argument * expressed source e) Q := by
  rw [argumentRound]
  refine CompletesAt.here_bind ((CompletesAt.emit_single (Q := fun _ d => d.StandsAt source (e ++ ch :: u))
    Event.argument _ hc).bind fun _ d hd => ?_)
  exact (he.completesAt hlevels hd (isApart_cons (mem_separators_of_mark hmark) u)
    (delimits_mark kind hmark hkind u)).bind_silent fun _ d hd => hcomma d hd

theorem repeatsAt_delegateArguments {levels : Nat} {e : Text} {es : List Text}
    (hes : ∀ x ∈ e :: es, x.IsExpression options) (hlevels : 127 ≤ levels)
    (hc : c.StandsAt source (Text.join [','] (e :: es) ++ ')' :: u)) :
    RepeatsAt (argumentRound (Enclosed.within levels)) c (delegateArguments source (e :: es))
      (·.StandsAt source (')' :: u)) := by
  induction es generalizing e c with
  | nil =>
      have he := hes e List.mem_cons_self
      refine RepeatsAt.mono (.last (@completesAt_argument _ _ _ _ ')' .closeParen _ _ (by decide)
        (by decide) _ he hlevels
        (fun d hd => @completesAt_commas _ _ _ ')' .closeParen (by decide) (by decide) hd) hc)) ?_
      exact fun events h => argument_mul_delegateArguments he.tight
        ⟨events, h, [], ⟨.nothing, nil_mem_clears⟩, List.append_nil events⟩
  | cons e' es ih =>
      obtain ⟨he, hes⟩ := List.forall_mem_cons.mp hes
      rw [join_cons_cons, List.append_assoc, List.append_assoc, List.singleton_append] at hc
      have hround := @completesAt_argument _ _ _ _ ',' .comma _ _ (by decide) (by decide) _ he hlevels
        (fun d hd => completesAt_commaMore hd) hc
      refine RepeatsAt.mono (RepeatsAt.more (hround.imp ?_) fun d hd => ih hes hd)
        (argument_mul_delegateArguments he.tight)
      rintro again d ⟨rfl, hd⟩
      exact ⟨rfl, length_ahead_of_comma (Print.extends_expression he (isApart_cons (by decide) _)
        (.refl _)) hc hd, hd⟩

/-- Arguments in parentheses, with nothing but a comma between each two. -/
theorem completesAt_delegateArguments {levels : Nat} {es : List Text}
    (hes : ∀ x ∈ es, x.IsExpression options) (hlevels : 127 ≤ levels)
    (hc : c.StandsAt source ('(' :: (Text.join [','] es ++ ')' :: u))) :
    (arguments (Enclosed.within levels)).CompletesAt c
      (single .openArguments * (delegateArguments source es * single .closeArguments))
      fun _ d => d.StandsAt source u := by
  rw [arguments]
  refine @CompletesAt.expect_bind _ _ _ _ _ _ '(' .openParen _ _ hc (by decide) fun d hd =>
    (CompletesAt.emit_single (Q := fun _ d => d.StandsAt source (Text.join [','] es ++ ')' :: u))
      Event.openArguments _ hd).bind fun _ d hd => CompletesAt.cursor_bind ?_
  have hclosed {d : Cursor} (hd : d.StandsAt source (')' :: u)) :
      (do
        let paren ← expect .closeParen ")"
        emit (.closeArguments paren.toSpan) : Reading Unit).CompletesAt d (single .closeArguments)
        fun _ d => d.StandsAt source u :=
    @CompletesAt.expect_bind _ _ _ _ _ _ ')' .closeParen _ _ hd (by decide) fun _ hd =>
      CompletesAt.emit_single Event.closeArguments _ hd
  cases es with
  | nil =>
      have hkind := @kind_mark _ _ _ ')' .closeParen hd (by decide)
      refine CompletesAt.ite_false (by simp [Cursor.isAt, hkind]) (CompletesAt.mono (hclosed hd) ?_)
      exact fun es h => ⟨[], ⟨.nothing, nil_mem_clears⟩, es, h, rfl⟩
  | cons e es =>
      have hkind : d.here.kind ≠ .closeParen := by
        obtain ⟨v, hv, hjoin⟩ : ∃ v, IsApart v ∧ Text.join [','] (e :: es) ++ ')' :: u = e ++ v := by
          cases es with
          | nil => exact ⟨_, isApart_cons (by decide) u, rfl⟩
          | cons e' es =>
              exact ⟨_, @isApart_cons ',' (by decide) _, by rw [join_cons_cons, List.append_assoc,
                List.append_assoc, List.singleton_append]⟩
        have hopens := opens_of_expression (hes e List.mem_cons_self) hv (hjoin ▸ hd)
        intro hkind
        simp [endsExpression, hkind] at hopens
      exact CompletesAt.ite_true (by simp [Cursor.isAt, hkind])
        ((repeatsAt_delegateArguments hes hlevels hd).repeatWhile.bind fun _ d hd => hclosed hd)

end Reading

end CodeFrames
