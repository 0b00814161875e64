import CodeFrames.Proofs.Rereading.Members

/-!
# Parsing undoes printing

The source that some elements are printed as is read member by member.  With enough nesting levels to
go the events are those of the elements and nothing is warned about; a reading with fewer levels does
the same unless it stops because the nesting is too deep.
-/

namespace CodeFrames

open Token Sentence Text Plain

namespace Reading

variable {options : Options} {source u name : Text} {width : Option Nat} {c : Cursor} {inner : Enclosed}
  {L : Language Event} {elements : Block}

/-! ## Members in a row -/

theorem noElse_nil : NoElse [] := by
  intro p hp
  obtain rfl : p = symbol .endOfInput [] := by simpa [symbols, symbolsFrom] using hp.symm
  decide

theorem memberRound_end (hc : c.StandsAt source []) :
    RepeatsAt (memberRound inner) c 1 (·.StandsAt source []) := by
  have hfaces : c.Faces [symbol .endOfInput []] := hc.faces
  have hend : c.here.isEnd = true := by
    rw [show c.here.isEnd = c.here.bare.isEnd from rfl, hfaces.here_eq]
    rfl
  exact .last (CompletesAt.here_bind (CompletesAt.ite_true hend (CompletesAt.pure ⟨rfl, hc⟩)))

theorem completesAt_memberRound {Q : Cursor → Prop} (hend : c.here.isEnd = false)
    (hcomments : c.comments = []) (h : (member inner).CompletesAt c L fun _ => Q) :
    (memberRound inner).CompletesAt c L fun again d => again = true ∧ Q d := by
  rw [CompletesAt, memberRound_of_member hend hcomments]
  exact h.bind_silent fun _ _ hd => CompletesAt.pure ⟨rfl, hd⟩

/-- What stands behind the first of some elements. -/
theorem exists_behind_first {e : Element}
    (hstarts : ∀ e ∈ elements, ∀ u, StartsElement (Print.element name e ++ u)) :
    ∃ u, printed name (e :: elements) = Print.element name e ++ u ∧ NoElse u ∧
      ∀ source (c : Cursor), c.StandsAt source u → c.StandsAt source (printed name elements) := by
  cases elements with
  | nil => exact ⟨[], (List.append_nil _).symm, noElse_nil, fun _ _ hc => hc⟩
  | cons e' es =>
      refine ⟨' ' :: printed name (e' :: es), ?_, ?_, fun _ _ hc => hc.of_blank⟩
      · rw [printed, List.map_cons, List.map_cons, join_cons_cons, List.append_assoc]
        rfl
      · obtain ⟨v, hv⟩ := exists_join_cons [' '] (Print.element name e') (es.map (Print.element name))
        have hstart := (hstarts e' List.mem_cons_self v).noElse
        rw [printed, List.map_cons, hv]
        exact hstart

/-- With enough nesting levels to go the members of a source are read back, one in each round. -/
theorem rereads_printed (hmembers : ∀ e ∈ elements, RereadsMember name e)
    (hcloses : ∀ e ∈ elements, ∀ u, Text.Closes (Print.element name e ++ u) u)
    (hstarts : ∀ e ∈ elements, ∀ u, StartsElement (Print.element name e ++ u)) :
    ∀ᶠ levels in Filter.atTop, ∀ source width (c : Cursor), c.StandsAt source (printed name elements) →
      RepeatsAt (memberRound (Enclosed.within levels)) c (listed source width elements)
        (·.StandsAt source []) := by
  induction elements with
  | nil =>
      refine Filter.Eventually.of_forall fun levels source width c hc => ?_
      refine RepeatsAt.mono (memberRound_end hc) ?_
      rintro _ rfl
      exact nil_mem_listed
  | cons e es ih =>
      obtain ⟨hmember, hmembers⟩ := List.forall_mem_cons.mp hmembers
      obtain ⟨hcloses, hmoreCloses⟩ := List.forall_mem_cons.mp hcloses
      obtain ⟨hstart, hstarts⟩ := List.forall_mem_cons.mp hstarts
      obtain ⟨u, hprinted, hu, hbehind⟩ := @exists_behind_first _ _ e hstarts
      filter_upwards [hmember, ih hmembers hmoreCloses hstarts] with levels hone hrest source width c hc
      rw [hprinted] at hc
      have hend : c.here.isEnd = false := by
        obtain ⟨p, rest, hsymbols, hkind, -⟩ := hstart u
        have hfaces := hc.faces
        rw [hsymbols] at hfaces
        simp [isEnd, kind_of_faces hfaces, hkind]
      have hround := completesAt_memberRound hend hc.comments_eq (hone source width c u hu hc)
      refine RepeatsAt.mono (RepeatsAt.more (hround.imp ?_) fun d hd => hrest source width d (hbehind _ _ hd))
        (stated_mul_listed e es)
      rintro again d ⟨rfl, hd⟩
      exact ⟨rfl, length_ahead_of_closes hc hd (hcloses u), hd⟩

end Reading

/-! ## The whole conversion -/

variable {options : Options} {name : Text} {elements : Block}

/-- An assembly that accepts some events accepts those it starts with. -/
theorem Assembly.exists_run_of_prefix {a b : Assembly} {events all : List Event} (hall : events <+: all)
    (h : a.run all = .ok b) : ∃ c, a.run events = .ok c := by
  obtain ⟨more, rfl⟩ := hall
  rw [run_append] at h
  cases hrun : a.run events with
  | error e => simp [hrun, Except.error_bind] at h
  | ok c => exact ⟨c, rfl⟩

/-- Converting the source that elements without documentation are printed as gives these elements and
no warnings, unless they are nested too deep. -/
theorem convert_printed (hname : name.IsIdentifier) (h : Plain.Elements options false true elements)
    (hdeep : ∀ line, convert options (printed name elements) ≠ .error (.faultySource ⟨line, .nestedTooDeep⟩)) :
    convert options (printed name elements) = .ok ⟨elements, []⟩ := by
  obtain ⟨ps, hps⟩ := spells_printed hname h
  obtain ⟨c, hc, hread⟩ := exists_start hps
  have hrereads := Reading.rereads_printed (Reading.rereadsMember_elements hname h)
    (Print.closes_elements hname h) (Reading.startsElement_elements h)
  obtain ⟨levels, hlevels, hrounds⟩ := ((Filter.eventually_ge_atTop nestingLimit).and hrereads).exists
  -- The members are read with as many levels as they take, and with fewer by what is below this.
  obtain ⟨events, u, d, hrun, ⟨hitems, hclear⟩, -⟩ :
      (Reading.members (Enclosed.within levels)).CompletesAt c
        (Reading.listed (printed name elements) options.commentWidth elements) fun _ _ => True := by
    refine (hrounds _ _ c hc).repeatWhile.bind_silent fun _ d hd => ?_
    exact ⟨[], (), d, Reading.reportComments_of_nil hd.comments_eq, Language.nil_mem_one, trivial⟩
  rcases Reading.below_members (Enclosed.below_within hlevels) c with hsame | ⟨fewer, line, hstop, hall⟩
  · rw [hsame, hrun] at hread
    exact convert_of_items hread hitems hclear
  · rw [hstop] at hread
    rw [hrun] at hall
    obtain ⟨comment, hassembled | ⟨-, event, hmem, hconflict⟩⟩ :=
      @Assembly.leads_sentence _ options _ _ _ hitems
    · obtain ⟨a, hfewer⟩ := Assembly.exists_run_of_prefix hall hassembled
      refine absurd ?_ (hdeep line)
      simp [convert, hread, hfewer, Except.ok_bind, Except.map]
    · exact absurd (hclear event hmem) hconflict

/-- A constructor that calls another one, a method and an abstract method. -/
def constructorAndMethods : Block :=
  [.constructor none .publicAccess [⟨.type "int".toList, .name "x".toList⟩] [] (some ⟨.this, .expression []⟩)
      [.returnValue none],
    .method none .privateAccess true false (.type "void".toList) (.name "f".toList) [] [] [.jump .breakLoop],
    .abstractMethod none .protectedAccess (.type "int".toList) (.name "g".toList) [] []]

theorem isIdentifier_of_symbol {w : Text} (hw : symbols w = [symbol .word w, symbol .endOfInput []])
    (hidentifier : (symbol .word w).isIdentifier = true) : w.IsIdentifier :=
  ⟨spells_iff.mpr ⟨hw, by simp [symbol]⟩, hidentifier⟩

theorem isType_of_primitive {w : Text} (hw : w ∈ primitiveTypes) : w.IsType := by
  have hall : ∀ w ∈ primitiveTypes, w.all (fun c => ¬ isBlank c) ∧
      symbols w = [symbol .word w, symbol .endOfInput []] ∧ (symbol .word w).isPrimitive ∧
      angles (symbol .word w) = [symbol .word w] ∧ w ≠ "record".toList := by decide
  obtain ⟨hblank, hsymbols, hprimitive, hangles, hrecord⟩ := hall w hw
  have htight : w.IsTight := ⟨fun c hc => forall_mem_of_all hblank c (List.mem_of_head? hc),
    fun c hc => forall_mem_of_all hblank c (List.mem_of_getLast? hc)⟩
  refine ⟨htight, [symbol .word w], spells_iff.mpr ⟨hsymbols, by simp [symbol]⟩, ?_, ?_⟩
  · rw [List.flatMap_singleton, hangles]
    exact .primitive hprimitive .nothing
  · intro p hp
    obtain rfl := List.mem_singleton.mp hp
    exact decide_eq_false hrecord

theorem elements_constructorAndMethods (options : Options) (everywhere : Bool) :
    Plain.Elements options everywhere true constructorAndMethods := by
  have hint : Text.IsType "int".toList := isType_of_primitive (by decide)
  refine .constructor .publicAccess ?_ (by simp [AreTypes]) ?_ (.statement .returned .nil)
    (.method .privateAccess true false (isType_of_primitive (by decide))
      (isIdentifier_of_symbol (by decide) (by decide)) (by simp) (by simp [AreTypes])
      (.statement (.jump .breakLoop) .nil)
      (.abstractMethod .protectedAccess hint (isIdentifier_of_symbol (by decide) (by decide)) (by simp)
        (by simp [AreTypes]) .nil))
  · simpa using ⟨_, _, rfl, hint, isIdentifier_of_symbol (by decide) (by decide)⟩
  · simpa using ⟨[], rfl, by simp⟩

theorem printed_constructorAndMethods : printed "A".toList constructorAndMethods =
    ("public A(int x) \x7b this(); return; \x7d private static void f() \x7b break; \x7d " ++
      "protected abstract int g();").toList := by
  simp [printed, constructorAndMethods, Print.element, Print.items, Print.block, Print.modifiers,
    Print.parameters, Print.parameter, Print.throwsClause, Print.delegate, Print.flag, Text.join,
    Access.keyword, DelegateTarget.keyword, Jump.keyword, Fragment.type, Fragment.name, Fragment.expression]

theorem convert_printed_constructorAndMethods :
    convert .default (printed "A".toList constructorAndMethods) = .ok ⟨constructorAndMethods, []⟩ := by
  obtain ⟨conversion, h⟩ : ∃ conversion,
      convert .default (printed "A".toList constructorAndMethods) = .ok conversion := by
    rw [printed_constructorAndMethods]
    exact Except.exists_of_isOk (by decide +kernel)
  have hdeep (line : Nat) : convert .default (printed "A".toList constructorAndMethods) ≠
      .error (.faultySource ⟨line, .nestedTooDeep⟩) := by
    rw [h]
    exact nofun
  exact convert_printed (isIdentifier_of_symbol (by decide) (by decide))
    (elements_constructorAndMethods .default false) hdeep

/-! ## Declarations in bodies -/

/-- A method whose body declares another one. -/
def methodInMethod : Block :=
  [.method none .privateAccess false false (.type "void".toList) (.name "f".toList) [] []
    [.abstractMethod none .privateAccess (.type "void".toList) (.name "g".toList) [] []]]

theorem printed_methodInMethod : printed "A".toList methodInMethod =
    "private void f() \x7b private abstract void g(); \x7d".toList := by
  simp [printed, methodInMethod, Print.element, Print.items, Print.block, Print.modifiers,
    Print.parameters, Print.throwsClause, Print.flag, Text.join, Access.keyword, Fragment.type, Fragment.name]

/-- In a body there are statements only, and a declaration that is printed there is not read back. -/
theorem not_convert_printed_everywhere : ¬ ∀ (options : Options) (name : Text) (elements : Block),
    name.IsIdentifier → Plain.Elements options true true elements →
    (∀ line, convert options (printed name elements) ≠ .error (.faultySource ⟨line, .nestedTooDeep⟩)) →
    convert options (printed name elements) = .ok ⟨elements, []⟩ := by
  intro hall
  have hfault : (convert .default (printed "A".toList methodInMethod)).map (fun _ => ()) =
      .error (.faultySource ⟨1, .expected (.symbol ";") (some ['('])⟩) := by
    rw [printed_methodInMethod]
    decide +kernel
  have helements : Plain.Elements .default true true methodInMethod :=
    .method .privateAccess false false (isType_of_primitive (by decide))
      (isIdentifier_of_symbol (by decide) (by decide)) (by simp) (by simp [AreTypes])
      (.abstractMethod .privateAccess (isType_of_primitive (by decide))
        (isIdentifier_of_symbol (by decide) (by decide)) (by simp) (by simp [AreTypes]) .nil) .nil
  have hresult := hall .default "A".toList methodInMethod (isIdentifier_of_symbol (by decide) (by decide))
    helements fun line hdeep => by
      rw [hdeep] at hfault
      cases hfault
  rw [hresult] at hfault
  cases hfault

end CodeFrames
