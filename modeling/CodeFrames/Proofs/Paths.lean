import CodeFrames.Library

/-!
# Paths that name the same source

Following a path leaves names only, behind the root at most, so that a path spelled from its steps comes
down to the same steps again.  A detour in the middle of a path leads nowhere: whatever was in front of
it, the steps are the same behind it.  A library keeps one source for the steps of a path.
-/

namespace CodeFrames

namespace Path

/-! ## Names -/

/-- A piece of a path that leads into a directory. -/
def IsName (t : Text) : Prop := t ≠ [] ∧ t ≠ ['.'] ∧ t ≠ ['.', '.'] ∧ '/' ∉ t

instance (t : Text) : Decidable (IsName t) :=
  inferInstanceAs (Decidable (t ≠ [] ∧ t ≠ ['.'] ∧ t ≠ ['.', '.'] ∧ '/' ∉ t))

theorem follow_name {t : Text} (h : IsName t) (steps : List Step) :
    follow steps t = .name t :: steps := by
  obtain ⟨hne, hdot, hup, -⟩ := h
  simp [follow, stays, isUp, hne, hdot, hup]

theorem foldl_follow_names {names : List Text} (h : ∀ t ∈ names, IsName t) (steps : List Step) :
    names.foldl follow steps = (names.map Step.name).reverse ++ steps := by
  induction names generalizing steps with
  | nil => rfl
  | cons t names ih =>
      obtain ⟨ht, hnames⟩ := List.forall_mem_cons.mp h
      rw [List.foldl_cons, follow_name ht, ih hnames]
      simp

/-! ## Pieces -/

theorem pieces_of_not_mem {t : Text} (h : '/' ∉ t) : pieces t = [t] := by
  fun_induction pieces t with
  | case1 => rfl
  | case2 t => simp at h
  | case3 c t hc ih => simp [ih fun hmem => h (List.mem_cons_of_mem c hmem), Text.consFirst]

theorem not_mem_of_mem_pieces {t piece : Text} (h : piece ∈ pieces t) : '/' ∉ piece := by
  fun_induction pieces t generalizing piece with
  | case1 => simp_all
  | case2 t ih =>
      rcases List.mem_cons.mp h with rfl | h
      · simp
      · exact ih h
  | case3 c t hc ih =>
      cases hpieces : pieces t with
      | nil => exact absurd hpieces (pieces_ne_nil t)
      | cons first rest =>
          rw [hpieces, Text.consFirst, List.mem_cons] at h
          rcases h with rfl | h
          · have hfirst := ih (hpieces ▸ List.mem_cons_self)
            simpa [eq_comm, hfirst] using hc
          · exact ih (hpieces ▸ List.mem_cons_of_mem first h)

theorem pieces_join {names : List Text} (hne : names ≠ []) (h : ∀ t ∈ names, '/' ∉ t) :
    pieces (Text.join ['/'] names) = names := by
  induction names with
  | nil => exact absurd rfl hne
  | cons t names ih =>
      obtain ⟨ht, hnames⟩ := List.forall_mem_cons.mp h
      cases names with
      | nil => exact pieces_of_not_mem ht
      | cons u names =>
          rw [Text.join, List.append_assoc, List.singleton_append, pieces_append_slash,
            pieces_of_not_mem ht, ih (List.cons_ne_nil u names) hnames, List.singleton_append]
          simp

/-! ## What a path comes down to -/

/-- Names behind the root, or behind nothing. -/
def IsNormal (steps : List Step) : Prop :=
  ∃ (origin : List Step) (names : List Text), steps = origin ++ names.map Step.name ∧
    (origin = [] ∨ origin = [.root]) ∧ ∀ t ∈ names, IsName t

/-- One more piece leaves normal steps, the last one of them being the first of the list. -/
theorem isNormal_follow {steps : List Step} {piece : Text} (h : IsNormal steps.reverse)
    (hpiece : '/' ∉ piece) : IsNormal (follow steps piece).reverse := by
  obtain ⟨origin, names, hsteps, horigin, hnames⟩ := h
  unfold follow
  split
  · exact ⟨origin, names, hsteps, horigin, hnames⟩
  · split
    · rw [← List.dropLast_reverse, hsteps]
      -- Two dots take back the last name; where there is none, they take back the root.
      rcases List.eq_nil_or_concat names with rfl | ⟨before, t, rfl⟩
      · rcases horigin with rfl | rfl <;> exact ⟨[], [], rfl, .inl rfl, by simp⟩
      · refine ⟨origin, before, ?_, horigin, fun t ht => hnames t (by simp [ht])⟩
        rw [List.concat_eq_append, List.map_append, ← List.append_assoc]
        exact List.dropLast_concat
    · next hstays hup =>
        have hname : IsName piece := by
          refine ⟨?_, ?_, ?_, hpiece⟩ <;> rintro rfl <;> simp [stays, isUp] at hstays hup
        refine ⟨origin, names ++ [piece], by simp [hsteps], horigin, ?_⟩
        intro t ht
        rcases List.mem_append.mp ht with ht | ht
        · exact hnames t ht
        · exact List.mem_singleton.mp ht ▸ hname

theorem isNormal_normalize (path : Text) : IsNormal (normalize path) := by
  have hstart : IsNormal (start path).reverse := by
    unfold start
    split
    · exact ⟨[.root], [], rfl, .inr rfl, by simp⟩
    · exact ⟨[], [], rfl, .inl rfl, by simp⟩
  have hpieces : ∀ piece ∈ pieces path, '/' ∉ piece := fun _ => not_mem_of_mem_pieces
  unfold normalize
  generalize start path = steps at hstart
  generalize pieces path = rest at hpieces
  induction rest generalizing steps with
  | nil => exact hstart
  | cons piece rest ih =>
      obtain ⟨hpiece, hrest⟩ := List.forall_mem_cons.mp hpieces
      exact ih _ (isNormal_follow hstart hpiece) hrest

/-- Normal steps are what their spelling comes down to. -/
theorem normalize_spell {steps : List Step} (h : IsNormal steps) : normalize (spell steps) = steps := by
  obtain ⟨origin, names, rfl, horigin, hnames⟩ := h
  have hslash : ∀ t ∈ names, '/' ∉ t := fun t ht => (hnames t ht).2.2.2
  have htexts : (names.map Step.name).map Step.text = names := by
    rw [List.map_map]
    exact List.map_id names
  cases names with
  | nil => rcases horigin with rfl | rfl <;> decide
  | cons t names =>
      have hjoined := pieces_join (List.cons_ne_nil t names) hslash
      rcases horigin with rfl | rfl
      · have hspell : spell ([] ++ (t :: names).map Step.name) = Text.join ['/'] (t :: names) := by
          rw [List.nil_append, List.map_cons, spell]
          · rw [← List.map_cons, htexts]
          · simp
        have hstart : start (Text.join ['/'] (t :: names)) = [] := by
          -- The first name is not empty, and it does not begin with a slash.
          obtain ⟨c, rest, rfl⟩ := List.exists_cons_of_ne_nil (hnames t List.mem_cons_self).1
          have hc : c ≠ '/' := by
            rintro rfl
            exact hslash _ List.mem_cons_self List.mem_cons_self
          cases names <;> simp [Text.join, start, hc]
        rw [hspell, normalize, hjoined, hstart, foldl_follow_names hnames]
        simp
      · have hspell : spell ([.root] ++ (t :: names).map Step.name) =
            '/' :: Text.join ['/'] (t :: names) := by
          rw [List.singleton_append, List.map_cons, spell]
          · rw [← List.map_cons, List.map_cons, htexts]
            rfl
          · simp
        rw [hspell, normalize, pieces, hjoined, List.foldl_cons, start]
        simp only [follow, stays, decide_true, Bool.true_or, if_true]
        rw [foldl_follow_names hnames]
        simp

/-! ## Detours -/

/-- The steps behind a slash go on from those in front of it; what stands behind does not matter for
where the path starts. -/
theorem normalize_append_slash (s t : Text) :
    normalize (s ++ '/' :: t) =
      ((pieces t).foldl follow ((pieces s).foldl follow (start (s ++ ['/'])))).reverse := by
  have hstart : start (s ++ '/' :: t) = start (s ++ ['/']) := by
    cases s with
    | nil => rfl
    | cons c s => by_cases hc : c = '/' <;> simp [start, hc]
  rw [normalize, pieces_append_slash, List.foldl_append, hstart]

/-- Pieces in the middle of a path that lead back to where they began can be left out. -/
theorem normalize_detour (detour : Text) (h : ∀ steps, (pieces detour).foldl follow steps = steps)
    (s t : Text) : normalize (s ++ '/' :: (detour ++ '/' :: t)) = normalize (s ++ '/' :: t) := by
  rw [normalize_append_slash, normalize_append_slash, pieces_append_slash, List.foldl_append, h]

theorem foldl_follow_up {name : Text} (h : IsName name) (steps : List Step) :
    (pieces (name ++ '/' :: ['.', '.'])).foldl follow steps = steps := by
  rw [pieces_append_slash, pieces_of_not_mem h.2.2.2, List.foldl_append, List.foldl_cons,
    follow_name h]
  rfl

end Path

/-! ## Libraries -/

namespace Library

def insertAll (l : Library) (inserts : List (Text × Text)) : Library :=
  inserts.foldl (fun l i => l.insert i.1 i.2) l

/-- The latest of some insertions under a spelling of a path is what is found there. -/
theorem read?_insertAll (l : Library) (inserts : List (Text × Text)) (path : Text) :
    (l.insertAll inserts).read? path =
      ((inserts.reverse.find? fun i => Path.normalize i.1 = Path.normalize path).map Prod.snd).or
        (l.read? path) := by
  induction inserts generalizing l with
  | nil => rfl
  | cons i inserts ih =>
      rw [insertAll, List.foldl_cons, ← insertAll, ih, read?_insert, List.reverse_cons,
        List.find?_append, List.find?_singleton]
      cases hlater : inserts.reverse.find? fun i => Path.normalize i.1 = Path.normalize path with
      | some later => simp
      | none =>
          by_cases h : Path.normalize i.1 = Path.normalize path
          · simp [h]
          · simp [h, Ne.symm h]

/-- A library is a map whose keys are the steps of paths: what is read is the latest text that was
inserted under a path with the same steps, and nothing exactly where there was no such path.  The steps
of a path are its normal form, and a dot, a second slash, or a name with two dots behind it can be left
out after any slash, whatever stands around it. -/
theorem read?_of_inserts (inserts : List (Text × Text)) (path : Text) :
    (∀ text, (empty.insertAll inserts).read? path = some text ↔
      ∃ earlier other later, inserts = earlier ++ (other, text) :: later ∧
        Path.normalize other = Path.normalize path ∧
        ∀ i ∈ later, Path.normalize i.1 ≠ Path.normalize path) ∧
    ((empty.insertAll inserts).read? path = none ↔
      ∀ i ∈ inserts, Path.normalize i.1 ≠ Path.normalize path) ∧
    Path.normalize (Path.spell (Path.normalize path)) = Path.normalize path ∧
    ∀ a b x : Text, Path.IsName x →
      Path.normalize (a ++ "/./".toList ++ b) = Path.normalize (a ++ "/".toList ++ b) ∧
      Path.normalize (a ++ "//".toList ++ b) = Path.normalize (a ++ "/".toList ++ b) ∧
      Path.normalize (a ++ "/".toList ++ x ++ "/../".toList ++ b) =
        Path.normalize (a ++ "/".toList ++ b) := by
  refine ⟨fun text => ?_, ?_, Path.normalize_spell (Path.isNormal_normalize path), ?_⟩
  · rw [read?_insertAll, read?_empty, Option.or_none, Option.map_eq_some_iff]
    constructor
    · rintro ⟨⟨other, found⟩, hfind, rfl⟩
      obtain ⟨hsame, later, earlier, hinserts, hlater⟩ := List.find?_eq_some_iff_append.mp hfind
      refine ⟨earlier.reverse, other, later.reverse, ?_, of_decide_eq_true hsame, ?_⟩
      · rw [← List.reverse_reverse inserts, hinserts]
        simp
      · intro i hi
        simpa using hlater i (List.mem_reverse.mp hi)
    · rintro ⟨earlier, other, later, rfl, hsame, hlater⟩
      refine ⟨(other, text), List.find?_eq_some_iff_append.mpr ?_, rfl⟩
      refine ⟨decide_eq_true hsame, later.reverse, earlier.reverse, by simp, ?_⟩
      intro i hi
      simpa using hlater i (List.mem_reverse.mp hi)
  · rw [read?_insertAll, read?_empty, Option.or_none, Option.map_eq_none_iff, List.find?_eq_none]
    simp
  · intro a b x hx
    refine ⟨?_, ?_, ?_⟩
    · simpa using Path.normalize_detour ['.'] (fun _ => rfl) a b
    · simpa using Path.normalize_detour [] (fun _ => rfl) a b
    · simpa using Path.normalize_detour _ (Path.foldl_follow_up hx) a b

/-- Two insertions under spellings of one path, and one under another path behind them. -/
def shapeInserts : List (Text × Text) :=
  [("/src/./Shape.java".toList, "first".toList),
    ("/src/util/../Shape.java".toList, "second".toList), ("src/Shape.java".toList, "other".toList)]

/-- The second insertion replaces the first one and not the third, and the detour is one behind two
dots that climb above the start of the path, too. -/
theorem read?_of_inserts_shape :
    (empty.insertAll shapeInserts).read? "//src/Shape.java".toList = some "second".toList ∧
      (∀ i ∈ [("src/Shape.java".toList, "other".toList)],
        Path.normalize i.1 ≠ Path.normalize "//src/Shape.java".toList) ∧
      Path.IsName "util".toList ∧
      Path.normalize ("a/../..".toList ++ "/".toList ++ "util".toList ++ "/../".toList ++ "b".toList) =
        Path.normalize ("a/../..".toList ++ "/".toList ++ "b".toList) := by
  obtain ⟨hread, -, -, hdetour⟩ := read?_of_inserts shapeInserts "//src/Shape.java".toList
  have hlater : ∀ i ∈ [("src/Shape.java".toList, "other".toList)],
      Path.normalize i.1 ≠ Path.normalize "//src/Shape.java".toList := by decide
  have hname : Path.IsName "util".toList := by decide
  refine ⟨(hread _).mpr ?_, hlater, hname, (hdetour _ _ _ hname).2.2⟩
  exact ⟨shapeInserts.take 1, "/src/util/../Shape.java".toList, shapeInserts.drop 2, rfl, by decide,
    hlater⟩

end Library

end CodeFrames
