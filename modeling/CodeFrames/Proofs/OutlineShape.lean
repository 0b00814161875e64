import CodeFrames.Outline
import CodeFrames.Proofs.Assignments
import CodeFrames.Proofs.CommentLines
import CodeFrames.Proofs.Slices

/-!
# The shape of an outline

In pre-order, each element of a frame has a head, and so has each further branch, each delegate call and
each line of a documentation.  An outline shows the heads one after the other, each behind two blanks for
every block around it.  A head takes up one line and one more for each line feed in the fragments that it
shows: the outline shows fragments as they stand in the source.
-/

namespace CodeFrames

open Text

/-! ## Heads -/

/-- What an outline has a line for. -/
inductive OutlineHead where
  | documentation (line : Text)
  | element (e : Element)
  | delegate (d : Delegate)
  | elseIf (condition : Fragment)
  | otherwise

namespace OutlineHead

def text : OutlineHead → Text
  | .documentation line => trimEnd ('#' :: ' ' :: line)
  | .element e => Outline.head e
  | .delegate d => Outline.joined [d.kind.keyword, "(", Outline.str d.arguments, ")"]
  | .elseIf condition => Outline.joined ["else if ", Outline.str condition]
  | .otherwise => "else".toList

def ofDocumentation (documentation : Option Text) : List OutlineHead :=
  (lines (documentation.getD [])).map .documentation

def ofDelegate (delegate : Option Delegate) : List OutlineHead := delegate.toList.map .delegate

end OutlineHead

/-- The fragments that stand in the head of an element. -/
def Element.headFragments : Element → List Fragment
  | .ifChain condition _ _ _ _ => [condition]
  | .whileLoop condition _ => [condition]
  | .returnValue value => value.toList
  | .call expression => [expression]
  | .assign target value => [target, value]
  | .localVariable _ type name value => type :: name :: value.toList
  | .jump _ => []
  | .throwValue expression => [expression]
  | .method _ _ _ _ returnType name parameters throws _ =>
      returnType :: name :: (parameters.flatMap (fun p => [p.type, p.name]) ++ throws)
  | .abstractMethod _ _ returnType name parameters throws =>
      returnType :: name :: (parameters.flatMap (fun p => [p.type, p.name]) ++ throws)
  | .constructor _ _ parameters throws _ _ =>
      parameters.flatMap (fun p => [p.type, p.name]) ++ throws

def OutlineHead.fragments : OutlineHead → List Fragment
  | .element e => e.headFragments
  | .delegate d => [d.arguments]
  | .elseIf condition => [condition]
  | .documentation _ | .otherwise => []

mutual

/-- The heads of an element and of everything in it, in pre-order, each with the number of blocks around
it. -/
def Element.heads (depth : Nat) : Element → List (Nat × OutlineHead)
  | .ifChain condition thenBlock conditions blocks elseBlock =>
      (depth, .element (.ifChain condition thenBlock conditions blocks elseBlock)) ::
        (blockHeads (depth + 1) thenBlock ++
          (branchHeads depth conditions blocks ++ elseHeads depth elseBlock))
  | .whileLoop condition body =>
      (depth, .element (.whileLoop condition body)) :: blockHeads (depth + 1) body
  | .method documentation access isStatic isFinal returnType name parameters throws body =>
      (OutlineHead.ofDocumentation documentation).map (depth, ·) ++
        (depth, .element
          (.method documentation access isStatic isFinal returnType name parameters throws body)) ::
          blockHeads (depth + 1) body
  | .abstractMethod documentation access returnType name parameters throws =>
      (OutlineHead.ofDocumentation documentation).map (depth, ·) ++
        [(depth, .element (.abstractMethod documentation access returnType name parameters throws))]
  | .constructor documentation access parameters throws delegate body =>
      (OutlineHead.ofDocumentation documentation).map (depth, ·) ++
        (depth, .element (.constructor documentation access parameters throws delegate body)) ::
          ((OutlineHead.ofDelegate delegate).map (depth + 1, ·) ++ blockHeads (depth + 1) body)
  | e => [(depth, .element e)]

def blockHeads (depth : Nat) : List Element → List (Nat × OutlineHead)
  | [] => []
  | e :: es => e.heads depth ++ blockHeads depth es

def branchHeads (depth : Nat) : List Fragment → List (List Element) → List (Nat × OutlineHead)
  | condition :: conditions, block :: blocks =>
      (depth, .elseIf condition) ::
        (blockHeads (depth + 1) block ++ branchHeads depth conditions blocks)
  | _, _ => []

def elseHeads (depth : Nat) : Option (List Element) → List (Nat × OutlineHead)
  | none => []
  | some block => (depth, .otherwise) :: blockHeads (depth + 1) block

end

namespace Outline

/-- A head behind two blanks for each block around it. -/
def shown (head : Nat × OutlineHead) : Text := line head.1 head.2.text

theorem documentation_eq (depth : Nat) (text : Option Text) :
    documentation depth text = ((OutlineHead.ofDocumentation text).map (depth, ·)).map shown := by
  simp [documentation, OutlineHead.ofDocumentation, shown, OutlineHead.text, Function.comp_def]

theorem delegateLine_eq (depth : Nat) (delegate : Option Delegate) :
    delegateLine depth delegate = ((OutlineHead.ofDelegate delegate).map (depth, ·)).map shown := by
  cases delegate <;> rfl

mutual

theorem element_eq (depth : Nat) : ∀ e : Element, element depth e = (e.heads depth).map shown
  | .ifChain condition thenBlock conditions blocks elseBlock => by
      simp only [element, Element.heads, block_eq, branches_eq, otherwise_eq, List.map_cons,
        List.map_append]
      simp [shown, OutlineHead.text]
  | .whileLoop condition body => by
      simp only [element, Element.heads, block_eq, List.map_cons]
      rfl
  | .method documentation access isStatic isFinal returnType name parameters throws body => by
      simp only [element, Element.heads, block_eq, documentation_eq, List.map_append, List.map_cons]
      rfl
  | .abstractMethod documentation access returnType name parameters throws => by
      simp only [element, Element.heads, documentation_eq, List.map_append]
      rfl
  | .constructor documentation access parameters throws delegate body => by
      simp only [element, Element.heads, block_eq, documentation_eq, delegateLine_eq, List.map_append,
        List.map_cons]
      rfl
  | .returnValue value => rfl
  | .call expression => rfl
  | .assign target value => rfl
  | .localVariable isFinal type name value => rfl
  | .jump jump => rfl
  | .throwValue expression => rfl

theorem block_eq (depth : Nat) : ∀ es : List Element, block depth es = (blockHeads depth es).map shown
  | [] => rfl
  | e :: es => by rw [block, blockHeads, List.map_append, element_eq, block_eq]

theorem branches_eq (depth : Nat) : ∀ (conditions : List Fragment) (blocks : List (List Element)),
    branches depth conditions blocks = (branchHeads depth conditions blocks).map shown
  | condition :: conditions, body :: bodies => by
      simp only [branches, branchHeads, block_eq, branches_eq, List.map_cons, List.map_append]
      simp [shown, OutlineHead.text]
  | [], _ => by simp [branches, branchHeads]
  | _ :: _, [] => by simp [branches, branchHeads]

theorem otherwise_eq (depth : Nat) : ∀ elseBlock : Option (List Element),
    otherwise depth elseBlock = (elseHeads depth elseBlock).map shown
  | none => rfl
  | some body => by
      simp only [otherwise, elseHeads, block_eq, List.map_cons]
      rfl

end

/-- The lines of an outline are the heads of the frame. -/
theorem outline_eq (elements : Block) :
    outline elements = (blockHeads 0 elements).flatMap fun head => shown head ++ ['\n'] := by
  rw [outline, outlineLines, block_eq, List.flatMap_map]

end Outline

/-! ## Line feeds -/

namespace Text

def lineFeeds (t : Text) : Nat := t.count '\n'

@[simp] theorem lineFeeds_nil : lineFeeds [] = 0 := rfl

@[simp] theorem lineFeeds_append (s t : Text) : lineFeeds (s ++ t) = lineFeeds s + lineFeeds t :=
  List.count_append

theorem lineFeeds_cons (c : Char) (t : Text) :
    lineFeeds (c :: t) = lineFeeds t + if c = '\n' then 1 else 0 := by
  simp [lineFeeds, List.count_cons]

theorem lineFeeds_flatMap {α : Type} (f : α → Text) (xs : List α) :
    lineFeeds (xs.flatMap f) = (xs.map fun x => lineFeeds (f x)).sum := by
  simp [lineFeeds, List.count_flatMap, Function.comp_def]

theorem lineFeeds_intercalate {separator : Text} (h : lineFeeds separator = 0) (ts : List Text) :
    lineFeeds (separator.intercalate ts) = (ts.map lineFeeds).sum := by
  induction ts with
  | nil => rfl
  | cons t ts ih =>
      cases ts with
      | nil => simp
      | cons u ts => rw [List.intercalate_cons_cons, lineFeeds_append, lineFeeds_append, h, ih]; simp

end Text

namespace Outline

/-- The line feeds of fragments, taken together. -/
def feeds (fs : List Fragment) : Nat := (fs.map fun f => lineFeeds f.text).sum

@[simp] theorem feeds_nil : feeds [] = 0 := rfl

@[simp] theorem feeds_cons (f : Fragment) (fs : List Fragment) :
    feeds (f :: fs) = lineFeeds f.text + feeds fs := rfl

@[simp] theorem feeds_append (fs gs : List Fragment) : feeds (fs ++ gs) = feeds fs + feeds gs := by
  simp [feeds]

theorem lineFeeds_joined (parts : List String) :
    lineFeeds (joined parts) = (parts.map fun part => lineFeeds part.toList).sum := by
  rw [joined, String.toList_join, lineFeeds_flatMap]

@[simp] theorem lineFeeds_str (f : Fragment) : lineFeeds (str f).toList = lineFeeds f.text := by
  rw [str, String.toList_ofList]

theorem lineFeeds_assigned (value : Option Fragment) :
    lineFeeds (assigned value).toList = feeds value.toList := by
  cases value with
  | none => rfl
  | some value => simp [assigned, String.toList_append, lineFeeds_cons]

theorem feeds_parameters (parameters : List Parameter) :
    feeds (parameters.flatMap fun p => [p.type, p.name]) =
      (parameters.map fun p => lineFeeds p.type.text + lineFeeds p.name.text).sum := by
  induction parameters with
  | nil => rfl
  | cons p parameters ih =>
      simp only [List.flatMap_cons, feeds_append, feeds_cons, feeds_nil, ih, List.map_cons, List.sum_cons]
      omega

theorem lineFeeds_signature (parameters : List Parameter) (throws : List Fragment) :
    lineFeeds (signature parameters throws).toList =
      feeds (parameters.flatMap (fun p => [p.type, p.name]) ++ throws) := by
  have hcomma : lineFeeds ", ".toList = 0 := by decide
  have hparameters : lineFeeds (", ".intercalate
      (parameters.map fun p => str p.type ++ " " ++ str p.name)).toList =
      feeds (parameters.flatMap fun p => [p.type, p.name]) := by
    rw [String.toList_intercalate, lineFeeds_intercalate hcomma, feeds_parameters]
    simp [Function.comp_def, String.toList_append, lineFeeds_cons]
  have hthrows : lineFeeds (", ".intercalate (throws.map str)).toList = feeds throws := by
    rw [String.toList_intercalate, lineFeeds_intercalate hcomma]
    simp [Function.comp_def, feeds]
  rw [feeds_append, ← hparameters, ← hthrows]
  unfold signature
  cases throws with
  | nil => simp [String.toList_append, lineFeeds_cons]
  | cons f throws => simp [String.toList_append, lineFeeds_cons]

theorem lineFeeds_flag (isSet : Bool) {word : String} (h : lineFeeds word.toList = 0) :
    lineFeeds (flag isSet word).toList = 0 := by
  cases isSet
  · rfl
  · exact h

theorem lineFeeds_keyword (access : Access) : lineFeeds access.keyword.toList = 0 := by
  cases access <;> decide

/-- The head of an element has the line feeds of the fragments in it. -/
theorem lineFeeds_head (e : Element) : lineFeeds (head e) = feeds e.headFragments := by
  have hfinal (isSet : Bool) : lineFeeds (flag isSet "final ").toList = 0 :=
    lineFeeds_flag isSet (by decide)
  have hflags (isStatic isFinal : Bool) : lineFeeds (flag isStatic " static").toList = 0 ∧
      lineFeeds (flag isFinal " final").toList = 0 :=
    ⟨lineFeeds_flag isStatic (by decide), lineFeeds_flag isFinal (by decide)⟩
  cases e with
  | call expression => rfl
  | jump jump => cases jump <;> decide
  | returnValue value =>
      cases value with
      | none => decide
      | some value => simp [head, lineFeeds_joined, Element.headFragments, lineFeeds_cons]
  | localVariable isFinal type name value =>
      simp [head, lineFeeds_joined, Element.headFragments, lineFeeds_cons, lineFeeds_assigned, hfinal]
  | method documentation access isStatic isFinal returnType name parameters throws body =>
      simp [head, lineFeeds_joined, Element.headFragments, lineFeeds_cons, lineFeeds_signature,
        lineFeeds_keyword, hflags isStatic isFinal]
  | abstractMethod documentation access returnType name parameters throws =>
      simp [head, lineFeeds_joined, Element.headFragments, lineFeeds_cons, lineFeeds_signature,
        lineFeeds_keyword]
  | constructor documentation access parameters throws delegate body =>
      simp [head, lineFeeds_joined, Element.headFragments, lineFeeds_cons, lineFeeds_signature,
        lineFeeds_keyword]
  | ifChain | whileLoop | assign | throwValue =>
      simp [head, lineFeeds_joined, Element.headFragments, lineFeeds_cons]

end Outline

/-! ## Where heads come from -/

/-- A head of one of the elements or of a part of one; a line of a documentation is unbroken. -/
inductive OutlineHead.ComesFrom (es : List Element) : OutlineHead → Prop
  | documentation {line} : '\n' ∉ line → ComesFrom es (.documentation line)
  | element {e} : e ∈ es → ComesFrom es (.element e)
  | delegate (d) : ComesFrom es (.delegate d)
  | elseIf (condition) : ComesFrom es (.elseIf condition)
  | otherwise : ComesFrom es .otherwise

namespace OutlineHead

theorem ComesFrom.mono {es fs : List Element} {head : OutlineHead} (h : head.ComesFrom es)
    (hsubset : es ⊆ fs) : head.ComesFrom fs := by
  cases h with
  | documentation hline => exact .documentation hline
  | element he => exact .element (hsubset he)
  | delegate d => exact .delegate d
  | elseIf condition => exact .elseIf condition
  | otherwise => exact .otherwise

theorem comesFrom_documentation (es : List Element) (depth : Nat) (text : Option Text) :
    ∀ p ∈ (ofDocumentation text).map (depth, ·), p.2.ComesFrom es := by
  intro p hp
  obtain ⟨head, hhead, rfl⟩ := List.mem_map.mp hp
  obtain ⟨line, hline, rfl⟩ := List.mem_map.mp hhead
  exact .documentation (Comment.not_mem_of_lines line hline)

theorem comesFrom_delegate (es : List Element) (depth : Nat) (delegate : Option Delegate) :
    ∀ p ∈ (ofDelegate delegate).map (depth, ·), p.2.ComesFrom es := by
  intro p hp
  obtain ⟨head, hhead, rfl⟩ := List.mem_map.mp hp
  obtain ⟨d, -, rfl⟩ := List.mem_map.mp hhead
  exact .delegate d

end OutlineHead

namespace Outline

mutual

theorem comesFrom_heads (depth : Nat) : ∀ e : Element, ∀ p ∈ e.heads depth, p.2.ComesFrom e.postOrder
  | .ifChain condition thenBlock conditions blocks elseBlock => by
      simp only [Element.heads, Element.postOrder, List.forall_mem_cons, List.forall_mem_append]
      refine ⟨.element (by simp), ?_, ?_, ?_⟩
      · exact fun p hp => (comesFrom_block (depth + 1) thenBlock p hp).mono (by simp)
      · exact fun p hp => (comesFrom_branches depth conditions blocks p hp).mono (by simp)
      · exact fun p hp => (comesFrom_else depth elseBlock p hp).mono fun f hf => by simp [hf]
  | .whileLoop condition body => by
      simp only [Element.heads, Element.postOrder, List.forall_mem_cons]
      exact ⟨.element (by simp), fun p hp => (comesFrom_block (depth + 1) body p hp).mono (by simp)⟩
  | .method documentation access isStatic isFinal returnType name parameters throws body => by
      simp only [Element.heads, Element.postOrder, List.forall_mem_cons, List.forall_mem_append]
      refine ⟨OutlineHead.comesFrom_documentation _ depth documentation, .element (by simp), ?_⟩
      exact fun p hp => (comesFrom_block (depth + 1) body p hp).mono (by simp)
  | .abstractMethod documentation access returnType name parameters throws => by
      simp only [Element.heads, Element.postOrder, List.forall_mem_append]
      exact ⟨OutlineHead.comesFrom_documentation _ depth documentation,
        List.forall_mem_singleton.mpr (.element (by simp))⟩
  | .constructor documentation access parameters throws delegate body => by
      simp only [Element.heads, Element.postOrder, List.forall_mem_cons, List.forall_mem_append]
      refine ⟨OutlineHead.comesFrom_documentation _ depth documentation, .element (by simp),
        OutlineHead.comesFrom_delegate _ (depth + 1) delegate, ?_⟩
      exact fun p hp => (comesFrom_block (depth + 1) body p hp).mono (by simp)
  | .returnValue value => List.forall_mem_singleton.mpr (.element List.mem_cons_self)
  | .call expression => List.forall_mem_singleton.mpr (.element List.mem_cons_self)
  | .assign target value => List.forall_mem_singleton.mpr (.element List.mem_cons_self)
  | .localVariable isFinal type name value =>
      List.forall_mem_singleton.mpr (.element List.mem_cons_self)
  | .jump jump => List.forall_mem_singleton.mpr (.element List.mem_cons_self)
  | .throwValue expression => List.forall_mem_singleton.mpr (.element List.mem_cons_self)

theorem comesFrom_block (depth : Nat) :
    ∀ es : List Element, ∀ p ∈ blockHeads depth es, p.2.ComesFrom (blockPostOrder es)
  | [] => nofun
  | e :: es => by
      simp only [blockHeads, blockPostOrder, List.forall_mem_append]
      exact ⟨fun p hp => (comesFrom_heads depth e p hp).mono (by simp),
        fun p hp => (comesFrom_block depth es p hp).mono (by simp)⟩

theorem comesFrom_branches (depth : Nat) : ∀ (conditions : List Fragment) (blocks : List (List Element)),
    ∀ p ∈ branchHeads depth conditions blocks, p.2.ComesFrom (branchesPostOrder blocks)
  | condition :: conditions, block :: blocks => by
      simp only [branchHeads, branchesPostOrder, List.forall_mem_cons, List.forall_mem_append]
      exact ⟨.elseIf condition, fun p hp => (comesFrom_block (depth + 1) block p hp).mono (by simp),
        fun p hp => (comesFrom_branches depth conditions blocks p hp).mono (by simp)⟩
  | [], _ => by simp [branchHeads]
  | _ :: _, [] => by simp [branchHeads]

theorem comesFrom_else (depth : Nat) : ∀ elseBlock : Option (List Element),
    ∀ p ∈ elseHeads depth elseBlock, p.2.ComesFrom (elsePostOrder elseBlock)
  | none => nofun
  | some block => by
      simp only [elseHeads, elsePostOrder, List.forall_mem_cons]
      exact ⟨.otherwise, comesFrom_block (depth + 1) block⟩

end

end Outline

namespace OutlineHead

theorem lineFeeds_text {es : List Element} {head : OutlineHead} (h : head.ComesFrom es) :
    lineFeeds head.text = Outline.feeds head.fragments := by
  cases h with
  | @documentation line hline =>
      refine List.count_eq_zero.mpr fun hmem => ?_
      have hsubset : trimEnd ('#' :: ' ' :: line) ⊆ '#' :: ' ' :: line := by
        intro c hc
        exact List.mem_reverse.mp (Comment.subset_trimStart _ (List.mem_reverse.mp hc))
      simpa [hline] using hsubset hmem
  | element he => exact Outline.lineFeeds_head _
  | delegate d =>
      have hkeyword : lineFeeds d.kind.keyword.toList = 0 := by cases d.kind <;> decide
      simp [text, fragments, Outline.lineFeeds_joined, hkeyword, lineFeeds_cons]
  | elseIf condition => simp [text, fragments, Outline.lineFeeds_joined, lineFeeds_cons]
  | otherwise => decide

end OutlineHead

/-! ## What heads start with -/

namespace Text

/-- The text starts with a character that is not blank. -/
def Unindented (t : Text) : Prop := ∃ c u, t = c :: u ∧ isBlank c = false

theorem unindented_of_tight {t : Text} (hne : t ≠ []) (h : t.IsTight) : t.Unindented := by
  obtain ⟨c, u, rfl⟩ := List.exists_cons_of_ne_nil hne
  exact ⟨c, u, rfl, by simpa using h.1 c rfl⟩

theorem Unindented.append {t : Text} (h : t.Unindented) (u : Text) : (t ++ u).Unindented := by
  obtain ⟨c, v, rfl, hc⟩ := h
  exact ⟨c, v ++ u, rfl, hc⟩

/-- A first character that is not blank is left where blanks are cut off at the end. -/
theorem Unindented.trimEnd {t : Text} (h : t.Unindented) : (trimEnd t).Unindented := by
  obtain ⟨c, u, rfl, hc⟩ := h
  rw [Text.trimEnd, trimStart, List.reverse_cons, List.dropWhile_append, List.dropWhile_cons, hc]
  split
  · exact ⟨c, [], rfl, hc⟩
  · exact ⟨c, (u.reverse.dropWhile isBlank).reverse, by simp, hc⟩

end Text

namespace Outline

theorem unindented_joined {part : String} (h : Unindented part.toList) (parts : List String) :
    (joined (part :: parts)).Unindented := by
  rw [joined, String.toList_join, List.flatMap_cons]
  exact h.append _

theorem unindented_keyword (access : Access) : Unindented access.keyword.toList := by
  cases access <;> exact ⟨_, _, rfl, by decide⟩

end Outline

/-- The fragment that stands first in the head of an element. -/
def Element.opening? : Element → Option Fragment
  | .call expression => some expression
  | .assign target _ => some target
  | _ => none

theorem Outline.unindented_head {e : Element} (h : ∀ f ∈ e.opening?, f.text.Unindented) :
    (head e).Unindented := by
  cases e with
  | call expression => exact h expression rfl
  | assign target value => exact unindented_joined (by simpa [str] using h target rfl) _
  | ifChain | whileLoop | throwValue => exact unindented_joined ⟨_, _, rfl, by decide⟩ _
  | returnValue value =>
      cases value with
      | none => exact ⟨_, _, rfl, by decide⟩
      | some value => exact unindented_joined ⟨_, _, rfl, by decide⟩ _
  | localVariable isFinal type name value =>
      cases isFinal with
      | false => exact @unindented_joined "var " ⟨_, _, rfl, by decide⟩ _
      | true => exact unindented_joined ⟨_, _, rfl, by decide⟩ _
  | jump jump => cases jump <;> exact ⟨_, _, rfl, by decide⟩
  | method _ access | abstractMethod _ access | constructor _ access =>
      exact unindented_joined (unindented_keyword access) _

theorem OutlineHead.unindented_text {es : List Element} {head : OutlineHead} (h : head.ComesFrom es)
    (hes : ∀ e ∈ es, ∀ f ∈ e.opening?, f.text.Unindented) : head.text.Unindented := by
  cases h with
  | @documentation line _ =>
      have hmark : Text.Unindented ('#' :: ' ' :: line) := ⟨_, _, rfl, by decide⟩
      exact hmark.trimEnd
  | element he => exact Outline.unindented_head (hes _ he)
  | delegate d =>
      exact Outline.unindented_joined (by cases d.kind <;> exact ⟨_, _, rfl, by decide⟩) _
  | elseIf condition => exact Outline.unindented_joined ⟨_, _, rfl, by decide⟩ _
  | otherwise => exact ⟨_, _, rfl, by decide⟩

/-! ## The elements of a converted source -/

section Converted

open Token

/-- What is cut out between two bounds starts with a token and ends with one. -/
theorem Cursor.Bounds.exists_cut {source : Text} {tokens : List Token} {start : Cursor}
    {first last : Span} (h : start.Bounds first last) (hlex : lex source = .ok tokens)
    (hstart : Cursor.ofTokens tokens = some start) :
    ∃ ps, Cut ps ∧ ps ≠ [] ∧ Text.slice? source first.start last.stop = some (spelled ps) := by
  obtain ⟨c, d, ⟨passed, htokens, -⟩, ⟨inside, hne, hinside, hbefore⟩, hsettled, rfl, rfl⟩ := h
  rw [Cursor.tokens_of_ofTokens hstart] at htokens
  have hlast : inside = inside.dropLast ++ [d.before] := by
    rw [hbefore, List.getLastD_eq_getLast?, List.getLast?_eq_some_getLast hne, Option.getD_some,
      List.dropLast_append_getLast]
  have hsplit : c.here :: c.ahead = inside.dropLast ++ d.before :: d.here :: d.ahead := by
    have hbehind : inside ++ d.tokens = inside.dropLast ++ d.before :: d.tokens := by
      conv_lhs => rw [hlast]
      simp
    exact hinside.trans hbehind
  obtain ⟨whole, hwhole, rfl, hplaced⟩ := exists_placed_of_lex hlex
  obtain ⟨before, ps, after, rfl, hcut, hps, hslice, -⟩ :=
    hplaced.cut hwhole htokens hsplit (.inl hsettled)
  refine ⟨ps, hcut, ?_, hslice⟩
  rintro rfl
  simp at hps

namespace Assembly

variable {options : Options} {source : Text} {conversion : Conversion}

/-- The text that is handed over at the end of an expression of a source starts with a token and ends
with one. -/
theorem exists_cut_of_handed {earlier later : List Event} {last : Span} {isEmpty : Bool} {a : Assembly}
    {text : Text} (hread : (readEvents source).2 = .ok ())
    (hevents : (readEvents source).1 = earlier ++ .closeExpression last isEmpty :: later)
    (hrun : (start source options).run earlier = .ok a) (hhanded : a.handed? last isEmpty = some text) :
    ∃ ps, Cut ps ∧ ps ≠ [] ∧ text = spelled ps := by
  obtain ⟨tokens, htokens⟩ := exists_lex_of_readEvents hread
  obtain ⟨c, hc, hframed⟩ := framed_of_lex htokens hread
  obtain ⟨rfl, first, outer, hopened, hbounds⟩ := hframed.exists_opened hevents []
  have howns := owns_run hrun (show Owns [] [] from trivial)
  rw [hopened] at howns
  have hslice := slice?_of_handed howns hhanded
  rw [(follows_run hrun).source_eq] at hslice
  obtain ⟨ps, hcut, hne, hcutout⟩ := hbounds.exists_cut htokens hc
  exact ⟨ps, hcut, hne, Option.some.inj (hslice.symm.trans hcutout)⟩

theorem exists_met_of_convert (h : convert options source = .ok conversion) {e : Element}
    (he : e ∈ blockPostOrder conversion.elements) :
    ∃ earlier event later a, (readEvents source).1 = earlier ++ event :: later ∧
      (start source options).run earlier = .ok a ∧ a.completed? event = some e := by
  obtain ⟨-, comment, hrun⟩ := exists_run_of_convert h
  exact exists_met_of_finish hrun (finish_updated _ _ _ _ _) he

theorem unindented_of_statementElement {ps : List Token} (hcut : Cut ps) (hne : ps ≠ []) :
    ∀ f ∈ (statementElement (CodeFrames.withSubtypeOperator (spelled ps))).opening?, f.text.Unindented := by
  intro f hf
  unfold statementElement at hf
  split at hf
  · next target value hsides =>
      obtain rfl : .expression target = f := Option.some.inj hf
      unfold assignmentSides? at hsides
      split at hsides
      · cases hsides
      · split at hsides
        · cases hsides
        · dsimp only at hsides
          split at hsides
          · cases hsides
          · next htarget =>
              obtain ⟨rfl, -⟩ := by simpa using hsides
              exact unindented_of_tight (fun hnil => htarget (List.isEmpty_iff.mpr hnil)) (isTight_trim _)
  · obtain rfl := Option.some.inj hf
    rw [hcut.pieced.withSubtypeOperator]
    refine unindented_of_tight (fun hnil => ?_) (hcut.pieced.isTight_shown hcut.tight)
    obtain ⟨p, ps, rfl⟩ := List.exists_cons_of_ne_nil hne
    have hempty : p.text ++ spelled ps = [] := hcut.pieced.shown_eq_nil.mp hnil
    exact hcut.pieced.text_ne_nil p List.mem_cons_self (List.append_eq_nil_iff.mp hempty).1

/-- The first fragment of an element starts with a character that is not blank. -/
theorem unindented_of_convert (h : convert options source = .ok conversion) :
    ∀ e ∈ blockPostOrder conversion.elements, ∀ f ∈ e.opening?, f.text.Unindented := by
  intro e he f hf
  obtain ⟨earlier, event, later, a, hevents, hrun, hcompleted⟩ := exists_met_of_convert h he
  rcases cases_of_completed? hcompleted with
    ⟨last, isEmpty, text, rfl, hhanded, rfl⟩ | ⟨last, chain, below, -, -, hfinish⟩ | hother
  · obtain ⟨ps, hcut, hne, rfl⟩ :=
      exists_cut_of_handed (exists_run_of_convert h).1 hevents hrun hhanded
    exact unindented_of_statementElement hcut hne f hf
  · obtain ⟨_, _, _, _, _, rfl, -⟩ := exists_ifChain_of_finish hfinish
    cases hf
  · cases e with
    | call | assign => cases hother
    | _ => cases hf

/-- Each further condition of a chain has its block. -/
theorem length_of_ifChain (h : convert options source = .ok conversion) {condition : Fragment}
    {thenBlock : List Element} {conditions : List Fragment} {blocks : List (List Element)}
    {elseBlock : Option (List Element)}
    (he : .ifChain condition thenBlock conditions blocks elseBlock ∈ blockPostOrder conversion.elements) :
    conditions.length = blocks.length := by
  obtain ⟨earlier, event, later, a, -, hrun, hcompleted⟩ := exists_met_of_convert h he
  rcases cases_of_completed? hcompleted with
    ⟨last, isEmpty, text, -, -, hstatement⟩ | ⟨last, chain, below, -, hhandlers, hfinish⟩ | hother
  · unfold statementElement at hstatement
    split at hstatement <;> cases hstatement
  · have hpaired : chain.Paired :=
      sound_of_run hrun (.chain chain) (by rw [hhandlers]; exact List.mem_cons_self)
    obtain ⟨_, _, _, _, _, heq, hlength⟩ := exists_ifChain_of_finish hfinish
    cases heq
    exact hlength hpaired
  · cases hother

end Assembly

end Converted

/-! ## The lines of an outline -/

namespace Outline

theorem lineFeeds_shown {es : List Element} {head : Nat × OutlineHead} (h : head.2.ComesFrom es) :
    lineFeeds (shown head) = feeds head.2.fragments := by
  rw [shown, line, lineFeeds_append, OutlineHead.lineFeeds_text h, lineFeeds,
    List.count_replicate, if_neg (by decide), Nat.zero_add]

theorem exists_cons_shown {head : Nat × OutlineHead} (h : head.2.text.Unindented) :
    ∃ c t, isBlank c = false ∧ shown head = List.replicate (2 * head.1) ' ' ++ c :: t := by
  obtain ⟨c, t, htext, hc⟩ := h
  exact ⟨c, t, hc, by rw [shown, line, htext]⟩

theorem feeds_eq_zero {fs : List Fragment} (h : ∀ f ∈ fs, '\n' ∉ f.text) : feeds fs = 0 := by
  induction fs with
  | nil => rfl
  | cons f fs ih =>
      obtain ⟨hf, hfs⟩ := List.forall_mem_cons.mp h
      rw [feeds_cons, ih hfs, lineFeeds, List.count_eq_zero.mpr hf]

/-- Lines, each with its line feed, are found again where none is broken. -/
theorem splitOn_flatMap {ls : List Text} (h : ∀ l ∈ ls, '\n' ∉ l) :
    (ls.flatMap (· ++ ['\n'])).splitOn '\n' = ls ++ [[]] := by
  induction ls with
  | nil => rfl
  | cons l ls ih =>
      obtain ⟨hl, hls⟩ := List.forall_mem_cons.mp h
      have hline : l.splitOn '\n' = [l] := by
        simpa using
          List.splitOn_intercalate '\n' (List.forall_mem_singleton.mpr hl) (List.cons_ne_nil l [])
      rw [List.flatMap_cons, List.append_assoc, List.singleton_append, List.splitOn_append_cons_self, hline,
        ih hls]
      rfl

end Outline

open Outline

/-- An outline shows the heads of the elements in pre-order, each behind two blanks for each block around
it, and a head starts with a character that is not blank.  The line feeds of a head are those of its
fragments.  So the heads are the lines of the outline if no fragment in them takes up several lines. -/
theorem outline_of_convert {options : Options} {source : Text} {conversion : Conversion}
    (h : convert options source = .ok conversion) :
    outline conversion.elements =
      (blockHeads 0 conversion.elements).flatMap (fun head => shown head ++ ['\n']) ∧
    (∀ head ∈ blockHeads 0 conversion.elements,
      (∃ c t, isBlank c = false ∧ shown head = List.replicate (2 * head.1) ' ' ++ c :: t) ∧
      lineFeeds (shown head) = feeds head.2.fragments) ∧
    (∀ condition thenBlock conditions blocks elseBlock,
      .ifChain condition thenBlock conditions blocks elseBlock ∈ blockPostOrder conversion.elements →
        conditions.length = blocks.length) ∧
    ((∀ head ∈ blockHeads 0 conversion.elements, ∀ f ∈ head.2.fragments, '\n' ∉ f.text) →
      (outline conversion.elements).splitOn '\n' =
        (blockHeads 0 conversion.elements).map shown ++ [[]]) := by
  have hheads (head) (hhead : head ∈ blockHeads 0 conversion.elements) :
      head.2.ComesFrom (blockPostOrder conversion.elements) :=
    comesFrom_block 0 conversion.elements head hhead
  refine ⟨outline_eq conversion.elements, fun head hhead => ⟨?_, lineFeeds_shown (hheads head hhead)⟩,
    fun _ _ _ _ _ => Assembly.length_of_ifChain h, fun hlines => ?_⟩
  · exact exists_cons_shown
      (OutlineHead.unindented_text (hheads head hhead) (Assembly.unindented_of_convert h))
  · rw [outline, outlineLines, block_eq]
    refine splitOn_flatMap fun l hl => ?_
    obtain ⟨head, hhead, rfl⟩ := List.mem_map.mp hl
    exact List.count_eq_zero.mp
      ((lineFeeds_shown (hheads head hhead)).trans (feeds_eq_zero (hlines head hhead)))

/-- Every head of the elements stands on one line. -/
def showsPlainHeads (elements : Block) : Bool :=
  (blockHeads 0 elements).all fun head => head.2.fragments.all fun f => !f.text.contains '\n'

/-- A documentation, a chain with all its branches and a call of another constructor. -/
def chainInConstructor : Text :=
  "/** Sets up. */ A() { this(1); if (a) x(); else if (b) return; else { z = 2; } }".toList

theorem outline_of_convert_chain : ∃ conversion, convert .default chainInConstructor = .ok conversion ∧
    (outline conversion.elements).splitOn '\n' = (blockHeads 0 conversion.elements).map shown ++ [[]] ∧
    (blockHeads 0 conversion.elements).map shown = ["# Sets up.".toList,
      "protected constructor()".toList, "  this(1)".toList, "  if a".toList, "    x()".toList,
      "  else if b".toList, "    return".toList, "  else".toList, "    z = 2".toList] := by
  obtain ⟨conversion, hconversion, hshown⟩ : ∃ conversion,
      convert .default chainInConstructor = .ok conversion ∧
        (showsPlainHeads conversion.elements, (blockHeads 0 conversion.elements).map shown) =
          (true, ["# Sets up.".toList,
            "protected constructor()".toList, "  this(1)".toList, "  if a".toList, "    x()".toList,
            "  else if b".toList, "    return".toList, "  else".toList, "    z = 2".toList]) :=
    Except.exists_of_map_eq (by decide +kernel)
  obtain ⟨hplain, hlines⟩ := Prod.mk.inj hshown
  refine ⟨conversion, hconversion, (outline_of_convert hconversion).2.2.2 fun head hhead f hf => ?_, hlines⟩
  have hfragment := List.all_eq_true.mp (List.all_eq_true.mp hplain head hhead) f hf
  simpa using hfragment

/-- An argument on a line of its own breaks the head of its call. -/
theorem not_outline_line_per_head : ¬ ∀ (options : Options) (source : Text) (conversion : Conversion),
    convert options source = .ok conversion → (outline conversion.elements).splitOn '\n' =
      (blockHeads 0 conversion.elements).map shown ++ [[]] := by
  intro hall
  obtain ⟨conversion, hconversion, hlines⟩ : ∃ conversion,
      convert .default "f(a,\n  b);".toList = .ok conversion ∧
        ((outline conversion.elements).splitOn '\n', (blockHeads 0 conversion.elements).map shown) =
          (["f(a,".toList, "  b)".toList, []], ["f(a,\n  b)".toList]) :=
    Except.exists_of_map_eq (by decide +kernel)
  obtain ⟨hsplit, hshown⟩ := Prod.mk.inj hlines
  have heq := hall _ _ _ hconversion
  rw [hsplit, hshown] at heq
  exact absurd heq (by decide)

end CodeFrames
