import Mathlib.Order.Filter.AtTopBot.Basic
import CodeFrames.Proofs.Rereading.Calls

/-!
# Reading statements with blocks back

A statement is read back with as many nesting levels to go as it takes, so what is shown holds from
some number of levels on.  Behind an if chain no `else` may stand; no element starts with one.
-/

namespace CodeFrames

open scoped Computability
open Sentence Text

/-! ## What is reported -/

namespace Reading

variable (source : Text) (width : Option Nat)

/-- A block in braces. -/
def braced (body : Block) : Language Event :=
  single .openBlock * (listed source width body * single .closeBlock)

def branched (conditions : List Fragment) (blocks : List Block) : Language Event :=
  {es | Branches source width es conditions blocks [] ∧ es ∈ clears source}

def otherwised (elseBlock : Option Block) : Language Event :=
  {es | Otherwise source width es elseBlock [] ∧ es ∈ clears source}

variable {source width} {e : Text} {body : Block} {otherwise : Option Block} {conditions : List Fragment}
  {blocks : List Block}

theorem nil_mem_listed : [] ∈ listed source width [] := ⟨.nothing, nil_mem_clears⟩

theorem stated_mul_listed (e : Element) (es : Block) :
    stated source width e * listed source width es ≤ listed source width (e :: es) := by
  rintro _ ⟨first, ⟨h, hclear⟩, more, ⟨g, gclear⟩, rfl⟩
  exact ⟨.statement h g, append_mem_clears hclear gclear⟩

theorem single_mem_clears_of {event : Event} (h : event.modifiers = []) : [event] ∈ clears source :=
  single_mem_clears (accessClear_of_modifiers h)

theorem exists_of_braced {es : List Event} (h : es ∈ braced source width body) :
    ∃ first last events, es = .openBlock first :: (events ++ [.closeBlock last]) ∧
      events ∈ listed source width body ∧ es ∈ clears source := by
  obtain ⟨_, ⟨first, rfl⟩, _, ⟨events, hevents, _, ⟨last, rfl⟩, rfl⟩, rfl⟩ := h
  exact ⟨first, last, events, rfl, hevents, append_mem_clears (single_mem_clears_of rfl)
    (append_mem_clears hevents.2 (single_mem_clears_of rfl))⟩

/-- Behind a condition that nothing warns about no comment is dropped. -/
theorem items_kept {comment : Option Text} {events : List Event}
    (h : Items source width comment events body []) :
    Items source width (kept [] comment) events body [] := by rwa [kept, if_pos rfl]

theorem whileLoop_le_stated :
    single .openWhile * (expressed source e * (braced source width body * single .closeWhile)) ≤
      stated source width (.whileLoop (.expression e) body) := by
  rintro _ ⟨_, ⟨keyword, rfl⟩, _, ⟨condition, hcondition, _, ⟨_, hbraced, _, ⟨closing, rfl⟩, rfl⟩, rfl⟩, rfl⟩
  obtain ⟨first, last, events, rfl, ⟨h, -⟩, hclear⟩ := exists_of_braced hbraced
  have hwhole : Statement source width none _ _ _ :=
    .whileLoop keyword first last closing hcondition (items_kept h)
  refine ⟨by simpa using hwhole, append_mem_clears (single_mem_clears_of rfl)
    (append_mem_clears (clears_of_expressed hcondition)
      (append_mem_clears hclear (single_mem_clears_of rfl)))⟩

theorem ifChain_le_stated :
    single .openIf * (expressed source e * (braced source width body *
      (branched source width conditions blocks * otherwised source width otherwise * single .closeIf))) ≤
      stated source width (.ifChain (.expression e) body conditions blocks otherwise) := by
  rintro _ ⟨_, ⟨keyword, rfl⟩, _, ⟨condition, hcondition, _, ⟨_, hbraced, _, ⟨_, ⟨branches, ⟨hbranches, hfurther⟩,
    final, ⟨hfinal, hlast⟩, rfl⟩, _, ⟨closing, rfl⟩, rfl⟩, rfl⟩, rfl⟩, rfl⟩
  obtain ⟨first, last, events, rfl, ⟨h, -⟩, hclear⟩ := exists_of_braced hbraced
  have hwhole : Statement source width none _ _ _ :=
    .ifChain keyword first last closing hcondition (items_kept h) hbranches hfinal
  refine ⟨by simpa using hwhole, append_mem_clears (single_mem_clears_of rfl)
    (append_mem_clears (clears_of_expressed hcondition) (append_mem_clears hclear
      (append_mem_clears (append_mem_clears hfurther hlast) (single_mem_clears_of rfl))))⟩

theorem nil_mem_branched : [] ∈ branched source width [] [] := ⟨.nothing, nil_mem_clears⟩

theorem elseIf_le_branched :
    single .elseIf * (expressed source e * braced source width body) *
      branched source width conditions blocks ≤
      branched source width (.expression e :: conditions) (body :: blocks) := by
  rintro _ ⟨_, ⟨_, ⟨keyword, rfl⟩, _, ⟨condition, hcondition, _, hbraced, rfl⟩, rfl⟩, rest,
    ⟨hrest, hfurther⟩, rfl⟩
  obtain ⟨first, last, events, rfl, ⟨h, -⟩, hclear⟩ := exists_of_braced hbraced
  have hwhole := Branches.elseIf keyword first last hcondition h hrest
  refine ⟨by simpa using hwhole, append_mem_clears (append_mem_clears (single_mem_clears_of rfl)
    (append_mem_clears (clears_of_expressed hcondition) hclear)) hfurther⟩

theorem nil_mem_otherwised : [] ∈ otherwised source width none := ⟨.nothing, nil_mem_clears⟩

theorem otherwise_le_otherwised :
    single .otherwise * braced source width body ≤ otherwised source width (some body) := by
  rintro _ ⟨_, ⟨keyword, rfl⟩, _, hbraced, rfl⟩
  obtain ⟨first, last, events, rfl, ⟨h, -⟩, hclear⟩ := exists_of_braced hbraced
  exact ⟨.otherwise keyword first last h, append_mem_clears (single_mem_clears_of rfl) hclear⟩

/-! ## Blocks -/

variable {name t u : Text} {c : Cursor} {L : Language Event} {options : Options}

/-- The text does not go on with a further branch. -/
def NoElse (u : Text) : Prop := ∀ p ∈ (Token.symbols u).head?, p.isWord "else".toList = false

/-- With enough nesting levels to go the statement is read back wherever it stands. -/
def Rereads (name : Text) (e : Element) : Prop :=
  ∀ᶠ levels in Filter.atTop, ∀ source width (c : Cursor) u, NoElse u →
    c.StandsAt source (Print.element name e ++ u) →
    (statement (Enclosed.within levels)).CompletesAt c (stated source width e)
      fun _ d => d.StandsAt source u

/-- With enough nesting levels to go the elements of a block are read back, one in each round. -/
def RereadsAll (name : Text) (body : Block) : Prop :=
  ∀ᶠ levels in Filter.atTop, ∀ source width (c : Cursor) u,
    c.StandsAt source (Print.items name body ++ ([' ', '}'] ++ u)) →
    RepeatsAt (blockRound (Enclosed.within levels)) c (listed source width body)
      (·.StandsAt source ('}' :: u))

theorem noElse_mark {ch : Char} {kind : Token.Kind} (hmark : (ch, kind) ∈ Token.marks) (u : Text) :
    NoElse (ch :: u) := by
  have hall : ∀ m ∈ Token.marks, m.2 ≠ .word := by decide
  intro p hp
  rw [symbols_mark hmark] at hp
  obtain rfl := by simpa using hp
  simp [Token.isWord, Token.symbol, hall _ hmark]

theorem blockRound_end {inner : Enclosed} (hc : c.StandsAt source ('}' :: u)) :
    RepeatsAt (blockRound inner) c 1 (·.StandsAt source ('}' :: u)) := by
  have hkind := @kind_mark _ _ _ '}' .closeBrace hc (by decide)
  exact .last (CompletesAt.here_bind (CompletesAt.ite_true hkind (CompletesAt.pure ⟨rfl, hc⟩)))

theorem blockRound_statement {inner : Enclosed} {Q : Cursor → Prop}
    (hbrace : c.here.kind ≠ .closeBrace) (hend : ¬ c.here.isEnd)
    (h : inner.statement.CompletesAt c L fun _ => Q) :
    (blockRound inner).CompletesAt c L fun again d => again = true ∧ Q d :=
  CompletesAt.here_bind (CompletesAt.ite_false hbrace (CompletesAt.ite_false hend
    (h.bind_silent fun _ _ hd => CompletesAt.pure ⟨rfl, hd⟩)))

theorem length_ahead_of_closes {d : Cursor} (hc : c.StandsAt source t) (hd : d.StandsAt source u)
    (h : Text.Closes t u) : d.ahead.length < c.ahead.length := by
  have hless := h.length_lt
  have hcs := hc.length_ahead
  have hds := hd.length_ahead
  omega

theorem completesAt_blockRest {inner : Enclosed}
    (hrounds : RepeatsAt (blockRound inner) c L (·.StandsAt source ('}' :: u))) :
    (blockRest inner).CompletesAt c (L * single .closeBlock) fun _ d => d.StandsAt source u := by
  refine hrounds.repeatWhile.bind fun _ d hd => ?_
  obtain ⟨-, hadvance⟩ := hd.advance (splits_punctuation (Token.lexeme_mark (show
    ('}', Token.Kind.closeBrace) ∈ Token.marks by decide)) u)
  have hcomments : reportComments.CompletesAt d 1 fun _ e => e = d :=
    ⟨[], (), d, reportComments_of_nil hd.comments_eq, Language.nil_mem_one, rfl⟩
  refine hcomments.silent ?_
  rintro _ _ rfl
  exact CompletesAt.take_bind (CompletesAt.emit_single Event.closeBlock _ hadvance)

theorem completesAt_block {inner : Enclosed}
    (hrounds : ∀ c : Cursor, c.StandsAt source (Print.items name body ++ ([' ', '}'] ++ u)) →
      RepeatsAt (blockRound inner) c (listed source width body) (·.StandsAt source ('}' :: u)))
    (hc : c.StandsAt source (Print.block name body ++ u)) :
    (block inner).CompletesAt c (braced source width body) fun _ d => d.StandsAt source u := by
  rw [Print.block, List.cons_append, List.cons_append, List.append_assoc] at hc
  rw [block]
  exact @CompletesAt.expect_bind _ _ _ _ _ _ '{' .openBrace _ _ hc.of_blank (by decide) fun d hd =>
    (CompletesAt.emit_single Event.openBlock _ hd).bind fun _ d hd =>
      completesAt_blockRest (hrounds d hd)

/-- The body of a branch or a loop. -/
theorem completesAt_body {inner : Enclosed}
    (hrounds : ∀ c : Cursor, c.StandsAt source (Print.items name body ++ ([' ', '}'] ++ u)) →
      RepeatsAt (blockRound inner) c (listed source width body) (·.StandsAt source ('}' :: u)))
    (hc : c.StandsAt source (Print.block name body ++ u)) :
    (Reading.body inner).CompletesAt c (braced source width body) fun _ d => d.StandsAt source u := by
  have hkind : c.here.kind = .openBrace := by
    rw [Print.block] at hc
    exact @kind_mark _ _ _ '{' .openBrace hc.of_blank (by decide)
  exact CompletesAt.cursor_bind (CompletesAt.ite_true (by simp [Cursor.isAt, hkind])
    (completesAt_block hrounds hc))

/-- A condition in parentheses. -/
theorem completesAt_condition {levels : Nat} (he : e.IsExpression options) (hlevels : 127 ≤ levels)
    (hc : c.StandsAt source ('(' :: (e ++ ')' :: u))) :
    (condition (Enclosed.within levels)).CompletesAt c (expressed source e)
      fun _ d => d.StandsAt source u := by
  rw [condition]
  refine @CompletesAt.expect_bind _ _ _ _ _ _ '(' .openParen _ _ hc (by decide) fun d hd =>
    (he.completesAt hlevels hd (isApart_cons (by decide) _)
      (delimits_mark .closeParen (by decide) (by decide) _)).bind_silent fun _ d hd => ?_
  exact @CompletesAt.expect_bind _ _ _ _ _ _ ')' .closeParen _ _ hd (by decide) fun _ hd =>
    CompletesAt.pure hd

/-! ## Further branches -/

theorem symbols_word {w : Text} (hw : Token.symbols w = [Token.symbol .word w, Token.symbol .endOfInput []])
    (hu : IsApart u) : Token.symbols (w ++ u) = Token.symbol .word w :: Token.symbols u :=
  (splits_word hw hu).symbols_eq

theorem isWord_of_bare {p : Token} {w : Text} (h : p.bare = Token.symbol .word w) : p.isWord w = true := by
  rw [← Token.isWord_bare, h]
  simp [Token.isWord, Token.symbol]

theorem completesAt_elseIf {levels : Nat} (he : e.IsExpression options) (hlevels : 127 ≤ levels)
    (hrounds : ∀ c : Cursor, c.StandsAt source (Print.items name body ++ ([' ', '}'] ++ u)) →
      RepeatsAt (blockRound (Enclosed.within levels)) c (listed source width body)
        (·.StandsAt source ('}' :: u)))
    (hc : c.StandsAt source (' ' :: ("else".toList ++ ' ' :: ("if".toList ++ ' ' :: '(' ::
      (e ++ ')' :: (Print.block name body ++ u)))))) :
    (furtherBranch (Enclosed.within levels)).CompletesAt c
      (single .elseIf * (expressed source e * braced source width body))
      fun again d => again = true ∧ d.StandsAt source u := by
  obtain ⟨hhere, hadvance⟩ := advance_word hc.of_blank (by decide) (isApart_cons (by decide) _)
  obtain ⟨hnext, hbehind⟩ := advance_word hadvance.of_blank (by decide) (isApart_cons (by decide) _)
  have hahead : c.ahead ≠ [] := by
    intro hnil
    rw [Cursor.advance, hnil, hhere] at hnext
    exact absurd hnext (by decide)
  have helse : c.isAtWord "else" = true := isWord_of_bare hhere
  have hif : c.nextIs (·.isWord "if".toList) = true := by
    rw [Cursor.nextIs_eq hahead]
    exact isWord_of_bare hnext
  rw [furtherBranch]
  refine CompletesAt.cursor_bind (CompletesAt.ite_false (by simp [helse]) (CompletesAt.ite_true hif
    (CompletesAt.take_bind (CompletesAt.take_bind ?_))))
  refine (CompletesAt.emit_single Event.elseIf _ hbehind.of_blank).bind fun _ d hd =>
    (completesAt_condition he hlevels hd).bind fun _ d hd =>
      (completesAt_body hrounds hd).bind_silent fun _ d hd => CompletesAt.pure ⟨rfl, hd⟩

theorem completesAt_otherwise {inner : Enclosed}
    (hrounds : ∀ c : Cursor, c.StandsAt source (Print.items name body ++ ([' ', '}'] ++ u)) →
      RepeatsAt (blockRound inner) c (listed source width body) (·.StandsAt source ('}' :: u)))
    (hc : c.StandsAt source (' ' :: ("else".toList ++ (Print.block name body ++ u)))) :
    (furtherBranch inner).CompletesAt c (single .otherwise * braced source width body)
      fun again d => again = false ∧ d.StandsAt source u := by
  obtain ⟨hhere, hadvance⟩ := advance_word hc.of_blank (by decide) (Print.isApart_block _ _ _)
  have hbrace := hadvance
  rw [Print.block] at hbrace
  have hkind := @kind_mark _ _ _ '{' .openBrace hbrace.of_blank (by decide)
  have helse : c.isAtWord "else" = true := isWord_of_bare hhere
  have hahead : c.ahead ≠ [] := by
    intro hnil
    rw [Cursor.advance, hnil] at hkind
    rw [Cursor.isAtWord, Token.isWord, hkind] at helse
    cases helse
  have hif : c.nextIs (·.isWord "if".toList) = false := by
    rw [Cursor.nextIs_eq hahead]
    simp [Token.isWord, hkind]
  rw [furtherBranch]
  refine CompletesAt.cursor_bind (CompletesAt.ite_false (by simp [helse]) (CompletesAt.ite_false
    (hif ▸ Bool.false_ne_true) (CompletesAt.take_bind ?_)))
  exact (CompletesAt.emit_single Event.otherwise _ hadvance).bind fun _ d hd =>
    (completesAt_body hrounds hd).bind_silent fun _ d hd => CompletesAt.pure ⟨rfl, hd⟩

theorem completesAt_noElse {inner : Enclosed} (hu : NoElse u) (hc : c.StandsAt source u) :
    (furtherBranch inner).CompletesAt c 1 fun again d => again = false ∧ d.StandsAt source u := by
  have helse : c.isAtWord "else" = false := by
    have htokens : c.tokens.map Token.bare = Token.symbols u := hc.faces.tokens_eq
    rw [Cursor.isAtWord, ← Token.isWord_bare]
    exact hu _ (by rw [← htokens]; rfl)
  rw [furtherBranch]
  exact CompletesAt.cursor_bind (CompletesAt.ite_true (by simp [helse]) (CompletesAt.pure ⟨rfl, hc⟩))

/-! ## Statements with blocks -/

theorem completesAt_whileLoop {levels : Nat} (he : e.IsExpression options) (hlevels : 127 ≤ levels)
    (hrounds : ∀ c : Cursor, c.StandsAt source (Print.items name body ++ ([' ', '}'] ++ u)) →
      RepeatsAt (blockRound (Enclosed.within levels)) c (listed source width body)
        (·.StandsAt source ('}' :: u)))
    (hc : c.StandsAt source (Print.element name (.whileLoop (.expression e) body) ++ u)) :
    (statement (Enclosed.within levels)).CompletesAt c
      (stated source width (.whileLoop (.expression e) body)) fun _ d => d.StandsAt source u := by
  simp only [Print.element, List.append_assoc, List.cons_append] at hc
  refine completesAt_keyword hc (by decide) (show _ = some .whileLoop by decide)
    (isApart_cons (by decide) _) fun hadvance => CompletesAt.mono ?_ whileLoop_le_stated
  exact CompletesAt.take_bind ((CompletesAt.emit_single Event.openWhile _ hadvance.of_blank).bind
    fun _ d hd => (completesAt_condition he hlevels hd).bind fun _ d hd =>
      (completesAt_body hrounds hd).bind fun _ d hd =>
        CompletesAt.before_bind (CompletesAt.emit_single Event.closeWhile _ hd))

theorem completesAt_ifChain {levels : Nat} (he : e.IsExpression options) (hlevels : 127 ≤ levels)
    (hrounds : ∀ (c : Cursor) u, c.StandsAt source (Print.items name body ++ ([' ', '}'] ++ u)) →
      RepeatsAt (blockRound (Enclosed.within levels)) c (listed source width body)
        (·.StandsAt source ('}' :: u)))
    (hfurther : ∀ c : Cursor, c.StandsAt source (Print.branches name conditions blocks ++
        (Print.otherwise name otherwise ++ u)) →
      RepeatsAt (furtherBranch (Enclosed.within levels)) c
        (branched source width conditions blocks * otherwised source width otherwise)
        (·.StandsAt source u))
    (hc : c.StandsAt source
      (Print.element name (.ifChain (.expression e) body conditions blocks otherwise) ++ u)) :
    (statement (Enclosed.within levels)).CompletesAt c
      (stated source width (.ifChain (.expression e) body conditions blocks otherwise))
      fun _ d => d.StandsAt source u := by
  simp only [Print.element, List.append_assoc, List.cons_append] at hc
  refine completesAt_keyword hc (by decide) (show _ = some .ifChain by decide)
    (isApart_cons (by decide) _) fun hadvance => CompletesAt.mono ?_ ifChain_le_stated
  exact CompletesAt.take_bind ((CompletesAt.emit_single Event.openIf _ hadvance.of_blank).bind
    fun _ d hd => (completesAt_condition he hlevels hd).bind fun _ d hd =>
      (completesAt_body (fun c => hrounds c _) hd).bind fun _ d hd =>
        (hfurther d hd).repeatWhile.bind fun _ d hd =>
          CompletesAt.before_bind (CompletesAt.emit_single Event.closeIf _ hd))

/-! ## How elements start -/

/-- The words that no element starts with although something else in a body does. -/
def continuingWords : List Text := ["else".toList, "this".toList, "super".toList]

/-- The text starts with a word that an element can start with. -/
def StartsElement (t : Text) : Prop :=
  ∃ p rest, Token.symbols t = p :: rest ∧ p.kind = .word ∧ p.text ∉ continuingWords

theorem StartsElement.noElse (h : StartsElement t) : NoElse t := by
  obtain ⟨p, rest, hsymbols, -, hword⟩ := h
  intro q hq
  rw [hsymbols] at hq
  obtain rfl := by simpa using hq
  rw [Bool.eq_false_iff]
  intro helse
  exact hword (Token.text_of_isWord helse ▸ by decide)

theorem startsElement_word {w : Text}
    (hw : Token.symbols w = [Token.symbol .word w, Token.symbol .endOfInput []])
    (hword : w ∉ continuingWords) (hu : IsApart u) : StartsElement (w ++ u) :=
  ⟨_, _, symbols_word hw hu, rfl, hword⟩

theorem startsElement_opensType {p : Token} {ps : List Token} (ht : t.Spells (p :: ps))
    (hp : p.opensType = true) (hu : IsApart u) : StartsElement (t ++ u) :=
  ⟨p, _, (ht.splits hu).symbols_eq, Token.kind_of_opensType hp, not_mem_of_opensType hp (by decide)⟩

theorem startsElement_type (ht : t.IsType) (hu : IsApart u) : StartsElement (t ++ u) := by
  obtain ⟨-, ps, hps, hwhole, -⟩ := ht
  obtain ⟨p, rest, rfl, hopens⟩ := TypeName.exists_first_of_whole hwhole
  exact startsElement_opensType hps hopens hu

theorem startsElement_modifiers {words : List Text} (hwords : AreModifiers words)
    (hu : StartsElement u) : StartsElement (Print.modifiers words ++ u) := by
  cases words with
  | nil => exact hu
  | cons w words =>
      have hmem := (hwords w List.mem_cons_self).1
      have hall : ∀ w ∈ Token.modifierWords, w ∉ continuingWords := by decide
      rw [modifiers_cons, List.append_assoc, List.cons_append]
      exact startsElement_word (symbols_of_modifier hmem) (hall w hmem) (isApart_cons (by decide) _)

theorem startsElement_names {names ps : List Token} (h : Plain.DottedName names)
    (ht : t.Spells (names ++ ps)) (hu : IsApart u) : StartsElement (t ++ u) := by
  obtain ⟨p, behind, rfl, hname⟩ := h.exists_first
  exact startsElement_opensType ht (by simp [Token.opensType, Token.isName_of_isIdentifier hname]) hu

theorem startsElement_statement {everywhere : Bool} {element : Element}
    (h : Plain.Statement options everywhere element) (u : Text) :
    StartsElement (Print.element name element ++ u) := by
  cases h <;> simp only [Print.element, List.append_assoc, List.cons_append]
  case call hcall =>
      obtain ⟨-, ps, hps, hnames, -⟩ := hcall
      exact startsElement_names hnames hps (isApart_cons (by decide) _)
  case assign htarget hvalue =>
      obtain ⟨-, ps, hps, hnames, -⟩ := htarget
      exact startsElement_names hnames hps (isApart_cons (by decide) _)
  case localVariable isFinal htype hname =>
      exact startsElement_modifiers (areModifiers_final isFinal)
        (startsElement_type htype (isApart_cons (by decide) _))
  case initialized isFinal htype hname hvalue =>
      exact startsElement_modifiers (areModifiers_final isFinal)
        (startsElement_type htype (isApart_cons (by decide) _))
  case jump jump =>
      cases jump <;> exact startsElement_word (by decide) (by decide) (isApart_cons (by decide) _)
  all_goals exact startsElement_word (by decide) (by decide) (isApart_cons (by decide) _)

theorem areModifiers_declaration (access : Access) {words : List Text}
    (hwords : ∀ w ∈ words, w ∈ ["static".toList, "final".toList, "abstract".toList]) :
    AreModifiers (access.keyword.toList :: words) := by
  have hall : ∀ w ∈ ["static".toList, "final".toList, "abstract".toList],
      w ∈ Token.modifierWords ∧ w ≠ "synchronized".toList := by decide
  have haccess : access.keyword.toList ∈ Token.modifierWords ∧
      access.keyword.toList ≠ "synchronized".toList := by
    cases access <;> decide
  exact List.forall_mem_cons.mpr ⟨haccess, fun w hw => hall w (hwords w hw)⟩

/-- The modifiers of a method with a body, behind its access level. -/
theorem mem_methodFlags {isStatic isFinal : Bool} {w : Text}
    (h : w ∈ Print.flag isStatic "static" ++ Print.flag isFinal "final") :
    w ∈ ["static".toList, "final".toList, "abstract".toList] := by
  have hmem : ∀ isStatic isFinal, ∀ w ∈ Print.flag isStatic "static" ++ Print.flag isFinal "final",
      w ∈ ["static".toList, "final".toList, "abstract".toList] := by decide
  exact hmem isStatic isFinal w h

theorem startsElement_elements {everywhere here : Bool} {body : Block}
    (h : Plain.Elements options everywhere here body) :
    ∀ e ∈ body, ∀ u, StartsElement (Print.element name e ++ u) := by
  cases h with
  | nil => exact fun _ h => (List.not_mem_nil h).elim
  | statement he hes =>
      exact List.forall_mem_cons.mpr ⟨startsElement_statement he, startsElement_elements hes⟩
  | method access isStatic isFinal htype _ _ _ _ hes =>
      refine List.forall_mem_cons.mpr ⟨fun u => ?_, startsElement_elements hes⟩
      simp only [Print.element, List.append_assoc, List.cons_append]
      exact startsElement_modifiers (areModifiers_declaration access fun _ => mem_methodFlags)
        (startsElement_type htype (isApart_cons (by decide) _))
  | abstractMethod access htype _ _ _ hes =>
      refine List.forall_mem_cons.mpr ⟨fun u => ?_, startsElement_elements hes⟩
      simp only [Print.element, List.append_assoc, List.cons_append]
      exact startsElement_modifiers (areModifiers_declaration access (by simp))
        (startsElement_type htype (isApart_cons (by decide) _))
  | constructor access _ _ _ _ hes =>
      refine List.forall_mem_cons.mpr ⟨fun u => ?_, startsElement_elements hes⟩
      have hword := Print.symbols_access access
      have hall : access.keyword.toList ∉ continuingWords := by cases access <;> decide
      simp only [Print.element, Print.modifiers, List.flatMap_cons, List.flatMap_nil, List.append_assoc]
      exact startsElement_word hword hall (isApart_cons (by decide) _)

theorem noElse_items (h : ∀ e ∈ body, ∀ u, StartsElement (Print.element name e ++ u)) (u : Text) :
    NoElse (Print.items name body ++ ([' ', '}'] ++ u)) := by
  cases body with
  | nil =>
      rw [Print.items]
      exact @noElse_mark '}' .closeBrace (by decide) u
  | cons e body =>
      rw [Print.items, List.cons_append, List.append_assoc]
      exact (h e List.mem_cons_self _).noElse

/-! ## Reading statements back -/

theorem eventually_succ {P : Nat → Prop} (h : ∀ᶠ levels in Filter.atTop, P levels) :
    ∀ᶠ levels in Filter.atTop, ∃ fewer, levels = fewer + 1 ∧ P fewer := by
  obtain ⟨n, hn⟩ := Filter.eventually_atTop.mp h
  refine Filter.eventually_atTop.mpr ⟨n + 1, fun levels hlevels => ⟨levels - 1, by omega, ?_⟩⟩
  exact hn _ (by omega)

theorem rereadsAll_nil : RereadsAll name [] := by
  refine Filter.Eventually.of_forall fun levels source width c u hc => ?_
  rw [Print.items] at hc
  refine RepeatsAt.mono (blockRound_end hc.of_blank) ?_
  rintro _ rfl
  exact nil_mem_listed

theorem rereadsAll_cons {element : Element} (he : Rereads name element) (hbody : RereadsAll name body)
    (hcloses : ∀ u, Text.Closes (Print.element name element ++ u) u)
    (hstarts : ∀ u, StartsElement (Print.element name element ++ u))
    (hnext : ∀ e ∈ body, ∀ u, StartsElement (Print.element name e ++ u)) :
    RereadsAll name (element :: body) := by
  filter_upwards [eventually_succ he, hbody] with levels hstatement hrest source width c u hc
  obtain ⟨fewer, rfl, hstatement⟩ := hstatement
  rw [Print.items, List.cons_append, List.append_assoc] at hc
  have hfaces := hc.of_blank.faces
  obtain ⟨p, others, hsymbols, hkind, -⟩ := hstarts (Print.items name body ++ ([' ', '}'] ++ u))
  rw [hsymbols] at hfaces
  have hhere := kind_of_faces hfaces
  rw [hkind] at hhere
  have hrun := hstatement source width c _ (noElse_items hnext u) hc.of_blank
  refine RepeatsAt.mono (RepeatsAt.more (P := (·.StandsAt source (Print.items name body ++ ([' ', '}'] ++ u))))
    ((blockRound_statement (by simp [hhere]) (by simp [Token.isEnd, hhere]) hrun).imp ?_)
    fun d hd => hrest source width d u hd) (stated_mul_listed element body)
  rintro again d ⟨rfl, hd⟩
  exact ⟨rfl, length_ahead_of_closes hc.of_blank hd (hcloses _), hd⟩

/-- The further branches of an if chain are read back in front of whatever a loop goes on with. -/
def RereadsBranches (name : Text) (conditions : List Fragment) (blocks : List Block) : Prop :=
  ∀ᶠ levels in Filter.atTop, ∀ source width (c : Cursor) u (L : Language Event) (Q : Cursor → Prop),
    (∀ d : Cursor, d.StandsAt source u → RepeatsAt (furtherBranch (Enclosed.within levels)) d L Q) →
    c.StandsAt source (Print.branches name conditions blocks ++ u) →
    RepeatsAt (furtherBranch (Enclosed.within levels)) c (branched source width conditions blocks * L) Q

def RereadsOtherwise (name : Text) (otherwise : Option Block) : Prop :=
  ∀ᶠ levels in Filter.atTop, ∀ source width (c : Cursor) u, NoElse u →
    c.StandsAt source (Print.otherwise name otherwise ++ u) →
    RepeatsAt (furtherBranch (Enclosed.within levels)) c (otherwised source width otherwise)
      (·.StandsAt source u)

theorem rereadsBranches_nil : RereadsBranches name [] [] := by
  refine Filter.Eventually.of_forall fun levels source width c u L Q hmore hc => ?_
  rw [Print.branches.eq_def] at hc
  refine RepeatsAt.mono (hmore c hc) fun es hes => ?_
  exact ⟨[], nil_mem_branched, es, hes, rfl⟩

theorem rereadsBranches_cons (he : e.IsExpression options) (hbody : RereadsAll name body)
    (hcloses : ∀ e ∈ body, ∀ u, Text.Closes (Print.element name e ++ u) u)
    (hmore : RereadsBranches name conditions blocks) :
    RereadsBranches name (.expression e :: conditions) (body :: blocks) := by
  filter_upwards [hbody, hmore, Filter.eventually_ge_atTop 127] with levels hrounds hrest hlevels
    source width c u L Q hlast hc
  simp only [Print.branches, List.append_assoc, List.cons_append] at hc
  have hround := completesAt_elseIf he hlevels (hrounds source width · _) hc
  refine RepeatsAt.mono (RepeatsAt.more (P := (·.StandsAt source (Print.branches name conditions blocks ++ u)))
    (hround.imp ?_) fun d hd => hrest source width d u L Q hlast hd) ?_
  · rintro again d ⟨rfl, hd⟩
    exact ⟨rfl, length_ahead_of_closes hc hd (Print.closes_branch he hcloses _), hd⟩
  · rw [← mul_assoc]
    exact mul_le_mul_left elseIf_le_branched L

theorem rereadsOtherwise_none : RereadsOtherwise name none := by
  refine Filter.Eventually.of_forall fun levels source width c u hu hc => ?_
  rw [Print.otherwise] at hc
  refine RepeatsAt.mono (.last (completesAt_noElse hu hc)) ?_
  rintro _ rfl
  exact nil_mem_otherwised

theorem rereadsOtherwise_some (hbody : RereadsAll name body) : RereadsOtherwise name (some body) := by
  filter_upwards [hbody] with levels hrounds source width c u hu hc
  rw [Print.otherwise, List.cons_append, List.append_assoc] at hc
  exact RepeatsAt.mono (.last (completesAt_otherwise (hrounds source width · u) hc))
    otherwise_le_otherwised

/-- A statement that has no blocks is read back as soon as there are levels enough for its
expressions. -/
theorem rereads_of_simple {element : Element} (h : ∀ levels, 128 ≤ levels → ∀ source width (c : Cursor) u,
    c.StandsAt source (Print.element name element ++ u) →
    (statement (Enclosed.within levels)).CompletesAt c (stated source width element)
      fun _ d => d.StandsAt source u) : Rereads name element := by
  filter_upwards [Filter.eventually_ge_atTop 128] with levels hlevels source width c u _ hc
  exact h levels hlevels source width c u hc

theorem rereads_localVariable {type v : Text} {initial : Option Text} (isFinal : Bool) (ht : type.IsType)
    (hv : v.IsIdentifier) (hinitial : ∀ e ∈ initial, e.IsExpression options) :
    Rereads name (.localVariable isFinal (.type type) (.name v) (initial.map .expression)) :=
  rereads_of_simple fun _ hlevels _ _ _ _ hc =>
    completesAt_localVariable isFinal ht hv hinitial (Nat.le_of_succ_le hlevels) hc

mutual
theorem rereads_statement (hname : name.IsIdentifier) : ∀ {element : Element},
    Plain.Statement options false element → Rereads name element
  | _, .ifChain hcondition hthen hbranches hotherwise => by
      have hbody := rereadsAll_elements hname hthen
      have hfurther := rereads_branches hname hbranches
      have hlast := rereads_otherwise hname hotherwise
      filter_upwards [hbody, hfurther, hlast, Filter.eventually_ge_atTop 127] with levels hrounds hmore
        hfinal hlevels source width c u hu hc
      exact completesAt_ifChain hcondition hlevels (hrounds source width)
        (fun c hc => hmore source width c _ _ _ (fun d hd => hfinal source width d u hu hd) hc) hc
  | _, .whileLoop hcondition hbody => by
      have hrounds := rereadsAll_elements hname hbody
      filter_upwards [hrounds, Filter.eventually_ge_atTop 127] with levels hrounds hlevels
        source width c u _ hc
      exact completesAt_whileLoop hcondition hlevels (hrounds source width · u) hc
  | _, .returned => rereads_of_simple fun _ _ _ _ _ _ hc => completesAt_returned hc
  | _, .returnedValue hvalue => rereads_of_simple fun _ hlevels _ _ _ _ hc =>
      completesAt_returnedValue hvalue (Nat.le_of_succ_le hlevels) hc
  | _, .call ht => rereads_of_simple fun _ hlevels _ _ _ _ hc => completesAt_call ht hlevels hc
  | _, .assign ht hvalue => rereads_of_simple fun _ hlevels _ _ _ _ hc =>
      completesAt_assign ht hvalue hlevels hc
  | _, .localVariable isFinal ht hv => by
      have hnone : ∀ e ∈ (none : Option Text), e.IsExpression options := by simp
      exact rereads_localVariable isFinal ht hv hnone
  | _, @Plain.Statement.initialized _ _ _ _ value isFinal ht hv hvalue => by
      have hinitial : ∀ e ∈ some value, e.IsExpression options := by simpa using hvalue
      exact rereads_localVariable isFinal ht hv hinitial
  | _, .jump jump => rereads_of_simple fun _ _ _ _ _ _ hc => completesAt_jump jump hc
  | _, .thrown hvalue => rereads_of_simple fun _ hlevels _ _ _ _ hc =>
      completesAt_thrown hvalue (Nat.le_of_succ_le hlevels) hc
theorem rereadsAll_elements (hname : name.IsIdentifier) : ∀ {body : Block},
    Plain.Elements options false false body → RereadsAll name body
  | _, .nil => rereadsAll_nil
  | _, .statement he hes => rereadsAll_cons (rereads_statement hname he) (rereadsAll_elements hname hes)
      (Print.closes_statement hname he) (startsElement_statement he)
      (startsElement_elements hes)
theorem rereads_branches (hname : name.IsIdentifier) : ∀ {conditions : List Fragment} {blocks : List Block},
    Plain.Branches options false conditions blocks → RereadsBranches name conditions blocks
  | _, _, .nothing => rereadsBranches_nil
  | _, _, .elseIf hcondition hblock hrest => rereadsBranches_cons hcondition
      (rereadsAll_elements hname hblock) (Print.closes_elements hname hblock) (rereads_branches hname hrest)
theorem rereads_otherwise (hname : name.IsIdentifier) : ∀ {otherwise : Option Block},
    Plain.Otherwise options false otherwise → RereadsOtherwise name otherwise
  | _, .nothing => rereadsOtherwise_none
  | _, .otherwise hblock => rereadsOtherwise_some (rereadsAll_elements hname hblock)
end

end Reading

end CodeFrames
