import CodeFrames.Proofs.Delegates.Constructor
import CodeFrames.Proofs.Delegates.Texts
import CodeFrames.Proofs.ExpressionTexts

/-!
# Calls of other constructors

Each constructor that a source declares is an element of its own.  Where the body opens with a call of
another constructor, the element has that call as its delegate, with the arguments as they stand between
the parentheses, and the body of the element begins behind the call.
-/

namespace CodeFrames

open Sentence
open Token (symbol)

/-! ## Constructors among the elements -/

namespace Element

def isConstructor : Element → Bool
  | .constructor _ _ _ _ _ _ => true
  | _ => false

def delegate? : Element → Option Delegate
  | .constructor _ _ _ _ delegate _ => delegate
  | _ => none

end Element

theorem isConstructor_statementElement (text : Text) :
    (Assembly.statementElement text).isConstructor = false := by
  unfold Assembly.statementElement
  split <;> rfl

theorem isConstructor_methodElement (documentation : Option Text) (modifiers : List Text)
    (returnType name : Text) (parameters : List Parameter) (throws : List Fragment) (body : Option Block) :
    (methodElement documentation modifiers returnType name parameters throws body).isConstructor = false := by
  cases body <;> rfl

namespace Sentence

variable {source : Text} {width : Option Nat}

theorem Declarators.isConstructor {header : VariableHeader} {events : List Event} {elements : Block}
    {warnings : List Warning} (h : Declarators source header events elements warnings) :
    ∀ e ∈ elements, e.isConstructor = false := by
  have hone {events : List Event} {element : Element} {warnings : List Warning}
      (h : Declarator source header events element warnings) : element.isConstructor = false := by
    cases h <;> rfl
  induction h with
  | last h => simpa using hone h
  | more h _ ih => exact List.forall_mem_cons.mpr ⟨hone h, ih⟩

mutual
/-- A statement in which no constructor begins is not described by one. -/
theorem Statement.isConstructor : ∀ {pending : Option Text} {events : List Event} {elements : Block}
    {warnings : List Warning}, Statement source width pending events elements warnings →
    (∀ e ∈ events, e.constructs = false) → ∀ element ∈ elements, element.isConstructor = false
  | _, _, _, _, .empty _, _ => by simp
  | _, _, _, _, .unsupported _ _, _ => by simp
  | _, _, _, _, .block _ _ items, h => by
      simp only [List.forall_mem_cons, List.forall_mem_append] at h
      exact items.isConstructor h.2.1
  | _, _, _, _, .ifChain _ _ _ _ _ _ _ _, _ => by simp [Element.isConstructor]
  | _, _, _, _, .whileLoop _ _ _ _ _ _, _ => by simp [Element.isConstructor]
  | _, _, _, _, .returned _, _ => by simp [Element.isConstructor]
  | _, _, _, _, .returnedValue _ _, _ => by simp [Element.isConstructor]
  | _, _, _, _, .jumped _ _, _ => by simp [Element.isConstructor]
  | _, _, _, _, .jumpedTo _ _ _, _ => by simp [Element.isConstructor]
  | _, _, _, _, .thrown _ _, _ => by simp [Element.isConstructor]
  | _, _, _, _, .expression _ _, _ => by simp [isConstructor_statementElement]
  | _, _, _, _, .variables _ _ _ _ _ declarators, _ => declarators.isConstructor
  | _, _, _, _, .method _ _ _ _ _ _ _ _ _, _ => by simp [isConstructor_methodElement]
  | _, _, _, _, .constructor _ _ _ _ _ _ _, h => absurd (h _ List.mem_cons_self) (by simp [Event.constructs])
theorem Items.isConstructor : ∀ {pending : Option Text} {events : List Event} {elements : Block}
    {warnings : List Warning}, Items source width pending events elements warnings →
    (∀ e ∈ events, e.constructs = false) → ∀ element ∈ elements, element.isConstructor = false
  | _, _, _, _, .nothing, _ => by simp
  | _, _, _, _, .comment _ rest, h => rest.isConstructor fun e he => h e (List.mem_cons_of_mem _ he)
  | _, _, _, _, .statement one rest, h => by
      obtain ⟨hone, hrest⟩ := List.forall_mem_append.mp h
      exact List.forall_mem_append.mpr ⟨one.isConstructor hone, rest.isConstructor hrest⟩
end

/-- Items with others behind them, which tell what they are described by whatever comment is pending. -/
theorem Items.exists_append {Q : Block → Prop} {more : List Event} (hmore : ∀ pending, ∃ elements warnings,
      Items source width pending more elements warnings ∧ Q elements) :
    ∀ {pending : Option Text} {events : List Event} {elements : Block} {warnings : List Warning},
      Items source width pending events elements warnings →
      ∃ others later, Items source width pending (events ++ more) (elements ++ others) later ∧ Q others
  | pending, _, _, _, .nothing => hmore pending
  | _, _, _, _, .comment whole rest => by
      obtain ⟨others, later, hrest, hothers⟩ := rest.exists_append hmore
      exact ⟨others, later, .comment whole hrest, hothers⟩
  | _, _, _, _, .statement one rest => by
      obtain ⟨others, later, hrest, hothers⟩ := rest.exists_append hmore
      exact ⟨others, _, by simpa using Items.statement one hrest, hothers⟩

end Sentence

/-! ## What is behind a brace -/

namespace Token

/-- The tokens behind a place, comments left out. -/
def tokensBehind (tokens : List Token) (place : Span) : List Token :=
  (code tokens).filter (place.stop ≤ ·.start)

end Token

theorem Underway.tokensBehind_eq {source : Text} {tokens reported front behind : List Token} {c : Cursor}
    {t : Token} (h : Underway source tokens reported c) (htokens : c.tokens = front ++ t :: behind)
    (hend : ¬ t.isEnd) :
    (∃ passed, Token.code tokens = passed ++ t :: behind) ∧ Token.tokensBehind tokens t.toSpan = behind := by
  obtain ⟨passed, hpassed, -⟩ := h.exists_passed
  have hcode : Token.code tokens = (passed ++ front) ++ t :: behind := by
    rw [Token.code, hpassed, htokens, List.append_assoc]
  refine ⟨⟨_, hcode⟩, ?_⟩
  have hlaid : Token.Laid source (Token.code tokens) := h.laid.filter fun u hu => by
    simp only [Token.isEnd, decide_eq_true_eq] at hu
    simp [hu]
  have hsolid {u : Token} (hu : u ∈ Token.code tokens) (hend : ¬ u.isEnd) : u.start < u.stop :=
    h.solid u (List.mem_filter.mp hu).1 hend
  rw [hcode] at hlaid
  obtain ⟨-, hrest, hfront⟩ := List.pairwise_append.mp hlaid.ordered
  have hbehind := (List.pairwise_cons.mp hrest).1
  have ht := hsolid (hcode ▸ List.mem_append_right _ List.mem_cons_self) hend
  rw [Token.tokensBehind, hcode, List.filter_append, List.filter_eq_nil_iff.mpr fun u hu => ?_,
    List.nil_append, List.filter_cons_of_neg (by simpa using ht),
    List.filter_eq_self.mpr fun u hu => by simpa using hbehind u hu]
  have hlt := hsolid (hcode ▸ List.mem_append_left _ hu) (hlaid.not_isEnd (List.cons_ne_nil _ _) u hu)
  have := hfront u hu t List.mem_cons_self
  simp only [decide_eq_true_eq]
  omega

/-! ## Calls that are kept -/

namespace Reading.OpeningCall

variable {source : Text} {inner : Enclosed} {keyword : Token} {behind : List Token}

/-- The texts of the arguments, with commas between them. -/
def text (call : OpeningCall source inner keyword behind) : Text :=
  Text.join [','] (call.arguments.map (Token.shownText source))

/-- The text of the arguments is split into the tokens between the parentheses, with the subtype operator
in place of each type test. -/
def Splits (call : OpeningCall source inner keyword behind) : Prop :=
  ∃ ts, lex call.text = .ok ts ∧ (Token.code ts).map Token.bare =
    (call.between.map Token.bare).flatMap Token.shown ++ [Token.symbol .endOfInput []]

/-- The element is a constructor with the call as its delegate, and its body is what the tokens behind the
call are described by. -/
def DescribedBy (width : Option Nat) (call : OpeningCall source inner keyword behind) (element : Element) :
    Prop :=
  ∃ documentation access parameters throws body,
    element = .constructor documentation access parameters throws
      (some ⟨call.target, .expression call.text⟩) body ∧
    BlockShows source width inner call.rest body

end Reading.OpeningCall

/-- The element of the constructor whose body begins with the brace keeps the call that opens the body.
The text of the arguments is split into the tokens of the call unless a type test among them touches a
token that the subtype operator in its place runs into. -/
def KeepsCall (source : Text) (width : Option Nat) (tokens : List Token) (brace : Span)
    (element : Element) : Prop :=
  ∀ keyword paren behind, Token.tokensBehind tokens brace = keyword :: paren :: behind →
    keyword.isWord "super".toList ∨ keyword.isWord "this".toList → paren.kind = .openParen →
    ∃ call : Reading.OpeningCall source (Enclosed.within nestingLimit) keyword behind,
      call.DescribedBy width element ∧ (¬ Token.Glued call.between → call.Splits)

namespace Reading

variable {source : Text} {width : Option Nat} {tokens reported : List Token} {c d : Cursor}
  {events more : List Event}

theorem keepsCall_of_showsCall {brace : Token} {passed : List Token} {delegate : Option Delegate}
    {body : Block} (documentation : Option Text) (access : Access) (parameters : List Parameter)
    (throws : List Fragment) (htokens : lex source = .ok tokens)
    (hcode : Token.code tokens = passed ++ brace :: c.tokens)
    (hbehind : Token.tokensBehind tokens brace.toSpan = c.tokens)
    (hshows : opensDelegateCall c = true →
      ShowsCall source width (Enclosed.within nestingLimit) c delegate body) :
    KeepsCall source width tokens brace.toSpan
      (.constructor documentation access parameters throws delegate body) := by
  intro keyword paren behind hsplit hword hparen
  -- The first two tokens of the body are the ones that the reading has looked at.
  rw [hbehind] at hsplit
  obtain ⟨rfl, hahead⟩ := List.cons.inj hsplit
  have hopens : opensDelegateCall c = true := by
    simp only [opensDelegateCall, Cursor.isAtWord, Cursor.nextIs, hahead, Bool.and_eq_true, Bool.or_eq_true]
    exact ⟨hword, by simpa using hparen⟩
  obtain ⟨paren', behind', call, hcall, rfl, hrest⟩ := hshows hopens
  obtain ⟨rfl, rfl⟩ := List.cons.inj (hahead.symm.trans (List.cons.inj hcall).2)
  have hbounding := Enclosed.bounding_within source nestingLimit
  have hbetween : Token.code tokens = (passed ++ [brace, c.here, paren]) ++
      (call.between ++ call.closing :: call.semicolon :: call.rest) := by
    rw [hcode, hcall, ← call.behind_eq]
    simp
  rw [call.list.argumentTexts_eq hbounding htokens hbetween]
  exact ⟨call, ⟨documentation, access, parameters, throws, body, rfl, hrest⟩,
    call.list.lex_join hbounding htokens hbetween⟩

/-- The constructors that some events describe, each with the first token of its body. -/
structure KeepsCalls (source : Text) (width : Option Nat) (tokens : List Token) (events : List Event) :
    Prop where
  append_braces : ∀ more, bodyBraces (events ++ more) = bodyBraces events ++ bodyBraces more
  exists_items : ∀ pending, ∃ elements warnings, Items source width pending events elements warnings ∧
    List.Forall₂ (KeepsCall source width tokens) (bodyBraces events)
      (elements.filter Element.isConstructor)

namespace KeepsCalls

theorem append (h : KeepsCalls source width tokens events) (g : KeepsCalls source width tokens more) :
    KeepsCalls source width tokens (events ++ more) where
  append_braces later := by
    rw [List.append_assoc, h.append_braces, g.append_braces, h.append_braces, List.append_assoc]
  exists_items pending := by
    obtain ⟨elements, warnings, hitems, hkeeps⟩ := h.exists_items pending
    obtain ⟨others, later, hitems, hothers⟩ := hitems.exists_append g.exists_items
    refine ⟨_, _, hitems, ?_⟩
    rw [h.append_braces, List.filter_append]
    exact List.rel_append hkeeps hothers

theorem of_plain (h : events ∈ items source width) (hplain : ∀ e ∈ events, e.constructs = false) :
    KeepsCalls source width tokens events := by
  have hbraces : bodyBraces events = [] := by simpa [bodyBraces] using bodyBraces_append hplain []
  refine ⟨fun more => by rw [bodyBraces_append hplain, hbraces, List.nil_append], fun pending => ?_⟩
  obtain ⟨elements, warnings, hitems⟩ := h pending
  refine ⟨elements, warnings, hitems, ?_⟩
  rw [hbraces, List.filter_eq_nil_iff.mpr fun e he => by simp [hitems.isConstructor hplain e he]]
  exact .nil

theorem of_constructor {brace : Span} (h : OpensBody brace events)
    (hone : ∀ pending, ∃ access parameters throws delegate body warnings,
      Statement source width pending events
        [.constructor pending access parameters throws delegate body] warnings ∧
      KeepsCall source width tokens brace (.constructor pending access parameters throws delegate body)) :
    KeepsCalls source width tokens events := by
  have hbraces : bodyBraces events = [brace] := by simpa [bodyBraces] using h.bodyBraces_append []
  refine ⟨fun more => by rw [h.bodyBraces_append, hbraces, List.singleton_append], fun pending => ?_⟩
  obtain ⟨access, parameters, throws, delegate, body, warnings, hstatement, hkeeps⟩ := hone pending
  refine ⟨[_], warnings, by simpa using Items.statement hstatement .nothing, ?_⟩
  rw [hbraces, List.filter_cons_of_pos rfl]
  exact .cons hkeeps .nil

end KeepsCalls

/-! ## Members -/

theorem constructs_of_method {inner : Enclosed} (h : inner.Delivers source) (hc : c.Sited source)
    (hrun : method inner c = (events, .ok ((), d))) : ∀ e ∈ events, e.constructs = false := by
  rw [method_eq, bind_of_silent _ (show here c = ([], .ok (c.here, c)) from rfl),
    bind_of_silent _ (modifiers_eq c)] at hrun
  have hforward := ((Cursor.reaches_forward c.modifierCount c).sited hc).1
  obtain ⟨front, _, c₁, rest, hfront, hrest, rfl⟩ := exists_of_bind_ok hrun
  obtain ⟨typed, _, c₂, more, htyped, hmore, rfl⟩ := exists_of_bind_ok hrest
  have hc₁ := Delivers.typeParameters.carries.sited hforward hfront
  have hc₂ := Delivers.typeName.carries.sited hc₁ htyped
  obtain ⟨-, name, inside, rfl, hends⟩ := exists_of_named hc₂ (closes_methodRest h) hmore
  exact List.forall_mem_append.mpr
    ⟨constructs_of_declares (Delivers.typeParameters _ _ _ _ hforward hfront).2, List.forall_mem_append.mpr
      ⟨constructs_of_declares (Delivers.typeName _ _ _ _ hc₁ htyped).2,
        List.forall_mem_cons.mpr ⟨rfl, constructs_of_ends hends⟩⟩⟩

theorem keepsCalls_member (htokens : lex source = .ok tokens) (hc : Underway source tokens reported c)
    (hrun : member (Enclosed.within nestingLimit) c.relieved = (events, .ok ((), d))) :
    KeepsCalls source width tokens events := by
  have hdelivers := Enclosed.delivers_within source nestingLimit
  have hsited := hc.sited.relieved
  have hitems : events ∈ items source width := (reports_member
    (Enclosed.reports_within source width nestingLimit) _ hsited.laid).mem_and_reaches hrun |>.1
  change memberOf _ (memberShape c.relieved) c.relieved = _ at hrun
  by_cases hconstructor : memberShape c.relieved = .constructor
  · rw [hconstructor] at hrun
    obtain ⟨brace, front, e, hopens, hend, hsplit, hshows⟩ := exists_of_constructor
      (Enclosed.bounding_within source nestingLimit) hdelivers
      (Enclosed.reports_within source width nestingLimit) hsited hrun
    obtain ⟨⟨passed, hcode⟩, hbehind⟩ := hc.tokensBehind_eq hsplit hend
    refine .of_constructor hopens fun pending => ?_
    obtain ⟨access, parameters, throws, delegate, body, warnings, hstatement, hcall⟩ := hshows pending
    exact ⟨_, _, _, _, _, _, hstatement, keepsCall_of_showsCall _ _ _ _ htokens hcode hbehind hcall⟩
  by_cases hmethod : memberShape c.relieved = .method
  · rw [hmethod] at hrun
    exact .of_plain hitems (constructs_of_method hdelivers hsited hrun)
  · exact .of_plain hitems (constructs_of_declares
      ((delivers_memberOf hdelivers hconstructor hmethod).1 _ _ _ _ hsited hrun).2)

theorem keepsCalls_comments (comments : List Token) :
    KeepsCalls source width tokens (comments.map fun t => .comment t.toSpan) := by
  refine .of_plain ?_ (constructs_of_declares (declares_comment comments))
  rw [show (fun t : Token => Event.comment t.toSpan) = Event.comment ∘ Token.toSpan from rfl,
    ← List.map_map]
  exact comments_le_items (map_mem_kstar Event.comment _)

/-- The rounds of members, by induction on them. -/
theorem keepsCalls_rounds (htokens : lex source = .ok tokens) (hc : Underway source tokens reported c)
    (h : Rounds (memberRound (Enclosed.within nestingLimit)) c events d) :
    KeepsCalls source width tokens events := by
  induction h generalizing reported with
  | last hround =>
      obtain ⟨-, rfl, -⟩ := eq_of_memberRound_false hround
      exact keepsCalls_comments []
  | more hround _ _ ih =>
      obtain ⟨later, hmember, rfl⟩ := exists_of_memberRound_true hround
      obtain ⟨comments, hd, -⟩ := underway_member (Enclosed.delivers_within source nestingLimit) hc hmember
      exact ((keepsCalls_comments _).append (keepsCalls_member htokens hc hmember)).append (ih hd)

end Reading

theorem keepsCalls_readEvents {source : Text} {width : Option Nat} {tokens : List Token}
    (htokens : lex source = .ok tokens) (hread : (readEvents source).2 = .ok ()) :
    Reading.KeepsCalls source width tokens (readEvents source).1 := by
  obtain ⟨c, d, hc, hmembers⟩ := exists_members_of_readEvents htokens hread
  have hunderway := Underway.of_lex htokens hc
  rw [Reading.members_eq] at hmembers
  obtain ⟨rounds, u, e, comments, hrounds, hcomments, hevents⟩ := Reading.exists_of_bind_ok hmembers
  cases e.reportComments_eq.symm.trans hcomments
  have hrounds := Reading.rounds_of_repeatWhile
    (fun _ _ _ => Reading.memberRound_true (Enclosed.delivers_within source nestingLimit)) hunderway.sited hrounds
  rw [hevents]
  exact (Reading.keepsCalls_rounds htokens hunderway hrounds).append (Reading.keepsCalls_comments _)

/-- The constructors of an accepted source are described in order, and each element keeps the call that
opens the body of its constructor. -/
theorem delegates_of_convert {options : Options} {source : Text} {tokens : List Token}
    {conversion : Conversion} (h : convert options source = .ok conversion)
    (htokens : lex source = .ok tokens) :
    List.Forall₂ (KeepsCall source options.commentWidth tokens) (bodyBraces (readEvents source).1)
      (conversion.elements.filter Element.isConstructor) := by
  obtain ⟨events, hread, hunique⟩ := exists_events_of_convert h
  obtain ⟨elements, warnings, hitems, hkeeps⟩ :=
    (keepsCalls_readEvents htokens (by rw [hread])).exists_items none
  rw [hread] at hitems
  rw [hunique _ _ hitems]
  exact hkeeps

/-- A constructor that calls another one with a call and an array among the arguments. -/
def callWithNested : Text := "A(int x) { super(f(x, 1), new int[] { 2, 3 }); go(); }".toList

theorem delegates_of_convert_nested : ∃ conversion tokens,
    convert .default callWithNested = .ok conversion ∧ lex callWithNested = .ok tokens ∧
    (bodyBraces (readEvents callWithNested).1).length = 1 ∧
    conversion.elements.map Element.delegate? =
      [some ⟨.super, .expression "f(x, 1),new int[] { 2, 3 }".toList⟩] ∧
    List.Forall₂ (KeepsCall callWithNested none tokens) (bodyBraces (readEvents callWithNested).1)
      (conversion.elements.filter Element.isConstructor) := by
  obtain ⟨conversion, h, hdelegates⟩ : ∃ conversion, convert .default callWithNested = .ok conversion ∧
      conversion.elements.map Element.delegate? =
        [some ⟨.super, .expression "f(x, 1),new int[] { 2, 3 }".toList⟩] :=
    Except.exists_of_map_eq (by decide +kernel)
  obtain ⟨tokens, htokens⟩ : ∃ tokens, lex callWithNested = .ok tokens :=
    Except.exists_of_isOk (by decide +kernel)
  exact ⟨conversion, tokens, h, htokens, by decide +kernel, hdelegates, delegates_of_convert h htokens⟩

/-- A call of another constructor with a type test that touches the less sign in front of it. -/
def callWithTest : Text := "A() { super(x -> a <instanceof b); }".toList

/-- The text of the arguments is not always split into the tokens between the parentheses: where the less
sign touches the type test, the two become a shift. -/
theorem not_delegates_split : ¬ ∀ (options : Options) (source : Text) (tokens : List Token)
    (conversion : Conversion), convert options source = .ok conversion → lex source = .ok tokens →
    List.Forall₂ (fun brace element => ∀ keyword paren behind,
        Token.tokensBehind tokens brace = keyword :: paren :: behind →
        keyword.isWord "super".toList ∨ keyword.isWord "this".toList → paren.kind = .openParen →
        ∃ call : Reading.OpeningCall source (Enclosed.within nestingLimit) keyword behind,
          call.DescribedBy options.commentWidth element ∧ call.Splits)
      (bodyBraces (readEvents source).1) (conversion.elements.filter Element.isConstructor) := by
  intro hall
  obtain ⟨conversion, h, hdelegates⟩ : ∃ conversion, convert .default callWithTest = .ok conversion ∧
      (conversion.elements.filter Element.isConstructor).map Element.delegate? =
        [some ⟨.super, .expression "x -> a <<: b".toList⟩] :=
    Except.exists_of_map_eq (by decide +kernel)
  obtain ⟨tokens, htokens, hbehind⟩ : ∃ tokens, lex callWithTest = .ok tokens ∧
      (bodyBraces (readEvents callWithTest).1).map (fun brace =>
        (Token.tokensBehind tokens brace).map Token.bare) =
      [symbol .word "super".toList :: symbol .openParen ['('] ::
        ([symbol .word ['x'], symbol .operator ['-', '>'], symbol .word ['a'], symbol .operator ['<'],
          symbol .word "instanceof".toList, symbol .word ['b']] ++ symbol .closeParen [')'] ::
            [symbol .semicolon [';'], symbol .closeBrace ['\x7d'], symbol .endOfInput []])] :=
    Except.exists_of_map_eq (by decide +kernel)
  obtain ⟨brace, hbraces, hbrace⟩ := List.map_eq_singleton_iff.mp hbehind
  obtain ⟨element, helements, helement⟩ := List.map_eq_singleton_iff.mp hdelegates
  have hone := hall .default callWithTest tokens conversion h htokens
  rw [hbraces, helements] at hone
  obtain ⟨hcall, -⟩ := List.forall₂_cons.mp hone
  obtain ⟨keyword, rest, hsplit, hkeyword, hrest⟩ := List.map_eq_cons_iff.mp hbrace
  obtain ⟨paren, behind, rfl, hparen, hbetween⟩ := List.map_eq_cons_iff.mp hrest
  obtain ⟨call, ⟨_, _, _, _, _, rfl, -⟩, ts, hts, htokens⟩ := hcall keyword paren behind hsplit
    (.inl (by rw [← Token.isWord_bare, hkeyword]; rfl)) (by rw [← Token.bare_kind, hparen]; rfl)
  -- There is only one closing parenthesis, so it is the one of the call.
  have hnone {others : List Token} (hothers : ∀ t ∈ others, t.kind ≠ .closeParen) :
      call.closing.bare ∉ others := fun hmem => hothers _ hmem call.closing_kind
  have hfront := congrArg (List.map Token.bare) call.behind_eq
  rw [hbetween, List.map_append, List.map_cons,
    List.append_cons_inj_of_notMem (hnone (by decide)) (hnone (by decide))] at hfront
  have hdelegate : call.target = .super ∧ call.text = "x -> a <<: b".toList := by
    simpa [Element.delegate?, Fragment.expression] using helement
  obtain ⟨ts', hts', hcount⟩ := Except.exists_of_map_eq
    (show (lex "x -> a <<: b".toList).toOption.map (fun ts => (Token.code ts).length) = some 7 by
      decide +kernel)
  rw [hdelegate.2] at hts
  obtain rfl := Except.ok.inj (hts.symm.trans hts')
  have hcounts := congrArg List.length htokens
  rw [List.length_map, hcount, ← hfront.1] at hcounts
  exact absurd hcounts (by decide)

end CodeFrames
