import CodeFrames.Proofs.Searches.Basic
import CodeFrames.Proofs.Skipping.Shapes
import CodeFrames.Proofs.Strides

/-!
# Searches of the recovery

Code that is not read is stepped over by a few recoveries: over a statement, to the end of an import, over
a lambda expression, and over the body of an anonymous class.  No other part of the reader searches for
groups.  Each recovery is given here with its searches; a bracket has been seen at the cursor in all of
them but those behind the word or the head of a statement or of a handler.
-/

namespace CodeFrames

namespace Reading

/-- What may follow the arguments of a created object. -/
def classBody : Reading Unit := do
  let brace ← here
  if brace.kind = .openBrace then
    emit (.unsupported brace.toSpan "anonymous class body")
    skipGroup

/-- What is read behind the type of a created object, with the class body as a reading of its own. -/
theorem createdObject_eq (inner : Enclosed) : createdObject inner = (do
    match (← here).kind with
    | .openParen =>
        arguments inner
        classBody
    | .openBracket =>
        repeatWhile (dimension inner)
        if (← cursor).isAt .openBrace then arrayInitializer inner
    | _ => refuse .argumentsOfNew) := rfl

/-- The readings that step over code without reading it. -/
inductive Recovery where
  | statement
  | directive
  | lambda
  | classBody
  deriving DecidableEq, Repr

def Recovery.reading : Recovery → Reading Unit
  | statement => skipStatement
  | directive => skipToSemicolon
  | lambda => Reading.lambda
  | classBody => Reading.classBody

end Reading

namespace Searching

open Reading (Recovery here cursor take forward refuse fail expect emit typeBodyRound skipShape
  endsLambdaBody kind_of_isAt rules_walks)

/-! ## The recoveries with their searches -/

/-- One round of the walk to a semicolon. -/
def semicolonRound : Searching Bool := do
  let t ← here
  match t.kind with
  | .semicolon =>
      let _ ← take
      return false
  | .openParen | .openBracket | .openBrace =>
      group .seen
      return true
  | .endOfInput | .closeBrace => (refuse (.symbol ";") : Reading Bool)
  | _ =>
      let _ ← take
      return true

def skipToSemicolon : Searching Unit := repeatWhile semicolonRound

def skipWordAndGroup (role : GroupRole) : Searching Unit := do
  let _ ← take
  group role

def skipTypeBody (word : Text) : Searching Unit := do
  Reading.repeatWhile (typeBodyRound word)
  group .seen

/-- A handler of a `try` statement, if there is another one. -/
def catchRound : Searching Bool := do
  if (← cursor).isAtWord "catch" then
    skipWordAndGroup .head
    group .block
    return true
  else return false

def skipTry : Searching Unit := do
  let _ ← take
  if (← cursor).isAt .openParen then group .seen
  group .block
  repeatWhile catchRound
  if (← cursor).isAtWord "finally" then skipWordAndGroup .block

def skipNested : List Token → Searching Unit
  | [] => skipToSemicolon
  | _ :: budget => do
      match skipShape (← cursor) with
      | .group => group .seen
      | .empty => let _ ← take
      | .ifElse =>
          skipWordAndGroup .head
          skipNested budget
          if (← cursor).isAtWord "else" then
            let _ ← take
            skipNested budget
      | .loop =>
          skipWordAndGroup .head
          skipNested budget
      | .headAndBlock =>
          skipWordAndGroup .head
          group .block
      | .doWhile =>
          let _ ← take
          skipNested budget
          if (← cursor).isAtWord "while" then
            skipWordAndGroup .head
            let _ ← expect .semicolon ";"
          else (fail .doWithoutWhile : Reading Unit)
      | .tryCatch => skipTry
      | .typeDeclaration word => skipTypeBody word
      | .labelled =>
          forward 2
          skipNested budget
      | .simple => skipToSemicolon

def skipStatement : Searching Unit := fun c => skipNested c.ahead c

/-- One round of the walk over the body of a lambda. -/
def lambdaRound : Searching Bool := do
  let t ← here
  if t.kind.isOpener then
    group .seen
    return true
  else if endsLambdaBody t then return false
  else
    let _ ← take
    return true

def skipLambdaBody : Searching Unit := do
  let t ← here
  if t.kind = .openBrace then group .seen
  else if endsLambdaBody t then (refuse .lambdaBody : Reading Unit)
  else repeatWhile lambdaRound

def lambda : Searching Unit := do
  let head ← here
  emit (.unsupported head.toSpan "lambda expression")
  if head.kind = .openParen then group .seen else let _ ← take
  let _ ← take
  skipLambdaBody

def classBody : Searching Unit := do
  let brace ← here
  if brace.kind = .openBrace then
    emit (.unsupported brace.toSpan "anonymous class body")
    group .seen

def ofRecovery : Recovery → Searching Unit
  | .statement => skipStatement
  | .directive => skipToSemicolon
  | .lambda => lambda
  | .classBody => classBody

variable {source : Text}

/-! ## Dropping the searches -/

theorem follows_semicolonRound : semicolonRound.Follows (here >>= Reading.semicolonRound) := by
  refine .lift_bind _ fun t => ?_
  rw [Reading.semicolonRound]
  cases t.kind with
  | openParen | openBracket | openBrace => exact (Follows.group _).done true
  | semicolon => exact .lift_bind _ fun _ => .pure false
  | endOfInput | closeBrace => exact .lift _
  | _ => exact .lift_bind _ fun _ => .pure true

theorem follows_skipToSemicolon : skipToSemicolon.Follows Reading.skipToSemicolon :=
  .rounds follows_semicolonRound

theorem follows_skipWordAndGroup (role : GroupRole) :
    (skipWordAndGroup role).Follows Reading.skipWordAndGroup := .lift_bind _ fun _ => .group role

theorem follows_skipTypeBody (word : Text) : (skipTypeBody word).Follows (Reading.skipTypeBody word) :=
  .lift_bind _ fun _ => .group .seen

theorem follows_catchRound : catchRound.Follows Reading.catchRound :=
  .lift_bind _ fun _ => .ite ((follows_skipWordAndGroup _).bind fun _ => (Follows.group _).done true)
    (.pure false)

theorem follows_skipTry : skipTry.Follows Reading.skipTry := by
  have hlast := (follows_skipWordAndGroup .block)
  have hrest : (group .block >>= fun _ => repeatWhile catchRound >>= fun _ => do
      if (← cursor).isAtWord "finally" then skipWordAndGroup .block).Follows (do
      Reading.skipGroup
      Reading.repeatWhile Reading.catchRound
      if (← cursor).isAtWord "finally" then Reading.skipWordAndGroup) :=
    (Follows.group _).bind fun _ => (Follows.rounds follows_catchRound).bind fun _ =>
      .lift_bind _ fun _ => .ite hlast (.pure ())
  exact .lift_bind _ fun _ => .lift_bind _ fun _ => .ite ((Follows.group _).bind fun _ => hrest) hrest

theorem follows_skipNested (budget : List Token) :
    (skipNested budget).Follows (Reading.skipNested budget) := by
  induction budget with
  | nil => exact follows_skipToSemicolon
  | cons t budget ih =>
      refine .lift_bind _ fun c => ?_
      cases skipShape c with
      | group => exact .group .seen
      | empty => exact .lift_bind _ fun _ => .pure ()
      | ifElse =>
          exact (follows_skipWordAndGroup _).bind fun _ => ih.bind fun _ => .lift_bind _ fun _ =>
            .ite (.lift_bind _ fun _ => ih) (.pure ())
      | loop => exact (follows_skipWordAndGroup _).bind fun _ => ih
      | headAndBlock => exact (follows_skipWordAndGroup _).bind fun _ => .group .block
      | doWhile =>
          exact .lift_bind _ fun _ => ih.bind fun _ => .lift_bind _ fun _ =>
            .ite ((follows_skipWordAndGroup _).bind fun _ => .lift_bind _ fun _ => .pure ()) (.lift _)
      | tryCatch => exact follows_skipTry
      | typeDeclaration word => exact follows_skipTypeBody word
      | labelled => exact .lift_bind _ fun _ => ih
      | simple => exact follows_skipToSemicolon

theorem follows_skipStatement : skipStatement.Follows Reading.skipStatement :=
  fun c => follows_skipNested c.ahead c

theorem follows_lambdaRound : lambdaRound.Follows Reading.lambdaRound :=
  .lift_bind _ fun _ => .ite ((Follows.group _).done true)
    (.ite (.pure false) (.lift_bind _ fun _ => .pure true))

theorem follows_skipLambdaBody : skipLambdaBody.Follows Reading.skipLambdaBody :=
  .lift_bind _ fun _ => .ite (.group _) (.ite (.lift _) (.rounds follows_lambdaRound))

theorem follows_lambda : lambda.Follows Reading.lambda := by
  have hbody := (Follows.lift Reading.take).bind fun _ => follows_skipLambdaBody
  exact .lift_bind _ fun _ => .lift_bind _ fun _ =>
    .ite ((Follows.group _).bind fun _ => hbody) (.lift_bind _ fun _ => hbody)

theorem follows_classBody : classBody.Follows Reading.classBody :=
  .lift_bind _ fun _ => .ite (.lift_bind _ fun _ => .group _) (.pure ())

/-- With its searches dropped a recovery is what the reader does. -/
theorem follows_ofRecovery (recovery : Recovery) : (ofRecovery recovery).Follows recovery.reading := by
  cases recovery with
  | statement => exact follows_skipStatement
  | directive => exact follows_skipToSemicolon
  | lambda => exact follows_lambda
  | classBody => exact follows_classBody

/-! ## Brackets that have been seen -/

/-- A bracket of some kind is at the cursor. -/
theorem isOpener_of_kind {t : Token} {kind : Token.Kind} (h : t.kind = kind) (hkind : kind.isOpener = true) :
    t.kind.isOpener = true := h ▸ hkind

theorem sound_semicolonRound : semicolonRound.Sound source := by
  refine fun c _ => .here_bind ?_
  have hgroup (hopener : c.here.kind.isOpener = true) : (do
      group .seen
      return true : Searching Bool).SoundAt c :=
    (SoundAt.group fun _ => hopener).bind fun _ _ _ _ => .pure true
  cases hkind : c.here.kind with
  | openParen | openBracket | openBrace => exact hgroup (isOpener_of_kind hkind rfl)
  | semicolon => exact .lift_bind .take fun _ _ _ _ => .pure false
  | endOfInput | closeBrace => exact .lift (.refuse _)
  | _ => exact .lift_bind .take fun _ _ _ _ => .pure true

theorem sound_skipToSemicolon : skipToSemicolon.Sound source := .rounds sound_semicolonRound

theorem sound_skipWordAndGroup {role : GroupRole} (h : role ≠ .seen) :
    (skipWordAndGroup role).Sound source :=
  (Sound.lift .take).bind fun _ => .group h

/-- The walk to the body of a type ends at the first brace. -/
theorem exists_front_of_typeBody {word : Text} {c d : Cursor} {events : List Event} (hc : c.Sited source)
    (hrun : Reading.repeatWhile (Reading.typeBodyRound word) c = (events, .ok ((), d))) :
    ∃ front, c.Spans front d ∧ (∀ t ∈ front, t.kind ≠ .openBrace) ∧ d.here.kind = .openBrace := by
  have hrepeats := (Reading.strides_typeBodyRound word).repeats hc
  rw [hrun] at hrepeats
  generalize hresult : (events, Except.ok ((), d)) = result at hrepeats
  clear hrun
  induction hrepeats generalizing events with
  | @last c e _ hround =>
      cases hresult
      rw [Reading.typeBodyRound, Reading.here_bind] at hround
      split at hround
      · next hbrace =>
          cases hround
          exact ⟨[], Cursor.spans_nil rfl rfl, nofun, hbrace⟩
      · split at hround <;> cases hround
  | failed => cases hresult
  | @more c e first others result hround hpasses _ ih =>
      cases hresult
      rw [Reading.typeBodyRound, Reading.here_bind] at hround
      split at hround
      · cases hround
      · next hbrace =>
          split at hround
          · cases hround
          · next hend =>
              cases hround
              obtain ⟨front, hspans, hfront, hlast⟩ := ih (hc.reaching hpasses.reaches) rfl
              refine ⟨c.here :: front, ?_, List.forall_mem_cons.mpr ⟨hbrace, hfront⟩, hlast⟩
              exact Cursor.Spans.trans (Cursor.spans_advance hc.laid hend) hspans

theorem sound_skipTypeBody (word : Text) : (skipTypeBody word).Sound source := by
  intro c hc
  refine .lift_bind (rules_walks.rounds ?_) fun _ d hrun _ => .group fun _ => ?_
  · exact rules_walks.bind .here fun _ => Reading.Rules.choice (.pure _) (Reading.Rules.choice (.fail _)
      (rules_walks.done .take true))
  · obtain ⟨front, -, -, hbrace⟩ := exists_front_of_typeBody hc (Prod.ext rfl hrun)
    exact isOpener_of_kind hbrace rfl

theorem sound_catchRound : catchRound.Sound source :=
  (Sound.lift .cursor).bind fun _ => .ite ((sound_skipWordAndGroup (by decide)).bind fun _ =>
    (Sound.group (by decide)).done true) (.pure false)

theorem sound_skipTry : skipTry.Sound source := by
  have hrest : (group .block >>= fun _ => repeatWhile catchRound >>= fun _ => do
      if (← cursor).isAtWord "finally" then skipWordAndGroup .block).Sound source :=
    (Sound.group (by decide)).bind fun _ => (Sound.rounds sound_catchRound).bind fun _ =>
      (Sound.lift .cursor).bind fun _ => .ite (sound_skipWordAndGroup (by decide)) (.pure ())
  refine (Sound.lift .take).bind fun _ c hc => .cursor_bind (.ite (fun hparen => ?_) fun _ => hrest c hc)
  exact (SoundAt.group fun _ => isOpener_of_kind (kind_of_isAt hparen) rfl).bind
    fun _ d _ hreaches => hrest d (hc.reaching hreaches)

theorem sound_skipNested (budget : List Token) : (skipNested budget).Sound source := by
  induction budget with
  | nil => exact sound_skipToSemicolon
  | cons t budget ih =>
      have hhead : (skipWordAndGroup .head).Sound source := sound_skipWordAndGroup (by decide)
      refine fun c hc => .cursor_bind ?_
      cases hshape : skipShape c with
      | group => exact .group fun _ => isOpener_of_kind (Reading.kind_of_skipGroup hshape) rfl
      | empty => exact (Sound.lift .take).done () c hc
      | ifElse =>
          have helse : (do
              if (← cursor).isAtWord "else" then
                let _ ← take
                skipNested budget : Searching Unit).Sound source :=
            (Sound.lift .cursor).bind fun _ => .ite ((Sound.lift .take).bind fun _ => ih) (.pure ())
          exact (hhead.bind fun _ => ih.bind fun _ => helse) c hc
      | loop => exact (hhead.bind fun _ => ih) c hc
      | headAndBlock => exact (hhead.bind fun _ => .group (by decide)) c hc
      | doWhile =>
          have hwhile : (do
              if (← cursor).isAtWord "while" then
                skipWordAndGroup .head
                let _ ← expect .semicolon ";"
              else (fail .doWithoutWhile : Reading Unit) : Searching Unit).Sound source :=
            (Sound.lift .cursor).bind fun _ =>
              .ite (hhead.bind fun _ => (Sound.lift (.expect .semicolon ";")).done ()) (.lift (.fail _))
          exact ((Sound.lift .take).bind fun _ => ih.bind fun _ => hwhile) c hc
      | tryCatch => exact sound_skipTry c hc
      | typeDeclaration word => exact sound_skipTypeBody word c hc
      | labelled => exact ((Sound.lift (rules_walks.forward 2)).bind fun _ => ih) c hc
      | simple => exact sound_skipToSemicolon c hc

theorem sound_skipStatement : skipStatement.Sound source := fun c hc =>
  ⟨(sound_skipNested c.ahead c hc).reaches, (sound_skipNested c.ahead c hc).searches⟩

theorem sound_lambdaRound : lambdaRound.Sound source :=
  fun _ _ => .here_bind (.ite (fun hopener => (SoundAt.group fun _ => hopener).bind
    fun _ _ _ _ => .pure true) fun _ => .ite (fun _ => .pure false) fun _ =>
      .lift_bind .take fun _ _ _ _ => .pure true)

theorem sound_skipLambdaBody : skipLambdaBody.Sound source :=
  fun c hc => .here_bind (.ite (fun hbrace => .group fun _ => isOpener_of_kind hbrace rfl)
    fun _ => .ite (fun _ => .lift (.refuse _)) fun _ => Sound.rounds sound_lambdaRound c hc)

theorem sound_lambda : lambda.Sound source := by
  have hbody : (do
      let _ ← take
      skipLambdaBody : Searching Unit).Sound source := (Sound.lift .take).bind fun _ => sound_skipLambdaBody
  refine fun c hc => .here_bind (.lift_bind (.emit rfl) fun _ d hrun _ => ?_)
  cases hrun
  exact .ite (fun hparen => (SoundAt.group fun _ => isOpener_of_kind hparen rfl).bind
    fun _ d _ hreaches => hbody d (hc.reaching hreaches)) fun _ => .lift_bind .take
      fun _ d _ hreaches => hbody d (hc.reaching hreaches)

theorem sound_classBody : classBody.Sound source := by
  refine fun c _ => .here_bind (.ite (fun hbrace => .lift_bind (.emit rfl) fun _ d hrun _ => ?_)
    fun _ => .pure ())
  cases hrun
  exact .group fun _ => isOpener_of_kind hbrace rfl

theorem sound_ofRecovery (recovery : Recovery) : (ofRecovery recovery).Sound source := by
  cases recovery with
  | statement => exact sound_skipStatement
  | directive => exact sound_skipToSemicolon
  | lambda => exact sound_lambda
  | classBody => exact sound_classBody

end Searching

end CodeFrames
