import CodeFrames.Proofs.Assignments
import CodeFrames.Proofs.Decoding.Statement
import CodeFrames.Proofs.Handlers
import Mathlib.Data.List.Induction
import Mathlib.Data.List.ModifyLast

/-!
# The branches of a chain

A chain keeps its conditions in one list and its blocks in another.  What belongs together is told here
from the events alone: a branch begins with the block behind its condition or its `else`, and has what is
reported to the chain until that block ends.  The two lists always agree with this account, and so does
the element that the chain becomes.
-/

namespace CodeFrames

/-- What stands in front of a block. -/
inductive Lead where
  | condition (condition : Fragment)
  | otherwise
  deriving DecidableEq, Repr

structure Branch where
  lead : Lead
  statements : Block
  deriving Repr

namespace Branch

/-- The branches with a condition. -/
def ofConditions (conditions : List Fragment) (blocks : List Block) : List Branch :=
  List.zipWith (fun condition block => ⟨.condition condition, block⟩) conditions blocks

/-- The branch without one. -/
def ofElse (block : Option Block) : List Branch := (block.map (⟨.otherwise, ·⟩)).toList

theorem exists_otherwise (conditions : List Fragment) (blocks : List Block) (elseBlock : Option Block) :
    (∃ branch ∈ ofConditions conditions blocks ++ ofElse elseBlock, branch.lead = .otherwise) ↔
      elseBlock.isSome = true := by
  constructor
  · rintro ⟨branch, hmem, hlead⟩
    rcases List.mem_append.mp hmem with hmem | hmem
    · obtain ⟨i, hi, rfl⟩ := List.mem_iff_getElem.mp hmem
      simp [ofConditions] at hlead
    · cases elseBlock with
      | none => cases hmem
      | some block => rfl
  · intro hsome
    obtain ⟨block, rfl⟩ := Option.isSome_iff_exists.mp hsome
    exact ⟨⟨.otherwise, block⟩, by simp [ofElse], rfl⟩

end Branch

/-- What the events of a chain have told so far. -/
structure Account where
  branches : List Branch
  /-- The lead of the block to come, from the end of its condition or from its `else` on. -/
  next : Option Lead
  /-- The block of the last branch has not ended. -/
  isOpen : Bool
  deriving Repr

namespace Account

def start (condition : Fragment) : Account := ⟨[], some (.condition condition), false⟩

variable (account : Account)

def openBlock : Account :=
  match account.next with
  | some lead => ⟨account.branches ++ [⟨lead, []⟩], none, true⟩
  | none => account

def closeBlock : Account := { account with isOpen := false }

def follow (lead : Lead) : Account := { account with next := some lead }

/-- The elements belong to the branch whose block is open. -/
def receive (elements : Block) : Account :=
  if account.isOpen then
    { account with
      branches := account.branches.modifyLast fun b =>
        { b with statements := b.statements ++ elements } }
  else account

/-- The event is for the chain. -/
def addressed (a : Assembly) : Event → Account
  | .openBlock _ => account.openBlock
  | .closeBlock _ => account.closeBlock
  | .otherwise _ => account.follow .otherwise
  | event =>
      match a.captured? .elseIfCondition event with
      | some condition => account.follow (.condition condition)
      | none => account

/-- An event leads from `a` to `b`, and the chain stands above `depth` handlers.  The event is for the
chain if the chain is on top in front of it and behind it, and the chain receives what is reported if it
is on top behind the event. -/
def after (depth : Nat) (a : Assembly) (event : Event) (b : Assembly) : Account :=
  if b.handlers.length = depth + 1 then
    (if a.handlers.length = depth + 1 then account.addressed a event else account).receive
      (a.reported event)
  else account

theorem receive_nil : account.receive [] = account := by
  obtain ⟨branches, next, isOpen⟩ := account
  cases isOpen with
  | false => rfl
  | true =>
      rcases List.eq_nil_or_concat branches with rfl | ⟨front, last, rfl⟩
      · rfl
      · simp [receive, List.modifyLast_concat]

theorem receive_append (elements others : Block) :
    account.receive (elements ++ others) = (account.receive elements).receive others := by
  obtain ⟨branches, next, isOpen⟩ := account
  cases isOpen with
  | false => rfl
  | true =>
      rcases List.eq_nil_or_concat branches with rfl | ⟨front, last, rfl⟩
      · rfl
      · simp [receive, List.modifyLast_concat]

theorem addressed_of_not {a : Assembly} {event : Event} (h : a.addressesTop event = false) :
    account.addressed a event = account := by
  cases event with
  | openBlock first | closeBlock last | elseIf keyword | otherwise keyword => cases h
  | closeExpression last isEmpty =>
      have hnone : a.captured? .elseIfCondition (.closeExpression last isEmpty) = none :=
        Option.isNone_iff_eq_none.mp (Option.isSome_eq_false_iff.mp h)
      simp only [addressed, hnone]
  | _ => rfl

end Account

/-- The account of the chain that was put above `depth` handlers, after some more events. -/
def Assembly.account (depth : Nat) (a : Assembly) (account : Account) : List Event → Account
  | [] => account
  | event :: events =>
      match a.step event with
      | .ok b => b.account depth (account.after depth a event b) events
      | .error _ => account

theorem Assembly.account_concat {depth : Nat} {a b c : Assembly} {account : Account}
    {events : List Event} {event : Event} (hrun : a.run events = .ok b) (hstep : b.step event = .ok c) :
    a.account depth account (events ++ [event]) =
      (a.account depth account events).after depth b event c := by
  induction events generalizing a account with
  | nil =>
      cases hrun
      simp [Assembly.account, hstep]
  | cons first events ih =>
      obtain ⟨next, hfirst, hrest⟩ := Except.exists_of_bind hrun
      simp only [List.cons_append, Assembly.account, hfirst]
      exact ih hrest

/-! ## The account of the two lists -/

namespace OpenChain

/-- The lead of the block that a chain waits for. -/
def next (c : OpenChain) : Option Lead :=
  match c.stage with
  | .beforeBlock => c.pending.map .condition
  | .beforeElseBlock => some .otherwise
  | _ => none

/-- Each block with the condition at its place, and one beyond the conditions with the `else`. -/
def account (c : OpenChain) : Account :=
  ⟨List.zipWith Branch.mk (c.conditions.map .condition ++ [.otherwise]) c.blocks, c.next,
    c.stage = .inBlock⟩

/-- A condition is pending exactly while a chain waits for the block behind it. -/
def Settled (c : OpenChain) : Prop := c.pending.isSome = true ↔ c.stage = .beforeBlock

theorem Paired.le {c : OpenChain} (h : c.Paired) :
    c.conditions.length ≤ c.blocks.length ∧ c.blocks.length ≤ c.conditions.length + 1 := by
  unfold Paired at h
  split at h <;> omega

theorem settled_start (condition : Fragment) : (start condition).Settled :=
  ⟨fun _ => rfl, fun _ => rfl⟩

theorem account_start (condition : Fragment) : (start condition).account = .start condition := rfl

variable {c d : OpenChain}

/-- A further block goes with the lead behind those of the blocks so far. -/
theorem zipWith_concat {leads others : List Lead} {lead : Lead} {blocks : List Block}
    (h : blocks.length = leads.length) (block : Block) :
    List.zipWith Branch.mk (leads ++ lead :: others) (blocks ++ [block]) =
      List.zipWith Branch.mk leads blocks ++ [⟨lead, block⟩] := by
  rw [List.zipWith_append h.symm]
  simp

/-- With a block for each condition there is no block for an `else`. -/
theorem zipWith_leads {leads others : List Lead} {blocks : List Block}
    (h : blocks.length = leads.length) :
    List.zipWith Branch.mk (leads ++ others) blocks = List.zipWith Branch.mk leads blocks := by
  conv_lhs => rw [← List.append_nil blocks]
  rw [List.zipWith_append h.symm]
  simp

/-- Whatever the last block is, it goes with the same lead. -/
theorem exists_zipWith_concat {leads : List Lead} {blocks : List Block}
    (h : blocks.length < leads.length) :
    ∃ lead, ∀ block, List.zipWith Branch.mk leads (blocks ++ [block]) =
      List.zipWith Branch.mk leads blocks ++ [⟨lead, block⟩] := by
  obtain ⟨first, lead, others, rfl, hfirst⟩ : ∃ first lead others,
      leads = first ++ lead :: others ∧ blocks.length = first.length :=
    ⟨leads.take blocks.length, leads[blocks.length], leads.drop (blocks.length + 1), by simp,
      by simp; omega⟩
  exact ⟨lead, fun block => by rw [zipWith_concat hfirst, zipWith_leads hfirst]⟩

theorem account_openBlock (h : c.openBlock = .ok d) (hpaired : c.Paired) (hsettled : c.Settled) :
    d.Settled ∧ d.account = c.account.openBlock := by
  obtain ⟨conditions, blocks, pending, stage⟩ := c
  -- In front of a block no `else` has its block yet, so the new block is the first behind the conditions.
  have hlength (hstage : stage = .beforeBlock ∨ stage = .beforeElseBlock) :
      blocks.length = (conditions.map Lead.condition).length := by
    rw [List.length_map]
    rcases hstage with rfl | rfl <;> exact hpaired
  cases stage with
  | beforeBlock =>
      cases pending with
      | none => cases h
      | some condition =>
          cases h
          refine ⟨⟨nofun, nofun⟩, ?_⟩
          simp only [account, Account.openBlock, next, Option.map_some, zipWith_leads (hlength (.inl rfl)),
            List.map_append, List.map_singleton, List.append_assoc, List.singleton_append,
            zipWith_concat (hlength (.inl rfl)), decide_true]
  | beforeElseBlock =>
      cases h
      refine ⟨⟨fun hsome => (nomatch hsettled.mp hsome), nofun⟩, ?_⟩
      simp only [account, Account.openBlock, next, zipWith_leads (hlength (.inr rfl)),
        zipWith_concat (hlength (.inr rfl)), decide_true]
  | inBlock | betweenBranches | beforeCondition | afterElse => cases h

theorem account_closeBlock (h : c.closeBlock = .ok d) (hsettled : c.Settled) :
    d.Settled ∧ d.account = c.account.closeBlock := by
  obtain ⟨conditions, blocks, pending, stage⟩ := c
  unfold closeBlock at h
  split at h
  · next hstage =>
      obtain rfl : stage = .inBlock := hstage
      cases h
      have hnone : ¬ pending.isSome = true := fun hsome => nomatch hsettled.mp hsome
      dsimp only
      split <;> exact ⟨⟨fun hsome => absurd hsome hnone, nofun⟩, rfl⟩
  · cases h

/-- Between two stages without an open block, the blocks keep their leads. -/
theorem account_moved {stage reached : ChainStage} {expected : Requirement} (pending : Option Fragment)
    (hstage : stage ≠ .inBlock) (hreached : reached ≠ .inBlock)
    (h : (if c.stage = stage then .ok { c with pending, stage := reached } else c.refuse expected) =
      .ok d) :
    c.stage = stage ∧ d.pending = pending ∧ d.stage = reached ∧
      d.account = { c.account with next := d.next } := by
  split at h
  · next hc =>
      cases h
      refine ⟨hc, rfl, rfl, ?_⟩
      simp [account, hc, hstage, hreached]
  · cases h

theorem account_openElseIf (h : c.openElseIf = .ok d) (hsettled : c.Settled) :
    d.Settled ∧ d.account = c.account := by
  obtain ⟨hstage, hpending, hreached, haccount⟩ :=
    account_moved c.pending (by decide) (by decide) h
  refine ⟨?_, ?_⟩
  · rw [Settled, hpending, hreached]
    exact ⟨fun hsome => (nomatch hstage.symm.trans (hsettled.mp hsome)), nofun⟩
  · rw [haccount]
    simp [account, next, hstage, hreached]

theorem account_setCondition {condition : Fragment} (h : c.setCondition condition = .ok d) :
    d.Settled ∧ d.account = c.account.follow (.condition condition) := by
  obtain ⟨-, hpending, hreached, haccount⟩ :=
    account_moved (some condition) (by decide) (by decide) h
  refine ⟨?_, ?_⟩
  · simp [Settled, hpending, hreached]
  · rw [haccount]
    simp [Account.follow, next, hpending, hreached]

theorem account_openElse (h : c.openElse = .ok d) (hsettled : c.Settled) :
    d.Settled ∧ d.account = c.account.follow .otherwise := by
  obtain ⟨hstage, hpending, hreached, haccount⟩ :=
    account_moved c.pending (by decide) (by decide) h
  refine ⟨?_, ?_⟩
  · rw [Settled, hpending, hreached]
    exact ⟨fun hsome => (nomatch hstage.symm.trans (hsettled.mp hsome)), nofun⟩
  · rw [haccount]
    simp [Account.follow, next, hreached]

theorem account_push {e : Element} (h : c.push e = .ok d) (hpaired : c.Paired) :
    (c.Settled → d.Settled) ∧ d.account = c.account.receive [e] := by
  obtain ⟨conditions, blocks, pending, stage⟩ := c
  unfold push at h
  split at h
  · next hstage =>
      obtain rfl : stage = .inBlock := hstage
      rcases List.eq_nil_or_concat blocks with rfl | ⟨front, last, rfl⟩
      · cases h
      · rw [List.concat_eq_append] at hpaired h ⊢
        rw [pushLast?_concat] at h
        cases h
        refine ⟨id, ?_⟩
        -- The open block may be that of the `else`, which has a lead as well.
        have hfront : front.length < (conditions.map Lead.condition ++ [Lead.otherwise]).length := by
          have hle := hpaired.le.2
          simp only [List.length_append, List.length_singleton, List.length_map] at hle ⊢
          omega
        obtain ⟨lead, hlead⟩ := exists_zipWith_concat hfront
        simp [account, Account.receive, next, hlead, List.modifyLast_concat]
  · cases h

/-- The blocks as the element has them that the chain becomes: one for each condition, and the `else`. -/
theorem zipWith_eq {conditions : List Fragment} {blocks : List Block}
    (hle : conditions.length ≤ blocks.length) (hge : blocks.length ≤ conditions.length + 1) :
    List.zipWith Branch.mk (conditions.map .condition ++ [.otherwise]) blocks =
      Branch.ofConditions conditions (blocks.take conditions.length) ++
        Branch.ofElse (blocks.drop conditions.length).head? := by
  induction conditions generalizing blocks with
  | nil =>
      match blocks with
      | [] => rfl
      | [block] => rfl
  | cons condition conditions ih =>
      cases blocks with
      | nil => simp at hle
      | cons block blocks =>
          simp only [List.length_cons, Nat.add_le_add_iff_right] at hle hge
          simp only [List.map_cons, List.cons_append, List.zipWith_cons_cons, ih hle hge]
          rfl

theorem account_finish {e : Element} (hpaired : c.Paired) (h : c.finish = .ok e) :
    ∃ condition thenBlock conditions blocks elseBlock,
      e = .ifChain condition thenBlock conditions blocks elseBlock ∧
      conditions.length = blocks.length ∧
      c.account = ⟨Branch.ofConditions (condition :: conditions) (thenBlock :: blocks) ++
        Branch.ofElse elseBlock, none, false⟩ := by
  have hle := hpaired.le
  obtain ⟨conditions, blocks, pending, stage⟩ := c
  unfold finish at h
  split at h
  · next hready =>
      dsimp only at h hle hready
      split at h
      · next condition conditions thenBlock blocks =>
          cases h
          simp only [List.length_cons, Nat.add_le_add_iff_right] at hle
          refine ⟨condition, thenBlock, conditions, _, _, rfl, by simp [hle.1], ?_⟩
          have hrest : next ⟨condition :: conditions, thenBlock :: blocks, pending, stage⟩ = none ∧
              stage ≠ .inBlock := by
            cases stage <;> simp_all [next]
          rw [account, hrest.1, zipWith_eq (by simp [hle.1]) (by simp [hle.2])]
          simp [hrest.2]
      · cases h
  · cases h

theorem unmatchedBlocks_eq_one (hpaired : c.Paired) :
    c.unmatchedBlocks = 1 ↔ ∃ branch ∈ c.account.branches, branch.lead = .otherwise := by
  have hle := hpaired.le
  rw [account, zipWith_eq hle.1 hle.2, Branch.exists_otherwise, unmatchedBlocks]
  simp
  omega

end OpenChain

namespace Handler

/-- Only a chain receives elements as a chain does. -/
theorem exists_chain_of_push {h : Handler} {e : Element} {d : OpenChain}
    (hpush : h.push e = .ok (.chain d)) : ∃ c, h = .chain c ∧ c.push e = .ok d := by
  cases h with
  | root elements => cases hpush
  | block b =>
      obtain ⟨other, -, hother⟩ := Except.exists_of_map hpush
      cases hother
  | chain c =>
      obtain ⟨other, hc, hother⟩ := Except.exists_of_map hpush
      cases hother
      exact ⟨c, rfl, hc⟩
  | loop w =>
      obtain ⟨other, -, hother⟩ := Except.exists_of_map hpush
      cases hother

theorem exists_chain_of_pushAll {h : Handler} {elements : Block} {d : OpenChain}
    (hpush : h.pushAll elements = .ok (.chain d)) (hsound : h.Sound) :
    ∃ c, h = .chain c ∧ (c.Settled → d.Settled) ∧ d.account = c.account.receive elements := by
  induction elements generalizing h with
  | nil =>
      cases hpush
      exact ⟨d, rfl, id, (Account.receive_nil _).symm⟩
  | cons e elements ih =>
      rw [pushAll, List.foldlM_cons] at hpush
      obtain ⟨next, hnext, hrest⟩ := Except.exists_of_bind hpush
      obtain ⟨between, rfl, hsettled, haccount⟩ := ih hrest (collected_push hnext hsound).1
      obtain ⟨c, rfl, hc⟩ := exists_chain_of_push hnext
      obtain ⟨hsettled', haccount'⟩ := OpenChain.account_push hc hsound
      refine ⟨c, rfl, hsettled ∘ hsettled', ?_⟩
      rw [haccount, haccount', ← Account.receive_append, List.singleton_append]

theorem exists_chain_of_turns {a : Assembly} {event : Event} {h : Handler} {d : OpenChain}
    (hturns : Turns a event h (.chain d)) (hsound : h.Sound) :
    ∃ c, h = .chain c ∧ (c.Settled → d.Settled ∧ d.account = c.account.addressed a event) := by
  cases hturns with
  | @openBranch first c _ _ hopen =>
      exact ⟨c, rfl, OpenChain.account_openBlock hopen hsound⟩
  | @closeBranch last c _ hclose => exact ⟨c, rfl, OpenChain.account_closeBlock hclose⟩
  | @elseIf keyword c _ hopen => exact ⟨c, rfl, OpenChain.account_openElseIf hopen⟩
  | @condition last isEmpty f c _ hcaptured hset =>
      refine ⟨c, rfl, fun _ => ?_⟩
      simp only [Account.addressed, hcaptured]
      exact OpenChain.account_setCondition hset
  | @otherwise keyword c _ hopen => exact ⟨c, rfl, OpenChain.account_openElse hopen⟩

/-- A chain that is there after a report was there before it, and it is the one that has received the
elements if it is on top. -/
theorem exists_chain_of_receives {handlers above below : List Handler} {elements : Block}
    {d : OpenChain} (hreceives : Receives handlers elements (above ++ .chain d :: below))
    (hsound : ∀ h ∈ handlers, h.Sound) :
    ∃ above' c, handlers = above' ++ .chain c :: below ∧ (c.Settled → d.Settled) ∧
      d.account = if above = [] then c.account.receive elements else c.account := by
  obtain ⟨above', h, hhandlers, -, -, ⟨htop, hpush⟩ | ⟨hcovered, rfl⟩⟩ := hreceives.exists_of_append
  · obtain ⟨c, rfl, hsettled, haccount⟩ := exists_chain_of_pushAll hpush (hsound h (by simp [hhandlers]))
    exact ⟨above', c, hhandlers, hsettled, by rw [if_pos htop, haccount]⟩
  · exact ⟨above', d, hhandlers, id, by rw [if_neg hcovered]⟩

end Handler

open Handler

namespace Assembly

variable {a b : Assembly} {event : Event} {above below : List Handler} {d : OpenChain}

theorem length_handlers {c : OpenChain} (h : a.handlers = above ++ .chain c :: below) :
    a.handlers.length = below.length + 1 ↔ above = [] := by
  rw [h, List.length_append, List.length_cons, ← List.length_eq_zero_iff]
  omega

/-- A chain behind an event was there in front of it and has been told what the event is for it, unless
the event puts it on top. -/
theorem exists_chain_of_moves (hmoves : Moves a b event) (hsound : ∀ h ∈ a.handlers, h.Sound)
    (hb : b.handlers = above ++ .chain d :: below) :
    (∃ above' c, a.handlers = above' ++ .chain c :: below ∧
      (c.Settled → d.Settled ∧ d.account = c.account.after below.length a event b)) ∨
    (a.handlers = below ∧ ∃ condition, a.captured? .ifCondition event = some condition ∧
      d = .start condition ∧ above = []) := by
  -- A chain is on top exactly if nothing is above it, so the two heights become two empty lists.
  have hafter {above' : List Handler} {c : OpenChain} (ha : a.handlers = above' ++ .chain c :: below) :
      c.account.after below.length a event b = if above = [] then
        (if above' = [] then c.account.addressed a event else c.account).receive (a.reported event)
        else c.account := by
    simp only [Account.after, length_handlers ha, length_handlers hb]
  have hcovered {above' : List Handler} (ha : a.handlers = above' ++ .chain d :: below)
      (habove : above ≠ []) : ∃ above' c, a.handlers = above' ++ .chain c :: below ∧
        (c.Settled → d.Settled ∧ d.account = c.account.after below.length a event b) :=
    ⟨above', d, ha, fun hd => ⟨hd, by rw [hafter ha, if_neg habove]⟩⟩
  have huncovered {top : Handler} {rest : List Handler} (ha : a.handlers = top :: rest)
      (hreceives : Receives rest (a.reported event) b.handlers) :
      ∃ above' c, a.handlers = above' ++ .chain c :: below ∧
        (c.Settled → d.Settled ∧ d.account = c.account.after below.length a event b) := by
    obtain ⟨above', c, hrest, hsettled, haccount⟩ :=
      exists_chain_of_receives (hb ▸ hreceives) fun h hmem => hsound h (by simp [ha, hmem])
    have ha' : a.handlers = (top :: above') ++ .chain c :: below := by rw [ha, hrest]; rfl
    refine ⟨top :: above', c, ha', fun hc => ⟨hsettled hc, ?_⟩⟩
    rw [hafter ha', haccount, if_neg (List.cons_ne_nil _ _)]
  cases hmoves with
  | received _ haddresses hreceives =>
      obtain ⟨above', c, ha, hsettled, haccount⟩ :=
        exists_chain_of_receives (hb ▸ hreceives) hsound
      refine .inl ⟨above', c, ha, fun hc => ⟨hsettled hc, ?_⟩⟩
      rw [hafter ha, haccount, Account.addressed_of_not _ haddresses, ite_self]
  | pushed _ hnew hpushed =>
      cases above with
      | nil =>
          obtain ⟨rfl, ha⟩ := List.cons.inj (hpushed.symm.trans hb)
          cases hnew with
          | chain hcaptured => exact .inr ⟨ha, _, hcaptured, rfl, rfl⟩
      | cons top above =>
          obtain ⟨-, ha⟩ := List.cons.inj (hpushed.symm.trans hb)
          exact .inl (hcovered ha (List.cons_ne_nil _ _))
  | turned _ ha hturned hturns hreported =>
      obtain ⟨above', h, hsplit, -, -, ⟨rfl, rfl, rfl⟩ | ⟨habove, rfl⟩⟩ :=
        exists_of_retop hturns.kind.2 (hturned.symm.trans hb)
      · obtain ⟨c, rfl, hc⟩ := exists_chain_of_turns hturns (hsound _ (by simp [ha]))
        obtain ⟨-, rfl⟩ := List.cons.inj (hturned.symm.trans hb)
        refine .inl ⟨[], c, ha, fun hsettled => ⟨(hc hsettled).1, ?_⟩⟩
        rw [@hafter [] c ha, hreported, Account.receive_nil, if_pos rfl, if_pos rfl]
        exact (hc hsettled).2
      · exact .inl (hcovered (ha.trans hsplit) habove)
  | popped _ ha _ _ hreceives => exact .inl (huncovered ha hreceives)
  | began _ _ hbegan =>
      cases above with
      | nil => cases (List.cons.inj (hbegan.symm.trans hb)).1
      | cons top above =>
          obtain ⟨-, ha⟩ := List.cons.inj (hbegan.symm.trans hb)
          exact .inl (hcovered ha (List.cons_ne_nil _ _))
  | ended _ ha _ hreceives => exact .inl (huncovered ha hreceives)

/-! ## Since when a chain is open -/

/-- One of the events put a chain on top of the handlers `below`, the chain has been there ever since, and
the events since then tell this account of it. -/
def Recounts (origin : Assembly) (events : List Event) (below : List Handler) (account : Account) :
    Prop :=
  ∃ before opening life a b condition, events = before ++ opening :: life ∧
    origin.run before = .ok a ∧ a.handlers = below ∧
    a.captured? .ifCondition opening = some condition ∧ a.step opening = .ok b ∧
    b.account below.length (.start condition) life = account ∧
    ∀ passed, passed <+: life → ∃ c above chain,
      b.run passed = .ok c ∧ c.handlers = above ++ .chain chain :: below

variable {origin : Assembly} {events : List Event} {account : Account}

theorem Recounts.concat (h : Recounts origin events below account) (hrun : origin.run events = .ok a)
    (hstep : a.step event = .ok b) (hb : b.handlers = above ++ .chain d :: below) :
    Recounts origin (events ++ [event]) below (account.after below.length a event b) := by
  obtain ⟨before, opening, life, s, first, condition, rfl, hbefore, hbelow, hcaptured, hopening,
    haccount, hlife⟩ := h
  have hlived : first.run life = .ok a := by
    rwa [run_append_of_ok _ hbefore, run_cons_of_ok _ hopening] at hrun
  refine ⟨before, opening, life ++ [event], s, first, condition, by simp, hbefore, hbelow, hcaptured,
    hopening, by rw [account_concat hlived hstep, haccount], ?_⟩
  intro passed hpassed
  rcases List.prefix_concat_iff.mp hpassed with rfl | hpassed
  · exact ⟨b, above, d, by rw [run_append_of_ok _ hlived, run_singleton, hstep], hb⟩
  · exact hlife passed hpassed

theorem recounts_of_run {source : Text} {options : Options}
    (hrun : (start source options).run events = .ok a)
    (ha : a.handlers = above ++ .chain d :: below) :
    d.Settled ∧ Recounts (start source options) events below d.account := by
  -- The origin of a chain is where it first comes up, so the last event is taken away each time.
  induction events using List.reverseRecOn generalizing a above d with
  | nil =>
      cases hrun
      have hmem : Handler.chain d ∈ (start source options).handlers := by rw [ha]; simp
      simp [start] at hmem
  | append_singleton events event ih =>
      obtain ⟨c, hearlier, hstep⟩ := exists_of_run_concat hrun
      obtain ⟨above', chain, hc, htold⟩ | ⟨hbelow, condition, hcaptured, rfl, rfl⟩ :=
        exists_chain_of_moves (moves_step hstep) (sound_of_run hearlier) ha
      · obtain ⟨hsettled, hrecounts⟩ := ih hearlier hc
        obtain ⟨hsettled', haccount⟩ := htold hsettled
        exact ⟨hsettled', haccount ▸ hrecounts.concat hearlier hstep ha⟩
      · refine ⟨OpenChain.settled_start condition, events, event, [], c, a, condition, rfl, hearlier,
          hbelow, hcaptured, hstep, (OpenChain.account_start condition).symm, fun passed hpassed => ?_⟩
        rw [List.prefix_nil.mp hpassed]
        exact ⟨a, [], .start condition, rfl, ha⟩

/-! ## Every run -/

/-- After any events, each open chain has as many blocks as conditions, or one more once the block of an
`else` has begun, and a condition is pending exactly while its block has not begun; the account of the
events since the chain was opened has the same branches.  So each chain of a finished frame has a block
for each further condition and one more exactly if the block of an `else` was begun, and in each block
what was reported while the branch was open. -/
theorem chains_of_run {source : Text} {options : Options} {events : List Event} {a : Assembly}
    (hrun : (start source options).run events = .ok a) :
    (∀ above c below, a.handlers = above ++ .chain c :: below →
      c.conditions.length ≤ c.blocks.length ∧ c.blocks.length ≤ c.conditions.length + 1 ∧
      (c.pending.isSome = true ↔ c.stage = .beforeBlock) ∧
      Recounts (start source options) events below c.account ∧
      (c.unmatchedBlocks = 1 ↔ ∃ branch ∈ c.account.branches, branch.lead = .otherwise)) ∧
    ∀ conversion, a.finish = .ok conversion →
      ∀ condition thenBlock conditions blocks elseBlock,
        .ifChain condition thenBlock conditions blocks elseBlock ∈ blockPostOrder conversion.elements →
        conditions.length = blocks.length ∧
        ∃ earlier last later b chain below branches, events = earlier ++ .closeIf last :: later ∧
          (start source options).run earlier = .ok b ∧ b.handlers = .chain chain :: below ∧
          chain.finish = .ok (.ifChain condition thenBlock conditions blocks elseBlock) ∧
          Recounts (start source options) earlier below ⟨branches, none, false⟩ ∧
          branches = Branch.ofConditions (condition :: conditions) (thenBlock :: blocks) ++
            Branch.ofElse elseBlock ∧
          (elseBlock.isSome = true ↔ ∃ branch ∈ branches, branch.lead = .otherwise) := by
  refine ⟨fun above c below ha => ?_, fun conversion hfinish condition thenBlock conditions blocks
    elseBlock hmem => ?_⟩
  · have hpaired : c.Paired := sound_of_run hrun (.chain c) (by simp [ha])
    obtain ⟨hsettled, hrecounts⟩ := recounts_of_run hrun ha
    exact ⟨hpaired.le.1, hpaired.le.2, hsettled, hrecounts, OpenChain.unmatchedBlocks_eq_one hpaired⟩
  · obtain ⟨earlier, event, later, b, hevents, hearlier, hcompleted⟩ :=
      exists_met_of_finish hrun hfinish hmem
    rcases cases_of_completed? hcompleted with
      ⟨last, isEmpty, text, -, -, hstatement⟩ | ⟨last, chain, below, rfl, hhandlers, hchain⟩ | hother
    · unfold statementElement at hstatement
      split at hstatement <;> cases hstatement
    · have hpaired : chain.Paired := sound_of_run hearlier (.chain chain) (by simp [hhandlers])
      have hbelow : b.handlers = [] ++ .chain chain :: below := hhandlers
      obtain ⟨_, _, _, _, _, heq, hlength, haccount⟩ := OpenChain.account_finish hpaired hchain
      cases heq
      refine ⟨hlength, earlier, last, later, b, chain, below, _, hevents, hearlier, hhandlers, hchain,
        haccount ▸ (recounts_of_run hearlier hbelow).2, rfl, ?_⟩
      exact (Branch.exists_otherwise _ _ _).symm
    · cases hother

/-- The events of `if(a){b();}else if(c){{break;}}else{return;}` in front of the last brace. -/
def elseEvents : List Event :=
  [.openIf ⟨1, 0, 2⟩, .openExpression ⟨1, 3, 4⟩, .closeExpression ⟨1, 3, 4⟩ false, .openBlock ⟨1, 5, 6⟩,
    .expressionStatement ⟨1, 6, 7⟩, .openExpression ⟨1, 6, 7⟩, .closeExpression ⟨1, 8, 9⟩ false,
    .closeBlock ⟨1, 10, 11⟩, .elseIf ⟨1, 11, 15⟩, .openExpression ⟨1, 19, 20⟩,
    .closeExpression ⟨1, 19, 20⟩ false, .openBlock ⟨1, 21, 22⟩, .openBlock ⟨1, 22, 23⟩,
    .jumped .breakLoop ⟨1, 23, 28⟩ none, .closeBlock ⟨1, 29, 30⟩, .closeBlock ⟨1, 30, 31⟩,
    .otherwise ⟨1, 31, 35⟩, .openBlock ⟨1, 35, 36⟩, .returned ⟨1, 36, 42⟩ false]

/-- The jump goes to the second branch, through the block around it, and the return to the `else`. -/
theorem chains_of_run_else :
    (∃ a c, (start "if(a){b();}else if(c){{break;}}else{return;}".toList .default).run elseEvents =
        .ok a ∧ a.handlers = [.chain c, .root []] ∧ c.unmatchedBlocks = 1 ∧
      Recounts (start "if(a){b();}else if(c){{break;}}else{return;}".toList .default) elseEvents
        [.root []] c.account) ∧
    ∃ a elements, (start "if(a){b();}else if(c){{break;}}else{return;}".toList .default).run
        (elseEvents ++ [.closeBlock ⟨1, 43, 44⟩, .closeIf ⟨1, 43, 44⟩]) = .ok a ∧
      a.finish = .ok ⟨elements, []⟩ ∧
      .ifChain (.expression "a".toList) [.call (.expression "b()".toList)] [.expression "c".toList]
        [[.jump .breakLoop]] (some [.returnValue none]) ∈ blockPostOrder elements ∧
      ∃ earlier below,
        Recounts (start "if(a){b();}else if(c){{break;}}else{return;}".toList .default) earlier below
          ⟨[⟨.condition (.expression "a".toList), [.call (.expression "b()".toList)]⟩,
            ⟨.condition (.expression "c".toList), [.jump .breakLoop]⟩,
            ⟨.otherwise, [.returnValue none]⟩], none, false⟩ := by
  obtain ⟨a, c, hopen, hhandlers, hunmatched⟩ :
      ∃ a c, (start "if(a){b();}else if(c){{break;}}else{return;}".toList .default).run elseEvents =
        .ok a ∧ a.handlers = [.chain c, .root []] ∧ c.unmatchedBlocks = 1 := ⟨_, _, rfl, rfl, rfl⟩
  obtain ⟨b, elements, hrun, hfinish, helements⟩ :
      ∃ b elements, (start "if(a){b();}else if(c){{break;}}else{return;}".toList .default).run
          (elseEvents ++ [.closeBlock ⟨1, 43, 44⟩, .closeIf ⟨1, 43, 44⟩]) = .ok b ∧
        b.finish = .ok ⟨elements, []⟩ ∧
        elements = [.ifChain (.expression "a".toList) [.call (.expression "b()".toList)]
          [.expression "c".toList] [[.jump .breakLoop]] (some [.returnValue none])] :=
    ⟨_, _, rfl, rfl, rfl⟩
  have hmem : Element.ifChain (.expression "a".toList) [.call (.expression "b()".toList)]
      [.expression "c".toList] [[.jump .breakLoop]] (some [.returnValue none]) ∈
        blockPostOrder elements := by
    rw [helements]
    simp [blockPostOrder, Element.postOrder]
  obtain ⟨-, -, -, hrecounts, -⟩ := (chains_of_run hopen).1 [] c [.root []] hhandlers
  obtain ⟨-, earlier, -, -, -, -, below, _, -, -, -, -, htold, rfl, -⟩ :=
    (chains_of_run hrun).2 _ hfinish _ _ _ _ _ hmem
  exact ⟨⟨a, c, hopen, hhandlers, hunmatched, hrecounts⟩, b, elements, hrun, hfinish, hmem, earlier,
    below, htold⟩

end Assembly

end CodeFrames
