import CodeFrames.Proofs.Alignment.Basic
import CodeFrames.Proofs.Brackets.Balance

/-!
# Tokens that are passed on the way to a stop

Skipping goes from token to token, over whole groups, until it meets a token to stop at.  It passes
tokens whose brackets nest, if none of those outside brackets is such a token.
-/

namespace CodeFrames

namespace Token

/-! ## Tokens outside brackets -/

/-- The tokens outside brackets, with so many brackets open in front of them. -/
def outsideFrom : Nat → List Token → List Token
  | _, [] => []
  | depth, t :: ts =>
      if t.kind.isOpener then outsideFrom (depth + 1) ts
      else if t.kind.isCloser then outsideFrom (depth - 1) ts
      else if depth = 0 then t :: outsideFrom depth ts
      else outsideFrom depth ts

/-- The tokens outside brackets. -/
def outside (tokens : List Token) : List Token := outsideFrom 0 tokens

section Outside

variable {t : Token} {ps qs : List Token} {depth : Nat}

theorem outsideFrom_opener (h : t.kind.isOpener = true) :
    outsideFrom depth (t :: ps) = outsideFrom (depth + 1) ps := by
  rw [outsideFrom, if_pos h]

theorem outsideFrom_closer (h : ¬ t.kind.isOpener) (hcloser : t.kind.isCloser = true) :
    outsideFrom depth (t :: ps) = outsideFrom (depth - 1) ps := by
  rw [outsideFrom, if_neg h, if_pos hcloser]

theorem outsideFrom_plain (h : ¬ t.kind.isOpener) (hcloser : ¬ t.kind.isCloser) :
    outsideFrom depth (t :: ps) =
      if depth = 0 then t :: outsideFrom depth ps else outsideFrom depth ps := by
  rw [outsideFrom, if_neg h, if_neg hcloser]

theorem outside_plain (h : ¬ t.kind.isOpener) (hcloser : ¬ t.kind.isCloser) :
    outside (t :: ps) = t :: outside ps :=
  (outsideFrom_plain h hcloser).trans (if_pos rfl)

/-- Nothing inside a group is outside brackets. -/
theorem outsideFrom_closing (h : Closing (depth + 1) ps) (below : Nat) (qs : List Token) :
    outsideFrom (below + (depth + 1)) (ps ++ qs) = outsideFrom below qs := by
  generalize hopen : depth + 1 = opened at h
  induction h generalizing depth with
  | opener hopener _ ih =>
      rw [List.cons_append, outsideFrom_opener hopener]
      exact ih rfl
  | closer hopener hcloser _ ih =>
      rw [List.cons_append, outsideFrom_closer hopener hcloser]
      exact ih rfl
  | last hopener hcloser =>
      rw [List.cons_append, List.nil_append, outsideFrom_closer hopener hcloser]
      rfl
  | plain hopener hcloser _ _ ih =>
      rw [List.cons_append, outsideFrom_plain hopener hcloser, if_neg (by omega)]
      exact ih hopen

theorem outside_group (h : t.kind.isOpener = true) (hps : Closing 1 ps) :
    outside (t :: ps ++ qs) = outside qs :=
  (outsideFrom_opener h).trans (outsideFrom_closing hps 0 qs)

end Outside

/-! ## Unbroken tokens -/

/-- A semicolon or the end of input. -/
def Kind.isStop : Kind → Bool
  | .semicolon | .endOfInput => true
  | _ => false

/-- Tokens with no semicolon among them, apart from the groups that are stepped over as a whole. -/
inductive Unbroken : List Token → Prop
  | nil : Unbroken []
  | plain {t ps} : t.kind.isStop = false → Unbroken ps → Unbroken (t :: ps)
  | group {t ps qs} : t.kind.isOpener = true → Closing 1 ps → Unbroken qs → Unbroken (t :: ps ++ qs)

namespace Unbroken

variable {t : Token} {ps qs : List Token}

theorem append (h : Unbroken ps) (g : Unbroken qs) : Unbroken (ps ++ qs) := by
  induction h with
  | nil => exact g
  | plain ht _ ih => exact .plain ht ih
  | group hopener hclosing _ ih =>
      rw [List.append_assoc]
      exact .group hopener hclosing ih

theorem singleton (h : t.kind.isStop = false) : Unbroken [t] := .plain h .nil

theorem of_forall (h : ∀ t ∈ ps, t.kind.isStop = false) : Unbroken ps := by
  induction ps with
  | nil => exact .nil
  | cons t ps ih =>
      exact .plain (h t List.mem_cons_self) (ih fun u hu => h u (List.mem_cons_of_mem t hu))

/-- A group that starts with a bracket. -/
theorem of_closing (h : Closing 0 (t :: ps)) (hopener : t.kind.isOpener = true) :
    Unbroken (t :: ps) := by
  cases h with
  | opener _ hps => simpa using Unbroken.group hopener hps .nil
  | plain hnot => exact absurd hopener hnot

/-- No semicolon stands outside brackets. -/
theorem outsideFrom (h : Unbroken ps) (depth : Nat) :
    ∀ t ∈ Token.outsideFrom depth ps, t.kind.isStop = false := by
  induction h generalizing depth with
  | nil => simp [Token.outsideFrom]
  | @plain t ps ht _ ih =>
      by_cases hopener : t.kind.isOpener
      · rw [outsideFrom_opener hopener]
        exact ih _
      by_cases hcloser : t.kind.isCloser
      · rw [outsideFrom_closer hopener hcloser]
        exact ih _
      rw [outsideFrom_plain hopener hcloser]
      split
      · exact List.forall_mem_cons.mpr ⟨ht, ih _⟩
      · exact ih _
  | group hopener hclosing _ ih =>
      rw [List.cons_append, outsideFrom_opener hopener, outsideFrom_closing hclosing]
      exact ih _

end Unbroken

/-! ## Groups one after the other -/

/-- Groups that start with a bracket, and between them tokens that are no brackets. -/
inductive Grouped : List Token → Prop
  | nil : Grouped []
  | plain {t ps} : ¬ t.kind.isOpener → ¬ t.kind.isCloser → ¬ t.isEnd → Grouped ps → Grouped (t :: ps)
  | group {t ps qs} : t.kind.isOpener = true → Closing 1 ps → Grouped qs → Grouped (t :: ps ++ qs)

/-- Tokens that close all brackets lead to the end of the innermost group, and what follows closes the
others. -/
theorem exists_closing_of_openBrackets? {kind : Kind} {below : List Kind} {ts : List Token}
    (hend : ∀ t ∈ ts, ¬ t.isEnd) (h : openBrackets? (kind :: below) ts = some []) :
    ∃ ps qs, ts = ps ++ qs ∧ Closing (below.length + 1) ps ∧ openBrackets? [] qs = some [] := by
  induction ts generalizing kind below with
  | nil => cases h
  | cons t ts ih =>
      obtain ⟨ht, hts⟩ := List.forall_mem_cons.mp hend
      by_cases hopener : t.kind.isOpener
      · rw [openBrackets?_opener hopener] at h
        obtain ⟨ps, qs, rfl, hps, hqs⟩ := ih hts h
        exact ⟨t :: ps, qs, rfl, .opener hopener hps, hqs⟩
      by_cases hcloser : t.kind.isCloser
      · rw [openBrackets?_cons] at h
        obtain ⟨opened, hopened, hrest⟩ := Option.bind_eq_some_iff.mp h
        obtain ⟨_, hkinds, -⟩ := exists_of_openBrackets?_closer hopener hcloser hopened
        obtain ⟨-, rfl⟩ := List.cons.inj hkinds
        cases below with
        | nil => exact ⟨[t], ts, rfl, .last hopener hcloser, hrest⟩
        | cons kind below =>
            obtain ⟨ps, qs, rfl, hps, hqs⟩ := ih hts hrest
            exact ⟨t :: ps, qs, rfl, .closer hopener hcloser hps, hqs⟩
      · rw [openBrackets?_plain hopener hcloser] at h
        obtain ⟨ps, qs, rfl, hps, hqs⟩ := ih hts h
        exact ⟨t :: ps, qs, rfl, .plain hopener hcloser ht hps, hqs⟩

theorem grouped_of_openBrackets? {ts : List Token} (hend : ∀ t ∈ ts, ¬ t.isEnd)
    (h : openBrackets? [] ts = some []) : Grouped ts := by
  induction hlength : ts.length using Nat.strong_induction_on generalizing ts with
  | _ n ih =>
      cases ts with
      | nil => exact .nil
      | cons t ts =>
          obtain ⟨ht, hts⟩ := List.forall_mem_cons.mp hend
          rw [List.length_cons] at hlength
          by_cases hopener : t.kind.isOpener
          · rw [openBrackets?_opener hopener] at h
            obtain ⟨ps, qs, rfl, hps, hqs⟩ := exists_closing_of_openBrackets? hts h
            have hshort : qs.length < n := by
              rw [List.length_append] at hlength
              omega
            exact .group hopener hps (ih _ hshort (fun u hu => hts u (List.mem_append_right _ hu)) hqs rfl)
          have hcloser : ¬ t.kind.isCloser := fun hcloser => by
            rw [openBrackets?.eq_def] at h
            simp [hopener, hcloser] at h
          rw [openBrackets?_plain hopener hcloser] at h
          exact .plain hopener hcloser ht (ih _ (by omega) hts h rfl)

theorem not_bracket_of_outsideFrom {depth : Nat} {ps : List Token} :
    ∀ t ∈ outsideFrom depth ps, ¬ t.kind.isOpener ∧ ¬ t.kind.isCloser := by
  induction ps generalizing depth with
  | nil => simp [outsideFrom]
  | cons t ps ih =>
      by_cases hopener : t.kind.isOpener
      · rw [outsideFrom_opener hopener]
        exact ih
      by_cases hcloser : t.kind.isCloser
      · rw [outsideFrom_closer hopener hcloser]
        exact ih
      rw [outsideFrom_plain hopener hcloser]
      split
      · exact List.forall_mem_cons.mpr ⟨⟨hopener, hcloser⟩, ih⟩
      · exact ih

/-- The first of the tokens is a bracket or stands outside brackets. -/
theorem Grouped.start {t : Token} {ps : List Token} (h : Grouped (t :: ps)) :
    t.kind.isOpener = true ∨ t ∈ outside (t :: ps) := by
  generalize hts : t :: ps = ts at h
  cases h with
  | nil => cases hts
  | plain hopener hcloser _ _ =>
      obtain ⟨rfl, rfl⟩ := List.cons.inj hts
      rw [outside_plain hopener hcloser]
      exact .inr List.mem_cons_self
  | group hopener _ _ =>
      obtain ⟨rfl, -⟩ := List.cons.inj hts
      exact .inl hopener

/-- The first token to stop at outside brackets has groups in front of it. -/
theorem Grouped.exists_stop {ps : List Token} (h : Grouped ps) (stops : Token → Bool) :
    (∀ t ∈ outside ps, stops t = false) ∨ ∃ before t after, ps = before ++ t :: after ∧
      Grouped before ∧ (∀ u ∈ outside before, stops u = false) ∧ ¬ t.kind.isOpener ∧ stops t = true := by
  induction h with
  | nil => exact .inl (by simp [outside, outsideFrom])
  | @plain t ps hopener hcloser hend hps ih =>
      cases hstop : stops t with
      | true => exact .inr ⟨[], t, ps, rfl, .nil, by simp [outside, outsideFrom], hopener, hstop⟩
      | false =>
          rcases ih with hout | ⟨before, u, after, rfl, hbefore, hout, hu⟩
          · rw [outside_plain hopener hcloser]
            exact .inl (List.forall_mem_cons.mpr ⟨hstop, hout⟩)
          · refine .inr ⟨t :: before, u, after, rfl, .plain hopener hcloser hend hbefore, ?_, hu⟩
            rw [outside_plain hopener hcloser]
            exact List.forall_mem_cons.mpr ⟨hstop, hout⟩
  | @group t ps qs hopener hclosing _ ih =>
      rcases ih with hout | ⟨before, u, after, rfl, hbefore, hout, hu⟩
      · rw [outside_group hopener hclosing]
        exact .inl hout
      · refine .inr ⟨t :: ps ++ before, u, after, by simp, .group hopener hclosing hbefore, ?_, hu⟩
        rw [outside_group hopener hclosing]
        exact hout

/-! ## Annotations -/

/-- An annotation is its sign, a dotted name, and perhaps a group in parentheses. -/
theorem exists_of_annotation {t : Token} (hat : t.kind = .atSign) (ts : List Token) :
    (t :: ts).take (modifierLength (t :: ts)) = [] ∨ ∃ words group,
      (t :: ts).take (modifierLength (t :: ts)) = t :: (words ++ group) ∧
      (∀ u ∈ words, u.kind = .word ∨ u.kind = .dot) ∧
      (group = [] ∨ ∃ paren ps, group = paren :: ps ∧ paren.kind = .openParen ∧ Closing 0 group) := by
  have hwords := word_or_dot_of_dottedWords ts
  rw [modifierLength, if_neg (by simp [isWordIn, isAnyWord, hat])]
  split
  · rw [annotationRestLength]
    split
    · exact .inr ⟨_, [], by simp, hwords, .inl rfl⟩
    · next u us hdrop =>
        split
        · next hparen =>
            cases hgroup : groupLength? (u :: us) with
            | none => exact .inr ⟨_, [], by simp, hwords, .inl rfl⟩
            | some n =>
                obtain ⟨ps, vs, hsplit, rfl, hps⟩ := exists_of_groupLength? hgroup
                refine .inr ⟨ts.take (dottedWordsLength ts), ps, ?_, hwords, .inr ?_⟩
                · rw [Option.getD_some, List.take_succ_cons, List.take_add, hdrop, hsplit, List.take_left]
                · obtain ⟨v, ps, rfl⟩ := List.exists_cons_of_ne_nil hps.ne_nil
                  obtain ⟨rfl, -⟩ := List.cons.inj hsplit
                  exact ⟨u, ps, rfl, hparen, hps⟩
        · exact .inr ⟨_, [], by simp, hwords, .inl rfl⟩
  · exact .inl rfl

end Token

/-! ## Loops that step over groups -/

open Token (Grouped outside)

namespace Reading

variable {source : Text} {body : Reading Bool} {stops : Token → Bool}

/-- One round steps over a group or over a token that is none to stop at. -/
structure StepsOver (stops : Token → Bool) (body : Reading Bool) : Prop where
  group : ∀ c : Cursor, c.here.kind.isOpener = true → body c = (do
    skipGroup
    return true : Reading Bool) c
  plain : ∀ c : Cursor, ¬ c.here.kind.isOpener → stops c.here = false → body c = (do
    let _ ← take
    return true : Reading Bool) c

theorem exists_skipGroup {c : Cursor} (hc : Token.Laid source c.tokens) {ps qs : List Token}
    (htokens : c.tokens = ps ++ qs) (hps : Token.Closing 0 ps) :
    ∃ d, skipGroup c = ([], .ok ((), d)) ∧ c.Passes d ∧ d.tokens = qs := by
  have hlength := Token.groupLengthFrom?_eq_some.mpr ⟨ps, qs, htokens, rfl, hps⟩
  have hend := Token.not_isEnd_of_groupFrom hlength
  obtain ⟨n, hn⟩ := Nat.exists_eq_succ_of_ne_zero (List.length_pos_of_ne_nil hps.ne_nil).ne'
  refine ⟨c.forward ps.length, skipGroup_of_length hlength, ?_, ?_⟩
  · rw [hn] at hend ⊢
    exact Cursor.passes_forward hc (hend c.here List.mem_cons_self) n
  · rw [Cursor.tokens_forward hc hend, htokens, List.drop_left]

/-- Groups are passed, and tokens between them, if there is none to stop at. -/
theorem StepsOver.exists_passed (h : StepsOver stops body) {ps qs : List Token} (hps : Grouped ps)
    (hout : ∀ t ∈ outside ps, stops t = false) {c : Cursor} (hc : Token.Laid source c.tokens)
    (htokens : c.tokens = ps ++ qs) :
    ∃ d, d.tokens = qs ∧ c.Reaches d ∧ ∀ e, Rounds body d [] e → Rounds body c [] e := by
  induction hps generalizing c with
  | nil => exact ⟨c, htokens, .refl c, fun _ => id⟩
  | @plain t ts hopener hcloser hend _ ih =>
      obtain ⟨hhere, -⟩ := List.cons.inj (htokens : c.here :: c.ahead = t :: (ts ++ qs))
      rw [Token.outside_plain hopener hcloser] at hout
      obtain ⟨ht, hts⟩ := List.forall_mem_cons.mp hout
      rw [← hhere] at hopener hend ht
      have hpasses := Cursor.passes_advance hc hend
      have hadvanced : c.advance.tokens = ts ++ qs := by
        have hdrop := Cursor.tokens_forward (n := 1) hc (by simpa [Cursor.tokens] using hend)
        exact hdrop.trans (by rw [htokens]; rfl)
      have hrun : body c = ([], .ok (true, c.advance)) := h.plain c hopener ht
      obtain ⟨d, hd, hreaches, hrounds⟩ := ih hts (hpasses.reaches.laid hc) hadvanced
      exact ⟨d, hd, hpasses.reaches.trans hreaches, fun e he => .more hrun hpasses.length_lt (hrounds e he)⟩
  | @group t ps us hopener hclosing _ ih =>
      obtain ⟨hhere, -⟩ := List.cons.inj (htokens : c.here :: c.ahead = t :: (ps ++ us ++ qs))
      rw [Token.outside_group hopener hclosing] at hout
      obtain ⟨m, hskip, hpasses, hm⟩ := exists_skipGroup hc (htokens.trans (List.append_assoc ..))
        (.opener hopener hclosing)
      have hrun : body c = ([], .ok (true, m)) := by
        rw [h.group c (hhere ▸ hopener), bind_of_ok _ hskip]
        rfl
      obtain ⟨d, hd, hreaches, hrounds⟩ := ih hout (hpasses.reaches.laid hc) hm
      exact ⟨d, hd, hpasses.reaches.trans hreaches, fun e he => .more hrun hpasses.length_lt (hrounds e he)⟩

end Reading

end CodeFrames
