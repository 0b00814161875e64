import CodeFrames.Proofs.Bracing.Assembly
import CodeFrames.Proofs.Levels
import CodeFrames.Proofs.Seam.Source
import CodeFrames.Proofs.Settling.Statement

/-!
# The place of a statement that is put in braces

The tokens of a statement and those behind it are moved on by the braces around the statement.  What
is read in front of the statement, and in it, is told apart from what follows by a source that ends
there: it is read the same, and there it is compared token by token.
-/

namespace CodeFrames

open Token (Marked Matched Standing shift)

namespace Token

/-- The end of input at a place. -/
def endAt (n : Nat) : Token := ⟨⟨0, n, n⟩, .endOfInput, []⟩

section Order

variable {source : Text} {before after ps : List Token} {t u first last : Token}

theorem Laid.stop_le_start (h : Laid source (before ++ after)) (ht : t ∈ before) (hu : u ∈ after) :
    t.stop ≤ u.start := (List.pairwise_append.mp h.ordered).2.2 t ht u hu

theorem Laid.start_le_start (h : Laid source (before ++ after)) (ht : t ∈ before) (hu : u ∈ after) :
    t.start ≤ u.start :=
  ((h.liesIn t (List.mem_append_left _ ht)).start_le_stop).trans (h.stop_le_start ht hu)

theorem Laid.start_le_of_head (h : Laid source ps) (hfirst : first ∈ ps.head?) (ht : t ∈ ps) :
    first.start ≤ t.start := by
  obtain ⟨more, rfl⟩ := List.head?_eq_some_iff.mp hfirst
  rcases List.mem_cons.mp ht with rfl | ht
  · exact le_rfl
  · exact (show Laid source ([first] ++ more) from h).start_le_start List.mem_cons_self ht

theorem Laid.stop_le_of_getLast (h : Laid source (ps ++ after)) (hlast : last ∈ ps.getLast?) (ht : t ∈ ps) :
    t.stop ≤ last.stop := by
  obtain ⟨init, rfl⟩ := List.getLast?_eq_some_iff.mp hlast
  rw [List.append_assoc] at h
  rcases List.mem_append.mp ht with ht | ht
  · exact (h.stop_le_start ht List.mem_cons_self).trans (h.liesIn last (by simp)).start_le_stop
  · rw [List.mem_singleton.mp ht]

end Order

variable {source : Text} {ps ts : List Token} {n : Nat}

theorem liesIn_endAt (h : source.IsCut n) : (endAt n).LiesIn source := by
  obtain ⟨before, after, rfl, rfl⟩ := h
  exact ⟨before, after, rfl, rfl, rfl⟩

/-- The source may end behind some of the tokens. -/
theorem Laid.endAt (h : Laid source (ps ++ ts)) (hts : ts ≠ []) (hstops : ∀ t ∈ ps, t.stop ≤ n)
    (hcut : source.IsCut n) : Laid source (ps ++ [Token.endAt n]) where
  liesIn := List.forall_mem_append.mpr ⟨fun t ht => h.liesIn t (List.mem_append_left _ ht),
    List.forall_mem_singleton.mpr (liesIn_endAt hcut)⟩
  ordered := List.pairwise_append.mpr ⟨(List.pairwise_append.mp h.ordered).1, List.pairwise_singleton _ _,
    fun t ht _ hu => by
      obtain rfl := List.mem_singleton.mp hu
      exact hstops t ht⟩
  ended := ⟨ps, Token.endAt n, rfl, rfl, h.not_isEnd hts⟩

theorem openBrackets?_map_shift (lines bytes : Nat) (kinds : List Kind) (ts : List Token) :
    openBrackets? kinds (ts.map (shift lines bytes)) = openBrackets? kinds ts := by
  induction ts generalizing kinds with
  | nil => rfl
  | cons t ts ih => simp only [List.map_cons, openBrackets?, shift_kind, ih]

theorem Matched.map_shift (h : Matched ps) (lines bytes : Nat) : Matched (ps.map (shift lines bytes)) := by
  obtain ⟨⟨kinds, opened, hopened⟩, hcode⟩ := h
  refine ⟨⟨kinds, opened, by rw [openBrackets?_map_shift, hopened]⟩, ?_⟩
  rw [List.forall_mem_map]
  exact hcode

end Token

/-! ## Sources that end early -/

theorem Cursor.exists_of_tokens (before : Token) {ts : List Token} (hts : ts ≠ []) (comments : List Token) :
    ∃ c : Cursor, c.before = before ∧ c.tokens = ts ∧ c.comments = comments := by
  obtain ⟨t, ts, rfl⟩ := List.exists_cons_of_ne_nil hts
  exact ⟨⟨before, t, ts, comments⟩, rfl, rfl, rfl⟩

section Cut

variable {source : Text} {c d : Cursor} {ps ts comments pending : List Token} {n : Nat}

theorem Cursor.Sited.cut (hc : c.Sited source) (htokens : c.tokens = ps ++ ts) (hts : ts ≠ [])
    (hstops : ∀ t ∈ ps, t.stop ≤ n) (hcut : source.IsCut n) (hstart : c.here.start ≤ n)
    (hd : d.tokens = ps ++ [Token.endAt n]) (hbefore : d.before = c.before) : d.Sited source := by
  refine ⟨hd ▸ (htokens ▸ hc.laid : Token.Laid source (ps ++ ts)).endAt hts hstops hcut, ?_⟩
  rw [hd, hbefore, List.forall_mem_append, List.forall_mem_singleton]
  exact ⟨fun t ht => hc.behind t (htokens ▸ List.mem_append_left _ ht),
    (hc.behind c.here List.mem_cons_self).trans hstart⟩

/-- The source ends instead of what follows. -/
def Seam.cutAt (source : Text) (n : Nat) (ts comments : List Token) (hts : ts ≠ []) : Seam where
  rest := ts
  rest' := [Token.endAt n]
  comments := comments
  comments' := []
  source' := source
  rest_ne := hts
  rest_ne' := List.cons_ne_nil _ _
  word := nofun

theorem Seam.exists_at_cut (hc : c.Sited source) (htokens : c.tokens = ps ++ ts) (hts : ts ≠ [])
    (hcomments : c.comments = pending ++ comments) (hmatched : Matched ps)
    (hearly : ∀ t ∈ ps, ∀ u ∈ comments, t.start ≤ u.start) (hstops : ∀ t ∈ ps, t.stop ≤ n)
    (hcut : source.IsCut n) (hstart : c.here.start ≤ n) :
    ∃ d : Cursor, (Seam.cutAt source n ts comments hts).At ps c d ∧ d.tokens = ps ++ [Token.endAt n] := by
  obtain ⟨d, hbefore, hd, hpending⟩ := Cursor.exists_of_tokens c.before
    (List.append_ne_nil_of_right_ne_nil ps (List.cons_ne_nil (Token.endAt n) [])) pending
  exact ⟨d, ⟨htokens, hd, hbefore, ⟨pending, hcomments, hpending.trans (List.append_nil _).symm⟩, hmatched,
    fun t ht u hu => hearly t ht u (by simpa [cutAt] using hu), hc.cut htokens hts hstops hcut hstart hd hbefore⟩, hd⟩

end Cut

/-! ## Level seams -/

/-- What follows starts at one place, whichever it is, and so do the comments that come with it. -/
def Seam.Level (s : Seam) : Prop :=
  ∃ n, (∀ t ∈ s.rest.head?, t.start = n) ∧ (∀ t ∈ s.rest'.head?, t.start = n) ∧
    ∀ u ∈ s.comments ++ s.comments', n ≤ u.start

theorem Seam.At.relieved_of_level {s : Seam} {ps : List Token} {c c' : Cursor} (h : s.At ps c c')
    (hs : s.Level) : c'.due = c.due ∧ s.At ps c.relieved c'.relieved := by
  by_cases hnil : ps = []
  · subst hnil
    obtain ⟨n, hrest, hrest', hlater⟩ := hs
    have hstart : c.here.start = n := hrest _ (by rw [← show c.tokens = s.rest from h.tokens]; rfl)
    have hstart' : c'.here.start = n := hrest' _ (by rw [← show c'.tokens = s.rest' from h.tokens']; rfl)
    exact h.relieved_of_start (hstart'.trans hstart.symm) fun u hu => not_lt.mpr (hstart ▸ hlater u hu)
  · exact h.relieved hnil

theorem Reading.LocalAt.comments {s : Seam} (hs : s.Level) (P : List Token → Prop) (c : Cursor) :
    reportComments.LocalAt s P (fun _ => P) c := by
  intro events u d hrun
  rw [c.reportComments_eq] at hrun
  obtain ⟨rfl, hrun⟩ := Prod.mk.injEq .. |>.mp hrun
  obtain rfl : c.relieved = d := by simpa using hrun
  refine ⟨.refl c, fun qs hqs hend => ⟨qs, hqs, hend, fun c' hc' => ?_⟩⟩
  obtain ⟨hdue, hat⟩ := hc'.relieved_of_level hs
  exact ⟨_, by rw [c'.reportComments_eq, hdue], hat⟩

/-- A statement in front of a seam is read the same over it. -/
theorem Enclosed.statement_over {source : Text} {s : Seam} {levels : Nat} {c c' d : Cursor} {ps : List Token}
    {events : List Event} (hc : c.Sited source) (hat : s.At ps c c')
    (hrun : (within levels).statement c = (events, .ok ((), d))) (hend : d.tokens = s.rest) :
    ∃ d', (within levels).statement c' = (events, .ok ((), d')) ∧ d'.tokens = s.rest' := by
  obtain ⟨-, hlocal⟩ := ((localInside_within source s levels).statement c hc) events () d hrun
  obtain ⟨qs, hqs, -, hsame⟩ := hlocal [] hend trivial
  obtain rfl : ps = qs := List.append_cancel_right (hat.tokens.symm.trans hqs)
  obtain ⟨d', hrun', hd'⟩ := hsame c' hat
  exact ⟨d', hrun', hd'.tokens'⟩

/-- The other way round too. -/
theorem EventsResemble.nil_comments {C : Comparison} (hany : ∀ d d', C.documentation d d') (ts : List Token) :
    EventsResemble C [] (ts.map fun t => .comment t.toSpan) := by
  induction ts with
  | nil => exact .nil
  | cons t ts ih => exact .commentRight t.toSpan hany ih

/-- A closing brace opens no statement. -/
theorem Enclosed.kind_of_statement {levels : Nat} {c d : Cursor} {events : List Event}
    (h : (within levels).statement c = (events, .ok ((), d))) : c.here.kind ≠ .closeBrace := by
  intro hkind
  cases levels with
  | zero => cases h
  | succ levels =>
      obtain ⟨more, hmore, -⟩ := Reading.exists_of_reported
        ((congrFun (Reading.statement_eq_reported (within levels)) c).symm.trans h)
      have hkind : c.relieved.here.kind = .closeBrace := hkind
      change Reading.statementOf _ (Reading.statementShape c.relieved) c.relieved = _ at hmore
      rw [show Reading.statementShape c.relieved = .expression by rw [Reading.statementShape, hkind]] at hmore
      obtain ⟨_, _, _, _, ⟨⟩, hvalue, -⟩ := Reading.exists_of_bind_ok (show
        (Reading.emit (.expressionStatement c.relieved.here.toSpan) >>= fun _ =>
          Reading.expression (within levels) >>= fun _ => Reading.semicolon >>= fun _ => Pure.pure ()) c.relieved =
            (more, .ok ((), d)) from hmore)
      obtain ⟨_, _, _, _, hexpression, -, -⟩ := Reading.exists_of_bind_ok hvalue
      have hends : c.relieved.here.endsExpression = true := by rw [Token.endsExpression, hkind]
      rw [Reading.expression, Reading.here_bind, if_pos hends] at hexpression
      cases hexpression

theorem Reading.expect_of_kind {c : Cursor} {kind : Token.Kind} (h : c.here.kind = kind) (symbol : String) :
    expect kind symbol c = ([], .ok (c.here, c.advance)) := by
  rw [expect, cursor_bind, if_pos (show c.isAt kind = true from decide_eq_true h)]
  rfl

/-- A block of one statement. -/
theorem Reading.block_of_statement {inner : Enclosed} {c d : Cursor} {events : List Event} (hopen : c.here.kind = .openBrace)
    (hfirst : c.advance.here.kind ≠ .closeBrace) (hend : ¬ c.advance.here.isEnd)
    (hrun : inner.statement c.advance = (events, .ok ((), d))) (hpasses : c.advance.Passes d)
    (hclose : d.here.kind = .closeBrace) :
    block inner c = (.openBlock c.here.toSpan :: ((events ++ d.due.map fun t => .comment t.toSpan) ++
      [.closeBlock d.here.toSpan]), .ok ((), d.relieved.advance)) := by
  have hround : blockRound inner c.advance = (events, .ok (true, d)) := by
    change (if c.advance.here.kind = .closeBrace then _ else _ : Reading Bool) c.advance = _
    rw [if_neg hfirst, if_neg hend]
    change (inner.statement >>= fun _ => Pure.pure true) c.advance = _
    rw [bind_of_ok _ hrun]
    exact Prod.ext (List.append_nil _) rfl
  have hlast : blockRound inner d = ([], .ok (false, d)) := by
    change (if d.here.kind = .closeBrace then _ else _ : Reading Bool) d = _
    rw [if_pos hclose]
    rfl
  have hrounds : repeatWhile (blockRound inner) c.advance = (events ++ [], .ok ((), d)) :=
    (Rounds.more hround hpasses.length_lt (.last hlast)).loop le_rfl
  have hrest : blockRest inner c.advance = ((events ++ d.due.map fun t => .comment t.toSpan) ++
      [.closeBlock d.here.toSpan], .ok ((), d.relieved.advance)) := by
    change (repeatWhile (blockRound inner) >>= fun _ => reportComments >>= fun _ => take >>= fun brace =>
      emit (.closeBlock brace.toSpan)) c.advance = _
    rw [bind_of_ok _ hrounds, bind_of_ok _ d.reportComments_eq]
    exact Prod.ext (by simp [take, emit, Bind.bind, Reading.bind, Cursor.relieved]) rfl
  rw [block, bind_of_ok _ (expect_of_kind hopen _)]
  change (([] : List Event) ++ ([.openBlock c.here.toSpan] ++ (blockRest inner c.advance).1),
    (blockRest inner c.advance).2) = _
  rw [hrest]
  rfl

namespace Bracing

variable (b : Bracing)

/-- Where the stretch starts. -/
abbrev start : Nat := Text.byteSize b.front

/-- Where the stretch stops. -/
abbrev stop : Nat := Text.byteSize b.front + Text.byteSize b.stretch

theorem isCut_start : b.source.IsCut b.start := ⟨b.front, _, rfl, rfl⟩

theorem isCut_start' : b.braced.IsCut b.start := ⟨b.front, _, rfl, rfl⟩

theorem isCut_stop : b.source.IsCut b.stop :=
  ⟨b.front ++ b.stretch, b.back, by simp [source], Text.byteSize_append _ _⟩

theorem isCut_stop' : b.braced.IsCut (b.stop + 1) := by
  refine ⟨b.front ++ '{' :: b.stretch, '}' :: b.back, by simp [braced], ?_⟩
  rw [Text.byteSize_append, Text.byteSize_cons, show Char.utf8Size '{' = 1 from rfl, stop]
  omega

variable {b}

/-- Tokens of a part of the source, and the end of input behind them. -/
theorem aligned_of_cut {part : Part} {c c' : Cursor} {ps : List Token} {n : Nat} (hc : c.Sited b.source)
    (hc' : c'.Sited b.braced) (htokens : c.tokens = ps ++ [Token.endAt n])
    (htokens' : c'.tokens = ps.map (shift 0 part.shift) ++ [Token.endAt (n + part.shift)])
    (hps : ∀ t ∈ ps, b.range part t.start ∧ b.range part t.stop) (hn : b.range part n) :
    (b.pairing part).Aligned c c' := by
  refine ⟨⟨hc.laid, ?_, ?_⟩, hc, hc'⟩
  · rw [htokens, List.forall_mem_append, List.forall_mem_singleton]
    exact ⟨hps, hn, hn⟩
  · rw [htokens, htokens', List.map_append]
    rfl

/-- Comments do not matter to assemblies that are compared but for the documentation. -/
theorem Twin.comments {Pre : Assembly → Prop} {events events' : List Event} (h : b.Twin Pre events events')
    (ts : List Token) : b.Twin Pre events ((ts.map fun t => .comment t.toSpan) ++ events') := by
  induction ts with
  | nil => exact h
  | cons t ts ih =>
      intro a a' d ha hres hrun
      exact ih a _ d ha { hres with comment := trivial } hrun

/-! ## The tokens of the stretch -/

/-- The tokens of the stretch and those behind it, the comments among them, and the braces. -/
structure Site (b : Bracing) where
  inside : List Token
  behind : List Token
  insideComments : List Token
  behindComments : List Token
  opening : Token
  closing : Token
  inside_ne : inside ≠ []
  behind_ne : behind ≠ []
  opening_kind : opening.kind = .openBrace
  closing_kind : closing.kind = .closeBrace
  opening_start : opening.start = b.start
  closing_start : closing.start = b.stop + 1
  first : ∀ t ∈ inside.head?, t.start = b.start
  stops : ∀ t ∈ inside, t.stop ≤ b.stop
  starts : ∀ t ∈ behind, b.stop ≤ t.start
  matched : Matched inside
  early : ∀ t ∈ inside, ∀ u ∈ behindComments, t.start ≤ u.start
  late : ∀ u ∈ insideComments ++ behindComments, b.start ≤ u.start

namespace Site

variable (σ : b.Site)

/-- The tokens at the stretch. -/
def rest : List Token := σ.inside ++ σ.behind

/-- Those behind the opening brace. -/
def rest' : List Token := σ.inside.map (shift 0 1) ++ σ.closing :: σ.behind.map (shift 0 2)

def comments : List Token := σ.insideComments ++ σ.behindComments

def comments' : List Token := σ.insideComments.map (shift 0 1) ++ σ.behindComments.map (shift 0 2)

theorem rest_ne : σ.rest ≠ [] := List.append_ne_nil_of_left_ne_nil σ.inside_ne _

/-- The seam in front of the stretch. -/
def seam : Seam where
  rest := σ.rest
  rest' := σ.opening :: σ.rest'
  comments := σ.comments
  comments' := σ.comments'
  source' := b.braced
  rest_ne := σ.rest_ne
  rest_ne' := List.cons_ne_nil _ _
  word := fun _ h => by simp [Token.isWord, σ.opening_kind] at h

/-- The source may end in front of the stretch. -/
def edge : Seam := .cutAt b.source b.start σ.rest σ.comments σ.rest_ne

/-- A seam in front of the stretch. -/
structure Meets (s : Seam) : Prop where
  rest_eq : s.rest = σ.rest
  comments_eq : s.comments = σ.comments
  level : s.Level

variable {σ}

theorem start_of_head {t : Token} (h : t ∈ σ.rest.head?) : t.start = b.start := by
  obtain ⟨u, us, hinside⟩ := List.exists_cons_of_ne_nil σ.inside_ne
  refine σ.first t ?_
  rw [rest, hinside] at h
  rw [hinside]
  exact h

variable (σ)

/-- What the comments do not start in front of, they do not start in front of with the braces. -/
theorem le_start_of_comments {n : Nat} (h : ∀ u ∈ σ.comments, n ≤ u.start) :
    ∀ u ∈ σ.comments ++ σ.comments', n ≤ u.start := by
  rw [comments, List.forall_mem_append] at h
  simp only [comments, comments', List.forall_mem_append, List.forall_mem_map]
  exact ⟨h, fun u hu => Nat.le_add_right_of_le (h.1 u hu), fun u hu => Nat.le_add_right_of_le (h.2 u hu)⟩

theorem meets_seam : σ.Meets σ.seam := by
  refine ⟨rfl, rfl, b.start, fun t => start_of_head, fun t ht => ?_, ?_⟩
  · obtain rfl : σ.opening = t := by simpa [seam] using ht
    exact σ.opening_start
  · exact σ.le_start_of_comments σ.late

theorem meets_edge : σ.Meets σ.edge := by
  refine ⟨rfl, rfl, b.start, fun t => start_of_head, fun t ht => ?_, ?_⟩
  · obtain rfl : Token.endAt b.start = t := by simpa [edge, Seam.cutAt] using ht
    rfl
  · simpa [edge, Seam.cutAt, comments] using σ.late

variable {σ} {c c' d : Cursor} {ps : List Token} {events : List Event} {levels : Nat}

theorem stop_le_of_mem (hc : Token.Laid b.source (ps ++ σ.rest)) : ∀ t ∈ ps, t.stop ≤ b.start := by
  obtain ⟨u, us, hrest⟩ := List.exists_cons_of_ne_nil σ.rest_ne
  intro t ht
  have hle := hc.stop_le_start ht (by rw [hrest]; exact List.mem_cons_self)
  rwa [start_of_head (t := u) (by rw [hrest]; rfl)] at hle

/-- Up to the stretch both texts are the same. -/
theorem exists_edge (hc : c.Sited b.source) (h : σ.seam.At ps c c') :
    ∃ d, σ.edge.At ps c d ∧ (b.pairing .front).Aligned d d := by
  obtain ⟨pending, hpending, -⟩ := h.comments
  have hlaid := hc.laid
  rw [show c.tokens = ps ++ σ.rest from h.tokens] at hlaid
  have hstops := stop_le_of_mem hlaid
  have hstart : c.here.start ≤ b.start := by
    cases ps with
    | nil => exact (start_of_head (by rw [← show c.tokens = σ.rest from h.tokens]; rfl)).le
    | cons t ts =>
        rw [(List.cons.inj h.tokens).1]
        exact (hlaid.liesIn t List.mem_cons_self).start_le_stop.trans (hstops t List.mem_cons_self)
  have hstart' : c'.here.start ≤ b.start := by
    cases ps with
    | nil =>
        rw [show c'.here = σ.opening from (List.cons.inj h.tokens').1]
        exact σ.opening_start.le
    | cons t ts => rwa [h.here_eq (List.cons_ne_nil _ _)]
  obtain ⟨d, hd, htokens⟩ := Seam.exists_at_cut hc h.tokens σ.rest_ne hpending h.matched
    (fun t ht u hu => h.early t ht u (List.mem_append_left _ hu)) hstops b.isCut_start hstart
  have hsited' := h.sited'.cut h.tokens' σ.seam.rest_ne' hstops b.isCut_start' hstart' htokens
    (hd.before.trans h.before.symm)
  refine ⟨d, hd, aligned_of_cut hd.sited' hsited' htokens (by simpa [Part.shift, Token.map_shift_zero] using htokens)
    (fun t ht => ?_) (Nat.le_refl b.start)⟩
  have hstop := hstops t ht
  exact ⟨(hlaid.liesIn t (List.mem_append_left _ ht)).start_le_stop.trans hstop, hstop⟩

/-- Behind the stretch the same tokens stand. -/
theorem aligned_behind (hd : d.Sited b.source) {d' : Cursor} (hd' : d'.Sited b.braced) (htokens : d.tokens = σ.behind)
    (htokens' : d'.tokens = σ.behind.map (shift 0 2)) : (b.pairing .back).Aligned d d' := by
  refine ⟨⟨hd.laid, fun t ht => ?_, htokens ▸ htokens'⟩, hd, hd'⟩
  have hlies := hd.laid.liesIn t ht
  have hstart : Text.byteSize b.front + Text.byteSize b.stretch ≤ t.start := σ.starts t (htokens ▸ ht)
  have hle := hlies.start_le_stop
  have hstop : t.stop ≤ Text.byteSize b.source := by
    obtain ⟨before, after, hsource, -, hstop⟩ := hlies
    rw [hsource, hstop, Text.byteSize_append, Text.byteSize_append]
    omega
  rw [show b.source = b.front ++ (b.stretch ++ b.back) from rfl, Text.byteSize_append, Text.byteSize_append] at hstop
  constructor <;> constructor <;> omega

/-! ## The statement in braces -/

/-- Tokens of the stretch lie within it. -/
theorem range_inside (hlaid : Token.Laid b.source σ.rest) :
    ∀ t ∈ σ.inside, b.range .stretch t.start ∧ b.range .stretch t.stop := by
  obtain ⟨first, hfirst⟩ := Option.isSome_iff_exists.mp (List.isSome_head?.mpr σ.inside_ne)
  have hhead : first ∈ σ.rest.head? := by
    rw [rest, List.head?_append, hfirst]
    rfl
  intro t ht
  have hmem : t ∈ σ.rest := List.mem_append_left _ ht
  have hstart : b.start ≤ t.start := σ.first first hfirst ▸ hlaid.start_le_of_head hhead hmem
  have hle := (hlaid.liesIn t hmem).start_le_stop
  exact ⟨⟨hstart, hle.trans (σ.stops t ht)⟩, hstart.trans hle, σ.stops t ht⟩

theorem here_mem_inside (htokens : c.tokens = σ.rest) : c.here ∈ σ.inside := by
  obtain ⟨t, ts, hinside⟩ := List.exists_cons_of_ne_nil σ.inside_ne
  rw [rest, hinside] at htokens
  rw [hinside, (List.cons.inj htokens).1]
  exact List.mem_cons_self

/-- The text with the braces may end in front of the closing one. -/
def closingSeam (σ : b.Site) : Seam where
  rest := [Token.endAt (b.stop + 1)]
  rest' := σ.closing :: σ.behind.map (shift 0 2)
  comments := []
  comments' := σ.behindComments.map (shift 0 2)
  source' := b.braced
  rest_ne := List.cons_ne_nil _ _
  rest_ne' := List.cons_ne_nil _ _
  word := fun _ h => by simp [Token.isWord, σ.closing_kind] at h

/-- The statement and its braces may be told apart from what follows. -/
theorem exists_closingSeam (hlaid : Token.Laid b.source σ.rest) (he : c'.Sited b.braced) (htokens : c'.tokens = σ.rest')
    {pending : List Token} (hpending : c'.comments = pending ++ σ.behindComments.map (shift 0 2)) :
    ∃ d, d.Sited b.braced ∧ d.tokens = σ.inside.map (shift 0 1) ++ [Token.endAt (b.stop + 1)] ∧
      σ.closingSeam.At (σ.inside.map (shift 0 1)) d c' := by
  have hstops : ∀ u ∈ σ.inside.map (shift 0 1), u.stop ≤ b.stop + 1 := by
    rw [List.forall_mem_map]
    exact fun u hu => Nat.add_le_add_right (σ.stops u hu) 1
  have hstart : c'.here.start ≤ b.stop + 1 := by
    obtain ⟨t, ts, hinside⟩ := List.exists_cons_of_ne_nil σ.inside_ne
    have hmem : t ∈ σ.inside := hinside ▸ List.mem_cons_self
    rw [rest', hinside] at htokens
    rw [show c'.here = t.shift 0 1 from (List.cons.inj htokens).1]
    exact Nat.add_le_add_right (range_inside hlaid t hmem).1.2 1
  obtain ⟨d, hbefore, hd, hcomments⟩ := Cursor.exists_of_tokens c'.before
    (List.append_ne_nil_of_right_ne_nil (σ.inside.map (shift 0 1)) (List.cons_ne_nil (Token.endAt (b.stop + 1)) [])) pending
  refine ⟨d, he.cut htokens (List.cons_ne_nil _ _) hstops b.isCut_stop' hstart hd hbefore, hd,
    ⟨hd, htokens, hbefore.symm, ⟨pending, hcomments.trans (List.append_nil _).symm, hpending⟩,
      σ.matched.map_shift 0 1, ?_, he⟩⟩
  simp only [closingSeam, List.nil_append, List.forall_mem_map]
  exact fun u hu v hv => Nat.add_le_add (σ.early u hu v hv) (by decide)

/-- The statement is read in braces as it is read without. -/
theorem exists_statement (hc : c.Sited b.source) (hrun : (Enclosed.within levels).statement c = (events, .ok ((), d)))
    (htokens : c.tokens = σ.rest) (hend : d.tokens = σ.behind) {pending : List Token}
    (hpending : c.comments = pending ++ σ.behindComments) {e : Cursor} (he : e.Sited b.braced)
    (htokens' : e.tokens = σ.rest') {pending' : List Token}
    (hpending' : e.comments = pending' ++ σ.behindComments.map (shift 0 2)) :
    ∃ events' f, (Enclosed.within levels).statement e = (events', .ok ((), f)) ∧
      f.tokens = σ.closing :: σ.behind.map (shift 0 2) ∧ EventsResemble (b.comparison .stretch) events events' := by
  have hlaid : Token.Laid b.source σ.rest := htokens ▸ hc.laid
  have hhere := here_mem_inside htokens
  -- The source ends behind the statement.
  obtain ⟨c₁, hat₁, hc₁⟩ := Seam.exists_at_cut hc htokens σ.behind_ne hpending σ.matched σ.early σ.stops b.isCut_stop
    (range_inside hlaid _ hhere).1.2
  obtain ⟨d₁, hrun₁, hd₁⟩ := Enclosed.statement_over hc hat₁ hrun hend
  -- So does the text with the braces.
  obtain ⟨c₂, hsited₂, hc₂, hat₂⟩ := exists_closingSeam hlaid he htokens' hpending'
  have haligned : (b.pairing .stretch).Aligned c₁ c₂ :=
    aligned_of_cut hat₁.sited' hsited₂ hc₁ hc₂ (range_inside hlaid) ⟨Nat.le_add_right _ _, Nat.le_refl _⟩
  have hmirror := (Enclosed.mirrors_within (b.pairing .stretch) levels).statement c₁ c₂ haligned
  unfold Reading.MirrorsAt at hmirror
  rw [hrun₁] at hmirror
  generalize hrun₂ : (Enclosed.within levels).statement c₂ = outcome at hmirror
  cases hmirror with
  | @ok _ events' _ _ _ d₂ hevents _ hd =>
      -- What follows the statement there is the closing brace.
      have hend₂ : d₂.tokens = [Token.endAt (b.stop + 1)] := by
        rw [hd.paired.eq_map, hd₁]
        rfl
      obtain ⟨f, hrun', hf⟩ := Enclosed.statement_over hsited₂ hat₂ hrun₂ hend₂
      exact ⟨events', f, hrun', hf, hevents⟩

/-- In braces the statement is a block. -/
theorem exists_block (hc : c.Sited b.source) (hrun : (Enclosed.within levels).statement c = (events, .ok ((), d)))
    (htokens : c.tokens = σ.rest) (hend : d.tokens = σ.behind) {pending : List Token}
    (hpending : c.comments = pending ++ σ.comments) (hc' : c'.Sited b.braced)
    (htokens' : c'.tokens = σ.opening :: σ.rest') {pending' : List Token}
    (hpending' : c'.comments = pending' ++ σ.comments') :
    ∃ events' d', Reading.block (Enclosed.within levels) c' =
        (.openBlock σ.opening.toSpan :: (events' ++ [.closeBlock σ.closing.toSpan]), .ok ((), d')) ∧
      EventsResemble (b.comparison .stretch) events events' ∧
      events' ∈ Sentence.items b.braced b.options.commentWidth ∧ (∀ e ∈ events', e.declares = false) ∧
      (b.pairing .back).Aligned d d' := by
  have hhere : c'.here = σ.opening := (List.cons.inj htokens').1
  obtain ⟨t, ts, hinside⟩ := List.exists_cons_of_ne_nil σ.inside_ne
  have hhere_c : c.here = t :=
    (List.cons.inj (show c.tokens = t :: (ts ++ σ.behind) by rw [htokens, rest, hinside]; rfl)).1
  have hadvance : c'.advance = ⟨c'.here, t.shift 0 1, ts.map (shift 0 1) ++ σ.closing :: σ.behind.map (shift 0 2),
      c'.comments⟩ := Cursor.advance_eq (by rw [(List.cons.inj htokens').2, rest', hinside]; rfl)
  have he : c'.advance.Sited b.braced := hc'.advance
  have hdelivers := Enclosed.delivers_within b.braced levels
  have hcomments : c.comments = (pending ++ σ.insideComments) ++ σ.behindComments := by
    rw [hpending, List.append_assoc]
    rfl
  have hcomments' : c'.advance.comments =
      (pending' ++ σ.insideComments.map (shift 0 1)) ++ σ.behindComments.map (shift 0 2) := by
    rw [show c'.advance.comments = c'.comments by rw [hadvance], hpending', List.append_assoc]
    rfl
  obtain ⟨events', f, hstatement, hf, hevents⟩ := exists_statement hc hrun htokens hend hcomments he
    (by rw [hadvance, rest', hinside]; rfl) hcomments'
  have hpasses : c'.advance.Passes f := hdelivers.moves _ _ _ _ he hstatement
  have hsited := he.reaching hpasses.reaches
  have hclosing : f.here = σ.closing := (List.cons.inj hf).1
  have hfirst : t.kind ≠ .closeBrace := hhere_c ▸ Enclosed.kind_of_statement hrun
  have hcode : ¬ t.isEnd := by
    have hlaid := hc.laid
    rw [htokens] at hlaid
    exact hlaid.not_isEnd σ.behind_ne t (hinside ▸ List.mem_cons_self)
  refine ⟨events' ++ f.due.map fun t => .comment t.toSpan, f.relieved.advance, ?_, ?_, ?_, ?_, ?_⟩
  · rw [Reading.block_of_statement (hhere ▸ σ.opening_kind) (by rw [hadvance]; exact hfirst)
      (by rw [hadvance]; exact hcode) hstatement hpasses (hclosing ▸ σ.closing_kind), hhere, hclosing]
  · simpa using hevents.append (EventsResemble.nil_comments (fun _ _ => trivial) f.due)
  · exact Sentence.items_mul_items (Language.append_mem_mul
      (((Enclosed.reports_within b.braced b.options.commentWidth levels).statement _ he.laid).mem_and_reaches hstatement).1
      (Sentence.comments_le_items
        ((Reading.Reports.reportComments f hsited.laid).mem_and_reaches f.reportComments_eq).1))
  · rw [List.forall_mem_append, List.forall_mem_map]
    exact ⟨(hdelivers.statement _ _ _ _ he hstatement).2, fun _ _ => rfl⟩
  · refine aligned_behind (hc.reaching ((Enclosed.delivers_within b.source levels).moves _ _ _ _ hc hrun).reaches)
      hsited.relieved.advance hend ?_
    obtain ⟨u, us, hbehind⟩ := List.exists_cons_of_ne_nil σ.behind_ne
    rw [Cursor.advance_eq (show f.relieved.ahead = u.shift 0 2 :: us.map (shift 0 2) from ?_), hbehind]
    · rfl
    · rw [show f.relieved.ahead = f.ahead from rfl, (List.cons.inj hf).2, hbehind]
      rfl

/-- Where a statement may stand, the block is a statement too. -/
theorem exists_nested (hc : c.Sited b.source) (hrun : (Enclosed.within levels).statement c = (events, .ok ((), d)))
    (hend : d.tokens = σ.behind) (hat : σ.seam.At [] c c') :
    ∃ events' d', (Enclosed.within (levels + 1)).statement c' = (events', .ok ((), d')) ∧
      b.Twin (Assembly.Poised b.source b.options.commentWidth) events events' ∧
      (b.pairing .back).Aligned d d' := by
  obtain ⟨pending, hpending, -⟩ := hat.comments
  obtain ⟨-, hlater⟩ := hat.relieved_of_level σ.meets_seam.level
  obtain ⟨pending', -, hpending'⟩ := hlater.comments
  obtain ⟨events', d', hblock, hevents, hitems, hplain, hd⟩ := exists_block hc hrun hat.tokens hend hpending
    hlater.sited' hlater.tokens' hpending'
  have hmem := (((Enclosed.reports_within b.source b.options.commentWidth levels).statement _
    hc.laid).mem_and_reaches hrun).1
  refine ⟨_, d', ?_, (Twin.nested hevents hmem hitems hplain σ.opening.toSpan σ.closing.toSpan).comments c'.due, hd⟩
  have hshape : Reading.statementShape c'.relieved = .block := by
    rw [Reading.statementShape, show c'.relieved.here.kind = .openBrace from
      (List.cons.inj hlater.tokens').1 ▸ σ.opening_kind]
  change Reading.statement (Enclosed.within levels) c' = _
  rw [Reading.statement_eq_reported, Reading.bind_of_ok _ c'.reportComments_eq]
  change (_ ++ (Reading.statementOf _ (Reading.statementShape c'.relieved) c'.relieved).1,
    (Reading.statementOf _ (Reading.statementShape c'.relieved) c'.relieved).2) = _
  rw [hshape]
  change (_ ++ (Reading.block (Enclosed.within levels) c'.relieved).1,
    (Reading.block (Enclosed.within levels) c'.relieved).2) = _
  rw [hblock]

/-- A lone statement is a block of its own anyway. -/
theorem exists_lone (hc : c.Sited b.source) (hrun : (Enclosed.within levels).statement c = (events, .ok ((), d)))
    (hend : d.tokens = σ.behind) (hat : σ.seam.At [] c c') (first last : Span) :
    ∃ events' d', Reading.block (Enclosed.within (levels + 1)) c' = (events', .ok ((), d')) ∧
      b.Twin (Assembly.Calm b.source b.options.commentWidth) (.openBlock first :: (events ++ [.closeBlock last])) events' ∧
      (b.pairing .back).Aligned d d' := by
  obtain ⟨pending, hpending, hpending'⟩ := hat.comments
  have hmem := (((Enclosed.reports_within b.source b.options.commentWidth levels).statement _
    hc.laid).mem_and_reaches hrun).1
  have hmore : (Enclosed.within (levels + 1)).statement c = (events, .ok ((), d)) :=
    (Enclosed.below_within (Nat.le_succ levels)).statement.eq_of_ok hrun
  obtain ⟨events', d', hblock, hevents, -, -, hd⟩ := exists_block hc hmore hat.tokens hend hpending
    hat.sited' hat.tokens' hpending'
  refine ⟨_, d', hblock, Twin.lone (.cons (.openBlock _ _) (hevents.append (.cons (.closeBlock _ _) .nil))) ?_, hd⟩
  exact Language.append_mem_mul (Sentence.mem_single _ first) (Language.append_mem_mul hmem (Sentence.mem_single _ last))

end Site

end Bracing

end CodeFrames
