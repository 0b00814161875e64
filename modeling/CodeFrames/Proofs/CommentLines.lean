import CodeFrames.Proofs.CommentWords
import CodeFrames.Proofs.Lexemes
import CodeFrames.Proofs.SubtypeOperator

/-!
# The lines of a wrapped comment

Wrapping breaks a paragraph into lines and never touches the empty line between two paragraphs.  A line
holds as many words as fit: it is no longer than the width unless it is a single word, and the word
behind it would have made it too long.
-/

namespace CodeFrames

open Text

namespace Text

/-! ## Empty lines -/

/-- The parts of a text around its empty lines. -/
def splitAtEmptyLines : Text → List Text
  | [] => [[]]
  | '\n' :: '\n' :: t => [] :: splitAtEmptyLines t
  | c :: t => consFirst c (splitAtEmptyLines t)

theorem splitAtEmptyLines_cons {c : Char} (hc : c ≠ '\n') (t : Text) :
    splitAtEmptyLines (c :: t) = consFirst c (splitAtEmptyLines t) :=
  splitAtEmptyLines.eq_3 _ _ fun _ h _ => hc h

theorem splitAtEmptyLines_lineEnd {c : Char} (hc : c ≠ '\n') (t : Text) :
    splitAtEmptyLines ('\n' :: c :: t) = consFirst '\n' (splitAtEmptyLines (c :: t)) :=
  splitAtEmptyLines.eq_3 _ _ fun _ _ h => hc (List.cons.inj h).1

/-- One or more lines with something on each of them. -/
inductive IsParagraph : Text → Prop
  | last {line : Text} : line ≠ [] → '\n' ∉ line → IsParagraph line
  | more {line t : Text} : line ≠ [] → '\n' ∉ line → IsParagraph t → IsParagraph (line ++ '\n' :: t)

theorem IsParagraph.exists_cons {t : Text} (h : IsParagraph t) : ∃ c u, t = c :: u ∧ c ≠ '\n' := by
  cases h with
  | @last line hne hline =>
      obtain ⟨c, u, rfl⟩ := List.exists_cons_of_ne_nil hne
      exact ⟨c, u, rfl, (List.ne_of_not_mem_cons hline).symm⟩
  | @more line t hne hline _ =>
      obtain ⟨c, u, rfl⟩ := List.exists_cons_of_ne_nil hne
      exact ⟨c, _, rfl, (List.ne_of_not_mem_cons hline).symm⟩

/-- A line goes to the first part of what stands behind it. -/
theorem splitAtEmptyLines_append {line : Text} (hline : '\n' ∉ line) {t first : Text}
    {parts : List Text} (h : splitAtEmptyLines t = first :: parts) :
    splitAtEmptyLines (line ++ t) = (line ++ first) :: parts := by
  induction line with
  | nil => exact h
  | cons c line ih =>
      obtain ⟨hc, hline⟩ := List.ne_and_not_mem_of_not_mem_cons hline
      rw [List.cons_append, splitAtEmptyLines_cons (Ne.symm hc), ih hline]
      rfl

/-- A paragraph goes to the first part of what stands behind it, too. -/
theorem IsParagraph.splitAtEmptyLines_append {p t : Text} (h : IsParagraph p) {parts : List Text}
    (ht : splitAtEmptyLines t = [] :: parts) : splitAtEmptyLines (p ++ t) = p :: parts := by
  induction h with
  | @last line _ hline => simpa using Text.splitAtEmptyLines_append hline ht
  | @more line u _ hline hu ih =>
      obtain ⟨c, v, rfl, hc⟩ := hu.exists_cons
      have hrest : splitAtEmptyLines ('\n' :: ((c :: v) ++ t)) = ('\n' :: c :: v) :: parts := by
        rw [List.cons_append, splitAtEmptyLines_lineEnd hc, ← List.cons_append, ih]
        rfl
      rw [List.append_assoc, List.cons_append]
      exact Text.splitAtEmptyLines_append hline hrest

/-- Paragraphs with an empty line between each two are found again. -/
theorem splitAtEmptyLines_join {ps : List Text} (hne : ps ≠ []) (h : ∀ p ∈ ps, IsParagraph p) :
    splitAtEmptyLines (join ['\n', '\n'] ps) = ps := by
  induction ps with
  | nil => exact absurd rfl hne
  | cons p ps ih =>
      have hp := h p List.mem_cons_self
      cases ps with
      | nil => simpa [join] using hp.splitAtEmptyLines_append (t := []) rfl
      | cons q ps =>
          have hmore := ih (by simp) fun p hp => h p (List.mem_cons_of_mem _ hp)
          have hbehind : splitAtEmptyLines (['\n', '\n'] ++ join ['\n', '\n'] (q :: ps)) =
              [] :: q :: ps := congrArg ([] :: ·) hmore
          rw [Comment.join_cons_of_ne_nil _ _ (by simp), List.append_assoc,
            hp.splitAtEmptyLines_append hbehind]

/-! ## Lines -/

theorem join_eq_intercalate (separator : Text) (ts : List Text) :
    join separator ts = separator.intercalate ts := by
  induction ts with
  | nil => rfl
  | cons t ts ih =>
      cases ts with
      | nil => simp [join]
      | cons u ts => rw [Comment.join_cons_of_ne_nil _ _ (by simp), ih, List.intercalate_cons_cons]

theorem isParagraph_join {ls : List Text} (hne : ls ≠ []) (h : ∀ l ∈ ls, l ≠ [] ∧ '\n' ∉ l) :
    IsParagraph (join ['\n'] ls) := by
  induction ls with
  | nil => exact absurd rfl hne
  | cons l ls ih =>
      obtain ⟨hfull, hline⟩ := h l List.mem_cons_self
      cases ls with
      | nil => exact .last hfull hline
      | cons m ls =>
          have hmore := ih (by simp) fun l hl => h l (List.mem_cons_of_mem _ hl)
          rw [Comment.join_cons_of_ne_nil _ _ (by simp), List.append_assoc]
          exact .more hfull hline hmore

/-- A line with a blank between each two words and no longer than the width, unless it is one word. -/
structure Fits (width : Nat) (line : Text) : Prop where
  full : line ≠ []
  spaced : line = join [' '] (words line)
  short : line.length ≤ width ∨ ∃ word, words line = [word]

/-- Lines that hold as many words as fit into the width. -/
structure Filled (width : Nat) (ls : List Text) : Prop where
  fits : ∀ l ∈ ls, Fits width l
  forced : ls.IsChain fun l m => ∃ word more, words m = word :: more ∧
    width < l.length + 1 + word.length

end Text

namespace Comment

/-! ## Filling lines -/

theorem fits_of_isWord {word : Text} (h : IsWord word) (width : Nat) : Fits width word := by
  have hwords := words_of_isWord h
  exact ⟨h.1, by rw [hwords]; rfl, .inr ⟨word, hwords⟩⟩

theorem join_append_singleton (separator : Text) {ts : List Text} (hne : ts ≠ []) (t : Text) :
    join separator (ts ++ [t]) = join separator ts ++ separator ++ t := by
  induction ts with
  | nil => exact absurd rfl hne
  | cons u ts ih =>
      cases ts with
      | nil => rfl
      | cons v ts =>
          have hmore := join_cons_of_ne_nil separator u (List.cons_ne_nil v ts)
          have hwhole := join_cons_of_ne_nil separator u (List.cons_ne_nil v (ts ++ [t]))
          rw [List.cons_append, List.cons_append, hwhole, ← List.cons_append, ih (by simp), hmore]
          simp

/-- A word that fits goes on the line. -/
theorem fits_append {width : Nat} {line word : Text} (h : Fits width line) (hword : IsWord word)
    (hshort : line.length + 1 + word.length ≤ width) : Fits width (line ++ ' ' :: word) := by
  have hne : words line ≠ [] := by
    intro hnil
    have hspaced := h.spaced
    rw [hnil] at hspaced
    exact h.full hspaced
  refine ⟨by simp, ?_, .inl (by simp; omega)⟩
  rw [words_append_blank line word (by decide), words_of_isWord hword, join_append_singleton _ hne,
    ← h.spaced]
  simp

theorem exists_fillLines (width : Nat) (line : Text) (ws : List Text) :
    ∃ more rest, fillLines width line ws = (line ++ more) :: rest ∧
      (more = [] ∨ more.head? = some ' ') := by
  induction ws generalizing line with
  | nil => exact ⟨[], [], by simp [fillLines], .inl rfl⟩
  | cons w ws ih =>
      rw [fillLines]
      split
      · exact ⟨[], _, by rw [List.append_nil], .inl rfl⟩
      · obtain ⟨more, rest, hfill, -⟩ := ih (line ++ ' ' :: w)
        exact ⟨' ' :: w ++ more, rest, by rw [hfill, List.append_assoc], .inr rfl⟩

/-- The first word of a line is still its first word when the line is done. -/
theorem exists_first_of_fillLines (width : Nat) {word : Text} (h : IsWord word) (ws : List Text) :
    ∃ l rest more, fillLines width word ws = l :: rest ∧ words l = word :: more := by
  obtain ⟨behind, rest, hfill, hbehind⟩ := exists_fillLines width word ws
  refine ⟨_, rest, words behind, hfill, ?_⟩
  rcases hbehind with rfl | hbehind
  · rw [List.append_nil, words_of_isWord h]
    rfl
  · obtain ⟨t, rfl⟩ := List.head?_eq_some_iff.mp hbehind
    rw [words_append_blank word t (by decide), words_of_isWord h, words_of_blank t (by decide)]
    rfl

theorem filled_fillLines {width : Nat} {line : Text} {ws : List Text} (hline : Fits width line)
    (hws : ∀ w ∈ ws, IsWord w) : Filled width (fillLines width line ws) := by
  induction ws generalizing line with
  | nil =>
      rw [fillLines]
      exact ⟨List.forall_mem_singleton.mpr hline, .singleton _⟩
  | cons w ws ih =>
      have hw := hws w List.mem_cons_self
      have hrest : ∀ w ∈ ws, IsWord w := fun w hw => hws w (List.mem_cons_of_mem _ hw)
      rw [fillLines]
      split
      · next hlong =>
          obtain ⟨fits, forced⟩ := ih (fits_of_isWord hw width) hrest
          obtain ⟨l, rest, more, hfill, hwords⟩ := exists_first_of_fillLines width hw ws
          refine ⟨List.forall_mem_cons.mpr ⟨hline, fits⟩, ?_⟩
          rw [hfill] at forced ⊢
          exact forced.cons_cons ⟨w, more, hwords, hlong⟩
      · exact ih (fits_append hline hw (by omega)) hrest

/-- The lines of a paragraph hold as many words as fit. -/
theorem filled_wrapLines (width : Nat) (t : Text) : Filled width (wrapLines width (words t)) := by
  cases hwords : words t with
  | nil => exact ⟨nofun, .nil⟩
  | cons w ws =>
      have hall : ∀ v ∈ w :: ws, IsWord v := fun v hv => isWord_of_mem_words (hwords ▸ hv)
      exact filled_fillLines (fits_of_isWord (hall w List.mem_cons_self) width)
        fun v hv => hall v (List.mem_cons_of_mem _ hv)

/-! ## Line ends inside paragraphs -/

theorem not_mem_of_lines {t : Text} : ∀ line ∈ lines t, '\n' ∉ line := by
  fun_induction lines t with
  | case1 => simp
  | case2 t ih => simpa using ih
  | case3 t ih => simpa using ih
  | case4 c t hc _ ih =>
      cases hlines : lines t with
      | nil => simpa [consFirst, eq_comm] using hc
      | cons line ls =>
          obtain ⟨hline, hls⟩ := List.forall_mem_cons.mp (hlines ▸ ih)
          exact List.forall_mem_cons.mpr ⟨by simpa [eq_comm, hline] using hc, hls⟩

theorem subset_trimStart (t : Text) : trimStart t ⊆ t := (List.dropWhile_suffix _).subset

theorem subset_trim (t : Text) : trim t ⊆ t := by
  intro c hc
  rw [trim, trimEnd, List.mem_reverse] at hc
  exact subset_trimStart t (List.mem_reverse.mp (subset_trimStart _ hc))

theorem subset_withoutGutter (line : Text) : withoutGutter line ⊆ line := by
  have hmark (t : Text) : withoutDocMark t ⊆ t := by
    fun_cases withoutDocMark t with
    | case1 t => exact List.subset_cons_self _ _
    | case2 => exact List.Subset.refl _
  rw [withoutGutter_eq]
  exact fun c hc => subset_trimStart line (hmark _ (subset_trim _ hc))

theorem subset_of_splitAtTags {t : Text} : ∀ piece ∈ splitAtTags t, piece ⊆ t := by
  have hbehind {s t : Text} (h : ∀ piece ∈ splitAtTags t, piece ⊆ t) :
      ∀ piece ∈ [] :: splitAtTags t, piece ⊆ s ++ t :=
    List.forall_mem_cons.mpr ⟨List.nil_subset _,
      fun piece hp => List.Subset.trans (h piece hp) (List.subset_append_right _ _)⟩
  fun_induction splitAtTags t with
  | case1 => simp
  | case2 t ih => exact hbehind (s := ['<', 'p', '>']) ih
  | case3 t ih => exact hbehind (s := ['<', 'P', '>']) ih
  | case4 t ih => exact hbehind (s := ['<', '/', 'p', '>']) ih
  | case5 t ih => exact hbehind (s := ['<', '/', 'P', '>']) ih
  | case6 c t _ _ _ _ ih =>
      cases hpieces : splitAtTags t with
      | nil => simp [consFirst]
      | cons piece pieces =>
          obtain ⟨hpiece, hrest⟩ := List.forall_mem_cons.mp (hpieces ▸ ih)
          exact List.forall_mem_cons.mpr ⟨List.cons_subset_cons c hpiece,
            fun u hu => List.Subset.trans (hrest u hu) (List.subset_cons_self c t)⟩

/-- A text on one line, with a word on it. -/
structure IsLine (t : Text) : Prop where
  unbroken : '\n' ∉ t
  words_ne_nil : words t ≠ []

theorem words_ne_nil_of_tight {t : Text} (hne : t ≠ []) (h : t.IsTight) : words t ≠ [] := by
  obtain ⟨c, u, rfl⟩ := List.exists_cons_of_ne_nil hne
  exact Text.words_ne_nil u (by simpa using h.1)

theorem isLine_of_lineParts {line piece : Text} (hline : '\n' ∉ line)
    (h : some piece ∈ lineParts line) : IsLine piece := by
  unfold lineParts at h
  split at h
  · simp at h
  · obtain ⟨hmem, hne⟩ := List.mem_filter.mp h
    have hparts : (splitAtTags (withoutGutter line)).map (fun piece => some (trim piece)) =
        ((splitAtTags (withoutGutter line)).map trim).map some := by simp
    rw [hparts, ← List.reduceOption_mem_iff, reduceOption_intersperse] at hmem
    obtain ⟨whole, hwhole, rfl⟩ := List.mem_map.mp hmem
    refine ⟨fun hbreak => hline ?_, words_ne_nil_of_tight (by simpa using hne) (isTight_trim whole)⟩
    exact subset_withoutGutter line (subset_of_splitAtTags whole hwhole (subset_trim whole hbreak))

theorem not_mem_join {c : Char} {separator : Text} (hc : c ∉ separator) {ts : List Text}
    (h : ∀ t ∈ ts, c ∉ t) : c ∉ join separator ts := by
  induction ts with
  | nil => simp [join]
  | cons t ts ih =>
      have ht := h t List.mem_cons_self
      cases ts with
      | nil => exact ht
      | cons u ts =>
          have hmore := ih fun t ht => h t (List.mem_cons_of_mem _ ht)
          rw [join_cons_of_ne_nil _ _ (by simp)]
          simp [ht, hc, hmore]

/-- Lines put together with blanks are one line. -/
theorem isLine_join {ts : List Text} (hne : ts ≠ []) (h : ∀ t ∈ ts, IsLine t) :
    IsLine (join [' '] ts) := by
  obtain ⟨t, more, rfl⟩ := List.exists_cons_of_ne_nil hne
  have hblank : ∀ c ∈ [' '], isBlank c = true := List.forall_mem_singleton.mpr rfl
  refine ⟨not_mem_join (by decide) fun t ht => (h t ht).unbroken, ?_⟩
  rw [words_join (by simp) hblank]
  simpa using fun hnil => absurd hnil (h t List.mem_cons_self).words_ne_nil

theorem isLine_of_paragraphs {body p : Text} (h : p ∈ paragraphs body) : IsLine p := by
  obtain ⟨pieces, hpieces, rfl⟩ := List.mem_map.mp h
  obtain ⟨hgroup, hne⟩ := List.mem_filter.mp hpieces
  refine isLine_join (by simpa using hne) fun piece hpiece => ?_
  have hparts : some piece ∈ (lines body).flatMap lineParts := by
    rw [← List.reduceOption_mem_iff, ← flatten_groups]
    exact List.mem_flatten.mpr ⟨pieces, hgroup, hpiece⟩
  obtain ⟨line, hline, hpart⟩ := List.mem_flatMap.mp hparts
  exact isLine_of_lineParts (not_mem_of_lines line hline) hpart

/-! ## The comments of a source -/

/-- A comment ends with its line, or it has an opening marker. -/
def IsComment (raw : Text) : Prop := '\n' ∉ raw ∨ ['/', '*'] <+: raw

theorem isComment_of_lexeme {c : Char} {t : Text} {size : Nat}
    (h : Token.lexeme c t = .ok (.token .comment size)) : IsComment ((c :: t).take size) := by
  obtain ⟨rfl, ⟨-, rfl⟩ | ⟨hstar, n, -, rfl⟩⟩ := Token.lexeme_comment h
  · refine .inl fun hmem => ?_
    rw [← List.prefix_iff_eq_take.mp (List.takeWhile_prefix _)] at hmem
    simpa using List.mem_takeWhile_imp hmem
  · obtain ⟨t, rfl⟩ := List.head?_eq_some_iff.mp hstar
    exact .inr ⟨t.take n, by simp⟩

theorem isComment_of_mem_symbolsFrom {t : Text} {skip : Nat} {p : Token}
    (h : p ∈ Token.symbolsFrom skip t) (hkind : p.kind = .comment) : IsComment p.text := by
  induction t generalizing skip with
  | nil =>
      have hlast : p = Token.symbol .endOfInput [] := by
        cases skip <;> simpa [Token.symbolsFrom] using h
      simp [hlast, Token.symbol] at hkind
  | cons c t ih =>
      cases skip with
      | succ skip => exact ih h
      | zero =>
          rw [Token.symbolsFrom] at h
          split at h
          · cases h
          · exact ih h
          · next kind size hlexeme =>
              rcases List.mem_cons.mp h with rfl | h
              · obtain rfl : kind = .comment := hkind
                exact isComment_of_lexeme hlexeme
              · exact ih h

theorem isComment_of_lex {source : Text} {tokens : List Token} (hlex : lex source = .ok tokens)
    {t : Token} (ht : t ∈ tokens) (hkind : t.kind = .comment) : IsComment t.text := by
  have hbare : t.bare ∈ Token.symbolsFrom 0 source :=
    Token.map_bare_of_tokensFrom hlex ▸ List.mem_map_of_mem ht
  exact isComment_of_mem_symbolsFrom (p := t.bare) hbare hkind

theorem plainComment_none (raw : Text) : plainComment none raw = join ['\n', '\n'] (paragraphsOf raw) := by
  rw [plainComment, show wrap none = id from rfl, List.map_id]

theorem trim_prefix_trimStart (t : Text) : trim t <+: trimStart t := by
  have hsuffix : trimStart (trimStart t).reverse <:+ (trimStart t).reverse := List.dropWhile_suffix _
  simpa [trim, trimEnd] using List.reverse_prefix.mpr hsuffix

theorem trim_of_openingMarker {raw : Text} (h : ['/', '*'] <+: raw) {t : Text} :
    trim raw ≠ '/' :: '/' :: t := by
  obtain ⟨u, rfl⟩ := h
  intro htrim
  have hstart : trimStart ('/' :: '*' :: u) = '/' :: '*' :: u :=
    List.dropWhile_cons_of_neg (by decide)
  obtain ⟨v, hv⟩ := trim_prefix_trimStart ('/' :: '*' :: u)
  rw [show trim ('/' :: '*' :: u) = '/' :: '/' :: t from htrim, hstart] at hv
  simp at hv

theorem isLine_of_paragraphsOf {raw : Text} (hraw : IsComment raw) (hne : plainComment none raw ≠ []) :
    ∀ p ∈ paragraphsOf raw, IsLine p := by
  intro p hp
  rw [plainComment_none] at hne
  unfold paragraphsOf at hp hne
  split at hp
  · next t htrim =>
    obtain rfl := List.mem_singleton.mp hp
    have hunbroken : '\n' ∉ raw := hraw.resolve_right fun h => trim_of_openingMarker h htrim
    have hsubset : trim (t.dropWhile (· = '/')) ⊆ raw := by
      intro c hc
      have hmem := (List.dropWhile_suffix _).subset (subset_trim _ hc)
      refine subset_trim raw (htrim ▸ ?_)
      simp [hmem]
    rw [htrim] at hne
    exact ⟨fun hbreak => hunbroken (hsubset hbreak), words_ne_nil_of_tight hne (isTight_trim _)⟩
  · exact isLine_of_paragraphs hp

/-! ## Wrapped paragraphs -/

theorem isParagraph_of_isLine {p : Text} (h : IsLine p) : IsParagraph p := by
  refine .last ?_ h.unbroken
  rintro rfl
  exact h.words_ne_nil rfl

theorem wrap_some {width : Nat} (h : 0 < width) (p : Text) :
    wrap (some width) p = join ['\n'] (wrapLines width (words p)) := by
  obtain ⟨n, rfl⟩ := Nat.exists_eq_add_of_lt h
  rfl

/-- The lines of a wrapped paragraph are neither empty nor broken. -/
theorem lines_of_wrapLines {width : Nat} {p l : Text} (h : l ∈ wrapLines width (words p)) :
    l ≠ [] ∧ '\n' ∉ l := by
  have hfits := (filled_wrapLines width p).fits l h
  refine ⟨hfits.full, ?_⟩
  rw [hfits.spaced]
  refine not_mem_join (by decide) fun word hword hbreak => ?_
  have hsolid := (isWord_of_mem_words hword).2 _ hbreak
  exact absurd isBlank_lineEnd (by simp [hsolid])

theorem wrapLines_ne_nil (width : Nat) {p : Text} (h : words p ≠ []) :
    wrapLines width (words p) ≠ [] := by
  obtain ⟨word, more, hwords⟩ := List.exists_cons_of_ne_nil h
  obtain ⟨behind, rest, hfill, -⟩ := exists_fillLines width word more
  rw [hwords, wrapLines, hfill]
  simp

theorem isParagraph_wrap {width : Nat} (hwidth : 0 < width) {p : Text} (h : IsLine p) :
    IsParagraph (wrap (some width) p) := by
  rw [wrap_some hwidth]
  exact isParagraph_join (wrapLines_ne_nil width h.words_ne_nil) fun _ => lines_of_wrapLines

theorem splitOn_wrap {width : Nat} (hwidth : 0 < width) {p : Text} (h : IsLine p) :
    (wrap (some width) p).splitOn '\n' = wrapLines width (words p) := by
  rw [wrap_some hwidth, join_eq_intercalate]
  exact List.splitOn_intercalate '\n' (fun _ hl => (lines_of_wrapLines hl).2)
    (wrapLines_ne_nil width h.words_ne_nil)

/-- A comment that is not empty is the paragraphs it consists of. -/
theorem splitAtEmptyLines_plainComment {raw : Text} (hne : plainComment none raw ≠ [])
    (width : Option Nat)
    (hwrap : ∀ p ∈ paragraphsOf raw, IsParagraph (wrap width p)) :
    splitAtEmptyLines (plainComment width raw) = (paragraphsOf raw).map (wrap width) := by
  refine splitAtEmptyLines_join ?_ (by simpa using hwrap)
  rw [plainComment_none] at hne
  simpa using fun hnil : paragraphsOf raw = [] => hne (by rw [hnil]; rfl)

/-- Wrapping at a width keeps the paragraphs of a comment, in their order and with their words, and
fills the lines of each. -/
theorem filled_plainComment {source : Text} {tokens : List Token} (hlex : lex source = .ok tokens)
    {t : Token} (ht : t ∈ tokens) (hkind : t.kind = .comment) (hne : plainComment none t.text ≠ [])
    {width : Nat} (hwidth : 0 < width) :
    (splitAtEmptyLines (plainComment (some width) t.text)).map words =
        (splitAtEmptyLines (plainComment none t.text)).map words ∧
      ∀ p ∈ splitAtEmptyLines (plainComment (some width) t.text), Filled width (p.splitOn '\n') := by
  have hraw := isComment_of_lex hlex ht hkind
  have hlines := isLine_of_paragraphsOf hraw hne
  have hplain := splitAtEmptyLines_plainComment hne none fun p hp => isParagraph_of_isLine (hlines p hp)
  have hwrapped := splitAtEmptyLines_plainComment hne (some width)
    fun p hp => isParagraph_wrap hwidth (hlines p hp)
  rw [hplain, hwrapped]
  constructor
  · simp [words_wrap]
  · intro p hp
    obtain ⟨whole, hwhole, rfl⟩ := List.mem_map.mp hp
    rw [splitOn_wrap hwidth (hlines whole hwhole)]
    exact filled_wrapLines width whole

theorem filled_plainComment_documentation :
    lex "/** One two six.<p>Incomprehensible */".toList = .ok
        [⟨⟨1, 0, 38⟩, .comment, "/** One two six.<p>Incomprehensible */".toList⟩,
          ⟨⟨1, 38, 38⟩, .endOfInput, []⟩] ∧
      plainComment (some 7) "/** One two six.<p>Incomprehensible */".toList =
        "One two\nsix.\n\nIncomprehensible".toList ∧
      ∀ p ∈ splitAtEmptyLines "One two\nsix.\n\nIncomprehensible".toList, Filled 7 (p.splitOn '\n') := by
  have hlex : lex "/** One two six.<p>Incomprehensible */".toList = .ok
      [⟨⟨1, 0, 38⟩, .comment, "/** One two six.<p>Incomprehensible */".toList⟩,
        ⟨⟨1, 38, 38⟩, .endOfInput, []⟩] := by decide +kernel
  have htext : plainComment (some 7) "/** One two six.<p>Incomprehensible */".toList =
      "One two\nsix.\n\nIncomprehensible".toList := by decide +kernel
  obtain ⟨-, hfilled⟩ := filled_plainComment hlex List.mem_cons_self rfl (by decide +kernel)
    (show 0 < 7 by decide)
  exact ⟨hlex, htext, htext ▸ hfilled⟩

end Comment

end CodeFrames
