import CodeFrames.Proofs.CommentWidth
import Mathlib.Data.List.ReduceOption

/-!
# The words of a block comment

A block comment keeps its words.  What is no word of it is said character by character here: the
asterisk behind the opening marker, an asterisk in front of each line, and the `p` tags, which separate
words as blanks do.
-/

namespace CodeFrames

namespace Comment

open Text

/-! ## What is not part of a word -/

/-- The inside of a block comment without the asterisk of a documentation comment. -/
def withoutDocMark : Text → Text
  | '*' :: t => t
  | t => t

/-- The text without the asterisk behind the blanks at the start of each line.  While `fresh` is true
only blanks have been seen since the last line end. -/
def withoutGutters (fresh : Bool) : Text → Text
  | [] => []
  | c :: t =>
      if c = '\n' then c :: withoutGutters true t
      else if fresh = true ∧ c = '*' then withoutGutters false t
      else c :: withoutGutters (fresh && isBlank c) t

/-- The text with a blank in the place of each opening or closing `p` tag. -/
def blankTags : Text → Text
  | [] => []
  | '<' :: 'p' :: '>' :: t => ' ' :: blankTags t
  | '<' :: 'P' :: '>' :: t => ' ' :: blankTags t
  | '<' :: '/' :: 'p' :: '>' :: t => ' ' :: blankTags t
  | '<' :: '/' :: 'P' :: '>' :: t => ' ' :: blankTags t
  | c :: t => c :: blankTags t

/-! ## Blanks -/

theorem blankTags_cons_blank {c : Char} (t : Text) (hc : isBlank c = true) :
    blankTags (c :: t) = c :: blankTags t := by
  have hne : c ≠ '<' := by rintro rfl; exact absurd hc (by decide)
  rw [blankTags.eq_6] <;> simp [hne]

/-- What a text behind which a character stands starts with, and does not take from that character. -/
theorem exists_of_append_eq (mark : Text) {s t u : Text} {c : Char} (hc : c ∉ mark)
    (h : s ++ c :: t = mark ++ u) : ∃ v, s = mark ++ v := by
  rcases List.append_eq_append_iff.mp h with ⟨v, rfl, hv⟩ | ⟨v, rfl, -⟩
  · cases v with
    | nil => exact ⟨[], by simp⟩
    | cons d v =>
        obtain ⟨rfl, -⟩ := List.cons.inj hv
        simp at hc
  · exact ⟨v, rfl⟩

theorem blankTags_append_blank (s : Text) {c : Char} (t : Text) (hc : isBlank c = true) :
    blankTags (s ++ c :: t) = blankTags s ++ c :: blankTags t := by
  have hsolid : c ≠ 'p' ∧ c ≠ 'P' ∧ c ≠ '/' ∧ c ≠ '>' := by
    refine ⟨?_, ?_, ?_, ?_⟩ <;> rintro rfl <;> exact absurd hc (by decide)
  fun_induction blankTags s with
  | case1 => exact blankTags_cons_blank t hc
  | case2 s ih => simpa [blankTags] using ih
  | case3 s ih => simpa [blankTags] using ih
  | case4 s ih => simpa [blankTags] using ih
  | case5 s ih => simpa [blankTags] using ih
  | case6 d s h1 h2 h3 h4 ih =>
      rw [List.cons_append, blankTags.eq_6, ih, List.cons_append]
      -- A tag has no blank in it, so one that starts in `s` also ends there.
      · intro u hd hu
        obtain ⟨v, rfl⟩ := exists_of_append_eq ['p', '>'] (by simp [hsolid]) hu
        exact h1 v hd rfl
      · intro u hd hu
        obtain ⟨v, rfl⟩ := exists_of_append_eq ['P', '>'] (by simp [hsolid]) hu
        exact h2 v hd rfl
      · intro u hd hu
        obtain ⟨v, rfl⟩ := exists_of_append_eq ['/', 'p', '>'] (by simp [hsolid]) hu
        exact h3 v hd rfl
      · intro u hd hu
        obtain ⟨v, rfl⟩ := exists_of_append_eq ['/', 'P', '>'] (by simp [hsolid]) hu
        exact h4 v hd rfl

/-- The words of a text around its tags. -/
def taglessWords (t : Text) : List Text := words (blankTags t)

theorem taglessWords_cons_blank {c : Char} (t : Text) (hc : isBlank c = true) :
    taglessWords (c :: t) = taglessWords t := by
  rw [taglessWords, blankTags_cons_blank t hc, words_of_blank _ hc, taglessWords]

theorem taglessWords_append_blank (s : Text) {c : Char} (t : Text) (hc : isBlank c = true) :
    taglessWords (s ++ c :: t) = taglessWords s ++ taglessWords t := by
  rw [taglessWords, blankTags_append_blank s t hc, words_append_blank _ _ hc]
  rfl

/-- What a blank separates does not depend on the blanks at either end. -/
theorem eq_of_trim {f : Text → List Text} (hnil : f [] = [])
    (hblank : ∀ s c t, isBlank c = true → f (s ++ c :: t) = f s ++ f t) (t : Text) :
    f (trim t) = f t := by
  have hstart (t : Text) : f (trimStart t) = f t := by
    induction t with
    | nil => rfl
    | cons c t ih =>
        cases hc : isBlank c with
        | true =>
            have h := hblank [] c t hc
            rw [List.nil_append, hnil, List.nil_append] at h
            rw [trimStart, List.dropWhile_cons_of_pos hc, h]
            exact ih
        | false => rw [trimStart, List.dropWhile_cons_of_neg (by simp [hc])]
  have hend (t : Text) : f (trimEnd t) = f t := by
    induction t using List.reverseRecOn with
    | nil => rfl
    | append_singleton t c ih =>
        rw [trimEnd, trimStart, List.reverse_append, List.reverse_singleton, List.singleton_append]
        cases hc : isBlank c with
        | true =>
            rw [List.dropWhile_cons_of_pos hc, hblank t c [] hc, hnil, List.append_nil]
            exact ih
        | false => simp [List.dropWhile_cons_of_neg, hc]
  rw [trim, hend, hstart]

theorem words_trim (t : Text) : words (trim t) = words t :=
  eq_of_trim rfl (fun s _ t hc => words_append_blank s t hc) t

theorem taglessWords_trim (t : Text) : taglessWords (trim t) = taglessWords t :=
  eq_of_trim rfl (fun s _ t hc => taglessWords_append_blank s t hc) t

/-! ## The paragraphs of a line -/

theorem join_consFirst (separator : Text) (c : Char) {ts : List Text} (h : ts ≠ []) :
    join separator (consFirst c ts) = c :: join separator ts := by
  rcases ts with _ | ⟨t, _ | ⟨u, ts⟩⟩
  · exact absurd rfl h
  · rfl
  · rfl

theorem splitAtTags_ne_nil (t : Text) : splitAtTags t ≠ [] := by
  fun_cases splitAtTags t with
  | case6 => rw [consFirst.eq_def]; split <;> simp
  | _ => simp

theorem join_cons_of_ne_nil (separator t : Text) {ts : List Text} (h : ts ≠ []) :
    join separator (t :: ts) = t ++ separator ++ join separator ts := by
  cases ts with
  | nil => exact absurd rfl h
  | cons u ts => rfl

theorem blankTags_eq_join (t : Text) : blankTags t = join [' '] (splitAtTags t) := by
  fun_induction blankTags t with
  | case1 => rfl
  | case6 c t h1 h2 h3 h4 ih =>
      rw [splitAtTags.eq_6 _ _ h1 h2 h3 h4, join_consFirst _ _ (splitAtTags_ne_nil t), ih]
  | case2 t ih => rw [splitAtTags, join_cons_of_ne_nil _ _ (splitAtTags_ne_nil t), ih]; rfl
  | case3 t ih => rw [splitAtTags, join_cons_of_ne_nil _ _ (splitAtTags_ne_nil t), ih]; rfl
  | case4 t ih => rw [splitAtTags, join_cons_of_ne_nil _ _ (splitAtTags_ne_nil t), ih]; rfl
  | case5 t ih => rw [splitAtTags, join_cons_of_ne_nil _ _ (splitAtTags_ne_nil t), ih]; rfl

theorem flatten_groups (parts : List (Option Text)) : (groups parts).flatten = parts.reduceOption := by
  fun_induction groups parts with
  | case1 => rfl
  | case2 parts ih => simpa using ih
  | case3 piece parts h ih => rw [h] at ih; simp [← ih]
  | case4 piece parts pieces rest h ih => rw [h] at ih; simp [← ih]

/-- Paragraphs have the words of the pieces they are put together from. -/
theorem words_paragraphs (body : Text) :
    (paragraphs body).flatMap words =
      ((lines body).flatMap lineParts).reduceOption.flatMap words := by
  have hfull (gs : List (List Text)) :
      (gs.filter (· ≠ [])).flatMap (fun g => words (join [' '] g)) = gs.flatten.flatMap words := by
    induction gs with
    | nil => rfl
    | cons g gs ih =>
        cases g with
        | nil => simpa using ih
        | cons t g =>
            rw [List.filter_cons_of_pos (by simp), List.flatMap_cons, ih, List.flatten_cons,
              List.flatMap_append, words_join (by simp) (List.forall_mem_singleton.mpr rfl)]
  rw [paragraphs, List.flatMap_map, hfull, flatten_groups]

theorem reduceOption_intersperse {α : Type} (xs : List α) :
    ((xs.map some).intersperse none).reduceOption = xs := by
  induction xs with
  | nil => rfl
  | cons x xs ih =>
      cases xs with
      | nil => rfl
      | cons y xs => simpa using ih

/-- An empty piece has no words. -/
theorem words_nonempty (parts : List (Option Text)) :
    (parts.filter (· ≠ some [])).reduceOption.flatMap words = parts.reduceOption.flatMap words := by
  induction parts with
  | nil => rfl
  | cons part parts ih =>
      rcases part with _ | _ | ⟨c, t⟩
      · simpa using ih
      · simpa [words] using ih
      · simpa using ih

theorem words_lineParts (line : Text) :
    (lineParts line).reduceOption.flatMap words = taglessWords (withoutGutter line) := by
  unfold lineParts
  split
  · next h => simp [h, taglessWords, blankTags, words]
  · have hparts : (splitAtTags (withoutGutter line)).map (fun piece => some (trim piece)) =
        ((splitAtTags (withoutGutter line)).map trim).map some := by simp
    rw [words_nonempty, hparts, reduceOption_intersperse, List.flatMap_map, taglessWords,
      blankTags_eq_join, words_join (by simp) (List.forall_mem_singleton.mpr rfl)]
    simp only [words_trim]

/-! ## Lines -/

/-- What the lines of a text consist of, each without its asterisk. -/
def lineWords (line : Text) : List Text := taglessWords (withoutGutters true line)

theorem withoutGutters_append_lineEnd (fresh : Bool) (s t : Text) :
    withoutGutters fresh (s ++ '\n' :: t) = withoutGutters fresh s ++ '\n' :: withoutGutters true t := by
  induction s generalizing fresh with
  | nil => simp [withoutGutters]
  | cons c s ih =>
      simp only [List.cons_append, withoutGutters, ih]
      split
      · rfl
      · split <;> rfl

theorem withoutGutters_append_blank (fresh : Bool) (s : Text) {c : Char} (hc : isBlank c = true) :
    withoutGutters fresh (s ++ [c]) = withoutGutters fresh s ++ [c] := by
  have hstar : c ≠ '*' := by rintro rfl; exact absurd hc (by decide)
  induction s generalizing fresh with
  | nil => simp [withoutGutters, hstar]
  | cons d s ih =>
      simp only [List.cons_append, withoutGutters, ih]
      split
      · rfl
      · split <;> rfl

theorem withoutGutters_false {t : Text} (h : '\n' ∉ t) : withoutGutters false t = t := by
  induction t with
  | nil => rfl
  | cons c t ih =>
      rw [List.mem_cons, not_or] at h
      rw [withoutGutters, if_neg (Ne.symm h.1), if_neg (by simp), Bool.false_and, ih h.2]

theorem withoutGutter_eq (line : Text) :
    withoutGutter line = trim (withoutDocMark (trimStart line)) := by
  rw [withoutGutter]
  split
  · next h => rw [h, withoutDocMark]
  · next h => rw [withoutDocMark.eq_2 _ h]

/-- On one line the two ways to drop the asterisk differ in nothing but blanks. -/
theorem taglessWords_withoutGutter {line : Text} (h : '\n' ∉ line) :
    taglessWords (withoutGutter line) = lineWords line := by
  rw [withoutGutter_eq, taglessWords_trim, lineWords]
  induction line with
  | nil => rfl
  | cons c line ih =>
      obtain ⟨hc, hline⟩ := List.ne_and_not_mem_of_not_mem_cons h
      cases hblank : isBlank c with
      | true =>
          have hstar : c ≠ '*' := by rintro rfl; exact absurd hblank (by decide)
          rw [trimStart, List.dropWhile_cons_of_pos hblank, withoutGutters, if_neg (Ne.symm hc),
            if_neg (by simp [hstar]), hblank, taglessWords_cons_blank _ hblank]
          exact ih hline
      | false =>
          rw [trimStart, List.dropWhile_cons_of_neg (by simp [hblank]), withoutGutters,
            if_neg (Ne.symm hc), hblank, Bool.and_false, withoutGutters_false hline]
          by_cases hstar : c = '*'
          · simp [hstar, withoutDocMark]
          · simp [hstar, withoutDocMark]

/-- A carriage return in front of a line end belongs to it. -/
theorem exists_lines_append (s t : Text) (h : '\n' ∉ s) :
    ∃ line, lines (s ++ '\n' :: t) = line :: lines t ∧ (s = line ∨ s = line ++ ['\r']) := by
  induction s with
  | nil => exact ⟨[], rfl, .inl rfl⟩
  | cons c s ih =>
      obtain ⟨hc, hs⟩ := List.ne_and_not_mem_of_not_mem_cons h
      obtain ⟨line, hlines, hline⟩ := ih hs
      by_cases hreturn : c = '\r' ∧ s = []
      · obtain ⟨rfl, rfl⟩ := hreturn
        exact ⟨[], rfl, .inr rfl⟩
      · refine ⟨c :: line, ?_, ?_⟩
        · rw [List.cons_append, lines.eq_4, hlines, consFirst]
          · exact Ne.symm hc
          · rintro u rfl hu
            cases s with
            | nil => exact hreturn ⟨rfl, rfl⟩
            | cons d s => simp at hu; simp [hu] at hs
        · simpa using hline

theorem lines_of_not_mem {s : Text} (h : '\n' ∉ s) (hne : s ≠ []) : lines s = [s] := by
  induction s with
  | nil => exact absurd rfl hne
  | cons c s ih =>
      obtain ⟨hc, hs⟩ := List.ne_and_not_mem_of_not_mem_cons h
      have hcons : lines (c :: s) = consFirst c (lines s) := by
        refine lines.eq_4 _ _ (Ne.symm hc) ?_
        rintro u rfl rfl
        simp at hs
      cases s with
      | nil => rw [hcons]; rfl
      | cons d s => rw [hcons, ih hs (by simp)]; rfl

theorem lineWords_append_lineEnd (s t : Text) :
    lineWords (s ++ '\n' :: t) = lineWords s ++ lineWords t := by
  rw [lineWords, withoutGutters_append_lineEnd, taglessWords_append_blank _ _ isBlank_lineEnd]
  rfl

theorem lineWords_append_return (s : Text) : lineWords (s ++ ['\r']) = lineWords s := by
  have hreturn : isBlank '\r' = true := by decide
  rw [lineWords, withoutGutters_append_blank _ _ hreturn, taglessWords_append_blank _ _ hreturn,
    show taglessWords [] = [] from rfl, List.append_nil, lineWords]

/-- Read line by line, a text has the words it has as a whole. -/
theorem flatMap_lines (body : Text) :
    (lines body).flatMap (fun line => taglessWords (withoutGutter line)) = lineWords body := by
  induction hlength : body.length using Nat.strong_induction_on generalizing body with
  | _ n ih =>
  by_cases hmem : '\n' ∈ body
  · obtain ⟨s, t, rfl, hs⟩ := List.eq_append_cons_of_mem hmem
    obtain ⟨line, hlines, hline⟩ := exists_lines_append s t hs
    have hrest := ih t.length (by simp at hlength; omega) t rfl
    rw [hlines, List.flatMap_cons, hrest, lineWords_append_lineEnd]
    rcases hline with rfl | rfl
    · rw [taglessWords_withoutGutter hs]
    · have hreturn : '\n' ∉ line := fun h => hs (List.mem_append_left _ h)
      rw [taglessWords_withoutGutter hreturn, lineWords_append_return]
  · cases body with
    | nil => rfl
    | cons c t =>
        rw [lines_of_not_mem hmem (by simp), List.flatMap_singleton,
          taglessWords_withoutGutter hmem]

theorem words_paragraphs_eq (body : Text) : (paragraphs body).flatMap words = lineWords body := by
  rw [words_paragraphs, ← flatMap_lines, List.reduceOption, List.filterMap_flatMap,
    List.flatMap_assoc]
  refine List.flatMap_congr fun line _ => ?_
  exact words_lineParts line

/-! ## Markers -/

theorem withoutEndMarker_append (t : Text) : withoutEndMarker (t ++ ['*', '/']) = t := by
  simp [withoutEndMarker]

/-- The marker of a documentation comment does not share its asterisk with the end marker as long as
something stands between them. -/
theorem body_block {inside : Text} (h : inside ≠ []) :
    body ('/' :: '*' :: (inside ++ ['*', '/'])) = withoutDocMark inside := by
  cases inside with
  | nil => exact absurd rfl h
  | cons c t =>
      by_cases hc : c = '*'
      · subst hc
        exact withoutEndMarker_append t
      · rw [List.cons_append, body.eq_2, withoutDocMark.eq_2, ← List.cons_append,
          withoutEndMarker_append]
        · simp [hc]
        · simp [hc]

theorem trim_of_slashes (t : Text) : trim ('/' :: (t ++ ['/'])) = '/' :: (t ++ ['/']) := by
  have hslash : isBlank '/' = false := by decide
  simp [trim, trimEnd, trimStart, hslash]

theorem paragraphsOf_block {inside : Text} (h : inside ≠ []) :
    paragraphsOf ('/' :: '*' :: (inside ++ ['*', '/'])) = paragraphs (withoutDocMark inside) := by
  have htrim := trim_of_slashes ('*' :: inside ++ ['*'])
  simp only [List.cons_append, List.append_assoc, List.nil_append] at htrim
  rw [paragraphsOf, htrim, ← body_block h]
  rfl

/-- The words of a block comment with something in it are the words between its markers, less the
asterisk that makes it a documentation comment and the one in front of each line; its `p` tags
separate words. -/
theorem words_blockComment (width : Option Nat) {inside : Text} (h : inside ≠ []) :
    words (plainComment width ('/' :: '*' :: (inside ++ ['*', '/']))) =
      words (blankTags (withoutGutters true (withoutDocMark inside))) := by
  rw [words_plainComment, paragraphsOf_block h, words_paragraphs_eq]
  rfl

theorem words_blockComment_documentation :
    "* Area.<p>\n * Never * negative. ".toList ≠ [] ∧
      words (plainComment (some 8) ('/' :: '*' ::
        ("* Area.<p>\n * Never * negative. ".toList ++ ['*', '/']))) =
        ["Area.".toList, "Never".toList, "*".toList, "negative.".toList] := by
  refine ⟨by decide, ?_⟩
  rw [words_blockComment (some 8) (by decide)]
  decide +kernel

/-- Where nothing stands between the markers, the marker of a documentation comment takes the asterisk
of the end marker, and a slash is left. -/
theorem not_words_blockComment_empty :
    ¬ ∀ (width : Option Nat) (inside : Text), ¬ ['*', '/'] <:+: inside →
      words (plainComment width ('/' :: '*' :: (inside ++ ['*', '/']))) =
        words (blankTags (withoutGutters true (withoutDocMark inside))) := by
  intro h
  exact absurd (h none [] (by simp)) (by decide)

end Comment

end CodeFrames
