import CodeFrames.Proofs.Alignment.Statement
import CodeFrames.Proofs.Lines
import CodeFrames.Proofs.Seam.Lexing

/-!
# A source that stands in another

The tokens of a source are further on in a text that it stands in, and nothing else is different: all
texts are the same, so the events are about the same texts.
-/

namespace CodeFrames

namespace Text

theorem exists_of_dropBytes? {t u : Text} {n : Nat} (h : dropBytes? t n = some u) :
    ∃ front, t = front ++ u ∧ byteSize front = n := by
  fun_induction dropBytes? t n with
  | case1 t =>
      obtain rfl := Option.some.inj h
      exact ⟨[], rfl, rfl⟩
  | case2 => cases h
  | case3 c t n hle ih =>
      obtain ⟨front, rfl, hsize⟩ := ih h
      exact ⟨c :: front, rfl, by rw [byteSize_cons, hsize]; omega⟩
  | case4 => cases h

theorem exists_of_takeBytes? {t s : Text} {n : Nat} (h : takeBytes? t n = some s) :
    ∃ back, t = s ++ back ∧ byteSize s = n := by
  fun_induction takeBytes? t n generalizing s with
  | case1 t =>
      obtain rfl := Option.some.inj h
      exact ⟨t, rfl, rfl⟩
  | case2 => cases h
  | case3 c t n hle ih =>
      obtain ⟨s, hs, rfl⟩ := Option.map_eq_some_iff.mp h
      obtain ⟨back, rfl, hsize⟩ := ih hs
      exact ⟨back, rfl, by rw [byteSize_cons, hsize]; omega⟩
  | case4 => cases h

/-- The text stands in another one, so many bytes behind its start. -/
def StandsIn (t u : Text) (bytes : Nat) : Prop :=
  ∃ front back, u = front ++ (t ++ back) ∧ byteSize front = bytes

theorem standsIn_left (t u : Text) : StandsIn t (t ++ u) 0 := ⟨[], u, rfl, rfl⟩

theorem standsIn_behind (t u : Text) : StandsIn u (t ++ '\n' :: u) (byteSize t + 1) :=
  ⟨t ++ ['\n'], [], by simp, by rw [byteSize_append]; rfl⟩

theorem StandsIn.slice?_eq {t u s : Text} {bytes start stop : Nat} (h : StandsIn t u bytes)
    (hs : slice? t start stop = some s) : slice? u (start + bytes) (stop + bytes) = some s := by
  obtain ⟨front, back, rfl, rfl⟩ := h
  rw [slice?] at hs
  split at hs
  · next hle =>
      obtain ⟨rest, hdrop, htake⟩ := Option.bind_eq_some_iff.mp hs
      obtain ⟨before, rfl, rfl⟩ := exists_of_dropBytes? hdrop
      obtain ⟨after, rfl, hsize⟩ := exists_of_takeBytes? htake
      have hslice := slice?_append (front ++ before) s (after ++ back)
      rw [byteSize_append, hsize] at hslice
      rw [← hslice]
      simp only [List.append_assoc]
      congr 1 <;> omega
  · cases hs

end Text

namespace Token

variable {source source' : Text} {tokens : List Token} {t : Token} {bytes : Nat}

theorem LiesIn.standing (h : t.LiesIn source) (hsource : source.StandsIn source' bytes) (lines : Nat) :
    (t.shift lines bytes).LiesIn source' := by
  obtain ⟨front, back, rfl, rfl⟩ := hsource
  obtain ⟨before, after, rfl, hstart, hstop⟩ := h
  refine ⟨front ++ before, after ++ back, by simp, ?_, ?_⟩
  · simp [hstart, Nat.add_comm]
  · simp [hstop]
    omega

theorem Laid.standing (h : Laid source tokens) (hsource : source.StandsIn source' bytes) (lines : Nat) :
    Laid source' (tokens.map (shift lines bytes)) := by
  refine ⟨?_, ?_, ?_⟩
  · rw [List.forall_mem_map]
    exact fun t ht => (h.liesIn t ht).standing hsource lines
  · rw [List.pairwise_map]
    exact h.ordered.imp fun hle => Nat.add_le_add_right hle _
  · obtain ⟨inside, last, rfl, hlast, hinside⟩ := h.ended
    refine ⟨inside.map (shift lines bytes), last.shift lines bytes, by simp, hlast, ?_⟩
    rw [List.forall_mem_map]
    exact hinside

theorem getLastD_map_shift (lines bytes : Nat) (t : Token) (ts : List Token) :
    (ts.map (shift lines bytes)).getLastD (t.shift lines bytes) = (ts.getLastD t).shift lines bytes := by
  induction ts generalizing t with
  | nil => rfl
  | cons u ts ih => rw [List.map_cons, List.getLastD_cons, List.getLastD_cons, ih]

end Token

/-! ## The comparison -/

/-- What is cut out of the text between places of a range is found in the other text, so many bytes
further on. -/
def Text.Shares (t u : Text) (range : Nat → Prop) (bytes : Nat) : Prop :=
  ∀ {start stop : Nat} {s : Text}, range start → range stop → Text.slice? t start stop = some s →
    Text.slice? u (start + bytes) (stop + bytes) = some s

theorem Text.StandsIn.shares {t u : Text} {bytes : Nat} (h : t.StandsIn u bytes) :
    t.Shares u (fun _ => True) bytes := fun _ _ => h.slice?_eq

/-- A source beside a text that has a range of it too, so many lines and bytes behind its start. -/
def standingIn (options : Options) (source source' : Text) (range : Nat → Prop) (lines bytes : Nat) :
    Comparison where
  type := Eq
  text := Eq
  documentation _ _ := True
  line m n := n = m + lines
  source := source
  source' := source'
  width := options.commentWidth
  width' := options.commentWidth
  start m n := range m ∧ n = m + bytes
  stop m n := range m ∧ n = m + bytes
  extract := Eq

variable (options : Options) {source source' : Text} {range : Nat → Prop} {bytes : Nat}

theorem standingIn_sound (h : source.Shares source' range bytes) (lines : Nat) :
    (standingIn options source source' range lines bytes).Sound where
  none := trivial
  slices := by
    rintro start _ stop _ s t ⟨hstart, rfl⟩ ⟨hstop, rfl⟩ hs ht
    rw [Option.some.inj ((h hstart hstop hs).symm.trans ht)]
    rfl
  empty := rfl
  text h := h
  sides := (besideItself_sound options source []).sides
  joined := (besideItself_sound options source []).joined

/-- Tokens that lie within the range, and the same tokens so many lines and bytes further on. -/
structure Token.Standing (source source' : Text) (range : Nat → Prop) (lines bytes : Nat)
    (ts ts' : List Token) : Prop where
  laid : Token.Laid source ts
  ranged : ∀ t ∈ ts, range t.start ∧ range t.stop
  eq_map : ts' = ts.map (Token.shift lines bytes)

/-- The tokens ahead, and where they are in the text. -/
def standingIn_pairing (h : source.Shares source' range bytes) (lines : Nat) :
    Pairing (standingIn options source source' range lines bytes) where
  Paired := Token.Standing source source' range lines bytes
  bare := by
    rintro ts _ ⟨-, -, rfl⟩
    rw [List.map_map]
    exact List.map_congr_left fun t _ => rfl
  tail := by
    rintro t u t' u' ts ts' ⟨hlaid, hranged, heq⟩
    exact ⟨Token.Laid.drop (show Token.Laid source ([t] ++ _) from hlaid) (List.cons_ne_nil _ _),
      (List.forall_mem_cons.mp hranged).2, (List.cons.inj heq).2⟩
  line := by
    rintro t _ ts _ ⟨-, -, heq⟩
    rw [(List.cons.inj heq).1]
    rfl
  text := by
    rintro t _ ts _ ⟨hlaid, hranged, heq⟩
    rw [(List.cons.inj heq).1]
    obtain ⟨hstart, hstop⟩ := hranged t List.mem_cons_self
    have hslice := (hlaid.liesIn t List.mem_cons_self).slice?_eq
    exact congrArg (Option.getD · []) (hslice.trans (h hstart hstop hslice).symm)
  start := by
    rintro t _ ts _ ⟨-, hranged, heq⟩
    rw [(List.cons.inj heq).1]
    exact ⟨(hranged t List.mem_cons_self).1, rfl⟩
  stop := by
    rintro t u _ _ ts _ ⟨-, hranged, heq⟩ -
    rw [(List.cons.inj heq).1]
    exact ⟨(hranged t List.mem_cons_self).2, rfl⟩
  slice := by
    rintro t _ ts _ n ⟨hlaid, hranged, heq⟩ hn -
    obtain ⟨rfl, rfl⟩ := List.cons.inj heq
    have hmem : (ts.take n).getLastD t ∈ t :: ts := by
      rw [List.getLastD_eq_getLast?]
      cases hlast : (ts.take n).getLast? with
      | none => exact List.mem_cons_self
      | some u => exact List.mem_cons_of_mem _ (List.mem_of_mem_take (List.mem_of_getLast? hlast))
    obtain ⟨s, hs⟩ := Option.isSome_iff_exists.mp (hlaid.slice?_isSome hmem)
    have hslice := h (hranged t List.mem_cons_self).1 (hranged _ hmem).2 hs
    have htexts : Span.textIn source (t.through ((ts.take n).getLastD t)) = Span.textIn source'
        ((t.shift lines bytes).through (((ts.map (Token.shift lines bytes)).take n).getLastD
          (t.shift lines bytes))) := by
      rw [← List.map_take, Token.getLastD_map_shift]
      exact congrArg (Option.getD · []) (hs.trans hslice.symm)
    exact ⟨htexts, fun word _ => Eq.congr_left htexts⟩
  documentation _ _ := trivial

end CodeFrames
