import MiniLisp.Proofs.Text.Unreadable
import MiniLisp.Proofs.Token.Rendering

/-!
# The lexer cuts a text into segments

Every text is cut into **segments**, each of them white space and the spelling of a token behind it.
After the last segment there may be white space, and then the text ends or something comes that is
no token. Nothing is lost, every token stands where its spelling starts, and no token could go on
(`Segmentation`). **The tokens of a text are those of its segments, and its failure is what is wrong
with the rest** (`lex_iff_segmentation`): there is one way to cut a text, and the lexer finds it.

* `Fails s n fault`: the text `s` starts with neither white space nor a token, and `fault` shows
  after `n` code points. `scan_error_iff`: the lexer stops exactly at such texts.
* `Segmentation.blanks`, `Segmentation.cons`: a cut goes on in front, piece by piece.
-/

namespace MiniLisp

open CodePoint (ofChar)

/-! ## Failures -/

/-- What is wrong at the front of a text that starts with neither white space nor a token, and how
many code points come before the place where it shows. -/
inductive Fails : Text → Nat → ReadFault → Prop
  /-- A quote opens a string, and up to the end of the text none closes it. -/
  | unterminatedString {t u s : Text} : Quotes t u → s = u ∨ s = u ++ [ofChar '\\'] →
      Fails (ofChar '"' :: s) 0 .unterminatedString
  /-- A backslash in a string starts no escape; those before it do. -/
  | escape {t u s : Text} {fault : EscapeFault} : Quotes t u → BadEscape s fault →
      Fails (ofChar '"' :: (u ++ ofChar '\\' :: s)) (u.length + 1) (.escape fault)
  /-- A guarded string opens that nothing closes. -/
  | unterminatedGuarded {s : Text} : ¬ [ofChar '"', ofChar '#'] <:+: s →
      Fails (ofChar '#' :: ofChar '"' :: s) 0 .unterminatedGuarded
  /-- A code point is no white space, no mark that starts a token, and not in any bare word. -/
  | unexpectedCharacter {c : CodePoint} {s : Text} : c.isBlank = false → c.isBare = false →
      c ∉ [ofChar '#', ofChar '(', ofChar ')', ofChar ':', ofChar '"'] →
      Fails (c :: s) 0 (.unexpectedCharacter c)

theorem fails_of_scan {c : CodePoint} {s : Text} {e : ScanError} (h : scan c s = .error e) :
    Fails (c :: s) e.before e.fault := by
  -- in the order of the tests in `scan`: the last case needs that all of them failed
  unfold scan at h
  split at h
  · cases h
  rename_i hblank
  split at h
  · rename_i hc
    subst hc
    split at h
    · rename_i hopen
      obtain ⟨s, rfl⟩ := List.head?_eq_some_iff.1 hopen
      split at h
      · cases h
      · rename_i hend
        cases h
        exact .unterminatedGuarded (guardEnd?_none_iff.1 hend)
    · cases h
  rename_i hhash
  split at h
  · cases h
  rename_i hl
  split at h
  · cases h
  rename_i hr
  split at h
  · cases h
  rename_i hcolon
  split at h
  · rename_i hc
    subst hc
    split at h
    · cases h
    · rename_i hread
      cases h
      obtain ⟨t, u, hu, hs⟩ := readQuoted_unterminated_iff.1 hread
      exact .unterminatedString hu hs
    · rename_i hread
      cases h
      obtain ⟨t, u, r, hu, rfl, rfl, hr⟩ := readQuoted_badEscape_iff.1 hread
      exact .escape hu hr
  rename_i hquote
  split at h
  · cases h
  · rename_i hbare
    cases h
    refine .unexpectedCharacter (by simpa using hblank) (by simpa using hbare) ?_
    simp [hhash, hl, hr, hcolon, hquote]

/-- **The lexer stops exactly where there is neither white space nor a token.** -/
theorem scan_error_iff {c : CodePoint} {s : Text} {n : Nat} {fault : ReadFault} :
    scan c s = .error ⟨n, fault⟩ ↔ Fails (c :: s) n fault := by
  constructor
  · exact fails_of_scan
  · intro h
    have hquote : (ofChar '"').isBlank = false := rfl
    have hhash : (ofChar '#').isBlank = false := rfl
    cases h with
    | unterminatedString hu hs =>
      have hread := readQuoted_unterminated_iff.2 ⟨_, _, hu, hs⟩
      simp [scan, hquote, hread]
    | escape hu hs =>
      have hread := readQuoted_badEscape_iff.2 ⟨_, _, _, hu, rfl, rfl, hs⟩
      simp [scan, hquote, hread]
    | unterminatedGuarded hs =>
      have hend := guardEnd?_none_iff.2 hs
      simp [scan, hhash, hend]
    | unexpectedCharacter hblank hbare hmarks =>
      simp only [List.mem_cons, List.not_mem_nil, or_false, not_or] at hmarks
      simp [scan, hblank, hbare, hmarks]

/-! ## Segments -/

/-- A token with the white space in front of it and the part of the text that it is. -/
structure Segment where
  gap : Text
  spelling : Text
  token : Token

namespace Segment

def text (x : Segment) : Text := x.gap ++ x.spelling

/-- The part of a text that some segments are. -/
def join (segments : List Segment) : Text := segments.flatMap text

/-- The segment has its place in a text between `before` and `after`. -/
structure Fits (x : Segment) (before after : Text) : Prop where
  blank : ∀ c ∈ x.gap, c.isBlank = true
  spells : Spells x.token.lexeme x.spelling
  /-- The token is where its spelling starts. -/
  position : x.token.position = .of (before ++ x.gap)
  /-- The token does not go on in what follows. -/
  stops : x.token.lexeme.Stops after

@[simp] theorem join_nil : join [] = [] := rfl

theorem join_cons (x : Segment) (segments : List Segment) :
    join (x :: segments) = x.text ++ join segments := List.flatMap_cons

end Segment

/-- A text that follows `before` is cut into segments, white space and a rest. -/
structure Segmentation (before s : Text) (segments : List Segment) (last rest : Text) : Prop where
  covers : s = Segment.join segments ++ (last ++ rest)
  fits : ∀ front x back, segments = front ++ x :: back →
    x.Fits (before ++ Segment.join front) (Segment.join back ++ (last ++ rest))
  blank : ∀ c ∈ last, c.isBlank = true

/-- How the tokens of a text end, if `before` comes before the rest: nothing is left, or the rest
starts with no token. -/
inductive Ends (before : Text) : Text → Option ReadError → Prop
  | finished : Ends before [] none
  | failed {rest : Text} {n : Nat} {fault : ReadFault} : Fails rest n fault →
      Ends before rest (some ⟨fault, .of (before ++ rest.take n)⟩)

namespace Segmentation

variable {before s last rest : Text} {segments : List Segment} {x : Segment}

theorem nil (h : ∀ c ∈ last, c.isBlank = true) :
    Segmentation before (last ++ rest) [] last rest where
  covers := rfl
  fits := by simp
  blank := h

/-- A segment in front of a text that is cut. -/
theorem cons (hx : x.Fits before s)
    (h : Segmentation (before ++ x.text) s segments last rest) :
    Segmentation before (x.text ++ s) (x :: segments) last rest where
  covers := by rw [Segment.join_cons, List.append_assoc, ← h.covers]
  fits := by
    intro front y back hy
    cases front with
    | nil =>
      obtain ⟨rfl, rfl⟩ := List.cons.inj hy
      rw [← h.covers]
      exact (List.append_nil before).symm ▸ hx
    | cons z front =>
      obtain ⟨rfl, hback⟩ := List.cons.inj hy
      rw [Segment.join_cons, ← List.append_assoc]
      exact h.fits front y back hback
  blank := h.blank

/-- The first segment and the cut behind it. -/
theorem uncons (h : Segmentation before s (x :: segments) last rest) :
    ∃ s', s = x.text ++ s' ∧ x.Fits before s' ∧
      Segmentation (before ++ x.text) s' segments last rest := by
  refine ⟨Segment.join segments ++ (last ++ rest), ?_, ?_, rfl, ?_, h.blank⟩
  · rw [h.covers, Segment.join_cons, List.append_assoc]
  · have := h.fits [] x segments rfl
    rwa [Segment.join_nil, List.append_nil] at this
  · intro front y back hy
    have := h.fits (x :: front) y back (by rw [hy]; rfl)
    rwa [Segment.join_cons, ← List.append_assoc] at this

/-- White space in front of a text belongs to its first segment, or to its end if there is none. -/
theorem blanks {w : Text} (hw : ∀ c ∈ w, c.isBlank = true)
    (h : Segmentation (before ++ w) s segments last rest) :
    ∃ segments' last', Segmentation before (w ++ s) segments' last' rest ∧
      segments'.map Segment.token = segments.map Segment.token ∧
      Segment.join segments' ++ last' = w ++ (Segment.join segments ++ last) := by
  cases segments with
  | nil =>
    obtain rfl : s = last ++ rest := h.covers
    refine ⟨[], w ++ last, ?_, rfl, rfl⟩
    rw [← List.append_assoc]
    exact .nil (List.forall_mem_append.2 ⟨hw, h.blank⟩)
  | cons x segments =>
    obtain ⟨s', rfl, hx, hrest⟩ := h.uncons
    -- the first segment takes the white space into its gap
    have hgap : ∀ c ∈ w ++ x.gap, c.isBlank = true := List.forall_mem_append.2 ⟨hw, hx.blank⟩
    have hx' : Segment.Fits ⟨w ++ x.gap, x.spelling, x.token⟩ before s' :=
      ⟨hgap, hx.spells, by rw [hx.position, List.append_assoc], hx.stops⟩
    have htext : Segment.text ⟨w ++ x.gap, x.spelling, x.token⟩ = w ++ x.text :=
      List.append_assoc _ _ _
    rw [List.append_assoc, ← htext] at hrest
    refine ⟨⟨w ++ x.gap, x.spelling, x.token⟩ :: segments, last, ?_, rfl, ?_⟩
    · rw [← List.append_assoc, ← htext]
      exact .cons hx' hrest
    · rw [Segment.join_cons, Segment.join_cons, htext]
      simp only [List.append_assoc]

end Segmentation

/-! ## Whole texts -/

/-- The place after a text that follows another. -/
theorem Position.after_of (t u : Text) : (Position.of t).after u = .of (t ++ u) := by
  rw [← after_start, ← after_start, after_append]

/-- **The lexer cuts every text.** -/
theorem exists_segmentation (p : Position) (s : Text) : ∀ before, p = .of before →
    ∃ segments last rest, Segmentation before s segments last rest ∧
      (lexFrom p s).tokens = segments.map Segment.token ∧
      Ends (before ++ (Segment.join segments ++ last)) rest (lexFrom p s).failure := by
  have hnone : ∀ c ∈ ([] : Text), c.isBlank = true := fun c hc => absurd hc List.not_mem_nil
  -- `before` is all that has been read, so that the places are those of the whole text
  fun_induction lexFrom p s with
  | case1 p =>
    intro before _
    exact ⟨[], [], [], .nil hnone, rfl, .finished⟩
  | case2 p c s e hscan =>
    intro before hp
    refine ⟨[], [], c :: s, .nil hnone, rfl, ?_⟩
    have hend : Ends before (c :: s) (some ⟨e.fault, .of (before ++ (c :: s).take e.before)⟩) :=
      .failed (fails_of_scan hscan)
    rw [← Position.after_of, ← hp] at hend
    rwa [Segment.join_nil, List.nil_append, List.append_nil]
  | case3 p c s more next hscan ih =>
    intro before hp
    obtain ⟨v, s, rfl, rfl, hblank⟩ := blank_of_scan hscan
    obtain ⟨segments, last, rest, hcut, htokens, hend⟩ :=
      ih (before ++ (c :: v)) (by rw [List.take_left, hp, Position.after_of])
    rw [List.drop_left] at hcut
    obtain ⟨segments', last', hcut', htokens', hjoin⟩ := hcut.blanks hblank
    refine ⟨segments', last', rest, hcut', htokens.trans htokens'.symm, ?_⟩
    rwa [hjoin, ← List.append_assoc before]
  | case4 p c s more next kind text hscan ih =>
    intro before hp
    obtain ⟨v, s, rfl, rfl, hspells, hstops⟩ := spells_of_scan hscan
    obtain ⟨segments, last, rest, hcut, htokens, hend⟩ :=
      ih (before ++ (c :: v)) (by rw [List.take_left, hp, Position.after_of])
    rw [List.drop_left] at hcut
    have hx : Segment.Fits ⟨[], c :: v, ⟨kind, text, p⟩⟩ before s :=
      ⟨hnone, hspells, by rw [List.append_nil, hp], hstops⟩
    refine ⟨_, last, rest, hcut.cons hx, congrArg _ htokens, ?_⟩
    rwa [Segment.join_cons, List.append_assoc, ← List.append_assoc before]

theorem lexFrom_blanks {w : Text} (hw : ∀ c ∈ w, c.isBlank = true) (p : Position) (s : Text) :
    lexFrom p (w ++ s) = lexFrom (p.after w) s := by
  induction w generalizing p with
  | nil => rfl
  | cons c w ih =>
    obtain ⟨hc, hw⟩ := List.forall_mem_cons.1 hw
    rw [List.cons_append, lexFrom_blank hc, ih hw]
    rfl

/-- Where the tokens of a text end, the lexer does. -/
theorem Ends.lexFrom {before rest : Text} {failure : Option ReadError}
    (h : Ends before rest failure) : lexFrom (.of before) rest = ⟨[], failure⟩ := by
  cases h with
  | finished => rw [MiniLisp.lexFrom]
  | @failed rest n fault h =>
    obtain ⟨c, s, rfl⟩ : ∃ c s, rest = c :: s := by
      cases h <;> exact ⟨_, _, rfl⟩
    rw [MiniLisp.lexFrom, scan_error_iff.2 h, ← Position.after_of]

/-- **However a text is cut, the lexer finds the tokens of the segments.** -/
theorem Segmentation.lexFrom {before s last rest : Text} {segments : List Segment}
    {failure : Option ReadError} (h : Segmentation before s segments last rest)
    (hend : Ends (before ++ (Segment.join segments ++ last)) rest failure) :
    lexFrom (.of before) s = ⟨segments.map Segment.token, failure⟩ := by
  induction segments generalizing before s with
  | nil =>
    obtain rfl : s = last ++ rest := h.covers
    rw [lexFrom_blanks h.blank, Position.after_of]
    exact hend.lexFrom
  | cons x segments ih =>
    obtain ⟨s, rfl, hx, hrest⟩ := h.uncons
    rw [Segment.join_cons, List.append_assoc, ← List.append_assoc before] at hend
    have hback := ih hrest hend
    rw [Segment.text, ← List.append_assoc] at hback
    rw [Segment.text, List.append_assoc, lexFrom_blanks hx.blank, Position.after_of,
      lexFrom_spelled hx.spells hx.stops, Position.after_of, hback, ← hx.position]
    rfl

/-- **The tokens of a text are a lossless segmentation of it.** A text has some tokens and some
failure exactly if it can be cut into segments with these tokens: white space and spellings in the
order of the text, each token at the place of its spelling and ending where it has to. The cut goes
to the end of the text if there is no failure, and to the construct that fails otherwise. -/
theorem lex_iff_segmentation (s : Text) (lexed : Lexed) :
    lex s = lexed ↔ ∃ segments last rest, Segmentation [] s segments last rest ∧
      lexed.tokens = segments.map Segment.token ∧
      Ends (Segment.join segments ++ last) rest lexed.failure := by
  constructor
  · rintro rfl
    exact exists_segmentation .start s [] Position.of_nil.symm
  · rintro ⟨segments, last, rest, hcut, htokens, hend⟩
    have hlex : lex s = ⟨segments.map Segment.token, lexed.failure⟩ := hcut.lexFrom hend
    rw [hlex, ← htokens]

end MiniLisp
