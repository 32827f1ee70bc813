import Mathlib.Data.List.Forall2
import MiniLisp.Proofs.Text.Quoted
import MiniLisp.Proofs.Token.Lexeme

/-!
# How lexemes are written

`Spells x u` says that `u` is a spelling of the lexeme `x`, and `Renders xs s` that the text `s` is
made of spellings of `xs` in order with white space anywhere between them. Only two kinds of lexemes
care what follows: a bare word has to end before a further bare code point would belong to it, and a
comment goes on to the end of its line (`Lexeme.Stops`).

* `scan_spelled`, `spells_of_scan`: one step of the lexer reads one spelling, and nothing else.
* `Renders.lexFrom`: **a text that renders `xs` has exactly the lexemes `xs`**, and a text without a
  failure renders the lexemes that it has (`renders_of_lexFrom`).
* `Writes xs t`: the part `t` of a text writes the lexemes `xs`, in front of anything but a bare
  code point. Written parts are put together with white space and marks.
-/

namespace MiniLisp

open CodePoint (ofChar)

/-- The spellings of a lexeme. -/
inductive Spells : Lexeme → Text → Prop
  | bare {u : Text} : u.isBareWord = true → Spells ⟨.bare, u⟩ u
  | quoted {t u : Text} : Quotes t u → Spells ⟨.quoted, t⟩ (ofChar '"' :: (u ++ [ofChar '"']))
  | guarded {t : Text} : ¬ [ofChar '"', ofChar '#'] <:+: t → Spells ⟨.guarded, t⟩ t.inGuards
  | lparen : Spells .lparen [ofChar '(']
  | rparen : Spells .rparen [ofChar ')']
  | colon : Spells .colon [ofChar ':']
  | comment {t : Text} : ofChar '\n' ∉ t → t.head? ≠ some (ofChar '"') →
      Spells ⟨.comment, t.stripReturns⟩ (ofChar '#' :: t)

/-- The text does not start with a code point that would go on with a bare word. -/
def Text.Detached (s : Text) : Prop := ∀ c, s.head? = some c → c.isBare = false

/-- The lexeme ends where the text `s` follows it. -/
def Lexeme.Stops (x : Lexeme) (s : Text) : Prop :=
  match x.kind with
  | .bare => s.Detached
  | .comment => ∀ c, s.head? = some c → c = ofChar '\n'
  | _ => True

/-- A text made of spellings and white space. -/
inductive Renders : List Lexeme → Text → Prop
  | nil : Renders [] []
  | blank {c : CodePoint} {xs : List Lexeme} {s : Text} : c.isBlank = true → Renders xs s →
      Renders xs (c :: s)
  | lexeme {x : Lexeme} {xs : List Lexeme} {u s : Text} : Spells x u → x.Stops s →
      Renders xs s → Renders (x :: xs) (u ++ s)

theorem Text.detached_nil : Text.Detached [] := by
  intro c h
  cases h

theorem Text.detached_cons {c : CodePoint} {s : Text} (h : c.isBare = false) :
    Text.Detached (c :: s) := by
  intro c' h'
  cases h'
  exact h

/-- Of the lexemes other than comments only a bare word minds what follows it. -/
theorem Lexeme.Stops.of_detached {x : Lexeme} {s : Text} (hx : x.kind ≠ .comment)
    (h : x.kind = .bare → s.Detached) : x.Stops s := by
  unfold Lexeme.Stops
  split
  · rename_i hk
    exact h hk
  · rename_i hk
    exact absurd hk hx
  · trivial

theorem CodePoint.isBare_of_isBlank {c : CodePoint} (h : c.isBlank = true) : c.isBare = false := by
  simp [CodePoint.isBare, h]

/-- A bare code point is neither blank nor one of the marks. -/
theorem CodePoint.isBare_ne {c : CodePoint} (h : c.isBare = true) :
    c.isBlank = false ∧ c ≠ '#' ∧ c ≠ '(' ∧ c ≠ ')' ∧ c ≠ ':' ∧ c ≠ '"' := by
  simp only [CodePoint.isBare, CodePoint.isMark, Bool.and_eq_true, Bool.not_eq_true',
    Bool.or_eq_false_iff, decide_eq_false_iff_not] at h
  obtain ⟨⟨hblank, ⟨⟨⟨⟨⟨hl, hr⟩, hc⟩, hq⟩, hn⟩, -⟩⟩, -⟩ := h
  exact ⟨hblank, hn, hl, hr, hc, hq⟩

/-! ## One piece of a text -/

theorem Text.isBareWord_cons {c : CodePoint} {u : Text} :
    Text.isBareWord (c :: u) = true ↔ c.isBare = true ∧ ∀ d ∈ u, d.isBare = true := by
  simp [Text.isBareWord]

/-- **A spelling is read whole**, unless what follows could belong to it. -/
theorem scan_spelled {x : Lexeme} {u s : Text} (h : Spells x u) (hs : x.Stops s) :
    ∃ c v, u = c :: v ∧ scan c (v ++ s) = .ok (.token x.kind x.text, v.length) := by
  cases h with
  | bare hu =>
    cases u with
    | nil => cases hu
    | cons c v =>
      obtain ⟨hc, hv⟩ := Text.isBareWord_cons.1 hu
      obtain ⟨hblank, hn, hl, hr, hco, hq⟩ := CodePoint.isBare_ne hc
      have hrun := takeWhile_append_stop hv hs
      exact ⟨c, v, rfl, by simp [scan, hblank, hn, hl, hr, hco, hq, hc, hrun]⟩
  | @quoted t u hu =>
    refine ⟨_, _, rfl, ?_⟩
    have hblank : (ofChar '"').isBlank = false := rfl
    have hread := readQuoted_append hu s
    simp [scan, hblank, hread]
  | @guarded t ht =>
    have hblank : (ofChar '#').isBlank = false := rfl
    have hend := guardEnd?_append (guardEnd?_none_iff.2 ht) s
    have hu : t.inGuards = ofChar '#' :: ofChar '"' :: (t ++ [ofChar '"', ofChar '#']) := rfl
    refine ⟨_, _, hu, ?_⟩
    simp [scan, hblank, hend]
  | lparen => exact ⟨_, [], rfl, rfl⟩
  | rparen => exact ⟨_, [], rfl, rfl⟩
  | colon => exact ⟨_, [], rfl, rfl⟩
  | @comment t hline hopen =>
    have hblank : (ofChar '#').isBlank = false := rfl
    -- behind an empty comment comes a line feed, so no guarded string opens here
    have hopen' : (t ++ s).head? ≠ some (ofChar '"') := by
      intro h
      cases t with
      | nil => exact absurd (hs _ h) (by simp)
      | cons c t => exact hopen h
    have hrun : (t ++ s).takeWhile (· ≠ ofChar '\n') = t := by
      apply takeWhile_append_stop
      · intro c hc
        exact decide_eq_true (fun h => hline (h ▸ hc))
      · intro c hc
        simpa using hs c hc
    exact ⟨_, t, rfl, by
      simp only [scan, hblank, Bool.false_eq_true, ↓reduceIte, hopen', hrun]⟩

/-- What a number sign opens: a guarded string up to its end, or a comment. -/
theorem spells_of_scan_hash {rest t : Text} {kind : TokenKind} {n : Nat}
    (h : scan (ofChar '#') rest = .ok (.token kind t, n)) :
    ∃ v s, rest = v ++ s ∧ n = v.length ∧ Spells ⟨kind, t⟩ (ofChar '#' :: v) ∧
      Lexeme.Stops ⟨kind, t⟩ s := by
  have hblank : ¬ (ofChar '#').isBlank = true := by decide
  rw [scan, if_neg hblank, if_pos rfl] at h
  by_cases hopen : rest.head? = some (ofChar '"')
  · rw [if_pos hopen] at h
    obtain ⟨rest, rfl⟩ := List.head?_eq_some_iff.1 hopen
    split at h
    · rename_i length hend
      obtain ⟨u, r, hu, rfl, hnone⟩ := guardEnd?_some hend
      rw [List.drop_one, List.tail_cons] at hu
      subst hu
      have hspelt := Spells.guarded (guardEnd?_none_iff.1 hnone)
      cases h
      refine ⟨ofChar '"' :: (u ++ [ofChar '"', ofChar '#']), r, by simp, by simp, ?_, trivial⟩
      rw [List.drop_one, List.tail_cons, List.take_left]
      exact hspelt
    · cases h
  · rw [if_neg hopen] at h
    obtain ⟨u, r, rfl, htake, hline, hend⟩ := exists_run (· ≠ ofChar '\n') rest
    rw [htake] at h
    cases h
    refine ⟨u, r, rfl, rfl, .comment ?_ ?_, ?_⟩
    · intro hmem
      simpa using hline _ hmem
    · intro hquote
      obtain ⟨u, rfl⟩ := List.head?_eq_some_iff.1 hquote
      exact hopen rfl
    · intro c hc
      simpa using hend c hc

/-- **A token that is read is a spelling of it**, and stops there. -/
theorem spells_of_scan {c : CodePoint} {rest t : Text} {kind : TokenKind} {n : Nat}
    (h : scan c rest = .ok (.token kind t, n)) :
    ∃ v s, rest = v ++ s ∧ n = v.length ∧ Spells ⟨kind, t⟩ (c :: v) ∧
      Lexeme.Stops ⟨kind, t⟩ s := by
  by_cases hhash : c = ofChar '#'
  · subst hhash
    exact spells_of_scan_hash h
  rw [scan] at h
  split at h
  · cases h
  split at h
  · rename_i hc
    subst hc
    cases h
    exact ⟨[], rest, rfl, rfl, .lparen, trivial⟩
  split at h
  · rename_i hc
    subst hc
    cases h
    exact ⟨[], rest, rfl, rfl, .rparen, trivial⟩
  split at h
  · rename_i hc
    subst hc
    cases h
    exact ⟨[], rest, rfl, rfl, .colon, trivial⟩
  split at h
  · rename_i hc
    subst hc
    split at h
    · rename_i text length hread
      obtain ⟨u, r, rfl, rfl, hu⟩ := quotes_of_read hread
      cases h
      exact ⟨u ++ [ofChar '"'], r, by simp, by simp, .quoted hu, trivial⟩
    · cases h
    · cases h
  split at h
  · rename_i hc
    obtain ⟨u, r, rfl, htake, hword, hend⟩ := exists_run CodePoint.isBare rest
    rw [htake] at h
    cases h
    exact ⟨u, r, rfl, rfl, .bare (Text.isBareWord_cons.2 ⟨hc, hword⟩), hend⟩
  · cases h

/-- A run of white space that is read is white space throughout. -/
theorem blank_of_scan {c : CodePoint} {rest : Text} {n : Nat}
    (h : scan c rest = .ok (.blank, n)) :
    ∃ v s, rest = v ++ s ∧ n = v.length ∧ ∀ d ∈ c :: v, d.isBlank = true := by
  by_cases hc : c.isBlank = true
  · rw [scan, if_pos hc] at h
    obtain ⟨v, s, rfl, htake, hblank, -⟩ := exists_run CodePoint.isBlank rest
    rw [htake] at h
    cases h
    exact ⟨v, s, rfl, rfl, List.forall_mem_cons.2 ⟨hc, hblank⟩⟩
  · -- every other piece is a token
    rw [scan, if_neg hc] at h
    repeat' split at h
    all_goals cases h

/-! ## Whole texts -/

/-- White space at the front is passed over, one code point at a time. -/
theorem lexFrom_blank {c : CodePoint} (hc : c.isBlank = true) (p : Position) (s : Text) :
    lexFrom p (c :: s) = lexFrom (p.advance c) s := by
  -- the lexer takes a run of white space as one piece, and a shorter run ends in the same place
  have hrun (c : CodePoint) (hc : c.isBlank = true) (p : Position) (s : Text) :
      lexFrom p (c :: s) = lexFrom (p.after (c :: s.takeWhile CodePoint.isBlank))
        (s.dropWhile CodePoint.isBlank) := by
    have htake : s.take (s.takeWhile CodePoint.isBlank).length = s.takeWhile CodePoint.isBlank :=
      (List.prefix_iff_eq_take.1 (List.takeWhile_prefix _)).symm
    have hdrop : s.drop (s.takeWhile CodePoint.isBlank).length = s.dropWhile CodePoint.isBlank := by
      have hcut := List.take_append_drop (s.takeWhile CodePoint.isBlank).length s
      rw [htake] at hcut
      exact List.append_cancel_left (hcut.trans List.takeWhile_append_dropWhile.symm)
    have hscan : scan c s = .ok (.blank, (s.takeWhile CodePoint.isBlank).length) := by
      simp [scan, hc]
    rw [lexFrom]
    simp only [hscan, htake, hdrop]
  cases s with
  | nil => rw [hrun c hc]; rfl
  | cons d s =>
    by_cases hd : d.isBlank = true
    · rw [hrun c hc, hrun d hd, List.takeWhile_cons_of_pos hd, List.dropWhile_cons_of_pos hd]
      rfl
    · rw [hrun c hc, List.takeWhile_cons_of_neg hd, List.dropWhile_cons_of_neg hd]
      rfl

/-- A spelling at the front gives its token. -/
theorem lexFrom_spelled {x : Lexeme} {u s : Text} (h : Spells x u) (hs : x.Stops s)
    (p : Position) :
    lexFrom p (u ++ s) =
      { lexFrom (p.after u) s with
        tokens := ⟨x.kind, x.text, p⟩ :: (lexFrom (p.after u) s).tokens } := by
  obtain ⟨c, v, rfl, hscan⟩ := scan_spelled h hs
  rw [List.cons_append, lexFrom]
  simp only [hscan, List.take_left, List.drop_left]

/-- **A text that renders some lexemes has exactly these**, and no failure. -/
theorem Renders.lexFrom {xs : List Lexeme} {s : Text} (h : Renders xs s) (p : Position) :
    (lexFrom p s).failure = none ∧ (lexFrom p s).lexemes = xs := by
  induction h generalizing p with
  | nil => rw [MiniLisp.lexFrom]; exact ⟨rfl, rfl⟩
  | blank hc _ ih => rw [lexFrom_blank hc]; exact ih _
  | @lexeme x xs u s hx hstop _ ih =>
    obtain ⟨hfail, htokens⟩ := ih (p.after u)
    rw [lexFrom_spelled hx hstop]
    refine ⟨hfail, ?_⟩
    rw [← htokens]
    rfl

theorem Renders.lex {xs : List Lexeme} {s : Text} (h : Renders xs s) :
    (lex s).failure = none ∧ (lex s).lexemes = xs := h.lexFrom .start

theorem Renders.blanks {xs : List Lexeme} {u s : Text} (hu : ∀ c ∈ u, c.isBlank = true)
    (h : Renders xs s) : Renders xs (u ++ s) := by
  induction u with
  | nil => exact h
  | cons c u ih =>
    exact .blank (hu c List.mem_cons_self) (ih fun d hd => hu d (List.mem_cons_of_mem _ hd))

/-- **A text without a failure renders the lexemes that it has.** -/
theorem renders_of_lexFrom {p : Position} {s : Text} (h : (lexFrom p s).failure = none) :
    Renders (lexFrom p s).lexemes s := by
  fun_induction lexFrom p s with
  | case1 => exact .nil
  | case2 p c rest e hscan => cases h
  | case3 p c rest more next hscan ih =>
    obtain ⟨v, s, rfl, rfl, hblank⟩ := blank_of_scan hscan
    have hrest : Renders next.lexemes ((v ++ s).drop v.length) := ih h
    rw [List.drop_left] at hrest
    exact hrest.blanks hblank
  | case4 p c rest more next kind text hscan ih =>
    obtain ⟨v, s, rfl, rfl, hspells, hstop⟩ := spells_of_scan hscan
    have hrest : Renders next.lexemes ((v ++ s).drop v.length) := ih h
    rw [List.drop_left] at hrest
    exact .lexeme hspells hstop hrest

/-! ## Parts of texts -/

/-- The part `t` of a text writes the lexemes `xs`, wherever no bare code point follows it. -/
def Writes (xs : List Lexeme) (t : Text) : Prop :=
  ∀ ys s, s.Detached → Renders ys s → Renders (xs ++ ys) (t ++ s)

theorem Text.Detached.append {s t : Text} (hs : s.Detached) (ht : t.Detached) :
    Text.Detached (s ++ t) := by
  cases s with
  | nil => exact ht
  | cons c s => exact Text.detached_cons (hs c rfl)

namespace Writes

variable {x : Lexeme} {xs ys : List Lexeme} {s t u : Text} {c : CodePoint}

theorem renders (h : Writes xs t) : Renders xs t := by
  have := h [] [] Text.detached_nil .nil
  rwa [List.append_nil, List.append_nil] at this

theorem nil : Writes [] [] := fun _ _ _ h => h

theorem lexeme (h : Spells x u) (hx : x.kind ≠ .comment) : Writes [x] u := by
  intro ys s hs hr
  exact .lexeme h (.of_detached hx fun _ => hs) hr

theorem blank (hc : c.isBlank = true) (h : Writes xs t) : Writes xs (c :: t) :=
  fun ys s hs hr => .blank hc (h ys s hs hr)

theorem blanks (hu : ∀ c ∈ u, c.isBlank = true) (h : Writes xs t) : Writes xs (u ++ t) := by
  induction u with
  | nil => exact h
  | cons c u ih =>
    exact .blank (hu c List.mem_cons_self) (ih fun d hd => hu d (List.mem_cons_of_mem _ hd))

/-- Two parts next to each other, if the second cannot go on with a bare word of the first. -/
theorem append (h : Writes xs s) (h' : Writes ys t) (ht : t.Detached) :
    Writes (xs ++ ys) (s ++ t) := by
  intro zs r hr hrr
  rw [List.append_assoc, List.append_assoc]
  exact h _ _ (ht.append hr) (h' _ _ hr hrr)

/-- Parts with white space between neighbours. -/
theorem join {sep : Text} (hne : sep ≠ []) (hsep : ∀ c ∈ sep, c.isBlank = true)
    {xss : List (List Lexeme)} {ts : List Text} (h : List.Forall₂ Writes xss ts) :
    Writes xss.flatten (Text.join sep ts) := by
  have hdetached (t : Text) : Text.Detached (sep ++ t) := by
    cases sep with
    | nil => exact absurd rfl hne
    | cons c sep =>
      exact Text.detached_cons (CodePoint.isBare_of_isBlank (hsep c List.mem_cons_self))
  induction h with
  | nil => exact .nil
  | @cons xs t xss ts hx hrest ih =>
    cases hrest with
    | nil => simpa [Text.join] using hx
    | cons =>
      rw [Text.join, List.intercalate_cons_cons, List.append_assoc]
      exact hx.append (ih.blanks hsep) (hdetached _)

end Writes

end MiniLisp
