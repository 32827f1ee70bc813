import Mathlib
import MiniLisp.Proofs.Document.Acceptance
import MiniLisp.Proofs.Token.Rendering

/-!
# Spacing

White space and comments between the tokens of a document do not matter. `Text.pieces` cuts a text
as the lexer does, and `Text.spellings` keeps the parts that stand for tokens other than comments.
Put together again with any separators between them (`Text.spread`), they say what they said before,
as long as no two bare words run into each other.

* `Separator`: white space and whole comments.
* `Says xs s`: comments aside, the text `s` renders the lexemes `xs`.
* `says_spread`: **spellings with separators between them say what each of them spells.**
-/

namespace MiniLisp

open CodePoint (ofChar)

/-! ## The parts of a text -/

/-- Whether a piece counts for what a text says. -/
def Piece.isSignificant : Piece → Bool
  | .blank => false
  | .token kind _ => kind ≠ .comment

/-- The pieces of a text up to its first failure, each with the part of the text that it is. -/
def Text.pieces : Text → List (Piece × Text)
  | [] => []
  | c :: rest =>
    match scan c rest with
    | .error _ => []
    | .ok (piece, more) => (piece, c :: rest.take more) :: pieces (rest.drop more)
termination_by s => s.length
decreasing_by simp only [List.length_drop, List.length_cons]; omega

/-- The parts of a text that are tokens, without the comments. -/
def Text.spellings (s : Text) : List Text :=
  (s.pieces.filter fun e => e.1.isSignificant).map Prod.snd

/-- **The spellings of a text spell what it says**, one by one. -/
theorem Text.spells_spellings (s : Text) (p : Position) :
    List.Forall₂ Spells (lexFrom p s).significant s.spellings := by
  unfold Text.spellings Lexed.significant
  induction s using Text.pieces.induct generalizing p with
  | case1 => rw [lexFrom, pieces]; exact .nil
  | case2 c rest e hscan =>
    rw [lexFrom, pieces]
    simp only [hscan]
    exact .nil
  | case3 c rest piece more hscan ih =>
    rw [lexFrom, pieces]
    simp only [hscan]
    cases piece with
    | blank => exact ih _
    | token kind text =>
      obtain ⟨v, r, rfl, rfl, hspells, -⟩ := spells_of_scan hscan
      simp only [List.take_left, List.drop_left] at ih ⊢
      by_cases hk : kind = .comment
      · rw [List.filter_cons_of_neg (by simp [Token.isComment, hk]),
          List.filter_cons_of_neg (by simp [Piece.isSignificant, hk])]
        exact ih _
      · rw [List.filter_cons_of_pos (by simp [Token.isComment, hk]),
          List.filter_cons_of_pos (by simp [Piece.isSignificant, hk])]
        exact .cons hspells (ih _)

/-! ## Separators -/

/-- White space and comments, each up to the end of its line. -/
inductive Separator : Text → Prop
  | nil : Separator []
  | blank {c : CodePoint} {w : Text} : c.isBlank = true → Separator w → Separator (c :: w)
  | comment {t w : Text} : ofChar '\n' ∉ t → t.head? ≠ some (ofChar '"') → Separator w →
      Separator (ofChar '#' :: (t ++ ofChar '\n' :: w))

/-- Comments aside, the text renders the lexemes. -/
def Says (xs : List Lexeme) (s : Text) : Prop :=
  ∃ ys, Renders ys s ∧ ys.filter (fun x => x.kind ≠ .comment) = xs

/-- A separator ends a bare word in front of it, if it is there at all. -/
theorem Separator.detached {w : Text} (h : Separator w) (hne : w ≠ []) (s : Text) :
    Text.Detached (w ++ s) := by
  cases h with
  | nil => exact absurd rfl hne
  | blank hc _ => exact Text.detached_cons (CodePoint.isBare_of_isBlank hc)
  | comment => exact Text.detached_cons rfl

namespace Says

variable {x : Lexeme} {xs : List Lexeme} {s u w : Text}

theorem nil : Says [] [] := ⟨[], .nil, rfl⟩

theorem blank {c : CodePoint} (hc : c.isBlank = true) (h : Says xs s) : Says xs (c :: s) := by
  obtain ⟨ys, hr, hf⟩ := h
  exact ⟨ys, .blank hc hr, hf⟩

theorem lexeme (hu : Spells x u) (hx : x.kind ≠ .comment) (hs : x.Stops s) (h : Says xs s) :
    Says (x :: xs) (u ++ s) := by
  obtain ⟨ys, hr, rfl⟩ := h
  exact ⟨x :: ys, .lexeme hu hs hr, List.filter_cons_of_pos (decide_eq_true hx)⟩

/-- A comment says nothing, if its line ends. -/
theorem comment {t : Text} (hline : ofChar '\n' ∉ t) (hopen : t.head? ≠ some (ofChar '"'))
    (h : Says xs s) : Says xs (ofChar '#' :: (t ++ ofChar '\n' :: s)) := by
  obtain ⟨ys, hr, rfl⟩ := h
  -- the line feed is not part of the comment, but white space behind it
  have hend : Renders ys (ofChar '\n' :: s) := .blank rfl hr
  have hstop : Lexeme.Stops ⟨.comment, t.stripReturns⟩ (ofChar '\n' :: s) := by
    intro c hc
    exact (Option.some.inj hc).symm
  exact ⟨_, .lexeme (.comment hline hopen) hstop hend, List.filter_cons_of_neg (by simp)⟩

/-- **A separator says nothing.** -/
theorem separator (hw : Separator w) (h : Says xs s) : Says xs (w ++ s) := by
  induction hw with
  | nil => exact h
  | blank hc _ ih => exact ih.blank hc
  | @comment t w hline hopen _ ih =>
    have := ih.comment hline hopen
    simpa only [List.cons_append, List.append_assoc] using this

theorem lex (h : Says xs s) :
    (MiniLisp.lex s).failure = none ∧ (MiniLisp.lex s).significant = xs := by
  obtain ⟨ys, hr, rfl⟩ := h
  obtain ⟨hfail, hlex⟩ := hr.lex
  exact ⟨hfail, by rw [Lexed.significant_eq, hlex]⟩

end Says

/-! ## Texts put together from spellings -/

/-- The spellings of bare lexemes are the bare words. -/
theorem Spells.isBareWord {x : Lexeme} {u : Text} (h : Spells x u) (hx : x.kind = .bare) :
    u.isBareWord = true := by
  cases h with
  | bare hu => exact hu
  | _ => cases hx

/-- Any other spelling ends a bare word in front of it. -/
theorem Spells.detached {x : Lexeme} {u : Text} (h : Spells x u) (hu : ¬ u.isBareWord = true)
    (s : Text) : Text.Detached (u ++ s) := by
  cases h with
  | bare hu' => exact absurd hu' hu
  | _ => exact Text.detached_cons rfl

/-- Each text followed by the separator that belongs to it. -/
def Text.spread (us ws : List Text) : Text := (List.zipWith (· ++ ·) us ws).flatten

theorem Text.spread_cons (u w : Text) (us ws : List Text) :
    Text.spread (u :: us) (w :: ws) = u ++ (w ++ Text.spread us ws) := List.append_assoc _ _ _

/-- Two bare words that are neighbours have something between them. -/
def Text.Apart (us ws : List Text) : Prop :=
  ∀ e ∈ (us.zip us.tail).zip ws, e.1.1.isBareWord = true → e.1.2.isBareWord = true → e.2 ≠ []

instance (us ws : List Text) : Decidable (Text.Apart us ws) :=
  inferInstanceAs (Decidable (∀ e ∈ (us.zip us.tail).zip ws, _))

namespace Text.Apart

variable {u u' w : Text} {us ws : List Text}

theorem ne_nil (h : Text.Apart (u :: u' :: us) (w :: ws)) (hu : u.isBareWord = true)
    (hu' : u'.isBareWord = true) : w ≠ [] :=
  h ((u, u'), w) List.mem_cons_self hu hu'

theorem tail (h : Text.Apart (u :: us) (w :: ws)) : Text.Apart us ws := by
  cases us with
  | nil => exact fun e he => absurd he List.not_mem_nil
  | cons u' us => exact fun e he => h e (List.mem_cons_of_mem _ he)

end Text.Apart

/-- A bare word ends where a separator and further spellings follow it. -/
theorem detached_spread {u w : Text} {xs : List Lexeme} {us ws : List Text} (hw : Separator w)
    (h : List.Forall₂ Spells xs us) (hlen : ws.length = us.length)
    (hapart : Text.Apart (u :: us) (w :: ws)) (hu : u.isBareWord = true) :
    Text.Detached (w ++ Text.spread us ws) := by
  by_cases hne : w = []
  · -- nothing in between: what follows is no bare word
    subst hne
    cases h with
    | nil => exact Text.detached_nil
    | @cons x u' xs us hu' _ =>
      cases ws with
      | nil => cases hlen
      | cons w ws =>
        rw [List.nil_append, Text.spread_cons]
        exact hu'.detached (fun hbare => hapart.ne_nil hu hbare rfl) _
  · exact hw.detached hne _

/-- **Spellings with separators between them say what each of them spells.** -/
theorem says_spread {xs : List Lexeme} {us ws : List Text} (h : List.Forall₂ Spells xs us)
    (hxs : ∀ x ∈ xs, x.kind ≠ .comment) (hws : ∀ w ∈ ws, Separator w)
    (hlen : ws.length = us.length) (hapart : Text.Apart us ws) :
    Says xs (Text.spread us ws) := by
  induction h generalizing ws with
  | nil => exact .nil
  | @cons x u xs us hu hus ih =>
    cases ws with
    | nil => cases hlen
    | cons w ws =>
      have hw := hws w List.mem_cons_self
      have hx := hxs x List.mem_cons_self
      have hlen' : ws.length = us.length := Nat.succ.inj hlen
      have hrest : Says xs (Text.spread us ws) :=
        ih (fun y hy => hxs y (List.mem_cons_of_mem _ hy))
          (fun y hy => hws y (List.mem_cons_of_mem _ hy)) hlen' hapart.tail
      -- only a bare word minds what comes next
      have hstop : x.Stops (w ++ Text.spread us ws) := by
        refine .of_detached hx fun hbare => ?_
        exact detached_spread hw hus hlen' hapart (hu.isBareWord hbare)
      rw [Text.spread_cons]
      exact (hrest.separator hw).lexeme hu hx hstop

namespace Source

/-- The text of a source, as far as it can be decoded. -/
def content : Source → Text
  | .text t => t
  | .bytes b => (Utf8.decode b).1

/-- A source without a failure is read as its text. -/
theorem lex_content {source : Source} (h : source.lex.failure = none) :
    source.lex = MiniLisp.lex source.content := by
  cases source with
  | text t => rfl
  | bytes b =>
    simp only [Source.lex, content] at h ⊢
    split at h
    · rename_i t hd
      simp only [hd]
    · cases h

/-- **Spacing does not matter.** Take the tokens of a document that reads as `v` out of its text,
comments aside, and put any separators in front of, between and after them, so that no two bare
words run into each other: the text reads as `v` again. -/
theorem parse_respaced {source : Source} {limit : Int} {v : Datum}
    (h : (source.parse limit).result = .ok v) {w : Text} {ws : List Text} (hw : Separator w)
    (hws : ∀ w' ∈ ws, Separator w') (hlen : ws.length = source.content.spellings.length)
    (hapart : Text.Apart source.content.spellings ws) :
    ((Source.text (w ++ Text.spread source.content.spellings ws)).parse limit).result = .ok v := by
  obtain ⟨hfail, hbody⟩ := (source.parse_ok_iff limit v).1 h
  have hspells : List.Forall₂ Spells source.lex.significant source.content.spellings := by
    rw [lex_content hfail]
    exact Text.spells_spellings _ _
  have hsays := (says_spread hspells hbody.ne_comment hws hlen hapart).separator hw
  obtain ⟨hfail', hsig⟩ := hsays.lex
  refine (parse_ok_iff _ limit v).2 ⟨hfail', ?_⟩
  exact hsig ▸ hbody

/-- Only comments keep two bare words apart and follow a guarded string, and nothing stands between
the other tokens. -/
theorem parse_respaced_comments :
    ((Source.text "(a b \"c\" #\"d\"# ) : e # end").parse 1).result =
        .ok (.map (.list [.atom ⟨"a", .bare⟩, .atom ⟨"b", .bare⟩, .atom ⟨"c", .quoted⟩,
          .atom ⟨"d", .guarded⟩]) (.atom ⟨"e", .bare⟩) []) ∧
      ((Source.text "# start\n(a#\nb\"c\"#\"d\"##x\n):e").parse 1).result =
        .ok (.map (.list [.atom ⟨"a", .bare⟩, .atom ⟨"b", .bare⟩, .atom ⟨"c", .quoted⟩,
          .atom ⟨"d", .guarded⟩]) (.atom ⟨"e", .bare⟩) []) := by
  have hread : ((Source.text "(a b \"c\" #\"d\"# ) : e # end").parse 1).result =
      .ok (.map (.list [.atom ⟨"a", .bare⟩, .atom ⟨"b", .bare⟩, .atom ⟨"c", .quoted⟩,
        .atom ⟨"d", .guarded⟩]) (.atom ⟨"e", .bare⟩) []) := by cbv
  have hcut : (Source.text "(a b \"c\" #\"d\"# ) : e # end").content.spellings =
      [Text.ofString "(", "a", "b", "\"c\"", "#\"d\"#", ")", ":", "e"] := by cbv
  have hstart : Separator "# start\n" :=
    .comment (t := Text.ofString " start") (w := []) (by decide) (by decide) .nil
  have hempty : Separator "#\n" := .comment (t := []) (w := []) (by decide) (by decide) .nil
  have hshort : Separator "#x\n" :=
    .comment (t := Text.ofString "x") (w := []) (by decide) (by decide) .nil
  have hws : ∀ w ∈ [[], Text.ofString "#\n", [], [], "#x\n", [], [], []], Separator w := by
    simp [hempty, hshort, Separator.nil]
  have := parse_respaced hread hstart hws (by rw [hcut]; rfl) (by rw [hcut]; decide)
  rw [hcut] at this
  exact ⟨hread, this⟩

end Source

end MiniLisp
