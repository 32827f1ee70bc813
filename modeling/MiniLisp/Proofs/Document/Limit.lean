import MiniLisp.Proofs.Document.Lossless
import MiniLisp.Proofs.Document.Refusal

/-!
# The limit on nesting is exact

A limit `d` lets a document have lists and maps down to depth `d` below its root, the keys of maps
included, and no deeper. A higher limit changes nothing for a document that keeps to `d`, whether it
reads or has some other fault. One that does not is refused at the first parenthesis that opens where
`d` are open already.

* `Source.depth_le_of_parse`: what is read keeps to the limit.
* `Takes.openParens_lt`: so do the parentheses that have been taken in.
* `Takes.step_ne_limit`: two limits part only at a parenthesis that finds as many open as the lower
  one allows.
-/

namespace MiniLisp

/-- How deep the deepest list or map of a document lies below the root, which is at depth zero. -/
def Datum.depth (v : Datum) : Nat := v.nesting - 1

theorem Grammar.Body.ne_atom {d : Nat} {xs : List Lexeme} {v : Datum} (h : Grammar.Body d xs v)
    (a : Atom) : v ≠ .atom a := by
  cases h with
  | list => nofun
  | map => nofun

/-- **What is read keeps to the limit.** -/
theorem Source.depth_le_of_parse {source : Source} {d : Nat} {v : Datum}
    (h : (source.parse d).result = .ok v) : v.depth ≤ d := by
  obtain ⟨-, hbody⟩ := (source.parse_ok_iff d v).1 h
  have hnesting := Datum.nesting_document hbody.ne_atom
  have hle := hbody.nesting_le
  rw [Source.documentLexemes_of_parse h] at hnesting
  rw [Int.toNat_natCast] at hle
  rw [Datum.depth]
  omega

/-! ## Parentheses within the limit -/

theorem Traced.outer_le {α : Type} {d : Nat} {xs : List Lexeme} {s : Reading.State α}
    (h : Traced d xs s) : s.outer.length ≤ d := by
  cases h with
  | intro hout _ =>
    cases hout with
    | nil => exact Nat.zero_le d
    | cons _ _ _ hlt => exact hlt

namespace Reading.State

variable {d d' : Nat} {s : State Empty} {ts : List Token} {t : Token}

theorem Takes.length_openParens {place : Place} (h : Takes place .start ts s)
    (hts : ∀ t ∈ ts, t.kind ≠ .comment) : (Token.openParens ts).length = s.outer.length := by
  have := congrArg List.length (h.openParens hts)
  simpa only [List.length_map] using this

/-- A parenthesis that has been taken in found fewer open than the limit allows. -/
theorem Takes.openParens_lt {front rest : List Token}
    (h : Takes ⟨0, d, none⟩ .start (front ++ t :: rest) s)
    (hts : ∀ t' ∈ front ++ t :: rest, t'.kind ≠ .comment) (ht : t.kind = .lparen) :
    (Token.openParens front).length < d := by
  obtain ⟨hfront, htail⟩ := List.forall_mem_append.1 hts
  obtain ⟨s₁, hbefore, hback⟩ := h.split
  rw [hbefore.length_openParens hfront]
  cases hback with
  | cons hs _ =>
  rcases step_next (htail t List.mem_cons_self) hs with ⟨_, form, -, hform, -⟩ |
    ⟨_, -, -, hd, -⟩ | ⟨_, _, _, _, _, -, hk, -⟩ | ⟨_, _, _, -, hk, -⟩
  · rw [ht] at hform
    cases hform
  · simp only [depth] at hd
    omega
  · rw [ht] at hk
    cases hk
  · rw [ht] at hk
    cases hk

/-- **Two limits part only at a parenthesis that finds as many open as the lower one allows**, and
there the lower one refuses. -/
theorem Takes.step_ne_limit (h : Takes ⟨0, d, none⟩ .start ts s)
    (hts : ∀ t ∈ ts, t.kind ≠ .comment) (hle : d ≤ d')
    (hne : s.step ⟨0, d, none⟩ t ≠ s.step ⟨0, d', none⟩ t) :
    t.kind = .lparen ∧ (Token.openParens ts).length = d ∧
      s.step ⟨0, d, none⟩ t = .fail ⟨.tooDeep d, t.position⟩ := by
  have ht : t.kind = .lparen := by
    by_contra ht
    exact hne (s.step_eq_of_ne_lparen 0 d d' none ht)
  have htraced : Traced d ([] ++ ts.map Token.lexeme) s := Traced.start.takes hts h
  have hmost := htraced.outer_le
  have hleast : d ≤ s.outer.length := by
    -- with room for one more, both limits would take the parenthesis in
    by_contra hroom
    obtain ⟨reading, outer⟩ := s
    simp only at hroom
    cases reading with
    | colon e es k p => exact hne (by simp [step, ht])
    | item body =>
      have hd : (0 : Int) + outer.length + 1 ≤ d := by omega
      have hd' : (0 : Int) + outer.length + 1 ≤ d' := by omega
      exact hne ((step_lparen ht hd).trans (step_lparen ht hd').symm)
  refine ⟨ht, by rw [h.length_openParens hts]; omega, ?_⟩
  rcases s.step_limit t 0 none (Int.ofNat_le.2 hle) with heq | hfail
  · exact absurd heq hne
  · exact hfail

end Reading.State

namespace Source

open Reading.State (Takes)

/-- Two limits give the same, unless they part at some token. -/
theorem parse_eq_or_step_ne (source : Source) {d d' : Nat} (hle : d ≤ d') :
    (source.parse d).result = (source.parse d').result ∨
      ∃ (front : List Token) (t : Token) (rest : List Token) (s : Reading.State Empty),
        source.tokens = front ++ t :: rest ∧ Takes ⟨0, d, none⟩ .start front s ∧
        s.step ⟨0, d, none⟩ t ≠ s.step ⟨0, d', none⟩ t := by
  have hraise {ts : List Token} {s : Reading.State Empty} (hts : ∀ t ∈ ts, t.kind ≠ .comment)
      (h : Takes ⟨0, d, none⟩ .start ts s) : Takes ⟨0, d', none⟩ .start ts s :=
    h.of_limit hts (by omega)
  have hcomment := source.tokens_ne_comment
  have hrun (n : Nat) : (source.parse n).result = (Stream.feed ⟨0, n, none⟩ source.lex.failure
      (.start : Reading.State Empty) .start [] source.tokens).1 := rfl
  rcases Reading.State.takes_or_fails (.start : Reading.State Empty) d source.tokens with
    ⟨s, htakes⟩ | ⟨front, t, rest, s, e, htokens, htakes, hfail⟩
  · left
    rw [hrun d, hrun d']
    cases source.lex.failure with
    | some e =>
      obtain ⟨_, hlower⟩ := (Stream.feed_end htakes (some e) .start []).1
      obtain ⟨_, hhigher⟩ := (Stream.feed_end (hraise hcomment htakes) (some e) .start []).1
      exact hlower.trans hhigher.symm
    | none =>
      rw [Stream.feed_end_last htakes, Stream.feed_end_last (hraise hcomment htakes)]
      rfl
  · by_cases heq : s.step ⟨0, d, none⟩ t = s.step ⟨0, d', none⟩ t
    · left
      rw [htokens] at hcomment
      have hhere : front ++ [t] <+: source.tokens := ⟨rest, by rw [htokens]; simp⟩
      rw [parse_of_fail htakes hfail hhere]
      rw [heq] at hfail
      exact (parse_of_fail (hraise (List.forall_mem_append.1 hcomment).1 htakes) hfail hhere).symm
    · exact .inr ⟨front, t, rest, s, htokens, htakes, heq⟩

/-- **The limit is exact and monotone.** What a document comes to under a limit that does not refuse
it as too deep, it comes to under every higher one. What is read under `d` lies at most `d` deep. And
a document that a higher limit reads as something deeper is refused under `d`, at the first opening
parenthesis before which exactly `d` are still open. -/
theorem parse_limit_exact (source : Source) {d d' : Nat} (hle : d ≤ d') :
    ((∀ n p, (source.parse d).result ≠ .error ⟨.tooDeep n, p⟩) →
      (source.parse d').result = (source.parse d).result) ∧
    (∀ v, (source.parse d).result = .ok v → v.depth ≤ d) ∧
    (∀ v, (source.parse d').result = .ok v → d < v.depth →
      ∃ front t rest, source.tokens = front ++ t :: rest ∧ t.kind = .lparen ∧
        (Token.openParens front).length = d ∧
        (∀ front' t' rest', source.tokens = front' ++ t' :: rest' → t'.kind = .lparen →
          (Token.openParens front').length = d → front.length ≤ front'.length) ∧
        (source.parse d).result = .error ⟨.tooDeep d, t.position⟩) := by
  refine ⟨?_, fun v hv => depth_le_of_parse hv, ?_⟩
  · intro hother
    rcases source.parse_limit (Int.ofNat_le.2 hle) with heq | ⟨p, hdeep⟩
    · exact heq.symm
    · exact absurd hdeep (hother d p)
  · intro v hv hdeep
    rcases source.parse_eq_or_step_ne hle with heq | ⟨front, t, rest, s, htokens, htakes, hne⟩
    · have := depth_le_of_parse (heq.trans hv)
      omega
    · have hcomment := source.tokens_ne_comment
      rw [htokens] at hcomment
      have hfront := (List.forall_mem_append.1 hcomment).1
      obtain ⟨ht, hopen, hfail⟩ := htakes.step_ne_limit hfront hle hne
      refine ⟨front, t, rest, htokens, ht, hopen, ?_, ?_⟩
      · intro front' t' rest' htokens' ht' hopen'
        rcases List.append_eq_append_iff.1 (htokens.symm.trans htokens') with
          ⟨middle, rfl, -⟩ | ⟨middle, rfl, hmiddle⟩
        · simp
        cases middle with
        | nil => simp
        | cons t'' middle =>
          -- an earlier parenthesis has been taken in, so it found fewer open
          obtain ⟨rfl, -⟩ := List.cons.inj hmiddle
          have := htakes.openParens_lt hfront ht'
          omega
      · exact parse_of_fail htakes hfail ⟨rest, by rw [htokens]; simp⟩

/-- The second item is a map with a list as its key. That list is at depth two: a limit of one refuses
the parenthesis that opens it, and not the one before it. -/
theorem parse_limit_exact_key :
    let source : Source := .text "(a) ((b): c)"
    let v : Datum := .list [.list [.atom ⟨"a", .bare⟩],
      .map (.list [.atom ⟨"b", .bare⟩]) (.atom ⟨"c", .bare⟩) []]
    (source.parse 2).result = .ok v ∧ v.depth = 2 ∧
      (source.parse 3).result = (source.parse 2).result ∧
      ∃ front t rest, source.tokens = front ++ t :: rest ∧ t.kind = .lparen ∧
        t.position = ⟨5, 1, 6⟩ ∧ (Token.openParens front).length = 1 ∧
        (source.parse 1).result = .error ⟨.tooDeep 1, ⟨5, 1, 6⟩⟩ := by
  intro source v
  have hv : (source.parse 2).result = .ok v := by cbv
  have hdepth : v.depth = 2 := by decide
  have hrefused : (source.parse 1).result = .error ⟨.tooDeep 1, ⟨5, 1, 6⟩⟩ := by cbv
  obtain ⟨front, t, rest, htokens, ht, hopen, -, hdeep⟩ :=
    (parse_limit_exact source (show 1 ≤ 2 by decide)).2.2 v hv (by decide)
  have hhere : t.position = ⟨5, 1, 6⟩ :=
    congrArg ReadError.position (Except.error.inj (hdeep.symm.trans hrefused))
  refine ⟨hv, hdepth, (parse_limit_exact source (show 2 ≤ 3 by decide)).1 ?_, front, t, rest,
    htokens, ht, hhere, hopen, hrefused⟩
  intro n p hother
  cases hv.symm.trans hother

end Source

end MiniLisp
