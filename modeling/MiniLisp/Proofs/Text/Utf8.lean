import MiniLisp.Text.Utf8

/-!
# Bytes that can be decoded

`Decodes begun bytes t` says that the bytes decode to the text `t` without a fault, where `begun` is
the code point that has begun before them, if there is one. It has one rule for each kind of byte,
and places do not come into it: **bytes without a fault decode alike wherever they stand**
(`decodeFrom_iff`). So two such sequences decode one after the other (`Decodes.append`).
-/

namespace MiniLisp.Utf8

/-- The bytes decode to the text, and no code point is left half read. -/
inductive Decodes : Option Begun → List UInt8 → Text → Prop
  | nil : Decodes none [] []
  | ascii {byte : UInt8} {bytes : List UInt8} {t : Text} (hb : byte.toNat < 0x80) :
      Decodes none bytes t → Decodes none (byte :: bytes) (⟨byte.toNat, Nat.lt_trans hb (by decide)⟩ :: t)
  | first {byte : UInt8} {bytes : List UInt8} {t : Text} {p : Begun} (hb : ¬ byte.toNat < 0x80) :
      Begun.begin? byte.toNat = some p → Decodes (some p) bytes t → Decodes none (byte :: bytes) t
  | middle {byte : UInt8} {bytes : List UInt8} {t : Text} {p q : Begun} :
      p.next? byte.toNat = some q → q.owed ≠ 0 → Decodes (some q) bytes t →
      Decodes (some p) (byte :: bytes) t
  | last {byte : UInt8} {bytes : List UInt8} {t : Text} {p q : Begun} :
      p.next? byte.toNat = some q → q.owed = 0 → Decodes none bytes t →
      Decodes (some p) (byte :: bytes) ((CodePoint.ofNat? q.bits).toList ++ t)

theorem Decodes.append {begun : Option Begun} {bytes bytes' : List UInt8} {t u : Text}
    (h : Decodes begun bytes t) (h' : Decodes none bytes' u) :
    Decodes begun (bytes ++ bytes') (t ++ u) := by
  induction h with
  | nil => exact h'
  | ascii hb _ ih => exact .ascii hb ih
  | first hb hp _ ih => exact .first hb hp ih
  | middle hq howed _ ih => exact .middle hq howed ih
  | last hq howed _ ih =>
    rw [List.append_assoc]
    exact .last hq howed ih

theorem Decodes.decodeFrom {begun : Option Begun} {bytes : List UInt8} {t : Text}
    (h : Decodes begun bytes t) (offset : Nat) :
    decodeFrom offset begun bytes = (t, none) := by
  induction h generalizing offset with
  | nil => rfl
  | ascii hb _ ih => simp only [Utf8.decodeFrom, dif_pos hb, ih]
  | first hb hp _ ih => simp only [Utf8.decodeFrom, dif_neg hb, hp, ih]
  | middle hq howed _ ih => simp only [Utf8.decodeFrom, hq, if_neg howed, ih]
  | last hq howed _ ih => simp only [Utf8.decodeFrom, hq, if_pos howed, ih]

theorem decodes_of_decodeFrom {offset : Nat} {begun : Option Begun} {bytes : List UInt8} {t : Text}
    (h : decodeFrom offset begun bytes = (t, none)) : Decodes begun bytes t := by
  induction bytes generalizing offset begun t with
  | nil =>
    cases begun with
    | none => cases h; exact .nil
    | some p => cases h
  | cons byte bytes ih =>
    unfold decodeFrom at h
    cases begun with
    | none =>
      dsimp only at h
      split at h
      · rename_i hb
        obtain ⟨rfl, hfault⟩ := Prod.mk.inj h
        exact .ascii hb (ih (Prod.ext rfl hfault))
      · rename_i hb
        split at h
        · rename_i p hp
          exact .first hb hp (ih h)
        · cases h
    | some p =>
      dsimp only at h
      split at h
      · cases h
      · rename_i q hq
        split at h
        · rename_i howed
          obtain ⟨rfl, hfault⟩ := Prod.mk.inj h
          exact .last hq howed (ih (Prod.ext rfl hfault))
        · rename_i howed
          exact .middle hq howed (ih h)

/-- **Decoding ends without a fault exactly where the rules apply**, from whatever place. -/
theorem decodeFrom_iff {begun : Option Begun} {bytes : List UInt8} {t : Text} (offset : Nat) :
    decodeFrom offset begun bytes = (t, none) ↔ Decodes begun bytes t :=
  ⟨decodes_of_decodeFrom, fun h => h.decodeFrom offset⟩

/-- Two decodable parts on lines of their own decode to two texts on lines of their own. -/
theorem decode_line {bytes bytes' : List UInt8} {t u : Text} (h : decode bytes = (t, none))
    (h' : decode bytes' = (u, none)) :
    decode (bytes ++ 0x0A :: bytes') = (t ++ CodePoint.ofChar '\n' :: u, none) := by
  have hfirst : Decodes none bytes t := (decodeFrom_iff 0).1 h
  have hsecond : Decodes none bytes' u := (decodeFrom_iff 0).1 h'
  have hline : Decodes none (0x0A :: bytes') (CodePoint.ofChar '\n' :: u) :=
    .ascii (by decide) hsecond
  exact (decodeFrom_iff 0).2 (hfirst.append hline)

end MiniLisp.Utf8
