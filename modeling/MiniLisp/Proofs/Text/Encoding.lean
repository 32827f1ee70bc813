import MiniLisp.Proofs.Text.Utf8

/-!
# Valid UTF-8

`Encodes t bytes` says that the bytes are the UTF-8 encoding of the text `t`. Only texts without
surrogates have one. **Decoding gives back exactly the texts that were encoded**
(`Encodes.decodes`, `decoded_decodeFrom`), and where the bytes are no encoding, it stops after the
longest part of them that is one (`Encodes.length_le_of_prefix`).

* `Completes p more n`: the bytes `more` end the code point that has begun as `p`, and `n` is its
  number. `encodePoint_of_completes` and `completes_of_scalar`: the sequences that begin and are
  completed are the encodings of code points other than surrogates.
* `Decoded bytes out`: what decoding makes of bytes, fault or not, said without its state.
-/

namespace MiniLisp

theorem CodePoint.isSurrogate_eq_false {c : CodePoint} :
    c.isSurrogate = false ↔ c.val < 0xD800 ∨ 0xDFFF < c.val := by
  simp only [CodePoint.isSurrogate, Bool.and_eq_false_iff, decide_eq_false_iff_not, Nat.not_le]

namespace Utf8

/-- The bytes are the UTF-8 encoding of the text, which has no surrogates then. -/
structure Encodes (t : Text) (bytes : List UInt8) : Prop where
  scalar : ∀ c ∈ t, c.isSurrogate = false
  encode_eq : encode t = bytes

/-- The bytes complete the code point that has begun, and `n` is its number. -/
inductive Completes : Begun → List UInt8 → Nat → Prop
  | last {p q : Begun} {byte : UInt8} : p.next? byte.toNat = some q → q.owed = 0 →
      Completes p [byte] q.bits
  | middle {p q : Begun} {byte : UInt8} {more : List UInt8} {n : Nat} :
      p.next? byte.toNat = some q → q.owed ≠ 0 → Completes q more n → Completes p (byte :: more) n

/-! ## Bytes of one code point -/

theorem toNat_ofNat_byte {n : Nat} (h : n < 0x100) : (UInt8.ofNat n).toNat = n :=
  UInt8.toNat_ofNat_of_lt' h

theorem toNat_continuation (n : Nat) : (continuation n).toNat = 0x80 + n % 0x40 :=
  toNat_ofNat_byte (by omega)

theorem ofNat_eq_byte {n : Nat} {b : UInt8} (h : n = b.toNat) : UInt8.ofNat n = b := by
  rw [h, UInt8.ofNat_toNat]

namespace Begun

theorem next?_eq_some {p q : Begun} {b : Nat} :
    p.next? b = some q ↔ (p.low ≤ b ∧ b ≤ p.high) ∧
      q = ⟨p.lead, p.read + 1, 0x40 * p.bits + (b - 0x80), p.owed - 1, 0x80, 0xBF⟩ := by
  unfold next?
  split
  · rename_i h
    simp [h, eq_comm]
  · rename_i h
    simp [h]

theorem begin?_range {b : Nat} {p : Begun} (h : begin? b = some p) : 0xC2 ≤ b ∧ b ≤ 0xF4 := by
  by_cases hb : 0xC2 ≤ b ∧ b ≤ 0xF4
  · exact hb
  · unfold begin? at h
    repeat rw [if_neg (by omega)] at h
    cases h

theorem begin?_two {b : Nat} (hb : 0xC2 ≤ b ∧ b ≤ 0xDF) :
    begin? b = some ⟨b, 1, b - 0xC0, 1, 0x80, 0xBF⟩ := by
  unfold begin?
  rw [if_pos hb]

/-- The second of three bytes is bounded so that no shorter encoding and no surrogate fits. -/
theorem begin?_three {b : Nat} (hb : 0xE0 ≤ b ∧ b ≤ 0xEF) :
    ∃ low high, begin? b = some ⟨b, 1, b - 0xE0, 2, low, high⟩ ∧
      ∀ b', (low ≤ b' ∧ b' ≤ high) ↔ (0x80 ≤ b' ∧ b' ≤ 0xBF) ∧
        (b = 0xE0 → 0xA0 ≤ b') ∧ (b = 0xED → b' ≤ 0x9F) := by
  unfold begin?
  rw [if_neg (by omega)]
  by_cases h0 : b = 0xE0
  · subst h0
    exact ⟨_, _, rfl, by omega⟩
  by_cases h1 : b = 0xED
  · subst h1
    exact ⟨_, _, rfl, by omega⟩
  rw [if_neg h0, if_neg h1, if_pos (by omega)]
  exact ⟨_, _, rfl, by omega⟩

/-- The second of four bytes is bounded so that no shorter encoding and no number beyond the last
code point fits. -/
theorem begin?_four {b : Nat} (hb : 0xF0 ≤ b ∧ b ≤ 0xF4) :
    ∃ low high, begin? b = some ⟨b, 1, b - 0xF0, 3, low, high⟩ ∧
      ∀ b', (low ≤ b' ∧ b' ≤ high) ↔ (0x80 ≤ b' ∧ b' ≤ 0xBF) ∧
        (b = 0xF0 → 0x90 ≤ b') ∧ (b = 0xF4 → b' ≤ 0x8F) := by
  unfold begin?
  rw [if_neg (by omega), if_neg (by omega), if_neg (by omega), if_neg (by omega)]
  by_cases h0 : b = 0xF0
  · subst h0
    exact ⟨_, _, rfl, by omega⟩
  by_cases h1 : b = 0xF4
  · subst h1
    exact ⟨_, _, rfl, by omega⟩
  rw [if_neg h0, if_pos (by omega)]
  exact ⟨_, _, rfl, by omega⟩

end Begun

theorem completes_one {p : Begun} (h : p.owed = 1) {more : List UInt8} {n : Nat} :
    Completes p more n ↔ ∃ b : UInt8, more = [b] ∧ (p.low ≤ b.toNat ∧ b.toNat ≤ p.high) ∧
      n = 0x40 * p.bits + (b.toNat - 0x80) := by
  constructor
  · intro hc
    cases hc with
    | last hq _ =>
      obtain ⟨hb, rfl⟩ := Begun.next?_eq_some.1 hq
      exact ⟨_, rfl, hb, rfl⟩
    | middle hq howed _ =>
      obtain ⟨-, rfl⟩ := Begun.next?_eq_some.1 hq
      simp [h] at howed
  · rintro ⟨b, rfl, hb, hn⟩
    have hlast := Completes.last (Begun.next?_eq_some.2 ⟨hb, rfl⟩) (by simp [h])
    exact hn ▸ hlast

theorem completes_more {p : Begun} {k : Nat} (h : p.owed = k + 2) {more : List UInt8} {n : Nat} :
    Completes p more n ↔ ∃ (b : UInt8) (rest : List UInt8), more = b :: rest ∧
      (p.low ≤ b.toNat ∧ b.toNat ≤ p.high) ∧
      Completes ⟨p.lead, p.read + 1, 0x40 * p.bits + (b.toNat - 0x80), k + 1, 0x80, 0xBF⟩ rest
        n := by
  have howed : p.owed - 1 = k + 1 := by omega
  constructor
  · intro hc
    cases hc with
    | last hq hlast =>
      obtain ⟨-, rfl⟩ := Begun.next?_eq_some.1 hq
      simp [h] at hlast
    | middle hq _ hrest =>
      obtain ⟨hb, rfl⟩ := Begun.next?_eq_some.1 hq
      rw [howed] at hrest
      exact ⟨_, _, rfl, hb, hrest⟩
  · rintro ⟨b, rest, rfl, hb, hrest⟩
    refine .middle (Begun.next?_eq_some.2 ⟨hb, rfl⟩) (by simp [h]) ?_
    rwa [howed]

/-- **A sequence that begins and is completed is the encoding of a code point.** -/
theorem encodePoint_of_completes {byte : UInt8} {p : Begun} {more : List UInt8} {n : Nat}
    (hp : Begun.begin? byte.toNat = some p) (h : Completes p more n) :
    ∃ c : CodePoint, c.val = n ∧ c.isSurrogate = false ∧ encodePoint c = byte :: more := by
  have hrange := Begun.begin?_range hp
  -- the first byte says how many there are
  have hlength : byte.toNat ≤ 0xDF ∨ 0xE0 ≤ byte.toNat ∧ byte.toNat ≤ 0xEF ∨ 0xF0 ≤ byte.toNat := by
    omega
  rcases hlength with htwo | hthree | hfour
  · rw [Begun.begin?_two ⟨hrange.1, htwo⟩] at hp
    cases hp
    obtain ⟨b, rfl, hb, hn⟩ := (completes_one rfl).1 h
    dsimp only at hb hn
    refine ⟨⟨n, by omega⟩, rfl, CodePoint.isSurrogate_eq_false.2 (.inl ?_), ?_⟩
    · dsimp only
      omega
    · unfold encodePoint continuation
      dsimp only
      rw [if_neg (by omega), if_pos (by omega), ofNat_eq_byte (b := byte) (by omega),
        ofNat_eq_byte (b := b) (by omega)]
  · obtain ⟨low, high, hbegin, hbounds⟩ := Begun.begin?_three hthree
    rw [hbegin] at hp
    cases hp
    obtain ⟨b, _, rfl, hb, hrest⟩ := (completes_more rfl).1 h
    obtain ⟨b', rfl, hb', hn⟩ := (completes_one rfl).1 hrest
    -- the bounds on the second byte leave out the surrogates
    have hb := (hbounds _).1 hb
    dsimp only at hb' hn
    refine ⟨⟨n, by omega⟩, rfl, CodePoint.isSurrogate_eq_false.2 ?_, ?_⟩
    · dsimp only
      omega
    · unfold encodePoint continuation
      dsimp only
      rw [if_neg (by omega), if_neg (by omega), if_pos (by omega),
        ofNat_eq_byte (b := byte) (by omega), ofNat_eq_byte (b := b) (by omega),
        ofNat_eq_byte (b := b') (by omega)]
  · obtain ⟨low, high, hbegin, hbounds⟩ := Begun.begin?_four ⟨hfour, hrange.2⟩
    rw [hbegin] at hp
    cases hp
    obtain ⟨b, _, rfl, hb, hrest⟩ := (completes_more rfl).1 h
    obtain ⟨b', _, rfl, hb', hrest⟩ := (completes_more rfl).1 hrest
    obtain ⟨b'', rfl, hb'', hn⟩ := (completes_one rfl).1 hrest
    -- the bounds on the second byte leave out what is beyond the last code point
    have hb := (hbounds _).1 hb
    dsimp only at hb' hb'' hn
    refine ⟨⟨n, by omega⟩, rfl, CodePoint.isSurrogate_eq_false.2 (.inr ?_), ?_⟩
    · dsimp only
      omega
    · unfold encodePoint continuation
      dsimp only
      rw [if_neg (by omega), if_neg (by omega), if_neg (by omega),
        ofNat_eq_byte (b := byte) (by omega), ofNat_eq_byte (b := b) (by omega),
        ofNat_eq_byte (b := b') (by omega), ofNat_eq_byte (b := b'') (by omega)]

/-- **The encoding of a code point other than a surrogate begins and is completed**, unless it is a
single byte. -/
theorem completes_of_scalar {c : CodePoint} (hc : c.isSurrogate = false) (h : 0x80 ≤ c.val) :
    ∃ byte more p, encodePoint c = byte :: more ∧ Begun.begin? byte.toNat = some p ∧
      Completes p more c.val := by
  rw [CodePoint.isSurrogate_eq_false] at hc
  obtain ⟨n, hn⟩ := c
  have hlast := toNat_continuation n
  have hmiddle := toNat_continuation (n / 0x40)
  have hsecond := toNat_continuation (n / 0x1000)
  unfold encodePoint
  dsimp only at hc h ⊢
  rw [if_neg (by omega)]
  split
  · have hlead := toNat_ofNat_byte (n := 0xC0 + n / 0x40) (by omega)
    have hbegin := Begun.begin?_two (b := 0xC0 + n / 0x40) (by omega)
    refine ⟨_, _, _, rfl, hlead ▸ hbegin, ?_⟩
    exact (completes_one rfl).2 ⟨_, rfl, by dsimp only; omega, by dsimp only; omega⟩
  split
  · have hlead := toNat_ofNat_byte (n := 0xE0 + n / 0x1000) (by omega)
    obtain ⟨low, high, hbegin, hbounds⟩ := Begun.begin?_three (b := 0xE0 + n / 0x1000) (by omega)
    refine ⟨_, _, _, rfl, hlead ▸ hbegin, ?_⟩
    refine (completes_more rfl).2 ⟨_, _, rfl, (hbounds _).2 (by omega), ?_⟩
    exact (completes_one rfl).2 ⟨_, rfl, by dsimp only; omega, by dsimp only; omega⟩
  · have hlead := toNat_ofNat_byte (n := 0xF0 + n / 0x40000) (by omega)
    obtain ⟨low, high, hbegin, hbounds⟩ := Begun.begin?_four (b := 0xF0 + n / 0x40000) (by omega)
    refine ⟨_, _, _, rfl, hlead ▸ hbegin, ?_⟩
    refine (completes_more rfl).2 ⟨_, _, rfl, (hbounds _).2 (by omega), ?_⟩
    refine (completes_more rfl).2 ⟨_, _, rfl, by dsimp only; omega, ?_⟩
    exact (completes_one rfl).2 ⟨_, rfl, by dsimp only; omega, by dsimp only; omega⟩

/-! ## Whole texts -/

theorem encode_cons (c : CodePoint) (t : Text) : encode (c :: t) = encodePoint c ++ encode t :=
  List.flatMap_cons

theorem encode_append (t u : Text) : encode (t ++ u) = encode t ++ encode u :=
  List.flatMap_append

theorem Completes.decodes {p : Begun} {more bytes : List UInt8} {n : Nat} {t : Text}
    (h : Completes p more n) (hrest : Decodes none bytes t) :
    Decodes (some p) (more ++ bytes) ((CodePoint.ofNat? n).toList ++ t) := by
  induction h with
  | last hq howed => exact .last hq howed hrest
  | middle hq howed _ ih => exact .middle hq howed ih

theorem encodePoint_ascii {c : CodePoint} (h : c.val < 0x80) :
    encodePoint c = [UInt8.ofNat c.val] := by
  unfold encodePoint
  dsimp only
  rw [if_pos h]

theorem decodes_cons {c : CodePoint} {bytes : List UInt8} {t : Text} (hc : c.isSurrogate = false)
    (h : Decodes none bytes t) : Decodes none (encodePoint c ++ bytes) (c :: t) := by
  by_cases hsmall : c.val < 0x80
  · have hbyte := toNat_ofNat_byte (n := c.val) (by omega)
    have hascii : (UInt8.ofNat c.val).toNat < 0x80 := by omega
    have hdecodes := Decodes.ascii hascii h
    simp only [hbyte] at hdecodes
    rw [encodePoint_ascii hsmall]
    exact hdecodes
  · obtain ⟨byte, more, p, hcode, hbegin, hmore⟩ := completes_of_scalar hc (Nat.not_lt.1 hsmall)
    have hpoint : CodePoint.ofNat? c.val = some c := dif_pos c.lt
    have hdecodes := hmore.decodes h
    rw [hpoint] at hdecodes
    have hrange := Begun.begin?_range hbegin
    rw [hcode]
    exact .first (by omega) hbegin hdecodes

theorem Encodes.nil : Encodes [] [] := ⟨fun _ hc => absurd hc List.not_mem_nil, rfl⟩

/-- **What was encoded decodes to what it was.** -/
theorem Encodes.decodes {t : Text} {bytes : List UInt8} (h : Encodes t bytes) :
    Decodes none bytes t := by
  obtain ⟨hscalar, rfl⟩ := h
  induction t with
  | nil => exact .nil
  | cons c t ih =>
    obtain ⟨hc, ht⟩ := List.forall_mem_cons.1 hscalar
    rw [encode_cons]
    exact decodes_cons hc (ih ht)

/-- Behind bytes without a fault, decoding goes on as if it started there. -/
theorem Decodes.decodeFrom_append {begun : Option Begun} {bytes : List UInt8} {t : Text}
    (h : Decodes begun bytes t) (rest : List UInt8) (offset : Nat) :
    ∃ k, Utf8.decodeFrom offset begun (bytes ++ rest) =
      (t ++ (Utf8.decodeFrom k none rest).1, (Utf8.decodeFrom k none rest).2) := by
  induction h generalizing offset with
  | nil => exact ⟨offset, rfl⟩
  | ascii hb _ ih =>
    obtain ⟨k, hk⟩ := ih (offset + 1)
    exact ⟨k, by simp only [List.cons_append, Utf8.decodeFrom, dif_pos hb, hk]⟩
  | first hb hp _ ih =>
    obtain ⟨k, hk⟩ := ih offset
    exact ⟨k, by simp only [List.cons_append, Utf8.decodeFrom, dif_neg hb, hp, hk]⟩
  | middle hq howed _ ih =>
    obtain ⟨k, hk⟩ := ih offset
    exact ⟨k, by simp only [List.cons_append, Utf8.decodeFrom, hq, if_neg howed, hk]⟩
  | @last byte bytes t p q hq howed _ ih =>
    obtain ⟨k, hk⟩ := ih (offset + q.read)
    exact ⟨k, by simp only [List.cons_append, Utf8.decodeFrom, hq, if_pos howed, hk,
      List.append_assoc]⟩

/-- A text and a fault are what bytes decode to: the bytes start with the encoding of the text, and
the byte after it is the one that the fault names. Without a fault there is none. -/
def Decoded (bytes : List UInt8) (out : Text × Option Fault) : Prop :=
  ∃ start rest, bytes = start ++ rest ∧ Encodes out.1 start ∧
    match out.2 with
    | none => rest = []
    | some fault => ∃ byte rest', rest = byte :: rest' ∧ fault.byte = byte.toNat

theorem Decoded.cons {c : CodePoint} {bytes : List UInt8} {t : Text} {fault : Option Fault}
    (hc : c.isSurrogate = false) (h : Decoded bytes (t, fault)) :
    Decoded (encodePoint c ++ bytes) (c :: t, fault) := by
  obtain ⟨start, rest, rfl, ⟨hscalar, rfl⟩, hfault⟩ := h
  refine ⟨encode (c :: t), rest, ?_, ⟨List.forall_mem_cons.2 ⟨hc, hscalar⟩, rfl⟩, hfault⟩
  rw [encode_cons, List.append_assoc]

/-- The same for bytes that follow the beginning of a code point: either they do not complete it,
and the fault names its first byte, or they do and are decoded behind it. -/
def DecodedAfter (p : Begun) (bytes : List UInt8) (out : Text × Option Fault) : Prop :=
  (out.1 = [] ∧ ∃ fault, out.2 = some fault ∧ fault.byte = p.lead) ∨
    ∃ more rest n t, bytes = more ++ rest ∧ Completes p more n ∧
      out.1 = (CodePoint.ofNat? n).toList ++ t ∧ Decoded rest (t, out.2)

theorem DecodedAfter.next {p q : Begun} {byte : UInt8} {bytes : List UInt8}
    {out : Text × Option Fault} (hq : p.next? byte.toNat = some q) (howed : q.owed ≠ 0)
    (h : DecodedAfter q bytes out) : DecodedAfter p (byte :: bytes) out := by
  rcases h with ⟨hnil, fault, hfault, hlead⟩ | ⟨more, rest, n, t, rfl, hmore, htext, hrest⟩
  · obtain ⟨-, rfl⟩ := Begun.next?_eq_some.1 hq
    exact .inl ⟨hnil, fault, hfault, hlead⟩
  · exact .inr ⟨byte :: more, rest, n, t, rfl, .middle hq howed hmore, htext, hrest⟩

theorem Begun.lead_begin? {b : Nat} {p : Begun} (h : begin? b = some p) : p.lead = b := by
  unfold begin? at h
  repeat' split at h
  all_goals cases h
  all_goals rfl

/-- A code point that begins is decoded with all its bytes, or not at all. -/
theorem DecodedAfter.decoded {byte : UInt8} {p : Begun} {bytes : List UInt8}
    {out : Text × Option Fault} (hp : Begun.begin? byte.toNat = some p)
    (h : DecodedAfter p bytes out) : Decoded (byte :: bytes) out := by
  rcases h with ⟨hnil, fault, hfault, hlead⟩ | ⟨more, rest, n, t, rfl, hmore, htext, hrest⟩
  · refine ⟨[], byte :: bytes, rfl, ?_, ?_⟩
    · rw [hnil]
      exact .nil
    · rw [hfault]
      exact ⟨byte, bytes, rfl, hlead.trans (Begun.lead_begin? hp)⟩
  · obtain ⟨c, rfl, hc, hcode⟩ := encodePoint_of_completes hp hmore
    have hpoint : CodePoint.ofNat? c.val = some c := dif_pos c.lt
    have hdecoded := hrest.cons hc
    rw [hcode] at hdecoded
    rw [hpoint] at htext
    rw [show out = (c :: t, out.2) from Prod.ext htext rfl]
    exact hdecoded

/-- **What decoding gives is the text of a part at the front, and the first byte after it that
could not be decoded, if there is one.** -/
theorem decoded_decodeFrom (offset : Nat) (bytes : List UInt8) :
    Decoded bytes (decodeFrom offset none bytes) ∧
      ∀ p, DecodedAfter p bytes (decodeFrom offset (some p) bytes) := by
  -- each half needs the other: a first byte leads into the second, a last byte back into the first
  induction bytes generalizing offset with
  | nil =>
    refine ⟨⟨[], [], rfl, .nil, rfl⟩, fun p => ?_⟩
    exact .inl ⟨rfl, _, rfl, rfl⟩
  | cons byte bytes ih =>
    constructor
    · unfold decodeFrom
      dsimp only
      split
      · rename_i hb
        have hdecoded := (ih (offset + 1)).1.cons (c := ⟨byte.toNat, Nat.lt_trans hb (by decide)⟩)
          (CodePoint.isSurrogate_eq_false.2 (.inl (Nat.lt_trans hb (by decide))))
        rw [encodePoint_ascii hb, UInt8.ofNat_toNat] at hdecoded
        exact hdecoded
      · split
        · rename_i p hp
          exact ((ih offset).2 p).decoded hp
        · exact ⟨[], byte :: bytes, rfl, .nil, byte, bytes, rfl, rfl⟩
    · intro p
      unfold decodeFrom
      dsimp only
      split
      · exact .inl ⟨rfl, _, rfl, rfl⟩
      · rename_i q hq
        split
        · rename_i howed
          exact .inr ⟨[byte], bytes, _, _, rfl, .last hq howed, rfl, (ih _).1⟩
        · rename_i howed
          exact ((ih offset).2 q).next hq howed

theorem Encodes.decode_eq {t : Text} {bytes : List UInt8} (h : Encodes t bytes) :
    decode bytes = (t, none) :=
  (decodeFrom_iff 0).2 h.decodes

/-- **No longer part at the front is the encoding of a text.** -/
theorem Encodes.length_le_of_prefix {t : Text} {start bytes part : List UInt8} {u : Text}
    (hdecode : (decode bytes).1 = t) (h : Encodes t start) (hpart : part <+: bytes)
    (hu : Encodes u part) : part.length ≤ start.length := by
  obtain ⟨rest, rfl⟩ := hpart
  obtain ⟨k, hk⟩ := hu.decodes.decodeFrom_append rest 0
  rw [decode, hk] at hdecode
  rw [← h.encode_eq, ← hu.encode_eq, ← hdecode, encode_append, List.length_append]
  exact Nat.le_add_right _ _

end Utf8

end MiniLisp
