import MiniLisp.Proofs.Text.Encoding
import MiniLisp.Proofs.Text.Locator
import MiniLisp.Proofs.Text.Quoted
import MiniLisp.Token.Lexer

/-!
# Bytes and text are read alike

A document may come as bytes. If they are the UTF-8 encoding of a text, **they have the tokens of
that text, and its failure if it has one**. If they are no encoding, they have no tokens, and the
failure is at the end of the longest part at their front that is one (`Source.lex_bytes`).
-/

namespace MiniLisp

/-- The message about a byte names it by two hexadecimal digits. -/
theorem ReadFault.message_invalidByte (byte : UInt8) :
    ∃ digits, (ReadFault.invalidByte byte.toNat).message = "Invalid UTF-8 byte 0x" ++ digits ∧
      digits.length = 2 ∧ Text.hexNumber? digits = some byte.toNat :=
  ⟨Text.hexPadded 2 byte.toNat, rfl, length_hexPadded_two byte.toNat_lt,
    Text.hexNumber?_hexPadded 2 byte.toNat⟩

namespace Source

/-- Bytes with a fault have no tokens, and fail at the end of what could be decoded. -/
theorem lex_bytes_of_fault {b : List UInt8} {t : Text} {fault : Utf8.Fault}
    (h : Utf8.decode b = (t, some fault)) :
    (Source.bytes b).lex = ⟨[], some ⟨.invalidByte fault.byte, .of t⟩⟩ := by
  have hplace : (Locator.ofText t).locate t.length = .of t := by
    rw [Locator.locate_eq_of (Nat.le_refl _), List.take_length]
  simp only [Source.lex, h, hplace]

/-- **Bytes and text are read alike.** The bytes of a text have its tokens and its failure, with
their positions. Bytes that encode no text have no tokens: they fail at the end of the longest part
at their front that does, and the message names the byte after it. -/
theorem lex_bytes (b : List UInt8) :
    (∀ t, Utf8.Encodes t b → (Source.bytes b).lex = (Source.text t).lex) ∧
    ((∀ t, ¬ Utf8.Encodes t b) →
      ∃ (valid : List UInt8) (byte : UInt8) (rest : List UInt8) (t : Text) (e : ReadError),
        b = valid ++ byte :: rest ∧ Utf8.Encodes t valid ∧
        (∀ part u, part <+: b → Utf8.Encodes u part → part.length ≤ valid.length) ∧
        (Source.bytes b).lex = ⟨[], some e⟩ ∧ e.fault = .invalidByte byte.toNat ∧
        e.position = .of t ∧ e.position.offset = valid.length ∧
        ∃ digits, e.fault.message = "Invalid UTF-8 byte 0x" ++ digits ∧ digits.length = 2 ∧
          Text.hexNumber? digits = some byte.toNat) := by
  constructor
  · intro t ht
    simp only [Source.lex, ht.decode_eq]
  · intro hinvalid
    have hdecoded : Utf8.Decoded b (Utf8.decode b) := (Utf8.decoded_decodeFrom 0 b).1
    rcases hdecode : Utf8.decode b with ⟨t, _ | fault⟩
    · rw [hdecode] at hdecoded
      obtain ⟨valid, rest, hb, hvalid, hrest⟩ := hdecoded
      rw [show rest = [] from hrest, List.append_nil] at hb
      exact absurd (hb ▸ hvalid) (hinvalid t)
    · rw [hdecode] at hdecoded
      obtain ⟨valid, _, hb, hvalid, byte, rest, rfl, hbyte⟩ := hdecoded
      have hlex := lex_bytes_of_fault hdecode
      rw [hbyte] at hlex
      refine ⟨valid, byte, rest, t, _, hb, hvalid, ?_, hlex, rfl, rfl, ?_,
        ReadFault.message_invalidByte byte⟩
      · intro part u hpart hu
        exact hvalid.length_le_of_prefix (congrArg Prod.fst hdecode) hpart hu
      · rw [← hvalid.encode_eq, Utf8.length_encode]
        rfl

/-- Two bytes that make one code point, and the three bytes of a surrogate on a second line, which
end the part that can be decoded after four bytes. -/
theorem lex_bytes_surrogate :
    let bytes : List UInt8 := [0x61, 0x0A, 0xC3, 0xA9, 0xED, 0xA0, 0x80]
    (Source.bytes [0xC3, 0xA9]).lex = (Source.text "é").lex ∧ (∀ t, ¬ Utf8.Encodes t bytes) ∧
      (Source.bytes bytes).lex = ⟨[], some ⟨.invalidByte 0xED, ⟨4, 2, 2⟩⟩⟩ ∧
      ∃ valid rest t, bytes = valid ++ 0xED :: rest ∧ Utf8.Encodes t valid ∧ valid.length = 4 ∧
        ∀ part u, part <+: bytes → Utf8.Encodes u part → part.length ≤ 4 := by
  intro bytes
  have hvalid : Utf8.Encodes "é" [0xC3, 0xA9] := ⟨by decide, rfl⟩
  have hdecode : Utf8.decode bytes =
      (Text.ofString "a\né", some ⟨4, 0xED, 1, .invalidContinuation⟩) := rfl
  have hinvalid : ∀ t, ¬ Utf8.Encodes t bytes := by
    intro t ht
    cases hdecode.symm.trans ht.decode_eq
  have hresult : (Source.bytes bytes).lex = ⟨[], some ⟨.invalidByte 0xED, ⟨4, 2, 2⟩⟩⟩ :=
    lex_bytes_of_fault hdecode
  refine ⟨(lex_bytes _).1 _ hvalid, hinvalid, hresult, ?_⟩
  obtain ⟨valid, byte, rest, t, e, hb, ht, hlongest, hlex, hfault, -, hoffset, -⟩ :=
    (lex_bytes bytes).2 hinvalid
  obtain rfl : ⟨.invalidByte 0xED, ⟨4, 2, 2⟩⟩ = e :=
    Option.some.inj (congrArg Lexed.failure (hresult.symm.trans hlex))
  obtain rfl : 0xED = byte := UInt8.toNat_inj.1 (ReadFault.invalidByte.inj hfault)
  have hfour : valid.length = 4 := hoffset.symm
  rw [hfour] at hlongest
  exact ⟨valid, rest, t, hb, ht, hfour, hlongest⟩

end Source

end MiniLisp
