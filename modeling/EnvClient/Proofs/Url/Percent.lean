import EnvClient.Proofs.Text.Hex
import EnvClient.Proofs.Text.Utf8
import EnvClient.Url.Form

/-! Escaped texts decode to what was escaped, as segments of a path and as parts of a query. -/
namespace EnvClient.Url

open Text (upperDigit hexValue?_upperDigit)

theorem escapeByte_eq (b : UInt8) :
    escapeByte b = ['%', upperDigit (b.toNat / 16), upperDigit (b.toNat % 16)] := by
  have hb : b.toNat < 16 ^ 2 := b.toNat_lt_size
  rw [escapeByte, Text.upperHex_eq_places (by decide) hb]
  simp only [Text.places, List.nil_append, List.map_append, List.map_cons, List.map_nil]
  rw [Nat.mod_eq_of_lt (by omega)]
  rfl

theorem unescape_escapeByte (b : UInt8) (rest : List Char) :
    unescape (escapeByte b ++ rest) = b :: unescape rest := by
  have hb : b.toNat < 256 := b.toNat_lt_size
  rw [escapeByte_eq, List.cons_append, List.cons_append, List.cons_append, List.nil_append,
    unescape, hexValue?_upperDigit (by omega), hexValue?_upperDigit (by omega)]
  dsimp only
  rw [Nat.div_add_mod, UInt8.ofNat_toNat]

theorem unescape_cons {c : Char} (h : c ≠ '%') (rest : List Char) :
    unescape (c :: rest) = Text.Utf8.encode (String.singleton c) ++ unescape rest := by
  rw [unescape]
  intro a b rest' hc
  exact absurd hc h

theorem forall_byte {P : UInt8 → Prop} (h : ∀ n : Fin 256, P (UInt8.ofNat n)) (b : UInt8) :
    P b := by
  have := h ⟨b.toNat, b.toNat_lt_size⟩
  rwa [UInt8.ofNat_toNat] at this

theorem toNat_ofNat_byte {b : UInt8} (hascii : b.toNat < 0x80) :
    (Char.ofNat b.toNat).toNat = b.toNat := by
  rw [Char.ofNat, dif_pos (Or.inl (by omega))]
  rfl

theorem ofNat_ne_percent {b : UInt8} (hascii : b.toNat < 0x80) (hne : b ≠ 0x25) :
    Char.ofNat b.toNat ≠ '%' := by
  intro heq
  have hchar := toNat_ofNat_byte hascii
  rw [heq] at hchar
  exact hne (UInt8.toNat_inj.mp hchar.symm)

theorem unescape_plain {b : UInt8} (hascii : b.toNat < 0x80) (hne : b ≠ 0x25) (rest : List Char) :
    unescape (Char.ofNat b.toNat :: rest) = b :: unescape rest := by
  have hchar := toNat_ofNat_byte hascii
  rw [unescape_cons (ofNat_ne_percent hascii hne), Text.Utf8.encode_singleton,
    Text.Utf8.utf8EncodeChar_ascii (by omega), hchar, UInt8.ofNat_toNat, List.singleton_append]

theorem unescape_flatMap {write : UInt8 → List Char}
    (h : ∀ b rest, unescape (write b ++ rest) = b :: unescape rest) (bytes : List UInt8) :
    unescape (bytes.flatMap write) = bytes := by
  induction bytes with
  | nil => rfl
  | cons b rest ih => rw [List.flatMap_cons, h, ih]

theorem plainByte_bounds :
    ∀ b : UInt8, isSegmentSpecial b = false → b.toNat < 0x80 ∧ b ≠ 0x25 :=
  forall_byte (by decide +kernel)

theorem decodeSegment?_encodeSegment (s : String) : decodeSegment? (encodeSegment s) = some s := by
  rw [decodeSegment?, encodeSegment, escape, unescape_flatMap, Text.Utf8.text?_encode]
  intro b rest
  split
  · exact unescape_escapeByte b rest
  · rename_i hb
    obtain ⟨hascii, hne⟩ := plainByte_bounds b (Bool.eq_false_iff.mpr hb)
    exact unescape_plain hascii hne rest

end EnvClient.Url
