import EnvClient.Proofs.Text.Pieces
import EnvClient.Proofs.Url.Percent

/-! Queries of encoded names and values, and how they are taken apart again. -/
namespace EnvClient.Url

open Text (upperDigit splitAt splitAt_of_not_mem)

private theorem formPlain_bounds : ∀ b : UInt8, isFormPlain b = true →
    b.toNat < 0x80 ∧ b ≠ 0x25 ∧ Char.ofNat b.toNat ≠ '+' :=
  forall_byte (by decide +kernel)

private theorem upperDigit_ne_plus {d : Nat} (h : d < 16) : upperDigit d ≠ '+' := by
  have hall : ∀ d : Fin 16, upperDigit d.val ≠ '+' := by decide
  exact hall ⟨d, h⟩

def spacedByte (b : UInt8) : List Char := (formByte b).map fun c => if c = '+' then ' ' else c

theorem unescape_spacedByte (b : UInt8) (rest : List Char) :
    unescape (spacedByte b ++ rest) = b :: unescape rest := by
  have hb : b.toNat < 256 := b.toNat_lt_size
  unfold spacedByte formByte
  split
  · rename_i hspace
    subst hspace
    exact unescape_plain (b := 0x20) (by decide) (by decide) rest
  split
  · rename_i hplain
    obtain ⟨hascii, hne, hplus⟩ := formPlain_bounds b hplain
    rw [List.map_singleton, if_neg hplus]
    exact unescape_plain hascii hne rest
  · have hmap : (escapeByte b).map (fun c => if c = '+' then ' ' else c) = escapeByte b := by
      rw [escapeByte_eq, List.map_cons, List.map_cons, List.map_cons, List.map_nil,
        if_neg (by decide), if_neg (upperDigit_ne_plus (by omega)),
        if_neg (upperDigit_ne_plus (by omega))]
    rw [hmap]
    exact unescape_escapeByte b rest

theorem formDecode?_formEncode (s : String) : formDecode? (formEncode s) = some s := by
  rw [formDecode?, formEncode, List.map_flatMap]
  change Text.Utf8.text? (unescape ((Text.Utf8.encode s).flatMap spacedByte)) = some s
  rw [unescape_flatMap unescape_spacedByte, Text.Utf8.text?_encode]

/-- The names and values of a query. A piece without a sign of equality is a name. -/
def queryPairs? (query : List Char) : Option (List (String × String)) :=
  ((splitAt '&' query).filter (!·.isEmpty)).mapM fun piece => do
    let name ← formDecode? (piece.takeWhile (· != '='))
    let value ← formDecode? ((piece.dropWhile (· != '=')).drop 1)
    return (name, value)

theorem not_mem_formEncode {c : Char} (h : ∀ b : UInt8, c ∉ formByte b) (s : String) :
    c ∉ formEncode s := by
  intro hmem
  obtain ⟨b, _, hb⟩ := List.mem_flatMap.mp hmem
  exact h b hb

theorem queryPairs?_formPair (name value : String) :
    queryPairs? (formPair name value) = some [(name, value)] := by
  have hamp : ∀ b : UInt8, '&' ∉ formByte b := forall_byte (by decide +kernel)
  have heq : ∀ b : UInt8, '=' ∉ formByte b := forall_byte (by decide +kernel)
  have hpiece : '&' ∉ formPair name value := by
    simp [formPair, not_mem_formEncode hamp]
  have hname : ∀ c ∈ formEncode name, (c != '=') = true := by
    intro c hmem
    exact bne_iff_ne.mpr (ne_of_mem_of_not_mem hmem (not_mem_formEncode heq name))
  have htake : (formPair name value).takeWhile (· != '=') = formEncode name := by
    rw [formPair, List.takeWhile_append_of_pos hname]
    simp
  have hdrop : (formPair name value).dropWhile (· != '=') = '=' :: formEncode value := by
    rw [formPair, List.dropWhile_append_of_pos hname]
    simp
  have hempty : (formPair name value).isEmpty = false := by simp [formPair]
  rw [queryPairs?, splitAt_of_not_mem hpiece, List.filter_cons_of_pos (by simp [hempty])]
  simp [htake, hdrop, formDecode?_formEncode]

end EnvClient.Url
