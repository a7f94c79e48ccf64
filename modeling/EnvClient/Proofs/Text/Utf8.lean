import EnvClient.Text.Utf8

/-! The bytes of a text read back as that text. -/
namespace EnvClient.Text.Utf8

private theorem toList_loop (bytes : ByteArray) (i : Nat) (read : List UInt8) :
    ByteArray.toList.loop bytes i read = read.reverse ++ bytes.data.toList.drop i := by
  fun_induction ByteArray.toList.loop bytes i read with
  | case1 i read hlt ih =>
    have hget : bytes.get! i = bytes.data[i] := by
      cases bytes
      exact getElem!_pos _ i hlt
    rw [ih, hget, List.drop_eq_getElem_cons (i := i) (by simpa using hlt)]
    simp
  | case2 i read hle =>
    rw [List.drop_eq_nil_of_le (by simpa using Nat.le_of_not_lt hle), List.append_nil]

theorem encode_eq_flatMap (s : String) : encode s = s.toList.flatMap String.utf8EncodeChar := by
  conv => lhs; rw [← String.ofList_toList (s := s)]
  unfold encode String.toUTF8 String.ofList List.utf8Encode ByteArray.toList
  rw [toList_loop]
  simp

theorem encode_singleton (c : Char) : encode (String.singleton c) = String.utf8EncodeChar c := by
  rw [encode_eq_flatMap, String.toList_singleton, List.flatMap_singleton]

theorem utf8EncodeChar_ascii {c : Char} (h : c.toNat < 0x80) :
    String.utf8EncodeChar c = [UInt8.ofNat c.toNat] := by
  have hval : c.val.toNat = c.toNat := rfl
  rw [String.utf8EncodeChar]
  simp only [hval]
  rw [if_pos (by omega)]

theorem le_of_mem_utf8EncodeChar {c : Char} (h : 0x80 ≤ c.toNat) {b : UInt8}
    (hb : b ∈ String.utf8EncodeChar c) : 0x80 ≤ b.toNat := by
  have hvalid : c.toNat < 0xD800 ∨ 0xDFFF < c.toNat ∧ c.toNat < 0x110000 := c.valid
  have hval : c.val.toNat = c.toNat := rfl
  simp only [String.utf8EncodeChar, hval] at hb
  have hofNat (n : Nat) (hn : 0x80 ≤ n) (hlt : n < 0x100) : 0x80 ≤ (UInt8.ofNat n).toNat := by
    rwa [UInt8.toNat_ofNat_of_lt' hlt]
  rw [if_neg (by omega)] at hb
  split at hb
  · simp only [List.mem_cons, List.not_mem_nil, or_false] at hb
    obtain rfl | rfl := hb <;> exact hofNat _ (by omega) (by omega)
  split at hb
  · simp only [List.mem_cons, List.not_mem_nil, or_false] at hb
    obtain rfl | rfl | rfl := hb <;> exact hofNat _ (by omega) (by omega)
  · simp only [List.mem_cons, List.not_mem_nil, or_false] at hb
    obtain rfl | rfl | rfl | rfl := hb <;> exact hofNat _ (by omega) (by omega)

theorem decodeFrom_start {b : UInt8} {c? : Option Char} {st : State} (rest : List UInt8)
    (h : lead b.toNat = some (c?, st)) :
    decodeFrom .start (b :: rest) = (c?.map some).toList ++ decodeFrom st rest := by
  rw [decodeFrom, step, push, h]
  cases c? with
  | none => rfl
  | some c => rfl

theorem decodeFrom_inside {value least most more : Nat} {b : UInt8} (rest : List UInt8)
    (h : least ≤ b.toNat ∧ b.toNat ≤ most) :
    decodeFrom (.inside value least most (more + 1)) (b :: rest) =
      decodeFrom (.inside (value * 64 + (b.toNat - 0x80)) 0x80 0xBF more) rest := by
  rw [decodeFrom, step, if_pos h]
  rfl

theorem decodeFrom_last {value least most : Nat} {b : UInt8} (rest : List UInt8)
    (h : least ≤ b.toNat ∧ b.toNat ≤ most) :
    decodeFrom (.inside value least most 0) (b :: rest) =
      some (Char.ofNat (value * 64 + (b.toNat - 0x80))) :: decodeFrom .start rest := by
  rw [decodeFrom, step, if_pos h]
  rfl

private theorem toNat_ofNat {n : Nat} (h : n < 256) : (UInt8.ofNat n).toNat = n :=
  UInt8.toNat_ofNat_of_lt' h

-- A byte that starts a character of three or four bytes bounds the one after it, so that no
-- shorter character and no surrogate is written in that many.
private theorem lead_two {n : Nat} (h : 0x7F < n) (hle : n ≤ 0x7FF) :
    lead (n / 64 % 32 + 192) = some (none, .inside (n / 64) 0x80 0xBF 0) := by
  rw [lead, if_neg (by omega), if_pos (by omega), show n / 64 % 32 + 192 - 0xC0 = n / 64 by omega]

private theorem lead_three {n : Nat} (h : 0x7FF < n) (hle : n ≤ 0xFFFF)
    (hvalid : n < 0xD800 ∨ 0xDFFF < n) :
    ∃ least most, lead (n / 4096 % 16 + 224) = some (none, .inside (n / 4096) least most 1) ∧
      least ≤ n / 64 % 64 + 128 ∧ n / 64 % 64 + 128 ≤ most := by
  unfold lead
  rw [if_neg (by omega), if_neg (by omega)]
  by_cases hfirst : n / 4096 = 0
  · rw [if_pos (by omega), hfirst]
    exact ⟨_, _, rfl, by omega, by omega⟩
  by_cases hsurrogate : n / 4096 = 0xD
  · rw [if_neg (by omega), if_pos (by omega), hsurrogate]
    exact ⟨_, _, rfl, by omega, by omega⟩
  · rw [if_neg (by omega), if_neg (by omega), if_pos (by omega),
      show n / 4096 % 16 + 224 - 0xE0 = n / 4096 by omega]
    exact ⟨_, _, rfl, by omega, by omega⟩

private theorem lead_four {n : Nat} (h : 0xFFFF < n) (hlt : n < 0x110000) :
    ∃ least most, lead (n / 262144 % 8 + 240) = some (none, .inside (n / 262144) least most 2) ∧
      least ≤ n / 4096 % 64 + 128 ∧ n / 4096 % 64 + 128 ≤ most := by
  unfold lead
  rw [if_neg (by omega), if_neg (by omega), if_neg (by omega), if_neg (by omega),
    if_neg (by omega)]
  by_cases hfirst : n / 262144 = 0
  · rw [if_pos (by omega), hfirst]
    exact ⟨_, _, rfl, by omega, by omega⟩
  by_cases hlast : n / 262144 = 4
  · rw [if_neg (by omega), if_neg (by omega), if_pos (by omega), hlast]
    exact ⟨_, _, rfl, by omega, by omega⟩
  · rw [if_neg (by omega), if_pos (by omega),
      show n / 262144 % 8 + 240 - 0xF0 = n / 262144 by omega]
    exact ⟨_, _, rfl, by omega, by omega⟩

theorem decodeFrom_encodeChar (c : Char) (rest : List UInt8) :
    decodeFrom .start (String.utf8EncodeChar c ++ rest) = some c :: decodeFrom .start rest := by
  have hvalid : c.toNat < 0xD800 ∨ 0xDFFF < c.toNat ∧ c.toNat < 0x110000 := c.valid
  have hc : Char.ofNat c.toNat = c := Char.ofNat_toNat c
  have hval : c.val.toNat = c.toNat := rfl
  unfold String.utf8EncodeChar
  simp only [hval]
  generalize c.toNat = n at hvalid hc
  by_cases hone : n ≤ 127
  · have hlead : lead n = some (some c, .start) := by rw [lead, if_pos (by omega), hc]
    rw [if_pos hone, List.singleton_append,
      decodeFrom_start (b := UInt8.ofNat n) _ (by rw [toNat_ofNat (by omega)]; exact hlead)]
    rfl
  by_cases htwo : n ≤ 2047
  · rw [if_neg hone, if_pos htwo, List.cons_append, List.singleton_append, decodeFrom_start
      (b := UInt8.ofNat _) _ (by rw [toNat_ofNat (by omega)]; exact lead_two (by omega) htwo)]
    simp only [Option.map_none, Option.toList_none, List.nil_append]
    rw [decodeFrom_last _ (by rw [toNat_ofNat (by omega)]; omega), toNat_ofNat (by omega),
      Nat.add_sub_cancel, show n / 64 * 64 + n % 64 = n by omega, hc]
  by_cases hthree : n ≤ 65535
  · obtain ⟨least, most, hlead, hbounds⟩ := lead_three (n := n) (by omega) hthree (by omega)
    rw [if_neg hone, if_neg htwo, if_pos hthree, List.cons_append, List.cons_append,
      List.singleton_append, decodeFrom_start (b := UInt8.ofNat _) _
        (by rw [toNat_ofNat (by omega)]; exact hlead)]
    simp only [Option.map_none, Option.toList_none, List.nil_append]
    rw [decodeFrom_inside _ (by rwa [toNat_ofNat (by omega)]), toNat_ofNat (by omega),
      decodeFrom_last _ (by rw [toNat_ofNat (by omega)]; omega), toNat_ofNat (by omega),
      Nat.add_sub_cancel, Nat.add_sub_cancel,
      show (n / 4096 * 64 + n / 64 % 64) * 64 + n % 64 = n by omega, hc]
  · obtain ⟨least, most, hlead, hbounds⟩ := lead_four (n := n) (by omega) (by omega)
    rw [if_neg hone, if_neg htwo, if_neg hthree, List.cons_append, List.cons_append,
      List.cons_append, List.singleton_append, decodeFrom_start (b := UInt8.ofNat _) _
        (by rw [toNat_ofNat (by omega)]; exact hlead)]
    simp only [Option.map_none, Option.toList_none, List.nil_append]
    rw [decodeFrom_inside _ (by rwa [toNat_ofNat (by omega)]), toNat_ofNat (by omega),
      decodeFrom_inside _ (by rw [toNat_ofNat (by omega)]; omega), toNat_ofNat (by omega),
      decodeFrom_last _ (by rw [toNat_ofNat (by omega)]; omega), toNat_ofNat (by omega),
      Nat.add_sub_cancel, Nat.add_sub_cancel, Nat.add_sub_cancel,
      show ((n / 262144 * 64 + n / 4096 % 64) * 64 + n / 64 % 64) * 64 + n % 64 = n by omega, hc]

theorem decode_encode (s : String) : decode (encode s) = s.toList.map some := by
  rw [encode_eq_flatMap, decode]
  induction s.toList with
  | nil => rfl
  | cons c rest ih => rw [List.flatMap_cons, decodeFrom_encodeChar, ih, List.map_cons]

theorem text?_encode (s : String) : text? (encode s) = some s := by
  have hchars : (s.toList.map some).mapM id = some s.toList := by
    induction s.toList with
    | nil => rfl
    | cons c rest ih => simp [ih]
  rw [text?, decode_encode, hchars, Option.map_some, String.ofList_toList]

theorem lossy_encode {s : String} (h : s.toList.head? ≠ some byteOrderMark) :
    lossy (encode s) = s := by
  have hchars : (decode (encode s)).map (·.getD replacement) = s.toList := by
    rw [decode_encode, List.map_map]
    exact List.map_id' _
  rw [lossy, hchars]
  cases hs : s.toList with
  | nil => exact (String.toList_eq_nil_iff.mp hs).symm
  | cons c rest =>
    have hmark : c ≠ byteOrderMark := fun heq => h (by rw [hs, heq]; rfl)
    dsimp only
    rw [if_neg hmark, ← hs, String.ofList_toList]

end EnvClient.Text.Utf8
