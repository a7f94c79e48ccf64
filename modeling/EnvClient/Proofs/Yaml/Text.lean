import EnvClient.Proofs.Yaml.Word

/-! Texts as scalars. Whatever style a text is written in, the lexer finds one scalar with that
text, whether it ends its line or is the key on the line of a value. -/
namespace EnvClient.Yaml

/-- What a style asks of a text, besides that the text be read as one. -/
def Style.Allows : Style → List Char → Prop
  | .plain, s => s ≠ [] ∧ plainAllowed s = true ∧ Scalar.meaning s = .text
  | .single, s => singleAllowed s = true ∧ '\n' ∉ s
  | .double, _ => True
  | .literal, s => literalAllowed s = true ∧ '\n' ∈ s

theorem Style.allows_choose (inline : Bool) (s : List Char) :
    (choose inline s).Allows s ∧ (inline = true → choose inline s ≠ .literal) := by
  have hfeed : wanted s ≠ .literal → '\n' ∉ s := by
    intro hwanted hmem
    rw [wanted, if_pos (List.contains_iff_mem.mpr hmem)] at hwanted
    exact hwanted rfl
  have hsingle : wanted s ≠ .literal →
      (if singleAllowed s then single else double).Allows s ∧
        (if singleAllowed s then single else double) ≠ .literal := by
    intro hwanted
    split
    · rename_i hallowed
      exact ⟨⟨hallowed, hfeed hwanted⟩, nofun⟩
    · exact ⟨trivial, nofun⟩
  rw [choose]
  cases hwanted : wanted s with
  | literal =>
    have hmem : '\n' ∈ s := by
      refine Decidable.byContradiction fun hmem => ?_
      rw [wanted, if_neg (by simpa using hmem)] at hwanted
      split at hwanted <;> cases hwanted
    dsimp only
    split
    · rename_i hallowed
      rw [Bool.and_eq_true, Bool.not_eq_true'] at hallowed
      exact ⟨⟨hallowed.1, hmem⟩, fun hinline => by rw [hallowed.2] at hinline; cases hinline⟩
    · exact ⟨trivial, nofun⟩
  | plain =>
    have hmeaning : Scalar.meaning s = .text := by
      rw [wanted] at hwanted
      split at hwanted
      · cases hwanted
      split at hwanted
      · rename_i h
        exact h.1
      · cases hwanted
    dsimp only
    split
    · rename_i hallowed
      refine ⟨⟨?_, hallowed, hmeaning⟩, nofun⟩
      rintro rfl
      cases hmeaning
    · exact (hsingle (by rw [hwanted]; nofun)).imp_right fun h _ => h
  | single => exact (hsingle (by rw [hwanted]; nofun)).imp_right fun h _ => h
  | double => exact (hsingle (by rw [hwanted]; nofun)).imp_right fun h _ => h

theorem isPrintable_of_literalAllowed {s : List Char} (h : Style.literalAllowed s = true) :
    ∀ c ∈ s, isPrintable c = true := by
  simp only [Style.literalAllowed, Bool.not_eq_true', Bool.or_eq_false_iff, Style.hasSpecial,
    List.any_eq_false] at h
  exact fun c hmem => by simpa using h.2 c hmem

theorem mem_literalBody {indent : Nat} {afterBreak : Bool} {s : List Char} {d : Char}
    (h : d ∈ literalBody indent afterBreak s) : d ∈ s ∨ d = ' ' := by
  induction s generalizing afterBreak with
  | nil => cases h
  | cons c s ih =>
    rw [literalBody] at h
    split at h
    · rcases List.mem_cons.mp h with rfl | h
      · exact .inl List.mem_cons_self
      · exact (ih h).imp_left (List.mem_cons_of_mem _)
    · rcases List.mem_append.mp h with h | h
      · split at h
        · exact .inr (mem_pad h)
        · cases h
      · rcases List.mem_cons.mp h with rfl | h
        · exact .inl List.mem_cons_self
        · exact (ih h).imp_left (List.mem_cons_of_mem _)

theorem isPrintable_of_mem_literalBlock {indent : Nat} {s : List Char} {d : Char}
    (hs : Style.literalAllowed s = true) (h : d ∈ literalBlock indent s) :
    isPrintable d = true := by
  rcases List.mem_cons.mp h with rfl | h
  · decide
  rcases List.mem_append.mp h with h | h
  · rcases List.mem_append.mp h with h | h
    · rcases Token.indentHint_cases s with hhint | hhint <;> rw [hhint] at h
      · rw [List.mem_singleton.mp h]
        decide
      · cases h
    · rcases Token.chompHint_cases s with hhint | hhint | hhint <;> rw [hhint] at h
      · rw [List.mem_singleton.mp h]
        decide
      · rw [List.mem_singleton.mp h]
        decide
      · cases h
  · rcases List.mem_cons.mp h with rfl | h
    · decide
    · rcases mem_literalBody h with h | rfl
      · exact isPrintable_of_literalAllowed hs d h
      · decide

theorem isPrintable_of_mem_styled {style : Style} {indent : Nat} {s : List Char} {d : Char}
    (hs : style.Allows s) (h : d ∈ styled style indent s) : isPrintable d = true := by
  cases style with
  | plain => exact (Token.isInLine_iff.mp (Token.isInLine_of_plainAllowed hs.2.1 d h)).1
  | single => exact Lexer.isPrintable_of_mem_singleQuoted hs.1 h
  | double => exact (Token.isInLine_iff.mp (Lexer.isInLine_of_mem_doubleQuoted h)).1
  | literal => exact isPrintable_of_mem_literalBlock hs.1 h

theorem isPrintable_of_mem_textLine {indent : Nat} {s : String} {d : Char}
    (h : d ∈ textLine indent s) : isPrintable d = true := by
  rw [textLine] at h
  rcases List.mem_append.mp h with h | h
  · exact isPrintable_of_mem_styled (Style.allows_choose false s.toList).1 h
  · split at h
    · cases h
    · rw [List.mem_singleton.mp h]
      decide

theorem byteCount_toList (s : String) : byteCount s.toList = s.utf8ByteSize := by
  have hchars : ∀ cs : List Char, byteCount cs = (String.ofList cs).utf8ByteSize := by
    intro cs
    induction cs with
    | nil => rfl
    | cons c cs ih =>
      rw [byteCount_cons, ih, String.ofList_cons, String.utf8ByteSize_append,
        String.utf8ByteSize_singleton]
  rw [hchars, String.ofList_toList]

theorem byteCount_of_ascii {s : List Char} (h : ∀ c ∈ s, c.utf8Size = 1) :
    byteCount s = s.length := by
  induction s with
  | nil => rfl
  | cons c s ih =>
    obtain ⟨hc, hs⟩ := List.forall_mem_cons.mp h
    rw [byteCount_cons, hc, ih hs, List.length_cons, Nat.add_comm]

theorem utf8Size_of_shortEscape? {c e : Char} (h : shortEscape? c = some e) : e.utf8Size = 1 := by
  unfold shortEscape? at h
  split at h <;> first
    | (cases h; rfl)
    | cases h

theorem utf8Size_upperDigit {d : Nat} (h : d < 16) : (Text.upperDigit d).utf8Size = 1 := by
  have hall : ∀ d : Fin 16, (Text.upperDigit d.val).utf8Size = 1 := by decide
  exact hall ⟨d, h⟩

theorem codeWidth_le (c : Char) : Token.codeWidth c + 2 ≤ 4 * c.utf8Size := by
  have hcode : c.val.toNat = c.toNat := rfl
  unfold Token.codeWidth Char.utf8Size
  simp only [UInt32.le_iff_toNat_le, hcode, UInt32.toNat_ofNatLT]
  by_cases h₁ : c.toNat ≤ 0x7F <;> by_cases h₂ : c.toNat ≤ 0xFF <;> by_cases h₃ : c.toNat ≤ 0x7FF <;>
    by_cases h₄ : c.toNat ≤ 0xFFFF <;> simp [h₁, h₂, h₃, h₄] <;> omega

theorem byteCount_doubleChar_le (c : Char) : byteCount (doubleChar c) ≤ 4 * c.utf8Size := by
  have hpos : 0 < c.utf8Size := Char.utf8Size_pos c
  have hslash : Char.utf8Size '\\' = 1 := by decide
  rcases Token.doubleChar_cases c with ⟨-, -, -, heq⟩ | ⟨e, he, heq⟩ | heq <;> rw [heq]
  · simp only [byteCount_cons, byteCount_nil]
    omega
  · simp only [byteCount_cons, byteCount_nil, hslash, utf8Size_of_shortEscape? he]
    omega
  · have hletter : (Token.codeLetter c).utf8Size = 1 := by
      unfold Token.codeLetter
      split
      · decide
      split <;> decide
    have hdigits : byteCount ((Text.places (Token.codeWidth c) c.toNat).map Text.upperDigit) =
        Token.codeWidth c := by
      rw [byteCount_of_ascii, List.length_map, Text.length_places]
      intro d hd
      obtain ⟨n, hn, rfl⟩ := List.mem_map.mp hd
      exact utf8Size_upperDigit (Text.lt_of_mem_places hn)
    have hwidth := codeWidth_le c
    simp only [byteCount_cons, hslash, hletter, hdigits]
    omega

theorem byteCount_doubleQuoted_le (s : List Char) :
    byteCount (doubleQuoted s) ≤ 4 * byteCount s + 2 := by
  have hbody : byteCount (s.flatMap doubleChar) ≤ 4 * byteCount s := by
    induction s with
    | nil => exact Nat.le_refl _
    | cons c s ih =>
      have hc := byteCount_doubleChar_le c
      rw [List.flatMap_cons, byteCount_append, byteCount_cons]
      omega
  have hquote : Char.utf8Size '"' = 1 := by decide
  simp only [doubleQuoted, byteCount_cons, byteCount_append, byteCount_nil, hquote]
  omega

theorem byteCount_singleQuoted_le {s : List Char} (h : Style.isMultiline s = false) :
    byteCount (singleQuoted 0 s) ≤ 4 * byteCount s + 2 := by
  have hquote : Char.utf8Size '\'' = 1 := by decide
  have hbody : byteCount (singleBody 0 false s) ≤ 2 * byteCount s := by
    induction s with
    | nil => exact Nat.le_refl _
    | cons c s ih =>
      obtain ⟨hbreak, hrest⟩ := Bool.or_eq_false_iff.mp (show (isBreak c || s.any isBreak) = false from h)
      have hs := ih hrest
      have hc : byteCount (if c = '\'' then ['\'', '\''] else [c]) ≤ 2 * c.utf8Size := by
        split
        · rename_i heq
          rw [heq]
          decide
        · simp only [byteCount_cons, byteCount_nil]
          omega
      rw [singleBody, hbreak, if_neg Bool.false_ne_true, if_neg Bool.false_ne_true, List.nil_append,
        byteCount_append, byteCount_cons]
      omega
  simp only [singleQuoted, byteCount_cons, byteCount_append, byteCount_nil, hquote]
  omega

theorem isBreak_of_mem_inlineKey {name : String} (h : Style.isMultiline name.toList = false) :
    ∀ c ∈ inlineKey name, isBreak c = false := by
  obtain ⟨hallows, hliteral⟩ := Style.allows_choose true name.toList
  rw [inlineKey]
  generalize Style.choose true name.toList = style at hallows hliteral
  intro c hc
  cases style with
  | plain => exact (Token.isInLine_iff.mp (Token.isInLine_of_plainAllowed hallows.2.1 c hc)).2
  | single =>
    have hbreak : ∀ d ∈ name.toList, isBreak d = false := by simpa [Style.isMultiline] using h
    rcases List.mem_cons.mp hc with rfl | hc
    · decide
    rcases List.mem_append.mp hc with hc | hc
    · rcases Lexer.mem_singleBody hc with hc | rfl | rfl
      · exact hbreak c hc
      · decide
      · decide
    · rw [List.mem_singleton.mp hc]
      decide
  | double => exact (Token.isInLine_iff.mp (Lexer.isInLine_of_mem_doubleQuoted hc)).2
  | literal => exact absurd rfl (hliteral rfl)

theorem byteCount_inlineKey_le {name : String} (h : Style.isMultiline name.toList = false) :
    byteCount (inlineKey name) ≤ 4 * byteCount name.toList + 2 := by
  obtain ⟨-, hliteral⟩ := Style.allows_choose true name.toList
  rw [inlineKey]
  generalize Style.choose true name.toList = style at hliteral
  cases style with
  | plain =>
    rw [styled]
    omega
  | single => exact byteCount_singleQuoted_le h
  | double => exact byteCount_doubleQuoted_le _
  | literal => exact absurd rfl (hliteral rfl)

/-- A key on the line of its value does not leave it, and is short enough to be known as a key. -/
theorem place_inlineKey {name : String} (h : Style.isInlineKey name = true) (p : Place) :
    (p.past (inlineKey name)).line = p.line ∧
      (p.past (inlineKey name)).offset ≤ p.offset + 1024 ∧
      p.column ≤ (p.past (inlineKey name)).column := by
  rw [Style.isInlineKey, Bool.and_eq_true, Bool.not_eq_true', decide_eq_true_eq] at h
  obtain ⟨hline, hsize⟩ := h
  have hkey := byteCount_inlineKey_le hline
  rw [← byteCount_toList] at hsize
  rw [Place.past_of_not_isBreak (isBreak_of_mem_inlineKey hline)]
  refine ⟨rfl, ?_, Nat.le_add_right _ _⟩
  change p.offset + byteCount (inlineKey name) ≤ _
  omega

end EnvClient.Yaml

namespace EnvClient.Yaml.Lexer

open Input (ofChars ofChars_cons)

variable {p : Place} {u v : List Char} {tokens ts : List Token} {columns : List Nat}
  {keyAllowed : Bool} {column indent : Nat}

def textWord (inline : Bool) (s : String) : Token :=
  .scalar (Style.choose inline s.toList == .plain) s

theorem Yields.literalLine {s : List Char} (hend : EndsLine columns column indent p u)
    (hne : s ≠ []) (hs : Style.literalAllowed s = true)
    (h : ∀ q : Place, q.column = indent →
      Yields (before q u (.scalar false (String.ofList s) :: tokens) columns none true) ts) :
    Yields (before p (literalBlock (column + 2) s ++
      ((if Style.endsWith isBreak s then [] else ['\n']) ++ (pad indent ++ u))) tokens columns none
        keyAllowed) ts := by
  -- what stands between the mark of the block and the next word
  let written := indentHint s ++ chompHint s ++ '\n' :: (literalBody (column + 2) true s ++
    ((if Style.endsWith isBreak s then [] else ['\n']) ++ pad indent))
  have hreturn : '\r' ∉ '|' :: written := by
    intro hmem
    have hblock : '\r' ∈ literalBlock (column + 2) s ++
        ((if Style.endsWith isBreak s then [] else ['\n']) ++ pad indent) := by
      simpa [written, literalBlock] using hmem
    rcases List.mem_append.mp hblock with hmem | hmem
    · exact absurd (isPrintable_of_mem_literalBlock hs hmem) (by decide)
    rcases List.mem_append.mp hmem with hmem | hmem
    · split at hmem
      · cases hmem
      · exact absurd (List.mem_singleton.mp hmem) (by decide)
    · exact absurd (mem_pad hmem) (by decide)
  have hwhole : literalBlock (column + 2) s ++
      ((if Style.endsWith isBreak s then [] else ['\n']) ++ (pad indent ++ u)) =
        '|' :: (written ++ u) := by
    simp [written, literalBlock]
  obtain ⟨q, hcolumn, -, hread⟩ := @Token.blockScalar_written columns.head? indent s u (p.after '|')
    (isPrintable_of_literalAllowed hs) hne hend.starts (hend.head.symm ▸ hend.indented)
  have hrest : indentHint s ++ chompHint s ++ '\n' :: (literalBody (column + 2) true s ++
      ((if Style.endsWith isBreak s then [] else ['\n']) ++ (pad indent ++ u))) = written ++ u := by
    simp [written]
  rw [hend.head, hrest] at hread
  rw [hwhole]
  exact .word (by decide) hend.le rfl (next_literal hread)
    (length_ofChars_append_le (fun hmem => hreturn (List.mem_cons_of_mem _ hmem)) _ _ _)
    (h q hcolumn)

theorem Yields.textLine {s : String} (hend : EndsLine columns column indent p u)
    (h : ∀ q : Place, q.column = indent →
      Yields (before q u (textWord false s :: tokens) columns none true) ts) :
    Yields (before p (Yaml.textLine (column + 2) s ++ (pad indent ++ u)) tokens columns none
      keyAllowed) ts := by
  obtain ⟨hallows, -⟩ := Style.allows_choose false s.toList
  rw [Yaml.textLine]
  rw [textWord] at h
  generalize Style.choose false s.toList = style at hallows h
  have hstart : ∀ d ∈ ('\n' :: (pad indent ++ u)).head?, d ≠ '\'' ∧ d ≠ '\r' := by
    rintro d hd
    cases hd
    decide
  have hword : ∀ plain, (.scalar plain s : Token) = .scalar plain (String.ofList s.toList) :=
    fun plain => by rw [String.ofList_toList]
  rw [hword] at h
  cases style with
  | plain =>
    obtain ⟨hne, hplain, -⟩ := hallows
    rw [if_neg (fun h => nomatch h.1), List.append_assoc]
    exact .plainLine hend hne hplain h
  | single =>
    obtain ⟨hsingle, hfeed⟩ := hallows
    rw [if_neg (fun h => nomatch h.1), List.append_assoc]
    exact .single hend.le hsingle hfeed (fun _ => Nat.succ_ne_zero _) hstart
      (.lineEnd hend (Place.line_le_past _ _) [_] h)
  | double =>
    rw [if_neg (fun h => nomatch h.1), List.append_assoc]
    exact .double hend.le (.lineEnd hend (Place.line_le_past _ _) [_] h)
  | literal =>
    obtain ⟨hliteral, hmem⟩ := hallows
    simp only [true_and]
    rw [List.append_assoc]
    exact .literalLine hend (List.ne_nil_of_mem hmem) hliteral h

/-- A key on the line of its value, whose words come when the colon shows that it is one. -/
theorem Yields.inlineKey {name : String} (hname : Style.isInlineKey name = true)
    (hcolumns : ∀ m ∈ columns.head?, m ≤ p.column) (hgap : startsBlank u = true)
    (h : ∀ q : Place, p.column < q.column →
      Yields (before q u
        (.value :: textWord true name :: .key :: openTokens columns p.column .blockMapping tokens)
        (openColumns columns p.column) none false) ts) :
    Yields (before p (Yaml.inlineKey name ++ ':' :: u) tokens columns none true) ts := by
  obtain ⟨hline, hoffset, hcolumn⟩ := place_inlineKey hname p
  obtain ⟨hallows, hliteral⟩ := Style.allows_choose true name.toList
  have hcolon : p.column < ((p.past (Yaml.inlineKey name)).after ':').column := by
    rw [Place.after_of_not_isBreak (by decide)]
    exact Nat.lt_succ_of_le hcolumn
  have hvalue := @Yields.inlineValue (p.past (Yaml.inlineKey name)) u tokens ts columns false
    (textWord true name) ⟨tokens.length, columns.head? == some p.column, p⟩
    (fun m hm => Nat.le_trans (hcolumns m hm) hcolumn) rfl hline.symm hoffset hgap (h _ hcolon)
  have hstart : ∀ d ∈ (':' :: u).head?, d ≠ '\'' ∧ d ≠ '\r' := by
    rintro d hd
    cases hd
    decide
  have hword : ∀ plain, (.scalar plain name : Token) = .scalar plain (String.ofList name.toList) :=
    fun plain => by rw [String.ofList_toList]
  have hbreak : Style.isMultiline name.toList = true → 0 ≠ 0 := by
    intro hmulti
    rw [Style.isInlineKey, hmulti] at hname
    cases hname
  rw [textWord, hword] at hvalue
  rw [Yaml.inlineKey] at hvalue ⊢
  generalize Style.choose true name.toList = style at hallows hliteral hvalue
  cases style with
  | plain =>
    obtain ⟨hne, hplain, -⟩ := hallows
    rw [styled] at hvalue ⊢
    cases hchars : name.toList with
    | nil => exact absurd hchars hne
    | cons c s =>
      rw [hchars] at hplain hvalue
      have hreturn : '\r' ∉ s := fun hmem =>
        absurd (Token.isInLine_iff.mp (Token.isInLine_of_plainAllowed hplain '\r'
          (List.mem_cons_of_mem _ hmem))).1 (by decide)
      exact .word (starts_of_plainAllowed hplain) hcolumns rfl
        (next_plain hplain (.inl rfl) (Token.plainText_colon hgap))
        (length_ofChars_append_le hreturn _ _ _) hvalue
  | single => exact .single hcolumns hallows.1 hallows.2 hbreak hstart hvalue
  | double => exact .double hcolumns hvalue
  | literal => exact absurd rfl (hliteral rfl)

end EnvClient.Yaml.Lexer
