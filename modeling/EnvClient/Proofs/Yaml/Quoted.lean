import EnvClient.Proofs.Text.Hex
import EnvClient.Proofs.Yaml.Plain

/-! Quoted scalars. What is written between quotes is read as the text that was quoted. -/
namespace EnvClient.Yaml.Token

open Input (ofChars ofChars_cons)

theorem prepend_eq_some {cs text : List Char} {rest : Input} {r : Option (List Char × Input)}
    (h : r = some (text, rest)) : prepend cs r = some (cs ++ text, rest) := by
  rw [h]
  rfl

/-- What precedes a character of a single-quoted text: blanks, or breaks that are no line feeds. -/
inductive Pending : (afterBreak : Bool) → Gap → List Char → Prop where
  | blanks (cs : List Char) : Pending false (.blanks cs) cs
  | breaks (b : Char) (others : List Char) (h : b ≠ '\n') :
      Pending true (.breaks [b] others) (b :: others)

theorem Pending.text_eq {afterBreak : Bool} {gap : Gap} {cs : List Char}
    (h : Pending afterBreak gap cs) : gap.text = cs := by
  cases h with
  | blanks cs => rfl
  | breaks b others hb =>
    rw [Gap.text, if_neg (by simpa using hb)]
    rfl

theorem singleText_cons (gap : Gap) (c : Placed) (rest : Input) :
    singleText gap (c :: rest) =
      if isBreak c.char then singleText (gap.addBreak c.char) rest
      else if isBlank c.char then singleText (gap.addBlank c.char) rest
      else if Input.startsDocumentMark (c :: rest) then none
      else if c.char = '\'' then
        match rest with
        | [] => some (gap.text, [])
        | d :: rest' =>
          if d.char = '\'' then prepend (gap.text ++ ['\'']) (singleText .none rest')
          else some (gap.text, d :: rest')
      else prepend (gap.text ++ [c.char]) (singleText .none rest) := by
  rw [singleText.eq_def]
  rfl

theorem singleText_pad {b : Char} {others : List Char} {indent : Nat} {v : List Char} {p : Place} :
    singleText (.breaks [b] others) (ofChars p (pad indent ++ v)) =
      singleText (.breaks [b] others) (ofChars (p.past (pad indent)) v) := by
  induction indent generalizing p with
  | zero => rfl
  | succ indent ih =>
    rw [pad_succ, List.cons_append, ofChars_cons (by decide), Place.past_cons, ← ih, singleText_cons]
    rfl

theorem singleText_quote {gap : Gap} {v : List Char} {p : Place} (hcolumn : p.column ≠ 0)
    (hv : ∀ d ∈ v.head?, d ≠ '\'' ∧ d ≠ '\r') :
    singleText gap (ofChars p ('\'' :: v)) = some (gap.text, ofChars (p.after '\'') v) := by
  rw [ofChars_cons (by decide), singleText_cons, Input.startsDocumentMark_of_column hcolumn]
  cases v with
  | nil => rfl
  | cons d v =>
    obtain ⟨hquote, hreturn⟩ := hv d rfl
    rw [ofChars_cons hreturn]
    simp [show isBreak '\'' = false by decide, show isBlank '\'' = false by decide, hquote]

theorem anyPair_cons {p q : Char → Bool} {c : Char} {s : List Char}
    (h : Style.anyPair p q (c :: s) = false) :
    (p c = true → ∀ d ∈ s.head?, q d = false) ∧ Style.anyPair p q s = false := by
  cases s with
  | nil => exact ⟨fun _ => nofun, rfl⟩
  | cons d s =>
    rw [Style.anyPair, Bool.or_eq_false_iff, Bool.and_eq_false_iff] at h
    refine ⟨fun hc e he => ?_, h.2⟩
    cases he
    rcases h.1 with hp | hq
    · rw [hp] at hc
      cases hc
    · exact hq

theorem breakChar_of_isPrintable {c : Char} (hprint : isPrintable c = true) (hfeed : c ≠ '\n') :
    breakChar c = c := by
  have hreturn := ne_of_isPrintable hprint (d := '\r') (by decide)
  have hnext := ne_of_isPrintable hprint (d := '\u0085') (by decide)
  rw [breakChar, if_neg (by simp [hreturn, hfeed, hnext])]

theorem singleText_char {gap : Gap} {c : Char} {p : Place} (v : List Char)
    (hprint : isPrintable c = true) (hbreak : isBreak c = false) (hspace : c ≠ ' ')
    (hcolumn : p.column ≠ 0) :
    singleText gap (ofChars p ((if c = '\'' then ['\'', '\''] else [c]) ++ v)) =
      prepend (gap.text ++ [c]) (singleText .none
        (ofChars (p.past (if c = '\'' then ['\'', '\''] else [c])) v)) := by
  have hblank := not_isBlank_of_ne hprint hspace
  split
  · rename_i hquote
    subst hquote
    rw [List.cons_append, List.singleton_append, ofChars_cons (by decide), ofChars_cons (by decide),
      singleText_cons, Input.startsDocumentMark_of_column hcolumn]
    rfl
  · rename_i hquote
    rw [List.singleton_append, ofChars_cons (ne_of_isPrintable hprint (by decide)), singleText_cons,
      Input.startsDocumentMark_of_column hcolumn]
    simp [hbreak, hblank, hquote]

theorem Pending.addBreak {afterBreak : Bool} {gap : Gap} {cs : List Char} {c : Char}
    (h : Pending afterBreak gap cs) (hprint : isPrintable c = true) (hfeed : c ≠ '\n')
    (hblanks : afterBreak = false → cs = []) : Pending true (gap.addBreak c) (cs ++ [c]) := by
  cases h with
  | blanks cs =>
    rw [hblanks rfl, Gap.addBreak, breakChar_of_isPrintable hprint hfeed]
    exact .breaks c [] hfeed
  | breaks b others hb =>
    rw [Gap.addBreak, breakChar_of_isPrintable hprint hfeed]
    exact .breaks b (others ++ [c]) hb

theorem singleText_break {gap : Gap} {c : Char} {p : Place} (v : List Char)
    (hprint : isPrintable c = true) (hbreak : isBreak c = true) :
    singleText gap (ofChars p (c :: v)) =
      singleText (gap.addBreak c) (ofChars (p.after c) v) := by
  rw [ofChars_cons (ne_of_isPrintable hprint (by decide)), singleText_cons, if_pos hbreak]

theorem singleText_space {gap : Gap} {p : Place} (v : List Char) :
    singleText gap (ofChars p (' ' :: v)) =
      singleText (gap.addBlank ' ') (ofChars (p.after ' ') v) := by
  rw [ofChars_cons (by decide), singleText_cons]
  rfl

theorem singleText_padIf {cs : List Char} {afterBreak : Bool} {gap : Gap} {indent : Nat}
    {p : Place} {v : List Char} (hpending : Pending afterBreak gap cs) :
    singleText gap (ofChars p ((if afterBreak then pad indent else []) ++ v)) =
      singleText gap (ofChars (p.past (if afterBreak then pad indent else [])) v) := by
  cases hpending with
  | blanks cs => rfl
  | breaks b others hb => exact singleText_pad

theorem column_padIf {afterBreak : Bool} {indent : Nat} {p : Place}
    (hcolumn : afterBreak = false → p.column ≠ 0) (hindent : afterBreak = true → indent ≠ 0) :
    (p.past (if afterBreak then pad indent else [])).column ≠ 0 := by
  cases afterBreak with
  | false => exact hcolumn rfl
  | true =>
    rw [if_pos rfl, Place.column_past_pad]
    exact fun h => hindent rfl (Nat.eq_zero_of_add_eq_zero_left h)

/-- The body of a single-quoted scalar. No blank stands at a break, and lines after the first are
indented. -/
theorem singleText_body {s cs : List Char} {afterBreak : Bool} {gap : Gap} {indent : Nat}
    {p : Place} {v : List Char} (hprint : ∀ c ∈ s, isPrintable c = true ∧ c ≠ '\n')
    (hpending : Pending afterBreak gap cs)
    (hbreakSpace : Style.anyPair isBreak Style.isSpace s = false)
    (hspaceBreak : Style.anyPair Style.isSpace isBreak s = false)
    (hafter : afterBreak = true → ∀ c ∈ s.head?, Style.isSpace c = false)
    (hblanks : afterBreak = false → cs ≠ [] → ∀ c ∈ s.head?, isBreak c = false)
    (hcolumn : afterBreak = false → p.column ≠ 0)
    (hindent : afterBreak = true ∨ s.any isBreak = true → indent ≠ 0)
    (hv : ∀ d ∈ v.head?, d ≠ '\'' ∧ d ≠ '\r') :
    singleText gap (ofChars p (singleBody indent afterBreak s ++ '\'' :: v)) =
      some (cs ++ s, ofChars ((p.past (singleBody indent afterBreak s)).after '\'') v) := by
  induction s generalizing cs afterBreak gap p with
  | nil =>
    rw [singleBody, singleText_padIf hpending,
      singleText_quote (column_padIf hcolumn fun h => hindent (.inl h)) hv, hpending.text_eq,
      List.append_nil]
  | cons c s ih =>
    obtain ⟨⟨hc, hfeed⟩, hs⟩ := List.forall_mem_cons.mp hprint
    obtain ⟨hbreakFirst, hbreaks⟩ := anyPair_cons hbreakSpace
    obtain ⟨hspaceFirst, hspaces⟩ := anyPair_cons hspaceBreak
    by_cases hbreak : isBreak c = true
    · -- a break, which no blank precedes
      have hpending' := hpending.addBreak hc hfeed fun hflag => Decidable.byContradiction fun hne => by
        rw [hblanks hflag hne c rfl] at hbreak
        cases hbreak
      have hmore : indent ≠ 0 := hindent (.inr (by simp [hbreak]))
      have hrest := @ih (cs ++ [c]) true (gap.addBreak c) (p.after c) hs hpending' hbreaks
        hspaces (fun _ => hbreakFirst hbreak) nofun nofun fun _ => hmore
      rw [singleBody, if_pos hbreak, List.cons_append, singleText_break _ hc hbreak, hrest,
        List.append_assoc, List.singleton_append, Place.past_cons]
    · have hbreak : isBreak c = false := Bool.eq_false_iff.mpr hbreak
      have hline : s.any isBreak = true → indent ≠ 0 := fun h => hindent (.inr (by simp [h]))
      have hindent' := column_padIf hcolumn fun h => hindent (.inl h)
      rw [singleBody, hbreak, if_neg Bool.false_ne_true, List.append_assoc, List.append_assoc,
        singleText_padIf hpending, Place.past_append, Place.past_append]
      generalize p.past (if afterBreak = true then pad indent else []) = q at hindent'
      by_cases hspace : c = ' '
      · -- a blank, which follows no break
        subst hspace
        have hblank : Pending false (gap.addBlank ' ') (cs ++ [' ']) := by
          cases hpending with
          | blanks cs => exact .blanks _
          | breaks b others hb => exact absurd (hafter rfl ' ' rfl) (by decide)
        have hrest := @ih (cs ++ [' ']) false (gap.addBlank ' ') (q.after ' ') hs hblank
          hbreaks hspaces nofun (fun _ _ => hspaceFirst rfl)
          (fun _ => Place.column_after_ne_zero (by decide) q) fun h => hline (h.resolve_left nofun)
        rw [if_neg (by decide), List.singleton_append, singleText_space, hrest, List.append_assoc,
          List.singleton_append]
        rfl
      · have hquoted : (q.past (if c = '\'' then ['\'', '\''] else [c])).column ≠ 0 := by
          split
          · exact Place.column_after_ne_zero (show isBreak '\'' = false by decide) _
          · exact Place.column_after_ne_zero hbreak q
        have hrest := @ih [] false .none (q.past (if c = '\'' then ['\'', '\''] else [c])) hs
          (.blanks []) hbreaks hspaces nofun (fun _ h => absurd rfl h) (fun _ => hquoted)
          fun h => hline (h.resolve_left nofun)
        rw [singleText_char _ hc hbreak hspace hindent', prepend_eq_some hrest, hpending.text_eq]
        simp

theorem singleText_of_singleAllowed {s : List Char} {indent : Nat} {p : Place} {v : List Char}
    (h : Style.singleAllowed s = true) (hfeed : '\n' ∉ s) (hcolumn : p.column ≠ 0)
    (hindent : Style.isMultiline s = true → indent ≠ 0)
    (hv : ∀ d ∈ v.head?, d ≠ '\'' ∧ d ≠ '\r') :
    singleText .none (ofChars p (singleBody indent false s ++ '\'' :: v)) =
      some (s, ofChars ((p.past (singleBody indent false s)).after '\'') v) := by
  simp only [Style.singleAllowed, Bool.not_eq_true', Bool.or_eq_false_iff, Style.hasSpecial,
    List.any_eq_false] at h
  obtain ⟨⟨hbreakSpace, hspaceBreak⟩, hprint⟩ := h
  exact singleText_body (fun c hmem => ⟨by simpa using hprint c hmem, ne_of_mem_of_not_mem hmem hfeed⟩)
    (.blanks []) hbreakSpace hspaceBreak (fun h => absurd h Bool.false_ne_true)
    (fun _ h => absurd rfl h) (fun _ => hcolumn)
    (fun h => hindent (h.resolve_left Bool.false_ne_true)) hv

theorem isInLine_upperDigit {d : Nat} (h : d < 16) : isInLine (Text.upperDigit d) = true := by
  have hall : ∀ d : Fin 16, isInLine (Text.upperDigit d.val) = true := by decide
  exact hall ⟨d, h⟩

theorem unescape?_of_shortEscape? {c e : Char} (h : shortEscape? c = some e) :
    isInLine e = true ∧ hexLength? e = none ∧ unescape? e = some c := by
  have hchar : ∀ n, c.toNat = n → c = Char.ofNat n := fun n hn => by rw [← hn, Char.ofNat_toNat]
  unfold shortEscape? at h
  split at h <;> first
    | (rename_i hcode; cases h; rw [hchar _ hcode]; decide)
    | cases h

def codeWidth (c : Char) : Nat := if c.toNat ≤ 0xFF then 2 else if c.toNat ≤ 0xFFFF then 4 else 8

def codeLetter (c : Char) : Char :=
  if c.toNat ≤ 0xFF then 'x' else if c.toNat ≤ 0xFFFF then 'u' else 'U'

theorem toNat_lt_codeWidth (c : Char) : c.toNat < 16 ^ codeWidth c := by
  have hvalid : c.toNat < 0xD800 ∨ (0xDFFF < c.toNat ∧ c.toNat < 0x110000) := c.valid
  unfold codeWidth
  split
  · omega
  split
  · omega
  · omega

theorem doubleChar_cases (c : Char) :
    (isInLine c = true ∧ c ≠ '"' ∧ c ≠ '\\' ∧ doubleChar c = [c]) ∨
    (∃ e, shortEscape? c = some e ∧ doubleChar c = ['\\', e]) ∨
    doubleChar c =
      '\\' :: codeLetter c :: (Text.places (codeWidth c) c.toNat).map Text.upperDigit := by
  unfold doubleChar
  by_cases hraw : (isPrintable c && !isBreak c && c != '"' && c != '\\') = true
  · rw [if_pos hraw]
    simp only [Bool.and_eq_true, bne_iff_ne] at hraw
    exact .inl ⟨by simpa [isInLine] using hraw.1.1, hraw.1.2, hraw.2, rfl⟩
  rw [if_neg hraw]
  cases hshort : shortEscape? c with
  | some e => exact .inr (.inl ⟨e, rfl, rfl⟩)
  | none =>
    refine .inr (.inr ?_)
    have hwidth := toNat_lt_codeWidth c
    unfold codeLetter codeWidth at *
    dsimp only
    split
    · rename_i hbyte
      rw [if_pos hbyte] at hwidth
      rw [Text.upperHex_eq_places (by decide) hwidth]
    split
    · rename_i hbyte hshort
      rw [if_neg hbyte, if_pos hshort] at hwidth
      rw [Text.upperHex_eq_places (by decide) hwidth]
    · rename_i hbyte hshort
      rw [if_neg hbyte, if_neg hshort] at hwidth
      rw [Text.upperHex_eq_places (by decide) hwidth]

theorem isInLine_of_mem_doubleChar {c d : Char} (h : d ∈ doubleChar c) : isInLine d = true := by
  rcases doubleChar_cases c with ⟨hline, -, -, heq⟩ | ⟨e, he, heq⟩ | heq <;> rw [heq] at h
  · rw [List.mem_singleton.mp h]
    exact hline
  · rcases List.mem_cons.mp h with rfl | h
    · decide
    · rw [List.mem_singleton.mp h]
      exact (unescape?_of_shortEscape? he).1
  · rcases List.mem_cons.mp h with rfl | h
    · decide
    rcases List.mem_cons.mp h with rfl | h
    · unfold codeLetter
      split
      · decide
      split <;> decide
    · obtain ⟨n, hn, rfl⟩ := List.mem_map.mp h
      exact isInLine_upperDigit (Text.lt_of_mem_places hn)

theorem doubleText_hex {ds : List Nat} (value : Nat) {p : Place} {v : List Char}
    (hlt : ∀ d ∈ ds, d < 16) (hne : ds ≠ []) :
    doubleText (.hex (ds.length - 1) value) (ofChars p (ds.map Text.upperDigit ++ v)) =
      match ofCode? (Text.digitsFrom value ds) with
      | some e => prepend [e] (doubleText (.text .none)
          (ofChars (p.past (ds.map Text.upperDigit)) v))
      | none => none := by
  induction ds generalizing value p with
  | nil => exact absurd rfl hne
  | cons d ds ih =>
    obtain ⟨hd, hds⟩ := List.forall_mem_cons.mp hlt
    have hreturn := ne_of_isPrintable (isInLine_iff.mp (isInLine_upperDigit hd)).1 (d := '\r')
      (by decide)
    rw [List.map_cons, List.cons_append, ofChars_cons hreturn, List.length_cons,
      Nat.add_sub_cancel, doubleText, Text.hexValue?_upperDigit hd]
    cases ds with
    | nil => rfl
    | cons e ds => exact ih _ hds (List.cons_ne_nil _ _)

theorem ofCode?_toNat (c : Char) : ofCode? c.toNat = some c := by
  have hvalid : c.toNat.isValidChar := c.valid
  rw [ofCode?, if_pos hvalid, Char.ofNat_toNat]

theorem doubleText_cons {gap : Gap} {c : Char} {p : Place} (v : List Char) (hreturn : c ≠ '\r')
    (hbreak : isBreak c = false) (hblank : isBlank c = false) (hcolumn : p.column ≠ 0) :
    doubleText (.text gap) (ofChars p (c :: v)) =
      if c = '"' then some (gap.text, ofChars (p.after c) v)
      else if c = '\\' then prepend gap.text (doubleText .escape (ofChars (p.after c) v))
      else prepend (gap.text ++ [c]) (doubleText (.text .none) (ofChars (p.after c) v)) := by
  rw [ofChars_cons hreturn, doubleText, Input.startsDocumentMark_of_column hcolumn]
  simp only [hbreak, hblank, Bool.false_eq_true, if_false]

theorem doubleText_escape {c e : Char} {p : Place} {v : List Char} (he : isInLine e = true)
    (hhex : hexLength? e = none) (hescape : unescape? e = some c) :
    doubleText .escape (ofChars p (e :: v)) =
      prepend [c] (doubleText (.text .none) (ofChars (p.after e) v)) := by
  obtain ⟨hprint, hbreak⟩ := isInLine_iff.mp he
  rw [ofChars_cons (ne_of_isPrintable hprint (by decide)), doubleText]
  simp only [hbreak, hhex, hescape, Bool.false_eq_true, if_false]

theorem doubleText_code {c : Char} {p : Place} (v : List Char) :
    doubleText .escape (ofChars p (codeLetter c ::
      ((Text.places (codeWidth c) c.toNat).map Text.upperDigit ++ v))) =
        prepend [c] (doubleText (.text .none) (ofChars (p.past (codeLetter c ::
          (Text.places (codeWidth c) c.toNat).map Text.upperDigit)) v)) := by
  have hletter : isInLine (codeLetter c) = true ∧
      hexLength? (codeLetter c) = some (codeWidth c) ∧ codeWidth c ≠ 0 := by
    unfold codeLetter codeWidth
    split
    · decide
    split <;> decide
  obtain ⟨hline, hwidth, hpos⟩ := hletter
  obtain ⟨hprint, hbreak⟩ := isInLine_iff.mp hline
  have hplaces : ∀ d ∈ Text.places (codeWidth c) c.toNat, d < 16 := fun _ => Text.lt_of_mem_places
  have hne : Text.places (codeWidth c) c.toNat ≠ [] := fun hnil => by
    rw [← Text.length_places (codeWidth c) c.toNat, hnil] at hpos
    exact hpos rfl
  have hdigits := doubleText_hex 0 (p := p.after (codeLetter c)) (v := v) hplaces hne
  rw [Text.length_places, Text.digitsFrom_places (toNat_lt_codeWidth c), ofCode?_toNat] at hdigits
  rw [ofChars_cons (ne_of_isPrintable hprint (by decide)), doubleText]
  simp only [hbreak, hwidth, Bool.false_eq_true, if_false]
  rw [hdigits, Place.past_cons]

theorem prepend_prepend (cs ds : List Char) (r : Option (List Char × Input)) :
    prepend cs (prepend ds r) = prepend (cs ++ ds) r := by
  cases r with
  | none => rfl
  | some r => simp [prepend]

theorem doubleText_char {c : Char} {cs : List Char} {p : Place} (v : List Char) (hspace : c ≠ ' ')
    (hcolumn : p.column ≠ 0) :
    doubleText (.text (.blanks cs)) (ofChars p (doubleChar c ++ v)) =
      prepend (cs ++ [c]) (doubleText (.text .none) (ofChars (p.past (doubleChar c)) v)) := by
  have hslash : ∀ w, doubleText (.text (.blanks cs)) (ofChars p ('\\' :: w)) =
      prepend cs (doubleText .escape (ofChars (p.after '\\') w)) := fun w => by
    rw [doubleText_cons w (by decide) (by decide) (by decide) hcolumn, if_neg (by decide),
      if_pos rfl]
    rfl
  rcases doubleChar_cases c with ⟨hline, hquote, hne, heq⟩ | ⟨e, he, heq⟩ | heq <;> rw [heq]
  · obtain ⟨hprint, hbreak⟩ := isInLine_iff.mp hline
    rw [List.singleton_append, doubleText_cons v (ne_of_isPrintable hprint (by decide)) hbreak
      (not_isBlank_of_ne hprint hspace) hcolumn, if_neg hquote, if_neg hne]
    rfl
  · obtain ⟨hline, hhex, hescape⟩ := unescape?_of_shortEscape? he
    rw [List.cons_append, List.singleton_append, hslash, doubleText_escape hline hhex hescape,
      prepend_prepend]
    rfl
  · rw [List.cons_append, List.cons_append, hslash, doubleText_code, prepend_prepend]
    rfl

theorem doubleText_body {s cs : List Char} {p : Place} (v : List Char) (hcolumn : p.column ≠ 0) :
    doubleText (.text (.blanks cs)) (ofChars p (s.flatMap doubleChar ++ '"' :: v)) =
      some (cs ++ s, ofChars ((p.past (s.flatMap doubleChar)).after '"') v) := by
  induction s generalizing cs p with
  | nil =>
    rw [List.flatMap_nil, List.nil_append, doubleText_cons v (by decide) (by decide) (by decide)
      hcolumn, if_pos rfl, List.append_nil]
    rfl
  | cons c s ih =>
    have hafter : (p.past (doubleChar c)).column ≠ 0 := by
      rw [Place.past_of_not_isBreak fun d hd => (isInLine_iff.mp (isInLine_of_mem_doubleChar hd)).2]
      exact fun h => hcolumn (Nat.eq_zero_of_add_eq_zero_right h)
    rw [List.flatMap_cons, List.append_assoc, Place.past_append]
    by_cases hspace : c = ' '
    · subst hspace
      have hchar : doubleChar ' ' = [' '] := by decide
      have hrest := @ih (cs ++ [' ']) _ hafter
      rw [hchar] at hrest ⊢
      rw [List.singleton_append, ofChars_cons (by decide), doubleText]
      refine hrest.trans ?_
      rw [List.append_assoc, List.singleton_append]
    · rw [doubleText_char _ hspace hcolumn]
      have hrest := @ih [] _ hafter
      refine (prepend_eq_some hrest).trans ?_
      rw [List.nil_append, List.append_assoc, List.singleton_append]

end EnvClient.Yaml.Token
