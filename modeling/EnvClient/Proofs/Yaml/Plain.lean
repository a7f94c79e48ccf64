import EnvClient.Proofs.Yaml.Place

/-! Plain scalars. A text that is written plain is read up to the colon after it or to the end of
its line, and the gap before the next word goes with it. -/
namespace EnvClient.Yaml.Token

open Input (ofChars ofChars_cons)

variable {margin : Nat}

def isInLine (c : Char) : Bool := isPrintable c && !isBreak c

theorem isInLine_iff {c : Char} :
    isInLine c = true ↔ isPrintable c = true ∧ isBreak c = false := by
  simp [isInLine]

theorem isBlank_eq_of_isPrintable {c : Char} (h : isPrintable c = true) :
    isBlank c = (c == ' ') := by
  have htab : (c == '\t') = false := beq_eq_false_iff_ne.mpr (ne_of_isPrintable h (by decide))
  rw [isBlank, htab, Bool.or_false]

theorem not_isBlank_of_ne {c : Char} (hprint : isPrintable c = true) (hspace : c ≠ ' ') :
    isBlank c = false := by
  rw [isBlank_eq_of_isPrintable hprint]
  exact beq_eq_false_iff_ne.mpr hspace

theorem isGap_of_isInLine {c : Char} (h : isInLine c = true) : Style.isGap c = (c == ' ') := by
  obtain ⟨hprint, hbreak⟩ := isInLine_iff.mp h
  have hnull : (c == '\x00') = false := beq_eq_false_iff_ne.mpr (ne_of_isPrintable hprint (by decide))
  rw [Style.isGap, isSpaceOrBreak, hbreak, hnull, isBlank_eq_of_isPrintable hprint, Bool.or_false,
    Bool.or_false]

theorem startsBlank_of_startsGap {s v : List Char} (hne : s ≠ []) (h : Style.startsGap s = false) :
    startsBlank (s ++ v) = false := by
  cases s with
  | nil => exact absurd rfl hne
  | cons c s => exact (Bool.or_eq_false_iff.mp h).1

theorem plainText_cons {gap : Gap} {c : Placed} {rest : Input} (hbreak : isBreak c.char = false)
    (hblank : isBlank c.char = false) (hends : endsPlain false margin gap c rest = false) :
    plainText false margin gap (c :: rest) =
      (plainText false margin .none rest).map fun (text, broken, rest) =>
        (gap.text ++ c.char :: text, broken, rest) := by
  rw [plainText, hbreak, hblank, hends]
  rfl

theorem endsPlain_blanks {cs : List Char} {c : Placed} {rest : Input}
    (hmark : Input.startsDocumentMark (c :: rest) = false)
    (hhash : c.char = '#' → cs = []) (hcolon : c.char = ':' → rest.atGap = false) :
    endsPlain false margin (.blanks cs) c rest = false := by
  have hhash' : (c.char == '#' && !(Gap.blanks cs).isNone) = false := by
    by_cases h : c.char = '#'
    · rw [hhash h]
      simp [Gap.isNone]
    · simp [h]
  have hcolon' : (c.char == ':' && rest.atGap) = false := by
    by_cases h : c.char = ':'
    · simp [hcolon h]
    · simp [h]
  rw [endsPlain, hmark, hhash', hcolon', Gap.isBroken]
  rfl

theorem plainText_space {cs : List Char} {p : Place} (v : List Char) :
    plainText false margin (.blanks cs) (ofChars p (' ' :: v)) =
      plainText false margin (.blanks (cs ++ [' '])) (ofChars (p.after ' ') v) := by
  rw [ofChars_cons (by decide), plainText]
  rfl

theorem plainText_inner {s cs : List Char} {afterGap : Bool} {p : Place} (v : List Char)
    (hline : ∀ c ∈ s, isInLine c = true) (hcolumn : p.column ≠ 0)
    (hinner : Style.innerIndicator afterGap s = false) (hgap : cs ≠ [] → afterGap = true)
    (hlast : Style.endsWith Style.isSpace s = false) (hnil : s = [] → cs = []) :
    plainText false margin (.blanks cs) (ofChars p (s ++ v)) =
      (plainText false margin .none (ofChars (p.past s) v)).map fun (text, broken, rest) =>
        (cs ++ s ++ text, broken, rest) := by
  induction s generalizing cs afterGap p with
  | nil =>
    cases hnil rfl
    exact Option.map_id'.symm
  | cons c s ih =>
    obtain ⟨hc, hs⟩ := List.forall_mem_cons.mp hline
    obtain ⟨hprint, hbreak⟩ := isInLine_iff.mp hc
    have hafter := Place.column_after_ne_zero hbreak p
    rw [Style.innerIndicator, Bool.or_eq_false_iff, Bool.or_eq_false_iff] at hinner
    obtain ⟨⟨hcolon, hhash⟩, hinner⟩ := hinner
    have hlast' : Style.endsWith Style.isSpace s = false := by
      cases s with
      | nil => rfl
      | cons d s => exact hlast
    rw [List.cons_append, Place.past_cons]
    by_cases hspace : c = ' '
    · subst hspace
      have hne : s ≠ [] := by
        rintro rfl
        exact absurd hlast (by decide)
      have hrest := @ih (cs ++ [' ']) _ _ hs hafter hinner (fun _ => by decide) hlast'
        fun h => absurd h hne
      rw [plainText_space, hrest]
      simp only [List.append_assoc, List.singleton_append]
    · have hblank := not_isBlank_of_ne hprint hspace
      -- No hash follows a gap and no colon stands before one, so the scalar goes on.
      have hends : endsPlain false margin (.blanks cs) ⟨c, p⟩ (ofChars (p.after c) (s ++ v)) = false := by
        refine endsPlain_blanks (Input.startsDocumentMark_of_column hcolumn _) ?_ ?_
        · rintro rfl
          refine Decidable.byContradiction fun hne => ?_
          rw [hgap hne] at hhash
          cases hhash
        · rintro rfl
          have hgaps : Style.startsGap s = false := by simpa using hcolon
          have hne : s ≠ [] := by
            rintro rfl
            cases hgaps
          rw [Input.atGap_ofChars]
          exact startsBlank_of_startsGap hne hgaps
      have hrest := @ih [] _ _ hs hafter hinner nofun hlast' fun _ => rfl
      rw [ofChars_cons (ne_of_isPrintable hprint (by decide)), plainText_cons hbreak hblank hends]
      change (plainText false margin (.blanks []) _).map _ = _
      rw [hrest, Option.map_map]
      simp [Function.comp_def, Gap.text]

theorem isInLine_of_plainAllowed {s : List Char} (h : Style.plainAllowed s = true) :
    ∀ c ∈ s, isInLine c = true := by
  simp only [Style.plainAllowed, Bool.not_eq_true', Bool.or_eq_false_iff, Style.isMultiline,
    Style.hasSpecial, List.any_eq_false] at h
  intro c hmem
  exact isInLine_iff.mpr ⟨by simpa using h.1.2 c hmem, by simpa using h.1.1.2 c hmem⟩

/-- Three equal characters are looked for in the scalar itself, and neither a colon nor a line
feed is one of them. -/
theorem startsMark_of_not_isPrefixOf {d m : Char} {s v : List Char} {p : Place}
    (hreturn : '\r' ∉ s) (hne : s ≠ []) (hd : d ≠ '\r') (hm : d ≠ m)
    (h : [m, m, m].isPrefixOf s = false) :
    Input.startsMark m (ofChars p (s ++ d :: v)) = false := by
  have hmark : ∀ a b c rest, (b.char ≠ m ∨ c.char ≠ m ∨ a.char ≠ m) →
      Input.startsMark m (a :: b :: c :: rest) = false := by
    intro a b c rest hchar
    rw [Input.startsMark]
    rcases hchar with hchar | hchar | hchar <;> simp [hchar]
  cases s with
  | nil => exact absurd rfl hne
  | cons a s =>
    cases s with
    | nil =>
      have ha : a ≠ '\r' := by simpa [eq_comm] using hreturn
      rw [List.singleton_append, ofChars_cons ha, ofChars_cons hd]
      cases ofChars ((p.after a).after d) v with
      | nil => rfl
      | cons c rest => exact hmark _ _ _ _ (.inl hm)
    | cons b s =>
      cases s with
      | nil =>
        have hab : a ≠ '\r' ∧ b ≠ '\r' := by simpa [eq_comm] using hreturn
        rw [List.cons_append, List.singleton_append, ofChars_cons hab.1, ofChars_cons hab.2,
          ofChars_cons hd]
        exact hmark _ _ _ _ (.inr (.inl hm))
      | cons c s =>
        have habc : a ≠ '\r' ∧ b ≠ '\r' ∧ c ≠ '\r' ∧ '\r' ∉ s := by
          simpa [eq_comm] using hreturn
        rw [List.cons_append, List.cons_append, List.cons_append, ofChars_cons habc.1,
          ofChars_cons habc.2.1, ofChars_cons habc.2.2.1]
        refine hmark _ _ _ _ ?_
        simp only [List.isPrefixOf, Bool.and_eq_false_iff, beq_eq_false_iff_ne] at h
        rcases h with h | h | h | h
        · exact .inr (.inr (Ne.symm h))
        · exact .inl (Ne.symm h)
        · exact .inr (.inl (Ne.symm h))
        · cases h

/-- With what a text that may be written plain starts: no indicator, no mark of a document, and
no mark of an entry, which has a gap after it. -/
theorem first_of_plainAllowed {c d : Char} {s : List Char} (p : Place) (v : List Char)
    (h : Style.plainAllowed (c :: s) = true) (hd : d = ':' ∨ d = '\n') :
    isInLine c = true ∧ isBlank c = false ∧ Style.isIndicator c = false ∧
      (∀ m, m = '-' ∨ m = '.' → Input.startsMark m (ofChars p (c :: s ++ d :: v)) = false) ∧
      (c = '-' ∨ c = '?' ∨ c = ':' → startsBlank (s ++ d :: v) = false) := by
  have hline := isInLine_of_plainAllowed h
  have hreturn : '\r' ∉ c :: s := fun hmem =>
    absurd (isInLine_iff.mp (hline _ hmem)).1 (by decide)
  have hprint := (isInLine_iff.mp (hline c List.mem_cons_self)).1
  simp only [Style.plainAllowed, Bool.not_eq_true', Bool.or_eq_false_iff, Style.hasIndicator] at h
  obtain ⟨⟨⟨⟨hfirst, -⟩, -⟩, -⟩, ⟨⟨⟨⟨hdash, hdot⟩, hmark⟩, hgap⟩, -⟩⟩ := h
  refine ⟨hline c List.mem_cons_self, ?_, hmark, ?_, ?_⟩
  · rw [isBlank_eq_of_isPrintable hprint]
    simpa [Style.startsWith, Style.isSpace] using hfirst
  · rintro m (rfl | rfl)
    · exact startsMark_of_not_isPrefixOf hreturn (List.cons_ne_nil _ _)
        (by rcases hd with rfl | rfl <;> decide) (by rcases hd with rfl | rfl <;> decide) hdash
    · exact startsMark_of_not_isPrefixOf hreturn (List.cons_ne_nil _ _)
        (by rcases hd with rfl | rfl <;> decide) (by rcases hd with rfl | rfl <;> decide) hdot
  · intro hchar
    have hgaps : Style.startsGap s = false := by
      rcases hchar with rfl | rfl | rfl <;> simpa using hgap
    refine startsBlank_of_startsGap ?_ hgaps
    rintro rfl
    cases hgaps

theorem plainText_of_plainAllowed {c d : Char} {s : List Char} {p : Place} (v : List Char)
    (h : Style.plainAllowed (c :: s) = true) (hd : d = ':' ∨ d = '\n') :
    plainText false margin .none (ofChars p (c :: s ++ d :: v)) =
      (plainText false margin .none (ofChars (p.past (c :: s)) (d :: v))).map
        fun (text, broken, rest) => (c :: s ++ text, broken, rest) := by
  obtain ⟨hc, hblank, -, hmark, hgap⟩ := first_of_plainAllowed p v h hd
  obtain ⟨-, hs⟩ := List.forall_mem_cons.mp (isInLine_of_plainAllowed h)
  obtain ⟨hprint, hbreak⟩ := isInLine_iff.mp hc
  have hdoc : Input.startsDocumentMark (ofChars p (c :: s ++ d :: v)) = false := by
    rw [Input.startsDocumentMark, hmark '-' (.inl rfl), hmark '.' (.inr rfl)]
    rfl
  simp only [Style.plainAllowed, Bool.not_eq_true', Bool.or_eq_false_iff, Style.hasIndicator] at h
  obtain ⟨⟨⟨⟨-, hlast⟩, -⟩, -⟩, ⟨-, hinner⟩⟩ := h
  have hlast' : Style.endsWith Style.isSpace s = false := by
    cases s with
    | nil => rfl
    | cons e s => exact hlast
  have hcolumn := Place.column_after_ne_zero hbreak p
  rw [List.cons_append, ofChars_cons (ne_of_isPrintable hprint (by decide))] at hdoc ⊢
  have hends : endsPlain false margin .none ⟨c, p⟩ (ofChars (p.after c) (s ++ d :: v)) = false :=
    endsPlain_blanks hdoc (fun _ => rfl) fun hcolon => by
      rw [Input.atGap_ofChars]
      exact hgap (.inr (.inr hcolon))
  have hscan := @plainText_inner margin s [] _ _ (d :: v) hs hcolumn hinner
    (fun hne => absurd rfl hne) hlast'
    fun _ => rfl
  rw [plainText_cons hbreak hblank hends]
  change (plainText false margin (.blanks []) _).map _ = _
  rw [hscan, Option.map_map]
  rfl

theorem plainText_colon {v : List Char} {p : Place} (hv : startsBlank v = true) :
    plainText false margin .none (ofChars p (':' :: v)) =
      some ([], false, ofChars p (':' :: v)) := by
  have hends : endsPlain false margin .none ⟨':', p⟩ (ofChars (p.after ':') v) = true := by
    rw [endsPlain, Input.atGap_ofChars, hv]
    simp
  rw [ofChars_cons (by decide), plainText, hends]
  rfl

theorem plainText_pad {others : List Char} {indent : Nat} {u : List Char} {p : Place} :
    plainText false margin (.breaks ['\n'] others) (ofChars p (pad indent ++ u)) =
      plainText false margin (.breaks ['\n'] others) (ofChars (p.past (pad indent)) u) := by
  induction indent generalizing p with
  | zero => rfl
  | succ indent ih =>
    rw [pad_succ, List.cons_append, ofChars_cons (by decide), Place.past_cons, ← ih, plainText]
    rfl

theorem plainText_lineEnd {indent : Nat} {u : List Char} {p : Place} (hu : Starts u)
    (hindent : u ≠ [] → indent < margin) :
    plainText false margin .none (ofChars p ('\n' :: (pad indent ++ u))) =
      some ([], true, ofChars ((p.after '\n').past (pad indent)) u) := by
  have hbreak : plainText false margin .none (ofChars p ('\n' :: (pad indent ++ u))) =
      plainText false margin (.breaks ['\n'] []) (ofChars (p.after '\n') (pad indent ++ u)) := by
    rw [ofChars_cons (by decide), plainText]
    rfl
  rw [hbreak, plainText_pad]
  cases u with
  | nil => rfl
  | cons c u =>
    obtain ⟨hblank, hbreak, -, -⟩ := startsWord_iff.mp (starts_cons.mp hu)
    have hreturn : c ≠ '\r' := by
      rintro rfl
      cases hbreak
    have hcolumn : ((p.after '\n').past (pad indent)).column < margin := by
      rw [Place.column_past_pad, Place.after_of_isBreak (by decide), Nat.zero_add]
      exact hindent (List.cons_ne_nil _ _)
    have hends : ∀ rest, endsPlain false margin (.breaks ['\n'] [])
        ⟨c, (p.after '\n').past (pad indent)⟩ rest = true := by
      intro rest
      simp [endsPlain, Gap.isBroken, hcolumn]
    rw [ofChars_cons hreturn, plainText, hbreak, hblank, hends]
    rfl

end EnvClient.Yaml.Token
