import EnvClient.Proofs.Yaml.Plain
import EnvClient.Yaml.Token.Block

/-! Literal blocks. The header that is written for a text makes the block read as that text,
whatever breaks stand at its start and at its end. -/
namespace EnvClient.Yaml.Token

open Input (ofChars ofChars_cons)

def chompOf : List Char → Chomp
  | ['-'] => .strip
  | ['+'] => .keep
  | _ => .clip

def hintOf (s : List Char) : Option Nat := if indentHint s = [] then none else some 2

theorem chompHint_cases (s : List Char) :
    chompHint s = ['-'] ∨ chompHint s = ['+'] ∨ chompHint s = [] := by
  unfold chompHint
  split
  · exact .inl rfl
  · split
    · exact .inr (.inl rfl)
    · exact .inl rfl
  · split
    · split
      · exact .inr (.inl rfl)
      · exact .inr (.inr rfl)
    · exact .inl rfl

theorem indentHint_cases (s : List Char) : indentHint s = ['2'] ∨ indentHint s = [] := by
  unfold indentHint
  split
  · exact .inl rfl
  · exact .inr rfl

theorem blockHints_written (s v : List Char) (p : Place) :
    blockHints (ofChars p (indentHint s ++ chompHint s ++ '\n' :: v)) =
      some (⟨chompOf (chompHint s), hintOf s⟩,
        ofChars (p.past (indentHint s ++ chompHint s)) ('\n' :: v)) := by
  rw [hintOf]
  rcases indentHint_cases s with hindent | hindent <;>
    rcases chompHint_cases s with hchomp | hchomp | hchomp <;>
    · rw [hindent, hchomp]
      simp only [List.nil_append, List.cons_append]
      iterate 3 try rw [ofChars_cons (by decide)]
      rfl

theorem endLine?_feed (p : Place) (v : List Char) :
    (ofChars p ('\n' :: v)).endLine? = some (ofChars (p.after '\n') v) := by
  rw [ofChars_cons (by decide)]
  rfl

theorem reach_pad {furthest indent : Nat} {p : Place} {v : List Char} :
    reach furthest (ofChars p (pad indent ++ v)) =
      reach (if indent = 0 then furthest else max furthest (p.column + indent))
        (ofChars (p.past (pad indent)) v) := by
  induction indent generalizing p furthest with
  | zero => rfl
  | succ indent ih =>
    rw [pad_succ, List.cons_append, ofChars_cons (by decide), reach, if_pos rfl, ih,
      Place.past_cons, Place.after_of_not_isBreak (by decide)]
    congr 1
    split <;> simp only [Nat.succ_ne_zero, if_false] <;> omega

theorem blockMargin_written {outer : Option Nat} {s : List Char} {p : Place} {v : List Char}
    (hprint : ∀ c ∈ s, isPrintable c = true) (hne : s ≠ []) (hcolumn : p.column = 0) :
    blockMargin outer (hintOf s) (ofChars p (literalBody (outer.getD 0 + 2) true s ++ v)) =
      some (outer.getD 0 + 2) := by
  unfold hintOf indentHint
  cases s with
  | nil => exact absurd rfl hne
  | cons c s =>
    have hc := hprint c List.mem_cons_self
    change blockMargin _ (if (if Style.isSpace c || isBreak c then _ else _) = [] then _ else _) _ = _
    by_cases hstart : (Style.isSpace c || isBreak c) = true
    · rw [if_pos hstart]
      rfl
    · rw [if_neg hstart]
      obtain ⟨hspace, hbreak⟩ := Bool.or_eq_false_iff.mp (Bool.eq_false_iff.mpr hstart)
      have hspace : c ≠ ' ' := by simpa [Style.isSpace] using hspace
      have htab := ne_of_isPrintable hc (d := '\t') (by decide)
      rw [literalBody, hbreak, if_neg Bool.false_ne_true, if_pos rfl, List.append_assoc,
        blockMargin.eq_def]
      simp only [if_true]
      rw [reach_pad, List.cons_append, ofChars_cons (ne_of_isPrintable hc (by decide)), reach]
      simp only [hspace, htab, hbreak, if_false, Bool.false_eq_true]
      cases outer <;> simp [hcolumn]

namespace BlockState

def pending (st : BlockState) : List Char := st.first ++ st.others

def next (st : BlockState) (c : Char) : BlockState :=
  if isBreak c then
    if st.inLine then ⟨[c], [], st.afterBlank, false⟩ else { st with others := st.others ++ [c] }
  else if st.inLine then st
  else ⟨[], [], isBlank c, true⟩

theorem inLine_next (st : BlockState) (c : Char) : (st.next c).inLine = !isBreak c := by
  unfold next
  cases hbreak : isBreak c <;> cases hline : st.inLine <;> simp [hline]

def Settled (st : BlockState) : Prop := st.inLine = true → st.pending = []

theorem Settled.next {st : BlockState} (h : st.Settled) (c : Char) : (st.next c).Settled := by
  unfold BlockState.next
  split
  · split
    · exact nofun
    · rename_i hline
      exact fun hmore => absurd hmore hline
  · split
    · exact h
    · exact fun _ => rfl

theorem pending_next {st : BlockState} (h : st.Settled) (c : Char) :
    (if isBreak c then [] else st.pending ++ [c]) ++ (st.next c).pending = st.pending ++ [c] := by
  unfold next
  cases hbreak : isBreak c with
  | true =>
    cases hline : st.inLine with
    | true => rw [h hline]; rfl
    | false => simp [pending]
  | false =>
    cases hline : st.inLine with
    | true => simp [h hline]
    | false => simp [pending]

end BlockState

variable {margin : Nat} {chomp : Chomp}

theorem breakChar_eq_self {c : Char} (hprint : isPrintable c = true) : breakChar c = c := by
  have hreturn := ne_of_isPrintable hprint (d := '\r') (by decide)
  have hnext := ne_of_isPrintable hprint (d := '\u0085') (by decide)
  by_cases hfeed : c = '\n'
  · rw [hfeed]
    rfl
  · rw [breakChar, if_neg (by simp [hreturn, hfeed, hnext])]

theorem blockText_pad {st : BlockState} {indent : Nat} {p : Place} {v : List Char}
    (hline : st.inLine = false) (hmargin : p.column + indent ≤ margin) :
    blockText false chomp margin st (ofChars p (pad indent ++ v)) =
      blockText false chomp margin st (ofChars (p.past (pad indent)) v) := by
  induction indent generalizing p with
  | zero => rfl
  | succ indent ih =>
    have hafter : (p.after ' ').column = p.column + 1 := by
      rw [Place.after_of_not_isBreak (by decide)]
    rw [pad_succ, List.cons_append, ofChars_cons (by decide), blockText, hline,
      if_neg Bool.false_ne_true, if_pos ⟨rfl, by simp only; omega⟩, Place.past_cons,
      ih (by omega)]

theorem blockText_char {st : BlockState} {c : Char} {p : Place} (v : List Char)
    (hprint : isPrintable c = true) (hsettled : st.Settled)
    (hplace : st.inLine = false → isBreak c = false → p.column = margin) :
    blockText false chomp margin st (ofChars p (c :: v)) =
      (blockText false chomp margin (st.next c) (ofChars (p.after c) v)).map fun (text, rest) =>
        ((if isBreak c then [] else st.pending ++ [c]) ++ text, rest) := by
  have htab := ne_of_isPrintable hprint (d := '\t') (by decide)
  have hspace : isBreak c = true → c ≠ ' ' := by
    rintro hbreak rfl
    cases hbreak
  rw [ofChars_cons (ne_of_isPrintable hprint (by decide)), blockText, BlockState.next,
    breakChar_eq_self hprint]
  cases hline : st.inLine with
  | true =>
    cases hbreak : isBreak c with
    | true => exact Option.map_id'.symm
    | false => simp [hsettled hline]
  | false =>
    cases hbreak : isBreak c with
    | true => simp [htab, hspace hbreak]
    | false => simp [htab, hplace hline hbreak, BlockState.join, BlockState.pending]

theorem blockText_body {s : List Char} {st : BlockState} {p : Place} (v : List Char)
    (hprint : ∀ c ∈ s, isPrintable c = true) (hsettled : st.Settled)
    (hcolumn : st.inLine = false → p.column = 0) :
    ∃ text, text ++ (s.foldl BlockState.next st).pending = st.pending ++ s ∧
      (s.foldl BlockState.next st).Settled ∧
      blockText false chomp margin st (ofChars p (literalBody margin (!st.inLine) s ++ v)) =
        (blockText false chomp margin (s.foldl BlockState.next st)
          (ofChars (p.past (literalBody margin (!st.inLine) s)) v)).map fun (t, rest) =>
            (text ++ t, rest) := by
  induction s generalizing st p with
  | nil => exact ⟨[], by simp, hsettled, Option.map_id'.symm⟩
  | cons c s ih =>
    obtain ⟨hc, hs⟩ := List.forall_mem_cons.mp hprint
    -- the indentation that stands before a character at the start of its line
    let lead := if !isBreak c && !st.inLine then pad margin else []
    have hbody : literalBody margin (!st.inLine) (c :: s) =
        lead ++ c :: literalBody margin (!(st.next c).inLine) s := by
      rw [literalBody, BlockState.inLine_next]
      cases hbreak : isBreak c <;> cases hline : st.inLine <;> simp [lead, hbreak, hline]
    have hlead : ∀ w, blockText false chomp margin st (ofChars p (lead ++ w)) =
        blockText false chomp margin st (ofChars (p.past lead) w) := by
      intro w
      by_cases h : (!isBreak c && !st.inLine) = true
      · simp only [lead, if_pos h]
        simp only [Bool.and_eq_true, Bool.not_eq_true'] at h
        exact blockText_pad h.2 (Nat.le_of_eq (by rw [hcolumn h.2, Nat.zero_add]))
      · simp only [lead, if_neg h]
        rfl
    have hplace : st.inLine = false → isBreak c = false → (p.past lead).column = margin := by
      intro hline hbreak
      simp only [lead, hline, hbreak, Bool.not_false, Bool.and_self, if_true]
      rw [Place.column_past_pad, hcolumn hline, Nat.zero_add]
    have hnext : (st.next c).inLine = false → ((p.past lead).after c).column = 0 := by
      rw [BlockState.inLine_next, Bool.not_eq_false']
      intro hbreak
      rw [Place.after_of_isBreak hbreak]
    obtain ⟨text, htext, hsettled', hscan⟩ :=
      @ih (st.next c) ((p.past lead).after c) hs (hsettled.next c) hnext
    refine ⟨(if isBreak c then [] else st.pending ++ [c]) ++ text, ?_, hsettled', ?_⟩
    · rw [List.foldl_cons, List.append_assoc, htext, ← List.append_assoc,
        BlockState.pending_next hsettled, List.append_assoc, List.singleton_append]
    · rw [hbody, List.append_assoc, hlead, List.cons_append,
        blockText_char _ hc hsettled hplace, hscan, Option.map_map, List.foldl_cons,
        Place.past_append, Place.past_cons]
      simp only [Function.comp_def, List.append_assoc]

theorem blockText_end {st : BlockState} {indent : Nat} {p : Place} {u : List Char}
    (hline : st.inLine = false) (hcolumn : p.column = 0) (hindent : indent < margin)
    (hu : Starts u) :
    blockText false chomp margin st (ofChars p (pad indent ++ u)) =
      some (st.close chomp, ofChars (p.past (pad indent)) u) := by
  have hplace : (p.past (pad indent)).column = indent := by
    rw [Place.column_past_pad, hcolumn, Nat.zero_add]
  rw [blockText_pad hline (by omega)]
  generalize p.past (pad indent) = q at hplace
  cases u with
  | nil => rfl
  | cons c u =>
    obtain ⟨hblank, hbreak, -, -⟩ := startsWord_iff.mp (starts_cons.mp hu)
    obtain ⟨hspace, htab⟩ : c ≠ ' ' ∧ c ≠ '\t' := by simpa [isBlank] using hblank
    have hreturn : c ≠ '\r' := by
      rintro rfl
      cases hbreak
    rw [ofChars_cons hreturn, blockText, hline]
    simp [hspace, htab, hbreak, show q.column ≠ margin by omega]

theorem endsWith_concat (p : Char → Bool) (s : List Char) (c : Char) :
    Style.endsWith p (s ++ [c]) = p c := by
  simp [Style.endsWith]

/-- The hint about breaks at the end has the block closed with just those that are pending. -/
theorem close_written {s : List Char} (hend : Style.endsWith isBreak s = true) :
    (s.foldl BlockState.next .start).inLine = false ∧
      (s.foldl BlockState.next .start).close (chompOf (chompHint s)) =
        (s.foldl BlockState.next .start).pending := by
  obtain rfl | ⟨s, c, rfl⟩ := s.eq_nil_or_concat
  · cases hend
  rw [List.concat_eq_append] at hend ⊢
  rw [endsWith_concat] at hend
  rw [List.foldl_append, List.foldl_cons, List.foldl_nil, BlockState.inLine_next, hend]
  refine ⟨rfl, ?_⟩
  obtain rfl | ⟨s, d, rfl⟩ := s.eq_nil_or_concat
  · have hhint : chompHint ([] ++ [c]) = ['+'] := by simp [chompHint, hend]
    rw [hhint]
    rfl
  · rw [List.concat_eq_append]
    cases hbreak : isBreak d with
    | true =>
      have hhint : chompHint (s ++ [d] ++ [c]) = ['+'] := by simp [chompHint, hend, hbreak]
      rw [hhint]
      rfl
    | false =>
      -- the last break ends a line of text, and is the only one that is pending
      have hhint : chompHint (s ++ [d] ++ [c]) = [] := by simp [chompHint, hend, hbreak]
      have hline : ((s ++ [d]).foldl BlockState.next .start).inLine = true := by
        rw [List.foldl_append, List.foldl_cons, List.foldl_nil, BlockState.inLine_next, hbreak]
        rfl
      rw [hhint, BlockState.next, if_pos hend, if_pos hline]
      rfl

theorem chompHint_of_not_endsWith {s : List Char} (hend : Style.endsWith isBreak s = false) :
    chompHint s = ['-'] := by
  obtain rfl | ⟨s, c, rfl⟩ := s.eq_nil_or_concat
  · rfl
  rw [List.concat_eq_append] at hend ⊢
  rw [endsWith_concat] at hend
  obtain rfl | ⟨s, d, rfl⟩ := s.eq_nil_or_concat <;> simp [chompHint, hend]

theorem column_literalBody {margin : Nat} {s : List Char} {p : Place}
    (hend : Style.endsWith isBreak s = true) (afterBreak : Bool) :
    (p.past (literalBody margin afterBreak s)).column = 0 := by
  induction s generalizing p afterBreak with
  | nil => cases hend
  | cons c s ih =>
    have hrest : ∀ (q : Place) (flag : Bool), flag = isBreak c →
        ((q.after c).past (literalBody margin flag s)).column = 0 := by
      rintro q flag rfl
      cases s with
      | nil =>
        have hbreak : isBreak c = true := hend
        rw [literalBody, Place.past_nil, Place.after_of_isBreak hbreak]
      | cons d s => exact ih hend _
    rw [literalBody]
    split
    · rename_i hbreak
      exact hrest _ _ hbreak.symm
    · rename_i hbreak
      rw [Place.past_append, Place.past_cons]
      exact hrest _ _ (Bool.eq_false_iff.mpr hbreak).symm

theorem inLine_of_not_endsWith {s : List Char} (hne : s ≠ [])
    (hend : Style.endsWith isBreak s = false) : (s.foldl BlockState.next .start).inLine = true := by
  obtain rfl | ⟨s, c, rfl⟩ := s.eq_nil_or_concat
  · exact absurd rfl hne
  · rw [List.concat_eq_append] at hend ⊢
    rw [endsWith_concat] at hend
    rw [List.foldl_append, List.foldl_cons, List.foldl_nil, BlockState.inLine_next, hend]
    rfl

theorem blockScalar_header {outer : Option Nat} {s : List Char} {p : Place}
    (hprint : ∀ c ∈ s, isPrintable c = true) (hne : s ≠ []) (w : List Char) :
    blockScalar false outer (ofChars p (indentHint s ++ chompHint s ++
        '\n' :: (literalBody (outer.getD 0 + 2) true s ++ w))) =
      blockText false (chompOf (chompHint s)) (outer.getD 0 + 2) .start
        (ofChars ((p.past (indentHint s ++ chompHint s)).after '\n')
          (literalBody (outer.getD 0 + 2) true s ++ w)) := by
  rw [blockScalar, blockHints_written]
  simp only [Option.bind_eq_bind, Option.bind_some, endLine?_feed]
  rw [blockMargin_written hprint hne (by rw [Place.after_of_isBreak (by decide)])]
  rfl

/-- A text without special characters is read back from the block that it is written as, and the
next word is not indented beyond the collection around the block. -/
theorem blockScalar_written {outer : Option Nat} {indent : Nat} {s u : List Char} {p : Place}
    (hprint : ∀ c ∈ s, isPrintable c = true) (hne : s ≠ []) (hu : Starts u)
    (hindent : indent ≤ outer.getD 0) :
    ∃ q : Place, q.column = indent ∧ p.line < q.line ∧
      blockScalar false outer (ofChars p (indentHint s ++ chompHint s ++
        '\n' :: (literalBody (outer.getD 0 + 2) true s ++
          ((if Style.endsWith isBreak s then [] else ['\n']) ++ (pad indent ++ u))))) =
        some (s, ofChars q u) := by
  let body := literalBody (outer.getD 0 + 2) true s
  let start := (p.past (indentHint s ++ chompHint s)).after '\n'
  have hstart : start.column = 0 := by
    simp only [start]
    rw [Place.after_of_isBreak (by decide)]
  have hline : p.line < start.line := by
    simp only [start]
    rw [Place.after_of_isBreak (by decide)]
    exact Nat.lt_succ_of_le (Place.line_le_past _ _)
  have hbody : ∀ w, ∃ text, text ++ (s.foldl BlockState.next .start).pending = s ∧
      (s.foldl BlockState.next .start).Settled ∧
      blockText false (chompOf (chompHint s)) (outer.getD 0 + 2) .start (ofChars start (body ++ w)) =
        (blockText false (chompOf (chompHint s)) (outer.getD 0 + 2) (s.foldl BlockState.next .start)
          (ofChars (start.past body) w)).map fun (t, rest) => (text ++ t, rest) :=
    fun w => blockText_body w hprint nofun fun _ => hstart
  rw [blockScalar_header hprint hne]
  cases hend : Style.endsWith isBreak s with
  | true =>
    obtain ⟨text, htext, -, hscan⟩ := hbody (pad indent ++ u)
    obtain ⟨hclosed, hclose⟩ := close_written hend
    have hcolumn : (start.past body).column = 0 := column_literalBody hend true
    refine ⟨(start.past body).past (pad indent), ?_, ?_, ?_⟩
    · rw [Place.column_past_pad, hcolumn, Nat.zero_add]
    · rw [Place.line_past_pad]
      exact Nat.lt_of_lt_of_le hline (Place.line_le_past _ _)
    · rw [if_pos rfl, List.nil_append, hscan, blockText_end hclosed hcolumn (by omega) hu, hclose]
      exact congrArg some (Prod.ext htext rfl)
  | false =>
    -- the line feed after the last line is no part of the text
    obtain ⟨text, htext, hsettled, hscan⟩ := hbody ('\n' :: (pad indent ++ u))
    have hopen := inLine_of_not_endsWith hne hend
    have hcolumn : ((start.past body).after '\n').column = 0 := by
      rw [Place.after_of_isBreak (by decide)]
    rw [hsettled hopen, List.append_nil] at htext
    refine ⟨((start.past body).after '\n').past (pad indent), ?_, ?_, ?_⟩
    · rw [Place.column_past_pad, hcolumn, Nat.zero_add]
    · rw [Place.line_past_pad]
      exact Nat.lt_of_lt_of_le hline
        (Nat.le_trans (Place.line_le_past _ _) (Place.line_le_after _ _))
    · rw [if_neg Bool.false_ne_true, List.singleton_append, hscan,
        blockText_char _ (by decide) hsettled fun hclosed => (by rw [hopen] at hclosed; cases hclosed),
        blockText_end (by rw [BlockState.inLine_next]; rfl) hcolumn (by omega) hu,
        chompHint_of_not_endsWith hend, htext]
      exact congrArg some (Prod.ext (List.append_nil s) rfl)

end EnvClient.Yaml.Token
