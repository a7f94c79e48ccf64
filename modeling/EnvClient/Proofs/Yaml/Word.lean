import EnvClient.Proofs.Yaml.Lexer
import EnvClient.Proofs.Yaml.Literal
import EnvClient.Proofs.Yaml.Quoted

/-! What the lexer makes of one word: the marks of entries, keys and values, and scalars in each of
their styles. -/
namespace EnvClient.Yaml.Lexer

open Input (ofChars ofChars_cons)

variable {p : Place} {u v : List Char} {tokens ts : List Token} {columns : List Nat}
  {start : Option KeyStart} {keyAllowed : Bool}

theorem startsMark_of_ne {m : Char} {c : Placed} (h : c.char ≠ m) (rest : Input) :
    Input.startsMark m (c :: rest) = false := by
  rcases rest with _ | ⟨a, _ | ⟨b, rest⟩⟩
  · rfl
  · rfl
  · simp [Input.startsMark, h]

theorem startsMark_of_snd_ne {m : Char} {c d : Placed} (h : d.char ≠ m) (rest : Input) :
    Input.startsMark m (c :: d :: rest) = false := by
  cases rest with
  | nil => rfl
  | cons b rest => simp [Input.startsMark, h]

theorem ne_of_isIndicator {c d : Char} (h : Style.isIndicator c = false)
    (hd : Style.isIndicator d = true) : c ≠ d := by
  rintro rfl
  rw [h] at hd
  cases hd

theorem isMark_eq (c : Char) :
    isMark c = (isBlank c || (c == '-' || c == '?' || c == ':') || Style.isIndicator c) := by
  have hmarks : "-?:,[]\x7b\x7d#&*!|>'\"%@`".toList =
      "-?:,".toList ++ "[]\x7b\x7d".toList ++ "#".toList ++ "&*!|>'\"%@`".toList := by decide
  have hindicators : "#,[]\x7b\x7d&*!|>'\"%@`".toList =
      "#,".toList ++ "[]\x7b\x7d".toList ++ "&*!|>'\"%@`".toList := by decide
  have hblock : c ∈ "-?:,".toList ↔ c = '-' ∨ c = '?' ∨ c = ':' ∨ c = ',' := by simp
  have hboth : c ∈ "#,".toList ↔ c = '#' ∨ c = ',' := by simp
  have hhash : c ∈ "#".toList ↔ c = '#' := by simp
  rw [isMark, Style.isIndicator, hmarks, hindicators, Bool.eq_iff_iff]
  simp only [Bool.or_eq_true, List.contains_iff_mem, List.mem_append, beq_iff_eq]
  rw [hblock, hboth, hhash]
  grind

theorem next_plainScalar {l : Lexer} {c : Placed} {rest : Input} (hflow : l.inFlow = false)
    (hindicator : Style.isIndicator c.char = false) (hblank : isBlank c.char = false)
    (hdash : Input.startsMark '-' (c :: rest) = false)
    (hdot : Input.startsMark '.' (c :: rest) = false)
    (hgap : c.char = '-' ∨ c.char = '?' ∨ c.char = ':' → rest.atGap = false) :
    l.next c rest = l.plainScalar c.place (c :: rest) := by
  have hne : ∀ d, Style.isIndicator d = true → c.char ≠ d := fun d => ne_of_isIndicator hindicator
  have hscalar : !isMark c.char ∨ c.char = '-' ∨ (!l.inFlow ∧ (c.char = '?' ∨ c.char = ':')) := by
    rw [isMark_eq, hindicator, hblank, hflow]
    by_cases h₁ : c.char = '-' <;> by_cases h₂ : c.char = '?' <;> by_cases h₃ : c.char = ':' <;>
      simp [*]
  have hentry : ¬(c.char = '-' ∧ rest.atGap = true) := by
    rintro ⟨h, hrest⟩
    rw [hgap (.inl h)] at hrest
    cases hrest
  have hkey : ¬(c.char = '?' ∧ (l.inFlow = true ∨ rest.atGap = true)) := by
    rintro ⟨h, hrest⟩
    rw [hgap (.inr (.inl h)), hflow] at hrest
    simp at hrest
  have hvalue : ¬(c.char = ':' ∧ (l.inFlow = true ∨ rest.atGap = true)) := by
    rintro ⟨h, hrest⟩
    rw [hgap (.inr (.inr h)), hflow] at hrest
    simp at hrest
  rw [next]
  simp only [hdash, hdot, hentry, hkey, hvalue, if_pos hscalar, hne '%' (by decide), hne '[' (by decide),
    hne '{' (by decide), hne ']' (by decide), hne '}' (by decide), hne ',' (by decide),
    hne '*' (by decide), hne '&' (by decide), hne '!' (by decide), hne '|' (by decide),
    hne '>' (by decide), hne '\'' (by decide), hne '"' (by decide), and_false, false_and, if_false,
    Bool.false_eq_true]

def startAt (keyAllowed : Bool) (p : Place) (tokens : List Token) (columns : List Nat) :
    Option KeyStart :=
  if keyAllowed then some ⟨tokens.length, columns.head? == some p.column, p⟩ else none

theorem saveStart_before (q : Place) :
    (before q u tokens columns none keyAllowed).saveStart p =
      some (before q u tokens columns (startAt keyAllowed p tokens columns) keyAllowed) := by
  cases keyAllowed <;> rfl

/-- The columns after an entry at a column, which opens a collection there if it has to. -/
def openColumns (columns : List Nat) (column : Nat) : List Nat :=
  if columns.head?.any (column ≤ ·) then columns else column :: columns

def openTokens (columns : List Nat) (column : Nat) (opening : Token) (tokens : List Token) :
    List Token :=
  if columns.head?.any (column ≤ ·) then tokens else opening :: tokens

theorem openColumns_self {column : Nat} (h : columns.head? = some column) :
    openColumns columns column = columns := by
  simp [openColumns, h]

theorem openTokens_self {column : Nat} {opening : Token} (h : columns.head? = some column) :
    openTokens columns column opening tokens = tokens := by
  simp [openTokens, h]

theorem openColumns_of_lt {column : Nat} (h : ∀ m ∈ columns.head?, m < column) :
    openColumns columns column = column :: columns := by
  cases columns with
  | nil => rfl
  | cons m columns => simp [openColumns, h m rfl]

theorem openTokens_of_lt {column : Nat} {opening : Token} (h : ∀ m ∈ columns.head?, m < column) :
    openTokens columns column opening tokens = opening :: tokens := by
  cases columns with
  | nil => rfl
  | cons m columns => simp [openTokens, h m rfl]

theorem head?_openColumns {column : Nat} (h : ∀ m ∈ columns.head?, m ≤ column) :
    (openColumns columns column).head? = some column := by
  rw [openColumns]
  split
  · rename_i hopen
    cases columns with
    | nil => cases hopen
    | cons m columns =>
      have hle : column ≤ m := by simpa using hopen
      exact congrArg some (Nat.le_antisymm (h m rfl) hle)
  · rfl

/-- An opening goes before the words of a key that is already there. -/
theorem indent_before {column : Nat} {opening : Token} (later : List Token) :
    (before p u (later ++ tokens) columns start keyAllowed).indent column tokens.length opening =
      before p u (later ++ openTokens columns column opening tokens) (openColumns columns column)
        start keyAllowed := by
  have hlater : (later ++ tokens).length - tokens.length = later.length := by simp
  rw [indent, openTokens, openColumns]
  change (if columns.head?.any (column ≤ ·) then _ else _) = _
  split
  · rfl
  · simp [insertAt, before]

theorem startsMark_of_atGap {m : Char} {rest : Input} (hm : isSpaceOrBreak m = false)
    (hgap : rest.atGap = true) (c : Placed) : Input.startsMark m (c :: rest) = false := by
  cases rest with
  | nil => rfl
  | cons d rest =>
    refine startsMark_of_snd_ne ?_ rest
    rintro rfl
    exact absurd (show isSpaceOrBreak d.char = true from hgap) (Bool.eq_false_iff.mp hm)

theorem opens_before {column : Nat} {opening : Token} :
    (before p u tokens columns none true).opens column opening =
      some (before p u (openTokens columns column opening tokens) (openColumns columns column)
        none true) :=
  congrArg some (indent_before [])

theorem next_entry (hgap : startsBlank u = true) :
    (before p ('-' :: u) tokens columns none true).next ⟨'-', p⟩ (ofChars (p.after '-') u) =
      some (before (p.after '-') u (.entry :: openTokens columns p.column .blockSequence tokens)
        (openColumns columns p.column) none true) := by
  have hrest : (ofChars (p.after '-') u).atGap = true := (Input.atGap_ofChars _ _).trans hgap
  have hdash := startsMark_of_atGap (m := '-') (by decide) hrest ⟨'-', p⟩
  have hdot := startsMark_of_atGap (m := '.') (by decide) hrest ⟨'-', p⟩
  rw [next]
  simp only [hdash, hdot, hrest, Char.reduceEq, and_false, and_true, if_false, if_true,
    Bool.false_eq_true]
  rw [Lexer.entry, opens_before]
  rfl

theorem next_key (hgap : startsBlank u = true) :
    (before p ('?' :: u) tokens columns none true).next ⟨'?', p⟩ (ofChars (p.after '?') u) =
      some (before (p.after '?') u (.key :: openTokens columns p.column .blockMapping tokens)
        (openColumns columns p.column) none true) := by
  have hrest : (ofChars (p.after '?') u).atGap = true := (Input.atGap_ofChars _ _).trans hgap
  have hdash := startsMark_of_atGap (m := '-') (by decide) hrest ⟨'?', p⟩
  have hdot := startsMark_of_atGap (m := '.') (by decide) hrest ⟨'?', p⟩
  rw [next]
  simp only [hdash, hdot, hrest, Char.reduceEq, and_false, and_true, false_and, or_true, if_false,
    if_true, Bool.false_eq_true]
  rw [Lexer.key, opens_before]
  rfl

theorem next_value (hgap : startsBlank u = true) :
    (before p (':' :: u) tokens columns start keyAllowed).next ⟨':', p⟩ (ofChars (p.after ':') u) =
      (before p (':' :: u) tokens columns start keyAllowed).value p (ofChars (p.after ':') u) := by
  have hrest : (ofChars (p.after ':') u).atGap = true := (Input.atGap_ofChars _ _).trans hgap
  have hdash := startsMark_of_atGap (m := '-') (by decide) hrest ⟨':', p⟩
  have hdot := startsMark_of_atGap (m := '.') (by decide) hrest ⟨':', p⟩
  rw [next]
  simp only [hdash, hdot, hrest, Char.reduceEq, and_false, and_true, false_and, or_true, if_false,
    if_true, Bool.false_eq_true]

theorem Yields.entry (hcolumns : ∀ m ∈ columns.head?, m ≤ p.column)
    (h : Yields (before ((p.after '-').after ' ') u
      (.entry :: openTokens columns p.column .blockSequence tokens) (openColumns columns p.column)
      none true) ts) :
    Yields (before p ('-' :: ' ' :: u) tokens columns none true) ts :=
  .word (show startsWord '-' = true by decide) hcolumns rfl
    (next_entry (show startsBlank (' ' :: u) = true from rfl)) (Nat.le_refl _) h.blank

theorem Yields.key (hcolumns : ∀ m ∈ columns.head?, m ≤ p.column)
    (h : Yields (before ((p.after '?').after ' ') u
      (.key :: openTokens columns p.column .blockMapping tokens) (openColumns columns p.column)
      none true) ts) :
    Yields (before p ('?' :: ' ' :: u) tokens columns none true) ts :=
  .word (show startsWord '?' = true by decide) hcolumns rfl
    (next_key (show startsBlank (' ' :: u) = true from rfl)) (Nat.le_refl _) h.blank

theorem Yields.value (hcolumns : columns.head? = some p.column)
    (h : Yields (before ((p.after ':').after ' ') u (.value :: tokens) columns none true) ts) :
    Yields (before p (':' :: ' ' :: u) tokens columns none true) ts := by
  refine .word (show startsWord ':' = true by decide) (fun m hm => ?_) rfl
    ((next_value (show startsBlank (' ' :: u) = true from rfl)).trans ?_) (Nat.le_refl _) h.blank
  · rw [hcolumns] at hm
    exact Nat.le_of_eq (Option.some.inj hm).symm
  · rw [Lexer.value]
    change ((before p _ tokens columns none true).opens p.column .blockMapping).bind _ = _
    rw [opens_before, openTokens_self hcolumns, openColumns_self hcolumns]
    rfl

/-- A value on the line of its key, for which the words of a key are put in front of it. -/
theorem Yields.inlineValue {word : Token} {k : KeyStart}
    (hcolumns : ∀ m ∈ columns.head?, m ≤ p.column) (hnumber : k.number = tokens.length)
    (hline : k.place.line = p.line) (hoffset : p.offset ≤ k.place.offset + 1024)
    (hgap : startsBlank u = true)
    (h : Yields (before (p.after ':') u
      (.value :: word :: .key :: openTokens columns k.place.column .blockMapping tokens)
      (openColumns columns k.place.column) none false) ts) :
    Yields (before p (':' :: u) (word :: tokens) columns (some k) keyAllowed) ts := by
  refine .word (show startsWord ':' = true by decide) hcolumns ?_
    ((next_value hgap).trans ?_) (Nat.le_refl _) h
  · have hfresh : isStale p k = false := by simp [isStale, hline, hoffset]
    rw [expireStart, hfresh]
    rfl
  · have hinsert : (before p (':' :: u) (word :: tokens) columns (some k) keyAllowed).insertAt
        k.number .key = before p (':' :: u) ([word, .key] ++ tokens) columns (some k) keyAllowed := by
      simp [insertAt, before, hnumber]
    rw [Lexer.value]
    change some _ = _
    rw [hinsert, hnumber, indent_before]
    rfl

theorem next_quoted {c : Char} {read : Input → Option (List Char × Input)} {s : List Char}
    {q : Place} (hread : read (ofChars (p.after c) u) = some (s, ofChars q v))
    (hnext : ∀ l : Lexer, ∀ rest, l.next ⟨c, p⟩ rest = l.properties p (quoted read) rest) :
    (before p (c :: u) tokens columns none keyAllowed).next ⟨c, p⟩ (ofChars (p.after c) u) =
      some (before q v (.scalar false (String.ofList s) :: tokens) columns
        (startAt keyAllowed p tokens columns) false) := by
  rw [hnext, Lexer.properties, saveStart_before]
  simp only [Option.bind_eq_bind, Option.bind_some, quoted, hread, Option.map_some]
  rfl

theorem next_single (l : Lexer) (rest : Input) :
    l.next ⟨'\'', p⟩ rest = l.properties p (quoted (Token.singleText .none)) rest := by
  have hdash := startsMark_of_ne (m := '-') (c := ⟨'\'', p⟩) (by simp) rest
  have hdot := startsMark_of_ne (m := '.') (c := ⟨'\'', p⟩) (by simp) rest
  rw [next]
  simp only [hdash, hdot, Char.reduceEq, and_false, false_and, if_false, if_true,
    Bool.false_eq_true]

theorem next_double (l : Lexer) (rest : Input) :
    l.next ⟨'"', p⟩ rest = l.properties p (quoted (Token.doubleText (.text .none))) rest := by
  have hdash := startsMark_of_ne (m := '-') (c := ⟨'"', p⟩) (by simp) rest
  have hdot := startsMark_of_ne (m := '.') (c := ⟨'"', p⟩) (by simp) rest
  rw [next]
  simp only [hdash, hdot, Char.reduceEq, and_false, false_and, if_false, if_true,
    Bool.false_eq_true]

theorem next_literal {s : List Char} {q : Place}
    (hread : Token.blockScalar false columns.head? (ofChars (p.after '|') u) =
      some (s, ofChars q v)) :
    (before p ('|' :: u) tokens columns none keyAllowed).next ⟨'|', p⟩ (ofChars (p.after '|') u) =
      some (before q v (.scalar false (String.ofList s) :: tokens) columns none true) := by
  have hdash := startsMark_of_ne (m := '-') (c := ⟨'|', p⟩) (by simp) (ofChars (p.after '|') u)
  have hdot := startsMark_of_ne (m := '.') (c := ⟨'|', p⟩) (by simp) (ofChars (p.after '|') u)
  have hflow : (before p ('|' :: u) tokens columns none keyAllowed).inFlow = false := rfl
  rw [next]
  simp only [hdash, hdot, hflow, Char.reduceEq, and_false, false_and, if_false, if_true,
    Bool.false_eq_true, Bool.not_false, and_self]
  rw [Lexer.blockScalar]
  change (Token.blockScalar false columns.head? (ofChars (p.after '|') u)).bind _ = _
  rw [hread]
  rfl

def plainMargin : List Nat → Nat
  | [] => 0
  | column :: _ => column + 1

theorem next_plain {c d : Char} {s : List Char} {broken : Bool} {q : Place}
    (h : Style.plainAllowed (c :: s) = true) (hd : d = ':' ∨ d = '\n')
    (hread : Token.plainText false (plainMargin columns) .none (ofChars (p.past (c :: s)) (d :: u)) =
      some ([], broken, ofChars q v)) :
    (before p (c :: s ++ d :: u) tokens columns none keyAllowed).next ⟨c, p⟩
        (ofChars (p.after c) (s ++ d :: u)) =
      some (before q v (.scalar true (String.ofList (c :: s)) :: tokens) columns
        (startAt keyAllowed p tokens columns) broken) := by
  obtain ⟨hc, hblank, hindicator, hmark, hgap⟩ := Token.first_of_plainAllowed p u h hd
  have hreturn := ne_of_isPrintable (Token.isInLine_iff.mp hc).1 (d := '\r') (by decide)
  have hwhole : ofChars p (c :: s ++ d :: u) = ⟨c, p⟩ :: ofChars (p.after c) (s ++ d :: u) :=
    ofChars_cons hreturn _ _
  rw [next_plainScalar rfl hindicator hblank (by rw [← hwhole]; exact hmark _ (.inl rfl))
    (by rw [← hwhole]; exact hmark _ (.inr rfl)) (fun hchar => by
      rw [Input.atGap_ofChars]
      exact hgap hchar)]
  rw [plainScalar, saveStart_before, ← hwhole]
  change (Token.plainText false (plainMargin columns) .none _).bind _ = _
  rw [Token.plainText_of_plainAllowed u h hd, hread, Option.map_some]
  simp only [List.append_nil]
  rfl

theorem mem_singleBody {indent : Nat} {afterBreak : Bool} {s : List Char} {d : Char}
    (h : d ∈ singleBody indent afterBreak s) : d ∈ s ∨ d = ' ' ∨ d = '\'' := by
  induction s generalizing afterBreak with
  | nil =>
    rw [singleBody] at h
    split at h
    · exact .inr (.inl (mem_pad h))
    · cases h
  | cons c s ih =>
    rw [singleBody] at h
    split at h
    · rcases List.mem_cons.mp h with rfl | h
      · exact .inl List.mem_cons_self
      · exact (ih h).imp_left (List.mem_cons_of_mem _)
    · rcases List.mem_append.mp h with h | h
      · rcases List.mem_append.mp h with h | h
        · split at h
          · exact .inr (.inl (mem_pad h))
          · cases h
        · split at h
          · exact .inr (.inr (by simpa using h))
          · rw [List.mem_singleton.mp h]
            exact .inl List.mem_cons_self
      · exact (ih h).imp_left (List.mem_cons_of_mem _)

theorem isPrintable_of_singleAllowed {s : List Char} (h : Style.singleAllowed s = true) :
    ∀ c ∈ s, isPrintable c = true := by
  simp only [Style.singleAllowed, Bool.not_eq_true', Bool.or_eq_false_iff, Style.hasSpecial,
    List.any_eq_false] at h
  exact fun c hmem => by simpa using h.2 c hmem

theorem isPrintable_of_mem_singleQuoted {indent : Nat} {s : List Char} {d : Char}
    (hs : Style.singleAllowed s = true) (h : d ∈ singleQuoted indent s) : isPrintable d = true := by
  rcases List.mem_cons.mp h with rfl | h
  · decide
  rcases List.mem_append.mp h with h | h
  · rcases mem_singleBody h with h | rfl | rfl
    · exact isPrintable_of_singleAllowed hs d h
    · decide
    · decide
  · rw [List.mem_singleton.mp h]
    decide

theorem Yields.quoted {c : Char} {body s : List Char} {read : Input → Option (List Char × Input)}
    (hc : startsWord c = true) (hcolumns : ∀ m ∈ columns.head?, m ≤ p.column)
    (hnext : ∀ l : Lexer, ∀ rest, l.next ⟨c, p⟩ rest = l.properties p (Lexer.quoted read) rest)
    (hread : read (ofChars (p.after c) (body ++ c :: v)) =
      some (s, ofChars (((p.after c).past body).after c) v))
    (hreturn : '\r' ∉ body ++ [c])
    (h : Yields (before (p.past (c :: (body ++ [c]))) v (.scalar false (String.ofList s) :: tokens)
      columns (startAt keyAllowed p tokens columns) false) ts) :
    Yields (before p (c :: (body ++ [c]) ++ v) tokens columns none keyAllowed) ts := by
  have hwhole : c :: (body ++ [c]) ++ v = c :: (body ++ c :: v) := by simp
  have hpast : ((p.after c).past body).after c = p.past (c :: (body ++ [c])) := by
    rw [Place.past_cons, Place.past_append]
    rfl
  rw [hpast] at hread
  rw [hwhole]
  refine .word hc hcolumns rfl (next_quoted hread hnext) ?_ h
  refine Nat.le_trans (length_ofChars_append_le hreturn (p.after c) _ v) (Nat.le_of_eq ?_)
  rw [List.append_assoc]
  rfl

theorem Yields.single {indent : Nat} {s : List Char} (hcolumns : ∀ m ∈ columns.head?, m ≤ p.column)
    (hs : Style.singleAllowed s = true) (hfeed : '\n' ∉ s)
    (hindent : Style.isMultiline s = true → indent ≠ 0)
    (hv : ∀ d ∈ v.head?, d ≠ '\'' ∧ d ≠ '\r')
    (h : Yields (before (p.past (singleQuoted indent s)) v (.scalar false (String.ofList s) :: tokens)
      columns (startAt keyAllowed p tokens columns) false) ts) :
    Yields (before p (singleQuoted indent s ++ v) tokens columns none keyAllowed) ts := by
  have hcolumn := Place.column_after_ne_zero (show isBreak '\'' = false by decide) p
  have hreturn : '\r' ∉ singleBody indent false s ++ ['\''] := fun hmem =>
    absurd (isPrintable_of_mem_singleQuoted hs (List.mem_cons_of_mem _ hmem)) (by decide)
  exact .quoted (by decide) hcolumns next_single
    (Token.singleText_of_singleAllowed hs hfeed hcolumn hindent hv) hreturn h

theorem isInLine_of_mem_doubleQuoted {s : List Char} {d : Char} (h : d ∈ doubleQuoted s) :
    Token.isInLine d = true := by
  rcases List.mem_cons.mp h with rfl | h
  · decide
  rcases List.mem_append.mp h with h | h
  · obtain ⟨c, -, hc⟩ := List.mem_flatMap.mp h
    exact Token.isInLine_of_mem_doubleChar hc
  · rw [List.mem_singleton.mp h]
    decide

theorem Yields.double {s : List Char} (hcolumns : ∀ m ∈ columns.head?, m ≤ p.column)
    (h : Yields (before (p.past (doubleQuoted s)) v (.scalar false (String.ofList s) :: tokens)
      columns (startAt keyAllowed p tokens columns) false) ts) :
    Yields (before p (doubleQuoted s ++ v) tokens columns none keyAllowed) ts := by
  have hcolumn := Place.column_after_ne_zero (show isBreak '"' = false by decide) p
  have hreturn : '\r' ∉ s.flatMap doubleChar ++ ['"'] := fun hmem =>
    absurd (isInLine_of_mem_doubleQuoted (List.mem_cons_of_mem _ hmem)) (by decide)
  exact .quoted (by decide) hcolumns next_double (@Token.doubleText_body s [] _ v hcolumn) hreturn h

/-- A text that ends its line in the collection at a column, with the indentation of the next word
after it; or in none, and then it is the last one. -/
structure EndsLine (columns : List Nat) (column indent : Nat) (p : Place) (u : List Char) : Prop where
  head : columns.head?.getD 0 = column
  inside : ∀ m ∈ columns.head?, m < p.column
  indented : indent ≤ column
  starts : Starts u
  last : columns = [] → u = []

variable {column indent : Nat}

theorem EndsLine.le (h : EndsLine columns column indent p u) : ∀ m ∈ columns.head?, m ≤ p.column :=
  fun m hm => Nat.le_of_lt (h.inside m hm)

theorem EndsLine.inCollection (hcolumns : columns.head? = some column) (hinside : column < p.column)
    (hindent : indent ≤ column) (hu : Starts u) : EndsLine columns column indent p u where
  head := by rw [hcolumns, Option.getD_some]
  inside m hm := by
    rw [hcolumns] at hm
    cases hm
    exact hinside
  indented := hindent
  starts := hu
  last hnil := by
    rw [hnil] at hcolumns
    cases hcolumns

theorem EndsLine.alone (p : Place) : EndsLine [] 0 0 p [] where
  head := rfl
  inside := nofun
  indented := Nat.le_refl 0
  starts := starts_nil
  last _ := rfl

theorem Yields.forgetAt {q : Place} (hend : EndsLine columns column indent p u)
    (hline : p.line < q.line) (later : List Token)
    (h : Yields (before q u (later ++ tokens) columns none keyAllowed) ts) {allowed : Bool} :
    Yields (before q u (later ++ tokens) columns (startAt allowed p tokens columns) keyAllowed) ts := by
  cases allowed with
  | false => exact h
  | true =>
    refine .forget hend.starts ?_ hline h
    exact beq_eq_false_iff_ne.mpr fun heq => absurd (hend.inside _ heq) (Nat.lt_irrefl _)

theorem Yields.lineEnd {q : Place} (hend : EndsLine columns column indent p u)
    (hline : p.line ≤ q.line) (later : List Token) {allowed : Bool}
    (h : ∀ r : Place, r.column = indent →
      Yields (before r u (later ++ tokens) columns none true) ts) :
    Yields (before q ('\n' :: (pad indent ++ u)) (later ++ tokens) columns
      (startAt allowed p tokens columns) false) ts := by
  refine .feed (.padding (.forgetAt hend ?_ later (h _ ?_)))
  · rw [Place.line_past_pad, Place.after_of_isBreak (by decide)]
    exact Nat.lt_succ_of_le hline
  · rw [Place.column_past_pad, Place.after_of_isBreak (by decide), Nat.zero_add]

theorem starts_of_plainAllowed {c : Char} {s : List Char} (h : Style.plainAllowed (c :: s) = true) :
    startsWord c = true := by
  obtain ⟨hc, hblank, hindicator, -⟩ := Token.first_of_plainAllowed .start [] h (.inl rfl)
  obtain ⟨hprint, hbreak⟩ := Token.isInLine_iff.mp hc
  exact startsWord_iff.mpr ⟨hblank, hbreak, ne_of_isIndicator hindicator (by decide),
    ne_of_isPrintable hprint (by decide)⟩

theorem Yields.plainLine {s : List Char} (hend : EndsLine columns column indent p u)
    (hne : s ≠ []) (hs : Style.plainAllowed s = true)
    (h : ∀ q : Place, q.column = indent →
      Yields (before q u (.scalar true (String.ofList s) :: tokens) columns none true) ts) :
    Yields (before p (s ++ '\n' :: (pad indent ++ u)) tokens columns none keyAllowed) ts := by
  cases s with
  | nil => exact absurd rfl hne
  | cons c s =>
    have hmargin : u ≠ [] → indent < plainMargin columns := by
      intro hu
      cases hcolumns : columns with
      | nil => exact absurd (hend.last hcolumns) hu
      | cons m rest =>
        have hindent := hend.indented
        rw [← hend.head, hcolumns] at hindent
        exact Nat.lt_succ_of_le hindent
    have hread := @Token.plainText_lineEnd (plainMargin columns) indent u (p.past (c :: s))
      hend.starts hmargin
    have hreturn : '\r' ∉ s ++ '\n' :: pad indent := by
      intro hmem
      have hprint := (Token.isInLine_iff.mp (Token.isInLine_of_plainAllowed hs '\r'
        (List.mem_cons_of_mem _ ((List.mem_append.mp hmem).resolve_right ?_)))).1
      · exact absurd hprint (by decide)
      · intro hpad
        rcases List.mem_cons.mp hpad with heq | hpad
        · exact absurd heq (by decide)
        · exact absurd (mem_pad hpad) (by decide)
    have hrest : s ++ '\n' :: (pad indent ++ u) = (s ++ '\n' :: pad indent) ++ u := by simp
    refine .word (starts_of_plainAllowed hs) (hend.le) rfl (next_plain hs (.inr rfl) hread) ?_ ?_
    · refine Nat.le_trans (length_ofChars_append_le hreturn (p.after c) _ u) (Nat.le_of_eq ?_)
      rw [← hrest]
      rfl
    · refine .forgetAt hend ?_ [_] (h _ ?_)
      · rw [Place.line_past_pad, Place.after_of_isBreak (by decide)]
        exact Nat.lt_succ_of_le (Place.line_le_past _ _)
      · rw [Place.column_past_pad, Place.after_of_isBreak (by decide), Nat.zero_add]

end EnvClient.Yaml.Lexer
