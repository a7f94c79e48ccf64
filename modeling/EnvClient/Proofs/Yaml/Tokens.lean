import EnvClient.Proofs.Yaml.Number
import EnvClient.Proofs.Yaml.Text

/-! The words of a printed value. A value is printed as lines, and the lexer finds on them the words
of the value and nothing else, whatever follows on the next line. -/
namespace EnvClient.Yaml.Lexer

open Input (ofChars ofChars_cons)

variable {p : Place} {u v : List Char} {tokens ts : List Token} {columns : List Nat}
  {keyAllowed : Bool} {column indent : Nat}

inductive FlowPair : (first last : Char) → (opening closing : Token) → Prop where
  | sequence : FlowPair '[' ']' .flowSequence .flowSequenceEnd
  | mapping : FlowPair '{' '}' .flowMapping .flowMappingEnd

theorem next_opening {first last : Char} {opening closing : Token} {rest : Input}
    (hpair : FlowPair first last opening closing) (l : Lexer) :
    l.next ⟨first, p⟩ rest = l.openFlow opening p rest := by
  cases hpair <;>
  · rw [next, startsMark_of_ne (m := '-') (by simp), startsMark_of_ne (m := '.') (by simp)]
    simp only [Char.reduceEq, and_false, if_false, if_true, Bool.false_eq_true]

theorem next_closing {first last : Char} {opening closing : Token} {rest : Input}
    (hpair : FlowPair first last opening closing) (l : Lexer) :
    l.next ⟨last, p⟩ rest = l.closeFlow closing rest := by
  cases hpair <;>
  · rw [next, startsMark_of_ne (m := '-') (by simp), startsMark_of_ne (m := '.') (by simp)]
    simp only [Char.reduceEq, and_false, if_false, if_true, Bool.false_eq_true]

/-- The end of a flow collection without entries, at which a key may still have started before it. -/
theorem Yields.flowEnd {first last : Char} {opening closing : Token} {start : Option KeyStart}
    (hpair : FlowPair first last opening closing) (hstart : expireStart p start = some start)
    (h : Yields (before (p.after last) u (closing :: tokens) columns start false) ts) :
    Yields ⟨ofChars p (last :: u), tokens, columns, none, [start], true⟩ ts := by
  intro fuel hfuel
  cases fuel with
  | zero => cases hfuel
  | succ fuel =>
    have hreturn : last ≠ '\r' := by cases hpair <;> decide
    have hrest := ofChars_cons hreturn p u
    have hskip : skip ⟨ofChars p (last :: u), tokens, columns, none, [start], true⟩ =
        ⟨ofChars p (last :: u), tokens, columns, none, [start], true⟩ := by
      rw [hrest, skip]
      cases hpair <;> rfl
    have hexpire : expire p ⟨ofChars p (last :: u), tokens, columns, none, [start], true⟩ =
        some ⟨ofChars p (last :: u), tokens, columns, none, [start], true⟩ := by
      have hnone : expireStart p none = some none := rfl
      simp [expire, hnone, hstart]
    rw [run, hskip]
    simp only [hrest, List.length_cons] at hfuel hexpire ⊢
    simp only [hexpire, Option.bind_eq_bind, Option.bind_some, next_closing hpair]
    exact h fuel (by simpa [before] using hfuel)

theorem Yields.flowLine {first last : Char} {opening closing : Token}
    (hpair : FlowPair first last opening closing) (hend : EndsLine columns column indent p u)
    (h : ∀ q : Place, q.column = indent →
      Yields (before q u (closing :: opening :: tokens) columns none true) ts) :
    Yields (before p (first :: last :: '\n' :: (pad indent ++ u)) tokens columns none keyAllowed) ts := by
  have hfirst : startsWord first = true ∧ isBreak first = false := by cases hpair <;> decide
  have hfresh : expireStart (p.after first) (startAt keyAllowed p tokens columns) =
      some (startAt keyAllowed p tokens columns) := by
    cases keyAllowed with
    | false => rfl
    | true =>
      have hstale : isStale (p.after first) ⟨tokens.length, columns.head? == some p.column, p⟩ =
          false := by
        have hsize := Char.utf8Size_le_four first
        rw [Place.after_of_not_isBreak hfirst.2]
        simp only [isStale, Nat.lt_irrefl, decide_false, Bool.false_or, decide_eq_false_iff_not]
        omega
      rw [startAt, if_pos rfl, expireStart, hstale]
      rfl
  refine .word hfirst.1 hend.le rfl ((next_opening hpair _).trans ?_) (Nat.le_refl _)
    (.flowEnd hpair hfresh (.lineEnd hend ?_ [closing, opening] h))
  · rw [openFlow, saveStart_before]
    rfl
  · exact Nat.le_trans (Place.line_le_after _ _) (Place.line_le_after _ _)

mutual
/-- The words of a value, which stands beside a key on its line or beside the mark of an entry. A
sequence beside a key is no collection of its own for the lexer. -/
def words (beside : Bool) : Json → List Token
  | .null => [.scalar true "null"]
  | .bool value => [.scalar true (if value then "true" else "false")]
  | .number n => [.scalar true (String.ofList (numberChars n))]
  | .string s => [textWord false s]
  | .array [] => [.flowSequence, .flowSequenceEnd]
  | .object [] => [.flowMapping, .flowMappingEnd]
  | .array (item :: rest) =>
    if beside then itemWords (item :: rest)
    else .blockSequence :: (itemWords (item :: rest) ++ [.blockEnd])
  | .object (member :: rest) => .blockMapping :: (memberWords (member :: rest) ++ [.blockEnd])
def itemWords : List Json → List Token
  | [] => []
  | item :: rest => .entry :: (words false item ++ itemWords rest)
def memberWords : List (String × Json) → List Token
  | [] => []
  | (name, value) :: rest =>
    .key :: textWord (Style.isInlineKey name) name :: .value ::
      (words (Style.isInlineKey name) value ++ memberWords rest)
end

theorem Yields.keyword (text : String) (hne : text.toList ≠ [])
    (hplain : Style.plainAllowed text.toList = true) (hend : EndsLine columns column indent p u)
    (h : ∀ q : Place, q.column = indent →
      Yields (before q u (.scalar true text :: tokens) columns none true) ts) :
    Yields (before p (text.toList ++ ['\n'] ++ (pad indent ++ u)) tokens columns none keyAllowed)
      ts := by
  rw [List.append_assoc]
  refine .plainLine hend hne hplain fun q hq => ?_
  rw [String.ofList_toList]
  exact h q hq

theorem Yields.leafLine {j : Json} {line : List Char} {beside : Bool}
    (hline : Yaml.leafLine (column + 2) j = some line)
    (hend : EndsLine columns column indent p u)
    (h : ∀ q : Place, q.column = indent →
      Yields (before q u ((words beside j).reverse ++ tokens) columns none true) ts) :
    Yields (before p (line ++ (pad indent ++ u)) tokens columns none keyAllowed) ts := by
  cases j with
  | null =>
    cases hline
    exact .keyword "null" (by decide) (by decide) hend h
  | bool value =>
    cases hline
    cases value with
    | true => exact .keyword "true" (by decide) (by decide) hend h
    | false => exact .keyword "false" (by decide) (by decide) hend h
  | number n =>
    cases hline
    have hn := isNumeral_numberChars n
    rw [List.append_assoc]
    exact .plainLine hend hn.ne_nil hn.plainAllowed h
  | string s =>
    cases hline
    exact .textLine hend h
  | array items =>
    cases items with
    | nil =>
      cases hline
      exact .flowLine .sequence hend h
    | cons item rest => cases hline
  | object members =>
    cases members with
    | nil =>
      cases hline
      exact .flowLine .mapping hend h
    | cons member rest => cases hline

theorem blockItems_false (item : Json) (rest : List Json) :
    blockItems column false (item :: rest) = pad column ++ blockItems column true (item :: rest) := by
  simp [blockItems]

theorem blockItems_true (item : Json) (rest : List Json) :
    blockItems column true (item :: rest) =
      '-' :: ' ' :: (besideMark column item ++ blockItems column false rest) := by
  simp [blockItems]

theorem blockMembers_false (member : String × Json) (rest : List (String × Json)) :
    blockMembers column false (member :: rest) =
      pad column ++ blockMembers column true (member :: rest) := by
  simp [blockMembers]

def memberLines (column : Nat) (name : String) (value : Json) : List Char :=
  if Style.isInlineKey name then inlineKey name ++ ':' :: besideKey column value
  else '?' :: ' ' :: (textLine (column + 2) name ++ (pad column ++
    ':' :: ' ' :: besideMark column value))

theorem blockMembers_true (name : String) (value : Json) (rest : List (String × Json)) :
    blockMembers column true ((name, value) :: rest) =
      memberLines column name value ++ blockMembers column false rest := by
  simp [blockMembers, memberLines]

theorem startsBlank_besideKey (j : Json) (v : List Char) :
    startsBlank (besideKey column j ++ v) = true := by
  unfold besideKey
  split <;> rfl

theorem column_after_mark {c : Char} (hc : isBreak c = false) (p : Place) :
    ((p.after c).after ' ').column = p.column + 2 := by
  rw [Place.after_of_not_isBreak (show isBreak ' ' = false by decide), Place.after_of_not_isBreak hc]

theorem EndsLine.ofMark {c : Char} {q : Place} (hc : isBreak c = false)
    (hcolumns : columns.head? = some column) (hq : q.column = column) (hindent : indent ≤ column)
    (hu : Starts u) : EndsLine columns column indent ((q.after c).after ' ') u :=
  .inCollection hcolumns (by rw [column_after_mark hc, hq]; omega) hindent hu

theorem EndsLine.blank (h : EndsLine columns column indent p u) :
    EndsLine columns column indent (p.after ' ') u where
  head := h.head
  inside m hm := by
    rw [Place.after_of_not_isBreak (by decide)]
    exact Nat.lt_succ_of_lt (h.inside m hm)
  indented := h.indented
  starts := h.starts
  last := h.last

theorem EndsLine.lt (h : EndsLine columns column indent p u) :
    ∀ m ∈ columns.head?, m < column + 2 := by
  intro m hm
  have hhead := h.head
  rw [show columns.head? = some m from hm, Option.getD_some] at hhead
  omega

theorem Yields.nextLine (h : ∀ q : Place, q.column = indent →
      Yields (before q u tokens columns none true) ts) :
    Yields (before p ('\n' :: (pad indent ++ u)) tokens columns none keyAllowed) ts := by
  refine .feed (.padding (h _ ?_))
  rw [Place.column_past_pad, Place.after_of_isBreak (by decide), Nat.zero_add]

theorem starts_blockItems (item : Json) (rest : List Json) (v : List Char) :
    Starts (blockItems column true (item :: rest) ++ v) := by
  rw [blockItems_true]
  exact starts_cons.mpr (by decide)

theorem starts_inlineKey {name : String} (v : List Char) : Starts (inlineKey name ++ ':' :: v) := by
  obtain ⟨hallows, hliteral⟩ := Style.allows_choose true name.toList
  rw [inlineKey]
  generalize Style.choose true name.toList = style at hallows hliteral
  cases style with
  | plain =>
    obtain ⟨hne, hplain, -⟩ := hallows
    rw [styled]
    cases hchars : name.toList with
    | nil => exact absurd hchars hne
    | cons c s =>
      rw [hchars] at hplain
      exact starts_cons.mpr (starts_of_plainAllowed hplain)
  | single => exact starts_cons.mpr (by decide)
  | double => exact starts_cons.mpr (by decide)
  | literal => exact absurd rfl (hliteral rfl)

theorem starts_memberLines (name : String) (value : Json) (v : List Char) :
    Starts (memberLines column name value ++ v) := by
  rw [memberLines]
  split
  · rw [List.append_assoc]
    exact starts_inlineKey _
  · exact starts_cons.mpr (by decide)

theorem Yields.member {name : String} {value : Json}
    (hkey : ∀ {p : Place} {tokens : List Token}, (openColumns columns column).head? = some column →
      EndsLine (openColumns columns column) column indent p u →
      (∀ q : Place, q.column = indent →
        Yields (before q u ((words true value).reverse ++ tokens) (openColumns columns column) none
          true) ts) →
      Yields (before p (Yaml.besideKey column value ++ (pad indent ++ u)) tokens
        (openColumns columns column) none false) ts)
    (hmark : ∀ {p : Place} {tokens : List Token},
      EndsLine (openColumns columns column) column indent p u → p.column = column + 2 →
      (∀ q : Place, q.column = indent →
        Yields (before q u ((words false value).reverse ++ tokens) (openColumns columns column) none
          true) ts) →
      Yields (before p (Yaml.besideMark column value ++ (pad indent ++ u)) tokens
        (openColumns columns column) none true) ts)
    (hplace : p.column = column) (hcolumns : ∀ m ∈ columns.head?, m ≤ column)
    (hindent : indent ≤ column) (hu : Starts u)
    (h : ∀ q : Place, q.column = indent →
      Yields (before q u ((words (Style.isInlineKey name) value).reverse ++ (.value ::
        textWord (Style.isInlineKey name) name :: .key ::
          openTokens columns column .blockMapping tokens)) (openColumns columns column) none true) ts) :
    Yields (before p (memberLines column name value ++ (pad indent ++ u)) tokens columns none true)
      ts := by
  have hopen := head?_openColumns hcolumns
  subst hplace
  rw [memberLines]
  cases hname : Style.isInlineKey name with
  | true =>
    rw [hname] at h
    rw [if_pos rfl, List.append_assoc, List.cons_append]
    exact .inlineKey hname hcolumns (startsBlank_besideKey value _) fun q hq =>
      hkey hopen (.inCollection hopen hq hindent hu) h
  | false =>
    rw [hname] at h
    rw [if_neg Bool.false_ne_true, List.cons_append, List.cons_append, List.append_assoc,
      List.append_assoc, List.cons_append, List.cons_append]
    refine .key hcolumns (.textLine (.ofMark (by decide) hopen rfl (Nat.le_refl _)
      (starts_cons.mpr (by decide))) fun q hq => ?_)
    refine .value (hopen.trans (congrArg some hq.symm)) ?_
    exact hmark (.ofMark (by decide) hopen hq hindent hu)
      ((column_after_mark (by decide) q).trans (congrArg (· + 2) hq)) h

theorem Yields.closed {q : Place} {opening : Token} {ws : List Token}
    (hcolumns : ∀ m ∈ columns.head?, m < column) (hu : Starts u) (hq : q.column < column)
    (h : Yields (before q u ((opening :: (ws ++ [.blockEnd])).reverse ++ tokens) columns none true) ts) :
    Yields (before q u (ws.reverse ++ openTokens columns column opening tokens)
      (openColumns columns column) none true) ts := by
  rw [openColumns_of_lt hcolumns, openTokens_of_lt hcolumns]
  exact .close hu (fun _ => hq) (by simpa using h)

mutual
theorem Yields.besideMark : (j : Json) → ∀ {p : Place} {u : List Char} {tokens ts : List Token}
    {columns : List Nat} {column indent : Nat}, EndsLine columns column indent p u →
    p.column = column + 2 →
    (∀ q : Place, q.column = indent →
      Yields (before q u ((words false j).reverse ++ tokens) columns none true) ts) →
    Yields (before p (Yaml.besideMark column j ++ (pad indent ++ u)) tokens columns none true) ts
  | .array (item :: rest), p, u, tokens, ts, columns, column, indent => by
    intro hend hplace h
    have hlt := hend.lt
    have hindent := hend.indented
    have hchars : Yaml.besideMark column (.array (item :: rest)) =
        blockItems (column + 2) true (item :: rest) := by
      rw [blockItems_true, Yaml.besideMark]
      simp
    rw [hchars]
    exact Yields.items (item :: rest) (List.cons_ne_nil _ _) hplace
      (fun m hm => Nat.le_of_lt (hlt m hm)) (by omega) hend.starts
      fun q hq => .closed hlt hend.starts (by omega) (h q hq)
  | .object ((name, value) :: rest), p, u, tokens, ts, columns, column, indent => by
    intro hend hplace h
    have hlt := hend.lt
    have hindent := hend.indented
    rw [Yaml.besideMark]
    exact Yields.members ((name, value) :: rest) (List.cons_ne_nil _ _) hplace
      (fun m hm => Nat.le_of_lt (hlt m hm)) (by omega) hend.starts
      fun q hq => .closed hlt hend.starts (by omega) (h q hq)
  | .null, _, _, _, _, _, _, _ => fun hend _ h => .leafLine rfl hend h
  | .bool _, _, _, _, _, _, _, _ => fun hend _ h => .leafLine rfl hend h
  | .number _, _, _, _, _, _, _, _ => fun hend _ h => .leafLine rfl hend h
  | .string _, _, _, _, _, _, _, _ => fun hend _ h => .leafLine rfl hend h
  | .array [], _, _, _, _, _, _, _ => fun hend _ h => .leafLine rfl hend h
  | .object [], _, _, _, _, _, _, _ => fun hend _ h => .leafLine rfl hend h
theorem Yields.besideKey : (j : Json) → ∀ {p : Place} {u : List Char} {tokens ts : List Token}
    {columns : List Nat} {column indent : Nat}, columns.head? = some column →
    EndsLine columns column indent p u →
    (∀ q : Place, q.column = indent →
      Yields (before q u ((words true j).reverse ++ tokens) columns none true) ts) →
    Yields (before p (Yaml.besideKey column j ++ (pad indent ++ u)) tokens columns none false) ts
  | .array (item :: rest), p, u, tokens, ts, columns, column, indent => by
    intro hself hend h
    have hindent := hend.indented
    rw [Yaml.besideKey, blockItems_false, List.cons_append, List.append_assoc]
    refine .nextLine fun q hq => ?_
    refine Yields.items (item :: rest) (List.cons_ne_nil _ _) hq
      (fun m hm => Nat.le_of_eq (by rw [hself] at hm; exact (Option.some.inj hm).symm)) hindent
      hend.starts fun r hr => ?_
    rw [openTokens_self hself, openColumns_self hself]
    exact h r hr
  | .object ((name, value) :: rest), p, u, tokens, ts, columns, column, indent => by
    intro _ hend h
    have hlt := hend.lt
    have hindent := hend.indented
    rw [Yaml.besideKey, blockMembers_false, List.cons_append, List.append_assoc]
    refine .nextLine fun q hq => ?_
    exact Yields.members ((name, value) :: rest) (List.cons_ne_nil _ _) hq
      (fun m hm => Nat.le_of_lt (hlt m hm)) (by omega) hend.starts
      fun r hr => .closed hlt hend.starts (by omega) (h r hr)
  | .null, _, _, _, _, _, _, _ => fun _ hend h => .blank (.leafLine rfl hend.blank h)
  | .bool _, _, _, _, _, _, _, _ => fun _ hend h => .blank (.leafLine rfl hend.blank h)
  | .number _, _, _, _, _, _, _, _ => fun _ hend h => .blank (.leafLine rfl hend.blank h)
  | .string _, _, _, _, _, _, _, _ => fun _ hend h => .blank (.leafLine rfl hend.blank h)
  | .array [], _, _, _, _, _, _, _ => fun _ hend h => .blank (.leafLine rfl hend.blank h)
  | .object [], _, _, _, _, _, _, _ => fun _ hend h => .blank (.leafLine rfl hend.blank h)
theorem Yields.items : (items : List Json) → items ≠ [] → ∀ {p : Place} {u : List Char}
    {tokens ts : List Token} {columns : List Nat} {column indent : Nat}, p.column = column →
    (∀ m ∈ columns.head?, m ≤ column) → indent ≤ column → Starts u →
    (∀ q : Place, q.column = indent →
      Yields (before q u ((itemWords items).reverse ++
        openTokens columns column .blockSequence tokens) (openColumns columns column) none true) ts) →
    Yields (before p (blockItems column true items ++ (pad indent ++ u)) tokens columns none true) ts
  | [], hne, _, _, _, _, _, _, _ => absurd rfl hne
  | [item], _, p, u, tokens, ts, columns, column, indent => by
    intro hplace hcolumns hindent hu h
    have hopen := head?_openColumns hcolumns
    subst hplace
    rw [blockItems_true, blockItems, List.append_nil]
    exact .entry hcolumns (Yields.besideMark item (.ofMark (by decide) hopen rfl hindent hu)
      (column_after_mark (by decide) p) fun q hq => by simpa [itemWords] using h q hq)
  | item :: next :: rest, _, p, u, tokens, ts, columns, column, indent => by
    intro hplace hcolumns hindent hu h
    have hopen := head?_openColumns hcolumns
    subst hplace
    rw [blockItems_true, blockItems_false, List.cons_append, List.cons_append, List.append_assoc,
      List.append_assoc]
    refine .entry hcolumns (Yields.besideMark item (.ofMark (by decide) hopen rfl (Nat.le_refl _)
      (starts_blockItems next rest _)) (column_after_mark (by decide) p) fun q hq => ?_)
    refine Yields.items (next :: rest) (List.cons_ne_nil _ _) hq (fun m hm => ?_) hindent hu
      fun r hr => ?_
    · rw [hopen] at hm
      exact Nat.le_of_eq (Option.some.inj hm).symm
    · rw [openTokens_self hopen, openColumns_self hopen]
      simpa [itemWords] using h r hr
theorem Yields.members : (members : List (String × Json)) → members ≠ [] → ∀ {p : Place}
    {u : List Char} {tokens ts : List Token} {columns : List Nat} {column indent : Nat},
    p.column = column →
    (∀ m ∈ columns.head?, m ≤ column) → indent ≤ column → Starts u →
    (∀ q : Place, q.column = indent →
      Yields (before q u ((memberWords members).reverse ++
        openTokens columns column .blockMapping tokens) (openColumns columns column) none true) ts) →
    Yields (before p (blockMembers column true members ++ (pad indent ++ u)) tokens columns none
      true) ts
  | [], hne, _, _, _, _, _, _, _ => absurd rfl hne
  | [(name, value)], _, p, u, tokens, ts, columns, column, indent => by
    intro hplace hcolumns hindent hu h
    rw [blockMembers_true, blockMembers, List.append_nil]
    exact .member (Yields.besideKey value) (Yields.besideMark value) hplace hcolumns hindent hu
      fun q hq => by simpa [memberWords] using h q hq
  | (name, value) :: (next, other) :: rest, _, p, u, tokens, ts, columns, column, indent => by
    intro hplace hcolumns hindent hu h
    have hopen := head?_openColumns hcolumns
    rw [blockMembers_true, blockMembers_false, List.append_assoc, List.append_assoc]
    refine .member (Yields.besideKey value) (Yields.besideMark value) hplace hcolumns
      (Nat.le_refl _) ?_ fun q hq => ?_
    · rw [blockMembers_true, List.append_assoc]
      exact starts_memberLines next other _
    · refine Yields.members ((next, other) :: rest) (List.cons_ne_nil _ _) hq (fun m hm => ?_) hindent
        hu fun r hr => ?_
      · rw [hopen] at hm
        exact Nat.le_of_eq (Option.some.inj hm).symm
      · rw [openTokens_self hopen, openColumns_self hopen]
        simpa [memberWords] using h r hr
end

theorem Yields.finish {q : Place} : Yields (before q [] tokens [] none keyAllowed) tokens.reverse := by
  intro fuel hfuel
  cases fuel with
  | zero => cases hfuel
  | succ fuel =>
    rw [run_before_nil]
    rfl

end EnvClient.Yaml.Lexer
