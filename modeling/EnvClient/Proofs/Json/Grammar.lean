import EnvClient.Json.Doc
import EnvClient.Proofs.Decimal

/-! Texts of JSON: which texts stand for a value, blanks included. Every one of them is read as
the value that it stands for, and reading stops where the text of the value ends. -/
namespace EnvClient.Json

def AreBlanks (s : List Char) : Prop := ∀ c ∈ s, isBlank c = true

theorem areBlanks_nil : AreBlanks [] := nofun

theorem AreBlanks.skip_append {blanks : List Char} (h : AreBlanks blanks) (s : List Char) :
    skipBlanks (blanks ++ s) = skipBlanks s := by
  unfold skipBlanks
  exact List.dropWhile_append_of_pos h

theorem skipBlanks_cons {c : Char} (h : isBlank c = false) (s : List Char) :
    skipBlanks (c :: s) = c :: s := by
  unfold skipBlanks
  exact List.dropWhile_cons_of_neg (by simp [h])

theorem AreBlanks.skip_cons {blanks : List Char} (h : AreBlanks blanks) {c : Char}
    (hc : isBlank c = false) (s : List Char) : skipBlanks (blanks ++ c :: s) = c :: s := by
  rw [h.skip_append, skipBlanks_cons hc]

def EndsNumber (s : List Char) : Prop :=
  ∀ c ∈ s.head?, c.isDigit = false ∧ c ≠ '.' ∧ c ≠ 'e' ∧ c ≠ 'E'

theorem takeDigits_append {digits rest : List Char} (hdigits : ∀ c ∈ digits, c.isDigit = true)
    (hrest : ∀ c ∈ rest.head?, c.isDigit = false) :
    takeDigits (digits ++ rest) = (digits, rest) := by
  obtain ⟨htake, hdrop⟩ := span_digits hdigits hrest
  rw [takeDigits, List.span_eq_takeWhile_dropWhile, htake, hdrop]

namespace Numeral

def FractionText : Option (List Char) → List Char → Prop
  | none, s => s = []
  | some digits, s => AreDigits digits ∧ s = '.' :: digits

def SignText (negative : Bool) (s : List Char) : Prop :=
  if negative then s = ['-'] else s = [] ∨ s = ['+']

def ExponentText : Option (Bool × List Char) → List Char → Prop
  | none, s => s = []
  | some (negative, digits), s => AreDigits digits ∧ ∃ mark sign, (mark = 'e' ∨ mark = 'E') ∧
    SignText negative sign ∧ s = mark :: (sign ++ digits)

/-- The text of a number without its sign. No digit follows a zero at its start. -/
structure MagnitudeText (n : Numeral) (s : List Char) : Prop where
  whole : AreDigits n.whole
  leading : ∀ rest, n.whole = '0' :: rest → rest = []
  parts : ∃ fraction exponent, FractionText n.fraction fraction ∧
    ExponentText n.exponent exponent ∧ s = n.whole ++ (fraction ++ exponent)

def Text (n : Numeral) (s : List Char) : Prop :=
  ∃ magnitude, n.MagnitudeText magnitude ∧
    s = if n.negative then '-' :: magnitude else magnitude

theorem isDigit_head?_fraction {fraction : Option (List Char)} {s rest : List Char}
    (h : FractionText fraction s) (hrest : ∀ c ∈ rest.head?, c.isDigit = false) :
    ∀ c ∈ (s ++ rest).head?, c.isDigit = false := by
  cases fraction with
  | none =>
    rw [show s = [] from h]
    exact hrest
  | some digits =>
    obtain ⟨-, rfl⟩ := h
    intro c hc
    cases hc
    rfl

theorem isDigit_head?_exponent {exponent : Option (Bool × List Char)} {s rest : List Char}
    (h : ExponentText exponent s) (hrest : EndsNumber rest) :
    ∀ c ∈ (s ++ rest).head?, c.isDigit = false ∧ c ≠ '.' := by
  cases exponent with
  | none =>
    rw [show s = [] from h]
    exact fun c hc => ⟨(hrest c hc).1, (hrest c hc).2.1⟩
  | some parts =>
    obtain ⟨-, mark, sign, hmark, -, rfl⟩ := h
    intro c hc
    cases hc
    rcases hmark with rfl | rfl <;> decide

theorem readFraction_text {fraction : Option (List Char)} {s rest : List Char}
    (h : FractionText fraction s) (hrest : ∀ c ∈ rest.head?, c.isDigit = false ∧ c ≠ '.') :
    readFraction (s ++ rest) = .ok (fraction, rest) := by
  cases fraction with
  | none =>
    rw [show s = [] from h, List.nil_append, readFraction.eq_def]
    split
    · exact absurd rfl (hrest '.' rfl).2
    · rfl
  | some digits =>
    obtain ⟨hdigits, rfl⟩ := h
    have htake : takeDigits (digits ++ rest) = (digits, rest) :=
      takeDigits_append hdigits.2 fun c hc => (hrest c hc).1
    rw [List.cons_append, readFraction, htake, List.isEmpty_eq_false_iff.mpr hdigits.1]
    rfl

theorem readSign_digit {c : Char} (hc : c.isDigit = true) (s : List Char) :
    readSign (c :: s) = (false, c :: s) := by
  rw [readSign.eq_def]
  split
  · rename_i heq
    cases heq
    cases hc
  · rename_i heq
    cases heq
    cases hc
  · rfl

theorem readSign_text {negative : Bool} {s digits rest : List Char} (h : SignText negative s)
    (hdigits : AreDigits digits) :
    readSign (s ++ (digits ++ rest)) = (negative, digits ++ rest) := by
  cases negative with
  | true =>
    rw [show s = ['-'] from h]
    rfl
  | false =>
    rcases (show s = [] ∨ s = ['+'] from h) with rfl | rfl
    · obtain ⟨d, digits, rfl, hd⟩ := hdigits.cons
      exact readSign_digit hd _
    · rfl

theorem readExponent_text {exponent : Option (Bool × List Char)} {s rest : List Char}
    (h : ExponentText exponent s) (hrest : EndsNumber rest) :
    readExponent (s ++ rest) = .ok (exponent, rest) := by
  cases exponent with
  | none =>
    rw [show s = [] from h, List.nil_append]
    cases rest with
    | nil => rfl
    | cons c rest =>
      obtain ⟨-, -, hlower, hupper⟩ := hrest c rfl
      rw [readExponent, if_neg (not_or.mpr ⟨hlower, hupper⟩)]
  | some parts =>
    obtain ⟨negative, digits⟩ := parts
    obtain ⟨hdigits, mark, sign, hmark, hsign, rfl⟩ := h
    have htake : takeDigits (digits ++ rest) = (digits, rest) :=
      takeDigits_append hdigits.2 fun c hc => (hrest c hc).1
    rw [List.cons_append, readExponent, if_pos hmark, List.append_assoc,
      readSign_text hsign hdigits]
    simp only [htake, List.isEmpty_eq_false_iff.mpr hdigits.1]
    rfl

theorem readNumeral_text {n : Numeral} {s rest : List Char} (h : n.MagnitudeText s)
    (hrest : EndsNumber rest) : readNumeral n.negative (s ++ rest) = .ok (n, rest) := by
  obtain ⟨hdigits, hleading, fraction, exponent, hfraction, hexponent, rfl⟩ := h
  have hafter := isDigit_head?_exponent hexponent hrest
  have hwhole : takeDigits (n.whole ++ (fraction ++ (exponent ++ rest))) =
      (n.whole, fraction ++ (exponent ++ rest)) :=
    takeDigits_append hdigits.2 (isDigit_head?_fraction hfraction fun c hc => (hafter c hc).1)
  rw [readNumeral, List.append_assoc, List.append_assoc, hwhole]
  dsimp only
  split
  · rename_i hnil
    exact absurd hnil hdigits.1
  · rename_i hzero
    exact absurd (hleading _ hzero) (List.cons_ne_nil _ _)
  · rw [readFraction_text hfraction hafter]
    change (readExponent (exponent ++ rest) >>= _) = _
    rw [readExponent_text hexponent hrest]
    rfl

end Numeral

namespace Quoted

/-- What stands between quotes, and how it takes a reader from one state to another. -/
inductive Pieces : State → List Char → State → Prop where
  | done (st : State) : Pieces st [] st
  | plain {st st' : State} {c : Char} {s : List Char} (control : ¬ c < ' ') (quote : c ≠ '"')
      (backslash : c ≠ '\\') (rest : Pieces (st.push c) s st') : Pieces st (c :: s) st'
  | escape {st st' : State} {c e : Char} {s : List Char} (value : unescape? c = some e)
      (rest : Pieces (st.push e) s st') : Pieces st ('\\' :: c :: s) st'
  | unit {st st' : State} {a b c d : Char} {n : Nat} {s : List Char}
      (value : codeUnit? a b c d = some n) (rest : Pieces (st.pushUnit n) s st') :
      Pieces st ('\\' :: 'u' :: a :: b :: c :: d :: s) st'

theorem Pieces.append {st st' st'' : State} {s t : List Char} (h : Pieces st s st')
    (h' : Pieces st' t st'') : Pieces st (s ++ t) st'' := by
  induction h with
  | done => exact h'
  | plain control quote backslash _ ih => exact .plain control quote backslash (ih h')
  | escape value _ ih => exact .escape value (ih h')
  | unit value _ ih => exact .unit value (ih h')

theorem read_plain {st : State} {c : Char} (hcontrol : ¬ c < ' ') (hquote : c ≠ '"')
    (hbackslash : c ≠ '\\') (s : List Char) : read st (c :: s) = read (st.push c) s := by
  simp [read, hbackslash, hcontrol]

theorem read_escape {st : State} {c e : Char} (h : unescape? c = some e) (s : List Char) :
    read st ('\\' :: c :: s) = read (st.push e) s := by
  have hunit : c ≠ 'u' := by
    rintro rfl
    cases h
  simp [read, hunit, h]

theorem read_pieces {st st' : State} {s : List Char} (h : Pieces st s st') (rest : List Char) :
    read st (s ++ '"' :: rest) = closed st'.value rest := by
  induction h with
  | done => rfl
  | plain control quote backslash _ ih =>
    rw [List.cons_append, read_plain control quote backslash, ih]
  | escape value _ ih => rw [List.cons_append, List.cons_append, read_escape value, ih]
  | unit value _ ih =>
    simp only [List.cons_append, read, value, ih]

end Quoted
/-- What stands before an item or a member: a comma unless it is the first, and blanks. -/
def Separates : Bool → List Char → Prop
  | true, s => AreBlanks s
  | false, s => ∃ before after, AreBlanks before ∧ AreBlanks after ∧ s = before ++ ',' :: after

mutual
inductive Doc.Text : Doc → List Char → Prop where
  | null : Doc.Text .null "null".toList
  | bool (value : Bool) : Doc.Text (.bool value) (if value then "true" else "false").toList
  | number {n : Numeral} {s : List Char} (text : n.Text s) : Doc.Text (.number n.number?) s
  | string {s : List Char} {st : Quoted.State} (pieces : Quoted.Pieces .start s st) :
      Doc.Text (.string st.value) ('"' :: (s ++ ['"']))
  | array {items : Items} {s : List Char} (text : Items.Text true items s) :
      Doc.Text (.array items) ('[' :: s)
  | object {members : DocMembers} {s : List Char} (text : DocMembers.Text true members s) :
      Doc.Text (.object members) ('{' :: s)
inductive Items.Text : Bool → Items → List Char → Prop where
  | done {first : Bool} {blanks : List Char} (hblanks : AreBlanks blanks) :
      Items.Text first .done (blanks ++ [']'])
  | item {first : Bool} {value : Doc} {rest : Items} {separator s tail : List Char}
      (separates : Separates first separator) (text : value.Text s)
      (others : Items.Text false rest tail) :
      Items.Text first (.item value rest) (separator ++ (s ++ tail))
inductive DocMembers.Text : Bool → DocMembers → List Char → Prop where
  | done {first : Bool} {blanks : List Char} (hblanks : AreBlanks blanks) :
      DocMembers.Text first .done (blanks ++ ['}'])
  | member {first : Bool} {value : Doc} {rest : DocMembers} {st : Quoted.State}
      {separator name before after s tail : List Char} (separates : Separates first separator)
      (pieces : Quoted.Pieces .start name st) (hbefore : AreBlanks before)
      (hafter : AreBlanks after) (text : value.Text s) (others : DocMembers.Text false rest tail) :
      DocMembers.Text first (.member st.value value rest)
        (separator ++ '"' :: (name ++ '"' :: (before ++ ':' :: (after ++ (s ++ tail)))))
end

theorem isBlank_eq {c : Char} (h : isBlank c = true) :
    c = ' ' ∨ c = '\n' ∨ c = '\t' ∨ c = '\r' := by
  simpa [isBlank, or_assoc] using h

theorem isBlank_of_isDigit {c : Char} (h : c.isDigit = true) : isBlank c = false := by
  refine Bool.eq_false_iff.mpr fun hblank => ?_
  rcases isBlank_eq hblank with rfl | rfl | rfl | rfl <;> cases h

theorem endsNumber_nil : EndsNumber [] := nofun

theorem AreBlanks.endsNumber {blanks : List Char} (h : AreBlanks blanks) {s : List Char}
    (hs : EndsNumber s) : EndsNumber (blanks ++ s) := by
  cases blanks with
  | nil => exact hs
  | cons c blanks =>
    intro d hd
    cases hd
    rcases isBlank_eq (h c List.mem_cons_self) with rfl | rfl | rfl | rfl <;> decide

theorem endsNumber_cons {c : Char} (h : c.isDigit = false ∧ c ≠ '.' ∧ c ≠ 'e' ∧ c ≠ 'E')
    (s : List Char) : EndsNumber (c :: s) := by
  intro d hd
  cases hd
  exact h

theorem Separates.endsNumber {separator : List Char} (h : Separates false separator)
    (s : List Char) : EndsNumber (separator ++ s) := by
  obtain ⟨before, after, hbefore, -, rfl⟩ := h
  rw [List.append_assoc]
  exact hbefore.endsNumber (endsNumber_cons (by decide) _)

theorem Items.Text.endsNumber {items : Items} {s : List Char} (h : Items.Text false items s)
    (rest : List Char) : EndsNumber (s ++ rest) := by
  cases h with
  | done hblanks =>
    rw [List.append_assoc]
    exact hblanks.endsNumber (endsNumber_cons (by decide) _)
  | item separates =>
    rw [List.append_assoc]
    exact separates.endsNumber _

theorem DocMembers.Text.endsNumber {members : DocMembers} {s : List Char}
    (h : DocMembers.Text false members s) (rest : List Char) : EndsNumber (s ++ rest) := by
  cases h with
  | done hblanks =>
    rw [List.append_assoc]
    exact hblanks.endsNumber (endsNumber_cons (by decide) _)
  | member separates =>
    rw [List.append_assoc]
    exact separates.endsNumber _

theorem Numeral.Text.cons {n : Numeral} {s : List Char} (h : n.Text s) :
    ∃ c rest, s = c :: rest ∧ (c = '-' ∨ c.isDigit = true) := by
  obtain ⟨magnitude, hmagnitude, rfl⟩ := h
  obtain ⟨hdigits, -, fraction, exponent, -, -, rfl⟩ := hmagnitude
  cases n.negative with
  | true => exact ⟨'-', _, rfl, .inl rfl⟩
  | false =>
    obtain ⟨d, ds, hwhole, hd⟩ := hdigits.cons
    rw [hwhole]
    exact ⟨d, _, rfl, .inr hd⟩

theorem Doc.Text.cons {doc : Doc} {s : List Char} (h : doc.Text s) :
    ∃ c rest, s = c :: rest ∧ isBlank c = false ∧ c ≠ ']' := by
  cases h with
  | null => exact ⟨_, _, rfl, by decide, by decide⟩
  | bool value => cases value <;> exact ⟨_, _, rfl, by decide, by decide⟩
  | number text =>
    obtain ⟨c, rest, rfl, hc⟩ := text.cons
    refine ⟨c, rest, rfl, ?_⟩
    rcases hc with rfl | hc
    · decide
    · exact ⟨isBlank_of_isDigit hc, isDigit_ne hc (by decide)⟩
  | string => exact ⟨_, _, rfl, by decide, by decide⟩
  | array => exact ⟨_, _, rfl, by decide, by decide⟩
  | object => exact ⟨_, _, rfl, by decide, by decide⟩

namespace Doc

theorem readValue_blanks {blanks : List Char} (h : AreBlanks blanks) (fuel : Nat) (s : List Char) :
    readValue fuel (blanks ++ s) = readValue fuel s := by
  cases fuel with
  | zero => rfl
  | succ fuel => rw [readValue, readValue, h.skip_append]

theorem readValue_digit {c : Char} (hc : c.isDigit = true) (fuel : Nat) (s : List Char) :
    readValue (fuel + 1) (c :: s) = ofNumeral false (c :: s) := by
  rw [readValue, skipBlanks_cons (isBlank_of_isDigit hc)]
  split <;> rename_i heq <;> cases heq
  case h_9 => exact if_pos hc
  all_goals cases hc

theorem ofNumeral_text {n : Numeral} {s rest : List Char} (h : n.MagnitudeText s)
    (hrest : EndsNumber rest) : ofNumeral n.negative (s ++ rest) = (number n.number?, rest) := by
  rw [ofNumeral, n.readNumeral_text h hrest]

theorem readValue_numeral {n : Numeral} {s rest : List Char} (h : n.Text s)
    (hrest : EndsNumber rest) (fuel : Nat) :
    readValue (fuel + 1) (s ++ rest) = (number n.number?, rest) := by
  obtain ⟨magnitude, hmagnitude, rfl⟩ := h
  have hread := ofNumeral_text hmagnitude hrest
  cases hsign : n.negative with
  | true =>
    rw [hsign] at hread
    exact hread
  | false =>
    rw [hsign] at hread
    obtain ⟨hdigits, -, fraction, exponent, -, -, rfl⟩ := hmagnitude
    obtain ⟨d, ds, hwhole, hd⟩ := hdigits.cons
    rw [hwhole] at hread ⊢
    exact (readValue_digit hd fuel _).trans hread

theorem readItems_done {blanks : List Char} (h : AreBlanks blanks) (fuel : Nat) (first : Bool)
    (rest : List Char) : readItems (fuel + 1) first (blanks ++ ']' :: rest) = (.done, rest) := by
  rw [readItems, h.skip_cons (by decide)]
  rfl

theorem readItems_item {first : Bool} {separator : List Char} (h : Separates first separator)
    {c : Char} (hblank : isBlank c = false) (hclose : c ≠ ']') (fuel : Nat) (s : List Char) :
    readItems (fuel + 1) first (separator ++ c :: s) =
      let value := readValue fuel (c :: s)
      let items := readItems fuel false value.2
      (.item value.1 items.1, items.2) := by
  cases first with
  | true =>
    rw [readItems, AreBlanks.skip_cons h hblank]
    split <;> rename_i heq <;> cases heq
    · exact absurd rfl hclose
    · rw [if_pos (.inl rfl), if_pos rfl]
  | false =>
    obtain ⟨before, after, hbefore, hafter, rfl⟩ := h
    rw [List.append_assoc, List.cons_append, readItems, hbefore.skip_cons (by decide),
      ← readValue_blanks hafter]
    rfl

theorem readMembers_done {blanks : List Char} (h : AreBlanks blanks) (fuel : Nat) (first : Bool)
    (rest : List Char) : readMembers (fuel + 1) first (blanks ++ '}' :: rest) = (.done, rest) := by
  rw [readMembers, h.skip_cons (by decide)]
  rfl

theorem readMembers_member {first : Bool} {separator name before after : List Char}
    {st : Quoted.State} (h : Separates first separator) (hname : Quoted.Pieces .start name st)
    (hbefore : AreBlanks before) (hafter : AreBlanks after) (fuel : Nat) (s : List Char) :
    readMembers (fuel + 1) first
        (separator ++ '"' :: (name ++ '"' :: (before ++ ':' :: (after ++ s)))) =
      let value := readValue fuel s
      let members := readMembers fuel false value.2
      (.member st.value value.1 members.1, members.2) := by
  have hread := Quoted.read_pieces hname (before ++ ':' :: (after ++ s))
  have hcolon : skipBlanks (before ++ ':' :: (after ++ s)) = ':' :: (after ++ s) :=
    hbefore.skip_cons (by decide) _
  have hvalue := readValue_blanks hafter fuel s
  cases first with
  | true =>
    rw [readMembers, AreBlanks.skip_cons h (by decide)]
    simp [skipBlanks_cons (by decide : isBlank '"' = false), hread, hcolon, hvalue]
  | false =>
    obtain ⟨before', after', hbefore', hafter', rfl⟩ := h
    rw [List.append_assoc, List.cons_append, readMembers, hbefore'.skip_cons (by decide)]
    simp [hafter'.skip_cons (by decide : isBlank '"' = false), hread, hcolon, hvalue]

mutual
/-- A text that stands for a value is read as that value, and nothing after it is touched. -/
theorem readValue_text : ∀ {doc : Doc} {s : List Char}, doc.Text s →
    ∀ (fuel : Nat) (rest : List Char), 2 * s.length ≤ fuel → EndsNumber rest →
      readValue fuel (s ++ rest) = (doc, rest)
  | _, _, h, 0, rest, hfuel, _ => by
    obtain ⟨c, s, rfl, -⟩ := h.cons
    cases hfuel
  | _, _, .null, fuel + 1, rest, _, _ => rfl
  | _, _, .bool true, fuel + 1, rest, _, _ => rfl
  | _, _, .bool false, fuel + 1, rest, _, _ => rfl
  | _, _, .number text, fuel + 1, rest, _, hrest => readValue_numeral text hrest fuel
  | _, _, .string pieces, fuel + 1, rest, _, _ => by
    have hread := Quoted.read_pieces pieces rest
    rw [List.cons_append, List.append_assoc, readValue, skipBlanks_cons (by decide)]
    simp [ofQuoted, hread]
  | _, _, .array text, fuel + 1, rest, hfuel, _ => by
    rw [List.length_cons] at hfuel
    rw [List.cons_append, readValue, skipBlanks_cons (by decide)]
    simp [readItems_text text fuel rest (by omega)]
  | _, _, .object text, fuel + 1, rest, hfuel, _ => by
    rw [List.length_cons] at hfuel
    rw [List.cons_append, readValue, skipBlanks_cons (by decide)]
    simp [readMembers_text text fuel rest (by omega)]
theorem readItems_text : ∀ {first : Bool} {items : Items} {s : List Char},
    Items.Text first items s → ∀ (fuel : Nat) (rest : List Char), 2 * s.length + 1 ≤ fuel →
      readItems fuel first (s ++ rest) = (items, rest)
  | first, _, _, .done hblanks, fuel + 1, rest, _ => by
    rw [List.append_assoc]
    exact readItems_done hblanks fuel first rest
  | first, _, _, .item separates text others, fuel + 1, rest, hfuel => by
    obtain ⟨c, s, rfl, hblank, hclose⟩ := text.cons
    simp only [List.length_append, List.length_cons] at hfuel
    have hvalue := readValue_text text fuel _ (by rw [List.length_cons]; omega)
      (others.endsNumber rest)
    rw [List.append_assoc, List.append_assoc, List.cons_append,
      readItems_item separates hblank hclose, ← List.cons_append, hvalue]
    simp only [readItems_text others fuel rest (by omega)]
theorem readMembers_text : ∀ {first : Bool} {members : DocMembers} {s : List Char},
    DocMembers.Text first members s → ∀ (fuel : Nat) (rest : List Char), 2 * s.length + 1 ≤ fuel →
      readMembers fuel first (s ++ rest) = (members, rest)
  | first, _, _, .done hblanks, fuel + 1, rest, _ => by
    rw [List.append_assoc]
    exact readMembers_done hblanks fuel first rest
  | first, _, _, .member separates pieces hbefore hafter text others, fuel + 1, rest, hfuel => by
    simp only [List.length_append, List.length_cons] at hfuel
    simp only [List.append_assoc, List.cons_append]
    rw [readMembers_member separates pieces hbefore hafter,
      readValue_text text fuel _ (by omega) (others.endsNumber rest)]
    simp only [readMembers_text others fuel rest (by omega)]
end

theorem ofText_text {doc : Doc} {before s after : List Char} (h : doc.Text s)
    (hbefore : AreBlanks before) (hafter : AreBlanks after) :
    ofText (before ++ (s ++ after)) = (doc, false) := by
  have hread : readValue (2 * (before ++ (s ++ after)).length + 2) (before ++ (s ++ after)) =
      (doc, after) := by
    rw [readValue_blanks hbefore]
    refine readValue_text h _ after ?_ ?_
    · simp only [List.length_append]
      omega
    · simpa using hafter.endsNumber endsNumber_nil
  have hend : skipBlanks after = [] := by
    rw [← List.append_nil after, hafter.skip_append]
    rfl
  rw [ofText, hread]
  simp [hend]

end Doc
end EnvClient.Json
