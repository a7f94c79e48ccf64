import EnvClient.Json.Decode
import EnvClient.Proofs.Json.Grammar
import Mathlib.Data.List.TakeWhile

/-! What is read is text of the grammar. A reader takes from the text just what stands for the
value that it gives, unless it meets a fault; so the texts of a value are those that are read as
it without one. -/
namespace EnvClient.Json

theorem exists_blanks (s : List Char) :
    ∃ blanks, AreBlanks blanks ∧ s = blanks ++ skipBlanks s :=
  ⟨s.takeWhile isBlank, fun _ => List.mem_takeWhile_imp, List.takeWhile_append_dropWhile.symm⟩

theorem eq_of_readWord {word s rest : List Char} (h : readWord word s = .ok rest) :
    s = word ++ rest := by
  induction word generalizing s with
  | nil =>
    cases h
    rfl
  | cons w word ih =>
    cases s with
    | nil => cases h
    | cons c s =>
      rw [readWord] at h
      split at h
      · rename_i heq
        rw [heq, ih h]
        rfl
      · cases h

theorem takeDigits_spec (s : List Char) :
    (∀ c ∈ (takeDigits s).1, c.isDigit = true) ∧ s = (takeDigits s).1 ++ (takeDigits s).2 := by
  rw [takeDigits, List.span_eq_takeWhile_dropWhile]
  exact ⟨fun _ => List.mem_takeWhile_imp, List.takeWhile_append_dropWhile.symm⟩

theorem areDigits_takeDigits {s : List Char} (h : ¬ (takeDigits s).1.isEmpty = true) :
    AreDigits (takeDigits s).1 :=
  ⟨fun hnil => h (hnil ▸ rfl), (takeDigits_spec s).1⟩

namespace Numeral

theorem text_readFraction {s rest : List Char} {fraction : Option (List Char)}
    (h : readFraction s = .ok (fraction, rest)) :
    ∃ t, FractionText fraction t ∧ s = t ++ rest := by
  unfold readFraction at h
  split at h
  · rename_i s
    dsimp only at h
    split at h
    · cases h
    · rename_i hdigits
      cases h
      exact ⟨_, ⟨areDigits_takeDigits hdigits, rfl⟩, congrArg _ (takeDigits_spec s).2⟩
  · cases h
    exact ⟨[], rfl, rfl⟩

theorem text_readSign (s : List Char) :
    ∃ t, SignText (readSign s).1 t ∧ s = t ++ (readSign s).2 := by
  unfold readSign
  split
  · exact ⟨['-'], rfl, rfl⟩
  · exact ⟨['+'], .inr rfl, rfl⟩
  · exact ⟨[], .inl rfl, rfl⟩

theorem text_readExponent {s rest : List Char} {exponent : Option (Bool × List Char)}
    (h : readExponent s = .ok (exponent, rest)) :
    ∃ t, ExponentText exponent t ∧ s = t ++ rest := by
  unfold readExponent at h
  split at h
  · cases h
    exact ⟨[], rfl, rfl⟩
  · rename_i mark s
    split at h
    · rename_i hmark
      dsimp only at h
      split at h
      · cases h
      · rename_i hdigits
        cases h
        obtain ⟨sign, hsign, hs⟩ := text_readSign s
        have htaken := (takeDigits_spec (readSign s).2).2
        refine ⟨_, ⟨areDigits_takeDigits hdigits, mark, sign, hmark, hsign, rfl⟩, ?_⟩
        rw [List.cons_append, List.append_assoc, ← htaken, ← hs]
    · cases h
      exact ⟨[], rfl, rfl⟩

theorem text_readNumeral {negative : Bool} {s rest : List Char} {n : Numeral}
    (h : readNumeral negative s = .ok (n, rest)) :
    n.negative = negative ∧ ∃ t, n.MagnitudeText t ∧ s = t ++ rest := by
  obtain ⟨hwhole, hs⟩ := takeDigits_spec s
  unfold readNumeral at h
  dsimp only at h
  split at h
  · cases h
  · cases h
  · rename_i hne hzero
    cases hfraction : readFraction (takeDigits s).2 with
    | error e =>
      rw [hfraction] at h
      cases h
    | ok taken =>
      obtain ⟨fraction, after⟩ := taken
      rw [hfraction] at h
      change (readExponent after >>= _) = _ at h
      cases hexponent : readExponent after with
      | error e =>
        rw [hexponent] at h
        cases h
      | ok taken =>
        obtain ⟨exponent, rest'⟩ := taken
        rw [hexponent] at h
        cases h
        obtain ⟨f, hf, hafter⟩ := text_readFraction hfraction
        obtain ⟨e, he, hrest⟩ := text_readExponent hexponent
        refine ⟨rfl, _, ⟨⟨hne, hwhole⟩, fun more heq => ?_, f, e, hf, he, rfl⟩, ?_⟩
        · cases more with
          | nil => rfl
          | cons c more => exact absurd heq (hzero c more)
        · rw [List.append_assoc, List.append_assoc, ← hrest, ← hafter]
          exact hs

end Numeral

theorem Quoted.pieces_of_read {st : State} {s rest : List Char} {value : Option String}
    (h : read st s = closed value rest) :
    ∃ t st', Pieces st t st' ∧ st'.value = value ∧ s = t ++ '"' :: rest := by
  fun_induction read st s with
  | case1 st => cases h
  | case2 st s =>
    cases h
    exact ⟨[], st, .done st, rfl, rfl⟩
  | case3 st a b c d s n hunit ih =>
    obtain ⟨t, st', hpieces, hvalue, rfl⟩ := ih h
    exact ⟨_, st', .unit hunit hpieces, hvalue, rfl⟩
  | case6 st c s _ _ e hescape ih =>
    obtain ⟨t, st', hpieces, hvalue, rfl⟩ := ih h
    exact ⟨_, st', .escape hescape hpieces, hvalue, rfl⟩
  | case10 st c s hquote _ _ hmore hlast hcontrol ih =>
    obtain ⟨t, st', hpieces, hvalue, rfl⟩ := ih h
    have hbackslash : c ≠ '\\' := fun hc => by
      cases t with
      | nil => exact hmore '"' rest hc rfl
      | cons d t => exact hmore d _ hc rfl
    exact ⟨_, st', .plain hcontrol hquote hbackslash hpieces, hvalue, rfl⟩
  | _ => cases h

theorem AreBlanks.append {blanks blanks' : List Char} (h : AreBlanks blanks)
    (h' : AreBlanks blanks') : AreBlanks (blanks ++ blanks') := fun c hmem =>
  (List.mem_append.mp hmem).elim (h c) (h' c)

theorem exists_separator {first : Bool} {c : Char} {blanks blanks' after tail : List Char}
    (hfirst : first = true ∨ c = ',') (hblanks : AreBlanks blanks) (hblanks' : AreBlanks blanks')
    (h : (if first = true then c :: after else after) = blanks' ++ tail) :
    ∃ separator, Separates first separator ∧ blanks ++ c :: after = separator ++ tail := by
  cases first with
  | true =>
    rw [if_pos rfl] at h
    exact ⟨_, hblanks.append hblanks', by rw [h, List.append_assoc]⟩
  | false =>
    rw [if_neg Bool.false_ne_true] at h
    obtain rfl := hfirst.resolve_left Bool.false_ne_true
    exact ⟨_, ⟨blanks, blanks', hblanks, hblanks', rfl⟩, by rw [h, List.append_assoc]; rfl⟩

@[simp] theorem Items.skip_item {value : Doc} {rest : Items} :
    (item value rest).skip = .ok () ↔ value.skip = .ok () ∧ rest.skip = .ok () := by
  rw [skip]
  cases value.skip with
  | error e => exact iff_of_false nofun fun h => nomatch h.1
  | ok _ => exact (and_iff_right rfl).symm

@[simp] theorem DocMembers.skip_member {name : Option String} {value : Doc} {rest : DocMembers} :
    (member name value rest).skip = .ok () ↔ value.skip = .ok () ∧ rest.skip = .ok () := by
  rw [skip]
  cases value.skip with
  | error e => exact iff_of_false nofun fun h => nomatch h.1
  | ok _ => exact (and_iff_right rfl).symm

namespace Doc

theorem eq_of_ofWord {value doc : Doc} {word s rest : List Char}
    (h : ofWord value word s = (doc, rest)) (hskip : doc.skip = .ok ()) :
    doc = value ∧ s = word ++ rest := by
  rw [ofWord] at h
  split at h
  · rename_i hword
    cases h
    exact ⟨rfl, eq_of_readWord hword⟩
  · cases h
    cases hskip

theorem text_ofNumeral {negative : Bool} {doc : Doc} {s rest : List Char}
    (h : ofNumeral negative s = (doc, rest)) (hskip : doc.skip = .ok ()) :
    ∃ (n : Numeral) (t : List Char), doc = number n.number? ∧ n.negative = negative ∧
      n.MagnitudeText t ∧ s = t ++ rest := by
  rw [ofNumeral] at h
  split at h
  · rename_i n _ hread
    cases h
    obtain ⟨hnegative, t, htext, hs⟩ := Numeral.text_readNumeral hread
    exact ⟨n, t, rfl, hnegative, htext, hs⟩
  · cases h
    cases hskip

theorem text_ofQuoted {doc : Doc} {s rest : List Char} (h : ofQuoted s = (doc, rest))
    (hskip : doc.skip = .ok ()) :
    ∃ (t : List Char) (st : Quoted.State), Quoted.Pieces .start t st ∧ doc = string st.value ∧
      s = t ++ '"' :: rest := by
  rw [ofQuoted] at h
  split at h
  · rename_i hread
    cases h
    obtain ⟨t, st, hpieces, rfl, hs⟩ := Quoted.pieces_of_read hread
    exact ⟨t, st, hpieces, rfl, hs⟩
  · cases h
    cases hskip

theorem exists_colon {fuel : Nat} {s rest : List Char} {value : Doc}
    (h : (match skipBlanks s with
      | [] => fail .truncated
      | ':' :: rest => readValue fuel rest
      | _ => fail .malformed) = (value, rest)) (hskip : value.skip = .ok ()) :
    ∃ blanks after, AreBlanks blanks ∧ s = blanks ++ ':' :: after ∧
      readValue fuel after = (value, rest) := by
  obtain ⟨blanks, hblanks, hs⟩ := exists_blanks s
  split at h <;> rename_i hcolon
  · cases h
    cases hskip
  · rw [hcolon] at hs
    exact ⟨blanks, _, hblanks, hs, h⟩
  · cases h
    cases hskip

theorem readItems_cases {fuel : Nat} {first : Bool} {s rest : List Char} {items : Items}
    (h : readItems (fuel + 1) first s = (items, rest)) (hskip : items.skip = .ok ()) :
    (∃ blanks, AreBlanks blanks ∧ items = .done ∧ s = blanks ++ ']' :: rest) ∨
      ∃ blanks c after value others between, AreBlanks blanks ∧ s = blanks ++ c :: after ∧
        (first = true ∨ c = ',') ∧ items = .item value others ∧
        readValue fuel (if first = true then c :: after else after) = (value, between) ∧
        readItems fuel false between = (others, rest) := by
  obtain ⟨blanks, hblanks, hs⟩ := exists_blanks s
  rw [readItems] at h
  split at h <;> rename_i heq <;> rw [heq] at hs
  · cases h
    cases hskip
  · cases h
    exact .inl ⟨blanks, hblanks, rfl, hs⟩
  · rename_i c after _
    split at h
    · rename_i hfirst
      cases hvalue : readValue fuel (if first = true then c :: after else after) with
      | mk value between =>
        cases hothers : readItems fuel false between with
        | mk others rest' =>
          simp only [hvalue, hothers] at h
          cases h
          exact .inr ⟨blanks, c, after, value, others, between, hblanks, hs, hfirst, rfl, hvalue,
            hothers⟩
    · cases h
      cases hskip

theorem readMembers_cases {fuel : Nat} {first : Bool} {s rest : List Char} {members : DocMembers}
    (h : readMembers (fuel + 1) first s = (members, rest)) (hskip : members.skip = .ok ()) :
    (∃ blanks, AreBlanks blanks ∧ members = .done ∧ s = blanks ++ '}' :: rest) ∨
      ∃ separator t st before after value others between, Separates first separator ∧
        Quoted.Pieces .start t st ∧ AreBlanks before ∧
        s = separator ++ '"' :: (t ++ '"' :: (before ++ ':' :: after)) ∧
        members = .member st.value value others ∧ readValue fuel after = (value, between) ∧
        readMembers fuel false between = (others, rest) := by
  obtain ⟨blanks, hblanks, hs⟩ := exists_blanks s
  rw [readMembers] at h
  split at h <;> rename_i heq <;> rw [heq] at hs
  · cases h
    cases hskip
  · cases h
    exact .inl ⟨blanks, hblanks, rfl, hs⟩
  · rename_i c after _
    split at h
    · rename_i hfirst
      obtain ⟨blanks', hblanks', hafter⟩ :=
        exists_blanks (if first = true then c :: after else after)
      obtain ⟨separator, hseparator, hbefore⟩ := exists_separator hfirst hblanks hblanks' hafter
      rw [hbefore] at hs
      split at h
      · cases h
        cases hskip
      · rename_i quoted hquote
        rw [hquote] at hs
        split at h
        · cases h
          cases hskip
        · rename_i name between hname
          obtain ⟨t, st, hpieces, rfl, rfl⟩ := Quoted.pieces_of_read hname
          split at h
          rename_i value more hvalue
          cases hothers : readMembers fuel false more with
          | mk others rest' =>
            rw [hothers] at h
            cases h
            obtain ⟨hvalueSkip, -⟩ := DocMembers.skip_member.mp hskip
            obtain ⟨before, colon, hblanksBefore, rfl, hread⟩ := exists_colon hvalue hvalueSkip
            exact .inr ⟨separator, t, st, before, colon, value, others, more, hseparator, hpieces,
              hblanksBefore, hs, rfl, hread, hothers⟩
      · cases h
        cases hskip
    · cases h
      cases hskip

mutual
theorem text_readValue : ∀ (fuel : Nat) {s rest : List Char} {doc : Doc},
    readValue fuel s = (doc, rest) → doc.skip = .ok () →
      ∃ blanks t, AreBlanks blanks ∧ doc.Text t ∧ s = blanks ++ (t ++ rest)
  | 0, _, _, _, h, hskip => by
    cases h
    cases hskip
  | fuel + 1, s, rest, doc, h, hskip => by
    obtain ⟨blanks, hblanks, hs⟩ := exists_blanks s
    suffices htext : ∃ t, doc.Text t ∧ skipBlanks s = t ++ rest by
      obtain ⟨t, htext, heq⟩ := htext
      exact ⟨blanks, t, hblanks, htext, heq ▸ hs⟩
    rw [readValue] at h
    -- by the first character that is no blank
    split at h <;> rename_i heq <;> rw [heq]
    · cases h
      cases hskip
    · obtain ⟨t, st, hpieces, rfl, rfl⟩ := text_ofQuoted h hskip
      exact ⟨_, .string hpieces, by simp⟩
    · rename_i after
      cases hitems : readItems fuel true after with
      | mk items rest' =>
        rw [hitems] at h
        cases h
        obtain ⟨t, htext, rfl⟩ := text_readItems fuel hitems hskip
        exact ⟨_, .array htext, rfl⟩
    · rename_i after
      cases hmembers : readMembers fuel true after with
      | mk members rest' =>
        rw [hmembers] at h
        cases h
        obtain ⟨t, htext, rfl⟩ := text_readMembers fuel hmembers hskip
        exact ⟨_, .object htext, rfl⟩
    · obtain ⟨rfl, rfl⟩ := eq_of_ofWord h hskip
      exact ⟨_, .null, rfl⟩
    · obtain ⟨rfl, rfl⟩ := eq_of_ofWord h hskip
      exact ⟨_, .bool true, rfl⟩
    · obtain ⟨rfl, rfl⟩ := eq_of_ofWord h hskip
      exact ⟨_, .bool false, rfl⟩
    · obtain ⟨n, t, rfl, hnegative, htext, rfl⟩ := text_ofNumeral h hskip
      exact ⟨'-' :: t, .number ⟨t, htext, by rw [hnegative]; rfl⟩, rfl⟩
    · split at h
      · obtain ⟨n, t, rfl, hnegative, htext, hs⟩ := text_ofNumeral h hskip
        exact ⟨t, .number ⟨t, htext, by rw [hnegative]; rfl⟩, hs⟩
      · cases h
        cases hskip
theorem text_readItems : ∀ (fuel : Nat) {first : Bool} {s rest : List Char} {items : Items},
    readItems fuel first s = (items, rest) → items.skip = .ok () →
      ∃ t, Items.Text first items t ∧ s = t ++ rest
  | 0, _, _, _, _, h, hskip => by
    cases h
    cases hskip
  | fuel + 1, first, s, rest, items, h, hskip => by
    rcases readItems_cases h hskip with ⟨blanks, hblanks, rfl, rfl⟩ |
      ⟨blanks, c, after, value, others, between, hblanks, rfl, hfirst, rfl, hvalue, hothers⟩
    · exact ⟨_, .done hblanks, by simp⟩
    · obtain ⟨hskip, hskips⟩ := Items.skip_item.mp hskip
      obtain ⟨blanks', t, hblanks', htext, hafter⟩ := text_readValue fuel hvalue hskip
      obtain ⟨tail, htail, rfl⟩ := text_readItems fuel hothers hskips
      obtain ⟨separator, hseparator, heq⟩ := exists_separator hfirst hblanks hblanks' hafter
      exact ⟨_, .item hseparator htext htail, by rw [heq]; simp⟩
theorem text_readMembers : ∀ (fuel : Nat) {first : Bool} {s rest : List Char}
    {members : DocMembers}, readMembers fuel first s = (members, rest) → members.skip = .ok () →
      ∃ t, DocMembers.Text first members t ∧ s = t ++ rest
  | 0, _, _, _, _, h, hskip => by
    cases h
    cases hskip
  | fuel + 1, first, s, rest, members, h, hskip => by
    rcases readMembers_cases h hskip with ⟨blanks, hblanks, rfl, rfl⟩ |
      ⟨separator, t, st, before, after, value, others, between, hseparator, hpieces, hbefore, rfl,
        rfl, hvalue, hothers⟩
    · exact ⟨_, .done hblanks, by simp⟩
    · obtain ⟨hskip, hskips⟩ := DocMembers.skip_member.mp hskip
      obtain ⟨blanks, u, hblanks, htext, rfl⟩ := text_readValue fuel hvalue hskip
      obtain ⟨tail, htail, rfl⟩ := text_readMembers fuel hothers hskips
      exact ⟨_, .member hseparator hpieces hbefore hblanks htext htail, by simp⟩
end

end Doc

mutual
theorem Doc.Text.skip : ∀ {doc : Doc} {s : List Char}, doc.Text s → doc.skip = .ok ()
  | _, _, .null => rfl
  | _, _, .bool _ => rfl
  | _, _, .number _ => rfl
  | _, _, .string _ => rfl
  | _, _, .array text => text.skip
  | _, _, .object text => text.skip
theorem Items.Text.skip : ∀ {first : Bool} {items : Items} {s : List Char},
    Items.Text first items s → items.skip = .ok ()
  | _, _, _, .done _ => rfl
  | _, _, _, .item _ text others => Items.skip_item.mpr ⟨text.skip, others.skip⟩
theorem DocMembers.Text.skip : ∀ {first : Bool} {members : DocMembers} {s : List Char},
    DocMembers.Text first members s → members.skip = .ok ()
  | _, _, _, .done _ => rfl
  | _, _, _, .member _ _ _ _ text others => DocMembers.skip_member.mpr ⟨text.skip, others.skip⟩
end

def Doc.WholeText (doc : Doc) (text : String) : Prop :=
  ∃ before s after, AreBlanks before ∧ doc.Text s ∧ AreBlanks after ∧
    text.toList = before ++ (s ++ after)

theorem Doc.WholeText.skip {doc : Doc} {text : String} (h : doc.WholeText text) :
    doc.skip = .ok () := by
  obtain ⟨_, _, _, -, htext, -⟩ := h
  exact htext.skip

/-- A whole text stands for a value just if it is read as the value without a fault, and only
blanks follow. -/
theorem Doc.wholeText_iff {doc : Doc} {text : String} :
    doc.WholeText text ↔ ofText text.toList = (doc, false) ∧ doc.skip = .ok () := by
  constructor
  · intro h
    refine ⟨?_, h.skip⟩
    obtain ⟨before, s, after, hbefore, htext, hafter, heq⟩ := h
    rw [heq, ofText_text htext hbefore hafter]
  · intro ⟨h, hskip⟩
    rw [ofText] at h
    cases hread : readValue (2 * text.toList.length + 2) text.toList with
    | mk value rest =>
      simp only [hread, Prod.mk.injEq, Bool.not_eq_false', List.isEmpty_iff] at h
      obtain ⟨rfl, hrest⟩ := h
      obtain ⟨before, s, hbefore, htext, heq⟩ := text_readValue _ hread hskip
      obtain ⟨after, hafter, hend⟩ := exists_blanks rest
      rw [hrest, List.append_nil] at hend
      exact ⟨before, s, after, hbefore, htext, hafter, hend ▸ heq⟩

end EnvClient.Json
