import EnvClient.Json.Decode
import EnvClient.Proofs.Json
import EnvClient.Proofs.Json.Grammar
import Mathlib.Tactic.SplitIfs

/-! What values are written as. The compact text of a value stands for that value, member by
member, if its numbers stand for themselves. -/
namespace EnvClient

def Number.ReadsBack (n : Number) : Prop := Json.decode Json.Reader.json n.text = .ok (.number n)

namespace Json

theorem hexValue?_hexDigit {d : Nat} (h : d < 16) : Text.hexValue? (hexDigit d) = some d := by
  have hall : ∀ d : Fin 16, Text.hexValue? (hexDigit d) = some d.val := by decide
  exact hall ⟨d, h⟩

namespace Quoted

theorem codeUnit?_control {c : Char} (h : c < ' ') :
    codeUnit? '0' '0' (hexDigit (c.toNat / 16)) (hexDigit (c.toNat % 16)) = some c.toNat := by
  have hlt : c.toNat < 32 := h
  have hzero : Text.hexValue? '0' = some 0 := rfl
  simp only [codeUnit?, hzero, hexValue?_hexDigit (show c.toNat / 16 < 16 by omega),
    hexValue?_hexDigit (show c.toNat % 16 < 16 by omega)]
  exact congrArg some (by omega)

theorem pushUnit_control (chars : List Char) {c : Char} (h : c < ' ') :
    State.pushUnit ⟨chars, true, none⟩ c.toNat = ⟨c :: chars, true, none⟩ := by
  have hlt : c.toNat < 32 := h
  have hhigh : isHighSurrogate c.toNat = false := by
    simp [isHighSurrogate]
    omega
  have hlow : isLowSurrogate c.toNat = false := by
    simp [isLowSurrogate]
    omega
  simp [State.pushUnit, hhigh, hlow]

theorem pieces_escapeChar (chars : List Char) (c : Char) :
    Pieces ⟨chars, true, none⟩ (escapeChar c) ⟨c :: chars, true, none⟩ := by
  rw [escapeChar]
  split_ifs with hquote hbackslash hback htab hline hfeed hreturn hcontrol
  · subst hquote; exact .escape rfl (.done _)
  · subst hbackslash; exact .escape rfl (.done _)
  · subst hback; exact .escape rfl (.done _)
  · subst htab; exact .escape rfl (.done _)
  · subst hline; exact .escape rfl (.done _)
  · subst hfeed; exact .escape rfl (.done _)
  · subst hreturn; exact .escape rfl (.done _)
  · exact .unit (codeUnit?_control hcontrol) (pushUnit_control chars hcontrol ▸ .done _)
  · exact .plain hcontrol hquote hbackslash (.done _)

theorem pieces_flatMap (s chars : List Char) :
    Pieces ⟨chars, true, none⟩ (s.flatMap escapeChar) ⟨s.reverse ++ chars, true, none⟩ := by
  induction s generalizing chars with
  | nil => exact .done _
  | cons c s ih =>
    rw [List.flatMap_cons, List.reverse_cons, List.append_assoc]
    exact (pieces_escapeChar chars c).append (ih (c :: chars))

theorem pieces_toList (s : String) :
    ∃ st, Pieces .start (s.toList.flatMap escapeChar) st ∧ st.value = some s := by
  refine ⟨_, pieces_flatMap s.toList [], ?_⟩
  simp [State.value, State.settle]

end Quoted

theorem text_string (s : String) : (Doc.string (some s)).Text (quoteChars s) := by
  obtain ⟨st, hpieces, hvalue⟩ := Quoted.pieces_toList s
  rw [← hvalue]
  exact .string hpieces

namespace Numeral

theorem magnitudeText_toDigits (negative : Bool) (n : Nat) :
    MagnitudeText ⟨negative, Nat.toDigits 10 n, none, none⟩ (Nat.toDigits 10 n) := by
  refine ⟨areDigits_toDigits n, fun rest heq => ?_, [], [], rfl, rfl, by simp⟩
  by_cases hn : n = 0
  · rw [hn] at heq
    exact (List.cons.inj heq).2.symm
  · exact absurd (congrArg List.head? heq) (head?_toDigits hn)

theorem magnitudeText_unsignedChars {n : Numeral} (h : DecimalStyle.IsFloat n) :
    n.MagnitudeText (DecimalStyle.json.unsignedChars n) := by
  refine ⟨h.whole, h.leading, _, _, ?_, ?_, rfl⟩
  · cases hfraction : n.fraction with
    | none => rfl
    | some ds => exact ⟨h.fraction ds hfraction, rfl⟩
  · rw [DecimalStyle.exponentChars]
    cases hexponent : n.exponent with
    | none => rfl
    | some e =>
      obtain ⟨negative, ds⟩ := e
      refine ⟨h.exponent _ hexponent, 'e', _, .inl rfl, ?_, rfl⟩
      cases negative with
      | true => rfl
      | false => exact .inr rfl

end Numeral

def Numeral.ofInt (value : Int) : Numeral :=
  ⟨decide (value < 0), Nat.toDigits 10 value.natAbs, none, none⟩

theorem Numeral.text_int (value : Int)
    (fits : -0x8000000000000000 ≤ value ∧ value < 0x10000000000000000) :
    (ofInt value).Text (Number.int value fits).chars := by
  refine ⟨_, magnitudeText_toDigits _ value.natAbs, ?_⟩
  simp [ofInt, Number.chars]

theorem Numeral.number?_ofInt (value : Int)
    (fits : -0x8000000000000000 ≤ value ∧ value < 0x10000000000000000) :
    (ofInt value).number? = some (.int value fits) := by
  have hnat : natOf (Nat.toDigits 10 value.natAbs) = value.natAbs :=
    Binary64.digitsValue_toDigits _
  have hvalue : (if value < 0 then -(value.natAbs : Int) else value.natAbs) = value := by omega
  have hzero : ¬ (value < 0 ∧ (value.natAbs : Int) = 0) := by omega
  simp only [number?, ofInt, hnat, decide_eq_true_eq, hvalue]
  rw [if_neg hzero, Number.ofInt?, dif_pos fits]
  rfl

theorem exists_text_chars (n : Number) : ∃ numeral : Numeral, numeral.Text n.chars := by
  cases n with
  | int value fits => exact ⟨_, Numeral.text_int value fits⟩
  | float x =>
    obtain ⟨numeral, hnegative, hfloat, hchars, -⟩ := DecimalStyle.json.magnitude_text x
    refine ⟨numeral, _, Numeral.magnitudeText_unsignedChars hfloat, ?_⟩
    rw [hnegative, ← hchars]
    rfl

theorem text_number {n : Number} (h : n.ReadsBack) : (Doc.number (some n)).Text n.chars := by
  obtain ⟨numeral, htext⟩ := exists_text_chars n
  have hread := Doc.ofText_text (.number htext) areBlanks_nil areBlanks_nil
  rw [List.nil_append, List.append_nil] at hread
  rw [Number.ReadsBack, decode, Number.text, String.toList_ofList, hread] at h
  have hvalue : numeral.number? = some n := by
    cases hnumber : numeral.number? with
    | none =>
      rw [hnumber] at h
      cases h
    | some found =>
      rw [hnumber] at h
      cases h
      rfl
  exact hvalue ▸ .number htext

theorem readsBack_int (value : Int)
    (fits : -0x8000000000000000 ≤ value ∧ value < 0x10000000000000000) :
    (Number.int value fits).ReadsBack := by
  have htext := Numeral.text_int value fits
  have hread := Doc.ofText_text (.number htext) areBlanks_nil areBlanks_nil
  have hvalue := Numeral.number?_ofInt value fits
  rw [List.nil_append, List.append_nil, hvalue] at hread
  rw [Number.ReadsBack, decode, Number.text, String.toList_ofList, hread]
  rfl

mutual
def Doc.ofJson : Json → Doc
  | .null => .null
  | .bool value => .bool value
  | .number value => .number (some value)
  | .string value => .string (some value)
  | .array items => .array (Items.ofJson items)
  | .object members => .object (DocMembers.ofJson members)
def Items.ofJson : List Json → Items
  | [] => .done
  | item :: rest => .item (Doc.ofJson item) (Items.ofJson rest)
def DocMembers.ofJson : List (String × Json) → DocMembers
  | [] => .done
  | (name, value) :: rest => .member (some name) (Doc.ofJson value) (DocMembers.ofJson rest)
end

def comma (first : Bool) : List Char := if first then [] else [',']

theorem separates_comma (first : Bool) : Separates first (comma first) := by
  cases first with
  | true => exact areBlanks_nil
  | false => exact ⟨[], [], areBlanks_nil, areBlanks_nil, rfl⟩

theorem text_itemChars {item : Json} {rest : List Json}
    (h : ∀ value ∈ item :: rest, (Doc.ofJson value).Text value.chars) (first : Bool) :
    Items.Text first (Items.ofJson (item :: rest))
      (comma first ++ (itemChars (item :: rest) ++ [']'])) := by
  obtain ⟨hitem, hrest⟩ := List.forall_mem_cons.mp h
  induction rest generalizing item first with
  | nil => exact .item (separates_comma first) hitem (.done areBlanks_nil)
  | cons next rest ih =>
    have hnext := ih hrest false (hrest next List.mem_cons_self)
      (List.forall_mem_cons.mp hrest).2
    have hchars : itemChars (item :: next :: rest) ++ [']'] =
        item.chars ++ (comma false ++ (itemChars (next :: rest) ++ [']'])) := by
      simp [itemChars, comma]
    rw [hchars]
    exact .item (separates_comma first) hitem hnext

theorem text_member (after : List Char) (hafter : AreBlanks after) {first : Bool} {value : Doc}
    {others : DocMembers} {separator s tail : List Char} (hseparator : Separates first separator)
    (name : String) (hvalue : value.Text s) (hothers : DocMembers.Text false others tail) :
    DocMembers.Text first (.member (some name) value others)
      (separator ++ (quoteChars name ++ ':' :: (after ++ (s ++ tail)))) := by
  obtain ⟨st, hpieces, hst⟩ := Quoted.pieces_toList name
  rw [← hst]
  simpa [quoteChars] using
    DocMembers.Text.member hseparator hpieces areBlanks_nil hafter hvalue hothers

theorem text_memberChars {member : String × Json} {rest : List (String × Json)}
    (h : ∀ entry ∈ member :: rest, (Doc.ofJson entry.2).Text entry.2.chars) (first : Bool) :
    DocMembers.Text first (DocMembers.ofJson (member :: rest))
      (comma first ++ (memberChars (member :: rest) ++ ['}'])) := by
  obtain ⟨hmember, hrest⟩ := List.forall_mem_cons.mp h
  induction rest generalizing member first with
  | nil =>
    have hchars : memberChars [member] ++ ['}'] =
        quoteChars member.1 ++ ':' :: (member.2.chars ++ ['}']) := by
      simp [memberChars]
    rw [hchars]
    exact text_member [] areBlanks_nil (separates_comma first) member.1 hmember (.done areBlanks_nil)
  | cons next rest ih =>
    have hnext := ih hrest false (hrest next List.mem_cons_self)
      (List.forall_mem_cons.mp hrest).2
    have hchars : memberChars (member :: next :: rest) ++ ['}'] =
        quoteChars member.1 ++ ':' ::
          (member.2.chars ++ (comma false ++ (memberChars (next :: rest) ++ ['}']))) := by
      simp [memberChars, comma]
    rw [hchars]
    exact text_member [] areBlanks_nil (separates_comma first) member.1 hmember hnext

theorem text_compact {j : Json} (h : ∀ n, NodeOf (number n) j → n.ReadsBack) :
    (Doc.ofJson j).Text j.chars := by
  induction j with
  | null => exact .null
  | bool value => cases value <;> exact .bool _
  | number n => exact text_number (h n .root)
  | string s => exact text_string s
  | array items ih =>
    have hitems : ∀ item ∈ items, (Doc.ofJson item).Text item.chars := fun item hmem =>
      ih item hmem fun n hn => h n (.item hmem hn)
    cases items with
    | nil => exact .array (.done areBlanks_nil)
    | cons item rest => exact .array (text_itemChars hitems true)
  | object members ih =>
    have hmembers : ∀ member ∈ members, (Doc.ofJson member.2).Text member.2.chars :=
      fun member hmem => ih member hmem fun n hn => h n (.member hmem hn)
    cases members with
    | nil => exact .object (.done areBlanks_nil)
    | cons member rest => exact .object (text_memberChars hmembers true)

theorem ofText_compact {j : Json} (h : ∀ n, NodeOf (number n) j → n.ReadsBack) :
    Doc.ofText j.compact.toList = (Doc.ofJson j, false) := by
  have hread := Doc.ofText_text (text_compact h) areBlanks_nil areBlanks_nil
  rw [List.nil_append, List.append_nil] at hread
  rw [compact, String.toList_ofList, hread]

end Json
end EnvClient
