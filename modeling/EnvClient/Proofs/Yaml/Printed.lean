import EnvClient.Proofs.Yaml.Tokens

/-! Printed values as texts: every character of one may stand in a text, and the lexer reads the
words of the value. -/
namespace EnvClient.Yaml

def Printable (s : List Char) : Prop := ∀ c ∈ s, isPrintable c = true

theorem Printable.append {s t : List Char} (hs : Printable s) (ht : Printable t) :
    Printable (s ++ t) := fun c hc => (List.mem_append.mp hc).elim (hs c) (ht c)

theorem Printable.cons {c : Char} {s : List Char} (hc : isPrintable c = true) (hs : Printable s) :
    Printable (c :: s) := List.forall_mem_cons.mpr ⟨hc, hs⟩

theorem Printable.nil : Printable [] := nofun

theorem printable_pad (indent : Nat) : Printable (pad indent) := fun c hc => by
  rw [mem_pad hc]
  decide

theorem printable_text (s : String) (h : s.toList.all isPrintable = true) : Printable s.toList :=
  List.all_eq_true.mp h

theorem printable_textLine (indent : Nat) (s : String) : Printable (textLine indent s) :=
  fun _ => isPrintable_of_mem_textLine

theorem printable_inlineKey (name : String) : Printable (inlineKey name) :=
  fun _ => isPrintable_of_mem_styled (Style.allows_choose true name.toList).1

theorem printable_leafLine (indent : Nat) (j : Json) : Printable ((leafLine indent j).getD []) := by
  cases j with
  | null => exact printable_text "null\n" (by decide)
  | bool value =>
    cases value with
    | true => exact printable_text "true\n" (by decide)
    | false => exact printable_text "false\n" (by decide)
  | number n =>
    exact .append (fun c hc => (Token.isInLine_iff.mp (isInLine_of_isNumberChar
      ((isNumeral_numberChars n).chars c hc))).1) (.cons (by decide) .nil)
  | string s => exact printable_textLine _ _
  | array items =>
    cases items with
    | nil => exact printable_text "[]\n" (by decide)
    | cons item rest => exact .nil
  | object members =>
    cases members with
    | nil => exact printable_text "\x7b\x7d\n" (by decide)
    | cons member rest => exact .nil

theorem printable_lead (indented : Bool) (indent : Nat) :
    Printable (if indented then [] else pad indent) := by
  split
  · exact .nil
  · exact printable_pad indent

mutual
theorem printable_besideMark : (j : Json) → (indent : Nat) → Printable (besideMark indent j)
  | .array (item :: rest), indent => by
    rw [besideMark]
    exact .append (.cons (by decide) (.cons (by decide) (printable_besideMark item _)))
      (printable_blockItems rest _ _)
  | .object ((name, value) :: rest), indent => by
    rw [besideMark]
    exact printable_blockMembers ((name, value) :: rest) _ _
  | .null, indent => printable_leafLine (indent + 2) (.null)
  | .bool value, indent => printable_leafLine (indent + 2) (.bool value)
  | .number n, indent => printable_leafLine (indent + 2) (.number n)
  | .string s, indent => printable_leafLine (indent + 2) (.string s)
  | .array [], indent => printable_leafLine (indent + 2) (.array [])
  | .object [], indent => printable_leafLine (indent + 2) (.object [])
theorem printable_besideKey : (j : Json) → (indent : Nat) → Printable (besideKey indent j)
  | .array (item :: rest), indent => by
    rw [besideKey]
    exact .cons (by decide) (printable_blockItems (item :: rest) _ _)
  | .object ((name, value) :: rest), indent => by
    rw [besideKey]
    exact .cons (by decide) (printable_blockMembers ((name, value) :: rest) _ _)
  | .null, indent => .cons (by decide) (printable_leafLine (indent + 2) (.null))
  | .bool value, indent => .cons (by decide) (printable_leafLine (indent + 2) (.bool value))
  | .number n, indent => .cons (by decide) (printable_leafLine (indent + 2) (.number n))
  | .string s, indent => .cons (by decide) (printable_leafLine (indent + 2) (.string s))
  | .array [], indent => .cons (by decide) (printable_leafLine (indent + 2) (.array []))
  | .object [], indent => .cons (by decide) (printable_leafLine (indent + 2) (.object []))
theorem printable_blockItems : (items : List Json) → (indent : Nat) → (indented : Bool) →
    Printable (blockItems indent indented items)
  | [], _, _ => by
    rw [blockItems]
    exact .nil
  | item :: rest, indent, indented => by
    rw [blockItems]
    exact .append (.append (printable_lead indented indent)
      (.cons (by decide) (.cons (by decide) (printable_besideMark item _))))
      (printable_blockItems rest _ _)
theorem printable_blockMembers : (members : List (String × Json)) → (indent : Nat) →
    (indented : Bool) → Printable (blockMembers indent indented members)
  | [], _, _ => by
    rw [blockMembers]
    exact .nil
  | (name, value) :: rest, indent, indented => by
    rw [blockMembers]
    refine .append (.append (printable_lead indented indent) ?_) (printable_blockMembers rest _ _)
    split
    · exact .append (printable_inlineKey name)
        (.cons (by decide) (printable_besideKey value _))
    · exact .cons (by decide) (.cons (by decide) (.append (.append (printable_textLine _ _)
        (printable_pad _)) (.cons (by decide) (.cons (by decide) (printable_besideMark value _)))))
end

theorem isAllowed_of_isPrintable {c : Char} (h : isPrintable c = true) : isAllowed c = true := by
  simp only [isPrintable, isAllowed, Bool.or_eq_true, Bool.and_eq_true, beq_iff_eq,
    decide_eq_true_eq, bne_iff_ne] at h ⊢
  omega

theorem toList_print (j : Json) :
    (print j).toList = (leafLine 2 j).getD (block 0 true j) := by
  rw [print, String.toList_ofList]
  cases leafLine 2 j <;> rfl

theorem printable_print (j : Json) : Printable (print j).toList := by
  rw [toList_print]
  have hline := printable_leafLine 2 j
  cases hleaf : leafLine 2 j with
  | some line =>
    rw [hleaf] at hline
    exact hline
  | none =>
    cases j with
    | array items => exact printable_blockItems items 0 true
    | object members => exact printable_blockMembers members 0 true
    | _ => cases hleaf

namespace Lexer

theorem Yields.whole {s : List Char} {opening : Token} {ws : List Token}
    (h : ∀ ts, (∀ q : Place, q.column = 0 → Yields (before q [] (ws.reverse ++
        openTokens [] 0 opening []) (openColumns [] 0) none true) ts) →
      Yields (before .start (s ++ (pad 0 ++ [])) [] [] none true) ts) :
    Yields (before .start s [] [] none true) (opening :: (ws ++ [.blockEnd])) := by
  have hclosed := h (opening :: (ws ++ [.blockEnd])) fun q _ => by
    refine .close starts_nil (fun h => absurd rfl h) ?_
    have hend := @Yields.finish (.blockEnd :: (ws.reverse ++ [opening])) true q
    simpa [openTokens] using hend
  have hend : pad 0 ++ [] = ([] : List Char) := rfl
  rwa [hend, List.append_nil] at hclosed

theorem yields_print (j : Json) :
    Yields (before .start (print j).toList [] [] none true) (words false j) := by
  rw [toList_print]
  cases hleaf : Yaml.leafLine 2 j with
  | some line =>
    have hline := @Yields.leafLine .start [] [] (words false j) [] true 0 0 j line false hleaf
      (.alone .start) fun q _ => by
        have hend := @Yields.finish ((words false j).reverse ++ []) true q
        simpa using hend
    have hend : pad 0 ++ [] = ([] : List Char) := rfl
    rwa [hend, List.append_nil] at hline
  | none =>
    cases j with
    | array items =>
      cases items with
      | nil => cases hleaf
      | cons item rest =>
        exact .whole fun ts h => .items (item :: rest) (List.cons_ne_nil _ _) rfl nofun
          (Nat.le_refl 0) starts_nil h
    | object members =>
      cases members with
      | nil => cases hleaf
      | cons member rest =>
        exact .whole fun ts h => .members (member :: rest) (List.cons_ne_nil _ _) rfl nofun
          (Nat.le_refl 0) starts_nil h
    | _ => cases hleaf

end Lexer

theorem print_object {members : List (String × Json)} (hne : members ≠ []) :
    print (.object members) = String.ofList (blockMembers 0 true members) := by
  cases members with
  | nil => exact absurd rfl hne
  | cons member rest => rfl

theorem colon_mem_print {members : List (String × Json)} (hne : members ≠ []) :
    ':' ∈ (print (.object members)).toList := by
  rw [print_object hne, String.toList_ofList]
  cases members with
  | nil => exact absurd rfl hne
  | cons member rest =>
    rw [blockMembers]
    refine List.mem_append_left _ (List.mem_append_right _ ?_)
    split
    · exact List.mem_append_right _ List.mem_cons_self
    · exact List.mem_cons_of_mem _ (List.mem_cons_of_mem _
        (List.mem_append_right _ List.mem_cons_self))

/-- The words of a printed value are those of the value. -/
theorem Token.ofText?_print (j : Json) : Token.ofText? (print j) = some (Lexer.words false j) := by
  have hallowed : (print j).toList.all isAllowed = true :=
    List.all_eq_true.mpr fun c hc => isAllowed_of_isPrintable (printable_print j c hc)
  rw [Token.ofText?, if_pos hallowed]
  exact Lexer.yields_print j _ (Nat.lt_succ_of_le (Input.length_ofChars_le _ _))

end EnvClient.Yaml
