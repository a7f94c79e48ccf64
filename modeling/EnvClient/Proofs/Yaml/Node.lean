import EnvClient.Proofs.Yaml.Printed
import EnvClient.Yaml.Node.Parser

/-! The tree of a printed value: the parser puts the words of a value together again, and finds
neither anchors nor tags. -/
namespace EnvClient.Yaml

open Lexer (words itemWords memberWords textWord)

def textNode (inline : Bool) (s : String) : Node :=
  .scalar Node.bare (Style.choose inline s.toList == .plain) s

mutual
def nodeOf : Json → Node
  | .null => .scalar Node.bare true "null"
  | .bool value => .scalar Node.bare true (if value then "true" else "false")
  | .number n => .scalar Node.bare true (String.ofList (numberChars n))
  | .string s => textNode false s
  | .array items => .sequence Node.bare (itemNodes items)
  | .object members => .mapping Node.bare (memberNodes members)
def itemNodes : List Json → List Node
  | [] => []
  | item :: rest => nodeOf item :: itemNodes rest
def memberNodes : List (String × Json) → List (Node × Node)
  | [] => []
  | (name, value) :: rest =>
    (textNode (Style.isInlineKey name) name, nodeOf value) :: memberNodes rest
end

namespace Parser

variable {anchors : List (String × Nat)} {handles : List (String × Tag)}

def startsNode (beside : Bool) : Token → Bool
  | .scalar _ _ | .flowSequence | .flowMapping | .blockSequence | .blockMapping => true
  | .entry => beside
  | _ => false

theorem words_cons (beside : Bool) (j : Json) :
    ∃ t rest, words beside j = t :: rest ∧ startsNode beside t = true := by
  cases j with
  | null => exact ⟨_, _, rfl, rfl⟩
  | bool value => exact ⟨_, _, rfl, rfl⟩
  | number n => exact ⟨_, _, rfl, rfl⟩
  | string s => exact ⟨_, _, rfl, rfl⟩
  | array items =>
    cases items with
    | nil => exact ⟨_, _, rfl, rfl⟩
    | cons item rest =>
      cases beside with
      | true => exact ⟨_, _, rfl, rfl⟩
      | false => exact ⟨_, _, rfl, rfl⟩
  | object members =>
    cases members with
    | nil => exact ⟨_, _, rfl, rfl⟩
    | cons member rest => exact ⟨_, _, rfl, rfl⟩

theorem not_isDirective_of_startsNode {beside : Bool} {t : Token}
    (h : startsNode beside t = true) : isDirective t = false ∧ t ≠ .documentStart := by
  cases t with
  | documentStart => cases h
  | directive d => cases h
  | _ => exact ⟨rfl, nofun⟩

theorem orEmpty_words {beside : Bool} {j : Json} {rest : List Token} {ends : List Token}
    (parse : Parse Node) (hends : ends.all (!startsNode beside ·) = true) :
    orEmpty ends parse ⟨words beside j ++ rest, anchors, handles⟩ =
      parse ⟨words beside j ++ rest, anchors, handles⟩ := by
  obtain ⟨t, more, heq, ht⟩ := words_cons beside j
  have hnot : ends.contains t = false := by
    refine Bool.eq_false_iff.mpr fun hmem => ?_
    have hend := List.all_eq_true.mp hends t (List.contains_iff_mem.mp hmem)
    rw [ht] at hend
    cases hend
  have hat : isAt ends ⟨words beside j ++ rest, anchors, handles⟩ = false := by
    rw [isAt, peek, heq]
    exact hnot
  rw [orEmpty, hat, if_neg Bool.false_ne_true]

section Steps

variable {fuel : Nat} {block beside : Bool} {rest : List Token}

theorem node_scalar (plain : Bool) (text : String) :
    node (fuel + 1) block beside ⟨.scalar plain text :: rest, anchors, handles⟩ =
      some (.scalar Node.bare plain text, ⟨rest, anchors, handles⟩) := rfl

theorem node_flowSequence :
    node (fuel + 2) block beside ⟨.flowSequence :: .flowSequenceEnd :: rest, anchors, handles⟩ =
      some (.sequence Node.bare [], ⟨rest, anchors, handles⟩) := rfl

theorem node_flowMapping :
    node (fuel + 2) block beside ⟨.flowMapping :: .flowMappingEnd :: rest, anchors, handles⟩ =
      some (.mapping Node.bare [], ⟨rest, anchors, handles⟩) := rfl

theorem blockItems_entry :
    blockItems (fuel + 1) ⟨.entry :: rest, anchors, handles⟩ =
      (orEmpty [.entry, .blockEnd] (node fuel true false) ⟨rest, anchors, handles⟩).bind
        fun (item, p) => (blockItems fuel p).bind fun (items, p) => some (item :: items, p) := rfl

theorem besideItems_entry :
    besideItems (fuel + 1) ⟨.entry :: rest, anchors, handles⟩ =
      (orEmpty [.entry, .key, .value, .blockEnd] (node fuel true false)
        ⟨rest, anchors, handles⟩).bind
        fun (item, p) => (besideItems fuel p).bind fun (items, p) => some (item :: items, p) := rfl

theorem besideItems_end (h : rest.head? ≠ some .entry) :
    besideItems (fuel + 1) ⟨rest, anchors, handles⟩ = some ([], ⟨rest, anchors, handles⟩) := by
  rw [besideItems.eq_def]
  simp only [peek]

theorem blockEntries_key {plain : Bool} {text : String} :
    blockEntries (fuel + 2) ⟨.key :: .scalar plain text :: .value :: rest, anchors, handles⟩ =
      (orEmpty [.key, .value, .blockEnd] (node (fuel + 1) true true) ⟨rest, anchors, handles⟩).bind
        fun (value, p) => (blockEntries (fuel + 1) p).bind fun (entries, p) =>
          some ((.scalar Node.bare plain text, value) :: entries, p) := rfl

end Steps

mutual
/-- The words of a value, and nothing after them, are its node. -/
theorem node_words : (j : Json) → (beside : Bool) → ∀ {fuel : Nat} {flag : Bool} {rest : List Token},
    2 * (words beside j).length + 2 ≤ fuel → (beside = true → flag = true ∧ rest.head? ≠ some .entry) →
    node fuel true flag ⟨words beside j ++ rest, anchors, handles⟩ =
      some (nodeOf j, ⟨rest, anchors, handles⟩)
  | .null, _, fuel + 1, _, _, _, _ => node_scalar _ _
  | .bool _, _, fuel + 1, _, _, _, _ => node_scalar _ _
  | .number _, _, fuel + 1, _, _, _, _ => node_scalar _ _
  | .string _, _, fuel + 1, _, _, _, _ => node_scalar _ _
  | .array [], _, fuel + 2, _, _, _, _ => node_flowSequence
  | .object [], _, fuel + 2, _, _, _, _ => node_flowMapping
  | .array (item :: more), true, fuel + 1, _, rest, hfuel, hbeside => by
    obtain ⟨rfl, hrest⟩ := hbeside rfl
    change 2 * (itemWords (item :: more)).length + 2 ≤ fuel + 1 at hfuel
    change (besideItems fuel ⟨itemWords (item :: more) ++ rest, anchors, handles⟩).map
      (fun (items, p) => (Node.sequence Node.bare items, p)) = _
    rw [besideItems_words (item :: more) (by omega) hrest]
    rfl
  | .array (item :: more), false, fuel + 1, _, rest, hfuel, _ => by
    change 2 * ((itemWords (item :: more) ++ [Token.blockEnd]).length + 1) + 2 ≤ fuel + 1 at hfuel
    rw [List.length_append] at hfuel
    change (blockItems fuel ⟨itemWords (item :: more) ++ [Token.blockEnd] ++ rest, anchors, handles⟩).map
      (fun (items, p) => (Node.sequence Node.bare items, p)) = _
    rw [List.append_assoc, List.singleton_append, blockItems_words (item :: more) (by omega)]
    rfl
  | .object (member :: more), _, fuel + 1, _, rest, hfuel, _ => by
    change 2 * ((memberWords (member :: more) ++ [Token.blockEnd]).length + 1) + 2 ≤ fuel + 1 at hfuel
    rw [List.length_append] at hfuel
    change (blockEntries fuel ⟨memberWords (member :: more) ++ [Token.blockEnd] ++ rest, anchors,
      handles⟩).map (fun (entries, p) => (Node.mapping Node.bare entries, p)) = _
    rw [List.append_assoc, List.singleton_append, blockEntries_words (member :: more) (by omega)]
    rfl
theorem blockItems_words : (items : List Json) → ∀ {fuel : Nat} {rest : List Token},
    2 * (itemWords items).length + 1 ≤ fuel →
    blockItems fuel ⟨itemWords items ++ .blockEnd :: rest, anchors, handles⟩ =
      some (itemNodes items, ⟨rest, anchors, handles⟩)
  | [], fuel + 1, _, _ => rfl
  | item :: more, fuel + 1, rest, hfuel => by
    rw [itemWords, List.length_cons, List.length_append] at hfuel
    rw [itemWords, List.cons_append, List.append_assoc, blockItems_entry,
      orEmpty_words _ (by decide), node_words item false (by omega) nofun, Option.bind_some]
    dsimp only
    rw [blockItems_words more (by omega)]
    rfl
theorem besideItems_words : (items : List Json) → ∀ {fuel : Nat} {rest : List Token},
    2 * (itemWords items).length + 1 ≤ fuel → rest.head? ≠ some .entry →
    besideItems fuel ⟨itemWords items ++ rest, anchors, handles⟩ =
      some (itemNodes items, ⟨rest, anchors, handles⟩)
  | [], fuel + 1, rest, _, hrest => besideItems_end hrest
  | item :: more, fuel + 1, rest, hfuel, hrest => by
    rw [itemWords, List.length_cons, List.length_append] at hfuel
    rw [itemWords, List.cons_append, List.append_assoc, besideItems_entry,
      orEmpty_words _ (by decide), node_words item false (by omega) nofun, Option.bind_some]
    dsimp only
    rw [besideItems_words more (by omega) hrest]
    rfl
theorem blockEntries_words : (members : List (String × Json)) → ∀ {fuel : Nat} {rest : List Token},
    2 * (memberWords members).length + 1 ≤ fuel →
    blockEntries fuel ⟨memberWords members ++ .blockEnd :: rest, anchors, handles⟩ =
      some (memberNodes members, ⟨rest, anchors, handles⟩)
  | [], fuel + 1, _, _ => rfl
  | (name, value) :: more, fuel + 2, rest, hfuel => by
    have hends : [Token.key, .value, .blockEnd].all
        (!startsNode (Style.isInlineKey name) ·) = true := by
      cases Style.isInlineKey name <;> decide
    have hnext : (memberWords more ++ Token.blockEnd :: rest).head? ≠ some .entry := by
      cases more with
      | nil => exact fun h => nomatch h
      | cons member more => exact fun h => nomatch h
    rw [memberWords, List.length_cons, List.length_cons, List.length_cons, List.length_append] at hfuel
    rw [memberWords, List.cons_append, List.cons_append, List.cons_append, List.append_assoc, textWord,
      blockEntries_key, orEmpty_words _ hends,
      node_words value _ (by omega) fun _ => ⟨rfl, hnext⟩, Option.bind_some]
    dsimp only
    rw [blockEntries_words more (by omega)]
    rfl
end

end Parser

theorem Document.ofText?_print (j : Json) :
    Document.ofText? (print j) = some ⟨some (nodeOf j)⟩ := by
  have hnode := @Parser.node_words [] Parser.standardHandles j false
    (2 * (words false j).length + 2) false [] (Nat.le_refl _) nofun
  rw [List.append_nil] at hnode
  obtain ⟨t, rest, hwords, ht⟩ := Parser.words_cons false j
  obtain ⟨hdirective, hmark⟩ := Parser.not_isDirective_of_startsNode ht
  rw [hwords] at hnode
  rw [Document.ofText?, Token.ofText?_print, Option.bind_some, hwords]
  simp only [Parser.document, hdirective, hmark, Bool.false_eq_true, or_self, if_false, hnode]
  rfl

end EnvClient.Yaml
