import EnvClient.Proofs.Nesting
import EnvClient.Proofs.Yaml.Node
import EnvClient.Yaml.Value

/-! Values of trees. The tree of a value has that value, whether keys are taken by their texts or
by their values; a tree has no value but a sorted one, nested no deeper than is asked for. -/
namespace EnvClient.Yaml

namespace Node

theorem json?_textNode (inline : Bool) (s : String) :
    Scalar.json? bare (Style.choose inline s.toList == .plain) s = some (.string s) := by
  have hallows := (Style.allows_choose inline s.toList).1
  cases hstyle : Style.choose inline s.toList with
  | plain =>
    rw [hstyle] at hallows
    change Scalar.untagged? s = _
    rw [Scalar.untagged?, hallows.2.2]
    rfl
  | single => rfl
  | double => rfl
  | literal => rfl

theorem key?_textNode (byText inline : Bool) (s : String) :
    key? byText (textNode inline s) = some s := by
  cases byText with
  | true => rfl
  | false =>
    simp only [key?, textNode, Bool.false_eq_true, if_false, json?_textNode]

theorem json?_numberNode (n : Number) :
    Scalar.json? bare true (String.ofList (numberChars n)) = some (.number n) := by
  change (Scalar.meaning (String.ofList (numberChars n)).toList).json? _ = _
  rw [String.toList_ofList, meaning_numberChars]
  rfl

mutual
theorem json?_nodeOf (byText : Bool) : (j : Json) → ∀ {depth : Nat}, j.Fits depth →
    json? byText depth (nodeOf j) = some j
  | .null, _, _ => by rw [nodeOf, json?]; rfl
  | .bool false, _, _ => by rw [nodeOf, json?]; rfl
  | .bool true, _, _ => by rw [nodeOf, json?]; rfl
  | .number n, _, _ => by rw [nodeOf, json?, json?_numberNode]
  | .string s, _, _ => by rw [nodeOf, textNode, json?, json?_textNode]
  | .array items, _, h => by
    obtain ⟨below, rfl⟩ := h.succ_of_array
    rw [nodeOf, json?, if_neg (by decide), jsonItems?_itemNodes byText items (Json.fits_array_succ.mp h)]
    rfl
  | .object members, _, h => by
    obtain ⟨below, rfl⟩ := h.succ_of_object
    obtain ⟨hsorted, hvalues⟩ := Json.fits_object_succ.mp h
    rw [nodeOf, json?, if_neg (by decide), @jsonEntries?_memberNodes byText members below [] hsorted hvalues]
    rfl
theorem jsonItems?_itemNodes (byText : Bool) : (items : List Json) → ∀ {depth : Nat},
    (∀ item ∈ items, item.Fits depth) → jsonItems? byText depth (itemNodes items) = some items
  | [], _, _ => by rw [itemNodes, jsonItems?]
  | item :: rest, _, h => by
    obtain ⟨hitem, hrest⟩ := List.forall_mem_cons.mp h
    rw [itemNodes, jsonItems?, json?_nodeOf byText item hitem, jsonItems?_itemNodes byText rest hrest]
    rfl
theorem jsonEntries?_memberNodes (byText : Bool) : (members : Members Json) → ∀ {depth : Nat}
    {m : Members Json}, Members.Sorted (m ++ members) → (∀ member ∈ members, member.2.Fits depth) →
    jsonEntries? byText depth (memberNodes members) m = some (m ++ members)
  | [], _, m, _, _ => by rw [memberNodes, jsonEntries?, List.append_nil]
  | (name, value) :: rest, _, m, hsorted, h => by
    obtain ⟨hvalue, hrest⟩ := List.forall_mem_cons.mp h
    have happend : m ++ (name, value) :: rest = (m ++ [(name, value)]) ++ rest := by
      rw [List.append_assoc]
      rfl
    rw [memberNodes, jsonEntries?, key?_textNode, json?_nodeOf byText value hvalue]
    change jsonEntries? byText _ (memberNodes rest) (Members.insert name value m) = _
    rw [hsorted.insert_append, jsonEntries?_memberNodes byText rest (happend ▸ hsorted) hrest,
      happend]
end

mutual
theorem expandWith_nodeOf (follow : Nat → Expand Node) (budget : Budget) :
    (j : Json) → expandWith follow (nodeOf j) budget = some (nodeOf j, budget)
  | .null | .bool _ | .number _ => by rw [nodeOf, expandWith]
  | .string s => by rw [nodeOf, textNode, expandWith]
  | .array items => by
    rw [nodeOf, expandWith, expandItems_itemNodes follow budget items]
    rfl
  | .object members => by
    rw [nodeOf, expandWith, expandEntries_memberNodes follow budget members]
    rfl
theorem expandItems_itemNodes (follow : Nat → Expand Node) (budget : Budget) :
    (items : List Json) → expandItems follow (itemNodes items) budget = some (itemNodes items, budget)
  | [] => by rw [itemNodes, expandItems]
  | item :: rest => by
    rw [itemNodes, expandItems, expandWith_nodeOf follow budget item, Option.bind_eq_bind,
      Option.bind_some]
    dsimp only
    rw [expandItems_itemNodes follow budget rest]
    rfl
theorem expandEntries_memberNodes (follow : Nat → Expand Node) (budget : Budget) :
    (members : List (String × Json)) →
      expandEntries follow (memberNodes members) budget = some (memberNodes members, budget)
  | [] => by rw [memberNodes, expandEntries]
  | (name, value) :: rest => by
    rw [memberNodes, expandEntries, textNode, expandWith, Option.bind_eq_bind, Option.bind_some]
    dsimp only
    rw [expandWith_nodeOf follow budget value, Option.bind_eq_bind, Option.bind_some]
    dsimp only
    rw [expandEntries_memberNodes follow budget rest]
    rfl
end

end Node

namespace Document

theorem expand_nodeOf (d : Document) (j : Json) (budget : Node.Budget) :
    d.expand (nodeOf j) budget = some (nodeOf j, budget) :=
  Node.expandWith_nodeOf _ budget j

theorem expand_textNode (d : Document) (inline : Bool) (s : String) (budget : Node.Budget) :
    d.expand (textNode inline s) budget = some (textNode inline s, budget) := by
  rw [expand, textNode, Node.expandWith]

end Document

theorem Meaning.fits_json? {text : String} {j : Json} (depth : Nat) :
    ∀ {m : Meaning}, m.json? text = some j → j.Fits depth
  | .null, h | .nonFinite, h => by
    cases h
    exact Json.fits_null depth
  | .bool value, h => by
    cases h
    exact Json.fits_bool depth value
  | .number value, h => by
    cases h
    exact Json.fits_number depth value
  | .wide, h => by cases h
  | .text, h => by
    cases h
    exact Json.fits_string depth text

theorem Scalar.fits_tagged? {tag : Tag} {plain : Bool} {text : String} {j : Json} (depth : Nat)
    (h : tagged? tag plain text = some j) : j.Fits depth := by
  rw [tagged?] at h
  split at h
  · cases h
  split at h
  · obtain ⟨value, -, rfl⟩ := Option.map_eq_some_iff.mp h
    exact Json.fits_bool depth value
  split at h
  · obtain ⟨m, -, h⟩ := Option.bind_eq_some_iff.mp h
    exact Meaning.fits_json? depth h
  split at h
  · obtain ⟨m, -, h⟩ := Option.bind_eq_some_iff.mp h
    exact Meaning.fits_json? depth h
  split at h
  · split at h
    · cases h
      exact Json.fits_null depth
    · cases h
  split at h
  · exact Meaning.fits_json? depth h
  · cases h
    exact Json.fits_string depth text

theorem Scalar.fits_json? {p : Properties} {plain : Bool} {text : String} {j : Json} (depth : Nat)
    (h : json? p plain text = some j) : j.Fits depth := by
  rw [json?] at h
  split at h
  · exact fits_tagged? depth h
  split at h
  · exact Meaning.fits_json? depth h
  · cases h
    exact Json.fits_string depth text

namespace Node

mutual
theorem fits_json? {byText : Bool} {j : Json} : (node : Node) → ∀ {depth : Nat},
    json? byText depth node = some j → j.Fits depth
  | reference _, depth, h => by cases depth <;> cases h
  | scalar p plain text, depth, h => by
    rw [json?] at h
    exact Scalar.fits_json? depth h
  | sequence p items, 0, h => by cases h
  | mapping p entries, 0, h => by cases h
  | sequence p items, depth + 1, h => by
    rw [json?] at h
    split at h
    · cases h
    · obtain ⟨values, hvalues, rfl⟩ := Option.map_eq_some_iff.mp h
      exact Json.fits_array_succ.mpr (fits_jsonItems? items hvalues)
  | mapping p entries, depth + 1, h => by
    rw [json?] at h
    split at h
    · cases h
    · obtain ⟨values, hvalues, rfl⟩ := Option.map_eq_some_iff.mp h
      exact fits_jsonEntries? entries (Json.fits_empty depth) hvalues
theorem fits_jsonItems? {byText : Bool} {depth : Nat} : (items : List Node) →
    ∀ {values : List Json}, jsonItems? byText depth items = some values →
      ∀ value ∈ values, value.Fits depth
  | [], _, h => by
    cases h
    exact nofun
  | item :: rest, _, h => by
    rw [jsonItems?] at h
    obtain ⟨first, hfirst, h⟩ := Option.bind_eq_some_iff.mp h
    obtain ⟨others, hothers, h⟩ := Option.bind_eq_some_iff.mp h
    cases h
    exact List.forall_mem_cons.mpr ⟨fits_json? item hfirst, fits_jsonItems? rest hothers⟩
theorem fits_jsonEntries? {byText : Bool} {depth : Nat} : (entries : List (Node × Node)) →
    ∀ {m values : Members Json}, (Json.object m).Fits (depth + 1) →
      jsonEntries? byText depth entries m = some values → (Json.object values).Fits (depth + 1)
  | [], _, _, hm, h => by
    cases h
    exact hm
  | (key, value) :: rest, _, _, hm, h => by
    rw [jsonEntries?] at h
    obtain ⟨name, -, h⟩ := Option.bind_eq_some_iff.mp h
    obtain ⟨j, hj, h⟩ := Option.bind_eq_some_iff.mp h
    exact fits_jsonEntries? rest (hm.insert (fits_json? value hj) name) h
end

end Node

/-- The only document of a text as a plain value, with keys taken by their texts or by their
values. -/
def readBy? (byText : Bool) (s : String) : Option Json := do
  let d ← Document.ofText? s
  match d.root with
  | none => return .null
  | some root =>
    let (node, _) ← d.expand root d.budget
    node.json? byText maxDepth

theorem readBy?_true (s : String) : readBy? true s = readValue? s := rfl

/-- A value is read from its own text, its keys as the texts that they are. -/
theorem readBy?_print (byText : Bool) {j : Json} (h : j.Fits maxDepth) :
    readBy? byText (print j) = some j := by
  rw [readBy?, Document.ofText?_print, Option.bind_eq_bind, Option.bind_some]
  dsimp only
  rw [Document.expand_nodeOf, Option.bind_eq_bind, Option.bind_some]
  exact Node.json?_nodeOf byText j h

end EnvClient.Yaml
