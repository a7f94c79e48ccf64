import EnvClient.Proofs.Json.Recovery

/-! Indented texts of values. They differ from the compact ones by blanks alone, so they stand for
the same values. -/
namespace EnvClient.Json

theorem areBlanks_space : AreBlanks [' '] := List.forall_mem_singleton.mpr (by decide)

theorem areBlanks_newline (depth : Nat) : AreBlanks (newline depth) := by
  refine List.forall_mem_cons.mpr ⟨by decide, fun c hc => ?_⟩
  rw [(List.mem_replicate.mp hc).2]
  decide

theorem separates_newline (first : Bool) (depth : Nat) :
    Separates first (comma first ++ newline depth) := by
  cases first with
  | true => exact areBlanks_newline depth
  | false => exact ⟨[], newline depth, areBlanks_nil, areBlanks_newline depth, rfl⟩

theorem text_prettyItems {depth : Nat} {items : List Json}
    (h : ∀ item ∈ items, (Doc.ofJson item).Text (item.prettyChars (depth + 1))) :
    Items.Text false (Items.ofJson items) (prettyItems depth items ++ (newline depth ++ [']'])) := by
  induction items with
  | nil => exact .done (areBlanks_newline depth)
  | cons item rest ih =>
    obtain ⟨hitem, hrest⟩ := List.forall_mem_cons.mp h
    have hchars : prettyItems depth (item :: rest) ++ (newline depth ++ [']']) =
        comma false ++ newline (depth + 1) ++ (item.prettyChars (depth + 1) ++
          (prettyItems depth rest ++ (newline depth ++ [']']))) := by
      simp [prettyItems, comma]
    rw [hchars]
    exact .item (separates_newline false _) hitem (ih hrest)

theorem text_prettyMembers {depth : Nat} {members : List (String × Json)}
    (h : ∀ member ∈ members, (Doc.ofJson member.2).Text (member.2.prettyChars (depth + 1))) :
    DocMembers.Text false (DocMembers.ofJson members)
      (prettyMembers depth members ++ (newline depth ++ ['}'])) := by
  induction members with
  | nil => exact .done (areBlanks_newline depth)
  | cons member rest ih =>
    obtain ⟨hmember, hrest⟩ := List.forall_mem_cons.mp h
    have hchars : prettyMembers depth (member :: rest) ++ (newline depth ++ ['}']) =
        comma false ++ newline (depth + 1) ++ (quoteChars member.1 ++ ':' :: ([' '] ++
          (member.2.prettyChars (depth + 1) ++
            (prettyMembers depth rest ++ (newline depth ++ ['}']))))) := by
      simp [prettyMembers, comma]
    rw [hchars]
    exact text_member _ areBlanks_space (separates_newline false _) member.1 hmember (ih hrest)

theorem text_pretty {j : Json} (h : ∀ n, NodeOf (number n) j → n.ReadsBack) (depth : Nat) :
    (Doc.ofJson j).Text (j.prettyChars depth) := by
  induction j generalizing depth with
  | null => exact .null
  | bool value => cases value <;> exact .bool _
  | number n => exact text_number (h n .root)
  | string s => exact text_string s
  | array items ih =>
    have hitems : ∀ item ∈ items, (Doc.ofJson item).Text (item.prettyChars (depth + 1)) :=
      fun item hmem => ih item hmem (fun n hn => h n (.item hmem hn)) (depth + 1)
    cases items with
    | nil => exact .array (.done areBlanks_nil)
    | cons item rest =>
      obtain ⟨hitem, hrest⟩ := List.forall_mem_cons.mp hitems
      have hchars : prettyChars depth (.array (item :: rest)) =
          '[' :: (comma true ++ newline (depth + 1) ++ (item.prettyChars (depth + 1) ++
            (prettyItems depth rest ++ (newline depth ++ [']'])))) := by
        simp [prettyChars, comma]
      rw [hchars]
      exact .array (.item (separates_newline true _) hitem (text_prettyItems hrest))
  | object members ih =>
    have hmembers : ∀ member ∈ members,
        (Doc.ofJson member.2).Text (member.2.prettyChars (depth + 1)) := fun member hmem =>
      ih member hmem (fun n hn => h n (.member hmem hn)) (depth + 1)
    cases members with
    | nil => exact .object (.done areBlanks_nil)
    | cons member rest =>
      obtain ⟨hmember, hrest⟩ := List.forall_mem_cons.mp hmembers
      have hchars : prettyChars depth (.object (member :: rest)) =
          '{' :: (comma true ++ newline (depth + 1) ++ (quoteChars member.1 ++ ':' :: ([' '] ++
            (member.2.prettyChars (depth + 1) ++
              (prettyMembers depth rest ++ (newline depth ++ ['}'])))))) := by
        simp [prettyChars, comma]
      rw [hchars]
      exact .object (text_member _ areBlanks_space (separates_newline true _) member.1 hmember
        (text_prettyMembers hrest))

theorem decode_pretty {read : Reader α} {j : Json} {value : α}
    (h : read.Recovers maxDepth j value) (hnesting : j.nesting ≤ maxDepth)
    (hnumbers : ∀ n, NodeOf (number n) j → n.ReadsBack) :
    decode read (j.pretty ++ "\n") = .ok value := by
  have hfeed : AreBlanks ['\n'] := List.forall_mem_singleton.mpr (by decide)
  have hread := Doc.ofText_text (text_pretty hnumbers 0) areBlanks_nil hfeed
  have htext : (j.pretty ++ "\n").toList = [] ++ (j.prettyChars 0 ++ ['\n']) := by
    rw [String.toList_append, pretty, String.toList_ofList]
    rfl
  rw [decode, htext, hread]
  change read maxDepth (Doc.ofJson j) >>= _ = _
  rw [h hnesting]
  rfl

end EnvClient.Json
