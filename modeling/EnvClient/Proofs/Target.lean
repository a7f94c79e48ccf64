import EnvClient.Proofs.Url.Path
import EnvClient.Proofs.Url.Query

/-! Targets of requests: the path of the URL up to a question mark, and the query after it. -/
namespace EnvClient

namespace Http.Request

def path (r : Request) : List Char := r.target.toList.takeWhile (· != '?')

def query (r : Request) : List Char := (r.target.toList.dropWhile (· != '?')).drop 1

end Http.Request

namespace Url

def pathText (url : Url) : List Char := url.path.flatMap fun segment => '/' :: segment.toList

theorem toList_target (url : Url) :
    url.target.toList = url.pathText ++
      (match url.query with
        | some query => '?' :: query.toList
        | none => []) := by
  have hjoin : (String.join (url.path.map ("/" ++ ·))).toList = url.pathText := by
    rw [String.toList_join, List.flatMap_map, pathText]
    simp
  rw [target, String.toList_append, hjoin]
  cases url.query with
  | none => rfl
  | some query => rw [String.toList_append]; rfl

theorem question_not_mem_escapeText (s : List Char) :
    '?' ∉ (escapeText isPathSpecial s).toList := by
  have hbyte : ∀ b : UInt8, '?' ∉ (if isPathSpecial b then escapeByte b else [Char.ofNat b.toNat]) :=
    forall_byte (by decide +kernel)
  rw [escapeText, String.toList_ofList, escape]
  intro hmem
  obtain ⟨b, _, hb⟩ := List.mem_flatMap.mp hmem
  exact hbyte b hb

theorem question_not_mem_addPieces {kept : List String} {pieces : List (List Char)}
    (h : ∀ segment ∈ kept, '?' ∉ segment.toList) :
    ∀ segment ∈ addPieces kept pieces, '?' ∉ segment.toList := by
  have hempty : '?' ∉ "".toList := by decide
  induction pieces generalizing kept with
  | nil => exact h
  | cons piece rest ih =>
    have hdrop : ∀ segment ∈ kept.drop 1, '?' ∉ segment.toList := fun segment hmem =>
      h segment (List.mem_of_mem_drop hmem)
    rw [addPieces]
    split
    · refine ih ?_
      split
      · exact List.forall_mem_cons.mpr ⟨hempty, hdrop⟩
      · exact hdrop
    split
    · refine ih ?_
      split
      · exact List.forall_mem_cons.mpr ⟨hempty, h⟩
      · exact h
    · exact ih (List.forall_mem_cons.mpr ⟨question_not_mem_escapeText piece, h⟩)

theorem question_not_mem_pathText {s : String} {url : Url} (h : ofText? s = some url) :
    '?' ∉ url.pathText := by
  obtain ⟨⟨scheme, rest⟩, -, h⟩ := Option.bind_eq_some_iff.mp h
  dsimp only at h
  by_cases hscheme : scheme ≠ "http" ∧ scheme ≠ "https"
  · rw [if_pos hscheme] at h
    cases h
  rw [if_neg hscheme] at h
  obtain ⟨authority, -, h⟩ := Option.bind_eq_some_iff.mp h
  cases h
  intro hmem
  obtain ⟨segment, hsegment, hmem⟩ := List.mem_flatMap.mp hmem
  rcases List.mem_cons.mp hmem with heq | hmem
  · cases heq
  · exact question_not_mem_addPieces (fun _ => (absurd · List.not_mem_nil)) segment
      (List.mem_reverse.mp hsegment) hmem

end Url

namespace Api

variable {api : Api} {op : Operation} {url : Url}

theorem question_not_mem_address (h : api.address? op = some url) : '?' ∉ url.pathText := by
  obtain ⟨place, hplace, hurl⟩ := Option.map_eq_some_iff.mp h
  have := Url.question_not_mem_pathText hplace
  cases hquery : op.query? <;> rw [hquery] at hurl <;> subst hurl <;> exact this

theorem path_request (h : api.address? op = some url) :
    (api.request op url).path = url.pathText := by
  have hpath : ∀ c ∈ url.pathText, (c != '?') = true := fun c hmem =>
    bne_iff_ne.mpr (ne_of_mem_of_not_mem hmem (question_not_mem_address h))
  rw [Http.Request.path, request, Url.toList_target, List.takeWhile_append_of_pos hpath]
  cases url.query <;> simp

theorem query_request (h : api.address? op = some url) :
    (api.request op url).query = (url.query.map String.toList).getD [] := by
  have hpath : ∀ c ∈ url.pathText, (c != '?') = true := fun c hmem =>
    bne_iff_ne.mpr (ne_of_mem_of_not_mem hmem (question_not_mem_address h))
  rw [Http.Request.query, request, Url.toList_target, List.dropWhile_append_of_pos hpath]
  cases url.query <;> simp

theorem address?_of_query_none (op : Operation) (h : Url.ofText? (api.url op.segments) = some url)
    (hquery : url.query = none) :
    api.address? op = some { url with
      query := op.query?.map fun (name, value) => String.ofList (Url.formPair name value) } := by
  rw [address?, h]
  cases op.query? with
  | none => rw [Option.map_none, ← hquery]; rfl
  | some pair => simp [Url.addPair, hquery]

theorem queryPairs?_request (op : Operation) (h : Url.ofText? (api.url op.segments) = some url)
    (hquery : url.query = none) {address : Url} (haddress : api.address? op = some address) :
    Url.queryPairs? (api.request op address).query = some op.query?.toList := by
  rw [query_request haddress]
  rw [address?_of_query_none op h hquery] at haddress
  cases haddress
  cases op.query? with
  | none => rfl
  | some pair =>
    rw [Option.map_some, Option.map_some, Option.getD_some, String.toList_ofList,
      Url.queryPairs?_formPair]
    rfl

end Api
end EnvClient
