import EnvClient.Proofs.Target

/-! Where requests go. The host that a URL names is settled before its path begins, so that no
name which is put into a path leads a request to another host. -/
namespace EnvClient

namespace Url

theorem splitScheme?_append (s rest : List Char) :
    splitScheme? (s ++ '/' :: rest) =
      (splitScheme? s).map fun (scheme, after) => (scheme, after ++ '/' :: rest) := by
  have hslash : isSchemeChar '/' = false := by decide
  unfold splitScheme?
  rw [takeWhile_append_of_neg hslash, dropWhile_append_of_neg hslash]
  cases s.takeWhile isSchemeChar with
  | nil => rfl
  | cons c name =>
    cases s.dropWhile isSchemeChar with
    | nil => rfl
    | cons d after =>
      by_cases hd : d = ':'
      · subst hd
        by_cases halpha : c.isAlpha = true <;> simp [halpha]
      · simp [hd]

def origin? (s : List Char) : Option String :=
  (splitScheme? s).bind fun (scheme, rest) =>
    if scheme ≠ "http" ∧ scheme ≠ "https" then none
    else (authority? scheme ((rest.dropWhile isSlash).takeWhile (!endsAuthority ·))).map
      (scheme ++ "://" ++ ·)

theorem map_origin_ofText? (s : String) : (ofText? s).map origin = origin? (clean s.toList) := by
  unfold ofText? origin?
  cases splitScheme? (clean s.toList) with
  | none => rfl
  | some found =>
    simp only [Option.bind_eq_bind, Option.bind_some]
    split
    · rfl
    · cases authority? found.1 ((found.2.dropWhile isSlash).takeWhile (!endsAuthority ·)) <;> rfl

theorem origin?_append {c : Char} (hc : isSlash c = false) (s name : List Char)
    {path : List Char} (hpath : path = [] ∨ ∃ rest, path = '/' :: rest) :
    origin? (s ++ '/' :: (c :: name ++ path)) = origin? (s ++ '/' :: c :: name) := by
  have hends : (!endsAuthority '/') = false := by decide
  have hhost : ∀ after : List Char,
      ((after ++ '/' :: (c :: name ++ path)).dropWhile isSlash).takeWhile (!endsAuthority ·) =
        ((after ++ '/' :: c :: name).dropWhile isSlash).takeWhile (!endsAuthority ·) := by
    intro after
    rw [List.append_cons after '/' (c :: name ++ path), List.append_cons after '/' (c :: name),
      List.cons_append, dropWhile_append_of_neg hc, dropWhile_append_of_neg hc]
    rcases hpath with rfl | ⟨rest, rfl⟩
    · rw [List.append_nil]
    · rw [← List.cons_append, ← List.append_assoc, takeWhile_append_of_neg hends]
  rw [origin?, origin?, splitScheme?_append, splitScheme?_append]
  cases splitScheme? s with
  | none => rfl
  | some found =>
    simp only [Option.map_some, Option.bind_some]
    rw [hhost]

end Url

namespace Api

/-- All requests go to one host, whatever names their paths are made of. -/
theorem origin_url (api : Api) (segments : List String) :
    (Url.ofText? (api.url segments)).map Url.origin =
      (Url.ofText? (api.url [])).map Url.origin := by
  have htext : ∀ segments, (api.url segments).toList =
      api.base.toList ++ '/' :: ("environments".toList ++ pathChars segments) := by
    intro segments
    simp only [url, String.toList_append, String.toList_ofList, List.append_assoc]
    rfl
  have hchars : ∀ segments, ∀ c ∈ '/' :: ("environments".toList ++ pathChars segments),
      ' ' < c := by
    intro segments c hmem
    have hname : "/environments".toList.all (' ' < ·) = true := by decide
    rw [← List.cons_append] at hmem
    rcases List.mem_append.mp hmem with hmem | hmem
    · exact of_decide_eq_true (List.all_eq_true.mp hname c hmem)
    · exact (Url.of_mem_pathChars hmem).1
  have hpath : ∀ segments, pathChars segments = [] ∨ ∃ rest, pathChars segments = '/' :: rest := by
    intro segments
    cases segments with
    | nil => exact .inl rfl
    | cons segment rest => exact .inr ⟨_, rfl⟩
  have horigin : ∀ segments, (Url.ofText? (api.url segments)).map Url.origin =
      Url.origin? ((api.base.toList.dropWhile Url.isTrimmed).filter (!Url.isDropped ·) ++
        '/' :: "environments".toList) := by
    intro segments
    rw [Url.map_origin_ofText?, htext, Url.clean_append (hchars segments)]
    exact Url.origin?_append (by decide) _ _ (hpath segments)
  rw [horigin, horigin]

theorem origin_address? (api : Api) (op : Operation) :
    (api.address? op).map Url.origin = (Url.ofText? (api.url [])).map Url.origin := by
  rw [← origin_url api op.segments, address?, Option.map_map]
  congr 1
  funext url
  cases op.query? <;> rfl

end Api
end EnvClient
