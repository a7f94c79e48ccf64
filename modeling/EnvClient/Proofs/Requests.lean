import EnvClient.Proofs.Exchange

/-! What a server is asked for. It takes the path of a request apart at its slashes and decodes
each segment on its own; names that stand for themselves in a path arrive as they were given. -/
namespace EnvClient

open Text (splitAt)
open Url (IsPlain IsOrigin encodeName encodeSegment decodeSegment? parts resolveNames)

def segmentsBelow? (root path : List Char) : Option (List String) :=
  if root <+: path then
    match path.drop root.length with
    | '/' :: rest => (splitAt '/' rest).mapM decodeSegment?
    | _ => none
  else none

/-- The segments that follow the path to all environments. -/
def Http.Request.segments? (r : Request) : Option (List String) :=
  segmentsBelow? (Api.root ++ "/environments").toList r.path

theorem splitAt_pathChars (names : List String) :
    splitAt '/' (Api.pathChars names) = [] :: names.map encodeSegment := by
  have hslash : ∀ name, '/' ∉ encodeSegment name := fun name hmem => by
    have := Url.isSegmentText_encodeSegment name '/' hmem
    exact absurd this (by decide)
  unfold Api.pathChars
  induction names with
  | nil => rfl
  | cons name rest ih =>
    rw [List.flatMap_cons, List.cons_append, splitAt, if_pos rfl,
      Text.splitAt_append (hslash name), ih]
    simp

theorem mapM_decodeSegment?_map (names : List String) :
    (names.map encodeSegment).mapM decodeSegment? = some names :=
  Text.mapM_map_of_reads fun name _ => Url.decodeSegment?_encodeSegment name

theorem exists_of_mapM_decodeSegment? {pieces : List (List Char)} {names : List String}
    (h : pieces.mapM decodeSegment? = some names) {name : String} (hmem : name ∈ names) :
    ∃ piece ∈ pieces, decodeSegment? piece = some name := by
  induction pieces generalizing names with
  | nil => cases h; cases hmem
  | cons piece rest ih =>
    rw [List.mapM_cons] at h
    obtain ⟨first, hfirst, h⟩ := Option.bind_eq_some_iff.mp h
    obtain ⟨others, hothers, h⟩ := Option.bind_eq_some_iff.mp h
    cases Option.some.inj h
    rcases List.mem_cons.mp hmem with rfl | hmem
    · exact ⟨piece, List.mem_cons_self, hfirst⟩
    · obtain ⟨p, hp, hdecode⟩ := ih hothers hmem
      exact ⟨p, List.mem_cons_of_mem _ hp, hdecode⟩

theorem segmentsBelow?_pathChars (root : List String) {names : List String} (h : names ≠ []) :
    segmentsBelow? (Api.pathChars root) (Api.pathChars (root ++ names)) = some names := by
  have happend : Api.pathChars (root ++ names) = Api.pathChars root ++ Api.pathChars names :=
    List.flatMap_append
  rw [segmentsBelow?, happend, if_pos (List.prefix_append _ _), List.drop_left]
  cases names with
  | nil => exact absurd rfl h
  | cons name rest =>
    have hsplit := splitAt_pathChars (name :: rest)
    rw [Api.pathChars, List.flatMap_cons, List.cons_append] at hsplit ⊢
    rw [splitAt, if_pos rfl] at hsplit
    exact (congrArg _ (List.cons.inj hsplit).2).trans (mapM_decodeSegment?_map _)

theorem isPlain_of_segmentsBelow? {root : List Char} {names found : List String}
    (h : segmentsBelow? root (Api.pathChars names) = some found)
    (hnames : ∀ name ∈ names, IsPlain name) : ∀ name ∈ found, IsPlain name := by
  rw [segmentsBelow?] at h
  split at h
  case isFalse => cases h
  rename_i hroot
  split at h
  case h_2 => cases h
  rename_i rest hrest
  intro name hmem
  obtain ⟨piece, hpiece, hdecode⟩ := exists_of_mapM_decodeSegment? h hmem
  have hpath : Api.pathChars names = root ++ '/' :: rest := by
    rw [← hrest]
    exact (List.prefix_iff_eq_append.mp hroot).symm
  have hall : piece ∈ [] :: names.map encodeSegment := by
    rw [← splitAt_pathChars, hpath, Text.splitAt_append_cons]
    exact List.mem_append_right _ hpiece
  rcases List.mem_cons.mp hall with rfl | hall
  · cases hdecode
    decide
  · obtain ⟨written, hwritten, rfl⟩ := List.mem_map.mp hall
    rw [Url.decodeSegment?_encodeSegment] at hdecode
    cases hdecode
    exact hnames _ hwritten

namespace Operation

theorem segments_ne_nil (op : Operation) : op.segments ≠ [] := by cases op <;> simp [segments]

/-- The operation without the definition that is sent along with it. -/
def withoutYaml : Operation → Operation
  | update organization environment _ => update organization environment ""
  | check organization _ => check organization ""
  | op => op

theorem withoutYaml_eq {op op' : Operation} (hmethod : op.method = op'.method)
    (hsegments : op.segments = op'.segments) (hquery : op.query? = op'.query?) :
    op.withoutYaml = op'.withoutYaml := by
  rcases op with ⟨_, _ | _⟩ | _ | _ | _ | _ | _ | _ | _ | _ | _ <;>
    rcases op' with ⟨_, _ | _⟩ | _ | _ | _ | _ | _ | _ | _ | _ | _ <;>
    first
    | (cases hmethod; done)
    | simp_all [segments, query?, withoutYaml]

end Operation

namespace Api

def pathNames (op : Operation) : List String :=
  (resolveNames Url.rootNames (op.segments.flatMap parts)).reverse

theorem isPlain_pathNames (op : Operation) : ∀ name ∈ pathNames op, IsPlain name := by
  intro name hmem
  have hroot : ∀ name ∈ Url.rootNames, IsPlain name := by decide
  have hparts : ∀ name ∈ op.segments.flatMap parts, '\\' ∉ name.toList := fun part hpart => by
    obtain ⟨segment, _, hmem⟩ := List.mem_flatMap.mp hpart
    exact Url.not_mem_of_mem_parts hmem
  exact Url.isPlain_resolveNames hparts hroot name (List.mem_reverse.mp hmem)

theorem pathNames_of_isPlain {op : Operation} (h : ∀ segment ∈ op.segments, IsPlain segment) :
    pathNames op = Url.rootNames.reverse ++ op.segments := by
  rw [pathNames, Url.flatMap_parts_of_isPlain h, Url.resolveNames_of_isPlain h,
    List.reverse_append, List.reverse_reverse]

variable {c : Configuration} {api : Api}

theorem base_ofConfiguration (h : ofConfiguration c = .ok api) (horigin : IsOrigin c.backend) :
    api.base = c.backend ++ root := by
  rw [ofConfiguration] at h
  split at h
  · cases h
  split at h
  · cases h
  · cases h
    rw [Url.trimUrl_of_isOrigin horigin]

theorem ofText?_url (h : ofConfiguration c = .ok api) (horigin : IsOrigin c.backend)
    (op : Operation) : ∃ url, Url.ofText? (api.url op.segments) = some url ∧
      url.path = (pathNames op).map encodeName ∧ url.query = none := by
  obtain ⟨scheme, authority, hread⟩ := Url.ofText?_url horigin
  refine ⟨⟨scheme, authority, (pathNames op).map encodeName, none⟩, ?_, rfl, rfl⟩
  rw [url, base_ofConfiguration h horigin, hread, pathNames, List.map_reverse]

theorem pathText_eq {url : Url} {names : List String} (h : url.path = names.map encodeName) :
    url.pathText = pathChars names := by
  rw [Url.pathText, h, List.flatMap_map, pathChars]
  simp [encodeName]

theorem segments?_request {op : Operation} {url : Url} (h : api.address? op = some url)
    (hpath : url.path = (pathNames op).map encodeName) :
    (api.request op url).segments? = some op.segments ↔
      ∀ segment ∈ op.segments, IsPlain segment := by
  have hroot : (root ++ "/environments").toList = pathChars Url.rootNames.reverse := by
    decide +kernel
  rw [Http.Request.segments?, path_request h, pathText_eq hpath, hroot]
  constructor
  · intro hfound
    exact isPlain_of_segmentsBelow? hfound (isPlain_pathNames op)
  · intro hplain
    rw [pathNames_of_isPlain hplain]
    exact segmentsBelow?_pathChars _ op.segments_ne_nil

theorem sent_exchange {op : Operation} {url : Url} (h : api.address? op = some url)
    {n : Http.Network} (hreach : n.reaches url.origin = true) :
    ((api.exchange op).run n).2.sent = n.sent ++ [api.request op url] := by
  rw [exchange, h]
  change ((Http.send url (api.request op url)) n).2.sent = _
  rw [Http.send, Http.Network.send, hreach]
  simp only [Bool.not_true, Bool.false_eq_true, if_false]
  split <;> rfl

/-- One request is sent for an operation. The segments that follow the root of its path are those
of the operation just if each of them stands for itself; among such operations, a method, a path
and a query belong to one only, up to the definition that is sent along. -/
theorem request_faithful (h : ofConfiguration c = .ok api) (horigin : IsOrigin c.backend) :
    (∀ op, ∃ url, api.address? op = some url ∧
      (∀ n : Http.Network, n.reaches url.origin = true →
        ((api.exchange op).run n).2.sent = n.sent ++ [api.request op url]) ∧
      Url.queryPairs? (api.request op url).query = some op.query?.toList ∧
      ((api.request op url).segments? = some op.segments ↔
        ∀ segment ∈ op.segments, IsPlain segment)) ∧
    (∀ op op' url url', api.address? op = some url → api.address? op' = some url' →
      (∀ segment ∈ op.segments, IsPlain segment) →
      (∀ segment ∈ op'.segments, IsPlain segment) →
      (api.request op url).method = (api.request op' url').method →
      (api.request op url).target = (api.request op' url').target →
      op.withoutYaml = op'.withoutYaml) := by
  have hplace := ofText?_url h horigin
  have haddress : ∀ op, ∃ url, api.address? op = some url := fun op => by
    obtain ⟨place, hread, -, hnone⟩ := hplace op
    exact ⟨_, address?_of_query_none op hread hnone⟩
  have hquery : ∀ op url, api.address? op = some url →
      Url.queryPairs? (api.request op url).query = some op.query?.toList := by
    intro op url hurl
    obtain ⟨place, hread, -, hnone⟩ := hplace op
    exact queryPairs?_request op hread hnone hurl
  have hsegments : ∀ op url, api.address? op = some url →
      ((api.request op url).segments? = some op.segments ↔
        ∀ segment ∈ op.segments, IsPlain segment) := by
    intro op url hurl
    obtain ⟨place, hread, hpath, hnone⟩ := hplace op
    have hplaced := hurl
    rw [address?_of_query_none op hread hnone] at hplaced
    cases hplaced
    exact segments?_request hurl hpath
  refine ⟨fun op => ?_, ?_⟩
  · obtain ⟨url, hurl⟩ := haddress op
    exact ⟨url, hurl, fun n => sent_exchange hurl, hquery op url hurl, hsegments op url hurl⟩
  intro op op' url url' hurl hurl' hplain hplain' hmethod htarget
  have hsame : (api.request op url).segments? = (api.request op' url').segments? := by
    rw [Http.Request.segments?, Http.Request.path, htarget]
    rfl
  rw [(hsegments op url hurl).mpr hplain, (hsegments op' url' hurl').mpr hplain'] at hsame
  have hpairs : some op.query?.toList = some op'.query?.toList := by
    rw [← hquery op url hurl, ← hquery op' url' hurl', Http.Request.query, htarget]
    rfl
  have hasked : op.query? = op'.query? := by
    simpa using congrArg List.head? (Option.some.inj hpairs)
  exact Operation.withoutYaml_eq hmethod (Option.some.inj hsame)
    hasked

def standard : Api := ⟨"https://api.pulumi.com/api/preview", none, Configuration.defaultUserAgent⟩

theorem ofConfiguration_default : ofConfiguration .default = .ok standard := by rfl

theorem isOrigin_default : IsOrigin Configuration.default.backend := by
  have hhost : ∀ c ∈ "api.pulumi.com".toList, (' ' < c && !Url.endsAuthority c) = true :=
    List.all_eq_true.mp (by decide)
  exact ⟨"https", "api.pulumi.com".toList, .inr rfl, by decide,
    fun c hmem => by simpa using hhost c hmem, by decide⟩

theorem request_faithful_standard :
    (∃ url, standard.address? (.decrypted "acme" "my env/x") = some url ∧
      (standard.request (.decrypted "acme" "my env/x") url).segments? =
        some ["acme", "my env/x", "decrypt"]) ∧
    (Operation.update "acme" "dev" "a: 1").withoutYaml =
      (Operation.update "acme" "dev" "").withoutYaml := by
  obtain ⟨hsent, hsame⟩ := request_faithful ofConfiguration_default isOrigin_default
  obtain ⟨url, hurl, -, -, hplain⟩ := hsent (.decrypted "acme" "my env/x")
  obtain ⟨place, hplace, -⟩ := hsent (.update "acme" "dev" "a: 1")
  exact ⟨⟨url, hurl, hplain.mpr (by decide)⟩,
    hsame _ _ place place hplace hplace (by decide) (by decide) rfl rfl⟩

/-- Backslashes and dots lead out of an organization: the request to delete one environment
deletes another. -/
theorem delete_reaches_other :
    ∃ url, standard.address? (.delete "acme" "..\\other\\prod") = some url ∧
      standard.address? (.delete "other" "prod") = some url ∧
      (standard.request (.delete "acme" "..\\other\\prod") url).segments? =
        some ["other", "prod"] :=
  ⟨⟨"https", "api.pulumi.com", ["api", "preview", "environments", "other", "prod"], none⟩,
    by decide +kernel, by decide +kernel, by decide +kernel⟩

end Api

end EnvClient
