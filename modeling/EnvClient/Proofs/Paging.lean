import EnvClient.Proofs.Calls

/-! Listings of more than one page: a run of requests, each for the page that the one before it
names. What is asked for and what comes of it is up to the replies that are heard. -/
namespace EnvClient

open Http (Answer Network Reply Request)

theorem Operation.query?_list (organization : String) (token : Option String) :
    (list organization token).query? = token.map ("continuationToken", ·) := by
  cases token <;> rfl

namespace Operation

/-- The pages of a listing that are asked for: each further one is named by the page before it. -/
def pages (organization : String) : Option String → List Reply → List Operation
  | token, [] => [.list organization token]
  | token, r :: replies =>
    .list organization token ::
      match (r.payload? (α := Page)).bind Page.next? with
      | some next => pages organization (some next) replies
      | none => []

theorem pages_error {r : Reply} {e : ClientError} (h : r.page = .error e)
    (organization : String) (token : Option String) (replies : List Reply) :
    pages organization token (r :: replies) = [.list organization token] := by
  have hnone : r.payload? (α := Page) = none := by
    rw [← Reply.toOption_read_json]
    exact congrArg Except.toOption h
  rw [pages, hnone]
  rfl

theorem pages_ok {r : Reply} {page : Page} (h : r.page = .ok page)
    (organization : String) (token : Option String) (replies : List Reply) :
    pages organization token (r :: replies) = .list organization token ::
      match page.next? with
      | some next => pages organization (some next) replies
      | none => [] := by
  have hsome : r.payload? = some page := by
    rw [← Reply.toOption_read_json]
    exact congrArg Except.toOption h
  rw [pages, hsome]
  rfl

end Operation

theorem Page.map_next?_of_ne {pages : List Page} {tokens : List String}
    (h : pages.map (·.token) = tokens.map some) (hne : "" ∉ tokens) :
    pages.map Page.next? = tokens.map some := by
  calc pages.map Page.next? = (pages.map (·.token)).map (Option.filter (· != "")) := by
        rw [List.map_map]; rfl
    _ = tokens.map fun token => (some token).filter (· != "") := by rw [h, List.map_map]; rfl
    _ = tokens.map some := List.map_congr_left fun token hmem => by
        rw [Option.filter_some, if_pos (bne_iff_ne.mpr (ne_of_mem_of_not_mem hmem hne))]

theorem Page.next?_of_last {page : Page} (h : page.token = none ∨ page.token = some "") :
    page.next? = none := by
  rcases h with h | h <;> rw [next?, h] <;> rfl

namespace Client

/-- What a listing comes to when these replies are heard, if they are enough for it. -/
def listing? : List Reply → Option (Except ClientError (List Summary))
  | [] => none
  | r :: replies =>
    match r.page with
    | .error e => some (.error e)
    | .ok page =>
      match page.next? with
      | some _ => (listing? replies).map (·.map (page.environments ++ ·))
      | none => some (.ok page.environments)

theorem listing?_error {r : Reply} {e : ClientError} (h : r.page = .error e)
    (replies : List Reply) : listing? (r :: replies) = some (.error e) := by
  rw [listing?, h]

theorem listing?_ok {r : Reply} {page : Page} (h : r.page = .ok page) (replies : List Reply) :
    listing? (r :: replies) =
      match page.next? with
      | some _ => (listing? replies).map (·.map (page.environments ++ ·))
      | none => some (.ok page.environments) := by
  rw [listing?, h]

/-- A listing asks for the pages that its replies name, and they decide what comes of it. Each page
takes a reply, so the fuel lasts. -/
theorem run_listFrom (client : Client) (organization : String) {fuel : Nat}
    {token : Option String} {n : Network} (hfuel : (client.api.heard n).length < fuel) :
    (client.listFrom organization fuel token).run n =
      ((listing? (client.api.heard n)).getD (.error (.transport (client.api.fault n))),
        (Operation.pages organization token (client.api.heard n)).foldl client.api.asked n) := by
  have hlist := client.asks_list organization
  induction fuel generalizing token n with
  | zero => cases hfuel
  | succ fuel ih =>
    rw [listFrom]
    cases hheard : client.api.heard n with
    | nil => exact run_bind_error ((hlist token).unheard hheard) _
    | cons r replies =>
      have hrun := (hlist token).heard hheard
      cases hpage : r.page with
      | error e =>
        rw [run_bind_error (hpage ▸ hrun), Operation.pages_error hpage, listing?_error hpage]
        rfl
      | ok page =>
        rw [run_bind_ok (hpage ▸ hrun), Operation.pages_ok hpage, listing?_ok hpage]
        cases page.next? with
        | none => rfl
        | some next =>
          have hrest : client.api.heard (client.api.asked n (.list organization token)) =
              replies := by
            rw [Api.heard_asked, hheard, List.tail_cons]
          have hmore := @ih (some next) (client.api.asked n (.list organization token)) (by
            rw [hrest]
            rw [hheard, List.length_cons] at hfuel
            omega)
          rw [hrest, Api.fault_asked] at hmore
          dsimp only
          rcases hlisting : listing? replies with _ | _ | summaries <;> rw [hlisting] at hmore
          · exact run_bind_error hmore _
          · exact run_bind_error hmore _
          · exact run_bind_ok hmore _

theorem run_listAll (client : Client) (organization : String) (n : Network) :
    (client.listAll organization).run n =
      ((listing? (client.api.heard n)).getD (.error (.transport (client.api.fault n))),
        (Operation.pages organization none (client.api.heard n)).foldl client.api.asked n) := by
  have hall : (client.listAll organization).run n =
      (client.listFrom organization (n.replies.length + 1) none).run n :=
    run_bind_ok (x := get) (a := n) rfl _
  rw [hall, run_listFrom]
  rw [Api.heard]
  split
  · omega
  · exact Nat.succ_pos _

theorem pages_and_listing?_append (organization : String) (token : Option String)
    {front : List Reply} {pages : List Page} {tokens : List String} {last : Reply}
    (hfront : front.map Reply.page = pages.map .ok)
    (htokens : pages.map Page.next? = tokens.map some)
    (hlast : ∀ page, last.page = .ok page → page.next? = none) (replies : List Reply) :
    Operation.pages organization token (front ++ last :: replies) =
        (token :: tokens.map some).map (Operation.list organization) ∧
      listing? (front ++ last :: replies) =
        some (last.page.map fun page => (pages ++ [page]).flatMap (·.environments)) := by
  induction front generalizing pages tokens token with
  | nil =>
    cases List.map_eq_nil_iff.mp hfront.symm
    cases List.map_eq_nil_iff.mp htokens.symm
    rw [List.nil_append]
    cases hpage : last.page with
    | error e =>
      rw [Operation.pages_error hpage, listing?_error hpage]
      exact ⟨rfl, rfl⟩
    | ok page =>
      rw [Operation.pages_ok hpage, listing?_ok hpage, hlast page hpage]
      simp [Except.map]
  | cons r front ih =>
    obtain ⟨page, pages, rfl, hpage, hfront⟩ := List.map_eq_cons_iff.mp hfront.symm
    obtain ⟨next, tokens, rfl, hnext, htokens⟩ := List.map_eq_cons_iff.mp htokens.symm
    obtain ⟨hpages, hlisting⟩ := ih (some next) hfront.symm htokens.symm
    rw [List.cons_append, Operation.pages_ok hpage.symm, listing?_ok hpage.symm, ← hnext]
    dsimp only
    rw [hpages, hlisting]
    refine ⟨rfl, ?_⟩
    cases last.page <;> simp [Except.map]

def pageRequest (client : Client) (organization : String) (url : Url) (token : Option String) :
    Request :=
  let op := Operation.list organization token
  client.api.request op { url with
    query := op.query?.map fun (name, value) => String.ofList (Url.formPair name value) }

section
variable {client : Client} {organization : String} {url : Url} {n : Network}
  (hurl : Url.ofText? (client.api.url [organization]) = some url) (hquery : url.query = none)
include hurl hquery

theorem queryPairs?_pageRequest (token : Option String) :
    Url.queryPairs? (client.pageRequest organization url token).query =
      some (token.map ("continuationToken", ·)).toList := by
  have hpairs := Api.queryPairs?_request (.list organization token) hurl hquery
    (Api.address?_of_query_none _ hurl hquery)
  rw [← Operation.query?_list organization]
  exact hpairs

theorem path_pageRequest (token : Option String) :
    (client.pageRequest organization url token).path = url.pathText :=
  Api.path_request (Api.address?_of_query_none (.list organization token) hurl hquery)

theorem requests_list (hreach : n.reaches url.origin = true) (token : Option String) :
    client.api.requests (.list organization token) n =
      [client.pageRequest organization url token] := by
  rw [Api.requests, Api.address?_of_query_none (.list organization token) hurl hquery]
  exact if_pos hreach

theorem reached_of_reaches (hreach : n.reaches url.origin = true) : client.api.reached n = true := by
  rw [Api.reached_eq client.api (.list organization none),
    Api.address?_of_query_none (.list organization none) hurl hquery]
  exact hreach

/-- Pages that name a next one are passed through, in order: each is asked for with the token of
the one before it, and the first reply that names none decides. If that is a page, the listing is
the environments of all pages; if it fails, its error is all there is. -/
theorem listAll_exact {front : List Reply} {pages : List Page} {tokens : List String}
    {last : Reply} {replies : List Reply}
    (hfront : front.map Reply.page = pages.map .ok)
    (htokens : pages.map (·.token) = tokens.map some) (hne : "" ∉ tokens)
    (hreach : n.reaches url.origin = true) (hreplies : n.replies = front ++ last :: replies) :
    ∃ requests : List Request, requests.length = front.length + 1 ∧
      (∀ request ∈ requests, request.method = .get ∧ request.path = url.pathText) ∧
      requests.map (fun request => Url.queryPairs? request.query) =
        some [] :: tokens.map (fun token => some [("continuationToken", token)]) ∧
      (∀ page, last.page = .ok page → page.token = none ∨ page.token = some "" →
        (client.listAll organization).run n =
          (.ok ((pages ++ [page]).flatMap (·.environments)), n.after requests replies)) ∧
      (∀ e, last.page = .error e →
        (client.listAll organization).run n = (.error e, n.after requests replies)) := by
  have hlengths : front.length = tokens.length := by
    have hpages := congrArg List.length hfront
    have hsome := congrArg List.length htokens
    simp only [List.length_map] at hpages hsome
    rw [hpages, hsome]
  have hreached := reached_of_reaches hurl hquery hreach
  have hheard : client.api.heard n = front ++ last :: replies := by
    rw [Api.heard, if_pos hreached, hreplies]
  have hall : (∀ page, last.page = .ok page → page.next? = none) →
      (client.listAll organization).run n =
        (last.page.map fun page => (pages ++ [page]).flatMap (·.environments),
          n.after ((none :: tokens.map some).map (client.pageRequest organization url)) replies) := by
    intro hlast
    obtain ⟨hpages, hlisting⟩ := pages_and_listing?_append organization none hfront
      (Page.map_next?_of_ne htokens hne) hlast replies
    have hrequests : ((none :: tokens.map some).map (Operation.list organization)).flatMap
        (client.api.requests · n) =
        (none :: tokens.map some).map (client.pageRequest organization url) := by
      rw [List.flatMap_map]
      simp only [requests_list hurl hquery hreach]
      exact List.map_eq_flatMap.symm
    have hrest : (front ++ last :: replies).drop
        ((none :: tokens.map some).map (Operation.list organization)).length = replies := by
      simp [← hlengths, List.drop_append, List.drop_eq_nil_of_le]
    rw [run_listAll, hheard, hpages, hlisting, Api.foldl_asked hreached, hrequests, hreplies, hrest]
    rfl
  refine ⟨(none :: tokens.map some).map (client.pageRequest organization url), ?_, ?_, ?_, ?_, ?_⟩
  · simp [hlengths]
  · intro request hmem
    obtain ⟨token, -, rfl⟩ := List.mem_map.mp hmem
    exact ⟨rfl, path_pageRequest hurl hquery token⟩
  · simp only [List.map_map, List.map_cons, Function.comp_def, queryPairs?_pageRequest hurl hquery,
      Option.map_none, Option.map_some, Option.toList_none, Option.toList_some]
  · intro page hpage htoken
    rw [hall, hpage]
    · rfl
    · intro other hother
      cases hpage.symm.trans hother
      exact Page.next?_of_last htoken
  · intro e he
    rw [hall, he]
    · rfl
    · intro other hother
      cases he.symm.trans hother

end

theorem listAll_exact_two :
    let first : Reply := .whole 200 (Text.Utf8.encode "[[[null,null,\"dev\"]],\"a&b\"]")
    let page : Page := ⟨[⟨none, none, "dev", "", ""⟩], some "a&b"⟩
    (∃ requests, requests.length = 2 ∧
      ((Client.mk .standard).listAll "acme").run
        ⟨fun _ => true, [first, .whole 200 (Text.Utf8.encode "[[],\"\"]")], []⟩ =
          (.ok page.environments, ⟨fun _ => true, [], requests⟩)) ∧
    (∃ requests, requests.length = 2 ∧
      ((Client.mk .standard).listAll "acme").run ⟨fun _ => true, [first, .whole 404 []], []⟩ =
        (.error (.service 404 "Not Found" [] ""), ⟨fun _ => true, [], requests⟩)) := by
  intro first page
  let url : Url :=
    ⟨"https", "api.pulumi.com", ["api", "preview", "environments", "acme"], none⟩
  have hurl : Url.ofText? ((Client.mk .standard).api.url ["acme"]) = some url := by decide +kernel
  have hfront : [first].map Reply.page = [page].map .ok := by decide +kernel
  have htokens : [page].map (·.token) = ["a&b"].map some := rfl
  constructor
  · obtain ⟨requests, hlength, -, -, hpage, -⟩ := listAll_exact
      (n := ⟨fun _ => true, [first, .whole 200 (Text.Utf8.encode "[[],\"\"]")], []⟩)
      hurl rfl hfront htokens (by decide) rfl rfl
    exact ⟨requests, hlength, hpage ⟨[], some ""⟩ (by decide +kernel) (.inr rfl)⟩
  · obtain ⟨requests, hlength, -, -, -, herror⟩ := listAll_exact
      (n := ⟨fun _ => true, [first, .whole 404 []], []⟩)
      hurl rfl hfront htokens (by decide) rfl rfl
    exact ⟨requests, hlength, herror _ (by decide +kernel)⟩

end Client
end EnvClient
