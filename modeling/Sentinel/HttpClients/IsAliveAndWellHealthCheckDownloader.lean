import Sentinel.Auth.AZAuthService
import Sentinel.K8s.K8sServiceClient

/-!
# `IsAliveAndWellHealthCheckDownloader`

The endpoints of a service are asked one after the other until one of them has a host that is
found; the result is then chosen from what has been collected.  The headers of the requests are
left out.

* `download_status` — a result says "Domain Record Not Found" iff the host was not found.
* `loop_visited` — what the loop has collected when it ends.
* `result_iff` — when the result is that of the first endpoint whose host is found.
-/

set_option autoImplicit false

namespace Sentinel

/-! ## The base library -/

/-- A scheme: a letter, then letters, digits, `+`, `-` and `.`. -/
def IsScheme (scheme : String) : Prop :=
  ∃ c rest, scheme.toList = c :: rest ∧ c.isAlpha = true ∧
    ∀ d ∈ rest, d.isAlphanum = true ∨ d = '+' ∨ d = '-' ∨ d = '.'

/-- A label of a DNS name. -/
structure IsDnsLabel (text : String) : Prop where
  chars : ∀ c ∈ text.toList, c.isLower = true ∨ c.isDigit = true ∨ c = '-'
  first : text.toList.head? ≠ some '-'
  last : text.toList.getLast? ≠ some '-'
  length : 1 ≤ text.length ∧ text.length ≤ 63

/-- `System.Uri`: the constructor of one argument makes absolute URIs only. -/
structure UriClass where
  Uri : Type
  new : String → Except Exn Uri
  combine : Uri → Option String → Except Exn Uri
  scheme : Uri → String
  absoluteUri : Uri → String
  /-- Without a scheme in front, a text is refused. -/
  scheme_of_new : ∀ text uri, new text = .ok uri →
    ∃ written rest, text = written ++ ":" ++ rest ∧ IsScheme written ∧
      (scheme uri).toList = written.toList.map Char.toLower
  new_http : ∀ (name nameSpace : String) (port : ℕ), IsDnsLabel name → IsDnsLabel nameSpace →
    1 ≤ port → port ≤ 65535 →
    ∃ uri, new ("http://" ++ (name ++ "." ++ nameSpace ++ ":" ++ toString port)) = .ok uri

/-- `HttpStatusCode.ToString`: a name of the enumeration or a number. -/
structure StatusNames where
  name : ℕ → String
  noBlank : ∀ code, ' ' ∉ (name code).toList

/-- What becomes of a request; reading the content may throw as well. -/
inductive SendOutcome where
  | throws (message : String)
  | answers (statusCode : ℕ) (content : Except String String)

/-! ## The class -/

structure IsAliveAndWellResult where
  id : String
  result : Option String
  status : String
  statusCode : ℕ
  isSuccessStatusCode : Bool
  checkedUrl : Option String
  exception : Option String
  checkedAt : DateTime

/-- The configuration and what is outside: the outcome of the n-th request of a call, the ids and
times of the results, and `Message.StartsWith` in the current culture. -/
structure IsAliveAndWellHealthCheckDownloader where
  uris : UriClass
  configuration : String → Option String
  sendAsync : ℕ → uris.Uri → SendOutcome
  newGuid : ℕ → String
  utcNow : ℕ → DateTime
  names : StatusNames
  startsWith : String → String → Bool

namespace IsAliveAndWellHealthCheckDownloader

variable (downloader : IsAliveAndWellHealthCheckDownloader)

def extractIsAliveAndWellSuffix (healthcheckPath : Option String) : Option String :=
  if isNullOrWhiteSpace healthcheckPath then
    downloader.configuration "DefaultIsAliveAndWellSuffix"
  else healthcheckPath

/-- The URIs of a list of endpoints; the first one that is refused ends it. -/
def newUris (texts : List String) : Except Exn (List downloader.uris.Uri) :=
  texts.mapM downloader.uris.new

def extractUriFromService (service : K8sServiceClient.ServiceV1) :
    Except Exn (List downloader.uris.Uri) :=
  if downloader.configuration "RunOnCluster" = some "true" then
    downloader.newUris (service.internalEndpoints.map ("http://" ++ ·))
  else if !isNullOrWhiteSpace service.virtualServiceUrl then
    downloader.newUris service.virtualServiceUrl.toList
  else if 0 < service.ingresses.length then downloader.newUris service.ingresses
  else if 0 < service.externalEndpoints.length then downloader.newUris service.externalEndpoints
  else downloader.newUris (service.internalEndpoints.map ("http://" ++ ·))

def notFoundText : String := "Domain Record Not Found"

/-- The `catch` block. -/
def failed (message : String) (result : IsAliveAndWellResult) : IsAliveAndWellResult :=
  { result with
    status := if downloader.startsWith message "No such host is known." then notFoundText
      else downloader.names.name 500
    isSuccessStatusCode := false
    exception := some message }

/-- `DownloadAsync` of the n-th request. -/
def download (n : ℕ) (uri : downloader.uris.Uri) : IsAliveAndWellResult :=
  let blank : IsAliveAndWellResult :=
    ⟨downloader.newGuid n, none, "", 0, false,
      if downloader.uris.absoluteUri uri = "" then none
      else some (downloader.uris.absoluteUri uri), none, downloader.utcNow n⟩
  match downloader.sendAsync n uri with
  | .throws message => downloader.failed message blank
  | .answers statusCode content =>
    let answered := { blank with
      status := downloader.names.name statusCode
      statusCode := statusCode
      isSuccessStatusCode := decide (200 ≤ statusCode ∧ statusCode ≤ 299) }
    match content with
    | .error message => downloader.failed message answered
    | .ok text => { answered with result := some text }

/-- The loop over the endpoints, with the results so far. -/
def loop (suffix : Option String) : ℕ → List downloader.uris.Uri → List IsAliveAndWellResult →
    Except Exn (List IsAliveAndWellResult)
  | _, [], results => .ok results
  | n, uri :: rest, results =>
    match downloader.uris.combine uri suffix with
    | .error e => .error e
    | .ok isaliveandwellUri =>
      let result := downloader.download n isaliveandwellUri
      if result.status ≠ notFoundText then .ok (results ++ [result])
      else loop suffix (n + 1) rest (results ++ [result])

/-- The choice after the loop. -/
def choose (results : List IsAliveAndWellResult) : Option IsAliveAndWellResult :=
  if results.length = 1 then results.head?
  else
    match results.find? (·.isSuccessStatusCode) with
    | some successResult => some successResult
    | none => results.head?

def downloadAsync (service : K8sServiceClient.ServiceV1) (isaliveandwellPath : Option String) :
    Except Exn (Option IsAliveAndWellResult) :=
  match downloader.extractUriFromService service with
  | .error e => .error e
  | .ok uris =>
    match downloader.loop (downloader.extractIsAliveAndWellSuffix isaliveandwellPath) 0 uris []
      with
    | .error e => .error e
    | .ok results => .ok (choose results)

/-! ## The outcomes of the endpoints -/

/-- The request ends in an exception whose message says that there is no such host. -/
def HostNotFound (n : ℕ) (uri : downloader.uris.Uri) : Prop :=
  ∃ message, downloader.startsWith message "No such host is known." = true ∧
    (downloader.sendAsync n uri = .throws message ∨
      ∃ statusCode, downloader.sendAsync n uri = .answers statusCode (.error message))

/-- The answer is a success and can be read. -/
def Succeeds (n : ℕ) (uri : downloader.uris.Uri) : Prop :=
  ∃ statusCode text, downloader.sendAsync n uri = .answers statusCode (.ok text) ∧
    200 ≤ statusCode ∧ statusCode ≤ 299

/-- Asked from number `n` on, the first endpoint whose host is found is number `i`, with the request
`found`. -/
inductive FirstFound (suffix : Option String) :
    ℕ → List downloader.uris.Uri → ℕ → downloader.uris.Uri → Prop
  | here {n : ℕ} {uri found : downloader.uris.Uri} {rest : List downloader.uris.Uri} :
      downloader.uris.combine uri suffix = .ok found → ¬ downloader.HostNotFound n found →
      FirstFound suffix n (uri :: rest) n found
  | later {n i : ℕ} {uri missing found : downloader.uris.Uri}
      {rest : List downloader.uris.Uri} : downloader.uris.combine uri suffix = .ok missing →
      downloader.HostNotFound n missing → FirstFound suffix (n + 1) rest i found →
      FirstFound suffix n (uri :: rest) i found

variable {downloader} {n i : ℕ} {uri : downloader.uris.Uri}
  {uris : List downloader.uris.Uri} {suffix : Option String}
  {results : List IsAliveAndWellResult}

theorem name_ne_notFoundText (names : StatusNames) (code : ℕ) : names.name code ≠ notFoundText := by
  intro heq
  apply names.noBlank code
  rw [heq]
  decide

theorem failed_status {message : String} {result : IsAliveAndWellResult} :
    (downloader.failed message result).status = notFoundText ↔
      downloader.startsWith message "No such host is known." = true := by
  unfold failed
  cases downloader.startsWith message "No such host is known." with
  | true => simp
  | false => simp [name_ne_notFoundText]

/-- **A result says that the domain record is missing** iff the host was not found. -/
theorem download_status : (downloader.download n uri).status = notFoundText ↔
    downloader.HostNotFound n uri := by
  unfold download HostNotFound
  cases downloader.sendAsync n uri with
  | throws message => simp [failed_status]
  | answers statusCode content =>
    cases content with
    | error message => simp [failed_status]
    | ok text => simp [name_ne_notFoundText]

theorem download_success : (downloader.download n uri).isSuccessStatusCode = true ↔
    downloader.Succeeds n uri := by
  unfold download Succeeds
  cases downloader.sendAsync n uri with
  | throws message => simp [failed]
  | answers statusCode content =>
    cases content with
    | error message => simp [failed]
    | ok text => simp

theorem not_success_of_notFound (h : downloader.HostNotFound n uri) :
    (downloader.download n uri).isSuccessStatusCode = false := by
  rw [← Bool.not_eq_true, download_success]
  rintro ⟨statusCode, text, hsend, -⟩
  obtain ⟨message, -, hsend' | ⟨statusCode', hsend'⟩⟩ := h
  · cases hsend.symm.trans hsend'
  · cases hsend.symm.trans hsend'

theorem FirstFound.host_found (h : downloader.FirstFound suffix n uris i uri) :
    ¬ downloader.HostNotFound i uri := by
  induction h with
  | here _ hfound => exact hfound
  | later _ _ _ ih => exact ih

theorem FirstFound.le (h : downloader.FirstFound suffix n uris i uri) : n ≤ i := by
  induction h with
  | here _ _ => exact le_rfl
  | later _ _ _ ih => exact (Nat.le_succ _).trans ih

/-- There is one first endpoint whose host is found. -/
theorem FirstFound.unique {j : ℕ} {uri' : downloader.uris.Uri}
    (h : downloader.FirstFound suffix n uris i uri)
    (h' : downloader.FirstFound suffix n uris j uri') : i = j ∧ uri = uri' := by
  induction h with
  | here hcombine hfound =>
    cases h' with
    | here hcombine' _ => exact ⟨rfl, Except.ok.inj (hcombine.symm.trans hcombine')⟩
    | later hcombine' hmissing' _ =>
      cases hcombine.symm.trans hcombine'
      exact absurd hmissing' hfound
  | later hcombine hmissing _ ih =>
    cases h' with
    | here hcombine' hfound' =>
      cases hcombine.symm.trans hcombine'
      exact absurd hmissing hfound'
    | later _ _ hrest => exact ih hrest

/-! ## The loop -/

/-- The results of the endpoints asked: of hosts not found, and of the one that ended the loop. -/
inductive Visited (suffix : Option String) :
    ℕ → List downloader.uris.Uri → List IsAliveAndWellResult → Prop
  | nil {n : ℕ} : Visited suffix n [] []
  | stop {n : ℕ} {uri found : downloader.uris.Uri} {rest : List downloader.uris.Uri} :
      downloader.uris.combine uri suffix = .ok found → ¬ downloader.HostNotFound n found →
      Visited suffix n (uri :: rest) [downloader.download n found]
  | next {n : ℕ} {uri missing : downloader.uris.Uri} {rest : List downloader.uris.Uri}
      {results : List IsAliveAndWellResult} : downloader.uris.combine uri suffix = .ok missing →
      downloader.HostNotFound n missing → Visited suffix (n + 1) rest results →
      Visited suffix n (uri :: rest) (downloader.download n missing :: results)

/-- **The loop asks the endpoints up to the first one whose host is found.** -/
theorem loop_visited {all : List IsAliveAndWellResult}
    (h : downloader.loop suffix n uris results = .ok all) :
    ∃ visited, all = results ++ visited ∧ Visited suffix n uris visited := by
  induction uris generalizing n results with
  | nil =>
    cases h
    exact ⟨[], (List.append_nil _).symm, .nil⟩
  | cons uri rest ih =>
    unfold loop at h
    split at h
    · cases h
    · rename_i request hcombine
      simp only at h
      split at h
      · rename_i hstatus
        cases h
        exact ⟨_, rfl, .stop hcombine (mt download_status.2 hstatus)⟩
      · rename_i hstatus
        obtain ⟨visited, rfl, hvisited⟩ := ih h
        exact ⟨_, List.append_assoc _ _ _,
          .next hcombine (download_status.1 (not_not.1 hstatus)) hvisited⟩

theorem Visited.head {rest : List downloader.uris.Uri}
    (h : Visited suffix n (uri :: rest) results) :
    ∃ request tail, downloader.uris.combine uri suffix = .ok request ∧
      results = downloader.download n request :: tail := by
  cases h with
  | stop hcombine _ => exact ⟨_, [], hcombine, rfl⟩
  | next hcombine _ _ => exact ⟨_, _, hcombine, rfl⟩

/-- The result of the first endpoint whose host is found is the last one. -/
theorem Visited.of_found (h : Visited suffix n uris results)
    (hfound : downloader.FirstFound suffix n uris i uri) :
    ∃ missing, results = missing ++ [downloader.download i uri] ∧
      (∀ r ∈ missing, r.isSuccessStatusCode = false) ∧ (missing = [] ↔ i = n) := by
  induction hfound generalizing results with
  | here hcombine hhost =>
    cases h with
    | stop hcombine' _ =>
      cases hcombine.symm.trans hcombine'
      exact ⟨[], rfl, by simp, by simp⟩
    | next hcombine' hmissing _ =>
      cases hcombine.symm.trans hcombine'
      exact absurd hmissing hhost
  | later hcombine hmissing hrest ih =>
    cases h with
    | stop hcombine' hhost =>
      cases hcombine.symm.trans hcombine'
      exact absurd hmissing hhost
    | next hcombine' hmissing' hvisited =>
      obtain ⟨missing, rfl, hall, -⟩ := ih hvisited
      refine ⟨_ :: missing, rfl,
        List.forall_mem_cons.2 ⟨not_success_of_notFound hmissing', hall⟩, ?_⟩
      have hle := hrest.le
      simp
      omega

theorem Visited.of_none (h : Visited suffix n uris results)
    (hnone : ¬ ∃ i uri, downloader.FirstFound suffix n uris i uri) :
    ∀ r ∈ results, r.isSuccessStatusCode = false := by
  induction h with
  | nil => simp
  | stop hcombine hhost => exact absurd ⟨_, _, .here hcombine hhost⟩ hnone
  | next hcombine hmissing _ ih =>
    refine List.forall_mem_cons.2 ⟨not_success_of_notFound hmissing, ih ?_⟩
    rintro ⟨i, uri, hfound⟩
    exact hnone ⟨i, uri, .later hcombine hmissing hfound⟩

/-! ## The choice -/

theorem choose_of_none (h : ∀ r ∈ results, r.isSuccessStatusCode = false) :
    choose results = results.head? := by
  unfold choose
  have hfind : results.find? (·.isSuccessStatusCode) = none := by
    rw [List.find?_eq_none]
    exact fun r hr => by simp [h r hr]
  rw [hfind]
  exact ite_self _

/-- The last result is chosen if it is a success, or the only one. -/
theorem choose_snoc {missing : List IsAliveAndWellResult} {r : IsAliveAndWellResult}
    (h : ∀ r ∈ missing, r.isSuccessStatusCode = false) :
    choose (missing ++ [r]) =
      if r.isSuccessStatusCode = true then some r else (missing ++ [r]).head? := by
  by_cases hsuccess : r.isSuccessStatusCode = true
  · have hfind : (missing ++ [r]).find? (·.isSuccessStatusCode) = some r := by
      rw [List.find?_append, List.find?_eq_none.2 fun r hr => by simp [h r hr]]
      simp [hsuccess]
    unfold choose
    rw [if_pos hsuccess, hfind]
    cases missing with
    | nil => rfl
    | cons first missing => exact if_neg (by simp)
  · rw [if_neg hsuccess]
    apply choose_of_none
    rw [List.forall_mem_append, List.forall_mem_singleton]
    exact ⟨h, by simpa using hsuccess⟩

/-! ## The result -/

variable {service : K8sServiceClient.ServiceV1} {path : Option String}
  {result : Option IsAliveAndWellResult}

variable (downloader) in
/-- The result is that of the first endpoint whose host is found; if there is none, the first
endpoint's, which says that the domain record is missing. -/
structure Faithful (suffix : Option String) (uris : List downloader.uris.Uri)
    (result : Option IsAliveAndWellResult) : Prop where
  found : ∀ i uri, downloader.FirstFound suffix 0 uris i uri →
    result = some (downloader.download i uri)
  missing : (¬ ∃ i uri, downloader.FirstFound suffix 0 uris i uri) → ∃ uri rest request,
    uris = uri :: rest ∧ downloader.uris.combine uri suffix = .ok request ∧
      result = some (downloader.download 0 request) ∧
      (downloader.download 0 request).status = notFoundText

theorem downloadAsync_eq (huris : downloader.extractUriFromService service = .ok uris)
    (h : downloader.downloadAsync service path = .ok result) :
    ∃ results, Visited (downloader.extractIsAliveAndWellSuffix path) 0 uris results ∧
      result = choose results := by
  unfold downloadAsync at h
  rw [huris] at h
  simp only at h
  split at h
  · cases h
  · rename_i results hloop
    cases h
    obtain ⟨visited, hall, hvisited⟩ := loop_visited hloop
    rw [List.nil_append] at hall
    exact ⟨visited, hvisited, by rw [hall]⟩

/-- The call returns if the path fits every endpoint. -/
theorem downloadAsync_returns (huris : downloader.extractUriFromService service = .ok uris)
    (hcombine : ∀ uri ∈ uris, ∃ request, downloader.uris.combine uri
      (downloader.extractIsAliveAndWellSuffix path) = .ok request) :
    ∃ result, downloader.downloadAsync service path = .ok result := by
  have hloop : ∀ n results, ∃ all, downloader.loop (downloader.extractIsAliveAndWellSuffix path)
      n uris results = .ok all := by
    clear huris
    induction uris with
    | nil => exact fun n results => ⟨results, rfl⟩
    | cons uri rest ih =>
      intro n results
      rw [List.forall_mem_cons] at hcombine
      obtain ⟨request, hrequest⟩ := hcombine.1
      unfold loop
      simp only [hrequest]
      split
      · exact ⟨_, rfl⟩
      · exact ih hcombine.2 _ _
  obtain ⟨all, hall⟩ := hloop 0 []
  unfold downloadAsync
  rw [huris]
  simp only [hall]
  exact ⟨_, rfl⟩

/-- **The result is that of the first endpoint whose host is found** iff this is the first endpoint
of all or its answer is a success, or no host is found. -/
theorem result_iff (huris : downloader.extractUriFromService service = .ok uris) (hne : uris ≠ [])
    (h : downloader.downloadAsync service path = .ok result) :
    downloader.Faithful (downloader.extractIsAliveAndWellSuffix path) uris result ↔
      ∀ i uri, downloader.FirstFound (downloader.extractIsAliveAndWellSuffix path) 0 uris i uri →
        i = 0 ∨ downloader.Succeeds i uri := by
  obtain ⟨results, hvisited, rfl⟩ := downloadAsync_eq huris h
  obtain ⟨uri₀, rest, rfl⟩ := List.exists_cons_of_ne_nil hne
  obtain ⟨request, tail, hcombine, rfl⟩ := hvisited.head
  constructor
  · intro hfaithful i uri hfound
    obtain ⟨missing, hresults, hmissing, hfirst⟩ := hvisited.of_found hfound
    by_contra hnot
    obtain ⟨hi, hfails⟩ := not_or.1 hnot
    have hchoice := hfaithful.found i uri hfound
    rw [hresults, choose_snoc hmissing, if_neg (mt download_success.1 hfails),
      ← hresults] at hchoice
    -- the first endpoint's result is chosen, and its host was not found
    have hhost : downloader.HostNotFound 0 request := by
      by_contra hhost
      exact hi (hfound.unique (.here hcombine hhost)).1
    have hstatus := congrArg IsAliveAndWellResult.status (Option.some.inj hchoice)
    rw [download_status.2 hhost, eq_comm, download_status] at hstatus
    exact hfound.host_found hstatus
  · intro hcondition
    refine ⟨fun i uri hfound => ?_, fun hnone => ?_⟩
    · obtain ⟨missing, hresults, hmissing, hfirst⟩ := hvisited.of_found hfound
      rw [hresults, choose_snoc hmissing]
      rcases hcondition i uri hfound with hi | hsuccess
      · rw [hfirst.2 hi]
        exact ite_self _
      · exact if_pos (download_success.2 hsuccess)
    · have hhost : downloader.HostNotFound 0 request := by
        by_contra hhost
        exact hnone ⟨0, request, .here hcombine hhost⟩
      exact ⟨uri₀, rest, request, rfl, hcombine, choose_of_none (hvisited.of_none hnone),
        download_status.2 hhost⟩

/-! ## Two endpoints -/

/-- URIs as texts, for texts that start with http:// or https://. -/
def plainNew (text : String) : Except Exn String :=
  if "http://".toList.isPrefixOf text.toList then .ok text
  else if "https://".toList.isPrefixOf text.toList then .ok text
  else .error (.formatException "Invalid URI: The URI scheme is not valid." none)

def plainScheme (text : String) : String :=
  if "http://".toList.isPrefixOf text.toList then "http" else "https"

theorem eq_append_of_isPrefixOf {start text : String}
    (h : start.toList.isPrefixOf text.toList = true) : ∃ rest, text = start ++ rest := by
  obtain ⟨rest, hrest⟩ := List.isPrefixOf_iff_prefix.1 h
  refine ⟨String.ofList rest, ?_⟩
  rw [← String.toList_inj, String.toList_append, String.toList_ofList, hrest]

theorem plainScheme_of_new (text uri : String) (h : plainNew text = .ok uri) :
    ∃ written rest, text = written ++ ":" ++ rest ∧ IsScheme written ∧
      (plainScheme uri).toList = written.toList.map Char.toLower := by
  unfold plainNew at h
  split at h
  · rename_i hhttp
    cases h
    obtain ⟨rest, rfl⟩ := eq_append_of_isPrefixOf hhttp
    refine ⟨"http", "//" ++ rest, ?_, ⟨'h', ['t', 't', 'p'], rfl, by decide, by simp⟩, ?_⟩
    · rw [← String.append_assoc]
      rfl
    · rw [plainScheme, if_pos hhttp]
      rfl
  · rename_i hhttp
    split at h
    · rename_i hhttps
      cases h
      obtain ⟨rest, rfl⟩ := eq_append_of_isPrefixOf hhttps
      refine ⟨"https", "//" ++ rest, ?_, ⟨'h', ['t', 't', 'p', 's'], rfl, by decide, by simp⟩, ?_⟩
      · rw [← String.append_assoc]
        rfl
      · rw [plainScheme, if_neg hhttp]
        rfl
    · cases h

theorem plainNew_http (rest : String) : ∃ uri, plainNew ("http://" ++ rest) = .ok uri := by
  refine ⟨_, if_pos ?_⟩
  rw [List.isPrefixOf_iff_prefix, String.toList_append]
  exact List.prefix_append _ _

def plainUris : UriClass :=
  ⟨String, plainNew, fun uri path => .ok (uri ++ path.getD ""), plainScheme, id,
    plainScheme_of_new, fun _ _ _ _ _ _ _ => plainNew_http _⟩

/-- `HttpStatusCode.ToString` with the names of two codes. -/
def nameOfCode (code : ℕ) : String :=
  if code = 200 then "OK" else if code = 500 then "InternalServerError" else toString code

theorem nameOfCode_noBlank (code : ℕ) : ' ' ∉ (nameOfCode code).toList := by
  unfold nameOfCode
  split
  · decide
  · split
    · decide
    · intro hblank
      rw [Nat.toString_eq_ofList_toDigits, String.toList_ofList] at hblank
      exact absurd (Nat.isDigit_of_mem_toDigits (by decide) (by decide) hblank) (by decide)

/-- The host of the first request is not found; the second one is answered. -/
def answering (statusCode : ℕ) : IsAliveAndWellHealthCheckDownloader where
  uris := plainUris
  configuration key := if key = "DefaultIsAliveAndWellSuffix" then some "/IsAliveAndWell" else none
  sendAsync n _ :=
    if n = 0 then .throws "No such host is known. (old.example.com:80)"
    else .answers statusCode (.ok "checked")
  newGuid n := toString n
  utcNow _ := .utcDate 2022 1 1
  names := ⟨nameOfCode, nameOfCode_noBlank⟩
  startsWith message start := start.toList.isPrefixOf message.toList

/-- A service with two ingress hosts. -/
def twoIngresses : K8sServiceClient.ServiceV1 :=
  ⟨"web", "shop", ["web.shop:80"], [], ["http://old.example.com", "http://www.example.com"], none,
    .minValue⟩

theorem answering_hostNotFound (statusCode : ℕ) (uri : String) :
    (answering statusCode).HostNotFound 0 uri := by
  have hstart : "No such host is known.".toList.isPrefixOf
      "No such host is known. (old.example.com:80)".toList = true := by decide
  exact ⟨"No such host is known. (old.example.com:80)", hstart, .inl rfl⟩

theorem answering_firstFound (statusCode : ℕ) :
    (answering statusCode).FirstFound (some "/IsAliveAndWell") 0
      ["http://old.example.com", "http://www.example.com"] 1
      "http://www.example.com/IsAliveAndWell" := by
  refine .later rfl (answering_hostNotFound statusCode _) (.here rfl ?_)
  rintro ⟨message, -, hsend | ⟨code, hsend⟩⟩
  · cases hsend
  · cases hsend

/-- The second host answers that it is up, and this is the result. -/
theorem result_iff_up : (answering 200).Faithful (some "/IsAliveAndWell")
    ["http://old.example.com", "http://www.example.com"]
    (some ((answering 200).download 1 "http://www.example.com/IsAliveAndWell")) := by
  have huris : (answering 200).extractUriFromService twoIngresses =
      .ok ["http://old.example.com", "http://www.example.com"] := rfl
  have hreturns : (answering 200).downloadAsync twoIngresses none =
      .ok (some ((answering 200).download 1 "http://www.example.com/IsAliveAndWell")) := rfl
  apply (result_iff huris (List.cons_ne_nil _ _) hreturns).2
  intro i uri hfound
  obtain ⟨rfl, rfl⟩ := hfound.unique (answering_firstFound 200)
  exact .inr ⟨200, "checked", rfl, by decide⟩

/-- The second host answers with an error, and the result is that of the first. -/
theorem error_reported_missing : ∃ result,
    (answering 500).downloadAsync twoIngresses none = .ok (some result) ∧
      result.status = "Domain Record Not Found" ∧
      (answering 500).FirstFound (some "/IsAliveAndWell") 0
        ["http://old.example.com", "http://www.example.com"] 1
        "http://www.example.com/IsAliveAndWell" ∧
      (answering 500).sendAsync 1 "http://www.example.com/IsAliveAndWell" =
        .answers 500 (.ok "checked") ∧
      ¬ (answering 500).Faithful (some "/IsAliveAndWell")
        ["http://old.example.com", "http://www.example.com"] (some result) := by
  have hstatus : ((answering 500).download 0 "http://old.example.com/IsAliveAndWell").status =
      notFoundText := download_status.2 (answering_hostNotFound 500 _)
  refine ⟨(answering 500).download 0 "http://old.example.com/IsAliveAndWell", rfl, hstatus,
    answering_firstFound 500, rfl, ?_⟩
  intro hfaithful
  have hresult := hfaithful.found 1 _ (answering_firstFound 500)
  rw [Option.some.inj hresult] at hstatus
  exact (answering_firstFound 500).host_found (download_status.1 hstatus)

end IsAliveAndWellHealthCheckDownloader

end Sentinel
