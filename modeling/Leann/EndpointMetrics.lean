import Leann.MeteredWindows
import Leann.PythonValues
import Mathlib.Algebra.Order.Group.Multiset

/-!
# The counters of the two endpoints

The cached embedding server and the counting proxy answer every request in a
thread of its own. The proxy counts what came back before it writes the
response. The cached server counts the response behind it, so that a reset
or a reading of the counters can come in between.
-/

namespace Leann.EndpointMetrics

open MeteredWindows PythonValues

section Requests

/-- The body of a request. -/
inductive Body where
  /-- What `json.loads` returns. -/
  | value (value : Value)
  /-- It raises `JSONDecodeError`. -/
  | notJson
  /-- It raises `UnicodeDecodeError`. -/
  | notUnicode

/-- A request that is posted. -/
structure PostRequest where
  /-- `self.path`. -/
  path : List Char
  /-- `int` of the header `Content-Length`, where it is one. -/
  contentLength : Option ℤ
  /-- The body. -/
  body : Body

/-- The path is that of embeddings. -/
def PostRequest.embeddings (request : PostRequest) : Bool := decide ("/embeddings".toList<:+request.path)

/-- `get` of a dictionary. -/
def getKey (entries : List (Scalar×Value)) (name : String) : Option Value :=
  (entries.find? (fun entry => entry.1.same (.text name.toList))).map Prod.snd

/-- The characters of a `str`. -/
def asText : Value → Option (List Char)
  | .scalar (.text characters) => some characters
  | _ => none

end Requests

section Cache

/-- What the cached server counts. -/
inductive CacheEvent where
  /-- `request`. -/
  | request (inputs : ℕ)
  /-- `response`. -/
  | response (status : ℕ)
  deriving DecidableEq

/-- `Metrics` of the cached server. The counts by status are those of the
elements of a multiset. -/
structure CacheMetrics where
  /-- `requests`. -/
  requests : ℕ
  /-- `inputs`. -/
  inputs : ℕ
  /-- `http_errors`. -/
  httpErrors : ℕ
  /-- `status_counts`. -/
  statusCounts : Multiset ℕ
  deriving DecidableEq

/-- `request` and `response` of the cached server. -/
def CacheMetrics.add (metrics : CacheMetrics) : CacheEvent → CacheMetrics
  | .request inputs =>
    {metrics with requests := metrics.requests+1,inputs := metrics.inputs+inputs}
  | .response status =>
    {metrics with
      statusCounts := {status}+metrics.statusCounts,
      httpErrors := if status≥400 then metrics.httpErrors+1 else metrics.httpErrors}

/-- `_snapshot` of the cached server. -/
structure CacheSnapshot where
  /-- `requests`. -/
  requests : ℕ
  /-- `inputs`. -/
  inputs : ℕ
  /-- `upstream_requests`. -/
  upstreamRequests : ℕ
  /-- `upstream_responses`. -/
  upstreamResponses : ℕ
  /-- `http_errors`. -/
  httpErrors : ℕ
  /-- `network_errors`. -/
  networkErrors : ℕ
  /-- `status_counts`. -/
  statusCounts : Multiset ℕ
  deriving DecidableEq

/-- `_snapshot` of the cached server. -/
def CacheMetrics.snapshot (metrics : CacheMetrics) : CacheSnapshot where
  requests := metrics.requests
  inputs := metrics.inputs
  upstreamRequests := metrics.requests
  upstreamResponses := metrics.statusCounts.card
  httpErrors := metrics.httpErrors
  networkErrors := 0
  statusCounts := metrics.statusCounts

/-- Two events of the cached server may be exchanged. -/
theorem CacheMetrics.add_comm (metrics : CacheMetrics) (first second : CacheEvent) :
    (metrics.add first).add second=(metrics.add second).add first := by
  cases first with
  | request inputs =>
    cases second with
    | request inputs' =>
      simp only [CacheMetrics.add,CacheMetrics.mk.injEq,and_true,true_and]
      omega
    | response status => rfl
  | response status =>
    cases second with
    | request inputs => rfl
    | response status' =>
      simp only [CacheMetrics.add,CacheMetrics.mk.injEq,true_and]
      constructor
      · split <;> split <;> rfl
      · exact add_left_comm ({status'} : Multiset ℕ) {status} metrics.statusCounts

/-- The counters of the cached server. -/
def cacheMeter : Meter CacheEvent CacheMetrics := ⟨⟨0,0,0,0⟩,CacheMetrics.add,CacheMetrics.add_comm⟩

/-- `_send` of the cached server. -/
def send (status : ℕ) : List (Act CacheEvent) := [.write,.count (.response status)]

/-- The texts of a request, unless a `ValueError` is raised. -/
def inputTexts (entries : List (Scalar×Value)) : Option (List (List Char)) :=
  match (getKey entries "input").getD (.list []) with
  | .scalar (.text characters) => some [characters]
  | .list items => items.mapM asText
  | _ => none

/-- `do_POST` of the cached server, for a request that is no reset. -/
def cachePost (maxRequestBytes : ℤ) (textToRow : List Char → Option ℕ) (request : PostRequest) :
    List (Act CacheEvent) :=
  if request.embeddings=false then send 404
  else match request.contentLength with
    | none => send 400
    | some length =>
      if length≤0 ∨ length>maxRequestBytes then send 413
      else match request.body with
        | .value (.dict entries) =>
          match inputTexts entries with
          | none => send 400
          | some texts => .count (.request texts.length)::
            -- a text that the corpus lacks raises `KeyError`
            send (if texts.all (fun text => (textToRow text).isSome) then 200 else 400)
        | _ => send 400

end Cache

section Proxy

/-- What the proxy counts. -/
inductive ProxyEvent where
  /-- `add`. -/
  | add (inputs : ℕ)
  /-- `upstream_started`. -/
  | upstreamStarted
  /-- `upstream_finished`. -/
  | upstreamFinished (status : ℕ)
  /-- `network_failed`. -/
  | networkFailed
  deriving DecidableEq

/-- `Metrics` of the proxy, and its snapshot. -/
structure ProxyMetrics where
  /-- `requests`. -/
  requests : ℕ
  /-- `inputs`. -/
  inputs : ℕ
  /-- `upstream_requests`. -/
  upstreamRequests : ℕ
  /-- `upstream_responses`. -/
  upstreamResponses : ℕ
  /-- `http_errors`. -/
  httpErrors : ℕ
  /-- `network_errors`. -/
  networkErrors : ℕ
  /-- `status_counts`. -/
  statusCounts : Multiset ℕ
  deriving DecidableEq

/-- The methods of the proxy that count. -/
def ProxyMetrics.add (metrics : ProxyMetrics) : ProxyEvent → ProxyMetrics
  | .add inputs => {metrics with requests := metrics.requests+1,inputs := metrics.inputs+inputs}
  | .upstreamStarted => {metrics with upstreamRequests := metrics.upstreamRequests+1}
  | .upstreamFinished status =>
    {metrics with
      upstreamResponses := metrics.upstreamResponses+1,
      statusCounts := {status}+metrics.statusCounts,
      httpErrors := if status≥400 then metrics.httpErrors+1 else metrics.httpErrors}
  | .networkFailed => {metrics with networkErrors := metrics.networkErrors+1}

/-- Two events of the proxy may be exchanged. -/
theorem ProxyMetrics.add_comm (metrics : ProxyMetrics) (first second : ProxyEvent) :
    (metrics.add first).add second=(metrics.add second).add first := by
  cases first with
  | add inputs =>
    cases second with
    | add inputs' =>
      simp only [ProxyMetrics.add,ProxyMetrics.mk.injEq,and_true,true_and]
      omega
    | _ => rfl
  | upstreamFinished status =>
    cases second with
    | upstreamFinished status' =>
      simp only [ProxyMetrics.add,ProxyMetrics.mk.injEq,true_and]
      constructor
      · split <;> split <;> rfl
      · exact add_left_comm ({status'} : Multiset ℕ) {status} metrics.statusCounts
    | _ => rfl
  | upstreamStarted => cases second <;> rfl
  | networkFailed => cases second <;> rfl

/-- The counters of the proxy. -/
def proxyMeter : Meter ProxyEvent ProxyMetrics := ⟨⟨0,0,0,0,0,0,0⟩,ProxyMetrics.add,ProxyMetrics.add_comm⟩

/-- What comes back from upstream. -/
inductive Upstream where
  /-- A response with a status, an error among them. -/
  | answered (status : ℕ)
  /-- No connection, or no response in time. -/
  | failed
  /-- A response that breaks off. -/
  | broken

/-- The number of inputs of a body, unless the thread ends with an exception. -/
def itemCount : Body → Option ℕ
  | .value (.dict entries) =>
    match (getKey entries "input").getD (.list []) with
    | .list items => some items.length
    | _ => some 1
  | .value _ => some 0
  | .notJson => some 0
  | .notUnicode => none

/-- `_proxy`. -/
def forward (upstream : Upstream) : List (Act ProxyEvent) :=
  .count .upstreamStarted::match upstream with
  | .answered status => [.count (.upstreamFinished status),.write]
  | .failed => [.count .networkFailed,.write]
  | .broken => []

/-- `do_POST` of the proxy, for a request that is no reset. -/
def proxyPost (request : PostRequest) (upstream : Upstream) : List (Act ProxyEvent) :=
  match request.contentLength with
  | none => []
  | some _ =>
    if request.embeddings then
      match itemCount request.body with
      | none => []
      | some inputs => .count (.add inputs)::forward upstream
    else forward upstream

/-- The proxy counts everything before it writes. -/
theorem proxyPost_countsFirst (request : PostRequest) (upstream : Upstream) :
    CountsFirst (proxyPost request upstream) := by
  have hforward : CountsFirst (forward upstream) := by
    cases upstream with
    | answered status => rfl
    | failed => rfl
    | broken => trivial
  unfold proxyPost
  split
  · trivial
  · split
    · split
      · trivial
      · exact hforward
    · exact hforward

end Proxy

section Windows

variable {ι : Type} [DecidableEq ι]

/-- The counters that a client reads when all responses have arrived are those
of the requests it issued since it reset them: always at the proxy, and at the
cached server when they are reset and read while no handler has still to count
a response that it has written. -/
theorem windows_exact (maxRequestBytes : ℤ) (textToRow : List Char → Option ℕ) (requests : ι → PostRequest)
    (upstream : ι → Upstream) :
    (∀ state,Reached proxyMeter (fun request => proxyPost (requests request) (upstream request))
        (fun _ => True) state → state.Received →
      state.Exact proxyMeter (fun request => proxyPost (requests request) (upstream request))) ∧
    ∀ state,Reached cacheMeter (fun request => cachePost maxRequestBytes textToRow (requests request))
        State.Settled state → state.Received → state.Settled →
      state.Exact cacheMeter (fun request => cachePost maxRequestBytes textToRow (requests request)) := by
  constructor
  · intro state reached received
    obtain ⟨hreached,hsettled,-⟩ := settled_of_countsFirst
      (fun request => proxyPost_countsFirst (requests request) (upstream request)) reached
    exact exact_of_settled hreached received hsettled
  · intro state reached received settled
    exact exact_of_settled reached received settled

/-- A request for the embedding of one text. -/
def oneText : PostRequest where
  path := "/v1/embeddings".toList
  contentLength := some 14
  body := .value (.dict [(.text "input".toList,.scalar (.text ['a']))])

/-- What the cached server does for it, when the corpus has the text. -/
theorem cachePost_oneText : cachePost 1000 (fun _ => some 0) oneText=
    [.count (.request 1),.write,.count (.response 200)] := by
  decide

/-- What the proxy does for it. -/
theorem proxyPost_oneText : proxyPost oneText (.answered 200)=
    [.count (.add 1),.count .upstreamStarted,.count (.upstreamFinished 200),.write] := by
  decide

/-- A server that has handled one request as far as a number of acts. -/
def afterActs {A M : Type} (meter : Meter A M) (acts : List (Act A)) (count : ℕ) : State ℕ A M :=
  (List.replicate count 0).foldl (State.act meter) ((start meter).issue (fun _ => acts) 0)

/-- Some steps lead there. -/
theorem afterActs_reached {A M : Type} (meter : Meter A M) (acts : List (Act A)) (count : ℕ)
    (mayReset : State ℕ A M → Prop) :
    Reached meter (fun _ => acts) mayReset (afterActs meter acts count) :=
  Reached.acts (Relation.ReflTransGen.single (.issue List.not_mem_nil)) _

/-- One request to each server, and nothing left to do for its handler. -/
theorem windows_exact_oneText :
    (afterActs proxyMeter (proxyPost oneText (.answered 200)) 4).Exact proxyMeter
        (fun _ => proxyPost oneText (.answered 200)) ∧
      (afterActs cacheMeter (cachePost 1000 (fun _ => some 0) oneText) 3).Exact cacheMeter
        (fun _ => cachePost 1000 (fun _ => some 0) oneText) := by
  have hexact := @windows_exact ℕ _ 1000 (fun _ => some 0) (fun _ => oneText) (fun _ => .answered 200)
  refine ⟨hexact.1 _ (afterActs_reached _ _ _ _) ?_,hexact.2 _ (afterActs_reached _ _ _ _) ?_ ?_⟩
  · rw [proxyPost_oneText]
    decide
  · rw [cachePost_oneText]
    decide
  · rw [cachePost_oneText]
    decide

/-- The client has the response of the cached server and reads the counters
before the response is counted. -/
theorem windows_inexact :
    Reached cacheMeter (fun _ => cachePost 1000 (fun _ => some 0) oneText) (fun _ => True)
        (afterActs cacheMeter (cachePost 1000 (fun _ => some 0) oneText) 2) ∧
      (afterActs cacheMeter (cachePost 1000 (fun _ => some 0) oneText) 2).Received ∧
      (afterActs cacheMeter (cachePost 1000 (fun _ => some 0) oneText) 2).metrics.snapshot=
        ⟨1,1,1,0,0,0,0⟩ ∧
      ¬(afterActs cacheMeter (cachePost 1000 (fun _ => some 0) oneText) 2).Exact cacheMeter
        (fun _ => cachePost 1000 (fun _ => some 0) oneText) := by
  refine ⟨afterActs_reached _ _ _ _,?_⟩
  rw [cachePost_oneText]
  decide

end Windows

end Leann.EndpointMetrics
