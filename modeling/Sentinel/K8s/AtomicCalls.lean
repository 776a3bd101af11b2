import Sentinel.K8s.KubernetesClient

/-!
# The calls of `KubernetesClient` are atomic

`SaveAsync` reads before it writes, and other clients can write in between.  The version it sends
along makes the server refuse the write if the object is not the one that was read.

* `overwrite_refused` — the server refuses a write of an object that has changed.
* `atomic_getAsync_bind` — a read and one conditional write act as a call that runs alone, or the
  write is refused.
-/

set_option autoImplicit false

namespace Sentinel.KubernetesClient

open Commands

variable {M S : Type} {server : ApiServer M S} {s s₀ s' : server.Store} {path : ResourcePath}
  {body : JObject M S}

/-! ## Answers -/

/-- The answer to a read of the object at a path. -/
def answer (server : ApiServer M S) (s : server.Store) (path : ResourcePath) : ApiReply M S :=
  readAnswer path (server.objects s path)

theorem answer_congr (h : server.objects s path = server.objects s' path) :
    answer server s path = answer server s' path :=
  congrArg (readAnswer path) h

theorem exec_get (server : ApiServer M S) (s : server.Store) (path : ResourcePath) :
    server.exec s (.get path) = (answer server s path, s) :=
  server.read s path

theorem exec_error {request : ApiRequest M S} {code : HttpStatusCode}
    (h : (server.exec s request).1 = .error code) : server.exec s request = (.error code, s) :=
  Prod.ext h (server.refused s request code h)

section

variable {T α : Type} {codec : Serialization T M S} {crd : CustomEntityDefinition} {name : String}
  {nameSpace : Option String} {resource : Resource T}

theorem found_none (h : server.objects s path = none) :
    found codec (answer server s path) = .ok none := by
  unfold answer
  rw [h]
  rfl

theorem found_some (h : found codec (answer server s path) = .ok (some resource)) :
    ∃ o, server.objects s path = some o ∧ resource.metadata = (o.json path).metadata := by
  unfold answer at h
  cases hobject : server.objects s path with
  | none =>
    rw [hobject] at h
    cases h
  | some o =>
    rw [hobject] at h
    refine ⟨o, rfl, ?_⟩
    unfold readAnswer found Serialization.toObject at h
    simp only at h
    cases hparse : codec.deserialize (o.json path).content with
    | error e =>
      rw [hparse] at h
      cases h
    | ok parsed =>
      rw [hparse] at h
      cases parsed with
      | none => cases h
      | some body =>
        cases h
        rfl

/-- A read, and what is done with what it finds. -/
def andThen (codec : Serialization T M S) (k : Option (Resource T) → KubernetesApi M S α)
    (reply : ApiReply M S) : KubernetesApi M S α :=
  Prog.ofExcept (found codec reply) >>= k

theorem andThen_ok {k : Option (Resource T) → KubernetesApi M S α} {reply : ApiReply M S}
    {r : Option (Resource T)} (h : found codec reply = .ok r) : andThen codec k reply = k r := by
  unfold andThen
  rw [h]
  rfl

theorem andThen_error {k : Option (Resource T) → KubernetesApi M S α} {reply : ApiReply M S}
    {e : ClientExn} (h : found codec reply = .error e) : andThen codec k reply = .throw e := by
  unfold andThen
  rw [h]
  rfl

theorem getAsync_bind {k : Option (Resource T) → KubernetesApi M S α}
    (hcrd : createResourceDefinition codec.type = .ok crd) :
    getAsync codec name nameSpace >>= k =
      .call (.get (resourcePath crd nameSpace name)) (andThen codec k) := by
  unfold getAsync withDefinition
  rw [hcrd]
  rfl

end

/-! ## What a request does -/

/-- What a call relies on: nobody else touches its object, unless others use it. -/
def Relies (server : ApiServer M S) (contended : Prop) (path : ResourcePath)
    (s s' : server.Store) : Prop :=
  Later server.exec s s' ∧ (¬ contended → server.objects s' path = server.objects s path)

theorem Relies.refl {contended : Prop} (s : server.Store) : Relies server contended path s s :=
  ⟨.refl, fun _ => rfl⟩

theorem Relies.trans {contended : Prop} {a b c : server.Store}
    (hab : Relies server contended path a b) (hbc : Relies server contended path b c) :
    Relies server contended path a c :=
  ⟨Relation.ReflTransGen.trans hab.1 hbc.1, fun h => (hbc.2 h).trans (hab.2 h)⟩

theorem later_exec (server : ApiServer M S) (s : server.Store) (request : ApiRequest M S) :
    Later server.exec s (server.exec s request).2 :=
  .single ⟨request, rfl⟩

/-- The server refuses to create an object that is there. -/
theorem create_refused (h : server.objects s path ≠ none) :
    ∃ code, server.exec s (.create path body) = (.error code, s) := by
  obtain ⟨code, herror⟩ := server.create_there s path body h
  exact ⟨code, exec_error herror⟩

/-- **The server refuses a write of an object that has changed** since it was read. -/
theorem overwrite_refused {o : StoredObject M S} (request : ApiRequest M S)
    (hrequest : request.Overwrites path body) (hread : server.objects s₀ path = some o)
    (hlater : Later server.exec s₀ s) (hchanged : server.objects s path ≠ some o)
    (hnames : Names body o) : ∃ code, server.exec s request = (.error code, s) := by
  have herror : ∃ code, (server.exec s request).1 = .error code := by
    cases hobject : server.objects s path with
    | none => exact server.overwrite_absent s request path body hrequest hobject
    | some o' =>
      refine server.overwrite_stale s request path body o' _ hrequest hobject hnames.version
        (server.version_ne s₀ path o hread) fun hversion => hchanged ?_
      rw [hobject, server.version_unique s₀ s path o o' hlater hread hobject hversion.symm]
  obtain ⟨code, hcode⟩ := herror
  exact ⟨code, exec_error hcode⟩

/-! ## A read and a conditional write -/

section Calls

variable {T α : Type} {codec : Serialization T M S} {crd : CustomEntityDefinition} {name : String}
  {nameSpace : Option String} {resource : Resource T} {contended : Prop}

/-- The call has run alone.  If others use its object, the server may instead have refused its
write, and then it has changed nothing. -/
def AloneOrRefused (server : ApiServer M S) (contended : Prop) (p : KubernetesApi M S α)
    (s : server.Store) (result : Except ClientExn α) (s' : server.Store) : Prop :=
  run server.exec p s = (result, s') ∨
    (contended ∧ (∃ code, result = .error (.httpOperationException code)) ∧ s' = s)

theorem run_getAsync_bind {k : Option (Resource T) → KubernetesApi M S α}
    (hcrd : createResourceDefinition codec.type = .ok crd) :
    run server.exec (getAsync codec name nameSpace >>= k) s = run server.exec
      (andThen codec k (answer server s (resourcePath crd nameSpace name))) s := by
  rw [getAsync_bind hcrd]
  show run server.exec (andThen codec k (server.exec s (.get _)).1) (server.exec s (.get _)).2 = _
  rw [exec_get]

/-- What is done with `r` ends the call, or is a last request that the server refuses if the read
would not give `r` any more. -/
def LastWrite (server : ApiServer M S) (codec : Serialization T M S) (path : ResourcePath)
    (s₀ : server.Store) (r : Option (Resource T)) (p : KubernetesApi M S α) : Prop :=
  (∃ result, p.result = some result) ∨ ∃ c next, p = .call c next ∧
    (∀ reply, ∃ result, (next reply).result = some result) ∧
    ∀ s, Later server.exec s₀ s → found codec (answer server s path) = .ok r ∨
      ∃ code, server.exec s c = (.error code, s) ∧
        (next (.error code)).result = some (.error (.httpOperationException code))

/-- **A read and one conditional write** act as if they ran alone, or the write is refused. -/
theorem atomic_getAsync_bind {k : Option (Resource T) → KubernetesApi M S α}
    (hcrd : createResourceDefinition codec.type = .ok crd)
    (hk : ∀ s₀ r,
      found codec (answer server s₀ (resourcePath crd nameSpace name)) = .ok r →
      LastWrite server codec (resourcePath crd nameSpace name) s₀ r (k r)) :
    Atomic server.exec id (Relies server contended (resourcePath crd nameSpace name))
      (AloneOrRefused server contended (getAsync codec name nameSpace >>= k))
      (getAsync codec name nameSpace >>= k) s := by
  have halone : ∀ (s s' : server.Store) (result : Except ClientExn α), run server.exec
      (andThen codec k (answer server s (resourcePath crd nameSpace name))) s =
        (result, s') →
      AloneOrRefused server contended (getAsync codec name nameSpace >>= k) s result s' :=
    fun s s' result h => Or.inl ((run_getAsync_bind hcrd).trans h)
  rw [getAsync_bind hcrd] at halone ⊢
  refine Atomic.call fun s₀ _ => ?_
  rw [exec_get]
  dsimp only
  cases hfound : found codec (answer server s₀ (resourcePath crd nameSpace name)) with
  | error e =>
    refine Or.inl ⟨.error e, by rw [andThen_error hfound]; rfl, halone s₀ s₀ _ ?_⟩
    rw [andThen_error hfound]
    rfl
  | ok r =>
    rw [andThen_ok hfound]
    rcases hk s₀ r hfound with ⟨result, hresult⟩ | ⟨c, next, hnext, hlast, hrefused⟩
    · refine Or.inl ⟨result, hresult, halone s₀ s₀ result ?_⟩
      rw [andThen_ok hfound]
      exact run_of_result hresult
    · rw [hnext]
      refine Or.inr ⟨rfl, rfl, Atomic.call fun s₁ hrely => Or.inl ?_⟩
      obtain ⟨result, hresult⟩ := hlast (server.exec s₁ c).1
      refine ⟨result, hresult, ?_⟩
      -- the write sees what was read, unless others use the object
      have hagain : found codec
          (answer server s₁ (resourcePath crd nameSpace name)) = .ok r ∨
          (contended ∧ ∃ code, server.exec s₁ c = (.error code, s₁) ∧
            (next (.error code)).result = some (.error (.httpOperationException code))) := by
        by_cases hcontended : contended
        · exact (hrefused s₁ hrely.1).imp_right fun h => ⟨hcontended, h⟩
        · rw [answer_congr (hrely.2 hcontended)]
          exact Or.inl hfound
      rcases hagain with hagain | ⟨hcontended, code, hexec, herror⟩
      · apply halone s₁ (server.exec s₁ c).2 result
        rw [andThen_ok hagain, hnext]
        exact run_of_result hresult
      · refine Or.inr ⟨hcontended, ⟨code, ?_⟩, by rw [hexec]⟩
        rw [hexec, herror] at hresult
        exact (Option.some.inj hresult).symm

/-! ## The calls -/

/-- What `SaveAsync` does with what it has read. -/
theorem saveAsync_lastWrite (hcrd : createResourceDefinition codec.type = .ok crd)
    {r : Option (Resource T)}
    (hfound : found codec (answer server s₀ (resourcePath crd resource.metadata.namespaceProperty
      resource.metadata.name)) = .ok r) :
    LastWrite server codec
      (resourcePath crd resource.metadata.namespaceProperty resource.metadata.name) s₀ r
      (saveFound codec resource r) := by
  cases r with
  | none =>
    unfold saveFound createAsync withDefinition
    rw [hcrd]
    refine Or.inr ⟨_, _, rfl, fun reply => ⟨_, Prog.result_ofExcept _⟩, fun s _ => ?_⟩
    cases hobject : server.objects s
      (resourcePath crd resource.metadata.namespaceProperty resource.metadata.name) with
    | none => exact Or.inl (found_none hobject)
    | some o =>
      have hthere : server.objects s (resourcePath crd resource.metadata.namespaceProperty
          resource.metadata.name) ≠ none := by
        rw [hobject]
        exact Option.some_ne_none o
      obtain ⟨code, hrefused⟩ := create_refused hthere
      exact Or.inr ⟨code, hrefused, rfl⟩
  | some serverResource =>
    obtain ⟨o, hread, hmetadata⟩ := found_some hfound
    unfold saveFound updateAsync withDefinition
    rw [hcrd]
    refine Or.inr ⟨_, _, rfl, fun reply => ⟨_, Prog.result_ofExcept _⟩, fun s hlater => ?_⟩
    by_cases hobject : server.objects s
        (resourcePath crd resource.metadata.namespaceProperty resource.metadata.name) = some o
    · refine Or.inl ?_
      rw [answer_congr (hobject.trans hread.symm)]
      exact hfound
    · have hnames : Names (codec.toJObject { resource with metadata :=
          { resource.metadata with
            uid := serverResource.metadata.uid
            resourceVersion := serverResource.metadata.resourceVersion } }) o :=
        ⟨by rw [hmetadata]; rfl, by rw [hmetadata]; rfl⟩
      obtain ⟨code, hrefused⟩ := overwrite_refused (.replace _ _) ⟨rfl, rfl⟩ hread hlater
        hobject hnames
      exact Or.inr ⟨code, hrefused, rfl⟩

theorem saveAsync_atomic (hcrd : createResourceDefinition codec.type = .ok crd) :
    Atomic server.exec id
      (Relies server contended
        (resourcePath crd resource.metadata.namespaceProperty resource.metadata.name))
      (AloneOrRefused server contended (saveAsync codec resource)) (saveAsync codec resource) s :=
  atomic_getAsync_bind hcrd fun _ _ hfound => saveAsync_lastWrite hcrd hfound

end Calls

end Sentinel.KubernetesClient
