import Sentinel.Auth.AZAuthService
import Sentinel.Lib.Atomic

/-!
# `KubernetesClient`

The methods are programs over the requests of the API server, which keeps the objects of custom
resources with a version each: a write that names an old version is refused.  The server is not part
of the repository: `ApiServer` has what the methods rely on.  A request is taken to reach the server
and its answer to come back.
-/

set_option autoImplicit false

namespace Sentinel

open Commands

/-! ## Definitions of resources -/

inductive EntityScope where
  | namespaced
  | cluster
  deriving DecidableEq

structure KubernetesEntityAttribute where
  group : String
  apiVersion : String
  kind : Option String
  pluralName : Option String

/-- A type of resources, with the attributes it has. -/
structure ResourceType where
  name : String
  entity : Option KubernetesEntityAttribute
  scope : Option EntityScope

structure CustomEntityDefinition where
  kind : String
  listKind : String
  group : String
  version : String
  singular : String
  plural : String
  scope : EntityScope

/-- The default of the enumeration is its first member. -/
def createResourceDefinition (resourceType : ResourceType) : Except Exn CustomEntityDefinition :=
  match resourceType.entity with
  | none => .error .argumentException
  | some entity =>
    let kind := if isNullOrWhiteSpace entity.kind then resourceType.name
      else entity.kind.getD ""
    .ok { kind := kind
          listKind := kind ++ "List"
          group := entity.group
          version := entity.apiVersion
          singular := kind.map Char.toLower
          plural := if isNullOrWhiteSpace entity.pluralName then kind.map Char.toLower ++ "s"
            else entity.pluralName.getD ""
          scope := resourceType.scope.getD .namespaced }

namespace KubernetesClient

/-! ## The server -/

/-- The path of an object; the paths of objects without a namespace are those of the cluster. -/
structure ResourcePath where
  group : String
  version : String
  plural : String
  nameSpace : Option String
  name : String
  deriving DecidableEq

/-- The metadata that decide what becomes of a request. -/
structure V1ObjectMeta where
  name : String
  namespaceProperty : Option String
  uid : Option String
  resourceVersion : Option String

/-- An object without these metadata: its status, and everything else. -/
structure Content (M S : Type) where
  main : M
  status : Option S
  deriving DecidableEq

structure JObject (M S : Type) where
  metadata : V1ObjectMeta
  content : Content M S

inductive HttpStatusCode where
  | notFound
  | conflict
  | unprocessableEntity
  | internalServerError
  | other (code : ℕ)
  deriving DecidableEq

/-- What the server knows of a resource it serves: whether the status has a path of its own, and
the validation of a content, which may fill in defaults and drop what is not in the schema. -/
structure ServedResource (M S : Type) where
  scope : EntityScope
  statusSubresource : Bool
  admitted : Content M S → Option (Content M S)

inductive ApiRequest (M S : Type) where
  | get (path : ResourcePath)
  | create (path : ResourcePath) (body : JObject M S)
  | replace (path : ResourcePath) (body : JObject M S)
  | replaceStatus (path : ResourcePath) (body : JObject M S)
  | delete (path : ResourcePath)

def ApiRequest.path {M S : Type} : ApiRequest M S → ResourcePath
  | .get path => path
  | .create path _ => path
  | .replace path _ => path
  | .replaceStatus path _ => path
  | .delete path => path

abbrev ApiReply (M S : Type) := Except HttpStatusCode (JObject M S)

/-- An object as the server keeps it. -/
structure StoredObject (M S : Type) where
  uid : String
  resourceVersion : String
  content : Content M S

section Server

variable {M S : Type}

/-- An object as the server sends it. -/
def StoredObject.json (path : ResourcePath) (o : StoredObject M S) : JObject M S where
  metadata := ⟨path.name, path.nameSpace, some o.uid, some o.resourceVersion⟩
  content := o.content

/-- The body names the identity and the version of the object. -/
structure Names (body : JObject M S) (o : StoredObject M S) : Prop where
  uid : body.metadata.uid = some o.uid
  version : body.metadata.resourceVersion = some o.resourceVersion

/-- The answer to a read. -/
def readAnswer (path : ResourcePath) : Option (StoredObject M S) → ApiReply M S
  | none => .error .notFound
  | some o => .ok (o.json path)

/-- The request writes an object that has to be there. -/
def ApiRequest.Overwrites (path : ResourcePath) (body : JObject M S) : ApiRequest M S → Prop
  | .replace path' body' => path' = path ∧ body' = body
  | .replaceStatus path' body' => path' = path ∧ body' = body
  | _ => False

/-- What becomes of a store by requests. -/
def Later {Store : Type} (exec : Store → ApiRequest M S → ApiReply M S × Store) :
    Store → Store → Prop :=
  Relation.ReflTransGen fun s s' => ∃ request, s' = (exec s request).2

/-- The resource of a path, if it is served in the scope of the path. -/
def servedAt (served : String → String → String → Option (ServedResource M S))
    (path : ResourcePath) : Option (ServedResource M S) :=
  match served path.group path.version path.plural with
  | none => none
  | some resource =>
    if resource.scope = (if path.nameSpace.isSome then .namespaced else .cluster) then some resource
    else none

variable (M S)

/-- An API server, as it is documented: the resources it serves, and its objects.  A request that is
refused changes nothing, and no request touches the object of another path; an object that has the
version it had before has not been written since. -/
structure ApiServer where
  served : String → String → String → Option (ServedResource M S)
  Store : Type
  objects : Store → ResourcePath → Option (StoredObject M S)
  exec : Store → ApiRequest M S → ApiReply M S × Store
  refused : ∀ s request code, (exec s request).1 = .error code → (exec s request).2 = s
  elsewhere : ∀ s request path, path ≠ request.path →
    objects (exec s request).2 path = objects s path
  read : ∀ s path, exec s (.get path) = (readAnswer path (objects s path), s)
  create_there : ∀ s path body, objects s path ≠ none →
    ∃ code, (exec s (.create path body)).1 = .error code
  overwrite_unserved : ∀ s request path body, request.Overwrites path body →
    servedAt served path = none → ∃ code, (exec s request).1 = .error code
  overwrite_absent : ∀ s request path body, request.Overwrites path body → objects s path = none →
    ∃ code, (exec s request).1 = .error code
  overwrite_stale : ∀ s request path body o version, request.Overwrites path body →
    objects s path = some o → body.metadata.resourceVersion = some version → version ≠ "" →
    version ≠ o.resourceVersion → ∃ code, (exec s request).1 = .error code
  version_ne : ∀ s path o, objects s path = some o → o.resourceVersion ≠ ""
  version_unique : ∀ s s' path o o', Later exec s s' → objects s path = some o →
    objects s' path = some o' → o'.resourceVersion = o.resourceVersion → o' = o
  /-- A write of the status leaves the rest of the object, up to the validation. -/
  status_written : ∀ s path body resource o answer, servedAt served path = some resource →
    resource.statusSubresource = true → objects s path = some o →
    (exec s (.replaceStatus path body)).1 = .ok answer → ∃ o',
      objects (exec s (.replaceStatus path body)).2 path = some o' ∧ answer = o'.json path ∧
      o'.uid = o.uid ∧
      resource.admitted ⟨o.content.main, body.content.status⟩ = some o'.content
  status_accepted : ∀ s path body resource o, servedAt served path = some resource →
    resource.statusSubresource = true → objects s path = some o → Names body o →
    resource.admitted ⟨o.content.main, body.content.status⟩ ≠ none →
    ∃ answer, (exec s (.replaceStatus path body)).1 = .ok answer

end Server

/-! ## The methods -/

inductive ClientExn where
  | httpOperationException (statusCode : HttpStatusCode)
  | exn (e : Exn)
  deriving DecidableEq

abbrev KubernetesApi (M S α : Type) := Prog (ApiRequest M S) (fun _ => ApiReply M S) ClientExn α

/-- A resource of the client: its metadata, and the rest of it. -/
structure Resource (T : Type) where
  metadata : V1ObjectMeta
  body : T

/-- The JSON form of the resources of a type; `ToObject` may throw or give null. -/
structure Serialization (T M S : Type) where
  type : ResourceType
  serialize : T → Content M S
  deserialize : Content M S → Except Exn (Option T)

namespace Serialization

variable {T M S : Type} (codec : Serialization T M S)

def toJObject (resource : Resource T) : JObject M S :=
  ⟨resource.metadata, codec.serialize resource.body⟩

def toObject (result : JObject M S) : Except Exn (Option (Resource T)) :=
  (codec.deserialize result.content).map fun parsed => parsed.map fun body =>
    ⟨result.metadata, body⟩

end Serialization

/-- The path of an object of a resource. -/
def resourcePath (crd : CustomEntityDefinition) (nameSpace : Option String) (name : String) :
    ResourcePath :=
  ⟨crd.group, crd.version, crd.plural,
    if isNullOrWhiteSpace nameSpace then none else nameSpace, name⟩

section Methods

variable {T M S : Type} (codec : Serialization T M S)

/-- A request that needs the definition of the resource. -/
def withDefinition {α : Type} (f : CustomEntityDefinition → KubernetesApi M S α) :
    KubernetesApi M S α :=
  match createResourceDefinition codec.type with
  | .error e => .throw (.exn e)
  | .ok crd => f crd

/-- What is made of the answer to a read. -/
def found : ApiReply M S → Except ClientExn (Option (Resource T))
  | .error .notFound => .ok none
  | .error statusCode => .error (.httpOperationException statusCode)
  | .ok result =>
    match codec.toObject result with
    | .error e => .error (.exn e)
    | .ok resource => .ok resource

def getAsync (name : String) (nameSpace : Option String) : KubernetesApi M S (Option (Resource T)) :=
  withDefinition codec fun crd =>
    .call (.get (resourcePath crd nameSpace name)) fun reply => .ofExcept (found codec reply)

/-- What is made of the answer to a write: the resource with its new version, and the resource of
the answer. -/
def written (resource : Resource T) : ApiReply M S → Except ClientExn (Resource T × Resource T)
  | .error statusCode => .error (.httpOperationException statusCode)
  | .ok result =>
    match codec.toObject result with
    | .error e => .error (.exn e)
    | .ok none => .error (.exn .argumentException)
    | .ok (some parsed) =>
      let metadata := { resource.metadata with
        resourceVersion := parsed.metadata.resourceVersion }
      .ok ({ resource with metadata }, parsed)

def createAsync (resource : Resource T) : KubernetesApi M S (Resource T × Resource T) :=
  withDefinition codec fun crd =>
    .call (.create (resourcePath crd resource.metadata.namespaceProperty resource.metadata.name)
      (codec.toJObject resource)) fun reply => .ofExcept (written codec resource reply)

def updateAsync (resource : Resource T) : KubernetesApi M S (Resource T × Resource T) :=
  withDefinition codec fun crd =>
    .call (.replace (resourcePath crd resource.metadata.namespaceProperty resource.metadata.name)
      (codec.toJObject resource)) fun reply => .ofExcept (written codec resource reply)

/-- The resource with its new version is what the caller sees. -/
def updateStatusAsync (resource : Resource T) : KubernetesApi M S (Resource T) :=
  withDefinition codec fun crd =>
    .call (.replaceStatus (resourcePath crd resource.metadata.namespaceProperty resource.metadata.name)
      (codec.toJObject resource)) fun reply =>
        .ofExcept ((written codec resource reply).map Prod.fst)

/-- What `SaveAsync` does with the resource of the server. -/
def saveFound (resource : Resource T) :
    Option (Resource T) → KubernetesApi M S (Resource T × Resource T)
  | none => createAsync codec resource
  | some serverResource =>
    let metadata := { resource.metadata with
      uid := serverResource.metadata.uid
      resourceVersion := serverResource.metadata.resourceVersion }
    updateAsync codec { resource with metadata }

def saveAsync (resource : Resource T) : KubernetesApi M S (Resource T × Resource T) := do
  let serverResource ← getAsync codec resource.metadata.name resource.metadata.namespaceProperty
  saveFound codec resource serverResource

/-- What is made of the answer to a removal. -/
def removed : ApiReply M S → Except ClientExn Unit
  | .error .notFound => .ok ()
  | .error statusCode => .error (.httpOperationException statusCode)
  | .ok _ => .ok ()

def deleteAsync (name : String) (nameSpace : Option String) : KubernetesApi M S Unit :=
  withDefinition codec fun crd =>
    .call (.delete (resourcePath crd nameSpace name)) fun reply => .ofExcept (removed reply)

end Methods

end KubernetesClient

end Sentinel
