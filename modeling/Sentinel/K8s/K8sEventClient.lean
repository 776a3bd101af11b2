import Sentinel.DotNet.DateTime
import Sentinel.Lib.Commands

/-!
# `K8sEventClient`

The methods are programs over the requests of the API server.  The server keeps the events of all
namespaces, names being unique in each of them, and may list them in any order.  The fields that
the server fills in itself are left out.
-/

set_option autoImplicit false

namespace Sentinel

open Commands

structure V1ObjectReference where
  apiVersion : Option String
  kind : Option String
  name : Option String
  namespaceProperty : Option String
  uid : Option String
  resourceVersion : Option String
  fieldPath : Option String

structure V1ObjectMeta where
  name : String
  namespaceProperty : String
  creationTimestamp : Option DateTime

structure Corev1Event where
  metadata : V1ObjectMeta
  involvedObject : V1ObjectReference
  count : Option ℤ
  reason : Option String
  type : Option String
  message : Option String
  firstTimestamp : Option DateTime
  lastTimestamp : Option DateTime

namespace Corev1Event

/-- What identifies an event on the server: its namespace and its name. -/
def id (e : Corev1Event) : String × String := (e.metadata.namespaceProperty, e.metadata.name)

/-- The event after a patch of the event with the given identity. -/
def patched (target : String × String) (count : Option ℤ) (lastTimestamp : DateTime)
    (e : Corev1Event) : Corev1Event :=
  if e.id = target then { e with count, lastTimestamp := some lastTimestamp } else e

end Corev1Event

/-! ## The server -/

/-- An API server that keeps events, as its documentation describes it. -/
structure EventServer where
  Store : Type
  /-- The events in the order in which the next list request gives them. -/
  events : Store → List Corev1Event
  create : Store → Corev1Event → Store
  patch : Store → String × String → Option ℤ → DateTime → Store
  /-- What a request that changes nothing leaves: the same events, perhaps in another order. -/
  reread : Store → Store
  distinct : ∀ s, ((events s).map Corev1Event.id).Nodup
  events_create : ∀ s e, e.id ∉ (events s).map Corev1Event.id →
    (events (create s e)).Perm (e :: events s)
  events_patch : ∀ s target count lastTimestamp, (events (patch s target count lastTimestamp)).Perm
    ((events s).map (Corev1Event.patched target count lastTimestamp))
  events_reread : ∀ s, (events (reread s)).Perm (events s)

inductive EventRequest where
  | list (nameSpace : String)
  | create (body : Corev1Event) (nameSpace : String)
  | patch (count : Option ℤ) (lastTimestamp : DateTime) (name nameSpace : String)

def EventReply : EventRequest → Type
  | .list _ => List Corev1Event
  | .create _ _ => Except Exn Corev1Event
  | .patch _ _ _ _ => Except Exn Corev1Event

namespace EventServer

variable (server : EventServer)

def exec (s : server.Store) : (request : EventRequest) → EventReply request × server.Store
  | .list nameSpace =>
    ((server.events s).filter fun e => e.metadata.namespaceProperty == nameSpace, server.reread s)
  | .create body nameSpace =>
    if body.metadata.namespaceProperty ≠ nameSpace then
      (.error (.exception "Operation returned an invalid status code 'BadRequest'"),
        server.reread s)
    else if body.id ∈ (server.events s).map Corev1Event.id then
      (.error (.exception "Operation returned an invalid status code 'Conflict'"),
        server.reread s)
    else (.ok body, server.create s body)
  | .patch count lastTimestamp name nameSpace =>
    match (server.events s).find? fun e => e.id == (nameSpace, name) with
    | none => (.error (.exception "Operation returned an invalid status code 'NotFound'"),
        server.reread s)
    | some e => (.ok (e.patched (nameSpace, name) count lastTimestamp),
        server.patch s (nameSpace, name) count lastTimestamp)

end EventServer

/-! ## The methods -/

abbrev EventApi := Prog EventRequest EventReply Exn

namespace K8sEventClient

/-- The arguments of a call, the times it reads and the identifier it draws. -/
structure Call where
  nameSpace : String
  name : String
  uid : String
  apiVersion : String
  resourceVersion : String
  message : String
  kind : String
  reason : String
  type : String
  utcNow : ℕ → DateTime
  newGuid : String

/-- The answer of a request that may fail. -/
def answer : Except Exn Corev1Event → EventApi Corev1Event
  | .ok e => .ret e
  | .error e => .throw e

def listNamespacedEventAsync (nameSpace : String) : EventApi (List Corev1Event) :=
  .call (.list nameSpace) .ret

def createNamespacedEventAsync (body : Corev1Event) (nameSpace : String) : EventApi Corev1Event :=
  .call (.create body nameSpace) answer

def patchNamespacedEventAsync (count : Option ℤ) (lastTimestamp : DateTime)
    (name nameSpace : String) : EventApi Corev1Event :=
  .call (.patch count lastTimestamp name nameSpace) answer

def findEventAsync (nameSpace uid message : String) : EventApi (Option Corev1Event) := do
  let events ← listNamespacedEventAsync nameSpace
  pure (events.find? fun p => p.involvedObject.uid == some uid && p.message == some message)

/-- The event `CreateNewEventAsync` sends. -/
def newEvent (call : Call) : Corev1Event where
  metadata := ⟨call.name ++ call.newGuid, call.nameSpace, some (call.utcNow 3)⟩
  involvedObject := ⟨some call.apiVersion, some call.kind, some call.name, some call.nameSpace,
    some call.uid, some call.resourceVersion, some "metadata.annotations"⟩
  count := some 1
  reason := some call.reason
  type := some call.type
  message := some call.message
  firstTimestamp := some (call.utcNow 0)
  -- the time written second is the one that stays
  lastTimestamp := some (call.utcNow 2)

def createNewEventAsync (call : Call) : EventApi Corev1Event :=
  createNamespacedEventAsync (newEvent call) call.nameSpace

/-- The two branches of `CountUpOrCreateEvent`. -/
def countUpOrCreate (call : Call) : Option Corev1Event → EventApi Corev1Event
  | some v1event =>
    let newcount := v1event.count.map fun count => toInt32 (count + 1)
    patchNamespacedEventAsync newcount (call.utcNow 0) v1event.metadata.name call.nameSpace
  | none => createNewEventAsync call

def countUpOrCreateEvent (call : Call) : EventApi Corev1Event := do
  let v1event ← findEventAsync call.nameSpace call.uid call.message
  countUpOrCreate call v1event

end K8sEventClient

end Sentinel
