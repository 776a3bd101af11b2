import Sentinel.DotNet.Base
import Sentinel.Lib.Atomic
import Sentinel.Lib.Keyed

/-!
# `MongoBaseRepo<T>`

Every method asks first whether the collection is there and creates it if it is not; then it sends
one command.  The programs run on a server that is not part of the repository: `MongoServer` has
what they rely on.
-/

set_option autoImplicit false

namespace Sentinel

open Commands

/-! ## The server -/

inductive MongoExn where
  | driver (message : String)
  | exn (e : Exn)
  deriving DecidableEq

section Server

variable (T Id : Type)

/-- A class of documents: the member that is the `_id`, and the fields by name. -/
structure DocumentClass where
  idOf : T → Id
  field : String → T → Option String

/-- A filter: equality with an `_id`, or any other query. -/
inductive MongoFilter where
  | id (value : Id)
  | expression (body : T → Bool)

inductive MongoCommand where
  | listCollections
  | createCollection (timeSeries : Bool)
  | insertOne (document : T)
  | find (filter : MongoFilter T Id)
  | replaceOne (filter : MongoFilter T Id) (replacement : T) (isUpsert : Bool)
  | deleteOne (filter : MongoFilter T Id)

/-- The documents matched by a replacement or a removal, and whether one was inserted. -/
structure WriteResult where
  matchedCount : ℕ
  upserted : Bool
  deriving DecidableEq

variable {T Id}

def MongoAnswer : MongoCommand T Id → Type
  | .listCollections => Bool
  | .createCollection _ => Unit
  | .insertOne _ => Unit
  | .find _ => List T
  | .replaceOne _ _ _ => WriteResult
  | .deleteOne _ => WriteResult

/-- Any command may fail. -/
abbrev MongoReply (command : MongoCommand T Id) := Except MongoExn (MongoAnswer command)

/-- A command that has been answered has had its effect.  One that has failed may have had it, when
only the answer was lost. -/
def Answered {ε α M : Type} (reply : Except ε α) (Effect : α → M → M → Prop) (before after : M) :
    Prop :=
  match reply with
  | .ok answer => Effect answer before after
  | .error _ => after = before ∨ ∃ answer, Effect answer before after

namespace DocumentClass

variable (cls : DocumentClass T Id)

def Matches : MongoFilter T Id → T → Prop
  | .id value, document => cls.idOf document = value
  | .expression body, document => body document = true

/-- A command has found no document: none has the `_id`.  Another query may pass over documents that
change while it runs. -/
def Misses : MongoFilter T Id → Multiset T → Prop
  | .id value, m => ∀ document ∈ m, cls.idOf document ≠ value
  | .expression _, _ => True

/-- What the query for an `_id` finds. -/
def Found (value : Id) (found : List T) (m m' : Multiset T) : Prop :=
  m' = m ∧ ∀ document, document ∈ found ↔ document ∈ m ∧ cls.idOf document = value

/-- A document that matches becomes the replacement and keeps its `_id`; or an upsert that finds none
inserts the replacement, if its `_id` is new. -/
def Replaced (filter : MongoFilter T Id) (replacement : T) (isUpsert : Bool) (result : WriteResult)
    (m m' : Multiset T) : Prop :=
  (∃ old rest, cls.Matches filter old ∧ cls.idOf old = cls.idOf replacement ∧ m = old ::ₘ rest ∧
      m' = replacement ::ₘ rest ∧ result = ⟨1, false⟩) ∨
    (cls.Misses filter m ∧ (∀ document ∈ m, cls.idOf document ≠ cls.idOf replacement) ∧
      m' = replacement ::ₘ m ∧ isUpsert = true ∧ result = ⟨0, true⟩) ∨
    (cls.Misses filter m ∧ m' = m ∧ isUpsert = false ∧ result = ⟨0, false⟩)

def Deleted (filter : MongoFilter T Id) (result : WriteResult) (m m' : Multiset T) : Prop :=
  (∃ old, cls.Matches filter old ∧ m = old ::ₘ m' ∧ result = ⟨1, false⟩) ∨
    (cls.Misses filter m ∧ m' = m ∧ result = ⟨0, false⟩)

end DocumentClass

namespace MongoCommand

/-- The command does not write documents. -/
def Reads : MongoCommand T Id → Prop
  | .listCollections => True
  | .createCollection _ => True
  | .find _ => True
  | _ => False

end MongoCommand

/-- A server with the collection of a repository, as it is documented: one primary, which stays the
same.  Writes of one document are atomic, and `_id`s are unique unless the collection is a time
series.  Any command may fail, with or without its effect; it has no effect later on. -/
structure MongoServer (cls : DocumentClass T Id) where
  Store : Type
  documents : Store → Multiset T
  /-- The collection is not a time series; it may not be there. -/
  Plain : Store → Prop
  exec : Store → (command : MongoCommand T Id) → MongoReply command × Store
  unique : ∀ s, Plain s → Keyed.Distinct cls.idOf (documents s)
  plain_exec : ∀ s command, Plain s → command ≠ .createCollection true → Plain (exec s command).2
  reads : ∀ s (command : MongoCommand T Id), command.Reads →
    documents (exec s command).2 = documents s
  inserts : ∀ s document, Answered (exec s (.insertOne document)).1
    (fun _ m m' => m' = document ::ₘ m) (documents s) (documents (exec s (.insertOne document)).2)
  finds : ∀ s value, Plain s → Answered (exec s (.find (.id value))).1 (cls.Found value)
    (documents s) (documents (exec s (.find (.id value))).2)
  replaces : ∀ s filter replacement isUpsert, Plain s →
    Answered (exec s (.replaceOne filter replacement isUpsert)).1
      (cls.Replaced filter replacement isUpsert) (documents s)
      (documents (exec s (.replaceOne filter replacement isUpsert)).2)
  deletes : ∀ s filter, Plain s → Answered (exec s (.deleteOne filter)).1 (cls.Deleted filter)
    (documents s) (documents (exec s (.deleteOne filter)).2)

end Server

/-! ## The class -/

abbrev Mongo (T Id α : Type) := Prog (MongoCommand T Id) MongoReply MongoExn α

/-- The class of the documents, and the names of the fields of a time series. -/
structure MongoBaseRepo (T Id : Type) where
  cls : DocumentClass T Id
  isTimeSeries : Bool
  timestampFieldName : Option String

namespace MongoBaseRepo

variable {T Id : Type} (repo : MongoBaseRepo T Id)

def collectionExistsAsync : Mongo T Id Bool := .call .listCollections .ofExcept

def createTimeSeriesCollection : Mongo T Id Unit :=
  if repo.timestampFieldName.getD "" = "" then
    .throw (.exn (.argumentNullException "timestamp"))
  else .call (.createCollection true) .ofExcept

/-- The getter `Items`. -/
def items : Mongo T Id Unit := do
  let check ← collectionExistsAsync
  if !check then
    if repo.isTimeSeries then repo.createTimeSeriesCollection
    else .call (.createCollection false) .ofExcept
  else pure ()

def find (filter : MongoFilter T Id) : Mongo T Id (List T) := do
  repo.items
  .call (.find filter) .ofExcept

def getAll : Mongo T Id (List T) := repo.find (.expression fun _ => true)

/-- `Get`: the first document, or the default. -/
def get (filter : MongoFilter T Id) : Mongo T Id (Option T) := List.head? <$> repo.find filter

/-- The filter is `Builders<T>.Filter.Eq` on the `_id`. -/
def getByIDAsync (value : Id) : Mongo T Id (Option T) := repo.get (.id value)

/-- `GetAsync`: `isMember` says whether the body of the lambda is a member access, whose member then
is not looked at. -/
def getAsync (isMember : Bool) (value : String) : Mongo T Id (Option T) :=
  if isMember then
    repo.get (.expression fun document => repo.cls.field "Name" document = some value)
  else pure none

def addAsync (item : T) : Mongo T Id Unit := do
  repo.items
  .call (.insertOne item) .ofExcept

def updateAsync (id : Id) (item : T) : Mongo T Id WriteResult := do
  repo.items
  .call (.replaceOne (.id id) item false) .ofExcept

/-- `UpdateAsync` of an item under its own id. -/
def updateItemAsync (item : T) : Mongo T Id WriteResult := repo.updateAsync (repo.cls.idOf item) item

def removeAsync : Option Id → Mongo T Id Unit
  | none => .throw (.exn (.argumentNullException "ID Field can not be Null"))
  | some id => do
    repo.items
    .call (.deleteOne (.id id)) fun reply => .ofExcept (reply.map fun _ => ())

/-- `RemoveAsync` of an item, by its id. -/
def removeItemAsync (item : T) : Mongo T Id Unit := repo.removeAsync (some (repo.cls.idOf item))

def upsert (item : T) (filter : T → Bool) : Mongo T Id WriteResult := do
  repo.items
  .call (.replaceOne (.expression filter) item true) .ofExcept

end MongoBaseRepo

end Sentinel
