import Mathlib.Data.List.AList
import Sentinel.DotNet.Base
import Sentinel.Lib.Commands

/-!
# `RedisDictionary<TValue>`

The methods are programs over the commands of one Redis hash.  The server may keep the entries of
the hash in any order and change it at every command; a field is looked up in the entries.

Commands are taken to succeed here; what the retry policy does about the others comes later.
-/

set_option autoImplicit false

namespace Sentinel

open Commands

/-! ## The hash -/

/-- The entries of a hash, in some order. -/
abbrev Entries := AList (fun _ : String => String)

/-- A server that holds one hash, as the commands' documentation describes it. -/
structure RedisServer where
  Hash : Type
  read : Hash → Entries
  set : Hash → String → String → Hash
  delete : Hash → String → Hash
  clear : Hash → Hash
  /-- What a command that only reads leaves: the same content, perhaps in another order. -/
  reorder : Hash → Hash
  lookup_set : ∀ h field value k,
    (read (set h field value)).lookup k = if k = field then some value else (read h).lookup k
  lookup_delete : ∀ h field k,
    (read (delete h field)).lookup k = if k = field then none else (read h).lookup k
  lookup_clear : ∀ h k, (read (clear h)).lookup k = none
  lookup_reorder : ∀ h k, (read (reorder h)).lookup k = (read h).lookup k

inductive HashCommand where
  | hset (field value : String)
  | hmset (entries : List (String × String))
  | hget (field : String)
  | hexists (field : String)
  | hdel (field : String)
  | hlen
  | hkeys
  | hvals
  | hgetall
  | del

def HashReply : HashCommand → Type
  | .hset _ _ => Bool
  | .hmset _ => Unit
  | .hget _ => Option String
  | .hexists _ => Bool
  | .hdel _ => Bool
  | .hlen => ℕ
  | .hkeys => List String
  | .hvals => List String
  | .hgetall => List (String × String)
  | .del => Bool

namespace RedisServer

variable (server : RedisServer)

def lookup (h : server.Hash) (field : String) : Option String := (server.read h).lookup field

def exec (h : server.Hash) : (c : HashCommand) → HashReply c × server.Hash
  | .hset field value => ((server.lookup h field).isNone, server.set h field value)
  | .hmset entries => ((), entries.foldl (fun h entry => server.set h entry.1 entry.2) h)
  | .hget field => (server.lookup h field, server.reorder h)
  | .hexists field => ((server.lookup h field).isSome, server.reorder h)
  | .hdel field => ((server.lookup h field).isSome, server.delete h field)
  | .hlen => ((server.read h).entries.length, server.reorder h)
  | .hkeys => ((server.read h).keys, server.reorder h)
  | .hvals => ((server.read h).entries.map Sigma.snd, server.reorder h)
  | .hgetall => ((server.read h).entries.map fun e => (e.1, e.2), server.reorder h)
  | .del => (!(server.read h).entries.isEmpty, server.clear h)

/-- A server that keeps the entries in the order they were last written. -/
def lastWritten : RedisServer where
  Hash := Entries
  read := id
  set := fun h field value => h.insert field value
  delete := fun h field => h.erase field
  clear := fun _ => ∅
  reorder := id
  lookup_set := by
    intro h field value k
    split
    · rename_i hk
      subst hk
      exact AList.lookup_insert h
    · rename_i hk
      exact AList.lookup_insert_ne hk
  lookup_delete := by
    intro h field k
    split
    · rename_i hk
      subst hk
      exact AList.lookup_erase k h
    · rename_i hk
      exact AList.lookup_erase_ne hk
  lookup_clear := fun _ k => AList.lookup_empty k
  lookup_reorder := fun _ _ => rfl

variable {server}

theorem mem_keys {h : server.Hash} {k : String} :
    k ∈ (server.read h).keys ↔ (server.lookup h k).isSome = true := by
  rw [← AList.mem_keys, lookup, AList.lookup_isSome]

@[simp] theorem lookup_set_eq (h : server.Hash) (field value k : String) :
    server.lookup (server.set h field value) k = if k = field then some value
      else server.lookup h k :=
  server.lookup_set h field value k

@[simp] theorem lookup_delete_eq (h : server.Hash) (field k : String) :
    server.lookup (server.delete h field) k = if k = field then none else server.lookup h k :=
  server.lookup_delete h field k

@[simp] theorem lookup_clear_eq (h : server.Hash) (k : String) :
    server.lookup (server.clear h) k = none :=
  server.lookup_clear h k

@[simp] theorem lookup_reorder_eq (h : server.Hash) (k : String) :
    server.lookup (server.reorder h) k = server.lookup h k :=
  server.lookup_reorder h k

end RedisServer

/-! ## The dictionary -/

/-- What the methods know of the value type: its JSON form, the getter of the property with the
`Key` attribute, and its default value. -/
structure RedisDictionary (V : Type) where
  serialize : V → String
  deserialize : String → Except Exn V
  keyValue : V → Option String
  default : V

abbrev Redis := Prog HashCommand HashReply Exn

/-! ### The client: one command for each method of the database -/

namespace Database

def hashSet (field value : String) : Redis Bool := .call (.hset field value) .ret

def hashSetAll (entries : List (String × String)) : Redis Unit := .call (.hmset entries) .ret

def hashGet (field : String) : Redis (Option String) := .call (.hget field) .ret

def hashExists (field : String) : Redis Bool := .call (.hexists field) .ret

def hashDelete (field : String) : Redis Bool := .call (.hdel field) .ret

def hashLength : Redis ℕ := .call .hlen .ret

def hashKeys : Redis (List String) := .call .hkeys .ret

def hashValues : Redis (List String) := .call .hvals .ret

def hashGetAll : Redis (List (String × String)) := .call .hgetall .ret

def keyDelete : Redis Bool := .call .del .ret

end Database

/-! ### The methods -/

namespace RedisDictionary

open Database

variable {V : Type} (dic : RedisDictionary V)

/-- A null field is refused before the command is sent. -/
def field : Option String → Redis String
  | none => .throw .argumentException
  | some key => .ret key

def ofExcept {α : Type} : Except Exn α → Redis α
  | .error e => .throw e
  | .ok a => .ret a

/-- `Add(key, value)`. -/
def add (key : Option String) (value : V) : Redis Unit := do
  let key ← field key
  let _ ← hashSet key (dic.serialize value)

/-- `Add(value)`. -/
def addValue (value : V) : Redis Unit := dic.add (dic.keyValue value) value

def containsKey (key : Option String) : Redis Bool := do
  let key ← field key
  hashExists key

/-- `Remove(key)`. -/
def remove (key : Option String) : Redis Bool := do
  let key ← field key
  hashDelete key

def tryGetValue (key : Option String) : Redis (Bool × V) := do
  let key ← field key
  let redisValue ← hashGet key
  match redisValue with
  | none => pure (false, dic.default)
  | some redisValue => do
    let value ← ofExcept (dic.deserialize redisValue)
    pure (true, value)

def values : Redis (List V) := do
  let redisValues ← hashValues
  ofExcept (redisValues.mapM dic.deserialize)

def keys : Redis (List String) := hashKeys

/-- The getter of the indexer. -/
def getItem (key : Option String) : Redis V := do
  let key ← field key
  let redisValue ← hashGet key
  match redisValue with
  | none => pure dic.default
  | some redisValue => ofExcept (dic.deserialize redisValue)

/-- The setter of the indexer. -/
def setItem (key : Option String) (value : V) : Redis Unit := dic.add key value

def clear : Redis Unit := do
  let _ ← keyDelete

/-- `Contains(item)` asks for the key only. -/
def contains (item : String × V) : Redis Bool := hashExists item.1

/-- `Remove(item)` removes the key whatever its value. -/
def removePair (item : String × V) : Redis Bool := remove (some item.1)

def count : Redis ℤ := do
  let length ← hashLength
  pure (toInt32 length)

/-- `CopyTo`: the array copy checks its arguments first, and then refuses to store hash entries in
an array of pairs; an empty array slot is `none`. -/
def copyTo (array : List (Option (String × V))) (arrayIndex : ℤ) :
    Redis (List (Option (String × V))) := do
  let entries ← hashGetAll
  if arrayIndex < 0 then .throw .argumentOutOfRangeException
  else if array.length < arrayIndex + entries.length then .throw .argumentException
  else .throw .arrayTypeMismatchException

/-- A round of the generic enumerator; the text of a missing value is empty. -/
def enumerateKey (hashKey : String) : Redis (String × V) := do
  let redisValue ← hashGet hashKey
  let value ← ofExcept (dic.deserialize (redisValue.getD ""))
  pure (hashKey, value)

/-- The generic enumerator, moved to its end: a command for the keys and one for each of them. -/
def getEnumerator : Redis (List (String × V)) := do
  let hashKeys ← hashKeys
  hashKeys.mapM dic.enumerateKey

/-- What a `foreach` over a non-generic enumerator is given. -/
inductive Yielded (V : Type) where
  | pair (item : String × V)
  | enumerator

/-- The non-generic enumerator yields the generic one, as its only element. -/
def getEnumeratorNonGeneric : Redis (List (Yielded V)) := pure [.enumerator]

/-- `AddMultiple` of items. -/
def addMultiple (items : List V) : Redis Unit := items.forM fun item => dic.addValue item

/-- `AddMultiple` of pairs: one command for all of them, none for an empty list. -/
def addMultiplePairs (items : List (String × V)) : Redis Unit :=
  if items.isEmpty then pure ()
  else hashSetAll (items.map fun item => (item.1, dic.serialize item.2))

/-- `Sync(items, overrideExisting)`. -/
def sync (items : List V) (overrideExisting : Bool) : Redis Unit := do
  let keys ← keys
  items.forM fun item =>
    if overrideExisting then dic.addValue item
    else if keys.any (fun p => some p == dic.keyValue item) then pure ()
    else dic.addValue item
  let keys ← RedisDictionary.keys
  keys.forM fun key =>
    if items.any (fun p => dic.keyValue p == some key) then pure ()
    else do let _ ← remove (some key)

/-- `Sync(items, keyFunc)`. -/
def syncBy (items : List V) (keyFunc : V → Option String) : Redis Unit := do
  let keys ← keys
  items.forM fun item =>
    if keys.any (fun p => some p == keyFunc item) then pure ()
    else dic.add (keyFunc item) item
  let keys ← RedisDictionary.keys
  keys.forM fun key =>
    if items.any (fun p => keyFunc p == some key) then pure ()
    else do let _ ← remove (some key)

end RedisDictionary

end Sentinel
