import Sentinel.Lib.Retry
import Sentinel.Redis.RedisMap

/-!
# The retry policy of `RedisDictionary`

The methods once more, with the policy of the constructor around the commands that the source puts
it around, against a server whose commands can time out or lose their connection before they take
effect.

* `implements_of_not_exposed` — the methods that issue every command through the policy do what
  their programs do without faults.
* `invoke_of_exposed` — the others issue their one command as if there were no policy.
* `masked_iff` — results and content are those of the run without faults iff no command of the
  others is hit.
-/

set_option autoImplicit false

namespace Sentinel.RetryPolicy

open Commands Retry RedisDictionary

/-! ## Faults and the policy -/

inductive RedisFault where
  | redisTimeoutException
  | redisConnectionException
  deriving DecidableEq

abbrev RedisExn := RedisFault ⊕ Exn

/-- The waits before the retries, in seconds. -/
def waits : List ℕ := [1, 2, 3]

/-- `Policy.Handle<RedisTimeoutException>().Or<RedisConnectionException>()`. -/
def handled : RedisExn → Bool
  | .inl .redisTimeoutException => true
  | .inl .redisConnectionException => true
  | .inr _ => false

/-- What is done to a server whose commands fail at most three times each. -/
abbrev Attempt (server : RedisServer) :=
  EStateM RedisExn (Faulty server.Hash RedisFault waits.length)

section Methods

variable {V α : Type} (dic : RedisDictionary V) (server : RedisServer)

/-- `policy.Execute`. -/
def execute (delegate : Attempt server α) : Attempt server α :=
  waitAndRetry handled waits.length delegate

/-! ## The methods -/

def add (key : Option String) (value : V) : Attempt server Unit :=
  execute server (perform server.exec (dic.add key value))

/-- `Add(value)`; the other overloads by value pass the key on likewise. -/
def addValue (value : V) : Attempt server Unit := add dic server (dic.keyValue value) value

def addAsync (key : Option String) (value : V) : Attempt server Unit := do
  let result ← execute server (task (perform server.exec (dic.add key value)))
  await result

def containsKey (key : Option String) : Attempt server Bool :=
  execute server (perform server.exec (RedisDictionary.containsKey key))

def remove (key : Option String) : Attempt server Bool :=
  execute server (perform server.exec (RedisDictionary.remove key))

def tryGetValue (key : Option String) : Attempt server (Bool × V) := do
  let redisValue ← execute server (perform server.exec (do
    let key ← field key
    Database.hashGet key))
  match redisValue with
  | none => pure (false, dic.default)
  | some redisValue => do
    let value ← perform server.exec (ofExcept (dic.deserialize redisValue))
    pure (true, value)

def values : Attempt server (List V) := execute server (perform server.exec dic.values)

def keys : Attempt server (List String) :=
  execute server (perform server.exec RedisDictionary.keys)

/-- The getter of the indexer. -/
def getItem (key : Option String) : Attempt server V := perform server.exec (dic.getItem key)

/-- The setter of the indexer. -/
def setItem (key : Option String) (value : V) : Attempt server Unit := add dic server key value

def clear : Attempt server Unit := perform server.exec RedisDictionary.clear

def count : Attempt server ℤ := perform server.exec RedisDictionary.count

/-- `AddMultiple` of items. -/
def addMultiple (items : List V) : Attempt server Unit :=
  items.forM fun item => addValue dic server item

/-- `AddMultiple` of pairs. -/
def addMultiplePairs (items : List (String × V)) : Attempt server Unit :=
  perform server.exec (dic.addMultiplePairs items)

/-- `Sync(items, overrideExisting)`. -/
def sync (items : List V) (overrideExisting : Bool) : Attempt server Unit := do
  let ks ← keys server
  items.forM fun item =>
    if overrideExisting then addValue dic server item
    else if ks.any (fun p => some p == dic.keyValue item) then pure ()
    else addValue dic server item
  let ks ← keys server
  ks.forM fun key =>
    if items.any (fun p => dic.keyValue p == some key) then pure ()
    else do let _ ← remove server (some key)

/-- `Sync(items, keyFunc)`. -/
def syncBy (items : List V) (keyFunc : V → Option String) : Attempt server Unit := do
  let ks ← keys server
  items.forM fun item =>
    if ks.any (fun p => some p == keyFunc item) then pure ()
    else add dic server (keyFunc item) item
  let ks ← keys server
  ks.forM fun key =>
    if items.any (fun p => keyFunc p == some key) then pure ()
    else do let _ ← remove server (some key)

end Methods

/-! ## Operations -/

inductive Operation (V : Type) where
  | add (key : Option String) (value : V)
  | addAsync (key : Option String) (value : V)
  | getItem (key : Option String)
  | setItem (key : Option String) (value : V)
  | remove (key : Option String)
  | containsKey (key : Option String)
  | tryGetValue (key : Option String)
  | keys
  | values
  | count
  | clear
  | addMultiple (items : List V)
  | addMultiplePairs (items : List (String × V))
  | sync (items : List V) (overrideExisting : Bool)
  | syncBy (items : List V) (keyFunc : V → Option String)

namespace Operation

variable {V : Type}

/-- The method of the operation, with the policy. -/
def invoke (dic : RedisDictionary V) (server : RedisServer) :
    Operation V → Attempt server (Answer V)
  | .add key value => (fun _ => .done) <$> RetryPolicy.add dic server key value
  | .addAsync key value => (fun _ => .done) <$> RetryPolicy.addAsync dic server key value
  | .getItem key => .value <$> RetryPolicy.getItem dic server key
  | .setItem key value => (fun _ => .done) <$> RetryPolicy.setItem dic server key value
  | .remove key => .bool <$> RetryPolicy.remove server key
  | .containsKey key => .bool <$> RetryPolicy.containsKey server key
  | .tryGetValue key => (fun r => .found r.1 r.2) <$> RetryPolicy.tryGetValue dic server key
  | .keys => .keys <$> RetryPolicy.keys server
  | .values => .values <$> RetryPolicy.values dic server
  | .count => .count <$> RetryPolicy.count server
  | .clear => (fun _ => .done) <$> RetryPolicy.clear server
  | .addMultiple items => (fun _ => .done) <$> RetryPolicy.addMultiple dic server items
  | .addMultiplePairs items => (fun _ => .done) <$> RetryPolicy.addMultiplePairs dic server items
  | .sync items overrideExisting =>
    (fun _ => .done) <$> RetryPolicy.sync dic server items overrideExisting
  | .syncBy items keyFunc => (fun _ => .done) <$> RetryPolicy.syncBy dic server items keyFunc

/-- The method without the policy. -/
def program (dic : RedisDictionary V) : Operation V → Redis (Answer V)
  | .add key value => (fun _ => .done) <$> dic.add key value
  | .addAsync key value => (fun _ => .done) <$> dic.add key value
  | .getItem key => .value <$> dic.getItem key
  | .setItem key value => (fun _ => .done) <$> dic.setItem key value
  | .remove key => .bool <$> RedisDictionary.remove key
  | .containsKey key => .bool <$> RedisDictionary.containsKey key
  | .tryGetValue key => (fun r => .found r.1 r.2) <$> dic.tryGetValue key
  | .keys => .keys <$> RedisDictionary.keys
  | .values => .values <$> dic.values
  | .count => .count <$> RedisDictionary.count
  | .clear => (fun _ => .done) <$> RedisDictionary.clear
  | .addMultiple items => (fun _ => .done) <$> dic.addMultiple items
  | .addMultiplePairs items => (fun _ => .done) <$> dic.addMultiplePairs items
  | .sync items overrideExisting => (fun _ => .done) <$> dic.sync items overrideExisting
  | .syncBy items keyFunc => (fun _ => .done) <$> dic.syncBy items keyFunc

/-- A command is sent outside the policy, or from an asynchronous delegate. -/
def exposed : Operation V → Bool
  | .addAsync key _ => key.isSome
  | .getItem key => key.isSome
  | .count => true
  | .clear => true
  | .addMultiplePairs items => !items.isEmpty
  | _ => false

end Operation

/-! ## Commands through the policy -/

section Through

variable {V α : Type} {dic : RedisDictionary V} {server : RedisServer}

theorem implements_execute {p : Redis α} (h : Single p) :
    Implements server.exec (execute server (perform server.exec p)) p :=
  implements_waitAndRetry (fun fault => by cases fault <;> rfl) (fun _ => rfl) h

theorem single_field {key : Option String} {f : String → Redis α} (h : ∀ key, Single (f key)) :
    Single (field key >>= f) := by
  cases key with
  | none => trivial
  | some key => exact h key

theorem implements_add (key : Option String) (value : V) :
    Implements server.exec (add dic server key value) (dic.add key value) :=
  implements_execute (single_field fun _ _ => trivial)

theorem implements_remove (key : Option String) :
    Implements server.exec (remove server key) (RedisDictionary.remove key) :=
  implements_execute (single_field fun _ _ => trivial)

theorem implements_containsKey (key : Option String) :
    Implements server.exec (containsKey server key) (RedisDictionary.containsKey key) :=
  implements_execute (single_field fun _ _ => trivial)

theorem implements_keys : Implements server.exec (keys server) RedisDictionary.keys :=
  implements_execute fun _ => trivial

theorem finished_ofExcept (result : Except Exn α) : (ofExcept result).Finished := by
  cases result <;> trivial

theorem implements_values : Implements server.exec (values dic server) dic.values :=
  implements_execute fun _ => finished_ofExcept _

theorem implements_tryGetValue (key : Option String) :
    Implements server.exec (tryGetValue dic server key) (dic.tryGetValue key) := by
  have hget : Single (do let key ← field key; Database.hashGet key) :=
    single_field fun _ _ => trivial
  unfold tryGetValue RedisDictionary.tryGetValue
  rw [← bind_assoc]
  refine ImplementsOn.bind (implements_execute hget) fun redisValue => ?_
  cases redisValue with
  | none => exact implements_pure _
  | some redisValue =>
    exact ImplementsOn.bind (fun w _ => perform_finished (finished_ofExcept _) w)
      fun _ => implements_pure _

theorem implements_addMultiple (items : List V) :
    Implements server.exec (addMultiple dic server items) (dic.addMultiple items) :=
  Implements.forM fun _ _ => implements_add _ _

theorem implements_discard {m : Attempt server α} {p : Redis α}
    (h : Implements server.exec m p) :
    Implements server.exec (do let _ ← m) (do let _ ← p) :=
  ImplementsOn.bind h fun _ => implements_pure _

theorem implements_ite {c : Prop} [Decidable c] {m m' : Attempt server α} {p p' : Redis α}
    (h : Implements server.exec m p) (h' : Implements server.exec m' p') :
    Implements server.exec (if c then m else m') (if c then p else p') := by
  split
  · exact h
  · exact h'

theorem implements_sync (items : List V) (overrideExisting : Bool) :
    Implements server.exec (sync dic server items overrideExisting)
      (dic.sync items overrideExisting) := by
  refine ImplementsOn.bind implements_keys fun _ => ImplementsOn.bind ?_ fun _ =>
    ImplementsOn.bind implements_keys fun _ => ?_
  · exact Implements.forM fun item _ => implements_ite (implements_add _ _)
      (implements_ite (implements_pure ()) (implements_add _ _))
  · exact Implements.forM fun key _ => implements_ite (implements_pure ())
      (implements_discard (implements_remove _))

theorem implements_syncBy (items : List V) (keyFunc : V → Option String) :
    Implements server.exec (syncBy dic server items keyFunc) (dic.syncBy items keyFunc) := by
  refine ImplementsOn.bind implements_keys fun _ => ImplementsOn.bind ?_ fun _ =>
    ImplementsOn.bind implements_keys fun _ => ?_
  · exact Implements.forM fun item _ => implements_ite (implements_pure ()) (implements_add _ _)
  · exact Implements.forM fun key _ => implements_ite (implements_pure ())
      (implements_discard (implements_remove _))

/-- The policy never sees what the asynchronous delegate throws. -/
theorem addAsync_eq (key : Option String) (value : V) :
    addAsync dic server key value = perform server.exec (dic.add key value) :=
  await_waitAndRetry_task handled waits.length (perform server.exec (dic.add key value))

end Through

/-! ## Operations, one by one -/

section OneOperation

variable {V : Type} {dic : RedisDictionary V} {server : RedisServer} {op : Operation V}

/-- **Operations outside the policy**: one command, and nothing done about its faults. -/
theorem invoke_of_exposed (dic : RedisDictionary V) (server : RedisServer)
    (h : op.exposed = true) :
    op.invoke dic server = perform server.exec (op.program dic) ∧ Single (op.program dic) ∧
      ¬ (op.program dic).Finished := by
  cases op with
  | addAsync key value =>
    obtain ⟨key, rfl⟩ := Option.isSome_iff_exists.1 h
    refine ⟨?_, fun _ => trivial, id⟩
    rw [Operation.invoke, addAsync_eq, Operation.program, perform_map]
  | getItem key =>
    obtain ⟨key, rfl⟩ := Option.isSome_iff_exists.1 h
    refine ⟨(perform_map _ _).symm, fun redisValue => ?_, id⟩
    cases redisValue with
    | none => trivial
    | some redisValue => exact finished_map _ (finished_ofExcept _)
  | count => exact ⟨(perform_map _ _).symm, fun _ => trivial, id⟩
  | clear => exact ⟨(perform_map _ _).symm, fun _ => trivial, id⟩
  | addMultiplePairs items =>
    have hitems : items.isEmpty = false := by simpa [Operation.exposed] using h
    refine ⟨(perform_map _ _).symm, ?_⟩
    rw [Operation.program, RedisDictionary.addMultiplePairs, hitems]
    exact ⟨fun _ => trivial, id⟩
  | _ => cases h

/-- **Operations through the policy** do what their programs do without faults. -/
theorem implements_of_not_exposed (h : op.exposed = false) :
    Implements server.exec (op.invoke dic server) (op.program dic) := by
  cases op with
  | add key value => exact (implements_add key value).map _
  | addAsync key value =>
    cases key with
    | none => exact fun _ _ => rfl
    | some key => cases h
  | getItem key =>
    cases key with
    | none => exact fun _ _ => rfl
    | some key => cases h
  | setItem key value => exact (implements_add key value).map _
  | remove key => exact (implements_remove key).map _
  | containsKey key => exact (implements_containsKey key).map _
  | tryGetValue key => exact (implements_tryGetValue key).map _
  | keys => exact implements_keys.map _
  | values => exact implements_values.map _
  | count => cases h
  | clear => cases h
  | addMultiple items => exact (implements_addMultiple items).map _
  | addMultiplePairs items =>
    cases items with
    | nil => exact fun _ _ => rfl
    | cons item items => cases h
  | sync items overrideExisting => exact (implements_sync items overrideExisting).map _
  | syncBy items keyFunc => exact (implements_syncBy items keyFunc).map _

theorem outcome_invoke {h : server.Hash} {placement : Placement RedisFault waits.length}
    (hplacement : op.exposed = true → placement.faults 0 = []) :
    outcome (op.invoke dic server ⟨h, placement⟩) = lift (run server.exec (op.program dic) h) := by
  cases hexposed : op.exposed with
  | false => exact implements_of_not_exposed hexposed _ trivial
  | true =>
    obtain ⟨hinvoke, hsingle, -⟩ := invoke_of_exposed dic server hexposed
    rw [hinvoke]
    exact perform_clean hsingle ⟨h, placement⟩ (hplacement hexposed)

theorem outcome_invoke_fault {h : server.Hash} {placement : Placement RedisFault waits.length}
    {fault : RedisFault} {others : List RedisFault} (hexposed : op.exposed = true)
    (hplacement : placement.faults 0 = fault :: others) :
    outcome (op.invoke dic server ⟨h, placement⟩) = (.error (.inl fault), h) := by
  obtain ⟨hinvoke, -, hcommand⟩ := invoke_of_exposed dic server hexposed
  rw [hinvoke, perform_fault hcommand hplacement]
  rfl

end OneOperation

/-! ## Sequences of operations -/

section Sequences

variable {V : Type} (dic : RedisDictionary V) (server : RedisServer)

/-- Operations one after the other, each with the faults that hit its commands. -/
def runCalls : List (Operation V × Placement RedisFault waits.length) → server.Hash →
    List (Except RedisExn (Answer V)) × server.Hash
  | [], h => ([], h)
  | (op, placement) :: calls, h =>
    let first := outcome (op.invoke dic server ⟨h, placement⟩)
    let others := runCalls calls first.2
    (first.1 :: others.1, others.2)

/-- The programs of the operations, on a server without faults. -/
def runPrograms : List (Operation V) → server.Hash →
    List (Except RedisExn (Answer V)) × server.Hash
  | [], h => ([], h)
  | op :: ops, h =>
    let first := lift (run server.exec (op.program dic) h)
    let others := runPrograms ops first.2
    (first.1 :: others.1, others.2)

/-- The same operations without failures. -/
def withoutFaults (calls : List (Operation V × Placement RedisFault waits.length)) :
    List (Operation V × Placement RedisFault waits.length) :=
  calls.map fun call => (call.1, .none)

/-- The failures are masked: results and content are those of the run without them. -/
def Masked (calls : List (Operation V × Placement RedisFault waits.length)) (h : server.Hash) :
    Prop :=
  (runCalls dic server calls h).1 = (runCalls dic server (withoutFaults calls) h).1 ∧
    ∀ key, server.lookup (runCalls dic server calls h).2 key =
      server.lookup (runCalls dic server (withoutFaults calls) h).2 key

/-- No command that the policy does not cover is hit. -/
def Spared (calls : List (Operation V × Placement RedisFault waits.length)) : Prop :=
  ∀ call ∈ calls, call.1.exposed = true → call.2.faults 0 = []

variable {dic server}

theorem runCalls_of_spared {calls : List (Operation V × Placement RedisFault waits.length)}
    (hspared : Spared calls) (h : server.Hash) :
    runCalls dic server calls h = runPrograms dic server (calls.map Prod.fst) h := by
  induction calls generalizing h with
  | nil => rfl
  | cons call calls ih =>
    obtain ⟨hcall, hcalls⟩ := List.forall_mem_cons.1 hspared
    rw [List.map_cons, runCalls, runPrograms, outcome_invoke hcall, ih hcalls]

theorem spared_withoutFaults (calls : List (Operation V × Placement RedisFault waits.length)) :
    Spared (withoutFaults calls) := by
  intro call hcall _
  obtain ⟨_, -, rfl⟩ := List.mem_map.1 hcall
  rfl

theorem runCalls_withoutFaults
    (calls : List (Operation V × Placement RedisFault waits.length)) (h : server.Hash) :
    runCalls dic server (withoutFaults calls) h =
      runPrograms dic server (calls.map Prod.fst) h := by
  rw [runCalls_of_spared (spared_withoutFaults calls), withoutFaults, List.map_map]
  rfl

/-- A program never ends in a fault. -/
theorem lift_ne_fault {α S : Type} {r : Except Exn α × S} {fault : RedisFault} :
    (lift r).1 ≠ .error (.inl fault) := by
  obtain ⟨result, s⟩ := r
  cases result with
  | ok a => exact fun h => by cases h
  | error e => exact fun h => by cases h

theorem spared_of_results {calls : List (Operation V × Placement RedisFault waits.length)}
    {h : server.Hash} (hresults : (runCalls dic server calls h).1 =
      (runPrograms dic server (calls.map Prod.fst) h).1) : Spared calls := by
  induction calls generalizing h with
  | nil => exact fun call hcall => absurd hcall List.not_mem_nil
  | cons call calls ih =>
    rw [List.map_cons, runCalls, runPrograms] at hresults
    obtain ⟨hfirst, hothers⟩ := List.cons.inj hresults
    have hcall : call.1.exposed = true → call.2.faults 0 = [] := by
      intro hexposed
      by_contra hfaults
      obtain ⟨fault, others, hplacement⟩ := List.exists_cons_of_ne_nil hfaults
      rw [outcome_invoke_fault hexposed hplacement] at hfirst
      exact lift_ne_fault hfirst.symm
    rw [outcome_invoke hcall] at hothers
    exact List.forall_mem_cons.2 ⟨hcall, ih hothers⟩

/-- **Transient faults are masked** iff none hits a command that the policy does not cover. -/
theorem masked_iff (dic : RedisDictionary V) (server : RedisServer)
    (calls : List (Operation V × Placement RedisFault waits.length)) (h : server.Hash) :
    Masked dic server calls h ↔
      ∀ call ∈ calls, call.1.exposed = true → call.2.faults 0 = [] := by
  change _ ↔ Spared calls
  unfold Masked
  rw [runCalls_withoutFaults]
  constructor
  · exact fun hmasked => spared_of_results hmasked.1
  · intro hspared
    rw [runCalls_of_spared hspared]
    exact ⟨rfl, fun _ => rfl⟩

/-- One timeout of the first command. -/
def oneTimeout : Placement RedisFault waits.length where
  faults := fun n => if n = 0 then [.redisTimeoutException] else []
  atMost := by
    intro n
    split <;> decide

theorem not_masked_of_exposed {op : Operation V} (hexposed : op.exposed = true)
    (h : server.Hash) : ¬ Masked dic server [(op, oneTimeout)] h := by
  intro hmasked
  have hresults := hmasked.1
  rw [runCalls_withoutFaults] at hresults
  cases spared_of_results hresults _ List.mem_cons_self hexposed

/-- `AddAsync`, the indexer, `Count`, `Clear` and `AddMultiple` of pairs, each hit once. -/
theorem not_masked_oneTimeout :
    ¬ Masked parity .lastWritten [(.addAsync (some "even") 0, oneTimeout)] (∅ : Entries) ∧
      ¬ Masked parity .lastWritten [(.getItem (some "even"), oneTimeout)] (∅ : Entries) ∧
      ¬ Masked parity .lastWritten [(.count, oneTimeout)] (∅ : Entries) ∧
      ¬ Masked parity .lastWritten [(.clear, oneTimeout)] (∅ : Entries) ∧
      ¬ Masked parity .lastWritten [(.addMultiplePairs [("even", 0)], oneTimeout)]
        (∅ : Entries) :=
  ⟨not_masked_of_exposed rfl _, not_masked_of_exposed rfl _, not_masked_of_exposed rfl _,
    not_masked_of_exposed rfl _, not_masked_of_exposed rfl _⟩

end Sequences

end Sentinel.RetryPolicy
