import Sentinel.Mongo.MemoryServer

/-!
# Interleaved calls of `MongoBaseRepo<T>`

Every method first asks for the collection and may create it; what it does to the documents is one
command.  Seen as a map from the `_id`s to the documents, a repository is an atomic keyed store, in
which a call that fails does nothing or what it would have done.

* `update_of_replaced`, `update_of_deleted` — the effects of the commands on the map.
* `atomic_items` — a method of one command is atomic.
* `repo_serialized` — any interleaving of calls is equivalent to a serial execution on the map.
-/

set_option autoImplicit false

namespace Sentinel

open Commands Keyed

section Answers

variable {ε α β M N : Type} {reply : Except ε α} {Effect : α → M → M → Prop}
  {Effect' : β → N → N → Prop} {before after : M}

theorem Answered.map {f : α → β} {g : M → N} (h : Answered reply Effect before after)
    (heffect : ∀ a, Effect a before after → Effect' (f a) (g before) (g after)) :
    Answered (reply.map f) Effect' (g before) (g after) := by
  cases reply with
  | ok a => exact heffect a h
  | error e => exact h.imp (congrArg g) fun ⟨a, ha⟩ => ⟨f a, heffect a ha⟩

end Answers

namespace MongoBaseRepo

variable {T Id : Type} {cls : DocumentClass T Id} {m m' : Multiset T} {id : Id} {item : T}
  {filter : MongoFilter T Id}

/-! ## The map of a collection -/

/-- The documents by their `_id`s. -/
abbrev View (T Id : Type) := Id → Option T

noncomputable def view (server : MongoServer cls) (s : server.Store) : View T Id :=
  lookup cls.idOf (server.documents s)

/-- What the calls rely on: nobody makes the collection a time series. -/
def Keeps (server : MongoServer cls) (s s' : server.Store) : Prop :=
  server.Plain s → server.Plain s'

variable {server : MongoServer cls} {s : server.Store}

theorem map_items {repo : MongoBaseRepo T Id} {α β : Type} {command : MongoCommand T Id}
    {next : MongoReply command → Mongo T Id α} (f : α → β) :
    f <$> (do repo.items; Prog.call command next : Mongo T Id α) =
      (do repo.items; .call command fun reply => f <$> next reply) := by
  rw [map_bind]
  rfl

theorem view_reads (server : MongoServer cls) (s : server.Store) (command : MongoCommand T Id)
    (h : command.Reads) : view server (server.exec s command).2 = view server s := by
  unfold view
  rw [server.reads s command h]

/-- The query for an `_id` finds what the map has. -/
theorem head_of_found (hm : Distinct cls.idOf m) {found : List T}
    (h : cls.Found id found m m') : found.head? = lookup cls.idOf m id := by
  cases found with
  | nil =>
    refine (lookup_eq_none.2 fun t ht hid => ?_).symm
    exact List.not_mem_nil ((h.2 t).2 ⟨ht, hid⟩)
  | cons t found => exact ((lookup_eq_some hm).2 ((h.2 t).1 List.mem_cons_self)).symm

/-! ## Methods of one command -/

variable {repo : MongoBaseRepo T Id} {α : Type} {server : MongoServer repo.cls} {s : server.Store}

/-- **A method of one command** takes effect at that command, if its failure to ask for the
collection or to create it changes nothing. -/
theorem atomic_items {command : MongoCommand T Id} {next : MongoReply command → Mongo T Id α}
    {spec : View T Id → Except MongoExn α → View T Id → Prop} (hrepo : repo.isTimeSeries = false)
    (herror : ∀ m e, spec m (.error e) m)
    (hlast : ∀ reply, ∃ result, (next reply).result = some result)
    (hspec : ∀ s result, server.Plain s → (next (server.exec s command).1).result = some result →
      spec (view server s) result (view server (server.exec s command).2)) (hs : server.Plain s) :
    Atomic server.exec (view server) (Keeps server) spec (do repo.items; .call command next) s := by
  have hcommand : ∀ s, server.Plain s →
      Atomic server.exec (view server) (Keeps server) spec (.call command next) s := by
    refine fun s hs => Atomic.call fun s' hkeeps => Or.inl ?_
    obtain ⟨result, hresult⟩ := hlast (server.exec s' command).1
    exact ⟨result, hresult, hspec s' result (hkeeps hs) hresult⟩
  refine Atomic.call fun s₁ hkeeps₁ => ?_
  have hplain := server.plain_exec s₁ .listCollections (hkeeps₁ hs) nofun
  have hview := view_reads server s₁ .listCollections trivial
  cases (server.exec s₁ .listCollections).1 with
  | error e =>
    refine Or.inl ⟨.error e, rfl, ?_⟩
    rw [hview]
    exact herror _ e
  | ok check =>
    refine Or.inr ⟨hview, ?_⟩
    show ((if (!check) = true then _ else _) >>= fun _ => _ : Mongo T Id α).result = none ∧
      Atomic server.exec (view server) (Keeps server) spec
        ((if (!check) = true then _ else _) >>= fun _ => _) _
    rw [hrepo]
    cases check with
    | true => exact ⟨rfl, hcommand _ hplain⟩
    | false =>
      refine ⟨rfl, Atomic.call fun s₂ hkeeps₂ => ?_⟩
      have hplain₂ := server.plain_exec s₂ (.createCollection false) (hkeeps₂ hplain) nofun
      have hview₂ := view_reads server s₂ (.createCollection false) trivial
      cases (server.exec s₂ (.createCollection false)).1 with
      | error e =>
        refine Or.inl ⟨.error e, rfl, ?_⟩
        rw [hview₂]
        exact herror _ e
      | ok u => exact Or.inr ⟨hview₂, rfl, hcommand _ hplain₂⟩

/-- A method of one command does not make the collection a time series, unless that command does. -/
theorem within_items {command : MongoCommand T Id} {next : MongoReply command → Mongo T Id α}
    {β : Type} {f : α → β} {g : MongoAnswer command → β} (server : MongoServer repo.cls)
    (hrepo : repo.isTimeSeries = false) (hcommand : command ≠ .createCollection true)
    (hlast : ∀ reply, (f <$> next reply).result = some (reply.map g)) :
    Within server.exec (Keeps server) (f <$> (do repo.items; .call command next : Mongo T Id α)) := by
  have hkeeps : ∀ {command : MongoCommand T Id}, command ≠ .createCollection true →
      ∀ s, Keeps server s (server.exec s command).2 :=
    fun hcommand s hs => server.plain_exec s _ hs hcommand
  rw [map_items]
  refine ⟨hkeeps nofun, fun reply => ?_⟩
  cases reply with
  | error e => trivial
  | ok check =>
    show Within _ _ ((if (!check) = true then _ else _) >>= fun _ => _)
    rw [hrepo]
    cases check with
    | true => exact ⟨hkeeps hcommand, fun reply => Within.of_result (hlast reply)⟩
    | false =>
      refine ⟨hkeeps nofun, fun reply => ?_⟩
      cases reply with
      | error e => trivial
      | ok u => exact ⟨hkeeps hcommand, fun reply => Within.of_result (hlast reply)⟩

/-! ## The calls -/

inductive RepoCall (T Id : Type) where
  | getAll
  | find (filter : MongoFilter T Id)
  | getByID (value : Id)
  | getAs (isMember : Bool) (value : String)
  | add (item : T)
  | update (id : Id) (item : T)
  | updateItem (item : T)
  | remove (id : Option Id)
  | removeItem (item : T)
  | upsert (item : T) (filter : T → Bool)

/-- What a call returns: documents, a document or null, the result of a write, or nothing. -/
inductive Answer (T : Type) where
  | documents (found : List T)
  | document (found : Option T)
  | written (result : WriteResult)
  | done

namespace RepoCall

def program (repo : MongoBaseRepo T Id) : RepoCall T Id → Mongo T Id (Answer T)
  | .getAll => .documents <$> repo.getAll
  | .find filter => .documents <$> repo.find filter
  | .getByID value => .document <$> repo.getByIDAsync value
  | .getAs isMember value => .document <$> repo.getAsync isMember value
  | .add item => (fun _ => .done) <$> repo.addAsync item
  | .update id item => .written <$> repo.updateAsync id item
  | .updateItem item => .written <$> repo.updateItemAsync item
  | .remove id => (fun _ => .done) <$> repo.removeAsync id
  | .removeItem item => (fun _ => .done) <$> repo.removeItemAsync item
  | .upsert item filter => .written <$> repo.upsert item filter

end RepoCall

theorem result_of_reply {β : Type} (f : α → β) (reply : Except MongoExn α) :
    (f <$> (.ofExcept reply : Mongo T Id α)).result = some (reply.map f) := by
  rw [Prog.result_map, Prog.result_ofExcept]
  rfl

theorem result_of_deleteOne (reply : Except MongoExn WriteResult) :
    ((fun _ => Answer.done) <$> (.ofExcept (reply.map fun _ => ()) : Mongo T Id Unit)).result =
      some (reply.map fun _ => (Answer.done : Answer T)) := by
  cases reply with
  | ok result => rfl
  | error e => rfl

/-! ## What the calls do -/

variable [DecidableEq Id]

/-- A replacement by `_id` that is no upsert. -/
theorem update_of_replaced (hm : Distinct cls.idOf m) {result : WriteResult}
    (h : cls.Replaced (.id id) item false result m m') :
    (lookup cls.idOf m id ≠ none ∧ cls.idOf item = id ∧ result = ⟨1, false⟩ ∧
        lookup cls.idOf m' = Function.update (lookup cls.idOf m) id (some item)) ∨
      (lookup cls.idOf m id = none ∧ result = ⟨0, false⟩ ∧ m' = m) := by
  rcases h with ⟨old, rest, hmatches, hid, rfl, rfl, hresult⟩ | ⟨-, -, -, hfalse, -⟩ |
    ⟨hmisses, hsame, -, hresult⟩
  · obtain rfl : cls.idOf old = id := hmatches
    have hold := (lookup_eq_some hm).2 ⟨Multiset.mem_cons_self old rest, rfl⟩
    refine Or.inl ⟨?_, hid.symm, hresult, ?_⟩
    · rw [hold]
      exact Option.some_ne_none old
    · rw [hid]
      exact lookup_exchange hm hid
  · cases hfalse
  · exact Or.inr ⟨lookup_eq_none.2 hmisses, hresult, hsame⟩

theorem update_of_deleted (hm : Distinct cls.idOf m) {result : WriteResult}
    (h : cls.Deleted (.id id) result m m') :
    lookup cls.idOf m' = Function.update (lookup cls.idOf m) id none := by
  rcases h with ⟨old, hmatches, rfl, -⟩ | ⟨hmisses, rfl, -⟩
  · obtain rfl : cls.idOf old = id := hmatches
    exact lookup_of_cons hm
  · rw [← lookup_eq_none.2 hmisses, Function.update_eq_self]

/-- A replacement of the document with an `_id`, if there is one. -/
def Updates (cls : DocumentClass T Id) (id : Id) (item : T) (answer : Answer T)
    (m m' : View T Id) : Prop :=
  (m id ≠ none ∧ cls.idOf item = id ∧ answer = .written ⟨1, false⟩ ∧
      m' = Function.update m id (some item)) ∨
    (m id = none ∧ answer = .written ⟨0, false⟩ ∧ m' = m)

/-- What a call that returns does to the map.  The queries that are not for an `_id` may see documents
at different moments, so nothing is said of their answers. -/
def Effect (cls : DocumentClass T Id) : RepoCall T Id → Answer T → View T Id → View T Id → Prop
  | .getAll, _, m, m' => m' = m
  | .find _, _, m, m' => m' = m
  | .getByID value, answer, m, m' => m' = m ∧ answer = .document (m value)
  | .getAs _ _, _, m, m' => m' = m
  | .add item, answer, m, m' => m (cls.idOf item) = none ∧ answer = .done ∧
      m' = Function.update m (cls.idOf item) (some item)
  | .update id item, answer, m, m' => Updates cls id item answer m m'
  | .updateItem item, answer, m, m' => Updates cls (cls.idOf item) item answer m m'
  | .remove none, _, _, _ => False
  | .remove (some id), answer, m, m' => answer = .done ∧ m' = Function.update m id none
  | .removeItem item, answer, m, m' =>
    answer = .done ∧ m' = Function.update m (cls.idOf item) none
  | .upsert item filter, answer, m, m' =>
    ((∃ old, m (cls.idOf item) = some old ∧ filter old = true ∧ answer = .written ⟨1, false⟩) ∨
        (m (cls.idOf item) = none ∧ answer = .written ⟨0, true⟩)) ∧
      m' = Function.update m (cls.idOf item) (some item)

/-- What a call does to the map: one that fails does nothing, or what it would have done. -/
def Does (cls : DocumentClass T Id) (call : RepoCall T Id) (m : View T Id)
    (result : Except MongoExn (Answer T)) (m' : View T Id) : Prop :=
  Answered result (Effect cls call) m m'

/-- A call that ends with what the server answers to its command, as `g` has it. -/
theorem atomic_of_reply {call : RepoCall T Id} {command : MongoCommand T Id}
    {next : MongoReply command → Mongo T Id α} {f : α → Answer T} {g : MongoAnswer command → Answer T}
    (hrepo : repo.isTimeSeries = false)
    (hlast : ∀ reply, (f <$> next reply).result = some (reply.map g))
    (hdoes : ∀ s, server.Plain s → Does repo.cls call (view server s)
      ((server.exec s command).1.map g) (view server (server.exec s command).2))
    (hs : server.Plain s) :
    Atomic server.exec (view server) (Keeps server) (Does repo.cls call)
      (f <$> (do repo.items; Prog.call command next : Mongo T Id α)) s := by
  rw [map_items]
  refine atomic_items hrepo (fun _ _ => Or.inl rfl) (fun reply => ⟨_, hlast reply⟩)
    (fun s result hplain hresult => ?_) hs
  obtain rfl := Option.some.inj ((hlast _).symm.trans hresult)
  exact hdoes s hplain

/-- A query, whose answer is given as `f` has it. -/
theorem atomic_of_find {call : RepoCall T Id} {f : List T → Answer T}
    (hrepo : repo.isTimeSeries = false)
    (heffect : ∀ s found, server.Plain s → (server.exec s (.find filter)).1 = .ok found →
      Effect repo.cls call (f found) (view server s) (view server s)) (hs : server.Plain s) :
    Atomic server.exec (view server) (Keeps server) (Does repo.cls call) (f <$> repo.find filter)
      s := by
  refine atomic_of_reply hrepo (fun reply => result_of_reply f reply) (fun s hplain => ?_) hs
  have hsame := view_reads server s (.find filter) trivial
  cases hreply : (server.exec s (.find filter)).1 with
  | error e => exact Or.inl hsame
  | ok found =>
    show Effect repo.cls call (f found) (view server s) (view server (server.exec s _).2)
    rw [hsame]
    exact heffect s found hplain hreply

theorem does_getByID (hplain : server.Plain s) {found : List T} (value : Id)
    (hreply : (server.exec s (.find (.id value))).1 = .ok found) :
    Effect repo.cls (.getByID value) (.document found.head?) (view server s) (view server s) := by
  have hfinds := server.finds s value hplain
  rw [hreply] at hfinds
  exact ⟨rfl, congrArg Answer.document (head_of_found (server.unique s hplain) hfinds)⟩

theorem does_add (hplain : server.Plain s) (item : T) : Does repo.cls (.add item) (view server s)
    ((server.exec s (.insertOne item)).1.map fun _ => .done)
    (view server (server.exec s (.insertOne item)).2) := by
  refine (server.inserts s item).map fun _ hinserted => ?_
  have hdistinct := server.unique _ (server.plain_exec s (.insertOne item) hplain nofun)
  rw [hinserted] at hdistinct ⊢
  exact ⟨lookup_eq_none.2 (distinct_cons.1 hdistinct).1, rfl, lookup_cons hdistinct⟩

theorem does_update (hplain : server.Plain s) (id : Id) (item : T) :
    Does repo.cls (.update id item) (view server s)
      ((server.exec s (.replaceOne (.id id) item false)).1.map .written)
      (view server (server.exec s (.replaceOne (.id id) item false)).2) := by
  refine (server.replaces s (.id id) item false hplain).map fun result hreplaced => ?_
  rcases update_of_replaced (server.unique s hplain) hreplaced with
    ⟨hthere, hid, rfl, hupdate⟩ | ⟨hnone, rfl, hsame⟩
  · exact Or.inl ⟨hthere, hid, rfl, hupdate⟩
  · exact Or.inr ⟨hnone, rfl, congrArg _ hsame⟩

theorem does_remove (hplain : server.Plain s) (id : Id) :
    Does repo.cls (.remove (some id)) (view server s)
      ((server.exec s (.deleteOne (.id id))).1.map fun _ => .done)
      (view server (server.exec s (.deleteOne (.id id))).2) :=
  (server.deletes s (.id id) hplain).map fun _ hdeleted =>
    ⟨rfl, update_of_deleted (server.unique s hplain) hdeleted⟩

theorem does_upsert (hplain : server.Plain s) (item : T) (filter : T → Bool) :
    Does repo.cls (.upsert item filter) (view server s)
      ((server.exec s (.replaceOne (.expression filter) item true)).1.map .written)
      (view server (server.exec s (.replaceOne (.expression filter) item true)).2) := by
  have hdistinct := server.unique s hplain
  refine (server.replaces s (.expression filter) item true hplain).map fun result hreplaced => ?_
  rcases hreplaced with ⟨old, rest, hmatches, hid, hbefore, hafter, rfl⟩ |
    ⟨-, hnew, hafter, -, rfl⟩ | ⟨-, -, hfalse, -⟩
  · rw [hbefore] at hdistinct ⊢
    rw [hafter]
    refine ⟨Or.inl ⟨old, ?_, hmatches, rfl⟩, lookup_exchange hdistinct hid⟩
    exact (lookup_eq_some hdistinct).2 ⟨Multiset.mem_cons_self old rest, hid⟩
  · rw [hafter]
    refine ⟨Or.inr ⟨lookup_eq_none.2 hnew, rfl⟩, lookup_cons ?_⟩
    exact distinct_cons.2 ⟨hnew, hdistinct⟩
  · cases hfalse

theorem call_atomic (hrepo : repo.isTimeSeries = false) (call : RepoCall T Id)
    (hs : server.Plain s) :
    Atomic server.exec (view server) (Keeps server) (Does repo.cls call) (call.program repo) s := by
  cases call with
  | getAll => exact atomic_of_find hrepo (fun _ _ _ _ => rfl) hs
  | find filter => exact atomic_of_find hrepo (fun _ _ _ _ => rfl) hs
  | getByID value =>
    show Atomic _ _ _ _ (Answer.document <$> (List.head? <$> repo.find (.id value))) s
    rw [Functor.map_map]
    exact atomic_of_find hrepo (fun _ _ hplain hreply => does_getByID hplain value hreply) hs
  | getAs isMember value =>
    cases isMember with
    | false => exact Atomic.of_result rfl
    | true =>
      show Atomic _ _ _ _ (Answer.document <$> (List.head? <$> repo.find _)) s
      rw [Functor.map_map]
      exact atomic_of_find hrepo (fun _ _ _ _ => rfl) hs
  | add item =>
    exact atomic_of_reply hrepo (result_of_reply _) (fun _ hplain => does_add hplain item) hs
  | update id item =>
    exact atomic_of_reply hrepo (result_of_reply _) (fun _ hplain => does_update hplain id item) hs
  | updateItem item =>
    exact atomic_of_reply hrepo (result_of_reply _)
      (fun _ hplain => does_update hplain (repo.cls.idOf item) item) hs
  | remove id =>
    cases id with
    | none => exact Atomic.of_result rfl
    | some id =>
      exact atomic_of_reply hrepo result_of_deleteOne (fun _ hplain => does_remove hplain id) hs
  | removeItem item =>
    exact atomic_of_reply hrepo result_of_deleteOne
      (fun _ hplain => does_remove hplain (repo.cls.idOf item)) hs
  | upsert item filter =>
    exact atomic_of_reply hrepo (result_of_reply _) (fun _ hplain => does_upsert hplain item filter)
      hs

/-! ## Interleaved calls -/

omit [DecidableEq Id] in
theorem call_within (server : MongoServer repo.cls) (hrepo : repo.isTimeSeries = false)
    (call : RepoCall T Id) : Within server.exec (Keeps server) (call.program repo) := by
  cases call with
  | getAll => exact within_items server hrepo nofun (result_of_reply _)
  | find filter => exact within_items server hrepo nofun (result_of_reply _)
  | getByID value =>
    show Within _ _ (Answer.document <$> (List.head? <$> repo.find (.id value)))
    rw [Functor.map_map]
    exact within_items server hrepo nofun (result_of_reply _)
  | getAs isMember value =>
    cases isMember with
    | false => exact Within.of_result rfl
    | true =>
      show Within _ _ (Answer.document <$> (List.head? <$> repo.find _))
      rw [Functor.map_map]
      exact within_items server hrepo nofun (result_of_reply _)
  | add item => exact within_items server hrepo nofun (result_of_reply _)
  | update id item => exact within_items server hrepo nofun (result_of_reply _)
  | updateItem item => exact within_items server hrepo nofun (result_of_reply _)
  | remove id =>
    cases id with
    | none => exact Within.of_result rfl
    | some id => exact within_items server hrepo nofun result_of_deleteOne
  | removeItem item => exact within_items server hrepo nofun result_of_deleteOne
  | upsert item filter => exact within_items server hrepo nofun (result_of_reply _)

/-- **Any interleaving of calls is equivalent to a serial execution on the map**, each call standing
where one of its own commands was, whichever commands fail. -/
theorem repo_serialized (server : MongoServer repo.cls) (hrepo : repo.isTimeSeries = false)
    {calls : List (RepoCall T Id)} {s : server.Store} (hs : server.Plain s) {schedule : List ℕ}
    {pool : server.Store × List (Mongo T Id (Answer T))}
    (hrun : Runs.run (poolStep server.exec) schedule (s, calls.map (RepoCall.program repo)) =
      some pool) :
    ∃ order, Serialized server.exec (view server) (fun _ => true)
      (fun i m result m' => ∀ call, calls[i]? = some call → Does repo.cls call m result m')
      schedule s (calls.map (RepoCall.program repo)) pool.1 pool.2 order := by
  have htrans : ∀ (_ : ℕ) (a b c : server.Store), Keeps server a b → Keeps server b c →
      Keeps server a c := fun _ _ _ _ hab hbc hs => hbc (hab hs)
  have hrefl : ∀ (_ : ℕ) (s : server.Store), Keeps server s s := fun _ _ hs => hs
  refine pool_serialized htrans hrefl ?_ ?_ hrun
  · intro i p _ hp
    rw [List.getElem?_map, Option.map_eq_some_iff] at hp
    obtain ⟨call, hcall, rfl⟩ := hp
    refine (call_atomic hrepo call hs).mono fun m result m' hdoes call' hcall' => ?_
    cases hcall.symm.trans hcall'
    exact hdoes
  · intro i j p _ _ hp
    rw [List.getElem?_map, Option.map_eq_some_iff] at hp
    obtain ⟨call, -, rfl⟩ := hp
    exact call_within server hrepo call

/-- Documents with a number as their `_id` and a name. -/
def numberedNames : MongoBaseRepo (ℕ × String) ℕ where
  cls := ⟨Prod.fst, fun name document => if name = "Name" then some document.2 else none⟩
  isTimeSeries := false
  timestampFieldName := none

/-- Two additions and a replacement. -/
def threeCalls : List (RepoCall (ℕ × String) ℕ) :=
  [.add (1, "a"), .add (2, "b"), .update 1 (1, "c")]

/-- No collection yet; the seventh answer is lost. -/
def seventhLost : MemoryStore numberedNames.cls :=
  ⟨none, [.answered, .answered, .answered, .answered, .answered, .answered, .lost]⟩

/-- The second addition finds no collection either, but comes too late to create it; the answer to
the replacement is lost. -/
theorem threeCalls_serialized :
    ∃ (pool : MemoryStore numberedNames.cls ×
        List (Mongo (ℕ × String) ℕ (Answer (ℕ × String)))) (order : List ℕ),
      Serialized (memoryServer numberedNames.cls).exec (view (memoryServer numberedNames.cls))
        (fun _ => true)
        (fun i m result m' => ∀ call, threeCalls[i]? = some call →
          Does numberedNames.cls call m result m')
        [0, 1, 0, 1, 0, 2, 2] seventhLost (threeCalls.map (RepoCall.program numberedNames)) pool.1
        pool.2 order := by
  have hrun : (Runs.run (poolStep MemoryStore.exec) [0, 1, 0, 1, 0, 2, 2]
      (seventhLost, threeCalls.map (RepoCall.program numberedNames))).isSome = true := by
    decide +kernel
  obtain ⟨pool, hpool⟩ := Option.isSome_iff_exists.1 hrun
  have hplain : (memoryServer numberedNames.cls).Plain seventhLost := rfl
  exact ⟨pool, repo_serialized (memoryServer numberedNames.cls) rfl hplain hpool⟩

end MongoBaseRepo

end Sentinel
