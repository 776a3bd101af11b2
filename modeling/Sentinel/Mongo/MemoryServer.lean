import Sentinel.Mongo.MongoBaseRepo

/-!
# A server in memory

A server that has the laws of `MongoServer`: it keeps the documents in a list, and it is told of the
next commands which of them fail, and which answers are lost.
-/

set_option autoImplicit false

namespace Sentinel

open Commands Keyed

/-- What becomes of a command: it is answered, it fails, or its answer is lost. -/
inductive Fate where
  | answered
  | failed
  | lost

section Memory

variable {T Id : Type} (cls : DocumentClass T Id)

/-- A collection; a time series has no index on the `_id`s. -/
structure Collection where
  timeSeries : Bool
  documents : List T
  distinct : timeSeries = false → Distinct cls.idOf ↑documents

/-- The collection, if it is there, and what becomes of the next commands. -/
structure MemoryStore where
  collection : Option (Collection cls)
  fates : List Fate

variable {cls}

namespace Collection

def empty (timeSeries : Bool) : Collection cls := ⟨timeSeries, [], fun _ => Multiset.nodup_zero⟩

def insert (c : Collection cls) (document : T)
    (h : c.timeSeries = false → ∀ other ∈ c.documents, cls.idOf other ≠ cls.idOf document) :
    Collection cls where
  timeSeries := c.timeSeries
  documents := document :: c.documents
  distinct hplain := distinct_cons.2 ⟨h hplain, c.distinct hplain⟩

/-- The first document that matches is removed. -/
def delete (c : Collection cls) (filter : T → Bool) : Collection cls where
  timeSeries := c.timeSeries
  documents := c.documents.eraseP filter
  distinct hplain := (c.distinct hplain).of_le (List.eraseP_sublist.subperm)

end Collection

namespace MemoryStore

/-- The collection a write works on: one that is not there is created. -/
def orCreated (db : Option (Collection cls)) : Collection cls := db.getD (.empty false)

def documents (db : Option (Collection cls)) : List T := db.elim [] Collection.documents

def Plain (db : Option (Collection cls)) : Prop := (orCreated db).timeSeries = false

def error {α : Type} (message : String) : Except MongoExn α := .error (.driver message)

variable [DecidableEq Id]

def body (cls : DocumentClass T Id) : MongoFilter T Id → T → Bool
  | .id value, document => cls.idOf document = value
  | .expression body, document => body document

def insertOne (db : Option (Collection cls)) (document : T) :
    Except MongoExn Unit × Option (Collection cls) :=
  if h : (orCreated db).timeSeries = false →
      ∀ other ∈ (orCreated db).documents, cls.idOf other ≠ cls.idOf document then
    (.ok (), some ((orCreated db).insert document h))
  else (error "E11000 duplicate key error", db)

/-- The first document that matches is replaced; its `_id` has to stay. -/
def replaceOne (db : Option (Collection cls)) (filter : MongoFilter T Id) (replacement : T)
    (isUpsert : Bool) : Except MongoExn WriteResult × Option (Collection cls) :=
  match (orCreated db).documents.find? (body cls filter) with
  | some document =>
    if cls.idOf document = cls.idOf replacement then
      match insertOne (some ((orCreated db).delete (body cls filter))) replacement with
      | (.ok (), db) => (.ok ⟨1, false⟩, db)
      | (.error e, _) => (.error e, db)
    else (error "the (immutable) field '_id' was found to have been altered", db)
  | none =>
    if isUpsert then
      match insertOne db replacement with
      | (.ok (), db) => (.ok ⟨0, true⟩, db)
      | (.error e, _) => (.error e, db)
    else (.ok ⟨0, false⟩, db)

def deleteOne (db : Option (Collection cls)) (filter : MongoFilter T Id) :
    Except MongoExn WriteResult × Option (Collection cls) :=
  if (documents db).any (body cls filter) then
    (.ok ⟨1, false⟩, some ((orCreated db).delete (body cls filter)))
  else (.ok ⟨0, false⟩, db)

/-- The answer to a command that does not fail. -/
def answer (db : Option (Collection cls)) :
    (command : MongoCommand T Id) → MongoReply command × Option (Collection cls)
  | .listCollections => (.ok db.isSome, db)
  | .createCollection timeSeries =>
    match db with
    | none => (.ok (), some (.empty timeSeries))
    | some c => (error "Collection already exists", some c)
  | .insertOne document => insertOne db document
  | .find filter => (.ok ((documents db).filter (body cls filter)), db)
  | .replaceOne filter replacement isUpsert => replaceOne db filter replacement isUpsert
  | .deleteOne filter => deleteOne db filter

def exec (s : MemoryStore cls) (command : MongoCommand T Id) :
    MongoReply command × MemoryStore cls :=
  match s.fates with
  | [] => ((answer s.collection command).1, ⟨(answer s.collection command).2, []⟩)
  | .answered :: fates =>
    ((answer s.collection command).1, ⟨(answer s.collection command).2, fates⟩)
  | .failed :: fates => (error "A timeout occurred", ⟨s.collection, fates⟩)
  | .lost :: fates => (error "The connection was closed", ⟨(answer s.collection command).2, fates⟩)

/-! ## The laws -/

variable {db : Option (Collection cls)} {s : MemoryStore cls} {command : MongoCommand T Id}
  {document : T} {filter : MongoFilter T Id} {isUpsert : Bool}

/-- A command leaves the collection as it was, or as it is answered. -/
theorem collection_exec (s : MemoryStore cls) (command : MongoCommand T Id) :
    (exec s command).2.collection = s.collection ∨
      (exec s command).2.collection = (answer s.collection command).2 := by
  unfold exec
  split
  · exact Or.inr rfl
  · exact Or.inr rfl
  · exact Or.inl rfl
  · exact Or.inr rfl

/-- What is known of the answers is known of the replies, of which some are lost. -/
theorem answered_exec {Effect : MongoAnswer command → Multiset T → Multiset T → Prop}
    (h : Answered (answer s.collection command).1 Effect (documents s.collection)
      (documents (answer s.collection command).2)) :
    Answered (exec s command).1 Effect (documents s.collection)
      (documents (exec s command).2.collection) := by
  unfold exec
  split
  · exact h
  · exact h
  · exact Or.inl rfl
  · cases hanswer : (answer s.collection command).1 with
    | ok a =>
      rw [hanswer] at h
      exact Or.inr ⟨a, h⟩
    | error e =>
      rw [hanswer] at h
      exact h

theorem body_iff {t : T} : body cls filter t = true ↔ cls.Matches filter t := by
  cases filter with
  | id value => exact decide_eq_true_iff
  | expression body => exact Iff.rfl

omit [DecidableEq Id] in
theorem documents_orCreated : (orCreated db).documents = documents db := by
  cases db with
  | none => rfl
  | some c => rfl

theorem misses_of_forall (h : ∀ t ∈ documents db, ¬ body cls filter t = true) :
    cls.Misses filter ↑(documents db) := by
  cases filter with
  | id value => exact fun t ht heq => h t ht (body_iff.2 heq)
  | expression body => trivial

/-- A removal takes out the document that the filter finds. -/
theorem coe_eraseP {l : List T} {p : T → Bool} (hfind : l.find? p = some document) :
    (↑l : Multiset T) = document ::ₘ ↑(l.eraseP p) := by
  obtain ⟨hp, before, after, rfl, hbefore⟩ := List.find?_eq_some_iff_append.1 hfind
  rw [List.eraseP_append_right _ (fun t ht => by simpa using hbefore t ht),
    List.eraseP_cons_of_pos hp, Multiset.cons_coe]
  exact Multiset.coe_eq_coe.2 List.perm_middle

theorem insertOne_cases (db : Option (Collection cls)) (document : T) :
    ((insertOne db document).1 = .ok () ∧ documents (insertOne db document).2 =
        document :: documents db ∧
        (Plain db → ∀ other ∈ documents db, cls.idOf other ≠ cls.idOf document)) ∨
      ∃ e, insertOne db document = (.error e, db) := by
  unfold insertOne
  split
  · rename_i h
    rw [documents_orCreated] at h
    refine Or.inl ⟨rfl, ?_, h⟩
    show document :: (orCreated db).documents = _
    rw [documents_orCreated]
  · exact Or.inr ⟨_, rfl⟩

theorem plain_insertOne (h : Plain db) (document : T) : Plain (insertOne db document).2 := by
  unfold insertOne
  split
  · exact h
  · exact h

theorem answered_insertOne (db : Option (Collection cls)) (document : T) :
    Answered (insertOne db document).1 (fun _ (m m' : Multiset T) => m' = document ::ₘ m)
      (documents db) (documents (insertOne db document).2) := by
  rcases insertOne_cases db document with ⟨hok, hdocuments, -⟩ | ⟨e, herror⟩
  · rw [hok, hdocuments]
    exact rfl
  · rw [herror]
    exact Or.inl rfl

theorem answered_replaceOne (hplain : Plain db) (filter : MongoFilter T Id) (replacement : T)
    (isUpsert : Bool) : Answered (replaceOne db filter replacement isUpsert).1
      (cls.Replaced filter replacement isUpsert) (↑(documents db))
      ↑(documents (replaceOne db filter replacement isUpsert).2) := by
  unfold replaceOne
  rw [documents_orCreated]
  split
  · rename_i old hfind
    split
    · rename_i hid
      rcases insertOne_cases (some ((orCreated db).delete (body cls filter))) replacement with
        ⟨hok, hdocuments, -⟩ | ⟨e, herror⟩
      · split
        · rename_i db' hinsert
          rw [hinsert] at hdocuments
          refine Or.inl ⟨old, _, body_iff.1 (List.find?_some hfind), hid, coe_eraseP hfind, ?_, rfl⟩
          rw [hdocuments]
          show (↑(replacement :: (orCreated db).documents.eraseP (body cls filter)) : Multiset T) = _
          rw [documents_orCreated]
          rfl
        · exact Or.inl rfl
      · rw [herror]
        exact Or.inl rfl
    · exact Or.inl rfl
  · rename_i hfind
    have hmisses : cls.Misses filter ↑(documents db) :=
      misses_of_forall (List.find?_eq_none.1 hfind)
    split
    · rename_i hupsert
      rcases insertOne_cases db replacement with ⟨hok, hdocuments, hnew⟩ | ⟨e, herror⟩
      · split
        · rename_i db' hinsert
          rw [hinsert] at hdocuments
          refine Or.inr (Or.inl ⟨hmisses, hnew hplain, ?_, hupsert, rfl⟩)
          rw [hdocuments]
          rfl
        · exact Or.inl rfl
      · rw [herror]
        exact Or.inl rfl
    · rename_i hupdate
      exact Or.inr (Or.inr ⟨hmisses, rfl, by simpa using hupdate, rfl⟩)

theorem plain_replaceOne (h : Plain db) (filter : MongoFilter T Id) (replacement : T)
    (isUpsert : Bool) : Plain (replaceOne db filter replacement isUpsert).2 := by
  unfold replaceOne
  split
  · split
    · have hinsert := plain_insertOne (show Plain (some ((orCreated db).delete (body cls filter))) from h)
        replacement
      split
      · rename_i heq
        rwa [heq] at hinsert
      · exact h
    · exact h
  · split
    · have hinsert := plain_insertOne h replacement
      split
      · rename_i heq
        rwa [heq] at hinsert
      · exact h
    · exact h

theorem answered_deleteOne (db : Option (Collection cls)) (filter : MongoFilter T Id) :
    Answered (deleteOne db filter).1 (cls.Deleted filter) ↑(documents db)
      ↑(documents (deleteOne db filter).2) := by
  unfold deleteOne
  split
  · rename_i hany
    rw [List.any_eq_true, ← List.find?_isSome, Option.isSome_iff_exists] at hany
    obtain ⟨old, hfind⟩ := hany
    refine Or.inl ⟨old, body_iff.1 (List.find?_some hfind), ?_, rfl⟩
    show _ = old ::ₘ ↑((orCreated db).documents.eraseP (body cls filter))
    rw [documents_orCreated]
    exact coe_eraseP hfind
  · rename_i hany
    refine Or.inr ⟨misses_of_forall fun t ht hbody => hany ?_, rfl, rfl⟩
    exact List.any_eq_true.2 ⟨t, ht, hbody⟩

theorem plain_deleteOne (h : Plain db) (filter : MongoFilter T Id) :
    Plain (deleteOne db filter).2 := by
  unfold deleteOne
  split
  · exact h
  · exact h

theorem plain_answer (h : Plain db) (hcommand : command ≠ .createCollection true) :
    Plain (answer db command).2 := by
  cases command with
  | listCollections => exact h
  | createCollection timeSeries =>
    cases timeSeries with
    | true => exact absurd rfl hcommand
    | false =>
      cases db with
      | none => rfl
      | some c => exact h
  | insertOne document => exact plain_insertOne h document
  | find filter => exact h
  | replaceOne filter replacement isUpsert => exact plain_replaceOne h filter replacement isUpsert
  | deleteOne filter => exact plain_deleteOne h filter

theorem documents_answer (hreads : command.Reads) :
    documents (answer db command).2 = documents db := by
  cases command with
  | listCollections => rfl
  | createCollection timeSeries =>
    cases db with
    | none => rfl
    | some c => rfl
  | find filter => rfl
  | insertOne document => exact hreads.elim
  | replaceOne filter replacement isUpsert => exact hreads.elim
  | deleteOne filter => exact hreads.elim

theorem found_find (value : Id) : cls.Found value
    ((documents db).filter (body cls (.id value))) ↑(documents db) ↑(documents db) := by
  refine ⟨rfl, fun t => ?_⟩
  rw [List.mem_filter, Multiset.mem_coe, body_iff]
  exact Iff.rfl

end MemoryStore

open MemoryStore in
/-- The server in memory. -/
def memoryServer [DecidableEq Id] (cls : DocumentClass T Id) : MongoServer cls where
  Store := MemoryStore cls
  documents s := ↑(documents s.collection)
  Plain s := MemoryStore.Plain s.collection
  exec := exec
  unique s hplain := by
    show Distinct cls.idOf ↑(documents s.collection)
    rw [← documents_orCreated]
    exact (orCreated s.collection).distinct hplain
  plain_exec s command hplain hcommand := by
    rcases collection_exec s command with h | h
    · rwa [h]
    · rw [h]
      exact plain_answer hplain hcommand
  reads s command hreads := by
    rcases collection_exec s command with h | h
    · rw [h]
    · rw [h, documents_answer hreads]
  inserts _ document := answered_exec (answered_insertOne _ document)
  finds _ value _ := answered_exec (found_find value)
  replaces _ filter replacement isUpsert hplain :=
    answered_exec (answered_replaceOne hplain filter replacement isUpsert)
  deletes _ filter _ := answered_exec (answered_deleteOne _ filter)

end Memory

end Sentinel
