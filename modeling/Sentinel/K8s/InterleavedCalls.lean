import Sentinel.K8s.AtomicCalls
import Sentinel.K8s.VersionedServer

/-!
# Interleaved calls of `KubernetesClient`

Calls run at the same time as each other and as any other client of the API server.

* `pool_of_calls` — a pool of calls and other clients is equivalent to a serial execution, in which
  every call that has ended runs alone at one of its own requests, or is refused there because
  others use its object.
* `calls_serialized` — the same for the methods of the class.
* `progress_of_calls` — of calls that would return if they ran alone, the first one to end returns.
-/

set_option autoImplicit false

namespace Sentinel.KubernetesClient

open Commands

variable {M S T α β : Type} {server : ApiServer M S} {codec : Serialization T M S}
  {crd : CustomEntityDefinition} {path : ResourcePath} {s : server.Store}

/-! ## The methods -/

/-- The program acts as one call on the object at the path. -/
def IsCall (server : ApiServer M S) (path : ResourcePath) (p : KubernetesApi M S α) : Prop :=
  ∀ contended s,
    Atomic server.exec id (Relies server contended path) (AloneOrRefused server contended p) p s

theorem IsCall.one {c : ApiRequest M S} {next : ApiReply M S → KubernetesApi M S α}
    (hnext : ∀ reply, ∃ result, (next reply).result = some result) :
    IsCall server path (.call c next) := by
  intro contended s
  exact (atomic_one hnext).mono fun _ _ _ h => Or.inl h

/-- What is made of the result of a call. -/
theorem IsCall.map {p : KubernetesApi M S α} (h : IsCall server path p) (f : α → β) :
    IsCall server path (f <$> p) := by
  have hf : ∀ a, ((fun a => pure (f a) : α → KubernetesApi M S β) a).result =
    some (.ok (f a)) := fun a => rfl
  intro contended s
  refine (h contended s).bind_result hf fun s₁ result s₂ hspec => ?_
  rcases hspec with halone | ⟨hcontended, ⟨code, rfl⟩, hsame⟩
  · refine Or.inl ((run_bind_result hf).trans ?_)
    rw [halone]
  · exact Or.inr ⟨hcontended, ⟨code, rfl⟩, hsame⟩

theorem isCall_withDefinition {f : CustomEntityDefinition → KubernetesApi M S α}
    (hcrd : createResourceDefinition codec.type = .ok crd) (h : IsCall server path (f crd)) :
    IsCall server path (withDefinition codec f) := by
  unfold withDefinition
  rw [hcrd]
  exact h

theorem getAsync_isCall (hcrd : createResourceDefinition codec.type = .ok crd) (name : String)
    (nameSpace : Option String) :
    IsCall server (resourcePath crd nameSpace name) (getAsync codec name nameSpace) :=
  isCall_withDefinition hcrd (.one fun _ => ⟨_, Prog.result_ofExcept _⟩)

theorem deleteAsync_isCall (hcrd : createResourceDefinition codec.type = .ok crd) (name : String)
    (nameSpace : Option String) :
    IsCall server (resourcePath crd nameSpace name) (deleteAsync codec name nameSpace) :=
  isCall_withDefinition hcrd (.one fun _ => ⟨_, Prog.result_ofExcept _⟩)

/-- The path of the object of a resource. -/
def Resource.target (crd : CustomEntityDefinition) (resource : Resource T) : ResourcePath :=
  resourcePath crd resource.metadata.namespaceProperty resource.metadata.name

theorem createAsync_isCall (hcrd : createResourceDefinition codec.type = .ok crd)
    (resource : Resource T) :
    IsCall server (resource.target crd) (createAsync codec resource) :=
  isCall_withDefinition hcrd (.one fun _ => ⟨_, Prog.result_ofExcept _⟩)

theorem updateAsync_isCall (hcrd : createResourceDefinition codec.type = .ok crd)
    (resource : Resource T) :
    IsCall server (resource.target crd) (updateAsync codec resource) :=
  isCall_withDefinition hcrd (.one fun _ => ⟨_, Prog.result_ofExcept _⟩)

theorem updateStatusAsync_isCall (hcrd : createResourceDefinition codec.type = .ok crd)
    (resource : Resource T) :
    IsCall server (resource.target crd) (updateStatusAsync codec resource) :=
  isCall_withDefinition hcrd (.one fun _ => ⟨_, Prog.result_ofExcept _⟩)

theorem saveAsync_isCall (hcrd : createResourceDefinition codec.type = .ok crd)
    (resource : Resource T) :
    IsCall server (resource.target crd) (saveAsync codec resource) :=
  fun _ _ => saveAsync_atomic hcrd

/-! ## Pools -/

/-- Whatever it is answered, the program leaves the object at the path as it is. -/
def LeavesAlone (server : ApiServer M S) (path : ResourcePath) (p : KubernetesApi M S α) : Prop :=
  Within server.exec (fun s s' => server.objects s' path = server.objects s path) p

/-- Some other program may touch the object at the path. -/
def Contended (server : ApiServer M S) (ps : List (KubernetesApi M S α)) (i : ℕ)
    (path : ResourcePath) : Prop :=
  ∃ j p, i ≠ j ∧ ps[j]? = some p ∧ ¬ LeavesAlone server path p

theorem within_relies {contended : Prop} {p : KubernetesApi M S α}
    (h : ¬ contended → LeavesAlone server path p) :
    Within server.exec (Relies server contended path) p := by
  induction p with
  | ret a => trivial
  | throw e => trivial
  | call c next ih =>
    refine ⟨fun s => ⟨later_exec server s c, fun hcontended => (h hcontended).1 s⟩, fun reply => ?_⟩
    exact ih reply fun hcontended => (h hcontended).2 reply

/-- What the calls of a pool rely on; `target` gives the paths of their objects. -/
def PoolRely (server : ApiServer M S) (target : ℕ → Option ResourcePath)
    (ps : List (KubernetesApi M S α)) (i : ℕ) (s s' : server.Store) : Prop :=
  ∀ path, target i = some path → Relies server (Contended server ps i path) path s s'

theorem poolRely_refl (server : ApiServer M S) (target : ℕ → Option ResourcePath)
    (ps : List (KubernetesApi M S α)) (i : ℕ) (s : server.Store) :
    PoolRely server target ps i s s :=
  fun _ _ => .refl s

theorem poolRely_trans (server : ApiServer M S) (target : ℕ → Option ResourcePath)
    (ps : List (KubernetesApi M S α)) (i : ℕ) (a b c : server.Store)
    (hab : PoolRely server target ps i a b) (hbc : PoolRely server target ps i b c) :
    PoolRely server target ps i a c :=
  fun path hpath => (hab path hpath).trans (hbc path hpath)

/-- **A pool of calls and other clients is equivalent to a serial execution of the calls**, each of
which runs alone or is refused without a trace, the latter only if others use its object. -/
theorem pool_of_calls {target : ℕ → Option ResourcePath} {ps : List (KubernetesApi M S α)}
    {schedule : List ℕ} {pool : server.Store × List (KubernetesApi M S α)}
    (hcall : ∀ i path p, target i = some path → ps[i]? = some p → IsCall server path p)
    (hrun : Runs.run (poolStep server.exec) schedule (s, ps) = some pool) :
    ∃ order, Serialized server.exec id (fun i => (target i).isSome)
      (fun i s₁ result s₂ => ∀ path p, target i = some path → ps[i]? = some p →
        AloneOrRefused server (Contended server ps i path) p s₁ result s₂)
      schedule s ps pool.1 pool.2 order := by
  refine pool_serialized (poolRely_trans server target ps) (poolRely_refl server target ps) ?_ ?_
    hrun
  · intro i p htarget hp
    obtain ⟨path, hpath⟩ := Option.isSome_iff_exists.1 htarget
    refine ((hcall i path p hpath hp _ s).of_imp fun s s' h => h path hpath).mono ?_
    intro s₁ result s₂ hspec path' p' hpath' hp'
    cases hpath.symm.trans hpath'
    cases hp.symm.trans hp'
    exact hspec
  · intro i j p htarget hij hp
    obtain ⟨path, hpath⟩ := Option.isSome_iff_exists.1 htarget
    have hleaves : ¬ Contended server ps i path → LeavesAlone server path p := by
      intro hquiet
      by_contra hleaves
      exact hquiet ⟨j, p, hij, hp, hleaves⟩
    refine (within_relies hleaves).mono fun s s' h path' hpath' => ?_
    cases hpath.symm.trans hpath'
    exact h

/-- **The first call to end returns**, if each of them would return if it ran alone. -/
theorem progress_of_calls {target : ℕ → ResourcePath} {ps : List (KubernetesApi M S α)}
    {schedule : List ℕ} {pool : server.Store × List (KubernetesApi M S α)}
    (hcall : ∀ (i : ℕ) (p : KubernetesApi M S α), ps[i]? = some p → IsCall server (target i) p)
    (halone : ∀ p ∈ ps, ∃ a, (run server.exec p s).1 = .ok a)
    (hrun : Runs.run (poolStep server.exec) schedule (s, ps) = some pool) {i : ℕ}
    {result : Except ClientExn α} (hended : resultAt pool.2 i = some result) :
    ∃ j a, resultAt pool.2 j = some (.ok a) := by
  have hrefl : ∀ (i : ℕ) (s : server.Store), Relies server True (target i) s s :=
    fun _ s => .refl s
  have hatomic : ∀ (i : ℕ) (p : KubernetesApi M S α), ps[i]? = some p →
      Atomic server.exec id (Relies server True (target i)) (fun _ _ _ => True) p s :=
    fun i p hp => (hcall i p hp True s).mono fun _ _ _ _ => trivial
  exact pool_lockFree hrefl hatomic (fun i p hp => halone p (List.mem_of_getElem? hp)) hrun hended

/-! ## Calls of the class -/

inductive Call (T : Type) where
  | get (name : String) (nameSpace : Option String)
  | create (resource : Resource T)
  | update (resource : Resource T)
  | updateStatus (resource : Resource T)
  | save (resource : Resource T)
  | delete (name : String) (nameSpace : Option String)

/-- What a call returns: what it has found, what it has written, the resource it has changed, or
nothing. -/
inductive Answer (T : Type) where
  | found (resource : Option (Resource T))
  | written (resource parsed : Resource T)
  | changed (resource : Resource T)
  | done

namespace Call

def program (codec : Serialization T M S) : Call T → KubernetesApi M S (Answer T)
  | .get name nameSpace => .found <$> getAsync codec name nameSpace
  | .create resource => (fun r => .written r.1 r.2) <$> createAsync codec resource
  | .update resource => (fun r => .written r.1 r.2) <$> updateAsync codec resource
  | .updateStatus resource => .changed <$> updateStatusAsync codec resource
  | .save resource => (fun r => .written r.1 r.2) <$> saveAsync codec resource
  | .delete name nameSpace => (fun _ => .done) <$> deleteAsync codec name nameSpace

def target (crd : CustomEntityDefinition) : Call T → ResourcePath
  | .get name nameSpace => resourcePath crd nameSpace name
  | .create resource => resource.target crd
  | .update resource => resource.target crd
  | .updateStatus resource => resource.target crd
  | .save resource => resource.target crd
  | .delete name nameSpace => resourcePath crd nameSpace name

theorem isCall (hcrd : createResourceDefinition codec.type = .ok crd) (call : Call T) :
    IsCall server (call.target crd) (call.program codec) := by
  cases call with
  | get name nameSpace => exact (getAsync_isCall hcrd name nameSpace).map _
  | create resource => exact (createAsync_isCall hcrd resource).map _
  | update resource => exact (updateAsync_isCall hcrd resource).map _
  | updateStatus resource => exact (updateStatusAsync_isCall hcrd resource).map _
  | save resource => exact (saveAsync_isCall hcrd resource).map _
  | delete name nameSpace => exact (deleteAsync_isCall hcrd name nameSpace).map _

end Call

/-- **Any interleaving of calls, among other clients, is equivalent to a serial execution of the
calls**, in an order in which each of them stands where one of its own requests was. -/
theorem calls_serialized (hcrd : createResourceDefinition codec.type = .ok crd)
    {calls : ℕ → Option (Call T)} {ps : List (KubernetesApi M S (Answer T))}
    (hcalls : ∀ i call, calls i = some call → ps[i]? = some (call.program codec))
    {schedule : List ℕ} {pool : server.Store × List (KubernetesApi M S (Answer T))}
    (hrun : Runs.run (poolStep server.exec) schedule (s, ps) = some pool) :
    ∃ order, Serialized server.exec id (fun i => (calls i).isSome)
      (fun i s₁ result s₂ => ∀ call, calls i = some call →
        AloneOrRefused server (Contended server ps i (call.target crd)) (call.program codec)
          s₁ result s₂)
      schedule s ps pool.1 pool.2 order := by
  have htarget : ∀ i path p, (calls i).map (Call.target crd) = some path → ps[i]? = some p →
      IsCall server path p := by
    intro i path p hpath hp
    obtain ⟨call, hcall, rfl⟩ := Option.map_eq_some_iff.1 hpath
    cases (hcalls i call hcall).symm.trans hp
    exact call.isCall hcrd
  obtain ⟨order, h⟩ := pool_of_calls htarget hrun
  simp only [Option.isSome_map] at h
  refine ⟨order, h.mono fun i s₁ result s₂ hspec call hcall => ?_⟩
  exact hspec _ _ (by rw [hcall]; rfl) (hcalls i call hcall)

/-- One resource, without a schema. -/
def notesServed : Served String String := fun group version plural =>
  if group = "example.io" ∧ version = "v1" ∧ plural = "notes" then some ⟨.namespaced, true, some⟩
  else none

def plainServer : ApiServer String String := versionedServer notesServed

def noNotes : plainServer.Store := Versioned.Store.empty

def noteCodec : Serialization String String String where
  type := ⟨"Note", some ⟨"example.io", "v1", none, some "notes"⟩, none⟩
  serialize body := ⟨body, none⟩
  deserialize content := .ok (some content.main)

def note (body : String) : Resource String := ⟨⟨"note", some "default", none, none⟩, body⟩

def noteCrd : CustomEntityDefinition :=
  ⟨"Note", "NoteList", "example.io", "v1", "note", "notes", .namespaced⟩

theorem createResourceDefinition_note :
    createResourceDefinition noteCodec.type = .ok noteCrd := by
  have hplural : isNullOrWhiteSpace (some "notes") = false := by decide +kernel
  have hlower : "Note".map Char.toLower = "note" := by decide +kernel
  unfold createResourceDefinition noteCodec
  simp only [hplural]
  simp [isNullOrWhiteSpace, noteCrd, hlower]

def twoSaves : List (Call String) := [.save (note "a"), .save (note "b")]

/-- Two savings of one note that both find none: the second one is refused. -/
theorem twoSaves_serialized :
    ∃ pool order, Runs.run (poolStep plainServer.exec) [0, 1, 0, 1]
        (noNotes, twoSaves.map (Call.program noteCodec)) = some pool ∧
      Serialized plainServer.exec id (fun i => twoSaves[i]?.isSome)
        (fun i s₁ result s₂ => ∀ call, twoSaves[i]? = some call →
          AloneOrRefused plainServer (Contended plainServer (twoSaves.map (Call.program noteCodec))
            i (call.target noteCrd)) (call.program noteCodec) s₁ result s₂)
        [0, 1, 0, 1] noNotes (twoSaves.map (Call.program noteCodec)) pool.1 pool.2 order := by
  have hrun : (Runs.run (poolStep plainServer.exec) [0, 1, 0, 1]
      (noNotes, twoSaves.map (Call.program noteCodec))).isSome = true := by decide +kernel
  obtain ⟨pool, hpool⟩ := Option.isSome_iff_exists.1 hrun
  have hcalls : ∀ (i : ℕ) (call : Call String), twoSaves[i]? = some call →
      (twoSaves.map (Call.program noteCodec))[i]? = some (call.program noteCodec) := by
    intro i call hcall
    rw [List.getElem?_map, hcall]
    rfl
  obtain ⟨order, h⟩ := calls_serialized createResourceDefinition_note hcalls hpool
  exact ⟨pool, order, hpool, h⟩

end Sentinel.KubernetesClient
