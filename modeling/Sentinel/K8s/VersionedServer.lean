import Sentinel.K8s.KubernetesClient
import Sentinel.Lib.Versioned

/-!
# A server of versioned objects

A server that has the laws of `ApiServer`: it numbers the identities and the versions of its objects,
and it has no finalizers.

* `modify_cases` — a write fails without a trace, or finds the object with the version it names.
* `exec_does`, `later_exec` — what a request can do to the objects.
-/

set_option autoImplicit false

namespace Sentinel.KubernetesClient

open Versioned Versioned.Store

/-- The numbers of the server as texts. -/
def numberText (n : ℕ) : String := String.ofList (List.replicate (n + 1) '1')

theorem numberText_injective : Function.Injective numberText := by
  intro m n h
  have hlength := congrArg (fun text => text.toList.length) h
  simpa [numberText] using hlength

theorem numberText_ne (n : ℕ) : numberText n ≠ "" := by
  intro h
  have hlength := congrArg (fun text => text.toList.length) h
  simp [numberText] at hlength

abbrev Objects (M S : Type) := Store ResourcePath (Content M S)

/-- The resources that are served. -/
abbrev Served (M S : Type) := String → String → String → Option (ServedResource M S)

namespace VersionedServer

variable {M S : Type} [DecidableEq M] [DecidableEq S] (served : Served M S) (s : Objects M S)
  (path : ResourcePath) (body : JObject M S)

def object (o : Stored (Content M S)) : StoredObject M S :=
  ⟨numberText o.uid, numberText o.version, o.value⟩

/-- The identity a body names is not the one of the object, or there is none. -/
def uidDiffers (stored : Option (Stored (Content M S))) : Bool :=
  match body.metadata.uid with
  | none => false
  | some uid => uid ≠ "" && uid ≠ (stored.map fun o => numberText o.uid).getD ""

def answer : ApiReply M S × Objects M S := (readAnswer path ((s.objects path).map object), s)

def create : ApiReply M S × Objects M S :=
  match servedAt served path with
  | none => (.error .notFound, s)
  | some resource =>
    -- a new object has no status if the status has a path of its own
    let status := if resource.statusSubresource then none else body.content.status
    match resource.admitted ⟨body.content.main, status⟩ with
    | none => (.error .unprocessableEntity, s)
    | some content =>
      if body.metadata.resourceVersion.getD "" ≠ "" then (.error .internalServerError, s)
      else if (s.objects path).isSome then (.error .conflict, s)
      else answer (s.create path content) path

omit [DecidableEq M] [DecidableEq S] in
theorem answer_there {s : Objects M S} {path : ResourcePath} {o : Stored (Content M S)}
    (h : s.objects path = some o) :
    answer s path = (.ok ((object o).json path), s) := by
  unfold answer
  rw [h]
  rfl

omit [DecidableEq M] [DecidableEq S] in
theorem create_cases (served : Served M S) (s : Objects M S) (path : ResourcePath)
    (body : JObject M S) : (∃ code, create served s path body = (.error code, s)) ∨
    ∃ content, s.objects path = none ∧
      create served s path body = answer (s.create path content) path := by
  unfold create
  split
  · exact Or.inl ⟨_, rfl⟩
  · simp only
    split
    · exact Or.inl ⟨_, rfl⟩
    · rename_i content _
      by_cases hversion : body.metadata.resourceVersion.getD "" ≠ ""
      · rw [if_pos hversion]
        exact Or.inl ⟨_, rfl⟩
      · rw [if_neg hversion]
        cases hobject : s.objects path with
        | some o => exact Or.inl ⟨.conflict, by simp⟩
        | none => exact Or.inr ⟨content, rfl, by simp⟩

/-- A write of the object at a path, whose new content is made from the old one. -/
def modify (admitted : Content M S → Option (Content M S)) (change : Content M S → Content M S) :
    ApiReply M S × Objects M S :=
  if uidDiffers body (s.objects path) then (.error .conflict, s)
  else
    match s.objects path with
    | none => (.error .notFound, s)
    | some o =>
      if body.metadata.resourceVersion.getD "" = "" then (.error .unprocessableEntity, s)
      else if body.metadata.resourceVersion ≠ some (numberText o.version) then
        (.error .conflict, s)
      else
        match admitted (change o.value) with
        | none => (.error .unprocessableEntity, s)
        | some content => answer (s.update path content) path

def replace : ApiReply M S × Objects M S :=
  match servedAt served path with
  | none => (.error .notFound, s)
  | some resource => modify s path body resource.admitted fun old =>
      ⟨body.content.main, if resource.statusSubresource then old.status else body.content.status⟩

def replaceStatus : ApiReply M S × Objects M S :=
  match servedAt served path with
  | none => (.error .notFound, s)
  | some resource =>
    if resource.statusSubresource then
      modify s path body resource.admitted fun old => ⟨old.main, body.content.status⟩
    else (.error .notFound, s)

def delete : ApiReply M S × Objects M S :=
  match s.objects path with
  | none => (.error .notFound, s)
  | some o => (.ok ((object o).json path), s.erase path)

def exec : ApiRequest M S → ApiReply M S × Objects M S
  | .get path => answer s path
  | .create path body => create served s path body
  | .replace path body => replace served s path body
  | .replaceStatus path body => replaceStatus served s path body
  | .delete path => delete s path

/-! ## What a request does -/

variable {served s path body}

/-- A write fails without a trace, or finds the object with the version it names. -/
theorem modify_cases (s : Objects M S) (path : ResourcePath) (body : JObject M S)
    (admitted : Content M S → Option (Content M S)) (change : Content M S → Content M S) :
    (∃ code, modify s path body admitted change = (.error code, s)) ∨
    ∃ o content, s.objects path = some o ∧
      body.metadata.resourceVersion = some (numberText o.version) ∧
      admitted (change o.value) = some content ∧
      modify s path body admitted change = answer (s.update path content) path := by
  unfold modify
  cases uidDiffers body (s.objects path) with
  | true => exact Or.inl ⟨.conflict, rfl⟩
  | false =>
    rw [if_neg Bool.false_ne_true]
    cases hobject : s.objects path with
    | none => exact Or.inl ⟨.notFound, rfl⟩
    | some o =>
      simp only
      by_cases hempty : body.metadata.resourceVersion.getD "" = ""
      · exact Or.inl ⟨_, if_pos hempty⟩
      · rw [if_neg hempty]
        by_cases hversion : body.metadata.resourceVersion ≠ some (numberText o.version)
        · exact Or.inl ⟨_, if_pos hversion⟩
        · rw [if_neg hversion]
          cases hadmitted : admitted (change o.value) with
          | none => exact Or.inl ⟨_, rfl⟩
          | some content => exact Or.inr ⟨o, content, rfl, not_not.1 hversion, hadmitted, rfl⟩

/-- A write that names the object as it is. -/
theorem modify_ok {admitted : Content M S → Option (Content M S)}
    {change : Content M S → Content M S} {o : Stored (Content M S)} {content : Content M S}
    (hobject : s.objects path = some o) (hnames : Names body (object o))
    (hadmitted : admitted (change o.value) = some content) :
    modify s path body admitted change = answer (s.update path content) path := by
  have hdiffers : uidDiffers body (some o) = false := by
    unfold uidDiffers
    rw [hnames.uid]
    simp [object]
  have hversion : body.metadata.resourceVersion = some (numberText o.version) := hnames.version
  unfold modify
  simp [hdiffers, hobject, hversion, numberText_ne, hadmitted]

/-- What a request can do to the objects. -/
inductive Does (s : Objects M S) (path : ResourcePath) : ApiReply M S × Objects M S → Prop
  | refused (code : HttpStatusCode) : Does s path (.error code, s)
  | read (o : Stored (Content M S)) : s.objects path = some o →
      Does s path (.ok ((object o).json path), s)
  | create (content : Content M S) : s.objects path = none →
      Does s path (answer (s.create path content) path)
  | update (o : Stored (Content M S)) (content : Content M S) : s.objects path = some o →
      Does s path (answer (s.update path content) path)
  | erase (o : Stored (Content M S)) : Does s path (.ok ((object o).json path), s.erase path)

theorem modify_does (s : Objects M S) (path : ResourcePath) (body : JObject M S)
    (admitted : Content M S → Option (Content M S)) (change : Content M S → Content M S) :
    Does s path (modify s path body admitted change) := by
  obtain ⟨code, herror⟩ | ⟨o, content, hobject, -, -, hwrite⟩ :=
    modify_cases s path body admitted change
  · rw [herror]
    exact .refused code
  · rw [hwrite]
    exact .update o content hobject

theorem exec_does (served : Served M S) (s : Objects M S) (request : ApiRequest M S) :
    Does s request.path (exec served s request) := by
  cases request with
  | get path =>
    show Does s path (answer s path)
    cases hobject : s.objects path with
    | none =>
      unfold answer
      rw [hobject]
      exact .refused .notFound
    | some o =>
      rw [answer_there hobject]
      exact .read o hobject
  | create path body =>
    show Does s path (create served s path body)
    obtain ⟨code, herror⟩ | ⟨content, hnone, hcreate⟩ := create_cases served s path body
    · rw [herror]
      exact .refused code
    · rw [hcreate]
      exact .create content hnone
  | replace path body =>
    show Does s path (replace served s path body)
    unfold replace
    split
    · exact .refused .notFound
    · exact modify_does s path body _ _
  | replaceStatus path body =>
    show Does s path (replaceStatus served s path body)
    unfold replaceStatus
    split
    · exact .refused .notFound
    · split
      · exact modify_does s path body _ _
      · exact .refused .notFound
  | delete path =>
    show Does s path (delete s path)
    unfold delete
    split
    · exact .refused .notFound
    · exact .erase _

/-- A write that is answered is no refusal. -/
theorem answer_update {o : Stored (Content M S)} (h : s.objects path = some o)
    (content : Content M S) : ∃ o', (s.update path content).objects path = some o' ∧
      o'.uid = o.uid ∧ o'.value = content ∧
      answer (s.update path content) path = (.ok ((object o').json path), s.update path content) := by
  obtain ⟨o', ho', huid, hvalue⟩ := objects_update_self h
  exact ⟨o', ho', huid, hvalue, answer_there ho'⟩

theorem exec_refused {request : ApiRequest M S} {code : HttpStatusCode}
    (h : (exec served s request).1 = .error code) : (exec served s request).2 = s := by
  have hdoes := exec_does served s request
  generalize exec served s request = reply at hdoes h ⊢
  cases hdoes with
  | refused code => rfl
  | read o _ => rfl
  | create content _ =>
    rw [answer_there objects_create_self] at h
    cases h
  | update o content hobject =>
    obtain ⟨o', -, -, -, hanswer⟩ := answer_update hobject content
    rw [hanswer] at h
    cases h
  | erase o => cases h

/-- A request touches the object of its own path only. -/
theorem objects_exec_ne {request : ApiRequest M S} {path' : ResourcePath}
    (h : path' ≠ request.path) : (exec served s request).2.objects path' = s.objects path' := by
  have hdoes := exec_does served s request
  generalize exec served s request = reply at hdoes ⊢
  cases hdoes with
  | refused code => rfl
  | read o _ => rfl
  | create content _ => exact objects_create_ne h
  | update o content _ => exact objects_update_ne h
  | erase o => exact objects_erase_ne h

/-- Every request leaves the objects with an old version as they are. -/
theorem later_exec (served : Served M S) (s : Objects M S) (request : ApiRequest M S) :
    Store.Later s (exec served s request).2 := by
  have hdoes := exec_does served s request
  generalize exec served s request = reply at hdoes ⊢
  cases hdoes with
  | refused code => exact .refl s
  | read o _ => exact .refl s
  | create content _ => exact later_create s _ content
  | update o content _ => exact later_update s _ content
  | erase o => exact later_erase s _

theorem later_of_requests {s' : Objects M S} (h : KubernetesClient.Later (exec served) s s') :
    Store.Later s s' := by
  induction h with
  | refl => exact .refl s
  | tail _ hlast ih =>
    obtain ⟨request, rfl⟩ := hlast
    exact ih.trans (later_exec served _ request)

/-- A write of an object that has another version is refused. -/
theorem modify_stale {admitted : Content M S → Option (Content M S)}
    {change : Content M S → Content M S} {o : Stored (Content M S)} {version : String}
    (hobject : s.objects path = some o) (hversion : body.metadata.resourceVersion = some version)
    (hstale : version ≠ numberText o.version) :
    ∃ code, (modify s path body admitted change).1 = .error code := by
  obtain ⟨code, herror⟩ | ⟨o', content, hobject', hversion', -, -⟩ :=
    modify_cases s path body admitted change
  · exact ⟨code, by rw [herror]⟩
  · cases hobject.symm.trans hobject'
    exact absurd (Option.some.inj (hversion.symm.trans hversion')) hstale

theorem modify_absent {admitted : Content M S → Option (Content M S)}
    {change : Content M S → Content M S} (hobject : s.objects path = none) :
    ∃ code, (modify s path body admitted change).1 = .error code := by
  obtain ⟨code, herror⟩ | ⟨o, content, hobject', -, -, -⟩ :=
    modify_cases s path body admitted change
  · exact ⟨code, by rw [herror]⟩
  · cases hobject.symm.trans hobject'

/-- A request that overwrites is refused, or a write of the object of a resource that is served. -/
theorem exec_overwrites (served : Served M S) (s : Objects M S) {request : ApiRequest M S}
    (h : request.Overwrites path body) :
    (∃ code, exec served s request = (.error code, s)) ∨
      ∃ resource change, servedAt served path = some resource ∧
        exec served s request = modify s path body resource.admitted change := by
  cases request with
  | get path => exact h.elim
  | create path body => exact h.elim
  | delete path => exact h.elim
  | replace path' body' =>
    obtain ⟨rfl, rfl⟩ := h
    unfold exec
    dsimp only
    unfold replace
    cases servedAt served path' with
    | none => exact Or.inl ⟨_, rfl⟩
    | some resource => exact Or.inr ⟨resource, _, rfl, rfl⟩
  | replaceStatus path' body' =>
    obtain ⟨rfl, rfl⟩ := h
    unfold exec
    dsimp only
    unfold replaceStatus
    cases servedAt served path' with
    | none => exact Or.inl ⟨_, rfl⟩
    | some resource =>
      dsimp only
      split
      · exact Or.inr ⟨resource, _, rfl, rfl⟩
      · exact Or.inl ⟨_, rfl⟩

theorem replaceStatus_eq {resource : ServedResource M S}
    (hserved : servedAt served path = some resource) (hstatus : resource.statusSubresource = true) :
    exec served s (.replaceStatus path body) =
      modify s path body resource.admitted fun old => ⟨old.main, body.content.status⟩ := by
  show replaceStatus served s path body = _
  unfold replaceStatus
  rw [hserved]
  exact if_pos hstatus

end VersionedServer

open VersionedServer in
/-- The server of versioned objects. -/
def versionedServer {M S : Type} [DecidableEq M] [DecidableEq S] (served : Served M S) :
    ApiServer M S where
  served := served
  Store := Objects M S
  objects s path := (s.objects path).map object
  exec := exec served
  refused _ _ _ := exec_refused
  elsewhere _ _ _ h := congrArg _ (objects_exec_ne h)
  read _ _ := rfl
  create_there s path body h := by
    obtain ⟨code, herror⟩ | ⟨content, hnone, -⟩ := create_cases served s path body
    · exact ⟨code, congrArg Prod.fst herror⟩
    · rw [hnone] at h
      exact absurd rfl h
  overwrite_unserved s request path body hrequest hserved := by
    obtain ⟨code, herror⟩ | ⟨resource, change, hsome, -⟩ := exec_overwrites served s hrequest
    · exact ⟨code, congrArg Prod.fst herror⟩
    · cases hserved.symm.trans hsome
  overwrite_absent s request path body hrequest hobject := by
    obtain ⟨code, herror⟩ | ⟨resource, change, -, hwrite⟩ :=
      exec_overwrites served s hrequest
    · exact ⟨code, congrArg Prod.fst herror⟩
    · rw [hwrite]
      exact modify_absent (Option.map_eq_none_iff.1 hobject)
  overwrite_stale s request path body o version hrequest hsome hversion _ hstale := by
    obtain ⟨o, hobject, rfl⟩ := Option.map_eq_some_iff.1 hsome
    obtain ⟨code, herror⟩ | ⟨resource, change, -, hwrite⟩ :=
      exec_overwrites served s hrequest
    · exact ⟨code, congrArg Prod.fst herror⟩
    · rw [hwrite]
      exact modify_stale hobject hversion hstale
  version_ne s path o hobject := by
    obtain ⟨o, -, rfl⟩ := Option.map_eq_some_iff.1 hobject
    exact numberText_ne o.version
  version_unique s s' path o o' hlater hsome hsome' hversion := by
    obtain ⟨o, hobject, rfl⟩ := Option.map_eq_some_iff.1 hsome
    obtain ⟨o', hobject', rfl⟩ := Option.map_eq_some_iff.1 hsome'
    rw [(later_of_requests hlater).eq_of_version hobject hobject' (numberText_injective hversion)]
  status_written s path body resource o answer hserved hstatus hsome hok := by
    obtain ⟨o, hobject, rfl⟩ := Option.map_eq_some_iff.1 hsome
    rw [replaceStatus_eq hserved hstatus] at hok ⊢
    obtain ⟨code, herror⟩ | ⟨o₁, content, hobject₁, -, hadmitted, hwrite⟩ := modify_cases s path body
      resource.admitted fun old => ⟨old.main, body.content.status⟩
    · rw [herror] at hok
      cases hok
    · cases hobject.symm.trans hobject₁
      obtain ⟨o', ho', huid, rfl, hanswer⟩ := answer_update hobject content
      rw [hwrite, hanswer] at hok ⊢
      cases hok
      exact ⟨object o', by rw [ho']; rfl, rfl, congrArg numberText huid, hadmitted⟩
  status_accepted s path body resource o hserved hstatus hsome hnames hadmitted := by
    obtain ⟨o, hobject, rfl⟩ := Option.map_eq_some_iff.1 hsome
    obtain ⟨content, hcontent⟩ := Option.ne_none_iff_exists'.1 hadmitted
    rw [replaceStatus_eq hserved hstatus, modify_ok hobject hnames hcontent]
    obtain ⟨o', -, -, -, hanswer⟩ := answer_update hobject content
    exact ⟨_, by rw [hanswer]⟩

end Sentinel.KubernetesClient
