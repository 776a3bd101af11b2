import Sentinel.K8s.K8sEventClient

/-!
# How often an event has been counted

Every call lists the events, and then creates an event with Count 1 or sends the Count it has read
plus one.

* `Inv` — a number for each event, how often it has been counted: no Count is larger, and the
  numbers add up to the calls that have returned.
* `step_reread`, `step_create`, `step_patch` — what the three kinds of requests do to it.
* `pool_step` — every request of every call is one of them.
-/

set_option autoImplicit false

namespace Sentinel.K8sEventClient

open Commands Runs

variable {server : EventServer} (nameSpace uid message : String)

/-- The event is about the Uid and the message. -/
def isMatching (e : Corev1Event) : Bool :=
  e.metadata.namespaceProperty == nameSpace &&
    (e.involvedObject.uid == some uid && e.message == some message)

/-- The events of the server about the Uid and the message. -/
def matching (s : server.Store) : List Corev1Event :=
  (server.events s).filter (isMatching nameSpace uid message)

/-- All other events. -/
def others (s : server.Store) : List Corev1Event :=
  (server.events s).filter fun e => !isMatching nameSpace uid message e

/-- The call is about the Uid and the message. -/
structure IsAbout (call : Call) : Prop where
  nameSpace : call.nameSpace = nameSpace
  uid : call.uid = uid
  message : call.message = message

/-- The Counts of the events about the Uid and the message, added up. -/
def total (s : server.Store) : ℤ :=
  ((matching nameSpace uid message s).map fun e => e.count.getD 0).sum

/-- The patch the program sends next, if it sends one: the event and the new Count. -/
def sends : EventApi Corev1Event → Option ((String × String) × Option ℤ)
  | .call (.patch count _ name nameSpace) _ => some ((nameSpace, name), count)
  | _ => none

def returned : EventApi Corev1Event → Bool
  | .ret _ => true
  | _ => false

/-- The program goes on with the event that the list request of its call has found. -/
def HasRead (p : EventApi Corev1Event) (found : Corev1Event) : Prop :=
  ∃ call : Call, call.nameSpace = found.metadata.namespaceProperty ∧
    p = countUpOrCreate call (some found)

/-- A call sends its patch only while the event still has the Count that the call has read, which
is not the largest there is. -/
def CountsUp (pool : server.Store × List (EventApi Corev1Event)) (i : ℕ)
    (_ : server.Store × List (EventApi Corev1Event)) : Prop :=
  ∀ p, pool.2[i]? = some p → (sends p).isSome → ∃ found c, HasRead p found ∧
    found.count = some c ∧ intMinValue ≤ c ∧ c < intMaxValue ∧
    ∃ e ∈ server.events pool.1, e.id = found.id ∧ e.count = some c

variable {nameSpace uid message}

/-! ## The server -/

theorem matching_reread (s : server.Store) :
    (matching nameSpace uid message (server.reread s)).Perm (matching nameSpace uid message s) :=
  (server.events_reread s).filter _

theorem others_reread (s : server.Store) :
    (others nameSpace uid message (server.reread s)).Perm (others nameSpace uid message s) :=
  (server.events_reread s).filter _

theorem patched_id (target : String × String) (count : Option ℤ) (t : DateTime)
    (e : Corev1Event) : (e.patched target count t).id = e.id := by
  unfold Corev1Event.patched
  split
  · rfl
  · rfl

theorem isMatching_patched (target : String × String) (count : Option ℤ) (t : DateTime)
    (e : Corev1Event) : isMatching nameSpace uid message (e.patched target count t) =
      isMatching nameSpace uid message e := by
  unfold Corev1Event.patched
  split
  · rfl
  · rfl

theorem matching_patch (s : server.Store) (target : String × String) (count : Option ℤ)
    (t : DateTime) :
    (matching nameSpace uid message (server.patch s target count t)).Perm
      ((matching nameSpace uid message s).map (Corev1Event.patched target count t)) := by
  have hfilter : ((server.events s).map (Corev1Event.patched target count t)).filter
      (isMatching nameSpace uid message) =
        (matching nameSpace uid message s).map (Corev1Event.patched target count t) := by
    unfold matching
    rw [List.filter_map]
    congr 1
    exact List.filter_congr fun e _ => isMatching_patched target count t e
  rw [← hfilter]
  exact (server.events_patch s target count t).filter _

/-- Events have different identities. -/
theorem eq_of_id {s : server.Store} {e e' : Corev1Event} (he : e ∈ server.events s)
    (he' : e' ∈ server.events s) (hid : e.id = e'.id) : e = e' :=
  List.inj_on_of_nodup_map (server.distinct s) he he' hid

/-- A patch of a matching event leaves the others alone. -/
theorem others_patch {s : server.Store} {target : String × String} {e : Corev1Event}
    (he : e ∈ matching nameSpace uid message s) (hid : e.id = target) (count : Option ℤ)
    (t : DateTime) : (others nameSpace uid message (server.patch s target count t)).Perm
      (others nameSpace uid message s) := by
  have hfilter : ((server.events s).map (Corev1Event.patched target count t)).filter
      (fun e => !isMatching nameSpace uid message e) = others nameSpace uid message s := by
    rw [List.filter_map]
    have hsame : (server.events s).filter ((fun e => !isMatching nameSpace uid message e) ∘
        Corev1Event.patched target count t) = others nameSpace uid message s :=
      List.filter_congr fun e _ => by
        simp only [Function.comp_apply, isMatching_patched]
    rw [hsame]
    conv_rhs => rw [← List.map_id (others nameSpace uid message s)]
    apply List.map_congr_left
    intro e' he'
    obtain ⟨hmem', hnot⟩ := List.mem_filter.1 he'
    obtain ⟨hmem, hmatch⟩ := List.mem_filter.1 he
    unfold Corev1Event.patched
    rw [if_neg]
    · rfl
    · intro hid'
      rw [eq_of_id hmem' hmem (hid'.trans hid.symm), hmatch] at hnot
      cases hnot
  rw [← hfilter]
  exact (server.events_patch s target count t).filter _

theorem isMatching_newEvent {call : Call} (hcall : IsAbout nameSpace uid message call) :
    isMatching nameSpace uid message (newEvent call) = true := by
  unfold isMatching newEvent
  simp [hcall.nameSpace, hcall.uid, hcall.message]

theorem matching_create {s : server.Store} {call : Call}
    (hcall : IsAbout nameSpace uid message call)
    (hnew : (newEvent call).id ∉ (server.events s).map Corev1Event.id) :
    (matching nameSpace uid message (server.create s (newEvent call))).Perm
      (newEvent call :: matching nameSpace uid message s) := by
  have hfilter := (server.events_create s _ hnew).filter (isMatching nameSpace uid message)
  rwa [List.filter_cons_of_pos (isMatching_newEvent hcall)] at hfilter

theorem others_create {s : server.Store} {call : Call}
    (hcall : IsAbout nameSpace uid message call)
    (hnew : (newEvent call).id ∉ (server.events s).map Corev1Event.id) :
    (others nameSpace uid message (server.create s (newEvent call))).Perm
      (others nameSpace uid message s) := by
  have hfilter := (server.events_create s _ hnew).filter
    fun e => !isMatching nameSpace uid message e
  rwa [List.filter_cons_of_neg (by simp [isMatching_newEvent hcall])] at hfilter

/-! ## The programs -/

theorem countUpOrCreateEvent_eq (call : Call) : countUpOrCreateEvent call =
    .call (.list call.nameSpace) fun events => countUpOrCreate call
      (events.find? fun p => p.involvedObject.uid == some call.uid &&
        p.message == some call.message) := rfl

/-- A call finds an event about its Uid and message, if there is any. -/
theorem found_mem {call : Call} (hcall : IsAbout nameSpace uid message call) {s : server.Store}
    {e : Corev1Event}
    (h : ((server.events s).filter fun e =>
      e.metadata.namespaceProperty == call.nameSpace).find? (fun p =>
        p.involvedObject.uid == some call.uid && p.message == some call.message) = some e) :
    e ∈ matching nameSpace uid message s := by
  have hmem := List.mem_filter.1 (List.mem_of_find?_eq_some h)
  have hfound := List.find?_some h
  refine List.mem_filter.2 ⟨hmem.1, ?_⟩
  unfold isMatching
  rw [← hcall.nameSpace, ← hcall.uid, ← hcall.message, hmem.2, hfound]
  rfl

theorem nameSpace_eq {call : Call} (hcall : IsAbout nameSpace uid message call) {s : server.Store}
    {e : Corev1Event} (he : e ∈ matching nameSpace uid message s) : call.nameSpace = e.id.1 := by
  have hmatch := (List.mem_filter.1 he).2
  unfold isMatching at hmatch
  simp only [Bool.and_eq_true, beq_iff_eq] at hmatch
  exact hcall.nameSpace.trans hmatch.1.symm

/-- The second request of a call that has found an event. -/
theorem countUpOrCreate_found {call : Call} (hcall : IsAbout nameSpace uid message call)
    {s : server.Store} {e : Corev1Event} (he : e ∈ matching nameSpace uid message s) :
    countUpOrCreate call (some e) = patchNamespacedEventAsync
      (e.count.map fun count => toInt32 (count + 1)) (call.utcNow 0) e.id.2 e.id.1 := by
  rw [← nameSpace_eq hcall he]
  rfl

theorem HasRead.eq {p : EventApi Corev1Event} {found : Corev1Event} {c : ℤ}
    (h : HasRead p found) (hc : found.count = some c) : ∃ t,
      p = patchNamespacedEventAsync (some (toInt32 (c + 1))) t found.id.2 found.id.1 := by
  obtain ⟨call, hnameSpace, rfl⟩ := h
  refine ⟨call.utcNow 0, ?_⟩
  have hprogram : countUpOrCreate call (some found) = patchNamespacedEventAsync
      (found.count.map fun count => toInt32 (count + 1)) (call.utcNow 0) found.id.2
        call.nameSpace := rfl
  rw [hprogram, hnameSpace, hc]
  rfl

theorem HasRead.sends {p : EventApi Corev1Event} {found : Corev1Event} {c : ℤ}
    (h : HasRead p found) (hc : found.count = some c) :
    sends p = some (found.id, some (toInt32 (c + 1))) := by
  obtain ⟨t, rfl⟩ := h.eq hc
  rfl

/-! ## The invariant -/

variable (nameSpace uid message) in
/-- Where a program may be; `K` tells how often each event has been counted. -/
def Stage (K : String × String → ℤ) (s : server.Store) (p : EventApi Corev1Event) : Prop :=
  (∃ call, IsAbout nameSpace uid message call ∧ p = countUpOrCreateEvent call) ∨
  (∃ call, IsAbout nameSpace uid message call ∧ p = createNewEventAsync call) ∨
  (∃ e ∈ matching nameSpace uid message s, ∃ found c, HasRead p found ∧ found.id = e.id ∧
    found.count = some c ∧ intMinValue ≤ c ∧ c ≤ K e.id) ∨
  (∃ e, p = .ret e) ∨ ∃ x, p = .throw x

variable (nameSpace uid message) in
/-- No Count is larger than `K` tells, and `K` tells of every call that has returned. -/
structure Inv (s₀ : server.Store) (K : String × String → ℤ)
    (pool : server.Store × List (EventApi Corev1Event)) : Prop where
  counts : ∀ e ∈ matching nameSpace uid message pool.1,
    ∃ c, e.count = some c ∧ intMinValue ≤ c ∧ c ≤ K e.id
  total : ((matching nameSpace uid message pool.1).map fun e => K e.id).sum =
    pool.2.countP returned
  stages : ∀ p ∈ pool.2, Stage nameSpace uid message K pool.1 p
  others : (others nameSpace uid message pool.1).Perm (others nameSpace uid message s₀)

variable (nameSpace uid message) in
/-- Every Count is what `K` tells. -/
def Fresh (K : String × String → ℤ) (s : server.Store) : Prop :=
  ∀ e ∈ matching nameSpace uid message s, e.count = some (K e.id)

variable (nameSpace uid message) in
/-- A Count is smaller than `K` tells, and no patch on its way makes up for it. -/
def Stale (K : String × String → ℤ) (pool : server.Store × List (EventApi Corev1Event)) : Prop :=
  ∃ e ∈ matching nameSpace uid message pool.1, (∀ c, e.count = some c → c < K e.id) ∧
    ∀ p ∈ pool.2, ∀ m, sends p = some (e.id, some m) → m ≤ K e.id

variable (nameSpace uid message) in
/-- What a step makes of all this. -/
structure Steps (s₀ : server.Store) (K K' : String × String → ℤ)
    (pool : server.Store × List (EventApi Corev1Event)) (i : ℕ)
    (pool' : server.Store × List (EventApi Corev1Event)) : Prop where
  inv : Inv nameSpace uid message s₀ K' pool'
  fresh : Fresh nameSpace uid message K pool.1 → CountsUp pool i pool' →
    Fresh nameSpace uid message K' pool'.1
  lost : Fresh nameSpace uid message K pool.1 → ¬ CountsUp pool i pool' →
    Stale nameSpace uid message K' pool'
  stale : Stale nameSpace uid message K pool → Stale nameSpace uid message K' pool'

variable {s₀ s s' : server.Store} {K K' : String × String → ℤ}
  {ps : List (EventApi Corev1Event)} {p q : EventApi Corev1Event} {i : ℕ}

/-- A stage stays one while events stay and `K` grows. -/
theorem Stage.mono (h : Stage nameSpace uid message K s p)
    (hs : ∀ e ∈ matching nameSpace uid message s, K e.id ≤ K' e.id ∧
      ∃ e' ∈ matching nameSpace uid message s', e'.id = e.id) :
    Stage nameSpace uid message K' s' p := by
  rcases h with hcall | hcreate | ⟨e, he, found, c, hread, hfound, hc, hmin, hle⟩ | hret
  · exact Or.inl hcall
  · exact Or.inr (Or.inl hcreate)
  · obtain ⟨hK, e', he', hid⟩ := hs e he
    refine Or.inr (Or.inr (Or.inl ⟨e', he', found, c, hread, hfound.trans hid.symm, hc, hmin, ?_⟩))
    rw [hid]
    exact hle.trans hK
  · exact Or.inr (Or.inr (Or.inr hret))

theorem mem_set {x : EventApi Corev1Event} (h : x ∈ ps.set i q) : x = q ∨ x ∈ ps :=
  (List.mem_or_eq_of_mem_set h).symm

/-- The stages after one program has gone on. -/
theorem stages_set (hstages : ∀ p ∈ ps, Stage nameSpace uid message K s p)
    (hs : ∀ e ∈ matching nameSpace uid message s, K e.id ≤ K' e.id ∧
      ∃ e' ∈ matching nameSpace uid message s', e'.id = e.id)
    (hq : Stage nameSpace uid message K' s' q) :
    ∀ p ∈ ps.set i q, Stage nameSpace uid message K' s' p := by
  intro p hp
  rcases mem_set hp with rfl | hp
  · exact hq
  · exact (hstages p hp).mono hs

/-- A step that sends no patch. -/
theorem countsUp_of_sends_none {pool' : server.Store × List (EventApi Corev1Event)}
    (hi : ps[i]? = some p) (hsends : sends p = none) : CountsUp (s, ps) i pool' := by
  intro p' hi' hsome
  cases hi.symm.trans hi'
  rw [hsends] at hsome
  cases hsome

/-- The number of programs that have returned. -/
theorem countP_set (hi : ps[i]? = some p) (hp : returned p = false) :
    ((ps.set i q).countP returned : ℤ) =
      ps.countP returned + if returned q = true then 1 else 0 := by
  obtain ⟨hlt, rfl⟩ := List.getElem?_eq_some_iff.1 hi
  rw [List.countP_set hlt, hp, if_neg (by simp), Nat.sub_zero]
  split
  · rfl
  · rfl

/-- The sums of equal numbers over the matching events. -/
theorem sum_perm {l l' : List Corev1Event} (h : l.Perm l') (K : String × String → ℤ) :
    (l.map fun e => K e.id).sum = (l'.map fun e => K e.id).sum :=
  (h.map _).sum_eq

/-- **A step that changes no event.** -/
theorem step_reread (hinv : Inv nameSpace uid message s₀ K (s, ps)) (hi : ps[i]? = some p)
    (hp : returned p = false) (hsends : sends p = none) (hq : returned q = false)
    (hstage : Stage nameSpace uid message K s q)
    (hread : ∀ e ∈ matching nameSpace uid message s, ∀ m, sends q = some (e.id, some m) →
      ∀ c, e.count = some c → m ≤ c + 1) :
    Steps nameSpace uid message s₀ K K (s, ps) i (server.reread s, ps.set i q) := by
  have hperm : (matching nameSpace uid message (server.reread s)).Perm
      (matching nameSpace uid message s) := matching_reread s
  have hkept : ∀ e ∈ matching nameSpace uid message s, K e.id ≤ K e.id ∧
      ∃ e' ∈ matching nameSpace uid message (server.reread s), e'.id = e.id :=
    fun e he => ⟨le_rfl, e, hperm.mem_iff.2 he, rfl⟩
  refine ⟨⟨?_, ?_, ?_, ?_⟩, ?_, ?_, ?_⟩
  · exact fun e he => hinv.counts e (hperm.mem_iff.1 he)
  · show ((matching nameSpace uid message (server.reread s)).map fun e => K e.id).sum = _
    rw [sum_perm hperm K, countP_set hi hp, hq]
    simpa using hinv.total
  · exact stages_set hinv.stages hkept (hstage.mono hkept)
  · exact (others_reread s).trans hinv.others
  · exact fun hfresh _ e he => hfresh e (hperm.mem_iff.1 he)
  · exact fun _ hnot => absurd (countsUp_of_sends_none hi hsends) hnot
  · rintro ⟨e, he, hless, hpending⟩
    refine ⟨e, hperm.mem_iff.2 he, hless, fun x hx m hm => ?_⟩
    rcases mem_set hx with rfl | hx
    · obtain ⟨c, hc, -, -⟩ := hinv.counts e he
      exact (hread e he m hm c hc).trans (Int.add_one_le_of_lt (hless c hc))
    · exact hpending x hx m hm

/-! ### Writing an event -/

section Write

variable {x : Corev1Event} {c v : ℤ}

variable (nameSpace uid message) in
/-- The matching events after `x` has been written with the Count `c`, and the number `v` it has
from then on. -/
structure Writes (K : String × String → ℤ) (s s' : server.Store) (x : Corev1Event) (c v : ℤ) :
    Prop where
  mem : ∀ y, y ∈ matching nameSpace uid message s' ↔
    y = x ∨ y ∈ matching nameSpace uid message s ∧ y.id ≠ x.id
  count : x.count = some c
  min : intMinValue ≤ c
  le : c ≤ v
  grows : ∀ y ∈ matching nameSpace uid message s, y.id = x.id → K x.id ≤ v
  sum : ((matching nameSpace uid message s').map fun e => Function.update K x.id v e.id).sum =
    ((matching nameSpace uid message s).map fun e => K e.id).sum + 1
  others : (others nameSpace uid message s').Perm (others nameSpace uid message s)

/-- Old events are still there, counted as often or more. -/
theorem Writes.kept (h : Writes nameSpace uid message K s s' x c v) :
    ∀ e ∈ matching nameSpace uid message s, K e.id ≤ Function.update K x.id v e.id ∧
      ∃ e' ∈ matching nameSpace uid message s', e'.id = e.id := by
  intro e he
  by_cases hid : e.id = x.id
  · rw [hid, Function.update_self]
    exact ⟨h.grows e he hid, x, (h.mem x).2 (Or.inl rfl), rfl⟩
  · rw [Function.update_of_ne hid]
    exact ⟨le_rfl, e, (h.mem e).2 (Or.inr ⟨he, hid⟩), rfl⟩

theorem Writes.inv (h : Writes nameSpace uid message K s s' x c v)
    (hinv : Inv nameSpace uid message s₀ K (s, ps)) (hi : ps[i]? = some p)
    (hp : returned p = false) (e₀ : Corev1Event) :
    Inv nameSpace uid message s₀ (Function.update K x.id v) (s', ps.set i (.ret e₀)) := by
  refine ⟨fun y hy => ?_, ?_, ?_, h.others.trans hinv.others⟩
  · rcases (h.mem y).1 hy with rfl | ⟨hy, hid⟩
    · rw [Function.update_self]
      exact ⟨c, h.count, h.min, h.le⟩
    · rw [Function.update_of_ne hid]
      exact hinv.counts y hy
  · rw [countP_set hi hp, ← hinv.total]
    exact h.sum
  · exact stages_set hinv.stages h.kept (Or.inr (Or.inr (Or.inr (Or.inl ⟨e₀, rfl⟩))))

theorem Writes.fresh (h : Writes nameSpace uid message K s s' x c v)
    (hfresh : Fresh nameSpace uid message K s) (hc : c = v) :
    Fresh nameSpace uid message (Function.update K x.id v) s' := by
  intro y hy
  rcases (h.mem y).1 hy with rfl | ⟨hy, hid⟩
  · rw [Function.update_self, h.count, hc]
  · rw [Function.update_of_ne hid]
    exact hfresh y hy

/-- A Count that is too small stays so, if the written one is too small as well. -/
theorem Writes.stale (h : Writes nameSpace uid message K s s' x c v)
    (hstale : Stale nameSpace uid message K (s, ps)) (e₀ : Corev1Event)
    (hless : ∀ e ∈ matching nameSpace uid message s, e.id = x.id →
      (∀ p ∈ ps, ∀ m, sends p = some (e.id, some m) → m ≤ K e.id) → c < v) :
    Stale nameSpace uid message (Function.update K x.id v) (s', ps.set i (.ret e₀)) := by
  obtain ⟨e, he, hsmall, hpending⟩ := hstale
  obtain ⟨hgrows, -⟩ := h.kept e he
  have hpending' : ∀ q ∈ ps.set i (.ret e₀), ∀ m, sends q = some (e.id, some m) →
      m ≤ Function.update K x.id v e.id := by
    intro q hq m hm
    rcases mem_set hq with rfl | hq
    · cases hm
    · exact (hpending q hq m hm).trans hgrows
  by_cases hid : e.id = x.id
  · refine ⟨x, (h.mem x).2 (Or.inl rfl), fun c' hc' => ?_, hid ▸ hpending'⟩
    cases h.count.symm.trans hc'
    rw [Function.update_self]
    exact hless e he hid hpending
  · refine ⟨e, (h.mem e).2 (Or.inr ⟨he, hid⟩), ?_, hpending'⟩
    rw [Function.update_of_ne hid]
    exact hsmall

end Write

theorem writes_create {call : Call} (hcall : IsAbout nameSpace uid message call)
    (hnew : (newEvent call).id ∉ (server.events s).map Corev1Event.id)
    (K : String × String → ℤ) :
    Writes nameSpace uid message K s (server.create s (newEvent call)) (newEvent call) 1 1 := by
  have hperm := matching_create hcall hnew
  have hne : ∀ e ∈ matching nameSpace uid message s, e.id ≠ (newEvent call).id := by
    intro e he hid
    refine hnew ?_
    rw [← hid]
    exact List.mem_map_of_mem (List.mem_filter.1 he).1
  have hother : ∀ e ∈ matching nameSpace uid message s,
      Function.update K (newEvent call).id 1 e.id = K e.id :=
    fun e he => Function.update_of_ne (hne e he) _ _
  refine ⟨fun y => ?_, rfl, by decide, le_rfl, fun y hy hid => (hne y hy hid).elim, ?_,
    others_create hcall hnew⟩
  · rw [hperm.mem_iff, List.mem_cons]
    exact or_congr_right ⟨fun hy => ⟨hy, hne y hy⟩, And.left⟩
  · rw [sum_perm hperm, List.map_cons, List.sum_cons, Function.update_self,
      List.map_congr_left hother, add_comm]

/-- **A step that creates an event.** -/
theorem step_create {call : Call} (hinv : Inv nameSpace uid message s₀ K (s, ps))
    (hcall : IsAbout nameSpace uid message call) (hi : ps[i]? = some p)
    (hp : returned p = false) (hsends : sends p = none)
    (hnew : (newEvent call).id ∉ (server.events s).map Corev1Event.id) (e₀ : Corev1Event) :
    Steps nameSpace uid message s₀ K (Function.update K (newEvent call).id 1) (s, ps) i
      (server.create s (newEvent call), ps.set i (.ret e₀)) := by
  have hwrites := writes_create hcall hnew K
  refine ⟨hwrites.inv hinv hi hp e₀, fun hfresh _ => hwrites.fresh hfresh rfl,
    fun _ hnot => absurd (countsUp_of_sends_none hi hsends) hnot, fun hstale => ?_⟩
  refine hwrites.stale hstale e₀ fun e he hid _ => (hnew ?_).elim
  rw [← hid]
  exact List.mem_map_of_mem (List.mem_filter.1 he).1

/-- One more for one event of a list with different identities. -/
theorem sum_update {l : List Corev1Event} (hnodup : (l.map Corev1Event.id).Nodup)
    {e : Corev1Event} (he : e ∈ l) (K : String × String → ℤ) :
    (l.map fun e' => Function.update K e.id (K e.id + 1) e'.id).sum =
      (l.map fun e' => K e'.id).sum + 1 := by
  induction l with
  | nil => cases he
  | cons x l ih =>
    rw [List.map_cons, List.nodup_cons] at hnodup
    rw [List.map_cons, List.map_cons, List.sum_cons, List.sum_cons]
    rcases List.mem_cons.1 he with rfl | he
    · have hother : ∀ e' ∈ l, Function.update K e.id (K e.id + 1) e'.id = K e'.id := by
        intro e' he'
        refine Function.update_of_ne (fun hid => hnodup.1 ?_) _ _
        rw [← hid]
        exact List.mem_map_of_mem he'
      rw [List.map_congr_left hother, Function.update_self]
      ring
    · have hne : x.id ≠ e.id := fun hid => hnodup.1 (hid ▸ List.mem_map_of_mem he)
      rw [ih hnodup.2 he, Function.update_of_ne hne]
      ring

theorem nodup_matching (s : server.Store) :
    ((matching nameSpace uid message s).map Corev1Event.id).Nodup :=
  (server.distinct s).sublist (List.filter_sublist.map _)

theorem Stage.sends_le (h : Stage nameSpace uid message K s p) {target : String × String} {m : ℤ}
    (hsends : sends p = some (target, some m)) : m ≤ K target + 1 := by
  rcases h with ⟨call, -, rfl⟩ | ⟨call, -, rfl⟩ | ⟨e, -, found, c, hread, hid, hc, hmin, hle⟩ |
    ⟨e, rfl⟩ | ⟨x, rfl⟩
  · cases hsends
  · cases hsends
  · rw [hread.sends hc, hid] at hsends
    cases hsends
    exact (toInt32_le (hmin.trans (Int.le_add_one le_rfl))).trans (Int.add_le_add_right hle 1)
  · cases hsends
  · cases hsends

theorem count_patched_self (e : Corev1Event) (count : Option ℤ) (t : DateTime) :
    (e.patched e.id count t).count = count := by
  unfold Corev1Event.patched
  rw [if_pos rfl]

theorem writes_patch {e : Corev1Event} (he : e ∈ matching nameSpace uid message s) {m : ℤ}
    (t : DateTime) (hmin : intMinValue ≤ m) (hm : m ≤ K e.id + 1) :
    Writes nameSpace uid message K s (server.patch s e.id (some m) t)
      (e.patched e.id (some m) t) m (K e.id + 1) := by
  have hperm : (matching nameSpace uid message (server.patch s e.id (some m) t)).Perm
      ((matching nameSpace uid message s).map (Corev1Event.patched e.id (some m) t)) :=
    matching_patch s e.id (some m) t
  have hleft : ∀ y : Corev1Event, y.id ≠ e.id → y.patched e.id (some m) t = y :=
    fun y hid => if_neg hid
  refine ⟨fun y => ?_, count_patched_self e (some m) t, hmin, hm, fun y _ _ => ?_, ?_,
    others_patch he rfl (some m) t⟩
  · rw [hperm.mem_iff, List.mem_map, patched_id]
    constructor
    · rintro ⟨y', hy', rfl⟩
      by_cases hid : y'.id = e.id
      · rw [eq_of_id (List.mem_filter.1 hy').1 (List.mem_filter.1 he).1 hid]
        exact Or.inl rfl
      · rw [hleft y' hid]
        exact Or.inr ⟨hy', hid⟩
    · rintro (rfl | ⟨hy, hid⟩)
      · exact ⟨e, he, rfl⟩
      · exact ⟨y, hy, hleft y hid⟩
  · rw [patched_id]
    exact Int.le_add_one le_rfl
  · rw [patched_id, sum_perm hperm, List.map_map]
    simp only [Function.comp_def, patched_id]
    exact sum_update (nodup_matching s) he K

/-- A patch that counts up sends one more than the Count of the event. -/
theorem sends_of_countsUp {pool' : server.Store × List (EventApi Corev1Event)}
    (hup : CountsUp (s, ps) i pool') (hi : ps[i]? = some p) {e : Corev1Event}
    (he : e ∈ server.events s) {m k : ℤ} (hsends : sends p = some (e.id, some m))
    (hcount : e.count = some k) : m = k + 1 := by
  obtain ⟨found, c, hread, hc, hmin, hmax, e', he', hid, hcount'⟩ :=
    hup p hi (Option.isSome_iff_exists.2 ⟨_, hsends⟩)
  obtain ⟨hsame, hnew⟩ := Prod.mk.inj (Option.some.inj (hsends.symm.trans (hread.sends hc)))
  rw [eq_of_id he' he (hid.trans hsame.symm), hcount] at hcount'
  have hexact : toInt32 (c + 1) = c + 1 :=
    toInt32_of_range (hmin.trans (Int.le_add_one le_rfl)) (Int.add_one_le_of_lt hmax)
  rw [Option.some.inj hnew, hexact, Option.some.inj hcount']

/-- A patch that does not count up sends less than that: it has read an older Count, or the new one
wraps around. -/
theorem sends_lt_of_not_countsUp {pool' : server.Store × List (EventApi Corev1Event)}
    (hnot : ¬ CountsUp (s, ps) i pool') (hi : ps[i]? = some p) {e found : Corev1Event} {c k : ℤ}
    (hread : HasRead p found) (hfound : found.id = e.id) (hc : found.count = some c)
    (hmin : intMinValue ≤ c) (hle : c ≤ k) (he : e ∈ server.events s) (hcount : e.count = some k) :
    toInt32 (c + 1) < k + 1 := by
  have hstep : toInt32 (c + 1) ≤ c + 1 := toInt32_le (hmin.trans (Int.le_add_one le_rfl))
  refine lt_of_le_of_ne (hstep.trans (Int.add_le_add_right hle 1)) fun heq => hnot ?_
  intro p' hi' _
  cases hi.symm.trans hi'
  have hk : c = k := le_antisymm hle (Int.le_of_add_le_add_right (heq.ge.trans hstep))
  have hmax : c + 1 ≤ intMaxValue := by
    rw [hk, ← heq]
    exact toInt32_le_intMaxValue _
  exact ⟨found, c, hread, hc, hmin, Int.lt_of_add_one_le hmax, e, he, hfound.symm,
    hcount.trans (congrArg some hk.symm)⟩

/-- **A step that patches an event.** -/
theorem step_patch (hinv : Inv nameSpace uid message s₀ K (s, ps)) {e : Corev1Event}
    (he : e ∈ matching nameSpace uid message s) {found : Corev1Event} {c : ℤ} (t : DateTime)
    (hi : ps[i]? = some p) (hp : returned p = false) (hread : HasRead p found)
    (hfound : found.id = e.id) (hc : found.count = some c) (hmin : intMinValue ≤ c)
    (hle : c ≤ K e.id) (e₀ : Corev1Event) :
    Steps nameSpace uid message s₀ K (Function.update K e.id (K e.id + 1)) (s, ps) i
      (server.patch s e.id (some (toInt32 (c + 1))) t, ps.set i (.ret e₀)) := by
  have hstep : toInt32 (c + 1) ≤ c + 1 := toInt32_le (hmin.trans (Int.le_add_one le_rfl))
  have hm : toInt32 (c + 1) ≤ K e.id + 1 := hstep.trans (Int.add_le_add_right hle 1)
  have hsends : sends p = some (e.id, some (toInt32 (c + 1))) := hfound ▸ hread.sends hc
  have hwrites := writes_patch he t (intMinValue_le_toInt32 _) hm
  have hid : (e.patched e.id (some (toInt32 (c + 1))) t).id = e.id := patched_id _ _ _ _
  have hsame : ∀ e' ∈ matching nameSpace uid message s, e'.id = e.id → e' = e := fun e' he' =>
    eq_of_id (List.mem_filter.1 he').1 (List.mem_filter.1 he).1
  have hupdate : Function.update K (e.patched e.id (some (toInt32 (c + 1))) t).id (K e.id + 1) =
      Function.update K e.id (K e.id + 1) := by
    rw [hid]
  rw [← hupdate]
  refine ⟨hwrites.inv hinv hi hp e₀, fun hfresh hup => ?_, fun hfresh hnot => ?_,
    fun hstale => hwrites.stale hstale e₀ fun e' he' hid' hpending => ?_⟩
  · refine hwrites.fresh hfresh ?_
    exact sends_of_countsUp hup hi (List.mem_filter.1 he).1 hsends (hfresh e he)
  · have hless : toInt32 (c + 1) < K e.id + 1 :=
      sends_lt_of_not_countsUp hnot hi hread hfound hc hmin hle (List.mem_filter.1 he).1 (hfresh e he)
    refine ⟨_, (hwrites.mem _).2 (Or.inl rfl), fun c hc => ?_, fun x hx m' hm' => ?_⟩
    · cases hwrites.count.symm.trans hc
      rw [Function.update_self]
      exact hless
    · rw [Function.update_self]
      rcases mem_set hx with rfl | hx
      · cases hm'
      · rw [hid] at hm'
        exact (hinv.stages x hx).sends_le hm'
  · -- the patch that is sent now was on its way
    obtain rfl := hsame e' he' (hid'.trans hid)
    exact Int.lt_add_one_of_le (hpending p (List.mem_of_getElem? hi) _ hsends)

/-! ## The requests -/

theorem exec_create_used (s : server.Store) (call : Call)
    (hused : (newEvent call).id ∈ (server.events s).map Corev1Event.id) :
    server.exec s (.create (newEvent call) call.nameSpace) =
      (.error (.exception "Operation returned an invalid status code 'Conflict'"),
        server.reread s) :=
  (if_neg (not_not.2 rfl)).trans (if_pos hused)

theorem exec_create_new (s : server.Store) (call : Call)
    (hnew : (newEvent call).id ∉ (server.events s).map Corev1Event.id) :
    server.exec s (.create (newEvent call) call.nameSpace) =
      (.ok (newEvent call), server.create s (newEvent call)) :=
  (if_neg (not_not.2 rfl)).trans (if_neg hnew)

theorem find?_id {s : server.Store} {e : Corev1Event} (he : e ∈ server.events s) :
    (server.events s).find? (fun e' => e'.id == (e.id.1, e.id.2)) = some e := by
  cases hfind : (server.events s).find? fun e' => e'.id == (e.id.1, e.id.2) with
  | none => exact absurd (List.find?_eq_none.1 hfind e he) (by simp)
  | some e' =>
    have hid : e'.id = e.id := by simpa using List.find?_some hfind
    rw [eq_of_id (List.mem_of_find?_eq_some hfind) he hid]

theorem exec_patch {s : server.Store} {e : Corev1Event} (he : e ∈ server.events s)
    (count : Option ℤ) (t : DateTime) :
    server.exec s (.patch count t e.id.2 e.id.1) =
      (.ok (e.patched e.id count t), server.patch s e.id count t) := by
  unfold EventServer.exec
  simp only [find?_id he]

/-- What a call does after it has listed the events. -/
theorem stage_found {call : Call} (hinv : Inv nameSpace uid message s₀ K (s, ps))
    (hcall : IsAbout nameSpace uid message call) {found : Option Corev1Event}
    (hfound : ∀ e, found = some e → e ∈ matching nameSpace uid message s) :
    returned (countUpOrCreate call found) = false ∧
      Stage nameSpace uid message K s (countUpOrCreate call found) ∧
      ∀ e ∈ matching nameSpace uid message s, ∀ m,
        sends (countUpOrCreate call found) = some (e.id, some m) →
        ∀ c, e.count = some c → m ≤ c + 1 := by
  cases found with
  | none =>
    refine ⟨rfl, Or.inr (Or.inl ⟨call, hcall, rfl⟩), fun e _ m hsends => ?_⟩
    cases hsends
  | some e =>
    have he := hfound e rfl
    obtain ⟨c, hc, hmin, hle⟩ := hinv.counts e he
    have hmem := (List.mem_filter.1 he).1
    have hread : HasRead (countUpOrCreate call (some e)) e := ⟨call, nameSpace_eq hcall he, rfl⟩
    refine ⟨rfl, Or.inr (Or.inr (Or.inl ⟨e, he, e, c, hread, rfl, hc, hmin, hle⟩)),
      fun e' he' m hsends c' hc' => ?_⟩
    rw [hread.sends hc] at hsends
    obtain ⟨hid, hm⟩ := Prod.mk.inj (Option.some.inj hsends)
    rw [eq_of_id (List.mem_filter.1 he').1 hmem hid.symm, hc] at hc'
    cases hc'
    cases hm
    exact toInt32_le (hmin.trans (Int.le_add_one le_rfl))

/-- **One request of one call.** -/
theorem pool_step {pool' : server.Store × List (EventApi Corev1Event)}
    (hinv : Inv nameSpace uid message s₀ K (s, ps))
    (h : poolStep server.exec (s, ps) i = some pool') :
    ∃ K', Steps nameSpace uid message s₀ K K' (s, ps) i pool' := by
  obtain ⟨s', ps'⟩ := pool'
  obtain ⟨c, next, hi, rfl, rfl⟩ := poolStep_cases h
  rcases hinv.stages _ (List.mem_of_getElem? hi) with ⟨call, hcall, heq⟩ | ⟨call, hcall, heq⟩ |
    ⟨e, he, found, count, hread, hid, hcount, hmin, hle⟩ | ⟨e, heq⟩ | ⟨x, heq⟩
  · -- the list of the events
    rw [countUpOrCreateEvent_eq] at heq
    cases heq
    obtain ⟨hret, hstage, hread⟩ := stage_found hinv hcall (fun e he => found_mem hcall he)
    exact ⟨K, step_reread hinv hi rfl rfl hret hstage hread⟩
  · -- a new event
    cases heq
    by_cases hused : (newEvent call).id ∈ (server.events s).map Corev1Event.id
    · rw [exec_create_used s call hused]
      refine ⟨K, step_reread hinv hi rfl rfl rfl
        (Or.inr (Or.inr (Or.inr (Or.inr ⟨_, rfl⟩)))) fun e _ m hsends => ?_⟩
      cases hsends
    · rw [exec_create_new s call hused]
      exact ⟨_, step_create hinv hcall hi rfl rfl hused _⟩
  · -- a patch of an event that is there
    obtain ⟨t, heq⟩ := hread.eq hcount
    rw [hid] at heq
    cases heq
    rw [exec_patch (List.mem_filter.1 he).1]
    exact ⟨_, step_patch hinv he t hi rfl hread hid hcount hmin hle _⟩
  · cases heq
  · cases heq

end Sentinel.K8sEventClient
