import Sentinel.K8s.EventCounts

/-!
# Calls of `CountUpOrCreateEvent` that interleave

* `run_counts` — over any run, either every patch counted up the Count of its event, and the Counts
  add up to the calls that have returned, or a Count is too small and stays so.
* `sequential_single`, `sequential_countsUp` — calls one after the other never leave two events
  about the Uid and the message, and count up as far as a Count can go.
* `counted_iff` — the Counts add up to the number of calls iff every patch counted up.
-/

set_option autoImplicit false

namespace Sentinel.K8sEventClient

open Commands Runs

variable {server : EventServer} {nameSpace uid message : String} {s₀ s s' : server.Store}
  {K : String × String → ℤ} {calls : List Call} {ps ps' : List (EventApi Corev1Event)}

/-- One call after the other: each lists the events and sends its second request at once. -/
def Sequential (schedule : List ℕ) : Prop :=
  ∃ order : List ℕ, schedule = order.flatMap fun i => [i, i]

/-- What the calls should have made of the events when all of them have returned. -/
structure Counted (nameSpace uid message : String) (calls : List Call) (schedule : List ℕ)
    (s₀ s : server.Store) : Prop where
  total : total nameSpace uid message s = calls.length
  others : (others nameSpace uid message s).Perm (others nameSpace uid message s₀)
  single : Sequential schedule → calls ≠ [] →
    ∃ e, matching nameSpace uid message s = [e] ∧ e.count = some (calls.length : ℤ)

/-! ## Any interleaving -/

theorem inv_start (hstart : matching nameSpace uid message s₀ = [])
    (hcalls : ∀ call ∈ calls, IsAbout nameSpace uid message call) :
    Inv nameSpace uid message s₀ (fun _ => 0) (s₀, calls.map countUpOrCreateEvent) := by
  refine ⟨?_, ?_, ?_, List.Perm.refl _⟩
  · intro e he
    rw [hstart] at he
    cases he
  · have hnone : (calls.map countUpOrCreateEvent).countP returned = 0 := by
      rw [List.countP_eq_zero]
      intro p hp
      obtain ⟨call, -, rfl⟩ := List.mem_map.1 hp
      rw [countUpOrCreateEvent_eq]
      exact Bool.false_ne_true
    rw [hnone]
    show ((matching nameSpace uid message s₀).map fun _ => (0 : ℤ)).sum = _
    rw [hstart]
    rfl
  · intro p hp
    obtain ⟨call, hcall, rfl⟩ := List.mem_map.1 hp
    exact Or.inl ⟨call, hcalls call hcall, rfl⟩

/-- **Any run**: as long as every patch counts up, the Counts are what they should be; once one
does not, a Count stays too small. -/
theorem run_counts (hstart : matching nameSpace uid message s₀ = [])
    (hcalls : ∀ call ∈ calls, IsAbout nameSpace uid message call) {schedule : List ℕ}
    {pool : server.Store × List (EventApi Corev1Event)}
    (hrun : run (poolStep server.exec) schedule (s₀, calls.map countUpOrCreateEvent) =
      some pool) :
    ∃ K, Inv nameSpace uid message s₀ K pool ∧
      (EveryStep (poolStep server.exec) CountsUp schedule (s₀, calls.map countUpOrCreateEvent) ∧
          Fresh nameSpace uid message K pool.1 ∨
        ¬ EveryStep (poolStep server.exec) CountsUp schedule
            (s₀, calls.map countUpOrCreateEvent) ∧
          Stale nameSpace uid message K pool) := by
  refine run_induction (motive := fun schedule pool => ∃ K, Inv nameSpace uid message s₀ K pool ∧
    (EveryStep (poolStep server.exec) CountsUp schedule (s₀, calls.map countUpOrCreateEvent) ∧
        Fresh nameSpace uid message K pool.1 ∨
      ¬ EveryStep (poolStep server.exec) CountsUp schedule (s₀, calls.map countUpOrCreateEvent) ∧
        Stale nameSpace uid message K pool)) ?_ ?_ hrun
  · refine ⟨fun _ => 0, inv_start hstart hcalls, Or.inl ⟨everyStep_nil, fun e he => ?_⟩⟩
    rw [hstart] at he
    cases he
  · intro before pool₁ i pool₂ hbefore ih hstep
    obtain ⟨K, hinv, hcounts⟩ := ih
    obtain ⟨K', hsteps⟩ := pool_step hinv hstep
    refine ⟨K', hsteps.inv, ?_⟩
    rw [everyStep_snoc_of_run hbefore hstep]
    rcases hcounts with ⟨hevery, hfresh⟩ | ⟨hnot, hstale⟩
    · by_cases hup : CountsUp pool₁ i pool₂
      · exact Or.inl ⟨⟨hevery, hup⟩, hsteps.fresh hfresh hup⟩
      · exact Or.inr ⟨fun h => hup h.2, hsteps.lost hfresh hup⟩
    · exact Or.inr ⟨fun h => hnot h.1, hsteps.stale hstale⟩

theorem total_of_fresh (hfresh : Fresh nameSpace uid message K s) :
    total nameSpace uid message s =
      ((matching nameSpace uid message s).map fun e => K e.id).sum := by
  unfold total
  congr 1
  refine List.map_congr_left fun e he => ?_
  rw [hfresh e he]
  rfl

theorem total_lt_of_stale (hinv : Inv nameSpace uid message s₀ K (s, ps))
    (hstale : Stale nameSpace uid message K (s, ps)) :
    total nameSpace uid message s <
      ((matching nameSpace uid message s).map fun e => K e.id).sum := by
  obtain ⟨e, he, hless, -⟩ := hstale
  refine List.sum_lt_sum _ _ (fun e' he' => ?_) ⟨e, he, ?_⟩
  · obtain ⟨c, hc, -, hle⟩ := hinv.counts e' he'
    rw [hc]
    exact hle
  · obtain ⟨c, hc, -, -⟩ := hinv.counts e he
    rw [hc]
    exact hless c hc

/-! ## One call after the other -/

/-- The program has not begun, or has ended. -/
def Waiting (nameSpace uid message : String) (p : EventApi Corev1Event) : Prop :=
  (∃ call, IsAbout nameSpace uid message call ∧ p = countUpOrCreateEvent call) ∨ p.Finished

theorem found_none {call : Call} (hcall : IsAbout nameSpace uid message call)
    (h : ((server.events s).filter fun e =>
      e.metadata.namespaceProperty == call.nameSpace).find? (fun p =>
        p.involvedObject.uid == some call.uid && p.message == some call.message) = none) :
    matching nameSpace uid message s = [] := by
  refine List.filter_eq_nil_iff.2 fun e he hmatch => ?_
  unfold isMatching at hmatch
  rw [Bool.and_eq_true] at hmatch
  rw [hcall.nameSpace, hcall.uid, hcall.message] at h
  exact List.find?_eq_none.1 h e (List.mem_filter.2 ⟨he, hmatch.1⟩) hmatch.2

theorem length_reread (s : server.Store) :
    (matching nameSpace uid message (server.reread s)).length =
      (matching nameSpace uid message s).length :=
  (matching_reread s).length_eq

/-- The second request of a call, right after the first. -/
theorem second_request {call : Call} (hcall : IsAbout nameSpace uid message call)
    {found : Option Corev1Event}
    (hsome : ∀ e, found = some e → e ∈ matching nameSpace uid message s)
    (hnone : found = none → matching nameSpace uid message s = [])
    (hone : (matching nameSpace uid message s).length ≤ 1) :
    ∃ c next, countUpOrCreate call found = .call c next ∧
      (next (server.exec s c).1).Finished ∧
      (matching nameSpace uid message (server.exec s c).2).length ≤ 1 := by
  cases found with
  | none =>
    refine ⟨_, _, rfl, ?_⟩
    by_cases hused : (newEvent call).id ∈ (server.events s).map Corev1Event.id
    · rw [exec_create_used s call hused]
      exact ⟨trivial, (length_reread s).trans_le hone⟩
    · rw [exec_create_new s call hused]
      refine ⟨trivial, ((matching_create hcall hused).length_eq.trans ?_).le⟩
      rw [hnone rfl]
      rfl
  | some e =>
    refine ⟨_, _, countUpOrCreate_found hcall (hsome e rfl), ?_⟩
    rw [exec_patch (List.mem_filter.1 (hsome e rfl)).1]
    refine ⟨trivial, ?_⟩
    rw [(matching_patch s _ _ _).length_eq, List.length_map]
    exact hone

/-- What two steps of one call do. -/
theorem pair_cases {i : ℕ} (hwaiting : ∀ p ∈ ps, Waiting nameSpace uid message p)
    (h : run (poolStep server.exec) [i, i] (s, ps) = some (s', ps')) :
    ∃ call found c next, IsAbout nameSpace uid message call ∧
      ps[i]? = some (countUpOrCreateEvent call) ∧
      (∀ e, found = some e → e ∈ matching nameSpace uid message s) ∧
      (found = none → matching nameSpace uid message s = []) ∧
      countUpOrCreate call found = .call c next ∧
      poolStep server.exec (s, ps) i = some (server.reread s, ps.set i (.call c next)) ∧
      s' = (server.exec (server.reread s) c).2 ∧
      ps' = ps.set i (next (server.exec (server.reread s) c).1) := by
  obtain ⟨⟨s₁, ps₁⟩, hfirst, hrest⟩ := Option.bind_eq_some_iff.1 h
  rw [run_singleton] at hrest
  obtain ⟨c, next, hi, rfl, rfl⟩ := poolStep_cases hfirst
  obtain ⟨c', next', hi', rfl, rfl⟩ := poolStep_cases hrest
  have hlt : i < ps.length := (List.getElem?_eq_some_iff.1 hi).1
  rw [List.getElem?_set_self hlt, Option.some.injEq] at hi'
  rcases hwaiting _ (List.mem_of_getElem? hi) with ⟨call, hcall, heq⟩ | hfinished
  · rw [heq] at hi
    rw [countUpOrCreateEvent_eq] at heq
    cases heq
    refine ⟨call, _, c', next', hcall, hi, fun e he => found_mem hcall he,
      fun hnone => found_none hcall hnone, hi', ?_, rfl, List.set_set ..⟩
    rw [hfirst, ← hi']
    rfl
  · exact hfinished.elim

/-- **One call alone.** -/
theorem pair_single {i : ℕ} (hwaiting : ∀ p ∈ ps, Waiting nameSpace uid message p)
    (hone : (matching nameSpace uid message s).length ≤ 1)
    (h : run (poolStep server.exec) [i, i] (s, ps) = some (s', ps')) :
    (∀ p ∈ ps', Waiting nameSpace uid message p) ∧
      (matching nameSpace uid message s').length ≤ 1 := by
  obtain ⟨call, found, c, next, hcall, -, hsome, hnone, hcount, -, rfl, rfl⟩ :=
    pair_cases hwaiting h
  have hperm : (matching nameSpace uid message (server.reread s)).Perm
      (matching nameSpace uid message s) := matching_reread s
  obtain ⟨c', next', hcount', hfinished, hone'⟩ := second_request hcall
    (s := server.reread s) (fun e he => hperm.mem_iff.2 (hsome e he))
    (fun hno => List.perm_nil.1 (hnone hno ▸ hperm)) ((length_reread s).trans_le hone)
  cases hcount.symm.trans hcount'
  refine ⟨fun p hp => ?_, hone'⟩
  rcases mem_set hp with rfl | hp
  · exact Or.inr hfinished
  · exact hwaiting p hp

/-- **One call after the other** leaves at most one event. -/
theorem sequential_single (order : List ℕ)
    (hwaiting : ∀ p ∈ ps, Waiting nameSpace uid message p)
    (hone : (matching nameSpace uid message s).length ≤ 1)
    (h : run (poolStep server.exec) (order.flatMap fun i => [i, i]) (s, ps) = some (s', ps')) :
    (∀ p ∈ ps', Waiting nameSpace uid message p) ∧
      (matching nameSpace uid message s').length ≤ 1 := by
  induction order generalizing s ps with
  | nil =>
    cases h
    exact ⟨hwaiting, hone⟩
  | cons i order ih =>
    rw [List.flatMap_cons] at h
    obtain ⟨⟨s₁, ps₁⟩, hpair, hrest⟩ := run_append_eq_some h
    obtain ⟨hwaiting₁, hone₁⟩ := pair_single hwaiting hone hpair
    exact ih hwaiting₁ hone₁ hrest

theorem sequential_start (hcalls : ∀ call ∈ calls, IsAbout nameSpace uid message call)
    (hstart : matching nameSpace uid message s₀ = []) (order : List ℕ)
    (hrun : run (poolStep server.exec) (order.flatMap fun i => [i, i])
      (s₀, calls.map countUpOrCreateEvent) = some (s, ps)) :
    (∀ p ∈ ps, Waiting nameSpace uid message p) ∧
      (matching nameSpace uid message s).length ≤ 1 := by
  refine sequential_single order (fun p hp => ?_) (by rw [hstart]; exact Nat.zero_le 1) hrun
  obtain ⟨call, hcall, rfl⟩ := List.mem_map.1 hp
  exact Or.inl ⟨call, hcalls call hcall, rfl⟩

/-- The patch a call sends right after it has listed the events. -/
theorem second_countsUp {call : Call} (hcall : IsAbout nameSpace uid message call)
    (hinv : Inv nameSpace uid message s₀ K (s, ps))
    (hone : (matching nameSpace uid message s).length ≤ 1)
    (hbound : (ps.countP returned : ℤ) < intMaxValue) {found : Option Corev1Event}
    (hfound : ∀ e, found = some e → e ∈ matching nameSpace uid message s)
    (hsends : (sends (countUpOrCreate call found)).isSome) :
    ∃ e ∈ matching nameSpace uid message s, ∃ c, HasRead (countUpOrCreate call found) e ∧
      e.count = some c ∧ intMinValue ≤ c ∧ c < intMaxValue := by
  cases found with
  | none => cases hsends
  | some e =>
    have he := hfound e rfl
    obtain ⟨c, hc, hmin, hle⟩ := hinv.counts e he
    -- the only event has been counted by the calls that have returned
    have hK : K e.id = ps.countP returned := by
      obtain ⟨x, hx⟩ := List.length_eq_one_iff.1
        (le_antisymm hone (List.length_pos_of_mem he))
      have htotal := hinv.total
      rw [hx] at he htotal
      obtain rfl := List.mem_singleton.1 he
      simpa using htotal
    exact ⟨e, hfound e rfl, c, ⟨call, nameSpace_eq hcall (hfound e rfl), rfl⟩, hc, hmin,
      (hle.trans hK.le).trans_lt hbound⟩

/-- A call alone counts up. -/
theorem pair_countsUp {i : ℕ} (hwaiting : ∀ p ∈ ps, Waiting nameSpace uid message p)
    (hinv : Inv nameSpace uid message s₀ K (s, ps))
    (hone : (matching nameSpace uid message s).length ≤ 1)
    (hbound : (ps.length : ℤ) ≤ intMaxValue)
    (h : run (poolStep server.exec) [i, i] (s, ps) = some (s', ps')) :
    EveryStep (poolStep server.exec) CountsUp [i, i] (s, ps) := by
  obtain ⟨call, found, c, next, hcall, hi, hsome, -, hcount, hfirst, -, -⟩ :=
    pair_cases hwaiting h
  have hlt : i < ps.length := (List.getElem?_eq_some_iff.1 hi).1
  have hless : (ps.countP returned : ℤ) < intMaxValue := by
    refine lt_of_lt_of_le (Int.ofNat_lt.2 ?_) hbound
    exact List.countP_lt_length_iff.2 ⟨_, List.mem_of_getElem? hi, rfl⟩
  refine everyStep_cons.2 fun pool₁ hstep₁ => ⟨?_, everyStep_cons.2 fun pool₂ hstep₂ =>
    ⟨?_, everyStep_nil⟩⟩
  · -- the first request is a list
    exact countsUp_of_sends_none hi rfl
  · cases hfirst.symm.trans hstep₁
    intro p hp hsends
    rw [List.getElem?_set_self hlt, Option.some.injEq] at hp
    rw [← hp, ← hcount] at hsends ⊢
    obtain ⟨e, he, n, hread, hn, hmin, hmax⟩ := second_countsUp hcall hinv hone hless hsome hsends
    exact ⟨e, n, hread, hn, hmin, hmax, e,
      (List.mem_filter.1 ((matching_reread s).mem_iff.2 he)).1, rfl, hn⟩

/-- **One call after the other** always counts up, up to the largest Count there is. -/
theorem sequential_countsUp (hcalls : ∀ call ∈ calls, IsAbout nameSpace uid message call)
    (hstart : matching nameSpace uid message s₀ = [])
    (hbound : (calls.length : ℤ) ≤ intMaxValue) (order : List ℕ)
    {pool : server.Store × List (EventApi Corev1Event)}
    (hrun : run (poolStep server.exec) (order.flatMap fun i => [i, i])
      (s₀, calls.map countUpOrCreateEvent) = some pool) :
    EveryStep (poolStep server.exec) CountsUp (order.flatMap fun i => [i, i])
      (s₀, calls.map countUpOrCreateEvent) := by
  induction order using List.reverseRecOn generalizing pool with
  | nil => exact everyStep_nil
  | append_singleton order i ih =>
    rw [List.flatMap_append, List.flatMap_singleton] at hrun ⊢
    obtain ⟨⟨s, ps⟩, hbefore, hpair⟩ := run_append_eq_some hrun
    obtain ⟨hwaiting, hone⟩ := sequential_start hcalls hstart order hbefore
    obtain ⟨K, hinv, -⟩ := run_counts hstart hcalls hbefore
    have hlength : ps.length = calls.length := by
      rw [pool_length hbefore, List.length_map]
    exact everyStep_append hbefore (ih hbefore)
      (pair_countsUp hwaiting hinv hone (by rw [hlength]; exact hbound) hpair)

/-! ## When no call is lost -/

/-- **When no call is lost**: once all calls about a Uid and a message have returned, the Counts
add up to the number of calls, no other event has changed, and calls one after the other have left
one event, iff every patch was sent while its event still had the Count the call had read, and that
Count was not the largest there is. -/
theorem counted_iff (hcalls : ∀ call ∈ calls, IsAbout nameSpace uid message call)
    (hstart : matching nameSpace uid message s₀ = []) {schedule : List ℕ}
    (hrun : run (poolStep server.exec) schedule (s₀, calls.map countUpOrCreateEvent) =
      some (s, ps))
    (hdone : ∀ p ∈ ps, returned p = true) :
    Counted nameSpace uid message calls schedule s₀ s ↔
      EveryStep (poolStep server.exec) CountsUp schedule
        (s₀, calls.map countUpOrCreateEvent) := by
  obtain ⟨K, hinv, hcounts⟩ := run_counts hstart hcalls hrun
  have hall : ps.countP returned = calls.length := by
    rw [List.countP_eq_length.2 hdone, pool_length hrun, List.length_map]
  have hsum : ((matching nameSpace uid message s).map fun e => K e.id).sum = calls.length := by
    rw [← hall]
    exact hinv.total
  rcases hcounts with ⟨hevery, hfresh⟩ | ⟨hnot, hstale⟩
  · refine iff_of_true ⟨?_, hinv.others, ?_⟩ hevery
    · rw [total_of_fresh hfresh, hsum]
    · rintro ⟨order, rfl⟩ hne
      have hone := (sequential_start hcalls hstart order hrun).2
      have hpos : 0 < calls.length := List.length_pos_iff.2 hne
      cases hmatching : matching nameSpace uid message s with
      | nil =>
        -- without an event nothing has been counted
        rw [hmatching] at hsum
        exact absurd hsum.symm (Int.natCast_ne_zero.2 hpos.ne')
      | cons e rest =>
        rw [hmatching] at hone hsum
        obtain rfl : rest = [] := List.eq_nil_of_length_eq_zero (Nat.le_zero.1
          (Nat.le_of_succ_le_succ hone))
        refine ⟨e, rfl, ?_⟩
        rw [hfresh e (hmatching ▸ List.mem_cons_self), ← hsum]
        simp
  · refine iff_of_false (fun hcounted => ?_) hnot
    exact (total_lt_of_stale hinv hstale).ne (hcounted.total.trans hsum.symm)

/-! ## A server that keeps a list -/

theorem nodup_patched {events : List Corev1Event} (h : (events.map Corev1Event.id).Nodup)
    (target : String × String) (count : Option ℤ) (t : DateTime) :
    ((events.map (Corev1Event.patched target count t)).map Corev1Event.id).Nodup := by
  have hids : (events.map (Corev1Event.patched target count t)).map Corev1Event.id =
      events.map Corev1Event.id := by
    rw [List.map_map]
    exact List.map_congr_left fun e _ => patched_id target count t e
  rwa [hids]

theorem any_id_iff {events : List Corev1Event} {e : Corev1Event} :
    events.any (fun x => x.id == e.id) = true ↔ e.id ∈ events.map Corev1Event.id := by
  simp [List.mem_map]

theorem nodup_created {events : List Corev1Event} {e : Corev1Event}
    (h : (events.map Corev1Event.id).Nodup) (hnew : ¬ events.any (fun x => x.id == e.id) = true) :
    ((e :: events).map Corev1Event.id).Nodup :=
  List.nodup_cons.2 ⟨any_id_iff.not.1 hnew, h⟩

/-- A server that keeps its events in a list. -/
def listServer : EventServer where
  Store := {events : List Corev1Event // (events.map Corev1Event.id).Nodup}
  events := Subtype.val
  create s e := if h : s.val.any (fun x => x.id == e.id) = true then s else
    ⟨e :: s.val, nodup_created s.property h⟩
  patch s target count lastTimestamp :=
    ⟨s.val.map (Corev1Event.patched target count lastTimestamp),
      nodup_patched s.property target count lastTimestamp⟩
  reread := id
  distinct s := s.property
  events_create s e h := by
    rw [dif_neg (any_id_iff.not.2 h)]
  events_patch _ _ _ _ := List.Perm.refl _
  events_reread _ := List.Perm.refl _

/-- A call about the same message, under its own identifier. -/
def failedCall (newGuid : String) : Call where
  nameSpace := "sentinel"
  name := "api"
  uid := "5f1d"
  apiVersion := "v1"
  resourceVersion := "1"
  message := "Health check failed"
  kind := "Service"
  reason := "Failed"
  type := "Warning"
  utcNow := fun _ => .minValue
  newGuid

def noEvents : listServer.Store := ⟨[], List.nodup_nil⟩

def threeCalls : List Call := [failedCall "a", failedCall "b", failedCall "c"]

theorem threeCalls_about : ∀ call ∈ threeCalls,
    IsAbout "sentinel" "5f1d" "Health check failed" call := by
  intro call hcall
  simp only [threeCalls, List.mem_cons, List.not_mem_nil, or_false] at hcall
  rcases hcall with rfl | rfl | rfl
  · exact ⟨rfl, rfl, rfl⟩
  · exact ⟨rfl, rfl, rfl⟩
  · exact ⟨rfl, rfl, rfl⟩

/-- Three calls one after the other. -/
theorem counted_iff_oneByOne : ∃ s ps,
    run (poolStep listServer.exec) [0, 0, 1, 1, 2, 2]
      (noEvents, threeCalls.map countUpOrCreateEvent) = some (s, ps) ∧
    Counted "sentinel" "5f1d" "Health check failed" threeCalls [0, 0, 1, 1, 2, 2] noEvents s := by
  have hdone : (run (poolStep listServer.exec) [0, 0, 1, 1, 2, 2]
      (noEvents, threeCalls.map countUpOrCreateEvent)).map (fun pool => pool.2.all returned) =
        some true := by
    decide +kernel
  obtain ⟨⟨s, ps⟩, hrun, hall⟩ := Option.map_eq_some_iff.1 hdone
  refine ⟨s, ps, hrun, (counted_iff threeCalls_about rfl hrun (List.all_eq_true.1 hall)).2 ?_⟩
  exact sequential_countsUp threeCalls_about rfl (by decide) [0, 1, 2] hrun

/-- Two of three calls have read the Count 1 when they send their patches: one is lost. -/
theorem not_counted_overlapping : ∃ s ps,
    run (poolStep listServer.exec) [0, 0, 1, 2, 1, 2]
      (noEvents, threeCalls.map countUpOrCreateEvent) = some (s, ps) ∧
    (∀ p ∈ ps, returned p = true) ∧
    ¬ Counted "sentinel" "5f1d" "Health check failed" threeCalls [0, 0, 1, 2, 1, 2] noEvents
      s := by
  have htwo : (run (poolStep listServer.exec) [0, 0, 1, 2, 1, 2]
      (noEvents, threeCalls.map countUpOrCreateEvent)).map (fun pool => (pool.2.all returned,
        total "sentinel" "5f1d" "Health check failed" pool.1)) = some (true, 2) := by
    decide +kernel
  obtain ⟨⟨s, ps⟩, hrun, htwo⟩ := Option.map_eq_some_iff.1 htwo
  obtain ⟨hall, htotal⟩ := Prod.mk.inj htwo
  refine ⟨s, ps, hrun, List.all_eq_true.1 hall, fun hcounted => ?_⟩
  have hthree := hcounted.total
  rw [htotal] at hthree
  exact absurd hthree (by decide)

end Sentinel.K8sEventClient
