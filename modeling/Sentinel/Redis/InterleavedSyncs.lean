import Sentinel.Redis.RedisSync

/-!
# Interleaved calls of `Sync`

Every call decides what to add and what to remove from keys it has read earlier, while the other
calls write.  A call never removes a key of its own list and never writes a key outside it, and
that is all the calls have to rely on.

* `program_safe` — one call, whatever the others do in between.
* `syncs_spec` — what holds during the run and once every call has returned.
-/

set_option autoImplicit false

namespace Sentinel.RedisDictionary

open Commands

variable {V : Type} {dic : RedisDictionary V} {server : RedisServer}

/-! ## The calls -/

/-- A call of `Sync`, in either overload. -/
inductive SyncCall (V : Type) where
  | sync (items : List V) (overrideExisting : Bool)
  | syncBy (items : List V) (keyFunc : V → Option String)

namespace SyncCall

def items : SyncCall V → List V
  | .sync items _ => items
  | .syncBy items _ => items

/-- The key under which the call stores an item. -/
def keyFunc (dic : RedisDictionary V) : SyncCall V → V → Option String
  | .sync _ _ => dic.keyValue
  | .syncBy _ keyFunc => keyFunc

def program (dic : RedisDictionary V) : SyncCall V → Redis Unit
  | .sync items overrideExisting => dic.sync items overrideExisting
  | .syncBy items keyFunc => dic.syncBy items keyFunc

theorem program_eq (dic : RedisDictionary V) (c : SyncCall V) :
    ∃ keepExisting, c.program dic = dic.syncProgram (c.keyFunc dic) keepExisting c.items := by
  cases c with
  | sync items overrideExisting =>
    cases overrideExisting with
    | true => exact ⟨false, dic.sync_override items⟩
    | false => exact ⟨true, dic.sync_keep items⟩
  | syncBy items keyFunc => exact ⟨true, dic.syncBy_eq items keyFunc⟩

/-- The key occurs in the item list of the call. -/
def Lists (dic : RedisDictionary V) (c : SyncCall V) (key : String) : Prop :=
  HasKey (c.keyFunc dic) c.items key

end SyncCall

/-- The value was taken from an item list with this key. -/
def FromCalls (dic : RedisDictionary V) (calls : List (SyncCall V)) (key value : String) : Prop :=
  ∃ c ∈ calls, ∃ item ∈ c.items, c.keyFunc dic item = some key ∧ value = dic.serialize item

/-! ## Rely and guarantee -/

/-- What the calls together may do to the hash. -/
def Syncing (dic : RedisDictionary V) (calls : List (SyncCall V)) (h h' : server.Hash) : Prop :=
  ∀ key, ((∀ c ∈ calls, c.Lists dic key) → (server.lookup h key).isSome = true →
      (server.lookup h' key).isSome = true) ∧
    ((∀ c ∈ calls, ¬ c.Lists dic key) → server.lookup h key = none →
      server.lookup h' key = none) ∧
    ∀ value, server.lookup h' key = some value →
      server.lookup h key = some value ∨ FromCalls dic calls key value

/-- What a call has reached when it returns. -/
def Synced (dic : RedisDictionary V) (calls : List (SyncCall V)) (h : server.Hash) : Prop :=
  ∀ key, ((∀ c ∈ calls, c.Lists dic key) → (server.lookup h key).isSome = true) ∧
    ((∀ c ∈ calls, ¬ c.Lists dic key) → server.lookup h key = none)

variable {calls : List (SyncCall V)}

theorem syncing_of_lookup {h h' : server.Hash}
    (hsame : ∀ key, server.lookup h' key = server.lookup h key) : Syncing dic calls h h' := by
  intro key
  rw [hsame key]
  exact ⟨fun _ hs => hs, fun _ hn => hn, fun value hv => Or.inl hv⟩

theorem syncing_trans {h₁ h₂ h₃ : server.Hash} (h₁₂ : Syncing dic calls h₁ h₂)
    (h₂₃ : Syncing dic calls h₂ h₃) : Syncing dic calls h₁ h₃ := by
  intro key
  obtain ⟨hkeep, hgone, hvalue⟩ := h₁₂ key
  obtain ⟨hkeep', hgone', hvalue'⟩ := h₂₃ key
  refine ⟨fun hall hs => hkeep' hall (hkeep hall hs), fun hnone hn => hgone' hnone (hgone hnone hn),
    fun value hv => ?_⟩
  rcases hvalue' value hv with hv | hfrom
  · exact hvalue value hv
  · exact Or.inr hfrom

/-- A call writes only its own items. -/
theorem syncing_set {c : SyncCall V} (hc : c ∈ calls) {item : V} (hitem : item ∈ c.items)
    {key : String} (hkey : c.keyFunc dic item = some key) (h : server.Hash) :
    Syncing dic calls h (server.set h key (dic.serialize item)) := by
  intro k
  rw [RedisServer.lookup_set_eq]
  by_cases hk : k = key
  · subst hk
    rw [if_pos rfl]
    refine ⟨fun _ _ => rfl, fun hnone _ => absurd ⟨item, hitem, hkey⟩ (hnone c hc), ?_⟩
    intro value hv
    cases hv
    exact Or.inr ⟨c, hc, item, hitem, hkey, rfl⟩
  · rw [if_neg hk]
    exact ⟨fun _ hs => hs, fun _ hn => hn, fun value hv => Or.inl hv⟩

/-- A call removes only keys that are not in its list. -/
theorem syncing_delete {c : SyncCall V} (hc : c ∈ calls) {key : String}
    (hnot : ¬ c.Lists dic key) (h : server.Hash) :
    Syncing dic calls h (server.delete h key) := by
  intro k
  rw [RedisServer.lookup_delete_eq]
  by_cases hk : k = key
  · subst hk
    rw [if_pos rfl]
    exact ⟨fun hall _ => absurd (hall c hc) hnot, fun _ _ => rfl, by simp⟩
  · rw [if_neg hk]
    exact ⟨fun _ hs => hs, fun _ hn => hn, fun value hv => Or.inl hv⟩

/-- **One call among others**: it does what the calls together may do, and has reached its aim
when it returns. -/
theorem program_safe {c : SyncCall V} (hc : c ∈ calls) (h₀ : server.Hash) :
    Safe server.exec (Syncing dic calls) (Syncing dic calls) (fun _ => Synced dic calls)
      (fun _ _ => ∃ item ∈ c.items, c.keyFunc dic item = none) (c.program dic) h₀ := by
  have hreorder : ∀ h : server.Hash, Syncing dic calls h (server.reorder h) :=
    fun h => syncing_of_lookup (RedisServer.lookup_reorder_eq h)
  obtain ⟨keepExisting, hprogram⟩ := c.program_eq dic
  rw [hprogram]
  apply syncProgram_safe (fun h => syncing_of_lookup fun _ => rfl)
    (fun snapshot done h => ∀ key, (∀ c ∈ calls, c.Lists dic key) →
      (key ∈ snapshot ∨ HasKey (c.keyFunc dic) done key) → (server.lookup h key).isSome = true)
    (fun fresh done h => ∀ key,
      ((∀ c ∈ calls, c.Lists dic key) → (server.lookup h key).isSome = true) ∧
      ((∀ c ∈ calls, ¬ c.Lists dic key) →
        server.lookup h key = none ∨ key ∈ fresh ∧ key ∉ done))
  · exact fun snapshot done h h' hin hrely key hall hmem =>
      (hrely key).1 hall (hin key hall hmem)
  · intro fresh done h h' hin hrely key
    refine ⟨fun hall => (hrely key).1 hall ((hin key).1 hall), fun hnone => ?_⟩
    rcases (hin key).2 hnone with hgone | hleft
    · exact Or.inl ((hrely key).2.1 hnone hgone)
    · exact Or.inr hleft
  · intro h _
    refine ⟨hreorder h, fun key _ hmem => ?_⟩
    rw [RedisServer.lookup_reorder_eq]
    rcases hmem with hmem | ⟨item, hitem, -⟩
    · exact RedisServer.mem_keys.1 hmem
    · cases hitem
  · exact fun item hmem hnone _ => ⟨item, hmem, hnone⟩
  · intro snapshot done item rest key _ hkey _ hmem h hin k hall hk
    refine hin k hall ?_
    rcases hk with hk | hk
    · exact Or.inl hk
    · rcases hasKey_snoc hkey hk with hdone | rfl
      · exact Or.inr hdone
      · -- the item's key was in the snapshot
        exact Or.inl hmem
  · intro snapshot done item rest key hitems hkey _ h hin
    have hitem : item ∈ c.items := by rw [hitems]; simp
    refine ⟨syncing_set hc hitem hkey h, fun k hall hk => ?_⟩
    rw [RedisServer.lookup_set_eq]
    by_cases heq : k = key
    · rw [if_pos heq]
      rfl
    · rw [if_neg heq]
      refine hin k hall ?_
      rcases hk with hk | hk
      · exact Or.inl hk
      · exact Or.inr ((hasKey_snoc hkey hk).resolve_right heq)
  · intro snapshot h hin
    refine ⟨hreorder h, fun key => ?_⟩
    rw [RedisServer.mem_keys, RedisServer.lookup_reorder_eq]
    refine ⟨fun hall => hin key hall (Or.inr (hall c hc)), fun _ => ?_⟩
    cases server.lookup h key with
    | none => exact Or.inl rfl
    | some value => exact Or.inr ⟨rfl, by simp⟩
  · intro fresh done key rest _ hhas h hin k
    refine ⟨(hin k).1, fun hnone => ?_⟩
    rcases (hin k).2 hnone with hgone | ⟨hfresh, hdone⟩
    · exact Or.inl hgone
    · refine Or.inr ⟨hfresh, ?_⟩
      simp only [List.mem_append, List.mem_singleton, not_or]
      refine ⟨hdone, ?_⟩
      rintro rfl
      exact hnone c hc hhas
  · intro fresh done key rest _ hnot h hin
    refine ⟨syncing_delete hc hnot h, fun k => ?_⟩
    rw [RedisServer.lookup_delete_eq]
    by_cases hk : k = key
    · subst hk
      rw [if_pos rfl]
      exact ⟨fun hall => absurd (hall c hc) hnot, fun _ => Or.inl rfl⟩
    · rw [if_neg hk]
      refine ⟨(hin k).1, fun hnone => ?_⟩
      rcases (hin k).2 hnone with hgone | ⟨hfresh, hdone⟩
      · exact Or.inl hgone
      · exact Or.inr ⟨hfresh, by simp [hdone, hk]⟩
  · intro fresh h hin key
    refine ⟨(hin key).1, fun hnone => ?_⟩
    rcases (hin key).2 hnone with hgone | ⟨hfresh, hdone⟩
    · exact hgone
    · exact absurd hfresh hdone

/-- **Any number of calls, their commands interleaved in any order.** -/
theorem syncs_spec (server : RedisServer) (dic : RedisDictionary V) (calls : List (SyncCall V))
    (h₀ h : server.Hash) (schedule : List ℕ) (pool : List (Redis Unit))
    (hrun : Runs.run (poolStep server.exec) schedule (h₀, calls.map (·.program dic)) =
      some (h, pool)) :
    -- at every moment of the run
    (∀ key, (∀ c ∈ calls, c.Lists dic key) → (server.lookup h₀ key).isSome = true →
      (server.lookup h key).isSome = true) ∧
    -- a call without null keys that has finished has returned
    (∀ (i : ℕ) (c : SyncCall V) (p : Redis Unit), calls[i]? = some c → pool[i]? = some p →
      p.Finished →
      (∀ item ∈ c.items, c.keyFunc dic item ≠ none) → p = .ret ()) ∧
    -- once all calls have returned
    (calls ≠ [] → (∀ p ∈ pool, p = .ret ()) → ∀ key,
      ((∀ c ∈ calls, c.Lists dic key) → ∃ value, server.lookup h key = some value ∧
        (server.lookup h₀ key = some value ∨ FromCalls dic calls key value)) ∧
      ((∀ c ∈ calls, ¬ c.Lists dic key) → server.lookup h key = none)) := by
  have hrefl : ∀ h : server.Hash, Syncing dic calls h h :=
    fun h => syncing_of_lookup fun _ => rfl
  have htrans : ∀ h₁ h₂ h₃ : server.Hash, Syncing dic calls h₁ h₂ → Syncing dic calls h₂ h₃ →
      Syncing dic calls h₁ h₃ :=
    fun _ _ _ => syncing_trans
  have hsafe : ∀ (i : ℕ) (p : Redis Unit), (calls.map (·.program dic))[i]? = some p →
      Safe server.exec (Syncing dic calls) (Syncing dic calls) (fun _ => Synced dic calls)
        (fun _ _ => ∀ c : SyncCall V, calls[i]? = some c →
          ∃ item ∈ c.items, c.keyFunc dic item = none) p h₀ := by
    intro i p hp
    rw [List.getElem?_map, Option.map_eq_some_iff] at hp
    obtain ⟨c, hc, rfl⟩ := hp
    refine (program_safe (List.mem_of_getElem? hc) h₀).mono (fun _ _ hq => hq) ?_
    intro e s hnull c' hc'
    rw [hc] at hc'
    cases hc'
    exact hnull
  have hpoolSafe : PoolSafe server.exec (Syncing dic calls) (Syncing dic calls)
      (fun _ _ => Synced dic calls)
      (fun i _ _ => ∀ c : SyncCall V, calls[i]? = some c →
        ∃ item ∈ c.items, c.keyFunc dic item = none) h₀ (h, pool) :=
    pool_safe htrans hrefl (fun _ _ hguar => hguar) hsafe hrun
  obtain ⟨hrely, hpool⟩ := hpoolSafe
  refine ⟨fun key hall hs => (hrely key).1 hall hs, ?_, ?_⟩
  · intro i c p hc hp hfinished hkeys
    have hp := hpool i p hp
    cases p with
    | ret a => rfl
    | throw e =>
      obtain ⟨item, hmem, hnone⟩ := hp h (hrefl h) c hc
      exact absurd hnone (hkeys item hmem)
    | call c next => exact hfinished.elim
  · intro hne hreturned key
    -- the pool has as many programs as there are calls, so there is a first one
    have hlength : pool.length = calls.length := by
      refine Runs.run_invariant (fun pool : server.Hash × List (Redis Unit) =>
        pool.2.length = calls.length) (fun _ => True) ?_ (by simp) (fun _ _ => trivial) hrun
      rintro ⟨s, ps⟩ i ⟨s', ps'⟩ hlen - hstep
      obtain ⟨c, next, -, -, rfl⟩ := poolStep_cases hstep
      simpa using hlen
    have hpos : 0 < pool.length := by
      rw [hlength]
      exact List.length_pos_of_ne_nil hne
    have hfirst : pool[0]? = some (.ret ()) := by
      rw [List.getElem?_eq_getElem hpos, hreturned _ (List.getElem_mem hpos)]
    obtain ⟨hpresent, habsent⟩ := hpool 0 _ hfirst h (hrefl h) key
    refine ⟨fun hall => ?_, habsent⟩
    obtain ⟨value, hvalue⟩ := Option.isSome_iff_exists.1 (hpresent hall)
    exact ⟨value, hvalue, (hrely key).2.2 value hvalue⟩

/-- Two calls that both list an even digit, over an old content that neither lists. -/
theorem syncs_spec_two :
    let calls : List (SyncCall (Fin 4)) := [.sync [0] true, .sync [2, 1] false]
    let h₀ : RedisServer.lastWritten.Hash := ((∅ : Entries).insert "odd" "3").insert "old" "3"
    ∃ h pool, Runs.run (poolStep RedisServer.lastWritten.exec) [1, 0, 0, 1, 1, 0, 0, 0, 1]
        (h₀, calls.map (·.program parity)) = some (h, pool) ∧
      (∃ value, RedisServer.lastWritten.lookup h "even" = some value ∧
        (RedisServer.lastWritten.lookup h₀ "even" = some value ∨
          FromCalls parity calls "even" value)) ∧
      RedisServer.lastWritten.lookup h "old" = none := by
  intro calls h₀
  refine ⟨_, _, rfl, ?_⟩
  obtain ⟨-, -, hdone⟩ := syncs_spec RedisServer.lastWritten parity calls h₀ _
    [1, 0, 0, 1, 1, 0, 0, 0, 1] [.ret (), .ret ()] rfl
  have hdone := hdone (by simp [calls]) (by simp)
  refine ⟨(hdone "even").1 ?_, (hdone "old").2 ?_⟩
  · simp only [calls, List.forall_mem_cons]
    exact ⟨⟨0, by decide, rfl⟩, ⟨2, by decide, rfl⟩, by simp⟩
  · simp only [calls, List.forall_mem_cons]
    refine ⟨?_, ?_, by simp⟩
    · rintro ⟨item, hitem, hkey⟩
      revert item
      decide
    · rintro ⟨item, hitem, hkey⟩
      revert item
      decide

end Sentinel.RedisDictionary
