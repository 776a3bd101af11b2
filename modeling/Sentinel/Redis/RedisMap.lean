import Sentinel.Redis.RedisSync

/-!
# `RedisDictionary` as a dictionary

The abstract dictionary is a partial function from keys to values, with the contract of
`IDictionary<string, TValue>` for every operation (`Allows`, `after`).  The hash represents it by
the JSON forms of its values.

* `represents_step` — an operation answers as the contract says iff it meets the condition
  `Meets`, and then the hash goes on representing the dictionary.
* `refines_iff` — all answers of a sequence of operations are those of the contract iff every
  operation meets the condition when its turn comes.
-/

set_option autoImplicit false

namespace Sentinel.RedisDictionary

open Commands

variable {V : Type}

/-! ## The operations -/

inductive Op (V : Type) where
  | add (key : String) (value : V)
  | setItem (key : String) (value : V)
  | getItem (key : String)
  | remove (key : String)
  | removePair (item : String × V)
  | containsKey (key : String)
  | contains (item : String × V)
  | tryGetValue (key : String)
  | keys
  | values
  | count
  | clear
  | copyTo (array : List (Option (String × V))) (arrayIndex : ℤ)
  | addMultiple (items : List V)
  | addMultiplePairs (items : List (String × V))
  | getEnumerator
  | getEnumeratorNonGeneric

inductive Answer (V : Type) where
  | done
  | bool (b : Bool)
  | value (value : V)
  | found (found : Bool) (value : V)
  | keys (keys : List String)
  | values (values : List V)
  | count (n : ℤ)
  | array (array : List (Option (String × V)))
  | pairs (items : List (String × V))
  | yielded (items : List (Yielded V))

/-- The method of the operation. -/
def Op.program (dic : RedisDictionary V) : Op V → Redis (Answer V)
  | .add key value => do dic.add (some key) value; pure .done
  | .setItem key value => do dic.setItem (some key) value; pure .done
  | .getItem key => do let value ← dic.getItem (some key); pure (.value value)
  | .remove key => do let b ← RedisDictionary.remove (some key); pure (.bool b)
  | .removePair item => do let b ← RedisDictionary.removePair item; pure (.bool b)
  | .containsKey key => do let b ← RedisDictionary.containsKey (some key); pure (.bool b)
  | .contains item => do let b ← RedisDictionary.contains item; pure (.bool b)
  | .tryGetValue key => do let r ← dic.tryGetValue (some key); pure (.found r.1 r.2)
  | .keys => do let ks ← RedisDictionary.keys; pure (.keys ks)
  | .values => do let vs ← dic.values; pure (.values vs)
  | .count => do let n ← RedisDictionary.count; pure (.count n)
  | .clear => do RedisDictionary.clear; pure .done
  | .copyTo array arrayIndex => do
    let array ← RedisDictionary.copyTo array arrayIndex
    pure (.array array)
  | .addMultiple items => do dic.addMultiple items; pure .done
  | .addMultiplePairs items => do dic.addMultiplePairs items; pure .done
  | .getEnumerator => do let items ← dic.getEnumerator; pure (.pairs items)
  | .getEnumeratorNonGeneric => do
    let items ← RedisDictionary.getEnumeratorNonGeneric
    pure (.yielded items)

/-! ## The contract -/

/-- A dictionary: every key has a value or none. -/
abbrev Dict (V : Type) := String → Option V

/-- The list has every pair of the dictionary once. -/
structure Pairs (m : Dict V) (items : List (String × V)) : Prop where
  nodup : (items.map Prod.fst).Nodup
  mem_iff : ∀ key value, (key, value) ∈ items ↔ m key = some value

/-- Adding items under their own keys, up to the first null key. -/
def addItems (dic : RedisDictionary V) : List V → Dict V → Dict V
  | [], m => m
  | item :: items, m =>
    match dic.keyValue item with
    | none => m
    | some key => addItems dic items (Function.update m key (some item))

def addPairs (items : List (String × V)) (m : Dict V) : Dict V :=
  items.foldl (fun m item => Function.update m item.1 (some item.2)) m

open Classical in
/-- The dictionary after the operation. -/
noncomputable def Op.after (dic : RedisDictionary V) (m : Dict V) : Op V → Dict V
  | .add key value => Function.update m key (some value)
  | .setItem key value => Function.update m key (some value)
  | .remove key => Function.update m key none
  | .removePair item => if m item.1 = some item.2 then Function.update m item.1 none else m
  | .clear => fun _ => none
  | .addMultiple items => addItems dic items m
  | .addMultiplePairs items => addPairs items m
  | _ => m

/-- The answers the contract allows; a null key is refused with an argument exception. -/
def Op.Allows (dic : RedisDictionary V) (m : Dict V) : Op V → Except Exn (Answer V) → Prop
  | .add _ _, r => r = .ok .done
  | .setItem _ _, r => r = .ok .done
  | .getItem key, r => (∀ value, m key = some value → r = .ok (.value value)) ∧
      (m key = none → r = .error .keyNotFoundException)
  | .remove key, r => ∃ b, r = .ok (.bool b) ∧ (b = true ↔ m key ≠ none)
  | .removePair item, r => ∃ b, r = .ok (.bool b) ∧ (b = true ↔ m item.1 = some item.2)
  | .containsKey key, r => ∃ b, r = .ok (.bool b) ∧ (b = true ↔ m key ≠ none)
  | .contains item, r => ∃ b, r = .ok (.bool b) ∧ (b = true ↔ m item.1 = some item.2)
  | .tryGetValue key, r => (∀ value, m key = some value → r = .ok (.found true value)) ∧
      (m key = none → r = .ok (.found false dic.default))
  | .keys, r => ∃ items, Pairs m items ∧ r = .ok (.keys (items.map Prod.fst))
  | .values, r => ∃ items, Pairs m items ∧ r = .ok (.values (items.map Prod.snd))
  | .count, r => ∃ items, Pairs m items ∧ r = .ok (.count items.length)
  | .clear, r => r = .ok .done
  | .copyTo array arrayIndex, r => ∃ items, Pairs m items ∧
      (arrayIndex < 0 → r = .error .argumentOutOfRangeException) ∧
      (0 ≤ arrayIndex → array.length < arrayIndex + items.length →
        r = .error .argumentException) ∧
      (0 ≤ arrayIndex → arrayIndex + items.length ≤ array.length →
        r = .ok (.array (array.take arrayIndex.toNat ++ items.map some ++
          array.drop (arrayIndex.toNat + items.length))))
  | .addMultiple items, r => ((∀ item ∈ items, dic.keyValue item ≠ none) → r = .ok .done) ∧
      ((∃ item ∈ items, dic.keyValue item = none) → r = .error .argumentException)
  | .addMultiplePairs _, r => r = .ok .done
  | .getEnumerator, r => ∃ items, Pairs m items ∧ r = .ok (.pairs items)
  | .getEnumeratorNonGeneric, r => ∃ items, Pairs m items ∧
      r = .ok (.yielded (items.map .pair))

/-- The condition under which the code keeps the contract. -/
def Op.Meets (m : Dict V) : Op V → Prop
  | .getItem key => m key ≠ none
  | .removePair item => m item.1 ≠ none → m item.1 = some item.2
  | .contains item => m item.1 ≠ none → m item.1 = some item.2
  | .count => ∀ items, Pairs m items → (items.length : ℤ) ≤ intMaxValue
  | .copyTo array arrayIndex => arrayIndex < 0 ∨
      ∀ items, Pairs m items → (array.length : ℤ) < arrayIndex + items.length
  | .getEnumeratorNonGeneric => False
  | _ => True

/-! ## The hash represents the dictionary -/

/-- JSON serialisation round-trips every value. -/
def RoundTrips (dic : RedisDictionary V) : Prop :=
  ∀ value, dic.deserialize (dic.serialize value) = .ok value

variable {dic : RedisDictionary V} {server : RedisServer} {m : Dict V} {h : server.Hash}

def Represents (dic : RedisDictionary V) (h : server.Hash) (m : Dict V) : Prop :=
  ∀ key, server.lookup h key = (m key).map dic.serialize

theorem Represents.isSome (hrep : dic.Represents h m) (key : String) :
    (server.lookup h key).isSome = true ↔ m key ≠ none := by
  rw [hrep key, Option.isSome_map, Option.isSome_iff_ne_none]

theorem Represents.reorder (hrep : dic.Represents h m) : dic.Represents (server.reorder h) m := by
  intro key
  rw [RedisServer.lookup_reorder_eq, hrep key]

theorem Represents.set (hrep : dic.Represents h m) (key : String) (value : V) :
    dic.Represents (server.set h key (dic.serialize value))
      (Function.update m key (some value)) := by
  intro k
  rw [RedisServer.lookup_set_eq, Function.update_apply]
  split
  · rfl
  · exact hrep k

theorem Represents.delete (hrep : dic.Represents h m) (key : String) :
    dic.Represents (server.delete h key) (Function.update m key none) := by
  intro k
  rw [RedisServer.lookup_delete_eq, Function.update_apply]
  split
  · rfl
  · exact hrep k

theorem represents_clear (dic : RedisDictionary V) (h : server.Hash) :
    dic.Represents (server.clear h) fun _ => none := by
  intro k
  rw [RedisServer.lookup_clear_eq]
  rfl

/-- Deleting the key of a pair removes the pair, unless the key holds another value. -/
theorem Represents.deletePair (hrep : dic.Represents h m) {item : String × V}
    (hmeets : m item.1 ≠ none → m item.1 = some item.2) :
    dic.Represents (server.delete h item.1) (Op.after dic m (.removePair item)) := by
  have hdelete : dic.Represents (server.delete h item.1) (Function.update m item.1 none) :=
    hrep.delete item.1
  by_cases hpair : m item.1 = some item.2
  · have hafter : Op.after dic m (.removePair item) = Function.update m item.1 none :=
      if_pos hpair
    rw [hafter]
    exact hdelete
  · have hafter : Op.after dic m (.removePair item) = m := if_neg hpair
    -- the key is not there, so removing it changes nothing
    have hnone : m item.1 = none := by
      by_contra hne
      exact hpair (hmeets hne)
    rw [← hnone, Function.update_eq_self] at hdelete
    rw [hafter]
    exact hdelete

/-- The value a stored text stands for. -/
def decode (dic : RedisDictionary V) (text : String) : V :=
  (dic.deserialize text).toOption.getD dic.default

theorem RoundTrips.decode (hround : dic.RoundTrips) (value : V) :
    dic.decode (dic.serialize value) = value := by
  unfold RedisDictionary.decode
  rw [hround value]
  rfl

/-- The entries of the hash, decoded. -/
def entryPairs (dic : RedisDictionary V) (h : server.Hash) : List (String × V) :=
  (server.read h).entries.map fun e => (e.1, dic.decode e.2)

theorem map_fst_entryPairs (dic : RedisDictionary V) (h : server.Hash) :
    (dic.entryPairs h).map Prod.fst = (server.read h).keys := by
  unfold entryPairs AList.keys List.keys
  rw [List.map_map]
  rfl

theorem length_entryPairs (dic : RedisDictionary V) (h : server.Hash) :
    (dic.entryPairs h).length = (server.read h).entries.length := by
  unfold entryPairs
  rw [List.length_map]

theorem mem_entries {key text : String} :
    (⟨key, text⟩ : Sigma fun _ : String => String) ∈ (server.read h).entries ↔
      server.lookup h key = some text := by
  unfold RedisServer.lookup
  rw [← Option.mem_def, AList.mem_lookup_iff]

theorem Represents.pairs (hround : dic.RoundTrips) (hrep : dic.Represents h m) :
    Pairs m (dic.entryPairs h) := by
  refine ⟨?_, fun key value => ?_⟩
  · rw [map_fst_entryPairs]
    exact (server.read h).keys_nodup
  · unfold entryPairs
    rw [List.mem_map]
    constructor
    · rintro ⟨⟨k, text⟩, hmem, heq⟩
      cases heq
      rw [mem_entries, hrep] at hmem
      obtain ⟨value, hvalue, rfl⟩ := Option.map_eq_some_iff.1 hmem
      rw [hvalue, hround.decode]
    · intro hvalue
      refine ⟨⟨key, dic.serialize value⟩, ?_, by rw [hround.decode]⟩
      rw [mem_entries, hrep, hvalue]
      rfl

/-- All lists of the pairs of a dictionary have one length. -/
theorem Pairs.length_eq {items items' : List (String × V)} (hp : Pairs m items)
    (hp' : Pairs m items') : items.length = items'.length := by
  have hperm : items.Perm items' := by
    rw [List.perm_ext_iff_of_nodup hp.nodup.of_map hp'.nodup.of_map]
    rintro ⟨key, value⟩
    rw [hp.mem_iff, hp'.mem_iff]
  exact hperm.length_eq

/-! ## The loops -/

theorem run_hashGet_bind {α : Type} (key : String) (f : Option String → Redis α) :
    run server.exec (Database.hashGet key >>= f) h =
      run server.exec (f (server.lookup h key)) (server.reorder h) := rfl

theorem mapM_deserialize (hround : dic.RoundTrips) {texts : List String}
    (h : ∀ text ∈ texts, ∃ value, text = dic.serialize value) :
    texts.mapM dic.deserialize = .ok (texts.map dic.decode) := by
  induction texts with
  | nil => rfl
  | cons text texts ih =>
    obtain ⟨⟨value, rfl⟩, hrest⟩ := List.forall_mem_cons.1 h
    rw [List.mapM_cons, ih hrest, hround value, List.map_cons, hround.decode]
    rfl

theorem run_values (hround : dic.RoundTrips) (hrep : dic.Represents h m) :
    run server.exec dic.values h =
      (.ok ((dic.entryPairs h).map Prod.snd), server.reorder h) := by
  have htexts : ∀ text ∈ (server.read h).entries.map Sigma.snd,
      ∃ value, text = dic.serialize value := by
    intro text htext
    obtain ⟨⟨key, text⟩, hmem, rfl⟩ := List.mem_map.1 htext
    rw [mem_entries, hrep] at hmem
    obtain ⟨value, -, hvalue⟩ := Option.map_eq_some_iff.1 hmem
    exact ⟨value, hvalue.symm⟩
  have hmap : ((server.read h).entries.map Sigma.snd).map dic.decode =
      (dic.entryPairs h).map Prod.snd := by
    unfold entryPairs
    rw [List.map_map, List.map_map]
    rfl
  show run server.exec (ofExcept (((server.read h).entries.map Sigma.snd).mapM dic.deserialize))
    (server.reorder h) = _
  rw [mapM_deserialize hround htexts, hmap]
  rfl

/-- The rounds of the enumerator, for keys that are all present. -/
theorem run_enumerate (hround : dic.RoundTrips) {keys : List String}
    (hkeys : ∀ key ∈ keys, m key ≠ none) (hrep : dic.Represents h m) :
    ∃ h', dic.Represents h' m ∧ run server.exec (keys.mapM dic.enumerateKey) h =
      (.ok (keys.map fun key => (key, (m key).getD dic.default)), h') := by
  induction keys generalizing h with
  | nil => exact ⟨h, hrep, rfl⟩
  | cons key keys ih =>
    obtain ⟨hkey, hrest⟩ := List.forall_mem_cons.1 hkeys
    obtain ⟨value, hvalue⟩ := Option.ne_none_iff_exists'.1 hkey
    obtain ⟨h', hrep', hrun⟩ := ih hrest hrep.reorder
    refine ⟨h', hrep', ?_⟩
    have hround₁ : run server.exec (dic.enumerateKey key) h =
        (.ok (key, value), server.reorder h) := by
      show run server.exec ((ofExcept (dic.deserialize ((server.lookup h key).getD ""))) >>=
        fun value => pure (key, value)) (server.reorder h) = _
      rw [hrep key, hvalue, Option.map_some, Option.getD_some, hround value]
      rfl
    rw [List.mapM_cons, run_bind_ok hround₁, run_bind_ok hrun, List.map_cons, hvalue]
    rfl

theorem pairs_keys (hrep : dic.Represents h m) :
    Pairs m ((server.read h).keys.map fun key => (key, (m key).getD dic.default)) := by
  refine ⟨?_, fun key value => ?_⟩
  · have hkeys : ((server.read h).keys.map fun key =>
        (key, (m key).getD dic.default)).map Prod.fst = (server.read h).keys := by
      rw [List.map_map]
      exact List.map_id _
    rw [hkeys]
    exact (server.read h).keys_nodup
  · rw [List.mem_map]
    constructor
    · rintro ⟨k, hk, heq⟩
      rw [RedisServer.mem_keys, hrep.isSome] at hk
      obtain ⟨w, hw⟩ := Option.ne_none_iff_exists'.1 hk
      cases heq
      rw [hw, Option.getD_some]
    · intro hvalue
      refine ⟨key, ?_, by rw [hvalue, Option.getD_some]⟩
      rw [RedisServer.mem_keys, hrep.isSome, hvalue]
      simp

theorem run_addMultiple (items : List V) (hrep : dic.Represents h m) :
    dic.Represents (run server.exec (dic.addMultiple items) h).2 (addItems dic items m) ∧
    ((∀ item ∈ items, dic.keyValue item ≠ none) →
      (run server.exec (dic.addMultiple items) h).1 = .ok ()) ∧
    ((∃ item ∈ items, dic.keyValue item = none) →
      (run server.exec (dic.addMultiple items) h).1 = .error .argumentException) := by
  induction items generalizing h m with
  | nil => exact ⟨hrep, fun _ => rfl, by simp⟩
  | cons item items ih =>
    show dic.Represents (run server.exec (dic.addValue item >>= fun _ => dic.addMultiple items)
        h).2 _ ∧ (_ → (run server.exec (dic.addValue item >>= fun _ => dic.addMultiple items) h).1 =
          _) ∧ (_ → (run server.exec (dic.addValue item >>= fun _ => dic.addMultiple items) h).1 =
          _)
    unfold addItems addValue
    cases hkey : dic.keyValue item with
    | none =>
      have hrun : run server.exec (dic.add none item) h = (.error .argumentException, h) := rfl
      rw [run_bind_error hrun]
      exact ⟨hrep, fun hall => absurd hkey (hall item List.mem_cons_self), fun _ => rfl⟩
    | some key =>
      have hrun : run server.exec (dic.add (some key) item) h =
          (.ok (), server.set h key (dic.serialize item)) := rfl
      rw [run_bind_ok hrun]
      obtain ⟨hrep', hok, herror⟩ := ih (hrep.set key item)
      refine ⟨hrep', fun hall => hok fun p hp => hall p (List.mem_cons_of_mem _ hp), ?_⟩
      rintro ⟨p, hp, hnone⟩
      rcases List.mem_cons.1 hp with rfl | hp
      · rw [hkey] at hnone
        cases hnone
      · exact herror ⟨p, hp, hnone⟩

theorem represents_addPairs (items : List (String × V)) (hrep : dic.Represents h m) :
    dic.Represents ((items.map fun item => (item.1, dic.serialize item.2)).foldl
      (fun h entry => server.set h entry.1 entry.2) h) (addPairs items m) := by
  induction items generalizing h m with
  | nil => exact hrep
  | cons item items ih => exact ih (hrep.set item.1 item.2)

theorem run_addMultiplePairs (items : List (String × V)) (hrep : dic.Represents h m) :
    (run server.exec (dic.addMultiplePairs items) h).1 = .ok () ∧
    dic.Represents (run server.exec (dic.addMultiplePairs items) h).2 (addPairs items m) := by
  unfold addMultiplePairs
  cases items with
  | nil => exact ⟨rfl, hrep⟩
  | cons item items => exact ⟨rfl, represents_addPairs (item :: items) hrep⟩

/-! ## One operation -/

/-- The cast of the length is the length as long as it fits. -/
theorem toInt32_eq_iff (n : ℕ) : toInt32 n = n ↔ (n : ℤ) ≤ intMaxValue := by
  unfold toInt32 intMaxValue
  rw [Int.bmod_def]
  split <;> omega

/-- Asking for a pair by its key alone answers as the contract says iff the key does not hold
another value. -/
theorem exists_bool_iff {key : String} {value : V} {b : Bool} (hb : b = true ↔ m key ≠ none) :
    (∃ b', (.ok (.bool b) : Except Exn (Answer V)) = .ok (.bool b') ∧
      (b' = true ↔ m key = some value)) ↔ (m key ≠ none → m key = some value) := by
  constructor
  · rintro ⟨b', heq, hb'⟩ hne
    cases heq
    exact hb'.1 (hb.2 hne)
  · intro h
    refine ⟨b, rfl, fun htrue => h (hb.1 htrue), fun hsome => hb.2 ?_⟩
    rw [hsome]
    simp

variable (hround : dic.RoundTrips) (hrep : dic.Represents h m)

include hround hrep

theorem run_getItem (key : String) :
    run server.exec (dic.getItem (some key)) h =
      (.ok ((m key).getD dic.default), server.reorder h) := by
  show run server.exec (Database.hashGet key >>= _) h = _
  rw [run_hashGet_bind, hrep key]
  cases m key with
  | none => rfl
  | some value =>
    show run server.exec (ofExcept (dic.deserialize (dic.serialize value))) _ = _
    rw [hround value]
    rfl

theorem run_tryGetValue (key : String) :
    run server.exec (dic.tryGetValue (some key)) h =
      (.ok ((m key).isSome, (m key).getD dic.default), server.reorder h) := by
  show run server.exec (Database.hashGet key >>= _) h = _
  rw [run_hashGet_bind, hrep key]
  cases m key with
  | none => rfl
  | some value =>
    show run server.exec (ofExcept (dic.deserialize (dic.serialize value)) >>= _) _ = _
    rw [hround value]
    rfl

theorem copyTo_step (array : List (Option (String × V))) (arrayIndex : ℤ) :
    (Op.Allows dic m (.copyTo array arrayIndex)
        (run server.exec (Op.program dic (.copyTo array arrayIndex)) h).1 ↔
      Op.Meets m (.copyTo array arrayIndex)) ∧
    (Op.Meets m (.copyTo array arrayIndex) → dic.Represents
      (run server.exec (Op.program dic (.copyTo array arrayIndex)) h).2
      (Op.after dic m (.copyTo array arrayIndex))) := by
  have hpairs := hrep.pairs hround
  have hlength : ((server.read h).entries.map fun e => (e.1, e.2)).length =
      (dic.entryPairs h).length := by
    rw [List.length_map, length_entryPairs]
  have hstart : ∀ {r : Except Exn (Answer V) × server.Hash},
      run server.exec ((if arrayIndex < 0 then .throw .argumentOutOfRangeException
        else if array.length < arrayIndex + ((server.read h).entries.map fun e =>
            (e.1, e.2)).length then .throw .argumentException
        else .throw .arrayTypeMismatchException : Redis (List (Option (String × V)))) >>=
          fun array => pure (.array array)) (server.reorder h) = r →
      run server.exec (Op.program dic (.copyTo array arrayIndex)) h = r := fun hr => hr
  by_cases hneg : arrayIndex < 0
  · have hrun : run server.exec (Op.program dic (.copyTo array arrayIndex)) h =
        (.error .argumentOutOfRangeException, server.reorder h) := hstart (by rw [if_pos hneg]; rfl)
    rw [hrun]
    refine ⟨iff_of_true ⟨_, hpairs, fun _ => rfl, fun hge => ?_, fun hge => ?_⟩ (Or.inl hneg),
      fun _ => hrep.reorder⟩
    · omega
    · omega
  · rw [hlength] at hstart
    by_cases hshort : array.length < arrayIndex + (dic.entryPairs h).length
    · have hrun : run server.exec (Op.program dic (.copyTo array arrayIndex)) h =
          (.error .argumentException, server.reorder h) :=
        hstart (by rw [if_neg hneg, if_pos hshort]; rfl)
      rw [hrun]
      refine ⟨iff_of_true ⟨_, hpairs, fun hlt => absurd hlt hneg, fun _ _ => rfl, fun _ hfits => ?_⟩
        (Or.inr fun items hitems => ?_), fun _ => hrep.reorder⟩
      · omega
      · rwa [hitems.length_eq hpairs]
    · have hrun : run server.exec (Op.program dic (.copyTo array arrayIndex)) h =
          (.error .arrayTypeMismatchException, server.reorder h) :=
        hstart (by rw [if_neg hneg, if_neg hshort]; rfl)
      rw [hrun]
      refine ⟨iff_of_false ?_ ?_, fun _ => hrep.reorder⟩
      · rintro ⟨items, hitems, -, -, hcopied⟩
        rw [hitems.length_eq hpairs] at hcopied
        cases hcopied (by omega) (by omega)
      · rintro (hlt | hshort')
        · exact hneg hlt
        · exact hshort (hshort' _ hpairs)

/-- **One operation.**  It answers as the contract says iff it meets the condition, and then the
hash goes on representing the dictionary. -/
theorem represents_step (op : Op V) :
    (op.Allows dic m (run server.exec (op.program dic) h).1 ↔ op.Meets m) ∧
    (op.Meets m → dic.Represents (run server.exec (op.program dic) h).2 (op.after dic m)) := by
  have hpairs := hrep.pairs hround
  cases op with
  | add key value => exact ⟨iff_of_true rfl trivial, fun _ => hrep.set key value⟩
  | setItem key value => exact ⟨iff_of_true rfl trivial, fun _ => hrep.set key value⟩
  | getItem key =>
    have hrun : run server.exec (Op.program dic (.getItem key)) h =
        (.ok (.value ((m key).getD dic.default)), server.reorder h) :=
      run_bind_ok (run_getItem hround hrep key)
    rw [hrun]
    refine ⟨⟨?_, fun hmeets => ⟨fun value hvalue => ?_, fun hnone => absurd hnone hmeets⟩⟩,
      fun _ => hrep.reorder⟩
    · rintro ⟨-, hmissing⟩ hnone
      cases hmissing hnone
    · rw [hvalue, Option.getD_some]
  | remove key =>
    exact ⟨iff_of_true ⟨_, rfl, hrep.isSome key⟩ trivial, fun _ => hrep.delete key⟩
  | removePair item => exact ⟨exists_bool_iff (hrep.isSome item.1), hrep.deletePair⟩
  | containsKey key =>
    exact ⟨iff_of_true ⟨_, rfl, hrep.isSome key⟩ trivial, fun _ => hrep.reorder⟩
  | contains item => exact ⟨exists_bool_iff (hrep.isSome item.1), fun _ => hrep.reorder⟩
  | tryGetValue key =>
    have hrun : run server.exec (Op.program dic (.tryGetValue key)) h =
        (.ok (.found (m key).isSome ((m key).getD dic.default)), server.reorder h) :=
      run_bind_ok (run_tryGetValue hround hrep key)
    rw [hrun]
    refine ⟨iff_of_true ⟨fun value hvalue => ?_, fun hnone => ?_⟩ trivial, fun _ => hrep.reorder⟩
    · rw [hvalue]
      rfl
    · rw [hnone]
      rfl
  | keys =>
    refine ⟨iff_of_true ⟨dic.entryPairs h, hpairs, ?_⟩ trivial, fun _ => hrep.reorder⟩
    rw [map_fst_entryPairs]
    rfl
  | values =>
    have hrun : run server.exec (Op.program dic .values) h =
        (.ok (.values ((dic.entryPairs h).map Prod.snd)), server.reorder h) :=
      run_bind_ok (run_values hround hrep)
    rw [hrun]
    exact ⟨iff_of_true ⟨_, hpairs, rfl⟩ trivial, fun _ => hrep.reorder⟩
  | count =>
    have hlength := length_entryPairs dic h
    refine ⟨⟨?_, fun hmeets => ⟨_, hpairs, ?_⟩⟩, fun _ => hrep.reorder⟩
    · rintro ⟨items, hitems, heq⟩ items' hitems'
      have heq : (.ok (.count (toInt32 (server.read h).entries.length)) : Except Exn (Answer V)) =
        .ok (.count items.length) := heq
      simp only [Except.ok.injEq, Answer.count.injEq] at heq
      rw [hitems.length_eq hpairs, hlength, toInt32_eq_iff] at heq
      rwa [hitems'.length_eq hpairs, hlength]
    · have hfits := hmeets _ hpairs
      rw [hlength, ← toInt32_eq_iff] at hfits
      show Except.ok (Answer.count (toInt32 (server.read h).entries.length)) = _
      rw [hfits, hlength]
  | clear => exact ⟨iff_of_true rfl trivial, fun _ => represents_clear dic h⟩
  | copyTo array arrayIndex => exact copyTo_step hround hrep array arrayIndex
  | addMultiple items =>
    obtain ⟨hrep', hok, herror⟩ := run_addMultiple items hrep
    cases hresult : run server.exec (dic.addMultiple items) h with
    | mk result h' =>
      rw [hresult] at hrep' hok herror
      cases result with
      | ok a =>
        have hrun : run server.exec (Op.program dic (.addMultiple items)) h = (.ok .done, h') :=
          run_bind_ok hresult
        rw [hrun]
        refine ⟨iff_of_true ⟨fun _ => rfl, fun hnull => ?_⟩ trivial, fun _ => hrep'⟩
        cases herror hnull
      | error e =>
        have hrun : run server.exec (Op.program dic (.addMultiple items)) h = (.error e, h') :=
          run_bind_error hresult
        rw [hrun]
        refine ⟨iff_of_true ⟨fun hall => ?_, fun hnull => ?_⟩ trivial, fun _ => hrep'⟩
        · cases hok hall
        · cases herror hnull
          rfl
  | addMultiplePairs items =>
    obtain ⟨hok, hrep'⟩ := run_addMultiplePairs items hrep
    have hrun : run server.exec (Op.program dic (.addMultiplePairs items)) h =
        (.ok .done, (run server.exec (dic.addMultiplePairs items) h).2) :=
      run_bind_ok (Prod.ext hok rfl)
    rw [hrun]
    exact ⟨iff_of_true rfl trivial, fun _ => hrep'⟩
  | getEnumerator =>
    have hkeys : ∀ key ∈ (server.read h).keys, m key ≠ none :=
      fun key hkey => (hrep.isSome key).1 (RedisServer.mem_keys.1 hkey)
    obtain ⟨h', hrep', hloop⟩ := run_enumerate hround hkeys hrep.reorder
    have hrun : run server.exec (Op.program dic .getEnumerator) h =
        (.ok (.pairs ((server.read h).keys.map fun key => (key, (m key).getD dic.default))), h') :=
      run_bind_ok (p := dic.getEnumerator) (s := h) hloop
    rw [hrun]
    exact ⟨iff_of_true ⟨_, pairs_keys hrep, rfl⟩ trivial, fun _ => hrep'⟩
  | getEnumeratorNonGeneric =>
    refine ⟨iff_of_false ?_ id, fun hmeets => absurd hmeets id⟩
    rintro ⟨items, -, heq⟩
    have heq : (.ok (.yielded [.enumerator]) : Except Exn (Answer V)) =
      .ok (.yielded (items.map .pair)) := heq
    cases items with
    | nil => cases heq
    | cons item items => cases heq

omit hround hrep

/-! ## Sequences of operations -/

/-- The next operation, on the hash and, by the contract, on the dictionary. -/
noncomputable def opStep (server : RedisServer) (dic : RedisDictionary V)
    (s : server.Hash × Dict V) (op : Op V) : Option (server.Hash × Dict V) :=
  some ((run server.exec (op.program dic) s.1).2, op.after dic s.2)

/-- Every operation of the sequence answers as the contract says. -/
def Refines (server : RedisServer) (dic : RedisDictionary V) (ops : List (Op V))
    (s : server.Hash × Dict V) : Prop :=
  Runs.EveryStep (opStep server dic)
    (fun s op _ => op.Allows dic s.2 (run server.exec (op.program dic) s.1).1) ops s

theorem refines_singleton {op : Op V} {s : server.Hash × Dict V} :
    Refines server dic [op] s ↔ op.Allows dic s.2 (run server.exec (op.program dic) s.1).1 := by
  unfold Refines
  rw [Runs.everyStep_cons]
  exact ⟨fun h => (h _ rfl).1, fun h _ _ => ⟨h, Runs.everyStep_nil⟩⟩

/-- `Contains` and `Remove` of a pair whose key holds another value, `CopyTo` with valid
arguments, the non-generic enumeration, and the indexer with a missing key. -/
theorem not_refines_parity :
    let h₀ : RedisServer.lastWritten.Hash := (∅ : Entries).insert "even" "0"
    let m₀ : Dict (Fin 4) := Function.update (fun _ => none) "even" (some 0)
    parity.RoundTrips ∧ parity.Represents h₀ m₀ ∧
      ∀ op ∈ [Op.contains ("even", 2), Op.removePair ("even", 2), Op.copyTo [none] 0,
        Op.getEnumeratorNonGeneric, Op.getItem "odd"],
        ¬ Refines RedisServer.lastWritten parity [op] (h₀, m₀) := by
  intro h₀ m₀
  have hround : parity.RoundTrips := by
    unfold RoundTrips
    decide
  let empty : RedisServer.lastWritten.Hash := (∅ : Entries)
  have hempty : parity.Represents empty fun _ => none := fun key => AList.lookup_empty key
  have hrep : parity.Represents h₀ m₀ := hempty.set "even" 0
  refine ⟨hround, hrep, fun op hop => ?_⟩
  rw [refines_singleton, (represents_step hround hrep op).1]
  have heven : m₀ "even" = some 0 := Function.update_self _ _ _
  have hodd : m₀ "odd" = none := Function.update_of_ne (by decide) _ _
  simp only [List.mem_cons, List.not_mem_nil, or_false] at hop
  rcases hop with rfl | rfl | rfl | rfl | rfl
  · intro hmeets
    cases heven.symm.trans (hmeets (by rw [heven]; simp))
  · intro hmeets
    cases heven.symm.trans (hmeets (by rw [heven]; simp))
  · rintro (hneg | hshort)
    · exact absurd hneg (by decide)
    · have hpairs : Pairs m₀ [("even", 0)] := hrep.pairs hround
      exact absurd (hshort _ hpairs) (by decide)
  · exact id
  · exact fun hmeets => hmeets hodd

/-- **The answers are those of a dictionary** iff every operation of the sequence meets its
condition when its turn comes. -/
theorem refines_iff (server : RedisServer) (dic : RedisDictionary V) (hround : dic.RoundTrips)
    (h₀ : server.Hash) (m₀ : Dict V) (hrep : dic.Represents h₀ m₀) (ops : List (Op V)) :
    Refines server dic ops (h₀, m₀) ↔
      Runs.EveryStep (opStep server dic) (fun s op _ => op.Meets s.2) ops (h₀, m₀) := by
  refine Runs.everyStep_congr_of_step (fun s => dic.Represents s.1 s.2) (fun _ => True) ?_ ?_ hrep
    (fun _ _ => trivial)
  · rintro ⟨h, m⟩ op s₂ hs - hstep hallows
    cases hstep
    obtain ⟨hiff, hnext⟩ := represents_step hround hs op
    exact hnext (hiff.1 hallows)
  · rintro ⟨h, m⟩ op s₂ hs - -
    exact (represents_step hround hs op).1

/-- A digit is added, asked for, enumerated and removed. -/
theorem refines_iff_parity :
    Refines RedisServer.lastWritten parity
      [.add "even" 0, .contains ("even", 0), .getEnumerator, .remove "even", .tryGetValue "even"]
      ((∅ : Entries), fun _ => none) := by
  have hround : parity.RoundTrips := by
    unfold RoundTrips
    decide
  refine (refines_iff RedisServer.lastWritten parity hround (∅ : Entries) (fun _ => none)
    (fun key => AList.lookup_empty key) _).2 ?_
  simp only [Runs.everyStep_cons, opStep, Option.some.injEq, forall_eq', Op.Meets, Op.after,
    true_and, Runs.everyStep_nil, and_true]
  exact fun _ => Function.update_self _ _ _

end Sentinel.RedisDictionary
