import Sentinel.Redis.RedisDictionary

/-!
# `RedisDictionary.Sync`

Both overloads are one program: a snapshot of the keys, a loop that adds items, a fresh list of
the keys, a loop that removes keys.

* `syncProgram_safe` — the rule of that program: an invariant for each of its loops.
* `sync_content` — alone on the hash, the final content and every state in between.
-/

set_option autoImplicit false

namespace Sentinel.RedisDictionary

open Commands

variable {V : Type} (dic : RedisDictionary V) {server : RedisServer}

/-- The digits below four, filed by their parity. -/
def parity : RedisDictionary (Fin 4) where
  serialize := fun n => toString n.val
  deserialize := fun text =>
    match (List.finRange 4).find? (fun n => toString n.val == text) with
    | some n => .ok n
    | none => .error (.exception "Unexpected character encountered while parsing value")
  keyValue := fun n => some (if n.val % 2 = 0 then "even" else "odd")
  default := 0

/-! ## The program of both overloads -/

/-- A round of the first loop; with `keepExisting`, keys of the snapshot are not written. -/
def addRound (keyFunc : V → Option String) (keepExisting : Bool) (snapshot : List String)
    (item : V) : Redis Unit :=
  if keepExisting && snapshot.any (fun p => some p == keyFunc item) then pure ()
  else dic.add (keyFunc item) item

/-- A round of the second loop. -/
def removeRound (keyFunc : V → Option String) (items : List V) (key : String) : Redis Unit :=
  if items.any (fun p => keyFunc p == some key) then pure ()
  else do let _ ← remove (some key)

/-- Both overloads. -/
def syncProgram (keyFunc : V → Option String) (keepExisting : Bool) (items : List V) :
    Redis Unit := do
  let snapshot ← keys
  items.forM (dic.addRound keyFunc keepExisting snapshot)
  let fresh ← keys
  fresh.forM (removeRound keyFunc items)

theorem sync_override (items : List V) :
    dic.sync items true = dic.syncProgram dic.keyValue false items := rfl

theorem sync_keep (items : List V) :
    dic.sync items false = dic.syncProgram dic.keyValue true items := rfl

theorem syncBy_eq (items : List V) (keyFunc : V → Option String) :
    dic.syncBy items keyFunc = dic.syncProgram keyFunc true items := rfl

/-- Some item has the key. -/
def HasKey (keyFunc : V → Option String) (items : List V) (key : String) : Prop :=
  ∃ item ∈ items, keyFunc item = some key

variable {dic} {keyFunc : V → Option String} {keepExisting : Bool} {items : List V}

/-! ### One command -/

section Command

variable {α : Type} {Rely Guar : server.Hash → server.Hash → Prop} {Q : α → server.Hash → Prop}
  {E : Exn → server.Hash → Prop} {h₀ : server.Hash}

theorem keys_safe {f : List String → Redis α}
    (hf : ∀ h, Rely h₀ h → Guar h (server.reorder h) ∧
      Safe server.exec Rely Guar Q E (f (server.read h).keys) (server.reorder h)) :
    Safe server.exec Rely Guar Q E (keys >>= f) h₀ :=
  Safe.call_bind hf

theorem add_safe {key : String} {value : V} {P : server.Hash → Prop}
    (hP : ∀ h h', P h → Rely h h' → P h')
    (hset : ∀ h, Rely h₀ h → Guar h (server.set h key (dic.serialize value)) ∧
      P (server.set h key (dic.serialize value))) :
    Safe server.exec Rely Guar (fun _ => P) E (dic.add (some key) value) h₀ := by
  intro h hrely
  obtain ⟨hguar, hp⟩ := hset h hrely
  exact ⟨hguar, fun h' hrely' => hP _ _ hp hrely'⟩

theorem remove_safe {key : String} {P : server.Hash → Prop}
    (hP : ∀ h h', P h → Rely h h' → P h')
    (hdelete : ∀ h, Rely h₀ h → Guar h (server.delete h key) ∧ P (server.delete h key)) :
    Safe server.exec Rely Guar (fun _ => P) E (do let _ ← remove (some key)) h₀ := by
  intro h hrely
  obtain ⟨hguar, hp⟩ := hdelete h hrely
  exact ⟨hguar, fun h' hrely' => hP _ _ hp hrely'⟩

end Command

/-- **The rule of the program**: `Adding` is the invariant of the first loop, with the snapshot and
the items dealt with, and `Removing` that of the second, with the fresh keys and those dealt
with. -/
theorem syncProgram_safe {Rely Guar : server.Hash → server.Hash → Prop}
    {E : Exn → server.Hash → Prop} (hrefl : ∀ h, Rely h h)
    (Adding : List String → List V → server.Hash → Prop)
    (Removing : List String → List String → server.Hash → Prop) {Done : server.Hash → Prop}
    (hadding : ∀ snapshot done h h', Adding snapshot done h → Rely h h' → Adding snapshot done h')
    (hremoving : ∀ fresh done h h', Removing fresh done h → Rely h h' → Removing fresh done h')
    {h₀ : server.Hash}
    (hstart : ∀ h, Rely h₀ h → Guar h (server.reorder h) ∧
      Adding (server.read h).keys [] (server.reorder h))
    (hnull : ∀ item ∈ items, keyFunc item = none → ∀ h, E .argumentException h)
    (hkeep : ∀ snapshot done item rest key, items = done ++ item :: rest →
      keyFunc item = some key → keepExisting = true → key ∈ snapshot →
      ∀ h, Adding snapshot done h → Adding snapshot (done ++ [item]) h)
    (hadd : ∀ snapshot done item rest key, items = done ++ item :: rest →
      keyFunc item = some key → ¬ (keepExisting = true ∧ key ∈ snapshot) →
      ∀ h, Adding snapshot done h → Guar h (server.set h key (dic.serialize item)) ∧
        Adding snapshot (done ++ [item]) (server.set h key (dic.serialize item)))
    (hfresh : ∀ snapshot h, Adding snapshot items h → Guar h (server.reorder h) ∧
      Removing (server.read h).keys [] (server.reorder h))
    (hstay : ∀ fresh done key rest, fresh = done ++ key :: rest → HasKey keyFunc items key →
      ∀ h, Removing fresh done h → Removing fresh (done ++ [key]) h)
    (hremove : ∀ fresh done key rest, fresh = done ++ key :: rest → ¬ HasKey keyFunc items key →
      ∀ h, Removing fresh done h → Guar h (server.delete h key) ∧
        Removing fresh (done ++ [key]) (server.delete h key))
    (hdone : ∀ fresh h, Removing fresh fresh h → Done h) :
    Safe server.exec Rely Guar (fun _ => Done) E (dic.syncProgram keyFunc keepExisting items)
      h₀ := by
  apply keys_safe
  intro h hrely
  obtain ⟨hguar, hin⟩ := hstart h hrely
  refine ⟨hguar, Safe.bind hrefl
    (Safe.forM hrefl (Adding (server.read h).keys) (hadding _) ?_ hin) ?_⟩
  · intro done item rest hitems h' hin
    unfold addRound
    cases hkey : keyFunc item with
    | none =>
      rw [if_neg (by simp)]
      exact fun h'' _ => hnull item (by rw [hitems]; simp) hkey h''
    | some key =>
      split
      · rename_i hskip
        have hskip : keepExisting = true ∧ key ∈ (server.read h).keys := by simpa using hskip
        exact fun h'' hrely => hadding _ _ _ _
          (hkeep _ done item rest key hitems hkey hskip.1 hskip.2 h' hin) hrely
      · rename_i hskip
        have hskip : ¬ (keepExisting = true ∧ key ∈ (server.read h).keys) := by simpa using hskip
        apply add_safe (hadding _ _)
        intro h'' hrely
        exact hadd _ done item rest key hitems hkey hskip h'' (hadding _ _ _ _ hin hrely)
  · intro _ h₁ hin₁
    apply keys_safe
    intro h₂ hrely₂
    obtain ⟨hguar₂, hin₂⟩ := hfresh _ h₂ (hadding _ _ _ _ hin₁ hrely₂)
    refine ⟨hguar₂, Safe.mono (Safe.forM hrefl (Removing (server.read h₂).keys) (hremoving _) ?_
      hin₂) (fun _ h' hin => hdone _ h' hin) fun e h' he => he⟩
    intro done key rest hkeys h' hin
    unfold removeRound
    split
    · rename_i hany
      have hany : HasKey keyFunc items key := by simpa [HasKey] using hany
      exact fun h'' hrely => hremoving _ _ _ _
        (hstay _ done key rest hkeys hany h' hin) hrely
    · rename_i hany
      have hany : ¬ HasKey keyFunc items key := by simpa [HasKey] using hany
      apply remove_safe (hremoving _ _)
      intro h'' hrely
      exact hremove _ done key rest hkeys hany h'' (hremoving _ _ _ _ hin hrely)

/-- A key of the first items and the next one is a key of the first items, or the next one's. -/
theorem hasKey_snoc {done : List V} {item : V} {key k : String} (hkey : keyFunc item = some key)
    (h : HasKey keyFunc (done ++ [item]) k) : HasKey keyFunc done k ∨ k = key := by
  obtain ⟨p, hp, hpk⟩ := h
  rcases List.mem_append.1 hp with hp | hp
  · exact Or.inl ⟨p, hp, hpk⟩
  · rw [List.mem_singleton.1 hp, hkey] at hpk
    cases hpk
    exact Or.inr rfl

/-! ## Alone on the hash -/

/-- The last item with the key. -/
def lastWith (keyFunc : V → Option String) (items : List V) (key : String) : Option V :=
  (items.filter fun item => keyFunc item == some key).getLast?

theorem lastWith_snoc (done : List V) (item : V) (key : String) :
    lastWith keyFunc (done ++ [item]) key =
      if keyFunc item = some key then some item else lastWith keyFunc done key := by
  unfold lastWith
  rw [List.filter_append]
  by_cases hkey : keyFunc item = some key
  · have hfilter : [item].filter (fun p => keyFunc p == some key) = [item] := by simp [hkey]
    rw [if_pos hkey, hfilter, List.getLast?_concat]
  · have hfilter : [item].filter (fun p => keyFunc p == some key) = [] := by simp [hkey]
    rw [if_neg hkey, hfilter, List.append_nil]

theorem isSome_lastWith {key : String} :
    (lastWith keyFunc items key).isSome = true ↔ HasKey keyFunc items key := by
  unfold lastWith HasKey
  simp

variable (dic keyFunc keepExisting)

/-- The content when the first loop has dealt with the items `done`. -/
def afterAdds (h₀ : server.Hash) (done : List V) (key : String) : Option String :=
  if keepExisting = true ∧ (server.lookup h₀ key).isSome = true then server.lookup h₀ key
  else ((lastWith keyFunc done key).map dic.serialize).or (server.lookup h₀ key)

/-- Nothing that stays is missing, and nothing is there that does not belong. -/
def Between (keyFunc : V → Option String) (items : List V) (h₀ h : server.Hash) : Prop :=
  ∀ key, ((server.lookup h₀ key).isSome = true → HasKey keyFunc items key →
      (server.lookup h key).isSome = true) ∧
    ((server.lookup h key).isSome = true →
      (server.lookup h₀ key).isSome = true ∨ HasKey keyFunc items key)

variable {dic keyFunc keepExisting}

/-- A key that was there keeps its old value whatever items come. -/
theorem afterAdds_keep {h₀ : server.Hash} {done : List V} {item : V} {key : String}
    (hkey : keyFunc item = some key) (hexisting : keepExisting = true)
    (hold : (server.lookup h₀ key).isSome = true) (k : String) :
    dic.afterAdds keyFunc keepExisting h₀ (done ++ [item]) k =
      dic.afterAdds keyFunc keepExisting h₀ done k := by
  unfold afterAdds
  rw [lastWith_snoc, hkey]
  by_cases hk : key = k
  · subst hk
    rw [if_pos ⟨hexisting, hold⟩, if_pos ⟨hexisting, hold⟩]
  · rw [if_neg (show some key ≠ some k by simpa using hk)]

theorem afterAdds_add {h₀ : server.Hash} {done : List V} {item : V} {key : String}
    (hkey : keyFunc item = some key)
    (hnew : ¬ (keepExisting = true ∧ (server.lookup h₀ key).isSome = true)) (k : String) :
    dic.afterAdds keyFunc keepExisting h₀ (done ++ [item]) k =
      if k = key then some (dic.serialize item)
      else dic.afterAdds keyFunc keepExisting h₀ done k := by
  unfold afterAdds
  rw [lastWith_snoc, hkey]
  by_cases hk : key = k
  · subst hk
    rw [if_neg hnew, if_pos rfl, if_pos rfl]
    simp
  · rw [if_neg (Ne.symm hk), if_neg (show some key ≠ some k by simpa using hk)]

theorem between_of_afterAdds {h₀ h : server.Hash} {done rest : List V}
    (h' : ∀ key, server.lookup h key = dic.afterAdds keyFunc keepExisting h₀ done key)
    (hitems : items = done ++ rest) : Between keyFunc items h₀ h := by
  intro key
  rw [h' key]
  unfold afterAdds
  constructor
  · intro hold _
    split
    · exact hold
    · simp [hold]
  · intro hsome
    by_cases hold : (server.lookup h₀ key).isSome = true
    · exact Or.inl hold
    · right
      rw [if_neg (by tauto)] at hsome
      have hlast : (lastWith keyFunc done key).isSome = true := by
        simpa [Option.not_isSome_iff_eq_none.1 hold] using hsome
      obtain ⟨item, hmem, hkey⟩ := isSome_lastWith.1 hlast
      exact ⟨item, by rw [hitems]; exact List.mem_append_left _ hmem, hkey⟩

/-- A key that does not belong may go. -/
theorem Between.delete {h₀ h : server.Hash} {key : String} (h' : Between keyFunc items h₀ h)
    (hnot : ¬ HasKey keyFunc items key) : Between keyFunc items h₀ (server.delete h key) := by
  intro k
  obtain ⟨hkeep, hbelong⟩ := h' k
  rw [RedisServer.lookup_delete_eq]
  by_cases hk : k = key
  · subst hk
    rw [if_pos rfl]
    exact ⟨fun _ hhas => absurd hhas hnot, by simp⟩
  · rw [if_neg hk]
    exact ⟨hkeep, hbelong⟩

/-- **Alone on the hash** the program returns; a key of the items has the content of the first
loop, and every other key is gone. -/
theorem syncProgram_alone (h₀ : server.Hash) (hkeys : ∀ item ∈ items, keyFunc item ≠ none) :
    Safe server.exec Eq (fun _ h => Between keyFunc items h₀ h)
      (fun _ h => ∀ key, (HasKey keyFunc items key →
          server.lookup h key = dic.afterAdds keyFunc keepExisting h₀ items key) ∧
        (¬ HasKey keyFunc items key → server.lookup h key = none))
      (fun _ _ => False) (dic.syncProgram keyFunc keepExisting items) h₀ := by
  apply syncProgram_safe (fun _ => rfl)
    (fun snapshot done h => (∀ key, key ∈ snapshot ↔ (server.lookup h₀ key).isSome = true) ∧
      ∀ key, server.lookup h key = dic.afterAdds keyFunc keepExisting h₀ done key)
    (fun fresh done h => Between keyFunc items h₀ h ∧ ∀ key,
      (HasKey keyFunc items key →
        server.lookup h key = dic.afterAdds keyFunc keepExisting h₀ items key) ∧
      (¬ HasKey keyFunc items key → server.lookup h key = none ∨ key ∈ fresh ∧ key ∉ done))
  · rintro snapshot done h _ hin rfl
    exact hin
  · rintro fresh done h _ hin rfl
    exact hin
  · rintro _ rfl
    have hsame : ∀ key, server.lookup (server.reorder h₀) key =
        dic.afterAdds keyFunc keepExisting h₀ [] key := by
      intro key
      simp [afterAdds, lastWith]
    exact ⟨between_of_afterAdds hsame (List.nil_append items).symm,
      fun key => RedisServer.mem_keys, hsame⟩
  · intro item hmem hnone _
    exact hkeys item hmem hnone
  · rintro snapshot done item rest key - hkey hexisting hmem h ⟨hsnap, hin⟩
    refine ⟨hsnap, fun k => ?_⟩
    rw [hin, afterAdds_keep hkey hexisting ((hsnap key).1 hmem)]
  · rintro snapshot done item rest key hitems hkey hnew h ⟨hsnap, hin⟩
    have hafter : ∀ k, server.lookup (server.set h key (dic.serialize item)) k =
        dic.afterAdds keyFunc keepExisting h₀ (done ++ [item]) k := by
      intro k
      rw [hsnap] at hnew
      rw [RedisServer.lookup_set_eq, hin, afterAdds_add hkey hnew]
    have hprefix : items = done ++ [item] ++ rest := by rw [hitems]; simp
    exact ⟨between_of_afterAdds hafter hprefix, hsnap, hafter⟩
  · rintro snapshot h ⟨hsnap, hin⟩
    have hsame : ∀ key, server.lookup (server.reorder h) key =
        dic.afterAdds keyFunc keepExisting h₀ items key := by
      intro key
      rw [RedisServer.lookup_reorder_eq, hin]
    have hbetween := between_of_afterAdds hsame (List.append_nil items).symm
    refine ⟨hbetween, hbetween, fun key => ⟨fun _ => hsame key, fun _ => ?_⟩⟩
    rw [RedisServer.mem_keys, RedisServer.lookup_reorder_eq]
    cases server.lookup h key with
    | none => exact Or.inl rfl
    | some value => exact Or.inr ⟨rfl, by simp⟩
  · rintro fresh done key rest - hhas h ⟨hbetween, hin⟩
    refine ⟨hbetween, fun k => ⟨(hin k).1, fun hnot => ?_⟩⟩
    rcases (hin k).2 hnot with hnone | ⟨hfresh, hdone⟩
    · exact Or.inl hnone
    · refine Or.inr ⟨hfresh, ?_⟩
      simp only [List.mem_append, List.mem_singleton, not_or]
      refine ⟨hdone, ?_⟩
      rintro rfl
      exact hnot hhas
  · rintro fresh done key rest - hnot h ⟨hbetween, hin⟩
    have hbetween' := hbetween.delete hnot
    refine ⟨hbetween', hbetween', fun k => ?_⟩
    rw [RedisServer.lookup_delete_eq]
    by_cases hk : k = key
    · subst hk
      rw [if_pos rfl]
      exact ⟨fun hhas => absurd hhas hnot, fun _ => Or.inl rfl⟩
    · rw [if_neg hk]
      refine ⟨(hin k).1, fun hnot' => ?_⟩
      rcases (hin k).2 hnot' with hnone | ⟨hfresh, hdone⟩
      · exact Or.inl hnone
      · exact Or.inr ⟨hfresh, by simp [hdone, hk]⟩
  · rintro fresh h ⟨-, hin⟩
    refine fun key => ⟨(hin key).1, fun hnot => ?_⟩
    rcases (hin key).2 hnot with hnone | ⟨hfresh, hdone⟩
    · exact hnone
    · exact absurd hfresh hdone

/-- An overriding call, alone on the hash, leaves the keys of its items. -/
theorem sync_override_keys (h₀ : server.Hash) (hkeys : ∀ item ∈ items, dic.keyValue item ≠ none) :
    ∃ h, run server.exec (dic.sync items true) h₀ = (.ok (), h) ∧
      ∀ key, (server.lookup h key).isSome = true ↔ HasKey dic.keyValue items key := by
  rw [sync_override]
  rcases Safe.run (p := dic.syncProgram dic.keyValue false items) (fun _ => rfl)
    (syncProgram_alone h₀ hkeys) with ⟨_, hok, hcontent⟩ | ⟨e, -, hfalse⟩
  · refine ⟨_, Prod.ext hok rfl, fun key => ?_⟩
    by_cases hhas : HasKey dic.keyValue items key
    · obtain ⟨item, hitem⟩ := Option.isSome_iff_exists.1 (isSome_lastWith.2 hhas)
      rw [(hcontent key).1 hhas]
      simp [afterAdds, hitem, hhas]
    · rw [(hcontent key).2 hhas]
      simp [hhas]
  · exact hfalse.elim

/-- **One call, alone on the hash.** -/
theorem sync_content (server : RedisServer) (dic : RedisDictionary V) (h₀ : server.Hash)
    (items : List V) (hkeys : ∀ item ∈ items, dic.keyValue item ≠ none) :
    -- overriding: the last item of every key, and nothing else
    ((run server.exec (dic.sync items true) h₀).1 = .ok () ∧
      ∀ key, server.lookup (run server.exec (dic.sync items true) h₀).2 key =
        (lastWith dic.keyValue items key).map dic.serialize) ∧
    -- not overriding: both overloads the same; old values stay, new keys get their last item
    (run server.exec (dic.syncBy items dic.keyValue) h₀ =
        run server.exec (dic.sync items false) h₀ ∧
      (run server.exec (dic.sync items false) h₀).1 = .ok () ∧
      ∀ key, ((server.lookup (run server.exec (dic.sync items false) h₀).2 key).isSome = true ↔
          HasKey dic.keyValue items key) ∧
        (HasKey dic.keyValue items key →
          (∀ old, server.lookup h₀ key = some old →
            server.lookup (run server.exec (dic.sync items false) h₀).2 key = some old) ∧
          (server.lookup h₀ key = none →
            server.lookup (run server.exec (dic.sync items false) h₀).2 key =
              (lastWith dic.keyValue items key).map dic.serialize))) ∧
    -- in between: nothing that stays is missing, nothing is there that does not belong
    ∀ program ∈ [dic.sync items true, dic.sync items false, dic.syncBy items dic.keyValue],
      ∀ h ∈ states server.exec program h₀, ∀ key,
        ((server.lookup h₀ key).isSome = true → HasKey dic.keyValue items key →
          (server.lookup h key).isSome = true) ∧
        ((server.lookup h key).isSome = true →
          (server.lookup h₀ key).isSome = true ∨ HasKey dic.keyValue items key) := by
  have hfinal : ∀ keepExisting, ∃ a,
      (run server.exec (dic.syncProgram dic.keyValue keepExisting items) h₀).1 = .ok a ∧
      ∀ key, (HasKey dic.keyValue items key →
          server.lookup (run server.exec (dic.syncProgram dic.keyValue keepExisting items) h₀).2
            key = dic.afterAdds dic.keyValue keepExisting h₀ items key) ∧
        (¬ HasKey dic.keyValue items key → server.lookup (run server.exec
          (dic.syncProgram dic.keyValue keepExisting items) h₀).2 key = none) := by
    intro keepExisting
    rcases (syncProgram_alone h₀ hkeys).run (fun _ => rfl) with h | ⟨e, -, hfalse⟩
    · exact h
    · exact hfalse.elim
  have hbetween : ∀ keepExisting,
      ∀ h ∈ states server.exec (dic.syncProgram dic.keyValue keepExisting items) h₀,
        Between dic.keyValue items h₀ h :=
    fun keepExisting => (syncProgram_alone h₀ hkeys).states (fun _ => rfl)
  have hlast : ∀ key, ¬ HasKey dic.keyValue items key → lastWith dic.keyValue items key = none :=
    fun key hnot => Option.not_isSome_iff_eq_none.1 (isSome_lastWith.not.2 hnot)
  refine ⟨?_, ⟨rfl, ?_⟩, ?_⟩
  · obtain ⟨_, hok, hcontent⟩ := hfinal false
    refine ⟨hok, fun key => ?_⟩
    by_cases hhas : HasKey dic.keyValue items key
    · obtain ⟨item, hitem⟩ := Option.isSome_iff_exists.1 (isSome_lastWith.2 hhas)
      rw [sync_override, (hcontent key).1 hhas]
      simp [afterAdds, hitem]
    · rw [sync_override, (hcontent key).2 hhas, hlast key hhas]
      rfl
  · obtain ⟨_, hok, hcontent⟩ := hfinal true
    refine ⟨hok, fun key => ?_⟩
    rw [sync_keep]
    by_cases hhas : HasKey dic.keyValue items key
    · obtain ⟨item, hitem⟩ := Option.isSome_iff_exists.1 (isSome_lastWith.2 hhas)
      rw [(hcontent key).1 hhas]
      cases hold : server.lookup h₀ key with
      | none => simp [afterAdds, hold, hitem, hhas]
      | some old => simp [afterAdds, hold, hhas]
    · rw [(hcontent key).2 hhas]
      simp [hhas]
  · intro program hprogram
    simp only [List.mem_cons, List.not_mem_nil, or_false] at hprogram
    rcases hprogram with rfl | rfl | rfl
    · exact hbetween false
    · exact hbetween true
    · exact hbetween true

/-- The digits 0, 1 and 2 over an old content: 2 is the last even digit, the old odd digit is
replaced by 1 or stays. -/
theorem sync_content_parity :
    let h₀ : RedisServer.lastWritten.Hash := ((∅ : Entries).insert "odd" "3").insert "old" "3"
    (∀ key, RedisServer.lastWritten.lookup
        (run RedisServer.lastWritten.exec (parity.sync [0, 1, 2] true) h₀).2 key =
          (lastWith parity.keyValue [0, 1, 2] key).map parity.serialize) ∧
      RedisServer.lastWritten.lookup
        (run RedisServer.lastWritten.exec (parity.sync [0, 1, 2] false) h₀).2 "odd" = some "3" := by
  intro h₀
  obtain ⟨⟨-, hoverride⟩, ⟨-, -, hkeep⟩, -⟩ :=
    sync_content RedisServer.lastWritten parity h₀ [0, 1, 2] (by decide)
  exact ⟨hoverride, ((hkeep "odd").2 ⟨1, by decide, rfl⟩).1 "3" (by decide)⟩

end Sentinel.RedisDictionary
