import Sentinel.Lib.Atomic

/-!
# Programs that keep a log

Every command of a program is worth some events, and the events of all programs together account
for the change of the state, in whatever order the commands came.

* `Logs` — whatever the answers are, the log of a program keeps to a law.
* `Logs.bind`, `Logs.command` — the rules of sequencing and of one command.
* `pool_logs` — the logs of the programs of a pool account for what the pool has done.
* `Prog.lift`, `Logs.lift` — a program over the commands of a part of the server.
-/

set_option autoImplicit false

namespace Commands

variable {C : Type} {R : C → Type} {S E ε α β : Type}

/-- The events account for the change of the state, and their order does not matter. -/
structure Accounting (Accounted : S → List E → S → Prop) : Prop where
  nil : ∀ s, Accounted s [] s
  append : ∀ s₁ s₂ s₃ es es', Accounted s₁ es s₂ → Accounted s₂ es' s₃ → Accounted s₁ (es ++ es') s₃
  perm : ∀ s s' es es', Accounted s es s' → es.Perm es' → Accounted s es' s'

section Logs

variable (exec : S → (c : C) → R c × S) (Accounted : S → List E → S → Prop)

/-- The log keeps to the law, which is told the result once the program has ended. -/
def Logs (law : Option (Except ε α) → List E → Prop) : Prog C R ε α → List E → Prop
  | .ret a, log => law (some (.ok a)) log
  | .throw e, log => law (some (.error e)) log
  | .call c next, log => law none log ∧ ∀ s, ∃ es, Accounted s es (exec s c).2 ∧
      Logs law (next (exec s c).1) (log ++ es)

variable {exec Accounted} {law : Option (Except ε α) → List E → Prop} {log : List E}

/-- **One command** and what comes after it. -/
theorem Logs.command {c : C} {f : R c → Prog C R ε α} (hlaw : law none log)
    (h : ∀ s, ∃ es, Accounted s es (exec s c).2 ∧
      Logs exec Accounted law (f (exec s c).1) (log ++ es)) :
    Logs exec Accounted law (.call c f) log :=
  ⟨hlaw, h⟩

/-- **Sequencing.** -/
theorem Logs.bind {law' : Option (Except ε β) → List E → Prop} {p : Prog C R ε β}
    {f : β → Prog C R ε α} (hp : Logs exec Accounted law' p log)
    (hrunning : ∀ l, law' none l → law none l)
    (herror : ∀ e l, law' (some (.error e)) l → law (some (.error e)) l)
    (hf : ∀ b l, law' (some (.ok b)) l → Logs exec Accounted law (f b) l) :
    Logs exec Accounted law (p >>= f) log := by
  induction p generalizing log with
  | ret b => exact hf b log hp
  | throw e => exact herror e log hp
  | call c next ih =>
    refine ⟨hrunning log hp.1, fun s => ?_⟩
    obtain ⟨es, hes, hnext⟩ := hp.2 s
    exact ⟨es, hes, ih _ hnext⟩

theorem Logs.mono {law' : Option (Except ε α) → List E → Prop} {p : Prog C R ε α}
    (h : Logs exec Accounted law p log) (hlaw : ∀ r l, law r l → law' r l) :
    Logs exec Accounted law' p log := by
  induction p generalizing log with
  | ret a => exact hlaw _ _ h
  | throw e => exact hlaw _ _ h
  | call c next ih =>
    refine ⟨hlaw _ _ h.1, fun s => ?_⟩
    obtain ⟨es, hes, hnext⟩ := h.2 s
    exact ⟨es, hes, ih _ hnext⟩

/-- The law holds all along. -/
theorem Logs.now {p : Prog C R ε α} (h : Logs exec Accounted law p log) : law p.result log := by
  cases p with
  | ret a => exact h
  | throw e => exact h
  | call c next => exact h.1

/-! ## A pool of programs with logs -/

/-- A longer log of one program. -/
theorem flatten_set_perm {logs : List (List E)} {i : ℕ} {log es : List E} (h : logs[i]? = some log) :
    (logs.flatten ++ es).Perm (logs.set i (log ++ es)).flatten := by
  induction logs generalizing i with
  | nil => cases h
  | cons first logs ih =>
    cases i with
    | zero =>
      cases h
      simp only [List.set_cons_zero, List.flatten_cons, List.append_assoc]
      exact List.perm_append_comm.append_left log
    | succ i =>
      simp only [List.set_cons_succ, List.flatten_cons, List.append_assoc]
      exact (ih h).append_left first

/-- What holds of a pool started in `s₀`: every program has a log, and the logs account for the
state. -/
def PoolLogs (exec : S → (c : C) → R c × S) (Accounted : S → List E → S → Prop)
    (law : ℕ → Option (Except ε α) → List E → Prop) (s₀ : S) (pool : S × List (Prog C R ε α)) :
    Prop :=
  ∃ logs : List (List E), logs.length = pool.2.length ∧ Accounted s₀ logs.flatten pool.1 ∧
    ∀ i p log, pool.2[i]? = some p → logs[i]? = some log → Logs exec Accounted (law i) p log

theorem PoolLogs.step {law : ℕ → Option (Except ε α) → List E → Prop}
    (haccounting : Accounting Accounted) {s₀ : S} {pool pool' : S × List (Prog C R ε α)} {i : ℕ}
    (h : PoolLogs exec Accounted law s₀ pool) (hstep : poolStep exec pool i = some pool') :
    PoolLogs exec Accounted law s₀ pool' := by
  obtain ⟨s, ps⟩ := pool
  obtain ⟨s', ps'⟩ := pool'
  obtain ⟨c, next, hi, rfl, rfl⟩ := poolStep_cases hstep
  obtain ⟨logs, hlength, haccounted, hlogs⟩ := h
  simp only at hlength
  have hlt : i < ps.length := (List.getElem?_eq_some_iff.1 hi).1
  have hlt' : i < logs.length := hlength ▸ hlt
  have hlog : logs[i]? = some logs[i] := List.getElem?_eq_getElem hlt'
  obtain ⟨-, hnext⟩ := hlogs i _ _ hi hlog
  obtain ⟨es, hes, hgoes⟩ := hnext s
  refine ⟨logs.set i (logs[i] ++ es), by simp [hlength], ?_, fun j p log hj hl => ?_⟩
  · exact haccounting.perm _ _ _ _ (haccounting.append _ _ _ _ _ haccounted hes)
      (flatten_set_perm hlog)
  · rcases program_cases hj with ⟨rfl, rfl⟩ | ⟨hij, hj⟩
    · rw [List.getElem?_set_self hlt', Option.some.injEq] at hl
      exact hl ▸ hgoes
    · rw [List.getElem?_set_ne hij] at hl
      exact hlogs j p log hj hl

/-- **The logs of the programs account for what the pool has done.** -/
theorem pool_logs {law : ℕ → Option (Except ε α) → List E → Prop}
    (haccounting : Accounting Accounted) {s : S} {ps : List (Prog C R ε α)}
    (hlogs : ∀ i p, ps[i]? = some p → Logs exec Accounted (law i) p []) {schedule : List ℕ}
    {pool : S × List (Prog C R ε α)}
    (hrun : Runs.run (poolStep exec) schedule (s, ps) = some pool) :
    PoolLogs exec Accounted law s pool := by
  refine Runs.run_invariant (PoolLogs exec Accounted law s) (fun _ => True)
    (fun _ _ _ h _ hstep => h.step haccounting hstep) ?_ (fun _ _ => trivial) hrun
  refine ⟨List.replicate ps.length [], by simp, ?_, fun i p log hp hlog => ?_⟩
  · rw [List.flatten_replicate_nil]
    exact haccounting.nil s
  · rw [List.getElem?_replicate] at hlog
    obtain ⟨-, hlog⟩ := Option.ite_none_right_eq_some.1 hlog
    cases hlog
    exact hlogs i p hp

end Logs

/-! ## A part of the server -/

section Lift

variable {C' : Type} {R' : C' → Type} {S' E' ε' : Type}

/-- A program over the commands of a part of the server. -/
def Prog.lift (command : C' → C) (reply : ∀ c, R (command c) → R' c) (exn : ε' → ε) :
    Prog C' R' ε' α → Prog C R ε α
  | .ret a => .ret a
  | .throw e => .throw (exn e)
  | .call c next => .call (command c) fun r => lift command reply exn (next (reply c r))

/-- **A program on a part of the server** keeps to its law; every event of the part is one of the
server. -/
theorem Logs.lift {command : C' → C} {reply : ∀ c, R (command c) → R' c} {exn : ε' → ε}
    {exec : S → (c : C) → R c × S} {Accounted : S → List E → S → Prop}
    {exec' : S' → (c : C') → R' c × S'} {Accounted' : S' → List E' → S' → Prop} (part : S → S')
    (event : E' → E)
    (hreply : ∀ s c, reply c (exec s (command c)).1 = (exec' (part s) c).1)
    (haccounted : ∀ s c es, Accounted' (part s) es (exec' (part s) c).2 →
      Accounted s (es.map event) (exec s (command c)).2)
    {law : Option (Except ε α) → List E → Prop} {p : Prog C' R' ε' α} {log : List E} {l : List E'}
    (h : Logs exec' Accounted' (fun r l => law (r.map (Except.mapError exn)) (log ++ l.map event))
      p l) :
    Logs exec Accounted law (p.lift command reply exn) (log ++ l.map event) := by
  induction p generalizing l with
  | ret a => exact h
  | throw e => exact h
  | call c next ih =>
    refine ⟨h.1, fun s => ?_⟩
    obtain ⟨es, hes, hnext⟩ := h.2 (part s)
    refine ⟨es.map event, haccounted s c es hes, ?_⟩
    show Logs exec Accounted law
      (Prog.lift command reply exn (next (reply c (exec s (command c)).1))) _
    rw [hreply, List.append_assoc, ← List.map_append]
    exact ih _ hnext

end Lift

end Commands
