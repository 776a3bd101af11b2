import Sentinel.Scheduler.ScheduledTask
import Sentinel.Lib.Heap

/-!
# `SchedulerRepository`: the source

The repository is a list of references to task objects, so that a task handed out earlier and the
task in the list are the same object.  Every reading of `DateTime.UtcNow` takes the next value of
an arbitrary clock.  Log calls are left out, except for the arguments that can throw.
-/

set_option autoImplicit false

namespace Sentinel

open Throwing

/-- The objects, the list `ScheduledTasks`, and how often the clock has been read. -/
structure SchedulerRepository (T : Type) where
  heap : Heap (ScheduledTask T)
  scheduledTasks : List Ref
  clockReads : ℕ

namespace SchedulerRepository

variable {T : Type} [IScheduledTaskItem T]

def empty : SchedulerRepository T := ⟨.empty, [], 0⟩

/-- The values of the tasks in the list. -/
def tasks (s : SchedulerRepository T) : List (ScheduledTask T) := s.heap.readAll s.scheduledTasks

/-- `ScheduledTasks.FirstOrDefault(p)`. -/
def firstOrDefault (s : SchedulerRepository T) (p : ScheduledTask T → Bool) :
    Option (Ref × ScheduledTask T) :=
  s.scheduledTasks.findSome? fun r =>
    match s.heap.read r with
    | some t => if p t then some (r, t) else none
    | none => none

/-- `ScheduledTasks.Add` of a new object. -/
def append (s : SchedulerRepository T) (t : ScheduledTask T) : SchedulerRepository T :=
  { s with heap := s.heap.alloc t, scheduledTasks := s.scheduledTasks ++ [s.heap.next] }

/-- `ScheduledTasks.Remove`: objects are compared by identity. -/
def remove (s : SchedulerRepository T) (r : Ref) : SchedulerRepository T :=
  { s with scheduledTasks := s.scheduledTasks.erase r }

/-- `ScheduledTasks[i] = t` for a new object `t`. -/
def replaceAt (s : SchedulerRepository T) (i : ℕ) (t : ScheduledTask T) : SchedulerRepository T :=
  { s with heap := s.heap.alloc t, scheduledTasks := s.scheduledTasks.set i s.heap.next }

/-- `ScheduledTasks[i].Task = item`. -/
def setTaskAt (s : SchedulerRepository T) (i : ℕ) (item : T) : SchedulerRepository T :=
  match s.scheduledTasks[i]? with
  | none => s
  | some r =>
    match s.heap.read r with
    | none => s
    | some t => { s with heap := s.heap.write r { t with task := item } }

variable (comparer : CompareInfo) (clock : Clock)

def utcNow : EStateM Exn (SchedulerRepository T) DateTime :=
  fun s => .ok (clock.reading s.clockReads) { s with clockReads := s.clockReads + 1 }

def add (item : T) : EStateM Exn (SchedulerRepository T) Unit := do
  let referenceTime ← utcNow clock
  let scheduledTask ← ofExcept (ScheduledTask.new comparer item referenceTime)
  modify fun s => s.append scheduledTask
  -- the log call asks for the next occurrence
  let _ ← ofExcept (scheduledTask.schedule.getNextOccurrenceFrom referenceTime)
  pure ()

def updateTask (item : T) : EStateM Exn (SchedulerRepository T) Unit := do
  let referenceTime ← utcNow clock
  let s ← get
  match s.firstOrDefault (fun e => e.uid == IScheduledTaskItem.uid item) with
  | none => pure ()
  | some (ref, scheduledSelectedTask) =>
    match s.scheduledTasks.idxOf? ref with
    | none => pure ()
    | some scheduledIndex =>
      modify fun s => s.setTaskAt scheduledIndex item
      -- the log call writes the schedule text and asks for the next occurrence
      if (IScheduledTaskItem.schedule item).isNone then throw .nullReferenceException
      let _ ← ofExcept (scheduledSelectedTask.schedule.getNextOccurrenceFrom referenceTime)
      pure ()

def updateSchedulerRepository (item : T) : EStateM Exn (SchedulerRepository T) Unit := do
  let _ ← utcNow clock
  let referenceTime ← utcNow clock
  let scheduledTask ← ofExcept (ScheduledTask.new comparer item referenceTime)
  let s ← get
  match s.firstOrDefault (fun e => e.uid == IScheduledTaskItem.uid item) with
  | none => pure ()
  | some (ref, _) =>
    match s.scheduledTasks.idxOf? ref with
    | none => pure ()
    | some scheduledIndex => modify fun s => s.replaceAt scheduledIndex scheduledTask
    let _ ← ofExcept (scheduledTask.schedule.getNextOccurrenceFrom referenceTime)
    pure ()

/-! ## Sync -/

section Sync

variable (items : List T) (s : SchedulerRepository T)

/-- `ScheduledTasks.Any(e => e.Uid == p.Uid)`. -/
def known (p : T) : Bool := s.tasks.any fun e => e.uid == IScheduledTaskItem.uid p

def itemsToAdd : List T := items.filter fun p => !s.known p

def itemsToUpdate : List T := items.filter fun p => s.known p

/-- The item list has an item with the task's Uid. -/
def wanted (e : ScheduledTask T) : Bool := items.any fun p => IScheduledTaskItem.uid p == e.uid

def itemsToRemove : List Ref :=
  s.scheduledTasks.filter fun r =>
    match s.heap.read r with
    | some e => !wanted items e
    | none => false

/-- The schedule text of the first task with the item's key, null if there is none. -/
def knownSchedule (pair : T) : Option String :=
  match s.firstOrDefault fun x =>
      IScheduledTaskItem.key x.task == IScheduledTaskItem.key pair with
  | some (_, x) => IScheduledTaskItem.schedule x.task
  | none => none

end Sync

/-- The body of the third loop. -/
def update (pair : T) : EStateM Exn (SchedulerRepository T) Unit := do
  let s ← get
  if IScheduledTaskItem.schedule pair ≠ s.knownSchedule pair then
    updateSchedulerRepository comparer clock pair
  else updateTask clock pair

def sync (items : Option (List T)) : EStateM Exn (SchedulerRepository T) Unit :=
  match items with
  | none => pure ()
  | some items => do
    let s ← get
    let itemsToAdd := s.itemsToAdd items
    let itemsToUpdate := s.itemsToUpdate items
    let itemsToRemove := s.itemsToRemove items
    itemsToAdd.forM (add comparer clock)
    itemsToRemove.forM fun r => modify fun s => s.remove r
    itemsToUpdate.forM (update comparer clock)

/-- `ScheduledTask.Increment` on the object behind a reference. -/
def incrementAt (r : Ref) : EStateM Exn (SchedulerRepository T) Unit := fun s =>
  match s.heap.read r with
  | none => .ok () s
  | some t =>
    match ScheduledTask.increment t with
    | .ok _ t' => .ok () { s with heap := s.heap.write r t' }
    | .error e t' => .error e { s with heap := s.heap.write r t' }

end SchedulerRepository

end Sentinel
