import Mathlib.Data.List.Basic

/-!
A queue of tasks with a thread of its own that runs them in order. The thread can be
started and stopped any number of times.
-/

set_option autoImplicit false

structure WorkQueue (τ : Type*) where
  running : Bool
  waiting : List τ
  ran : List τ
  idle : running = false → waiting = []

namespace WorkQueue

/-- What such a queue leaves open: whether a task handed to it while its thread does not
run is run all the same, and whether those that wait are run when it is stopped. -/
structure Policy where
  runsIdle : Bool
  drains : Bool
  deriving DecidableEq, Repr

variable {τ : Type*} (q : WorkQueue τ)

def new : WorkQueue τ := ⟨false, [], [], fun _ => rfl⟩

/-- Everything it has been given that it has run or will run. -/
def handed : List τ := q.ran ++ q.waiting

/-- `ok` is whether a thread could be made. -/
def start (ok : Bool) : WorkQueue τ where
  running := q.running || ok
  waiting := q.waiting
  ran := q.ran
  idle h := q.idle (Bool.or_eq_false_iff.mp h).1

def enqueue (p : Policy) (task : τ) : WorkQueue τ :=
  if h : q.running = true then
    ⟨true, q.waiting ++ [task], q.ran, fun hrunning => absurd hrunning (by decide)⟩
  else if p.runsIdle then ⟨q.running, q.waiting, q.ran ++ [task], q.idle⟩
  else q

def stop (p : Policy) : WorkQueue τ :=
  ⟨false, [], if p.drains then q.ran ++ q.waiting else q.ran, fun _ => rfl⟩

def work : Option (WorkQueue τ) :=
  match q.waiting with
  | [] => none
  | task :: rest =>
      if h : q.running = true then
        some ⟨true, rest, q.ran ++ [task], fun hrunning => absurd hrunning (by decide)⟩
      else none

def takes (p : Policy) : Bool := q.running || p.runsIdle

variable {q} {p : Policy}

@[simp] theorem running_start (ok : Bool) : (q.start ok).running = (q.running || ok) := rfl

@[simp] theorem handed_start (ok : Bool) : (q.start ok).handed = q.handed := rfl

@[simp] theorem takes_stop : (q.stop p).takes p = p.runsIdle := Bool.false_or _

theorem start_false : q.start false = q := by
  cases q
  simp [start]

@[simp] theorem stop_start (ok : Bool) : (q.start ok).stop p = q.stop p := rfl

theorem handed_stop : (q.stop p).handed = if p.drains then q.handed else q.ran := by
  simp [handed, stop]

/-- What a stop loses is what waited. -/
theorem handed_stop_append (h : p.drains = false) :
    (q.stop p).handed ++ q.waiting = q.handed := by
  simp [handed, stop, h]

theorem handed_stop_prefix : (q.stop p).handed <+: q.handed := by
  cases hp : p.drains with
  | true =>
    have hall : (q.stop p).handed = q.handed := by rw [handed_stop, if_pos hp]
    exact ⟨[], (List.append_nil _).trans hall⟩
  | false => exact ⟨q.waiting, handed_stop_append hp⟩

@[simp] theorem running_enqueue (task : τ) : (q.enqueue p task).running = q.running := by
  unfold enqueue
  split
  · simp [*]
  · split <;> rfl

theorem handed_enqueue (task : τ) :
    (q.enqueue p task).handed = if q.takes p then q.handed ++ [task] else q.handed := by
  unfold enqueue takes handed
  by_cases hrunning : q.running = true
  · simp [hrunning]
  · have hidle := q.idle (Bool.eq_false_iff.mpr hrunning)
    cases hp : p.runsIdle <;> simp [hrunning, hidle]

theorem running_work {q' : WorkQueue τ} (h : q.work = some q') : q'.running = true := by
  unfold work at h
  split at h
  · cases h
  · split at h
    · cases h
      rfl
    · cases h

theorem handed_work {q' : WorkQueue τ} (h : q.work = some q') : q'.handed = q.handed := by
  unfold work at h
  split at h
  · cases h
  · rename_i task rest hwaiting
    split at h
    · cases h
      simp [handed, hwaiting]
    · cases h

end WorkQueue
