import Lmnet.IoUring.StreamWrites

/-!
How an `IoUringSessionImpl` on a stream socket reports its failed writes: any number of `Send`
calls against the completions of the ring. A step is one critical section of `sendMutex_`, one
`SubmitWriteRequest`, the kernel's work on a request, or a call of `errorHandler_`.
-/

set_option autoImplicit false

namespace Lmnet.IoUring

/-- What a thread has come to in the functions of the session, or the ring has been given. The
write operations are numbered. With `inSubmit` the thread is in the callback that
`SubmitWriteRequest` calls before it returns false. -/
inductive WriteTask where
  | next
  | submit (buffer : List UInt8)
  | outstanding (op : Nat)
  | handle (op : Nat) (result : Int) (inSubmit : Bool)
  | fail (op : Nat) (inSubmit : Bool)
  | errorHandler (op : Nat) (inSubmit : Bool)
  deriving DecidableEq, Repr

def WriteTask.op : WriteTask → Option Nat
  | .next | .submit _ => none
  | .outstanding op | .handle op _ _ | .fail op _ | .errorHandler op _ => some op

/-- `failed` are the operations that have failed, `reported` those `errorHandler_` was called
for. -/
structure WriteSession where
  stream : Stream
  tasks : List WriteTask
  ops : Nat
  failed : List Nat
  reported : List Nat
  deriving DecidableEq, Repr

inductive WriteAct where
  | send (buffer : Option (List UInt8))
  | next (i : Nat)
  | submit (i : Nat) (error : Option Int)
  | complete (i : Nat) (result : Int)
  | handle (i : Nat)
  | fail (i : Nat)
  | errorHandler (i : Nat)
  deriving DecidableEq, Repr

namespace WriteSession

def opened : WriteSession := ⟨.empty, [], 0, [], []⟩

def queueStreamWrite (s : WriteSession) (buffer : List UInt8) : WriteSession :=
  match s.stream.queueStreamWrite buffer with
  | (stream, .submitNext) => { s with stream := stream, tasks := s.tasks ++ [.next] }
  | (stream, _) => { s with stream := stream }

def send (s : WriteSession) (buffer : Option (List UInt8)) : WriteSession :=
  match buffer with
  | none => s
  | some b => if b.isEmpty then s else s.queueStreamWrite b

def submitNextStreamWrite (s : WriteSession) (i : Nat) : WriteSession :=
  match s.stream.sessionNext with
  | (stream, .submit buffer) => { s with stream := stream, tasks := s.tasks.set i (.submit buffer) }
  | (stream, _) => { s with stream := stream, tasks := s.tasks.eraseIdx i }

/-- `SubmitWriteRequest`; one that fails calls the callback with the error. -/
def submitWriteRequest (s : WriteSession) (i : Nat) (error : Option Int) : Option WriteSession :=
  match error with
  | none => some { s with ops := s.ops + 1, tasks := s.tasks.set i (.outstanding s.ops) }
  | some e =>
      if e < 0 then
        some { s with
          ops := s.ops + 1
          failed := s.failed ++ [s.ops]
          tasks := s.tasks.set i (.handle s.ops e true) }
      else none

/-- The write has failed when nothing was written. -/
def complete (s : WriteSession) (i op : Nat) (result : Int) : WriteSession :=
  { s with
    failed := if result ≤ 0 then s.failed ++ [op] else s.failed
    tasks := s.tasks.set i (.handle op result false) }

/-- The end of the callback. The caller of a `SubmitWriteRequest` that has returned false calls
`FailStreamWrite`. -/
def callbackReturns (s : WriteSession) (i op : Nat) (inSubmit : Bool) : WriteSession :=
  if inSubmit then { s with tasks := s.tasks.set i (.fail op false) }
  else { s with tasks := s.tasks.eraseIdx i }

def handleStreamWriteComplete (s : WriteSession) (i op : Nat) (result : Int) (inSubmit : Bool) :
    WriteSession :=
  match s.stream.handleStreamWriteComplete result with
  | (stream, .done) => callbackReturns { s with stream := stream } i op inSubmit
  | (stream, .submitNext) => { s with stream := stream, tasks := s.tasks.set i .next }
  | (stream, .fail) => { s with stream := stream, tasks := s.tasks.set i (.fail op inSubmit) }

def failStreamWrite (s : WriteSession) (i op : Nat) (inSubmit : Bool) : WriteSession :=
  { s with
    stream := s.stream.failStreamWrite
    tasks := s.tasks.set i (.errorHandler op inSubmit) }

def errorHandler (s : WriteSession) (i op : Nat) (inSubmit : Bool) : WriteSession :=
  callbackReturns { s with reported := s.reported ++ [op] } i op inSubmit

def step (s : WriteSession) : WriteAct → Option WriteSession
  | .send buffer => some (s.send buffer)
  | .next i =>
      match s.tasks[i]? with
      | some .next => some (s.submitNextStreamWrite i)
      | _ => none
  | .submit i error =>
      match s.tasks[i]? with
      | some (.submit _) => s.submitWriteRequest i error
      | _ => none
  | .complete i result =>
      match s.tasks[i]? with
      | some (.outstanding op) => some (s.complete i op result)
      | _ => none
  | .handle i =>
      match s.tasks[i]? with
      | some (.handle op result inSubmit) =>
          some (s.handleStreamWriteComplete i op result inSubmit)
      | _ => none
  | .fail i =>
      match s.tasks[i]? with
      | some (.fail op inSubmit) => some (s.failStreamWrite i op inSubmit)
      | _ => none
  | .errorHandler i =>
      match s.tasks[i]? with
      | some (.errorHandler op inSubmit) => some (s.errorHandler i op inSubmit)
      | _ => none

def machine : Machine WriteSession WriteAct where
  init s := s = opened
  step := step

/-- `errorHandler_` is called once for each failed operation, and for nothing else. -/
structure ReportsOnce (s : WriteSession) : Prop where
  once : ∀ op ∈ s.failed, (∀ task ∈ s.tasks, task.op ≠ some op) → s.reported.count op = 1
  atMostOnce : ∀ op, s.reported.count op ≤ 1
  failed : ∀ op ∈ s.reported, op ∈ s.failed

/-- When `errorHandler_` returns, nothing is queued and no write in flight. -/
def ClearedAtReport (t : WriteSession) : WriteAct → Prop
  | .errorHandler _ => t.stream.sendQueue = [] ∧ t.stream.writeInFlight = false
  | _ => True

/-- `SubmitWriteRequest` does not fail, no completion of zero bytes is handled with nothing
queued, and no buffer is sent while `errorHandler_` is running. -/
def Undisturbed (s : WriteSession) : WriteAct → Prop
  | .submit _ error => error = none
  | .handle i => ∀ op inSubmit, s.tasks[i]? = some (.handle op 0 inSubmit) →
      s.stream.sendQueue ≠ []
  | .send buffer => ∀ b ∈ buffer, b ≠ [] → ∀ op inSubmit, .errorHandler op inSubmit ∉ s.tasks
  | _ => True

instance decidableUndisturbed (s : WriteSession) (act : WriteAct) :
    Decidable (s.Undisturbed act) :=
  match act with
  | .submit _ error => inferInstanceAs (Decidable (error = none))
  | .handle i =>
      decidable_of_iff (∀ task ∈ s.tasks[i]?, ∀ op ∈ task.op, ∀ inSubmit,
          task = .handle op 0 inSubmit → s.stream.sendQueue ≠ [])
        ⟨fun h op inSubmit hi => h _ hi op rfl inSubmit rfl,
          fun h _ hi op _ inSubmit htask => h op inSubmit (htask ▸ hi)⟩
  | .send buffer =>
      decidable_of_iff (∀ b ∈ buffer, b ≠ [] → ∀ task ∈ s.tasks, ∀ op ∈ task.op, ∀ inSubmit,
          task ≠ .errorHandler op inSubmit)
        ⟨fun h b hb hne op inSubmit hmem => h b hb hne _ hmem op rfl inSubmit rfl,
          fun h b hb hne _ hmem op _ inSubmit htask => h b hb hne op inSubmit (htask ▸ hmem)⟩
  | .next _ | .complete _ _ | .fail _ | .errorHandler _ => inferInstanceAs (Decidable True)

end WriteSession

namespace WriteTask

def owes (op : Nat) : WriteTask → Bool
  | .handle op' result _ => op' == op && decide (result ≤ 0)
  | .fail op' _ | .errorHandler op' _ => op' == op
  | _ => false

def isOutstanding (op : Nat) : WriteTask → Bool
  | .outstanding op' => op' == op
  | _ => false

def inSubmit : WriteTask → Bool
  | .handle _ _ b | .fail _ b | .errorHandler _ b => b
  | _ => false

theorem op_of_owes {op : Nat} {task : WriteTask} (h : task.owes op = true) :
    task.op = some op := by
  cases task <;> simp_all [owes, WriteTask.op]

end WriteTask

/-- A result of at most 0 is taken for a failure, but for 0 with nothing queued; and where
nothing is queued nothing comes to be. -/
theorem Stream.handleStreamWriteComplete_cases (st : Stream) (result : Int) :
    ∃ st', (st = .empty → st' = .empty) ∧
      ((result ≤ 0 ∧ st.handleStreamWriteComplete result = (st', .fail)) ∨
       (result = 0 ∧ st.sendQueue = [] ∧ st.handleStreamWriteComplete result = (st', .done)) ∨
       (0 < result ∧ (st.handleStreamWriteComplete result = (st', .done) ∨
          st.handleStreamWriteComplete result = (st', .submitNext)))) := by
  unfold Stream.handleStreamWriteComplete
  split
  · rename_i hneg
    exact ⟨st, id, .inl ⟨Int.le_of_lt hneg, rfl⟩⟩
  · rename_i hnonneg
    split
    · rename_i hqueue
      refine ⟨.empty, fun _ => rfl, ?_⟩
      rcases Int.lt_or_eq_of_le (Int.not_lt.mp hnonneg) with hpos | hzero
      · exact .inr (.inr ⟨hpos, .inl rfl⟩)
      · exact .inr (.inl ⟨hzero.symm, hqueue, rfl⟩)
    · rename_i buffer rest hqueue
      have hne : st ≠ .empty := fun hempty => by
        rw [hempty] at hqueue
        cases hqueue
      split
      · rename_i hzero
        exact ⟨_, fun hempty => absurd hempty hne, .inl ⟨Int.le_of_eq hzero, rfl⟩⟩
      · rename_i hnonzero
        have hpos : 0 < result := by omega
        split
        · exact ⟨_, fun hempty => absurd hempty hne, .inr (.inr ⟨hpos, .inr rfl⟩)⟩
        · split
          · exact ⟨_, fun hempty => absurd hempty hne, .inr (.inr ⟨hpos, .inl rfl⟩)⟩
          · exact ⟨_, fun hempty => absurd hempty hne, .inr (.inr ⟨hpos, .inr rfl⟩)⟩

namespace WriteSession

structure Accounted (s : WriteSession) : Prop where
  counts : ∀ op, s.reported.count op + s.tasks.countP (WriteTask.owes op) = s.failed.count op
  fresh : ∀ op, s.failed.count op + s.tasks.countP (WriteTask.isOutstanding op) ≤
    (decide (op < s.ops)).toNat
  inSubmit : ∀ task ∈ s.tasks, task.inSubmit = false
  cleared : ∀ op b, .errorHandler op b ∈ s.tasks → s.stream = .empty

theorem Accounted.reportsOnce {s : WriteSession} (h : s.Accounted) : s.ReportsOnce := by
  have hfailed : ∀ op, s.failed.count op ≤ 1 := fun op =>
    Nat.le_trans (Nat.le_of_add_right_le (h.fresh op)) (Bool.toNat_le _)
  refine ⟨fun op hop hnone => ?_, fun op => ?_, fun op hop => ?_⟩
  · have hcount := List.count_pos_iff.mpr hop
    have hle := hfailed op
    have hsum := h.counts op
    have hzero : s.tasks.countP (WriteTask.owes op) = 0 :=
      List.countP_eq_zero.mpr fun task htask howes =>
        hnone task htask (WriteTask.op_of_owes howes)
    omega
  · have hsum := h.counts op
    have hle := hfailed op
    omega
  · have hcount := List.count_pos_iff.mpr hop
    have hsum := h.counts op
    exact List.count_pos_iff.mp (by omega)

theorem Accounted.set {s : WriteSession} (h : s.Accounted) {i : Nat} {old : WriteTask}
    (new : WriteTask) (hi : s.tasks[i]? = some old) (howes : ∀ op, new.owes op = old.owes op)
    (hring : ∀ op, new.isOutstanding op = old.isOutstanding op) (hnew : new.inSubmit = false)
    {stream : Stream}
    (hcleared : ∀ op b, .errorHandler op b ∈ s.tasks.set i new → stream = .empty) :
    Accounted { s with stream := stream, tasks := s.tasks.set i new } := by
  refine ⟨fun op => ?_, fun op => ?_, fun task htask => ?_, hcleared⟩
  · have hset := List.countP_set_add (a := new) (p := (WriteTask.owes op)) hi
    have hcounts := h.counts op
    rw [howes] at hset
    simp only
    omega
  · have hset := List.countP_set_add (a := new) (p := (WriteTask.isOutstanding op)) hi
    have hfresh := h.fresh op
    rw [hring] at hset
    simp only
    omega
  · rcases List.mem_or_eq_of_mem_set htask with hold | rfl
    · exact h.inSubmit task hold
    · exact hnew

theorem Accounted.erase {s : WriteSession} (h : s.Accounted) {i : Nat} {old : WriteTask}
    (hi : s.tasks[i]? = some old) (howes : ∀ op, old.owes op = false)
    {stream : Stream} (hcleared : s.stream = .empty → stream = .empty) :
    Accounted { s with stream := stream, tasks := s.tasks.eraseIdx i } := by
  refine ⟨fun op => ?_, fun op => ?_, fun task htask => ?_, fun op b hmem => ?_⟩
  · have herase := List.countP_eraseIdx_add (p := (WriteTask.owes op)) hi
    have hcounts := h.counts op
    rw [howes, Bool.toNat_false, Nat.add_zero] at herase
    simp only [herase]
    exact hcounts
  · have herase := List.countP_eraseIdx_add (p := (WriteTask.isOutstanding op)) hi
    have hfresh := h.fresh op
    simp only
    omega
  · exact h.inSubmit task (List.mem_of_mem_eraseIdx htask)
  · exact hcleared (h.cleared op b (List.mem_of_mem_eraseIdx hmem))

theorem Accounted.queueStreamWrite {s : WriteSession} (h : s.Accounted) (buffer : List UInt8)
    (hnone : ∀ op b, .errorHandler op b ∉ s.tasks) : (s.queueStreamWrite buffer).Accounted := by
  unfold WriteSession.queueStreamWrite Stream.queueStreamWrite
  cases s.stream.writeInFlight with
  | false =>
    refine ⟨fun op => ?_, fun op => ?_, fun task htask => ?_, fun op b hmem => ?_⟩
    · simpa [WriteTask.owes] using h.counts op
    · simpa [WriteTask.isOutstanding] using h.fresh op
    · rcases List.mem_append.mp htask with hold | hnew
      · exact h.inSubmit task hold
      · obtain rfl := List.mem_singleton.mp hnew
        rfl
    · rcases List.mem_append.mp hmem with hold | hnew
      · exact absurd hold (hnone op b)
      · cases List.mem_singleton.mp hnew
  | true => exact ⟨h.counts, h.fresh, h.inSubmit, fun op b hmem => absurd hmem (hnone op b)⟩

theorem Accounted.send {s : WriteSession} (h : s.Accounted) {buffer : Option (List UInt8)}
    (hok : s.Undisturbed (.send buffer)) : (s.send buffer).Accounted := by
  cases buffer with
  | none => exact h
  | some b =>
    simp only [WriteSession.send]
    split
    · exact h
    · rename_i hne
      exact h.queueStreamWrite b (hok b rfl (by simpa using hne))

theorem Accounted.submitNextStreamWrite {s : WriteSession} (h : s.Accounted) {i : Nat}
    (hi : s.tasks[i]? = some .next) : (s.submitNextStreamWrite i).Accounted := by
  unfold WriteSession.submitNextStreamWrite
  cases hqueue : s.stream.sendQueue with
  | nil =>
    have hnext : s.stream.sessionNext = ({ s.stream with writeInFlight := false }, .nothing) := by
      simp [Stream.sessionNext, Stream.submitNextStreamWrite, hqueue]
    rw [hnext]
    refine h.erase hi (fun _ => rfl) fun hempty => ?_
    rw [hempty]
    rfl
  | cons b rest =>
    have hnext : s.stream.sessionNext = (s.stream, .submit b) := by
      simp [Stream.sessionNext, Stream.submitNextStreamWrite, hqueue]
    have hcleared : ∀ op c, .errorHandler op c ∈ s.tasks.set i (.submit b) →
        s.stream = .empty := fun op c hmem => by
      rcases List.mem_or_eq_of_mem_set hmem with hold | hnew
      · exact h.cleared op c hold
      · cases hnew
    rw [hnext]
    exact h.set (.submit b) hi (fun _ => rfl) (fun _ => rfl) rfl hcleared

theorem Accounted.submitWriteRequest {s : WriteSession} (h : s.Accounted) {i : Nat}
    {buffer : List UInt8} (hi : s.tasks[i]? = some (.submit buffer)) :
    Accounted { s with ops := s.ops + 1, tasks := s.tasks.set i (.outstanding s.ops) } := by
  refine ⟨fun op => ?_, fun op => ?_, fun task htask => ?_, fun op b hmem => ?_⟩
  · have hset : (s.tasks.set i (.outstanding s.ops)).countP (WriteTask.owes op) =
        s.tasks.countP (WriteTask.owes op) :=
      List.countP_set_add (a := .outstanding s.ops) (p := (WriteTask.owes op)) hi
    simp only [hset]
    exact h.counts op
  · have hset : (s.tasks.set i (.outstanding s.ops)).countP (WriteTask.isOutstanding op) =
        s.tasks.countP (WriteTask.isOutstanding op) + (s.ops == op).toNat :=
      List.countP_set_add (a := .outstanding s.ops) (p := (WriteTask.isOutstanding op)) hi
    have hfresh := h.fresh op
    have hlt : (decide (op < s.ops)).toNat + (s.ops == op).toNat =
        (decide (op < s.ops + 1)).toNat := by
      rcases Nat.lt_trichotomy op s.ops with hlt | rfl | hgt
      · simp [hlt, Nat.lt_succ_of_lt hlt, Nat.ne_of_gt hlt]
      · simp
      · simp [Nat.ne_of_lt hgt, Nat.not_lt_of_gt hgt, Nat.not_lt_of_ge (Nat.succ_le_of_lt hgt)]
    simp only [hset]
    omega
  · rcases List.mem_or_eq_of_mem_set htask with hold | rfl
    · exact h.inSubmit task hold
    · rfl
  · rcases List.mem_or_eq_of_mem_set hmem with hold | hnew
    · exact h.cleared op b hold
    · cases hnew

theorem Accounted.complete {s : WriteSession} (h : s.Accounted) {i op : Nat} (result : Int)
    (hi : s.tasks[i]? = some (.outstanding op)) : (s.complete i op result).Accounted := by
  have hcount : ∀ op', (if result ≤ 0 then s.failed ++ [op] else s.failed).count op' =
      s.failed.count op' + (op == op' && decide (result ≤ 0)).toNat := fun op' => by
    split
    · rename_i hle
      by_cases hop : op = op' <;> simp [hle, hop, List.count_append]
    · rename_i hle
      simp [hle]
  refine ⟨fun op' => ?_, fun op' => ?_, fun task htask => ?_, fun op' b hmem => ?_⟩
  · have hset : (s.tasks.set i (.handle op result false)).countP (WriteTask.owes op') =
        s.tasks.countP (WriteTask.owes op') + (op == op' && decide (result ≤ 0)).toNat :=
      List.countP_set_add (a := .handle op result false) (p := (WriteTask.owes op')) hi
    have hcounts := h.counts op'
    simp only [WriteSession.complete, hcount, hset]
    omega
  · have hset : (s.tasks.set i (.handle op result false)).countP (WriteTask.isOutstanding op') +
        (op == op').toNat = s.tasks.countP (WriteTask.isOutstanding op') :=
      List.countP_set_add (a := .handle op result false) (p := (WriteTask.isOutstanding op')) hi
    have hfresh := h.fresh op'
    have hle : (op == op' && decide (result ≤ 0)).toNat ≤ (op == op').toNat := by
      cases op == op' <;> simp [Bool.toNat_le]
    simp only [WriteSession.complete, hcount]
    show _ ≤ (decide (op' < s.ops)).toNat
    omega
  · rcases List.mem_or_eq_of_mem_set htask with hold | rfl
    · exact h.inSubmit task hold
    · rfl
  · rcases List.mem_or_eq_of_mem_set hmem with hold | hnew
    · exact h.cleared op' b hold
    · cases hnew

theorem Accounted.handleStreamWriteComplete {s : WriteSession} (h : s.Accounted) {i op : Nat}
    {result : Int} {inSubmit : Bool} (hi : s.tasks[i]? = some (.handle op result inSubmit))
    (hok : s.Undisturbed (.handle i)) :
    (s.handleStreamWriteComplete i op result inSubmit).Accounted := by
  have hin : inSubmit = false := h.inSubmit _ (List.mem_of_getElem? hi)
  subst hin
  obtain ⟨stream, hempty, ⟨hle, heq⟩ | ⟨rfl, hqueue, -⟩ | ⟨hpos, hnext⟩⟩ :=
    s.stream.handleStreamWriteComplete_cases result
  · have howes : ∀ op', (WriteTask.fail op false).owes op' =
        (WriteTask.handle op result false).owes op' := fun op' => by
      simp [WriteTask.owes, hle]
    have hcleared : ∀ op' b, .errorHandler op' b ∈ s.tasks.set i (.fail op false) →
        stream = .empty := fun op' b hmem => by
      rcases List.mem_or_eq_of_mem_set hmem with hold | hnew
      · exact hempty (h.cleared op' b hold)
      · cases hnew
    rw [WriteSession.handleStreamWriteComplete, heq]
    exact h.set (.fail op false) hi howes (fun _ => rfl) rfl hcleared
  · exact absurd hqueue (hok op false hi)
  · have howes : ∀ op', (WriteTask.handle op result false).owes op' = false := fun op' => by
      simp [WriteTask.owes, Int.not_le.mpr hpos]
    have hcleared : ∀ op' b, .errorHandler op' b ∈ s.tasks.set i .next →
        stream = .empty := fun op' b hmem => by
      rcases List.mem_or_eq_of_mem_set hmem with hold | hnew
      · exact hempty (h.cleared op' b hold)
      · cases hnew
    rw [WriteSession.handleStreamWriteComplete]
    rcases hnext with heq | heq <;> rw [heq]
    · exact h.erase hi howes hempty
    · exact h.set .next hi (fun op' => (howes op').symm) (fun _ => rfl) rfl hcleared

theorem Accounted.failStreamWrite {s : WriteSession} (h : s.Accounted) {i op : Nat}
    {inSubmit : Bool} (hi : s.tasks[i]? = some (.fail op inSubmit)) :
    (s.failStreamWrite i op inSubmit).Accounted :=
  h.set (.errorHandler op inSubmit) hi (fun _ => rfl) (fun _ => rfl)
    (h.inSubmit (.fail op inSubmit) (List.mem_of_getElem? hi)) fun _ _ _ => rfl

theorem Accounted.errorHandler {s : WriteSession} (h : s.Accounted) {i op : Nat}
    {inSubmit : Bool} (hi : s.tasks[i]? = some (.errorHandler op inSubmit)) :
    (s.errorHandler i op inSubmit).Accounted := by
  have hin : inSubmit = false := h.inSubmit _ (List.mem_of_getElem? hi)
  subst hin
  refine ⟨fun op' => ?_, fun op' => ?_, fun task htask => ?_, fun op' b hmem => ?_⟩
  · have herase : (s.tasks.eraseIdx i).countP (WriteTask.owes op') + (op == op').toNat =
        s.tasks.countP (WriteTask.owes op') :=
      List.countP_eraseIdx_add (p := (WriteTask.owes op')) hi
    have hcounts := h.counts op'
    have hone : [op].count op' = (op == op').toNat := by
      rw [List.count_singleton]
      cases op == op' <;> rfl
    simp only [WriteSession.errorHandler, callbackReturns, Bool.false_eq_true, if_false,
      List.count_append, hone]
    omega
  · have herase := List.countP_eraseIdx_add (p := (WriteTask.isOutstanding op')) hi
    have hfresh := h.fresh op'
    simp only [WriteSession.errorHandler, callbackReturns, Bool.false_eq_true, if_false]
    show _ ≤ (decide (op' < s.ops)).toNat
    omega
  · exact h.inSubmit task (List.mem_of_mem_eraseIdx htask)
  · exact h.cleared op' b (List.mem_of_mem_eraseIdx hmem)

theorem Accounted.step {s t : WriteSession} {act : WriteAct} (h : s.Accounted)
    (hs : s.step act = some t) (hok : s.Undisturbed act) :
    t.Accounted ∧ t.ReportsOnce ∧ t.ClearedAtReport act := by
  suffices hkeep : t.Accounted ∧ t.ClearedAtReport act from
    ⟨hkeep.1, hkeep.1.reportsOnce, hkeep.2⟩
  cases act with
  | send buffer =>
    cases hs
    exact ⟨h.send hok, trivial⟩
  | next i =>
    simp only [WriteSession.step] at hs
    split at hs
    · cases hs
      exact ⟨h.submitNextStreamWrite ‹_›, trivial⟩
    · cases hs
  | submit i error =>
    simp only [WriteSession.step] at hs
    split at hs
    · have hnone : error = none := hok
      subst hnone
      cases hs
      exact ⟨h.submitWriteRequest ‹_›, trivial⟩
    · cases hs
  | complete i result =>
    simp only [WriteSession.step] at hs
    split at hs
    · cases hs
      exact ⟨h.complete result ‹_›, trivial⟩
    · cases hs
  | handle i =>
    simp only [WriteSession.step] at hs
    split at hs
    · cases hs
      exact ⟨h.handleStreamWriteComplete ‹_› hok, trivial⟩
    · cases hs
  | fail i =>
    simp only [WriteSession.step] at hs
    split at hs
    · cases hs
      exact ⟨h.failStreamWrite ‹_›, trivial⟩
    · cases hs
  | errorHandler i =>
    simp only [WriteSession.step] at hs
    split at hs
    · rename_i op inSubmit hi
      cases hs
      have hempty : (s.errorHandler i op inSubmit).stream = .empty := by
        rw [← h.cleared op inSubmit (List.mem_of_getElem? hi)]
        unfold WriteSession.errorHandler callbackReturns
        split <;> rfl
      refine ⟨h.errorHandler hi, ?_⟩
      simp only [ClearedAtReport, hempty]
      exact ⟨rfl, rfl⟩
    · cases hs

end WriteSession

end Lmnet.IoUring
