import Lmnet.Windows.ServerLife

/-!
`HandleClientClose` of the Windows `TcpServerImpl` as its two models have it: that of `TcpServer`,
one step, is that of `ClientSocket` when no other thread steps before it returns.
-/

set_option autoImplicit false

namespace Lmnet.Windows

namespace ClientSocket

/-- A thread that steps `n` times on its own, the listener alive. -/
def advances (x : ClientSocket) : Nat → Closing → ClientSocket × Closing
  | 0, pc => (x, pc)
  | n + 1, pc => (x.advance true pc).1.advances n (x.advance true pc).2

theorem advance_threads (x : ClientSocket) (pc task : Closing) (workers : List Closing) :
    { x with taskThread := task, workers := workers }.advance true pc =
      ({ (x.advance true pc).1 with taskThread := task, workers := workers },
        (x.advance true pc).2) := by
  cases pc with
  | found isError reason => cases isError <;> rfl
  | _ => rfl

theorem advances_threads (x : ClientSocket) (n : Nat) (pc task : Closing)
    (workers : List Closing) :
    { x with taskThread := task, workers := workers }.advances n pc =
      ({ (x.advances n pc).1 with taskThread := task, workers := workers },
        (x.advances n pc).2) := by
  induction n generalizing x pc with
  | zero => rfl
  | succ n ih =>
    simp only [advances, advance_threads]
    exact ih (x.advance true pc).1 (x.advance true pc).2

theorem run_workerStep {x : ClientSocket} {i : Nat} {pc : Closing} (h : x.workers[i]? = some pc)
    (n : Nat) :
    machine.run x (List.replicate n (.workerStep i true)) =
      some { (x.advances n pc).1 with
        taskThread := x.taskThread, workers := x.workers.set i (x.advances n pc).2 } := by
  induction n generalizing x pc with
  | zero =>
    obtain ⟨hlt, rfl⟩ := List.getElem?_eq_some_iff.mp h
    simp [advances]
  | succ n ih =>
    let x' : ClientSocket := { (x.advance true pc).1 with
      taskThread := x.taskThread, workers := x.workers.set i (x.advance true pc).2 }
    have hstep : x.step (.workerStep i true) = some x' := by
      simp only [step, h, advance_workers, x', ← advance_taskThread x true pc]
    have hworker : x'.workers[i]? = some (x.advance true pc).2 := by
      simp [x', (List.getElem?_eq_some_iff.mp h).1]
    refine machine.run_cons.mpr ⟨x', hstep, ?_⟩
    rw [ih hworker, advances_threads]
    simp only [advances, x', List.set_set]

theorem run_taskStep (x : ClientSocket) (n : Nat) :
    machine.run x (List.replicate n (.taskStep true)) =
      some { (x.advances n x.taskThread).1 with
        taskThread := (x.advances n x.taskThread).2, workers := x.workers } := by
  induction n generalizing x with
  | zero => rfl
  | succ n ih =>
    let x' : ClientSocket := { (x.advance true x.taskThread).1 with
      taskThread := (x.advance true x.taskThread).2, workers := x.workers }
    have hstep : x.step (.taskStep true) = some x' := by
      simp only [step, x', ← advance_workers x true x.taskThread]
    refine machine.run_cons.mpr ⟨x', hstep, ?_⟩
    rw [ih x', advances_threads]
    rfl

def closed (x : ClientSocket) (isError : Bool) (reason : String) : ClientSocket :=
  { x with
    session := false
    events := x.events ++
      if x.session then (if isError then [.onError reason] else []) ++ [.onClose, .closesocket]
      else [] }

theorem closed_of_absent {x : ClientSocket} (h : x.session = false) (isError : Bool)
    (reason : String) : x.closed isError reason = x := by
  simp only [closed, h, Bool.false_eq_true, if_false, List.append_nil]
  rw [← h]

theorem advances_returned (x : ClientSocket) (n : Nat) :
    x.advances n .returned = (x, .returned) := by
  induction n with
  | zero => rfl
  | succ n ih => exact ih

theorem advances_handleClientClose (x : ClientSocket) (isError : Bool) (reason : String) :
    x.advances 5 (.handleClientClose isError reason) = (x.closed isError reason, .returned) := by
  cases hsession : x.session with
  | false => simp [advances, advance, closed_of_absent hsession, hsession]
  | true => cases isError <;> simp [advances, advance, closed, emit, hsession]

theorem advances_handleSend (x : ClientSocket) (error : Nat) :
    x.advances 7 (.handleSend error) =
      (if error ≠ 0 ∧ x.isRunning = true ∧ isExpectedSocketShutdownError error = false then
        x.closed true ("Send error: " ++ toString error) else x, .returned) := by
  by_cases hsend : error ≠ 0 ∧ x.isRunning = true
  · have hfirst : x.advances 7 (.handleSend error) = x.advances 6 (.sendError error) := by
      rw [advances]
      simp only [advance, if_pos hsend]
    have hsecond : x.advances 6 (.sendError error) = x.advances 5
        (if x.session && !isExpectedSocketShutdownError error then
          .handleClientClose true ("Send error: " ++ toString error) else .returned) := by
      rw [advances]
      rfl
    rw [hfirst, hsecond]
    cases hexpected : isExpectedSocketShutdownError error with
    | true => simp [advances_returned]
    | false =>
      cases hsession : x.session with
      | false => simp [advances_returned, closed_of_absent hsession]
      | true => simp [advances_handleClientClose, hsend]
  · have hfirst : x.advances 7 (.handleSend error) = x.advances 6 .returned := by
      rw [advances]
      simp only [advance, if_neg hsend]
    rw [hfirst, advances_returned, if_neg fun h => hsend ⟨h.1, h.2.1⟩]

end ClientSocket

def CloseEvent.call : CloseEvent → Option ServerCall
  | .onError reason => some (.onError reason)
  | .onClose => some .onClose
  | .closesocket => none

namespace TcpServer

/-- `x` is the connection `c` as `ClientSocket` has it: its events are what the listener was told
after the data and the `closesocket` calls that hit it. -/
structure Serves (s : TcpServer) (c : Nat) (x : ClientSocket) : Prop where
  isRunning : x.isRunning = s.isRunning
  session : x.session = true ↔ ∃ y, s.connections[c]? = some y ∧ s.sessions.lookup y.socket = some c
  told : ∀ y, s.connections[c]? = some y →
    ∃ begun, Begun begun ∧ y.told = begun ++ x.events.filterMap CloseEvent.call
  closes : x.events.count .closesocket = s.closes.count (some c)

theorem Inv.serves_accepted {s : TcpServer} (h : s.Inv) {n c : Nat}
    (hsession : s.sessions.lookup n = some c) : s.Serves c (.accepted s.isRunning) := by
  obtain ⟨y, hy, rfl, hopen, htold⟩ := h.session n c hsession
  refine ⟨rfl, iff_of_true rfl ⟨y, hy, hsession⟩, fun z hz => ?_, ?_⟩
  · rw [hy] at hz
    cases hz
    exact ⟨y.told, htold, (List.append_nil _).symm⟩
  · refine (List.count_eq_zero.mpr fun hmem => ?_).symm
    obtain ⟨d, z, heq, hz, hclosed⟩ := h.hit _ hmem
    cases heq
    rw [hy] at hz
    cases hz
    rw [hopen] at hclosed
    cases hclosed

theorem Inv.serves_handleClientClose {s : TcpServer} (h : s.Inv) {c : Nat} {y : Connection}
    {x : ClientSocket} (hy : s.connections[c]? = some y) (hx : s.Serves c x) (isError : Bool)
    (reason : String) :
    (s.handleClientClose y.socket isError reason).Serves c (x.closed isError reason) := by
  have habsent : s.sessions.lookup y.socket ≠ some c → x.closed isError reason = x := by
    intro hne
    refine ClientSocket.closed_of_absent (Bool.eq_false_iff.mpr fun hsession => ?_) isError reason
    obtain ⟨z, hz, hlookup⟩ := hx.session.mp hsession
    rw [hy] at hz
    cases hz
    exact hne hlookup
  cases hlookup : s.sessions.lookup y.socket with
  | none =>
    rw [habsent (by simp [hlookup])]
    simp only [TcpServer.handleClientClose, hlookup]
    exact hx
  | some d =>
    obtain ⟨z, hz, hsocket, hopen, -⟩ := h.session y.socket d hlookup
    rw [← hsocket] at hlookup ⊢
    rw [h.handleClientClose_eq hz hopen hlookup]
    have hlt : d < s.connections.length := (List.getElem?_eq_some_iff.mp hz).1
    by_cases hdc : d = c
    · subst hdc
      obtain rfl : y = z := Option.some.inj (hy.symm.trans hz)
      have hsession : x.session = true := hx.session.mpr ⟨y, hy, hlookup⟩
      refine ⟨hx.isRunning, iff_of_false Bool.false_ne_true ?_, fun y' hy' => ?_, ?_⟩
      · rintro ⟨y', hy', hlookup'⟩
        rw [List.getElem?_set_self hlt] at hy'
        cases hy'
        simp at hlookup'
      · rw [List.getElem?_set_self hlt] at hy'
        cases hy'
        obtain ⟨begun, hbegun, htold⟩ := hx.told y hy
        refine ⟨begun, hbegun, ?_⟩
        cases isError <;>
          simp [ClientSocket.closed, hsession, htold, closeCalls, CloseEvent.call]
      · have hcount := hx.closes
        cases isError <;> simp [ClientSocket.closed, hsession, hcount]
    · rw [habsent (by rw [← hsocket, hlookup]; simpa using hdc)]
      have hsame : (s.connections.set d { z with
          isOpen := false, told := z.told ++ closeCalls isError reason })[c]? = some y := by
        rw [List.getElem?_set_ne hdc, hy]
      have hfalse : x.session = false := by
        refine Bool.eq_false_iff.mpr fun hsession => ?_
        obtain ⟨y', hy', hlookup'⟩ := hx.session.mp hsession
        obtain rfl : y = y' := Option.some.inj (hy.symm.trans hy')
        rw [← hsocket, hlookup] at hlookup'
        exact hdc (Option.some.inj hlookup')
      refine ⟨hx.isRunning, iff_of_false (by simp [hfalse]) ?_, fun y' hy' => ?_, ?_⟩
      · rintro ⟨y', hy', hlookup'⟩
        obtain rfl : y = y' := Option.some.inj (hsame.symm.trans hy')
        rw [← hsocket, AList.lookup_erase] at hlookup'
        cases hlookup'
      · rw [hsame] at hy'
        cases hy'
        exact hx.told y hy
      · simpa [hdc] using hx.closes

theorem Serves.threads {s : TcpServer} {c : Nat} {x : ClientSocket} (h : s.Serves c x)
    (task : Closing) (workers : List Closing) :
    s.Serves c { x with taskThread := task, workers := workers } :=
  ⟨h.isRunning, h.session, h.told, h.closes⟩

theorem handleSend_eq (s : TcpServer) (socket error : Nat) :
    s.handleSend socket error =
      if error ≠ 0 ∧ s.isRunning = true ∧ isExpectedSocketShutdownError error = false then
        s.handleClientClose socket true ("Send error: " ++ toString error)
      else s := by
  unfold handleSend
  by_cases herror : error = 0
  · simp [herror]
  · cases hrunning : s.isRunning <;> cases hexpected : isExpectedSocketShutdownError error <;>
      cases hlookup : s.sessions.lookup socket <;>
      simp [herror, handleClientClose, hlookup]

/-- `HandleSend` on a worker that is alone until it returns. -/
theorem Inv.handleSend_turn {s : TcpServer} (h : s.Inv) {c i error : Nat} {y : Connection}
    {x : ClientSocket} (hy : s.connections[c]? = some y) (hx : s.Serves c x)
    (hworker : x.workers[i]? = some (.handleSend error)) :
    ∃ n x', ClientSocket.machine.run x (List.replicate n (.workerStep i true)) = some x' ∧
      x'.workers = x.workers.set i .returned ∧ (s.handleSend y.socket error).Serves c x' := by
  have hrun := ClientSocket.run_workerStep hworker 7
  rw [ClientSocket.advances_handleSend] at hrun
  refine ⟨7, _, hrun, rfl, ?_⟩
  rw [handleSend_eq, ← hx.isRunning]
  split
  · exact (h.serves_handleClientClose hy hx true _).threads _ _
  · exact hx.threads _ _

/-- A read that ends the connection: the task thread takes it and is alone until it returns. -/
theorem Inv.handleReceive_turn {s : TcpServer} (h : s.Inv) {c : Nat} {y : Connection}
    {x : ClientSocket} {o : Operation} {buffer : List UInt8} {error : Nat}
    (read : ReadSubmission) {rest : List ReceiveTask}
    (hy : s.connections[c]? = some y) (hx : s.Serves c x) (ho : o.socket = y.socket)
    (hidle : x.taskThread = .returned) (htasks : x.tasks = ⟨buffer.length, error⟩ :: rest)
    (hends : (ReceiveTask.mk buffer.length error).handleReceive ≠ none) :
    ∃ n x', ClientSocket.machine.run x (.runTask :: List.replicate n (.taskStep true)) = some x' ∧
      x'.taskThread = .returned ∧ (s.handleReceive o buffer error read).Serves c x' := by
  obtain ⟨⟨isError, reason⟩, hcall⟩ := Option.ne_none_iff_exists'.mp hends
  let x₁ : ClientSocket := { x with
    tasks := rest, taskThread := .handleClientClose isError reason }
  have hstep : x.step .runTask = some x₁ := by
    simp [ClientSocket.step, ClientSocket.runTask, hidle, htasks, hcall, x₁]
  have hrun := ClientSocket.run_taskStep x₁ 5
  rw [ClientSocket.advances_handleClientClose] at hrun
  refine ⟨5, _, ClientSocket.machine.run_cons.mpr ⟨x₁, hstep, hrun⟩, rfl, ?_⟩
  have hserves : s.Serves c x₁ := ⟨hx.isRunning, hx.session, hx.told, hx.closes⟩
  simp only [handleReceive, hcall, ho]
  exact (h.serves_handleClientClose hy hserves isError reason).threads _ _

end TcpServer

end Lmnet.Windows
