import Lmnet.Windows.TcpClient

/-!
`Connect` on one thread and `HandleConnect` on the thread of the task queue, each access
to the data they share a step of its own: the critical sections of `connectMutex_`, the
accesses to `socketGeneration_`, `isRunning_` and `isConnected_`, the submission of a
request and its callback.
-/

set_option autoImplicit false

namespace Lmnet.Windows

/-- Where the thread that calls `Connect` stands. In `advance` and `replace` it is inside
`ReInit`, after the five seconds or after a submission that failed. -/
inductive Caller where
  | idle
  | checkConnected
  | begin
  | load
  | submit (generation : Nat)
  | fail
  | advance (timedOut : Bool)
  | replace (timedOut : Bool)
  | wait
  deriving DecidableEq, Repr

/-- Where the thread of the task queue stands: in `HandleConnect`, in its `ReInit`, in its
`SubmitRead` or in the `HandleClose` of that. -/
inductive TaskThread where
  | idle
  | publish (generation connectError : Nat)
  | advance
  | replace
  | checkRunning
  | checkConnected
  | load
  | submit (generation : Nat)
  | disconnect (isError : Bool)
  | stop (fd : Option Nat) (wasConnected isError : Bool)
  | closeAdvance (fd : Option Nat) (wasConnected isError : Bool)
  | dropSocket (fd : Option Nat) (wasConnected isError : Bool)
  | abandon (fd : Option Nat) (wasConnected isError : Bool)
  | notify (fd : Option Nat) (isError : Bool)
  deriving DecidableEq, Repr

/-- The client with the two threads; its field `waiting` is not used here. -/
structure ConnectThreads where
  client : TcpClient
  caller : Caller
  taskThread : TaskThread
  deriving DecidableEq, Repr

/-- `start` is the task thread taking up a queued `HandleConnect`. -/
inductive ConnectAct where
  | caller (submitted : Bool) (reInit : ReInitOutcome)
  | timeout
  | complete (k error : Nat)
  | start (k setsockopt : Nat)
  | taskThread (submitted benign : Bool) (reInit : ReInitOutcome)
  deriving DecidableEq, Repr

namespace ConnectThreads

def ready : ConnectThreads := ⟨TcpClient.created.init true true .created, .idle, .idle⟩

def stepCaller (s : ConnectThreads) (submitted : Bool) (outcome : ReInitOutcome) :
    Option ConnectThreads :=
  match s.caller with
  | .idle => some { s with caller := if s.client.isRunning then .checkConnected else .idle }
  | .checkConnected => some { s with caller := if s.client.isConnected then .idle else .begin }
  | .begin =>
      if s.client.connectPending then some { s with caller := .idle }
      else some { s with client := s.client.beginConnect, caller := .load }
  | .load => some { s with caller := .submit s.client.socketGeneration }
  | .submit generation =>
      if submitted then
        let io : ClientIo := ⟨.connect, generation, s.client.socket⟩
        some { s with
          client := { s.client with posted := s.client.posted ++ [io] }
          caller := .wait }
      else some { s with caller := .fail }
  | .fail => some { s with client := s.client.failConnect, caller := .advance false }
  | .advance timedOut =>
      some { s with client := s.client.advanceGeneration, caller := .replace timedOut }
  | .replace timedOut =>
      some { s with
        client := s.client.replaceSocket outcome
        caller := if timedOut then .idle else .wait }
  | .wait => if s.client.connectPending then none else some { s with caller := .idle }

def timeout (s : ConnectThreads) : Option ConnectThreads :=
  if s.caller = .wait ∧ s.client.connectPending = true then
    some { s with client := { s.client with connectPending := false }, caller := .advance true }
  else none

def complete (s : ConnectThreads) (k error : Nat) : Option ConnectThreads :=
  match s.client.posted[k]? with
  | some ⟨.connect, _, _⟩ =>
      (s.client.complete k 0 error).map fun client => { s with client := client }
  | _ => none

def start (s : ConnectThreads) (k setsockopt : Nat) : Option ConnectThreads :=
  match s.taskThread, s.client.tasks[k]? with
  | .idle, some ⟨⟨.connect, generation, _⟩, _, error⟩ =>
      let connectError := if error = 0 then setsockopt else error
      some { s with
        client := { s.client with tasks := s.client.tasks.eraseIdx k }
        taskThread :=
          if s.client.isCurrentGeneration generation then .publish generation connectError
          else .idle }
  | _, _ => none

def stepTaskThread (s : ConnectThreads) (submitted benign : Bool) (outcome : ReInitOutcome) :
    Option ConnectThreads :=
  match s.taskThread with
  | .idle => none
  | .publish _ connectError =>
      some { s with
        client := s.client.publishConnect connectError
        taskThread := if connectError = 0 then .checkRunning else .advance }
  | .advance => some { s with client := s.client.advanceGeneration, taskThread := .replace }
  | .replace => some { s with client := s.client.replaceSocket outcome, taskThread := .idle }
  | .checkRunning =>
      some { s with taskThread := if s.client.isRunning then .checkConnected else .idle }
  | .checkConnected =>
      some { s with taskThread := if s.client.isConnected then .load else .idle }
  | .load => some { s with taskThread := .submit s.client.socketGeneration }
  | .submit generation =>
      if submitted then
        let io : ClientIo := ⟨.read, generation, s.client.socket⟩
        some { s with
          client := { s.client with posted := s.client.posted ++ [io] }, taskThread := .idle }
      else
        let isError := s.client.isRunning && s.client.isConnected && !benign
        some { s with taskThread := .disconnect isError }
  | .disconnect isError =>
      some { s with
        client := { s.client with isConnected := false }
        taskThread := .stop s.client.socket s.client.isConnected isError }
  | .stop fd wasConnected isError =>
      some { s with
        client := { s.client with isRunning := false }
        taskThread := .closeAdvance fd wasConnected isError }
  | .closeAdvance fd wasConnected isError =>
      some { s with
        client := s.client.advanceGeneration
        taskThread := .dropSocket fd wasConnected isError }
  | .dropSocket fd wasConnected isError =>
      some { s with
        client := s.client.dropSocket
        taskThread := .abandon fd wasConnected isError }
  | .abandon fd wasConnected isError =>
      some { s with
        client := s.client.abandonConnect (if isError then ERROR_OPERATION_ABORTED else 0)
        taskThread := if wasConnected then .notify fd isError else .idle }
  | .notify fd isError =>
      some { s with client := s.client.notifyClose fd isError, taskThread := .idle }

def step (s : ConnectThreads) : ConnectAct → Option ConnectThreads
  | .caller submitted outcome => s.stepCaller submitted outcome
  | .timeout => s.timeout
  | .complete k error => s.complete k error
  | .start k setsockopt => s.start k setsockopt
  | .taskThread submitted benign outcome => s.stepTaskThread submitted benign outcome

def machine : Machine ConnectThreads ConnectAct where
  init s := s = ready
  step := step

def Waiting (s : ConnectThreads) : Prop := s.caller = .wait ∧ s.client.connectPending = true

instance (s : ConnectThreads) : Decidable s.Waiting := inferInstanceAs (Decidable (_ ∧ _))

end ConnectThreads

def Caller.failed : Caller → Bool
  | .advance timedOut | .replace timedOut => !timedOut
  | _ => false

def TaskThread.publishing : TaskThread → List Nat
  | .publish generation _ => [generation]
  | _ => []

/-- `HandleConnect` is about to advance the generation, in `ReInit` or in `HandleClose`. -/
def TaskThread.advances : TaskThread → Bool
  | .advance | .closeAdvance _ _ _ => true
  | _ => false

namespace TcpClient

def connects (s : TcpClient) : List Nat :=
  (s.outstanding.filter fun io => io.kind == .connect).map ClientIo.generation

end TcpClient

namespace ConnectThreads

def attempts (s : ConnectThreads) : List Nat := s.client.connects ++ s.taskThread.publishing

/-- A blocked `Connect` has an attempt of the current generation. -/
def LiveAttempt (s : ConnectThreads) : Prop :=
  s.Waiting → s.client.socketGeneration ∈ s.attempts

instance (s : ConnectThreads) : Decidable s.LiveAttempt :=
  inferInstanceAs (Decidable (_ → _))

/-- The condition on a step: `HandleConnect` does not advance the generation while a
`Connect` is blocked, and a request that is submitted for a pending `Connect` has the
generation that is still the current one. -/
def KeepsAttempt (s : ConnectThreads) : ConnectAct → Prop
  | .taskThread _ _ _ => s.taskThread.advances = true → ¬ s.Waiting
  | .caller submitted _ =>
      ∀ generation, s.caller = .submit generation → submitted = true →
        s.client.connectPending = true → generation = s.client.socketGeneration
  | _ => True

def Failed (s : ConnectThreads) : Prop :=
  s.caller.failed = true → s.client.connectPending = false

inductive Effect (s t : ConnectThreads) : ConnectAct → Prop
  | kept {a : ConnectAct} (hgen : t.client.socketGeneration = s.client.socketGeneration)
      (hlive : s.client.socketGeneration ∈ s.attempts → s.client.socketGeneration ∈ t.attempts)
      (hsub : t.attempts ⊆ s.attempts) (hwaiting : t.Waiting → s.Waiting)
      (hcaller : t.caller = s.caller ∨ ∀ g, t.caller = .submit g → g = s.client.socketGeneration)
      (hkeeps : s.KeepsAttempt a) : Effect s t a
  | settled {a : ConnectAct} (hgen : t.client.socketGeneration = s.client.socketGeneration)
      (hsub : t.attempts ⊆ s.attempts) (hwaiting : ¬ t.Waiting)
      (hcaller : ∀ g, t.caller = .submit g → s.caller = .submit g)
      (hkeeps : s.KeepsAttempt a) : Effect s t a
  | advanced {submitted benign : Bool} {outcome : ReInitOutcome}
      (hadvances : s.taskThread.advances = true)
      (hgen : t.client.socketGeneration = s.client.socketGeneration + 1)
      (hsame : t.attempts = s.attempts) (hwaiting : t.Waiting ↔ s.Waiting)
      (hcaller : t.caller = s.caller) : Effect s t (.taskThread submitted benign outcome)
  | renewed {a : ConnectAct} (hgen : t.client.socketGeneration = s.client.socketGeneration + 1)
      (hsame : t.attempts = s.attempts) (hcaller : ∃ timedOut, t.caller = .replace timedOut)
      (hkeeps : s.KeepsAttempt a) : Effect s t a
  | submitted {generation : Nat} {outcome : ReInitOutcome}
      (hsubmit : s.caller = .submit generation)
      (hgen : t.client.socketGeneration = s.client.socketGeneration)
      (hmem : ∀ g, g ∈ t.attempts ↔ g ∈ s.attempts ∨ g = generation)
      (hwait : t.caller = .wait) (hpending : t.client.connectPending = s.client.connectPending) :
      Effect s t (.caller true outcome)

theorem connects_congr {c d : TcpClient} (h : d.outstanding = c.outstanding) :
    d.connects = c.connects := by
  rw [TcpClient.connects, TcpClient.connects, h]

theorem mem_attempts {s : ConnectThreads} {g : Nat} : g ∈ s.attempts ↔
    (∃ io ∈ s.client.posted, io.kind = .connect ∧ io.generation = g) ∨
      (∃ task ∈ s.client.tasks, task.io.kind = .connect ∧ task.io.generation = g) ∨
      g ∈ s.taskThread.publishing := by
  simp only [attempts, TcpClient.connects, TcpClient.outstanding, List.filter_append,
    List.map_append, List.mem_append, List.mem_map, List.mem_filter, beq_iff_eq, or_assoc]
  simp [and_assoc]

theorem attempts_post {s : ConnectThreads} {io : ClientIo} {caller : Caller} {g : Nat}
    (hio : io.kind = .connect) : g ∈ ({ s with
      client := { s.client with posted := s.client.posted ++ [io] }, caller := caller } :
      ConnectThreads).attempts ↔ g ∈ s.attempts ∨ g = io.generation := by
  simp only [mem_attempts, List.mem_append, List.mem_singleton]
  constructor
  · rintro (⟨x, hx | rfl, hkind, rfl⟩ | hrest)
    · exact .inl (.inl ⟨x, hx, hkind, rfl⟩)
    · exact .inr rfl
    · exact .inl (.inr hrest)
  · rintro ((⟨x, hx, hkind, rfl⟩ | hrest) | rfl)
    · exact .inl ⟨x, .inl hx, hkind, rfl⟩
    · exact .inr hrest
    · exact .inl ⟨io, .inr rfl, hio, rfl⟩

theorem Effect.onward {s t : ConnectThreads} {a : ConnectAct}
    (hgen : t.client.socketGeneration = s.client.socketGeneration)
    (hsame : t.attempts = s.attempts) (hwait : t.caller ≠ .wait)
    (hsubmit : ∀ g, t.caller = .submit g → g = s.client.socketGeneration)
    (hkeeps : s.KeepsAttempt a) : Effect s t a :=
  .kept hgen (fun h => hsame ▸ h) (fun _ h => hsame ▸ h) (fun hw => absurd hw.1 hwait)
    (.inr hsubmit) hkeeps

@[simp] theorem outstanding_closesocket (c : TcpClient) :
    c.closesocket.outstanding = c.outstanding := by
  unfold TcpClient.closesocket
  split <;> rfl

@[simp] theorem socketGeneration_closesocket (c : TcpClient) :
    c.closesocket.socketGeneration = c.socketGeneration := by
  unfold TcpClient.closesocket
  split <;> rfl

@[simp] theorem connectPending_closesocket (c : TcpClient) :
    c.closesocket.connectPending = c.connectPending := by
  unfold TcpClient.closesocket
  split <;> rfl

theorem outstanding_abandonConnect (c : TcpClient) (abortError : Nat) :
    (c.abandonConnect abortError).outstanding = c.outstanding := by
  unfold TcpClient.abandonConnect
  split <;> rfl

theorem socketGeneration_abandonConnect (c : TcpClient) (abortError : Nat) :
    (c.abandonConnect abortError).socketGeneration = c.socketGeneration := by
  unfold TcpClient.abandonConnect
  split <;> rfl

theorem outstanding_replaceSocket (c : TcpClient) (outcome : ReInitOutcome) :
    (c.replaceSocket outcome).outstanding = c.outstanding := by
  cases outcome <;> exact outstanding_closesocket c

theorem socketGeneration_replaceSocket (c : TcpClient) (outcome : ReInitOutcome) :
    (c.replaceSocket outcome).socketGeneration = c.socketGeneration := by
  cases outcome <;> exact socketGeneration_closesocket c

theorem connectPending_replaceSocket (c : TcpClient) (outcome : ReInitOutcome) :
    (c.replaceSocket outcome).connectPending = c.connectPending := by
  cases outcome <;> exact connectPending_closesocket c

theorem stepCaller_effect {s t : ConnectThreads} {submitted : Bool} {outcome : ReInitOutcome}
    (hfailed : s.Failed) (h : s.stepCaller submitted outcome = some t) :
    Effect s t (.caller submitted outcome) := by
  unfold stepCaller at h
  have hkeeps : (∀ g, s.caller ≠ .submit g) → s.KeepsAttempt (.caller submitted outcome) :=
    fun hne g hg => absurd hg (hne g)
  cases hcaller : s.caller with
  | idle =>
    rw [hcaller] at h
    cases h
    refine .onward rfl rfl ?_ (fun g hg => ?_) (hkeeps (by simp [hcaller]))
    · dsimp only
      split <;> simp
    · split at hg <;> cases hg
  | checkConnected =>
    rw [hcaller] at h
    cases h
    refine .onward rfl rfl ?_ (fun g hg => ?_) (hkeeps (by simp [hcaller]))
    · dsimp only
      split <;> simp
    · split at hg <;> cases hg
  | begin =>
    rw [hcaller] at h
    dsimp only at h
    split at h
    · cases h
      exact .onward rfl rfl (by simp) (by simp) (hkeeps (by simp [hcaller]))
    · cases h
      exact .onward rfl rfl (by simp) (by simp) (hkeeps (by simp [hcaller]))
  | load =>
    rw [hcaller] at h
    cases h
    refine .onward rfl rfl (by simp) (fun g hg => ?_) (hkeeps (by simp [hcaller]))
    cases hg
    rfl
  | submit generation =>
    rw [hcaller] at h
    cases submitted with
    | true =>
      cases h
      exact .submitted hcaller rfl (fun g => attempts_post rfl) rfl rfl
    | false =>
      cases h
      exact .onward rfl rfl (by simp) (by simp) fun g _ hfalse => nomatch hfalse
  | fail =>
    rw [hcaller] at h
    cases h
    exact .onward rfl rfl (by simp) (by simp) (hkeeps (by simp [hcaller]))
  | advance timedOut =>
    rw [hcaller] at h
    cases h
    exact .renewed rfl rfl ⟨timedOut, rfl⟩ (hkeeps (by simp [hcaller]))
  | replace timedOut =>
    rw [hcaller] at h
    cases h
    have hsame : (s.client.replaceSocket outcome).connects = s.client.connects :=
      connects_congr (outstanding_replaceSocket s.client outcome)
    have hattempts : (s.client.replaceSocket outcome).connects ++ s.taskThread.publishing =
        s.attempts := by
      rw [hsame, attempts]
    have hgen := socketGeneration_replaceSocket s.client outcome
    cases timedOut with
    | true => exact .onward hgen hattempts (by simp) (by simp) (hkeeps (by simp [hcaller]))
    | false =>
      refine .settled hgen (fun _ h => hattempts ▸ h) (fun hw => ?_) (by simp)
        (hkeeps (by simp [hcaller]))
      have hpending := hw.2
      rw [connectPending_replaceSocket, hfailed (by rw [hcaller]; rfl)] at hpending
      cases hpending
  | wait =>
    rw [hcaller] at h
    dsimp only at h
    split at h
    · cases h
    · cases h
      exact .onward rfl rfl (by simp) (by simp) (hkeeps (by simp [hcaller]))

theorem stepTaskThread_pending {s t : ConnectThreads} {submitted benign : Bool}
    {outcome : ReInitOutcome} (h : s.stepTaskThread submitted benign outcome = some t) :
    t.caller = s.caller ∧
      (t.client.connectPending = true → s.client.connectPending = true) := by
  unfold stepTaskThread at h
  cases hthread : s.taskThread with
  | idle => simp [hthread] at h
  | publish generation connectError =>
    rw [hthread] at h
    cases h
    exact ⟨rfl, fun hpending => nomatch hpending⟩
  | replace =>
    rw [hthread] at h
    cases h
    exact ⟨rfl, fun hpending => connectPending_replaceSocket s.client outcome ▸ hpending⟩
  | dropSocket =>
    rw [hthread] at h
    cases h
    exact ⟨rfl, fun hpending => connectPending_closesocket s.client ▸ hpending⟩
  | submit generation =>
    rw [hthread] at h
    cases submitted with
    | true =>
      cases h
      exact ⟨rfl, id⟩
    | false =>
      cases h
      exact ⟨rfl, id⟩
  | abandon fd wasConnected isError =>
    rw [hthread] at h
    cases h
    refine ⟨rfl, ?_⟩
    dsimp only [TcpClient.abandonConnect]
    split
    · exact fun hpending => nomatch hpending
    · exact id
  | advance | checkRunning | checkConnected | load | disconnect | stop | closeAdvance | notify =>
    rw [hthread] at h
    cases h
    exact ⟨rfl, id⟩

theorem Effect.aside {s t : ConnectThreads} {submitted benign : Bool} {outcome : ReInitOutcome}
    (h : s.stepTaskThread submitted benign outcome = some t)
    (hadvances : s.taskThread.advances = false)
    (hgen : t.client.socketGeneration = s.client.socketGeneration)
    (hsame : t.attempts = s.attempts) : Effect s t (.taskThread submitted benign outcome) := by
  obtain ⟨hcaller, hpending⟩ := stepTaskThread_pending h
  refine .kept hgen (fun h => hsame ▸ h) (fun _ h => hsame ▸ h) (fun hw => ?_) (.inl hcaller) ?_
  · exact ⟨hcaller ▸ hw.1, hpending hw.2⟩
  · intro h
    rw [hadvances] at h
    cases h

theorem stepTaskThread_effect {s t : ConnectThreads} {submitted benign : Bool}
    {outcome : ReInitOutcome} (h : s.stepTaskThread submitted benign outcome = some t) :
    Effect s t (.taskThread submitted benign outcome) := by
  have haside := Effect.aside h
  unfold stepTaskThread at h
  cases hthread : s.taskThread with
  | idle => simp [hthread] at h
  | publish generation connectError =>
    rw [hthread] at h
    cases h
    refine .settled rfl ?_ (fun hw => nomatch hw.2) (fun _ => id) ?_
    · have hnone : (if connectError = 0 then TaskThread.checkRunning
          else .advance).publishing = [] := by
        split <;> rfl
      intro g hg
      simp only [attempts, hnone, List.append_nil] at hg
      exact List.mem_append_left _ hg
    · intro hadvances
      simp [hthread, TaskThread.advances] at hadvances
  | advance =>
    rw [hthread] at h
    cases h
    refine .advanced (by rw [hthread]; rfl) rfl ?_ Iff.rfl rfl
    simp only [attempts, hthread]
    rfl
  | closeAdvance fd wasConnected isError =>
    rw [hthread] at h
    cases h
    refine .advanced (by rw [hthread]; rfl) rfl ?_ Iff.rfl rfl
    simp only [attempts, hthread]
    rfl
  | replace =>
    rw [hthread] at h haside
    cases h
    refine haside rfl (socketGeneration_replaceSocket s.client outcome) ?_
    rw [attempts, attempts, hthread]
    exact congrArg (· ++ []) (connects_congr (outstanding_replaceSocket s.client outcome))
  | dropSocket fd wasConnected isError =>
    rw [hthread] at h haside
    cases h
    refine haside rfl (socketGeneration_closesocket s.client) ?_
    rw [attempts, attempts, hthread]
    exact congrArg (· ++ []) (connects_congr (outstanding_closesocket s.client))
  | abandon fd wasConnected isError =>
    rw [hthread] at h haside
    cases h
    have hnone : (if wasConnected then TaskThread.notify fd isError
        else .idle).publishing = [] := by
      split <;> rfl
    refine haside rfl (socketGeneration_abandonConnect s.client _) ?_
    rw [attempts, attempts, hthread, hnone]
    exact congrArg (· ++ []) (connects_congr (outstanding_abandonConnect s.client _))
  | submit generation =>
    rw [hthread] at h haside
    cases submitted with
    | true =>
      cases h
      refine haside rfl rfl ?_
      rw [attempts, attempts, hthread]
      simp [TcpClient.connects, TcpClient.outstanding, TaskThread.publishing]
    | false =>
      cases h
      refine haside rfl rfl ?_
      rw [attempts, attempts, hthread]
      rfl
  | checkRunning =>
    rw [hthread] at h haside
    cases h
    refine haside rfl rfl ?_
    rw [attempts, attempts, hthread]
    dsimp only
    split <;> rfl
  | checkConnected =>
    rw [hthread] at h haside
    cases h
    refine haside rfl rfl ?_
    rw [attempts, attempts, hthread]
    dsimp only
    split <;> rfl
  | load | disconnect | stop | notify =>
    rw [hthread] at h haside
    cases h
    refine haside rfl rfl ?_
    rw [attempts, attempts, hthread]
    rfl

theorem complete_effect {s t : ConnectThreads} {k error : Nat} (h : s.complete k error = some t) :
    Effect s t (.complete k error) := by
  unfold complete at h
  split at h
  · rename_i generation socket hio
    simp only [TcpClient.complete, hio, Option.map_some, Option.some.injEq] at h
    subst h
    refine .kept rfl (fun hlive => ?_) (fun g hg => ?_) id (.inl rfl) trivial
    · rw [mem_attempts] at hlive ⊢
      dsimp only
      obtain ⟨io, hmem, hkind, hgen⟩ | ⟨task, hmem, hrest⟩ | hpublishing := hlive
      · obtain rfl | hmem := List.eq_or_mem_eraseIdx hio hmem
        · let task : ClientTask := ⟨⟨.connect, generation, socket⟩, 0, error⟩
          refine .inr (.inl ⟨task, List.mem_append_right _ ?_, hkind, hgen⟩)
          have hcurrent : s.client.isCurrentGeneration generation = true := by
            simpa [TcpClient.isCurrentGeneration] using hgen.symm
          simp [hcurrent, task]
        · exact .inl ⟨io, hmem, hkind, hgen⟩
      · exact .inr (.inl ⟨task, List.mem_append_left _ hmem, hrest⟩)
      · exact .inr (.inr hpublishing)
    · rw [mem_attempts] at hg ⊢
      obtain ⟨io, hmem, hrest⟩ | ⟨task, hmem, hrest⟩ | hpublishing := hg
      · exact .inl ⟨io, List.mem_of_mem_eraseIdx hmem, hrest⟩
      · obtain hmem | hmem := List.mem_append.mp hmem
        · exact .inr (.inl ⟨task, hmem, hrest⟩)
        · split at hmem
          · obtain rfl := List.mem_singleton.mp hmem
            exact .inl ⟨_, List.mem_of_getElem? hio, hrest⟩
          · cases hmem
      · exact .inr (.inr hpublishing)
  · cases h

theorem start_effect {s t : ConnectThreads} {k setsockopt : Nat}
    (h : s.start k setsockopt = some t) : Effect s t (.start k setsockopt) := by
  unfold start at h
  split at h
  · rename_i generation socket bytes error hidle htask
    cases h
    refine .kept rfl (fun hlive => ?_) (fun g hg => ?_) id (.inl rfl) trivial
    · rw [mem_attempts, hidle] at hlive
      rw [mem_attempts]
      obtain ⟨io, hmem, hrest⟩ | ⟨task, hmem, hkind, hgen⟩ | hpublishing := hlive
      · exact .inl ⟨io, hmem, hrest⟩
      · obtain rfl | hmem := List.eq_or_mem_eraseIdx htask hmem
        · refine .inr (.inr ?_)
          have hcurrent : s.client.isCurrentGeneration generation = true := by
            simpa [TcpClient.isCurrentGeneration] using hgen.symm
          rw [if_pos hcurrent]
          exact List.mem_singleton.mpr hgen.symm
        · exact .inr (.inl ⟨task, hmem, hkind, hgen⟩)
      · cases hpublishing
    · rw [mem_attempts] at hg ⊢
      obtain ⟨io, hmem, hrest⟩ | ⟨task, hmem, hrest⟩ | hpublishing := hg
      · exact .inl ⟨io, hmem, hrest⟩
      · exact .inr (.inl ⟨task, List.mem_of_mem_eraseIdx hmem, hrest⟩)
      · dsimp only at hpublishing
        split at hpublishing
        · obtain rfl := List.mem_singleton.mp hpublishing
          exact .inr (.inl ⟨_, List.mem_of_getElem? htask, rfl, rfl⟩)
        · cases hpublishing
  · cases h

theorem step_effect {s t : ConnectThreads} {a : ConnectAct} (hfailed : s.Failed)
    (h : machine.step s a = some t) : Effect s t a := by
  cases a with
  | caller submitted outcome => exact stepCaller_effect hfailed h
  | timeout =>
    simp only [machine, step, timeout] at h
    split at h
    · cases h
      exact .onward rfl rfl (by simp) (by simp) trivial
    · cases h
  | complete k error => exact complete_effect h
  | start k setsockopt => exact start_effect h
  | taskThread submitted benign outcome => exact stepTaskThread_effect h

theorem step_failed {s t : ConnectThreads} {a : ConnectAct} (hfailed : s.Failed)
    (h : machine.step s a = some t) : t.Failed := by
  intro ht
  cases a with
  | caller submitted outcome =>
    simp only [machine, step, stepCaller] at h
    cases hcaller : s.caller with
    | idle =>
      rw [hcaller] at h
      cases h
      dsimp only at ht
      split at ht <;> cases ht
    | checkConnected =>
      rw [hcaller] at h
      cases h
      dsimp only at ht
      split at ht <;> cases ht
    | begin =>
      rw [hcaller] at h
      dsimp only at h
      split at h <;> cases h <;> cases ht
    | submit generation =>
      rw [hcaller] at h
      cases submitted <;> cases h <;> cases ht
    | wait =>
      rw [hcaller] at h
      dsimp only at h
      split at h
      · cases h
      · cases h
        cases ht
    | advance timedOut =>
      rw [hcaller] at h
      cases h
      exact hfailed (hcaller ▸ ht)
    | replace timedOut =>
      rw [hcaller] at h
      cases h
      cases timedOut <;> cases ht
    | load =>
      rw [hcaller] at h
      cases h
      cases ht
    | fail =>
      rw [hcaller] at h
      cases h
      rfl
  | timeout =>
    simp only [machine, step, timeout] at h
    split at h
    · cases h
      rfl
    · cases h
  | complete k error =>
    simp only [machine, step, complete] at h
    split at h
    · obtain ⟨client, hclient, rfl⟩ := Option.map_eq_some_iff.mp h
      obtain ⟨io, -, rfl⟩ := Option.map_eq_some_iff.mp hclient
      exact hfailed ht
    · cases h
  | start k setsockopt =>
    simp only [machine, step, start] at h
    split at h
    · cases h
      exact hfailed ht
    · cases h
  | taskThread submitted benign outcome =>
    obtain ⟨hcaller, hpending⟩ := stepTaskThread_pending h
    have hs := hfailed (hcaller ▸ ht)
    cases htrue : t.client.connectPending with
    | false => rfl
    | true =>
      rw [hpending htrue] at hs
      cases hs

/-- No attempt is ahead of the generation, and while a submission with an old one is under
way there is none of the current one. -/
structure Inv (s : ConnectThreads) : Prop where
  bounded : ∀ g ∈ s.attempts, g ≤ s.client.socketGeneration
  old : ∀ g, s.caller = .submit g → g ≤ s.client.socketGeneration ∧
    (g ≠ s.client.socketGeneration → s.client.socketGeneration ∉ s.attempts)
  failed : s.Failed
  live : s.LiveAttempt

theorem Effect.inv {s t : ConnectThreads} {a : ConnectAct} (hs : s.Inv) (h : Effect s t a)
    (hfailed : t.Failed) (hkeeps : s.KeepsAttempt a) : t.Inv := by
  cases h with
  | kept hgen hlive hsub hwaiting hcaller =>
    refine ⟨fun g hg => ?_, fun g hg => ?_, hfailed, fun hw => ?_⟩
    · rw [hgen]
      exact hs.bounded g (hsub hg)
    · rw [hgen]
      obtain hsame | hcurrent := hcaller
      · obtain ⟨hle, hnone⟩ := hs.old g (hsame ▸ hg)
        exact ⟨hle, fun hne hmem => hnone hne (hsub hmem)⟩
      · exact ⟨Nat.le_of_eq (hcurrent g hg), fun hne => absurd (hcurrent g hg) hne⟩
    · rw [hgen]
      exact hlive (hs.live (hwaiting hw))
  | settled hgen hsub hwaiting hcaller =>
    refine ⟨fun g hg => ?_, fun g hg => ?_, hfailed, fun hw => absurd hw hwaiting⟩
    · rw [hgen]
      exact hs.bounded g (hsub hg)
    · rw [hgen]
      obtain ⟨hle, hnone⟩ := hs.old g (hcaller g hg)
      exact ⟨hle, fun hne hmem => hnone hne (hsub hmem)⟩
  | advanced hadvances hgen hsame hwaiting hcaller =>
    have hnone : t.client.socketGeneration ∉ t.attempts := by
      intro hmem
      have hle := hs.bounded _ (hsame ▸ hmem)
      omega
    refine ⟨fun g hg => ?_, fun g hg => ⟨?_, fun _ => hnone⟩, hfailed, fun hw => ?_⟩
    · have hle := hs.bounded g (hsame ▸ hg)
      omega
    · have hle := (hs.old g (hcaller ▸ hg)).1
      omega
    · exact absurd (hwaiting.mp hw) (hkeeps hadvances)
  | renewed hgen hsame hcaller =>
    obtain ⟨timedOut, hcaller⟩ := hcaller
    refine ⟨fun g hg => ?_, fun g hg => ?_, hfailed, fun hw => ?_⟩
    · have hle := hs.bounded g (hsame ▸ hg)
      omega
    · rw [hcaller] at hg
      cases hg
    · rw [Waiting, hcaller] at hw
      cases hw.1
  | submitted hsubmit hgen hmem hwait hpending =>
    refine ⟨fun g hg => ?_, fun g hg => ?_, hfailed, fun hw => ?_⟩
    · rw [hgen]
      obtain hg | rfl := (hmem g).mp hg
      · exact hs.bounded g hg
      · exact (hs.old g hsubmit).1
    · rw [hwait] at hg
      cases hg
    · rw [hmem, hgen]
      exact .inr (hkeeps _ hsubmit rfl (hpending ▸ hw.2)).symm

/-- A step after which the blocked `Connect` has its attempt has kept it. -/
theorem Effect.keeps {s t : ConnectThreads} {a : ConnectAct} (hs : s.Inv) (h : Effect s t a)
    (hlive : t.LiveAttempt) : s.KeepsAttempt a := by
  cases h with
  | kept hgen hlive hsub hwaiting hcaller hkeeps => exact hkeeps
  | settled hgen hsub hwaiting hcaller hkeeps => exact hkeeps
  | renewed hgen hsame hcaller hkeeps => exact hkeeps
  | advanced hadvances hgen hsame hwaiting hcaller =>
    intro _ hw
    have hmem := hlive (hwaiting.mpr hw)
    have hle := hs.bounded _ (hsame ▸ hmem)
    omega
  | @submitted generation outcome hsubmit hgen hmem hwait hpending =>
    intro g hg _ htrue
    obtain rfl : generation = g := by
      rw [hsubmit] at hg
      exact Caller.submit.inj hg
    have hlast := (hmem _).mp (hlive ⟨hwait, hpending ▸ htrue⟩)
    rw [hgen] at hlast
    by_contra hne
    obtain hlast | hlast := hlast
    · exact (hs.old generation hsubmit).2 hne hlast
    · exact hne hlast.symm

theorem inv_ready : ready.Inv where
  bounded g hg := by cases hg
  old g hg := by cases hg
  failed h := by cases h
  live h := by cases h.1

/-- In every run from `Init` on, a blocked `Connect` has an attempt of the current
generation all the time if and only if no `HandleConnect` advances the generation meanwhile
and each request is submitted with the current one. -/
theorem liveAttempt_iff_keeps (as : List ConnectAct) :
    machine.Every (fun _ _ t => t.LiveAttempt) ready as ↔
      machine.Every (fun s a _ => s.KeepsAttempt a) ready as := by
  refine machine.every_iff_every (I := Inv) (fun s a t hs h hkeeps => ?_)
    (fun s a t hs h hlive => ?_) inv_ready
  · have hinv := (step_effect hs.failed h).inv hs (step_failed hs.failed h) hkeeps
    exact ⟨hinv, hinv.live⟩
  · exact (step_effect hs.failed h).keeps hs hlive

/-- The connect fails, `Connect` returns and is called again, and its request is submitted
before `HandleConnect` advances the generation: when the request succeeds, nobody is told,
and `Connect` waits until its time is over. -/
def retryBeforeReInit : List ConnectAct :=
  let caller : ConnectAct := .caller true .created
  let taskThread : ConnectAct := .taskThread true false .created
  [caller, caller, caller, caller, caller, .complete 0 10061, .start 0 0, taskThread, caller,
    caller, caller, caller, caller, caller, taskThread, taskThread, .complete 0 0, .start 0 0,
    .timeout]

theorem retryBeforeReInit_stale :
    (machine.run ready retryBeforeReInit).isSome ∧
      ¬ ∀ as : List ConnectAct, machine.Every (fun _ _ t => t.LiveAttempt) ready as := by
  refine ⟨by decide, fun h => ?_⟩
  have hrun : machine.run ready (retryBeforeReInit.take 14) =
      some ((machine.run ready (retryBeforeReInit.take 14)).get (by decide)) := by simp
  have hlive := machine.every_at hrun (a := .taskThread true false .created) rfl
    (h (retryBeforeReInit.take 15))
  exact absurd hlive (by decide)

end ConnectThreads

end Lmnet.Windows
