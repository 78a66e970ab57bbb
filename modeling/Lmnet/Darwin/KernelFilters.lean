import Lmnet.Darwin.EventReactor
import Lmnet.Epoll.InterestList

/-!
The kqueue `EventReactor` and the kernel: what any calls of `RegisterHandler`, `RemoveHandler` and
`ModifyHandler` leave in the two tables and among the filters that are enabled.
-/

set_option autoImplicit false

namespace Lmnet.Darwin

open Lmnet.Epoll (EventType hasEvent)

inductive ChangeFilter where
  | read | write
  deriving DecidableEq, Repr

def ChangeFilter.event : ChangeFilter → EventType
  | .read => .read
  | .write => .write

structure Change where
  filter : ChangeFilter
  enable : Bool
  deriving DecidableEq, Repr

def syncFilter (newEvents oldEvents : Nat) (f : ChangeFilter) : List Change :=
  let had := hasEvent oldEvents f.event
  let want := hasEvent newEvents f.event
  if had && !want then [⟨f, false⟩]
  else if !had && want then [⟨f, true⟩]
  else if had && want then [⟨f, true⟩]
  else []

def changes (newEvents oldEvents : Nat) : List Change :=
  syncFilter newEvents oldEvents .read ++ syncFilter newEvents oldEvents .write

/-- The filters that the kernel has enabled. -/
abbrev Filters := Fd → ChangeFilter → Bool

def Filters.set (k : Filters) (fd : Fd) (f : ChangeFilter) (enabled : Bool) : Filters :=
  fun fd' f' => if fd' = fd ∧ f' = f then enabled else k fd' f'

abbrev Failures := ChangeFilter → Option Int

/-- `kevent` with a change list and no event list: the changes are made in order, up to the
first that fails. -/
def kevent (k : Filters) (fd : Fd) (fails : Failures) : List Change → Filters × Option Int
  | [] => (k, none)
  | c :: cs =>
      match fails c.filter with
      | some errno => (k, some errno)
      | none => kevent (k.set fd c.filter c.enable) fd fails cs

/-- The reactor, and the filters of its kqueue. -/
@[ext] structure Registrations (η : Type) where
  reactor : EventReactor η
  filters : Filters

abbrev FilterCall (η : Type) := ReactorCall η Failures

variable {η : Type}

def FilterCall.outcome : FilterCall η → Failures
  | .registerHandler _ _ _ fails => fails
  | .removeHandler _ fails => fails
  | .modifyHandler _ _ fails => fails

def EventReactor.entry (r : EventReactor η) (fd : Fd) : Nat := (r.handlerEvents.lookup fd).getD 0

structure Request where
  fd : Fd
  newEvents : Nat
  oldEvents : Nat
  deriving DecidableEq, Repr

def EventReactor.request (r : EventReactor η) : FilterCall η → Option Request
  | .registerHandler handler fd events _ =>
      if handler.isSome && r.running && !decide (fd ∈ r.handlers) then
        some ⟨fd, normalizeEventsForKqueue events, 0⟩
      else none
  | .removeHandler fd _ =>
      if decide (fd ∈ r.handlers) && r.running then
        some ⟨fd, 0, r.entry fd⟩
      else none
  | .modifyHandler fd events _ =>
      match r.handlerEvents.lookup fd with
      | none => none
      | some oldEvents =>
          if oldEvents = normalizeEventsForKqueue events then none
          else some ⟨fd, normalizeEventsForKqueue events, oldEvents⟩

/-- The errors that `ApplyEvents` ignores when it deletes. -/
def Ignored (errno : Option Int) : Prop := errno = some ENOENT ∨ errno = some EBADF

instance (errno : Option Int) : Decidable (Ignored errno) := by unfold Ignored; infer_instance

/-- A change of the write filter does not fail behind one that has turned the read filter on
or off, and nothing that is to be deleted is found missing. -/
structure Request.Safe (q : Request) (fails : Failures) : Prop where
  write : hasEvent q.oldEvents .read ≠ hasEvent q.newEvents .read → fails .read = none →
    hasEvent q.oldEvents .write = true ∨ hasEvent q.newEvents .write = true → fails .write = none
  read : q.newEvents = 0 → hasEvent q.oldEvents .read = true → ¬ Ignored (fails .read)
  onlyWrite : q.newEvents = 0 → hasEvent q.oldEvents .read = false →
    hasEvent q.oldEvents .write = true → ¬ Ignored (fails .write)

namespace Registrations

def started (η : Type) : Registrations η := ⟨⟨true, ∅, ∅⟩, fun _ _ => false⟩

def applied (s : Registrations η) (c : FilterCall η) : Filters × Option Int :=
  match s.reactor.request c with
  | none => (s.filters, none)
  | some q => kevent s.filters q.fd c.outcome (changes q.newEvents q.oldEvents)

def call (s : Registrations η) (c : FilterCall η) : Registrations η × Bool :=
  let r := match c with
    | .registerHandler none _ _ _ => (s.reactor, false)
    | .registerHandler (some h) fd events _ =>
        s.reactor.registerHandler fd events h (s.applied c).2
    | .removeHandler fd _ => s.reactor.removeHandler fd (s.applied c).2
    | .modifyHandler fd events _ => s.reactor.modifyHandler fd events (s.applied c).2
  (⟨r.1, (s.applied c).1⟩, r.2)

def machine (η : Type) : Machine (Registrations η) (FilterCall η) where
  init s := s = started η
  step s c := some (s.call c).1

structure Mirrors (s : Registrations η) : Prop where
  keys : ∀ fd, fd ∈ s.reactor.handlers ↔ fd ∈ s.reactor.handlerEvents
  filters : ∀ fd (f : ChangeFilter), s.filters fd f = hasEvent (s.reactor.entry fd) f.event

structure InStep (s : Registrations η) : Prop extends s.Mirrors where
  running : s.reactor.running = true

def SafeCall (s : Registrations η) (c : FilterCall η) : Prop :=
  ∀ q ∈ s.reactor.request c, q.Safe c.outcome

end Registrations

/-! ### The change list -/

def Request.Involves (q : Request) (f : ChangeFilter) : Prop :=
  hasEvent q.oldEvents f.event = true ∨ hasEvent q.newEvents f.event = true

theorem hasEvent_normalize (events : Nat) (f : ChangeFilter) :
    hasEvent (normalizeEventsForKqueue events) f.event = hasEvent events f.event := by
  cases f <;> simp only [hasEvent, normalizeEventsForKqueue, Nat.and_assoc] <;> rfl

theorem hasEvent_zero (e : EventType) : hasEvent 0 e = false := by
  simp [hasEvent]

theorem hasEvent_or (a b : Nat) (e : EventType) :
    hasEvent (a ||| b) e = (hasEvent a e || hasEvent b e) := by
  rw [Bool.eq_iff_iff]
  simp only [hasEvent, Nat.and_or_distrib_right, bne_iff_ne, ne_eq, Nat.or_eq_zero_iff,
    Bool.or_eq_true]
  tauto

theorem syncFilter_eq (newEvents oldEvents : Nat) (f : ChangeFilter) :
    syncFilter newEvents oldEvents f =
      if hasEvent oldEvents f.event = true ∨ hasEvent newEvents f.event = true then
        [⟨f, hasEvent newEvents f.event⟩]
      else [] := by
  unfold syncFilter
  cases hasEvent oldEvents f.event <;> cases hasEvent newEvents f.event <;> rfl

theorem Filters.set_self {k : Filters} {fd : Fd} {f : ChangeFilter} {b : Bool} (h : k fd f = b) :
    k.set fd f b = k := by
  funext fd' f'
  simp only [Filters.set]
  split
  · rename_i heq
    rw [heq.1, heq.2, h]
  · rfl

theorem kevent_syncFilter {k : Filters} {q : Request} {f : ChangeFilter} (fails : Failures)
    (h : k q.fd f = hasEvent q.oldEvents f.event) (cs : List Change) :
    (∃ errno, q.Involves f ∧ fails f = some errno ∧
      kevent k q.fd fails (syncFilter q.newEvents q.oldEvents f ++ cs) = (k, some errno)) ∨
    ((q.Involves f → fails f = none) ∧
      kevent k q.fd fails (syncFilter q.newEvents q.oldEvents f ++ cs) =
        kevent (k.set q.fd f (hasEvent q.newEvents f.event)) q.fd fails cs) := by
  rw [syncFilter_eq]
  split
  · rename_i hinvolves
    cases hfails : fails f with
    | some errno =>
      refine .inl ⟨errno, hinvolves, rfl, ?_⟩
      simp only [List.cons_append, List.nil_append, kevent, hfails]
    | none =>
      refine .inr ⟨fun _ => rfl, ?_⟩
      simp only [List.cons_append, List.nil_append, kevent, hfails]
  · rename_i hnot
    refine .inr ⟨fun hinvolves => absurd hinvolves hnot, ?_⟩
    obtain ⟨hhad, hwant⟩ := not_or.mp hnot
    rw [Bool.not_eq_true] at hhad hwant
    rw [Filters.set_self (h.trans (hhad.trans hwant.symm)), List.nil_append]

inductive Outcome (k : Filters) (q : Request) (fails : Failures) : Filters × Option Int → Prop
  | readFails {errno : Int} : q.Involves .read → fails .read = some errno →
      Outcome k q fails (k, some errno)
  | writeFails {errno : Int} : (q.Involves .read → fails .read = none) → q.Involves .write →
      fails .write = some errno →
      Outcome k q fails (k.set q.fd .read (hasEvent q.newEvents .read), some errno)
  | done : (q.Involves .read → fails .read = none) → (q.Involves .write → fails .write = none) →
      Outcome k q fails ((k.set q.fd .read (hasEvent q.newEvents .read)).set q.fd .write
        (hasEvent q.newEvents .write), none)

theorem outcome_kevent {k : Filters} {q : Request} {fails : Failures}
    (h : ∀ f, k q.fd f = hasEvent q.oldEvents f.event) :
    Outcome k q fails (kevent k q.fd fails (changes q.newEvents q.oldEvents)) := by
  have hwrite : (k.set q.fd .read (hasEvent q.newEvents .read)) q.fd .write =
      hasEvent q.oldEvents .write := by
    simp only [Filters.set, reduceCtorEq, and_false, if_false]
    exact h .write
  rw [changes]
  rcases kevent_syncFilter fails (h .read)
    (syncFilter q.newEvents q.oldEvents .write) with ⟨errno, hread, hfails, heq⟩ | ⟨hread, heq⟩
  · rw [heq]
    exact .readFails hread hfails
  · rw [heq, ← List.append_nil (syncFilter q.newEvents q.oldEvents .write)]
    rcases kevent_syncFilter (f := .write) fails hwrite [] with
      ⟨errno, hinvolves, hfails, heq'⟩ | ⟨hinvolves, heq'⟩
    · exact heq' ▸ .writeFails hread hinvolves hfails
    · exact heq' ▸ .done hread hinvolves

theorem Filters.set_set (k : Filters) (fd fd' : Fd) (enabled : ChangeFilter → Bool)
    (f : ChangeFilter) :
    ((k.set fd .read (enabled .read)).set fd .write (enabled .write)) fd' f =
      if fd' = fd then enabled f else k fd' f := by
  cases f <;> by_cases h : fd' = fd <;> simp [Filters.set, h]

theorem Request.involves_of_ne {q : Request} {f : ChangeFilter}
    (h : hasEvent q.oldEvents f.event ≠ hasEvent q.newEvents f.event) : q.Involves f := by
  by_contra hnot
  obtain ⟨hhad, hwant⟩ := not_or.mp hnot
  exact h ((Bool.not_eq_true _ ▸ hhad : _ = false).trans (Bool.not_eq_true _ ▸ hwant).symm)

theorem Request.Involves.had {q : Request} {f : ChangeFilter} (h : q.Involves f)
    (hzero : q.newEvents = 0) : hasEvent q.oldEvents f.event = true := by
  refine h.resolve_right fun hwant => ?_
  rw [hzero, hasEvent_zero] at hwant
  cases hwant

theorem not_ignored_none : ¬ Ignored none := by simp [Ignored]

theorem applyEvents_some {q : Request} {f : ChangeFilter} {errno : Int} (h : q.Involves f) :
    EventReactor.applyEvents q.newEvents q.oldEvents (some errno) = true ↔
      q.newEvents = 0 ∧ Ignored (some errno) := by
  have hne : normalizeEventsForKqueue (q.newEvents ||| q.oldEvents) ≠ 0 := fun hzero => by
    have hnone := hasEvent_normalize (q.newEvents ||| q.oldEvents) f
    rw [hzero, hasEvent_zero, hasEvent_or] at hnone
    obtain ⟨hnew, hold⟩ := Bool.or_eq_false_iff.mp hnone.symm
    rcases h with h | h
    · rw [hold] at h
      cases h
    · rw [hnew] at h
      cases h
  simp [EventReactor.applyEvents, hne, Ignored]

/-! ### The tables -/

namespace EventReactor

def SameKeys (r : EventReactor η) : Prop := ∀ fd, fd ∈ r.handlers ↔ fd ∈ r.handlerEvents

def Follows (r : EventReactor η) (q : Request) : Bool → EventReactor η → Prop
  | false, r' => r' = r
  | true, r' => r'.running = true ∧ r'.SameKeys ∧
      ∀ fd, r'.entry fd = if fd = q.fd then q.newEvents else r.entry fd

theorem entry_of_notMem {r : EventReactor η} {fd : Fd} (h : fd ∉ r.handlerEvents) :
    r.entry fd = 0 := by
  rw [entry, AList.lookup_eq_none.mpr h]
  rfl

theorem SameKeys.registerHandler {r : EventReactor η} (h : r.SameKeys) (hrunning : r.running = true)
    {fd : Fd} (hnew : fd ∉ r.handlers) (events : Nat) (handler : η) (errno : Option Int) :
    (r.registerHandler fd events handler errno).2 =
        applyEvents (normalizeEventsForKqueue events) 0 errno ∧
      r.Follows ⟨fd, normalizeEventsForKqueue events, 0⟩
        (r.registerHandler fd events handler errno).2
        (r.registerHandler fd events handler errno).1 := by
  unfold EventReactor.registerHandler
  rw [if_neg (by simp [hrunning]), if_neg hnew]
  split
  · rename_i hok
    refine ⟨hok.symm, hrunning, fun fd' => ?_, fun fd' => ?_⟩
    · simp only [AList.mem_insert, h fd']
    · simp only [entry, AList.lookup_insert_eq_ite]
      split <;> rfl
  · rename_i hrefused
    refine ⟨(Bool.not_eq_true _ ▸ hrefused).symm, ?_⟩
    simp only [Follows, AList.erase_of_notMem fun hin => hnew ((h fd).mpr hin)]

theorem SameKeys.removeHandler {r : EventReactor η} (h : r.SameKeys) (hrunning : r.running = true)
    {fd : Fd} (hmem : fd ∈ r.handlers) (errno : Option Int) :
    (r.removeHandler fd errno).2 = applyEvents 0 (r.entry fd) errno ∧
      r.Follows ⟨fd, 0, r.entry fd⟩ (r.removeHandler fd errno).2 (r.removeHandler fd errno).1 := by
  unfold EventReactor.removeHandler
  rw [if_pos hmem, ← entry, hrunning, Bool.true_and]
  split
  · rename_i hrefused
    exact ⟨(Bool.not_eq_true' _ ▸ hrefused).symm, rfl⟩
  · rename_i hok
    have hok' : applyEvents 0 (r.entry fd) errno = true := by simpa using hok
    refine ⟨hok'.symm, rfl, fun fd' => ?_, fun fd' => ?_⟩
    · simp only [AList.mem_erase, h fd']
    · simp only [entry, AList.lookup_erase_eq_ite]
      split <;> rfl

theorem SameKeys.modifyHandler {r : EventReactor η} (h : r.SameKeys) (hrunning : r.running = true)
    {fd : Fd} {oldEvents : Nat} (hlookup : r.handlerEvents.lookup fd = some oldEvents)
    {events : Nat} (hne : oldEvents ≠ normalizeEventsForKqueue events) (errno : Option Int) :
    (r.modifyHandler fd events errno).2 =
        applyEvents (normalizeEventsForKqueue events) oldEvents errno ∧
      r.Follows ⟨fd, normalizeEventsForKqueue events, oldEvents⟩
        (r.modifyHandler fd events errno).2 (r.modifyHandler fd events errno).1 := by
  have hmem : fd ∈ r.handlerEvents := AList.lookup_isSome.mp (by rw [hlookup]; rfl)
  simp only [EventReactor.modifyHandler, hlookup]
  rw [if_neg hne]
  split
  · rename_i hok
    refine ⟨hok.symm, hrunning, fun fd' => ?_, fun fd' => ?_⟩
    · simp only [AList.mem_insert, h fd']
      exact ⟨.inr, fun hor => hor.elim (fun heq => heq ▸ hmem) id⟩
    · simp only [entry, AList.lookup_insert_eq_ite]
      split <;> rfl
  · rename_i hrefused
    exact ⟨(Bool.not_eq_true _ ▸ hrefused).symm, rfl⟩

theorem SameKeys.oldEvents {r : EventReactor η} (h : r.SameKeys) {c : FilterCall η} {q : Request}
    (hq : r.request c = some q) : q.oldEvents = r.entry q.fd := by
  cases c with
  | registerHandler handler fd events fails =>
    simp only [request] at hq
    split at hq
    · rename_i hnew
      cases hq
      have hmem : fd ∉ r.handlers := by simpa using (Bool.and_eq_true_iff.mp hnew).2
      exact (entry_of_notMem fun hin => hmem ((h fd).mpr hin)).symm
    · cases hq
  | removeHandler fd fails =>
    simp only [request] at hq
    split at hq
    · cases hq
      rfl
    · cases hq
  | modifyHandler fd events fails =>
    simp only [request] at hq
    split at hq
    · cases hq
    · rename_i oldEvents hlookup
      split at hq
      · cases hq
      · cases hq
        rw [entry, hlookup]
        rfl

end EventReactor

namespace Registrations

theorem call_of_request_none {s : Registrations η} (hrunning : s.reactor.running = true)
    {c : FilterCall η} (hq : s.reactor.request c = none) : (s.call c).1 = s := by
  have happlied : s.applied c = (s.filters, none) := by rw [applied, hq]
  cases c with
  | registerHandler handler fd events fails =>
    cases handler with
    | none => simp only [call, happlied]
    | some handler =>
      have hmem : fd ∈ s.reactor.handlers := by
        simpa [EventReactor.request, hrunning] using hq
      simp only [call, happlied, EventReactor.registerHandler]
      rw [if_neg (by simp [hrunning]), if_pos hmem]
  | removeHandler fd fails =>
    have hmem : fd ∉ s.reactor.handlers := by
      simpa [EventReactor.request, hrunning] using hq
    simp only [call, happlied, EventReactor.removeHandler]
    rw [if_neg hmem]
  | modifyHandler fd events fails =>
    simp only [call, happlied]
    cases hlookup : s.reactor.handlerEvents.lookup fd with
    | none => simp only [EventReactor.modifyHandler, hlookup]
    | some oldEvents =>
      simp only [EventReactor.request, hlookup] at hq
      split at hq
      · rename_i hsame
        simp only [EventReactor.modifyHandler, hlookup, if_pos hsame]
      · cases hq

theorem call_follows {s : Registrations η} (hkeys : s.reactor.SameKeys)
    (hrunning : s.reactor.running = true) {c : FilterCall η} {q : Request}
    (hq : s.reactor.request c = some q) :
    (s.call c).2 = EventReactor.applyEvents q.newEvents q.oldEvents (s.applied c).2 ∧
      s.reactor.Follows q (s.call c).2 (s.call c).1.reactor := by
  cases c with
  | registerHandler handler fd events fails =>
    simp only [EventReactor.request] at hq
    split at hq
    · rename_i hnew
      cases hq
      obtain ⟨handler, rfl⟩ : ∃ h, handler = some h :=
        Option.isSome_iff_exists.mp (Bool.and_eq_true_iff.mp (Bool.and_eq_true_iff.mp hnew).1).1
      exact hkeys.registerHandler hrunning (by simpa using (Bool.and_eq_true_iff.mp hnew).2) ..
    · cases hq
  | removeHandler fd fails =>
    simp only [EventReactor.request] at hq
    split at hq
    · rename_i hmem
      cases hq
      exact hkeys.removeHandler hrunning (by simpa using (Bool.and_eq_true_iff.mp hmem).1) _
    · cases hq
  | modifyHandler fd events fails =>
    simp only [EventReactor.request] at hq
    split at hq
    · cases hq
    · rename_i oldEvents hlookup
      split at hq
      · cases hq
      · rename_i hne
        cases hq
        exact hkeys.modifyHandler hrunning hlookup hne _

theorem InStep.request {s : Registrations η} (h : s.InStep) {c : FilterCall η} {q : Request}
    (hq : s.reactor.request c = some q) :
    (∀ f, s.filters q.fd f = hasEvent q.oldEvents f.event) ∧
      Outcome s.filters q c.outcome ((s.call c).1.filters, (s.applied c).2) := by
  have hk : ∀ f, s.filters q.fd f = hasEvent q.oldEvents f.event := fun f => by
    rw [EventReactor.SameKeys.oldEvents h.keys hq]
    exact h.filters q.fd f
  refine ⟨hk, ?_⟩
  have happlied : ((s.call c).1.filters, (s.applied c).2) = kevent s.filters q.fd c.outcome
      (changes q.newEvents q.oldEvents) := by
    show s.applied c = _
    rw [applied, hq]
  rw [happlied]
  exact outcome_kevent hk

/-- A call that is refused has left the kernel alone, one that is not has set both filters. -/
theorem InStep.safe {s : Registrations η} (h : s.InStep) {c : FilterCall η} {q : Request}
    (hq : s.reactor.request c = some q) (hsafe : q.Safe c.outcome) :
    ((s.call c).2 = false ∧ (s.call c).1 = s) ∨
      ((s.call c).2 = true ∧ ∀ fd (f : ChangeFilter), (s.call c).1.filters fd f =
        if fd = q.fd then hasEvent q.newEvents f.event else s.filters fd f) := by
  obtain ⟨hk, houtcome⟩ := h.request hq
  obtain ⟨hresult, hfollows⟩ := call_follows h.keys h.running hq
  have hrefuse : (s.call c).2 = false → (s.call c).1.filters = s.filters → (s.call c).1 = s := by
    intro hfalse hfilters
    rw [hfalse] at hfollows
    exact Registrations.ext hfollows hfilters
  generalize hk' : (s.call c).1.filters = k' at houtcome hrefuse ⊢
  generalize (s.applied c).2 = e at houtcome hresult
  cases houtcome with
  | readFails hinvolves hfails =>
    have hfalse : (s.call c).2 = false := by
      rw [hresult, ← Bool.not_eq_true, applyEvents_some hinvolves]
      exact fun ⟨hzero, hig⟩ => hsafe.read hzero (hinvolves.had hzero) (hfails ▸ hig)
    exact .inl ⟨hfalse, hrefuse hfalse rfl⟩
  | writeFails hread hinvolves hfails =>
    have hsame : hasEvent q.oldEvents .read = hasEvent q.newEvents .read := by
      by_contra hne
      have hnone := hsafe.write hne (hread (Request.involves_of_ne (f := .read) hne)) hinvolves
      rw [hfails] at hnone
      cases hnone
    have hfalse : (s.call c).2 = false := by
      rw [hresult, ← Bool.not_eq_true, applyEvents_some hinvolves]
      rintro ⟨hzero, hig⟩
      refine hsafe.onlyWrite hzero ?_ (hinvolves.had hzero) (hfails ▸ hig)
      rw [hsame, hzero, hasEvent_zero]
    exact .inl ⟨hfalse, hrefuse hfalse (Filters.set_self ((hk .read).trans hsame))⟩
  | done hread hwrite =>
    refine .inr ⟨hresult.trans (EventReactor.applyEvents_none _ _), fun fd f => ?_⟩
    exact Filters.set_set _ _ _ (fun f => hasEvent q.newEvents f.event) f

theorem InStep.step {s t : Registrations η} {c : FilterCall η} (h : s.InStep)
    (hs : (machine η).step s c = some t) (hsafe : s.SafeCall c) :
    t.InStep ∧ t.Mirrors ∧ ((s.call c).2 = false → t = s) := by
  obtain rfl : (s.call c).1 = t := Option.some.inj hs
  cases hq : s.reactor.request c with
  | none =>
    rw [call_of_request_none h.running hq]
    exact ⟨h, h.toMirrors, fun _ => rfl⟩
  | some q =>
    rcases h.safe hq (hsafe q hq) with ⟨-, hsame⟩ | ⟨htrue, hfilters⟩
    · rw [hsame]
      exact ⟨h, h.toMirrors, fun _ => rfl⟩
    · have hfollows := (call_follows h.keys h.running hq).2
      rw [htrue] at hfollows
      obtain ⟨hrunning, hkeys, hentry⟩ := hfollows
      have hmirrors : (s.call c).1.Mirrors := by
        refine ⟨hkeys, fun fd f => ?_⟩
        rw [hfilters, hentry]
        split
        · rfl
        · exact h.filters fd f
      exact ⟨⟨hmirrors, hrunning⟩, hmirrors, fun hfalse => by simp [htrue] at hfalse⟩

theorem InStep.step_back {s t : Registrations η} {c : FilterCall η} (h : s.InStep)
    (hs : (machine η).step s c = some t) (ht : t.Mirrors) : s.SafeCall c := by
  obtain rfl : (s.call c).1 = t := Option.some.inj hs
  intro q hq
  have hq : s.reactor.request c = some q := hq
  obtain ⟨hk, houtcome⟩ := h.request hq
  obtain ⟨hresult, hfollows⟩ := call_follows h.keys h.running hq
  -- the kernel has the events that the call has left in the table
  have hold : (s.call c).2 = false →
      ∀ f : ChangeFilter, (s.call c).1.filters q.fd f = hasEvent q.oldEvents f.event := by
    intro hfalse f
    rw [hfalse] at hfollows
    rw [ht.filters, EventReactor.SameKeys.oldEvents h.keys hq]
    exact congrArg (fun r => hasEvent (r.entry q.fd) f.event) hfollows
  have hnew : (s.call c).2 = true →
      ∀ f : ChangeFilter, (s.call c).1.filters q.fd f = hasEvent q.newEvents f.event := by
    intro htrue f
    rw [htrue] at hfollows
    rw [ht.filters, hfollows.2.2, if_pos rfl]
  have hdeleted : ∀ {f : ChangeFilter} {errno : Int}, q.Involves f → (s.applied c).2 = some errno →
      q.newEvents = 0 → Ignored (some errno) → (s.call c).1.filters q.fd f = false := by
    intro f errno hinvolves he hzero hig
    rw [he] at hresult
    rw [hnew (hresult.trans ((applyEvents_some hinvolves).mpr ⟨hzero, hig⟩)), hzero, hasEvent_zero]
  generalize hk' : (s.call c).1.filters = k' at houtcome hold hnew hdeleted
  generalize (s.applied c).2 = e at houtcome hresult hdeleted
  cases houtcome with
  | readFails hinvolves hfails =>
    refine ⟨fun _ hnone => ?_, fun hzero hhad hig => ?_, fun hzero hnot => ?_⟩
    · rw [hfails] at hnone
      cases hnone
    · have hgone := hdeleted hinvolves rfl hzero (hfails ▸ hig)
      rw [hk .read] at hgone
      exact absurd hhad (by rw [show hasEvent q.oldEvents .read = false from hgone]; decide)
    · have hhad : hasEvent q.oldEvents .read = true := hinvolves.had hzero
      rw [hnot] at hhad
      cases hhad
  | @writeFails errno hread hinvolves hfails =>
    have hwrite : (s.filters.set q.fd .read (hasEvent q.newEvents .read)) q.fd .write =
        s.filters q.fd .write := by simp [Filters.set]
    have hturned : (s.filters.set q.fd .read (hasEvent q.newEvents .read)) q.fd .read =
        hasEvent q.newEvents .read := by simp [Filters.set]
    have hkept : q.newEvents = 0 → ¬ Ignored (some errno) := fun hzero hig => by
      have hgone := hdeleted hinvolves rfl hzero hig
      rw [hwrite, hk .write, hinvolves.had hzero] at hgone
      cases hgone
    refine ⟨fun hne _ _ => ?_, fun _ hhad hig => ?_,
      fun hzero _ _ hig => absurd (hfails ▸ hig) (hkept hzero)⟩
    · have hfalse : (s.call c).2 = false := by
        rw [hresult, ← Bool.not_eq_true, applyEvents_some hinvolves]
        exact fun ⟨hzero, hig⟩ => hkept hzero hig
      exact absurd (hturned.symm.trans (hold hfalse .read)).symm hne
    · rw [hread (.inl hhad)] at hig
      exact not_ignored_none hig
  | done hread hwrite =>
    refine ⟨fun _ _ hor => hwrite hor, fun _ hhad hig => ?_, fun _ _ hhad hig => ?_⟩
    · rw [hread (.inl hhad)] at hig
      exact not_ignored_none hig
    · rw [hwrite (.inl hhad)] at hig
      exact not_ignored_none hig

theorem inStep_started : (started η).InStep := by
  refine ⟨⟨fun fd => Iff.rfl, fun fd f => ?_⟩, rfl⟩
  show false = hasEvent 0 f.event
  rw [hasEvent_zero]

/-- Along every sequence of calls, whatever `kevent` makes of them: tables and kernel agree
after each call, and one that returns false changes nothing, exactly as long as all are safe. -/
theorem mirrors_iff_safeCall (cs : List (FilterCall η)) :
    (machine η).Every (fun s c t => t.Mirrors ∧ ((s.call c).2 = false → t = s))
        (started η) cs ↔
      (machine η).Every (fun s c _ => s.SafeCall c) (started η) cs :=
  (machine η).every_iff_every (fun _ _ _ h hs hsafe => h.step hs hsafe)
    (fun _ _ _ h hs hP => h.step_back hs hP.1) inStep_started

/-- Reading and writing are asked for, and only the second filter cannot be added. -/
def halfRegistered : FilterCall Unit :=
  .registerHandler (some ()) 5 (EventType.read.bit ||| EventType.write.bit)
    fun f => if f = .write then some ENOMEM else none

/-- The handler is refused, and the read filter stays. -/
theorem halfRegistered_not_mirrored :
    ¬ ∀ cs : List (FilterCall Unit),
      (machine Unit).Every (fun s c t => t.Mirrors ∧ ((s.call c).2 = false → t = s))
        (started Unit) cs := by
  intro h
  have hmirrors := (h [halfRegistered] _ rfl).1.1.filters 5 .read
  revert hmirrors
  decide

end Registrations

end Lmnet.Darwin
