import Lmnet.Windows.IocpManager

set_option autoImplicit false

namespace Lmnet.Windows

def IocpCall.held : IocpCall → Option Nat
  | .submitting r | .failed r | .closing r | .closed r _ => some r
  | .returned _ | .closeReturned _ => none

def Packet.inFlight : Packet → Option Overlapped
  | .wakeUp => none
  | .completion o _ _ => some o

def IocpWorker.inFlight : IocpWorker → Option Overlapped
  | .handling o _ _ => some o
  | .loop | .waiting _ | .woken | .stopSeen | .notForced | .recycling _ | .exited => none

def IocpWorker.held : IocpWorker → Option Nat
  | .handling o _ _ => some o.req
  | .recycling r => some r
  | .loop | .waiting _ | .woken | .stopSeen | .notForced | .exited => none

namespace IocpManager

/-- The requests that are out of the pool, each as often as something refers to it. -/
def outstanding (s : IocpManager) : List Nat :=
  s.calls.filterMap IocpCall.held ++ s.posted.map Overlapped.req ++
    s.packets.filterMap (fun p => p.inFlight.map Overlapped.req) ++
    s.workers.filterMap IocpWorker.held

/-- The operations that Windows has accepted and whose callback is still to come. -/
def inFlight (s : IocpManager) : List Overlapped :=
  s.posted ++ s.packets.filterMap Packet.inFlight ++ s.workers.filterMap IocpWorker.inFlight

/-- Every request is in the free list or outstanding, and once. -/
structure Conserved (s : IocpManager) : Prop where
  once : (s.freeRequests ++ s.outstanding).Perm (List.range s.requests.length)
  bounded : s.requests.length ≤ s.maxEntries

structure Balanced (s t : IocpManager) : Prop where
  requests : ∀ p : Nat → Bool,
    t.freeRequests.countP p + t.outstanding.countP p + (List.range s.requests.length).countP p =
      s.freeRequests.countP p + s.outstanding.countP p +
        (List.range t.requests.length).countP p
  active : t.activeRequests + s.outstanding.length = s.activeRequests + t.outstanding.length
  bounded : s.requests.length ≤ s.maxEntries → t.requests.length ≤ t.maxEntries

theorem Balanced.conserved {s t : IocpManager} (h : s.Balanced t) (hs : s.Conserved) :
    t.Conserved where
  once := by
    rw [List.perm_iff_count]
    intro r
    have hold := (List.perm_iff_count.mp hs.once) r
    have hnew := h.requests (· == r)
    simp only [List.count_eq_countP, List.countP_append] at hold ⊢
    omega
  bounded := h.bounded hs.bounded

theorem countP_outstanding_setCall {s : IocpManager} {i : Nat} {old : IocpCall}
    (new : IocpCall) (p : Nat → Bool) (h : s.calls[i]? = some old) :
    (s.setCall i new).outstanding.countP p + old.held.toList.countP p =
      s.outstanding.countP p + new.held.toList.countP p := by
  have hcalls := List.countP_filterMap_set_add (f := IocpCall.held) (q := p) (a := new) h
  simp only [outstanding, setCall, List.countP_append]
  omega

theorem countP_outstanding_setWorker {s : IocpManager} {w : Nat} {old : IocpWorker}
    (new : IocpWorker) (p : Nat → Bool) (h : s.workers[w]? = some old) :
    (s.setWorker w new).outstanding.countP p + old.held.toList.countP p =
      s.outstanding.countP p + new.held.toList.countP p := by
  have hworkers := List.countP_filterMap_set_add (f := IocpWorker.held) (q := p) (a := new) h
  simp only [outstanding, setWorker, List.countP_append]
  omega

theorem balanced_of_countP {s t : IocpManager} (hfree : t.freeRequests = s.freeRequests)
    (hrequests : t.requests.length = s.requests.length) (hmax : t.maxEntries = s.maxEntries)
    (hactive : t.activeRequests = s.activeRequests)
    (hout : ∀ p, t.outstanding.countP p = s.outstanding.countP p) : s.Balanced t where
  requests p := by rw [hfree, hrequests, hout]
  active := by
    have hlen := hout fun _ => true
    simp only [List.countP_true] at hlen
    rw [hactive, hlen]
  bounded h := by rw [hrequests, hmax]; exact h

@[simp] theorem outstanding_putRequest (s : IocpManager) (r : Nat) :
    (s.putRequest r).outstanding = s.outstanding := rfl

theorem putRequest_balanced {s u : IocpManager} {r : Nat}
    (hfree : u.freeRequests = s.freeRequests) (hrequests : u.requests = s.requests)
    (hmax : u.maxEntries = s.maxEntries) (hactive : u.activeRequests = s.activeRequests)
    (hout : ∀ p, u.outstanding.countP p + [r].countP p = s.outstanding.countP p) :
    s.Balanced (u.putRequest r) where
  requests p := by
    have hr := hout p
    have hput : (u.putRequest r).freeRequests = r :: s.freeRequests := by
      rw [putRequest, hfree]
    have hsame : (u.putRequest r).requests = s.requests := hrequests
    rw [hput, hsame, outstanding_putRequest]
    simp only [List.countP_cons, List.countP_nil] at hr ⊢
    omega
  active := by
    have hlen := hout fun _ => true
    simp only [List.countP_true, List.length_singleton] at hlen
    have hput : (u.putRequest r).activeRequests = s.activeRequests - 1 := by
      rw [putRequest, hactive]
    rw [hput, outstanding_putRequest]
    omega
  bounded h := by
    simp only [putRequest, hrequests, hmax]
    exact h

theorem got_balanced {s m : IocpManager} {r : Nat} (h : s.getRequest = some (r, m))
    (req : IocpRequest) (call : IocpCall) (hcall : call.held = some r) :
    s.Balanced { m with requests := m.requests.set r req, calls := s.calls ++ [call] } := by
  have hcount : ∀ p : Nat → Bool, (([call].filterMap IocpCall.held).countP p) = [r].countP p := by
    simp [hcall]
  obtain ⟨rest, hfree, rfl⟩ | ⟨hfree, rfl, hlt, rfl⟩ := getRequest_cases h
  · constructor
    · intro p
      simp only [outstanding, List.filterMap_append, List.countP_append, hcount, hfree,
        List.countP_cons, List.countP_nil, List.length_set]
      omega
    · simp only [outstanding, List.filterMap_append, List.length_append]
      have hone := hcount fun _ => true
      simp only [List.countP_true, List.length_singleton] at hone
      omega
    · intro hle
      simpa using hle
  · constructor
    · intro p
      simp only [outstanding, List.filterMap_append, List.countP_append, hcount, hfree,
        List.countP_nil, List.length_set, List.length_append, List.length_singleton,
        List.range_succ]
      omega
    · simp only [outstanding, List.filterMap_append, List.length_append]
      have hone := hcount fun _ => true
      simp only [List.countP_true, List.length_singleton] at hone
      omega
    · intro _
      simp only [List.length_set, List.length_append, List.length_singleton]
      omega

theorem submitOperation_balanced (s : IocpManager) (type : IocpRequestType)
    (extensions : Bool) (size : Nat) : s.Balanced (s.submitOperation type extensions size) := by
  have hrefused : s.Balanced { s with calls := s.calls ++ [.returned false] } := by
    refine balanced_of_countP rfl rfl rfl rfl fun p => ?_
    simp [outstanding, IocpCall.held]
  unfold submitOperation
  split
  · exact hrefused
  · split
    · exact hrefused
    · rename_i r m h
      exact got_balanced h _ _ rfl

theorem submitCloseRequest_balanced (s : IocpManager) (valid : Bool) :
    s.Balanced (s.submitCloseRequest valid) := by
  have hrefused : s.Balanced { s with calls := s.calls ++ [.closeReturned false] } := by
    refine balanced_of_countP rfl rfl rfl rfl fun p => ?_
    simp [outstanding, IocpCall.held]
  unfold submitCloseRequest
  split
  · split
    · exact hrefused
    · rename_i r m h
      exact got_balanced h _ _ rfl
  · exact hrefused

theorem post_balanced {s t : IocpManager} {i : Nat} {success : Bool}
    (h : s.post i success = some t) : s.Balanced t := by
  unfold post at h
  split at h
  · rename_i r hcall
    split at h
    · cases h
      refine balanced_of_countP rfl rfl rfl rfl fun p => ?_
      have hset := countP_outstanding_setCall (.returned true) p hcall
      simp only [outstanding, setCall, IocpCall.held, List.map_append, List.countP_append,
        Option.toList, List.countP_nil, List.map_cons, List.map_nil] at hset ⊢
      omega
    · cases h
      refine balanced_of_countP rfl rfl rfl rfl fun p => ?_
      have hset := countP_outstanding_setCall (.failed r) p hcall
      simp only [IocpCall.held] at hset
      omega
  · cases h

theorem closesocket_balanced {s t : IocpManager} {i : Nat} {success : Bool}
    (h : s.closesocket i success = some t) : s.Balanced t := by
  unfold closesocket at h
  split at h
  · rename_i r hcall
    cases h
    refine balanced_of_countP rfl rfl rfl rfl fun p => ?_
    have hset := countP_outstanding_setCall (.closed r success) p hcall
    simp only [IocpCall.held] at hset
    have hsame : ∀ log, ({ s.setCall i (.closed r success) with
        closeCallbacks := log } : IocpManager).outstanding =
        (s.setCall i (.closed r success)).outstanding := fun _ => rfl
    rw [hsame]
    omega
  · cases h

theorem returnRequest_balanced {s t : IocpManager} {i : Nat} (h : s.returnRequest i = some t) :
    s.Balanced t := by
  unfold returnRequest at h
  split at h
  · rename_i r hcall
    cases h
    refine putRequest_balanced rfl rfl rfl rfl fun p => ?_
    have hset := countP_outstanding_setCall (.returned false) p hcall
    simpa [IocpCall.held] using hset
  · rename_i r success hcall
    cases h
    refine putRequest_balanced rfl rfl rfl rfl fun p => ?_
    have hset := countP_outstanding_setCall (.closeReturned success) p hcall
    simpa [IocpCall.held] using hset
  · cases h

theorem complete_balanced {s t : IocpManager} {k bytes error : Nat}
    (h : s.complete k bytes error = some t) : s.Balanced t := by
  obtain ⟨o, ho, rfl⟩ := Option.map_eq_some_iff.mp h
  refine balanced_of_countP rfl rfl rfl rfl fun p => ?_
  have herase := List.countP_eraseIdx_add (p := fun o : Overlapped => p o.req) ho
  simp only [outstanding, List.countP_append, List.countP_map, List.filterMap_append,
    Function.comp_def] at herase ⊢
  cases hp : p o.req <;> simp [Packet.inFlight, hp] at herase ⊢ <;> omega

theorem take_balanced {s t : IocpManager} {w j : Nat} (h : s.take w j = some t) :
    s.Balanced t := by
  unfold take at h
  split at h
  · rename_i hworker hpacket
    cases h
    refine balanced_of_countP rfl rfl rfl rfl fun p => ?_
    have hset := countP_outstanding_setWorker .woken p hworker
    have herase := List.countP_filterMap_eraseIdx_add (q := p)
      (f := fun p : Packet => p.inFlight.map Overlapped.req) hpacket
    simp only [outstanding, setWorker, List.countP_append, IocpWorker.held, Packet.inFlight,
      Option.map_none, Option.toList_none, List.countP_nil] at hset herase ⊢
    omega
  · rename_i o bytes error hworker hpacket
    cases h
    refine balanced_of_countP rfl rfl rfl rfl fun p => ?_
    have hset := countP_outstanding_setWorker (.handling o bytes error) p hworker
    have herase := List.countP_filterMap_eraseIdx_add (q := p)
      (f := fun p : Packet => p.inFlight.map Overlapped.req) hpacket
    simp only [outstanding, setWorker, List.countP_append, IocpWorker.held, Packet.inFlight,
      Option.map_some, Option.toList_none, Option.toList_some, List.countP_nil]
      at hset herase ⊢
    omega
  · cases h

theorem setWorker_balanced {s : IocpManager} {w : Nat} {old new : IocpWorker}
    (h : s.workers[w]? = some old) (hold : old.held = none) (hnew : new.held = none) :
    s.Balanced (s.setWorker w new) := by
  refine balanced_of_countP rfl rfl rfl rfl fun p => ?_
  have hset := countP_outstanding_setWorker new p h
  simpa [hold, hnew] using hset

theorem work_balanced {s t : IocpManager} {w : Nat} {wsaError : Option Nat}
    {worker : IocpWorker} (hworker : s.workers[w]? = some worker)
    (h : s.work w wsaError worker = some t) : s.Balanced t := by
  cases worker with
  | loop =>
    cases h
    exact setWorker_balanced hworker rfl rfl
  | waiting infinite => cases h
  | woken | stopSeen | notForced =>
    cases h
    refine setWorker_balanced hworker rfl ?_
    split <;> rfl
  | handling o bytes error =>
    obtain ⟨req, hreq, rfl⟩ := Option.map_eq_some_iff.mp h
    split
    · refine balanced_of_countP rfl (List.length_set ..) rfl rfl fun p => ?_
      have hset := countP_outstanding_setWorker .loop p hworker
      simp only [outstanding, setWorker, List.countP_append, IocpWorker.held, List.map_append,
        List.map_cons, List.map_nil, Option.toList_none, Option.toList_some, List.countP_nil]
        at hset ⊢
      omega
    · refine balanced_of_countP rfl rfl rfl rfl fun p => ?_
      have hset := countP_outstanding_setWorker (.recycling o.req) p hworker
      simp only [IocpWorker.held] at hset
      have hsame : ∀ log, ({ s.setWorker w (.recycling o.req) with
          callbacks := log } : IocpManager).outstanding =
          (s.setWorker w (.recycling o.req)).outstanding := fun _ => rfl
      rw [hsame]
      omega
  | recycling r =>
    cases h
    refine putRequest_balanced rfl rfl rfl rfl fun p => ?_
    have hset := countP_outstanding_setWorker .loop p hworker
    simpa [IocpWorker.held] using hset
  | exited => cases h

theorem step_balanced {s t : IocpManager} {a : IocpAct} (h : s.step a = some t)
    (ha : a ≠ .clear) : s.Balanced t := by
  cases a with
  | submitOperation type extensions size =>
    simp only [step] at h
    split at h
    · cases h
    · cases h
      exact s.submitOperation_balanced type extensions size
  | post i success => exact post_balanced h
  | submitCloseRequest valid =>
    cases h
    exact s.submitCloseRequest_balanced valid
  | closesocket i success => exact closesocket_balanced h
  | putRequest i => exact returnRequest_balanced h
  | complete k bytes error => exact complete_balanced h
  | take w j => exact take_balanced h
  | noPacket w =>
    simp only [step] at h
    split at h
    · rename_i hworker
      cases h
      exact setWorker_balanced hworker rfl rfl
    · cases h
  | work w wsaError =>
    obtain ⟨worker, hworker, hwork⟩ := Option.bind_eq_some_iff.mp h
    exact work_balanced hworker hwork
  | exit =>
    cases h
    exact balanced_of_countP rfl rfl rfl rfl fun _ => rfl
  | stop =>
    cases h
    unfold stop
    split <;> exact balanced_of_countP rfl rfl rfl rfl fun _ => rfl
  | postWakeUp =>
    simp only [step] at h
    split at h
    · cases h
      refine balanced_of_countP rfl rfl rfl rfl fun p => ?_
      simp [outstanding, Packet.inFlight]
    · cases h
  | join =>
    simp only [step] at h
    split at h
    · cases h
      exact balanced_of_countP rfl rfl rfl rfl fun _ => rfl
    · cases h
  | clear => exact absurd rfl ha

def accepted (s : IocpManager) (i : Nat) : Bool := s.calls[i]? == some (.returned true)

def callbackAt (s : IocpManager) (r : Nat) : Option Nat :=
  s.requests[r]?.bind IocpRequest.callback

structure Called (s : IocpManager) : Prop where
  flying : ∀ o ∈ s.inFlight, s.callbackAt o.req = some o.op
  submitting : ∀ i r, s.calls[i]? = some (.submitting r) → s.callbackAt r = some i
  once : ∀ i, s.callbacks.count i + s.inFlight.countP (·.op == i) = (s.accepted i).toNat

theorem countP_inFlight_setWorker {s : IocpManager} {w : Nat} {old : IocpWorker}
    (new : IocpWorker) (q : Overlapped → Bool) (h : s.workers[w]? = some old) :
    (s.setWorker w new).inFlight.countP q + old.inFlight.toList.countP q =
      s.inFlight.countP q + new.inFlight.toList.countP q := by
  have hworkers := List.countP_filterMap_set_add (f := IocpWorker.inFlight) (q := q)
    (a := new) h
  simp only [inFlight, setWorker, List.countP_append]
  omega

theorem mem_of_countP_eq {l l' : List Overlapped} (h : ∀ q, l'.countP q = l.countP q)
    {o : Overlapped} (ho : o ∈ l') : o ∈ l := by
  have hpos : 0 < l'.countP (· == o) := List.countP_pos_iff.mpr ⟨o, ho, by simp⟩
  rw [h] at hpos
  obtain ⟨o', ho', heq⟩ := List.countP_pos_iff.mp hpos
  rw [← eq_of_beq heq]
  exact ho'

theorem mem_outstanding_of_inFlight {s : IocpManager} {o : Overlapped} (h : o ∈ s.inFlight) :
    o.req ∈ s.outstanding := by
  simp only [inFlight, List.mem_append, List.mem_filterMap] at h
  simp only [outstanding, List.mem_append, List.mem_map, List.mem_filterMap]
  obtain (h | ⟨packet, hmem, hp⟩) | ⟨worker, hmem, hw⟩ := h
  · exact .inl (.inl (.inr ⟨o, h, rfl⟩))
  · exact .inl (.inr ⟨packet, hmem, by rw [hp]; rfl⟩)
  · refine .inr ⟨worker, hmem, ?_⟩
    cases worker with
    | handling o' bytes error =>
      cases hw
      rfl
    | loop | waiting | woken | stopSeen | notForced | recycling | exited => cases hw

theorem mem_outstanding_of_submitting {s : IocpManager} {i r : Nat}
    (h : s.calls[i]? = some (.submitting r)) : r ∈ s.outstanding := by
  simp only [outstanding, List.mem_append, List.mem_filterMap]
  exact .inl (.inl (.inl ⟨_, List.mem_of_getElem? h, rfl⟩))

theorem Conserved.fresh {s m : IocpManager} {r : Nat} (hs : s.Conserved)
    (h : s.getRequest = some (r, m)) (req : IocpRequest) :
    r ∉ s.outstanding ∧ (m.requests.set r req)[r]? = some req ∧
      ∀ x, x ≠ r → (m.requests.set r req)[x]? = s.requests[x]? := by
  have hnodup : (s.freeRequests ++ s.outstanding).Nodup := hs.once.nodup_iff.mpr List.nodup_range
  have hlt : ∀ x ∈ s.freeRequests ++ s.outstanding, x < s.requests.length := by
    intro x hx
    have hrange := hs.once.mem_iff.mp hx
    simpa using hrange
  obtain ⟨rest, hfree, rfl⟩ | ⟨hfree, rfl, hbound, rfl⟩ := getRequest_cases h
  · have hr := hlt r (by simp [hfree])
    refine ⟨?_, by simp [hr], fun x hx => by simp [List.getElem?_set_ne (Ne.symm hx)]⟩
    rw [hfree, List.cons_append, List.nodup_cons, List.mem_append, not_or] at hnodup
    exact hnodup.1.2
  · refine ⟨fun hmem => ?_, by simp, fun x hx => ?_⟩
    · have hx := hlt _ (List.mem_append_right _ hmem)
      omega
    · rw [List.getElem?_set_ne (Ne.symm hx), List.getElem?_append]
      split
      · rfl
      · have hnone : s.requests[x]? = none := List.getElem?_eq_none (by omega)
        have hlong : [IocpRequest.cleared][x - s.requests.length]? = none :=
          List.getElem?_eq_none (by simp; omega)
        rw [hnone, hlong]

theorem Called.frame {s t : IocpManager} (hs : s.Called)
    (hflight : ∀ q, t.inFlight.countP q = s.inFlight.countP q)
    (hcallbacks : t.callbacks = s.callbacks) (haccepted : ∀ i, t.accepted i = s.accepted i)
    (hcalls : ∀ i r : Nat, t.calls[i]? = some (.submitting r) →
      s.calls[i]? = some (.submitting r))
    (hmemory : ∀ r, t.callbackAt r = s.callbackAt r) : t.Called where
  flying o ho := by rw [hmemory]; exact hs.flying o (mem_of_countP_eq hflight ho)
  submitting i r h := by rw [hmemory]; exact hs.submitting i r (hcalls i r h)
  once i := by rw [hcallbacks, hflight, haccepted]; exact hs.once i

theorem accepted_setCall {s : IocpManager} {i : Nat} {old : IocpCall} (new : IocpCall)
    (h : s.calls[i]? = some old) (j : Nat) :
    (s.setCall i new).accepted j = if j = i then new == .returned true else s.accepted j := by
  obtain ⟨hlt, -⟩ := List.getElem?_eq_some_iff.mp h
  unfold accepted setCall
  split
  · rename_i hj
    subst hj
    simp [hlt]
  · rename_i hj
    rw [List.getElem?_set_ne (Ne.symm hj)]

theorem accepted_concat (s : IocpManager) (call : IocpCall) (h : call ≠ .returned true)
    (i : Nat) : ((s.calls ++ [call])[i]? == some (.returned true)) = s.accepted i := by
  unfold accepted
  rw [List.getElem?_append]
  split
  · rfl
  · rename_i hge
    have hnone : s.calls[i]? = none := List.getElem?_eq_none (by omega)
    rw [hnone, List.getElem?_singleton]
    split
    · simpa using h
    · rfl

theorem Called.refused {s : IocpManager} (hs : s.Called) {call : IocpCall}
    (haccepted : call ≠ .returned true) (hsubmitting : ∀ r, call ≠ .submitting r) :
    Called { s with calls := s.calls ++ [call] } := by
  refine hs.frame (fun _ => rfl) rfl (s.accepted_concat call haccepted) (fun i r h => ?_)
    fun _ => rfl
  obtain h | ⟨-, h⟩ := List.getElem?_concat_some h
  · exact h
  · exact absurd h.symm (hsubmitting r)

theorem Called.got {s m : IocpManager} {r : Nat} (hs : s.Called) (hpool : s.Conserved)
    (h : s.getRequest = some (r, m)) {req : IocpRequest} {call : IocpCall}
    (hcallback : req.callback = some s.calls.length) (haccepted : call ≠ .returned true)
    (hsubmitting : ∀ r', call = .submitting r' → r' = r) :
    Called { m with requests := m.requests.set r req, calls := s.calls ++ [call] } := by
  obtain ⟨hfresh, hset, hother⟩ := hpool.fresh h req
  have hmemory : ∀ x, x ≠ r →
      (m.requests.set r req)[x]?.bind IocpRequest.callback = s.callbackAt x := by
    intro x hx
    rw [hother x hx]
    rfl
  have hflight : ({ m with
      requests := m.requests.set r req
      calls := s.calls ++ [call] } : IocpManager).inFlight = s.inFlight := by
    obtain ⟨rest, -, rfl⟩ | ⟨-, -, -, rfl⟩ := getRequest_cases h
    · rfl
    · rfl
  constructor
  · intro o ho
    rw [hflight] at ho
    have hne : o.req ≠ r := by
      rintro rfl
      exact hfresh (mem_outstanding_of_inFlight ho)
    exact (hmemory o.req hne).trans (hs.flying o ho)
  · intro i r' hnew
    obtain hcall | ⟨hi, hcall⟩ := List.getElem?_concat_some hnew
    · have hne : r' ≠ r := by
        rintro rfl
        exact hfresh (mem_outstanding_of_submitting hcall)
      exact (hmemory r' hne).trans (hs.submitting i r' hcall)
    · have hr := hsubmitting r' hcall.symm
      subst hr hi
      simp only [callbackAt, hset, Option.bind_some]
      exact hcallback
  · intro i
    have honce := hs.once i
    have hlog := (getRequest_submits h).callbacks
    rw [hflight]
    unfold accepted at honce ⊢
    rw [accepted_concat s call haccepted i]
    simp only [hlog]
    exact honce

theorem Called.submitOperation {s : IocpManager} (hs : s.Called) (hpool : s.Conserved)
    {type : IocpRequestType} (extensions : Bool) (size : Nat) :
    (s.submitOperation type extensions size).Called := by
  unfold IocpManager.submitOperation
  split
  · exact hs.refused (by simp) (by simp)
  · split
    · exact hs.refused (by simp) (by simp)
    · rename_i r m h
      refine hs.got hpool h ?_ (by simp) (by simp)
      cases type <;> rfl

theorem Called.submitCloseRequest {s : IocpManager} (hs : s.Called) (hpool : s.Conserved)
    (valid : Bool) : (s.submitCloseRequest valid).Called := by
  unfold IocpManager.submitCloseRequest
  split
  · split
    · exact hs.refused (by simp) (by simp)
    · rename_i r m h
      exact hs.got hpool h rfl (by simp) (by simp)
  · exact hs.refused (by simp) (by simp)

theorem Called.setCall {s t : IocpManager} (hs : s.Called) {i : Nat} {old new : IocpCall}
    (hold : s.calls[i]? = some old) (hnotold : old ≠ .returned true)
    (hnotnew : new ≠ .returned true) (hsubmitting : ∀ r, new ≠ .submitting r)
    (hcalls : t.calls = s.calls.set i new) (hflight : t.inFlight = s.inFlight)
    (hcallbacks : t.callbacks = s.callbacks) (hrequests : t.requests = s.requests) :
    t.Called := by
  refine hs.frame (fun q => by rw [hflight]) hcallbacks (fun j => ?_) (fun j r h => ?_)
    fun r => by rw [callbackAt, hrequests, callbackAt]
  · have hset := accepted_setCall new hold j
    have hsame : t.accepted j = (s.setCall i new).accepted j := by
      rw [accepted, hcalls]
      rfl
    rw [hsame, hset]
    split
    · rename_i hj
      subst hj
      simp [accepted, hold, hnotold, hnotnew]
    · rfl
  · rw [hcalls] at h
    obtain ⟨-, h⟩ | ⟨-, h⟩ := List.getElem?_set_some h
    · exact absurd h.symm (hsubmitting r)
    · exact h

theorem Called.post {s t : IocpManager} (hs : s.Called) {i : Nat} {success : Bool}
    (h : s.post i success = some t) : t.Called := by
  unfold IocpManager.post at h
  split at h
  · rename_i r hcall
    split at h
    · cases h
      have haccepted := accepted_setCall (.returned true) hcall
      have hmem : ∀ o, o ∈ s.posted ++ [⟨r, i⟩] ++ s.packets.filterMap Packet.inFlight ++
          s.workers.filterMap IocpWorker.inFlight → o = ⟨r, i⟩ ∨ o ∈ s.inFlight := by
        intro o ho
        simp only [inFlight, List.mem_append, List.mem_singleton] at ho ⊢
        tauto
      constructor
      · intro o ho
        rcases hmem o ho with rfl | ho
        · exact hs.submitting i r hcall
        · exact hs.flying o ho
      · intro j r' hj
        obtain ⟨-, hj⟩ | ⟨-, hj⟩ := List.getElem?_set_some hj
        · cases hj
        · exact hs.submitting j r' hj
      · intro j
        have honce := hs.once j
        have hj := haccepted j
        have hnot : s.accepted i = false := by simp [accepted, hcall]
        simp only [accepted, IocpManager.setCall] at hj
        simp only [inFlight, IocpManager.setCall, accepted, List.countP_append, List.countP_cons,
          List.countP_nil] at honce ⊢
        rw [hj]
        by_cases hji : j = i
        · subst hji
          simp only [accepted] at hnot
          simp only [hnot, Bool.toNat_false] at honce
          simp only [beq_self_eq_true, if_true, Bool.toNat_true]
          omega
        · have hne : (i == j) = false := by simpa using Ne.symm hji
          simp only [hji, if_false, hne]
          simpa using honce
    · cases h
      exact hs.setCall hcall (by simp) (by simp) (by simp) rfl rfl rfl rfl
  · cases h

theorem Called.closesocket {s t : IocpManager} (hs : s.Called) {i : Nat} {success : Bool}
    (h : s.closesocket i success = some t) : t.Called := by
  unfold IocpManager.closesocket at h
  split at h
  · rename_i r hcall
    cases h
    exact hs.setCall hcall (by simp) (by simp) (by simp) rfl rfl rfl rfl
  · cases h

theorem Called.returnRequest {s t : IocpManager} (hs : s.Called) {i : Nat}
    (h : s.returnRequest i = some t) : t.Called := by
  unfold IocpManager.returnRequest at h
  split at h
  · rename_i r hcall
    cases h
    exact hs.setCall hcall (by simp) (by simp) (by simp) rfl rfl rfl rfl
  · rename_i r success hcall
    cases h
    exact hs.setCall hcall (by simp) (by simp) (by simp) rfl rfl rfl rfl
  · cases h

theorem Called.complete {s t : IocpManager} (hs : s.Called) {k bytes error : Nat}
    (h : s.complete k bytes error = some t) : t.Called := by
  obtain ⟨o, ho, rfl⟩ := Option.map_eq_some_iff.mp h
  refine hs.frame (fun q => ?_) rfl (fun _ => rfl) (fun _ _ h => h) fun _ => rfl
  have herase := List.countP_eraseIdx_add (p := q) ho
  simp only [inFlight, List.countP_append, List.filterMap_append]
  cases hq : q o <;> simp [Packet.inFlight, hq] at herase ⊢ <;> omega

theorem Called.take {s t : IocpManager} (hs : s.Called) {w j : Nat}
    (h : s.take w j = some t) : t.Called := by
  unfold IocpManager.take at h
  split at h
  · rename_i hworker hpacket
    cases h
    refine hs.frame (fun q => ?_) rfl (fun _ => rfl) (fun _ _ h => h) fun _ => rfl
    have hset := countP_inFlight_setWorker .woken q hworker
    have herase := List.countP_filterMap_eraseIdx_add (q := q) (f := Packet.inFlight) hpacket
    simp only [inFlight, IocpManager.setWorker, List.countP_append, IocpWorker.inFlight,
      Packet.inFlight, Option.toList_none, List.countP_nil] at hset herase ⊢
    omega
  · rename_i o bytes error hworker hpacket
    cases h
    refine hs.frame (fun q => ?_) rfl (fun _ => rfl) (fun _ _ h => h) fun _ => rfl
    have hset := countP_inFlight_setWorker (.handling o bytes error) q hworker
    have herase := List.countP_filterMap_eraseIdx_add (q := q) (f := Packet.inFlight) hpacket
    simp only [inFlight, IocpManager.setWorker, List.countP_append, IocpWorker.inFlight,
      Packet.inFlight, Option.toList_none, Option.toList_some, List.countP_nil]
      at hset herase ⊢
    omega
  · cases h

theorem Called.setWorker {s : IocpManager} (hs : s.Called) {w : Nat} {old new : IocpWorker}
    (h : s.workers[w]? = some old) (hold : old.inFlight = none) (hnew : new.inFlight = none) :
    (s.setWorker w new).Called := by
  refine hs.frame (fun q => ?_) rfl (fun _ => rfl) (fun _ _ h => h) fun _ => rfl
  have hset := countP_inFlight_setWorker new q h
  simpa [hold, hnew] using hset

/-- Only a partial write goes back to Windows, with what is left of its buffer. -/
theorem handleCompletion_resubmitted {req req' : IocpRequest} {bytes error : Nat}
    {wsaError : Option Nat} (h : req.handleCompletion bytes error wsaError = .resubmitted req') :
    req.type = .write ∧ wsaError = none ∧ (0 < bytes ∧ bytes < req.wsaBufLen) ∧ req' = { req with
      transferredBytes := dword (req.transferredBytes + bytes)
      wsaBufLen := req.wsaBufLen - bytes } := by
  unfold IocpRequest.handleCompletion at h
  cases htype : req.type with
  | accept | connect | close | read | recvFrom | sendTo =>
    rw [htype] at h
    cases h
  | write =>
    rw [htype] at h
    dsimp only at h
    split at h
    · rename_i hpartial
      cases wsaError with
      | none =>
        cases h
        exact ⟨rfl, rfl, hpartial.2.2, rfl⟩
      | some e => cases h
    · cases h

theorem Called.resubmitted {s : IocpManager} (hs : s.Called) {w bytes error : Nat}
    {o : Overlapped} {req req' : IocpRequest}
    (hworker : s.workers[w]? = some (.handling o bytes error))
    (hreq : s.requests[o.req]? = some req) (hcallback : req'.callback = req.callback) :
    Called { s.setWorker w .loop with
      requests := s.requests.set o.req req', posted := s.posted ++ [o] } := by
  refine hs.frame (fun q => ?_) rfl (fun _ => rfl) (fun _ _ h => h) fun r => ?_
  · have hset := countP_inFlight_setWorker .loop q hworker
    simp only [inFlight, IocpManager.setWorker, List.countP_append, IocpWorker.inFlight,
      Option.toList_none, Option.toList_some, List.countP_nil] at hset ⊢
    omega
  · obtain ⟨hlt, -⟩ := List.getElem?_eq_some_iff.mp hreq
    unfold callbackAt
    by_cases hr : o.req = r
    · subst hr
      rw [hreq, List.getElem?_set_self hlt]
      exact hcallback
    · rw [List.getElem?_set_ne hr]

theorem Called.called {s : IocpManager} (hs : s.Called) {w bytes error : Nat}
    {o : Overlapped} {req : IocpRequest}
    (hworker : s.workers[w]? = some (.handling o bytes error))
    (hreq : s.requests[o.req]? = some req) :
    Called { s.setWorker w (.recycling o.req) with
      callbacks := s.callbacks ++ req.callback.toList } := by
  have hmem : o ∈ s.inFlight := by
    simp only [inFlight, List.mem_append, List.mem_filterMap]
    exact .inr ⟨_, List.mem_of_getElem? hworker, rfl⟩
  have hcallback : req.callback = some o.op := by
    have hflying := hs.flying o hmem
    rw [callbackAt, hreq] at hflying
    exact hflying
  have hset : ∀ q, (s.setWorker w (.recycling o.req)).inFlight.countP q + [o].countP q =
      s.inFlight.countP q := by
    intro q
    have hq := countP_inFlight_setWorker (.recycling o.req) q hworker
    simpa [IocpWorker.inFlight] using hq
  constructor
  · intro o' ho'
    have hpos : 0 < (s.setWorker w (.recycling o.req)).inFlight.countP (· == o') :=
      List.countP_pos_iff.mpr ⟨o', ho', by simp⟩
    have hq := hset (· == o')
    obtain ⟨x, hx, heq⟩ := List.countP_pos_iff.mp (show 0 < s.inFlight.countP (· == o') by omega)
    rw [← eq_of_beq heq]
    exact hs.flying x hx
  · exact hs.submitting
  · intro i
    have honce := hs.once i
    have hq := hset (·.op == i)
    have hsame : ({ s.setWorker w (.recycling o.req) with
        callbacks := s.callbacks ++ req.callback.toList } : IocpManager).inFlight =
        (s.setWorker w (.recycling o.req)).inFlight := rfl
    rw [hsame, hcallback]
    simp only [accepted, IocpManager.setWorker, List.countP_append, Option.toList_some,
      List.count_eq_countP, List.countP_cons, List.countP_nil] at honce hq ⊢
    omega

theorem Called.work {s t : IocpManager} (hs : s.Called) {w : Nat} {wsaError : Option Nat}
    {worker : IocpWorker} (hworker : s.workers[w]? = some worker)
    (h : s.work w wsaError worker = some t) : t.Called := by
  cases worker with
  | loop =>
    cases h
    exact hs.setWorker hworker rfl rfl
  | waiting infinite => cases h
  | woken | stopSeen | notForced =>
    cases h
    refine hs.setWorker hworker rfl ?_
    split <;> rfl
  | handling o bytes error =>
    obtain ⟨req, hreq, rfl⟩ := Option.map_eq_some_iff.mp h
    split
    · rename_i req' hhandled
      obtain ⟨-, -, -, rfl⟩ := handleCompletion_resubmitted hhandled
      exact hs.resubmitted hworker hreq rfl
    · exact hs.called hworker hreq
  | recycling r =>
    cases h
    exact (hs.setWorker hworker rfl rfl).frame (fun _ => rfl) rfl (fun _ => rfl)
      (fun _ _ h => h) fun _ => rfl
  | exited => cases h

theorem step_called {s t : IocpManager} {a : IocpAct} (h : s.step a = some t)
    (hpool : s.Conserved) (hs : s.Called) (ha : a ≠ .clear) : t.Called := by
  cases a with
  | submitOperation type extensions size =>
    simp only [step] at h
    split at h
    · cases h
    · cases h
      exact hs.submitOperation hpool extensions size
  | post i success => exact hs.post h
  | submitCloseRequest valid =>
    cases h
    exact hs.submitCloseRequest hpool valid
  | closesocket i success => exact hs.closesocket h
  | putRequest i => exact hs.returnRequest h
  | complete k bytes error => exact hs.complete h
  | take w j => exact hs.take h
  | noPacket w =>
    simp only [step] at h
    split at h
    · rename_i hworker
      cases h
      exact hs.setWorker hworker rfl rfl
    · cases h
  | work w wsaError =>
    obtain ⟨worker, hworker, hwork⟩ := Option.bind_eq_some_iff.mp h
    exact hs.work hworker hwork
  | exit =>
    cases h
    exact hs.frame (fun _ => rfl) rfl (fun _ => rfl) (fun _ _ h => h) fun _ => rfl
  | stop =>
    cases h
    unfold IocpManager.stop
    split
    · exact hs.frame (fun _ => rfl) rfl (fun _ => rfl) (fun _ _ h => h) fun _ => rfl
    · exact hs
  | postWakeUp =>
    simp only [step] at h
    split at h
    · cases h
      refine hs.frame (fun q => ?_) rfl (fun _ => rfl) (fun _ _ h => h) fun _ => rfl
      simp [inFlight, Packet.inFlight]
    · cases h
  | join =>
    simp only [step] at h
    split at h
    · cases h
      exact hs.frame (fun _ => rfl) rfl (fun _ => rfl) (fun _ _ h => h) fun _ => rfl
    · cases h
  | clear => exact absurd rfl ha

/-- What holds from `Init` on; the pool is gone once `Stop` has cleared it. -/
structure PoolInv (s : IocpManager) : Prop where
  timely : s.Timely
  counted : s.activeRequests = s.outstanding.length
  conserved : s.stopping ≠ .cleared → s.Conserved
  called : s.stopping ≠ .cleared → s.Called

theorem poolInv_init (entries : Nat) (workerThreads numberOfProcessors : Int) :
    (init entries workerThreads numberOfProcessors).PoolInv := by
  have hworkers : ∀ n, (List.replicate n IocpWorker.loop).filterMap IocpWorker.held = [] := by
    simp [List.filterMap_eq_nil_iff, IocpWorker.held]
  have hflight : ∀ n, (List.replicate n IocpWorker.loop).filterMap IocpWorker.inFlight = [] := by
    simp [List.filterMap_eq_nil_iff, IocpWorker.inFlight]
  constructor
  · simp [Timely, init]
  · simp [init, outstanding, hworkers]
  · intro _
    constructor
    · simp [init, outstanding, hworkers, List.reverse_perm]
    · simp only [init, List.length_replicate]
      omega
  · intro _
    constructor
    · simp [init, inFlight, hflight]
    · simp [init]
    · simp [init, inFlight, hflight, accepted]

theorem step_poolInv {s t : IocpManager} {a : IocpAct} (hs : s.PoolInv)
    (h : s.step a = some t) : t.PoolInv := by
  have hphase := step_phase h
  have hback : t.stopping ≠ .cleared → s.stopping ≠ .cleared :=
    fun ht hcleared => ht (hphase.cleared_of_cleared hs.timely hcleared)
  have hclear : t.stopping ≠ .cleared → a ≠ .clear := by
    rintro ht rfl
    cases hphase with
    | cleared hstopping => exact ht rfl
    | kept hrunning hforce hstopping hclear => exact hclear rfl
  refine ⟨hphase.timely hs.timely, ?_, fun ht => ?_, fun ht => ?_⟩
  · have hcounted := hs.counted
    by_cases ha : a = .clear
    · subst ha
      cases hphase with
      | cleared hstopping => exact hcounted
      | kept hrunning hforce hstopping hclear => exact absurd rfl hclear
    · have hbalanced := (step_balanced h ha).active
      omega
  · exact (step_balanced h (hclear ht)).conserved (hs.conserved (hback ht))
  · exact step_called h (hs.conserved (hback ht)) (hs.called (hback ht)) (hclear ht)

theorem run_poolInv {s t : IocpManager} {as : List IocpAct} (hinit : machine.init s)
    (hrun : machine.run s as = some t) : t.PoolInv := by
  obtain ⟨entries, workerThreads, numberOfProcessors, rfl⟩ := hinit
  exact machine.run_invariant (fun s a s' hs h => step_poolInv hs h)
    (poolInv_init entries workerThreads numberOfProcessors) hrun

structure Manned (s : IocpManager) : Prop where
  workers : s.workers ≠ []
  inLoop : s.isRunning = true → ∀ worker ∈ s.workers,
    worker ≠ .stopSeen ∧ worker ≠ .notForced ∧ worker ≠ .exited

theorem manned_init (entries : Nat) (workerThreads numberOfProcessors : Int) :
    (init entries workerThreads numberOfProcessors).Manned where
  workers h := by
    have hlen := congrArg List.length h
    simp only [init, List.length_replicate, List.length_nil, workerThreadCount] at hlen
    omega
  inLoop _ worker hworker := by
    rw [(List.mem_replicate.mp hworker).2]
    simp

theorem step_manned {s t : IocpManager} {a : IocpAct} (hs : s.Manned)
    (h : s.step a = some t) : t.Manned := by
  have hback : t.isRunning = true → s.isRunning = true := by
    intro hrunning
    cases step_phase h with
    | kept hkept hforce hstopping hclear => exact hkept ▸ hrunning
    | stopped hstopped => exact hstopped
    | posted hstopping => exact hrunning
    | joined hstopping hexited => exact hrunning
    | cleared hstopping => exact hrunning
  cases step_workerStep h with
  | none hsame =>
    refine ⟨hsame ▸ hs.workers, fun hrunning => ?_⟩
    rw [hsame]
    exact hs.inLoop (hback hrunning)
  | moved hold hmove hnew hexited =>
    constructor
    · rw [hnew]
      simpa using hs.workers
    · intro hrunning worker hworker
      rw [hnew] at hworker
      obtain hworker | rfl := List.mem_or_eq_of_mem_set hworker
      · exact hs.inLoop (hback hrunning) worker hworker
      · have hin := hs.inLoop (hback hrunning) _ (List.mem_of_getElem? hold)
        cases hmove with
        | seeStop hstopped =>
          rw [hback hrunning] at hstopped
          cases hstopped
        | force | drain => exact absurd rfl hin.1
        | leave | stay => exact absurd rfl hin.2.1
        | wait | wake | take | goOn | resubmit | call | recycle => simp

theorem handleCompletion_called (req : IocpRequest) (bytes error e : Nat) :
    ∃ b e', req.handleCompletion bytes error (some e) = .called b e' := by
  unfold IocpRequest.handleCompletion
  cases req.type with
  | accept | connect | close | read | recvFrom | sendTo => exact ⟨_, _, rfl⟩
  | write =>
    dsimp only
    split
    · exact ⟨_, _, rfl⟩
    · exact ⟨_, _, rfl⟩

structure Serving (s : IocpManager) : Prop where
  inv : s.PoolInv
  manned : s.Manned
  running : s.isRunning = true

theorem Serving.called {s : IocpManager} (hs : s.Serving) : s.Called := by
  have hstopping := hs.inv.timely.mp hs.running
  exact hs.inv.called (by simp [hstopping])

theorem Serving.step {s t : IocpManager} {a : IocpAct} (hs : s.Serving)
    (h : s.step a = some t) (ht : t.isRunning = s.isRunning) : t.Serving :=
  ⟨step_poolInv hs.inv h, step_manned hs.manned h, ht.trans hs.running⟩

theorem run_step {s u t : IocpManager} {a : IocpAct} {as : List IocpAct}
    (h : s.step a = some u) (hrun : machine.run u as = some t) :
    machine.run s (a :: as) = some t :=
  machine.run_cons.mpr ⟨u, h, hrun⟩

theorem serving_handling {s : IocpManager} (hs : s.Serving) {w bytes error : Nat}
    {o : Overlapped} (hworker : s.workers[w]? = some (.handling o bytes error)) :
    ∃ t, s.step (.work w (some 0)) = some t ∧ t.Serving ∧ o.op ∈ t.callbacks ∧
      t.workers[w]? = some (.recycling o.req) ∧ t.packets = s.packets := by
  have hmem : o ∈ s.inFlight := by
    simp only [inFlight, List.mem_append, List.mem_filterMap]
    exact .inr ⟨_, List.mem_of_getElem? hworker, rfl⟩
  obtain ⟨req, hreq, hcallback⟩ := Option.bind_eq_some_iff.mp (hs.called.flying o hmem)
  obtain ⟨b, e, hcalled⟩ := handleCompletion_called req bytes error 0
  obtain ⟨hlt, -⟩ := List.getElem?_eq_some_iff.mp hworker
  have hstep : s.step (.work w (some 0)) = some { s.setWorker w (.recycling o.req) with
      callbacks := s.callbacks ++ req.callback.toList } := by
    simp [step, hworker, IocpManager.work, hreq, hcalled]
  refine ⟨_, hstep, hs.step hstep rfl, by simp [hcallback], ?_, rfl⟩
  simp [IocpManager.setWorker, hlt]

theorem serving_waits {s : IocpManager} (hs : s.Serving) {w : Nat} {worker : IocpWorker}
    (hworker : s.workers[w]? = some worker) :
    ∃ as t infinite, machine.run s as = some t ∧ t.Serving ∧
      t.workers[w]? = some (.waiting infinite) ∧ t.packets = s.packets := by
  have hloop : ∀ u : IocpManager, u.Serving → u.workers[w]? = some .loop →
      ∃ as t infinite, machine.run u as = some t ∧ t.Serving ∧
        t.workers[w]? = some (.waiting infinite) ∧ t.packets = u.packets := by
    intro u hu hw
    obtain ⟨hlt, -⟩ := List.getElem?_eq_some_iff.mp hw
    have hstep : u.step (.work w none) = some (u.setWorker w (.waiting u.isRunning)) := by
      simp [step, hw, IocpManager.work]
    refine ⟨_, _, u.isRunning, run_step hstep (machine.run_nil _), hu.step hstep rfl, ?_, rfl⟩
    simp [IocpManager.setWorker, hlt]
  have hrecycling : ∀ (u : IocpManager) (r : Nat), u.Serving →
      u.workers[w]? = some (.recycling r) →
      ∃ as t infinite, machine.run u as = some t ∧ t.Serving ∧
        t.workers[w]? = some (.waiting infinite) ∧ t.packets = u.packets := by
    intro u r hu hw
    obtain ⟨hlt, -⟩ := List.getElem?_eq_some_iff.mp hw
    have hstep : u.step (.work w none) = some ((u.setWorker w .loop).putRequest r) := by
      simp [step, hw, IocpManager.work]
    have hnext : ((u.setWorker w .loop).putRequest r).workers[w]? = some .loop := by
      simp [IocpManager.setWorker, IocpManager.putRequest, hlt]
    obtain ⟨as, t, infinite, hrun, ht, hwait, hpackets⟩ := hloop _ (hu.step hstep rfl) hnext
    exact ⟨_, t, infinite, run_step hstep hrun, ht, hwait, hpackets⟩
  obtain ⟨hlt, -⟩ := List.getElem?_eq_some_iff.mp hworker
  obtain ⟨hnotSeen, hnotForced, hnotExited⟩ :=
    hs.manned.inLoop hs.running worker (List.mem_of_getElem? hworker)
  cases worker with
  | loop => exact hloop s hs hworker
  | waiting infinite => exact ⟨[], s, infinite, rfl, hs, hworker, rfl⟩
  | woken =>
    have hstep : s.step (.work w none) = some (s.setWorker w .loop) := by
      simp [step, hworker, IocpManager.work, hs.running]
    have hnext : (s.setWorker w .loop).workers[w]? = some .loop := by
      simp [IocpManager.setWorker, hlt]
    obtain ⟨as, t, infinite, hrun, ht, hwait, hpackets⟩ := hloop _ (hs.step hstep rfl) hnext
    exact ⟨_, t, infinite, run_step hstep hrun, ht, hwait, hpackets⟩
  | handling o bytes error =>
    obtain ⟨u, hstep, hu, -, hnext, hsame⟩ := serving_handling hs hworker
    obtain ⟨as, t, infinite, hrun, ht, hwait, hpackets⟩ := hrecycling u o.req hu hnext
    exact ⟨_, t, infinite, run_step hstep hrun, ht, hwait,
      hpackets.trans hsame⟩
  | recycling r => exact hrecycling s r hs hworker
  | stopSeen => exact absurd rfl hnotSeen
  | notForced => exact absurd rfl hnotForced
  | exited => exact absurd rfl hnotExited

theorem serving_packet {s : IocpManager} (hs : s.Serving) {j bytes error : Nat}
    {o : Overlapped} (hpacket : s.packets[j]? = some (.completion o bytes error)) :
    ∃ as t, machine.run s as = some t ∧ t.Serving ∧ o.op ∈ t.callbacks := by
  obtain ⟨worker, hworker⟩ : ∃ worker, s.workers[0]? = some worker := by
    cases hworkers : s.workers with
    | nil => exact absurd hworkers hs.manned.workers
    | cons worker rest => exact ⟨worker, rfl⟩
  obtain ⟨as, u, infinite, hrun, hu, hwait, hsame⟩ := serving_waits hs hworker
  obtain ⟨hlt, -⟩ := List.getElem?_eq_some_iff.mp hwait
  rw [← hsame] at hpacket
  have htake : u.step (.take 0 j) = some { u.setWorker 0 (.handling o bytes error) with
      packets := u.packets.eraseIdx j } := by
    simp [step, IocpManager.take, hwait, hpacket]
  have hnext : ({ u.setWorker 0 (.handling o bytes error) with
      packets := u.packets.eraseIdx j } : IocpManager).workers[0]? =
      some (.handling o bytes error) := by
    simp [IocpManager.setWorker, hlt]
  obtain ⟨t, hstep, ht, hmem, -, -⟩ := serving_handling (hu.step htake rfl) hnext
  have hsteps := run_step htake (run_step hstep (machine.run_nil _))
  exact ⟨_, t, machine.run_append.mpr ⟨u, hrun, hsteps⟩, ht, hmem⟩

/-- While the manager runs, an operation in flight can be brought to its callback. -/
theorem serving_inFlight {s : IocpManager} (hs : s.Serving) {o : Overlapped}
    (ho : o ∈ s.inFlight) : ∃ as t, machine.run s as = some t ∧ t.Serving ∧ o.op ∈ t.callbacks := by
  simp only [inFlight, List.mem_append, List.mem_filterMap] at ho
  obtain (hposted | ⟨packet, hmem, hp⟩) | ⟨worker, hmem, hw⟩ := ho
  · obtain ⟨k, hk⟩ := List.mem_iff_getElem?.mp hposted
    have hstep : s.step (.complete k 0 0) = some { s with
        posted := s.posted.eraseIdx k, packets := s.packets ++ [.completion o 0 0] } := by
      simp [step, IocpManager.complete, hk]
    have hpacket : (s.packets ++ [Packet.completion o 0 0])[s.packets.length]? =
        some (.completion o 0 0) := List.getElem?_concat_length
    obtain ⟨as, t, hrun, ht, hcalled⟩ := serving_packet (hs.step hstep rfl) hpacket
    exact ⟨_, t, run_step hstep hrun, ht, hcalled⟩
  · cases packet with
    | wakeUp => cases hp
    | completion o' bytes error =>
      cases hp
      obtain ⟨j, hj⟩ := List.mem_iff_getElem?.mp hmem
      exact serving_packet hs hj
  · cases worker with
    | handling o' bytes error =>
      cases hw
      obtain ⟨w, hworker⟩ := List.mem_iff_getElem?.mp hmem
      obtain ⟨t, hstep, ht, hcalled, -, -⟩ := serving_handling hs hworker
      exact ⟨_, t, run_step hstep (machine.run_nil _), ht, hcalled⟩
    | loop | waiting | woken | stopSeen | notForced | recycling | exited => cases hw

/-- From `Init` until `Stop` clears the pool, every request is in `freeRequests_` or out
exactly once, and every operation is called back exactly once if and only if its submission
returned true: what has not been called back yet is in flight once, and can be brought to
its callback while the manager runs. -/
theorem pool_conserved {s₀ s : IocpManager} {as : List IocpAct} (hinit : machine.init s₀)
    (hrun : machine.run s₀ as = some s) (hstop : s.stopping ≠ .cleared) :
    (s.freeRequests ++ s.outstanding).Perm (List.range s.requests.length) ∧
    s.activeRequests = s.outstanding.length ∧
    s.requests.length ≤ s.maxEntries ∧
    (∀ i, s.calls[i]? = some (.returned true) →
      s.callbacks.count i + s.inFlight.countP (·.op == i) = 1 ∧
      (s.isRunning = true → ∃ bs t, machine.run s bs = some t ∧ t.callbacks.count i = 1)) ∧
    (∀ i, s.calls[i]? = some (.returned false) → s.callbacks.count i = 0) := by
  have hs := run_poolInv hinit hrun
  have hcalled := hs.called hstop
  have hmanned : s.Manned := by
    obtain ⟨entries, workerThreads, numberOfProcessors, rfl⟩ := hinit
    exact machine.run_invariant (fun s a s' hs h => step_manned hs h)
      (manned_init entries workerThreads numberOfProcessors) hrun
  refine ⟨(hs.conserved hstop).once, hs.counted, (hs.conserved hstop).bounded, fun i hi => ?_,
    fun i hi => ?_⟩
  · have hone := hcalled.once i
    simp only [accepted, hi, beq_self_eq_true, Bool.toNat_true] at hone
    refine ⟨hone, fun hrunning => ?_⟩
    by_cases hflight : s.inFlight.countP (·.op == i) = 0
    · exact ⟨[], s, rfl, by omega⟩
    · obtain ⟨o, ho, hop⟩ := List.countP_pos_iff.mp (Nat.pos_of_ne_zero hflight)
      obtain rfl := eq_of_beq hop
      obtain ⟨bs, t, hbs, ht, hmem⟩ := serving_inFlight ⟨hs, hmanned, hrunning⟩ ho
      refine ⟨bs, t, hbs, ?_⟩
      have hpos := List.count_pos_iff.mpr hmem
      have hle := ht.called.once o.op
      have hbool := Bool.toNat_le (t.accepted o.op)
      omega
  · have hzero := hcalled.once i
    simp only [accepted, hi] at hzero
    have hnot : (some (IocpCall.returned false) == some (IocpCall.returned true)) = false := rfl
    rw [hnot, Bool.toNat_false] at hzero
    omega

def halvedWrite : List IocpAct :=
  [.submitOperation .write true 4, .post 0 true, .submitOperation .read true 8, .post 1 false,
    .submitOperation .connect true 0, .post 2 true, .complete 0 2 0, .work 0 none, .take 0 0,
    .work 0 none, .complete 1 2 0, .work 0 none, .take 0 0, .work 0 none, .putRequest 1]

theorem pool_conserved_halvedWrite :
    ∃ s, machine.run (init 2 1 8) halvedWrite = some s ∧
      s.activeRequests = s.outstanding.length ∧ s.callbacks = [0] := by
  have hrun : machine.run (init 2 1 8) halvedWrite =
      some ((machine.run (init 2 1 8) halvedWrite).get (by decide)) := by simp
  exact ⟨_, hrun, (pool_conserved ⟨2, 1, 8, rfl⟩ hrun (by decide)).2.1, by decide⟩

end IocpManager

end Lmnet.Windows
