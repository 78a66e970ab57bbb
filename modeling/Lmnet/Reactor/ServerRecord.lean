import Lmnet.Epoll.ServerLife
import Lmnet.Lib.Lists

/-!
What a server of the two reactor backends leaves behind it: the clients it accepted, its two
maps of them, the tasks it gave its callback queue, and the numbers it closed. Its listener is
alive and the queue takes the tasks in order. `δ` is what one read hands on, `σ` what the
connection handler of a client keeps to itself.
-/

set_option autoImplicit false

namespace Lmnet.Reactor

open Lmnet.Epoll (Reason)

variable {δ σ : Type}

structure ServerClient (δ σ : Type) where
  fd : Fd
  isOpen : Bool
  recvd : List δ
  handler : σ
  deriving DecidableEq, Repr

def ServerClient.receive (data : δ) (x : ServerClient δ σ) : ServerClient δ σ :=
  { x with recvd := x.recvd ++ [data] }

def ServerClient.close (x : ServerClient δ σ) : ServerClient δ σ := { x with isOpen := false }

def ServerClient.setHandler (f : σ → σ) (x : ServerClient δ σ) : ServerClient δ σ :=
  { x with handler := f x.handler }

inductive ServerCallback (δ : Type) where
  | onAccept
  | onReceive (data : δ)
  | onError (reason : Reason)
  | onClose
  deriving DecidableEq, Repr

/-- A task of the callback queue, with the session it holds; sessions and handlers have the
number of the client they were made for. -/
inductive ServerTask (δ : Type) where
  | accept (session : Nat)
  | receive (session : Nat) (data : δ)
  | close (session : Nat) (error : Option Reason)
  deriving DecidableEq, Repr

def ServerTask.session : ServerTask δ → Nat
  | .accept c | .receive c _ | .close c _ => c

def ServerTask.callbacks : ServerTask δ → List (ServerCallback δ)
  | .accept _ => [.onAccept]
  | .receive _ data => [.onReceive data]
  | .close _ error => (error.map ServerCallback.onError).toList ++ [.onClose]

def serverLife (data : List δ) (error : Option Reason) : List (ServerCallback δ) :=
  .onAccept :: data.map .onReceive ++ ((error.map ServerCallback.onError).toList ++ [.onClose])

/-- `closes` has an entry for each `close` of a client's number: the client that had the
number, if there was one. -/
structure ServerRecord (δ σ : Type) where
  clients : List (ServerClient δ σ)
  sessions : FdMap Nat
  connectionHandlers : FdMap Nat
  tasks : List (ServerTask δ)
  closes : List (Option Nat)

namespace ServerRecord

def started : ServerRecord δ σ := ⟨[], ∅, ∅, [], []⟩

def owner (s : ServerRecord δ σ) (fd : Fd) : Option Nat :=
  s.clients.findIdx? fun x => x.isOpen && x.fd == fd

def enqueueTask (s : ServerRecord δ σ) (task : ServerTask δ) : ServerRecord δ σ :=
  { s with tasks := s.tasks ++ [task] }

def setHandler (s : ServerRecord δ σ) (c : Nat) (f : σ → σ) : ServerRecord δ σ :=
  { s with clients := s.clients.modify c (ServerClient.setHandler f) }

def accepted (s : ServerRecord δ σ) (fd : Fd) (handler : σ) : ServerRecord δ σ :=
  { s with clients := s.clients ++ [⟨fd, true, [], handler⟩] }

def close (s : ServerRecord δ σ) (fd : Fd) : ServerRecord δ σ :=
  { s with
    clients :=
      match s.owner fd with
      | none => s.clients
      | some c => s.clients.modify c ServerClient.close
    closes := s.closes ++ [s.owner fd] }

def addConnection (s : ServerRecord δ σ) (fd : Fd) (c : Nat) : ServerRecord δ σ :=
  { s with
    sessions := s.sessions.insert fd c
    connectionHandlers := s.connectionHandlers.insert fd c }

def removeConnection (s : ServerRecord δ σ) (fd : Fd) : ServerRecord δ σ :=
  { s with
    sessions := s.sessions.erase fd
    connectionHandlers := s.connectionHandlers.erase fd }

/-- A read that returns data, which only the number of an open client has, and the task for
the session that it finds under the number. -/
def receive (s : ServerRecord δ σ) (fd : Fd) (data : δ) : Option (ServerRecord δ σ) :=
  (s.owner fd).map fun c =>
    let s : ServerRecord δ σ :=
      { s with clients := s.clients.modify c (ServerClient.receive data) }
    match s.sessions.lookup fd with
    | none => s
    | some session => s.enqueueTask (.receive session data)

/-- `HandleConnectionClose`, but for `RemoveHandler`; `error` is the reason when `isError`. -/
def handleConnectionClose (s : ServerRecord δ σ) (fd : Fd) (error : Option Reason) :
    ServerRecord δ σ :=
  match s.sessions.lookup fd with
  | none => s
  | some c => ((s.removeConnection fd).close fd).enqueueTask (.close c error)

def callbacks (s : ServerRecord δ σ) (c : Nat) : List (ServerCallback δ) :=
  (s.tasks.filter fun task => task.session = c).flatMap ServerTask.callbacks

/-- What has been queued for a client: while it is open its `OnAccept` and its data, and
the whole of its life once it is closed. One that could not be registered has none. -/
def Recorded (s : ServerRecord δ σ) (c : Nat) (x : ServerClient δ σ) : Prop :=
  (x.isOpen = true ∧ s.sessions.lookup x.fd = some c ∧
      s.callbacks c = .onAccept :: x.recvd.map .onReceive) ∨
    (x.isOpen = false ∧ ((x.recvd = [] ∧ s.callbacks c = []) ∨
      ∃ error, s.callbacks c = serverLife x.recvd error))

/-- The two maps have the numbers of the open clients; an open client has been told its `OnAccept`
and just what was read for it, a closed one the whole of its life, its `OnClose` included, unless
it was never registered; nobody else has been told anything; and each close hit a client, none of
them twice. -/
structure Told (s : ServerRecord δ σ) : Prop where
  maps : ∀ fd, (fd ∈ s.sessions ↔ fd ∈ s.connectionHandlers) ∧
    (fd ∈ s.sessions ↔ ∃ x ∈ s.clients, x.fd = fd ∧ x.isOpen = true)
  lives : ∀ (c : Nat) (x : ServerClient δ σ), s.clients[c]? = some x → s.Recorded c x
  others : ∀ c, s.clients[c]? = none → s.callbacks c = []
  closed : ∀ o ∈ s.closes, o ≠ none
  once : s.closes.Nodup

structure Inv (s : ServerRecord δ σ) : Prop where
  recorded : ∀ (c : Nat) (x : ServerClient δ σ), s.clients[c]? = some x → s.Recorded c x
  session : ∀ fd c, s.sessions.lookup fd = some c →
    ∃ x, s.clients[c]? = some x ∧ x.fd = fd ∧ x.isOpen = true
  maps : ∀ fd, s.connectionHandlers.lookup fd = s.sessions.lookup fd
  fresh : ∀ task ∈ s.tasks, task.session < s.clients.length
  hit : ∀ o ∈ s.closes, ∃ c x, o = some c ∧ s.clients[c]? = some x ∧ x.isOpen = false
  once : s.closes.Nodup

theorem callbacks_append {s s' : ServerRecord δ σ} {task : ServerTask δ}
    (h : s'.tasks = s.tasks ++ [task]) (c : Nat) : s'.callbacks c =
      s.callbacks c ++ (if task.session = c then task.callbacks else []) := by
  simp only [callbacks, h, List.filter_append, List.flatMap_append]
  split <;> simp [*]

theorem callbacks_other {s s' : ServerRecord δ σ} (task : ServerTask δ) {c : Nat}
    (hne : task.session ≠ c) (h : s'.tasks = s.tasks ++ [task]) :
    s'.callbacks c = s.callbacks c := by
  rw [callbacks_append h, if_neg hne, List.append_nil]

theorem callbacks_eq_nil {s : ServerRecord δ σ} {c : Nat} (h : ∀ task ∈ s.tasks, task.session < c) :
    s.callbacks c = [] := by
  have hnone : s.tasks.filter (fun task => task.session = c) = [] := by
    rw [List.filter_eq_nil_iff]
    intro task htask
    simpa using Nat.ne_of_lt (h task htask)
  rw [callbacks, hnone, List.flatMap_nil]

theorem started_inv : (started : ServerRecord δ σ).Inv := by
  constructor <;> simp [started]

theorem client_modify {clients : List (ServerClient δ σ)} {c d : Nat}
    {f : ServerClient δ σ → ServerClient δ σ} {x : ServerClient δ σ}
    (h : (clients.modify c f)[d]? = some x) :
    (c = d ∧ ∃ y, clients[d]? = some y ∧ x = f y) ∨ (c ≠ d ∧ clients[d]? = some x) := by
  rw [List.getElem?_modify] at h
  obtain ⟨y, hy, rfl⟩ := Option.map_eq_some_iff.mp h
  by_cases hcd : c = d
  · exact .inl ⟨hcd, y, hy, by simp [hcd]⟩
  · exact .inr ⟨hcd, by simpa [hcd] using hy⟩

def number (s : ServerRecord δ σ) (c : Nat) : Option Fd := s.clients[c]?.map ServerClient.fd

def Grows (s s' : ServerRecord δ σ) : Prop :=
  ∀ (c : Nat) (x : ServerClient δ σ), s.clients[c]? = some x →
    ∃ y, s'.clients[c]? = some y ∧ y.fd = x.fd ∧ (x.isOpen = false → y.isOpen = false)

theorem Grows.number {s s' : ServerRecord δ σ} (h : s.Grows s') {c : Nat} {fd : Fd}
    (hc : s.number c = some fd) : s'.number c = some fd := by
  obtain ⟨x, hx, rfl⟩ := Option.map_eq_some_iff.mp hc
  obtain ⟨y, hy, hfd, -⟩ := h c x hx
  rw [ServerRecord.number, hy, ← hfd]
  rfl

theorem grows_modify {s s' : ServerRecord δ σ} {c : Nat}
    {f : ServerClient δ σ → ServerClient δ σ} (h : s'.clients = s.clients.modify c f)
    (hfd : ∀ x, (f x).fd = x.fd) (hopen : ∀ x, x.isOpen = false → (f x).isOpen = false) :
    s.Grows s' := by
  intro d x hx
  refine ⟨if c = d then f x else x, by rw [h, List.getElem?_modify, hx]; rfl, ?_⟩
  split
  · exact ⟨hfd x, hopen x⟩
  · exact ⟨rfl, id⟩

theorem grows_concat {s s' : ServerRecord δ σ} {x : ServerClient δ σ}
    (h : s'.clients = s.clients ++ [x]) : s.Grows s' := by
  intro d y hy
  refine ⟨y, ?_, rfl, id⟩
  rw [h, List.getElem?_append_left (List.getElem?_eq_some_iff.mp hy).1, hy]

theorem grows_setHandler (s : ServerRecord δ σ) (c : Nat) (f : σ → σ) :
    s.Grows (s.setHandler c f) :=
  grows_modify rfl (fun _ => rfl) fun _ => id

theorem setHandler_setHandler (s : ServerRecord δ σ) (c : Nat) (f g : σ → σ) :
    (s.setHandler c f).setHandler c g = s.setHandler c fun h => g (f h) := by
  simp only [setHandler, List.modify_modify_eq]
  rfl

namespace Inv

variable {s : ServerRecord δ σ}

theorem recorded_open (h : s.Inv) {c : Nat} {x : ServerClient δ σ} (hx : s.clients[c]? = some x)
    (hopen : x.isOpen = true) :
    s.sessions.lookup x.fd = some c ∧ s.callbacks c = .onAccept :: x.recvd.map .onReceive := by
  rcases h.recorded c x hx with ⟨-, hrest⟩ | ⟨hclosed, -⟩
  · exact hrest
  · rw [hopen] at hclosed
    cases hclosed

theorem fresh_append (h : s.Inv) {n : Nat} (hn : s.clients.length ≤ n) {task : ServerTask δ}
    (htask : task.session < n) : ∀ t ∈ s.tasks ++ [task], t.session < n := by
  intro t ht
  rcases List.mem_append.mp ht with ht | ht
  · exact Nat.lt_of_lt_of_le (h.fresh t ht) hn
  · rw [List.mem_singleton.mp ht]
    exact htask

theorem once_append (h : s.Inv) {c : Nat} (hopen : ∀ x, s.clients[c]? = some x → x.isOpen = true) :
    (s.closes ++ [some c]).Nodup := by
  refine List.nodup_append'.mpr ⟨h.once, List.nodup_singleton _, fun o ho hc => ?_⟩
  obtain rfl := List.mem_singleton.mp hc
  obtain ⟨d, x, heq, hx, hclosed⟩ := h.hit _ ho
  cases heq
  rw [hopen x hx] at hclosed
  cases hclosed

/-- The open client with a number is the one that `sessions_` has. -/
theorem owner (h : s.Inv) (fd : Fd) : s.owner fd = s.sessions.lookup fd := by
  cases howner : s.owner fd with
  | none =>
    cases hsession : s.sessions.lookup fd with
    | none => rfl
    | some c =>
      obtain ⟨x, hx, hfd, hopen⟩ := h.session fd c hsession
      have hnone := List.findIdx?_eq_none_iff.mp howner x (List.mem_of_getElem? hx)
      simp [hfd, hopen] at hnone
  | some c =>
    obtain ⟨hlt, hp, -⟩ := List.findIdx?_eq_some_iff_getElem.mp howner
    obtain ⟨hopen, hfd⟩ := Bool.and_eq_true_iff.mp hp
    have hsession := (h.recorded_open (List.getElem?_eq_getElem hlt) hopen).1
    rw [← hsession, eq_of_beq hfd]

theorem session_modify (h : s.Inv) (c : Nat) {f : ServerClient δ σ → ServerClient δ σ}
    (hf : ∀ x, (f x).fd = x.fd ∧ (f x).isOpen = x.isOpen) (fd : Fd) (d : Nat)
    (hd : s.sessions.lookup fd = some d) :
    ∃ x, (s.clients.modify c f)[d]? = some x ∧ x.fd = fd ∧ x.isOpen = true := by
  obtain ⟨x, hx, hfd, hopen⟩ := h.session fd d hd
  refine ⟨if c = d then f x else x, by rw [List.getElem?_modify, hx]; rfl, ?_⟩
  split
  · rw [(hf x).1, (hf x).2]
    exact ⟨hfd, hopen⟩
  · exact ⟨hfd, hopen⟩

theorem hit_modify (h : s.Inv) (c : Nat) {f : ServerClient δ σ → ServerClient δ σ}
    (hf : ∀ x, x.isOpen = false → (f x).isOpen = false) (o : Option Nat) (ho : o ∈ s.closes) :
    ∃ d x, o = some d ∧ (s.clients.modify c f)[d]? = some x ∧ x.isOpen = false := by
  obtain ⟨d, x, rfl, hx, hclosed⟩ := h.hit o ho
  refine ⟨d, if c = d then f x else x, rfl, by rw [List.getElem?_modify, hx]; rfl, ?_⟩
  split
  · exact hf x hclosed
  · exact hclosed

theorem setHandler (h : s.Inv) (c : Nat) (f : σ → σ) : (s.setHandler c f).Inv := by
  have hf : ∀ x : ServerClient δ σ, (x.setHandler f).fd = x.fd ∧
      (x.setHandler f).isOpen = x.isOpen := fun _ => ⟨rfl, rfl⟩
  refine { h with recorded := ?_, session := h.session_modify c hf, fresh := ?_, hit := ?_ }
  · intro d x hx
    rcases client_modify hx with ⟨rfl, y, hy, rfl⟩ | ⟨-, hy⟩
    · exact h.recorded c y hy
    · exact h.recorded d x hy
  · intro task htask
    simpa [ServerRecord.setHandler] using h.fresh task htask
  · exact h.hit_modify c fun x hclosed => hclosed

theorem receive {s' : ServerRecord δ σ} (h : s.Inv) {fd : Fd} {data : δ}
    (hs : s.receive fd data = some s') : s'.Inv ∧ ∃ c, s.sessions.lookup fd = some c ∧
      s' = { s with
        clients := s.clients.modify c (ServerClient.receive data)
        tasks := s.tasks ++ [.receive c data] } := by
  obtain ⟨c, howner, rfl⟩ := Option.map_eq_some_iff.mp hs
  rw [h.owner] at howner
  simp only [howner, enqueueTask]
  refine ⟨?_, c, rfl, rfl⟩
  have hf : ∀ x : ServerClient δ σ, (x.receive data).fd = x.fd ∧
      (x.receive data).isOpen = x.isOpen := fun _ => ⟨rfl, rfl⟩
  obtain ⟨x, hx, hfd, hopen⟩ := h.session fd c howner
  refine { h with recorded := ?_, session := h.session_modify c hf, fresh := ?_, hit := ?_ }
  · intro d y hy
    rcases client_modify hy with ⟨rfl, old, hold, rfl⟩ | ⟨hne, hold⟩
    · rw [hx] at hold
      cases hold
      obtain ⟨hlookup, hcallbacks⟩ := h.recorded_open hx hopen
      rw [Recorded, callbacks_append (s := s) rfl, hcallbacks]
      exact .inl ⟨hopen, hlookup,
        by simp [ServerClient.receive, ServerTask.session, ServerTask.callbacks]⟩
    · rw [Recorded, callbacks_other (s := s) (.receive c data) hne rfl]
      exact h.recorded d y hold
  · rw [List.length_modify]
    exact h.fresh_append (Nat.le_refl _) (List.getElem?_eq_some_iff.mp hx).1
  · exact h.hit_modify c fun x hclosed => hclosed

theorem handleConnectionClose_eq (h : s.Inv) {fd : Fd} {c : Nat}
    (hsession : s.sessions.lookup fd = some c) (error : Option Reason) :
    s.handleConnectionClose fd error = { s with
      clients := s.clients.modify c ServerClient.close
      sessions := s.sessions.erase fd
      connectionHandlers := s.connectionHandlers.erase fd
      tasks := s.tasks ++ [.close c error]
      closes := s.closes ++ [some c] } := by
  have howner : (s.removeConnection fd).owner fd = some c := (h.owner fd).trans hsession
  simp only [ServerRecord.handleConnectionClose, hsession, ServerRecord.close, howner]
  rfl

theorem handleConnectionClose (h : s.Inv) (fd : Fd) (error : Option Reason) :
    (s.handleConnectionClose fd error).Inv := by
  cases hsession : s.sessions.lookup fd with
  | none =>
    have hsame : s.handleConnectionClose fd error = s := by
      simp only [ServerRecord.handleConnectionClose, hsession]
    rw [hsame]
    exact h
  | some c =>
    rw [h.handleConnectionClose_eq hsession error]
    obtain ⟨x, hx, hfd, hopen⟩ := h.session fd c hsession
    -- another client's number is another one
    have hother : ∀ n d, s.sessions.lookup n = some d → c ≠ d → n ≠ fd := by
      rintro n d hd hne rfl
      rw [hsession] at hd
      exact hne (Option.some.inj hd)
    exact {
      recorded := by
        intro d y hy
        rcases client_modify hy with ⟨rfl, old, hold, rfl⟩ | ⟨hne, hold⟩
        · rw [hx] at hold
          cases hold
          refine .inr ⟨rfl, .inr ⟨error, ?_⟩⟩
          rw [callbacks_append (s := s) rfl, (h.recorded_open hx hopen).2]
          simp [ServerTask.session, ServerTask.callbacks, serverLife, ServerClient.close]
        · rw [Recorded, callbacks_other (s := s) (.close c error) hne rfl]
          rcases h.recorded d y hold with ⟨hopen', hsession', hcallbacks⟩ | hclosed
          · refine .inl ⟨hopen', ?_, hcallbacks⟩
            exact (AList.lookup_erase_ne (hother _ d hsession' hne)).trans hsession'
          · exact .inr hclosed
      session := by
        intro n d hd
        obtain ⟨hne, hd⟩ := AList.lookup_of_lookup_erase hd
        obtain ⟨y, hy, hfd', hopen'⟩ := h.session n d hd
        have hcd : c ≠ d := by
          rintro rfl
          rw [hx] at hy
          cases hy
          exact hne (hfd'.symm.trans hfd)
        exact ⟨y, by simp [hcd, hy], hfd', hopen'⟩
      maps := by
        intro n
        rw [AList.lookup_erase_eq_ite, AList.lookup_erase_eq_ite, h.maps]
      fresh := by
        rw [List.length_modify]
        exact h.fresh_append (Nat.le_refl _) (List.getElem?_eq_some_iff.mp hx).1
      hit := by
        intro o ho
        rcases List.mem_append.mp ho with ho | ho
        · exact h.hit_modify c (fun _ _ => rfl) o ho
        · obtain rfl := List.mem_singleton.mp ho
          exact ⟨c, x.close, rfl, by simp [hx], rfl⟩
      once := by
        refine h.once_append fun y hy => ?_
        rw [hx] at hy
        cases hy
        exact hopen }

theorem addConnection (h : s.Inv) {fd : Fd} (hfree : s.owner fd = none) (handler : σ) :
    (((s.accepted fd handler).addConnection fd s.clients.length).enqueueTask
      (.accept s.clients.length)).Inv := by
  have hnone : s.sessions.lookup fd = none := by rw [← h.owner, hfree]
  have hother : ∀ n d, s.sessions.lookup n = some d → n ≠ fd := by
    rintro n d hd rfl
    rw [hnone] at hd
    cases hd
  exact {
    recorded := by
      intro d x hx
      rcases List.getElem?_concat_some hx with hold | ⟨rfl, rfl⟩
      · have hne : (ServerTask.accept s.clients.length : ServerTask δ).session ≠ d :=
          Nat.ne_of_gt (List.getElem?_eq_some_iff.mp hold).1
        rw [Recorded, callbacks_other (s := s) (.accept s.clients.length) hne rfl]
        rcases h.recorded d x hold with ⟨hopen, hlookup, hcallbacks⟩ | hclosed
        · exact .inl ⟨hopen, (AList.lookup_insert_ne (hother _ d hlookup)).trans hlookup,
            hcallbacks⟩
        · exact .inr hclosed
      · rw [Recorded, callbacks_append (s := s) rfl, callbacks_eq_nil h.fresh]
        exact .inl ⟨rfl, AList.lookup_insert _, by simp [ServerTask.session, ServerTask.callbacks]⟩
    session := by
      intro n d hd
      rcases AList.lookup_insert_cases hd with ⟨rfl, rfl⟩ | ⟨-, hd⟩
      · exact ⟨_, List.getElem?_concat_length, rfl, rfl⟩
      · obtain ⟨x, hx, hfd, hopen⟩ := h.session n d hd
        exact ⟨x, (List.getElem?_append_left (List.getElem?_eq_some_iff.mp hx).1).trans hx,
          hfd, hopen⟩
    maps := by
      intro n
      simp only [enqueueTask, ServerRecord.addConnection, ServerRecord.accepted,
        AList.lookup_insert_eq_ite, h.maps]
    fresh := by
      simp only [enqueueTask, ServerRecord.addConnection, ServerRecord.accepted,
        List.length_append, List.length_singleton]
      exact h.fresh_append (Nat.le_succ _) (Nat.lt_succ_self _)
    hit := by
      intro o ho
      obtain ⟨d, x, rfl, hx, hclosed⟩ := h.hit o ho
      exact ⟨d, x, rfl, (List.getElem?_append_left (List.getElem?_eq_some_iff.mp hx).1).trans hx,
        hclosed⟩
    once := h.once }

theorem refuse (h : s.Inv) {fd : Fd} (hfree : s.owner fd = none) (handler : σ) :
    (s.accepted fd handler).close fd = { s with
      clients := s.clients ++ [⟨fd, false, [], handler⟩]
      closes := s.closes ++ [some s.clients.length] } ∧
    ((s.accepted fd handler).close fd).Inv := by
  have howner : (s.accepted fd handler).owner fd = some s.clients.length := by
    have hold : s.clients.findIdx? (fun x => x.isOpen && x.fd == fd) = none := hfree
    simp [ServerRecord.owner, accepted, List.findIdx?_append, hold]
  have hclosed : (s.clients ++ [(⟨fd, true, [], handler⟩ : ServerClient δ σ)]).modify
      s.clients.length ServerClient.close = s.clients ++ [⟨fd, false, [], handler⟩] :=
    List.modify_concat_length _
  have heq : (s.accepted fd handler).close fd = { s with
      clients := s.clients ++ [⟨fd, false, [], handler⟩]
      closes := s.closes ++ [some s.clients.length] } := by
    simp only [ServerRecord.close, howner]
    simp only [accepted, hclosed]
  have hleft : ∀ (d : Nat) (x : ServerClient δ σ), s.clients[d]? = some x →
      (s.clients ++ [(⟨fd, false, [], handler⟩ : ServerClient δ σ)])[d]? = some x := by
    intro d x hx
    rw [List.getElem?_append_left (List.getElem?_eq_some_iff.mp hx).1, hx]
  refine ⟨heq, heq ▸ { h with
    recorded := ?_, session := ?_, fresh := ?_, hit := ?_, once := ?_ }⟩
  · intro d x hx
    rcases List.getElem?_concat_some hx with hold | ⟨rfl, rfl⟩
    · exact h.recorded d x hold
    · exact .inr ⟨rfl, .inl ⟨rfl, callbacks_eq_nil h.fresh⟩⟩
  · intro n d hd
    obtain ⟨x, hx, hrest⟩ := h.session n d hd
    exact ⟨x, hleft d x hx, hrest⟩
  · intro task htask
    simpa using Nat.lt_succ_of_lt (h.fresh task htask)
  · intro o ho
    rcases List.mem_append.mp ho with ho | ho
    · obtain ⟨d, x, rfl, hx, hshut⟩ := h.hit o ho
      exact ⟨d, x, rfl, hleft d x hx, hshut⟩
    · obtain rfl := List.mem_singleton.mp ho
      exact ⟨_, _, rfl, List.getElem?_concat_length, rfl⟩
  · exact h.once_append fun x hx => by simp at hx

end Inv

theorem Inv.told {s : ServerRecord δ σ} (h : s.Inv) : s.Told where
  maps fd := by
    have hmem : fd ∈ s.sessions ↔ ∃ c, s.sessions.lookup fd = some c := by
      rw [← AList.lookup_isSome, Option.isSome_iff_exists]
    refine ⟨?_, ?_⟩
    · rw [hmem, ← h.maps, ← Option.isSome_iff_exists, AList.lookup_isSome]
    · rw [hmem]
      constructor
      · rintro ⟨c, hc⟩
        obtain ⟨x, hx, hfd, hopen⟩ := h.session fd c hc
        exact ⟨x, List.mem_of_getElem? hx, hfd, hopen⟩
      · rintro ⟨x, hx, rfl, hopen⟩
        obtain ⟨c, hc⟩ := List.mem_iff_getElem?.mp hx
        exact ⟨c, (h.recorded_open hc hopen).1⟩
  lives := h.recorded
  others c hc := callbacks_eq_nil fun task htask =>
    Nat.lt_of_lt_of_le (h.fresh task htask) (List.getElem?_eq_none_iff.mp hc)
  closed o ho hnone := by
    obtain ⟨c, x, heq, -⟩ := h.hit o ho
    rw [hnone] at heq
    cases heq
  once := h.once

end ServerRecord

end Lmnet.Reactor
