import Lmnet.Darwin.ServerLife

set_option autoImplicit false

namespace Lmnet.Darwin

open Lmnet.Reactor
open Lmnet.Epoll (Handler Reason RecvReturn SendReturn getEvents)

variable {r r' : ServerRecord (List UInt8) ConnectionHandler}

theorem bytesOf_append (ms ns : List Message) : bytesOf (ms ++ ns) = bytesOf ms ++ bytesOf ns :=
  List.flatMap_append

theorem bytesOf_cons (m : Message) (ms : List Message) :
    bytesOf (m :: ms) = m.bytes ++ bytesOf ms := rfl

namespace Streams

theorem started : Streams .started := by
  constructor <;> simp [ServerRecord.started]

theorem of_same (h : Streams r) (hgrows : r.Grows r')
    (hsame : ∀ (c : Nat) (y : ServerClient (List UInt8) ConnectionHandler),
      r'.clients[c]? = some y → y.handler = .created ∨
        ∃ x, r.clients[c]? = some x ∧ y.fd = x.fd ∧ y.handler = x.handler ∧
          (y.isOpen = true → x.isOpen = true)) : Streams r' := by
  constructor
  · intro c y hy
    rcases hsame c y hy with hnew | ⟨x, hx, -, hhandler, -⟩
    · rw [hnew]
      exact List.nil_prefix
    · rw [hhandler]
      exact h.sent c x hx
  · intro c y hy hopen
    rcases hsame c y hy with hnew | ⟨x, hx, -, hhandler, hclosed⟩
    · rw [hnew]
      rfl
    · rw [hhandler]
      exact h.waiting c x hx (hclosed hopen)
  · intro c y hy m hm
    rcases hsame c y hy with hnew | ⟨x, hx, hfd, hhandler, -⟩
    · rw [hnew] at hm
      cases hm
    · rw [hhandler] at hm
      obtain ⟨z, hz, hzfd⟩ := h.own c x hx m hm
      obtain ⟨w, hw, hwfd, -⟩ := hgrows m.session z hz
      exact ⟨w, hw, by rw [hwfd, hzfd, hfd]⟩

theorem setHandler (h : Streams r) (c : Nat) (f : ConnectionHandler → ConnectionHandler)
    (hf : ∀ x, r.clients[c]? = some x →
      (f x.handler).sent <+: bytesOf (f x.handler).queued ∧
      (x.isOpen = true → (f x.handler).sent ++ bytesOf (f x.handler).sendQueue =
        bytesOf (f x.handler).queued) ∧
      ∀ m ∈ (f x.handler).queued, r.number m.session = some x.fd) :
    Streams (r.setHandler c f) := by
  have hgrows := ServerRecord.grows_setHandler r c f
  have hcases := fun (d : Nat) (y : ServerClient (List UInt8) ConnectionHandler)
    (hy : (r.setHandler c f).clients[d]? = some y) => ServerRecord.client_modify hy
  constructor
  · intro d y hy
    rcases hcases d y hy with ⟨rfl, x, hx, rfl⟩ | ⟨-, hx⟩
    · exact (hf x hx).1
    · exact h.sent d y hx
  · intro d y hy hopen
    rcases hcases d y hy with ⟨rfl, x, hx, rfl⟩ | ⟨-, hx⟩
    · exact (hf x hx).2.1 hopen
    · exact h.waiting d y hx hopen
  · intro d y hy m hm
    have hnumber : r.number m.session = some y.fd := by
      rcases hcases d y hy with ⟨rfl, x, hx, rfl⟩ | ⟨-, hx⟩
      · exact (hf x hx).2.2 m hm
      · obtain ⟨z, hz, hzfd⟩ := h.own d y hx m hm
        simp [ServerRecord.number, hz, hzfd]
    exact Option.map_eq_some_iff.mp (hgrows.number hnumber)

theorem number (h : Streams r) {c : Nat} {x : ServerClient (List UInt8) ConnectionHandler}
    (hx : r.clients[c]? = some x) {m : Message} (hm : m ∈ x.handler.queued) :
    r.number m.session = some x.fd := by
  obtain ⟨y, hy, hfd⟩ := h.own c x hx m hm
  simp [ServerRecord.number, hy, hfd]

end Streams

/-- The handler that `DispatchEvent` holds is that of a client with the number, and no other
client has the number now. -/
def Dispatch.Known (r : ServerRecord (List UInt8) ConnectionHandler) (d : Dispatch) : Prop :=
  ∀ c, d.handler = .connection c →
    r.number c = some d.fd ∧ ∀ e, r.sessions.lookup d.fd = some e → e = c

def Sending.Known (r : ServerRecord (List UInt8) ConnectionHandler) : Sending → Prop
  | .found fd message => r.number message.session = some fd
  | .queueSend c message => ∃ fd, r.number message.session = some fd ∧ r.number c = some fd
  | .events _ | .modify _ _ => True

theorem Sending.Known.grows {x : Sending} (h : x.Known r) (hgrows : r.Grows r') : x.Known r' := by
  cases x with
  | found fd message => exact hgrows.number h
  | queueSend c message =>
    obtain ⟨fd, hsession, hc⟩ := h
    exact ⟨fd, hgrows.number hsession, hgrows.number hc⟩
  | events | modify => trivial

theorem EventReactor.registerHandler_cases {η : Type} (r : EventReactor η) (fd : Fd) (events : Nat)
    (handler : η) (kevent : Option Int) :
    (r.registerHandler fd events handler kevent).1.running = r.running ∧
    (((r.registerHandler fd events handler kevent).2 = false ∧
      (r.registerHandler fd events handler kevent).1.handlers = r.handlers) ∨
    ((r.registerHandler fd events handler kevent).2 = true ∧ fd ∉ r.handlers ∧
      (r.registerHandler fd events handler kevent).1.handlers = r.handlers.insert fd handler)) := by
  unfold registerHandler
  split
  · exact ⟨rfl, .inl ⟨rfl, rfl⟩⟩
  · split
    · exact ⟨rfl, .inl ⟨rfl, rfl⟩⟩
    · split
      · exact ⟨rfl, .inr ⟨rfl, ‹_›, rfl⟩⟩
      · exact ⟨rfl, .inl ⟨rfl, rfl⟩⟩

namespace ServerLife

structure Inv (s : ServerLife) : Prop where
  record : s.record.Inv
  streams : Streams s.record
  running : s.reactor.running = true
  server : ∀ fd, s.reactor.handlers.lookup fd = some .server ↔ fd = s.socket
  registered : ∀ fd c, s.reactor.handlers.lookup fd = some (.connection c) ↔
    s.record.sessions.lookup fd = some c ∨ (c, fd) ∈ s.leftBehind
  left : ∀ p ∈ s.leftBehind, ∃ x, s.record.clients[p.1]? = some x ∧ x.fd = p.2 ∧ x.isOpen = false
  dispatching : ∀ d ∈ s.dispatching, d.Known s.record
  sending : ∀ x ∈ s.sending, x.Known s.record

theorem started_lookup (socket fd : Fd) : (started socket).reactor.handlers.lookup fd =
    if fd = socket then some .server else none := by
  by_cases hfd : fd = socket
  · rw [if_pos hfd, hfd]
    exact AList.lookup_insert ∅
  · rw [if_neg hfd]
    exact AList.lookup_insert_ne hfd

theorem started_inv (socket : Fd) : (started socket).Inv where
  record := ServerRecord.started_inv
  streams := Streams.started
  running := rfl
  server fd := by
    rw [started_lookup]
    split <;> simp [started, *]
  registered fd c := by
    rw [started_lookup]
    split <;> simp [started, ServerRecord.started]
  left := by simp [started]
  dispatching := by simp [started]
  sending := by simp [started]

namespace Inv

variable {s s' : ServerLife}

theorem number_of_session (h : s.Inv) {fd : Fd} {c : Nat}
    (hc : s.record.sessions.lookup fd = some c) : s.record.number c = some fd := by
  obtain ⟨x, hx, hfd, -⟩ := h.record.session fd c hc
  simp [ServerRecord.number, hx, hfd]

theorem of_record (h : s.Inv) {record : ServerRecord (List UInt8) ConnectionHandler}
    (hrecord : record.Inv) (hstreams : Streams record)
    (hsessions : record.sessions = s.record.sessions) (hgrows : s.record.Grows record) :
    Inv { s with record := record } where
  record := hrecord
  streams := hstreams
  running := h.running
  server := h.server
  registered fd c := by
    rw [hsessions]
    exact h.registered fd c
  left p hp := by
    obtain ⟨x, hx, hfd, hclosed⟩ := h.left p hp
    obtain ⟨y, hy, hyfd, hyclosed⟩ := hgrows p.1 x hx
    exact ⟨y, hy, hyfd.trans hfd, hyclosed hclosed⟩
  dispatching d hd c hc := by
    obtain ⟨hnumber, honly⟩ := h.dispatching d hd c hc
    refine ⟨hgrows.number hnumber, ?_⟩
    rw [hsessions]
    exact honly
  sending x hx := (h.sending x hx).grows hgrows

theorem setHandler (h : s.Inv) (c : Nat) (f : ConnectionHandler → ConnectionHandler)
    (hf : ∀ x, s.record.clients[c]? = some x →
      (f x.handler).sent <+: bytesOf (f x.handler).queued ∧
      (x.isOpen = true → (f x.handler).sent ++ bytesOf (f x.handler).sendQueue =
        bytesOf (f x.handler).queued) ∧
      ∀ m ∈ (f x.handler).queued, s.record.number m.session = some x.fd) :
    Inv { s with record := s.record.setHandler c f } :=
  h.of_record (h.record.setHandler c f) (h.streams.setHandler c f hf) rfl
    (ServerRecord.grows_setHandler s.record c f)

theorem of_reactor (h : s.Inv) {reactor : EventReactor Handler}
    (hrunning : reactor.running = s.reactor.running)
    (hhandlers : reactor.handlers = s.reactor.handlers) : Inv { s with reactor := reactor } :=
  { h with
    running := hrunning.trans h.running
    server := by
      rw [hhandlers]
      exact h.server
    registered := by
      rw [hhandlers]
      exact h.registered }

theorem modifyHandler (h : s.Inv) {c events : Nat} {kevent : Option Int}
    (hs : s.modifyHandler c events kevent = some s') :
    s'.Inv ∧ s'.dispatching = s.dispatching ∧ s'.sending = s.sending := by
  obtain ⟨x, -, rfl⟩ := Option.map_eq_some_iff.mp hs
  refine ⟨h.of_reactor ?_ ?_, rfl, rfl⟩ <;> unfold EventReactor.modifyHandler <;>
    split <;> [rfl; split <;> [rfl; split <;> rfl]; rfl; split <;> [rfl; split <;> rfl]]

theorem removeHandler_cases (h : s.Inv) {fd : Fd} {c : Nat}
    (hc : s.record.sessions.lookup fd = some c) (kevent : Option Int) :
    (s.reactor.removeHandler fd kevent).1.running = true ∧
    (((s.reactor.removeHandler fd kevent).2 = true ∧
      (s.reactor.removeHandler fd kevent).1.handlers = s.reactor.handlers.erase fd) ∨
    ((s.reactor.removeHandler fd kevent).2 = false ∧
      (s.reactor.removeHandler fd kevent).1.handlers = s.reactor.handlers)) := by
  have hmem : fd ∈ s.reactor.handlers := by
    rw [← AList.lookup_isSome, (h.registered fd c).mpr (.inl hc)]
    rfl
  unfold EventReactor.removeHandler
  rw [if_pos hmem]
  split
  · exact ⟨h.running, .inr ⟨rfl, rfl⟩⟩
  · exact ⟨h.running, .inl ⟨rfl, rfl⟩⟩

theorem handleConnectionClose (h : s.Inv) (fd : Fd) (error : Option Reason)
    (kevent : Option Int) : (s.handleConnectionClose fd error kevent).Inv := by
  cases hc : s.record.sessions.lookup fd with
  | none =>
    have hsame : s.handleConnectionClose fd error kevent = s := by
      simp only [ServerLife.handleConnectionClose, hc]
    rw [hsame]
    exact h
  | some c =>
    obtain ⟨x, hx, hfd, hopen⟩ := h.record.session fd c hc
    have hrecord := h.record.handleConnectionClose fd error
    have heq := h.record.handleConnectionClose_eq hc error
    simp only [ServerLife.handleConnectionClose, hc]
    generalize s.record.handleConnectionClose fd error = record at hrecord heq
    have hclients : record.clients = s.record.clients.modify c ServerClient.close := by rw [heq]
    have hsessions : record.sessions = s.record.sessions.erase fd := by rw [heq]
    have hgrows : s.record.Grows record :=
      ServerRecord.grows_modify hclients (fun _ => rfl) fun _ _ => rfl
    have hown : ∀ d, (d, fd) ∉ s.leftBehind := by
      intro d hd
      have hdc := (h.registered fd d).mpr (.inr hd)
      rw [(h.registered fd c).mpr (.inl hc)] at hdc
      cases hdc
      obtain ⟨y, hy, -, hclosed⟩ := h.left _ hd
      rw [hx] at hy
      cases hy
      rw [hopen] at hclosed
      cases hclosed
    obtain ⟨hrunning, hremove⟩ := h.removeHandler_cases hc kevent
    generalize (s.reactor.removeHandler fd kevent).2 = removed at hremove
    generalize (s.reactor.removeHandler fd kevent).1 = reactor at hrunning hremove
    exact {
      record := hrecord
      streams := by
        refine h.streams.of_same hgrows fun d y hy => .inr ?_
        rw [hclients] at hy
        rcases ServerRecord.client_modify hy with ⟨rfl, z, hz, rfl⟩ | ⟨-, hz⟩
        · exact ⟨z, hz, rfl, rfl, fun hopen' => by cases hopen'⟩
        · exact ⟨y, hz, rfl, rfl, id⟩
      running := hrunning
      server := by
        intro n
        rcases hremove with ⟨-, hhandlers⟩ | ⟨-, hhandlers⟩
        · rw [hhandlers]
          by_cases hn : n = fd
          · subst hn
            refine iff_of_false (by simp) fun hsocket => ?_
            have hserver := (h.server n).mpr hsocket
            rw [(h.registered n c).mpr (.inl hc)] at hserver
            cases hserver
          · rw [AList.lookup_erase_ne hn]
            exact h.server n
        · rw [hhandlers]
          exact h.server n
      registered := by
        intro n d
        by_cases hn : n = fd
        · subst hn
          have hnone : record.sessions.lookup n = none := by
            rw [hsessions]
            exact AList.lookup_erase n _
          rcases hremove with ⟨rfl, hhandlers⟩ | ⟨rfl, hhandlers⟩
          · simp [hhandlers, hnone, hown d]
          · rw [hhandlers, (h.registered n c).mpr (.inl hc), hnone]
            simp [hown d, eq_comm]
        · have hsame : record.sessions.lookup n = s.record.sessions.lookup n := by
            rw [hsessions]
            exact AList.lookup_erase_ne hn
          rcases hremove with ⟨rfl, hhandlers⟩ | ⟨rfl, hhandlers⟩
          · rw [hhandlers, AList.lookup_erase_ne hn, hsame]
            simpa using h.registered n d
          · rw [hhandlers, hsame]
            simpa [hn] using h.registered n d
      left := by
        intro p hp
        rcases List.mem_append.mp hp with hp | hp
        · obtain ⟨y, hy, hyfd, hclosed⟩ := h.left p hp
          obtain ⟨z, hz, hzfd, hzclosed⟩ := hgrows p.1 y hy
          exact ⟨z, hz, hzfd.trans hyfd, hzclosed hclosed⟩
        · obtain rfl : p = (c, fd) := by
            split at hp
            · cases hp
            · exact List.mem_singleton.mp hp
          exact ⟨x.close, by simp [hclients, hx], hfd, rfl⟩
      dispatching := by
        intro d hd e he
        obtain ⟨hnumber, honly⟩ := h.dispatching d hd e he
        refine ⟨hgrows.number hnumber, fun e' he' => honly e' ?_⟩
        rw [hsessions] at he'
        exact (AList.lookup_of_lookup_erase he').2
      sending := fun y hy => (h.sending y hy).grows hgrows }

theorem refuse (h : s.Inv) {fd : Fd} (hfree : s.record.owner fd = none) :
    Inv { s with record := (s.record.accepted fd .created).close fd } := by
  obtain ⟨heq, hrecord⟩ := h.record.refuse hfree .created
  generalize (s.record.accepted fd .created).close fd = record at heq hrecord
  have hclients : record.clients = s.record.clients ++ [⟨fd, false, [], .created⟩] := by rw [heq]
  have hgrows := ServerRecord.grows_concat hclients
  refine h.of_record hrecord (h.streams.of_same hgrows fun d y hy => ?_) (by rw [heq]) hgrows
  rw [hclients] at hy
  rcases List.getElem?_concat_some hy with hy | ⟨-, rfl⟩
  · exact .inr ⟨y, hy, rfl, rfl, id⟩
  · exact .inl rfl

theorem accept (h : s.Inv) {fd : Fd} {reactor : EventReactor Handler}
    (hfree : s.record.owner fd = none) (hsocket : fd ≠ s.socket)
    (hnew : fd ∉ s.reactor.handlers) (hrunning : reactor.running = true)
    (hhandlers : reactor.handlers =
      s.reactor.handlers.insert fd (.connection s.record.clients.length))
    (hserver : ∀ d ∈ s.dispatching, d.handler = .server) :
    Inv { s with
      record := ((s.record.accepted fd .created).addConnection fd
        s.record.clients.length).enqueueTask (.accept s.record.clients.length)
      reactor := reactor } := by
  have hgrows : s.record.Grows (((s.record.accepted fd .created).addConnection fd
      s.record.clients.length).enqueueTask (.accept s.record.clients.length)) :=
    ServerRecord.grows_concat rfl
  have hnone := AList.lookup_eq_none.mpr hnew
  exact {
    record := h.record.addConnection hfree .created
    streams := by
      refine h.streams.of_same hgrows fun d y hy => ?_
      rcases List.getElem?_concat_some hy with hy | ⟨-, rfl⟩
      · exact .inr ⟨y, hy, rfl, rfl, id⟩
      · exact .inl rfl
    running := hrunning
    server := by
      intro n
      rw [hhandlers]
      by_cases hn : n = fd
      · subst hn
        rw [AList.lookup_insert]
        exact iff_of_false (by simp) hsocket
      · rw [AList.lookup_insert_ne hn]
        exact h.server n
    registered := by
      intro n d
      have hlookup : ((s.record.accepted fd .created).addConnection fd
          s.record.clients.length).sessions.lookup n =
            if n = fd then some s.record.clients.length else s.record.sessions.lookup n :=
        AList.lookup_insert_eq_ite ..
      rw [hhandlers]
      by_cases hn : n = fd
      · subst hn
        have hleft : (d, n) ∉ s.leftBehind := by
          intro hd
          rw [(h.registered n d).mpr (.inr hd)] at hnone
          cases hnone
        simp [ServerRecord.enqueueTask, hlookup, hleft]
      · rw [AList.lookup_insert_ne hn]
        simpa [ServerRecord.enqueueTask, hlookup, hn] using h.registered n d
    left := by
      intro p hp
      obtain ⟨y, hy, hyfd, hclosed⟩ := h.left p hp
      obtain ⟨z, hz, hzfd, hzclosed⟩ := hgrows p.1 y hy
      exact ⟨z, hz, hzfd.trans hyfd, hzclosed hclosed⟩
    dispatching := by
      intro d hd c hc
      rw [hserver d hd] at hc
      cases hc
    sending := fun y hy => (h.sending y hy).grows hgrows }

theorem handleAccept (h : s.Inv) {clientSocket : Option Fd} {configured : Bool}
    {kevent : Option Int} (hserver : ∀ d ∈ s.dispatching, d.handler = .server)
    (hs : s.handleAccept clientSocket configured kevent = some s') :
    s'.Inv ∧ s'.dispatching = s.dispatching := by
  unfold ServerLife.handleAccept at hs
  split at hs
  · cases hs
    exact ⟨h, rfl⟩
  · rename_i fd
    split at hs
    · cases hs
    · rename_i hfd
      obtain ⟨hsocket, hfree⟩ := not_or.mp hfd
      rw [not_not] at hfree
      simp only at hs
      split at hs
      · cases hs
        exact ⟨h.refuse hfree, rfl⟩
      · have hcases := s.reactor.registerHandler_cases fd (getEvents false)
          (.connection s.record.clients.length) kevent
        split at hs
        · rename_i reactor hr
          rw [hr] at hcases
          cases hs
          obtain ⟨hrunning, ⟨-, hhandlers⟩ | ⟨hfalse, -⟩⟩ := hcases
          · exact ⟨(h.refuse hfree).of_reactor hrunning hhandlers, rfl⟩
          · cases hfalse
        · rename_i reactor hr
          rw [hr] at hcases
          cases hs
          obtain ⟨hrunning, ⟨htrue, -⟩ | ⟨-, hnew, hhandlers⟩⟩ := hcases
          · cases htrue
          · exact ⟨h.accept hfree hsocket hnew (hrunning.trans h.running) hhandlers hserver, rfl⟩

theorem handleReceive (h : s.Inv) {k : ServerKind} {fd : Fd} {r : RecvReturn}
    {kevent : Option Int} {next : List Stage}
    (hs : s.handleReceive k fd r kevent = some (s', next)) : s'.Inv := by
  cases r with
  | bytes data =>
    simp only [ServerLife.handleReceive] at hs
    split at hs
    · cases hs
    · obtain ⟨record, hreceive, hs⟩ := Option.map_eq_some_iff.mp hs
      cases hs
      obtain ⟨hrecord, c, -, rfl⟩ := h.record.receive hreceive
      have hgrows : s.record.Grows { s.record with
          clients := s.record.clients.modify c (ServerClient.receive data)
          tasks := s.record.tasks ++ [.receive c data] } :=
        ServerRecord.grows_modify rfl (fun _ => rfl) fun _ => id
      refine h.of_record hrecord (h.streams.of_same hgrows fun d y hy => .inr ?_) rfl hgrows
      rcases ServerRecord.client_modify hy with ⟨rfl, z, hz, rfl⟩ | ⟨-, hz⟩
      · exact ⟨z, hz, rfl, rfl, id⟩
      · exact ⟨y, hz, rfl, rfl, id⟩
  | disconnect =>
    cases hs
    exact h
  | error errno =>
    simp only [ServerLife.handleReceive] at hs
    split at hs
    · cases hs
      exact h
    · cases hs
      exact h.handleConnectionClose fd _ kevent

theorem sendFront (h : s.Inv) {c : Nat} {x : ServerClient (List UInt8) ConnectionHandler}
    (hx : s.record.clients[c]? = some x)
    (honly : ∀ e, s.record.sessions.lookup x.fd = some e → e = c) {taken : List UInt8}
    {sendQueue : List Message}
    (hbytes : taken ++ bytesOf sendQueue = bytesOf x.handler.sendQueue) :
    ((s.transmit x.fd taken).setQueue c sendQueue).Inv := by
  unfold transmit
  rw [h.record.owner]
  cases howner : s.record.sessions.lookup x.fd with
  | none =>
    refine h.setHandler c _ fun y hy => ?_
    rw [hx] at hy
    cases hy
    refine ⟨h.streams.sent c x hx, fun hopen => ?_, fun m hm => h.streams.number hx hm⟩
    rw [(h.record.recorded_open hx hopen).1] at howner
    cases howner
  | some d =>
    obtain rfl := honly d howner
    obtain ⟨z, hz, -, hopen⟩ := h.record.session x.fd d howner
    rw [hx] at hz
    cases hz
    simp only [setQueue, ServerRecord.setHandler_setHandler]
    refine h.setHandler d _ fun y hy => ?_
    rw [hx] at hy
    cases hy
    have hwaiting := h.streams.waiting d x hx hopen
    rw [← hbytes, ← List.append_assoc] at hwaiting
    exact ⟨⟨_, hwaiting⟩, fun _ => hwaiting, fun m hm => h.streams.number hx hm⟩

theorem processSendQueue (h : s.Inv) {k : ServerKind} {c : Nat} {fd : Fd} {answer : Answer}
    {next : List Stage} (hnumber : s.record.number c = some fd)
    (honly : ∀ e, s.record.sessions.lookup fd = some e → e = c)
    (hs : s.processSendQueue k c answer = some (s', next)) : s'.Inv := by
  obtain ⟨x, hx, rfl⟩ := Option.map_eq_some_iff.mp hnumber
  simp only [ServerLife.processSendQueue, hx] at hs
  split at hs
  · rename_i hqueue
    split at hs
    · cases hs
      refine h.setHandler c _ fun y hy => ?_
      exact ⟨h.streams.sent c y hy, h.streams.waiting c y hy, fun m hm => h.streams.number hy hm⟩
    · cases hs
      exact h
  · rename_i m rest n hqueue
    split at hs
    · cases hs
      exact h
    · split at hs
      · cases hs
        exact h.sendFront hx honly (by rw [hqueue, bytesOf_cons])
      · split at hs
        · cases hs
          refine h.sendFront hx honly ?_
          rw [hqueue, bytesOf_cons, bytesOf_cons, ← List.append_assoc, List.take_append_drop]
        · cases hs
  · cases hs
    exact h
  · cases hs
    exact h
  · cases hs

theorem handlerStep (h : s.Inv) {k : ServerKind} {handler : Handler} {fd : Fd} {stage : Stage}
    {stages : List Stage} {answer : Answer} {next : List Stage}
    (hd : s.dispatching = some ⟨handler, fd, stages⟩)
    (hs : s.handlerStep k handler fd stage answer = some (s', next)) : s'.Inv := by
  have hknown := h.dispatching _ hd
  unfold ServerLife.handlerStep at hs
  split at hs
  · obtain ⟨t, haccept, ht⟩ := Option.map_eq_some_iff.mp hs
    cases ht
    refine (h.handleAccept (fun d hd' => ?_) haccept).1
    rw [hd] at hd'
    cases hd'
    rfl
  · cases hs
    exact h
  · cases hs
    exact h
  · cases hs
    exact h
  · cases hs
    exact h
  · exact h.handleReceive hs
  · obtain ⟨hnumber, honly⟩ := hknown _ rfl
    exact h.processSendQueue hnumber honly hs
  · obtain ⟨events, -, ht⟩ := Option.map_eq_some_iff.mp hs
    cases ht
    exact h
  · obtain ⟨t, hmodify, ht⟩ := Option.map_eq_some_iff.mp hs
    cases ht
    exact (h.modifyHandler hmodify).1
  · cases hs
    exact h.handleConnectionClose fd _ _
  · cases hs
    exact h.handleConnectionClose fd _ _
  · cases hs

theorem dispatching_handleConnectionClose (s : ServerLife) (fd : Fd) (error : Option Reason)
    (kevent : Option Int) :
    (s.handleConnectionClose fd error kevent).dispatching = s.dispatching := by
  unfold ServerLife.handleConnectionClose
  split <;> rfl

theorem dispatching_handleReceive {k : ServerKind} {fd : Fd} {r : RecvReturn}
    {kevent : Option Int} {next : List Stage}
    (hs : s.handleReceive k fd r kevent = some (s', next)) : s'.dispatching = s.dispatching := by
  cases r with
  | bytes data =>
    simp only [ServerLife.handleReceive] at hs
    split at hs
    · cases hs
    · obtain ⟨record, -, ht⟩ := Option.map_eq_some_iff.mp hs
      cases ht
      rfl
  | disconnect =>
    cases hs
    rfl
  | error errno =>
    simp only [ServerLife.handleReceive] at hs
    split at hs <;> cases hs
    · rfl
    · exact dispatching_handleConnectionClose s fd _ kevent

theorem dispatching_processSendQueue {k : ServerKind} {c : Nat} {answer : Answer}
    {next : List Stage} (hs : s.processSendQueue k c answer = some (s', next)) :
    s'.dispatching = s.dispatching := by
  have hsend : ∀ (fd : Fd) (bytes : List UInt8) (sendQueue : List Message),
      ((s.transmit fd bytes).setQueue c sendQueue).dispatching = s.dispatching := by
    intro fd bytes sendQueue
    unfold transmit setQueue
    split <;> rfl
  unfold ServerLife.processSendQueue at hs
  split at hs
  · cases hs
  · split at hs
    · split at hs <;> cases hs <;> rfl
    · split at hs
      · cases hs
        rfl
      · split at hs
        · cases hs
          exact hsend ..
        · split at hs
          · cases hs
            exact hsend ..
          · cases hs
    · cases hs
      rfl
    · cases hs
      rfl
    · cases hs

theorem dispatching_handlerStep (h : s.Inv) {k : ServerKind} {handler : Handler} {fd : Fd}
    {stage : Stage} {stages : List Stage} {answer : Answer} {next : List Stage}
    (hd : s.dispatching = some ⟨handler, fd, stages⟩)
    (hs : s.handlerStep k handler fd stage answer = some (s', next)) :
    s'.dispatching = s.dispatching := by
  unfold ServerLife.handlerStep at hs
  split at hs
  · obtain ⟨t, haccept, ht⟩ := Option.map_eq_some_iff.mp hs
    cases ht
    refine (h.handleAccept (fun d hd' => ?_) haccept).2
    rw [hd] at hd'
    cases hd'
    rfl
  · cases hs
    rfl
  · cases hs
    rfl
  · cases hs
    rfl
  · cases hs
    rfl
  · exact dispatching_handleReceive hs
  · exact dispatching_processSendQueue hs
  · obtain ⟨events, -, ht⟩ := Option.map_eq_some_iff.mp hs
    cases ht
    rfl
  · obtain ⟨t, hmodify, ht⟩ := Option.map_eq_some_iff.mp hs
    cases ht
    exact (h.modifyHandler hmodify).2.1
  · cases hs
    exact dispatching_handleConnectionClose s fd _ _
  · cases hs
    exact dispatching_handleConnectionClose s fd _ _
  · cases hs

theorem sessionSend (h : s.Inv) {session : Nat} {buffer : List UInt8}
    (hs : s.sessionSend session buffer = some s') : s'.Inv := by
  obtain ⟨x, hx, rfl⟩ := Option.map_eq_some_iff.mp hs
  split
  · exact h
  · refine { h with sending := fun y hy => ?_ }
    rcases List.mem_append.mp hy with hy | hy
    · exact h.sending y hy
    · obtain rfl := List.mem_singleton.mp hy
      simp [Sending.Known, ServerRecord.number, hx]

theorem sendStep (h : s.Inv) {sending : Sending} {kevent : Option Int} {next : List Sending}
    (hknown : sending.Known s.record) (hs : s.sendStep kevent sending = some (s', next)) :
    s'.Inv ∧ s'.sending = s.sending ∧ ∀ x ∈ next, x.Known s'.record := by
  cases sending with
  | found fd message =>
    cases hs
    refine ⟨h, rfl, fun x hx => ?_⟩
    obtain ⟨c, hc, rfl⟩ := Option.map_eq_some_iff.mp (Option.mem_toList.mp hx)
    rw [h.record.maps] at hc
    exact ⟨fd, hknown, h.number_of_session hc⟩
  | queueSend c message =>
    obtain ⟨x, hx, ht⟩ := Option.map_eq_some_iff.mp hs
    cases ht
    obtain ⟨fd, hsession, hc⟩ := hknown
    refine ⟨h.setHandler c _ fun y hy => ?_, rfl, fun z hz => ?_⟩
    · have hfd : y.fd = fd := by simpa [ServerRecord.number, hy] using hc
      refine ⟨?_, fun hopen => ?_, fun m hm => ?_⟩
      · rw [bytesOf_append]
        exact (h.streams.sent c y hy).trans (List.prefix_append _ _)
      · rw [bytesOf_append, bytesOf_append, ← List.append_assoc, h.streams.waiting c y hy hopen]
      · rcases List.mem_append.mp hm with hm | hm
        · exact h.streams.number hy hm
        · rw [List.mem_singleton.mp hm, hsession, hfd]
    · split at hz
      · cases hz
      · rw [List.mem_singleton.mp hz]
        trivial
  | events c =>
    obtain ⟨events, -, ht⟩ := Option.map_eq_some_iff.mp hs
    cases ht
    refine ⟨h, rfl, fun x hx => ?_⟩
    rw [List.mem_singleton.mp hx]
    trivial
  | modify c events =>
    obtain ⟨t, hmodify, ht⟩ := Option.map_eq_some_iff.mp hs
    cases ht
    obtain ⟨ht, -, hsending⟩ := h.modifyHandler hmodify
    exact ⟨ht, hsending, fun x hx => by cases hx⟩

theorem dispatch (h : s.Inv) {fd : Fd} {handler : Handler} (stages : List Stage)
    (hlookup : s.reactor.handlers.lookup fd = some handler) :
    Inv { s with dispatching := some ⟨handler, fd, stages⟩ } := by
  refine { h with dispatching := ?_ }
  rintro d ⟨⟩ c rfl
  refine ⟨?_, fun e he => ?_⟩
  · rcases (h.registered fd c).mp hlookup with hc | hc
    · exact h.number_of_session hc
    · obtain ⟨x, hx, hfd, -⟩ := h.left _ hc
      simp [ServerRecord.number, hx, hfd]
  · rw [(h.registered fd e).mpr (.inl he)] at hlookup
    cases hlookup
    rfl

theorem step (h : s.Inv) {k : ServerKind} {a : LifeAct} (hs : s.step k a = some s') : s'.Inv := by
  cases a with
  | dispatchEvent fd filter flags =>
    simp only [ServerLife.step] at hs
    split at hs
    · cases hs
    · split at hs
      · cases hs
        exact h
      · cases hs
        exact h.dispatch _ ‹_›
  | handler answer =>
    simp only [ServerLife.step] at hs
    split at hs
    · cases hs
    · split at hs
      · cases hs
        exact { h with dispatching := nofun }
      · cases hs
    · rename_i handler fd stage stages hd
      obtain ⟨⟨t, next⟩, hstep, ht⟩ := Option.map_eq_some_iff.mp hs
      cases ht
      have ht := h.handlerStep hd hstep
      have hkept := h.dispatching_handlerStep hd hstep
      refine { ht with dispatching := ?_ }
      rintro d ⟨⟩ c rfl
      exact ht.dispatching _ (hkept.trans hd) c rfl
  | sessionSend session buffer => exact h.sessionSend hs
  | sending i kevent =>
    obtain ⟨sending, hi, hs⟩ := Option.bind_eq_some_iff.mp hs
    obtain ⟨⟨t, next⟩, hstep, ht⟩ := Option.map_eq_some_iff.mp hs
    cases ht
    obtain ⟨ht, hkept, hnext⟩ := h.sendStep (h.sending _ (List.mem_of_getElem? hi)) hstep
    refine { ht with sending := fun y hy => ?_ }
    rcases List.mem_append.mp hy with hy | hy
    · exact ht.sending y (hkept ▸ List.mem_of_mem_eraseIdx hy)
    · exact hnext y hy

end Inv

/-- After every run each session has been told its life with the bytes that `recv` returned for
it, up to its `OnClose` just when it is closed, each client has been given a front part of what
sessions of its number have sent, and the reactor has the handlers of the open clients, and of
closed ones just those that it failed to remove. -/
theorem kqueue_lives (k : ServerKind) (socket : Fd) {as : List LifeAct} {t : ServerLife}
    (hrun : (machine k).run (started socket) as = some t) :
    t.record.Told ∧ Streams t.record ∧
      ∀ fd c, t.reactor.handlers.lookup fd = some (.connection c) ↔
        t.record.sessions.lookup fd = some c ∨ (c, fd) ∈ t.leftBehind := by
  have h : t.Inv := (machine k).run_invariant (fun _ _ _ hs hstep => hs.step hstep)
    (started_inv socket) hrun
  exact ⟨h.record.told, h.streams, h.registered⟩

/-- A client sends a byte and is sent two, of which the kernel takes one; it closes, and the
reactor fails to remove it, so that the next client with its number is turned away. -/
def failedRemoval : List LifeAct :=
  [.dispatchEvent 3 .read 0, .handler (.accept (some 5) true none), .handler .nothing,
    .sessionSend 0 [7, 8], .sending 0 none, .sending 0 none, .sending 0 none, .sending 0 none,
    .dispatchEvent 5 .write 0, .handler (.send (.bytes 1)), .handler .nothing,
    .dispatchEvent 5 .read EV_EOF, .handler .nothing, .handler (.recv (.bytes [1]) none),
    .handler (.recv .disconnect none), .handler (.kevent (some 4)), .handler .nothing,
    .dispatchEvent 3 .read 0, .handler (.accept (some 5) true none), .handler .nothing]

theorem kqueue_lives_failedRemoval :
    ∃ t, (machine .tcp).run (started 3) failedRemoval = some t ∧ t.record.Told ∧
      t.record.callbacks 0 = serverLife [[1]] none ∧ t.record.callbacks 1 = [] ∧
      t.leftBehind = [(0, 5)] := by
  have hrun : (machine .tcp).run (started 3) failedRemoval = some _ := rfl
  exact ⟨_, hrun, (kqueue_lives .tcp 3 hrun).1, by decide, by decide, by decide⟩

end ServerLife

end Lmnet.Darwin
