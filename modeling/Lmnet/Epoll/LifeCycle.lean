import Lmnet.Epoll.ServerLife
import Lmnet.Lib.Lists

set_option autoImplicit false

namespace Lmnet.Epoll

namespace ServerLife

/-- What has been queued for a client: while it is open its `OnAccept` and its data, and
the whole of its life once it is closed. One that could not be registered has none. -/
def Recorded (s : ServerLife) (c : Nat) (cl : Client) : Prop :=
  (cl.isOpen = true ∧ s.sessions.lookup cl.fd = some c ∧
      s.callbacks c = .onAccept :: cl.recvd.map .onReceive) ∨
    (cl.isOpen = false ∧ ((cl.recvd = [] ∧ s.callbacks c = []) ∨
      ∃ error, s.callbacks c = lifeOf cl.recvd error))

structure Inv (s : ServerLife) : Prop where
  recorded : ∀ c cl, s.clients[c]? = some cl → s.Recorded c cl
  session : ∀ fd c, s.sessions.lookup fd = some c →
    ∃ cl, s.clients[c]? = some cl ∧ cl.fd = fd ∧ cl.isOpen = true
  maps : ∀ fd, s.connectionHandlers.lookup fd = s.sessions.lookup fd
  running : s.reactor.running = true
  registered : ∀ fd, s.reactor.handlers.lookup fd =
    if fd = s.socket then some .server else (s.sessions.lookup fd).map .connection
  interest : ∀ fd, fd ∈ s.reactor.interest ↔ fd ∈ s.reactor.handlers
  listening : s.sessions.lookup s.socket = none
  fresh : ∀ task ∈ s.tasks, task.session < s.clients.length
  hit : ∀ o ∈ s.closes, ∃ c cl, o = some c ∧ s.clients[c]? = some cl ∧ cl.isOpen = false
  once : s.closes.Nodup

theorem callbacks_append {s s' : ServerLife} {task : Task} (h : s'.tasks = s.tasks ++ [task])
    (c : Nat) : s'.callbacks c =
      s.callbacks c ++ (if task.session = c then task.callbacks else []) := by
  simp only [callbacks, h, List.filter_append, List.flatMap_append]
  split <;> simp [*]

theorem callbacks_other {s s' : ServerLife} (task : Task) {c : Nat} (hne : task.session ≠ c)
    (h : s'.tasks = s.tasks ++ [task]) : s'.callbacks c = s.callbacks c := by
  rw [callbacks_append h, if_neg hne, List.append_nil]

theorem callbacks_eq_nil {s : ServerLife} {c : Nat} (h : ∀ task ∈ s.tasks, task.session < c) :
    s.callbacks c = [] := by
  have hnone : s.tasks.filter (fun task => task.session = c) = [] := by
    rw [List.filter_eq_nil_iff]
    intro task htask
    simpa using Nat.ne_of_lt (h task htask)
  rw [callbacks, hnone, List.flatMap_nil]

theorem started_inv (socket : Fd) : (started socket).Inv where
  recorded := by simp [started]
  session := by simp [started]
  maps := by simp [started]
  running := rfl
  registered fd := by
    by_cases hfd : fd = socket
    · subst hfd
      simp only [started, if_true]
      exact AList.lookup_insert ∅
    · simp only [started, hfd, if_false]
      exact AList.lookup_insert_ne hfd
  interest fd := by
    simp only [started, AList.mem_insert]
    simp
  listening := by simp [started]
  fresh := by simp [started]
  hit := by simp [started]
  once := by simp [started]

theorem Inv.ne_socket {s : ServerLife} (h : s.Inv) {fd : Fd} {c : Nat}
    (hsession : s.sessions.lookup fd = some c) : fd ≠ s.socket := by
  rintro rfl
  rw [h.listening] at hsession
  cases hsession

theorem Inv.recorded_open {s : ServerLife} (h : s.Inv) {c : Nat} {cl : Client}
    (hcl : s.clients[c]? = some cl) (hopen : cl.isOpen = true) :
    s.sessions.lookup cl.fd = some c ∧
      s.callbacks c = .onAccept :: cl.recvd.map .onReceive := by
  rcases h.recorded c cl hcl with ⟨-, hrest⟩ | ⟨hclosed, -⟩
  · exact hrest
  · rw [hopen] at hclosed
    cases hclosed

theorem Inv.fresh_append {s : ServerLife} (h : s.Inv) {n : Nat} (hn : s.clients.length ≤ n)
    {task : Task} (htask : task.session < n) : ∀ t ∈ s.tasks ++ [task], t.session < n := by
  intro t ht
  rcases List.mem_append.mp ht with ht | ht
  · exact Nat.lt_of_lt_of_le (h.fresh t ht) hn
  · rw [List.mem_singleton.mp ht]
    exact htask

theorem Inv.once_append {s : ServerLife} (h : s.Inv) {c : Nat}
    (hopen : ∀ cl, s.clients[c]? = some cl → cl.isOpen = true) :
    (s.closes ++ [some c]).Nodup := by
  refine List.nodup_append'.mpr ⟨h.once, List.nodup_singleton _, fun o ho hc => ?_⟩
  obtain rfl := List.mem_singleton.mp hc
  obtain ⟨d, cl, heq, hcl, hclosed⟩ := h.hit _ ho
  cases heq
  rw [hopen cl hcl] at hclosed
  cases hclosed

/-- The open client with a number is the one that `sessions_` has. -/
theorem Inv.owner {s : ServerLife} (h : s.Inv) (fd : Fd) : s.owner fd = s.sessions.lookup fd := by
  cases howner : s.owner fd with
  | none =>
    cases hsession : s.sessions.lookup fd with
    | none => rfl
    | some c =>
      obtain ⟨cl, hcl, hfd, hopen⟩ := h.session fd c hsession
      have hnone := List.findIdx?_eq_none_iff.mp howner cl (List.mem_of_getElem? hcl)
      simp [hfd, hopen] at hnone
  | some c =>
    obtain ⟨hlt, hp, -⟩ := List.findIdx?_eq_some_iff_getElem.mp howner
    obtain ⟨hopen, hfd⟩ := Bool.and_eq_true_iff.mp hp
    have hsession := (h.recorded_open (List.getElem?_eq_getElem hlt) hopen).1
    rw [← hsession, eq_of_beq hfd]

theorem client_modify {clients : List Client} {c d : Nat} {f : Client → Client} {cl : Client}
    (h : (clients.modify c f)[d]? = some cl) :
    (c = d ∧ ∃ cl', clients[d]? = some cl' ∧ cl = f cl') ∨ (c ≠ d ∧ clients[d]? = some cl) := by
  rw [List.getElem?_modify] at h
  obtain ⟨cl', hcl', rfl⟩ := Option.map_eq_some_iff.mp h
  by_cases hcd : c = d
  · exact .inl ⟨hcd, cl', hcl', by simp [hcd]⟩
  · exact .inr ⟨hcd, by simpa [hcd] using hcl'⟩

theorem Inv.session_modify {s : ServerLife} (h : s.Inv) (c : Nat) {f : Client → Client}
    (hf : ∀ cl, (f cl).fd = cl.fd ∧ (f cl).isOpen = cl.isOpen) (fd : Fd) (d : Nat)
    (hd : s.sessions.lookup fd = some d) :
    ∃ cl, (s.clients.modify c f)[d]? = some cl ∧ cl.fd = fd ∧ cl.isOpen = true := by
  obtain ⟨cl, hcl, hfd, hopen⟩ := h.session fd d hd
  refine ⟨if c = d then f cl else cl, by rw [List.getElem?_modify, hcl]; rfl, ?_⟩
  split
  · rw [(hf cl).1, (hf cl).2]
    exact ⟨hfd, hopen⟩
  · exact ⟨hfd, hopen⟩

theorem Inv.hit_modify {s : ServerLife} (h : s.Inv) (c : Nat) {f : Client → Client}
    (hf : ∀ cl, cl.isOpen = false → (f cl).isOpen = false) (o : Option Nat)
    (ho : o ∈ s.closes) :
    ∃ d cl, o = some d ∧ (s.clients.modify c f)[d]? = some cl ∧ cl.isOpen = false := by
  obtain ⟨d, cl, rfl, hcl, hclosed⟩ := h.hit o ho
  refine ⟨d, if c = d then f cl else cl, rfl, by rw [List.getElem?_modify, hcl]; rfl, ?_⟩
  split
  · exact hf cl hclosed
  · exact hclosed

theorem Inv.setClient {s : ServerLife} (h : s.Inv) (c : Nat) {f : Client → Client}
    (hf : ∀ cl, (f cl).fd = cl.fd ∧ (f cl).isOpen = cl.isOpen)
    (hrecvd : ∀ cl, (f cl).recvd = cl.recvd) : (s.setClient c f).Inv := by
  refine { h with recorded := ?_, session := h.session_modify c hf, fresh := ?_, hit := ?_ }
  · intro d cl hcl
    rcases client_modify hcl with ⟨rfl, cl', hcl', rfl⟩ | ⟨-, hcl'⟩
    · rw [Recorded, (hf cl').1, (hf cl').2, hrecvd]
      exact h.recorded c cl' hcl'
    · exact h.recorded d cl hcl'
  · intro task htask
    simpa [ServerLife.setClient] using h.fresh task htask
  · exact h.hit_modify c fun cl hclosed => by rw [(hf cl).2, hclosed]

theorem Inv.modifyHandler {s : ServerLife} (h : s.Inv) (fd : Fd) (events : Nat)
    (ctl : Option Int) : Inv { s with reactor := (s.reactor.modifyHandler fd events ctl).1 } := by
  unfold EventReactor.modifyHandler
  split
  · exact h
  · split
    · rename_i hmem
      cases ctl with
      | some e => exact h
      | none =>
        refine { h with interest := fun x => ?_ }
        simp only [AList.mem_insert, h.interest]
        constructor
        · rintro (rfl | hx)
          · exact hmem
          · exact hx
        · exact .inr
    · exact h

theorem Inv.receive {s : ServerLife} (h : s.Inv) {fd : Fd} {c : Nat}
    (hsession : s.sessions.lookup fd = some c) (data : List UInt8) :
    Inv { s with
      clients := s.clients.modify c (Client.receive data)
      tasks := s.tasks ++ [.receive c data] } := by
  have hf : ∀ cl : Client, (cl.receive data).fd = cl.fd ∧
      (cl.receive data).isOpen = cl.isOpen := fun _ => ⟨rfl, rfl⟩
  obtain ⟨cl, hcl, hfd, hopen⟩ := h.session fd c hsession
  refine { h with recorded := ?_, session := h.session_modify c hf, fresh := ?_, hit := ?_ }
  · intro d cl' hcl'
    rcases client_modify hcl' with ⟨rfl, old, hold, rfl⟩ | ⟨hne, hold⟩
    · rw [hcl] at hold
      cases hold
      obtain ⟨hlookup, hcallbacks⟩ := h.recorded_open hcl hopen
      rw [Recorded, callbacks_append (s := s) rfl, hcallbacks]
      exact .inl ⟨hopen, hlookup, by simp [Client.receive, Task.session, Task.callbacks]⟩
    · rw [Recorded, callbacks_other (s := s) (.receive c data) hne rfl]
      exact h.recorded d cl' hold
  · rw [List.length_modify]
    exact h.fresh_append (Nat.le_refl _) (List.getElem?_eq_some_iff.mp hcl).1
  · exact h.hit_modify c fun cl hclosed => hclosed

theorem Inv.receiveData {s s' : ServerLife} (h : s.Inv) {fd : Fd} {data : List UInt8}
    (hreceive : s.receiveData fd data = some s') : s'.Inv := by
  unfold ServerLife.receiveData at hreceive
  split at hreceive
  · cases hreceive
  · obtain ⟨c, howner, rfl⟩ := Option.map_eq_some_iff.mp hreceive
    rw [h.owner] at howner
    simp only [ServerLife.setClient, howner]
    exact h.receive howner data

theorem close_of_owner {s : ServerLife} (fd : Fd) {c : Nat} (h : s.owner fd = some c) :
    s.close fd = { s with
      clients := s.clients.modify c Client.close
      reactor := s.reactor.onClose fd
      closes := s.closes ++ [some c] } := by
  simp only [ServerLife.close, h]

theorem Inv.handleConnectionClose_eq {s : ServerLife} (h : s.Inv) {fd : Fd} {c : Nat}
    (hsession : s.sessions.lookup fd = some c) (error : Option Reason) :
    s.handleConnectionClose fd error = { s with
      clients := s.clients.modify c Client.close
      sessions := s.sessions.erase fd
      connectionHandlers := s.connectionHandlers.erase fd
      reactor := { s.reactor with
        handlers := s.reactor.handlers.erase fd
        interest := (s.reactor.interest.erase fd).erase fd }
      tasks := s.tasks ++ [.close c error]
      closes := s.closes ++ [some c] } := by
  have howner : s.owner fd = some c := by rw [h.owner, hsession]
  have hsocket := h.ne_socket hsession
  have hmem : fd ∈ s.reactor.handlers := by
    rw [← AList.lookup_isSome, h.registered, if_neg hsocket, hsession]
    rfl
  have hremove : (s.reactor.removeHandler fd none).1 =
      { s.reactor with
        handlers := s.reactor.handlers.erase fd, interest := s.reactor.interest.erase fd } := by
    simp [EventReactor.removeHandler, hmem, h.running]
  have hclose := close_of_owner (s := { s with
    sessions := s.sessions.erase fd
    connectionHandlers := s.connectionHandlers.erase fd
    reactor := { s.reactor with
      handlers := s.reactor.handlers.erase fd, interest := s.reactor.interest.erase fd } })
    fd howner
  simp only [ServerLife.handleConnectionClose, hsession, hremove, hclose]
  rfl

theorem Inv.handleConnectionClose {s : ServerLife} (h : s.Inv) (fd : Fd)
    (error : Option Reason) : (s.handleConnectionClose fd error).Inv := by
  cases hsession : s.sessions.lookup fd with
  | none =>
    have hsame : s.handleConnectionClose fd error = s := by
      simp only [ServerLife.handleConnectionClose, hsession]
    rw [hsame]
    exact h
  | some c =>
    rw [h.handleConnectionClose_eq hsession error]
    obtain ⟨cl, hcl, hfd, hopen⟩ := h.session fd c hsession
    have hsocket := h.ne_socket hsession
    -- another client's number is another one
    have hother : ∀ x : Fd, ∀ d : Nat, s.sessions.lookup x = some d → c ≠ d → x ≠ fd := by
      rintro x d hd hne rfl
      rw [hsession] at hd
      exact hne (Option.some.inj hd)
    exact {
      recorded := by
        intro d cl' hcl'
        rcases client_modify hcl' with ⟨rfl, old, hold, rfl⟩ | ⟨hne, hold⟩
        · rw [hcl] at hold
          cases hold
          refine .inr ⟨rfl, .inr ⟨error, ?_⟩⟩
          rw [callbacks_append (s := s) rfl, (h.recorded_open hcl hopen).2]
          simp [Task.session, Task.callbacks, lifeOf, Client.close]
        · rw [Recorded, callbacks_other (s := s) (.close c error) hne rfl]
          rcases h.recorded d cl' hold with ⟨hopen', hsession', hcallbacks⟩ | hclosed
          · refine .inl ⟨hopen', ?_, hcallbacks⟩
            exact (AList.lookup_erase_ne (hother _ d hsession' hne)).trans hsession'
          · exact .inr hclosed
      session := by
        intro x d hd
        obtain ⟨hne, hd⟩ := AList.lookup_of_lookup_erase hd
        obtain ⟨cl', hcl', hfd', hopen'⟩ := h.session x d hd
        have hcd : c ≠ d := by
          rintro rfl
          rw [hcl] at hcl'
          cases hcl'
          exact hne (hfd'.symm.trans hfd)
        exact ⟨cl', by simp [hcd, hcl'], hfd', hopen'⟩
      maps := by
        intro x
        rw [AList.lookup_erase_eq_ite, AList.lookup_erase_eq_ite, h.maps]
      running := h.running
      registered := by
        intro x
        by_cases hx : x = fd
        · subst hx
          simp [hsocket]
        · rw [AList.lookup_erase_ne hx, AList.lookup_erase_ne hx, h.registered]
      interest := by
        intro x
        simp only [AList.mem_erase, h.interest]
        tauto
      listening := (AList.lookup_erase_ne (Ne.symm hsocket)).trans h.listening
      fresh := by
        rw [List.length_modify]
        exact h.fresh_append (Nat.le_refl _) (List.getElem?_eq_some_iff.mp hcl).1
      hit := by
        intro o ho
        rcases List.mem_append.mp ho with ho | ho
        · exact h.hit_modify c (fun _ _ => rfl) o ho
        · obtain rfl := List.mem_singleton.mp ho
          exact ⟨c, cl.close, rfl, by simp [hcl], rfl⟩
      once := by
        refine h.once_append fun cl' hcl' => ?_
        rw [hcl] at hcl'
        cases hcl'
        exact hopen }

theorem Inv.accept {s : ServerLife} (h : s.Inv) {fd : Fd} (hfree : s.owner fd = none)
    (hsocket : fd ≠ s.socket) :
    Inv { s with
      clients := s.clients ++ [⟨fd, true, [], [], false⟩]
      reactor := { s.reactor with
        handlers := s.reactor.handlers.insert fd (.connection s.clients.length)
        interest := s.reactor.interest.insert fd (epollEvents (getEvents false)) }
      connectionHandlers := s.connectionHandlers.insert fd s.clients.length
      sessions := s.sessions.insert fd s.clients.length
      tasks := s.tasks ++ [.accept s.clients.length] } := by
  have hnone : s.sessions.lookup fd = none := by rw [← h.owner, hfree]
  have hother : ∀ x d, s.sessions.lookup x = some d → x ≠ fd := by
    rintro x d hd rfl
    rw [hnone] at hd
    cases hd
  exact {
    recorded := by
      intro d cl hcl
      rcases List.getElem?_concat_some hcl with hold | ⟨rfl, rfl⟩
      · have hne : (Task.accept s.clients.length).session ≠ d :=
          Nat.ne_of_gt (List.getElem?_eq_some_iff.mp hold).1
        rw [Recorded, callbacks_other (s := s) (.accept s.clients.length) hne rfl]
        rcases h.recorded d cl hold with ⟨hopen, hlookup, hcallbacks⟩ | hclosed
        · exact .inl ⟨hopen, (AList.lookup_insert_ne (hother _ d hlookup)).trans hlookup,
            hcallbacks⟩
        · exact .inr hclosed
      · rw [Recorded, callbacks_append (s := s) rfl, callbacks_eq_nil h.fresh]
        exact .inl ⟨rfl, AList.lookup_insert _, by simp [Task.session, Task.callbacks]⟩
    session := by
      intro x d hd
      rcases AList.lookup_insert_cases hd with ⟨rfl, rfl⟩ | ⟨-, hd⟩
      · exact ⟨_, List.getElem?_concat_length, rfl, rfl⟩
      · obtain ⟨cl, hcl, hfd, hopen⟩ := h.session x d hd
        exact ⟨cl, by rw [List.getElem?_append_left (List.getElem?_eq_some_iff.mp hcl).1, hcl],
          hfd, hopen⟩
    maps := by
      intro x
      rw [AList.lookup_insert_eq_ite, AList.lookup_insert_eq_ite, h.maps]
    running := h.running
    registered := by
      intro x
      by_cases hx : x = fd
      · subst hx
        rw [AList.lookup_insert, AList.lookup_insert, if_neg hsocket]
        rfl
      · rw [AList.lookup_insert_ne hx, AList.lookup_insert_ne hx, h.registered]
    interest := by
      intro x
      simp only [AList.mem_insert, h.interest]
    listening := (AList.lookup_insert_ne (Ne.symm hsocket)).trans h.listening
    fresh := by
      rw [List.length_append, List.length_singleton]
      exact h.fresh_append (Nat.le_succ _) (Nat.lt_succ_self _)
    hit := by
      intro o ho
      obtain ⟨d, cl, rfl, hcl, hclosed⟩ := h.hit o ho
      exact ⟨d, cl, rfl,
        by rw [List.getElem?_append_left (List.getElem?_eq_some_iff.mp hcl).1, hcl], hclosed⟩
    once := h.once }

theorem Inv.reject {s : ServerLife} (h : s.Inv) {fd : Fd} (hfree : s.owner fd = none)
    (hsocket : fd ≠ s.socket) :
    Inv (close { s with clients := s.clients ++ [⟨fd, true, [], [], false⟩] } fd) := by
  have hnone : s.sessions.lookup fd = none := by rw [← h.owner, hfree]
  have howner : ServerLife.owner { s with
      clients := s.clients ++ [⟨fd, true, [], [], false⟩] } fd = some s.clients.length := by
    have hold : s.clients.findIdx? (fun cl => cl.isOpen && cl.fd == fd) = none := hfree
    simp [ServerLife.owner, List.findIdx?_append, hold]
  have hclosed : (s.clients ++ [(⟨fd, true, [], [], false⟩ : Client)]).modify s.clients.length
      Client.close = s.clients ++ [⟨fd, false, [], [], false⟩] := List.modify_concat_length _
  have hnew : fd ∉ s.reactor.handlers := by
    rw [← AList.lookup_eq_none, h.registered, if_neg hsocket, hnone]
    rfl
  rw [close_of_owner fd howner]
  simp only [hclosed]
  have hleft : ∀ (d : Nat) (cl : Client), s.clients[d]? = some cl →
      (s.clients ++ [⟨fd, false, [], [], false⟩])[d]? = some cl := by
    intro d cl hcl
    rw [List.getElem?_append_left (List.getElem?_eq_some_iff.mp hcl).1, hcl]
  exact { h with
    recorded := by
      intro d cl hcl
      rcases List.getElem?_concat_some hcl with hold | ⟨rfl, rfl⟩
      · exact h.recorded d cl hold
      · exact .inr ⟨rfl, .inl ⟨rfl, callbacks_eq_nil h.fresh⟩⟩
    session := by
      intro x d hd
      obtain ⟨cl, hcl, hrest⟩ := h.session x d hd
      exact ⟨cl, hleft d cl hcl, hrest⟩
    interest := by
      intro x
      simp only [EventReactor.onClose, AList.mem_erase, h.interest]
      constructor
      · exact And.right
      · exact fun hx => ⟨fun he => hnew (he ▸ hx), hx⟩
    fresh := by
      intro task htask
      simpa using Nat.lt_succ_of_lt (h.fresh task htask)
    hit := by
      intro o ho
      rcases List.mem_append.mp ho with ho | ho
      · obtain ⟨d, cl, rfl, hcl, hshut⟩ := h.hit o ho
        exact ⟨d, cl, rfl, hleft d cl hcl, hshut⟩
      · obtain rfl := List.mem_singleton.mp ho
        exact ⟨_, _, rfl, List.getElem?_concat_length, rfl⟩
    once := h.once_append fun cl hcl => by simp at hcl }

theorem Inv.handleAccept {s s' : ServerLife} (h : s.Inv) {clientSocket : Option Fd}
    {ctl : Option Int} (haccept : s.handleAccept clientSocket ctl = some s') : s'.Inv := by
  cases clientSocket with
  | none =>
    cases haccept
    exact h
  | some fd =>
    simp only [ServerLife.handleAccept] at haccept
    split at haccept
    · cases haccept
    · rename_i hfree
      obtain ⟨hsocket, howner⟩ := not_or.mp hfree
      rw [not_not] at howner
      rcases hr : s.reactor.registerHandler fd (getEvents false)
        (.connection s.clients.length) ctl with ⟨r, _ | _⟩
      · simp only [hr] at haccept
        cases haccept
        exact h.reject howner hsocket
      · obtain ⟨-, rfl⟩ := EventReactor.registerHandler_eq_true hr
        have hnone : fd ∉ s.sessions := by rw [← AList.lookup_eq_none, ← h.owner, howner]
        simp only [hr, hnone, if_false] at haccept
        cases haccept
        exact h.accept howner hsocket

theorem Inv.handleReceive {s s' : ServerLife} (h : s.Inv) {fd : Fd} {rs : List RecvReturn}
    (hreceive : s.handleReceive fd rs = some s') : s'.Inv := by
  induction rs generalizing s with
  | nil => cases hreceive
  | cons r rs ih =>
    cases r with
    | bytes data =>
      obtain ⟨t, hdata, hrest⟩ := Option.bind_eq_some_iff.mp hreceive
      exact ih (h.receiveData hdata) hrest
    | disconnect =>
      cases rs with
      | nil =>
        cases hreceive
        exact h
      | cons => cases hreceive
    | error errno =>
      cases rs with
      | nil =>
        simp only [ServerLife.handleReceive] at hreceive
        split at hreceive
        · cases hreceive
          exact h
        · cases hreceive
          exact h.handleConnectionClose fd _
      | cons => cases hreceive

theorem Inv.disableWriteEvents {s : ServerLife} (h : s.Inv) (c : Nat) (cl : Client)
    (ctl : Option Int) : (s.disableWriteEvents c cl ctl).Inv := by
  unfold ServerLife.disableWriteEvents
  split
  · have hclient := h.setClient c (f := fun cl => { cl with writeEventsEnabled := false })
      (fun _ => ⟨rfl, rfl⟩) fun _ => rfl
    exact hclient.modifyHandler cl.fd (getEvents false) ctl
  · exact h

theorem Inv.enableWriteEvents {s : ServerLife} (h : s.Inv) (c : Nat) (cl : Client)
    (ctl : Option Int) : (s.enableWriteEvents c cl ctl).Inv := by
  unfold ServerLife.enableWriteEvents
  split
  · exact h
  · have hmodify := (h.setClient c (f := fun cl => { cl with writeEventsEnabled := true })
      (fun _ => ⟨rfl, rfl⟩) fun _ => rfl).modifyHandler cl.fd (getEvents true) ctl
    split
    · rename_i r hr
      have hfirst : (s.reactor.modifyHandler cl.fd (getEvents true) ctl).1 = r := by rw [hr]
      rw [← hfirst]
      exact hmodify
    · exact h.handleConnectionClose cl.fd _

theorem Inv.sessionSend {s s' : ServerLife} (h : s.Inv) {session : Nat} {buffer : List UInt8}
    {ctl : Option Int} (hsend : s.sessionSend session buffer ctl = some s') : s'.Inv := by
  unfold ServerLife.sessionSend at hsend
  split at hsend
  · cases hsend
  · split at hsend
    · cases hsend
      exact h
    · split at hsend
      · cases hsend
        exact h
      · rename_i c _
        cases hsend
        unfold queueSend
        split
        · exact h
        · refine Inv.enableWriteEvents ?_ c _ ctl
          exact h.setClient c (fun _ => ⟨rfl, rfl⟩) fun _ => rfl

theorem Inv.processSendQueue {s s' : ServerLife} (h : s.Inv) {c : Nat} {ctl : Option Int}
    {rs : List SendReturn} (hsend : s.processSendQueue c ctl rs = some s') : s'.Inv := by
  induction rs generalizing s with
  | nil =>
    simp only [ServerLife.processSendQueue] at hsend
    split at hsend
    · cases hsend
    · split at hsend
      · cases hsend
        exact h.disableWriteEvents c _ ctl
      · cases hsend
  | cons r rs ih =>
    simp only [ServerLife.processSendQueue] at hsend
    split at hsend
    · cases hsend
    · split at hsend
      · split at hsend
        · refine ih ?_ hsend
          exact h.setClient c (fun _ => ⟨rfl, rfl⟩) fun _ => rfl
        · split at hsend
          · refine ih ?_ hsend
            exact h.setClient c (fun _ => ⟨rfl, rfl⟩) fun _ => rfl
          · cases hsend
      · split at hsend
        · cases hsend
          exact h
        · cases hsend
      · split at hsend
        · cases hsend
          exact h.handleConnectionClose _ _
        · cases hsend
      · cases hsend

theorem Inv.handlerCall {s s' : ServerLife} (h : s.Inv) {handler : Handler} {fd : Fd}
    {call : HandlerCall} {answers : Answers}
    (hcall : s.handlerCall handler fd call answers = some s') : s'.Inv := by
  unfold ServerLife.handlerCall at hcall
  split at hcall
  · exact h.handleAccept hcall
  · cases hcall
    exact h
  · cases hcall
    exact h
  · cases hcall
    exact h
  · exact h.handleReceive hcall
  · exact h.processSendQueue hcall
  · cases hcall
    exact h.handleConnectionClose fd _
  · cases hcall
    exact h.handleConnectionClose fd _
  · cases hcall

theorem Inv.dispatching {s : ServerLife} (h : s.Inv) (d : Option Dispatch) :
    Inv { s with dispatching := d } :=
  { h with recorded := h.recorded }

theorem Inv.step {s s' : ServerLife} {a : LifeAct} (h : s.Inv) (hstep : s.step a = some s') :
    s'.Inv := by
  cases a with
  | dispatchEvent fd events =>
    simp only [ServerLife.step] at hstep
    split at hstep
    · cases hstep
    · split at hstep
      · cases hstep
        exact h
      · cases hstep
        exact h.dispatching _
  | handlerCall answers =>
    simp only [ServerLife.step] at hstep
    split at hstep
    · cases hstep
    · split at hstep
      · cases hstep
        exact h.dispatching _
      · cases hstep
    · obtain ⟨t, hcall, rfl⟩ := Option.map_eq_some_iff.mp hstep
      exact (h.handlerCall hcall).dispatching _
  | sessionSend session buffer ctl => exact h.sessionSend hstep

/-! ### What the invariant says -/

theorem Inv.tablesAgree {s : ServerLife} (h : s.Inv) : s.TablesAgree := by
  intro fd
  have hmem : fd ∈ s.sessions ↔ ∃ c, s.sessions.lookup fd = some c := by
    rw [← AList.lookup_isSome, Option.isSome_iff_exists]
  have hhandler : (∃ c, s.reactor.handlers.lookup fd = some (.connection c)) ↔
      ∃ c, s.sessions.lookup fd = some c := by
    by_cases hfd : fd = s.socket
    · subst hfd
      simp [h.registered, h.listening]
    · simp [h.registered, hfd]
  refine ⟨?_, ?_, ?_, ?_⟩
  · rw [hmem, ← h.maps, ← Option.isSome_iff_exists, AList.lookup_isSome]
  · rw [hmem]
    constructor
    · rintro ⟨c, hc⟩
      obtain ⟨cl, hcl, hfd, hopen⟩ := h.session fd c hc
      exact ⟨cl, List.mem_of_getElem? hcl, hfd, hopen⟩
    · rintro ⟨cl, hcl, rfl, hopen⟩
      obtain ⟨c, hc⟩ := List.mem_iff_getElem?.mp hcl
      exact ⟨c, (h.recorded_open hc hopen).1⟩
  · rw [hmem, hhandler]
  · rw [hmem, h.interest, ← AList.lookup_isSome, h.registered]
    by_cases hfd : fd = s.socket
    · subst hfd
      simp [h.listening]
    · simp [hfd, Option.isSome_iff_exists]

theorem receivedData_map (data : List (List UInt8)) :
    receivedData (data.map .onReceive) = data.flatten := by
  induction data with
  | nil => rfl
  | cons d data ih =>
    rw [List.flatten_cons, ← ih]
    rfl

theorem receivedData_lifeOf (data : List (List UInt8)) (error : Option Reason) :
    receivedData (lifeOf data error) = data.flatten := by
  have hend : receivedData ((error.map Callback.onError).toList ++ [.onClose]) = [] := by
    cases error <;> rfl
  have hsplit : receivedData (lifeOf data error) = receivedData (data.map .onReceive) ++
      receivedData ((error.map Callback.onError).toList ++ [.onClose]) := List.flatMap_append
  rw [hsplit, hend, List.append_nil, receivedData_map]

/-- The callbacks of a client are a front part of a life, with all its data. -/
theorem Recorded.callbacks {s : ServerLife} {c : Nat} {cl : Client} (h : s.Recorded c cl) :
    (∃ data error, s.callbacks c <+: lifeOf data error) ∧
      receivedData (s.callbacks c) = cl.recvd.flatten := by
  rcases h with ⟨-, -, hcallbacks⟩ | ⟨-, ⟨hrecvd, hcallbacks⟩ | ⟨error, hcallbacks⟩⟩
  · rw [hcallbacks]
    exact ⟨⟨cl.recvd, none, List.prefix_append _ _⟩, receivedData_map cl.recvd⟩
  · rw [hcallbacks, hrecvd]
    exact ⟨⟨[], none, List.nil_prefix⟩, rfl⟩
  · rw [hcallbacks]
    exact ⟨⟨cl.recvd, error, List.prefix_rfl⟩, receivedData_lifeOf cl.recvd error⟩

/-- After every sequence of dispatches the tables are in step with the open clients, each
session has been told a front part of its life with the bytes `recv` returned for it, and
no accepted number was closed twice. -/
theorem life_cycle (socket : Fd) {as : List LifeAct} {t : ServerLife}
    (h : machine.run (started socket) as = some t) :
    t.TablesAgree ∧
      (∀ c, ∃ data error, t.callbacks c <+: lifeOf data error) ∧
      (∀ c cl, t.clients[c]? = some cl → receivedData (t.callbacks c) = cl.recvd.flatten) ∧
      (∀ o ∈ t.closes, o ≠ none) ∧ t.closes.Nodup := by
  have hinv : t.Inv := machine.run_invariant (I := Inv) (fun _ _ _ hs hstep => hs.step hstep)
    (started_inv socket) h
  refine ⟨hinv.tablesAgree, fun c => ?_, fun c cl hcl => (hinv.recorded c cl hcl).callbacks.2,
    fun o ho hnone => ?_, hinv.once⟩
  · cases hcl : t.clients[c]? with
    | some cl => exact (hinv.recorded c cl hcl).callbacks.1
    | none =>
      have hlen := List.getElem?_eq_none_iff.mp hcl
      rw [callbacks_eq_nil fun task htask => Nat.lt_of_lt_of_le (hinv.fresh task htask) hlen]
      exact ⟨[], none, List.nil_prefix⟩
  · obtain ⟨c, cl, heq, -⟩ := hinv.hit o ho
    rw [hnone] at heq
    cases heq

def resetAndReuse : List LifeAct :=
  [.dispatchEvent 3 EPOLLIN, .handlerCall (.accept (some 5) none),
    .dispatchEvent 5 (EPOLLIN ||| EPOLLERR ||| EPOLLHUP),
    .handlerCall (.recv [.bytes [1, 2], .error 104]), .handlerCall .nothing,
    .handlerCall .nothing, .dispatchEvent 3 EPOLLIN, .handlerCall (.accept (some 5) none)]

theorem life_cycle_resetAndReuse :
    ∃ t, machine.run (started 3) resetAndReuse = some t ∧ t.TablesAgree ∧
      t.callbacks 0 = lifeOf [[1, 2]] (some (.errno 104)) := by
  have hrun : machine.run (started 3) resetAndReuse = some _ := rfl
  exact ⟨_, hrun, (life_cycle 3 hrun).1, by decide⟩

end ServerLife

end Lmnet.Epoll
