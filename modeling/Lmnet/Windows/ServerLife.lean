import Lmnet.Windows.TcpServer

set_option autoImplicit false

namespace Lmnet.Windows

/-- `OnAccept OnReceive*`. -/
def Begun (told : List ServerCall) : Prop :=
  ∃ buffers : List (Nat × List UInt8), told = .onAccept :: buffers.map fun b => .onReceive b.1 b.2

def Ended (told : List ServerCall) : Prop :=
  ∃ begun, Begun begun ∧
    (told = begun ++ [.onClose] ∨ ∃ reason, told = begun ++ [.onError reason, .onClose])

theorem begun_onAccept : Begun [.onAccept] := ⟨[], rfl⟩

theorem Begun.onReceive {told : List ServerCall} (h : Begun told) (origin : Nat)
    (buffer : List UInt8) : Begun (told ++ [.onReceive origin buffer]) := by
  obtain ⟨buffers, rfl⟩ := h
  exact ⟨buffers ++ [(origin, buffer)], by simp⟩

theorem Begun.ne_nil {told : List ServerCall} (h : Begun told) : told ≠ [] := by
  obtain ⟨buffers, rfl⟩ := h
  exact List.cons_ne_nil _ _

def ServerTask.accepting : ServerTask → Option Operation
  | .accept o => some o
  | .receive .. | .close _ => none

def ServerTask.operation : ServerTask → Option Operation
  | .accept _ => none
  | .receive o _ _ | .close o => some o

namespace TcpServer

def waiting (s : TcpServer) : List Operation := s.tasks.filterMap ServerTask.accepting

/-- The reads, up to the end of the task that each ends in. -/
def receiving (s : TcpServer) : List Operation :=
  s.reads ++ s.tasks.filterMap ServerTask.operation

/-- Where a connection stands. That of a server that was stopped is closed without a word. -/
inductive Standing (s : TcpServer) (c : Nat) (x : Connection) : Prop where
  | waiting (hopen : x.isOpen = true) (htold : x.told = []) (hwaiting : ⟨c, x.socket⟩ ∈ s.waiting)
  | serving (hopen : x.isOpen = true) (hsession : s.sessions.lookup x.socket = some c)
      (htold : Begun x.told)
  | closed (hclosed : x.isOpen = false) (hcloses : some c ∈ s.closes)
      (htold : x.told = [] ∨ Begun x.told ∨ Ended x.told)

/-- No number has two open sockets. -/
def Distinct (s : TcpServer) : Prop :=
  ∀ (c d : Nat) (x y : Connection), s.connections[c]? = some x → s.connections[d]? = some y →
    x.isOpen = true → y.isOpen = true → x.socket = y.socket → c = d

structure Inv (s : TcpServer) : Prop where
  standing : ∀ c x, s.connections[c]? = some x → s.Standing c x
  session : ∀ n c, s.sessions.lookup n = some c →
    ∃ x, s.connections[c]? = some x ∧ x.socket = n ∧ x.isOpen = true ∧ Begun x.told
  queued : ∀ o ∈ s.waiting, ∃ x, s.connections[o.connection]? = some x ∧ x.socket = o.socket ∧
    x.isOpen = true ∧ x.told = []
  queuedOnce : s.waiting.Nodup
  distinct : s.Distinct
  accepts : s.accepts.Nodup
  acceptsFree : ∀ (c : Nat) (x : Connection), s.connections[c]? = some x → x.isOpen = true →
    x.socket ∉ s.accepts
  stopped : s.isRunning = false → s.sessions = ∅
  hit : ∀ o ∈ s.closes, ∃ (c : Nat) (x : Connection), o = some c ∧
    s.connections[c]? = some x ∧ x.isOpen = false
  once : s.closes.Nodup

theorem initialised_inv : initialised.Inv := by
  constructor <;> simp [initialised, waiting, Distinct]

variable {s t : TcpServer}

/-! ### One connection changes -/

theorem Distinct.owner_eq_some (h : s.Distinct) {n c : Nat} : s.owner n = some c ↔
    ∃ x, s.connections[c]? = some x ∧ x.isOpen = true ∧ x.socket = n := by
  have hfound : ∀ {d : Nat}, s.owner n = some d →
      ∃ x, s.connections[d]? = some x ∧ x.isOpen = true ∧ x.socket = n := by
    intro d hd
    obtain ⟨hlt, hp, -⟩ := List.findIdx?_eq_some_iff_getElem.mp hd
    simp only [Bool.and_eq_true, beq_iff_eq] at hp
    exact ⟨_, List.getElem?_eq_getElem hlt, hp.1, hp.2⟩
  refine ⟨hfound, ?_⟩
  rintro ⟨x, hx, hopen, rfl⟩
  cases howner : s.owner x.socket with
  | none =>
    have hnone := List.findIdx?_eq_none_iff.mp howner x (List.mem_of_getElem? hx)
    simp [hopen] at hnone
  | some d =>
    obtain ⟨y, hy, hyopen, hys⟩ := hfound howner
    rw [h c d x y hx hy hopen hyopen hys.symm]

theorem Inv.owner_of_open (h : s.Inv) {c : Nat} {x : Connection}
    (hx : s.connections[c]? = some x) (hopen : x.isOpen = true) : s.owner x.socket = some c :=
  h.distinct.owner_eq_some.mpr ⟨x, hx, hopen, rfl⟩

theorem Inv.owner_of_lookup (h : s.Inv) {n c : Nat} (hsession : s.sessions.lookup n = some c) :
    s.owner n = some c := by
  obtain ⟨x, hx, rfl, hopen, -⟩ := h.session n c hsession
  exact h.owner_of_open hx hopen

theorem Inv.frame (h : s.Inv) (hstopped : t.isRunning = false → s.sessions = ∅)
    (hconnections : t.connections = s.connections) (hsessions : t.sessions = s.sessions)
    (haccepts : t.accepts.Nodup)
    (hfree : ∀ (c : Nat) (x : Connection), s.connections[c]? = some x → x.isOpen = true →
      x.socket ∉ t.accepts)
    (hwaiting : t.waiting = s.waiting) (hcloses : t.closes = s.closes) : t.Inv where
  standing c x hx := by
    rw [hconnections] at hx
    cases h.standing c x hx with
    | waiting hopen htold hw => exact .waiting hopen htold (hwaiting ▸ hw)
    | serving hopen hsession htold => exact .serving hopen (hsessions ▸ hsession) htold
    | closed hclosed hc htold => exact .closed hclosed (hcloses ▸ hc) htold
  session := by rw [hsessions, hconnections]; exact h.session
  queued := by rw [hwaiting, hconnections]; exact h.queued
  queuedOnce := hwaiting ▸ h.queuedOnce
  distinct := by rw [Distinct, hconnections]; exact h.distinct
  accepts := haccepts
  acceptsFree := by rw [hconnections]; exact hfree
  stopped := by rw [hsessions]; exact hstopped
  hit := by rw [hcloses, hconnections]; exact h.hit
  once := hcloses ▸ h.once

theorem Inv.enqueue (h : s.Inv) {tasks : List ServerTask} (reads writes : List Operation)
    (htasks : tasks.filterMap ServerTask.accepting = s.waiting) :
    Inv { s with reads := reads, writes := writes, tasks := tasks } :=
  h.frame h.stopped rfl rfl h.accepts h.acceptsFree htasks rfl

theorem Inv.change (h : s.Inv) {c : Nat} {x y : Connection} (hx : s.connections[c]? = some x)
    (hconnections : t.connections = s.connections.set c y) (hsocket : y.socket = x.socket)
    (hopen : y.isOpen = true → x.isOpen = true) (hstanding : t.Standing c y)
    (hsessions : ∀ n d, d ≠ c → (t.sessions.lookup n = some d ↔ s.sessions.lookup n = some d))
    (hsession : ∀ n, t.sessions.lookup n = some c →
      y.socket = n ∧ y.isOpen = true ∧ Begun y.told)
    (hwaiting : ∀ o : Operation, o.connection ≠ c → (o ∈ t.waiting ↔ o ∈ s.waiting))
    (hqueued : ∀ o ∈ t.waiting, o.connection = c →
      y.socket = o.socket ∧ y.isOpen = true ∧ y.told = [])
    (honce : t.waiting.Nodup) (haccepts : t.accepts = s.accepts)
    (hstopped : t.isRunning = false → t.sessions = ∅)
    (hcloses : (t.closes = s.closes ∧ y.isOpen = x.isOpen) ∨
      t.closes = s.closes ++ [some c] ∧ x.isOpen = true ∧ y.isOpen = false) : t.Inv := by
  have hat : t.connections[c]? = some y := by
    rw [hconnections, List.getElem?_set_self (List.getElem?_eq_some_iff.mp hx).1]
  have hother : ∀ {d : Nat}, d ≠ c → t.connections[d]? = s.connections[d]? := fun hne => by
    rw [hconnections, List.getElem?_set_ne (Ne.symm hne)]
  have hback : ∀ {d : Nat} {z : Connection}, t.connections[d]? = some z → z.isOpen = true →
      ∃ z', s.connections[d]? = some z' ∧ z'.isOpen = true ∧ z'.socket = z.socket := by
    intro d z hz hzopen
    by_cases hdc : d = c
    · subst hdc
      rw [hat, Option.some.injEq] at hz
      subst hz
      exact ⟨x, hx, hopen hzopen, hsocket.symm⟩
    · exact ⟨z, hother hdc ▸ hz, hzopen, rfl⟩
  refine ⟨fun d z hz => ?_, fun n d hd => ?_, fun o ho => ?_, honce,
    fun d e z w hz hw hzo hwo hs => ?_,
    haccepts ▸ h.accepts, fun d z hz hzopen => ?_, hstopped, fun o ho => ?_, ?_⟩
  · by_cases hdc : d = c
    · subst hdc
      rw [hat, Option.some.injEq] at hz
      exact hz ▸ hstanding
    · rw [hother hdc] at hz
      cases h.standing d z hz with
      | waiting hzopen htold hw => exact .waiting hzopen htold ((hwaiting ⟨d, z.socket⟩ hdc).mpr hw)
      | serving hzopen hlookup htold =>
        exact .serving hzopen ((hsessions _ d hdc).mpr hlookup) htold
      | closed hclosed hc htold =>
        refine .closed hclosed ?_ htold
        obtain ⟨heq, -⟩ | ⟨heq, -⟩ := hcloses
        · exact heq ▸ hc
        · exact heq ▸ List.mem_append_left _ hc
  · by_cases hdc : d = c
    · subst hdc
      exact ⟨y, hat, hsession n hd⟩
    · rw [hother hdc]
      exact h.session n d ((hsessions n d hdc).mp hd)
  · by_cases hoc : o.connection = c
    · rw [hoc]
      exact ⟨y, hat, hqueued o ho hoc⟩
    · rw [hother hoc]
      exact h.queued o ((hwaiting o hoc).mp ho)
  · obtain ⟨z', hz', hzo', hzs⟩ := hback hz hzo
    obtain ⟨w', hw', hwo', hws⟩ := hback hw hwo
    exact h.distinct d e z' w' hz' hw' hzo' hwo' (hzs.trans (hs.trans hws.symm))
  · obtain ⟨z', hz', hzo', hzs⟩ := hback hz hzopen
    rw [haccepts, ← hzs]
    exact h.acceptsFree d z' hz' hzo'
  · have hold : ∀ {d : Nat} {z : Connection}, s.connections[d]? = some z → z.isOpen = false →
        ∃ z', t.connections[d]? = some z' ∧ z'.isOpen = false := by
      intro d z hz hzclosed
      by_cases hdc : d = c
      · subst hdc
        rw [hx, Option.some.injEq] at hz
        subst hz
        refine ⟨y, hat, ?_⟩
        cases hy : y.isOpen with
        | false => rfl
        | true => rw [hopen hy] at hzclosed; cases hzclosed
      · exact ⟨z, (hother hdc).trans hz, hzclosed⟩
    have hbefore : o ∈ s.closes → ∃ (d : Nat) (z : Connection), o = some d ∧
        t.connections[d]? = some z ∧ z.isOpen = false := by
      intro ho
      obtain ⟨d, z, rfl, hz, hzclosed⟩ := h.hit o ho
      obtain ⟨z', hz', hzclosed'⟩ := hold hz hzclosed
      exact ⟨d, z', rfl, hz', hzclosed'⟩
    obtain ⟨heq, -⟩ | ⟨heq, -, hyclosed⟩ := hcloses
    · exact hbefore (heq ▸ ho)
    · rw [heq] at ho
      obtain ho | ho := List.mem_append.mp ho
      · exact hbefore ho
      · exact ⟨c, y, List.mem_singleton.mp ho, hat, hyclosed⟩
  · obtain ⟨heq, -⟩ | ⟨heq, hxopen, -⟩ := hcloses
    · exact heq ▸ h.once
    · rw [heq]
      refine List.nodup_append'.mpr ⟨h.once, List.nodup_singleton _, fun o ho hc => ?_⟩
      obtain rfl := List.mem_singleton.mp hc
      obtain ⟨d, z, hd, hz, hzclosed⟩ := h.hit _ ho
      cases hd
      rw [hx, Option.some.injEq] at hz
      rw [← hz, hxopen] at hzclosed
      cases hzclosed

theorem update_of_getElem? {c : Nat} {x : Connection} (hx : s.connections[c]? = some x)
    (f : Connection → Connection) : (s.update c f).connections = s.connections.set c (f x) := by
  simp [update, List.modify_eq_set_getElem?, hx]

theorem Inv.not_queued (h : s.Inv) {c : Nat} {x : Connection} (hx : s.connections[c]? = some x)
    (htold : x.told ≠ []) : ∀ o ∈ s.waiting, o.connection ≠ c := by
  intro o ho hoc
  obtain ⟨y, hy, -, -, hnil⟩ := h.queued o ho
  rw [hoc, hx, Option.some.injEq] at hy
  exact htold (hy ▸ hnil)

theorem Inv.lookup_socket (h : s.Inv) {n c : Nat} {x : Connection}
    (hx : s.connections[c]? = some x) (hn : s.sessions.lookup n = some c) : x.socket = n := by
  obtain ⟨y, hy, hsocket, -⟩ := h.session n c hn
  rw [hx, Option.some.injEq] at hy
  exact hy ▸ hsocket

theorem Inv.tell (h : s.Inv) {n c : Nat} (hsession : s.sessions.lookup n = some c) (origin : Nat)
    (buffer : List UInt8) : (s.update c (Connection.tell (.onReceive origin buffer))).Inv := by
  obtain ⟨x, hx, rfl, hopen, htold⟩ := h.session n c hsession
  refine h.change hx (update_of_getElem? hx _) rfl id
    (.serving hopen hsession (htold.onReceive origin buffer)) (fun _ _ _ => Iff.rfl)
    (fun n hn => ?_) (fun _ _ => Iff.rfl)
    (fun o ho hoc => absurd hoc (h.not_queued hx htold.ne_nil o ho)) h.queuedOnce rfl h.stopped
    (.inl ⟨rfl, rfl⟩)
  have hsocket : x.socket = n := h.lookup_socket hx hn
  exact ⟨hsocket, hopen, htold.onReceive origin buffer⟩

structure Closed (s : TcpServer) (n c : Nat) (x : Connection) (last : List ServerCall)
    (t : TcpServer) : Prop where
  connection : s.connections[c]? = some x
  isOpen : x.isOpen = true
  socket : x.socket = n
  told : Begun x.told
  ends : last = [.onClose] ∨ ∃ reason, last = [.onError reason, .onClose]
  result : t = { s with
    connections := s.connections.set c { x with isOpen := false, told := x.told ++ last }
    sessions := s.sessions.erase n
    closes := s.closes ++ [some c] }

theorem Inv.closesocket_eq (h : s.Inv) {c : Nat} {x : Connection}
    (hx : s.connections[c]? = some x) (hopen : x.isOpen = true) (told : List ServerCall)
    (sessions : SocketMap Nat) :
    closesocket { s with
        connections := s.connections.set c { x with told := told }
        sessions := sessions } x.socket =
      { s with
        connections := s.connections.set c { x with isOpen := false, told := told }
        sessions := sessions
        closes := s.closes ++ [some c] } := by
  have hlt : c < s.connections.length := (List.getElem?_eq_some_iff.mp hx).1
  have howner : owner { s with
      connections := s.connections.set c { x with told := told }
      sessions := sessions } x.socket = some c := by
    obtain ⟨hc, hxc, hmin⟩ := List.findIdx?_eq_some_iff_getElem.mp (h.owner_of_open hx hopen)
    refine List.findIdx?_eq_some_iff_getElem.mpr ⟨by simpa using hc, by simp [hopen], ?_⟩
    intro j hj
    have hne : c ≠ j := Nat.ne_of_gt hj
    simpa [List.getElem_set_ne hne] using hmin j hj
  simp only [closesocket, howner, List.modify_eq_set_getElem?, Connection.close]
  simp [hlt]

def closeCalls (isError : Bool) (reason : String) : List ServerCall :=
  if isError then [.onError reason, .onClose] else [.onClose]

theorem Inv.handleClientClose_eq (h : s.Inv) {c : Nat} {x : Connection}
    (hx : s.connections[c]? = some x) (hopen : x.isOpen = true)
    (hsession : s.sessions.lookup x.socket = some c) (isError : Bool) (reason : String) :
    s.handleClientClose x.socket isError reason = { s with
      connections :=
        s.connections.set c { x with isOpen := false, told := x.told ++ closeCalls isError reason }
      sessions := s.sessions.erase x.socket
      closes := s.closes ++ [some c] } := by
  have hlt : c < s.connections.length := (List.getElem?_eq_some_iff.mp hx).1
  cases isError with
  | false =>
    simp only [handleClientClose, hsession, Bool.false_eq_true, if_false, update,
      List.modify_eq_set_getElem?, hx, Option.map_eq_map, Option.map_some, Option.getD_some,
      Connection.tell]
    exact h.closesocket_eq hx hopen _ _
  | true =>
    simp only [handleClientClose, hsession, if_true, update,
      List.modify_eq_set_getElem?, hx, Option.map_eq_map, Option.map_some, Option.getD_some,
      Connection.tell, List.getElem?_set_self hlt, List.set_set, List.append_assoc,
      List.cons_append, List.nil_append]
    exact h.closesocket_eq hx hopen _ _

theorem handleClientClose_cases (h : s.Inv) (socket : Nat) (isError : Bool) (reason : String) :
    (s.sessions.lookup socket = none ∧ s.handleClientClose socket isError reason = s) ∨
      ∃ c x last, s.sessions.lookup socket = some c ∧
        s.Closed socket c x last (s.handleClientClose socket isError reason) := by
  cases hsession : s.sessions.lookup socket with
  | none => exact .inl ⟨rfl, by simp [handleClientClose, hsession]⟩
  | some c =>
    right
    obtain ⟨x, hx, rfl, hopen, htold⟩ := h.session socket c hsession
    refine ⟨c, x, closeCalls isError reason, rfl, hx, hopen, rfl, htold, ?_,
      h.handleClientClose_eq hx hopen hsession isError reason⟩
    cases isError with
    | false => exact .inl rfl
    | true => exact .inr ⟨reason, rfl⟩

theorem Closed.inv {socket c : Nat} {x : Connection} {last : List ServerCall}
    (hc : s.Closed socket c x last t) (h : s.Inv) (hsession : s.sessions.lookup socket = some c) :
    t.Inv := by
  obtain ⟨hx, hopen, rfl, htold, hends, rfl⟩ := hc
  have hended : Ended (x.told ++ last) := by
    refine ⟨x.told, htold, ?_⟩
    obtain rfl | ⟨reason, rfl⟩ := hends
    · exact .inl rfl
    · exact .inr ⟨reason, rfl⟩
  refine h.change hx rfl rfl (fun hfalse => by cases hfalse)
    (.closed rfl (List.mem_append_right _ (List.mem_singleton_self _)) (.inr (.inr hended)))
    (fun n d hdc => ?_) (fun n hn => ?_) (fun _ _ => Iff.rfl)
    (fun o ho hoc => absurd hoc (h.not_queued hx htold.ne_nil o ho)) h.queuedOnce rfl
    (fun hstop => ?_) (.inr ⟨rfl, hopen, rfl⟩)
  · rw [AList.lookup_erase_eq_ite]
    split
    · rename_i hn
      subst hn
      rw [hsession]
      simp [Ne.symm hdc]
    · rfl
  · obtain ⟨hne, hlookup⟩ := AList.lookup_of_lookup_erase hn
    exact absurd (h.lookup_socket hx hlookup).symm hne
  · have hnone := h.stopped hstop
    rw [hnone] at hsession
    simp at hsession

theorem Inv.handleClientClose (h : s.Inv) (socket : Nat) (isError : Bool) (reason : String) :
    (s.handleClientClose socket isError reason).Inv := by
  obtain ⟨-, heq⟩ | ⟨c, x, last, hsession, hclosed⟩ :=
    handleClientClose_cases h socket isError reason
  · rw [heq]
    exact h
  · exact hclosed.inv h hsession

theorem Inv.submitRead (h : s.Inv) (socket : Nat) (read : ReadSubmission) :
    (s.submitRead socket read).Inv := by
  unfold TcpServer.submitRead
  split
  · exact h
  · split
    · exact h
    · cases read with
      | done => exact h.enqueue _ _ rfl
      | benign => exact h.handleClientClose socket false _
      | failed => exact h.enqueue _ _ (by simp [waiting, ServerTask.accepting])

/-! ### The steps -/

structure First (s : TcpServer) (o : Operation) (rest : List Operation) (x : Connection) :
    Prop where
  connection : s.connections[o.connection]? = some x
  socket : x.socket = o.socket
  isOpen : x.isOpen = true
  told : x.told = []
  noSession : ∀ n, s.sessions.lookup n ≠ some o.connection
  others : ∀ p : Operation, p.connection ≠ o.connection → (p ∈ rest ↔ p ∈ s.waiting)
  gone : ∀ p ∈ rest, p.connection ≠ o.connection
  once : rest.Nodup

theorem Inv.first (h : s.Inv) {o : Operation} {rest : List ServerTask}
    (htasks : s.tasks = .accept o :: rest) :
    ∃ x, s.First o (rest.filterMap ServerTask.accepting) x := by
  have hwaiting : s.waiting = o :: rest.filterMap ServerTask.accepting := by
    simp [waiting, htasks, ServerTask.accepting]
  have honce : (o :: rest.filterMap ServerTask.accepting).Nodup := hwaiting ▸ h.queuedOnce
  obtain ⟨x, hx, hsocket, hopen, hnil⟩ := h.queued o (hwaiting ▸ List.mem_cons_self)
  refine ⟨x, hx, hsocket, hopen, hnil, fun n hn => ?_, fun p hp => ?_, fun p hp hpc => ?_,
    (List.nodup_cons.mp honce).2⟩
  · obtain ⟨y, hy, -, -, hytold⟩ := h.session n _ hn
    rw [hx, Option.some.injEq] at hy
    exact hytold.ne_nil (hy ▸ hnil)
  · have hpo : p ≠ o := fun hpo => hp (congrArg Operation.connection hpo)
    rw [hwaiting, List.mem_cons]
    exact (or_iff_right hpo).symm
  · obtain ⟨y, hy, hys, -⟩ := h.queued p (hwaiting ▸ List.mem_cons_of_mem _ hp)
    rw [hpc, hx, Option.some.injEq] at hy
    have hpo : p = o := by
      cases p
      cases o
      simp_all
    exact (List.nodup_cons.mp honce).1 (hpo ▸ hp)

theorem Inv.serve (h : s.Inv) {o : Operation} {rest : List ServerTask}
    (htasks : s.tasks = .accept o :: rest) (hrun : s.isRunning = true) :
    Inv { update { s with tasks := rest } o.connection (Connection.tell .onAccept) with
      sessions := s.sessions.insert o.socket o.connection } := by
  obtain ⟨x, hfirst⟩ := h.first htasks
  have hfree : ∀ d, s.sessions.lookup o.socket ≠ some d := by
    intro d hd
    obtain ⟨y, hy, hys, hyopen, -⟩ := h.session _ d hd
    obtain rfl := h.distinct _ _ x y hfirst.connection hy hfirst.isOpen hyopen
      (hfirst.socket.trans hys.symm)
    exact hfirst.noSession _ hd
  have hbegun : Begun (x.tell .onAccept).told := by
    rw [Connection.tell, hfirst.told]
    exact begun_onAccept
  refine h.change hfirst.connection
    (update_of_getElem? (s := { s with tasks := rest }) hfirst.connection _) rfl id
    (.serving hfirst.isOpen ?_ hbegun) (fun n d hdc => ?_) (fun n hn => ?_) hfirst.others
    (fun p hp hpc => absurd hpc (hfirst.gone p hp)) hfirst.once rfl (fun hstop => ?_)
    (.inl ⟨rfl, rfl⟩)
  · show (s.sessions.insert o.socket o.connection).lookup x.socket = _
    rw [hfirst.socket, AList.lookup_insert]
  · show (s.sessions.insert o.socket o.connection).lookup n = some d ↔ _
    rw [AList.lookup_insert_eq_ite]
    split
    · rename_i hn
      subst hn
      simp [Ne.symm hdc, hfree d]
    · rfl
  · obtain ⟨rfl, -⟩ | ⟨-, hlookup⟩ := AList.lookup_insert_cases hn
    · exact ⟨hfirst.socket, hfirst.isOpen, hbegun⟩
    · exact absurd hlookup (hfirst.noSession n)
  · have hstopped : s.isRunning = false := hstop
    rw [hrun] at hstopped
    cases hstopped

theorem Inv.refuse (h : s.Inv) {o : Operation} {rest : List ServerTask}
    (htasks : s.tasks = .accept o :: rest) :
    (closesocket { s with tasks := rest } o.socket).Inv := by
  obtain ⟨x, hfirst⟩ := h.first htasks
  have howner : owner { s with tasks := rest } o.socket = some o.connection :=
    hfirst.socket ▸ h.owner_of_open hfirst.connection hfirst.isOpen
  have hcloses : (closesocket { s with tasks := rest } o.socket).closes =
      s.closes ++ [some o.connection] := by rw [closesocket, howner]
  refine h.change (y := x.close) hfirst.connection ?_ rfl (fun hfalse => by cases hfalse)
    (.closed rfl ?_ (.inl hfirst.told)) (fun _ _ _ => Iff.rfl)
    (fun n hn => absurd hn (hfirst.noSession n)) hfirst.others
    (fun p hp hpc => absurd hpc (hfirst.gone p hp)) hfirst.once rfl h.stopped
    (.inr ⟨hcloses, hfirst.isOpen, rfl⟩)
  · simp [closesocket, howner, List.modify_eq_set_getElem?, hfirst.connection]
  · rw [hcloses]
    exact List.mem_append_right _ (List.mem_singleton_self _)

theorem Inv.runTask (h : s.Inv) {prepared : Bool} {read : ReadSubmission}
    (hstep : s.runTask prepared read = some t) : t.Inv := by
  unfold TcpServer.runTask at hstep
  split at hstep
  · cases hstep
  · rename_i task rest htasks
    cases hstep
    cases task with
    | accept o =>
      simp only [TcpServer.task, handleAccept]
      split
      · exact h.refuse htasks
      · rename_i hrun
        simp only [Bool.or_eq_true, Bool.not_eq_true', not_or, Bool.not_eq_false] at hrun
        exact (h.serve htasks hrun.1).submitRead o.socket read
    | receive o buffer error =>
      have hrest : Inv { s with tasks := rest } := h.enqueue _ _ (by rw [waiting, htasks]; rfl)
      simp only [TcpServer.task, handleReceive]
      split
      · exact hrest.handleClientClose o.socket _ _
      · split
        · exact hrest
        · rename_i c hsession
          split
          · exact hrest.tell hsession _ buffer
          · exact (hrest.tell hsession _ buffer).submitRead o.socket read
    | close o =>
      have hrest : Inv { s with tasks := rest } := h.enqueue _ _ (by rw [waiting, htasks]; rfl)
      exact hrest.handleClientClose o.socket true _

def stopAt (ns : List Nat) (x : Connection) : Connection :=
  if x.isOpen = true ∧ x.socket ∈ ns then x.close else x

@[simp] theorem stopAt_socket (ns : List Nat) (x : Connection) :
    (stopAt ns x).socket = x.socket := by
  unfold stopAt
  split <;> rfl

@[simp] theorem stopAt_told (ns : List Nat) (x : Connection) : (stopAt ns x).told = x.told := by
  unfold stopAt
  split <;> rfl

theorem stopAt_isOpen {ns : List Nat} {x : Connection} :
    (stopAt ns x).isOpen = true ↔ x.isOpen = true ∧ x.socket ∉ ns := by
  unfold stopAt
  split
  · rename_i hx
    simp [Connection.close, hx.2]
  · rename_i hx
    simp only [not_and] at hx
    exact (and_iff_left_of_imp hx).symm

theorem Distinct.map_stopAt (h : s.Distinct) (ns : List Nat) :
    Distinct { s with connections := s.connections.map (stopAt ns) } := by
  intro c d x y hx hy hxo hyo hs
  rw [List.getElem?_map] at hx hy
  obtain ⟨x', hx', rfl⟩ := Option.map_eq_some_iff.mp hx
  obtain ⟨y', hy', rfl⟩ := Option.map_eq_some_iff.mp hy
  rw [stopAt_socket, stopAt_socket] at hs
  exact h c d x' y' hx' hy' (stopAt_isOpen.mp hxo).1 (stopAt_isOpen.mp hyo).1 hs

/-- One `closesocket` of a number that is in use. -/
theorem Distinct.closesocket_eq (h : s.Distinct) {n : Nat} (howned : s.owner n ≠ none) :
    s.closesocket n = { s with
      connections := s.connections.map (stopAt [n])
      closes := s.closes ++ [s.owner n] } := by
  obtain ⟨c, hc⟩ := Option.ne_none_iff_exists'.mp howned
  obtain ⟨x, hx, hopen, rfl⟩ := h.owner_eq_some.mp hc
  simp only [closesocket, hc]
  congr 1
  refine List.ext_getElem? fun d => ?_
  rw [List.getElem?_modify, List.getElem?_map]
  cases hy : s.connections[d]? with
  | none => rfl
  | some y =>
    simp only [Option.map_eq_map, Option.map_some, Option.some.injEq]
    by_cases hcd : c = d
    · subst hcd
      rw [hx, Option.some.injEq] at hy
      subst hy
      simp [stopAt, hopen]
    · rw [if_neg hcd, stopAt, if_neg]
      rintro ⟨hyopen, hsocket⟩
      exact hcd (h c d x y hx hy hopen hyopen (List.mem_singleton.mp hsocket).symm)

theorem Distinct.closeAll_eq (h : s.Distinct) {ns : List Nat} (hnodup : ns.Nodup)
    (howned : ∀ n ∈ ns, s.owner n ≠ none) :
    ns.foldl closesocket s = { s with
      connections := s.connections.map (stopAt ns)
      closes := s.closes ++ ns.map s.owner } := by
  induction ns generalizing s with
  | nil =>
    have hid : ∀ x ∈ s.connections, stopAt [] x = x := fun x _ => if_neg (by simp)
    simp [List.map_id'' (f := stopAt []) fun x => if_neg (by simp)]
  | cons n ns ih =>
    obtain ⟨hn, hns⟩ := List.nodup_cons.mp hnodup
    have hsame : ∀ m ∈ ns,
        owner { s with connections := s.connections.map (stopAt [n]) } m = s.owner m := by
      intro m hm
      have hne : m ≠ n := fun hmn => hn (hmn ▸ hm)
      refine Option.ext fun c => ?_
      rw [(h.map_stopAt [n]).owner_eq_some, h.owner_eq_some]
      constructor
      · rintro ⟨x, hx, hopen, rfl⟩
        rw [List.getElem?_map] at hx
        obtain ⟨x', hx', rfl⟩ := Option.map_eq_some_iff.mp hx
        exact ⟨x', hx', (stopAt_isOpen.mp hopen).1, (stopAt_socket _ _).symm⟩
      · rintro ⟨x, hx, hopen, rfl⟩
        refine ⟨stopAt [n] x, by rw [List.getElem?_map, hx]; rfl, ?_, stopAt_socket _ _⟩
        exact stopAt_isOpen.mpr ⟨hopen, by simpa using hne⟩
    rw [List.foldl_cons, h.closesocket_eq (howned n List.mem_cons_self),
      ih (s := { s with
        connections := s.connections.map (stopAt [n])
        closes := s.closes ++ [s.owner n] }) (h.map_stopAt [n]) hns fun m hm => ?_]
    · have hmap : ns.map (owner { s with
          connections := s.connections.map (stopAt [n])
          closes := s.closes ++ [s.owner n] }) = ns.map s.owner := List.map_congr_left hsame
      have hstop : ∀ x, stopAt ns (stopAt [n] x) = stopAt (n :: ns) x := by
        intro x
        by_cases hx : x.isOpen = true <;> by_cases hxn : x.socket = n <;>
          simp [stopAt, hx, hxn, Connection.close]
      simp only [hmap, List.map_map, List.append_assoc, List.map_cons, List.cons_append,
        List.nil_append]
      congr 2
      exact funext hstop
    · exact fun hnone => howned m (List.mem_cons_of_mem _ hm) ((hsame m hm).symm.trans hnone)

theorem Inv.mem_keys (h : s.Inv) {n : Nat} (hn : n ∈ s.sessions.keys) :
    ∃ c x, s.sessions.lookup n = some c ∧ s.connections[c]? = some x ∧ x.socket = n ∧
      x.isOpen = true ∧ Begun x.told := by
  obtain ⟨c, hc⟩ := Option.isSome_iff_exists.mp
    (AList.lookup_isSome.mpr (AList.mem_keys.mpr hn))
  obtain ⟨x, hx⟩ := h.session n c hc
  exact ⟨c, x, hc, hx⟩

theorem Inv.stop_eq (h : s.Inv) : s.stop = { s with
    isRunning := false
    connections := s.connections.map (stopAt s.sessions.keys)
    sessions := ∅
    closes := s.closes ++ s.sessions.keys.map s.owner } := by
  have howned : ∀ n ∈ s.sessions.keys, s.owner n ≠ none := by
    intro n hn
    obtain ⟨c, x, hc, -⟩ := h.mem_keys hn
    rw [h.owner_of_lookup hc]
    exact Option.some_ne_none c
  rw [TcpServer.stop, h.distinct.closeAll_eq s.sessions.keys_nodup howned]

/-- `Stop` closes the connections that are served, and those alone. -/
theorem Inv.mem_keys_iff (h : s.Inv) {c : Nat} {x : Connection}
    (hx : s.connections[c]? = some x) (hopen : x.isOpen = true) :
    x.socket ∈ s.sessions.keys ↔ s.sessions.lookup x.socket = some c := by
  constructor
  · intro hmem
    obtain ⟨d, y, hd, hy, hys, hyopen, -⟩ := h.mem_keys hmem
    rw [hd, h.distinct c d x y hx hy hopen hyopen hys.symm]
  · intro hc
    exact AList.mem_keys.mp (AList.lookup_isSome.mp (by rw [hc]; rfl))

theorem Inv.stop (h : s.Inv) : s.stop.Inv := by
  rw [h.stop_eq]
  have hback : ∀ {c : Nat} {z : Connection},
      (s.connections.map (stopAt s.sessions.keys))[c]? = some z →
        ∃ x, s.connections[c]? = some x ∧ z = stopAt s.sessions.keys x := by
    intro c z hz
    rw [List.getElem?_map] at hz
    obtain ⟨x, hx, rfl⟩ := Option.map_eq_some_iff.mp hz
    exact ⟨x, hx, rfl⟩
  have howners : ∀ {c : Nat}, some c ∈ s.sessions.keys.map s.owner →
      ∃ x, s.connections[c]? = some x ∧ x.isOpen = true ∧ x.socket ∈ s.sessions.keys := by
    intro c hc
    obtain ⟨n, hn, howner⟩ := List.mem_map.mp hc
    obtain ⟨x, hx, hopen, rfl⟩ := h.distinct.owner_eq_some.mp howner
    exact ⟨x, hx, hopen, hn⟩
  refine ⟨fun c z hz => ?_, fun n c hn => by simp at hn, fun o ho => ?_, h.queuedOnce,
    h.distinct.map_stopAt _, h.accepts, fun c z hz hopen => ?_, fun _ => rfl, fun o ho => ?_, ?_⟩
  · obtain ⟨x, hx, rfl⟩ := hback hz
    cases h.standing c x hx with
    | waiting hopen htold hw =>
      have hnot : x.socket ∉ s.sessions.keys := by
        rw [h.mem_keys_iff hx hopen]
        intro hsession
        obtain ⟨y, hy, -, -, hytold⟩ := h.session _ c hsession
        rw [hx, Option.some.injEq] at hy
        exact hytold.ne_nil (hy ▸ htold)
      refine .waiting (stopAt_isOpen.mpr ⟨hopen, hnot⟩) (by simpa using htold) ?_
      rw [stopAt_socket]
      exact hw
    | serving hopen hsession htold =>
      have hmem := (h.mem_keys_iff hx hopen).mpr hsession
      refine .closed ?_ ?_ (.inr (.inl (by simpa using htold)))
      · rw [← Bool.not_eq_true, stopAt_isOpen]
        exact fun hnot => hnot.2 hmem
      · exact List.mem_append_right _
          (List.mem_map.mpr ⟨x.socket, hmem, h.owner_of_lookup hsession⟩)
    | closed hclosed hc htold =>
      refine .closed ?_ (List.mem_append_left _ hc) (by simpa using htold)
      rw [← Bool.not_eq_true, stopAt_isOpen, hclosed]
      simp
  · obtain ⟨x, hx, hsocket, hopen, hnil⟩ := h.queued o ho
    refine ⟨stopAt s.sessions.keys x, by simp [hx], by simpa using hsocket, ?_, by simpa using hnil⟩
    refine stopAt_isOpen.mpr ⟨hopen, ?_⟩
    rw [h.mem_keys_iff hx hopen]
    intro hsession
    obtain ⟨y, hy, -, -, hytold⟩ := h.session _ _ hsession
    rw [hx, Option.some.injEq] at hy
    exact hytold.ne_nil (hy ▸ hnil)
  · obtain ⟨x, hx, rfl⟩ := hback hz
    rw [stopAt_socket]
    exact h.acceptsFree c x hx (stopAt_isOpen.mp hopen).1
  · obtain ho | ho := List.mem_append.mp ho
    · obtain ⟨c, x, rfl, hx, hclosed⟩ := h.hit o ho
      refine ⟨c, stopAt s.sessions.keys x, rfl, by simp [hx], ?_⟩
      rw [← Bool.not_eq_true, stopAt_isOpen, hclosed]
      simp
    · obtain ⟨n, hn, rfl⟩ := List.mem_map.mp ho
      obtain ⟨c, x, hc, hx, rfl, -⟩ := h.mem_keys hn
      refine ⟨c, stopAt s.sessions.keys x, h.owner_of_lookup hc, by simp [hx], ?_⟩
      rw [← Bool.not_eq_true, stopAt_isOpen]
      exact fun hnot => hnot.2 hn
  · refine List.nodup_append'.mpr ⟨h.once, ?_, fun o ho ho' => ?_⟩
    · refine List.Nodup.map_on (fun n hn m hm hnm => ?_) s.sessions.keys_nodup
      obtain ⟨c, x, hc, hx, rfl, -⟩ := h.mem_keys hn
      obtain ⟨d, y, hd, hy, rfl, -⟩ := h.mem_keys hm
      rw [h.owner_of_lookup hc, h.owner_of_lookup hd, Option.some.injEq] at hnm
      rw [hnm, hy, Option.some.injEq] at hx
      rw [hx]
    · obtain ⟨c, x, rfl, hx, hclosed⟩ := h.hit o ho
      obtain ⟨y, hy, hopen, -⟩ := howners ho'
      rw [hx, Option.some.injEq] at hy
      rw [hy, hopen] at hclosed
      cases hclosed

theorem Inv.accepted (h : s.Inv) {n : Nat} (hn : n ∉ s.accepts) (hfree : s.owner n = none) :
    Inv { s with
      connections := s.connections ++ [.accepted n]
      tasks := s.tasks ++ [.accept ⟨s.connections.length, n⟩] } := by
  have hwaiting : waiting { s with
      connections := s.connections ++ [.accepted n]
      tasks := s.tasks ++ [.accept ⟨s.connections.length, n⟩] } =
      s.waiting ++ [⟨s.connections.length, n⟩] := by simp [waiting, ServerTask.accepting]
  have hold : ∀ {c : Nat} {x : Connection}, s.connections[c]? = some x →
      (s.connections ++ [.accepted n])[c]? = some x := fun hx => by
    rw [List.getElem?_append_left (List.getElem?_eq_some_iff.mp hx).1, hx]
  have hnone : ∀ {c : Nat} {x : Connection}, s.connections[c]? = some x → x.isOpen = true →
      x.socket ≠ n := by
    rintro c x hx hopen rfl
    rw [h.owner_of_open hx hopen] at hfree
    cases hfree
  refine ⟨fun c x hx => ?_, fun m c hm => ?_, fun o ho => ?_, ?_,
    fun c d x y hx hy hxo hyo hs => ?_,
    h.accepts, fun c x hx hopen => ?_, h.stopped, fun o ho => ?_, h.once⟩
  · obtain hx | ⟨rfl, rfl⟩ := List.getElem?_concat_some hx
    · cases h.standing c x hx with
      | waiting hopen htold hw =>
        exact .waiting hopen htold (hwaiting ▸ List.mem_append_left _ hw)
      | serving hopen hsession htold => exact .serving hopen hsession htold
      | closed hclosed hc htold => exact .closed hclosed hc htold
    · exact .waiting rfl rfl (hwaiting ▸ List.mem_append_right _ (List.mem_singleton_self _))
  · obtain ⟨x, hx, hrest⟩ := h.session m c hm
    exact ⟨x, hold hx, hrest⟩
  · rw [hwaiting] at ho
    obtain ho | ho := List.mem_append.mp ho
    · obtain ⟨x, hx, hrest⟩ := h.queued o ho
      exact ⟨x, hold hx, hrest⟩
    · rw [List.mem_singleton.mp ho]
      exact ⟨.accepted n, by simp, rfl, rfl, rfl⟩
  · rw [hwaiting]
    refine List.nodup_append'.mpr ⟨h.queuedOnce, List.nodup_singleton _, fun o ho hnew => ?_⟩
    rw [List.mem_singleton.mp hnew] at ho
    obtain ⟨x, hx, -⟩ := h.queued _ ho
    simp at hx
  · obtain hx | ⟨rfl, rfl⟩ := List.getElem?_concat_some hx <;>
      obtain hy | ⟨rfl, rfl⟩ := List.getElem?_concat_some hy
    · exact h.distinct c d x y hx hy hxo hyo hs
    · exact absurd hs (hnone hx hxo)
    · exact absurd hs.symm (hnone hy hyo)
    · rfl
  · obtain hx | ⟨rfl, rfl⟩ := List.getElem?_concat_some hx
    · exact h.acceptsFree c x hx hopen
    · exact hn
  · obtain ⟨c, x, rfl, hx, hclosed⟩ := h.hit o ho
    exact ⟨c, x, rfl, hold hx, hclosed⟩

theorem Inv.completeAccept (h : s.Inv) {i : Nat} {success : Bool}
    (hstep : s.completeAccept i success = some t) : t.Inv := by
  obtain ⟨n, hn, rfl⟩ := Option.map_eq_some_iff.mp hstep
  have hless : Inv { s with accepts := s.accepts.eraseIdx i } :=
    h.frame h.stopped rfl rfl (h.accepts.sublist (List.eraseIdx_sublist _ _))
      (fun c x hx hopen hin =>
        h.acceptsFree c x hx hopen ((List.eraseIdx_sublist _ _).subset hin)) rfl rfl
  cases success with
  | false => exact hless
  | true =>
    refine hless.accepted (fun hin => ?_) ?_
    · obtain ⟨j, hne, hj⟩ := List.mem_eraseIdx_iff_getElem?.mp hin
      obtain ⟨hlt, hi⟩ := List.getElem?_eq_some_iff.mp hn
      exact hne ((List.getElem?_inj hlt h.accepts).mp (hn.trans hj.symm)).symm
    · cases howner : owner { s with accepts := s.accepts.eraseIdx i } n with
      | none => rfl
      | some c =>
        obtain ⟨x, hx, hopen, rfl⟩ := hless.distinct.owner_eq_some.mp howner
        exact absurd (List.mem_of_getElem? hn) (h.acceptsFree c x hx hopen)

theorem Inv.completeRead (h : s.Inv) {i error : Nat} {buffer : List UInt8}
    (hstep : s.completeRead i buffer error = some t) : t.Inv := by
  obtain ⟨o, ho, rfl⟩ := Option.map_eq_some_iff.mp hstep
  have hreceived : Inv { s with
      connections :=
        if error = 0 ∧ buffer ≠ [] then s.connections.modify o.connection (.receive buffer)
        else s.connections } := by
    split
    · cases hx : s.connections[o.connection]? with
      | none =>
        rw [List.modify_eq_set_getElem?, hx]
        exact h
      | some x =>
        have hstanding : Standing { s with
            connections := s.connections.set o.connection (x.receive buffer) } o.connection
            (x.receive buffer) := by
          cases h.standing _ x hx with
          | waiting hopen htold hw => exact .waiting hopen htold hw
          | serving hopen hsession htold => exact .serving hopen hsession htold
          | closed hclosed hc htold => exact .closed hclosed hc htold
        rw [List.modify_eq_set_getElem?, hx]
        refine h.change hx rfl rfl id hstanding (fun _ _ _ => Iff.rfl) (fun n hn => ?_)
          (fun _ _ => Iff.rfl) (fun p hp hpc => ?_) h.queuedOnce rfl h.stopped (.inl ⟨rfl, rfl⟩)
        · obtain ⟨y, hy, hrest⟩ := h.session n _ hn
          rw [hx, Option.some.injEq] at hy
          exact hy ▸ hrest
        · obtain ⟨y, hy, hrest⟩ := h.queued p hp
          rw [hpc, hx, Option.some.injEq] at hy
          exact hy ▸ hrest
    · exact h
  exact hreceived.enqueue _ _ (by simp [waiting, ServerTask.accepting])

theorem step_inv {a : ServerAct} (h : s.Inv) (hstep : s.step a = some t) : t.Inv := by
  cases a with
  | start =>
    cases hstep
    exact h.frame (fun hfalse => by cases hfalse) rfl rfl h.accepts h.acceptsFree rfl rfl
  | stop =>
    cases hstep
    exact h.stop
  | submitAccept n =>
    simp only [step, submitAccept] at hstep
    split at hstep
    · rename_i hok
      obtain ⟨-, hfree, hn⟩ := hok
      cases hstep
      refine h.frame h.stopped rfl rfl ?_ (fun c x hx hopen hin => ?_) rfl rfl
      · refine List.nodup_append'.mpr ⟨h.accepts, List.nodup_singleton n, fun m hm hmn => ?_⟩
        exact hn (List.mem_singleton.mp hmn ▸ hm)
      · obtain hin | hin := List.mem_append.mp hin
        · exact h.acceptsFree c x hx hopen hin
        · rw [← List.mem_singleton.mp hin, h.owner_of_open hx hopen] at hfree
          cases hfree
    · cases hstep
  | completeAccept i success => exact h.completeAccept hstep
  | completeRead i buffer error => exact h.completeRead hstep
  | runTask prepared read => exact h.runTask hstep
  | send session buffer success =>
    simp only [step, send] at hstep
    split at hstep
    · cases hstep
    · split at hstep
      · cases hstep
      · split at hstep
        · cases hstep
          exact h
        · obtain ⟨c, -, rfl⟩ := Option.map_eq_some_iff.mp hstep
          exact h.enqueue _ _ rfl
  | completeWrite i error =>
    obtain ⟨o, -, rfl⟩ := Option.map_eq_some_iff.mp hstep
    have hrest : Inv { s with writes := s.writes.eraseIdx i } := h.enqueue _ _ rfl
    simp only [handleSend]
    split
    · split
      · exact hrest
      · split
        · exact hrest
        · exact hrest.handleClientClose _ _ _
    · exact hrest

theorem run_inv {as : List ServerAct} (h : machine.run initialised as = some s) : s.Inv :=
  machine.run_invariant (fun _ _ _ hs ha => step_inv hs ha) initialised_inv h

/-! ### Sessions wait for something -/

/-- A read, or a task that a read has ended in, comes to the session of this number. -/
def FedAt (s : TcpServer) (n : Nat) : Prop :=
  s.sessions.lookup n ≠ none → ∃ o ∈ s.receiving, o.socket = n

def Fed (s : TcpServer) : Prop := ∀ n, s.FedAt n

theorem FedAt.of_subset {n : Nat} (h : s.FedAt n) (hsessions : t.sessions = s.sessions)
    (hreceiving : s.receiving ⊆ t.receiving) : t.FedAt n := by
  intro hn
  obtain ⟨o, ho, hs⟩ := h (hsessions ▸ hn)
  exact ⟨o, hreceiving ho, hs⟩

theorem handleClientClose_fed (hinv : s.Inv) {n : Nat} (h : ∀ m, m ≠ n → s.FedAt m)
    (isError : Bool) (reason : String) : (s.handleClientClose n isError reason).Fed := by
  intro m
  by_cases hm : m = n
  · subst hm
    obtain ⟨hnone, heq⟩ | ⟨c, x, last, -, hclosed⟩ :=
      handleClientClose_cases hinv m isError reason
    · rw [heq]
      exact fun hsome => absurd hnone hsome
    · rw [hclosed.result]
      intro hsome
      simp at hsome
  · obtain ⟨-, heq⟩ | ⟨c, x, last, -, hclosed⟩ :=
      handleClientClose_cases hinv n isError reason
    · rw [heq]
      exact h m hm
    · rw [hclosed.result]
      intro hsome
      have hlookup : (s.sessions.erase n).lookup m ≠ none := hsome
      rw [AList.lookup_erase_ne hm] at hlookup
      exact h m hm hlookup

theorem submitRead_fed (hinv : s.Inv) {n : Nat} (h : ∀ m, m ≠ n → s.FedAt m)
    (read : ReadSubmission) : (s.submitRead n read).Fed := by
  unfold TcpServer.submitRead
  split
  · rename_i hrun
    have hnone := hinv.stopped (by simpa using hrun)
    intro m hm
    rw [hnone] at hm
    exact absurd rfl hm
  · split
    · rename_i hnone
      intro m
      by_cases hm : m = n
      · subst hm
        exact fun hsome => absurd hnone hsome
      · exact h m hm
    · rename_i c hsession
      have hown := hinv.owner_of_lookup hsession
      cases read with
      | done =>
        intro m
        by_cases hm : m = n
        · subst hm
          refine fun _ => ⟨⟨c, m⟩, ?_, rfl⟩
          simp [receiving, hown]
        · refine (h m hm).of_subset rfl ?_
          exact List.append_subset_of_subset_of_subset
            (List.Subset.trans (List.subset_append_left _ _) (List.subset_append_left _ _))
            (List.subset_append_right _ _)
      | benign => exact handleClientClose_fed hinv h false _
      | failed =>
        intro m
        by_cases hm : m = n
        · subst hm
          refine fun _ => ⟨⟨c, m⟩, ?_, rfl⟩
          simp [receiving, ServerTask.operation]
        · refine (h m hm).of_subset rfl ?_
          simp [receiving, ← List.append_assoc]

theorem runTask_fed (hinv : s.Inv) (h : s.Fed) {prepared : Bool} {read : ReadSubmission}
    (hstep : s.runTask prepared read = some t) : t.Fed := by
  unfold TcpServer.runTask at hstep
  split at hstep
  · cases hstep
  · rename_i task rest htasks
    cases hstep
    have hrest : ∀ m, (∀ o ∈ task.operation, m ≠ o.socket) → FedAt { s with tasks := rest } m := by
      intro m hm hsome
      obtain ⟨o, ho, rfl⟩ := h m hsome
      refine ⟨o, ?_, rfl⟩
      rw [receiving, htasks, List.filterMap_cons] at ho
      cases hop : task.operation with
      | none => simpa [receiving, hop] using ho
      | some p =>
        have hne : o ≠ p := fun hop' => hm p hop (congrArg Operation.socket hop')
        simpa [receiving, hop, hne] using ho
    cases task with
    | accept o =>
      have hsame : ∀ m, FedAt { s with tasks := rest } m := fun m => hrest m (by
        intro p hp
        cases hp)
      simp only [TcpServer.task, handleAccept]
      split
      · exact fun m => (hsame m).of_subset rfl (List.Subset.refl _)
      · rename_i hrun
        simp only [Bool.or_eq_true, Bool.not_eq_true', not_or, Bool.not_eq_false] at hrun
        refine submitRead_fed (hinv.serve htasks hrun.1) (fun m hm hsome => ?_) read
        have hlookup : (s.sessions.insert o.socket o.connection).lookup m ≠ none := hsome
        rw [AList.lookup_insert_ne hm] at hlookup
        exact hsame m hlookup
    | receive o buffer error =>
      have hinv' : Inv { s with tasks := rest } := hinv.enqueue _ _ (by rw [waiting, htasks]; rfl)
      have hbut : ∀ m, m ≠ o.socket → FedAt { s with tasks := rest } m := fun m hm => hrest m (by
        intro p hp
        cases hp
        exact hm)
      simp only [TcpServer.task, handleReceive]
      split
      · exact handleClientClose_fed hinv' hbut _ _
      · split
        · rename_i hnone
          intro m
          by_cases hm : m = o.socket
          · subst hm
            exact fun hsome => absurd hnone hsome
          · exact hbut m hm
        · rename_i c hsession
          have htold := hinv'.tell hsession o.connection buffer
          have hbut' : ∀ m, m ≠ o.socket → FedAt (update { s with tasks := rest } c
              (Connection.tell (.onReceive o.connection buffer))) m := fun m hm =>
            (hbut m hm).of_subset rfl (List.Subset.refl _)
          split
          · rename_i hrun
            have hnone := hinv.stopped (by simpa [update] using hrun)
            simp [hnone] at hsession
          · exact submitRead_fed htold hbut' read
    | close o =>
      have hinv' : Inv { s with tasks := rest } := hinv.enqueue _ _ (by rw [waiting, htasks]; rfl)
      refine handleClientClose_fed hinv' (fun m hm => hrest m ?_) true _
      intro p hp
      cases hp
      exact hm

theorem step_fed {a : ServerAct} (hinv : s.Inv) (h : s.Fed) (hstep : s.step a = some t) :
    t.Fed := by
  cases a with
  | start =>
    cases hstep
    exact h
  | stop =>
    cases hstep
    intro m hm
    rw [hinv.stop_eq] at hm
    exact absurd rfl hm
  | submitAccept n =>
    simp only [step, submitAccept] at hstep
    split at hstep
    · cases hstep
      exact h
    · cases hstep
  | completeAccept i success =>
    obtain ⟨n, -, rfl⟩ := Option.map_eq_some_iff.mp hstep
    cases success with
    | false => exact h
    | true => exact fun m => (h m).of_subset rfl (by simp [receiving, ServerTask.operation])
  | completeRead i buffer error =>
    obtain ⟨o, ho, rfl⟩ := Option.map_eq_some_iff.mp hstep
    refine fun m => (h m).of_subset rfl fun p hp => ?_
    simp only [receiving, List.filterMap_append, List.mem_append] at hp ⊢
    obtain hp | hp := hp
    · obtain rfl | hp := List.eq_or_mem_eraseIdx ho hp
      · exact .inr (.inr (by simp [ServerTask.operation]))
      · exact .inl hp
    · exact .inr (.inl hp)
  | runTask prepared read => exact runTask_fed hinv h hstep
  | send session buffer success =>
    simp only [step, send] at hstep
    split at hstep
    · cases hstep
    · split at hstep
      · cases hstep
      · split at hstep
        · cases hstep
          exact h
        · obtain ⟨c, -, rfl⟩ := Option.map_eq_some_iff.mp hstep
          exact h
  | completeWrite i error =>
    obtain ⟨o, -, rfl⟩ := Option.map_eq_some_iff.mp hstep
    have hrest : Inv { s with writes := s.writes.eraseIdx i } := hinv.enqueue _ _ rfl
    simp only [handleSend]
    split
    · split
      · exact h
      · split
        · exact h
        · exact handleClientClose_fed hrest (fun m _ => h m) _ _
    · exact h

/-- Whatever numbers come back and whoever's completions arrive late, a read or a task is always
on its way to each session. -/
theorem session_fed {as : List ServerAct} (h : machine.run initialised as = some s) {n c : Nat}
    (hsession : s.sessions.lookup n = some c) : ∃ o ∈ s.receiving, o.socket = n := by
  have hinit : initialised.Fed := fun m hm => absurd rfl hm
  have hfed : s.Inv ∧ s.Fed := machine.run_invariant (I := fun s => s.Inv ∧ s.Fed)
    (fun _ _ _ hs ha => ⟨step_inv hs.1 ha, step_fed hs.1 hs.2 ha⟩) ⟨initialised_inv, hinit⟩ h
  exact hfed.2 n (by simp [hsession])

/-- The server closes nothing but its connections, each once; one that is still open when the
server has stopped waits for `HandleAccept`, which closes it. What a session is told is a
beginning of `OnAccept OnReceive* [OnError] OnClose`, and its end comes with the close. -/
theorem connection_lives {as : List ServerAct} (h : machine.run initialised as = some s) :
    none ∉ s.closes ∧ s.closes.Nodup ∧ ∀ c x, s.connections[c]? = some x →
      (x.isOpen = false ↔ some c ∈ s.closes) ∧
      (x.isOpen = true → s.isRunning = false → ⟨c, x.socket⟩ ∈ s.waiting) ∧
      (x.told = [] ∨ Begun x.told ∨ Ended x.told ∧ x.isOpen = false) := by
  have hinv := run_inv h
  refine ⟨fun hnone => ?_, hinv.once, fun c x hx => ⟨⟨fun hclosed => ?_, fun hc => ?_⟩,
    fun hopen hstop => ?_, ?_⟩⟩
  · obtain ⟨c, x, hc, -⟩ := hinv.hit _ hnone
    cases hc
  · cases hinv.standing c x hx with
    | waiting hopen => rw [hclosed] at hopen; cases hopen
    | serving hopen => rw [hclosed] at hopen; cases hopen
    | closed _ hc => exact hc
  · obtain ⟨d, y, hd, hy, hclosed⟩ := hinv.hit _ hc
    cases hd
    rw [hx, Option.some.injEq] at hy
    exact hy ▸ hclosed
  · cases hinv.standing c x hx with
    | waiting _ _ hw => exact hw
    | serving _ hsession =>
      rw [hinv.stopped hstop] at hsession
      simp at hsession
    | closed hclosed => rw [hclosed] at hopen; cases hopen
  · cases hinv.standing c x hx with
    | waiting _ htold => exact .inl htold
    | serving _ _ htold => exact .inr (.inl htold)
    | closed hclosed _ htold =>
      obtain htold | htold | htold := htold
      · exact .inl htold
      · exact .inr (.inl htold)
      · exact .inr (.inr ⟨htold, hclosed⟩)

/-- A client is accepted and its data handled; then a write to it fails, and its number comes
back before the read that was outstanding does. -/
def numberComesBack : List ServerAct :=
  [.start, .submitAccept 7, .completeAccept 0 true, .runTask true .done,
    .completeRead 0 [104, 105] 0, .runTask true .done, .send 0 [1] true, .completeWrite 0 10054,
    .submitAccept 7, .completeAccept 0 true, .runTask true .done]

theorem session_fed_numberComesBack :
    ∃ s, machine.run initialised numberComesBack = some s ∧ ∃ o ∈ s.receiving, o.socket = 7 := by
  have hrun : machine.run initialised numberComesBack = some _ := rfl
  exact ⟨_, hrun, session_fed hrun rfl⟩

theorem connection_lives_numberComesBack :
    ∃ s, machine.run initialised numberComesBack = some s ∧ some 0 ∈ s.closes := by
  have hrun : machine.run initialised numberComesBack = some _ := rfl
  exact ⟨_, hrun, (((connection_lives hrun).2.2 0 _ rfl).1).mp rfl⟩

end TcpServer

end Lmnet.Windows
