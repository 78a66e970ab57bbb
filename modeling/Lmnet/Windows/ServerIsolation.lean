import Lmnet.Windows.ServerLife

set_option autoImplicit false

namespace Lmnet.Windows

def heard (told : List ServerCall) : List (Nat × List UInt8) :=
  told.filterMap fun
    | .onReceive origin buffer => some (origin, buffer)
    | .onAccept | .onError _ | .onClose => none

theorem heard_append (told told' : List ServerCall) :
    heard (told ++ told') = heard told ++ heard told' := List.filterMap_append

def ServerTask.buffer (c : Nat) : ServerTask → Option (Nat × List UInt8)
  | .receive o buffer error =>
      if o.connection = c ∧ error = 0 ∧ buffer ≠ [] then some (c, buffer) else none
  | .accept _ | .close _ => none

namespace TcpServer

def due (s : TcpServer) (c : Nat) : List (Nat × List UInt8) :=
  s.tasks.filterMap (ServerTask.buffer c)

def operations (s : TcpServer) : List Operation := s.receiving ++ s.writes

/-- `HandleAccept` finds nothing on the way to its number but what is its own. -/
def Fresh (s : TcpServer) : ServerAct → Prop
  | .runTask _ _ => ∀ o ∈ s.tasks.head?.bind ServerTask.accepting,
      ∀ p ∈ s.operations, p.socket = o.socket → p.connection = o.connection
  | _ => True

/-- What is on the way to a session is its own, and is one read, but for the session `idle`, for
which the next read is being submitted; and the session hears of its own data, in order. -/
structure Own (s : TcpServer) (idle : Option Nat) : Prop where
  own : ∀ n c, s.sessions.lookup n = some c → ∀ p ∈ s.operations, p.socket = n → p.connection = c
  one : ∀ n c, s.sessions.lookup n = some c →
    s.receiving.countP (·.socket = n) = if idle = some n then 0 else 1
  named : ∀ p ∈ s.receiving, ∃ x, s.connections[p.connection]? = some x ∧ x.socket = p.socket ∧
    x.told ≠ []
  silent : ∀ (c : Nat) (x : Connection), s.connections[c]? = some x → x.told = [] →
    x.received = []
  told : ∀ n c x, s.sessions.lookup n = some c → s.connections[c]? = some x →
    x.received.map (Prod.mk c) = heard x.told ++ s.due c
  prior : ∀ (c : Nat) (x : Connection), s.connections[c]? = some x →
    heard x.told <+: x.received.map (Prod.mk c)

theorem initialised_own : initialised.Own none := by
  constructor <;> simp [initialised, receiving]

variable {s t : TcpServer} {idle : Option Nat}

/-- A connection to which nothing has happened that its session would hear of. -/
def Alike (x y : Connection) : Prop :=
  y.socket = x.socket ∧ y.received = x.received ∧ heard y.told = heard x.told ∧
    (y.told = [] ↔ x.told = [])

theorem Alike.refl (x : Connection) : Alike x x := ⟨rfl, rfl, rfl, Iff.rfl⟩

theorem Own.transfer (hinv : s.Inv) (h : s.Own idle)
    (hkept : ∀ (c : Nat) (x : Connection), s.connections[c]? = some x →
      ∃ y, t.connections[c]? = some y ∧ Alike x y)
    (hnew : ∀ (c : Nat) (y : Connection), t.connections[c]? = some y →
      s.connections[c]? = none → y.told = [] ∧ y.received = [])
    (hsessions : ∀ n c, t.sessions.lookup n = some c → s.sessions.lookup n = some c)
    (hreceiving : t.receiving = s.receiving) (hdue : ∀ c, t.due c = s.due c)
    (hwrites : ∀ p ∈ t.writes, p ∈ s.writes ∨
      ∀ c, s.sessions.lookup p.socket = some c → p.connection = c) : t.Own idle := by
  have hcases : ∀ {c : Nat} {y : Connection}, t.connections[c]? = some y →
      (∃ x, s.connections[c]? = some x ∧ Alike x y) ∨ y.told = [] ∧ y.received = [] := by
    intro c y hy
    cases hx : s.connections[c]? with
    | none => exact .inr (hnew c y hy hx)
    | some x =>
      obtain ⟨y', hy', halike⟩ := hkept c x hx
      rw [hy, Option.some.injEq] at hy'
      exact .inl ⟨x, rfl, hy' ▸ halike⟩
  refine ⟨fun n c hn p hp hpn => ?_, fun n c hn => ?_, fun p hp => ?_, fun c y hy hnil => ?_,
    fun n c y hn hy => ?_, fun c y hy => ?_⟩
  · obtain hp | hp := List.mem_append.mp hp
    · exact h.own n c (hsessions n c hn) p (List.mem_append_left _ (hreceiving ▸ hp)) hpn
    · obtain hp | hfresh := hwrites p hp
      · exact h.own n c (hsessions n c hn) p (List.mem_append_right _ hp) hpn
      · exact hfresh c (hpn ▸ hsessions n c hn)
  · rw [hreceiving]
    exact h.one n c (hsessions n c hn)
  · obtain ⟨x, hx, hsocket, htold⟩ := h.named p (hreceiving ▸ hp)
    obtain ⟨y, hy, hs, -, -, hiff⟩ := hkept _ x hx
    exact ⟨y, hy, hs.trans hsocket, fun hnil => htold (hiff.mp hnil)⟩
  · obtain ⟨x, hx, -, hreceived, -, hiff⟩ | ⟨-, hreceived⟩ := hcases hy
    · exact hreceived.trans (h.silent c x hx (hiff.mp hnil))
    · exact hreceived
  · obtain ⟨x, hx, -⟩ := hinv.session n c (hsessions n c hn)
    obtain ⟨y', hy', -, hreceived, hheard, -⟩ := hkept c x hx
    rw [hy, Option.some.injEq] at hy'
    rw [hy', hreceived, hheard, hdue]
    exact h.told n c x (hsessions n c hn) hx
  · obtain ⟨x, hx, -, hreceived, hheard, -⟩ | ⟨htold, hreceived⟩ := hcases hy
    · rw [hreceived, hheard]
      exact h.prior c x hx
    · rw [htold, hreceived]
      exact List.nil_prefix

theorem Closed.own {n c : Nat} {x : Connection} {last : List ServerCall}
    (hc : s.Closed n c x last t) (hinv : s.Inv) (h : s.Own idle)
    (hidle : ∀ m, idle = some m → m = n) : t.Own none := by
  obtain ⟨hx, hopen, rfl, htold, hends, rfl⟩ := hc
  have hheard : heard (x.told ++ last) = heard x.told := by
    rw [heard_append]
    obtain rfl | ⟨reason, rfl⟩ := hends <;> simp [heard]
  have hlt : c < s.connections.length := (List.getElem?_eq_some_iff.mp hx).1
  have hown : Own { s with
      connections := s.connections.set c { x with isOpen := false, told := x.told ++ last }
      sessions := s.sessions.erase x.socket
      closes := s.closes ++ [some c] } idle := by
    refine h.transfer hinv (fun d y hy => ?_) (fun d y hy hnone => ?_) (fun m d hm => ?_) rfl
      (fun _ => rfl) fun p hp => .inl hp
    · by_cases hcd : c = d
      · subst hcd
        rw [hx, Option.some.injEq] at hy
        subst hy
        refine ⟨_, List.getElem?_set_self hlt, rfl, rfl, hheard, ?_⟩
        simp [htold.ne_nil]
      · exact ⟨y, by rw [List.getElem?_set_ne hcd, hy], .refl y⟩
    · rw [List.getElem?_eq_none_iff] at hnone
      have hdlt := (List.getElem?_eq_some_iff.mp hy).1
      rw [List.length_set] at hdlt
      exact absurd hdlt (Nat.not_lt.mpr hnone)
    · exact (AList.lookup_of_lookup_erase hm).2
  refine ⟨hown.own, fun m d hm => ?_, hown.named, hown.silent, hown.told, hown.prior⟩
  have hne : idle ≠ some m := fun hi => (AList.lookup_of_lookup_erase hm).1 (hidle m hi)
  rw [hown.one m d hm, if_neg hne, if_neg (by simp)]

theorem Own.of_no_session {n : Nat} (h : s.Own (some n)) (hnone : s.sessions.lookup n = none) :
    s.Own none := by
  refine ⟨h.own, fun m d hm => ?_, h.named, h.silent, h.told, h.prior⟩
  have hne : some n ≠ some m := by
    rintro hnm
    rw [Option.some.inj hnm, hm] at hnone
    cases hnone
  rw [h.one m d hm, if_neg hne, if_neg (by simp)]

theorem handleClientClose_own (hinv : s.Inv) {n : Nat} (h : s.Own (some n) ∨ s.Own none)
    (isError : Bool) (reason : String) : (s.handleClientClose n isError reason).Own none := by
  obtain ⟨hnone, heq⟩ | ⟨c, x, last, -, hclosed⟩ := handleClientClose_cases hinv n isError reason
  · rw [heq]
    exact h.elim (fun h => h.of_no_session hnone) id
  · obtain h | h := h
    · exact hclosed.own hinv h fun m hm => (Option.some.inj hm).symm
    · exact hclosed.own hinv h fun m hm => by cases hm

theorem Own.resume {n c : Nat} (h : s.Own (some n)) (hinv : s.Inv)
    (hsession : s.sessions.lookup n = some c)
    (hreceiving : t.receiving.Perm (⟨c, n⟩ :: s.receiving))
    (hconnections : t.connections = s.connections) (hsessions : t.sessions = s.sessions)
    (hdue : ∀ d, t.due d = s.due d) (hwrites : t.writes = s.writes) : t.Own none := by
  obtain ⟨x, hx, hsocket, -, htold⟩ := hinv.session n c hsession
  refine ⟨fun m d hm p hp hpm => ?_, fun m d hm => ?_, fun p hp => ?_, ?_, ?_, ?_⟩
  · rw [hsessions] at hm
    obtain hp | hp := List.mem_append.mp hp
    · obtain rfl | hp := List.mem_cons.mp (hreceiving.mem_iff.mp hp)
      · subst hpm
        rw [hsession, Option.some.injEq] at hm
        exact hm
      · exact h.own m d hm p (List.mem_append_left _ hp) hpm
    · exact h.own m d hm p (List.mem_append_right _ (hwrites ▸ hp)) hpm
  · rw [hsessions] at hm
    rw [hreceiving.countP_eq, List.countP_cons, h.one m d hm]
    by_cases hnm : n = m <;> simp [hnm]
  · rw [hconnections]
    obtain rfl | hp := List.mem_cons.mp (hreceiving.mem_iff.mp hp)
    · exact ⟨x, hx, hsocket, htold.ne_nil⟩
    · exact h.named p hp
  · rw [hconnections]
    exact h.silent
  · rw [hconnections, hsessions]
    simpa only [hdue] using h.told
  · rw [hconnections]
    exact h.prior

theorem submitRead_own (hinv : s.Inv) {n : Nat} (h : s.Own (some n)) (read : ReadSubmission) :
    (s.submitRead n read).Own none := by
  unfold TcpServer.submitRead
  split
  · rename_i hrun
    refine h.of_no_session ?_
    rw [hinv.stopped (by simpa using hrun)]
    rfl
  · split
    · exact h.of_no_session ‹_›
    · rename_i c hsession
      cases read with
      | done =>
        refine h.resume hinv hsession ?_ rfl rfl (fun _ => rfl) rfl
        simp only [receiving, hinv.owner_of_lookup hsession, Option.toList_some, List.map_cons,
          List.map_nil, List.append_assoc]
        exact List.perm_middle
      | benign => exact handleClientClose_own hinv (.inl h) false _
      | failed =>
        refine h.resume hinv hsession ?_ rfl rfl (fun d => ?_) rfl
        · simp only [receiving, List.filterMap_append, List.filterMap_cons, List.filterMap_nil,
            ServerTask.operation, ← List.append_assoc]
          exact List.perm_append_singleton _ _
        · simp [due, ServerTask.buffer]

theorem Own.pop (h : s.Own none) {o : Operation} (hreceiving : s.receiving.Perm (o :: t.receiving))
    (hsessions : t.sessions = s.sessions) (hwrites : t.writes = s.writes)
    (hkept : ∀ (c : Nat) (x : Connection), s.connections[c]? = some x →
      ∃ y, t.connections[c]? = some y ∧ y.socket = x.socket ∧ y.received = x.received ∧
        (y.told = [] ↔ x.told = []) ∧
        (heard y.told = heard x.told ∨ ∃ n, s.sessions.lookup n = some c) ∧
        ((∃ n, s.sessions.lookup n = some c) →
          heard y.told ++ t.due c = heard x.told ++ s.due c))
    (hlength : t.connections.length = s.connections.length) : t.Own (some o.socket) := by
  have hback : ∀ {c : Nat} {y : Connection}, t.connections[c]? = some y →
      ∃ x, s.connections[c]? = some x := fun hy =>
    ⟨_, List.getElem?_eq_getElem (hlength ▸ (List.getElem?_eq_some_iff.mp hy).1)⟩
  have hmem : ∀ {p : Operation}, p ∈ t.receiving → p ∈ s.receiving := fun hp =>
    hreceiving.mem_iff.mpr (List.mem_cons_of_mem _ hp)
  have htold : ∀ {n c : Nat} {x y : Connection}, s.sessions.lookup n = some c →
      s.connections[c]? = some x → t.connections[c]? = some y →
      y.received.map (Prod.mk c) = heard y.told ++ t.due c := by
    intro n c x y hn hx hy
    obtain ⟨y', hy', -, hreceived, -, -, hsame⟩ := hkept c x hx
    rw [hy, Option.some.injEq] at hy'
    subst hy'
    rw [hreceived, hsame ⟨n, hn⟩]
    exact h.told n c x hn hx
  refine ⟨fun m d hm p hp hpm => ?_, fun m d hm => ?_, fun p hp => ?_, fun c y hy hnil => ?_,
    fun n c y hn hy => ?_, fun c y hy => ?_⟩
  · rw [hsessions] at hm
    refine h.own m d hm p ?_ hpm
    obtain hp | hp := List.mem_append.mp hp
    · exact List.mem_append_left _ (hmem hp)
    · exact List.mem_append_right _ (hwrites ▸ hp)
  · rw [hsessions] at hm
    have hone := h.one m d hm
    simp only [reduceCtorEq, if_false, hreceiving.countP_eq, List.countP_cons] at hone
    by_cases hom : o.socket = m
    · simp only [hom, if_true, decide_true] at hone ⊢
      omega
    · have hne : some o.socket ≠ some m := fun hsome => hom (Option.some.inj hsome)
      simpa [hom, hne] using hone
  · obtain ⟨x, hx, hsocket, hne⟩ := h.named p (hmem hp)
    obtain ⟨y, hy, hs, -, hiff, -⟩ := hkept _ x hx
    exact ⟨y, hy, hs.trans hsocket, fun hnil => hne (hiff.mp hnil)⟩
  · obtain ⟨x, hx⟩ := hback hy
    obtain ⟨y', hy', -, hreceived, hiff, -⟩ := hkept c x hx
    rw [hy, Option.some.injEq] at hy'
    subst hy'
    exact hreceived.trans (h.silent c x hx (hiff.mp hnil))
  · obtain ⟨x, hx⟩ := hback hy
    exact htold (hsessions ▸ hn) hx hy
  · obtain ⟨x, hx⟩ := hback hy
    obtain ⟨y', hy', -, hreceived, -, hsame | ⟨n, hn⟩, -⟩ := hkept c x hx
    · rw [hy, Option.some.injEq] at hy'
      subst hy'
      rw [hreceived, hsame]
      exact h.prior c x hx
    · rw [htold hn hx hy]
      exact List.prefix_append _ _

theorem Own.serve (h : s.Own none) (hinv : s.Inv) {o : Operation} {rest : List ServerTask}
    (htasks : s.tasks = .accept o :: rest)
    (hfresh : ∀ p ∈ s.operations, p.socket = o.socket → p.connection = o.connection) :
    Own { update { s with tasks := rest } o.connection (Connection.tell .onAccept) with
      sessions := s.sessions.insert o.socket o.connection } (some o.socket) := by
  obtain ⟨x, hfirst⟩ := hinv.first htasks
  have hlt : o.connection < s.connections.length :=
    (List.getElem?_eq_some_iff.mp hfirst.connection).1
  have hupdate := update_of_getElem? (s := { s with tasks := rest }) hfirst.connection
    (Connection.tell .onAccept)
  have hreceiving : s.receiving = s.reads ++ rest.filterMap ServerTask.operation := by
    rw [receiving, htasks]
    rfl
  have hdue : ∀ c, s.due c = rest.filterMap (ServerTask.buffer c) := fun c => by
    rw [due, htasks]
    rfl
  -- its own reads would have come with a session
  have hnone : ∀ p ∈ s.receiving, p.socket ≠ o.socket := by
    intro p hp hpo
    obtain ⟨y, hy, -, hne⟩ := h.named p hp
    rw [hfresh p (List.mem_append_left _ hp) hpo, hfirst.connection, Option.some.injEq] at hy
    exact hne (hy ▸ hfirst.told)
  have hother : ∀ {c : Nat} {y : Connection}, c ≠ o.connection →
      (s.connections.set o.connection (x.tell .onAccept))[c]? = some y →
        s.connections[c]? = some y := fun hne hy => by
    rwa [List.getElem?_set_ne (Ne.symm hne)] at hy
  refine ⟨fun n c hn p hp hpn => ?_, fun n c hn => ?_, fun p hp => ?_, fun c y hy hnil => ?_,
    fun n c y hn hy => ?_, fun c y hy => ?_⟩
  · have hp' : p ∈ s.operations := by
      rw [operations, hreceiving]
      exact hp
    obtain ⟨rfl, rfl⟩ | ⟨-, hlookup⟩ := AList.lookup_insert_cases hn
    · exact hfresh p hp' hpn
    · exact h.own n c hlookup p hp' hpn
  · show (s.reads ++ rest.filterMap ServerTask.operation).countP _ = _
    rw [← hreceiving]
    obtain ⟨rfl, rfl⟩ | ⟨hne, hlookup⟩ := AList.lookup_insert_cases hn
    · rw [if_pos rfl, List.countP_eq_zero]
      exact fun p hp => by simpa using hnone p hp
    · rw [if_neg (fun hsome => hne (Option.some.inj hsome).symm), h.one n c hlookup,
        if_neg (by simp)]
  · obtain ⟨y, hy, hsocket, hne⟩ := h.named p (hreceiving ▸ hp)
    have hpo : p.connection ≠ o.connection := by
      intro hpo
      rw [hpo, hfirst.connection, Option.some.injEq] at hy
      exact hne (hy ▸ hfirst.told)
    refine ⟨y, ?_, hsocket, hne⟩
    show (update { s with tasks := rest } _ _).connections[p.connection]? = some y
    rw [hupdate, List.getElem?_set_ne (Ne.symm hpo), hy]
  · have hy' : (s.connections.set o.connection (x.tell .onAccept))[c]? = some y := hupdate ▸ hy
    by_cases hc : c = o.connection
    · subst hc
      rw [List.getElem?_set_self hlt, Option.some.injEq] at hy'
      subst hy'
      simp [Connection.tell] at hnil
    · exact h.silent c y (hother hc hy') hnil
  · have hy' : (s.connections.set o.connection (x.tell .onAccept))[c]? = some y := hupdate ▸ hy
    show _ = _ ++ rest.filterMap (ServerTask.buffer c)
    rw [← hdue]
    by_cases hc : c = o.connection
    · subst hc
      rw [List.getElem?_set_self hlt, Option.some.injEq] at hy'
      subst hy'
      have hprior := h.prior _ x hfirst.connection
      rw [h.silent _ x hfirst.connection hfirst.told] at hprior
      have hdue' : s.due o.connection = [] := by
        refine List.filterMap_eq_nil_iff.mpr fun task htask => ?_
        cases task with
        | accept p => rfl
        | close p => rfl
        | receive p buffer error =>
          refine if_neg fun hp => ?_
          obtain ⟨y, hy, -, hne⟩ := h.named p (List.mem_append_right _
            (List.mem_filterMap.mpr ⟨_, htask, rfl⟩))
          rw [hp.1, hfirst.connection, Option.some.injEq] at hy
          exact hne (hy ▸ hfirst.told)
      simp [Connection.tell, h.silent _ x hfirst.connection hfirst.told, hfirst.told, heard, hdue']
    · obtain ⟨rfl, rfl⟩ | ⟨-, hlookup⟩ := AList.lookup_insert_cases hn
      · exact absurd rfl hc
      · exact h.told n c y hlookup (hother hc hy')
  · have hy' : (s.connections.set o.connection (x.tell .onAccept))[c]? = some y := hupdate ▸ hy
    by_cases hc : c = o.connection
    · subst hc
      rw [List.getElem?_set_self hlt, Option.some.injEq] at hy'
      subst hy'
      simp [Connection.tell, hfirst.told, heard]
    · exact h.prior c y (hother hc hy')

theorem closesocket_alike (n : Nat) {c : Nat} {x : Connection} (hx : s.connections[c]? = some x) :
    ∃ y, (s.closesocket n).connections[c]? = some y ∧ Alike x y := by
  simp only [closesocket]
  split
  · exact ⟨x, hx, .refl x⟩
  · rename_i d _
    rw [List.getElem?_modify, hx]
    refine ⟨_, rfl, ?_⟩
    split
    · exact ⟨rfl, rfl, rfl, Iff.rfl⟩
    · exact .refl x

theorem closesocket_length (n : Nat) :
    (s.closesocket n).connections.length = s.connections.length := by
  simp only [closesocket]
  split <;> simp

theorem Own.pop_other (h : s.Own none) {o : Operation} {task : ServerTask} {rest : List ServerTask}
    (htasks : s.tasks = task :: rest) (hoperation : task.operation = some o)
    (hbuffer : ∀ n c, s.sessions.lookup n = some c → task.buffer c = none) :
    Own { s with tasks := rest } (some o.socket) := by
  refine h.pop ?_ rfl rfl (fun c x hx => ⟨x, hx, rfl, rfl, Iff.rfl, .inl rfl, ?_⟩) rfl
  · rw [receiving, htasks, List.filterMap_cons, hoperation]
    exact List.perm_middle
  · rintro ⟨n, hn⟩
    rw [due, due, htasks, List.filterMap_cons, hbuffer n c hn]

theorem handleReceive_none {task : ReceiveTask} (h : task.handleReceive = none) :
    task.error = 0 ∧ task.bytesReceived ≠ 0 := by
  unfold ReceiveTask.handleReceive at h
  split at h
  · split at h <;> cases h
  · rename_i herror
    split at h
    · cases h
    · exact ⟨not_not.mp herror, ‹_›⟩

theorem Own.pop_data (h : s.Own none) {o : Operation} {buffer : List UInt8}
    {rest : List ServerTask} {c : Nat} (htasks : s.tasks = .receive o buffer 0 :: rest)
    (hbuffer : buffer ≠ []) (hsession : s.sessions.lookup o.socket = some c) :
    Own (update { s with tasks := rest } c (Connection.tell (.onReceive o.connection buffer)))
      (some o.socket) := by
  have hreceiving : s.receiving.Perm (o :: receiving { s with tasks := rest }) := by
    rw [receiving, htasks, List.filterMap_cons]
    exact List.perm_middle
  have hown : o.connection = c := by
    refine h.own o.socket c hsession o (List.mem_append_left _ ?_) rfl
    exact hreceiving.mem_iff.mpr List.mem_cons_self
  have hdue : ∀ d, s.due d =
      (if d = c then [(c, buffer)] else []) ++ due { s with tasks := rest } d := by
    intro d
    rw [due, htasks, List.filterMap_cons]
    by_cases hd : d = c
    · subst hd
      simp [ServerTask.buffer, hown, hbuffer, due]
    · simp [ServerTask.buffer, hown, Ne.symm hd, hd, due]
  refine h.pop hreceiving rfl rfl (fun d x hx => ?_) (by simp [update])
  by_cases hd : d = c
  · subst hd
    refine ⟨x.tell (.onReceive o.connection buffer), ?_, rfl, rfl, ?_, .inr ⟨_, hsession⟩,
      fun _ => ?_⟩
    · simp [update, hx]
    · obtain ⟨y, hy, -, hne⟩ := h.named o (hreceiving.mem_iff.mpr List.mem_cons_self)
      rw [hown, hx, Option.some.injEq] at hy
      simp [Connection.tell, hy, hne]
    · rw [hdue d, if_pos rfl, Connection.tell, heard_append, List.append_assoc, hown]
      rfl
  · refine ⟨x, ?_, rfl, rfl, Iff.rfl, .inl rfl, fun _ => ?_⟩
    · simp [update, Ne.symm hd, hx]
    · rw [hdue d, if_neg hd, List.nil_append]
      rfl

theorem runTask_own (hinv : s.Inv) (h : s.Own none) {prepared : Bool} {read : ReadSubmission}
    (hfresh : s.Fresh (.runTask prepared read)) (hstep : s.runTask prepared read = some t) :
    t.Own none := by
  unfold TcpServer.runTask at hstep
  split at hstep
  · cases hstep
  · rename_i task rest htasks
    cases hstep
    cases task with
    | accept o =>
      simp only [TcpServer.task, handleAccept]
      split
      · refine h.transfer hinv (fun c x hx => ?_) (fun c y hy hnone => ?_) (fun _ _ hn => hn) ?_
          (fun c => ?_) fun p hp => .inl hp
        · exact closesocket_alike (s := { s with tasks := rest }) o.socket hx
        · have hlt := (List.getElem?_eq_some_iff.mp hy).1
          rw [closesocket_length] at hlt
          rw [List.getElem?_eq_none_iff] at hnone
          exact absurd hlt (Nat.not_lt.mpr hnone)
        · rw [receiving, receiving, htasks]
          rfl
        · rw [due, due, htasks]
          rfl
      · rename_i hrun
        simp only [Bool.or_eq_true, Bool.not_eq_true', not_or, Bool.not_eq_false] at hrun
        have hown := hfresh o (by rw [htasks]; rfl)
        exact submitRead_own (hinv.serve htasks hrun.1) (h.serve hinv htasks hown) read
    | receive o buffer error =>
      have hinv' : Inv { s with tasks := rest } := hinv.enqueue _ _ (by rw [waiting, htasks]; rfl)
      simp only [TcpServer.task, handleReceive]
      split
      · rename_i hclose
        refine handleClientClose_own hinv' (.inl (h.pop_other htasks rfl fun n c hn => ?_)) _ _
        refine if_neg fun hdata => ?_
        simp [ReceiveTask.handleReceive, hdata.2.1, hdata.2.2] at hclose
      · rename_i hdata
        obtain ⟨y, hy, hys, -⟩ := h.named o (List.mem_append_right _
          (List.mem_filterMap.mpr ⟨_, htasks ▸ List.mem_cons_self, rfl⟩))
        split
        · rename_i hnone
          refine (h.pop_other htasks rfl fun n c hn => ?_).of_no_session hnone
          refine if_neg fun hc => ?_
          -- the session of connection `c` has the number that has none
          have hnc := hinv.lookup_socket (hc.1 ▸ hy) hn
          rw [← hnc, hys] at hn
          exact Option.some_ne_none c (hn.symm.trans hnone)
        · rename_i c hsession
          obtain ⟨herror, hlength⟩ := handleReceive_none hdata
          have hempty : buffer ≠ [] := fun hnil => hlength (hnil ▸ rfl)
          have hzero : error = 0 := herror
          subst hzero
          have htold := h.pop_data htasks hempty hsession
          split
          · rename_i hrun
            have hnone := hinv.stopped (by simpa using hrun)
            rw [hnone] at hsession
            cases hsession
          · exact submitRead_own (hinv'.tell hsession o.connection buffer) htold read
    | close o =>
      have hinv' : Inv { s with tasks := rest } := hinv.enqueue _ _ (by rw [waiting, htasks]; rfl)
      exact handleClientClose_own hinv' (.inl (h.pop_other htasks rfl fun _ _ _ => rfl)) _ _

/-- What a read has returned is the connection's, and due to its session. -/
theorem completeRead_own (h : s.Own none) {i error : Nat} {buffer : List UInt8}
    (hstep : s.completeRead i buffer error = some t) : t.Own none := by
  obtain ⟨o, ho, rfl⟩ := Option.map_eq_some_iff.mp hstep
  set t : TcpServer := { s with
    connections :=
      if error = 0 ∧ buffer ≠ [] then s.connections.modify o.connection (.receive buffer)
      else s.connections
    reads := s.reads.eraseIdx i
    tasks := s.tasks ++ [.receive o buffer error] } with ht
  have hreceiving : t.receiving.Perm s.receiving := by
    obtain ⟨front, back, hreads, herased⟩ := List.exists_eraseIdx ho
    simp only [ht, receiving, herased, List.filterMap_append, List.filterMap_cons,
      List.filterMap_nil, ServerTask.operation]
    rw [hreads, List.append_assoc, List.append_assoc, List.cons_append]
    refine List.Perm.append_left front ?_
    rw [← List.append_assoc]
    exact List.perm_append_singleton _ _
  have hdue : ∀ d, t.due d = s.due d ++ ((ServerTask.receive o buffer error).buffer d).toList := by
    intro d
    simp only [ht, due, List.filterMap_append]
    cases hb : (ServerTask.receive o buffer error).buffer d <;> simp [hb]
  have hat : ∀ {d : Nat} {x : Connection}, s.connections[d]? = some x →
      ∃ y, t.connections[d]? = some y ∧ y.socket = x.socket ∧ y.told = x.told ∧
        y.received.map (Prod.mk d) = x.received.map (Prod.mk d) ++
          ((ServerTask.receive o buffer error).buffer d).toList := by
    intro d x hx
    by_cases hd : o.connection = d ∧ error = 0 ∧ buffer ≠ []
    · refine ⟨x.receive buffer, ?_, rfl, rfl, ?_⟩
      · simp [ht, hd.2.1, hd.2.2, hd.1, hx]
      · simp [Connection.receive, ServerTask.buffer, hd]
    · refine ⟨x, ?_, rfl, rfl, ?_⟩
      · simp only [ht]
        split
        · rename_i hdata
          have hne : o.connection ≠ d := fun hod => hd ⟨hod, hdata⟩
          simp [hne, hx]
        · exact hx
      · simp only [ServerTask.buffer]
        rw [if_neg hd]
        simp
  have hback : ∀ {d : Nat} {y : Connection}, t.connections[d]? = some y →
      ∃ x, s.connections[d]? = some x ∧ y.told = x.told ∧
        y.received.map (Prod.mk d) = x.received.map (Prod.mk d) ++
          ((ServerTask.receive o buffer error).buffer d).toList := by
    intro d y hy
    have hlt : d < s.connections.length := by
      have hlt := (List.getElem?_eq_some_iff.mp hy).1
      simp only [ht] at hlt
      split at hlt
      · simpa using hlt
      · exact hlt
    obtain ⟨y', hy', -, htold, hreceived⟩ := hat (List.getElem?_eq_getElem hlt)
    rw [hy, Option.some.injEq] at hy'
    subst hy'
    exact ⟨_, List.getElem?_eq_getElem hlt, htold, hreceived⟩
  refine ⟨fun n c hn p hp hpn => ?_, fun n c hn => ?_, fun p hp => ?_, fun c y hy hnil => ?_,
    fun n c y hn hy => ?_, fun c y hy => ?_⟩
  · refine h.own n c hn p ?_ hpn
    obtain hp | hp := List.mem_append.mp hp
    · exact List.mem_append_left _ (hreceiving.mem_iff.mp hp)
    · exact List.mem_append_right _ hp
  · rw [hreceiving.countP_eq]
    exact h.one n c hn
  · obtain ⟨x, hx, hsocket, hne⟩ := h.named p (hreceiving.mem_iff.mp hp)
    obtain ⟨y, hy, hs, htold, -⟩ := hat hx
    exact ⟨y, hy, hs.trans hsocket, htold ▸ hne⟩
  · obtain ⟨x, hx, htold, hreceived⟩ := hback hy
    rw [h.silent c x hx (htold ▸ hnil)] at hreceived
    have hnone : (ServerTask.receive o buffer error).buffer c = none := by
      refine if_neg fun hc => ?_
      obtain ⟨x', hx', -, hne⟩ := h.named o (List.mem_append_left _ (List.mem_of_getElem? ho))
      rw [hc.1, hx, Option.some.injEq] at hx'
      exact hne (hx' ▸ htold ▸ hnil)
    simpa [hnone] using hreceived
  · obtain ⟨x, hx, htold, hreceived⟩ := hback hy
    rw [hreceived, h.told n c x hn hx, hdue, htold, List.append_assoc]
  · obtain ⟨x, hx, htold, hreceived⟩ := hback hy
    rw [hreceived, htold]
    exact (h.prior c x hx).trans (List.prefix_append _ _)

theorem step_own {a : ServerAct} (hinv : s.Inv) (h : s.Own none) (hfresh : s.Fresh a)
    (hstep : s.step a = some t) : t.Own none := by
  have hsame : ∀ (c : Nat) (x : Connection), s.connections[c]? = some x →
      ∃ y, s.connections[c]? = some y ∧ Alike x y := fun c x hx => ⟨x, hx, .refl x⟩
  have hnever : ∀ (c : Nat) (y : Connection), s.connections[c]? = some y →
      s.connections[c]? = none → y.told = [] ∧ y.received = [] := fun c y hy hnone => by
    rw [hy] at hnone
    cases hnone
  cases a with
  | start =>
    cases hstep
    exact h.transfer hinv hsame hnever (fun _ _ hn => hn) rfl (fun _ => rfl) fun p hp => .inl hp
  | stop =>
    cases hstep
    rw [hinv.stop_eq]
    refine h.transfer hinv (fun c x hx => ?_) (fun c y hy hnone => ?_) (fun n c hn => ?_) rfl
      (fun _ => rfl) fun p hp => .inl hp
    · refine ⟨stopAt s.sessions.keys x, by simp [hx], stopAt_socket _ _, ?_, ?_, ?_⟩
      · unfold stopAt
        split <;> rfl
      · rw [stopAt_told]
      · rw [stopAt_told]
    · rw [List.getElem?_map, hnone] at hy
      cases hy
    · simp at hn
  | submitAccept n =>
    simp only [step, submitAccept] at hstep
    split at hstep
    · cases hstep
      exact h.transfer hinv hsame hnever (fun _ _ hn => hn) rfl (fun _ => rfl) fun p hp => .inl hp
    · cases hstep
  | completeAccept i success =>
    obtain ⟨n, -, rfl⟩ := Option.map_eq_some_iff.mp hstep
    cases success with
    | false =>
      exact h.transfer hinv hsame hnever (fun _ _ hn => hn) rfl (fun _ => rfl) fun p hp => .inl hp
    | true =>
      refine h.transfer hinv (fun c x hx => ⟨x, ?_, .refl x⟩) (fun c y hy hnone => ?_)
        (fun _ _ hn => hn) ?_ (fun c => ?_) fun p hp => .inl hp
      · show (s.connections ++ [Connection.accepted n])[c]? = some x
        rw [List.getElem?_append_left (List.getElem?_eq_some_iff.mp hx).1, hx]
      · obtain hy | ⟨-, rfl⟩ := List.getElem?_concat_some hy
        · exact absurd (hy.symm.trans hnone) (Option.some_ne_none y)
        · exact ⟨rfl, rfl⟩
      · simp [receiving, ServerTask.operation]
      · simp [due, ServerTask.buffer]
  | completeRead i buffer error => exact completeRead_own h hstep
  | runTask prepared read => exact runTask_own hinv h hfresh hstep
  | send session buffer success =>
    simp only [step, send] at hstep
    split at hstep
    · cases hstep
    · split at hstep
      · cases hstep
      · split at hstep
        · cases hstep
          exact h
        · obtain ⟨c, hc, rfl⟩ := Option.map_eq_some_iff.mp hstep
          refine h.transfer hinv hsame hnever (fun _ _ hn => hn) rfl (fun _ => rfl) fun p hp => ?_
          obtain hp | hp := List.mem_append.mp hp
          · exact .inl hp
          · rw [List.mem_singleton.mp hp]
            refine .inr fun d hd => ?_
            rw [hinv.owner_of_lookup hd, Option.some.injEq] at hc
            exact hc.symm
  | completeWrite i error =>
    obtain ⟨o, -, rfl⟩ := Option.map_eq_some_iff.mp hstep
    have hinv' : Inv { s with writes := s.writes.eraseIdx i } := hinv.enqueue _ _ rfl
    have hless : Own { s with writes := s.writes.eraseIdx i } none :=
      h.transfer hinv hsame hnever (fun _ _ hn => hn) rfl (fun _ => rfl) fun p hp =>
        .inl (List.mem_of_mem_eraseIdx hp)
    simp only [handleSend]
    split
    · split
      · exact hless
      · split
        · exact hless
        · exact handleClientClose_own hinv' (.inr hless) _ _
    · exact hless

theorem run_own {as : List ServerAct} (h : machine.run initialised as = some s)
    (hfresh : machine.Every (fun s a _ => s.Fresh a) initialised as) : s.Inv ∧ s.Own none :=
  machine.run_invariant_of_every (I := fun s => s.Inv ∧ s.Own none)
    (fun _ _ _ hs ha hfresh => ⟨step_inv hs.1 ha, step_own hs.1 hs.2 hfresh ha⟩)
    ⟨initialised_inv, initialised_own⟩ hfresh h

/-- A session hears of what its own connection has received, in order and without a gap; while
it is there nothing is missing but what its next task brings, and the server has exactly one
read, or task that a read has ended in, on the way to it. -/
theorem session_isolated {as : List ServerAct} (h : machine.run initialised as = some s)
    (hfresh : machine.Every (fun s a _ => s.Fresh a) initialised as) {c : Nat} {x : Connection}
    (hx : s.connections[c]? = some x) :
    heard x.told <+: x.received.map (Prod.mk c) ∧
      ∀ n, s.sessions.lookup n = some c →
        x.received.map (Prod.mk c) = heard x.told ++ s.due c ∧
          s.receiving.countP (·.socket = n) = 1 ∧
          ∀ p ∈ s.operations, p.socket = n → p.connection = c := by
  obtain ⟨-, hown⟩ := run_own h hfresh
  refine ⟨hown.prior c x hx, fun n hn => ⟨hown.told n c x hn hx, ?_, hown.own n c hn⟩⟩
  rw [hown.one n c hn, if_neg (by simp)]

instance decidableFresh (s : TcpServer) (a : ServerAct) : Decidable (s.Fresh a) :=
  match a with
  | .runTask _ _ => inferInstanceAs (Decidable (∀ o ∈ s.tasks.head?.bind ServerTask.accepting,
      ∀ p ∈ s.operations, p.socket = o.socket → p.connection = o.connection))
  | .start | .stop | .submitAccept _ | .completeAccept _ _ | .completeRead _ _ _ | .send _ _ _
  | .completeWrite _ _ => inferInstanceAs (Decidable True)

/-- As `numberComesBack`, but the read of the first client comes in before its number is used
again; the second client sends too. -/
def numberComesBackLater : List ServerAct :=
  [.start, .submitAccept 7, .completeAccept 0 true, .runTask true .done,
    .completeRead 0 [104, 105] 0, .runTask true .done, .send 0 [1] true, .completeWrite 0 10054,
    .completeRead 0 [] 995, .runTask true .done, .submitAccept 7, .completeAccept 0 true,
    .runTask true .done, .completeRead 0 [106] 0]

theorem session_isolated_numberComesBackLater :
    ∃ s x, machine.run initialised numberComesBackLater = some s ∧
      s.connections[1]? = some x ∧ x.received.map (Prod.mk 1) = heard x.told ++ s.due 1 := by
  have hrun : machine.run initialised numberComesBackLater = some _ := rfl
  exact ⟨_, _, hrun, rfl,
    ((session_isolated hrun (machine.every_of_check (by decide)) rfl).2 7 rfl).1⟩

end TcpServer

end Lmnet.Windows
