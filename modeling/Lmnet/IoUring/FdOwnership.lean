import Lmnet.IoUring.AcceptChain
import Lmnet.IoUring.Ledger

set_option autoImplicit false

namespace Lmnet.IoUring

def Tag.ofFrame : Frame TcpOp TcpCode → Option Tag
  | .invoke op result => op.doneTag result
  | .putRequest _ => none
  | .call c => Tag.ofCall c

section

variable {s : Loop TcpOp TcpCode TcpServer}

theorem pending_pos_of_stack {f : Frame TcpOp TcpCode} {rest : List (Frame TcpOp TcpCode)}
    {tag : Tag} (hstack : s.stack = f :: rest) (hf : Tag.ofFrame f = some tag) :
    0 < pending s tag := by
  have hframe : tag.tally.frame f = true := by
    cases f with
    | invoke op result => exact beq_iff_eq.mpr hf
    | putRequest r => cases hf
    | call c => cases c <;> exact beq_iff_eq.mpr hf
  have hpos : 0 < s.stack.countP tag.tally.frame :=
    List.countP_pos_iff.mpr ⟨f, hstack ▸ List.mem_cons_self, hframe⟩
  simp only [pending, Tally.count]
  omega

theorem pending_pos_of_inflight {k : Nat} {q : Sqe TcpOp} {tag : Tag}
    (hq : s.manager.inflight[k]? = some q) (htag : q.op.tag = some tag) : 0 < pending s tag := by
  have hpos : 0 < s.manager.inflight.countP fun q => tag.tally.flight q.op :=
    List.countP_pos_of_getElem? hq (by simpa [Tag.tally] using htag)
  simp only [pending, Tally.count]
  omega

theorem moved_kernel {k : Nat} {q : Sqe TcpOp} (result : Int) (st : TcpServer)
    (hq : s.manager.inflight[k]? = some q) :
    Moved (pending s) (pending ⟨{ s.manager with inflight := s.manager.inflight.eraseIdx k },
      s.cq ++ [(q, result)], s.stack, st⟩) q.op.tag.toList (q.op.doneTag result).toList := by
  intro tag
  rw [← Tag.toNat_eq_count, ← Tag.toNat_eq_count]
  exact tag.tally.count_kernel result st hq

theorem moved_worker {q : Sqe TcpOp} {result : Int} {rest : List (Sqe TcpOp × Int)}
    (hstack : s.stack = []) (hcq : s.cq = (q, result) :: rest) :
    Moved (pending s)
      (pending ⟨s.manager, rest, [.invoke q.op result, .putRequest q.userData], s.state⟩)
      (q.op.doneTag result).toList (q.op.doneTag result).toList := by
  intro tag
  rw [← Tag.toNat_eq_count]
  exact tag.tally.count_worker hstack hcq

theorem moved_call (f : TcpCode) :
    Moved (pending s) (pending ⟨s.manager, s.cq, .call (.code f) :: s.stack, s.state⟩) []
      f.tag.toList := by
  intro tag
  rw [← Tag.toNat_eq_count]
  exact tag.tally.count_call f

theorem moved_invoke {op : TcpOp} {result : Int} {rest : List (Frame TcpOp TcpCode)}
    (cs : List (Call TcpOp TcpCode)) (st : TcpServer)
    (hstack : s.stack = .invoke op result :: rest) :
    Moved (pending s) (pending ⟨s.manager, s.cq, cs.map .call ++ rest, st⟩)
      (op.doneTag result).toList (cs.filterMap Tag.ofCall) := by
  intro tag
  rw [← Tag.toNat_eq_count, ← Tag.calls_eq_count]
  exact tag.tally.count_invoke cs st hstack

theorem moved_code {f : TcpCode} {rest : List (Frame TcpOp TcpCode)}
    (cs : List (Call TcpOp TcpCode)) (st : TcpServer) (hstack : s.stack = .call (.code f) :: rest) :
    Moved (pending s) (pending ⟨s.manager, s.cq, cs.map .call ++ rest, st⟩)
      f.tag.toList (cs.filterMap Tag.ofCall) := by
  intro tag
  rw [← Tag.toNat_eq_count, ← Tag.calls_eq_count]
  exact tag.tally.count_code cs st hstack

theorem moved_accepted {m : Manager TcpOp} {r : Nat} {type : RequestType} {fd : Fd} {op : TcpOp}
    {rest : List (Frame TcpOp TcpCode)} (hstack : s.stack = .call (.submit type fd op) :: rest)
    (hinflight : m.inflight = s.manager.inflight ++ [⟨r, op⟩]) :
    Moved (pending s) (pending ⟨m, s.cq, rest, s.state⟩) op.tag.toList op.tag.toList := by
  intro tag
  rw [← Tag.toNat_eq_count]
  exact tag.tally.count_accepted hstack hinflight

theorem moved_refused {m : Manager TcpOp} {type : RequestType} {fd : Fd} {op : TcpOp}
    {rest : List (Frame TcpOp TcpCode)} (error : Int) (r : Option Nat)
    (hstack : s.stack = .call (.submit type fd op) :: rest)
    (hinflight : m.inflight = s.manager.inflight) :
    Moved (pending s)
      (pending ⟨m, s.cq, Loop.failFrames TcpServer.component op error r ++ rest, s.state⟩)
      op.tag.toList
      ((op.doneTag error).toList ++ (TcpServer.onFail op).filterMap TcpCode.tag) := by
  intro tag
  have hcount := tag.tally.count_refused TcpServer.component error r hstack hinflight
  rw [Tag.calls_eq_count, List.filterMap_map] at hcount
  rw [← Tag.toNat_eq_count, List.count_append, ← Tag.toNat_eq_count, ← Nat.add_assoc]
  exact hcount

end

namespace TcpServer

theorem nativeHandle_of_table {st : TcpServer} {c : Nat} {e : Entry}
    (h : st.book.table[c]? = some e) : st.nativeHandle c = e.fd := by
  simp only [book, List.getElem?_map, Option.map_eq_some_iff] at h
  obtain ⟨x, hx, rfl⟩ := h
  simp [nativeHandle, hx]

theorem table_modify (st : TcpServer) {c : Nat} {x : Connection} (g : Connection → Connection)
    (hx : st.connections[c]? = some x) :
    ((st.connections.modify c g).map fun x => (⟨x.fd, x.isOpen, x.session.isSome⟩ : Entry)) =
      st.book.table.set c ⟨(g x).fd, (g x).isOpen, (g x).session.isSome⟩ := by
  apply List.ext_getElem?
  intro d
  by_cases hcd : c = d
  · subst hcd
    obtain ⟨hlt, rfl⟩ := List.getElem?_eq_some_iff.mp hx
    simp [book, hlt]
  · simp [book, List.getElem?_set_ne hcd, List.getElem?_modify_ne g st.connections hcd]

theorem setSession_book {st : TcpServer} {c : Nat} {stream : Stream} (next : Stream)
    (h : st.session c = some stream) : (st.setSession c next).book = st.book := by
  obtain ⟨x, hx, hsession⟩ := Option.bind_eq_some_iff.mp h
  have htable := table_modify st (fun x => { x with session := some next }) hx
  have hself : st.book.table[c]? = some ⟨x.fd, x.isOpen, true⟩ := by
    simp [book, hx, hsession]
  have hsame : st.book.table.set c ⟨x.fd, x.isOpen, true⟩ = st.book.table := by
    obtain ⟨hlt, hget⟩ := List.getElem?_eq_some_iff.mp hself
    rw [← hget, List.set_getElem_self]
  simp only [setSession, book]
  rw [htable]
  exact congrArg (fun t => (⟨st.isRunning, st.sessions, t, st.tasks, st.handed, st.hits⟩ : Book))
    hsame

theorem closeNumber_book {st : TcpServer} {n : Tag → Nat} {c : Nat} (h : Ledger st.book n)
    (hpos : 0 < n (.closing c)) : ∃ e, st.book.table[c]? = some e ∧
      (st.closeNumber c).book = { st.book with
        table := st.book.table.set c { e with isOpen := false }
        hits := st.hits ++ [(c, c)] } := by
  have hle := h.closing c
  obtain ⟨e, he, -⟩ := h.adopted (c := c) (by omega)
  refine ⟨e, he, ?_⟩
  have hopen : e.isOpen = true := by
    cases hopen : e.isOpen
    · have hzero := (h.closed c e he hopen).2
      omega
    · rfl
  have hhandle := nativeHandle_of_table he
  obtain ⟨x, hx, hxe⟩ : ∃ x, st.connections[c]? = some x ∧
      (⟨x.fd, x.isOpen, x.session.isSome⟩ : Entry) = e := by
    simpa [book] using he
  subst hxe
  obtain ⟨hlt, hget⟩ := List.getElem?_eq_some_iff.mp hx
  have hfind : st.connections.findIdx? (fun x => x.fd == st.nativeHandle c && x.isOpen) =
      some c := by
    rw [List.findIdx?_eq_some_iff_getElem]
    refine ⟨hlt, ?_, fun d hd hmatch => ?_⟩
    · rw [hget, hhandle]
      simpa using hopen
    · have hdx : st.connections[d]? = some st.connections[d] := List.getElem?_eq_getElem _
      simp only [Bool.and_eq_true, beq_iff_eq] at hmatch
      have hde : st.book.table[d]? = some ⟨st.connections[d].fd, st.connections[d].isOpen,
          st.connections[d].session.isSome⟩ := by
        simp [book, hdx]
      have hdc := h.distinct d c _ _ hde he hmatch.2 hopen (hmatch.1.trans hhandle)
      omega
  have htable := table_modify st (fun x => { x with isOpen := false }) hx
  simp only [closeNumber, hfind]
  simp only [book] at htable ⊢
  rw [htable]

theorem handleAccept_adopts {st : TcpServer} {clientFd : Fd} {c : Nat}
    (h : st.connections.findIdx? (fun x => x.fd == clientFd && x.session.isNone) = some c) :
    ∃ isOpen, st.book.table[c]? = some ⟨clientFd, isOpen, false⟩ ∧
      (st.handleAccept clientFd).1.book = { st.book with
        sessions := st.sessions.insert clientFd c
        table := st.book.table.set c ⟨clientFd, isOpen, true⟩
        tasks := st.tasks ++ [.onAccept c] } := by
  obtain ⟨hlt, hmatch, -⟩ := List.findIdx?_eq_some_iff_getElem.mp h
  have hx : st.connections[c]? = some st.connections[c] := List.getElem?_eq_getElem hlt
  simp only [Bool.and_eq_true, beq_iff_eq, Option.isNone_iff_eq_none] at hmatch
  have htable := table_modify st (fun x => { x with session := some .empty }) hx
  refine ⟨st.connections[c].isOpen, by simp [book, hlt, hmatch], ?_⟩
  simp only [handleAccept, h]
  simp only [book] at htable ⊢
  rw [htable]
  simp [hmatch.1]

end TcpServer

/-- `Disconnect` finds no session to close, and `HandleConnectionClose` is not
asked to close one after `Stop`. -/
def endsOnce (s : Loop TcpOp TcpCode TcpServer) : LoopAct TcpCode → Bool
  | .frame _ =>
      match s.stack with
      | .call (.code (.disconnect c)) :: _ =>
          !(s.state.isRunning && (s.state.sessions.lookup (s.state.nativeHandle c)).isSome)
      | .call (.code (.handleConnectionClose _ true _)) :: _ => s.state.isRunning
      | _ => true
  | _ => true

structure Balanced (s : Loop TcpOp TcpCode TcpServer) : Prop where
  sound : s.Sound
  ledger : Ledger s.state.book (pending s)

namespace Balanced

variable {s : Loop TcpOp TcpCode TcpServer}

theorem kernel (h : Balanced s) {k : Nat} {result : Int} {q : Sqe TcpOp} {st : TcpServer}
    (hq : s.manager.inflight[k]? = some q) (hst : TcpServer.kernel s.state q.op result = some st) :
    Ledger st.book (pending ⟨{ s.manager with inflight := s.manager.inflight.eraseIdx k },
      s.cq ++ [(q, result)], s.stack, st⟩) := by
  have hm := moved_kernel (s := s) result st hq
  cases hop : q.op with
  | accept =>
    simp only [hop, TcpServer.kernel] at hst
    split at hst
    · rename_i hneg
      cases hst
      simp only [hop, TcpOp.tag, TcpOp.doneTag, Int.not_le.mpr hneg, if_false] at hm
      exact h.ledger.of_moved_self hm
    · rename_i hpos
      split at hst
      · cases hst
      · rename_i htaken
        cases hst
        simp only [hop, TcpOp.tag, TcpOp.doneTag, Int.not_lt.mp hpos, if_true] at hm
        have hledger := h.ledger.accept result ?_ hm
        · simpa [TcpServer.book] using hledger
        · rintro c e he hopen rfl
          simp only [TcpServer.book, List.getElem?_map, Option.map_eq_some_iff] at he
          obtain ⟨x, hx, rfl⟩ := he
          refine htaken ?_
          have hany : s.state.connections.any (fun y => y.fd == x.fd && y.isOpen) = true :=
            List.any_eq_true.mpr ⟨x, List.mem_of_getElem? hx, by simpa using hopen⟩
          simp [TcpServer.taken, hany]
  | close c =>
    simp only [hop, TcpServer.kernel, Option.some.injEq] at hst
    have hpos : 0 < pending s (.closing c) := pending_pos_of_inflight hq (by rw [hop]; rfl)
    rw [hop] at hm
    subst hst
    split
    · obtain ⟨e, he, hbook⟩ := TcpServer.closeNumber_book h.ledger hpos
      rename_i hclosed
      simp only [hclosed, if_true] at hm
      rw [hbook]
      exact h.ledger.closeNumber he hpos hm
    · rename_i hclosed
      simp only [hclosed] at hm
      exact h.ledger.closeDropped hm
  | closeDisconnected c =>
    have hpos : 0 < pending s (.disconnecting) := pending_pos_of_inflight hq (by rw [hop]; rfl)
    have hzero := h.ledger.disconnecting
    omega
  | closeListener =>
    simp only [hop, TcpServer.kernel, Option.some.injEq] at hst
    rw [hop] at hm
    subst hst
    split <;> exact h.ledger.of_moved_self hm
  | read c | write c | other =>
    simp only [hop, TcpServer.kernel, Option.some.injEq] at hst
    subst hst
    rw [hop] at hm
    exact h.ledger.of_moved_self hm

theorem writeNext_tags (c : Nat) (next : WriteNext) :
    (TcpServer.writeNext c next).filterMap Tag.ofCall = [] := by
  cases next <;> rfl

theorem invoke (h : Balanced s) {op : TcpOp} {result : Int} {rest : List (Frame TcpOp TcpCode)}
    (hstack : s.stack = .invoke op result :: rest) :
    Ledger (s.state.callback op result).1.book (pending ⟨s.manager, s.cq,
      (s.state.callback op result).2.map .call ++ rest, (s.state.callback op result).1⟩) := by
  have hm := moved_invoke (s.state.callback op result).2 (s.state.callback op result).1 hstack
  cases op with
  | accept =>
    refine h.ledger.of_moved_eq ?_ hm
    simp only [TcpServer.callback, TcpServer.onAccepted, TcpOp.doneTag]
    split <;> rfl
  | read c =>
    have hpos : 0 < pending s (.read c) := pending_pos_of_stack hstack rfl
    by_cases hgt : 0 < result
    · simp only [TcpServer.callback, TcpServer.handleReceive, hgt, if_true] at hm ⊢
      exact h.ledger.receive hpos hm
    · by_cases hzero : result = 0
      · simp only [TcpServer.callback, TcpServer.handleReceive, hzero, if_true] at hm ⊢
        exact h.ledger.ends hm
      · simp only [TcpServer.callback, TcpServer.handleReceive, hgt, hzero, if_false] at hm ⊢
        exact h.ledger.ends hm
  | write c =>
    simp only [TcpServer.callback, TcpServer.handleStreamWriteComplete] at hm ⊢
    cases hsession : s.state.session c with
    | none =>
      simp only [hsession] at hm
      exact h.ledger.of_moved_self hm
    | some stream =>
      simp only [hsession, writeNext_tags] at hm ⊢
      rw [TcpServer.setSession_book _ hsession]
      exact h.ledger.of_moved_self hm
  | closeDisconnected c =>
    have hpos : 0 < pending s (.disconnecting) := pending_pos_of_stack hstack rfl
    have hzero := h.ledger.disconnecting
    omega
  | close | closeListener | other => exact h.ledger.of_moved_self hm

theorem code (h : Balanced s) {o : RingOutcome} {f : TcpCode} {rest : List (Frame TcpOp TcpCode)}
    (hstack : s.stack = .call (.code f) :: rest) (honce : endsOnce s (.frame o) = true) :
    Ledger (s.state.code f).1.book (pending ⟨s.manager, s.cq,
      (s.state.code f).2.map .call ++ rest, (s.state.code f).1⟩) := by
  have hm := moved_code (s.state.code f).2 (s.state.code f).1 hstack
  cases f with
  | submitAccept =>
    simp only [TcpServer.code, TcpServer.submitAccept] at hm ⊢
    split <;> simp only [*] at hm
    all_goals exact h.ledger.of_moved_self hm
  | handleAccept clientFd =>
    have hpos : 0 < pending s (.accepted clientFd) := pending_pos_of_stack hstack rfl
    rw [h.ledger.accepted, List.countP_pos_iff] at hpos
    obtain ⟨e, he, hmatch⟩ := hpos
    have hsome : (s.state.connections.findIdx?
        (fun x => x.fd == clientFd && x.session.isNone)).isSome = true := by
      rw [List.findIdx?_isSome, List.any_eq_true]
      obtain ⟨x, hx, rfl⟩ := List.mem_map.mp he
      exact ⟨x, hx, by simpa using hmatch⟩
    obtain ⟨c, hc⟩ := Option.isSome_iff_exists.mp hsome
    obtain ⟨isOpen, hfresh, hbook⟩ := TcpServer.handleAccept_adopts hc
    simp only [TcpServer.code] at hm ⊢
    rw [hbook]
    simp only [TcpServer.handleAccept, hc] at hm ⊢
    exact h.ledger.adopt hfresh hm
  | resubmitAccept result =>
    simp only [TcpServer.code, TcpServer.resubmitAccept] at hm ⊢
    split <;> simp only [*] at hm
    all_goals exact h.ledger.of_moved_self hm
  | submitRead c =>
    cases hrun : s.state.isRunning with
    | true =>
      simp only [TcpServer.code, TcpServer.submitRead, hrun, if_true] at hm ⊢
      exact h.ledger.of_moved_self hm
    | false =>
      simp only [TcpServer.code, TcpServer.submitRead, hrun] at hm ⊢
      exact h.ledger.readDropped hrun hm
  | handleConnectionClose c closeFd isError =>
    cases closeFd with
    | false =>
      have hpos : 0 < pending s (.disconnecting) := pending_pos_of_stack hstack rfl
      have hzero := h.ledger.disconnecting
      omega
    | true =>
      have hrun : s.state.isRunning = true := by simpa [endsOnce, hstack] using honce
      have hpos : 0 < pending s (.ending c) := pending_pos_of_stack hstack rfl
      obtain ⟨e, he, hadopted⟩ := h.ledger.adopted (c := c) (by omega)
      have hhandle := TcpServer.nativeHandle_of_table he
      have hlookup : s.state.sessions.lookup (s.state.nativeHandle c) = some c := by
        rw [hhandle]
        exact h.ledger.found hrun c e he (by omega)
      simp only [TcpServer.code, TcpServer.handleConnectionClose, hlookup, if_true] at hm ⊢
      rw [hhandle] at hm ⊢
      exact h.ledger.close isError hrun he hadopted hpos hm
  | closeClient c => exact h.ledger.hand (pending_pos_of_stack hstack rfl) hm
  | directClose c =>
    have hpos : 0 < pending s (.closing c) := pending_pos_of_stack hstack rfl
    obtain ⟨e, he, hbook⟩ := TcpServer.closeNumber_book h.ledger hpos
    simp only [TcpServer.code] at hm ⊢
    rw [hbook]
    exact h.ledger.closeNumber he hpos hm
  | disconnect c =>
    simp only [endsOnce, hstack] at honce
    cases hrun : s.state.isRunning with
    | false =>
      simp only [TcpServer.code, TcpServer.disconnect, hrun] at hm ⊢
      exact h.ledger.of_moved_self hm
    | true =>
      cases hlookup : s.state.sessions.lookup (s.state.nativeHandle c) with
      | none =>
        simp only [TcpServer.code, TcpServer.disconnect, hrun, hlookup] at hm ⊢
        exact h.ledger.of_moved_self hm
      | some d => simp [hrun, hlookup] at honce
  | stop =>
    cases hrun : s.state.isRunning with
    | false =>
      simp only [TcpServer.code, TcpServer.stop, hrun] at hm ⊢
      exact h.ledger.of_moved_self hm
    | true =>
      simp only [TcpServer.code, TcpServer.stop, hrun, if_true] at hm ⊢
      refine h.ledger.stop hrun (Eq.mp (congrArg (Moved _ _ _) ?_) hm)
      split <;> rfl
  | closeSessions =>
    refine h.ledger.closeSessions (pending_pos_of_stack hstack rfl)
      (Eq.mp (congrArg (Moved _ _ _) ?_) hm)
    simp only [TcpServer.code, TcpServer.closeSessions, List.filterMap_append, List.filterMap_map]
    exact congrArg (· ++ [Tag.clearing]) (congrFun List.filterMap_eq_map _)
  | clearSessions => exact h.ledger.clear (pending_pos_of_stack hstack rfl) hm
  | directCloseListener => exact h.ledger.of_moved_self hm
  | send c buffer =>
    simp only [TcpServer.code] at hm ⊢
    refine h.ledger.of_moved_eq ?_ hm
    split <;> rfl
  | queueStreamWrite c buffer =>
    simp only [TcpServer.code, TcpServer.queueStreamWrite] at hm ⊢
    cases hsession : s.state.session c with
    | none =>
      simp only [hsession] at hm
      exact h.ledger.of_moved_self hm
    | some stream =>
      simp only [hsession, writeNext_tags] at hm ⊢
      rw [TcpServer.setSession_book _ hsession]
      exact h.ledger.of_moved_self hm
  | submitNextStreamWrite c =>
    simp only [TcpServer.code, TcpServer.submitNextStreamWrite] at hm ⊢
    cases hsession : s.state.session c with
    | none =>
      simp only [hsession] at hm
      exact h.ledger.of_moved_self hm
    | some stream =>
      simp only [hsession] at hm ⊢
      rw [TcpServer.setSession_book _ hsession]
      refine h.ledger.of_moved_eq ?_ hm
      split <;> rfl
  | failStreamWrite c =>
    simp only [TcpServer.code, TcpServer.failStreamWrite] at hm ⊢
    cases hsession : s.state.session c with
    | none =>
      simp only [hsession] at hm
      exact h.ledger.of_moved_self hm
    | some stream =>
      simp only [hsession] at hm ⊢
      rw [TcpServer.setSession_book _ hsession]
      exact h.ledger.of_moved_self hm
  | other type fd => exact h.ledger.of_moved_self hm

theorem refused (h : Balanced s) {m : Manager TcpOp} {type : RequestType} {fd : Fd} {op : TcpOp}
    {error : Int} {r : Option Nat} {rest : List (Frame TcpOp TcpCode)}
    (hstack : s.stack = .call (.submit type fd op) :: rest)
    (herror : error = -ESHUTDOWN ∨ error = -ENOMEM)
    (hinflight : m.inflight = s.manager.inflight) :
    Ledger s.state.book (pending ⟨m, s.cq,
      Loop.failFrames TcpServer.component op error r ++ rest, s.state⟩) := by
  have hm := moved_refused error r hstack hinflight
  cases op with
  | accept =>
    have hneg : ¬ 0 ≤ error := by
      rcases herror with rfl | rfl <;> decide
    simp only [TcpOp.tag, TcpOp.doneTag, hneg, if_false] at hm
    exact h.ledger.of_moved_self hm
  | closeDisconnected c =>
    have hpos : 0 < pending s (.disconnecting) := pending_pos_of_stack hstack rfl
    have hzero := h.ledger.disconnecting
    omega
  | read | write | close | closeListener | other => exact h.ledger.of_moved_self hm

theorem step {s' : Loop TcpOp TcpCode TcpServer} {a : LoopAct TcpCode} (h : Balanced s)
    (ha : a.Succeeds) (honce : endsOnce s a = true)
    (hs : s.step TcpServer.component a = some s') : Balanced s' := by
  obtain ⟨hmoves, hsound⟩ := Loop.step_moves h.sound ha hs
  refine ⟨hsound, ?_⟩
  cases hmoves with
  | kernel hq hst hm =>
    subst hm
    exact h.kernel hq hst
  | worker hstack hcq => exact h.ledger.of_moved_self (moved_worker hstack hcq)
  | @call f hapi =>
    have hm := moved_call (s := s) f
    cases f with
    | send | stop | other => exact h.ledger.of_moved_self hm
    | _ => cases hapi
  | invoke hstack => exact h.invoke hstack
  | @putRequest o r rest hstack =>
    have heq : pending ⟨s.manager.putRequest r, s.cq, rest, s.state⟩ = pending s :=
      funext fun tag => tag.tally.count_putRequest hstack
    rw [heq]
    exact h.ledger
  | code hstack => exact h.code hstack honce
  | accepted hstack hsubmit hinflight =>
    exact h.ledger.of_moved_self (moved_accepted hstack hinflight)
  | refused hstack hsubmit herror hinflight => exact h.refused hstack herror hinflight

theorem of_started (hs : AcceptStarted .accept .other TcpServer.initialised s) : Balanced s := by
  obtain ⟨hsound, hstack, ⟨fd, hstate⟩, hinflight, hcq⟩ := hs.underWay TcpServer.component
  refine ⟨hsound, ?_⟩
  have hzero : ∀ tag, pending s tag = 0 := by
    intro tag
    have hkernel : s.manager.inflight.countP (fun q => tag.tally.flight q.op) = 0 := by
      rw [List.countP_eq_zero]
      intro q hq
      obtain hop | hop := hinflight q hq <;> simp [hop, Tag.tally, TcpOp.tag]
    have hposted : s.cq.countP (fun c => tag.tally.posted c.1.op c.2) = 0 := by
      rw [List.countP_eq_zero]
      intro c hc
      simp [hcq c hc, Tag.tally, TcpOp.doneTag]
    simp only [pending, Tally.count, hstack, hkernel, hposted, List.countP_nil]
  rw [show pending s = fun _ => 0 from funext hzero, hstate]
  exact Ledger.empty true

end Balanced

/-- Each connection is handed to close at most once, no close and no removal of a
session hits another connection than the one it was issued for, and no session
hears of data or of its close after its close. -/
structure ClosedOnce (st : TcpServer) : Prop where
  handedOnce : ∀ c, st.handed.count c ≤ 1
  ownNumber : ∀ p ∈ st.hits, p.1 = p.2
  orderly : Orderly st.tasks

theorem Balanced.closedOnce {s : Loop TcpOp TcpCode TcpServer} (h : Balanced s) :
    ClosedOnce s.state where
  handedOnce c := by
    have honce : pending s (.handing c) + s.state.handed.count c ≤ 1 := h.ledger.once c
    omega
  ownNumber := h.ledger.hits
  orderly := h.ledger.orderly

theorem closedOnce_of_endsOnce {s t : Loop TcpOp TcpCode TcpServer} {as : List (LoopAct TcpCode)}
    (hs : AcceptStarted .accept .other TcpServer.initialised s) (hsubmit : ∀ a ∈ as, a.Succeeds)
    (hrun : TcpServer.machine.run s as = some t)
    (honce : TcpServer.machine.Every (fun s a _ => endsOnce s a = true) s as) :
    ClosedOnce t.state := by
  have hboth := TcpServer.machine.every_and hsubmit honce
  have hbalanced : Balanced t := TcpServer.machine.run_invariant_of_every (I := Balanced)
    (fun _ _ _ hI hstep hC => hI.step hC.1 hC.2 hstep) (Balanced.of_started hs) hboth hrun
  exact hbalanced.closedOnce

def acceptThenClose : List (LoopAct TcpCode) :=
  acceptFive ++ [.kernel 0 0, .worker] ++ List.replicate 5 (.frame (.submit 1)) ++ [.kernel 1 0]

theorem closedOnce_of_endsOnce_peerCloses :
    ∃ t, TcpServer.machine.run (listeningOnThree .accept .initialised 3) acceptThenClose = some t ∧
      t.state.handed = [0] ∧ ClosedOnce t.state := by
  have hrun : TcpServer.machine.run (listeningOnThree .accept .initialised 3) acceptThenClose =
      some _ := rfl
  exact ⟨_, hrun, rfl, closedOnce_of_endsOnce (listeningOnThree_started _ _ _ (by decide))
    (by simp [acceptThenClose, acceptFive, LoopAct.Succeeds, RingOutcome.Succeeds]) hrun
    (TcpServer.machine.every_of_check rfl)⟩

/-- A write fails with `EPIPE` while a read is under way; the close that `Disconnect`
submits completes, and then the read returns zero. -/
def failedWrite : List (LoopAct TcpCode) :=
  acceptFive ++ [.call (.send 0 [7])] ++ List.replicate 4 (.frame (.submit 1)) ++
    [.kernel 2 (-32), .worker] ++ List.replicate 5 (.frame (.submit 1)) ++
    [.kernel 2 0, .worker] ++ List.replicate 3 (.frame (.submit 1)) ++
    [.kernel 0 0, .worker] ++ List.replicate 5 (.frame (.submit 1))

theorem failedWrite_closes_twice :
    ¬ ∀ s t as, AcceptStarted .accept .other TcpServer.initialised s → (∀ a ∈ as, a.Succeeds) →
      TcpServer.machine.run s as = some t → ClosedOnce t.state := by
  intro hclosed
  have hrun : TcpServer.machine.run (listeningOnThree .accept .initialised 8) failedWrite =
      some _ := rfl
  have honce := hclosed _ _ _ (listeningOnThree_started _ _ _ (by decide))
    (by simp [failedWrite, acceptFive, LoopAct.Succeeds, RingOutcome.Succeeds]) hrun
  exact absurd (honce.handedOnce 0) (by decide)

end Lmnet.IoUring
