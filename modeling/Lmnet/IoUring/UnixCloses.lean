import Lmnet.IoUring.AcceptChain

/-!
The closes of the Unix server. Each operation and each call is followed with the connection
it is made for: a session's own code is for that session, a read for the connection that has
the number when the read is submitted, and `Stop` closes every session that it finds.
-/

set_option autoImplicit false

namespace Lmnet.IoUring

structure For (α : Type) where
  what : α
  conn : Option Nat
  deriving DecidableEq, Repr

def holder (numbers : List Fd) (fd : Fd) : Option Nat :=
  ((numbers.zipIdx.filter fun p => p.1 == fd).getLast?).map Prod.snd

/-- The server, the numbers of accepted sockets that are open, and the connections that were
handed to close. `hits` are the closes carried out: for which connection, and which one had
been given the number last. -/
structure ClosingServer where
  server : UnixServer
  opened : List Fd
  handed : List Nat
  hits : List (Nat × Option Nat)

def UnixServer.numbers (st : UnixServer) : List Fd := st.accepted.map UnixSession.nativeHandle

namespace ClosingServer

def initialised (fd : Fd) : ClosingServer := ⟨.initialised fd, [], [], []⟩

def mark (conn : Option Nat) : Call UnixOp UnixCode → Call (For UnixOp) (For UnixCode)
  | .submit type fd op => .submit type fd ⟨op, conn⟩
  | .code f => .code ⟨f, conn⟩

def connOf (st : UnixServer) (f : For UnixCode) : Option Nat :=
  match f.what with
  | .submitRead clientFd => holder st.numbers clientFd
  | .send c _ | .sendUnixMessage c _ | .queueStreamWrite c _ _ | .submitNextStreamWrite c _
  | .failStreamWrite c => some c
  | _ => f.conn

def closeNumber (st : ClosingServer) (c : Nat) : ClosingServer :=
  match st.server.numbers[c]? with
  | none => st
  | some fd =>
      if fd ∈ st.opened then
        { st with
          opened := st.opened.erase fd
          hits := st.hits ++ [(c, holder st.server.numbers fd)] }
      else st

def closeFor (st : ClosingServer) : Option Nat → ClosingServer
  | none => st
  | some c => st.closeNumber c

def code (st : ClosingServer) (f : For UnixCode) :
    ClosingServer × List (Call (For UnixOp) (For UnixCode)) :=
  let (server, calls) := st.server.code f.what
  match f.what with
  | .handleConnectionClose _ =>
      ({ st with server := server, handed := st.handed ++ f.conn.toList },
        calls.map (mark f.conn))
  | .directClose => (st.closeFor f.conn, [])
  | .stop =>
      let closes := if st.server.isRunning then st.server.sessions.entries.map Sigma.snd else []
      ({ st with server := server, handed := st.handed ++ closes },
        -- the last one is the listening socket
        calls.zipWith (fun call conn => mark conn call) (closes.map some ++ [none]))
  | _ => ({ st with server := server }, calls.map (mark (connOf st.server f)))

def callback (st : ClosingServer) (op : For UnixOp) (result : Int) :
    ClosingServer × List (Call (For UnixOp) (For UnixCode)) :=
  let (server, calls) := st.server.callback op.what result
  ({ st with server := server }, calls.map (mark op.conn))

def kernel (st : ClosingServer) (op : For UnixOp) (result : Int) : Option ClosingServer :=
  match op.what with
  | .accept =>
      if result < 0 then some st
      else if result ∈ st.opened then none
      else some { st with opened := result :: st.opened }
  | .close => some (if TcpServer.closed result then st.closeFor op.conn else st)
  | .recvMsg _ | .write _ _ | .sendMsg _ _ | .other => some st

def component : Component (For UnixOp) (For UnixCode) ClosingServer where
  callback := callback
  onFail op := (UnixServer.onFail op.what).map (⟨·, op.conn⟩)
  code := code
  kernel := kernel
  api f := UnixServer.api f.what

abbrev ClosingLoop := Loop (For UnixOp) (For UnixCode) ClosingServer

def machine : Machine ClosingLoop (LoopAct (For UnixCode)) :=
  component.machine (AcceptStarted ⟨.accept, none⟩ ⟨.other, none⟩ initialised)

/-- Each connection is handed to close at most once, and no close that was for a connection
hit a newer one with its number. -/
structure ClosesOnce (st : ClosingServer) : Prop where
  once : ∀ c, st.handed.count c ≤ 1
  own : ∀ p ∈ st.hits, p.2 = some p.1

/-- Where `HandleConnectionClose` is called for a connection, `sessions_` still has the
session of that connection. -/
def FindsOwn (s : ClosingLoop) : LoopAct (For UnixCode) → Prop
  | .frame _ => ∀ clientFd c rest,
      s.stack = .call (.code ⟨.handleConnectionClose clientFd, some c⟩) :: rest →
        s.state.server.sessions.lookup clientFd = some c
  | _ => True

end ClosingServer

theorem holder_concat (numbers : List Fd) (fd x : Fd) :
    holder (numbers ++ [x]) fd = if x = fd then some numbers.length else holder numbers fd := by
  simp only [holder, List.zipIdx_append, List.filter_append, List.zipIdx_singleton]
  by_cases hx : x = fd <;> simp [hx]

theorem getElem?_of_holder {numbers : List Fd} {fd : Fd} {c : Nat}
    (h : holder numbers fd = some c) : numbers[c]? = some fd := by
  obtain ⟨⟨x, d⟩, hlast, rfl⟩ := Option.map_eq_some_iff.mp h
  obtain ⟨hmem, hx⟩ := List.mem_filter.mp (List.mem_of_getLast? hlast)
  have hget := List.mem_zipIdx_iff_getElem?.mp hmem
  rwa [beq_iff_eq.mp hx] at hget

theorem exists_holder {numbers : List Fd} {fd : Fd} {c : Nat} (h : numbers[c]? = some fd) :
    ∃ d, holder numbers fd = some d := by
  have hmem : (fd, c) ∈ numbers.zipIdx.filter fun p => p.1 == fd :=
    List.mem_filter.mpr ⟨List.mem_zipIdx_iff_getElem?.mpr h, by simp⟩
  obtain ⟨p, hp⟩ := Option.isSome_iff_exists.mp
    (List.getLast?_isSome.mpr (List.ne_nil_of_mem hmem))
  exact ⟨p.2, congrArg (Option.map Prod.snd) hp⟩

namespace UnixServer

def quiet : UnixCode → Bool
  | .handleAccept _ | .handleConnectionClose _ | .directClose | .stop => false
  | _ => true

def plain : Call UnixOp UnixCode → Bool
  | .submit _ _ op => op != .close
  | .code (.handleAccept _) | .code .directClose => false
  | .code _ => true

theorem numbers_modify (accepted : List UnixSession) (c : Nat) {g : UnixSession → UnixSession}
    (hg : ∀ x, (g x).nativeHandle = x.nativeHandle) :
    (accepted.modify c g).map UnixSession.nativeHandle =
      accepted.map UnixSession.nativeHandle := by
  apply List.ext_getElem?
  intro d
  rw [List.getElem?_map, List.getElem?_map, List.getElem?_modify]
  split
  · simp [Function.comp_def, hg]
  · simp

theorem setStream_numbers (st : UnixServer) (c : Nat) (stream : Stream) :
    (st.setStream c stream).numbers = st.numbers :=
  numbers_modify _ _ fun _ => rfl

def Named (numbers : List Fd) (fd : Fd) (conn : Option Nat) : Prop :=
  ∃ c, conn = some c ∧ numbers[c]? = some fd

def OpNamed (numbers : List Fd) (op : For UnixOp) : Prop :=
  match op.what with
  | .recvMsg clientFd => Named numbers clientFd op.conn
  | _ => True

def CodeNamed (numbers : List Fd) (f : For UnixCode) : Prop :=
  match f.what with
  | .handleConnectionClose clientFd => Named numbers clientFd f.conn
  | .submitRead clientFd => clientFd ∈ numbers
  | _ => True

def CallNamed (numbers : List Fd) (conn : Option Nat) : Call UnixOp UnixCode → Prop
  | .submit _ _ op => OpNamed numbers ⟨op, conn⟩
  | .code f => CodeNamed numbers ⟨f, conn⟩

theorem writeNext_plain (numbers : List Fd) (conn : Option Nat) (c : Nat) (again : Bool)
    (next : WriteNext) :
    ∀ call ∈ writeNext c again next, plain call = true ∧ CallNamed numbers conn call := by
  cases next <;> simp [writeNext, plain, CallNamed, CodeNamed]

/-- What quiet code leaves as it was, and what it calls. -/
theorem code_quiet (st : UnixServer) {f : For UnixCode} (h : quiet f.what = true)
    (hf : CodeNamed st.numbers f) :
    (st.code f.what).1.numbers = st.numbers ∧ (st.code f.what).1.sessions = st.sessions ∧
      ∀ call ∈ (st.code f.what).2,
        plain call = true ∧ CallNamed st.numbers (ClosingServer.connOf st f) call := by
  obtain ⟨f, conn⟩ := f
  cases f with
  | submitAccept =>
    refine ⟨rfl, rfl, fun call hcall => ?_⟩
    simp only [code, submitAccept] at hcall
    split at hcall <;> simp at hcall
    subst hcall
    exact ⟨rfl, trivial⟩
  | handleAccept | handleConnectionClose | directClose | stop => cases h
  | resubmitAccept result =>
    refine ⟨rfl, rfl, fun call hcall => ?_⟩
    simp only [code, resubmitAccept] at hcall
    split at hcall <;> simp at hcall
    subst hcall
    exact ⟨rfl, trivial⟩
  | submitRead clientFd =>
    refine ⟨rfl, rfl, fun call hcall => ?_⟩
    simp only [code, submitRead] at hcall
    split at hcall <;> simp at hcall
    subst hcall
    obtain ⟨c, hc⟩ := List.mem_iff_getElem?.mp hf
    obtain ⟨d, hd⟩ := exists_holder hc
    exact ⟨rfl, d, hd, getElem?_of_holder hd⟩
  | send c buffer =>
    refine ⟨rfl, rfl, fun call hcall => ?_⟩
    simp only [code] at hcall
    split at hcall <;> simp at hcall
    subst hcall
    exact ⟨rfl, trivial⟩
  | sendUnixMessage c buffer =>
    refine ⟨rfl, rfl, fun call hcall => ?_⟩
    simp only [code, sendUnixMessage] at hcall
    split at hcall <;> simp at hcall
    subst hcall
    exact ⟨rfl, trivial⟩
  | queueStreamWrite c buffer again =>
    simp only [code, queueStreamWrite]
    split
    · exact ⟨rfl, rfl, by simp⟩
    · exact ⟨setStream_numbers st c _, rfl, writeNext_plain _ _ c again _⟩
  | submitNextStreamWrite c again =>
    simp only [code, submitNextStreamWrite]
    split
    · exact ⟨rfl, rfl, by simp⟩
    · refine ⟨setStream_numbers st c _, rfl, fun call hcall => ?_⟩
      split at hcall <;> simp at hcall
      subst hcall
      exact ⟨rfl, trivial⟩
  | failStreamWrite c =>
    simp only [code, failStreamWrite]
    split
    · exact ⟨rfl, rfl, by simp⟩
    · rename_i x hx
      refine ⟨setStream_numbers st c _, rfl, fun call hcall => ?_⟩
      obtain rfl := List.mem_singleton.mp hcall
      exact ⟨rfl, c, rfl, by simp [numbers, hx]⟩
  | expire c => exact ⟨numbers_modify _ _ fun _ => rfl, rfl, by simp [code]⟩
  | other type fd => exact ⟨rfl, rfl, by simp [code, plain, CallNamed, OpNamed]⟩

theorem receive_named {st : UnixServer} {clientFd : Fd} {conn : Option Nat}
    (h : Named st.numbers clientFd conn) {f : UnixCode}
    (hf : f = .submitRead clientFd ∨ f = .handleConnectionClose clientFd) :
    plain (.code f) = true ∧ CallNamed st.numbers conn (.code f) := by
  obtain ⟨c, rfl, hc⟩ := h
  obtain rfl | rfl := hf
  · exact ⟨rfl, List.mem_of_getElem? hc⟩
  · exact ⟨rfl, c, rfl, hc⟩

theorem callback_quiet (st : UnixServer) (op : For UnixOp) (result : Int)
    (hop : OpNamed st.numbers op) :
    (st.callback op.what result).1.numbers = st.numbers ∧
      (st.callback op.what result).1.sessions = st.sessions ∧
      (op.what ≠ .accept → ∀ call ∈ (st.callback op.what result).2,
        plain call = true ∧ CallNamed st.numbers op.conn call) := by
  obtain ⟨op, conn⟩ := op
  cases op with
  | accept => exact ⟨rfl, rfl, fun h => absurd rfl h⟩
  | recvMsg clientFd =>
    have hread := receive_named hop (.inl rfl)
    have hend := receive_named hop (.inr rfl)
    simp only [callback, handleReceiveWithFds]
    split
    · exact ⟨rfl, rfl, by simp⟩
    · split
      · exact ⟨rfl, rfl, fun _ => by simpa using hread⟩
      · split
        · exact ⟨rfl, rfl, fun _ => by simpa using hend⟩
        · split
          · exact ⟨rfl, rfl, fun _ => by simpa using hread⟩
          · split
            · exact ⟨rfl, rfl, fun _ => by simpa using hend⟩
            · exact ⟨rfl, rfl, by simp⟩
  | write c again =>
    simp only [callback, handleStreamWriteComplete]
    split
    · exact ⟨rfl, rfl, by simp⟩
    · exact ⟨setStream_numbers st c _, rfl, fun _ => writeNext_plain _ _ c false _⟩
  | sendMsg c buffer =>
    simp only [callback, sendMsgComplete]
    split
    · exact ⟨rfl, rfl, by simp⟩
    · split
      · exact ⟨rfl, rfl, by simp⟩
      · split
        · exact ⟨rfl, rfl, by simp [plain, CallNamed, CodeNamed]⟩
        · split <;> exact ⟨rfl, rfl, by simp [plain, CallNamed, CodeNamed]⟩
  | close | other => exact ⟨rfl, rfl, by simp [callback]⟩

end UnixServer

namespace ClosingServer

/-- What is known of the connections, with the accepts of each number that the server has
still to take in and the closes of each connection that are still to be carried out. -/
structure Accounts (st : ClosingServer) (accepting : Fd → Nat) (closing : Nat → Nat) : Prop where
  once : ∀ c, st.handed.count c ≤ 1
  closing_le : ∀ c, closing c ≤ st.handed.count c
  adopted : ∀ c ∈ st.handed, c < st.server.numbers.length
  session : ∀ fd c, st.server.sessions.lookup fd = some c ↔
    st.server.numbers[c]? = some fd ∧ c ∉ st.handed
  accepting_le : ∀ fd, 0 ≤ fd → accepting fd ≤ 1
  arriving : ∀ fd, 0 ≤ fd → 0 < accepting fd → fd ∈ st.opened ∧
    ∀ c, st.server.numbers[c]? = some fd → c ∈ st.handed ∧ closing c = 0
  holds : ∀ c fd, st.server.numbers[c]? = some fd → c ∉ st.handed ∨ 0 < closing c →
    fd ∈ st.opened ∧ holder st.server.numbers fd = some c
  own : ∀ p ∈ st.hits, p.2 = some p.1

namespace Accounts

variable {st : ClosingServer} {accepting accepting' : Fd → Nat} {closing closing' : Nat → Nat}

theorem server (h : Accounts st accepting closing) {server : UnixServer}
    (hnumbers : server.numbers = st.server.numbers)
    (hsessions : server.sessions = st.server.sessions) :
    Accounts { st with server := server } accepting closing :=
  ⟨h.once, h.closing_le, hnumbers ▸ h.adopted, hnumbers ▸ hsessions ▸ h.session, h.accepting_le,
    hnumbers ▸ h.arriving, hnumbers ▸ h.holds, h.own⟩

theorem accept (h : Accounts st accepting closing) {fd : Fd} (hfree : fd ∉ st.opened)
    (hmoved : ∀ x, accepting' x = accepting x + if fd = x then 1 else 0) :
    Accounts { st with opened := fd :: st.opened } accepting' closing := by
  have hnone : 0 ≤ fd → accepting fd = 0 := fun hfd => by
    by_contra hpos
    exact hfree (h.arriving fd hfd (by omega)).1
  refine { h with accepting_le := ?_, arriving := ?_, holds := ?_ }
  · intro x hx
    rw [hmoved x]
    have hle := h.accepting_le x hx
    split
    · rename_i hfd
      have hzero := hnone (hfd ▸ hx)
      rw [← hfd]
      omega
    · exact hle
  · intro x hx hpos
    rw [hmoved x] at hpos
    by_cases hfd : fd = x
    · subst hfd
      refine ⟨List.mem_cons_self, fun c hc => ?_⟩
      by_contra hlive
      refine hfree (h.holds c fd hc ?_).1
      by_cases hhanded : c ∈ st.handed
      · exact .inr (Nat.pos_of_ne_zero fun hzero => hlive ⟨hhanded, hzero⟩)
      · exact .inl hhanded
    · obtain ⟨hopened, hother⟩ := h.arriving x hx (by simpa [hfd] using hpos)
      exact ⟨List.mem_cons_of_mem _ hopened, hother⟩
  · intro c x hc hlive
    obtain ⟨hopened, hholder⟩ := h.holds c x hc hlive
    exact ⟨List.mem_cons_of_mem _ hopened, hholder⟩

theorem adopt (h : Accounts st accepting closing) {fd : Fd} {server : UnixServer} (hfd : 0 ≤ fd)
    (hnumbers : server.numbers = st.server.numbers ++ [fd])
    (hsessions : server.sessions = st.server.sessions.insert fd st.server.numbers.length)
    (hmoved : ∀ x, accepting' x + (if fd = x then 1 else 0) = accepting x) :
    Accounts { st with server := server } accepting' closing := by
  have hpos : 0 < accepting fd := by
    have hfd := hmoved fd
    rw [if_pos rfl] at hfd
    omega
  obtain ⟨hopened, hgone⟩ := h.arriving fd hfd hpos
  have hone := h.accepting_le fd hfd
  have hfresh : st.server.numbers.length ∉ st.handed := fun hmem =>
    Nat.lt_irrefl _ (h.adopted _ hmem)
  have hsplit : ∀ (c : Nat) (x : Fd), server.numbers[c]? = some x →
      st.server.numbers[c]? = some x ∨ (c = st.server.numbers.length ∧ x = fd) := by
    intro c x hc
    rw [hnumbers] at hc
    exact List.getElem?_concat_some hc
  have hkept : ∀ {c : Nat} {x : Fd}, st.server.numbers[c]? = some x →
      server.numbers[c]? = some x := by
    intro c x hc
    rw [hnumbers, List.getElem?_append_left (List.getElem?_eq_some_iff.mp hc).1]
    exact hc
  refine { h with adopted := ?_, session := ?_, accepting_le := ?_, arriving := ?_, holds := ?_ }
  · intro c hc
    have hlt := h.adopted c hc
    simp only [hnumbers, List.length_append, List.length_singleton]
    omega
  · intro x c
    simp only [hsessions]
    by_cases hx : x = fd
    · subst hx
      rw [AList.lookup_insert]
      constructor
      · intro hc
        obtain rfl := Option.some.inj hc
        exact ⟨by simp [hnumbers], hfresh⟩
      · rintro ⟨hc, hhanded⟩
        obtain hc | ⟨rfl, -⟩ := hsplit c x hc
        · exact absurd (hgone c hc).1 hhanded
        · rfl
    · rw [AList.lookup_insert_ne hx, h.session]
      refine and_congr_left fun _ => ⟨hkept, fun hc => ?_⟩
      obtain hc | ⟨-, hfd'⟩ := hsplit c x hc
      · exact hc
      · exact absurd hfd' hx
  · intro x hx
    have hle := h.accepting_le x hx
    have hx := hmoved x
    omega
  · intro x hx hpos'
    have hx' := hmoved x
    have hne : fd ≠ x := by
      rintro rfl
      rw [if_pos rfl] at hx'
      omega
    rw [if_neg hne] at hx'
    obtain ⟨hopened', hother⟩ := h.arriving x hx (by omega)
    refine ⟨hopened', fun c hc => ?_⟩
    obtain hc | ⟨-, rfl⟩ := hsplit c x hc
    · exact hother c hc
    · exact absurd rfl hne
  · intro c x hc hlive
    simp only [hnumbers, holder_concat]
    obtain hc | ⟨rfl, rfl⟩ := hsplit c x hc
    · have hne : fd ≠ x := by
        rintro rfl
        obtain ⟨hhanded, hzero⟩ := hgone c hc
        obtain hlive | hlive := hlive
        · exact hlive hhanded
        · omega
      rw [if_neg hne]
      exact h.holds c x hc hlive
    · rw [if_pos rfl]
      exact ⟨hopened, rfl⟩

theorem hand (h : Accounts st accepting closing) {server : UnixServer} {cs : List Nat}
    (hnumbers : server.numbers = st.server.numbers) (hnodup : cs.Nodup)
    (hcs : ∀ c ∈ cs, ∃ fd, st.server.sessions.lookup fd = some c)
    (hsessions : ∀ fd c, server.sessions.lookup fd = some c ↔
      st.server.sessions.lookup fd = some c ∧ c ∉ cs)
    (hmoved : ∀ c, closing' c = closing c + cs.count c) :
    Accounts { st with server := server, handed := st.handed ++ cs } accepting closing' := by
  have hnone : ∀ c ∈ cs, c ∉ st.handed ∧ ∃ fd, st.server.numbers[c]? = some fd := by
    intro c hc
    obtain ⟨fd, hfd⟩ := hcs c hc
    obtain ⟨hnumber, hhanded⟩ := (h.session fd c).mp hfd
    exact ⟨hhanded, fd, hnumber⟩
  have hcount : ∀ c, cs.count c ≤ 1 := fun c => List.nodup_iff_count_le_one.mp hnodup c
  refine { h with
    once := ?_, closing_le := ?_, adopted := ?_, session := ?_, arriving := ?_, holds := ?_ }
  · intro c
    rw [List.count_append]
    by_cases hc : c ∈ cs
    · rw [List.count_eq_zero.mpr (hnone c hc).1, Nat.zero_add]
      exact hcount c
    · rw [List.count_eq_zero.mpr hc, Nat.add_zero]
      exact h.once c
  · intro c
    have hle := h.closing_le c
    rw [hmoved c, List.count_append]
    omega
  · intro c hc
    rw [hnumbers]
    obtain hc | hc := List.mem_append.mp hc
    · exact h.adopted c hc
    · obtain ⟨-, fd, hfd⟩ := hnone c hc
      exact (List.getElem?_eq_some_iff.mp hfd).1
  · intro fd c
    rw [hsessions, h.session, hnumbers, List.mem_append, not_or, and_assoc]
  · intro fd hfd hpos
    obtain ⟨hopened, hgone⟩ := h.arriving fd hfd hpos
    refine ⟨hopened, fun c hc => ?_⟩
    obtain ⟨hhanded, hzero⟩ := hgone c (hnumbers ▸ hc)
    refine ⟨List.mem_append_left _ hhanded, ?_⟩
    have hnot : c ∉ cs := fun hmem => (hnone c hmem).1 hhanded
    rw [hmoved c, hzero, List.count_eq_zero.mpr hnot]
  · intro c fd hc hlive
    rw [hnumbers] at hc ⊢
    refine h.holds c fd hc ?_
    by_cases hmem : c ∈ cs
    · exact .inl (hnone c hmem).1
    · rw [hmoved c, List.count_eq_zero.mpr hmem, Nat.add_zero] at hlive
      exact hlive.imp_left fun hnot hhanded => hnot (List.mem_append_left _ hhanded)

theorem drop (h : Accounts st accepting closing) {c : Nat}
    (hmoved : ∀ x, closing' x + (if c = x then 1 else 0) = closing x) :
    Accounts st accepting closing' := by
  have hle : ∀ x, closing' x ≤ closing x := fun x => by
    have hx := hmoved x
    omega
  refine { h with closing_le := ?_, arriving := ?_, holds := ?_ }
  · exact fun x => Nat.le_trans (hle x) (h.closing_le x)
  · intro fd hfd hpos
    obtain ⟨hopened, hgone⟩ := h.arriving fd hfd hpos
    refine ⟨hopened, fun x hx => ⟨(hgone x hx).1, ?_⟩⟩
    have hzero := (hgone x hx).2
    have hx := hle x
    omega
  · exact fun x fd hx hlive => h.holds x fd hx
      (hlive.imp_right fun hpos => Nat.lt_of_lt_of_le hpos (hle x))

theorem closeNumber (h : Accounts st accepting closing) {c : Nat}
    (hmoved : ∀ x, closing' x + (if c = x then 1 else 0) = closing x) :
    Accounts (st.closeNumber c) accepting closing' := by
  have hdropped := h.drop hmoved
  unfold ClosingServer.closeNumber
  split
  · exact hdropped
  · rename_i fd hfd
    split
    · have hone := h.once c
      have hle := h.closing_le c
      have hpos := hmoved c
      rw [if_pos rfl] at hpos
      have hzero : closing' c = 0 := by omega
      have hlive := h.holds c fd hfd (.inr (by omega))
      have hhanded : c ∈ st.handed := List.count_pos_iff.mp (by omega)
      refine { hdropped with arriving := ?_, holds := ?_, own := ?_ }
      · intro x hx hpos'
        obtain ⟨hopened, hgone⟩ := hdropped.arriving x hx hpos'
        refine ⟨?_, hgone⟩
        have hne : x ≠ fd := by
          rintro rfl
          have hc := (h.arriving x hx hpos').2 c hfd
          omega
        exact (List.mem_erase_of_ne hne).mpr hopened
      · intro d x hd hlive'
        obtain ⟨hopened, hholder⟩ := hdropped.holds d x hd hlive'
        refine ⟨?_, hholder⟩
        have hne : x ≠ fd := by
          rintro rfl
          obtain rfl := Option.some.inj (hlive.2.symm.trans hholder)
          obtain hnot | hpos' := hlive'
          · exact hnot hhanded
          · omega
        exact (List.mem_erase_of_ne hne).mpr hopened
      · intro p hp
        obtain hp | hp := List.mem_append.mp hp
        · exact h.own p hp
        · rw [List.mem_singleton.mp hp]
          exact hlive.2
    · exact hdropped

end Accounts

theorem Accounts.congr {st : ClosingServer} {accepting accepting' : Fd → Nat}
    {closing closing' : Nat → Nat} (h : Accounts st accepting closing)
    (haccepting : ∀ fd, 0 ≤ fd → accepting' fd = accepting fd)
    (hclosing : ∀ c, closing' c = closing c) : Accounts st accepting' closing' := by
  obtain rfl : closing' = closing := funext hclosing
  exact
    { h with
      accepting_le := fun fd hfd => haccepting fd hfd ▸ h.accepting_le fd hfd
      arriving := fun fd hfd hpos => h.arriving fd hfd (haccepting fd hfd ▸ hpos) }

def accepting (fd : Fd) : Tally (For UnixOp) (For UnixCode) where
  submit _ := false
  flight _ := false
  posted op result := decide (op.what = .accept ∧ result = fd)
  invoke op result := decide (op.what = .accept ∧ result = fd)
  code f := decide (f.what = .handleAccept fd)

def closing (c : Nat) : Tally (For UnixOp) (For UnixCode) where
  submit op := decide (op.what = .close ∧ op.conn = some c)
  flight op := decide (op.what = .close ∧ op.conn = some c)
  posted _ _ := false
  invoke _ _ := false
  code f := decide (f.what = .directClose ∧ f.conn = some c)

section Tallies

variable (fd : Fd) (c : Nat) (op : For UnixOp) (result : Int) (f : For UnixCode)

@[simp] theorem accepting_submit : (accepting fd).submit op = false := rfl
@[simp] theorem accepting_flight : (accepting fd).flight op = false := rfl
@[simp] theorem accepting_posted :
    (accepting fd).posted op result = decide (op.what = .accept ∧ result = fd) := rfl
@[simp] theorem accepting_invoke :
    (accepting fd).invoke op result = decide (op.what = .accept ∧ result = fd) := rfl
@[simp] theorem accepting_code : (accepting fd).code f = decide (f.what = .handleAccept fd) := rfl
@[simp] theorem closing_submit :
    (closing c).submit op = decide (op.what = .close ∧ op.conn = some c) := rfl
@[simp] theorem closing_flight :
    (closing c).flight op = decide (op.what = .close ∧ op.conn = some c) := rfl
@[simp] theorem closing_posted : (closing c).posted op result = false := rfl
@[simp] theorem closing_invoke : (closing c).invoke op result = false := rfl
@[simp] theorem closing_code :
    (closing c).code f = decide (f.what = .directClose ∧ f.conn = some c) := rfl

end Tallies

def opNamed (st : ClosingServer) : For UnixOp → Prop := UnixServer.OpNamed st.server.numbers

def codeNamed (st : ClosingServer) : For UnixCode → Prop := UnixServer.CodeNamed st.server.numbers

theorem grows_of_extends {st st' : ClosingServer}
    (h : st.server.numbers <+: st'.server.numbers) : Grows opNamed codeNamed st st' := by
  have hnamed : ∀ {fd conn}, UnixServer.Named st.server.numbers fd conn →
      UnixServer.Named st'.server.numbers fd conn := by
    rintro fd conn ⟨c, rfl, hc⟩
    obtain ⟨more, hmore⟩ := h
    refine ⟨c, rfl, ?_⟩
    rw [← hmore, List.getElem?_append_left (List.getElem?_eq_some_iff.mp hc).1]
    exact hc
  constructor
  · rintro ⟨op, conn⟩ hop
    cases op with
    | recvMsg => exact hnamed hop
    | _ => trivial
  · rintro ⟨f, conn⟩ hf
    cases f with
    | handleConnectionClose => exact hnamed hf
    | submitRead => exact h.subset hf
    | _ => trivial

theorem holds_mark {st : ClosingServer} {conn : Option Nat} {calls : List (Call UnixOp UnixCode)}
    (h : ∀ call ∈ calls, UnixServer.CallNamed st.server.numbers conn call) :
    ∀ c ∈ calls.map (mark conn), c.Holds (opNamed st) (codeNamed st) := by
  intro c hc
  obtain ⟨call, hcall, rfl⟩ := List.mem_map.mp hc
  have hnamed := h call hcall
  cases call <;> exact hnamed

theorem code_server (st : ClosingServer) {f : For UnixCode} (h : UnixServer.quiet f.what = true) :
    st.code f = ({ st with server := (st.server.code f.what).1 },
      (st.server.code f.what).2.map (mark (connOf st.server f))) := by
  obtain ⟨f, conn⟩ := f
  cases f with
  | handleAccept | handleConnectionClose | directClose | stop => cases h
  | _ => rfl

theorem handleAccept_numbers (st : UnixServer) {clientFd : Int} (h : 0 ≤ clientFd) :
    (st.handleAccept clientFd).1.numbers = st.numbers ++ [clientFd] := by
  simp [UnixServer.handleAccept, UnixServer.numbers, h]

theorem closeFor_server (st : ClosingServer) (conn : Option Nat) :
    (st.closeFor conn).server = st.server := by
  cases conn with
  | none => rfl
  | some c =>
    simp only [closeFor, closeNumber]
    split
    · rfl
    · split <;> rfl

theorem grows_of_server {st st' : ClosingServer} (h : st'.server = st.server) :
    Grows opNamed codeNamed st st' := grows_of_extends (h ▸ List.prefix_rfl)

theorem stop_calls (st : UnixServer) :
    ∀ call ∈ st.stop.2, ∃ fd, call = .submit .close fd .close := by
  intro call hcall
  unfold UnixServer.stop at hcall
  split at hcall
  · obtain hcall | hcall := List.mem_append.mp hcall
    · obtain ⟨e, -, rfl⟩ := List.mem_map.mp hcall
      exact ⟨e.1, rfl⟩
    · split at hcall <;> simp at hcall
      exact ⟨st.socket, hcall⟩
  · simp at hcall

theorem component_keeps : component.Keeps opNamed codeNamed where
  callback := by
    intro st op result hop
    obtain ⟨hnumbers, -, hcalls⟩ := UnixServer.callback_quiet st.server op result hop
    refine ⟨grows_of_extends (hnumbers ▸ List.prefix_rfl), ?_⟩
    by_cases haccept : op.what = .accept
    · obtain ⟨op, conn⟩ := op
      subst haccept
      simp [component, callback, UnixServer.callback, mark, Call.Holds, codeNamed,
        UnixServer.CodeNamed]
    · refine holds_mark fun call hcall => ?_
      have hnamed := (hcalls haccept call hcall).2
      rwa [← hnumbers] at hnamed
  onFail := by
    rintro st ⟨op, conn⟩ f hop hf
    obtain ⟨g, hg, rfl⟩ := List.mem_map.mp hf
    cases op with
    | close =>
      obtain rfl := List.mem_singleton.mp hg
      trivial
    | write c again =>
      obtain rfl | hg := List.mem_cons.mp hg
      · trivial
      · cases again with
        | false => cases hg
        | true =>
          obtain rfl := List.mem_singleton.mp hg
          trivial
    | accept | recvMsg | sendMsg | other => cases hg
  code := by
    intro st f hf
    by_cases hquiet : UnixServer.quiet f.what = true
    · obtain ⟨hnumbers, -, hcalls⟩ := UnixServer.code_quiet st.server hquiet hf
      rw [show component.code st f = st.code f from rfl, code_server st hquiet]
      refine ⟨grows_of_extends (hnumbers ▸ List.prefix_rfl), holds_mark fun call hcall => ?_⟩
      have hnamed := (hcalls call hcall).2
      rwa [← hnumbers] at hnamed
    · obtain ⟨f, conn⟩ := f
      cases f with
      | handleAccept clientFd =>
        by_cases hfd : 0 ≤ clientFd
        · have hnumbers := handleAccept_numbers st.server hfd
          refine ⟨grows_of_extends ⟨[clientFd], hnumbers.symm⟩, ?_⟩
          simp [component, code, UnixServer.code, UnixServer.handleAccept, hfd, mark, Call.Holds,
            codeNamed, UnixServer.CodeNamed, UnixServer.numbers]
        · refine ⟨?_, ?_⟩
          · simp only [component, code, UnixServer.code, UnixServer.handleAccept, hfd, if_false]
            exact Grows.refl st
          · simp [component, code, UnixServer.code, UnixServer.handleAccept, hfd]
      | handleConnectionClose clientFd =>
        simp only [component, code, UnixServer.code, UnixServer.handleConnectionClose]
        split <;> exact ⟨grows_of_extends List.prefix_rfl, by
          simp [mark, Call.Holds, opNamed, UnixServer.OpNamed]⟩
      | directClose =>
        exact ⟨grows_of_server (closeFor_server st conn), by simp [component, code]⟩
      | stop =>
        refine ⟨grows_of_extends ?_, ?_⟩
        · simp only [component, code, UnixServer.code, UnixServer.stop]
          split <;> exact List.prefix_rfl
        · intro c hc
          simp only [component, code, UnixServer.code, List.mem_iff_getElem?,
            List.getElem?_zipWith_eq_some] at hc
          obtain ⟨i, call, conn', hcall, -, rfl⟩ := hc
          obtain ⟨fd, rfl⟩ := stop_calls st.server call (List.mem_of_getElem? hcall)
          trivial
      | _ => exact absurd rfl hquiet
  kernel := by
    rintro st ⟨op, conn⟩ result st' hst
    cases op with
    | accept =>
      simp only [component, kernel] at hst
      split at hst
      · cases hst
        exact Grows.refl st
      · split at hst
        · cases hst
        · cases hst
          exact grows_of_extends List.prefix_rfl
    | close =>
      simp only [component, kernel, Option.some.injEq] at hst
      subst hst
      split
      · exact grows_of_server (closeFor_server st conn)
      · exact Grows.refl st
    | recvMsg | write | sendMsg | other =>
      cases hst
      exact Grows.refl st
  api := by
    rintro st ⟨f, conn⟩ hf
    cases f with
    | handleConnectionClose | submitRead => cases hf
    | _ => trivial

structure Kept (s : ClosingLoop) : Prop where
  loop : s.Sound
  named : s.Holds (opNamed s.state) (codeNamed s.state)
  accounts : Accounts s.state (fun fd => (accepting fd).count s) fun c => (closing c).count s

theorem accepting_plain (fd : Fd) (conn : Option Nat) {calls : List (Call UnixOp UnixCode)}
    (h : ∀ call ∈ calls, UnixServer.plain call = true) :
    (accepting fd).calls (calls.map (mark conn)) = 0 := by
  rw [Tally.calls, List.countP_map, List.countP_eq_zero]
  intro call hcall
  have hplain := h call hcall
  cases call with
  | submit callback onFail op => simp [mark]
  | code f => cases f <;> simp_all [mark, UnixServer.plain]

theorem closing_plain (c : Nat) (conn : Option Nat) {calls : List (Call UnixOp UnixCode)}
    (h : ∀ call ∈ calls, UnixServer.plain call = true) :
    (closing c).calls (calls.map (mark conn)) = 0 := by
  rw [Tally.calls, List.countP_map, List.countP_eq_zero]
  intro call hcall
  have hplain := h call hcall
  cases call with
  | submit callback onFail op => cases op <;> simp_all [mark, UnixServer.plain]
  | code f => cases f <;> simp_all [mark, UnixServer.plain]

namespace Kept

variable {s : ClosingLoop}

theorem kernel (h : Kept s) {k : Nat} {result : Int} {q : Sqe (For UnixOp)} {st : ClosingServer}
    (hq : s.manager.inflight[k]? = some q) (hst : s.state.kernel q.op result = some st) :
    let s' : ClosingLoop := ⟨{ s.manager with inflight := s.manager.inflight.eraseIdx k },
      s.cq ++ [(q, result)], s.stack, st⟩
    Accounts st (fun fd => (accepting fd).count s') fun c => (closing c).count s' := by
  intro s'
  have hacc : ∀ fd, (accepting fd).count s' + ((accepting fd).flight q.op).toNat =
      (accepting fd).count s + ((accepting fd).posted q.op result).toNat :=
    fun fd => (accepting fd).count_kernel result st hq
  have hclo : ∀ c, (closing c).count s' + ((closing c).flight q.op).toNat =
      (closing c).count s + ((closing c).posted q.op result).toNat :=
    fun c => (closing c).count_kernel result st hq
  clear_value s'
  obtain ⟨r, op, conn⟩ := q
  cases op with
  | accept =>
    have hclosing : ∀ c, (closing c).count s' = (closing c).count s := fun c => by
      simpa using hclo c
    simp only [ClosingServer.kernel] at hst
    split at hst
    · cases hst
      rename_i hneg
      refine h.accounts.congr (fun fd hfd => ?_) hclosing
      have hne : result ≠ fd := by
        have hzero : (0 : Int) ≤ fd := hfd
        omega
      simpa [hne] using hacc fd
    · split at hst
      · cases hst
      · cases hst
        rename_i hfree
        refine (h.accounts.accept hfree fun fd => ?_).congr (fun _ _ => rfl) hclosing
        have hcount := hacc fd
        by_cases hfd : result = fd <;> simpa [hfd] using hcount
  | close =>
    have haccepting : ∀ fd, (accepting fd).count s' = (accepting fd).count s := fun fd => by
      simpa using hacc fd
    cases conn with
    | none =>
      have hsame : st = s.state := by
        simp only [ClosingServer.kernel, closeFor, ite_self, Option.some.injEq] at hst
        exact hst.symm
      subst hsame
      exact h.accounts.congr (fun fd _ => haccepting fd) fun c => by simpa using hclo c
    | some c =>
      have hmoved : ∀ x, (closing x).count s' + (if c = x then 1 else 0) =
          (closing x).count s := fun x => by
        have hcount := hclo x
        by_cases hx : c = x <;> simpa [hx] using hcount
      simp only [ClosingServer.kernel, closeFor, Option.some.injEq] at hst
      subst hst
      split
      · exact (h.accounts.closeNumber hmoved).congr (fun fd _ => haccepting fd) fun _ => rfl
      · exact (h.accounts.drop hmoved).congr (fun fd _ => haccepting fd) fun _ => rfl
  | recvMsg | write | sendMsg | other =>
    cases hst
    exact h.accounts.congr (fun fd _ => by simpa using hacc fd) fun c => by simpa using hclo c

theorem invoke (h : Kept s) {op : For UnixOp} {result : Int}
    {rest : List (Frame (For UnixOp) (For UnixCode))}
    (hstack : s.stack = .invoke op result :: rest) :
    let s' : ClosingLoop := ⟨s.manager, s.cq, (s.state.callback op result).2.map .call ++ rest,
      (s.state.callback op result).1⟩
    Accounts (s.state.callback op result).1 (fun fd => (accepting fd).count s')
      fun c => (closing c).count s' := by
  intro s'
  have hop : (Frame.invoke op result).Holds (opNamed s.state) (codeNamed s.state) :=
    h.named.stack _ (hstack ▸ List.mem_cons_self)
  obtain ⟨hnumbers, hsessions, hcalls⟩ :=
    UnixServer.callback_quiet s.state.server op result hop
  have hacc : ∀ fd, (accepting fd).count s' + ((accepting fd).invoke op result).toNat =
      (accepting fd).count s + (accepting fd).calls (s.state.callback op result).2 :=
    fun fd => (accepting fd).count_invoke _ _ hstack
  have hclo : ∀ c, (closing c).count s' + ((closing c).invoke op result).toNat =
      (closing c).count s + (closing c).calls (s.state.callback op result).2 :=
    fun c => (closing c).count_invoke _ _ hstack
  have hserver := h.accounts.server hnumbers hsessions
  clear_value s'
  by_cases haccept : op.what = .accept
  · obtain ⟨op, conn⟩ := op
    subst haccept
    refine hserver.congr (fun fd _ => ?_) fun c => ?_
    · simpa [callback, UnixServer.callback, mark] using hacc fd
    · simpa [callback, UnixServer.callback, mark] using hclo c
  · have hmap : (s.state.callback op result).2 =
      (s.state.server.callback op.what result).2.map (mark op.conn) := rfl
    refine hserver.congr (fun fd _ => ?_) fun c => ?_
    · have hcount := hacc fd
      have hplain := accepting_plain fd op.conn fun call hcall => (hcalls haccept call hcall).1
      simpa [hmap, hplain, haccept] using hcount
    · have hcount := hclo c
      have hplain := closing_plain c op.conn fun call hcall => (hcalls haccept call hcall).1
      simpa [hmap, hplain] using hcount

end Kept

theorem calls_stop (st : ClosingServer) (conn : Option Nat) :
    (∀ fd, (accepting fd).calls (st.code ⟨.stop, conn⟩).2 = 0) ∧
      ∀ c, (closing c).calls (st.code ⟨.stop, conn⟩).2 =
        (if st.server.isRunning then st.server.sessions.entries.map Sigma.snd else []).count c := by
  simp only [code, UnixServer.code, UnixServer.stop]
  cases st.server.isRunning with
  | false => simp
  | true =>
    simp only [if_true]
    rw [List.zipWith_append (by simp)]
    have hzip : ((st.server.sessions.entries.map fun e =>
          (.submit .close e.1 .close : Call UnixOp UnixCode)).zipWith
        (fun call conn => mark conn call) ((st.server.sessions.entries.map Sigma.snd).map some)) =
        st.server.sessions.entries.map fun e => .submit .close e.1 ⟨.close, some e.2⟩ := by
      rw [List.map_map, List.zipWith_map, List.zipWith_self]
      rfl
    rw [hzip]
    refine ⟨fun fd => ?_, fun c => ?_⟩
    · have hclients : (accepting fd).calls (st.server.sessions.entries.map fun e =>
          .submit .close e.1 ⟨.close, some e.2⟩) = 0 := by
        simp [Tally.calls, List.countP_eq_zero]
      rw [Tally.calls_append, hclients]
      split <;> simp [mark]
    · have hclients : (closing c).calls (st.server.sessions.entries.map fun e =>
          .submit .close e.1 ⟨.close, some e.2⟩) =
          (st.server.sessions.entries.map Sigma.snd).count c := by
        rw [Tally.calls, List.countP_map, List.count_eq_countP, List.countP_map]
        exact List.countP_congr fun e _ => by simp
      rw [Tally.calls_append, hclients]
      split <;> simp [mark]

namespace Kept

variable {s : ClosingLoop}

theorem end_own (h : Accounts s.state (fun fd => (accepting fd).count s)
      fun c => (closing c).count s) {clientFd : Fd} {c : Nat} {closing' : Nat → Nat}
    (hlookup : s.state.server.sessions.lookup clientFd = some c)
    (hmoved : ∀ d, closing' d = (closing d).count s + [c].count d) :
    Accounts (s.state.code ⟨.handleConnectionClose clientFd, some c⟩).1
      (fun fd => (accepting fd).count s) closing' := by
  have hnumbers : (s.state.server.handleConnectionClose clientFd).1.numbers =
      s.state.server.numbers := by
    simp [UnixServer.handleConnectionClose, hlookup, UnixServer.numbers]
  have hsessions : (s.state.server.handleConnectionClose clientFd).1.sessions =
      s.state.server.sessions.erase clientFd := by
    simp [UnixServer.handleConnectionClose, hlookup]
  refine h.hand hnumbers (List.nodup_singleton c) (fun d hd => ?_) (fun fd d => ?_) hmoved
  · rw [List.mem_singleton.mp hd]
    exact ⟨clientFd, hlookup⟩
  · show (s.state.server.handleConnectionClose clientFd).1.sessions.lookup fd = some d ↔
      s.state.server.sessions.lookup fd = some d ∧ d ∉ [c]
    rw [hsessions, List.mem_singleton]
    by_cases hfd : fd = clientFd
    · subst hfd
      rw [AList.lookup_erase, hlookup]
      simp only [reduceCtorEq, Option.some.injEq, false_iff, not_and, not_not]
      exact Eq.symm
    · rw [AList.lookup_erase_ne hfd, iff_self_and]
      rintro hd rfl
      have hown := ((h.session _ _).mp hd).1
      exact hfd (Option.some.inj (hown.symm.trans ((h.session _ _).mp hlookup).1))

theorem end_all (h : Accounts s.state (fun fd => (accepting fd).count s)
      fun c => (closing c).count s) {conn : Option Nat} {closing' : Nat → Nat}
    (hmoved : ∀ d, closing' d = (closing d).count s +
      (if s.state.server.isRunning then s.state.server.sessions.entries.map Sigma.snd
        else []).count d) :
    Accounts (s.state.code ⟨.stop, conn⟩).1 (fun fd => (accepting fd).count s) closing' := by
  have hlookup : ∀ c, c ∈ s.state.server.sessions.entries.map Sigma.snd ↔
      ∃ fd, s.state.server.sessions.lookup fd = some c := by
    intro c
    constructor
    · intro hc
      obtain ⟨e, he, rfl⟩ := List.mem_map.mp hc
      exact ⟨e.1, AList.mem_lookup_iff.mpr he⟩
    · rintro ⟨fd, hfd⟩
      exact List.mem_map.mpr ⟨⟨fd, c⟩, AList.mem_lookup_iff.mp hfd, rfl⟩
  cases hrun : s.state.server.isRunning with
  | false =>
    simp only [hrun] at hmoved
    simp only [ClosingServer.code, UnixServer.code, UnixServer.stop, hrun]
    simpa using h.congr (fun _ _ => rfl) hmoved
  | true =>
    simp only [hrun, if_true] at hmoved
    simp only [ClosingServer.code, UnixServer.code, UnixServer.stop, hrun, if_true]
    refine h.hand rfl ?_ (fun c hc => (hlookup c).mp hc) (fun fd c => ?_) hmoved
    · refine List.Nodup.map_on (fun e he e' he' heq => ?_)
        (List.Nodup.of_map Sigma.fst s.state.server.sessions.keys_nodup)
      have hown := ((h.session _ _).mp (AList.mem_lookup_iff.mpr he)).1
      have hown' := ((h.session _ _).mp (AList.mem_lookup_iff.mpr he')).1
      rw [heq] at hown
      exact Sigma.ext (Option.some.inj (hown.symm.trans hown')) (heq_of_eq heq)
    · simp only [AList.lookup_empty, reduceCtorEq, false_iff, not_and, not_not]
      exact fun hfd => (hlookup c).mpr ⟨fd, hfd⟩

theorem code (h : Kept s) {f : For UnixCode} {rest : List (Frame (For UnixOp) (For UnixCode))}
    (hstack : s.stack = .call (.code f) :: rest)
    (hown : ∀ clientFd c, f = ⟨.handleConnectionClose clientFd, some c⟩ →
      s.state.server.sessions.lookup clientFd = some c) :
    let s' : ClosingLoop := ⟨s.manager, s.cq, (s.state.code f).2.map .call ++ rest,
      (s.state.code f).1⟩
    Accounts (s.state.code f).1 (fun fd => (accepting fd).count s')
      fun c => (closing c).count s' := by
  intro s'
  have hf : (Frame.call (.code f)).Holds (opNamed s.state) (codeNamed s.state) :=
    h.named.stack _ (hstack ▸ List.mem_cons_self)
  have hacc : ∀ fd, (accepting fd).count s' + ((accepting fd).code f).toNat =
      (accepting fd).count s + (accepting fd).calls (s.state.code f).2 :=
    fun fd => (accepting fd).count_code _ _ hstack
  have hclo : ∀ c, (closing c).count s' + ((closing c).code f).toNat =
      (closing c).count s + (closing c).calls (s.state.code f).2 :=
    fun c => (closing c).count_code _ _ hstack
  clear_value s'
  by_cases hquiet : UnixServer.quiet f.what = true
  · obtain ⟨hnumbers, hsessions, hcalls⟩ := UnixServer.code_quiet s.state.server hquiet hf
    have hplain := fun call hcall => (hcalls call hcall).1
    have hnot : (∀ fd, f.what ≠ .handleAccept fd) ∧ f.what ≠ .directClose := by
      constructor
      · intro fd heq
        rw [heq] at hquiet
        cases hquiet
      · intro heq
        rw [heq] at hquiet
        cases hquiet
    rw [code_server _ hquiet] at hacc hclo ⊢
    refine (h.accounts.server hnumbers hsessions).congr (fun fd _ => ?_) fun c => ?_
    · simpa [accepting_plain fd _ hplain, hnot.1] using hacc fd
    · simpa [closing_plain c _ hplain, hnot.2] using hclo c
  · obtain ⟨f, conn⟩ := f
    cases f with
    | handleAccept clientFd =>
      by_cases hfd : 0 ≤ clientFd
      · simp only [ClosingServer.code, UnixServer.code, UnixServer.handleAccept, hfd, if_true]
          at hacc hclo ⊢
        refine (h.accounts.adopt hfd ?_ ?_ fun x => ?_).congr (fun _ _ => rfl) fun c => ?_
        · simp [UnixServer.numbers]
        · simp [UnixServer.numbers]
        · have hcount := hacc x
          by_cases hx : clientFd = x <;> simpa [hx, mark] using hcount
        · simpa [mark] using hclo c
      · simp only [ClosingServer.code, UnixServer.code, UnixServer.handleAccept, hfd, if_false]
          at hacc hclo ⊢
        refine h.accounts.congr (fun x hx => ?_) fun c => ?_
        · have hne : clientFd ≠ x := by
            have hzero : (0 : Int) ≤ x := hx
            omega
          simpa [hne] using hacc x
        · simpa using hclo c
    | handleConnectionClose clientFd =>
      obtain ⟨c, rfl, hc⟩ := hf
      have hlookup := hown clientFd c rfl
      have hcalls : (s.state.code ⟨.handleConnectionClose clientFd, some c⟩).2 =
          [.submit .close clientFd ⟨.close, some c⟩] := by
        simp [ClosingServer.code, UnixServer.code, UnixServer.handleConnectionClose, hlookup, mark]
      rw [hcalls] at hacc hclo
      refine (end_own h.accounts hlookup fun d => ?_).congr (fun fd _ => ?_) fun _ => rfl
      · have hcount := hclo d
        by_cases hd : c = d <;> simpa [hd] using hcount
      · simpa using hacc fd
    | directClose =>
      have hcalls : (s.state.code ⟨.directClose, conn⟩).2 = [] := rfl
      rw [hcalls] at hacc hclo
      have haccepting : ∀ fd, (accepting fd).count s' = (accepting fd).count s := fun fd => by
        simpa using hacc fd
      cases conn with
      | none => exact h.accounts.congr (fun fd _ => haccepting fd) fun c => by simpa using hclo c
      | some c =>
        refine (h.accounts.closeNumber (c := c) fun x => ?_).congr (fun fd _ => haccepting fd)
          fun _ => rfl
        have hcount := hclo x
        by_cases hx : c = x <;> simpa [hx] using hcount
    | stop =>
      obtain ⟨hnone, hcloses⟩ := calls_stop s.state conn
      refine (end_all h.accounts fun d => ?_).congr (fun fd _ => ?_) fun _ => rfl
      · have hcount := hclo d
        rw [hcloses d] at hcount
        simpa using hcount
      · simpa [hnone fd] using hacc fd
    | _ => exact absurd rfl hquiet

end Kept

namespace Kept

variable {s s' : ClosingLoop} {a : LoopAct (For UnixCode)}

theorem refused (h : Kept s) {m : Manager (For UnixOp)} {type : RequestType} {fd : Fd}
    {op : For UnixOp} {error : Int} {r : Option Nat}
    {rest : List (Frame (For UnixOp) (For UnixCode))}
    (hstack : s.stack = .call (.submit type fd op) :: rest)
    (herror : error = -ESHUTDOWN ∨ error = -ENOMEM)
    (hinflight : m.inflight = s.manager.inflight) :
    let s' : ClosingLoop := ⟨m, s.cq, Loop.failFrames component op error r ++ rest, s.state⟩
    Accounts s.state (fun fd => (accepting fd).count s') fun c => (closing c).count s' := by
  intro s'
  have hacc : ∀ x, (accepting x).count s' + ((accepting x).submit op).toNat =
      (accepting x).count s + ((accepting x).invoke op error).toNat +
        (accepting x).calls ((component.onFail op).map .code) :=
    fun x => (accepting x).count_refused component error r hstack hinflight
  have hclo : ∀ c, (closing c).count s' + ((closing c).submit op).toNat =
      (closing c).count s + ((closing c).invoke op error).toNat +
        (closing c).calls ((component.onFail op).map .code) :=
    fun c => (closing c).count_refused component error r hstack hinflight
  clear_value s'
  have hneg : error < 0 := by
    obtain rfl | rfl := herror <;> decide
  obtain ⟨op, conn⟩ := op
  refine h.accounts.congr (fun x hx => ?_) fun c => ?_
  · have hne : error ≠ x := by
      have hzero : (0 : Int) ≤ x := hx
      omega
    have hcount := hacc x
    cases op with
    | write c again => cases again <;> simpa [component, UnixServer.onFail, hne] using hcount
    | _ => simpa [component, UnixServer.onFail, hne] using hcount
  · have hcount := hclo c
    cases op with
    | write c again => cases again <;> simpa [component, UnixServer.onFail] using hcount
    | _ => simpa [component, UnixServer.onFail] using hcount

/-- The accounts stay right as long as `HandleConnectionClose` finds the session it is for. -/
theorem step (h : Kept s) (ha : a.Succeeds) (hown : FindsOwn s a)
    (hs : s.step component a = some s') : Kept s' := by
  obtain ⟨hmoves, hsound⟩ := Loop.step_moves h.loop ha hs
  refine ⟨hsound, h.named.moves component_keeps hmoves, ?_⟩
  cases hmoves with
  | kernel hq hst hm =>
    subst hm
    exact h.kernel hq hst
  | @worker q result rest hstack hcq =>
    refine h.accounts.congr (fun fd _ => ?_) fun c => ?_
    · exact Nat.add_right_cancel ((accepting fd).count_worker hstack hcq)
    · exact Nat.add_right_cancel ((closing c).count_worker hstack hcq)
  | @call f hapi =>
    obtain ⟨f, conn⟩ := f
    refine h.accounts.congr (fun fd _ => ?_) fun c => ?_
    · rw [(accepting fd).count_call]
      cases f <;> first | rfl | cases hapi
    · rw [(closing c).count_call]
      cases f <;> first | rfl | cases hapi
  | invoke hstack => exact h.invoke hstack
  | putRequest hstack =>
    exact h.accounts.congr (fun fd _ => (accepting fd).count_putRequest hstack)
      fun c => (closing c).count_putRequest hstack
  | code hstack =>
    exact h.code hstack fun clientFd c hf => hown clientFd c _ (hf ▸ hstack)
  | accepted hstack hsubmit hinflight =>
    refine h.accounts.congr (fun fd _ => ?_) fun c => ?_
    · exact Nat.add_right_cancel ((accepting fd).count_accepted hstack hinflight)
    · exact Nat.add_right_cancel ((closing c).count_accepted hstack hinflight)
  | refused hstack hsubmit herror hinflight => exact h.refused hstack herror hinflight

/-- A connection whose session `HandleConnectionClose` does not find was handed to close
before. -/
theorem broken (h : Kept s) (hown : ¬ FindsOwn s a) (hs : s.step component a = some s') :
    ∃ c, 2 ≤ s'.state.handed.count c := by
  cases a with
  | frame o =>
    simp only [FindsOwn, not_forall] at hown
    obtain ⟨clientFd, c, rest, hstack, hlookup⟩ := hown
    have hnamed : (Frame.call (.code ⟨.handleConnectionClose clientFd, some c⟩)).Holds
        (opNamed s.state) (codeNamed s.state) :=
      h.named.stack _ (hstack ▸ List.mem_cons_self)
    obtain ⟨d, hd, hnumber⟩ := hnamed
    obtain rfl := Option.some.inj hd
    have hhanded : c ∈ s.state.handed := by
      by_contra hnot
      exact hlookup ((h.accounts.session clientFd c).mpr ⟨hnumber, hnot⟩)
    have hpos := List.count_pos_iff.mpr hhanded
    simp only [Loop.step, Loop.frame, hstack, Option.some.injEq] at hs
    subst hs
    refine ⟨c, ?_⟩
    simp only [component, ClosingServer.code, Option.toList_some, List.count_append,
      List.count_singleton_self]
    omega
  | kernel | worker | call => exact absurd trivial hown

end Kept

theorem code_handed (st : ClosingServer) (f : For UnixCode) :
    ∃ cs, (st.code f).1.handed = st.handed ++ cs := by
  by_cases hquiet : UnixServer.quiet f.what = true
  · rw [code_server st hquiet]
    exact ⟨[], (List.append_nil _).symm⟩
  · obtain ⟨f, conn⟩ := f
    cases f with
    | handleAccept => exact ⟨[], (List.append_nil _).symm⟩
    | handleConnectionClose | stop => exact ⟨_, rfl⟩
    | directClose =>
      refine ⟨[], ?_⟩
      cases conn with
      | none => exact (List.append_nil _).symm
      | some c =>
        simp only [code, closeFor, closeNumber, List.append_nil]
        split
        · rfl
        · split <;> rfl
    | _ => exact absurd rfl hquiet

theorem count_handed_le {s s' : ClosingLoop} {a : LoopAct (For UnixCode)}
    (h : s.Sound) (ha : a.Succeeds) (hs : s.step component a = some s') (c : Nat) :
    s.state.handed.count c ≤ s'.state.handed.count c := by
  obtain ⟨hmoves, -⟩ := Loop.step_moves h ha hs
  cases hmoves with
  | @kernel k result q st m hq hst hm =>
    obtain ⟨r, op, conn⟩ := q
    cases op with
    | accept =>
      simp only [component, kernel] at hst
      split at hst
      · cases hst
        exact Nat.le_refl _
      · split at hst
        · cases hst
        · cases hst
          exact Nat.le_refl _
    | close =>
      simp only [component, kernel, Option.some.injEq] at hst
      subst hst
      obtain ⟨cs, hcs⟩ := code_handed s.state ⟨.directClose, conn⟩
      have hclose : (s.state.closeFor conn).handed = s.state.handed ++ cs := hcs
      split
      · rw [hclose, List.count_append]
        omega
      · exact Nat.le_refl _
    | recvMsg | write | sendMsg | other =>
      cases hst
      exact Nat.le_refl _
  | @code o f rest hstack =>
    obtain ⟨cs, hcs⟩ := code_handed s.state f
    show _ ≤ (s.state.code f).1.handed.count c
    rw [hcs, List.count_append]
    omega
  | _ => exact Nat.le_refl _

theorem Kept.of_started {s : ClosingLoop}
    (hs : AcceptStarted ⟨.accept, none⟩ ⟨.other, none⟩ initialised s) : Kept s := by
  obtain ⟨hsound, hstack, ⟨fd, hstate⟩, hinflight, hcq⟩ := hs.underWay component
  have hnone : ∀ t : Tally (For UnixOp) (For UnixCode), t.flight ⟨.accept, none⟩ = false →
      t.flight ⟨.other, none⟩ = false → (∀ result, t.posted ⟨.other, none⟩ result = false) →
      t.count s = 0 := by
    intro t haccept hother hposted
    have hkernel : s.manager.inflight.countP (fun q => t.flight q.op) = 0 := by
      rw [List.countP_eq_zero]
      intro q hq
      obtain hop | hop := hinflight q hq <;> simp [hop, haccept, hother]
    have hdone : s.cq.countP (fun c => t.posted c.1.op c.2) = 0 := by
      rw [List.countP_eq_zero]
      intro c hc
      simp [hcq c hc, hposted]
    simp only [Tally.count, hstack, hkernel, hdone, List.countP_nil]
  refine ⟨hsound, ⟨fun q hq => ?_, fun c hc => ?_, ?_⟩, ?_⟩
  · obtain hop | hop := hinflight q hq <;> simp [hop, opNamed, UnixServer.OpNamed]
  · simp [hcq c hc, opNamed, UnixServer.OpNamed]
  · simp [hstack]
  · have hzero : Accounts (initialised fd) (fun _ => 0) fun _ => 0 := by
      constructor <;> simp [initialised, UnixServer.initialised, UnixServer.numbers]
    rw [hstate]
    exact hzero.congr (fun fd _ => hnone _ rfl rfl fun _ => by simp) fun c =>
      hnone _ (by simp) (by simp) fun _ => rfl

theorem closesOnce_iff_findsOwn {s t : ClosingLoop} {as : List (LoopAct (For UnixCode))}
    (hs : AcceptStarted ⟨.accept, none⟩ ⟨.other, none⟩ initialised s)
    (hsubmit : ∀ a ∈ as, a.Succeeds) (hrun : machine.run s as = some t) :
    ClosesOnce t.state ↔ machine.Every (fun s a _ => FindsOwn s a) s as := by
  have hkept := Kept.of_started hs
  constructor
  · intro hclosed
    refine (machine.every_of_final (A := LoopAct.Succeeds)
      (I := fun s => s.Sound ∧ (Kept s ∨ ∃ c, 2 ≤ s.state.handed.count c))
      (Q := fun s => ∀ c, s.state.handed.count c ≤ 1) ?_ ?_ hsubmit ⟨hkept.loop, .inl hkept⟩ hrun
      hclosed.once).2
    · rintro s a s' ha ⟨hsound, hI⟩ hstep
      refine ⟨(Loop.step_moves hsound ha hstep).2, ?_⟩
      obtain hkept | ⟨c, hc⟩ := hI
      · by_cases hown : FindsOwn s a
        · exact .inl (hkept.step ha hown hstep)
        · exact .inr (hkept.broken hown hstep)
      · exact .inr ⟨c, Nat.le_trans hc (count_handed_le hsound ha hstep c)⟩
    · rintro s a s' ha ⟨hsound, hI⟩ hstep hQ
      have hle := fun c => Nat.le_trans (count_handed_le hsound ha hstep c) (hQ c)
      refine ⟨hle, ?_⟩
      obtain hkept | ⟨c, hc⟩ := hI
      · by_contra hown
        obtain ⟨c, hc⟩ := hkept.broken hown hstep
        have hone := hQ c
        omega
      · have hone := hle c
        omega
  · intro hown
    have hboth := machine.every_and hsubmit hown
    have hkept' : Kept t := machine.run_invariant_of_every (I := Kept)
      (fun _ _ _ hI hstep hC => hI.step hC.1 hC.2 hstep) hkept hboth hrun
    exact ⟨hkept'.accounts.once, hkept'.accounts.own⟩

def listening : ClosingLoop := listeningOnThree ⟨.accept, none⟩ initialised 8

def frames (n : Nat) : List (LoopAct (For UnixCode)) := List.replicate n (.frame (.submit 1))

def oneFailure : List (LoopAct (For UnixCode)) :=
  acceptFive ++ [.call ⟨.sendUnixMessage 0 [1], none⟩] ++ frames 2 ++
    [.kernel 2 (-32), .worker] ++ frames 5 ++ [.kernel 0 0, .worker] ++ frames 2

theorem closesOnce_iff_findsOwn_oneFailure :
    ∃ t, machine.run listening oneFailure = some t ∧ t.state.handed = [0] ∧
      (ClosesOnce t.state ↔ machine.Every (fun s a _ => FindsOwn s a) listening oneFailure) := by
  have hrun : machine.run listening oneFailure = some _ := rfl
  exact ⟨_, hrun, rfl, closesOnce_iff_findsOwn (listeningOnThree_started _ _ _ (by decide))
    (by simp [oneFailure, frames, acceptFive, LoopAct.Succeeds,
      RingOutcome.Succeeds]) hrun⟩

/-- Two sends of the client fail; after the first its number goes to a newer client. -/
def twoFailures : List (LoopAct (For UnixCode)) :=
  acceptFive ++ [.call ⟨.sendUnixMessage 0 [1], none⟩] ++ frames 2 ++
    [.call ⟨.sendUnixMessage 0 [2], none⟩] ++ frames 2 ++
    [.kernel 2 (-32), .worker] ++ frames 5 ++ [.kernel 3 0, .kernel 1 5, .worker] ++ frames 2 ++
    [.worker] ++ frames 8 ++ [.kernel 1 (-32), .worker] ++ frames 5 ++ [.kernel 3 0]

theorem twoFailures_close_newer :
    ¬ ∀ s t as, AcceptStarted ⟨.accept, none⟩ ⟨.other, none⟩ initialised s →
      (∀ a ∈ as, a.Succeeds) → machine.run s as = some t → ClosesOnce t.state := by
  intro hcloses
  have hrun : machine.run listening twoFailures = some _ := rfl
  have hclosed := hcloses _ _ _ (listeningOnThree_started _ _ _ (by decide))
    (by simp [twoFailures, frames, acceptFive, LoopAct.Succeeds,
      RingOutcome.Succeeds]) hrun
  exact absurd (hclosed.own (0, some 1) (by decide)) (by decide)

end ClosingServer

end Lmnet.IoUring
