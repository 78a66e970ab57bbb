import Lmnet.Common

/-!
`HandleReceive` of the epoll `UdpServerImpl` and `UdpClientImpl`. The registration is
edge-triggered, so what a call leaves in the socket's queue stays there until another
datagram arrives.
-/

set_option autoImplicit false

namespace Lmnet.Epoll

structure Datagram where
  ip : UInt32
  port : UInt16
  bytes : List UInt8
  deriving DecidableEq, Repr

/-- What the calls of `recvfrom` find before the socket's queue is empty: a datagram, or
an `errno` that is not `EAGAIN`. -/
inductive Arrival where
  | datagram (d : Datagram)
  | errno (e : Int)
  deriving DecidableEq, Repr

def EINTR : Int := 4

def RECV_BUFFER_MAX_SIZE : Nat := 4096

structure Received where
  delivered : List Datagram
  left : List Arrival
  error : Option Int
  deriving DecidableEq, Repr

/-- The datagram as `recvfrom` stores it: the rest of a long one is dropped. -/
def Datagram.stored (d : Datagram) (capacity : Nat) : Datagram :=
  { d with bytes := d.bytes.take capacity }

/-- The loop of `HandleReceive`, with a buffer of `capacity` bytes, where `retries` says
after which errors it goes on. -/
def receiveLoop (capacity : Nat) (listening : Bool) (retries : Int → Bool) :
    List Arrival → Received
  | [] => ⟨[], [], none⟩
  | .datagram d :: rest =>
      if 0 < (d.stored capacity).bytes.length then
        let r := receiveLoop capacity listening retries rest
        { r with
          delivered := if listening then d.stored capacity :: r.delivered else r.delivered }
      else ⟨[], rest, none⟩
  | .errno e :: rest =>
      if retries e then receiveLoop capacity listening retries rest else ⟨[], rest, some e⟩

def serverHandleReceive (capacity : Nat) (listening : Bool) (arrivals : List Arrival) :
    Received :=
  receiveLoop capacity listening (· == EINTR) arrivals

/-- `UdpClientImpl::HandleReceive`; on an error it calls `HandleConnectionClose`, and the
listener hears of a datagram through the task queue. -/
def clientHandleReceive (capacity : Nat) (listening : Bool) (arrivals : List Arrival) :
    Received :=
  receiveLoop capacity listening (fun _ => false) arrivals

def datagrams (arrivals : List Arrival) : List Datagram :=
  arrivals.filterMap fun a =>
    match a with
    | .datagram d => some d
    | .errno _ => none

@[simp] theorem datagrams_nil : datagrams [] = [] := rfl

@[simp] theorem datagrams_datagram (d : Datagram) (rest : List Arrival) :
    datagrams (.datagram d :: rest) = d :: datagrams rest := rfl

@[simp] theorem datagrams_errno (e : Int) (rest : List Arrival) :
    datagrams (.errno e :: rest) = datagrams rest := rfl

def Received.Exact (r : Received) (arrivals : List Arrival) : Prop :=
  r.delivered = (datagrams arrivals).filter (fun d => !d.bytes.isEmpty) ∧ datagrams r.left = []

/-- No datagram is longer than the buffer, and none but the last is empty. -/
def Readable (capacity : Nat) (ds : List Datagram) : Prop :=
  (∀ d ∈ ds, d.bytes.length ≤ capacity) ∧ ∀ d ∈ ds.dropLast, d.bytes ≠ []

theorem readable_cons {capacity : Nat} {d : Datagram} {ds : List Datagram} :
    Readable capacity (d :: ds) ↔
      d.bytes.length ≤ capacity ∧ (d.bytes = [] → ds = []) ∧ Readable capacity ds := by
  cases ds with
  | nil => simp [Readable]
  | cons e es =>
    simp only [Readable, List.dropLast_cons_cons, List.forall_mem_cons, reduceCtorEq, imp_false]
    tauto

theorem stored_eq_self {d : Datagram} {capacity : Nat} :
    d.stored capacity = d ↔ d.bytes.length ≤ capacity := by
  constructor
  · intro h
    have hlen := congrArg (fun d => d.bytes.length) h
    simp only [Datagram.stored, List.length_take] at hlen
    omega
  · intro h
    simp [Datagram.stored, List.take_of_length_le h]

/-- One round on a datagram with data: it is passed on whole if and only if it fits. -/
theorem exact_cons_of_data {capacity : Nat} {d : Datagram} {rest : List Arrival} {r : Received}
    (hd : d.bytes ≠ []) :
    Received.Exact { r with delivered := d.stored capacity :: r.delivered }
        (.datagram d :: rest) ↔
      d.bytes.length ≤ capacity ∧ r.Exact rest := by
  have hdata : (!d.bytes.isEmpty) = true := by simpa using hd
  simp only [Received.Exact, datagrams_datagram, List.filter_cons, hdata, if_true,
    List.cons.injEq, stored_eq_self, and_assoc]

theorem receiveLoop_exact_iff {capacity : Nat} (hcapacity : 0 < capacity) {retries : Int → Bool}
    {arrivals : List Arrival} (h : ∀ e, Arrival.errno e ∈ arrivals → retries e = true) :
    (receiveLoop capacity true retries arrivals).Exact arrivals ↔
      Readable capacity (datagrams arrivals) := by
  induction arrivals with
  | nil => simp [receiveLoop, Received.Exact, Readable]
  | cons a rest ih =>
    have ih := ih fun e he => h e (List.mem_cons_of_mem a he)
    cases a with
    | errno e =>
      have he := h e List.mem_cons_self
      simp only [receiveLoop, he, if_true, datagrams_errno]
      exact ih
    | datagram d =>
      rw [datagrams_datagram, readable_cons, ← ih]
      by_cases hd : d.bytes = []
      · -- an empty datagram ends the loop
        have hzero : ¬ 0 < (d.stored capacity).bytes.length := by simp [Datagram.stored, hd]
        have hstop : Received.Exact ⟨[], rest, none⟩ (.datagram d :: rest) ↔
            datagrams rest = [] := by
          simp only [Received.Exact, datagrams_datagram, List.filter_cons, hd, List.isEmpty_nil,
            Bool.not_true, Bool.false_eq_true, if_false]
          constructor
          · exact fun hexact => hexact.2
          · intro hnil
            simp [hnil]
        simp only [receiveLoop, hzero, if_false]
        rw [hstop]
        constructor
        · intro hnil
          refine ⟨by simp [hd], fun _ => hnil, ih.mpr ?_⟩
          simp [hnil, Readable]
        · exact fun hrest => hrest.2.1 hd
      · have hpos : 0 < (d.stored capacity).bytes.length := by
          have hlen := List.length_pos_iff.mpr hd
          simp only [Datagram.stored, List.length_take]
          omega
        simp only [receiveLoop, hpos, if_true]
        rw [exact_cons_of_data hd]
        simp [hd]

/-- A call that meets no error but `EINTR`, and a client's none at all, passes on every
datagram with data, whole and in order, and leaves nothing, if and only if all fit the
buffer and none but the last is empty. -/
theorem handleReceive_exact_iff {capacity : Nat} (hcapacity : RECV_BUFFER_MAX_SIZE ≤ capacity)
    (arrivals : List Arrival) :
    ((∀ e, Arrival.errno e ∈ arrivals → e = EINTR) →
        ((serverHandleReceive capacity true arrivals).Exact arrivals ↔
          Readable capacity (datagrams arrivals))) ∧
      ((∀ e, Arrival.errno e ∉ arrivals) →
        ((clientHandleReceive capacity true arrivals).Exact arrivals ↔
          Readable capacity (datagrams arrivals))) := by
  have hpos : 0 < capacity := by
    simp only [RECV_BUFFER_MAX_SIZE] at hcapacity
    omega
  refine ⟨fun h => receiveLoop_exact_iff hpos fun e he => ?_,
    fun h => receiveLoop_exact_iff hpos fun e he => absurd he (h e)⟩
  simp [h e he]

theorem handleReceive_exact_iff_two :
    (serverHandleReceive 4096 true [.errno 4, .datagram ⟨0, 0, [7]⟩, .datagram ⟨0, 0, []⟩]).Exact
      [.errno 4, .datagram ⟨0, 0, [7]⟩, .datagram ⟨0, 0, []⟩] := by
  refine ((handleReceive_exact_iff (Nat.le_refl _) _).1 (fun e he => ?_)).mpr ?_
  · simpa [EINTR] using he
  · simp [Readable, RECV_BUFFER_MAX_SIZE]

/-- An empty datagram in front of another ends the call. -/
theorem datagram_left_behind_empty_one :
    (serverHandleReceive 4096 true [.datagram ⟨0, 0, []⟩, .datagram ⟨0, 0, [7]⟩]).delivered = [] ∧
      datagrams (serverHandleReceive 4096 true
        [.datagram ⟨0, 0, []⟩, .datagram ⟨0, 0, [7]⟩]).left = [⟨0, 0, [7]⟩] ∧
      (clientHandleReceive 4096 true [.datagram ⟨0, 0, []⟩, .datagram ⟨0, 0, [7]⟩]).delivered = [] ∧
      datagrams (clientHandleReceive 4096 true
        [.datagram ⟨0, 0, []⟩, .datagram ⟨0, 0, [7]⟩]).left = [⟨0, 0, [7]⟩] := by
  decide

end Lmnet.Epoll
