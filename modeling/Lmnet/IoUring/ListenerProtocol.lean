import Lmnet.IoUring.ClientSections

/-!
What the listener of a Unix client is told about one connection, with whatever is called, by the
listener itself or by another thread, before each call of it.
-/

set_option autoImplicit false

namespace Lmnet.IoUring

inductive Told where
  | receiving | failed | closed
  deriving DecidableEq, Repr

/-- The next call of the listener, which has to be about `fd` and to come in its turn. -/
def Told.next (fd : Nat) (told : Told) : ClientEvent → Option Told
  | .onReceive fd' | .onReceiveUnixMessage fd' =>
      if fd' = some fd ∧ told = .receiving then some .receiving else none
  | .onError fd' => if fd' = some fd ∧ told = .receiving then some .failed else none
  | .onClose fd' => if fd' = some fd ∧ told ≠ .closed then some .closed else none
  | .closed _ => some told

/-- What the log has told, if it is in order: deliveries, then at most one `OnError`, then
at most one `OnClose`. -/
def told (fd : Nat) (log : List ClientEvent) : Option Told := log.foldlM (Told.next fd) .receiving

def InOrder (fd : Nat) (log : List ClientEvent) : Prop := (told fd log).isSome

instance (fd : Nat) (log : List ClientEvent) : Decidable (InOrder fd log) :=
  inferInstanceAs (Decidable (_ = true))

namespace UnixConnection

def connected (fd : Nat) : BusyClient :=
  ⟨⟨true, true, some fd, fd + 1, .empty, true, [⟨.read, some fd⟩], []⟩, []⟩

example : ((Client.created true).init .unix .created true |> fun s =>
    UnixClient.connect s true .created ⟨0, true⟩) = (connected 0).client := by decide

def opens : SectionAct → Bool
  | .call (.init ..) | .call (.connect ..) => true
  | _ => false

def machine : Machine BusyClient SectionAct where
  init s := ∃ fd, s = connected fd
  step s a := if opens a then none else s.step .unix a

end UnixConnection

def Section.reports : Section → Bool
  | .onReceive _ | .onReceiveUnixMessage _ | .onError | .onErrorOf _ => true
  | _ => false

def Computation.reported (c : Computation) : Bool :=
  c.rest.head?.any fun f => f.code == .handleClose true

namespace BusyClient

def Quiet (s : BusyClient) : Prop :=
  s.client.isConnected = true ∧ s.underWay.any Computation.reported = false

/-- The condition on a step: data and failures are reported when the connection is quiet. -/
def KeepsOrder (s : BusyClient) : SectionAct → Prop
  | .call _ => True
  | .resume i _ => ∀ ring f rest, s.underWay[i]? = some ⟨ring, f :: rest⟩ →
      f.code.reports = true → s.Quiet

def phase (s : BusyClient) : Told :=
  if !s.client.isConnected then .closed
  else if s.underWay.any Computation.reported then .failed
  else .receiving

end BusyClient

/-- What is left of a call or a callback when it is at none of its ends: deliveries and reads,
`HandleClose`, and failures with the `HandleClose` that follows them. -/
inductive Shaped : List ClientFrame → Prop where
  | nil : Shaped []
  | onReceive {op : Option ClientOp} {fd : Option Nat} {rest : List ClientFrame}
      (h : Shaped rest) : Shaped (⟨op, .onReceive fd⟩ :: rest)
  | onReceiveUnixMessage {op : Option ClientOp} {fd : Option Nat} {rest : List ClientFrame}
      (h : Shaped rest) : Shaped (⟨op, .onReceiveUnixMessage fd⟩ :: rest)
  | nextRead {op : Option ClientOp} {rest : List ClientFrame} (h : Shaped rest) :
      Shaped (⟨op, .nextRead⟩ :: rest)
  | readFailed {op : Option ClientOp} {rest : List ClientFrame} (h : Shaped rest) :
      Shaped (⟨op, .readFailed⟩ :: rest)
  | closing {op : Option ClientOp} {rest : List ClientFrame} (h : Shaped rest) :
      Shaped (ending .unix op false ++ rest)
  | failing {op : Option ClientOp} {rest : List ClientFrame} (h : Shaped rest) :
      Shaped (IoUring.failing .unix op ++ rest)
  | failingOf {op : Option ClientOp} {fd : Option Nat} {rest : List ClientFrame} (h : Shaped rest) :
      Shaped (IoUring.failingOf op fd ++ rest)

theorem Shaped.append {fs gs : List ClientFrame} (hf : Shaped fs) (hg : Shaped gs) :
    Shaped (fs ++ gs) := by
  induction hf with
  | nil => exact hg
  | onReceive _ ih => exact .onReceive ih
  | onReceiveUnixMessage _ ih => exact .onReceiveUnixMessage ih
  | nextRead _ ih => exact .nextRead ih
  | readFailed _ ih => exact .readFailed ih
  | closing _ ih => exact .closing ih
  | failing _ ih => exact .failing ih
  | failingOf _ ih => exact .failingOf ih

/-- Where a call or a callback is: at such a point, after its `OnError`, or after its `OnClose`. -/
inductive At (isConnected : Bool) : List ClientFrame → Prop where
  | ready {rest : List ClientFrame} (h : Shaped rest) : At isConnected rest
  | reported {op : Option ClientOp} {rest : List ClientFrame} (h : Shaped rest) :
      At isConnected (ending .unix op true ++ rest)
  | hungUp {op : Option ClientOp} {rest : List ClientFrame} (h : Shaped rest)
      (hclosed : isConnected = false) : At isConnected (⟨op, .closeSocket⟩ :: rest)

theorem At.mono {b b' : Bool} {rest : List ClientFrame} (h : At b rest)
    (hb : b' = true → b = true) : At b' rest := by
  cases h with
  | ready h => exact .ready h
  | reported h => exact .reported h
  | hungUp h hclosed =>
    refine .hungUp h ?_
    cases b' with
    | false => rfl
    | true => exact absurd (hb rfl) (by simp [hclosed])

def Section.Names (fd : Nat) : Section → Prop
  | .onReceive fd' | .onReceiveUnixMessage fd' | .onErrorOf fd' => fd' = some fd
  | _ => True

namespace Client

structure OnFd (fd : Nat) (s : Client) : Prop where
  socket : s.isConnected = true → s.socket = some fd
  sockets : ∀ op ∈ s.inFlight, op.socket = some fd

structure Begins (fd : Nat) (s : Client) (g : Going) : Prop where
  log : g.1.log = s.log
  listening : g.1.listening = s.listening
  isConnected : g.1.isConnected = s.isConnected
  onFd : g.1.OnFd fd
  shaped : Shaped g.2
  names : s.isConnected = true → ∀ f ∈ g.2, f.code.Names fd

theorem OnFd.stream {fd : Nat} {s : Client} (hs : s.OnFd fd) (stream : Stream) :
    ({ s with stream := stream } : Client).OnFd fd := ⟨hs.socket, hs.sockets⟩

theorem OnFd.post {fd : Nat} {s : Client} (hs : s.OnFd fd) (h : s.isConnected = true)
    (kind : ClientOpKind) : (s.post kind).OnFd fd := by
  refine ⟨hs.socket, fun op hop => ?_⟩
  obtain hop | hop := List.mem_append.mp hop
  · exact hs.sockets op hop
  · rw [List.mem_singleton.mp hop]
    exact hs.socket h

theorem Begins.append {fd : Nat} {s t : Client} {fs gs : List ClientFrame}
    (h : s.Begins fd (t, fs)) (hshaped : Shaped gs)
    (hnames : s.isConnected = true → ∀ f ∈ gs, f.code.Names fd) : s.Begins fd (t, fs ++ gs) := by
  refine ⟨h.log, h.listening, h.isConnected, h.onFd, h.shaped.append hshaped, fun hc f hf => ?_⟩
  obtain hf | hf := List.mem_append.mp hf
  · exact h.names hc f hf
  · exact hnames hc f hf

end Client

namespace BusyClient

structure Sound (fd : Nat) (s : BusyClient) : Prop where
  listening : s.client.listening = true
  told : told fd s.client.log = some s.phase
  onFd : s.client.OnFd fd
  underWay : ∀ c ∈ s.underWay, At s.client.isConnected c.rest
  names : s.client.isConnected = true → ∀ c ∈ s.underWay, ∀ f ∈ c.rest, f.code.Names fd

theorem Sound.inOrder {fd : Nat} {s : BusyClient} (hs : s.Sound fd) : InOrder fd s.client.log := by
  simp [InOrder, hs.told]

section Resume

variable {fd i : Nat} {s : BusyClient} {ring : Bool} {op : Option ClientOp}
  {rest : List ClientFrame}

end Resume

end BusyClient

namespace UnixConnection

end UnixConnection

end Lmnet.IoUring
