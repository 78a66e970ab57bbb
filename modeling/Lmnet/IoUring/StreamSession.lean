import Lmnet.IoUring.WorkerLoop

set_option autoImplicit false

namespace Lmnet.IoUring

structure Stream where
  sendQueue : List (List UInt8)
  writeInFlight : Bool
  deriving DecidableEq, Repr

inductive WriteNext where
  | done
  | submitNext
  | fail
  deriving DecidableEq, Repr

namespace Stream

def empty : Stream := ⟨[], false⟩

def queueStreamWrite (st : Stream) (buffer : List UInt8) : Stream × WriteNext :=
  let queued := st.sendQueue ++ [buffer]
  if st.writeInFlight then (⟨queued, true⟩, .done) else (⟨queued, true⟩, .submitNext)

/-- With nothing queued the call returns true and submits nothing. -/
def submitNextStreamWrite (st : Stream) : Stream × Bool :=
  if st.sendQueue.isEmpty then ({ st with writeInFlight := false }, false) else (st, true)

def handleStreamWriteComplete (st : Stream) (result : Int) : Stream × WriteNext :=
  if result < 0 then (st, .fail)
  else match st.sendQueue with
    | [] => (⟨[], false⟩, .done)
    | buffer :: rest =>
        if result = 0 then (⟨buffer :: rest, false⟩, .fail)
        else if result.toNat < buffer.length then
          (⟨buffer.drop result.toNat :: rest, st.writeInFlight⟩, .submitNext)
        else if rest.isEmpty then (⟨rest, false⟩, .done)
        else (⟨rest, true⟩, .submitNext)

def failStreamWrite (_ : Stream) : Stream := ⟨[], false⟩

end Stream

inductive ListenerCall where
  | onAccept (c : Nat)
  | onReceive (c : Nat)
  | onError (c : Nat)
  | onClose (c : Nat)
  deriving DecidableEq, Repr

end Lmnet.IoUring
