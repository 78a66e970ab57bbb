import Lmnet.IoUring.WorkerLoop

set_option autoImplicit false

namespace Lmnet.IoUring

/-- What is counted: operations about to be submitted, operations the kernel
has, posted completions, callbacks about to be called, and code about to run. -/
structure Tally (κ φ : Type) where
  submit : κ → Bool
  flight : κ → Bool
  posted : κ → Int → Bool
  invoke : κ → Int → Bool
  code : φ → Bool

namespace Tally

variable {κ φ σ : Type} (t : Tally κ φ)

def call : Call κ φ → Bool
  | .submit _ _ op => t.submit op
  | .code f => t.code f

def frame : Frame κ φ → Bool
  | .invoke op result => t.invoke op result
  | .putRequest _ => false
  | .call c => t.call c

def calls (cs : List (Call κ φ)) : Nat := cs.countP t.call

def count (s : Loop κ φ σ) : Nat :=
  s.manager.inflight.countP (fun q => t.flight q.op) +
    s.cq.countP (fun c => t.posted c.1.op c.2) + s.stack.countP t.frame

@[simp] theorem calls_nil : t.calls [] = 0 := rfl

@[simp] theorem calls_cons (c : Call κ φ) (cs : List (Call κ φ)) :
    t.calls (c :: cs) = t.calls cs + (t.call c).toNat :=
  List.countP_cons_toNat

@[simp] theorem calls_append (cs ds : List (Call κ φ)) :
    t.calls (cs ++ ds) = t.calls cs + t.calls ds :=
  List.countP_append

@[simp] theorem call_submit (type : RequestType) (fd : Fd) (op : κ) :
    t.call (.submit type fd op) = t.submit op := rfl

@[simp] theorem call_code (f : φ) : t.call (.code f) = t.code f := rfl

theorem frames_calls (cs : List (Call κ φ)) : (cs.map Frame.call).countP t.frame = t.calls cs := by
  rw [List.countP_map]
  rfl

theorem frames_failFrames (comp : Component κ φ σ) (op : κ) (error : Int) (r : Option Nat) :
    (Loop.failFrames comp op error r).countP t.frame =
      (t.invoke op error).toNat + t.calls ((comp.onFail op).map .code) := by
  have hput : (r.map Frame.putRequest).toList.countP t.frame = 0 := by
    cases r <;> simp [frame]
  rw [Loop.failFrames, List.cons_append, List.countP_cons_toNat, List.countP_append, hput,
    t.frames_calls]
  simp only [frame]
  omega

variable {s : Loop κ φ σ} {comp : Component κ φ σ}

theorem count_kernel {k : Nat} {q : Sqe κ} (result : Int) (st : σ)
    (hq : s.manager.inflight[k]? = some q) :
    t.count ⟨{ s.manager with inflight := s.manager.inflight.eraseIdx k }, s.cq ++ [(q, result)],
      s.stack, st⟩ + (t.flight q.op).toNat = t.count s + (t.posted q.op result).toNat := by
  have herase := List.countP_eraseIdx_add (p := fun q : Sqe κ => t.flight q.op) hq
  simp only [count, List.countP_append, List.countP_cons_toNat, List.countP_nil]
  omega

theorem count_worker {q : Sqe κ} {result : Int} {rest : List (Sqe κ × Int)}
    (hstack : s.stack = []) (hcq : s.cq = (q, result) :: rest) :
    t.count ⟨s.manager, rest, [.invoke q.op result, .putRequest q.userData], s.state⟩ +
      (t.posted q.op result).toNat = t.count s + (t.invoke q.op result).toNat := by
  simp only [count, hstack, hcq, List.countP_cons_toNat, List.countP_nil, frame,
    Bool.toNat_false]
  omega

theorem count_call (f : φ) :
    t.count ⟨s.manager, s.cq, .call (.code f) :: s.stack, s.state⟩ =
      t.count s + (t.code f).toNat := by
  simp only [count, List.countP_cons_toNat, frame, call]
  omega

theorem count_invoke {op : κ} {result : Int} {rest : List (Frame κ φ)} (cs : List (Call κ φ))
    (st : σ) (hstack : s.stack = .invoke op result :: rest) :
    t.count ⟨s.manager, s.cq, cs.map .call ++ rest, st⟩ + (t.invoke op result).toNat =
      t.count s + t.calls cs := by
  have hcs := t.frames_calls cs
  simp only [count, hstack, List.countP_append, List.countP_cons_toNat, frame]
  omega

theorem count_putRequest {r : Nat} {rest : List (Frame κ φ)}
    (hstack : s.stack = .putRequest r :: rest) :
    t.count ⟨s.manager.putRequest r, s.cq, rest, s.state⟩ = t.count s := by
  simp only [count, hstack, List.countP_cons_toNat, frame, Bool.toNat_false]
  rfl

theorem count_code {f : φ} {rest : List (Frame κ φ)} (cs : List (Call κ φ)) (st : σ)
    (hstack : s.stack = .call (.code f) :: rest) :
    t.count ⟨s.manager, s.cq, cs.map .call ++ rest, st⟩ + (t.code f).toNat =
      t.count s + t.calls cs := by
  have hcs := t.frames_calls cs
  simp only [count, hstack, List.countP_append, List.countP_cons_toNat, frame, call]
  omega

theorem count_accepted {m : Manager κ} {r : Nat} {type : RequestType} {fd : Fd} {op : κ}
    {rest : List (Frame κ φ)} (hstack : s.stack = .call (.submit type fd op) :: rest)
    (hinflight : m.inflight = s.manager.inflight ++ [⟨r, op⟩]) :
    t.count ⟨m, s.cq, rest, s.state⟩ + (t.submit op).toNat =
      t.count s + (t.flight op).toNat := by
  simp only [count, hstack, hinflight, List.countP_append, List.countP_cons_toNat,
    List.countP_nil, frame, call]
  omega

theorem count_refused {m : Manager κ} {type : RequestType} {fd : Fd} {op : κ}
    {rest : List (Frame κ φ)} (comp : Component κ φ σ) (error : Int) (r : Option Nat)
    (hstack : s.stack = .call (.submit type fd op) :: rest)
    (hinflight : m.inflight = s.manager.inflight) :
    t.count ⟨m, s.cq, Loop.failFrames comp op error r ++ rest, s.state⟩ + (t.submit op).toNat =
      t.count s + (t.invoke op error).toNat + t.calls ((comp.onFail op).map .code) := by
  have hfail := t.frames_failFrames comp op error r
  simp only [count, hstack, hinflight, List.countP_append, List.countP_cons_toNat, frame, call]
  omega

end Tally

end Lmnet.IoUring
