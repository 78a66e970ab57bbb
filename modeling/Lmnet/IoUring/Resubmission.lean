import Lmnet.IoUring.Nesting
import Lmnet.IoUring.TcpServer
import Lmnet.IoUring.UdpEndpoint
import Lmnet.IoUring.UnixServer

set_option autoImplicit false

namespace Lmnet.IoUring

def TcpOp.accepts : TcpOp → Bool
  | .accept => true
  | _ => false

def TcpOp.receives : TcpOp → Bool
  | .read _ => true
  | _ => false

def TcpOp.closes : TcpOp → Bool
  | .close _ => true
  | _ => false

def UnixOp.accepts : UnixOp → Bool
  | .accept => true
  | _ => false

def UnixOp.receives : UnixOp → Bool
  | .recvMsg _ => true
  | _ => false

def UnixOp.closes : UnixOp → Bool
  | .close => true
  | _ => false

def UdpOp.receives : UdpOp → Bool
  | .receive => true
  | _ => false

def UdpOp.closes : UdpOp → Bool
  | .close => true
  | _ => false

theorem neg_of_exhausted {error : Int} (h : error = -ENOMEM ∨ error = -ESHUTDOWN) : error < 0 := by
  rcases h with rfl | rfl <;> decide

theorem final_of_exhausted {error : Int} (h : error = -ENOMEM ∨ error = -ESHUTDOWN) :
    ¬ shouldResubmitAccept error = true := by
  rcases h with rfl | rfl <;> decide

namespace TcpServer

variable {P : TcpOp → Prop}

theorem leads_submitAccept (haccept : P .accept) : LeadsTo component P 1 (.code .submitAccept) := by
  intro st c hc
  simp only [component, code, submitAccept] at hc
  split at hc
  · obtain rfl := List.mem_singleton.mp hc
    exact haccept
  · exact absurd hc List.not_mem_nil

/-- An error that is final is not followed by another accept. -/
theorem leads_resubmitAccept {result : Int}
    (haccept : shouldResubmitAccept result = true → P .accept) :
    LeadsTo component P 2 (.code (.resubmitAccept result)) := by
  intro st c hc
  simp only [component, code, resubmitAccept] at hc
  split at hc
  · rename_i hagain
    rw [Bool.and_eq_true] at hagain
    obtain rfl := List.mem_singleton.mp hc
    exact leads_submitAccept (haccept hagain.2)
  · exact absurd hc List.not_mem_nil

theorem leads_submitRead (hread : ∀ i, P (.read i)) (i : Nat) :
    LeadsTo component P 1 (.code (.submitRead i)) := by
  intro st c hc
  simp only [component, code, submitRead] at hc
  split at hc
  · obtain rfl := List.mem_singleton.mp hc
    exact hread i
  · exact absurd hc List.not_mem_nil

theorem leads_handleAccept (hread : ∀ i, P (.read i)) (clientFd : Fd) :
    LeadsTo component P 2 (.code (.handleAccept clientFd)) := by
  intro st c hc
  simp only [component, code, handleAccept] at hc
  split at hc
  · exact absurd hc List.not_mem_nil
  · obtain rfl := List.mem_singleton.mp hc
    exact leads_submitRead hread _

theorem leads_handleConnectionClose (hclose : ∀ i, P (.close i)) (i : Nat) (isError : Bool) :
    LeadsTo component P 2 (.code (.handleConnectionClose i true isError)) := by
  have hcloses : ∀ c ∈ [Call.code (.closeClient i)], LeadsTo component P 1 c := by
    intro c hc
    obtain rfl := List.mem_singleton.mp hc
    intro st' c' hc'
    obtain rfl := List.mem_singleton.mp hc'
    exact hclose i
  intro st c hc
  simp only [component, code, handleConnectionClose, if_true] at hc
  split at hc
  · exact hcloses c hc
  · exact hcloses c hc

theorem leads_accepted {result : Int} (hread : 0 ≤ result → ∀ i, P (.read i))
    (haccept : shouldResubmitAccept result = true → P .accept) (st : TcpServer) :
    ∀ c ∈ (component.callback st .accept result).2, ∃ n, LeadsTo component P n c := by
  intro c hc
  simp only [component, callback, onAccepted] at hc
  rcases List.mem_append.mp hc with hc | hc
  · split at hc
    · rename_i hpos
      obtain rfl := List.mem_singleton.mp hc
      exact ⟨2, leads_handleAccept (hread hpos) result⟩
    · exact absurd hc List.not_mem_nil
  · obtain rfl := List.mem_singleton.mp hc
    exact ⟨2, leads_resubmitAccept haccept⟩

theorem leads_received {result : Int} (hread : 0 < result → ∀ i, P (.read i))
    (hclose : ∀ i, P (.close i)) (st : TcpServer) (i : Nat) :
    ∀ c ∈ (component.callback st (.read i) result).2, ∃ n, LeadsTo component P n c := by
  intro c hc
  simp only [component, callback, handleReceive] at hc
  split at hc
  · rename_i hpos
    obtain rfl := List.mem_singleton.mp hc
    exact ⟨1, leads_submitRead (hread hpos) i⟩
  · split at hc
    · obtain rfl := List.mem_singleton.mp hc
      exact ⟨2, leads_handleConnectionClose hclose i false⟩
    · obtain rfl := List.mem_singleton.mp hc
      exact ⟨2, leads_handleConnectionClose hclose i true⟩

theorem leads_completed (st : TcpServer) (op : TcpOp) (result : Int)
    (hop : TcpOp.accepts op = true ∨ TcpOp.receives op = true) :
    ∀ c ∈ (component.callback st op result).2, ∃ n, LeadsTo component
      (fun x => (x.accepts || x.receives) = true ∨ x.closes = true) n c := by
  cases op with
  | accept => exact leads_accepted (fun _ _ => .inl rfl) (fun _ => .inl rfl) st
  | read i => exact leads_received (fun _ _ => .inl rfl) (fun _ => .inr rfl) st i
  | write | close | closeDisconnected | closeListener | other =>
    simp [TcpOp.accepts, TcpOp.receives] at hop

theorem retries : component.Retries (fun x => x.accepts || x.receives) TcpOp.closes where
  failed st op error hop _ := leads_completed st op error ((Bool.or_eq_true _ _).mp hop)
  exhausted st op error hop herror := by
    have hneg := neg_of_exhausted herror
    have hfinal := final_of_exhausted herror
    cases op with
    | accept => exact leads_accepted (fun hpos => by omega) (fun hagain => absurd hagain hfinal) st
    | read i => exact leads_received (fun hpos => by omega) (fun _ => rfl) st i
    | write | close | closeDisconnected | closeListener | other => cases hop
  onFail op hop := by
    cases op with
    | accept | read => rfl
    | write | close | closeDisconnected | closeListener | other => cases hop
  closed st op result hop := by
    cases op with
    | close => rfl
    | accept | read | write | closeDisconnected | closeListener | other => cases hop
  onFailClosed op hop f hf := by
    cases op with
    | close i =>
      obtain rfl := List.mem_singleton.mp hf
      exact ⟨1, fun _ _ hnone => absurd hnone List.not_mem_nil⟩
    | accept | read | write | closeDisconnected | closeListener | other => cases hop

end TcpServer

namespace UnixServer

variable {P : UnixOp → Prop}

theorem leads_submitAccept (haccept : P .accept) : LeadsTo component P 1 (.code .submitAccept) := by
  intro st c hc
  simp only [component, code, submitAccept] at hc
  split at hc
  · obtain rfl := List.mem_singleton.mp hc
    exact haccept
  · exact absurd hc List.not_mem_nil

theorem leads_resubmitAccept {result : Int}
    (haccept : shouldResubmitAccept result = true → P .accept) :
    LeadsTo component P 2 (.code (.resubmitAccept result)) := by
  intro st c hc
  simp only [component, code, resubmitAccept] at hc
  split at hc
  · rename_i hagain
    rw [Bool.and_eq_true] at hagain
    obtain rfl := List.mem_singleton.mp hc
    exact leads_submitAccept (haccept hagain.2)
  · exact absurd hc List.not_mem_nil

theorem leads_submitRead {clientFd : Fd} (hread : P (.recvMsg clientFd)) :
    LeadsTo component P 1 (.code (.submitRead clientFd)) := by
  intro st c hc
  simp only [component, code, submitRead] at hc
  split at hc
  · obtain rfl := List.mem_singleton.mp hc
    exact hread
  · exact absurd hc List.not_mem_nil

theorem leads_handleAccept {clientFd : Int} (hread : 0 ≤ clientFd → P (.recvMsg clientFd)) :
    LeadsTo component P 2 (.code (.handleAccept clientFd)) := by
  intro st c hc
  simp only [component, code, handleAccept] at hc
  split at hc
  · rename_i hpos
    obtain rfl := List.mem_singleton.mp hc
    exact leads_submitRead (hread hpos)
  · exact absurd hc List.not_mem_nil

theorem leads_handleConnectionClose (hclose : P .close) (clientFd : Fd) :
    LeadsTo component P 1 (.code (.handleConnectionClose clientFd)) := by
  intro st c hc
  simp only [component, code, handleConnectionClose] at hc
  split at hc
  · obtain rfl := List.mem_singleton.mp hc
    exact hclose
  · obtain rfl := List.mem_singleton.mp hc
    exact hclose

theorem leads_accepted {result : Int} (hread : 0 ≤ result → P (.recvMsg result))
    (haccept : shouldResubmitAccept result = true → P .accept) (st : UnixServer) :
    ∀ c ∈ (component.callback st .accept result).2, ∃ n, LeadsTo component P n c := by
  intro c hc
  rcases List.mem_cons.mp hc with rfl | hc
  · exact ⟨2, leads_handleAccept hread⟩
  · obtain rfl := List.mem_singleton.mp hc
    exact ⟨2, leads_resubmitAccept haccept⟩

theorem leads_received {clientFd : Fd} {result : Int}
    (hread : 0 < result ∨ result = -EAGAIN → P (.recvMsg clientFd)) (hclose : P .close)
    (st : UnixServer) :
    ∀ c ∈ (component.callback st (.recvMsg clientFd) result).2, ∃ n, LeadsTo component P n c := by
  intro c hc
  simp only [component, callback, handleReceiveWithFds] at hc
  split at hc
  · exact absurd hc List.not_mem_nil
  · split at hc
    · rename_i hpos
      obtain rfl := List.mem_singleton.mp hc
      exact ⟨1, leads_submitRead (hread (.inl hpos))⟩
    · split at hc
      · obtain rfl := List.mem_singleton.mp hc
        exact ⟨1, leads_handleConnectionClose hclose clientFd⟩
      · split at hc
        · rename_i hagain
          obtain rfl := List.mem_singleton.mp hc
          exact ⟨1, leads_submitRead (hread (.inr hagain))⟩
        · split at hc
          · obtain rfl := List.mem_singleton.mp hc
            exact ⟨1, leads_handleConnectionClose hclose clientFd⟩
          · exact absurd hc List.not_mem_nil

theorem leads_completed (st : UnixServer) (op : UnixOp) (result : Int)
    (hop : UnixOp.accepts op = true ∨ UnixOp.receives op = true) :
    ∀ c ∈ (component.callback st op result).2, ∃ n, LeadsTo component
      (fun x => (x.accepts || x.receives) = true ∨ x.closes = true) n c := by
  cases op with
  | accept => exact leads_accepted (fun _ => .inl rfl) (fun _ => .inl rfl) st
  | recvMsg clientFd => exact leads_received (fun _ => .inl rfl) (.inr rfl) st
  | write | sendMsg | close | other => simp [UnixOp.accepts, UnixOp.receives] at hop

theorem retries : component.Retries (fun x => x.accepts || x.receives) UnixOp.closes where
  failed st op error hop _ := leads_completed st op error ((Bool.or_eq_true _ _).mp hop)
  exhausted st op error hop herror := by
    have hneg := neg_of_exhausted herror
    have hfinal := final_of_exhausted herror
    have hread : ¬ (0 < error ∨ error = -EAGAIN) := by rcases herror with rfl | rfl <;> decide
    cases op with
    | accept => exact leads_accepted (fun hpos => by omega) (fun hagain => absurd hagain hfinal) st
    | recvMsg clientFd =>
      exact leads_received (P := fun x => UnixOp.closes x = true)
        (fun hagain => absurd hagain hread) rfl st
    | write | sendMsg | close | other => cases hop
  onFail op hop := by
    cases op with
    | accept | recvMsg => rfl
    | write | sendMsg | close | other => cases hop
  closed st op result hop := by
    cases op with
    | close => rfl
    | accept | recvMsg | write | sendMsg | other => cases hop
  onFailClosed op hop f hf := by
    cases op with
    | close =>
      obtain rfl := List.mem_singleton.mp hf
      exact ⟨1, fun _ _ hnone => absurd hnone List.not_mem_nil⟩
    | accept | recvMsg | write | sendMsg | other => cases hop

end UnixServer

namespace UdpEndpoint

variable {kind : UdpKind} {P : UdpOp → Prop}

theorem leads_stop (hclose : P .close) (st : UdpEndpoint) :
    ∀ c ∈ st.stop.2, LeadsTo (component kind) P 0 c := by
  intro c hc
  unfold stop at hc
  split at hc
  · split at hc
    · obtain rfl := List.mem_singleton.mp hc
      exact hclose
    · exact absurd hc List.not_mem_nil
  · exact absurd hc List.not_mem_nil

theorem leads_startReceive (hreceive : P .receive) :
    LeadsTo (component kind) P 1 (.code .startReceive) := by
  intro st c hc
  simp only [component, code, startReceive] at hc
  split at hc
  · obtain rfl := List.mem_singleton.mp hc
    exact hreceive
  · exact absurd hc List.not_mem_nil

theorem leads_restart (hreceive : P .receive) : LeadsTo (component kind) P 2 (.code .restart) := by
  intro st c hc
  simp only [component, code] at hc
  split at hc
  · obtain rfl := List.mem_singleton.mp hc
    exact leads_startReceive hreceive
  · exact absurd hc List.not_mem_nil

theorem leads_received {result : Int}
    (hreceive : isFatalSubmissionError result = false → P .receive) (hclose : P .close)
    (st : UdpEndpoint) :
    ∀ c ∈ ((component kind).callback st .receive result).2,
      ∃ n, LeadsTo (component kind) P n c := by
  intro c hc
  simp only [component, callback, handleReceive] at hc
  split at hc
  · rename_i hpos
    have hfatal : isFatalSubmissionError result = false := by
      simp only [isFatalSubmissionError, Bool.or_eq_false_iff, decide_eq_false_iff_not]
      simp only [ENOMEM, ESHUTDOWN, ECANCELED]
      omega
    rcases List.mem_cons.mp hc with rfl | hc
    · exact ⟨1, fun _ _ hnone => absurd hnone List.not_mem_nil⟩
    · obtain rfl := List.mem_singleton.mp hc
      exact ⟨2, leads_restart (hreceive hfatal)⟩
  · split at hc
    · split at hc
      · split at hc
        · exact ⟨0, leads_stop hclose st c hc⟩
        · rename_i hfatal
          obtain rfl := List.mem_singleton.mp hc
          exact ⟨2, leads_restart (hreceive (Bool.eq_false_iff.mpr hfatal))⟩
      · exact absurd hc List.not_mem_nil
    · exact absurd hc List.not_mem_nil

theorem leads_completed (st : UdpEndpoint) (op : UdpOp) (result : Int)
    (hop : false = true ∨ UdpOp.receives op = true) :
    ∀ c ∈ ((component kind).callback st op result).2, ∃ n, LeadsTo (component kind)
      (fun x => (false || x.receives) = true ∨ x.closes = true) n c := by
  cases op with
  | receive => exact leads_received (fun _ => .inl rfl) (.inr rfl) st
  | send | close | other => simp [UdpOp.receives] at hop

theorem retries : (component kind).Retries (fun x => false || x.receives) UdpOp.closes where
  failed st op error hop _ := leads_completed st op error (.inr hop)
  exhausted st op error hop herror := by
    have hfatal : isFatalSubmissionError error = true := by rcases herror with rfl | rfl <;> decide
    cases op with
    | receive =>
      exact leads_received (P := fun x => UdpOp.closes x = true)
        (fun hagain => absurd hfatal (Bool.eq_false_iff.mp hagain)) rfl st
    | send | close | other => cases hop
  onFail op hop := by
    cases op with
    | receive => rfl
    | send | close | other => cases hop
  closed st op result hop := by
    cases op with
    | close => rfl
    | receive | send | other => cases hop
  onFailClosed op hop f hf := by
    cases op with
    | close =>
      obtain rfl := List.mem_singleton.mp hf
      exact ⟨1, fun _ _ hnone => absurd hnone List.not_mem_nil⟩
    | receive | send | other => cases hop

end UdpEndpoint

end Lmnet.IoUring
