import Mathlib.Algebra.GroupWithZero.Nat
import Lmnet.Lib.Lists
import Lmnet.Lib.Machine
import Lmnet.Lib.Numbered

/-!
The writes of one Windows TCP connection: `Send` of `TcpServerImpl` and `TcpClientImpl`,
`SubmitWriteRequest`, and the `WRITE` case of `HandleCompletion`. Winsock takes the
overlapped sends of a socket in the order in which they were posted; their completions
may be handled in any order.
-/

set_option autoImplicit false

namespace Lmnet.Windows

def dword (n : Nat) : Nat := n % 2 ^ 32

structure WriteRequest where
  call : Nat
  buffer : List UInt8
  transferredBytes : Nat
  wsaBuf : List UInt8
  deriving DecidableEq, Repr

inductive WriteResult where
  | resubmitted (req : WriteRequest)
  | callback (bytesSent error : Nat)
  deriving DecidableEq, Repr

namespace WriteRequest

def submit (call : Nat) (buffer : List UInt8) : WriteRequest :=
  ⟨call, buffer, 0, buffer.take (dword buffer.length)⟩

def advance (req : WriteRequest) (bytes : Nat) : WriteRequest :=
  { req with
    transferredBytes := dword (req.transferredBytes + bytes), wsaBuf := req.wsaBuf.drop bytes }

/-- The `WRITE` case; `wsaError` is the error of the second `WSASend`, if it has one. -/
def handleCompletion (req : WriteRequest) (bytes error : Nat) (wsaError : Option Nat) :
    WriteResult :=
  if error = 0 ∧ 0 < bytes ∧ bytes < req.wsaBuf.length then
    match wsaError with
    | none => .resubmitted (req.advance bytes)
    | some e => .callback (dword ((req.advance bytes).transferredBytes + bytes)) e
  else
    .callback (if error = 0 then dword req.buffer.length
      else dword (req.transferredBytes + bytes)) error

end WriteRequest

structure WriteCompletion where
  req : WriteRequest
  bytes : Nat
  deriving DecidableEq, Repr

/-- `posted` are the sends Winsock still has, in `WSASend` order. Each byte on the
socket carries the number of the call whose buffer it is from. -/
structure WriteConnection where
  sent : List (List UInt8)
  posted : List WriteRequest
  completions : List WriteCompletion
  written : List (Nat × UInt8)
  deriving DecidableEq, Repr

inductive WriteAct where
  | serverSend (fdValid isRunning : Bool) (buffer : Option (List UInt8)) (submitted : Bool)
  | clientSend (isRunning isConnected : Bool) (data : Option (List UInt8)) (submitted : Bool)
  | transfer (bytes : Nat)
  | complete (i : Nat) (wsaError : Option Nat)
  deriving DecidableEq, Repr

def serverSend (fdValid isRunning : Bool) (buffer : Option (List UInt8)) : Option (List UInt8) :=
  buffer.filter fun b => !b.isEmpty && (fdValid && isRunning)

def clientSend (isRunning isConnected : Bool) (data : Option (List UInt8)) :
    Option (List UInt8) :=
  data.filter fun b => !b.isEmpty && (isRunning && isConnected)

namespace WriteConnection

def connected : WriteConnection := ⟨[], [], [], []⟩

/-- `SubmitWriteRequest`, which may find no request or a failing `WSASend`. -/
def submitWriteRequest (s : WriteConnection) (buffer : Option (List UInt8)) (submitted : Bool) :
    WriteConnection :=
  match buffer with
  | none => s
  | some b =>
      if submitted then
        { s with sent := s.sent ++ [b], posted := s.posted ++ [.submit s.sent.length b] }
      else s

def transfer (s : WriteConnection) (bytes : Nat) : Option WriteConnection :=
  match s.posted with
  | [] => none
  | req :: rest =>
      if bytes ≤ req.wsaBuf.length then
        some { s with
          posted := rest
          completions := s.completions ++ [⟨req, bytes⟩]
          written := s.written ++ Numbered.mark req.call (req.wsaBuf.take bytes) }
      else none

def complete (s : WriteConnection) (i : Nat) (wsaError : Option Nat) : Option WriteConnection :=
  match s.completions[i]? with
  | none => none
  | some c =>
      match c.req.handleCompletion c.bytes 0 wsaError with
      | .resubmitted req =>
          some { s with completions := s.completions.eraseIdx i, posted := s.posted ++ [req] }
      | .callback _ _ => some { s with completions := s.completions.eraseIdx i }

def step (s : WriteConnection) : WriteAct → Option WriteConnection
  | .serverSend fdValid isRunning buffer submitted =>
      some (s.submitWriteRequest (serverSend fdValid isRunning buffer) submitted)
  | .clientSend isRunning isConnected data submitted =>
      some (s.submitWriteRequest (clientSend isRunning isConnected data) submitted)
  | .transfer bytes => s.transfer bytes
  | .complete i wsaError => s.complete i wsaError

def machine : Machine WriteConnection WriteAct where
  init s := s = connected
  step := step

end WriteConnection

def WriteRequest.pending (req : WriteRequest) : List (Nat × UInt8) :=
  Numbered.mark req.call req.wsaBuf

def WriteCompletion.left (c : WriteCompletion) : List (Nat × UInt8) :=
  Numbered.mark c.req.call (c.req.wsaBuf.drop c.bytes)

def WriteCompletion.isPartial (c : WriteCompletion) : Bool := c.bytes < c.req.wsaBuf.length

theorem WriteCompletion.isPartial_iff {c : WriteCompletion} :
    c.isPartial = true ↔ c.bytes < c.req.wsaBuf.length := by
  simp [WriteCompletion.isPartial]

theorem WriteCompletion.le_of_full {c : WriteCompletion} (h : c.isPartial = false) :
    c.req.wsaBuf.length ≤ c.bytes := by
  simpa [WriteCompletion.isPartial] using h

namespace WriteConnection

/-- Sends of which a part is on the socket, or nothing, and no worker has seen that. -/
def partials (s : WriteConnection) : List WriteCompletion :=
  s.completions.filter WriteCompletion.isPartial

def stream (s : WriteConnection) : List (Nat × UInt8) := Numbered.line 0 s.sent

/-- What a step must meet for the buffers to stay in order: no `Send` while a partial
completion waits for a worker, none of 4 GiB; a partial completion only of a send that
has no other behind it; and a second `WSASend` that succeeds. -/
def Undisturbed (s : WriteConnection) : WriteAct → Prop
  | .serverSend fdValid isRunning buffer submitted =>
      ∀ b, serverSend fdValid isRunning buffer = some b → submitted = true →
        s.partials = [] ∧ b.length < 2 ^ 32
  | .clientSend isRunning isConnected data submitted =>
      ∀ b, clientSend isRunning isConnected data = some b → submitted = true →
        s.partials = [] ∧ b.length < 2 ^ 32
  | .transfer bytes =>
      ∀ req rest, s.posted = req :: rest →
        bytes = req.wsaBuf.length ∨ (0 < bytes ∧ rest = [])
  | .complete i wsaError =>
      ∀ c, s.completions[i]? = some c → c.isPartial = true → wsaError = none

/-- What is on the socket, what is posted and what a partial completion left make up the
buffers in call order. -/
def InOrder (s : WriteConnection) : Prop :=
  (s.partials = [] ∧ s.written ++ s.posted.flatMap WriteRequest.pending = s.stream) ∨
    ∃ c, s.partials = [c] ∧ 0 < c.bytes ∧ s.posted = [] ∧ s.written ++ c.left = s.stream

def owners (s : WriteConnection) : List Nat :=
  s.posted.map WriteRequest.call ++ s.partials.map fun c => c.req.call

def total (s : WriteConnection) : Nat :=
  s.written.length + (s.posted.flatMap WriteRequest.pending).length +
    (s.partials.flatMap WriteCompletion.left).length

structure Ground (s : WriteConnection) : Prop where
  once : ∀ k, s.owners.count k ≤ if k < s.sent.length then 1 else 0
  begun : ∀ c ∈ s.partials, 0 < c.bytes → ∃ x ∈ s.written, x.1 = c.req.call
  length : s.total ≤ s.stream.length
  whole : (∀ req ∈ s.posted, req.wsaBuf ≠ []) ∨ s.total < s.stream.length

inductive Move (s : WriteConnection) : WriteAct → WriteConnection → Prop
  | refused (a : WriteAct) (h : s.Undisturbed a) : Move s a s
  | sent (a : WriteAct) (b : List UInt8) (hb : b ≠ [])
      (h : s.Undisturbed a ↔ s.partials = [] ∧ b.length < 2 ^ 32) :
      Move s a { s with sent := s.sent ++ [b], posted := s.posted ++ [.submit s.sent.length b] }
  | transferred (req : WriteRequest) (rest : List WriteRequest) (bytes : Nat)
      (hposted : s.posted = req :: rest) (hle : bytes ≤ req.wsaBuf.length) :
      Move s (.transfer bytes) { s with
        posted := rest
        completions := s.completions ++ [⟨req, bytes⟩]
        written := s.written ++ Numbered.mark req.call (req.wsaBuf.take bytes) }
  | resubmitted (i : Nat) (wsaError : Option Nat) (c : WriteCompletion)
      (hc : s.completions[i]? = some c) (hshort : c.isPartial = true) (hpos : 0 < c.bytes)
      (hagain : wsaError = none) :
      Move s (.complete i wsaError) { s with
        completions := s.completions.eraseIdx i, posted := s.posted ++ [c.req.advance c.bytes] }
  | called (i : Nat) (wsaError : Option Nat) (c : WriteCompletion)
      (hc : s.completions[i]? = some c)
      (hend : c.isPartial = true → c.bytes = 0 ∨ wsaError ≠ none) :
      Move s (.complete i wsaError) { s with completions := s.completions.eraseIdx i }

theorem move_submit (s : WriteConnection) (a : WriteAct) (buffer : Option (List UInt8))
    (submitted : Bool) (hbuffer : ∀ b, buffer = some b → b ≠ [])
    (ha : s.Undisturbed a ↔ ∀ b, buffer = some b → submitted = true →
      s.partials = [] ∧ b.length < 2 ^ 32) :
    Move s a (s.submitWriteRequest buffer submitted) := by
  cases buffer with
  | none => exact .refused a (ha.mpr (by simp))
  | some b =>
    cases submitted with
    | false => exact .refused a (ha.mpr (by simp))
    | true => exact .sent a b (hbuffer b rfl) (by simpa using ha)

theorem nonempty_of_send {buffer : Option (List UInt8)} {p : Bool} {b : List UInt8}
    (h : (buffer.filter fun b => !b.isEmpty && p) = some b) : b ≠ [] := by
  have hguard := (Option.filter_eq_some_iff.mp h).2
  intro hnil
  simp [hnil] at hguard

theorem move_of_step {s s' : WriteConnection} {a : WriteAct} (h : s.step a = some s') :
    Move s a s' := by
  cases a with
  | serverSend fdValid isRunning buffer submitted =>
    cases h
    exact s.move_submit _ _ submitted (fun b hb => nonempty_of_send hb) Iff.rfl
  | clientSend isRunning isConnected data submitted =>
    cases h
    exact s.move_submit _ _ submitted (fun b hb => nonempty_of_send hb) Iff.rfl
  | transfer bytes =>
    simp only [step, transfer] at h
    split at h
    · cases h
    · rename_i req rest hposted
      split at h
      · rename_i hle
        cases h
        exact .transferred req rest bytes hposted hle
      · cases h
  | complete i wsaError =>
    simp only [step, complete] at h
    split at h
    · cases h
    · rename_i c hc
      by_cases hagain : c.isPartial = true ∧ 0 < c.bytes ∧ wsaError = none
      · obtain ⟨hshort, hpos, rfl⟩ := hagain
        have hlt := WriteCompletion.isPartial_iff.mp hshort
        simp only [WriteRequest.handleCompletion, hpos, hlt, and_self, if_true] at h
        cases h
        exact .resubmitted i none c hc hshort hpos rfl
      · have hend : c.isPartial = true → c.bytes = 0 ∨ wsaError ≠ none := by
          intro hshort
          by_cases hzero : c.bytes = 0
          · exact .inl hzero
          · exact .inr fun hnone => hagain ⟨hshort, Nat.pos_of_ne_zero hzero, hnone⟩
        have hcallback : ∃ sent error, c.req.handleCompletion c.bytes 0 wsaError =
            .callback sent error := by
          unfold WriteRequest.handleCompletion
          split
          · rename_i hlt
            cases hw : wsaError with
            | none =>
              have hshort := WriteCompletion.isPartial_iff.mpr hlt.2.2
              rcases hend hshort with hzero | hne
              · omega
              · exact absurd hw hne
            | some e => exact ⟨_, _, rfl⟩
          · exact ⟨_, _, rfl⟩
        obtain ⟨sent, error, heq⟩ := hcallback
        rw [heq] at h
        cases h
        exact .called i wsaError c hc hend

theorem pending_submit {k : Nat} {b : List UInt8} (h : b.length < 2 ^ 32) :
    (WriteRequest.submit k b).pending = Numbered.mark k b := by
  rw [WriteRequest.pending, WriteRequest.submit, dword, Nat.mod_eq_of_lt h, List.take_length]

theorem length_pending_submit (k : Nat) (b : List UInt8) :
    (WriteRequest.submit k b).pending.length = min (dword b.length) b.length := by
  simp [WriteRequest.submit, WriteRequest.pending]

theorem stream_sent (s : WriteConnection) (b : List UInt8) (posted : List WriteRequest) :
    stream { s with sent := s.sent ++ [b], posted := posted } =
      s.stream ++ Numbered.mark s.sent.length b :=
  Numbered.line_concat s.sent b

theorem pending_split (req : WriteRequest) (n : Nat) :
    Numbered.mark req.call (req.wsaBuf.take n) ++ WriteCompletion.left ⟨req, n⟩ = req.pending :=
  Numbered.mark_take_drop _ _ _

theorem partials_concat (s : WriteConnection) (c : WriteCompletion) (posted : List WriteRequest)
    (written : List (Nat × UInt8)) :
    partials { s with
      posted := posted, completions := s.completions ++ [c], written := written } =
      s.partials ++ if c.isPartial then [c] else [] := by
  simp only [partials, List.filter_append, List.filter_cons, List.filter_nil]

theorem partials_erase (s : WriteConnection) {i : Nat} {c : WriteCompletion}
    (hc : s.completions[i]? = some c) (posted : List WriteRequest) :
    ∃ front back, s.partials = front ++ (if c.isPartial then [c] else []) ++ back ∧
      partials { s with completions := s.completions.eraseIdx i, posted := posted } =
        front ++ back := by
  obtain ⟨front, back, hall, herase⟩ := List.exists_eraseIdx hc
  refine ⟨front.filter WriteCompletion.isPartial, back.filter WriteCompletion.isPartial, ?_, ?_⟩
  · rw [partials, hall, List.filter_append, List.filter_cons]
    split <;> simp
  · simp only [partials, herase, List.filter_append]

theorem partials_erase_full (s : WriteConnection) {i : Nat} {c : WriteCompletion}
    (hc : s.completions[i]? = some c) (hfull : c.isPartial = false) :
    partials { s with completions := s.completions.eraseIdx i } = s.partials := by
  obtain ⟨front, back, hbefore, hafter⟩ := s.partials_erase hc s.posted
  simp only [hfull, Bool.false_eq_true, if_false, List.append_nil] at hbefore
  rw [hafter, hbefore]

theorem left_ne_nil {c : WriteCompletion} (h : c.isPartial = true) : c.left ≠ [] := by
  have hlt := WriteCompletion.isPartial_iff.mp h
  intro hnil
  have hlen := congrArg List.length hnil
  simp only [WriteCompletion.left, Numbered.length_mark, List.length_drop,
    List.length_nil] at hlen
  omega

theorem left_of_full {c : WriteCompletion} (h : c.isPartial = false) : c.left = [] := by
  simp [WriteCompletion.left, List.drop_eq_nil_of_le (WriteCompletion.le_of_full h)]

theorem total_sent (s : WriteConnection) (b : List UInt8) :
    total { s with sent := s.sent ++ [b], posted := s.posted ++ [.submit s.sent.length b] } =
      s.total + min (dword b.length) b.length := by
  have hnew := length_pending_submit s.sent.length b
  have hpartials : partials { s with
      sent := s.sent ++ [b], posted := s.posted ++ [.submit s.sent.length b] } = s.partials := rfl
  simp only [total, hpartials, List.flatMap_append, List.flatMap_cons, List.flatMap_nil,
    List.append_nil, List.length_append]
  omega

theorem total_transferred (s : WriteConnection) {req : WriteRequest} {rest : List WriteRequest}
    (bytes : Nat) (hposted : s.posted = req :: rest) :
    total { s with
      posted := rest
      completions := s.completions ++ [⟨req, bytes⟩]
      written := s.written ++ Numbered.mark req.call (req.wsaBuf.take bytes) } = s.total := by
  have hsplit := congrArg List.length (pending_split req bytes)
  have hleft (h : (WriteCompletion.mk req bytes).isPartial = false) :=
    congrArg List.length (left_of_full h)
  simp only [total, partials_concat, hposted, List.flatMap_append, List.flatMap_cons,
    List.length_append] at hsplit ⊢
  cases hshort : (WriteCompletion.mk req bytes).isPartial with
  | false =>
    have hnil := hleft hshort
    simp only [Bool.false_eq_true, if_false, List.flatMap_nil, List.length_nil] at hnil ⊢
    omega
  | true =>
    simp only [if_true, List.flatMap_cons, List.flatMap_nil, List.append_nil]
    omega

theorem total_resubmitted (s : WriteConnection) {i : Nat} {c : WriteCompletion}
    (hc : s.completions[i]? = some c) (hshort : c.isPartial = true) :
    total { s with
      completions := s.completions.eraseIdx i
      posted := s.posted ++ [c.req.advance c.bytes] } = s.total := by
  obtain ⟨front, back, hbefore, hafter⟩ :=
    s.partials_erase hc (s.posted ++ [c.req.advance c.bytes])
  have hleft : (c.req.advance c.bytes).pending = c.left := rfl
  simp only [hshort, if_true] at hbefore
  simp only [total, hafter, hbefore, List.flatMap_append, List.flatMap_cons,
    List.flatMap_nil, List.append_nil, List.length_append, hleft]
  omega

theorem total_called (s : WriteConnection) {i : Nat} {c : WriteCompletion}
    (hc : s.completions[i]? = some c) :
    total { s with completions := s.completions.eraseIdx i } +
      (if c.isPartial then c.left.length else 0) = s.total := by
  obtain ⟨front, back, hbefore, hafter⟩ := s.partials_erase hc s.posted
  simp only [total, hafter, hbefore, List.flatMap_append, List.length_append]
  split <;> simp only [List.flatMap_cons, List.flatMap_nil, List.append_nil, List.length_nil] <;>
    omega

/-- No step makes up bytes: what a state accounts for grows by no more than the stream,
by less when a send is cut or the rest of one is given up. -/
theorem Move.total {s s' : WriteConnection} {a : WriteAct} (hm : Move s a s') :
    s'.total + s.stream.length ≤ s.total + s'.stream.length := by
  cases hm with
  | refused _ ha => exact Nat.le_refl _
  | sent _ b hb ha =>
    rw [total_sent, stream_sent, List.length_append, Numbered.length_mark]
    omega
  | transferred req rest bytes hposted hle =>
    rw [s.total_transferred bytes hposted]
    exact Nat.le_refl _
  | resubmitted i wsaError c hc hshort hpos hagain =>
    rw [s.total_resubmitted hc hshort]
    exact Nat.le_refl _
  | called i wsaError c hc hend =>
    have hcalled := s.total_called hc
    have hstream : stream { s with completions := s.completions.eraseIdx i } = s.stream := rfl
    rw [hstream]
    omega

theorem connected_ground : connected.Ground := by
  refine ⟨fun k => ?_, ?_, ?_, ?_⟩ <;> simp [connected, owners, partials, WriteConnection.total]

theorem Ground.move {s s' : WriteConnection} {a : WriteAct} (h : s.Ground) (hm : Move s a s') :
    s'.Ground := by
  have htotal := hm.total
  have hlength : s'.total ≤ s'.stream.length := by
    have hle := h.length
    omega
  cases hm with
  | refused _ ha => exact h
  | sent _ b hb ha =>
    refine ⟨fun k => ?_, fun c hc => h.begun c hc, hlength, ?_⟩
    · have hk := h.once k
      simp only [owners, partials, List.map_append, List.map_cons, List.map_nil,
        List.count_append, List.count_singleton, List.length_append, List.length_singleton,
        WriteRequest.submit] at hk ⊢
      grind
    · by_cases hcut : dword b.length = 0
      · -- nothing of a buffer of a multiple of 4 GiB is ever sent
        right
        have hpos := List.length_pos_iff.mpr hb
        have hle := h.length
        rw [total_sent, stream_sent, List.length_append, Numbered.length_mark, hcut]
        omega
      · rcases h.whole with hne | hlt
        · left
          intro req hreq
          rcases List.mem_append.mp hreq with hreq | hreq
          · exact hne req hreq
          · rw [List.mem_singleton.mp hreq]
            simp [WriteRequest.submit, hb, hcut]
        · exact .inr (by omega)
  | transferred req rest bytes hposted hle =>
    refine ⟨fun k => ?_, fun c hc hpos => ?_, hlength, ?_⟩
    · have hk := h.once k
      simp only [owners, partials_concat]
      simp only [owners, hposted, List.map_cons, List.cons_append, List.count_cons,
        List.count_append] at hk
      split <;> simp only [List.map_append, List.map_cons, List.map_nil, List.append_nil,
        List.count_append, List.count_cons, List.count_nil] <;> omega
    · rw [partials_concat] at hc
      rcases List.mem_append.mp hc with hc | hc
      · obtain ⟨x, hx, hcall⟩ := h.begun c hc hpos
        exact ⟨x, List.mem_append_left _ hx, hcall⟩
      · split at hc
        · obtain rfl := List.mem_singleton.mp hc
          have hlt : 0 < (Numbered.mark req.call (req.wsaBuf.take bytes)).length := by
            rw [Numbered.length_mark, List.length_take]
            exact Nat.lt_min.mpr ⟨hpos, Nat.lt_of_lt_of_le hpos hle⟩
          obtain ⟨x, hx⟩ := List.exists_mem_of_length_pos hlt
          exact ⟨x, List.mem_append_right _ hx, Numbered.fst_of_mem_mark hx⟩
        · simp at hc
    · rcases h.whole with hne | hlt
      · exact .inl fun r hr => hne r (by rw [hposted]; exact List.mem_cons_of_mem req hr)
      · exact .inr (by omega)
  | resubmitted i wsaError c hc hshort hpos hagain =>
    obtain ⟨front, back, hbefore, hafter⟩ :=
      s.partials_erase hc (s.posted ++ [c.req.advance c.bytes])
    simp only [hshort, if_true] at hbefore
    refine ⟨fun k => ?_, fun d hd => ?_, hlength, ?_⟩
    · have hk := h.once k
      simp only [owners, hafter]
      simp only [owners, hbefore, List.map_append, List.map_cons, List.map_nil, List.count_append,
        List.count_cons, List.count_nil, WriteRequest.advance] at hk ⊢
      omega
    · rw [hafter] at hd
      refine h.begun d ?_
      rw [hbefore]
      grind
    · rcases h.whole with hne | hlt
      · left
        intro req hreq
        rcases List.mem_append.mp hreq with hreq | hreq
        · exact hne req hreq
        · rw [List.mem_singleton.mp hreq]
          simpa [WriteRequest.advance, WriteCompletion.isPartial] using hshort
      · exact .inr (by omega)
  | called i wsaError c hc hend =>
    obtain ⟨front, back, hbefore, hafter⟩ := s.partials_erase hc s.posted
    refine ⟨fun k => ?_, fun d hd => ?_, hlength, ?_⟩
    · have hk := h.once k
      simp only [owners, hafter]
      simp only [owners, hbefore, List.map_append, List.count_append] at hk ⊢
      omega
    · rw [hafter] at hd
      refine h.begun d ?_
      rw [hbefore]
      grind
    · exact h.whole.imp_right fun hlt => by omega

theorem InOrder.total {s : WriteConnection} (h : s.InOrder) : s.total = s.stream.length := by
  rcases h with ⟨hpartials, hdata⟩ | ⟨c, hpartials, -, hposted, hdata⟩
  · rw [WriteConnection.total, ← hdata, hpartials]
    simp
  · rw [WriteConnection.total, ← hdata, hpartials, hposted]
    simp

theorem InOrder.move {s s' : WriteConnection} {a : WriteAct} (h : s.InOrder)
    (hc : s.Undisturbed a) (hm : Move s a s') : s'.InOrder := by
  cases hm with
  | refused _ ha => exact h
  | sent _ b hb ha =>
    obtain ⟨hnone, hlen⟩ := ha.mp hc
    rcases h with ⟨-, hdata⟩ | ⟨c, hpartials, -⟩
    · refine .inl ⟨hnone, ?_⟩
      rw [stream_sent, ← hdata]
      simp [pending_submit hlen]
    · simp [hnone] at hpartials
  | transferred req rest bytes hposted hle =>
    rcases h with ⟨hpartials, hdata⟩ | ⟨c, -, -, hnil, -⟩
    · simp only [hposted, List.flatMap_cons, ← pending_split req bytes] at hdata
      cases hshort : (WriteCompletion.mk req bytes).isPartial with
      | false =>
        rw [left_of_full hshort] at hdata
        refine .inl ⟨by rw [partials_concat, hpartials, hshort]; rfl, ?_⟩
        simpa [stream] using hdata
      | true =>
        have hlt : bytes < req.wsaBuf.length := WriteCompletion.isPartial_iff.mp hshort
        rcases hc req rest hposted with hfull | ⟨hpos, rfl⟩
        · omega
        · refine .inr ⟨⟨req, bytes⟩, by rw [partials_concat, hpartials, hshort]; rfl, hpos, rfl, ?_⟩
          simpa [stream] using hdata
    · simp [hposted] at hnil
  | resubmitted i wsaError c hcompletion hshort hpos hagain =>
    obtain ⟨front, back, hbefore, hafter⟩ :=
      s.partials_erase hcompletion (s.posted ++ [c.req.advance c.bytes])
    simp only [hshort, if_true] at hbefore
    rcases h with ⟨hpartials, -⟩ | ⟨d, hpartials, -, hposted, hdata⟩
    · simp [hbefore] at hpartials
    · obtain ⟨rfl, rfl, rfl⟩ : front = [] ∧ back = [] ∧ c = d := by
        rw [hbefore, List.append_assoc] at hpartials
        cases front with
        | nil => simpa [and_comm] using hpartials
        | cons x xs => simp at hpartials
      refine .inl ⟨hafter, ?_⟩
      have hleft : (c.req.advance c.bytes).pending = c.left := rfl
      simpa [hposted, hleft, stream] using hdata
  | called i wsaError c hcompletion hend =>
    cases hshort : c.isPartial with
    | false =>
      unfold InOrder at h ⊢
      rw [s.partials_erase_full hcompletion hshort]
      exact h
    | true =>
      have hnone := hc c hcompletion hshort
      have hmem : c ∈ s.partials :=
        List.mem_filter.mpr ⟨List.mem_of_getElem? hcompletion, hshort⟩
      rcases h with ⟨hpartials, -⟩ | ⟨d, hpartials, hpos, -, -⟩
      · simp [hpartials] at hmem
      · rw [hpartials, List.mem_singleton] at hmem
        subst hmem
        rcases hend hshort with hzero | hne
        · omega
        · exact absurd hnone hne

/-- With bytes of a call on the socket and the rest in a partial completion, the bytes of a
posted send between them are out of order: no call owns two of these. -/
theorem Ground.not_between {s : WriteConnection} (hg : s.Ground)
    (htotal : s.total = s.stream.length) {c : WriteCompletion} (hc : c ∈ s.partials)
    (hpos : 0 < c.bytes) {req : WriteRequest} (hreq : req ∈ s.posted)
    {m : List (Nat × UInt8)} (hm : ∀ b ∈ req.wsaBuf, (req.call, b) ∈ m) :
    s.written ++ m ++ c.left ≠ s.stream := by
  intro hline
  have hne : req.wsaBuf ≠ [] := by
    rcases hg.whole with hne | hlt
    · exact hne req hreq
    · omega
  obtain ⟨x, hx, hxc⟩ := hg.begun c hc hpos
  obtain ⟨b, hb⟩ := List.exists_mem_of_ne_nil _ hne
  have hshort : c.isPartial = true := (List.mem_filter.mp hc).2
  obtain ⟨z, hz⟩ := List.exists_mem_of_ne_nil _ (left_ne_nil hshort)
  have hsame : req.call = x.1 := Numbered.eq_of_between hline hx (hm b hb) hz
    (hxc.trans (Numbered.fst_of_mem_mark hz).symm)
  have hposted : 0 < (s.posted.map WriteRequest.call).count c.req.call :=
    List.count_pos_iff.mpr (List.mem_map.mpr ⟨req, hreq, hsame.trans hxc⟩)
  have hpartials : 0 < (s.partials.map fun c => c.req.call).count c.req.call :=
    List.count_pos_iff.mpr (List.mem_map_of_mem hc)
  have honce := hg.once c.req.call
  rw [owners, List.count_append] at honce
  split at honce <;> omega

/-- A state in order was reached by a step that met the condition, from one in order. -/
theorem InOrder.back {s s' : WriteConnection} {a : WriteAct} (hg : s.Ground) (hm : Move s a s')
    (h : s'.InOrder) : s.InOrder ∧ s.Undisturbed a := by
  have htotal := h.total
  cases hm with
  | refused _ ha => exact ⟨h, ha⟩
  | sent _ b hb ha =>
    have hle := hg.length
    rw [total_sent, stream_sent, List.length_append, Numbered.length_mark] at htotal
    have hlen : b.length < 2 ^ 32 := by
      have hword : dword b.length < 2 ^ 32 := Nat.mod_lt _ (by decide)
      omega
    rcases h with ⟨hpartials, hdata⟩ | ⟨c, -, -, hnil, -⟩
    · refine ⟨.inl ⟨hpartials, ?_⟩, ha.mpr ⟨hpartials, hlen⟩⟩
      have hnew : [WriteRequest.submit s.sent.length b].flatMap WriteRequest.pending =
          Numbered.mark s.sent.length b := by simp [pending_submit hlen]
      rw [stream_sent, List.flatMap_append, ← List.append_assoc, hnew] at hdata
      exact List.append_cancel_right hdata
    · simp at hnil
  | transferred req rest bytes hposted hle =>
    have hsplit := pending_split req bytes
    rw [s.total_transferred bytes hposted] at htotal
    rcases h with ⟨hpartials, hdata⟩ | ⟨c, hpartials, hpos, hnil, hdata⟩
    · rw [partials_concat] at hpartials
      cases hshort : (WriteCompletion.mk req bytes).isPartial with
      | true => simp [hshort] at hpartials
      | false =>
        simp only [hshort, Bool.false_eq_true, if_false, List.append_nil] at hpartials
        rw [left_of_full hshort, List.append_nil] at hsplit
        have hfull : req.wsaBuf.length ≤ bytes := WriteCompletion.le_of_full hshort
        refine ⟨.inl ⟨hpartials, ?_⟩, fun r rs heq => .inl ?_⟩
        · simpa [hposted, hsplit, stream] using hdata
        · obtain ⟨rfl, rfl⟩ : req = r ∧ rest = rs := by simpa [hposted] using heq
          omega
    · rw [partials_concat] at hpartials
      cases hshort : (WriteCompletion.mk req bytes).isPartial with
      | true =>
        simp only [hshort, if_true] at hpartials
        obtain ⟨hnone, rfl⟩ : s.partials = [] ∧ WriteCompletion.mk req bytes = c := by
          cases hs : s.partials with
          | nil => simpa [hs] using hpartials
          | cons x xs => simp [hs] at hpartials
        obtain rfl : rest = [] := hnil
        refine ⟨.inl ⟨hnone, ?_⟩, fun r rs heq => .inr ?_⟩
        · rw [List.append_assoc, hsplit] at hdata
          simpa [hposted, stream] using hdata
        · obtain ⟨rfl, rfl⟩ : req = r ∧ [] = rs := by simpa [hposted] using heq
          exact ⟨hpos, rfl⟩
      | false =>
        -- an older partial completion has its rest behind this send
        simp only [hshort, Bool.false_eq_true, if_false, List.append_nil] at hpartials
        refine absurd hdata (hg.not_between htotal (by simp [hpartials]) hpos
          (show req ∈ s.posted by simp [hposted]) fun b hb => ?_)
        rw [List.take_of_length_le (WriteCompletion.le_of_full hshort)]
        exact List.mem_map_of_mem hb
  | resubmitted i wsaError c hcompletion hshort hpos hagain =>
    rw [s.total_resubmitted hcompletion hshort] at htotal
    obtain ⟨front, back, hbefore, hafter⟩ :=
      s.partials_erase hcompletion (s.posted ++ [c.req.advance c.bytes])
    simp only [hshort, if_true] at hbefore
    have hleft : (c.req.advance c.bytes).pending = c.left := rfl
    rcases h with ⟨hpartials, hdata⟩ | ⟨d, -, -, hnil, -⟩
    · rw [hafter] at hpartials
      obtain ⟨rfl, rfl⟩ := List.append_eq_nil_iff.mp hpartials
      have hdata : s.written ++ s.posted.flatMap WriteRequest.pending ++ c.left = s.stream := by
        simpa [hleft, stream] using hdata
      refine ⟨.inr ⟨c, hbefore, hpos, ?_⟩, fun _ _ _ => hagain⟩
      cases hposted : s.posted with
      | nil => exact ⟨rfl, by simpa [hposted] using hdata⟩
      | cons req rest =>
        have hreq : req ∈ s.posted := by simp [hposted]
        refine absurd hdata (hg.not_between htotal (by simp [hbefore]) hpos hreq fun b hb => ?_)
        exact List.mem_flatMap.mpr ⟨req, hreq, List.mem_map_of_mem hb⟩
    · simp at hnil
  | called i wsaError c hcompletion hend =>
    have hcalled := s.total_called hcompletion
    cases hshort : c.isPartial with
    | false =>
      refine ⟨?_, fun d hd hd' => ?_⟩
      · unfold InOrder at h ⊢
        rw [s.partials_erase_full hcompletion hshort] at h
        exact h
      · rw [hcompletion] at hd
        cases hd
        simp [hshort] at hd'
    | true =>
      -- what the completion left is given up
      have hlost := List.length_pos_iff.mpr (left_ne_nil hshort)
      have hle := hg.length
      have hstream : stream { s with completions := s.completions.eraseIdx i } = s.stream := rfl
      rw [hstream] at htotal
      simp only [hshort, if_true] at hcalled
      omega

/-- In every run whose steps meet the condition the socket carries the buffers in call
order; and a run that leaves nothing posted or unhandled carries all of them in call
order if and only if its steps met the condition. -/
theorem buffers_in_order_iff {as : List WriteAct} {t : WriteConnection}
    (h : machine.run connected as = some t) :
    (machine.Every (fun s a _ => s.Undisturbed a) connected as → t.written <+: t.stream) ∧
      (t.posted = [] → t.completions = [] →
        (t.written = t.stream ↔
          machine.Every (fun s a _ => s.Undisturbed a) connected as)) := by
  have hstart : connected.InOrder := .inl ⟨rfl, rfl⟩
  have hforward (hall : machine.Every (fun s a _ => s.Undisturbed a) connected as) : t.InOrder :=
    machine.run_invariant_of_every (I := InOrder)
      (fun _ _ _ hs hstep hc => hs.move hc (move_of_step hstep)) hstart hall h
  refine ⟨fun hall => ?_, fun hposted hcompletions => ⟨fun hdata => ?_, fun hall => ?_⟩⟩
  · rcases hforward hall with ⟨-, hdata⟩ | ⟨c, -, -, -, hdata⟩
    · exact ⟨_, hdata⟩
    · exact ⟨_, hdata⟩
  · have hfinal : t.InOrder :=
      .inl ⟨by simp [partials, hcompletions], by simpa [hposted] using hdata⟩
    exact (machine.every_of_final (A := fun _ => True) (I := Ground) (Q := InOrder)
      (fun _ _ _ _ hs hstep => hs.move (move_of_step hstep))
      (fun _ _ _ _ hs hstep hq => hq.back hs (move_of_step hstep))
      (fun _ _ => trivial) connected_ground h hfinal).2
  · rcases hforward hall with ⟨-, hdata⟩ | ⟨c, hpartials, -⟩
    · simpa [hposted] using hdata
    · simp [partials, hcompletions] at hpartials

instance (s : WriteConnection) (a : WriteAct) : Decidable (s.Undisturbed a) :=
  match a with
  | .serverSend fdValid isRunning buffer submitted =>
      inferInstanceAs (Decidable (∀ b ∈ serverSend fdValid isRunning buffer, submitted = true →
        s.partials = [] ∧ b.length < 2 ^ 32))
  | .clientSend isRunning isConnected data submitted =>
      inferInstanceAs (Decidable (∀ b ∈ clientSend isRunning isConnected data, submitted = true →
        s.partials = [] ∧ b.length < 2 ^ 32))
  | .transfer bytes =>
      match h : s.posted with
      | [] => isTrue (by simp [Undisturbed, h])
      | req :: rest =>
          decidable_of_iff (bytes = req.wsaBuf.length ∨ (0 < bytes ∧ rest = []))
            (by simp [Undisturbed, h])
  | .complete i wsaError =>
      inferInstanceAs (Decidable (∀ c ∈ s.completions[i]?, c.isPartial = true → wsaError = none))

def partialThenSend : List WriteAct :=
  [.serverSend true true (some [1, 2]) true, .transfer 1, .complete 0 none,
    .serverSend true true (some [3]) true, .transfer 1, .complete 0 none, .transfer 1,
    .complete 0 none]

theorem buffers_in_order_iff_partialThenSend :
    ∃ t, machine.run connected partialThenSend = some t ∧
      t.written = [(0, 1), (0, 2), (1, 3)] := by
  have hrun : machine.run connected partialThenSend = some _ := rfl
  exact ⟨_, hrun, ((buffers_in_order_iff hrun).2 rfl rfl).mpr
    (machine.every_of_check (by decide))⟩

/-- Two sends posted together, the first of which is taken in part. -/
def partialBeforeSend : List WriteAct :=
  [.serverSend true true (some [1, 2]) true, .serverSend true true (some [3]) true, .transfer 1,
    .complete 0 none, .transfer 1, .transfer 1, .complete 0 none, .complete 0 none]

theorem send_inside_partial_send :
    ∃ t, machine.run connected partialBeforeSend = some t ∧ t.sent = [[1, 2], [3]] ∧
      t.posted = [] ∧ t.completions = [] ∧ t.written = [(0, 1), (1, 3), (0, 2)] :=
  ⟨_, rfl, rfl, rfl, rfl, rfl⟩

end WriteConnection

end Lmnet.Windows
