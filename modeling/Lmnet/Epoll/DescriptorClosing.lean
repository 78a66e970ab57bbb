import Lmnet.Epoll.ByteTransparency
import Lmnet.Epoll.UnixSendHandler
import Lmnet.Lib.Lists

set_option autoImplicit false

namespace Lmnet.Epoll

@[simp] theorem closeDescriptors_nil (i : Nat) : closeDescriptors i [] = [] := rfl

theorem descriptors_append (i : Nat) (ps qs : List PendingSend) :
    descriptors i (ps ++ qs) = descriptors i ps ++ descriptors (i + ps.length) qs := by
  induction ps generalizing i with
  | nil => simp [descriptors]
  | cons p ps ih =>
    have hlen : i + 1 + ps.length = i + (ps.length + 1) := by omega
    simp [descriptors, ih, hlen]

namespace PendingSend

def left (p : PendingSend) : List UInt8 := (p.data.map fun d => d.bytes.drop p.offset).getD []

structure Fresh (p : PendingSend) : Prop where
  offset : p.offset = 0
  fdsSent : p.fdsSent = false
  something : noData p.data = true → p.fds ≠ []

structure Begun (p : PendingSend) : Prop where
  fdsSent : p.fdsSent = true
  fds : p.fds = []
  hasData : p.hasData = true

theorem Fresh.ready {p : PendingSend} (h : p.Fresh) : p.Ready := by
  cases hdata : noData p.data with
  | true => exact .inr ⟨hdata, h.something hdata, h.fdsSent⟩
  | false =>
    left
    cases hd : p.data with
    | none => simp [noData, hd] at hdata
    | some d =>
      have hsize : d.size ≠ 0 := by simpa [noData, hd] using hdata
      simp only [PendingSend.hasData, hd, h.offset]
      simpa using Nat.pos_of_ne_zero hsize

theorem Begun.ready {p : PendingSend} (h : p.Begun) : p.Ready := .inl h.hasData

theorem Fresh.control {p : PendingSend} (h : p.Fresh) : p.control = p.fds := by
  simp [PendingSend.control, h.fdsSent]

theorem Begun.control {p : PendingSend} (h : p.Begun) : p.control = [] := by
  simp [PendingSend.control, h.fds]

theorem Fresh.left {p : PendingSend} (h : p.Fresh) :
    p.left = (p.data.map DataBuffer.bytes).getD [] := by
  cases hd : p.data <;> simp [PendingSend.left, hd, h.offset]

theorem dataOf_iov {p : PendingSend} (h : p.Ready) : dataOf p.iov = p.left := by
  rcases h with hdata | ⟨hnone, -, -⟩
  · obtain ⟨d, hd, -, hiov⟩ := iov_of_hasData hdata
    rw [dataOf_eq_map (data_of_hasData hdata), hiov]
    simp [PendingSend.left, hd, Function.comp_def]
  · rw [iov_of_noData hnone]
    cases hd : p.data with
    | none => simp [PendingSend.left, hd, dataOf, WireByte.placeholder]
    | some d =>
      have hnil : d.bytes = [] := by simpa [noData, hd, DataBuffer.size] using hnone
      simp [PendingSend.left, hd, hnil, dataOf, WireByte.placeholder]

theorem begun_updated {p : PendingSend} {n : Nat} (h : (p.updated n).hasData = true) :
    (p.updated n).Begun := by
  refine ⟨?_, ?_, h⟩ <;> cases hd : p.data <;> simp only [updated, hd] <;> split <;> rfl

theorem left_updated {p : PendingSend} {n : Nat} (h : p.Ready) (hpos : 1 ≤ n) :
    dataOf (p.iov.take n) ++ (if (p.updated n).hasData then (p.updated n).left else []) =
      p.left := by
  have hiov := congrArg dataOf (iov_updated h hpos)
  rw [dataOf_append, dataOf_iov h] at hiov
  rw [← hiov]
  split
  · rename_i hdata
    rw [dataOf_iov (begun_updated hdata).ready]
  · rfl

end PendingSend

/-- What the kernel has taken of the front while the queue does not say so yet. -/
def Round.taken : Round → Nat
  | .sent p n => (dataOf (p.iov.take n)).length
  | _ => 0

def Round.Holds (q : List PendingSend) : Round → Prop
  | .idle => True
  | .copied p => q.head? = some p
  | .sent p n => 1 ≤ n ∧ q.head? = some p
  | .refused => q ≠ []

theorem Round.Holds.append {q : List PendingSend} {r : Round} (h : r.Holds q)
    (p : PendingSend) : r.Holds (q ++ [p]) := by
  cases r with
  | idle => trivial
  | copied c =>
    have hfront : q.head? = some c := h
    simp [Round.Holds, hfront]
  | sent c n =>
    have hfront : q.head? = some c := h.2
    simp [Round.Holds, hfront, h.1]
  | refused => simp [Round.Holds]

/-- A queue against the entries it was pushed: only its front may be begun. -/
def Held : List PendingSend → List PendingSend → Prop
  | [], [] => True
  | e :: es, p :: ps => (p = e ∨ p.Begun) ∧ ps = es
  | _, _ => False

theorem Held.append {es ps : List PendingSend} (h : Held es ps) (p : PendingSend) :
    Held (es ++ [p]) (ps ++ [p]) := by
  cases es with
  | nil =>
    cases ps with
    | nil => exact ⟨.inl rfl, rfl⟩
    | cons q ps => cases h
  | cons e es =>
    cases ps with
    | nil => cases h
    | cons q ps =>
      obtain ⟨hfront, rfl⟩ := h
      exact ⟨hfront, rfl⟩

theorem Held.refl (es : List PendingSend) : Held es es := by
  cases es with
  | nil => trivial
  | cons e es => exact ⟨.inl rfl, rfl⟩

theorem Held.length {es ps : List PendingSend} (h : Held es ps) : es.length = ps.length := by
  cases es with
  | nil =>
    cases ps with
    | nil => rfl
    | cons p ps => cases h
  | cons e es =>
    cases ps with
    | nil => cases h
    | cons p ps => simp [h.2]

namespace UnixSendHandler

def accepted (s : UnixSendHandler) : List UInt8 := dataOf (s.sent.flatMap SentMessage.bytes)

def queuedData (s : UnixSendHandler) : List UInt8 :=
  s.queued.flatMap fun p => (p.data.map DataBuffer.bytes).getD []

def stillQueued (s : UnixSendHandler) : List UInt8 :=
  (s.sendQueue.flatMap PendingSend.left).drop s.round.taken

/-- The queue is what was pushed and not popped, and the consumer's copy is its
front. -/
structure Window (s : UnixSendHandler) : Prop where
  fresh : ∀ e ∈ s.queued, e.Fresh
  popped : s.popped ≤ s.queued.length
  held : Held (s.queued.drop s.popped) s.sendQueue
  round : s.round.Holds s.sendQueue

inductive Move (s : UnixSendHandler) : UnixSendHandler → Prop
  | same : Move s s
  | queued (p : PendingSend) (hp : p.Fresh) :
      Move s { s with sendQueue := s.sendQueue ++ [p], queued := s.queued ++ [p] }
  | copied (p : PendingSend) (rest : List PendingSend) (hround : s.round = .idle)
      (hqueue : s.sendQueue = p :: rest) : Move s { s with round := .copied p }
  | blocked (p : PendingSend) (hround : s.round = .copied p) : Move s { s with round := .idle }
  | refused (p : PendingSend) (rest : List PendingSend) (hround : s.round = .copied p)
      (hqueue : s.sendQueue = p :: rest) : Move s { s with round := .refused, failed := true }
  | sent (p : PendingSend) (n : Nat) (rest : List PendingSend) (hround : s.round = .copied p)
      (hqueue : s.sendQueue = p :: rest) (hpos : 1 ≤ n) :
      Move s { s with
        round := .sent p n
        sent := s.sent ++ [⟨s.popped, p.iov.take n, p.control⟩]
        closed := s.closed ++ closeDescriptors s.popped p.fds }
  | kept (p : PendingSend) (n : Nat) (rest : List PendingSend) (hround : s.round = .sent p n)
      (hqueue : s.sendQueue = p :: rest) (hpos : 1 ≤ n)
      (hdata : (p.updated n).hasData = true) :
      Move s { s with round := .idle, sendQueue := p.updated n :: rest }
  | done (p : PendingSend) (n : Nat) (rest : List PendingSend) (hround : s.round = .sent p n)
      (hqueue : s.sendQueue = p :: rest) (hpos : 1 ≤ n)
      (hdata : (p.updated n).hasData = false) :
      Move s { s with round := .idle, sendQueue := rest, popped := s.popped + 1 }
  | dropped (p : PendingSend) (rest : List PendingSend) (hround : s.round = .refused)
      (hqueue : s.sendQueue = p :: rest) :
      Move s { s with
        round := .idle
        sendQueue := rest
        popped := s.popped + 1
        closed := s.closed ++ closeDescriptors s.popped p.fds }
  | destroyed (hround : s.round = .idle) :
      Move s { s.clearSendQueue with destroyed := true }

theorem fresh_of_server {session handler : Bool} {buffer : Option DataBuffer}
    {fds duplicatedFds : List Fd} {p : PendingSend}
    (h : (serverSendWithFds session handler buffer fds duplicatedFds).pending = some p) :
    p.offset = 0 ∧ p.fdsSent = false := by
  unfold serverSendWithFds at h
  grind

theorem fresh_of_client {ready : Bool} {data : Option DataBuffer}
    {fds duplicatedFds : List Fd} {p : PendingSend}
    (h : (clientSendWithFds ready data fds duplicatedFds).pending = some p) :
    p.offset = 0 ∧ p.fdsSent = false := by
  unfold clientSendWithFds at h
  grind

theorem move_sendWithFds (s : UnixSendHandler) {o : SendOutcome}
    (ho : ∀ p, o.pending = some p → p.offset = 0 ∧ p.fdsSent = false) :
    Move s (s.sendWithFds o) := by
  unfold sendWithFds
  split
  · exact .same
  · rename_i p hp
    unfold queueSend
    split
    · exact .same
    · rename_i hsomething
      obtain ⟨hoffset, hsent⟩ := ho p hp
      exact .queued p ⟨hoffset, hsent, by simpa using hsomething⟩

theorem move_of_step {s s' : UnixSendHandler} {a : UnixSendAct} (hw : s.Window)
    (h : s.step a = some s') : Move s s' := by
  have hround := hw.round
  unfold step at h
  split at h
  · cases h
  cases a with
  | serverSendWithFds session handler buffer fds duplicatedFds =>
    cases h
    exact s.move_sendWithFds fun p hp => fresh_of_server hp
  | clientSendWithFds ready data fds duplicatedFds =>
    cases h
    exact s.move_sendWithFds fun p hp => fresh_of_client hp
  | front =>
    simp only [front] at h
    split at h
    · rename_i p rest hr hq
      cases h
      exact .copied p rest hr hq
    · cases h
  | sendmsg r =>
    simp only at h
    split at h
    · rename_i p hr
      rw [hr] at hround
      obtain ⟨rest, hq⟩ := List.head?_eq_some_iff.mp hround
      cases r with
      | wouldBlock =>
        cases h
        exact .blocked p hr
      | error =>
        cases h
        exact .refused p rest hr hq
      | bytes n =>
        simp only [sendmsg] at h
        split at h
        · cases h
          exact .refused p rest hr hq
        · split at h
          · cases h
            exact .sent p n rest hr hq (by omega)
          · cases h
    · cases h
  | update =>
    simp only [update] at h
    split at h
    · rename_i p n hr
      rw [hr] at hround
      obtain ⟨rest, hq⟩ := List.head?_eq_some_iff.mp hround.2
      simp only [hq, PendingSend.same_self, if_true] at h
      split at h
      · rename_i hdata
        cases h
        exact .kept p n rest hr hq hround.1 hdata
      · rename_i hdata
        cases h
        exact .done p n rest hr hq hround.1 (by simpa using hdata)
    · rename_i hr
      rw [hr] at hround
      split at h
      · rename_i hnil
        exact absurd hnil hround
      · rename_i p rest hq
        cases h
        exact .dropped p rest hr hq
    · cases h
  | destroy =>
    simp only [destroy] at h
    split at h
    · rename_i hr
      cases h
      exact .destroyed hr
    · cases h

theorem Window.length {s : UnixSendHandler} (h : s.Window) :
    s.popped + s.sendQueue.length = s.queued.length := by
  have hlen := h.held.length
  have hpopped := h.popped
  rw [List.length_drop] at hlen
  omega

theorem Window.front {s : UnixSendHandler} (h : s.Window) {p : PendingSend}
    {rest : List PendingSend} (hqueue : s.sendQueue = p :: rest) :
    ∃ e, s.queued.drop s.popped = e :: rest ∧ (p = e ∨ p.Begun) ∧ s.popped < s.queued.length := by
  have hheld := h.held
  rw [hqueue] at hheld
  cases hdrop : s.queued.drop s.popped with
  | nil =>
    rw [hdrop] at hheld
    cases hheld
  | cons e es =>
    rw [hdrop] at hheld
    obtain ⟨hfront, rfl⟩ := hheld
    have hlen := congrArg List.length hdrop
    simp only [List.length_drop, List.length_cons] at hlen
    exact ⟨e, rfl, hfront, by omega⟩

theorem Window.ready {s : UnixSendHandler} (h : s.Window) {p : PendingSend}
    {rest : List PendingSend} (hqueue : s.sendQueue = p :: rest) : p.Ready := by
  obtain ⟨e, hdrop, rfl | hbegun, -⟩ := h.front hqueue
  · have hmem : p ∈ s.queued := List.mem_of_mem_drop (by rw [hdrop]; exact List.mem_cons_self)
    exact (h.fresh p hmem).ready
  · exact hbegun.ready

theorem drop_succ_of_drop {es rest : List PendingSend} {k : Nat} {e : PendingSend}
    (h : es.drop k = e :: rest) : es.drop (k + 1) = rest := by
  have hdrop := congrArg (List.drop 1) h
  simpa [Nat.add_comm] using hdrop

theorem Window.move {s s' : UnixSendHandler} (h : s.Window) (hm : Move s s') : s'.Window := by
  cases hm with
  | same => exact h
  | queued p hp =>
    refine ⟨?_, ?_, ?_, h.round.append p⟩
    · intro e he
      rcases List.mem_append.mp he with he | he
      · exact h.fresh e he
      · rw [List.mem_singleton.mp he]
        exact hp
    · have hpopped := h.popped
      simp only [List.length_append, List.length_singleton]
      omega
    · simpa only [List.drop_append_of_le_length h.popped] using h.held.append p
  | copied p rest hround hqueue => exact ⟨h.fresh, h.popped, h.held, by simp [Round.Holds, hqueue]⟩
  | blocked p hround => exact ⟨h.fresh, h.popped, h.held, trivial⟩
  | refused p rest hround hqueue =>
    exact ⟨h.fresh, h.popped, h.held, by simp [Round.Holds, hqueue]⟩
  | sent p n rest hround hqueue hpos =>
    exact ⟨h.fresh, h.popped, h.held, hpos, by simp [hqueue]⟩
  | kept p n rest hround hqueue hpos hdata =>
    obtain ⟨e, hdrop, -, -⟩ := h.front hqueue
    refine ⟨h.fresh, h.popped, ?_, trivial⟩
    simp only [hdrop]
    exact ⟨.inr (PendingSend.begun_updated hdata), rfl⟩
  | done p n rest hround hqueue hpos hdata =>
    obtain ⟨e, hdrop, -, hlt⟩ := h.front hqueue
    refine ⟨h.fresh, hlt, ?_, trivial⟩
    simp only [drop_succ_of_drop hdrop]
    exact .refl rest
  | dropped p rest hround hqueue =>
    obtain ⟨e, hdrop, -, hlt⟩ := h.front hqueue
    refine ⟨h.fresh, hlt, ?_, trivial⟩
    simp only [drop_succ_of_drop hdrop]
    exact .refl rest
  | destroyed hround =>
    have hall := h.length
    exact ⟨h.fresh, by simp [clearSendQueue, hall], by simp [clearSendQueue, hall, Held],
      by simp [clearSendQueue, hround, Round.Holds]⟩

theorem Window.left_front {s : UnixSendHandler} (h : s.Window) {p : PendingSend} {n : Nat}
    {rest : List PendingSend} (hqueue : s.sendQueue = p :: rest) (hpos : 1 ≤ n) :
    s.sendQueue.flatMap PendingSend.left =
      dataOf (p.iov.take n) ++ ((if (p.updated n).hasData then (p.updated n).left else []) ++
        rest.flatMap PendingSend.left) := by
  rw [hqueue, List.flatMap_cons, ← PendingSend.left_updated (h.ready hqueue) hpos,
    List.append_assoc]

theorem Window.stillQueued_sent {s : UnixSendHandler} (h : s.Window) {p : PendingSend} {n : Nat}
    {rest : List PendingSend} (hround : s.round = .sent p n) (hqueue : s.sendQueue = p :: rest)
    (hpos : 1 ≤ n) :
    s.stillQueued = (if (p.updated n).hasData then (p.updated n).left else []) ++
      rest.flatMap PendingSend.left := by
  rw [stillQueued, h.left_front hqueue hpos, hround]
  exact List.drop_left

theorem Window.taken_le {s : UnixSendHandler} (h : s.Window) :
    s.round.taken ≤ (s.sendQueue.flatMap PendingSend.left).length := by
  have hround := h.round
  cases hr : s.round with
  | sent p n =>
    rw [hr] at hround
    obtain ⟨rest, hqueue⟩ := List.head?_eq_some_iff.mp hround.2
    simp [h.left_front hqueue hround.1, Round.taken]
  | _ => simp [Round.taken]

/-- Until `sendmsg` fails, what was queued is accepted or still queued. -/
structure Conserved (s : UnixSendHandler) : Prop where
  refused : s.round = .refused → s.failed = true
  data : s.failed = false → s.destroyed = false → s.accepted ++ s.stillQueued = s.queuedData

theorem Conserved.move {s s' : UnixSendHandler} (h : s.Conserved) (hw : s.Window)
    (hm : Move s s') : s'.Conserved := by
  cases hm with
  | same => exact h
  | queued p hp =>
    refine ⟨h.refused, fun hfailed hdestroyed => ?_⟩
    have hdata := h.data hfailed hdestroyed
    simp only [accepted, stillQueued, queuedData] at hdata ⊢
    rw [List.flatMap_append, List.drop_append_of_le_length hw.taken_le, ← List.append_assoc, hdata,
      List.flatMap_append]
    simp [hp.left]
  | copied p rest hround hqueue =>
    refine ⟨fun hrefused => (by cases hrefused), fun hfailed hdestroyed => ?_⟩
    have hdata := h.data hfailed hdestroyed
    simpa [accepted, stillQueued, queuedData, hround, Round.taken] using hdata
  | blocked p hround =>
    refine ⟨fun hrefused => (by cases hrefused), fun hfailed hdestroyed => ?_⟩
    have hdata := h.data hfailed hdestroyed
    simpa [accepted, stillQueued, queuedData, hround, Round.taken] using hdata
  | refused p rest hround hqueue => exact ⟨fun _ => rfl, fun hfailed => (by cases hfailed)⟩
  | sent p n rest hround hqueue hpos =>
    refine ⟨fun hrefused => (by cases hrefused), fun hfailed hdestroyed => ?_⟩
    have hdata := h.data hfailed hdestroyed
    simp only [accepted, stillQueued, queuedData, hround, Round.taken, List.flatMap_append,
      dataOf_append, List.drop_zero, List.flatMap_cons, List.flatMap_nil, List.append_nil]
      at hdata ⊢
    rw [← hdata, hw.left_front hqueue hpos, List.drop_left, List.append_assoc]
  | kept p n rest hround hqueue hpos hupdated =>
    refine ⟨fun hrefused => (by cases hrefused), fun hfailed hdestroyed => ?_⟩
    have hdata := h.data hfailed hdestroyed
    rw [hw.stillQueued_sent hround hqueue hpos, if_pos hupdated] at hdata
    simpa [accepted, stillQueued, queuedData, Round.taken] using hdata
  | done p n rest hround hqueue hpos hupdated =>
    refine ⟨fun hrefused => (by cases hrefused), fun hfailed hdestroyed => ?_⟩
    have hdata := h.data hfailed hdestroyed
    rw [hw.stillQueued_sent hround hqueue hpos, hupdated] at hdata
    simpa [accepted, stillQueued, queuedData, Round.taken] using hdata
  | dropped p rest hround hqueue =>
    refine ⟨fun hrefused => (by cases hrefused), fun hfailed => ?_⟩
    have hdropped := h.refused hround
    simp [hdropped] at hfailed
  | destroyed hround =>
    refine ⟨fun hrefused => ?_, fun _ hdestroyed => (by cases hdestroyed)⟩
    simp [clearSendQueue, hround] at hrefused

/-- How many entries have had their descriptors sent or closed: those that left the
queue, and the front once a `sendmsg` took something of it. -/
def begun (s : UnixSendHandler) : Nat :=
  match s.round, s.sendQueue with
  | .sent _ _, _ => s.popped + 1
  | _, [] => s.popped
  | _, p :: _ => if p.fdsSent then s.popped + 1 else s.popped

theorem begun_sent {s : UnixSendHandler} {p : PendingSend} {n : Nat}
    (h : s.round = .sent p n) : s.begun = s.popped + 1 := by
  simp [begun, h]

theorem begun_front {s : UnixSendHandler} (h : ∀ p n, s.round ≠ .sent p n) {p : PendingSend}
    {rest : List PendingSend} (hqueue : s.sendQueue = p :: rest) :
    s.begun = if p.fdsSent then s.popped + 1 else s.popped := by
  cases hr : s.round with
  | sent p n => exact absurd hr (h p n)
  | _ => simp [begun, hr, hqueue]

theorem begun_empty {s : UnixSendHandler} (h : ∀ p n, s.round ≠ .sent p n)
    (hqueue : s.sendQueue = []) : s.begun = s.popped := by
  cases hr : s.round with
  | sent p n => exact absurd hr (h p n)
  | _ => simp [begun, hr, hqueue]

theorem Window.begun_cases {s : UnixSendHandler} (hw : s.Window)
    (h : ∀ p n, s.round ≠ .sent p n) {p : PendingSend} {rest : List PendingSend}
    (hqueue : s.sendQueue = p :: rest) :
    (s.queued.drop s.popped = p :: rest ∧ p.Fresh ∧ s.begun = s.popped) ∨
      (p.Begun ∧ s.begun = s.popped + 1) := by
  obtain ⟨e, hdrop, rfl | hbegun, -⟩ := hw.front hqueue
  · have hmem : p ∈ s.queued := List.mem_of_mem_drop (by rw [hdrop]; exact List.mem_cons_self)
    have hfresh := hw.fresh p hmem
    exact .inl ⟨hdrop, hfresh, by simp [begun_front h hqueue, hfresh.fdsSent]⟩
  · exact .inr ⟨hbegun, by simp [begun_front h hqueue, hbegun.fdsSent]⟩

theorem Window.begun_le {s : UnixSendHandler} (hw : s.Window) :
    s.popped ≤ s.begun ∧ s.begun ≤ s.popped + 1 ∧ s.begun ≤ s.queued.length := by
  have hround := hw.round
  have hpopped := hw.popped
  cases hr : s.round with
  | sent p n =>
    rw [hr] at hround
    obtain ⟨rest, hqueue⟩ := List.head?_eq_some_iff.mp hround.2
    obtain ⟨e, -, -, hlt⟩ := hw.front hqueue
    rw [begun_sent hr]
    omega
  | _ =>
    have hnot : ∀ p n, s.round ≠ .sent p n := by simp [hr]
    cases hqueue : s.sendQueue with
    | nil =>
      rw [begun_empty hnot hqueue]
      omega
    | cons p rest =>
      obtain ⟨e, -, -, hlt⟩ := hw.front hqueue
      rw [begun_front hnot hqueue]
      split <;> omega

theorem Window.begun_rest {s : UnixSendHandler} (hw : s.Window) (s' : UnixSendHandler)
    {p : PendingSend} {rest : List PendingSend} (hqueue : s.sendQueue = p :: rest)
    (hround : s'.round = .idle) (hrest : s'.sendQueue = rest) : s'.begun = s'.popped := by
  have hnot : ∀ p n, s'.round ≠ .sent p n := by simp [hround]
  obtain ⟨e, hdrop, -, -⟩ := hw.front hqueue
  cases rest with
  | nil => exact begun_empty hnot hrest
  | cons q qs =>
    have hmem : q ∈ s.queued := List.mem_of_mem_drop (by rw [hdrop]; simp)
    rw [begun_front hnot hrest, (hw.fresh q hmem).fdsSent]
    rfl

theorem Window.begun_destroyed {s : UnixSendHandler} (hw : s.Window) (hround : s.round = .idle) :
    begun { s.clearSendQueue with destroyed := true } = s.queued.length := by
  have hall := hw.length
  simpa only [begun, clearSendQueue, hround] using hall

theorem begun_queued (s s' : UnixSendHandler) {p : PendingSend} (hp : p.Fresh)
    (hround : s'.round = s.round) (hqueue : s'.sendQueue = s.sendQueue ++ [p])
    (hpopped : s'.popped = s.popped) : s'.begun = s.begun := by
  cases hr : s.round with
  | sent q n => simp [begun, hround, hr, hpopped]
  | _ => cases hq : s.sendQueue <;> simp [begun, hround, hr, hpopped, hqueue, hq, hp.fdsSent]

theorem begun_round (s s' : UnixSendHandler) (h : ∀ p n, s.round ≠ .sent p n)
    (h' : ∀ p n, s'.round ≠ .sent p n) (hqueue : s'.sendQueue = s.sendQueue)
    (hpopped : s'.popped = s.popped) : s'.begun = s.begun := by
  cases hq : s.sendQueue with
  | nil => rw [begun_empty h hq, begun_empty h' (hqueue.trans hq), hpopped]
  | cons p rest => rw [begun_front h hq, begun_front h' (hqueue.trans hq), hpopped]

/-- Every descriptor of the entries that were begun is closed, and no other. -/
def Closed (s : UnixSendHandler) : Prop :=
  s.closed = descriptors 0 (s.queued.take s.begun)

theorem take_succ_of_drop {es rest : List PendingSend} {k : Nat} {e : PendingSend}
    (h : es.drop k = e :: rest) : es.take (k + 1) = es.take k ++ [e] := by
  have hget : es[k]? = some e := by
    have hhead := congrArg List.head? h
    simpa [List.head?_drop] using hhead
  rw [List.take_add_one, hget]
  rfl

theorem descriptors_take_succ {s : UnixSendHandler} (hw : s.Window) {e : PendingSend}
    {rest : List PendingSend} (h : s.queued.drop s.popped = e :: rest) :
    descriptors 0 (s.queued.take (s.popped + 1)) =
      descriptors 0 (s.queued.take s.popped) ++ closeDescriptors s.popped e.fds := by
  rw [take_succ_of_drop h, descriptors_append, List.length_take, Nat.min_eq_left hw.popped]
  simp [descriptors]

theorem Closed.front {s : UnixSendHandler} (h : s.Closed) (hw : s.Window)
    (hround : ∀ p n, s.round ≠ .sent p n) {p : PendingSend} {rest : List PendingSend}
    (hqueue : s.sendQueue = p :: rest) :
    s.closed ++ closeDescriptors s.popped p.fds =
      descriptors 0 (s.queued.take (s.popped + 1)) := by
  rcases hw.begun_cases hround hqueue with ⟨hdrop, -, hbegun⟩ | ⟨hp, hbegun⟩
  · rw [h, hbegun, descriptors_take_succ hw hdrop]
  · rw [h, hbegun, hp.fds, closeDescriptors_nil, List.append_nil]

theorem Closed.move {s s' : UnixSendHandler} (h : s.Closed) (hw : s.Window) (hm : Move s s') :
    s'.Closed := by
  have hle := hw.begun_le
  cases hm with
  | same => exact h
  | queued p hp =>
    refine h.trans (congrArg (descriptors 0) ?_)
    rw [begun_queued s { s with sendQueue := s.sendQueue ++ [p], queued := s.queued ++ [p] } hp
      rfl rfl rfl, List.take_append_of_le_length hle.2.2]
  | copied p rest hround hqueue =>
    refine h.trans (congrArg (descriptors 0) ?_)
    rw [begun_round s { s with round := .copied p } (by simp [hround]) (by simp) rfl rfl]
  | blocked p hround =>
    refine h.trans (congrArg (descriptors 0) ?_)
    rw [begun_round s { s with round := .idle } (by simp [hround]) (by simp) rfl rfl]
  | refused p rest hround hqueue =>
    refine h.trans (congrArg (descriptors 0) ?_)
    rw [begun_round s { s with round := .refused, failed := true } (by simp [hround]) (by simp)
      rfl rfl]
  | sent p n rest hround hqueue hpos => exact h.front hw (by simp [hround]) hqueue
  | kept p n rest hround hqueue hpos hdata =>
    have hfds := (PendingSend.begun_updated hdata).fdsSent
    have hclosed : s.closed = _ := h
    rw [begun_sent hround] at hclosed
    simpa [Closed, begun, hfds] using hclosed
  | done p n rest hround hqueue hpos hdata =>
    have hclosed : s.closed = _ := h
    rw [begun_sent hround] at hclosed
    simp only [Closed]
    rw [hw.begun_rest _ hqueue rfl rfl]
    exact hclosed
  | dropped p rest hround hqueue =>
    simp only [Closed]
    rw [hw.begun_rest _ hqueue rfl rfl]
    exact h.front hw (by simp [hround]) hqueue
  | destroyed hround =>
    have hnot : ∀ p n, s.round ≠ .sent p n := by simp [hround]
    have hgone : Closed { s.clearSendQueue with destroyed := true } ↔
        s.clearSendQueue.closed = descriptors 0 s.queued := by
      rw [Closed, hw.begun_destroyed hround]
      simp [clearSendQueue]
    rw [hgone]
    cases hqueue : s.sendQueue with
    | nil =>
      have hlen := hw.length
      rw [hqueue, List.length_nil] at hlen
      have hclosed : s.closed = _ := h
      rw [begun_empty hnot hqueue, List.take_of_length_le (by omega)] at hclosed
      simpa [clearSendQueue, hqueue, descriptors] using hclosed
    | cons p rest =>
      obtain ⟨e, hdrop, -, hlt⟩ := hw.front hqueue
      have happ := descriptors_append 0 (s.queued.take (s.popped + 1))
        (s.queued.drop (s.popped + 1))
      rw [List.take_append_drop, List.length_take, Nat.min_eq_left hlt, Nat.zero_add,
        drop_succ_of_drop hdrop, ← h.front hw hnot hqueue] at happ
      simp [clearSendQueue, hqueue, descriptors, happ]

def messages (s : UnixSendHandler) (i : Nat) : List SentMessage :=
  s.sent.filter fun m => m.entry == i

/-- The descriptors of an entry went with the first of its messages only. -/
def Attached (e : PendingSend) : List SentMessage → Prop
  | [] => True
  | m :: ms => m.control = e.fds ∧ ∀ m' ∈ ms, m'.control = []

theorem Attached.concat {e : PendingSend} {ms : List SentMessage} (h : Attached e ms)
    (hne : ms ≠ []) {m : SentMessage} (hm : m.control = []) : Attached e (ms ++ [m]) := by
  cases ms with
  | nil => exact absurd rfl hne
  | cons m₀ ms =>
    refine ⟨h.1, fun m' hm' => ?_⟩
    rcases List.mem_append.mp hm' with hm' | hm'
    · exact h.2 m' hm'
    · rw [List.mem_singleton.mp hm']
      exact hm

theorem messages_concat (s s' : UnixSendHandler) {m : SentMessage}
    (h : s'.sent = s.sent ++ [m]) (i : Nat) :
    s'.messages i = s.messages i ++ if m.entry = i then [m] else [] := by
  rw [messages, h, List.filter_append]
  by_cases hi : m.entry = i <;> simp [messages, hi]

/-- Who has had messages: every begun front, and nobody behind it. -/
structure Attachment (s : UnixSendHandler) : Prop where
  attached : ∀ i e, s.queued[i]? = some e → Attached e (s.messages i)
  front : s.popped < s.begun → s.messages s.popped ≠ []
  later : ∀ i, s.begun ≤ i → s.messages i = []

theorem Attachment.of_begun (s s' : UnixSendHandler) (h : s.Attachment)
    (hsent : s'.sent = s.sent) (hqueued : s'.queued = s.queued)
    (hbegun : s.begun ≤ s'.begun)
    (hfront : s'.popped < s'.begun → s'.popped = s.popped ∧ s'.begun = s.begun) :
    s'.Attachment := by
  have hmessages : s'.messages = s.messages := by
    funext i
    rw [messages, hsent]
    rfl
  refine ⟨?_, ?_, ?_⟩
  · rw [hqueued, hmessages]
    exact h.attached
  · intro hlt
    obtain ⟨hpopped, heq⟩ := hfront hlt
    rw [hmessages, hpopped]
    exact h.front (by omega)
  · intro i hi
    rw [hmessages]
    exact h.later i (by omega)

theorem Attachment.move {s s' : UnixSendHandler} (h : s.Attachment) (hw : s.Window)
    (hm : Move s s') : s'.Attachment := by
  have hle := hw.begun_le
  cases hm with
  | same => exact h
  | queued p hp =>
    have hbegun := begun_queued s { s with
      sendQueue := s.sendQueue ++ [p], queued := s.queued ++ [p] } hp rfl rfl rfl
    refine ⟨fun i e hget => ?_, fun hlt => h.front (by simpa [hbegun] using hlt),
      fun i hi => h.later i (by simpa [hbegun] using hi)⟩
    rcases List.getElem?_concat_some hget with hget | ⟨rfl, rfl⟩
    · exact h.attached i e hget
    · have hnone := h.later s.queued.length hle.2.2
      have hnone' : messages { s with
          sendQueue := s.sendQueue ++ [e], queued := s.queued ++ [e] } s.queued.length = [] := hnone
      rw [hnone']
      trivial
  | copied p rest hround hqueue =>
    have hbegun := begun_round s { s with round := .copied p } (by simp [hround]) (by simp) rfl rfl
    exact h.of_begun s _ rfl rfl (Nat.le_of_eq hbegun.symm) fun _ => ⟨rfl, hbegun⟩
  | blocked p hround =>
    have hbegun := begun_round s { s with round := .idle } (by simp [hround]) (by simp) rfl rfl
    exact h.of_begun s _ rfl rfl (Nat.le_of_eq hbegun.symm) fun _ => ⟨rfl, hbegun⟩
  | refused p rest hround hqueue =>
    have hbegun := begun_round s { s with round := .refused, failed := true }
      (by simp [hround]) (by simp) rfl rfl
    exact h.of_begun s _ rfl rfl (Nat.le_of_eq hbegun.symm) fun _ => ⟨rfl, hbegun⟩
  | sent p n rest hround hqueue hpos =>
    have hmessages := messages_concat s { s with
        round := .sent p n
        sent := s.sent ++ [⟨s.popped, p.iov.take n, p.control⟩]
        closed := s.closed ++ closeDescriptors s.popped p.fds } rfl
    refine ⟨fun i e hget => ?_, fun _ => ?_, fun i hi => ?_⟩
    · have hattached := h.attached i e hget
      rw [hmessages]
      by_cases hi : s.popped = i
      · subst hi
        simp only [if_true]
        rcases hw.begun_cases (by simp [hround]) hqueue with ⟨hdrop, hp, hbegun⟩ | ⟨hp, hbegun⟩
        · have hhead := congrArg List.head? hdrop
          rw [List.head?_drop, List.head?_cons] at hhead
          obtain rfl : e = p := by
            rw [hhead] at hget
            exact (Option.some.inj hget).symm
          rw [h.later s.popped (by omega)]
          exact ⟨hp.control, by simp⟩
        · exact hattached.concat (h.front (by omega)) hp.control
      · simpa [hi] using hattached
    · rw [hmessages]
      simp
    · have hi' : s.popped + 1 ≤ i := hi
      have hne : s.popped ≠ i := by omega
      rw [hmessages, h.later i (by omega)]
      simp [hne]
  | kept p n rest hround hqueue hpos hdata =>
    have hfds := (PendingSend.begun_updated hdata).fdsSent
    have hbegun : begun { s with round := .idle, sendQueue := p.updated n :: rest } = s.begun := by
      simp [begun, hfds, hround]
    exact h.of_begun s _ rfl rfl (Nat.le_of_eq hbegun.symm) fun _ => ⟨rfl, hbegun⟩
  | done p n rest hround hqueue hpos hdata =>
    have hbegun := hw.begun_rest { s with
      round := .idle, sendQueue := rest, popped := s.popped + 1 } hqueue rfl rfl
    refine h.of_begun s _ rfl rfl ?_ fun hlt => absurd hlt (by omega)
    rw [hbegun]
    exact hle.2.1
  | dropped p rest hround hqueue =>
    have hbegun := hw.begun_rest { s with
      round := .idle
      sendQueue := rest
      popped := s.popped + 1
      closed := s.closed ++ closeDescriptors s.popped p.fds } hqueue rfl rfl
    refine h.of_begun s _ rfl rfl ?_ fun hlt => absurd hlt (by omega)
    rw [hbegun]
    exact hle.2.1
  | destroyed hround =>
    have hbegun := hw.begun_destroyed hround
    have hpopped : ({ s.clearSendQueue with destroyed := true } : UnixSendHandler).popped =
        s.queued.length := hw.length
    refine h.of_begun s _ rfl rfl ?_ fun hlt => absurd hlt (by omega)
    rw [hbegun]
    exact hle.2.2

/-- All that is known of a handler at any time. -/
structure Accounted (s : UnixSendHandler) : Prop where
  window : s.Window
  conserved : s.Conserved
  closed : s.Closed
  attachment : s.Attachment
  ended : s.destroyed = true → s.begun = s.queued.length

theorem created_accounted : created.Accounted where
  window := ⟨by simp [created], by simp [created], trivial, trivial⟩
  conserved := ⟨by simp [created], by simp [created, accepted, stillQueued, queuedData]⟩
  closed := rfl
  attachment := ⟨by simp [created], by simp [created, begun], by simp [created, messages]⟩
  ended := by simp [created]

theorem Accounted.step {s s' : UnixSendHandler} {a : UnixSendAct} (h : s.Accounted)
    (hstep : s.step a = some s') : s'.Accounted := by
  have hm := move_of_step h.window hstep
  refine ⟨h.window.move hm, h.conserved.move h.window hm, h.closed.move h.window hm,
    h.attachment.move h.window hm, fun hover => ?_⟩
  have halive : s.destroyed = false := by
    cases hd : s.destroyed with
    | false => rfl
    | true => simp [UnixSendHandler.step, hd] at hstep
  cases hm with
  | destroyed hround =>
    exact h.window.begun_destroyed hround
  | _ => simp_all

theorem run_accounted {t : UnixSendHandler} {as : List UnixSendAct}
    (h : machine.run created as = some t) : t.Accounted :=
  machine.run_invariant (I := Accounted) (fun _ _ _ hs hstep => hs.step hstep) created_accounted h

/-- Until `sendmsg` fails, the data it accepted followed by the data still queued is
the data of what was queued; between a `sendmsg` and the critical section after it the
front of the queue still has what was accepted. The descriptors of an entry go with the
first message sent of it. Descriptors are closed in the order in which they were queued,
and all of them are once the handler is gone. -/
theorem sendQueue_accounts {t : UnixSendHandler} {as : List UnixSendAct}
    (h : machine.run created as = some t) :
    (t.failed = false → t.destroyed = false →
        t.accepted ++ t.stillQueued = t.queuedData ∧
          ((∀ p n, t.round ≠ .sent p n) →
            t.accepted ++ t.sendQueue.flatMap PendingSend.left = t.queuedData)) ∧
      (∀ i e, t.queued[i]? = some e → Attached e (t.messages i)) ∧
      t.closed <+: descriptors 0 t.queued ∧
      (t.destroyed = true → t.closed = descriptors 0 t.queued) := by
  have hall := run_accounted h
  have hclosed : t.closed = _ := hall.closed
  refine ⟨fun hfailed halive => ?_, hall.attachment.attached, ?_, fun hover => ?_⟩
  · have hdata := hall.conserved.data hfailed halive
    refine ⟨hdata, fun hnot => ?_⟩
    have hzero : t.round.taken = 0 := by
      cases hr : t.round with
      | sent p n => exact absurd hr (hnot p n)
      | _ => rfl
    simpa [stillQueued, hzero] using hdata
  · rw [hclosed]
    have happ := descriptors_append 0 (t.queued.take t.begun) (t.queued.drop t.begun)
    rw [List.take_append_drop] at happ
    exact ⟨_, happ.symm⟩
  · rw [hclosed, hall.ended hover, List.take_length]

def partialThenError : List UnixSendAct :=
  [.serverSendWithFds true true (some ⟨1, [7, 8]⟩) [3] [5], .front, .sendmsg (.bytes 1),
    .serverSendWithFds true true none [3] [5], .update, .front, .sendmsg (.bytes 1), .update,
    .front, .sendmsg .error, .update, .serverSendWithFds true true none [3] [6], .destroy]

theorem sendQueue_accounts_partialThenError :
    ∃ t, machine.run created partialThenError = some t ∧
      t.closed = [(0, 5), (1, 5), (2, 6)] := by
  have hrun : machine.run created partialThenError = some _ := rfl
  exact ⟨_, hrun, (sendQueue_accounts hrun).2.2.2 rfl⟩

end UnixSendHandler

end Lmnet.Epoll
