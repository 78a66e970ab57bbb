import Lmnet.Reactor.UdpSocket

/-!
Which socket `HandleReceive` of the UDP classes reads from. The reactor looks the handler up
and lets its lock go before it calls it, so the number may be closed in between; this module
says what is enough for it still to be the object's own.
-/

set_option autoImplicit false

namespace Lmnet.Reactor

open Epoll (EINTR RecvReturn filesOf)

def UdpDispatch.receiving? : UdpDispatch → Option Fd
  | .receiving fd _ _ => some fd
  | _ => none

/-- `RemoveHandler` does what it is asked, and no socket is closed that the reactor reads
from. -/
def UdpClosing.Undisturbed (receiving : Option Fd) (removes : Bool) : UdpClosing → Prop
  | .taken _ handler _ => handler = true → removes = true
  | .removed fd _ => receiving ≠ some fd
  | _ => True

instance (receiving : Option Fd) (removes : Bool) (c : UdpClosing) :
    Decidable (c.Undisturbed receiving removes) :=
  match c with
  | .taken _ handler _ => inferInstanceAs (Decidable (handler = true → removes = true))
  | .removed fd _ => inferInstanceAs (Decidable (receiving ≠ some fd))
  | .called _ _ | .closed _ _ => isTrue trivial

namespace UdpSocket

variable {k : UdpClass} {s t : UdpSocket}

def closings (s : UdpSocket) : List UdpClosing := s.closers ++ s.reactor.closing?.toList

/-- What the listener is given was read from a socket of this object. -/
def ReadsOwn (s : UdpSocket) : Prop :=
  ∀ fd file data, .onReceive fd file data ∈ s.callbacks →
    ∃ own ∈ s.books.installed, file = some own

/-- The server is started once. -/
def Undisturbed (s : UdpSocket) : UdpAct → Prop
  | .start _ => s.handler = false
  | .closer i removes => ∀ c ∈ s.closers[i]?, c.Undisturbed s.reactor.receiving? removes
  | .reactorCloses removes =>
      ∀ c ∈ s.reactor.closing?, c.Undisturbed s.reactor.receiving? removes
  | _ => True

instance (s : UdpSocket) (a : UdpAct) : Decidable (s.Undisturbed a) :=
  match a with
  | .start _ => inferInstanceAs (Decidable (s.handler = false))
  | .closer i removes =>
      inferInstanceAs (Decidable (∀ c ∈ s.closers[i]?,
        c.Undisturbed s.reactor.receiving? removes))
  | .reactorCloses removes =>
      inferInstanceAs (Decidable (∀ c ∈ s.reactor.closing?,
        c.Undisturbed s.reactor.receiving? removes))
  | .openFile _ | .closeFile _ | .listen _ | .init _ _ | .close | .dispatchEvent _ _ _ _
  | .recv _ | .nextCall => isTrue trivial

/-- A handler in the reactor is that of the socket, or a call in `calls` is about to remove
it. -/
def Owned (s : UdpSocket) (calls : List UdpClosing) : Prop :=
  ∀ fd ∈ s.registered, (fd ∈ s.socketFds ∧ s.handler = true) ∨
    ∃ notice, UdpClosing.taken fd true notice ∈ calls

structure Reads (s : UdpSocket) : Prop where
  owned : s.Owned s.closings
  receiving : ∀ fd ∈ s.reactor.receiving?, fd ∈ s.held
  own : s.ReadsOwn

theorem created_reads : created.Reads where
  owned _ hfd := nomatch hfd
  receiving _ hfd := nomatch hfd
  own _ _ _ hc := nomatch hc

theorem mem_held {fd : Fd} :
    fd ∈ s.held ↔ fd ∈ s.socketFds ∨ ∃ c ∈ s.closings, fd ∈ c.held := by
  simp only [held, closings, UdpDispatch.held, socketFds, List.mem_append, List.mem_flatMap]
  grind

theorem Owned.held (h : s.Owned s.closings) {fd : Fd} (hfd : fd ∈ s.registered) :
    fd ∈ s.held := by
  obtain ⟨hsocket, -⟩ | ⟨notice, hcall⟩ := h fd hfd
  · exact mem_held.mpr (.inl hsocket)
  · exact mem_held.mpr (.inr ⟨_, hcall, List.mem_singleton.mpr rfl⟩)

theorem Owned.mono {calls calls' : List UdpClosing} (h : s.Owned calls)
    (hsub : calls ⊆ calls') : s.Owned calls' := by
  intro fd hfd
  obtain hsocket | ⟨notice, hcall⟩ := h fd hfd
  · exact .inl hsocket
  · exact .inr ⟨notice, hsub hcall⟩

theorem Owned.of_same {calls : List UdpClosing} (h : s.Owned calls)
    (hregistered : t.registered = s.registered) (hsocket : t.socket = s.socket)
    (hhandler : t.handler = s.handler) : t.Owned calls := by
  intro fd hfd
  have hfds : t.socketFds = s.socketFds := by simp only [socketFds, hsocket]
  rw [hfds, hhandler]
  exact h fd (hregistered ▸ hfd)

structure Keeps (s : UdpSocket) (c : UdpClosing) (next : Option UdpClosing) (t : UdpSocket) :
    Prop where
  owned : ∀ rest, s.Owned (c :: rest) → t.Owned (next.toList ++ rest)
  sockets : ∀ fd, fd ∈ s.socketFds ∨ fd ∈ c.held → (∀ notice, c ≠ .removed fd notice) →
    fd ∈ t.socketFds ∨ ∃ d ∈ next, fd ∈ d.held
  own : s.ReadsOwn → t.ReadsOwn

theorem ReadsOwn.of_same (h : s.ReadsOwn) (hcallbacks : t.callbacks = s.callbacks)
    (hinstalled : s.books.installed ⊆ t.books.installed) : t.ReadsOwn := by
  intro fd file data hc
  rw [hcallbacks] at hc
  obtain ⟨own, hown, he⟩ := h fd file data hc
  exact ⟨own, hinstalled hown, he⟩

theorem Owned.of_cons {c : UdpClosing} {rest : List UdpClosing} (h : s.Owned (c :: rest))
    (hc : ∀ fd notice, c ≠ .taken fd true notice) : s.Owned rest := by
  intro fd hfd
  obtain hsocket | ⟨notice, hcall⟩ := h fd hfd
  · exact .inl hsocket
  · exact .inr ⟨notice, List.mem_of_ne_of_mem (hc fd notice).symm hcall⟩

theorem keeps (s : UdpSocket) (c : UdpClosing) {removes : Bool} {receiving : Option Fd}
    (h : c.Undisturbed receiving removes) :
    s.Keeps c (s.closeStep c removes).1 (s.closeStep c removes).2 := by
  cases c with
  | called fd notice =>
    simp only [closeStep]
    split
    · exact ⟨fun rest ho => ho.of_cons (by simp),
        fun x hx _ => .inl (hx.resolve_right List.not_mem_nil), id⟩
    · rename_i hnot
      have hfds : s.socketFds = [s.socket] := if_neg fun he => hnot (.inl he)
      refine ⟨fun rest ho x hx => .inr ?_, fun x hx _ => .inr ⟨_, rfl, ?_⟩, id⟩
      · obtain ⟨hsocket, hhandler⟩ | ⟨n, hcall⟩ := ho x hx
        · rw [hfds, List.mem_singleton] at hsocket
          exact ⟨notice, by simp [hsocket, hhandler]⟩
        · exact ⟨n, List.mem_cons_of_mem _ (List.mem_of_ne_of_mem (by simp) hcall)⟩
      · have hsocket := hx.resolve_right List.not_mem_nil
        rw [hfds] at hsocket
        exact hsocket
  | taken fd handler notice =>
    simp only [closeStep]
    split
    · refine ⟨fun rest ho x hx => ?_, fun x hx _ => hx.imp id fun hfd => ⟨_, rfl, hfd⟩, id⟩
      have hne : x ≠ fd := by simpa using (List.mem_filter.mp hx).2
      obtain hsocket | ⟨n, hcall⟩ := ho x (List.mem_of_mem_filter hx)
      · exact .inl hsocket
      · exact .inr ⟨n, List.mem_cons_of_mem _ (List.mem_of_ne_of_mem (by simp [hne]) hcall)⟩
    · rename_i hkept
      have hnone : handler = false := by
        cases handler with
        | false => rfl
        | true => exact absurd ⟨rfl, h rfl⟩ hkept
      exact ⟨fun rest ho => (ho.of_cons (by simp [hnone])).mono (List.subset_cons_self _ _),
        fun x hx _ => hx.imp id fun hfd => ⟨_, rfl, hfd⟩, id⟩
  | removed fd notice =>
    refine ⟨fun rest ho => ?_, fun x hx hnot => ?_, fun ho => ho.of_same rfl fun _ => id⟩
    · exact (ho.of_cons (by simp)).mono (List.subset_cons_self _ _)
    · refine .inl (hx.resolve_right fun hfd => ?_)
      rw [List.mem_singleton.mp hfd] at hnot
      exact hnot notice rfl
  | closed file notice =>
    have howned : ∀ rest, s.Owned (.closed file notice :: rest) → s.Owned rest :=
      fun rest ho => ho.of_cons (by simp)
    have hsockets : ∀ {fd}, fd ∈ s.socketFds ∨ fd ∈ (UdpClosing.closed file notice).held →
        fd ∈ s.socketFds := fun hfd => hfd.resolve_right List.not_mem_nil
    cases notice with
    | none => exact ⟨howned, fun x hx _ => .inl (hsockets hx), id⟩
    | some reason =>
      simp only [closeStep]
      split
      · refine ⟨howned, fun x hx _ => .inl (hsockets hx), fun ho fd f data hc => ?_⟩
        obtain hc | hc := List.mem_append.mp hc
        · exact ho fd f data hc
        · simp at hc
      · exact ⟨howned, fun x hx _ => .inl (hsockets hx), id⟩

theorem Reads.of_same (h : s.Reads) (hregistered : t.registered = s.registered)
    (hsocket : t.socket = s.socket) (hhandler : t.handler = s.handler)
    (hclosings : s.closings ⊆ t.closings)
    (hreceiving : ∀ fd ∈ t.reactor.receiving?, fd ∈ s.held) (hown : t.ReadsOwn) : t.Reads := by
  refine ⟨(h.owned.mono hclosings).of_same hregistered hsocket hhandler,
    fun fd hfd => mem_held.mpr ?_, hown⟩
  obtain hfirst | ⟨c, hc, hheld⟩ := mem_held.mp (hreceiving fd hfd)
  · have hfds : t.socketFds = s.socketFds := by simp only [socketFds, hsocket]
    exact .inl (hfds ▸ hfirst)
  · exact .inr ⟨c, hclosings hc, hheld⟩

theorem closings_subset (hnone : s.reactor.closing? = none) (hclosers : t.closers = s.closers) :
    s.closings ⊆ t.closings := by
  intro c hc
  simp only [closings, hnone, Option.toList_none, List.append_nil] at hc
  exact List.mem_append_left _ (hclosers ▸ hc)

/-- A section of a closing call, with `rest` the others. -/
theorem Reads.closeStep (h : s.Reads) {c : UdpClosing} {removes : Bool} {rest : List UdpClosing}
    {u : UdpSocket} (hc : c.Undisturbed s.reactor.receiving? removes)
    (hbefore : s.closings.Perm (c :: rest)) (hu : u = (s.closeStep c removes).2)
    (hsame : t = { u with closers := t.closers, reactor := t.reactor })
    (hafter : ((s.closeStep c removes).1.toList ++ rest).Perm t.closings)
    (hreactor : ∀ fd ∈ t.reactor.receiving?, fd ∈ s.reactor.receiving?) : t.Reads := by
  have hkeeps := s.keeps c hc
  rw [← hu] at hkeeps
  have hsocket : t.socket = u.socket := by rw [hsame]
  have howned := (hkeeps.owned rest (h.owned.mono hbefore.subset)).mono hafter.subset
  refine ⟨howned.of_same (by rw [hsame]) hsocket (by rw [hsame]),
    fun fd hfd => mem_held.mpr ?_, ?_⟩
  · have hreads := hreactor fd hfd
    have hopen : ∀ notice, c ≠ .removed fd notice := by
      rintro notice rfl
      exact hc hreads
    have hnow : fd ∈ s.socketFds ∨ fd ∈ c.held →
        fd ∈ t.socketFds ∨ ∃ d ∈ t.closings, fd ∈ d.held := fun hx => by
      obtain hx | ⟨d, hd, hx⟩ := hkeeps.sockets fd hx hopen
      · have hfds : t.socketFds = u.socketFds := by simp only [socketFds, hsocket]
        exact .inl (hfds ▸ hx)
      · exact .inr ⟨d, hafter.subset (List.mem_append_left _ (Option.mem_toList.mpr hd)), hx⟩
    obtain hfirst | ⟨d, hd, hx⟩ := mem_held.mp (h.receiving fd hreads)
    · exact hnow (.inl hfirst)
    · obtain rfl | hd := List.mem_cons.mp (hbefore.subset hd)
      · exact hnow (.inr hx)
      · exact .inr ⟨d, hafter.subset (List.mem_append_right _ hd), hx⟩
  · exact (hkeeps.own h.own).of_same (by rw [hsame]) (by rw [hsame]; exact fun _ => id)

theorem Reads.closer (h : s.Reads) {i : Nat} {removes : Bool}
    (hc : s.Undisturbed (.closer i removes)) (hs : s.closer i removes = some t) : t.Reads := by
  obtain ⟨c, hget, hs⟩ := Option.map_eq_some_iff.mp hs
  have hbefore : s.closings.Perm (c :: (s.closers.eraseIdx i ++ s.reactor.closing?.toList)) :=
    (closers_perm hget).append_right _
  obtain ⟨-, hreactor⟩ := s.closeStep_others c removes
  split at hs
  · rename_i next u hstep
    cases hs
    rw [hstep] at hreactor
    dsimp only at hreactor
    refine h.closeStep (hc c hget) hbefore (by rw [hstep]) rfl ?_ ?_
    · rw [hstep]
      simp only [closings, hreactor]
      exact (closers_set_perm hget).symm.append_right _
    · rw [← hreactor]
      exact fun _ => id
  · rename_i u hstep
    cases hs
    rw [hstep] at hreactor
    dsimp only at hreactor
    refine h.closeStep (hc c hget) hbefore (by rw [hstep]) rfl ?_ ?_
    · rw [hstep]
      simp only [closings, hreactor]
      exact List.Perm.refl _
    · rw [← hreactor]
      exact fun _ => id

theorem Reads.reactorCloses (h : s.Reads) {removes : Bool}
    (hc : s.Undisturbed (.reactorCloses removes)) (hs : s.reactorCloses removes = some t) :
    t.Reads := by
  unfold UdpSocket.reactorCloses at hs
  split at hs
  · rename_i fd c error close hreactor
    have hclosing : s.reactor.closing? = some c := by rw [hreactor]; rfl
    have hbefore : s.closings.Perm (c :: s.closers) := by
      simp only [closings, hclosing]
      exact List.perm_append_singleton c s.closers
    obtain ⟨hclosers, -⟩ := s.closeStep_others c removes
    have hundisturbed := hc c hclosing
    split at hs
    · rename_i next u hstep
      cases hs
      rw [hstep] at hclosers
      dsimp only at hclosers
      refine h.closeStep hundisturbed hbefore (by rw [hstep]) rfl ?_ fun _ hfd => nomatch hfd
      rw [hstep]
      simp only [closings, hclosers]
      exact (List.perm_append_singleton next s.closers).symm
    · rename_i u hstep
      cases hs
      rw [hstep] at hclosers
      dsimp only at hclosers
      refine h.closeStep hundisturbed hbefore (by rw [hstep]) rfl ?_ fun _ hfd => nomatch hfd
      rw [hstep]
      simp only [closings, hclosers]
      exact (List.append_nil s.closers).symm ▸ List.Perm.refl _
  · cases hs

theorem Reads.init (h : s.Reads) {fd : Fd} {succeeds : Bool}
    (hs : s.init k fd succeeds = some t) : t.Reads := by
  unfold UdpSocket.init at hs
  split at hs
  · rename_i hfree
    obtain ⟨books, hinstall, rfl⟩ := Option.map_eq_some_iff.mp hs
    obtain ⟨hpos, hopened, -⟩ := install_one hinstall
    have hinstalled : s.books.installed ⊆ books.installed :=
      hopened ▸ List.subset_append_left _ _
    split
    · exact h.of_same rfl rfl rfl (fun _ => id) h.receiving (h.own.of_same rfl hinstalled)
    · obtain ⟨-, -, hidle, -⟩ := hfree
      refine ⟨fun x hx => .inl ?_, fun x hx => ?_, h.own.of_same rfl hinstalled⟩
      · dsimp only at hx
        split at hx
        · rename_i hclient
          obtain rfl := List.mem_singleton.mp hx
          have hvalid : x ≠ invalidSocket := by
            rintro rfl
            exact absurd hpos (by decide)
          exact ⟨by simp [socketFds, hvalid], by simp [hclient]⟩
        · cases hx
      · rw [hidle] at hx
        cases hx
  · cases hs

theorem Reads.start (h : s.Reads) {registers : Bool} (hc : s.Undisturbed (.start registers))
    (hs : s.start k registers = some t) : t.Reads := by
  have hhandler : s.handler = false := hc
  unfold UdpSocket.start at hs
  split at hs
  · split at hs
    · cases hs
      exact h
    · rename_i hvalid
      have hfds : s.socketFds = [s.socket] := if_neg hvalid
      split at hs
      · cases hs
        refine ⟨fun fd hfd => ?_, h.receiving, h.own⟩
        obtain rfl | hfd := List.mem_cons.mp hfd
        · exact .inl ⟨hfds ▸ List.mem_singleton.mpr rfl, rfl⟩
        · exact .inr ((h.owned fd hfd).resolve_left fun ho => by simp [hhandler] at ho)
      · cases hs
        exact h.of_same rfl rfl hhandler.symm (fun _ => id) h.receiving h.own
  · cases hs

theorem Inv.lookup_held (h : s.Inv) {fd : Fd} (hfd : fd ∈ s.held) :
    ∃ own ∈ s.books.installed, s.books.table.lookup fd = some own := by
  obtain ⟨file, hfile⟩ := Option.isSome_iff_exists.mp (h.balanced.fds.isOpen fd hfd)
  have hheld : file ∈ filesOf s.books.table s.held := List.mem_filterMap.mpr ⟨fd, hfd, hfile⟩
  exact ⟨file, (h.balanced.of_held hheld).1, hfile⟩

theorem Reads.recv (h : s.Reads) (hinv : s.Inv) {r : RecvReturn} (hs : s.recv k r = some t) :
    t.Reads := by
  unfold UdpSocket.recv at hs
  split at hs
  · rename_i fd error close hreactor
    have hnone : s.reactor.closing? = none := by rw [hreactor]; rfl
    have hfd : fd ∈ s.held := h.receiving fd (by rw [hreactor]; rfl)
    have hnext : ∀ {d : UdpDispatch}, d.receiving? = none ∨ d = s.reactor →
        ({ s with reactor := d } : UdpSocket).Reads := fun {d} hd => by
      refine h.of_same rfl rfl rfl (closings_subset hnone rfl) (fun x hx => ?_) h.own
      obtain hd | rfl := hd
      · simp [hd] at hx
      · exact h.receiving x hx
    cases r with
    | bytes data =>
      cases hs
      refine h.of_same rfl rfl rfl (closings_subset hnone rfl) (fun x hx => ?_) ?_
      · dsimp only at hx
        split at hx
        · cases hx
        · exact h.receiving x hx
      · intro x file bytes hc
        obtain hc | hc := List.mem_append.mp hc
        · exact h.own x file bytes hc
        · split at hc
          · cases List.mem_singleton.mp hc
            exact hinv.lookup_held hfd
          · cases hc
    | disconnect =>
      cases hs
      exact hnext (.inl rfl)
    | error errno =>
      dsimp only at hs
      split at hs
      · cases hs
        exact hnext (.inl rfl)
      · cases k with
        | client =>
          cases hs
          exact hnext (.inl rfl)
        | kqueueServer =>
          cases hs
          exact hnext (.inl rfl)
        | epollServer =>
          cases hs
          refine hnext ?_
          split
          · exact .inr rfl
          · exact .inl rfl
  · cases hs

theorem Reads.nextCall (h : s.Reads) (hs : s.nextCall k = some t) : t.Reads := by
  have hnext : ∀ {fd : Fd} {error close : Bool} {d : UdpDispatch},
      s.reactor = .calls fd error close → d.receiving? = none →
      ({ s with reactor := d } : UdpSocket).Reads := fun hreactor hd =>
    h.of_same rfl rfl rfl (closings_subset (by rw [hreactor]; rfl) rfl)
      (fun x hx => by simp [hd] at hx) h.own
  unfold UdpSocket.nextCall at hs
  split at hs
  · rename_i fd close hreactor
    cases hs
    split
    · exact hnext hreactor rfl
    · exact hnext hreactor rfl
  · rename_i fd hreactor
    cases hs
    split
    · exact hnext hreactor rfl
    · exact hnext hreactor rfl
  · rename_i fd hreactor
    cases hs
    exact hnext hreactor rfl
  · cases hs

theorem Reads.step (h : s.Reads) (hinv : s.Inv) {a : UdpAct} (hc : s.Undisturbed a)
    (hs : s.step k a = some t) : t.Reads := by
  cases a with
  | openFile fd =>
    obtain ⟨books, hopen, rfl⟩ := Option.map_eq_some_iff.mp hs
    have hinstalled : s.books.installed ⊆ books.installed := by
      unfold Posix.DescriptorBooks.openFd at hopen
      split at hopen
      · cases hopen
        exact fun _ => id
      · cases hopen
    exact h.of_same rfl rfl rfl (fun _ => id) h.receiving (h.own.of_same rfl hinstalled)
  | closeFile fd =>
    simp only [UdpSocket.step] at hs
    split at hs
    · cases hs
    · cases hs
      exact h.of_same rfl rfl rfl (fun _ => id) h.receiving (h.own.of_same rfl fun _ => id)
  | listen listening =>
    cases hs
    exact h.of_same rfl rfl rfl (fun _ => id) h.receiving h.own
  | init fd succeeds => exact h.init hs
  | start registers => exact h.start hc hs
  | close =>
    cases hs
    refine h.of_same rfl rfl rfl (fun c hmem => ?_) h.receiving h.own
    simp only [closings, UdpSocket.close, List.mem_append] at hmem ⊢
    grind
  | closer i removes => exact h.closer hc hs
  | dispatchEvent fd read error close =>
    simp only [UdpSocket.step, UdpSocket.dispatchEvent] at hs
    split at hs
    · rename_i hidle
      cases hs
      have hnone : s.reactor.closing? = none := by rw [hidle.1]; rfl
      refine h.of_same rfl rfl rfl (closings_subset hnone rfl) (fun x hx => ?_) h.own
      cases read with
      | false => cases hx
      | true =>
        cases hx
        exact h.owned.held hidle.2
    · cases hs
  | recv r => exact h.recv hinv hs
  | nextCall => exact h.nextCall hs
  | reactorCloses removes => exact h.reactorCloses hc hs

/-- In every run in which no socket is closed while the reactor reads from it, the listener is
given data from sockets of the object only, however its number has been used since. -/
theorem udpSocket_reads_own {as : List UdpAct} (h : (machine k).run created as = some s)
    (hundisturbed : (machine k).Every (fun s a _ => s.Undisturbed a) created as) :
    s.ReadsOwn := by
  have hboth : s.Inv ∧ s.Reads :=
    (machine k).run_invariant_of_every (I := fun s => s.Inv ∧ s.Reads)
      (fun _ _ _ hs hstep hc => ⟨hs.1.step hstep, hs.2.step hs.1 hc hstep⟩)
      ⟨created_inv, created_reads⟩ hundisturbed h
  exact hboth.2.own

/-- `Close` comes while the reactor reads, and closes the socket when it has gone on; its
number is then another file's. -/
def closeDuringRead : List UdpAct :=
  [.init 3 true, .dispatchEvent 3 true false false, .recv (.bytes [1]), .close, .closer 0 true,
    .closer 0 true, .recv (.bytes [2]), .recv (.error EAGAIN), .closer 0 true, .openFile 3,
    .nextCall]

theorem udpSocket_reads_own_closeDuringRead :
    ∃ s, (machine .client).run created closeDuringRead = some s ∧
      s.callbacks = [.onReceive 3 (some 0) [1], .onReceive 3 (some 0) [2]] ∧ s.ReadsOwn := by
  have hrun : (machine .client).run created closeDuringRead = some _ := rfl
  exact ⟨_, hrun, by decide,
    udpSocket_reads_own hrun ((machine .client).every_of_check (by decide))⟩

/-- Where `Close` does not wait for the reactor, `HandleReceive` reads from the other file. -/
example : ((machine .client).run created
    [.init 3 true, .dispatchEvent 3 true false false, .close, .closer 0 true, .closer 0 true,
      .closer 0 true, .openFile 3, .recv (.bytes [2])]).map UdpSocket.callbacks =
    some [.onReceive 3 (some 1) [2]] := rfl

end UdpSocket

end Lmnet.Reactor
