import Lmnet.IoUring.Tally
import Lmnet.IoUring.TcpServer

/-!
What the TCP server owes each of its connections: the read it has under way, the
code that is about to end it, and its closes. The ledger balances in every state,
and each kind of step keeps it so.
-/

set_option autoImplicit false

namespace Lmnet.IoUring

inductive Tag where
  | read (c : Nat)
  | ending (c : Nat)
  | handing (c : Nat)
  | closing (c : Nat)
  | accepted (fd : Fd)
  | stopping
  | clearing
  | disconnecting
  deriving DecidableEq, Repr

def TcpOp.tag : TcpOp → Option Tag
  | .read c => some (.read c)
  | .close c => some (.closing c)
  | .closeDisconnected _ => some .disconnecting
  | .accept | .write _ | .closeListener | .other => none

def TcpOp.doneTag (op : TcpOp) (result : Int) : Option Tag :=
  match op with
  | .accept => if 0 ≤ result then some (.accepted result) else none
  | .read c => some (.read c)
  | .closeDisconnected _ => some .disconnecting
  | .write _ | .close _ | .closeListener | .other => none

def TcpCode.tag : TcpCode → Option Tag
  | .handleAccept clientFd => some (.accepted clientFd)
  | .submitRead c => some (.read c)
  | .handleConnectionClose c closeFd _ => some (if closeFd then .ending c else .disconnecting)
  | .closeClient c => some (.handing c)
  | .directClose c => some (.closing c)
  | .closeSessions => some .stopping
  | .clearSessions => some .clearing
  | _ => none

namespace Tag

def tally (tag : Tag) : Tally TcpOp TcpCode where
  submit op := op.tag == some tag
  flight op := op.tag == some tag
  posted op result := op.doneTag result == some tag
  invoke op result := op.doneTag result == some tag
  code f := f.tag == some tag

def ofCall : Call TcpOp TcpCode → Option Tag
  | .submit _ _ op => op.tag
  | .code f => f.tag

theorem toNat_eq_count (o : Option Tag) (tag : Tag) :
    (o == some tag).toNat = o.toList.count tag := by
  cases o with
  | none => rfl
  | some x =>
    by_cases h : x = tag
    · simp [h]
    · simp [h]

theorem calls_eq_count (tag : Tag) (cs : List (Call TcpOp TcpCode)) :
    tag.tally.calls cs = (cs.filterMap ofCall).count tag := by
  induction cs with
  | nil => rfl
  | cons c cs ih =>
    have hcall : (tag.tally.call c).toNat = (ofCall c).toList.count tag := by
      cases c <;> exact toNat_eq_count _ tag
    rw [Tally.calls_cons, ih, hcall, List.filterMap_cons]
    cases ofCall c with
    | none => simp
    | some x => simp [List.count_cons]

end Tag

def pending (s : Loop TcpOp TcpCode TcpServer) (tag : Tag) : Nat := tag.tally.count s

theorem Tag.forall_iff {P : Tag → Prop} : (∀ tag, P tag) ↔
    (∀ c, P (.read c)) ∧ (∀ c, P (.ending c)) ∧ (∀ c, P (.handing c)) ∧ (∀ c, P (.closing c)) ∧
      (∀ fd, P (.accepted fd)) ∧ P .stopping ∧ P .clearing ∧ P .disconnecting := by
  constructor
  · intro h
    exact ⟨fun _ => h _, fun _ => h _, fun _ => h _, fun _ => h _, fun _ => h _, h _, h _, h _⟩
  · rintro ⟨hread, hending, hhanding, hclosing, haccepted, hstopping, hclearing, hdisc⟩ tag
    cases tag with
    | read c => exact hread c
    | ending c => exact hending c
    | handing c => exact hhanding c
    | closing c => exact hclosing c
    | accepted fd => exact haccepted fd
    | stopping => exact hstopping
    | clearing => exact hclearing
    | disconnecting => exact hdisc

def Moved (n n' : Tag → Nat) (out into : List Tag) : Prop :=
  ∀ tag, n' tag + out.count tag = n tag + into.count tag

structure Entry where
  fd : Fd
  isOpen : Bool
  adopted : Bool
  deriving DecidableEq, Repr

structure Book where
  isRunning : Bool
  sessions : FdMap Nat
  table : List Entry
  tasks : List ListenerCall
  handed : List Nat
  hits : List (Nat × Nat)

def TcpServer.book (st : TcpServer) : Book where
  isRunning := st.isRunning
  sessions := st.sessions
  table := st.connections.map fun x => ⟨x.fd, x.isOpen, x.session.isSome⟩
  tasks := st.tasks
  handed := st.handed
  hits := st.hits

/-- No listener call about a session to receive or to close comes after it was
told that the session closed. -/
def Orderly (tasks : List ListenerCall) : Prop :=
  tasks.Pairwise fun x y => ∀ c, x = .onClose c → y ≠ .onReceive c ∧ y ≠ .onClose c

theorem orderly_concat {tasks : List ListenerCall} {task : ListenerCall} (h : Orderly tasks)
    (hnew : ∀ c, task = .onReceive c ∨ task = .onClose c → .onClose c ∉ tasks) :
    Orderly (tasks ++ [task]) := by
  refine List.pairwise_append.mpr ⟨h, List.pairwise_singleton _ _, ?_⟩
  rintro x hx y hy c rfl
  obtain rfl := List.mem_singleton.mp hy
  exact ⟨fun hreceive => hnew c (.inl hreceive) hx, fun hclose => hnew c (.inr hclose) hx⟩

theorem orderly_close {tasks : List ListenerCall} {c : Nat} (isError : Bool) (h : Orderly tasks)
    (hnew : .onClose c ∉ tasks) :
    Orderly (tasks ++ ((if isError then [.onError c] else []) ++ [.onClose c])) := by
  have herror : Orderly (tasks ++ if isError then [.onError c] else []) := by
    cases isError with
    | false => simpa using h
    | true => exact orderly_concat h (by simp)
  rw [← List.append_assoc]
  refine orderly_concat herror fun d hd => ?_
  obtain rfl : c = d := by simpa using hd
  cases isError <;> simpa using hnew

structure Ledger (b : Book) (n : Tag → Nat) : Prop where
  owned : b.isRunning = true → ∀ c e, b.table[c]? = some e → e.adopted = true →
    n (.read c) + n (.ending c) + n (.handing c) + b.handed.count c = 1
  fresh : ∀ c, (∀ e, b.table[c]? = some e → e.adopted = false) →
    n (.read c) + n (.ending c) + n (.handing c) + b.handed.count c = 0
  once : ∀ c, n (.handing c) + b.handed.count c ≤ 1
  closing : ∀ c, n (.closing c) ≤ b.handed.count c
  closed : ∀ c e, b.table[c]? = some e → e.isOpen = false →
    0 < b.handed.count c ∧ n (.closing c) = 0
  distinct : ∀ (c d : Nat) (e e' : Entry), b.table[c]? = some e → b.table[d]? = some e' →
    e.isOpen = true → e'.isOpen = true → e.fd = e'.fd → c = d
  session : ∀ fd c, b.sessions.lookup fd = some c →
    ∃ e, b.table[c]? = some e ∧ e.fd = fd ∧ e.adopted = true
  kept : b.isRunning = true ∨ 0 < n .stopping → ∀ fd c, b.sessions.lookup fd = some c →
    n (.handing c) + b.handed.count c = 0
  found : b.isRunning = true → ∀ c e, b.table[c]? = some e →
    0 < n (.read c) + n (.ending c) → b.sessions.lookup e.fd = some c
  stopping : n .stopping ≤ 1
  running : b.isRunning = true → n .stopping = 0 ∧ n .clearing = 0
  disconnecting : n .disconnecting = 0
  accepted : ∀ fd, n (.accepted fd) = b.table.countP fun e => e.fd == fd && !e.adopted
  hits : ∀ p ∈ b.hits, p.1 = p.2
  orderly : Orderly b.tasks
  ended : ∀ c, .onClose c ∈ b.tasks →
    n (.read c) + n (.ending c) = 0 ∧ ∃ e, b.table[c]? = some e ∧ e.adopted = true

namespace Ledger

variable {b : Book} {n n' : Tag → Nat}

theorem adopted (h : Ledger b n) {c : Nat}
    (hpos : 0 < n (.read c) + n (.ending c) + n (.handing c) + b.handed.count c) :
    ∃ e, b.table[c]? = some e ∧ e.adopted = true := by
  by_contra hnone
  have hzero := h.fresh c fun e he => by
    cases hadopted : e.adopted
    · rfl
    · exact absurd ⟨e, he, hadopted⟩ hnone
  omega

theorem of_not_handed (h : Ledger b n) {c : Nat} {e : Entry}
    (he : b.table[c]? = some e) (hhanded : b.handed.count c = 0) : e.isOpen = true := by
  cases hopen : e.isOpen
  · have hclosed := (h.closed c e he hopen).1
    omega
  · rfl

theorem hits_concat (h : Ledger b n) (c : Nat) : ∀ p ∈ b.hits ++ [(c, c)], p.1 = p.2 := by
  intro p hp
  rcases List.mem_append.mp hp with hp | hp
  · exact h.hits p hp
  · rw [List.mem_singleton.mp hp]

theorem stopped (h : Ledger b n) (hpos : 0 < n .stopping + n .clearing) :
    b.isRunning = false := by
  cases hrun : b.isRunning
  · rfl
  · have hzero := h.running hrun
    omega

theorem empty (isRunning : Bool) : Ledger ⟨isRunning, ∅, [], [], [], []⟩ fun _ => 0 where
  owned := by simp
  fresh := by simp
  once := by simp
  closing := by simp
  closed := by simp
  distinct := by simp
  session := by simp
  kept := by simp
  found := by simp
  stopping := by simp
  running := by simp
  disconnecting := rfl
  accepted := by simp
  hits := by simp
  orderly := List.Pairwise.nil
  ended := by simp

theorem of_moved_self (h : Ledger b n) {out : List Tag} (hm : Moved n n' out out) :
    Ledger b n' := by
  have heq : n' = n := funext fun tag => Nat.add_right_cancel (hm tag)
  rw [heq]
  exact h

theorem of_moved_eq (h : Ledger b n) {out into : List Tag} (hsame : into = out)
    (hm : Moved n n' out into) : Ledger b n' := by
  subst hsame
  exact h.of_moved_self hm

theorem ends (h : Ledger b n) {c : Nat} (hm : Moved n n' [.read c] [.ending c]) :
    Ledger b n' := by
  simp only [Moved, Tag.forall_iff] at hm
  simp [List.count_cons] at hm
  obtain ⟨hread, hending, hhanding, hclosing, haccepted, hstopping, hclearing, hdisc⟩ := hm
  have hsum : ∀ d, n' (.read d) + n' (.ending d) = n (.read d) + n (.ending d) := by
    intro d
    have hr := hread d
    have he := hending d
    omega
  exact
    { h with
      owned := fun hrun d e he hadopted => by
        rw [hsum, hhanding]
        exact h.owned hrun d e he hadopted
      fresh := fun d hd => by
        rw [hsum, hhanding]
        exact h.fresh d hd
      once := fun d => hhanding d ▸ h.once d
      closing := fun d => hclosing d ▸ h.closing d
      closed := fun d e he hopen => hclosing d ▸ h.closed d e he hopen
      kept := fun hkept fd d hlookup => hhanding d ▸ h.kept (hstopping ▸ hkept) fd d hlookup
      found := fun hrun d e he hpos => h.found hrun d e he (hsum d ▸ hpos)
      stopping := hstopping ▸ h.stopping
      running := fun hrun => hstopping ▸ hclearing ▸ h.running hrun
      disconnecting := hdisc ▸ h.disconnecting
      accepted := fun fd => haccepted fd ▸ h.accepted fd
      ended := fun d hd => hsum d ▸ h.ended d hd }

theorem readDropped (h : Ledger b n) {c : Nat} (hrun : b.isRunning = false)
    (hm : Moved n n' [.read c] []) : Ledger b n' := by
  simp only [Moved, Tag.forall_iff] at hm
  simp [List.count_cons] at hm
  obtain ⟨hread, hending, hhanding, hclosing, haccepted, hstopping, hclearing, hdisc⟩ := hm
  have hle : ∀ d, n' (.read d) + n' (.ending d) ≤ n (.read d) + n (.ending d) := by
    intro d
    have hr := hread d
    have he := hending d
    omega
  exact
    { h with
      owned := fun hrun' => absurd (hrun.symm.trans hrun') Bool.false_ne_true
      fresh := fun d hd => by
        have hsum := h.fresh d hd
        have hd := hle d
        have hh := hhanding d
        omega
      once := fun d => hhanding d ▸ h.once d
      closing := fun d => hclosing d ▸ h.closing d
      closed := fun d e he hopen => hclosing d ▸ h.closed d e he hopen
      kept := fun hkept fd d hlookup => hhanding d ▸ h.kept (hstopping ▸ hkept) fd d hlookup
      found := fun hrun' => absurd (hrun.symm.trans hrun') Bool.false_ne_true
      stopping := hstopping ▸ h.stopping
      running := fun hrun => hstopping ▸ hclearing ▸ h.running hrun
      disconnecting := hdisc ▸ h.disconnecting
      accepted := fun fd => haccepted fd ▸ h.accepted fd
      ended := fun d hd => by
        obtain ⟨hzero, hadopted⟩ := h.ended d hd
        have hd := hle d
        exact ⟨by omega, hadopted⟩ }

theorem receive (h : Ledger b n) {c : Nat} (hpos : 0 < n (.read c))
    (hm : Moved n n' [.read c] [.read c]) :
    Ledger { b with tasks := b.tasks ++ [.onReceive c] } n' := by
  have h' := h.of_moved_self hm
  exact
    { h' with
      orderly := orderly_concat h.orderly fun d hd hclose => by
        obtain rfl : c = d := by simpa using hd
        have hzero := (h.ended c hclose).1
        omega
      ended := fun d hd => h'.ended d (by simpa using hd) }

theorem close (h : Ledger b n) {c : Nat} {e : Entry} (isError : Bool) (hrun : b.isRunning = true)
    (he : b.table[c]? = some e) (hadopted : e.adopted = true) (hpos : 0 < n (.ending c))
    (hm : Moved n n' [.ending c] [.handing c]) :
    Ledger { b with
      sessions := b.sessions.erase e.fd
      tasks := b.tasks ++ ((if isError then [.onError c] else []) ++ [.onClose c])
      hits := b.hits ++ [(c, c)] } n' := by
  have hlookup := h.found hrun c e he (by omega)
  have hown := h.owned hrun c e he hadopted
  simp only [Moved, Tag.forall_iff] at hm
  simp [List.count_cons] at hm
  obtain ⟨hread, hending, hhanding, hclosing, haccepted, hstopping, hclearing, hdisc⟩ := hm
  have hnew : .onClose c ∉ b.tasks := fun hclose => by
    have hzero := (h.ended c hclose).1
    omega
  have hother : ∀ fd d, (b.sessions.erase e.fd).lookup fd = some d →
      b.sessions.lookup fd = some d ∧ c ≠ d := by
    intro fd d hd
    obtain ⟨hfd, hd⟩ := AList.lookup_of_lookup_erase hd
    refine ⟨hd, ?_⟩
    rintro rfl
    obtain ⟨e', he', hfd', -⟩ := h.session fd c hd
    obtain rfl : e = e' := Option.some.inj (he.symm.trans he')
    exact hfd hfd'.symm
  exact
    { h with
      owned := fun _ d e' he' hadopted' => by
        have hown' := h.owned hrun d e' he' hadopted'
        have hr := hread d
        have hend := hending d
        have hhand := hhanding d
        show n' (.read d) + n' (.ending d) + n' (.handing d) + b.handed.count d = 1
        omega
      fresh := fun d hd => by
        have hne : c ≠ d := by
          rintro rfl
          exact absurd ((hd e he).symm.trans hadopted) Bool.false_ne_true
        have hzero := h.fresh d hd
        have hr := hread d
        have hend := hending d
        have hhand := hhanding d
        simp only [hne, if_false] at hend hhand
        show n' (.read d) + n' (.ending d) + n' (.handing d) + b.handed.count d = 0
        omega
      once := fun d => by
        have hle := h.once d
        have hhand := hhanding d
        show n' (.handing d) + b.handed.count d ≤ 1
        by_cases hcd : c = d
        · subst hcd
          simp only [if_true] at hhand
          omega
        · simp only [hcd, if_false] at hhand
          omega
      closing := fun d => hclosing d ▸ h.closing d
      closed := fun d e he hopen => hclosing d ▸ h.closed d e he hopen
      session := fun fd d hd => h.session fd d (hother fd d hd).1
      kept := fun _ fd d hd => by
        obtain ⟨hd', hne⟩ := hother fd d hd
        have hzero := h.kept (.inl hrun) fd d hd'
        have hhand := hhanding d
        simp only [hne, if_false] at hhand
        show n' (.handing d) + b.handed.count d = 0
        omega
      found := fun _ d e' he' hpos' => by
        have hr := hread d
        have hend := hending d
        have hne : c ≠ d := by
          rintro rfl
          simp only [if_true] at hend
          omega
        simp only [hne, if_false] at hend
        have hd := h.found hrun d e' he' (by omega)
        have hfd : e'.fd ≠ e.fd := fun hfd => by
          rw [hfd, hlookup] at hd
          exact hne (Option.some.inj hd)
        rw [AList.lookup_erase_ne hfd]
        exact hd
      stopping := hstopping ▸ h.stopping
      running := fun hrun => hstopping ▸ hclearing ▸ h.running hrun
      disconnecting := hdisc ▸ h.disconnecting
      accepted := fun fd => haccepted fd ▸ h.accepted fd
      hits := h.hits_concat c
      orderly := orderly_close isError h.orderly hnew
      ended := fun d hd => by
        have hr := hread d
        have hend := hending d
        by_cases hcd : c = d
        · subst hcd
          simp only [if_true] at hend
          exact ⟨by omega, e, he, hadopted⟩
        · simp only [hcd, if_false] at hend
          have hd' : .onClose d ∈ b.tasks := by
            cases isError <;> simpa [Ne.symm hcd] using hd
          obtain ⟨hzero, hadopted'⟩ := h.ended d hd'
          exact ⟨by omega, hadopted'⟩ }

theorem accept (h : Ledger b n) (fd : Fd)
    (hfree : ∀ (c : Nat) (e : Entry), b.table[c]? = some e → e.isOpen = true → e.fd ≠ fd)
    (hm : Moved n n' [] [.accepted fd]) :
    Ledger { b with table := b.table ++ [⟨fd, true, false⟩] } n' := by
  simp only [Moved, Tag.forall_iff] at hm
  simp [List.count_cons] at hm
  obtain ⟨hread, hending, hhanding, hclosing, haccepted, hstopping, hclearing, hdisc⟩ := hm
  have hold : ∀ {d e}, (b.table ++ [(⟨fd, true, false⟩ : Entry)])[d]? = some e →
      b.table[d]? = some e ∨ (d = b.table.length ∧ e = ⟨fd, true, false⟩) :=
    List.getElem?_concat_some
  have hkeep : ∀ {d e}, b.table[d]? = some e →
      (b.table ++ [(⟨fd, true, false⟩ : Entry)])[d]? = some e := fun he => by
    rw [List.getElem?_append_left (List.getElem?_eq_some_iff.mp he).1]
    exact he
  exact
    { h with
      owned := fun hrun d e he hadopted => by
        rw [hread, hending, hhanding]
        rcases hold he with he | ⟨-, rfl⟩
        · exact h.owned hrun d e he hadopted
        · cases hadopted
      fresh := fun d hd => by
        rw [hread, hending, hhanding]
        exact h.fresh d fun e he => hd e (hkeep he)
      once := fun d => hhanding d ▸ h.once d
      closing := fun d => hclosing d ▸ h.closing d
      closed := fun d e he hopen => by
        rw [hclosing]
        rcases hold he with he | ⟨-, rfl⟩
        · exact h.closed d e he hopen
        · cases hopen
      distinct := fun d d' e e' he he' hopen hopen' hfd => by
        rcases hold he with he | ⟨hd, rfl⟩ <;> rcases hold he' with he' | ⟨hd', rfl⟩
        · exact h.distinct d d' e e' he he' hopen hopen' hfd
        · exact absurd hfd (hfree d e he hopen)
        · exact absurd hfd.symm (hfree d' e' he' hopen')
        · exact hd.trans hd'.symm
      session := fun fd d hd => by
        obtain ⟨e, he, hfd, hadopted⟩ := h.session fd d hd
        exact ⟨e, hkeep he, hfd, hadopted⟩
      kept := fun hkept fd d hlookup => hhanding d ▸ h.kept (hstopping ▸ hkept) fd d hlookup
      found := fun hrun d e he hpos => by
        rw [hread, hending] at hpos
        rcases hold he with he | ⟨rfl, rfl⟩
        · exact h.found hrun d e he hpos
        · have hzero := h.fresh b.table.length (by simp)
          omega
      stopping := hstopping ▸ h.stopping
      running := fun hrun => hstopping ▸ hclearing ▸ h.running hrun
      disconnecting := hdisc ▸ h.disconnecting
      accepted := fun fd' => by
        have hcount := h.accepted fd'
        rw [haccepted fd', hcount, List.countP_append, List.countP_singleton]
        simp
      ended := fun d hd => by
        rw [hread, hending]
        obtain ⟨hzero, e, he, hadopted⟩ := h.ended d hd
        exact ⟨hzero, e, hkeep he, hadopted⟩ }

theorem ne_of_unadopted {table : List Entry} {c d : Nat} {e e' : Entry}
    (hc : table[c]? = some e) (hd : table[d]? = some e') (hfalse : e.adopted = false)
    (htrue : e'.adopted = true) : c ≠ d := by
  rintro rfl
  obtain rfl : e = e' := Option.some.inj (hc.symm.trans hd)
  exact absurd (hfalse.symm.trans htrue) Bool.false_ne_true

theorem adopt (h : Ledger b n) {c : Nat} {fd : Fd} {isOpen : Bool}
    (he : b.table[c]? = some ⟨fd, isOpen, false⟩) (hm : Moved n n' [.accepted fd] [.read c]) :
    Ledger { b with
      sessions := b.sessions.insert fd c
      table := b.table.set c ⟨fd, isOpen, true⟩
      tasks := b.tasks ++ [.onAccept c] } n' := by
  simp only [Moved, Tag.forall_iff] at hm
  simp [List.count_cons] at hm
  obtain ⟨hread, hending, hhanding, hclosing, haccepted, hstopping, hclearing, hdisc⟩ := hm
  have hzero := h.fresh c fun e he' => by
    obtain rfl : (⟨fd, isOpen, false⟩ : Entry) = e := Option.some.inj (he.symm.trans he')
    rfl
  have hopen : isOpen = true := h.of_not_handed he (by omega)
  subst hopen
  have hset : ∀ {d e}, (b.table.set c ⟨fd, true, true⟩)[d]? = some e →
      (c = d ∧ e = ⟨fd, true, true⟩) ∨ (c ≠ d ∧ b.table[d]? = some e) :=
    List.getElem?_set_some
  have hself : (b.table.set c (⟨fd, true, true⟩ : Entry))[c]? = some ⟨fd, true, true⟩ := by
    rw [List.getElem?_set_self (List.getElem?_eq_some_iff.mp he).1]
  have hkeep : ∀ {d : Nat} {e : Entry}, b.table[d]? = some e → e.adopted = true →
      (b.table.set c ⟨fd, true, true⟩)[d]? = some e := fun {d e} hd hadopted => by
    rw [List.getElem?_set_ne (ne_of_unadopted he hd rfl hadopted)]
    exact hd
  exact
    { h with
      owned := fun hrun d e hd hadopted => by
        have hr := hread d
        have hend := hending d
        have hhand := hhanding d
        show n' (.read d) + n' (.ending d) + n' (.handing d) + b.handed.count d = 1
        rcases hset hd with ⟨rfl, rfl⟩ | ⟨hne, hd⟩
        · simp only [if_true] at hr
          omega
        · have hone := h.owned hrun d e hd hadopted
          simp only [hne, if_false] at hr
          omega
      fresh := fun d hd => by
        have hr := hread d
        have hend := hending d
        have hhand := hhanding d
        show n' (.read d) + n' (.ending d) + n' (.handing d) + b.handed.count d = 0
        have hne : c ≠ d := by
          rintro rfl
          exact absurd (hd _ hself) (by simp)
        have hnone := h.fresh d fun e hd' => hd e ((List.getElem?_set_ne hne).trans hd')
        simp only [hne, if_false] at hr
        omega
      once := fun d => hhanding d ▸ h.once d
      closing := fun d => hclosing d ▸ h.closing d
      closed := fun d e hd hopen => by
        rw [hclosing]
        rcases hset hd with ⟨-, rfl⟩ | ⟨-, hd⟩
        · cases hopen
        · exact h.closed d e hd hopen
      distinct := fun d d' e e' hd hd' hopen hopen' hfd => by
        rcases hset hd with ⟨rfl, rfl⟩ | ⟨-, hd⟩ <;> rcases hset hd' with ⟨rfl, rfl⟩ | ⟨-, hd'⟩
        · rfl
        · exact h.distinct c d' _ e' he hd' rfl hopen' hfd
        · exact h.distinct d c e _ hd he hopen rfl hfd
        · exact h.distinct d d' e e' hd hd' hopen hopen' hfd
      session := fun fd' d hd => by
        rcases AList.lookup_insert_cases hd with ⟨rfl, rfl⟩ | ⟨-, hd⟩
        · exact ⟨_, hself, rfl, rfl⟩
        · obtain ⟨e, he', hfd', hadopted⟩ := h.session fd' d hd
          exact ⟨e, hkeep he' hadopted, hfd', hadopted⟩
      kept := fun hkept fd' d hd => by
        have hhand := hhanding d
        show n' (.handing d) + b.handed.count d = 0
        rcases AList.lookup_insert_cases hd with ⟨rfl, rfl⟩ | ⟨-, hd⟩
        · omega
        · have hnone := h.kept (hstopping ▸ hkept) fd' d hd
          omega
      found := fun hrun d e hd hpos => by
        rcases hset hd with ⟨rfl, rfl⟩ | ⟨hne, hd⟩
        · exact AList.lookup_insert _
        · have hr := hread d
          have hend := hending d
          simp only [hne, if_false] at hr
          have hlookup := h.found hrun d e hd (by omega)
          have hfd : e.fd ≠ fd := fun hfd => by
            obtain ⟨e', he', hadopted⟩ := h.adopted (c := d) (by omega)
            obtain rfl : e = e' := Option.some.inj (hd.symm.trans he')
            have hone := h.owned hrun d e hd hadopted
            have hopen := h.of_not_handed hd (by omega)
            exact hne (h.distinct c d _ e he hd rfl hopen hfd.symm)
          rw [AList.lookup_insert_ne hfd]
          exact hlookup
      stopping := hstopping ▸ h.stopping
      running := fun hrun => hstopping ▸ hclearing ▸ h.running hrun
      disconnecting := hdisc ▸ h.disconnecting
      accepted := fun fd' => by
        have hcount := h.accepted fd'
        have hacc := haccepted fd'
        have hset := List.countP_set_add (p := fun e : Entry => e.fd == fd' && !e.adopted)
          (a := ⟨fd, true, true⟩) he
        show n' (.accepted fd') = (b.table.set c ⟨fd, true, true⟩).countP _
        by_cases hfd : fd = fd'
        · subst hfd
          simp at hset hacc
          omega
        · have hbeq : (fd == fd') = false := beq_false_of_ne hfd
          simp [hbeq] at hset
          simp only [hfd, if_false] at hacc
          omega
      orderly := orderly_concat h.orderly (by simp)
      ended := fun d hd => by
        have hd' : .onClose d ∈ b.tasks := by simpa using hd
        obtain ⟨hnone, e, hde, hadopted⟩ := h.ended d hd'
        have hne := ne_of_unadopted he hde rfl hadopted
        have hr := hread d
        have hend := hending d
        simp only [hne, if_false] at hr
        exact ⟨by omega, e, hkeep hde hadopted, hadopted⟩ }

theorem hand (h : Ledger b n) {c : Nat} (hpos : 0 < n (.handing c))
    (hm : Moved n n' [.handing c] [.closing c]) :
    Ledger { b with handed := b.handed ++ [c] } n' := by
  simp only [Moved, Tag.forall_iff] at hm
  simp [List.count_cons] at hm
  obtain ⟨hread, hending, hhanding, hclosing, haccepted, hstopping, hclearing, hdisc⟩ := hm
  have hhanded : ∀ d, (b.handed ++ [c]).count d = b.handed.count d + if c = d then 1 else 0 := by
    intro d
    simp [List.count_append, List.count_cons]
  have hsum : ∀ d, n' (.handing d) + (b.handed ++ [c]).count d =
      n (.handing d) + b.handed.count d := by
    intro d
    have hh := hhanding d
    rw [hhanded]
    omega
  exact
    { h with
      owned := fun hrun d e he hadopted => by
        have hone := h.owned hrun d e he hadopted
        have hr := hread d
        have hend := hending d
        have hs := hsum d
        show n' (.read d) + n' (.ending d) + n' (.handing d) + (b.handed ++ [c]).count d = 1
        omega
      fresh := fun d hd => by
        have hzero := h.fresh d hd
        have hr := hread d
        have hend := hending d
        have hs := hsum d
        show n' (.read d) + n' (.ending d) + n' (.handing d) + (b.handed ++ [c]).count d = 0
        omega
      once := fun d => hsum d ▸ h.once d
      closing := fun d => by
        have hle := h.closing d
        have hc := hclosing d
        show n' (.closing d) ≤ (b.handed ++ [c]).count d
        rw [hhanded]
        omega
      closed := fun d e he hopen => by
        obtain ⟨hpos', hzero⟩ := h.closed d e he hopen
        have honce := h.once d
        have hne : c ≠ d := by
          rintro rfl
          omega
        have hc := hclosing d
        simp only [hne, if_false] at hc
        show 0 < (b.handed ++ [c]).count d ∧ n' (.closing d) = 0
        rw [hhanded]
        exact ⟨by omega, by omega⟩
      kept := fun hkept fd d hlookup => by
        have hzero := h.kept (hstopping ▸ hkept) fd d hlookup
        exact (hsum d).trans hzero
      found := fun hrun d e he hpos' => h.found hrun d e he (hread d ▸ hending d ▸ hpos')
      stopping := hstopping ▸ h.stopping
      running := fun hrun => hstopping ▸ hclearing ▸ h.running hrun
      disconnecting := hdisc ▸ h.disconnecting
      accepted := fun fd => haccepted fd ▸ h.accepted fd
      ended := fun d hd => hread d ▸ hending d ▸ h.ended d hd }

theorem closeNumber (h : Ledger b n) {c : Nat} {e : Entry} (he : b.table[c]? = some e)
    (hpos : 0 < n (.closing c)) (hm : Moved n n' [.closing c] []) :
    Ledger { b with
      table := b.table.set c { e with isOpen := false }
      hits := b.hits ++ [(c, c)] } n' := by
  simp only [Moved, Tag.forall_iff] at hm
  simp [List.count_cons] at hm
  obtain ⟨hread, hending, hhanding, hclosing, haccepted, hstopping, hclearing, hdisc⟩ := hm
  have hset : ∀ {d : Nat} {e' : Entry}, (b.table.set c { e with isOpen := false })[d]? = some e' →
      ∃ e₀, b.table[d]? = some e₀ ∧ e₀.fd = e'.fd ∧ e₀.adopted = e'.adopted ∧
        (e'.isOpen = true → e₀.isOpen = true) ∧ (c ≠ d → e₀ = e') := by
    intro d e' hd
    rcases List.getElem?_set_some hd with ⟨rfl, rfl⟩ | ⟨-, hd⟩
    · exact ⟨e, he, rfl, rfl, fun h => (by cases h), fun h => absurd rfl h⟩
    · exact ⟨e', hd, rfl, rfl, id, fun _ => rfl⟩
  have hget : ∀ {d : Nat} {e₀ : Entry}, b.table[d]? = some e₀ →
      ∃ e', (b.table.set c { e with isOpen := false })[d]? = some e' ∧ e'.fd = e₀.fd ∧
        e'.adopted = e₀.adopted := by
    intro d e₀ hd
    by_cases hcd : c = d
    · subst hcd
      obtain rfl : e = e₀ := Option.some.inj (he.symm.trans hd)
      exact ⟨_, List.getElem?_set_self (List.getElem?_eq_some_iff.mp he).1, rfl, rfl⟩
    · exact ⟨e₀, (List.getElem?_set_ne hcd).trans hd, rfl, rfl⟩
  exact
    { h with
      owned := fun hrun d e' hd hadopted => by
        obtain ⟨e₀, hd, -, hadopted', -⟩ := hset hd
        rw [hread, hending, hhanding]
        exact h.owned hrun d e₀ hd (hadopted'.trans hadopted)
      fresh := fun d hd => by
        rw [hread, hending, hhanding]
        refine h.fresh d fun e₀ he₀ => ?_
        obtain ⟨e', hd', -, hadopted⟩ := hget he₀
        exact hadopted.symm.trans (hd e' hd')
      once := fun d => hhanding d ▸ h.once d
      closing := fun d => by
        have hle := h.closing d
        have hc := hclosing d
        show n' (.closing d) ≤ b.handed.count d
        omega
      closed := fun d e' hd hopen => by
        have hle := h.closing d
        have honce := h.once d
        have hc := hclosing d
        show 0 < b.handed.count d ∧ n' (.closing d) = 0
        obtain ⟨e₀, hd₀, -, -, -, hsame⟩ := hset hd
        by_cases hcd : c = d
        · subst hcd
          simp only [if_true] at hc
          exact ⟨by omega, by omega⟩
        · obtain rfl := hsame hcd
          obtain ⟨hhanded, hzero⟩ := h.closed d e₀ hd₀ hopen
          exact ⟨hhanded, by omega⟩
      distinct := fun d d' e₁ e₂ hd hd' hopen hopen' hfd => by
        obtain ⟨e₃, hd, hfd₃, -, hopen₃, -⟩ := hset hd
        obtain ⟨e₄, hd', hfd₄, -, hopen₄, -⟩ := hset hd'
        exact h.distinct d d' e₃ e₄ hd hd' (hopen₃ hopen) (hopen₄ hopen')
          (hfd₃.trans (hfd.trans hfd₄.symm))
      session := fun fd d hd => by
        obtain ⟨e₀, hd, hfd, hadopted⟩ := h.session fd d hd
        obtain ⟨e', hd', hfd', hadopted'⟩ := hget hd
        exact ⟨e', hd', hfd'.trans hfd, hadopted'.trans hadopted⟩
      kept := fun hkept fd d hlookup => hhanding d ▸ h.kept (hstopping ▸ hkept) fd d hlookup
      found := fun hrun d e' hd hpos' => by
        obtain ⟨e₀, hd, hfd, -⟩ := hset hd
        exact hfd ▸ h.found hrun d e₀ hd (hread d ▸ hending d ▸ hpos')
      stopping := hstopping ▸ h.stopping
      running := fun hrun => hstopping ▸ hclearing ▸ h.running hrun
      disconnecting := hdisc ▸ h.disconnecting
      accepted := fun fd => by
        have hcount := h.accepted fd
        have hset := List.countP_set_add (p := fun e : Entry => e.fd == fd && !e.adopted)
          (a := { e with isOpen := false }) he
        rw [haccepted fd, hcount]
        exact (Nat.add_right_cancel hset).symm
      hits := h.hits_concat c
      ended := fun d hd => by
        obtain ⟨hzero, e₀, hd, hadopted⟩ := h.ended d hd
        obtain ⟨e', hd', -, hadopted'⟩ := hget hd
        rw [hread, hending]
        exact ⟨hzero, e', hd', hadopted'.trans hadopted⟩ }

theorem closeDropped (h : Ledger b n) {c : Nat} (hm : Moved n n' [.closing c] []) :
    Ledger b n' := by
  simp only [Moved, Tag.forall_iff] at hm
  simp [List.count_cons] at hm
  obtain ⟨hread, hending, hhanding, hclosing, haccepted, hstopping, hclearing, hdisc⟩ := hm
  exact
    { h with
      owned := fun hrun d => hread d ▸ hending d ▸ hhanding d ▸ h.owned hrun d
      fresh := fun d => hread d ▸ hending d ▸ hhanding d ▸ h.fresh d
      once := fun d => hhanding d ▸ h.once d
      closing := fun d => by
        have hle := h.closing d
        have hc := hclosing d
        omega
      closed := fun d e hd hopen => by
        obtain ⟨hhanded, hzero⟩ := h.closed d e hd hopen
        have hc := hclosing d
        exact ⟨hhanded, by omega⟩
      kept := fun hkept fd d hlookup => hhanding d ▸ h.kept (hstopping ▸ hkept) fd d hlookup
      found := fun hrun d e hd hpos => h.found hrun d e hd (hread d ▸ hending d ▸ hpos)
      stopping := hstopping ▸ h.stopping
      running := fun hrun => hstopping ▸ hclearing ▸ h.running hrun
      disconnecting := hdisc ▸ h.disconnecting
      accepted := fun fd => haccepted fd ▸ h.accepted fd
      ended := fun d hd => hread d ▸ hending d ▸ h.ended d hd }

theorem stop (h : Ledger b n) (hrun : b.isRunning = true) (hm : Moved n n' [] [.stopping]) :
    Ledger { b with isRunning := false } n' := by
  simp only [Moved, Tag.forall_iff] at hm
  simp at hm
  obtain ⟨hread, hending, hhanding, hclosing, haccepted, hstopping, hclearing, hdisc⟩ := hm
  exact
    { h with
      owned := fun hrun' => by cases hrun'
      fresh := fun d => hread d ▸ hending d ▸ hhanding d ▸ h.fresh d
      once := fun d => hhanding d ▸ h.once d
      closing := fun d => hclosing d ▸ h.closing d
      closed := fun d e hd hopen => hclosing d ▸ h.closed d e hd hopen
      kept := fun _ fd d hlookup => hhanding d ▸ h.kept (.inl hrun) fd d hlookup
      found := fun hrun' => by cases hrun'
      stopping := by
        have hzero := (h.running hrun).1
        omega
      running := fun hrun' => by cases hrun'
      disconnecting := hdisc ▸ h.disconnecting
      accepted := fun fd => haccepted fd ▸ h.accepted fd
      ended := fun d hd => hread d ▸ hending d ▸ h.ended d hd }

theorem count_handing_eq_zero (sessions : FdMap Nat) {tag : Tag}
    (htag : ∀ fd c, sessions.lookup fd = some c → tag ≠ .handing c) :
    (sessions.entries.map fun e => Tag.handing e.2).count tag = 0 := by
  rw [List.count_eq_zero]
  intro hmem
  obtain ⟨e, he, rfl⟩ := List.mem_map.mp hmem
  exact htag e.1 e.2 (AList.mem_lookup_iff.mpr he) rfl

theorem count_handing_le (sessions : FdMap Nat) {c : Nat} {fd : Fd}
    (hkey : ∀ fd', sessions.lookup fd' = some c → fd' = fd) :
    (sessions.entries.map fun e => Tag.handing e.2).count (.handing c) ≤ 1 := by
  have hcount : (sessions.entries.map fun e => Tag.handing e.2).count (.handing c) ≤
      (sessions.entries.map Sigma.fst).count fd := by
    rw [List.count_eq_countP, List.countP_map, List.count_eq_countP, List.countP_map]
    refine List.countP_mono_left fun e he hvalue => ?_
    have hval : e.2 = c := by simpa using hvalue
    have hmem : sessions.lookup e.1 = some c := AList.mem_lookup_iff.mpr (hval ▸ he)
    simpa using hkey e.1 hmem
  exact Nat.le_trans hcount (List.nodup_iff_count_le_one.mp sessions.keys_nodup fd)

theorem closeSessions (h : Ledger b n) (hpos : 0 < n .stopping)
    (hm : Moved n n' [.stopping]
      (b.sessions.entries.map (fun e => Tag.handing e.2) ++ [.clearing])) : Ledger b n' := by
  have hstopped := h.stopped (Nat.add_pos_left hpos _)
  have hle := h.stopping
  simp only [Moved, List.count_append, List.count_cons, List.count_nil] at hm
  -- matters other than the hand-overs do not change, but for the two of `Stop` itself
  have hsame : ∀ tag, (∀ c, tag ≠ .handing c) → tag ≠ .stopping → tag ≠ .clearing →
      n' tag = n tag := by
    intro tag hhanding hstopping hclearing
    have htag := hm tag
    rw [count_handing_eq_zero b.sessions fun _ c _ => hhanding c] at htag
    simpa [Ne.symm hstopping, Ne.symm hclearing] using htag
  have hread : ∀ d, n' (.read d) = n (.read d) := fun d => hsame _ (by simp) (by simp) (by simp)
  have hending : ∀ d, n' (.ending d) = n (.ending d) :=
    fun d => hsame _ (by simp) (by simp) (by simp)
  have hclosing : ∀ d, n' (.closing d) = n (.closing d) :=
    fun d => hsame _ (by simp) (by simp) (by simp)
  have haccepted : ∀ fd, n' (.accepted fd) = n (.accepted fd) :=
    fun fd => hsame _ (by simp) (by simp) (by simp)
  have hdisc : n' .disconnecting = n .disconnecting := hsame _ (by simp) (by simp) (by simp)
  have hstopping : n' .stopping = 0 := by
    have htag := hm .stopping
    rw [count_handing_eq_zero b.sessions (by simp)] at htag
    simp at htag
    omega
  have hhanding : ∀ d, n' (.handing d) = n (.handing d) +
      (b.sessions.entries.map fun e => Tag.handing e.2).count (.handing d) := by
    intro d
    simpa using hm (.handing d)
  have hnone : ∀ d, (∀ fd, b.sessions.lookup fd ≠ some d) → n' (.handing d) = n (.handing d) := by
    intro d hd
    rw [hhanding, count_handing_eq_zero b.sessions fun fd c hlookup => by
      rintro ⟨⟩
      exact hd fd hlookup]
    rfl
  exact
    { h with
      owned := fun hrun => absurd (hstopped.symm.trans hrun) Bool.false_ne_true
      fresh := fun d hd => by
        have hzero := h.fresh d hd
        rw [hread, hending, hnone d fun fd hlookup => ?_]
        · exact hzero
        · obtain ⟨e, he, -, hadopted⟩ := h.session fd d hlookup
          exact absurd ((hd e he).symm.trans hadopted) Bool.false_ne_true
      once := fun d => by
        by_cases hd : ∃ fd, b.sessions.lookup fd = some d
        · obtain ⟨fd, hlookup⟩ := hd
          obtain ⟨e, he, rfl, -⟩ := h.session fd d hlookup
          have hzero := h.kept (.inr hpos) _ d hlookup
          have hkey : ∀ fd', b.sessions.lookup fd' = some d → fd' = e.fd := by
            intro fd' hlookup'
            obtain ⟨e', he', hfd', -⟩ := h.session fd' d hlookup'
            obtain rfl : e = e' := Option.some.inj (he.symm.trans he')
            exact hfd'.symm
          have hone := count_handing_le b.sessions hkey
          have hh := hhanding d
          omega
        · have honce := h.once d
          rw [hnone d fun fd hlookup => hd ⟨fd, hlookup⟩]
          exact honce
      closing := fun d => hclosing d ▸ h.closing d
      closed := fun d e hd hopen => hclosing d ▸ h.closed d e hd hopen
      kept := fun hkept => by
        rcases hkept with hrun | hpos'
        · exact absurd (hstopped.symm.trans hrun) Bool.false_ne_true
        · omega
      found := fun hrun => absurd (hstopped.symm.trans hrun) Bool.false_ne_true
      stopping := by omega
      running := fun hrun => absurd (hstopped.symm.trans hrun) Bool.false_ne_true
      disconnecting := hdisc ▸ h.disconnecting
      accepted := fun fd => haccepted fd ▸ h.accepted fd
      ended := fun d hd => hread d ▸ hending d ▸ h.ended d hd }

theorem clear (h : Ledger b n) (hpos : 0 < n .clearing) (hm : Moved n n' [.clearing] []) :
    Ledger { b with sessions := ∅ } n' := by
  have hstopped := h.stopped (Nat.add_pos_right _ hpos)
  simp only [Moved, Tag.forall_iff] at hm
  simp at hm
  obtain ⟨hread, hending, hhanding, hclosing, haccepted, hstopping, hclearing, hdisc⟩ := hm
  exact
    { h with
      owned := fun hrun => absurd (hstopped.symm.trans hrun) Bool.false_ne_true
      fresh := fun d => hread d ▸ hending d ▸ hhanding d ▸ h.fresh d
      once := fun d => hhanding d ▸ h.once d
      closing := fun d => hclosing d ▸ h.closing d
      closed := fun d e hd hopen => hclosing d ▸ h.closed d e hd hopen
      session := fun fd d hd => by simp at hd
      kept := fun _ fd d hd => by simp at hd
      found := fun hrun => absurd (hstopped.symm.trans hrun) Bool.false_ne_true
      stopping := hstopping ▸ h.stopping
      running := fun hrun => absurd (hstopped.symm.trans hrun) Bool.false_ne_true
      disconnecting := hdisc ▸ h.disconnecting
      accepted := fun fd => haccepted fd ▸ h.accepted fd
      ended := fun d hd => hread d ▸ hending d ▸ h.ended d hd }

end Ledger

end Lmnet.IoUring
