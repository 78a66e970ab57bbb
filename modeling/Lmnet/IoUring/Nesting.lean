import Lmnet.IoUring.Chain

/-!
Submissions from the callbacks that a failed submission calls: how deep the calls of
`SubmitOperation` nest, and what is left of the pool when the first of them returns.
-/

set_option autoImplicit false

namespace Lmnet.IoUring

namespace Manager

variable {κ : Type}

/-- The three ways through `SubmitOperation`, whatever is left over in the ring. -/
inductive Answers (m : Manager κ) (op : κ) : Manager κ × Option (Int × Option Nat) → Prop where
  | accepted (r : Nat) (m' : Manager κ) (hfree : m.freeRequests = r :: m'.freeRequests)
      (hinflight : m'.inflight = m.inflight ++ (m.prepared ++ [⟨r, op⟩])) :
      Answers m op (m', none)
  | refused (error : Int) (herror : error = -ENOMEM ∨ error = -ESHUTDOWN) :
      Answers m op (m, some (error, none))
  | failed (r : Nat) (m' : Manager κ) (error : Int) (herror : error < 0)
      (hfree : m.freeRequests = r :: m'.freeRequests) (hinflight : m'.inflight = m.inflight) :
      Answers m op (m', some (error, some r))

def Held (m m' : Manager κ) : Prop :=
  ∃ entries held : List (Sqe κ), m'.inflight = m.inflight ++ entries ∧ held.Sublist entries ∧
    (m'.freeRequests ++ held.map Sqe.userData).Perm m.freeRequests

theorem Held.refl (m : Manager κ) : m.Held m :=
  ⟨[], [], by simp, .slnil, by simp⟩

theorem Held.trans {m m' m'' : Manager κ} (h : m.Held m') (h' : m'.Held m'') : m.Held m'' := by
  obtain ⟨entries, held, hinflight, hsub, hperm⟩ := h
  obtain ⟨entries', held', hinflight', hsub', hperm'⟩ := h'
  refine ⟨entries ++ entries', held ++ held', ?_, hsub.append hsub', ?_⟩
  · rw [hinflight', hinflight, List.append_assoc]
  · rw [List.map_append]
    have hcomm : (m''.freeRequests ++ (held.map Sqe.userData ++ held'.map Sqe.userData)).Perm
        (m''.freeRequests ++ (held'.map Sqe.userData ++ held.map Sqe.userData)) :=
      List.perm_append_comm.append_left _
    rw [← List.append_assoc _ (held'.map Sqe.userData)] at hcomm
    exact hcomm.trans ((hperm'.append_right _).trans hperm)

theorem Held.length_le {m m' : Manager κ} (h : m.Held m') :
    m'.freeRequests.length ≤ m.freeRequests.length := by
  obtain ⟨entries, held, -, -, hperm⟩ := h
  have hlength := hperm.length_eq
  rw [List.length_append] at hlength
  omega

/-- What a call took that failed is put back when its callback has returned. -/
theorem Held.putRequest {m m₁ m₂ : Manager κ} {r : Nat} (h : m₁.Held m₂)
    (hfree : m.freeRequests = r :: m₁.freeRequests) (hinflight : m₁.inflight = m.inflight) :
    m.Held (m₂.putRequest r) := by
  obtain ⟨entries, held, hentries, hsub, hperm⟩ := h
  refine ⟨entries, held, hinflight ▸ hentries, hsub, ?_⟩
  rw [hfree]
  exact hperm.cons r

end Manager

structure Snapshot (κ σ : Type) where
  manager : Manager κ
  state : σ
  submissions : Nat

/-- A thread makes these calls one after the other, with the calls of `SubmitOperation` nested
to this depth; `ring` has the outcome of each submission. -/
inductive Runs {κ φ σ : Type} (comp : Component κ φ σ) (ring : Nat → RingOutcome) :
    Snapshot κ σ → List (Call κ φ) → Snapshot κ σ → Nat → Prop where
  | nil (s : Snapshot κ σ) : Runs comp ring s [] s 0
  | code {s t : Snapshot κ σ} {f : φ} {cs : List (Call κ φ)} {depth : Nat}
      (h : Runs comp ring { s with state := (comp.code s.state f).1 }
        ((comp.code s.state f).2 ++ cs) t depth) :
      Runs comp ring s (.code f :: cs) t depth
  | accepted {s t : Snapshot κ σ} {type : RequestType} {fd : Fd} {op : κ}
      {cs : List (Call κ φ)} {m : Manager κ} {depth : Nat}
      (hsubmit : s.manager.submitOperation type fd op (ring s.submissions) = (m, none))
      (h : Runs comp ring ⟨m, s.state, s.submissions + 1⟩ cs t depth) :
      Runs comp ring s (.submit type fd op :: cs) t (max 1 depth)
  | failed {s u t : Snapshot κ σ} {type : RequestType} {fd : Fd} {op : κ}
      {cs : List (Call κ φ)} {m : Manager κ} {error : Int} {r : Option Nat} {inner depth : Nat}
      (hsubmit : s.manager.submitOperation type fd op (ring s.submissions) =
        (m, some (error, r)))
      (hcallback : Runs comp ring ⟨m, (comp.callback s.state op error).1, s.submissions + 1⟩
        (comp.callback s.state op error).2 u inner)
      (h : Runs comp ring { u with manager := r.elim u.manager u.manager.putRequest }
        ((comp.onFail op).map .code ++ cs) t depth) :
      Runs comp ring s (.submit type fd op :: cs) t (max (inner + 1) depth)

namespace Runs

variable {κ φ σ : Type} {comp : Component κ φ σ} {ring : Nat → RingOutcome}

theorem append {s u t : Snapshot κ σ} {cs cs' : List (Call κ φ)} {depth depth' : Nat}
    (h : Runs comp ring s cs u depth) (h' : Runs comp ring u cs' t depth') :
    Runs comp ring s (cs ++ cs') t (max depth depth') := by
  induction h with
  | nil s => simpa using h'
  | code h ih =>
    have hrest := ih h'
    rw [List.append_assoc] at hrest
    exact .code hrest
  | accepted hsubmit h ih =>
    rw [Nat.max_assoc]
    exact .accepted hsubmit (ih h')
  | failed hsubmit hcallback h ihcallback ih =>
    rw [Nat.max_assoc]
    have hrest := ih h'
    rw [List.append_assoc] at hrest
    exact .failed hsubmit hcallback hrest

theorem unique {s t t' : Snapshot κ σ} {cs : List (Call κ φ)} {depth depth' : Nat}
    (h : Runs comp ring s cs t depth) (h' : Runs comp ring s cs t' depth') :
    t' = t ∧ depth' = depth := by
  induction h generalizing t' depth' with
  | nil s =>
    cases h'
    exact ⟨rfl, rfl⟩
  | code h ih =>
    cases h' with
    | code h' => exact ih h'
  | accepted hsubmit h ih =>
    cases h' with
    | accepted hsubmit' h' =>
      obtain ⟨rfl, -⟩ := Prod.mk.inj (hsubmit.symm.trans hsubmit')
      obtain ⟨rfl, rfl⟩ := ih h'
      exact ⟨rfl, rfl⟩
    | failed hsubmit' hcallback' h' => cases hsubmit.symm.trans hsubmit'
  | failed hsubmit hcallback h ihcallback ih =>
    cases h' with
    | accepted hsubmit' h' => cases hsubmit.symm.trans hsubmit'
    | failed hsubmit' hcallback' h' =>
      cases hsubmit.symm.trans hsubmit'
      obtain ⟨rfl, rfl⟩ := ihcallback hcallback'
      obtain ⟨rfl, rfl⟩ := ih h'
      exact ⟨rfl, rfl⟩

/-- A thread that makes the calls takes steps of the loop until the frames below them are on
top again. -/
theorem frames {s t : Snapshot κ σ} {cs : List (Call κ φ)} {depth : Nat}
    (h : Runs comp ring s cs t depth) (init : Loop κ φ σ → Prop)
    (cq : List (Sqe κ × Int)) (rest : List (Frame κ φ)) :
    ∃ os : List RingOutcome,
      (comp.machine init).run ⟨s.manager, cq, cs.map .call ++ rest, s.state⟩ (os.map .frame) =
        some ⟨t.manager, cq, rest, t.state⟩ := by
  induction h generalizing rest with
  | nil s => exact ⟨[], rfl⟩
  | @code s t f cs depth h ih =>
    obtain ⟨os, hos⟩ := ih rest
    rw [List.map_append, List.append_assoc] at hos
    exact ⟨.noSqe :: os, (Machine.run_cons _).mpr ⟨_, rfl, hos⟩⟩
  | @accepted s t type fd op cs m depth hsubmit h ih =>
    obtain ⟨os, hos⟩ := ih rest
    have hstep : (comp.machine init).step
        ⟨s.manager, cq, .call (.submit type fd op) :: (cs.map .call ++ rest), s.state⟩
        (.frame (ring s.submissions)) = some ⟨m, cq, cs.map .call ++ rest, s.state⟩ := by
      simp only [Component.machine, Loop.step, Loop.frame, hsubmit]
    exact ⟨ring s.submissions :: os, (Machine.run_cons _).mpr ⟨_, hstep, hos⟩⟩
  | @failed s u t type fd op cs m error r inner depth hsubmit hcallback h ihcallback ih =>
    obtain ⟨os', hos'⟩ := ih rest
    rw [List.map_append, List.append_assoc] at hos'
    obtain ⟨os, hos⟩ := ihcallback ((r.map Frame.putRequest).toList ++
      (((comp.onFail op).map Call.code).map .call ++ (cs.map .call ++ rest)))
    have hstep : (comp.machine init).step
        ⟨s.manager, cq, .call (.submit type fd op) :: (cs.map .call ++ rest), s.state⟩
        (.frame (ring s.submissions)) = some ⟨m, cq, Loop.failFrames comp op error r ++
          (cs.map .call ++ rest), s.state⟩ := by
      simp only [Component.machine, Loop.step, Loop.frame, hsubmit]
    have hinvoke : (comp.machine init).step ⟨m, cq, Loop.failFrames comp op error r ++
          (cs.map .call ++ rest), s.state⟩ (.frame .noSqe) =
        some ⟨m, cq, (comp.callback s.state op error).2.map .call ++
          ((r.map Frame.putRequest).toList ++ (((comp.onFail op).map Call.code).map .call ++
            (cs.map .call ++ rest))), (comp.callback s.state op error).1⟩ := by
      simp only [Component.machine, Loop.step, Loop.frame, Loop.failFrames, List.cons_append,
        List.append_assoc]
    -- the request, if the call got one, is put back
    have hput : ∃ os'' : List RingOutcome, (comp.machine init).run ⟨u.manager, cq,
          (r.map Frame.putRequest).toList ++ (((comp.onFail op).map Call.code).map .call ++
            (cs.map .call ++ rest)), u.state⟩ (os''.map .frame) =
        some ⟨r.elim u.manager u.manager.putRequest, cq,
          ((comp.onFail op).map Call.code).map .call ++ (cs.map .call ++ rest), u.state⟩ := by
      cases r with
      | none => exact ⟨[], rfl⟩
      | some r => exact ⟨[.noSqe], rfl⟩
    obtain ⟨os'', hos''⟩ := hput
    refine ⟨ring s.submissions :: .noSqe :: (os ++ (os'' ++ os')), ?_⟩
    simp only [List.map_cons, List.map_append]
    refine (Machine.run_cons _).mpr ⟨_, hstep, (Machine.run_cons _).mpr ⟨_, hinvoke, ?_⟩⟩
    exact (Machine.run_append _).mpr ⟨_, hos, (Machine.run_append _).mpr ⟨_, hos'', hos'⟩⟩

end Runs

/-- The call submits nothing but such operations, after at most `n` calls of other code. -/
def LeadsTo {κ φ σ : Type} (comp : Component κ φ σ) (P : κ → Prop) : Nat → Call κ φ → Prop
  | _, .submit _ _ op => P op
  | 0, .code _ => False
  | n + 1, .code f => ∀ st, ∀ c ∈ (comp.code st f).2, LeadsTo comp P n c

/-- The calls come to an end, nested at most to this depth, and each request that they took
has been put back or handed to the kernel. -/
def Ends {κ φ σ : Type} (comp : Component κ φ σ) (ring : Nat → RingOutcome) (s : Snapshot κ σ)
    (cs : List (Call κ φ)) (maxDepth : Nat) : Prop :=
  ∃ t depth, Runs comp ring s cs t depth ∧ depth ≤ maxDepth ∧ s.manager.Held t.manager

/-- The callbacks of the operations that `again` marks submit such operations or closes when
they failed, and only closes when there was no request; a close leads to nothing. -/
structure Component.Retries {κ φ σ : Type} (comp : Component κ φ σ) (again closes : κ → Bool) :
    Prop where
  failed : ∀ st op error, again op = true → error < 0 → ∀ c ∈ (comp.callback st op error).2,
    ∃ n, LeadsTo comp (fun x => again x = true ∨ closes x = true) n c
  exhausted : ∀ st op error, again op = true → error = -ENOMEM ∨ error = -ESHUTDOWN →
    ∀ c ∈ (comp.callback st op error).2, ∃ n, LeadsTo comp (fun x => closes x = true) n c
  onFail : ∀ op, again op = true → comp.onFail op = []
  closed : ∀ st op result, closes op = true → (comp.callback st op result).2 = []
  onFailClosed : ∀ op, closes op = true →
    ∀ f ∈ comp.onFail op, ∃ n, LeadsTo comp (fun _ => False) n (.code f)

section Ends

variable {κ φ σ : Type} {comp : Component κ φ σ} {again closes : κ → Bool}
  {ring : Nat → RingOutcome}

theorem Ends.nil (s : Snapshot κ σ) (maxDepth : Nat) : Ends comp ring s [] maxDepth :=
  ⟨s, 0, .nil s, Nat.zero_le _, .refl _⟩

theorem Ends.mono {s : Snapshot κ σ} {cs : List (Call κ φ)} {depth maxDepth : Nat}
    (h : Ends comp ring s cs depth) (hle : depth ≤ maxDepth) : Ends comp ring s cs maxDepth := by
  obtain ⟨t, depth', hruns, hdepth, hheld⟩ := h
  exact ⟨t, depth', hruns, Nat.le_trans hdepth hle, hheld⟩

theorem Ends.append {s : Snapshot κ σ} {cs cs' : List (Call κ φ)} {maxDepth : Nat}
    (h : Ends comp ring s cs maxDepth)
    (h' : ∀ u, s.manager.Held u.manager → Ends comp ring u cs' maxDepth) :
    Ends comp ring s (cs ++ cs') maxDepth := by
  obtain ⟨u, depth, hruns, hdepth, hheld⟩ := h
  obtain ⟨t, depth', hruns', hdepth', hheld'⟩ := h' u hheld
  exact ⟨t, _, hruns.append hruns', Nat.max_le.mpr ⟨hdepth, hdepth'⟩, hheld.trans hheld'⟩

end Ends

end Lmnet.IoUring
