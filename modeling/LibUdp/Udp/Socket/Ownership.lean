import LibUdp.Resource.Ledger
import LibUdp.Resource.Owner
import Mathlib.Data.Finset.Lattice.Lemmas

/-!
# What a socket owns

The construction, move assignment, `close` and destruction of `Socket` objects, with the ledger of
the descriptors and the rings that they open and close. A ring is told by its own descriptor. Two
things that are open at a time have different descriptors.
-/

namespace Udp

open Run Ledger

inductive Resource where
  | descriptor (fd : ℕ)
  | ring (fd : ℕ)
  deriving DecidableEq

def Resource.fd : Resource → ℕ
  | .descriptor fd => fd
  | .ring fd => fd

/-- `struct io_uring`, as far as `io_uring_queue_exit` needs it. -/
structure IoUring where
  ringFd : ℕ := 0
  deriving DecidableEq

namespace Socket

/-- The members of a `Socket`. -/
structure Members where
  ring          : Option IoUring := none
  socketFd      : ℤ := -1
  isInitialized : Bool := false
  deriving DecidableEq

/-- How the system calls of a construction end. -/
inductive Outcome where
  | socketFailed
  | bindFailed (fd : ℕ)
  | queueInitFailed (fd : ℕ)
  | initialized (fd ringFd : ℕ)
  deriving DecidableEq

/-- The system calls give descriptors that are not open. -/
def Outcome.Fresh (opened : Finset Resource) : Outcome → Prop
  | .socketFailed => True
  | .bindFailed fd | .queueInitFailed fd => ∀ r ∈ opened, r.fd ≠ fd
  | .initialized fd ringFd =>
    (∀ r ∈ opened, r.fd ≠ fd) ∧ (∀ r ∈ opened, r.fd ≠ ringFd) ∧ fd ≠ ringFd

instance (opened : Finset Resource) (outcome : Outcome) : Decidable (outcome.Fresh opened) :=
  match outcome with
  | .socketFailed => .isTrue trivial
  | .bindFailed fd => inferInstanceAs (Decidable (∀ r ∈ opened, r.fd ≠ fd))
  | .queueInitFailed fd => inferInstanceAs (Decidable (∀ r ∈ opened, r.fd ≠ fd))
  | .initialized fd ringFd => inferInstanceAs
    (Decidable ((∀ r ∈ opened, r.fd ≠ fd) ∧ (∀ r ∈ opened, r.fd ≠ ringFd) ∧ fd ≠ ringFd))

/-- `Socket::close`. -/
def close (m : Members) : Members × List (Entry Resource) :=
  let exits :=
    if m.isInitialized then m.ring.toList.map fun ring => .release (.ring ring.ringFd) else []
  let closes :=
    if 0 ≤ m.socketFd then [.release (.descriptor m.socketFd.toNat)] else []
  ({ m with socketFd := -1, isInitialized := false }, exits ++ closes)

/-- `Socket::Socket`. There is no object when it throws. -/
def construct : Outcome → Option Members × List (Entry Resource)
  | .socketFailed => (none, [])
  | .bindFailed fd =>
    (none, .acquire (.descriptor fd) :: (close { ring := some {}, socketFd := fd }).2)
  | .queueInitFailed fd =>
    (none, .acquire (.descriptor fd) :: (close { ring := some {}, socketFd := fd }).2)
  | .initialized fd ringFd =>
    (some { ring := some { ringFd }, socketFd := fd, isInitialized := true },
      [.acquire (.descriptor fd), .acquire (.ring ringFd)])

/-- `Socket::operator=` for two objects. The `io_uring` that the target pointed to is deleted. -/
def moveAssign (_lhs rhs : Members) : Members × Members :=
  ({ ring := rhs.ring, socketFd := rhs.socketFd, isInitialized := rhs.isInitialized },
    { ring := none, socketFd := -1, isInitialized := false })

/-- The objects by the places they are at, and the ledger of the process. -/
structure Process where
  objects : ℕ → Option Members := fun _ => none
  ledger  : List (Entry Resource) := []

/-- What a program does with `Socket` objects. -/
inductive Call where
  | construct (i : ℕ) (outcome : Outcome)
  | moveAssign (dst src : ℕ)
  | close (i : ℕ)
  | destroy (i : ℕ)
  deriving DecidableEq

namespace Process

def step (p : Process) : Call → Option Process
  | .construct i outcome =>
    if (p.objects i).isNone ∧ outcome.Fresh (live p.ledger) then
      some {
        objects := Function.update p.objects i (Socket.construct outcome).1
        ledger  := p.ledger ++ (Socket.construct outcome).2 }
    else none
  | .moveAssign dst src =>
    match p.objects dst, p.objects src with
    | some lhs, some rhs =>
      if dst = src then some p
      else
        some { p with
          objects := Function.update (Function.update p.objects dst
            (some (Socket.moveAssign lhs rhs).1)) src (some (Socket.moveAssign lhs rhs).2) }
    | _, _ => none
  | .close i => (p.objects i).map fun m => {
      objects := Function.update p.objects i (some (Socket.close m).1)
      ledger  := p.ledger ++ (Socket.close m).2 }
  | .destroy i => (p.objects i).map fun m => {
      objects := Function.update p.objects i none
      ledger  := p.ledger ++ (Socket.close m).2 }

end Process

/-! ### What an object owns -/

/-- What `close` gives back. -/
def Members.owned (m : Members) : List Resource :=
  (if m.isInitialized then m.ring.toList.map fun ring => .ring ring.ringFd else []) ++
    (if 0 ≤ m.socketFd then [.descriptor m.socketFd.toNat] else [])

/-- A place without an object owns nothing. -/
def ownedBy (o : Option Members) : List Resource := o.elim [] Members.owned

/-- The three members agree on whether the socket is open. -/
structure Members.Sound (m : Members) : Prop where
  socketFd : m.isInitialized = true ↔ 0 ≤ m.socketFd
  ring     : m.isInitialized = true → m.ring.isSome

variable {m : Members}

@[simp] lemma ownedBy_none : ownedBy none = [] := rfl

@[simp] lemma ownedBy_some (m : Members) : ownedBy (some m) = m.owned := rfl

lemma close_snd (m : Members) : (close m).2 = m.owned.map .release := by
  simp only [close, Members.owned, List.map_append]
  split_ifs <;> simp

@[simp] lemma owned_of_closed {ring : Option IoUring} : Members.owned { ring } = [] := rfl

lemma Members.Sound.closed (ring : Option IoUring) : Members.Sound { ring } where
  socketFd := by simp
  ring h := by cases h

lemma Members.Sound.opened (fd ringFd : ℕ) :
    Members.Sound { ring := some { ringFd }, socketFd := fd, isInitialized := true } where
  socketFd := by simp
  ring _ := rfl

lemma owned_opened (fd ringFd : ℕ) :
    Members.owned { ring := some { ringFd }, socketFd := fd, isInitialized := true } =
      [.ring ringFd, .descriptor fd] := by
  simp [Members.owned]

namespace Members

lemma owned_nodup (m : Members) : m.owned.Nodup := by
  cases hring : m.ring with
  | none => simp only [owned, hring]; split_ifs <;> simp
  | some ring => simp only [owned, hring]; split_ifs <;> simp

/-- An object owns something just when it is initialized. -/
lemma Sound.owned_eq_nil_iff (h : m.Sound) : m.owned = [] ↔ m.isInitialized = false := by
  cases hinit : m.isInitialized with
  | false =>
    have hfd : ¬ 0 ≤ m.socketFd := by simp [← h.socketFd, hinit]
    simp [owned, hinit, hfd]
  | true => simp [owned, hinit, h.socketFd.mp hinit]

end Members

namespace Process

variable {p q : Process} {c : Call} {i : ℕ}

structure Sound (p : Process) : Prop where
  ledger  : Ledger.Sound p.ledger
  members : ∀ i m, p.objects i = some m → m.Sound
  live    : ∀ i, ∀ r ∈ ownedBy (p.objects i), r ∈ live p.ledger
  unique  : ∀ i j r, r ∈ ownedBy (p.objects i) → r ∈ ownedBy (p.objects j) → i = j

/-- What is open and no object owns. -/
def leaked (p : Process) : Set Resource :=
  {r | r ∈ Ledger.live p.ledger ∧ ∀ i, r ∉ ownedBy (p.objects i)}

/-- What the target of a move assignment owned. -/
def dropped (p : Process) : Call → Set Resource
  | .moveAssign dst src => if dst = src then ∅ else {r | r ∈ ownedBy (p.objects dst)}
  | .construct _ _ | .close _ | .destroy _ => ∅

lemma Sound.init : Sound {} where
  ledger := .nil
  members _ _ h := by cases h
  live _ _ h := by cases h
  unique _ _ _ h := by cases h

/-- What the objects own, by their places. -/
def own (objects : ℕ → Option Members) (i : ℕ) : Set Resource := {r | r ∈ ownedBy (objects i)}

lemma own_update (objects : ℕ → Option Members) (i : ℕ) (o : Option Members) :
    own (Function.update objects i o) =
      Function.update (own objects) i {r | r ∈ ownedBy o} := by
  funext j
  by_cases hj : j = i
  · subst hj
    simp [own]
  · simp [own, hj]

lemma Sound.owned (h : p.Sound) : Owned (Ledger.live p.ledger) (own p.objects) :=
  ⟨h.live, h.unique⟩

lemma leaked_eq (p : Process) : p.leaked = Ledger.leaked (Ledger.live p.ledger) (own p.objects) :=
  rfl

lemma Sound.members_update (h : p.Sound) {o : Option Members} (ho : ∀ n, o = some n → n.Sound)
    (j : ℕ) (n : Members) (hn : Function.update p.objects i o j = some n) : n.Sound := by
  rw [Function.update_apply] at hn
  split_ifs at hn with hj
  · exact ho n hn
  · exact h.members j n hn

/-- An object gives back what it owns. -/
lemma Sound.close (h : p.Sound) (hm : p.objects i = some m) {o : Option Members}
    (ho : ownedBy o = []) (hsound : ∀ n, o = some n → n.Sound) :
    Sound ⟨Function.update p.objects i o, p.ledger ++ m.owned.map .release⟩ ∧
      leaked ⟨Function.update p.objects i o, p.ledger ++ m.owned.map .release⟩ = p.leaked := by
  have hi : own p.objects i = m.owned.toFinset := by
    ext r
    simp [own, hm]
  have hlive : Ledger.live (p.ledger ++ m.owned.map .release) =
      Ledger.live p.ledger \ m.owned.toFinset := by
    rw [live_append, foldl_apply_releases]
  have hown : own (Function.update p.objects i o) = Function.update (own p.objects) i ∅ := by
    have hempty : {r | r ∈ ownedBy o} = ∅ := by simp [ho]
    rw [own_update, hempty]
  have hreleased : Owned (Ledger.live (p.ledger ++ m.owned.map .release))
      (own (Function.update p.objects i o)) := by
    rw [hlive, hown]
    exact h.owned.release hi
  constructor
  · refine ⟨h.ledger.append (exec_releases m.owned_nodup fun r hr => ?_) hlive,
      h.members_update hsound, hreleased.mem_live, hreleased.unique⟩
    exact h.live i r (by rwa [hm, ownedBy_some])
  · rw [leaked_eq, leaked_eq, hlive, hown, Owned.leaked_release hi]

/-- A construction that fails after it has got its descriptor closes it. -/
lemma Sound.constructFailed (h : p.Sound) {r : Resource} (hr : r ∉ Ledger.live p.ledger) :
    Sound ⟨p.objects, p.ledger ++ [.acquire r, .release r]⟩ ∧
      leaked ⟨p.objects, p.ledger ++ [.acquire r, .release r]⟩ = p.leaked := by
  have hlive : Ledger.live (p.ledger ++ [.acquire r, .release r]) = Ledger.live p.ledger := by
    rw [live_append]
    simp [Ledger.apply, Finset.erase_insert hr]
  refine ⟨⟨?_, h.members, ?_, h.unique⟩, ?_⟩
  · refine h.ledger.append ?_ hlive
    simp [exec_cons, Ledger.step, hr]
  · intro j r' hr'
    rw [hlive]
    exact h.live j r' hr'
  · rw [leaked, leaked, hlive]

/-- A construction that succeeds. -/
lemma Sound.construct (h : p.Sound) (hi : p.objects i = none) {fd ringFd : ℕ}
    (hfresh : (Outcome.initialized fd ringFd).Fresh (Ledger.live p.ledger)) :
    Sound ⟨Function.update p.objects i
        (some { ring := some { ringFd }, socketFd := fd, isInitialized := true }),
        p.ledger ++ [.acquire (.descriptor fd), .acquire (.ring ringFd)]⟩ ∧
      leaked ⟨Function.update p.objects i
        (some { ring := some { ringFd }, socketFd := fd, isInitialized := true }),
        p.ledger ++ [.acquire (.descriptor fd), .acquire (.ring ringFd)]⟩ = p.leaked := by
  obtain ⟨hfd, hring, -⟩ := hfresh
  have hfd' : .descriptor fd ∉ Ledger.live p.ledger := fun hr => hfd _ hr rfl
  have hring' : .ring ringFd ∉ Ledger.live p.ledger := fun hr => hring _ hr rfl
  have hnew : ∀ r ∈ ({.ring ringFd, .descriptor fd} : Finset Resource),
      r ∉ Ledger.live p.ledger := by
    simp [hfd', hring']
  have hinsert : {.ring ringFd, .descriptor fd} ∪ Ledger.live p.ledger =
      insert (.ring ringFd) (insert (.descriptor fd) (Ledger.live p.ledger)) := by
    rw [Finset.insert_union, ← Finset.insert_eq]
  have hlive : Ledger.live (p.ledger ++ [.acquire (.descriptor fd), .acquire (.ring ringFd)]) =
      {.ring ringFd, .descriptor fd} ∪ Ledger.live p.ledger := by
    rw [live_append, hinsert]
    rfl
  have hown : own (Function.update p.objects i
      (some { ring := some { ringFd }, socketFd := fd, isInitialized := true })) =
        Function.update (own p.objects) i
          ({.ring ringFd, .descriptor fd} : Finset Resource) := by
    have hopened : {r | r ∈ [Resource.ring ringFd, .descriptor fd]} =
        (({.ring ringFd, .descriptor fd} : Finset Resource) : Set Resource) := by
      ext r
      simp
    rw [own_update, ownedBy_some, owned_opened, hopened]
  have hempty : own p.objects i = ∅ := by simp [own, hi]
  have hacquired := h.owned.acquire (i := i) hnew
  rw [← hlive, ← hown] at hacquired
  constructor
  · refine ⟨h.ledger.append ?_ hlive, ?_, hacquired.mem_live, hacquired.unique⟩
    · simp [exec_cons, Ledger.step, hfd', hring', hinsert]
    · apply h.members_update
      rintro n ⟨⟩
      exact .opened fd ringFd
  · rw [leaked_eq, leaked_eq, hlive, hown, Owned.leaked_acquire hnew hempty]

/-- A move assignment between two objects. -/
lemma Sound.moveAssign (h : p.Sound) {dst src : ℕ} (hne : dst ≠ src) {lhs rhs : Members}
    (hdst : p.objects dst = some lhs) (hsrc : p.objects src = some rhs) :
    Sound ⟨Function.update (Function.update p.objects dst (some rhs)) src (some {}), p.ledger⟩ ∧
      leaked ⟨Function.update (Function.update p.objects dst (some rhs)) src (some {}), p.ledger⟩ =
        p.leaked ∪ {r | r ∈ lhs.owned} := by
  have hown : own (Function.update (Function.update p.objects dst (some rhs)) src (some {})) =
      Function.update (Function.update (own p.objects) dst (own p.objects src)) src ∅ := by
    rw [own_update, own_update, own, hsrc]
    simp
  have hmembers : ∀ j n,
      Function.update (Function.update p.objects dst (some rhs)) src (some {}) j = some n →
        n.Sound := by
    intro j n hn
    rw [Function.update_apply] at hn
    split_ifs at hn
    · cases hn
      exact .closed none
    · refine h.members_update ?_ j n hn
      rintro _ ⟨⟩
      exact h.members src rhs hsrc
  have hmoved := h.owned.move hne
  rw [← hown] at hmoved
  refine ⟨⟨h.ledger, hmembers, hmoved.mem_live, hmoved.unique⟩, ?_⟩
  rw [leaked_eq, hown, h.owned.leaked_move hne, own, hdst]
  rfl

/-- A step leaks what it drops and nothing else. -/
lemma Sound.step (h : p.Sound) (hstep : p.step c = some q) :
    q.Sound ∧ q.leaked = p.leaked ∪ p.dropped c := by
  cases c with
  | construct i outcome =>
    rw [Process.step, Option.ite_none_right_eq_some, Option.isNone_iff_eq_none] at hstep
    obtain ⟨⟨hi, hfresh⟩, hq⟩ := hstep
    have hsame : Function.update p.objects i none = p.objects := by
      rw [← hi, Function.update_eq_self]
    rw [dropped, Set.union_empty]
    cases outcome with
    | socketFailed =>
      simp only [Socket.construct, hsame, List.append_nil, Option.some.injEq] at hq
      subst hq
      exact ⟨h, rfl⟩
    | bindFailed fd =>
      simp only [Socket.construct, hsame, Option.some.injEq] at hq
      subst hq
      exact h.constructFailed fun hr => hfresh _ hr rfl
    | queueInitFailed fd =>
      simp only [Socket.construct, hsame, Option.some.injEq] at hq
      subst hq
      exact h.constructFailed fun hr => hfresh _ hr rfl
    | initialized fd ringFd =>
      cases hq
      exact h.construct hi hfresh
  | moveAssign dst src =>
    rw [Process.step] at hstep
    cases hdst : p.objects dst with
    | none => simp [hdst] at hstep
    | some lhs =>
      cases hsrc : p.objects src with
      | none => simp [hdst, hsrc] at hstep
      | some rhs =>
        simp only [hdst, hsrc] at hstep
        by_cases heq : dst = src
        · rw [if_pos heq] at hstep
          cases hstep
          rw [dropped, if_pos heq, Set.union_empty]
          exact ⟨h, rfl⟩
        · rw [if_neg heq] at hstep
          cases hstep
          rw [dropped, if_neg heq, hdst]
          exact h.moveAssign heq hdst hsrc
  | close i =>
    obtain ⟨m, hm, rfl⟩ := Option.map_eq_some_iff.mp hstep
    rw [dropped, Set.union_empty, close_snd]
    apply h.close hm rfl
    rintro n ⟨⟩
    exact .closed m.ring
  | destroy i =>
    obtain ⟨m, hm, rfl⟩ := Option.map_eq_some_iff.mp hstep
    rw [dropped, Set.union_empty, close_snd]
    exact h.close hm rfl fun n hn => by cases hn

lemma Sound.visits {cs : List Call} (h : Visits Process.step {} cs q) : q.Sound :=
  h.invariant (fun _ _ _ hp hstep => (hp.step hstep).1) .init

/-- What a run has leaked was dropped by a step of it. -/
lemma Sound.exec {cs : List Call} (h : exec Process.step {} cs = some q) :
    q.Sound ∧
      (q.leaked.Nonempty ↔ ∃ p c, Takes Process.step {} cs p c ∧ (p.dropped c).Nonempty) := by
  induction cs using List.reverseRecOn generalizing q with
  | nil =>
    cases h
    refine ⟨.init, ?_⟩
    constructor
    · rintro ⟨r, hr, -⟩
      cases hr
    · rintro ⟨p, c, ⟨pre, hpre, -⟩, -⟩
      simp at hpre
  | append_singleton cs c ih =>
    obtain ⟨p, hp, hstep⟩ := exec_concat_eq_some_iff.mp h
    obtain ⟨hsound, hleaked⟩ := ih hp
    obtain ⟨hsound', hstep'⟩ := hsound.step hstep
    refine ⟨hsound', ?_⟩
    rw [hstep', Set.union_nonempty, hleaked]
    constructor
    · rintro (⟨p', c', htakes, hdrop⟩ | hdrop)
      · exact ⟨p', c', (takes_concat_iff hp).mpr (.inl htakes), hdrop⟩
      · exact ⟨p, c, (takes_concat_iff hp).mpr (.inr ⟨rfl, rfl, by rw [hstep]; rfl⟩), hdrop⟩
    · rintro ⟨p', c', htakes, hdrop⟩
      rcases (takes_concat_iff hp).mp htakes with htakes | ⟨rfl, rfl, -⟩
      · exact .inl ⟨p', c', htakes, hdrop⟩
      · exact .inr hdrop

/-- A step drops something just when it is a move assignment from another object onto an
initialized one. -/
lemma Sound.dropped_nonempty_iff (h : p.Sound) : (p.dropped c).Nonempty ↔
    ∃ dst src m, c = .moveAssign dst src ∧ dst ≠ src ∧ p.objects dst = some m ∧
      m.isInitialized = true := by
  constructor
  · intro hdrop
    cases c with
    | moveAssign dst src =>
      rw [dropped] at hdrop
      split_ifs at hdrop with heq
      · cases hdrop.ne_empty rfl
      · obtain ⟨r, hr⟩ := hdrop
        cases hdst : p.objects dst with
        | none => simp [hdst] at hr
        | some m =>
          refine ⟨dst, src, m, rfl, heq, hdst, ?_⟩
          rw [← Bool.not_eq_false, ← (h.members dst m hdst).owned_eq_nil_iff]
          rw [Set.mem_ofPred_eq, hdst, ownedBy_some] at hr
          exact List.ne_nil_of_mem hr
    | _ => cases hdrop.ne_empty rfl
  · rintro ⟨dst, src, m, rfl, hne, hm, hinit⟩
    rw [dropped, if_neg hne, hm]
    rw [← Bool.not_eq_false, ← (h.members dst m hm).owned_eq_nil_iff] at hinit
    exact List.exists_mem_of_ne_nil m.owned hinit

/-- When all objects of a run are destroyed, everything it has opened has been closed exactly once
just when no object was moved onto another that was initialized. -/
theorem releasedOnce_iff {cs : List Call} (h : exec Process.step {} cs = some q)
    (hdestroyed : ∀ i, q.objects i = none) :
    ReleasedOnce q.ledger ↔ ∀ p dst src m, Takes Process.step {} cs p (.moveAssign dst src) →
      dst ≠ src → p.objects dst = some m → m.isInitialized = false := by
  obtain ⟨hsound, hleaked⟩ := Sound.exec h
  have hempty : Ledger.live q.ledger = ∅ ↔ ¬ q.leaked.Nonempty := by
    rw [Set.not_nonempty_iff_eq_empty, leaked_eq]
    exact live_eq_empty_iff fun i => by simp [own, hdestroyed i]
  rw [hsound.ledger.releasedOnce_iff_live, hempty, hleaked]
  constructor
  · intro hnone p dst src m htakes hne hm
    by_contra hinit
    rw [Bool.not_eq_false] at hinit
    have hsound' := Sound.visits htakes.visits_source
    exact hnone ⟨p, _, htakes, hsound'.dropped_nonempty_iff.mpr ⟨dst, src, m, rfl, hne, hm, hinit⟩⟩
  · rintro hclosed ⟨p, c, htakes, hdrop⟩
    have hsound' := Sound.visits htakes.visits_source
    obtain ⟨dst, src, m, rfl, hne, hm, hinit⟩ := hsound'.dropped_nonempty_iff.mp hdrop
    rw [hclosed p dst src m htakes hne hm] at hinit
    cases hinit

/-- An open socket is moved onto one that has been closed before. -/
def moveOntoClosed : List Call :=
  [.construct 0 (.initialized 3 4), .construct 1 (.initialized 5 6), .close 0, .moveAssign 0 1,
    .destroy 1, .destroy 0]

theorem releasedOnce_moveOntoClosed :
    ∃ q, exec Process.step {} moveOntoClosed = some q ∧ (∀ i, q.objects i = none) ∧
      (∃ p, Takes Process.step {} moveOntoClosed p (.moveAssign 0 1)) ∧
      (ReleasedOnce q.ledger ↔ ∀ p dst src m,
        Takes Process.step {} moveOntoClosed p (.moveAssign dst src) →
        dst ≠ src → p.objects dst = some m → m.isInitialized = false) := by
  obtain ⟨q, hq⟩ : ∃ q, exec Process.step {} moveOntoClosed = some q := ⟨_, rfl⟩
  have hnone : ∀ i, q.objects i = none := by
    cases hq
    intro i
    simp only [Function.update_apply]
    split_ifs <;> rfl
  have htakes : ∃ p, Takes Process.step {} moveOntoClosed p (.moveAssign 0 1) :=
    ⟨_, [_, _, _], ⟨[_, _], rfl⟩, rfl, rfl⟩
  exact ⟨q, hq, hnone, htakes, releasedOnce_iff hq hnone⟩

/-- One open socket is moved onto another, whose descriptor and ring stay open. -/
theorem not_releasedOnce_moveAssign :
    ∃ q, exec Process.step {} [.construct 0 (.initialized 3 4), .construct 1 (.initialized 5 6),
        .moveAssign 0 1, .destroy 0, .destroy 1] = some q ∧
      (∀ i, q.objects i = none) ∧ ¬ ReleasedOnce q.ledger := by
  refine ⟨_, rfl, fun i => ?_, ?_⟩
  · simp only [Function.update_apply]
    split_ifs <;> rfl
  · rw [releasedOnce_iff_exec]
    decide

end Process

end Socket

end Udp
