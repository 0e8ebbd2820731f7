import Mathlib.Data.List.Basic
import Mathlib.Data.List.Flatten

/-!
# Coroutine bodies with exceptions

What a piece of code does on the way, and how it ends: it returns, it throws, or the process is
gone. A coroutine shows to its caller what its promise type makes of that end.
-/

namespace Coroutine

variable {α ω ε : Type*}

inductive Outcome (ε : Type*) where
  | returned
  | threw (e : ε)
  | terminated
  deriving DecidableEq

/-- The effects of some code in their order, and its end. -/
structure Execution (ω ε : Type*) where
  effects : List ω
  outcome : Outcome ε

namespace Execution

def done : Execution ω ε := ⟨[], .returned⟩

def emit (w : ω) : Execution ω ε := ⟨[w], .returned⟩

def throws (e : ε) : Execution ω ε := ⟨[], .threw e⟩

def terminates : Execution ω ε := ⟨[], .terminated⟩

/-- Sequencing: `y` runs when `x` has returned. -/
def andThen (x y : Execution ω ε) : Execution ω ε :=
  match x.outcome with
  | .returned => ⟨x.effects ++ y.effects, y.outcome⟩
  | _         => x

/-- A `for` loop over a range. -/
def forEach (f : α → Execution ω ε) : List α → Execution ω ε
  | []     => done
  | a :: l => (f a).andThen (forEach f l)

/-- `try { x } catch (e) { handler(e) }`. -/
def tryCatch (x : Execution ω ε) (handler : ε → Execution ω ε) : Execution ω ε :=
  match x.outcome with
  | .threw e => ⟨x.effects ++ (handler e).effects, (handler e).outcome⟩
  | _        => x

/-- A coroutine whose `unhandled_exception` calls `std::terminate`. -/
def terminating (x : Execution ω ε) : Execution ω ε :=
  match x.outcome with
  | .threw _ => ⟨x.effects, .terminated⟩
  | _        => x

/-- A coroutine whose `unhandled_exception` stores the exception, which no awaiter rethrows. -/
def swallowing (x : Execution ω ε) : Execution ω ε :=
  match x.outcome with
  | .threw _ => ⟨x.effects, .returned⟩
  | _        => x

variable {x y : Execution ω ε} {f : α → Execution ω ε} {l : List α}

lemma andThen_of_returned (h : x.outcome = .returned) :
    x.andThen y = ⟨x.effects ++ y.effects, y.outcome⟩ := by
  rw [andThen, h]

lemma andThen_of_terminated (h : x.outcome = .terminated) : x.andThen y = x := by
  rw [andThen, h]

/-- A loop whose iterations all return does what its iterations do. -/
lemma forEach_of_returned (h : ∀ a ∈ l, (f a).outcome = .returned) :
    forEach f l = ⟨l.flatMap fun a => (f a).effects, .returned⟩ := by
  induction l with
  | nil => rfl
  | cons a l ih =>
    rw [List.forall_mem_cons] at h
    rw [forEach, andThen_of_returned h.1, ih h.2, List.flatMap_cons]

/-- A loop none of whose iterations throws ends the process when one of them does. -/
lemma forEach_of_terminated (h : ∀ a ∈ l, ∀ e, (f a).outcome ≠ .threw e)
    (hex : ∃ a ∈ l, (f a).outcome ≠ .returned) : (forEach f l).outcome = .terminated := by
  induction l with
  | nil => simp at hex
  | cons a l ih =>
    rw [List.forall_mem_cons] at h
    rw [forEach]
    cases ha : (f a).outcome with
    | threw e => exact absurd ha (h.1 e)
    | terminated => rw [andThen_of_terminated ha, ha]
    | returned =>
      rw [andThen_of_returned ha]
      apply ih h.2
      simpa [ha] using hex

/-- What a loop does, one of its iterations does. -/
lemma exists_mem_effects {w : ω} (h : w ∈ (forEach f l).effects) : ∃ a ∈ l, w ∈ (f a).effects := by
  induction l with
  | nil => cases h
  | cons a l ih =>
    rw [forEach, andThen] at h
    split at h
    · rcases List.mem_append.mp h with h | h
      · exact ⟨a, List.mem_cons_self, h⟩
      · obtain ⟨b, hb, hw⟩ := ih h
        exact ⟨b, List.mem_cons_of_mem a hb, hw⟩
    · exact ⟨a, List.mem_cons_self, h⟩

lemma effects_terminating (x : Execution ω ε) : x.terminating.effects = x.effects := by
  rw [terminating]
  cases x.outcome <;> rfl

lemma terminating_ne_threw (x : Execution ω ε) (e : ε) : x.terminating.outcome ≠ .threw e := by
  rw [terminating]
  cases h : x.outcome <;> simp [h]

lemma effects_swallowing (x : Execution ω ε) : x.swallowing.effects = x.effects := by
  rw [swallowing]
  cases x.outcome <;> rfl

lemma swallowing_of_terminated (h : x.outcome = .terminated) : x.swallowing = x := by
  rw [swallowing, h]

end Execution

end Coroutine
