import Mathlib.Logic.Function.Basic

/-!
# Coroutines that share a state

An `async` function runs by itself between two awaits, and anything may happen at an await. `Async`
is such a function as a value: it returns, it raises, or it asks for an operation and goes on with
the answer, which may be an exception, a cancellation for instance. Exceptions are caught and
cleaned up after as in Python (`Async.tryCatch`, `Async.andFinally`).

What such a function may be trusted with depends on what it has been told. A `Contract` says what a
caller who knows this much may ask for, what can then be answered, and what it knows afterwards;
`Async.wp` is the knowledge from which a function keeps to the contract and ends as wished, and it
composes as programs do.

Any number of functions run side by side (`advance`). If the contract says enough for an invariant
of the shared state and of what everybody knows to survive each operation, the invariant holds as
long as the functions run (`Kept.advance`).
-/

namespace ArchonSearch.Lib

open Function

structure Signature where
  Op : Type
  Ans : Op → Type

/-- An `async` function: what it has come to. -/
inductive Async (S : Signature) (ε α : Type) : Type where
  | ret : α → Async S ε α
  | raise : ε → Async S ε α
  | await : (op : S.Op) → (Except ε (S.Ans op) → Async S ε α) → Async S ε α

namespace Async

variable {S : Signature} {ε α β : Type}

def bind : Async S ε α → (α → Async S ε β) → Async S ε β
  | ret a, f => f a
  | raise e, _ => raise e
  | await op k, f => await op fun r => bind (k r) f

instance : Monad (Async S ε) where
  pure := ret
  bind := bind

def perform (op : S.Op) : Async S ε (S.Ans op) :=
  await op fun
    | .ok a => ret a
    | .error e => raise e

/-- `try: … except: …`. -/
def tryCatch : Async S ε α → (ε → Async S ε α) → Async S ε α
  | ret a, _ => ret a
  | raise e, h => h e
  | await op k, h => await op fun r => tryCatch (k r) h

/-- `try: … finally: …`. -/
def andFinally : Async S ε α → Async S ε Unit → Async S ε α
  | ret a, c => c.bind fun _ => ret a
  | raise e, c => c.bind fun _ => raise e
  | await op k, c => await op fun r => andFinally (k r) c

def asks : Async S ε α → Option S.Op
  | await op _ => some op
  | _ => none

/-- A function by itself, whose operations are answered so: what it asks for, and what it comes
to. -/
def replay (answer : (op : S.Op) → Except ε (S.Ans op)) : Async S ε α → List S.Op × Except ε α
  | ret a => ([], .ok a)
  | raise e => ([], .error e)
  | await op k => (op :: (replay answer (k (answer op))).1, (replay answer (k (answer op))).2)

end Async

/-! ### Contracts -/

structure Contract (S : Signature) (ε : Type) where
  Know : Type
  May : Know → S.Op → Prop
  Can : Know → (op : S.Op) → Except ε (S.Ans op) → Prop
  learn : Know → (op : S.Op) → Except ε (S.Ans op) → Know

namespace Async

variable {S : Signature} {ε α β : Type} {C : Contract S ε}

/-- The function keeps to the contract from this knowledge on, and ends in `Q` if it returns
and in `E` if it raises. -/
def wp (C : Contract S ε) (Q : α → C.Know → Prop) (E : ε → C.Know → Prop) :
    Async S ε α → C.Know → Prop
  | ret a, k => Q a k
  | raise e, k => E e k
  | await op f, k => C.May k op ∧ ∀ r, C.Can k op r → wp C Q E (f r) (C.learn k op r)

variable {Q Q' : α → C.Know → Prop} {E E' : ε → C.Know → Prop} {p : Async S ε α} {k : C.Know}

@[simp] theorem wp_ret {a : α} : wp C Q E (ret a) k ↔ Q a k := Iff.rfl

@[simp] theorem wp_pure {a : α} : wp C Q E (pure a) k ↔ Q a k := Iff.rfl

@[simp] theorem wp_raise {e : ε} : wp C Q E (raise e : Async S ε α) k ↔ E e k := Iff.rfl

/-- **The rule of composition.** -/
@[simp] theorem wp_bind {f : α → Async S ε β} {R : β → C.Know → Prop} :
    wp C R E (p >>= f) k ↔ wp C (fun a k => wp C R E (f a) k) E p k := by
  induction p generalizing k with
  | ret a => rfl
  | raise e => rfl
  | await op g ih =>
    exact and_congr_right fun _ => forall_congr' fun r => imp_congr_right fun _ => ih r

/-- **The rule of operations.** -/
theorem wp_perform {op : S.Op} {Q : S.Ans op → C.Know → Prop} (hm : C.May k op)
    (hok : ∀ a, C.Can k op (.ok a) → Q a (C.learn k op (.ok a)))
    (herr : ∀ e, C.Can k op (.error e) → E e (C.learn k op (.error e))) :
    wp C Q E (perform op) k := by
  refine ⟨hm, fun r hr => ?_⟩
  cases r with
  | ok a => exact hok a hr
  | error e => exact herr e hr

/-- **The rule of exceptions.** -/
@[simp] theorem wp_tryCatch {h : ε → Async S ε α} :
    wp C Q E (tryCatch p h) k ↔ wp C Q (fun e k => wp C Q E (h e) k) p k := by
  induction p generalizing k with
  | ret a => rfl
  | raise e => rfl
  | await op g ih =>
    exact and_congr_right fun _ => forall_congr' fun r => imp_congr_right fun _ => ih r

/-- **The rule of clean-ups.** -/
@[simp] theorem wp_andFinally {c : Async S ε Unit} :
    wp C Q E (andFinally p c) k ↔
      wp C (fun a k => wp C (fun _ k => Q a k) E c k)
        (fun e k => wp C (fun _ k => E e k) E c k) p k := by
  induction p generalizing k with
  | ret a => exact wp_bind
  | raise e => exact wp_bind
  | await op g ih =>
    exact and_congr_right fun _ => forall_congr' fun r => imp_congr_right fun _ => ih r

theorem wp_mono (h : wp C Q E p k) (hQ : ∀ a k, Q a k → Q' a k) (hE : ∀ e k, E e k → E' e k) :
    wp C Q' E' p k := by
  induction p generalizing k with
  | ret a => exact hQ a k h
  | raise e => exact hE e k h
  | await op f ih => exact ⟨h.1, fun r hr => ih r (h.2 r hr)⟩

def Keeps (C : Contract S ε) (p : Async S ε α) (k : C.Know) : Prop :=
  wp C (fun _ _ => True) (fun _ _ => True) p k

theorem Keeps.may {op : S.Op} (h : Keeps C p k) (hasks : p.asks = some op) : C.May k op := by
  cases p with
  | await op' f =>
    obtain rfl : op' = op := Option.some.inj hasks
    exact h.1
  | ret a => cases hasks
  | raise e => cases hasks

theorem wp.keeps (h : wp C Q E p k) : Keeps C p k :=
  wp_mono h (fun _ _ _ => trivial) fun _ _ _ => trivial

end Async

/-! ### Functions side by side -/

section Tasks

variable {S : Signature} {ε α σ ι χ : Type} [DecidableEq ι]

/-- One of the functions is given the answer to what it asks: `exec` is the operation, which
may depend on a choice that is not its own and cannot always be made. -/
def advance (exec : ι → (op : S.Op) → χ → σ → Option (Except ε (S.Ans op) × σ))
    (s : σ × (ι → Async S ε α)) (i : ι) (c : χ) : Option (σ × (ι → Async S ε α)) :=
  match s.2 i with
  | .ret _ => none
  | .raise _ => none
  | .await op f => (exec i op c s.1).map fun x => (x.2, update s.2 i (f x.1))

/-- An invariant of the shared state and of what the functions know, each of which keeps to
the contract and ends in `Q` if it returns. -/
def Promised (C : Contract S ε) (Q : α → C.Know → Prop) (J : σ → (ι → C.Know) → Prop)
    (s : σ × (ι → Async S ε α)) : Prop :=
  ∃ know, J s.1 know ∧ ∀ i, (s.2 i).wp C Q (fun _ _ => True) (know i)

/-- An invariant of the shared state and of what the functions know, each of which keeps to
the contract. -/
def Kept (C : Contract S ε) (J : σ → (ι → C.Know) → Prop) (s : σ × (ι → Async S ε α)) : Prop :=
  ∃ know, J s.1 know ∧ ∀ i, (s.2 i).Keeps C (know i)

variable {exec : ι → (op : S.Op) → χ → σ → Option (Except ε (S.Ans op) × σ)}
  {C : Contract S ε} {J : σ → (ι → C.Know) → Prop} {s s' : σ × (ι → Async S ε α)} {i : ι} {c : χ}

/-- What an advance is: an operation that was asked for, and its answer. -/
theorem advance_eq_some (h : advance exec s i c = some s') :
    ∃ op f r t, s.2 i = .await op f ∧ exec i op c s.1 = some (r, t) ∧
      s' = (t, update s.2 i (f r)) := by
  unfold advance at h
  split at h
  · cases h
  · cases h
  · next op f htask =>
    obtain ⟨⟨r, t⟩, hexec, rfl⟩ := Option.map_eq_some_iff.mp h
    exact ⟨op, f, r, t, htask, hexec, rfl⟩

variable {J' : σ → (ι → C.Know) → Prop}

/-- **What every permitted operation makes of an invariant an advance makes of it**, be it the
invariant itself or what holds from then on; and what each function ends with stays as wished. -/
theorem Promised.advance {Q : α → C.Know → Prop}
    (hs : Promised C Q J s) (h : advance exec s i c = some s')
    (hexec : ∀ know op r t, J s.1 know → (s.2 i).asks = some op → C.May (know i) op →
      exec i op c s.1 = some (r, t) →
      C.Can (know i) op r ∧ J' t (update know i (C.learn (know i) op r))) :
    Promised C Q J' s' := by
  obtain ⟨know, hJ, hkp⟩ := hs
  obtain ⟨op, f, r, t, htask, hr, rfl⟩ := advance_eq_some h
  have hi := hkp i
  rw [htask] at hi
  obtain ⟨hcan, hJ'⟩ := hexec know op r t hJ (by rw [htask]; rfl) hi.1 hr
  refine ⟨_, hJ', fun j => ?_⟩
  change Async.wp C Q _ (update s.2 i (f r) j) _
  by_cases hj : j = i
  · subst hj
    rw [update_self, update_self]
    exact hi.2 r hcan
  · rw [update_of_ne hj, update_of_ne hj]
    exact hkp j

theorem Kept.advance (hs : Kept C J s)
    (h : advance exec s i c = some s')
    (hexec : ∀ know op r t, J s.1 know → (s.2 i).asks = some op → C.May (know i) op →
      exec i op c s.1 = some (r, t) →
      C.Can (know i) op r ∧ J' t (update know i (C.learn (know i) op r))) :
    Kept C J' s' :=
  Promised.advance hs h hexec

end Tasks

end ArchonSearch.Lib
