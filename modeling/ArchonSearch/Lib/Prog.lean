import Mathlib.Data.List.Nodup

/-!
# Programs that may die

A program works on a state and returns a value, unless the process dies on the way; the state it
leaves is there in both cases, since what has been written stays written. A specification of a
program therefore has three parts: what holds when it starts, what holds of the value and the state
when it returns, and what holds of the state when it dies (`Prog.Spec`). The rules follow the way
programs are composed.

A program that does one thing for each item of a list is often reasoned about for one item only,
the others leaving alone what matters of it: `Prog.Spec.mapEach_focus`.
-/

namespace ArchonSearch.Lib

open List

/-- A program on the states `σ`: the value it returns, or none if it dies, and the state it
leaves. -/
def Prog (σ α : Type) : Type := σ → Option α × σ

namespace Prog

variable {σ α β : Type}

instance : Monad (Prog σ) where
  pure a := fun s => (some a, s)
  bind p f := fun s =>
    match p s with
    | (some a, s') => f a s'
    | (none, s') => (none, s')

def get : Prog σ σ := fun s => (some s, s)

def modify (f : σ → σ) : Prog σ Unit := fun s => (some (), f s)

def die : Prog σ α := fun s => (none, s)

def when (c : Prop) [Decidable c] (p : Prog σ Unit) : Prog σ Unit := if c then p else pure ()

def mapEach (f : α → Prog σ β) : List α → Prog σ (List (α × β))
  | [] => pure []
  | a :: l => do
    let b ← f a
    let bs ← mapEach f l
    pure ((a, b) :: bs)

/-! ### Specifications -/

/-- How a program has ended: `Q` if it has returned, `C` if it has died. -/
def Ends (Q : α → σ → Prop) (C : σ → Prop) : Option α × σ → Prop
  | (some a, s) => Q a s
  | (none, s) => C s

/-- Started in `P`, the program ends with `Q`, or dies with `C`. -/
def Spec (P : σ → Prop) (p : Prog σ α) (Q : α → σ → Prop) (C : σ → Prop) : Prop :=
  ∀ s, P s → Ends Q C (p s)

/-- Wherever the program ends or dies, `I` holds if it held before. -/
def Preserves (I : σ → Prop) (p : Prog σ α) : Prop := Spec I p (fun _ => I) I

variable {P P' : σ → Prop} {p : Prog σ α} {Q Q' : α → σ → Prop} {C C' I : σ → Prop}

theorem Ends.mono {r : Option α × σ} (h : Ends Q C r) (hQ : ∀ a s, Q a s → Q' a s)
    (hC : ∀ s, C s → C' s) : Ends Q' C' r := by
  obtain ⟨_ | a, s⟩ := r
  · exact hC s h
  · exact hQ a s h

theorem Spec.mono (h : Spec P p Q C) (hP : ∀ s, P' s → P s) (hQ : ∀ a s, Q a s → Q' a s)
    (hC : ∀ s, C s → C' s) : Spec P' p Q' C' :=
  fun s hs => (h s (hP s hs)).mono hQ hC

theorem Spec.of_pre (h : Spec P p Q C) (hP : ∀ s, P' s → P s) : Spec P' p Q C :=
  fun s hs => h s (hP s hs)

theorem Spec.and (h : Spec P p Q C) (h' : Spec P' p Q' C') :
    Spec (fun s => P s ∧ P' s) p (fun a s => Q a s ∧ Q' a s) fun s => C s ∧ C' s := by
  rintro s ⟨hs, hs'⟩
  have hes := h s hs
  have hes' := h' s hs'
  revert hes hes'
  obtain ⟨_ | a, t⟩ := p s
  · exact And.intro
  · exact And.intro

/-- What does not depend on the state may be assumed. -/
theorem Spec.of_imp {A : Prop} (h : A → Spec P p Q C) : Spec (fun s => A ∧ P s) p Q C :=
  fun s hs => h hs.1 s hs.2

theorem Spec.of_imp' {A : Prop} (h : A → Spec P p Q C) : Spec (fun s => P s ∧ A) p Q C :=
  fun s hs => h hs.2 s hs.1

variable {a : α}

theorem spec_pure (h : ∀ s, P s → Q a s) : Spec P (pure a : Prog σ α) Q C := h

variable {f : α → Prog σ β}

theorem Spec.bind {R : β → σ → Prop} (h : Spec P p Q C)
    (hf : ∀ a, Spec (Q a) (f a) R C) : Spec P (p >>= f) R C := by
  intro s hs
  have hes := h s hs
  change Ends R C (match p s with
    | (some a, s') => f a s'
    | (none, s') => (none, s'))
  revert hes
  obtain ⟨_ | a, t⟩ := p s
  · exact id
  · exact hf a t

/-- Reading the state: what is done with it is specified for each state in `P`. -/
theorem spec_get_bind {f : σ → Prog σ β} {R : β → σ → Prop}
    (h : ∀ t, P t → Spec (fun s => s = t) (f t) R C) : Spec P (get >>= f) R C :=
  fun s hs => h s hs s rfl

/-- What was read is as good as what is there. -/
theorem spec_read {f : σ → Prog σ β} {R : β → σ → Prop} (h : ∀ t, P t → Spec P (f t) R C) :
    Spec P (get >>= f) R C :=
  fun s hs => h s hs s hs

theorem spec_modify {f : σ → σ} {Q : Unit → σ → Prop} (h : ∀ s, P s → Q () (f s)) :
    Spec P (modify f) Q C := h

theorem spec_modify_pure {f : σ → σ} (h : ∀ s, P s → Q a (f s)) :
    Spec P (do modify f; pure a) Q C := h

theorem spec_die (h : ∀ s, P s → C s) : Spec P (die : Prog σ α) Q C := h

theorem spec_ite {c : Prop} [Decidable c] {q : Prog σ α} (hp : c → Spec P p Q C)
    (hq : ¬c → Spec P q Q C) : Spec P (if c then p else q) Q C := by
  split_ifs with h
  · exact hp h
  · exact hq h

theorem spec_when {c : Prop} [Decidable c] {p : Prog σ Unit} {Q : Unit → σ → Prop}
    (hp : Spec P p Q C) (hq : ∀ s, P s → Q () s) : Spec P (when c p) Q C :=
  spec_ite (fun _ => hp) fun _ => spec_pure hq

theorem preserves_pure : Preserves I (pure a : Prog σ α) := spec_pure fun _ => id

theorem Preserves.bind (h : Preserves I p) (hf : ∀ a, Preserves I (f a)) :
    Preserves I (p >>= f) :=
  Spec.bind h hf

theorem preserves_get : Preserves I (get : Prog σ σ) := fun _ => id

theorem preserves_modify {f : σ → σ} (h : ∀ s, I s → I (f s)) : Preserves I (modify f) := h

/-! ### Relations between before and after -/

/-- Wherever the program ends or dies, its state is related to the one it started from. -/
def Moves (R : σ → σ → Prop) (p : Prog σ α) : Prop := ∀ s, R s (p s).2

variable {R : σ → σ → Prop}

theorem Moves.preserves (h : Moves R p) (hI : ∀ s s', R s s' → I s → I s') : Preserves I p := by
  intro s hs
  have hmove := hI s _ (h s) hs
  revert hmove
  obtain ⟨_ | a, t⟩ := p s
  · exact id
  · exact id

/-- What was reached from a state is reached from it still. -/
theorem Moves.preserves_from [IsTrans σ R] (h : Moves R p) (s₀ : σ) :
    Preserves (fun s => R s₀ s) p :=
  h.preserves fun _ _ hmove h₀ => trans_of R h₀ hmove

section

variable [Std.Refl R] [IsTrans σ R]

section
omit [IsTrans σ R]

theorem moves_pure {a : α} : Moves R (pure a : Prog σ α) := fun s => refl_of R s

theorem moves_get : Moves R (get : Prog σ σ) := fun s => refl_of R s

theorem moves_die : Moves R (die : Prog σ α) := fun s => refl_of R s

end

omit [Std.Refl R] [IsTrans σ R] in
theorem moves_modify {f : σ → σ} (h : ∀ s, R s (f s)) : Moves R (modify f) := h

omit [Std.Refl R] in
theorem Moves.bind {f : α → Prog σ β} (h : Moves R p) (hf : ∀ a, Moves R (f a)) :
    Moves R (p >>= f) := by
  intro s
  have hmove := h s
  change R s (match p s with
    | (some a, s') => f a s'
    | (none, s') => (none, s')).2
  revert hmove
  obtain ⟨_ | a, t⟩ := p s
  · exact id
  · exact fun hmove => trans_of R hmove (hf a t)

omit [Std.Refl R] [IsTrans σ R] in
theorem moves_ite {c : Prop} [Decidable c] {q : Prog σ α} (hp : Moves R p) (hq : Moves R q) :
    Moves R (if c then p else q) := by
  split_ifs
  · exact hp
  · exact hq

omit [IsTrans σ R] in
theorem moves_when {c : Prop} [Decidable c] {p : Prog σ Unit} (hp : Moves R p) :
    Moves R (when c p) :=
  moves_ite hp moves_pure

theorem moves_mapEach {f : α → Prog σ β} {l : List α} (h : ∀ a ∈ l, Moves R (f a)) :
    Moves R (mapEach f l) := by
  induction l with
  | nil => exact moves_pure
  | cons a l ih =>
    refine (h a mem_cons_self).bind fun b => ?_
    exact (ih fun a' ha' => h a' (mem_cons_of_mem a ha')).bind fun bs => moves_pure

end

/-! ### One thing for each item -/

variable {l : List α}

theorem spec_mapEach
    (h : ∀ a ∈ l, Spec I (f a) (fun _ => I) C) : Spec I (mapEach f l) (fun _ => I) C := by
  induction l with
  | nil => exact spec_pure fun _ => id
  | cons a l ih =>
    refine (h a mem_cons_self).bind fun b => ?_
    refine (ih fun a' ha' => h a' (mem_cons_of_mem a ha')).bind fun bs => ?_
    exact spec_pure fun _ => id

/-- What each item establishes of its result holds of all results. -/
theorem Spec.mapEach_each {G : α → β → Prop}
    (h : ∀ a ∈ l, Spec I (f a) (fun b s => I s ∧ G a b) C) :
    Spec I (mapEach f l)
      (fun bs s => I s ∧ bs.map Prod.fst = l ∧ ∀ entry ∈ bs, G entry.1 entry.2) C := by
  induction l with
  | nil => exact spec_pure fun s hs => ⟨hs, rfl, fun entry hent => by cases hent⟩
  | cons a l ih =>
    refine (h a mem_cons_self).bind fun b => Spec.of_imp' fun hb => ?_
    refine (ih fun a' ha' => h a' (mem_cons_of_mem a ha')).bind fun bs => spec_pure ?_
    rintro s ⟨hs, hks, hbs⟩
    refine ⟨hs, congrArg (a :: ·) hks, fun entry hent => ?_⟩
    rcases mem_cons.mp hent with rfl | hent
    · exact hb
    · exact hbs entry hent

/-- **The one item that matters.** If the other items keep what the item needs before its
turn and what it has established after it, then it is established in the end. -/
theorem Spec.mapEach_focus {J : β → σ → Prop} {x : α}
    (hx : x ∈ l) (hl : l.Nodup) (hbef : ∀ a ∈ l, a ≠ x → Spec I (f a) (fun _ => I) C)
    (ht : Spec I (f x) J C)
    (haft : ∀ a ∈ l, a ≠ x → ∀ b, Spec (J b) (f a) (fun _ => J b) C) :
    Spec I (mapEach f l) (fun bs s => ∃ b, (x, b) ∈ bs ∧ J b s) C := by
  induction l with
  | nil => cases hx
  | cons a l ih =>
    obtain ⟨ha, hl⟩ := nodup_cons.mp hl
    have hbef' := fun a' ha' => hbef a' (mem_cons_of_mem a ha')
    have haft' := fun a' ha' => haft a' (mem_cons_of_mem a ha')
    rcases mem_cons.mp hx with rfl | hx
    · -- its turn comes first; the rest of the list keeps what it establishes
      refine ht.bind fun b => ?_
      have hrs : Spec (J b) (mapEach f l) (fun _ => J b) C :=
        spec_mapEach fun a ha' => haft' a ha' (fun h => ha (h ▸ ha')) b
      exact hrs.bind fun bs => spec_pure fun s hs => ⟨b, mem_cons_self, hs⟩
    · have hne : a ≠ x := fun h => ha (h ▸ hx)
      refine (hbef a mem_cons_self hne).bind fun b => ?_
      refine (ih hx hl hbef' haft').bind fun bs => spec_pure ?_
      rintro s ⟨b', hm, hJ⟩
      exact ⟨b', mem_cons_of_mem _ hm, hJ⟩

end Prog

end ArchonSearch.Lib
