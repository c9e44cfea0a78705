import Mathlib.Data.List.Basic

/-!
# Programs whose calls may raise

A program makes calls, each of which answers or raises. What it has come to is what it returns or
raises itself, together with the calls it has made (`Calls`). A call that is not attempted passes
its exception on, and no later call is made; an attempted one hands its answer or its exception to
the rest of the program.

Two questions are asked of such a program: whether it returns (`Calls.Returns`), and which calls it
makes on the way (`Calls.Makes`). The rules follow the way programs are composed.
-/

namespace ArchonSearch.Lib

theorem bind_eq_ok {ε α β : Type} {x : Except ε α} {f : α → Except ε β} {b : β} :
    x >>= f = .ok b ↔ ∃ a, x = .ok a ∧ f a = .ok b := by
  cases x with
  | error e => exact ⟨fun h => (by cases h), fun ⟨a, h, _⟩ => (by cases h)⟩
  | ok a =>
    refine ⟨fun h => ⟨a, rfl, h⟩, fun ⟨_, h, hf⟩ => ?_⟩
    cases h
    exact hf

/-- What a program has come to: calls are in `κ`, exceptions in `ε`. -/
structure Calls (κ ε α : Type) where
  result : Except ε α
  made : List κ

namespace Calls

variable {κ ε α β : Type}

instance : Monad (Calls κ ε) where
  pure a := ⟨.ok a, []⟩
  bind p f :=
    match p.result with
    | .ok a => ⟨(f a).result, p.made ++ (f a).made⟩
    | .error e => ⟨.error e, p.made⟩

def call (k : κ) (answer : Except ε α) : Calls κ ε α := ⟨answer, [k]⟩

def compute (r : Except ε α) : Calls κ ε α := ⟨r, []⟩

def attempt (p : Calls κ ε α) : Calls κ ε (Except ε α) := ⟨.ok p.result, p.made⟩

def foldEach (f : β → α → Calls κ ε β) : β → List α → Calls κ ε β
  | b, [] => pure b
  | b, a :: l => do
    let b' ← f b a
    foldEach f b' l

variable {p : Calls κ ε α} {f : α → Calls κ ε β} {l m : List κ}

theorem bind_of_ok {a : α} (h : p.result = .ok a) :
    p >>= f = ⟨(f a).result, p.made ++ (f a).made⟩ := by
  change (match p.result with
    | .ok a => (⟨(f a).result, p.made ++ (f a).made⟩ : Calls κ ε β)
    | .error e => ⟨.error e, p.made⟩) = _
  rw [h]

theorem bind_of_error {e : ε} (h : p.result = .error e) : p >>= f = ⟨.error e, p.made⟩ := by
  change (match p.result with
    | .ok a => (⟨(f a).result, p.made ++ (f a).made⟩ : Calls κ ε β)
    | .error e => ⟨.error e, p.made⟩) = _
  rw [h]

@[simp] theorem made_pure (a : α) : (pure a : Calls κ ε α).made = [] := rfl

def Returns (p : Calls κ ε α) : Prop := ∃ a, p.result = .ok a

theorem returns_pure (a : α) : Returns (pure a : Calls κ ε α) := ⟨a, rfl⟩

/-- **A program returns if its first part does and the rest does on what that returned.** -/
theorem returns_bind_iff :
    Returns (p >>= f) ↔ ∃ a, p.result = .ok a ∧ Returns (f a) := by
  cases h : p.result with
  | error e => simp [Returns, bind_of_error h]
  | ok a => simp [Returns, bind_of_ok h]

/-- What a program returns is what its rest returns on what its first part has returned. -/
theorem result_bind_eq_ok {b : β} (h : (p >>= f).result = .ok b) :
    ∃ a, p.result = .ok a ∧ (f a).result = .ok b := by
  obtain ⟨a, ha, -⟩ := returns_bind_iff.mp ⟨b, h⟩
  rw [bind_of_ok ha] at h
  exact ⟨a, ha, h⟩

theorem returns_attempt_bind_iff {g : Except ε α → Calls κ ε β} :
    Returns (attempt p >>= g) ↔ Returns (g p.result) := by
  rw [returns_bind_iff]
  exact ⟨fun ⟨_, h, hr⟩ => Except.ok.inj h ▸ hr, fun hr => ⟨_, rfl, hr⟩⟩

def Makes (p : Calls κ ε α) (l : List κ) : Prop := Returns p ∧ p.made = l

theorem makes_pure (a : α) : Makes (pure a : Calls κ ε α) [] := ⟨returns_pure a, rfl⟩

theorem makes_call {k : κ} {answer : Except ε α} (h : ∃ a, answer = .ok a) :
    Makes (call k answer) [k] := ⟨h, rfl⟩

theorem makes_compute {r : Except ε α} (h : ∃ a, r = .ok a) :
    Makes (compute r : Calls κ ε α) [] := ⟨h, rfl⟩

/-- **Whatever a caught program comes to, it has made its calls.** -/
theorem makes_attempt (h : p.made = l) : Makes (attempt p) l := ⟨⟨_, rfl⟩, h⟩

theorem Makes.bind (h : Makes p l) (hf : ∀ a, p.result = .ok a → Makes (f a) m) :
    Makes (p >>= f) (l ++ m) := by
  obtain ⟨⟨a, ha⟩, hmade⟩ := h
  obtain ⟨hret, hmade'⟩ := hf a ha
  refine ⟨returns_bind_iff.mpr ⟨a, ha, hret⟩, ?_⟩
  rw [bind_of_ok ha, hmade, hmade']

/-- **A loop makes the calls of its items, if what an item needs of the accumulator is kept by
the items before it.** -/
theorem makes_foldEach {f : β → α → Calls κ ε β} {g : α → List κ} {I : β → List α → Prop}
    (hf : ∀ b a l, I b (a :: l) → Makes (f b a) (g a) ∧ ∀ b', (f b a).result = .ok b' → I b' l) :
    ∀ {l : List α} {b : β}, I b l → Makes (foldEach f b l) (l.flatMap g)
  | [], b, _ => makes_pure b
  | a :: l, b, h => by
    obtain ⟨hmake, hkeep⟩ := hf b a l h
    exact hmake.bind fun b' hb' => makes_foldEach hf (hkeep b' hb')

end Calls

end ArchonSearch.Lib
