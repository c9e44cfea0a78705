import Mathlib.Logic.Function.Basic
import ArchonSearch.Lib.Run

/-!
# Generating the default key

Servers that start together, none of which is given a key, share the key file and its temp file.
`_generate_and_write` creates the temp file exclusively and links it to the key file, which replaces
nothing. Who comes too late waits in `_await_concurrent_key` for what the other one publishes, and
removes a temp file that it takes for an orphan. In every run in which it is one and that starts
with a key file that is absent or has a key, all processes return the key that the file holds, and
from any state of the run on it stays (`one_key`).

A key file without a key is replaced, by two processes one after the other if both have found it;
so is any by a key that an operator sets, which is left out here.
-/

namespace ArchonSearch.Keys.Generate

open Lib Function

/-- What `_parse_key_file` finds. -/
inductive KeyFile (K : Type*) where
  | absent
  | keyless
  /-- There is a `problem`. -/
  | invalid
  | holds : K → KeyFile K

/-- The variables of `_generate_and_write`. -/
structure Call (K : Type*) where
  key : K
  replace : Bool := false
  /-- How often the loop is entered again, of `KEY_WRITE_ATTEMPTS`. -/
  retries : ℕ := 1

/-- What a process does next. -/
inductive Pc (K : Type*) where
  | idle
  /-- `atomic_write_bytes` opens the temp file, and writes it. -/
  | opening : Call K → Pc K
  | publishing : Call K → Pc K
  /-- It removes its temp file: that was linked, the key file was there, or it has failed. -/
  | unlinking : Call K → (linked : Option Bool) → Pc K
  /-- `_await_concurrent_key`: `key_file.exists()`. -/
  | looking : Call K → Pc K
  | loading : Call K → (leftover : Bool) → Pc K
  | checking : Call K → (leftover : Bool) → Pc K
  /-- It removes the temp file of another one. -/
  | removing : Call K → (leftover : Bool) → Pc K
  | returned : K → Pc K
  /-- It has raised, or was killed. -/
  | raised

def Pc.writes {K : Type*} : Pc K → Bool
  | publishing _ | unlinking _ _ => true
  | _ => false

structure State (P K : Type*) where
  keyFile : KeyFile K
  /-- The temp file: who has created it, and the key in it. -/
  tmp : Option (P × K)
  pc : P → Pc K

inductive Event (P K : Type*) where
  /-- `load_or_generate_key` reads the key file; `drawn` is the key that is generated. -/
  | start : P → (drawn : K) → Event P K
  /-- The next step, and whether the `deadline` is over. -/
  | step : P → (late : Bool) → Event P K
  /-- The temp file is written, and not published: an `OSError`. -/
  | fail : P → Event P K
  | die : P → Event P K

variable {P K : Type*} [DecidableEq P]

def State.move (s : State P K) (p : P) (pc : Pc K) : State P K := { s with pc := update s.pc p pc }

/-- `os.replace` or `os.link`. -/
def publish (s : State P K) (p : P) (c : Call K) : State P K :=
  match s.tmp with
  | none => s.move p (.unlinking c none)
  | some (_, key) =>
    if c.replace then { s with keyFile := .holds key, tmp := none }.move p (.returned c.key)
    else match s.keyFile with
      | .absent => { s with keyFile := .holds key }.move p (.unlinking c (some true))
      | _ => s.move p (.unlinking c (some false))

def next (s : State P K) (p : P) (late : Bool) : Option (State P K) :=
  match s.pc p with
  | .opening c => match s.tmp with
    | some _ => some (s.move p (.looking c))
    | none => some ({ s with tmp := some (p, c.key) }.move p (.publishing c))
  | .publishing c => some (publish s p c)
  | .unlinking c linked => some ({ s with tmp := none }.move p (match linked with
    | some true => .returned c.key
    | some false => .looking c
    | none => .raised))
  | .looking c => some (s.move p (.loading c (match s.keyFile with
    | .absent => false
    | _ => true)))
  | .loading c leftover => some (s.move p (match s.keyFile with
    | .holds key => .returned key
    | _ => .checking c leftover))
  | .checking c leftover =>
    some (s.move p (if s.tmp.isNone || late then .removing c leftover else .looking c))
  | .removing c leftover => some ({ s with tmp := none }.move p (match c.retries with
    | 0 => .raised
    | n + 1 => .opening { c with replace := c.replace || leftover, retries := n }))
  | .idle | .returned _ | .raised => none

def step (s : State P K) : Event P K → Option (State P K)
  | .start p drawn => match s.pc p, s.keyFile with
    | .idle, .holds key => some (s.move p (.returned key))
    | .idle, .invalid => some (s.move p .raised)
    | .idle, _ => some (s.move p (.opening { key := drawn }))
    | _, _ => none
  | .step p late => next s p late
  | .fail p => match s.pc p with
    | .publishing c => some (s.move p (.unlinking c none))
    | _ => none
  | .die p => some (s.move p .raised)

/-- **A temp file that is removed by another process is an orphan.** -/
def Orderly (s : State P K) : Event P K → Prop
  | .step p _ => match s.pc p with
    | .removing _ _ => ∀ w ∈ s.tmp, (s.pc w.1).writes = false
    | _ => True
  | _ => True

/-! ### What the processes rely on -/

def Call.Creates (c : Call K) (f : KeyFile K) : Prop :=
  c.replace = false ∧ f ≠ .invalid ∧ f ≠ .keyless

/-- What a process relies on where it is, of the key file and of the temp file. -/
def Knows (f : KeyFile K) (tmp : Option (P × K)) (p : P) : Pc K → Prop
  | .idle | .raised => True
  | .returned key => f = .holds key
  | .opening c | .looking c => c.Creates f
  | .publishing c => c.Creates f ∧ tmp = some (p, c.key)
  | .unlinking c linked => c.Creates f ∧ (∃ key, tmp = some (p, key)) ∧
      (linked = some true → f = .holds c.key)
  | .loading c leftover => c.Creates f ∧ (leftover = true → f ≠ .absent)
  | .checking c leftover | .removing c leftover => c.Creates f ∧ leftover = false

/-- The key file is the one that it was, or the first one. -/
def Kept (f f' : KeyFile K) : Prop := f' = f ∨ f = .absent ∧ ∃ key, f' = .holds key

/-- What holds in a run that starts with the key file `f₀`. -/
structure State.Sound (f₀ : KeyFile K) (s : State P K) : Prop where
  kept : Kept f₀ s.keyFile
  knows : ∀ p, Knows s.keyFile s.tmp p (s.pc p)

variable {s s' s₀ : State P K} {p q : P} {pc : Pc K} {f f₀ : KeyFile K} {tmp : Option (P × K)}

omit [DecidableEq P] in
theorem State.Sound.exists_tmp (h : s.Sound f₀) (hw : (s.pc q).writes = true) :
    ∃ key, s.tmp = some (q, key) := by
  have hk := h.knows q
  revert hk hw
  cases s.pc q <;> simp +contextual [Knows, Pc.writes]

/-- **A process moves on**, and the others can rely on what they knew. -/
theorem State.Sound.move (h : s.Sound f₀) (hf : Kept s.keyFile f) (hknows : Knows f tmp p pc)
    (htmp : ∀ q ≠ p, (s.pc q).writes = true → tmp = s.tmp) :
    State.Sound f₀ ⟨f, tmp, update s.pc p pc⟩ := by
  refine ⟨?_, fun q => ?_⟩
  · have hkept := h.kept
    unfold Kept at *
    grind
  show Knows f tmp q (update s.pc p pc q)
  by_cases hq : q = p
  · subst hq
    rwa [update_self]
  · rw [update_of_ne hq]
    have hk := h.knows q
    have ht := htmp q hq
    revert hk ht
    rcases hf with rfl | ⟨hf, key, rfl⟩ <;> cases s.pc q <;>
      simp_all [Knows, Pc.writes, Call.Creates]

theorem publish_cases {c : Call K} (hrep : c.replace = false) (htmp : s.tmp = some (p, c.key)) :
    publish s p c = s.move p (.unlinking c (some false)) ∨ s.keyFile = .absent ∧
      publish s p c = { s with keyFile := .holds c.key }.move p (.unlinking c (some true)) := by
  cases hf : s.keyFile <;> simp [publish, htmp, hrep, hf]

/-- **A process takes its next step.** -/
theorem State.Sound.next {late : Bool} (h : s.Sound f₀) (he : Orderly s (.step p late))
    (hs : next s p late = some s') : s'.Sound f₀ := by
  have hk := h.knows p
  unfold Generate.next at hs
  split at hs <;> rename_i hpc <;> rw [hpc] at hk
  · -- it creates the temp file if nobody else has
    split at hs <;> cases hs
    · exact h.move (.inl rfl) hk fun _ _ _ => rfl
    · next htmp =>
      refine h.move (.inl rfl) ⟨hk, rfl⟩ fun q _ hw => ?_
      simpa [htmp] using h.exists_tmp hw
  · cases hs
    rcases publish_cases hk.1.1 hk.2 with heq | ⟨hf, heq⟩ <;> rw [heq]
    · exact h.move (.inl rfl) ⟨hk.1, ⟨_, hk.2⟩, nofun⟩ fun _ _ _ => rfl
    · exact h.move (.inr ⟨hf, _, rfl⟩) ⟨⟨hk.1.1, nofun, nofun⟩, ⟨_, hk.2⟩, fun _ => rfl⟩
        fun _ _ _ => rfl
  · next c linked =>
    cases hs
    obtain ⟨hc, ⟨key, htmp⟩, hlin⟩ := hk
    refine h.move (.inl rfl) ?_ fun q hq hw => ?_
    · match linked with
      | some true => exact hlin rfl
      | some false => exact hc
      | none => trivial
    · obtain ⟨key', htmp'⟩ := h.exists_tmp hw
      cases htmp.symm.trans htmp'
      exact absurd rfl hq
  · cases hs
    refine h.move (.inl rfl) ⟨hk, fun hl hf => ?_⟩ fun _ _ _ => rfl
    simp [hf] at hl
  · cases hs
    refine h.move (.inl rfl) ?_ fun _ _ _ => rfl
    cases hf : s.keyFile <;> simp_all [Knows, Call.Creates]
  · cases hs
    refine h.move (.inl rfl) ?_ fun _ _ _ => rfl
    split
    · exact hk
    · exact hk.1
  · next c leftover =>
    cases hs
    obtain ⟨hc, rfl⟩ := hk
    refine h.move (.inl rfl) ?_ fun q _ hw => ?_
    · cases c.retries with
      | zero => trivial
      | succ n => simpa [Knows, Call.Creates] using hc
    · obtain ⟨key, htmp⟩ := h.exists_tmp hw
      simp only [Orderly, hpc] at he
      exact absurd (he _ htmp) (by simp [hw])
  all_goals cases hs

theorem State.Sound.step {e : Event P K} (hless : f₀ ≠ .keyless) (h : s.Sound f₀)
    (he : Orderly s e) (hs : step s e = some s') : s'.Sound f₀ := by
  cases e with
  | start p drawn =>
    have hles : s.keyFile ≠ .keyless := by
      rcases h.kept with hf | ⟨-, key, hf⟩ <;> simp [hf, hless]
    simp only [Generate.step] at hs
    split at hs <;> cases hs
    · next hf => exact h.move (.inl rfl) hf fun _ _ _ => rfl
    · exact h.move (.inl rfl) trivial fun _ _ _ => rfl
    · next hinv => exact h.move (.inl rfl) ⟨rfl, hinv, hles⟩ fun _ _ _ => rfl
  | step p late => exact h.next he hs
  | fail p =>
    have hk := h.knows p
    simp only [Generate.step] at hs
    split at hs <;> cases hs
    next hpc =>
    rw [hpc] at hk
    exact h.move (.inl rfl) ⟨hk.1, ⟨_, hk.2⟩, nofun⟩ fun _ _ _ => rfl
  | die p =>
    cases hs
    exact h.move (.inl rfl) trivial fun _ _ _ => rfl

/-- **All processes return the key that the key file holds, and from any state of the run on the
key file stays as it is**, unless it was absent there and gets its first key. It is not one without
a key at the start; there may be a temp file, whose writer was killed. -/
theorem one_key {es es' : List (Event P K)} (hidle : ∀ p, s₀.pc p = .idle)
    (hless : s₀.keyFile ≠ .keyless) (horderly : Along step Orderly s₀ (es ++ es'))
    (hrun : run step s₀ es = some s) (hrun' : run step s es' = some s') :
    (∀ p key, s'.pc p = .returned key → s'.keyFile = .holds key) ∧
      (∀ key, s.keyFile = .holds key → s'.keyFile = .holds key) ∧ Kept s.keyFile s'.keyFile := by
  have hstart : s₀.Sound s₀.keyFile := ⟨.inl rfl, fun p => (hidle p).symm ▸ trivial⟩
  have hs : s.Sound s₀.keyFile :=
    run_invariant_along (fun _ _ _ he h hst => h.step hless he hst) horderly.of_append hstart hrun
  have hmid : s.keyFile ≠ .keyless := by
    rcases hs.kept with hf | ⟨-, key, hf⟩ <;> simp [hf, hless]
  have hs' : s'.Sound s.keyFile :=
    run_invariant_along (fun _ _ _ he h hst => h.step hmid he hst) (horderly.after hrun)
      ⟨.inl rfl, hs.knows⟩ hrun'
  refine ⟨fun p key hpc => ?_, fun key hf => ?_, hs'.kept⟩
  · have hk := hs'.knows p
    rwa [hpc] at hk
  · rcases hs'.kept with heq | ⟨habs, -⟩
    · exact heq.trans hf
    · cases hf.symm.trans habs

def twoServers : State Bool Char := ⟨.absent, none, fun _ => .idle⟩

/-- The second of two processes finds the temp file of the first one. -/
def twoStarts : List (Event Bool Char) :=
  [.start true 'a', .start false 'b', .step true false, .step false false, .step true false,
    .step false false, .step false false]

/-- The first process has linked its key; the second one comes to return that one. -/
theorem one_key_twoStarts : ∃ s s', run step twoServers (twoStarts.take 5) = some s ∧
    s.keyFile = .holds 'a' ∧ run step s (twoStarts.drop 5) = some s' ∧
    s'.pc false = .returned 'a' ∧ s'.keyFile = .holds 'a' :=
  have hrun : run step twoServers (twoStarts.take 5) = some _ := rfl
  have hrun' : run step _ (twoStarts.drop 5) = some _ := rfl
  ⟨_, _, hrun, rfl, hrun', rfl, (one_key (fun _ => rfl) (by simp [twoServers])
    (by simp [Along, Orderly, step, next, publish, State.move, twoServers, twoStarts])
    hrun hrun').2.1 'a' rfl⟩

end ArchonSearch.Keys.Generate
