import ArchonSearch.Lib.Run

/-!
# The owner of a collection

The metadata row of a collection is the only record of the namespace it belongs to. A collection
without one belongs to the default namespace when its table has rows, and is free to claim when it
has none. Every writer checks the record under the collection lock and, when it is about to claim
the collection, writes the row before the chunks; a claim is taken back when the chunks do not land.

Each read and each write of a call is a step of its own, in between which other calls run.
`delete_collection_meta` takes no lock, so it may happen at any moment.

Whatever the interleaving, the metadata never names two namespaces (`single_owner`). The chunks are
written only for the owner in every run in which no metadata row is deleted from under a call that
has passed its check (`rows_by_owner`); a row deleted in between makes the table the default
namespace's (`written_for_another`).
-/

namespace ArchonSearch.Store.Ownership

open Lib Function List Ownership

/-! ### Calls -/

/-- The calls that take the collection lock; chunk rows have the type `R`. -/
inductive Op (N R : Type*) where
  /-- `ingest_chunks`, with or without an embedding model. -/
  | ingest (namesp : N) (hasModel : Bool) (chunks : List R)
  /-- `delete_document`, of the rows of a document. -/
  | deleteDocument (namesp : N) (ofDocument : R → Bool)
  /-- `drop_collection`. -/
  | drop (namesp : N)
  /-- `update_collection_meta`. -/
  | updateMeta (namesp : N)
  /-- `touch_last_indexed` and `write_description`, which write back a row they have
  read. -/
  | touch (namesp : N)

variable {N R : Type*}

def Op.namesp : Op N R → N
  | .ingest ns _ _ | .deleteDocument ns _ | .drop ns | .updateMeta ns | .touch ns => ns

def Op.claims : Op N R → Bool
  | .ingest _ hasModel _ => hasModel
  | .deleteDocument _ _ | .drop _ | .updateMeta _ | .touch _ => false

inductive Pc (N R : Type*) where
  | idle
  | locked : Op N R → Pc N R
  | orphan : Op N R → Pc N R
  | granted : Op N R → (claims : Bool) → Pc N R
  | claimed : Op N R → Pc N R
  | failed : Op N R → Pc N R
  | written : Op N R → Pc N R
  | found : Op N R → Pc N R
  | cleanup : Op N R → Pc N R
  | leaving : Op N R → Pc N R

def Pc.namesp : Pc N R → Option N
  | .idle => none
  | .locked op | .orphan op | .granted op _ | .claimed op | .failed op | .written op
  | .found op | .cleanup op | .leaving op => some op.namesp

/-- One step of somebody; calls are named by `ι`. -/
inductive Event (ι N R : Type*) where
  | acquire : ι → Op N R → Event ι N R
  | check : ι → Event ι N R
  | countRows : ι → Event ι N R
  /-- `_do_claim_collection`. -/
  | claim : ι → Event ι N R
  | writeRows : ι → Event ι N R
  /-- `_do_ingest` raises after a claim. -/
  | rowsFail : ι → Event ι N R
  | releaseClaim : ι → Event ι N R
  | readMeta : ι → Event ι N R
  /-- `merge_insert` of a metadata row. -/
  | writeMeta : ι → Event ι N R
  /-- `_delete_legacy_null_namespace_meta`. -/
  | dropLegacy : ι → Event ι N R
  | leave : ι → Event ι N R
  | release : ι → Event ι N R
  /-- `delete_collection_meta` for a namespace. -/
  | deleteMeta : (namesp : N) → Event ι N R
  /-- `create_table` with `exist_ok`, in `ensure_collection`. -/
  | create

structure State (ι N R : Type*) where
  /-- The `namespace` cells of its metadata rows, NULL in a legacy row. -/
  metas : List (Option N)
  table : Option (List R)
  holder : Option ι
  pc : ι → Pc N R

variable {ι : Type*}

def State.rows (s : State ι N R) : List R := s.table.getD []

section Owner

variable [Inhabited N]

/-- `row.get("namespace") or DEFAULT_NAMESPACE`. -/
def effective (cell : Option N) : N := cell.getD default

/-- The namespace that owns the collection now: the one on record, and the default
one for rows without a record. -/
def State.owner (s : State ι N R) : Option N :=
  match s.metas with
  | m :: _ => some (effective m)
  | [] => if s.rows.isEmpty then none else some default

/-- All metadata rows name one namespace. -/
def SingleOwner (s : State ι N R) : Prop :=
  ∀ m ∈ s.metas, ∀ m' ∈ s.metas, effective m = effective m'

end Owner

/-! ### The machine -/

section Step

variable [DecidableEq ι] [DecidableEq N] [Inhabited N]

def State.setPc (s : State ι N R) (i : ι) (pc : Pc N R) : State ι N R :=
  { s with pc := update s.pc i pc }

/-- `merge_insert` on the name and the namespace. -/
def upsert (ns : N) (metas : List (Option N)) : List (Option N) :=
  if some ns ∈ metas then metas else metas ++ [some ns]

/-- What a call finds in the metadata rows. The writers of chunks go through
`_require_collection_access`; `update_collection_meta` compares the first row, and
the others look for the row of their namespace. -/
def checked (metas : List (Option N)) (op : Op N R) : Pc N R :=
  match op with
  | .ingest ns _ _ | .deleteDocument ns _ | .drop ns =>
    if metas ≠ [] then
      if ns ∈ metas.map effective then .granted op false else .leaving op
    else if ns = default then .granted op op.claims
    else .orphan op
  | .updateMeta ns =>
    match metas with
    | [] => .found op
    | m :: _ => if effective m = ns then .found op else .leaving op
  | .touch ns => if ns ∈ metas.map effective then .found op else .leaving op

/-- The write of the chunk rows. `open_table` fails on a table that is not there. -/
def writtenRows (s : State ι N R) (i : ι) (op : Op N R) : Option (State ι N R) :=
  match s.table, op with
  | some rows, .ingest _ _ chunks =>
    some ({ s with table := some (rows ++ chunks) }.setPc i (.written op))
  | some rows, .deleteDocument _ ofDocument =>
    some ({ s with table := some (rows.filter fun r => !ofDocument r) }.setPc i (.written op))
  | some _, .drop _ => some ({ s with table := none }.setPc i (.leaving op))
  | _, _ => none

/-- The metadata row to bring up to date after the chunks: an ingest with a model
always writes one, a deletion only one that is there. -/
def readBack (metas : List (Option N)) (op : Op N R) : Pc N R :=
  match op with
  | .ingest _ hasModel _ => if hasModel then .found op else .leaving op
  | .deleteDocument ns _ => if ns ∈ metas.map effective then .found op else .leaving op
  | .drop _ | .updateMeta _ | .touch _ => .leaving op

def step (s : State ι N R) : Event ι N R → Option (State ι N R)
  | .acquire i op =>
    match s.holder, s.pc i with
    | none, .idle => some ({ s with holder := some i }.setPc i (.locked op))
    | _, _ => none
  | .check i =>
    match s.pc i with
    | .locked op => some (s.setPc i (checked s.metas op))
    | _ => none
  | .countRows i =>
    match s.pc i with
    | .orphan op =>
      some (s.setPc i (if s.rows.isEmpty then .granted op op.claims else .leaving op))
    | _ => none
  | .claim i =>
    match s.pc i with
    | .granted op true =>
      some ({ s with metas := upsert op.namesp s.metas }.setPc i (.claimed op))
    | _ => none
  | .writeRows i =>
    match s.pc i with
    | .granted op false | .claimed op => writtenRows s i op
    | _ => none
  | .rowsFail i =>
    match s.pc i with
    | .claimed op => some (s.setPc i (.failed op))
    | _ => none
  | .releaseClaim i =>
    match s.pc i with
    | .failed op =>
      some ({ s with metas := s.metas.filter (· ≠ some op.namesp) }.setPc i (.leaving op))
    | _ => none
  | .readMeta i =>
    match s.pc i with
    | .written op => some (s.setPc i (readBack s.metas op))
    | _ => none
  | .writeMeta i =>
    match s.pc i with
    | .found op => some ({ s with metas := upsert op.namesp s.metas }.setPc i (.cleanup op))
    | _ => none
  | .dropLegacy i =>
    match s.pc i with
    | .cleanup op =>
      some ({ s with
        metas := if op.namesp = default then s.metas.filter (· ≠ none) else s.metas
        }.setPc i (.leaving op))
    | _ => none
  | .leave i =>
    match s.pc i with
    | .locked op | .orphan op | .granted op _ | .claimed op | .failed op | .written op
    | .found op | .cleanup op => some (s.setPc i (.leaving op))
    | .idle | .leaving _ => none
  | .release i =>
    match s.pc i with
    | .leaving _ => some ({ s with holder := none }.setPc i .idle)
    | _ => none
  | .deleteMeta ns => some { s with metas := s.metas.filter (· ≠ some ns) }
  | .create => some { s with table := some (s.table.getD []) }

def caller (s : State ι N R) : Event ι N R → Option N
  | .acquire _ op => some op.namesp
  | .check i | .countRows i | .claim i | .writeRows i | .rowsFail i | .releaseClaim i
  | .readMeta i | .writeMeta i | .dropLegacy i | .leave i | .release i => (s.pc i).namesp
  | .deleteMeta ns => some ns
  | .create => none

end Step

/-! ### What a call knows -/

section Inv

variable [Inhabited N] {s s' : State ι N R} {ns : N}

def OwnedBy (s : State ι N R) (ns : N) : Prop := ∀ m ∈ s.metas, effective m = ns

def Free (s : State ι N R) (ns : N) : Prop := s.rows = [] ∨ ns = default

theorem OwnedBy.singleOwner (h : OwnedBy s ns) : SingleOwner s :=
  fun m hm m' hm' => (h m hm).trans (h m' hm').symm

theorem SingleOwner.ownedBy (h : SingleOwner s) (hns : ns ∈ s.metas.map effective) :
    OwnedBy s ns := by
  obtain ⟨m, hm, rfl⟩ := mem_map.mp hns
  exact fun m' hm' => h m' hm' m hm

theorem OwnedBy.mono (h : OwnedBy s ns) (hs' : s'.metas ⊆ s.metas) : OwnedBy s' ns :=
  fun m hm => h m (hs' hm)

theorem ownedBy_of_nil (h : s.metas = []) : OwnedBy s ns := by
  intro m hm
  rw [h] at hm
  cases hm

/-- A namespace that is on record, or that would own the collection without a record,
owns it or finds it free. -/
theorem owner_of_ownedBy (h : OwnedBy s ns) (hfr : s.metas ≠ [] ∨ Free s ns) :
    s.owner = none ∨ s.owner = some ns := by
  unfold State.owner
  split
  next m ms hms =>
    have hm : effective m = ns := h m (by simp [hms])
    exact .inr (by rw [hm])
  next hms =>
    rcases hfr with hne | hrw | rfl
    · exact absurd hms hne
    · exact .inl (by simp [hrw])
    · split
      · exact .inl rfl
      · exact .inr rfl

/-- **What a call knows where it stands.** Between its check and its last write the
metadata names nobody else. With `strict`, also that its namespace may still write
the chunks when it is about to. -/
def Knows (strict : Bool) (s : State ι N R) : Pc N R → Prop
  | .idle | .locked _ | .leaving _ => True
  | .orphan _ => s.metas = []
  | .granted op false =>
    OwnedBy s op.namesp ∧ (strict = true → s.metas ≠ [] ∨ Free s op.namesp)
  | .granted op true => s.metas = [] ∧ Free s op.namesp
  | .claimed op => OwnedBy s op.namesp ∧ Free s op.namesp
  | .failed op | .written op | .found op | .cleanup op => OwnedBy s op.namesp

/-- One namespace owns the rows, and a call at work has the lock. -/
structure Inv (strict : Bool) (s : State ι N R) : Prop where
  single : SingleOwner s
  lock : ∀ i, s.pc i = .idle ∨ s.holder = some i
  knows : ∀ i, Knows strict s (s.pc i)

variable {strict : Bool} {pc : Pc N R} {i : ι}

theorem Inv.knows_of (h : Inv strict s) (hi : s.pc i = pc) : Knows strict s pc := hi ▸ h.knows i

theorem Inv.holder_eq (h : Inv strict s) (hi : s.pc i ≠ .idle) : s.holder = some i :=
  (h.lock i).resolve_left hi

/-- Fewer metadata rows and the same chunks change nothing that a call knows, unless
it is about to write and relies on a row that is gone. -/
theorem Knows.mono (h : Knows strict s pc) (hmet : s'.metas ⊆ s.metas)
    (hrw : s'.rows = s.rows)
    (hrely : ∀ op, pc = .granted op false → strict = true → s'.metas ≠ [] ∨ Free s' op.namesp) :
    Knows strict s' pc := by
  have ho : ∀ {ns : N}, OwnedBy s ns → OwnedBy s' ns := fun h => h.mono hmet
  have hfr : ∀ {ns : N}, Free s ns → Free s' ns := by
    intro ns h
    rwa [Free, hrw]
  have hnil : s.metas = [] → s'.metas = [] := by
    intro h
    rw [h] at hmet
    exact eq_nil_of_subset_nil hmet
  match pc, h with
  | .idle, _ | .locked _, _ | .leaving _, _ => exact trivial
  | .orphan _, h => exact hnil h
  | .granted op false, h => exact ⟨ho h.1, hrely op rfl⟩
  | .granted op true, h => exact ⟨hnil h.1, hfr h.2⟩
  | .claimed op, h => exact ⟨ho h.1, hfr h.2⟩
  | .failed op, h | .written op, h | .found op, h | .cleanup op, h => exact ho h

variable [DecidableEq ι]

/-- **A call moves on.** The others are not running, so only what this one knows has
to be said. -/
theorem Inv.move (h : Inv strict s) (hi : s.holder = some i)
    (hpc : s'.pc = update s.pc i pc) (hho : pc = .idle ∨ s'.holder = some i)
    (hsin : SingleOwner s') (hknows : Knows strict s' pc) : Inv strict s' := by
  have hoth : ∀ j, j ≠ i → s'.pc j = .idle := by
    intro j hj
    rw [hpc, update_of_ne hj]
    refine (h.lock j).resolve_right fun hj' => hj ?_
    exact Option.some.inj (hj'.symm.trans hi)
  have hself : s'.pc i = pc := by rw [hpc, update_self]
  refine ⟨hsin, fun j => ?_, fun j => ?_⟩
  · by_cases hj : j = i
    · subst hj
      rwa [hself]
    · exact .inl (hoth j hj)
  · by_cases hj : j = i
    · subst hj
      rwa [hself]
    · rw [hoth j hj]
      trivial

/-- A call that moves on and leaves everything as it is. -/
theorem Inv.setPc (h : Inv strict s) (hi : s.pc i ≠ .idle)
    (hknows : Knows strict (s.setPc i pc) pc) : Inv strict (s.setPc i pc) :=
  h.move (h.holder_eq hi) rfl (.inr (h.holder_eq hi)) h.single hknows

/-- **The write of the chunk rows.** -/
theorem Inv.writtenRows (h : Inv strict s) (hi : s.pc i ≠ .idle) {op : Op N R}
    (ho : OwnedBy s op.namesp) (hs : writtenRows s i op = some s') : Inv strict s' := by
  unfold Ownership.writtenRows at hs
  split at hs
  next => cases hs; exact h.move (h.holder_eq hi) rfl (.inr (h.holder_eq hi)) h.single ho
  next => cases hs; exact h.move (h.holder_eq hi) rfl (.inr (h.holder_eq hi)) h.single ho
  next => cases hs; exact h.move (h.holder_eq hi) rfl (.inr (h.holder_eq hi)) h.single trivial
  next => cases hs

end Inv

/-! ### The steps -/

section Steps

variable [DecidableEq N] [Inhabited N] {s s' : State ι N R} {strict : Bool}

theorem knows_checked (h : SingleOwner s) (op : Op N R) :
    Knows strict s (checked s.metas op) := by
  have hacc : Knows strict s
      (if s.metas ≠ [] then
        if op.namesp ∈ s.metas.map effective then .granted op false else .leaving op
      else if op.namesp = default then .granted op op.claims
      else .orphan op) := by
    split
    next hne =>
      split
      next hmem => exact ⟨h.ownedBy hmem, fun _ => .inl hne⟩
      next => trivial
    next hnil =>
      have hnil : s.metas = [] := by simpa using hnil
      split
      next hdef =>
        cases op.claims with
        | true => exact ⟨hnil, .inr hdef⟩
        | false => exact ⟨ownedBy_of_nil hnil, fun _ => .inr (.inr hdef)⟩
      next => exact hnil
  cases op with
  | ingest ns hasModel chunks => exact hacc
  | deleteDocument ns ofDocument => exact hacc
  | drop ns => exact hacc
  | updateMeta ns =>
    unfold checked
    dsimp only
    split
    next hnil => exact ownedBy_of_nil hnil
    next m ms hms =>
      split
      next hm =>
        refine h.ownedBy (mem_map.mpr ⟨m, ?_, hm⟩)
        simp [hms]
      next => trivial
  | touch ns =>
    unfold checked
    dsimp only
    split
    next hmem => exact h.ownedBy hmem
    next => trivial

/-- Upserting the row of a namespace that has no rival. -/
theorem OwnedBy.upsert {ns : N} (h : OwnedBy s ns) (hs' : s'.metas = upsert ns s.metas) :
    OwnedBy s' ns := by
  intro m hm
  rw [hs', Ownership.upsert] at hm
  split at hm
  · exact h m hm
  · rcases mem_append.mp hm with hm | hm
    · exact h m hm
    · obtain rfl := mem_singleton.mp hm
      rfl

/-- The call is about to write chunk rows on the strength of a record, or of there
being none. -/
def Pc.aboutToWrite : Pc N R → Bool
  | .granted _ false => true
  | _ => false

/-- **The steps that leave the record alone while it is relied on.** A metadata row is
not deleted, unless it is the default namespace's, or the table is empty, or no call
is about to write. -/
def Good (s : State ι N R) : Event ι N R → Prop
  | .deleteMeta ns =>
    ns = default ∨ s.rows.isEmpty ∨ some ns ∉ s.metas ∨
      ∀ i ∈ s.holder, (s.pc i).aboutToWrite = false
  | _ => True

/-- **`delete_collection_meta`**, at any moment. -/
theorem Inv.deleteMeta (h : Inv strict s) {ns : N}
    (hg : strict = true → Good s (.deleteMeta ns)) :
    Inv strict { s with metas := s.metas.filter (· ≠ some ns) } := by
  have hsub : s.metas.filter (· ≠ some ns) ⊆ s.metas := filter_sublist.subset
  refine ⟨fun m hm m' hm' => h.single m (hsub hm) m' (hsub hm'), h.lock, fun i => ?_⟩
  refine (h.knows i).mono hsub rfl ?_
  intro op hop hstrict
  have hknows := h.knows_of hop
  rcases hg hstrict with hdef | hemp | hnot | hidle
  · -- the default namespace needs no record
    rcases hknows.2 hstrict with hne | hfr
    · obtain ⟨m, hm⟩ := exists_mem_of_ne_nil _ hne
      by_cases hmns : m = some ns
      · refine .inr (.inr ?_)
        rw [← hknows.1 m hm, hmns, hdef]
        rfl
      · exact .inl (ne_nil_of_mem (mem_filter.mpr ⟨hm, by simpa using hmns⟩))
    · exact .inr hfr
  · exact .inr (.inl (by simpa [State.rows] using hemp))
  · have heq : s.metas.filter (· ≠ some ns) = s.metas := by
      rw [filter_eq_self]
      intro m hm
      have hne : m ≠ some ns := by
        rintro rfl
        exact hnot hm
      simpa using hne
    rw [heq]
    exact hknows.2 hstrict
  · have hi : s.holder = some i := h.holder_eq (by simp [hop])
    have hfls := hidle i hi
    rw [hop] at hfls
    cases hfls

variable [DecidableEq ι] {e : Event ι N R}

/-- **Every step keeps what the calls know**, the strict part of it if the step is a
good one. -/
theorem Inv.step (h : Inv strict s) (hg : strict = true → Good s e)
    (hs : step s e = some s') : Inv strict s' := by
  cases e with
  | acquire i op =>
    simp only [step] at hs
    split at hs <;> cases hs
    next hfr hidle =>
      have hall : ∀ j, s.pc j = .idle := by
        intro j
        refine (h.lock j).resolve_right fun hj => ?_
        rw [hfr] at hj
        cases hj
      refine ⟨h.single, fun j => ?_, fun j => ?_⟩
      · by_cases hj : j = i
        · subst hj
          exact .inr rfl
        · exact .inl (by simp [State.setPc, hj, hall j])
      · by_cases hj : j = i
        · subst hj
          simp [State.setPc, Knows]
        · simp [State.setPc, hj, hall j, Knows]
  | check i =>
    simp only [step] at hs
    split at hs <;> cases hs
    next op hi =>
      exact h.setPc (by simp [hi]) (knows_checked (s := s.setPc i _) h.single op)
  | countRows i =>
    simp only [step] at hs
    split at hs <;> cases hs
    next op hi =>
      have hnil : s.metas = [] := h.knows_of hi
      refine h.setPc (by simp [hi]) ?_
      split
      next hemp =>
        have hrw : s.rows = [] := by simpa using hemp
        cases op.claims with
        | true => exact ⟨hnil, .inl hrw⟩
        | false => exact ⟨ownedBy_of_nil hnil, fun _ => .inr (.inl hrw)⟩
      next => trivial
  | claim i =>
    simp only [step] at hs
    split at hs <;> cases hs
    next op hi =>
      obtain ⟨hnil, hfr⟩ : s.metas = [] ∧ Free s op.namesp := h.knows_of hi
      have ho : OwnedBy ({ s with metas := upsert op.namesp s.metas }.setPc i (.claimed op))
          op.namesp := (ownedBy_of_nil hnil).upsert rfl
      have hl := h.holder_eq (i := i) (by simp [hi])
      exact h.move hl rfl (.inr hl) ho.singleOwner ⟨ho, hfr⟩
  | writeRows i =>
    simp only [step] at hs
    split at hs
    next op hi =>
      have hknows : Knows strict s (.granted op false) := h.knows_of hi
      exact h.writtenRows (by simp [hi]) hknows.1 hs
    next op hi =>
      have hknows : Knows strict s (.claimed op) := h.knows_of hi
      exact h.writtenRows (by simp [hi]) hknows.1 hs
    next => cases hs
  | rowsFail i =>
    simp only [step] at hs
    split at hs <;> cases hs
    next op hi =>
      have hknows : Knows strict s (.claimed op) := h.knows_of hi
      exact h.setPc (by simp [hi]) hknows.1
  | releaseClaim i =>
    simp only [step] at hs
    split at hs <;> cases hs
    next op hi =>
      have hknows : OwnedBy s op.namesp := h.knows_of hi
      have hl := h.holder_eq (i := i) (by simp [hi])
      refine h.move hl rfl (.inr hl) ?_ trivial
      exact (hknows.mono (filter_sublist.subset)).singleOwner
  | readMeta i =>
    simp only [step] at hs
    split at hs <;> cases hs
    next op hi =>
      have hknows : OwnedBy s op.namesp := h.knows_of hi
      refine h.setPc (by simp [hi]) ?_
      unfold readBack
      split
      · split
        · exact hknows
        · trivial
      · split
        · exact hknows
        · trivial
      all_goals trivial
  | writeMeta i =>
    simp only [step] at hs
    split at hs <;> cases hs
    next op hi =>
      have hknows : OwnedBy s op.namesp := h.knows_of hi
      have ho : OwnedBy ({ s with metas := upsert op.namesp s.metas }.setPc i (.cleanup op))
          op.namesp := hknows.upsert rfl
      have hl := h.holder_eq (i := i) (by simp [hi])
      exact h.move hl rfl (.inr hl) ho.singleOwner ho
  | dropLegacy i =>
    simp only [step] at hs
    split at hs <;> cases hs
    next op hi =>
      have hknows : OwnedBy s op.namesp := h.knows_of hi
      have hl := h.holder_eq (i := i) (by simp [hi])
      refine h.move hl rfl (.inr hl) ?_ trivial
      refine (hknows.mono ?_).singleOwner
      split
      · exact filter_sublist.subset
      · exact List.Subset.refl _
  | leave i =>
    simp only [step] at hs
    split at hs
    all_goals first
      | cases hs; exact h.setPc (by simp [*]) trivial
      | cases hs
  | release i =>
    simp only [step] at hs
    split at hs <;> cases hs
    next op hi =>
      exact h.move (h.holder_eq (by simp [hi])) rfl (.inl rfl) h.single trivial
  | deleteMeta ns =>
    cases hs
    exact h.deleteMeta hg
  | create =>
    cases hs
    refine ⟨h.single, h.lock, fun i => (h.knows i).mono (List.Subset.refl _) ?_ ?_⟩
    · simp [State.rows]
    · intro op hop hstrict
      have hknows : Knows strict s (.granted op false) := h.knows_of hop
      simpa [Free, State.rows] using hknows.2 hstrict

theorem rows_of_step (hs : step s e = some s') :
    s'.rows = s.rows ∨ ∃ i, e = .writeRows i := by
  cases e with
  | writeRows i => exact .inr ⟨i, rfl⟩
  | deleteMeta ns =>
    cases hs
    exact .inl rfl
  | create =>
    cases hs
    exact .inl (by simp [State.rows])
  | acquire i op =>
    simp only [step] at hs
    split at hs <;> cases hs
    exact .inl rfl
  | leave i =>
    simp only [step] at hs
    split at hs <;> cases hs <;> exact .inl rfl
  | check i | countRows i | claim i | rowsFail i | releaseClaim i | readMeta i | writeMeta i
  | dropLegacy i | release i =>
    simp only [step] at hs
    split at hs <;> cases hs
    exact .inl rfl

end Steps

/-! ### Runs -/

section Runs

variable [DecidableEq ι] [DecidableEq N] [Inhabited N] {s₀ s : State ι N R}

/-- No call has begun. -/
structure Start (s : State ι N R) : Prop where
  single : SingleOwner s
  holder : s.holder = none
  idle : ∀ i, s.pc i = .idle

omit [DecidableEq ι] [DecidableEq N] in
theorem Start.inv (h : Start s) (strict : Bool) : Inv strict s where
  single := h.single
  lock i := .inl (h.idle i)
  knows i := by
    rw [h.idle i]
    trivial

/-- **The metadata never names two namespaces**, whatever the interleaving. -/
theorem single_owner {es : List (Event ι N R)} (hst : Start s₀)
    (hr : run step s₀ es = some s) : SingleOwner s := by
  have hinv : Inv false s :=
    run_invariant (fun _ _ _ h hs => Inv.step h (fun hstrict => by cases hstrict) hs)
      (hst.inv false) hr
  exact hinv.single

/-- **One owner, and only the owner writes.** In every state that good steps lead to,
the metadata names one namespace at most, and a step that adds or removes chunk rows
is made for the namespace that owns the collection at that moment, or nobody does. -/
theorem rows_by_owner {es : List (Event ι N R)} (hstart : Start s₀)
    (hgood : Along step Good s₀ es) (hrun : run step s₀ es = some s) :
    SingleOwner s ∧ ∀ e s', step s e = some s' → s'.rows ≠ s.rows →
      ∃ ns, caller s e = some ns ∧ (s.owner = none ∨ s.owner = some ns) := by
  have hinv : Inv true s :=
    run_invariant_along (fun _ _ _ hg h hs => Inv.step h (fun _ => hg) hs) hgood
      (hstart.inv true) hrun
  refine ⟨hinv.single, fun e s' hs hrw => ?_⟩
  obtain ⟨i, rfl⟩ := (rows_of_step hs).resolve_left hrw
  simp only [step] at hs
  split at hs
  next op hi =>
    obtain ⟨ho, hm⟩ := hinv.knows_of hi
    refine ⟨op.namesp, ?_, owner_of_ownedBy ho (hm rfl)⟩
    simp [caller, hi, Pc.namesp]
  next op hi =>
    obtain ⟨ho, hfr⟩ : OwnedBy s op.namesp ∧ Free s op.namesp := hinv.knows_of hi
    refine ⟨op.namesp, ?_, owner_of_ownedBy ho (.inr hfr)⟩
    simp [caller, hi, Pc.namesp]
  next => cases hs

end Runs

/-! ### Two namespaces and a row deleted in between -/

/-- An empty store; the default namespace is `0`. -/
def empty : State ℕ ℕ ℕ := ⟨[], none, none, fun _ => .idle⟩

theorem start_empty : Start empty where
  single m hm := by cases hm
  holder := rfl
  idle _ := rfl

instance Good.decidable [DecidableEq N] [Inhabited N] (s : State ι N R) (e : Event ι N R) :
    Decidable (Good s e) := by
  unfold Good
  split <;> infer_instance

/-- The namespace `1` ingests a first batch into a new collection. -/
def firstIngest : List (Event ℕ ℕ ℕ) :=
  [.create, .acquire 0 (.ingest 1 true [10]), .check 0, .countRows 0, .claim 0, .writeRows 0,
    .readMeta 0, .writeMeta 0, .dropLegacy 0, .release 0]

/-- The namespace `2` is refused, and the row of the namespace `1` is deleted while
nobody is about to write; the default namespace then owns the rows. -/
def thenRefused : List (Event ℕ ℕ ℕ) :=
  [.acquire 1 (.ingest 2 true [11]), .check 1, .release 1, .deleteMeta 1,
    .acquire 2 (.ingest 0 true [12]), .check 2, .claim 2]

theorem rows_by_owner_thenRefused :
    Along step Good empty (firstIngest ++ thenRefused) ∧
      ∃ s, run step empty (firstIngest ++ thenRefused) = some s ∧ SingleOwner s ∧
        s.rows = [10] ∧ s.owner = some 0 := by
  have hg : Along step Good empty (firstIngest ++ thenRefused) := by decide
  have hr : run step empty (firstIngest ++ thenRefused) = some _ := rfl
  exact ⟨hg, _, hr, (rows_by_owner start_empty hg hr).1, rfl, rfl⟩

/-- The second batch of the namespace `1` has passed its check when the row of its
collection is deleted. -/
def deletedInBetween : List (Event ℕ ℕ ℕ) :=
  [.acquire 1 (.ingest 1 true [11]), .check 1, .deleteMeta 1]

theorem single_owner_deletedInBetween :
    ∃ s, run step empty (firstIngest ++ deletedInBetween) = some s ∧ SingleOwner s :=
  have h : run step empty (firstIngest ++ deletedInBetween) = some _ := rfl
  ⟨_, h, single_owner start_empty h⟩

/-- **A chunk written for another namespace**: the row is added for the namespace `1`
to a table that is the default namespace's. -/
theorem written_for_another :
    ∃ s s', run step empty (firstIngest ++ deletedInBetween) = some s ∧
      step s (.writeRows 1) = some s' ∧ s'.rows ≠ s.rows ∧
      caller s (.writeRows 1) = some 1 ∧ s.owner = some 0 :=
  ⟨_, _, rfl, rfl, by decide, rfl, rfl⟩

end ArchonSearch.Store.Ownership
