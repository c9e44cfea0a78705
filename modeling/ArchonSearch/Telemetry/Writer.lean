import ArchonSearch.Lib.Run
import ArchonSearch.Py.Escape

/-!
# The telemetry writer

The drain task takes one entry after another, cuts its document ids down until its line fits
(`truncateToFit`), and appends the line to the file of the day. The descriptor is kept from one
entry to the next, and tagged with its date; another date makes the writer close it and open the
file of that date.

`_fd` and `_fd_date` are left as they are while the descriptor is being replaced. Where the `close`
or the `open` fails they go on naming a descriptor that is closed, and whose number the process may
give to another file; and a `write` that writes part of a line is not noticed. Where neither
happens the writer stays sound (`writer_sound_of_run`).

Every system call does what an outcome of the environment says; a call on a number that is not open
fails, unless another file has got the number.
-/

namespace ArchonSearch.Telemetry

open Lib Py Function List Option

/-! ### Entries -/

/-- A `TelemetryEntry`. -/
structure Entry where
  /-- The brace and the fields up to `result_count`, as `json.dumps` writes them. -/
  head : List ℕ
  resultDocIds : Option (List (List ℕ))
  truncated : Option Bool
  /-- The fields from `collections` on, with their commas, and the brace. -/
  tail : List ℕ

namespace Entry

def docIdsField : Option (List (List ℕ)) → List ℕ
  | none => []
  | some ids => codes ",\"result_doc_ids\":[" ++ (codes ",").intercalate
        (ids.map fun id => codes "\"" ++ id.flatMap (jsonChar true) ++ codes "\"") ++ codes "]"

def truncatedField : Option Bool → List ℕ
  | none => []
  | some true => codes ",\"truncated\":true"
  | some false => codes ",\"truncated\":false"

/-- `_serialize`, whose bytes are ASCII. -/
def serialize (e : Entry) : List ℕ :=
  e.head ++ docIdsField e.resultDocIds ++ truncatedField e.truncated ++ e.tail ++ codes "\n"

def Fits (limitBytes : ℕ) (e : Entry) : Prop := e.serialize.length ≤ limitBytes

instance (limitBytes : ℕ) (e : Entry) : Decidable (e.Fits limitBytes) :=
  inferInstanceAs (Decidable (_ ≤ _))

/-- `model_copy`, with a prefix of these document ids. -/
def cut (e : Entry) (ids : List (List ℕ)) (n : ℕ) : Entry :=
  { e with resultDocIds := some (ids.take n), truncated := some true }

end Entry

/-- The loop of `_truncate_to_fit`. -/
def longest (fits : ℕ → Bool) (lo hi : ℕ) : ℕ :=
  if lo < hi then
    let mid := (lo + hi + 1) / 2
    if fits mid then longest fits mid hi else longest fits lo (mid - 1)
  else lo
termination_by hi - lo

/-- `_truncate_to_fit`, which raises a `ValueError` or returns an entry. -/
def truncateToFit (limitBytes : ℕ) (e : Entry) : Option Entry :=
  if e.Fits limitBytes then some e
  else
    match e.resultDocIds with
    | none => none
    | some ids =>
      if (e.cut ids 0).Fits limitBytes then
        some (e.cut ids (longest (fun n => (e.cut ids n).Fits limitBytes) 0 ids.length))
      else none

/-- `MAX_ENTRY_BYTES`. -/
def maxEntryBytes : ℕ := 8192

/-! ### The writer -/

inductive Written where
  | all
  | short (bytes : ℕ)
  | failed

structure Outcomes where
  /-- `ensure_private_dir` returns. -/
  (dir fsync close : Bool)
  /-- The number that `os.open` returns. -/
  opened : Option ℕ
  write : Written
  reused : Bool

abbrev Date := String

structure State where
  dirEnsured : Bool := false
  fd : Option ℕ := none
  fdDate : Option Date := none
  stopped : Bool := false
  held : Option (ℕ × Date) := none
  files : Date → List ℕ := fun _ => []
  misused : Bool := false
  /-- History: the lines whose `_append` did not raise. -/
  appended : List (Date × List ℕ) := []

inductive Event where
  | entry : Date → Entry → Outcomes → Event
  /-- The end of `drain_and_stop`. -/
  | stop

namespace State

variable (s : State)

def Holds (fd : ℕ) : Prop := s.held.map Prod.fst = some fd

instance (fd : ℕ) : Decidable (s.Holds fd) := inferInstanceAs (Decidable (_ = _))

/-- `os.close`, which gives the number up even where it raises. -/
def close (fd : ℕ) : State :=
  if s.Holds fd then { s with held := none } else { s with misused := true }

/-- `os.write(self._fd, payload)`. -/
def write (date : Date) (payload : List ℕ) (os : Outcomes) : State :=
  match s.fd, s.held with
  | some fd, some (number, file) =>
    if number = fd then
      match os.write with
      | .all =>
        { s with
          files := update s.files file (s.files file ++ payload)
          appended := s.appended ++ [(date, payload)] }
      | .short bytes =>
        { s with
          files := update s.files file (s.files file ++ payload.take bytes)
          appended := s.appended ++ [(date, payload)] }
      | .failed => s
    else { s with misused := true }
  | some _, none =>
    if os.reused then { s with misused := true, appended := s.appended ++ [(date, payload)] }
    else { s with misused := true }
  -- `_fd` is `None` only where `_fd_date` is as well, or the writer was stopped
  | none, _ => s

/-- `os.open`, and what follows it. -/
def reopen (date : Date) (payload : List ℕ) (os : Outcomes) : State :=
  match os.opened with
  | none => s
  | some number =>
    { s with
      fd := some number, fdDate := some date, held := some (number, date) }.write date payload
      os

/-- `_append`, from the comparison of the dates on. -/
def rotate (date : Date) (payload : List ℕ) (os : Outcomes) : State :=
  if s.fdDate = some date then s.write date payload os
  else
    match s.fd with
    | none => s.reopen date payload os
    | some fd =>
      let outcome (ok : Bool) : Bool := if s.Holds fd then ok else os.reused
      if outcome os.fsync then
        if outcome os.close then (s.close fd).reopen date payload os else s.close fd
      else { s.close fd with fd := none, fdDate := none }

/-- `_append`. -/
def append (date : Date) (payload : List ℕ) (os : Outcomes) : State :=
  if s.dirEnsured then s.rotate date payload os
  else if os.dir then { s with dirEnsured := true }.rotate date payload os
  else s

end State

def step (s : State) : Event → Option State
  | .entry date e os =>
    if s.stopped then none
    else
      match truncateToFit maxEntryBytes e with
      | none => some s
      | some e => some (s.append date e.serialize os)
  | .stop =>
    if s.stopped then none
    else
      match s.fd with
      | none => some { s with stopped := true }
      | some fd => some { s.close fd with fd := none, stopped := true }

/-! ### Soundness -/

def Outcomes.Succeed (os : Outcomes) : Prop :=
  os.dir = true ∧ os.fsync = true ∧ os.close = true ∧ os.opened.isSome = true ∧ os.write = .all

def State.linesOf (s : State) (date : Date) : List (List ℕ) :=
  (s.appended.filter fun line => line.1 = date).map Prod.snd

/-- **The writer is sound**: its descriptor is that of its date, the files hold whole lines, and an
entry is written. -/
structure State.Sound (s : State) : Prop where
  /-- `_fd` is an open descriptor of the file of `_fd_date`. -/
  opened : ∀ fd, s.fd = some fd → ∃ date, s.fdDate = some date ∧ s.held = some (fd, date)
  clean : s.misused = false
  lines : ∀ date, s.files date = (s.linesOf date).flatten
  recovers : s.stopped = false → ∀ date payload os, os.Succeed →
    (s.append date payload os).appended = s.appended ++ [(date, payload)] ∧
      (s.append date payload os).files date = s.files date ++ payload

/-- What `_truncate_to_fit` is for: the entry as it is, or with the longest prefix that fits. -/
def Truncates (limitBytes : ℕ) (e : Entry) (result : Option Entry) : Prop :=
  if e.Fits limitBytes then result = some e
  else
    (∃ ids n, e.resultDocIds = some ids ∧ result = some (e.cut ids n) ∧
      (e.cut ids n).Fits limitBytes ∧
      ∀ m ≤ ids.length, (e.cut ids m).Fits limitBytes → m ≤ n) ∨
    result = none ∧ ∀ ids n, e.resultDocIds = some ids → ¬(e.cut ids n).Fits limitBytes

/-- No line is written in part; and where the descriptor of another date was synced, it is closed,
and the file of this date opened. -/
def KeepsOpen (s : State) : Event → Prop
  | .entry date _ os =>
    (∀ bytes, os.write ≠ .short bytes) ∧
      (s.fd.isSome = true → s.fdDate ≠ some date → os.fsync = true →
        os.close = true ∧ os.opened.isSome = true)
  | .stop => True

/-! ### Truncation -/

/-- The bisection finds the greatest number that passes the test, if smaller ones pass as well. -/
theorem longest_spec (fits : ℕ → Bool) (hmono : ∀ m n, m ≤ n → fits n = true → fits m = true)
    {lo hi : ℕ} (hlo : fits lo = true) (hle : lo ≤ hi) :
    fits (longest fits lo hi) = true ∧ ∀ m ≤ hi, fits m = true → m ≤ longest fits lo hi := by
  fun_induction longest fits lo hi with
  | case1 lo hi hlt mid hfits ih => exact ih hfits (by omega)
  | case2 lo hi hlt mid hfits ih =>
    obtain ⟨hfnd, hgreat⟩ := ih hlo (by omega)
    refine ⟨hfnd, fun m hm hfit => hgreat m ?_ hfit⟩
    by_contra hgt
    exact hfits (hmono mid m (by omega) hfit)
  | case3 lo hi hlt => exact ⟨hlo, fun m hm _ => by omega⟩

theorem length_intercalate_take_le {α : Type*} (sep : List α) (l : List (List α)) {m n : ℕ}
    (h : m ≤ n) : (sep.intercalate (l.take m)).length ≤ (sep.intercalate (l.take n)).length := by
  induction l generalizing m n with
  | nil => simp
  | cons a l ih =>
    cases m with
    | zero => simp
    | succ m =>
      obtain ⟨n, rfl⟩ : ∃ k, n = k + 1 := ⟨n - 1, by omega⟩
      have hmn : m ≤ n := Nat.le_of_succ_le_succ h
      rw [take_succ_cons, take_succ_cons]
      by_cases hm : l.take m = []
      · rw [hm, intercalate_singleton]
        by_cases hn : l.take n = []
        · exact Nat.le_of_eq (by rw [hn, intercalate_singleton])
        · rw [intercalate_cons_of_ne_nil hn, append_assoc, length_append]
          exact Nat.le_add_right _ _
      · have hn : l.take n ≠ [] := fun hn =>
          hm (prefix_nil.mp (hn ▸ take_prefix_take_left hmn))
        have hrs := ih hmn
        rw [intercalate_cons_of_ne_nil hm, intercalate_cons_of_ne_nil hn]
        simp only [length_append]
        omega

/-- An entry with fewer document ids is not longer. -/
theorem fits_cut_of_le {limitBytes : ℕ} (e : Entry) (ids : List (List ℕ)) {m n : ℕ} (h : m ≤ n)
    (hfits : (e.cut ids n).Fits limitBytes) : (e.cut ids m).Fits limitBytes := by
  have hlen := length_intercalate_take_le (codes ",")
    (ids.map fun id => codes "\"" ++ id.flatMap (jsonChar true) ++ codes "\"") h
  simp only [Entry.Fits, Entry.serialize, Entry.cut, Entry.docIdsField, length_append,
    map_take] at hfits ⊢
  omega

/-- **The longest prefix of the document ids that fits** is kept. -/
theorem truncates_truncateToFit (limitBytes : ℕ) (e : Entry) :
    Truncates limitBytes e (truncateToFit limitBytes e) := by
  unfold Truncates truncateToFit
  split_ifs with hfits
  · rfl
  rcases hids : e.resultDocIds with _ | ids
  · exact Or.inr ⟨rfl, nofun⟩
  dsimp only
  split_ifs with hemp
  · obtain ⟨hfnd, hgreat⟩ := longest_spec (fun n => (e.cut ids n).Fits limitBytes)
      (fun m n hle hn => decide_eq_true (fits_cut_of_le e ids hle (of_decide_eq_true hn)))
      (decide_eq_true hemp) (Nat.zero_le ids.length)
    exact Or.inl ⟨ids, _, rfl, rfl, of_decide_eq_true hfnd,
      fun m hm hm' => hgreat m hm (decide_eq_true hm')⟩
  · refine Or.inr ⟨rfl, ?_⟩
    rintro _ n ⟨⟩ hn
    exact hemp (fits_cut_of_le e ids (Nat.zero_le n) hn)

/-! ### Steps -/

/-- What holds between two entries: the descriptor is open, and the files hold the lines. -/
structure Inv (s : State) : Prop where
  opened : ∀ fd, s.fd = some fd → ∃ date, s.fdDate = some date ∧ s.held = some (fd, date)
  untagged : s.stopped = false → s.fd = none → s.fdDate = none
  clean : s.misused = false
  lines : ∀ date, s.files date = (s.linesOf date).flatten

variable {s t : State} {date : Date} {payload : List ℕ} {os : Outcomes} {es : List Event}

namespace Inv

theorem init : Inv {} := ⟨nofun, fun _ _ => rfl, rfl, fun _ => rfl⟩

/-- In a state that is in order a write goes to the file of its date. -/
theorem write_eq (h : Inv s) (hfd : s.fd ≠ none) (hdate : s.fdDate = some date) :
    s.write date payload os =
      match os.write with
      | .all =>
        { s with
          files := update s.files date (s.files date ++ payload)
          appended := s.appended ++ [(date, payload)] }
      | .short bytes =>
        { s with
          files := update s.files date (s.files date ++ payload.take bytes)
          appended := s.appended ++ [(date, payload)] }
      | .failed => s := by
  obtain ⟨fd, hfd⟩ := ne_none_iff_exists'.mp hfd
  obtain ⟨day, hday, hh⟩ := h.opened fd hfd
  obtain rfl := some.inj (hday.symm.trans hdate)
  unfold State.write
  simp [hfd, hh]

theorem write (h : Inv s) (hfd : s.fd ≠ none) (hdate : s.fdDate = some date)
    (hshort : ∀ bytes, os.write ≠ .short bytes) : Inv (s.write date payload os) := by
  rw [h.write_eq hfd hdate]
  split
  · refine ⟨h.opened, h.untagged, h.clean, fun day => ?_⟩
    by_cases hday : day = date
    · subst hday
      simp [State.linesOf, h.lines]
    · simp [State.linesOf, hday, Ne.symm hday, h.lines]
  · next bytes hbs => exact absurd hbs (hshort bytes)
  · exact h

def Ready (s t : State) (date : Date) (payload : List ℕ) (os : Outcomes) : Prop :=
  ∃ s', Inv s' ∧ s'.appended = s.appended ∧ s'.files = s.files ∧
    (t = s' ∧ ¬os.Succeed ∨ s'.fd ≠ none ∧ s'.fdDate = some date ∧ t = s'.write date payload os)

theorem reopen (hclean : s.misused = false)
    (hlns : ∀ date, s.files date = (s.linesOf date).flatten) {number : ℕ}
    (hopened : os.opened = some number) :
    Ready s (s.reopen date payload os) date payload os := by
  refine ⟨{ s with fd := some number, fdDate := some date, held := some (number, date) },
    ⟨?_, nofun, hclean, hlns⟩, rfl, rfl, Or.inr ⟨nofun, rfl, ?_⟩⟩
  · rintro _ ⟨⟩
    exact ⟨date, rfl, rfl⟩
  · rw [State.reopen, hopened]

theorem rotate (h : Inv s) (hr : s.stopped = false)
    (hkp : s.fd.isSome = true → s.fdDate ≠ some date → os.fsync = true →
      os.close = true ∧ os.opened.isSome = true) :
    Ready s (s.rotate date payload os) date payload os := by
  unfold State.rotate
  split_ifs with hdate
  · have hfd : s.fd ≠ none := fun hn => by
      cases hdate.symm.trans (h.untagged hr hn)
    exact ⟨s, h, rfl, rfl, Or.inr ⟨hfd, hdate, rfl⟩⟩
  split
  · next hfd =>
    rcases hopened : os.opened with _ | number
    · refine ⟨s, h, rfl, rfl, Or.inl ⟨by rw [State.reopen, hopened], fun hsuc => ?_⟩⟩
      simpa [hopened] using hsuc.2.2.2.1
    · exact reopen h.clean h.lines hopened
  · next fd hfd =>
    obtain ⟨day, -, hh⟩ := h.opened fd hfd
    have hho : s.Holds fd := by rw [State.Holds, hh]; rfl
    have hclose : s.close fd = { s with held := none } := if_pos hho
    simp only [if_pos hho, hclose]
    split_ifs with hsyn hcls
    · obtain ⟨-, hopened⟩ := hkp (by rw [hfd]; rfl) hdate hsyn
      obtain ⟨number, hopened⟩ := isSome_iff_exists.mp hopened
      exact reopen (s := { s with held := none }) h.clean h.lines hopened
    · exact absurd (hkp (by rw [hfd]; rfl) hdate hsyn).1 hcls
    · exact ⟨{ s with held := none, fd := none, fdDate := none },
        ⟨nofun, fun _ _ => rfl, h.clean, h.lines⟩, rfl, rfl,
        Or.inl ⟨rfl, fun hsuc => hsyn hsuc.2.1⟩⟩

theorem append (payload : List ℕ) (h : Inv s) (hr : s.stopped = false)
    (hkp : s.fd.isSome = true → s.fdDate ≠ some date → os.fsync = true →
      os.close = true ∧ os.opened.isSome = true) :
    Ready s (s.append date payload os) date payload os := by
  unfold State.append
  split_ifs with hens hdir
  · exact h.rotate hr hkp
  · have h' : Inv { s with dirEnsured := true } := ⟨h.opened, h.untagged, h.clean, h.lines⟩
    exact h'.rotate hr hkp
  · exact ⟨s, h, rfl, rfl, Or.inl ⟨rfl, fun hsuc => hdir hsuc.1⟩⟩

/-- **Every step that keeps the descriptor open leaves the writer in order.** -/
theorem step {e : Event} (h : Inv s) (hkp : KeepsOpen s e) (hs : step s e = some t) :
    Inv t := by
  cases e with
  | entry date e os =>
    simp only [Telemetry.step] at hs
    split_ifs at hs with hstop
    split at hs
    · cases hs
      exact h
    · cases hs
      obtain ⟨s', hs', -, -, ⟨heq, -⟩ | ⟨hfd, hdate, heq⟩⟩ :=
        h.append _ (Bool.eq_false_iff.mpr hstop) hkp.2
      · rwa [heq]
      · rw [heq]
        exact hs'.write hfd hdate hkp.1
  | stop =>
    simp only [Telemetry.step] at hs
    split_ifs at hs
    split at hs
    · next hfd =>
      cases hs
      exact ⟨h.opened, nofun, h.clean, h.lines⟩
    · next fd hfd =>
      cases hs
      obtain ⟨day, -, hh⟩ := h.opened fd hfd
      rw [State.close, if_pos (show s.Holds fd by rw [State.Holds, hh]; rfl)]
      exact ⟨nofun, nofun, h.clean, h.lines⟩

theorem sound (h : Inv s) : s.Sound where
  opened := h.opened
  clean := h.clean
  lines := h.lines
  recovers hr date payload os hsuc := by
    obtain ⟨s', hs', happ, hfs, ⟨-, hfa⟩ | ⟨hfd, hdate, heq⟩⟩ :=
      h.append payload hr fun _ _ _ => ⟨hsuc.2.2.1, hsuc.2.2.2.1⟩
    · exact absurd hsuc hfa
    · rw [heq, hs'.write_eq hfd hdate, hsuc.2.2.2.2]
      simp [happ, hfs]

end Inv

/-- **The writer is sound in every run that keeps the descriptor open**, and document ids are always
cut to the longest prefix that fits. -/
theorem writer_sound_of_run (hkeeps : Along step KeepsOpen {} es) (hrun : run step {} es = some s) :
    s.Sound ∧ ∀ e, Truncates maxEntryBytes e (truncateToFit maxEntryBytes e) :=
  ⟨(run_invariant_along (fun _ _ _ hC h hs => h.step hC hs) hkeeps Inv.init hrun).sound,
    truncates_truncateToFit maxEntryBytes⟩

def sampleEntry : Entry := ⟨codes "\x7b\"query_id\":\"q\"", none, none, codes "\x7d"⟩

def allGood (number : ℕ) : Outcomes := ⟨true, true, true, some number, .all, false⟩

def clockBack : List Event :=
  [.entry "2026-01-01" sampleEntry (allGood 3), .entry "2026-01-02" sampleEntry (allGood 4),
    .entry "2026-01-01" sampleEntry { allGood 5 with fsync := false },
    .entry "2026-01-01" sampleEntry (allGood 3), .stop]

theorem writer_sound_of_run_clockBack : ∃ s, run step {} clockBack = some s ∧ s.Sound := by
  have hkp : Along step KeepsOpen {} clockBack := by
    simp [clockBack, Along, KeepsOpen, allGood]
  exact ⟨_, rfl, (writer_sound_of_run hkp rfl).1⟩

/-- **The writer goes on with a descriptor that is closed**: the file of the second day cannot be
opened. -/
theorem stale_of_failed_open : ¬∀ es s, run step {} es = some s → s.Sound := by
  intro h
  have hsm : (run step {} [.entry "2026-01-01" sampleEntry (allGood 3),
      .entry "2026-01-02" sampleEntry { allGood 4 with opened := none }]).map
        (fun s => (s.fd, s.held)) = some (some 3, none) := by decide +kernel
  obtain ⟨s, hs, heq⟩ := map_eq_some_iff.mp hsm
  obtain ⟨hfd, hh⟩ := Prod.mk.inj heq
  obtain ⟨_, -, hopen⟩ := (h _ s hs).opened 3 hfd
  cases hh.symm.trans hopen

end ArchonSearch.Telemetry
