import Mathlib.Data.List.Basic

/-!
# Durable atomic writes

`_durable_io.atomic_write_json` and `atomic_write_bytes` write a temporary file,
`os.replace` it over the target and fsync the directory. One call has three
outcomes, and the one between success and failure is the reason for most of the
recovery code above it: the directory fsync can fail *after* the rename, raising
`DurabilityUnconfirmedError` although the new content is there to be read.
-/

namespace ArchonSearch

inductive WriteOutcome where
  | written
  /-- The call raised before `os.replace`: the target keeps its old content. -/
  | failedBeforeReplace
  /-- The call raised after `os.replace` (`DurabilityUnconfirmedError`): the
  target holds the new content. -/
  | failedAfterReplace

namespace WriteOutcome

variable {α : Type*}

def raises : WriteOutcome → Bool
  | written => false
  | _ => true

def publish (outcome : WriteOutcome) (old new : α) : α :=
  match outcome with
  | failedBeforeReplace => old
  | _ => new

@[simp] theorem publish_written (old new : α) : written.publish old new = new := rfl

@[simp] theorem publish_failedBeforeReplace (old new : α) :
    failedBeforeReplace.publish old new = old := rfl

@[simp] theorem publish_failedAfterReplace (old new : α) :
    failedAfterReplace.publish old new = new := rfl

theorem publish_of_not_raises {outcome : WriteOutcome} (h : outcome.raises = false)
    (old new : α) : outcome.publish old new = new := by
  cases outcome <;> first | rfl | exact absurd h (by decide)

/-- The target holds the old content or the new one. -/
theorem publish_eq_or (outcome : WriteOutcome) (old new : α) :
    outcome.publish old new = old ∨ outcome.publish old new = new := by
  cases outcome <;> simp

end WriteOutcome

end ArchonSearch
