import ArchonSearch.Import.Task
import Mathlib.Data.List.DropRight

/-!
# The lines of an archive

`_bounded_lines` reads `documents.jsonl` in steps of at most one byte more than the limit of a
line. What it yields are the lines, those that are too long as `None` (`boundedLines_reads`), and
an `iter_docs` that passes over the lines a run has consumed yields the documents that run had
still to come (`archive_resume`).
-/

namespace ArchonSearch.Import

open List

/-! ### Bounded lines -/

def newline : UInt8 := 10

/-- `readline(n)`: the first line, up to this many bytes of it, and what is left of the file. -/
def readline : ℕ → List UInt8 → List UInt8 × List UInt8
  | 0, s => ([], s)
  | _ + 1, [] => ([], [])
  | n + 1, b :: s => if b = newline then ([b], s) else (b :: (readline n s).1, (readline n s).2)

theorem readline_append (n : ℕ) (s : List UInt8) : (readline n s).1 ++ (readline n s).2 = s := by
  induction n generalizing s with
  | zero => rfl
  | succ n ih =>
    rcases s with _ | ⟨b, s⟩
    · rfl
    · rw [readline]
      split
      · rfl
      · exact congrArg (b :: ·) (ih s)

theorem length_readline_le (n : ℕ) (s : List UInt8) : (readline n s).1.length ≤ n := by
  induction n generalizing s with
  | zero => exact le_rfl
  | succ n ih =>
    rcases s with _ | ⟨b, s⟩
    · exact Nat.zero_le _
    · rw [readline]
      split
      · exact Nat.succ_le_succ (Nat.zero_le n)
      · exact Nat.succ_le_succ (ih s)

/-- What the calls of `readline(n)` return, up to the one that returns nothing. -/
def reads (n : ℕ) (s : List UInt8) : List (List UInt8) :=
  if h : (readline n s).1 = [] then []
  else
    have : (readline n s).2.length < s.length := by
      have hlen := congrArg length (readline_append n s)
      have hpos := length_pos_of_ne_nil h
      rw [length_append] at hlen
      omega
    (readline n s).1 :: reads n (readline n s).2
  termination_by s.length

/-- `_bounded_lines`, over what its calls of `readline` return; whether it is in its inner loop. -/
def boundedLines (limit : ℕ) : (overLong : Bool) → List (List UInt8) → List (Option (List UInt8))
  | false, [] => []
  | true, [] => [none]
  | false, chunk :: chunks =>
    if chunk.length ≤ limit ∨ chunk.getLast? = some newline then
      some chunk :: boundedLines limit false chunks
    else boundedLines limit true chunks
  | true, chunk :: chunks =>
    if chunk.getLast? = some newline then none :: boundedLines limit false chunks
    else boundedLines limit true chunks

/-- **The lines of a file**, each with its newline. -/
def lines : List UInt8 → List (List UInt8)
  | [] => []
  | b :: s =>
    if b = newline then [b] :: lines s
    else
      match lines s with
      | [] => [[b]]
      | line :: rest => (b :: line) :: rest

variable {c s : List UInt8} {n limit : ℕ}

/-- A file that is not empty begins with a line: the last one, or one with a newline. -/
theorem lines_cases (hne : s ≠ []) : ∃ c, newline ∉ c ∧
    (s = c ∧ lines s = [c] ∨ ∃ rest, s = c ++ newline :: rest ∧
      lines s = (c ++ [newline]) :: lines rest) := by
  induction s with
  | nil => exact absurd rfl hne
  | cons b s ih =>
    rw [lines]
    by_cases hb : b = newline
    · refine ⟨[], not_mem_nil, Or.inr ⟨s, ?_, ?_⟩⟩
      · rw [hb, nil_append]
      · rw [if_pos hb, hb, nil_append]
    · rw [if_neg hb]
      by_cases hs : s = []
      · subst hs
        exact ⟨[b], by simpa using Ne.symm hb, Or.inl ⟨rfl, rfl⟩⟩
      · obtain ⟨c, hc, ⟨rfl, hlines⟩ | ⟨rest, rfl, hlines⟩⟩ := ih hs
        · exact ⟨b :: s, by simp [Ne.symm hb, hc], Or.inl ⟨rfl, by rw [hlines]⟩⟩
        · exact ⟨b :: c, by simp [Ne.symm hb, hc], Or.inr ⟨rest, rfl, by rw [hlines]; rfl⟩⟩

theorem readline_of_le (hc : newline ∉ c) (h : n ≤ c.length) (t : List UInt8) :
    readline n (c ++ t) = (c.take n, c.drop n ++ t) := by
  induction c generalizing n with
  | nil => obtain rfl := Nat.le_zero.mp h; rfl
  | cons b c ih =>
    obtain ⟨hb, hc⟩ := not_or.mp (mem_cons.not.mp hc)
    rcases n with _ | n
    · rfl
    · rw [cons_append, readline, if_neg (Ne.symm hb), ih hc (Nat.le_of_succ_le_succ h)]
      rfl

theorem readline_of_lt (hc : newline ∉ c) (h : c.length < n) (t : List UInt8) :
    readline n (c ++ newline :: t) = (c ++ [newline], t) ∧ readline n c = (c, []) := by
  induction c generalizing n with
  | nil =>
    obtain ⟨n, rfl⟩ := Nat.exists_eq_add_of_lt h
    exact ⟨rfl, rfl⟩
  | cons b c ih =>
    obtain ⟨hb, hc⟩ := not_or.mp (mem_cons.not.mp hc)
    rcases n with _ | n
    · exact absurd h (Nat.not_lt_zero _)
    · obtain ⟨hline, hl⟩ := ih hc (Nat.lt_of_succ_lt_succ h)
      rw [cons_append, readline, readline, if_neg (Ne.symm hb), if_neg (Ne.symm hb), hline, hl]
      exact ⟨rfl, rfl⟩

theorem reads_eq_cons {chunk rest : List UInt8} (h : readline n s = (chunk, rest))
    (hne : chunk ≠ []) : reads n s = chunk :: reads n rest := by
  rw [reads, dif_neg (by rwa [h])]
  simp only [h]

theorem reads_nil : reads n [] = [] := by
  cases n <;> simp [reads, readline]

theorem getLast?_ne (hc : newline ∉ c) : c.getLast? ≠ some newline :=
  fun h => hc (mem_of_getLast? h)

/-- The whole file is read, in steps of at most so many bytes. -/
theorem reads_spec (limit : ℕ) (s : List UInt8) :
    (reads (limit + 1) s).flatten = s ∧
      ∀ chunk ∈ reads (limit + 1) s, chunk.length ≤ limit + 1 := by
  fun_induction reads (limit + 1) s with
  | case1 s h =>
    rcases s with _ | ⟨b, s⟩
    · exact ⟨rfl, nofun⟩
    · rw [readline] at h
      split at h <;> cases h
  | case2 s h hlt ih =>
    refine ⟨?_, forall_mem_cons.mpr ⟨length_readline_le (limit + 1) s, ih.2⟩⟩
    rw [flatten_cons, ih.1, readline_append]

/-- The inner loop drops what is left of a line that is too long. -/
theorem boundedLines_true (limit : ℕ) (c : List UInt8) (hc : newline ∉ c) (rest : List UInt8) :
    boundedLines limit true (reads (limit + 1) c) = [none] ∧
      boundedLines limit true (reads (limit + 1) (c ++ newline :: rest)) =
        none :: boundedLines limit false (reads (limit + 1) rest) := by
  by_cases hshort : c.length < limit + 1
  · obtain ⟨hline, hl⟩ := readline_of_lt hc hshort rest
    rw [reads_eq_cons hline (by simp), boundedLines, if_pos (by simp)]
    refine ⟨?_, rfl⟩
    by_cases hnil : c = []
    · rw [hnil, reads_nil, boundedLines]
    · rw [reads_eq_cons hl hnil, boundedLines, if_neg (getLast?_ne hc), reads_nil, boundedLines]
  · have hlong : limit + 1 ≤ c.length := not_lt.mp hshort
    have hne : c.take (limit + 1) ≠ [] := ne_nil_of_length_pos (by rw [length_take]; omega)
    have htake : (c.take (limit + 1)).getLast? ≠ some newline :=
      getLast?_ne fun h => hc (mem_of_mem_take h)
    obtain ⟨hl, hline⟩ := boundedLines_true limit (c.drop (limit + 1))
      (fun h => hc (mem_of_mem_drop h)) rest
    have hrd := readline_of_le hc hlong
    constructor
    · have hrd := hrd []
      rw [append_nil, append_nil] at hrd
      rw [reads_eq_cons hrd hne, boundedLines, if_neg htake, hl]
    · rw [reads_eq_cons (hrd _) hne, boundedLines, if_neg htake, hline]
  termination_by c.length
  decreasing_by rw [length_drop]; omega

/-- `line.rstrip(b"\n")`. -/
def rstrip (line : List UInt8) : List UInt8 := line.rdropWhile fun b => b = newline

theorem rstrip_eq (hc : newline ∉ c) : rstrip c = c ∧ rstrip (c ++ [newline]) = c := by
  have heq : rstrip c = c := rdropWhile_eq_self_iff.mpr fun hne h =>
    hc (of_decide_eq_true h ▸ getLast_mem hne)
  exact ⟨heq, (rdropWhile_concat_pos _ _ _ rfl).trans heq⟩

/-- **One item for each line**: the line, or `None` if its content is over the limit. -/
theorem boundedLines_reads (limit : ℕ) (s : List UInt8) :
    boundedLines limit false (reads (limit + 1) s) =
      (lines s).map fun line => if (rstrip line).length ≤ limit then some line else none := by
  by_cases hs : s = []
  · rw [hs, reads_nil]
    rfl
  obtain ⟨c, hc, hcases⟩ := lines_cases hs
  obtain ⟨hl, hline⟩ := rstrip_eq hc
  by_cases hshort : c.length < limit + 1
  · have hle := Nat.le_of_lt_succ hshort
    rcases hcases with ⟨heq, hlines⟩ | ⟨rest, heq, hlines⟩
    · rw [hlines, heq, reads_eq_cons (readline_of_lt hc hshort []).2 (heq ▸ hs), boundedLines,
        reads_nil, if_pos (Or.inl hle), map_singleton, hl, if_pos hle]
      rfl
    · rw [hlines, map_cons, heq, reads_eq_cons (readline_of_lt hc hshort rest).1 (by simp),
        boundedLines, if_pos (Or.inr (by simp)), hline, if_pos hle, boundedLines_reads limit rest]
  · -- the first step is not the end of the line, and the inner loop drops the others
    have hlong : limit + 1 ≤ c.length := not_lt.mp hshort
    have hfull : (c.take (limit + 1)).length = limit + 1 := length_take_of_le hlong
    have hover : ¬((c.take (limit + 1)).length ≤ limit ∨
        (c.take (limit + 1)).getLast? = some newline) :=
      not_or.mpr ⟨by omega, getLast?_ne fun h => hc (mem_of_mem_take h)⟩
    have hne : c.take (limit + 1) ≠ [] := ne_nil_of_length_pos (by omega)
    have hrd := readline_of_le hc hlong
    have hd := boundedLines_true limit (c.drop (limit + 1)) fun h => hc (mem_of_mem_drop h)
    rcases hcases with ⟨heq, hlines⟩ | ⟨rest, heq, hlines⟩
    · have hrd := hrd []
      rw [append_nil, append_nil] at hrd
      rw [hlines, heq, reads_eq_cons hrd hne, boundedLines, if_neg hover, (hd []).1,
        map_singleton, hl, if_neg (by omega)]
    · rw [hlines, map_cons, heq, reads_eq_cons (hrd _) hne, boundedLines, if_neg hover,
        (hd rest).2, hline, if_neg (by omega), boundedLines_reads limit rest]
  termination_by s.length
  decreasing_by all_goals rw [heq, length_append, length_cons]; omega

/-! ### The documents still to come -/

variable {δ : Type*}

/-- A line that `_bounded_lines` yields, with what `json.loads` makes of one that is not empty. -/
def toLine (parse : List UInt8 → Except CorruptReason δ) : Option (List UInt8) → Line δ
  | none => .text (.error .tooLarge)
  | some raw => if rstrip raw = [] then .empty else .text (parse (rstrip raw))

/-- The lines of `documents.jsonl`. -/
def archiveLines (parse : List UInt8 → Except CorruptReason δ) (limit : ℕ) (s : List UInt8) :
    List (Line δ) :=
  (boundedLines limit false (reads (limit + 1) s)).map (toLine parse)

/-- The documents that are yielded, with their line numbers. -/
def Docs.documents : Docs δ → List (δ × ℕ)
  | .done _ | .raised _ => []
  | .yielded d lineNumber _ rest => (d, lineNumber) :: rest.documents

/-- Where a run can stop: how many documents it has then read, `skipped_lines`, and the documents
still to come. -/
def Docs.stops : (count : ℕ) → Docs δ → List (ℕ × ℕ × List (δ × ℕ))
  | count, .done skippedLines => [(count, skippedLines, [])]
  | _, .raised _ => []
  | count, .yielded _ _ skippedLines rest =>
    (count + 1, skippedLines, rest.documents) :: rest.stops (count + 1)

/-- The lines that are not empty, with their numbers. -/
def numbered : (lineno : ℕ) → List (Line δ) → List (ℕ × Except CorruptReason δ)
  | _, [] => []
  | lineno, .empty :: rest => numbered (lineno + 1) rest
  | lineno, .text parsed :: rest => (lineno + 1, parsed) :: numbered (lineno + 1) rest

def document? (line : ℕ × Except CorruptReason δ) : Option (δ × ℕ) :=
  line.2.toOption.map (·, line.1)

theorem documents_iterLines (all : List (Line δ)) (lineno skip skippedLines : ℕ) :
    (iterLines .skip lineno skip skippedLines all).documents =
      ((numbered lineno all).drop skip).filterMap document? := by
  induction all generalizing lineno skip skippedLines with
  | nil => simp [iterLines, Docs.documents, numbered]
  | cons line all ih =>
    rcases line with _ | parsed
    · exact ih (lineno + 1) skip skippedLines
    · rcases skip with _ | skip
      · rcases parsed with reason | d
        · exact ih (lineno + 1) 0 (skippedLines + 1)
        · exact congrArg ((d, lineno + 1) :: ·) (ih (lineno + 1) 0 skippedLines)
      · exact ih (lineno + 1) skip skippedLines

/-- What is still to come comes after as many lines as are passed over, yielded and skipped. -/
theorem stops_iterLines (all : List (Line δ)) (lineno skip skippedLines count : ℕ) :
    ∀ stop ∈ (iterLines .skip lineno skip skippedLines all).stops count,
      ∃ n, skip + stop.1 + stop.2.1 = n + count + skippedLines ∧
        stop.2.2 = ((numbered lineno all).drop n).filterMap document? := by
  induction all generalizing lineno skip skippedLines count with
  | nil =>
    intro stop hstop
    obtain rfl := mem_singleton.mp hstop
    exact ⟨skip, rfl, by simp [numbered]⟩
  | cons line all ih =>
    rcases line with _ | parsed
    · exact ih (lineno + 1) skip skippedLines count
    rcases skip with _ | skip
    · rcases parsed with reason | d
      · intro stop hstop
        obtain ⟨n, hn, hrs⟩ := ih (lineno + 1) 0 (skippedLines + 1) count stop hstop
        exact ⟨n + 1, by omega, hrs⟩
      · intro stop hstop
        rcases mem_cons.mp hstop with rfl | hstop
        · refine ⟨1, ?_, documents_iterLines all (lineno + 1) 0 skippedLines⟩
          show 0 + (count + 1) + skippedLines = 1 + count + skippedLines
          omega
        · obtain ⟨n, hn, hrs⟩ := ih (lineno + 1) 0 skippedLines (count + 1) stop hstop
          exact ⟨n + 1, by omega, hrs⟩
    · intro stop hstop
      obtain ⟨n, hn, hrs⟩ := ih (lineno + 1) skip skippedLines count stop hstop
      exact ⟨n + 1, by omega, hrs⟩

theorem pairwise_numbered (all : List (Line δ)) (lineno : ℕ) :
    (∀ line ∈ numbered lineno all, lineno < line.1) ∧
      (numbered lineno all).Pairwise fun line line' => line.1 < line'.1 := by
  induction all generalizing lineno with
  | nil => exact ⟨nofun, Pairwise.nil⟩
  | cons line all ih =>
    obtain ⟨hlt, hpr⟩ := ih (lineno + 1)
    have hlt' : ∀ line ∈ numbered (lineno + 1) all, lineno < line.1 :=
      fun line hline => Nat.lt_of_succ_lt (hlt line hline)
    rcases line with _ | parsed
    · exact ⟨hlt', hpr⟩
    · exact ⟨forall_mem_cons.mpr ⟨Nat.lt_succ_self lineno, hlt'⟩, pairwise_cons.mpr ⟨hlt, hpr⟩⟩

/-- The documents after so many lines are those of a later line than each of these. -/
theorem filterMap_drop_numbered (all : List (Line δ)) (k : ℕ) :
    ((numbered 0 all).drop k).filterMap document? =
      ((numbered 0 all).filterMap document?).filter fun d =>
        ∀ line ∈ (numbered 0 all).take k, line.1 < d.2 := by
  have hpr := (pairwise_numbered all 0).2
  generalize numbered 0 all = entries at *
  rw [← take_append_drop k entries] at hpr
  obtain ⟨-, -, hlt⟩ := pairwise_append.mp hpr
  have hline {line : ℕ × Except CorruptReason δ} {d : δ × ℕ} (h : document? line = some d) :
      d.2 = line.1 := by
    obtain ⟨-, -, rfl⟩ := Option.map_eq_some_iff.mp h
    rfl
  have hbefore : (((entries.take k).filterMap document?).filter fun d =>
      ∀ line ∈ entries.take k, line.1 < d.2) = [] := by
    refine filter_eq_nil_iff.mpr fun d hd h => ?_
    obtain ⟨line, hm, hd⟩ := mem_filterMap.mp hd
    exact (of_decide_eq_true h line hm).ne (hline hd).symm
  have hafter : (((entries.drop k).filterMap document?).filter fun d =>
      ∀ line ∈ entries.take k, line.1 < d.2) = (entries.drop k).filterMap document? := by
    refine filter_eq_self.mpr fun d hd => decide_eq_true fun line hm => ?_
    obtain ⟨line', hm', hd⟩ := mem_filterMap.mp hd
    exact (hlt line hm line' hm').trans_eq (hline hd).symm
  have hsplit : entries.filterMap document? =
      (entries.take k).filterMap document? ++ (entries.drop k).filterMap document? := by
    rw [← filterMap_append, take_append_drop]
  rw [hsplit, filter_append, hbefore, hafter, nil_append]

/-- **The lines of an archive, and where a run goes on**: there is one item for each line, none is
read in larger steps, and the documents after the `skip` first lines that are not empty are the
ones yielded, so that those still to come are the ones after the lines a run has consumed. -/
theorem archive_resume (parse : List UInt8 → Except CorruptReason δ) (limit : ℕ)
    (s : List UInt8) :
    (reads (limit + 1) s).flatten = s ∧ (∀ chunk ∈ reads (limit + 1) s, chunk.length ≤ limit + 1) ∧
      boundedLines limit false (reads (limit + 1) s) =
        (lines s).map (fun line => if (rstrip line).length ≤ limit then some line else none) ∧
      (∀ k, (iterDocs (archiveLines parse limit s) k .skip).documents =
        (iterDocs (archiveLines parse limit s) 0 .skip).documents.filter fun d =>
          ∀ line ∈ (numbered 0 (archiveLines parse limit s)).take k, line.1 < d.2) ∧
      ∀ c : ImportCounters, ∀ stop ∈
          (iterDocs (archiveLines parse limit s) c.resume.skip .skip).stops 0,
        c.stored + c.skipped = stop.1 →
          (iterDocs (archiveLines parse limit s) (c.linesConsumed stop.2.1) .skip).documents =
            stop.2.2 := by
  obtain ⟨hflat, hsteps⟩ := reads_spec limit s
  refine ⟨hflat, hsteps, boundedLines_reads limit s, fun k => ?_, fun c stop hstop hcount => ?_⟩
  · rw [iterDocs, iterDocs, documents_iterLines, documents_iterLines, drop_zero]
    exact filterMap_drop_numbered _ k
  · obtain ⟨n, hn, hrs⟩ := stops_iterLines _ 0 c.resume.skip 0 0 stop hstop
    rw [iterDocs, documents_iterLines, hrs, show n = c.linesConsumed stop.2.1 by
      rw [ImportCounters.linesConsumed]
      omega]

/-- Of the lines `[1]` is no JSON. -/
def sampleParse (raw : List UInt8) : Except CorruptReason (List UInt8) :=
  if raw = [1] then .error .notJson else .ok raw

/-- The second line is too long, the third one is empty, and the fourth one is corrupt. -/
def sampleArchive : List UInt8 := [5, 10, 7, 7, 7, 10, 10, 1, 10, 6, 10, 8]

/-- A run has stored the first document and skipped the second one, and passed over the two lines
between them. -/
def stoppedCounters : ImportCounters where
  resume := freshStart
  stored := 1
  skipped := 1

theorem archive_resume_sampleArchive : stoppedCounters.linesConsumed 2 = 4 ∧
    (iterDocs (archiveLines sampleParse 2 sampleArchive) (stoppedCounters.linesConsumed 2)
      .skip).documents = [([8], 6)] := by
  obtain ⟨-, -, -, -, hresume⟩ := archive_resume sampleParse 2 sampleArchive
  refine ⟨rfl, hresume stoppedCounters (2, 2, [([8], 6)]) ?_ rfl⟩
  rw [archiveLines, boundedLines_reads]
  decide +kernel

end ArchonSearch.Import
