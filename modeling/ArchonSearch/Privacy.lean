import ArchonSearch.Lib.Mask
import ArchonSearch.LlmClient.Fit
import ArchonSearch.Py.Escape

/-!
# Masking the echoes of a query

The failure text of a provider may repeat the query that it was sent, in one of several encodings.
`mask_query_echo` replaces every form of the query by a marker, one form after another, and then
every beginning of a form with which the text was cut off.

As long as no form has a square bracket or is in the word of the marker, the forms cannot get into
each other's way (`Maskable`): what is logged has no form in it, and does not end, before the `...`
of a cut, in the beginning of one (`masked`). The order of forms of one length is that of a Python
set, hence any.
-/

namespace ArchonSearch.Privacy

open Lib LlmClient Py List Option

/-! ### Forms -/

def unicodeEscape (text : Text) : Text := text.flatMap (escapeChar (within 0x20 0x7e))

/-- `repr(text)[1:-1]`; `isPrintable` is `str.isprintable`, from the tables of the interpreter. -/
def reprInside (isPrintable : ℕ → Bool) (text : Text) : Text :=
  let quote := if text.contains 0x27 && !text.contains 0x22 then 0x22 else 0x27
  text.flatMap fun c => if c = quote then [0x5c, c] else escapeChar isPrintable c

/-- `" ".join(text.split())`. -/
def collapse (text : Text) : Text :=
  [0x20].intercalate ((text.splitOnP isSpaceCode).filter fun word => !word.isEmpty)

/-- `_QUERY_MASK`. -/
def queryMask : Text := bracketed 0x5b (codes "query") 0x5d

/-- `_CUT_MARKER`. -/
def cutMarker : Text := codes "..."

/-- `_MIN_CUT_ECHO_CHARS`. -/
def minCutEchoChars : ℕ := 12

/-- `_MAX_ECHO_CHARS`. -/
def maxEchoChars : ℕ := 2000

/-- What is put into the set of `_echo_forms`. -/
def encodings (isPrintable : ℕ → Bool) (query : Text) (cutChars : ℕ) : List Text :=
  let sent := query.take (min cutChars maxEchoChars)
  [sent, collapse sent].flatMap fun base =>
    [base, base.flatMap (jsonChar true), base.flatMap (jsonChar false), unicodeEscape base,
      reprInside isPrintable base].flatMap fun encoded => [encoded, collapse encoded]

/-- These are the forms that `_echo_forms` returns, in one of the orders that it may choose. -/
structure EchoForms (isPrintable : ℕ → Bool) (query : Text) (cutChars : ℕ) (forms : List Text) :
    Prop where
  nodup : forms.Nodup
  mem_iff : ∀ form, form ∈ forms ↔ form ∈ encodings isPrintable query cutChars ∧ form ≠ []
  longestFirst : forms.Pairwise fun form next => next.length ≤ form.length

/-! ### Masking -/

/-- `text.removesuffix(tail)`. -/
def removeSuffix (text tail : Text) : Text :=
  if tail <:+ text then text.take (text.length - tail.length) else text

/-- `range(most, least - 1, -1)`. -/
def downTo (most least : ℕ) : List ℕ := (List.range' least (most + 1 - least)).reverse

/-- A round of `_mask_cut_echo`. -/
def maskCutEchoBefore (text form tail : Text) : Option Text :=
  let body := removeSuffix text tail
  ((downTo (min (form.length - 1) body.length) minCutEchoChars).find? fun length =>
    form.take length <:+ body).map fun length =>
      body.take (body.length - length) ++ queryMask ++ tail

/-- `_mask_cut_echo`. -/
def maskCutEcho (text form : Text) : Text :=
  ([[], cutMarker].findSome? (maskCutEchoBefore text form)).getD text

/-- `mask_query_echo`, with what `_echo_forms` has returned. -/
def maskQueryEcho (forms : List Text) (text : Text) : Text :=
  forms.foldl maskCutEcho (forms.foldl (fun masked form => replaceWord queryMask form masked) text)

/-- The text ends in a prefix of the form, cut or not. -/
def EndsInEcho (text form : Text) : Prop :=
  ∃ tail ∈ [[], cutMarker], ∃ length, minCutEchoChars ≤ length ∧ length ≤ form.length ∧
    form.take length <:+ removeSuffix text tail

def EndsMasked (text : Text) : Prop := ∃ before, ∃ tail ∈ [[], cutMarker],
  text = before ++ queryMask ++ tail

/-! ### The end of the text -/

variable {text tail form : Text} {forms : List Text}

abbrev IsMaskable (form : Text) : Prop := Maskable 0x5b (codes "query") 0x5d form

theorem mem_downTo {most least n : ℕ} : n ∈ downTo most least ↔ least ≤ n ∧ n ≤ most := by
  rw [downTo, mem_reverse, mem_range'_1]
  omega

theorem removeSuffix_append (before tail : Text) : removeSuffix (before ++ tail) tail = before := by
  rw [removeSuffix, if_pos (suffix_append before tail)]
  simp

theorem removeSuffix_prefix (text tail : Text) : removeSuffix text tail <+: text := by
  unfold removeSuffix
  split_ifs
  · exact take_prefix _ _
  · exact prefix_refl text

/-- What ends in a marker of ours ends in it before the marker of a cut as well. -/
theorem removeSuffix_of_endsMasked (h : EndsMasked text) (htail : tail ∈ [[], cutMarker]) :
    ∃ before rest, removeSuffix text tail = before ++ queryMask ++ rest ∧
      rest.length ≤ cutMarker.length := by
  obtain ⟨before, tail', htail', rfl⟩ := h
  have hshort : tail'.length ≤ cutMarker.length := by
    rcases mem_pair.mp htail' with rfl | rfl <;> decide
  by_cases hsuf : tail <:+ before ++ queryMask ++ tail'
  · rcases mem_pair.mp htail with rfl | rfl
    · exact ⟨before, tail', by simp [removeSuffix], hshort⟩
    · rcases mem_pair.mp htail' with rfl | rfl
      · -- the last letters of the two markers are different
        obtain ⟨text, htx⟩ := hsuf
        have hl := congrArg List.getLast? htx
        simp [cutMarker, queryMask, bracketed, codes] at hl
      · exact ⟨before, [], by rw [removeSuffix_append, append_nil], Nat.zero_le _⟩
  · exact ⟨before, tail', by rw [removeSuffix, if_neg hsuf], hshort⟩

theorem not_endsInEcho (h : EndsMasked text) (hform : IsMaskable form) : ¬EndsInEcho text form := by
  rintro ⟨tail, htail, n, hn, hle, hsuf⟩
  obtain ⟨before, rest, hbody, hrs⟩ := removeSuffix_of_endsMasked h htail
  have hrs' : 0x5d :: rest <:+ removeSuffix text tail := by
    rw [hbody, queryMask, bracketed]
    exact ⟨before ++ 0x5b :: codes "query", by simp⟩
  have hlen : (0x5d :: rest).length ≤ (form.take n).length := by
    rw [length_take_of_le hle, length_cons]
    have hmar : cutMarker.length = 3 := rfl
    have hmin : minCutEchoChars = 12 := rfl
    omega
  have hins := suffix_of_suffix_length_le hrs' hsuf hlen
  exact hform.closing_notMem (mem_of_mem_take (hins.subset mem_cons_self))

/-! ### A round -/

def Fragment (text form tail : Text) (n : ℕ) : Prop :=
  minCutEchoChars ≤ n ∧ n < form.length ∧ form.take n <:+ removeSuffix text tail

theorem maskCutEchoBefore_eq_some {masked : Text}
    (h : maskCutEchoBefore text form tail = some masked) (hform : form ≠ []) :
    ∃ before n, masked = before ++ queryMask ++ tail ∧ before <+: text ∧
      Fragment text form tail n := by
  obtain ⟨n, hfind, rfl⟩ := map_eq_some_iff.mp h
  have hn := mem_downTo.mp (mem_of_find?_eq_some hfind)
  have hsuf := find?_some hfind
  have hlen := length_pos_of_ne_nil hform
  refine ⟨_, n, rfl, ( take_prefix _ _).trans ( removeSuffix_prefix text tail), hn.1, ?_,
    of_decide_eq_true hsuf⟩
  omega

theorem not_fragment_of_eq_none (h : maskCutEchoBefore text form tail = none) (n : ℕ) :
    ¬Fragment text form tail n := by
  rintro ⟨hleast, hlt, hsuf⟩
  have hn := find?_eq_none.mp (map_eq_none_iff.mp h) n
  refine hn (mem_downTo.mpr ⟨hleast, le_min (Nat.le_sub_one_of_lt hlt) ?_⟩) (decide_eq_true hsuf)
  calc n = (form.take n).length := (length_take_of_le hlt.le).symm
    _ ≤ (removeSuffix text tail).length := hsuf.length_le

/-- A text is left as it is if it does not end in the beginning of a form, or is cut before it. -/
theorem maskCutEcho_cases (text : Text) (hform : form ≠ []) :
    (maskCutEcho text form = text ∧ ∀ tail ∈ [[], cutMarker], ∀ n, ¬Fragment text form tail n) ∨
      ∃ before, ∃ tail ∈ [[], cutMarker], maskCutEcho text form = before ++ queryMask ++ tail ∧
        before <+: text ∧ tail <:+ text := by
  rcases hpl : maskCutEchoBefore text form [] with _ | masked
  · have hn := not_fragment_of_eq_none hpl
    rcases hcut : maskCutEchoBefore text form cutMarker with _ | masked
    · refine Or.inl ⟨by simp [maskCutEcho, hpl, hcut], fun tail htail => ?_⟩
      rcases mem_pair.mp htail with rfl | rfl
      · exact hn
      · exact not_fragment_of_eq_none hcut
    · obtain ⟨before, n, rfl, hbef, hfrag⟩ := maskCutEchoBefore_eq_some hcut hform
      refine Or.inr ⟨before, cutMarker, by simp, by simp [maskCutEcho, hpl, hcut], hbef, ?_⟩
      -- without the marker of a cut the first round would have found the same
      by_contra hsuf
      refine hn n ⟨hfrag.1, hfrag.2.1, ?_⟩
      have heq := hfrag.2.2
      rw [removeSuffix, if_neg hsuf] at heq
      simpa [removeSuffix] using heq
  · obtain ⟨before, n, rfl, hbef, -⟩ := maskCutEchoBefore_eq_some hpl hform
    exact Or.inr ⟨before, [], by simp, by simp [maskCutEcho, hpl], hbef, nil_suffix⟩

variable {word : Text}

theorem infix_of_infix_maskCutEcho (hword : IsMaskable word) (hform : form ≠ [])
    (h : word <:+: maskCutEcho text form) : word <:+: text := by
  rcases maskCutEcho_cases text hform with ⟨heq, -⟩ | ⟨before, tail, -, hcut, hbef, htail⟩
  · rwa [heq] at h
  · rw [hcut, queryMask, infix_mark_iff hword] at h
    rcases h with h | h
    · exact h.trans hbef.isInfix
    · exact h.trans htail.isInfix

/-! ### All rounds -/

/-- What no round brings about is not there after all of them. -/
theorem infix_of_infix_foldl {mask : Text → Text → Text} (forms : List Text)
    (h : ∀ form ∈ forms, ∀ text, word <:+: mask text form → word <:+: text) (text : Text) :
    word <:+: forms.foldl mask text → word <:+: text := by
  induction forms generalizing text with
  | nil => exact id
  | cons form forms ih =>
    intro hfold
    exact h form mem_cons_self text
      (ih (fun form hform => h form (mem_cons_of_mem _ hform)) _ hfold)

/-- **No form is left once all of them were replaced.** -/
theorem not_infix_foldl_replaceWord (hfor : ∀ form ∈ forms, IsMaskable form) (text : Text) :
    ∀ form ∈ forms,
      ¬form <:+: forms.foldl (fun masked form => replaceWord queryMask form masked) text := by
  induction forms generalizing text with
  | nil => exact nofun
  | cons first forms ih =>
    intro form hform
    rw [forall_mem_cons] at hfor
    rcases mem_cons.mp hform with rfl | hform
    · exact fun h => not_infix_replaceWord hfor.1 (infix_of_infix_foldl forms
        (fun _ _ _ => infix_of_infix_replaceWord hfor.1) _ h)
    · exact ih hfor.2 _ form hform

/-- All rounds leave a text as it is, or the last one that does not has put a marker at its end. -/
theorem foldl_maskCutEcho_cases (hfor : ∀ form ∈ forms, form ≠ []) (text : Text) :
    EndsMasked (forms.foldl maskCutEcho text) ∨ forms.foldl maskCutEcho text = text ∧
      ∀ form ∈ forms, ∀ tail ∈ [[], cutMarker], ∀ n, ¬Fragment text form tail n := by
  induction forms generalizing text with
  | nil => exact Or.inr ⟨rfl, nofun⟩
  | cons form forms ih =>
    rw [forall_mem_cons] at hfor
    rw [foldl_cons, forall_mem_cons]
    rcases ih hfor.2 (maskCutEcho text form) with hmas | ⟨heq, hn⟩
    · exact Or.inl hmas
    · rw [heq]
      rcases maskCutEcho_cases text hfor.1 with ⟨hleft, hfrag⟩ | ⟨before, tail, htail, hcut, -⟩
      · rw [hleft] at hn ⊢
        exact Or.inr ⟨rfl, hfrag, hn⟩
      · exact Or.inl ⟨before, tail, htail, hcut⟩

/-- **The echoes of a query are masked**: no form of it is left, and no beginning of one at the end
of the text. -/
theorem masked {isPrintable : ℕ → Bool} {query : Text} {cutChars : ℕ}
    (hechoes : EchoForms isPrintable query cutChars forms)
    (hplain : ∀ form ∈ forms, 0x5b ∉ form ∧ 0x5d ∉ form ∧ ¬form <:+: codes "query") (text : Text) :
    ∀ form ∈ encodings isPrintable query cutChars, form ≠ [] →
      ¬form <:+: maskQueryEcho forms text ∧ ¬EndsInEcho (maskQueryEcho forms text) form := by
  have hfor : ∀ form ∈ forms, IsMaskable form := fun form hform =>
    ⟨((hechoes.mem_iff form).mp hform).2, (hplain form hform).1, (hplain form hform).2.1,
      (hplain form hform).2.2⟩
  intro form henc hne
  have hform : form ∈ forms := (hechoes.mem_iff form).mpr ⟨henc, hne⟩
  have hfr : ¬form <:+: maskQueryEcho forms text := fun h =>
    not_infix_foldl_replaceWord hfor text form hform (infix_of_infix_foldl forms
      (fun other hoth _ => infix_of_infix_maskCutEcho (hfor form hform)
        (hfor other hoth).ne_nil) _ h)
  refine ⟨hfr, ?_⟩
  rcases foldl_maskCutEcho_cases (fun form hform => (hfor form hform).ne_nil) _ with
    hmas | ⟨heq, hn⟩
  · exact not_endsInEcho hmas (hfor form hform)
  · rintro ⟨tail, htail, n, hleast, hle, hsuf⟩
    rcases hle.lt_or_eq with hlt | rfl
    · rw [maskQueryEcho, heq] at hsuf
      exact hn form hform tail htail n ⟨hleast, hlt, hsuf⟩
    · rw [take_length] at hsuf
      exact hfr (hsuf.isInfix.trans ( removeSuffix_prefix _ tail).isInfix)

def sampleQuery : Text := codes "say \"hello again\""

def sampleForms : List Text := [codes "say \\\"hello again\\\"", sampleQuery]

/-- The query is masked, and so is the beginning of its JSON form that the cut has left. -/
theorem masked_sampleQuery :
    maskQueryEcho sampleForms (codes "bad: say \"hello again\", say \\\"hello aga...") =
        codes "bad: [query], [query]..." ∧
      ∀ form ∈ encodings (within 0x20 0x7e) sampleQuery 50, form ≠ [] →
        ¬form <:+: codes "bad: [query], [query]..." := by
  have henc : ∀ form ∈ sampleForms,
      form ∈ encodings (within 0x20 0x7e) sampleQuery 50 ∧ form ≠ [] := by decide +kernel
  have hall : ∀ form ∈ encodings (within 0x20 0x7e) sampleQuery 50,
      form ≠ [] → form ∈ sampleForms := by decide +kernel
  have hech : EchoForms (within 0x20 0x7e) sampleQuery 50 sampleForms :=
    ⟨by decide, fun form => ⟨henc form, fun h => hall form h.1 h.2⟩, by decide⟩
  have hmask : maskQueryEcho sampleForms (codes "bad: say \"hello again\", say \\\"hello aga...") =
      codes "bad: [query], [query]..." := by decide +kernel
  refine ⟨hmask, fun form hform hne => ?_⟩
  rw [← hmask]
  exact (masked hech (by decide +kernel) _ form hform hne).1

end ArchonSearch.Privacy
