import Mathlib.Data.String.Basic
import ArchonSearch.Py.Str

/-!
# Integers as text

`int(s)` takes the decimal digits of every script, a sign, white space around them and single
underscores between them. What `str(n)` writes it reads back (`intOfStr_toString`). The limit on
the number of digits, which the interpreter can be told to lift, is left out.
-/

namespace ArchonSearch.Py

open List

def digitZeros : List ℕ :=
  [0x30, 0x660, 0x6f0, 0x7c0, 0x966, 0x9e6, 0xa66, 0xae6, 0xb66, 0xbe6, 0xc66, 0xce6, 0xd66,
    0xde6, 0xe50, 0xed0, 0xf20, 0x1040, 0x1090, 0x17e0, 0x1810, 0x1946, 0x19d0, 0x1a80, 0x1a90,
    0x1b50, 0x1bb0, 0x1c40, 0x1c50, 0xa620, 0xa8d0, 0xa900, 0xa9d0, 0xa9f0, 0xaa50, 0xabf0,
    0xff10, 0x104a0, 0x10d30, 0x11066, 0x110f0, 0x11136, 0x111d0, 0x112f0, 0x11450, 0x114d0,
    0x11650, 0x116c0, 0x11730, 0x118e0, 0x11950, 0x11c50, 0x11d50, 0x11da0, 0x11f50, 0x16a60,
    0x16ac0, 0x16b50, 0x1d7ce, 0x1d7d8, 0x1d7e2, 0x1d7ec, 0x1d7f6, 0x1e140, 0x1e2f0, 0x1e4f0,
    0x1e950, 0x1fbf0]

def digitValue (c : Char) : Option ℕ :=
  (digitZeros.find? fun first => first ≤ c.toNat && c.toNat < first + 10).map fun first =>
    c.toNat - first

/-- The value of digits with single underscores between them, from a value on; and whether a digit
was read last. -/
def readDigits : ℕ → Bool → List Char → Option ℕ
  | value, afterDigit, [] => if afterDigit then some value else none
  | value, afterDigit, c :: cs =>
    if c = '_' then if afterDigit then readDigits value false cs else none
    else
      match digitValue c with
      | some digit => readDigits (10 * value + digit) true cs
      | none => none

def readSigned : List Char → Option ℤ
  | '-' :: cs => (readDigits 0 false cs).map fun n : ℕ => -(n : ℤ)
  | '+' :: cs => (readDigits 0 false cs).map Int.ofNat
  | cs => (readDigits 0 false cs).map Int.ofNat

/-- `int(s)`, or none where it raises a `ValueError`. -/
def intOfStr (s : String) : Option ℤ := readSigned (stripChars s.toList)

def isByteSpace (c : Char) : Bool := c == ' ' || (0x09 ≤ c.toNat && c.toNat ≤ 0x0d)

/-- `int(b)` of bytes, which have no other digits than those of ASCII. -/
def intOfBytes (bytes : List ℕ) : Option ℤ :=
  readSigned (((bytes.map Char.ofNat).dropWhile isByteSpace).rdropWhile isByteSpace)

/-! ### What is written is read back -/

section RoundTrip

variable {c : Char} {cs : List Char}

theorem digitValue_of_isDigit (h : c.isDigit = true) :
    digitValue c = some (c.toNat - '0'.toNat) := by
  obtain ⟨hlo, hhi⟩ := Char.isDigit_iff_toNat.mp h
  have hlo : 0x30 ≤ c.toNat := hlo
  have hhi : c.toNat < 0x30 + 10 := Nat.lt_succ_of_le hhi
  rw [digitValue, digitZeros, find?_cons_of_pos (by simp [hlo, hhi])]
  rfl

/-- A digit is no sign, no underscore and no white space. -/
theorem ne_of_isDigit (h : c.isDigit = true) :
    c ≠ '_' ∧ c ≠ '-' ∧ c ≠ '+' ∧ isSpace c = false := by
  refine ⟨?_, ?_, ?_, ?_⟩
  · rintro rfl
    exact absurd h (by decide)
  · rintro rfl
    exact absurd h (by decide)
  · rintro rfl
    exact absurd h (by decide)
  · obtain ⟨hlo, hhi⟩ := Char.isDigit_iff_toNat.mp h
    have hlo : 0x30 ≤ c.toNat := hlo
    have hhi : c.toNat ≤ 0x39 := hhi
    simp only [isSpace, Bool.or_eq_false_iff, Bool.and_eq_false_iff, decide_eq_false_iff_not,
      beq_eq_false_iff_ne]
    omega

theorem readDigits_of_forall_isDigit (h : ∀ c ∈ cs, c.isDigit = true) (value : ℕ)
    {afterDigit : Bool} (hrd : afterDigit = true ∨ cs ≠ []) :
    readDigits value afterDigit cs = some (Nat.ofDigitChars 10 cs value) := by
  induction cs generalizing value afterDigit with
  | nil => rw [readDigits, if_pos (hrd.resolve_right fun hne => hne rfl), Nat.ofDigitChars_nil]
  | cons c cs ih =>
    obtain ⟨hc, h⟩ := forall_mem_cons.mp h
    rw [readDigits, if_neg (ne_of_isDigit hc).1, digitValue_of_isDigit hc, Nat.ofDigitChars_cons]
    exact ih h _ (Or.inl rfl)

/-- What has no white space at its ends is stripped of nothing. -/
theorem stripChars_eq_self (h : ∀ c ∈ cs, isSpace c = false) : stripChars cs = cs := by
  have hd : cs.dropWhile isSpace = cs := by
    rcases cs with - | ⟨c, cs⟩
    · rfl
    · rw [dropWhile_cons, h c mem_cons_self]
      rfl
  rw [stripChars, hd, rdropWhile_eq_self_iff]
  exact fun hne => by simpa using h _ (getLast_mem hne)

theorem readDigits_toDigits (n : ℕ) : readDigits 0 false (Nat.toDigits 10 n) = some n := by
  rw [readDigits_of_forall_isDigit (fun c hc => Nat.isDigit_of_mem_toDigits (by decide) le_rfl hc) 0
    (Or.inr Nat.toDigits_ne_nil), Nat.ofDigitChars_ten_toDigits]

/-- The characters of `str(n)` are digits and the sign. -/
theorem isDigit_or_of_mem_toString {n : ℤ} (h : c ∈ (toString n).toList) :
    c.isDigit = true ∨ c = '-' := by
  have hdig {m : ℕ} {c : Char} (hc : c ∈ m.repr.toList) : c.isDigit = true := by
    rw [Nat.toList_repr] at hc
    exact Nat.isDigit_of_mem_toDigits (by decide) le_rfl hc
  rcases n with m | m
  · exact Or.inl (hdig h)
  · have h : c ∈ ("-" ++ (m + 1).repr).toList := h
    rw [String.toList_append, mem_append] at h
    exact h.symm.imp hdig fun hc => by simpa using hc

/-- **What `str(n)` writes, `int` reads back.** -/
theorem intOfStr_toString (n : ℤ) : intOfStr (toString n) = some n := by
  have hstrip : stripChars (toString n).toList = (toString n).toList := by
    refine stripChars_eq_self fun c hc => ?_
    rcases isDigit_or_of_mem_toString hc with hdigit | rfl
    · exact (ne_of_isDigit hdigit).2.2.2
    · decide
  rw [intOfStr, hstrip]
  rcases n with m | m
  · have htx : (toString (Int.ofNat m)).toList = Nat.toDigits 10 m := Nat.toList_repr
    rw [htx]
    rcases hdig : Nat.toDigits 10 m with - | ⟨c, cs⟩
    · exact absurd hdig Nat.toDigits_ne_nil
    · have hc : c.isDigit = true :=
        Nat.isDigit_of_mem_toDigits (by decide) le_rfl (hdig ▸ mem_cons_self)
      obtain ⟨-, hmin, hplus, -⟩ := ne_of_isDigit hc
      have hrd := readDigits_toDigits m
      rw [hdig] at hrd
      simp [readSigned, hmin, hplus, hrd]
  · have htx : (toString (Int.negSucc m)).toList = '-' :: Nat.toDigits 10 (m + 1) := by
      change ("-" ++ (m + 1).repr).toList = _
      rw [String.toList_append, Nat.toList_repr]
      rfl
    rw [htx]
    show (readDigits 0 false (Nat.toDigits 10 (m + 1))).map _ = _
    rw [readDigits_toDigits]
    rfl

end RoundTrip

end ArchonSearch.Py
