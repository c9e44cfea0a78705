import Mathlib.Data.BitVec
import Mathlib.Data.List.DropRight

/-!
# Bytes and vectors as text

The archives carry a vector as the base64 text of its little-endian float32 bytes.
Both halves are library calls: `struct.pack` and `struct.unpack` of the words, and
`base64.standard_b64encode` and `base64.standard_b64decode` of the bytes. A byte is a
number below 256 here, a component the 32 bits of its float.

The decoder is the one of `binascii`, which goes through the characters once and is lenient:
characters outside the alphabet are passed over, and a padding that completes a group ends the
data. What the encoder writes it reads back (`b64decode_b64encode`), and so a vector comes back as
it was (`unpackWords_packWords`).

Text for a URL has two other characters and goes without its padding, which the reader works out
from the length (`urlsafeB64decode_restorePadding`).
-/

namespace ArchonSearch.Py

open List

/-! ### The alphabet -/

def alphabet : List Char :=
  "ABCDEFGHIJKLMNOPQRSTUVWXYZabcdefghijklmnopqrstuvwxyz0123456789+/".toList

def sextetChar (v : ℕ) : Char := alphabet.getD v 'A'

def charSextet (c : Char) : Option ℕ := alphabet.findIdx? (· = c)

theorem charSextet_sextetChar {v : ℕ} (h : v < 64) :
    charSextet (sextetChar v) = some v ∧ sextetChar v ≠ '=' ∧ (sextetChar v).toNat < 128 := by
  have hall : ∀ v : Fin 64, charSextet (sextetChar v) = some v.val ∧ sextetChar v ≠ '=' ∧
      (sextetChar v).toNat < 128 := by decide +kernel
  exact hall ⟨v, h⟩

/-! ### Bytes -/

/-- `binascii.b2a_base64`, on the characters and without a newline. -/
def b2aBase64 : List ℕ → List Char
  | [] => []
  | [a] => [sextetChar (a / 4), sextetChar (a % 4 * 16), '=', '=']
  | [a, b] =>
    [sextetChar (a / 4), sextetChar (a % 4 * 16 + b / 16), sextetChar (b % 16 * 4), '=']
  | a :: b :: c :: rest =>
    sextetChar (a / 4) :: sextetChar (a % 4 * 16 + b / 16) ::
      sextetChar (b % 16 * 4 + c / 64) :: sextetChar (c % 64) :: b2aBase64 rest

/-- `binascii.a2b_base64`: `quadPos` characters of the current group have been read,
`leftchar` is what is left of the last one, and `pads` paddings in a row have been
met. -/
def a2bBase64 (quadPos leftchar pads : ℕ) : List Char → Option (List ℕ)
  | [] => if quadPos = 0 then some [] else none
  | c :: cs =>
    if c = '=' then
      if 2 ≤ quadPos ∧ 4 ≤ quadPos + (pads + 1) then some []
      else a2bBase64 quadPos leftchar (if 2 ≤ quadPos then pads + 1 else pads) cs
    else
      match charSextet c with
      | none => a2bBase64 quadPos leftchar pads cs
      | some v =>
        match quadPos with
        | 0 => a2bBase64 1 v 0 cs
        | 1 => (a2bBase64 2 (v % 16) 0 cs).map ((leftchar * 4 + v / 16) :: ·)
        | 2 => (a2bBase64 3 (v % 4) 0 cs).map ((leftchar * 16 + v / 4) :: ·)
        | _ => (a2bBase64 0 0 0 cs).map ((leftchar * 64 + v) :: ·)

/-- `base64.standard_b64encode`, decoded as ASCII. -/
def b64encode (bytes : List ℕ) : String := String.ofList (b2aBase64 bytes)

/-- `base64.standard_b64decode` of a `str`, which must be ASCII. -/
def b64decode (s : String) : Option (List ℕ) :=
  if s.toList.all (fun c => c.toNat < 128) then a2bBase64 0 0 0 s.toList else none

theorem a2bBase64_sextetChar {quadPos leftchar pads v : ℕ} (hv : v < 64) (cs : List Char) :
    a2bBase64 quadPos leftchar pads (sextetChar v :: cs) =
      match quadPos with
      | 0 => a2bBase64 1 v 0 cs
      | 1 => (a2bBase64 2 (v % 16) 0 cs).map ((leftchar * 4 + v / 16) :: ·)
      | 2 => (a2bBase64 3 (v % 4) 0 cs).map ((leftchar * 16 + v / 4) :: ·)
      | _ => (a2bBase64 0 0 0 cs).map ((leftchar * 64 + v) :: ·) := by
  obtain ⟨hval, hne, -⟩ := charSextet_sextetChar hv
  rw [a2bBase64, if_neg hne, hval]

variable {bytes : List ℕ}

/-- The decoder reads back what the encoder wrote, on the characters. -/
theorem a2bBase64_b2aBase64 (h : ∀ b ∈ bytes, b < 256) :
    a2bBase64 0 0 0 (b2aBase64 bytes) = some bytes := by
  induction bytes using b2aBase64.induct with
  | case1 => rfl
  | case2 a =>
    have ha : a < 256 := h a (by simp)
    rw [b2aBase64, a2bBase64_sextetChar (by omega), a2bBase64_sextetChar (by omega)]
    have hpad : a2bBase64 2 (a % 4 * 16 % 16) 0 ['=', '='] = some [] := by simp [a2bBase64]
    have hbyte : a / 4 * 4 + a % 4 * 16 / 16 = a := by omega
    simp only [hpad, Option.map_some, hbyte]
  | case3 a b =>
    have ha : a < 256 := h a (by simp)
    have hb : b < 256 := h b (by simp)
    rw [b2aBase64, a2bBase64_sextetChar (by omega), a2bBase64_sextetChar (by omega)]
    simp only
    rw [a2bBase64_sextetChar (by omega)]
    have hbyte : a / 4 * 4 + (a % 4 * 16 + b / 16) / 16 = a := by omega
    have hbyte' : (a % 4 * 16 + b / 16) % 16 * 16 + b % 16 * 4 / 4 = b := by omega
    have hpad : a2bBase64 3 (b % 16 * 4 % 4) 0 ['='] = some [] := by simp [a2bBase64]
    simp only [hpad, Option.map_some, hbyte, hbyte']
  | case4 a b c rest ih =>
    have ha : a < 256 := h a (by simp)
    have hb : b < 256 := h b (by simp)
    have hc : c < 256 := h c (by simp)
    have hrs := ih fun x hx => h x (by simp [hx])
    rw [b2aBase64, a2bBase64_sextetChar (by omega), a2bBase64_sextetChar (by omega)]
    simp only
    rw [a2bBase64_sextetChar (by omega)]
    simp only
    rw [a2bBase64_sextetChar (by omega), hrs]
    have hbyte : a / 4 * 4 + (a % 4 * 16 + b / 16) / 16 = a := by omega
    have hbyte' : (a % 4 * 16 + b / 16) % 16 * 16 + (b % 16 * 4 + c / 64) / 4 = b := by omega
    have hbyte'' : (b % 16 * 4 + c / 64) % 4 * 64 + c % 64 = c := by omega
    simp only [Option.map_some, hbyte, hbyte', hbyte'']

/-- The encoder writes characters of the alphabet and paddings. -/
theorem mem_b2aBase64 (h : ∀ b ∈ bytes, b < 256) {c : Char}
    (hc : c ∈ b2aBase64 bytes) : c = '=' ∨ ∃ v < 64, c = sextetChar v := by
  induction bytes using b2aBase64.induct with
  | case1 => simp [b2aBase64] at hc
  | case2 a =>
    have ha : a < 256 := h a (by simp)
    simp only [b2aBase64, mem_cons, not_mem_nil, or_false] at hc
    rcases hc with rfl | rfl | rfl | rfl
    · exact Or.inr ⟨_, by omega, rfl⟩
    · exact Or.inr ⟨_, by omega, rfl⟩
    all_goals exact Or.inl rfl
  | case3 a b =>
    have ha : a < 256 := h a (by simp)
    have hb : b < 256 := h b (by simp)
    simp only [b2aBase64, mem_cons, not_mem_nil, or_false] at hc
    rcases hc with rfl | rfl | rfl | rfl
    · exact Or.inr ⟨_, by omega, rfl⟩
    · exact Or.inr ⟨_, by omega, rfl⟩
    · exact Or.inr ⟨_, by omega, rfl⟩
    · exact Or.inl rfl
  | case4 a b d rest ih =>
    have ha : a < 256 := h a (by simp)
    have hb : b < 256 := h b (by simp)
    have hd : d < 256 := h d (by simp)
    simp only [b2aBase64, mem_cons] at hc
    rcases hc with rfl | rfl | rfl | rfl | hc
    · exact Or.inr ⟨_, by omega, rfl⟩
    · exact Or.inr ⟨_, by omega, rfl⟩
    · exact Or.inr ⟨_, by omega, rfl⟩
    · exact Or.inr ⟨_, by omega, rfl⟩
    · exact ih (fun y hy => h y (by simp [hy])) hc

theorem toNat_lt_of_mem_b2aBase64 (h : ∀ b ∈ bytes, b < 256) :
    ∀ c ∈ b2aBase64 bytes, c.toNat < 128 := by
  intro c hc
  rcases mem_b2aBase64 h hc with rfl | ⟨v, hv, rfl⟩
  · decide
  · exact (charSextet_sextetChar hv).2.2

/-- **The decoder reads back what the encoder wrote.** -/
theorem b64decode_b64encode (h : ∀ b ∈ bytes, b < 256) :
    b64decode (b64encode bytes) = some bytes := by
  unfold b64decode b64encode
  rw [String.toList_ofList, if_pos, a2bBase64_b2aBase64 h]
  simpa [all_eq_true] using toNat_lt_of_mem_b2aBase64 h

/-! ### URL-safe text -/

/-- What `base64.urlsafe_b64encode` writes for a character of the alphabet. -/
def urlsafeChar (c : Char) : Char := if c = '+' then '-' else if c = '/' then '_' else c

/-- What `base64.urlsafe_b64decode` reads a character as. -/
def standardChar (c : Char) : Char := if c = '-' then '+' else if c = '_' then '/' else c

/-- `base64.urlsafe_b64encode`, decoded as ASCII. -/
def urlsafeB64encode (bytes : List ℕ) : String :=
  String.ofList ((b2aBase64 bytes).map urlsafeChar)

/-- `base64.urlsafe_b64decode` of a `str`, which must be ASCII. -/
def urlsafeB64decode (s : String) : Option (List ℕ) :=
  if s.toList.all (fun c => c.toNat < 128) then a2bBase64 0 0 0 (s.toList.map standardChar)
  else none

/-- `s.rstrip("=")`. -/
def stripPadding (s : String) : String := String.ofList (s.toList.rdropWhile (· = '='))

/-- `s + "=" * (-len(s) % 4)`. -/
def restorePadding (s : String) : String :=
  s ++ String.ofList (List.replicate ((4 - s.length % 4) % 4) '=')

/-- What the encoder writes is some characters that are no padding, and as much padding as makes up
groups of four. -/
theorem exists_b2aBase64_eq_append (h : ∀ b ∈ bytes, b < 256) :
    ∃ core k, b2aBase64 bytes = core ++ List.replicate k '=' ∧ '=' ∉ core ∧
      k = (4 - core.length % 4) % 4 := by
  have hne {v : ℕ} (hv : v < 64) : '=' ≠ sextetChar v := (charSextet_sextetChar hv).2.1.symm
  induction bytes using b2aBase64.induct with
  | case1 => exact ⟨[], 0, rfl, not_mem_nil, rfl⟩
  | case2 a =>
    have ha : a < 256 := h a (by simp)
    refine ⟨[sextetChar (a / 4), sextetChar (a % 4 * 16)], 2, rfl, ?_, rfl⟩
    simp only [mem_cons, not_mem_nil, or_false, not_or]
    exact ⟨hne (by omega), hne (by omega)⟩
  | case3 a b =>
    have ha : a < 256 := h a (by simp)
    have hb : b < 256 := h b (by simp)
    refine ⟨[sextetChar (a / 4), sextetChar (a % 4 * 16 + b / 16), sextetChar (b % 16 * 4)], 1,
      rfl, ?_, rfl⟩
    simp only [mem_cons, not_mem_nil, or_false, not_or]
    exact ⟨hne (by omega), hne (by omega), hne (by omega)⟩
  | case4 a b c rest ih =>
    have ha : a < 256 := h a (by simp)
    have hb : b < 256 := h b (by simp)
    have hc : c < 256 := h c (by simp)
    obtain ⟨core, k, hrs, hcore, hk⟩ := ih fun x hx => h x (by simp [hx])
    refine ⟨sextetChar (a / 4) :: sextetChar (a % 4 * 16 + b / 16) ::
      sextetChar (b % 16 * 4 + c / 64) :: sextetChar (c % 64) :: core, k, ?_, ?_, ?_⟩
    · rw [b2aBase64, hrs]
      rfl
    · simp only [mem_cons, not_or]
      exact ⟨hne (by omega), hne (by omega), hne (by omega), hne (by omega), hcore⟩
    · simp only [length_cons]
      omega

/-- What was translated for the URL is translated back. -/
theorem standardChar_urlsafeChar {v : ℕ} (h : v < 64) :
    standardChar (urlsafeChar (sextetChar v)) = sextetChar v ∧
      (urlsafeChar (sextetChar v)).toNat < 128 ∧ urlsafeChar (sextetChar v) ≠ '=' ∧
      urlsafeChar (sextetChar v) ≠ '.' := by
  have hall : ∀ v : Fin 64, standardChar (urlsafeChar (sextetChar v)) = sextetChar v ∧
      (urlsafeChar (sextetChar v)).toNat < 128 ∧ urlsafeChar (sextetChar v) ≠ '=' ∧
      urlsafeChar (sextetChar v) ≠ '.' := by decide +kernel
  exact hall ⟨v, h⟩

/-- What is written for the URL is ASCII and no full stop, and translates back. -/
theorem mem_urlsafeB64encode (h : ∀ b ∈ bytes, b < 256) {c : Char}
    (hc : c ∈ (urlsafeB64encode bytes).toList) : c.toNat < 128 ∧ c ≠ '.' := by
  rw [urlsafeB64encode, String.toList_ofList] at hc
  obtain ⟨d, hd, rfl⟩ := mem_map.mp hc
  rcases mem_b2aBase64 h hd with rfl | ⟨v, hv, rfl⟩
  · decide
  · exact ⟨(standardChar_urlsafeChar hv).2.1, (standardChar_urlsafeChar hv).2.2.2⟩

/-- Stripping takes the padding off and nothing else. -/
theorem rdropWhile_append_replicate {core : List Char} (h : '=' ∉ core) (k : ℕ) :
    (core ++ List.replicate k '=').rdropWhile (· = '=') = core := by
  induction k with
  | zero =>
    rw [replicate_zero, append_nil, rdropWhile_eq_self_iff]
    intro hne hl
    exact h (of_decide_eq_true hl ▸ getLast_mem hne)
  | succ k ih =>
    rw [replicate_succ', ← append_assoc, rdropWhile_concat_pos _ _ _ rfl, ih]

theorem restorePadding_stripPadding (h : ∀ b ∈ bytes, b < 256) :
    restorePadding (stripPadding (urlsafeB64encode bytes)) = urlsafeB64encode bytes := by
  obtain ⟨core, k, henc, hcore, hk⟩ := exists_b2aBase64_eq_append h
  have hm : '=' ∉ core.map urlsafeChar := by
    intro hpad
    obtain ⟨d, hd, hdeq⟩ := mem_map.mp hpad
    rcases mem_b2aBase64 h (henc ▸ mem_append_left _ hd) with rfl | ⟨v, hv, rfl⟩
    · exact hcore hd
    · exact (standardChar_urlsafeChar hv).2.2.1 hdeq
  have hstrip : stripPadding (urlsafeB64encode bytes) = String.ofList (core.map urlsafeChar) := by
    rw [stripPadding, urlsafeB64encode, String.toList_ofList, henc, map_append, map_replicate]
    exact congrArg String.ofList (rdropWhile_append_replicate hm k)
  rw [hstrip, restorePadding, urlsafeB64encode, henc, map_append, map_replicate,
    String.ofList_append, String.length_ofList, length_map, hk]
  rfl

/-- **The URL-safe text is read back**, when its padding was stripped and restored. -/
theorem urlsafeB64decode_restorePadding (h : ∀ b ∈ bytes, b < 256) :
    urlsafeB64decode (restorePadding (stripPadding (urlsafeB64encode bytes))) = some bytes := by
  have hasc : (urlsafeB64encode bytes).toList.all (fun c => c.toNat < 128) = true :=
    all_eq_true.mpr fun c hc => by simpa using (mem_urlsafeB64encode h hc).1
  have hback : (b2aBase64 bytes).map (standardChar ∘ urlsafeChar) = b2aBase64 bytes := by
    refine (map_congr_left fun c hc => ?_).trans (map_id _)
    rcases mem_b2aBase64 h hc with rfl | ⟨v, hv, rfl⟩
    · rfl
    · exact (standardChar_urlsafeChar hv).1
  rw [restorePadding_stripPadding h, urlsafeB64decode, if_pos hasc, urlsafeB64encode,
    String.toList_ofList, map_map, hback, a2bBase64_b2aBase64 h]

/-! ### Words -/

/-- `struct.pack("<f", …)`: the bytes of a float32, the lowest first. -/
def wordBytes (w : BitVec 32) : List ℕ :=
  [w.toNat % 256, w.toNat / 256 % 256, w.toNat / 65536 % 256, w.toNat / 16777216]

/-- `struct.pack("<nf", …)`. -/
def packWords (words : List (BitVec 32)) : List ℕ := words.flatMap wordBytes

/-- `struct.unpack("<nf", …)`, for as many words as the bytes make up; bytes left over
are an error. -/
def unpackWords : List ℕ → Option (List (BitVec 32))
  | [] => some []
  | a :: b :: c :: d :: rest =>
    (unpackWords rest).map (BitVec.ofNat 32 (a + b * 256 + c * 65536 + d * 16777216) :: ·)
  | _ => none

theorem lt_of_mem_packWords {words : List (BitVec 32)} : ∀ b ∈ packWords words, b < 256 := by
  intro b hb
  obtain ⟨w, -, hb⟩ := mem_flatMap.mp hb
  have hw : w.toNat < 4294967296 := w.isLt
  simp only [wordBytes, mem_cons, not_mem_nil, or_false] at hb
  rcases hb with rfl | rfl | rfl | rfl <;> omega

/-- **The words come back.** -/
theorem unpackWords_packWords (words : List (BitVec 32)) :
    unpackWords (packWords words) = some words := by
  induction words with
  | nil => rfl
  | cons w words ih =>
    have hw : w.toNat < 4294967296 := w.isLt
    have hword : w.toNat % 256 + w.toNat / 256 % 256 * 256 + w.toNat / 65536 % 256 * 65536
        + w.toNat / 16777216 * 16777216 = w.toNat := by omega
    simp only [packWords, flatMap_cons, wordBytes, cons_append, nil_append,
      unpackWords, hword, BitVec.ofNat_toNat, BitVec.setWidth_eq] at ih ⊢
    rw [ih]
    rfl

end ArchonSearch.Py
