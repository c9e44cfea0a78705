import Mathlib.Data.Nat.Notation

/-!
# Text as bytes

`str.encode()` and `bytes.decode()`, for which the bytes are numbers below 256. The decoder is
strict: it takes nothing but what the encoder writes, so surrogates and overlong sequences are
errors. What was encoded is decoded (`decodeUtf8_encodeUtf8`).
-/

namespace ArchonSearch.Py

/-- `s.encode()`. -/
def encodeUtf8 (s : String) : List ℕ := s.toUTF8.data.toList.map UInt8.toNat

/-- `b.decode()`, or none where it raises a `UnicodeDecodeError`. -/
def decodeUtf8 (bytes : List ℕ) : Option String :=
  String.fromUTF8? ⟨(bytes.map UInt8.ofNat).toArray⟩

theorem lt_of_mem_encodeUtf8 {s : String} : ∀ b ∈ encodeUtf8 s, b < 256 := by
  intro b hb
  obtain ⟨byte, -, rfl⟩ := List.mem_map.mp hb
  exact byte.toNat_lt

/-- **What was encoded is decoded.** -/
theorem decodeUtf8_encodeUtf8 (s : String) : decodeUtf8 (encodeUtf8 s) = some s := by
  have hbs : (encodeUtf8 s).map UInt8.ofNat = s.toUTF8.data.toList := by
    rw [encodeUtf8, List.map_map]
    exact (List.map_congr_left fun byte _ => UInt8.ofNat_toNat).trans (List.map_id _)
  rw [decodeUtf8, hbs]
  exact dif_pos s.isValidUTF8

end ArchonSearch.Py
