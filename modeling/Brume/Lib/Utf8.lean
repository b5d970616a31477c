import Brume.Lib.ByteStream

/-!
# Strings as UTF-8 byte lists

A Rust `String` and a Lean `String` are both a byte sequence with the
invariant that it is valid UTF-8. `utf8Bytes` is `as_bytes`, `fromUtf8` is
`String::from_utf8`.
-/

namespace Lib

def utf8Bytes (s : String) : Bytes := s.toByteArray.data.toList

def fromUtf8 (bs : Bytes) : Option String := String.fromUTF8? ⟨bs.toArray⟩

theorem fromUtf8_eq_some {bs : Bytes} {s : String} : fromUtf8 bs = some s ↔ utf8Bytes s = bs := by
  unfold fromUtf8 utf8Bytes String.fromUTF8? String.fromUTF8
  constructor
  · intro h
    split at h
    · cases h
      rfl
    · cases h
  · rintro rfl
    rcases s with ⟨⟨data⟩, valid⟩
    simp [valid]

@[simp] theorem fromUtf8_utf8Bytes (s : String) : fromUtf8 (utf8Bytes s) = some s :=
  fromUtf8_eq_some.mpr rfl

theorem utf8Bytes_inj {s t : String} : utf8Bytes s = utf8Bytes t ↔ s = t := by
  constructor
  · intro h
    have hs := fromUtf8_utf8Bytes s
    rw [h, fromUtf8_utf8Bytes] at hs
    exact (Option.some_inj.mp hs).symm
  · rintro rfl
    rfl

end Lib
