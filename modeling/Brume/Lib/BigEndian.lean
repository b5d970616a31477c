import Mathlib.Data.List.Induction
import Mathlib.Tactic.Ring
import Brume.Lib.ByteStream

/-!
# Big-endian numbers as byte lists

`beBytes n v` is the `n`-byte big-endian form of `v`, `beVal` the value of a
byte list. The two are inverse to each other on lists of one length, which is
what `to_be_bytes` and `from_be_bytes` of every width rely on.
-/

namespace Lib

def beVal (bs : Bytes) : ℕ := bs.foldl (fun acc b => acc * 256 + b.toNat) 0

def beBytes : ℕ → ℕ → Bytes
  | 0, _ => []
  | n + 1, v => beBytes n (v / 256) ++ [UInt8.ofNat v]

@[simp] theorem beBytes_length (n v : ℕ) : (beBytes n v).length = n := by
  induction n generalizing v with
  | zero => rfl
  | succ n ih => simp [beBytes, ih]

theorem length_flatMap_beBytes (n : ℕ) (l : List ℕ) :
    (l.flatMap (beBytes n)).length = n * l.length := by
  induction l with
  | nil => rfl
  | cons v l ih =>
    rw [List.flatMap_cons, List.length_append, beBytes_length, ih, List.length_cons]
    ring

@[simp] theorem beVal_concat (bs : Bytes) (b : UInt8) : beVal (bs ++ [b]) = beVal bs * 256 + b.toNat := by
  simp [beVal]

theorem beVal_append (xs ys : Bytes) : beVal (xs ++ ys) = beVal xs * 256 ^ ys.length + beVal ys := by
  induction ys using List.reverseRecOn with
  | nil => simp [beVal]
  | append_singleton ys y ih =>
    rw [← List.append_assoc, beVal_concat, ih, beVal_concat, List.length_append,
      List.length_singleton, pow_succ]
    ring

theorem beVal_lt (bs : Bytes) : beVal bs < 256 ^ bs.length := by
  induction bs using List.reverseRecOn with
  | nil => simp [beVal]
  | append_singleton bs b ih =>
    have hb := b.toNat_lt
    rw [beVal_concat, List.length_append, List.length_singleton, pow_succ]
    omega

theorem beVal_beBytes (n v : ℕ) : beVal (beBytes n v) = v % 256 ^ n := by
  induction n generalizing v with
  | zero => simp [beBytes, beVal, Nat.mod_one]
  | succ n ih =>
    have hd : v % (256 * 256 ^ n) = v % 256 + 256 * (v / 256 % 256 ^ n) := Nat.mod_mul
    have hb : (UInt8.ofNat v).toNat = v % 256 := UInt8.toNat_ofNat'
    rw [beBytes, beVal_concat, ih, hb, pow_succ', hd]
    ring

theorem beBytes_beVal (bs : Bytes) : beBytes bs.length (beVal bs) = bs := by
  induction bs using List.reverseRecOn with
  | nil => rfl
  | append_singleton bs b ih =>
    have hb := b.toNat_lt
    have hdiv : (beVal bs * 256 + b.toNat) / 256 = beVal bs := by omega
    have hmod : UInt8.ofNat (beVal bs * 256 + b.toNat) = b := by
      apply UInt8.toNat_inj.mp
      rw [UInt8.toNat_ofNat']
      omega
    rw [List.length_append, List.length_singleton, beBytes, beVal_concat, hdiv, hmod, ih]

/-- Lists of one length with one value are equal. -/
theorem beVal_inj {xs ys : Bytes} (hl : xs.length = ys.length) (hv : beVal xs = beVal ys) : xs = ys := by
  rw [← beBytes_beVal xs, ← beBytes_beVal ys, hl, hv]

end Lib
