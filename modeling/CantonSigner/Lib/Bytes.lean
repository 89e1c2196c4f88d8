import Mathlib.Data.List.TakeWhile
import Mathlib.Tactic.Ring

/-!
# Byte strings and big-endian codecs

The data every layer of the development is made of: byte strings, C strings
inside them, and the big-endian integer codecs of the hash encodings.

- `Bytes`, `str`: byte strings and the bytes of a character string;
- `cstr`: what `strlen`/`strcmp` see of a buffer (everything before the first
  NUL);
- `beBytes w n`: the low `w` bytes of `n`, most significant first, with its
  length (`length_beBytes`) and injectivity below `256 ^ w` (`beBytes_inj`).
-/

namespace ByteCodec

/-- A byte string. -/
abbrev Bytes := List UInt8

/-- The UTF-8 bytes of a character string. -/
def str (s : String) : Bytes := s.toByteArray.data.toList

/-- The C string at the start of a buffer: everything before the first NUL. -/
def cstr (b : Bytes) : Bytes := b.takeWhile (· != 0)

/-- A C string holds no NUL. -/
def NulFree (b : Bytes) : Prop := ∀ c ∈ b, c ≠ 0

instance (b : Bytes) : Decidable (NulFree b) := List.decidableBAll _ b

theorem cstr_nulFree (b : Bytes) : NulFree (cstr b) := by
  intro c hc
  have h := List.mem_takeWhile_imp hc
  simpa using h

theorem cstr_eq_self {b : Bytes} (h : NulFree b) : cstr b = b := by
  unfold cstr
  rw [List.takeWhile_eq_self_iff]
  intro c hc
  simpa using h c hc

@[simp] theorem cstr_cstr (b : Bytes) : cstr (cstr b) = cstr b :=
  cstr_eq_self (cstr_nulFree b)

/-! ## Big-endian integers -/

/-- The low `w` bytes of `n`, most significant byte first. -/
def beBytes : Nat → Nat → Bytes
  | 0, _ => []
  | w + 1, n => UInt8.ofNat (n / 256 ^ w % 256) :: beBytes w n

@[simp] theorem length_beBytes (w n : Nat) : (beBytes w n).length = w := by
  induction w with
  | zero => rfl
  | succ w ih => simp [beBytes, ih]

/-- Bytes determine the digits they were cut from. -/
theorem ofNat_mod_inj {a b : Nat}
    (h : UInt8.ofNat (a % 256) = UInt8.ofNat (b % 256)) : a % 256 = b % 256 := by
  have h' := congrArg UInt8.toNat h
  have ha : a % 256 < 256 := Nat.mod_lt _ (by decide)
  have hb : b % 256 < 256 := Nat.mod_lt _ (by decide)
  simpa [UInt8.toNat_ofNat', Nat.mod_eq_of_lt ha, Nat.mod_eq_of_lt hb] using h'

theorem beBytes_mod_inj (w : Nat) {a b : Nat} (h : beBytes w a = beBytes w b) :
    a % 256 ^ w = b % 256 ^ w := by
  induction w with
  | zero => simp [Nat.mod_one]
  | succ w ih =>
    simp only [beBytes, List.cons.injEq] at h
    have htop := ofNat_mod_inj h.1
    have hlow := ih h.2
    have split : ∀ n : Nat, n % 256 ^ (w + 1)
        = 256 ^ w * (n / 256 ^ w % 256) + n % 256 ^ w := by
      intro n
      rw [Nat.pow_succ, Nat.mod_mul, Nat.add_comm]
    rw [split a, split b, htop, hlow]

/-- Integers below `256 ^ w` are determined by their `w` big-endian bytes. -/
theorem beBytes_inj {w a b : Nat} (ha : a < 256 ^ w) (hb : b < 256 ^ w)
    (h : beBytes w a = beBytes w b) : a = b := by
  have := beBytes_mod_inj w h
  rwa [Nat.mod_eq_of_lt ha, Nat.mod_eq_of_lt hb] at this

end ByteCodec
