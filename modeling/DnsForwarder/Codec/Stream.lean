import Mathlib.Data.List.Basic
import Mathlib.Data.Int.Notation

/-!
# Byte streams

The part of `std::istringstream` that the decoder uses, with the automatic buffers it reads into.
A read past the end stores the bytes there are and leaves the rest of the buffer as it was, so
what a buffer held before matters: `junk` says what each buffer holds when it comes into scope.

An `std::ostringstream` only grows at its end. The encoder is modelled by the bytes it appends.
-/

namespace DnsForwarder

abbrev Bytes := List UInt8

/-- What the automatic buffers hold when they come into scope: buffer by buffer, byte by byte. -/
abbrev Junk := ℕ → ℕ → UInt8

/-- Why a call of the decoder has no result. -/
inductive Fault
  /-- A write past the end of an automatic buffer, which has no meaning in C++. -/
  | overrun
  /-- The budget of loop iterations is used up. -/
  | fuel
  deriving DecidableEq

/-- An `std::istringstream`: the bytes not read yet, and the contents of the buffers that are
still to come into scope. -/
structure IStream where
  unread : Bytes
  junk : Junk

namespace IStream

variable (is : IStream)

/-- `peek`: the next byte, `-1` at the end. -/
def peek : ℤ :=
  match is.unread with
  | [] => -1
  | b :: _ => b.toNat

/-- `get`: the next byte, which is consumed. -/
def get : ℤ × IStream := (is.peek, { is with unread := is.unread.tail })

/-- `char tmp[n];` -/
def alloc (n : ℕ) : Bytes × IStream :=
  ((List.range n).map (is.junk 0), { is with junk := fun k => is.junk (k + 1) })

/-- `read(tmp, n)`: the bytes there are replace the first ones of `tmp`. -/
def read (tmp : Bytes) (n : ℕ) : Bytes × IStream :=
  (is.unread.take n ++ tmp.drop (min n is.unread.length),
    { is with unread := is.unread.drop n })

@[simp] theorem get_fst : is.get.1 = is.peek := rfl
@[simp] theorem get_unread : is.get.2.unread = is.unread.tail := rfl
@[simp] theorem get_junk : is.get.2.junk = is.junk := rfl
@[simp] theorem alloc_unread (n : ℕ) : (is.alloc n).2.unread = is.unread := rfl
@[simp] theorem length_alloc (n : ℕ) : (is.alloc n).1.length = n := by simp [alloc]
@[simp] theorem read_unread (tmp : Bytes) (n : ℕ) :
    (is.read tmp n).2.unread = is.unread.drop n := rfl
@[simp] theorem read_junk (tmp : Bytes) (n : ℕ) : (is.read tmp n).2.junk = is.junk := rfl

/-- A read fills the buffer that was made for it, whether the input satisfies it or not. -/
theorem length_take_read (n : ℕ) :
    (((is.alloc n).2.read (is.alloc n).1 n).1.take n).length = n := by
  simp only [read, List.length_take, List.length_append, List.length_drop, length_alloc]
  omega

/-- A read that the input satisfies in full. -/
theorem read_fst_take {tmp : Bytes} {n : ℕ} (h : n ≤ is.unread.length) :
    (is.read tmp n).1.take n = is.unread.take n := by
  rw [read, List.take_append_of_le_length (by simp [h]), List.take_take, Nat.min_self]

end IStream

/-! ## The test for a compression pointer -/

/-- `((c >> 6) & 0x3) == 0x3`; the two lowest bits of an `int` are its remainder modulo 4. -/
def isPointer (c : ℤ) : Bool := (c >>> (6 : ℕ)) % 4 == 3

theorem isPointer_neg_one : isPointer (-1) = true := rfl

/-- A byte passes the test if its two highest bits are set. -/
theorem isPointer_byte (b : UInt8) : isPointer b.toNat = true ↔ 192 ≤ b.toNat := by
  have hb := b.toNat_lt
  rw [isPointer, beq_iff_eq, Int.shiftRight_eq_div_pow]
  omega

theorem isPointer_byte_eq_false (b : UInt8) : isPointer b.toNat = false ↔ b.toNat < 192 := by
  rw [← Bool.not_eq_true, isPointer_byte, Nat.not_le]

/-- `'.'`. -/
abbrev dot : UInt8 := 46

theorem ofInt_natCast (n : ℕ) : UInt8.ofInt (n : ℤ) = UInt8.ofNat n := by
  have h : ((n : ℤ) % 2 ^ 8).toNat = n % 2 ^ 8 := by omega
  rw [UInt8.ofInt, h, UInt8.ofNat_mod_size]

end DnsForwarder
