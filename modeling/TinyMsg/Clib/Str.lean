import Mathlib

/-!
# Character strings: `char *` and `String` of `clib.c`

`CStr` is what a `char *` argument points to: the bytes before the terminating NUL, none of which
is NUL.  `String` is the struct of `clib.h`: a block (`none` for a null pointer) and a 16-bit
length.  `CSTR` reads a `String` as a `char *`, up to the first NUL of its block.
-/

namespace TinyMsg

/-- A number stored into an `int`. -/
def wrapInt (n : ℤ) : ℤ := (n + 2 ^ 31) % 2 ^ 32 - 2 ^ 31

/-- A number in the range of `int` is stored unchanged. -/
theorem wrapInt_of_lt {n : ℕ} (h : n < 2 ^ 31) : wrapInt n = n := by
  rw [wrapInt]
  omega

/-- Adding to a stored number and storing the sum. -/
theorem wrapInt_add (a b : ℤ) : wrapInt (wrapInt a + b) = wrapInt (a + b) := by
  simp only [wrapInt]
  omega

/-- An `int` is below `2 ^ 31`. -/
theorem wrapInt_lt (n : ℤ) : wrapInt n < 2 ^ 31 := by
  rw [wrapInt]
  omega

/-- An `int` is at most the number that was stored into it. -/
theorem wrapInt_toNat_le (n : ℕ) : (wrapInt n).toNat ≤ n := by
  rw [wrapInt]
  omega

/-- A count kept in an `int` agrees with the exact one modulo `2 ^ 16`, which is what a `u16`
keeps of it. -/
theorem wrapInt_toNat_mod (n : ℕ) : (wrapInt n % 2 ^ 16).toNat = n % 2 ^ 16 := by
  rw [wrapInt]
  omega

/-- A NUL-terminated string: the bytes before the NUL. -/
structure CStr where
  /-- The bytes before the terminating NUL. -/
  bytes : List UInt8
  /-- The terminating NUL is the only one. -/
  noNul : 0 ∉ bytes
  deriving DecidableEq

/-- A byte of a character constant. -/
def ofChar (c : Char) : UInt8 := UInt8.ofNat c.toNat

/-- The bytes of a string constant, such as a format. -/
def ofChars (cs : List Char) : List UInt8 := cs.map ofChar

namespace CStr

/-- What a pointer into the bytes `bs`, followed by a NUL, points to. -/
def ofBytes (bs : List UInt8) : CStr where
  bytes := bs.takeWhile (· ≠ 0)
  noNul := fun h => by simpa using List.mem_takeWhile_imp h

/-- The empty string `""`. -/
def empty : CStr := ⟨[], List.not_mem_nil⟩

instance : Inhabited CStr := ⟨empty⟩

/-- Two strings are equal when their bytes are. -/
theorem ext {s t : CStr} (h : s.bytes = t.bytes) : s = t := by
  cases s
  cases t
  cases h
  rfl

/-- Bytes without a NUL are read back whole. -/
theorem ofBytes_bytes (s : CStr) : ofBytes s.bytes = s := by
  refine CStr.ext (List.takeWhile_eq_self_iff.mpr fun b hb => ?_)
  exact decide_eq_true fun h => s.noNul (h ▸ hb)

/-- A string constant. -/
def const (cs : List Char) : CStr := ofBytes (ofChars cs)

/-- A string that is printed as one string behind another. -/
def append (s t : CStr) : CStr where
  bytes := s.bytes ++ t.bytes
  noNul := by
    rw [List.mem_append]
    exact not_or.mpr ⟨s.noNul, t.noNul⟩

end CStr

/-- `strlen`. -/
def strlen (s : CStr) : ℕ := s.bytes.length

@[simp] theorem strlen_append (s t : CStr) : strlen (s.append t) = strlen s + strlen t :=
  List.length_append

/-- A `char` array of `size` bytes that holds a NUL-terminated string. -/
structure StaticStr (size : ℕ) where
  /-- The string. -/
  str : CStr
  /-- It leaves room for the NUL. -/
  fits : str.bytes.length ≤ size - 1
  deriving DecidableEq

instance (size : ℕ) : Inhabited (StaticStr size) := ⟨⟨CStr.empty, Nat.zero_le _⟩⟩

/-- `staticstr_copy` into an array of `destSize` bytes: as many bytes as leave room for the NUL.
(`destSize` is never `0` in this program.) -/
def staticstrCopy (destSize : ℕ) (src : CStr) : StaticStr destSize where
  str :=
    { bytes := src.bytes.take (destSize - 1)
      noNul := fun h => src.noNul (List.mem_of_mem_take h) }
  fits := List.length_take_le _ _

/-- Copying between arrays of the same size changes nothing. -/
@[simp] theorem staticstrCopy_str {size : ℕ} (s : StaticStr size) :
    staticstrCopy size s.str = s := by
  have hstr : (staticstrCopy size s.str).str = s.str :=
    CStr.ext (List.take_of_length_le s.fits)
  cases s
  cases hcopy : staticstrCopy size _
  rw [hcopy] at hstr
  cases hstr
  rfl

/-- `String` of `clib.h`: a block and the number of its bytes that are the content. -/
structure String where
  /-- The block at `bs`, `none` for a null pointer. -/
  bs : Option (List UInt8)
  /-- The 16-bit length. -/
  len : ℕ
  deriving DecidableEq

/-- `StringNew0`: no block. -/
def stringNew0 : String := ⟨none, 0⟩

/-- `StringNewFromBytes` of the bytes `bs`: they are copied and a NUL is put behind them; the
length is the `int` number of bytes stored into a `u16`. -/
def stringNewFromBytes (bs : List UInt8) : String := ⟨some (bs ++ [0]), bs.length % 2 ^ 16⟩

/-- `StringNew`: a copy of the characters; the length is stored into a `u16` first. -/
def stringNew (s : CStr) : String :=
  ⟨some (s.bytes.take (strlen s % 2 ^ 16) ++ [0]), strlen s % 2 ^ 16⟩

/-- `StringDup`: a copy of the content. -/
def stringDup (src : String) : String :=
  ⟨some ((src.bs.getD []).take src.len ++ [0]), src.len⟩

namespace String

/-- The content: the first `len` bytes of the block. -/
def bytes (s : String) : List UInt8 := (s.bs.getD []).take s.len

/-- `CSTR`: the block up to its first NUL, the empty string when there is no block. -/
def cstr (s : String) : CStr := CStr.ofBytes (s.bs.getD [])

@[simp] theorem stringNew0_bytes : stringNew0.bytes = [] := rfl

@[simp] theorem stringNew0_cstr : stringNew0.cstr = CStr.empty := rfl

/-- The content of a `String` made from fewer than 65536 bytes is those bytes. -/
theorem stringNewFromBytes_bytes {bs : List UInt8} (h : bs.length < 2 ^ 16) :
    (stringNewFromBytes bs).bytes = bs := by
  change (bs ++ [0]).take (bs.length % 2 ^ 16) = bs
  rw [Nat.mod_eq_of_lt h, List.take_left]

/-- Read as a `char *`, a `String` made from bytes ends at the first NUL among them. -/
theorem stringNewFromBytes_cstr (bs : List UInt8) :
    (stringNewFromBytes bs).cstr = CStr.ofBytes bs := by
  refine CStr.ext ?_
  change (bs ++ [0]).takeWhile (· ≠ 0) = bs.takeWhile (· ≠ 0)
  induction bs with
  | nil => rfl
  | cons b bs ih =>
    rw [List.cons_append, List.takeWhile_cons, List.takeWhile_cons, ih]

end String

/-- A copy of fewer than 65536 characters is read back whole. -/
theorem stringNew_cstr {s : CStr} (h : strlen s < 2 ^ 16) : (stringNew s).cstr = s := by
  have hcopy : stringNew s = stringNewFromBytes s.bytes := by
    have htake : s.bytes.take (strlen s) = s.bytes := List.take_length
    rw [stringNew, Nat.mod_eq_of_lt h, htake, stringNewFromBytes]
    exact congrArg (String.mk _) (Nat.mod_eq_of_lt h).symm
  rw [hcopy, String.stringNewFromBytes_cstr, CStr.ofBytes_bytes]

end TinyMsg
