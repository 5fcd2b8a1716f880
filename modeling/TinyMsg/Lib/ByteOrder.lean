import TinyMsg.Lib.BigEndian

/-!
# Byte order of a host

`ByteOrder.load` is the number that a host reads from bytes of its memory, and `ByteOrder.store` the
bytes that it keeps a number in.  A host stores what it has loaded as the bytes it was.  A host of
the other byte order stores it as the reversed bytes, so it gives the bytes back exactly when they
read the same in both directions (`store_load_eq_iff`).
-/

namespace TinyMsg

/-- The order in which a host keeps the bytes of a number in its memory. -/
inductive ByteOrder
  /-- The most significant byte first. -/
  | big
  /-- The least significant byte first. -/
  | little
  deriving DecidableEq

namespace ByteOrder

/-- Bytes of the memory with the most significant one first, and back. -/
def arrange : ByteOrder → List UInt8 → List UInt8
  | .big, bs => bs
  | .little, bs => bs.reverse

/-- The number in bytes of the memory. -/
def load (o : ByteOrder) (bs : List UInt8) : ℕ := numeral (o.arrange bs)

/-- The bytes in which a number is kept in the memory. -/
def store (o : ByteOrder) (w n : ℕ) : List UInt8 := o.arrange (bigEndian w n)

variable {bs : List UInt8} {w : ℕ}

@[simp] theorem length_arrange (o : ByteOrder) (bs : List UInt8) :
    (o.arrange bs).length = bs.length := by
  cases o with
  | big => rfl
  | little => exact List.length_reverse

@[simp] theorem length_store (o : ByteOrder) (w n : ℕ) : (o.store w n).length = w := by
  rw [store, length_arrange, length_bigEndian]

/-- A loaded number fits the width. -/
theorem load_lt (o : ByteOrder) (hw : bs.length = w) : o.load bs < 256 ^ w := by
  have hlt := numeral_lt (o.arrange bs)
  rwa [length_arrange, hw] at hlt

/-- What one host stores of a number that another one has loaded. -/
theorem store_load_eq (o o' : ByteOrder) (hw : bs.length = w) :
    o'.store w (o.load bs) = o'.arrange (o.arrange bs) := by
  have hbytes := bigEndian_numeral (o.arrange bs)
  rw [length_arrange, hw] at hbytes
  rw [store, load, hbytes]

/-- A number is stored as the bytes that it was loaded from exactly when it stays on hosts of one
byte order, or the bytes read the same in both directions. -/
theorem store_load_eq_iff (o o' : ByteOrder) (hw : bs.length = w) :
    o'.store w (o.load bs) = bs ↔ o = o' ∨ bs.reverse = bs := by
  rw [store_load_eq o o' hw]
  cases o <;> cases o' <;> simp [arrange]

end ByteOrder

end TinyMsg
