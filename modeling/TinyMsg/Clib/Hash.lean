import TinyMsg.Clib.Str

/-!
# `hash16` of `clib.c`

`hash16` is to be the value of the key as a polynomial in 31, modulo the size of the table.  Its
loop adds each character as a `char`, which is signed: a byte from 128 on counts as 256 less.  The
sum can then be negative, `%` gives a negative remainder, and storing it into the `u16` leaves a
number close to `2 ^ 16`, whatever the size of the table.

For a key of bytes below 128 every round is the Horner step (`hashRound_of_lt`), and a byte from
128 on after such a key spoils the hash (`hashRound_of_ge`).
-/

namespace TinyMsg

/-- A byte read as a signed `char`. -/
def signedChar (b : UInt8) : ℤ := if b < 128 then b.toNat else b.toNat - 256

/-- `HASHPRIME` -/
def hashPrime : ℕ := 31

/-- A round of the loop of `hash16`: the sum fits an `int`, and the remainder, which has the sign
of the sum, is stored into a `u16`. -/
def hashRound (size : ℤ) (hash : ℕ) (ch : UInt8) : ℕ :=
  (Int.tmod (hash * hashPrime + signedChar ch) size % 2 ^ 16).toNat

/-- The loop of `hash16`, up to the NUL. -/
def hash16Loop (size : ℤ) (hash : ℕ) : List UInt8 → ℕ
  | [] => hash
  | ch :: k => hash16Loop size (hashRound size hash ch) k

/-- `hash16`: a size of `0` stands for `USHRT_MAX + 1`. -/
def hash16 (k : CStr) (size : ℤ) : ℕ := hash16Loop (if size = 0 then 65535 + 1 else size) 0 k.bytes

/-- The number of entries of a table whose size is passed as `size`. -/
def tableSize (size : ℤ) : ℕ := if size = 0 then 65536 else size.toNat

/-- The polynomial hash of bytes: the value of the polynomial with these coefficients, the leading
one first. -/
def polyHash (bs : List UInt8) : ℕ := Nat.ofDigits hashPrime (bs.reverse.map UInt8.toNat)

/-- What `hash16` is for: the polynomial hash, inside the table. -/
structure IsHash (k : CStr) (size : ℤ) : Prop where
  /-- The hash is an index of the table. -/
  lt : hash16 k size < tableSize size
  /-- It is the polynomial hash modulo the size of the table. -/
  eq : hash16 k size = polyHash k.bytes % tableSize size

/-! ## A round -/

section Round

variable {size hash : ℕ} {ch : UInt8}

/-- The polynomial hash by Horner's rule. -/
theorem polyHash_concat (bs : List UInt8) (ch : UInt8) :
    polyHash (bs ++ [ch]) = polyHash bs * hashPrime + ch.toNat := by
  rw [polyHash, List.reverse_append, List.map_append, Nat.ofDigits_append, polyHash]
  simp only [List.reverse_singleton, List.map_cons, List.map_nil, Nat.ofDigits_singleton,
    List.length_singleton, pow_one]
  ring

/-- The loop over a key and one more character. -/
theorem hash16Loop_concat (n : ℤ) (hash : ℕ) (bs : List UInt8) (ch : UInt8) :
    hash16Loop n hash (bs ++ [ch]) = hashRound n (hash16Loop n hash bs) ch := by
  induction bs generalizing hash with
  | nil => rfl
  | cons b bs ih => exact ih (hashRound n hash b)

/-- A round on a byte below 128 is the Horner step. -/
theorem hashRound_of_lt (hpos : 0 < size) (hsize : size ≤ 2 ^ 16) (hash : ℕ) (hch : ch < 128) :
    hashRound size hash ch = (hash * hashPrime + ch.toNat) % size := by
  have hrem : Int.tmod (hash * hashPrime + signedChar ch) size =
      ((hash * hashPrime + ch.toNat) % size : ℕ) := by
    rw [signedChar, if_pos hch, Int.tmod_eq_emod_of_nonneg (by positivity)]
    norm_cast
  have hlt : (hash * hashPrime + ch.toNat) % size < size := Nat.mod_lt _ hpos
  rw [hashRound, hrem]
  omega

/-- A round on a byte from 128 on is not the Horner step, in a table of 1000 entries. -/
theorem hashRound_of_ge (hash : ℕ) (hch : ¬ ch < 128) :
    hashRound 1000 hash ch ≠ (hash * hashPrime + ch.toNat) % 1000 := by
  have hge : 128 ≤ ch.toNat := not_lt.mp hch
  have hlt := ch.toNat_lt
  rw [hashRound, signedChar, if_neg hch, hashPrime]
  rcases le_or_gt 0 ((hash : ℤ) * (31 : ℕ) + (ch.toNat - 256)) with hsum | hsum
  · -- 256 is missing
    rw [Int.tmod_eq_emod_of_nonneg hsum]
    omega
  · -- the remainder is negative
    have hrem : ∀ y : ℤ, 0 ≤ y → y < 1000 → Int.tmod (-y) 1000 = -y := by
      intro y hnonneg hy
      rw [Int.neg_tmod, Int.tmod_eq_of_lt hnonneg hy]
    have hsmall := hrem (256 - ch.toNat - hash * 31) (by omega) (by omega)
    have hsum_eq : (hash : ℤ) * (31 : ℕ) + (ch.toNat - 256) = -(256 - ch.toNat - hash * 31) := by
      omega
    rw [hsum_eq, hsmall]
    omega

end Round

/-! ## The hash -/

section Hash

variable {k : CStr} {size : ℤ}

/-- The size that the loop divides by is the number of entries. -/
theorem cast_tableSize (hsize : 0 ≤ size) :
    (tableSize size : ℤ) = if size = 0 then 65535 + 1 else size := by
  unfold tableSize
  split <;> omega

/-- The loop on a key of bytes below 128 gives the polynomial hash. -/
theorem hash16Loop_eq {n : ℕ} (hpos : 0 < n) (hn : n ≤ 2 ^ 16) {bs : List UInt8}
    (hbs : ∀ b ∈ bs, b < 128) : hash16Loop n 0 bs = polyHash bs % n := by
  induction bs using List.reverseRecOn with
  | nil => exact (Nat.zero_mod n).symm
  | append_singleton bs ch ih =>
    have hlast : ch < 128 := hbs ch (List.mem_append_right _ (List.mem_singleton_self ch))
    rw [hash16Loop_concat, ih fun b hb => hbs b (List.mem_append_left _ hb),
      hashRound_of_lt hpos hn _ hlast, polyHash_concat, Nat.add_mod, Nat.mod_mul_mod,
      ← Nat.add_mod]

/-- A key of bytes below 128 is hashed right, whatever the size. -/
theorem isHash_of_lt (hk : ∀ b ∈ k.bytes, b < 128) (hnonneg : 0 ≤ size) (hsize : size ≤ 65536) :
    IsHash k size := by
  have hpos : 0 < tableSize size := by
    unfold tableSize
    split <;> omega
  have hle : tableSize size ≤ 2 ^ 16 := by
    unfold tableSize
    split <;> omega
  have heq : hash16 k size = polyHash k.bytes % tableSize size := by
    rw [hash16, ← cast_tableSize hnonneg]
    exact hash16Loop_eq hpos hle hk
  refine ⟨?_, heq⟩
  rw [heq]
  exact Nat.mod_lt _ hpos

/-- A list with an item that fails `p` has a first one. -/
theorem exists_first {α : Type*} {p : α → Bool} {l : List α} (h : ¬ ∀ x ∈ l, p x) :
    ∃ front x, front ++ [x] <+: l ∧ (∀ y ∈ front, p y) ∧ ¬ p x := by
  have hne : l.dropWhile p ≠ [] := by
    intro hnil
    exact h (List.dropWhile_eq_nil_iff.mp hnil)
  obtain ⟨x, back, hcons⟩ := List.exists_cons_of_ne_nil hne
  refine ⟨l.takeWhile p, x, ⟨back, ?_⟩, fun y hy => List.mem_takeWhile_imp hy, ?_⟩
  · rw [List.append_assoc, List.singleton_append, ← hcons, List.takeWhile_append_dropWhile]
  · have hhead := List.head_dropWhile_not p hne
    simp only [hcons, List.head_cons] at hhead
    rw [hhead]
    exact Bool.false_ne_true

/-- `hash16` hashes a key and the keys it starts with right, for every size, exactly when all bytes
of the key are below 128. -/
theorem hash16_iff (k : CStr) :
    (∀ (k' : CStr) (size : ℤ), k'.bytes <+: k.bytes → 0 ≤ size → size ≤ 65536 → IsHash k' size) ↔
      ∀ b ∈ k.bytes, b < 128 := by
  constructor
  · intro hall
    by_contra hhigh
    obtain ⟨front, ch, hpre, hfront, hch⟩ :=
      exists_first (p := fun b => decide (b < 128)) (l := k.bytes) (by simpa using hhigh)
    -- the key up to its first byte from 128 on
    have hnul : 0 ∉ front ++ [ch] := fun h => k.noNul (hpre.subset h)
    have heq := (hall ⟨front ++ [ch], hnul⟩ 1000 hpre (by decide) (by decide)).eq
    change hash16Loop 1000 0 (front ++ [ch]) = polyHash (front ++ [ch]) % 1000 at heq
    have hrest : hash16Loop 1000 0 front = polyHash front % 1000 :=
      hash16Loop_eq (by decide) (by decide) fun b hb => of_decide_eq_true (hfront b hb)
    rw [hash16Loop_concat, hrest, polyHash_concat, Nat.add_mod, ← Nat.mod_mul_mod,
      ← Nat.add_mod] at heq
    exact hashRound_of_ge _ (by simpa using hch) heq
  · intro hk k' size hpre hnonneg hsize
    exact isHash_of_lt (fun b hb => hk b (hpre.subset hb)) hnonneg hsize

/-- The key of one byte 255 counts as `-1`, and its hash is 65535 in a table of 97 entries. -/
theorem hash16_outside_table :
    let k : CStr := ⟨[255], by decide⟩
    hash16 k 97 = 65535 ∧ ¬ IsHash k 97 := by
  intro k
  have hhash : hash16 k 97 = 65535 := by decide
  refine ⟨hhash, fun h => ?_⟩
  have hlt := h.lt
  rw [hhash] at hlt
  exact absurd hlt (by decide)

end Hash

end TinyMsg
