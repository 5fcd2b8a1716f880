import Mathlib

/-!
# Big-endian bytes

`bigEndian w n` is the `w`-byte big-endian string of `n`, produced by shifting and truncating, and
`numeral` reads a byte string as a base-256 numeral.  Reading back what was written gives `n`
modulo `256 ^ w`.  A decoder that collects the bytes by shifting each one to its place and
or-ing it in computes the same number: `or_shift_eq_add` is the step of that accumulation.
-/

namespace TinyMsg

/-- The `w` low-order bytes of `n`, most significant first. -/
def bigEndian : ℕ → ℕ → List UInt8
  | 0, _ => []
  | w + 1, n => UInt8.ofNat (n >>> (8 * w)) :: bigEndian w n

/-- The number a byte string denotes in base 256, most significant byte first. -/
def numeral (bs : List UInt8) : ℕ := bs.foldl (fun v b => v * 256 + b.toNat) 0

@[simp] theorem length_bigEndian (w n : ℕ) : (bigEndian w n).length = w := by
  induction w with
  | zero => rfl
  | succ w ih => rw [bigEndian, List.length_cons, ih]

/-- The accumulator of the base-256 fold is the leading part of the numeral. -/
theorem foldl_base256 (v : ℕ) (bs : List UInt8) :
    bs.foldl (fun v b => v * 256 + b.toNat) v = v * 256 ^ bs.length + numeral bs := by
  induction bs generalizing v with
  | nil => simp [numeral]
  | cons b bs ih =>
    have hz := ih b.toNat
    rw [numeral, List.foldl_cons, List.foldl_cons, ih, Nat.zero_mul, Nat.zero_add, hz,
      List.length_cons, pow_succ]
    ring

/-- A leading byte counts with the weight of its place. -/
theorem numeral_cons (b : UInt8) (bs : List UInt8) :
    numeral (b :: bs) = b.toNat * 256 ^ bs.length + numeral bs := by
  rw [numeral, List.foldl_cons, Nat.zero_mul, Nat.zero_add, foldl_base256]

@[simp] theorem numeral_nil : numeral [] = 0 := rfl

/-- A byte string of length `w` denotes a number below `256 ^ w`. -/
theorem numeral_lt (bs : List UInt8) : numeral bs < 256 ^ bs.length := by
  induction bs with
  | nil => simp
  | cons b bs ih =>
    have hb : b.toNat < 256 := b.toNat_lt
    rw [numeral_cons, List.length_cons, pow_succ]
    calc b.toNat * 256 ^ bs.length + numeral bs
        < b.toNat * 256 ^ bs.length + 256 ^ bs.length := by omega
      _ = (b.toNat + 1) * 256 ^ bs.length := by ring
      _ ≤ 256 * 256 ^ bs.length := Nat.mul_le_mul_right _ hb
      _ = 256 ^ bs.length * 256 := Nat.mul_comm _ _

/-- Reading back the big-endian bytes of `n` gives `n` modulo the width. -/
theorem numeral_bigEndian (w n : ℕ) : numeral (bigEndian w n) = n % 256 ^ w := by
  induction w with
  | zero => simp [bigEndian, Nat.mod_one]
  | succ w ih =>
    have hpow : 2 ^ (8 * w) = 256 ^ w := by rw [pow_mul]; norm_num
    rw [bigEndian, numeral_cons, length_bigEndian, ih, UInt8.toNat_ofNat',
      Nat.shiftRight_eq_div_pow, hpow, pow_succ 256 w, Nat.mod_mul, Nat.add_comm, Nat.mul_comm]

/-- Reading back a number that fits the width gives the number itself. -/
theorem numeral_bigEndian_of_lt {w n : ℕ} (h : n < 256 ^ w) : numeral (bigEndian w n) = n := by
  rw [numeral_bigEndian, Nat.mod_eq_of_lt h]

/-- A byte string is the big-endian string of the number it denotes. -/
theorem bigEndian_numeral (bs : List UInt8) : bigEndian bs.length (numeral bs) = bs := by
  induction bs with
  | nil => rfl
  | cons b bs ih =>
    have hpow : 2 ^ (8 * bs.length) = 256 ^ bs.length := by rw [pow_mul]; norm_num
    have hlt := numeral_lt bs
    have hdiv : numeral (b :: bs) / 256 ^ bs.length = b.toNat := by
      rw [numeral_cons, Nat.add_comm, Nat.add_mul_div_right _ _ (by positivity),
        Nat.div_eq_of_lt hlt, Nat.zero_add]
    have htail : ∀ w, w ≤ bs.length →
        bigEndian w (numeral (b :: bs)) = bigEndian w (numeral bs) := by
      intro w
      induction w with
      | zero => intro _; rfl
      | succ w ihw =>
        intro hw
        have hsplit : 256 ^ bs.length = 256 ^ (w + 1) * 256 ^ (bs.length - (w + 1)) := by
          rw [← pow_add]; congr 1; omega
        have hpw : 2 ^ (8 * w) = 256 ^ w := by rw [pow_mul]; norm_num
        have hbyte : UInt8.ofNat (numeral (b :: bs) >>> (8 * w)) =
            UInt8.ofNat (numeral bs >>> (8 * w)) := by
          apply UInt8.toNat_inj.mp
          rw [UInt8.toNat_ofNat', UInt8.toNat_ofNat', Nat.shiftRight_eq_div_pow,
            Nat.shiftRight_eq_div_pow, hpw, numeral_cons, hsplit, pow_succ]
          have hre : b.toNat * (256 ^ w * 256 * 256 ^ (bs.length - (w + 1))) + numeral bs =
              numeral bs + (b.toNat * 256 ^ (bs.length - (w + 1)) * 256) * 256 ^ w := by ring
          rw [hre, Nat.add_mul_div_right _ _ (by positivity)]
          exact Nat.add_mul_mod_self_right _ _ _
        rw [bigEndian, bigEndian, hbyte, ihw (by omega)]
    rw [List.length_cons, bigEndian, Nat.shiftRight_eq_div_pow, hpow, hdiv, htail _ le_rfl, ih,
      UInt8.ofNat_toNat]

/-- Or-ing a value below `2 ^ k` into a multiple of `2 ^ k` adds it. -/
theorem or_shift_eq_add {k v b : ℕ} (hb : b < 2 ^ k) : (v <<< k) ||| b = v * 2 ^ k + b := by
  rw [← Nat.shiftLeft_add_eq_or_of_lt hb, Nat.shiftLeft_eq]

end TinyMsg
