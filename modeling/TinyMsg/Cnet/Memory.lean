import TinyMsg.Clib.Arena
import TinyMsg.Cnet.Decode

/-!
# Packing and unpacking in an arena

The buffer that `NetPackV` appends to and the strings that `NetUnpack` makes take their memory from
an arena.  The functions with the ending `In` make it explicit, as in `Clib/Arena`; what they pack
and unpack is what the functions without it do.
-/

namespace TinyMsg

/-! ## Packing -/

/-- Several calls of `BufferAppendChar` or `BufferAppendByte` in a row, in an arena. -/
def appendBytesIn (arena : Arena) (buf : Buffer) (bs : List UInt8) :
    Except Stop (Arena × Buffer) :=
  run (fun s b => bufferAppendIn s.1 s.2 [b]) (arena, buf) bs

/-- The loop of `NetPackV`, in an arena. -/
def netPackLoopIn : FmtState → List UInt8 → List Arg → Arena → Buffer → ℤ →
    Except Stop (Arena × Buffer × ℤ)
  | _, [], _, arena, buf, n => .ok (arena, buf, n)
  | .none, c :: fmt, args, arena, buf, n =>
    if c = ofChar '%' then netPackLoopIn .percent fmt args arena buf n
    else do
      let (arena, buf) ← bufferAppendIn arena buf [c]
      netPackLoopIn .none fmt args arena buf (wrapInt (n + 1))
  | .percent, c :: fmt, args, arena, buf, n =>
    match specOf c with
    | .num w =>
      match args with
      | .num v :: args => do
        let (arena, buf) ← appendBytesIn arena buf (bigEndian w v)
        netPackLoopIn .none fmt args arena buf (wrapInt (n + w))
      | _ => .error (.fault .undefined)
    | .str =>
      match args with
      | .str s :: args => do
        let (arena, buf) ← appendBytesIn arena buf (bigEndian 2 (slen s))
        let (arena, buf) ← bufferAppendIn arena buf (s.bytes.take (slen s))
        netPackLoopIn .none fmt args arena buf (wrapInt (wrapInt (n + 2) + slen s))
      | _ => .error (.fault .undefined)
    | .other => netPackLoopIn .none fmt args arena buf n

/-- `NetPackLenV`, in an arena. -/
def netPackLenVIn (arena : Arena) (buf : Buffer) (fmt : List UInt8) (args : List Arg) :
    Except Stop (Arena × Buffer × ℤ) := do
  let (arena, buf) ← bufferAppendIn arena buf [0, 0]
  let (arena, buf, n) ← netPackLoopIn .none fmt args arena buf 0
  let msglen := (n % 2 ^ 16).toNat
  .ok (arena, bufferStore buf (buf.len - msglen - 2) (bigEndian 2 msglen), msglen + 2)

section Pack

variable {arena arena' : Arena} {buf buf' : Buffer} {bs : List UInt8} {st : FmtState}
  {fmt : List UInt8} {args : List Arg} {n n' : ℤ}

/-- What is appended does not depend on the arena. -/
theorem appendBytesIn_eq (h : appendBytesIn arena buf bs = .ok (arena', buf')) :
    buf' = appendBytes buf bs := by
  induction bs generalizing arena buf with
  | nil => exact (Prod.mk.inj (Except.ok.inj h)).2.symm
  | cons b bs ih =>
    rw [appendBytesIn, run_cons, bind_eq_ok] at h
    obtain ⟨⟨arena₁, buf₁⟩, hfirst, hrest⟩ := h
    obtain rfl : buf₁ = bufferAppend buf [b] := bufferAppendIn_eq hfirst
    exact ih hrest

/-- Bytes that fit take nothing from the arena and leave the capacity. -/
theorem appendBytesIn_of_le (arena : Arena) (buf : Buffer) (bs : List UInt8)
    (h : buf.len + bs.length ≤ buf.cap) :
    appendBytesIn arena buf bs = .ok (arena, appendBytes buf bs) ∧
      (appendBytes buf bs).cap = buf.cap ∧ (appendBytes buf bs).len = buf.len + bs.length := by
  induction bs generalizing buf with
  | nil => exact ⟨rfl, rfl, rfl⟩
  | cons b bs ih =>
    rw [List.length_cons] at h
    have hone : buf.len + [b].length ≤ buf.cap := by
      rw [List.length_singleton]
      omega
    obtain ⟨hfirst, hcap⟩ := bufferAppendIn_of_le arena hone
    have hlen : (bufferAppend buf [b]).len = buf.len + 1 := rfl
    obtain ⟨hrest, hcap', hlen'⟩ := ih (bufferAppend buf [b]) (by omega)
    refine ⟨?_, hcap'.trans hcap, ?_⟩
    · rw [appendBytesIn, run_cons, hfirst, ok_bind]
      exact hrest
    · have heq : appendBytes buf (b :: bs) = appendBytes (bufferAppend buf [b]) bs := rfl
      rw [heq, hlen', hlen, List.length_cons]
      omega

/-- The loop packs the same in an arena. -/
theorem netPackLoopIn_eq (h : netPackLoopIn st fmt args arena buf n = .ok (arena', buf', n')) :
    netPackLoop st fmt args buf n = .ok (buf', n') := by
  induction fmt generalizing st args arena buf n with
  | nil =>
    cases st <;>
    · rw [netPackLoopIn] at h
      obtain ⟨-, rfl, rfl⟩ := Prod.mk.inj (Except.ok.inj h) |>.imp_right Prod.mk.inj
      rw [netPackLoop]
  | cons c fmt ih =>
    cases st with
    | none =>
      rw [netPackLoopIn] at h
      rw [netPackLoop]
      split at h
      case isTrue hc =>
        rw [if_pos hc]
        exact ih h
      case isFalse hc =>
        rw [if_neg hc]
        obtain ⟨⟨arena₁, buf₁⟩, happend, h⟩ := bind_eq_ok.mp h
        obtain rfl : buf₁ = bufferAppendByte buf c := bufferAppendIn_eq happend
        exact ih h
    | percent =>
      cases hs : specOf c with
      | num w =>
        cases args with
        | nil => simp [netPackLoopIn, hs] at h
        | cons a args =>
          cases a with
          | str s => simp [netPackLoopIn, hs] at h
          | num v =>
            simp only [netPackLoopIn, hs] at h
            obtain ⟨⟨arena₁, buf₁⟩, happend, h⟩ := bind_eq_ok.mp h
            obtain rfl := appendBytesIn_eq happend
            rw [netPackLoop_num hs]
            exact ih h
      | str =>
        cases args with
        | nil => simp [netPackLoopIn, hs] at h
        | cons a args =>
          cases a with
          | num v => simp [netPackLoopIn, hs] at h
          | str s =>
            simp only [netPackLoopIn, hs] at h
            obtain ⟨⟨arena₁, buf₁⟩, hlength, h⟩ := bind_eq_ok.mp h
            obtain rfl := appendBytesIn_eq hlength
            obtain ⟨⟨arena₂, buf₂⟩, hbytes, h⟩ := bind_eq_ok.mp h
            obtain rfl := bufferAppendIn_eq hbytes
            rw [netPackLoop_str hs]
            exact ih h
      | other =>
        simp only [netPackLoopIn, hs] at h
        rw [netPackLoop_other hs]
        exact ih h

/-- `NetPackLenV` packs the same in an arena. -/
theorem netPackLenVIn_eq (h : netPackLenVIn arena buf fmt args = .ok (arena', buf', n)) :
    netPackLenV buf fmt args = .ok (buf', n) := by
  obtain ⟨⟨arena₁, buf₁⟩, hzero, h⟩ := bind_eq_ok.mp h
  obtain rfl := bufferAppendIn_eq hzero
  obtain ⟨⟨arena₂, buf₂, n₂⟩, hloop, h⟩ := bind_eq_ok.mp h
  obtain ⟨-, hrest⟩ := Prod.mk.inj (Except.ok.inj h)
  obtain ⟨rfl, rfl⟩ := Prod.mk.inj hrest
  rw [netPackLenV, netPackV, netPackLoopIn_eq hloop, ok_bind]

/-- A byte and a string: what is in front of the string fits, so only the string may need a new
block. -/
theorem netPackLenVIn_byte_str (v : ℕ) (s : CStr) (arena : Arena) (buf : Buffer)
    (hroom : buf.len + 5 ≤ buf.cap) :
    ∃ buf₁, buf₁.len = buf.len + 5 ∧ buf₁.cap = buf.cap ∧
      (∀ r, bufferAppendIn arena buf₁ (s.bytes.take (slen s)) = .ok r →
        ∃ r', netPackLenVIn arena buf [ofChar '%', ofChar 'b', ofChar '%', ofChar 's']
          [.num v, .str s] = .ok r') ∧
      (bufferAppendIn arena buf₁ (s.bytes.take (slen s)) = .error .noMemory →
        netPackLenVIn arena buf [ofChar '%', ofChar 'b', ofChar '%', ofChar 's']
          [.num v, .str s] = .error .noMemory) := by
  have hb : specOf (ofChar 'b') = .num 1 := by decide
  have hs : specOf (ofChar 's') = .str := by decide
  have htwo : buf.len + [(0 : UInt8), 0].length ≤ buf.cap := (by omega : buf.len + 2 ≤ buf.cap)
  obtain ⟨hzero, hcap₁⟩ := bufferAppendIn_of_le arena htwo
  have hlen₁ : (bufferAppend buf [0, 0]).len = buf.len + 2 := rfl
  obtain ⟨hbyte, hcap₂, hlen₂⟩ := appendBytesIn_of_le arena (bufferAppend buf [0, 0])
    (bigEndian 1 v) (by rw [length_bigEndian]; omega)
  rw [length_bigEndian] at hlen₂
  obtain ⟨hlength, hcap₃, hlen₃⟩ := appendBytesIn_of_le arena
    (appendBytes (bufferAppend buf [0, 0]) (bigEndian 1 v)) (bigEndian 2 (slen s))
    (by rw [length_bigEndian]; omega)
  rw [length_bigEndian] at hlen₃
  refine ⟨appendBytes (appendBytes (bufferAppend buf [0, 0]) (bigEndian 1 v))
    (bigEndian 2 (slen s)), by omega, by rw [hcap₃, hcap₂, hcap₁], ?_, ?_⟩
  · intro r hr
    rw [netPackLenVIn, hzero, ok_bind]
    simp only [netPackLoopIn, if_true, hb, hbyte, ok_bind, hs, hlength, hr]
    exact ⟨_, rfl⟩
  · intro herror
    rw [netPackLenVIn, hzero, ok_bind]
    simp only [netPackLoopIn, if_true, hb, hbyte, ok_bind, hs, hlength, herror, error_bind]

end Pack

/-! ## Unpacking -/

/-- The blocks of the strings among the values, taken in order. -/
def allocFields (arena : Arena) (fields : List Field) : Except Stop Arena :=
  run (fun arena field =>
    match field with
    | .num _ => .ok arena
    | .str s => arenaAlloc arena (s.bs.getD []).length) arena fields

/-- `NetUnpack`, in an arena: `StringNewFromBytes` takes a block for the bytes and the NUL. -/
def netUnpackIn (arena : Arena) (bs : ℕ → UInt8) (bslen : ℤ) (fmt : List UInt8) :
    Except Stop (Arena × Unpacked) := do
  let r := netUnpack bs bslen fmt
  let arena ← allocFields arena r.fields
  .ok (arena, r)

end TinyMsg
