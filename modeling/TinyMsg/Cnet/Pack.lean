import TinyMsg.Clib.Buffer
import TinyMsg.Clib.Str
import TinyMsg.Lib.BigEndian

/-!
# `NetPackV` and `NetPackLenV` of `cnet.c`

The encoder walks the format string with a two-valued state, "no `%` seen" or "previous character
is `%`".  `netPackLoop` is that loop.  The four integer conversions `%b %w %l %L` differ only in
their width, so they share one branch, with the width read off by `specOf`; a byte is stored by
shifting the value and truncating, which is `bigEndian`.

`packedBytes` says what the loop appends, as a function of the format and the arguments, and
`netPackV_eq` that it does.  The returned count is an `int`, so it is the number of packed bytes
only as far as that fits (`wrapInt`); the message length in `NetPackLenV` is a `u16`.
-/

namespace TinyMsg

/-- The state of the loop over the format: the previous character was a `%` or not. -/
inductive FmtState
  | none
  | percent
  deriving DecidableEq

/-- The conversions of the format language. -/
inductive Spec
  /-- `%b`, `%w`, `%l` and `%L`: a big-endian integer of this many bytes. -/
  | num (width : ℕ)
  /-- `%s`: a 16-bit length and the bytes of a string. -/
  | str
  /-- Any other character: the pair is ignored. -/
  | other
  deriving DecidableEq

/-- The conversion that the character after a `%` selects. -/
def specOf (c : UInt8) : Spec :=
  if c = ofChar 'b' then .num 1
  else if c = ofChar 'w' then .num 2
  else if c = ofChar 'l' then .num 4
  else if c = ofChar 'L' then .num 8
  else if c = ofChar 's' then .str
  else .other

/-- An argument of `NetPack`. -/
inductive Arg
  | num (n : ℕ)
  | str (s : CStr)
  deriving DecidableEq

/-- Several calls of `BufferAppendChar` or `BufferAppendByte` in a row. -/
def appendBytes (buf : Buffer) (bs : List UInt8) : Buffer := bs.foldl bufferAppendByte buf

@[simp] theorem appendBytes_contents (buf : Buffer) (bs : List UInt8) :
    (appendBytes buf bs).contents = buf.contents ++ bs := by
  induction bs generalizing buf with
  | nil => exact (List.append_nil _).symm
  | cons b bs ih =>
    rw [appendBytes, List.foldl_cons]
    exact (ih (bufferAppendByte buf b)).trans (by simp)

/-- The 16-bit `slen` that `NetPackV` keeps of the length of a string. -/
def slen (s : CStr) : ℕ := strlen s % 2 ^ 16

/-- The loop of `NetPackV`: the state, the rest of the format, the arguments not yet used, the
buffer and `nbytes_packed`. -/
def netPackLoop : FmtState → List UInt8 → List Arg → Buffer → ℤ → Exec (Buffer × ℤ)
  | _, [], _, buf, n => .ok (buf, n)
  | .none, c :: fmt, args, buf, n =>
    if c = ofChar '%' then netPackLoop .percent fmt args buf n
    else netPackLoop .none fmt args (bufferAppendByte buf c) (wrapInt (n + 1))
  | .percent, c :: fmt, args, buf, n =>
    match specOf c with
    | .num w =>
      match args with
      | .num v :: args =>
        netPackLoop .none fmt args (appendBytes buf (bigEndian w v)) (wrapInt (n + w))
      | _ => .error .undefined
    | .str =>
      match args with
      | .str s :: args =>
        -- the length bytes, then `BufferAppend(buf, s, slen)`
        netPackLoop .none fmt args
          (bufferAppend (appendBytes buf (bigEndian 2 (slen s))) (s.bytes.take (slen s)))
          (wrapInt (wrapInt (n + 2) + slen s))
      | _ => .error .undefined
    | .other => netPackLoop .none fmt args buf n

/-- `NetPackV`, and `NetPack`, which passes its arguments on: the buffer and the count. -/
def netPackV (buf : Buffer) (fmt : List UInt8) (args : List Arg) : Exec (Buffer × ℤ) :=
  netPackLoop .none fmt args buf 0

/-! ## What is packed -/

/-- The conversions in a format that take an argument, in order. -/
def fmtSpecs : FmtState → List UInt8 → List Spec
  | _, [] => []
  | .none, c :: fmt =>
    if c = ofChar '%' then fmtSpecs .percent fmt else fmtSpecs .none fmt
  | .percent, c :: fmt =>
    match specOf c with
    | .other => fmtSpecs .none fmt
    | spec => spec :: fmtSpecs .none fmt

/-- The argument is of the conversion's type and in its range. -/
def ArgFits : Spec → Arg → Prop
  | .num w, .num n => n < 256 ^ w
  | .str, .str s => strlen s < 2 ^ 16
  | _, _ => False

/-- The arguments match the format: one for each conversion, in its range. -/
def ArgsMatch (fmt : List UInt8) (args : List Arg) : Prop :=
  List.Forall₂ ArgFits (fmtSpecs .none fmt) args

/-- The argument is of the conversion's type, whatever its size. -/
def ArgTyped : Spec → Arg → Prop
  | .num _, .num _ => True
  | .str, .str _ => True
  | _, _ => False

/-- An argument in range is of the right type. -/
theorem ArgFits.typed {spec : Spec} {a : Arg} (h : ArgFits spec a) : ArgTyped spec a := by
  cases spec <;> cases a <;> trivial

/-- The bytes that the loop appends for the rest of a format and its arguments. -/
def packedBytes : FmtState → List UInt8 → List Arg → List UInt8
  | _, [], _ => []
  | .none, c :: fmt, args =>
    if c = ofChar '%' then packedBytes .percent fmt args else c :: packedBytes .none fmt args
  | .percent, c :: fmt, args =>
    match specOf c, args with
    | .num w, .num v :: args => bigEndian w v ++ packedBytes .none fmt args
    | .str, .str s :: args =>
      bigEndian 2 (slen s) ++ s.bytes.take (slen s) ++ packedBytes .none fmt args
    | .other, args => packedBytes .none fmt args
    | _, _ => []

@[simp] theorem packedBytes_nil (st : FmtState) (args : List Arg) :
    packedBytes st [] args = [] := by
  cases st <;> simp [packedBytes]

section Equations

variable {c : UInt8} {fmt : List UInt8} {args : List Arg} {w v : ℕ} {s : CStr} {buf : Buffer}
  {n : ℤ}

attribute [local simp] netPackLoop packedBytes fmtSpecs

theorem netPackLoop_percent (hc : c = ofChar '%') :
    netPackLoop .none (c :: fmt) args buf n = netPackLoop .percent fmt args buf n := by
  rw [netPackLoop, if_pos hc]

theorem netPackLoop_lit (hc : c ≠ ofChar '%') :
    netPackLoop .none (c :: fmt) args buf n =
      netPackLoop .none fmt args (bufferAppendByte buf c) (wrapInt (n + 1)) := by
  rw [netPackLoop, if_neg hc]

theorem netPackLoop_num (hs : specOf c = .num w) :
    netPackLoop .percent (c :: fmt) (.num v :: args) buf n =
      netPackLoop .none fmt args (appendBytes buf (bigEndian w v)) (wrapInt (n + w)) := by
  simp [hs]

theorem netPackLoop_str (hs : specOf c = .str) :
    netPackLoop .percent (c :: fmt) (.str s :: args) buf n =
      netPackLoop .none fmt args
        (bufferAppend (appendBytes buf (bigEndian 2 (slen s))) (s.bytes.take (slen s)))
        (wrapInt (wrapInt (n + 2) + slen s)) := by
  simp [hs]

theorem netPackLoop_other (hs : specOf c = .other) :
    netPackLoop .percent (c :: fmt) args buf n = netPackLoop .none fmt args buf n := by
  simp [hs]

theorem packedBytes_percent (hc : c = ofChar '%') :
    packedBytes .none (c :: fmt) args = packedBytes .percent fmt args := by
  rw [packedBytes, if_pos hc]

theorem packedBytes_lit (hc : c ≠ ofChar '%') :
    packedBytes .none (c :: fmt) args = c :: packedBytes .none fmt args := by
  rw [packedBytes, if_neg hc]

theorem packedBytes_num (hs : specOf c = .num w) :
    packedBytes .percent (c :: fmt) (.num v :: args) =
      bigEndian w v ++ packedBytes .none fmt args := by
  simp [hs]

theorem packedBytes_str (hs : specOf c = .str) :
    packedBytes .percent (c :: fmt) (.str s :: args) =
      bigEndian 2 (slen s) ++ s.bytes.take (slen s) ++ packedBytes .none fmt args := by
  simp [hs]

theorem packedBytes_other (hs : specOf c = .other) :
    packedBytes .percent (c :: fmt) args = packedBytes .none fmt args := by
  simp [hs]

theorem fmtSpecs_percent (hc : c = ofChar '%') :
    fmtSpecs .none (c :: fmt) = fmtSpecs .percent fmt := by
  rw [fmtSpecs, if_pos hc]

theorem fmtSpecs_lit (hc : c ≠ ofChar '%') : fmtSpecs .none (c :: fmt) = fmtSpecs .none fmt := by
  rw [fmtSpecs, if_neg hc]

theorem fmtSpecs_num (hs : specOf c = .num w) :
    fmtSpecs .percent (c :: fmt) = .num w :: fmtSpecs .none fmt := by
  simp [hs]

theorem fmtSpecs_str (hs : specOf c = .str) :
    fmtSpecs .percent (c :: fmt) = .str :: fmtSpecs .none fmt := by
  simp [hs]

theorem fmtSpecs_other (hs : specOf c = .other) :
    fmtSpecs .percent (c :: fmt) = fmtSpecs .none fmt := by
  simp [hs]

/-- The bytes of a string that are packed are as many as its 16-bit length says. -/
@[simp] theorem length_take_slen (s : CStr) : (s.bytes.take (slen s)).length = slen s := by
  rw [List.length_take]
  exact Nat.min_eq_left (Nat.mod_le _ _)

end Equations

/-- An argument list for a format that begins with an integer conversion. -/
theorem forall₂_num {R : Spec → Arg → Prop} (hR : ∀ w s, ¬ R (.num w) (.str s)) {w : ℕ}
    {specs : List Spec} {args : List Arg} (h : List.Forall₂ R (.num w :: specs) args) :
    ∃ v args', args = .num v :: args' ∧ R (.num w) (.num v) ∧ List.Forall₂ R specs args' := by
  cases h with
  | @cons _ a _ args' ha hargs =>
    cases a with
    | num v => exact ⟨v, args', rfl, ha, hargs⟩
    | str s => exact absurd ha (hR w s)

/-- An argument list for a format that begins with a string conversion. -/
theorem forall₂_str {R : Spec → Arg → Prop} (hR : ∀ v, ¬ R .str (.num v))
    {specs : List Spec} {args : List Arg} (h : List.Forall₂ R (.str :: specs) args) :
    ∃ s args', args = .str s :: args' ∧ R .str (.str s) ∧ List.Forall₂ R specs args' := by
  cases h with
  | @cons _ a _ args' ha hargs =>
    cases a with
    | num v => exact absurd ha (hR v)
    | str s => exact ⟨s, args', rfl, ha, hargs⟩

/-- What the loop does on arguments of the right types: it appends `packedBytes` and counts
them. -/
theorem netPackLoop_eq {st : FmtState} {fmt : List UInt8} {args : List Arg}
    (h : List.Forall₂ ArgTyped (fmtSpecs st fmt) args) (buf : Buffer) (n : ℕ) :
    ∃ buf', netPackLoop st fmt args buf (wrapInt n) =
        .ok (buf', wrapInt (n + (packedBytes st fmt args).length : ℕ)) ∧
      buf'.contents = buf.contents ++ packedBytes st fmt args := by
  induction fmt generalizing st args buf n with
  | nil => exact ⟨buf, by cases st <;> simp [netPackLoop], by simp⟩
  | cons c fmt ih =>
    cases st with
    | none =>
      by_cases hc : c = ofChar '%'
      · rw [netPackLoop_percent hc, packedBytes_percent hc]
        exact ih (fmtSpecs_percent hc ▸ h) buf n
      · rw [netPackLoop_lit hc, packedBytes_lit hc]
        obtain ⟨buf', hloop, hbuf'⟩ :=
          ih (fmtSpecs_lit hc ▸ h) (bufferAppendByte buf c) (n + 1)
        refine ⟨buf', ?_, ?_⟩
        · rw [wrapInt_add, List.length_cons, ← Nat.add_assoc, Nat.add_right_comm]
          exact hloop
        · rw [hbuf', bufferAppendByte_contents, List.append_assoc, List.singleton_append]
    | percent =>
      cases hs : specOf c with
      | num w =>
        rw [fmtSpecs_num hs] at h
        obtain ⟨v, args', rfl, -, hargs⟩ := forall₂_num (fun _ _ h => h) h
        obtain ⟨buf', hloop, hbuf'⟩ := ih hargs (appendBytes buf (bigEndian w v)) (n + w)
        refine ⟨buf', ?_, ?_⟩
        · rw [packedBytes_num hs, List.length_append, length_bigEndian, ← Nat.add_assoc, ← hloop,
            netPackLoop_num hs, wrapInt_add, Nat.cast_add]
        · rw [packedBytes_num hs, hbuf', appendBytes_contents, List.append_assoc]
      | str =>
        rw [fmtSpecs_str hs] at h
        obtain ⟨s, args', rfl, -, hargs⟩ := forall₂_str (fun _ h => h) h
        obtain ⟨buf', hloop, hbuf'⟩ := ih hargs
          (bufferAppend (appendBytes buf (bigEndian 2 (slen s))) (s.bytes.take (slen s)))
          (n + 2 + slen s)
        refine ⟨buf', ?_, ?_⟩
        · rw [packedBytes_str hs, List.length_append, List.length_append, length_bigEndian,
            length_take_slen, ← Nat.add_assoc, ← Nat.add_assoc, ← hloop, netPackLoop_str hs,
            wrapInt_add, add_assoc (wrapInt n), wrapInt_add, ← add_assoc, Nat.cast_add,
            Nat.cast_add, Nat.cast_ofNat]
        · rw [packedBytes_str hs, hbuf', bufferAppend_contents, appendBytes_contents]
          simp only [List.append_assoc]
      | other =>
        rw [netPackLoop_other hs, packedBytes_other hs]
        exact ih (fmtSpecs_other hs ▸ h) buf n

/-- `NetPackV` appends the packed bytes behind the earlier contents and returns their number, as
an `int`. -/
theorem netPackV_eq {fmt : List UInt8} {args : List Arg}
    (h : List.Forall₂ ArgTyped (fmtSpecs .none fmt) args) (buf : Buffer) :
    ∃ buf', netPackV buf fmt args =
        .ok (buf', wrapInt (packedBytes .none fmt args).length) ∧
      buf'.contents = buf.contents ++ packedBytes .none fmt args := by
  have h0 := netPackLoop_eq h buf 0
  rw [Nat.zero_add] at h0
  exact h0

/-! ## Messages with their length in front -/

/-- `NetPackLenV`, and `NetPackLen`: two zero bytes, the packed body, and then the 16-bit body
length stored `msglen + 2` bytes before the end.  `htons` makes the two stored bytes big-endian
whatever the byte order of the host. -/
def netPackLenV (buf : Buffer) (fmt : List UInt8) (args : List Arg) : Exec (Buffer × ℤ) := do
  let (buf, n) ← netPackV (bufferAppend buf [0, 0]) fmt args
  let msglen := (n % 2 ^ 16).toNat
  .ok (bufferStore buf (buf.len - msglen - 2) (bigEndian 2 msglen), msglen + 2)

section PackLen

variable {buf buf₁ : Buffer} {fmt body : List UInt8} {args : List Arg}

/-- What `NetPackLenV` leaves in the buffer, for a body of any length: the length bytes are stored
where the 16-bit length says. -/
theorem netPackLenV_of_pack
    (hpack : netPackV (bufferAppend buf [0, 0]) fmt args = .ok (buf₁, wrapInt body.length))
    (hbuf₁ : buf₁.contents = (bufferAppend buf [0, 0]).contents ++ body) :
    ∃ buf', netPackLenV buf fmt args = .ok (buf', (body.length % 2 ^ 16 : ℕ) + 2) ∧
      buf'.contents = overwrite (buf.contents ++ [0, 0] ++ body)
        (buf.len + body.length - body.length % 2 ^ 16) (bigEndian 2 (body.length % 2 ^ 16)) := by
  have hlen : buf₁.len = buf.len + 2 + body.length := by
    rw [← buf₁.length_contents, hbuf₁, List.length_append, Buffer.length_contents,
      bufferAppend_len]
    rfl
  have hle := Nat.mod_le body.length (2 ^ 16)
  have hrun : netPackLenV buf fmt args = .ok (bufferStore buf₁
      (buf₁.len - body.length % 2 ^ 16 - 2) (bigEndian 2 (body.length % 2 ^ 16)),
      (body.length % 2 ^ 16 : ℕ) + 2) := by
    simp only [netPackLenV, hpack, ok_bind, wrapInt_toNat_mod]
  refine ⟨_, hrun, ?_⟩
  rw [bufferStore_contents (by rw [length_bigEndian]; omega), hbuf₁, bufferAppend_contents, hlen]
  congr 1
  omega

/-- A length that fits 16 bits is stored in front of the body. -/
theorem patch_length (buf : Buffer) (hlt : body.length < 2 ^ 16) :
    overwrite (buf.contents ++ [0, 0] ++ body) (buf.len + body.length - body.length % 2 ^ 16)
      (bigEndian 2 (body.length % 2 ^ 16)) =
        buf.contents ++ (bigEndian 2 body.length ++ body) := by
  rw [Nat.mod_eq_of_lt hlt, Nat.add_sub_cancel, ← buf.length_contents,
    overwrite_append (length_bigEndian 2 _), List.append_assoc]

/-- What `NetPackLenV` does with arguments of the right types. -/
theorem netPackLenV_eq (h : List.Forall₂ ArgTyped (fmtSpecs .none fmt) args) (buf : Buffer) :
    ∃ buf', netPackLenV buf fmt args =
        .ok (buf', ((packedBytes .none fmt args).length % 2 ^ 16 : ℕ) + 2) ∧
      buf'.contents =
        overwrite (buf.contents ++ [0, 0] ++ packedBytes .none fmt args)
          (buf.len + (packedBytes .none fmt args).length -
            (packedBytes .none fmt args).length % 2 ^ 16)
          (bigEndian 2 ((packedBytes .none fmt args).length % 2 ^ 16)) := by
  obtain ⟨buf₁, hpack, hbuf₁⟩ := netPackV_eq h (bufferAppend buf [0, 0])
  exact netPackLenV_of_pack hpack hbuf₁

/-- A body of fewer than 65536 bytes gets its length in front. -/
theorem netPackLenV_of_lt (h : List.Forall₂ ArgTyped (fmtSpecs .none fmt) args)
    (hlt : (packedBytes .none fmt args).length < 2 ^ 16) (buf : Buffer) :
    ∃ buf', netPackLenV buf fmt args = .ok (buf', (packedBytes .none fmt args).length + 2) ∧
      buf'.contents = buf.contents ++
        (bigEndian 2 (packedBytes .none fmt args).length ++ packedBytes .none fmt args) := by
  obtain ⟨buf', hpack, hbuf'⟩ := netPackLenV_eq h buf
  rw [Nat.mod_eq_of_lt hlt] at hpack
  exact ⟨buf', hpack, hbuf'.trans (patch_length buf hlt)⟩

end PackLen

end TinyMsg
