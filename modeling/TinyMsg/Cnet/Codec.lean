import TinyMsg.Cnet.Decode

/-!
# `NetPack` followed by `NetUnpack`

The encoder and the decoder walk the same format, and the induction over it shows that a packed
message is long enough and has the arguments for its values (`decode_packedBytes`).  What
`NetUnpack` makes of a message that is long enough is known from `unpackLoop_decode`.

Both the count that `NetPack` returns and the length that `NetUnpack` is given are `int`, so all
this is about messages of fewer than `2 ^ 31` bytes.
-/

namespace TinyMsg

/-! ## Output variables -/

/-- The output variable has the value of the argument. -/
def Restored : Arg → Field → Prop
  | .num n, .num m => m = n
  | .str s, .str t => t.cstr = s ∧ t.bytes = s.bytes
  | _, _ => False

/-- `NetPack` appends some bytes, leaves the earlier contents alone and returns the number of
bytes, and `NetUnpack` of those bytes, whatever lies behind them, restores the arguments. -/
def RoundTrip (fmt : List UInt8) (args : List Arg) : Prop :=
  ∀ buf, ∃ buf' packed, netPackV buf fmt args = .ok (buf', (packed.length : ℤ)) ∧
    buf'.contents = buf.contents ++ packed ∧
    ∀ mem init, Holds mem 0 packed → List.Forall₂ FreshOutput (fmtSpecs .none fmt) init →
      List.Forall₂ Restored args
        (outputs (netUnpack mem (wrapInt packed.length) fmt).fields init)

/-! ## The values of a packed message -/

/-- The value that an argument is packed as. -/
def Arg.value : Arg → Value
  | .num n => .num n
  | .str s => .str s.bytes

section Codec

variable {a : Arg} {f : Field} {s : CStr} {args : List Arg} {fmt : List UInt8} {st : FmtState}

/-- The length of a string of fewer than 65536 bytes is not truncated. -/
theorem slen_of_lt (h : strlen s < 2 ^ 16) : slen s = s.bytes.length := Nat.mod_eq_of_lt h

/-- An output variable that has the value of an argument restores it. -/
theorem HasValue.restored (h : HasValue a.value f) : Restored a f := by
  cases a with
  | num n => cases f <;> exact h
  | str s =>
    cases f with
    | num m => exact h
    | str t => exact ⟨h.1.trans s.ofBytes_bytes, h.2⟩

/-- A packed message is long enough, and its values are those of the arguments. -/
theorem decode_packedBytes (hargs : List.Forall₂ ArgFits (fmtSpecs st fmt) args) :
    decode st fmt (packedBytes st fmt args) = some (args.map Arg.value) := by
  induction fmt generalizing st args with
  | nil =>
    obtain rfl : args = [] := by cases st <;> exact List.forall₂_nil_left_iff.mp hargs
    cases st <;> rfl
  | cons c fmt ih =>
    cases st with
    | none =>
      by_cases hc : c = ofChar '%'
      · rw [fmtSpecs_percent hc] at hargs
        rw [packedBytes_percent hc, decode, if_pos hc]
        exact ih hargs
      · rw [fmtSpecs_lit hc] at hargs
        rw [packedBytes_lit hc, decode, if_neg hc, if_neg (List.cons_ne_nil _ _)]
        exact ih hargs
    | percent =>
      cases hs : specOf c with
      | num w =>
        rw [fmtSpecs_num hs] at hargs
        obtain ⟨v, args, rfl, hv, hargs⟩ := forall₂_num (fun _ _ h => h) hargs
        have hlen : (bigEndian w v).length = w := length_bigEndian w v
        have hlong : ¬ (bigEndian w v ++ packedBytes .none fmt args).length < w := by
          rw [List.length_append, hlen]
          omega
        rw [packedBytes_num hs, decode, hs]
        simp only [if_neg hlong, List.take_left' hlen, List.drop_left' hlen, ih hargs,
          numeral_bigEndian_of_lt hv]
        rfl
      | str =>
        rw [fmtSpecs_str hs] at hargs
        obtain ⟨s, args, rfl, hfit, hargs⟩ := forall₂_str (fun _ h => h) hargs
        have hlen : (bigEndian 2 s.bytes.length).length = 2 := length_bigEndian 2 _
        have hn : numeral (bigEndian 2 s.bytes.length) = s.bytes.length :=
          numeral_bigEndian_of_lt (w := 2) hfit
        have hlong : ¬ (bigEndian 2 s.bytes.length ++
            (s.bytes ++ packedBytes .none fmt args)).length < 2 + s.bytes.length := by
          rw [List.length_append, List.length_append, hlen]
          omega
        rw [packedBytes_str hs, slen_of_lt hfit, List.take_length, List.append_assoc, decode, hs]
        simp only [List.take_left' hlen, hn, if_neg hlong, ← List.drop_drop,
          List.drop_left' hlen, List.take_left, List.drop_left, ih hargs]
        rfl
      | other =>
        rw [fmtSpecs_other hs] at hargs
        rw [packedBytes_other hs, decode, hs]
        exact ih hargs

/-- Decoding what the encoder packed, at any place of the memory, restores the arguments. -/
theorem unpackLoop_packedBytes {mem : ℕ → UInt8} {pos : ℕ} {init : List Field} {bslen : ℤ}
    (hargs : List.Forall₂ ArgFits (fmtSpecs st fmt) args)
    (hinit : List.Forall₂ FreshOutput (fmtSpecs st fmt) init)
    (hmem : Holds mem pos (packedBytes st fmt args))
    (hlen : bslen = (pos + (packedBytes st fmt args).length : ℕ)) :
    List.Forall₂ Restored args (outputs (unpackLoop mem bslen st fmt pos).fields init) := by
  have hvalues := unpackLoop_decode (decode_packedBytes hargs) hinit hmem hlen
  exact (List.forall₂_map_left_iff.mp hvalues).imp fun _ _ h => h.restored

end Codec

/-! ## Round trip -/

/-- `NetUnpack` restores every argument that `NetPack` packed, for every format and every
matching list of arguments that packs to fewer than `2 ^ 31` bytes. -/
theorem netPack_roundTrip {fmt : List UInt8} {args : List Arg} (hargs : ArgsMatch fmt args)
    (hsize : (packedBytes .none fmt args).length < 2 ^ 31) : RoundTrip fmt args := by
  intro buf
  obtain ⟨buf', hpack, hbuf'⟩ := netPackV_eq (hargs.imp fun _ _ h => h.typed) buf
  have hint := wrapInt_of_lt hsize
  refine ⟨buf', packedBytes .none fmt args, by rw [hpack, hint], hbuf', ?_⟩
  intro mem init hmem hinit
  exact unpackLoop_packedBytes hargs hinit hmem (by rw [hint, Nat.zero_add])

/-- The round trip for a KNOCK message. -/
theorem knock_roundTrip : RoundTrip (ofChars "%b%s%s%w".toList)
    [.num 3, .str (CStr.ofBytes [97, 98]), .str CStr.empty, .num 8001] :=
  netPack_roundTrip
    (List.Forall₂.cons (by decide : 3 < 256 ^ 1) <| List.Forall₂.cons (by decide : 2 < 2 ^ 16) <|
      List.Forall₂.cons (by decide : 0 < 2 ^ 16) <|
      List.Forall₂.cons (by decide : 8001 < 256 ^ 2) List.Forall₂.nil)
    (by decide)

/-- Literal characters are packed as they are. -/
theorem packedBytes_replicate {c : UInt8} (hc : c ≠ ofChar '%') (n : ℕ) (args : List Arg) :
    packedBytes .none (List.replicate n c) args = List.replicate n c := by
  induction n with
  | zero => simp
  | succ n ih => rw [List.replicate_succ, packedBytes_lit hc, ih]

/-- Literal characters take no arguments. -/
theorem fmtSpecs_replicate {c : UInt8} (hc : c ≠ ofChar '%') (n : ℕ) :
    fmtSpecs .none (List.replicate n c) = [] := by
  induction n with
  | zero => rfl
  | succ n ih => rw [List.replicate_succ, fmtSpecs_lit hc, ih]

/-- A format of `2 ^ 31` literal characters is packed, but the `int` count comes back
negative. -/
theorem long_format_breaks_roundTrip :
    ¬∀ (fmt : List UInt8) (args : List Arg), ArgsMatch fmt args → RoundTrip fmt args := by
  intro h
  have hlit : ofChar 'a' ≠ ofChar '%' := by decide
  have hargs : ArgsMatch (List.replicate (2 ^ 31) (ofChar 'a')) [] := by
    rw [ArgsMatch, fmtSpecs_replicate hlit]
    exact List.Forall₂.nil
  obtain ⟨_, packed, hpack, -⟩ := h _ _ hargs (bufferNew 0)
  obtain ⟨_, hpack', -⟩ := netPackV_eq (hargs.imp fun _ _ h => h.typed) (bufferNew 0)
  rw [hpack', packedBytes_replicate hlit, List.length_replicate] at hpack
  have hcount := congrArg Prod.snd (Except.ok.inj hpack)
  have hneg : wrapInt ((2 ^ 31 : ℕ) : ℤ) = -2 ^ 31 := by decide
  rw [hneg] at hcount
  change (-2 ^ 31 : ℤ) = packed.length at hcount
  omega

end TinyMsg
