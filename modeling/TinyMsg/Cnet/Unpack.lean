import TinyMsg.Cnet.Pack

/-!
# `NetUnpack` of `cnet.c`

The decoder walks the format with the same two states as the encoder and a pointer `pbs` into the
message, here the position `pos`; `maxp` is the position `bslen - 1`.  `unpackLoop` is the loop.
The memory is a function `bs` of the position, defined also behind the message, because the
decoder is handed a pointer and nothing else keeps it inside: what it reads is part of the result.

The result lists the values left in the output variables, in the order of the conversions, as far
as the decoder got: an output variable beyond the list is not written.  An integer cut off by the
end of the message is written half, as the C code does.
-/

namespace TinyMsg

/-- The value a conversion of `NetUnpack` leaves in its output variable. -/
inductive Field
  | num (n : ℕ)
  | str (s : String)
  deriving DecidableEq

/-- The outcome of `NetUnpack`. -/
structure Unpacked where
  /-- The output variables that were written, in order. -/
  fields : List Field
  /-- The positions that were read. -/
  reads : List ℕ

/-- The bytes of an integer with `w` bytes still to come, at `pos`, with the value so far: the
value, the positions read and the position behind, `none` when the end of the message was hit.
The check that `%b` makes behind its byte is the one at the head of `unpackLoop`. -/
def unpackNum (bs : ℕ → UInt8) (bslen : ℤ) : ℕ → ℕ → ℕ → ℕ × List ℕ × Option ℕ
  | 0, pos, v => (v, [], some pos)
  | w + 1, pos, v =>
    if 0 < w ∧ bslen - 1 < (pos + 1 : ℕ) then (v ||| (bs pos).toNat <<< (8 * w), [pos], none)
    else
      let r := unpackNum bs bslen w (pos + 1) (v ||| (bs pos).toNat <<< (8 * w))
      (r.1, pos :: r.2.1, r.2.2)

/-- The loop of `NetUnpack`: the state, the rest of the format and the position `pbs`. -/
def unpackLoop (bs : ℕ → UInt8) (bslen : ℤ) : FmtState → List UInt8 → ℕ → Unpacked
  | _, [], _ => ⟨[], []⟩
  | .none, c :: fmt, pos =>
    if bslen - 1 < pos then ⟨[], []⟩
    else if c = ofChar '%' then unpackLoop bs bslen .percent fmt pos
    else if bslen - 1 < (pos + 1 : ℕ) then ⟨[], []⟩
    else unpackLoop bs bslen .none fmt (pos + 1)
  | .percent, c :: fmt, pos =>
    if bslen - 1 < pos then ⟨[], []⟩
    else
      match specOf c with
      | .num w =>
        match unpackNum bs bslen w pos 0 with
        | (v, reads, none) => ⟨[.num v], reads⟩
        | (v, reads, some next) =>
          let r := unpackLoop bs bslen .none fmt next
          ⟨.num v :: r.fields, reads ++ r.reads⟩
      | .str =>
        match unpackNum bs bslen 2 pos 0 with
        | (_, reads, none) => ⟨[], reads⟩
        | (n, reads, some next) =>
          if bslen - 1 < next then ⟨[], reads⟩
          else
            -- `StringAssignFromBytes` copies `n` bytes with no look at `maxp`
            let copied := (List.range n).map (next + ·)
            let r := unpackLoop bs bslen .none fmt (next + n)
            ⟨.str (stringNewFromBytes (copied.map bs)) :: r.fields, reads ++ copied ++ r.reads⟩
      | .other => unpackLoop bs bslen .none fmt pos

/-- `NetUnpack` of the `bslen` bytes at `bs`. -/
def netUnpack (bs : ℕ → UInt8) (bslen : ℤ) (fmt : List UInt8) : Unpacked :=
  unpackLoop bs bslen .none fmt 0

/-- All the positions lie in the message. -/
def Inside (bslen : ℤ) (reads : List ℕ) : Prop := ∀ i ∈ reads, (i : ℤ) < bslen

/-! ## Reading one integer -/

section Num

variable (bs : ℕ → UInt8) {bslen : ℤ}

/-- The bytes at `pos`, `pos + 1`, ..., `pos + n - 1`. -/
def bytesAt (bs : ℕ → UInt8) (pos n : ℕ) : List UInt8 := (List.range n).map fun k => bs (pos + k)

@[simp] theorem length_bytesAt (bs : ℕ → UInt8) (pos n : ℕ) : (bytesAt bs pos n).length = n := by
  simp [bytesAt]

theorem bytesAt_succ (bs : ℕ → UInt8) (pos n : ℕ) :
    bytesAt bs pos (n + 1) = bs pos :: bytesAt bs (pos + 1) n := by
  simp only [bytesAt, List.range_succ_eq_map, List.map_cons, List.map_map, Nat.add_zero]
  congr 2
  funext k
  simp only [Function.comp_apply]
  congr 1
  omega

attribute [local simp] unpackNum in
/-- The integer is complete exactly when its bytes lie in the message. -/
theorem unpackNum_next {w pos v : ℕ} (hpos : (pos : ℤ) < bslen ∨ w = 0) :
    (unpackNum bs bslen w pos v).2.2 =
      if (pos + w : ℕ) ≤ bslen ∨ w = 0 then some (pos + w) else none := by
  induction w generalizing pos v with
  | zero => simp
  | succ w ih =>
    rw [unpackNum]
    by_cases hstop : 0 < w ∧ bslen - 1 < (pos + 1 : ℕ)
    · rw [if_pos hstop, if_neg (by omega)]
    · rw [if_neg hstop]
      change (unpackNum bs bslen w (pos + 1) _).2.2 = _
      rw [ih (by omega)]
      have hnext : pos + 1 + w = pos + (w + 1) := by omega
      rw [hnext]
      exact if_congr (by omega) rfl rfl

/-- Only positions in the message are read. -/
theorem unpackNum_reads_lt {w pos v : ℕ} (hpos : (pos : ℤ) < bslen ∨ w = 0) :
    Inside bslen (unpackNum bs bslen w pos v).2.1 := by
  induction w generalizing pos v with
  | zero => simp [unpackNum, Inside]
  | succ w ih =>
    have hhead : (pos : ℤ) < bslen := by omega
    rw [unpackNum]
    by_cases hstop : 0 < w ∧ bslen - 1 < (pos + 1 : ℕ)
    · rw [if_pos hstop]
      intro i hi
      rwa [List.mem_singleton.mp hi]
    · rw [if_neg hstop]
      intro i hi
      rcases List.mem_cons.mp hi with rfl | hi
      · exact hhead
      · exact ih (by omega) i hi

/-- The value depends only on the bytes in the message. -/
theorem unpackNum_congr {bs' : ℕ → UInt8} (h : ∀ i : ℕ, (i : ℤ) < bslen → bs' i = bs i)
    {w pos v : ℕ} (hpos : (pos : ℤ) < bslen ∨ w = 0) :
    unpackNum bs' bslen w pos v = unpackNum bs bslen w pos v := by
  induction w generalizing pos v with
  | zero => rfl
  | succ w ih =>
    rw [unpackNum, unpackNum, h pos (by omega)]
    by_cases hstop : 0 < w ∧ bslen - 1 < (pos + 1 : ℕ)
    · rw [if_pos hstop, if_pos hstop]
    · rw [if_neg hstop, if_neg hstop, ih (by omega)]

/-- Shifting a byte to its place behind those so far. -/
theorem shift_or_byte (h w : ℕ) (b : UInt8) :
    h <<< (8 * (w + 1)) ||| b.toNat <<< (8 * w) = (h * 256 + b.toNat) <<< (8 * w) := by
  have h8 : b.toNat < 2 ^ 8 := b.toNat_lt
  have hadd := or_shift_eq_add (k := 8) (v := h) h8
  rw [show (256 : ℕ) = 2 ^ 8 from rfl, ← hadd, Nat.shiftLeft_or_distrib, ← Nat.shiftLeft_add]
  congr 2
  omega

/-- Collecting the bytes by shifting and or-ing gives the number they denote. -/
theorem unpackNum_value {w pos h : ℕ} (hin : (pos + w : ℕ) ≤ bslen) :
    (unpackNum bs bslen w pos (h <<< (8 * w))).1 =
      h * 256 ^ w + numeral (bytesAt bs pos w) := by
  induction w generalizing pos h with
  | zero => simp [unpackNum, bytesAt]
  | succ w ih =>
    have hstop : ¬(0 < w ∧ bslen - 1 < (pos + 1 : ℕ)) := by omega
    rw [unpackNum, if_neg hstop, shift_or_byte, bytesAt_succ, numeral_cons, length_bytesAt]
    change (unpackNum bs bslen w (pos + 1) _).1 = _
    rw [ih (by omega), pow_succ]
    ring

/-- The value of an integer that the end of the message cuts off: zero bytes take the place of
those that are missing. -/
theorem unpackNum_value_cut {w pos h n : ℕ} (hend : bslen = (pos + n : ℕ)) (hn : 0 < n)
    (hout : n < w) : (unpackNum bs bslen w pos (h <<< (8 * w))).1 =
      h * 256 ^ w + numeral (bytesAt bs pos n) * 256 ^ (w - n) := by
  induction w generalizing pos h n with
  | zero => exact absurd hout (Nat.not_lt_zero _)
  | succ w ih =>
    obtain ⟨n, rfl⟩ := Nat.exists_eq_succ_of_ne_zero hn.ne'
    rw [unpackNum, shift_or_byte, Nat.succ_eq_add_one, bytesAt_succ, numeral_cons, length_bytesAt,
      Nat.add_sub_add_right]
    have hpow : 256 ^ n * 256 ^ (w - n) = 256 ^ w := by
      rw [← pow_add]
      congr 1
      omega
    rcases Nat.eq_zero_or_pos n with rfl | hpos
    · rw [if_pos (by omega), Nat.shiftLeft_eq, pow_mul]
      simp only [bytesAt, List.range_zero, List.map_nil, numeral_nil, pow_succ, Nat.sub_zero]
      ring_nf
    · rw [if_neg (by omega)]
      change (unpackNum bs bslen w (pos + 1) _).1 = _
      rw [ih (n := n) (by omega) hpos (by omega), add_mul ((bs pos).toNat * 256 ^ n),
        mul_assoc _ (256 ^ n), hpow, pow_succ]
      ring

/-- Reading a complete integer. -/
theorem unpackNum_complete {w pos : ℕ} (hpos : (pos : ℤ) < bslen) (hin : (pos + w : ℕ) ≤ bslen) :
    ∃ reads, unpackNum bs bslen w pos 0 =
      (numeral (bytesAt bs pos w), reads, some (pos + w)) := by
  have hnext := unpackNum_next bs (v := 0) (w := w) (Or.inl hpos)
  have hval := unpackNum_value bs (h := 0) hin
  rw [if_pos (Or.inl hin)] at hnext
  rw [Nat.zero_shiftLeft, Nat.zero_mul, Nat.zero_add] at hval
  exact ⟨(unpackNum bs bslen w pos 0).2.1, Prod.ext hval (Prod.ext rfl hnext)⟩

/-- Hitting the end of the message inside an integer. -/
theorem unpackNum_cut {w pos : ℕ} (hpos : (pos : ℤ) < bslen) (hout : bslen < (pos + w : ℕ))
    (hw : w ≠ 0) : (unpackNum bs bslen w pos 0).2.2 = none := by
  rw [unpackNum_next bs (Or.inl hpos), if_neg]
  exact fun h => h.elim (fun h => by omega) hw

end Num

/-! ## The loop, one character at a time -/

section Loop

variable {bs : ℕ → UInt8} {bslen : ℤ} {st : FmtState} {c : UInt8} {fmt : List UInt8} {pos w : ℕ}

attribute [local simp] unpackLoop in
/-- Behind the end of the message the decoder returns. -/
theorem unpackLoop_end (h : bslen ≤ pos) : unpackLoop bs bslen st fmt pos = ⟨[], []⟩ := by
  cases fmt with
  | nil => cases st <;> rfl
  | cons c fmt => cases st <;> simp [h]

theorem unpackLoop_percent (hc : c = ofChar '%') :
    unpackLoop bs bslen .none (c :: fmt) pos = unpackLoop bs bslen .percent fmt pos := by
  by_cases hpos : bslen ≤ pos
  · rw [unpackLoop_end hpos, unpackLoop_end hpos]
  · rw [unpackLoop, if_neg (by omega), if_pos hc]

/-- A literal character skips one byte. -/
theorem unpackLoop_lit (hc : c ≠ ofChar '%') :
    unpackLoop bs bslen .none (c :: fmt) pos = unpackLoop bs bslen .none fmt (pos + 1) := by
  by_cases hpos : bslen ≤ pos
  · rw [unpackLoop_end hpos, unpackLoop_end (by omega)]
  · rw [unpackLoop, if_neg (by omega), if_neg hc]
    by_cases hnext : bslen - 1 < (pos + 1 : ℕ)
    · rw [if_pos hnext, unpackLoop_end (by omega)]
    · rw [if_neg hnext]

/-- An unsupported conversion consumes nothing. -/
theorem unpackLoop_other (hs : specOf c = .other) :
    unpackLoop bs bslen .percent (c :: fmt) pos = unpackLoop bs bslen .none fmt pos := by
  by_cases hpos : bslen ≤ pos
  · rw [unpackLoop_end hpos, unpackLoop_end hpos]
  · rw [unpackLoop, if_neg (by omega), hs]

variable (bs fmt) in
/-- An integer that lies in the message is read whole. -/
theorem unpackLoop_num (hs : specOf c = .num w) (hpos : (pos : ℤ) < bslen)
    (hin : (pos + w : ℕ) ≤ bslen) :
    ∃ reads, Inside bslen reads ∧
      unpackLoop bs bslen .percent (c :: fmt) pos =
        ⟨.num (numeral (bytesAt bs pos w)) :: (unpackLoop bs bslen .none fmt (pos + w)).fields,
          reads ++ (unpackLoop bs bslen .none fmt (pos + w)).reads⟩ := by
  obtain ⟨reads, hread⟩ := unpackNum_complete bs hpos hin
  have hlt := unpackNum_reads_lt bs (w := w) (v := 0) (Or.inl hpos)
  rw [hread] at hlt
  refine ⟨reads, hlt, ?_⟩
  rw [unpackLoop, if_neg (by omega), hs]
  simp only [hread]

variable (bs fmt) in
/-- An integer that the end of the message cuts off ends the decoding. -/
theorem unpackLoop_num_cut (hs : specOf c = .num w) (hpos : (pos : ℤ) < bslen)
    (hout : bslen < (pos + w : ℕ)) :
    ∃ v reads, Inside bslen reads ∧
      unpackLoop bs bslen .percent (c :: fmt) pos = ⟨[.num v], reads⟩ := by
  have hcut := unpackNum_cut bs hpos hout (by omega)
  have hlt := unpackNum_reads_lt bs (w := w) (v := 0) (Or.inl hpos)
  rcases hread : unpackNum bs bslen w pos 0 with ⟨v, reads, next⟩
  rw [hread] at hcut hlt
  obtain rfl : next = none := hcut
  refine ⟨v, reads, hlt, ?_⟩
  rw [unpackLoop, if_neg (by omega), hs]
  simp only [hread]

variable (bs fmt) in
/-- A string with a byte of the message behind its length prefix: as many bytes are copied as the
prefix says. -/
theorem unpackLoop_str (hs : specOf c = .str) (hin : (pos + 2 : ℕ) < bslen) :
    ∃ reads, Inside bslen reads ∧
      unpackLoop bs bslen .percent (c :: fmt) pos =
        ⟨.str (stringNewFromBytes (bytesAt bs (pos + 2) (numeral (bytesAt bs pos 2)))) ::
            (unpackLoop bs bslen .none fmt (pos + 2 + numeral (bytesAt bs pos 2))).fields,
          reads ++ (List.range (numeral (bytesAt bs pos 2))).map (pos + 2 + ·) ++
            (unpackLoop bs bslen .none fmt (pos + 2 + numeral (bytesAt bs pos 2))).reads⟩ := by
  have hpos : (pos : ℤ) < bslen := by omega
  obtain ⟨reads, hread⟩ := unpackNum_complete bs (w := 2) hpos hin.le
  have hlt := unpackNum_reads_lt bs (w := 2) (v := 0) (Or.inl hpos)
  rw [hread] at hlt
  refine ⟨reads, hlt, ?_⟩
  rw [unpackLoop, if_neg (by omega), hs]
  simp only [hread]
  rw [if_neg (by omega), List.map_map]
  rfl

variable (bs fmt) in
/-- A string whose length prefix reaches the end of the message is not assigned. -/
theorem unpackLoop_str_cut (hs : specOf c = .str) (hpos : (pos : ℤ) < bslen)
    (hout : bslen ≤ (pos + 2 : ℕ)) :
    ∃ reads, Inside bslen reads ∧
      unpackLoop bs bslen .percent (c :: fmt) pos = ⟨[], reads⟩ := by
  have hnext := unpackNum_next bs (w := 2) (v := 0) (Or.inl hpos)
  have hlt := unpackNum_reads_lt bs (w := 2) (v := 0) (Or.inl hpos)
  rcases hread : unpackNum bs bslen 2 pos 0 with ⟨v, reads, next⟩
  rw [hread] at hnext hlt
  refine ⟨reads, hlt, ?_⟩
  rw [unpackLoop, if_neg (by omega), hs]
  simp only [hread]
  cases next with
  | none => rfl
  | some next =>
    have hge : bslen - 1 < next := by
      change some next = _ at hnext
      split at hnext
      · obtain rfl := Option.some.inj hnext
        omega
      · cases hnext
    simp only [if_pos hge]

end Loop

end TinyMsg
