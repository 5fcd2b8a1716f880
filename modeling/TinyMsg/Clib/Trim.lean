import TinyMsg.Clib.Split
import TinyMsg.Lib.Block
import TinyMsg.Lib.Trim

/-!
# `StringTrim` and `StringEquals` of `clib.c`

`StringTrim` is given the struct, not a pointer to it.  What it stores into the block reaches the
caller, who has the same pointer; what it stores into `len` does not.  `stringTrimParam` is the
struct of the function when it returns, and its content is the trimmed one
(`stringTrimParam_eq`); `stringTrim` is the caller's.  A caller whose string has whitespace at an
end is left with the trimmed content and as many NULs as whitespace has gone.
-/

namespace TinyMsg

/-! ## The functions -/

/-- `isspace` of the C locale: the blank, and the characters from the tab to the carriage return.
A `char` that is negative is none of them. -/
def isspace (b : UInt8) : Bool := b = 32 ∨ (9 ≤ b ∧ b ≤ 13)

/-- The loop of `StringEquals`, at `i`. -/
def stringEqualsFrom (str : String) (s : CStr) (i : ℕ) : Bool :=
  if i < str.len then
    if (str.bs.getD []).getD i 0 ≠ s.bytes.getD i 0 then false
    else stringEqualsFrom str s (i + 1)
  else true
termination_by str.len - i

/-- `StringEquals` -/
def stringEquals (str : String) (s : CStr) : Bool :=
  let slen := wrapInt (strlen s)
  if str.len ≠ slen then false else stringEqualsFrom str s 0

/-- The first loop of `StringTrim`, at `i`. -/
def trimStart (block : List UInt8) (len i starti : ℕ) : ℕ :=
  if i < len then
    if !isspace (block.getD i 0) then starti else trimStart block len (i + 1) (starti + 1)
  else starti
termination_by len - i

/-- The second loop of `StringTrim`, which goes down; the next index is one less than the first
number, and `endi` ends at `-1` when all is whitespace. -/
def trimEnd (block : List UInt8) : ℕ → ℤ → ℤ
  | 0, endi => endi
  | i + 1, endi => if !isspace (block.getD i 0) then endi else trimEnd block i (endi - 1)

/-- The parameter of `StringTrim` when the function returns. -/
def stringTrimParam (str : String) : Exec String :=
  if str.len = 0 then .ok str
  else
    let block := str.bs.getD []
    let starti := trimStart block str.len 0 0
    let endi := trimEnd block str.len (str.len - 1)
    if starti > str.len - 1 then
      .ok ⟨some (overwrite block 0 (List.replicate str.len 0)), 0⟩
    else if endi < starti then .error .assertion
    else
      let newlen := (endi - starti + 1).toNat
      let moved := overwrite block 0 ((block.drop starti).take newlen)
      .ok ⟨some (overwrite moved newlen (List.replicate (str.len - newlen) 0)), newlen⟩

/-- The caller's `String` after `StringTrim`: the block is the one that the function has written
to, the length is the caller's own. -/
def stringTrim (str : String) : Exec String := do
  let param ← stringTrimParam str
  .ok { str with bs := param.bs }

/-! ## The loops -/

section Loops

variable {str : String}

/-- Two strings of `int` length are equal when their bytes are. -/
theorem stringEquals_iff {s : CStr} (hstr : str.bytes.length = str.len) (hs : strlen s < 2 ^ 31) :
    stringEquals str s = true ↔ str.bytes = s.bytes := by
  have hloop : ∀ i, str.len = strlen s → (stringEqualsFrom str s i = true ↔
      str.bytes.drop i = s.bytes.drop i) := by
    intro i hlen
    change str.len = s.bytes.length at hlen
    induction i using stringEqualsFrom.induct str s with
    | case1 i hlt hne =>
      rw [stringEqualsFrom, if_pos hlt, if_pos hne, List.drop_eq_getElem_cons (by omega),
        List.drop_eq_getElem_cons (l := s.bytes) (by omega), List.cons.injEq]
      rw [getD_bytes (by omega), List.getD_eq_getElem _ _ (by omega)] at hne
      exact iff_of_false Bool.false_ne_true fun h => hne h.1
    | case2 i hlt heq ih =>
      rw [stringEqualsFrom, if_pos hlt, if_neg heq, ih, List.drop_eq_getElem_cons (l := str.bytes)
        (i := i) (by omega), List.drop_eq_getElem_cons (l := s.bytes) (i := i) (by omega),
        List.cons.injEq]
      rw [getD_bytes (by omega), List.getD_eq_getElem _ _ (by omega), not_not] at heq
      exact (and_iff_right heq).symm
    | case3 i hnot =>
      rw [stringEqualsFrom, if_neg hnot, List.drop_eq_nil_of_le (by omega),
        List.drop_eq_nil_of_le (by omega)]
      exact iff_of_true rfl rfl
  unfold stringEquals
  rw [wrapInt_of_lt hs]
  by_cases hlen : str.len = strlen s
  · have h0 := hloop 0 hlen
    rw [List.drop_zero, List.drop_zero] at h0
    rw [if_neg (by omega), h0]
  · rw [if_pos (by omega)]
    refine iff_of_false Bool.false_ne_true fun h => hlen ?_
    rw [← hstr, h, strlen]

/-- The first loop counts the whitespace at the front. -/
theorem trimStart_eq (hstr : str.bytes.length = str.len) (i starti : ℕ) :
    trimStart (str.bs.getD []) str.len i starti =
      starti + ((str.bytes.drop i).takeWhile isspace).length := by
  induction i, starti using trimStart.induct (str.bs.getD []) str.len with
  | case1 i starti hlt hstop =>
    rw [trimStart, if_pos hlt, if_pos hstop, List.drop_eq_getElem_cons (by omega)]
    rw [getD_bytes (by omega), Bool.not_eq_true'] at hstop
    rw [List.takeWhile_cons_of_neg (by rw [hstop]; exact Bool.false_ne_true)]
    rfl
  | case2 i starti hlt hspace ih =>
    rw [trimStart, if_pos hlt, if_neg hspace, ih,
      List.drop_eq_getElem_cons (l := str.bytes) (i := i) (by omega)]
    rw [getD_bytes (by omega), Bool.not_eq_true', Bool.not_eq_false] at hspace
    rw [List.takeWhile_cons_of_pos hspace, List.length_cons]
    omega
  | case3 i starti hnot =>
    rw [trimStart, if_neg hnot, List.drop_eq_nil_of_le (by omega)]
    rfl

/-- The second loop counts the whitespace at the end. -/
theorem trimEnd_eq (hstr : str.bytes.length = str.len) {n : ℕ} (hn : n ≤ str.len) (endi : ℤ) :
    trimEnd (str.bs.getD []) n endi =
      endi - ((str.bytes.take n).rtakeWhile isspace).length := by
  induction n generalizing endi with
  | zero =>
    rw [List.take_zero, List.rtakeWhile_nil]
    exact (sub_zero endi).symm
  | succ n ih =>
    have hlast : str.bytes.take (n + 1) = str.bytes.take n ++ [str.bytes[n]] :=
      List.take_succ_eq_append_getElem (by omega)
    rw [trimEnd, getD_bytes (by omega), hlast]
    cases hspace : isspace str.bytes[n] with
    | false =>
      rw [List.rtakeWhile_concat_neg _ _ _ (by rw [hspace]; exact Bool.false_ne_true)]
      exact (sub_zero endi).symm
    | true =>
      rw [List.rtakeWhile_concat_pos _ _ _ hspace, List.length_append, List.length_singleton]
      simp only [Bool.not_true, Bool.false_eq_true, if_false]
      rw [ih (by omega)]
      omega

/-! ## What is left of the string -/

/-- The content of the function's own struct is the trimmed one, with NULs up to the old end. -/
theorem stringTrimParam_eq (hblock : str.len ≤ (str.bs.getD []).length) (hne : str.len ≠ 0) :
    stringTrimParam str =
      .ok ⟨some (trim isspace str.bytes ++
          List.replicate (str.len - (trim isspace str.bytes).length) 0 ++
          (str.bs.getD []).drop str.len), (trim isspace str.bytes).length⟩ := by
  have hstr : str.bytes.length = str.len := length_bytes hblock
  have hfront := trimStart_eq hstr 0 0
  have hback := trimEnd_eq hstr le_rfl (str.len - 1)
  have hle := length_trim_le (p := isspace) (l := str.bytes)
  rw [List.drop_zero, Nat.zero_add] at hfront
  rw [List.take_of_length_le hstr.le] at hback
  unfold stringTrimParam
  simp only [hfront, hback]
  rw [if_neg hne]
  by_cases hall : trim isspace str.bytes = []
  · -- all is whitespace
    have hspace : str.bytes.takeWhile isspace = str.bytes :=
      List.takeWhile_eq_self_iff.mpr (trim_eq_nil_iff.mp hall)
    rw [if_pos (by rw [hspace]; omega), hall, List.length_nil, Nat.sub_zero, overwrite,
      List.take_zero, Nat.zero_add, List.length_replicate]
  · have hparts := takeWhile_trim_rtakeWhile hall
    have hlen := congrArg List.length hparts
    have hpos := List.length_pos_iff.mpr hall
    rw [List.length_append, List.length_append] at hlen
    have hnew : ((str.len : ℤ) - 1 - (str.bytes.rtakeWhile isspace).length -
        (str.bytes.takeWhile isspace).length + 1).toNat = (trim isspace str.bytes).length := by
      omega
    have hmove : ((str.bs.getD []).drop (str.bytes.takeWhile isspace).length).take
        (trim isspace str.bytes).length = trim isspace str.bytes := by
      rw [take_drop_block _ _ (by omega), take_drop_takeWhile]
    rw [if_neg (by omega), if_neg (by omega), hnew, hmove, overwrite_overwrite,
      List.length_replicate, Nat.add_sub_cancel' (hstr ▸ hle)]

/-- No assertion fails, and the function's own struct is trimmed. -/
theorem stringTrimParam_trimmed (hblock : str.len ≤ (str.bs.getD []).length) :
    ∃ param, stringTrimParam str = .ok param ∧ param.bytes = trim isspace str.bytes ∧
      param.len = (trim isspace str.bytes).length := by
  by_cases hzero : str.len = 0
  · have hnil : str.bytes = [] := List.length_eq_zero_iff.mp ((length_bytes hblock).trans hzero)
    refine ⟨str, if_pos hzero, ?_, ?_⟩
    · rw [hnil]
      rfl
    · rw [hnil, hzero]
      rfl
  · refine ⟨_, stringTrimParam_eq hblock hzero, ?_, rfl⟩
    simp only [String.bytes, Option.getD_some, List.append_assoc, List.take_left]

/-- The caller is left with the trimmed content and NULs instead of the whitespace. -/
theorem stringTrim_eq (hblock : str.len ≤ (str.bs.getD []).length) (hne : str.len ≠ 0) :
    stringTrim str =
      .ok ⟨some (trim isspace str.bytes ++
          List.replicate (str.len - (trim isspace str.bytes).length) 0 ++
          (str.bs.getD []).drop str.len), str.len⟩ := by
  rw [stringTrim, stringTrimParam_eq hblock hne, ok_bind]

/-- A string without whitespace at its ends is left as it is. -/
theorem stringTrim_self (hblock : str.len ≤ (str.bs.getD []).length)
    (htrim : trim isspace str.bytes = str.bytes) : stringTrim str = .ok str := by
  by_cases hzero : str.len = 0
  · rw [stringTrim, stringTrimParam, if_pos hzero, ok_bind]
  · rw [stringTrim_eq hblock hzero, htrim, length_bytes hblock, Nat.sub_self, List.replicate_zero,
      List.append_nil, String.bytes, List.take_append_drop]
    obtain ⟨bs, len⟩ := str
    cases bs with
    | none => exact absurd (Nat.le_zero.mp hblock) hzero
    | some block => rfl

end Loops

/-! ## Trimming the caller's string -/

/-- What trimming is for: the string afterwards has the content of the string before without the
whitespace at its ends, and its length, so that it equals it, and is not changed by trimming it
again. -/
structure Trims (before after : String) : Prop where
  /-- The length is that of the trimmed content. -/
  len : after.len = (trim isspace before.bytes).length
  /-- The content is the trimmed one. -/
  bytes : after.bytes = trim isspace before.bytes
  /-- `StringEquals` tells so. -/
  equals : ∀ t : CStr, t.bytes = trim isspace before.bytes → stringEquals after t = true
  /-- Trimming again changes nothing. -/
  again : stringTrim after = .ok after

/-- `StringTrim` trims the caller's string exactly when there is nothing to trim. -/
theorem string_trim_iff (str : String) (hblock : str.len ≤ (str.bs.getD []).length)
    (hlen : str.len < 2 ^ 16) :
    (∃ after, stringTrim str = .ok after ∧ Trims str after) ↔
      (∀ b ∈ str.bytes.head?, ¬ isspace b) ∧ ∀ b ∈ str.bytes.getLast?, ¬ isspace b := by
  have hstr : str.bytes.length = str.len := length_bytes hblock
  rw [← trim_eq_self_iff]
  constructor
  · rintro ⟨after, hafter, htrims⟩
    -- the caller's length is what it was
    have hsame : after.len = str.len := by
      obtain ⟨param, -, hparam⟩ := bind_eq_ok.mp hafter
      rw [← Except.ok.inj hparam]
    apply trim_eq_self_of_length
    rw [← htrims.len, hsame, hstr]
  · intro htrim
    have hself := stringTrim_self hblock htrim
    refine ⟨str, hself, ?_, htrim.symm, fun t ht => ?_, hself⟩
    · rw [htrim, hstr]
    · rw [htrim] at ht
      rw [stringEquals_iff hstr (by rw [strlen, ht]; omega), ht]

/-- A string with whitespace inside, which stays. -/
theorem string_trim_inner :
    ∃ after, stringTrim (stringNew (.const ['a', ' ', 'b'])) = .ok after ∧
      Trims (stringNew (.const ['a', ' ', 'b'])) after := by
  have hbytes : (stringNew (.const ['a', ' ', 'b'])).bytes = [97, 32, 98] := by decide
  refine (string_trim_iff _ (by decide) (by decide)).mpr ⟨?_, ?_⟩
  · rw [hbytes]
    rintro b ⟨⟩
    decide
  · rw [hbytes]
    rintro b ⟨⟩
    decide

/-- The string `" abc   "` of the test program: the characters move to the front, and the string
is still seven bytes long. -/
theorem string_trim_keeps_length :
    ∃ after, stringTrim (stringNew (.const [' ', 'a', 'b', 'c', ' ', ' ', ' '])) = .ok after ∧
      after.bytes = [97, 98, 99, 0, 0, 0, 0] ∧
      ¬ Trims (stringNew (.const [' ', 'a', 'b', 'c', ' ', ' ', ' '])) after := by
  have htrim : trim isspace
      (stringNew (.const [' ', 'a', 'b', 'c', ' ', ' ', ' '])).bytes = [97, 98, 99] := by
    decide
  have hblock : (stringNew (.const [' ', 'a', 'b', 'c', ' ', ' ', ' '])).len ≤
      ((stringNew (.const [' ', 'a', 'b', 'c', ' ', ' ', ' '])).bs.getD []).length := by
    decide
  have hafter := stringTrim_eq hblock (by decide)
  rw [htrim] at hafter
  refine ⟨_, hafter, rfl, fun h => ?_⟩
  have hlen := h.len
  rw [htrim] at hlen
  cases hlen

end TinyMsg
