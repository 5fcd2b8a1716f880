import TinyMsg.Cnet.Unpack

/-!
# Messages that are long enough

`decode` is a decoder that checks what `NetUnpack` does not: it gives the values of a message, or
none when the message ends inside a field.  On a message that `decode` accepts, `NetUnpack` leaves
exactly those values in its output variables, whatever lies behind the message
(`unpackLoop_decode`).  The one output variable it may then leave out is that of an empty string
which ends the message, and that variable already is the empty string.
-/

namespace TinyMsg

/-! ## A message in memory -/

/-- The bytes `bs` lie in the memory from `pos` on. -/
def Holds (mem : ℕ → UInt8) (pos : ℕ) (bs : List UInt8) : Prop := bytesAt mem pos bs.length = bs

section Holds

variable {mem : ℕ → UInt8} {pos n : ℕ} {xs ys bs : List UInt8}

/-- A run of cells is a run followed by the rest. -/
theorem bytesAt_add (mem : ℕ → UInt8) (pos m n : ℕ) :
    bytesAt mem pos (m + n) = bytesAt mem pos m ++ bytesAt mem (pos + m) n := by
  rw [bytesAt, List.range_add, List.map_append, List.map_map]
  simp only [bytesAt, Function.comp_def, Nat.add_assoc]

/-- Two strings in a row lie in the memory when each lies in its place. -/
theorem holds_append :
    Holds mem pos (xs ++ ys) ↔ Holds mem pos xs ∧ Holds mem (pos + xs.length) ys := by
  rw [Holds, List.length_append, bytesAt_add]
  constructor
  · intro h
    exact List.append_inj h (length_bytesAt _ _ _)
  · rintro ⟨hx, hy⟩
    rw [hx, hy]

/-- The memory that begins with the bytes `bs` and is zero behind them holds them. -/
theorem holds_getD (bs : List UInt8) : Holds (fun i => bs.getD i 0) 0 bs := by
  rw [Holds, bytesAt]
  refine List.ext_getElem (by simp) fun i hi _ => ?_
  have hi' : i < bs.length := by simpa using hi
  simp [List.getElem?_eq_getElem hi']

/-- The first cells hold the first bytes, the cells behind them the others. -/
theorem Holds.split (h : Holds mem pos bs) (hn : n ≤ bs.length) :
    bytesAt mem pos n = bs.take n ∧ Holds mem (pos + n) (bs.drop n) := by
  rw [← List.take_append_drop n bs] at h
  obtain ⟨htake, hdrop⟩ := holds_append.mp h
  rw [Holds, List.length_take, Nat.min_eq_left hn] at htake
  rw [List.length_take, Nat.min_eq_left hn] at hdrop
  exact ⟨htake, hdrop⟩

end Holds

/-! ## The values of a message -/

/-- A value in a message. -/
inductive Value
  /-- An integer. -/
  | num (n : ℕ)
  /-- The bytes of a string. -/
  | str (bs : List UInt8)
  deriving DecidableEq

/-- The values of a message that is long enough for the format. -/
def decode : FmtState → List UInt8 → List UInt8 → Option (List Value)
  | _, [], _ => some []
  | .none, c :: fmt, bs =>
    if c = ofChar '%' then decode .percent fmt bs
    else if bs = [] then none
    else decode .none fmt (bs.drop 1)
  | .percent, c :: fmt, bs =>
    match specOf c with
    | .num w =>
      if bs.length < w then none
      else (decode .none fmt (bs.drop w)).map (.num (numeral (bs.take w)) :: ·)
    | .str =>
      let n := numeral (bs.take 2)
      if bs.length < 2 + n then none
      else (decode .none fmt (bs.drop (2 + n))).map (.str ((bs.drop 2).take n) :: ·)
    | .other => decode .none fmt bs

/-! ## Output variables -/

/-- The output variables before the call: integers are anything, a `String` starts as
`StringNew0`. -/
def FreshOutput : Spec → Field → Prop
  | .num _, .num _ => True
  | .str, .str s => s = stringNew0
  | _, _ => False

/-- The output variables after a call that wrote `written`: the others are as they were. -/
def outputs (written init : List Field) : List Field := written ++ init.drop written.length

@[simp] theorem outputs_nil (init : List Field) : outputs [] init = init := rfl

@[simp] theorem outputs_cons (f g : Field) (written init : List Field) :
    outputs (f :: written) (g :: init) = f :: outputs written init := rfl

/-- An output variable keeps its value if it is not written. -/
theorem getD_outputs (written init : List Field) (k : ℕ) (f : Field) :
    (outputs written init).getD k f = written.getD k (init.getD k f) := by
  rcases lt_or_ge k written.length with hk | hk
  · rw [outputs, List.getD_append _ _ _ _ hk, List.getD_eq_getElem _ _ hk,
      List.getD_eq_getElem _ _ hk]
  · rw [outputs, List.getD_append_right _ _ _ _ hk, List.getD_eq_default _ _ hk]
    simp only [List.getD_eq_getElem?_getD, List.getElem?_drop, Nat.add_sub_cancel' hk]

/-- Lists related item by item are related at each position. -/
theorem forall₂_getD {α β : Type} {R : α → β → Prop} {xs : List α} {ys : List β}
    (h : List.Forall₂ R xs ys) {k : ℕ} {x : α} (hx : xs[k]? = some x) (y : β) :
    R x (ys.getD k y) := by
  obtain ⟨hk, rfl⟩ := List.getElem?_eq_some_iff.mp hx
  have hk' : k < ys.length := h.length_eq ▸ hk
  rw [List.getD_eq_getElem _ _ hk']
  exact h.get hk hk'

/-- The number in an output variable. -/
def Field.asNum : Field → ℕ
  | .num n => n
  | .str _ => 0

/-- The string in an output variable. -/
def Field.asStr : Field → String
  | .num _ => stringNew0
  | .str s => s

/-- The output variable has the value. -/
def HasValue : Value → Field → Prop
  | .num n, .num m => m = n
  | .str bs, .str s => s.cstr = CStr.ofBytes bs ∧ s.bytes = bs
  | _, _ => False

theorem HasValue.asNum {n : ℕ} {f : Field} (h : HasValue (.num n) f) : f.asNum = n := by
  cases f with
  | num m => exact h
  | str s => exact absurd h id

theorem HasValue.asStr_cstr {bs : List UInt8} {f : Field} (h : HasValue (.str bs) f) :
    f.asStr.cstr = CStr.ofBytes bs := by
  cases f with
  | num m => exact absurd h id
  | str s => exact h.1

/-! ## Unpacking a message that is long enough -/

section Decode

variable {c : UInt8} {w pos : ℕ} {fmt bs : List UInt8} {st : FmtState} {vs : List Value}
  {mem : ℕ → UInt8} {init : List Field}

/-- An integer conversion takes at least one byte. -/
theorem specOf_num_pos (hs : specOf c = .num w) : 0 < w := by
  unfold specOf at hs
  split_ifs at hs <;> cases hs <;> decide

/-- The bytes that a conversion takes at least. -/
def Spec.width : Spec → ℕ
  | .num w => w
  | .str => 2
  | .other => 0

/-- An output variable is written only if its field begins inside the message. -/
theorem unpackLoop_begins {bslen : ℤ} {k : ℕ}
    (hk : k < (unpackLoop mem bslen st fmt pos).fields.length) :
    ((pos + (((fmtSpecs st fmt).take k).map Spec.width).sum : ℕ) : ℤ) < bslen := by
  induction fmt generalizing st pos k with
  | nil => cases st <;> exact absurd hk (Nat.not_lt_zero _)
  | cons c fmt ih =>
    rcases le_or_gt bslen pos with hend | hpos
    · rw [unpackLoop_end hend] at hk
      exact absurd hk (Nat.not_lt_zero _)
    cases k with
    | zero =>
      rw [List.take_zero]
      exact hpos
    | succ k =>
      cases st with
      | none =>
        by_cases hc : c = ofChar '%'
        · rw [unpackLoop_percent hc] at hk
          rw [fmtSpecs_percent hc]
          exact ih hk
        · rw [unpackLoop_lit hc] at hk
          rw [fmtSpecs_lit hc]
          have hrest := ih hk
          omega
      | percent =>
        cases hs : specOf c with
        | num w =>
          rw [fmtSpecs_num hs, List.take_succ_cons, List.map_cons, List.sum_cons, Spec.width,
            ← Nat.add_assoc]
          rcases le_or_gt ((pos + w : ℕ) : ℤ) bslen with hin | hout
          · obtain ⟨_, -, heq⟩ := unpackLoop_num mem fmt hs hpos hin
            rw [heq] at hk
            exact ih (Nat.lt_of_succ_lt_succ hk)
          · obtain ⟨_, _, -, heq⟩ := unpackLoop_num_cut mem fmt hs hpos hout
            rw [heq] at hk
            exact absurd (Nat.lt_of_succ_lt_succ hk) (Nat.not_lt_zero _)
        | str =>
          rw [fmtSpecs_str hs, List.take_succ_cons, List.map_cons, List.sum_cons, Spec.width,
            ← Nat.add_assoc]
          rcases lt_or_ge ((pos + 2 : ℕ) : ℤ) bslen with hin | hout
          · obtain ⟨_, -, heq⟩ := unpackLoop_str mem fmt hs hin
            rw [heq] at hk
            have hrest := ih (Nat.lt_of_succ_lt_succ hk)
            omega
          · obtain ⟨_, -, heq⟩ := unpackLoop_str_cut mem fmt hs hpos hout
            rw [heq] at hk
            exact absurd hk (Nat.not_lt_zero _)
        | other =>
          rw [unpackLoop_other hs] at hk
          rw [fmtSpecs_other hs]
          exact ih hk

attribute [local simp] decode in
/-- A message without bytes is long enough only for a format without conversions. -/
theorem decode_nil (h : decode st fmt [] = some vs) : vs = [] ∧ fmtSpecs st fmt = [] := by
  induction fmt generalizing st with
  | nil => cases st <;> exact ⟨(Option.some.inj h).symm, rfl⟩
  | cons c fmt ih =>
    cases st with
    | none =>
      by_cases hc : c = ofChar '%'
      · rw [decode, if_pos hc] at h
        rw [fmtSpecs_percent hc]
        exact ih h
      · simp [hc] at h
    | percent =>
      cases hs : specOf c with
      | num w =>
        have hw : ([] : List UInt8).length < w := specOf_num_pos hs
        rw [decode, hs] at h
        simp only [if_pos hw] at h
        cases h
      | str =>
        rw [decode, hs] at h
        cases h
      | other =>
        rw [decode, hs] at h
        rw [fmtSpecs_other hs]
        exact ih h

/-- The bytes that a value takes in a message. -/
def Spec.size : Spec → Value → ℕ
  | .num w, _ => w
  | .str, .str bs => 2 + bs.length
  | _, _ => 0

/-- The values lie in the message. -/
theorem decode_size (h : decode st fmt bs = some vs) :
    (List.zipWith Spec.size (fmtSpecs st fmt) vs).sum ≤ bs.length := by
  induction fmt generalizing st bs vs with
  | nil => cases st <;> exact Nat.zero_le _
  | cons c fmt ih =>
    cases st with
    | none =>
      by_cases hc : c = ofChar '%'
      · rw [decode, if_pos hc] at h
        rw [fmtSpecs_percent hc]
        exact ih h
      · rw [decode, if_neg hc] at h
        rw [fmtSpecs_lit hc]
        by_cases hbs : bs = []
        · rw [if_pos hbs] at h
          cases h
        · rw [if_neg hbs] at h
          have hle := ih h
          rw [List.length_drop] at hle
          omega
    | percent =>
      cases hs : specOf c with
      | num w =>
        rw [decode, hs] at h
        by_cases hw : bs.length < w
        · simp only [if_pos hw, reduceCtorEq] at h
        · simp only [if_neg hw, Option.map_eq_some_iff] at h
          obtain ⟨vs, hrest, rfl⟩ := h
          have hle := ih hrest
          rw [List.length_drop] at hle
          rw [fmtSpecs_num hs, List.zipWith_cons_cons, List.sum_cons, Spec.size]
          omega
      | str =>
        rw [decode, hs] at h
        obtain ⟨n, hn⟩ : ∃ n, numeral (bs.take 2) = n := ⟨_, rfl⟩
        by_cases hshort : bs.length < 2 + n
        · simp only [hn, if_pos hshort, reduceCtorEq] at h
        · simp only [hn, if_neg hshort, Option.map_eq_some_iff] at h
          obtain ⟨vs, hrest, rfl⟩ := h
          have hle := ih hrest
          have htake := List.length_take_le n (bs.drop 2)
          rw [List.length_drop] at hle
          rw [fmtSpecs_str hs, List.zipWith_cons_cons, List.sum_cons, Spec.size]
          omega
      | other =>
        rw [decode, hs] at h
        rw [fmtSpecs_other hs]
        exact ih h

/-- The first value of a format that begins with `%b` is the first byte. -/
theorem decode_byte (h : decode .none (ofChar '%' :: ofChar 'b' :: fmt) bs = some vs)
    (hmem : Holds mem 0 bs) : vs.head? = some (.num (mem 0).toNat) := by
  have hb : specOf (ofChar 'b') = .num 1 := by decide
  rw [decode, if_pos rfl, decode, hb] at h
  by_cases hw : bs.length < 1
  · simp only [if_pos hw, reduceCtorEq] at h
  · simp only [if_neg hw, Option.map_eq_some_iff] at h
    obtain ⟨vs, -, rfl⟩ := h
    obtain ⟨htake, -⟩ := hmem.split (not_lt.mp hw)
    rw [List.head?_cons, ← htake, bytesAt_succ, numeral_cons]
    simp [bytesAt]

/-- Unpacking a message that is long enough, at any place of the memory, leaves its values in the
output variables. -/
theorem unpackLoop_decode {bslen : ℤ} (hdec : decode st fmt bs = some vs)
    (hinit : List.Forall₂ FreshOutput (fmtSpecs st fmt) init) (hmem : Holds mem pos bs)
    (hlen : bslen = (pos + bs.length : ℕ)) :
    List.Forall₂ HasValue vs (outputs (unpackLoop mem bslen st fmt pos).fields init) := by
  induction fmt generalizing st bs vs pos init with
  | nil =>
    obtain rfl : [] = vs := by cases st <;> exact Option.some.inj hdec
    cases st <;> cases hinit <;> exact List.Forall₂.nil
  | cons c fmt ih =>
    cases st with
    | none =>
      by_cases hc : c = ofChar '%'
      · rw [decode, if_pos hc] at hdec
        rw [fmtSpecs_percent hc] at hinit
        rw [unpackLoop_percent hc]
        exact ih hdec hinit hmem hlen
      · rw [decode, if_neg hc] at hdec
        rw [fmtSpecs_lit hc] at hinit
        rw [unpackLoop_lit hc]
        by_cases hbs : bs = []
        · rw [if_pos hbs] at hdec
          cases hdec
        · rw [if_neg hbs] at hdec
          have hpos : 1 ≤ bs.length := List.length_pos_iff.mpr hbs
          refine ih hdec hinit (hmem.split hpos).2 ?_
          rw [List.length_drop]
          omega
    | percent =>
      cases hs : specOf c with
      | num w =>
        rw [decode, hs] at hdec
        rw [fmtSpecs_num hs] at hinit
        obtain ⟨g, init, -, hfresh, rfl⟩ := List.forall₂_cons_left_iff.mp hinit
        by_cases hw : bs.length < w
        · simp only [if_pos hw, reduceCtorEq] at hdec
        · simp only [if_neg hw, Option.map_eq_some_iff] at hdec
          obtain ⟨vs, hrest, rfl⟩ := hdec
          obtain ⟨htake, hdrop⟩ := hmem.split (not_lt.mp hw)
          have hpos := specOf_num_pos hs
          have hbegin : (pos : ℤ) < bslen := by omega
          have hin : (pos + w : ℕ) ≤ bslen := by omega
          obtain ⟨_, -, heq⟩ := unpackLoop_num mem fmt hs hbegin hin
          rw [heq, outputs_cons, htake]
          refine List.Forall₂.cons rfl (ih hrest hfresh hdrop ?_)
          rw [List.length_drop]
          omega
      | str =>
        rw [decode, hs] at hdec
        rw [fmtSpecs_str hs] at hinit
        obtain ⟨g, init, hg, hfresh, rfl⟩ := List.forall₂_cons_left_iff.mp hinit
        obtain ⟨n, hn⟩ : ∃ n, numeral (bs.take 2) = n := ⟨_, rfl⟩
        by_cases hshort : bs.length < 2 + n
        · simp only [hn, if_pos hshort, reduceCtorEq] at hdec
        · simp only [hn, if_neg hshort, Option.map_eq_some_iff] at hdec
          obtain ⟨vs, hrest, rfl⟩ := hdec
          obtain ⟨hpre, hbytes⟩ := hmem.split (n := 2) (by omega)
          rcases lt_or_ge (bs.length) 3 with hend | hin
          · -- nothing lies behind the length bytes: the string is empty and ends the message
            have hnil : bs.drop 2 = [] := List.drop_eq_nil_of_le (by omega)
            have hzero : n = 0 := by omega
            rw [hzero, Nat.add_zero, hnil] at hrest
            obtain ⟨rfl, hspecs⟩ := decode_nil hrest
            have hbegin : (pos : ℤ) < bslen := by omega
            have hcut : bslen ≤ (pos + 2 : ℕ) := by omega
            obtain ⟨_, -, heq⟩ := unpackLoop_str_cut mem fmt hs hbegin hcut
            rw [hspecs] at hfresh
            cases hfresh
            rw [heq, outputs_nil, hnil, List.take_nil]
            cases g with
            | num m => exact absurd hg id
            | str t =>
              obtain rfl : t = stringNew0 := hg
              exact List.Forall₂.cons ⟨rfl, rfl⟩ List.Forall₂.nil
          · have hbehind : (pos + 2 : ℕ) < bslen := by omega
            obtain ⟨_, -, heq⟩ := unpackLoop_str mem fmt hs hbehind
            have hlt : n < 2 ^ 16 := by
              have hnum := numeral_lt (bs.take 2)
              rw [hn, List.length_take, Nat.min_eq_left (by omega)] at hnum
              exact hnum
            have hdrop : n ≤ (bs.drop 2).length := by
              rw [List.length_drop]
              omega
            obtain ⟨htake, hrestmem⟩ := hbytes.split hdrop
            have hlen' : ((bs.drop 2).take n).length < 2 ^ 16 := by
              rw [List.length_take, Nat.min_eq_left hdrop]
              exact hlt
            rw [List.drop_drop] at hrestmem
            rw [heq, outputs_cons, hpre, hn, htake]
            refine List.Forall₂.cons ⟨String.stringNewFromBytes_cstr _,
              String.stringNewFromBytes_bytes hlen'⟩ (ih hrest hfresh hrestmem ?_)
            rw [List.length_drop]
            omega
      | other =>
        rw [decode, hs] at hdec
        rw [fmtSpecs_other hs] at hinit
        rw [unpackLoop_other hs]
        exact ih hdec hinit hmem hlen

/-- Each output variable has its value. -/
theorem netUnpack_value (hdec : decode .none fmt bs = some vs)
    (hinit : List.Forall₂ FreshOutput (fmtSpecs .none fmt) init) (hmem : Holds mem 0 bs) {k : ℕ}
    {v : Value} {f : Field} (hv : vs[k]? = some v) (hf : init[k]? = some f) :
    HasValue v ((netUnpack mem bs.length fmt).fields.getD k f) := by
  have hall : List.Forall₂ HasValue vs (outputs (netUnpack mem bs.length fmt).fields init) :=
    unpackLoop_decode hdec hinit hmem (by omega)
  have hget := forall₂_getD hall hv f
  rwa [getD_outputs, List.getD_eq_getElem?_getD (l := init), hf, Option.getD_some] at hget

end Decode

end TinyMsg
