import TinyMsg.Clib.Str
import TinyMsg.Clib.Buffer
import TinyMsg.Lib.Run

/-!
# Calls of the string functions

The functions that make or write a `String` allocate a new block each time, so a `String` that a
call left alone is one that still has its block.  The state of `stringCall` is therefore the values
of the string variables with the addresses of their blocks, and the position in the arena, whose
memory is taken to suffice.

Only `StringAppend` checks the length: what does not fit leaves the `String` as it was.  The other
functions store the length into a `u16` whatever it is.  `string_calls_faithful_iff` says which
calls of a sequence are faithful: those with a content that is shorter than `2 ^ 16`, and appends
whose `strlen` fits an `int`.
-/

namespace TinyMsg

/-! ## The functions -/

/-- The length that `vsnprintf` returns for what it prints, negative when it is too long for an
`int`. -/
def vsnprintfLen (printed : List UInt8) : ℤ :=
  if printed.length < 2 ^ 31 then printed.length else -1

/-- `StringFormat`, given what the format prints: the length is stored into a `u16`, and that much
is printed into the block. -/
def stringFormat (printed : List UInt8) : String :=
  let len := (vsnprintfLen printed % 2 ^ 16).toNat
  ⟨some (printed.take len ++ [0]), len⟩

/-- `StringNewFromBytes` with the number of bytes as an `int`: one more is allocated. -/
def stringNewFromBytesOf (bs : List UInt8) : Exec String :=
  if bs.length + 1 < 2 ^ 31 then .ok (stringNewFromBytes bs) else .error .undefined

/-- What `StringAppend` does: nothing (`none`), or a new block. -/
def stringAppend (str : String) (s : CStr) : Exec (Option String) :=
  let slen := wrapInt (strlen s)
  -- an `int` overflows
  if 2 ^ 31 ≤ str.len + slen + 1 then .error .undefined
  else if 65535 < str.len + slen + 1 then .ok none
  -- `memcpy` of a negative size
  else if slen < 0 then .error .undefined
  else
    .ok (some ⟨some ((str.bs.getD []).take str.len ++ s.bytes.take slen.toNat ++ [0]),
      (str.len + slen.toNat) % 2 ^ 16⟩)

/-- A `String` and the address of its block. -/
structure Placed where
  /-- The value. -/
  str : String
  /-- The address of the block; no block is at `0`. -/
  addr : ℕ

/-- The string variables, and the position in the arena. -/
structure Strings where
  /-- The variables. -/
  var : ℕ → Placed
  /-- Where the next block will be. -/
  pos : ℕ

/-- All variables are `StringNew0`. -/
def stringsInit : Strings := ⟨fun _ => ⟨stringNew0, 0⟩, 1⟩

/-- A call of a string function that writes to the variable `d`. -/
inductive StringCall
  /-- `StringNew` -/
  | new (d : ℕ) (s : CStr)
  /-- `StringNewFromBytes` -/
  | newFromBytes (d : ℕ) (bs : List UInt8)
  /-- `StringDup` of the variable `src` -/
  | dup (d src : ℕ)
  /-- `StringFormat` of what is printed -/
  | format (d : ℕ) (printed : List UInt8)
  /-- `StringAssign` -/
  | assign (d : ℕ) (s : CStr)
  /-- `StringAssignFromBytes` -/
  | assignFromBytes (d : ℕ) (bs : List UInt8)
  /-- `StringAssignFormat` of what is printed -/
  | assignFormat (d : ℕ) (printed : List UInt8)
  /-- `StringAppend` -/
  | append (d : ℕ) (s : CStr)

/-- The variable a call writes to. -/
def StringCall.target : StringCall → ℕ
  | .new d _ | .newFromBytes d _ | .dup d _ | .format d _ | .assign d _ | .assignFromBytes d _
  | .assignFormat d _ | .append d _ => d

/-- A `String` with a new block is stored into the variable `d`. -/
def Strings.store (st : Strings) (d : ℕ) (str : String) : Strings :=
  ⟨Function.update st.var d ⟨str, st.pos⟩, st.pos + (str.bs.getD []).length⟩

/-- The variables after a call.  `StringAssign` and `StringAssignFromBytes` store a new string,
`StringAssignFormat` does what `StringFormat` does. -/
def stringCall (st : Strings) : StringCall → Exec Strings
  | .new d s => .ok (st.store d (stringNew s))
  | .newFromBytes d bs => do .ok (st.store d (← stringNewFromBytesOf bs))
  | .dup d src => .ok (st.store d (stringDup (st.var src).str))
  | .format d printed => .ok (st.store d (stringFormat printed))
  | .assign d s => .ok (st.store d (stringNew s))
  | .assignFromBytes d bs => do .ok (st.store d (← stringNewFromBytesOf bs))
  | .assignFormat d printed => .ok (st.store d (stringFormat printed))
  | .append d s => do
    match ← stringAppend (st.var d).str s with
    | some str => .ok (st.store d str)
    | none => .ok st

/-! ## What the calls are for -/

/-- The content that a call asks for. -/
def StringCall.requested (st : Strings) : StringCall → List UInt8
  | .new _ s | .assign _ s => s.bytes
  | .newFromBytes _ bs | .assignFromBytes _ bs => bs
  | .dup _ src => (st.var src).str.bytes
  | .format _ printed | .assignFormat _ printed => printed
  | .append d s => (st.var d).str.bytes ++ s.bytes

/-- A `String` with a content: its length is the number of bytes, the bytes are those of the
content, and a NUL is behind them. -/
structure String.Gives (content : List UInt8) (str : String) : Prop where
  /-- The length is the number of bytes. -/
  len : str.len = content.length
  /-- The bytes are those of the content. -/
  bytes : str.bytes = content
  /-- A NUL is behind them. -/
  nul : (str.bs.getD [])[str.len]? = some 0

/-- A call that gives a `String` with the content it asks for, or leaves its `String` unchanged. -/
def StringCall.Faithful (st : Strings) (call : StringCall) : Prop :=
  ∃ st', stringCall st call = .ok st' ∧
    ((st'.var call.target).str.Gives (call.requested st) ∨
      st'.var call.target = st.var call.target)

/-- The lengths of a call fit: the content of a constructor, of an assignment or of a format has
fewer than `2 ^ 16` bytes, and the string that is appended is measured right, or measured as too
long, without an overflow. -/
def StringCall.Fits (st : Strings) : StringCall → Prop
  | .new _ s | .assign _ s => strlen s < 2 ^ 16
  | .newFromBytes _ bs | .assignFromBytes _ bs => bs.length < 2 ^ 16
  | .dup _ _ => True
  | .format _ printed | .assignFormat _ printed => printed.length < 2 ^ 16
  | .append d s =>
    let slen := wrapInt (strlen s)
    0 ≤ slen ∧ (st.var d).str.len + slen + 1 < 2 ^ 31 ∧
      (65535 < (st.var d).str.len + slen + 1 ∨ slen = strlen s)

/-- What all calls keep: the blocks are behind the position, and have at least the bytes that the
length says. -/
structure Strings.Inv (st : Strings) : Prop where
  /-- A new block is not the block of a variable. -/
  addr : ∀ d, (st.var d).addr < st.pos
  /-- The blocks are as long as the lengths say. -/
  block : ∀ d, (st.var d).str.len ≤ ((st.var d).str.bs.getD []).length
  /-- The lengths are 16-bit. -/
  len : ∀ d, (st.var d).str.len < 2 ^ 16

/-- A block with room for the NUL behind a 16-bit length. -/
def String.Sound (str : String) : Prop :=
  str.len < (str.bs.getD []).length ∧ str.len < 2 ^ 16

/-! ## One call -/

section Call

variable {st st' : Strings} {call : StringCall} {str : String} {content rest : List UInt8} {d : ℕ}
  {s : CStr}

@[simp] theorem store_var (st : Strings) (d : ℕ) (str : String) :
    (st.store d str).var d = ⟨str, st.pos⟩ := Function.update_self _ _ _

/-- A block that starts with the content and a NUL gives the content. -/
theorem gives_of_block (content rest : List UInt8) :
    String.Gives content ⟨some (content ++ 0 :: rest), content.length⟩ where
  len := rfl
  bytes := List.take_left
  nul := by
    change (content ++ 0 :: rest)[content.length]? = some 0
    rw [List.getElem?_append_right le_rfl, Nat.sub_self]
    rfl

/-- A content that is given has a 16-bit length. -/
theorem String.Gives.length_lt (h : str.Gives content) (hlen : str.len < 2 ^ 16) :
    content.length < 2 ^ 16 := h.len ▸ hlen

/-- The content of a `String` has the length that is stored, if the block is long enough. -/
theorem length_bytes (h : str.len ≤ (str.bs.getD []).length) : str.bytes.length = str.len := by
  rw [String.bytes, List.length_take, Nat.min_eq_left h]

theorem stringNew_gives_iff (s : CStr) : (stringNew s).Gives s.bytes ↔ strlen s < 2 ^ 16 := by
  constructor
  · intro h
    exact h.length_lt (Nat.mod_lt _ (by decide))
  · intro h
    unfold stringNew
    rw [Nat.mod_eq_of_lt h, strlen, List.take_length]
    exact gives_of_block s.bytes []

theorem stringNewFromBytes_gives_iff (bs : List UInt8) :
    (stringNewFromBytes bs).Gives bs ↔ bs.length < 2 ^ 16 := by
  constructor
  · intro h
    exact h.length_lt (Nat.mod_lt _ (by decide))
  · intro h
    unfold stringNewFromBytes
    rw [Nat.mod_eq_of_lt h]
    exact gives_of_block bs []

/-- The length of a formatted string is 16-bit. -/
theorem stringFormat_len_lt (printed : List UInt8) : (stringFormat printed).len < 2 ^ 16 := by
  change (vsnprintfLen printed % 2 ^ 16).toNat < 2 ^ 16
  omega

/-- What is printed fills the block. -/
theorem stringFormat_block (printed : List UInt8) :
    (stringFormat printed).len + 1 = ((stringFormat printed).bs.getD []).length := by
  change (vsnprintfLen printed % 2 ^ 16).toNat + 1 =
    (printed.take (vsnprintfLen printed % 2 ^ 16).toNat ++ [0]).length
  unfold vsnprintfLen
  rw [List.length_append, List.length_take, List.length_singleton]
  split <;> omega

/-- What is printed is stored whole when its length is 16-bit. -/
theorem stringFormat_of_lt {printed : List UInt8} (h : printed.length < 2 ^ 16) :
    stringFormat printed = ⟨some (printed ++ [0]), printed.length⟩ := by
  have hlen : (vsnprintfLen printed % 2 ^ 16).toNat = printed.length := by
    unfold vsnprintfLen
    rw [if_pos (by omega)]
    omega
  unfold stringFormat
  simp only [hlen, List.take_length]

theorem stringFormat_gives_iff (printed : List UInt8) :
    (stringFormat printed).Gives printed ↔ printed.length < 2 ^ 16 := by
  constructor
  · intro h
    exact h.length_lt (stringFormat_len_lt printed)
  · intro h
    rw [stringFormat_of_lt h]
    exact gives_of_block printed []

theorem stringDup_gives (h : str.len ≤ (str.bs.getD []).length) :
    (stringDup str).Gives str.bytes := by
  have hgives := gives_of_block str.bytes []
  rw [length_bytes h] at hgives
  exact hgives

/-- A call that stores a string with a new block is faithful when the string has the content. -/
theorem faithful_store_iff (h : st.Inv)
    (hcall : stringCall st call = .ok (st.store call.target str)) :
    call.Faithful st ↔ str.Gives (call.requested st) := by
  constructor
  · rintro ⟨st', hst', hfaithful⟩
    obtain rfl := Except.ok.inj (hcall.symm.trans hst')
    rw [store_var] at hfaithful
    rcases hfaithful with hgives | hsame
    · exact hgives
    · -- the block of the variable is an older one
      have haddr := h.addr call.target
      rw [← hsame] at haddr
      exact absurd haddr (lt_irrefl _)
  · intro hgives
    refine ⟨_, hcall, Or.inl ?_⟩
    rw [store_var]
    exact hgives

/-- A call that stops is not faithful. -/
theorem not_faithful_of_error {stop : Fault} (hcall : stringCall st call = .error stop) :
    ¬ call.Faithful st := by
  rintro ⟨st', hst', -⟩
  cases hcall.symm.trans hst'

/-- Making a string from bytes. -/
theorem faithful_fromBytes_iff (h : st.Inv) {bs : List UInt8}
    (hcall : stringCall st call = (do .ok (st.store call.target (← stringNewFromBytesOf bs))))
    (hbs : call.requested st = bs) : call.Faithful st ↔ bs.length < 2 ^ 16 := by
  unfold stringNewFromBytesOf at hcall
  by_cases hint : bs.length + 1 < 2 ^ 31
  · rw [if_pos hint, ok_bind] at hcall
    rw [faithful_store_iff h hcall, hbs, stringNewFromBytes_gives_iff]
  · rw [if_neg hint, error_bind] at hcall
    exact iff_of_false (not_faithful_of_error hcall) (by omega)

/-- The outcomes of `StringAppend`, by the `int` that `strlen` is stored into: an overflow or a
negative size, nothing because the limit is exceeded, or a new block with that many characters. -/
theorem stringAppend_cases (s : CStr) (hlen : str.len < 2 ^ 16) :
    (¬ (0 ≤ wrapInt (strlen s) ∧ str.len + wrapInt (strlen s) + 1 < 2 ^ 31) ∧
        stringAppend str s = .error .undefined) ∨
      (0 ≤ wrapInt (strlen s) ∧ str.len + wrapInt (strlen s) + 1 < 2 ^ 31) ∧
        (65535 < str.len + wrapInt (strlen s) + 1 ∧ stringAppend str s = .ok none ∨
          str.len + wrapInt (strlen s) + 1 ≤ 65535 ∧
            stringAppend str s =
              .ok (some ⟨some (str.bytes ++ s.bytes.take (wrapInt (strlen s)).toNat ++ [0]),
                str.len + (wrapInt (strlen s)).toNat⟩)) := by
  unfold stringAppend
  generalize wrapInt (strlen s) = slen
  by_cases hover : 2 ^ 31 ≤ str.len + slen + 1
  · rw [if_pos hover]
    exact Or.inl ⟨fun h => absurd h.2 (not_lt.mpr hover), rfl⟩
  · rw [if_neg hover]
    by_cases hguard : 65535 < str.len + slen + 1
    · rw [if_pos hguard]
      exact Or.inr ⟨⟨by omega, not_le.mp hover⟩, Or.inl ⟨hguard, rfl⟩⟩
    · rw [if_neg hguard]
      by_cases hneg : slen < 0
      · rw [if_pos hneg]
        exact Or.inl ⟨fun h => absurd h.1 (not_le.mpr hneg), rfl⟩
      · have hmod : (str.len + slen.toNat) % 2 ^ 16 = str.len + slen.toNat :=
          Nat.mod_eq_of_lt (by omega)
        rw [if_neg hneg, hmod]
        exact Or.inr ⟨⟨not_lt.mp hneg, not_le.mp hover⟩, Or.inr ⟨not_lt.mp hguard, rfl⟩⟩

/-- Appending is faithful when the string that is appended is measured right, or as too long. -/
theorem faithful_append_iff (h : st.Inv) (d : ℕ) (s : CStr) :
    (StringCall.append d s).Faithful st ↔ (StringCall.append d s).Fits st := by
  have hbytes := length_bytes (h.block d)
  rcases stringAppend_cases s (h.len d) with
    ⟨hnot, happend⟩ | ⟨⟨hpos, hint⟩, ⟨hguard, happend⟩ | ⟨hroom, happend⟩⟩
  · have hcall : stringCall st (.append d s) = .error .undefined := by
      rw [stringCall, happend, error_bind]
    exact iff_of_false (not_faithful_of_error hcall) (fun hfits => hnot ⟨hfits.1, hfits.2.1⟩)
  · have hcall : stringCall st (.append d s) = .ok st := by
      rw [stringCall, happend, ok_bind]
    exact iff_of_true ⟨st, hcall, Or.inr rfl⟩ ⟨hpos, hint, Or.inl hguard⟩
  · have hcall : stringCall st (.append d s) =
        .ok (st.store d
          ⟨some ((st.var d).str.bytes ++ s.bytes.take (wrapInt (strlen s)).toNat ++ [0]),
            (st.var d).str.len + (wrapInt (strlen s)).toNat⟩) := by
      rw [stringCall, happend, ok_bind]
    rw [faithful_store_iff h hcall]
    constructor
    · intro hgives
      have hsum := hgives.len
      change _ = ((st.var d).str.bytes ++ s.bytes).length at hsum
      rw [List.length_append, hbytes] at hsum
      change _ + (wrapInt (strlen s)).toNat = _ + strlen s at hsum
      exact ⟨hpos, hint, Or.inr (by omega)⟩
    · rintro ⟨-, -, hsum⟩
      have hexact : wrapInt (strlen s) = strlen s := hsum.resolve_left (not_lt.mpr hroom)
      have hgives := gives_of_block ((st.var d).str.bytes ++ s.bytes) []
      rw [List.length_append, hbytes] at hgives
      rw [hexact, Int.toNat_natCast, strlen, List.take_length]
      exact hgives

/-- A call is faithful exactly when its lengths fit. -/
theorem faithful_iff_fits (h : st.Inv) (call : StringCall) : call.Faithful st ↔ call.Fits st := by
  cases call with
  | new d s => rw [faithful_store_iff h rfl]; exact stringNew_gives_iff s
  | newFromBytes d bs => exact faithful_fromBytes_iff h rfl rfl
  | dup d src =>
    have hgives := stringDup_gives (h.block src)
    exact iff_of_true ((faithful_store_iff h rfl).mpr hgives) trivial
  | format d printed => rw [faithful_store_iff h rfl]; exact stringFormat_gives_iff printed
  | assign d s => rw [faithful_store_iff h rfl]; exact stringNew_gives_iff s
  | assignFromBytes d bs => exact faithful_fromBytes_iff h rfl rfl
  | assignFormat d printed => rw [faithful_store_iff h rfl]; exact stringFormat_gives_iff printed
  | append d s => exact faithful_append_iff h d s

/-- A new block in a variable keeps the invariant. -/
theorem Strings.Inv.store (h : st.Inv) (d : ℕ) (hstr : str.Sound) : (st.store d str).Inv := by
  obtain ⟨hblock, hlen⟩ := hstr
  have hvar : ∀ j, (st.store d str).var j = if j = d then ⟨str, st.pos⟩ else st.var j := by
    intro j
    exact Function.update_apply _ _ _ _
  have hpos : (st.store d str).pos = st.pos + (str.bs.getD []).length := rfl
  constructor
  case addr =>
    intro j
    rw [hvar, hpos]
    split
    · change st.pos < _
      omega
    · exact (h.addr j).trans_le (Nat.le_add_right _ _)
  case block =>
    intro j
    rw [hvar]
    split
    · exact hblock.le
    · exact h.block j
  case len =>
    intro j
    rw [hvar]
    split
    · exact hlen
    · exact h.len j

theorem stringNew_sound (s : CStr) : (stringNew s).Sound := by
  have hlen : (s.bytes.take (strlen s % 2 ^ 16)).length = strlen s % 2 ^ 16 := by
    rw [List.length_take]
    exact Nat.min_eq_left (Nat.mod_le _ _)
  refine ⟨?_, Nat.mod_lt _ (by decide)⟩
  change strlen s % 2 ^ 16 < (s.bytes.take (strlen s % 2 ^ 16) ++ [0]).length
  rw [List.length_append, hlen]
  exact Nat.lt_succ_self _

theorem stringNewFromBytes_sound (bs : List UInt8) : (stringNewFromBytes bs).Sound := by
  refine ⟨?_, Nat.mod_lt _ (by decide)⟩
  change bs.length % 2 ^ 16 < (bs ++ [0]).length
  rw [List.length_append]
  exact Nat.lt_succ_of_le (Nat.mod_le _ _)

theorem stringFormat_sound (printed : List UInt8) : (stringFormat printed).Sound :=
  ⟨(stringFormat_block printed).symm ▸ Nat.lt_succ_self _, stringFormat_len_lt printed⟩

theorem stringDup_sound (hblock : str.len ≤ (str.bs.getD []).length) (hlen : str.len < 2 ^ 16) :
    (stringDup str).Sound := by
  refine ⟨?_, hlen⟩
  change str.len < (str.bytes ++ [0]).length
  rw [List.length_append, length_bytes hblock]
  exact Nat.lt_succ_self _

/-- A block that `StringAppend` makes is sound. -/
theorem stringAppend_sound {str' : String} (hblock : str.len ≤ (str.bs.getD []).length)
    (hlen : str.len < 2 ^ 16) (happend : stringAppend str s = .ok (some str')) : str'.Sound := by
  have htake : (s.bytes.take (wrapInt (strlen s)).toNat).length = (wrapInt (strlen s)).toNat := by
    rw [List.length_take]
    exact Nat.min_eq_left (wrapInt_toNat_le (strlen s))
  rcases stringAppend_cases s hlen with ⟨-, hstop⟩ | ⟨-, ⟨-, hsame⟩ | ⟨hroom, hnew⟩⟩
  · cases hstop.symm.trans happend
  · cases hsame.symm.trans happend
  · obtain rfl := Option.some.inj (Except.ok.inj (hnew.symm.trans happend))
    constructor
    · change _ < (str.bytes ++ s.bytes.take (wrapInt (strlen s)).toNat ++ [0]).length
      rw [List.length_append, List.length_append, htake, length_bytes hblock]
      exact Nat.lt_succ_self _
    · change str.len + (wrapInt (strlen s)).toNat < 2 ^ 16
      omega

/-- Every call keeps the invariant. -/
theorem Strings.Inv.step (h : st.Inv) (c : StringCall) (hcall : stringCall st c = .ok st') :
    st'.Inv := by
  have hbytes : ∀ d bs, (do .ok (st.store d (← stringNewFromBytesOf bs))) = Except.ok st' →
      st'.Inv := by
    intro d bs hcall
    unfold stringNewFromBytesOf at hcall
    split at hcall
    · obtain rfl := Except.ok.inj hcall
      exact h.store d (stringNewFromBytes_sound bs)
    · cases hcall
  cases c with
  | new d s => obtain rfl := Except.ok.inj hcall; exact h.store d (stringNew_sound s)
  | newFromBytes d bs => exact hbytes d bs hcall
  | dup d src =>
    obtain rfl := Except.ok.inj hcall
    exact h.store d (stringDup_sound (h.block src) (h.len src))
  | format d printed =>
    obtain rfl := Except.ok.inj hcall
    exact h.store d (stringFormat_sound printed)
  | assign d s => obtain rfl := Except.ok.inj hcall; exact h.store d (stringNew_sound s)
  | assignFromBytes d bs => exact hbytes d bs hcall
  | assignFormat d printed =>
    obtain rfl := Except.ok.inj hcall
    exact h.store d (stringFormat_sound printed)
  | append d s =>
    unfold stringCall at hcall
    obtain ⟨result, happend, hcall⟩ := bind_eq_ok.mp hcall
    cases result with
    | some str =>
      obtain rfl := Except.ok.inj hcall
      exact h.store d (stringAppend_sound (h.block d) (h.len d) happend)
    | none =>
      obtain rfl := Except.ok.inj hcall
      exact h

end Call

/-! ## Runs -/

/-- The first state has the invariant. -/
theorem stringsInit_inv : stringsInit.Inv :=
  ⟨fun _ => Nat.zero_lt_one, fun _ => le_rfl, fun _ => Nat.two_pow_pos 16⟩

/-- In a sequence of calls every call is faithful, it gives a `String` with the content it asks for
or leaves its `String` unchanged, exactly when the lengths of every call fit. -/
theorem string_calls_faithful_iff (calls : List StringCall) :
    (∀ fs (call : StringCall) st, fs ++ [call] <+: calls → run stringCall stringsInit fs = .ok st →
        call.Faithful st) ↔
      ∀ fs (call : StringCall) st, fs ++ [call] <+: calls → run stringCall stringsInit fs = .ok st →
        call.Fits st := by
  have hstep : ∀ fs (call : StringCall) st, run stringCall stringsInit fs = .ok st →
      (call.Faithful st ↔ call.Fits st) := by
    intro fs call st hrun
    apply faithful_iff_fits (run_invariant (I := Strings.Inv) _ stringsInit_inv hrun)
    intro st call st' hst hcall
    exact hst.step call hcall
  constructor
  · intro h fs call st hfs hrun
    exact (hstep fs call st hrun).mp (h fs call st hfs hrun)
  · intro h fs call st hfs hrun
    exact (hstep fs call st hrun).mpr (h fs call st hfs hrun)

/-- A string of `n` letters. -/
def letters (n : ℕ) : CStr :=
  ⟨List.replicate n (ofChar 'a'), fun h => by cases List.eq_of_mem_replicate h⟩

theorem strlen_letters (n : ℕ) : strlen (letters n) = n := List.length_replicate

/-- A `String` that is assigned 65536 characters is empty: the length wraps to 0. -/
theorem assign_65536_loses_all :
    (∃ st, stringCall stringsInit (.assign 0 (letters 65536)) = .ok st ∧
        (st.var 0).str.bytes = []) ∧
      ¬ (StringCall.assign 0 (letters 65536)).Faithful stringsInit := by
  have hlen : strlen (letters 65536) % 2 ^ 16 = 0 := by
    rw [strlen_letters]
    rfl
  constructor
  · refine ⟨_, rfl, ?_⟩
    rw [store_var]
    unfold stringNew
    rw [hlen]
    rfl
  · rw [faithful_iff_fits stringsInit_inv]
    change ¬ strlen (letters 65536) < 2 ^ 16
    rw [strlen_letters]
    decide

end TinyMsg
