import TinyMsg.Clib.StringCalls
import TinyMsg.Clib.ArrayCalls
import TinyMsg.Lib.Split

/-!
# `StringSearch` and `StringSplit` of `clib.c`

`StringSplit` walks the string twice with the same search: it counts the tokens, makes an array
with that capacity, and cuts.  Both walks follow `tokens` (`stringCountToks_eq`, `splitLoop_eq`), so
the array never grows, unless the number of tokens does not fit the 16-bit capacity.  That needs
65536 tokens: 65535 bytes that are all the separator.

The length of the separator is kept in an `int`, so what is searched for are its first characters
as far as that counts (`measured`).
-/

namespace TinyMsg

instance : Inhabited String := ⟨stringNew0⟩

/-! ## The functions -/

/-- The inner loop of `StringSearch`, from the character at `isearch` of what is searched for and
the one at `istr` of the string. -/
def stringMatchFrom (str : String) (searchstr : CStr) (searchstrLen : ℤ) (isearch istr : ℕ) :
    Bool :=
  if isearch < searchstrLen ∧ istr < str.len then
    if (str.bs.getD []).getD istr 0 ≠ searchstr.bytes.getD isearch 0 then false
    else if isearch = searchstrLen - 1 then true
    else stringMatchFrom str searchstr searchstrLen (isearch + 1) (istr + 1)
  else false
termination_by str.len - istr

/-- The outer loop of `StringSearch`, at `i`. -/
def stringSearchFrom (str : String) (searchstr : CStr) (searchstrLen : ℤ) (i : ℕ) : Option ℕ :=
  if i < str.len then
    if stringMatchFrom str searchstr searchstrLen 0 i then some i
    else stringSearchFrom str searchstr searchstrLen (i + 1)
  else none
termination_by str.len - i

/-- `StringSearch`: the first match from `startpos` on, `none` for `-1`. -/
def stringSearch (str : String) (startpos : ℕ) (searchstr : CStr) : Option ℕ :=
  stringSearchFrom str searchstr (wrapInt (strlen searchstr)) startpos

/-- A match is inside the string, and only a positive length matches. -/
theorem stringSearchFrom_some {str : String} {startpos i : ℕ} {searchstr : CStr} {slen : ℤ}
    (h : stringSearchFrom str searchstr slen startpos = some i) :
    startpos ≤ i ∧ i < str.len ∧ 0 < slen.toNat := by
  induction hn : str.len - startpos using Nat.strong_induction_on generalizing startpos with
  | _ n ih =>
  rw [stringSearchFrom] at h
  split at h
  case isTrue hlt =>
    split at h
    case isTrue hmatch =>
      obtain rfl := Option.some.inj h
      rw [stringMatchFrom] at hmatch
      split at hmatch
      case isTrue hpos => exact ⟨le_rfl, hlt, by omega⟩
      case isFalse => cases hmatch
    case isFalse =>
      obtain ⟨hle, hrest⟩ := ih (str.len - (startpos + 1)) (by omega) h rfl
      exact ⟨(Nat.le_succ _).trans hle, hrest⟩
  case isFalse => cases h

/-- The first loop of `StringSplit`, which counts the tokens. -/
def stringCountToks (str : String) (sep : CStr) (sepLen : ℤ) (ntoks itokstart : ℕ) : ℕ :=
  match _h : stringSearchFrom str sep sepLen itokstart with
  | none => ntoks
  | some isep => stringCountToks str sep sepLen (ntoks + 1) (isep + sepLen.toNat)
termination_by str.len - itokstart
decreasing_by
  have hfound := stringSearchFrom_some _h
  omega

/-- The second loop of `StringSplit`, which appends the tokens. -/
def splitLoop (str : String) (sep : CStr) (sepLen : ℤ) (toks : Array String) (itokstart : ℕ) :
    Exec (Array String) :=
  match _h : stringSearchFrom str sep sepLen itokstart with
  | none => do
    let toklen := str.len - itokstart
    let tok ← stringNewFromBytesOf (((str.bs.getD []).drop itokstart).take toklen)
    arrayAppendOf 24 toks tok
  | some isep => do
    let toklen := isep - itokstart
    let tok ← stringNewFromBytesOf (((str.bs.getD []).drop itokstart).take toklen)
    let toks ← arrayAppendOf 24 toks tok
    splitLoop str sep sepLen toks (isep + sepLen.toNat)
termination_by str.len - itokstart
decreasing_by
  have hfound := stringSearchFrom_some _h
  omega

/-- `StringSplit`: the capacity of the array is the number of tokens as a `u16`; a `String` takes 24
bytes. -/
def stringSplit (str : String) (sep : CStr) : Exec (Array String) := do
  let ntoks := stringCountToks str sep (wrapInt (strlen sep)) 1 0
  let toks ← arrayNewOf 24 (UInt16.ofNat ntoks)
  splitLoop str sep (wrapInt (strlen sep)) toks 0

/-! ## The search -/

/-- The first characters of a string, as many as an `int` length counts. -/
def CStr.measured (s : CStr) : List UInt8 := s.bytes.take (wrapInt (strlen s)).toNat

theorem CStr.length_measured (s : CStr) : s.measured.length = (wrapInt (strlen s)).toNat := by
  rw [CStr.measured, List.length_take]
  exact Nat.min_eq_left (wrapInt_toNat_le (strlen s))

/-- A string whose length fits an `int` is measured as a whole. -/
theorem CStr.measured_eq_iff (s : CStr) : s.measured = s.bytes ↔ strlen s < 2 ^ 31 := by
  constructor
  · intro h
    have hlen := s.length_measured
    have hlt := wrapInt_lt (strlen s)
    rw [h] at hlen
    change strlen s = _ at hlen
    omega
  · intro h
    rw [CStr.measured, wrapInt_of_lt h, Int.toNat_natCast]
    exact List.take_length

section Search

variable {str : String} {sep : CStr} {i : ℕ}

/-- An entry of the content is one of the block. -/
theorem getD_bytes (hi : i < str.bytes.length) : (str.bs.getD []).getD i 0 = str.bytes[i] := by
  have hlen := hi
  rw [String.bytes, List.length_take] at hlen
  rw [List.getD_eq_getElem _ _ (by omega)]
  exact List.getElem_take.symm

/-- The inner loop compares the rest of what is searched for with the string. -/
theorem stringMatchFrom_iff (hstr : str.bytes.length = str.len) {isearch istr : ℕ}
    (hlt : isearch < sep.measured.length) :
    stringMatchFrom str sep (wrapInt (strlen sep)) isearch istr = true ↔
      sep.measured.drop isearch <+: str.bytes.drop istr := by
  have hlen := sep.length_measured
  induction hn : sep.measured.length - isearch generalizing isearch istr with
  | zero => omega
  | succ n ih =>
    rw [stringMatchFrom]
    by_cases histr : istr < str.len
    case neg =>
      have hend : str.bytes.drop istr = [] := List.drop_eq_nil_of_le (by omega)
      rw [if_neg (fun h => histr h.2), hend, List.prefix_nil, List.drop_eq_nil_iff]
      exact iff_of_false Bool.false_ne_true (not_le.mpr hlt)
    case pos =>
      have hchar : sep.bytes.getD isearch 0 = sep.measured[isearch] := by
        have hle := wrapInt_toNat_le (strlen sep)
        change _ ≤ sep.bytes.length at hle
        rw [List.getD_eq_getElem _ _ (by omega)]
        exact List.getElem_take.symm
      rw [if_pos ⟨by omega, histr⟩, getD_bytes (by omega), hchar, List.drop_eq_getElem_cons hlt,
        List.drop_eq_getElem_cons (l := str.bytes) (by omega), List.cons_prefix_cons]
      by_cases heq : str.bytes[istr] = sep.measured[isearch]
      · rw [if_neg (not_not.mpr heq)]
        split
        case isTrue hlast =>
          have hend : sep.measured.drop (isearch + 1) = [] := List.drop_eq_nil_of_le (by omega)
          rw [hend]
          exact iff_of_true rfl ⟨heq.symm, List.nil_prefix⟩
        case isFalse hmore =>
          have hrest :
              stringMatchFrom str sep (wrapInt (strlen sep)) (isearch + 1) (istr + 1) = true ↔
                sep.measured.drop (isearch + 1) <+: str.bytes.drop (istr + 1) :=
            ih (by omega) (by omega)
          rw [hrest]
          exact ⟨fun h => ⟨heq.symm, h⟩, fun h => h.2⟩
      · rw [if_pos heq]
        exact iff_of_false Bool.false_ne_true (fun h => heq h.1.symm)

/-- `StringSearch` finds the leftmost occurrence in the rest of the string. -/
theorem stringSearch_eq (hstr : str.bytes.length = str.len) (hsep : sep.measured ≠ []) (i : ℕ) :
    stringSearch str i sep =
      ((str.bytes.drop i).dropInfix? sep.measured).map fun p => i + p.1.length := by
  have hpos : 0 < sep.measured.length := List.length_pos_iff.mpr hsep
  unfold stringSearch
  induction hn : str.len - i generalizing i with
  | zero =>
    have hnone : (str.bytes.drop i).dropInfix? sep.measured = none := by
      rw [List.drop_eq_nil_of_le (by omega), dropInfix?_none, List.infix_nil]
      exact hsep
    rw [stringSearchFrom, if_neg (by omega), hnone]
    rfl
  | succ n ih =>
    have hmatch : stringMatchFrom str sep (wrapInt (strlen sep)) 0 i = true ↔
        sep.measured.drop 0 <+: str.bytes.drop i := stringMatchFrom_iff hstr hpos
    rw [List.drop_zero] at hmatch
    rw [stringSearchFrom, if_pos (by omega)]
    split
    case isTrue hfound =>
      obtain ⟨b, hb⟩ := hmatch.mp hfound
      rw [dropInfix?_eq_nil hb]
      rfl
    case isFalse hnot =>
      have hprefix := fun h => hnot (hmatch.mpr h)
      rw [List.drop_eq_getElem_cons (by omega)] at hprefix ⊢
      rw [ih (i + 1) (by omega), dropInfix?_cons hprefix, Option.map_map]
      congr 1
      funext p
      simp only [Function.comp_apply, List.length_cons]
      omega

/-- With a length that counts nothing the search finds nothing. -/
theorem stringSearch_none (hsep : sep.measured = []) (i : ℕ) : stringSearch str i sep = none := by
  cases h : stringSearch str i sep with
  | none => rfl
  | some j =>
    have hpos := (stringSearchFrom_some h).2.2
    rw [← CStr.length_measured, hsep] at hpos
    exact absurd hpos (lt_irrefl 0)

/-- What the search says about the tokens of the rest of the string. -/
theorem stringSearch_cases (hstr : str.bytes.length = str.len) (sep : CStr) (i : ℕ) :
    (stringSearch str i sep = none ∧
        tokens sep.measured (str.bytes.drop i) = [str.bytes.drop i]) ∨
      ∃ a b, stringSearch str i sep = some (i + a.length) ∧
        str.bytes.drop i = a ++ sep.measured ++ b ∧
        tokens sep.measured (str.bytes.drop i) = a :: tokens sep.measured b := by
  by_cases hsep : sep.measured = []
  · exact Or.inl ⟨stringSearch_none hsep i, tokens_eq_self (Or.inl hsep)⟩
  · rw [stringSearch_eq hstr hsep]
    cases h : (str.bytes.drop i).dropInfix? sep.measured with
    | none => exact Or.inl ⟨rfl, tokens_eq_self (Or.inr (dropInfix?_none.mp h))⟩
    | some p =>
      exact Or.inr ⟨p.1, p.2, rfl, (dropInfix?_some (a := p.1) (b := p.2) h).1,
        tokens_of_dropInfix? hsep h⟩

/-! ## The loops -/

/-- Behind the token before an occurrence and the occurrence is the rest. -/
theorem drop_occurrence {a b : List UInt8} (h : str.bytes.drop i = a ++ sep.measured ++ b) :
    str.bytes.drop (i + a.length + (wrapInt (strlen sep)).toNat) = b := by
  rw [Nat.add_assoc, ← CStr.length_measured, ← List.drop_drop, h, ← List.length_append,
    List.drop_left]

/-- The first loop counts the tokens. -/
theorem stringCountToks_eq (hstr : str.bytes.length = str.len) (sep : CStr) (ntoks i : ℕ) :
    stringCountToks str sep (wrapInt (strlen sep)) ntoks i + 1 =
      ntoks + (tokens sep.measured (str.bytes.drop i)).length := by
  induction hn : str.len - i using Nat.strong_induction_on generalizing ntoks i with
  | _ n ih =>
  rw [stringCountToks]
  rcases stringSearch_cases hstr sep i with ⟨hnone, htoks⟩ | ⟨a, b, hsome, hdrop, htoks⟩
  · split
    · rw [htoks]
      rfl
    · rename_i heq
      cases hnone.symm.trans heq
  · split
    · rename_i heq
      cases hsome.symm.trans heq
    · rename_i isep heq
      obtain rfl := Option.some.inj (hsome.symm.trans heq)
      have hfound := stringSearchFrom_some hsome
      rw [ih _ (by omega) _ _ rfl, drop_occurrence hdrop, htoks, List.length_cons]
      omega

/-- What the loops cut out of the block is a part of the content. -/
theorem take_drop_block (i n : ℕ) (hn : n ≤ str.len - i) :
    ((str.bs.getD []).drop i).take n = (str.bytes.drop i).take n := by
  rw [String.bytes, List.drop_take, List.take_take, Nat.min_eq_left hn]

/-- The second loop appends the tokens. -/
theorem splitLoop_eq (hstr : str.bytes.length = str.len) (hlen : str.len < 2 ^ 16) (sep : CStr)
    (toks : Array String) (i : ℕ) :
    splitLoop str sep (wrapInt (strlen sep)) toks i =
      run (arrayCall 24) toks
        (((tokens sep.measured (str.bytes.drop i)).map stringNewFromBytes).map .append) := by
  have hnew : ∀ bs : List UInt8, bs.length ≤ str.bytes.length →
      stringNewFromBytesOf bs = .ok (stringNewFromBytes bs) := by
    intro bs hbs
    rw [stringNewFromBytesOf, if_pos (by omega)]
  induction hn : str.len - i using Nat.strong_induction_on generalizing toks i with
  | _ n ih =>
  rw [splitLoop]
  rcases stringSearch_cases hstr sep i with ⟨hnone, htoks⟩ | ⟨a, b, hsome, hdrop, htoks⟩
  · split
    · have htake : (str.bytes.drop i).take (str.len - i) = str.bytes.drop i :=
        List.take_of_length_le (by rw [List.length_drop, hstr])
      dsimp only
      rw [take_drop_block i _ le_rfl, htake, hnew _ (by rw [List.length_drop]; omega), ok_bind,
        htoks]
      change _ = arrayAppendOf 24 toks _ >>= fun s' => .ok s'
      cases arrayAppendOf 24 toks (stringNewFromBytes (str.bytes.drop i)) <;> rfl
    · rename_i heq
      cases hnone.symm.trans heq
  · split
    · rename_i heq
      cases hsome.symm.trans heq
    · rename_i isep heq
      obtain rfl := Option.some.inj (hsome.symm.trans heq)
      have hfound := stringSearchFrom_some hsome
      have ha : (str.bytes.drop i).take a.length = a := by
        rw [hdrop, List.append_assoc, List.take_left]
      have hle : a.length ≤ str.len - i := by
        rw [← hstr, ← List.length_drop, hdrop, List.length_append, List.length_append]
        omega
      dsimp only
      rw [Nat.add_sub_cancel_left, take_drop_block i _ hle, ha, hnew a (by omega), ok_bind, htoks,
        List.map_cons, List.map_cons, run_cons]
      change arrayAppendOf 24 toks (stringNewFromBytes a) >>= _ = arrayAppendOf 24 toks _ >>= _
      congr 1
      funext toks'
      rw [ih _ (by omega) toks' _ rfl, drop_occurrence hdrop]

/-- `StringSplit` makes an array for the number of tokens and appends them. -/
theorem stringSplit_eq (hstr : str.bytes.length = str.len) (hlen : str.len < 2 ^ 16) (sep : CStr) :
    stringSplit str sep =
      runArray 24 (UInt16.ofNat (tokens sep.measured str.bytes).length)
        (((tokens sep.measured str.bytes).map stringNewFromBytes).map .append) := by
  have hcount := stringCountToks_eq hstr sep 1 0
  rw [List.drop_zero, Nat.add_comm 1, Nat.add_right_cancel_iff] at hcount
  rw [stringSplit, hcount, runArray]
  congr 1
  funext toks
  rw [splitLoop_eq hstr hlen, List.drop_zero]

end Search

/-! ## The theorem -/

/-- What splitting is for: the tokens joined with the separator are the content, none contains the
separator, and there is one more than there are occurrences of the separator. -/
structure IsSplit (s sep : List UInt8) (toks : List (List UInt8)) : Prop where
  /-- Joining gives the content back. -/
  join : sep.intercalate toks = s
  /-- No token contains the separator. -/
  free : ∀ tok ∈ toks, ¬ sep <:+: tok
  /-- There is one token more than there are occurrences. -/
  count : toks.length = occurrences sep s + 1

/-- The tokens are a split. -/
theorem tokens_isSplit {s sep : List UInt8} (hsep : sep ≠ []) : IsSplit s sep (tokens sep s) :=
  ⟨intercalate_tokens sep s, fun _ => not_infix_of_mem_tokens hsep, length_tokens hsep s⟩

/-- Items that a new array has the capacity for are appended without growing it. -/
theorem runArray_append_ok {l : List String} (hpos : 0 < l.length) (hlen : l.length < 2 ^ 16) :
    ∃ a, runArray 24 (UInt16.ofNat l.length) (l.map .append) = .ok a ∧ a.toList = l := by
  have hcap : initialCap (UInt16.ofNat l.length) = l.length := by
    have hnat : (UInt16.ofNat l.length).toNat = l.length := UInt16.toNat_ofNat_of_lt' hlen
    rw [initialCap, if_neg, hnat]
    intro hzero
    rw [hzero] at hnat
    exact hpos.ne hnat
  obtain ⟨a, ha, hnew⟩ : ∃ a : Array String, arrayNewOf 24 (UInt16.ofNat l.length) = .ok a ∧
      Stands 24 l.length [] a := by
    have hblock : 24 * initialCap (.ofNat l.length) < 2 ^ 31 := by omega
    have hnew := arrayNewOf_stands (α := String) hblock
    rwa [hcap] at hnew
  obtain ⟨a', ha', hfull⟩ := (hnew.run_iff (l.map .append)).mpr (by
    intro fs hfs
    obtain ⟨l', hl', rfl⟩ := List.prefix_map_iff.mp hfs
    change Room _ _ (listAfter _).length
    rw [listAfter_map_append]
    refine ⟨0, ?_, ?_⟩
    · rw [pow_zero, Nat.mul_one]
      exact hl'.length_le
    · rw [pow_zero, Nat.mul_one]
      exact ⟨hlen, by omega⟩)
  refine ⟨a', by rw [runArray, ha, ok_bind, ha'], ?_⟩
  rw [hfull.toList]
  exact listAfter_map_append l

/-- More items than a capacity can count do not fit any array. -/
theorem runArray_append_stops {l : List String} (hlen : 2 ^ 16 ≤ l.length) (cap : UInt16)
    (a : Array String) : runArray 24 cap (l.map .append) ≠ .ok a := by
  intro hrun
  have hsize := (runArray_stands hrun).len
  rw [listAfter_map_append] at hsize
  have hle := a.len_le_cap
  have hlt := a.cap_lt
  omega

/-- The tokens are too many for a `u16` only if every byte of the longest string is the
separator. -/
theorem tokens_lt_iff {s sep : List UInt8} (hlen : s.length < 2 ^ 16) :
    (tokens sep s).length < 2 ^ 16 ↔ ¬ ∃ x, sep = [x] ∧ s = List.replicate 65535 x := by
  by_cases hsep : sep = []
  · rw [tokens_eq_self (Or.inl hsep)]
    refine iff_of_true (Nat.one_lt_two_pow (by decide)) ?_
    rintro ⟨x, hx, -⟩
    rw [hsep] at hx
    cases hx
  · rw [length_tokens hsep]
    constructor
    · rintro hlt ⟨x, rfl, rfl⟩
      rw [occurrences_replicate] at hlt
      omega
    · intro hnot
      have hle := occurrences_le_length hsep s
      by_contra hge
      have hs : s ≠ [] := by
        intro hnil
        rw [hnil, List.length_nil] at hle
        rw [hnil] at hge
        omega
      obtain ⟨x, hx, heq⟩ := occurrences_eq_length hsep hs (by omega)
      have hsize : s.length = 65535 := by omega
      exact hnot ⟨x, hx, hsize ▸ heq⟩

/-- The tokens of what is measured of the separator are a split when all of it is measured, or when
what is measured does not occur. -/
theorem measured_isSplit_iff {s : List UInt8} {sep : CStr} (hsep : sep.bytes ≠ [])
    (hlen : s.length < 2 ^ 16) :
    IsSplit s sep.bytes (tokens sep.measured s) ↔
      strlen sep < 2 ^ 31 ∨ sep.measured = [] ∨ ¬ sep.measured <:+: s := by
  by_cases hint : strlen sep < 2 ^ 31
  · rw [sep.measured_eq_iff.mpr hint]
    exact iff_of_true (tokens_isSplit hsep) (Or.inl hint)
  · -- the separator is longer than the string
    have hnot : ¬ sep.bytes <:+: s := by
      intro h
      have hle := h.length_le
      change strlen sep ≤ _ at hle
      omega
    constructor
    · intro hsplit
      right
      by_contra hfound
      obtain ⟨hne, hin⟩ := not_or.mp hfound
      have hcount := hsplit.count
      have hpos := occurrences_pos hne (not_not.mp hin)
      rw [length_tokens hne, occurrences_eq_zero hnot] at hcount
      omega
    · intro h
      rw [tokens_eq_self (h.resolve_left hint), ← tokens_eq_self (Or.inr hnot)]
      exact tokens_isSplit hsep

/-- `StringSplit` ends and splits the string, for every string and separator but two kinds: 65535
bytes that all are the separator, and separators whose length does not fit an `int` while the
characters that are counted occur. -/
theorem split_join_iff (str : String) (sep : CStr) (hblock : str.len ≤ (str.bs.getD []).length)
    (hlen : str.len < 2 ^ 16) (hsep : sep.bytes ≠ []) :
    (∃ toks, stringSplit str sep = .ok toks ∧
        IsSplit str.bytes sep.bytes (toks.toList.map String.bytes)) ↔
      (strlen sep < 2 ^ 31 ∨ sep.measured = [] ∨ ¬ sep.measured <:+: str.bytes) ∧
        ¬ ∃ x, sep.measured = [x] ∧ str.bytes = List.replicate 65535 x := by
  have hstr : str.bytes.length = str.len := length_bytes hblock
  have hshort : str.bytes.length < 2 ^ 16 := hstr.trans_lt hlen
  have hbytes : ((tokens sep.measured str.bytes).map stringNewFromBytes).map String.bytes =
      tokens sep.measured str.bytes := by
    rw [List.map_map, List.map_congr_left (g := id), List.map_id]
    intro t ht
    exact String.stringNewFromBytes_bytes ((length_le_of_mem_tokens ht).trans_lt hshort)
  rw [stringSplit_eq hstr hlen, ← measured_isSplit_iff hsep hshort, ← tokens_lt_iff hshort]
  constructor
  · rintro ⟨toks, hrun, hsplit⟩
    rw [(runArray_stands hrun).toList, listAfter_map_append, hbytes] at hsplit
    refine ⟨hsplit, ?_⟩
    by_contra hge
    refine runArray_append_stops ?_ _ toks hrun
    rw [List.length_map]
    exact not_lt.mp hge
  · rintro ⟨hsplit, hlt⟩
    have hpos : 0 < (tokens sep.measured str.bytes).length :=
      List.length_pos_iff.mpr (tokens_ne_nil _ _)
    have hrun := runArray_append_ok (l := (tokens sep.measured str.bytes).map stringNewFromBytes)
    rw [List.length_map] at hrun
    obtain ⟨toks, htoks, hlist⟩ := hrun hpos hlt
    refine ⟨toks, htoks, ?_⟩
    rw [hlist, hbytes]
    exact hsplit

/-- A string of three tokens, one of them empty. -/
theorem split_join_three :
    ∃ toks, stringSplit (stringNew (.const ['a', ';', ' ', ';', ' ', 'b'])) (.const [';', ' ']) =
        .ok toks ∧
      IsSplit (stringNew (.const ['a', ';', ' ', ';', ' ', 'b'])).bytes
        (CStr.const [';', ' ']).bytes (toks.toList.map String.bytes) := by
  refine (split_join_iff _ _ (by decide) (by decide) (by decide)).mpr ⟨Or.inl (by decide), ?_⟩
  rintro ⟨x, hx, -⟩
  have htwo : (CStr.const [';', ' ']).bytes = [59, 32] := by decide
  rw [(CStr.measured_eq_iff _).mpr (by decide), htwo] at hx
  cases hx

/-- 65535 semicolons are not split at semicolons: the capacity for 65536 tokens wraps to 0, which
stands for 32, and the array cannot grow to the number of tokens. -/
theorem split_stops_at_65536 :
    let str := stringNewFromBytes (List.replicate 65535 59)
    str.bytes = List.replicate 65535 59 ∧
      ∀ toks, stringSplit str (.const [';']) ≠ .ok toks := by
  intro str
  have hbytes : str.bytes = List.replicate 65535 59 := by
    apply String.stringNewFromBytes_bytes
    rw [List.length_replicate]
    decide
  have hlen : str.len = 65535 := by
    change (List.replicate 65535 (59 : UInt8)).length % 2 ^ 16 = 65535
    rw [List.length_replicate]
    rfl
  have hsep : (CStr.const [';']).measured = [59] :=
    (CStr.measured_eq_iff _).mpr (by decide)
  refine ⟨hbytes, fun toks => ?_⟩
  have hstr : str.bytes.length = str.len := by rw [hbytes, hlen, List.length_replicate]
  rw [stringSplit_eq hstr (by omega)]
  apply runArray_append_stops
  rw [List.length_map, hsep, hbytes, length_tokens (List.cons_ne_nil _ _), occurrences_replicate]
  decide

end TinyMsg
