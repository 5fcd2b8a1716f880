import TinyMsg.Clib.Split
import TinyMsg.Lib.Leftmost

/-!
# What `StringSearch` finds

The loops of `StringSearch` look for the characters that the `int` length counts, from left to
right (`stringSearch_leftmost`), and compare characters of the string only in front of its end
(`stringSearchCompared`).  What is to be found is the whole search string.  The two differ when
`strlen` does not fit the `int`: a string has fewer than `2 ^ 16` characters and does not contain
one of more than `2 ^ 31`, but it may contain the ones that are counted.
-/

namespace TinyMsg

/-! ## The characters that are compared -/

/-- The indexes into the string at which the inner loop of `StringSearch` compares, from `isearch`
and `istr` on. -/
def stringMatchCompared (str : String) (searchstr : CStr) (searchstrLen : ℤ) (isearch istr : ℕ) :
    List ℕ :=
  if isearch < searchstrLen ∧ istr < str.len then
    istr ::
      if (str.bs.getD []).getD istr 0 ≠ searchstr.bytes.getD isearch 0 then []
      else if isearch = searchstrLen - 1 then []
      else stringMatchCompared str searchstr searchstrLen (isearch + 1) (istr + 1)
  else []
termination_by str.len - istr

/-- The indexes at which the outer loop compares, from `i` on. -/
def stringSearchComparedFrom (str : String) (searchstr : CStr) (searchstrLen : ℤ) (i : ℕ) :
    List ℕ :=
  if i < str.len then
    stringMatchCompared str searchstr searchstrLen 0 i ++
      if stringMatchFrom str searchstr searchstrLen 0 i then []
      else stringSearchComparedFrom str searchstr searchstrLen (i + 1)
  else []
termination_by str.len - i

/-- The indexes into the string at which `StringSearch` compares. -/
def stringSearchCompared (str : String) (startpos : ℕ) (searchstr : CStr) : List ℕ :=
  stringSearchComparedFrom str searchstr (wrapInt (strlen searchstr)) startpos

/-- The inner loop stays in front of the end of the string. -/
theorem lt_of_mem_stringMatchCompared {str : String} {searchstr : CStr} {slen : ℤ}
    {isearch istr p : ℕ} (hp : p ∈ stringMatchCompared str searchstr slen isearch istr) :
    p < str.len := by
  induction isearch, istr using stringMatchCompared.induct str slen with
  | case1 isearch istr hlt ih =>
    rw [stringMatchCompared, if_pos hlt, List.mem_cons] at hp
    rcases hp with rfl | hp
    · exact hlt.2
    · split at hp
      · cases hp
      · split at hp
        · cases hp
        · exact ih hp
  | case2 isearch istr hnot =>
    rw [stringMatchCompared, if_neg hnot] at hp
    cases hp

/-- So does the search. -/
theorem lt_of_mem_stringSearchComparedFrom {str : String} {searchstr : CStr} {slen : ℤ} {i p : ℕ}
    (hp : p ∈ stringSearchComparedFrom str searchstr slen i) : p < str.len := by
  induction i using stringSearchComparedFrom.induct str with
  | case1 i hlt ih =>
    rw [stringSearchComparedFrom, if_pos hlt, List.mem_append] at hp
    rcases hp with hp | hp
    · exact lt_of_mem_stringMatchCompared hp
    · split at hp
      · cases hp
      · exact ih hp
  | case2 i hnot =>
    rw [stringSearchComparedFrom, if_neg hnot] at hp
    cases hp

/-! ## The search -/

section Search

variable {str : String} {searchstr : CStr}

/-- The outer loop leaves at the first position where the inner loop matches. -/
theorem stringSearchFrom_leftmost (str : String) (searchstr : CStr) (slen : ℤ) (i : ℕ) :
    LeftmostFrom (fun j => j < str.len ∧ stringMatchFrom str searchstr slen 0 j = true) i
      (stringSearchFrom str searchstr slen i) := by
  induction i using stringSearchFrom.induct str searchstr slen with
  | case1 i hlt hmatch =>
    rw [stringSearchFrom, if_pos hlt, if_pos hmatch]
    exact LeftmostFrom.here ⟨hlt, hmatch⟩
  | case2 i hlt hmatch ih =>
    rw [stringSearchFrom, if_pos hlt, if_neg hmatch]
    apply ih.later
    exact fun h => hmatch h.2
  | case3 i hnot =>
    rw [stringSearchFrom, if_neg hnot]
    apply LeftmostFrom.never
    exact fun j hj h => hnot (hj.trans_lt h.1)

/-- `StringSearch` finds the leftmost occurrence of the characters that are counted. -/
theorem stringSearch_leftmost (hstr : str.bytes.length = str.len)
    (hcount : searchstr.measured ≠ []) (startpos : ℕ) :
    LeftmostFrom (fun i => searchstr.measured <+: str.bytes.drop i) startpos
      (stringSearch str startpos searchstr) := by
  have hmatch : ∀ i, i < str.len ∧
      stringMatchFrom str searchstr (wrapInt (strlen searchstr)) 0 i = true ↔
        searchstr.measured <+: str.bytes.drop i := by
    intro i
    rw [stringMatchFrom_iff hstr (List.length_pos_iff.mpr hcount), List.drop_zero]
    refine and_iff_right_of_imp fun hpre => ?_
    -- nothing occurs behind the end
    by_contra hend
    rw [List.drop_eq_nil_of_le (by omega), List.prefix_nil] at hpre
    exact hcount hpre
  have hloop := stringSearchFrom_leftmost str searchstr (wrapInt (strlen searchstr)) startpos
  simp only [hmatch] at hloop
  exact hloop

/-- A string does not contain one of `2 ^ 31` characters. -/
theorem not_prefix_of_long (hlen : str.bytes.length < 2 ^ 16) (hlong : 2 ^ 31 ≤ strlen searchstr)
    (i : ℕ) : ¬ searchstr.bytes <+: str.bytes.drop i := by
  intro hpre
  have hle := hpre.length_le
  rw [List.length_drop] at hle
  change strlen searchstr ≤ _ at hle
  omega

/-- What `StringSearch` is for: the leftmost occurrence of the search string from `startpos` on,
found without looking behind the end of the string. -/
structure IsStringSearch (str : String) (startpos : ℕ) (searchstr : CStr) : Prop where
  /-- The result is the leftmost occurrence. -/
  leftmost : LeftmostFrom (fun i => searchstr.bytes <+: str.bytes.drop i) startpos
    (stringSearch str startpos searchstr)
  /-- Only indexes below `len` are compared. -/
  inside : ∀ i ∈ stringSearchCompared str startpos searchstr, i < str.len

/-- `StringSearch` is leftmost search, unless the length of the search string does not fit an `int`
while the characters that are counted occur. -/
theorem string_search_iff (str : String) (startpos : ℕ) (searchstr : CStr)
    (hblock : str.len ≤ (str.bs.getD []).length) (hlen : str.len < 2 ^ 16)
    (hsearch : searchstr.bytes ≠ []) :
    IsStringSearch str startpos searchstr ↔
      strlen searchstr < 2 ^ 31 ∨ searchstr.measured = [] ∨
        ¬ searchstr.measured <:+: str.bytes.drop startpos := by
  have hstr : str.bytes.length = str.len := length_bytes hblock
  have hinside : ∀ i ∈ stringSearchCompared str startpos searchstr, i < str.len :=
    fun i hi => lt_of_mem_stringSearchComparedFrom hi
  by_cases hint : strlen searchstr < 2 ^ 31
  · have hall := searchstr.measured_eq_iff.mpr hint
    have hleft := stringSearch_leftmost hstr (hall ▸ hsearch) startpos
    rw [hall] at hleft
    exact iff_of_true ⟨hleft, hinside⟩ (Or.inl hint)
  · have hnever := not_prefix_of_long (hstr.trans_lt hlen) (not_lt.mp hint)
    -- so the search is right when it finds nothing
    have hnone : IsStringSearch str startpos searchstr ↔
        stringSearch str startpos searchstr = none := by
      constructor
      · intro h
        exact h.leftmost.none_iff.mpr fun i _ => hnever i
      · intro h
        refine ⟨?_, hinside⟩
        rw [h]
        exact LeftmostFrom.never fun i _ => hnever i
    rw [hnone, or_iff_right hint]
    by_cases hcount : searchstr.measured = []
    · exact iff_of_true (stringSearch_none hcount startpos) (Or.inl hcount)
    · rw [or_iff_right hcount, (stringSearch_leftmost hstr hcount startpos).none_iff,
        infix_drop_iff]
      exact ⟨fun h ⟨i, hi, hpre⟩ => h i hi hpre, fun h i hi hpre => h ⟨i, hi, hpre⟩⟩

/-- A search string that overlaps itself, in a string where its occurrences do. -/
theorem string_search_overlap :
    IsStringSearch (stringNew (.const ['a', 'b', 'a', 'b', 'a', 'b', 'a'])) 1
      (.const ['a', 'b', 'a']) :=
  (string_search_iff _ 1 _ (by decide) (by decide) (by decide)).mpr (Or.inl (by decide))

/-- Of a search string of `2 ^ 32 + 1` letters the `int` length counts one, which is found in the
one-letter string that does not contain the search string. -/
theorem search_finds_absent :
    stringSearch (stringNew (letters 1)) 0 (letters (2 ^ 32 + 1)) = some 0 ∧
      ¬ IsStringSearch (stringNew (letters 1)) 0 (letters (2 ^ 32 + 1)) := by
  have hcount : (letters (2 ^ 32 + 1)).measured = [ofChar 'a'] := by
    have hone : wrapInt ((2 ^ 32 + 1 : ℕ) : ℤ) = 1 := by decide
    rw [CStr.measured, strlen_letters, hone]
    change (List.replicate (2 ^ 32 + 1) (ofChar 'a')).take 1 = _
    rw [List.take_replicate]
    rfl
  have hfound : stringSearch (stringNew (letters 1)) 0 (letters (2 ^ 32 + 1)) = some 0 := by
    have hstr : (stringNew (letters 1)).bytes.length = (stringNew (letters 1)).len := rfl
    have hleft := stringSearch_leftmost hstr (hcount ▸ List.cons_ne_nil _ _) 0
    rw [hcount] at hleft
    refine (hleft.some_iff 0).mpr ⟨le_rfl, List.prefix_refl _, ?_⟩
    exact fun j _ hj => absurd hj (Nat.not_lt_zero j)
  refine ⟨hfound, fun h => ?_⟩
  have hpre := ((h.leftmost.some_iff 0).mp hfound).2.1
  refine not_prefix_of_long ?_ ?_ 0 hpre
  · decide
  · rw [strlen_letters]
    decide

end Search

end TinyMsg
