import TinyMsg.Clib.Str
import TinyMsg.Clib.Buffer
import TinyMsg.Lib.Keyed
import TinyMsg.Lib.Doubling
import TinyMsg.Lib.Run

/-!
# `Map` of `clib.c`

A `Map` keeps its entries in one block of pointers: the key of an entry, then its value.  `len` and
`cap` count pointers and are 16-bit.  `MapGet`, `MapSet` and `MapRemove` walk the block in steps of
two; `MapRemove` moves the last entry to the place of the removed one and goes on.

A map stands for a finite map (`Map.Stands`) when its block holds a list of entries with distinct
keys.  `map_refines_finmap_iff` says for which sequences of calls that is so: the capacity is
doubled in 16 bits, first by `MapNew` and then whenever the map is full, so there is room for
exactly as many keys as a capacity that has not wrapped yet can hold.
-/

namespace TinyMsg

variable {ν : Type}

/-! ## The functions -/

/-- A pointer of the block: to a key, a value, or cleared. -/
inductive MapItem (ν : Type)
  /-- A cleared slot. -/
  | null
  /-- The copy of a key. -/
  | key (k : CStr)
  /-- The value of the key before it. -/
  | value (v : ν)
  deriving DecidableEq

/-- `Map` of `clib.h`. -/
structure Map (ν : Type) where
  /-- The pointers at `items`. -/
  items : List (MapItem ν)
  /-- The number of pointers in use, two for each entry. -/
  len : ℕ
  /-- The number of pointers. -/
  cap : ℕ
  deriving DecidableEq

/-- `m->items[index]`. -/
def Map.item (m : Map ν) (index : ℕ) : MapItem ν := m.items.getD index .null

/-- `strcmp(item, k) == 0`; only a key is a string. -/
def strcmpItem (item : MapItem ν) (k : CStr) : Exec Bool :=
  match item with
  | .key k' => .ok (decide (k' = k))
  | .null => .error .undefined
  | .value _ => .error .undefined

/-- `MapNew`: the capacity is doubled in 16 bits. -/
def mapNew (cap : UInt16) : Map ν :=
  let cap := if cap = 0 then 32 else cap
  ⟨List.replicate (cap * 2).toNat .null, 0, (cap * 2).toNat⟩

/-- `MapClear` -/
def mapClear (m : Map ν) : Map ν :=
  { m with items := overwrite m.items 0 (List.replicate m.len .null), len := 0 }

/-- The search loop of `MapSet` and `MapGet`, from the entry at `i`. -/
def mapFindFrom (m : Map ν) (k : CStr) (i : ℕ) : Exec (Option ℕ) :=
  if i < m.len then do
    if ← strcmpItem (m.item i) k then .ok (some i) else mapFindFrom m k (i + 2)
  else .ok none
termination_by m.len - i

/-- The map with a free slot: itself, or, when it is full, with a block twice as large.  The block
gets its full size, but `cap` is doubled in 16 bits. -/
def mapGrow (m : Map ν) : Map ν :=
  if m.len = m.cap then
    { m with items := m.items ++ List.replicate m.cap .null, cap := m.cap * 2 % 2 ^ 16 }
  else m

/-- `MapSet`: overwrite the value of the key, or append the key and the value. -/
def mapSet (m : Map ν) (k : CStr) (v : ν) : Exec (Map ν) := do
  if ¬ m.len ≤ m.cap then .error .assertion
  match ← mapFindFrom m k 0 with
  | some i => .ok { m with items := m.items.set (i + 1) (.value v) }
  | none =>
    let m := mapGrow m
    if ¬ m.len < m.cap then .error .assertion
    .ok { m with
      items := (m.items.set m.len (.key k)).set (m.len + 1) (.value v)
      len := (m.len + 2) % 2 ^ 16 }

/-- The value a pointer of the block points to; a cleared slot is `NULL`. -/
def itemValue [Inhabited ν] : MapItem ν → Exec ν
  | .value v => .ok v
  | .null => .ok default
  | .key _ => .error .undefined

/-- `MapGet`: the value of the key, `NULL` when there is none. -/
def mapGet [Inhabited ν] (m : Map ν) (k : CStr) : Exec ν := do
  match ← mapFindFrom m k 0 with
  | some i => itemValue (m.item (i + 1))
  | none => .ok default

/-- The body of the loop in `MapRemove`: the last entry moves to the place of the one at `i`, its
old place is cleared. -/
def mapMoveLast (m : Map ν) (i : ℕ) : Map ν :=
  let items := (m.items.set i (m.item (m.len - 2))).set (i + 1) (m.item (m.len - 1))
  { m with items := overwrite items (m.len - 2) [.null, .null], len := m.len - 2 }

/-- The loop of `MapRemove` from the entry at `i`: it goes on behind a removed entry. -/
def mapRemoveFrom (m : Map ν) (k : CStr) (i : ℕ) : Exec (Map ν) :=
  if i < m.len then do
    let hit ← strcmpItem (m.item i) k
    mapRemoveFrom (if hit then mapMoveLast m i else m) k (i + 2)
  else .ok m
termination_by m.len - i
decreasing_by
  split
  · change m.len - 2 - (i + 2) < m.len - i
    omega
  · omega

/-- `MapRemove` -/
def mapRemove (m : Map ν) (k : CStr) : Exec (Map ν) := mapRemoveFrom m k 0

/-- A call of a map function that writes. -/
inductive MapCall (ν : Type)
  /-- `MapSet` -/
  | set (k : CStr) (v : ν)
  /-- `MapRemove` -/
  | remove (k : CStr)
  /-- `MapClear` -/
  | clear

/-- The map after a call. -/
def mapCall (m : Map ν) : MapCall ν → Exec (Map ν)
  | .set k v => mapSet m k v
  | .remove k => mapRemove m k
  | .clear => .ok (mapClear m)

/-- A new map after a sequence of calls. -/
def runMap (cap : UInt16) (calls : List (MapCall ν)) : Exec (Map ν) :=
  run mapCall (mapNew cap) calls

/-- The keys stored in the block. -/
def Map.keys (m : Map ν) : List CStr :=
  (m.items.take m.len).filterMap fun
    | .key k => some k
    | _ => none

/-! ## The finite map -/

/-- The finite map after a call. -/
def finmapCall (f : Finmap fun _ : CStr => ν) : MapCall ν → Finmap fun _ : CStr => ν
  | .set k v => f.insert k v
  | .remove k => f.erase k
  | .clear => ∅

/-- The finite map after a sequence of calls. -/
def finmapAfter (calls : List (MapCall ν)) : Finmap fun _ : CStr => ν := calls.foldl finmapCall ∅

/-- The number of entries a new map has room for. -/
def initialEntries (cap : UInt16) : ℕ := (if cap = 0 then 32 else cap.toNat) % 2 ^ 15

/-- A number of entries whose pointers a `u16` can count. -/
def MapCap (n : ℕ) : Prop := n < 2 ^ 15

/-! ## The block of a map -/

/-- The pointers of a list of entries. -/
def entryItems (l : List (CStr × ν)) : List (MapItem ν) := l.flatMap fun p => [.key p.1, .value p.2]

section Block

variable {xs ys l : List (CStr × ν)} {p : CStr × ν} {m : Map ν} {rest : List (MapItem ν)}
  {k : CStr} {c : ℕ}

@[simp] theorem entryItems_nil : entryItems ([] : List (CStr × ν)) = [] := rfl

@[simp] theorem entryItems_cons (p : CStr × ν) (l : List (CStr × ν)) :
    entryItems (p :: l) = .key p.1 :: .value p.2 :: entryItems l := rfl

@[simp] theorem entryItems_append (xs ys : List (CStr × ν)) :
    entryItems (xs ++ ys) = entryItems xs ++ entryItems ys := List.flatMap_append

@[simp] theorem length_entryItems (l : List (CStr × ν)) :
    (entryItems l).length = 2 * l.length := by
  induction l with
  | nil => rfl
  | cons p l ih =>
    rw [entryItems_cons, List.length_cons, List.length_cons, List.length_cons, ih]
    omega

/-- The pointers of an entry behind the entries `xs`. -/
theorem getD_entryItems (xs : List (CStr × ν)) (a b : MapItem ν) (rest : List (MapItem ν)) :
    (entryItems xs ++ a :: b :: rest).getD (2 * xs.length) .null = a ∧
      (entryItems xs ++ a :: b :: rest).getD (2 * xs.length + 1) .null = b := by
  rw [← length_entryItems xs]
  constructor
  · rw [List.getD_append_right _ _ _ _ le_rfl, Nat.sub_self]
    rfl
  · rw [List.getD_append_right _ _ _ _ (Nat.le_add_right _ 1), Nat.add_sub_cancel_left]
    rfl

/-- A store to the first pointer of an entry behind the entries `xs`. -/
theorem set_entryItems_key (xs : List (CStr × ν)) (a b a' : MapItem ν) (rest : List (MapItem ν)) :
    (entryItems xs ++ a :: b :: rest).set (2 * xs.length) a' =
      entryItems xs ++ a' :: b :: rest := by
  rw [← length_entryItems xs, List.set_append_right _ _ le_rfl, Nat.sub_self]
  rfl

/-- A store to the second pointer of an entry behind the entries `xs`. -/
theorem set_entryItems_value (xs : List (CStr × ν)) (a b b' : MapItem ν)
    (rest : List (MapItem ν)) :
    (entryItems xs ++ a :: b :: rest).set (2 * xs.length + 1) b' =
      entryItems xs ++ a :: b' :: rest := by
  rw [← length_entryItems xs, List.set_append_right _ _ (Nat.le_add_right _ 1),
    Nat.add_sub_cancel_left]
  rfl

/-- Two pointers written over those of an entry behind the entries `xs`. -/
theorem overwrite_entryItems (xs : List (CStr × ν)) (a b a' b' : MapItem ν)
    (rest : List (MapItem ν)) :
    overwrite (entryItems xs ++ a :: b :: rest) (2 * xs.length) [a', b'] =
      entryItems xs ++ a' :: b' :: rest := by
  have hover : overwrite (entryItems xs ++ [a, b] ++ rest) (entryItems xs).length [a', b'] =
      entryItems xs ++ [a', b'] ++ rest := overwrite_append rfl
  rw [length_entryItems, List.append_assoc, List.append_assoc] at hover
  exact hover

/-- A block that starts with the pointers of a list of entries, and its lengths. -/
structure Map.Holds (c : ℕ) (l : List (CStr × ν)) (m : Map ν) : Prop where
  /-- The entries come first. -/
  items : ∃ rest, m.items = entryItems l ++ rest
  /-- `len` counts their pointers. -/
  len : m.len = 2 * l.length
  /-- They are within the capacity. -/
  len_le_cap : m.len ≤ m.cap
  /-- The block has at least the capacity. -/
  block : m.cap ≤ m.items.length
  /-- The capacity has doubled without a wrap. -/
  cap : ∃ k, m.cap = 2 * (c * 2 ^ k) ∧ MapCap (c * 2 ^ k)
  /-- The keys are distinct. -/
  nodup : (l.map Prod.fst).Nodup

/-- The pointers of the entry behind the entries `xs`. -/
theorem Map.Holds.item (h : m.Holds c (xs ++ p :: ys)) :
    m.item (2 * xs.length) = .key p.1 ∧ m.item (2 * xs.length + 1) = .value p.2 := by
  obtain ⟨rest, hitems⟩ := h.items
  unfold Map.item
  rw [hitems, entryItems_append, entryItems_cons, List.append_assoc]
  exact getD_entryItems xs _ _ _

/-- The keys stored in the block are those of the entries. -/
theorem Map.Holds.keys (h : m.Holds c l) : m.keys = l.map Prod.fst := by
  obtain ⟨rest, hitems⟩ := h.items
  unfold Map.keys
  rw [hitems, h.len, ← length_entryItems, List.take_left]
  clear h hitems
  induction l with
  | nil => rfl
  | cons p l ih =>
    rw [entryItems_cons, List.filterMap_cons, List.filterMap_cons, List.map_cons, ih]

/-! ## The loops -/

/-- The search loop stops at the first entry with the key among those ahead. -/
theorem mapFindFrom_cases (h : m.Holds c (xs ++ ys)) (k : CStr) :
    (∃ as p bs, ys = as ++ p :: bs ∧ p.1 = k ∧
        mapFindFrom m k (2 * xs.length) = .ok (some (2 * (xs ++ as).length))) ∨
      (∀ p ∈ ys, p.1 ≠ k) ∧ mapFindFrom m k (2 * xs.length) = .ok none := by
  induction ys generalizing xs with
  | nil =>
    right
    have hend : ¬ 2 * xs.length < m.len := by
      rw [h.len, List.append_nil]
      exact lt_irrefl _
    rw [mapFindFrom, if_neg hend]
    exact ⟨fun p hp => absurd hp List.not_mem_nil, rfl⟩
  | cons p ys ih =>
    have hmore : 2 * xs.length < m.len := by
      rw [h.len, List.length_append, List.length_cons]
      omega
    rw [mapFindFrom, if_pos hmore, h.item.1, strcmpItem, ok_bind]
    by_cases hp : p.1 = k
    · left
      refine ⟨[], p, ys, rfl, hp, ?_⟩
      rw [List.append_nil, if_pos (decide_eq_true hp)]
    · rw [if_neg (by simpa using hp)]
      have hnext : xs ++ p :: ys = (xs ++ [p]) ++ ys := by rw [List.append_assoc]; rfl
      have hlen : 2 * xs.length + 2 = 2 * (xs ++ [p]).length := by
        rw [List.length_append, List.length_singleton]
        omega
      rw [hnext] at h
      rw [hlen]
      rcases ih h with ⟨as, q, bs, rfl, hq, hfind⟩ | ⟨hnone, hfind⟩
      · left
        refine ⟨p :: as, q, bs, rfl, hq, ?_⟩
        rw [hfind, List.append_assoc]
        rfl
      · right
        exact ⟨List.forall_mem_cons.mpr ⟨hp, hnone⟩, hfind⟩

/-- What `mapMoveLast` does: the last entry is written to the place at `i`, then its old place is
cleared. -/
theorem Map.Holds.moveLast_items {q : CStr × ν} (h : m.Holds c (xs ++ [q])) (i : ℕ) :
    (mapMoveLast m i).len = 2 * xs.length ∧
      (mapMoveLast m i).items =
        overwrite ((m.items.set i (.key q.1)).set (i + 1) (.value q.2)) (2 * xs.length)
          [.null, .null] := by
  have hlen := h.len
  rw [List.length_append, List.length_singleton] at hlen
  have hkey : m.len - 2 = 2 * xs.length := by omega
  have hvalue : m.len - 1 = 2 * xs.length + 1 := by omega
  refine ⟨hkey, ?_⟩
  unfold mapMoveLast
  rw [hkey, hvalue, h.item.1, h.item.2]

/-- The map after `mapMoveLast` holds one entry less. -/
theorem Map.Holds.of_moveLast {q : CStr × ν} (h : m.Holds c (xs ++ [q])) {i : ℕ}
    (hnodup : (l.map Prod.fst).Nodup) (hlen : l.length = xs.length)
    (hitems : ∃ rest, (mapMoveLast m i).items = entryItems l ++ rest) :
    (mapMoveLast m i).Holds c l := by
  obtain ⟨hmoved, heq⟩ := h.moveLast_items i
  have hold := h.len
  rw [List.length_append, List.length_singleton] at hold
  have hle := h.len_le_cap
  have hblock := h.block
  refine ⟨hitems, by rw [hmoved, hlen], ?_, ?_, h.cap, hnodup⟩
  · change (mapMoveLast m i).len ≤ m.cap
    omega
  · change m.cap ≤ _
    rw [heq, length_overwrite, List.length_set, List.length_set]
    · exact hblock
    · simp only [List.length_set, List.length_cons, List.length_nil]
      omega

/-- The loop body at the last entry drops it. -/
theorem Map.Holds.dropLast {q : CStr × ν} (h : m.Holds c (xs ++ [q])) :
    (mapMoveLast m (2 * xs.length)).Holds c xs := by
  have hnodup : (xs.map Prod.fst).Nodup :=
    h.nodup.sublist ((List.sublist_append_left xs [q]).map Prod.fst)
  apply h.of_moveLast hnodup rfl
  obtain ⟨rest, hitems⟩ := h.items
  rw [entryItems_append, entryItems_cons, entryItems_nil, List.append_assoc] at hitems
  refine ⟨.null :: .null :: rest, ?_⟩
  rw [(h.moveLast_items _).2, hitems]
  simp only [List.cons_append, List.nil_append]
  rw [set_entryItems_key, set_entryItems_value, overwrite_entryItems]

/-- An entry in front and the last one in its place are the entries as they were. -/
theorem moveLast_perm {α : Type*} (xs ys : List α) (p q : α) :
    (xs ++ p :: ys ++ [q]).Perm (p :: (xs ++ q :: ys)) := by
  rw [List.append_assoc, List.cons_append]
  apply List.perm_middle.trans
  exact List.Perm.cons p ((List.perm_append_singleton q ys).append_left xs)

/-- The loop body at another entry puts the last one in its place. -/
theorem Map.Holds.moveLast {q : CStr × ν} (h : m.Holds c (xs ++ p :: ys ++ [q])) :
    (mapMoveLast m (2 * xs.length)).Holds c (xs ++ q :: ys) := by
  have hlen : (xs ++ q :: ys).length = (xs ++ p :: ys).length := by
    rw [List.length_append, List.length_append]
    rfl
  have hnodup := ((moveLast_perm xs ys p q).map Prod.fst).nodup h.nodup
  rw [List.map_cons, List.nodup_cons] at hnodup
  apply h.of_moveLast hnodup.2 hlen
  obtain ⟨rest, hitems⟩ := h.items
  refine ⟨.null :: .null :: rest, ?_⟩
  rw [(h.moveLast_items _).2, hitems, ← hlen]
  simp only [entryItems_append, entryItems_cons, entryItems_nil, List.append_assoc,
    List.cons_append, List.nil_append]
  rw [set_entryItems_key, set_entryItems_value]
  have hover := overwrite_entryItems (xs ++ q :: ys) (.key q.1) (.value q.2) .null .null rest
  simp only [entryItems_append, entryItems_cons, List.append_assoc, List.cons_append] at hover
  exact hover

/-- The loop of `MapRemove` behind entries without the key: the entries with other keys are
left, perhaps in another order. -/
theorem mapRemoveFrom_holds (h : m.Holds c (xs ++ ys)) (k : CStr) (hxs : ∀ p ∈ xs, p.1 ≠ k) :
    ∃ m' l', mapRemoveFrom m k (2 * xs.length) = .ok m' ∧ m'.Holds c l' ∧
      l'.Perm ((xs ++ ys).filter fun p => p.1 ≠ k) := by
  induction hn : ys.length using Nat.strong_induction_on generalizing xs ys m with
  | _ n ih =>
  have hleft : xs.filter (fun p => p.1 ≠ k) = xs :=
    List.filter_eq_self.mpr fun p hp => decide_eq_true (hxs p hp)
  cases ys with
  | nil =>
    have hend : ¬ 2 * xs.length < m.len := by
      rw [h.len, List.append_nil]
      exact lt_irrefl _
    rw [mapRemoveFrom, if_neg hend]
    rw [List.append_nil] at h ⊢
    exact ⟨m, xs, rfl, h, by rw [hleft]⟩
  | cons p ys =>
    have hmore : 2 * xs.length < m.len := by
      rw [h.len, List.length_append, List.length_cons]
      omega
    have hnext : ∀ q : CStr × ν, 2 * xs.length + 2 = 2 * (xs ++ [q]).length := by
      intro q
      rw [List.length_append, List.length_singleton]
      omega
    rw [mapRemoveFrom, if_pos hmore, h.item.1, strcmpItem, ok_bind]
    by_cases hp : p.1 = k
    case neg =>
      -- the loop goes on behind the entry
      rw [if_neg (by simpa using hp), hnext p]
      have hsplit : xs ++ p :: ys = (xs ++ [p]) ++ ys := List.append_cons xs p ys
      have hxp : ∀ r ∈ xs ++ [p], r.1 ≠ k := by
        intro r hr
        rcases List.mem_append.mp hr with hr | hr
        · exact hxs r hr
        · rw [List.mem_singleton.mp hr]
          exact hp
      rw [hsplit] at h ⊢
      exact ih ys.length (by rw [← hn]; exact Nat.lt_succ_self _) h hxp rfl
    case pos =>
      rw [if_pos (decide_eq_true hp)]
      rcases List.eq_nil_or_concat ys with rfl | ⟨zs, q, rfl⟩
      · -- the last entry: nothing is left to move or to visit
        have hlast := h.dropLast
        have hend : ¬ 2 * xs.length + 2 < (mapMoveLast m (2 * xs.length)).len := by
          rw [hlast.len]
          omega
        rw [mapRemoveFrom, if_neg hend]
        refine ⟨_, xs, rfl, hlast, ?_⟩
        rw [List.filter_append, hleft, List.filter_cons_of_neg (by simpa using hp), List.filter_nil,
          List.append_nil]
      · -- the last entry takes the place, and the loop goes on behind it
        rw [List.concat_eq_append] at h hn ⊢
        have hassoc : xs ++ p :: (zs ++ [q]) = xs ++ p :: zs ++ [q] := by simp
        rw [hassoc] at h ⊢
        have hmoved := h.moveLast
        have hperm := moveLast_perm xs zs p q
        have hq : q.1 ≠ k := by
          have hnodup := (hperm.map Prod.fst).nodup h.nodup
          rw [List.map_cons, List.nodup_cons] at hnodup
          rintro hqk
          apply hnodup.1
          rw [hp, ← hqk]
          exact List.mem_map_of_mem (List.mem_append_right _ List.mem_cons_self)
        have hxq : ∀ r ∈ xs ++ [q], r.1 ≠ k := by
          intro r hr
          rcases List.mem_append.mp hr with hr | hr
          · exact hxs r hr
          · rw [List.mem_singleton.mp hr]
            exact hq
        rw [List.append_cons xs q zs] at hmoved hperm
        rw [hnext q]
        obtain ⟨m', l', hrun, hl', hfilter⟩ := ih zs.length
          (by rw [← hn, List.length_cons, List.length_append]; omega) hmoved hxq rfl
        refine ⟨m', l', hrun, hl', hfilter.trans ?_⟩
        have hkept := hperm.filter fun r => decide (r.1 ≠ k)
        rw [List.filter_cons_of_neg (by simpa using hp)] at hkept
        exact hkept.symm

/-! ## Setting -/

/-- A smaller number of entries can be counted as well. -/
theorem MapCap.anti (a b : ℕ) (hab : a ≤ b) (h : MapCap b) : MapCap a := hab.trans_lt h

theorem mapGrow_len (m : Map ν) : (mapGrow m).len = m.len := by
  unfold mapGrow
  split <;> rfl

/-- The map after the capacity was looked after: there is a free slot exactly when there is room
for one more entry. -/
theorem Map.Holds.grow (h : m.Holds c l) :
    (Room MapCap c (l.length + 1) → (mapGrow m).Holds c l ∧ m.len < (mapGrow m).cap) ∧
      (¬ Room MapCap c (l.length + 1) → ¬ m.len < (mapGrow m).cap) := by
  obtain ⟨k, hcap, hok⟩ := h.cap
  obtain ⟨rest, hitems⟩ := h.items
  have hlen := h.len
  have hle := h.len_le_cap
  have hblock := h.block
  rw [Room.succ_iff MapCap.anti hok (by omega)]
  unfold mapGrow
  unfold MapCap at *
  split
  case isTrue hfull =>
    change (_ → _ ∧ m.len < m.cap * 2 % 2 ^ 16) ∧ (_ → ¬ m.len < m.cap * 2 % 2 ^ 16)
    constructor
    · rintro (hlt | ⟨hpos, hdouble⟩)
      · omega
      · have hnext : c * 2 ^ (k + 1) = c * 2 ^ k * 2 := by rw [pow_succ, Nat.mul_assoc]
        have hcpos : 0 < c * 2 ^ k := Nat.mul_pos hpos (by positivity)
        refine ⟨⟨⟨rest ++ List.replicate m.cap MapItem.null, ?_⟩, hlen, ?_, ?_, ⟨k + 1, ?_, ?_⟩,
          h.nodup⟩, ?_⟩
        · change m.items ++ List.replicate m.cap MapItem.null = _
          rw [hitems, List.append_assoc]
        · change m.len ≤ m.cap * 2 % 2 ^ 16
          omega
        · change m.cap * 2 % 2 ^ 16 ≤ (m.items ++ List.replicate m.cap MapItem.null).length
          rw [List.length_append, List.length_replicate]
          omega
        · change m.cap * 2 % 2 ^ 16 = _
          rw [hnext]
          omega
        · rw [hnext]
          exact hdouble
        · omega
    · intro hnot
      obtain ⟨-, hdouble⟩ := not_or.mp hnot
      -- either there is no capacity to double, or it wraps
      rcases Nat.eq_zero_or_pos c with rfl | hpos
      · omega
      · have hlarge : ¬ c * 2 ^ k * 2 < 2 ^ 15 := fun hlt => hdouble ⟨hpos, hlt⟩
        omega
  case isFalse hfree =>
    have hlt : m.len < m.cap := by omega
    exact ⟨fun _ => ⟨h, hlt⟩, fun hnot => absurd (Or.inl (by omega)) hnot⟩

/-- A new value for an entry. -/
theorem Map.Holds.setValue (h : m.Holds c (xs ++ p :: ys)) (v : ν) :
    Map.Holds c (xs ++ (p.1, v) :: ys)
      { m with items := m.items.set (2 * xs.length + 1) (.value v) } := by
  obtain ⟨rest, hitems⟩ := h.items
  have hnodup := h.nodup
  have hblock := h.block
  rw [entryItems_append, entryItems_cons, List.append_assoc] at hitems
  refine ⟨⟨rest, ?_⟩, ?_, h.len_le_cap, ?_, h.cap, ?_⟩
  · change m.items.set _ _ = _
    rw [hitems, List.cons_append, List.cons_append, set_entryItems_value, entryItems_append,
      entryItems_cons, List.append_assoc]
    rfl
  · rw [h.len, List.length_append, List.length_append]
    rfl
  · change m.cap ≤ (m.items.set _ _).length
    rw [List.length_set]
    exact hblock
  · rw [List.map_append, List.map_cons] at hnodup ⊢
    exact hnodup

/-- A new entry behind the others, in a map with a free slot. -/
theorem Map.Holds.push (h : m.Holds c l) (hfree : m.len < m.cap) (hnew : ∀ p ∈ l, p.1 ≠ k)
    (v : ν) :
    Map.Holds c (l ++ [(k, v)])
      { m with
        items := (m.items.set m.len (.key k)).set (m.len + 1) (.value v)
        len := (m.len + 2) % 2 ^ 16 } := by
  obtain ⟨rest, hitems⟩ := h.items
  obtain ⟨j, hcap, hok⟩ := h.cap
  have hlen := h.len
  have hblock := h.block
  unfold MapCap at hok
  have hshort : m.len + 2 ≤ m.cap := by omega
  have hmod : (m.len + 2) % 2 ^ 16 = m.len + 2 := Nat.mod_eq_of_lt (by omega)
  rw [hmod]
  obtain ⟨a, b, rest, rfl⟩ : ∃ a b rest', rest = a :: b :: rest' := by
    rw [hitems, List.length_append, length_entryItems] at hblock
    match rest, hblock with
    | [], hblock => simp at hblock; omega
    | [a], hblock => simp at hblock; omega
    | a :: b :: rest, _ => exact ⟨a, b, rest, rfl⟩
  refine ⟨⟨rest, ?_⟩, ?_, hshort, ?_, ⟨j, hcap, hok⟩, nodup_append_key h.nodup ?_⟩
  · change (m.items.set _ _).set _ _ = _
    rw [hitems, hlen, set_entryItems_key, set_entryItems_value, entryItems_append,
      List.append_assoc]
    rfl
  · rw [List.length_append, List.length_singleton]
    change m.len + 2 = _
    omega
  · change m.cap ≤ ((m.items.set _ _).set _ _).length
    rw [List.length_set, List.length_set]
    exact hblock
  · exact lookup_eq_none_iff.mpr hnew

/-- `MapSet` overwrites the value of a key that is there, and appends an entry with a new key when
there is room for it; else its assertion fails. -/
theorem mapSet_cases (h : m.Holds c l) (k : CStr) (v : ν) :
    (∃ xs p ys m', l = xs ++ p :: ys ∧ p.1 = k ∧ mapSet m k v = .ok m' ∧
        m'.Holds c (xs ++ (p.1, v) :: ys)) ∨
      (∀ p ∈ l, p.1 ≠ k) ∧
        ((∃ m', mapSet m k v = .ok m' ∧ m'.Holds c (l ++ [(k, v)])) ∨
          mapSet m k v = .error .assertion ∧ ¬ Room MapCap c (l.length + 1)) := by
  have hassert : ¬ ¬ m.len ≤ m.cap := not_not.mpr h.len_le_cap
  have hsearch : m.Holds c ([] ++ l) := h
  unfold mapSet
  rw [if_neg hassert]
  rcases mapFindFrom_cases hsearch k with ⟨xs, p, ys, rfl, hp, hfind⟩ | ⟨hnone, hfind⟩
  · left
    rw [List.length_nil, Nat.mul_zero, List.nil_append] at hfind
    exact ⟨xs, p, ys, _, rfl, hp, by rw [hfind]; rfl, h.setValue v⟩
  · right
    rw [List.length_nil, Nat.mul_zero] at hfind
    refine ⟨hnone, ?_⟩
    rw [hfind]
    by_cases hroom : Room MapCap c (l.length + 1)
    · left
      obtain ⟨hgrown, hlt⟩ := h.grow.1 hroom
      have hfree : (mapGrow m).len < (mapGrow m).cap := by rwa [mapGrow_len]
      refine ⟨_, ?_, hgrown.push hfree hnone v⟩
      change (if ¬ (mapGrow m).len < (mapGrow m).cap then _ else _) = _
      rw [if_neg (not_not.mpr hfree)]
    · right
      refine ⟨?_, hroom⟩
      have hfull := h.grow.2 hroom
      rw [← mapGrow_len] at hfull
      change (if ¬ (mapGrow m).len < (mapGrow m).cap then _ else _) = _
      rw [if_pos hfull]
      rfl

/-! ## What a map stands for -/

/-- A map that stands for a finite map, at a capacity that has doubled from `c` entries. -/
def Map.Stands (c : ℕ) (f : Finmap fun _ : CStr => ν) (m : Map ν) : Prop :=
  ∃ l, m.Holds c l ∧ ∀ k, f.lookup k = (lookup Prod.fst l k).map Prod.snd

section Stands

variable {f : Finmap fun _ : CStr => ν} {v : ν}

/-- The keys of the finite map, when it is read off a list of entries. -/
theorem card_keys (hl : (l.map Prod.fst).Nodup)
    (hf : ∀ k, f.lookup k = (lookup Prod.fst l k).map Prod.snd) : f.keys.card = l.length := by
  have hkeys : f.keys = (l.map Prod.fst).toFinset := by
    ext k
    rw [Finmap.mem_keys, List.mem_toFinset, ← Finmap.lookup_isSome, hf, Option.isSome_map]
    constructor
    · intro hsome
      obtain ⟨p, hp⟩ := Option.isSome_iff_exists.mp hsome
      obtain ⟨hmem, rfl⟩ := lookup_some hp
      exact List.mem_map_of_mem hmem
    · intro hmem
      obtain ⟨p, hp, rfl⟩ := List.mem_map.mp hmem
      rw [lookup_of_mem hl hp]
      rfl
  rw [hkeys, List.toFinset_card_of_nodup hl, List.length_map]

/-- What stands for a finite map has room for its keys. -/
theorem Map.Stands.room (h : m.Stands c f) : Room MapCap c f.keys.card := by
  obtain ⟨l, hl, hf⟩ := h
  obtain ⟨k, hcap, hok⟩ := hl.cap
  have hlen := hl.len
  have hle := hl.len_le_cap
  rw [card_keys hl.nodup hf]
  exact ⟨k, by omega, hok⟩

/-- Setting a key that is there. -/
theorem lookup_insert_old (hl : ((xs ++ p :: ys).map Prod.fst).Nodup)
    (hf : ∀ k, f.lookup k = (lookup Prod.fst (xs ++ p :: ys) k).map Prod.snd) (k : CStr) :
    (f.insert p.1 v).lookup k =
      (lookup Prod.fst (xs ++ (p.1, v) :: ys) k).map Prod.snd := by
  by_cases hk : k = p.1
  · subst hk
    have hxs : lookup Prod.fst xs p.1 = none := by
      rw [List.map_append, List.map_cons, List.nodup_append] at hl
      apply lookup_eq_none_iff.mpr
      intro q hq
      exact hl.2.2 _ (List.mem_map_of_mem hq) _ List.mem_cons_self
    rw [Finmap.lookup_insert, lookup_append_cons, hxs, Option.none_or, if_pos rfl]
    rfl
  · rw [Finmap.lookup_insert_of_ne f hk, hf, lookup_append_cons, lookup_append_cons,
      if_neg (Ne.symm hk), if_neg (Ne.symm hk)]

/-- Setting a new key. -/
theorem lookup_insert_new (hl : ∀ p ∈ l, p.1 ≠ k)
    (hf : ∀ k, f.lookup k = (lookup Prod.fst l k).map Prod.snd) (k' : CStr) :
    (f.insert k v).lookup k' = (lookup Prod.fst (l ++ [(k, v)]) k').map Prod.snd := by
  rw [lookup_append (lookup_eq_none_iff.mpr hl)]
  by_cases hk : k' = k
  · subst hk
    rw [Finmap.lookup_insert, if_pos rfl]
    rfl
  · rw [Finmap.lookup_insert_of_ne f hk, if_neg hk, hf]

/-- Removing a key. -/
theorem lookup_erase_filter {l' : List (CStr × ν)} (hl : (l.map Prod.fst).Nodup)
    (hf : ∀ k, f.lookup k = (lookup Prod.fst l k).map Prod.snd)
    (hperm : l'.Perm (l.filter fun p => p.1 ≠ k)) (k' : CStr) :
    (f.erase k).lookup k' = (lookup Prod.fst l' k').map Prod.snd := by
  have hnodup : ((l.filter fun p => p.1 ≠ k).map Prod.fst).Nodup :=
    hl.sublist (List.filter_sublist.map Prod.fst)
  rw [lookup_perm hnodup hperm]
  by_cases hk : k' = k
  · subst hk
    have hnone : lookup Prod.fst (l.filter fun p => p.1 ≠ k') k' = none := by
      apply lookup_eq_none_iff.mpr
      intro p hp
      exact of_decide_eq_true (List.mem_filter.mp hp).2
    rw [Finmap.lookup_erase, hnone]
    rfl
  · rw [Finmap.lookup_erase_ne hk, hf, lookup_filter hl]
    cases hp : lookup Prod.fst l k' with
    | none => rfl
    | some p =>
      have hne : p.1 ≠ k := by
        rw [(lookup_some hp).2]
        exact hk
      rw [Option.filter_some, if_pos (decide_eq_true hne)]

/-- After a call the map stands for the finite map after the call. -/
theorem Map.Stands.call (h : m.Stands c f) {call : MapCall ν} {m' : Map ν}
    (hrun : mapCall m call = .ok m') :
    m'.Stands c (finmapCall f call) := by
  obtain ⟨l, hl, hf⟩ := h
  cases call with
  | set k v =>
    rcases mapSet_cases hl k v with ⟨xs, p, ys, b, rfl, rfl, hb, hold⟩ |
      ⟨hnew, ⟨b, hb, hpush⟩ | ⟨hstop, -⟩⟩
    · obtain rfl := Except.ok.inj (hb.symm.trans hrun)
      exact ⟨_, hold, lookup_insert_old hl.nodup hf⟩
    · obtain rfl := Except.ok.inj (hb.symm.trans hrun)
      exact ⟨_, hpush, lookup_insert_new hnew hf⟩
    · cases hstop.symm.trans hrun
  | remove k =>
    have hsearch : m.Holds c ([] ++ l) := hl
    obtain ⟨b, l', hb, hl', hperm⟩ := mapRemoveFrom_holds hsearch k (by simp)
    obtain rfl := Except.ok.inj (hb.symm.trans hrun)
    exact ⟨l', hl', lookup_erase_filter hl.nodup hf hperm⟩
  | clear =>
    obtain rfl := Except.ok.inj hrun
    refine ⟨[], ⟨⟨_, rfl⟩, rfl, Nat.zero_le _, ?_, hl.cap, List.nodup_nil⟩, fun k => ?_⟩
    · have hle := hl.len_le_cap
      have hblock := hl.block
      change m.cap ≤ (overwrite _ _ _).length
      rw [length_overwrite]
      · exact hblock
      · rw [List.length_replicate]
        omega
    · exact Finmap.lookup_empty k

/-- A call whose finite map has room does not stop. -/
theorem Map.Stands.runs (h : m.Stands c f) {call : MapCall ν}
    (hroom : Room MapCap c (finmapCall f call).keys.card) :
    ∃ m', mapCall m call = .ok m' := by
  obtain ⟨l, hl, hf⟩ := h
  cases call with
  | set k v =>
    rcases mapSet_cases hl k v with ⟨-, -, -, b, -, -, hb, -⟩ |
      ⟨hnew, ⟨b, hb, -⟩ | ⟨-, hnot⟩⟩
    · exact ⟨b, hb⟩
    · exact ⟨b, hb⟩
    · have hnodup := nodup_append_key hl.nodup (x := (k, v)) (lookup_eq_none_iff.mpr hnew)
      rw [finmapCall, card_keys hnodup (lookup_insert_new hnew hf), List.length_append] at hroom
      exact absurd hroom hnot
  | remove k =>
    have hsearch : m.Holds c ([] ++ l) := hl
    obtain ⟨b, -, hb, -⟩ := mapRemoveFrom_holds hsearch k (by simp)
    exact ⟨b, hb⟩
  | clear => exact ⟨_, rfl⟩

/-- A call whose finite map has no room stops. -/
theorem Map.Stands.stops (h : m.Stands c f) {call : MapCall ν}
    (hroom : ¬ Room MapCap c (finmapCall f call).keys.card) :
    ∃ stop, mapCall m call = .error stop := by
  cases hrun : mapCall m call with
  | ok m' => exact absurd (h.call hrun).room hroom
  | error stop => exact ⟨stop, rfl⟩

/-- `MapGet` on a map that stands for a finite map. -/
theorem Map.Stands.get [Inhabited ν] (h : m.Stands c f) (k : CStr) :
    mapGet m k = .ok ((f.lookup k).getD default) := by
  obtain ⟨l, hl, hf⟩ := h
  unfold mapGet
  have hsearch : m.Holds c ([] ++ l) := hl
  rcases mapFindFrom_cases hsearch k with ⟨xs, p, ys, rfl, rfl, hfind⟩ | ⟨hnone, hfind⟩
  · rw [List.length_nil, Nat.mul_zero, List.nil_append] at hfind
    have hfound : lookup Prod.fst (xs ++ p :: ys) p.1 = some p :=
      lookup_of_mem hl.nodup (List.mem_append_right xs List.mem_cons_self)
    rw [hfind, hf, hfound]
    change itemValue (m.item (2 * xs.length + 1)) = _
    rw [hl.item.2]
    rfl
  · rw [List.length_nil, Nat.mul_zero] at hfind
    rw [hfind, hf, lookup_eq_none_iff.mpr hnone]
    rfl

/-- After a sequence of calls the map stands for the finite map after them. -/
theorem Map.Stands.run (h : m.Stands c f) {calls : List (MapCall ν)} {m' : Map ν}
    (hrun : run mapCall m calls = .ok m') : m'.Stands c (calls.foldl finmapCall f) := by
  apply run_history (I := fun es m => m.Stands c (es.foldl finmapCall f)) h _ hrun
  intro es b call b' hb hstep
  rw [List.foldl_concat]
  exact hb.call hstep

/-- The calls get through exactly when there is room for every finite map on the way. -/
theorem Map.Stands.run_iff (h : m.Stands c f) (calls : List (MapCall ν)) :
    (∃ m', TinyMsg.run mapCall m calls = .ok m' ∧ m'.Stands c (calls.foldl finmapCall f)) ↔
      ∀ fs, fs <+: calls → Room MapCap c (fs.foldl finmapCall f).keys.card := by
  apply run_refines_iff
    (P := fun f : Finmap fun _ : CStr => ν => Room MapCap c f.keys.card) _ _ _ h calls
  · intro f m h
    exact h.room
  · intro f m call h hroom
    obtain ⟨m', hm'⟩ := h.runs hroom
    exact ⟨m', hm', h.call hm'⟩
  · intro f m call h hroom
    exact h.stops hroom

end Stands

end Block

/-- The capacity of a new map, in entries. -/
theorem mapNew_cap (cap : UInt16) : (mapNew cap : Map ν).cap = 2 * initialEntries cap := by
  unfold mapNew initialEntries
  change ((if cap = 0 then 32 else cap) * 2).toNat = _
  split
  case isTrue => rfl
  case isFalse =>
    rw [UInt16.toNat_mul]
    change cap.toNat * 2 % 2 ^ 16 = _
    omega

/-- A new map stands for the empty finite map. -/
theorem mapNew_stands (cap : UInt16) : (mapNew cap : Map ν).Stands (initialEntries cap) ∅ := by
  refine ⟨[], ⟨⟨_, rfl⟩, rfl, Nat.zero_le _, ?_, ⟨0, ?_, ?_⟩, List.nodup_nil⟩, fun k => ?_⟩
  · exact (List.length_replicate).ge
  · rw [pow_zero, Nat.mul_one, mapNew_cap]
  · rw [pow_zero, Nat.mul_one]
    exact Nat.mod_lt _ (by decide)
  · exact Finmap.lookup_empty k

/-! ## The theorem -/

/-- A map after a sequence of calls refines the finite map: no assertion fails, the stored keys are
distinct, and `MapGet` returns the value that was last set, `NULL` (the `default`) if there is none.
That holds exactly when some doubling of the initial capacity that has not wrapped has room for the
largest number of keys on the way. -/
theorem map_refines_finmap_iff [Inhabited ν] (cap : UInt16) (calls : List (MapCall ν)) :
    (∃ m, runMap cap calls = .ok m ∧ m.keys.Nodup ∧
        ∀ k, mapGet m k = .ok (((finmapAfter calls).lookup k).getD default)) ↔
      ∀ fs, fs <+: calls → Room MapCap (initialEntries cap) (finmapAfter fs).keys.card := by
  have hrun := (mapNew_stands (ν := ν) cap).run_iff calls
  constructor
  · rintro ⟨m, hm, -⟩
    exact hrun.mp ⟨m, hm, (mapNew_stands cap).run hm⟩
  · intro hroom
    obtain ⟨m, hm, hstands⟩ := hrun.mpr hroom
    refine ⟨m, hm, ?_, hstands.get⟩
    obtain ⟨l, hl, -⟩ := hstands
    rw [hl.keys]
    exact hl.nodup

/-- A key for each number: that many times the byte 1. -/
def numberKey (i : ℕ) : CStr := ⟨List.replicate i 1, fun h => by cases List.eq_of_mem_replicate h⟩

/-- A value is set for each of the first `n` keys. -/
def setNumbers (n : ℕ) : List (MapCall ℕ) := (List.range n).map fun i => .set (numberKey i) i

theorem setNumbers_succ (n : ℕ) : setNumbers (n + 1) = setNumbers n ++ [.set (numberKey n) n] := by
  unfold setNumbers
  rw [List.range_succ, List.map_append, List.map_singleton]

/-- The finite map after the first `n` keys were set has `n` keys. -/
theorem card_setNumbers (n : ℕ) : (finmapAfter (setNumbers n)).keys.card = n := by
  have hinj : Function.Injective numberKey := by
    intro i j hij
    simpa [numberKey] using congrArg (fun k => k.bytes.length) hij
  have hkeys : (finmapAfter (setNumbers n)).keys = (Finset.range n).image numberKey := by
    induction n with
    | zero => rfl
    | succ n ih =>
      ext k
      unfold finmapAfter at ih ⊢
      rw [setNumbers_succ, List.foldl_concat, Finset.range_add_one, Finset.image_insert, ← ih,
        Finset.mem_insert, Finmap.mem_keys, Finmap.mem_keys, finmapCall, Finmap.mem_insert]
  rw [hkeys, Finset.card_image_of_injective _ hinj, Finset.card_range]

/-- An initial segment of these calls sets the values of fewer keys. -/
theorem prefix_setNumbers {n : ℕ} {fs : List (MapCall ℕ)} (h : fs <+: setNumbers n) :
    fs.length ≤ n ∧ fs = setNumbers fs.length := by
  have hlen : (setNumbers n).length = n := by rw [setNumbers, List.length_map, List.length_range]
  have hle : fs.length ≤ n := hlen ▸ h.length_le
  refine ⟨hle, ?_⟩
  calc fs = (setNumbers n).take fs.length := List.prefix_iff_eq_take.mp h
    _ = setNumbers fs.length := by
      unfold setNumbers
      rw [← List.map_take, List.take_range, Nat.min_eq_left hle]

/-- The 16385th key does not fit a map that was made for 32: its capacity of 32768 pointers doubles
to 0, and the assertion behind the growth fails. -/
theorem map_stops_at_16385 :
    (∀ fs, fs <+: setNumbers 16385 → (finmapAfter fs).keys.card ≤ 32767) ∧
      runMap 0 (setNumbers 16385) = .error .assertion := by
  have hcard : ∀ n fs, fs <+: setNumbers n → (finmapAfter fs).keys.card ≤ n := by
    intro n fs hfs
    obtain ⟨hle, heq⟩ := prefix_setNumbers hfs
    rw [heq, card_setNumbers]
    exact hle
  refine ⟨fun fs hfs => (hcard 16385 fs hfs).trans (by decide), ?_⟩
  have hcap : initialEntries 0 = 32 := by decide
  have hnew := mapNew_stands (ν := ℕ) 0
  rw [hcap] at hnew
  -- the capacity goes up to 16384 entries
  have hroom : ∀ fs, fs <+: setNumbers 16384 →
      Room MapCap 32 (fs.foldl finmapCall ∅).keys.card := by
    intro fs hfs
    exact ⟨9, hcard 16384 fs hfs, by unfold MapCap; decide⟩
  obtain ⟨b, hb, hfull⟩ := (hnew.run_iff _).mpr hroom
  have hnone : ¬ Room MapCap 32 16385 := by
    rintro ⟨k, hle, hlt⟩
    unfold MapCap at hlt
    have hk : k < 10 := (Nat.pow_lt_pow_iff_right (by decide)).mp (by omega : 2 ^ k < 2 ^ 10)
    have hpow : 2 ^ k ≤ 2 ^ 9 := Nat.pow_le_pow_right (by decide) (by omega)
    omega
  have hcall : ∀ b', mapCall b (.set (numberKey 16384) 16384) ≠ .ok b' := by
    intro b' hb'
    have hnext := (hfull.call hb').room
    have hsize := card_setNumbers 16385
    unfold finmapAfter at hsize
    rw [setNumbers_succ, List.foldl_concat] at hsize
    exact hnone (hsize ▸ hnext)
  obtain ⟨l, hl, -⟩ := hfull
  have hlast : mapCall b (.set (numberKey 16384) 16384) = .error .assertion := by
    rcases mapSet_cases hl (numberKey 16384) 16384 with ⟨-, -, -, b', -, -, hb', -⟩ |
      ⟨-, ⟨b', hb', -⟩ | ⟨hstop, -⟩⟩
    · exact absurd hb' (hcall b')
    · exact absurd hb' (hcall b')
    · exact hstop
  rw [runMap, setNumbers_succ 16384, run_concat, hb, ok_bind, hlast]

end TinyMsg
