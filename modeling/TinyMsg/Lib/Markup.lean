import Mathlib

/-!
# Markup

Markup is text in which one character starts a tag and another one starts an entity.  A `Markup`
says how a tag and an entity are read: a tag is the source between the character that starts it and
the one that ends it, and what an entity stands for is shorter than the entity.  `Markup.read` is
the reader built from them.

What is read has a size, and it is at most the length of the source (`size_le_length`).  When the
two are equal, no entity was read, so every character of the text stands for itself
(`text_plain_of_size`).  That tells whether a text can have been inserted into markup without
being escaped.
-/

namespace TinyMsg

variable {α : Type*}

/-- What a markup reader finds. -/
inductive MarkupItem (α : Type*)
  /-- A tag, without the characters that start and end it. -/
  | tag (source : List α)
  /-- A character of the text. -/
  | text (c : α)

/-- The length of the shortest source of an item. -/
def MarkupItem.size : MarkupItem α → ℕ
  | .tag source => source.length + 2
  | .text _ => 1

/-- A markup language, with the characters that start and end a tag and that start an entity. -/
structure Markup {α : Type*} (tagStart tagEnd entityStart : α) where
  /-- The tag and the rest, of what follows the start of a tag. -/
  tag : List α → Option (List α × List α)
  /-- What an entity stands for and the rest, of what follows the start of an entity. -/
  entity : List α → Option (List α × List α)
  /-- A tag is the source up to its end. -/
  tag_source : ∀ s t rest, tag s = some (t, rest) → s = t ++ tagEnd :: rest
  /-- What an entity stands for is shorter than the entity with its start. -/
  entity_size : ∀ s d rest, entity s = some (d, rest) → d.length + rest.length ≤ s.length

namespace Markup

/-- The length of the shortest source of some items. -/
def size (items : List (MarkupItem α)) : ℕ := (items.map MarkupItem.size).sum

@[simp] theorem size_nil : size ([] : List (MarkupItem α)) = 0 := rfl

@[simp] theorem size_cons (item : MarkupItem α) (items : List (MarkupItem α)) :
    size (item :: items) = item.size + size items := List.sum_cons

@[simp] theorem size_append (items more : List (MarkupItem α)) :
    size (items ++ more) = size items + size more := by
  rw [size, List.map_append, List.sum_append]
  rfl

@[simp] theorem size_text (d : List α) : size (d.map MarkupItem.text) = d.length := by
  induction d with
  | nil => rfl
  | cons c d ih =>
    rw [List.map_cons, size_cons, ih, List.length_cons, Nat.add_comm]
    rfl

/-- A character that starts nothing. -/
def Plain (tagStart entityStart c : α) : Prop := c ≠ tagStart ∧ c ≠ entityStart

instance [DecidableEq α] (tagStart entityStart c : α) : Decidable (Plain tagStart entityStart c) :=
  inferInstanceAs (Decidable (c ≠ tagStart ∧ c ≠ entityStart))

variable [DecidableEq α] {tagStart tagEnd entityStart : α} (M : Markup tagStart tagEnd entityStart)

/-- The items of a source, unless it is not well formed. -/
def read : List α → Option (List (MarkupItem α))
  | [] => some []
  | c :: s =>
    if c = tagStart then
      match _h : M.tag s with
      | some (t, rest) => (read rest).map (MarkupItem.tag t :: ·)
      | none => none
    else if c = entityStart then
      match _h : M.entity s with
      | some (d, rest) => (read rest).map (d.map MarkupItem.text ++ ·)
      | none => none
    else (read s).map (MarkupItem.text c :: ·)
termination_by s => s.length
decreasing_by
  · have hlen := congrArg List.length (M.tag_source s t rest _h)
    rw [List.length_append, List.length_cons] at hlen
    rw [List.length_cons]
    omega
  · have hlen := M.entity_size s d rest _h
    rw [List.length_cons]
    omega
  · exact Nat.lt_succ_self _

variable {M} {s t rest : List α} {items : List (MarkupItem α)} {c : α}

@[simp] theorem read_nil : M.read [] = some [] := by rw [read]

/-- Plain characters are read as text. -/
theorem read_plain (hs : ∀ c ∈ s, Plain tagStart entityStart c) (rest : List α) :
    M.read (s ++ rest) = (M.read rest).map (s.map MarkupItem.text ++ ·) := by
  induction s with
  | nil =>
    rw [List.nil_append, List.map_nil]
    cases M.read rest <;> rfl
  | cons c s ih =>
    obtain ⟨hc, hs⟩ := List.forall_mem_cons.mp hs
    rw [List.cons_append, read, if_neg hc.1, if_neg hc.2, ih hs, Option.map_map]
    rfl

/-- A tag is read as such. -/
theorem read_tag (h : M.tag s = some (t, rest)) :
    M.read (tagStart :: s) = (M.read rest).map (MarkupItem.tag t :: ·) := by
  rw [read, if_pos rfl]
  split
  · rename_i heq
    rw [h] at heq
    obtain ⟨rfl, rfl⟩ := Prod.mk.inj (Option.some.inj heq)
    rfl
  · rename_i heq
    rw [h] at heq
    cases heq

/-- The first thing that is read, and the rest. -/
theorem read_cons (h : M.read (c :: s) = some items) :
    (∃ t rest more, M.tag s = some (t, rest) ∧ M.read rest = some more ∧
        items = .tag t :: more) ∨
      (∃ d rest more, M.entity s = some (d, rest) ∧ M.read rest = some more ∧
        items = d.map .text ++ more) ∨
      (Plain tagStart entityStart c ∧ ∃ more, M.read s = some more ∧ items = .text c :: more) := by
  rw [read] at h
  split at h
  case isTrue =>
    split at h
    · rename_i t rest heq
      obtain ⟨more, hmore, rfl⟩ := Option.map_eq_some_iff.mp h
      exact Or.inl ⟨t, rest, more, heq, hmore, rfl⟩
    · cases h
  case isFalse htag =>
    split at h
    case isTrue =>
      split at h
      · rename_i d rest heq
        obtain ⟨more, hmore, rfl⟩ := Option.map_eq_some_iff.mp h
        exact Or.inr (Or.inl ⟨d, rest, more, heq, hmore, rfl⟩)
      · cases h
    case isFalse hentity =>
      obtain ⟨more, hmore, rfl⟩ := Option.map_eq_some_iff.mp h
      exact Or.inr (Or.inr ⟨⟨htag, hentity⟩, more, hmore, rfl⟩)

/-- What is read is no longer than the source, and if it is as long, the source has no entity. -/
theorem size_le_length_and (h : M.read s = some items) :
    size items ≤ s.length ∧
      (size items = s.length → ∀ c, MarkupItem.text c ∈ items → Plain tagStart entityStart c) := by
  induction hn : s.length using Nat.strong_induction_on generalizing s items with
  | _ n ih =>
  cases s with
  | nil =>
    rw [read_nil] at h
    obtain rfl := Option.some.inj h
    exact ⟨Nat.zero_le _, fun _ c hc => absurd hc List.not_mem_nil⟩
  | cons c s =>
    rw [List.length_cons] at hn
    rcases read_cons h with ⟨t, rest, more, htag, hmore, rfl⟩ | ⟨d, rest, more, hent, hmore, rfl⟩ |
      ⟨hplain, more, hmore, rfl⟩
    · have hlen := congrArg List.length (M.tag_source s t rest htag)
      rw [List.length_append, List.length_cons] at hlen
      obtain ⟨hle, hplain⟩ := ih rest.length (by omega) hmore rfl
      have hsize : (MarkupItem.tag t).size = t.length + 2 := rfl
      rw [size_cons, hsize]
      refine ⟨by omega, fun heq c hc => hplain (by omega) c ?_⟩
      exact (List.mem_cons.mp hc).resolve_left nofun
    · have hlen := M.entity_size s d rest hent
      obtain ⟨hle, -⟩ := ih rest.length (by omega) hmore rfl
      rw [size_append, size_text]
      exact ⟨by omega, fun heq => by omega⟩
    · obtain ⟨hle, hrest⟩ := ih s.length (by omega) hmore rfl
      have hsize : (MarkupItem.text c).size = 1 := rfl
      rw [size_cons, hsize]
      refine ⟨by omega, fun heq c' hc' => ?_⟩
      rcases List.mem_cons.mp hc' with heq' | hc'
      · obtain rfl := MarkupItem.text.inj heq'
        exact hplain
      · exact hrest (by omega) c' hc'

/-- What is read is no longer than the source. -/
theorem size_le_length (h : M.read s = some items) : size items ≤ s.length :=
  (size_le_length_and h).1

/-- If what is read is as long as the source, the characters of its text start nothing. -/
theorem text_plain_of_size (h : M.read s = some items) (hsize : size items = s.length)
    (hc : MarkupItem.text c ∈ items) : Plain tagStart entityStart c :=
  (size_le_length_and h).2 hsize c hc

end Markup

/-! ## Reading up to a character -/

/-- What comes before a character, and what comes behind it. -/
def upTo [DecidableEq α] (c : α) : List α → Option (List α × List α)
  | [] => none
  | b :: s => if b = c then some ([], s) else (upTo c s).map fun p => (b :: p.1, p.2)

/-- The source is what comes before the character, the character, and what comes behind it. -/
theorem upTo_source [DecidableEq α] {c : α} {s t rest : List α} (h : upTo c s = some (t, rest)) :
    s = t ++ c :: rest := by
  induction s generalizing t with
  | nil => cases h
  | cons b s ih =>
    rw [upTo] at h
    split at h
    case isTrue hb =>
      obtain ⟨rfl, rfl⟩ := Prod.mk.inj (Option.some.inj h)
      rw [hb]
      rfl
    case isFalse =>
      obtain ⟨p, hp, heq⟩ := Option.map_eq_some_iff.mp h
      obtain ⟨rfl, rfl⟩ := Prod.mk.inj heq
      rw [ih hp]
      rfl

/-- Reading ends at the first such character. -/
theorem upTo_append [DecidableEq α] {c : α} {t : List α} (ht : c ∉ t) (rest : List α) :
    upTo c (t ++ c :: rest) = some (t, rest) := by
  induction t with
  | nil => rw [List.nil_append, upTo, if_pos rfl]
  | cons b t ih =>
    obtain ⟨hb, ht⟩ := not_or.mp (List.mem_cons.not.mp ht)
    rw [List.cons_append, upTo, if_neg (Ne.symm hb), ih ht]
    rfl

end TinyMsg
