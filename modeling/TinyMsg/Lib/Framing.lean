import TinyMsg.Lib.BigEndian

/-!
# Length-prefixed frames

A frame is a body with its length in front, as a big-endian number of `w` bytes.  `parse w` is the
reference reader of a byte stream: it takes frame after frame while they are complete, and stops
for good at a length of zero.  `Parsed.feed` goes on with more bytes where an earlier call ran out
of them, and `parse_append` says that it makes no difference where the stream was cut.
-/

namespace TinyMsg

/-- What the reader makes of a byte stream. -/
structure Parsed where
  /-- The bodies of the complete frames, in order. -/
  bodies : List (List UInt8)
  /-- A length of zero was read. -/
  stopped : Bool
  /-- The bytes of the incomplete frame at the end; nothing behind a zero length is kept. -/
  rest : List UInt8
  deriving DecidableEq

/-- The frames of a byte stream with lengths of `w` bytes. -/
def parse (w : ℕ) (bs : List UInt8) : Parsed :=
  if w ≤ bs.length then
    if _hn : numeral (bs.take w) = 0 then ⟨[], true, []⟩
    else if _hlen : w + numeral (bs.take w) ≤ bs.length then
      let p := parse w (bs.drop (w + numeral (bs.take w)))
      { p with bodies := (bs.drop w).take (numeral (bs.take w)) :: p.bodies }
    else ⟨[], false, bs⟩
  else ⟨[], false, bs⟩
termination_by bs.length
decreasing_by
  rw [List.length_drop]
  omega

/-- The frame of a body. -/
def frame (w : ℕ) (body : List UInt8) : List UInt8 := bigEndian w body.length ++ body

section Equations

variable {w : ℕ} {bs pre body rest : List UInt8}

/-- A length that is not complete. -/
theorem parse_short (h : bs.length < w) : parse w bs = ⟨[], false, bs⟩ := by
  rw [parse, if_neg (by omega)]

/-- A length of zero. -/
theorem parse_zero (hpre : pre.length = w) (hn : numeral pre = 0) :
    parse w (pre ++ rest) = ⟨[], true, []⟩ := by
  subst hpre
  rw [parse, if_pos (by simp), List.take_left, dif_pos hn]

/-- A body that is not complete. -/
theorem parse_incomplete (hpre : pre.length = w) (hlt : rest.length < numeral pre) :
    parse w (pre ++ rest) = ⟨[], false, pre ++ rest⟩ := by
  subst hpre
  rw [parse, if_pos (by simp), List.take_left, dif_neg (by omega), dif_neg]
  rw [List.length_append]
  omega

/-- A complete frame. -/
theorem parse_cons (hpre : pre.length = w) (hn : numeral pre = body.length) (hpos : body ≠ []) :
    parse w (pre ++ (body ++ rest)) =
      { parse w rest with bodies := body :: (parse w rest).bodies } := by
  subst hpre
  have hlen : body.length ≠ 0 := fun h => hpos (List.length_eq_zero_iff.mp h)
  rw [parse, if_pos (by simp), List.take_left, hn, dif_neg hlen, dif_pos (by simp),
    List.drop_left, List.take_left, ← List.append_assoc, ← List.length_append, List.drop_left]

/-- The four cases of the reader. -/
theorem parse_cases (w : ℕ) (bs : List UInt8) :
    bs.length < w ∨
    (∃ pre rest, bs = pre ++ rest ∧ pre.length = w ∧
      (numeral pre = 0 ∨ rest.length < numeral pre)) ∨
    ∃ pre body rest, bs = pre ++ (body ++ rest) ∧ pre.length = w ∧
      numeral pre = body.length ∧ body ≠ [] := by
  rcases Nat.lt_or_ge bs.length w with h | h
  · exact Or.inl h
  obtain ⟨pre, rest, rfl, rfl⟩ : ∃ pre rest, bs = pre ++ rest ∧ pre.length = w :=
    ⟨bs.take w, bs.drop w, (List.take_append_drop w bs).symm, List.length_take_of_le h⟩
  refine Or.inr ?_
  by_cases hzero : numeral pre = 0
  · exact Or.inl ⟨pre, rest, rfl, rfl, Or.inl hzero⟩
  rcases Nat.lt_or_ge rest.length (numeral pre) with hlt | hge
  · exact Or.inl ⟨pre, rest, rfl, rfl, Or.inr hlt⟩
  refine Or.inr ⟨pre, rest.take (numeral pre), rest.drop (numeral pre), ?_, rfl, ?_, ?_⟩
  · rw [List.take_append_drop]
  · rw [List.length_take_of_le hge]
  · intro hnil
    have hlen := congrArg List.length hnil
    rw [List.length_take_of_le hge] at hlen
    exact hzero hlen

end Equations

/-- Going on with the bytes `bs` after those read so far. -/
def Parsed.feed (w : ℕ) (p : Parsed) (bs : List UInt8) : Parsed :=
  if p.stopped then p
  else
    let q := parse w (p.rest ++ bs)
    { q with bodies := p.bodies ++ q.bodies }

/-- Bodies read earlier stay in front. -/
theorem Parsed.feed_cons (w : ℕ) (p : Parsed) (body bs : List UInt8) :
    Parsed.feed w { p with bodies := body :: p.bodies } bs =
      { p.feed w bs with bodies := body :: (p.feed w bs).bodies } := by
  simp only [Parsed.feed]
  split <;> rfl

/-- The frames of a stream do not depend on where it was cut. -/
theorem parse_append (w : ℕ) (xs ys : List UInt8) :
    parse w (xs ++ ys) = (parse w xs).feed w ys := by
  induction h : xs.length using Nat.strongRecOn generalizing xs with
  | _ n ih =>
    rcases parse_cases w xs with hshort | ⟨pre, rest, rfl, hpre, hzero | hlt⟩ |
      ⟨pre, body, rest, rfl, hpre, hn, hpos⟩
    · rw [parse_short hshort]
      rfl
    · rw [List.append_assoc, parse_zero hpre hzero, parse_zero hpre hzero]
      rfl
    · rw [parse_incomplete hpre hlt]
      rfl
    · have hlen : body.length ≠ 0 := fun h => hpos (List.length_eq_zero_iff.mp h)
      have hrest := ih rest.length (by simp only [List.length_append] at h; omega) rest rfl
      rw [List.append_assoc, List.append_assoc, parse_cons hpre hn hpos, hrest,
        parse_cons hpre hn hpos, Parsed.feed_cons]

/-- The frames in the beginning of a stream come first. -/
theorem parse_mono (w : ℕ) {xs ys : List UInt8} (h : xs <+: ys) :
    (parse w xs).bodies <+: (parse w ys).bodies := by
  obtain ⟨rest, rfl⟩ := h
  rw [parse_append, Parsed.feed]
  split
  · exact List.prefix_rfl
  · exact List.prefix_append _ _

/-- A length of zero in the beginning of a stream stops the reader. -/
theorem parse_stopped_mono (w : ℕ) {xs ys : List UInt8} (h : xs <+: ys)
    (hstop : (parse w xs).stopped = true) : (parse w ys).stopped = true := by
  obtain ⟨rest, rfl⟩ := h
  rw [parse_append, Parsed.feed, if_pos hstop]
  exact hstop

/-- The reader takes nothing more from the bytes it has left. -/
theorem parse_rest {w : ℕ} {bs : List UInt8} (h : (parse w bs).stopped = false) :
    parse w (parse w bs).rest = ⟨[], false, (parse w bs).rest⟩ := by
  have hnil := parse_append w bs []
  rw [List.append_nil, Parsed.feed, h, if_neg (by simp), List.append_nil] at hnil
  rcases hp : parse w bs with ⟨bodies, stopped, rest⟩
  rw [hp] at h hnil
  rcases hq : parse w rest with ⟨bodies', stopped', rest'⟩
  simp only [hq, Parsed.mk.injEq, List.self_eq_append_right] at hnil h
  obtain ⟨rfl, rfl, rfl⟩ := hnil
  rw [h]

/-- Of a stream that is not left as it was, a length at least has been taken. -/
theorem parse_rest_length (w : ℕ) (bs : List UInt8) :
    (parse w bs).rest = bs ∨ (parse w bs).rest.length + w ≤ bs.length := by
  induction h : bs.length using Nat.strongRecOn generalizing bs with
  | _ n ih =>
    subst h
    rcases parse_cases w bs with hshort | ⟨pre, rest, rfl, hpre, hzero | hlt⟩ |
      ⟨pre, body, rest, rfl, hpre, hn, hpos⟩
    · rw [parse_short hshort]
      exact Or.inl rfl
    · rw [parse_zero hpre hzero, List.length_append]
      exact Or.inr (by simp only [List.length_nil]; omega)
    · rw [parse_incomplete hpre hlt]
      exact Or.inl rfl
    · have hlen : body.length ≠ 0 := fun h => hpos (List.length_eq_zero_iff.mp h)
      have hrest := ih rest.length (by simp only [List.length_append]; omega) rest rfl
      have hle : (parse w rest).rest.length ≤ rest.length := by
        rcases hrest with hsame | hless
        · rw [hsame]
        · omega
      rw [parse_cons hpre hn hpos, List.length_append, List.length_append]
      exact Or.inr (by dsimp only; omega)

/-- A length without bytes is zero. -/
theorem parse_zero_width (bs : List UInt8) : parse 0 bs = ⟨[], true, []⟩ := by
  rw [← List.nil_append bs]
  exact parse_zero rfl numeral_nil

/-- A stream of frames is read back frame by frame. -/
theorem parse_frames {w : ℕ} {bodies : List (List UInt8)}
    (h : ∀ body ∈ bodies, body ≠ [] ∧ body.length < 256 ^ w) :
    (parse w (bodies.map (frame w)).flatten).bodies = bodies := by
  induction bodies with
  | nil =>
    rw [List.map_nil, List.flatten_nil]
    rcases Nat.eq_zero_or_pos w with rfl | hw
    · rw [parse_zero_width]
    · rw [parse_short hw]
  | cons body bodies ih =>
    obtain ⟨hpos, hlt⟩ := h body List.mem_cons_self
    rw [List.map_cons, List.flatten_cons, frame, List.append_assoc,
      parse_cons (length_bigEndian w _) (numeral_bigEndian_of_lt hlt) hpos,
      ih fun b hb => h b (List.mem_cons_of_mem _ hb)]

end TinyMsg
