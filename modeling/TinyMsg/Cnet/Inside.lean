import TinyMsg.Cnet.Unpack

/-!
# Where `NetUnpack` reads

Every conversion of `NetUnpack` compares its position with `maxp` before it reads on, except one:
`%s` hands the declared length to `StringAssignFromBytes`, which copies that many bytes.  So the
decoder stays inside the message exactly when no string declares more bytes than are left
(`StringsFit`), and exactly then the output depends on nothing behind the message.

Both directions are inductions over the format.  When the strings fit, every conversion reads
inside and hands the same position on whatever lies behind.  When they do not, the conversions
before the first string that does not fit agree, and that string ends with a byte from outside.
-/

namespace TinyMsg

/-- The memories `bs` and `bs'` hold the same message of `bslen` bytes. -/
def SameMessage (bslen : ℤ) (bs bs' : ℕ → UInt8) : Prop := ∀ i : ℕ, (i : ℤ) < bslen → bs' i = bs i

/-- No string of the message declares more bytes than the message has left, as the rest of the
format meets them from position `pos` on.  A string of which no byte would be left is not
copied, whatever it declares. -/
def StringsFit (bs : ℕ → UInt8) (bslen : ℤ) : FmtState → List UInt8 → ℕ → Prop
  | _, [], _ => True
  | .none, c :: fmt, pos =>
    if c = ofChar '%' then StringsFit bs bslen .percent fmt pos
    else StringsFit bs bslen .none fmt (pos + 1)
  | .percent, c :: fmt, pos =>
    match specOf c with
    | .num w => StringsFit bs bslen .none fmt (pos + w)
    | .str =>
      ((pos + 2 : ℕ) < bslen → (pos + 2 + numeral (bytesAt bs pos 2) : ℕ) ≤ bslen) ∧
        StringsFit bs bslen .none fmt (pos + 2 + numeral (bytesAt bs pos 2))
    | .other => StringsFit bs bslen .none fmt pos

section Inside

variable {bs bs' : ℕ → UInt8} {bslen : ℤ} {st : FmtState} {c : UInt8} {fmt : List UInt8}
  {pos n w : ℕ}

attribute [local simp] StringsFit in
theorem stringsFit_percent (hc : c = ofChar '%') :
    StringsFit bs bslen .none (c :: fmt) pos ↔ StringsFit bs bslen .percent fmt pos := by
  simp [hc]

theorem stringsFit_lit (hc : c ≠ ofChar '%') :
    StringsFit bs bslen .none (c :: fmt) pos ↔ StringsFit bs bslen .none fmt (pos + 1) := by
  rw [StringsFit, if_neg hc]

theorem stringsFit_num (hs : specOf c = .num w) :
    StringsFit bs bslen .percent (c :: fmt) pos ↔ StringsFit bs bslen .none fmt (pos + w) := by
  rw [StringsFit, hs]

theorem stringsFit_str (hs : specOf c = .str) :
    StringsFit bs bslen .percent (c :: fmt) pos ↔
      ((pos + 2 : ℕ) < bslen → (pos + 2 + numeral (bytesAt bs pos 2) : ℕ) ≤ bslen) ∧
        StringsFit bs bslen .none fmt (pos + 2 + numeral (bytesAt bs pos 2)) := by
  rw [StringsFit, hs]

theorem stringsFit_other (hs : specOf c = .other) :
    StringsFit bs bslen .percent (c :: fmt) pos ↔ StringsFit bs bslen .none fmt pos := by
  rw [StringsFit, hs]

/-- Behind the end of the message no string is left. -/
theorem stringsFit_end (h : bslen ≤ pos) : StringsFit bs bslen st fmt pos := by
  induction fmt generalizing st pos with
  | nil => cases st <;> trivial
  | cons c fmt ih =>
    cases st with
    | none =>
      by_cases hc : c = ofChar '%'
      · exact (stringsFit_percent hc).mpr (ih h)
      · exact (stringsFit_lit hc).mpr (ih (by omega))
    | percent =>
      cases hs : specOf c with
      | num w => exact (stringsFit_num hs).mpr (ih (by omega))
      | str => exact (stringsFit_str hs).mpr ⟨fun _ => by omega, ih (by omega)⟩
      | other => exact (stringsFit_other hs).mpr (ih h)

/-- Positions read by two parts lie in the message when those of both parts do. -/
theorem Inside.append {r₁ r₂ : List ℕ} (h₁ : Inside bslen r₁) (h₂ : Inside bslen r₂) :
    Inside bslen (r₁ ++ r₂) := fun i hi =>
  (List.mem_append.mp hi).elim (h₁ i) (h₂ i)

/-- The bytes at positions of the message are those of any memory that holds it. -/
theorem SameMessage.bytesAt_eq (h : SameMessage bslen bs bs') (hin : (pos + n : ℕ) ≤ bslen) :
    bytesAt bs' pos n = bytesAt bs pos n := by
  refine List.map_congr_left fun k hk => h _ ?_
  have := List.mem_range.mp hk
  omega

/-- Strings made of different bytes are different. -/
theorem stringNewFromBytes_injective : Function.Injective stringNewFromBytes := by
  intro xs ys h
  have hblock : some (xs ++ [0]) = some (ys ++ [0]) := congrArg String.bs h
  exact List.append_cancel_right (Option.some.inj hblock)

/-! ## Strings that fit -/

/-- When the strings fit, the decoder reads inside the message. -/
theorem StringsFit.inside (h : StringsFit bs bslen st fmt pos) :
    Inside bslen (unpackLoop bs bslen st fmt pos).reads := by
  induction fmt generalizing st pos with
  | nil => cases st <;> exact fun i hi => absurd hi List.not_mem_nil
  | cons c fmt ih =>
    rcases le_or_gt bslen pos with hend | hpos
    · rw [unpackLoop_end hend]
      exact fun i hi => absurd hi List.not_mem_nil
    cases st with
    | none =>
      by_cases hc : c = ofChar '%'
      · rw [unpackLoop_percent hc]
        exact ih ((stringsFit_percent hc).mp h)
      · rw [unpackLoop_lit hc]
        exact ih ((stringsFit_lit hc).mp h)
    | percent =>
      cases hs : specOf c with
      | num w =>
        rcases le_or_gt ((pos + w : ℕ) : ℤ) bslen with hin | hout
        · obtain ⟨reads, hreads, heq⟩ := unpackLoop_num bs fmt hs hpos hin
          rw [heq]
          exact hreads.append (ih ((stringsFit_num hs).mp h))
        · obtain ⟨v, reads, hreads, heq⟩ :=
            unpackLoop_num_cut bs fmt hs hpos hout
          rw [heq]
          exact hreads
      | str =>
        rcases lt_or_ge ((pos + 2 : ℕ) : ℤ) bslen with hin | hout
        · obtain ⟨hfit, hrest⟩ := (stringsFit_str hs).mp h
          obtain ⟨reads, hreads, heq⟩ := unpackLoop_str bs fmt hs hin
          have hcopied :
              Inside bslen ((List.range (numeral (bytesAt bs pos 2))).map (pos + 2 + ·)) := by
            intro i hi
            obtain ⟨k, hk, rfl⟩ := List.mem_map.mp hi
            have := List.mem_range.mp hk
            have := hfit hin
            omega
          rw [heq]
          exact (hreads.append hcopied).append (ih hrest)
        · obtain ⟨reads, hreads, heq⟩ := unpackLoop_str_cut bs fmt hs hpos hout
          rw [heq]
          exact hreads
      | other =>
        rw [unpackLoop_other hs]
        exact ih ((stringsFit_other hs).mp h)

/-- When the strings fit, the output is the same for every memory that holds the message. -/
theorem StringsFit.fields_eq (h : StringsFit bs bslen st fmt pos)
    (hsame : SameMessage bslen bs bs') :
    (unpackLoop bs' bslen st fmt pos).fields = (unpackLoop bs bslen st fmt pos).fields := by
  induction fmt generalizing st pos with
  | nil => cases st <;> rfl
  | cons c fmt ih =>
    rcases le_or_gt bslen pos with hend | hpos
    · rw [unpackLoop_end hend, unpackLoop_end hend]
    cases st with
    | none =>
      by_cases hc : c = ofChar '%'
      · rw [unpackLoop_percent hc, unpackLoop_percent hc]
        exact ih ((stringsFit_percent hc).mp h)
      · rw [unpackLoop_lit hc, unpackLoop_lit hc]
        exact ih ((stringsFit_lit hc).mp h)
    | percent =>
      cases hs : specOf c with
      | num w =>
        rcases le_or_gt ((pos + w : ℕ) : ℤ) bslen with hin | hout
        · obtain ⟨_, -, heq⟩ := unpackLoop_num bs fmt hs hpos hin
          obtain ⟨_, -, heq'⟩ := unpackLoop_num bs' fmt hs hpos hin
          rw [heq, heq', hsame.bytesAt_eq hin]
          exact congrArg (List.cons _) (ih ((stringsFit_num hs).mp h))
        · rw [unpackLoop, unpackLoop, if_neg (by omega), if_neg (by omega), hs]
          simp only [unpackNum_congr bs (w := w) hsame (Or.inl hpos)]
          have hcut := unpackNum_cut bs hpos hout (by omega)
          rcases hread : unpackNum bs bslen w pos 0 with ⟨v, reads, next⟩
          rw [hread] at hcut
          obtain rfl : next = none := hcut
          rfl
      | str =>
        rcases lt_or_ge ((pos + 2 : ℕ) : ℤ) bslen with hin | hout
        · obtain ⟨hfit, hrest⟩ := (stringsFit_str hs).mp h
          obtain ⟨_, -, heq⟩ := unpackLoop_str bs fmt hs hin
          obtain ⟨_, -, heq'⟩ := unpackLoop_str bs' fmt hs hin
          rw [heq, heq', hsame.bytesAt_eq hin.le, hsame.bytesAt_eq (hfit hin)]
          exact congrArg (List.cons _) (ih hrest)
        · obtain ⟨_, -, heq⟩ := unpackLoop_str_cut bs fmt hs hpos hout
          obtain ⟨_, -, heq'⟩ := unpackLoop_str_cut bs' fmt hs hpos hout
          rw [heq, heq']
      | other =>
        rw [unpackLoop_other hs, unpackLoop_other hs]
        exact ih ((stringsFit_other hs).mp h)

/-! ## A string that does not fit -/

/-- The memory that holds the same message and differs everywhere behind it. -/
def changedBehind (bslen : ℤ) (bs : ℕ → UInt8) : ℕ → UInt8 :=
  fun i => if (i : ℤ) < bslen then bs i else bs i + 1

theorem sameMessage_changedBehind : SameMessage bslen bs (changedBehind bslen bs) :=
  fun _ hi => if_pos hi

/-- Bytes that end behind the message differ in the changed memory. -/
theorem bytesAt_changedBehind (hn : bslen < (pos + n : ℕ)) (hpos : (pos : ℤ) < bslen) :
    bytesAt (changedBehind bslen bs) pos n ≠ bytesAt bs pos n := by
  intro heq
  have hk : n - 1 ∈ List.range n := List.mem_range.mpr (by omega)
  have hlast : changedBehind bslen bs (pos + (n - 1)) = bs (pos + (n - 1)) :=
    List.map_inj_left.mp heq _ hk
  rw [changedBehind, if_neg (by omega)] at hlast
  exact absurd hlast (by simp)

/-- When some string does not fit, a byte behind the message is read and shows in the output. -/
theorem reads_behind (h : ¬StringsFit bs bslen st fmt pos) :
    ¬Inside bslen (unpackLoop bs bslen st fmt pos).reads ∧
      (unpackLoop (changedBehind bslen bs) bslen st fmt pos).fields ≠
        (unpackLoop bs bslen st fmt pos).fields := by
  induction fmt generalizing st pos with
  | nil => cases st <;> exact absurd trivial h
  | cons c fmt ih =>
    rcases le_or_gt bslen pos with hend | hpos
    · exact absurd (stringsFit_end hend) h
    cases st with
    | none =>
      by_cases hc : c = ofChar '%'
      · rw [unpackLoop_percent hc, unpackLoop_percent hc]
        exact ih (h ∘ (stringsFit_percent hc).mpr)
      · rw [unpackLoop_lit hc, unpackLoop_lit hc]
        exact ih (h ∘ (stringsFit_lit hc).mpr)
    | percent =>
      cases hs : specOf c with
      | num w =>
        have hrest := h ∘ (stringsFit_num hs).mpr
        have hin : ((pos + w : ℕ) : ℤ) ≤ bslen :=
          not_lt.mp fun hout => hrest (stringsFit_end hout.le)
        obtain ⟨reads, -, heq⟩ := unpackLoop_num bs fmt hs hpos hin
        obtain ⟨_, -, heq'⟩ :=
          unpackLoop_num (changedBehind bslen bs) fmt hs hpos hin
        obtain ⟨hreads, hfields⟩ := ih hrest
        rw [heq, heq']
        exact ⟨fun hall => hreads fun i hi => hall i (List.mem_append_right _ hi),
          fun hall => hfields (List.cons.inj hall).2⟩
      | str =>
        have hnot := h ∘ (stringsFit_str hs).mpr
        have hin : ((pos + 2 : ℕ) : ℤ) < bslen :=
          not_le.mp fun hout => hnot ⟨fun _ => by omega, stringsFit_end (by omega)⟩
        obtain ⟨reads, -, heq⟩ := unpackLoop_str bs fmt hs hin
        obtain ⟨_, -, heq'⟩ :=
          unpackLoop_str (changedBehind bslen bs) fmt hs hin
        rw [heq, heq', sameMessage_changedBehind.bytesAt_eq hin.le]
        rcases le_or_gt ((pos + 2 + numeral (bytesAt bs pos 2) : ℕ) : ℤ) bslen with hfit | hlong
        · -- this string fits: the one that does not comes later
          obtain ⟨hreads, hfields⟩ := ih fun hrest => hnot ⟨fun _ => hfit, hrest⟩
          exact ⟨fun hall => hreads fun i hi => hall i (List.mem_append_right _ hi),
            fun hall => hfields (List.cons.inj hall).2⟩
        · refine ⟨fun hall => ?_, fun hall => ?_⟩
          · have hlast : pos + 2 + (numeral (bytesAt bs pos 2) - 1) ∈
                (List.range (numeral (bytesAt bs pos 2))).map (pos + 2 + ·) :=
              List.mem_map_of_mem (List.mem_range.mpr (by omega))
            have := hall _ (List.mem_append_left _ (List.mem_append_right _ hlast))
            omega
          · have hstr := Field.str.inj (List.cons.inj hall).1
            exact bytesAt_changedBehind hlong hin (stringNewFromBytes_injective hstr)
      | other =>
        rw [unpackLoop_other hs, unpackLoop_other hs]
        exact ih (h ∘ (stringsFit_other hs).mpr)

end Inside

/-! ## The message alone -/

/-- `NetUnpack` reads only bytes of its message, and equally its output depends only on the
message, exactly when no string declares more bytes than the message has left. -/
theorem netUnpack_inside_iff (bs : ℕ → UInt8) (bslen : ℤ) (fmt : List UInt8) :
    (Inside bslen (netUnpack bs bslen fmt).reads ↔ StringsFit bs bslen .none fmt 0) ∧
      ((∀ bs', SameMessage bslen bs bs' →
        (netUnpack bs' bslen fmt).fields = (netUnpack bs bslen fmt).fields) ↔
          StringsFit bs bslen .none fmt 0) := by
  refine ⟨⟨fun h => ?_, StringsFit.inside⟩, ⟨fun h => ?_, fun hfit _ => hfit.fields_eq⟩⟩
  · by_contra hnot
    exact (reads_behind hnot).1 h
  · by_contra hnot
    exact (reads_behind hnot).2 (h _ sameMessage_changedBehind)

/-- A KNOCK whose alias declares five bytes where one is left: the alias takes in four bytes of
what follows in the same buffer, here a frame that begins `0 1 4 'k'`. -/
theorem knock_alias_reads_next_frame :
    ¬(∀ (bs : ℕ → UInt8) (bslen : ℤ) (fmt : List UInt8),
        Inside bslen (netUnpack bs bslen fmt).reads) ∧
      ¬(∀ (bs : ℕ → UInt8) (bslen : ℤ) (fmt : List UInt8) (bs' : ℕ → UInt8),
        SameMessage bslen bs bs' →
          (netUnpack bs' bslen fmt).fields = (netUnpack bs bslen fmt).fields) := by
  constructor
  · intro h
    have hread : 7 ∈ (netUnpack (fun i => [3, 0, 5, 97, 0, 1, 4, 107].getD i 0) 4
        (ofChars "%b%s%s%w".toList)).reads := by decide
    exact absurd (h _ _ _ 7 hread) (by decide)
  · intro h
    have hsame : SameMessage 4 (fun i => [3, 0, 5, 97, 0, 1, 4, 107].getD i 0)
        (fun i => [3, 0, 5, 97].getD i 0) := by
      intro i hi
      obtain hi : i < 4 := by omega
      interval_cases i <;> rfl
    exact absurd (h _ _ (ofChars "%b%s%s%w".toList) _ hsame) (by decide)

end TinyMsg
