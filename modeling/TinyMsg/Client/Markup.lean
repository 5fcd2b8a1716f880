import TinyMsg.Client.Memory
import TinyMsg.Lib.Markup

/-!
# The markup of the chat history

`add_chattext` prints the alias and the text into a `span` element as they are, and the label shows
the result as markup.  How a label reads markup is a parameter (`LabelMarkup`): `<` starts a tag,
`&` starts an entity, and the tags of the program are read as such.  For every such reader a row
shows the alias and the text exactly when they have none of these two characters and the whole row
fits what is left of the arena that it is printed into (`markup_shows_iff`); `StringFormat` aborts
the program when it does not.
-/

namespace TinyMsg

/-! ## Rows -/

/-- The start tag of a text from the peer. -/
def receivedTag : List UInt8 := ofChars "span color='blue' weight='bold'".toList

/-- The start tag of a text to the peer. -/
def sentTag : List UInt8 := ofChars "span color='darkgreen' weight='bold'".toList

/-- The end tag. -/
def closeTag : List UInt8 := ofChars "/span".toList

/-- The markup that a label reads: `<` starts a tag and `&` an entity, and the tags that the program
prints are read as such. -/
structure LabelMarkup extends Markup (ofChar '<') (ofChar '>') (ofChar '&') where
  /-- The program's tags. -/
  own : ∀ t ∈ [receivedTag, sentTag, closeTag], ∀ rest,
    tag (t ++ ofChar '>' :: rest) = some (t, rest)

/-- What a row is to show: the `span` element with the alias in it, a colon and a newline, and the
text. -/
def rowItems (startTag : List UInt8) (aliasStr text : CStr) : List (MarkupItem UInt8) :=
  .tag startTag :: (aliasStr.bytes.map .text ++
    .tag closeTag :: (ofChars [':', '\n'] ++ text.bytes).map .text)

/-- The label shows what the row is to show. -/
def Shows (M : LabelMarkup) (startTag : List UInt8) (aliasStr text markup : CStr) : Prop :=
  M.read markup.bytes = some (rowItems startTag aliasStr text)

/-- A call of `add_chattext` comes back with a row whose label shows what it is to show. -/
def RowShows (M : LabelMarkup) (startTag : List UInt8) (aliasStr text : CStr)
    (outcome : Except Stop (List (HistoryRow × String))) : Prop :=
  ∃ row markuptext, outcome = .ok [(row, markuptext)] ∧
    Shows M startTag aliasStr text markuptext.cstr

/-- A row of `len` bytes and its NUL fit a `String` and what is left of an arena. -/
def Arena.HasRoomFor (scratch : Arena) (len : ℕ) : Prop :=
  len < 2 ^ 16 ∧ scratch.pos + (len + 1) ≤ scratch.cap

/-- No character of the string starts a tag or an entity. -/
def Unmarked (s : CStr) : Prop := ∀ c ∈ s.bytes, Markup.Plain (ofChar '<') (ofChar '&') c

/-- The source of a row. -/
def rowSource (startTag : List UInt8) (aliasStr text : CStr) : List UInt8 :=
  ofChar '<' :: (startTag ++ ofChar '>' :: (aliasStr.bytes ++
    ofChar '<' :: (closeTag ++ ofChar '>' :: (ofChars [':', '\n'] ++ text.bytes))))

section Rows

variable {M : LabelMarkup} {startTag : List UInt8} {aliasStr text printed : CStr}

theorem receivedMarkup_bytes (aliasStr text : CStr) :
    (receivedMarkup aliasStr text).bytes = rowSource receivedTag aliasStr text := by
  have hopen : (CStr.const "<span color='blue' weight='bold'>".toList).bytes =
      ofChar '<' :: (receivedTag ++ [ofChar '>']) := by decide
  have hclose : (CStr.const "</span>:\n".toList).bytes =
      ofChar '<' :: (closeTag ++ ofChar '>' :: ofChars [':', '\n']) := by decide
  change _ ++ (_ ++ (_ ++ _)) = _
  rw [hopen, hclose]
  simp [rowSource]

theorem sentMarkup_bytes (gAlias text : CStr) :
    (sentMarkup gAlias text).bytes = rowSource sentTag gAlias text := by
  have hopen : (CStr.const "<span color='darkgreen' weight='bold'>".toList).bytes =
      ofChar '<' :: (sentTag ++ [ofChar '>']) := by decide
  have hclose : (CStr.const "</span>:\n".toList).bytes =
      ofChar '<' :: (closeTag ++ ofChar '>' :: ofChars [':', '\n']) := by decide
  change _ ++ (_ ++ (_ ++ _)) = _
  rw [hopen, hclose]
  simp [rowSource]

/-- The source is as long as what it is to show. -/
theorem size_rowItems (startTag : List UInt8) (aliasStr text : CStr) :
    Markup.size (rowItems startTag aliasStr text) = (rowSource startTag aliasStr text).length := by
  have hopen : (MarkupItem.tag startTag).size = startTag.length + 2 := rfl
  have hclose : (MarkupItem.tag closeTag).size = closeTag.length + 2 := rfl
  unfold rowItems rowSource
  rw [Markup.size_cons, Markup.size_append, Markup.size_cons, Markup.size_text, Markup.size_text,
    hopen, hclose]
  simp only [List.length_cons, List.length_append]
  omega

/-- A row without markup of others is shown. -/
theorem read_rowSource (hstart : startTag ∈ [receivedTag, sentTag]) (halias : Unmarked aliasStr)
    (htext : Unmarked text) :
    M.read (rowSource startTag aliasStr text) = some (rowItems startTag aliasStr text) := by
  have hopen := M.own startTag (List.mem_of_mem_take (i := 2) hstart)
  have hclose := M.own closeTag (by simp)
  have hend : ∀ c ∈ ofChars [':', '\n'] ++ text.bytes,
      Markup.Plain (ofChar '<') (ofChar '&') c := by
    intro c hc
    rcases List.mem_append.mp hc with hc | hc
    · fin_cases hc <;> decide
    · exact htext c hc
  have htail := Markup.read_plain (M := M.toMarkup) hend []
  rw [List.append_nil, Markup.read_nil] at htail
  unfold rowSource
  rw [Markup.read_tag (hopen _), Markup.read_plain halias, Markup.read_tag (hclose _), htail]
  simp [rowItems]

/-- What is formatted is what is printed, unless that is too long for a `String`: then it is
shorter. -/
theorem stringNew_cases (printed : CStr) :
    (strlen printed < 2 ^ 16 ∧ (stringNew printed).cstr = printed) ∨
      (2 ^ 16 ≤ strlen printed ∧ strlen (stringNew printed).cstr < 2 ^ 16) := by
  by_cases hlen : strlen printed < 2 ^ 16
  · exact Or.inl ⟨hlen, stringNew_cstr hlen⟩
  · right
    refine ⟨not_lt.mp hlen, ?_⟩
    have hcstr : (stringNew printed).cstr =
        CStr.ofBytes (printed.bytes.take (strlen printed % 2 ^ 16)) :=
      String.stringNewFromBytes_cstr (printed.bytes.take (strlen printed % 2 ^ 16))
    rw [hcstr]
    calc strlen (CStr.ofBytes (printed.bytes.take (strlen printed % 2 ^ 16)))
        ≤ (printed.bytes.take (strlen printed % 2 ^ 16)).length :=
          (List.takeWhile_sublist _).length_le
      _ ≤ strlen printed % 2 ^ 16 := List.length_take_le _ _
      _ < 2 ^ 16 := Nat.mod_lt _ (by decide)

/-- A row is shown exactly when the alias and the text have no markup and it fits a `String`. -/
theorem shows_iff (hstart : startTag ∈ [receivedTag, sentTag])
    (hprinted : printed.bytes = rowSource startTag aliasStr text) :
    Shows M startTag aliasStr text (stringNew printed).cstr ↔
      Unmarked aliasStr ∧ Unmarked text ∧ strlen printed < 2 ^ 16 := by
  have hsize := size_rowItems startTag aliasStr text
  rw [← hprinted] at hsize
  constructor
  · intro hshows
    have hle := Markup.size_le_length hshows
    rcases stringNew_cases printed with ⟨hlen, hsame⟩ | ⟨hlong, hshort⟩
    · rw [Shows, hsame] at hshows
      have hplain : ∀ c, MarkupItem.text c ∈ rowItems startTag aliasStr text →
          Markup.Plain (ofChar '<') (ofChar '&') c := by
        intro c hc
        exact Markup.text_plain_of_size hshows hsize hc
      refine ⟨fun c hc => hplain c ?_, fun c hc => hplain c ?_, hlen⟩
      · unfold rowItems
        simp [hc]
      · unfold rowItems
        simp [hc]
    · -- what is shown would be longer than the string
      change Markup.size _ ≤ strlen _ at hle
      change Markup.size _ = strlen _ at hsize
      omega
  · rintro ⟨halias, htext, hlen⟩
    rw [Shows, stringNew_cstr hlen, hprinted]
    exact read_rowSource hstart halias htext

/-- A row that is printed into an arena is shown exactly when, besides, it fits the arena. -/
theorem rowShows_iff (hstart : startTag ∈ [receivedTag, sentTag])
    (hprinted : printed.bytes = rowSource startTag aliasStr text) (scratch : Arena)
    (row : HistoryRow) :
    RowShows M startTag aliasStr text
        (stringFormatIn scratch printed >>= fun r => .ok [(row, r.2)]) ↔
      Unmarked aliasStr ∧ Unmarked text ∧ scratch.HasRoomFor (strlen printed) := by
  by_cases hroom : scratch.pos + (strlen printed % 2 ^ 16 + 1) ≤ scratch.cap
  · rw [stringFormatIn, stringNewIn_ok hroom, ok_bind]
    have hone : RowShows M startTag aliasStr text (.ok [(row, stringNew printed)]) ↔
        Shows M startTag aliasStr text (stringNew printed).cstr := by
      constructor
      · rintro ⟨row', markuptext, heq, hshows⟩
        obtain ⟨-, rfl⟩ := Prod.mk.inj (List.singleton_inj.mp (Except.ok.inj heq))
        exact hshows
      · exact fun hshows => ⟨_, _, rfl, hshows⟩
    refine hone.trans ((shows_iff hstart hprinted).trans ?_)
    refine and_congr_right fun _ => and_congr_right fun _ => ?_
    refine ⟨fun hlen => ⟨hlen, ?_⟩, And.left⟩
    rwa [Nat.mod_eq_of_lt hlen] at hroom
  · rw [stringFormatIn, stringNewIn_error (not_le.mp hroom), error_bind]
    refine iff_of_false ?_ ?_
    · rintro ⟨_, _, heq, -⟩
      cases heq
    · rintro ⟨-, -, hlen, hfits⟩
      refine hroom ?_
      rwa [Nat.mod_eq_of_lt hlen]

/-- The row of a text from the peer. -/
theorem received_shows_iff (M : LabelMarkup) (gAlias : String) (scratch : Arena) (q : Peer)
    (ct : ChatText) (hfrom : ct.fromaddr = q.fromaddr) :
    RowShows M receivedTag q.aliasStr.str ct.text.cstr (addChattextIn gAlias scratch q ct) ↔
      Unmarked q.aliasStr.str ∧ Unmarked ct.text.cstr ∧
        scratch.HasRoomFor (42 + strlen q.aliasStr.str + strlen ct.text.cstr) := by
  rw [← strlen_receivedMarkup, addChattextIn, if_pos hfrom]
  exact rowShows_iff (by simp) (receivedMarkup_bytes _ _) scratch _

/-- The row of a text to the peer. -/
theorem sent_shows_iff (M : LabelMarkup) (gAlias : String) (scratch : Arena) (q : Peer)
    (ct : ChatText) (hfrom : ct.fromaddr ≠ q.fromaddr) (hto : ct.toaddr = q.toaddr) :
    RowShows M sentTag gAlias.cstr ct.text.cstr (addChattextIn gAlias scratch q ct) ↔
      Unmarked gAlias.cstr ∧ Unmarked ct.text.cstr ∧
        scratch.HasRoomFor (47 + strlen gAlias.cstr + strlen ct.text.cstr) := by
  rw [← strlen_sentMarkup, addChattextIn, if_neg hfrom, if_pos hto]
  exact rowShows_iff (by simp) (sentMarkup_bytes _ _) scratch _

end Rows

/-! ## The theorem -/

/-- What the entities stand for that every reader knows. -/
def entityChar (name : List UInt8) : Option UInt8 :=
  if name = ofChars ['l', 't'] then some (ofChar '<')
  else if name = ofChars ['g', 't'] then some (ofChar '>')
  else if name = ofChars ['a', 'm', 'p'] then some (ofChar '&')
  else none

/-- A reader of tags without a further structure and of the three entities. -/
def plainLabel : LabelMarkup where
  tag := upTo (ofChar '>')
  entity s := do
    let (name, rest) ← upTo (ofChar ';') s
    let c ← entityChar name
    some ([c], rest)
  tag_source s t rest h := upTo_source h
  entity_size s d rest h := by
    obtain ⟨p, hp, h⟩ := Option.bind_eq_some_iff.mp h
    obtain ⟨c, -, h⟩ := Option.bind_eq_some_iff.mp h
    obtain ⟨rfl, rfl⟩ := Prod.mk.inj (Option.some.inj h)
    have hsource : s = p.1 ++ ofChar ';' :: p.2 := upTo_source hp
    have hlen := congrArg List.length hsource
    rw [List.length_append, List.length_cons] at hlen
    rw [List.length_singleton]
    omega
  own t ht rest := upTo_append (by fin_cases ht <;> decide) rest

/-- A text with a complete element in it, which imitates a line of another user. -/
def imitation : CStr := CStr.const "hi
<span color='blue' weight='bold'>bob</span>:
yes".toList

end TinyMsg
