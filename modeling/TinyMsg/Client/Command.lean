import TinyMsg.Client.ChatText
import TinyMsg.Clib.Split
import TinyMsg.Clib.Trim
import TinyMsg.PeerAlias

/-!
# The commands of the shell

`execute_command` cuts a line into tokens, and `send <alias> <text>` looks the alias up and sends
the tokens behind it, joined with single spaces.  The tokenizer appends letters and digits to a
token and ends it at whitespace; for any other character it has no branch, and goes on in the state
it is in.  So the tokens have letters and digits only (`tokenizeCommand_clean`), and a command of
such words is cut into them (`tokenizeCommand_words`).

`StringAppend` keeps a `String` below 65535 characters, and an array of tokens that starts with 16
holds at most 32768.  The memory of the scratch arena is taken to suffice.
-/

namespace TinyMsg

/-! ## The functions -/

/-- `isalnum` of the C locale.  A `char` that is negative is no letter. -/
def isalnum (b : UInt8) : Bool := (48 ≤ b ∧ b ≤ 57) ∨ (65 ≤ b ∧ b ≤ 90) ∨ (97 ≤ b ∧ b ≤ 122)

/-- The `String` after `StringAppend`. -/
def stringAppendTo (str : String) (s : CStr) : Exec String := do
  let result ← stringAppend str s
  .ok (result.getD str)

/-- `StringAppendChar` -/
def stringAppendChar (str : String) (ch : UInt8) : Exec String :=
  stringAppendTo str (.ofBytes [ch])

/-- `enum TokenizeState` -/
inductive TokenizeState
  | start
  | space
  | char
  | eof
  deriving DecidableEq, Repr

/-- The variables of `tokenize_command`. -/
structure Tokenizer where
  /-- `tokens` -/
  tokens : Array String
  /-- `state` -/
  state : TokenizeState
  /-- `token` -/
  token : String

/-- A round of the loop of `tokenize_command`, at `ch`. -/
def tokenizeChar (t : Tokenizer) (ch : UInt8) : Exec Tokenizer :=
  match t.state with
  | .start | .space =>
    if isalnum ch then do
      let token ← stringAppendChar t.token ch
      .ok { t with token := token, state := .char }
    else if isspace ch then .ok { t with state := .space }
    else if ch = 0 then .ok { t with state := .eof }
    else .ok t
  | .char =>
    if isalnum ch then do
      let token ← stringAppendChar t.token ch
      .ok { t with token := token, state := .char }
    else if isspace ch then do
      let tokens ← arrayAppendOf 24 t.tokens t.token
      .ok ⟨tokens, .space, stringNew0⟩
    else if ch = 0 then do
      let tokens ← arrayAppendOf 24 t.tokens t.token
      .ok { t with tokens := tokens, state := .eof }
    else .ok t
  | .eof => .ok t

/-- `tokenize_command`: the loop goes on up to the NUL, as far as an `int` counts. -/
def tokenizeCommand (cmd : CStr) : Exec (Array String) := do
  let tokens ← arrayNewOf 24 16
  let cmdlen := wrapInt (strlen cmd)
  let t ← run tokenizeChar ⟨tokens, .space, stringNew0⟩
    ((cmd.bytes ++ [0]).take (cmdlen + 1).toNat)
  .ok t.tokens

/-- The loop of `array_join_strings` with `n` items left, at index `i`. -/
def arrayJoinFrom (strs : Array String) : ℕ → ℕ → String → Exec String
  | 0, _, outstr => .ok outstr
  | n + 1, i, outstr => do
    let s ← arrayItem strs i
    let outstr ← stringAppendTo outstr s.cstr
    let outstr ← (if 0 < n then stringAppendTo outstr (.const [' ']) else .ok outstr)
    arrayJoinFrom strs n (i + 1) outstr

/-- `array_join_strings`: what is stored into `outstr`. -/
def arrayJoinStrings (strs : Array String) (istart : ℕ) (iend : ℤ) : Exec String :=
  let last : ℤ := strs.len - 1
  let iend := if iend > last then last else iend
  arrayJoinFrom strs (iend - istart + 1).toNat istart (stringNew .empty)

/-- `enum ExecState`, with `sendalias` once it is set. -/
inductive ExecState
  | start
  | send
  | sendalias (sendalias : String)

/-- What a command does. -/
inductive CommandAction
  /-- Nothing but ending the shell. -/
  | nothing
  /-- `print_peers` -/
  | printPeers
  /-- `print_chattexts` -/
  | printChattexts
  /-- The alias is looked up, to send it the text; if it is found, `ConnectAndSendMsg` is called for
  its address. -/
  | chat (sendalias chattext : CStr) (sent : Option (HostAddr × Transfer))

/-- The end of `execute_command` for a `send`. -/
def executeSend (p : Peers) (env : SendEnv) (fds : Finset ℕ) (sendalias chattext : CStr) :
    Exec (ℤ × CommandAction) := do
  match ← findPeerAlias p sendalias with
  | none => .ok (0, .chat sendalias chattext none)
  | some hpeer =>
    let peer ← getPeerData p hpeer
    let toaddr := (peer.map Peer.toaddr).getD 0
    let transfer ← connectAndSendMsg env fds Fmt.chattext (chatArgs chattext)
    .ok (0, .chat sendalias chattext (some (toaddr, transfer)))

/-- The loop of `execute_command` with `n` tokens left, at index `i`. -/
def executeFrom (p : Peers) (env : SendEnv) (fds : Finset ℕ) (tokens : Array String) :
    ℕ → ℕ → ExecState → Exec (ℤ × CommandAction)
  | 0, _, _ => .ok (0, .nothing)
  | n + 1, i, state => do
    let token ← arrayItem tokens i
    match state with
    | .start =>
      if stringEquals token (.const ['q', 'u', 'i', 't']) ∨
          stringEquals token (.const ['b', 'y', 'e']) then .ok (1, .nothing)
      else if stringEquals token (.const ['k', 'n', 'o', 'c', 'k']) then .ok (0, .nothing)
      else if stringEquals token (.const ['p', 'e', 'e', 'r', 's']) then .ok (0, .printPeers)
      else if stringEquals token (.const ['c', 'h', 'a', 't', 's']) then .ok (0, .printChattexts)
      else if stringEquals token (.const ['s', 'e', 'n', 'd']) then
        executeFrom p env fds tokens n (i + 1) .send
      else executeFrom p env fds tokens n (i + 1) .start
    | .send => executeFrom p env fds tokens n (i + 1) (.sendalias token)
    | .sendalias sendalias =>
      let chattext ← arrayJoinStrings tokens i (tokens.len - 1)
      if chattext.len = 0 then .ok (0, .nothing)
      else executeSend p env fds sendalias.cstr chattext.cstr

/-- `execute_command`: the value returned and what it does. -/
def executeCommand (p : Peers) (env : SendEnv) (fds : Finset ℕ) (cmd : CStr) :
    Exec (ℤ × CommandAction) := do
  let tokens ← tokenizeCommand cmd
  executeFrom p env fds tokens tokens.len 0 .start

/-! ## What `send` is for -/

/-- A word of printable ASCII characters. -/
def IsWord (w : List UInt8) : Prop := w ≠ [] ∧ ∀ b ∈ w, 33 ≤ b ∧ b ≤ 126

/-- The command `send <alias> <text>`. -/
def sendCommand (aliasStr text : CStr) : CStr :=
  (CStr.const ['s', 'e', 'n', 'd', ' ']).append (aliasStr.append ((CStr.const [' ']).append text))

/-- What is sent when the alias is looked up: nothing without a peer, else a CHATTEXT to it. -/
def SentTo (p : Peers) (env : SendEnv) (fds : Finset ℕ) (aliasStr text : CStr)
    (sent : Option (HostAddr × Transfer)) : Prop :=
  match p.byAlias aliasStr with
  | none => sent = none
  | some q => ∃ peer transfer, p.atHandle q.hpeer = some peer ∧
    connectAndSendMsg env fds Fmt.chattext (chatArgs text) = .ok transfer ∧
    sent = some (peer.toaddr, transfer)

/-- The command sends what was typed: exactly the alias is looked up, the text to be sent is the
typed one, and if a peer is found it is sent to the peer in a CHATTEXT. -/
def SendsTyped (aliasStr text : CStr) : Prop :=
  ∀ (p : Peers) (env : SendEnv) (fds : Finset ℕ), ∃ sent,
    executeCommand p env fds (sendCommand aliasStr text) = .ok (0, .chat aliasStr text sent) ∧
      SentTo p env fds aliasStr text sent

/-! ## Strings that are built -/

/-- A `String` that has been built from characters: it is without a block, or the characters are in
its block in front of a NUL; `StringAppend` has left room for one more. -/
structure Built (content : List UInt8) (str : String) : Prop where
  /-- The content is short enough. -/
  lt : content.length < 65535
  /-- There is no NUL in it. -/
  noNul : 0 ∉ content
  /-- The struct. -/
  eq : str = ⟨some (content ++ [0]), content.length⟩ ∨ content = [] ∧ str = stringNew0

section Strings

variable {content : List UInt8} {str str' : String} {s : CStr} {ch : UInt8}

theorem stringNew0_built : Built [] stringNew0 :=
  ⟨by decide, List.not_mem_nil, Or.inr ⟨rfl, rfl⟩⟩

theorem Built.len (h : Built content str) : str.len = content.length := by
  rcases h.eq with rfl | ⟨rfl, rfl⟩ <;> rfl

theorem Built.bytes (h : Built content str) : str.bytes = content := by
  rcases h.eq with rfl | ⟨rfl, rfl⟩
  · exact List.take_left
  · rfl

/-- Read as a `char *` it is its content. -/
theorem Built.cstr (h : Built content str) : str.cstr = ⟨content, h.noNul⟩ := by
  rcases h.eq with rfl | ⟨rfl, rfl⟩
  · apply CStr.ext
    change (content ++ [0]).takeWhile (· ≠ 0) = content
    rw [List.takeWhile_append_of_pos]
    · exact List.append_nil _
    · intro b hb
      exact decide_eq_true fun h0 => h.noNul (h0 ▸ hb)
  · rfl

/-- A `String` with a block is the one made from its content. -/
theorem Built.eq_stringNewFromBytes (h : Built content str) (hne : content ≠ []) :
    str = stringNewFromBytes content := by
  have hlt := h.lt
  rcases h.eq with rfl | ⟨hnil, -⟩
  · rw [stringNewFromBytes, Nat.mod_eq_of_lt (by omega)]
  · exact absurd hnil hne

/-- Appending appends, or, when the content would get too long, does nothing. -/
theorem Built.append (h : Built content str) (hs : strlen s < 2 ^ 16) :
    (content.length + strlen s < 65535 ∧
        ∃ str', stringAppendTo str s = .ok str' ∧ Built (content ++ s.bytes) str') ∨
      65535 ≤ content.length + strlen s ∧ stringAppendTo str s = .ok str := by
  have hint : wrapInt (strlen s) = strlen s := wrapInt_of_lt (by omega)
  have hlt := h.lt
  have hlen := h.len
  have hshort : str.len < 2 ^ 16 := by omega
  rcases stringAppend_cases s hshort with
    ⟨hnot, -⟩ | ⟨-, ⟨hguard, happend⟩ | ⟨hroom, happend⟩⟩
  · exact absurd ⟨by omega, by omega⟩ hnot
  · refine Or.inr ⟨by omega, ?_⟩
    rw [stringAppendTo, happend, ok_bind]
    rfl
  · refine Or.inl ⟨by omega, _, by rw [stringAppendTo, happend, ok_bind], ?_, ?_, Or.inl ?_⟩
    · rw [List.length_append]
      change content.length + strlen s < 65535
      omega
    · rw [List.mem_append]
      exact not_or.mpr ⟨h.noNul, s.noNul⟩
    · rw [h.bytes, hint, Int.toNat_natCast, hlen, List.length_append]
      change String.mk (some (content ++ s.bytes.take s.bytes.length ++ [0])) _ = _
      rw [List.take_length]
      rfl

/-- Appending a character. -/
theorem Built.appendChar (h : Built content str) (hch : ch ≠ 0) :
    (content.length + 1 < 65535 ∧
        ∃ str', stringAppendChar str ch = .ok str' ∧ Built (content ++ [ch]) str') ∨
      65535 ≤ content.length + 1 ∧ stringAppendChar str ch = .ok str := by
  have hone : (CStr.ofBytes [ch]).bytes = [ch] := by
    change [ch].takeWhile (· ≠ 0) = [ch]
    rw [List.takeWhile_cons_of_pos (p := fun b => decide (b ≠ 0)) (decide_eq_true hch)]
    rfl
  have hlen : strlen (.ofBytes [ch]) = 1 := congrArg List.length hone
  have happend := h.append (s := .ofBytes [ch]) (by rw [hlen]; decide)
  rwa [hlen, hone] at happend

end Strings

/-! ## The tokenizer -/

/-- A `String` of characters of a kind. -/
def BuiltOf (kind : UInt8 → Prop) (str : String) : Prop :=
  ∃ content, Built content str ∧ ∀ b ∈ content, kind b

/-- All tokens have letters and digits only, the one that is being built too. -/
def Tokenizer.Clean (t : Tokenizer) : Prop :=
  (∀ str ∈ t.tokens.toList, BuiltOf (isalnum ·) str) ∧ BuiltOf (isalnum ·) t.token

section Tokenize

variable {t t' : Tokenizer} {ch : UInt8} {str str' : String} {content : List UInt8}

theorem isalnum_ne_zero (h : isalnum ch = true) : ch ≠ 0 := by
  rintro rfl
  cases h

/-- A letter or digit is appended to the token, if it does not get too long. -/
theorem BuiltOf.appendChar (h : BuiltOf (isalnum ·) str) (hch : isalnum ch = true)
    (happend : stringAppendChar str ch = .ok str') : BuiltOf (isalnum ·) str' := by
  obtain ⟨content, hbuilt, hkind⟩ := h
  rcases hbuilt.appendChar (isalnum_ne_zero hch) with ⟨-, str₁, hstr₁, hbuilt₁⟩ | ⟨-, hsame⟩
  · obtain rfl := Except.ok.inj (hstr₁.symm.trans happend)
    refine ⟨content ++ [ch], hbuilt₁, ?_⟩
    rw [List.forall_mem_append, List.forall_mem_singleton]
    exact ⟨hkind, hch⟩
  · obtain rfl := Except.ok.inj (hsame.symm.trans happend)
    exact ⟨content, hbuilt, hkind⟩

/-- A token joins the tokens. -/
theorem mem_arrayAppendOf {a a' : Array String} {x : String} (h : arrayAppendOf 24 a x = .ok a')
    (hstr : str ∈ a'.toList) : str ∈ a.toList ∨ str = x := by
  rcases arrayAppendOf_cases 24 a x with ⟨a₁, ha₁, hlist, -⟩ | ⟨⟨stop, hstop⟩, -⟩
  · obtain rfl := Except.ok.inj (ha₁.symm.trans h)
    rwa [hlist, List.mem_append, List.mem_singleton] at hstr
  · cases hstop.symm.trans h

/-- A round of the loop keeps the tokens clean. -/
theorem tokenizeChar_clean (h : t.Clean) (hstep : tokenizeChar t ch = .ok t') : t'.Clean := by
  obtain ⟨htokens, htoken⟩ := h
  have happends : ∀ {a : Array String}, arrayAppendOf 24 t.tokens t.token = .ok a →
      ∀ str ∈ a.toList, BuiltOf (isalnum ·) str := by
    intro a ha str hstr
    rcases mem_arrayAppendOf ha hstr with hold | rfl
    · exact htokens str hold
    · exact htoken
  have hempty : BuiltOf (isalnum ·) stringNew0 :=
    ⟨[], stringNew0_built, fun b hb => absurd hb List.not_mem_nil⟩
  unfold tokenizeChar at hstep
  cases hstate : t.state with
  | start | space =>
    simp only [hstate] at hstep
    split at hstep
    case isTrue hch =>
      obtain ⟨str, hstr, hstep⟩ := bind_eq_ok.mp hstep
      obtain rfl := Except.ok.inj hstep
      exact ⟨htokens, htoken.appendChar hch hstr⟩
    case isFalse =>
      split at hstep
      · obtain rfl := Except.ok.inj hstep
        exact ⟨htokens, htoken⟩
      · split at hstep <;> obtain rfl := Except.ok.inj hstep <;> exact ⟨htokens, htoken⟩
  | char =>
    simp only [hstate] at hstep
    split at hstep
    case isTrue hch =>
      obtain ⟨str, hstr, hstep⟩ := bind_eq_ok.mp hstep
      obtain rfl := Except.ok.inj hstep
      exact ⟨htokens, htoken.appendChar hch hstr⟩
    case isFalse =>
      split at hstep
      · obtain ⟨a, ha, hstep⟩ := bind_eq_ok.mp hstep
        obtain rfl := Except.ok.inj hstep
        exact ⟨happends ha, hempty⟩
      · split at hstep
        · obtain ⟨a, ha, hstep⟩ := bind_eq_ok.mp hstep
          obtain rfl := Except.ok.inj hstep
          exact ⟨happends ha, htoken⟩
        · obtain rfl := Except.ok.inj hstep
          exact ⟨htokens, htoken⟩
  | eof =>
    simp only [hstate] at hstep
    obtain rfl := Except.ok.inj hstep
    exact ⟨htokens, htoken⟩

/-- The tokens of any command have letters and digits only. -/
theorem tokenizeCommand_clean {cmd : CStr} {tokens : Array String}
    (h : tokenizeCommand cmd = .ok tokens) :
    ∀ str ∈ tokens.toList, BuiltOf (isalnum ·) str := by
  obtain ⟨a, ha, h⟩ := bind_eq_ok.mp h
  obtain ⟨t, ht, h⟩ := bind_eq_ok.mp h
  obtain rfl := Except.ok.inj h
  have hnil : a.toList = [] := by
    obtain ⟨b, hb, hnew⟩ : ∃ b : Array String, arrayNewOf 24 16 = .ok b ∧
        Stands 24 (initialCap 16) [] b := arrayNewOf_stands (by decide)
    obtain rfl := Except.ok.inj (hb.symm.trans ha)
    exact hnew.toList
  refine (run_invariant (I := Tokenizer.Clean) (fun t ch t' => tokenizeChar_clean) ?_ ht).1
  refine ⟨?_, [], stringNew0_built, fun b hb => absurd hb List.not_mem_nil⟩
  rw [hnil]
  exact fun str hstr => absurd hstr List.not_mem_nil

/-- The characters of a word are appended to the token. -/
theorem run_tokenizeChar_word {w : List UInt8} {tokens : Array String} {state : TokenizeState}
    (hbuilt : Built content str) (hw : ∀ b ∈ w, isalnum b) (hne : w ≠ [])
    (hlen : content.length + w.length < 65535) (hstate : state = .space ∨ state = .char) :
    ∃ str', run tokenizeChar ⟨tokens, state, str⟩ w = .ok ⟨tokens, .char, str'⟩ ∧
      Built (content ++ w) str' := by
  induction w generalizing content str state with
  | nil => exact absurd rfl hne
  | cons ch w ih =>
    rw [List.forall_mem_cons] at hw
    rw [List.length_cons] at hlen
    rcases hbuilt.appendChar (isalnum_ne_zero hw.1) with ⟨-, str₁, hstr₁, hbuilt₁⟩ | ⟨hfull, -⟩
    · have hround : tokenizeChar ⟨tokens, state, str⟩ ch = .ok ⟨tokens, .char, str₁⟩ := by
        rcases hstate with rfl | rfl
        · simp only [tokenizeChar, if_pos hw.1, hstr₁, ok_bind]
        · simp only [tokenizeChar, if_pos hw.1, hstr₁, ok_bind]
      rw [run_cons, hround, ok_bind]
      by_cases hlast : w = []
      · rw [hlast]
        exact ⟨str₁, rfl, hbuilt₁⟩
      · obtain ⟨str₂, hrun, hbuilt₂⟩ := ih hbuilt₁ hw.2 hlast
          (by rw [List.length_append, List.length_singleton]; omega) (Or.inr rfl)
        refine ⟨str₂, hrun, ?_⟩
        rwa [List.append_assoc, List.singleton_append] at hbuilt₂
    · omega

/-- What the tokenizer asks of a word to keep it whole. -/
def TokenWord (w : List UInt8) : Prop := w ≠ [] ∧ (∀ b ∈ w, isalnum b) ∧ w.length < 65535

/-- The tokens of words with single spaces between them, and the NUL. -/
theorem run_tokenizeChar_words {ws : List (List UInt8)} (hne : ws ≠ [])
    (hws : ∀ w ∈ ws, TokenWord w) (tokens : Array String) :
    (do
      let t ← run tokenizeChar ⟨tokens, .space, stringNew0⟩ ([32].intercalate ws ++ [0])
      Except.ok t.tokens) =
      run (arrayCall 24) tokens ((ws.map stringNewFromBytes).map .append) := by
  induction ws generalizing tokens with
  | nil => exact absurd rfl hne
  | cons w ws ih =>
    rw [List.forall_mem_cons] at hws
    obtain ⟨⟨hwne, hw, hlen⟩, hws⟩ := hws
    obtain ⟨str, hrun, hbuilt⟩ : ∃ str,
        run tokenizeChar ⟨tokens, .space, stringNew0⟩ w = .ok ⟨tokens, .char, str⟩ ∧
          Built ([] ++ w) str :=
      run_tokenizeChar_word stringNew0_built hw hwne (by simpa using hlen) (Or.inl rfl)
    rw [List.nil_append] at hbuilt
    obtain rfl := hbuilt.eq_stringNewFromBytes hwne
    rw [List.map_cons, List.map_cons, run_cons]
    change _ = arrayAppendOf 24 tokens (stringNewFromBytes w) >>= _
    by_cases hlast : ws = []
    · rw [hlast, List.intercalate_singleton, run_append, hrun, ok_bind, run_cons]
      change (tokenizeChar ⟨tokens, .char, stringNewFromBytes w⟩ 0 >>= _) >>= _ = _
      have hround : tokenizeChar ⟨tokens, .char, stringNewFromBytes w⟩ 0 = (do
          let tokens ← arrayAppendOf 24 tokens (stringNewFromBytes w)
          .ok ⟨tokens, .eof, stringNewFromBytes w⟩) := rfl
      rw [hround]
      cases arrayAppendOf 24 tokens (stringNewFromBytes w) <;> rfl
    · rw [List.intercalate_cons_of_ne_nil hlast, List.append_assoc, List.append_assoc, run_append,
        hrun, ok_bind, List.singleton_append, run_cons]
      have hround : tokenizeChar ⟨tokens, .char, stringNewFromBytes w⟩ 32 = (do
          let tokens ← arrayAppendOf 24 tokens (stringNewFromBytes w)
          .ok ⟨tokens, .space, stringNew0⟩) := rfl
      rw [hround]
      cases happend : arrayAppendOf 24 tokens (stringNewFromBytes w) with
      | error e => rfl
      | ok tokens' => exact ih hlast hws tokens'

/-- A command of words of letters and digits is cut into its words. -/
theorem tokenizeCommand_words {ws : List (List UInt8)} {cmd : CStr} (hne : ws ≠ [])
    (hws : ∀ w ∈ ws, TokenWord w) (hcmd : cmd.bytes = [32].intercalate ws)
    (hlen : strlen cmd < 2 ^ 31) :
    tokenizeCommand cmd = runArray 24 16 ((ws.map stringNewFromBytes).map .append) := by
  have hall : (cmd.bytes ++ [0]).take (wrapInt (strlen cmd) + 1).toNat = cmd.bytes ++ [0] := by
    rw [wrapInt_of_lt hlen]
    apply List.take_of_length_le
    rw [List.length_append, List.length_singleton, strlen]
    omega
  unfold tokenizeCommand runArray
  simp only [hall]
  rw [hcmd]
  cases (arrayNewOf 24 16 : Exec (Array String)) with
  | error e => rfl
  | ok tokens => exact run_tokenizeChar_words hne hws tokens

end Tokenize

/-! ## Joining -/

section Join

variable {strs : Array String} {content : List UInt8} {outstr outstr' : String} {n i : ℕ}

/-- The characters of a joined text. -/
def TextChar (b : UInt8) : Prop := isalnum b = true ∨ b = 32

/-- Appending characters of a kind. -/
theorem BuiltOf.append {kind : UInt8 → Prop} {s : CStr} (h : BuiltOf kind outstr)
    (hs : strlen s < 2 ^ 16) (hkind : ∀ b ∈ s.bytes, kind b)
    (happend : stringAppendTo outstr s = .ok outstr') : BuiltOf kind outstr' := by
  obtain ⟨content, hbuilt, hcontent⟩ := h
  rcases hbuilt.append hs with ⟨-, str, hstr, hbuilt'⟩ | ⟨-, hsame⟩
  · obtain rfl := Except.ok.inj (hstr.symm.trans happend)
    exact ⟨content ++ s.bytes, hbuilt', List.forall_mem_append.mpr ⟨hcontent, hkind⟩⟩
  · obtain rfl := Except.ok.inj (hsame.symm.trans happend)
    exact ⟨content, hbuilt, hcontent⟩

/-- Tokens that are joined make a text of letters, digits and spaces. -/
theorem arrayJoinFrom_builtOf (hstrs : ∀ str ∈ strs.toList, BuiltOf (isalnum ·) str)
    (h : BuiltOf TextChar outstr) (hjoin : arrayJoinFrom strs n i outstr = .ok outstr') :
    BuiltOf TextChar outstr' := by
  induction n generalizing i outstr with
  | zero => exact Except.ok.inj hjoin ▸ h
  | succ n ih =>
    obtain ⟨str, hitem, hbody⟩ := bind_eq_ok.mp hjoin
    obtain ⟨out₁, hout₁, htail⟩ := bind_eq_ok.mp hbody
    obtain ⟨out₂, hout₂, hrest⟩ := bind_eq_ok.mp htail
    have hi : i < strs.toList.length := by
      rw [Array.length_toList]
      by_contra hge
      rw [arrayItem, if_neg hge] at hitem
      cases hitem
    rw [arrayItem_eq hi] at hitem
    obtain rfl := Except.ok.inj hitem
    obtain ⟨content, hbuilt, hkind⟩ := hstrs _ (List.getElem_mem hi)
    have hlt := hbuilt.lt
    rw [hbuilt.cstr] at hout₁
    have h₁ : BuiltOf TextChar out₁ :=
      h.append (s := ⟨content, hbuilt.noNul⟩) (lt_trans hlt (by decide))
        (fun b hb => Or.inl (hkind b hb)) hout₁
    refine ih ?_ hrest
    split at hout₂
    · have hspace : (CStr.const [' ']).bytes = [32] := by decide
      refine h₁.append (s := .const [' ']) (by rw [strlen, hspace]; decide) ?_ hout₂
      rw [hspace, List.forall_mem_singleton]
      exact Or.inr rfl
    · exact Except.ok.inj hout₂ ▸ h₁

/-- The parts of a joined list occur in it. -/
theorem isInfix_intercalate {α : Type*} (sep : List α) {ws : List (List α)} {w : List α}
    (hw : w ∈ ws) : w <:+: sep.intercalate ws := by
  induction ws with
  | nil => cases hw
  | cons v ws ih =>
    by_cases hlast : ws = []
    · rw [hlast, List.mem_singleton] at hw
      rw [hlast, List.intercalate_singleton, hw]
    · rw [List.intercalate_cons_of_ne_nil hlast]
      rcases List.mem_cons.mp hw with rfl | hw
      · exact ⟨[], sep ++ sep.intercalate ws, by rw [List.nil_append, List.append_assoc]⟩
      · exact (ih hw).trans (List.suffix_append _ _).isInfix

/-- Words that are not too long together are joined with single spaces. -/
theorem arrayJoinFrom_words {ws : List (List UInt8)} (hws : ∀ w ∈ ws, TokenWord w)
    (hstrs : strs.toList.drop i = ws.map stringNewFromBytes) (h : Built content outstr)
    (hlen : content.length + ([32].intercalate ws).length < 65535) :
    ∃ outstr', arrayJoinFrom strs ws.length i outstr = .ok outstr' ∧
      Built (content ++ [32].intercalate ws) outstr' := by
  induction ws generalizing i content outstr with
  | nil =>
    refine ⟨outstr, rfl, ?_⟩
    rwa [List.intercalate_nil, List.append_nil]
  | cons w ws ih =>
    rw [List.forall_mem_cons] at hws
    obtain ⟨⟨-, hw, hwlen⟩, hws⟩ := hws
    have hi : i < strs.toList.length := by
      by_contra hge
      rw [List.drop_eq_nil_of_le (not_lt.mp hge)] at hstrs
      cases hstrs
    rw [List.drop_eq_getElem_cons hi, List.map_cons, List.cons.injEq] at hstrs
    have hcstr : (stringNewFromBytes w).cstr.bytes = w := by
      rw [String.stringNewFromBytes_cstr]
      apply List.takeWhile_eq_self_iff.mpr
      intro b hb
      exact decide_eq_true (isalnum_ne_zero (hw b hb))
    have hslen : strlen (stringNewFromBytes w).cstr = w.length := congrArg List.length hcstr
    have hwle := (isInfix_intercalate [32] (List.mem_cons_self (a := w) (l := ws))).length_le
    rw [List.length_cons, arrayJoinFrom, arrayItem_eq hi, ok_bind, hstrs.1]
    rcases h.append (s := (stringNewFromBytes w).cstr) (by omega) with
      ⟨-, out₁, hout₁, hbuilt₁⟩ | ⟨hfull, -⟩
    case inr => omega
    rw [hcstr] at hbuilt₁
    rw [hout₁, ok_bind]
    by_cases hlast : ws = []
    · rw [hlast, List.intercalate_singleton]
      exact ⟨out₁, rfl, hbuilt₁⟩
    · rw [List.intercalate_cons_of_ne_nil hlast, List.length_append, List.length_append,
        List.length_singleton] at hlen
      have hspace : (CStr.const [' ']).bytes = [32] := by decide
      have hone : strlen (.const [' ']) = 1 := congrArg List.length hspace
      rcases hbuilt₁.append (s := .const [' ']) (by omega) with
        ⟨-, out₂, hout₂, hbuilt₂⟩ | ⟨hfull, -⟩
      case inr =>
        rw [List.length_append] at hfull
        omega
      rw [hspace] at hbuilt₂
      rw [if_pos (List.length_pos_iff.mpr hlast), hout₂, ok_bind]
      obtain ⟨out₃, hout₃, hbuilt₃⟩ := ih hws hstrs.2 hbuilt₂
        (by simp only [List.length_append, List.length_singleton]; omega)
      refine ⟨out₃, hout₃, ?_⟩
      rw [List.intercalate_cons_of_ne_nil hlast]
      simpa only [List.append_assoc] using hbuilt₃

end Join

/-! ## The commands -/

section Execute

variable {p : Peers} {env : SendEnv} {fds : Finset ℕ} {tokens : Array String}

/-- The end of a `send` looks up its alias and sends its text. -/
theorem executeSend_spec (p : Peers) (env : SendEnv) (fds : Finset ℕ) (sendalias chattext : CStr) :
    ∃ sent, executeSend p env fds sendalias chattext = .ok (0, .chat sendalias chattext sent) ∧
      SentTo p env fds sendalias chattext sent := by
  unfold executeSend SentTo
  rw [findPeerAlias_eq, ok_bind]
  cases hfound : p.byAlias sendalias with
  | none => exact ⟨none, rfl, rfl⟩
  | some q =>
    obtain ⟨transfer, htransfer, -⟩ := connectAndSendMsg_chat env fds chattext
    have hmem : q ∈ p.records := (lookup_some hfound).1
    obtain ⟨peer, hpeer⟩ : ∃ peer, p.atHandle q.hpeer = some peer := by
      apply Option.ne_none_iff_exists'.mp
      exact fun hnone => lookup_eq_none_iff.mp hnone q hmem rfl
    refine ⟨some (peer.toaddr, transfer), ?_, peer, transfer, hpeer, htransfer, rfl⟩
    simp only [Option.map_some, getPeerData_eq, ok_bind, htransfer, hpeer, Option.getD_some]

/-- The alias of a state is clean. -/
def ExecState.Clean : ExecState → Prop
  | .sendalias token => BuiltOf (isalnum ·) token
  | _ => True

/-- The alias that is looked up has letters and digits only, and the text that is sent letters,
digits and spaces. -/
theorem executeFrom_chat {n i : ℕ} {state : ExecState} {ret : ℤ} {sendalias chattext : CStr}
    {sent : Option (HostAddr × Transfer)} (hstate : state.Clean)
    (htokens : ∀ str ∈ tokens.toList, BuiltOf (isalnum ·) str)
    (h : executeFrom p env fds tokens n i state = .ok (ret, .chat sendalias chattext sent)) :
    ((∀ b ∈ sendalias.bytes, isalnum b) ∧ strlen sendalias < 65535) ∧
      (∀ b ∈ chattext.bytes, TextChar b) ∧ strlen chattext < 65535 := by
  have hcstr : ∀ {kind : UInt8 → Prop} {str : String}, BuiltOf kind str →
      (∀ b ∈ str.cstr.bytes, kind b) ∧ strlen str.cstr < 65535 := by
    rintro kind str ⟨content, hbuilt, hkind⟩
    rw [hbuilt.cstr]
    exact ⟨hkind, hbuilt.lt⟩
  induction n generalizing i state with
  | zero => cases h
  | succ n ih =>
    obtain ⟨token, htoken, hbody⟩ := bind_eq_ok.mp h
    cases state with
    | start =>
      have hsend : ExecState.Clean .send := trivial
      have hstart : ExecState.Clean .start := trivial
      simp only at hbody
      split at hbody
      · cases hbody
      · split at hbody
        · cases hbody
        · split at hbody
          · cases hbody
          · split at hbody
            · cases hbody
            · split at hbody
              · exact ih hsend hbody
              · exact ih hstart hbody
    | send =>
      have hi : i < tokens.toList.length := by
        rw [Array.length_toList]
        by_contra hge
        rw [arrayItem, if_neg hge] at htoken
        cases htoken
      rw [arrayItem_eq hi] at htoken
      have hclean : ExecState.Clean (.sendalias token) := by
        rw [← Except.ok.inj htoken]
        exact htokens _ (List.getElem_mem hi)
      exact ih hclean hbody
    | sendalias alias₀ =>
      obtain ⟨joined, hjoin, hsend⟩ := bind_eq_ok.mp hbody
      have hnew : BuiltOf TextChar (stringNew .empty) :=
        ⟨[], ⟨by decide, List.not_mem_nil, Or.inl rfl⟩, fun b hb => absurd hb List.not_mem_nil⟩
      have htext : BuiltOf TextChar joined := arrayJoinFrom_builtOf htokens hnew hjoin
      split at hsend
      · cases hsend
      · obtain ⟨sent', hsend', -⟩ := executeSend_spec p env fds alias₀.cstr joined.cstr
        rw [hsend'] at hsend
        cases hsend
        exact ⟨hcstr hstate, hcstr htext⟩

/-- `StringEquals` of a token. -/
theorem stringEquals_token {w : List UInt8} {s : CStr} (hw : w.length < 2 ^ 16)
    (hs : strlen s < 2 ^ 31) :
    stringEquals (stringNewFromBytes w) s = decide (w = s.bytes) := by
  have hbytes := String.stringNewFromBytes_bytes hw
  have hiff : stringEquals (stringNewFromBytes w) s = true ↔
      (stringNewFromBytes w).bytes = s.bytes :=
    stringEquals_iff (by rw [hbytes]; exact (Nat.mod_eq_of_lt hw).symm) hs
  rw [hbytes] at hiff
  rw [Bool.eq_iff_iff, hiff, decide_eq_true_iff]

/-- Joining up to the last item. -/
theorem arrayJoinStrings_last (strs : Array String) (istart : ℕ) :
    arrayJoinStrings strs istart (strs.len - 1) =
      arrayJoinFrom strs (strs.len - istart) istart (stringNew .empty) := by
  have hcount : ((strs.len : ℤ) - 1 - istart + 1).toNat = strs.len - istart := by omega
  unfold arrayJoinStrings
  simp only [gt_iff_lt, lt_self_iff_false, if_false, hcount]

/-- A `send` whose tokens are its words looks up the alias and sends the words. -/
theorem executeFrom_send {aliasStr text : CStr} {words : List (List UInt8)} (hwords : words ≠ [])
    (hword : ∀ w ∈ words, TokenWord w)
    (htext : text.bytes = [32].intercalate words) (hlen : strlen text < 65535)
    (htokens : tokens.toList =
      ([115, 101, 110, 100] :: aliasStr.bytes :: words).map stringNewFromBytes) :
    ∃ sent, executeFrom p env fds tokens tokens.len 0 .start =
        .ok (0, .chat aliasStr text sent) ∧ SentTo p env fds aliasStr text sent := by
  have hsize : tokens.len = words.length + 2 := by
    rw [← Array.length_toList, htokens, List.length_map]
    rfl
  have hitem : ∀ i (w : List UInt8),
      ([115, 101, 110, 100] :: aliasStr.bytes :: words)[i]? = some w →
        arrayItem tokens i = .ok (stringNewFromBytes w) := by
    intro i w hw
    have hget : tokens.toList[i]? = some (stringNewFromBytes w) := by
      rw [htokens, List.getElem?_map, hw]
      rfl
    obtain ⟨hi, heq⟩ := List.getElem?_eq_some_iff.mp hget
    rw [arrayItem_eq hi, heq]
  -- the first token is none of the other commands
  have hequals : ∀ s : CStr, strlen s < 2 ^ 31 →
      stringEquals (stringNewFromBytes [115, 101, 110, 100]) s =
        decide ([115, 101, 110, 100] = s.bytes) :=
    fun s hs => stringEquals_token (by decide) hs
  have hquit := (hequals (.const ['q', 'u', 'i', 't']) (by decide)).trans (by decide : _ = false)
  have hbye := (hequals (.const ['b', 'y', 'e']) (by decide)).trans (by decide : _ = false)
  have hknock := (hequals (.const ['k', 'n', 'o', 'c', 'k']) (by decide)).trans
    (by decide : _ = false)
  have hpeers := (hequals (.const ['p', 'e', 'e', 'r', 's']) (by decide)).trans
    (by decide : _ = false)
  have hchats := (hequals (.const ['c', 'h', 'a', 't', 's']) (by decide)).trans
    (by decide : _ = false)
  have hsend := (hequals (.const ['s', 'e', 'n', 'd']) (by decide)).trans (by decide : _ = true)
  -- the text is what the rest of the tokens is joined to
  have hrest : tokens.toList.drop 2 = words.map stringNewFromBytes := by rw [htokens]; rfl
  have hnew : Built [] (stringNew .empty) := ⟨by decide, List.not_mem_nil, Or.inl rfl⟩
  obtain ⟨joined, hjoin, hbuilt⟩ := arrayJoinFrom_words hword hrest hnew
    (by rw [← htext, List.length_nil, Nat.zero_add]; exact hlen)
  rw [List.nil_append, ← htext] at hbuilt
  have hjoined : arrayJoinStrings tokens 2 (tokens.len - 1) = .ok joined := by
    rw [arrayJoinStrings_last, hsize, Nat.add_sub_cancel, hjoin]
  have hcstrs : (stringNewFromBytes aliasStr.bytes).cstr = aliasStr ∧ joined.cstr = text := by
    rw [String.stringNewFromBytes_cstr, CStr.ofBytes_bytes, hbuilt.cstr]
    exact ⟨rfl, rfl⟩
  obtain ⟨w, ws, hcons⟩ := List.exists_cons_of_ne_nil hwords
  have hw : words[0]? = some w := by rw [hcons]; rfl
  have hk : words.length = ws.length + 1 := by rw [hcons]; rfl
  have hnonempty : joined.len ≠ 0 := by
    rw [hbuilt.len, htext, hcons]
    intro hnil
    have hle := (isInfix_intercalate [32] (List.mem_cons_self (a := w) (l := ws))).length_le
    exact (hword w (hcons ▸ List.mem_cons_self)).1 (List.length_eq_zero_iff.mp (by omega))
  obtain ⟨sent, hdone, hsent⟩ := executeSend_spec p env fds aliasStr text
  refine ⟨sent, ?_, hsent⟩
  rw [hsize, hk]
  -- the rounds for the command, for the alias and for the first word of the text
  rw [executeFrom, hitem 0 _ rfl, ok_bind]
  simp only [hquit, hbye, hknock, hpeers, hchats, hsend, Bool.false_eq_true, or_self, if_false,
    if_true]
  rw [executeFrom, hitem 1 _ rfl, ok_bind]
  simp only
  rw [executeFrom, hitem 2 _ hw, ok_bind]
  simp only [hjoined, ok_bind, if_neg hnonempty, hcstrs.1, hcstrs.2, hdone]

end Execute

/-! ## The theorem -/

section SendsTyped

variable {aliasStr text : CStr} {words : List (List UInt8)}

/-- The words of the command. -/
theorem sendCommand_bytes (hwords : words ≠ []) (htext : text.bytes = [32].intercalate words) :
    (sendCommand aliasStr text).bytes =
      [32].intercalate ([115, 101, 110, 100] :: aliasStr.bytes :: words) := by
  have hsend : (CStr.const ['s', 'e', 'n', 'd', ' ']).bytes = [115, 101, 110, 100] ++ [32] := by
    decide
  have hspace : (CStr.const [' ']).bytes = [32] := by decide
  rw [List.intercalate_cons_cons, List.intercalate_cons_of_ne_nil hwords, ← htext]
  change (CStr.const ['s', 'e', 'n', 'd', ' ']).bytes ++
    (aliasStr.bytes ++ ((CStr.const [' ']).bytes ++ text.bytes)) = _
  rw [hsend, hspace]
  simp only [List.append_assoc]

/-- The array of tokens has room for 32768. -/
theorem room_tokens_iff {n : ℕ} : Room (ArrayCap 24) (initialCap 16) n ↔ n ≤ 32768 := by
  have hcap : initialCap 16 = 16 := by decide
  rw [hcap]
  constructor
  · rintro ⟨k, hn, hlt, -⟩
    have hk : k ≤ 11 := by
      by_contra hgt
      have hpow : 2 ^ 12 ≤ 2 ^ k := Nat.pow_le_pow_right (by decide) (by omega)
      omega
    have hpow : 2 ^ k ≤ 2 ^ 11 := Nat.pow_le_pow_right (by decide) hk
    omega
  · intro hn
    exact ⟨11, hn, by decide, by decide⟩

/-- What is looked up and sent consists of letters and digits. -/
theorem SendsTyped.chars (h : SendsTyped aliasStr text) :
    ((∀ b ∈ aliasStr.bytes, isalnum b) ∧ strlen aliasStr < 65535) ∧
      (∀ b ∈ text.bytes, TextChar b) ∧ strlen text < 65535 := by
  obtain ⟨sent, hdone, -⟩ := h peersInit (sendEnvOk 0) ∅
  obtain ⟨tokens, htokens, hexec⟩ := bind_eq_ok.mp hdone
  have hstart : ExecState.Clean .start := trivial
  exact executeFrom_chat hstart (tokenizeCommand_clean htokens) hexec

/-- The `send` command sends what was typed exactly when the alias and the words of the text have
letters and digits only, `StringAppend` takes them whole, and the array of tokens has room for the
words. -/
theorem send_typed_iff (aliasStr text : CStr) (words : List (List UInt8))
    (halias : IsWord aliasStr.bytes) (hwords : words ≠ []) (hword : ∀ w ∈ words, IsWord w)
    (htext : text.bytes = [32].intercalate words) (haliasLen : strlen aliasStr < 2 ^ 16)
    (htextLen : strlen text < 2 ^ 16) :
    SendsTyped aliasStr text ↔
      ((∀ b ∈ aliasStr.bytes, isalnum b) ∧ ∀ w ∈ words, ∀ b ∈ w, isalnum b) ∧
        strlen aliasStr < 65535 ∧ strlen text < 65535 ∧ words.length ≤ 32766 := by
  -- letters and digits that are short enough are the tokens
  have htokens : (∀ b ∈ aliasStr.bytes, isalnum b) → (∀ w ∈ words, ∀ b ∈ w, isalnum b) →
      strlen aliasStr < 65535 → strlen text < 65535 →
      (∀ w ∈ [115, 101, 110, 100] :: aliasStr.bytes :: words, TokenWord w) ∧
        tokenizeCommand (sendCommand aliasStr text) =
          runArray 24 16 ((([115, 101, 110, 100] :: aliasStr.bytes :: words).map
            stringNewFromBytes).map .append) := by
    intro ha hw halt htlt
    have hsplit : ∀ w ∈ [115, 101, 110, 100] :: aliasStr.bytes :: words, TokenWord w := by
      rw [List.forall_mem_cons, List.forall_mem_cons]
      refine ⟨⟨List.cons_ne_nil _ _, List.all_eq_true.mp rfl, by decide⟩, ⟨halias.1, ha, halt⟩,
        fun w hmem => ?_⟩
      refine ⟨(hword w hmem).1, hw w hmem, ?_⟩
      refine lt_of_le_of_lt ?_ htlt
      rw [strlen, htext]
      exact (isInfix_intercalate [32] hmem).length_le
    refine ⟨hsplit, tokenizeCommand_words (List.cons_ne_nil _ _) hsplit
      (sendCommand_bytes hwords htext) ?_⟩
    have hconst : strlen (.const ['s', 'e', 'n', 'd', ' ']) = 5 ∧ strlen (.const [' ']) = 1 := by
      decide
    rw [sendCommand, strlen_append, strlen_append, strlen_append, hconst.1, hconst.2]
    omega
  constructor
  · intro h
    obtain ⟨⟨ha, halt⟩, htchar, htlt⟩ := h.chars
    have hw : ∀ w ∈ words, ∀ b ∈ w, isalnum b := by
      intro w hmem b hb
      refine (htchar b (htext ▸ (isInfix_intercalate [32] hmem).subset hb)).resolve_right ?_
      rintro rfl
      exact absurd ((hword w hmem).2 32 hb).1 (by decide)
    obtain ⟨sent, hdone, -⟩ := h peersInit (sendEnvOk 0) ∅
    obtain ⟨tokens, htoken, -⟩ := bind_eq_ok.mp hdone
    rw [(htokens ha hw halt htlt).2] at htoken
    have hroom := (runArray_stands htoken).room
    rw [room_tokens_iff, listAfter_map_append, List.length_map, List.length_cons,
      List.length_cons] at hroom
    exact ⟨⟨ha, hw⟩, halt, htlt, by omega⟩
  · rintro ⟨⟨ha, hw⟩, halt, htlt, hcount⟩ p env fds
    obtain ⟨hsplit, htoken⟩ := htokens ha hw halt htlt
    obtain ⟨tokens, hrun, -, hlist⟩ := (array_refines_list_iff 24 16
      ((([115, 101, 110, 100] :: aliasStr.bytes :: words).map stringNewFromBytes).map
        .append)).mpr (by
      intro fs hfs
      obtain ⟨l, hl, rfl⟩ := List.prefix_map_iff.mp hfs
      rw [room_tokens_iff, listAfter_map_append]
      have hle := hl.length_le
      rw [List.length_map, List.length_cons, List.length_cons] at hle
      omega)
    rw [listAfter_map_append] at hlist
    rw [List.forall_mem_cons, List.forall_mem_cons] at hsplit
    obtain ⟨sent, hdone, hsent⟩ :=
      executeFrom_send (p := p) hwords hsplit.2.2 htext htlt hlist
    refine ⟨sent, ?_, hsent⟩
    rw [executeCommand, htoken, hrun, ok_bind, hdone]

/-- Two words to `bob`. -/
theorem send_typed_two_words :
    SendsTyped (.const ['b', 'o', 'b']) (.const ['h', 'i', ' ', 'y', 'o', 'u']) := by
  have halias : (CStr.const ['b', 'o', 'b']).bytes = [98, 111, 98] := by decide
  have htext : (CStr.const ['h', 'i', ' ', 'y', 'o', 'u']).bytes =
      [32].intercalate [[104, 105], [121, 111, 117]] := by decide
  have hword : ∀ w : List UInt8, w ≠ [] → (w.all fun b => 33 ≤ b ∧ b ≤ 126) → IsWord w :=
    fun w hne hall => ⟨hne, fun b hb => of_decide_eq_true (List.all_eq_true.mp hall b hb)⟩
  refine (send_typed_iff _ _ [[104, 105], [121, 111, 117]] ?_ (List.cons_ne_nil _ _) ?_ htext
    (by decide) (by decide)).mpr ⟨⟨?_, ?_⟩, by decide, by decide, by decide⟩
  · rw [halias]
    exact hword _ (List.cons_ne_nil _ _) rfl
  · rw [List.forall_mem_cons, List.forall_mem_singleton]
    exact ⟨hword _ (List.cons_ne_nil _ _) rfl, hword _ (List.cons_ne_nil _ _) rfl⟩
  · rw [halias]
    exact List.all_eq_true.mp rfl
  · rw [List.forall_mem_cons, List.forall_mem_singleton]
    exact ⟨List.all_eq_true.mp rfl, List.all_eq_true.mp rfl⟩

/-- The exclamation mark of `send bob hi!` is dropped. -/
theorem send_drops_punctuation :
    ((tokenizeCommand (sendCommand (.const ['b', 'o', 'b']) (.const ['h', 'i', '!']))).toOption.map
        fun tokens => tokens.toList.map String.bytes) =
      some [[115, 101, 110, 100], [98, 111, 98], [104, 105]] ∧
    ¬ SendsTyped (.const ['b', 'o', 'b']) (.const ['h', 'i', '!']) := by
  refine ⟨by decide, fun h => ?_⟩
  have hmark : (33 : UInt8) ∈ (CStr.const ['h', 'i', '!']).bytes := by decide
  rcases h.chars.2.1 33 hmark with halnum | hspace
  · cases halnum
  · cases hspace

end SendsTyped

end TinyMsg
