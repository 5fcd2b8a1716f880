import TinyMsg.Client.ChatText

/-!
# The descriptors that `ConnectAndSendMsg` leaves open

`OpenTcpConnectSocket` opens one descriptor.  Whatever `connect()`, `select()` and `getsockopt()`
answer, it is returned or closed again.  When `setsockopt()` or `bind()` fails it is neither, so
every message that finds the send port taken leaves one more descriptor open.
-/

namespace TinyMsg

/-- `socket()` hands out a descriptor that is not open. -/
def ConnectEnv.FreshSocket (env : ConnectEnv) (fds : Finset ℕ) : Prop :=
  ∀ fd, env.socket = some fd → fd ∉ fds

/-- One descriptor is opened and returned, or none is and none is left open. -/
def OpensCleanly (env : ConnectEnv) (fds : Finset ℕ) : Prop :=
  (∃ fd, fd ∉ fds ∧ openTcpConnectSocket env fds = (some fd, insert fd fds)) ∨
    openTcpConnectSocket env fds = (none, fds)

/-- Connecting opens at most the descriptor returned, and sending leaves open what was open. -/
structure NoLeak (env : SendEnv) (fds : Finset ℕ) : Prop where
  /-- `OpenTcpConnectSocket` -/
  connect : OpensCleanly env.connect fds
  /-- `ConnectAndSendMsg`, whatever the message is. -/
  send : ∀ fmt args t, connectAndSendMsg env fds fmt args = .ok t → t.fds = fds

/-- The two calls between `socket()` and `connect()` come back well. -/
def ConnectEnv.Bound (env : ConnectEnv) : Prop := env.setsockopt = true ∧ env.bind = true

instance (env : ConnectEnv) : Decidable env.Bound :=
  inferInstanceAs (Decidable (env.setsockopt = true ∧ env.bind = true))

section Connect

variable {env : ConnectEnv} {fd : ℕ} {fds : Finset ℕ}

/-- Without a descriptor there is nothing to close. -/
theorem openTcpConnectSocket_none (h : env.socket = none) (fds : Finset ℕ) :
    openTcpConnectSocket env fds = (none, fds) := by
  simp only [openTcpConnectSocket, h]

/-- A socket that was set up and bound is returned, or closed again. -/
theorem openTcpConnectSocket_bound (h : env.socket = some fd) (hbound : env.Bound)
    (fds : Finset ℕ) :
    openTcpConnectSocket env fds = (some fd, insert fd fds) ∨
      openTcpConnectSocket env fds = (none, (insert fd fds).erase fd) := by
  obtain ⟨hset, hbind⟩ := hbound
  unfold openTcpConnectSocket
  simp only [h, hset, hbind, Bool.not_true, Bool.false_eq_true, if_false]
  cases env.connect with
  | connected => exact Or.inl rfl
  | error => exact Or.inr rfl
  | inProgress =>
    dsimp only
    split
    · exact Or.inr rfl
    · split
      · exact Or.inl rfl
      · exact Or.inr rfl

/-- A socket that could not be set up or bound is neither returned nor closed. -/
theorem openTcpConnectSocket_unbound (h : env.socket = some fd) (hbound : ¬ env.Bound)
    (fds : Finset ℕ) :
    openTcpConnectSocket env fds = (none, insert fd fds) := by
  unfold openTcpConnectSocket
  simp only [h]
  split
  case isTrue => rfl
  case isFalse hset =>
    split
    case isTrue => rfl
    case isFalse hbind =>
      rw [Bool.not_eq_true', Bool.not_eq_false] at hset hbind
      exact absurd ⟨hset, hbind⟩ hbound

/-- A descriptor that was not open makes a difference. -/
theorem insert_ne_of_notMem (h : fd ∉ fds) : insert fd fds ≠ fds := by
  intro heq
  exact h (heq ▸ Finset.mem_insert_self fd fds)

/-- A clean connection leaves open what was open once its descriptor is closed. -/
theorem connectAndSendMsg_fds {env : SendEnv} {fmt : List UInt8} {args : List Arg} {t : Transfer}
    (hconn : OpensCleanly env.connect fds) (h : connectAndSendMsg env fds fmt args = .ok t) :
    t.fds = fds := by
  rcases hconn with ⟨fd, hnew, hconn⟩ | hconn
  · rw [connectAndSendMsg, hconn] at h
    obtain ⟨s, -, heq⟩ := bind_eq_ok.mp h
    obtain rfl := Except.ok.inj heq
    exact Finset.erase_insert hnew
  · rw [connectAndSendMsg_failed hconn] at h
    obtain rfl := Except.ok.inj h
    rfl

end Connect

/-- No descriptor stays open behind a message exactly when there was none to be had, or
`setsockopt()` and `bind()` came back well. -/
theorem no_leak_iff (env : SendEnv) (fds : Finset ℕ) (hnew : env.connect.FreshSocket fds) :
    NoLeak env fds ↔ env.connect.socket = none ∨ env.connect.Bound := by
  constructor
  · intro h
    by_contra hnot
    obtain ⟨hsome, hbound⟩ := not_or.mp hnot
    obtain ⟨fd, hfd⟩ := Option.ne_none_iff_exists'.mp hsome
    have hopen := openTcpConnectSocket_unbound hfd hbound fds
    have hleft := h.send Fmt.chattext [] _ (connectAndSendMsg_failed hopen)
    exact insert_ne_of_notMem (hnew fd hfd) hleft
  · intro h
    have hconn : OpensCleanly env.connect fds := by
      cases hfd : env.connect.socket with
      | none => exact Or.inr (openTcpConnectSocket_none hfd fds)
      | some fd =>
        have hfresh := hnew fd hfd
        have hbound := h.resolve_left (by rw [hfd]; exact Option.some_ne_none fd)
        rcases openTcpConnectSocket_bound hfd hbound fds with hopen | hclosed
        · exact Or.inl ⟨fd, hfresh, hopen⟩
        · rw [Finset.erase_insert hfresh] at hclosed
          exact Or.inr hclosed
    exact ⟨hconn, fun fmt args t ht => connectAndSendMsg_fds hconn ht⟩

/-- A refused connection is closed again. -/
theorem no_leak_of_refused :
    NoLeak ⟨⟨some 3, true, true, .error, [], none⟩, [], []⟩ {0, 1, 2} ↔
      (some 3 : Option ℕ) = none ∨
        ConnectEnv.Bound ⟨some 3, true, true, .error, [], none⟩ :=
  no_leak_iff ⟨⟨some 3, true, true, .error, [], none⟩, [], []⟩ {0, 1, 2} (by
    intro fd hfd
    obtain rfl := Option.some.inj hfd
    decide)

/-- When the send port is taken, `bind()` fails and the new descriptor stays open. -/
theorem busy_send_port_leaks :
    openTcpConnectSocket ⟨some 3, true, false, .connected, [], none⟩ {0, 1, 2} =
        (none, {0, 1, 2, 3}) ∧
      ¬ NoLeak ⟨⟨some 3, true, false, .connected, [], none⟩, [], []⟩ {0, 1, 2} := by
  have hopen : openTcpConnectSocket ⟨some 3, true, false, .connected, [], none⟩ {0, 1, 2} =
      (none, {0, 1, 2, 3}) := by decide
  refine ⟨hopen, fun h => ?_⟩
  have hleft := h.send Fmt.chattext [] _ (connectAndSendMsg_failed hopen)
  exact absurd hleft (by decide)

end TinyMsg
