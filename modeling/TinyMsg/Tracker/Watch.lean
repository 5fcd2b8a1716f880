import TinyMsg.Tracker.Net

/-!
# The descriptors that the tracker watches

The part of the tracker's state that decides which sockets `select()` reports: of each context its
descriptor, its addresses and the number of bytes that wait in its `writebuf` (a `Link`), and the
descriptor sets (`Watch`).  A context whose `toaddr` is `0` belongs to an accepted connection and
only receives; the others only send.

`WatchStep` lists what the tracker does to this state, apart from one thing: in its write branch it
stops watching the socket of a context whose `writebuf` has become empty, or for which `send()`
has failed, and keeps the context (`Watch.drain`).  All of it preserves `Watch.WF`.  That the
sending contexts are watched for writing (`Watch.SendersWatched`) is preserved by every
`WatchStep`, and lost with a `drain`.
-/

namespace TinyMsg

/-- A context as far as `select()` is concerned. -/
structure Link where
  /-- `fd` -/
  fd : ℕ
  /-- `fromaddr` -/
  fromaddr : HostAddr
  /-- `toaddr` -/
  toaddr : HostAddr
  /-- `writebuf.len` -/
  pending : ℕ
  /-- `shut_rd` -/
  shutRd : Bool
  deriving DecidableEq

/-- The descriptors and what they belong to. -/
structure Watch where
  /-- The contexts. -/
  links : List Link
  /-- `readfds` -/
  readfds : Finset ℕ
  /-- `writefds` -/
  writefds : Finset ℕ
  /-- `maxfd` -/
  maxfd : ℕ
  /-- The open descriptors. -/
  fds : Finset ℕ
  /-- `listenfd` -/
  listenfd : ℕ

namespace Watch

/-! ## What happens to descriptors -/

/-- A connection is accepted. -/
def accept (w : Watch) (fd : ℕ) (fromaddr : HostAddr) : Watch :=
  { w with
    links := w.links ++ [⟨fd, fromaddr, 0, 0, false⟩]
    readfds := insert fd w.readfds
    maxfd := max w.maxfd fd
    fds := insert fd w.fds }

/-- A connection is made for a message of which `pending` bytes could not be sent at once. -/
def connect (w : Watch) (fd : ℕ) (toaddr : HostAddr) (pending : ℕ) : Watch :=
  { w with
    links := w.links ++ [⟨fd, 0, toaddr, pending, false⟩]
    writefds := insert fd w.writefds
    maxfd := max w.maxfd fd
    fds := insert fd w.fds }

/-- The number of bytes that wait at a descriptor changes. -/
def setPending (w : Watch) (fd pending : ℕ) : Watch :=
  { w with links := w.links.map fun c => if c.fd = fd then { c with pending := pending } else c }

/-- Bytes are sent, and some are left. -/
def flush (w : Watch) (fd pending : ℕ) : Watch :=
  { w.setPending fd pending with
    writefds := insert fd w.writefds
    maxfd := max w.maxfd fd }

/-- No bytes are left, or they have been given up; the context stays. -/
def drain (w : Watch) (fd : ℕ) : Watch :=
  { w.setPending fd 0 with writefds := w.writefds.erase fd }

/-- A connection is closed. -/
def close (w : Watch) (fd : ℕ) : Watch :=
  { w with
    links := w.links.filter fun c => c.fd ≠ fd
    readfds := w.readfds.erase fd
    fds := w.fds.erase fd }

end Watch

/-- What the tracker does to its descriptors while no `writebuf` becomes empty. -/
inductive WatchStep (w : Watch) : Watch → Prop
  /-- A connection is accepted. -/
  | accept {fd : ℕ} {fromaddr : HostAddr} (hnew : fd ∉ w.fds) (hlt : fd < fdSetSize)
    (haddr : hostAddrAddr fromaddr ≠ 0) : WatchStep w (w.accept fd fromaddr)
  /-- A connection is made to an address that has none. -/
  | connect {fd : ℕ} {toaddr : HostAddr} {pending : ℕ} (hnew : fd ∉ w.fds) (hlt : fd < fdSetSize)
    (haddr : toaddr ≠ 0) (hfresh : ∀ c ∈ w.links, c.toaddr ≠ toaddr) (hpending : 0 < pending) :
    WatchStep w (w.connect fd toaddr pending)
  /-- A message is appended for a sending context. -/
  | queue {c : Link} {pending : ℕ} (hc : c ∈ w.links) (haddr : c.toaddr ≠ 0) :
    WatchStep w (w.setPending c.fd pending)
  /-- A sending context sends some of its bytes. -/
  | flush {c : Link} {pending : ℕ} (hc : c ∈ w.links) (haddr : c.toaddr ≠ 0)
    (hpending : 0 < pending) : WatchStep w (w.flush c.fd pending)
  /-- An accepted connection is closed. -/
  | close {c : Link} (hc : c ∈ w.links) (haddr : c.toaddr = 0) : WatchStep w (w.close c.fd)

/-! ## The invariant -/

/-- What the tracker keeps true of its descriptors. -/
structure Watch.WF (w : Watch) : Prop where
  /-- No two contexts have the same descriptor. -/
  fds_nodup : (w.links.map Link.fd).Nodup
  /-- The descriptors of the contexts are open. -/
  fds_open : ∀ c ∈ w.links, c.fd ∈ w.fds
  /-- They fit an `fd_set`. -/
  lt_size : ∀ c ∈ w.links, c.fd < fdSetSize
  /-- `select()` is told of them. -/
  le_maxfd : ∀ c ∈ w.links, c.fd ≤ w.maxfd
  /-- `listenfd` is open. -/
  listen_open : w.listenfd ∈ w.fds
  /-- It belongs to no context. -/
  not_listen : ∀ c ∈ w.links, c.fd ≠ w.listenfd
  /-- A context whose connection is closed for reading is gone. -/
  shutRd : ∀ c ∈ w.links, c.shutRd = false
  /-- An accepted connection is watched for reading, has nothing to send, and comes from an
  address. -/
  incoming : ∀ c ∈ w.links, c.toaddr = 0 →
    c.fd ∈ w.readfds ∧ c.pending = 0 ∧ hostAddrAddr c.fromaddr ≠ 0
  /-- What is watched for reading is `listenfd` and the accepted connections. -/
  readfds : ∀ fd ∈ w.readfds, fd = w.listenfd ∨ ∃ c ∈ w.links, c.fd = fd ∧ c.toaddr = 0
  /-- What is watched for writing belongs to sending contexts. -/
  writefds : ∀ fd ∈ w.writefds, ∃ c ∈ w.links, c.fd = fd ∧ c.toaddr ≠ 0
  /-- An address has at most one context. -/
  toaddr_inj : ∀ c ∈ w.links, ∀ d ∈ w.links, c.toaddr = d.toaddr → c.toaddr ≠ 0 → c.fd = d.fd

/-- The contexts that send are watched for writing. -/
def Watch.SendersWatched (w : Watch) : Prop :=
  ∀ c ∈ w.links, c.toaddr ≠ 0 → c.fd ∈ w.writefds

section Steps

variable {w w' : Watch} {c d : Link} {fd pending : ℕ} {fromaddr toaddr : HostAddr}

/-- Contexts with the same descriptor are the same. -/
theorem Watch.WF.link_inj (hw : w.WF) (hc : c ∈ w.links) (hd : d ∈ w.links) (h : c.fd = d.fd) :
    c = d := List.inj_on_of_nodup_map hw.fds_nodup hc hd h

/-- A new context keeps the invariant. -/
theorem Watch.WF.add (hw : w.WF) {l : Link} (hnew : l.fd ∉ w.fds) (hlt : l.fd < fdSetSize)
    (hshut : l.shutRd = false) (hlinks : w'.links = w.links ++ [l])
    (hfds : w'.fds = insert l.fd w.fds) (hmax : w'.maxfd = max w.maxfd l.fd)
    (hlisten : w'.listenfd = w.listenfd)
    (hin : l.toaddr = 0 → l.fd ∈ w'.readfds ∧ l.pending = 0 ∧ hostAddrAddr l.fromaddr ≠ 0)
    (hread : w.readfds ⊆ w'.readfds)
    (hreadl : ∀ fd ∈ w'.readfds, fd ∈ w.readfds ∨ (fd = l.fd ∧ l.toaddr = 0))
    (hwritel : ∀ fd ∈ w'.writefds, fd ∈ w.writefds ∨ (fd = l.fd ∧ l.toaddr ≠ 0))
    (hfresh : l.toaddr ≠ 0 → ∀ c ∈ w.links, c.toaddr ≠ l.toaddr) : w'.WF := by
  have hmem : ∀ {c}, c ∈ w'.links ↔ c ∈ w.links ∨ c = l := fun {c} => by simp [hlinks]
  refine ⟨?_, ?_, ?_, ?_, ?_, ?_, ?_, ?_, ?_, ?_, ?_⟩
  · rw [hlinks]
    exact nodup_append_key hw.fds_nodup
      (lookup_eq_none_iff.mpr fun d hd h => hnew (h ▸ hw.fds_open d hd))
  · rw [hfds]
    rintro c hc
    rcases hmem.mp hc with hc | rfl
    · exact Finset.mem_insert_of_mem (hw.fds_open c hc)
    · exact Finset.mem_insert_self _ _
  · rintro c hc
    rcases hmem.mp hc with hc | rfl
    · exact hw.lt_size c hc
    · exact hlt
  · rw [hmax]
    rintro c hc
    rcases hmem.mp hc with hc | rfl
    · exact (hw.le_maxfd c hc).trans (le_max_left _ _)
    · exact le_max_right _ _
  · rw [hlisten, hfds]
    exact Finset.mem_insert_of_mem hw.listen_open
  · rw [hlisten]
    rintro c hc
    rcases hmem.mp hc with hc | rfl
    · exact hw.not_listen c hc
    · exact fun h => hnew (h ▸ hw.listen_open)
  · rintro c hc
    rcases hmem.mp hc with hc | rfl
    · exact hw.shutRd c hc
    · exact hshut
  · rintro c hc h0
    rcases hmem.mp hc with hc | rfl
    · obtain ⟨hfd, hrest⟩ := hw.incoming c hc h0
      exact ⟨hread hfd, hrest⟩
    · exact hin h0
  · rw [hlisten]
    intro fd hfd
    rcases hreadl fd hfd with hfd | ⟨rfl, h0⟩
    · refine (hw.readfds fd hfd).imp_right ?_
      rintro ⟨c, hc, hrest⟩
      exact ⟨c, hmem.mpr (Or.inl hc), hrest⟩
    · exact Or.inr ⟨l, hmem.mpr (Or.inr rfl), rfl, h0⟩
  · intro fd hfd
    rcases hwritel fd hfd with hfd | ⟨rfl, h0⟩
    · obtain ⟨c, hc, hrest⟩ := hw.writefds fd hfd
      exact ⟨c, hmem.mpr (Or.inl hc), hrest⟩
    · exact ⟨l, hmem.mpr (Or.inr rfl), rfl, h0⟩
  · intro c hc d hd heq h0
    rcases hmem.mp hc with hc | rfl <;> rcases hmem.mp hd with hd | rfl
    · exact hw.toaddr_inj c hc d hd heq h0
    · exact absurd heq (hfresh (heq ▸ h0) c hc)
    · exact absurd heq.symm (hfresh h0 d hd)
    · rfl

/-- Changing the number of waiting bytes of a context that sends keeps the invariant. -/
theorem Watch.WF.setPending (hw : w.WF) (hc : c ∈ w.links) (haddr : c.toaddr ≠ 0) (pending : ℕ) :
    (w.setPending c.fd pending).WF := by
  have hmem : ∀ {d}, d ∈ (w.setPending c.fd pending).links →
      ∃ e ∈ w.links, e.fd = d.fd ∧ e.fromaddr = d.fromaddr ∧ e.toaddr = d.toaddr ∧
        e.shutRd = d.shutRd ∧ (e.toaddr = 0 → e.pending = d.pending) := by
    intro d hd
    obtain ⟨e, he, rfl⟩ := List.mem_map.mp hd
    refine ⟨e, he, ?_⟩
    split
    case isTrue hfd => exact ⟨rfl, rfl, rfl, rfl, fun h => absurd (hw.link_inj he hc hfd ▸ h) haddr⟩
    case isFalse => exact ⟨rfl, rfl, rfl, rfl, fun _ => rfl⟩
  have hkeep : ∀ e ∈ w.links, ∃ d ∈ (w.setPending c.fd pending).links,
      d.fd = e.fd ∧ d.toaddr = e.toaddr := by
    intro e he
    refine ⟨_, List.mem_map_of_mem he, ?_⟩
    split <;> exact ⟨rfl, rfl⟩
  refine ⟨?_, ?_, ?_, ?_, hw.listen_open, ?_, ?_, ?_, ?_, ?_, ?_⟩
  · change ((w.links.map _).map Link.fd).Nodup
    rw [map_key_map fun d => by split <;> rfl]
    exact hw.fds_nodup
  · intro d hd
    obtain ⟨e, he, hfd, -⟩ := hmem hd
    exact hfd ▸ hw.fds_open e he
  · intro d hd
    obtain ⟨e, he, hfd, -⟩ := hmem hd
    exact hfd ▸ hw.lt_size e he
  · intro d hd
    obtain ⟨e, he, hfd, -⟩ := hmem hd
    exact hfd ▸ hw.le_maxfd e he
  · intro d hd
    obtain ⟨e, he, hfd, -⟩ := hmem hd
    exact hfd ▸ hw.not_listen e he
  · intro d hd
    obtain ⟨e, he, -, -, -, hshut, -⟩ := hmem hd
    exact hshut ▸ hw.shutRd e he
  · intro d hd h0
    obtain ⟨e, he, hfd, hfrom, hto, -, hpend⟩ := hmem hd
    have he0 : e.toaddr = 0 := hto.trans h0
    rw [← hfd, ← hfrom, ← hpend he0]
    exact hw.incoming e he he0
  · intro fd hfd
    refine (hw.readfds fd hfd).imp_right ?_
    rintro ⟨e, he, rfl, h0⟩
    obtain ⟨d, hd, hfd, hto⟩ := hkeep e he
    exact ⟨d, hd, hfd, hto.trans h0⟩
  · intro fd hfd
    obtain ⟨e, he, rfl, h0⟩ := hw.writefds fd hfd
    obtain ⟨d, hd, hfd, hto⟩ := hkeep e he
    exact ⟨d, hd, hfd, hto ▸ h0⟩
  · intro d hd d' hd' heq h0
    obtain ⟨e, he, hfd, -, hto, -⟩ := hmem hd
    obtain ⟨e', he', hfd', -, hto', -⟩ := hmem hd'
    rw [← hfd, ← hfd']
    exact hw.toaddr_inj e he e' he' (by rw [hto, hto', heq]) (hto ▸ h0)

/-- Watching other descriptors of sending contexts for writing keeps the invariant. -/
theorem Watch.WF.watch (hw : w.WF) {writefds : Finset ℕ} {maxfd : ℕ}
    (hwrite : ∀ fd ∈ writefds, ∃ c ∈ w.links, c.fd = fd ∧ c.toaddr ≠ 0) (hmax : w.maxfd ≤ maxfd) :
    Watch.WF { w with writefds := writefds, maxfd := maxfd } :=
  ⟨hw.fds_nodup, hw.fds_open, hw.lt_size, fun c hc => (hw.le_maxfd c hc).trans hmax,
    hw.listen_open, hw.not_listen, hw.shutRd, hw.incoming, hw.readfds, hwrite, hw.toaddr_inj⟩

/-- Closing an accepted connection keeps the invariant. -/
theorem Watch.WF.close (hw : w.WF) (hc : c ∈ w.links) (haddr : c.toaddr = 0) :
    (w.close c.fd).WF := by
  have hmem : ∀ {d}, d ∈ (w.close c.fd).links ↔ d ∈ w.links ∧ d.fd ≠ c.fd := fun {d} => by
    simp [Watch.close]
  refine ⟨?_, ?_, ?_, ?_, ?_, ?_, ?_, ?_, ?_, ?_, ?_⟩
  · exact hw.fds_nodup.sublist (List.filter_sublist.map _)
  · intro d hd
    obtain ⟨hd, hne⟩ := hmem.mp hd
    exact Finset.mem_erase.mpr ⟨hne, hw.fds_open d hd⟩
  · exact fun d hd => hw.lt_size d (hmem.mp hd).1
  · exact fun d hd => hw.le_maxfd d (hmem.mp hd).1
  · exact Finset.mem_erase.mpr ⟨(hw.not_listen c hc).symm, hw.listen_open⟩
  · exact fun d hd => hw.not_listen d (hmem.mp hd).1
  · exact fun d hd => hw.shutRd d (hmem.mp hd).1
  · intro d hd h0
    obtain ⟨hd, hne⟩ := hmem.mp hd
    obtain ⟨hread, hrest⟩ := hw.incoming d hd h0
    exact ⟨Finset.mem_erase.mpr ⟨hne, hread⟩, hrest⟩
  · intro fd hfd
    obtain ⟨hne, hfd⟩ := Finset.mem_erase.mp hfd
    refine (hw.readfds fd hfd).imp_right ?_
    rintro ⟨d, hd, rfl, h0⟩
    exact ⟨d, hmem.mpr ⟨hd, hne⟩, rfl, h0⟩
  · intro fd hfd
    obtain ⟨d, hd, rfl, h0⟩ := hw.writefds fd hfd
    refine ⟨d, hmem.mpr ⟨hd, fun hfd => h0 ?_⟩, rfl, h0⟩
    exact hw.link_inj hd hc hfd ▸ haddr
  · intro d hd d' hd' heq h0
    exact hw.toaddr_inj d (hmem.mp hd).1 d' (hmem.mp hd').1 heq h0

/-- Every step keeps the invariant. -/
theorem Watch.WF.step (hw : w.WF) (h : WatchStep w w') : w'.WF := by
  cases h with
  | accept hnew hlt haddr =>
    refine hw.add (l := ⟨_, _, 0, 0, false⟩) hnew hlt rfl rfl rfl rfl rfl
      (fun _ => ⟨Finset.mem_insert_self _ _, rfl, haddr⟩) (Finset.subset_insert _ _) ?_
      (fun fd hfd => Or.inl hfd) (fun h => absurd rfl h)
    exact fun fd hfd => (Finset.mem_insert.mp hfd).symm.imp_right fun h => ⟨h, rfl⟩
  | connect hnew hlt haddr hfresh hpending =>
    refine hw.add (l := ⟨_, 0, _, _, false⟩) hnew hlt rfl rfl rfl rfl rfl
      (fun h => absurd h haddr) (Finset.Subset.refl _) (fun fd hfd => Or.inl hfd) ?_
      (fun _ => hfresh)
    exact fun fd hfd => (Finset.mem_insert.mp hfd).symm.imp_right fun h => ⟨h, haddr⟩
  | queue hc haddr => exact hw.setPending hc haddr _
  | @flush c pending hc haddr hpending =>
    have hset := hw.setPending hc haddr pending
    refine hset.watch (fun fd hfd => ?_) (le_max_left _ _)
    rcases Finset.mem_insert.mp hfd with rfl | hfd
    · exact ⟨_, List.mem_map_of_mem hc, by simp, by simpa using haddr⟩
    · exact hset.writefds fd hfd
  | close hc haddr => exact hw.close hc haddr

/-- So does giving up watching a context. -/
theorem Watch.WF.drain (hw : w.WF) (hc : c ∈ w.links) (haddr : c.toaddr ≠ 0) :
    (w.drain c.fd).WF := by
  have hset := hw.setPending hc haddr 0
  exact hset.watch (fun fd hfd => hset.writefds fd (Finset.mem_of_mem_erase hfd)) le_rfl

/-- Changing the number of waiting bytes keeps the sending contexts watched. -/
theorem Watch.SendersWatched.setPending (hs : w.SendersWatched) (fd pending : ℕ) :
    (w.setPending fd pending).SendersWatched := by
  intro d hd h0
  obtain ⟨e, he, rfl⟩ := List.mem_map.mp hd
  by_cases hfd : e.fd = fd
  · rw [if_pos hfd] at h0 ⊢
    exact hs e he h0
  · rw [if_neg hfd] at h0 ⊢
    exact hs e he h0

/-- Every step keeps the sending contexts watched. -/
theorem Watch.SendersWatched.step (hs : w.SendersWatched) (h : WatchStep w w') :
    w'.SendersWatched := by
  cases h with
  | accept hnew hlt haddr =>
    intro d hd h0
    rcases List.mem_append.mp hd with hd | hd
    · exact hs d hd h0
    · obtain rfl := List.mem_singleton.mp hd
      exact absurd rfl h0
  | connect hnew hlt haddr hfresh hpending =>
    intro d hd h0
    rcases List.mem_append.mp hd with hd | hd
    · exact Finset.mem_insert_of_mem (hs d hd h0)
    · obtain rfl := List.mem_singleton.mp hd
      exact Finset.mem_insert_self _ _
  | queue hc haddr => exact hs.setPending _ _
  | flush hc haddr hpending =>
    exact fun d hd h0 => Finset.mem_insert_of_mem (hs.setPending _ _ d hd h0)
  | close hc haddr => exact fun d hd h0 => hs d (List.mem_of_mem_filter hd) h0

/-- A descriptor that is watched for writing is not watched for reading. -/
theorem Watch.WF.notMem_readfds (hw : w.WF) (h : fd ∈ w.writefds) :
    fd ∉ w.readfds := by
  obtain ⟨c, hc, rfl, h0⟩ := hw.writefds fd h
  intro hread
  rcases hw.readfds c.fd hread with hlisten | ⟨d, hd, hfd, hzero⟩
  · exact hw.not_listen c hc hlisten
  · exact h0 (hw.link_inj hd hc hfd ▸ hzero)

/-- A context whose descriptor is no longer watched for writing is not watched at all. -/
theorem Watch.WF.not_watched_drain (hw : w.WF) (hc : c ∈ w.links) (haddr : c.toaddr ≠ 0) :
    (∃ d ∈ (w.drain c.fd).links, d.fd = c.fd) ∧ c.fd ∉ (w.drain c.fd).readfds ∧
      c.fd ∉ (w.drain c.fd).writefds := by
  refine ⟨⟨_, List.mem_map_of_mem hc, by simp⟩, fun hread => ?_, Finset.notMem_erase _ _⟩
  rcases hw.readfds c.fd hread with hlisten | ⟨d, hd, hfd, h0⟩
  · exact hw.not_listen c hc hlisten
  · exact haddr (hw.link_inj hd hc hfd ▸ h0)

end Steps

end TinyMsg
