import TinyMsg.Cnet.Codec
import TinyMsg.Cnet.HostAddr
import TinyMsg.Lib.ByteOrder

/-!
# Addresses between hosts

The fields of a `sockaddr_in` lie in the memory in network byte order.  `HostAddrFromSockAddr` reads
them as numbers of the host and puts them together; `%L` sends the sum with its most significant
byte first; `SockAddrFromHostAddr` takes it apart again.  A host that keeps numbers in the other
order has read, or writes, the fields the other way round.  `addrOverTheWire` is the way from one
host to the other, for either byte order on both sides.
-/

namespace TinyMsg

/-- The address of a `sockaddr_in` as it lies in the memory, in network byte order. -/
@[ext] structure NetAddr where
  /-- The bytes of `sin_port`. -/
  port : List UInt8
  /-- The bytes of `sin_addr`. -/
  addr : List UInt8
  /-- A port has two bytes. -/
  length_port : port.length = 2
  /-- An IPv4 address has four. -/
  length_addr : addr.length = 4

/-- The fields as a host reads them. -/
def NetAddr.toSockAddr (na : NetAddr) (o : ByteOrder) : SockAddr :=
  ⟨UInt16.ofNat (o.load na.port), UInt32.ofNat (o.load na.addr)⟩

/-- The fields as a host writes them. -/
def NetAddr.ofSockAddr (o : ByteOrder) (sa : SockAddr) : NetAddr where
  port := o.store 2 sa.sinPort.toNat
  addr := o.store 4 sa.sinAddr.toNat
  length_port := ByteOrder.length_store o 2 _
  length_addr := ByteOrder.length_store o 4 _

/-- A `HostAddr` packed with `%L` by one host and unpacked by another. -/
def hostAddrOverTheWire (hostaddr : HostAddr) : Exec HostAddr := do
  let (buf, n) ← netPackV (bufferNew 0) (ofChars ['%', 'L']) [.num hostaddr]
  let r := netUnpack (fun i => buf.contents.getD i 0) n (ofChars ['%', 'L'])
  match outputs r.fields [.num 0] with
  | [.num received] => .ok received
  | _ => .error .undefined

/-- The address that the receiver has in its memory, when the sender has sent one. -/
def addrOverTheWire (sender receiver : ByteOrder) (na : NetAddr) : Exec NetAddr := do
  let received ← hostAddrOverTheWire (hostAddrFromSockAddr (na.toSockAddr sender))
  .ok (NetAddr.ofSockAddr receiver (sockAddrFromHostAddr received))

/-- What `%L` packs. -/
theorem packedBytes_hostAddr (hostaddr : HostAddr) :
    packedBytes .none (ofChars ['%', 'L']) [.num hostaddr] = bigEndian 8 hostaddr := by
  have hpercent : ofChar '%' = ofChar '%' := rfl
  have hspec : specOf (ofChar 'L') = .num 8 := by decide
  change packedBytes .none [ofChar '%', ofChar 'L'] _ = _
  rw [packedBytes_percent hpercent, packedBytes_num hspec, packedBytes_nil, List.append_nil]

/-- A number of 64 bits arrives as it was sent. -/
theorem hostAddrOverTheWire_eq {hostaddr : HostAddr} (h : hostaddr < 2 ^ 64) :
    hostAddrOverTheWire hostaddr = .ok hostaddr := by
  have hargs : ArgsMatch (ofChars ['%', 'L']) [.num hostaddr] :=
    List.Forall₂.cons (show hostaddr < 256 ^ 8 from h) List.Forall₂.nil
  have hlen : (packedBytes .none (ofChars ['%', 'L']) [.num hostaddr]).length = 8 := by
    rw [packedBytes_hostAddr, length_bigEndian]
  obtain ⟨buf, hpack, hbuf⟩ := netPackV_eq (hargs.imp fun _ _ h => h.typed) (bufferNew 0)
  rw [bufferNew_contents, List.nil_append] at hbuf
  have hfresh : List.Forall₂ FreshOutput (fmtSpecs .none (ofChars ['%', 'L'])) [.num 0] :=
    List.Forall₂.cons trivial List.Forall₂.nil
  have hmem := (congrArg (Holds (fun i => buf.contents.getD i 0) 0) hbuf).mp
    (holds_getD buf.contents)
  have hcount : wrapInt (packedBytes .none (ofChars ['%', 'L']) [.num hostaddr]).length =
      (0 + (packedBytes .none (ofChars ['%', 'L']) [.num hostaddr]).length : ℕ) := by
    rw [Nat.zero_add, wrapInt_of_lt (by omega)]
  have hout := unpackLoop_packedBytes hargs hfresh hmem hcount
  -- the only output variable has the value
  obtain ⟨f, fs, hf, hfs, heq⟩ := List.forall₂_cons_left_iff.mp hout
  obtain rfl := List.forall₂_nil_left_iff.mp hfs
  have hone : f = .num hostaddr := by
    cases f with
    | num n => exact congrArg Field.num hf
    | str s => exact absurd hf id
  rw [hostAddrOverTheWire, hpack, ok_bind]
  unfold netUnpack
  dsimp only
  rw [heq, hone]

/-! ## The addresses of one host -/

/-- A `HostAddr` of 48 bits is the one made from its socket address. -/
theorem hostAddrFromSockAddr_sockAddrFromHostAddr {hostaddr : HostAddr} (h : hostaddr < 2 ^ 48) :
    hostAddrFromSockAddr (sockAddrFromHostAddr hostaddr) = hostaddr := by
  have hsplit : ∀ n : ℕ, n < 2 ^ 48 → n / 2 ^ 32 % 2 ^ 16 * 2 ^ 32 + n % 2 ^ 32 = n := by
    intro n hn
    omega
  unfold hostAddrFromSockAddr sockAddrFromHostAddr hostAddrPort hostAddrAddr
  rw [UInt16.toNat_ofNat', UInt32.toNat_ofNat', Nat.shiftLeft_eq, Nat.shiftRight_eq_div_pow]
  exact hsplit hostaddr h

/-! ## The theorem -/

/-- The address arrives as the receiver's reading of the sender's fields. -/
theorem addrOverTheWire_eq (sender receiver : ByteOrder) (na : NetAddr) :
    addrOverTheWire sender receiver na =
      .ok (NetAddr.ofSockAddr receiver (na.toSockAddr sender)) := by
  unfold addrOverTheWire
  rw [hostAddrOverTheWire_eq (hostAddrFromSockAddr_lt _), ok_bind,
    sockAddrFromHostAddr_hostAddrFromSockAddr]

/-- The bytes that arrive: each field is loaded by the sender and stored by the receiver. -/
theorem ofSockAddr_toSockAddr (sender receiver : ByteOrder) (na : NetAddr) :
    (NetAddr.ofSockAddr receiver (na.toSockAddr sender)).port =
        receiver.store 2 (sender.load na.port) ∧
      (NetAddr.ofSockAddr receiver (na.toSockAddr sender)).addr =
        receiver.store 4 (sender.load na.addr) := by
  constructor
  · have hport : (UInt16.ofNat (sender.load na.port)).toNat = sender.load na.port :=
      UInt16.toNat_ofNat_of_lt' ((sender.load_lt na.length_port).trans_eq (by decide))
    exact congrArg (receiver.store 2) hport
  · have haddr : (UInt32.ofNat (sender.load na.addr)).toNat = sender.load na.addr :=
      UInt32.toNat_ofNat_of_lt' ((sender.load_lt na.length_addr).trans_eq (by decide))
    exact congrArg (receiver.store 4) haddr

/-- Between two hosts an address arrives unchanged, and on one host the two conversions are inverse,
exactly when the hosts have the same byte order or the bytes of the port and of the address read
the same in both directions. -/
theorem addr_byteOrder_iff (sender receiver : ByteOrder) (na : NetAddr) :
    (addrOverTheWire sender receiver na = .ok na ∧
        (∀ sa, sockAddrFromHostAddr (hostAddrFromSockAddr sa) = sa) ∧
        ∀ hostaddr : HostAddr, hostaddr < 2 ^ 48 →
          hostAddrFromSockAddr (sockAddrFromHostAddr hostaddr) = hostaddr) ↔
      sender = receiver ∨ na.port.reverse = na.port ∧ na.addr.reverse = na.addr := by
  obtain ⟨hport, haddr⟩ := ofSockAddr_toSockAddr sender receiver na
  have harrives : addrOverTheWire sender receiver na = .ok na ↔
      receiver.store 2 (sender.load na.port) = na.port ∧
        receiver.store 4 (sender.load na.addr) = na.addr := by
    rw [addrOverTheWire_eq, Except.ok.injEq, NetAddr.ext_iff, hport, haddr]
  have hwire : addrOverTheWire sender receiver na = .ok na ↔
      sender = receiver ∨ na.port.reverse = na.port ∧ na.addr.reverse = na.addr := by
    have hportIff := ByteOrder.store_load_eq_iff sender receiver na.length_port
    have haddrIff := ByteOrder.store_load_eq_iff sender receiver na.length_addr
    exact (harrives.trans (and_congr hportIff haddrIff)).trans or_and_left.symm
  constructor
  · rintro ⟨harrived, -⟩
    exact hwire.mp harrived
  · intro hbytes
    refine ⟨hwire.mpr hbytes, sockAddrFromHostAddr_hostAddrFromSockAddr, ?_⟩
    intro hostaddr hlt
    exact hostAddrFromSockAddr_sockAddrFromHostAddr hlt

/-- A big-endian host sends 192.168.0.1, port 8001; a little-endian host reads 1.0.168.192 and the
port with its bytes swapped. -/
theorem mixed_byteOrder_reverses :
    addrOverTheWire .big .little ⟨[31, 65], [192, 168, 0, 1], rfl, rfl⟩ =
        .ok ⟨[65, 31], [1, 0, 168, 192], rfl, rfl⟩ ∧
      addrOverTheWire .big .little ⟨[31, 65], [192, 168, 0, 1], rfl, rfl⟩ ≠
        .ok ⟨[31, 65], [192, 168, 0, 1], rfl, rfl⟩ := by
  have hreceived : addrOverTheWire .big .little ⟨[31, 65], [192, 168, 0, 1], rfl, rfl⟩ =
      .ok ⟨[65, 31], [1, 0, 168, 192], rfl, rfl⟩ := by
    rw [addrOverTheWire_eq]
    congr 1
  refine ⟨hreceived, ?_⟩
  rw [hreceived]
  intro heq
  have hport := congrArg NetAddr.port (Except.ok.inj heq)
  exact absurd hport (by decide)

end TinyMsg
