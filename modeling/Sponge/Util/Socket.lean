import Sponge.Util.FileDescriptor

/-!
# Reading, and the methods of the sockets

`FileDescriptor::read`, `Socket::shutdown`, `UDPSocket::recv`, `sendto` and `send`, and
`TCPSocket::accept` over any answers of the system calls. A method returns, beside its result, the
wrapper as it leaves it: the place of `register_read` and `register_write` in it decides what is
counted when it throws.
-/

namespace Sponge

open Lib

def resize (str : List UInt8) (n : ℕ) : List UInt8 :=
  str.take n ++ List.replicate (n - str.length) 0

@[simp] lemma length_resize (str : List UInt8) (n : ℕ) : (resize str n).length = n := by
  rw [resize, List.length_append, List.length_take, List.length_replicate]
  omega

lemma resize_append (x y : List UInt8) : resize (x ++ y) x.length = x := by
  rw [resize, List.length_append, Nat.sub_eq_zero_of_le (Nat.le_add_right _ _), List.take_left']
  · exact List.append_nil x
  · rfl

namespace FileDescriptor

def registerRead (w : FDWrapper) : FDWrapper := { w with readCount := w.readCount + 1 }

/-! ### `read` -/

/-- `BUFFER_SIZE` in `read`. -/
def readBufferSize : ℕ := 1024 * 1024

def sizeToRead (limit : ℕ) : ℕ := min readBufferSize limit

/-- `numeric_limits<size_t>::max()`, the default of `limit`. -/
def noLimit : ℕ := 2 ^ 64 - 1

/-- An answer of `::read` into a buffer of `size` bytes, with the bytes it stores. -/
structure ReadAnswer (size : ℕ) where
  data : List UInt8
  answer : SysAnswer fun v => v = data.length
  length_le : data.length ≤ size

/-- `read(str, limit)`, with the string and the wrapper it leaves. -/
def readInto (w : FDWrapper) (str : List UInt8) (limit : ℕ)
    (r : ReadAnswer (sizeToRead limit)) : Except Exn Unit × List UInt8 × FDWrapper :=
  let str := resize str (sizeToRead limit)
  match systemCall "read" r.answer.returnValue r.answer.errno 0 with
  | .error e => (.error e, str, w)
  | .ok bytesRead =>
    let str := r.data ++ str.drop r.data.length
    let w := if limit > 0 ∧ bytesRead = 0 then { w with eof := true } else w
    if bytesRead > toSSizeT (sizeToRead limit) then
      (.error (.runtimeError "read() read more than requested"), str, w)
    else (.ok (), resize str (toSizeT bytesRead), registerRead w)

/-- `read(limit)`, which reads into a string of its own. -/
def read (w : FDWrapper) (limit : ℕ) (r : ReadAnswer (sizeToRead limit)) :
    Except Exn (List UInt8) × FDWrapper :=
  match readInto w [] limit r with
  | (.error e, _, w) => (.error e, w)
  | (.ok (), ret, w) => (.ok ret, w)

/-- **All that `read` can do**: the call fails and nothing changes, or its bytes are returned, a read
of none sets the flag for the end of the file, and the read is counted. -/
theorem read_cases (w : FDWrapper) (limit : ℕ) (r : ReadAnswer (sizeToRead limit)) :
    (r.answer.returnValue = -1 ∧
      read w limit r = (.error (.unixError "read" r.answer.errno), w)) ∨
    (r.answer.returnValue = r.data.length ∧
      read w limit r = (.ok r.data, registerRead
        (if limit > 0 ∧ r.data = [] then { w with eof := true } else w))) := by
  have hlen := r.length_le
  have hsize : sizeToRead limit ≤ 1024 * 1024 := Nat.min_le_left _ _
  rcases r.answer.systemCall_cases "read" (by rintro v rfl; omega) with
    ⟨heq, hfail⟩ | ⟨n, heq, hn, hdata⟩
  · refine .inl ⟨hfail, ?_⟩
    simp only [read, readInto, heq]
  · refine .inr ⟨hdata, ?_⟩
    obtain rfl : n = r.data.length := by omega
    have hssize : ¬ ((r.data.length : ℕ) : ℤ) > toSSizeT (sizeToRead limit) := by
      rw [toSSizeT_of_lt (by omega)]
      omega
    have hsizet : toSizeT ((r.data.length : ℕ) : ℤ) = r.data.length :=
      toSizeT_of_lt (by omega)
    simp only [read, readInto, heq, if_neg hssize, hsizet, resize_append]
    simp only [Int.natCast_eq_zero, List.length_eq_zero_iff]

end FileDescriptor

/-! ### `Address` -/

/-- The class `Address`: the bytes of a socket address. -/
structure Address where
  bytes : List UInt8
  deriving DecidableEq, Repr

def Address.storageSize : ℕ := 128

/-- `Address(addr, size)`, with the `size` bytes at `addr`. -/
def Address.ofSockaddr (addr : List UInt8) : Except Exn Address :=
  if addr.length > storageSize then .error (.runtimeError "invalid sockaddr size")
  else .ok ⟨addr⟩

/-! ### `Socket` -/

namespace Socket

open FileDescriptor

def SHUT_RD : ℤ := 0
def SHUT_WR : ℤ := 1
def SHUT_RDWR : ℤ := 2

def AF_INET : ℤ := 2
def SOCK_STREAM : ℤ := 1

def shutdown (w : FDWrapper) (how : ℤ) (answer : ZeroAnswer) : Except Exn Unit × FDWrapper :=
  match systemCall "shutdown" answer.returnValue answer.errno 0 with
  | .error e => (.error e, w)
  | .ok _ =>
    if how = SHUT_RD then (.ok (), registerRead w)
    else if how = SHUT_WR then (.ok (), registerWrite w)
    else if how = SHUT_RDWR then (.ok (), registerWrite (registerRead w))
    else (.error (.runtimeError "Socket::shutdown() called with invalid `how`"), w)

lemma shutdown_of_fail {w : FDWrapper} {how : ℤ} {answer : ZeroAnswer}
    (h : answer.returnValue = -1) : (shutdown w how answer).2 = w := by
  rcases answer.systemCall_cases "shutdown" (by rintro v rfl; decide) with
    ⟨heq, -⟩ | ⟨n, -, hn, -⟩
  · simp only [shutdown, heq]
  · omega

lemma shutdown_of_ok {w : FDWrapper} {how : ℤ} {answer : ZeroAnswer} (h : answer.returnValue = 0) :
    shutdown w how answer =
      if how = SHUT_RD then (.ok (), registerRead w)
      else if how = SHUT_WR then (.ok (), registerWrite w)
      else if how = SHUT_RDWR then (.ok (), registerWrite (registerRead w))
      else (.error (.runtimeError "Socket::shutdown() called with invalid `how`"), w) := by
  rcases answer.systemCall_cases "shutdown" (by rintro v rfl; decide) with
    ⟨-, hfail⟩ | ⟨n, heq, -, -⟩
  · omega
  · simp only [shutdown, heq]

/-- An answer of `getsockopt` for an option of type `int`, with what it stores. -/
structure Sockopt where
  answer : ZeroAnswer
  actualValue : ℤ
  len : ℕ
  deriving DecidableEq

/-- The verification of an option against the value expected. -/
def verify (o : Sockopt) (expected : ℤ) (mismatch : String) : Except Exn Unit :=
  match systemCall "getsockopt" o.answer.returnValue o.answer.errno 0 with
  | .error e => .error e
  | .ok _ =>
    if o.len ≠ 4 ∨ o.actualValue ≠ expected then .error (.runtimeError mismatch) else .ok ()

/-- `Socket(fd, domain, type)`, with the answers about the domain and the type of `fd`. -/
def ofFileDescriptor (domain type : ℤ) (actualDomain actualType : Sockopt) : Except Exn Unit :=
  match verify actualDomain domain "socket domain mismatch" with
  | .error e => .error e
  | .ok () => verify actualType type "socket type mismatch"

end Socket

/-! ### `UDPSocket` -/

namespace UDPSocket

open FileDescriptor

structure ReceivedDatagram where
  sourceAddress : Address
  payload : List UInt8
  deriving DecidableEq, Repr

/-- An answer of `recvfrom` with `MSG_TRUNC`: the datagram taken from the queue, whose length is
returned even if the buffer is shorter, and the address it came from. -/
structure Recvfrom where
  datagram : List UInt8
  sourceAddress : List UInt8
  answer : SysAnswer fun v => v = datagram.length ∧ v < 2 ^ 31

/-- A size that a string can be resized to; `resize` throws for a larger one before the call. -/
abbrev Mtu : Type := {n : ℕ // n < 2 ^ 63}

/-- `recv(datagram, mtu)`, with the datagram and the wrapper it leaves. -/
def recvInto (w : FDWrapper) (datagram : ReceivedDatagram) (mtu : Mtu) (r : Recvfrom) :
    Except Exn Unit × ReceivedDatagram × FDWrapper :=
  let payload := resize datagram.payload mtu
  match systemCall "recvfrom" r.answer.returnValue r.answer.errno 0 with
  | .error e => (.error e, { datagram with payload }, w)
  | .ok recvLen =>
    let payload := r.datagram.take mtu ++ payload.drop r.datagram.length
    if recvLen > toSSizeT mtu then
      (.error (.runtimeError "recvfrom (oversized datagram)"), { datagram with payload }, w)
    else
      let w := registerRead w
      match Address.ofSockaddr r.sourceAddress with
      | .error e => (.error e, { datagram with payload }, w)
      | .ok sourceAddress => (.ok (), ⟨sourceAddress, resize payload (toSizeT recvLen)⟩, w)

/-- `recv(mtu)`, which receives into a datagram of its own. -/
def recv (w : FDWrapper) (mtu : Mtu) (r : Recvfrom) : Except Exn ReceivedDatagram × FDWrapper :=
  match recvInto w ⟨⟨[]⟩, []⟩ mtu r with
  | (.error e, _, w) => (.error e, w)
  | (.ok (), ret, w) => (.ok ret, w)

/-- **What `recv` counts**: nothing if the call fails, or if the datagram is longer than `mtu`. -/
theorem recv_counts (w : FDWrapper) (mtu : Mtu) (r : Recvfrom) :
    (r.answer.returnValue = -1 ∧ (recv w mtu r).2 = w) ∨
    (0 ≤ r.answer.returnValue ∧ (recv w mtu r).2 =
      if r.answer.returnValue > (mtu : ℕ) then w else registerRead w) := by
  have hmtu : toSSizeT mtu = (mtu : ℕ) := toSSizeT_of_lt mtu.2
  rcases r.answer.systemCall_cases "recvfrom" (by rintro v ⟨rfl, hlt⟩; omega) with
    ⟨heq, hfail⟩ | ⟨n, heq, hn, -⟩
  · refine .inl ⟨hfail, ?_⟩
    simp only [recv, recvInto, heq]
  · refine .inr ⟨by omega, ?_⟩
    rw [hn]
    by_cases hlong : (n : ℤ) > (mtu : ℕ)
    · simp only [recv, recvInto, heq, hmtu, if_pos hlong]
    · simp only [recv, recvInto, heq, hmtu, if_neg hlong]
      -- the address may be refused, but the read is registered by then
      cases Address.ofSockaddr r.sourceAddress <;> rfl

/-- What `sendmsg` answers, by the destination and the buffers it is given: it fails, or sends at
most the bytes in the buffers. -/
abbrev Network : Type := (destination : Option Address) → (iovecs : List (List UInt8)) →
  SysAnswer fun v => 0 ≤ v ∧ v ≤ totalLength iovecs ∧ v < 2 ^ 31

def sendmsgHelper (network : Network) (destination : Option Address) (payload : BufferViewList) :
    Except Exn Unit :=
  let answer := network destination payload.asIovecs
  match systemCall "sendmsg" answer.returnValue answer.errno 0 with
  | .error e => .error e
  | .ok bytesSent =>
    if toSizeT bytesSent ≠ payload.size then
      .error (.runtimeError "datagram payload too big for sendmsg()")
    else .ok ()

/-- A `sendmsg` that succeeds sends the whole payload. -/
def SendsAll (network : Network) (destination : Option Address) (payload : BufferViewList) : Prop :=
  0 ≤ (network destination payload.asIovecs).returnValue →
    toSizeT (network destination payload.asIovecs).returnValue = payload.size

/-- The helper returns exactly if `sendmsg` succeeds and sends the whole payload. -/
lemma sendmsgHelper_cases (network : Network) (destination : Option Address)
    (payload : BufferViewList) :
    ((network destination payload.asIovecs).returnValue = -1 ∧
      ∃ e, sendmsgHelper network destination payload = .error e) ∨
    (0 ≤ (network destination payload.asIovecs).returnValue ∧
      SendsAll network destination payload ∧
      sendmsgHelper network destination payload = .ok ()) ∨
    (0 ≤ (network destination payload.asIovecs).returnValue ∧
      ¬ SendsAll network destination payload ∧
      ∃ e, sendmsgHelper network destination payload = .error e) := by
  rcases (network destination payload.asIovecs).systemCall_cases "sendmsg"
    (by rintro v ⟨h0, -, hlt⟩; omega) with ⟨heq, hfail⟩ | ⟨n, heq, hn, -⟩
  · refine .inl ⟨hfail, ?_⟩
    simp only [sendmsgHelper, heq]
    exact ⟨_, rfl⟩
  · by_cases hall : toSizeT (n : ℤ) = payload.size
    · refine .inr (.inl ⟨by omega, fun _ => by rw [hn, hall], ?_⟩)
      simp only [sendmsgHelper, heq, hall, ne_eq, not_true_eq_false, if_false]
    · refine .inr (.inr ⟨by omega, fun hs => hall ?_, ?_⟩)
      · rw [← hn]
        exact hs (by omega)
      · exact ⟨.runtimeError "datagram payload too big for sendmsg()", by
          simp only [sendmsgHelper, heq, ne_eq, hall, not_false_eq_true, if_true]⟩

/-- `sendto(destination, payload)`. -/
def sendto (w : FDWrapper) (network : Network) (destination : Address) (payload : BufferViewList) :
    Except Exn Unit × FDWrapper :=
  match sendmsgHelper network (some destination) payload with
  | .error e => (.error e, w)
  | .ok () => (.ok (), registerWrite w)

def send (w : FDWrapper) (network : Network) (payload : BufferViewList) :
    Except Exn Unit × FDWrapper :=
  match sendmsgHelper network none payload with
  | .error e => (.error e, w)
  | .ok () => (.ok (), registerWrite w)

end UDPSocket

/-! ### `TCPSocket` -/

namespace TCPSocket

open FileDescriptor Socket

/-- An answer of `accept`: it fails, or returns the number of a descriptor. -/
abbrev Accept : Type := SysAnswer fun v => 0 ≤ v ∧ v < 2 ^ 31

/-- `accept()`, with the number of the descriptor of the new socket. -/
def accept (w : FDWrapper) (answer : Accept) (actualDomain actualType : Sockopt) :
    Except Exn ℕ × FDWrapper :=
  let w := registerRead w
  match systemCall "accept" answer.returnValue answer.errno 0 with
  | .error e => (.error e, w)
  | .ok fd =>
    match ofFileDescriptor AF_INET SOCK_STREAM actualDomain actualType with
    | .error e => (.error e, w)
    | .ok () => (.ok fd.toNat, w)

/-- `accept` registers a read whatever its system call answers. -/
lemma accept_snd (w : FDWrapper) (answer : Accept) (actualDomain actualType : Sockopt) :
    (accept w answer actualDomain actualType).2 = registerRead w := by
  simp only [accept]
  split
  · rfl
  · split <;> rfl

end TCPSocket

end Sponge
