import Sponge.Lib.Machine
import Sponge.Util.Socket

/-!
# Service counters

The counters of a descriptor against the system calls that succeeded on it, over any sequence of
calls of the methods of a descriptor and any answers of the kernel. Every method registers once, but
`accept` does so before its system call, and `recv`, `sendto`, `send` and `write` only after a check
that may throw; `counters_agree_iff` says on which answers the counters still agree.

* `Syscall`, `Descriptor` — the system calls made, beside the wrapper;
* `writevs` — those of one call of `write`, which may be many;
* `Counted` — the answers on which a method counts what it did;
* `Tally` — what a call adds to the counters and to the system calls.
-/

namespace Sponge.Service

open Lib FileDescriptor Socket UDPSocket TCPSocket

/-! ### The calls of the methods -/

/-- A system call: whether it is one of the read side, of the write side, and what it returned. -/
structure Syscall where
  reads : Bool
  writes : Bool
  returnValue : ℤ
  deriving DecidableEq, Repr

/-- A system call of the read side that succeeded. -/
def Syscall.read (c : Syscall) : Bool := c.reads && decide (0 ≤ c.returnValue)

/-- A system call of the write side that succeeded. -/
def Syscall.written (c : Syscall) : Bool := c.writes && decide (0 ≤ c.returnValue)

/-- A call of `writev`: what it returned, and the size of the buffer it was given. -/
structure Writev where
  returnValue : ℤ
  size : ℕ
  deriving DecidableEq, Repr

/-- The calls of `writev` that the loop of `write` makes. -/
def writevs (kernel : Kernel) (writeAll : Bool) : ℕ → WriteState → List Writev
  | 0, _ => []
  | fuel + 1, s =>
    ⟨(kernel s.sink.calls s.buffer.asIovecs).returnValue, s.buffer.size⟩ ::
      match writeTurn kernel s with
      | (.error _, _) => []
      | (.ok (), s) =>
        if writeAll ∧ s.buffer.size ≠ 0 then writevs kernel writeAll fuel s else []

/-- The values of `how` that `shutdown` allows. -/
inductive How where
  | rd
  | wr
  | rdwr
  deriving DecidableEq, Repr

def How.toInt : How → ℤ
  | rd => SHUT_RD
  | wr => SHUT_WR
  | rdwr => SHUT_RDWR

/-- A call of a method, with the answers of the kernel. -/
inductive Call where
  | read (limit : ℕ) (r : ReadAnswer (sizeToRead limit))
  | write (kernel : Kernel) (buffer : BufferViewList) (writeAll : Bool)
  | recv (mtu : Mtu) (r : Recvfrom)
  | sendto (network : Network) (destination : Address) (payload : BufferViewList)
  | send (network : Network) (payload : BufferViewList)
  | accept (answer : Accept) (actualDomain actualType : Sockopt)
  | shutdown (how : How) (answer : ZeroAnswer)

inductive Ret where
  | void
  | bytes (data : List UInt8)
  | count (n : ℕ)
  | datagram (d : ReceivedDatagram)
  | socket (fd : ℕ)
  deriving DecidableEq, Repr

/-- The state that the loop of `write` starts in. -/
def writeStart (w : FDWrapper) (buffer : BufferViewList) : WriteState := ⟨w, ⟨[], 0⟩, buffer, 0⟩

/-- The call itself; `write_ends` says that the fuel given to `write` is enough. -/
def Call.perform (w : FDWrapper) : Call → Except Exn Ret × FDWrapper
  | .read limit r => ((FileDescriptor.read w limit r).1.map .bytes, (FileDescriptor.read w limit r).2)
  | .write kernel buffer writeAll =>
    match FileDescriptor.write kernel (buffer.size + 1) w ⟨[], 0⟩ buffer writeAll with
    | some (r, w, _) => (r.map .count, w)
    | none => (.ok .void, w)
  | .recv mtu r => ((UDPSocket.recv w mtu r).1.map .datagram, (UDPSocket.recv w mtu r).2)
  | .sendto network destination payload =>
    ((UDPSocket.sendto w network destination payload).1.map fun _ => .void,
      (UDPSocket.sendto w network destination payload).2)
  | .send network payload =>
    ((UDPSocket.send w network payload).1.map fun _ => .void,
      (UDPSocket.send w network payload).2)
  | .accept answer actualDomain actualType =>
    ((TCPSocket.accept w answer actualDomain actualType).1.map .socket,
      (TCPSocket.accept w answer actualDomain actualType).2)
  | .shutdown how answer =>
    ((Socket.shutdown w how.toInt answer).1.map fun _ => .void,
      (Socket.shutdown w how.toInt answer).2)

/-- The system calls that a call makes on the descriptor. -/
def Call.syscalls (w : FDWrapper) : Call → List Syscall
  | .read _ r => [⟨true, false, r.answer.returnValue⟩]
  | .write kernel buffer writeAll =>
    (writevs kernel writeAll (buffer.size + 1) (writeStart w buffer)).map fun c =>
      ⟨false, true, c.returnValue⟩
  | .recv _ r => [⟨true, false, r.answer.returnValue⟩]
  | .sendto network destination payload =>
    [⟨false, true, (network (some destination) payload.asIovecs).returnValue⟩]
  | .send network payload => [⟨false, true, (network none payload.asIovecs).returnValue⟩]
  | .accept answer _ _ => [⟨true, false, answer.returnValue⟩]
  | .shutdown how answer => [⟨how ≠ .wr, how ≠ .rd, answer.returnValue⟩]

/-- A descriptor, and the system calls made on it. -/
structure Descriptor where
  wrapper : FDWrapper
  syscalls : List Syscall
  deriving DecidableEq, Repr

namespace Descriptor

def new (fd : ℕ) : Descriptor := ⟨{ fd }, []⟩

def step (s : Descriptor) (c : Call) : Except Exn Ret × Descriptor :=
  ((c.perform s.wrapper).1, ⟨(c.perform s.wrapper).2, s.syscalls ++ c.syscalls s.wrapper⟩)

/-- A descriptor and the calls of its methods. -/
def machine : Machine Descriptor Call (Except Exn Ret) := ⟨step⟩

/-- The counters are, modulo `2 ^ 32`, the numbers of system calls that succeeded. -/
structure Agrees (s : Descriptor) : Prop where
  readCount : s.wrapper.readCount.toNat = s.syscalls.countP Syscall.read % 2 ^ 32
  writeCount : s.wrapper.writeCount.toNat = s.syscalls.countP Syscall.written % 2 ^ 32

end Descriptor

/-! ### The answers on which a method counts what it did -/

/-- A `writev` that succeeds passes the two checks of `write`. -/
def Writev.Fits (c : Writev) : Prop :=
  0 ≤ c.returnValue → (c.returnValue = 0 → c.size = 0) ∧ c.returnValue ≤ toSSizeT c.size

/-- No `writev` of a `write` returns `0` for a buffer that is not empty, or more than its size; no
datagram received is longer than `mtu`; no payload is sent in part; and no `accept` fails. -/
def Counted (m : Move Descriptor Call (Except Exn Ret)) : Prop :=
  match m.input with
  | .read _ _ => True
  | .write kernel buffer writeAll =>
    ∀ c ∈ writevs kernel writeAll (buffer.size + 1) (writeStart m.before.wrapper buffer), c.Fits
  | .recv mtu r => r.answer.returnValue ≤ (mtu : ℕ)
  | .sendto network destination payload => SendsAll network (some destination) payload
  | .send network payload => SendsAll network none payload
  | .accept answer _ _ => 0 ≤ answer.returnValue
  | .shutdown _ _ => True

/-! ### What a turn and the loop of `write` register -/

/-- The call of `writev` that a turn makes. -/
def writevOf (kernel : Kernel) (s : WriteState) : Writev :=
  ⟨(kernel s.sink.calls s.buffer.asIovecs).returnValue, s.buffer.size⟩

/-- A turn registers a write exactly if its `writev` succeeds and passes the checks; otherwise it
throws. -/
lemma writeTurn_counts (kernel : Kernel) (s : WriteState) :
    (0 ≤ (writevOf kernel s).returnValue ∧ (writevOf kernel s).Fits ∧
      (writeTurn kernel s).2.internalFd = registerWrite s.internalFd) ∨
    (((writevOf kernel s).returnValue = -1 ∨ ¬ (writevOf kernel s).Fits) ∧
      ∃ e s', writeTurn kernel s = (.error e, s') ∧ s'.internalFd = s.internalFd) := by
  unfold writevOf
  rcases (kernel s.sink.calls s.buffer.asIovecs).fails_or_accepts with
    ⟨hfail, he⟩ | ⟨h0, htotal, hmax⟩
  · have heq := @systemCall_of_fail "writev" _ he
    rw [← hfail] at heq
    refine .inr ⟨.inl hfail, ?_⟩
    simp only [writeTurn, heq]
    exact ⟨_, _, rfl, rfl⟩
  · obtain ⟨k, hk⟩ := Int.eq_ofNat_of_zero_le h0
    have heq : systemCall "writev" (kernel s.sink.calls s.buffer.asIovecs).returnValue
        (kernel s.sink.calls s.buffer.asIovecs).errno 0 = .ok (k : ℤ) := by
      rw [hk]
      exact systemCall_of_lt (by omega)
    by_cases hzero : (k : ℤ) = 0 ∧ s.buffer.size ≠ 0
    · refine .inr ⟨.inr fun hfits => hzero.2 ((hfits h0).1 (hk.trans hzero.1)), ?_⟩
      simp only [writeTurn, heq, if_pos hzero]
      exact ⟨_, _, rfl, rfl⟩
    by_cases hmore : (k : ℤ) > toSSizeT s.buffer.size
    · refine .inr ⟨.inr fun hfits => ?_, ?_⟩
      · have hle := (hfits h0).2
        simp only [hk] at hle
        omega
      · simp only [writeTurn, heq, if_neg hzero, if_pos hmore]
        exact ⟨_, _, rfl, rfl⟩
    · refine .inl ⟨h0, fun _ => ⟨fun hrv => ?_, ?_⟩, ?_⟩
      · by_contra hsize
        exact hzero ⟨hk.symm.trans hrv, hsize⟩
      · simp only [hk]
        omega
      · simp only [writeTurn, heq, if_neg hzero, if_neg hmore]
        split <;> rfl

def Writev.succeeded (c : Writev) : Bool := decide (0 ≤ c.returnValue)

/-- The writes registered by calls of `writev`: as many as succeeded, but one less if one of them
did not pass the checks. -/
def Registers (calls : List Writev) (k : UInt32) : Prop :=
  ((∀ c ∈ calls, c.Fits) ∧ k = UInt32.ofNat (calls.countP Writev.succeeded)) ∨
    ((¬ ∀ c ∈ calls, c.Fits) ∧ k + 1 = UInt32.ofNat (calls.countP Writev.succeeded))

lemma registers_fits {c : Writev} (h0 : 0 ≤ c.returnValue) (hfits : c.Fits) {calls : List Writev}
    {k : UInt32} (h : Registers calls k) : Registers (c :: calls) (k + 1) := by
  have hsucc : c.succeeded = true := decide_eq_true h0
  unfold Registers at h ⊢
  rw [List.forall_mem_cons, List.countP_cons_of_pos hsucc, UInt32.ofNat_add]
  rcases h with ⟨hall, hk⟩ | ⟨hnot, hk⟩
  · exact .inl ⟨⟨hfits, hall⟩, by rw [hk]; rfl⟩
  · exact .inr ⟨fun hall => hnot hall.2, by rw [hk]; rfl⟩

lemma registers_nil : Registers [] 0 := .inl ⟨fun _ hc => (by cases hc), rfl⟩

lemma registers_one {c : Writev} (h0 : 0 ≤ c.returnValue) (hfits : c.Fits) : Registers [c] 1 :=
  registers_fits h0 hfits registers_nil

lemma registers_throws {c : Writev} (h : c.returnValue = -1 ∨ ¬ c.Fits) : Registers [c] 0 := by
  unfold Registers
  rw [List.forall_mem_singleton]
  by_cases h0 : 0 ≤ c.returnValue
  · have hsucc : c.succeeded = true := decide_eq_true h0
    rw [List.countP_cons_of_pos hsucc]
    exact .inr ⟨h.resolve_left (by omega), rfl⟩
  · have hfail : ¬ c.succeeded = true := fun hc => h0 (of_decide_eq_true hc)
    rw [List.countP_cons_of_neg hfail]
    exact .inl ⟨fun hc => absurd hc h0, rfl⟩

/-- What the loop of `write` registers: no read, and its calls of `writev`. -/
lemma writeLoop_counts {kernel : Kernel} {writeAll : Bool} {fuel : ℕ} {s s' : WriteState}
    {r : Except Exn ℕ} (h : writeLoop kernel writeAll fuel s = some (r, s')) :
    s'.internalFd.readCount = s.internalFd.readCount ∧
    ∃ k, s'.internalFd.writeCount = s.internalFd.writeCount + k ∧
      Registers (writevs kernel writeAll fuel s) k := by
  induction fuel generalizing s with
  | zero => cases h
  | succ fuel ih =>
    have hhead : writevs kernel writeAll (fuel + 1) s = writevOf kernel s ::
        match writeTurn kernel s with
        | (.error _, _) => []
        | (.ok (), s) =>
          if writeAll ∧ s.buffer.size ≠ 0 then writevs kernel writeAll fuel s else [] := rfl
    rw [hhead]
    unfold writeLoop at h
    rcases writeTurn_counts kernel s with ⟨h0, hfits, hfd⟩ | ⟨hbad, e, t, hturn, hfd⟩
    · rcases hturn : writeTurn kernel s with ⟨⟨e⟩ | ⟨⟨⟩⟩, t⟩
      · rw [hturn] at h hfd
        obtain ⟨rfl, rfl⟩ := Prod.mk.inj (Option.some.inj h)
        exact ⟨by rw [hfd]; rfl, 1, by rw [hfd]; rfl, registers_one h0 hfits⟩
      · rw [hturn] at h hfd
        simp only at h ⊢
        by_cases hmore : writeAll = true ∧ t.buffer.size ≠ 0
        · rw [if_pos hmore] at h ⊢
          obtain ⟨hread, k, hwrite, hregs⟩ := ih h
          refine ⟨by rw [hread, hfd]; rfl, k + 1, ?_, registers_fits h0 hfits hregs⟩
          rw [hwrite, hfd, UInt32.add_comm k, ← UInt32.add_assoc]
          rfl
        · rw [if_neg hmore] at h ⊢
          obtain ⟨rfl, rfl⟩ := Prod.mk.inj (Option.some.inj h)
          exact ⟨by rw [hfd]; rfl, 1, by rw [hfd]; rfl, registers_one h0 hfits⟩
    · rw [hturn] at h ⊢
      obtain ⟨rfl, rfl⟩ := Prod.mk.inj (Option.some.inj h)
      exact ⟨by rw [hfd], 0, by rw [hfd]; exact (UInt32.add_zero _).symm, registers_throws hbad⟩

/-! ### What a call registers -/

/-- From `w` to `w'` the counters grow by some numbers, which are those of the system calls `calls`
that succeeded exactly if `P` holds. -/
def Tally (w w' : FDWrapper) (calls : List Syscall) (P : Prop) : Prop :=
  ∃ r k, w'.readCount = w.readCount + r ∧ w'.writeCount = w.writeCount + k ∧
    ((r = UInt32.ofNat (calls.countP Syscall.read) ∧
      k = UInt32.ofNat (calls.countP Syscall.written)) ↔ P)

lemma countP_read_singleton (reads writes : Bool) (rv : ℤ) :
    [(⟨reads, writes, rv⟩ : Syscall)].countP Syscall.read =
      if reads = true ∧ 0 ≤ rv then 1 else 0 := by
  rw [List.countP_singleton]
  simp [Syscall.read]

lemma countP_written_singleton (reads writes : Bool) (rv : ℤ) :
    [(⟨reads, writes, rv⟩ : Syscall)].countP Syscall.written =
      if writes = true ∧ 0 ≤ rv then 1 else 0 := by
  rw [List.countP_singleton]
  simp [Syscall.written]

lemma tally_none {w : FDWrapper} {reads writes : Bool} {rv : ℤ}
    (hside : reads = true ∨ writes = true) {P : Prop} (h : rv < 0 ↔ P) :
    Tally w w [⟨reads, writes, rv⟩] P := by
  refine ⟨0, 0, (UInt32.add_zero _).symm, (UInt32.add_zero _).symm, ?_⟩
  rw [countP_read_singleton, countP_written_singleton, ← h]
  by_cases hrv : 0 ≤ rv
  · rcases hside with rfl | rfl
    · simp [hrv]
    · simp [hrv]
  · simp [hrv]
    omega

lemma tally_read {w : FDWrapper} {rv : ℤ} {P : Prop} (h : 0 ≤ rv ↔ P) :
    Tally w (registerRead w) [⟨true, false, rv⟩] P := by
  refine ⟨1, 0, rfl, (UInt32.add_zero _).symm, ?_⟩
  rw [countP_read_singleton, countP_written_singleton, ← h]
  by_cases hrv : 0 ≤ rv
  · simp [hrv]
  · simp [hrv]

lemma tally_write {w : FDWrapper} {rv : ℤ} {P : Prop} (h : 0 ≤ rv ↔ P) :
    Tally w (registerWrite w) [⟨false, true, rv⟩] P := by
  refine ⟨0, 1, (UInt32.add_zero _).symm, rfl, ?_⟩
  rw [countP_read_singleton, countP_written_singleton, ← h]
  by_cases hrv : 0 ≤ rv
  · simp [hrv]
  · simp [hrv]

lemma tally_perform_read (w : FDWrapper) (limit : ℕ) (r : ReadAnswer (sizeToRead limit)) :
    Tally w (read w limit r).2 [⟨true, false, r.answer.returnValue⟩] True := by
  rcases read_cases w limit r with ⟨hfail, heq⟩ | ⟨hok, heq⟩
  · rw [heq, hfail]
    exact tally_none (.inl rfl) (iff_true_intro (by decide))
  · have h0 : 0 ≤ r.answer.returnValue := by omega
    rw [heq]
    obtain ⟨x, k, hx, hk, hiff⟩ := @tally_read w _ True (iff_true_intro h0)
    refine ⟨x, k, ?_, ?_, hiff⟩
    · rw [← hx]
      split <;> rfl
    · rw [← hk]
      split <;> rfl

lemma tally_perform_recv (w : FDWrapper) (mtu : Mtu) (r : Recvfrom) :
    Tally w (recv w mtu r).2 [⟨true, false, r.answer.returnValue⟩]
      (r.answer.returnValue ≤ (mtu : ℕ)) := by
  rcases recv_counts w mtu r with ⟨hfail, heq⟩ | ⟨hok, heq⟩
  · rw [heq, hfail]
    exact tally_none (.inl rfl) (by omega)
  · rw [heq]
    by_cases hlong : r.answer.returnValue > (mtu : ℕ)
    · rw [if_pos hlong]
      exact tally_none (.inl rfl) (by omega)
    · rw [if_neg hlong]
      exact tally_read (by omega)

/-- `sendto` and `send`, by what `sendmsg_helper` does. -/
lemma tally_perform_send (w : FDWrapper) (network : Network) (destination : Option Address)
    (payload : BufferViewList) :
    Tally w
      (match sendmsgHelper network destination payload with
        | .error e => ((.error e, w) : Except Exn Unit × FDWrapper)
        | .ok () => (.ok (), registerWrite w)).2
      [⟨false, true, (network destination payload.asIovecs).returnValue⟩]
      (SendsAll network destination payload) := by
  rcases sendmsgHelper_cases network destination payload with
    ⟨hfail, e, heq⟩ | ⟨hok, hall, heq⟩ | ⟨hok, hnot, e, heq⟩
  · rw [heq]
    refine tally_none (.inr rfl) (iff_of_true (by omega) fun h0 => ?_)
    omega
  · rw [heq]
    exact tally_write (iff_of_true hok hall)
  · rw [heq]
    exact tally_none (.inr rfl) (iff_of_false (by omega) hnot)

lemma tally_perform_shutdown (w : FDWrapper) (how : How) (answer : ZeroAnswer) :
    Tally w (Socket.shutdown w how.toInt answer).2
      [⟨how ≠ .wr, how ≠ .rd, answer.returnValue⟩] True := by
  rcases answer.fails_or_returns with ⟨hfail, -⟩ | hok
  · rw [shutdown_of_fail hfail, hfail]
    refine tally_none ?_ (iff_true_intro (by decide))
    cases how <;> decide
  · rw [shutdown_of_ok hok, hok]
    cases how with
    | rd => exact tally_read (iff_true_intro (by decide))
    | wr => exact tally_write (iff_true_intro (by decide))
    | rdwr => exact ⟨1, 1, rfl, rfl, iff_true_intro ⟨rfl, rfl⟩⟩

lemma tally_perform_write (w : FDWrapper) (kernel : Kernel) (buffer : BufferViewList)
    (writeAll : Bool) :
    Tally w (Call.perform w (.write kernel buffer writeAll)).2
      (Call.syscalls w (.write kernel buffer writeAll))
      (∀ c ∈ writevs kernel writeAll (buffer.size + 1) (writeStart w buffer), c.Fits) := by
  obtain ⟨⟨r, s'⟩, hrun⟩ := write_ends kernel w buffer writeAll
  obtain ⟨hread, k, hwrite, hregs⟩ := writeLoop_counts hrun
  have hperform : (Call.perform w (.write kernel buffer writeAll)).2 = s'.internalFd := by
    rw [Call.perform, write_of_loop hrun]
  have hstart : (⟨w, ⟨[], 0⟩, buffer, 0⟩ : WriteState) = writeStart w buffer := rfl
  rw [hstart] at hregs
  rw [hperform, Call.syscalls]
  refine ⟨0, k, ?_, hwrite, ?_⟩
  · rw [hread]
    exact (UInt32.add_zero _).symm
  generalize writevs kernel writeAll (buffer.size + 1) (writeStart w buffer) = calls at hregs ⊢
  have hr : (calls.map fun c => (⟨false, true, c.returnValue⟩ : Syscall)).countP Syscall.read = 0 := by
    rw [List.countP_map]
    exact List.countP_eq_zero.2 fun c _ hc => by cases hc
  have hw : (calls.map fun c => (⟨false, true, c.returnValue⟩ : Syscall)).countP Syscall.written =
      calls.countP Writev.succeeded := by
    rw [List.countP_map]
    rfl
  rw [hr, hw]
  rcases hregs with ⟨hall, hk⟩ | ⟨hnot, hk⟩
  · exact iff_of_true ⟨rfl, hk⟩ hall
  · refine iff_of_false (fun h => ?_) hnot
    have hone : k + 1 = k + 0 := by rw [hk, ← h.2, UInt32.add_zero]
    exact absurd ((UInt32.add_right_inj k).1 hone) (by decide)

/-- **What every call registers.** -/
theorem tally_perform (s : Descriptor) (c : Call) :
    Tally s.wrapper (c.perform s.wrapper).2 (c.syscalls s.wrapper)
      (Counted (Descriptor.machine.move s c)) := by
  cases c with
  | read limit r => exact tally_perform_read s.wrapper limit r
  | write kernel buffer writeAll => exact tally_perform_write s.wrapper kernel buffer writeAll
  | recv mtu r => exact tally_perform_recv s.wrapper mtu r
  | sendto network destination payload =>
    exact tally_perform_send s.wrapper network (some destination) payload
  | send network payload => exact tally_perform_send s.wrapper network none payload
  | accept answer actualDomain actualType =>
    show Tally _ (TCPSocket.accept s.wrapper answer actualDomain actualType).2 _ _
    rw [accept_snd]
    exact tally_read Iff.rfl
  | shutdown how answer => exact tally_perform_shutdown s.wrapper how answer

/-! ### Runs -/

lemma toNat_eq_mod_iff {x : UInt32} {n : ℕ} : x.toNat = n % 2 ^ 32 ↔ x = UInt32.ofNat n := by
  rw [← UInt32.toNat_inj, UInt32.toNat_ofNat']

lemma agrees_iff (s : Descriptor) : s.Agrees ↔
    s.wrapper.readCount = UInt32.ofNat (s.syscalls.countP Syscall.read) ∧
      s.wrapper.writeCount = UInt32.ofNat (s.syscalls.countP Syscall.written) := by
  rw [← toNat_eq_mod_iff, ← toNat_eq_mod_iff]
  exact ⟨fun h => ⟨h.readCount, h.writeCount⟩, fun h => ⟨h.1, h.2⟩⟩

/-- A call keeps the counters right exactly if it counts what it did. -/
lemma agrees_step (s : Descriptor) (c : Call) (h : s.Agrees) :
    (Descriptor.machine.step s c).2.Agrees ↔ Counted (Descriptor.machine.move s c) := by
  obtain ⟨r, k, hr, hk, hiff⟩ := tally_perform s c
  rw [agrees_iff] at h
  rw [← hiff, agrees_iff]
  show (c.perform s.wrapper).2.readCount = _ ∧ (c.perform s.wrapper).2.writeCount = _ ↔ _
  rw [hr, hk, h.1, h.2]
  show _ = UInt32.ofNat ((s.syscalls ++ c.syscalls s.wrapper).countP Syscall.read) ∧
    _ = UInt32.ofNat ((s.syscalls ++ c.syscalls s.wrapper).countP Syscall.written) ↔ _
  rw [List.countP_append, List.countP_append, UInt32.ofNat_add, UInt32.ofNat_add,
    UInt32.add_right_inj, UInt32.add_right_inj]

/-- **When the service counters agree with the kernel**: they are right in every state of a run of
calls on a descriptor exactly if all calls of the run count what they did. -/
theorem counters_agree_iff (fd : ℕ) (calls : List Call) :
    (∀ js, js <+: calls → (Descriptor.machine.run (Descriptor.new fd) js).Agrees) ↔
      ∀ m ∈ Descriptor.machine.trace (Descriptor.new fd) calls, Counted m :=
  Machine.invariant_iff ⟨rfl, rfl⟩ agrees_step calls

/-- An `accept` on a socket that does not block, with nobody waiting: it fails with `EAGAIN`. -/
theorem not_counters_agree :
    ¬ ∀ js, js <+: [Call.accept ⟨-1, 11, .inl ⟨rfl, by decide⟩⟩ ⟨⟨0, 0, .inr rfl⟩, 2, 4⟩
        ⟨⟨0, 0, .inr rfl⟩, 1, 4⟩] →
      (Descriptor.machine.run (Descriptor.new 3) js).Agrees := by
  intro h
  have hread := (h _ (List.prefix_refl _)).readCount
  exact absurd hread (by decide)

end Sponge.Service
