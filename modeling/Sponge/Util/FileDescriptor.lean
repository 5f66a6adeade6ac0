import Sponge.Util.Buffer

/-!
# `FileDescriptor::write`

The wrapper that the handles of a descriptor share, and `FileDescriptor::write` of
`file_descriptor.cc` over a kernel that is any sequence of answers of `writev`.

* `Kernel` — an answer for every call, each within what `writev(2)` may do;
* `writeTurn`, `writeLoop`, `write` — one turn of the `do` loop, the loop with fuel, the method;
* `writeTurn_cases` — all that a turn can do;
* `Progress` — the invariant of the loop: accepted bytes and bytes left make up the buffer.
-/

namespace Sponge

open Lib

/-- The class `FDWrapper`. Its constructor throws if the number is negative. -/
structure FDWrapper where
  fd : ℕ
  eof : Bool := false
  closed : Bool := false
  readCount : UInt32 := 0
  writeCount : UInt32 := 0
  deriving DecidableEq, Repr

namespace FileDescriptor

def registerWrite (w : FDWrapper) : FDWrapper := { w with writeCount := w.writeCount + 1 }

/-! ### The kernel -/

/-- An answer of `writev` to buffers of `total` bytes: it fails with `-1` and a non-zero `errno`, or
accepts at most `total` bytes and never more than `0x7ffff000`. -/
structure WritevAnswer (total : ℕ) where
  returnValue : ℤ
  errno : ℕ
  fails_or_accepts : (returnValue = -1 ∧ errno ≠ 0) ∨
    (0 ≤ returnValue ∧ returnValue ≤ total ∧ returnValue ≤ 0x7ffff000)

/-- What `writev` answers, by the number of the call and the buffers it is given. -/
abbrev Kernel : Type := ℕ → (iovecs : List (List UInt8)) → WritevAnswer (totalLength iovecs)

/-- The kernel's side of a descriptor: the bytes accepted and the calls of `writev` made. -/
structure Sink where
  accepted : List UInt8
  calls : ℕ
  deriving DecidableEq, Repr

/-- The call of `writev`: what is accepted is a prefix of the bytes in the buffers. -/
def Sink.writev (s : Sink) (iovecs : List (List UInt8)) (returnValue : ℤ) : Sink :=
  ⟨s.accepted ++ iovecs.flatten.take returnValue.toNat, s.calls + 1⟩

/-! ### The method -/

/-- What a turn of the loop reads and changes. -/
structure WriteState where
  internalFd : FDWrapper
  sink : Sink
  buffer : BufferViewList
  totalBytesWritten : ℕ

def writeTurn (kernel : Kernel) (s : WriteState) : Except Exn Unit × WriteState :=
  let iovecs := s.buffer.asIovecs
  let answer := kernel s.sink.calls iovecs
  let s := { s with sink := s.sink.writev iovecs answer.returnValue }
  match systemCall "writev" answer.returnValue answer.errno 0 with
  | .error e => (.error e, s)
  | .ok bytesWritten =>
    if bytesWritten = 0 ∧ s.buffer.size ≠ 0 then
      (.error (.runtimeError "write returned 0 given non-empty input buffer"), s)
    else if bytesWritten > toSSizeT s.buffer.size then
      (.error (.runtimeError "write wrote more than length of input buffer"), s)
    else
      let s := { s with internalFd := registerWrite s.internalFd }
      match s.buffer.removePrefix (toSizeT bytesWritten) with
      | (.error e, buffer) => (.error e, { s with buffer })
      | (.ok (), buffer) =>
        let totalBytesWritten := (s.totalBytesWritten + toSizeT bytesWritten) % 2 ^ 64
        (.ok (), { s with buffer, totalBytesWritten })

/-- The loop `do .. while (write_all and buffer.size())`; `none` if the fuel runs out. -/
def writeLoop (kernel : Kernel) (writeAll : Bool) :
    ℕ → WriteState → Option (Except Exn ℕ × WriteState)
  | 0, _ => none
  | fuel + 1, s =>
    match writeTurn kernel s with
    | (.error e, s) => some (.error e, s)
    | (.ok (), s) =>
      if writeAll ∧ s.buffer.size ≠ 0 then writeLoop kernel writeAll fuel s
      else some (.ok s.totalBytesWritten, s)

/-- `write(buffer, write_all)`, with the wrapper and the kernel's side it leaves. -/
def write (kernel : Kernel) (fuel : ℕ) (internalFd : FDWrapper) (sink : Sink)
    (buffer : BufferViewList) (writeAll : Bool) : Option (Except Exn ℕ × FDWrapper × Sink) :=
  (writeLoop kernel writeAll fuel ⟨internalFd, sink, buffer, 0⟩).map fun r =>
    (r.1, r.2.internalFd, r.2.sink)

/-! ### One turn -/

/-- The exceptions that `write` throws: the one of a failed `writev`, and its own. -/
inductive WriteError : Exn → Prop
  | writev (errno : ℕ) : errno ≠ 0 → WriteError (.unixError "writev" errno)
  | zero : WriteError (.runtimeError "write returned 0 given non-empty input buffer")
  | more : WriteError (.runtimeError "write wrote more than length of input buffer")

lemma systemCall_writev {total : ℕ} (a : WritevAnswer total) :
    (systemCall "writev" a.returnValue a.errno 0 = .error (.unixError "writev" a.errno) ∧
      a.errno ≠ 0 ∧ a.returnValue.toNat = 0) ∨
    (∃ k : ℕ, systemCall "writev" a.returnValue a.errno 0 = .ok k ∧ a.returnValue.toNat = k ∧
      k ≤ total ∧ k ≤ 0x7ffff000) := by
  obtain ⟨rv, errno, ⟨rfl, he⟩ | ⟨h0, htotal, hmax⟩⟩ := a
  · exact .inl ⟨systemCall_of_fail he, he, rfl⟩
  · obtain ⟨k, rfl⟩ := Int.eq_ofNat_of_zero_le h0
    exact .inr ⟨k, systemCall_of_lt (by omega), rfl, by omega, by omega⟩

/-- What a number of bytes has to satisfy to pass the two checks against the size. -/
lemma le_of_le_toSSizeT {k n : ℕ} (hn : n < 2 ^ 64) (h : ¬ (k : ℤ) > toSSizeT n) : k ≤ n := by
  rcases Nat.lt_or_ge n (2 ^ 63) with hlt | hge
  · rw [toSSizeT_of_lt hlt] at h
    omega
  · unfold toSSizeT at h
    rw [Int.bmod_eq_emod] at h
    omega

/-- **All that a turn can do**: it throws, having handed on a prefix of what was left, or it removes
the `k` bytes accepted from the buffer and counts them; `k` is positive unless nothing was left. -/
theorem writeTurn_cases (kernel : Kernel) (s : WriteState) :
    (∃ e s', writeTurn kernel s = (.error e, s') ∧ WriteError e ∧
      s'.sink.calls = s.sink.calls + 1 ∧
      ∃ x, x <+: s.buffer.bytes ∧ s'.sink.accepted = s.sink.accepted ++ x) ∨
    (∃ k s', writeTurn kernel s = (.ok (), s') ∧ s'.sink.calls = s.sink.calls + 1 ∧
      s'.sink.accepted = s.sink.accepted ++ s.buffer.bytes.take k ∧
      s'.buffer.bytes = s.buffer.bytes.drop k ∧ k ≤ s.buffer.bytes.length ∧ k ≤ s.buffer.size ∧
      (k = 0 → s.buffer.size = 0) ∧
      s'.totalBytesWritten = (s.totalBytesWritten + k) % 2 ^ 64) := by
  have hbytes : s.buffer.asIovecs.flatten = s.buffer.bytes := by
    rw [BufferViewList.asIovecs_eq, BufferViewList.bytes]
  have htotal : totalLength s.buffer.asIovecs = s.buffer.bytes.length := by
    rw [← hbytes, length_flatten]
  have hsize : s.buffer.size < 2 ^ 64 := by
    rw [BufferViewList.size_eq]
    exact Nat.mod_lt _ (by decide)
  have hsink : ∀ v : ℤ, (s.sink.writev s.buffer.asIovecs v).accepted =
      s.sink.accepted ++ s.buffer.bytes.take v.toNat := fun v => by rw [Sink.writev, hbytes]
  unfold writeTurn
  simp only
  generalize kernel s.sink.calls s.buffer.asIovecs = answer
  rcases systemCall_writev answer with ⟨herr, hne, -⟩ | ⟨k, hok, hk, hle, hmax⟩
  · rw [herr]
    exact .inl ⟨_, _, rfl, .writev _ hne, rfl, _, List.take_prefix _ _, hsink _⟩
  · rw [hok]
    simp only
    split
    · exact .inl ⟨_, _, rfl, .zero, rfl, _, List.take_prefix _ _, hsink _⟩
    rename_i hzero
    split
    · exact .inl ⟨_, _, rfl, .more, rfl, _, List.take_prefix _ _, hsink _⟩
    rename_i hmore
    have hle' : k ≤ s.buffer.bytes.length := by omega
    rw [toSizeT_of_lt (by omega)]
    obtain ⟨hfst, hsnd⟩ := s.buffer.removePrefix_eq k
    rw [if_pos hle'] at hfst
    rcases hr : s.buffer.removePrefix k with ⟨r, buffer⟩
    rw [hr] at hfst hsnd
    obtain rfl : r = .ok () := hfst
    refine .inr ⟨k, _, rfl, rfl, ?_, hsnd, hle', le_of_le_toSSizeT hsize hmore, ?_, rfl⟩
    · rw [hsink, hk]
    · intro hk0
      by_contra hs
      exact hzero ⟨by omega, hs⟩

/-! ### The loop -/

/-- The invariant of the loop on a buffer `v`, started on a sink: the bytes accepted since then and
the bytes left make up `v`, and the total and the size left make up its size. -/
structure Progress (v : BufferViewList) (start : Sink) (x : List UInt8) (s : WriteState) : Prop where
  accepted : s.sink.accepted = start.accepted ++ x
  split : x ++ s.buffer.bytes = v.bytes
  total : s.totalBytesWritten = x.length
  size : x.length + s.buffer.size = v.size

lemma Progress.start (v : BufferViewList) (w : FDWrapper) (sink : Sink) :
    Progress v sink [] ⟨w, sink, v, 0⟩ := ⟨(List.append_nil _).symm, rfl, rfl, Nat.zero_add _⟩

/-- A turn that accepts `k` bytes keeps the invariant, and the size left falls by `k`. -/
lemma Progress.turn {v : BufferViewList} {start : Sink} {x : List UInt8} {s s' : WriteState} {k : ℕ}
    (h : Progress v start x s) (hlen : k ≤ s.buffer.bytes.length) (hsize : k ≤ s.buffer.size)
    (hacc : s'.sink.accepted = s.sink.accepted ++ s.buffer.bytes.take k)
    (hbytes : s'.buffer.bytes = s.buffer.bytes.drop k)
    (htotal : s'.totalBytesWritten = (s.totalBytesWritten + k) % 2 ^ 64) :
    Progress v start (x ++ s.buffer.bytes.take k) s' ∧ s'.buffer.size + k = s.buffer.size := by
  have hx : (x ++ s.buffer.bytes.take k).length = x.length + k := by
    rw [List.length_append, List.length_take, Nat.min_eq_left hlen]
  have hv : v.size < 2 ^ 64 := by
    rw [BufferViewList.size_eq]
    exact Nat.mod_lt _ (by decide)
  have hleft : s'.buffer.size + k = s.buffer.size := by
    rw [BufferViewList.size_eq] at hsize ⊢
    rw [BufferViewList.size_eq, hbytes, List.length_drop]
    omega
  have hsum := h.size
  refine ⟨⟨?_, ?_, ?_, by omega⟩, hleft⟩
  · rw [hacc, h.accepted, List.append_assoc]
  · rw [hbytes, List.append_assoc, List.take_append_drop, h.split]
  · rw [htotal, h.total, hx]
    exact Nat.mod_eq_of_lt (by omega)

/-- What a call of `write` on the buffer `v` has done when it returns or throws: `x` is what the
kernel has accepted, a prefix of the buffer, and its length is what the call returns. -/
structure Delivered (v : BufferViewList) (before : Sink) (r : Except Exn ℕ) (after : Sink)
    (x : List UInt8) : Prop where
  accepted : after.accepted = before.accepted ++ x
  isPrefix : x <+: v.bytes
  returns : ∀ n, r = .ok n → n = x.length
  throws : ∀ e, r = .error e → WriteError e

/-- A turn from a state with the invariant: the call is over with an exception, or the invariant
holds again, with progress unless nothing was left. -/
lemma Progress.writeTurn {v : BufferViewList} {start : Sink} {x : List UInt8} {s : WriteState}
    (h : Progress v start x s) (kernel : Kernel) :
    ∃ s' y, s'.sink.calls = s.sink.calls + 1 ∧
      ((∃ e, writeTurn kernel s = (.error e, s') ∧ Delivered v start (.error e) s'.sink y) ∨
      (writeTurn kernel s = (.ok (), s') ∧ Progress v start y s' ∧
        s'.buffer.size ≤ s.buffer.size - 1)) := by
  rcases writeTurn_cases kernel s with ⟨e, s', heq, he, hcalls, y, hy, hacc⟩ |
    ⟨k, s', heq, hcalls, hacc, hbytes, hlen, hsize, hzero, htotal⟩
  · refine ⟨s', x ++ y, hcalls, .inl ⟨e, heq, ?_, ?_, ?_, ?_⟩⟩
    · rw [hacc, h.accepted, List.append_assoc]
    · rw [← h.split]
      exact (List.prefix_append_right_inj x).2 hy
    · rintro n ⟨⟩
    · rintro _ ⟨⟩
      exact he
  · obtain ⟨hprog, hleft⟩ := h.turn hlen hsize hacc hbytes htotal
    exact ⟨s', _, hcalls, .inr ⟨heq, hprog, by omega⟩⟩

lemma Progress.delivered {v : BufferViewList} {start : Sink} {x : List UInt8} {s : WriteState}
    (h : Progress v start x s) : Delivered v start (.ok s.totalBytesWritten) s.sink x := by
  refine ⟨h.accepted, ⟨_, h.split⟩, ?_, ?_⟩
  · rintro n ⟨⟩
    exact h.total
  · rintro _ ⟨⟩

lemma writeLoop_of_error {kernel : Kernel} {s s' : WriteState} {e : Exn}
    (h : FileDescriptor.writeTurn kernel s = (.error e, s')) (writeAll : Bool) :
    ∀ fuel > 0, writeLoop kernel writeAll fuel s = some (.error e, s') := by
  intro fuel hfuel
  obtain ⟨fuel, rfl⟩ := Nat.exists_eq_add_one.2 hfuel
  rw [writeLoop, h]

lemma writeLoop_of_last {kernel : Kernel} {s s' : WriteState} {writeAll : Bool}
    (h : FileDescriptor.writeTurn kernel s = (.ok (), s'))
    (hlast : ¬ (writeAll = true ∧ s'.buffer.size ≠ 0)) :
    ∀ fuel > 0, writeLoop kernel writeAll fuel s = some (.ok s'.totalBytesWritten, s') := by
  intro fuel hfuel
  obtain ⟨fuel, rfl⟩ := Nat.exists_eq_add_one.2 hfuel
  rw [writeLoop, h]
  exact if_neg hlast

lemma writeLoop_of_more {kernel : Kernel} {s s' : WriteState}
    (h : FileDescriptor.writeTurn kernel s = (.ok (), s')) (hmore : s'.buffer.size ≠ 0) (fuel : ℕ) :
    writeLoop kernel true (fuel + 1) s = writeLoop kernel true fuel s' := by
  rw [writeLoop, h]
  exact if_pos ⟨rfl, hmore⟩

/-- **The loop with `write_all`** ends within as many turns as bytes are left, and one more. -/
theorem writeLoop_all {v : BufferViewList} {start : Sink} (kernel : Kernel) (n : ℕ) :
    ∀ {x : List UInt8} {s : WriteState}, Progress v start x s → s.buffer.size ≤ n →
      ∃ r s' y, (∀ fuel > n, writeLoop kernel true fuel s = some (r, s')) ∧
        s'.sink.calls ≤ s.sink.calls + (n + 1) ∧ Delivered v start r s'.sink y ∧
        ∀ m, r = .ok m → m = v.size := by
  induction n using Nat.strong_induction_on with
  | _ n ih =>
    intro x s h hn
    obtain ⟨s', y, hcalls, ⟨e, heq, hdel⟩ | ⟨heq, hprog, hleft⟩⟩ := h.writeTurn kernel
    · refine ⟨.error e, s', y, ?_, by omega, hdel, by rintro m ⟨⟩⟩
      exact fun fuel hfuel => writeLoop_of_error heq true fuel (by omega)
    · rcases Nat.eq_zero_or_pos s'.buffer.size with hdone | hmore
      · refine ⟨_, s', y, ?_, by omega, hprog.delivered, ?_⟩
        · exact fun fuel hfuel =>
            writeLoop_of_last heq (fun hc => hc.2 hdone) fuel (by omega)
        · rintro m ⟨⟩
          have hsum := hprog.size
          rw [hprog.total]
          omega
      · -- something is left, so the turn has made progress
        obtain ⟨r, s'', z, hrun, hcalls', hdel, hall⟩ := ih (n - 1) (by omega) hprog (by omega)
        refine ⟨r, s'', z, ?_, by omega, hdel, hall⟩
        intro fuel hfuel
        obtain ⟨fuel, rfl⟩ := Nat.exists_eq_add_one.2 (Nat.zero_lt_of_lt hfuel)
        rw [writeLoop_of_more heq (by omega)]
        exact hrun fuel (by omega)

/-- A call of `write` ends: the size of the buffer and one is enough fuel. -/
lemma write_ends (kernel : Kernel) (w : FDWrapper) (v : BufferViewList) (writeAll : Bool) :
    ∃ r, writeLoop kernel writeAll (v.size + 1) ⟨w, ⟨[], 0⟩, v, 0⟩ = some r := by
  have hstart := Progress.start v w ⟨[], 0⟩
  cases writeAll with
  | true =>
    obtain ⟨r, s', y, hrun, -⟩ := writeLoop_all kernel v.size hstart le_rfl
    exact ⟨_, hrun (v.size + 1) (Nat.lt_succ_self _)⟩
  | false =>
    obtain ⟨s', y, -, ⟨e, heq, -⟩ | ⟨heq, -⟩⟩ := hstart.writeTurn kernel
    · exact ⟨_, writeLoop_of_error heq false _ (Nat.succ_pos _)⟩
    · exact ⟨_, writeLoop_of_last heq (fun hc => by cases hc.1) _ (Nat.succ_pos _)⟩

/-- A prefix of the buffer that a call of `write_all` has delivered and counted is the buffer, if a
`size_t` can hold its length. -/
lemma Delivered.eq_bytes {v : BufferViewList} {before after : Sink} {x : List UInt8} {n : ℕ}
    (h : Delivered v before (.ok n) after x) (hn : n = v.size) (hlen : v.bytes.length < 2 ^ 64) :
    x = v.bytes := by
  have hx := h.returns n rfl
  rw [hn, BufferViewList.size_eq, Nat.mod_eq_of_lt hlen] at hx
  rw [List.prefix_iff_eq_take.1 h.isPrefix, ← hx, List.take_length]

lemma write_of_loop {kernel : Kernel} {fuel : ℕ} {w : FDWrapper} {sink : Sink} {v : BufferViewList}
    {writeAll : Bool} {r : Except Exn ℕ} {s' : WriteState}
    (h : writeLoop kernel writeAll fuel ⟨w, sink, v, 0⟩ = some (r, s')) :
    write kernel fuel w sink v writeAll = some (r, s'.internalFd, s'.sink) := by
  rw [write, h, Option.map_some]

/-- **`write` delivers its buffer once**, whatever `writev` answers. With `write_all` the call is
over after at most `size() + 1` calls of `writev`, and if it returns, the kernel has accepted the
buffer from its first byte to the number that `size()` tells. Without it there is one call. -/
theorem write_exactly_once (kernel : Kernel) (w : FDWrapper) (sink : Sink) (v : BufferViewList) :
    (∃ r w' sink' x, (∀ fuel > v.size, write kernel fuel w sink v true = some (r, w', sink')) ∧
      sink'.calls ≤ sink.calls + (v.size + 1) ∧ Delivered v sink r sink' x ∧
      ∀ n, r = .ok n → n = v.size ∧ x = v.bytes.take v.size ∧
        (v.bytes.length < 2 ^ 64 → v.size = v.bytes.length ∧ x = v.bytes)) ∧
    (∃ r w' sink' x, (∀ fuel > 0, write kernel fuel w sink v false = some (r, w', sink')) ∧
      sink'.calls = sink.calls + 1 ∧ Delivered v sink r sink' x) := by
  have hstart := Progress.start v w sink
  constructor
  · obtain ⟨r, s', x, hrun, hcalls, hdel, hall⟩ := writeLoop_all kernel v.size hstart le_rfl
    refine ⟨r, s'.internalFd, s'.sink, x, ?_, hcalls, hdel, ?_⟩
    · intro fuel hfuel
      exact write_of_loop (hrun fuel hfuel)
    · intro n hn
      have hnx := hdel.returns n hn
      have hnv := hall n hn
      have hx : x = v.bytes.take v.size := by
        rw [List.prefix_iff_eq_take.1 hdel.isPrefix, ← hnx, hnv]
      refine ⟨hnv, hx, fun hlen => ?_⟩
      have hsize : v.size = v.bytes.length := by
        rw [BufferViewList.size_eq, Nat.mod_eq_of_lt hlen]
      subst hn
      exact ⟨hsize, hdel.eq_bytes hnv hlen⟩
  · obtain ⟨s', y, hcalls, ⟨e, heq, hdel⟩ | ⟨heq, hprog, -⟩⟩ := hstart.writeTurn kernel
    · refine ⟨.error e, s'.internalFd, s'.sink, y, ?_, hcalls, hdel⟩
      intro fuel hfuel
      exact write_of_loop (writeLoop_of_error heq false fuel hfuel)
    · refine ⟨_, s'.internalFd, s'.sink, y, ?_, hcalls, hprog.delivered⟩
      intro fuel hfuel
      exact write_of_loop (writeLoop_of_last heq (fun hc => by cases hc.1) fuel hfuel)

/-! ### What `write` does to the wrapper, and when it returns -/

lemma writeTurn_internalFd (kernel : Kernel) (s : WriteState) :
    (writeTurn kernel s).2.internalFd = s.internalFd ∨
      (writeTurn kernel s).2.internalFd = registerWrite s.internalFd := by
  simp only [writeTurn]
  split
  · exact .inl rfl
  · split
    · exact .inl rfl
    · split
      · exact .inl rfl
      · split <;> exact .inr rfl

lemma writeLoop_keeps {P : FDWrapper → Prop} (hP : ∀ w, P w → P (registerWrite w)) {kernel : Kernel}
    {writeAll : Bool} {fuel : ℕ} {s s' : WriteState} {r : Except Exn ℕ}
    (h : writeLoop kernel writeAll fuel s = some (r, s')) (hs : P s.internalFd) :
    P s'.internalFd := by
  induction fuel generalizing s with
  | zero => cases h
  | succ fuel ih =>
    have hturn : P (writeTurn kernel s).2.internalFd := by
      rcases writeTurn_internalFd kernel s with heq | heq
      · rwa [heq]
      · rw [heq]
        exact hP _ hs
    unfold writeLoop at h
    split at h
    · rename_i heq
      rw [heq] at hturn
      obtain ⟨-, rfl⟩ := Prod.mk.inj (Option.some.inj h)
      exact hturn
    · rename_i heq
      rw [heq] at hturn
      split at h
      · exact ih h hturn
      · obtain ⟨-, rfl⟩ := Prod.mk.inj (Option.some.inj h)
        exact hturn

/-- A turn in which `writev` accepts something returns, if a `ssize_t` can hold the size. -/
lemma writeTurn_of_accepts {kernel : Kernel} {s : WriteState}
    (hpos : 0 < (kernel s.sink.calls s.buffer.asIovecs).returnValue)
    (hlen : s.buffer.bytes.length < 2 ^ 63) : (writeTurn kernel s).1 = .ok () := by
  have htotal : totalLength s.buffer.asIovecs = s.buffer.bytes.length := by
    rw [BufferViewList.asIovecs_eq, BufferViewList.bytes, length_flatten]
  have hsize : s.buffer.size = s.buffer.bytes.length := by
    rw [BufferViewList.size_eq, Nat.mod_eq_of_lt (by omega)]
  rcases systemCall_writev (kernel s.sink.calls s.buffer.asIovecs) with
    ⟨-, -, hzero⟩ | ⟨k, heq, hk, hle, -⟩
  · omega
  · have hchecks : ¬ ((k : ℤ) = 0 ∧ s.buffer.size ≠ 0) := by omega
    have hssize : ¬ (k : ℤ) > toSSizeT s.buffer.size := by
      rw [toSSizeT_of_lt (by omega)]
      omega
    have hremove : (s.buffer.removePrefix (toSizeT (k : ℤ))).1 = .ok () := by
      rw [(s.buffer.removePrefix_eq _).1, toSizeT_of_lt (by omega), if_pos (by omega)]
    simp only [writeTurn, heq, if_neg hchecks, if_neg hssize]
    rw [← Prod.eta (s.buffer.removePrefix (toSizeT (k : ℤ))), hremove]

lemma writeLoop_of_accepts {kernel : Kernel}
    (hpos : ∀ calls iovecs, 0 < totalLength iovecs → 0 < (kernel calls iovecs).returnValue)
    {fuel : ℕ} {s s' : WriteState} {r : Except Exn ℕ}
    (h : writeLoop kernel true fuel s = some (r, s')) (hsome : s.buffer.bytes ≠ [])
    (hlen : s.buffer.bytes.length < 2 ^ 63) : ∃ n, r = .ok n := by
  induction fuel generalizing s with
  | zero => cases h
  | succ fuel ih =>
    have htotal : totalLength s.buffer.asIovecs = s.buffer.bytes.length := by
      rw [BufferViewList.asIovecs_eq, BufferViewList.bytes, length_flatten]
    have hok := writeTurn_of_accepts
      (hpos s.sink.calls s.buffer.asIovecs (by rw [htotal]; exact List.length_pos_iff.2 hsome)) hlen
    rcases writeTurn_cases kernel s with ⟨e, t, heq, -⟩ | ⟨k, t, heq, -, -, hbytes, -⟩
    · rw [heq] at hok
      cases hok
    · unfold writeLoop at h
      rw [heq] at h
      simp only at h
      split at h
      · rename_i hmore
        have hdrop : t.buffer.bytes.length ≤ s.buffer.bytes.length := by
          rw [hbytes, List.length_drop]
          exact Nat.sub_le _ _
        refine ih h ?_ (by omega)
        rintro hnil
        rw [BufferViewList.size_eq, hnil] at hmore
        exact hmore.2 rfl
      · obtain ⟨rfl, -⟩ := Prod.mk.inj (Option.some.inj h)
        exact ⟨_, rfl⟩

end FileDescriptor

end Sponge
