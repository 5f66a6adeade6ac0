import Sponge.Apps.Webget

/-!
# `main` of `webget`

The program around `getURL`: the check of the arguments, the texts on the standard error, the exit
status.

* `Outcome`, `main` — all that a run of the program leaves, and the program;
* `Ends`, `body_ends` — the two ways in which the statements that use the socket end;
* `main_success_iff` — what the exit status tells;
* `main_releases` — the socket is closed on every path, once.
-/

namespace Sponge.Webget

open Lib FileDescriptor Socket Address

/-! ### The program -/

def EXIT_SUCCESS : ℤ := 0

def EXIT_FAILURE : ℤ := 1

/-- How a program ends: by `abort()`, or with the status that `main` returns. -/
inductive Exit where
  | abort
  | returned (status : ℤ)
  deriving DecidableEq, Repr

/-- What a run leaves: how it ended, its standard error, what it did on the socket and the standard
output, and the calls of `::close`. -/
structure Outcome where
  exit : Exit
  cerr : List UInt8
  events : List Event
  closes : List ZeroAnswer

def usage (argv0 : List UInt8) : List UInt8 :=
  ascii "Usage: " ++ argv0 ++ ascii " HOST PATH\n" ++
    (ascii "\tExample: " ++ argv0 ++ ascii " stanford.edu /class/cs144\n")

/-- What `~FDWrapper()` writes when it has caught an exception. -/
def destructing (what : Thrown → List UInt8) : Option Exn → List UInt8
  | none => []
  | some e => ascii "Exception destructing FDWrapper: " ++ what (.exn e) ++ ascii "\n"

/-- `main(argc, argv)`, where `argc` is the length of `argv` and `what` the text of an exception;
`none` if the fuel runs out. -/
def main (net : Network) (what : Thrown → List UInt8) (fuel : ℕ) :
    List (List UInt8) → Option Outcome
  | [] => some ⟨.abort, [], [], []⟩
  | [_, host, path] =>
    match getURL net fuel host path with
    | none => none
    | some ⟨.error e, events, closes, caught⟩ =>
      some ⟨.returned EXIT_FAILURE, destructing what caught ++ (what e ++ ascii "\n"), events, closes⟩
    | some ⟨.ok (), events, closes, caught⟩ =>
      some ⟨.returned EXIT_SUCCESS, destructing what caught, events, closes⟩
  | argv0 :: _ => some ⟨.returned EXIT_FAILURE, usage argv0, [], []⟩

/-! ### The loops with more fuel -/

lemma writeLoop_mono {kernel : Kernel} {writeAll : Bool} {fuel fuel' : ℕ} {s : WriteState}
    {r : Except Exn ℕ × WriteState} (h : writeLoop kernel writeAll fuel s = some r)
    (hle : fuel ≤ fuel') : writeLoop kernel writeAll fuel' s = some r := by
  induction fuel generalizing fuel' s with
  | zero => cases h
  | succ fuel ih =>
    obtain ⟨fuel', rfl⟩ := Nat.exists_eq_add_one.2 (Nat.zero_lt_of_lt hle)
    rw [writeLoop] at h ⊢
    rcases hturn : writeTurn kernel s with ⟨e | _, t⟩
    · rw [hturn] at h
      exact h
    · rw [hturn] at h
      simp only at h ⊢
      by_cases hmore : writeAll = true ∧ t.buffer.size ≠ 0
      · rw [if_pos hmore] at h ⊢
        exact ih h (Nat.le_of_succ_le_succ hle)
      · rw [if_neg hmore] at h ⊢
        exact h

lemma readLoop_mono {net : Network} {fuel fuel' : ℕ} {s : State} {r : Except Exn Unit × State}
    (h : readLoop net fuel s = some r) (hle : fuel ≤ fuel') : readLoop net fuel' s = some r := by
  induction fuel generalizing fuel' s with
  | zero => cases h
  | succ fuel ih =>
    obtain ⟨fuel', rfl⟩ := Nat.exists_eq_add_one.2 (Nat.zero_lt_of_lt hle)
    rw [readLoop] at h ⊢
    by_cases heof : s.socket.eof = true
    · rw [if_pos heof] at h ⊢
      exact h
    · rw [if_neg heof] at h ⊢
      rcases hread : FileDescriptor.read s.socket noLimit (net.read s.reads) with ⟨e | res, socket⟩
      · rw [hread] at h
        exact h
      · rw [hread] at h
        exact ih h (Nat.le_of_succ_le_succ hle)

lemma write_mono {kernel : Kernel} {fuel fuel' : ℕ} {w : FDWrapper} {sink : Sink}
    {v : BufferViewList} {writeAll : Bool} {r : Except Exn ℕ × FDWrapper × Sink}
    (h : write kernel fuel w sink v writeAll = some r) (hle : fuel ≤ fuel') :
    write kernel fuel' w sink v writeAll = some r := by
  rw [write, Option.map_eq_some_iff] at h ⊢
  obtain ⟨s, hs, heq⟩ := h
  exact ⟨s, writeLoop_mono hs hle, heq⟩

lemma body_mono {net : Network} {fuel fuel' : ℕ} {addr : Address} {host path : List UInt8}
    {s : State} {r : Except Exn Unit × State} (h : body net fuel addr host path s = some r)
    (hle : fuel ≤ fuel') : body net fuel' addr host path s = some r := by
  rw [body] at h ⊢
  rcases hconnect : systemCall "connect" (net.connect addr).returnValue (net.connect addr).errno 0
    with e | _
  · rw [hconnect] at h
    exact h
  rw [hconnect] at h
  simp only at h ⊢
  rcases hwrite : write net.writev fuel s.socket ⟨[], 0⟩
    (BufferViewList.ofView (request host path)) true with _ | w
  · rw [hwrite] at h
    cases h
  rw [hwrite] at h
  rw [write_mono hwrite hle]
  rcases w with ⟨e | _, socket, sink⟩
  · exact h
  simp only at h ⊢
  rcases hshut : Socket.shutdown socket SHUT_WR net.shutdown with ⟨e | _, socket'⟩
  · rw [hshut] at h
    exact h
  rw [hshut] at h
  simp only at h ⊢
  rcases hloop : readLoop net fuel { s with
    socket := socket', events := s.events ++ [.sent sink.accepted, .shutdown SHUT_WR] } with _ | r'
  · rw [hloop] at h
    cases h
  rw [hloop] at h
  rw [readLoop_mono hloop hle]
  exact h

/-! ### The loop of reads -/

lemma read_closed (w : FDWrapper) (limit : ℕ) (r : ReadAnswer (sizeToRead limit)) :
    (FileDescriptor.read w limit r).2.closed = w.closed := by
  rcases read_cases w limit r with ⟨-, heq⟩ | ⟨-, heq⟩
  · rw [heq]
  · rw [heq]
    simp only [registerRead]
    split <;> rfl

lemma readLoop_keeps {net : Network} {fuel : ℕ} {s s' : State} {r : Except Exn Unit}
    (h : readLoop net fuel s = some (r, s')) :
    s'.socket.closed = s.socket.closed ∧ s'.closes = s.closes := by
  induction fuel generalizing s with
  | zero => cases h
  | succ fuel ih =>
    have hclosed := read_closed s.socket noLimit (net.read s.reads)
    rw [readLoop] at h
    by_cases heof : s.socket.eof = true
    · rw [if_pos heof] at h
      cases h
      exact ⟨rfl, rfl⟩
    · rw [if_neg heof] at h
      rcases hread : FileDescriptor.read s.socket noLimit (net.read s.reads) with ⟨e | res, socket⟩
      · rw [hread] at h hclosed
        cases h
        exact ⟨hclosed, rfl⟩
      · rw [hread] at h hclosed
        obtain ⟨hs, hcloses⟩ := ih h
        exact ⟨hs.trans hclosed, hcloses⟩

lemma readLoop_reads {net : Network} {fuel : ℕ} {s : State} {r : Except Exn Unit × State}
    (h : readLoop net fuel s = some r) (heof : s.socket.eof = false) :
    ∃ n, (∀ i < n, s.reads ≤ i → 0 < (net.read i).answer.returnValue) ∧
      (net.read n).answer.returnValue ≤ 0 := by
  induction fuel generalizing s with
  | zero => cases h
  | succ fuel ih =>
    by_cases hpos : 0 < (net.read s.reads).answer.returnValue
    · rw [readLoop_of_pos heof hpos] at h
      obtain ⟨n, hbrings, hlast⟩ := ih h heof
      refine ⟨n, fun i hi hle => ?_, hlast⟩
      rcases Nat.eq_or_lt_of_le hle with rfl | hlt
      · exact hpos
      · exact hbrings i hi hlt
    · exact ⟨s.reads, fun i hi hle => absurd hle (Nat.not_le_of_lt hi), Int.not_lt.1 hpos⟩

lemma readLoop_ends {net : Network} {fuel : ℕ} {s s' : State} {r : Except Exn Unit}
    (h : readLoop net fuel s = some (r, s')) (heof : s.socket.eof = false) (hreads : s.reads = 0) :
    ∃ n events, Reads net n ∧ LoopEnds net n r events ∧
      s'.events = s.events ++ turns (chunks net 0 n) ++ events := by
  obtain ⟨n, hbrings, hlast⟩ := readLoop_reads h heof
  have hnet : Reads net n := ⟨fun i hi => hbrings i hi (hreads ▸ Nat.zero_le i), hlast⟩
  have hn : s.reads + n = n := by rw [hreads, Nat.zero_add]
  obtain ⟨r', t, events, hrun, hevents, hends, -⟩ := readLoop_spec hnet n s hn heof
  -- with the fuel that is there, the loop does what it does with enough of it
  have hmono := readLoop_mono h (Nat.le_add_right fuel (n + 2))
  rw [hrun _ (by omega)] at hmono
  cases hmono
  rw [hreads] at hevents
  exact ⟨n, events, hnet, hends, hevents⟩

/-! ### How the statements end -/

/-- The statements from `connect` on end with an exception before `socket.close()` is reached, or
with what that returns or throws, once the reads have come to the end of the file. -/
inductive Ends (net : Network) (host path : List UInt8) (addr : Address) (r : Except Exn Unit)
    (s : State) : Prop
  | throws (opened : s.socket.closed = false) (closes : s.closes = []) (thrown : ∃ e, r = .error e)
      (last : s.events.getLast? ≠ some (.cout []))
  | closes (n : ℕ) (t : State) (opened : t.socket.closed = false) (none_yet : t.closes = [])
      (result : r = (closeSocket net t).1) (state : s = (closeSocket net t).2)
      (connects : (net.connect addr).returnValue = 0) (shutsDown : net.shutdown.returnValue = 0)
      (reads : Reads net n) (eof : (net.read n).answer.returnValue = 0)
      (events : (request host path).length < 2 ^ 64 →
        t.events = conversation net host path n [.read [], .cout []])

lemma getLast?_conversation (net : Network) (host path : List UInt8) (n : ℕ) {last : List Event}
    (h : last ≠ []) : (conversation net host path n last).getLast? = last.getLast? := by
  have happend : conversation net host path n last =
      (.sent (request host path) :: .shutdown SHUT_WR :: turns (chunks net 0 n)) ++ last := rfl
  rw [happend, List.getLast?_append_of_ne_nil _ h]

lemma ends_of_readLoop {net : Network} {fuel : ℕ} {addr : Address} {host path : List UInt8}
    {w : FDWrapper} {x : List UInt8} (hclosed : w.closed = false) (heof : w.eof = false)
    (hconnect : (net.connect addr).returnValue = 0) (hshut : net.shutdown.returnValue = 0)
    (hx : (request host path).length < 2 ^ 64 → x = request host path)
    {r : Except Exn Unit} {t : State}
    (h : readLoop net fuel ⟨w, [.sent x, .shutdown SHUT_WR], 0, []⟩ = some (r, t)) :
    (∀ e, r = .error e → Ends net host path addr (.error e) t) ∧
      (r = .ok () → Ends net host path addr (closeSocket net t).1 (closeSocket net t).2) := by
  obtain ⟨hopen, hcloses⟩ := readLoop_keeps h
  obtain ⟨n, events, hreads, hends, hevents⟩ := readLoop_ends h heof rfl
  rcases hends with ⟨-, rfl, rfl⟩ | ⟨hend, rfl, rfl⟩
  · refine ⟨fun e _ => ?_, nofun⟩
    refine .throws (hopen.trans hclosed) hcloses ⟨e, rfl⟩ ?_
    rw [hevents, List.getLast?_append_of_ne_nil _ (List.cons_ne_nil _ _)]
    exact fun hlast => by cases hlast
  · refine ⟨nofun, fun _ => ?_⟩
    refine .closes n t (hopen.trans hclosed) hcloses rfl rfl hconnect hshut hreads hend fun hlen => ?_
    rw [hevents, hx hlen]
    rfl

lemma body_ends {net : Network} {fuel : ℕ} {addr : Address} {host path : List UInt8} {fd : ℕ}
    {r : Except Exn Unit} {s : State}
    (h : body net fuel addr host path ⟨{ fd }, [], 0, []⟩ = some (r, s)) :
    Ends net host path addr r s := by
  rw [body] at h
  rcases (net.connect addr).systemCall_cases "connect" (by rintro v rfl; decide) with
    ⟨hconnect, -⟩ | ⟨n, hconnect, -, hzero⟩
  · rw [hconnect] at h
    cases h
    exact .throws rfl rfl ⟨_, rfl⟩ fun hlast => by cases hlast
  rw [hconnect] at h
  simp only at h
  set v := BufferViewList.ofView (request host path) with hv
  have hbytes : v.bytes = request host path := List.append_nil _
  obtain ⟨wr, ws, x, hrun, -, hdel, hall⟩ :=
    writeLoop_all net.writev v.size (Progress.start v { fd } ⟨[], 0⟩) le_rfl
  have hlong := hrun _ (Nat.lt_succ_self _)
  have hclosed : ws.internalFd.closed = false :=
    writeLoop_keeps (P := fun w => w.closed = false) (fun _ h => h) hlong rfl
  have heof : ws.internalFd.eof = false :=
    writeLoop_keeps (P := fun w => w.eof = false) (fun _ h => h) hlong rfl
  rcases hwrite : write net.writev fuel { fd } ⟨[], 0⟩ v true with _ | w
  · rw [hwrite] at h
    cases h
  -- with the fuel that is there, the call of `write` does what it does with enough of it
  obtain rfl : w = (wr, ws.internalFd, ws.sink) := by
    have hmono := write_mono hwrite (Nat.le_add_right fuel (v.size + 1))
    rw [write_of_loop (hrun _ (by omega))] at hmono
    exact (Option.some.inj hmono).symm
  rw [hwrite] at h
  cases wr with
  | error e =>
    cases h
    exact .throws hclosed rfl ⟨_, rfl⟩ fun hlast => by cases hlast
  | ok m =>
    have hx : (request host path).length < 2 ^ 64 → ws.sink.accepted = request host path := by
      intro hlen
      rw [hdel.accepted, ← hbytes]
      exact hdel.eq_bytes (hall m rfl) (by rwa [hbytes])
    simp only at h
    rcases net.shutdown.systemCall_cases "shutdown" (by rintro v rfl; decide) with
      ⟨hcall, hfail⟩ | ⟨-, -, -, hshut⟩
    · simp only [Socket.shutdown, hcall] at h
      cases h
      exact .throws hclosed rfl ⟨_, rfl⟩ fun hlast => by cases hlast
    · have hok : Socket.shutdown ws.internalFd SHUT_WR net.shutdown =
          (.ok (), registerWrite ws.internalFd) := shutdown_of_ok hshut
      rw [hok] at h
      simp only [List.nil_append] at h
      rcases hloop : readLoop net fuel ⟨registerWrite ws.internalFd,
        [.sent ws.sink.accepted, .shutdown SHUT_WR], 0, []⟩ with _ | ⟨r', t⟩
      · rw [hloop] at h
        cases h
      rw [hloop] at h
      obtain ⟨hthrows, hcloses⟩ :=
        ends_of_readLoop (w := registerWrite ws.internalFd) hclosed heof hzero hshut hx hloop
      cases r' with
      | error e =>
        cases h
        exact hthrows e rfl
      | ok _ =>
        cases h
        exact hcloses rfl

/-! ### The calls of `::close` -/

/-- The calls of `::close`, with the one of the destructor of `socket`. -/
def destroyed (net : Network) (s : State) : List ZeroAnswer :=
  (s.socket.destruct s.closes (net.close s.closes.length)).2

lemma destroyed_of_open (net : Network) {s : State} (h : s.socket.closed = false) :
    destroyed net s = s.closes ++ [net.close s.closes.length] := s.socket.destruct_calls h

/-- An explicit `close` that succeeds is the only one, and the destructor catches nothing; after one
that fails the destructor makes a second. -/
lemma closeSocket_cases (net : Network) {t : State} (hopen : t.socket.closed = false)
    (hcloses : t.closes = []) :
    ((net.close 0).returnValue = 0 ∧ (closeSocket net t).1 = .ok () ∧
      destroyed net (closeSocket net t).2 = [net.close 0] ∧
      (endOf net (closeSocket net t).1 (closeSocket net t).2).caught = none) ∨
    ((net.close 0).returnValue = -1 ∧ (∃ e, (closeSocket net t).1 = .error e) ∧
      destroyed net (closeSocket net t).2 = [net.close 0, net.close 1]) := by
  obtain ⟨w, events, reads, closes⟩ := t
  obtain rfl : closes = [] := hcloses
  rcases (net.close 0).systemCall_cases "close" (by rintro v rfl; decide) with
    ⟨hcall, hfail⟩ | ⟨n, hcall, -, hzero⟩
  · right
    have hclose : closeSocket net ⟨w, events, reads, []⟩ =
        (.error (.unixError "close" (net.close 0).errno), ⟨w, events, reads, [net.close 0]⟩) := by
      simp only [closeSocket, FDWrapper.close, List.length_nil, hcall, List.nil_append]
    rw [hclose]
    exact ⟨hfail, ⟨_, rfl⟩, destroyed_of_open net hopen⟩
  · left
    have hclose : closeSocket net ⟨w, events, reads, []⟩ =
        (.ok (), ⟨{ w with eof := true, closed := true }, events, reads, [net.close 0]⟩) := by
      simp only [closeSocket, FDWrapper.close, List.length_nil, hcall, List.nil_append]
    rw [hclose]
    exact ⟨hzero, rfl, rfl, rfl⟩

def Opens (net : Network) (host : List UInt8) : Prop :=
  (∃ addr, net.address host = .ok addr) ∧ 0 ≤ net.socket.returnValue

lemma getURL_ends {net : Network} {fuel : ℕ} {host path : List UInt8} {out : Ended}
    (h : getURL net fuel host path = some out) :
    (¬ Opens net host ∧ (∃ e, out.result = .error e) ∧ out.events = [] ∧ out.closes = []) ∨
    (Opens net host ∧ ∃ addr r s, net.address host = .ok addr ∧ Ends net host path addr r s ∧
      out = endOf net r s) := by
  rw [getURL] at h
  rcases haddr : net.address host with e | addr
  · rw [haddr] at h
    cases h
    refine .inl ⟨?_, ⟨e, rfl⟩, rfl, rfl⟩
    rintro ⟨⟨addr, hok⟩, -⟩
    cases haddr.symm.trans hok
  rw [haddr] at h
  rcases net.socket.systemCall_cases "socket" (fun _ h => h) with ⟨hcall, hfail⟩ | ⟨n, hcall, hn, -⟩
  · simp only [hcall] at h
    cases h
    refine .inl ⟨fun hopens => ?_, ⟨_, rfl⟩, rfl, rfl⟩
    have hpos := hopens.2
    omega
  · simp only [hcall] at h
    obtain ⟨⟨r', s⟩, hbody, heq⟩ := Option.map_eq_some_iff.1 h
    cases heq
    exact .inr ⟨⟨⟨addr, haddr⟩, by omega⟩, addr, r', s, rfl, body_ends hbody, rfl⟩

lemma getURL_closes {net : Network} {fuel : ℕ} {host path : List UInt8} {out : Ended}
    (h : getURL net fuel host path = some out) :
    (¬ Opens net host ∧ out.closes = []) ∨ (Opens net host ∧ out.closes = [net.close 0]) ∨
    (Opens net host ∧ (net.close 0).returnValue = -1 ∧
      out.closes = [net.close 0, net.close 1]) := by
  rcases getURL_ends h with ⟨hno, -, -, hcloses⟩ | ⟨hopens, addr, r, s, -, hends, rfl⟩
  · exact .inl ⟨hno, hcloses⟩
  right
  cases hends with
  | throws hopen hcloses _ _ =>
    have hd := destroyed_of_open net hopen
    rw [hcloses] at hd
    exact .inl ⟨hopens, hd⟩
  | closes n t hopen hnone hresult hstate _ _ _ _ _ =>
    rw [hstate]
    rcases closeSocket_cases net hopen hnone with ⟨-, -, hd, -⟩ | ⟨hfail, -, hd⟩
    · exact .inl ⟨hopens, hd⟩
    · exact .inr ⟨hopens, hfail, hd⟩

lemma exists_args {argv0 host path : List UInt8} {P : List UInt8 → List UInt8 → Prop} :
    (∃ argv0' host' path', [argv0, host, path] = [argv0', host', path'] ∧ P host' path') ↔
      P host path := by
  constructor
  · rintro ⟨_, _, _, heq, h⟩
    cases heq
    exact h
  · exact fun h => ⟨argv0, host, path, rfl, h⟩

/-- `main` aborts, or stops at the arguments, or hands on how `get_URL` ends. -/
lemma main_cases {net : Network} {what : Thrown → List UInt8} {fuel : ℕ} {argv : List (List UInt8)}
    {out : Outcome} (h : main net what fuel argv = some out) :
    (argv = [] ∧ out = ⟨.abort, [], [], []⟩) ∨
    (argv ≠ [] ∧ argv.length ≠ 3 ∧
      ∃ argv0, out = ⟨.returned EXIT_FAILURE, usage argv0, [], []⟩) ∨
    (∃ argv0 host path ended, argv = [argv0, host, path] ∧
      getURL net fuel host path = some ended ∧ out.events = ended.events ∧
      out.closes = ended.closes ∧
      ((ended.result = .ok () ∧ out.exit = .returned EXIT_SUCCESS ∧
          out.cerr = destructing what ended.caught) ∨
        ∃ e, ended.result = .error e ∧ out.exit = .returned EXIT_FAILURE ∧
          out.cerr = destructing what ended.caught ++ (what e ++ ascii "\n"))) := by
  unfold main at h
  split at h
  · cases h
    exact .inl ⟨rfl, rfl⟩
  · rename_i argv0 host path
    right; right
    split at h
    · cases h
    · rename_i e events closes caught hrun
      cases h
      exact ⟨argv0, host, path, _, rfl, hrun, rfl, rfl, .inr ⟨e, rfl, rfl, rfl⟩⟩
    · rename_i events closes caught hrun
      cases h
      exact ⟨argv0, host, path, _, rfl, hrun, rfl, rfl, .inl ⟨rfl, rfl, rfl⟩⟩
  · rename_i argv0 rest hother
    cases h
    refine .inr (.inl ⟨List.cons_ne_nil _ _, fun hlen => ?_, argv0, rfl⟩)
    obtain ⟨host, path, rfl⟩ := List.length_eq_two.1 (Nat.succ.inj hlen)
    exact hother host path rfl

/-- **The socket is closed on every path**, exceptions included. `::close` is called at least once if
there is a socket and never if there is none, at most twice, and not again after a call that
succeeded. -/
theorem main_releases {net : Network} {what : Thrown → List UInt8} {fuel : ℕ}
    {argv : List (List UInt8)} {out : Outcome} (h : main net what fuel argv = some out) :
    (out.closes ≠ [] ↔ ∃ argv0 host path, argv = [argv0, host, path] ∧ Opens net host) ∧
      (∃ k ≤ 2, out.closes = (List.range k).map net.close) ∧
      Handles.ReleasedOnce out.closes := by
  have hnil : Handles.ReleasedOnce [] := List.Pairwise.nil
  have hone : Handles.ReleasedOnce [net.close 0] := List.pairwise_singleton _ _
  rcases main_cases h with ⟨rfl, rfl⟩ | ⟨-, hargs, argv0, rfl⟩ |
    ⟨argv0, host, path, ended, rfl, hrun, -, hsame, -⟩
  · refine ⟨⟨fun hne => absurd rfl hne, ?_⟩, ⟨0, by omega, rfl⟩, hnil⟩
    rintro ⟨argv0, host, path, heq, -⟩
    cases heq
  · refine ⟨⟨fun hne => absurd rfl hne, ?_⟩, ⟨0, by omega, rfl⟩, hnil⟩
    rintro ⟨argv0, host, path, rfl, -⟩
    exact absurd rfl hargs
  rw [exists_args (P := fun host _ => Opens net host), hsame]
  rcases getURL_closes hrun with ⟨hno, hcloses⟩ | ⟨hyes, hcloses⟩ | ⟨hyes, hfail, hcloses⟩
  · rw [hcloses]
    exact ⟨⟨fun hne => absurd rfl hne, fun hyes => absurd hyes hno⟩, ⟨0, by omega, rfl⟩, hnil⟩
  · rw [hcloses]
    exact ⟨⟨fun _ => hyes, fun _ => List.cons_ne_nil _ _⟩, ⟨1, by omega, rfl⟩, hone⟩
  · rw [hcloses]
    have htwo : Handles.ReleasedOnce ([net.close 0] ++ [net.close 1]) :=
      (Handles.releasedOnce_append _).2 ⟨hone, fun b hb => by rwa [List.mem_singleton.1 hb]⟩
    exact ⟨⟨fun _ => hyes, fun _ => List.cons_ne_nil _ _⟩, ⟨2, le_rfl, rfl⟩, htwo⟩

def refused : Network := { slow with connect := fun _ => ⟨-1, 111, .inl ⟨rfl, by decide⟩⟩ }

/-- The socket of a connection that was refused is closed by its destructor. -/
theorem main_releases_refused :
    ∃ out, main refused (fun _ => []) 0 [[119], [104], [47]] = some out ∧
      out.exit = .returned EXIT_FAILURE ∧ out.closes ≠ [] ∧ Handles.ReleasedOnce out.closes := by
  obtain ⟨out, hrun, hexit⟩ : ∃ out, main refused (fun _ => []) 0 [[119], [104], [47]] = some out ∧
      out.exit = .returned EXIT_FAILURE := ⟨_, rfl, rfl⟩
  obtain ⟨hcloses, -, hreleased⟩ := main_releases hrun
  have hopens : Opens refused [104] := ⟨⟨_, rfl⟩, by decide⟩
  exact ⟨out, hrun, hexit, hcloses.2 ⟨_, _, _, rfl, hopens⟩, hreleased⟩

/-! ### What the exit status tells -/

/-- The whole conversation took place: the socket was connected, all of the request sent, the write
side shut, every read put out up to the end of the file, and the socket closed at once. -/
structure Served (net : Network) (host path : List UInt8) (out : Outcome) : Prop where
  opens : Opens net host
  connects : ∀ addr, net.address host = .ok addr → (net.connect addr).returnValue = 0
  shutsDown : net.shutdown.returnValue = 0
  transfers : ∃ n, Reads net n ∧ (net.read n).answer.returnValue = 0 ∧
    out.events = conversation net host path n [.read [], .cout []]
  closed : (net.close 0).returnValue = 0
  closes : out.closes = [net.close 0]

/-- `get_URL` returns exactly if the whole conversation took place, and then its destructor has caught
nothing. -/
lemma getURL_ok_iff {net : Network} {fuel : ℕ} {host path : List UInt8} {ended : Ended}
    {out : Outcome} (h : getURL net fuel host path = some ended) (hevents : out.events = ended.events)
    (hcloses : out.closes = ended.closes) (hlen : (request host path).length < 2 ^ 64) :
    (ended.result = .ok () ↔ Served net host path out) ∧
      (ended.result = .ok () → ended.caught = none) := by
  rcases getURL_ends h with ⟨hno, ⟨e, he⟩, -, -⟩ | ⟨hopens, addr, r, s, haddr, hends, rfl⟩
  · rw [he]
    exact ⟨⟨nofun, fun hserved => absurd hserved.opens hno⟩, nofun⟩
  cases hends with
  | throws _ _ hthrown hlast =>
    obtain ⟨e, rfl⟩ := hthrown
    refine ⟨⟨nofun, fun hserved => absurd ?_ hlast⟩, nofun⟩
    obtain ⟨n, -, -, hconv⟩ := hserved.transfers
    replace hevents : out.events = s.events := hevents
    rw [← hevents, hconv, getLast?_conversation net host path n (List.cons_ne_nil _ _)]
    rfl
  | closes n t hopen hnone hresult hstate hconnects hshut hreads heof hconv =>
    rw [hresult, hstate] at hevents hcloses ⊢
    rcases closeSocket_cases net hopen hnone with ⟨hzero, hok, hd, hquiet⟩ | ⟨hfail, ⟨e, he⟩, -⟩
    · refine ⟨⟨fun _ => ?_, fun _ => ?_⟩, fun _ => hquiet⟩
      · refine ⟨hopens, fun addr' haddr' => ?_, hshut, ⟨n, hreads, heof, ?_⟩, hzero,
          hcloses.trans hd⟩
        · cases haddr.symm.trans haddr'
          exact hconnects
        · exact hevents.trans (hconv hlen)
      · simp only [endOf, hok]
        rfl
    · have hthrows : (endOf net (closeSocket net t).1 (closeSocket net t).2).result ≠ .ok () := by
        simp only [endOf, he]
        exact nofun
      refine ⟨⟨fun hok => absurd hok hthrows, fun hserved => ?_⟩, fun hok => absurd hok hthrows⟩
      have hclosed := hserved.closed
      omega

lemma usage_ne_nil (argv0 : List UInt8) : usage argv0 ≠ [] := List.cons_ne_nil _ _

lemma failure_ne_success : Exit.returned EXIT_FAILURE ≠ .returned EXIT_SUCCESS := by decide

lemma body_returns {net : Network} {n : ℕ} (hreads : Reads net n) (addr : Address)
    (host path : List UInt8) (fd : ℕ) :
    ∃ fuel r, body net fuel addr host path ⟨{ fd }, [], 0, []⟩ = some r := by
  set v := BufferViewList.ofView (request host path) with hv
  obtain ⟨r, ws, x, hrun, -, -, -⟩ :=
    writeLoop_all net.writev v.size (Progress.start v { fd } ⟨[], 0⟩) le_rfl
  have heof : ws.internalFd.eof = false :=
    writeLoop_keeps (P := fun w => w.eof = false) (fun _ h => h) (hrun _ (Nat.lt_succ_self _)) rfl
  have hfuel : v.size + n + 2 > v.size := by omega
  refine ⟨v.size + n + 2, ?_⟩
  rw [body]
  rcases systemCall "connect" (net.connect addr).returnValue (net.connect addr).errno 0 with e | _
  · exact ⟨_, rfl⟩
  rw [← hv]
  simp only [write_of_loop (hrun _ hfuel)]
  cases r with
  | error e => exact ⟨_, rfl⟩
  | ok m =>
    simp only
    rcases net.shutdown.systemCall_cases "shutdown" (by rintro v rfl; decide) with
      ⟨hcall, -⟩ | ⟨-, -, -, hshut⟩
    · simp only [Socket.shutdown, hcall]
      exact ⟨_, rfl⟩
    · have hok : Socket.shutdown ws.internalFd SHUT_WR net.shutdown =
          (.ok (), registerWrite ws.internalFd) := shutdown_of_ok hshut
      obtain ⟨r, s, -, hloop, -, -, -⟩ := readLoop_spec hreads n
        ⟨registerWrite ws.internalFd, [.sent ws.sink.accepted, .shutdown SHUT_WR], 0, []⟩
        (Nat.zero_add n) heof
      rw [hok]
      simp only [List.nil_append, hloop _ (by omega : v.size + n + 2 > n + 1)]
      cases r <;> exact ⟨_, rfl⟩

lemma getURL_returns {net : Network} {n : ℕ} (hreads : Reads net n) (host path : List UInt8) :
    ∃ fuel r, getURL net fuel host path = some r := by
  rcases haddr : net.address host with e | addr
  · refine ⟨0, ⟨.error e, [], [], none⟩, ?_⟩
    rw [getURL, haddr]
  rcases hsocket : systemCall "socket" net.socket.returnValue net.socket.errno 0 with e | fd
  · refine ⟨0, ⟨.error (.exn e), [], [], none⟩, ?_⟩
    simp only [getURL, haddr, hsocket]
  · obtain ⟨fuel, r, hbody⟩ := body_returns hreads addr host path fd.toNat
    refine ⟨fuel, endOf net r.1 r.2, ?_⟩
    simp only [getURL, haddr, hsocket, hbody, Option.map_some]

lemma getURL_mono {net : Network} {fuel fuel' : ℕ} {host path : List UInt8}
    {r : Ended} (h : getURL net fuel host path = some r) (hle : fuel ≤ fuel') :
    getURL net fuel' host path = some r := by
  rw [getURL] at h ⊢
  rcases haddr : net.address host with e | addr
  · rw [haddr] at h
    exact h
  rcases hsocket : systemCall "socket" net.socket.returnValue net.socket.errno 0 with e | fd
  · simp only [haddr, hsocket] at h
    exact h
  · simp only [haddr, hsocket] at h ⊢
    obtain ⟨s, hs, heq⟩ := Option.map_eq_some_iff.1 h
    rw [body_mono hs hle, ← heq, Option.map_some]

/-- **What the exit status tells.** The program ends if some read brings nothing or fails. If it
ends, the status is `EXIT_SUCCESS` exactly if there are two arguments and the whole conversation
took place; it says something on the standard error exactly if the status is `EXIT_FAILURE`. -/
theorem main_success_iff (net : Network) (what : Thrown → List UInt8) (argv : List (List UInt8))
    (hlen : ∀ argv0 host path, argv = [argv0, host, path] → (request host path).length < 2 ^ 64) :
    ((∃ n, Reads net n) → ∃ fuel out, ∀ fuel' ≥ fuel, main net what fuel' argv = some out) ∧
    ∀ fuel out, main net what fuel argv = some out →
      (out.exit = .abort ↔ argv = []) ∧
      (out.exit = .returned EXIT_SUCCESS ↔
        ∃ argv0 host path, argv = [argv0, host, path] ∧ Served net host path out) ∧
      (out.cerr ≠ [] ↔ out.exit = .returned EXIT_FAILURE) := by
  constructor
  · rintro ⟨n, hreads⟩
    match argv with
    | [] => exact ⟨0, _, fun _ _ => rfl⟩
    | [argv0] | argv0 :: _ :: _ :: _ :: _ => exact ⟨0, _, fun _ _ => rfl⟩
    | [argv0, _] => exact ⟨0, _, fun _ _ => rfl⟩
    | [argv0, host, path] =>
      obtain ⟨fuel, ⟨r, events, closes, caught⟩, hrun⟩ := getURL_returns hreads host path
      cases r with
      | error e =>
        refine ⟨fuel, ⟨.returned EXIT_FAILURE, destructing what caught ++ (what e ++ ascii "\n"),
          events, closes⟩, fun fuel' hle => ?_⟩
        rw [main, getURL_mono hrun hle]
      | ok _ =>
        refine ⟨fuel, ⟨.returned EXIT_SUCCESS, destructing what caught, events, closes⟩, ?_⟩
        intro fuel' hle
        rw [main, getURL_mono hrun hle]
  · intro fuel out h
    rcases main_cases h with ⟨rfl, rfl⟩ | ⟨hargs, hlength, argv0, rfl⟩ |
      ⟨argv0, host, path, ended, rfl, hrun, hevents, hcloses, hexit⟩
    · refine ⟨⟨fun _ => rfl, fun _ => rfl⟩, ⟨nofun, ?_⟩, ⟨fun hne => absurd rfl hne, nofun⟩⟩
      rintro ⟨_, _, _, heq, -⟩
      cases heq
    · refine ⟨⟨nofun, fun hnil => absurd hnil hargs⟩, ⟨fun hexit => ?_, ?_⟩, ?_⟩
      · exact absurd hexit failure_ne_success
      · rintro ⟨_, _, _, rfl, -⟩
        exact absurd rfl hlength
      · exact ⟨fun _ => rfl, fun _ => usage_ne_nil argv0⟩
    · obtain ⟨hserved, hquiet⟩ := getURL_ok_iff hrun hevents hcloses (hlen argv0 host path rfl)
      rw [exists_args (P := fun host path => Served net host path out), ← hserved]
      rcases hexit with ⟨hok, hexit, hcerr⟩ | ⟨e, herr, hexit, hcerr⟩
      · rw [hexit, hcerr, hok, hquiet hok]
        refine ⟨⟨nofun, nofun⟩, ⟨fun _ => rfl, fun _ => rfl⟩, fun hne => absurd rfl hne, ?_⟩
        exact fun heq => absurd heq.symm failure_ne_success
      · rw [hexit, hcerr, herr]
        refine ⟨⟨nofun, nofun⟩, ⟨fun heq => absurd heq failure_ne_success, nofun⟩, fun _ => rfl, ?_⟩
        intro _
        have hline : what e ++ ascii "\n" ≠ [] :=
          List.append_ne_nil_of_right_ne_nil _ (List.cons_ne_nil _ _)
        exact List.append_ne_nil_of_right_ne_nil _ hline

/-- `webget h /` over the slow network. -/
theorem main_success_iff_slow :
    ∃ out, main slow (fun _ => []) 40 [[119], [104], [47]] = some out ∧
      Served slow [104] [47] out := by
  have hexit : (main slow (fun _ => []) 40 [[119], [104], [47]]).map (·.exit) =
      some (.returned EXIT_SUCCESS) := by decide
  obtain ⟨out, hrun, hout⟩ := Option.map_eq_some_iff.1 hexit
  have hlen : ∀ argv0 host path, [[119], [104], [47]] = [argv0, host, path] →
      (request host path).length < 2 ^ 64 := by
    intro argv0 host path heq
    cases heq
    decide
  obtain ⟨-, hsuccess, -⟩ := (main_success_iff slow (fun _ => []) _ hlen).2 40 out hrun
  obtain ⟨argv0, host, path, heq, hserved⟩ := hsuccess.1 hout
  cases heq
  exact ⟨out, hrun, hserved⟩

end Sponge.Webget
