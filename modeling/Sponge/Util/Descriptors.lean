import Mathlib.Data.Finset.Basic
import Mathlib.Logic.Function.Basic
import Sponge.Lib.CString
import Sponge.Lib.Machine
import Sponge.Util.Handles
import Sponge.Util.Socket

/-!
# The descriptors of a process

All the objects of a program that own descriptors, and the kernel's table of those that are open. A
descriptor comes in through one of the constructors, some of which find fault with it when they have
it and throw; it is shared, moved, closed explicitly or by the destructor of its wrapper, and its
number is free for the kernel to use again.

* `Process`, `step` — the objects, the wrappers and the table, and the operations; a `::close` that
  fails may free its number or leave it in use;
* `Stable` — what outlasts every operation but an explicit `close`;
* `Wired` — every open descriptor belongs to a wrapper that somebody holds and nobody has closed,
  except for those that a destructor has left open;
* `no_leak` — what is open when all objects are gone;
* `Owned` — and those wrappers have open descriptors, each its own;
* `owned_iff` — when a run keeps to that.
-/

namespace Sponge

open Lib FileDescriptor Socket

/-! ### TUN and TAP devices -/

namespace TunTapFD

def IFF_TUN : ℕ := 1
def IFF_TAP : ℕ := 2
def IFF_NO_PI : ℕ := 0x1000

def ifNameSize : ℕ := 16

/-- The members of `ifreq` that the constructor sets. -/
structure Ifreq where
  name : List UInt8
  flags : ℕ
  deriving DecidableEq, Repr

/-- `strncpy(dest, src, n)`, into a destination of its own. -/
def strncpy (src : List UInt8) (n : ℕ) : List UInt8 :=
  let copied := (cStr 0 src).take n
  copied ++ List.replicate (n - copied.length) 0

/-- The request that `TunTapFD(devname, is_tun)` makes. -/
def tunReq (devname : List UInt8) (isTun : Bool) : Ifreq where
  name := strncpy devname (ifNameSize - 1) ++ [0]
  flags := (if isTun then IFF_TUN else IFF_TAP) ||| IFF_NO_PI

lemma length_strncpy (src : List UInt8) (n : ℕ) : (strncpy src n).length = n := by
  simp only [strncpy, List.length_append, List.length_take, List.length_replicate]
  omega

/-- The name fills the member, and ends in it: the kernel reads the first 15 bytes of the name
given, or those before a NUL in it. -/
theorem tunReq_name (devname : List UInt8) (isTun : Bool) :
    (tunReq devname isTun).name.length = ifNameSize ∧
      cStr 0 (tunReq devname isTun).name = (cStr 0 devname).take (ifNameSize - 1) := by
  constructor
  · rw [tunReq, List.length_append, length_strncpy]
    rfl
  · have hcopied : ∀ b ∈ (cStr 0 devname).take (ifNameSize - 1), b ≠ 0 :=
      fun _ hb => ne_of_mem_cStr (List.mem_of_mem_take hb)
    simp only [tunReq, strncpy, List.append_assoc, ← List.replicate_succ', List.replicate_succ]
    exact cStr_append_nul hcopied _

end TunTapFD

/-! ### The process -/

namespace Descriptors

/-- An object that owns a descriptor: gone, without a pointer, or with a pointer to a wrapper. -/
inductive Object where
  | destroyed
  | empty
  | holds (p : ℕ)
  deriving DecidableEq

/-- The objects made so far, the wrappers that live, by the number of their making, and the open
descriptors; with those that a destructor has left open. -/
structure Process where
  objects : List Object
  wrappers : ℕ → Option FDWrapper
  made : ℕ
  opened : Finset ℕ
  abandoned : Finset ℕ

/-- An answer of a system call that opens a descriptor. -/
abbrev Opens : Type := SysAnswer fun v => 0 ≤ v ∧ v < 2 ^ 31

/-- An answer of `::close`, and whether the number is free after the call: if the call fails,
`close(2)` may have freed it all the same, and on Linux it has. -/
structure CloseAnswer where
  answer : ZeroAnswer
  frees : Bool
  frees_of_ok : answer.returnValue = 0 → frees = true

def succeeded : CloseAnswer := ⟨Handles.succeeded, true, fun _ => rfl⟩

def badDescriptor : ZeroAnswer := ⟨-1, 9, .inl ⟨rfl, by decide⟩⟩

namespace Process

def start : Process := ⟨[], fun _ => none, 0, ∅, ∅⟩

variable (s : Process)

/-- What `::close` answers: the answer given, if the descriptor is open. -/
def answer (fd : ℕ) (a : CloseAnswer) : CloseAnswer :=
  if fd ∈ s.opened then a else ⟨badDescriptor, true, fun _ => rfl⟩

def free (fd : ℕ) : Process :=
  { s with opened := s.opened.erase fd, abandoned := s.abandoned.erase fd }

/-- The object, unless it was never made or is gone. -/
def object (h : ℕ) : Option Object :=
  match s.objects[h]? with
  | some .destroyed => none
  | o => o

/-- The destructor of a wrapper, if nobody holds it any more. -/
def letGo (p : ℕ) (a : CloseAnswer) : Process :=
  if .holds p ∈ s.objects then s
  else
    match s.wrappers p with
    | none => s
    | some w =>
      let call := s.answer w.fd a
      let gone := { s with wrappers := Function.update s.wrappers p none }
      match (w.destruct [] call.answer).2 with
      | [] => gone
      | _ :: _ =>
        if call.frees then gone.free w.fd
        else { gone with abandoned := insert w.fd s.abandoned }

/-- What an object leaves behind that is gone or has been assigned to. -/
def letGoOf (o : Object) (a : CloseAnswer) : Process :=
  match o with
  | .holds p => s.letGo p a
  | _ => s

def destroy (h : ℕ) (o : Object) (a : CloseAnswer) : Process :=
  letGoOf { s with objects := s.objects.set h .destroyed } o a

/-- `make_shared<FDWrapper>(fd)`, in a new object. -/
def create (fd : ℕ) : Process :=
  { s with
    objects := s.objects ++ [.holds s.made]
    wrappers := Function.update s.wrappers s.made (some { fd })
    made := s.made + 1
    opened := insert fd s.opened }

/-- The end of a constructor: if it throws, its object, the last one made, goes again. -/
def finish (o : Object) (check : Except Exn Unit) (a : CloseAnswer) :
    Option (Except Exn Unit) × Process :=
  match check with
  | .ok () => (some (.ok ()), s)
  | .error e => (some (.error e), s.destroy (s.objects.length - 1) o a)

/-- A constructor that opens a descriptor, with what it checks then. The kernel gives no number that
is in use. -/
def acquire (attempt : String) (opens : Opens) (check : Except Exn Unit) (a : CloseAnswer) :
    Option (Except Exn Unit) × Process :=
  match systemCall attempt opens.returnValue opens.errno 0 with
  | .error e => (some (.error e), s)
  | .ok fd =>
    if fd.toNat ∈ s.opened then (none, s)
    else (s.create fd.toNat).finish (.holds s.made) check a

/-- A wrapper, changed by a method. -/
def setWrapper (p : ℕ) (w : FDWrapper) : Process :=
  { s with wrappers := Function.update s.wrappers p (some w) }

/-- `FDWrapper::close()`, called explicitly. -/
def close (p : ℕ) (w : FDWrapper) (a : CloseAnswer) : Except Exn Unit × Process :=
  let call := s.answer w.fd a
  let r := w.close [] call.answer
  let after := s.setWrapper p r.2.1
  (r.1, if call.frees then after.free w.fd else after)

end Process

/-- The operations on an object, by its number; with an answer for `::close` if it comes to it. -/
inductive Op where
  /-- `FileDescriptor(SystemCall(attempt, …))`, and `Socket(domain, type)`. -/
  | openFd (attempt : String) (opens : Opens)
  /-- `TunTapFD(devname, is_tun)`. -/
  | tunTap (devname : List UInt8) (isTun : Bool) (opens : Opens)
    (ioctl : TunTapFD.Ifreq → ZeroAnswer) (a : CloseAnswer)
  /-- `Socket(std::move(h), domain, type)`. -/
  | socket (h : ℕ) (domain type : ℤ) (actualDomain actualType : Sockopt) (a : CloseAnswer)
  /-- `h.accept()`. -/
  | accept (h : ℕ) (opens : Opens) (actualDomain actualType : Sockopt) (a : CloseAnswer)
  | duplicate (h : ℕ)
  | move (h : ℕ)
  /-- `h = std::move(k)`. -/
  | assign (h k : ℕ) (a : CloseAnswer)
  | close (h : ℕ) (a : CloseAnswer)
  | destroy (h : ℕ) (a : CloseAnswer)

def check (attempt : String) (a : ZeroAnswer) : Except Exn Unit :=
  match systemCall attempt a.returnValue a.errno 0 with
  | .error e => .error e
  | .ok _ => .ok ()

/-- One operation. One on an object that is not there or was moved from is none that a program can
make, and does nothing. -/
def step (s : Process) : Op → Option (Except Exn Unit) × Process
  | .openFd attempt opens => s.acquire attempt opens (.ok ()) succeeded
  | .tunTap devname isTun opens ioctl a =>
    s.acquire "open" opens (check "ioctl" (ioctl (TunTapFD.tunReq devname isTun))) a
  | .socket h domain type actualDomain actualType a =>
    match s.object h with
    | some (.holds p) =>
      Process.finish { s with objects := s.objects.set h .empty ++ [.holds p] } (.holds p)
        (ofFileDescriptor domain type actualDomain actualType) a
    | _ => (none, s)
  | .accept h opens actualDomain actualType a =>
    match s.object h with
    | some (.holds p) =>
      match s.wrappers p with
      | some w => (s.setWrapper p (registerRead w)).acquire "accept" opens
          (ofFileDescriptor AF_INET SOCK_STREAM actualDomain actualType) a
      | none => (none, s)
    | _ => (none, s)
  | .duplicate h =>
    match s.object h with
    | some o => (some (.ok ()), { s with objects := s.objects ++ [o] })
    | none => (none, s)
  | .move h =>
    match s.object h with
    | some o => (some (.ok ()), { s with objects := s.objects.set h .empty ++ [o] })
    | none => (none, s)
  | .assign h k a =>
    match s.object h, s.object k with
    | some old, some o =>
      if h = k then (some (.ok ()), s)
      else (some (.ok ()),
        Process.letGoOf { s with objects := (s.objects.set h o).set k .empty } old a)
    | _, _ => (none, s)
  | .close h a =>
    match s.object h with
    | some (.holds p) =>
      match s.wrappers p with
      | some w => (some (s.close p w a).1, (s.close p w a).2)
      | none => (none, s)
    | _ => (none, s)
  | .destroy h a =>
    match s.object h with
    | some o => (some (.ok ()), s.destroy h o a)
    | none => (none, s)

def machine : Machine Process Op (Option (Except Exn Unit)) := ⟨step⟩

@[simp] lemma machine_step (s : Process) (op : Op) : machine.step s op = step s op := rfl

/-! ### What the operations are made of -/

/-- The wrapper numbered `p` lives and has not been closed, and its descriptor is `fd`. -/
def Process.Owns (s : Process) (p fd : ℕ) : Prop :=
  ∃ w, s.wrappers p = some w ∧ w.closed = false ∧ w.fd = fd

/-- All that the end of a pointer to the wrapper `p` can do. -/
inductive LetsGo (s : Process) (p : ℕ) : Process → Prop
  | held (mem : .holds p ∈ s.objects) : LetsGo s p s
  | absent (nobody : .holds p ∉ s.objects) (wrapper : s.wrappers p = none) : LetsGo s p s
  | closed (nobody : .holds p ∉ s.objects) (w : FDWrapper) (wrapper : s.wrappers p = some w)
      (closed : w.closed = true) :
      LetsGo s p { s with wrappers := Function.update s.wrappers p none }
  | frees (nobody : .holds p ∉ s.objects) (fd : ℕ) (owns : s.Owns p fd) :
      LetsGo s p { s with
        wrappers := Function.update s.wrappers p none
        opened := s.opened.erase fd
        abandoned := s.abandoned.erase fd }
  | abandons (nobody : .holds p ∉ s.objects) (fd : ℕ) (owns : s.Owns p fd) (mem : fd ∈ s.opened) :
      LetsGo s p { s with
        wrappers := Function.update s.wrappers p none
        abandoned := insert fd s.abandoned }

lemma letsGo (s : Process) (p : ℕ) (a : CloseAnswer) : LetsGo s p (s.letGo p a) := by
  unfold Process.letGo
  split
  · rename_i hheld
    exact .held hheld
  rename_i hnobody
  split
  · rename_i hw
    exact .absent hnobody hw
  · rename_i w hw
    cases hclosed : w.closed with
    | true =>
      simp only [w.destruct_of_closed hclosed]
      exact .closed hnobody w hw hclosed
    | false =>
      have howns : s.Owns p w.fd := ⟨w, hw, hclosed, rfl⟩
      simp only [w.destruct_calls hclosed, List.nil_append]
      split
      · exact .frees hnobody w.fd howns
      · rename_i hkept
        refine .abandons hnobody w.fd howns ?_
        by_contra hout
        unfold Process.answer at hkept
        rw [if_neg hout] at hkept
        exact hkept rfl

/-- `P` outlasts all that the operations are made of, but for an explicit `close`. The wrapper
`loose`, if any, may have nobody who holds it. -/
structure Stable (P : (loose : Option ℕ) → Process → Prop) : Prop where
  objects : ∀ {s : Process} {objects : List Object} {loose : Option ℕ}, P none s →
    (∀ q, .holds q ∈ objects → .holds q ∈ s.objects) →
    (∀ q, .holds q ∈ s.objects → .holds q ∈ objects ∨ loose = some q) →
    P loose { s with objects }
  letGo : ∀ {s s' : Process} {p : ℕ}, P (some p) s → LetsGo s p s' → P none s'
  create : ∀ {s : Process} {fd : ℕ}, P none s → fd ∉ s.opened → P none (s.create fd)
  setWrapper : ∀ {s : Process} {p : ℕ} {w w' : FDWrapper}, P none s → s.wrappers p = some w →
    w'.fd = w.fd → w'.closed = w.closed → P none (s.setWrapper p w')

lemma holds_set {objects : List Object} {i : ℕ} {o o' : Object} (hi : objects[i]? = some o)
    (ho' : ∀ q, o' ≠ .holds q) (q : ℕ) :
    (.holds q ∈ objects.set i o' → .holds q ∈ objects) ∧
      (.holds q ∈ objects → .holds q ∈ objects.set i o' ∨ o = .holds q) := by
  constructor
  · intro hq
    exact (List.mem_or_eq_of_mem_set hq).resolve_right fun heq => ho' q heq.symm
  · intro hq
    obtain ⟨j, hj⟩ := List.mem_iff_getElem?.1 hq
    by_cases hij : i = j
    · subst hij
      rw [hi] at hj
      exact .inr (Option.some.inj hj)
    · refine .inl (List.mem_of_getElem? (i := j) ?_)
      rwa [List.getElem?_set_ne hij]

lemma object_eq {s : Process} {h : ℕ} {o : Object} (ho : s.object h = some o) :
    s.objects[h]? = some o := by
  unfold Process.object at ho
  split at ho
  · cases ho
  · exact ho

namespace Stable

variable {P : Option ℕ → Process → Prop} {s : Process}

lemma letGoOf (hP : Stable P) (h : P none s) {objects : List Object} (o : Object) (a : CloseAnswer)
    (hsub : ∀ q, .holds q ∈ objects → .holds q ∈ s.objects)
    (hsup : ∀ q, .holds q ∈ s.objects → .holds q ∈ objects ∨ o = .holds q) :
    P none (Process.letGoOf { s with objects } o a) := by
  cases o with
  | destroyed =>
    exact hP.objects h hsub fun q hq => .inl ((hsup q hq).resolve_right fun ho => (by cases ho))
  | empty =>
    exact hP.objects h hsub fun q hq => .inl ((hsup q hq).resolve_right fun ho => (by cases ho))
  | holds p =>
    refine hP.letGo (hP.objects h hsub fun q hq => (hsup q hq).imp_right ?_) (letsGo _ p a)
    intro ho
    cases ho
    rfl

lemma moved (hP : Stable P) (h : P none s) {i : ℕ} {o : Object} (hi : s.objects[i]? = some o) :
    P none { s with objects := s.objects.set i .empty ++ [o] } := by
  have hempty : ∀ q, Object.empty ≠ .holds q := fun q heq => by cases heq
  have hset := holds_set hi hempty
  refine hP.objects h ?_ ?_
  · intro q hq
    rcases List.mem_append.1 hq with hq | hq
    · exact (hset q).1 hq
    · rw [List.mem_singleton.1 hq]
      exact List.mem_of_getElem? hi
  · intro q hq
    refine .inl (List.mem_append.2 (((hset q).2 hq).imp_right fun heq => ?_))
    rw [heq]
    exact List.mem_singleton.2 rfl

lemma assigned (hP : Stable P) (h : P none s) {i k : ℕ} {old o : Object}
    (hi : s.objects[i]? = some old) (hk : s.objects[k]? = some o) (hne : i ≠ k) (a : CloseAnswer) :
    P none (Process.letGoOf { s with objects := (s.objects.set i o).set k .empty } old a) := by
  refine hP.letGoOf h old a ?_ ?_
  · intro q hq
    have hq := (List.mem_or_eq_of_mem_set hq).resolve_right fun heq => by cases heq
    rcases List.mem_or_eq_of_mem_set hq with hq | heq
    · exact hq
    · rw [heq]
      exact List.mem_of_getElem? hk
  · intro q hq
    obtain ⟨j, hj⟩ := List.mem_iff_getElem?.1 hq
    by_cases hij : j = i
    · subst hij
      rw [hi] at hj
      exact .inr (Option.some.inj hj)
    · left
      by_cases hkj : j = k
      · -- what was in `k` is in `i` now
        subst hkj
        rw [hk] at hj
        obtain ⟨hlt, -⟩ := List.getElem?_eq_some_iff.1 hi
        refine List.mem_of_getElem? (i := i) ?_
        rw [List.getElem?_set_ne (Ne.symm hne), List.getElem?_set_self hlt, hj]
      · refine List.mem_of_getElem? (i := j) ?_
        rwa [List.getElem?_set_ne (Ne.symm hkj), List.getElem?_set_ne (Ne.symm hij)]

lemma destroy (hP : Stable P) (h : P none s) {i : ℕ} {o : Object} (hi : s.objects[i]? = some o)
    (a : CloseAnswer) : P none (s.destroy i o a) :=
  hP.letGoOf h o a (fun q => (holds_set hi (fun _ heq => by cases heq) q).1)
    fun q => (holds_set hi (fun _ heq => by cases heq) q).2

lemma finish (hP : Stable P) (h : P none s) {o : Object}
    (hlast : s.objects[s.objects.length - 1]? = some o) (c : Except Exn Unit) (a : CloseAnswer) :
    P none (s.finish o c a).2 := by
  cases c with
  | ok u => exact h
  | error e => exact hP.destroy h hlast a

lemma acquire (hP : Stable P) (h : P none s) (attempt : String) (opens : Opens)
    (c : Except Exn Unit) (a : CloseAnswer) : P none (s.acquire attempt opens c a).2 := by
  unfold Process.acquire
  split
  · exact h
  · split
    · exact h
    · rename_i hfd
      exact hP.finish (hP.create h hfd) (by simp [Process.create]) c a

/-- **One operation**, unless it is an explicit `close`. -/
theorem step (hP : Stable P) (h : P none s) {op : Op} (hop : ∀ h a, op ≠ .close h a) :
    P none (step s op).2 := by
  cases op with
  | openFd attempt opens => exact hP.acquire h ..
  | tunTap devname isTun opens ioctl a => exact hP.acquire h ..
  | socket i domain type actualDomain actualType a =>
    simp only [Descriptors.step]
    split
    · rename_i p hobject
      exact hP.finish (hP.moved h (object_eq hobject)) (by simp) _ a
    · exact h
  | accept i opens actualDomain actualType a =>
    simp only [Descriptors.step]
    split
    · split
      · rename_i w hw
        have hread : P none (s.setWrapper _ (registerRead w)) := hP.setWrapper h hw rfl rfl
        exact hP.acquire hread ..
      · exact h
    · exact h
  | duplicate i =>
    simp only [Descriptors.step]
    split
    · rename_i o hobject
      refine hP.objects h ?_ fun q hq => .inl (List.mem_append_left _ hq)
      intro q hq
      rcases List.mem_append.1 hq with hq | hq
      · exact hq
      · rw [List.mem_singleton.1 hq]
        exact List.mem_of_getElem? (object_eq hobject)
    · exact h
  | move i =>
    simp only [Descriptors.step]
    split
    · rename_i o hobject
      exact hP.moved h (object_eq hobject)
    · exact h
  | assign i k a =>
    simp only [Descriptors.step]
    split
    · rename_i old o hi hk
      split
      · exact h
      · rename_i hne
        exact hP.assigned h (object_eq hi) (object_eq hk) hne a
    · exact h
  | close i a => exact absurd rfl (hop i a)
  | destroy i a =>
    simp only [Descriptors.step]
    split
    · rename_i o hobject
      exact hP.destroy h (object_eq hobject) a
    · exact h

end Stable

/-! ### Who holds a wrapper -/

/-- **The first invariant**, of every run. -/
structure Wired (loose : Option ℕ) (s : Process) : Prop where
  /-- no object points to a wrapper that is gone -/
  lives : ∀ p, .holds p ∈ s.objects → (s.wrappers p).isSome
  held : ∀ p, (s.wrappers p).isSome → .holds p ∈ s.objects ∨ loose = some p
  fresh : ∀ p, s.made ≤ p → s.wrappers p = none
  owner : ∀ fd ∈ s.opened, fd ∈ s.abandoned ∨ ∃ p, s.Owns p fd
  abandoned : s.abandoned ⊆ s.opened

lemma Process.Owns.inj {s : Process} {p fd fd' : ℕ} (h : s.Owns p fd) (h' : s.Owns p fd') :
    fd = fd' := by
  obtain ⟨w, hw, -, rfl⟩ := h
  obtain ⟨v, hv, -, rfl⟩ := h'
  rw [hw] at hv
  cases hv
  rfl

lemma not_owns_of_closed {s : Process} {p fd : ℕ} {w : FDWrapper} (hw : s.wrappers p = some w)
    (hclosed : w.closed = true) : ¬ s.Owns p fd := by
  rintro ⟨v, hv, hopen, -⟩
  rw [hw] at hv
  cases hv
  rw [hclosed] at hopen
  cases hopen

lemma owns_update {s : Process} {p q fd : ℕ} {x : Option FDWrapper} {opened abandoned : Finset ℕ}
    (hne : q ≠ p) :
    Process.Owns { s with
      wrappers := Function.update s.wrappers p x
      opened
      abandoned } q fd ↔ s.Owns q fd := by
  simp [Process.Owns, hne]

lemma not_owns_update {s : Process} {p fd : ℕ} {x : Option FDWrapper} {opened abandoned : Finset ℕ}
    (hx : ∀ w, x = some w → w.closed = true) :
    ¬ Process.Owns { s with
      wrappers := Function.update s.wrappers p x
      opened
      abandoned } p fd := by
  rintro ⟨w, hw, hopen, -⟩
  replace hw : Function.update s.wrappers p x p = some w := hw
  rw [Function.update_self] at hw
  rw [hx w hw] at hopen
  cases hopen

lemma owns_setWrapper {s : Process} {p q fd : ℕ} {w w' : FDWrapper} (hw : s.wrappers p = some w)
    (hfd : w'.fd = w.fd) (hclosed : w'.closed = w.closed) :
    (s.setWrapper p w').Owns q fd ↔ s.Owns q fd := by
  by_cases hq : q = p
  · subst hq
    simp [Process.Owns, Process.setWrapper, hw, hfd, hclosed]
  · exact owns_update hq

lemma owns_create {s : Process} (hs : s.wrappers s.made = none) {fd q e : ℕ} :
    (s.create fd).Owns q e ↔ (q = s.made ∧ e = fd) ∨ s.Owns q e := by
  by_cases hq : q = s.made
  · subst hq
    have hself : (s.create fd).wrappers s.made = some { fd } := Function.update_self ..
    constructor
    · rintro ⟨w, hw, -, rfl⟩
      rw [hself] at hw
      cases hw
      exact .inl ⟨rfl, rfl⟩
    · rintro (⟨-, rfl⟩ | ⟨w, hw, -⟩)
      · exact ⟨_, hself, rfl, rfl⟩
      · rw [hs] at hw
        cases hw
  · simp [Process.Owns, Process.create, hq]

namespace Wired

variable {s : Process} {loose : Option ℕ}

lemma start : Wired none Process.start where
  lives := fun _ h => (by cases h)
  held := fun _ h => (by cases h)
  fresh := fun _ _ => rfl
  owner := fun fd h => absurd h (Finset.notMem_empty fd)
  abandoned := Finset.Subset.refl _

lemma made_of_wrapper (h : Wired loose s) {p : ℕ} {w : FDWrapper} (hw : s.wrappers p = some w) :
    p < s.made := by
  by_contra hle
  have hnone := h.fresh p (Nat.le_of_not_lt hle)
  rw [hw] at hnone
  cases hnone

/-- The wrapper `p` is changed, or gone if nobody holds it. Every descriptor that is open still
belongs to some wrapper, or is given up. -/
lemma update {p : ℕ} (h : Wired loose s) (hloose : loose = none ∨ loose = some p)
    {x : Option FDWrapper} (hheld : x.isSome ↔ .holds p ∈ s.objects)
    (hmade : x.isSome → p < s.made) {opened abandoned : Finset ℕ}
    (howner : ∀ fd ∈ opened, fd ∈ abandoned ∨ ∃ q, Process.Owns { s with
      wrappers := Function.update s.wrappers p x
      opened
      abandoned } q fd)
    (hsub : abandoned ⊆ opened) :
    Wired none { s with
      wrappers := Function.update s.wrappers p x
      opened
      abandoned } := by
  refine ⟨?_, ?_, ?_, howner, hsub⟩
  · intro q hq
    show (Function.update s.wrappers p x q).isSome
    by_cases heq : q = p
    · subst heq
      rw [Function.update_self]
      exact hheld.2 hq
    · rw [Function.update_of_ne heq]
      exact h.lives q hq
  · intro q hq
    replace hq : (Function.update s.wrappers p x q).isSome = true := hq
    by_cases heq : q = p
    · subst heq
      rw [Function.update_self] at hq
      exact .inl (hheld.1 hq)
    · rw [Function.update_of_ne heq] at hq
      refine .inl ((h.held q hq).resolve_right fun hl => ?_)
      rcases hloose with hnone | hsome
      · rw [hnone] at hl
        cases hl
      · exact heq (Option.some.inj (hl.symm.trans hsome))
  · intro q hq
    show Function.update s.wrappers p x q = none
    by_cases heq : q = p
    · subst heq
      rw [Function.update_self, ← Option.not_isSome_iff_eq_none]
      exact fun hsome => Nat.lt_irrefl _ (Nat.lt_of_lt_of_le (hmade hsome) hq)
    · rw [Function.update_of_ne heq]
      exact h.fresh q hq

lemma owner_update (h : Wired loose s) {p : ℕ} {x : Option FDWrapper} {opened abandoned : Finset ℕ}
    {fd : ℕ} (hfd : fd ∈ s.opened) (hkeep : fd ∈ s.abandoned → fd ∈ abandoned)
    (hother : ¬ s.Owns p fd) :
    fd ∈ abandoned ∨ ∃ q, Process.Owns { s with
      wrappers := Function.update s.wrappers p x
      opened
      abandoned } q fd := by
  refine (h.owner fd hfd).imp hkeep ?_
  rintro ⟨q, hq⟩
  refine ⟨q, (owns_update ?_).2 hq⟩
  rintro rfl
  exact hother hq

/-- **The end of a pointer** to a wrapper. -/
lemma letGo {p : ℕ} (h : Wired (some p) s) {s' : Process} (hgo : LetsGo s p s') :
    Wired none s' := by
  have hnone (hnobody : .holds p ∉ s.objects) :
      (none : Option FDWrapper).isSome ↔ .holds p ∈ s.objects := by simp [hnobody]
  have hmade : (none : Option FDWrapper).isSome → p < s.made := fun hs => by cases hs
  cases hgo with
  | held hheld =>
    exact ⟨h.lives, fun q hq => .inl ((h.held q hq).elim id fun hl =>
      Option.some.inj hl ▸ hheld), h.fresh, h.owner, h.abandoned⟩
  | absent hnobody hw =>
    refine ⟨h.lives, ?_, h.fresh, h.owner, h.abandoned⟩
    intro q hq
    refine .inl ((h.held q hq).resolve_right fun hl => ?_)
    rw [← Option.some.inj hl, hw] at hq
    cases hq
  | closed hnobody w hw hclosed =>
    refine h.update (.inr rfl) (hnone hnobody) hmade ?_ h.abandoned
    exact fun fd hfd => h.owner_update hfd id (not_owns_of_closed hw hclosed)
  | frees hnobody fd howns =>
    refine h.update (.inr rfl) (hnone hnobody) hmade ?_ (Finset.erase_subset_erase _ h.abandoned)
    intro e he
    obtain ⟨hne, hin⟩ := Finset.mem_erase.1 he
    refine h.owner_update hin (fun hab => Finset.mem_erase.2 ⟨hne, hab⟩) fun hp => ?_
    exact hne (hp.inj howns)
  | abandons hnobody fd howns hmem =>
    refine h.update (.inr rfl) (hnone hnobody) hmade ?_ ?_
    · intro e he
      by_cases heq : e = fd
      · exact .inl (heq ▸ Finset.mem_insert_self _ _)
      · exact h.owner_update he Finset.mem_insert_of_mem fun hp => heq (hp.inj howns)
    · intro e he
      rcases Finset.mem_insert.1 he with rfl | he
      · exact hmem
      · exact h.abandoned he

lemma create (h : Wired none s) (fd : ℕ) : Wired none (s.create fd) := by
  have hnone : s.wrappers s.made = none := h.fresh _ (Nat.le_refl _)
  refine ⟨?_, ?_, ?_, ?_, ?_⟩
  · intro q hq
    by_cases heq : q = s.made
    · subst heq
      simp [Process.create]
    · rcases List.mem_append.1 hq with hq | hq
      · simpa [Process.create, Function.update_of_ne heq] using h.lives q hq
      · cases List.mem_singleton.1 hq
        exact absurd rfl heq
  · intro q hq
    by_cases heq : q = s.made
    · subst heq
      exact .inl (List.mem_append_right _ (List.mem_singleton.2 rfl))
    · have hq' : (s.wrappers q).isSome := by
        simpa [Process.create, Function.update_of_ne heq] using hq
      exact (h.held q hq').imp_left (List.mem_append_left _)
  · intro q hq
    have hlt : s.made + 1 ≤ q := hq
    have hne : q ≠ s.made := by omega
    show Function.update s.wrappers s.made _ q = none
    rw [Function.update_of_ne hne]
    exact h.fresh q (by omega)
  · intro e he
    rcases Finset.mem_insert.1 he with rfl | he
    · exact .inr ⟨s.made, (owns_create hnone).2 (.inl ⟨rfl, rfl⟩)⟩
    · exact (h.owner e he).imp_right fun ⟨q, hq⟩ => ⟨q, (owns_create hnone).2 (.inr hq)⟩
  · exact fun e he => Finset.mem_insert_of_mem (h.abandoned he)

lemma setWrapper (h : Wired none s) {p : ℕ} {w w' : FDWrapper} (hw : s.wrappers p = some w)
    (hfd : w'.fd = w.fd) (hclosed : w'.closed = w.closed) : Wired none (s.setWrapper p w') := by
  have hheld : (some w').isSome ↔ .holds p ∈ s.objects := by
    refine iff_of_true rfl ((h.held p (by rw [hw]; rfl)).resolve_right fun hn => ?_)
    cases hn
  refine h.update (.inl rfl) hheld (fun _ => h.made_of_wrapper hw) ?_ h.abandoned
  intro fd hin
  refine (h.owner fd hin).imp_right ?_
  rintro ⟨q, hq⟩
  exact ⟨q, (owns_setWrapper hw hfd hclosed).2 hq⟩

lemma free (h : Wired none s) (fd : ℕ) : Wired none (s.free fd) := by
  refine ⟨h.lives, h.held, h.fresh, ?_, Finset.erase_subset_erase _ h.abandoned⟩
  intro e he
  obtain ⟨hne, hin⟩ := Finset.mem_erase.1 he
  exact (h.owner e hin).imp_left fun hab => Finset.mem_erase.2 ⟨hne, hab⟩

lemma stable : Stable Wired where
  objects := by
    intro s objects loose h hsub hsup
    refine ⟨fun q hq => h.lives q (hsub q hq), fun q hq => ?_, h.fresh, h.owner, h.abandoned⟩
    exact (h.held q hq).elim (hsup q) fun hn => by cases hn
  letGo := fun h hgo => h.letGo hgo
  create := fun h _ => h.create _
  setWrapper := fun h hw hfd hclosed => h.setWrapper hw hfd hclosed

end Wired

/-- All that an explicit `close` can do: it closes the wrapper and frees the number, or it fails,
and frees the number or not. -/
inductive Closes (s : Process) (p : ℕ) (w : FDWrapper) (a : CloseAnswer) : Process → Prop
  | succeeds (mem : w.fd ∈ s.opened) (ok : a.answer.returnValue = 0) :
      Closes s p w a ((s.setWrapper p { w with eof := true, closed := true }).free w.fd)
  | failsFreeing (mem : w.fd ∈ s.opened) (fails : a.answer.returnValue ≠ 0)
      (frees : a.frees = true) :
      Closes s p w a ((s.setWrapper p w).free w.fd)
  | fails (keeps : ¬ (w.fd ∈ s.opened ∧ a.frees = true)) : Closes s p w a (s.setWrapper p w)

lemma close_of_fail {w : FDWrapper} {calls : List ZeroAnswer} {a : ZeroAnswer}
    (h : a.returnValue ≠ 0) : (w.close calls a).2.1 = w := by
  obtain ⟨rv, errno, ⟨rfl, he⟩ | rfl⟩ := a
  · unfold FDWrapper.close
    rw [systemCall_of_fail he]
  · exact absurd rfl h

lemma close_of_ok {w : FDWrapper} {calls : List ZeroAnswer} {a : ZeroAnswer}
    (h : a.returnValue = 0) : (w.close calls a).2.1 = { w with eof := true, closed := true } := by
  obtain ⟨rv, errno, ⟨rfl, he⟩ | rfl⟩ := a
  · cases h
  · rfl

lemma free_of_notMem {s : Process} {fd : ℕ} (hs : s.abandoned ⊆ s.opened) (h : fd ∉ s.opened) :
    s.free fd = s := by
  unfold Process.free
  rw [Finset.erase_eq_of_notMem h, Finset.erase_eq_of_notMem fun hab => h (hs hab)]

lemma closes {s : Process} (hs : s.abandoned ⊆ s.opened) (p : ℕ) (w : FDWrapper) (a : CloseAnswer) :
    Closes s p w a (s.close p w a).2 := by
  unfold Process.close
  by_cases hin : w.fd ∈ s.opened
  · have hcall : s.answer w.fd a = a := if_pos hin
    simp only [hcall]
    by_cases hok : a.answer.returnValue = 0
    · rw [close_of_ok hok, if_pos (a.frees_of_ok hok)]
      exact .succeeds hin hok
    · rw [close_of_fail hok]
      split
      · rename_i hfrees
        exact .failsFreeing hin hok hfrees
      · rename_i hkept
        exact .fails fun h => hkept h.2
  · have hcall : s.answer w.fd a = ⟨badDescriptor, true, fun _ => rfl⟩ := if_neg hin
    simp only [hcall, if_true]
    rw [close_of_fail (by decide), free_of_notMem (s := s.setWrapper p w) hs hin]
    exact .fails fun h => hin h.1

/-- **An explicit `close`** leaves no open descriptor without a wrapper. -/
lemma Wired.close {s s' : Process} (h : Wired none s) {p : ℕ} {w : FDWrapper} {a : CloseAnswer}
    (hw : s.wrappers p = some w) (hclose : Closes s p w a s') : Wired none s' := by
  have hsame : Wired none (s.setWrapper p w) := h.setWrapper hw rfl rfl
  cases hclose with
  | succeeds hmem hok =>
    have hheld (v : FDWrapper) : (some v).isSome ↔ .holds p ∈ s.objects := by
      refine iff_of_true rfl ((h.held p (by rw [hw]; rfl)).resolve_right fun hn => ?_)
      cases hn
    refine h.update (.inl rfl) (hheld _) (fun _ => h.made_of_wrapper hw) ?_
      (Finset.erase_subset_erase _ h.abandoned)
    intro fd hfd
    obtain ⟨hne, hin⟩ := Finset.mem_erase.1 hfd
    refine h.owner_update hin (fun hab => Finset.mem_erase.2 ⟨hne, hab⟩) ?_
    rintro ⟨v, hv, -, rfl⟩
    rw [hw] at hv
    cases hv
    exact hne rfl
  | failsFreeing hmem hfails hfrees => exact hsame.free w.fd
  | fails hkeeps => exact hsame

/-- **One operation**, whatever it is. -/
theorem Wired.step {s : Process} (h : Wired none s) (op : Op) : Wired none (step s op).2 := by
  by_cases hop : ∃ i a, op = .close i a
  · obtain ⟨i, a, rfl⟩ := hop
    simp only [Descriptors.step]
    split
    · split
      · rename_i w hw
        exact h.close hw (closes h.abandoned _ w a)
      · exact h
    · exact h
  · exact Wired.stable.step h fun i a heq => hop ⟨i, a, heq⟩

lemma wired_run (ops : List Op) : Wired none (machine.run Process.start ops) :=
  Machine.invariant Wired.start (fun _ op h => h.step op) ops

/-- **Nothing leaks.** When all objects are gone or without a pointer, no descriptor is open but
those that a destructor has left open. -/
theorem no_leak (ops : List Op) (hgone : ∀ p, .holds p ∉ (machine.run Process.start ops).objects) :
    (machine.run Process.start ops).opened = (machine.run Process.start ops).abandoned := by
  have hs := wired_run ops
  refine Finset.Subset.antisymm ?_ hs.abandoned
  intro fd hfd
  refine (hs.owner fd hfd).resolve_right ?_
  rintro ⟨p, w, hw, -⟩
  rcases hs.held p (by rw [hw]; rfl) with hholds | hloose
  · exact hgone p hholds
  · cases hloose

def gives (fd : ℕ) (h : fd < 2 ^ 31) : Opens := ⟨fd, 0, .inr ⟨by omega, by exact_mod_cast h⟩⟩

/-- A TUN device that is refused, and a descriptor with two handles, one of them closed. -/
theorem no_leak_refused :
    let ops : List Op := [.tunTap [116, 117, 110] true (gives 3 (by decide))
      (fun _ => badDescriptor) succeeded, .openFd "open" (gives 3 (by decide)), .duplicate 1,
      .close 1 succeeded, .destroy 1 succeeded, .destroy 2 succeeded]
    (machine.run Process.start ops).opened = (machine.run Process.start ops).abandoned := by
  intro ops
  have hobjects : (machine.run Process.start ops).objects =
      [.destroyed, .destroyed, .destroyed] := by decide
  refine no_leak ops fun p hp => ?_
  rw [hobjects] at hp
  simp at hp

/-! ### Who owns a descriptor -/

/-- **The second invariant**: the wrappers not closed own open descriptors, each its own. -/
structure Owned (loose : Option ℕ) (s : Process) : Prop extends Wired loose s where
  opened : ∀ p fd, s.Owns p fd → fd ∈ s.opened ∧ fd ∉ s.abandoned
  unique : ∀ p q fd, s.Owns p fd → s.Owns q fd → p = q

namespace Owned

variable {s : Process} {loose : Option ℕ}

lemma start : Owned none Process.start where
  toWired := Wired.start
  opened := fun _ _ ⟨_, h, _⟩ => (by cases h)
  unique := fun _ _ _ ⟨_, h, _⟩ => (by cases h)

lemma disown {p : ℕ} (h : Owned loose s) {x : Option FDWrapper}
    (hx : ∀ w, x = some w → w.closed = true) {opened abandoned : Finset ℕ}
    (hwired : Wired none { s with
      wrappers := Function.update s.wrappers p x
      opened
      abandoned })
    (hopened : ∀ q fd, q ≠ p → s.Owns q fd → fd ∈ opened ∧ fd ∉ abandoned) :
    Owned none { s with
      wrappers := Function.update s.wrappers p x
      opened
      abandoned } := by
  have hne {q fd : ℕ} (hq : Process.Owns { s with
      wrappers := Function.update s.wrappers p x
      opened
      abandoned } q fd) : q ≠ p := by
    rintro rfl
    exact not_owns_update hx hq
  refine ⟨hwired, fun q fd hq => ?_, fun q r fd hq hr => ?_⟩
  · exact hopened q fd (hne hq) ((owns_update (hne hq)).1 hq)
  · exact h.unique q r fd ((owns_update (hne hq)).1 hq) ((owns_update (hne hr)).1 hr)

lemma owns_ne (h : Owned loose s) {p q fd fd' : ℕ} (hp : s.Owns p fd) (hq : s.Owns q fd')
    (hne : q ≠ p) : fd' ≠ fd := by
  rintro rfl
  exact hne (h.unique q p _ hq hp)

lemma erase (h : Owned loose s) {p fd : ℕ} (hp : s.Owns p fd) {q e : ℕ} (hne : q ≠ p)
    (hq : s.Owns q e) : e ∈ s.opened.erase fd ∧ e ∉ s.abandoned.erase fd := by
  obtain ⟨hin, hab⟩ := h.opened q e hq
  exact ⟨Finset.mem_erase.2 ⟨h.owns_ne hp hq hne, hin⟩, fun he => hab (Finset.mem_of_mem_erase he)⟩

lemma letGo {p : ℕ} (h : Owned (some p) s) {s' : Process} (hgo : LetsGo s p s') :
    Owned none s' := by
  have hwired : Wired none s' := h.toWired.letGo hgo
  have hgone : ∀ v : FDWrapper, none = some v → v.closed = true := fun v hv => by cases hv
  cases hgo with
  | held hheld => exact ⟨hwired, h.opened, h.unique⟩
  | absent hnobody hw => exact ⟨hwired, h.opened, h.unique⟩
  | closed hnobody w hw hclosed => exact h.disown hgone hwired fun q fd _ hq => h.opened q fd hq
  | frees hnobody fd howns => exact h.disown hgone hwired fun q e hne hq => h.erase howns hne hq
  | abandons hnobody fd howns hmem =>
    refine h.disown hgone hwired fun q e hne hq => ?_
    obtain ⟨hin, hab⟩ := h.opened q e hq
    refine ⟨hin, fun hmem => ?_⟩
    rcases Finset.mem_insert.1 hmem with heq | hmem
    · exact h.owns_ne howns hq hne heq
    · exact hab hmem

lemma create (h : Owned none s) {fd : ℕ} (hfd : fd ∉ s.opened) : Owned none (s.create fd) := by
  have hnone : s.wrappers s.made = none := h.fresh _ (Nat.le_refl _)
  refine ⟨h.toWired.create fd, ?_, ?_⟩
  · intro q e hq
    rcases (owns_create hnone).1 hq with ⟨-, rfl⟩ | hq
    · exact ⟨Finset.mem_insert_self _ _, fun hab => hfd (h.abandoned hab)⟩
    · exact ⟨Finset.mem_insert_of_mem (h.opened q e hq).1, (h.opened q e hq).2⟩
  · intro q r e hq hr
    rcases (owns_create hnone).1 hq with ⟨rfl, rfl⟩ | hold
    · rcases (owns_create hnone).1 hr with ⟨rfl, -⟩ | hold
      · rfl
      · exact absurd (h.opened r _ hold).1 hfd
    · rcases (owns_create hnone).1 hr with ⟨rfl, rfl⟩ | hold'
      · exact absurd (h.opened q _ hold).1 hfd
      · exact h.unique q r e hold hold'

lemma setWrapper (h : Owned none s) {p : ℕ} {w w' : FDWrapper} (hw : s.wrappers p = some w)
    (hfd : w'.fd = w.fd) (hclosed : w'.closed = w.closed) : Owned none (s.setWrapper p w') := by
  have howns {q e : ℕ} : (s.setWrapper p w').Owns q e ↔ s.Owns q e := owns_setWrapper hw hfd hclosed
  exact ⟨h.toWired.setWrapper hw hfd hclosed, fun q e hq => h.opened q e (howns.1 hq),
    fun q r e hq hr => h.unique q r e (howns.1 hq) (howns.1 hr)⟩

lemma stable : Stable Owned where
  objects := fun h hsub hsup => ⟨Wired.stable.objects h.toWired hsub hsup, h.opened, h.unique⟩
  letGo := fun h hgo => h.letGo hgo
  create := fun h hfd => h.create hfd
  setWrapper := fun h hw hfd hclosed => h.setWrapper hw hfd hclosed

end Owned

/-- An explicit `close` that frees the number of a wrapper that is not closed: of another one, which
got it after this one was closed; or of this one, if the call frees it and fails. -/
def Robs (m : Move Process Op (Option (Except Exn Unit))) : Prop :=
  ∃ h a p w, m.input = .close h a ∧ m.before.object h = some (.holds p) ∧
    m.before.wrappers p = some w ∧ w.fd ∈ m.before.opened ∧ w.fd ∉ m.before.abandoned ∧
    a.frees = true ∧ (w.closed = true ∨ a.answer.returnValue ≠ 0)

lemma not_robs {s : Process} {op : Op} (hop : ∀ h a, op ≠ .close h a) :
    ¬ Robs (machine.move s op) := fun ⟨h, a, _, _, heq, _⟩ => hop h a heq

/-- A number that is freed behind the wrappers' backs must be none of theirs. -/
lemma owned_free {s : Process} (hs : Owned none s) {fd : ℕ} (hin : fd ∈ s.opened) :
    Owned none (s.free fd) ↔ fd ∈ s.abandoned := by
  constructor
  · intro hafter
    refine (hs.owner fd hin).resolve_right ?_
    rintro ⟨q, hq⟩
    exact (Finset.mem_erase.1 (hafter.opened q fd hq).1).1 rfl
  · intro hab
    refine ⟨hs.toWired.free fd, fun q e hq => ?_, hs.unique⟩
    obtain ⟨hin', hab'⟩ := hs.opened q e hq
    have hne : e ≠ fd := fun heq => hab' (heq ▸ hab)
    exact ⟨Finset.mem_erase.2 ⟨hne, hin'⟩, fun he => hab' (Finset.mem_of_mem_erase he)⟩

/-- **An explicit `close`** keeps to the invariant exactly if it robs no wrapper. -/
lemma owned_close {s s' : Process} (hs : Owned none s) {p : ℕ} {w : FDWrapper} {a : CloseAnswer}
    (hw : s.wrappers p = some w) (hclose : Closes s p w a s') :
    Owned none s' ↔
      ¬ (w.fd ∈ s.opened ∧ w.fd ∉ s.abandoned ∧ a.frees = true ∧
        (w.closed = true ∨ a.answer.returnValue ≠ 0)) := by
  have hwired : Wired none s' := hs.toWired.close hw hclose
  cases hclose with
  | succeeds hmem hok =>
    cases hclosed : w.closed with
    | true =>
      have hset : Owned none (s.setWrapper p { w with eof := true, closed := true }) :=
        hs.setWrapper hw rfl hclosed.symm
      refine (owned_free hset hmem).trans ?_
      simp [Process.setWrapper, hmem, a.frees_of_ok hok]
    | false =>
      refine iff_of_true ?_ (by simp [hok])
      have hself : s.Owns p w.fd := ⟨w, hw, hclosed, rfl⟩
      refine hs.disown ?_ hwired fun q fd hne hq => hs.erase hself hne hq
      rintro v ⟨⟩
      rfl
  | failsFreeing hmem hfails hfrees =>
    refine (owned_free (hs.setWrapper hw rfl rfl) hmem).trans ?_
    simp [Process.setWrapper, hmem, hfrees, hfails]
  | fails hkeeps =>
    refine iff_of_true (hs.setWrapper hw rfl rfl) ?_
    rintro ⟨hmem, -, hfrees, -⟩
    exact hkeeps ⟨hmem, hfrees⟩

/-- **One operation** keeps to the invariant exactly if it robs no wrapper. -/
theorem owned_step {s : Process} (hs : Owned none s) (op : Op) :
    Owned none (step s op).2 ↔ ¬ Robs (machine.move s op) := by
  by_cases hop : ∃ i a, op = .close i a
  · obtain ⟨i, a, rfl⟩ := hop
    simp only [step]
    split
    · rename_i p hobject
      split
      · rename_i w hw
        refine (owned_close hs hw (closes hs.abandoned p w a)).trans (not_congr ⟨?_, ?_⟩)
        · rintro ⟨hin, hab, hfrees, hhow⟩
          exact ⟨i, a, p, w, rfl, hobject, hw, hin, hab, hfrees, hhow⟩
        · rintro ⟨_, _, p', w', heq, hobject', hw', hin, hab, hfrees, hhow⟩
          cases heq
          cases hobject.symm.trans hobject'
          cases hw.symm.trans hw'
          exact ⟨hin, hab, hfrees, hhow⟩
      · rename_i hw
        refine iff_of_true hs ?_
        rintro ⟨_, _, p', w', heq, hobject', hw', -⟩
        cases heq
        cases hobject.symm.trans hobject'
        cases hw.symm.trans hw'
    · rename_i hobject
      refine iff_of_true hs ?_
      rintro ⟨_, _, p', -, heq, hobject', -⟩
      cases heq
      exact hobject p' hobject'
  · have hclose : ∀ i a, op ≠ .close i a := fun i a heq => hop ⟨i, a, heq⟩
    exact iff_of_true (Owned.stable.step hs hclose) (not_robs hclose)

/-- **Who owns the open descriptors.** In a run of a process, from its start on, every open
descriptor belongs to one wrapper that somebody holds and nobody has closed, but for what a
destructor has left open; each wrapper not closed has an open descriptor, no object points to a
wrapper that is gone, and a constructor that throws leaves nothing — exactly if no explicit `close`
robs a wrapper. -/
theorem owned_iff (ops : List Op) :
    (∀ ops', ops' <+: ops → Owned none (machine.run Process.start ops')) ↔
      ∀ m ∈ machine.trace Process.start ops, ¬ Robs m :=
  Machine.invariant_iff Owned.start (fun _ op hs => owned_step hs op) ops

end Descriptors

end Sponge
