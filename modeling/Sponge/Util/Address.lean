import Sponge.Lib.ByteOrder
import Sponge.Lib.CString
import Sponge.Lib.Decimal
import Sponge.Util.Socket

/-!
# `Address`

The conversions of `address.cc`, on a host of either byte order. The two functions of the C library
that translate between names and socket addresses are a parameter, `Resolver`.

* `inet o ip port zero` — the IPv4 address with the given number, port and padding, as it lies in the
  memory of a host;
* `ipv4_numeric_exact` — `ipv4_numeric` tells exactly these from all others, and undoes
  `from_ipv4_numeric`;
* `address_round_trip` — an IPv4 address written out as text and read back is the same address, up to
  the padding.
-/

namespace Sponge.Address

open Lib

/-! ### The memory of an address -/

structure SockaddrIn where
  sinFamily : UInt16
  sinPort : UInt16
  sAddr : UInt32
  sinZero : List UInt8
  deriving DecidableEq, Repr

def sockaddrInSize : ℕ := 16

def AF_INET : UInt16 := 2

def SockaddrIn.memory (o : ByteOrder) (s : SockaddrIn) : List UInt8 :=
  o.store 2 s.sinFamily.toNat ++ o.store 2 s.sinPort.toNat ++ o.store 4 s.sAddr.toNat ++ s.sinZero

/-- The `sockaddr_in` that lies in some memory. -/
def SockaddrIn.ofMemory (o : ByteOrder) (bs : List UInt8) : SockaddrIn where
  sinFamily := UInt16.ofNat (o.load (bs.take 2))
  sinPort := UInt16.ofNat (o.load ((bs.drop 2).take 2))
  sAddr := UInt32.ofNat (o.load ((bs.drop 4).take 4))
  sinZero := (bs.drop 8).take 8

def htobe32 (o : ByteOrder) (x : UInt32) : UInt32 := UInt32.ofNat (o.htobe 4 x.toNat)

def be32toh (o : ByteOrder) (x : UInt32) : UInt32 := UInt32.ofNat (o.betoh 4 x.toNat)

/-- `_address.storage`, which is zero beyond the address. -/
def storage (a : Address) : List UInt8 := resize a.bytes storageSize

def ssFamily (o : ByteOrder) (a : Address) : UInt16 := UInt16.ofNat (o.load (a.storage.take 2))

def size (a : Address) : ℕ := a.bytes.length

def ipv4Numeric (o : ByteOrder) (a : Address) : Except Exn UInt32 :=
  if a.ssFamily o ≠ AF_INET ∨ a.size ≠ sockaddrInSize then
    .error (.runtimeError "ipv4_numeric called on non-IPV4 address")
  else .ok (be32toh o (SockaddrIn.ofMemory o (a.storage.take a.size)).sAddr)

def fromIpv4Numeric (o : ByteOrder) (ipAddress : UInt32) : Except Exn Address :=
  ofSockaddr (SockaddrIn.memory o ⟨AF_INET, 0, htobe32 o ipAddress, List.replicate 8 0⟩)

def equal (a other : Address) : Bool :=
  if a.size ≠ other.size then false else a.storage.take a.size = other.storage.take a.size

/-! ### IPv4 addresses -/

/-- The IPv4 address with the given number, port and padding. -/
def inet (o : ByteOrder) (ip : UInt32) (port : UInt16) (zero : List UInt8) : Address :=
  ⟨o.store 2 AF_INET.toNat ++ (toBigEndian 2 port.toNat ++ (toBigEndian 4 ip.toNat ++ zero))⟩

/-- `sin_zero` as it should be. -/
def zeros : List UInt8 := List.replicate 8 0

section Inet

variable {o : ByteOrder} {ip : UInt32} {port : UInt16} {zero : List UInt8}

lemma size_inet (hzero : zero.length = 8) : (inet o ip port zero).size = sockaddrInSize := by
  simp [size, inet, hzero, sockaddrInSize]

lemma storage_take {a : Address} (h : a.size ≤ storageSize) : a.storage.take a.size = a.bytes := by
  rw [storage, resize, size, List.take_append_of_le_length, List.take_take, List.take_of_length_le]
  · exact Nat.le_min.2 ⟨Nat.le_refl _, h⟩
  · rw [List.length_take]
    exact Nat.le_min.2 ⟨h, Nat.le_refl _⟩

lemma storage_take_of_le {a : Address} {n : ℕ} (hn : n ≤ a.size) (h : a.size ≤ storageSize) :
    a.storage.take n = a.bytes.take n := by
  rw [← storage_take h, List.take_take, Nat.min_eq_left hn]

lemma equal_iff {a b : Address} (ha : a.size ≤ storageSize) (hb : b.size ≤ storageSize) :
    a.equal b = true ↔ a = b := by
  unfold equal
  split_ifs with hsize
  · constructor
    · intro hfalse
      cases hfalse
    · rintro rfl
      exact absurd rfl hsize
  · have hsize : a.size = b.size := not_not.1 hsize
    have hb' : b.storage.take a.size = b.bytes := by rw [hsize, storage_take hb]
    rw [decide_eq_true_iff, storage_take ha, hb']
    constructor
    · intro hbytes
      cases a
      cases b
      exact congrArg _ hbytes
    · rintro rfl
      rfl

lemma htobe32_toNat (o : ByteOrder) (x : UInt32) : (htobe32 o x).toNat = o.htobe 4 x.toNat :=
  UInt32.toNat_ofNat_of_lt' (o.htobe_lt (w := 4) x.toNat_lt)

lemma fromIpv4Numeric_eq (o : ByteOrder) (ip : UInt32) :
    fromIpv4Numeric o ip = .ok (inet o ip 0 zeros) := by
  have hport : o.store 2 (0 : UInt16).toNat = toBigEndian 2 (0 : UInt16).toNat := by
    cases o <;> rfl
  have hmem : SockaddrIn.memory o ⟨AF_INET, 0, htobe32 o ip, List.replicate 8 0⟩ =
      (inet o ip 0 zeros).bytes := by
    simp only [SockaddrIn.memory, inet, zeros, htobe32_toNat, ByteOrder.store_htobe, hport,
      List.append_assoc]
  have hfits : ¬ (inet o ip 0 zeros).bytes.length > storageSize := by
    have h : (inet o ip 0 zeros).size = sockaddrInSize := size_inet rfl
    rw [size] at h
    rw [h]
    decide
  rw [fromIpv4Numeric, hmem, ofSockaddr, if_neg hfits]

lemma ssFamily_inet (hzero : zero.length = 8) : (inet o ip port zero).ssFamily o = AF_INET := by
  have hsize : (inet o ip port zero).size = sockaddrInSize := size_inet hzero
  have htake : (inet o ip port zero).bytes.take 2 = o.store 2 AF_INET.toNat :=
    List.take_left' (ByteOrder.length_store o 2 _)
  have hle : sockaddrInSize ≤ storageSize := by decide
  rw [ssFamily, storage_take_of_le (by rw [hsize]; decide) (by rw [hsize]; exact hle), htake,
    ByteOrder.load_store]
  rfl

/-- Where `sin_addr` lies, the number stands most significant byte first. -/
lemma be32toh_load (o : ByteOrder) {bs : List UInt8} (h : bs.length = 4) :
    be32toh o (UInt32.ofNat (o.load bs)) = UInt32.ofNat (bigEndian bs) := by
  have hlt := o.load_lt bs
  have hbe := o.betoh_load bs
  rw [h] at hlt hbe
  rw [be32toh, UInt32.toNat_ofNat_of_lt' hlt, hbe]

lemma drop_inet (o : ByteOrder) (ip : UInt32) (port : UInt16) (zero : List UInt8) :
    (inet o ip port zero).bytes.drop 4 = toBigEndian 4 ip.toNat ++ zero := by
  have h2 : (o.store 2 AF_INET.toNat).length = 2 := ByteOrder.length_store o 2 _
  have h4 : (toBigEndian 2 port.toNat).length = 2 := length_toBigEndian 2 _
  rw [inet, ← List.append_assoc, List.drop_left' (by rw [List.length_append, h2, h4])]

lemma ipv4Numeric_inet (hzero : zero.length = 8) :
    (inet o ip port zero).ipv4Numeric o = .ok ip := by
  have hsize : (inet o ip port zero).size = sockaddrInSize := size_inet hzero
  have hle : (inet o ip port zero).size ≤ storageSize := by rw [hsize]; decide
  have hok : ¬ ((inet o ip port zero).ssFamily o ≠ AF_INET ∨
      (inet o ip port zero).size ≠ sockaddrInSize) := by
    rw [ssFamily_inet hzero, hsize]
    decide
  have hlen : (toBigEndian 4 ip.toNat).length = 4 := length_toBigEndian 4 _
  rw [ipv4Numeric, if_neg hok, storage_take hle, SockaddrIn.ofMemory]
  simp only [drop_inet, List.take_left' hlen, be32toh_load o hlen, bigEndian_toBigEndian]
  rw [Nat.mod_eq_of_lt (b := 256 ^ 4) ip.toNat_lt, UInt32.ofNat_toNat]

lemma store_load16 (o : ByteOrder) {bs : List UInt8} (h : bs.length = 2) :
    o.store 2 (UInt16.ofNat (o.load bs)).toNat = bs := by
  have hstore := o.store_load bs
  have hlt := o.load_lt bs
  rw [h] at hstore hlt
  rw [UInt16.toNat_ofNat_of_lt' hlt, hstore]

lemma toBigEndian16 {bs : List UInt8} (h : bs.length = 2) :
    toBigEndian 2 (UInt16.ofNat (bigEndian bs)).toNat = bs := store_load16 .big h

lemma toBigEndian32 {bs : List UInt8} (h : bs.length = 4) :
    toBigEndian 4 (UInt32.ofNat (bigEndian bs)).toNat = bs := by
  have hstore := toBigEndian_bigEndian bs
  have hlt := bigEndian_lt bs
  rw [h] at hstore hlt
  rw [UInt32.toNat_ofNat_of_lt' hlt, hstore]

/-- An address of that size and family is one of them. -/
lemma exists_inet {a : Address} (hfamily : a.ssFamily o = AF_INET) (hsize : a.size = sockaddrInSize) :
    ∃ ip port zero, zero.length = 8 ∧ a = inet o ip port zero := by
  obtain ⟨bytes⟩ := a
  replace hsize : bytes.length = 16 := hsize
  have hle : (⟨bytes⟩ : Address).size ≤ storageSize := by
    rw [size, hsize]
    decide
  rw [ssFamily, storage_take_of_le (by rw [size, hsize]; decide) hle] at hfamily
  have hlen : (bytes.take 2).length = 2 := by rw [List.length_take]; omega
  have hfam : o.store 2 AF_INET.toNat = bytes.take 2 := by
    rw [← hfamily]
    exact store_load16 o hlen
  have hlen2 : ((bytes.drop 2).take 2).length = 2 := by
    rw [List.length_take, List.length_drop]
    omega
  have hlen4 : ((bytes.drop 4).take 4).length = 4 := by
    rw [List.length_take, List.length_drop]
    omega
  refine ⟨UInt32.ofNat (bigEndian ((bytes.drop 4).take 4)),
    UInt16.ofNat (bigEndian ((bytes.drop 2).take 2)), bytes.drop 8, by simp [hsize], ?_⟩
  rw [inet, hfam, toBigEndian16 hlen2, toBigEndian32 hlen4]
  congr 1
  have h8 : bytes.drop 8 = (bytes.drop 4).drop 4 := by rw [List.drop_drop]
  have h4 : bytes.drop 4 = (bytes.drop 2).drop 2 := by rw [List.drop_drop]
  rw [h8, List.take_append_drop, h4, List.take_append_drop, List.take_append_drop]

end Inet

/-- What `ipv4_numeric` throws. -/
def nonIPv4 : Exn := .runtimeError "ipv4_numeric called on non-IPV4 address"

lemma ipv4Numeric_of_ne {o : ByteOrder} {a : Address}
    (h : ∀ ip port zero, zero.length = 8 → a ≠ inet o ip port zero) :
    a.ipv4Numeric o = .error nonIPv4 := by
  have hthrow : a.ssFamily o ≠ AF_INET ∨ a.size ≠ sockaddrInSize := by
    by_contra hok
    obtain ⟨hfamily, hsize⟩ := not_or.1 hok
    obtain ⟨ip, port, zero, hzero, ha⟩ := exists_inet (not_not.1 hfamily) (not_not.1 hsize)
    exact h ip port zero hzero ha
  rw [ipv4Numeric, if_pos hthrow, nonIPv4]

/-- **IPv4 addresses by number.** On a host of either byte order `ipv4_numeric` returns a number
exactly for the IPv4 addresses with that number, whatever their port and padding, and throws for all
other addresses; `from_ipv4_numeric` builds the one of them without port. -/
theorem ipv4_numeric_exact (o : ByteOrder) (a : Address) (ip : UInt32) :
    (a.ipv4Numeric o = .ok ip ↔ ∃ port zero, zero.length = 8 ∧ a = inet o ip port zero) ∧
    (a.ipv4Numeric o = .error nonIPv4 ↔
      ∀ ip' port zero, zero.length = 8 → a ≠ inet o ip' port zero) ∧
    ∃ b, fromIpv4Numeric o ip = .ok b ∧ b.ipv4Numeric o = .ok ip ∧
      (a.size ≤ storageSize → (a.equal b = true ↔ a = inet o ip 0 zeros)) := by
  refine ⟨⟨?_, ?_⟩, ⟨?_, ipv4Numeric_of_ne⟩, ?_⟩
  · intro hok
    by_contra hne
    by_cases hany : ∃ ip' port zero, zero.length = 8 ∧ a = inet o ip' port zero
    · obtain ⟨ip', port, zero, hzero, rfl⟩ := hany
      rw [ipv4Numeric_inet hzero] at hok
      cases hok
      exact hne ⟨port, zero, hzero, rfl⟩
    · have hthrow := ipv4Numeric_of_ne (o := o) (a := a) fun ip' port zero hzero ha =>
        hany ⟨ip', port, zero, hzero, ha⟩
      rw [hthrow] at hok
      cases hok
  · rintro ⟨port, zero, hzero, rfl⟩
    exact ipv4Numeric_inet hzero
  · rintro hthrow ip' port zero hzero rfl
    rw [ipv4Numeric_inet hzero] at hthrow
    cases hthrow
  · refine ⟨inet o ip 0 zeros, fromIpv4Numeric_eq o ip, ipv4Numeric_inet rfl, ?_⟩
    intro hfits
    exact equal_iff hfits (by rw [size_inet rfl]; decide)

/-! ### Names -/

/-- The members of `addrinfo` that the hints fill in. -/
structure Hints where
  flags : ℕ
  family : UInt16
  deriving DecidableEq, Repr

/-- `getaddrinfo` and `getnameinfo`: what they return, with the socket addresses in the list that the
one hands out, and the two strings that the other stores. -/
structure Resolver where
  getaddrinfo : (node service : List Char) → Hints → ℤ × List (List UInt8)
  getnameinfo : (sockaddr : List UInt8) → (flags : ℕ) → ℤ × List Char × List Char

/-- What the functions below throw: an exception of the library, a `tagged_error` in the category of
`gai_strerror`, or what `stoi` throws. -/
inductive Thrown where
  | exn (e : Exn)
  | gai (attempt : List Char) (code : ℤ)
  | stoi (e : StoiError)
  deriving DecidableEq, Repr

def AI_ALL : ℕ := 0x10
def AI_NUMERICHOST : ℕ := 0x4
def AI_NUMERICSERV : ℕ := 0x400
def NI_NUMERICHOST : ℕ := 1
def NI_NUMERICSERV : ℕ := 2

def nul : Char := '\x00'

def makeHints (aiFlags : ℕ) (aiFamily : UInt16) : Hints := ⟨aiFlags, aiFamily⟩

section Names

variable (R : Resolver)

/-- `Address(node, service, hints)`. -/
def resolve (node service : List Char) (hints : Hints) : Except Thrown Address :=
  let answer := R.getaddrinfo (cStr nul node) (cStr nul service) hints
  if answer.1 ≠ 0 then
    .error (.gai ("getaddrinfo(".toList ++ node ++ ", ".toList ++ service ++ ")".toList) answer.1)
  else
    match answer.2 with
    | [] => .error (.exn (.runtimeError "getaddrinfo returned successfully but with no results"))
    | resolvedAddress :: _ =>
      match ofSockaddr resolvedAddress with
      | .error e => .error (.exn e)
      | .ok a => .ok a

/-- `Address(hostname, service)`. -/
def ofHostname (hostname service : List Char) : Except Thrown Address :=
  resolve R hostname service (makeHints AI_ALL AF_INET)

/-- `Address(ip, port)`. -/
def ofIp (ip : List Char) (port : UInt16) : Except Thrown Address :=
  resolve R ip (Nat.toDigits 10 port.toNat) (makeHints (AI_NUMERICHOST ||| AI_NUMERICSERV) AF_INET)

variable (a : Address)

def ipPort : Except Thrown (List Char × UInt16) :=
  let answer := R.getnameinfo a.bytes (NI_NUMERICHOST ||| NI_NUMERICSERV)
  if answer.1 ≠ 0 then .error (.gai "getnameinfo".toList answer.1)
  else
    match stoi (cStr nul answer.2.2) with
    | .error e => .error (.stoi e)
    | .ok port => .ok (cStr nul answer.2.1, UInt16.ofNat (port % 2 ^ 16).toNat)

def ip : Except Thrown (List Char) := (ipPort R a).map Prod.fst

def port : Except Thrown UInt16 := (ipPort R a).map Prod.snd

/-- `to_string()`. -/
def toText : Except Thrown (List Char) :=
  (ipPort R a).map fun ipAndPort =>
    ipAndPort.1 ++ ":".toList ++ Nat.toDigits 10 ipAndPort.2.toNat

end Names

/-- The four bytes of a number in decimal, most significant first, with dots between them. -/
def dottedQuad (ip : UInt32) : List Char :=
  ((toBigEndian 4 ip.toNat).flatMap fun b => '.' :: Nat.toDigits 10 b.toNat).tail

/-- What the C library does with the IPv4 address of a number and a port, if it is told not to look
up names: the one function writes the numbers, whatever the padding, and the other reads them. -/
structure Resolver.Numeric (R : Resolver) (o : ByteOrder) (ip : UInt32) (port : UInt16) : Prop where
  nameinfo : ∀ zero, zero.length = 8 →
    R.getnameinfo (inet o ip port zero).bytes (NI_NUMERICHOST ||| NI_NUMERICSERV) =
      (0, dottedQuad ip, Nat.toDigits 10 port.toNat)
  addrinfo : ∃ others,
    R.getaddrinfo (dottedQuad ip) (Nat.toDigits 10 port.toNat)
      (makeHints (AI_NUMERICHOST ||| AI_NUMERICSERV) AF_INET) =
        (0, (inet o ip port zeros).bytes :: others)

lemma ne_nul_of_isDigit {c : Char} (h : c.isDigit = true) : c ≠ nul := by
  rintro rfl
  cases h

lemma cStr_toDigits (n : ℕ) : cStr nul (Nat.toDigits 10 n) = Nat.toDigits 10 n :=
  cStr_eq fun _ hc => ne_nul_of_isDigit (isDigit_of_mem_toDigits hc)

lemma cStr_dottedQuad (ip : UInt32) : cStr nul (dottedQuad ip) = dottedQuad ip := by
  apply cStr_eq
  intro c hc
  obtain ⟨b, -, hc⟩ := List.mem_flatMap.1 (List.mem_of_mem_tail hc)
  obtain rfl | hc := List.mem_cons.1 hc
  · decide
  · exact ne_nul_of_isDigit (isDigit_of_mem_toDigits hc)

section RoundTrip

variable {R : Resolver} {o : ByteOrder} {ip : UInt32} {port : UInt16}

lemma ipPort_inet (hR : R.Numeric o ip port) {zero : List UInt8} (hzero : zero.length = 8) :
    (inet o ip port zero).ipPort R = .ok (dottedQuad ip, port) := by
  have hport : port.toNat < 2 ^ 31 := Nat.lt_trans port.toNat_lt (by decide)
  have hcast : UInt16.ofNat (((port.toNat : ℕ) : ℤ) % 2 ^ 16).toNat = port := by
    have h := port.toNat_lt
    have hmod : (((port.toNat : ℕ) : ℤ) % 2 ^ 16).toNat = port.toNat := by omega
    rw [hmod, UInt16.ofNat_toNat]
  simp only [ipPort, hR.nameinfo zero hzero, cStr_toDigits, stoi_toDigits hport, cStr_dottedQuad,
    hcast, ne_eq, not_true_eq_false, if_false]

lemma ofIp_dottedQuad (hR : R.Numeric o ip port) :
    ofIp R (dottedQuad ip) port = .ok (inet o ip port zeros) := by
  obtain ⟨others, haddr⟩ := hR.addrinfo
  have hfits : ¬ (inet o ip port zeros).bytes.length > storageSize := by
    have h : (inet o ip port zeros).size = sockaddrInSize := size_inet rfl
    rw [size] at h
    rw [h]
    decide
  simp only [ofIp, resolve, cStr_dottedQuad, cStr_toDigits, haddr, ofSockaddr, if_neg hfits, ne_eq,
    not_true_eq_false, if_false]

end RoundTrip

/-- An IPv4 address and its text. -/
structure RoundTrip (R : Resolver) (o : ByteOrder) (ip : UInt32) (port : UInt16) (zero : List UInt8)
    (a : Address) : Prop where
  ipPort : a.ipPort R = .ok (dottedQuad ip, port)
  toText : a.toText R = .ok (dottedQuad ip ++ ":".toList ++ Nat.toDigits 10 port.toNat)
  rebuilt : ∃ b, ofIp R (dottedQuad ip) port = .ok b ∧ b.ipPort R = a.ipPort R ∧
    b.ipv4Numeric o = a.ipv4Numeric o ∧ (a.equal b = true ↔ zero = zeros)
  numeric : port = 0 → ∃ b, fromIpv4Numeric o ip = .ok b ∧ ofIp R (dottedQuad ip) 0 = .ok b

/-- **Text and back.** An IPv4 address is written as its number and its port, and what is read back
from these is the address itself, unless its padding is not zero, with the same number, the same port
and the same text; read back without a port it is what `from_ipv4_numeric` builds. -/
theorem address_round_trip (R : Resolver) (o : ByteOrder) (ip : UInt32) (port : UInt16)
    (zero : List UInt8) (hzero : zero.length = 8) (hR : R.Numeric o ip port) :
    RoundTrip R o ip port zero (inet o ip port zero) := by
  have hsize (zero : List UInt8) (hzero : zero.length = 8) :
      (inet o ip port zero).size ≤ storageSize := by
    rw [size_inet hzero]
    decide
  refine ⟨ipPort_inet hR hzero, ?_, ?_, ?_⟩
  · rw [toText, ipPort_inet hR hzero]
    rfl
  · refine ⟨inet o ip port zeros, ofIp_dottedQuad hR, ?_, ?_, ?_⟩
    · rw [ipPort_inet hR rfl, ipPort_inet hR hzero]
    · rw [ipv4Numeric_inet rfl, ipv4Numeric_inet hzero]
    · rw [equal_iff (hsize zero hzero) (hsize zeros rfl)]
      simp [inet]
  · rintro rfl
    exact ⟨_, fromIpv4Numeric_eq o ip, ofIp_dottedQuad hR⟩

def loopback : Resolver where
  getaddrinfo node service hints :=
    if node = "127.0.0.1".toList ∧ service = "80".toList ∧ hints.family = AF_INET then
      (0, [(inet .little 0x7f000001 80 zeros).bytes])
    else (-2, [])
  getnameinfo sockaddr flags :=
    if sockaddr.take 8 = (inet .little 0x7f000001 80 []).bytes ∧
        flags = NI_NUMERICHOST ||| NI_NUMERICSERV then
      (0, "127.0.0.1".toList, "80".toList)
    else (-2, [], [])

theorem address_round_trip_loopback :
    RoundTrip loopback .little 0x7f000001 80 [1, 2, 3, 4, 5, 6, 7, 8]
      (inet .little 0x7f000001 80 [1, 2, 3, 4, 5, 6, 7, 8]) := by
  refine address_round_trip loopback .little 0x7f000001 80 [1, 2, 3, 4, 5, 6, 7, 8] rfl ⟨?_, ?_⟩
  · intro zero _
    have happ : (inet .little 0x7f000001 80 zero).bytes =
        (inet .little 0x7f000001 80 []).bytes ++ zero := by simp [inet]
    have htake : (inet .little 0x7f000001 80 zero).bytes.take 8 =
        (inet .little 0x7f000001 80 []).bytes := by
      rw [happ]
      exact List.take_left' rfl
    have hquad : dottedQuad 0x7f000001 = "127.0.0.1".toList := by decide
    have hport : Nat.toDigits 10 (80 : UInt16).toNat = "80".toList := by decide
    rw [hquad, hport, loopback]
    simp only [htake, and_self, if_true]
  · exact ⟨[], by decide⟩

end Sponge.Address
