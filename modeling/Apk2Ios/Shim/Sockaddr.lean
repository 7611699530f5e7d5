import Apk2Ios.Lib.Bytes

/-!
# The shim: socket addresses

`a2i_to_host_sockaddr` and `a2i_from_host_sockaddr` of `network_compat.c`.  An address of Android
starts with a family of 16 bits, one of the host with its length and a family of 8 bits, and the
families have other numbers; the other bytes are the same.  Each converter fills a cleared record
field by field.
-/

namespace Apk2Ios

open Lib

/-! ### The converters -/

/-- The families of the host, which its headers define.  They are different numbers. -/
structure HostFamilies where
  unspec : UInt8
  unix : UInt8
  inet : UInt8
  inet6 : UInt8
  nodup : [unspec, unix, inet, inet6].Nodup

/-- The numbers of Darwin. -/
def HostFamilies.darwin : HostFamilies := ⟨0, 1, 2, 30, by decide⟩

/-- `A2I_AF_INET`. -/
def a2iAfInet : ℕ := 2

/-- `A2I_AF_INET6`. -/
def a2iAfInet6 : ℕ := 10

/-- The values of `errno` that the network functions set. -/
inductive SockErrno where
  | EINVAL
  | EAFNOSUPPORT
  | EPROTOTYPE
deriving DecidableEq, Repr

/-- `n` zeros. -/
def zeros (n : ℕ) : Bytes := List.replicate n 0

/-- What `a2i_to_host_sockaddr` returns, with the record that it fills and with `errno` when it is
set. -/
structure ToHost where
  length : ℕ
  errno : Option SockErrno
  host : Option Bytes
deriving DecidableEq, Repr

section

variable (af : HostFamilies)

/-- `a2i_to_host_sockaddr`, for the `android_len` bytes at `android_addr`.  The pointers can be
`NULL`; a `sockaddr_storage` has 128 bytes. -/
def a2iToHostSockaddr (android host : Option Bytes) : ToHost :=
  match android, host with
  | some src, some _ =>
    if src.length < 2 then ⟨0, some .EINVAL, host⟩
    else
      let family := leNat (slice src 0 2)
      let dst := zeros 128
      if family = a2iAfInet ∧ 16 ≤ src.length then
        let dst := sliceAssign dst 0 1 [16]
        let dst := sliceAssign dst 1 1 [af.inet]
        let dst := sliceAssign dst 2 2 (slice src 2 2)
        let dst := sliceAssign dst 4 4 (slice src 4 4)
        ⟨16, none, some dst⟩
      else if family = a2iAfInet6 ∧ 28 ≤ src.length then
        let dst := sliceAssign dst 0 1 [28]
        let dst := sliceAssign dst 1 1 [af.inet6]
        let dst := sliceAssign dst 2 2 (slice src 2 2)
        let dst := sliceAssign dst 4 4 (slice src 4 4)
        let dst := sliceAssign dst 8 16 (slice src 8 16)
        let dst := sliceAssign dst 24 4 (slice src 24 4)
        ⟨28, none, some dst⟩
      else ⟨0, some .EAFNOSUPPORT, some dst⟩
  | _, _ => ⟨0, some .EINVAL, host⟩

/-- `a2i_from_host_sockaddr`: what it returns, and the memory at `android_addr` afterwards. -/
def a2iFromHostSockaddr (host android : Option Bytes) (capacity : ℕ) : ℕ × Option Bytes :=
  match host, android with
  | some src, some dst =>
    if src[1]? = some af.inet then
      if capacity < 16 then (16, some dst)
      else
        let dst := sliceAssign dst 0 16 (zeros 16)
        let dst := sliceAssign dst 0 2 (leBytes 2 a2iAfInet)
        let dst := sliceAssign dst 2 2 (slice src 2 2)
        let dst := sliceAssign dst 4 4 (slice src 4 4)
        (16, some dst)
    else if src[1]? = some af.inet6 then
      if capacity < 28 then (28, some dst)
      else
        let dst := sliceAssign dst 0 28 (zeros 28)
        let dst := sliceAssign dst 0 2 (leBytes 2 a2iAfInet6)
        let dst := sliceAssign dst 2 2 (slice src 2 2)
        let dst := sliceAssign dst 4 4 (slice src 4 4)
        let dst := sliceAssign dst 8 16 (slice src 8 16)
        let dst := sliceAssign dst 24 4 (slice src 24 4)
        (28, some dst)
    else (0, some dst)
  | _, _ => (0, android)

end

/-! ### What an address says -/

/-- The parts of an address that have the same bytes in both forms. -/
inductive SockAddr where
  | inet (port addr : Bytes)
  | inet6 (port flowinfo addr scopeId : Bytes)
deriving DecidableEq, Repr

namespace SockAddr

/-- The length of both forms. -/
def length : SockAddr → ℕ
  | inet _ _ => 16
  | inet6 _ _ _ _ => 28

/-- The form of Android. -/
def android : SockAddr → Bytes
  | inet port addr => leBytes 2 a2iAfInet ++ (port ++ (addr ++ zeros 8))
  | inet6 port flowinfo addr scopeId =>
    leBytes 2 a2iAfInet6 ++ (port ++ (flowinfo ++ (addr ++ scopeId)))

/-- The form of the host. -/
def host (af : HostFamilies) : SockAddr → Bytes
  | inet port addr => [16, af.inet] ++ (port ++ (addr ++ zeros 8))
  | inet6 port flowinfo addr scopeId =>
    [28, af.inet6] ++ (port ++ (flowinfo ++ (addr ++ scopeId)))

/-- The parts have their sizes. -/
def Sized : SockAddr → Prop
  | inet port addr => port.length = 2 ∧ addr.length = 4
  | inet6 port flowinfo addr scopeId =>
    port.length = 2 ∧ flowinfo.length = 4 ∧ addr.length = 16 ∧ scopeId.length = 4

/-- What the bytes of an Android address say. -/
def ofAndroid (src : Bytes) : Option SockAddr :=
  if src.length < 2 then none
  else if leNat (slice src 0 2) = a2iAfInet ∧ 16 ≤ src.length then
    some (inet (slice src 2 2) (slice src 4 4))
  else if leNat (slice src 0 2) = a2iAfInet6 ∧ 28 ≤ src.length then
    some (inet6 (slice src 2 2) (slice src 4 4) (slice src 8 16) (slice src 24 4))
  else none

/-- What the bytes of a host address say. -/
def ofHost (af : HostFamilies) (src : Bytes) : Option SockAddr :=
  if src[1]? = some af.inet then some (inet (slice src 2 2) (slice src 4 4))
  else if src[1]? = some af.inet6 then
    some (inet6 (slice src 2 2) (slice src 4 4) (slice src 8 16) (slice src 24 4))
  else none

/-- The record of its family is there to be read, as a pointer to an address promises. -/
def HostReadable (af : HostFamilies) (src : Bytes) : Prop :=
  (src[1]? = some af.inet → 16 ≤ src.length) ∧ (src[1]? = some af.inet6 → 28 ≤ src.length)

end SockAddr

/-! ### Filling a record -/

section

variable {af : HostFamilies} {src dst : Bytes} {x : SockAddr} {capacity : ℕ}

@[simp] lemma length_zeros (n : ℕ) : (zeros n).length = n := List.length_replicate

lemma zeros_append (m n : ℕ) : zeros m ++ zeros n = zeros (m + n) :=
  List.replicate_append_replicate

/-- The next field of a record whose other bytes are still cleared. -/
lemma sliceAssign_zeros {filled field rest : Bytes} {lo k n : ℕ} (hlo : filled.length = lo)
    (hn : n ≤ k) :
    sliceAssign (filled ++ zeros k ++ rest) lo n field =
      filled ++ field ++ zeros (k - n) ++ rest := by
  have hzeros : zeros k = zeros n ++ zeros (k - n) := by
    rw [zeros_append, Nat.add_sub_cancel' hn]
  rw [hzeros, List.append_assoc filled, List.append_assoc (zeros n),
    sliceAssign_append hlo (length_zeros n)]
  simp only [List.append_assoc]

lemma sliceAssign_cleared (dst : Bytes) (n : ℕ) :
    sliceAssign dst 0 n (zeros n) = [] ++ zeros n ++ dst.drop n := by
  rw [sliceAssign, List.take_zero, Nat.zero_add]

/-! ### What the converters do -/

lemma SockAddr.sized_of_ofAndroid (hx : SockAddr.ofAndroid src = some x) :
    x.Sized ∧ x.length ≤ src.length := by
  rw [ofAndroid] at hx
  split_ifs at hx with _ h4 h6
  · obtain rfl := Option.some.inj hx
    exact ⟨⟨length_slice_of_le (by omega), length_slice_of_le (by omega)⟩, h4.2⟩
  · obtain rfl := Option.some.inj hx
    exact ⟨⟨length_slice_of_le (by omega), length_slice_of_le (by omega),
      length_slice_of_le (by omega), length_slice_of_le (by omega)⟩, h6.2⟩

lemma SockAddr.sized_of_ofHost (hread : SockAddr.HostReadable af src)
    (hx : SockAddr.ofHost af src = some x) : x.Sized := by
  rw [ofHost] at hx
  split_ifs at hx with h4 h6
  · obtain rfl := Option.some.inj hx
    have hlength := hread.1 h4
    exact ⟨length_slice_of_le (by omega), length_slice_of_le (by omega)⟩
  · obtain rfl := Option.some.inj hx
    have hlength := hread.2 h6
    exact ⟨length_slice_of_le (by omega), length_slice_of_le (by omega),
      length_slice_of_le (by omega), length_slice_of_le (by omega)⟩

lemma SockAddr.length_android (hx : x.Sized) : x.android.length = x.length := by
  cases x with
  | inet port addr =>
    obtain ⟨hport, haddr⟩ := hx
    simp [android, length, hport, haddr]
  | inet6 port flowinfo addr scopeId =>
    obtain ⟨hport, hflow, haddr, hscope⟩ := hx
    simp [android, length, hport, hflow, haddr, hscope]

/-- An address that is understood is converted. -/
lemma toHost_of_some (hx : SockAddr.ofAndroid src = some x) (h : Bytes) :
    a2iToHostSockaddr af (some src) (some h) =
      ⟨x.length, none, some (x.host af ++ zeros (128 - x.length))⟩ := by
  obtain ⟨hsized, -⟩ := SockAddr.sized_of_ofAndroid hx
  rw [SockAddr.ofAndroid] at hx
  have hzeros : zeros 128 = [] ++ zeros 128 ++ [] := rfl
  split_ifs at hx with hshort h4 h6
  · obtain rfl := Option.some.inj hx
    obtain ⟨hport, haddr⟩ := hsized
    rw [a2iToHostSockaddr]
    simp only [if_neg hshort, if_pos h4]
    rw [hzeros]
    simp (disch := simp [hport]) only [sliceAssign_zeros]
    have htail : zeros 120 = zeros 8 ++ zeros 112 := (zeros_append 8 112).symm
    simp only [SockAddr.length, SockAddr.host, htail, List.append_assoc, List.nil_append,
      List.append_nil, List.cons_append]
  · obtain rfl := Option.some.inj hx
    obtain ⟨hport, hflow, haddr, hscope⟩ := hsized
    rw [a2iToHostSockaddr]
    simp only [if_neg hshort, if_neg h4, if_pos h6]
    rw [hzeros]
    simp (disch := simp [hport, hflow, haddr]) only [sliceAssign_zeros]
    simp only [SockAddr.length, SockAddr.host, List.append_assoc, List.nil_append,
      List.append_nil, List.cons_append]

/-- An address that is not understood is refused. -/
lemma toHost_of_none (hx : SockAddr.ofAndroid src = none) (h : Option Bytes) :
    (a2iToHostSockaddr af (some src) h).length = 0 ∧
      (a2iToHostSockaddr af (some src) h).errno ≠ none := by
  rw [SockAddr.ofAndroid] at hx
  cases h with
  | none => exact ⟨rfl, Option.some_ne_none _⟩
  | some h =>
    rw [a2iToHostSockaddr]
    split_ifs at hx with hshort h4 h6
    · simp only [if_pos hshort]
      exact ⟨trivial, Option.some_ne_none _⟩
    · simp only [if_neg hshort, if_neg h4, if_neg h6]
      exact ⟨trivial, Option.some_ne_none _⟩

/-- The record is written whole or not at all, and the length is that of the whole record. -/
lemma fromHost_of_some (hx : SockAddr.ofHost af src = some x) (hsized : x.Sized) (dst : Bytes)
    (capacity : ℕ) :
    a2iFromHostSockaddr af (some src) (some dst) capacity =
      (x.length,
        some (if capacity < x.length then dst else x.android ++ dst.drop x.length)) := by
  rw [SockAddr.ofHost] at hx
  rw [a2iFromHostSockaddr]
  split_ifs at hx with h4 h6
  · obtain rfl := Option.some.inj hx
    obtain ⟨hport, haddr⟩ := hsized
    simp only [if_pos h4]
    rw [SockAddr.length]
    by_cases hcapacity : capacity < 16
    · simp only [if_pos hcapacity]
    · simp only [if_neg hcapacity]
      rw [sliceAssign_cleared]
      simp (disch := simp [hport]) only [sliceAssign_zeros]
      simp only [SockAddr.android, List.append_assoc, List.nil_append]
  · obtain rfl := Option.some.inj hx
    obtain ⟨hport, hflow, haddr, hscope⟩ := hsized
    simp only [if_neg h4, if_pos h6]
    rw [SockAddr.length]
    by_cases hcapacity : capacity < 28
    · simp only [if_pos hcapacity]
    · simp only [if_neg hcapacity]
      rw [sliceAssign_cleared]
      simp (disch := simp [hport, hflow, haddr]) only [sliceAssign_zeros]
      have hnil : zeros (28 - 2 - 2 - 4 - 16 - 4) = [] := rfl
      simp only [SockAddr.android, hnil, List.append_assoc, List.nil_append]

lemma fromHost_of_none (hx : SockAddr.ofHost af src = none) (dst : Option Bytes)
    (capacity : ℕ) : a2iFromHostSockaddr af (some src) dst capacity = (0, dst) := by
  rw [SockAddr.ofHost] at hx
  cases dst with
  | none => rfl
  | some dst =>
    rw [a2iFromHostSockaddr]
    split_ifs at hx with h4 h6
    simp only [if_neg h4, if_neg h6]

/-! ### Reading the forms -/

/-- The first fields of a record in either form. -/
lemma slice_fields {header port addr : Bytes} (rest : Bytes) (hheader : header.length = 2)
    (hport : port.length = 2) (haddr : addr.length = 4) :
    slice (header ++ (port ++ (addr ++ rest))) 0 2 = header ∧
      slice (header ++ (port ++ (addr ++ rest))) 2 2 = port ∧
      slice (header ++ (port ++ (addr ++ rest))) 4 4 = addr := by
  have htwo : (header ++ port).length = 4 := by rw [List.length_append, hheader, hport]
  refine ⟨?_, ?_, ?_⟩
  · rw [slice, List.drop_zero, List.take_left' hheader]
  · rw [slice, List.drop_left' hheader, List.take_left' hport]
  · rw [← List.append_assoc, slice, List.drop_left' htwo, List.take_left' haddr]

/-- The other fields of an IPv6 address. -/
lemma slice_fields_inet6 {header port flowinfo addr scopeId : Bytes} (rest : Bytes)
    (hheader : header.length = 2) (hport : port.length = 2) (hflow : flowinfo.length = 4)
    (haddr : addr.length = 16) (hscope : scopeId.length = 4) :
    slice (header ++ (port ++ (flowinfo ++ (addr ++ (scopeId ++ rest))))) 8 16 = addr ∧
      slice (header ++ (port ++ (flowinfo ++ (addr ++ (scopeId ++ rest))))) 24 4 = scopeId := by
  have hthree : (header ++ port ++ flowinfo).length = 8 := by
    simp only [List.length_append, hheader, hport, hflow]
  have hfour : (header ++ port ++ flowinfo ++ addr).length = 24 := by
    rw [List.length_append, hthree, haddr]
  rw [← List.append_assoc, ← List.append_assoc]
  constructor
  · rw [slice, List.drop_left' hthree, List.take_left' haddr]
  · rw [← List.append_assoc, slice, List.drop_left' hfour, List.take_left' hscope]

lemma HostFamilies.inet6_ne_inet (af : HostFamilies) : some af.inet6 ≠ some af.inet := by
  intro h
  have hnodup := af.nodup
  simp [Option.some.inj h] at hnodup

namespace SockAddr

lemma ofAndroid_android (hx : x.Sized) (rest : Bytes) : ofAndroid (x.android ++ rest) = some x := by
  have hlength : (x.android ++ rest).length = x.length + rest.length := by
    rw [List.length_append, length_android hx]
  cases x with
  | inet port addr =>
    obtain ⟨hport, haddr⟩ := hx
    have hfamily : (leBytes 2 a2iAfInet).length = 2 := rfl
    have hread : leNat (leBytes 2 a2iAfInet) = a2iAfInet := rfl
    rw [length] at hlength
    simp only [android, List.append_assoc] at hlength ⊢
    obtain ⟨h0, h2, h4⟩ := slice_fields (zeros 8 ++ rest) hfamily hport haddr
    rw [ofAndroid, if_neg (by omega), h0, h2, h4, if_pos ⟨hread, by omega⟩]
  | inet6 port flowinfo addr scopeId =>
    obtain ⟨hport, hflow, haddr, hscope⟩ := hx
    have hfamily : (leBytes 2 a2iAfInet6).length = 2 := rfl
    have hread : leNat (leBytes 2 a2iAfInet6) = a2iAfInet6 := rfl
    have hother : a2iAfInet6 ≠ a2iAfInet := by decide
    rw [length] at hlength
    simp only [android, List.append_assoc] at hlength ⊢
    obtain ⟨h0, h2, h4⟩ := slice_fields (addr ++ (scopeId ++ rest)) hfamily hport hflow
    obtain ⟨h8, h24⟩ := slice_fields_inet6 rest hfamily hport hflow haddr hscope
    rw [ofAndroid, if_neg (by omega), h0, h2, h4, h8, h24, hread, if_neg (fun h ↦ hother h.1),
      if_pos ⟨rfl, by omega⟩]

lemma ofHost_host (hx : x.Sized) (rest : Bytes) : ofHost af (x.host af ++ rest) = some x := by
  cases x with
  | inet port addr =>
    obtain ⟨hport, haddr⟩ := hx
    have hheader : ([16, af.inet] : Bytes).length = 2 := rfl
    obtain ⟨-, h2, h4⟩ := slice_fields (zeros 8 ++ rest) hheader hport haddr
    have hbyte : ([16, af.inet] ++ (port ++ (addr ++ (zeros 8 ++ rest))))[1]? = some af.inet :=
      rfl
    simp only [host, List.append_assoc]
    rw [ofHost, h2, h4, hbyte, if_pos rfl]
  | inet6 port flowinfo addr scopeId =>
    obtain ⟨hport, hflow, haddr, hscope⟩ := hx
    have hheader : ([28, af.inet6] : Bytes).length = 2 := rfl
    obtain ⟨-, h2, h4⟩ := slice_fields (addr ++ (scopeId ++ rest)) hheader hport hflow
    obtain ⟨h8, h24⟩ := slice_fields_inet6 rest hheader hport hflow haddr hscope
    have hbyte : ([28, af.inet6] ++ (port ++ (flowinfo ++ (addr ++ (scopeId ++ rest)))))[1]? =
        some af.inet6 := rfl
    simp only [host, List.append_assoc]
    rw [ofHost, h2, h4, h8, h24, hbyte, if_neg af.inet6_ne_inet, if_pos rfl]

lemma leBytes_family {family : ℕ} (hfamily : leNat (slice src 0 2) = family)
    (hlength : 2 ≤ src.length) : leBytes 2 family = slice src 0 2 := by
  have htwo : (slice src 0 2).length = 2 := length_slice_of_le (by omega)
  have hread : leBytes (slice src 0 2).length (leNat (slice src 0 2)) = slice src 0 2 :=
    leBytes_leNat _
  rwa [htwo, hfamily] at hread

lemma header_bytes {a b : UInt8} (h0 : src[0]? = some a) (h1 : src[1]? = some b) :
    [a, b] = slice src 0 2 := by
  match src, h0, h1 with
  | _ :: _ :: _, rfl, rfl => rfl

/-- The form of Android that is written for an IPv4 address: its own bytes and the padding. -/
lemma android_inet (hfamily : leNat (slice src 0 2) = a2iAfInet) (hlength : 16 ≤ src.length) :
    ofAndroid src = some (inet (slice src 2 2) (slice src 4 4)) ∧
      (inet (slice src 2 2) (slice src 4 4)).android = src.take 8 ++ zeros 8 := by
  constructor
  · rw [ofAndroid, if_neg (by omega), if_pos ⟨hfamily, hlength⟩]
  · rw [android, leBytes_family hfamily (by omega), ← List.append_assoc, slice_append_slice,
      ← List.append_assoc, slice_append_slice, slice, List.drop_zero]

lemma android_inet6 (hfamily : leNat (slice src 0 2) = a2iAfInet6) (hlength : 28 ≤ src.length) :
    ofAndroid src =
        some (inet6 (slice src 2 2) (slice src 4 4) (slice src 8 16) (slice src 24 4)) ∧
      (inet6 (slice src 2 2) (slice src 4 4) (slice src 8 16) (slice src 24 4)).android =
        src.take 28 := by
  have hother : a2iAfInet6 ≠ a2iAfInet := by decide
  constructor
  · rw [ofAndroid, if_neg (by omega), hfamily, if_neg (fun h ↦ hother h.1),
      if_pos ⟨rfl, hlength⟩]
  · rw [android, leBytes_family hfamily (by omega), slice_append_slice src 8,
      slice_append_slice src 4, slice_append_slice src 2, slice_append_slice src 0, slice,
      List.drop_zero]

/-- A host address of IPv4 with its padding is its own form. -/
lemma host_inet (h0 : src[0]? = some 16) (h1 : src[1]? = some af.inet)
    (hpadding : src.drop 8 = zeros 8) :
    ofHost af src = some (inet (slice src 2 2) (slice src 4 4)) ∧
      (inet (slice src 2 2) (slice src 4 4)).host af = src := by
  constructor
  · rw [ofHost, if_pos h1]
  · rw [host, header_bytes h0 h1, ← List.append_assoc, slice_append_slice, ← List.append_assoc,
      slice_append_slice, ← hpadding, slice, List.drop_zero, List.take_append_drop]

lemma host_inet6 (hlength : src.length = 28) (h0 : src[0]? = some 28)
    (h1 : src[1]? = some af.inet6) :
    ofHost af src =
        some (inet6 (slice src 2 2) (slice src 4 4) (slice src 8 16) (slice src 24 4)) ∧
      (inet6 (slice src 2 2) (slice src 4 4) (slice src 8 16) (slice src 24 4)).host af = src := by
  constructor
  · rw [ofHost, h1, if_neg af.inet6_ne_inet, if_pos rfl]
  · rw [host, header_bytes h0 h1, slice_append_slice src 8, slice_append_slice src 4,
      slice_append_slice src 2, slice_append_slice src 0, slice, List.drop_zero,
      List.take_of_length_le (by omega)]

end SockAddr

/-! ### Both ways -/

/-- An address of Android comes back as the form of what it says. -/
lemma fromHost_toHost (hx : SockAddr.ofAndroid src = some x) (h : Bytes)
    (hcapacity : x.length ≤ capacity) :
    ∃ host, a2iToHostSockaddr af (some src) (some h) = ⟨x.length, none, some host⟩ ∧
      a2iFromHostSockaddr af (some host) (some dst) capacity =
        (x.length, some (x.android ++ dst.drop x.length)) := by
  obtain ⟨hsized, -⟩ := SockAddr.sized_of_ofAndroid hx
  refine ⟨_, toHost_of_some hx h, ?_⟩
  rw [fromHost_of_some (SockAddr.ofHost_host hsized _) hsized, if_neg (by omega)]

/-- An address of the host that is in its own form comes back as it is. -/
lemma toHost_fromHost (hx : SockAddr.ofHost af src = some x) (hsized : x.Sized)
    (hform : x.host af = src) (h : Bytes) (hcapacity : x.length ≤ capacity) :
    ∃ android, a2iFromHostSockaddr af (some src) (some dst) capacity =
        (x.length, some android) ∧
      a2iToHostSockaddr af (some (android.take x.length)) (some h) =
        ⟨x.length, none, some (src ++ zeros (128 - x.length))⟩ := by
  refine ⟨x.android ++ dst.drop x.length, ?_, ?_⟩
  · rw [fromHost_of_some hx hsized, if_neg (by omega)]
  · have hread : SockAddr.ofAndroid x.android = some x := by
      rw [← List.append_nil x.android, SockAddr.ofAndroid_android hsized]
    rw [List.take_left' (SockAddr.length_android hsized), toHost_of_some hread, hform]

/-- A record that does not fit is not written, and nothing past the capacity is. -/
lemma fromHost_within (hread : SockAddr.HostReadable af src) (dst : Bytes) (capacity : ℕ) :
    ∃ n dst', a2iFromHostSockaddr af (some src) (some dst) capacity = (n, some dst') ∧
      (capacity < n → dst' = dst) ∧ dst'.drop capacity = dst.drop capacity ∧
      (capacity ≤ dst.length → dst'.length = dst.length) := by
  cases hx : SockAddr.ofHost af src with
  | none => exact ⟨0, dst, fromHost_of_none hx _ _, fun _ ↦ rfl, rfl, fun _ ↦ rfl⟩
  | some x =>
    have hsized := SockAddr.sized_of_ofHost hread hx
    have hlength := SockAddr.length_android hsized
    refine ⟨_, _, fromHost_of_some hx hsized dst capacity, fun h ↦ if_pos h, ?_, ?_⟩
    · split_ifs with hcapacity
      · rfl
      · have hfit : x.length + (capacity - x.length) = capacity := by omega
        rw [List.drop_append, List.drop_of_length_le (by omega), List.nil_append, hlength,
          List.drop_drop, hfit]
    · intro hdst
      split_ifs with hcapacity
      · rfl
      · rw [List.length_append, List.length_drop, hlength]
        omega

/-- **Socket addresses survive translation both ways.**  An address of Android comes back with its
own bytes, the padding of IPv4 cleared; a host address with its length and a cleared padding comes
back as it is; everything else is refused, and nothing past the capacity is written. -/
theorem a2iSockaddr_roundTrip (af : HostFamilies) :
    (∀ src h dst capacity, leNat (slice src 0 2) = a2iAfInet → 16 ≤ src.length →
      16 ≤ capacity → ∃ host, a2iToHostSockaddr af (some src) (some h) = ⟨16, none, some host⟩ ∧
        a2iFromHostSockaddr af (some host) (some dst) capacity =
          (16, some (src.take 8 ++ zeros 8 ++ dst.drop 16))) ∧
    (∀ src h dst capacity, leNat (slice src 0 2) = a2iAfInet6 → 28 ≤ src.length →
      28 ≤ capacity → ∃ host, a2iToHostSockaddr af (some src) (some h) = ⟨28, none, some host⟩ ∧
        a2iFromHostSockaddr af (some host) (some dst) capacity =
          (28, some (src.take 28 ++ dst.drop 28))) ∧
    (∀ src h dst capacity, src.length = 16 → src[0]? = some 16 → src[1]? = some af.inet →
      src.drop 8 = zeros 8 → 16 ≤ capacity →
        ∃ android, a2iFromHostSockaddr af (some src) (some dst) capacity = (16, some android) ∧
          a2iToHostSockaddr af (some (android.take 16)) (some h) =
            ⟨16, none, some (src ++ zeros 112)⟩) ∧
    (∀ src h dst capacity, src.length = 28 → src[0]? = some 28 → src[1]? = some af.inet6 →
      28 ≤ capacity →
        ∃ android, a2iFromHostSockaddr af (some src) (some dst) capacity = (28, some android) ∧
          a2iToHostSockaddr af (some (android.take 28)) (some h) =
            ⟨28, none, some (src ++ zeros 100)⟩) ∧
    (∀ android host, (∀ src, android = some src → host ≠ none →
      ¬(leNat (slice src 0 2) = a2iAfInet ∧ 16 ≤ src.length) ∧
        ¬(leNat (slice src 0 2) = a2iAfInet6 ∧ 28 ≤ src.length)) →
      (a2iToHostSockaddr af android host).length = 0 ∧
        (a2iToHostSockaddr af android host).errno ≠ none) ∧
    (∀ host android capacity, (∀ src, host = some src → android ≠ none →
      src[1]? ≠ some af.inet ∧ src[1]? ≠ some af.inet6) →
      a2iFromHostSockaddr af host android capacity = (0, android)) ∧
    ∀ src dst capacity, SockAddr.HostReadable af src →
      ∃ n dst', a2iFromHostSockaddr af (some src) (some dst) capacity = (n, some dst') ∧
        (capacity < n → dst' = dst) ∧ dst'.drop capacity = dst.drop capacity ∧
        (capacity ≤ dst.length → dst'.length = dst.length) := by
  refine ⟨?_, ?_, ?_, ?_, ?_, ?_, ?_⟩
  -- Android to the host and back: the bytes past the address do not come back
  · intro src h dst capacity hfamily hlength hcapacity
    obtain ⟨hread, hform⟩ := SockAddr.android_inet hfamily hlength
    rw [← hform]
    exact fromHost_toHost hread h hcapacity
  · intro src h dst capacity hfamily hlength hcapacity
    obtain ⟨hread, hform⟩ := SockAddr.android_inet6 hfamily hlength
    rw [← hform]
    exact fromHost_toHost hread h hcapacity
  -- the host to Android and back: `sin_len`, which Android lacks, is written anew
  · intro src h dst capacity hlength h0 h1 hpadding hcapacity
    obtain ⟨hread, hform⟩ := SockAddr.host_inet h0 h1 hpadding
    have hreadable : SockAddr.HostReadable af src :=
      ⟨fun _ ↦ hlength.ge, fun h6 ↦ absurd (h6.symm.trans h1) af.inet6_ne_inet⟩
    have hsized := SockAddr.sized_of_ofHost hreadable hread
    exact toHost_fromHost hread hsized hform h hcapacity
  · intro src h dst capacity hlength h0 h1 hcapacity
    obtain ⟨hread, hform⟩ := SockAddr.host_inet6 hlength h0 h1
    have hsized := SockAddr.sized_of_ofHost ⟨fun _ ↦ by omega, fun _ ↦ hlength.ge⟩ hread
    exact toHost_fromHost hread hsized hform h hcapacity
  -- a null pointer is refused before the family is looked at
  · intro android host hother
    match android, host with
    | none, _ => exact ⟨rfl, Option.some_ne_none _⟩
    | some src, none => exact ⟨rfl, Option.some_ne_none _⟩
    | some src, some h =>
      obtain ⟨h4, h6⟩ := hother src rfl (Option.some_ne_none _)
      apply toHost_of_none
      rw [SockAddr.ofAndroid, if_neg h4, if_neg h6, ite_self]
  · intro host android capacity hother
    match host, android with
    | none, _ => rfl
    | some src, none => rfl
    | some src, some dst =>
      obtain ⟨h4, h6⟩ := hother src rfl (Option.some_ne_none _)
      apply fromHost_of_none
      rw [SockAddr.ofHost, if_neg h4, if_neg h6]
  · intro src dst capacity hread
    exact fromHost_within hread dst capacity

/-- The address of a local server, in a buffer for one address. -/
theorem a2iSockaddr_roundTrip_localhost :
    ∃ host, a2iToHostSockaddr .darwin (some ([2, 0, 31, 144, 127, 0, 0, 1] ++ zeros 8))
        (some (zeros 128)) = ⟨16, none, some host⟩ ∧
      a2iFromHostSockaddr .darwin (some host) (some (zeros 16)) 16 =
        (16, some ([2, 0, 31, 144, 127, 0, 0, 1] ++ zeros 8 ++ [])) :=
  (a2iSockaddr_roundTrip .darwin).1 ([2, 0, 31, 144, 127, 0, 0, 1] ++ zeros 8) (zeros 128)
    (zeros 16) 16 (by decide) (by decide) (by decide)

end

end Apk2Ios
