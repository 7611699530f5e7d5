import Apk2Ios.Shim.Sockaddr

/-!
# The shim: the sender of a message

`a2i_recvfrom` of `network_compat.c`.  What `recvfrom` of the host returns and stores is a
parameter, and so is what the local buffer for the address holds before the call.
-/

namespace Apk2Ios

open Lib

/-! ### The call -/

/-- What `recvfrom` of the host does: what it returns and the address that it stores, which is
empty when there is none. -/
structure HostRecvfrom where
  rc : ℤ
  source : Bytes

/-- What `a2i_recvfrom` returns, with the memory at the two pointers afterwards. -/
structure Recvfrom where
  rc : ℤ
  address : Option Bytes
  addressLength : Option ℕ
deriving DecidableEq, Repr

/-- `a2i_recvfrom`, where `stale` is what its own `sockaddr_storage` holds before the call. -/
def a2iRecvfrom (af : HostFamilies) (recvfrom : HostRecvfrom) (stale : Bytes)
    (address : Option Bytes) (addressLength : Option ℕ) : Recvfrom :=
  match address, addressLength with
  | some dst, some capacity =>
    let host := recvfrom.source ++ stale.drop recvfrom.source.length
    if 0 ≤ recvfrom.rc then
      let (needed, dst) := a2iFromHostSockaddr af (some host) (some dst) capacity
      ⟨recvfrom.rc, dst, some needed⟩
    else ⟨recvfrom.rc, some dst, some capacity⟩
  | _, _ => ⟨recvfrom.rc, address, addressLength⟩

/-- What Linux reports: as much of the address as fits, and its length, which is 0 when there is no
address. -/
def linuxRecvfrom (af : HostFamilies) (recvfrom : HostRecvfrom) (dst : Bytes) (capacity : ℕ) :
    Recvfrom :=
  if recvfrom.rc < 0 then ⟨recvfrom.rc, some dst, some capacity⟩
  else
    match SockAddr.ofHost af recvfrom.source with
    | some x =>
      ⟨recvfrom.rc, some (x.android.take capacity ++ dst.drop (min capacity x.length)),
        some x.length⟩
    | none => ⟨recvfrom.rc, some dst, some 0⟩

/-! ### What is reported -/

section

variable {af : HostFamilies} {recvfrom : HostRecvfrom} {x : SockAddr}

/-- What follows an address is not read. -/
lemma SockAddr.ofHost_append {src : Bytes} (hread : SockAddr.HostReadable af src)
    (hx : SockAddr.ofHost af src = some x) (rest : Bytes) :
    SockAddr.ofHost af (src ++ rest) = some x := by
  have hslice : ∀ off n, off + n ≤ src.length → slice (src ++ rest) off n = slice src off n :=
    fun off n h ↦ slice_append_left h
  have hsecond : 1 < src.length → (src ++ rest)[1]? = src[1]? := List.getElem?_append_left
  rw [ofHost] at hx
  split_ifs at hx with h4 h6
  · have hlength := hread.1 h4
    rw [ofHost, hsecond (by omega), if_pos h4, hslice 2 2 (by omega), hslice 4 4 (by omega), hx]
  · have hlength := hread.2 h6
    rw [ofHost, hsecond (by omega), if_neg h4, if_pos h6, hslice 2 2 (by omega),
      hslice 4 4 (by omega), hslice 8 16 (by omega), hslice 24 4 (by omega), hx]

/-- **The sender is reported whole or by its length only.**  When the host has an address, its
form of Android is stored if there is room for the whole of it, and otherwise nothing; the length
is that of the whole form, and what the local buffer held does not matter.  When the call fails,
nothing is written. -/
theorem a2iRecvfrom_reports (af : HostFamilies) (recvfrom : HostRecvfrom) (dst : Bytes)
    (capacity : ℕ) :
    (recvfrom.rc < 0 → ∀ stale, a2iRecvfrom af recvfrom stale (some dst) (some capacity) =
      ⟨recvfrom.rc, some dst, some capacity⟩) ∧
    ∀ x, 0 ≤ recvfrom.rc → SockAddr.HostReadable af recvfrom.source →
      SockAddr.ofHost af recvfrom.source = some x → ∀ stale,
        a2iRecvfrom af recvfrom stale (some dst) (some capacity) =
          ⟨recvfrom.rc, some (if capacity < x.length then dst else x.android ++ dst.drop x.length),
            some x.length⟩ := by
  constructor
  · intro hrc stale
    rw [a2iRecvfrom, if_neg (by omega)]
  · intro x hrc hread hx stale
    have hsized := SockAddr.sized_of_ofHost hread hx
    have hhost := SockAddr.ofHost_append hread hx (stale.drop recvfrom.source.length)
    simp only [a2iRecvfrom, if_pos hrc, fromHost_of_some hhost hsized]

/-- A message from a local server, in a buffer for one address. -/
theorem a2iRecvfrom_reports_localhost :
    a2iRecvfrom .darwin ⟨5, [16, 2, 31, 144, 127, 0, 0, 1] ++ zeros 8⟩ (zeros 128)
        (some (zeros 16)) (some 16) =
      ⟨5, some ((SockAddr.inet [31, 144] [127, 0, 0, 1]).android ++ []), some 16⟩ :=
  (a2iRecvfrom_reports .darwin ⟨5, [16, 2, 31, 144, 127, 0, 0, 1] ++ zeros 8⟩ (zeros 16) 16).2
    (.inet [31, 144] [127, 0, 0, 1]) (by decide) ⟨by decide, by decide⟩ (by decide) (zeros 128)

/-- What is reported is not what Linux reports: nothing is stored in a buffer of 8 bytes, and
without an address of the sender the address that the local buffer happens to hold is reported. -/
theorem a2iRecvfrom_ne_linux :
    a2iRecvfrom .darwin ⟨5, [16, 2, 31, 144, 127, 0, 0, 1] ++ zeros 8⟩ (zeros 128)
        (some (zeros 8)) (some 8) ≠
      linuxRecvfrom .darwin ⟨5, [16, 2, 31, 144, 127, 0, 0, 1] ++ zeros 8⟩ (zeros 8) 8 ∧
    a2iRecvfrom .darwin ⟨5, []⟩ ([16, 2, 31, 144, 127, 0, 0, 1] ++ zeros 120)
        (some (zeros 16)) (some 16) ≠
      linuxRecvfrom .darwin ⟨5, []⟩ (zeros 16) 16 := by
  decide

/-- Without an address of the sender the length is 0 exactly when the local buffer happens to hold
none either. -/
theorem a2iRecvfrom_of_no_source (af : HostFamilies) {stale : Bytes} (hstale : stale.length = 128)
    {rc : ℤ} (hrc : 0 ≤ rc) (dst : Bytes) (capacity : ℕ) :
    a2iRecvfrom af ⟨rc, []⟩ stale (some dst) (some capacity) = ⟨rc, some dst, some 0⟩ ↔
      SockAddr.ofHost af stale = none := by
  have hhost : ([] : Bytes) ++ stale.drop ([] : Bytes).length = stale := rfl
  simp only [a2iRecvfrom, if_pos hrc, hhost]
  cases hx : SockAddr.ofHost af stale with
  | none => simp only [fromHost_of_none hx]
  | some x =>
    have hread : SockAddr.HostReadable af stale := ⟨fun _ ↦ by omega, fun _ ↦ by omega⟩
    have hpos : x.length ≠ 0 := by cases x <;> simp [SockAddr.length]
    simp only [fromHost_of_some hx (SockAddr.sized_of_ofHost hread hx), Recvfrom.mk.injEq,
      Option.some.injEq, reduceCtorEq, iff_false]
    rintro ⟨-, -, hzero⟩
    exact hpos hzero

end

end Apk2Ios
