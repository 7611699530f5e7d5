import Apk2Ios.Lib.Heap
import Apk2Ios.Shim.Sockaddr

/-!
# The shim: lists of addresses

`a2i_getaddrinfo` and `a2i_freeaddrinfo` of `network_compat.c`, on a heap that keeps account of its
blocks.  `getaddrinfo` of the host is a parameter, and so is which of the allocations fail that are
made for an entry of its list.
-/

namespace Apk2Ios

open Lib

/-! ### The numbers of the host -/

/-- The numbers that the headers of the host define for sockets and for `getaddrinfo`. -/
structure HostNet where
  af : HostFamilies
  sockStream : ℕ
  sockDgram : ℕ
  sockRaw : ℕ
  sockRdm : ℕ
  sockSeqpacket : ℕ
  aiPassive : BitVec 32
  aiCanonname : BitVec 32
  aiNumerichost : BitVec 32
  aiNumericserv : BitVec 32
  aiAll : BitVec 32
  aiAddrconfig : BitVec 32
  aiV4mapped : BitVec 32
  eaiAgain : ℤ
  eaiBadflags : ℤ
  eaiFail : ℤ
  eaiFamily : ℤ
  eaiMemory : ℤ
  eaiNoname : ℤ
  eaiService : ℤ
  eaiSocktype : ℤ
  eaiSystem : ℤ
  eaiOverflow : ℤ

/-- The numbers of Darwin. -/
def HostNet.darwin : HostNet where
  af := .darwin
  sockStream := 1
  sockDgram := 2
  sockRaw := 3
  sockRdm := 4
  sockSeqpacket := 5
  aiPassive := 0x1
  aiCanonname := 0x2
  aiNumerichost := 0x4
  aiNumericserv := 0x1000
  aiAll := 0x100
  aiAddrconfig := 0x400
  aiV4mapped := 0x800
  eaiAgain := 2
  eaiBadflags := 3
  eaiFail := 4
  eaiFamily := 5
  eaiMemory := 6
  eaiNoname := 8
  eaiService := 9
  eaiSocktype := 10
  eaiSystem := 11
  eaiOverflow := 14

/-- A family of the host as an `int`. -/
def hostInt (family : UInt8) : BitVec 32 := BitVec.ofNat 32 family.toNat

/-- `a2i_host_family`; there is none instead of -1. -/
def a2iHostFamily (af : HostFamilies) (family : BitVec 32) : Option (BitVec 32) :=
  if family = 0 then some (hostInt af.unspec)
  else if family = 1 then some (hostInt af.unix)
  else if family = 2 then some (hostInt af.inet)
  else if family = 10 then some (hostInt af.inet6)
  else none

/-- `a2i_android_family`; there is none instead of -1. -/
def a2iAndroidFamily (af : HostFamilies) (family : BitVec 32) : Option (BitVec 32) :=
  if family = hostInt af.unspec then some 0
  else if family = hostInt af.unix then some 1
  else if family = hostInt af.inet then some 2
  else if family = hostInt af.inet6 then some 10
  else none

/-- `a2i_host_socktype`: the type and the flags that are left, or `errno`. -/
def a2iHostSocktype (net : HostNet) (type : BitVec 32) : Except SockErrno (ℕ × BitVec 32) :=
  let extra := type &&& (0o4000 ||| 0o2000000)
  match (type &&& 0xf).toNat with
  | 1 => .ok (net.sockStream, extra)
  | 2 => .ok (net.sockDgram, extra)
  | 3 => .ok (net.sockRaw, extra)
  | 4 => .ok (net.sockRdm, extra)
  | 5 => .ok (net.sockSeqpacket, extra)
  | _ => .error .EPROTOTYPE

/-- `a2i_host_ai_flags`. -/
def a2iHostAiFlags (net : HostNet) (flags : BitVec 32) : BitVec 32 :=
  let out := 0
  let out := if flags &&& 0x001 ≠ 0 then out ||| net.aiPassive else out
  let out := if flags &&& 0x002 ≠ 0 then out ||| net.aiCanonname else out
  let out := if flags &&& 0x004 ≠ 0 then out ||| net.aiNumerichost else out
  let out := if flags &&& 0x008 ≠ 0 then out ||| net.aiNumericserv else out
  let out := if flags &&& 0x100 ≠ 0 then out ||| net.aiAll else out
  let out := if flags &&& 0x400 ≠ 0 then out ||| net.aiAddrconfig else out
  if flags &&& 0x800 ≠ 0 then out ||| net.aiV4mapped else out

/-- `a2i_android_eai`. -/
def a2iAndroidEai (net : HostNet) (hostError : ℤ) : ℤ :=
  if hostError = 0 then 0
  else if hostError = net.eaiAgain then 2
  else if hostError = net.eaiBadflags then 3
  else if hostError = net.eaiFail then 4
  else if hostError = net.eaiFamily then 5
  else if hostError = net.eaiMemory then 6
  else if hostError = net.eaiNoname then 8
  else if hostError = net.eaiService then 9
  else if hostError = net.eaiSocktype then 10
  else if hostError = net.eaiSystem then 11
  else if hostError = net.eaiOverflow then 14
  else 4

lemma a2iAndroidEai_ne_zero (net : HostNet) {hostError : ℤ} (h : hostError ≠ 0) :
    a2iAndroidEai net hostError ≠ 0 := by
  rw [a2iAndroidEai, if_neg h]
  repeat' refine iteInduction (motive := (· ≠ 0)) (fun _ ↦ ?_) fun _ ↦ ?_
  all_goals decide

/-! ### The list of addresses -/

/-- `a2i_addrinfo`.  A pointer is the number of a block. -/
structure A2iAddrinfo where
  aiFlags : BitVec 32
  aiFamily : BitVec 32
  aiSocktype : BitVec 32
  aiProtocol : BitVec 32
  aiAddrlen : ℕ
  aiCanonname : Option ℕ
  aiAddr : Option ℕ
  aiNext : Option ℕ
deriving DecidableEq, Repr

/-- What `calloc` leaves. -/
def A2iAddrinfo.zero : A2iAddrinfo := ⟨0, 0, 0, 0, 0, none, none, none⟩

/-- What a block holds. -/
inductive NetBlock where
  | item (info : A2iAddrinfo)
  | bytes (bs : Bytes)
deriving DecidableEq, Repr

/-- `addrinfo` of the host, with its name as bytes; the addresses are there to be read. -/
structure HostAddrinfo (af : HostFamilies) where
  aiFamily : BitVec 32
  aiSocktype : BitVec 32
  aiProtocol : BitVec 32
  aiAddr : Option Bytes
  aiCanonname : Option Bytes
  readable : ∀ src, aiAddr = some src → SockAddr.HostReadable af src

/-- Which of the allocations for one entry of the list fail.  Each is made at most once. -/
structure AllocFails where
  calloc : Bool
  malloc : Bool
  strdup : Bool

/-- `addrinfo` of the host as a hint. -/
structure HostHints where
  aiFlags : BitVec 32
  aiFamily : BitVec 32
  aiSocktype : ℕ
  aiProtocol : BitVec 32

/-- An entry of the list of the host, with the allocations that fail for it. -/
abbrev HostEntry (af : HostFamilies) := HostAddrinfo af × AllocFails

/-- What `a2i_getaddrinfo` returns, with `*result`, the heap, and how often the list of the host has
been freed. -/
structure Getaddrinfo where
  rc : ℤ
  result : Option ℕ
  heap : Heap NetBlock
  hostFreed : ℕ

/-- The variables of the loop: the heap, `head`, and the item of which `tail` is the link, or none
when it is `&head`. -/
structure Partial where
  heap : Heap NetBlock
  head : Option ℕ
  tail : Option ℕ

/-- `a2i_freeaddrinfo` with at most `fuel` iterations.  There is no result when a block is read that
is not there. -/
def a2iFreeaddrinfo : ℕ → Option ℕ → Heap NetBlock → Option (Heap NetBlock)
  | _, none, heap => some heap
  | 0, some _, _ => none
  | fuel + 1, some item, heap =>
    match heap.block item with
    | some (.item info) =>
      a2iFreeaddrinfo fuel info.aiNext
        (((heap.free info.aiCanonname).free info.aiAddr).free (some item))
    | _ => none

/-- The assignment `*tail = item; tail = &item->ai_next`. -/
def Partial.link (s : Partial) (item : ℕ) : Option Partial :=
  match s.tail with
  | none => some ⟨s.heap, some item, some item⟩
  | some last =>
    match s.heap.block last with
    | some (.item info) =>
      some ⟨s.heap.write last (.item { info with aiNext := some item }), s.head, some item⟩
    | _ => none

/-- A `return` inside the loop, after the two lists have been freed. -/
def Partial.outOfMemory (s : Partial) : Option Getaddrinfo :=
  (a2iFreeaddrinfo s.heap.allocated s.head s.heap).map fun heap ↦ ⟨6, none, heap, 1⟩

/-- The name of an entry is copied when there is one.  A failure is not looked at. -/
def copyName (heap : Heap NetBlock) (fails : Bool) :
    Option Bytes → Option ℕ × Heap NetBlock
  | none => (none, heap)
  | some name => heap.alloc fails (.bytes name)

/-- One iteration of the loop of `a2i_getaddrinfo`: it returns or goes on. -/
def a2iGetaddrinfoEntry (af : HostFamilies) (flags : BitVec 32) (e : HostEntry af) (s : Partial) :
    Option (Getaddrinfo ⊕ Partial) :=
  match a2iAndroidFamily af e.1.aiFamily with
  | none => some (.inr s)
  | some family =>
    match s.heap.alloc e.2.calloc (.item .zero) with
    | (none, heap) => ({ s with heap } : Partial).outOfMemory.map .inl
    | (some item, heap) =>
      let (addressLen, converted) := a2iFromHostSockaddr af e.1.aiAddr (some (zeros 128)) 128
      if addressLen = 0 then some (.inr { s with heap := heap.free (some item) })
      else
        let address := (converted.getD []).take addressLen
        match heap.alloc e.2.malloc (.bytes address) with
        | (none, heap) => ({ s with heap := heap.free (some item) } : Partial).outOfMemory.map .inl
        | (some addr, heap) =>
          let (name, heap) := copyName heap e.2.strdup e.1.aiCanonname
          let heap := heap.write item (.item ⟨flags, family, e.1.aiSocktype, e.1.aiProtocol,
            addressLen, name, some addr, none⟩)
          (({ s with heap } : Partial).link item).map .inr

/-- The loop of `a2i_getaddrinfo` and what follows it. -/
def a2iGetaddrinfoLoop (af : HostFamilies) (flags : BitVec 32) :
    List (HostEntry af) → Partial → Option Getaddrinfo
  | [], s => some ⟨if s.head.isSome then 0 else 8, s.head, s.heap, 1⟩
  | e :: its, s =>
    match a2iGetaddrinfoEntry af flags e s with
    | none => none
    | some (.inl r) => some r
    | some (.inr s) => a2iGetaddrinfoLoop af flags its s

/-- The hints for the host; there are none when the family or the type is refused. -/
def hostHints (net : HostNet) (hints : A2iAddrinfo) : Option HostHints :=
  match a2iHostFamily net.af hints.aiFamily,
      if hints.aiSocktype ≠ 0 then (a2iHostSocktype net hints.aiSocktype).toOption
      else some (0, 0) with
  | some aiFamily, some (aiSocktype, _) =>
    some ⟨a2iHostAiFlags net hints.aiFlags, aiFamily, aiSocktype, hints.aiProtocol⟩
  | _, _ => none

/-- `getaddrinfo` of the host: what it returns, and the list that it stores. -/
abbrev HostGetaddrinfo (af : HostFamilies) :=
  Option Bytes → Option Bytes → Option HostHints → ℤ × List (HostEntry af)

/-- The call of `getaddrinfo` of the host, which is not made when the hints are refused. -/
def hostCall (net : HostNet) (getaddrinfo : HostGetaddrinfo net.af) (node service : Option Bytes) :
    Option A2iAddrinfo → Option (ℤ × List (HostEntry net.af))
  | none => some (getaddrinfo node service none)
  | some hints => (hostHints net hints).map fun hints ↦ getaddrinfo node service (some hints)

/-- `a2i_getaddrinfo`; `result` is `NULL` or the pointer that is there. -/
def a2iGetaddrinfo (net : HostNet) (getaddrinfo : HostGetaddrinfo net.af)
    (node service : Option Bytes) (hints : Option A2iAddrinfo) (result : Option (Option ℕ)) :
    Option Getaddrinfo :=
  match result with
  | none => some ⟨3, none, .empty, 0⟩
  | some _ =>
    match hostCall net getaddrinfo node service hints with
    | none => some ⟨5, none, .empty, 0⟩
    | some (rc, its) =>
      if rc ≠ 0 then some ⟨a2iAndroidEai net rc, none, .empty, 0⟩
      else
        let flags := (hints.map A2iAddrinfo.aiFlags).getD 0
        a2iGetaddrinfoLoop net.af flags its ⟨.empty, none, none⟩

/-! ### What a list on the heap says -/

/-- An address with what `getaddrinfo` says about it. -/
structure AddressInfo where
  flags : BitVec 32
  family : BitVec 32
  socktype : BitVec 32
  protocol : BitVec 32
  address : Bytes
  canonname : Option Bytes
deriving DecidableEq, Repr

/-- The translation of an entry of the host, when its address is supported. -/
def HostAddrinfo.translate {af : HostFamilies} (flags : BitVec 32) (it : HostAddrinfo af) :
    Option AddressInfo :=
  (a2iAndroidFamily af it.aiFamily).bind fun family ↦
    (it.aiAddr.bind (SockAddr.ofHost af)).map fun x ↦
      ⟨flags, family, it.aiSocktype, it.aiProtocol, x.android, it.aiCanonname⟩

/-- An item of the list: its blocks and what they say. -/
structure AddressNode where
  item : ℕ
  addr : ℕ
  name : Option ℕ
  info : AddressInfo

namespace AddressNode

/-- The blocks of an item. -/
def blocks (n : AddressNode) : List ℕ := n.item :: n.addr :: n.name.toList

/-- The content of the item. -/
def content (n : AddressNode) (next : Option ℕ) : A2iAddrinfo :=
  ⟨n.info.flags, n.info.family, n.info.socktype, n.info.protocol, n.info.address.length, n.name,
    some n.addr, next⟩

/-- The item is on the heap with the link `next`. -/
def At (heap : Heap NetBlock) (n : AddressNode) (next : Option ℕ) : Prop :=
  heap.block n.item = some (.item (n.content next)) ∧
    heap.block n.addr = some (.bytes n.info.address) ∧
    n.name.map heap.block = n.info.canonname.map fun name ↦ some (.bytes name)

variable {heap heap' : Heap NetBlock} {m n : AddressNode} {next next' : Option ℕ}

lemma At.frame (h : At heap n next) (hheap : ∀ b ∈ n.blocks, heap'.block b = heap.block b) :
    At heap' n next := by
  obtain ⟨hitem, haddr, hname⟩ := h
  refine ⟨?_, ?_, ?_⟩
  · rw [hheap n.item (by simp [blocks]), hitem]
  · rw [hheap n.addr (by simp [blocks]), haddr]
  · rw [← hname]
    apply Option.map_congr
    intro b hb
    exact hheap b (by simp [blocks, hb])

/-- An item is there once it is written behind its address and its name. -/
lemma at_write (hnodup : n.blocks.Nodup) (haddr : heap.block n.addr = some (.bytes n.info.address))
    (hname : n.name.map heap.block = n.info.canonname.map fun name ↦ some (.bytes name))
    (next : Option ℕ) : At (heap.write n.item (.item (n.content next))) n next := by
  obtain ⟨hnotMem, -⟩ := List.nodup_cons.mp hnodup
  have hne : n.addr ≠ n.item := fun heq ↦ hnotMem (heq ▸ List.mem_cons_self)
  refine ⟨Heap.block_write_self, ?_, ?_⟩
  · rw [Heap.block_write_of_ne hne, haddr]
  · rw [← hname]
    apply Option.map_congr
    intro b hb
    exact Heap.block_write_of_ne (fun heq ↦ hnotMem
      (List.mem_cons_of_mem _ (Option.mem_toList.mpr (heq ▸ hb))))

/-- The blocks determine what they say. -/
lemma At.unique (hm : At heap m next) (hn : At heap n next') (hitem : m.item = n.item) :
    m = n ∧ next = next' := by
  obtain ⟨hitem₁, haddr₁, hname₁⟩ := hm
  obtain ⟨hitem₂, haddr₂, hname₂⟩ := hn
  obtain ⟨item, addr, name, info⟩ := m
  obtain ⟨item', addr', name', info'⟩ := n
  obtain rfl : item = item' := hitem
  rw [hitem₁] at hitem₂
  simp only [content, Option.some.injEq, NetBlock.item.injEq, A2iAddrinfo.mk.injEq] at hitem₂
  obtain ⟨hflags, hfamily, hsocktype, hprotocol, -, rfl, rfl, rfl⟩ := hitem₂
  have haddress : info.address = info'.address := by
    have h := haddr₁.symm.trans haddr₂
    simpa using h
  have hcanonname : info.canonname = info'.canonname := by
    have h := hname₁.symm.trans hname₂
    refine Option.map_injective (fun a b hab ↦ ?_) h
    simpa using hab
  refine ⟨?_, rfl⟩
  congr 1
  cases info
  cases info'
  simp_all

end AddressNode

/-- The items are a list on the heap, from `head` to the null pointer. -/
abbrev AddressList (heap : Heap NetBlock) (head : Option ℕ) (nodes : List AddressNode) : Prop :=
  Segment AddressNode.item (AddressNode.At heap) head nodes none

lemma AddressList.frame {heap heap' : Heap NetBlock} {head : Option ℕ} {nodes : List AddressNode}
    (h : AddressList heap head nodes)
    (hheap : ∀ b ∈ nodes.flatMap AddressNode.blocks, heap'.block b = heap.block b) :
    AddressList heap' head nodes := by
  apply Segment.imp h
  intro n hn next hat
  exact hat.frame (fun b hb ↦ hheap b (List.mem_flatMap.mpr ⟨n, hn, hb⟩))

/-! ### Freeing a list -/

/-- A list is freed with all of its blocks. -/
lemma a2iFreeaddrinfo_spec {fuel : ℕ} {heap : Heap NetBlock} {head : Option ℕ}
    {nodes : List AddressNode} (hlist : AddressList heap head nodes)
    (hb : heap.Balanced (nodes.flatMap AddressNode.blocks)) (hfuel : nodes.length ≤ fuel) :
    ∃ heap', a2iFreeaddrinfo fuel head heap = some heap' ∧ heap'.Balanced [] := by
  induction nodes generalizing fuel heap head with
  | nil =>
    obtain rfl : head = none := hlist
    exact ⟨heap, by cases fuel <;> rfl, hb⟩
  | cons n nodes ih =>
    obtain ⟨rfl, next, ⟨hitem, haddr, hname⟩, htail⟩ := hlist
    rw [List.length_cons] at hfuel
    obtain ⟨fuel, rfl⟩ : ∃ k, fuel = k + 1 := ⟨fuel - 1, by omega⟩
    replace hfuel : nodes.length ≤ fuel := by omega
    rw [List.flatMap_cons] at hb
    -- the blocks of the other items are not those that are freed
    have hother : ∀ b ∈ nodes.flatMap AddressNode.blocks, b ∉ n.blocks := by
      intro b hb' hn
      exact List.disjoint_of_nodup_append hb.nodup hn hb'
    have hframe : ∀ b ∈ nodes.flatMap AddressNode.blocks,
        (((heap.free n.name).free (some n.addr)).free (some n.item)).block b = heap.block b := by
      intro b hb'
      have hn := hother b hb'
      simp only [AddressNode.blocks, List.mem_cons, Option.mem_toList, not_or] at hn
      obtain ⟨hitem', haddr', hname'⟩ := hn
      rw [Heap.block_free_of_ne (by simpa using hitem'),
        Heap.block_free_of_ne (by simpa using haddr'), Heap.block_free_of_ne (Ne.symm hname')]
    have hperm : (n.blocks ++ nodes.flatMap AddressNode.blocks).Perm
        (n.name.toList ++ (n.addr :: n.item :: nodes.flatMap AddressNode.blocks)) := by
      rw [AddressNode.blocks, List.cons_append, List.cons_append]
      exact (List.Perm.swap ..).trans
        (((List.perm_middle.symm.cons _).trans List.perm_middle.symm))
    have hfreed := ((hb.perm hperm).free_option).free.free
    obtain ⟨heap', hfree, hbalanced⟩ := ih (AddressList.frame htail hframe) hfreed hfuel
    refine ⟨heap', ?_, hbalanced⟩
    rw [a2iFreeaddrinfo, hitem]
    exact hfree

lemma length_le_length_blocks (nodes : List AddressNode) :
    nodes.length ≤ (nodes.flatMap AddressNode.blocks).length := by
  induction nodes with
  | nil => exact Nat.le_refl 0
  | cons n nodes ih =>
    rw [List.flatMap_cons, List.length_append, List.length_cons, AddressNode.blocks,
      List.length_cons]
    omega

/-! ### One entry of the list -/

/-- The loop has built the items, and the blocks `extra` are allocated too. -/
structure Partial.Built (s : Partial) (nodes : List AddressNode) (extra : List ℕ) : Prop where
  list : AddressList s.heap s.head nodes
  tail : s.tail = nodes.getLast?.map AddressNode.item
  balanced : s.heap.Balanced (nodes.flatMap AddressNode.blocks ++ extra)

namespace Partial

variable {s : Partial} {nodes : List AddressNode} {extra extra' : List ℕ} {heap : Heap NetBlock}
  {b : NetBlock}

/-- The other blocks change. -/
lemma Built.change (h : s.Built nodes extra)
    (hheap : ∀ p ∈ nodes.flatMap AddressNode.blocks, heap.block p = s.heap.block p)
    (hb : heap.Balanced (nodes.flatMap AddressNode.blocks ++ extra')) :
    Built { s with heap } nodes extra' :=
  ⟨h.list.frame hheap, h.tail, hb⟩

lemma Built.not_mem (h : s.Built nodes extra) {p : ℕ} (hp : p ∈ extra) :
    ∀ q ∈ nodes.flatMap AddressNode.blocks, q ≠ p := by
  rintro q hq rfl
  exact List.disjoint_of_nodup_append h.balanced.nodup hq hp

lemma Built.push (h : s.Built nodes extra) (b : NetBlock) :
    Built { s with heap := s.heap.push b } nodes (extra ++ [s.heap.allocated]) := by
  apply h.change
  · intro p hp
    exact Heap.block_push_of_lt (h.balanced.lt (List.mem_append_left _ hp))
  · rw [← List.append_assoc]
    exact h.balanced.push b

lemma Built.free {item : ℕ} (h : s.Built nodes [item]) :
    Built { s with heap := s.heap.free (some item) } nodes [] := by
  have hne := h.not_mem List.mem_cons_self
  apply h.change
  · intro p hp
    exact Heap.block_free_of_ne (fun hpq ↦ hne p hp (Option.some.inj hpq))
  · rw [List.append_nil]
    exact (h.balanced.perm List.perm_append_comm).free

lemma Built.write {item : ℕ} (h : s.Built nodes extra) (hitem : item ∈ extra) :
    Built { s with heap := s.heap.write item b } nodes extra := by
  have hne := h.not_mem hitem
  exact h.change (fun p hp ↦ Heap.block_write_of_ne (hne p hp)) (h.balanced.write item b)

/-- When memory runs out, both lists are freed. -/
lemma Built.outOfMemory (h : s.Built nodes []) :
    ∃ heap, s.outOfMemory = some ⟨6, none, heap, 1⟩ ∧ heap.Balanced [] := by
  have hb := h.balanced
  rw [List.append_nil] at hb
  have hfuel := (length_le_length_blocks nodes).trans hb.length_le
  obtain ⟨heap, hfree, hbalanced⟩ := a2iFreeaddrinfo_spec h.list hb hfuel
  refine ⟨heap, ?_, hbalanced⟩
  rw [Partial.outOfMemory, hfree]
  rfl

/-- A new item is linked behind the last one. -/
lemma Built.link {n : AddressNode} (h : s.Built nodes n.blocks)
    (hn : AddressNode.At s.heap n none) :
    ∃ s', s.link n.item = some s' ∧ s'.Built (nodes ++ [n]) [] := by
  have hbalanced : s.heap.Balanced ((nodes ++ [n]).flatMap AddressNode.blocks ++ []) := by
    simpa using h.balanced
  rcases List.eq_nil_or_concat' nodes with rfl | ⟨init, last, rfl⟩
  · have htail : s.tail = none := h.tail
    refine ⟨⟨s.heap, some n.item, some n.item⟩, by rw [Partial.link, htail], ?_, rfl, hbalanced⟩
    exact ⟨rfl, none, hn, rfl⟩
  · have htail : s.tail = some last.item := by
      rw [h.tail, List.getLast?_append]
      rfl
    obtain ⟨_, -, rfl, next, hlast, rfl⟩ := segment_append.mp h.list
    -- the assignment changes the link of the last item only
    have hnodup := h.balanced.nodup
    rw [List.flatMap_append, List.flatMap_singleton] at hnodup
    obtain ⟨hnodes, -, hdisjoint⟩ := List.nodup_append.mp hnodup
    obtain ⟨-, hblocks, hinit⟩ := List.nodup_append.mp hnodes
    have hmem : last.item ∈ last.blocks := List.mem_cons_self
    have hwrite : ∀ b ≠ last.item, (s.heap.write last.item
        (.item (last.content (some n.item)))).block b = s.heap.block b :=
      fun b hb ↦ Heap.block_write_of_ne hb
    have hlink : s.link n.item = some ⟨s.heap.write last.item
        (.item (last.content (some n.item))), s.head, some n.item⟩ := by
      simp only [Partial.link, htail, hlast.1]
      rfl
    refine ⟨_, hlink, ?_, ?_, ?_⟩
    · apply Segment.concat h.list
      · intro m hm next hat
        apply hat.frame
        intro b hb
        exact hwrite b (hinit b (List.mem_flatMap.mpr ⟨m, hm, hb⟩) last.item hmem)
      · rintro ⟨-, haddr, hname⟩
        exact AddressNode.at_write hblocks haddr hname (some n.item)
      · apply hn.frame
        intro b hb
        exact hwrite b (fun heq ↦ hdisjoint b
          (List.mem_append_right _ (heq ▸ hmem)) b hb rfl)
    · rw [List.getLast?_append]
      rfl
    · exact hbalanced

end Partial

namespace HostAddrinfo

variable {af : HostFamilies} {x : SockAddr}

/-- The address that an entry has, when it is supported. -/
def address (it : HostAddrinfo af) : Option SockAddr := it.aiAddr.bind (SockAddr.ofHost af)

lemma fromHost_of_address_none {it : HostAddrinfo af} (hx : it.address = none)
    (dst : Option Bytes) (capacity : ℕ) :
    a2iFromHostSockaddr af it.aiAddr dst capacity = (0, dst) := by
  rw [address] at hx
  cases haddr : it.aiAddr with
  | none => rfl
  | some src =>
    rw [haddr, Option.bind_some] at hx
    exact fromHost_of_none hx dst capacity

lemma fromHost_of_address {it : HostAddrinfo af} (hx : it.address = some x) :
    a2iFromHostSockaddr af it.aiAddr (some (zeros 128)) 128 =
        (x.length, some (x.android ++ (zeros 128).drop x.length)) ∧
      x.android.length = x.length ∧ x.length ≠ 0 := by
  obtain ⟨src, haddr, hread⟩ := Option.bind_eq_some_iff.mp hx
  have hsized := SockAddr.sized_of_ofHost (it.readable src haddr) hread
  have hle : ¬128 < x.length ∧ x.length ≠ 0 := by cases x <;> simp [SockAddr.length]
  rw [haddr, fromHost_of_some hread hsized, if_neg hle.1]
  exact ⟨rfl, SockAddr.length_android hsized, hle.2⟩

end HostAddrinfo

namespace HostEntry

variable {af : HostFamilies}

/-- An allocation whose result is looked at fails for the entry. -/
def Dies (e : HostEntry af) : Prop :=
  a2iAndroidFamily af e.1.aiFamily ≠ none ∧
    (e.2.calloc = true ∨ e.1.address ≠ none ∧ e.2.malloc = true)

/-- The entry has an address that is supported. -/
def Supported (e : HostEntry af) : Prop :=
  a2iAndroidFamily af e.1.aiFamily ≠ none ∧ e.1.address ≠ none

/-- What the loop makes of an entry: its translation, without the name when this is not copied. -/
def received (flags : BitVec 32) (e : HostEntry af) : Option AddressInfo :=
  (e.1.translate flags).map fun info ↦
    if e.2.strdup then { info with canonname := none } else info

end HostEntry

section

variable {af : HostFamilies} {s : Partial} {nodes : List AddressNode} {extra : List ℕ}

/-- The copy of the name, whose failure looks like an entry without a name. -/
lemma Partial.Built.copyName (h : s.Built nodes extra) (fails : Bool)
    (canonname : Option Bytes) :
    ∃ name heap, Apk2Ios.copyName s.heap fails canonname = (name, heap) ∧
      Built { s with heap } nodes (extra ++ name.toList) ∧
      (name.map heap.block =
        (if fails then none else canonname).map fun name ↦ some (.bytes name)) ∧
      ∀ p < s.heap.allocated, heap.block p = s.heap.block p := by
  have hsame : s.Built nodes (extra ++ (none : Option ℕ).toList) := by
    rwa [Option.toList_none, List.append_nil]
  cases canonname with
  | none => exact ⟨none, s.heap, rfl, hsame, by cases fails <;> rfl, fun p _ ↦ rfl⟩
  | some name =>
    cases fails with
    | true => exact ⟨none, s.heap, rfl, hsame, rfl, fun p _ ↦ rfl⟩
    | false =>
      refine ⟨some s.heap.allocated, s.heap.push (.bytes name), rfl, h.push (.bytes name), ?_, ?_⟩
      · exact congrArg some Heap.block_push_self
      · intro p hp
        exact Heap.block_push_of_lt hp

/-- An entry is translated exactly when its address is supported. -/
lemma HostEntry.translate_eq_none_iff (flags : BitVec 32) (e : HostEntry af) :
    e.1.translate flags = none ↔ ¬e.Supported := by
  rw [HostAddrinfo.translate, ← HostAddrinfo.address, Supported]
  cases a2iAndroidFamily af e.1.aiFamily <;> cases e.1.address <;> simp

/-- The copy of the name matters for a supported entry that has one. -/
lemma HostEntry.received_eq_iff (flags : BitVec 32) (e : HostEntry af) :
    e.received flags = e.1.translate flags ↔
      (e.Supported → e.1.aiCanonname ≠ none → e.2.strdup = false) := by
  cases hinfo : e.1.translate flags with
  | none =>
    have hunsupported := (translate_eq_none_iff flags e).mp hinfo
    rw [received, hinfo]
    exact ⟨fun _ h ↦ absurd h hunsupported, fun _ ↦ rfl⟩
  | some info =>
    have hsupported : e.Supported := by
      by_contra h
      exact absurd (hinfo.symm.trans ((translate_eq_none_iff flags e).mpr h))
        (Option.some_ne_none info)
    have hname : info.canonname = e.1.aiCanonname := by
      obtain ⟨family, -, hmap⟩ := Option.bind_eq_some_iff.mp hinfo
      obtain ⟨x, -, rfl⟩ := Option.map_eq_some_iff.mp hmap
      rfl
    rw [received, hinfo, Option.map_some, Option.some.injEq, ← hname]
    cases e.2.strdup with
    | false => exact ⟨fun _ _ _ ↦ rfl, fun _ ↦ rfl⟩
    | true =>
      constructor
      · intro h _ hcanon
        rw [← h] at hcanon
        exact absurd rfl hcanon
      · intro h
        have hnone : info.canonname = none := by
          by_contra hcanon
          exact Bool.false_ne_true (h hsupported hcanon).symm
        rw [if_pos rfl, ← hnone]

lemma HostEntry.filterMap_received_eq_iff (flags : BitVec 32) (its : List (HostEntry af)) :
    its.filterMap (received flags) = its.filterMap (fun e ↦ e.1.translate flags) ↔
      ∀ e ∈ its, e.received flags = e.1.translate flags := by
  induction its with
  | nil => exact ⟨fun _ e he ↦ absurd he List.not_mem_nil, fun _ ↦ rfl⟩
  | cons e its ih =>
    rw [List.forall_mem_cons, ← ih]
    cases hinfo : e.1.translate flags with
    | none =>
      have hnone : e.received flags = none := by rw [received, hinfo, Option.map_none]
      simp only [List.filterMap_cons, hinfo, hnone, true_and]
    | some info =>
      obtain ⟨info', hsome⟩ : ∃ info', e.received flags = some info' := by
        rw [received, hinfo]
        exact ⟨_, rfl⟩
      simp only [List.filterMap_cons, hinfo, hsome, List.cons.injEq, Option.some.injEq]

/-- An address that is supported is appended, when memory for it is there. -/
lemma a2iGetaddrinfoEntry_of_supported (flags : BitVec 32) {e : HostEntry af} (h : s.Built nodes [])
    {family : BitVec 32} (hfamily : a2iAndroidFamily af e.1.aiFamily = some family) {x : SockAddr}
    (hx : e.1.address = some x) (hcalloc : e.2.calloc = false) (hmalloc : e.2.malloc = false) :
    ∃ s' n, a2iGetaddrinfoEntry af flags e s = some (.inr s') ∧ s'.Built (nodes ++ [n]) [] ∧
      e.received flags = some n.info := by
  have h1 := h.push (.item .zero)
  rw [List.nil_append] at h1
  obtain ⟨hfrom, hlength, hpos⟩ := HostAddrinfo.fromHost_of_address hx
  have htake : (x.android ++ (zeros 128).drop x.length).take x.length = x.android :=
    List.take_left' hlength
  have h2 : Partial.Built ⟨(s.heap.push (.item .zero)).push (.bytes x.android), s.head, s.tail⟩
      nodes [s.heap.allocated, s.heap.allocated + 1] := h1.push (.bytes x.android)
  obtain ⟨name, heap, hname, h3, hcopy, hframe⟩ := h2.copyName e.2.strdup e.1.aiCanonname
  -- the item that the entry becomes
  let n : AddressNode := ⟨s.heap.allocated, s.heap.allocated + 1, name,
    ⟨flags, family, e.1.aiSocktype, e.1.aiProtocol, x.android,
      if e.2.strdup then none else e.1.aiCanonname⟩⟩
  have h4 : Partial.Built ⟨heap.write n.item (.item (n.content none)), s.head, s.tail⟩
      nodes n.blocks := h3.write List.mem_cons_self
  have hnodup := h4.balanced.nodup.sublist (List.sublist_append_right ..)
  have haddr : heap.block n.addr = some (.bytes n.info.address) :=
    (hframe n.addr (Nat.lt_succ_self (s.heap.allocated + 1))).trans Heap.block_push_self
  have hat := AddressNode.at_write hnodup haddr hcopy none
  obtain ⟨s', hlink, hbuilt⟩ := h4.link hat
  refine ⟨s', n, ?_, hbuilt, ?_⟩
  · simp only [a2iGetaddrinfoEntry, hfamily, hcalloc, hfrom, hmalloc, Heap.alloc_false,
      if_neg hpos, Option.getD_some, htake, hname]
    rw [← hlength]
    exact congrArg (Option.map Sum.inr) hlink
  · rw [HostEntry.received, HostAddrinfo.translate, ← HostAddrinfo.address, hx, hfamily]
    show _ = some n.info
    simp only [n]
    cases e.2.strdup <;> rfl

/-- One iteration: memory runs out, or what is made of the entry is appended. -/
lemma a2iGetaddrinfoEntry_spec (flags : BitVec 32) (e : HostEntry af) (h : s.Built nodes []) :
    (e.Dies ∧ ∃ heap, a2iGetaddrinfoEntry af flags e s = some (.inl ⟨6, none, heap, 1⟩) ∧
      heap.Balanced []) ∨
    (¬e.Dies ∧ ∃ s' new, a2iGetaddrinfoEntry af flags e s = some (.inr s') ∧
      s'.Built (nodes ++ new) [] ∧ new.map AddressNode.info = (e.received flags).toList) := by
  -- the cases are the exits of the loop body in their order: family, `calloc`, address, `malloc`
  cases hfamily : a2iAndroidFamily af e.1.aiFamily with
  | none =>
    right
    refine ⟨fun hdies ↦ hdies.1 hfamily, s, [], ?_, by rwa [List.append_nil], ?_⟩
    · simp only [a2iGetaddrinfoEntry, hfamily]
    · rw [HostEntry.received, HostAddrinfo.translate, hfamily]
      rfl
  | some family =>
    have hsome : a2iAndroidFamily af e.1.aiFamily ≠ none := by
      rw [hfamily]
      exact Option.some_ne_none family
    cases hcalloc : e.2.calloc with
    | true =>
      left
      obtain ⟨heap, hout, hb⟩ := h.outOfMemory
      refine ⟨⟨hsome, Or.inl hcalloc⟩, heap, ?_, hb⟩
      simp only [a2iGetaddrinfoEntry, hfamily, hcalloc, Heap.alloc_true]
      exact congrArg (Option.map Sum.inl) hout
    | false =>
      -- from here on the node is allocated, and each exit has to free or link it
      have h1 := h.push (.item .zero)
      rw [List.nil_append] at h1
      cases hx : e.1.address with
      | none =>
        right
        refine ⟨?_, _, [], ?_, by rw [List.append_nil]; exact h1.free, ?_⟩
        · rintro ⟨-, hc | ⟨ha, -⟩⟩
          · rw [hcalloc] at hc
            exact Bool.false_ne_true hc
          · exact ha hx
        · simp only [a2iGetaddrinfoEntry, hfamily, hcalloc, Heap.alloc_false,
            HostAddrinfo.fromHost_of_address_none hx, if_pos]
        · rw [HostEntry.received, HostAddrinfo.translate, ← HostAddrinfo.address, hx, hfamily]
          rfl
      | some x =>
        cases hmalloc : e.2.malloc with
        | true =>
          left
          obtain ⟨hfrom, -, hpos⟩ := HostAddrinfo.fromHost_of_address hx
          obtain ⟨heap, hout, hb⟩ := h1.free.outOfMemory
          refine ⟨⟨hsome, Or.inr ⟨by rw [hx]; exact Option.some_ne_none x, hmalloc⟩⟩, heap, ?_, hb⟩
          simp only [a2iGetaddrinfoEntry, hfamily, hcalloc, hfrom, hmalloc, Heap.alloc_false,
            Heap.alloc_true, if_neg hpos]
          exact congrArg (Option.map Sum.inl) hout
        | false =>
          right
          obtain ⟨s', n, hentry, hbuilt, hinfo⟩ :=
            a2iGetaddrinfoEntry_of_supported flags h hfamily hx hcalloc hmalloc
          refine ⟨?_, s', [n], hentry, hbuilt, by rw [hinfo]; rfl⟩
          rintro ⟨-, hc | ⟨-, hm⟩⟩
          · rw [hcalloc] at hc
            exact Bool.false_ne_true hc
          · rw [hmalloc] at hm
            exact Bool.false_ne_true hm

/-! ### The whole list -/

/-- The loop: memory runs out, or what is made of the entries is on the list. -/
lemma a2iGetaddrinfoLoop_spec (flags : BitVec 32) (its : List (HostEntry af))
    (h : s.Built nodes []) :
    ∃ r, a2iGetaddrinfoLoop af flags its s = some r ∧ r.hostFreed = 1 ∧
      (((∃ e ∈ its, e.Dies) ∧ r.rc = 6 ∧ r.result = none ∧ r.heap.Balanced []) ∨
      ((∀ e ∈ its, ¬e.Dies) ∧ ∃ new, new.map AddressNode.info = its.filterMap (·.received flags) ∧
        r.rc = (if nodes ++ new = [] then 8 else 0) ∧
        AddressList r.heap r.result (nodes ++ new) ∧
        r.heap.Balanced ((nodes ++ new).flatMap AddressNode.blocks))) := by
  induction its generalizing s nodes with
  | nil =>
    refine ⟨_, rfl, rfl, Or.inr ⟨fun e he ↦ absurd he List.not_mem_nil, [], rfl, ?_, ?_, ?_⟩⟩
    · rw [List.append_nil]
      cases nodes with
      | nil =>
        have hhead : s.head = none := h.list
        rw [hhead]
        rfl
      | cons n nodes =>
        rw [h.list.1]
        rfl
    · rw [List.append_nil]
      exact h.list
    · have hb := h.balanced
      rw [List.append_nil] at hb ⊢
      exact hb
  | cons e its ih =>
    rcases a2iGetaddrinfoEntry_spec flags e h with ⟨hdies, heap, hentry, hb⟩ |
      ⟨hlives, s', new, hentry, hbuilt, hinfo⟩
    · refine ⟨⟨6, none, heap, 1⟩, ?_, rfl, Or.inl ⟨⟨e, List.mem_cons_self, hdies⟩, rfl, rfl, hb⟩⟩
      rw [a2iGetaddrinfoLoop, hentry]
    · obtain ⟨r, hloop, hfreed, hout⟩ := ih hbuilt
      refine ⟨r, by rw [a2iGetaddrinfoLoop, hentry]; exact hloop, hfreed, ?_⟩
      rcases hout with ⟨⟨e', he', hdies⟩, hout⟩ | ⟨hall, rest, hrest, hrc, hlist, hb⟩
      · exact Or.inl ⟨⟨e', List.mem_cons_of_mem e he', hdies⟩, hout⟩
      · refine Or.inr ⟨List.forall_mem_cons.mpr ⟨hlives, hall⟩, new ++ rest, ?_, ?_, ?_, ?_⟩
        · rw [List.map_append, hinfo, hrest, List.filterMap_cons]
          cases e.received flags <;> rfl
        · rw [← List.append_assoc, hrc]
        · rw [← List.append_assoc]
          exact hlist
        · rw [← List.append_assoc]
          exact hb

/-- What a call promises, for the list that the host has returned, if any: a list of translations,
or an error and no block that is left. -/
structure Getaddrinfo.AllOrNothing (r : Getaddrinfo) (flags : BitVec 32)
    (hostList : Option (List (HostEntry af))) : Prop where
  outcome :
    (r.rc = 0 ∧ ∃ its nodes, hostList = some its ∧ nodes ≠ [] ∧
      nodes.map AddressNode.info = its.filterMap (fun e ↦ e.1.translate flags) ∧
      AddressList r.heap r.result nodes ∧
      r.heap.Balanced (nodes.flatMap AddressNode.blocks)) ∨
    (r.rc ≠ 0 ∧ r.result = none ∧ r.heap.Balanced [])
  hostFreed : r.hostFreed = if hostList.isSome then 1 else 0
  freed : ∃ heap, a2iFreeaddrinfo r.heap.allocated r.result r.heap = some heap ∧ heap.Balanced []

/-- **A failed call that keeps the promise has freed each of its blocks once.** -/
theorem Getaddrinfo.AllOrNothing.count_freed {r : Getaddrinfo} {flags : BitVec 32}
    {hostList : Option (List (HostEntry af))} (h : r.AllOrNothing flags hostList) (hrc : r.rc ≠ 0)
    {p : ℕ} (hp : p < r.heap.allocated) : r.heap.freed.count p = 1 := by
  rcases h.outcome with ⟨hzero, -⟩ | ⟨-, -, hb⟩
  · exact absurd hzero hrc
  · have hcount := hb.count_add_count hp
    rwa [List.count_nil, Nat.add_zero] at hcount

lemma a2iFreeaddrinfo_none (fuel : ℕ) (heap : Heap NetBlock) :
    a2iFreeaddrinfo fuel none heap = some heap := by
  cases fuel <;> rfl

/-- A list that is balanced can be freed. -/
lemma AddressList.freed {heap : Heap NetBlock} {head : Option ℕ}
    (hlist : AddressList heap head nodes)
    (hb : heap.Balanced (nodes.flatMap AddressNode.blocks)) :
    ∃ heap', a2iFreeaddrinfo heap.allocated head heap = some heap' ∧ heap'.Balanced [] :=
  a2iFreeaddrinfo_spec hlist hb ((length_le_length_blocks nodes).trans hb.length_le)

/-- The loop on a list of the host keeps the promise when memory runs out for an entry, or every
name that is copied is there. -/
lemma a2iGetaddrinfoLoop_allOrNothing_iff (flags : BitVec 32) (its : List (HostEntry af)) :
    (∃ r, a2iGetaddrinfoLoop af flags its ⟨.empty, none, none⟩ = some r ∧
      r.AllOrNothing flags (some its)) ↔
    (∃ e ∈ its, e.Dies) ∨
      ∀ e ∈ its, e.Supported → e.1.aiCanonname ≠ none → e.2.strdup = false := by
  have hstart : Partial.Built ⟨.empty, none, none⟩ [] [] := ⟨rfl, rfl, Heap.balanced_empty⟩
  have hcopied : (∀ e ∈ its, e.Supported → e.1.aiCanonname ≠ none → e.2.strdup = false) ↔
      its.filterMap (·.received flags) = its.filterMap (fun e ↦ e.1.translate flags) := by
    rw [HostEntry.filterMap_received_eq_iff]
    exact forall₂_congr fun e _ ↦ (HostEntry.received_eq_iff flags e).symm
  obtain ⟨r, hloop, hfreed, hout⟩ := a2iGetaddrinfoLoop_spec flags its hstart
  simp only [hloop, Option.some.injEq, exists_eq_left', hcopied]
  rcases hout with ⟨hdies, hrc, hresult, hb⟩ | ⟨hlives, new, hinfo, hrc, hlist, hb⟩
  · refine iff_of_true ⟨Or.inr ⟨by rw [hrc]; decide, hresult, hb⟩, hfreed, ?_⟩ (Or.inl hdies)
    rw [hresult]
    exact ⟨r.heap, a2iFreeaddrinfo_none _ _, hb⟩
  · rw [List.nil_append] at hrc hlist hb
    constructor
    · intro hall
      right
      rcases hall.outcome with ⟨-, its', nodes, hits, -, hnodes, hlist', -⟩ | ⟨hne, -, -⟩
      · obtain rfl := Option.some.inj hits
        have hsame : new = nodes :=
          Segment.unique (fun m n next next' hitem hm hn ↦ hm.unique hn hitem) hlist hlist'
        rw [← hinfo, ← hnodes, hsame]
      · have hnil : new = [] := by
          by_contra hnew
          exact hne (by rw [hrc, if_neg hnew])
        -- without an item nothing is translated
        rw [hnil, List.map_nil] at hinfo
        rw [HostEntry.filterMap_received_eq_iff]
        intro e he
        have hnone := List.filterMap_eq_nil_iff.mp hinfo.symm e he
        rw [hnone, Option.map_eq_none_iff.mp hnone]
    · rintro (⟨e, he, hdies⟩ | hsame)
      · exact absurd hdies (hlives e he)
      · refine ⟨?_, hfreed, hlist.freed hb⟩
        by_cases hnew : new = []
        · subst hnew
          exact Or.inr ⟨by rw [hrc]; decide, hlist, hb⟩
        · exact Or.inl ⟨by rw [hrc, if_neg hnew], its, new, rfl, hnew, hinfo.trans hsame, hlist, hb⟩

end

/-! ### All or nothing -/

/-- The list that `getaddrinfo` of the host returns, when it is called and does not fail. -/
def hostList (net : HostNet) (getaddrinfo : HostGetaddrinfo net.af) (node service : Option Bytes)
    (hints : Option A2iAddrinfo) : Option (List (HostEntry net.af)) :=
  (hostCall net getaddrinfo node service hints).bind fun call ↦
    if call.1 = 0 then some call.2 else none

/-- A call that fails before the loop leaves nothing. -/
lemma allOrNothing_of_refused {af : HostFamilies} {rc : ℤ} (hrc : rc ≠ 0) (flags : BitVec 32) :
    Getaddrinfo.AllOrNothing ⟨rc, none, .empty, 0⟩ flags
      (none : Option (List (HostEntry af))) :=
  ⟨Or.inr ⟨hrc, rfl, Heap.balanced_empty⟩, rfl, .empty, a2iFreeaddrinfo_none _ _,
    Heap.balanced_empty⟩

/-- **When a call is all or nothing.**  The promise is kept for a list of the host exactly when an
allocation fails whose result is looked at, or the name of each supported entry is copied: a
`strdup` that fails is not noticed, and the list is returned without the name. -/
theorem a2iGetaddrinfo_allOrNothing_iff (net : HostNet) (getaddrinfo : HostGetaddrinfo net.af)
    (node service : Option Bytes) (hints : Option A2iAddrinfo) (old : Option ℕ) :
    (∃ r, a2iGetaddrinfo net getaddrinfo node service hints (some old) = some r ∧
      r.AllOrNothing ((hints.map A2iAddrinfo.aiFlags).getD 0)
        (hostList net getaddrinfo node service hints)) ↔
    ∀ its, hostList net getaddrinfo node service hints = some its →
      (∃ e ∈ its, e.Dies) ∨
        ∀ e ∈ its, e.Supported → e.1.aiCanonname ≠ none → e.2.strdup = false := by
  rw [a2iGetaddrinfo, hostList]
  cases hostCall net getaddrinfo node service hints with
  | none =>
    refine iff_of_true ⟨_, rfl, allOrNothing_of_refused (by decide) _⟩ ?_
    intro its hits
    exact absurd hits.symm (Option.some_ne_none its)
  | some call =>
    obtain ⟨rc, its⟩ := call
    by_cases hrc : rc = 0
    · subst hrc
      simp only [Option.bind_some, if_pos, ne_eq, not_true_eq_false, if_false, Option.some.injEq,
        forall_eq']
      exact a2iGetaddrinfoLoop_allOrNothing_iff _ its
    · simp only [Option.bind_some, ne_eq, hrc, not_false_eq_true, if_true]
      refine iff_of_true ⟨_, rfl, allOrNothing_of_refused (a2iAndroidEai_ne_zero net hrc) _⟩ ?_
      intro its' hits
      exact absurd hits.symm (Option.some_ne_none its')

/-- The entry of a local server with the name `a`, whose copy fails. -/
def lostName : HostEntry .darwin :=
  (⟨2, 1, 6, some ([16, 2, 0, 0, 127, 0, 0, 1] ++ zeros 8), some [97], by
    rintro src ⟨rfl⟩
    exact ⟨by decide, by decide⟩⟩, ⟨false, false, true⟩)

/-- The list is returned without the name. -/
theorem a2iGetaddrinfo_lostName :
    ∃ r, a2iGetaddrinfo .darwin (fun _ _ _ ↦ (0, [lostName])) none none none (some none) = some r ∧
      r.rc = 0 ∧ r.result = some 0 ∧
      r.heap.block 0 = some (.item ⟨0, 2, 1, 6, 16, none, some 1, none⟩) ∧
      ¬r.AllOrNothing 0 (some [lostName]) := by
  refine ⟨_, rfl, by decide, by decide, by decide, ?_⟩
  intro hall
  rcases (a2iGetaddrinfoLoop_allOrNothing_iff 0 [lostName]).mp ⟨_, rfl, hall⟩ with
    ⟨e, he, -, hdies⟩ | hcopied
  · obtain rfl := List.mem_singleton.mp he
    revert hdies
    decide
  · have hsupported : lostName.Supported := ⟨by decide, by decide⟩
    have hfalse := hcopied lostName List.mem_cons_self hsupported (by decide)
    revert hfalse
    decide

end Apk2Ios
