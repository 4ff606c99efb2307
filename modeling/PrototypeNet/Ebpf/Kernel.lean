import PrototypeNet.Lib.Buffer
import PrototypeNet.Lib.Fallible
import PrototypeNet.Lib.BoundedMap
import PrototypeNet.Common.ProxySource

/-!
# What the kernel offers a packet program

The maps shared with the daemon, the packet a program runs on, and the
helpers it calls.  A program is a fallible computation over the packet and
the maps: it may stop with the source's `Err(())`, keeping the writes made so
far, or do something undefined, which no correct run may.
-/

namespace PrototypeNet

open ByteWords Buffer Fallible

inductive Build
  | production
  | devMode
  deriving DecidableEq, Repr

/-- `err` is the source's `Err(())`; `ub` is an access outside the packet or
an `unreachable_unchecked` that is reached. -/
inductive Abort
  | err
  | ub
  deriving DecidableEq, Repr

/-! ## Maps -/

/-- A tracked dev-mode connection.  Both ports are in network byte order. -/
structure ReplyTrackKey where
  originIpv6 : Ipv6Addr
  originPort : BitVec 16
  translatedPort : BitVec 16
  proto : Byte
  deriving DecidableEq, Repr

structure ReplyTrackValue where
  proxySrc : Ipv6Addr
  deriving DecidableEq, Repr

abbrev NatMap := BoundedMap (BitVec 32) NatEntry 65536

abbrev ReplyTrack := BoundedMap ReplyTrackKey ReplyTrackValue 65536

/-- All maps of the loaded object.  The last three exist only in a dev-mode
build; a production program never looks at them. -/
structure Maps where
  natMap : NatMap
  xfrmIfindex : Vector (BitVec 32) 1
  obfsKeys : Vector ProxySrcKey 2
  devWanIpv6 : Vector Ipv6Addr 1
  replyTrack : ReplyTrack
  dbgCounters : Vector (BitVec 64) 8

def Maps.zeroed : Maps where
  natMap := .empty
  xfrmIfindex := Vector.replicate 1 0
  obfsKeys := Vector.replicate 2 ⟨Vector.replicate 16 0, Vector.replicate 16 0⟩
  devWanIpv6 := Vector.replicate 1 (Vector.replicate 16 0)
  replyTrack := .empty
  dbgCounters := Vector.replicate 8 0

structure Ctx where
  data : List Byte
  maps : Maps

abbrev BpfM := ExceptT Abort (StateM Ctx)

/-! ## Reading the packet -/

/-- A bounds-checked pointer to `size` bytes at `off`. -/
def ptrAt (size off : ℕ) : BpfM ℕ := do
  let s ← get
  if off + size > s.data.length then throw .err else pure off

/-- The XDP programs carry their own copy of the same bounds check. -/
def ptrAtXdp (size off : ℕ) : BpfM ℕ :=
  ptrAt size off

def deref (n ptr : ℕ) : BpfM (Vector Byte n) := do
  let s ← get
  if h : ptr + n ≤ s.data.length then
    pure ⟨⟨window s.data ptr n⟩, length_window s.data ptr n h⟩
  else throw .ub

def load (off : ℕ) : BpfM Byte := do
  let s ← get
  match s.data[off]? with
  | some b => pure b
  | none => throw .err

/-! ## Writing the packet -/

def store (off : ℕ) (b : Byte) : BpfM Unit := do
  let s ← get
  if off < s.data.length then set { s with data := s.data.set off b } else throw .err

/-- The store loops of the programs: one byte after the other. -/
def storeAll : ℕ → List Byte → BpfM Unit
  | _, [] => pure ()
  | off, b :: bs => do
      store off b
      storeAll (off + 1) bs

/-! ## Checksums

Sums are taken over words in the byte order of the (little-endian) target. -/

def leWord32 (b₀ b₁ b₂ b₃ : Byte) : BitVec 32 :=
  beWord32 b₃ b₂ b₁ b₀

def csumAdd (a b : BitVec 32) : BitVec 32 :=
  let s := a + b
  if s < b then s + 1 else s

def csumWords (a : Ipv6Addr) : List (BitVec 32) :=
  [leWord32 a[0]! a[1]! a[2]! a[3]!, leWord32 a[4]! a[5]! a[6]! a[7]!,
    leWord32 a[8]! a[9]! a[10]! a[11]!, leWord32 a[12]! a[13]! a[14]! a[15]!]

def bpfCsumDiff (old new : Ipv6Addr) (seed : BitVec 32) : BitVec 32 :=
  ((csumWords old).map (~~~ ·) ++ csumWords new).foldl csumAdd seed

def csumFold (x : BitVec 32) : BitVec 16 :=
  let a := (x &&& 0xffff) + (x >>> 16)
  let b := (a &&& 0xffff) + (a >>> 16)
  ~~~ b.setWidth 16

def leWord16 (b₀ b₁ : Byte) : BitVec 16 :=
  fromBeBytes 16 #v[b₁, b₀]

def leBytes16 (x : BitVec 16) : List Byte :=
  (toBeBytes 2 x).toList.reverse

/-- The new value of a fully computed checksum field when the data it covers
changes by `diff`.  With the mangled-zero flag a zero field is left alone and
a zero result is stored as all ones. -/
def csumReplace (field : BitVec 16) (diff : BitVec 32) (markMangled0 : Bool) : BitVec 16 :=
  if markMangled0 = true ∧ field = 0 then field
  else
    let new := csumFold (csumAdd diff (~~~ field.setWidth 32))
    if markMangled0 = true ∧ new = 0 then 0xffff else new

/-- `ctx.l4_csum_replace` with a header-field size of zero, so that `diff` is
a checksum difference.  The kernel refuses odd and out-of-range offsets. -/
def l4CsumReplace (offset : ℕ) (diff : BitVec 32) (markMangled0 : Bool) : BpfM Unit := do
  let s ← get
  if offset > 0xffff ∨ offset % 2 = 1 then throw .err
  else
    match s.data[offset]?, s.data[offset + 1]? with
    | some b₀, some b₁ =>
        let new := csumReplace (leWord16 b₀ b₁) diff markMangled0
        set { s with data := patch s.data offset (leBytes16 new) }
    | _, _ => throw .err

/-! ## Updating maps -/

def dbgInc (idx : Fin 8) : BpfM Unit :=
  modify fun s ↦ { s with maps := { s.maps with
    dbgCounters := s.maps.dbgCounters.set idx (s.maps.dbgCounters[idx] + 1) } }

/-- `REPLY_TRACK.insert`, whose failure the caller ignores. -/
def replyTrackInsert (key : ReplyTrackKey) (value : ReplyTrackValue) : BpfM Unit :=
  modify fun s ↦ { s with maps := { s.maps with
    replyTrack := (s.maps.replyTrack.insert key value).getD s.maps.replyTrack } }

end PrototypeNet
