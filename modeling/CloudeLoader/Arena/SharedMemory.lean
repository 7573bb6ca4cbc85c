import CloudeLoader.Lib.ByteMemory

/-!
# The patch arena (`state/shared_memory.cc`)

The arena is one mapping of bytes: the header `lb_shm_arena_t` at offset 0 and, above it, the blocks handed out by the
bump allocator `salloc`.  All references are offsets from the start of the mapping.
-/

namespace CloudeLoader

open ByteMemory

/-- What a block of the arena is for: the header `lb_shm_arena_t`, the four arrays and the strings. -/
inductive Kind
  | header
  | keys
  | values
  | patches
  | transforms
  | str
  deriving DecidableEq, Repr

def Kind.stride : Kind → Nat
  | header => 24
  | keys => 4
  | values => 12
  | patches => 20
  | transforms => 8
  | str => 1

inductive Event
  | alloc (kind : Kind) (off size : Nat)
  | noSpace (kind : Kind) (size : Nat)
  | write (kind : Kind) (base addr len : Nat)
  deriving DecidableEq, Repr

structure Arena where
  mem : Mem
  trace : List Event

/-- A pointer into the arena: its address and the object it was computed from. -/
structure Ptr where
  kind : Kind
  base : Nat
  addr : Nat
  deriving DecidableEq, Repr

def shmPtr (kind : Kind) (off : Nat) : Ptr := ⟨kind, off, off⟩

def Ptr.elem (p : Ptr) (i : Nat) : Ptr := { p with addr := p.addr + i * p.kind.stride }

def Ptr.member (p : Ptr) (k : Nat) : Ptr := { p with addr := p.addr + k }

structure TransformShm where
  matchOff : Nat
  replaceOff : Nat
  deriving DecidableEq, Repr

structure PatchShm where
  fileOff : Nat
  findOff : Nat
  transformsOff : Nat
  transformCount : Nat
  transformCapacity : Nat
  deriving DecidableEq, Repr

structure PatchListShm where
  patchesOff : Nat
  patchCount : Nat
  patchCapacity : Nat
  deriving DecidableEq, Repr

def transformAt (m : Mem) (a : Nat) : TransformShm := ⟨load32 m a, load32 m (a + 4)⟩

def patchAt (m : Mem) (a : Nat) : PatchShm :=
  ⟨load32 m a, load32 m (a + 4), load32 m (a + 8), load32 m (a + 12), load32 m (a + 16)⟩

def patchListAt (m : Mem) (a : Nat) : PatchListShm := ⟨load32 m a, load32 m (a + 4), load32 m (a + 8)⟩

def shmIpcSize : Nat := 1024 * 1024

namespace Arena

/-! ### Accesses -/

variable (s : Arena)

def log (e : Event) : Arena := { s with trace := e :: s.trace }

def load (a : Nat) : Nat := load32 s.mem a

def store (p : Ptr) (v : Nat) : Arena :=
  ⟨store32 s.mem p.addr v, .write p.kind p.base p.addr 4 :: s.trace⟩

def memset (p : Ptr) (n : Nat) : Arena :=
  ⟨fill s.mem p.addr n 0, .write p.kind p.base p.addr n :: s.trace⟩

def memcpy (dst : Ptr) (src n : Nat) : Arena :=
  ⟨copy s.mem dst.addr src n, .write dst.kind dst.base dst.addr n :: s.trace⟩

def memcpyFrom (dst : Ptr) (bs : List UInt8) : Arena :=
  ⟨blit s.mem dst.addr bs, .write dst.kind dst.base dst.addr bs.length :: s.trace⟩

def headerPtr (k : Nat) : Ptr := (shmPtr .header 0).member k

def size : Nat := s.load 0
def used : Nat := s.load 4
def keysOff : Nat := s.load 8
def valuesOff : Nat := s.load 12
def count : Nat := s.load 16
def capacity : Nat := s.load 20

def setUsed (v : Nat) : Arena := s.store (headerPtr 4) v
def setKeysOff (v : Nat) : Arena := s.store (headerPtr 8) v
def setValuesOff (v : Nat) : Arena := s.store (headerPtr 12) v
def setCount (v : Nat) : Arena := s.store (headerPtr 16) v
def setCapacity (v : Nat) : Arena := s.store (headerPtr 20) v

def cstrAt (off : Nat) : CString := cstr s.mem s.size off

end Arena

open Arena

/-! ### The allocator -/

def screate (m : Mem) (size : Nat) : Arena :=
  let s : Arena := ⟨m, []⟩
  let s := s.store (headerPtr 0) size
  s.setUsed 24

def salloc (s : Arena) (kind : Kind) (size : Nat) : Arena × Nat :=
  -- `size = (size + 7) & ~7` on a `uint32_t`
  let size := u32 (u32 size + 7) / 8 * 8
  if u32 (s.used + size) > s.size then (s.log (.noSpace kind size), 0)
  else
    let offset := s.used
    ((s.setUsed (s.used + size)).log (.alloc kind offset size), offset)

def shmStrdup (s : Arena) (str : CString) : Arena × Nat :=
  let len := u32 (u32 str.length + 1)
  let (s, off) := salloc s .str len
  if off = 0 then (s, 0) else (s.memcpyFrom (shmPtr .str off) (str.terminated.take len), off)

/-! ### The map -/

def hashmapInit (s : Arena) : Arena :=
  let s := s.setCapacity 16
  let s := s.setCount 0
  let (s, off) := salloc s .keys (s.capacity * 4)
  let s := s.setKeysOff off
  let s := s.memset (shmPtr .keys s.keysOff) (s.capacity * 4)
  let (s, off) := salloc s .values (s.capacity * 12)
  let s := s.setValuesOff off
  s.memset (shmPtr .values s.valuesOff) (s.capacity * 12)

def hashmapIndex (s : Arena) (key : CString) : Option Nat :=
  (List.range s.count).find? fun i => s.cstrAt (s.load (s.keysOff + i * 4)) = key

def hashmapGet (s : Arena) (key : CString) : Option Ptr :=
  (hashmapIndex s key).map fun i => (shmPtr .values s.valuesOff).elem i

def hashmapGrow (s : Arena) : Arena × Bool :=
  let newCapacity := u32 (s.capacity * 2)
  let (s, newKeysOff) := salloc s .keys (newCapacity * 4)
  let (s, newValuesOff) := salloc s .values (newCapacity * 12)
  if newKeysOff = 0 ∨ newValuesOff = 0 then (s, false)
  else
    let s := s.memcpy (shmPtr .keys newKeysOff) s.keysOff (s.capacity * 4)
    let s := s.memcpy (shmPtr .values newValuesOff) s.valuesOff (s.capacity * 12)
    let s := s.memset ((shmPtr .keys newKeysOff).member (s.capacity * 4)) (s.capacity * 4)
    let s := s.memset ((shmPtr .values newValuesOff).member (s.capacity * 12)) (s.capacity * 12)
    let s := s.setKeysOff newKeysOff
    let s := s.setValuesOff newValuesOff
    (s.setCapacity newCapacity, true)

def hashmapAppend (s : Arena) (key : CString) : Arena × Ptr :=
  let keys := shmPtr .keys s.keysOff
  let values := shmPtr .values s.valuesOff
  let (s, off) := shmStrdup s key
  let s := s.store (keys.elem s.count) off
  let s := s.store ((values.elem s.count).member 0) 0
  let s := s.store ((values.elem s.count).member 4) 0
  let s := s.store ((values.elem s.count).member 8) 0
  (s.setCount (s.count + 1), values.elem s.count)

def hashmapAddKey (s : Arena) (key : CString) : Arena × Option Ptr :=
  match hashmapGet s key with
  | some existing => (s, some existing)
  | none =>
    match if s.count ≥ s.capacity then hashmapGrow s else (s, true) with
    | (s, false) => (s, none)
    | (s, true) =>
      let (s, p) := hashmapAppend s key
      (s, some p)

def hashmapRemove (s : Arena) (key : CString) : Arena :=
  let keys := shmPtr .keys s.keysOff
  let values := shmPtr .values s.valuesOff
  match hashmapIndex s key with
  | none => s
  | some i =>
    let s :=
      if i < s.count - 1 then
        let n := s.count - i - 1
        let s := s.memcpy (keys.elem i) (keys.elem (i + 1)).addr (n * 4)
        s.memcpy (values.elem i) (values.elem (i + 1)).addr (n * 12)
      else s
    s.setCount (s.count - 1)

/-! ### Transforms and patches -/

/-- Moves an array to twice the room; `head` points to its offset, its count and its capacity. -/
def growArray (s : Arena) (kind : Kind) (head : Ptr) : Arena × Bool :=
  let capacity := s.load (head.addr + 8)
  let newCapacity := if capacity ≠ 0 then u32 (capacity * 2) else 4
  let (s, newOff) := salloc s kind (newCapacity * kind.stride)
  if newOff = 0 then (s, false)
  else
    let off := s.load head.addr
    let s := if off ≠ 0 then s.memcpy (shmPtr kind newOff) off (s.load (head.addr + 8) * kind.stride) else s
    let s := s.store head newOff
    (s.store (head.member 8) newCapacity, true)

def arrayRoom (s : Arena) (kind : Kind) (head : Ptr) : Arena × Bool :=
  if s.load (head.addr + 4) ≥ s.load (head.addr + 8) then growArray s kind head else (s, true)

/-- The next element of an array, with its two strings. -/
def appendElem (s : Arena) (kind : Kind) (head : Ptr) (str str' : CString) : Arena × Ptr :=
  let elem := (shmPtr kind (s.load head.addr)).elem (s.load (head.addr + 4))
  let s := s.store (head.member 4) (s.load (head.addr + 4) + 1)
  let (s, off) := shmStrdup s str
  let s := s.store (elem.member 0) off
  let (s, off) := shmStrdup s str'
  (s.store (elem.member 4) off, elem)

def patchAddTransform (s : Arena) (patch : Ptr) (mtch replace : CString) : Arena :=
  match arrayRoom s .transforms (patch.member 8) with
  | (s, false) => s
  | (s, true) => (appendElem s .transforms (patch.member 8) mtch replace).1

def patchlistAdd (s : Arena) (list : Ptr) (file find : CString) : Arena × Option Ptr :=
  match arrayRoom s .patches list with
  | (s, false) => (s, none)
  | (s, true) =>
    let (s, p) := appendElem s .patches list file find
    let s := s.store (p.member 8) 0
    let s := s.store (p.member 12) 0
    (s.store (p.member 16) 0, some p)

def initArena (m : Mem) : Arena := hashmapInit (screate m shmIpcSize)

end CloudeLoader
