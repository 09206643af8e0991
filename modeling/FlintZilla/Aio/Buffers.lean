import FlintZilla.Lib.Ring

/-!
# Buffers of the asynchronous file workers

`aio_base` hands out `nonowning_buffer`s into one block of memory with a region for each of its
eight buffers. A buffer is a region and a window of it; its bytes are in the memory that all copies
of the buffer share, so that two holders of one region would see each other's writes.

Main results:

* `content_append`, `content_append_of_ne`: a write into a region changes what its holder sees and
  nothing that the holders of other regions see.
-/

namespace FlintZilla

open List

/-- `aio_base::buffer_count`. -/
def bufferCount : Nat := 8

/-- `aio_base::buffer_size_`. -/
def bufferSize : Nat := 256 * 1024

instance : NeZero bufferCount := ⟨by decide⟩

/-- `aio_result`. -/
inductive AioResult where
  | ok
  | wait
  | error
deriving DecidableEq

/-- A byte for each offset of each region. -/
abbrev AioMemory := Fin bufferCount → Nat → UInt8

/-- `fz::nonowning_buffer` with its memory; the default-constructed one is `none` where it may
occur. -/
structure NonowningBuffer where
  region : Fin bufferCount
  start : Nat
  size : Nat
deriving DecidableEq

namespace NonowningBuffer

/-- `resize(0)`. -/
def clear (b : NonowningBuffer) : NonowningBuffer := { b with start := 0, size := 0 }

def consume (b : NonowningBuffer) (n : Nat) : NonowningBuffer :=
  { b with start := b.start + n, size := b.size - n }

def add (b : NonowningBuffer) (n : Nat) : NonowningBuffer := { b with size := b.size + n }

/-- The bytes a reader of the buffer sees. -/
def content (b : NonowningBuffer) (mem : AioMemory) : List UInt8 :=
  (List.range b.size).map fun k => mem b.region (b.start + k)

end NonowningBuffer

/-- `memcpy` of `bytes` to an offset of a region. -/
def AioMemory.store (mem : AioMemory) (region : Fin bufferCount) (offset : Nat)
    (bytes : List UInt8) :
    AioMemory := fun r o =>
  if r = region ∧ offset ≤ o then (bytes[o - offset]?).getD (mem r o) else mem r o

/-- Write `bytes` behind the content of a buffer. -/
def AioMemory.append (mem : AioMemory) (b : NonowningBuffer) (bytes : List UInt8) : AioMemory :=
  mem.store b.region (b.start + b.size) bytes

namespace NonowningBuffer

variable {b : NonowningBuffer} {mem : AioMemory}

@[simp] theorem length_content : (b.content mem).length = b.size := by simp [content]

@[simp] theorem content_clear : b.clear.content mem = [] := rfl

/-- What is consumed is taken off the front of the content. -/
theorem content_consume (n : Nat) : (b.consume n).content mem = (b.content mem).drop n := by
  apply ext_getElem?
  intro k
  simp only [content, consume, getElem?_map, getElem?_drop]
  by_cases hk : k < b.size - n
  · rw [getElem?_range hk, getElem?_range (by omega)]
    simp only [Option.map_some, Nat.add_assoc]
  · rw [getElem?_eq_none (by simpa using hk), getElem?_eq_none (by simp; omega)]
    rfl

/-- The writer of a buffer sees what it appended behind what was there. -/
theorem content_append (bytes : List UInt8) :
    (b.add bytes.length).content (mem.append b bytes) = b.content mem ++ bytes := by
  apply ext_getElem?
  intro k
  simp only [content, add, AioMemory.append, AioMemory.store, getElem?_map]
  rcases Nat.lt_or_ge k b.size with hk | hk
  · -- in front of the written range
    rw [getElem?_range (by omega), getElem?_append_left (by simpa using hk)]
    simp [getElem?_range hk]
    omega
  · rw [getElem?_append_right (by simpa using hk)]
    rcases Nat.lt_or_ge k (b.size + bytes.length) with hlt | hge
    · rw [getElem?_range hlt]
      have hoff : b.start + k - (b.start + b.size) = k - b.size := by omega
      have hin : k - b.size < bytes.length := by omega
      simp [hoff, getElem?_eq_getElem hin, hk]
    · rw [getElem?_eq_none (by simpa using hge), getElem?_eq_none (by simp; omega)]
      rfl

/-- Other regions do not see it. -/
theorem content_append_of_ne {c : NonowningBuffer} (bytes : List UInt8) (h : b.region ≠ c.region) :
    b.content (mem.append c bytes) = b.content mem := by
  simp [content, AioMemory.append, AioMemory.store, h]

/-- A buffer that replaces one of the same region leaves every region where it was. -/
theorem region_update {f : Fin bufferCount → NonowningBuffer} {k : Fin bufferCount}
    (hb : b.region = (f k).region) (i : Fin bufferCount) :
    (Function.update f k b i).region = (f i).region := by
  by_cases hi : i = k
  · rw [hi, Function.update_self, hb]
  · rw [Function.update_of_ne hi]

end NonowningBuffer

end FlintZilla
