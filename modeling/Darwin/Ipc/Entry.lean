import Mathlib.Data.BitVec

/-! Port names and the entries of a space's table, from `mach/port.h` and `ipc/ipc_entry.h`. -/
open Function
namespace Darwin.Ipc

abbrev IpcObject := BitVec 32

def ioNull : IpcObject := 0

abbrev MachPortName := BitVec 32

def machPortIndex (name : MachPortName) : ℕ := (name>>>8).toNat
def machPortGen (name : MachPortName) : BitVec 32 := (name&&&0xff)<<<24
def machPortMake (index : ℕ) (gen : BitVec 32) : MachPortName :=
  (BitVec.ofNat 32 index<<<8)|||(gen>>>24)

def ieBitsGen (bits : BitVec 32) : BitVec 32 := bits&&&0xff000000

/-- An entry of the table. `ieNext` is the union of `ie_next` and `ie_request`, `ieIndex` the
link of the reverse hash table. -/
structure IpcEntry where
  ieObject : IpcObject
  ieBits : BitVec 32
  ieNext : ℕ
  ieIndex : ℕ
  deriving DecidableEq

/-- `is_table` and `is_table_size`. -/
structure IpcTable where
  isTableSize : ℕ
  isTable : ℕ → IpcEntry

namespace IpcTable

def setEntry (t : IpcTable) (i : ℕ) (entry : IpcEntry) : IpcTable :=
  {t with isTable := update t.isTable i entry}

def setIndex (t : IpcTable) (hindex index : ℕ) : IpcTable :=
  t.setEntry hindex {t.isTable hindex with ieIndex := index}

@[simp] lemma setIndex_size (t : IpcTable) (hindex index : ℕ) :
    (t.setIndex hindex index).isTableSize=t.isTableSize := rfl

lemma setIndex_ieIndex (t : IpcTable) (hindex index i : ℕ) :
    ((t.setIndex hindex index).isTable i).ieIndex =
      update (fun p => (t.isTable p).ieIndex) hindex index i := by
  change (update t.isTable hindex _ i).ieIndex=_
  by_cases h : i=hindex
  · rw [h,update_self,update_self]
  · rw [update_of_ne h,update_of_ne h]

end IpcTable
end Darwin.Ipc
