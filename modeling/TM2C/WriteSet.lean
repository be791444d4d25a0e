import TM2C.Common
import TM2C.Lib.AppendLog
import TM2C.Lib.ByteMemory

/-!
# The write set of a transaction

`src/tm2c_log.c`: the append-only buffer of the stores of an attempt.  Entries
are appended by `writeSetInsert`, looked up by `writeSetContains` and written to
shared memory by `writeSetPersist`.  The entries in use are a list, so
`nb_entries` is its length; `size` is the allocated capacity.

`write_set_entry` doubles the array when it is full, in `uint32_t`: after `2 ^ 31` entries the
new capacity is zero, `realloc` of zero bytes gives no array, and the process dies.  So everything
that appends is an `Option` here.  `Room` is the invariant of the capacity, a power of two that is
large enough, and by it an insertion fails exactly at `2 ^ 31` entries
(`writeSetEntry_isSome_iff`).

The last section reads a write set as a log of bindings of the library: an insertion appends a
binding, `write_set_contains` finds the oldest, and `write_set_persist` writes all of them in
order, so that the newest wins.  That the oldest and the newest disagree is what the theorems on
reading one's own writes are about.
-/

namespace TM2C

/-- `DATATYPE` -/
inductive Datatype where
  | typeInt
  | typeInt64
deriving DecidableEq, Repr

/-- The platforms whose `write_entry_persist` differ. -/
inductive Platform where
  | generic
  | niagara
deriving DecidableEq, Repr

def WRITE_SET_SIZE : Nat := 4

/-- `write_entry_t` -/
structure WriteEntry where
  address : Nat
  type : Datatype
  i : BitVec 32
deriving DecidableEq, Repr

/-- `tm2c_write_set_t` -/
structure WriteSet where
  writeEntries : List WriteEntry
  size : Nat
deriving DecidableEq, Repr

def writeSetNew : WriteSet := ⟨[], WRITE_SET_SIZE⟩

def writeSetEmpty (writeSet : WriteSet) : WriteSet := { writeSet with writeEntries := [] }

/-- `write_set_entry` and `write_set_pgas_entry`: the capacity with room for one more entry.
A `realloc` to 0 bytes gives no array, and the callers use the pointer that is returned. -/
def writeSetEntry (nbEntries size : Nat) : Option Nat :=
  if nbEntries = size then
    let newSize := 2 * size % 2 ^ 32
    if newSize = 0 then none else some newSize
  else some size

/-- There is no result where the process writes through the null pointer. -/
def writeSetInsert (writeSet : WriteSet) (datatype : Datatype) (value : BitVec 32)
    (address : Nat) : Option WriteSet :=
  (writeSetEntry writeSet.writeEntries.length writeSet.size).map fun size =>
    ⟨writeSet.writeEntries ++ [⟨address, datatype, value⟩], size⟩

def writeSetContains (writeSet : WriteSet) (address : Nat) : Option WriteEntry :=
  writeSet.writeEntries.find? fun we => decide (we.address = address)

/-- `write_entry_persist`.  Only on the Niagara does the type select the width. -/
def writeEntryPersist (platform : Platform) (mem : ByteMemory) (we : WriteEntry) : ByteMemory :=
  match platform, we.type with
  | .niagara, .typeInt64 => mem.store 8 we.address (we.i.signExtend 64)
  | _, _ => mem.store 4 we.address we.i

def writeSetPersist (platform : Platform) (mem : ByteMemory) (writeSet : WriteSet) : ByteMemory :=
  writeSet.writeEntries.foldl (writeEntryPersist platform) mem

/-! ### The write sets that a PGAS service node keeps for its senders -/

def WRITE_SET_PGAS_SIZE : Nat := 4

/-- `write_entry_pgas_t` -/
structure WriteEntryPgas where
  address : Nat
  value : BitVec 64
deriving DecidableEq, Repr

/-- `tm2c_write_set_pgas_t` -/
structure WriteSetPgas where
  writeEntries : List WriteEntryPgas
  size : Nat
deriving DecidableEq, Repr

def pgasDslRead (mem : ByteMemory) (offset : Nat) : BitVec 64 := mem.load 8 offset

/-- An `int32_t`, widened where it is assigned to a 64-bit value. -/
def pgasDslRead32 (mem : ByteMemory) (offset : Nat) : BitVec 64 :=
  (mem.load 4 offset : BitVec 32).signExtend 64

def pgasDslWrite (mem : ByteMemory) (offset : Nat) (val : BitVec 64) : ByteMemory :=
  mem.store 8 offset val

def writeSetPgasNew : WriteSetPgas := ⟨[], WRITE_SET_PGAS_SIZE⟩

def writeSetPgasEmpty (writeSet : WriteSetPgas) : WriteSetPgas :=
  { writeSet with writeEntries := [] }

def writeSetPgasInsert (writeSet : WriteSetPgas) (value : BitVec 64) (address : Nat) :
    Option WriteSetPgas :=
  (writeSetEntry writeSet.writeEntries.length writeSet.size).map fun size =>
    ⟨writeSet.writeEntries ++ [⟨address, value⟩], size⟩

/-- The insertion where the array can grow, which is all that a service node that lives on
has done. -/
def writeSetPgasAppend (writeSet : WriteSetPgas) (value : BitVec 64) (address : Nat) :
    WriteSetPgas :=
  { writeEntries := writeSet.writeEntries ++ [⟨address, value⟩]
    size :=
      if writeSet.writeEntries.length = writeSet.size then 2 * writeSet.size else writeSet.size }

def writeSetPgasPersist (mem : ByteMemory) (writeSet : WriteSetPgas) : ByteMemory :=
  writeSet.writeEntries.foldl (fun mem we => pgasDslWrite mem we.address we.value) mem

/-! ### Capacity -/

/-- The capacity is a power of two from 4 to `2 ^ 31`, and the entries fit. -/
structure Room (nbEntries size : Nat) : Prop where
  le : nbEntries ≤ size
  pow : ∃ k ≤ 29, size = 4 * 2 ^ k

section Capacity

variable {nbEntries size : Nat}

theorem room_new : Room 0 4 := ⟨Nat.zero_le 4, 0, Nat.zero_le 29, rfl⟩

theorem Room.empty (h : Room nbEntries size) : Room 0 size := ⟨Nat.zero_le size, h.pow⟩

theorem Room.size_le (h : Room nbEntries size) : size ≤ 2 ^ 31 := by
  obtain ⟨-, k, hk, rfl⟩ := h
  have hbound : 2 ^ k ≤ 2 ^ 29 := Nat.pow_le_pow_right (by decide) hk
  omega

/-- Below `2 ^ 31` entries a full array is doubled. -/
theorem Room.writeSetEntry (h : Room nbEntries size) (hlt : nbEntries < 2 ^ 31) :
    TM2C.writeSetEntry nbEntries size = some (if nbEntries = size then 2 * size else size) ∧
    Room (nbEntries + 1) (if nbEntries = size then 2 * size else size) := by
  obtain ⟨hle, k, hk, hsize⟩ := h
  unfold TM2C.writeSetEntry
  by_cases hfull : nbEntries = size
  · have hk' : k < 29 := by
      refine Nat.lt_of_le_of_ne hk ?_
      rintro rfl
      omega
    have hdouble : 2 * size = 4 * 2 ^ (k + 1) := by
      rw [hsize, Nat.pow_succ]
      omega
    have hbound : 2 ^ (k + 1) ≤ 2 ^ 29 := Nat.pow_le_pow_right (by decide) hk'
    have hpos : 0 < 2 ^ (k + 1) := Nat.two_pow_pos (k + 1)
    have hmod : 2 * size % 2 ^ 32 = 2 * size := Nat.mod_eq_of_lt (by omega)
    have hnew : ¬ 2 * size = 0 := by omega
    rw [if_pos hfull, if_pos hfull, hmod]
    exact ⟨if_neg hnew, by omega, k + 1, hk', hdouble⟩
  · rw [if_neg hfull, if_neg hfull]
    exact ⟨rfl, by omega, k, hk, hsize⟩

/-- The capacity `2 ^ 31` cannot be doubled. -/
theorem Room.writeSetEntry_full (h : Room (2 ^ 31) size) :
    TM2C.writeSetEntry (2 ^ 31) size = none := by
  obtain rfl : size = 2 ^ 31 := Nat.le_antisymm h.size_le h.le
  rfl

/-- Where there is room, `2 ^ 31` entries are what an array can hold. -/
theorem Room.writeSetEntry_isSome_iff (h : Room nbEntries size) :
    (TM2C.writeSetEntry nbEntries size).isSome ↔ nbEntries < 2 ^ 31 := by
  constructor
  · intro hsome
    by_contra hge
    obtain rfl : nbEntries = 2 ^ 31 :=
      Nat.le_antisymm (h.le.trans h.size_le) (Nat.le_of_not_lt hge)
    rw [h.writeSetEntry_full] at hsome
    cases hsome
  · intro hlt
    rw [(h.writeSetEntry hlt).1]
    rfl

end Capacity

/-- The array of a write set, which every attempt takes over from the one before. -/
def WriteSet.HasRoom (writeSet : WriteSet) : Prop :=
  Room writeSet.writeEntries.length writeSet.size

theorem hasRoom_writeSetNew : writeSetNew.HasRoom := room_new

theorem WriteSet.HasRoom.empty {writeSet : WriteSet} (h : writeSet.HasRoom) :
    (writeSetEmpty writeSet).HasRoom := Room.empty h

/-- Where there is room an insertion appends, and there is room again. -/
theorem Room.writeSetPgasInsert {writeSet : WriteSetPgas}
    (h : Room writeSet.writeEntries.length writeSet.size)
    (hlt : writeSet.writeEntries.length < 2 ^ 31) (value : BitVec 64) (address : Nat) :
    TM2C.writeSetPgasInsert writeSet value address =
      some (writeSetPgasAppend writeSet value address) ∧
    Room (writeSetPgasAppend writeSet value address).writeEntries.length
      (writeSetPgasAppend writeSet value address).size := by
  obtain ⟨hsize, hroom⟩ := h.writeSetEntry hlt
  refine ⟨?_, ?_⟩
  · rw [TM2C.writeSetPgasInsert, hsize]
    rfl
  · rw [writeSetPgasAppend, List.length_append]
    exact hroom

/-! ### What an insertion does -/

section Insertion

variable {writeSet writeSet' : WriteSet} {datatype : Datatype} {value : BitVec 32}
  {address : Nat}

theorem writeEntries_of_writeSetInsert
    (h : writeSetInsert writeSet datatype value address = some writeSet') :
    writeSet'.writeEntries = writeSet.writeEntries ++ [⟨address, datatype, value⟩] := by
  obtain ⟨size, -, rfl⟩ := Option.map_eq_some_iff.mp h
  rfl

/-- An array that could grow has room for the new entry. -/
theorem WriteSet.HasRoom.insert (hroom : writeSet.HasRoom)
    (h : writeSetInsert writeSet datatype value address = some writeSet') :
    writeSet'.HasRoom := by
  obtain ⟨size, hsize, rfl⟩ := Option.map_eq_some_iff.mp h
  have hsome := Option.isSome_iff_exists.mpr ⟨size, hsize⟩
  have hlt := (Room.writeSetEntry_isSome_iff hroom).mp hsome
  obtain ⟨hsize', hroom'⟩ := Room.writeSetEntry hroom hlt
  obtain rfl := Option.some.inj (hsize.symm.trans hsize')
  unfold WriteSet.HasRoom
  rw [List.length_append]
  exact hroom'

/-- An insertion succeeds below `2 ^ 31` entries and only there. -/
theorem WriteSet.HasRoom.insert_iff (hroom : writeSet.HasRoom) (datatype : Datatype)
    (value : BitVec 32) (address : Nat) :
    (∃ writeSet', writeSetInsert writeSet datatype value address = some writeSet') ↔
      writeSet.writeEntries.length < 2 ^ 31 := by
  rw [← Option.isSome_iff_exists, writeSetInsert, Option.isSome_map]
  exact Room.writeSetEntry_isSome_iff hroom

/-- What holds of all entries and of the new one holds of all entries then. -/
theorem forall_writeSetInsert {P : WriteEntry → Prop}
    (h : writeSetInsert writeSet datatype value address = some writeSet')
    (hall : ∀ we ∈ writeSet.writeEntries, P we) (hnew : P ⟨address, datatype, value⟩) :
    ∀ we ∈ writeSet'.writeEntries, P we := by
  intro we hwe
  rw [writeEntries_of_writeSetInsert h] at hwe
  rcases List.mem_append.mp hwe with hold | hwe
  · exact hall we hold
  · exact List.mem_singleton.mp hwe ▸ hnew

end Insertion

/-! ### The write set as a log of bindings -/

/-- The bindings of the write set, oldest first. -/
def WriteSet.log (writeSet : WriteSet) : List (Nat × BitVec 32) :=
  writeSet.writeEntries.map fun we => (we.address, we.i)

@[simp] theorem log_writeSetNew : writeSetNew.log = [] := rfl

theorem log_of_writeSetInsert {writeSet writeSet' : WriteSet} {datatype : Datatype}
    {value : BitVec 32} {address : Nat}
    (h : writeSetInsert writeSet datatype value address = some writeSet') :
    writeSet'.log = writeSet.log ++ [(address, value)] := by
  unfold WriteSet.log
  rw [writeEntries_of_writeSetInsert h]
  exact List.map_append

/-- `write_set_contains` scans from the oldest entry. -/
theorem writeSetContains_eq_first (writeSet : WriteSet) (address : Nat) :
    (writeSetContains writeSet address).map WriteEntry.i =
      AppendLog.first writeSet.log address := by
  simp only [writeSetContains, WriteSet.log, AppendLog.first, List.find?_map, Option.map_map]
  rfl

/-- Four-byte entries are replayed as four-byte stores on every platform. -/
theorem writeSetPersist_eq_replay (platform : Platform) (mem : ByteMemory) (writeSet : WriteSet)
    (hint : ∀ we ∈ writeSet.writeEntries, we.type = .typeInt) :
    writeSetPersist platform mem writeSet =
      AppendLog.replay (ByteMemory.store 4) mem writeSet.log := by
  obtain ⟨entries, size⟩ := writeSet
  simp only [writeSetPersist, WriteSet.log, AppendLog.replay] at hint ⊢
  induction entries generalizing mem with
  | nil => rfl
  | cons we rest ih =>
    have hwe : we.type = .typeInt := hint we (by simp)
    have hhead : writeEntryPersist platform mem we = mem.store 4 we.address we.i := by
      cases platform <;> simp [writeEntryPersist, hwe]
    simp only [List.map_cons, List.foldl_cons, hhead]
    exact ih (mem.store 4 we.address we.i) fun x hx => hint x (by simp [hx])

end TM2C
