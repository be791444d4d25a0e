import TM2C.ReadYourWrites

/-!
# The width of a store

`TX_STORE` takes 4-byte and 8-byte locations (`DATATYPE`), but `write_set_insert` takes the
value as an `int32_t` and an entry has 32 bits for it.  On the Niagara
`write_entry_persist` extends them to the width of the location, elsewhere it
always writes four bytes; and the pointer that `tx_load` returns into an entry has
the address of the next entry behind these four bytes.

So an 8-byte value comes through only where its other half is there already.  For the
commit this is a condition on the value and on memory (`Fits`), since on locations that
do not overlap the entries of the write set can be persisted one by one; for a load it
is a condition on the entry behind (`FitsEntries`), at every point of the attempt.
`runStores_ok` brings both back to the list of the stores, of which a write set holds
`2 ^ 31`.
-/

namespace TM2C

/-- A `TX_STORE(address, value, TYPE_INT)` or a `TX_STORE(address, value, TYPE_INT64)`. -/
inductive TypedStore where
  | int (address : Nat) (value : BitVec 32)
  | int64 (address : Nat) (value : BitVec 64)
deriving DecidableEq, Repr

def TypedStore.address : TypedStore → Nat
  | .int address _ => address
  | .int64 address _ => address

def TypedStore.datatype : TypedStore → Datatype
  | .int _ _ => .typeInt
  | .int64 _ _ => .typeInt64

/-- The argument that `write_set_insert` gets, an `int32_t`. -/
def TypedStore.argument : TypedStore → BitVec 32
  | .int _ value => value
  | .int64 _ value => value.setWidth 32

/-- The bytes of a location. -/
def Datatype.width : Datatype → Nat
  | .typeInt => 4
  | .typeInt64 => 8

theorem Datatype.width_pos (datatype : Datatype) : 0 < datatype.width := by
  cases datatype <;> decide

def TypedStore.entry (store : TypedStore) : WriteEntry :=
  ⟨store.address, store.datatype, store.argument⟩

/-- The stores of an attempt. -/
def runStores (cfg : Config) (ws : WriteSet) :
    List (TypedStore × Surroundings) → Except Failure WriteSet
  | [] => .ok ws
  | (store, env) :: rest => do
    let ws' ← txStore cfg env ws store.address store.argument store.datatype
    runStores cfg ws' rest

/-! ### Reading eight bytes of the write set -/

/-- The four bytes behind the field `i` of an entry: the half of the next entry's `address`
that comes first in memory, or what the heap has behind the newest entry. -/
def wordBehind (platform : Platform) (heap : BitVec 32) : Option WriteEntry → BitVec 32
  | none => heap
  | some next =>
    match platform with
    | .generic => BitVec.ofNat 32 next.address
    | .niagara => BitVec.ofNat 32 (next.address / 2 ^ 32)

/-- Two words that follow each other in memory, read as one; the Niagara is big-endian. -/
def joinWords (platform : Platform) (first second : BitVec 32) : BitVec 64 :=
  match platform with
  | .generic => second ++ first
  | .niagara => first ++ second

/-- `*(int64_t*)` of the pointer that `tx_load` returns into the write set. -/
def readInt64 (platform : Platform) (heap : BitVec 32) (ws : WriteSet) (address : Nat) :
    Option (BitVec 64) :=
  match ws.writeEntries.dropWhile fun we => decide (we.address ≠ address) with
  | [] => none
  | we :: rest => some (joinWords platform we.i (wordBehind platform heap rest.head?))

/-! ### What the stores should leave -/

/-- The location has the value that was stored, in its width. -/
def TypedStore.Holds (mem : ByteMemory) : TypedStore → Prop
  | .int address value => mem.load 4 address = value
  | .int64 address value => mem.load 8 address = value

/-- Persisting leaves every stored value at its location and changes nothing else. -/
def PersistsWidths (platform : Platform) (mem : ByteMemory) (stores : List TypedStore)
    (ws : WriteSet) : Prop :=
  (∀ store ∈ stores, store.Holds (writeSetPersist platform mem ws)) ∧
  ∀ x, (∀ store ∈ stores, x < store.address ∨ store.address + store.datatype.width ≤ x) →
    writeSetPersist platform mem ws x = mem x

/-- At every point of the attempt the 8-byte values stored so far are read through the
pointers of `TX_LOAD`.  `heap n` is what the heap has behind `n` entries. -/
def LoadsWidths (cfg : Config) (platform : Platform) (heap : Nat → BitVec 32)
    (stores : List (TypedStore × Surroundings)) : Prop :=
  ∀ before after ws, stores = before ++ after → runStores cfg writeSetNew before = .ok ws →
    ∀ address value, .int64 address value ∈ before.map Prod.fst →
      readInt64 platform (heap before.length) ws address = some value

/-- The 8-byte value survives `write_entry_persist`: on the Niagara it is the sign
extension of its lower half, elsewhere memory has its upper half already. -/
def TypedStore.Fits (platform : Platform) (mem : ByteMemory) : TypedStore → Prop
  | .int _ _ => True
  | .int64 address value =>
    match platform with
    | .generic => mem.load 4 (address + 4) = value.extractLsb' 32 32
    | .niagara => (value.setWidth 32).signExtend 64 = value

/-- What follows the entry of an 8-byte value completes it, as long as the entry is the
newest one and when another one follows it. -/
def FitsEntries (platform : Platform) (heap : Nat → BitVec 32) (stores : List TypedStore) :
    Prop :=
  ∀ before address value after, stores = before ++ .int64 address value :: after →
    joinWords platform (value.setWidth 32) (heap (before.length + 1)) = value ∧
    ∀ next ∈ after.head?, joinWords platform (value.setWidth 32)
      (wordBehind platform 0 (some next.entry)) = value

/-! ### The write set of an attempt -/

theorem runStores_append {cfg : Config} {ws : WriteSet}
    {before after : List (TypedStore × Surroundings)} :
    runStores cfg ws (before ++ after) = runStores cfg ws before >>= fun ws' =>
      runStores cfg ws' after := by
  induction before generalizing ws with
  | nil => rfl
  | cons head rest ih =>
    obtain ⟨store, env⟩ := head
    simp only [List.cons_append, runStores, bind_assoc, ih]

/-- Every store of an attempt that gets to its end is an entry. -/
theorem runStores_ok {cfg : Config} {stores : List (TypedStore × Surroundings)}
    {ws ws' : WriteSet} (hrun : runStores cfg ws stores = .ok ws') (hroom : ws.HasRoom) :
    ws'.HasRoom ∧
    ws'.writeEntries = ws.writeEntries ++ (stores.map Prod.fst).map TypedStore.entry := by
  induction stores generalizing ws with
  | nil =>
    obtain rfl := Except.ok.inj hrun
    exact ⟨hroom, by simp⟩
  | cons head rest ih =>
    obtain ⟨store, env⟩ := head
    obtain ⟨ws₁, hstore, hrest⟩ := bind_eq_ok.mp hrun
    have hinsert := txStore_ok hstore
    obtain ⟨hroom', hentries⟩ := ih hrest (hroom.insert hinsert)
    refine ⟨hroom', ?_⟩
    rw [hentries, writeEntries_of_writeSetInsert hinsert]
    simp [TypedStore.entry]

theorem runStores_survives {cfg : Config} {stores : List (TypedStore × Surroundings)}
    {ws : WriteSet} (hroom : ws.HasRoom)
    (hle : ws.writeEntries.length + stores.length ≤ 2 ^ 31) :
    runStores cfg ws stores ≠ .error .died := by
  induction stores generalizing ws with
  | nil => exact fun h => by cases h
  | cons head rest ih =>
    obtain ⟨store, env⟩ := head
    rw [List.length_cons] at hle
    intro h
    rcases bind_eq_error.mp h with hstore | ⟨ws₁, hstore, hrest⟩
    · exact txStore_survives hroom (by omega) hstore
    · have hinsert := txStore_ok hstore
      refine ih (hroom.insert hinsert) ?_ hrest
      rw [writeEntries_of_writeSetInsert hinsert, List.length_append, List.length_singleton]
      omega

/-! ### Persisting -/

section Persist

variable {platform : Platform} {mem mem' : ByteMemory} {x : Nat} {we : WriteEntry}

/-- An entry is written into its location. -/
theorem writeEntryPersist_outside (h : x < we.address ∨ we.address + we.type.width ≤ x) :
    writeEntryPersist platform mem we x = mem x := by
  cases platform <;> cases htype : we.type <;> rw [htype, Datatype.width] at h <;>
    simp only [writeEntryPersist, htype] <;> apply ByteMemory.store_outside <;> omega

/-- What it leaves there depends on what was there. -/
theorem writeEntryPersist_congr (h : mem x = mem' x) :
    writeEntryPersist platform mem we x = writeEntryPersist platform mem' we x := by
  cases platform <;> cases htype : we.type <;> simp only [writeEntryPersist, htype] <;>
    unfold ByteMemory.store <;> rw [h]

theorem persist_outside {entries : List WriteEntry}
    (h : ∀ we ∈ entries, x < we.address ∨ we.address + we.type.width ≤ x) :
    entries.foldl (writeEntryPersist platform) mem x = mem x := by
  induction entries generalizing mem with
  | nil => rfl
  | cons we rest ih =>
    obtain ⟨hwe, hrest⟩ := List.forall_mem_cons.mp h
    exact (ih hrest).trans (writeEntryPersist_outside hwe)

/-- The location of an entry depends on this entry only. -/
theorem persist_inside {entries : List WriteEntry}
    (hapart : entries.Pairwise fun a b =>
      ByteMemory.Apart a.address a.type.width b.address b.type.width)
    (hwe : we ∈ entries) (hx : we.address ≤ x ∧ x < we.address + we.type.width) :
    entries.foldl (writeEntryPersist platform) mem x = writeEntryPersist platform mem we x := by
  induction entries generalizing mem with
  | nil => cases hwe
  | cons first rest ih =>
    obtain ⟨hfirst, hrest⟩ := List.pairwise_cons.mp hapart
    rw [List.foldl_cons]
    rcases List.mem_cons.mp hwe with rfl | hmem
    · apply persist_outside
      intro other hother
      have hother := hfirst other hother
      unfold ByteMemory.Apart at hother
      omega
    · rw [ih hrest hmem]
      apply writeEntryPersist_congr
      apply writeEntryPersist_outside
      have hother := hfirst we hmem
      unfold ByteMemory.Apart at hother
      omega

theorem load_persist (platform : Platform) (mem : ByteMemory) (n : Nat) {we : WriteEntry}
    {entries : List WriteEntry}
    (hapart : entries.Pairwise fun a b =>
      ByteMemory.Apart a.address a.type.width b.address b.type.width)
    (hwe : we ∈ entries) (hn : n = we.type.width) :
    (entries.foldl (writeEntryPersist platform) mem).load n we.address =
      (writeEntryPersist platform mem we).load n we.address := by
  unfold ByteMemory.load
  congr 1
  apply ByteMemory.loadNat_congr
  intro k hk
  exact persist_inside hapart hwe (by omega)

theorem toNat_extract_upper (value : BitVec 64) :
    (value.extractLsb' 32 32).toNat = value.toNat / 2 ^ 32 := by
  have hlt := value.isLt
  rw [BitVec.extractLsb'_toNat, Nat.shiftRight_eq_div_pow]
  exact Nat.mod_eq_of_lt (by omega)

/-- Four bytes of an 8-byte value are the value if the other four are in memory. -/
theorem load_eight_of_four (address : Nat) (value : BitVec 64) :
    (mem.store 4 address (value.setWidth 32)).load 8 address = value ↔
      mem.load 4 (address + 4) = value.extractLsb' 32 32 := by
  have hlow : (mem.store 4 address (value.setWidth 32)).loadNat address 4 =
      value.toNat % 2 ^ 32 := by
    rw [← ByteMemory.toNat_load, ByteMemory.load_store_same, BitVec.toNat_setWidth]
  have hhigh : (mem.store 4 address (value.setWidth 32)).loadNat (address + 4) 4 =
      mem.loadNat (address + 4) 4 := by
    rw [← ByteMemory.toNat_load, ← ByteMemory.toNat_load]
    exact congrArg BitVec.toNat (ByteMemory.load_store_apart _ _ (Or.inl (by omega)))
  rw [← BitVec.toNat_inj, ByteMemory.toNat_load, ByteMemory.loadNat_add _ _ 4 4, hlow, hhigh,
    ← BitVec.toNat_inj, ByteMemory.toNat_load, toNat_extract_upper]
  omega

/-- A location has its value after the commit exactly if the value fits. -/
theorem holds_persist_iff (store : TypedStore) :
    store.Holds (writeEntryPersist platform mem store.entry) ↔ store.Fits platform mem := by
  cases store with
  | int address value =>
    have hwritten : writeEntryPersist platform mem (TypedStore.int address value).entry =
        mem.store 4 address value := by
      cases platform <;> rfl
    rw [hwritten]
    exact iff_of_true (ByteMemory.load_store_same 4 mem address value) trivial
  | int64 address value =>
    cases platform with
    | generic => exact load_eight_of_four address value
    | niagara =>
      have hread := ByteMemory.load_store_same 8 mem address ((value.setWidth 32).signExtend 64)
      exact Eq.congr_left hread

theorem persistsWidths_iff {stores : List TypedStore} {ws : WriteSet}
    (hapart : stores.Pairwise fun a b =>
      ByteMemory.Apart a.address a.datatype.width b.address b.datatype.width)
    (hentries : ws.writeEntries = stores.map TypedStore.entry) :
    PersistsWidths platform mem stores ws ↔ ∀ store ∈ stores, store.Fits platform mem := by
  have hpairs : (stores.map TypedStore.entry).Pairwise fun a b =>
      ByteMemory.Apart a.address a.type.width b.address b.type.width :=
    List.pairwise_map.mpr hapart
  have hholds : ∀ store ∈ stores, store.Holds (writeSetPersist platform mem ws) ↔
      store.Fits platform mem := by
    intro store hstore
    rw [← holds_persist_iff, writeSetPersist, hentries]
    have hmem := List.mem_map_of_mem (f := TypedStore.entry) hstore
    cases store with
    | int address value =>
      have hload := load_persist platform mem 4 hpairs hmem rfl
      exact ⟨fun h => hload.symm.trans h, fun h => hload.trans h⟩
    | int64 address value =>
      have hload := load_persist platform mem 8 hpairs hmem rfl
      exact ⟨fun h => hload.symm.trans h, fun h => hload.trans h⟩
  constructor
  · rintro ⟨hall, -⟩ store hstore
    exact (hholds store hstore).mp (hall store hstore)
  · intro hfits
    refine ⟨fun store hstore => (hholds store hstore).mpr (hfits store hstore), ?_⟩
    intro x hx
    rw [writeSetPersist, hentries]
    apply persist_outside
    intro we hwe
    obtain ⟨store, hstore, rfl⟩ := List.mem_map.mp hwe
    exact hx store hstore

end Persist

/-! ### Reading through the pointers -/

section Load

variable {platform : Platform} {heap : Nat → BitVec 32} {cfg : Config}

/-- The eight bytes at the field `i` of a stored value. -/
theorem readInt64_stored {before after : List TypedStore} {store : TypedStore} {ws : WriteSet}
    (w : BitVec 32)
    (hapart : (before ++ store :: after).Pairwise fun a b =>
      ByteMemory.Apart a.address a.datatype.width b.address b.datatype.width)
    (hentries : ws.writeEntries = (before ++ store :: after).map TypedStore.entry) :
    readInt64 platform w ws store.address = some (joinWords platform store.argument
      (wordBehind platform w (after.head?.map TypedStore.entry))) := by
  have hother : ∀ we ∈ before.map TypedStore.entry, decide (we.address ≠ store.address) = true := by
    intro we hwe
    obtain ⟨other, hmem, rfl⟩ := List.mem_map.mp hwe
    have hne := (List.pairwise_append.mp hapart).2.2 other hmem store (by simp)
    have hwidth := other.datatype.width_pos
    have hwidth' := store.datatype.width_pos
    unfold ByteMemory.Apart at hne
    have haddress : other.entry.address = other.address := rfl
    rw [decide_eq_true_eq, haddress]
    omega
  have hfound : decide (store.entry.address ≠ store.address) = false := by
    simp [TypedStore.entry]
  unfold readInt64
  rw [hentries, List.map_append, List.map_cons, List.dropWhile_append_of_pos hother,
    List.dropWhile_cons, hfound]
  simp [TypedStore.entry]

/-- An 8-byte value that was stored is read with the entry behind it. -/
theorem readInt64_of_stores (platform : Platform) (heap : Nat → BitVec 32)
    {before : List (TypedStore × Surroundings)} {ws : WriteSet} {front rest : List TypedStore}
    {address : Nat} {value : BitVec 64}
    (hbefore : before.map Prod.fst = front ++ .int64 address value :: rest)
    (hapart : (before.map Prod.fst).Pairwise fun a b =>
      ByteMemory.Apart a.address a.datatype.width b.address b.datatype.width)
    (hrun : runStores cfg writeSetNew before = .ok ws) :
    readInt64 platform (heap before.length) ws address =
      some (joinWords platform (value.setWidth 32) (wordBehind platform
        (heap (front.length + (rest.length + 1))) (rest.head?.map TypedStore.entry))) := by
  have hentries := (runStores_ok hrun hasRoom_writeSetNew).2
  have hlength : before.length = front.length + (rest.length + 1) := by
    have hlength := congrArg List.length hbefore
    simpa using hlength
  rw [hbefore] at hapart hentries
  rw [← hlength]
  exact readInt64_stored (heap before.length) hapart hentries

/-- The loads see, for every 8-byte value among the stores so far, the entry behind it. -/
theorem loadsWidths_iff_joined {accesses : List (TypedStore × Surroundings)} {ws : WriteSet}
    (hapart : (accesses.map Prod.fst).Pairwise fun a b =>
      ByteMemory.Apart a.address a.datatype.width b.address b.datatype.width)
    (hrun : runStores cfg writeSetNew accesses = .ok ws) :
    LoadsWidths cfg platform heap accesses ↔ ∀ front address value rest back,
      accesses.map Prod.fst = (front ++ .int64 address value :: rest) ++ back →
        joinWords platform (value.setWidth 32) (wordBehind platform
          (heap (front.length + (rest.length + 1))) (rest.head?.map TypedStore.entry)) =
            value := by
  constructor
  · intro hloads front address value rest back hsplit
    obtain ⟨before, after, rfl, hbefore, -⟩ := List.map_eq_append_iff.mp hsplit
    rw [List.map_append] at hapart
    rw [runStores_append] at hrun
    obtain ⟨ws₁, hrun₁, -⟩ := bind_eq_ok.mp hrun
    have hread := hloads before after ws₁ rfl hrun₁ address value (by simp [hbefore])
    have hstored := readInt64_of_stores platform heap hbefore
      (List.pairwise_append.mp hapart).1 hrun₁
    exact Option.some.inj (hstored.symm.trans hread)
  · intro hjoined before after ws₁ hsplit hrun₁ address value hmem
    obtain ⟨front, rest, hbefore⟩ := List.append_of_mem hmem
    have hall := hjoined front address value rest (after.map Prod.fst)
      (by rw [hsplit, List.map_append, hbefore])
    rw [hsplit, List.map_append] at hapart
    have hstored := readInt64_of_stores platform heap hbefore
      (List.pairwise_append.mp hapart).1 hrun₁
    exact hstored.trans (congrArg some hall)

theorem loadsWidths_iff {accesses : List (TypedStore × Surroundings)} {ws : WriteSet}
    (hapart : (accesses.map Prod.fst).Pairwise fun a b =>
      ByteMemory.Apart a.address a.datatype.width b.address b.datatype.width)
    (hrun : runStores cfg writeSetNew accesses = .ok ws) :
    LoadsWidths cfg platform heap accesses ↔
      FitsEntries platform heap (accesses.map Prod.fst) := by
  rw [loadsWidths_iff_joined hapart hrun]
  constructor
  · intro hjoined before address value after hsplit
    refine ⟨hjoined before address value [] after (by simpa using hsplit), ?_⟩
    intro next hnext
    obtain ⟨back, rfl⟩ : ∃ back, after = next :: back := by
      cases after with
      | nil => cases hnext
      | cons first back =>
        obtain rfl := Option.some.inj hnext
        exact ⟨back, rfl⟩
    exact hjoined before address value [next] back (by simpa using hsplit)
  · intro hfits front address value rest back hsplit
    obtain ⟨hnewest, hnext⟩ := hfits front address value (rest ++ back) (by simpa using hsplit)
    cases rest with
    | nil => exact hnewest
    | cons next rest => exact hnext next rfl

end Load

/-- For an attempt that gets to its end. -/
theorem keepWidth_of_ok {cfg : Config} {platform : Platform} {mem : ByteMemory}
    {heap : Nat → BitVec 32} {accesses : List (TypedStore × Surroundings)} {ws : WriteSet}
    (hapart : (accesses.map Prod.fst).Pairwise fun a b =>
      ByteMemory.Apart a.address a.datatype.width b.address b.datatype.width)
    (hrun : runStores cfg writeSetNew accesses = .ok ws) :
    (PersistsWidths platform mem (accesses.map Prod.fst) ws ∧
      LoadsWidths cfg platform heap accesses) ↔
    (∀ access ∈ accesses, access.1.Fits platform mem) ∧
      FitsEntries platform heap (accesses.map Prod.fst) := by
  have hentries := (runStores_ok hrun hasRoom_writeSetNew).2
  rw [persistsWidths_iff hapart hentries, loadsWidths_iff hapart hrun]
  exact and_congr_left fun _ => List.forall_mem_map

/-- **Stores keep their width exactly where the other half of every 8-byte value is
there by chance**, in memory or in its sign on commit and behind its entry for a load,
and where all of them have room in the write set.  For an attempt that is not aborted,
on locations that do not overlap. -/
theorem typedStores_keep_width_iff (cfg : Config) (platform : Platform) (mem : ByteMemory)
    (heap : Nat → BitVec 32) (accesses : List (TypedStore × Surroundings))
    (hapart : (accesses.map Prod.fst).Pairwise fun a b =>
      ByteMemory.Apart a.address a.datatype.width b.address b.datatype.width)
    (hlive : NotAborted (runStores cfg writeSetNew accesses)) :
    (∃ ws, runStores cfg writeSetNew accesses = .ok ws ∧
      PersistsWidths platform mem (accesses.map Prod.fst) ws ∧
      LoadsWidths cfg platform heap accesses) ↔
    accesses.length ≤ 2 ^ 31 ∧ (∀ access ∈ accesses, access.1.Fits platform mem) ∧
      FitsEntries platform heap (accesses.map Prod.fst) := by
  constructor
  · rintro ⟨ws, hrun, hkeeps⟩
    obtain ⟨hroom, hentries⟩ := runStores_ok hrun hasRoom_writeSetNew
    have hle : ws.writeEntries.length ≤ 2 ^ 31 := (Room.le hroom).trans (Room.size_le hroom)
    rw [hentries] at hle
    exact ⟨by simpa [writeSetNew] using hle, (keepWidth_of_ok hapart hrun).mp hkeeps⟩
  · rintro ⟨hle, hfits⟩
    have hsurvives : runStores cfg writeSetNew accesses ≠ .error .died :=
      runStores_survives hasRoom_writeSetNew (by simpa [writeSetNew] using hle)
    obtain ⟨ws, hrun⟩ := hlive.exists_ok hsurvives
    exact ⟨ws, hrun, (keepWidth_of_ok hapart hrun).mpr hfits⟩

theorem typedStores_keep_width_small :
    (∃ ws, runStores wholly4 writeSetNew
        [(.int64 64 5, undisturbed), (.int 72 7, undisturbed)] = .ok ws ∧
      PersistsWidths .niagara (fun _ => 0) [.int64 64 5, .int 72 7] ws ∧
      LoadsWidths wholly4 .niagara (fun _ => 0)
        [(.int64 64 5, undisturbed), (.int 72 7, undisturbed)]) ↔
    [(TypedStore.int64 64 5, undisturbed), (.int 72 7, undisturbed)].length ≤ 2 ^ 31 ∧
      (∀ access ∈ [(TypedStore.int64 64 5, undisturbed), (.int 72 7, undisturbed)],
        access.1.Fits .niagara fun _ => 0) ∧
      FitsEntries .niagara (fun _ => 0) [.int64 64 5, .int 72 7] :=
  typedStores_keep_width_iff wholly4 .niagara (fun _ => 0) (fun _ => 0)
    [(.int64 64 5, undisturbed), (.int 72 7, undisturbed)] (by decide) (by
    intro reason h
    cases h)

/-- A pointer above the 4 GiB boundary, into memory that is all zero: the commit
leaves its lower half on both platforms. -/
theorem int64_store_truncated :
    runStores wholly4 writeSetNew [(.int64 64 0x7f0000000040, undisturbed)] =
      .ok ⟨[⟨64, .typeInt64, 0x40⟩], 4⟩ ∧
    ¬ PersistsWidths .generic (fun _ => 0) [.int64 64 0x7f0000000040]
      ⟨[⟨64, .typeInt64, 0x40⟩], 4⟩ ∧
    ¬ PersistsWidths .niagara (fun _ => 0) [.int64 64 0x7f0000000040]
      ⟨[⟨64, .typeInt64, 0x40⟩], 4⟩ := by
  refine ⟨rfl, ?_, ?_⟩
  · rintro ⟨hholds, -⟩
    have hread := hholds _ (List.mem_singleton_self _)
    rw [TypedStore.Holds] at hread
    exact absurd hread (by decide)
  · rintro ⟨hholds, -⟩
    have hread := hholds _ (List.mem_singleton_self _)
    rw [TypedStore.Holds] at hread
    exact absurd hread (by decide)

end TM2C
