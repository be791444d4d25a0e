import TM2C.WriteSet

/-!
# Loads and stores of one transaction attempt

`TX_STORE` and `tx_load` of `include/tm2c.h` (the branch without `PGAS`) for one
attempt of one node.  What an operation meets outside of its node, the abort
flag, the reply of the service node and the shared memory, is an argument, so
that a run of an attempt ranges over everything the other nodes may do.

`write_set_contains` returns the oldest entry of an address while
`write_set_persist` leaves its newest one, so a load after two stores to one
address sees the first of them.

The array of the write set holds `2 ^ 31` entries, and the process dies when an
attempt stores once more.  So an attempt has two ways to fail, by an abort and by
its death, and the condition under which own writes are read back bounds the
stores beside saying which of them may meet.  The proof follows the attempt once:
the write set of a run that gets to its end is the log of its stores
(`runAccesses_ok`), a run with few enough stores does not die
(`runAccesses_survives`), and reading a log from either end is a matter of
`TM2C.Lib.AppendLog`.
-/

namespace TM2C

/-- What one access meets outside of the application node. -/
structure Surroundings where
  wlockFlag : Conflict
  abortFlag : Conflict
  reply : Conflict
  mem : ByteMemory

/-- Why an attempt does not get to its end: it is aborted, or an array cannot grow and
its process writes through a null pointer. -/
inductive Failure where
  | aborted (reason : Conflict)
  | died
deriving DecidableEq, Repr

/-- `TXCHKABORTED()`: without a real contention manager it is empty. -/
def txChkAborted (cfg : Config) (flag : Conflict) : Except Failure Unit :=
  if cfg.cm.isReal ∧ flag ≠ .noConflict then .error (.aborted flag) else .ok ()

/-- A `LOAD` or `STORE` request whose refusal aborts the attempt. -/
def rpcRequest (reply : Conflict) : Except Failure Unit :=
  if reply ≠ .noConflict then .error (.aborted reply) else .ok ()

def orDie {α : Type} : Option α → Except Failure α
  | some a => .ok a
  | none => .error .died

/-- `tx_wlock` -/
def txWlock (cfg : Config) (env : Surroundings) : Except Failure Unit := do
  txChkAborted cfg env.wlockFlag
  rpcRequest env.reply

/-- The pointer that `tx_load` returns: into the write set or into shared memory. -/
inductive LoadedAddr where
  | entry (we : WriteEntry)
  | shared (address : Nat)

/-- `*(int*)` of the returned pointer. -/
def LoadedAddr.readInt (mem : ByteMemory) : LoadedAddr → BitVec 32
  | .entry we => we.i
  | .shared address => mem.load 4 address

def txLoad (cfg : Config) (env : Surroundings) (ws : WriteSet) (address : Nat) :
    Except Failure LoadedAddr :=
  match writeSetContains ws address with
  | some we => .ok (.entry we)
  | none => do
    txChkAborted cfg env.abortFlag
    rpcRequest env.reply
    return .shared address

def txStore (cfg : Config) (env : Surroundings) (ws : WriteSet) (address : Nat)
    (value : BitVec 32) (datatype : Datatype) : Except Failure WriteSet := do
  if cfg.eagerWriteAcq then txWlock cfg env
  txChkAborted cfg env.abortFlag
  orDie (writeSetInsert ws datatype value address)

/-- A `TX_STORE(address, value, TYPE_INT)` or a `*(int*) TX_LOAD(address)`. -/
inductive TxAccess where
  | store (address : Nat) (value : BitVec 32)
  | load (address : Nat)
deriving DecidableEq, Repr

def TxAccess.address : TxAccess → Nat
  | .store address _ => address
  | .load address => address

/-- Run the accesses of an attempt; the result lists the values its loads read. -/
def runAccesses (cfg : Config) (ws : WriteSet) :
    List (TxAccess × Surroundings) → Except Failure (WriteSet × List (BitVec 32))
  | [] => .ok (ws, [])
  | (.store address value, env) :: rest => do
    let ws' ← txStore cfg env ws address value .typeInt
    runAccesses cfg ws' rest
  | (.load address, env) :: rest => do
    let loaded ← txLoad cfg env ws address
    let (ws', values) ← runAccesses cfg ws rest
    return (ws', loaded.readInt env.mem :: values)

def NotAborted {α : Type} (run : Except Failure α) : Prop :=
  ∀ reason, run ≠ .error (.aborted reason)

/-! ### What the accesses should read -/

/-- The stores among the accesses, oldest first. -/
def storesOf (accesses : List (TxAccess × Surroundings)) : List (Nat × BitVec 32) :=
  accesses.filterMap fun access =>
    match access.1 with
    | .store address value => some (address, value)
    | .load _ => none

/-- The value of the latest store before each load, or the shared value. -/
def expectedLoads (stores : List (Nat × BitVec 32)) :
    List (TxAccess × Surroundings) → List (BitVec 32)
  | [] => []
  | (.store address value, _) :: rest => expectedLoads (stores ++ [(address, value)]) rest
  | (.load address, env) :: rest =>
    (AppendLog.last stores address).getD (env.mem.load 4 address) ::
      expectedLoads stores rest

/-- Every load read the latest store of the attempt, and the write set persists
at every written address what a load at the end of the attempt returns. -/
def ReadsOwnWrites (platform : Platform) (mem : ByteMemory)
    (accesses : List (TxAccess × Surroundings)) (ws : WriteSet) (values : List (BitVec 32)) :
    Prop :=
  values = expectedLoads [] accesses ∧
  ∀ address we, writeSetContains ws address = some we →
    (writeSetPersist platform mem ws).load 4 address = we.i

/-- Wherever the attempt looks at an address it wrote, at a load and at the end,
the first and the latest store to the address so far carry the same value. -/
def FirstStoreIsLatest (accesses : List (TxAccess × Surroundings)) : Prop :=
  (∀ before address env after, accesses = before ++ (.load address, env) :: after →
    AppendLog.first (storesOf before) address = AppendLog.last (storesOf before) address) ∧
  ∀ address, AppendLog.first (storesOf accesses) address =
    AppendLog.last (storesOf accesses) address

@[simp] theorem storesOf_nil : storesOf [] = [] := rfl

@[simp] theorem storesOf_store (address : Nat) (value : BitVec 32) (env : Surroundings)
    (rest : List (TxAccess × Surroundings)) :
    storesOf ((.store address value, env) :: rest) = (address, value) :: storesOf rest := rfl

@[simp] theorem storesOf_load (address : Nat) (env : Surroundings)
    (rest : List (TxAccess × Surroundings)) :
    storesOf ((.load address, env) :: rest) = storesOf rest := rfl

theorem mem_storesOf {accesses : List (TxAccess × Surroundings)} {e : Nat × BitVec 32}
    (he : e ∈ storesOf accesses) : ∃ access ∈ accesses, access.1.address = e.1 := by
  simp only [storesOf, List.mem_filterMap] at he
  obtain ⟨⟨access, env⟩, hmem, hstore⟩ := he
  refine ⟨(access, env), hmem, ?_⟩
  cases access with
  | store address value =>
    simp only [Option.some.injEq] at hstore
    rw [← hstore]
    rfl
  | load address => simp at hstore

/-! ### The runs that do not fail -/

theorem bind_eq_ok {ε α β : Type} {x : Except ε α} {f : α → Except ε β} {r : β} :
    x >>= f = .ok r ↔ ∃ a, x = .ok a ∧ f a = .ok r := by
  cases x with
  | error e => simp [bind, Except.bind]
  | ok a => simp [bind, Except.bind]

theorem bind_eq_error {ε α β : Type} {x : Except ε α} {f : α → Except ε β} {e : ε} :
    x >>= f = .error e ↔ x = .error e ∨ ∃ a, x = .ok a ∧ f a = .error e := by
  cases x with
  | error e => simp [bind, Except.bind]
  | ok a => simp [bind, Except.bind]

/-- What is neither aborted nor dies gets to its end. -/
theorem NotAborted.exists_ok {α : Type} {run : Except Failure α} (h : NotAborted run)
    (hsurvives : run ≠ .error .died) : ∃ a, run = .ok a := by
  cases run with
  | ok a => exact ⟨a, rfl⟩
  | error failure =>
    cases failure with
    | aborted reason => exact absurd rfl (h reason)
    | died => exact absurd rfl hsurvives

theorem orDie_eq_ok {α : Type} {o : Option α} {a : α} : orDie o = .ok a ↔ o = some a := by
  cases o with
  | none => constructor <;> exact fun h => by cases h
  | some b => rw [Option.some.injEq, orDie, Except.ok.injEq]

theorem txChkAborted_survives (cfg : Config) (flag : Conflict) :
    txChkAborted cfg flag ≠ .error .died := by
  unfold txChkAborted
  split <;> exact fun h => by cases h

theorem rpcRequest_survives (reply : Conflict) : rpcRequest reply ≠ .error .died := by
  unfold rpcRequest
  split <;> exact fun h => by cases h

theorem txWlock_survives (cfg : Config) (env : Surroundings) :
    txWlock cfg env ≠ .error .died := by
  intro h
  rcases bind_eq_error.mp h with hflag | ⟨_, _, hreply⟩
  · exact txChkAborted_survives cfg _ hflag
  · exact rpcRequest_survives _ hreply

theorem txLoad_survives (cfg : Config) (env : Surroundings) (ws : WriteSet) (address : Nat) :
    txLoad cfg env ws address ≠ .error .died := by
  intro h
  unfold txLoad at h
  cases hws : writeSetContains ws address with
  | some we =>
    rw [hws] at h
    cases h
  | none =>
    rw [hws] at h
    rcases bind_eq_error.mp h with hflag | ⟨_, _, h⟩
    · exact txChkAborted_survives cfg _ hflag
    · rcases bind_eq_error.mp h with hreply | ⟨_, _, h⟩
      · exact rpcRequest_survives _ hreply
      · cases h

section Insertions

variable {cfg : Config} {env : Surroundings} {ws ws' : WriteSet} {address : Nat}
  {value : BitVec 32} {datatype : Datatype}

theorem txStore_ok (h : txStore cfg env ws address value datatype = .ok ws') :
    writeSetInsert ws datatype value address = some ws' := by
  unfold txStore at h
  split at h
  · obtain ⟨_, _, h⟩ := bind_eq_ok.mp h
    obtain ⟨_, _, h⟩ := bind_eq_ok.mp h
    exact orDie_eq_ok.mp h
  · obtain ⟨_, _, h⟩ := bind_eq_ok.mp h
    exact orDie_eq_ok.mp h

/-- With room for its entry a store does not die. -/
theorem orDie_writeSetInsert_survives (hroom : ws.HasRoom)
    (hlt : ws.writeEntries.length < 2 ^ 31) :
    orDie (writeSetInsert ws datatype value address) ≠ .error .died := by
  obtain ⟨ws', hws'⟩ := (hroom.insert_iff datatype value address).mpr hlt
  rw [hws']
  exact fun h => by cases h

theorem txStore_survives (hroom : ws.HasRoom) (hlt : ws.writeEntries.length < 2 ^ 31) :
    txStore cfg env ws address value datatype ≠ .error .died := by
  intro h
  have hrest : (txChkAborted cfg env.abortFlag >>= fun _ =>
      orDie (writeSetInsert ws datatype value address)) ≠ .error .died := by
    intro h
    rcases bind_eq_error.mp h with hflag | ⟨_, _, hinsert⟩
    · exact txChkAborted_survives cfg _ hflag
    · exact orDie_writeSetInsert_survives hroom hlt hinsert
  unfold txStore at h
  split at h
  · rcases bind_eq_error.mp h with hlock | ⟨_, _, h⟩
    · exact txWlock_survives cfg env hlock
    · exact hrest h
  · exact hrest h

end Insertions

/-- A load that does not abort reads the oldest entry of its address. -/
theorem txLoad_ok {cfg : Config} {env : Surroundings} {ws : WriteSet} {address : Nat}
    {loaded : LoadedAddr} (h : txLoad cfg env ws address = .ok loaded) :
    loaded.readInt env.mem =
      (AppendLog.first ws.log address).getD (env.mem.load 4 address) := by
  rw [← writeSetContains_eq_first]
  unfold txLoad at h
  cases hws : writeSetContains ws address with
  | some we =>
    rw [hws] at h
    have hloaded : LoadedAddr.entry we = loaded := Except.ok.inj h
    rw [← hloaded]
    rfl
  | none =>
    rw [hws] at h
    obtain ⟨_, _, h⟩ := bind_eq_ok.mp h
    obtain ⟨_, _, h⟩ := bind_eq_ok.mp h
    have hloaded : LoadedAddr.shared address = loaded := Except.ok.inj h
    rw [← hloaded]
    rfl

/-- A load of the accesses is the first access or a load of the others. -/
theorem forall_load_cons {head : TxAccess × Surroundings}
    {rest : List (TxAccess × Surroundings)}
    {P : List (TxAccess × Surroundings) → Nat → Surroundings → Prop} :
    (∀ before address env after, head :: rest = before ++ (.load address, env) :: after →
      P before address env) ↔
    (∀ address env, head = (.load address, env) → P [] address env) ∧
    ∀ before address env after, rest = before ++ (.load address, env) :: after →
      P (head :: before) address env := by
  constructor
  · intro h
    constructor
    · intro address env hhead
      exact h [] address env rest (by rw [hhead]; rfl)
    · intro before address env after hrest
      exact h (head :: before) address env after (by rw [hrest]; rfl)
  · rintro ⟨hhead, hrest⟩ before address env after hsplit
    cases before with
    | nil => exact hhead address env (List.cons.inj hsplit).1
    | cons b before =>
      obtain ⟨rfl, hsuffix⟩ := List.cons.inj hsplit
      exact hrest before address env after hsuffix

/-- An attempt with few enough stores does not die. -/
theorem runAccesses_survives {cfg : Config} {accesses : List (TxAccess × Surroundings)}
    {ws : WriteSet} (hroom : ws.HasRoom)
    (hle : ws.writeEntries.length + (storesOf accesses).length ≤ 2 ^ 31) :
    runAccesses cfg ws accesses ≠ .error .died := by
  induction accesses generalizing ws with
  | nil => exact fun h => by cases h
  | cons head rest ih =>
    obtain ⟨access, env⟩ := head
    intro h
    cases access with
    | store address value =>
      rw [storesOf_store, List.length_cons] at hle
      rcases bind_eq_error.mp h with hstore | ⟨ws₁, hstore, hrest⟩
      · exact txStore_survives hroom (by omega) hstore
      · have hinsert := txStore_ok hstore
        refine ih (hroom.insert hinsert) ?_ hrest
        rw [writeEntries_of_writeSetInsert hinsert, List.length_append, List.length_singleton]
        omega
    | load address =>
      rw [storesOf_load] at hle
      rcases bind_eq_error.mp h with hload | ⟨_, _, h⟩
      · exact txLoad_survives cfg env ws address hload
      · rcases bind_eq_error.mp h with hrest | ⟨_, _, h⟩
        · exact ih hroom hle hrest
        · cases h

/-- An attempt that gets to its end appends its stores to the write set, oldest
first, and reads the oldest one at each load. -/
theorem runAccesses_ok {cfg : Config} {accesses : List (TxAccess × Surroundings)}
    {ws ws' : WriteSet} {values : List (BitVec 32)}
    (hrun : runAccesses cfg ws accesses = .ok (ws', values)) (hroom : ws.HasRoom)
    (hint : ∀ we ∈ ws.writeEntries, we.type = .typeInt) :
    ws'.HasRoom ∧ ws'.log = ws.log ++ storesOf accesses ∧
    (∀ we ∈ ws'.writeEntries, we.type = .typeInt) ∧
    (values = expectedLoads ws.log accesses ↔
      ∀ before address env after, accesses = before ++ (.load address, env) :: after →
        (AppendLog.first (ws.log ++ storesOf before) address).getD (env.mem.load 4 address) =
          (AppendLog.last (ws.log ++ storesOf before) address).getD
            (env.mem.load 4 address)) := by
  induction accesses generalizing ws values with
  | nil =>
    simp only [runAccesses, Except.ok.injEq, Prod.mk.injEq] at hrun
    obtain ⟨rfl, rfl⟩ := hrun
    refine ⟨hroom, by simp, hint, ?_⟩
    constructor
    · intro _ before address env after hsplit
      exact absurd hsplit (by simp)
    · intro _
      rfl
  | cons head rest ih =>
    obtain ⟨access, env⟩ := head
    cases access with
    | store address value =>
      simp only [runAccesses] at hrun
      obtain ⟨ws₁, hstore, hrun⟩ := bind_eq_ok.mp hrun
      have hinsert := txStore_ok hstore
      have hint₁ : ∀ we ∈ ws₁.writeEntries, we.type = .typeInt :=
        forall_writeSetInsert hinsert hint rfl
      obtain ⟨hroom', hlog, htypes, hvalues⟩ := ih hrun (hroom.insert hinsert) hint₁
      have hlog₁ := log_of_writeSetInsert hinsert
      refine ⟨hroom', by simp [hlog, hlog₁], htypes, ?_⟩
      rw [expectedLoads, ← hlog₁, hvalues, forall_load_cons]
      simp [hlog₁]
    | load address =>
      simp only [runAccesses] at hrun
      obtain ⟨loaded, hload, hrun⟩ := bind_eq_ok.mp hrun
      obtain ⟨⟨ws₁, values₁⟩, hrest, hrun⟩ := bind_eq_ok.mp hrun
      have hresult := Except.ok.inj hrun
      simp only [Prod.mk.injEq] at hresult
      obtain ⟨rfl, rfl⟩ := hresult
      obtain ⟨hroom', hlog, htypes, hvalues⟩ := ih hrest hroom hint
      refine ⟨hroom', by simpa using hlog, htypes, ?_⟩
      rw [expectedLoads, List.cons.injEq, hvalues, txLoad_ok hload, forall_load_cons]
      simp

/-- Reading the ends of a log gives the same value exactly when the ends agree;
both ends are bound together, so the value read without a binding is the same. -/
theorem getD_first_eq_last_iff (log : List (Nat × BitVec 32)) (address : Nat)
    (shared : BitVec 32) :
    (AppendLog.first log address).getD shared = (AppendLog.last log address).getD shared ↔
      AppendLog.first log address = AppendLog.last log address := by
  cases hfirst : AppendLog.first log address with
  | none =>
    rw [AppendLog.first_eq_none_iff_last.mp hfirst]
    exact ⟨fun _ => rfl, fun _ => rfl⟩
  | some v =>
    cases hlast : AppendLog.last log address with
    | none =>
      rw [AppendLog.first_eq_none_iff_last.mpr hlast] at hfirst
      simp at hfirst
    | some w => simp

/-- The addresses that the attempt stores to do not overlap. -/
theorem apart_of_stores {accesses : List (TxAccess × Surroundings)}
    (hapart : ∀ x ∈ accesses, ∀ y ∈ accesses, x.1.address ≠ y.1.address →
      ByteMemory.Apart x.1.address 4 y.1.address 4)
    {e : Nat × BitVec 32} (he : e ∈ storesOf accesses) {address : Nat}
    (haddress : address ∈ (storesOf accesses).map Prod.fst) (hne : e.1 ≠ address) :
    ByteMemory.Apart e.1 4 address 4 := by
  obtain ⟨x, hx, hxe⟩ := mem_storesOf he
  obtain ⟨e', he', rfl⟩ := List.mem_map.mp haddress
  obtain ⟨y, hy, hye⟩ := mem_storesOf he'
  rw [← hxe, ← hye] at hne ⊢
  exact hapart x hx y hy hne

/-- `write_set_persist` leaves the latest store at every address stored to. -/
theorem load_writeSetPersist (platform : Platform) (mem : ByteMemory)
    {accesses : List (TxAccess × Surroundings)} {ws : WriteSet}
    (hapart : ∀ x ∈ accesses, ∀ y ∈ accesses, x.1.address ≠ y.1.address →
      ByteMemory.Apart x.1.address 4 y.1.address 4)
    (hlog : ws.log = storesOf accesses) (htypes : ∀ we ∈ ws.writeEntries, we.type = .typeInt)
    {address : Nat} {value : BitVec 32}
    (hlast : AppendLog.last (storesOf accesses) address = some value) :
    (writeSetPersist platform mem ws).load 4 address = value := by
  have hreplay : (AppendLog.replay (ByteMemory.store 4) mem (storesOf accesses)).load 4 address =
      (AppendLog.last (storesOf accesses) address).getD (mem.load 4 address) := by
    apply AppendLog.get_replay (ByteMemory.store 4) (ByteMemory.load 4)
      (ByteMemory.load_store_same 4)
    intro e he hne m
    apply ByteMemory.load_store_apart
    exact apart_of_stores hapart he (AppendLog.mem_keys_of_last hlast) hne
  rw [writeSetPersist_eq_replay platform mem ws htypes, hlog, hreplay, hlast]
  rfl

/-- What is persisted is what a last load returns when both ends of the log agree. -/
theorem persists_contained_iff (platform : Platform) (mem : ByteMemory)
    {accesses : List (TxAccess × Surroundings)} {ws : WriteSet}
    (hapart : ∀ x ∈ accesses, ∀ y ∈ accesses, x.1.address ≠ y.1.address →
      ByteMemory.Apart x.1.address 4 y.1.address 4)
    (hlog : ws.log = storesOf accesses) (htypes : ∀ we ∈ ws.writeEntries, we.type = .typeInt) :
    (∀ address we, writeSetContains ws address = some we →
      (writeSetPersist platform mem ws).load 4 address = we.i) ↔
    ∀ address, AppendLog.first (storesOf accesses) address =
      AppendLog.last (storesOf accesses) address := by
  have hcontains : ∀ address, (writeSetContains ws address).map WriteEntry.i =
      AppendLog.first (storesOf accesses) address := by
    intro address
    rw [writeSetContains_eq_first, hlog]
  rw [AppendLog.first_eq_last_iff]
  constructor
  · intro h address value hfirst
    rw [← hcontains, Option.map_eq_some_iff] at hfirst
    obtain ⟨we, hws, rfl⟩ := hfirst
    have hpersisted := h address we hws
    cases hlast : AppendLog.last (storesOf accesses) address with
    | none =>
      rw [← AppendLog.first_eq_none_iff_last, ← hcontains, hws] at hlast
      simp at hlast
    | some latest =>
      rw [← hpersisted, load_writeSetPersist platform mem hapart hlog htypes hlast]
  · intro h address we hws
    have hfirst : AppendLog.first (storesOf accesses) address = some we.i := by
      rw [← hcontains, hws]
      rfl
    exact load_writeSetPersist platform mem hapart hlog htypes (h address we.i hfirst)

/-- A write set that was built holds at most `2 ^ 31` entries. -/
theorem WriteSet.HasRoom.length_log_le {ws : WriteSet} (h : ws.HasRoom) :
    ws.log.length ≤ 2 ^ 31 := by
  unfold WriteSet.log
  rw [List.length_map]
  exact (Room.le h).trans (Room.size_le h)

/-- For an attempt that gets to its end. -/
theorem readsOwnWrites_of_ok {cfg : Config} (platform : Platform) (mem : ByteMemory)
    {accesses : List (TxAccess × Surroundings)} {ws : WriteSet} {values : List (BitVec 32)}
    (hapart : ∀ x ∈ accesses, ∀ y ∈ accesses, x.1.address ≠ y.1.address →
      ByteMemory.Apart x.1.address 4 y.1.address 4)
    (hrun : runAccesses cfg writeSetNew accesses = .ok (ws, values)) :
    (ReadsOwnWrites platform mem accesses ws values ↔ FirstStoreIsLatest accesses) ∧
    (storesOf accesses).length ≤ 2 ^ 31 := by
  obtain ⟨hroom, hlog, htypes, hvalues⟩ :=
    runAccesses_ok hrun hasRoom_writeSetNew (by simp [writeSetNew])
  simp only [log_writeSetNew, List.nil_append] at hlog hvalues
  have hloads : values = expectedLoads [] accesses ↔
      ∀ before address env after, accesses = before ++ (.load address, env) :: after →
        AppendLog.first (storesOf before) address = AppendLog.last (storesOf before) address := by
    rw [hvalues]
    simp only [getD_first_eq_last_iff]
  constructor
  · unfold ReadsOwnWrites FirstStoreIsLatest
    rw [hloads, persists_contained_iff platform mem hapart hlog htypes]
  · exact hlog ▸ hroom.length_log_le

/-- **Own writes are read back exactly when first and latest stores agree** and the
stores have room in the write set.  For an attempt that is not aborted, over addresses
that are equal or four bytes apart. -/
theorem readsOwnWrites_iff (cfg : Config) (platform : Platform) (mem : ByteMemory)
    (accesses : List (TxAccess × Surroundings))
    (hapart : ∀ x ∈ accesses, ∀ y ∈ accesses, x.1.address ≠ y.1.address →
      ByteMemory.Apart x.1.address 4 y.1.address 4)
    (hlive : NotAborted (runAccesses cfg writeSetNew accesses)) :
    (∃ ws values, runAccesses cfg writeSetNew accesses = .ok (ws, values) ∧
      ReadsOwnWrites platform mem accesses ws values) ↔
    (storesOf accesses).length ≤ 2 ^ 31 ∧ FirstStoreIsLatest accesses := by
  constructor
  · rintro ⟨ws, values, hrun, hreads⟩
    obtain ⟨hiff, hle⟩ := readsOwnWrites_of_ok platform mem hapart hrun
    exact ⟨hle, hiff.mp hreads⟩
  · rintro ⟨hle, hlatest⟩
    have hsurvives : runAccesses cfg writeSetNew accesses ≠ .error .died :=
      runAccesses_survives hasRoom_writeSetNew (by simpa [writeSetNew] using hle)
    obtain ⟨⟨ws, values⟩, hrun⟩ := hlive.exists_ok hsurvives
    exact ⟨ws, values, hrun, (readsOwnWrites_of_ok platform mem hapart hrun).1.mpr hlatest⟩

/-- No conflict anywhere, shared memory all zero. -/
def undisturbed : Surroundings := ⟨.noConflict, .noConflict, .noConflict, fun _ => 0⟩

def wholly4 : Config := ⟨.wholly, false, false, 4⟩

theorem readsOwnWrites_store_load :
    (∃ ws values, runAccesses wholly4 writeSetNew
        [(.store 64 7, undisturbed), (.load 64, undisturbed), (.load 68, undisturbed)] =
          .ok (ws, values) ∧
      ReadsOwnWrites .generic (fun _ => 0)
        [(.store 64 7, undisturbed), (.load 64, undisturbed), (.load 68, undisturbed)]
        ws values) ↔
    (storesOf
        [(.store 64 7, undisturbed), (.load 64, undisturbed), (.load 68, undisturbed)]).length ≤
        2 ^ 31 ∧
      FirstStoreIsLatest
        [(.store 64 7, undisturbed), (.load 64, undisturbed), (.load 68, undisturbed)] :=
  readsOwnWrites_iff wholly4 .generic (fun _ => 0) _ (by
    intro x hx y hy
    simp only [List.mem_cons, List.not_mem_nil, or_false] at hx hy
    rcases hx with rfl | rfl | rfl <;> rcases hy with rfl | rfl | rfl <;> decide) (by
    intro reason h
    cases h)

/-- After `TX_STORE(64, 1)` and `TX_STORE(64, 2)` the attempt, undisturbed by any
other node, reads 1 from the address at which its commit will leave 2. -/
theorem load_after_two_stores_reads_first :
    runAccesses wholly4 writeSetNew
        [(.store 64 1, undisturbed), (.store 64 2, undisturbed), (.load 64, undisturbed)] =
      .ok (⟨[⟨64, .typeInt, 1⟩, ⟨64, .typeInt, 2⟩], 4⟩, [1]) ∧
    ¬ ReadsOwnWrites .generic (fun _ => 0)
        [(.store 64 1, undisturbed), (.store 64 2, undisturbed), (.load 64, undisturbed)]
        ⟨[⟨64, .typeInt, 1⟩, ⟨64, .typeInt, 2⟩], 4⟩ [1] := by
  refine ⟨rfl, ?_⟩
  rintro ⟨hvalues, _⟩
  exact absurd hvalues (by decide)

end TM2C
