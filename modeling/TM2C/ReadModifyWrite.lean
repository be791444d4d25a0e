import TM2C.ReadYourWrites

/-!
# Read-modify-write in a transaction

`TX_LOAD_STORE` of `include/tm2c.h` (the branch without `PGAS`) locks the address,
computes the new value and appends it to the write set, which
`TX_COMMIT_NO_PUB` persists.  It computes from shared memory, where the earlier
operations of the same attempt are not to be seen yet, so of several operations on
one address only the last one counts.

What the commit leaves is read off the write set: it is the log of the values that
the operations computed from the initial memory (`runUpdates_ok`), and the replay of
a log leaves the newest value of every address (`last_updates`).  Beside the
condition on the operations there is one on their number, since a write set holds
`2 ^ 31` entries.
-/

namespace TM2C

/-- The `op` and the `value` of a `TX_LOAD_STORE`. -/
structure Operation where
  op : BitVec 32 → BitVec 32 → BitVec 32
  value : BitVec 32

def Operation.apply (o : Operation) (v : BitVec 32) : BitVec 32 := o.op v o.value

/-- `TX_LOAD_STORE(address, op, value, TYPE_INT)` -/
def txLoadStore (cfg : Config) (env : Surroundings) (ws : WriteSet) (address : Nat)
    (operation : Operation) : Except Failure WriteSet := do
  txWlock cfg env
  let temp := operation.apply (env.mem.load 4 address)
  orDie (writeSetInsert ws .typeInt temp address)

/-- `TXPERSISTING()`: the compare-and-swap of `set_tx_persisting` succeeds if nobody
has set the flag. -/
def txPersisting (cfg : Config) (flag : Conflict) : Except Failure Unit :=
  if cfg.cm.isReal ∧ flag ≠ .noConflict then .error (.aborted flag) else .ok ()

/-- `TX_COMMIT_NO_PUB` up to `TXCOMMITTED()`: the shared memory that it leaves. -/
def txCommitNoPub (cfg : Config) (platform : Platform) (flag : Conflict) (mem : ByteMemory)
    (ws : WriteSet) : Except Failure ByteMemory := do
  txPersisting cfg flag
  return writeSetPersist platform mem ws

/-- A `TX_LOAD(address)` or a `TX_LOAD_STORE(address, op, value, TYPE_INT)`. -/
inductive UpdateAccess where
  | load (address : Nat)
  | loadStore (address : Nat) (operation : Operation)

def UpdateAccess.address : UpdateAccess → Nat
  | .load address => address
  | .loadStore address _ => address

/-- Run the accesses of an attempt up to its commit. -/
def runUpdates (cfg : Config) (ws : WriteSet) :
    List (UpdateAccess × Surroundings) → Except Failure WriteSet
  | [] => .ok ws
  | (.load address, env) :: rest => do
    let _ ← txLoad cfg env ws address
    runUpdates cfg ws rest
  | (.loadStore address operation, env) :: rest => do
    let ws' ← txLoadStore cfg env ws address operation
    runUpdates cfg ws' rest

/-- An attempt with its commit: the shared memory that it leaves.  `flag` is the abort flag
at the commit. -/
def runUpdateTx (cfg : Config) (platform : Platform) (flag : Conflict) (mem : ByteMemory)
    (accesses : List (UpdateAccess × Surroundings)) : Except Failure ByteMemory := do
  let ws ← runUpdates cfg writeSetNew accesses
  txCommitNoPub cfg platform flag mem ws

/-- The operations on the address, in program order. -/
def operationsOn (accesses : List (UpdateAccess × Surroundings)) (address : Nat) :
    List Operation :=
  accesses.filterMap fun access =>
    match access.1 with
    | .load _ => none
    | .loadStore a operation => if a = address then some operation else none

/-- The operations one after the other. -/
def applyAll (operations : List Operation) (v : BitVec 32) : BitVec 32 :=
  operations.foldl (fun v o => o.apply v) v

/-- `mem'` has at every address the value of `mem` with all the operations applied. -/
def Composes (accesses : List (UpdateAccess × Surroundings)) (mem mem' : ByteMemory) : Prop :=
  ∀ access ∈ accesses, mem'.load 4 access.1.address =
    applyAll (operationsOn accesses access.1.address) (mem.load 4 access.1.address)

/-- At every address the last operation gives the same whether or not it sees the
effect of those before it. -/
def EarlierDoNotMatter (accesses : List (UpdateAccess × Surroundings)) (mem : ByteMemory) :
    Prop :=
  ∀ address earlier last, operationsOn accesses address = earlier ++ [last] →
    last.apply (applyAll earlier (mem.load 4 address)) = last.apply (mem.load 4 address)

/-! ### The write set of an attempt -/

/-- What an access appends to the write set. -/
def updateOf (mem : ByteMemory) (access : UpdateAccess × Surroundings) :
    Option (Nat × BitVec 32) :=
  match access.1 with
  | .load _ => none
  | .loadStore address operation => some (address, operation.apply (mem.load 4 address))

/-- How many entries an attempt needs. -/
def updateCount (accesses : List (UpdateAccess × Surroundings)) : Nat :=
  accesses.countP fun access =>
    match access.1 with
    | .load _ => false
    | .loadStore _ _ => true

@[simp] theorem updateCount_load (address : Nat) (env : Surroundings)
    (rest : List (UpdateAccess × Surroundings)) :
    updateCount ((.load address, env) :: rest) = updateCount rest :=
  List.countP_cons_of_neg (fun h => by cases h)

@[simp] theorem updateCount_loadStore (address : Nat) (operation : Operation)
    (env : Surroundings) (rest : List (UpdateAccess × Surroundings)) :
    updateCount ((.loadStore address operation, env) :: rest) = updateCount rest + 1 :=
  List.countP_cons_of_pos rfl

theorem length_updates (mem : ByteMemory) (accesses : List (UpdateAccess × Surroundings)) :
    (accesses.filterMap (updateOf mem)).length = updateCount accesses := by
  induction accesses with
  | nil => rfl
  | cons head rest ih =>
    obtain ⟨access, env⟩ := head
    cases access with
    | load address => exact ih.trans (updateCount_load address env rest).symm
    | loadStore address operation =>
      have hcount := updateCount_loadStore address operation env rest
      exact (congrArg (· + 1) ih).trans hcount.symm

theorem txLoadStore_ok {cfg : Config} {env : Surroundings} {ws ws' : WriteSet} {address : Nat}
    {operation : Operation} (h : txLoadStore cfg env ws address operation = .ok ws') :
    writeSetInsert ws .typeInt (operation.apply (env.mem.load 4 address)) address =
      some ws' := by
  obtain ⟨_, _, h⟩ := bind_eq_ok.mp h
  exact orDie_eq_ok.mp h

theorem txLoadStore_survives {cfg : Config} {env : Surroundings} {ws : WriteSet}
    (address : Nat) (operation : Operation) (hroom : ws.HasRoom)
    (hlt : ws.writeEntries.length < 2 ^ 31) :
    txLoadStore cfg env ws address operation ≠ .error .died := by
  intro h
  rcases bind_eq_error.mp h with hlock | ⟨_, _, hinsert⟩
  · exact txWlock_survives cfg env hlock
  · exact orDie_writeSetInsert_survives hroom hlt hinsert

theorem txCommitNoPub_ok {cfg : Config} {platform : Platform} {flag : Conflict}
    {mem mem' : ByteMemory} {ws : WriteSet}
    (h : txCommitNoPub cfg platform flag mem ws = .ok mem') :
    mem' = writeSetPersist platform mem ws := by
  obtain ⟨_, _, h⟩ := bind_eq_ok.mp h
  exact (Except.ok.inj h).symm

theorem txCommitNoPub_survives (cfg : Config) (platform : Platform) (flag : Conflict)
    (mem : ByteMemory) (ws : WriteSet) :
    txCommitNoPub cfg platform flag mem ws ≠ .error .died := by
  intro h
  rcases bind_eq_error.mp h with hflag | ⟨_, _, h⟩
  · unfold txPersisting at hflag
    split at hflag <;> cases hflag
  · cases h

/-- An attempt with few enough operations does not die. -/
theorem runUpdates_survives {cfg : Config} {accesses : List (UpdateAccess × Surroundings)}
    {ws : WriteSet} (hroom : ws.HasRoom)
    (hle : ws.writeEntries.length + updateCount accesses ≤ 2 ^ 31) :
    runUpdates cfg ws accesses ≠ .error .died := by
  induction accesses generalizing ws with
  | nil => exact fun h => by cases h
  | cons head rest ih =>
    obtain ⟨access, env⟩ := head
    intro h
    cases access with
    | load address =>
      rw [updateCount_load] at hle
      rcases bind_eq_error.mp h with hload | ⟨_, _, hrest⟩
      · exact txLoad_survives cfg env ws address hload
      · exact ih hroom hle hrest
    | loadStore address operation =>
      rw [updateCount_loadStore] at hle
      rcases bind_eq_error.mp h with hstore | ⟨ws₁, hstore, hrest⟩
      · exact txLoadStore_survives address operation hroom (by omega) hstore
      · have hinsert := txLoadStore_ok hstore
        refine ih (hroom.insert hinsert) ?_ hrest
        rw [writeEntries_of_writeSetInsert hinsert, List.length_append, List.length_singleton]
        omega

theorem runUpdates_ok {cfg : Config} {mem : ByteMemory}
    {accesses : List (UpdateAccess × Surroundings)} {ws ws' : WriteSet}
    (hquiet : ∀ access ∈ accesses,
      access.2.mem.load 4 access.1.address = mem.load 4 access.1.address)
    (hrun : runUpdates cfg ws accesses = .ok ws') (hroom : ws.HasRoom)
    (hint : ∀ we ∈ ws.writeEntries, we.type = .typeInt) :
    ws'.HasRoom ∧ ws'.log = ws.log ++ accesses.filterMap (updateOf mem) ∧
    ∀ we ∈ ws'.writeEntries, we.type = .typeInt := by
  induction accesses generalizing ws with
  | nil =>
    obtain rfl := Except.ok.inj hrun
    exact ⟨hroom, by simp, hint⟩
  | cons head rest ih =>
    obtain ⟨access, env⟩ := head
    have hrest := fun access h => hquiet access (List.mem_cons_of_mem _ h)
    cases access with
    | load address =>
      simp only [runUpdates] at hrun
      obtain ⟨_, _, hrun⟩ := bind_eq_ok.mp hrun
      exact ih hrest hrun hroom hint
    | loadStore address operation =>
      simp only [runUpdates] at hrun
      obtain ⟨ws₁, hstore, hrun⟩ := bind_eq_ok.mp hrun
      have hinsert := txLoadStore_ok hstore
      have hread : env.mem.load 4 address = mem.load 4 address :=
        hquiet (.loadStore address operation, env) (by simp)
      rw [hread] at hinsert
      have hint₁ : ∀ we ∈ ws₁.writeEntries, we.type = .typeInt :=
        forall_writeSetInsert hinsert hint rfl
      obtain ⟨hroom', hlog, htypes⟩ := ih hrest hrun (hroom.insert hinsert) hint₁
      refine ⟨hroom', ?_, htypes⟩
      rw [hlog, log_of_writeSetInsert hinsert, List.append_assoc]
      rfl

@[simp] theorem operationsOn_load (accesses : List (UpdateAccess × Surroundings))
    (a address : Nat) (env : Surroundings) :
    operationsOn (accesses ++ [(.load a, env)]) address = operationsOn accesses address := by
  simp [operationsOn]

@[simp] theorem operationsOn_loadStore (accesses : List (UpdateAccess × Surroundings))
    (a address : Nat) (operation : Operation) (env : Surroundings) :
    operationsOn (accesses ++ [(.loadStore a operation, env)]) address =
      operationsOn accesses address ++ if a = address then [operation] else [] := by
  by_cases ha : a = address <;> simp [operationsOn, ha]

/-- The newest entry of an address is the last operation on its value in memory. -/
theorem last_updates (mem : ByteMemory) (accesses : List (UpdateAccess × Surroundings))
    (address : Nat) :
    AppendLog.last (accesses.filterMap (updateOf mem)) address =
      (operationsOn accesses address).getLast?.map fun o => o.apply (mem.load 4 address) := by
  induction accesses using List.reverseRecOn with
  | nil => rfl
  | append_singleton accesses access ih =>
    obtain ⟨access, env⟩ := access
    rw [List.filterMap_append, AppendLog.last_append, ih]
    cases access with
    | load a =>
      rw [operationsOn_load]
      rfl
    | loadStore a operation =>
      have hentry : [(UpdateAccess.loadStore a operation, env)].filterMap (updateOf mem) =
        [(a, operation.apply (mem.load 4 a))] := rfl
      rw [operationsOn_loadStore, hentry, AppendLog.last_singleton]
      by_cases ha : a = address
      · subst ha
        simp
      · simp [ha]

/-- The memory after the commit. -/
theorem load_after_commit (platform : Platform) {cfg : Config} {mem : ByteMemory}
    {accesses : List (UpdateAccess × Surroundings)} {ws : WriteSet}
    (hapart : ∀ x ∈ accesses, ∀ y ∈ accesses, x.1.address ≠ y.1.address →
      ByteMemory.Apart x.1.address 4 y.1.address 4)
    (hquiet : ∀ access ∈ accesses,
      access.2.mem.load 4 access.1.address = mem.load 4 access.1.address)
    (hrun : runUpdates cfg writeSetNew accesses = .ok ws)
    {access : UpdateAccess × Surroundings} (haccess : access ∈ accesses) :
    (writeSetPersist platform mem ws).load 4 access.1.address =
      ((operationsOn accesses access.1.address).getLast?.map
        fun o => o.apply (mem.load 4 access.1.address)).getD (mem.load 4 access.1.address) := by
  obtain ⟨-, hlog, htypes⟩ :=
    runUpdates_ok hquiet hrun hasRoom_writeSetNew (by simp [writeSetNew])
  rw [log_writeSetNew, List.nil_append] at hlog
  rw [writeSetPersist_eq_replay platform mem ws htypes, hlog, ← last_updates]
  apply AppendLog.get_replay (ByteMemory.store 4) (ByteMemory.load 4)
    (ByteMemory.load_store_same 4)
  intro e he hne m
  apply ByteMemory.load_store_apart
  obtain ⟨x, hx, hxe⟩ := List.mem_filterMap.mp he
  have haddress : x.1.address = e.1 := by
    obtain ⟨x, env⟩ := x
    cases x with
    | load a => cases hxe
    | loadStore a operation =>
      cases hxe
      rfl
  rw [← haddress] at hne ⊢
  exact hapart x hx access haccess hne

theorem applyAll_concat (earlier : List Operation) (last : Operation) (v : BitVec 32) :
    applyAll (earlier ++ [last]) v = last.apply (applyAll earlier v) := by
  simp [applyAll]

/-- An address with an operation on it is accessed. -/
theorem exists_access_of_operationsOn {accesses : List (UpdateAccess × Surroundings)}
    {address : Nat} (h : operationsOn accesses address ≠ []) :
    ∃ access ∈ accesses, access.1.address = address := by
  obtain ⟨o, ho⟩ := List.exists_mem_of_ne_nil _ h
  obtain ⟨⟨access, env⟩, hmem, hsome⟩ := List.mem_filterMap.mp ho
  refine ⟨(access, env), hmem, ?_⟩
  cases access with
  | load a => cases hsome
  | loadStore a operation =>
    by_contra hne
    simp only [UpdateAccess.address] at hne
    simp [hne] at hsome

/-- For an attempt that commits. -/
theorem composes_of_ok {cfg : Config} {platform : Platform} {flag : Conflict}
    {accesses : List (UpdateAccess × Surroundings)} {mem mem' : ByteMemory}
    (hapart : ∀ x ∈ accesses, ∀ y ∈ accesses, x.1.address ≠ y.1.address →
      ByteMemory.Apart x.1.address 4 y.1.address 4)
    (hquiet : ∀ access ∈ accesses,
      access.2.mem.load 4 access.1.address = mem.load 4 access.1.address)
    (hrun : runUpdateTx cfg platform flag mem accesses = .ok mem') :
    Composes accesses mem mem' ↔ EarlierDoNotMatter accesses mem := by
  obtain ⟨ws, hupdates, hcommit⟩ := bind_eq_ok.mp hrun
  have hload : ∀ access ∈ accesses, _ :=
    fun access h => load_after_commit platform hapart hquiet hupdates h
  rw [← txCommitNoPub_ok hcommit] at hload
  constructor
  · intro hcomposes address earlier last hops
    have hne : operationsOn accesses address ≠ [] := by simp [hops]
    obtain ⟨access, haccess, rfl⟩ := exists_access_of_operationsOn hne
    have hvalue := hcomposes access haccess
    rw [hload access haccess, hops, applyAll_concat, List.getLast?_concat] at hvalue
    exact hvalue.symm
  · intro hearlier access haccess
    rw [hload access haccess]
    rcases List.eq_nil_or_concat (operationsOn accesses access.1.address) with hnil | hlast
    · rw [hnil]
      rfl
    · obtain ⟨earlier, last, hops⟩ := hlast
      rw [List.concat_eq_append] at hops
      rw [hops, applyAll_concat, List.getLast?_concat]
      exact (hearlier _ _ _ hops).symm

/-- **Operations on one address compose only where the earlier ones do not matter** and all
of them have room in the write set.  For an attempt that is not aborted while the addresses
it uses, equal or four bytes apart, are not written by others. -/
theorem loadStore_composes_iff (cfg : Config) (platform : Platform) (flag : Conflict)
    (accesses : List (UpdateAccess × Surroundings)) (mem : ByteMemory)
    (hapart : ∀ x ∈ accesses, ∀ y ∈ accesses, x.1.address ≠ y.1.address →
      ByteMemory.Apart x.1.address 4 y.1.address 4)
    (hquiet : ∀ access ∈ accesses,
      access.2.mem.load 4 access.1.address = mem.load 4 access.1.address)
    (hlive : NotAborted (runUpdateTx cfg platform flag mem accesses)) :
    (∃ mem', runUpdateTx cfg platform flag mem accesses = .ok mem' ∧
      Composes accesses mem mem') ↔
    updateCount accesses ≤ 2 ^ 31 ∧ EarlierDoNotMatter accesses mem := by
  constructor
  · rintro ⟨mem', hrun, hcomposes⟩
    obtain ⟨ws, hupdates, -⟩ := bind_eq_ok.mp hrun
    obtain ⟨hroom, hlog, -⟩ :=
      runUpdates_ok hquiet hupdates hasRoom_writeSetNew (by simp [writeSetNew])
    have hle := hroom.length_log_le
    rw [hlog, log_writeSetNew, List.nil_append, length_updates] at hle
    exact ⟨hle, (composes_of_ok hapart hquiet hrun).mp hcomposes⟩
  · rintro ⟨hle, hearlier⟩
    have hsurvives : runUpdateTx cfg platform flag mem accesses ≠ .error .died := by
      intro h
      rcases bind_eq_error.mp h with hupdates | ⟨ws, _, hcommit⟩
      · exact runUpdates_survives hasRoom_writeSetNew (by simpa [writeSetNew] using hle) hupdates
      · exact txCommitNoPub_survives cfg platform flag mem ws hcommit
    obtain ⟨mem', hrun⟩ := hlive.exists_ok hsurvives
    exact ⟨mem', hrun, (composes_of_ok hapart hquiet hrun).mpr hearlier⟩

/-- `+ amount` -/
def plus (amount : BitVec 32) : Operation := ⟨(· + ·), amount⟩

theorem loadStore_composes_once :
    (∃ mem', runUpdateTx wholly4 .generic .noConflict (fun _ => 0)
        [(.loadStore 64 (plus 5), undisturbed), (.load 68, undisturbed)] = .ok mem' ∧
      Composes [(.loadStore 64 (plus 5), undisturbed), (.load 68, undisturbed)] (fun _ => 0)
        mem') ↔
    updateCount [(.loadStore 64 (plus 5), undisturbed), (.load 68, undisturbed)] ≤ 2 ^ 31 ∧
      EarlierDoNotMatter [(.loadStore 64 (plus 5), undisturbed), (.load 68, undisturbed)]
        fun _ => 0 :=
  loadStore_composes_iff wholly4 .generic .noConflict _ _ (by
    intro x hx y hy
    simp only [List.mem_cons, List.not_mem_nil, or_false] at hx hy
    rcases hx with rfl | rfl <;> rcases hy with rfl | rfl <;> decide) (by
    intro access haccess
    simp only [List.mem_cons, List.not_mem_nil, or_false] at haccess
    rcases haccess with rfl | rfl <;> rfl) (by
    intro reason h
    cases h)

/-- A transfer of 5 and one of 7 into the same account, which held 0, leave 7. -/
theorem second_loadStore_forgets_first :
    runUpdateTx wholly4 .generic .noConflict (fun _ => 0)
        [(.loadStore 64 (plus 5), undisturbed), (.loadStore 64 (plus 7), undisturbed)] =
      .ok ((ByteMemory.store 4 (fun _ => 0) 64 5).store 4 64 7) ∧
    ¬ Composes [(.loadStore 64 (plus 5), undisturbed), (.loadStore 64 (plus 7), undisturbed)]
      (fun _ => 0) ((ByteMemory.store 4 (fun _ => 0) 64 5).store 4 64 7) := by
  refine ⟨rfl, ?_⟩
  intro h
  exact absurd (h _ (List.mem_cons_self)) (by decide)

end TM2C
