import TM2C.Ssht
import TM2C.WriteSet

/-!
# A service node

`src/tm2c_cm.c`, the insertions of `src/ssht.c`, and one turn of the loop of
`dsl_service` in `src/sys_default.c`.  A service node handles one message at a
time; what it may change is the state `Dsl`.  The abort flags belong to the
application nodes and are shared, so they are a field of the state, too.

The code of the source is read from below: `cas_abort_flag` and `abort_node` on one flag, the two
contention managers over the readers or the writer of an entry, `bucket_insert_r` and
`bucket_insert_w` over the chain of a bucket, the messages of the `switch`, and `dslService`, one
turn of the loop, which also updates the timestamp of the sender.  `Config` has the build flags
that matter: the contention manager, PGAS, eager write locks, the number of cores.

Where the code waits, the state says what it finds in the end: `abort_node` looks again at a flag
that reads `PERSISTING_WRITES`, and `SettledFlag` in the field `reread` is what the victim has
put there when the loop leaves.  What is found is up to the environment, and theorems about one
turn quantify over it.  `dslSwitch_insert` is the one description of a request for a lock, refused
or granted, that all later modules use.
-/

namespace TM2C

open RwEntry

/-- What an abort flag reads when its owner does not persist its writes. -/
abbrev SettledFlag : Type := { flag : Conflict // flag ≠ .persistingWrites }

/-- The state of a service node and the abort flags it can reach. -/
structure Dsl (E : Type) where
  -- `tm2c_ht` and `logs`
  ht : Ssht E
  -- `cm_metadata_core[n].timestamp`
  timestamp : Nat → Nat
  -- `cm_abort_flags`
  abortFlags : Nat → Conflict
  -- what `abort_node` finds in a flag when it no longer reads `PERSISTING_WRITES`
  reread : Nat → SettledFlag
  -- `PGAS_write_sets`
  writeSets : Nat → WriteSetPgas
  -- `pgas_dsl_mem`
  mem : ByteMemory

variable {E : Type} [RwEntry E]

/-- `tm2c_dsl_init`: `calloc`ed timestamps, empty table and logs, zeroed memory.  A run
keeps `reread`: whatever else the owner of a flag writes while `abort_node` waits for it,
it may as well write before the message arrives. -/
def dslInit : Dsl E where
  ht := sshtNew
  timestamp _ := 0
  abortFlags _ := .noConflict
  reread _ := ⟨.txCommitted, by decide⟩
  writeSets _ := writeSetPgasNew
  mem _ := 0

/-! ### Contention management -/

/-- `__sync_val_compare_and_swap(flag, NO_CONFLICT, reason)`: the value left in the flag. -/
def casAbortFlag (flag reason : Conflict) : Conflict :=
  if flag = .noConflict then reason else flag

/-- The flag when `abort_node` returns.  While it reads `PERSISTING_WRITES` the call looks
again every 180 cycles; by then the owner may have written `TX_COMMITTED`, the `NO_CONFLICT`
of its next `TX_START`, or been aborted by another service node. -/
def abortNode (flag : Conflict) (found : SettledFlag) (reason : Conflict) : Conflict :=
  casAbortFlag (if flag = .persistingWrites then found else flag) reason

/-- What both contention manager functions do to a defender that lost. -/
def abortDefender {E : Type} [RwEntry E] (cfg : Config) (s : Dsl E) (defender : Nat)
    (conflict : Conflict) : Dsl E :=
  if cfg.pgas then
    -- `abort_node_is_persisting`
    let flag := s.abortFlags defender
    { s with
      abortFlags := Function.update s.abortFlags defender (casAbortFlag flag conflict)
      mem :=
        if flag = .persistingWrites then writeSetPgasPersist s.mem (s.writeSets defender)
        else s.mem
      writeSets :=
        Function.update s.writeSets defender (writeSetPgasEmpty (s.writeSets defender)) }
  else
    { s with
      abortFlags :=
        Function.update s.abortFlags defender
          (abortNode (s.abortFlags defender) (s.reread defender) conflict)
      ht := tm2cHtDeleteNode s.ht defender }

def contentionManagerRawWaw (cfg : Config) (s : Dsl E) (attacker defender : Nat)
    (conflict : Conflict) : Bool × Dsl E :=
  if s.timestamp attacker < s.timestamp defender ∨
      (s.timestamp attacker = s.timestamp defender ∧ attacker < defender) then
    (true, abortDefender cfg s defender conflict)
  else (false, s)

/-- `defenders` are the reader flags when the call is made; aborting a defender
clears no flag but its own. -/
def contentionManagerWar (cfg : Config) (s : Dsl E) (attacker : Nat) (defenders : Nat → Bool)
    (conflict : Conflict) : Bool × Dsl E :=
  if (List.range cfg.numUes).any fun defender => defenders defender &&
      (decide (s.timestamp attacker > s.timestamp defender) ||
        (s.timestamp attacker == s.timestamp defender && decide (defender < attacker))) then
    (false, s)
  else
    (true, ((List.range cfg.numUes).filter fun defender =>
        defenders defender && decide (defender ≠ attacker)).foldl
      (fun s defender => abortDefender cfg s defender conflict) s)

/-! ### Insertion -/

def bucketInsertR (cfg : Config) (s : Dsl E) (bu id addr : Nat) : Conflict × Dsl E :=
  match bucketFind (s.ht.bucket bu) addr with
  | some (i, sl) =>
    let grant (s : Dsl E) := { s with ht := markReaderFound s.ht (bu, i) id addr }
    if writer sl.entry ≠ SSHT_NO_WRITER then
      if cfg.cm.isReal then
        let (won, s') := contentionManagerRawWaw cfg s id (writer sl.entry) .readAfterWrite
        if won then (.noConflict, grant s') else (.readAfterWrite, s')
      else (.readAfterWrite, s)
    else (.noConflict, grant s)
  | none =>
    let (ht, p) := bucketAlloc s.ht bu
    (.noConflict, { s with ht := markReader ht p id addr })

def bucketInsertW (cfg : Config) (s : Dsl E) (bu id addr : Nat) : Conflict × Dsl E :=
  match bucketFind (s.ht.bucket bu) addr with
  | some (i, sl) =>
    let grant (s : Dsl E) := { s with ht := markWriter s.ht (bu, i) id addr }
    if writer sl.entry ≠ SSHT_NO_WRITER ∧ writer sl.entry ≠ id then
      if cfg.cm.isReal then
        let (won, s') := contentionManagerRawWaw cfg s id (writer sl.entry) .writeAfterWrite
        if won then (.noConflict, grant s') else (.writeAfterWrite, s')
      else (.writeAfterWrite, s)
    else if hasOtherReaders sl.entry id then
      if cfg.cm.isReal then
        let (won, s') := contentionManagerWar cfg s id (isReader sl.entry) .writeAfterRead
        if won then (.noConflict, grant s') else (.writeAfterRead, s')
      else (.writeAfterRead, s)
    else (.noConflict, grant s)
  | none =>
    let (ht, p) := bucketAlloc s.ht bu
    (.noConflict, { s with ht := markWriter ht p id addr })

def tm2cHtInsert (cfg : Config) (s : Dsl E) (id address : Nat) (rw : RW) : Conflict × Dsl E :=
  let bu := bucketOf cfg.pgas address
  match rw with
  | .read => bucketInsertR cfg s bu id address
  | .write => bucketInsertW cfg s bu id address

def tryLoad (cfg : Config) (s : Dsl E) (id address : Nat) : Conflict × Dsl E :=
  tm2cHtInsert cfg s id address .read

def tryStore (cfg : Config) (s : Dsl E) (id address : Nat) : Conflict × Dsl E :=
  tm2cHtInsert cfg s id address .write

/-! ### Messages -/

/-- `TM2C_RPC_REQ_TYPE` without the statistics. -/
inductive ReqType where
  | load
  | store
  | loadRls
  | storeFinish
  | rmvNode
  | loadNontx
  | storeNontx
  | storeInc
  | unknown
deriving DecidableEq, Repr

/-- `TM2C_RPC_REQ`.  `value` is the union of `response`, `write_value` and
`num_words`. -/
structure Req where
  type : ReqType
  address : Nat
  value : BitVec 64 := 0
  txMetadata : Nat := 0
deriving DecidableEq, Repr

/-- `TM2C_RPC_REPLY_TYPE` -/
inductive ReplyType where
  | loadResponse
  | storeResponse
  | loadNontxResponse
  | unknownResponse
deriving DecidableEq, Repr

/-- `TM2C_RPC_REPLY` -/
structure Reply where
  type : ReplyType
  address : Nat
  value : BitVec 64
  response : Conflict
deriving DecidableEq, Repr

/-- `NO_CONFLICT` in the `response` field of a `RMV_NODE`. -/
def RESPONSE_NO_CONFLICT : BitVec 64 := 0

/-- `TM2C_CONFLICT_T` in the `response` field. -/
def Conflict.response : Conflict → BitVec 64
  | .noConflict => RESPONSE_NO_CONFLICT
  | .readAfterWrite => 1
  | .writeAfterRead => 2
  | .writeAfterWrite => 3
  | .persistingWrites => 4
  | .txCommitted => 5

/-! ### One turn of the service loop -/

/-- The update of `cm_metadata_core[sender]` before the `switch`; `now` is `getticks()`. -/
def updateTimestamp (cfg : Config) (now : Nat) (sender : Nat) (txMetadata : Nat)
    (timestamp : Nat → Nat) : Nat → Nat :=
  match cfg.cm with
  | .wholly | .faircm => Function.update timestamp sender txMetadata
  | .greedy globalTs =>
    if timestamp sender = 0 then
      Function.update timestamp sender
        (if globalTs then txMetadata else (now + 2 ^ 64 - txMetadata) % 2 ^ 64)
    else timestamp
  | .nocm | .backoffRetry => timestamp

/-- The service node before the `switch`. -/
def stamped {E : Type} (cfg : Config) (now : Nat) (s : Dsl E) (sender : Nat) (req : Req) : Dsl E :=
  { s with timestamp := updateTimestamp cfg now sender req.txMetadata s.timestamp }

/-- `cm_metadata_core[sender].timestamp = 0` under GREEDY. -/
def forgetTimestamp {E : Type} (cfg : Config) (s : Dsl E) (sender : Nat) : Dsl E :=
  match cfg.cm with
  | .greedy _ => { s with timestamp := Function.update s.timestamp sender 0 }
  | _ => s

def emptyWriteSet {E : Type} (cfg : Config) (s : Dsl E) (sender : Nat) : Dsl E :=
  if cfg.pgas then
    { s with
      writeSets := Function.update s.writeSets sender (writeSetPgasEmpty (s.writeSets sender)) }
  else s

/-- What follows the reply to a refused request. -/
def refuse (cfg : Config) (s : Dsl E) (sender : Nat) : Dsl E :=
  emptyWriteSet cfg (forgetTimestamp cfg { s with ht := tm2cHtDeleteNode s.ht sender } sender)
    sender

/-- `write_set_pgas_insert(PGAS_write_sets[sender], ...)` of a node that lives on. -/
def bufferWrite {E : Type} (s : Dsl E) (sender : Nat) (value : BitVec 64) (address : Nat) :
    Dsl E :=
  { s with
    writeSets := Function.update s.writeSets sender
      (writeSetPgasAppend (s.writeSets sender) value address) }

/-- The width of a load is `num_words`. -/
def readWords (mem : ByteMemory) (numWords : BitVec 64) (address : Nat) : BitVec 64 :=
  if numWords = 1 then pgasDslRead32 mem address else pgasDslRead mem address

def handleLoad (cfg : Config) (s : Dsl E) (sender : Nat) (req : Req) : Dsl E × Option Reply :=
  let (conflict, s') := tryLoad cfg s sender req.address
  let val := if cfg.pgas then readWords s'.mem req.value req.address else 0
  (if conflict ≠ .noConflict then refuse cfg s' sender else s',
    some ⟨.loadResponse, req.address, val, conflict⟩)

def handleStore (cfg : Config) (s : Dsl E) (sender : Nat) (req : Req) : Dsl E × Option Reply :=
  let (conflict, s') := tryStore cfg s sender req.address
  (if conflict ≠ .noConflict then refuse cfg s' sender
    else if cfg.pgas then bufferWrite s' sender req.value req.address
    else s',
    some ⟨.storeResponse, req.address, 0, conflict⟩)

/-- The increment is added to the value in memory, not to a buffered one. -/
def handleStoreInc (cfg : Config) (s : Dsl E) (sender : Nat) (req : Req) :
    Dsl E × Option Reply :=
  let (conflict, s') := tryStore cfg s sender req.address
  (if conflict ≠ .noConflict then refuse cfg s' sender
    else bufferWrite s' sender (pgasDslRead s'.mem req.address + req.value) req.address,
    some ⟨.storeResponse, req.address, 0, conflict⟩)

def handleRmvNode (cfg : Config) (s : Dsl E) (sender : Nat) (req : Req) : Dsl E × Option Reply :=
  let s' :=
    if cfg.pgas ∧ req.value = RESPONSE_NO_CONFLICT then
      { s with mem := writeSetPgasPersist s.mem (s.writeSets sender) }
    else s
  let s' := emptyWriteSet cfg s' sender
  (forgetTimestamp cfg { s' with ht := tm2cHtDeleteNode s'.ht sender } sender, none)

def unknownReply : Reply := ⟨.unknownResponse, 0, 0, .noConflict⟩

/-- One message through the `switch` of `dsl_service`. -/
def dslSwitch (cfg : Config) (s : Dsl E) (sender : Nat) (req : Req) : Dsl E × Option Reply :=
  match req.type with
  | .load => handleLoad cfg s sender req
  | .store => handleStore cfg s sender req
  | .rmvNode => handleRmvNode cfg s sender req
  | .loadRls => ({ s with ht := tm2cHtDelete s.ht sender req.address .read }, none)
  | .storeFinish => ({ s with ht := tm2cHtDelete s.ht sender req.address .write }, none)
  | .storeInc =>
    if cfg.pgas then handleStoreInc cfg s sender req else (s, some unknownReply)
  | .loadNontx =>
    if cfg.pgas then
      (s, some ⟨.loadNontxResponse, req.address, readWords s.mem req.value req.address,
        .noConflict⟩)
    else (s, some unknownReply)
  | .storeNontx =>
    if cfg.pgas then ({ s with mem := pgasDslWrite s.mem req.address req.value }, none)
    else (s, some unknownReply)
  | .unknown => (s, some unknownReply)

def dslService (cfg : Config) (now : Nat) (s : Dsl E) (sender : Nat) (req : Req) :
    Dsl E × Option Reply :=
  dslSwitch cfg { s with timestamp := updateTimestamp cfg now sender req.txMetadata s.timestamp }
    sender req

section Table

variable {E : Type}

@[simp] theorem ht_forgetTimestamp (cfg : Config) (s : Dsl E) (sender : Nat) :
    (forgetTimestamp cfg s sender).ht = s.ht := by
  unfold forgetTimestamp
  split <;> rfl

@[simp] theorem ht_emptyWriteSet (cfg : Config) (s : Dsl E) (sender : Nat) :
    (emptyWriteSet cfg s sender).ht = s.ht := by
  unfold emptyWriteSet
  split <;> rfl

@[simp] theorem ht_bufferWrite (s : Dsl E) (sender : Nat) (value : BitVec 64) (address : Nat) :
    (bufferWrite s sender value address).ht = s.ht := rfl

variable [RwEntry E]

@[simp] theorem ht_refuse (cfg : Config) (s : Dsl E) (sender : Nat) :
    (refuse cfg s sender).ht = tm2cHtDeleteNode s.ht sender := by
  simp only [refuse, ht_emptyWriteSet, ht_forgetTimestamp]

@[simp] theorem ht_handleRmvNode (cfg : Config) (s : Dsl E) (sender : Nat) (req : Req) :
    (handleRmvNode cfg s sender req).1.ht = tm2cHtDeleteNode s.ht sender := by
  simp only [handleRmvNode, ht_forgetTimestamp, ht_emptyWriteSet]
  split <;> rfl

/-- The three requests: an insertion, and the deletion of a refused sender. -/
theorem dslSwitch_insert (cfg : Config) (s : Dsl E) (sender : Nat) {req : Req} {rw : RW}
    (htype : (req.type = .load ∧ rw = .read) ∨ (req.type = .store ∧ rw = .write) ∨
      (req.type = .storeInc ∧ cfg.pgas = true ∧ rw = .write)) :
    ∃ reply, (dslSwitch cfg s sender req).2 = some reply ∧
      reply.response = (tm2cHtInsert cfg s sender req.address rw).1 ∧
      (reply.response ≠ .noConflict → (dslSwitch cfg s sender req).1.ht =
        tm2cHtDeleteNode (tm2cHtInsert cfg s sender req.address rw).2.ht sender) ∧
      (reply.response = .noConflict → (dslSwitch cfg s sender req).1.ht =
        (tm2cHtInsert cfg s sender req.address rw).2.ht) := by
  rcases hr : tm2cHtInsert cfg s sender req.address rw with ⟨conflict, s'⟩
  rcases htype with ⟨htype, rfl⟩ | ⟨htype, rfl⟩ | ⟨htype, hpgas, rfl⟩
  · have htry : tryLoad cfg s sender req.address = (conflict, s') := hr
    simp only [dslSwitch, htype, handleLoad, htry]
    refine ⟨_, rfl, rfl, ?_, ?_⟩
    · intro hno
      rw [if_pos hno, ht_refuse]
    · intro hok
      rw [if_neg (not_not_intro hok)]
  · have htry : tryStore cfg s sender req.address = (conflict, s') := hr
    simp only [dslSwitch, htype, handleStore, htry]
    refine ⟨_, rfl, rfl, ?_, ?_⟩
    · intro hno
      rw [if_pos hno, ht_refuse]
    · intro hok
      rw [if_neg (not_not_intro hok)]
      split <;> rfl
  · have htry : tryStore cfg s sender req.address = (conflict, s') := hr
    simp only [dslSwitch, htype, handleStoreInc, htry, if_pos hpgas]
    refine ⟨_, rfl, rfl, ?_, ?_⟩
    · intro hno
      rw [if_pos hno, ht_refuse]
    · intro hok
      rw [if_neg (not_not_intro hok), ht_bufferWrite]

end Table

/-- What happens at a service node: a message arrives, or an application node
writes its abort flag. -/
inductive DslEvent where
  | message (now sender : Nat) (req : Req)
  | abortFlag (node : Nat) (flag : Conflict)

def dslStep (cfg : Config) (s : Dsl E) : DslEvent → Dsl E × Option Reply
  | .message now sender req => dslService cfg now s sender req
  | .abortFlag node flag =>
    ({ s with abortFlags := Function.update s.abortFlags node flag }, none)

end TM2C
