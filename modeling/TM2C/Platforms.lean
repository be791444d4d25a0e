import TM2C.Insertion

/-!
# The service loops of the platforms

`dsl_service` is written out once for every platform: `src/sys_default.c`,
`src/sys_opteron.c`, `src/sys_xeon.c` and `src/sys_niagara.c`.  The loops are
transcribed here statement by statement, with the reply as an effect beside the
updates of the state, and compared.  A reply has the fields that the platform's
`sys_tm2c_rpc_req_reply` fills in: the one of the Niagara has no address, which no
application node reads, so its replies are compared in the other fields.

The loops send a reply before or after they buffer a write.  That can be told apart only
where the array of the write set is full: the process dies at the insertion, and the loop
that replies first has then granted a write that the others have not.  A full log does not
tell the loops apart, for all of them enter the lock before anything else.  So a statement
may end the turn, and what is compared is the state, if there still is one, and the replies.

Beside this they differ in one thing: only the default loop forgets the timestamp of a
sender whose `STORE_INC` it refuses.

The proof executes each case once (`exec_bind` and its companions turn a statement into a
function).  A write comes to `serveWrite`, which all loops share, and to the order of the
reply, so two loops agree on it if they refuse alike and, where their orders differ, the
node survives (`outcomeOfWrite_serveWrite_iff`).  The first is a matter of the timestamp,
the second of the array.  The other cases are those of `TM2C.DslService`, and so is the
whole default loop of a node that lives on (`after_sysDefaultTurn`).
-/

namespace TM2C

open RwEntry

/-- A `TM2C_RPC_REPLY` with the fields that were filled in. -/
structure RpcReply where
  type : ReplyType
  address : Option Nat
  value : Option (BitVec 64)
  response : Conflict
deriving DecidableEq, Repr

/-- A turn of a service loop: the state, and the replies sent so far. -/
structure Turn (E : Type) where
  dsl : Dsl E
  replies : List RpcReply

/-- A statement has no result where the process writes through a null pointer. -/
abbrev ServiceM (E : Type) := OptionT (StateM (Turn E))

/-- `sys_tm2c_rpc_req_reply` with its arguments `cmd`, `addr`, `value` and `response`. -/
abbrev ReqReply (E : Type) := ReplyType → Nat → BitVec 64 → Conflict → ServiceM E Unit

section Loops

variable {E : Type} [RwEntry E]

/-! ### The replies of the platforms -/

/-- What the four functions have in common: the value is sent only with `PGAS`. -/
def sysTm2cRpcReqReply (cfg : Config) (address : Nat → Option Nat) : ReqReply E :=
  fun cmd addr value response =>
    modifyGet fun t => ((), { t with
      replies := t.replies ++
        [⟨cmd, address addr, if cfg.pgas then some value else none, response⟩] })

/-- `sys_default.c` -/
def sysTm2cRpcReqReplyDefault (cfg : Config) : ReqReply E := sysTm2cRpcReqReply cfg some

/-- `sys_opteron.c` -/
def sysTm2cRpcReqReplyOpteron (cfg : Config) : ReqReply E := sysTm2cRpcReqReply cfg some

/-- `sys_xeon.c` -/
def sysTm2cRpcReqReplyXeon (cfg : Config) : ReqReply E := sysTm2cRpcReqReply cfg some

/-- `sys_niagara.c`, whose `TM2C_RPC_REPLY` has no address. -/
def sysTm2cRpcReqReplyNiagara (cfg : Config) : ReqReply E :=
  sysTm2cRpcReqReply cfg fun _ => none

/-! ### Statements -/

/-- A statement that sends nothing. -/
def update (f : Dsl E → Dsl E) : ServiceM E Unit :=
  modifyGet fun t => ((), { t with dsl := f t.dsl })

/-- An entry that the sender's log has got had room there: `ssht_log_set_entry` doubles the
array of a log from 8 to `2 ^ 31` entries. -/
def LogRoom (before after : Ssht E) (sender : Nat) : Prop :=
  (before.logs sender).length < (after.logs sender).length →
    (before.logs sender).length < 2 ^ 31

instance (before after : Ssht E) (sender : Nat) : Decidable (LogRoom before after sender) :=
  inferInstanceAs (Decidable (_ → _))

/-- An attempt at a lock, at which a sender with a full log kills the service node. -/
def attempt (sender : Nat) (insert : Dsl E → Conflict × Dsl E) : ServiceM E Conflict := do
  let t ← get
  let r := insert t.dsl
  if LogRoom t.dsl.ht r.2.ht sender then
    set { t with dsl := r.2 }
    return r.1
  else failure

def tryLoadM (cfg : Config) (sender address : Nat) : ServiceM E Conflict :=
  attempt sender fun s => tryLoad cfg s sender address

def tryStoreM (cfg : Config) (sender address : Nat) : ServiceM E Conflict :=
  attempt sender fun s => tryStore cfg s sender address

/-- The memory that the loop reads from. -/
def pgasMem : ServiceM E ByteMemory := do
  return (← get).dsl.mem

def deleteNode (sender : Nat) : ServiceM E Unit :=
  update fun s => { s with ht := tm2cHtDeleteNode s.ht sender }

/-- The lines between `#if defined(GREEDY)` and `#endif`. -/
def resetTimestamp (cfg : Config) (sender : Nat) : ServiceM E Unit :=
  update fun s => forgetTimestamp cfg s sender

/-- `write_set_pgas_empty(PGAS_write_sets[sender])` between `#ifdef PGAS` and `#endif`. -/
def emptyWriteSetM (cfg : Config) (sender : Nat) : ServiceM E Unit :=
  update fun s => emptyWriteSet cfg s sender

/-- `write_set_pgas_insert(PGAS_write_sets[sender], value, address)` -/
def insertWrite (sender : Nat) (value : BitVec 64) (address : Nat) : ServiceM E Unit := do
  let t ← get
  match writeSetPgasInsert (t.dsl.writeSets sender) value address with
  | some writeSet =>
    set { t with dsl := { t.dsl with
      writeSets := Function.update t.dsl.writeSets sender writeSet } }
  | none => failure

/-- The two lines of a granted `STORE_INC`. -/
def insertIncrement (sender : Nat) (req : Req) : ServiceM E Unit := do
  let mem ← pgasMem
  insertWrite sender (pgasDslRead mem req.address + req.value) req.address

/-! ### The cases that the loops have in common -/

/-- The lines before the `switch`. -/
def stamp (cfg : Config) (now sender : Nat) (req : Req) : ServiceM E Unit :=
  update fun s => { s with timestamp := updateTimestamp cfg now sender req.txMetadata s.timestamp }

def caseLoad (cfg : Config) (reqReply : ReqReply E) (sender : Nat) (req : Req) :
    ServiceM E Unit := do
  let conflict ← tryLoadM cfg sender req.address
  if cfg.pgas then
    let mem ← pgasMem
    let val := if req.value = 1 then pgasDslRead32 mem req.address else pgasDslRead mem req.address
    reqReply .loadResponse req.address val conflict
  else
    reqReply .loadResponse req.address 0 conflict
  if conflict ≠ .noConflict then
    deleteNode sender
    resetTimestamp cfg sender
    emptyWriteSetM cfg sender

def caseLoadNontx (reqReply : ReqReply E) (req : Req) : ServiceM E Unit := do
  let mem ← pgasMem
  let val := if req.value = 1 then pgasDslRead32 mem req.address else pgasDslRead mem req.address
  reqReply .loadNontxResponse req.address val .noConflict

def caseStoreNontx (req : Req) : ServiceM E Unit :=
  update fun s => { s with mem := pgasDslWrite s.mem req.address req.value }

def caseRmvNode (cfg : Config) (sender : Nat) (req : Req) : ServiceM E Unit := do
  if cfg.pgas then
    if req.value = RESPONSE_NO_CONFLICT then
      update fun s => { s with mem := writeSetPgasPersist s.mem (s.writeSets sender) }
    emptyWriteSetM cfg sender
  deleteNode sender
  resetTimestamp cfg sender

def caseLoadRls (sender : Nat) (req : Req) : ServiceM E Unit :=
  update fun s => { s with ht := tm2cHtDelete s.ht sender req.address .read }

def caseStoreFinish (sender : Nat) (req : Req) : ServiceM E Unit :=
  update fun s => { s with ht := tm2cHtDelete s.ht sender req.address .write }

def caseUnknown (reqReply : ReqReply E) : ServiceM E Unit :=
  reqReply .unknownResponse 0 0 .noConflict

/-- The `switch`, with the two cases in which the loops differ. -/
def switch (cfg : Config) (reqReply : ReqReply E) (sender : Nat) (req : Req)
    (caseStore caseStoreInc : ServiceM E Unit) : ServiceM E Unit :=
  match req.type with
  | .load => caseLoad cfg reqReply sender req
  | .store => caseStore
  | .storeInc => if cfg.pgas then caseStoreInc else caseUnknown reqReply
  | .loadNontx => if cfg.pgas then caseLoadNontx reqReply req else caseUnknown reqReply
  | .storeNontx => if cfg.pgas then caseStoreNontx req else caseUnknown reqReply
  | .rmvNode => caseRmvNode cfg sender req
  | .loadRls => caseLoadRls sender req
  | .storeFinish => caseStoreFinish sender req
  | .unknown => caseUnknown reqReply

/-! ### `STORE` -/

/-- `sys_default.c`, `sys_opteron.c` and `sys_niagara.c` -/
def caseStoreReplyFirst (cfg : Config) (reqReply : ReqReply E) (sender : Nat) (req : Req) :
    ServiceM E Unit := do
  let conflict ← tryStoreM cfg sender req.address
  reqReply .storeResponse req.address 0 conflict
  if conflict ≠ .noConflict then
    deleteNode sender
    resetTimestamp cfg sender
    emptyWriteSetM cfg sender
  else if cfg.pgas then
    insertWrite sender req.value req.address

/-- `sys_xeon.c` -/
def caseStoreInsertFirst (cfg : Config) (reqReply : ReqReply E) (sender : Nat) (req : Req) :
    ServiceM E Unit := do
  let conflict ← tryStoreM cfg sender req.address
  if cfg.pgas then
    if conflict = .noConflict then
      insertWrite sender req.value req.address
  reqReply .storeResponse req.address 0 conflict
  if conflict ≠ .noConflict then
    deleteNode sender
    resetTimestamp cfg sender
    emptyWriteSetM cfg sender

/-! ### `STORE_INC` -/

/-- `sys_default.c` -/
def caseStoreIncDefault (cfg : Config) (reqReply : ReqReply E) (sender : Nat) (req : Req) :
    ServiceM E Unit := do
  let conflict ← tryStoreM cfg sender req.address
  if conflict = .noConflict then
    insertIncrement sender req
  reqReply .storeResponse req.address 0 conflict
  if conflict ≠ .noConflict then
    deleteNode sender
    emptyWriteSetM cfg sender
    resetTimestamp cfg sender

/-- `sys_opteron.c` -/
def caseStoreIncReplyFirst (cfg : Config) (reqReply : ReqReply E) (sender : Nat) (req : Req) :
    ServiceM E Unit := do
  let conflict ← tryStoreM cfg sender req.address
  reqReply .storeResponse req.address 0 conflict
  if conflict = .noConflict then
    insertIncrement sender req
  else
    deleteNode sender
    emptyWriteSetM cfg sender

/-- `sys_xeon.c` and `sys_niagara.c` -/
def caseStoreIncInsertFirst (cfg : Config) (reqReply : ReqReply E) (sender : Nat) (req : Req) :
    ServiceM E Unit := do
  let conflict ← tryStoreM cfg sender req.address
  if conflict = .noConflict then
    insertIncrement sender req
  reqReply .storeResponse req.address 0 conflict
  if conflict ≠ .noConflict then
    deleteNode sender
    emptyWriteSetM cfg sender

/-! ### The four loops -/

def sysDefaultTurn (cfg : Config) (now sender : Nat) (req : Req) : ServiceM E Unit := do
  let reqReply := sysTm2cRpcReqReplyDefault cfg
  stamp cfg now sender req
  switch cfg reqReply sender req (caseStoreReplyFirst cfg reqReply sender req)
    (caseStoreIncDefault cfg reqReply sender req)

def sysOpteronTurn (cfg : Config) (now sender : Nat) (req : Req) : ServiceM E Unit := do
  let reqReply := sysTm2cRpcReqReplyOpteron cfg
  stamp cfg now sender req
  switch cfg reqReply sender req (caseStoreReplyFirst cfg reqReply sender req)
    (caseStoreIncReplyFirst cfg reqReply sender req)

def sysXeonTurn (cfg : Config) (now sender : Nat) (req : Req) : ServiceM E Unit := do
  let reqReply := sysTm2cRpcReqReplyXeon cfg
  stamp cfg now sender req
  switch cfg reqReply sender req (caseStoreInsertFirst cfg reqReply sender req)
    (caseStoreIncInsertFirst cfg reqReply sender req)

def sysNiagaraTurn (cfg : Config) (now sender : Nat) (req : Req) : ServiceM E Unit := do
  let reqReply := sysTm2cRpcReqReplyNiagara cfg
  stamp cfg now sender req
  switch cfg reqReply sender req (caseStoreReplyFirst cfg reqReply sender req)
    (caseStoreIncInsertFirst cfg reqReply sender req)

/-- What a turn leaves: the state of a node that lives on, and the replies. -/
structure Outcome (E : Type) where
  dsl : Option (Dsl E)
  replies : List RpcReply

def exec {α : Type} (turn : ServiceM E α) (t : Turn E) : Option α × Turn E :=
  Id.run (StateT.run (OptionT.run turn) t)

def after (turn : ServiceM E Unit) (s : Dsl E) : Outcome E :=
  let r := exec turn ⟨s, []⟩
  ⟨r.1.map fun _ => r.2.dsl, r.2.replies⟩

/-- The outcome in the fields that the replies of every platform have. -/
def Outcome.withoutAddresses (o : Outcome E) : Outcome E :=
  { o with replies := o.replies.map fun reply => { reply with address := none } }

/-- The four loops handle the message alike. -/
def SameOnAllPlatforms (cfg : Config) (now : Nat) (s : Dsl E) (sender : Nat) (req : Req) : Prop :=
  after (sysOpteronTurn cfg now sender req) s = after (sysDefaultTurn cfg now sender req) s ∧
  after (sysXeonTurn cfg now sender req) s = after (sysDefaultTurn cfg now sender req) s ∧
  after (sysNiagaraTurn cfg now sender req) s =
    (after (sysDefaultTurn cfg now sender req) s).withoutAddresses

/-- Another node has a lock on the address that the sender cannot take away. -/
def LosesStore (cfg : Config) (s : Dsl E) (sender address : Nat) : Prop :=
  ∃ i sl, bucketFind (s.ht.bucket (bucketOf cfg.pgas address)) address = some (i, sl) ∧
    if writer sl.entry ≠ SSHT_NO_WRITER ∧ writer sl.entry ≠ sender then
      ¬ (cfg.cm.isReal = true ∧ Precedes s.timestamp sender (writer sl.entry))
    else
      hasOtherReaders sl.entry sender = true ∧
        ¬ (cfg.cm.isReal = true ∧ ∀ n < cfg.numUes, isReader sl.entry n = true → n ≠ sender →
          Precedes s.timestamp sender n)

/-- A `STORE_INC` under `GREEDY` that is going to be refused, of a sender whose
timestamp, with the one of the message if there was none, is not zero. -/
def LosesStampedIncrement (cfg : Config) (now : Nat) (s : Dsl E) (sender : Nat) (req : Req) :
    Prop :=
  let t := stamped cfg now s sender req
  cfg.pgas = true ∧ req.type = .storeInc ∧ (∃ globalTs, cfg.cm = .greedy globalTs) ∧
    t.timestamp sender ≠ 0 ∧ LosesStore cfg t sender req.address

/-- A write that is going to be granted and that the log has room for, but not the array of
the write set, which is full with a capacity that cannot be doubled. -/
def DiesBuffering (cfg : Config) (now : Nat) (s : Dsl E) (sender : Nat) (req : Req) : Prop :=
  let t := stamped cfg now s sender req
  cfg.pgas = true ∧ (req.type = .store ∨ req.type = .storeInc) ∧
    ¬ LosesStore cfg t sender req.address ∧ (t.ht.logs sender).length < 2 ^ 31 ∧
    writeSetEntry (t.writeSets sender).writeEntries.length (t.writeSets sender).size = none

/-! ### Insertions that are refused -/

theorem tryStore_refused {cfg : Config} {s : Dsl E} {sender address : Nat}
    (h : LosesStore cfg s sender address) :
    (tryStore cfg s sender address).1 ≠ .noConflict ∧ (tryStore cfg s sender address).2 = s := by
  obtain ⟨i, sl, hfind, hloses⟩ := h
  have hstore : tryStore cfg s sender address =
      bucketInsertW cfg s (bucketOf cfg.pgas address) sender address := rfl
  rw [hstore]
  unfold bucketInsertW
  simp only [hfind]
  by_cases hother : writer sl.entry ≠ SSHT_NO_WRITER ∧ writer sl.entry ≠ sender
  · rw [if_pos hother] at hloses ⊢
    by_cases hreal : cfg.cm.isReal = true
    · have hlost : ¬ Precedes s.timestamp sender (writer sl.entry) :=
        fun h => hloses ⟨hreal, h⟩
      rw [if_pos hreal, contentionManagerRawWaw_eq, if_neg hlost]
      exact ⟨(fun hc => by cases hc), rfl⟩
    · rw [if_neg hreal]
      exact ⟨(fun hc => by cases hc), rfl⟩
  · rw [if_neg hother] at hloses ⊢
    obtain ⟨hreaders, hlost⟩ := hloses
    rw [if_pos hreaders]
    by_cases hreal : cfg.cm.isReal = true
    · have hnot : ¬ ∀ n ∈ (List.range cfg.numUes).filter
          fun n => isReader sl.entry n && decide (n ≠ sender), Precedes s.timestamp sender n := by
        intro hall
        refine hlost ⟨hreal, ?_⟩
        intro n hn hread hne
        exact hall n (List.mem_filter.mpr ⟨List.mem_range.mpr hn, by simp [hread, hne]⟩)
      rw [if_pos hreal, contentionManagerWar_eq, if_neg hnot]
      exact ⟨(fun hc => by cases hc), rfl⟩
    · rw [if_neg hreal]
      exact ⟨(fun hc => by cases hc), rfl⟩

theorem tryStore_granted {cfg : Config} {s : Dsl E} {sender address : Nat}
    (h : ¬ LosesStore cfg s sender address) :
    (tryStore cfg s sender address).1 = .noConflict := by
  have hstore : tryStore cfg s sender address =
      bucketInsertW cfg s (bucketOf cfg.pgas address) sender address := rfl
  rw [hstore]
  unfold bucketInsertW
  cases hfind : bucketFind (s.ht.bucket (bucketOf cfg.pgas address)) address with
  | none => rfl
  | some found =>
    obtain ⟨i, sl⟩ := found
    simp only
    by_cases hother : writer sl.entry ≠ SSHT_NO_WRITER ∧ writer sl.entry ≠ sender
    · have hwon : cfg.cm.isReal = true ∧ Precedes s.timestamp sender (writer sl.entry) := by
        by_contra hlost
        exact h ⟨i, sl, hfind, by rwa [if_pos hother]⟩
      rw [if_pos hother, if_pos hwon.1, contentionManagerRawWaw_eq, if_pos hwon.2]
      rfl
    · rw [if_neg hother]
      by_cases hreaders : hasOtherReaders sl.entry sender = true
      · have hwon : cfg.cm.isReal = true ∧ ∀ n < cfg.numUes, isReader sl.entry n = true →
            n ≠ sender → Precedes s.timestamp sender n := by
          by_contra hlost
          exact h ⟨i, sl, hfind, by rw [if_neg hother]; exact ⟨hreaders, hlost⟩⟩
        have hall : ∀ n ∈ (List.range cfg.numUes).filter
            fun n => isReader sl.entry n && decide (n ≠ sender),
            Precedes s.timestamp sender n := by
          intro n hn
          obtain ⟨hlt, hread⟩ := List.mem_filter.mp hn
          rw [Bool.and_eq_true, decide_eq_true_eq] at hread
          exact hwon.2 n (List.mem_range.mp hlt) hread.1 hread.2
        rw [if_pos hreaders, if_pos hwon.1, contentionManagerWar_eq, if_pos hall]
        rfl
      · rw [if_neg hreaders]

/-- A granted write makes an entry in the log, and in the PGAS build it leaves the write set
of its sender alone. -/
theorem tryStore_leaves {cfg : Config} {s : Dsl E} {sender address : Nat}
    (hpgas : cfg.pgas = true) (hgranted : ¬ LosesStore cfg s sender address) :
    ((tryStore cfg s sender address).2.ht.logs sender).length =
      (s.ht.logs sender).length + 1 ∧
    (tryStore cfg s sender address).2.writeSets sender = s.writeSets sender := by
  have hok := tryStore_granted hgranted
  have hstore : tryStore cfg s sender address =
      (insertion cfg s.timestamp s.ht sender address .write).carryOut cfg s sender address .write :=
    tm2cHtInsert_eq cfg s sender address .write
  rw [hstore] at hok ⊢
  cases hinsertion : insertion cfg s.timestamp s.ht sender address .write with
  | refuse conflict =>
    rw [hinsertion] at hok
    exact absurd hok (insertion_refuse_ne hinsertion)
  | grant slot reason victims =>
    obtain ⟨hht, hwriteSet⟩ :=
      foldl_abortDefender_pgas (s := s) hpgas (requester_notMem_victims hinsertion) reason
    refine ⟨?_, hwriteSet⟩
    rw [← hht]
    exact length_logs_enterLock_write _ _ slot

end Loops

/-! ### The turns as functions -/

section Runs

variable {E : Type}

section Statements

variable {α β : Type} (t : Turn E)

@[simp] theorem exec_pure (a : α) : exec (pure a : ServiceM E α) t = (some a, t) := rfl

@[simp] theorem exec_bind (m : ServiceM E α) (f : α → ServiceM E β) :
    exec (m >>= f) t = match exec m t with
      | (some a, t') => exec (f a) t'
      | (none, t') => (none, t') := by
  unfold exec
  rw [OptionT.run_bind, Option.elimM, StateT.run_bind]
  rcases hm : m.run.run t with ⟨a, t'⟩
  cases a with
  | none => rfl
  | some a => rfl

@[simp] theorem exec_sysTm2cRpcReqReply (cfg : Config) (address : Nat → Option Nat)
    (cmd : ReplyType) (addr : Nat) (value : BitVec 64) (response : Conflict) :
    exec (sysTm2cRpcReqReply cfg address cmd addr value response) t =
      (some (), { t with replies := t.replies ++
        [⟨cmd, address addr, if cfg.pgas then some value else none, response⟩] }) := rfl

@[simp] theorem exec_update (f : Dsl E → Dsl E) :
    exec (update f) t = (some (), { t with dsl := f t.dsl }) := rfl

@[simp] theorem exec_pgasMem : exec pgasMem t = (some t.dsl.mem, t) := rfl

@[simp] theorem exec_attempt (sender : Nat) (insert : Dsl E → Conflict × Dsl E) :
    exec (attempt sender insert) t =
      if LogRoom t.dsl.ht (insert t.dsl).2.ht sender then
        (some (insert t.dsl).1, { t with dsl := (insert t.dsl).2 })
      else (none, t) := by
  by_cases hroom : LogRoom t.dsl.ht (insert t.dsl).2.ht sender
  · rw [if_pos hroom]
    have hbody : exec (attempt sender insert) t =
        exec (if LogRoom t.dsl.ht (insert t.dsl).2.ht sender then do
          set { t with dsl := (insert t.dsl).2 }
          return (insert t.dsl).1 else failure) t := rfl
    rw [hbody, if_pos hroom]
    rfl
  · rw [if_neg hroom]
    have hbody : exec (attempt sender insert) t =
        exec (if LogRoom t.dsl.ht (insert t.dsl).2.ht sender then do
          set { t with dsl := (insert t.dsl).2 }
          return (insert t.dsl).1 else failure) t := rfl
    rw [hbody, if_neg hroom]
    rfl

theorem exec_insertWrite (sender : Nat) (value : BitVec 64) (address : Nat) :
    exec (insertWrite sender value address) t =
      match writeSetPgasInsert (t.dsl.writeSets sender) value address with
      | some writeSet => (some (), { t with dsl := { t.dsl with
          writeSets := Function.update t.dsl.writeSets sender writeSet } })
      | none => (none, t) := by
  unfold insertWrite
  cases hinsert : writeSetPgasInsert (t.dsl.writeSets sender) value address with
  | none =>
    have hget : exec (get : ServiceM E (Turn E)) t = (some t, t) := rfl
    simp only [exec_bind, hget, hinsert]
    rfl
  | some writeSet =>
    have hget : exec (get : ServiceM E (Turn E)) t = (some t, t) := rfl
    simp only [exec_bind, hget, hinsert]
    rfl

theorem exec_insertIncrement (sender : Nat) (req : Req) :
    exec (insertIncrement sender req) t =
      exec (insertWrite sender (pgasDslRead t.dsl.mem req.address + req.value) req.address) t := by
  simp only [insertIncrement, exec_bind, exec_pgasMem]

end Statements

variable [RwEntry E]

/-- What becomes of a write: nothing where the log is full, no state but a conflict where the
array of the write set is, and otherwise both. -/
def serveWrite (cfg : Config) (s : Dsl E) (sender address : Nat) (buffers : Bool)
    (value : ByteMemory → BitVec 64) (refused : Dsl E → Dsl E) :
    Option (Option (Dsl E) × Conflict) :=
  let r := tryStore cfg s sender address
  if LogRoom s.ht r.2.ht sender then
    if r.1 ≠ .noConflict then some (some (refused r.2), r.1)
    else if buffers then
      some ((writeSetPgasInsert (r.2.writeSets sender) (value r.2.mem) address).map
        (fun writeSet => { r.2 with
          writeSets := Function.update r.2.writeSets sender writeSet }), .noConflict)
    else some (some r.2, .noConflict)
  else none

/-- The outcome of a write; a loop that replies first has replied before it dies. -/
def outcomeOfWrite (cfg : Config) (address : Nat → Option Nat) (addr : Nat) (replyFirst : Bool) :
    Option (Option (Dsl E) × Conflict) → Outcome E
  | none => ⟨none, []⟩
  | some (dsl, conflict) => ⟨dsl,
      if dsl.isSome ∨ replyFirst then
        [⟨.storeResponse, address addr, if cfg.pgas then some 0 else none, conflict⟩]
      else []⟩

variable (cfg : Config) (address : Nat → Option Nat) (s : Dsl E) (sender : Nat) (req : Req)

theorem after_caseStoreReplyFirst :
    after (caseStoreReplyFirst cfg (sysTm2cRpcReqReply cfg address) sender req) s =
      outcomeOfWrite cfg address req.address true (serveWrite cfg s sender req.address cfg.pgas
        (fun _ => req.value) fun s => refuse cfg s sender) := by
  unfold after caseStoreReplyFirst tryStoreM serveWrite
  by_cases hlog : LogRoom s.ht (tryStore cfg s sender req.address).2.ht sender
  · by_cases hc : (tryStore cfg s sender req.address).1 = .noConflict
    · by_cases hpgas : cfg.pgas = true
      · cases hinsert : writeSetPgasInsert ((tryStore cfg s sender req.address).2.writeSets sender)
          req.value req.address <;>
          simp [hlog, hc, hpgas, exec_insertWrite, hinsert, outcomeOfWrite]
      · simp [hlog, hc, hpgas, outcomeOfWrite]
    · simp [hlog, hc, outcomeOfWrite, deleteNode, resetTimestamp, emptyWriteSetM, refuse]
  · simp [hlog, outcomeOfWrite]

theorem after_caseStoreInsertFirst :
    after (caseStoreInsertFirst cfg (sysTm2cRpcReqReply cfg address) sender req) s =
      outcomeOfWrite cfg address req.address false (serveWrite cfg s sender req.address cfg.pgas
        (fun _ => req.value) fun s => refuse cfg s sender) := by
  unfold after caseStoreInsertFirst tryStoreM serveWrite
  by_cases hlog : LogRoom s.ht (tryStore cfg s sender req.address).2.ht sender
  · by_cases hc : (tryStore cfg s sender req.address).1 = .noConflict
    · by_cases hpgas : cfg.pgas = true
      · cases hinsert : writeSetPgasInsert ((tryStore cfg s sender req.address).2.writeSets sender)
          req.value req.address <;>
          simp [hlog, hc, hpgas, exec_insertWrite, hinsert, outcomeOfWrite]
      · simp [hlog, hc, hpgas, outcomeOfWrite]
    · by_cases hpgas : cfg.pgas = true <;>
        simp [hlog, hc, hpgas, outcomeOfWrite, deleteNode, resetTimestamp, emptyWriteSetM, refuse]
  · simp [hlog, outcomeOfWrite]

/-- A refused `STORE_INC` outside of `sys_default.c`. -/
def refuseKeepingTimestamp (cfg : Config) (s : Dsl E) (sender : Nat) : Dsl E :=
  emptyWriteSet cfg { s with ht := tm2cHtDeleteNode s.ht sender } sender

theorem after_caseStoreIncReplyFirst :
    after (caseStoreIncReplyFirst cfg (sysTm2cRpcReqReply cfg address) sender req) s =
      outcomeOfWrite cfg address req.address true (serveWrite cfg s sender req.address true
        (fun mem => pgasDslRead mem req.address + req.value)
        fun s => refuseKeepingTimestamp cfg s sender) := by
  unfold after caseStoreIncReplyFirst tryStoreM serveWrite
  by_cases hlog : LogRoom s.ht (tryStore cfg s sender req.address).2.ht sender
  · by_cases hc : (tryStore cfg s sender req.address).1 = .noConflict
    · cases hinsert : writeSetPgasInsert ((tryStore cfg s sender req.address).2.writeSets sender)
        (pgasDslRead (tryStore cfg s sender req.address).2.mem req.address + req.value)
        req.address <;>
        simp [hlog, hc, exec_insertIncrement, exec_insertWrite, hinsert, outcomeOfWrite]
    · simp [hlog, hc, outcomeOfWrite, deleteNode, emptyWriteSetM, refuseKeepingTimestamp]
  · simp [hlog, outcomeOfWrite]

theorem after_caseStoreIncInsertFirst :
    after (caseStoreIncInsertFirst cfg (sysTm2cRpcReqReply cfg address) sender req) s =
      outcomeOfWrite cfg address req.address false (serveWrite cfg s sender req.address true
        (fun mem => pgasDslRead mem req.address + req.value)
        fun s => refuseKeepingTimestamp cfg s sender) := by
  unfold after caseStoreIncInsertFirst tryStoreM serveWrite
  by_cases hlog : LogRoom s.ht (tryStore cfg s sender req.address).2.ht sender
  · by_cases hc : (tryStore cfg s sender req.address).1 = .noConflict
    · cases hinsert : writeSetPgasInsert ((tryStore cfg s sender req.address).2.writeSets sender)
        (pgasDslRead (tryStore cfg s sender req.address).2.mem req.address + req.value)
        req.address <;>
        simp [hlog, hc, exec_insertIncrement, exec_insertWrite, hinsert, outcomeOfWrite]
    · simp [hlog, hc, outcomeOfWrite, deleteNode, emptyWriteSetM, refuseKeepingTimestamp]
  · simp [hlog, outcomeOfWrite]

omit [RwEntry E] in
theorem forgetTimestamp_emptyWriteSet :
    forgetTimestamp cfg (emptyWriteSet cfg s sender) sender =
      emptyWriteSet cfg (forgetTimestamp cfg s sender) sender := by
  unfold forgetTimestamp emptyWriteSet
  split <;> split <;> rfl

theorem after_caseStoreIncDefault :
    after (caseStoreIncDefault cfg (sysTm2cRpcReqReply cfg address) sender req) s =
      outcomeOfWrite cfg address req.address false (serveWrite cfg s sender req.address true
        (fun mem => pgasDslRead mem req.address + req.value) fun s => refuse cfg s sender) := by
  unfold after caseStoreIncDefault tryStoreM serveWrite
  by_cases hlog : LogRoom s.ht (tryStore cfg s sender req.address).2.ht sender
  · by_cases hc : (tryStore cfg s sender req.address).1 = .noConflict
    · cases hinsert : writeSetPgasInsert ((tryStore cfg s sender req.address).2.writeSets sender)
        (pgasDslRead (tryStore cfg s sender req.address).2.mem req.address + req.value)
        req.address <;>
        simp [hlog, hc, exec_insertIncrement, exec_insertWrite, hinsert, outcomeOfWrite]
    · simp [hlog, hc, outcomeOfWrite, deleteNode, emptyWriteSetM, resetTimestamp, refuse,
        forgetTimestamp_emptyWriteSet]
  · simp [hlog, outcomeOfWrite]

/-- The result of a handler as an outcome. -/
def answered (cfg : Config) (address : Nat → Option Nat) (r : Dsl E × Option Reply) : Outcome E :=
  ⟨some r.1, (r.2.map fun reply => ⟨reply.type, address reply.address,
    if cfg.pgas then some reply.value else none, reply.response⟩).toList⟩

theorem after_caseLoad :
    after (caseLoad cfg (sysTm2cRpcReqReply cfg address) sender req) s =
      if LogRoom s.ht (tryLoad cfg s sender req.address).2.ht sender then
        answered cfg address (handleLoad cfg s sender req)
      else ⟨none, []⟩ := by
  unfold after caseLoad tryLoadM
  by_cases hlog : LogRoom s.ht (tryLoad cfg s sender req.address).2.ht sender
  · by_cases hpgas : cfg.pgas = true <;>
      by_cases hc : (tryLoad cfg s sender req.address).1 = .noConflict <;>
      simp [handleLoad, hlog, answered, hpgas, hc, readWords, deleteNode, resetTimestamp,
        emptyWriteSetM, refuse]
  · simp [hlog]

omit [RwEntry E] in
theorem after_stamp (now : Nat) (turn : ServiceM E Unit) :
    after (do stamp cfg now sender req; turn) s = after turn (stamped cfg now s sender req) := by
  unfold after stamp
  rw [exec_bind, exec_update]
  rfl

theorem after_caseRmvNode :
    after (caseRmvNode cfg sender req) s =
      answered cfg address (handleRmvNode cfg s sender req) := by
  by_cases hpgas : cfg.pgas = true <;> by_cases hvalue : req.value = RESPONSE_NO_CONFLICT <;>
    simp [after, caseRmvNode, handleRmvNode, answered, hpgas, hvalue, deleteNode, resetTimestamp,
      emptyWriteSetM, emptyWriteSet]

/-- The cases of the `switch` in which the loops do not differ are `dslSwitch`. -/
theorem after_switch (caseStore caseStoreInc : ServiceM E Unit) :
    after (switch cfg (sysTm2cRpcReqReply cfg address) sender req caseStore caseStoreInc) s =
      if req.type = .store then after caseStore s
      else if cfg.pgas = true ∧ req.type = .storeInc then after caseStoreInc s
      else if req.type = .load ∧
          ¬ LogRoom s.ht (tryLoad cfg s sender req.address).2.ht sender then ⟨none, []⟩
      else answered cfg address (dslSwitch cfg s sender req) := by
  unfold switch dslSwitch
  cases htype : req.type with
  | load =>
    by_cases hlog : LogRoom s.ht (tryLoad cfg s sender req.address).2.ht sender <;>
      simp [after_caseLoad, hlog]
  | store => simp
  | rmvNode => simpa using after_caseRmvNode cfg address s sender req
  | loadRls => simp [after, caseLoadRls, answered]
  | storeFinish => simp [after, caseStoreFinish, answered]
  | unknown => simp [after, caseUnknown, answered, unknownReply]
  | storeInc =>
    by_cases hpgas : cfg.pgas = true
    · simp [hpgas]
    · simp [hpgas, after, caseUnknown, answered, unknownReply]
  | loadNontx =>
    by_cases hpgas : cfg.pgas = true
    · simp [hpgas, after, caseLoadNontx, answered, readWords]
    · simp [hpgas, after, caseUnknown, answered, unknownReply]
  | storeNontx =>
    by_cases hpgas : cfg.pgas = true
    · simp [hpgas, after, caseStoreNontx, answered]
    · simp [hpgas, after, caseUnknown, answered, unknownReply]

/-! ### Outcomes that agree -/

omit [RwEntry E] in
theorem withoutAddresses_answered (r : Dsl E × Option Reply) :
    (answered cfg some r).withoutAddresses = answered cfg (fun _ => none) r := by
  obtain ⟨dsl, reply⟩ := r
  cases reply <;> rfl

omit [RwEntry E] in
theorem withoutAddresses_outcomeOfWrite (addr : Nat) (replyFirst : Bool)
    (r : Option (Option (Dsl E) × Conflict)) :
    (outcomeOfWrite cfg some addr replyFirst r).withoutAddresses =
      outcomeOfWrite cfg (fun _ => none) addr replyFirst r := by
  unfold Outcome.withoutAddresses outcomeOfWrite
  cases r with
  | none => rfl
  | some r =>
    simp only
    split <;> rfl

/-- Two loops serve a write alike if they agree on a refusal and, where one of them replies
before it buffers and the other does not, the node lives on. -/
theorem outcomeOfWrite_serveWrite_iff (addr : Nat) (buffers first first' : Bool)
    (value : ByteMemory → BitVec 64) (refused refused' : Dsl E → Dsl E) :
    outcomeOfWrite cfg address addr first (serveWrite cfg s sender addr buffers value refused) =
        outcomeOfWrite cfg address addr first'
          (serveWrite cfg s sender addr buffers value refused') ↔
      (LosesStore cfg s sender addr → refused s = refused' s) ∧
      (first ≠ first' →
        ∀ c, serveWrite cfg s sender addr buffers value refused ≠ some (none, c)) := by
  by_cases hloses : LosesStore cfg s sender addr
  · obtain ⟨hno, hsame⟩ := tryStore_refused hloses
    have hroom : LogRoom s.ht s.ht sender := fun hlt => absurd hlt (Nat.lt_irrefl _)
    have hserve : ∀ refused : Dsl E → Dsl E,
        serveWrite cfg s sender addr buffers value refused =
          some (some (refused s), (tryStore cfg s sender addr).1) := by
      intro refused
      simp only [serveWrite, hsame, if_pos hroom, if_pos hno]
    rw [hserve, hserve]
    simp [outcomeOfWrite, hloses]
  · have hok := tryStore_granted hloses
    have hserve : serveWrite cfg s sender addr buffers value refused' =
        serveWrite cfg s sender addr buffers value refused := by
      simp only [serveWrite, hok, ne_eq, not_true_eq_false, if_false]
    rw [hserve]
    simp only [hloses, false_implies, true_and]
    rcases serveWrite cfg s sender addr buffers value refused with _ | ⟨_ | dsl, c⟩
    · simp [outcomeOfWrite]
    · cases first <;> cases first' <;> simp [outcomeOfWrite]
    · simp [outcomeOfWrite]

/-- Between a granted write and its insertion only a full array kills the node. -/
theorem serveWrite_survives_iff (hpgas : cfg.pgas = true) {buffers : Bool}
    (hbuffers : buffers = true) (addr : Nat) (value : ByteMemory → BitVec 64)
    (refused : Dsl E → Dsl E) :
    (∀ c, serveWrite cfg s sender addr buffers value refused ≠ some (none, c)) ↔
      ¬ (¬ LosesStore cfg s sender addr ∧ (s.ht.logs sender).length < 2 ^ 31 ∧
        writeSetEntry (s.writeSets sender).writeEntries.length (s.writeSets sender).size =
          none) := by
  unfold serveWrite
  by_cases hloses : LosesStore cfg s sender addr
  · obtain ⟨hno, -⟩ := tryStore_refused hloses
    simp only [if_pos hno, hloses, not_true_eq_false, false_and, not_false_eq_true, iff_true]
    intro c hc
    split at hc <;> cases hc
  · have hok := tryStore_granted hloses
    obtain ⟨hlog, hwriteSet⟩ := tryStore_leaves hpgas hloses
    have hroom : LogRoom s.ht (tryStore cfg s sender addr).2.ht sender ↔
        (s.ht.logs sender).length < 2 ^ 31 := by
      unfold LogRoom
      rw [hlog]
      exact ⟨fun h => h (Nat.lt_succ_self _), fun h _ => h⟩
    simp only [hok, ne_eq, not_true_eq_false, if_false, hbuffers, if_true, hwriteSet, hroom,
      hloses, not_false_eq_true, true_and]
    by_cases hlt : (s.ht.logs sender).length < 2 ^ 31
    · simp only [hlt, true_and]
      simp [writeSetPgasInsert]
    · simp only [hlt, false_and, not_false_eq_true, iff_true]
      intro c hc
      cases hc

/-- A write that the node survives is the one of the handlers. -/
theorem serveWrite_eq {s : Dsl E} {sender addr : Nat} {buffers : Bool}
    {value : ByteMemory → BitVec 64} {refused : Dsl E → Dsl E} {t : Dsl E} {conflict : Conflict}
    (hbuffers : buffers = true → cfg.pgas = true)
    (hroom : Room (s.writeSets sender).writeEntries.length (s.writeSets sender).size)
    (h : serveWrite cfg s sender addr buffers value refused = some (some t, conflict)) :
    conflict = (tryStore cfg s sender addr).1 ∧
    t = if (tryStore cfg s sender addr).1 ≠ .noConflict then refused (tryStore cfg s sender addr).2
      else if buffers then bufferWrite (tryStore cfg s sender addr).2 sender
        (value (tryStore cfg s sender addr).2.mem) addr
      else (tryStore cfg s sender addr).2 := by
  by_cases hloses : LosesStore cfg s sender addr
  · obtain ⟨hno, -⟩ := tryStore_refused hloses
    simp only [serveWrite, if_pos hno] at h
    split at h
    · cases h
      exact ⟨rfl, (if_pos hno).symm⟩
    · cases h
  · have hok := tryStore_granted hloses
    simp only [serveWrite, hok, ne_eq, not_true_eq_false, if_false] at h ⊢
    split at h
    · by_cases hbuf : buffers = true
      · rw [if_pos hbuf] at h ⊢
        obtain ⟨hmap, rfl⟩ := Prod.mk.inj (Option.some.inj h)
        obtain ⟨writeSet, hinsert, rfl⟩ := Option.map_eq_some_iff.mp hmap
        -- the array could grow, so it is the one that `bufferWrite` leaves
        rw [(tryStore_leaves (hbuffers hbuf) hloses).2] at hinsert
        have hsome : (writeSetEntry (s.writeSets sender).writeEntries.length
            (s.writeSets sender).size).isSome = true := by
          rw [writeSetPgasInsert, Option.map_eq_some_iff] at hinsert
          obtain ⟨size, hsize, -⟩ := hinsert
          rw [hsize]
          rfl
        have happend := (hroom.writeSetPgasInsert (hroom.writeSetEntry_isSome_iff.mp hsome)
          (value (tryStore cfg s sender addr).2.mem) addr).1
        rw [happend] at hinsert
        cases hinsert
        rw [bufferWrite, (tryStore_leaves (hbuffers hbuf) hloses).2]
        exact ⟨rfl, rfl⟩
      · rw [if_neg hbuf] at h ⊢
        cases h
        exact ⟨rfl, rfl⟩
    · cases h

/-- The default loop is the one that the other modules are about. -/
theorem after_sysDefaultTurn {now : Nat}
    (hroom : Room (s.writeSets sender).writeEntries.length (s.writeSets sender).size)
    (hlives : (after (sysDefaultTurn cfg now sender req) s).dsl.isSome = true) :
    after (sysDefaultTurn cfg now sender req) s =
      answered cfg some (dslService cfg now s sender req) := by
  have hservice : dslService cfg now s sender req =
      dslSwitch cfg (stamped cfg now s sender req) sender req := rfl
  replace hroom : Room ((stamped cfg now s sender req).writeSets sender).writeEntries.length
    ((stamped cfg now s sender req).writeSets sender).size := hroom
  rw [hservice]
  unfold sysDefaultTurn sysTm2cRpcReqReplyDefault at hlives ⊢
  simp only [after_stamp, after_switch] at hlives ⊢
  generalize stamped cfg now s sender req = t at hroom hlives ⊢
  by_cases hstore : req.type = .store
  · simp only [if_pos hstore, after_caseStoreReplyFirst] at hlives ⊢
    rcases hserve : serveWrite cfg t sender req.address cfg.pgas (fun _ => req.value)
      (fun s => refuse cfg s sender) with _ | ⟨_ | t', conflict⟩
    · rw [hserve] at hlives
      cases hlives
    · rw [hserve] at hlives
      cases hlives
    · obtain ⟨rfl, rfl⟩ := serveWrite_eq cfg (fun h => h) hroom hserve
      simp [outcomeOfWrite, answered, dslSwitch, hstore, handleStore]
  · by_cases hinc : cfg.pgas = true ∧ req.type = .storeInc
    · simp only [if_neg hstore, if_pos hinc, after_caseStoreIncDefault] at hlives ⊢
      rcases hserve : serveWrite cfg t sender req.address true
        (fun mem => pgasDslRead mem req.address + req.value)
        (fun s => refuse cfg s sender) with _ | ⟨_ | t', conflict⟩
      · rw [hserve] at hlives
        cases hlives
      · rw [hserve] at hlives
        cases hlives
      · obtain ⟨rfl, rfl⟩ := serveWrite_eq cfg (fun _ => hinc.1) hroom hserve
        simp [outcomeOfWrite, answered, dslSwitch, hinc, handleStoreInc]
    · simp only [if_neg hstore, if_neg hinc] at hlives ⊢
      by_cases hload : req.type = .load ∧
          ¬ LogRoom t.ht (tryLoad cfg t sender req.address).2.ht sender
      · rw [if_pos hload] at hlives
        cases hlives
      · rw [if_neg hload]

/-- A refused increment keeps the timestamp on the other platforms. -/
theorem refuseKeepingTimestamp_eq_iff :
    refuseKeepingTimestamp cfg s sender = refuse cfg s sender ↔
      ¬ ((∃ globalTs, cfg.cm = .greedy globalTs) ∧ s.timestamp sender ≠ 0) := by
  unfold refuseKeepingTimestamp refuse
  constructor
  · rintro heq ⟨⟨globalTs, hgreedy⟩, hts⟩
    have htimestamp := congrArg (fun s => s.timestamp sender) heq
    simp only [emptyWriteSet, forgetTimestamp, hgreedy] at htimestamp
    split at htimestamp <;> simp at htimestamp <;> exact hts htimestamp
  · intro hnot
    congr 1
    unfold forgetTimestamp
    split
    · rename_i globalTs hgreedy
      have hzero : s.timestamp sender = 0 := by
        by_contra hts
        exact hnot ⟨⟨globalTs, hgreedy⟩, hts⟩
      simp only [← hzero, Function.update_eq_self]
    · rfl

end Runs

section Comparison

variable {E : Type} [RwEntry E]

/-- **The platforms agree except on refused increments and at a full write set.**  The default
loop forgets the timestamp of a sender whose `STORE_INC` it refuses, and no other loop does. -/
theorem sameOnAllPlatforms_iff (cfg : Config) (now : Nat) (s : Dsl E) (sender : Nat) (req : Req) :
    SameOnAllPlatforms cfg now s sender req ↔
      ¬ LosesStampedIncrement cfg now s sender req ∧ ¬ DiesBuffering cfg now s sender req := by
  unfold SameOnAllPlatforms LosesStampedIncrement DiesBuffering
  unfold sysOpteronTurn sysXeonTurn sysNiagaraTurn sysDefaultTurn
  unfold sysTm2cRpcReqReplyOpteron sysTm2cRpcReqReplyXeon sysTm2cRpcReqReplyNiagara
    sysTm2cRpcReqReplyDefault
  simp only [after_stamp, after_switch]
  generalize stamped cfg now s sender req = t
  by_cases hstore : req.type = .store
  · -- only the loop of the Xeon buffers before it replies
    simp only [if_pos hstore, after_caseStoreReplyFirst, after_caseStoreInsertFirst,
      withoutAddresses_outcomeOfWrite, outcomeOfWrite_serveWrite_iff]
    have hnotInc : ¬ req.type = .storeInc := by
      rw [hstore]
      exact fun hc => by cases hc
    by_cases hpgas : cfg.pgas = true
    · simp only [serveWrite_survives_iff _ _ _ hpgas hpgas]
      tauto
    · have hlives : ∀ c, serveWrite cfg t sender req.address cfg.pgas (fun _ => req.value)
          (fun s => refuse cfg s sender) ≠ some (none, c) := by
        intro c hc
        simp only [serveWrite, hpgas] at hc
        split at hc
        · split at hc <;> cases hc
        · cases hc
      tauto
  · by_cases hinc : cfg.pgas = true ∧ req.type = .storeInc
    · -- only the loop of the Opteron replies before it buffers
      simp only [if_neg hstore, if_pos hinc, after_caseStoreIncReplyFirst,
        after_caseStoreIncInsertFirst, after_caseStoreIncDefault, withoutAddresses_outcomeOfWrite,
        outcomeOfWrite_serveWrite_iff, refuseKeepingTimestamp_eq_iff,
        serveWrite_survives_iff _ _ _ hinc.1 rfl]
      constructor
      · rintro ⟨⟨htimestamp, hroom⟩, -⟩
        refine ⟨?_, ?_⟩
        · rintro ⟨-, -, hgreedy, hts, hloses⟩
          exact htimestamp hloses ⟨hgreedy, hts⟩
        · rintro ⟨-, -, hdies⟩
          exact hroom (fun heq => by cases heq) hdies
      · rintro ⟨hstamped, hdies⟩
        have htimestamp : LosesStore cfg t sender req.address →
            ¬ ((∃ globalTs, cfg.cm = .greedy globalTs) ∧ t.timestamp sender ≠ 0) := by
          rintro hloses ⟨hgreedy, hts⟩
          exact hstamped ⟨hinc.1, hinc.2, hgreedy, hts, hloses⟩
        refine ⟨⟨htimestamp, ?_⟩, ⟨htimestamp, ?_⟩, htimestamp, ?_⟩
        · exact fun _ hd => hdies ⟨hinc.1, Or.inr hinc.2, hd⟩
        · exact fun hne => absurd rfl hne
        · exact fun hne => absurd rfl hne
    · have hnotWrite : ¬ (cfg.pgas = true ∧ (req.type = .store ∨ req.type = .storeInc)) :=
        fun hc => hinc ⟨hc.1, hc.2.resolve_left hstore⟩
      simp only [if_neg hstore, if_neg hinc, true_and]
      have haddresses : (if req.type = .load ∧
            ¬ LogRoom t.ht (tryLoad cfg t sender req.address).2.ht sender then
            (⟨none, []⟩ : Outcome E)
          else answered cfg some (dslSwitch cfg t sender req)).withoutAddresses =
          if req.type = .load ∧
            ¬ LogRoom t.ht (tryLoad cfg t sender req.address).2.ht sender then ⟨none, []⟩
          else answered cfg (fun _ => none) (dslSwitch cfg t sender req) := by
        split
        · rfl
        · exact withoutAddresses_answered cfg _
      rw [haddresses]
      tauto

end Comparison

/-- Node 1 has stored to address 64 with timestamp 3. -/
def lockedByOne : Dsl ByteEntry :=
  (dslService ⟨.greedy true, true, true, 4⟩ 0 dslInit 1
    { type := .store, address := 64, value := 5, txMetadata := 3 }).1

/-- Node 2 loses a `STORE_INC` there with timestamp 7, which the default platform
forgets and the others keep. -/
theorem refused_increment_differs :
    ¬ SameOnAllPlatforms ⟨.greedy true, true, true, 4⟩ 0 lockedByOne 2
        { type := .storeInc, address := 64, value := 1, txMetadata := 7 } ∧
    ((after (sysDefaultTurn ⟨.greedy true, true, true, 4⟩ 0 2
      { type := .storeInc, address := 64, value := 1, txMetadata := 7 })
        lockedByOne).dsl.map fun s => s.timestamp 2) = some 0 ∧
    ((after (sysOpteronTurn ⟨.greedy true, true, true, 4⟩ 0 2
      { type := .storeInc, address := 64, value := 1, txMetadata := 7 })
        lockedByOne).dsl.map fun s => s.timestamp 2) = some 7 := by
  have hdefault : ((after (sysDefaultTurn ⟨.greedy true, true, true, 4⟩ 0 2
      { type := .storeInc, address := 64, value := 1, txMetadata := 7 })
        lockedByOne).dsl.map fun s => s.timestamp 2) = some 0 := by
    decide +kernel
  have hopteron : ((after (sysOpteronTurn ⟨.greedy true, true, true, 4⟩ 0 2
      { type := .storeInc, address := 64, value := 1, txMetadata := 7 })
        lockedByOne).dsl.map fun s => s.timestamp 2) = some 7 := by
    decide +kernel
  refine ⟨?_, hdefault, hopteron⟩
  rintro ⟨hsame, -⟩
  rw [hsame, hdefault] at hopteron
  exact absurd hopteron (by decide)

end TM2C
