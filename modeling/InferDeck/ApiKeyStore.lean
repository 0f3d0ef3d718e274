import InferDeck.Credentials
import InferDeck.FiniteMap
import InferDeck.Foundation
import InferDeck.Transaction

/-!
# The store of API keys and the background lease

The store keeps the keys and the one background lease in a database and the active keys in memory.
An operation takes the store's mutex, so that it is one step. Every statement is prepared and
stepped, and either may fail. Texts are bound and read as C strings.
-/

namespace InferDeck.Gateway

open Foundation Transaction Program

structure Hash where
  bytes : List UInt8
  size : bytes.length = 32
  deriving DecidableEq

structure ApiKeyRecord where
  id : Text
  name : Text
  keyPrefix : Text
  priority : ℤ
  createdAt : ℤ
  updatedAt : ℤ
  revokedAt : Option ℤ := none
  deriving DecidableEq

structure CreatedApiKey where
  record : ApiKeyRecord
  key : Text
  deriving DecidableEq

structure AuthenticatedApiKey where
  id : Text
  name : Text
  priority : ℤ
  deriving DecidableEq

structure ActiveApiKey where
  record : ApiKeyRecord
  hash : Hash
  deriving DecidableEq

structure ApiKeyRow where
  record : ApiKeyRecord
  secretHash : List UInt8
  deriving DecidableEq

structure BackgroundLeaseRecord where
  id : Text
  ownerKeyId : Text
  acquiredAt : ℤ
  expiresAt : ℤ
  deriving DecidableEq

inductive BackgroundLeaseAcquireState where
  | acquired
  | existing
  | occupied
  deriving DecidableEq

structure BackgroundLeaseAcquireResult where
  state : BackgroundLeaseAcquireState
  lease : BackgroundLeaseRecord
  deriving DecidableEq

/-- The rows of `background_leases` all have the same primary key. -/
structure Database where
  keys : Map Text ApiKeyRow := ∅
  leases : List BackgroundLeaseRecord := []
  deriving DecidableEq

structure ApiKeyStore where
  database : Database := {}
  healthy : Bool := true
  active : Map Text ActiveApiKey := ∅
  deriving DecidableEq

def validName (name : Text) : Bool :=
  !name.isEmpty && decide (name.length ≤ 80) &&
    name.all (fun c => decide (0x20 ≤ c.toNat) && decide (c.toNat ≠ 0x7f)) &&
    name.any fun c => !(c == ' ' || (decide (9 ≤ c.toNat) && decide (c.toNat ≤ 13)))

def validPriority (priority : ℤ) : Bool := decide (-100 ≤ priority) && decide (priority ≤ 100)

/-- What a text that is handed over as a C string arrives as. -/
def cString (text : Text) : Text := text.takeWhile fun c => c ≠ '\x00'

def ioError (message : String) : String → Error := fun _ => { code := .ioError, message }

def sqliteFailure (operation : String) : String → Error := fun fault =>
  { code := .ioError, message := operation ++ ": " ++ fault }

def unavailable : Error := { code := .unavailable, message := "API key store is unavailable" }

/-- A statement is prepared and then stepped to its end. -/
def statement {α : Type} (prepareFailed stepFailed : String → Error)
    (f : Database → α × Database) : Program Database Error α := do
  attempt prepareFailed
  call stepFailed f

namespace Database

variable (db : Database)

/-- `INSERT INTO api_keys`: whether the constraints of the table admit the row. -/
def insertKey (row : ApiKeyRow) : Bool × Database :=
  if db.keys.contains row.record.id || !validPriority row.record.priority then (false, db)
  else (true, { db with keys := db.keys.insert row.record.id row })

/-- `UPDATE api_keys` of a key that is not revoked, and the number of rows. -/
def updateKey (id : Text) (f : ApiKeyRecord → ApiKeyRecord) : ℕ × Database :=
  match db.keys.lookup id with
  | some row =>
      if row.record.revokedAt.isSome then (0, db)
      else (1, { db with keys := db.keys.insert id { row with record := f row.record } })
  | none => (0, db)

def deleteLeases (p : BackgroundLeaseRecord → Bool) : Database :=
  { db with leases := db.leases.filter fun lease => !p lease }

/-- `INSERT INTO background_leases`: the primary key and the foreign key are checked. -/
def insertLease (lease : BackgroundLeaseRecord) : Bool × Database :=
  if !db.leases.isEmpty || !db.keys.contains lease.ownerKeyId then (false, db)
  else (true, { db with leases := [lease] })

def updateLeases (p : BackgroundLeaseRecord → Bool) (expiresAt : ℤ) : ℕ × Database :=
  (db.leases.countP p,
    { db with leases := db.leases.map fun lease => if p lease then { lease with expiresAt } else lease })

end Database

def readActiveBackgroundLease (now : ℤ) : Program Database Error (Option BackgroundLeaseRecord) := do
  statement (ioError "cannot prepare expired background lease cleanup")
    (ioError "cannot remove expired background lease")
    fun db => ((), db.deleteLeases fun lease => decide (lease.expiresAt ≤ now))
  statement (ioError "cannot inspect background lease") (ioError "cannot read background lease")
    fun db => (db.leases.head?, db)

def int64Max : ℤ := 9223372036854775807

def validLeaseWindow (now duration : ℤ) : Bool :=
  decide (0 ≤ now) && decide (0 < duration) && decide (now ≤ int64Max - duration)

/-- `load_active`, or nothing where a row has no digest of 32 bytes. -/
def loadActive (rows : List ApiKeyRow) : Option (Map Text ActiveApiKey) :=
  match rows with
  | [] => some ∅
  | row :: rows =>
      if row.record.revokedAt.isSome then loadActive rows
      else if h : row.secretHash.length = 32 then
        (loadActive rows).map fun active =>
          active.insert (cString row.record.id)
            { record := { row.record with
                id := cString row.record.id
                name := cString row.record.name
                keyPrefix := cString row.record.keyPrefix }
              hash := ⟨row.secretHash, h⟩ }
      else none

namespace ApiKeyStore

/-- Random bytes of one attempt to create a key, and the time. -/
structure Attempt where
  identifier : List UInt8
  secret : List UInt8
  now : ℤ
  identifierSize : identifier.length = 16
  secretSize : secret.length = 32

def onDatabase {α : Type} (p : Program Database Error α) : Program ApiKeyStore Error α :=
  zoom ApiKeyStore.database (fun store database => { store with database }) p

def randomFailed : String → Error := fun _ =>
  { code := .internal, message := "cannot generate API key material" }

/-- The constructor opens the database, creates the tables where there are none and loads the keys. -/
def openDatabase : Program Database Error (Map Text ActiveApiKey) := do
  attempt (ioError "sqlite3_open_v2")
  attempt (ioError "schema")
  let rows ← statement (ioError "load_active") (ioError "load_active")
    fun db => (db.keys.values, db)
  match loadActive rows with
  | some active => return active
  | none => fail { code := .ioError, message := "load_active" }

/-- The constructor on the database of a store that was closed. -/
def reopen (store : ApiKeyStore) (faults : Faults) : ApiKeyStore :=
  match openDatabase store.database faults with
  | (.ok active, database, _) => { database, healthy := true, active }
  | (.error _, database, _) => { database, healthy := false, active := ∅ }

section Keys

variable (sha256 : Text → Result Hash)

/-- One attempt of `create`: nothing where the identifier is taken. -/
def createAttempt (name : Text) (priority : ℤ) (random : Attempt) :
    Program ApiKeyStore Error (Option CreatedApiKey) := do
  attempt randomFailed
  attempt randomFailed
  let identifier := hexEncode random.identifier
  let key := keyText identifier (base64urlEncode random.secret)
  match sha256 key with
  | .error error => fail { code := error.code, message := error.message }
  | .ok digest =>
      let keyPrefix := key.take 16
      let record : ApiKeyRecord :=
        { id := identifier, name, keyPrefix, priority,
          createdAt := random.now, updatedAt := random.now }
      let inserted ← onDatabase (statement (ioError "cannot prepare API key creation")
        (ioError "cannot persist API key") fun db =>
          db.insertKey
            { record := { record with
                id := cString identifier
                name := cString name
                keyPrefix := cString keyPrefix }
              secretHash := digest.bytes })
      if inserted then
        modify fun store =>
          if store.active.contains identifier then store
          else { store with active := store.active.insert identifier { record, hash := digest } }
        return some { record, key }
      else return none

def createLoop (name : Text) (priority : ℤ) (random : ℕ → Attempt) :
    ℕ → Program ApiKeyStore Error CreatedApiKey
  | 0 =>
      fail { code := .alreadyExists,
             message := "could not allocate a unique API key identifier" }
  | attempts + 1 => do
      match ← createAttempt sha256 name priority (random attempts) with
      | some created => return created
      | none => createLoop name priority random attempts

def create (name : Text) (priority : ℤ) (random : ℕ → Attempt) :
    Program ApiKeyStore Error CreatedApiKey := do
  if !validName name then
    fail { code := .invalidArgument
           message := "API key name must contain 1 to 80 printable characters"
           field := "name" }
  else if !validPriority priority then
    fail { code := .invalidArgument
           message := "API key priority must be between -100 and 100"
           field := "priority" }
  else
    let store ← get
    if !store.healthy then fail unavailable
    else createLoop sha256 name priority random 4

def update (id : Text) (name : Option Text) (priority : Option ℤ) (now : ℤ) :
    Program ApiKeyStore Error ApiKeyRecord := do
  if name = none ∧ priority = none then
    fail { code := .invalidArgument, message := "name or priority is required" }
  else if name.any fun name => !validName name then
    fail { code := .invalidArgument
           message := "API key name must contain 1 to 80 printable characters"
           field := "name" }
  else if priority.any fun priority => !validPriority priority then
    fail { code := .invalidArgument
           message := "API key priority must be between -100 and 100"
           field := "priority" }
  else
    let store ← get
    if !store.healthy then fail unavailable
    else
      match store.active.lookup id with
      | none => fail { code := .notFound, message := "active API key not found" }
      | some active =>
          let updated : ApiKeyRecord :=
            { active.record with
              name := name.getD active.record.name
              priority := priority.getD active.record.priority
              updatedAt := now }
          let changes ← onDatabase (statement (ioError "cannot prepare API key update")
            (ioError "cannot update API key") fun db =>
              db.updateKey (cString id) fun record =>
                { record with
                  name := cString updated.name
                  priority := updated.priority
                  updatedAt := updated.updatedAt })
          if changes ≠ 1 then fail { code := .ioError, message := "cannot update API key" }
          else
            modify fun store =>
              { store with active := store.active.insert id { active with record := updated } }
            return updated

/-- What `revoke` does in its transaction: whether the key was revoked already. -/
def revokeRow (id : Text) (now : ℤ) : Program Database Error Bool := do
  let row ← statement (sqliteFailure "cannot inspect API key")
    (sqliteFailure "cannot inspect API key") fun db => (db.keys.lookup (cString id), db)
  match row with
  | none => fail { code := .notFound, message := "API key not found" }
  | some row =>
      if row.record.revokedAt.isSome then return true
      else
        let changes ← statement (sqliteFailure "cannot prepare API key revocation")
          (sqliteFailure "cannot revoke API key") fun db =>
            db.updateKey (cString id) fun record =>
              { record with revokedAt := some now, updatedAt := now }
        if changes ≠ 1 then fail (sqliteFailure "cannot revoke API key" "not an error")
        else
          statement (sqliteFailure "cannot prepare revoked key lease release")
            (sqliteFailure "cannot release revoked key lease") fun db =>
              ((), db.deleteLeases fun lease => lease.ownerKeyId == cString id)
          return false

def revoke (id : Text) (now : ℤ) : Program ApiKeyStore Error Unit := do
  let store ← get
  if !store.healthy then fail unavailable
  else
    let alreadyRevoked ← onDatabase (transaction
      (sqliteFailure "cannot begin API key revocation")
      (fun _ => sqliteFailure "cannot complete API key revocation") (revokeRow id now))
    if alreadyRevoked then return ()
    else modify fun store => { store with active := store.active.erase id }

/-- Whom a header stands for. -/
def authenticateBearer (store : ApiKeyStore) (authorization : Text) :
    Option AuthenticatedApiKey :=
  match parseBearer authorization with
  | none => none
  | some (identifier, token) =>
      match sha256 token with
      | .error _ => none
      | .ok digest =>
          if !store.healthy then none
          else
            match store.active.lookup identifier with
            | none => none
            | some active =>
                if active.hash = digest then
                  some { id := active.record.id
                         name := active.record.name
                         priority := active.record.priority }
                else none

def publicRequestPriority : ℤ := -999999

/-- The priority of a request: that of its managed key, that of public access, or the one that is
asked for within its range. -/
def resolveRequestPriority (store : Option ApiKeyStore) (authorization : Text)
    (requestedPriority : ℤ) (publicRequest : Bool) : ℤ :=
  match store.bind fun store => store.authenticateBearer sha256 authorization with
  | some principal => principal.priority
  | none => if publicRequest then publicRequestPriority else max (-100) (min requestedPriority 100)

end Keys

def activeBackgroundLease (now : ℤ) :
    Program ApiKeyStore Error (Option BackgroundLeaseRecord) := do
  if now < 0 then
    fail { code := .invalidArgument, message := "lease time must not be negative" }
  else
    let store ← get
    if !store.healthy then fail unavailable
    else
      onDatabase (transaction (ioError "cannot begin background lease inspection")
        (fun _ => ioError "cannot complete background lease inspection")
        (readActiveBackgroundLease now))

/-- What `acquire_background_lease` does in its transaction. -/
def acquireLease (owner : Text) (now duration : ℤ) (identifier : List UInt8) :
    Program Database Error BackgroundLeaseAcquireResult := do
  match ← readActiveBackgroundLease now with
  | some lease => return ⟨if lease.ownerKeyId = owner then .existing else .occupied, lease⟩
  | none =>
      attempt randomFailed
      let lease : BackgroundLeaseRecord :=
        { id := hexEncode identifier, ownerKeyId := owner,
          acquiredAt := now, expiresAt := now + duration }
      let inserted ← statement (ioError "cannot prepare background lease acquisition")
        (ioError "cannot persist background lease") fun db =>
          db.insertLease { lease with id := cString lease.id, ownerKeyId := cString owner }
      if !inserted then
        fail { code := .ioError, message := "cannot persist background lease" }
      else return ⟨.acquired, lease⟩

def acquireBackgroundLease (owner : Text) (now duration : ℤ) (identifier : List UInt8) :
    Program ApiKeyStore Error BackgroundLeaseAcquireResult := do
  if !validLeaseWindow now duration then
    fail { code := .invalidArgument, message := "background lease window is invalid" }
  else
    let store ← get
    if !store.healthy then fail unavailable
    else if !store.active.contains owner then
      fail { code := .notFound, message := "active API key not found" }
    else
      onDatabase (transaction (ioError "cannot begin background lease acquisition")
        (fun result => ioError (if result.state = .acquired then "cannot persist background lease"
          else "cannot complete background lease acquisition"))
        (acquireLease owner now duration identifier))

/-- What `renew_background_lease` does in its transaction: nothing where the lease is another. -/
def renewLease (owner leaseId : Text) (now duration : ℤ) :
    Program Database Error (Option BackgroundLeaseRecord) := do
  match ← readActiveBackgroundLease now with
  | none => return none
  | some lease =>
      if lease.ownerKeyId ≠ owner ∨ lease.id ≠ leaseId then return none
      else
        let renewed := { lease with expiresAt := now + duration }
        let changes ← statement (ioError "cannot prepare background lease renewal")
          (ioError "cannot renew background lease") fun db =>
            db.updateLeases (fun lease => lease.id == cString renewed.id &&
              lease.ownerKeyId == cString owner) renewed.expiresAt
        if changes ≠ 1 then fail { code := .ioError, message := "cannot renew background lease" }
        else return some renewed

def renewBackgroundLease (owner leaseId : Text) (now duration : ℤ) :
    Program ApiKeyStore Error BackgroundLeaseRecord := do
  if !validLeaseWindow now duration then
    fail { code := .invalidArgument, message := "background lease window is invalid" }
  else
    let store ← get
    if !store.healthy then fail unavailable
    else if !store.active.contains owner then
      fail { code := .notFound, message := "background lease not found" }
    else
      let renewed ← onDatabase (transaction (ioError "cannot begin background lease renewal")
        (fun renewed => ioError (if renewed.isSome then "cannot renew background lease"
          else "cannot complete background lease renewal"))
        (renewLease owner leaseId now duration))
      match renewed with
      | some lease => return lease
      | none => fail { code := .notFound, message := "background lease not found" }

def releaseBackgroundLease (owner leaseId : Text) : Program ApiKeyStore Error Unit := do
  let store ← get
  if !store.healthy then fail unavailable
  else
    onDatabase (transaction (ioError "cannot begin background lease release")
      (fun _ => ioError "cannot release background lease")
      (statement (ioError "cannot prepare background lease release")
        (ioError "cannot release background lease") fun db =>
          ((), db.deleteLeases fun lease =>
            lease.id == cString leaseId && lease.ownerKeyId == cString owner)))

end ApiKeyStore

end InferDeck.Gateway
