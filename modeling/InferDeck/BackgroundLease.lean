import InferDeck.ApiKeyCache

/-!
# The background lease excludes

At most one lease is stored. A key that is not revoked owns it, no step but those of the law below
changes it, and what a caller is told about it is so. An expired lease is removed by the next
operation that looks at the time, and by no earlier one.
-/

namespace InferDeck.Gateway

open Foundation Transaction Program

namespace ApiKeyStore

variable {sha256 : Text → Result Hash} {store : ApiKeyStore} {history : History}

def unexpired (now : ℤ) (leases : List BackgroundLeaseRecord) : List BackgroundLeaseRecord :=
  leases.filter fun lease => !decide (lease.expiresAt ≤ now)

theorem mem_unexpired {now : ℤ} {leases : List BackgroundLeaseRecord}
    {lease : BackgroundLeaseRecord} :
    lease ∈ unexpired now leases ↔ lease ∈ leases ∧ now < lease.expiresAt := by
  simp [unexpired]

theorem readActive_yields (db : Database) (now : ℤ) :
    (readActiveBackgroundLease now).Yields db fun r db' =>
      ∀ current, r = .ok current → db' = { db with leases := unexpired now db.leases } ∧
        current = (unexpired now db.leases).head? := by
  refine yields_bind (M := fun _ db' => db' = { db with leases := unexpired now db.leases })
    (yields_statement (fun _ _ h => by cases h) (fun _ _ h => by cases h) rfl) ?_
  rintro - db' rfl
  exact yields_statement (fun _ _ h => by cases h) (fun _ _ h => by cases h)
    fun current h => ⟨rfl, (Except.ok.inj h).symm⟩

/-- An operation that fails in its transaction leaves the store as it was. -/
theorem onTransaction_yields {α : Type} {beginFailed : String → Error}
    {commitFailed : α → String → Error} {p : Program Database Error α} {P : α → Database → Prop}
    (h : p.Yields store.database fun r db => ∀ a, r = .ok a → P a db) :
    (onDatabase (transaction beginFailed commitFailed p)).Yields store fun r store' =>
      match r with
      | .ok a => P a store'.database ∧ store' = { store with database := store'.database }
      | .error _ => store' = store := by
  refine yields_onDatabase (yields_transaction (fun _ => rfl) (h.mono fun r db hr => ?_))
  cases r with
  | ok a => exact ⟨⟨hr a rfl, rfl⟩, fun _ => rfl⟩
  | error error => rfl

/-- A lease of one's own, of another, or a new one where none is left. -/
inductive Acquisition (owner : Text) (now duration : ℤ) (identifier : List UInt8)
    (db db' : Database) : BackgroundLeaseAcquireResult → Prop where
  | held (lease : BackgroundLeaseRecord) (hlease : lease ∈ unexpired now db.leases)
      (state : BackgroundLeaseAcquireState)
      (hstate : state = if lease.ownerKeyId = owner then .existing else .occupied)
      (hdb : db' = { db with leases := unexpired now db.leases }) :
      Acquisition owner now duration identifier db db' ⟨state, lease⟩
  | acquired (lease : BackgroundLeaseRecord)
      (hlease : lease = ⟨hexEncode identifier, owner, now, now + duration⟩)
      (hfree : unexpired now db.leases = []) (hdb : db' = { db with leases := [lease] }) :
      Acquisition owner now duration identifier db db' ⟨.acquired, lease⟩

theorem acquireLease_yields (db : Database) {owner : Text} (hid : cString owner = owner)
    (now duration : ℤ) (identifier : List UInt8) :
    (acquireLease owner now duration identifier).Yields db fun r db' =>
      ∀ result, r = .ok result → Acquisition owner now duration identifier db db' result := by
  unfold acquireLease
  refine yields_bind (M := fun current db' =>
    db' = { db with leases := unexpired now db.leases } ∧
      current = (unexpired now db.leases).head?)
    ((readActive_yields db now).mono fun r db' hr => ?_) ?_
  · cases r with
    | ok current => exact hr current rfl
    | error error => exact fun _ h => by cases h
  rintro current db' ⟨rfl, hcurrent⟩
  cases current with
  | some lease =>
      refine yields_pure fun result h => ?_
      obtain rfl := Except.ok.inj h
      exact .held lease (List.mem_of_head? hcurrent.symm) _ rfl rfl
  | none =>
      have hnone : unexpired now db.leases = [] := List.head?_eq_none_iff.1 hcurrent.symm
      refine yields_attempt_bind (fun _ _ h => by cases h) ?_
      dsimp only
      rw [hid, cString_identifier (hexEncode_chars identifier), hnone]
      refine yields_bind (M := fun inserted db'' => inserted = true →
        db'' = { db with leases := [⟨hexEncode identifier, owner, now, now + duration⟩] })
        (yields_statement (fun _ _ h => by cases h) (fun _ _ h => by cases h) ?_) ?_
      · intro hinserted
        unfold Database.insertLease at hinserted ⊢
        split_ifs at hinserted ⊢
        rfl
      · intro inserted db'' hinserted
        cases inserted with
        | false => exact yields_fail fun _ h => by cases h
        | true =>
            refine yields_pure fun result h => ?_
            obtain rfl := Except.ok.inj h
            exact .acquired _ rfl hnone (hinserted rfl)

/-- The caller's lease, which lasts longer now, or nothing where the lease is another. -/
inductive Renewal (owner leaseId : Text) (now duration : ℤ) (db db' : Database) :
    Option BackgroundLeaseRecord → Prop where
  | refused (hdb : db' = { db with leases := unexpired now db.leases }) :
      Renewal owner leaseId now duration db db' none
  | renewed (lease : BackgroundLeaseRecord) (hlease : unexpired now db.leases = [lease])
      (howner : lease.ownerKeyId = owner) (hid : lease.id = leaseId)
      (hdb : db' = { db with leases := [{ lease with expiresAt := now + duration }] }) :
      Renewal owner leaseId now duration db db' (some { lease with expiresAt := now + duration })

theorem renewLease_yields (db : Database) (hsingle : db.leases.length ≤ 1) {owner leaseId : Text}
    (howner : cString owner = owner) (hleaseId : cString leaseId = leaseId) (now duration : ℤ) :
    (renewLease owner leaseId now duration).Yields db fun r db' =>
      ∀ renewed, r = .ok renewed → Renewal owner leaseId now duration db db' renewed := by
  unfold renewLease
  refine yields_bind (M := fun current db' =>
    db' = { db with leases := unexpired now db.leases } ∧
      current = (unexpired now db.leases).head?)
    ((readActive_yields db now).mono fun r db' hr => ?_) ?_
  · cases r with
    | ok current => exact hr current rfl
    | error error => exact fun _ h => by cases h
  rintro current db' ⟨rfl, hcurrent⟩
  cases current with
  | none =>
      refine yields_pure fun renewed h => ?_
      obtain rfl := Except.ok.inj h
      exact .refused rfl
  | some lease =>
      have hone : unexpired now db.leases = [lease] := by
        have hlength : (unexpired now db.leases).length ≤ 1 :=
          le_trans (List.length_filter_le ..) hsingle
        cases hleases : unexpired now db.leases with
        | nil => rw [hleases] at hcurrent; cases hcurrent
        | cons first rest =>
            rw [hleases] at hcurrent hlength
            obtain rfl := Option.some.inj hcurrent
            rw [List.length_cons] at hlength
            rw [List.length_eq_zero_iff.1 (by omega : rest.length = 0)]
      dsimp only
      split
      · refine yields_pure fun renewed h => ?_
        obtain rfl := Except.ok.inj h
        exact .refused rfl
      · rename_i hmatch
        simp only [not_or, not_not] at hmatch
        obtain ⟨hleaseOwner, hleaseId'⟩ := hmatch
        refine yields_bind (M := fun _ db'' => db'' = { db with
          leases := [{ lease with expiresAt := now + duration }] })
          (yields_statement (fun _ _ h => by cases h) (fun _ _ h => by cases h) ?_) ?_
        · simp [Database.updateLeases, hone, hleaseOwner, hleaseId', howner, hleaseId]
        · rintro changes db'' rfl
          split
          · exact yields_fail fun _ h => by cases h
          · refine yields_pure fun renewed h => ?_
            obtain rfl := Except.ok.inj h
            exact .renewed lease hone hleaseOwner hleaseId' rfl

/-- An unrevoked row of the key. -/
def Current (db : Database) (id : Text) : Prop :=
  ∃ row, db.keys.lookup id = some row ∧ row.record.revokedAt = none

structure SameLeases (store store' : ApiKeyStore) : Prop where
  leases : store'.database.leases = store.database.leases
  current : ∀ id, Current store.database id → Current store'.database id

instance : IsPreorder ApiKeyStore SameLeases where
  refl _ := ⟨rfl, fun _ h => h⟩
  trans _ _ _ h h' := ⟨h'.leases.trans h.leases, fun id hid => h'.current id (h.current id hid)⟩

theorem onStatement_sameLeases {α : Type} {prepareFailed stepFailed : String → Error}
    {f : Database → α × Database} (hleases : ∀ db, (f db).2.leases = db.leases)
    (hcurrent : ∀ db id, Current db id → Current (f db).2 id) :
    Preserves SameLeases (onDatabase (statement prepareFailed stepFailed f)) := by
  intro store
  refine yields_onDatabase (yields_statement (fun _ => ?_) (fun _ => ?_) ?_)
  · exact refl_of SameLeases store
  · exact refl_of SameLeases store
  · exact ⟨hleases store.database, hcurrent store.database⟩

theorem createAttempt_sameLeases (name : Text) (priority : ℤ) (random : Attempt) :
    Preserves SameLeases (createAttempt sha256 name priority random) := by
  refine preserves_bind (preserves_attempt _) fun _ => preserves_bind (preserves_attempt _) fun _ => ?_
  dsimp only
  cases sha256 (keyText (hexEncode random.identifier) (base64urlEncode random.secret)) with
  | error error => exact preserves_fail _
  | ok digest =>
      refine preserves_bind (onStatement_sameLeases (fun db => ?_) fun db id hid => ?_)
        fun inserted => ?_
      · unfold Database.insertKey
        split <;> rfl
      · unfold Database.insertKey
        split
        · exact hid
        · rename_i hfresh
          obtain ⟨row, hrow, hcurrent⟩ := hid
          have hne : id ≠ cString (hexEncode random.identifier) := by
            rintro rfl
            simp [Map.contains, hrow] at hfresh
          exact ⟨row, (AList.lookup_insert_ne hne).trans hrow, hcurrent⟩
      · refine preserves_ite (preserves_bind (preserves_modify fun store => ?_) fun _ =>
          preserves_pure _) (preserves_pure _)
        split
        · exact refl_of SameLeases store
        · exact ⟨rfl, fun _ h => h⟩

theorem createLoop_sameLeases (name : Text) (priority : ℤ) (random : ℕ → Attempt) (attempts : ℕ) :
    Preserves SameLeases (createLoop sha256 name priority random attempts) := by
  induction attempts with
  | zero => exact preserves_fail _
  | succ attempts ih =>
      refine preserves_bind (createAttempt_sameLeases name priority _) fun created => ?_
      cases created with
      | none => exact ih
      | some created => exact preserves_pure _

variable (sha256) in
theorem create_sameLeases (name : Text) (priority : ℤ) (random : ℕ → Attempt) :
    Preserves SameLeases (create sha256 name priority random) :=
  preserves_ite (preserves_fail _) (preserves_ite (preserves_fail _) (preserves_get_bind fun _ =>
    preserves_ite (preserves_fail _) (createLoop_sameLeases name priority random 4)))

theorem updateKey_current {db : Database} {key : Text} {f : ApiKeyRecord → ApiKeyRecord}
    (hf : ∀ record, (f record).revokedAt = record.revokedAt) {id : Text} (h : Current db id) :
    Current (db.updateKey key f).2 id := by
  rcases updateKey_eq db key f with
    ⟨-, hdb⟩ | ⟨row, hrow, hrevoked, -, hdb⟩
  · rw [hdb]
    exact h
  · rw [hdb]
    obtain ⟨row', hrow', hcurrent⟩ := h
    by_cases hsame : id = key
    · subst hsame
      exact ⟨{ row with record := f row.record }, AList.lookup_insert .., (hf _).trans hrevoked⟩
    · exact ⟨row', (AList.lookup_insert_ne hsame).trans hrow', hcurrent⟩

theorem updateKey_leases {db : Database} {key : Text} {f : ApiKeyRecord → ApiKeyRecord} :
    (db.updateKey key f).2.leases = db.leases := by
  rcases updateKey_eq db key f with ⟨-, hdb⟩ | ⟨row, -, -, -, hdb⟩ <;> rw [hdb]

theorem update_sameLeases (id : Text) (name : Option Text) (priority : Option ℤ) (now : ℤ) :
    Preserves SameLeases (update id name priority now) := by
  refine preserves_ite (preserves_fail _) (preserves_ite (preserves_fail _) (preserves_ite
    (preserves_fail _) (preserves_get_bind fun store => preserves_ite (preserves_fail _) ?_)))
  cases store.active.lookup id with
  | none => exact preserves_fail _
  | some active =>
      refine preserves_bind (onStatement_sameLeases (fun db => updateKey_leases)
        fun db id' h => ?_) fun changes => ?_
      · refine updateKey_current ?_ h
        intro record
        rfl
      exact preserves_ite (preserves_fail _)
        (preserves_bind (preserves_modify fun _ => ⟨rfl, fun _ h => h⟩) fun _ => preserves_pure _)

def Operation.time : Operation → Option ℤ
  | .activeLease now => some now
  | .acquireLease _ now _ _ => some now
  | .renewLease _ _ now _ => some now
  | _ => none

def Answer.error : Answer → Option Error
  | .created (.error error) => some error
  | .updated (.error error) => some error
  | .revoked (.error error) => some error
  | .lease (.error error) => some error
  | .acquired (.error error) => some error
  | .renewed (.error error) => some error
  | .released (.error error) => some error
  | _ => none

def World.leases (w : World) : List BackgroundLeaseRecord := w.store.database.leases

/-- The operation renews the lease, which the caller owns and which is not expired. -/
structure Renews (operation : Operation) (old lease : BackgroundLeaseRecord) : Prop where
  operation : ∃ owner leaseId now duration, operation = .renewLease owner leaseId now duration ∧
    old.ownerKeyId = owner.text ∧ old.id = leaseId.text ∧ now < old.expiresAt ∧
      lease = { old with expiresAt := now + duration }

inductive LeaseChange (w w' : World) (operation : Operation) (answer : Answer) : Prop where
  | same (hleases : w'.leases = w.leases)
      (hrevoked : ∀ id now, operation = .revoke id now → answer.error = none →
        ∀ lease ∈ w.leases, lease.ownerKeyId ≠ id.text)
  /-- Those that are expired are removed. -/
  | lapse (now : ℤ) (htime : operation.time = some now) (hleases : w'.leases = unexpired now w.leases)
      (herror : ∀ error, answer.error = some error →
        error = { code := .notFound, message := "background lease not found" })
  | acquire (owner : PathId) (now duration : ℤ) (identifier : List UInt8)
      (hoperation : operation = .acquireLease owner now duration identifier)
      (hfree : unexpired now w.leases = []) (hcurrent : Current w.store.database owner.text)
      (hleases : w'.leases = [⟨hexEncode identifier, owner.text, now, now + duration⟩])
      (hanswer : answer.error = none)
  | renew (old lease : BackgroundLeaseRecord) (now : ℤ) (htime : operation.time = some now)
      (hold : unexpired now w.leases = [old]) (hrenews : Renews operation old lease)
      (hleases : w'.leases = [lease]) (hanswer : answer.error = none)
  | release (owner leaseId : PathId) (hoperation : operation = .releaseLease owner leaseId)
      (hleases : w'.leases = w.leases.filter fun lease =>
        !(lease.id == leaseId.text && lease.ownerKeyId == owner.text)) (hanswer : answer.error = none)
  | revoke (id : PathId) (now : ℤ) (hoperation : operation = .revoke id now)
      (hleases : w'.leases = w.leases.filter fun lease => !(lease.ownerKeyId == id.text))
      (hanswer : answer.error = none)

def Answer.current : Answer → Option (Option BackgroundLeaseRecord)
  | .lease (.ok current) => some current
  | .acquired (.ok result) => some (some result.lease)
  | .renewed (.ok record) => some (some record)
  | _ => none

structure Truthful (w w' : World) (operation : Operation) (answer : Answer) : Prop where
  stored : ∀ current, answer.current = some current → w'.leases = current.toList
  /-- The caller has got the lease, or a lease that is not expired is held by it or by another. -/
  acquired : ∀ result, answer = .acquired (.ok result) → ∃ owner now duration identifier,
    operation = .acquireLease owner now duration identifier ∧
      (result.state = .occupied ↔ result.lease.ownerKeyId ≠ owner.text) ∧
      (result.state = .acquired → unexpired now w.leases = [] ∧
        result.lease = ⟨hexEncode identifier, owner.text, now, now + duration⟩) ∧
      (result.state ≠ .acquired → result.lease ∈ unexpired now w.leases)
  renewed : ∀ lease, answer = .renewed (.ok lease) → ∃ old ∈ w.leases, Renews operation old lease
  released : ∀ owner leaseId, operation = .releaseLease owner leaseId → answer.error = none →
    ∀ lease ∈ w'.leases, ¬(lease.id = leaseId.text ∧ lease.ownerKeyId = owner.text)

/-- An answer that only says that the operation was done or failed. -/
theorem truthful_of_silent {w w' : World} {operation : Operation} {answer : Answer}
    (hcurrent : answer.current = none)
    (hreleased : ∀ owner leaseId, operation = .releaseLease owner leaseId → answer.error ≠ none) :
    Truthful w w' operation answer where
  stored current h := by
    rw [hcurrent] at h
    cases h
  acquired result h := by
    rw [h] at hcurrent
    cases hcurrent
  renewed lease h := by
    rw [h] at hcurrent
    cases hcurrent
  released owner leaseId h hdone := absurd hdone (hreleased owner leaseId h)

/-- One lease at most is stored, and the key that owns it is not revoked. -/
structure LeaseSafe (w : World) : Prop where
  single : w.leases.length ≤ 1
  owner : ∀ lease ∈ w.leases, Current w.store.database lease.ownerKeyId

/-- The keys that are current stay so but for a revoked one. -/
theorem current_of_lookup_insert {db db' : Database} {id : Text} {row : ApiKeyRow}
    (hkeys : db'.keys = db.keys.insert id row) {key : Text} (hne : key ≠ id)
    (h : Current db key) : Current db' key := by
  obtain ⟨row', hrow, hcurrent⟩ := h
  exact ⟨row', by rw [hkeys, AList.lookup_insert_ne hne, hrow], hcurrent⟩

theorem revoke_outcome (id : PathId) (now : ℤ) :
    (revoke id.text now).Yields store fun r store' =>
      match r with
      | .ok _ => ∃ alreadyRevoked,
          Revocation id.text now store.database store'.database alreadyRevoked
      | .error _ => store' = store := by
  refine yields_get_bind ?_
  split
  · exact yields_fail rfl
  refine yields_bind (M := fun alreadyRevoked store' =>
    Revocation id.text now store.database store'.database alreadyRevoked)
    ((onTransaction_yields (revokeRow_yields (cString_identifier id.chars))).mono ?_) ?_
  · intro r store' h
    cases r with
    | ok alreadyRevoked => exact h.1
    | error error => exact h
  · intro alreadyRevoked store' h
    cases alreadyRevoked with
    | true => exact yields_pure ⟨true, h⟩
    | false => exact yields_modify ⟨false, h⟩

theorem activeBackgroundLease_outcome (now : ℤ) :
    (activeBackgroundLease now).Yields store fun r store' =>
      match r with
      | .ok current => store'.database =
            { store.database with leases := unexpired now store.database.leases } ∧
          current = (unexpired now store.database.leases).head?
      | .error _ => store' = store := by
  unfold activeBackgroundLease
  split
  · exact yields_fail rfl
  refine yields_get_bind ?_
  split
  · exact yields_fail rfl
  refine (onTransaction_yields (P := fun current db => db = { store.database with
      leases := unexpired now store.database.leases } ∧
    current = (unexpired now store.database.leases).head?)
    (readActive_yields store.database now)).mono ?_
  intro r store' h
  cases r with
  | ok current => exact h.1
  | error error => exact h

theorem acquireBackgroundLease_outcome (owner : PathId) (now duration : ℤ)
    (identifier : List UInt8) :
    (acquireBackgroundLease owner.text now duration identifier).Yields store fun r store' =>
      match r with
      | .ok result => store.healthy = true ∧ store.active.contains owner.text = true ∧
          Acquisition owner.text now duration identifier store.database store'.database result
      | .error _ => store' = store := by
  unfold acquireBackgroundLease
  split
  · exact yields_fail rfl
  refine yields_get_bind ?_
  split
  · exact yields_fail rfl
  rename_i hopen
  split
  · exact yields_fail rfl
  rename_i hactive
  refine (onTransaction_yields (acquireLease_yields store.database
    (cString_identifier owner.chars) now duration identifier)).mono ?_
  intro r store' h
  cases r with
  | ok result => exact ⟨by simpa using hopen, by simpa using hactive, h.1⟩
  | error error => exact h

theorem renewBackgroundLease_outcome (hsingle : store.database.leases.length ≤ 1)
    (owner leaseId : PathId) (now duration : ℤ) :
    (renewBackgroundLease owner.text leaseId.text now duration).Yields store fun r store' =>
      match r with
      | .ok lease => Renewal owner.text leaseId.text now duration store.database
          store'.database (some lease)
      | .error error => store' = store ∨
          error = { code := .notFound, message := "background lease not found" } ∧
            Renewal owner.text leaseId.text now duration store.database store'.database none := by
  unfold renewBackgroundLease
  split
  · exact yields_fail (Or.inl rfl)
  refine yields_get_bind ?_
  split
  · exact yields_fail (Or.inl rfl)
  split
  · exact yields_fail (Or.inl rfl)
  refine yields_bind (M := fun renewed store' => Renewal owner.text leaseId.text now duration
    store.database store'.database renewed)
    ((onTransaction_yields (renewLease_yields store.database hsingle
      (cString_identifier owner.chars) (cString_identifier leaseId.chars) now duration)).mono ?_) ?_
  · intro r store' h
    cases r with
    | ok renewed => exact h.1
    | error error => exact Or.inl h
  · intro renewed store' h
    cases renewed with
    | none => exact yields_fail (Or.inr ⟨rfl, h⟩)
    | some lease => exact yields_pure h

theorem releaseBackgroundLease_outcome (owner leaseId : PathId) :
    (releaseBackgroundLease owner.text leaseId.text).Yields store fun r store' =>
      match r with
      | .ok _ => store'.database = store.database.deleteLeases fun lease =>
          lease.id == leaseId.text && lease.ownerKeyId == owner.text
      | .error _ => store' = store := by
  refine yields_get_bind ?_
  split
  · exact yields_fail rfl
  rw [cString_identifier leaseId.chars, cString_identifier owner.chars]
  refine (onTransaction_yields (P := fun _ db => db = store.database.deleteLeases fun lease =>
    lease.id == leaseId.text && lease.ownerKeyId == owner.text)
    (yields_statement (fun _ _ h => by cases h) (fun _ _ h => by cases h) fun _ _ => rfl)).mono ?_
  intro r store' h
  cases r with
  | ok _ => exact h.1
  | error error => exact h

variable {w w' : World}

theorem LeaseSafe.of_subset (h : LeaseSafe w) {leases : List BackgroundLeaseRecord}
    (hleases : w'.leases = leases) (hsub : leases.Sublist w.leases)
    (hcurrent : ∀ lease ∈ leases, Current w.store.database lease.ownerKeyId →
      Current w'.store.database lease.ownerKeyId) : LeaseSafe w' where
  single := by
    rw [hleases]
    exact le_trans hsub.length_le h.single
  owner lease hlease := by
    rw [hleases] at hlease
    exact hcurrent lease hlease (h.owner lease (hsub.subset hlease))

theorem LeaseSafe.of_sameLeases {store' : ApiKeyStore} (h : LeaseSafe w)
    (hsame : SameLeases w.store store') : LeaseSafe ⟨store', history⟩ :=
  h.of_subset hsame.leases (List.Sublist.refl _) fun _ _ hcurrent => hsame.current _ hcurrent

theorem current_of_active (h : w.Consistent sha256) (hopen : w.store.healthy = true) {id : Text}
    (hactive : w.store.active.contains id = true) : Current w.store.database id := by
  obtain ⟨active, hlookup⟩ := Option.isSome_iff_exists.1 hactive
  have hcache := h.cache hopen id
  rw [hlookup] at hcache
  obtain ⟨row, hrow, hkey⟩ := Option.bind_eq_some_iff.1 hcache.symm
  exact ⟨row, hrow, (activeKey_eq_some hkey).1⟩

/-- What one operation does to the leases, and what it answers about them. -/
structure LeaseStep (w w' : World) (operation : Operation) (answer : Answer) : Prop where
  change : LeaseChange w w' operation answer
  safe : LeaseSafe w'
  truthful : Truthful w w' operation answer

section Operations

/-- Nothing happens to the leases, and nothing is said of them. -/
theorem LeaseSafe.untouched {store' : ApiKeyStore} {operation : Operation} {answer : Answer}
    (hs : LeaseSafe w) (hsame : SameLeases w.store store') (hcurrent : answer.current = none)
    (hrevoked : ∀ id now, operation = .revoke id now → answer.error ≠ none)
    (hreleased : ∀ owner leaseId, operation = .releaseLease owner leaseId → answer.error ≠ none) :
    LeaseStep w ⟨store', history⟩ operation answer where
  change := .same hsame.leases fun id now hoperation herror =>
    absurd herror (hrevoked id now hoperation)
  safe := hs.of_sameLeases hsame
  truthful := truthful_of_silent hcurrent hreleased

attribute [local simp] Answer.error

theorem LeaseSafe.failed {operation : Operation} {answer : Answer} (hs : LeaseSafe w)
    (hcurrent : answer.current = none) (herror : answer.error ≠ none) :
    LeaseStep w ⟨w.store, history⟩ operation answer :=
  hs.untouched (refl_of SameLeases w.store) hcurrent (fun _ _ _ => herror) fun _ _ _ => herror

/-- The expired leases are gone, and the keys are as they were. -/
theorem LeaseSafe.lapsed (history : History) {store' : ApiKeyStore} {now : ℤ} (hs : LeaseSafe w)
    (hdb : store'.database = { w.store.database with
      leases := unexpired now w.store.database.leases }) :
    World.leases ⟨store', history⟩ = unexpired now w.leases ∧ LeaseSafe ⟨store', history⟩ := by
  have hleases : World.leases ⟨store', history⟩ = unexpired now w.leases := by
    simp only [World.leases, hdb]
  refine ⟨hleases, hs.of_subset hleases List.filter_sublist fun lease _ hcurrent => ?_⟩
  simp only [hdb]
  exact hcurrent

theorem LeaseSafe.unexpired_eq (hs : LeaseSafe w) (now : ℤ) :
    unexpired now w.leases = (unexpired now w.leases).head?.toList := by
  have hlength : (unexpired now w.leases).length ≤ 1 :=
    le_trans (List.length_filter_le ..) hs.single
  cases hleases : unexpired now w.leases with
  | nil => rfl
  | cons first rest =>
      rw [hleases, List.length_cons] at hlength
      rw [List.length_eq_zero_iff.1 (by omega : rest.length = 0)]
      rfl

theorem LeaseSafe.unexpired_eq_singleton (hs : LeaseSafe w) {now : ℤ}
    {lease : BackgroundLeaseRecord} (hlease : lease ∈ unexpired now w.leases) :
    unexpired now w.leases = [lease] := by
  have hone := hs.unexpired_eq now
  rw [hone, Option.mem_toList] at hlease
  rw [hone, hlease]
  rfl

theorem LeaseSafe.revoke (hs : LeaseSafe w) (id : PathId) (now : ℤ) :
    (revoke id.text now).Yields w.store fun r store' =>
      LeaseStep w ⟨store', w.history.note (.revoke id now) (.revoked r)⟩ (.revoke id now)
        (.revoked r) := by
  refine (revoke_outcome id now).mono fun r store' h => ?_
  cases r with
  | error error =>
      obtain rfl : store' = w.store := h
      exact hs.failed rfl (by simp)
  | ok _ =>
      have htruthful : ∀ w', Truthful w w' (.revoke id now) (.revoked (.ok ())) :=
        fun w' => truthful_of_silent rfl fun _ _ hoperation => by cases hoperation
      obtain ⟨alreadyRevoked, hrevocation⟩ := h
      cases hrevocation with
      | already row hrow hrevoked hdb =>
          have hdb : store'.database = w.store.database := hdb
          refine ⟨.same (by simp only [World.leases, hdb]) fun id' now' hop _ lease hlease howner => ?_,
            ?_, htruthful _⟩
          · cases hop
            obtain ⟨row', hrow', hcurrent⟩ := hs.owner lease hlease
            rw [howner, hrow] at hrow'
            rw [Option.some.inj hrow', hcurrent] at hrevoked
            cases hrevoked
          · exact hs.of_subset (by simp only [World.leases, hdb]) (List.Sublist.refl _)
              fun _ _ hcurrent => hdb.symm ▸ hcurrent
      | done row hrow hrevoked hdb =>
          have hdb : store'.database = _ := hdb
          have hleases : ∀ history, World.leases ⟨store', history⟩ =
              w.leases.filter fun lease => !(lease.ownerKeyId == id.text) := by
            simp only [World.leases, hdb, implies_true]
          refine ⟨.revoke id now rfl (hleases _) rfl,
            hs.of_subset (hleases _) List.filter_sublist ?_, htruthful _⟩
          intro lease hlease hcurrent
          have hne : lease.ownerKeyId ≠ id.text := by
            simpa using (List.mem_filter.1 hlease).2
          exact current_of_lookup_insert (by rw [hdb]) hne hcurrent

theorem LeaseSafe.reopen (hs : LeaseSafe w) (faults : Faults) :
    LeaseStep w ⟨w.store.reopen faults, w.history⟩ .reopen .reopened := by
  have hdb : (w.store.reopen faults).database = w.store.database := by
    obtain ⟨hdb, -⟩ := openDatabase_yields w.store.database faults
    unfold ApiKeyStore.reopen
    rcases hresult : openDatabase w.store.database faults with ⟨r, database, rest⟩
    rw [hresult] at hdb
    cases r <;> exact hdb
  refine hs.untouched ⟨by rw [hdb], fun id hid => by rwa [hdb]⟩ rfl ?_ ?_
  · exact fun _ _ hoperation => by cases hoperation
  · exact fun _ _ hoperation => by cases hoperation

theorem LeaseSafe.activeLease (hs : LeaseSafe w) (now : ℤ) :
    (activeBackgroundLease now).Yields w.store fun r store' =>
      LeaseStep w ⟨store', w.history⟩ (.activeLease now) (.lease r) := by
  refine (activeBackgroundLease_outcome now).mono fun r store' h => ?_
  cases r with
  | error error =>
      obtain rfl : store' = w.store := h
      exact hs.failed rfl (by simp)
  | ok current =>
      obtain ⟨hdb, hcurrent⟩ := h
      obtain ⟨hleases, hsafe⟩ := hs.lapsed w.history hdb
      refine ⟨.lapse now rfl hleases (fun _ h => by cases h), hsafe, ?_, ?_, ?_, ?_⟩
      · intro current' htold
        obtain rfl := Option.some.inj htold
        rw [hleases, hs.unexpired_eq now, hcurrent]
        rfl
      · exact fun _ h => by cases h
      · exact fun _ h => by cases h
      · exact fun _ _ h => by cases h

theorem LeaseSafe.acquireLease (h : w.Consistent sha256) (hs : LeaseSafe w) (owner : PathId)
    (now duration : ℤ) (identifier : List UInt8) :
    (acquireBackgroundLease owner.text now duration identifier).Yields w.store fun r store' =>
      LeaseStep w ⟨store', w.history⟩ (.acquireLease owner now duration identifier)
        (.acquired r) := by
  refine (acquireBackgroundLease_outcome owner now duration identifier).mono fun r store' hr => ?_
  cases r with
  | error error =>
      obtain rfl : store' = w.store := hr
      exact hs.failed rfl (by simp)
  | ok result =>
      obtain ⟨hopen, hactive, hacquisition⟩ := hr
      cases hacquisition with
      | held lease hlease state hstate hdb =>
          obtain ⟨hleases, hsafe⟩ := hs.lapsed w.history hdb
          refine ⟨.lapse now rfl hleases (fun _ h => by cases h), hsafe, ?_, ?_, ?_, ?_⟩
          · intro current htold
            obtain rfl := Option.some.inj htold
            exact hleases.trans (hs.unexpired_eq_singleton hlease)
          · rintro result' hanswer
            cases hanswer
            refine ⟨owner, now, duration, identifier, rfl, ?_, ?_, fun _ => hlease⟩
            all_goals rw [hstate]
            · split_ifs with howner <;> simp [howner]
            · split_ifs <;> exact fun hacquired => by cases hacquired
          · exact fun _ h => by cases h
          · exact fun _ _ h => by cases h
      | acquired lease hlease hfree hdb =>
          have hdb : store'.database = _ := hdb
          have hcurrent := current_of_active h hopen hactive
          have hleases : World.leases ⟨store', w.history⟩ = [lease] := by
            simp only [World.leases, hdb]
          refine ⟨.acquire owner now duration identifier rfl hfree hcurrent (hlease ▸ hleases) rfl,
            ⟨by rw [hleases]; rfl, fun lease' hlease' => ?_⟩, ?_, ?_, ?_, ?_⟩
          · rw [hleases, List.mem_singleton] at hlease'
            rw [hlease', hlease]
            simp only [hdb]
            exact hcurrent
          · intro current htold
            obtain rfl := Option.some.inj htold
            exact hleases
          · rintro result' hanswer
            cases hanswer
            refine ⟨owner, now, duration, identifier, rfl, ?_, fun _ => ⟨hfree, hlease⟩,
              fun hstate => absurd rfl hstate⟩
            simp [hlease]
          · exact fun _ h => by cases h
          · exact fun _ _ h => by cases h

theorem LeaseSafe.renewLease (hs : LeaseSafe w) (owner leaseId : PathId) (now duration : ℤ) :
    (renewBackgroundLease owner.text leaseId.text now duration).Yields w.store fun r store' =>
      LeaseStep w ⟨store', w.history⟩ (.renewLease owner leaseId now duration) (.renewed r) := by
  refine (renewBackgroundLease_outcome hs.single owner leaseId now duration).mono
    fun r store' hr => ?_
  cases r with
  | error error =>
      rcases hr with hstore | ⟨herror, hrenewal⟩
      · obtain rfl : store' = w.store := hstore
        exact hs.failed rfl (by simp)
      · cases hrenewal with
        | refused hdb =>
            obtain ⟨hleases, hsafe⟩ := hs.lapsed w.history hdb
            refine ⟨.lapse now rfl hleases fun error' h => ?_, hsafe,
              truthful_of_silent rfl fun _ _ h => by cases h⟩
            cases h
            exact herror
  | ok lease =>
      cases hr with
      | renewed old hold howner hid hdb =>
          have hdb : store'.database = _ := hdb
          have hmem : old ∈ unexpired now w.leases := by
            rw [show unexpired now w.leases = [old] from hold]
            exact List.mem_singleton_self old
          obtain ⟨hin, hnow⟩ := mem_unexpired.1 hmem
          have hleases : World.leases ⟨store', w.history⟩ =
              [{ old with expiresAt := now + duration }] := by
            simp only [World.leases, hdb]
          have hrenews : Renews (.renewLease owner leaseId now duration) old
              { old with expiresAt := now + duration } :=
            ⟨owner, leaseId, now, duration, rfl, howner, hid, hnow, rfl⟩
          refine ⟨.renew old _ now rfl hold hrenews hleases rfl,
            ⟨by rw [hleases]; rfl, fun lease' hlease' => ?_⟩, ?_, ?_, ?_, ?_⟩
          · rw [hleases, List.mem_singleton] at hlease'
            rw [hlease']
            simp only [hdb]
            exact hs.owner old hin
          · intro current htold
            obtain rfl := Option.some.inj htold
            exact hleases
          · exact fun _ h => by cases h
          · rintro lease' hanswer
            cases hanswer
            exact ⟨old, hin, hrenews⟩
          · exact fun _ _ h => by cases h

theorem LeaseSafe.releaseLease (hs : LeaseSafe w) (owner leaseId : PathId) :
    (releaseBackgroundLease owner.text leaseId.text).Yields w.store fun r store' =>
      LeaseStep w ⟨store', w.history⟩ (.releaseLease owner leaseId) (.released r) := by
  refine (releaseBackgroundLease_outcome owner leaseId).mono fun r store' hr => ?_
  cases r with
  | error error =>
      obtain rfl : store' = w.store := hr
      exact hs.failed rfl (by simp)
  | ok _ =>
      have hdb : store'.database = _ := hr
      have hleases : World.leases ⟨store', w.history⟩ = w.leases.filter fun lease =>
          !(lease.id == leaseId.text && lease.ownerKeyId == owner.text) := by
        simp only [World.leases, hdb]
        rfl
      refine ⟨.release owner leaseId rfl hleases rfl,
        hs.of_subset hleases List.filter_sublist fun lease _ hcurrent => ?_, ?_, ?_, ?_, ?_⟩
      · simp only [hdb]
        exact hcurrent
      · exact fun _ h => by cases h
      · exact fun _ h => by cases h
      · exact fun _ h => by cases h
      · rintro owner' leaseId' hoperation - lease hlease
        cases hoperation
        rw [hleases] at hlease
        simpa [imp_iff_not_or] using (List.mem_filter.1 hlease).2

end Operations

/-- Every operation, with any of its statements failing, changes the leases as allowed, leaves them
safe and answers the truth. -/
theorem perform_lease (h : w.Consistent sha256) (hs : LeaseSafe w) (faults : Faults)
    (operation : Operation) :
    LeaseStep w (w.perform sha256 faults operation).2 operation
      (w.perform sha256 faults operation).1 := by
  cases operation with
  | create name priority random =>
      have hsame := create_sameLeases sha256 name priority random w.store faults
      have hsilent : ∀ r, (Answer.created r).current = none := fun _ => rfl
      exact hs.untouched hsame (hsilent _) (fun _ _ h => by cases h) fun _ _ h => by cases h
  | update id name priority now =>
      have hsame := update_sameLeases id.text name priority now w.store faults
      have hsilent : ∀ r, (Answer.updated r).current = none := fun _ => rfl
      exact hs.untouched hsame (hsilent _) (fun _ _ h => by cases h) fun _ _ h => by cases h
  | revoke id now => exact hs.revoke id now faults
  | reopen => exact hs.reopen faults
  | activeLease now => exact hs.activeLease now faults
  | acquireLease owner now duration identifier =>
      exact LeaseSafe.acquireLease h hs owner now duration identifier faults
  | renewLease owner leaseId now duration => exact hs.renewLease owner leaseId now duration faults
  | releaseLease owner leaseId => exact hs.releaseLease owner leaseId faults

/-- A store and the time of its last operation that had one. -/
structure Clocked where
  world : World := {}
  clock : ℤ

def Clocked.next (sha256 : Text → Result Hash) (c : Clocked) (action : Operation × Faults) :
    Option Clocked :=
  let time := action.1.time.getD c.clock
  if time < c.clock then none
  else some { world := (c.world.perform sha256 action.2 action.1).2, clock := time }

/-- Who may do what to the lease in the operation that leads to the second state. -/
structure LeaseLaw (before after : Clocked) (operation : Operation) (answer : Answer) : Prop where
  /-- A new lease, where none is left that is not expired, or one that its owner renews. -/
  gains : ∀ lease ∈ after.world.leases, lease ∉ before.world.leases →
    (∃ owner now duration identifier,
        operation = .acquireLease owner now duration identifier ∧
        lease = ⟨hexEncode identifier, owner.text, now, now + duration⟩ ∧
        unexpired now before.world.leases = []) ∨
      ∃ old ∈ before.world.leases, Renews operation old lease
  /-- A lease that is not expired is renewed or released by its owner, or its owner is revoked. -/
  loses : ∀ lease ∈ before.world.leases, after.clock < lease.expiresAt →
    lease ∉ after.world.leases → (∃ lease', Renews operation lease lease') ∨
      (∃ owner leaseId, operation = .releaseLease owner leaseId ∧
        lease.ownerKeyId = owner.text ∧ lease.id = leaseId.text) ∨
      ∃ id now, operation = .revoke id now ∧ lease.ownerKeyId = id.text
  /-- An expired lease is not renewed. -/
  expires : ∀ lease ∈ before.world.leases, lease.expiresAt ≤ before.clock →
    ∀ lease', ¬Renews operation lease lease'
  revokes : ∀ id now, operation = .revoke id now → answer.error = none →
    ∀ lease ∈ after.world.leases, lease.ownerKeyId ≠ id.text
  /-- A failed operation leaves the leases as they were, and a renewal that is refused removes what
  is expired. -/
  fails : ∀ error, answer.error = some error → after.world.leases = before.world.leases ∨
    error = { code := .notFound, message := "background lease not found" } ∧
      after.world.leases = unexpired after.clock before.world.leases
  answers : Truthful before.world after.world operation answer

variable {c c' : Clocked} {operation : Operation} {faults : Faults}

theorem next_eq_some (hstep : c.next sha256 (operation, faults) = some c') :
    c' = ⟨(c.world.perform sha256 faults operation).2, operation.time.getD c.clock⟩ ∧
      c.clock ≤ operation.time.getD c.clock := by
  simp only [Clocked.next] at hstep
  split_ifs at hstep with hback
  exact ⟨(Option.some.inj hstep).symm, not_lt.1 hback⟩

theorem clock_of_time (hstep : c.next sha256 (operation, faults) = some c') {now : ℤ}
    (htime : operation.time = some now) : c'.clock = now ∧ c.clock ≤ now := by
  obtain ⟨rfl, hle⟩ := next_eq_some hstep
  rw [htime, Option.getD_some] at hle
  exact ⟨by simp [htime], hle⟩

theorem leaseLaw_of_step (hstep : c.next sha256 (operation, faults) = some c') {answer : Answer}
    (h : LeaseStep c.world c'.world operation answer) : LeaseLaw c c' operation answer := by
  have hexpires : ∀ lease ∈ c.world.leases, lease.expiresAt ≤ c.clock →
      ∀ lease', ¬Renews operation lease lease' := by
    rintro lease - hexpired lease' ⟨owner, leaseId, now, duration, rfl, -, -, hlt, -⟩
    obtain ⟨-, hle⟩ := clock_of_time hstep rfl
    omega
  have hkept : ∀ {leases : List BackgroundLeaseRecord}, c'.world.leases = leases →
      leases.Sublist c.world.leases → ∀ lease ∈ c'.world.leases, lease ∈ c.world.leases := by
    intro leases hleases hsub lease hlease
    exact hsub.subset (hleases ▸ hlease)
  have hanswers := h.truthful
  cases h.change with
  | same hleases hrevoked =>
      refine ⟨fun lease hin hnot => ?_, fun lease hin _ hnot => ?_, hexpires, ?_, ?_, hanswers⟩
      · exact absurd (hleases ▸ hin) hnot
      · exact absurd (hleases ▸ hin) hnot
      · intro id now hoperation herror lease hlease
        exact hrevoked id now hoperation herror lease (hleases ▸ hlease)
      · exact fun _ _ => Or.inl hleases
  | lapse now htime hleases herror =>
      obtain ⟨hclock, -⟩ := clock_of_time hstep htime
      refine ⟨fun lease hin hnot => ?_, fun lease hin hlt hnot => ?_, hexpires, ?_, ?_, hanswers⟩
      · exact absurd (hkept hleases List.filter_sublist lease hin) hnot
      · rw [hleases, mem_unexpired] at hnot
        exact absurd ⟨hin, hclock ▸ hlt⟩ hnot
      · rintro id now' rfl
        cases htime
      · intro error heq
        exact Or.inr ⟨herror error heq, hclock.symm ▸ hleases⟩
  | acquire owner now duration identifier hoperation hfree hcurrent hleases hanswer =>
      subst hoperation
      obtain ⟨hclock, -⟩ := clock_of_time hstep rfl
      refine ⟨fun lease hin hnot => Or.inl ?_, fun lease hin hlt _ => ?_, hexpires, ?_, ?_, hanswers⟩
      · rw [hleases, List.mem_singleton] at hin
        exact ⟨owner, now, duration, identifier, rfl, hin, hfree⟩
      · have hmem := mem_unexpired.2 ⟨hin, hclock ▸ hlt⟩
        rw [hfree] at hmem
        cases hmem
      · intro id now' hoperation
        cases hoperation
      · intro error heq
        rw [hanswer] at heq
        cases heq
  | renew old lease now htime hold hrenews hleases hanswer =>
      obtain ⟨hclock, -⟩ := clock_of_time hstep htime
      have hin : old ∈ c.world.leases :=
        (mem_unexpired.1 (hold ▸ List.mem_singleton_self old)).1
      refine ⟨fun lease' hin' _ => Or.inr ?_, fun lease' hin' hlt _ => Or.inl ?_, hexpires, ?_, ?_,
        hanswers⟩
      · rw [hleases, List.mem_singleton] at hin'
        exact ⟨old, hin, hin' ▸ hrenews⟩
      · have hmem := mem_unexpired.2 ⟨hin', hclock ▸ hlt⟩
        rw [hold, List.mem_singleton] at hmem
        exact ⟨lease, hmem ▸ hrenews⟩
      · rintro id now' rfl
        cases htime
      · intro error heq
        rw [hanswer] at heq
        cases heq
  | release owner leaseId hoperation hleases hanswer =>
      refine ⟨fun lease hin hnot => ?_, fun lease hin _ hnot => ?_, hexpires, ?_, ?_, hanswers⟩
      · exact absurd (hkept hleases List.filter_sublist lease hin) hnot
      · right
        left
        rw [hleases, List.mem_filter, not_and] at hnot
        have hmatch := hnot hin
        simp only [Bool.not_eq_true', Bool.not_eq_false, Bool.and_eq_true, beq_iff_eq] at hmatch
        exact ⟨owner, leaseId, hoperation, hmatch.2, hmatch.1⟩
      · intro id now' hrevoke
        rw [hoperation] at hrevoke
        cases hrevoke
      · intro error heq
        rw [hanswer] at heq
        cases heq
  | revoke id now hoperation hleases hanswer =>
      refine ⟨fun lease hin hnot => ?_, fun lease hin _ hnot => ?_, hexpires, ?_, ?_, hanswers⟩
      · exact absurd (hkept hleases List.filter_sublist lease hin) hnot
      · right
        right
        rw [hleases, List.mem_filter, not_and] at hnot
        have hmatch := hnot hin
        simp only [Bool.not_eq_true', Bool.not_eq_false, beq_iff_eq] at hmatch
        exact ⟨id, now, hoperation, hmatch⟩
      · intro id' now' hrevoke _ lease hlease
        rw [hoperation] at hrevoke
        cases hrevoke
        rw [hleases] at hlease
        simpa using (List.mem_filter.1 hlease).2
      · intro error heq
        rw [hanswer] at heq
        cases heq

/-- In every run of the store's operations at nondecreasing times, whatever statements fail, the
stored leases exclude each other, keys that are not revoked own them, and every step keeps the
law. -/
theorem leases_exclusive (sha256 : Text → Result Hash) (start : ℤ)
    (actions : List (Operation × Faults)) :
    Execution.Always (Clocked.next sha256) (fun c => LeaseSafe c.world) { clock := start } actions ∧
      Execution.Meets (Clocked.next sha256) (fun c action =>
        ∀ c', c.next sha256 action = some c' →
          LeaseLaw c c' action.1 (c.world.perform sha256 action.2 action.1).1)
        { clock := start } actions := by
  let Sound : Clocked → Prop := fun c => c.world.Consistent sha256 ∧ LeaseSafe c.world
  have hinitial : Sound { clock := start } :=
    ⟨consistent_initial, Nat.zero_le 1, fun _ h => by cases h⟩
  have hpreserved : ∀ (c : Clocked) (action : Operation × Faults) (c' : Clocked), Sound c →
      c.next sha256 action = some c' → Sound c' := by
    rintro c ⟨operation, faults⟩ c' ⟨hconsistent, hsafe⟩ hstep
    obtain ⟨rfl, -⟩ := next_eq_some hstep
    exact ⟨hconsistent.perform faults operation,
      (perform_lease hconsistent hsafe faults operation).safe⟩
  constructor
  · intro done c _ hexec
    exact (Execution.invariant_of_step hpreserved hinitial hexec).2
  · have hall : Execution.Meets (Clocked.next sha256) (fun _ _ => True) { clock := start } actions :=
      .of_forall fun _ _ _ => trivial
    refine hall.of_invariant (fun c action c' hc _ hstep => hpreserved c action c' hc hstep) ?_
      hinitial
    rintro c ⟨operation, faults⟩ ⟨hconsistent, hsafe⟩ - c' hstep
    obtain ⟨rfl, -⟩ := next_eq_some hstep
    exact leaseLaw_of_step hstep (perform_lease hconsistent hsafe faults operation)

end ApiKeyStore

end InferDeck.Gateway
