import Mathlib.Data.List.TakeWhile
import InferDeck.ApiKeyStore
import InferDeck.Execution

/-!
# The active keys are the rows that are not revoked

A run makes operations of the store one after the other, with any of their statements failing, and
closes and opens the store again. What the answers have said is kept beside the store: which keys
were handed out and which were revoked, so that what authenticates can be told from them.
-/

namespace InferDeck.Gateway

open Foundation Transaction Program

/-- An identifier as the routes take it from their path. -/
structure PathId where
  text : Text
  size : text.length = identifierLength
  chars : text.all identifierChar = true

namespace ApiKeyStore

inductive Operation where
  | create (name : Text) (priority : ℤ) (random : ℕ → Attempt)
  | update (id : PathId) (name : Option Text) (priority : Option ℤ) (now : ℤ)
  | revoke (id : PathId) (now : ℤ)
  | reopen
  | activeLease (now : ℤ)
  | acquireLease (owner : PathId) (now duration : ℤ) (identifier : List UInt8)
  | renewLease (owner leaseId : PathId) (now duration : ℤ)
  | releaseLease (owner leaseId : PathId)

inductive Answer where
  | created (result : Except Error CreatedApiKey)
  | updated (result : Except Error ApiKeyRecord)
  | revoked (result : Except Error Unit)
  | reopened
  | lease (result : Except Error (Option BackgroundLeaseRecord))
  | acquired (result : Except Error BackgroundLeaseAcquireResult)
  | renewed (result : Except Error BackgroundLeaseRecord)
  | released (result : Except Error Unit)

/-- A key that was handed out, and what was last answered about it. -/
structure IssuedKey where
  key : Text
  record : ApiKeyRecord

/-- What the callers were told: the keys that they got, and the identifiers whose revocation was
answered as done. -/
structure History where
  issued : List IssuedKey := []
  revoked : List Text := []

namespace History

variable (history : History)

def noteRecord (record : ApiKeyRecord) : History :=
  { history with
    issued := history.issued.map fun issued =>
      if issued.record.id = record.id then { issued with record } else issued }

def note : Operation → Answer → History
  | _, .created (.ok created) =>
      { history with issued := ⟨created.key, created.record⟩ :: history.issued }
  | _, .updated (.ok record) => history.noteRecord record
  | .revoke id _, .revoked (.ok ()) => { history with revoked := id.text :: history.revoked }
  | _, _ => history

theorem noteRecord_ids (record : ApiKeyRecord) :
    ((history.noteRecord record).issued.map fun issued => issued.record.id) =
      history.issued.map fun issued => issued.record.id := by
  rw [noteRecord, List.map_map]
  apply List.map_congr_left
  intro issued _
  simp only [Function.comp_apply]
  split_ifs with hown
  · exact hown.symm
  · rfl

end History

section Perform

variable {α : Type} (sha256 : Text → Result Hash)

def run (store : ApiKeyStore) (faults : Faults) (answer : Except Error α → Answer)
    (p : Program ApiKeyStore Error α) : Answer × ApiKeyStore :=
  (answer (p store faults).1, (p store faults).2.1)

def perform (store : ApiKeyStore) (faults : Faults) : Operation → Answer × ApiKeyStore
  | .create name priority random =>
      store.run faults .created (create sha256 name priority random)
  | .update id name priority now => store.run faults .updated (update id.text name priority now)
  | .revoke id now => store.run faults .revoked (revoke id.text now)
  | .reopen => (.reopened, store.reopen faults)
  | .activeLease now => store.run faults .lease (activeBackgroundLease now)
  | .acquireLease owner now duration identifier =>
      store.run faults .acquired (acquireBackgroundLease owner.text now duration identifier)
  | .renewLease owner leaseId now duration =>
      store.run faults .renewed (renewBackgroundLease owner.text leaseId.text now duration)
  | .releaseLease owner leaseId =>
      store.run faults .released (releaseBackgroundLease owner.text leaseId.text)

structure World where
  store : ApiKeyStore := {}
  history : History := {}

def World.perform (w : World) (faults : Faults) (operation : Operation) : Answer × World :=
  let (answer, store) := w.store.perform sha256 faults operation
  (answer, { store, history := w.history.note operation answer })

def World.next (w : World) (action : Operation × Faults) : Option World :=
  some (w.perform sha256 action.2 action.1).2

end Perform

def activeKey (row : ApiKeyRow) : Option ActiveApiKey :=
  if row.record.revokedAt.isSome then none
  else if h : row.secretHash.length = 32 then
    some { record := row.record, hash := ⟨row.secretHash, h⟩ }
  else none

/-- The active keys are the rows without a time of revocation. -/
def CacheEquals (store : ApiKeyStore) : Prop :=
  ∀ id, store.active.lookup id = (store.database.keys.lookup id).bind activeKey

/-- The row stands for the key that was handed out under the identifier. -/
structure RowOf (sha256 : Text → Result Hash) (history : History) (id : Text)
    (row : ApiKeyRow) : Prop where
  key : ∃ issued ∈ history.issued, issued.record.id = id ∧
    (row.record.revokedAt = none → issued.record = row.record) ∧
      ∃ digest, sha256 issued.key = .ok digest ∧ row.secretHash = digest.bytes
  current : row.record.revokedAt = none ↔ id ∉ history.revoked
  same : row.record.id = id
  idText : cString row.record.id = row.record.id
  nameText : cString row.record.name = row.record.name
  prefixText : cString row.record.keyPrefix = row.record.keyPrefix

structure World.Consistent (sha256 : Text → Result Hash) (w : World) : Prop where
  rows : ∀ id row, w.store.database.keys.lookup id = some row → RowOf sha256 w.history id row
  issued : ∀ issued ∈ w.history.issued,
    (w.store.database.keys.lookup issued.record.id).isSome ∧
      ∃ secret, WellFormedKey issued.record.id secret ∧ issued.key = keyText issued.record.id secret
  distinct : (w.history.issued.map fun issued => issued.record.id).Nodup
  revoked : ∀ id ∈ w.history.revoked, (w.store.database.keys.lookup id).isSome
  cache : w.store.healthy = true → CacheEquals w.store
  closed : w.store.healthy = false → w.store.active = ∅

end ApiKeyStore

section CStrings

theorem cString_eq_self {text : Text} (h : ∀ c ∈ text, c ≠ '\x00') : cString text = text := by
  rw [cString, List.takeWhile_eq_self_iff]
  intro c hc
  simpa using h c hc

theorem ne_nul_of_identifierChar {c : Char} (h : identifierChar c = true) : c ≠ '\x00' := by
  rintro rfl
  exact absurd h (by decide)

theorem ne_nul_of_secretChar {c : Char} (h : secretChar c = true) : c ≠ '\x00' := by
  rintro rfl
  exact absurd h (by decide)

theorem cString_identifier {id : Text} (h : id.all identifierChar = true) : cString id = id :=
  cString_eq_self fun c hc => ne_nul_of_identifierChar (List.all_eq_true.1 h c hc)

theorem cString_name {name : Text} (h : validName name = true) : cString name = name := by
  simp only [validName, Bool.and_eq_true] at h
  apply cString_eq_self
  rintro c hc rfl
  exact absurd (List.all_eq_true.1 h.1.2 _ hc) (by decide)

theorem ne_nul_of_mem_keyText {identifier secret : Text} (h : WellFormedKey identifier secret)
    {c : Char} (hc : c ∈ keyText identifier secret) : c ≠ '\x00' := by
  simp only [keyText, List.mem_append, List.mem_cons] at hc
  rcases hc with (hscheme | hidentifier) | rfl | hsecret
  · rintro rfl
    exact absurd hscheme (by decide)
  · exact ne_nul_of_identifierChar (List.all_eq_true.1 h.identifierChars c hidentifier)
  · decide
  · exact ne_nul_of_secretChar (List.all_eq_true.1 h.secretChars c hsecret)

theorem cString_keyPrefix {identifier secret : Text} (h : WellFormedKey identifier secret) :
    cString ((keyText identifier secret).take 16) = (keyText identifier secret).take 16 :=
  cString_eq_self fun _ hc => ne_nul_of_mem_keyText h (List.mem_of_mem_take hc)

end CStrings

section Rules

variable {α : Type} {db : Database} {store : ApiKeyStore}

theorem yields_statement {prepareFailed stepFailed : String → Error} {f : Database → α × Database}
    {Q : Except Error α → Database → Prop} (hprepare : ∀ fault, Q (.error (prepareFailed fault)) db)
    (hstep : ∀ fault, Q (.error (stepFailed fault)) db) (h : Q (.ok (f db).1) (f db).2) :
    (statement prepareFailed stepFailed f).Yields db Q := by
  exact yields_attempt_bind hprepare (yields_call hstep h)

namespace ApiKeyStore

theorem yields_onDatabase {p : Program Database Error α} {Q : Except Error α → ApiKeyStore → Prop}
    (h : p.Yields store.database fun r db => Q r { store with database := db }) :
    (onDatabase p).Yields store Q :=
  yields_zoom h

theorem preserves_statement {R : Database → Database → Prop} [IsPreorder Database R]
    {prepareFailed stepFailed : String → Error} {f : Database → α × Database}
    (h : ∀ db, R db (f db).2) : Preserves R (statement prepareFailed stepFailed f) :=
  preserves_bind (preserves_attempt _) fun _ => preserves_call h

theorem insertLease_keys (db : Database) (lease : BackgroundLeaseRecord) :
    (db.insertLease lease).2.keys = db.keys := by
  unfold Database.insertLease
  split <;> rfl

structure SameKeys (store store' : ApiKeyStore) : Prop where
  keys : store'.database.keys = store.database.keys
  active : store'.active = store.active
  healthy : store'.healthy = store.healthy

instance : IsPreorder ApiKeyStore SameKeys where
  refl _ := ⟨rfl, rfl, rfl⟩
  trans _ _ _ h h' :=
    ⟨h'.keys.trans h.keys, h'.active.trans h.active, h'.healthy.trans h.healthy⟩

def SameTable (db db' : Database) : Prop := db'.keys = db.keys

instance : IsPreorder Database SameTable where
  refl _ := rfl
  trans _ _ _ h h' := h'.trans h

theorem onDatabase_sameKeys {p : Program Database Error α} (h : Preserves SameTable p) :
    Preserves SameKeys (onDatabase p) :=
  preserves_zoom (fun _ _ hkeys => ⟨hkeys, rfl, rfl⟩) h

theorem readActive_sameTable (now : ℤ) : Preserves SameTable (readActiveBackgroundLease now) :=
  preserves_bind (preserves_statement fun _ => rfl) fun _ => preserves_statement fun _ => rfl

theorem acquireLease_sameTable (owner : Text) (now duration : ℤ) (identifier : List UInt8) :
    Preserves SameTable (acquireLease owner now duration identifier) := by
  refine preserves_bind (readActive_sameTable now) fun current => ?_
  cases current with
  | some lease => exact preserves_pure _
  | none =>
      refine preserves_bind (preserves_attempt _) fun _ => ?_
      refine preserves_bind (preserves_statement fun db => insertLease_keys db _) fun inserted => ?_
      exact preserves_ite (preserves_fail _) (preserves_pure _)

theorem renewLease_sameTable (owner leaseId : Text) (now duration : ℤ) :
    Preserves SameTable (renewLease owner leaseId now duration) := by
  refine preserves_bind (readActive_sameTable now) fun current => ?_
  cases current with
  | none => exact preserves_pure _
  | some lease =>
      refine preserves_ite (preserves_pure _) ?_
      refine preserves_bind (preserves_statement fun _ => rfl) fun changes => ?_
      exact preserves_ite (preserves_fail _) (preserves_pure _)

theorem activeBackgroundLease_sameKeys (now : ℤ) :
    Preserves SameKeys (activeBackgroundLease now) :=
  preserves_ite (preserves_fail _) (preserves_get_bind fun _ =>
    preserves_ite (preserves_fail _)
      (onDatabase_sameKeys (preserves_transaction (readActive_sameTable now))))

theorem acquireBackgroundLease_sameKeys (owner : Text) (now duration : ℤ)
    (identifier : List UInt8) :
    Preserves SameKeys (acquireBackgroundLease owner now duration identifier) :=
  preserves_ite (preserves_fail _) (preserves_get_bind fun _ =>
    preserves_ite (preserves_fail _) (preserves_ite (preserves_fail _)
      (onDatabase_sameKeys (preserves_transaction
        (acquireLease_sameTable owner now duration identifier)))))

theorem renewBackgroundLease_sameKeys (owner leaseId : Text) (now duration : ℤ) :
    Preserves SameKeys (renewBackgroundLease owner leaseId now duration) := by
  refine preserves_ite (preserves_fail _) (preserves_get_bind fun _ =>
    preserves_ite (preserves_fail _) (preserves_ite (preserves_fail _) (preserves_bind
      (onDatabase_sameKeys (preserves_transaction
        (renewLease_sameTable owner leaseId now duration))) fun renewed => ?_)))
  cases renewed with
  | none => exact preserves_fail _
  | some lease => exact preserves_pure _

theorem releaseBackgroundLease_sameKeys (owner leaseId : Text) :
    Preserves SameKeys (releaseBackgroundLease owner leaseId) :=
  preserves_get_bind fun _ => preserves_ite (preserves_fail _)
    (onDatabase_sameKeys (preserves_transaction (preserves_statement fun _ => rfl)))

end ApiKeyStore

end Rules

namespace ApiKeyStore

variable {sha256 : Text → Result Hash} {w : World} {store : ApiKeyStore} {history : History}

/-- What leaves the keys of the database and the memory as they are keeps everything consistent. -/
theorem World.Consistent.of_sameKeys {store' : ApiKeyStore}
    (h : World.Consistent sha256 ⟨store, history⟩) (hsame : SameKeys store store') :
    World.Consistent sha256 ⟨store', history⟩ where
  rows id row hrow := h.rows id row (hsame.keys ▸ hrow)
  issued issued hissued := by
    rw [hsame.keys]
    exact h.issued issued hissued
  distinct := h.distinct
  revoked id hid := by
    rw [hsame.keys]
    exact h.revoked id hid
  cache hopen := by
    intro id
    rw [hsame.active, hsame.keys]
    exact h.cache (hsame.healthy ▸ hopen) id
  closed hclosed := hsame.active ▸ h.closed (hsame.healthy ▸ hclosed)

theorem insertKey_eq {db : Database} {row : ApiKeyRow} (h : (db.insertKey row).1 = true) :
    db.keys.lookup row.record.id = none ∧
      (db.insertKey row).2 = { db with keys := db.keys.insert row.record.id row } := by
  unfold Database.insertKey at h ⊢
  split_ifs at h ⊢ with hrefused
  simp only [Bool.or_eq_true, not_or, Bool.not_eq_true, Map.contains] at hrefused
  exact ⟨Option.not_isSome_iff_eq_none.1 (by simp [hrefused.1]), rfl⟩

theorem insertKey_eq_self {db : Database} {row : ApiKeyRow} (h : (db.insertKey row).1 = false) :
    (db.insertKey row).2 = db := by
  unfold Database.insertKey at h ⊢
  split_ifs at h ⊢
  rfl

theorem isSome_lookup_insert {keys : Map Text ApiKeyRow} {id id' : Text} {row : ApiKeyRow}
    (h : (keys.lookup id').isSome) : ((keys.insert id row).lookup id').isSome := by
  by_cases hsame : id' = id
  · rw [hsame, AList.lookup_insert]
    rfl
  · rwa [AList.lookup_insert_ne hsame]

/-- The row of a new key, in the database and in memory. -/
theorem World.Consistent.insert {identifier secret : Text} {digest : Hash} {row : ApiKeyRow}
    (h : World.Consistent sha256 ⟨store, history⟩) (hopen : store.healthy = true)
    (hkey : WellFormedKey identifier secret)
    (hdigest : sha256 (keyText identifier secret) = .ok digest)
    (hfresh : store.database.keys.lookup identifier = none)
    (hid : row.record.id = identifier) (hname : cString row.record.name = row.record.name)
    (hkeyPrefix : cString row.record.keyPrefix = row.record.keyPrefix)
    (hhash : row.secretHash = digest.bytes) (hrevoked : row.record.revokedAt = none) :
    World.Consistent sha256
      ⟨{ store with
          database := { store.database with keys := store.database.keys.insert identifier row }
          active := store.active.insert identifier { record := row.record, hash := digest } },
        { history with
          issued := ⟨keyText identifier secret, row.record⟩ :: history.issued }⟩ where
  rows id row' hrow := by
    change (store.database.keys.insert identifier row).lookup id = some row' at hrow
    by_cases hsame : id = identifier
    · subst hsame
      obtain rfl : row = row' := by
        simpa only [AList.lookup_insert, Option.some.injEq] using hrow
      exact {
        key := ⟨_, List.mem_cons_self, hid, fun _ => rfl, digest, hdigest, hhash⟩
        current := by
          refine iff_of_true hrevoked fun hmem => ?_
          have hsome := h.revoked id hmem
          rw [hfresh] at hsome
          cases hsome
        same := hid
        idText := by rw [hid, cString_identifier hkey.identifierChars]
        nameText := hname
        prefixText := hkeyPrefix }
    · rw [AList.lookup_insert_ne hsame] at hrow
      have hold := h.rows id row' hrow
      obtain ⟨issued, hissued, hrest⟩ := hold.key
      exact { hold with key := ⟨issued, List.mem_cons_of_mem _ hissued, hrest⟩ }
  issued := by
    refine List.forall_mem_cons.2 ⟨⟨?_, secret, ?_⟩, fun issued hissued => ?_⟩
    · change ((store.database.keys.insert identifier row).lookup row.record.id).isSome
      rw [hid, AList.lookup_insert]
      rfl
    · rw [hid]
      exact ⟨hkey, rfl⟩
    · obtain ⟨hsome, hrest⟩ := h.issued issued hissued
      exact ⟨isSome_lookup_insert hsome, hrest⟩
  distinct := by
    refine List.nodup_cons.2 ⟨fun hmem => ?_, h.distinct⟩
    obtain ⟨issued, hissued, hsame⟩ := List.mem_map.1 hmem
    have hsome := (h.issued issued hissued).1
    rw [hsame.trans hid, hfresh] at hsome
    cases hsome
  revoked id hid' := isSome_lookup_insert (h.revoked id hid')
  cache _ := by
    intro id
    change (store.active.insert identifier _).lookup id =
      ((store.database.keys.insert identifier row).lookup id).bind activeKey
    by_cases hsame : id = identifier
    · subst hsame
      have hsize : row.secretHash.length = 32 := by rw [hhash, digest.size]
      have hactive : activeKey row = some { record := row.record, hash := digest } := by
        simp only [activeKey, hrevoked, Option.isSome_none, Bool.false_eq_true, if_false,
          dif_pos hsize, Option.some.injEq, ActiveApiKey.mk.injEq, true_and]
        cases digest
        simp only [Hash.mk.injEq]
        exact hhash
      rw [AList.lookup_insert, AList.lookup_insert, Option.bind_some, hactive]
    · rw [AList.lookup_insert_ne hsame, AList.lookup_insert_ne hsame]
      exact h.cache hopen id
  closed hclosed := by
    change store.healthy = false at hclosed
    rw [hopen] at hclosed
    cases hclosed

/-- An attempt to create a key hands one out and stores it, or leaves everything as it was. -/
theorem createAttempt_yields {name : Text} {priority : ℤ} {random : Attempt}
    (h : World.Consistent sha256 ⟨store, history⟩) (hopen : store.healthy = true)
    (hname : validName name = true) :
    (createAttempt sha256 name priority random).Yields store fun r store' =>
      match r with
      | .ok (some created) => World.Consistent sha256
          ⟨store', { history with issued := ⟨created.key, created.record⟩ :: history.issued }⟩
      | _ => store' = store := by
  have hkey := wellFormedKey_encode random.identifierSize random.secretSize
  refine yields_attempt_bind (fun _ => rfl) (yields_attempt_bind (fun _ => rfl) ?_)
  dsimp only
  cases hdigest : sha256 (keyText (hexEncode random.identifier)
    (base64urlEncode random.secret)) with
  | error error => exact yields_fail rfl
  | ok digest =>
      dsimp only
      refine yields_bind (M := fun inserted store' => (store.database.insertKey _).1 = inserted ∧
        store' = { store with database := (store.database.insertKey _).2 })
        (yields_onDatabase (yields_statement (fun _ => rfl) (fun _ => rfl) ⟨rfl, rfl⟩)) ?_
      rintro inserted store' ⟨hinserted, rfl⟩
      cases inserted with
      | false =>
          refine yields_pure ?_
          change _ = store
          rw [insertKey_eq_self hinserted]
      | true =>
          obtain ⟨hfresh, hinsert⟩ := insertKey_eq hinserted
          rw [hinsert]
          have hidentifier := cString_identifier hkey.identifierChars
          rw [hidentifier] at hfresh
          have hactive : store.active.contains (hexEncode random.identifier) = false := by
            have hcache := h.cache hopen (hexEncode random.identifier)
            rw [hfresh] at hcache
            rw [Map.contains, hcache]
            rfl
          refine yields_modify_bind (yields_pure ?_)
          rw [if_neg (by simp [hactive])]
          simp only [hidentifier, cString_name hname, cString_keyPrefix hkey]
          exact h.insert hopen hkey hdigest hfresh rfl (cString_name hname) (cString_keyPrefix hkey)
            rfl rfl

theorem createLoop_yields {name : Text} {priority : ℤ} {random : ℕ → Attempt}
    (h : World.Consistent sha256 ⟨store, history⟩) (hopen : store.healthy = true)
    (hname : validName name = true) (attempts : ℕ) :
    (createLoop sha256 name priority random attempts).Yields store fun r store' =>
      match r with
      | .ok created => World.Consistent sha256
          ⟨store', { history with issued := ⟨created.key, created.record⟩ :: history.issued }⟩
      | .error _ => store' = store := by
  induction attempts with
  | zero => exact yields_fail rfl
  | succ attempts ih =>
      refine yields_bind (M := fun created store' => created.elim (store' = store) fun created =>
        World.Consistent sha256 ⟨store',
          { history with issued := ⟨created.key, created.record⟩ :: history.issued }⟩) ?_ ?_
      · refine (createAttempt_yields h hopen hname).mono fun r store' hr => ?_
        cases r with
        | error error => exact hr
        | ok created => cases created <;> exact hr
      · intro created store' hcreated
        cases created with
        | none =>
            obtain rfl : store' = store := hcreated
            exact ih
        | some created => exact yields_pure hcreated

theorem create_yields (name : Text) (priority : ℤ) (random : ℕ → Attempt)
    (h : World.Consistent sha256 ⟨store, history⟩) :
    (create sha256 name priority random).Yields store fun r store' => World.Consistent sha256
      ⟨store', history.note (.create name priority random) (.created r)⟩ := by
  unfold create
  split
  · exact yields_fail h
  rename_i hname
  split
  · exact yields_fail h
  refine yields_get_bind ?_
  split
  · exact yields_fail h
  rename_i hopen
  refine (createLoop_yields h (by simpa using hopen) (by simpa using hname) 4).mono ?_
  intro r store' hr
  cases r with
  | ok created => exact hr
  | error error =>
      obtain rfl : store' = store := hr
      exact h

/-- The same change of a key's row in the database and of the key in memory. -/
theorem World.Consistent.modify {id : Text} {row : ApiKeyRow} {active : ActiveApiKey}
    {f : ApiKeyRecord → ApiKeyRecord} (h : World.Consistent sha256 ⟨store, history⟩)
    (hopen : store.healthy = true) (hrow : store.database.keys.lookup id = some row)
    (hactive : store.active.lookup id = some active) (hid : (f row.record).id = row.record.id)
    (hname : cString (f row.record).name = (f row.record).name)
    (hkeyPrefix : (f row.record).keyPrefix = row.record.keyPrefix)
    (hrevoked : (f row.record).revokedAt = row.record.revokedAt) :
    World.Consistent sha256
      ⟨{ store with
          database := { store.database with
            keys := store.database.keys.insert id { row with record := f row.record } }
          active := store.active.insert id { active with record := f row.record } },
        history.noteRecord (f row.record)⟩ := by
  have hold := h.rows id row hrow
  have hsameId : (f row.record).id = id := hid.trans hold.same
  have hcache : some active = activeKey row := by
    have := h.cache hopen id
    rwa [hrow, hactive, Option.bind_some] at this
  refine ⟨fun id' row' hrow' => ?_, fun issued hissued => ?_, ?_,
    fun id' hid' => isSome_lookup_insert (h.revoked id' hid'), fun _ id' => ?_, fun hclosed => ?_⟩
  · change (store.database.keys.insert id _).lookup id' = some row' at hrow'
    by_cases hsame : id' = id
    · subst hsame
      obtain rfl := Option.some.inj ((AList.lookup_insert _).symm.trans hrow')
      obtain ⟨issued, hissued, hown, -, hdigest⟩ := hold.key
      exact {
        key := ⟨{ issued with record := f row.record },
          List.mem_map.2 ⟨issued, hissued, if_pos (hown.trans hsameId.symm)⟩, hsameId,
          fun _ => rfl, hdigest⟩
        current := by
          change (f row.record).revokedAt = none ↔ id' ∉ history.revoked
          rw [hrevoked]
          exact hold.current
        same := hsameId
        idText := by
          change cString (f row.record).id = (f row.record).id
          rw [hid, hold.idText]
        nameText := hname
        prefixText := by
          change cString (f row.record).keyPrefix = (f row.record).keyPrefix
          rw [hkeyPrefix, hold.prefixText] }
    · rw [AList.lookup_insert_ne hsame] at hrow'
      have hother := h.rows id' row' hrow'
      obtain ⟨issued, hissued, hown, hrest⟩ := hother.key
      have hne : issued.record.id ≠ (f row.record).id := by
        rw [hown, hsameId]
        exact hsame
      exact { hother with
        key := ⟨issued, List.mem_map.2 ⟨issued, hissued, if_neg hne⟩, hown, hrest⟩ }
  · obtain ⟨issued', hissued', hmapped⟩ := List.mem_map.1 hissued
    obtain ⟨hsome, hkey⟩ := h.issued issued' hissued'
    obtain ⟨hid', hkey'⟩ : issued.record.id = issued'.record.id ∧ issued.key = issued'.key := by
      rw [← hmapped]
      split_ifs with hown
      · exact ⟨hown.symm, rfl⟩
      · exact ⟨rfl, rfl⟩
    rw [hid', hkey']
    exact ⟨isSome_lookup_insert hsome, hkey⟩
  · rw [History.noteRecord_ids]
    exact h.distinct
  · change (store.active.insert id _).lookup id' = ((store.database.keys.insert id _).lookup id').bind activeKey
    by_cases hsame : id' = id
    · subst hsame
      rw [AList.lookup_insert, AList.lookup_insert, Option.bind_some]
      unfold activeKey at hcache ⊢
      dsimp only
      rw [hrevoked]
      split_ifs at hcache ⊢
      rw [Option.some.injEq] at hcache
      rw [hcache]
    · rw [AList.lookup_insert_ne hsame, AList.lookup_insert_ne hsame]
      exact h.cache hopen id'
  · change store.healthy = false at hclosed
    rw [hopen] at hclosed
    cases hclosed

theorem updateKey_eq (db : Database) (id : Text) (f : ApiKeyRecord → ApiKeyRecord) :
    ((db.updateKey id f).1 = 0 ∧ (db.updateKey id f).2 = db) ∨
      ∃ row, db.keys.lookup id = some row ∧ row.record.revokedAt = none ∧
        (db.updateKey id f).1 = 1 ∧ (db.updateKey id f).2 =
          { db with keys := db.keys.insert id { row with record := f row.record } } := by
  unfold Database.updateKey
  cases hrow : db.keys.lookup id with
  | none => exact Or.inl ⟨rfl, rfl⟩
  | some row =>
      dsimp only
      split_ifs with hrevoked
      · exact Or.inl ⟨rfl, rfl⟩
      · exact Or.inr ⟨row, rfl, Option.not_isSome_iff_eq_none.1 hrevoked, rfl, rfl⟩

theorem update_yields {id : PathId} {name : Option Text} {priority : Option ℤ} {now : ℤ}
    (h : World.Consistent sha256 ⟨store, history⟩) :
    (update id.text name priority now).Yields store fun r store' => World.Consistent sha256
      ⟨store', history.note (.update id name priority now) (.updated r)⟩ := by
  unfold update
  split
  · exact yields_fail h
  split
  · exact yields_fail h
  rename_i hname
  split
  · exact yields_fail h
  refine yields_get_bind ?_
  split
  · exact yields_fail h
  rename_i hopen
  rw [Bool.not_eq_true, Bool.not_eq_false'] at hopen
  cases hactive : store.active.lookup id.text with
  | none => exact yields_fail h
  | some active =>
      dsimp only
      have hcache := h.cache hopen id.text
      rw [hactive] at hcache
      have hid := cString_identifier id.chars
      refine yields_bind (M := fun changes store' => ∃ updated,
        store.database.updateKey (cString id.text) updated = (changes, store'.database) ∧
          store' = { store with database := store'.database } ∧ updated = fun record =>
            { record with
              name := cString (name.getD active.record.name)
              priority := priority.getD active.record.priority
              updatedAt := now })
        (yields_onDatabase (yields_statement (fun _ => h) (fun _ => h) ⟨_, rfl, rfl, rfl⟩)) ?_
      rintro changes store' ⟨updated, hupdate, hstore, hupdated⟩
      rw [hid] at hupdate
      rcases updateKey_eq store.database id.text updated with
        ⟨hchanges, hdb⟩ | ⟨row, hrow, hrevoked, hchanges, hdb⟩
      · rw [hupdate] at hchanges hdb
        obtain rfl : changes = 0 := hchanges
        refine yields_fail ?_
        rw [hstore, show store'.database = store.database from hdb]
        exact h
      · rw [hupdate] at hchanges hdb
        obtain rfl : changes = 1 := hchanges
        refine yields_modify_bind (yields_pure ?_)
        rw [hrow, Option.bind_some] at hcache
        have hrecord : active.record = row.record := by
          unfold activeKey at hcache
          split_ifs at hcache
          rw [Option.some.inj hcache]
        have hnameText : cString (name.getD active.record.name) = name.getD active.record.name := by
          cases name with
          | none =>
              rw [Option.getD_none, hrecord]
              exact (h.rows id.text row hrow).nameText
          | some name => exact cString_name (by simpa using hname)
        rw [hstore, show store'.database = _ from hdb]
        have hmodify := h.modify (f := updated) hopen hrow hactive
          (by rw [hupdated]) (by simp [hupdated, hnameText]) (by rw [hupdated]) (by rw [hupdated])
        rw [hupdated, hnameText] at hmodify
        rw [hupdated, hnameText]
        rw [hrecord] at hmodify ⊢
        exact hmodify

/-- The row of a key is revoked, and its key is not in memory. -/
theorem World.Consistent.revoke {store' : ApiKeyStore} {id : Text} {row row' : ApiKeyRow}
    (h : World.Consistent sha256 ⟨store, history⟩) (hopen : store.healthy = true)
    (hrow : store.database.keys.lookup id = some row)
    (hrow' : store'.database.keys.lookup id = some row')
    (hhash : row'.secretHash = row.secretHash) {revokedAt : Option ℤ} {updatedAt : ℤ}
    (hrecord : row'.record = { row.record with revokedAt, updatedAt })
    (hrevoked : revokedAt.isSome)
    (hothers : ∀ id' ≠ id, store'.database.keys.lookup id' = store.database.keys.lookup id')
    (hactive : ∀ id' ≠ id, store'.active.lookup id' = store.active.lookup id')
    (hgone : store'.active.lookup id = none) (hopen' : store'.healthy = true) :
    World.Consistent sha256
      ⟨store', { history with revoked := id :: history.revoked }⟩ := by
  have hold := h.rows id row hrow
  have hsome : row'.record.revokedAt.isSome := by rwa [hrecord]
  have hkept : ∀ id', (store.database.keys.lookup id').isSome →
      (store'.database.keys.lookup id').isSome := by
    intro id' hid'
    by_cases hsame : id' = id
    · rw [hsame, hrow']
      rfl
    · rwa [hothers id' hsame]
  refine ⟨fun id' row'' hrow'' => ?_, fun issued hissued => ?_, h.distinct, ?_, fun _ id' => ?_,
    fun hclosed => ?_⟩
  · by_cases hsame : id' = id
    · subst hsame
      obtain rfl := Option.some.inj (hrow'.symm.trans hrow'')
      obtain ⟨issued, hissued, hown, -, hdigest⟩ := hold.key
      refine ⟨⟨issued, hissued, hown, fun hnone => ?_, hhash ▸ hdigest⟩, ?_, ?_, ?_, ?_, ?_⟩
      · rw [hnone] at hsome
        cases hsome
      · refine iff_of_false (fun hnone => ?_) fun hnot => hnot List.mem_cons_self
        rw [hnone] at hsome
        cases hsome
      all_goals rw [hrecord]
      · exact hold.same
      · exact hold.idText
      · exact hold.nameText
      · exact hold.prefixText
    · change store'.database.keys.lookup id' = some row'' at hrow''
      rw [hothers id' hsame] at hrow''
      have hother := h.rows id' row'' hrow''
      refine { hother with current := hother.current.trans ?_ }
      simp [hsame]
  · obtain ⟨hrow, hkey⟩ := h.issued issued hissued
    exact ⟨hkept _ hrow, hkey⟩
  · refine List.forall_mem_cons.2 ⟨?_, fun id' hid' => hkept id' (h.revoked id' hid')⟩
    change (store'.database.keys.lookup id).isSome
    rw [hrow']
    rfl
  · change store'.active.lookup id' = (store'.database.keys.lookup id').bind activeKey
    by_cases hsame : id' = id
    · rw [hsame, hgone, hrow', Option.bind_some, activeKey, if_pos hsome]
    · rw [hactive id' hsame, hothers id' hsame]
      exact h.cache hopen id'
  · change store'.healthy = false at hclosed
    rw [hopen'] at hclosed
    cases hclosed

/-- What the transaction of `revoke` leaves. -/
inductive Revocation (id : Text) (now : ℤ) (db db' : Database) : Bool → Prop where
  | already (row : ApiKeyRow) (hrow : db.keys.lookup id = some row)
      (hrevoked : row.record.revokedAt.isSome) (hdb : db' = db) : Revocation id now db db' true
  | done (row : ApiKeyRow) (hrow : db.keys.lookup id = some row)
      (hrevoked : row.record.revokedAt = none)
      (hdb : db' = { db with
        keys := db.keys.insert id
          { row with record := { row.record with revokedAt := some now, updatedAt := now } }
        leases := db.leases.filter fun lease => !(lease.ownerKeyId == id) }) :
      Revocation id now db db' false

theorem revokeRow_yields {db : Database} {id : Text} {now : ℤ} (hid : cString id = id) :
    (revokeRow id now).Yields db fun r db' =>
      ∀ alreadyRevoked, r = .ok alreadyRevoked → Revocation id now db db' alreadyRevoked := by
  have hfail : ∀ (error : Error) (db' : Database) (b : Bool),
      (.error error : Except Error Bool) = .ok b → Revocation id now db db' b := by
    intro error db' b h
    cases h
  unfold revokeRow
  rw [hid]
  refine yields_bind (M := fun row db' => row = db.keys.lookup id ∧ db' = db)
    (yields_statement (fun _ => hfail _ _) (fun _ => hfail _ _) ⟨rfl, rfl⟩) ?_
  rintro row db' ⟨hrow, rfl⟩
  cases row with
  | none => exact yields_fail (hfail _ _)
  | some row =>
      dsimp only
      split
      · rename_i hrevoked
        refine yields_pure fun b hb => ?_
        cases hb
        exact .already row hrow.symm hrevoked rfl
      · refine yields_bind (M := fun changes db₁ => db'.updateKey id (fun record =>
          { record with revokedAt := some now, updatedAt := now }) = (changes, db₁))
          (yields_statement (fun _ => hfail _ _) (fun _ => hfail _ _) rfl) ?_
        intro changes db₁ hupdate
        split
        · exact yields_fail (hfail _ _)
        · rename_i hchanges
          refine yields_bind (M := fun _ db₂ => db₂ = db₁.deleteLeases fun lease =>
            lease.ownerKeyId == id)
            (yields_statement (fun _ => hfail _ _) (fun _ => hfail _ _) rfl) ?_
          rintro - db₂ rfl
          refine yields_pure fun b hb => ?_
          cases hb
          rcases updateKey_eq db' id (fun record =>
            { record with revokedAt := some now, updatedAt := now }) with
            ⟨hnone, -⟩ | ⟨row', hrow', hrevoked, -, hdb⟩
          · rw [hupdate] at hnone
            exact absurd hnone (by omega)
          · rw [hupdate] at hdb
            refine .done row' hrow' hrevoked ?_
            rw [show db₁ = _ from hdb]
            rfl

theorem revoke_yields {id : PathId} {now : ℤ} (h : World.Consistent sha256 ⟨store, history⟩) :
    (revoke id.text now).Yields store fun r store' =>
      World.Consistent sha256 ⟨store', history.note (.revoke id now) (.revoked r)⟩ := by
  unfold ApiKeyStore.revoke
  refine yields_get_bind ?_
  split
  · exact yields_fail h
  rename_i hopen
  rw [Bool.not_eq_true, Bool.not_eq_false'] at hopen
  refine yields_bind (M := fun alreadyRevoked store' => store' = { store with
    database := store'.database } ∧
      Revocation id.text now store.database store'.database alreadyRevoked)
    (yields_onDatabase (yields_transaction (fun _ => h)
      ((revokeRow_yields (cString_identifier id.chars)).mono fun r db' hr => ?_))) ?_
  · cases r with
    | ok alreadyRevoked => exact ⟨⟨rfl, hr alreadyRevoked rfl⟩, fun _ => h⟩
    | error error => exact h
  · rintro alreadyRevoked store' ⟨hstore, hrevocation⟩
    cases hrevocation with
    | already row hrow hrevoked hdb =>
        refine yields_pure ?_
        rw [hdb] at hstore
        rw [hstore]
        refine h.revoke hopen hrow hrow rfl rfl hrevoked (fun _ _ => rfl) (fun _ _ => rfl) ?_ hopen
        rw [h.cache hopen id.text, hrow, Option.bind_some, activeKey, if_pos hrevoked]
    | done row hrow hrevoked hdb =>
        refine yields_modify ?_
        rw [hdb] at hstore
        rw [hstore]
        exact h.revoke hopen hrow (AList.lookup_insert _) rfl rfl rfl
          (fun id' hne => AList.lookup_insert_ne hne) (fun id' hne => AList.lookup_erase_ne hne)
          (AList.lookup_erase _ _) hopen

theorem loadActive_lookup {entries : List (Sigma fun _ : Text => ApiKeyRow)}
    (hnodup : entries.NodupKeys)
    (hrows : ∀ e ∈ entries, e.2.record.id = e.1 ∧ cString e.2.record.id = e.2.record.id ∧
      cString e.2.record.name = e.2.record.name ∧
      cString e.2.record.keyPrefix = e.2.record.keyPrefix)
    {active : Map Text ActiveApiKey} (h : loadActive (entries.map Sigma.snd) = some active)
    (id : Text) : active.lookup id = (entries.dlookup id).bind activeKey := by
  induction entries generalizing active with
  | nil =>
      obtain rfl := Option.some.inj h
      rfl
  | cons e entries ih =>
      obtain ⟨hsame, hid, hname, hkeyPrefix⟩ := hrows e List.mem_cons_self
      obtain ⟨hfresh, hnodup⟩ := List.nodupKeys_cons.1 hnodup
      have hrest := fun {active} => @ih hnodup (fun e he => hrows e (List.mem_cons_of_mem _ he)) active
      rw [List.map_cons, loadActive] at h
      obtain ⟨key, row⟩ := e
      dsimp only at hsame hid hname hkeyPrefix hfresh h
      split_ifs at h with hrevoked hsize
      · rw [hrest h]
        by_cases heq : id = key
        · subst heq
          rw [List.dlookup_cons_eq, List.dlookup_eq_none.2 hfresh]
          simp [activeKey, hrevoked]
        · rw [List.dlookup_cons_ne _ _ heq]
      · obtain ⟨active', hload, rfl⟩ := Option.map_eq_some_iff.1 h
        rw [hid, hname, hkeyPrefix, hsame]
        by_cases heq : id = key
        · subst heq
          rw [AList.lookup_insert, List.dlookup_cons_eq, Option.bind_some, activeKey,
            if_neg hrevoked, dif_pos hsize, ← hsame]
        · rw [AList.lookup_insert_ne heq, List.dlookup_cons_ne _ _ heq, hrest hload]

theorem openDatabase_yields (db : Database) :
    openDatabase.Yields db fun r db' =>
      db' = db ∧ ∀ active, r = .ok active → loadActive db.keys.values = some active := by
  have hfail : ∀ error : Error, db = db ∧ ∀ active, (.error error : Except Error _) = .ok active →
      loadActive db.keys.values = some active := by
    intro error
    refine ⟨rfl, fun active h => ?_⟩
    cases h
  refine yields_attempt_bind (fun _ => hfail _) (yields_attempt_bind (fun _ => hfail _) ?_)
  refine yields_bind (M := fun rows db' => rows = db.keys.values ∧ db' = db)
    (yields_statement (fun _ => hfail _) (fun _ => hfail _) ⟨rfl, rfl⟩) ?_
  rintro rows db' ⟨rfl, hdb⟩
  rw [hdb]
  cases hload : loadActive db.keys.values with
  | none => exact yields_fail ⟨rfl, fun active h => by cases h⟩
  | some active =>
      refine yields_pure ⟨rfl, fun active' h => ?_⟩
      cases h
      rfl

/-- The keys that a store loads are those that it had in memory, or it stays closed. -/
theorem reopen_consistent {faults : Faults} (h : World.Consistent sha256 ⟨store, history⟩) :
    World.Consistent sha256 ⟨store.reopen faults, history⟩ := by
  obtain ⟨hdb, hload⟩ := openDatabase_yields store.database faults
  unfold reopen
  rcases hresult : openDatabase store.database faults with ⟨r, database, rest⟩
  rw [hresult] at hdb hload
  obtain rfl : database = store.database := hdb
  cases r with
  | error error =>
      exact ⟨h.rows, h.issued, h.distinct, h.revoked, fun hopen => (by cases hopen), fun _ => rfl⟩
  | ok active =>
      refine ⟨h.rows, h.issued, h.distinct, h.revoked, fun _ => ?_,
        fun hclosed => (by cases hclosed)⟩
      apply loadActive_lookup store.database.keys.nodupKeys ?_ (hload active rfl)
      intro e he
      have hrow := h.rows e.1 e.2 (Map.mem_entries_iff.1 he)
      exact ⟨hrow.same, hrow.idText, hrow.nameText, hrow.prefixText⟩

/-- Every operation, with any of its statements failing, keeps the store consistent. -/
theorem World.Consistent.perform (h : w.Consistent sha256) (faults : Faults)
    (operation : Operation) : (w.perform sha256 faults operation).2.Consistent sha256 := by
  have hleaves : ∀ {α : Type} {p : Program ApiKeyStore Error α}, Preserves SameKeys p →
      World.Consistent sha256 ⟨(p w.store faults).2.1, w.history⟩ :=
    fun hp => h.of_sameKeys (hp w.store faults)
  cases operation with
  | create name priority random => exact create_yields name priority random h faults
  | update id name priority now => exact update_yields h faults
  | revoke id now => exact revoke_yields h faults
  | reopen => exact reopen_consistent h
  | activeLease now => exact hleaves (activeBackgroundLease_sameKeys now)
  | acquireLease owner now duration identifier =>
      exact hleaves (p := acquireBackgroundLease owner.text now duration identifier)
        (acquireBackgroundLease_sameKeys owner.text now duration identifier)
  | renewLease owner leaseId now duration =>
      exact hleaves (p := renewBackgroundLease owner.text leaseId.text now duration)
        (renewBackgroundLease_sameKeys owner.text leaseId.text now duration)
  | releaseLease owner leaseId =>
      exact hleaves (p := releaseBackgroundLease owner.text leaseId.text)
        (releaseBackgroundLease_sameKeys owner.text leaseId.text)

theorem consistent_initial : World.Consistent sha256 {} where
  rows id row hrow := by cases hrow
  issued issued hissued := by cases hissued
  distinct := List.nodup_nil
  revoked id hid := by cases hid
  cache _ _ := rfl
  closed _ := rfl

/-- The digest of the header's key is that of no other key that was handed out. -/
def CollisionFree (sha256 : Text → Result Hash) (history : History) (header : Text) : Prop :=
  ∀ identifier token, parseBearer header = some (identifier, token) →
    ∀ issued ∈ history.issued, ∀ digest, sha256 token = .ok digest →
      sha256 issued.key = .ok digest → token = issued.key

/-- The header is the scheme followed by a key that was handed out, and the revocation of the key has
not been answered as done. -/
structure Admits (history : History) (header : Text) (issued : IssuedKey) : Prop where
  handedOut : issued ∈ history.issued
  current : issued.record.id ∉ history.revoked
  header : header = bearerScheme ++ issued.key

theorem World.Consistent.parseBearer (h : w.Consistent sha256) {issued : IssuedKey}
    (hissued : issued ∈ w.history.issued) :
    parseBearer (bearerScheme ++ issued.key) = some (issued.record.id, issued.key) := by
  obtain ⟨-, secret, hkey, hsame⟩ := h.issued issued hissued
  exact parseBearer_eq_some_iff.2 ⟨secret, hkey, hsame, rfl⟩

theorem activeKey_eq_some {row : ApiKeyRow} {active : ActiveApiKey}
    (h : activeKey row = some active) :
    row.record.revokedAt = none ∧ active.record = row.record ∧ active.hash.bytes = row.secretHash := by
  unfold activeKey at h
  split_ifs at h with hrevoked hsize
  obtain rfl := Option.some.inj h
  exact ⟨Option.not_isSome_iff_eq_none.1 hrevoked, rfl, rfl⟩

theorem activeKey_of_current {row : ApiKeyRow} {digest : Hash}
    (hcurrent : row.record.revokedAt = none) (hhash : row.secretHash = digest.bytes) :
    activeKey row = some { record := row.record, hash := digest } := by
  have hsize : row.secretHash.length = 32 := by rw [hhash, digest.size]
  cases digest
  simp only [activeKey, hcurrent, Option.isSome_none, Bool.false_eq_true, if_false, dif_pos hsize]
  simp only at hhash
  simp only [hhash]

/-- A header authenticates as the key that it carries, and as no other. -/
theorem authenticateBearer_eq_some_iff (h : w.Consistent sha256) (hopen : w.store.healthy = true)
    {header : Text} (hfree : CollisionFree sha256 w.history header)
    {principal : AuthenticatedApiKey} :
    w.store.authenticateBearer sha256 header = some principal ↔
      ∃ issued, Admits w.history header issued ∧
        principal = ⟨issued.record.id, issued.record.name, issued.record.priority⟩ := by
  constructor
  · intro hauth
    unfold authenticateBearer at hauth
    cases hparse : Gateway.parseBearer header with
    | none => simp [hparse] at hauth
    | some parsed =>
        obtain ⟨identifier, token⟩ := parsed
        simp only [hparse, hopen, Bool.not_true, Bool.false_eq_true, if_false] at hauth
        cases hdigest : sha256 token with
        | error error => simp [hdigest] at hauth
        | ok digest =>
            simp only [hdigest] at hauth
            cases hactive : w.store.active.lookup identifier with
            | none => simp [hactive] at hauth
            | some active =>
                simp only [hactive] at hauth
                split_ifs at hauth with hhash
                have hcache := h.cache hopen identifier
                rw [hactive] at hcache
                obtain ⟨row, hrow, hkey⟩ := Option.bind_eq_some_iff.1 hcache.symm
                obtain ⟨hcurrent, hrecord, hbytes⟩ := activeKey_eq_some hkey
                have hrows := h.rows identifier row hrow
                obtain ⟨issued, hissued, hown, hsame, digest', hdigest', hsecret⟩ := hrows.key
                have hdigests : digest' = digest := by
                  rw [← hhash]
                  cases hcase : active.hash
                  cases digest'
                  simp only [Hash.mk.injEq]
                  rw [hcase] at hbytes
                  exact hsecret.symm.trans hbytes.symm
                have htoken := hfree identifier token hparse issued hissued digest hdigest
                  (hdigests ▸ hdigest')
                obtain ⟨secret, -, -, hheader⟩ := parseBearer_eq_some_iff.1 hparse
                refine ⟨issued, ⟨hissued, ?_, ?_⟩, ?_⟩
                · rw [hown]
                  exact hrows.current.1 hcurrent
                · rw [hheader, htoken]
                · rw [← Option.some.inj hauth, hrecord, hsame hcurrent]
  · rintro ⟨issued, ⟨hissued, hcurrent, rfl⟩, rfl⟩
    obtain ⟨row, hrow⟩ := Option.isSome_iff_exists.1 (h.issued issued hissued).1
    have hrows := h.rows _ row hrow
    obtain ⟨issued', hissued', hown, hsame, digest, hdigest, hhash⟩ := hrows.key
    obtain rfl : issued' = issued :=
      List.inj_on_of_nodup_map h.distinct hissued' hissued hown
    have hunrevoked := hrows.current.2 hcurrent
    have hactive : w.store.active.lookup issued'.record.id =
        some { record := row.record, hash := digest } := by
      rw [h.cache hopen, hrow, Option.bind_some, activeKey_of_current hunrevoked hhash]
    have hauth : w.store.authenticateBearer sha256 (bearerScheme ++ issued'.key) =
        some ⟨row.record.id, row.record.name, row.record.priority⟩ := by
      simp [authenticateBearer, h.parseBearer hissued, hdigest, hopen, hactive]
    rw [hauth, hsame hunrevoked]

/-- While the store is open, its active keys are the rows that are not revoked, and a header
authenticates exactly where it carries a key that was handed out and whose revocation no answer has
reported, under the name and the priority that were last answered. A store that could not be opened
has no active keys and authenticates nothing. -/
structure KeysSound (sha256 : Text → Result Hash) (w : World) : Prop where
  cache : w.store.healthy = true → CacheEquals w.store
  authenticates : w.store.healthy = true → ∀ header, CollisionFree sha256 w.history header →
    ∀ principal, w.store.authenticateBearer sha256 header = some principal ↔
      ∃ issued, Admits w.history header issued ∧
        principal = ⟨issued.record.id, issued.record.name, issued.record.priority⟩
  parses : ∀ issued ∈ w.history.issued,
    Gateway.parseBearer (bearerScheme ++ issued.key) = some (issued.record.id, issued.key)
  closed : w.store.healthy = false → w.store.active = ∅ ∧
    ∀ header, w.store.authenticateBearer sha256 header = none

theorem World.Consistent.keysSound (h : w.Consistent sha256) : KeysSound sha256 w where
  cache := h.cache
  authenticates hopen _ hfree _ := authenticateBearer_eq_some_iff h hopen hfree
  parses _ hissued := h.parseBearer hissued
  closed hclosed := by
    refine ⟨h.closed hclosed, fun header => ?_⟩
    unfold authenticateBearer
    cases Gateway.parseBearer header with
    | none => rfl
    | some parsed => cases hdigest : sha256 parsed.2 <;> simp [hdigest, hclosed]

end ApiKeyStore

end InferDeck.Gateway
