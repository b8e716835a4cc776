import AsterBridge.Db.DataDir

/-!
# Opening the database

`Database::open_with_key`: an interrupted switch to the encrypted database is undone, a plaintext
database is exported and shredded, one that cannot be read is set aside, and so is one whose schema
cannot be prepared. An `outbox` table without its core columns is renamed.

The schema is a list of statements. Of an index only the columns matter that it needs; what updates
and triggers leave of the rows of a table is a parameter.
-/

set_option autoImplicit false

namespace AsterBridge.Db.Startup

open AsterBridge.Lib.Faults AsterBridge.Db.DataDir AsterBridge.Db.DataDir.World

variable {κ ρ : Type}

/-! ## The schema -/

/-- A statement of `prepare_schema`. -/
inductive Statement where
  | create (table : String) (columns : List String)
  /-- an `ALTER TABLE .. ADD COLUMN` whose result is not looked at -/
  | add (table column : String)
  | index (table : String) (columns : List String)
  /-- a statement that changes rows of a table -/
  | update (table : String) (columns : List String)
deriving DecidableEq

/-- `OUTBOX_TABLE_SQL` -/
def outboxTable : Statement :=
  .create "outbox" ["id", "raw_mime", "envelope_from", "envelope_to", "queued_at", "attempts",
    "last_attempt_at", "last_error", "status"]

/-- The statements before `repair_outbox_table`. -/
def schemaBefore : List Statement :=
  [.create "uid_map" ["aster_id", "folder", "imap_uid"],
    .create "message_keywords" ["aster_id", "keyword"],
    .create "message_cache" ["aster_id", "folder", "subject", "sender", "recipients", "date",
      "flags", "size", "body_cached", "body_text", "raw_headers", "created_at"],
    .create "app_passwords" ["id", "label", "hash", "created_at"],
    .create "sync_state" ["key", "value"],
    .index "message_cache" ["folder"],
    .index "uid_map" ["folder", "imap_uid"],
    .create "jmap_mailbox" ["id", "name", "parent_id", "role", "sort_order", "folder_label"],
    .create "jmap_state" ["type", "counter"],
    .create "jmap_change_log" ["seq", "type", "state", "object_id", "op", "ts"],
    -- SQLite makes it for the first `AUTOINCREMENT`
    .create "sqlite_sequence" ["name", "seq"],
    .index "jmap_change_log" ["type", "state"],
    .create "jmap_blob" ["blob_id", "data", "content_type", "size", "created_ts"],
    .add "message_cache" "thread_id",
    .add "message_cache" "message_id",
    .add "app_passwords" "last_used_at",
    .add "app_passwords" "last_client",
    .add "app_passwords" "use_count",
    .index "message_cache" ["thread_id"],
    .index "message_cache" ["message_id"],
    .index "message_cache" ["folder", "date"],
    .index "jmap_change_log" ["type", "seq"],
    .index "jmap_blob" ["created_ts"],
    .index "app_passwords" ["label"],
    .create "custom_folder" ["label_token", "server_id", "name", "parent_token", "sort_order",
      "created_at"],
    .create "custom_tag" ["tag_token", "server_id", "name", "keyword"],
    .create "message_tag" ["aster_id", "tag_token"],
    .index "message_tag" ["tag_token"],
    .create "custom_tag_alias" ["keyword", "tag_token"],
    .index "custom_tag_alias" ["tag_token"],
    .create "builtin_tag_slot" ["slot", "tag_token"],
    .add "custom_tag" "position",
    -- `rebuild_tag_aliases`
    .update "custom_tag_alias" ["keyword", "tag_token"],
    .update "message_keywords" ["aster_id", "keyword"],
    .create "envelope_nonces" ["aster_id", "nonce", "first_seen"],
    .create "recipient_key_pin" ["pin_id", "identity_fingerprint", "owner_fingerprint", "pq_seen",
      "flagged", "updated_at"],
    .add "recipient_key_pin" "pq_fingerprint",
    .add "recipient_key_pin" "transcript_bound",
    .add "recipient_key_pin" "binding_epoch",
    .add "recipient_key_pin" "binding_fingerprint",
    .add "recipient_key_pin" "hosted",
    .create "message_attachment" ["aster_id", "seq", "name", "content_type", "content_id",
      "is_inline", "size", "data"],
    .add "message_cache" "attachments_state",
    .add "message_cache" "attachment_attempts",
    .index "message_cache" ["folder", "aster_id", "subject", "sender", "recipients", "date", "size",
      "flags", "raw_headers", "thread_id", "attachments_state"],
    .index "message_cache" ["attachments_state"],
    .update "message_cache" ["attachments_state", "raw_headers"],
    .index "message_cache" ["created_at", "body_text"],
    .index "message_cache" ["created_at", "body_text"],
    outboxTable]

/-- The statements after it: `HISTORY_SCHEMA_SQL` first, the full-text index and the repair of the
sizes last. -/
def schemaAfter : List Statement :=
  [.create "listing_member" ["listing", "aster_id", "round"],
    .index "listing_member" ["aster_id"],
    .create "history_prune_queue" ["aster_id"],
    .create "history_retry" ["aster_id", "listing", "attempts", "next_at"],
    .index "outbox" ["status", "queued_at"],
    .create "pending_flag_push" ["aster_id", "bit", "value", "attempts", "queued_at"],
    .create "message_fts" ["aster_id", "subject", "sender", "recipients", "body_text"],
    .update "message_fts" [],
    .update "message_cache" ["size", "body_text"]]

/-- The tables that the statements are about. -/
def Statement.table : Statement → String
  | .create t _ => t
  | .add t _ => t
  | .index t _ => t
  | .update t _ => t

/-- The tables of the schema. -/
def schemaTables : List String := ((schemaBefore ++ schemaAfter).map Statement.table).dedup

/-- `REQUIRED_COLUMNS` -/
def requiredColumns : List (String × List String) :=
  [("uid_map", ["aster_id", "folder", "imap_uid"]),
    ("message_cache", ["aster_id", "folder", "subject", "sender", "recipients", "date", "flags",
      "size", "body_cached", "body_text", "raw_headers", "created_at", "thread_id", "message_id",
      "attachments_state", "attachment_attempts"]),
    ("app_passwords", ["id", "label", "hash", "created_at", "last_used_at", "last_client",
      "use_count"]),
    ("sync_state", ["key", "value"]),
    ("jmap_mailbox", ["id", "name", "parent_id", "role", "sort_order", "folder_label"]),
    ("custom_folder", ["label_token", "server_id", "name", "parent_token", "sort_order",
      "created_at"]),
    ("jmap_state", ["type", "counter"]),
    ("jmap_change_log", ["seq", "type", "state", "object_id", "op", "ts"]),
    ("jmap_blob", ["blob_id", "data", "content_type", "size", "created_ts"]),
    ("envelope_nonces", ["aster_id", "nonce", "first_seen"]),
    ("message_attachment", ["aster_id", "seq", "name", "content_type", "content_id", "is_inline",
      "size", "data"]),
    ("outbox", ["id", "raw_mime", "envelope_from", "envelope_to", "queued_at", "attempts",
      "last_attempt_at", "last_error", "status"]),
    ("pending_flag_push", ["aster_id", "bit", "value", "attempts", "queued_at"])]

/-- The columns without which `repair_outbox_table` does not know an `outbox` table. -/
def outboxCore : List String := ["id", "raw_mime", "envelope_from", "envelope_to", "queued_at"]

/-- The columns that it adds. -/
def outboxAdditions : List String := ["attempts", "last_attempt_at", "last_error", "status"]

/-- The name of a table that it sets aside. -/
def asideTable (stamp : Nat) : String := "outbox_incompatible_" ++ String.ofList (digits stamp)

/-! ## `prepare_schema` -/

section Schema

variable (rewrite : String → List ρ → List ρ) (key : κ)

/-- What a statement leaves of the tables. -/
def Statement.apply : Statement → Tables ρ → Except String (Tables ρ)
  | .create t columns => fun ts => .ok (ts.create t columns)
  | .add t column => Tables.addColumn t column
  | .index t columns => Tables.createIndex t columns
  | .update t columns => Tables.update t columns (rewrite t)

/-- A statement is run. -/
def Statement.run (x : Statement) : Run κ ρ Unit :=
  match x with
  | .add _ _ => ignore (commit key (x.apply rewrite))
  | _ => commit key (x.apply rewrite)

/-- `repair_outbox_table` -/
def repairOutboxTable : Run κ ρ Unit := do
  let columns ← ask fun w => (w.tablesAt live).tableColumns "outbox"
  if outboxCore.all fun c => columns.contains c then
    Prog.each (fun c =>
      Prog.only (!columns.contains c) (commit key (Tables.addColumn "outbox" c)))
      outboxAdditions
  else do
    let stamp ← unixMillis
    commit key (Tables.rename "outbox" (asideTable stamp))
    outboxTable.run rewrite key

/-- `verify_required_columns` -/
def verifyRequiredColumns : Run κ ρ Unit :=
  Prog.each (fun e => do
    let columns ← ask fun w => (w.tablesAt live).tableColumns e.1
    let missing := e.2.filter fun c => !columns.contains c
    if missing = [] then pure ()
    else Prog.fail ("table " ++ e.1 ++ " is missing columns: " ++ ", ".intercalate missing))
    requiredColumns

/-- `prepare_schema`, after its six settings of the connection. -/
def prepareSchema : Run κ ρ Unit := do
  Prog.each (fun _ => pragma) (List.range 6)
  Prog.each (fun x => Statement.run rewrite key x) schemaBefore
  repairOutboxTable rewrite key
  Prog.each (fun x => Statement.run rewrite key x) schemaAfter
  verifyRequiredColumns

end Schema

/-! ## `open_keyed` -/

section Open

variable [DecidableEq κ] (key : κ)

/-- `restore_plaintext_backup` -/
def restorePlaintextBackup : Run κ ρ Unit := do
  Prog.each (fun suffix => do
    let stray ← fileExists (siblingPath live suffix)
    let kept ← fileExists (siblingPath (plaintextBackupPath live) suffix)
    Prog.only (stray && !kept) (ignore (removeFile (siblingPath live suffix))))
    ["-wal".toList, "-shm".toList]
  moveDbFiles (plaintextBackupPath live) live

/-- The name of the encrypted copy. -/
def encPath : Name := withExtension live "db.enc".toList

/-- `export_encrypted`: the copy is there before it is finished. -/
def exportEncrypted : Run κ ρ Unit := do
  writeFile encPath fun w => .pages (w.tablesAt live)
  writeFile encPath fun w => .database (some key) (w.tablesAt live)

/-- A failed step: the copy is removed and the error returned. -/
def dropEnc (e : String) : Run κ ρ Unit := do
  ignore (removeFile encPath)
  Prog.fail e

/-- The copy holds what the plaintext database holds. -/
def verifyCopy (expected : List (String × Nat)) : Run κ ρ Bool :=
  query encPath fun w =>
    w.readable encPath (some key) && (w.tablesAt encPath).tableRowCounts == expected

/-- The files change places, after the copy was verified. -/
def swapFiles : Run κ ρ Unit := do
  match ← (moveDbFiles live (plaintextBackupPath live)).attempt with
  | .error e =>
      ignore (moveDbFiles (plaintextBackupPath live) live)
      dropEnc ("set the plaintext database aside: " ++ e)
  | .ok _ =>
      match ← (renameFile encPath live).attempt with
      | .error e =>
          ignore (moveDbFiles (plaintextBackupPath live) live)
          dropEnc ("swap encrypted db into place: " ++ e)
      | .ok _ => ignore (shredDbFiles (plaintextBackupPath live))

/-- `migrate_plaintext_with_rename`, from the verified copy on. -/
def replacePlaintext : Run κ ρ Unit := do
  if ← fileExists (plaintextBackupPath live) then
    let stamp ← unixMillis
    let aside := siblingPath live (".plain.".toList ++ digits stamp)
    match ← (moveDbFiles (plaintextBackupPath live) aside).attempt with
    | .error e => dropEnc ("move an older plaintext copy aside: " ++ e)
    | .ok _ => swapFiles
  else swapFiles

/-- `journal_mode` DELETE brings the log into the main file. -/
def leaveLog : Run κ ρ Unit := Prog.atomic fun _ w => .ok ((), w.close live true)

/-- `migrate_plaintext_to_encrypted` -/
def migratePlaintextToEncrypted : Run κ ρ Unit := do
  if ← ask fun w => w.readable live none then
    ignore leaveLog
    let expected ← ask fun w => (w.tablesAt live).tableRowCounts
    ignore (removeFile encPath)
    let exported ← (exportEncrypted key).attempt
    closeConnection live
    match exported with
    | .error e => dropEnc e
    | .ok _ =>
        match ← (verifyCopy key expected).attempt with
        | .ok true => replacePlaintext
        | _ => dropEnc "encrypted migration copy failed verification"
  else
    Prog.fail "bridge.db exists but is neither plaintext nor decryptable with the stored key"

/-- `quarantine_unreadable_db` -/
def quarantineUnreadableDb : Run κ ρ Unit := do
  let stamp ← unixMillis
  let present ← fileExists live
  Prog.only present (renameFile live (withExtension live ("db.unreadable.".toList ++ digits stamp)))
  ignore (removeFile (withExtension live "db-wal".toList))
  ignore (removeFile (withExtension live "db-shm".toList))

/-- `quarantine_incompatible_db` -/
def quarantineIncompatibleDb : Run κ ρ Unit := do
  let stamp ← unixMillis
  let dest := withExtension live ("db.incompatible.".toList ++ digits stamp)
  renameFile live dest
  Prog.each (fun suffix => do
    let present ← fileExists (siblingPath live suffix)
    Prog.only present (ignore (renameFile (siblingPath live suffix) (siblingPath dest suffix))))
    ["-wal".toList, "-shm".toList]

/-- `discard_copied_plaintext_backup` -/
def discardCopiedPlaintextBackup : Run κ ρ Unit := do
  if ← fileExists (plaintextBackupPath live) then
    let backup ← (query (plaintextBackupPath live) fun w =>
      (w.readable (plaintextBackupPath live) none,
        (w.tablesAt (plaintextBackupPath live)).tableRowCounts)).attempt
    match backup with
    | .ok (true, expected) =>
        let held ← Prog.look fun w => (w.tablesAt live).holdsSameRows expected
        Prog.only held (ignore (shredDbFiles (plaintextBackupPath live)))
    | _ => pure ()

/-- The connection of `open_keyed`; SQLite drops the log of a database that is not there. -/
def connect : Run κ ρ Unit :=
  Prog.atomic fun _ w =>
    if w.readable live (some key) then
      .ok ((), if (w.recover live).isSome then w else w.remove (logOf live))
    else .error "failed to open encrypted database"

/-- A database that cannot be read under the key is exported or set aside. -/
def replaceUnreadable : Run κ ρ Unit := do
  if ← fileExists live then
    if ← query live fun w => w.readable live (some key) then pure ()
    else
      if ← query live fun w => w.readable live none then migratePlaintextToEncrypted key
      else quarantineUnreadableDb
  else pure ()

/-- `open_keyed` -/
def openKeyed : Run κ ρ Unit := do
  let present ← fileExists live
  let backup ← fileExists (plaintextBackupPath live)
  Prog.only (!present && backup) restorePlaintextBackup
  replaceUnreadable key
  connect key
  discardCopiedPlaintextBackup

/-- The schema is prepared, or the database is set aside for a new one. -/
def prepareOrReplace (rewrite : String → List ρ → List ρ) : Run κ ρ Unit := do
  match ← (prepareSchema rewrite key).attempt with
  | .ok _ => pure ()
  | .error _ => do
      closeConnection live
      quarantineIncompatibleDb
      openKeyed key
      prepareSchema rewrite key

/-- `Database::open_with_key` -/
def openWithKey (rewrite : String → List ρ → List ρ) : Run κ ρ Unit := do
  openKeyed key
  prepareOrReplace key rewrite
  Prog.modify fun w => { w with conn := some key }

end Open

end AsterBridge.Db.Startup
