import AsterBridge.Lib.Table
import AsterBridge.Lib.Tasks

/-!
# App passwords

`auth/app_passwords.rs`: the table of app passwords, the cache of verified sign-ins in front of
it, and the calls that use both. Argon2 is a relation between stored hashes and passwords without
dashes, the HMAC of the cache key an injective function. A call is a task: each statement on the
database, each lock of the cache and the hashing in between is a step of its own.

A cache entry is only a hint. `cached_match` looks its row up again, so what a call returns was a
row during the call, whatever the cache held.
-/

set_option autoImplicit false

namespace AsterBridge.Auth.AppPasswords

open AsterBridge.Lib AsterBridge.Lib.Tasks AsterBridge.Lib.Runs

universe u v

variable {η : Type u} {κ : Type v}

/-! ## Strings and keys -/

/-- A `str`: its UTF-8 bytes, whose number fits a `u64`. -/
structure Str where
  bytes : List UInt8
  fits : bytes.length < 2 ^ 64
deriving DecidableEq

/-- `to_ascii_lowercase` of a byte -/
def lowerByte (b : UInt8) : UInt8 := if 0x41 ≤ b ∧ b ≤ 0x5a then b + 0x20 else b

/-- `str::to_ascii_lowercase` -/
def Str.toAsciiLowercase (s : Str) : Str :=
  ⟨s.bytes.map lowerByte, by rw [List.length_map]; exact s.fits⟩

/-- `password.replace('-', "")`; the byte of `-` is in no longer sequence. -/
def Str.withoutDashes (s : Str) : Str :=
  ⟨s.bytes.filter (· ≠ 0x2d), Nat.lt_of_le_of_lt (List.length_filter_le _ _) s.fits⟩

/-- The `k` lowest bytes of a number, the lowest first. -/
def leBytes : Nat → Nat → List UInt8
  | 0, _ => []
  | k + 1, n => UInt8.ofNat (n % 256) :: leBytes k (n / 256)

theorem leBytes_length (k n : Nat) : (leBytes k n).length = k := by
  induction k generalizing n with
  | zero => rfl
  | succ k ih => rw [leBytes, List.length_cons, ih]

theorem leBytes_inj {k a b : Nat} (ha : a < 256 ^ k) (hb : b < 256 ^ k)
    (h : leBytes k a = leBytes k b) : a = b := by
  induction k generalizing a b with
  | zero => omega
  | succ k ih =>
      rw [leBytes, leBytes] at h
      injection h with hlow hrest
      have hmod : a % 256 = b % 256 := by
        have hval := congrArg UInt8.toNat hlow
        simp only [UInt8.toNat_ofNat'] at hval
        omega
      have hdiv : a / 256 = b / 256 := by
        apply ih _ _ hrest
        · exact Nat.div_lt_of_lt_mul (by rw [← Nat.pow_succ']; exact ha)
        · exact Nat.div_lt_of_lt_mul (by rw [← Nat.pow_succ']; exact hb)
      omega

/-- What `verify_cache_key` feeds to the HMAC. -/
def keyMessage (username password : Str) : List UInt8 :=
  let user := username.toAsciiLowercase
  let normalized := password.withoutDashes
  leBytes 8 user.bytes.length ++ user.bytes ++ leBytes 8 normalized.bytes.length ++
    normalized.bytes

/-- The key tells the password, up to dashes. -/
theorem keyMessage_inj {username password username' password' : Str}
    (h : keyMessage username password = keyMessage username' password') :
    username.toAsciiLowercase = username'.toAsciiLowercase ∧
      password.withoutDashes = password'.withoutDashes := by
  unfold keyMessage at h
  simp only [List.append_assoc] at h
  obtain ⟨hlen, h⟩ := List.append_inj h (by rw [leBytes_length, leBytes_length])
  have husers : username.toAsciiLowercase.bytes.length =
      username'.toAsciiLowercase.bytes.length :=
    leBytes_inj username.toAsciiLowercase.fits username'.toAsciiLowercase.fits hlen
  obtain ⟨huser, h⟩ := List.append_inj h husers
  obtain ⟨-, hpassword⟩ := List.append_inj h (by rw [leBytes_length, leBytes_length])
  constructor
  · cases hu : username.toAsciiLowercase
    cases hu' : username'.toAsciiLowercase
    rw [hu, hu'] at huser
    congr
  · cases hp : password.withoutDashes
    cases hp' : password'.withoutDashes
    rw [hp, hp'] at hpassword
    congr

/-! ## The table and the cache -/

/-- `VERIFY_CACHE_TTL`, in nanoseconds -/
def verifyCacheTtl : Nat := 300 * 10 ^ 9

/-- `VERIFY_CACHE_MAX` -/
def verifyCacheMax : Nat := 64

/-- A row of `app_passwords` besides its id. -/
structure Row (η : Type u) where
  label : Str
  hash : η

/-- `CachedVerify` -/
structure CachedVerify (η : Type u) where
  id : String
  hash : η
  verifiedAt : Nat

/-- The database table and `VerifyCache::matches`. -/
structure Shared (η : Type u) (κ : Type v) where
  rows : Table String (Row η)
  cache : Table κ (CachedVerify η)

/-- `SELECT id, hash FROM app_passwords` -/
def Shared.listing (s : Shared η κ) : List (String × η) := s.rows.rows.map fun r => (r.1, r.2.hash)

/-- `SELECT hash FROM app_passwords WHERE id = ?1`; an error counts as a row that is gone. -/
def Shared.currentHash (s : Shared η κ) (dbOk : Bool) (id : String) : Option η :=
  if dbOk then (s.rows.get? id).map Row.hash else none

/-- The loop of `verify_match` over the rows: the first one that accepts the password. A hash that
does not parse accepts none. -/
def verifyMatch (verifies : η → Str → Bool) (rows : List (String × η)) (password : Str) :
    Option (String × η) :=
  rows.foldl (fun matched r =>
    if verifies r.2 password.withoutDashes && matched.isNone then some r else matched) none

/-- `verify_and_id` on the rows it reads -/
def verifyAndId (verifies : η → Str → Bool) (rows : List (String × η)) (password : Str) :
    Option String :=
  (verifyMatch verifies rows password).map Prod.fst

/-- The key with the least time, `min_by_key`. -/
def oldest (entries : List (κ × CachedVerify η)) : Option κ :=
  (entries.foldl (fun best e =>
    match best with
    | none => some e
    | some b => if e.2.verifiedAt < b.2.verifiedAt then some e else some b) none).map Prod.fst

/-! ## What a match says -/

section Match

variable {verifies : η → Str → Bool} {rows : List (String × η)} {password : Str}

theorem foldl_matched (m : String × η) :
    rows.foldl (fun matched r =>
      if verifies r.2 password.withoutDashes && matched.isNone then some r else matched) (some m) =
      some m := by
  induction rows with
  | nil => rfl
  | cons r rows ih =>
      rw [List.foldl_cons, Option.isNone_some, Bool.and_false, if_neg Bool.false_ne_true]
      exact ih

/-- The rows after the first match do not count. -/
theorem verifyMatch_eq_find? :
    verifyMatch verifies rows password =
      rows.find? fun r => verifies r.2 password.withoutDashes := by
  unfold verifyMatch
  induction rows with
  | nil => rfl
  | cons r rows ih =>
      rw [List.foldl_cons, Option.isNone_none, Bool.and_true]
      cases h : verifies r.2 password.withoutDashes with
      | true =>
          rw [if_pos rfl, foldl_matched]
          exact (List.find?_cons_of_pos
            (p := fun r : String × η => verifies r.2 password.withoutDashes) h).symm
      | false =>
          rw [if_neg Bool.false_ne_true, ih]
          refine (List.find?_cons_of_neg
            (p := fun r : String × η => verifies r.2 password.withoutDashes) ?_).symm
          rw [h]
          exact Bool.false_ne_true

theorem verifies_of_match {id : String} {hash : η}
    (h : verifyMatch verifies rows password = some (id, hash)) :
    (id, hash) ∈ rows ∧ verifies hash password.withoutDashes = true := by
  rw [verifyMatch_eq_find?] at h
  exact ⟨List.mem_of_find?_eq_some h,
    List.find?_some (p := fun r : String × η => verifies r.2 password.withoutDashes) h⟩

theorem match_of_verifies {r : String × η} (hr : r ∈ rows)
    (h : verifies r.2 password.withoutDashes = true) :
    (verifyMatch verifies rows password).isSome = true := by
  rw [verifyMatch_eq_find?, List.find?_isSome]
  exact ⟨r, hr, h⟩

theorem mem_listing {s : Shared η κ} {id : String} {hash : η} :
    (id, hash) ∈ s.listing ↔ ∃ row, s.rows.get? id = some row ∧ row.hash = hash := by
  simp only [Shared.listing, List.mem_map, Prod.mk.injEq]
  constructor
  · rintro ⟨⟨k, row⟩, hmem, rfl, rfl⟩
    exact ⟨row, Table.get?_eq_some_iff.2 hmem, rfl⟩
  · rintro ⟨row, hrow, rfl⟩
    exact ⟨(id, row), Table.get?_eq_some_iff.1 hrow, rfl, rfl⟩

end Match

variable [DecidableEq κ]

/-- `cache.remove` -/
def remove (cache : Table κ (CachedVerify η)) (key : κ) : Table κ (CachedVerify η) :=
  cache.deleteWhere fun k _ => k = key

/-- A full cache loses its expired entries. -/
def dropExpired (cache : Table κ (CachedVerify η)) (now : Nat) : Table κ (CachedVerify η) :=
  if verifyCacheMax ≤ cache.rows.length then
    cache.deleteWhere fun _ e => verifyCacheTtl ≤ now - e.verifiedAt
  else cache

/-- A cache that is still full loses its oldest entry. -/
def dropOldest (cache : Table κ (CachedVerify η)) : Table κ (CachedVerify η) :=
  if verifyCacheMax ≤ cache.rows.length then
    match oldest cache.rows with
    | some key => remove cache key
    | none => cache
  else cache

/-- The end of `verify_and_id_cached`: room is made in a full cache, then the match is put in. -/
def fill (cache : Table κ (CachedVerify η)) (key : κ) (entry : CachedVerify η) :
    Table κ (CachedVerify η) :=
  (dropOldest (dropExpired cache entry.verifiedAt)).upsert key entry

/-! ## What the cache holds -/

section Cache

variable {cache : Table κ (CachedVerify η)} {key k : κ} {entry e : CachedVerify η}

theorem get?_remove (h : (remove cache key).get? k = some e) : cache.get? k = some e := by
  unfold remove at h
  rw [Table.get?_deleteWhere] at h
  exact (Option.filter_eq_some_iff.1 h).1

theorem get?_dropExpired {now : Nat} (h : (dropExpired cache now).get? k = some e) :
    cache.get? k = some e := by
  unfold dropExpired at h
  split at h
  · rw [Table.get?_deleteWhere] at h
    exact (Option.filter_eq_some_iff.1 h).1
  · exact h

theorem get?_dropOldest (h : (dropOldest cache).get? k = some e) : cache.get? k = some e := by
  unfold dropOldest at h
  split at h
  · split at h
    · exact get?_remove h
    · exact h
  · exact h

/-- Filling the cache puts one entry in and only takes others out. -/
theorem get?_fill (h : (fill cache key entry).get? k = some e) :
    k = key ∧ e = entry ∨ cache.get? k = some e := by
  rw [fill, Table.get?_upsert] at h
  split at h
  · rename_i hk
    exact Or.inl ⟨hk, (Option.some.inj h).symm⟩
  · exact Or.inr (get?_dropExpired (get?_dropOldest h))

end Cache

/-! ## Calls -/

/-- The calls on one database. -/
inductive Call where
  | store (label password : Str)
  | delete (id : String)
  | verifyCached (username password : Str)

/-- Where `verify_and_id_cached` is. -/
inductive Verify (η : Type u) where
  /-- before `cached_match` reads the cache -/
  | begin
  /-- `cached_match` found an entry and looks its row up -/
  | lookup (id : String) (hash : η)
  /-- the row is not the cached one; the entry is removed -/
  | evict
  /-- no cached match; before `hold` -/
  | hold
  /-- before `SELECT id, hash` -/
  | read
  /-- hashing the password against the rows read -/
  | hashing (rows : List (String × η))
  /-- a row matched; before the cache is filled -/
  | fill (id : String) (hash : η)
  | done (result : Option String)

/-- A call in progress or finished. -/
inductive Task (η : Type u) where
  | storing (label password : Str)
  | stored (result : Option String)
  | deleting (id : String)
  /-- `delete` after its statement, before the cache is cleared -/
  | clearing (id : String) (ok : Bool)
  | deleted (id : String) (ok : Bool)
  | verify (username password : Str) (pc : Verify η)

/-- What the environment chooses in a step: the time, whether a statement on the database succeeds,
whether `hold` grants a guard and the blocking task returns, and the id and the hash that `store`
draws. -/
structure Choice (η : Type u) where
  now : Nat
  dbOk : Bool
  granted : Bool
  joined : Bool
  newId : String
  newHash : Option η

variable (hmac : List UInt8 → κ) (verifies : η → Str → Bool)

/-- `verify_cache_key` -/
def verifyCacheKey (username password : Str) : κ := hmac (keyMessage username password)

variable [DecidableEq η]

/-- A step of `verify_and_id_cached`. -/
def runVerify (username password : Str) (c : Choice η) (s : Shared η κ) :
    Verify η → Shared η κ × Verify η
  | .begin =>
      let key := verifyCacheKey hmac username password
      match s.cache.get? key with
      | none => (s, .hold)
      | some entry =>
          if verifyCacheTtl ≤ c.now - entry.verifiedAt then
            ({ s with cache := remove s.cache key }, .hold)
          else (s, .lookup entry.id entry.hash)
  | .lookup id hash =>
      if s.currentHash c.dbOk id = some hash then (s, .done (some id)) else (s, .evict)
  | .evict => ({ s with cache := remove s.cache (verifyCacheKey hmac username password) }, .hold)
  | .hold => if c.granted then (s, .read) else (s, .done none)
  | .read => (s, .hashing (if c.dbOk then s.listing else []))
  | .hashing rows =>
      match if c.joined then verifyMatch verifies rows password else none with
      | some (id, hash) => (s, .fill id hash)
      | none => (s, .done none)
  | .fill id hash =>
      let key := verifyCacheKey hmac username password
      ({ s with cache := fill s.cache key ⟨id, hash, c.now⟩ }, .done (some id))
  | .done result => (s, .done result)

/-- A step of a call. -/
def runTask (_ : Nat) (c : Choice η) (s : Shared η κ) : Task η → Shared η κ × Task η
  | .storing label _ =>
      match c.newHash with
      | none => (s, .stored none)
      | some hash =>
          if c.dbOk ∧ ¬s.rows.contains c.newId then
            ({ s with rows := s.rows.insertIgnore c.newId ⟨label, hash⟩ }, .stored (some c.newId))
          else (s, .stored none)
  | .deleting id =>
      if c.dbOk then ({ s with rows := s.rows.deleteWhere fun k _ => k = id }, .clearing id true)
      else (s, .clearing id false)
  | .clearing id ok => ({ s with cache := Table.empty }, .deleted id ok)
  | .verify username password pc =>
      let r := runVerify hmac verifies username password c s pc
      (r.1, .verify username password r.2)
  | t => (s, t)

/-- The calls as a program; nothing comes from outside. -/
def program : Program (Shared η κ) (Task η) Call (Choice η) Empty where
  initial
    | .store label password => .storing label password
    | .delete id => .deleting id
    | .verifyCached username password => .verify username password .begin
  run := runTask hmac verifies
  outside := nofun

/-! ## Every entry accepts its password -/

section Sound

variable (hmac : List UInt8 → κ) (verifies : η → Str → Bool)

/-- A cached hash accepts every password that has the key of its entry. -/
def CacheSound (s : Shared η κ) : Prop :=
  ∀ key e, s.cache.get? key = some e → ∀ username password,
    verifyCacheKey hmac username password = key → verifies e.hash password.withoutDashes = true

/-- A call that is about to trust a hash has one that accepts its password. -/
def Trusts : Task η → Prop
  | .verify _ password (.lookup _ hash) => verifies hash password.withoutDashes = true
  | .verify _ password (.fill _ hash) => verifies hash password.withoutDashes = true
  | _ => True

variable {hmac verifies}

omit [DecidableEq η] in
theorem CacheSound.remove {s : Shared η κ} (h : CacheSound hmac verifies s) (key : κ) :
    CacheSound hmac verifies { s with cache := remove s.cache key } :=
  fun k e hk => h k e (get?_remove hk)

omit [DecidableEq η] in
theorem CacheSound.fill (hinj : Function.Injective hmac) {s : Shared η κ}
    (h : CacheSound hmac verifies s) {username password : Str} {entry : CachedVerify η}
    (hentry : verifies entry.hash password.withoutDashes = true) :
    CacheSound hmac verifies
      { s with cache := fill s.cache (verifyCacheKey hmac username password) entry } := by
  intro k e hk username' password' hkey
  rcases get?_fill hk with ⟨rfl, rfl⟩ | hold
  · -- the same key, so the same password up to dashes
    obtain ⟨-, hpassword⟩ := keyMessage_inj (hinj hkey)
    rw [hpassword]
    exact hentry
  · exact h k e hold username' password' hkey

variable (verifies) in
/-- The assertions of the calls and the soundness of the cache. -/
theorem sound_outline (hinj : Function.Injective hmac) :
    Outline (program hmac verifies) (fun _ _ => True) (CacheSound hmac verifies)
      (fun _ _ => Trusts verifies) where
  call s i c hs := by
    cases c with
    | store label password => trivial
    | delete id => trivial
    | verifyCached username password => trivial
  own sys i t c _ _ hs ht := by
    change CacheSound hmac verifies (runTask hmac verifies i c sys.shared t).1 ∧
      Trusts verifies (runTask hmac verifies i c sys.shared t).2
    generalize sys.shared = s at hs
    cases t with
    | storing label password =>
        unfold runTask
        dsimp only
        split
        · exact ⟨hs, trivial⟩
        · split
          · exact ⟨hs, trivial⟩
          · exact ⟨hs, trivial⟩
    | stored result => exact ⟨hs, trivial⟩
    | deleting id =>
        unfold runTask
        dsimp only
        split
        · exact ⟨hs, trivial⟩
        · exact ⟨hs, trivial⟩
    | clearing id ok => exact ⟨fun _ _ hk => (nomatch hk), trivial⟩
    | deleted id ok => exact ⟨hs, trivial⟩
    | verify username password pc =>
        cases pc with
        | begin =>
            unfold runTask runVerify
            dsimp only
            cases hget : s.cache.get? (verifyCacheKey hmac username password) with
            | none => exact ⟨hs, trivial⟩
            | some entry =>
                dsimp only
                split
                · exact ⟨hs.remove _, trivial⟩
                · exact ⟨hs, hs _ _ hget username password rfl⟩
        | lookup id hash =>
            unfold runTask runVerify
            dsimp only
            split
            · exact ⟨hs, trivial⟩
            · exact ⟨hs, trivial⟩
        | evict => exact ⟨hs.remove _, trivial⟩
        | hold =>
            unfold runTask runVerify
            dsimp only
            split
            · exact ⟨hs, trivial⟩
            · exact ⟨hs, trivial⟩
        | read => exact ⟨hs, trivial⟩
        | hashing rows =>
            unfold runTask runVerify
            dsimp only
            split
            · rename_i id hash hmatch
              split at hmatch
              · exact ⟨hs, (verifies_of_match hmatch).2⟩
              · exact nomatch hmatch
            · exact ⟨hs, trivial⟩
        | fill id hash => exact ⟨hs.fill hinj ht, trivial⟩
        | done result => exact ⟨hs, trivial⟩
  others _ _ _ _ _ _ _ _ _ _ _ _ hu := hu
  outside _ e := nomatch e
  outsideTask _ e := nomatch e

end Sound

/-! ## What was a row during the call -/

section Moments

variable (hmac : List UInt8 → κ) (verifies : η → Str → Bool)

/-- The events of a run. -/
abbrev Ev (η : Type u) := Event Call (Choice η) Empty

/-- The state of the calls and of what they share. -/
abbrev Sys (η : Type u) (κ : Type v) := System (Shared η κ) (Task η)

/-- A run of the program. -/
abbrev after (s : Sys η κ) (events : List (Ev η)) : Sys η κ :=
  exec (program hmac verifies).step s events

/-- At some moment of `past` the row `id` was stored and accepted the password. -/
def Accepted (s : Sys η κ) (past : List (Ev η)) (password : Str) (id : String) : Prop :=
  ∃ moment, moment <+: past ∧ ∃ row,
    (after hmac verifies s moment).shared.rows.get? id = some row ∧
      verifies row.hash password.withoutDashes = true

/-- At some moment of `past` the row `r` was stored. -/
def Stored (s : Sys η κ) (past : List (Ev η)) (r : String × η) : Prop :=
  ∃ moment, moment <+: past ∧ r ∈ (after hmac verifies s moment).shared.listing

/-- What a call has seen of the table. -/
def Seen (s : Sys η κ) (past : List (Ev η)) (password : Str) : Verify η → Prop
  | .hashing rows => ∀ r ∈ rows, Stored hmac verifies s past r
  | .fill id _ => Accepted hmac verifies s past password id
  | .done (some id) => Accepted hmac verifies s past password id
  | _ => True

variable {hmac verifies} {s : Sys η κ} {past : List (Ev η)} {e : Ev η} {password : Str}

theorem Accepted.later {id : String} (h : Accepted hmac verifies s past password id) :
    Accepted hmac verifies s (past ++ [e]) password id := by
  obtain ⟨moment, hprefix, hrow⟩ := h
  exact ⟨moment, hprefix.trans (List.prefix_append _ _), hrow⟩

theorem Stored.later {r : String × η} (h : Stored hmac verifies s past r) :
    Stored hmac verifies s (past ++ [e]) r := by
  obtain ⟨moment, hprefix, hrow⟩ := h
  exact ⟨moment, hprefix.trans (List.prefix_append _ _), hrow⟩

theorem Stored.accepted {id : String} {hash : η} (h : Stored hmac verifies s past (id, hash))
    (hverifies : verifies hash password.withoutDashes = true) :
    Accepted hmac verifies s past password id := by
  obtain ⟨moment, hprefix, hmem⟩ := h
  obtain ⟨row, hrow, rfl⟩ := mem_listing.1 hmem
  exact ⟨moment, hprefix, row, hrow, hverifies⟩

theorem Seen.later {pc : Verify η} (h : Seen hmac verifies s past password pc) :
    Seen hmac verifies s (past ++ [e]) password pc := by
  cases pc with
  | hashing rows => exact fun r hr => (h r hr).later
  | fill id hash => exact Accepted.later h
  | done result =>
      cases result with
      | none => trivial
      | some id => exact Accepted.later h
  | begin => trivial
  | lookup id hash => trivial
  | evict => trivial
  | hold => trivial
  | read => trivial

omit [DecidableEq κ] [DecidableEq η] in
/-- A row that is found with the cached hash was a row at that moment. -/
theorem currentHash_eq {sh : Shared η κ} {dbOk : Bool} {id : String} {hash : η}
    (h : sh.currentHash dbOk id = some hash) : (id, hash) ∈ sh.listing := by
  unfold Shared.currentHash at h
  split at h
  · obtain ⟨row, hrow, hhash⟩ := Option.map_eq_some_iff.1 h
    exact mem_listing.2 ⟨row, hrow, hhash⟩
  · cases h

/-- **Step lemma**: what a call comes to trust was a row during the call. -/
theorem seen_step {username : Str} {c : Choice η} {pc : Verify η}
    (htrust : Trusts verifies (.verify username password pc))
    (h : Seen hmac verifies s past password pc) :
    Seen hmac verifies s (past ++ [e]) password
      (runVerify hmac verifies username password c (after hmac verifies s past).shared pc).2 := by
  have hnow : ∀ r ∈ (after hmac verifies s past).shared.listing,
      Stored hmac verifies s (past ++ [e]) r :=
    fun r hr => ⟨past, List.prefix_append _ _, hr⟩
  cases pc with
  | begin =>
      unfold runVerify
      dsimp only
      split
      · trivial
      · split
        · trivial
        · trivial
  | lookup id hash =>
      unfold runVerify
      dsimp only
      split
      · rename_i hcurrent
        exact (hnow _ (currentHash_eq hcurrent)).accepted htrust
      · trivial
  | evict => trivial
  | hold =>
      unfold runVerify
      dsimp only
      split
      · trivial
      · trivial
  | read =>
      intro r hr
      split at hr
      · exact hnow r hr
      · exact absurd hr List.not_mem_nil
  | hashing rows =>
      unfold runVerify
      dsimp only
      split
      · rename_i id hash hmatch
        split at hmatch
        · obtain ⟨hmem, hverifies⟩ := verifies_of_match hmatch
          exact (h _ hmem).later.accepted hverifies
        · exact nomatch hmatch
      · trivial
  | fill id hash => exact Accepted.later h
  | done result => exact Seen.later h

/-- Only a step of `verify_and_id_cached` is one. -/
theorem runTask_verify {i : Nat} {c : Choice η} {sh : Shared η κ} {t : Task η} {username : Str}
    {pc : Verify η} (h : (runTask hmac verifies i c sh t).2 = .verify username password pc) :
    ∃ pc', t = .verify username password pc' ∧
      pc = (runVerify hmac verifies username password c sh pc').2 := by
  cases t with
  | storing label password =>
      unfold runTask at h
      dsimp only at h
      split at h
      · exact nomatch h
      · split at h
        · exact nomatch h
        · exact nomatch h
  | stored result => exact nomatch h
  | deleting id =>
      unfold runTask at h
      dsimp only at h
      split at h
      · exact nomatch h
      · exact nomatch h
  | clearing id ok => exact nomatch h
  | deleted id ok => exact nomatch h
  | verify username' password' pc' =>
      injection h with huser hpassword hpc
      subst huser hpassword
      exact ⟨pc', rfl, hpc.symm⟩

/-- **Run lemma** for the call `i`, which begins in `s`. -/
theorem seen_run (hinj : Function.Injective hmac)
    (hs : Holds (CacheSound hmac verifies) (fun _ _ => Trusts verifies) s) {i : Nat}
    {username : Str} (hbegin : s.tasks[i]? = some (.verify username password .begin))
    (during : List (Ev η)) {pc : Verify η}
    (h : (after hmac verifies s during).tasks[i]? = some (.verify username password pc)) :
    Seen hmac verifies s during password pc := by
  let I (past : List (Ev η)) (t : Sys η κ) : Prop := t = after hmac verifies s past ∧
    Holds (CacheSound hmac verifies) (fun _ _ => Trusts verifies) t ∧
    ∀ pc, t.tasks[i]? = some (.verify username password pc) → Seen hmac verifies s past password pc
  have hrun : I during (after hmac verifies s during) :=
    exec_history ?_ ?_ (guarded_true _ _ during)
  · exact hrun.2.2 pc h
  · refine ⟨rfl, hs, fun pc hpc => ?_⟩
    rw [hbegin] at hpc
    cases Option.some.inj hpc
    trivial
  · rintro past _ e ⟨rfl, hholds, hseen⟩ -
    refine ⟨?_, (sound_outline verifies hinj).step _ e hholds trivial, fun pc hpc => ?_⟩
    · rw [after, after, exec_append]
      rfl
    · cases e with
      | call c =>
          rcases task_call_cases hpc with hold | ⟨-, hnew⟩
          · exact (hseen pc hold).later
          · cases c with
            | store label password' => exact nomatch hnew
            | delete id => exact nomatch hnew
            | verifyCached username' password' =>
                injection hnew with _ _ hpc
                rw [hpc]
                trivial
      | run j c =>
          by_cases hj : i = j
          · subst hj
            cases ht : (after hmac verifies s past).tasks[i]? with
            | none =>
                rw [step_run_none c ht] at hpc
                exact (hseen pc hpc).later
            | some t =>
                rw [task_step_run c ht] at hpc
                obtain ⟨pc', rfl, rfl⟩ := runTask_verify (i := i) (Option.some.inj hpc)
                exact seen_step (hholds.2 i _ ht) (hseen pc' ht)
          · rw [task_step_other c hj] at hpc
            exact (hseen pc hpc).later
      | outside e => exact nomatch e

end Moments

/-! ## A deleted row stays away -/

section Deleted

/-- The row that a `delete` has taken out of the table. -/
def Task.deletes : Task η → Option String
  | .clearing id true => some id
  | .deleted id true => some id
  | _ => none

/-- `Uuid::new_v4` draws no id whose row was deleted. -/
def Fresh (s : Sys η κ) : Ev η → Prop
  | .run i c => (∃ label password, s.tasks[i]? = some (.storing label password)) →
      ∀ t ∈ s.tasks, t.deletes ≠ some c.newId
  | _ => True

variable {hmac : List UInt8 → κ} {verifies : η → Str → Bool}

/-- Signing in writes no row. -/
theorem rows_runVerify (username password : Str) (c : Choice η) (sh : Shared η κ)
    (pc : Verify η) : (runVerify hmac verifies username password c sh pc).1.rows = sh.rows := by
  cases pc with
  | begin =>
      unfold runVerify
      dsimp only
      split
      · rfl
      · split
        · rfl
        · rfl
  | lookup id hash =>
      unfold runVerify
      dsimp only
      split
      · rfl
      · rfl
  | hold =>
      unfold runVerify
      dsimp only
      split
      · rfl
      · rfl
  | hashing rows =>
      unfold runVerify
      dsimp only
      split
      · rfl
      · rfl
  | evict => rfl
  | read => rfl
  | fill id hash => rfl
  | done result => rfl

/-- A row that is away stays away, unless `store` draws its id. -/
theorem get?_runTask {i : Nat} {c : Choice η} {sh : Shared η κ} {t : Task η} {id : String}
    (h : sh.rows.get? id = none)
    (hnew : (∃ label password, t = .storing label password) → c.newId ≠ id) :
    (runTask hmac verifies i c sh t).1.rows.get? id = none := by
  cases t with
  | storing label password =>
      have hne := hnew ⟨label, password, rfl⟩
      unfold runTask
      dsimp only
      split
      · exact h
      · split
        · change (sh.rows.insertIgnore c.newId _).get? id = none
          rw [Table.get?_insertIgnore, if_neg hne.symm]
          exact h
        · exact h
  | stored result => exact h
  | deleting id' =>
      unfold runTask
      dsimp only
      split
      · change (sh.rows.deleteWhere _).get? id = none
        rw [Table.get?_deleteWhere, h]
        rfl
      · exact h
  | clearing id' ok => exact h
  | deleted id' ok => exact h
  | verify username password pc =>
      change (runVerify hmac verifies username password c sh pc).1.rows.get? id = none
      rw [rows_runVerify]
      exact h

variable (hmac verifies) in
/-- As long as ids are fresh, what a `delete` has taken out is not in the table. -/
theorem gone_outline : Outline (program hmac verifies) Fresh (fun _ => True)
    (fun _ sh t => ∀ id, t.deletes = some id → sh.rows.get? id = none) where
  call s i c _ id h := by
    cases c with
    | store label password => cases h
    | delete id => cases h
    | verifyCached username password => cases h
  own sys i t c _ _ _ hgone := by
    refine ⟨trivial, fun id h => ?_⟩
    change (runTask hmac verifies i c sys.shared t).1.rows.get? id = none
    change (runTask hmac verifies i c sys.shared t).2.deletes = some id at h
    cases t with
    | storing label password =>
        unfold runTask at h
        dsimp only at h
        split at h
        · cases h
        · split at h
          · cases h
          · cases h
    | stored result => cases h
    | deleting id' =>
        unfold runTask at h ⊢
        dsimp only at h ⊢
        split at h
        · rename_i hok
          rw [if_pos hok]
          cases Option.some.inj h
          change (sys.shared.rows.deleteWhere _).get? id = none
          rw [Table.get?_deleteWhere, Option.filter_eq_none_iff]
          simp
        · cases h
    | clearing id' ok =>
        cases ok with
        | true => exact hgone id h
        | false => cases h
    | deleted id' ok => exact hgone id h
    | verify username password pc => cases h
  others sys i t c j u hok ht hu _ _ _ hgone id h := by
    apply get?_runTask (i := i) (hgone id h)
    rintro ⟨label, password, rfl⟩ rfl
    exact hok ⟨label, password, ht⟩ u (List.mem_of_getElem? hu) h
  outside _ e := by cases e
  outsideTask _ e := by cases e

variable (hmac verifies) in
/-- A `delete` that has returned has returned. -/
theorem deleted_stays {s : Sys η κ} {j : Nat} {id : String} {ok : Bool}
    (h : s.tasks[j]? = some (.deleted id ok)) (events : List (Ev η)) :
    (after hmac verifies s events).tasks[j]? = some (.deleted id ok) := by
  refine exec_invariant (I := fun s : Sys η κ => s.tasks[j]? = some (.deleted id ok)) ?_ h
    (guarded_true _ _ _)
  intro s e h _
  cases e with
  | call c => exact task_step_call c h
  | run i c =>
      by_cases hj : j = i
      · subst hj
        rw [task_step_run c h]
        rfl
      · rw [task_step_other c hj]
        exact h
  | outside e => exact nomatch e

end Deleted

/-! ## Calls over an unchanged table -/

section Unchanged

/-- A step that can fail does not: `hold` grants a guard, the rows are read, the blocking task
returns. -/
def Choice.Serves (c : Choice η) : Verify η → Prop
  | .hold => c.granted = true
  | .read => c.dbOk = true
  | .hashing _ => c.joined = true
  | _ => True

/-- No step of the call `i` fails. -/
def Served (i : Nat) (s : Sys η κ) : Ev η → Prop
  | .run j c => j = i → ∀ username password pc,
      s.tasks[i]? = some (.verify username password pc) → c.Serves pc
  | _ => True

variable (verifies : η → Str → Bool)

/-- What a call has found out about the rows `listing`. -/
def Agrees (listing : List (String × η)) (password : Str) : Verify η → Prop
  | .hashing rows => rows = listing
  | .fill id hash => verifyMatch verifies listing password = some (id, hash)
  | .done result => result.isSome = (verifyAndId verifies listing password).isSome
  | _ => True

variable {hmac : List UInt8 → κ} {verifies} {listing : List (String × η)} {password : Str}

omit [DecidableEq η] in
theorem isSome_verifyAndId :
    (verifyAndId verifies listing password).isSome =
      (verifyMatch verifies listing password).isSome := by
  rw [verifyAndId, Option.isSome_map]

/-- **Step lemma** for a table that does not change. -/
theorem agrees_step {username : Str} {c : Choice η} {sh : Shared η κ} {pc : Verify η}
    (hrows : sh.listing = listing) (htrust : Trusts verifies (.verify username password pc))
    (hserved : c.Serves pc)
    (h : Agrees verifies listing password pc) :
    Agrees verifies listing password
      (runVerify hmac verifies username password c sh pc).2 := by
  cases pc with
  | begin =>
      unfold runVerify
      dsimp only
      split
      · trivial
      · split
        · trivial
        · trivial
  | lookup id hash =>
      unfold runVerify
      dsimp only
      split
      · rename_i hcurrent
        have hmem := currentHash_eq hcurrent
        rw [hrows] at hmem
        change true = (verifyAndId verifies listing password).isSome
        rw [isSome_verifyAndId]
        exact (match_of_verifies hmem htrust).symm
      · trivial
  | evict => trivial
  | hold =>
      have hgranted : c.granted = true := hserved
      unfold runVerify
      dsimp only
      rw [if_pos hgranted]
      trivial
  | read =>
      have hread : c.dbOk = true := hserved
      unfold runVerify
      dsimp only
      rw [if_pos hread]
      exact hrows
  | hashing rows =>
      obtain rfl : rows = listing := h
      have hjoined : c.joined = true := hserved
      unfold runVerify
      dsimp only
      rw [if_pos hjoined]
      split
      · assumption
      · rename_i hnone
        change false = (verifyAndId verifies rows password).isSome
        rw [isSome_verifyAndId]
        cases hmatch : verifyMatch verifies rows password with
        | none => rfl
        | some m => exact nomatch hmatch.symm.trans hnone
  | fill id hash =>
      change true = (verifyAndId verifies listing password).isSome
      have hmatch : verifyMatch verifies listing password = some (id, hash) := h
      rw [isSome_verifyAndId, hmatch]
      rfl
  | done result => exact h

/-- **Run lemma** for a table that does not change. -/
theorem agrees_run (hinj : Function.Injective hmac) {s : Sys η κ}
    (hs : Holds (CacheSound hmac verifies) (fun _ _ => Trusts verifies) s) {i : Nat}
    {username : Str} (hbegin : s.tasks[i]? = some (.verify username password .begin))
    (during : List (Ev η))
    (hrows : ∀ moment, moment <+: during →
      (after hmac verifies s moment).shared.listing = listing)
    (hserved : Guarded (program hmac verifies).step (Served i) s during) {pc : Verify η}
    (h : (after hmac verifies s during).tasks[i]? = some (.verify username password pc)) :
    Agrees verifies listing password pc := by
  let I (past : List (Ev η)) (t : Sys η κ) : Prop := past <+: during →
    t = after hmac verifies s past ∧
      Holds (CacheSound hmac verifies) (fun _ _ => Trusts verifies) t ∧
      ∀ pc, t.tasks[i]? = some (.verify username password pc) → Agrees verifies listing password pc
  have hrun : I during (after hmac verifies s during) := exec_history ?_ ?_ hserved
  · exact (hrun (List.prefix_refl _)).2.2 pc h
  · refine fun _ => ⟨rfl, hs, fun pc hpc => ?_⟩
    rw [hbegin] at hpc
    cases Option.some.inj hpc
    trivial
  · intro past t e hpast hok hprefix
    have hbefore : past <+: during := (List.prefix_append _ _).trans hprefix
    obtain ⟨rfl, hholds, hagrees⟩ := hpast hbefore
    refine ⟨?_, (sound_outline verifies hinj).step _ e hholds trivial, fun pc hpc => ?_⟩
    · rw [after, after, exec_append]
      rfl
    · cases e with
      | call c =>
          rcases task_call_cases hpc with hold | ⟨-, hnew⟩
          · exact hagrees pc hold
          · cases c with
            | store label password' => exact nomatch hnew
            | delete id => exact nomatch hnew
            | verifyCached username' password' =>
                injection hnew with _ _ hpc
                rw [hpc]
                trivial
      | run j c =>
          by_cases hj : i = j
          · subst hj
            cases ht : (after hmac verifies s past).tasks[i]? with
            | none =>
                rw [step_run_none c ht] at hpc
                exact hagrees pc hpc
            | some t =>
                rw [task_step_run c ht] at hpc
                obtain ⟨pc', rfl, rfl⟩ := runTask_verify (i := i) (Option.some.inj hpc)
                exact agrees_step (hrows past hbefore) (hholds.2 i _ ht)
                  (hok rfl username password pc' ht) (hagrees pc' ht)
          · rw [task_step_other c hj] at hpc
            exact hagrees pc hpc
      | outside e => exact nomatch e

end Unchanged

/-! ## Revocation -/

section Revocation

variable {hmac : List UInt8 → κ} {verifies : η → Str → Bool}

/-- **A revoked app password stops at once.** A call that returns an id had its row stored at some
moment during the call; an id whose `delete` returned before the call is not returned; and over a
table that does not change the call answers as `verify_and_id` does, unless the bridge is stopping
or one of its own steps fails. -/
theorem revoked_app_password_stops (hinj : Function.Injective hmac)
    (rows : Table String (Row η)) (before during : List (Ev η)) (username password : Str) :
    let start : Sys η κ := System.start ⟨rows, Table.empty⟩
    let s := after hmac verifies start before
    let called := (program hmac verifies).step s (.call (.verifyCached username password))
    ∀ result, (after hmac verifies called during).tasks[s.tasks.length]? =
        some (.verify username password (.done result)) →
      (∀ id, result = some id → Accepted hmac verifies called during password id) ∧
      (Guarded (program hmac verifies).step Fresh start
          (before ++ .call (.verifyCached username password) :: during) →
        ∀ id, .deleted id true ∈ s.tasks → result ≠ some id) ∧
      ((∀ moment, moment <+: during →
          (after hmac verifies called moment).shared.listing = s.shared.listing) →
        Guarded (program hmac verifies).step (Served s.tasks.length) called during →
        result.isSome = (verifyAndId verifies s.shared.listing password).isSome) := by
  intro start s called result hdone
  have hsound : Holds (CacheSound hmac verifies) (fun _ _ => Trusts verifies) called := by
    have O := sound_outline verifies hinj
    have hs := O.exec_start ⟨rows, Table.empty⟩ (fun _ _ hk => nomatch hk) before
      (guarded_true _ _ _)
    exact O.step _ _ hs trivial
  have hbegin : called.tasks[s.tasks.length]? = some (.verify username password .begin) := by
    change (s.tasks ++ [_])[s.tasks.length]? = _
    rw [List.getElem?_append_right (Nat.le_refl _), Nat.sub_self]
    rfl
  have hseen := seen_run hinj hsound hbegin during hdone
  refine ⟨?_, ?_, ?_⟩
  · rintro id rfl
    exact hseen
  · rintro hfresh id hdeleted rfl
    obtain ⟨moment, hprefix, row, hrow, -⟩ := hseen
    -- up to that moment the run kept the deleted row away
    rw [guarded_append] at hfresh
    obtain ⟨rest, hrest⟩ := hprefix
    rw [← hrest] at hfresh
    have O := gone_outline hmac verifies
    have hgone := O.exec_start ⟨rows, Table.empty⟩ trivial before hfresh.1
    have hcalled := O.step _ _ hgone hfresh.2.1
    have hmoment := O.exec hcalled moment ((guarded_append _ _ _ _ _).1 hfresh.2.2).1
    obtain ⟨j, hj⟩ := List.getElem?_of_mem hdeleted
    have hstays := deleted_stays hmac verifies
      (task_step_call (P := program hmac verifies) (.verifyCached username password) hj) moment
    have hnone := hmoment.2 j _ hstays id rfl
    rw [hnone] at hrow
    exact nomatch hrow
  · intro hrows hserved
    exact agrees_run hinj hsound hbegin during hrows hserved hdone

end Revocation

/-! ## Concrete calls -/

section Concrete

/-- A hash that accepts the one password it was made from. -/
def sameBytes (hash : List UInt8) (password : Str) : Bool := hash == password.bytes

/-- `pw` -/
def pw : Str := ⟨[0x70, 0x77], by decide⟩

/-- `p-w` -/
def dashed : Str := ⟨[0x70, 0x2d, 0x77], by decide⟩

/-- A step in which nothing fails and `store` draws `newId`. -/
def choosing (newId : String) : Choice (List UInt8) := ⟨0, true, true, true, newId, some pw.bytes⟩

/-- The rows "a" and "b" are stored, then "b" is deleted. -/
def storedTwice : List (Ev (List UInt8)) :=
  [.call (.store pw pw), .run 0 (choosing "a"), .call (.store pw pw), .run 1 (choosing "b"),
    .call (.delete "b"), .run 2 (choosing "c"), .run 2 (choosing "c")]

/-- A first sign-in with `p-w`: no cached match, all rows are read. -/
def signingIn : List (Ev (List UInt8)) := List.replicate 5 (.run 3 (choosing "c"))

omit [DecidableEq κ] [DecidableEq η] in
theorem fresh_of_deletes {s : Sys η κ} {i : Nat} {c : Choice η}
    (h : (s.tasks.all fun t => t.deletes != some c.newId) = true) : Fresh s (.run i c) :=
  fun _ t ht => bne_iff_ne.1 (List.all_eq_true.1 h t ht)

omit [DecidableEq κ] [DecidableEq η] in
theorem served_of_ok {s : Sys η κ} {i j : Nat} {c : Choice η} (hdb : c.dbOk = true)
    (hgranted : c.granted = true) (hjoined : c.joined = true) : Served i s (.run j c) := by
  intro _ username password pc _
  cases pc with
  | hold => exact hgranted
  | read => exact hdb
  | hashing rows => exact hjoined
  | begin => trivial
  | lookup id hash => trivial
  | evict => trivial
  | fill id hash => trivial
  | done result => trivial

theorem listing_of_inits {s : Sys (List UInt8) (List UInt8)} {during : List (Ev (List UInt8))}
    {listing : List (String × List UInt8)}
    (h : (during.inits.all fun moment =>
      (after id sameBytes s moment).shared.listing == listing) = true) :
    ∀ moment, moment <+: during → (after id sameBytes s moment).shared.listing = listing :=
  fun moment hprefix => beq_iff_eq.1 (List.all_eq_true.1 h moment ((List.mem_inits _ _).2 hprefix))

/-- The row that is left is returned, the deleted one is not. -/
theorem revoked_app_password_stops_one :
    let s := after id sameBytes (System.start ⟨Table.empty, Table.empty⟩) storedTwice
    let called := (program id sameBytes).step s (.call (.verifyCached pw dashed))
    Accepted id sameBytes called signingIn dashed "a" ∧ some "a" ≠ some "b" ∧
      (some "a").isSome = (verifyAndId sameBytes s.shared.listing dashed).isSome := by
  intro s called
  have hdone : (after id sameBytes called signingIn).tasks[s.tasks.length]? =
      some (.verify pw dashed (.done (some "a"))) := by rfl
  have hfresh : Guarded (program id sameBytes).step Fresh
      (System.start ⟨Table.empty, Table.empty⟩)
      (storedTwice ++ .call (.verifyCached pw dashed) :: signingIn) :=
    ⟨trivial, fresh_of_deletes rfl, trivial, fresh_of_deletes rfl, trivial, fresh_of_deletes rfl,
      fresh_of_deletes rfl, trivial, fresh_of_deletes rfl, fresh_of_deletes rfl,
      fresh_of_deletes rfl, fresh_of_deletes rfl, fresh_of_deletes rfl, trivial⟩
  have hdeleted : .deleted "b" true ∈ s.tasks := List.mem_of_getElem? (i := 2) rfl
  have hstep : ∀ t : Sys (List UInt8) (List UInt8),
      Served s.tasks.length t (.run 3 (choosing "c")) := fun _ => served_of_ok rfl rfl rfl
  have hserved : Guarded (program id sameBytes).step (Served s.tasks.length) called signingIn :=
    ⟨hstep _, hstep _, hstep _, hstep _, hstep _, trivial⟩
  have h := revoked_app_password_stops Function.injective_id Table.empty storedTwice signingIn pw
    dashed (some "a") hdone
  exact ⟨h.1 "a" rfl, h.2.1 hfresh "b" hdeleted, h.2.2 (listing_of_inits rfl) hserved⟩

/-- A table with one row, whose password is `pw`. -/
def oneRow : Table String (Row (List UInt8)) := Table.empty.insertIgnore "a" ⟨pw, pw.bytes⟩

/-- The sign-in while the bridge is stopping: `hold` grants no guard. -/
def refused : List (Ev (List UInt8)) :=
  [.call (.verifyCached pw pw), .run 0 (choosing "c"),
    .run 0 { choosing "c" with granted := false }]

/-- The rows do not change, `verify_and_id` accepts the password, and the cached call returns
nothing. -/
theorem stopping_bridge_accepts_nothing :
    let start : Sys (List UInt8) (List UInt8) := System.start ⟨oneRow, Table.empty⟩
    (after id sameBytes start refused).tasks[0]? = some (.verify pw pw (.done none)) ∧
      (∀ moment, moment <+: refused →
        (after id sameBytes start moment).shared.listing = start.shared.listing) ∧
      verifyAndId sameBytes start.shared.listing pw = some "a" :=
  ⟨rfl, listing_of_inits rfl, rfl⟩

end Concrete

end AsterBridge.Auth.AppPasswords
