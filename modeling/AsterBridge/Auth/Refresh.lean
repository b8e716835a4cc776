import AsterBridge.Error
import AsterBridge.Lib.Tasks

/-!
# Refresh tokens

`refresh_access_token` and `reload_vault_keys` of `auth/session.rs`: calls that run at the same
time, share one session and take turns at `REFRESH_GATE`. Each await point is the end of a step. A
token is the number of the answer that handed it out, so tokens of different answers differ.

The server rotates the refresh token with every refresh and every sign-in that it answers, and
refuses one that it has rotated away. An answer may lack a token; then nobody holds it.
-/

set_option autoImplicit false

namespace AsterBridge.Auth.Refresh

open AsterBridge.Lib.Tasks AsterBridge.Lib.Runs

universe u

-- the private keys, which are stored as they come
variable {K : Type u}

/-! ## The session and the server -/

/-- `VaultKeyMaterial` -/
structure VaultKeyMaterial (K : Type u) where
  identityKey : String
  dataKek : Option String
  ratchetIdentityPublic : Option String
  ratchetKeys : List K
  inboundKeys : List K
  previousKeys : List String
  ratchetRecovery : K

/-- The tokens and keys of `Session`. -/
structure Session (K : Type u) where
  userId : String
  accessToken : Nat
  refreshToken : Option Nat
  identityKey : Option String
  dataKek : Option String
  ratchetIdentityPublic : Option String
  ratchetKeys : List K
  inboundKeys : List K
  previousKeys : List String
  ratchetRecovery : K
  accountKeys : List (List UInt8)

/-- `apply_vault_key_material` -/
def applyVaultKeyMaterial (s : Session K) (m : VaultKeyMaterial K) : Session K :=
  { s with
    identityKey := some m.identityKey
    dataKek := m.dataKek
    ratchetIdentityPublic := m.ratchetIdentityPublic
    ratchetKeys := m.ratchetKeys
    inboundKeys := m.inboundKeys
    previousKeys := m.previousKeys
    ratchetRecovery := m.ratchetRecovery }

/-- `merge_account_keys` -/
def mergeAccountKeys (existing loaded : List (List UInt8)) : List (List UInt8) :=
  loaded.foldl (fun keys key => if keys.any fun k => k == key then keys else keys ++ [key]) existing

/-- `is_transient_refresh_error` -/
def isTransientRefreshError : BridgeError → Bool
  | .network _ => true
  | .api msg => msg.startsWith "429" || msg.startsWith "5"
  | _ => false

/-- A request to the server. -/
inductive Request where
  | refresh (refreshToken : Nat) (expectedUserId : String)
  | challenge
  | login
deriving DecidableEq

/-- A request with the call that sent it, and whether its token was rotated away by then. -/
structure Sent where
  caller : Nat
  request : Request
  spent : Bool
deriving DecidableEq

/-- The server: the refresh token that is valid, that token if it was handed out, the access token
handed out last, the number of the next token, and the requests it was sent. -/
structure Server where
  valid : Nat
  issued : Option Nat
  access : Nat
  next : Nat
  sent : List Sent

/-- An answer that carries an access token or not, and a refresh token or not. -/
structure Tokens where
  access : Bool
  refresh : Bool
deriving DecidableEq

/-- The server rotates the refresh token and answers with new tokens. -/
def Server.rotate (server : Server) (t : Tokens) : Server :=
  { server with
    valid := server.next
    issued := if t.refresh then some server.next else none
    access := if t.access then server.next else server.access
    next := server.next + 1 }

/-- The session, the server and the call that holds the gate. -/
structure Shared (K : Type u) where
  session : Session K
  server : Server
  gate : Option Nat

/-- The session before any call; the server handed out its tokens. -/
def Shared.start (session : Session K) : Shared K where
  session := session
  server :=
    { valid := session.refreshToken.getD 0
      issued := session.refreshToken
      access := session.accessToken
      next := session.refreshToken.getD 0 + 1
      sent := [] }
  gate := none

/-! ## Calls -/

/-- The two entry points. -/
inductive Call where
  | refreshAccessToken
  | reloadVaultKeys
deriving DecidableEq

/-- Where a call is. From `entered` to `writing` it holds the gate. -/
inductive Task (K : Type u) where
  /-- `refresh_access_token` before it reads the token -/
  | observe
  /-- `refresh_access_token` waiting at the gate -/
  | waiting (observed : Option Nat)
  /-- `reload_vault_keys` waiting at the gate -/
  | reloading
  | entered (observed : Option Nat)
  /-- before the request to refresh -/
  | refreshing (refreshToken : Nat)
  /-- a refresh was answered with an access token -/
  | storing (access : Nat) (rotated : Option Nat)
  /-- `sign_in_and_reload_vault` before its first request -/
  | challenge
  | login
  /-- signed in; before the vault is decrypted -/
  | vault (access : Nat) (refresh : Option Nat)
  | writing (access : Nat) (refresh : Option Nat)
      (material : Except BridgeError (VaultKeyMaterial K)) (loaded : List (List UInt8))
  | done (result : Except BridgeError Unit)

/-- What the environment chooses in a step: the answers of the server, the error with which it
refuses a spent token, whether the nonce can be signed, and what the vault holds. -/
structure Choice (K : Type u) where
  refreshAnswer : Except BridgeError Tokens
  refusal : BridgeError
  challengeAnswer : Except BridgeError Unit
  signature : Except String Unit
  loginAnswer : Except BridgeError Tokens
  material : Except BridgeError (VaultKeyMaterial K)
  loaded : List (List UInt8)

/-- The request is sent. -/
def Shared.send (s : Shared K) (caller : Nat) (request : Request) : Shared K :=
  let spent := match request with
    | .refresh token _ => decide (token ≠ s.server.valid)
    | _ => false
  { s with server := { s.server with sent := s.server.sent ++ [⟨caller, request, spent⟩] } }

/-- The call returns and drops the gate. -/
def Shared.leave (s : Shared K) : Shared K := { s with gate := none }

/-- The write at the end of `sign_in_and_reload_vault`. -/
def Session.signedIn (s : Session K) (access : Nat) (refresh : Option Nat)
    (material : Except BridgeError (VaultKeyMaterial K)) (loaded : List (List UInt8)) :
    Session K :=
  let s := { s with
    accessToken := access
    refreshToken := refresh
    accountKeys := mergeAccountKeys s.accountKeys loaded }
  match material with
  | .ok m => applyVaultKeyMaterial s m
  | .error _ => s

/-- The write of `refresh_access_token`. -/
def Session.refreshed (s : Session K) (access : Nat) (rotated : Option Nat) : Session K :=
  { s with accessToken := access, refreshToken := rotated.or s.refreshToken }

/-- A step of the call `i`. -/
def runTask (i : Nat) (c : Choice K) (s : Shared K) : Task K → Shared K × Task K
  | .observe => (s, .waiting s.session.refreshToken)
  | .waiting observed =>
      if s.gate = none then ({ s with gate := some i }, .entered observed)
      else (s, .waiting observed)
  | .reloading =>
      if s.gate = none then ({ s with gate := some i }, .challenge) else (s, .reloading)
  | .entered observed =>
      if s.session.refreshToken ≠ observed then (s.leave, .done (.ok ()))
      else
        match s.session.refreshToken with
        | some refreshToken => (s, .refreshing refreshToken)
        | none => (s, .challenge)
  | .refreshing refreshToken =>
      let s := s.send i (.refresh refreshToken s.session.userId)
      -- a token that was rotated away is refused
      match if refreshToken = s.server.valid then c.refreshAnswer else .error c.refusal with
      | .ok t =>
          let s := { s with server := s.server.rotate t }
          if t.access then (s, .storing s.server.access s.server.issued) else (s, .challenge)
      | .error e =>
          if isTransientRefreshError e then (s.leave, .done (.error e)) else (s, .challenge)
  | .storing access rotated =>
      ({ s with session := s.session.refreshed access rotated }.leave, .done (.ok ()))
  | .challenge =>
      let s := s.send i .challenge
      match c.challengeAnswer with
      | .error e => (s.leave, .done (.error e))
      | .ok () =>
          match c.signature with
          | .error e => (s.leave, .done (.error (.crypto e)))
          | .ok () => (s, .login)
  | .login =>
      let s := s.send i .login
      match c.loginAnswer with
      | .error e => (s.leave, .done (.error e))
      | .ok t =>
          let s := { s with server := s.server.rotate t }
          if t.access then (s, .vault s.server.access s.server.issued)
          else (s.leave, .done (.error (.auth "no access token")))
  | .vault access refresh =>
      (s, .writing access refresh c.material
        (match c.material with
          | .ok _ => c.loaded
          | .error _ => []))
  | .writing access refresh material loaded =>
      ({ s with session := s.session.signedIn access refresh material loaded }.leave,
        .done (.ok ()))
  | .done result => (s, .done result)

/-- The calls as a program; nothing comes from outside. -/
def program : Program (Shared K) (Task K) Call (Choice K) Empty where
  initial
    | .refreshAccessToken => .observe
    | .reloadVaultKeys => .reloading
  run := runTask
  outside := nofun

/-- The events of a run. -/
abbrev Ev (K : Type u) := Event Call (Choice K) Empty

/-- The state of the calls and of what they share. -/
abbrev Sys (K : Type u) := System (Shared K) (Task K)

/-- A run of the program. -/
abbrev after (s : Sys K) (events : List (Ev K)) : Sys K := exec program.step s events

section Fields

variable (s : Shared K) (i : Nat) (q : Request)

@[simp] theorem send_session : (s.send i q).session = s.session := rfl
@[simp] theorem send_gate : (s.send i q).gate = s.gate := rfl
@[simp] theorem send_valid : (s.send i q).server.valid = s.server.valid := rfl
@[simp] theorem send_issued : (s.send i q).server.issued = s.server.issued := rfl
@[simp] theorem send_access : (s.send i q).server.access = s.server.access := rfl
@[simp] theorem send_next : (s.send i q).server.next = s.server.next := rfl

@[simp] theorem signedIn_accessToken (s : Session K) (a : Nat) (r : Option Nat)
    (m : Except BridgeError (VaultKeyMaterial K)) (l : List (List UInt8)) :
    (s.signedIn a r m l).accessToken = a := by
  cases m with
  | ok m => rfl
  | error e => rfl

@[simp] theorem signedIn_refreshToken (s : Session K) (a : Nat) (r : Option Nat)
    (m : Except BridgeError (VaultKeyMaterial K)) (l : List (List UInt8)) :
    (s.signedIn a r m l).refreshToken = r := by
  cases m with
  | ok m => rfl
  | error e => rfl

end Fields

/-! ## The gate -/

/-- The session holds the tokens that the server handed out last. -/
def Consistent (s : Shared K) : Prop :=
  s.session.accessToken = s.server.access ∧ s.session.refreshToken = s.server.issued

/-- What holds between any two steps. -/
structure Sound (s : Shared K) : Prop where
  issued : ∀ t, s.server.issued = some t → t = s.server.valid
  valid : s.server.valid < s.server.next
  held : ∀ t, s.session.refreshToken = some t → t ≤ s.server.valid
  unspent : ∀ q ∈ s.server.sent, q.spent = false
  free : s.gate = none → Consistent s

/-- What a call knows. From `entered` on it holds the gate. -/
def Knows (i : Nat) (s : Shared K) : Task K → Prop
  | .waiting observed => ∀ t, observed = some t →
      t ≤ s.server.valid ∧ (t = s.server.valid → s.session.refreshToken = some t)
  | .entered _ => s.gate = some i ∧ Consistent s
  | .refreshing token => s.gate = some i ∧ Consistent s ∧ s.session.refreshToken = some token
  | .storing access rotated =>
      s.gate = some i ∧ access = s.server.access ∧ rotated = s.server.issued ∧ rotated ≠ none
  | .challenge => s.gate = some i ∧ s.session.accessToken = s.server.access
  | .login => s.gate = some i ∧ s.session.accessToken = s.server.access
  | .vault access refresh =>
      s.gate = some i ∧ access = s.server.access ∧ refresh = s.server.issued ∧ refresh ≠ none
  | .writing access refresh _ _ =>
      s.gate = some i ∧ access = s.server.access ∧ refresh = s.server.issued ∧ refresh ≠ none
  | _ => True

/-- The token that the session holds was rotated away, and its successor is not stored yet. -/
def Behind (s : Shared K) : Prop := s.session.refreshToken ≠ s.server.issued

/-- A complete answer to the step of a call: one to a refresh that carries an access token carries
a refresh token too, one to a sign-in carries both, and a sign-in that follows a refresh without
an access token succeeds. -/
def Choice.Complete (c : Choice K) (s : Shared K) : Task K → Prop
  | .refreshing _ => ∀ t, c.refreshAnswer = .ok t → t.access = true → t.refresh = true
  | .challenge => Behind s → c.challengeAnswer = .ok () ∧ c.signature = .ok ()
  | .login =>
      (∀ t, c.loginAnswer = .ok t → t.access = true ∧ t.refresh = true) ∧
        (Behind s → ∃ t, c.loginAnswer = .ok t)
  | _ => True

/-- Every answer of the server is complete. -/
def Complete (s : Sys K) : Ev K → Prop
  | .run i c => ∀ t, s.tasks[i]? = some t → c.Complete s.shared t
  | _ => True

section Gate

variable {s : Shared K} {i j : Nat} {c : Choice K} {t : Task K}

theorem Sound.leave (h : Sound s) (hc : Consistent s) : Sound s.leave where
  issued := h.issued
  valid := h.valid
  held := h.held
  unspent := h.unspent
  free _ := hc

theorem Sound.send (h : Sound s) {q : Request}
    (hq : ∀ token user, q = .refresh token user → token = s.server.valid) (hg : s.gate ≠ none) :
    Sound (s.send i q) where
  issued := h.issued
  valid := h.valid
  held := h.held
  unspent r hr := by
    rcases List.mem_append.1 hr with hold | hnew
    · exact h.unspent r hold
    · cases List.mem_singleton.1 hnew
      cases q with
      | refresh token user =>
          have htoken := hq token user rfl
          exact decide_eq_false (not_not_intro htoken)
      | challenge => rfl
      | login => rfl
  free hnone := absurd hnone hg

theorem Sound.rotate (h : Sound s) (tokens : Tokens) (hg : s.gate ≠ none) :
    Sound { s with server := s.server.rotate tokens } where
  issued t ht := by
    change (if tokens.refresh then some s.server.next else none) = some t at ht
    split at ht
    · exact (Option.some.inj ht).symm
    · exact nomatch ht
  valid := Nat.lt_succ_self _
  held t ht := (h.held t ht).trans (Nat.le_of_lt h.valid)
  unspent := h.unspent
  free hnone := absurd hnone hg

/-- A write of tokens that the server handed out last. -/
theorem Sound.store (h : Sound s) {session : Session K}
    (haccess : session.accessToken = s.server.access)
    (hrefresh : session.refreshToken = s.server.issued) :
    Sound { s with session := session }.leave where
  issued := h.issued
  valid := h.valid
  held t ht := by
    have hissued : s.server.issued = some t := hrefresh.symm.trans ht
    exact Nat.le_of_eq (h.issued t hissued)
  unspent := h.unspent
  free _ := ⟨haccess, hrefresh⟩

/-- A step leaves the token that the session holds, or stores the valid one. -/
theorem refreshToken_step (h : Sound s) (ht : Knows i s t) :
    s.server.valid ≤ (runTask i c s t).1.server.valid ∧
      ((runTask i c s t).1.session.refreshToken = s.session.refreshToken ∨
        (runTask i c s t).1.server.valid = s.server.valid ∧
          (runTask i c s t).1.session.refreshToken = some s.server.valid) := by
  have hissued : ∀ token, s.server.issued = some token → some token = some s.server.valid :=
    fun token htoken => congrArg some (h.issued token htoken)
  cases t with
  | observe => exact ⟨le_refl _, Or.inl rfl⟩
  | waiting observed =>
      unfold runTask
      dsimp only
      split
      · exact ⟨le_refl _, Or.inl rfl⟩
      · exact ⟨le_refl _, Or.inl rfl⟩
  | reloading =>
      unfold runTask
      dsimp only
      split
      · exact ⟨le_refl _, Or.inl rfl⟩
      · exact ⟨le_refl _, Or.inl rfl⟩
  | entered observed =>
      unfold runTask
      dsimp only
      split
      · exact ⟨le_refl _, Or.inl rfl⟩
      · split
        · exact ⟨le_refl _, Or.inl rfl⟩
        · exact ⟨le_refl _, Or.inl rfl⟩
  | refreshing token =>
      unfold runTask
      dsimp only
      split
      · split
        · exact ⟨Nat.le_of_lt h.valid, Or.inl rfl⟩
        · exact ⟨Nat.le_of_lt h.valid, Or.inl rfl⟩
      · split
        · exact ⟨le_refl _, Or.inl rfl⟩
        · exact ⟨le_refl _, Or.inl rfl⟩
  | storing access rotated =>
      obtain ⟨-, -, hrotated, hsome⟩ := ht
      refine ⟨le_refl _, Or.inr ⟨rfl, ?_⟩⟩
      change rotated.or s.session.refreshToken = some s.server.valid
      cases rotated with
      | some token => exact hissued token hrotated.symm
      | none => exact absurd rfl hsome
  | challenge =>
      unfold runTask
      dsimp only
      split
      · exact ⟨le_refl _, Or.inl rfl⟩
      · split
        · exact ⟨le_refl _, Or.inl rfl⟩
        · exact ⟨le_refl _, Or.inl rfl⟩
  | login =>
      unfold runTask
      dsimp only
      split
      · exact ⟨le_refl _, Or.inl rfl⟩
      · split
        · exact ⟨Nat.le_of_lt h.valid, Or.inl rfl⟩
        · exact ⟨Nat.le_of_lt h.valid, Or.inl rfl⟩
  | vault access refresh => exact ⟨le_refl _, Or.inl rfl⟩
  | writing access refresh material loaded =>
      obtain ⟨-, -, hrefresh, hsome⟩ := ht
      refine ⟨le_refl _, Or.inr ⟨rfl, ?_⟩⟩
      change (s.session.signedIn access refresh material loaded).refreshToken = _
      rw [signedIn_refreshToken]
      cases refresh with
      | some token => exact hissued token hrefresh.symm
      | none => exact absurd rfl hsome
  | done result => exact ⟨le_refl _, Or.inl rfl⟩

/-- An observed token was rotated away, or the session still holds it. -/
theorem waiting_step {observed : Option Nat} (h : Sound s) (ht : Knows i s t)
    (hobserved : Knows j s (.waiting observed)) :
    Knows j (runTask i c s t).1 (.waiting observed) := by
  intro token htoken
  obtain ⟨hle, heq⟩ := hobserved token htoken
  obtain ⟨hgrows, hsame | ⟨hvalid, hnew⟩⟩ := refreshToken_step (c := c) h ht
  · rw [hsame]
    exact ⟨hle.trans hgrows, fun hnow => heq (by omega)⟩
  · rw [hvalid, hnew]
    exact ⟨hle, fun hnow => congrArg some hnow.symm⟩

/-- While another call holds the gate, a step changes nothing that is shared. -/
theorem runTask_outside (hgate : s.gate = some j) (hne : j ≠ i) (ht : Knows i s t) :
    (runTask i c s t).1 = s := by
  have hother : s.gate ≠ some i := fun h => hne (Option.some.inj (hgate.symm.trans h))
  have htaken : ¬s.gate = none := fun h => nomatch hgate.symm.trans h
  cases t with
  | observe => rfl
  | waiting observed =>
      unfold runTask
      dsimp only
      rw [if_neg htaken]
  | reloading =>
      unfold runTask
      dsimp only
      rw [if_neg htaken]
  | entered observed => exact absurd ht.1 hother
  | refreshing token => exact absurd ht.1 hother
  | storing access rotated => exact absurd ht.1 hother
  | challenge => exact absurd ht.1 hother
  | login => exact absurd ht.1 hother
  | vault access refresh => exact absurd ht.1 hother
  | writing access refresh material loaded => exact absurd ht.1 hother
  | done result => rfl

end Gate

section Outline

variable {i : Nat} {c : Choice K}

theorem ne_none_of_gate {sh : Shared K} (h : sh.gate = some i) : sh.gate ≠ none :=
  fun hnone => nomatch h.symm.trans hnone

/-- A refresh that the server answers. -/
theorem sound_answered {sh : Shared K} (h : Sound sh) (hg : sh.gate = some i)
    (hc : Consistent sh) {token : Nat} (htoken : sh.session.refreshToken = some token)
    (hanswer : ∀ t, c.refreshAnswer = .ok t → t.access = true → t.refresh = true) :
    Sound (runTask i c sh (.refreshing token)).1 ∧
      Knows i (runTask i c sh (.refreshing token)).1 (runTask i c sh (.refreshing token)).2 := by
  -- the session's token is the valid one
  have hvalid : token = sh.server.valid := h.issued token (hc.2.symm.trans htoken)
  have hsent : Sound (sh.send i (.refresh token sh.session.userId)) :=
    h.send (fun _ _ hq => by injection hq with hq _; rw [← hq]; exact hvalid) (ne_none_of_gate hg)
  unfold runTask
  dsimp only
  rw [send_session, send_valid, if_pos hvalid]
  cases hans : c.refreshAnswer with
  | ok t =>
      dsimp only
      have hrotated := hsent.rotate t (ne_none_of_gate hg)
      split
      · rename_i haccess
        refine ⟨hrotated, hg, rfl, rfl, ?_⟩
        change (if t.refresh then some sh.server.next else none) ≠ none
        rw [if_pos (hanswer t hans haccess)]
        exact Option.some_ne_none _
      · rename_i haccess
        refine ⟨hrotated, hg, ?_⟩
        change sh.session.accessToken = if t.access then sh.server.next else sh.server.access
        rw [if_neg haccess]
        exact hc.1
  | error e =>
      dsimp only
      split
      · exact ⟨hsent.leave hc, trivial⟩
      · exact ⟨hsent, hg, hc.1⟩

/-- A request for a challenge. -/
theorem sound_challenge {sh : Shared K} (h : Sound sh) (hg : sh.gate = some i)
    (haccess : sh.session.accessToken = sh.server.access)
    (hanswer : Behind sh → c.challengeAnswer = .ok () ∧ c.signature = .ok ()) :
    Sound (runTask i c sh .challenge).1 ∧
      Knows i (runTask i c sh .challenge).1 (runTask i c sh .challenge).2 := by
  have hsent : Sound (sh.send i .challenge) :=
    h.send (fun _ _ hq => nomatch hq) (ne_none_of_gate hg)
  by_cases hbehind : Behind sh
  · -- then the challenge is answered and signed
    obtain ⟨hchallenge, hsignature⟩ := hanswer hbehind
    unfold runTask
    dsimp only
    rw [hchallenge, hsignature]
    exact ⟨hsent, hg, haccess⟩
  · have hc : Consistent (sh.send i .challenge) := ⟨haccess, not_not.1 hbehind⟩
    unfold runTask
    dsimp only
    split
    · exact ⟨hsent.leave hc, trivial⟩
    · split
      · exact ⟨hsent.leave hc, trivial⟩
      · exact ⟨hsent, hg, haccess⟩

/-- A sign-in. -/
theorem sound_login {sh : Shared K} (h : Sound sh) (hg : sh.gate = some i)
    (haccess : sh.session.accessToken = sh.server.access)
    (hboth : ∀ t, c.loginAnswer = .ok t → t.access = true ∧ t.refresh = true)
    (hanswer : Behind sh → ∃ t, c.loginAnswer = .ok t) :
    Sound (runTask i c sh .login).1 ∧
      Knows i (runTask i c sh .login).1 (runTask i c sh .login).2 := by
  have hsent : Sound (sh.send i .login) := h.send (fun _ _ hq => nomatch hq) (ne_none_of_gate hg)
  unfold runTask
  dsimp only
  cases hans : c.loginAnswer with
  | ok t =>
      dsimp only
      rw [if_pos (hboth t hans).1]
      refine ⟨hsent.rotate t (ne_none_of_gate hg), hg, rfl, rfl, ?_⟩
      change (if t.refresh then some sh.server.next else none) ≠ none
      rw [if_pos (hboth t hans).2]
      exact Option.some_ne_none _
  | error e =>
      dsimp only
      have hc : Consistent (sh.send i .login) := by
        refine ⟨haccess, not_not.1 fun hbehind => ?_⟩
        obtain ⟨t, ht⟩ := hanswer hbehind
        exact nomatch hans.symm.trans ht
      exact ⟨hsent.leave hc, trivial⟩

variable (K) in
/-- **The gate serializes refreshes and sign-ins**: while it is free the session holds what the
server handed out last, and its holder knows what it has to store. -/
theorem gate_outline : Outline (program (K := K)) Complete Sound Knows where
  call sh i c _ := by
    cases c with
    | refreshAccessToken => trivial
    | reloadVaultKeys => trivial
  own sys i t c hok ht h hk := by
    have hanswers : c.Complete sys.shared t := hok t ht
    change Sound (runTask i c sys.shared t).1 ∧
      Knows i (runTask i c sys.shared t).1 (runTask i c sys.shared t).2
    generalize sys.shared = sh at *
    cases t with
    | observe => exact ⟨h, fun token htoken => ⟨h.held token htoken, fun _ => htoken⟩⟩
    | waiting observed =>
        unfold runTask
        dsimp only
        split
        · rename_i hfree
          exact ⟨⟨h.issued, h.valid, h.held, h.unspent, nofun⟩, rfl, h.free hfree⟩
        · exact ⟨h, hk⟩
    | reloading =>
        unfold runTask
        dsimp only
        split
        · rename_i hfree
          exact ⟨⟨h.issued, h.valid, h.held, h.unspent, nofun⟩, rfl, (h.free hfree).1⟩
        · exact ⟨h, trivial⟩
    | entered observed =>
        unfold runTask
        dsimp only
        split
        · exact ⟨h.leave hk.2, trivial⟩
        · split
          · rename_i token htoken
            exact ⟨h, hk.1, hk.2, htoken⟩
          · exact ⟨h, hk.1, hk.2.1⟩
    | refreshing token => exact sound_answered h hk.1 hk.2.1 hk.2.2 hanswers
    | storing access rotated =>
        obtain ⟨hg, haccess, hrotated, hsome⟩ := hk
        refine ⟨h.store haccess ?_, trivial⟩
        change rotated.or sh.session.refreshToken = sh.server.issued
        rw [← hrotated]
        cases rotated with
        | some token => rfl
        | none => exact absurd rfl hsome
    | challenge => exact sound_challenge h hk.1 hk.2 hanswers
    | login => exact sound_login h hk.1 hk.2 hanswers.1 hanswers.2
    | vault access refresh => exact ⟨h, hk⟩
    | writing access refresh material loaded =>
        obtain ⟨hg, haccess, hrefresh, -⟩ := hk
        refine ⟨h.store ?_ ?_, trivial⟩
        · rw [signedIn_accessToken]
          exact haccess
        · rw [signedIn_refreshToken]
          exact hrefresh
    | done result => exact ⟨h, trivial⟩
  others sys i t c j u _ _ _ hne h hk hu := by
    have houtside : sys.shared.gate = some j → (runTask i c sys.shared t).1 = sys.shared :=
      fun hg => runTask_outside hg hne hk
    change Knows j (runTask i c sys.shared t).1 u
    cases u with
    | waiting observed => exact waiting_step h hk hu
    | entered observed =>
        rw [houtside hu.1]
        exact hu
    | refreshing token =>
        rw [houtside hu.1]
        exact hu
    | storing access rotated =>
        rw [houtside hu.1]
        exact hu
    | challenge =>
        rw [houtside hu.1]
        exact hu
    | login =>
        rw [houtside hu.1]
        exact hu
    | vault access refresh =>
        rw [houtside hu.1]
        exact hu
    | writing access refresh material loaded =>
        rw [houtside hu.1]
        exact hu
    | observe => trivial
    | reloading => trivial
    | done result => trivial
  outside _ e := nomatch e
  outsideTask _ e := nomatch e

end Outline

/-! ## Calls that send nothing, and calls that fail -/

section Calls

variable {s : Sys K} {i : Nat}

/-- A finished call stays as it is. -/
theorem done_stays {result : Except BridgeError Unit} (h : s.tasks[i]? = some (.done result))
    (events : List (Ev K)) : (after s events).tasks[i]? = some (.done result) := by
  refine exec_invariant (I := fun s : Sys K => s.tasks[i]? = some (.done result)) ?_ h
    (guarded_true _ _ _)
  intro s e h _
  cases e with
  | call c => exact task_step_call c h
  | run j c =>
      by_cases hj : i = j
      · subst hj
        rw [task_step_run c h]
        rfl
      · rw [task_step_other c hj]
        exact h
  | outside e => exact nomatch e

/-- Only the last step of a call that succeeds writes to the session. -/
theorem session_runTask (i : Nat) (c : Choice K) (sh : Shared K) (t : Task K) :
    (runTask i c sh t).1.session = sh.session ∨ (runTask i c sh t).2 = .done (.ok ()) := by
  cases t with
  | observe => exact Or.inl rfl
  | waiting observed =>
      left
      unfold runTask
      dsimp only
      split
      · rfl
      · rfl
  | reloading =>
      left
      unfold runTask
      dsimp only
      split
      · rfl
      · rfl
  | entered observed =>
      left
      unfold runTask
      dsimp only
      split
      · rfl
      · split
        · rfl
        · rfl
  | refreshing token =>
      left
      unfold runTask
      dsimp only
      split
      · split
        · rfl
        · rfl
      · split
        · rfl
        · rfl
  | storing access rotated => exact Or.inr rfl
  | challenge =>
      left
      unfold runTask
      dsimp only
      split
      · rfl
      · split
        · rfl
        · rfl
  | login =>
      left
      unfold runTask
      dsimp only
      split
      · rfl
      · split
        · rfl
        · rfl
  | vault access refresh => exact Or.inl rfl
  | writing access refresh material loaded => exact Or.inr rfl
  | done result => exact Or.inl rfl

/-- A call that fails has written nothing. -/
theorem session_of_error {c : Choice K} {e : BridgeError} (rest : List (Ev K))
    (h : (after s (.run i c :: rest)).tasks[i]? = some (.done (.error e))) :
    (after s [.run i c]).shared.session = s.shared.session := by
  change (program.step s (.run i c)).shared.session = s.shared.session
  cases ht : s.tasks[i]? with
  | none => rw [step_run_none c ht]
  | some t =>
      rw [step_run c ht]
      rcases session_runTask i c s.shared t with hsame | hdone
      · exact hsame
      · have hafter := task_step_run (P := program) c ht
        rw [show (program.run i c s.shared t).2 = .done (.ok ()) from hdone] at hafter
        have hstays := done_stays hafter rest
        exact nomatch hstays.symm.trans h

/-- The requests of the call `i`. -/
def requestsOf (i : Nat) (s : Sys K) : List Sent :=
  s.shared.server.sent.filter fun q => q.caller = i

/-- A step of another call sends no request of this one. -/
theorem requestsOf_other {c : Choice K} {j : Nat} (hne : i ≠ j) :
    requestsOf i (program.step s (.run j c)) = requestsOf i s := by
  have hsend : ∀ q : Request, requestsOf i ⟨s.shared.send j q, s.tasks⟩ = requestsOf i s := by
    intro q
    change (s.shared.server.sent ++ [_]).filter _ = _
    rw [List.filter_append]
    simp [requestsOf, hne.symm]
  cases ht : s.tasks[j]? with
  | none => rw [step_run_none c ht]
  | some t =>
      rw [step_run c ht]
      change (runTask j c s.shared t).1.server.sent.filter _ = _
      cases t with
      | observe => rfl
      | waiting observed =>
          unfold runTask
          dsimp only
          split
          · rfl
          · rfl
      | reloading =>
          unfold runTask
          dsimp only
          split
          · rfl
          · rfl
      | entered observed =>
          unfold runTask
          dsimp only
          split
          · rfl
          · split
            · rfl
            · rfl
      | refreshing token =>
          rw [← hsend (.refresh token s.shared.session.userId)]
          unfold runTask
          dsimp only
          split
          · split
            · rfl
            · rfl
          · split
            · rfl
            · rfl
      | storing access rotated => rfl
      | challenge =>
          rw [← hsend .challenge]
          unfold runTask
          dsimp only
          split
          · rfl
          · split
            · rfl
            · rfl
      | login =>
          rw [← hsend .login]
          unfold runTask
          dsimp only
          split
          · rfl
          · split
            · rfl
            · rfl
      | vault access refresh => rfl
      | writing access refresh material loaded => rfl
      | done result => rfl

/-- A call that has found, or will find, that its token was replaced. -/
def Overtaken (i : Nat) (observed : Option Nat) (s : Sys K) : Prop :=
  (s.shared.session.refreshToken ≠ observed ∧
    (s.tasks[i]? = some (.waiting observed) ∨ s.tasks[i]? = some (.entered observed))) ∨
  s.tasks[i]? = some (.done (.ok ()))

/-- **Step lemma** for a call whose token was replaced while it waited: it sends nothing. -/
theorem overtaken_step {observed : Option Nat} (e : Ev K) (hs : Holds Sound Knows s)
    (h : Overtaken i observed s) :
    Overtaken i observed (program.step s e) ∧
      requestsOf i (program.step s e) = requestsOf i s := by
  cases e with
  | outside e => exact nomatch e
  | call c =>
      refine ⟨?_, rfl⟩
      rcases h with ⟨hne, hwaiting | hentered⟩ | hdone
      · exact Or.inl ⟨hne, Or.inl (task_step_call c hwaiting)⟩
      · exact Or.inl ⟨hne, Or.inr (task_step_call c hentered)⟩
      · exact Or.inr (task_step_call c hdone)
  | run j c =>
      by_cases hj : i = j
      · subst hj
        rcases h with ⟨hne, hwaiting | hentered⟩ | hdone
        · have htask := task_step_run (P := program) c hwaiting
          rw [step_run c hwaiting] at htask ⊢
          change Overtaken i observed ⟨(runTask i c s.shared (.waiting observed)).1, _⟩ ∧ _
          unfold program runTask at htask ⊢
          dsimp only at htask ⊢
          split at htask
          · rename_i hfree
            rw [if_pos hfree]
            exact ⟨Or.inl ⟨hne, Or.inr htask⟩, rfl⟩
          · rename_i htaken
            rw [if_neg htaken]
            exact ⟨Or.inl ⟨hne, Or.inl htask⟩, rfl⟩
        · have htask := task_step_run (P := program) c hentered
          rw [step_run c hentered] at htask ⊢
          unfold program runTask at htask ⊢
          dsimp only at htask ⊢
          rw [if_pos hne] at htask ⊢
          exact ⟨Or.inr htask, rfl⟩
        · have htask := task_step_run (P := program) c hdone
          refine ⟨Or.inr htask, ?_⟩
          rw [step_run c hdone]
          rfl
      · refine ⟨?_, requestsOf_other hj⟩
        have hsame := task_step_other (P := program) (s := s) c hj
        rcases h with ⟨hne, hwaiting | hentered⟩ | hdone
        · -- another call stores a token: a new one
          refine Or.inl ⟨?_, Or.inl (hsame.trans hwaiting)⟩
          have hknows := hs.2 i _ hwaiting
          cases ht : s.tasks[j]? with
          | none =>
              rw [step_run_none c ht]
              exact hne
          | some t =>
              rw [step_run c ht]
              change (runTask j c s.shared t).1.session.refreshToken ≠ observed
              obtain ⟨-, hkept | ⟨-, hnew⟩⟩ := refreshToken_step (c := c) hs.1 (hs.2 j t ht)
              · rw [hkept]
                exact hne
              · rintro rfl
                exact hne (((hknows _ hnew).2 rfl).trans hnew.symm)
        · refine Or.inl ⟨?_, Or.inr (hsame.trans hentered)⟩
          have hknows := hs.2 i _ hentered
          cases ht : s.tasks[j]? with
          | none =>
              rw [step_run_none c ht]
              exact hne
          | some t =>
              rw [step_run c ht]
              change (runTask j c s.shared t).1.session.refreshToken ≠ observed
              rw [runTask_outside hknows.1 hj (hs.2 j t ht)]
              exact hne
        · exact Or.inr (hsame.trans hdone)

/-- **Run lemma** for a call whose token was replaced while it waited. -/
theorem overtaken_run {observed : Option Nat} (hs : Holds Sound Knows s)
    (h : Overtaken i observed s) (events : List (Ev K))
    (hcomplete : Guarded program.step Complete s events) :
    requestsOf i (after s events) = requestsOf i s := by
  let I (t : Sys K) : Prop :=
    Holds Sound Knows t ∧ Overtaken i observed t ∧ requestsOf i t = requestsOf i s
  have hrun : I (after s events) := by
    refine exec_invariant ?_ ⟨hs, h, rfl⟩ hcomplete
    rintro t e ⟨hholds, hovertaken, hrequests⟩ hok
    have hstep := overtaken_step e hholds hovertaken
    exact ⟨(gate_outline K).step t e hholds hok, hstep.1, hstep.2.trans hrequests⟩
  exact hrun.2.2

/-- Between taking the gate and returning. -/
def Task.inside : Task K → Bool
  | .observe | .waiting _ | .reloading | .done _ => false
  | _ => true

/-- The gate after a step belongs to the call that took the step and is inside, or to the one it
belonged to before, and a call that was inside still is. -/
theorem gate_runTask {j : Nat} {c : Choice K} {sh : Shared K} {t : Task K}
    (h : (runTask j c sh t).1.gate = some i) :
    (runTask j c sh t).2.inside = true ∧ (i = j ∨ sh.gate = some i) ∨
      t.inside = false ∧ sh.gate = some i := by
  cases t with
  | observe => exact Or.inr ⟨rfl, h⟩
  | waiting observed =>
      unfold runTask at h ⊢
      dsimp only at h ⊢
      split at h
      · rename_i hfree
        rw [if_pos hfree]
        exact Or.inl ⟨rfl, Or.inl (Option.some.inj h).symm⟩
      · exact Or.inr ⟨rfl, h⟩
  | reloading =>
      unfold runTask at h ⊢
      dsimp only at h ⊢
      split at h
      · rename_i hfree
        rw [if_pos hfree]
        exact Or.inl ⟨rfl, Or.inl (Option.some.inj h).symm⟩
      · exact Or.inr ⟨rfl, h⟩
  | entered observed =>
      unfold runTask at h ⊢
      dsimp only at h ⊢
      split at h
      · exact nomatch h
      · rename_i hsame
        rw [if_neg hsame]
        split at h
        · exact Or.inl ⟨rfl, Or.inr h⟩
        · exact Or.inl ⟨rfl, Or.inr h⟩
  | refreshing token =>
      left
      unfold runTask at h ⊢
      dsimp only at h ⊢
      split at h
      · split at h
        · rename_i haccess
          rw [if_pos haccess]
          exact ⟨rfl, Or.inr h⟩
        · rename_i haccess
          rw [if_neg haccess]
          exact ⟨rfl, Or.inr h⟩
      · split at h
        · exact nomatch h
        · rename_i htransient
          rw [if_neg htransient]
          exact ⟨rfl, Or.inr h⟩
  | storing access rotated => exact nomatch h
  | challenge =>
      left
      unfold runTask at h ⊢
      dsimp only at h ⊢
      split at h
      · exact nomatch h
      · split at h
        · exact nomatch h
        · exact ⟨rfl, Or.inr h⟩
  | login =>
      left
      unfold runTask at h ⊢
      dsimp only at h ⊢
      split at h
      · exact nomatch h
      · split at h
        · rename_i haccess
          rw [if_pos haccess]
          exact ⟨rfl, Or.inr h⟩
        · exact nomatch h
  | vault access refresh => exact Or.inl ⟨rfl, Or.inr h⟩
  | writing access refresh material loaded => exact nomatch h
  | done result => exact Or.inr ⟨rfl, h⟩

/-- Whoever holds the gate is inside. -/
theorem holder_run (session : Session K) (events : List (Ev K)) (i : Nat) :
    let s := after (System.start (Shared.start session)) events
    s.shared.gate = some i → ∃ t, s.tasks[i]? = some t ∧ t.inside = true := by
  intro s
  refine exec_invariant (I := fun s : Sys K =>
    s.shared.gate = some i → ∃ t, s.tasks[i]? = some t ∧ t.inside = true) ?_ nofun
    (guarded_true _ _ _)
  intro s e hs _ hgate
  cases e with
  | outside e => exact nomatch e
  | call c =>
      obtain ⟨t, ht, hinside⟩ := hs hgate
      exact ⟨t, task_step_call c ht, hinside⟩
  | run j c =>
      cases htask : s.tasks[j]? with
      | none =>
          rw [step_run_none c htask] at hgate ⊢
          exact hs hgate
      | some t =>
          have hafter := task_step_run (P := program) c htask
          have hgate' : (runTask j c s.shared t).1.gate = some i := by
            rw [step_run c htask] at hgate
            exact hgate
          by_cases hj : i = j
          · subst hj
            rcases gate_runTask hgate' with ⟨hinside, -⟩ | ⟨houtside, hbefore⟩
            · exact ⟨_, hafter, hinside⟩
            · obtain ⟨u, hu, hinside⟩ := hs hbefore
              cases Option.some.inj (htask.symm.trans hu)
              exact absurd (houtside.symm.trans hinside) (by decide)
          · have hbefore : s.shared.gate = some i := by
              rcases gate_runTask hgate' with ⟨-, hij | hbefore⟩ | ⟨-, hbefore⟩
              · exact absurd hij hj
              · exact hbefore
              · exact hbefore
            obtain ⟨u, hu, hinside⟩ := hs hbefore
            exact ⟨u, (task_step_other c hj).trans hu, hinside⟩

end Calls

/-! ## Used once -/

section Used

theorem sound_start (session : Session K) : Sound (Shared.start session) where
  issued t ht := by
    change t = session.refreshToken.getD 0
    rw [show session.refreshToken = some t from ht]
    rfl
  valid := Nat.lt_succ_self _
  held t ht := by
    change t ≤ session.refreshToken.getD 0
    rw [show session.refreshToken = some t from ht]
    exact Nat.le_refl _
  unspent q hq := absurd hq List.not_mem_nil
  free _ := ⟨rfl, rfl⟩

/-- **Refresh tokens are used once**, if the answers of the server are complete: no refresh carries
a token that was rotated away, a `refresh_access_token` call whose token was replaced while it
waited sends nothing, the session holds what the server handed out last whenever no call is at
work, and a call that fails has written nothing. -/
theorem refresh_tokens_are_used_once (session : Session K) (events : List (Ev K))
    (hcomplete : Guarded program.step Complete (System.start (Shared.start session)) events) :
    let start := System.start (Shared.start session)
    let s := after start events
    (∀ q ∈ s.shared.server.sent, q.spent = false) ∧
    (∀ before rest i observed, events = before ++ rest →
      (after start before).tasks[i]? = some (.waiting observed) →
      (after start before).shared.session.refreshToken ≠ observed →
      requestsOf i s = requestsOf i (after start before)) ∧
    ((∀ t ∈ s.tasks, ∃ result, t = .done result) → Consistent s.shared) ∧
    (∀ before i c rest e, events = before ++ .run i c :: rest →
      s.tasks[i]? = some (.done (.error e)) →
      (after start (before ++ [.run i c])).shared.session =
        (after start before).shared.session) := by
  intro start s
  have hholds : Holds Sound Knows s :=
    (gate_outline K).exec_start _ (sound_start session) events hcomplete
  refine ⟨hholds.1.unspent, ?_, ?_, ?_⟩
  · rintro before rest i observed rfl hwaiting hne
    rw [guarded_append] at hcomplete
    have hbefore := (gate_outline K).exec_start _ (sound_start session) before hcomplete.1
    rw [show s = after (after start before) rest from exec_append _ _ _ _]
    exact overtaken_run hbefore (Or.inl ⟨hne, Or.inl hwaiting⟩) rest hcomplete.2
  · intro hdone
    apply hholds.1.free
    cases hgate : s.shared.gate with
    | none => rfl
    | some i =>
        -- its holder has not returned
        obtain ⟨t, ht, hinside⟩ := holder_run session events i hgate
        obtain ⟨result, rfl⟩ := hdone t (List.mem_of_getElem? ht)
        exact absurd hinside Bool.false_ne_true
  · rintro before i c rest e rfl hfailed
    have hsplit : s = after (after start before) (.run i c :: rest) := exec_append _ _ _ _
    rw [hsplit] at hfailed
    have hsame := session_of_error rest hfailed
    rw [after, exec_append]
    exact hsame

/-- A session with the tokens numbered 0. -/
def someSession : Session Unit where
  userId := "u"
  accessToken := 0
  refreshToken := some 0
  identityKey := none
  dataKek := none
  ratchetIdentityPublic := none
  ratchetKeys := []
  inboundKeys := []
  previousKeys := []
  ratchetRecovery := ()
  accountKeys := []

/-- Every request is answered, with both tokens. -/
def answering : Choice Unit where
  refreshAnswer := .ok ⟨true, true⟩
  refusal := .api "401"
  challengeAnswer := .ok ()
  signature := .ok ()
  loginAnswer := .ok ⟨true, true⟩
  material := .error (.crypto "locked")
  loaded := []

theorem complete_answering (s : Sys Unit) (i : Nat) : Complete s (.run i answering) := by
  intro t _
  cases t with
  | refreshing token =>
      intro t ht _
      cases ht
      rfl
  | challenge => exact fun _ => ⟨rfl, rfl⟩
  | login =>
      refine ⟨fun t ht => ?_, fun _ => ⟨_, rfl⟩⟩
      cases ht
      exact ⟨rfl, rfl⟩
  | observe => trivial
  | waiting observed => trivial
  | reloading => trivial
  | entered observed => trivial
  | storing access rotated => trivial
  | vault access refresh => trivial
  | writing access refresh material loaded => trivial
  | done result => trivial

/-- Two calls begin; the first one refreshes while the second waits with the old token. -/
def twoRefreshes : List (Ev Unit) :=
  [.call .refreshAccessToken, .call .refreshAccessToken, .run 0 answering, .run 1 answering,
    .run 0 answering, .run 0 answering, .run 0 answering, .run 0 answering]

/-- The second call finds the new token and sends nothing. -/
theorem refresh_tokens_are_used_once_two :
    let s := after (System.start (Shared.start someSession))
      (twoRefreshes ++ [.run 1 answering, .run 1 answering])
    (∀ q ∈ s.shared.server.sent, q.spent = false) ∧ requestsOf 1 s = [] ∧
      Consistent s.shared := by
  intro s
  have hstep : ∀ t i, Complete t (.run i answering) := complete_answering
  have hcomplete : Guarded program.step Complete (System.start (Shared.start someSession))
      (twoRefreshes ++ [.run 1 answering, .run 1 answering]) :=
    ⟨trivial, trivial, hstep _ 0, hstep _ 1, hstep _ 0, hstep _ 0, hstep _ 0, hstep _ 0,
      hstep _ 1, hstep _ 1, trivial⟩
  have h := refresh_tokens_are_used_once someSession _ hcomplete
  refine ⟨h.1, ?_, h.2.2.1 ?_⟩
  · exact h.2.1 twoRefreshes _ 1 (some 0) rfl rfl (by decide)
  · intro t ht
    have htasks : s.tasks = [.done (.ok ()), .done (.ok ())] := rfl
    rw [htasks] at ht
    rcases List.mem_pair.1 ht with rfl | rfl
    · exact ⟨_, rfl⟩
    · exact ⟨_, rfl⟩

/-- A refresh while `reload_vault_keys` waits at the gate. -/
def reloadWaits : List (Ev Unit) :=
  [.call .refreshAccessToken, .call .reloadVaultKeys, .run 0 answering, .run 0 answering,
    .run 1 answering]

/-- The refresh is answered and its tokens are stored. -/
def refreshEnds : List (Ev Unit) := List.replicate 3 (.run 0 answering)

/-- A refresh is answered without an access token and the sign-in after it fails; then the next
call refreshes. -/
def answerLacksAccess : List (Ev Unit) :=
  [.call .refreshAccessToken, .run 0 answering, .run 0 answering, .run 0 answering,
    .run 0 { answering with refreshAnswer := .ok ⟨false, true⟩ },
    .run 0 { answering with challengeAnswer := .error (.network "timeout") },
    .call .refreshAccessToken, .run 1 answering, .run 1 answering, .run 1 answering,
    .run 1 answering]

/-- `reload_vault_keys` signs in although the token was replaced while it waited; and a token that
came without an access token is dropped, so that the spent one is sent again. -/
theorem waiting_caller_signs_in :
    let start := System.start (Shared.start someSession)
    ((after start reloadWaits).tasks[1]? = some .reloading ∧
      (after start reloadWaits).shared.session.refreshToken = some 0 ∧
      (after start (reloadWaits ++ refreshEnds)).tasks[1]? = some .reloading ∧
      (after start (reloadWaits ++ refreshEnds)).shared.session.refreshToken = some 1 ∧
      requestsOf 1
          (after start (reloadWaits ++ refreshEnds ++ List.replicate 3 (.run 1 answering))) =
        [⟨1, .challenge, false⟩, ⟨1, .login, false⟩]) ∧
    (after start answerLacksAccess).shared.server.sent =
      [⟨0, .refresh 0 "u", false⟩, ⟨0, .challenge, false⟩, ⟨1, .refresh 0 "u", true⟩] := by
  refine ⟨⟨rfl, rfl, rfl, rfl, rfl⟩, by decide +kernel⟩

end Used

end AsterBridge.Auth.Refresh
