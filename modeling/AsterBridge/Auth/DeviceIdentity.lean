import AsterBridge.Lib.Runs

/-!
# The vault passphrase

`auth/device_identity.rs`: `store_passphrase` writes the passphrase to the keystore or, if that does
not take it, to a file sealed under a key from the keystore; `load_passphrase` reads the keystore
first and moves a file there. A step is one call of the keystore or one change of the file, and the
program may die between any two.

An entry of the keystore is written as the bytes it encodes. A sealed file opens under the key it
was sealed with and under no other. Only the rename of a written file shows, so the steps on a
temporary file are part of it.
-/

set_option autoImplicit false

namespace AsterBridge.Auth.DeviceIdentity

open AsterBridge.Lib.Runs

abbrev Passphrase := List UInt8

/-- A wrap key, by its number. -/
abbrev Key := Nat

/-! ## Where a passphrase is kept -/

/-- `device_passphrase.bin` -/
inductive File where
  /-- under `MAGIC_PP` -/
  | sealed (key : Key) (text : Passphrase)
  /-- plain base64, as older versions wrote it -/
  | legacy (text : Passphrase)
  /-- neither -/
  | damaged
deriving DecidableEq

namespace File

/-- The passphrase in the file, whether it can be opened or not. -/
def text : File → Option Passphrase
  | .sealed _ text | .legacy text => some text
  | .damaged => none

/-- `aead_open` of a sealed file, `b64url_decode` of another -/
def opened (wrap : Option Key) : File → Option Passphrase
  | .sealed key text => if wrap = some key then some text else none
  | .legacy text => some text
  | .damaged => none

theorem text_of_opened {wrap : Option Key} {f : File} {v : Passphrase}
    (h : f.opened wrap = some v) : f.text = some v := by
  cases f with
  | sealed key text =>
      rw [opened] at h
      split at h
      · exact h
      · exact nomatch h
  | legacy text => exact h
  | damaged => exact nomatch h

/-- A file that opens without a key opens with any. -/
theorem opened_of_none {f : File} {v : Passphrase} (h : f.opened none = some v)
    (wrap : Option Key) : f.opened wrap = some v := by
  cases f with
  | sealed key text => exact nomatch h
  | legacy text => exact h
  | damaged => exact nomatch h

end File

/-- The two entries of the keystore, under `KEYRING_USER` and `KEYRING_WRAP_USER`, and the file. -/
structure Storage where
  ring : Option Passphrase
  wrap : Option Key
  file : Option File

namespace Storage

/-- `load_passphrase` when every call of the keystore works. -/
def loadable (s : Storage) : Option Passphrase := s.ring.or (s.file.bind (File.opened s.wrap))

/-- A passphrase is in the keystore or in the file. -/
def Holds (s : Storage) (v : Passphrase) : Prop :=
  s.ring = some v ∨ ∃ f, s.file = some f ∧ f.text = some v

/-- Some passphrase can be loaded, and only admitted ones are there. -/
structure Keeps (V : Passphrase → Prop) (s : Storage) : Prop where
  only : ∀ v, s.Holds v → V v
  loads : s.loadable ≠ none

theorem holds_of_loadable {s : Storage} {v : Passphrase} (h : s.loadable = some v) :
    s.Holds v := by
  rw [loadable] at h
  cases hring : s.ring with
  | some w =>
      rw [hring] at h
      exact Or.inl (hring.trans h)
  | none =>
      rw [hring, Option.none_or] at h
      obtain ⟨f, hf, hopened⟩ := Option.bind_eq_some_iff.1 h
      exact Or.inr ⟨f, hf, File.text_of_opened hopened⟩

theorem loads_of_ring {s : Storage} {v : Passphrase} (h : s.ring = some v) : s.loadable ≠ none := by
  rw [loadable, h, Option.some_or]
  exact nofun

theorem loads_of_file {s : Storage} {f : File} {v : Passphrase} (hfile : s.file = some f)
    (hopened : f.opened s.wrap = some v) : s.loadable ≠ none := by
  rw [loadable, hfile, Option.bind_some, hopened]
  cases s.ring <;> exact nofun

/-- A passphrase that can be loaded, of those admitted. -/
theorem Keeps.loadable {V : Passphrase → Prop} {s : Storage} (h : Keeps V s) :
    ∃ v, V v ∧ s.loadable = some v := by
  obtain ⟨v, hv⟩ := Option.ne_none_iff_exists'.1 h.loads
  exact ⟨v, h.only v (holds_of_loadable hv), hv⟩

theorem Keeps.mono {V W : Passphrase → Prop} {s : Storage} (h : Keeps V s)
    (hVW : ∀ v, V v → W v) : Keeps W s :=
  ⟨fun v hv => hVW v (h.only v hv), h.loads⟩

/-- The keystore takes an admitted passphrase. -/
theorem Keeps.setRing {V : Passphrase → Prop} {s : Storage} (h : Keeps V s) {v : Passphrase}
    (hv : V v) : Keeps V { s with ring := some v } := by
  refine ⟨?_, loads_of_ring (v := v) rfl⟩
  rintro w (hring | hfile)
  · cases Option.some.inj hring
    exact hv
  · exact h.only w (Or.inr hfile)

/-- The file goes while the keystore has an admitted passphrase. -/
theorem Keeps.dropFile {V : Passphrase → Prop} {s : Storage} {v : Passphrase}
    (hring : s.ring = some v) (hv : V v) : Keeps V { s with file := none } := by
  refine ⟨?_, loads_of_ring (v := v) hring⟩
  rintro w (hother | ⟨f, hfile, -⟩)
  · cases Option.some.inj (hring.symm.trans hother)
    exact hv
  · exact nomatch hfile

/-- The first wrap key is stored. -/
theorem Keeps.setWrap {V : Passphrase → Prop} {s : Storage} (h : Keeps V s)
    (hwrap : s.wrap = none) (key : Key) : Keeps V { s with wrap := some key } := by
  refine ⟨h.only, ?_⟩
  obtain ⟨v, hv⟩ := Option.ne_none_iff_exists'.1 h.loads
  cases hring : s.ring with
  | some w => exact loads_of_ring (v := w) rfl
  | none =>
      -- what opens now is a file that needs no key
      rw [Storage.loadable, hring, Option.none_or, hwrap] at hv
      obtain ⟨f, hf, hopened⟩ := Option.bind_eq_some_iff.1 hv
      exact loads_of_file (v := v) hf (File.opened_of_none hopened _)

/-- A file with an admitted passphrase replaces the old one, and what is in the keystore is admitted
or the file opens. -/
theorem Keeps.setFile {V : Passphrase → Prop} {s : Storage} {key : Key} {v : Passphrase}
    (hring : ∀ w, s.ring = some w → V w) (hv : V v)
    (hopens : s.ring = none → s.wrap = some key) :
    Keeps V { s with file := some (.sealed key v) } := by
  refine ⟨?_, ?_⟩
  · rintro w (hother | ⟨f, hfile, htext⟩)
    · exact hring w hother
    · cases Option.some.inj hfile
      cases Option.some.inj htext
      exact hv
  · cases hcases : s.ring with
    | some w => exact loads_of_ring (v := w) rfl
    | none => exact loads_of_file (v := v) rfl (if_pos (hopens hcases))

end Storage

/-! ## Calls -/

/-- What the keystore does with a call. Only a `set` can report success without storing. -/
inductive Outcome where
  | works
  | fails
  | lies
deriving DecidableEq

/-- What the last call returned; a crash returns nothing. -/
inductive Answer where
  | none
  | stored
  | storeFailed
  | loaded (v : Option Passphrase)
  | loadFailed
  | cleared
deriving DecidableEq

/-- Where the program is. -/
inductive Pc where
  | idle (last : Answer)
  /-- `store_passphrase` in `keyring_store` -/
  | storeSetting (p : Passphrase)
  /-- in `keyring_holds` -/
  | storeChecking (p : Passphrase)
  /-- before it removes the file -/
  | storeRemoving (p : Passphrase)
  /-- in `wrap_key_load` of `wrap_key_load_or_create` -/
  | storeKeyLoading (p : Passphrase)
  | storeKeyCreating (p : Passphrase)
  /-- before `atomic_write` -/
  | storeWriting (p : Passphrase) (key : Key)
  /-- before it restricts the permissions of the file -/
  | storeRestricting (p : Passphrase)
  /-- `load_passphrase` in `keyring_load` -/
  | loadGetting
  /-- before it looks for the file -/
  | loadReading
  /-- with a sealed file, in `wrap_key_load` -/
  | loadUnsealing (key : Key) (text : Passphrase)
  /-- with the passphrase of the file, in `keyring_store` -/
  | loadSetting (b : Passphrase) (wasSealed : Bool)
  | loadChecking (b : Passphrase) (wasSealed : Bool)
  | loadRemoving (b : Passphrase)
  /-- `reseal_legacy_file` in the first `wrap_key_load` -/
  | resealKeyLoading (b : Passphrase)
  | resealKeyCreating (b : Passphrase)
  /-- in the second `wrap_key_load` -/
  | resealKeyReloading (b : Passphrase) (key : Key)
  /-- in `reseal_with_keys` -/
  | resealing (b : Passphrase) (key : Key) (reloaded : Option Key)
  /-- `clear_passphrase` in `keyring_delete` -/
  | clearDeleting
  | clearRemoving
deriving DecidableEq

/-- The passphrase of the store that is running. -/
def Pc.storing : Pc → Option Passphrase
  | .storeSetting p | .storeChecking p | .storeRemoving p | .storeKeyLoading p
  | .storeKeyCreating p | .storeWriting p _ | .storeRestricting p => some p
  | _ => none

/-- A `clear_passphrase` is running. -/
def Pc.clears : Pc → Bool
  | .clearDeleting | .clearRemoving => true
  | _ => false

/-- The program and its storage. -/
structure State where
  store : Storage
  pc : Pc
  /-- the passphrase of the last store that returned `Ok`, until a clear begins -/
  last : Option Passphrase
  /-- the passphrases of the stores that were begun since then -/
  attempted : List Passphrase

/-- A storage with a file of an older version, or with none. -/
def State.start (wrap : Option Key) (legacy : Option Passphrase) : State where
  store := ⟨none, wrap, legacy.map File.legacy⟩
  pc := .idle .none
  last := legacy
  attempted := []

/-- The calls. -/
inductive Call where
  | store (p : Passphrase)
  | load
  | clear
deriving DecidableEq

/-- A call begins. -/
def begin (c : Call) (s : State) : State :=
  match c with
  | .store p => { s with pc := .storeSetting p, attempted := p :: s.attempted }
  | .load => { s with pc := .loadGetting }
  | .clear => { s with pc := .clearDeleting, last := none, attempted := [] }

/-- `store_passphrase` returns `Ok`. -/
def stored (p : Passphrase) (s : State) : State :=
  { s with pc := .idle .stored, last := some p, attempted := [] }

/-- A step of `store_passphrase`, `load_passphrase` or `clear_passphrase`; `fresh` is the key that
`wrap_key_load_or_create` makes. -/
def go (o : Outcome) (fresh : Key) (s : State) : State :=
  match s.pc with
  | .idle _ => s
  | .storeSetting p =>
      match o with
      | .works => { s with store := { s.store with ring := some p }, pc := .storeChecking p }
      | .lies => { s with pc := .storeChecking p }
      | .fails => { s with pc := .storeKeyLoading p }
  | .storeChecking p =>
      if o ≠ .fails ∧ s.store.ring = some p then { s with pc := .storeRemoving p }
      else { s with pc := .storeKeyLoading p }
  | .storeRemoving p => stored p { s with store := { s.store with file := none } }
  | .storeKeyLoading p =>
      if o = .fails then { s with pc := .idle .storeFailed }
      else
        match s.store.wrap with
        | some key => { s with pc := .storeWriting p key }
        | none => { s with pc := .storeKeyCreating p }
  | .storeKeyCreating p =>
      match o with
      | .works =>
          { s with store := { s.store with wrap := some fresh }, pc := .storeWriting p fresh }
      | .lies => { s with pc := .storeWriting p fresh }
      | .fails => { s with pc := .idle .storeFailed }
  | .storeWriting p key =>
      { s with
        store := { s.store with file := some (.sealed key p) }
        pc := .storeRestricting p }
  | .storeRestricting p => stored p s
  | .loadGetting =>
      -- an error is taken for a missing entry
      if o = .fails then { s with pc := .loadReading }
      else
        match s.store.ring with
        | some v => { s with pc := .idle (.loaded (some v)) }
        | none => { s with pc := .loadReading }
  | .loadReading =>
      match s.store.file with
      | none => { s with pc := .idle (.loaded none) }
      | some (.sealed key text) => { s with pc := .loadUnsealing key text }
      | some (.legacy text) => { s with pc := .loadSetting text false }
      | some .damaged => { s with pc := .idle .loadFailed }
  | .loadUnsealing key text =>
      if o ≠ .fails ∧ s.store.wrap = some key then { s with pc := .loadSetting text true }
      else { s with pc := .idle .loadFailed }
  | .loadSetting b wasSealed =>
      match o with
      | .works =>
          { s with store := { s.store with ring := some b }, pc := .loadChecking b wasSealed }
      | .lies => { s with pc := .loadChecking b wasSealed }
      | .fails =>
          { s with pc := if wasSealed then .idle (.loaded (some b)) else .resealKeyLoading b }
  | .loadChecking b wasSealed =>
      if o ≠ .fails ∧ s.store.ring = some b then { s with pc := .loadRemoving b }
      else { s with pc := if wasSealed then .idle (.loaded (some b)) else .resealKeyLoading b }
  | .loadRemoving b =>
      { s with store := { s.store with file := none }, pc := .idle (.loaded (some b)) }
  | .resealKeyLoading b =>
      if o = .fails then { s with pc := .idle (.loaded (some b)) }
      else
        match s.store.wrap with
        | some key => { s with pc := .resealKeyReloading b key }
        | none => { s with pc := .resealKeyCreating b }
  | .resealKeyCreating b =>
      match o with
      | .works =>
          { s with
            store := { s.store with wrap := some fresh }
            pc := .resealKeyReloading b fresh }
      | .lies => { s with pc := .resealKeyReloading b fresh }
      | .fails => { s with pc := .idle (.loaded (some b)) }
  | .resealKeyReloading b key =>
      if o = .fails then { s with pc := .idle (.loaded (some b)) }
      else { s with pc := .resealing b key s.store.wrap }
  | .resealing b key reloaded =>
      -- `seal_verified` opens the sealed copy with the key that was read back
      if reloaded = some key then
        { s with
          store := { s.store with file := some (.sealed key b) }
          pc := .idle (.loaded (some b)) }
      else { s with pc := .idle (.loaded (some b)) }
  | .clearDeleting =>
      if o = .fails then { s with pc := .clearRemoving }
      else { s with store := { s.store with ring := none }, pc := .clearRemoving }
  | .clearRemoving => { s with store := { s.store with file := none }, pc := .idle .cleared }

/-- A step: a call begins, the running call goes on, or the program dies and starts again. -/
inductive Action where
  | call (c : Call)
  | go (o : Outcome) (fresh : Key)
  | crash
deriving DecidableEq

def step (s : State) : Action → State
  | .call c =>
      match s.pc with
      | .idle _ => begin c s
      | _ => s
  | .go o fresh => go o fresh s
  | .crash => { s with pc := .idle .none }

/-! ## What a step keeps -/

open Storage

/-- Where a store writes the file, the keystore has no other passphrase and really took the wrap
key; and where the entry of the keystore cannot be read, there is a file. -/
def Meets (s : State) (a : Action) : Prop :=
  match s.pc, a with
  | .storeWriting p key, .go _ _ =>
      s.store.ring = some p ∨ (s.store.ring = none ∧ s.store.wrap = some key)
  | .loadGetting, .go .fails _ => s.store.ring = none ∨ s.store.file ≠ none
  | _, _ => True

/-- The passphrase is the one in the file. -/
def InFile (s : State) (b : Passphrase) : Prop := ∃ f, s.store.file = some f ∧ f.text = some b

/-- What the running call knows of the storage. -/
def Knows (s : State) : Prop :=
  match s.pc with
  | .storeRemoving p => s.store.ring = some p
  | .storeKeyCreating _ => s.store.wrap = none
  | .storeRestricting p => Keeps (· = p) s.store
  | .loadReading => s.store.ring = none ∨ s.store.file ≠ none
  | .loadUnsealing _ text => InFile s text
  | .loadSetting b _ | .loadChecking b _ | .resealKeyLoading b | .resealKeyReloading b _ =>
      InFile s b
  | .loadRemoving b => s.store.ring = some b
  | .resealKeyCreating b => InFile s b ∧ s.store.wrap = none
  | .resealing b _ reloaded => InFile s b ∧ reloaded = s.store.wrap
  | _ => True

theorem knows_go {o : Outcome} {fresh : Key} {s : State} (h : Knows s)
    (hmeets : Meets s (.go o fresh)) : Knows (go o fresh s) := by
  unfold Knows at h
  unfold Meets at hmeets
  unfold go
  cases hpc : s.pc with
  | idle last => unfold Knows; rw [hpc]; trivial
  | storeSetting p => cases o <;> trivial
  | storeChecking p =>
      dsimp only
      split
      next hholds => exact hholds.2
      next => trivial
  | storeRemoving p => trivial
  | storeKeyLoading p =>
      dsimp only
      split
      next => trivial
      next =>
        cases hwrap : s.store.wrap with
        | some key => trivial
        | none => exact hwrap
  | storeKeyCreating p => cases o <;> trivial
  | storeWriting p key =>
      rw [hpc] at hmeets
      refine Keeps.setFile ?_ rfl ?_
      · intro w hw
        rcases hmeets with hsame | ⟨hnone, -⟩
        · exact Option.some.inj (hw.symm.trans hsame)
        · exact nomatch hnone.symm.trans hw
      · intro hnone
        rcases hmeets with hsome | ⟨-, hwrap⟩
        · exact nomatch hnone.symm.trans hsome
        · exact hwrap
  | storeRestricting p => trivial
  | loadGetting =>
      rw [hpc] at hmeets
      dsimp only
      split
      next hfails =>
        subst hfails
        exact hmeets
      next =>
        cases hring : s.store.ring with
        | some v => trivial
        | none => exact Or.inl hring
  | loadReading =>
      dsimp only
      cases hfile : s.store.file with
      | none => trivial
      | some f =>
          cases f with
          | sealed key text => exact ⟨_, hfile, rfl⟩
          | legacy text => exact ⟨_, hfile, rfl⟩
          | damaged => trivial
  | loadUnsealing key text =>
      rw [hpc] at h
      dsimp only
      split
      next => exact h
      next => trivial
  | loadSetting b wasSealed =>
      rw [hpc] at h
      cases o with
      | works => exact h
      | lies => exact h
      | fails => cases wasSealed <;> first | exact h | trivial
  | loadChecking b wasSealed =>
      rw [hpc] at h
      dsimp only
      split
      next hholds => exact hholds.2
      next => cases wasSealed <;> first | exact h | trivial
  | loadRemoving b => trivial
  | resealKeyLoading b =>
      rw [hpc] at h
      dsimp only
      split
      next => trivial
      next =>
        cases hwrap : s.store.wrap with
        | some key => exact h
        | none => exact ⟨h, hwrap⟩
  | resealKeyCreating b =>
      rw [hpc] at h
      cases o with
      | works => exact h.1
      | lies => exact h.1
      | fails => trivial
  | resealKeyReloading b key =>
      rw [hpc] at h
      dsimp only
      split
      next => trivial
      next => exact ⟨h, rfl⟩
  | resealing b key reloaded =>
      dsimp only
      split <;> trivial
  | clearDeleting =>
      dsimp only
      split <;> trivial
  | clearRemoving => trivial

/-- No step of a store or a load loses the last passphrase that can be loaded, and none but the one
that is being stored comes in. -/
theorem keeps_go {V : Passphrase → Prop} {o : Outcome} {fresh : Key} {s : State} (hknows : Knows s)
    (hmeets : Meets s (.go o fresh)) (hclears : s.pc.clears = false)
    (hV : ∀ q, s.pc.storing = some q → V q) (h : Keeps V s.store) :
    Keeps V (go o fresh s).store := by
  unfold Knows at hknows
  unfold Meets at hmeets
  unfold go
  have hfile : ∀ b, InFile s b → V b := fun b hb => h.only b (Or.inr hb)
  cases hpc : s.pc with
  | storeSetting p =>
      cases o with
      | works => exact h.setRing (hV p (by rw [hpc]; rfl))
      | lies => exact h
      | fails => exact h
  | storeRemoving p =>
      rw [hpc] at hknows
      exact Keeps.dropFile hknows (hV p (by rw [hpc]; rfl))
  | storeKeyCreating p =>
      rw [hpc] at hknows
      cases o with
      | works => exact h.setWrap hknows fresh
      | lies => exact h
      | fails => exact h
  | storeWriting p key =>
      rw [hpc] at hmeets
      refine Keeps.setFile (fun w hw => h.only w (Or.inl hw)) (hV p (by rw [hpc]; rfl)) ?_
      intro hnone
      rcases hmeets with hsome | ⟨-, hwrap⟩
      · exact nomatch hnone.symm.trans hsome
      · exact hwrap
  | loadSetting b wasSealed =>
      rw [hpc] at hknows
      cases o with
      | works => exact h.setRing (hfile b hknows)
      | lies => exact h
      | fails => exact h
  | loadRemoving b =>
      rw [hpc] at hknows
      exact Keeps.dropFile hknows (h.only b (Or.inl hknows))
  | resealKeyCreating b =>
      rw [hpc] at hknows
      cases o with
      | works => exact h.setWrap hknows.2 fresh
      | lies => exact h
      | fails => exact h
  | resealing b key reloaded =>
      rw [hpc] at hknows
      dsimp only
      split
      next hreloaded =>
        -- the key that was read back is the one in the keystore
        exact Keeps.setFile (fun w hw => h.only w (Or.inl hw)) (hfile b hknows.1)
          (fun _ => hknows.2.symm.trans hreloaded)
      next => exact h
  | clearDeleting => rw [hpc] at hclears; exact nomatch hclears
  | clearRemoving => rw [hpc] at hclears; exact nomatch hclears
  | storeChecking p => dsimp only; split <;> exact h
  | storeKeyLoading p =>
      dsimp only
      split
      next => exact h
      next => split <;> exact h
  | loadGetting =>
      dsimp only
      split
      next => exact h
      next => split <;> exact h
  | loadReading => dsimp only; split <;> exact h
  | loadUnsealing key text => dsimp only; split <;> exact h
  | loadChecking b wasSealed => dsimp only; split <;> exact h
  | resealKeyLoading b =>
      dsimp only
      split
      next => exact h
      next => split <;> exact h
  | resealKeyReloading b key => dsimp only; split <;> exact h
  | _ => exact h

/-- A step that leaves the history as it is, and stays in its call or returns without `Ok` from a
store. -/
structure Quiet (s s' : State) : Prop where
  last : s'.last = s.last
  attempted : s'.attempted = s.attempted
  storing : s'.pc.storing = s.pc.storing ∨ s'.pc = .idle .storeFailed
  clears : s'.pc.clears = true → s.pc.clears = true

/-- A step returns `Ok` from a store, whose passphrase is then the only one, or is quiet. -/
theorem go_ends (o : Outcome) (fresh : Key) {s : State} (hknows : Knows s) :
    Quiet s (go o fresh s) ∨
      ∃ p, (go o fresh s).last = some p ∧ (go o fresh s).attempted = [] ∧
        (go o fresh s).pc = .idle .stored ∧ Keeps (· = p) (go o fresh s).store := by
  unfold Knows at hknows
  unfold go
  cases hpc : s.pc with
  | idle last => exact Or.inl ⟨rfl, rfl, Or.inl rfl, fun h => h⟩
  | storeSetting p =>
      left
      cases o <;> exact ⟨rfl, rfl, Or.inl (by rw [hpc]; rfl), nofun⟩
  | storeChecking p =>
      left
      dsimp only
      split <;> exact ⟨rfl, rfl, Or.inl (by rw [hpc]; rfl), nofun⟩
  | storeRemoving p =>
      rw [hpc] at hknows
      exact Or.inr ⟨p, rfl, rfl, rfl, Keeps.dropFile hknows rfl⟩
  | storeKeyLoading p =>
      left
      dsimp only
      split
      next => exact ⟨rfl, rfl, Or.inr rfl, nofun⟩
      next => split <;> exact ⟨rfl, rfl, Or.inl (by rw [hpc]; rfl), nofun⟩
  | storeKeyCreating p =>
      left
      cases o with
      | fails => exact ⟨rfl, rfl, Or.inr rfl, nofun⟩
      | works => exact ⟨rfl, rfl, Or.inl (by rw [hpc]; rfl), nofun⟩
      | lies => exact ⟨rfl, rfl, Or.inl (by rw [hpc]; rfl), nofun⟩
  | storeWriting p key => exact Or.inl ⟨rfl, rfl, Or.inl (by rw [hpc]; rfl), nofun⟩
  | storeRestricting p =>
      rw [hpc] at hknows
      exact Or.inr ⟨p, rfl, rfl, rfl, hknows⟩
  | loadGetting =>
      left
      dsimp only
      split
      next => exact ⟨rfl, rfl, Or.inl (by rw [hpc]; rfl), nofun⟩
      next => split <;> exact ⟨rfl, rfl, Or.inl (by rw [hpc]; rfl), nofun⟩
  | loadReading =>
      left
      dsimp only
      split <;> exact ⟨rfl, rfl, Or.inl (by rw [hpc]; rfl), nofun⟩
  | loadUnsealing key text =>
      left
      dsimp only
      split <;> exact ⟨rfl, rfl, Or.inl (by rw [hpc]; rfl), nofun⟩
  | loadSetting b wasSealed =>
      left
      cases o <;> cases wasSealed <;> exact ⟨rfl, rfl, Or.inl (by rw [hpc]; rfl), nofun⟩
  | loadChecking b wasSealed =>
      left
      dsimp only
      split
      next => exact ⟨rfl, rfl, Or.inl (by rw [hpc]; rfl), nofun⟩
      next => cases wasSealed <;> exact ⟨rfl, rfl, Or.inl (by rw [hpc]; rfl), nofun⟩
  | loadRemoving b => exact Or.inl ⟨rfl, rfl, Or.inl (by rw [hpc]; rfl), nofun⟩
  | resealKeyLoading b =>
      left
      dsimp only
      split
      next => exact ⟨rfl, rfl, Or.inl (by rw [hpc]; rfl), nofun⟩
      next => split <;> exact ⟨rfl, rfl, Or.inl (by rw [hpc]; rfl), nofun⟩
  | resealKeyCreating b => left; cases o <;> exact ⟨rfl, rfl, Or.inl (by rw [hpc]; rfl), nofun⟩
  | resealKeyReloading b key =>
      left
      dsimp only
      split <;> exact ⟨rfl, rfl, Or.inl (by rw [hpc]; rfl), nofun⟩
  | resealing b key reloaded =>
      left
      dsimp only
      split <;> exact ⟨rfl, rfl, Or.inl (by rw [hpc]; rfl), nofun⟩
  | clearDeleting =>
      left
      dsimp only
      split <;> exact ⟨rfl, rfl, Or.inl (by rw [hpc]; rfl), fun _ => by rw [hpc]; rfl⟩
  | clearRemoving => exact Or.inl ⟨rfl, rfl, Or.inl (by rw [hpc]; rfl), nofun⟩

/-- What a load returns was in the keystore or in the file, and it returns nothing only if neither
had anything for it. -/
theorem loaded_go {o : Outcome} {fresh : Key} {s : State} (hknows : Knows s)
    (hbusy : ∀ last, s.pc ≠ .idle last) {v : Option Passphrase}
    (hv : (go o fresh s).pc = .idle (.loaded v)) :
    (∃ b, v = some b ∧ s.store.Holds b) ∨
      (v = none ∧ s.store.ring = none ∧ s.store.file = none) := by
  have hfound : ∀ {b : Passphrase}, Pc.idle (.loaded (some b)) = .idle (.loaded v) →
      s.store.Holds b → ∃ b, v = some b ∧ s.store.Holds b := by
    rintro b hb hholds
    injection hb with hb
    injection hb with hb
    exact ⟨b, hb.symm, hholds⟩
  unfold Knows at hknows
  unfold go at hv
  cases hpc : s.pc with
  | idle last => exact absurd hpc (hbusy last)
  | loadGetting =>
      rw [hpc] at hv
      dsimp only at hv
      split at hv
      next => exact nomatch hv
      next =>
        cases hring : s.store.ring with
        | some w =>
            rw [hring] at hv
            exact Or.inl (hfound hv (Or.inl hring))
        | none =>
            rw [hring] at hv
            exact nomatch hv
  | loadReading =>
      rw [hpc] at hv hknows
      dsimp only at hv
      split at hv
      next hfile =>
        injection hv with hv
        injection hv with hv
        exact Or.inr ⟨hv.symm, hknows.resolve_right (fun h => h hfile), hfile⟩
      next => exact nomatch hv
      next => exact nomatch hv
      next => exact nomatch hv
  | loadSetting b wasSealed =>
      rw [hpc] at hv hknows
      cases o with
      | works => exact nomatch hv
      | lies => exact nomatch hv
      | fails =>
          cases wasSealed with
          | true => exact Or.inl (hfound hv (Or.inr hknows))
          | false => exact nomatch hv
  | loadChecking b wasSealed =>
      rw [hpc] at hv hknows
      dsimp only at hv
      split at hv
      next => exact nomatch hv
      next =>
        cases wasSealed with
        | true => exact Or.inl (hfound hv (Or.inr hknows))
        | false => exact nomatch hv
  | loadRemoving b =>
      rw [hpc] at hv hknows
      exact Or.inl (hfound hv (Or.inl hknows))
  | resealKeyLoading b =>
      rw [hpc] at hv hknows
      dsimp only at hv
      split at hv
      next => exact Or.inl (hfound hv (Or.inr hknows))
      next => split at hv <;> exact nomatch hv
  | resealKeyCreating b =>
      rw [hpc] at hv hknows
      cases o with
      | works => exact nomatch hv
      | lies => exact nomatch hv
      | fails => exact Or.inl (hfound hv (Or.inr hknows.1))
  | resealKeyReloading b key =>
      rw [hpc] at hv hknows
      dsimp only at hv
      split at hv
      next => exact Or.inl (hfound hv (Or.inr hknows))
      next => exact nomatch hv
  | resealing b key reloaded =>
      rw [hpc] at hv hknows
      dsimp only at hv
      split at hv
      all_goals exact Or.inl (hfound hv (Or.inr hknows.1))
  | storeSetting p => rw [hpc] at hv; cases o <;> exact nomatch hv
  | storeChecking p => rw [hpc] at hv; dsimp only at hv; split at hv <;> exact nomatch hv
  | storeKeyLoading p =>
      rw [hpc] at hv
      dsimp only at hv
      split at hv
      next => exact nomatch hv
      next => split at hv <;> exact nomatch hv
  | storeKeyCreating p => rw [hpc] at hv; cases o <;> exact nomatch hv
  | loadUnsealing key text => rw [hpc] at hv; dsimp only at hv; split at hv <;> exact nomatch hv
  | clearDeleting => rw [hpc] at hv; dsimp only at hv; split at hv <;> exact nomatch hv
  | _ => rw [hpc] at hv; exact nomatch hv

/-! ## Every run -/

/-- What holds in every run whose steps meet the condition. -/
structure Sound (s : State) : Prop where
  knows : Knows s
  keeps : ∀ p, s.last = some p → Keeps (· ∈ p :: s.attempted) s.store
  storing : ∀ q, s.pc.storing = some q → q ∈ s.attempted
  clears : s.pc.clears = true → s.last = none
  loaded : ∀ p v, s.last = some p → s.attempted = [] → s.pc = .idle (.loaded v) → v = some p

theorem Sound.begin {s : State} (h : Sound s) (c : Call) : Sound (begin c s) := by
  cases c with
  | store p =>
      constructor
      case knows => trivial
      case keeps =>
        intro q hq
        refine (h.keeps q hq).mono fun v hv => ?_
        rcases List.mem_cons.1 hv with rfl | hmem
        · exact List.mem_cons_self
        · exact List.mem_cons_of_mem _ (List.mem_cons_of_mem _ hmem)
      case storing =>
        intro q hq
        cases Option.some.inj hq
        exact List.mem_cons_self
      case clears => exact nofun
      case loaded => exact fun _ _ _ hnone => nomatch hnone
  | load => exact ⟨trivial, h.keeps, nofun, nofun, nofun⟩
  | clear => exact ⟨trivial, nofun, nofun, fun _ => rfl, nofun⟩

theorem Sound.go {s : State} (h : Sound s) {o : Outcome} {fresh : Key}
    (hmeets : Meets s (.go o fresh)) : Sound (go o fresh s) := by
  have hknows := knows_go h.knows hmeets
  rcases go_ends o fresh h.knows with hquiet | ⟨p, hlast, hnone, hpc, hkeeps⟩
  · have hopen : ∀ p, (DeviceIdentity.go o fresh s).last = some p → s.pc.clears = false := by
      intro p hp
      rw [hquiet.last] at hp
      cases hclears : s.pc.clears with
      | false => rfl
      | true => exact nomatch hp.symm.trans (h.clears hclears)
    constructor
    case knows => exact hknows
    case keeps =>
      intro p hp
      have hclears := hopen p hp
      rw [hquiet.last] at hp
      rw [hquiet.attempted]
      exact keeps_go h.knows hmeets hclears
        (fun q hq => List.mem_cons_of_mem _ (h.storing q hq)) (h.keeps p hp)
    case storing =>
      intro q hq
      rw [hquiet.attempted]
      rcases hquiet.storing with hsame | hfailed
      · exact h.storing q (hsame ▸ hq)
      · rw [hfailed] at hq
        exact nomatch hq
    case clears =>
      intro hclears
      rw [hquiet.last]
      exact h.clears (hquiet.clears hclears)
    case loaded =>
      intro p v hp hnone hv
      have hclears := hopen p hp
      rw [hquiet.last] at hp
      rw [hquiet.attempted] at hnone
      by_cases hidle : ∃ last, s.pc = .idle last
      · -- nothing runs
        obtain ⟨last, hlast⟩ := hidle
        have hsame : DeviceIdentity.go o fresh s = s := by
          unfold DeviceIdentity.go
          rw [hlast]
        rw [hsame] at hv
        exact h.loaded p v hp hnone hv
      · have hkeeps := h.keeps p hp
        rw [hnone] at hkeeps
        rcases loaded_go h.knows (fun last hlast => hidle ⟨last, hlast⟩) hv with
          ⟨b, hb, hholds⟩ | ⟨-, hring, hfile⟩
        · rw [hb, List.mem_singleton.1 (hkeeps.only b hholds)]
        · refine absurd ?_ hkeeps.loads
          rw [loadable, hring, hfile]
          rfl
  · constructor
    case knows => exact hknows
    case keeps =>
      intro q hq
      cases Option.some.inj (hlast.symm.trans hq)
      exact hkeeps.mono fun v hv => hv ▸ List.mem_cons_self
    case storing => rw [hpc]; exact nofun
    case clears => rw [hpc]; exact nofun
    case loaded => rw [hpc]; exact nofun

theorem Sound.step {s : State} (h : Sound s) {a : Action} (hmeets : Meets s a) :
    Sound (step s a) := by
  cases a with
  | call c =>
      unfold DeviceIdentity.step
      dsimp only
      split
      next => exact h.begin c
      next => exact h
  | go o fresh => exact h.go hmeets
  | crash => exact ⟨trivial, h.keeps, nofun, nofun, nofun⟩

theorem sound_start (wrap : Option Key) (legacy : Option Passphrase) :
    Sound (State.start wrap legacy) := by
  refine ⟨trivial, ?_, nofun, nofun, nofun⟩
  intro p hp
  cases hp
  refine ⟨?_, loads_of_file (f := .legacy p) (v := p) rfl rfl⟩
  rintro v (hring | ⟨f, hf, htext⟩)
  · exact nomatch hring
  · cases Option.some.inj hf
    cases Option.some.inj htext
    exact List.mem_cons_self

/-- A store that dies or returns an error has left its passphrase nowhere, unless it was there
already. -/
def Uncut (s : State) (a : Action) : Prop :=
  a = .crash ∨ (step s a).pc = .idle .storeFailed → ∀ p, s.pc.storing = some p →
    s.last = some p ∨ ¬ (step s a).store.Holds p

/-- Only the last passphrase is there, and the one that is being stored. -/
def Exact (s : State) : Prop :=
  ∀ p, s.last = some p → Keeps (fun v => v = p ∨ s.pc.storing = some v) s.store

theorem Exact.step {s : State} (hs : Sound s) (h : Exact s) {a : Action} (hmeets : Meets s a)
    (huncut : Uncut s a) : Exact (step s a) := by
  have hcut : ∀ {p : Passphrase}, a = .crash ∨ (DeviceIdentity.step s a).pc = .idle .storeFailed →
      s.last = some p →
      Keeps (fun v => v = p ∨ s.pc.storing = some v) (DeviceIdentity.step s a).store →
      Keeps (fun v => v = p) (DeviceIdentity.step s a).store := by
    intro p hends hp hkeeps
    refine ⟨fun v hv => ?_, hkeeps.loads⟩
    rcases hkeeps.only v hv with rfl | hstoring
    · rfl
    · rcases huncut hends v hstoring with hlast | hnot
      · exact Option.some.inj (hlast.symm.trans hp)
      · exact absurd hv hnot
  cases a with
  | call c =>
      unfold DeviceIdentity.step
      dsimp only
      split
      next last hidle =>
        cases c with
        | clear => exact nofun
        | _ =>
            intro p hp
            refine (h p hp).mono fun v hv => hv.imp id fun hstoring => ?_
            rw [hidle] at hstoring
            exact nomatch hstoring
      next => exact h
  | crash =>
      intro p hp
      exact (hcut (Or.inl rfl) hp (h p hp)).mono fun v hv => Or.inl hv
  | go o fresh =>
      intro p hp
      rcases go_ends o fresh hs.knows with hquiet | ⟨q, hlast, -, -, hkeeps⟩
      · have hp' : s.last = some p := hquiet.last.symm.trans hp
        have hclears : s.pc.clears = false := by
          cases hclears : s.pc.clears with
          | false => rfl
          | true => exact nomatch hp'.symm.trans (hs.clears hclears)
        have hkeeps := keeps_go hs.knows hmeets hclears (fun q hq => Or.inr hq) (h p hp')
        rcases hquiet.storing with hsame | hfailed
        · refine hkeeps.mono fun v hv => ?_
          rw [DeviceIdentity.step, hsame]
          exact hv
        · exact (hcut (Or.inr hfailed) hp' hkeeps).mono fun v hv => Or.inl hv
      · cases Option.some.inj (hlast.symm.trans hp)
        exact hkeeps.mono fun v hv => Or.inl hv

theorem exact_start (wrap : Option Key) (legacy : Option Passphrase) :
    Exact (State.start wrap legacy) := by
  intro p hp
  have hkeeps := (sound_start wrap legacy).keeps p hp
  exact hkeeps.mono fun v hv => Or.inl (List.mem_singleton.1 hv)

theorem sound_run (wrap : Option Key) (legacy : Option Passphrase) (actions : List Action)
    (hmeets : Guarded step Meets (State.start wrap legacy) actions) :
    Sound (exec step (State.start wrap legacy) actions) :=
  exec_invariant (fun _ _ h ha => h.step ha) (sound_start wrap legacy) hmeets

theorem exact_run (wrap : Option Key) (legacy : Option Passphrase) (actions : List Action)
    (hmeets : Guarded step Meets (State.start wrap legacy) actions)
    (huncut : Guarded step Uncut (State.start wrap legacy) actions) :
    Exact (exec step (State.start wrap legacy) actions) := by
  have hrun := exec_invariant (I := fun s => Sound s ∧ Exact s)
    (fun _ _ h ha => ⟨h.1.step ha.1, h.2.step h.1 ha.1 ha.2⟩)
    ⟨sound_start wrap legacy, exact_start wrap legacy⟩ (hmeets.and huncut)
  exact hrun.2

/-- The program dies, starts again and loads the passphrase while the keystore works. -/
def reload : List Action := .crash :: .call .load :: List.replicate 6 (.go .works 0)

/-- It gets what can be loaded. -/
theorem reload_loadable {s : State} {v : Passphrase} (hv : s.store.loadable = some v) :
    (exec step s reload).pc = .idle (.loaded (some v)) := by
  obtain ⟨⟨ring, wrap, file⟩, pc, last, attempted⟩ := s
  cases ring with
  | some w =>
      cases hv
      rfl
  | none =>
      rw [loadable, Option.none_or] at hv
      obtain ⟨f, hfile, hopened⟩ := Option.bind_eq_some_iff.1 hv
      cases hfile
      cases f with
      | sealed key text =>
          rw [File.opened] at hopened
          split at hopened
          next hwrap =>
            cases hopened
            cases hwrap
            simp [reload, exec, step, begin, go]
          next => exact nomatch hopened
      | legacy text =>
          cases hopened
          simp [reload, exec, step, begin, go]
      | damaged => exact nomatch hopened

/-- **The last passphrase is the one that is loaded.** In every run whose stores reach the file only
when the keystore has no other passphrase and has taken the wrap key, and whose loads do not take an
unreadable entry of the keystore for a missing one: a load after a store that returned `Ok` returns
its passphrase or an error; after a crash at any point the last passphrase can be loaded, or one
whose store was begun since; and it is the last one if no store was cut short after it had taken
effect. -/
theorem last_passphrase_is_loaded (wrap : Option Key) (legacy : Option Passphrase)
    (actions : List Action) (hmeets : Guarded step Meets (State.start wrap legacy) actions) :
    let s := exec step (State.start wrap legacy) actions
    (∀ p v, s.last = some p → s.attempted = [] → s.pc = .idle (.loaded v) → v = some p) ∧
    (∀ p, s.last = some p →
      ∃ v ∈ p :: s.attempted, (exec step s reload).pc = .idle (.loaded (some v))) ∧
    (Guarded step Uncut (State.start wrap legacy) actions → ∀ p, s.last = some p →
      s.pc.storing = none → (exec step s reload).pc = .idle (.loaded (some p))) := by
  intro s
  have hsound : Sound s := sound_run wrap legacy actions hmeets
  refine ⟨hsound.loaded, fun p hp => ?_, fun huncut p hp hnone => ?_⟩
  · obtain ⟨v, hv, hloadable⟩ := (hsound.keeps p hp).loadable
    exact ⟨v, hv, reload_loadable hloadable⟩
  · have hexact : Exact s := exact_run wrap legacy actions hmeets huncut
    obtain ⟨v, rfl | hstoring, hloadable⟩ := (hexact p hp).loadable
    · exact reload_loadable hloadable
    · exact nomatch hnone.symm.trans hstoring

/-! ## Concrete runs -/

/-- A call of which each step has the outcome that is given. -/
def run (c : Call) (outcomes : List Outcome) : List Action :=
  .call c :: outcomes.map fun o => .go o 7

/-- A store that the keystore refuses and that goes to the file, and a load. -/
def storesInFile : List Action :=
  run (.store [2]) [.fails, .works, .works, .works, .works] ++
    run .load [.works, .works, .works, .works, .works, .works]

theorem last_passphrase_is_loaded_from_file :
    let s := exec step (State.start none none) storesInFile
    s.pc = .idle (.loaded (some [2])) ∧ s.last = some [2] ∧
      (exec step s reload).pc = .idle (.loaded (some [2])) := by
  intro s
  have hmeets : Guarded step Meets (State.start none none) storesInFile := by
    refine ⟨trivial, trivial, trivial, trivial, Or.inr ⟨rfl, rfl⟩, trivial, trivial, trivial,
      trivial, trivial, trivial, trivial, trivial, trivial⟩
  have huncut : Guarded step Uncut (State.start none none) storesInFile := by
    refine ⟨?_, ?_, ?_, ?_, ?_, ?_, ?_, ?_, ?_, ?_, ?_, ?_, ?_, trivial⟩
    all_goals exact fun hends => hends.elim nofun nofun
  have h := last_passphrase_is_loaded none none storesInFile hmeets
  exact ⟨rfl, rfl, h.2.2 huncut [2] rfl rfl⟩

/-- The keystore has `[1]`; the store of `[2]` goes to the file. -/
def storesBeside : List Action :=
  run (.store [1]) [.works, .works, .works] ++
    run (.store [2]) [.fails, .works, .works, .works, .works] ++ run .load [.works]

/-- The only copy is in the keystore when a load cannot read it. -/
def hidesEntry : List Action :=
  run (.store [1]) [.works, .works, .works] ++ run .load [.fails, .works]

/-- The keystore reports that it has the wrap key of the file and does not. -/
def losesWrapKey : List Action := run (.store [1]) [.fails, .works, .lies, .works, .works]

/-- A load returns an older passphrase than the last one stored, or none at all, and a stored
passphrase cannot be loaded any more. -/
theorem stored_passphrase_is_not_loaded :
    let s := exec step (State.start none none) storesBeside
    let t := exec step (State.start none none) hidesEntry
    let u := exec step (State.start none none) losesWrapKey
    (s.last = some [2] ∧ s.attempted = [] ∧ s.pc = .idle (.loaded (some [1]))) ∧
    (t.last = some [1] ∧ t.attempted = [] ∧ t.pc = .idle (.loaded none)) ∧
    (u.last = some [1] ∧ (exec step u reload).pc = .idle .loadFailed) :=
  ⟨⟨rfl, rfl, rfl⟩, ⟨rfl, rfl, rfl⟩, rfl, rfl⟩

end AsterBridge.Auth.DeviceIdentity
