import AsterBridge.Imap.ImportRuns

/-!
# Imports one after the other

A client appends message after message, and the bridge may stop in any of the imports and be
started again. What an import leaves is fresh for the next one (`Undisturbed.fresh`), so what is
known of one import (`ImportEnd`) carries over to the run (`RunEnd`): no mail is lost, and what was
reported as stored is there to the end of the run, each message under an id of its own.
-/

set_option autoImplicit false

namespace AsterBridge.Imap

open AsterBridge.Lib AsterBridge.Lib.Faults AsterBridge.Lib.Faults.Prog AsterBridge.Db
  AsterBridge.Db.Cache AsterBridge.Sync AsterBridge.Sync.Attachments AsterBridge.Render

/-! ## Worlds that follow each other -/

section Worlds

variable {s : MailServer} {x : ImportCrates} {w w' w'' : World}

theorem not_issued {n : Nat} (hn : w'.issued ≤ n) : ¬Issued s w w' (s.newId n) := by
  rintro ⟨k, _, hlt, hid⟩
  have heq : n = k := s.newId_injective hid
  omega

/-- Ids that were issued one after the other are different. -/
theorem Issued.ne {id id' : String} (h : Issued s w w' id) (h' : Issued s w' w'' id') :
    id ≠ id' := by
  obtain ⟨k, _, hlt, rfl⟩ := h
  obtain ⟨k', hk', _, rfl⟩ := h'
  intro heq
  have hsame : k = k' := s.newId_injective heq
  omega

theorem Issued.earlier {id : String} (h : Later w w') (h' : Issued s w' w'' id) :
    Issued s w w'' id := by
  obtain ⟨k, hk, hlt, hid⟩ := h'
  exact ⟨k, h.issued.trans hk, hlt, hid⟩

/-- What was not issued in the whole time was not issued in its second part. -/
theorem not_issued_after {id : String} (h : Later w w') (hid : ¬Issued s w w'' id) :
    ¬Issued s w' w'' id := by
  intro hissued
  exact hid (hissued.earlier h)

theorem Sealed.earlier {email : ImportedEmail} (h : Later w w') (h' : Sealed x w' w'' email) :
    Sealed x w w'' email := by
  obtain ⟨n, text, sealed, hn, hlt, hseal⟩ := h'
  exact ⟨n, text, sealed, h.draws.trans hn, hlt, hseal⟩

theorem Undisturbed.trans (h : Undisturbed s x w w') (h' : Undisturbed s x w' w'') :
    Undisturbed s x w w'' where
  later := h.later.trans h'.later
  items := by
    obtain ⟨new, hitems, hnew⟩ := h.items
    obtain ⟨new', hitems', hnew'⟩ := h'.items
    refine ⟨new' ++ new, by rw [hitems', hitems, List.append_assoc], ?_⟩
    intro item hmem
    rcases List.mem_append.1 hmem with hmem | hmem
    · exact ⟨(hnew' item hmem).1.earlier h.later, (hnew' item hmem).2.earlier h.later⟩
    · exact ⟨(hnew item hmem).1.later h'.later, (hnew item hmem).2.later h'.later⟩
  drafts := by
    obtain ⟨new, hdrafts, hnew⟩ := h.drafts
    obtain ⟨new', hdrafts', hnew'⟩ := h'.drafts
    refine ⟨new' ++ new, by rw [hdrafts', hdrafts, List.append_assoc], ?_⟩
    intro draft hmem
    rcases List.mem_append.1 hmem with hmem | hmem
    · exact (hnew' draft hmem).earlier h.later
    · exact (hnew draft hmem).later h'.later
  row id hid := (h'.row id (not_issued_after h.later hid)).trans
    (h.row id (not_issued_before h'.later hid))
  uid id folder hid := (h'.uid id folder (not_issued_after h.later hid)).trans
    (h.uid id folder (not_issued_before h'.later hid))
  parts id hid := (h'.parts id (not_issued_after h.later hid)).trans
    (h.parts id (not_issued_before h'.later hid))
  keywords id hid := (h'.keywords id (not_issued_after h.later hid)).trans
    (h.keywords id (not_issued_before h'.later hid))
  pins id hid := (h'.pins id (not_issued_after h.later hid)).trans
    (h.pins id (not_issued_before h'.later hid))
  pushes := h'.pushes.trans h.pushes

/-- **What an import leaves is fresh again** for the next one. -/
theorem Undisturbed.fresh (h : Undisturbed s x w w') (hfresh : Fresh s x w) : Fresh s x w' where
  item item hmem n hn := by
    obtain ⟨new, hitems, hnew⟩ := h.items
    rw [hitems] at hmem
    rcases List.mem_append.1 hmem with hmem | hmem
    · intro heq
      exact not_issued hn (heq ▸ (hnew item hmem).1)
    · exact hfresh.item item hmem n (h.later.issued.trans hn)
  draft draft hmem n hn := by
    obtain ⟨new, hdrafts, hnew⟩ := h.drafts
    rw [hdrafts] at hmem
    rcases List.mem_append.1 hmem with hmem | hmem
    · intro heq
      exact not_issued hn (heq ▸ hnew draft hmem)
    · exact hfresh.draft draft hmem n (h.later.issued.trans hn)
  row n hn := by
    rw [h.row _ (not_issued hn)]
    exact hfresh.row n (h.later.issued.trans hn)
  uid n folder hn := by
    rw [h.uid _ folder (not_issued hn)]
    exact hfresh.uid n folder (h.later.issued.trans hn)
  pending n hn := by
    rw [h.pushes]
    exact hfresh.pending n (h.later.issued.trans hn)
  envelope item hmem n text sealed hn hseal := by
    obtain ⟨new, hitems, hnew⟩ := h.items
    rw [hitems] at hmem
    rcases List.mem_append.1 hmem with hmem | hmem
    · -- the envelope of a new item was sealed with an earlier nonce
      obtain ⟨m, text', sealed', _, hlt, hseal', henvelope⟩ := (hnew item hmem).2
      intro heq
      have hsame : m = n :=
        x.sealEnvelope_fresh m n text' text sealed' sealed hseal' hseal (henvelope ▸ heq)
      omega
    · exact hfresh.envelope item hmem n text sealed (h.later.draws.trans hn) hseal

end Worlds

/-! ## Runs of imports -/

/-- The bridge starts again: the import job and the pins were in its memory. -/
def World.restart (w : World) : World :=
  { w with slot := none, store := { w.store with pins := Table.empty } }

/-- What was there stays as a bridge finds it that starts again. -/
def Remains (s : MailServer) (x : ImportCrates) (w w' : World) : Prop :=
  Undisturbed s x w.restart w'.restart

/-- The world in which the next import starts. -/
def afterImport (o : Outcome World (Except ImportError AppendOutcome)) : World :=
  match o.exit with
  | .died => o.state.restart
  | _ => o.state

/-- Imports one after the other, each with what the world does to it; a bridge that stopped is
started again. -/
def runImports (s : MailServer) (x : ImportCrates) : List (ImportRequest × List Turn) → World →
    List (Exit (Except ImportError AppendOutcome)) × World
  | [], w => ([], w)
  | (r, turns) :: rest, w =>
      let o := importMessage s x r w turns
      let later := runImports s x rest (afterImport o)
      (o.exit :: later.1, later.2)

/-- The id of a message that was stored. -/
def storedId : Exit (Except ImportError AppendOutcome) → Option String
  | .done (.ok (.stored _ asterId)) => some asterId
  | _ => none

/-- The import said that it is over, with no item that may be left. -/
def EndsClean : Exit (Except ImportError AppendOutcome) → Prop
  | .done (.ok _) => True
  | .done (.error e) => ¬e.LeavesItem
  | .failed _ => False
  | .died => False

/-- The message of the import is on the server, complete, and cached. -/
def IsStored (x : ImportCrates) (w : World) (r : ImportRequest) (w' : World) :
    Exit (Except ImportError AppendOutcome) → Prop
  | .done (.ok (.stored uid asterId)) => ∃ now n message email item,
      prepared x r now n = .ok (message, email) ∧ item ∈ w'.items ∧ item.id = asterId ∧
        item.email = email ∧ Uploaded x n 0 message.attachments item.attachments ∧
          CachedThere x w r message email asterId uid w'
  | _ => True

section Runs

variable {s : MailServer} {x : ImportCrates} {w w' w'' : World} {r : ImportRequest}

theorem restart_afterImport (o : Outcome World (Except ImportError AppendOutcome)) :
    (afterImport o).restart = o.state.restart := by
  unfold afterImport
  split
  · rfl
  · rfl

theorem items_of_restart (h : w'.restart = w.restart) : w'.items = w.items := by
  have heq : w'.restart.items = w.restart.items := congrArg World.items h
  exact heq

theorem drafts_of_restart (h : w'.restart = w.restart) : w'.drafts = w.drafts := by
  have heq : w'.restart.drafts = w.restart.drafts := congrArg World.drafts h
  exact heq

theorem later_of_restart (h : w'.restart = w.restart) : Later w w' := by
  have hlater : Later w.restart w'.restart := h ▸ Later.refl w.restart
  exact ⟨hlater.issued, hlater.draws, hlater.lost, hlater.faults⟩

theorem Undisturbed.remains (h : Undisturbed s x w w') : Remains s x w w' :=
  ⟨⟨h.later.issued, h.later.draws, h.later.lost, h.later.faults⟩, h.items, h.drafts, h.row, h.uid,
    h.parts, h.keywords, fun _ _ => rfl, h.pushes⟩

theorem Remains.later (h : Remains s x w w') : Later w w' := by
  obtain ⟨hissued, hdraws, hlost, hfaults⟩ := Undisturbed.later h
  exact ⟨hissued, hdraws, hlost, hfaults⟩

theorem Remains.trans (h : Remains s x w w') (h' : Remains s x w' w'') : Remains s x w w'' :=
  Undisturbed.trans h h'

/-- Nothing that has to be fresh was in the memory of the bridge. -/
theorem fresh_restart : Fresh s x w.restart ↔ Fresh s x w := by
  constructor
  · intro h
    exact ⟨h.item, h.draft, h.row, h.uid, h.pending, h.envelope⟩
  · intro h
    exact ⟨h.item, h.draft, h.row, h.uid, h.pending, h.envelope⟩

/-- Later imports leave a cached message alone. -/
theorem CachedThere.later {message : ImportedMessage} {email : ImportedEmail} {id : String}
    {uid : Nat} (h : CachedThere x w r message email id uid w') (hle : Later w w')
    (hid : Issued s w w' id) (h' : Remains s x w' w'') :
    CachedThere x w r message email id uid w'' := by
  have hnot : ¬Issued s w' w'' id := fun hissued => hid.ne hissued rfl
  have huid : w''.store.db.cache.uidMap.get? (id, r.folder) =
      w'.store.db.cache.uidMap.get? (id, r.folder) := Undisturbed.uid h' id r.folder hnot
  have hparts : w''.store.parts.get? id = w'.store.parts.get? id := Undisturbed.parts h' id hnot
  have hrow : w''.store.db.cache.messageCache.get? id =
      w'.store.db.cache.messageCache.get? id := Undisturbed.row h' id hnot
  constructor
  · rw [huid]
    exact h.uid
  · intro hne
    rw [hparts]
    exact h.attachments hne
  · intro hfaults hvalid hopened
    have hsame : w'.faults = w.faults :=
      le_antisymm (hfaults ▸ h'.later.faults) hle.faults
    rw [view, hrow]
    exact h.row hsame hvalid hopened

/-- Faults before an import only weaken what is said of its row. -/
theorem CachedThere.earlier {message : ImportedMessage} {email : ImportedEmail} {id : String}
    {uid : Nat} (h : CachedThere x w' r message email id uid w'') (hle : Later w w')
    (hle' : Later w' w'') : CachedThere x w r message email id uid w'' := by
  refine ⟨h.uid, h.attachments, ?_⟩
  intro hfaults
  apply h.row
  exact le_antisymm (hfaults ▸ hle.faults) hle'.faults

theorem IsStored.earlier {exit : Exit (Except ImportError AppendOutcome)}
    (h : IsStored x w' r w'' exit) (hle : Later w w') (hle' : Later w' w'') :
    IsStored x w r w'' exit := by
  unfold IsStored at h ⊢
  split at h
  · obtain ⟨now, n, message, email, item, hprepared, hmem, hid, hemail, huploaded, hcached⟩ := h
    exact ⟨now, n, message, email, item, hprepared, hmem, hid, hemail, huploaded,
      hcached.earlier hle hle'⟩
  · trivial

/-- The id of a stored message is new. -/
theorem ImportEnd.issued {exit : Exit (Except ImportError AppendOutcome)} {id : String}
    (h : ImportEnd s x r w exit w') (hid : storedId exit = some id) : Issued s w w' id := by
  have hresult := h.result
  unfold storedId at hid
  split at hid
  · obtain rfl := Option.some.inj hid
    obtain ⟨_, _, _, _, item, _, _, hitems, hsame, _⟩ := hresult
    obtain ⟨new, hnew, hissued⟩ := h.undisturbed.items
    have heq : new = [item] := by
      apply List.append_cancel_right
      rw [← hnew, hitems]
      rfl
    rw [← hsame]
    exact (hissued item (heq ▸ List.mem_singleton_self item)).1
  · exact absurd hid (by simp)

/-- A stored message is still stored after later imports. -/
theorem ImportEnd.isStored {exit : Exit (Except ImportError AppendOutcome)}
    (h : ImportEnd s x r w exit w') (h' : Remains s x w' w'') : IsStored x w r w'' exit := by
  have hissued : ∀ id, storedId exit = some id → Issued s w w' id := fun id => h.issued
  have hresult := h.result
  unfold IsStored
  split
  · obtain ⟨now, n, message, email, item, _, hprepared, hitems, hid, hemail, huploaded, hcached⟩ :=
      hresult
    obtain ⟨new, hnew, _⟩ := Undisturbed.items h'
    have hmem : item ∈ w''.items := by
      rw [show w''.items = new ++ w'.items from hnew, hitems]
      exact List.mem_append_right _ List.mem_cons_self
    exact ⟨now, n, message, email, item, hprepared, hmem, hid, hemail, huploaded,
      hcached.later h.undisturbed.later (hissued _ rfl) h'⟩
  · trivial

/-- An import that ended clean, with every answer, adds what it says that it stored. -/
theorem ImportEnd.length_items {exit : Exit (Except ImportError AppendOutcome)}
    (h : ImportEnd s x r w exit w') (hlost : w'.lost = w.lost) (hclean : EndsClean exit) :
    w'.items.length = (storedId exit).toList.length + w.items.length := by
  have hresult := h.result
  cases exit with
  | failed e => exact hclean.elim
  | died => exact hclean.elim
  | done result =>
      cases result with
      | error e =>
          rw [(hresult hclean).2 hlost]
          exact (Nat.zero_add _).symm
      | ok outcome =>
          cases outcome with
          | duplicate uid asterId =>
              rw [hresult.2 hlost]
              exact (Nat.zero_add _).symm
          | stored uid asterId =>
              obtain ⟨_, _, _, _, item, _, _, hitems, _⟩ := hresult
              rw [hitems, List.length_cons, Nat.add_comm]
              rfl

/-- The end of a run: what was there stays, what was stored is there once, and nothing else is
new where every answer came and every import ended clean. -/
structure RunEnd (s : MailServer) (x : ImportCrates) (w : World)
    (jobs : List (ImportRequest × List Turn))
    (exits : List (Exit (Except ImportError AppendOutcome))) (w' : World) : Prop where
  remains : Remains s x w w'
  drafts : w'.drafts = w.drafts
  atMost : w'.items.length ≤ jobs.length + w.items.length
  stored : List.Forall₂ (fun job exit => IsStored x w job.1 w' exit) jobs exits
  issued : ∀ id ∈ exits.filterMap storedId, Issued s w w' id
  once : (exits.filterMap storedId).Nodup
  exactly : w'.lost = w.lost → (∀ exit ∈ exits, EndsClean exit) →
    w'.items.length = (exits.filterMap storedId).length + w.items.length

theorem runEnd_nil (s : MailServer) (x : ImportCrates) (w : World) : RunEnd s x w [] [] w where
  remains := (Stays.refl w).undisturbed.remains
  drafts := rfl
  atMost := (Nat.zero_add _).ge
  stored := List.Forall₂.nil
  issued _ h := absurd h List.not_mem_nil
  once := List.nodup_nil
  exactly _ _ := (Nat.zero_add _).symm

/-- One import more, before a run. -/
theorem RunEnd.cons {exit : Exit (Except ImportError AppendOutcome)} {turns : List Turn}
    {jobs : List (ImportRequest × List Turn)}
    {exits : List (Exit (Except ImportError AppendOutcome))} {w₁ : World}
    (hend : ImportEnd s x r w exit w') (hnext : w₁.restart = w'.restart)
    (h : RunEnd s x w₁ jobs exits w'') :
    RunEnd s x w ((r, turns) :: jobs) (exit :: exits) w'' := by
  have hrestart : Later w' w₁ := later_of_restart hnext
  have hitems : w₁.items = w'.items := items_of_restart hnext
  have hlater : Later w w₁ := hend.undisturbed.later.trans hrestart
  have hrest : Remains s x w' w'' := by
    unfold Remains
    rw [← hnext]
    exact h.remains
  have hdrafts : w''.drafts = w.drafts :=
    (h.drafts.trans (drafts_of_restart hnext)).trans hend.drafts
  refine ⟨hend.undisturbed.remains.trans hrest, hdrafts, ?_, ?_, ?_, ?_, ?_⟩
  · -- each import adds one item at most
    have hfirst := hend.one
    have hothers := h.atMost
    rw [hitems] at hothers
    rw [List.length_cons]
    omega
  · refine List.Forall₂.cons (hend.isStored hrest) (h.stored.imp ?_)
    intro job e he
    exact he.earlier hlater h.remains.later
  · -- every reported id was given out in the run
    intro id hmem
    rw [List.filterMap_cons] at hmem
    cases hid : storedId exit with
    | none =>
        rw [hid] at hmem
        exact (h.issued id hmem).earlier hlater
    | some first =>
        rw [hid] at hmem
        rcases List.mem_cons.1 hmem with rfl | hmem
        · exact (hend.issued hid).later hrest.later
        · exact (h.issued id hmem).earlier hlater
  · rw [List.filterMap_cons]
    cases hid : storedId exit with
    | none => exact h.once
    | some first =>
        -- the later ids were issued after the first one
        refine List.nodup_cons.2 ⟨?_, h.once⟩
        intro hmem
        exact (hend.issued hid).ne ((h.issued first hmem).earlier hrestart) rfl
  · -- an answer that was lost in one import is counted to the end
    intro hlost hclean
    have hlost₁ : w'.lost = w.lost :=
      le_antisymm (hlost ▸ hrest.later.lost) hend.undisturbed.later.lost
    have hlost₂ : w''.lost = w₁.lost := by
      apply le_antisymm _ h.remains.later.lost
      rw [hlost]
      exact hlater.lost
    have hfirst := hend.length_items hlost₁ (hclean exit List.mem_cons_self)
    have hothers := h.exactly hlost₂ fun e he => hclean e (List.mem_cons_of_mem _ he)
    rw [hitems] at hothers
    rw [hothers, hfirst, List.filterMap_cons]
    cases storedId exit with
    | none => simp
    | some first =>
        simp only [Option.toList_some, List.length_cons, List.length_nil]
        omega

end Runs

/-- The bridge stops before the second attachment of a message is uploaded; the client appends the
message again. -/
def appendTwice : List (ImportRequest × List Turn) :=
  [(appendToInbox, List.replicate 8 .calm ++ [⟨true, none, 0, false⟩]), (appendToInbox, [])]

end AsterBridge.Imap
