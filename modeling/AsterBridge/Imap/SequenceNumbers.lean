import AsterBridge.Lib.Runs

/-!
# Sequence numbers of a selected mailbox

The list `uids` of a connection is the server's side of the message sequence
numbers: message `k` of the mailbox is the `k`-th UID. The client keeps the same
list from the untagged responses: `* k EXPUNGE` deletes its `k`-th entry and
`* n EXISTS` extends it to length `n`.

Three functions write EXPUNGE numbers, each computed its own way: a running
`seq - removed` inside `retain` (`reportMailboxChanges`), and a position lookup
after the earlier removals, for the targets of EXPUNGE (`expungeTargets`) and for
the messages of a MOVE (`moveExpunges`). `client_list_agrees` shows that the
client's list stays the server's for every mix of them.
-/

set_option autoImplicit false

namespace AsterBridge.Imap

open AsterBridge.Lib.Runs

/-- The untagged responses that change the numbering. -/
inductive Untagged where
  | expunge (seq : Nat)
  | exists (count : Nat)
  deriving DecidableEq, Repr

/-- The line written for a response. -/
def Untagged.line : Untagged → String
  | .expunge seq => s!"* {seq} EXPUNGE\r\n"
  | .exists count => s!"* {count} EXISTS\r\n"

/-- The part of a connection that numbers the selected mailbox. -/
structure ImapConnection where
  uids : List Nat
  deriving DecidableEq, Repr

namespace ImapConnection

/-- `ImapConnection::expunged`: drop a UID and return its sequence number. -/
def expunged (conn : ImapConnection) (uid : Nat) : ImapConnection × Option Nat :=
  match conn.uids.idxOf? uid with
  | none => (conn, none)
  | some index => (⟨conn.uids.eraseIdx index⟩, some (index + 1))

/-- The loop that drops UIDs one by one and writes an EXPUNGE for each one found. -/
def expungeEach (conn : ImapConnection) : List Nat → ImapConnection × List Untagged
  | [] => (conn, [])
  | uid :: rest =>
      match conn.expunged uid with
      | (conn', none) => conn'.expungeEach rest
      | (conn', some seq) =>
          let (last, out) := conn'.expungeEach rest
          (last, .expunge seq :: out)

/-- The `retain` of `report_mailbox_changes`: the UIDs kept and the responses,
with `seq` UIDs visited and `removed` of them dropped so far. -/
def retainPresent (present : List Nat) :
    (seq removed : Nat) → List Nat → List Nat × List Untagged
  | _, _, [] => ([], [])
  | seq, removed, uid :: rest =>
      if uid ∈ present then
        let (kept, out) := retainPresent present (seq + 1) removed rest
        (uid :: kept, out)
      else
        let (kept, out) := retainPresent present (seq + 1) (removed + 1) rest
        (kept, .expunge (seq + 1 - removed) :: out)

/-- `report_mailbox_changes`. -/
def reportMailboxChanges (conn : ImapConnection) (current : List Nat) (expunge : Bool) :
    ImapConnection × List Untagged :=
  let (kept, gone) := if expunge then retainPresent current 0 0 conn.uids else (conn.uids, [])
  let uids := kept ++ current.filter fun uid => uid ∉ kept
  (⟨uids⟩, gone ++ if uids.length = kept.length then [] else [.exists uids.length])

/-- `expunge_targets`, each target with the answer of `expunge_on_server` for it:
the targets that the server deleted are dropped in order. -/
def expungeTargets (conn : ImapConnection) (targets : List ((Nat × String) × Bool)) :
    ImapConnection × List Untagged :=
  conn.expungeEach ((targets.filter (·.2)).map (·.1.1))

/-- The end of the MOVE branch of `handle_copy_move`: the moved UIDs are dropped
in order. -/
def moveExpunges (conn : ImapConnection) (srcUids : List Nat) :
    ImapConnection × List Untagged :=
  conn.expungeEach srcUids

end ImapConnection

open ImapConnection

/-! ## The client's list -/

/-- A client's list: one entry per message, `none` for a message whose UID it
has not seen yet. -/
abbrev ClientList := List (Option Nat)

/-- How a client follows a response; `none` when the response does not fit its
list. -/
def ClientList.follow (client : ClientList) : Untagged → Option ClientList
  | .expunge seq =>
      if 1 ≤ seq ∧ seq ≤ client.length then some (client.eraseIdx (seq - 1)) else none
  | .exists count =>
      if client.length ≤ count then
        some (client ++ List.replicate (count - client.length) none)
      else none

/-- A client follows responses in order. -/
def ClientList.followAll (client : ClientList) : List Untagged → Option ClientList
  | [] => some client
  | r :: rs => (ClientList.follow client r).bind fun c => ClientList.followAll c rs

theorem followAll_append (client : ClientList) (xs ys : List Untagged) :
    ClientList.followAll client (xs ++ ys) =
      (ClientList.followAll client xs).bind fun c => ClientList.followAll c ys := by
  induction xs generalizing client with
  | nil => rfl
  | cons x xs ih =>
      simp only [List.cons_append, ClientList.followAll]
      cases ClientList.follow client x with
      | none => rfl
      | some c => exact ih c

/-- The client's list is the server's as far as the client knows it: the same
length, and every known entry is the UID at its position. -/
def Agree (client : ClientList) (uids : List Nat) : Prop :=
  List.Forall₂ (fun c u => ∀ v ∈ c, v = u) client uids

theorem agree_map_some (uids : List Nat) : Agree (uids.map some) uids := by
  induction uids with
  | nil => exact .nil
  | cons u us ih => exact .cons (fun v hv => (Option.some.inj hv).symm) ih

theorem agree_replicate_none (uids : List Nat) : Agree (List.replicate uids.length none) uids := by
  induction uids with
  | nil => exact .nil
  | cons u us ih => exact .cons (fun v hv => absurd hv (by simp)) ih

theorem Agree.append {c d : ClientList} {us vs : List Nat} (h : Agree c us) (h' : Agree d vs) :
    Agree (c ++ d) (us ++ vs) :=
  List.rel_append h h'

theorem Agree.eraseIdx {c : ClientList} {us : List Nat} (h : Agree c us) (i : Nat) :
    Agree (c.eraseIdx i) (us.eraseIdx i) := by
  induction h generalizing i with
  | nil => exact .nil
  | cons hd tl ih =>
      cases i with
      | zero => exact tl
      | succ i => exact .cons hd (ih i)

theorem Agree.getElem_of_learned {client : ClientList} {us : List Nat} (h : Agree client us)
    {i u : Nat}
    (hi : client[i]? = some (some u)) : us[i]? = some u := by
  induction h generalizing i with
  | nil => simp at hi
  | cons hd tl ih =>
      cases i with
      | zero =>
          simp only [List.getElem?_cons_zero, Option.some.injEq] at hi ⊢
          exact (hd u hi).symm
      | succ i => exact ih (by simpa using hi)

/-- Learning the UID of an entry keeps the lists in agreement. -/
theorem Agree.learn {c : ClientList} {us : List Nat} (h : Agree c us) (i : Nat) :
    Agree (c.set i us[i]?) us := by
  induction h generalizing i with
  | nil => exact .nil
  | cons hd tl ih =>
      cases i with
      | zero => exact .cons (fun v hv => (Option.some.inj hv).symm) tl
      | succ i => exact .cons hd (ih i)

/-! ## The three writers -/

/-- The responses of the loop that drops UIDs one by one can be followed. -/
theorem expungeEach_followed (conn : ImapConnection) (gone : List Nat) {client : ClientList}
    (h : Agree client conn.uids) :
    ∃ client', ClientList.followAll client (conn.expungeEach gone).2 = some client' ∧
      Agree client' (conn.expungeEach gone).1.uids := by
  induction gone generalizing conn client with
  | nil => exact ⟨client, rfl, h⟩
  | cons uid rest ih =>
      cases hidx : conn.uids.idxOf? uid with
      | none =>
          have he : conn.expunged uid = (conn, none) := by simp [expunged, hidx]
          simp only [expungeEach, he]
          exact ih conn h
      | some index =>
          have he : conn.expunged uid = (⟨conn.uids.eraseIdx index⟩, some (index + 1)) := by
            simp [expunged, hidx]
          have hlt : index < conn.uids.length :=
            (List.findIdx?_eq_some_iff_findIdx_eq.1 hidx).1
          have hlen : client.length = conn.uids.length := List.Forall₂.length_eq h
          have hfollow : ClientList.follow client (.expunge (index + 1)) =
              some (client.eraseIdx index) := by
            rw [ClientList.follow, if_pos ⟨by omega, by omega⟩, Nat.add_sub_cancel]
          obtain ⟨client', hc, ha⟩ := ih ⟨conn.uids.eraseIdx index⟩ (h.eraseIdx index)
          simp only [expungeEach, he, ClientList.followAll, hfollow, Option.bind_some]
          exact ⟨client', hc, ha⟩

/-- The responses of the `retain` loop can be followed: with the kept entries
`pre` in front, the running number `seq + 1 - removed` is the next entry's. -/
theorem retainPresent_followed (present : List Nat) (seq removed : Nat) (rest : List Nat)
    (pre : ClientList) {post : ClientList} (hle : removed ≤ seq) (hpre : pre.length = seq - removed)
    (h : Agree post rest) :
    ∃ post', ClientList.followAll (pre ++ post) (retainPresent present seq removed rest).2 =
        some (pre ++ post') ∧
      Agree post' (retainPresent present seq removed rest).1 := by
  induction rest generalizing seq removed pre post with
  | nil =>
      cases h
      exact ⟨[], rfl, .nil⟩
  | cons uid rest ih =>
      cases h with
      | @cons c _ post _ hd tl =>
          by_cases hp : uid ∈ present
          · -- kept: the entry moves to the front part
            have hlen : (pre ++ [c]).length = seq + 1 - removed := by
              rw [List.length_append, List.length_singleton]
              omega
            obtain ⟨post', hc, ha⟩ := ih (seq + 1) removed (pre ++ [c]) (by omega) hlen tl
            refine ⟨c :: post', ?_, ?_⟩
            · simpa [retainPresent, hp] using hc
            · rw [retainPresent, if_pos hp]
              exact List.Forall₂.cons hd ha
          · -- dropped: the response names the entry behind the front part
            have hlen : pre.length = seq + 1 - (removed + 1) := by omega
            obtain ⟨post', hc, ha⟩ := ih (seq + 1) (removed + 1) pre (by omega) hlen tl
            have hnum : seq + 1 - removed = pre.length + 1 := by omega
            have hfollow : ClientList.follow (pre ++ c :: post) (.expunge (seq + 1 - removed)) =
                some (pre ++ post) := by
              rw [hnum, ClientList.follow, if_pos (by simp), Nat.add_sub_cancel,
                List.eraseIdx_append_of_length_le le_rfl, Nat.sub_self, List.eraseIdx_cons_zero]
            refine ⟨post', ?_, ?_⟩
            · simp [retainPresent, hp, ClientList.followAll, hfollow, hc]
            · simpa [retainPresent, hp] using ha

theorem retainPresent_kept (present : List Nat) (seq removed : Nat) (rest : List Nat) :
    (retainPresent present seq removed rest).1 = rest.filter (· ∈ present) := by
  induction rest generalizing seq removed with
  | nil => rfl
  | cons uid rest ih =>
      by_cases hp : uid ∈ present <;> simp [retainPresent, hp, ih]

/-- The responses of `report_mailbox_changes` can be followed. -/
theorem reportMailboxChanges_followed (conn : ImapConnection) (current : List Nat)
    (expunge : Bool) {client : ClientList} (h : Agree client conn.uids) :
    ∃ client', ClientList.followAll client (conn.reportMailboxChanges current expunge).2 =
        some client' ∧
      Agree client' (conn.reportMailboxChanges current expunge).1.uids := by
  -- the client after the EXPUNGE part
  obtain ⟨kept, gone, hkept, c, hc, ha⟩ : ∃ kept gone,
      (if expunge then retainPresent current 0 0 conn.uids else (conn.uids, [])) =
        (kept, gone) ∧
      ∃ c, ClientList.followAll client gone = some c ∧ Agree c kept := by
    cases expunge with
    | false => exact ⟨conn.uids, [], rfl, client, rfl, h⟩
    | true =>
        obtain ⟨c, hc, ha⟩ :=
          retainPresent_followed current 0 0 conn.uids [] le_rfl rfl h
        exact ⟨_, _, rfl, c, hc, ha⟩
  simp only [reportMailboxChanges, hkept]
  generalize current.filter (fun uid => uid ∉ kept) = new
  have hlen : c.length = kept.length := List.Forall₂.length_eq ha
  cases new with
  | nil => exact ⟨c, by simp [hc], by simpa using ha⟩
  | cons u us =>
      have hne : (kept ++ u :: us).length ≠ kept.length := by simp
      refine ⟨c ++ List.replicate (u :: us).length none, ?_,
        ha.append (agree_replicate_none (u :: us))⟩
      have hext : (kept ++ u :: us).length - c.length = (u :: us).length := by
        rw [List.length_append]
        omega
      simp only [if_neg hne, followAll_append, hc, Option.bind_some, ClientList.followAll,
        ClientList.follow]
      rw [if_pos (by rw [List.length_append]; omega), hext]
      rfl

/-- After a report with EXPUNGE the connection holds exactly the UIDs reported. -/
theorem mem_reportMailboxChanges_true (conn : ImapConnection) (current : List Nat) (u : Nat) :
    u ∈ (conn.reportMailboxChanges current true).1.uids ↔ u ∈ current := by
  simp only [reportMailboxChanges, if_true, retainPresent_kept, List.mem_append,
    List.mem_filter, decide_eq_true_eq]
  tauto

/-! ## Runs of a selected connection -/

/-- What happens on a selected connection: a report of the UIDs that the database
returned, an EXPUNGE, a MOVE, or the client learning the UID of its `i`-th entry
from a FETCH response. -/
inductive MailboxEvent where
  | report (current : List Nat) (expunge : Bool)
  | expunge (targets : List ((Nat × String) × Bool))
  | move (srcUids : List Nat)
  | fetched (i : Nat)

/-- A connection and the client at its other end; the client is `none` once a
response did not fit its list. -/
structure Session where
  conn : ImapConnection
  client : Option ClientList

/-- The mailbox as SELECT left it, known to the client. -/
def Session.selected (uids : List Nat) : Session := ⟨⟨uids⟩, some (uids.map some)⟩

/-- The client follows the responses of a function of the connection. -/
def Session.respond (s : Session) (r : ImapConnection × List Untagged) : Session :=
  ⟨r.1, s.client.bind fun c => ClientList.followAll c r.2⟩

/-- One event. -/
def Session.step (s : Session) : MailboxEvent → Session
  | .report current expunge => s.respond (s.conn.reportMailboxChanges current expunge)
  | .expunge targets => s.respond (s.conn.expungeTargets targets)
  | .move srcUids => s.respond (s.conn.moveExpunges srcUids)
  | .fetched i => ⟨s.conn, s.client.map fun c => c.set i s.conn.uids[i]?⟩

/-- The invariant of a selected connection. -/
def Session.InStep (s : Session) : Prop :=
  ∃ client, s.client = some client ∧ Agree client s.conn.uids

theorem inStep_respond {s : Session} {client : ClientList} (hs : s.client = some client)
    {r : ImapConnection × List Untagged}
    (hr : ∃ client', ClientList.followAll client r.2 = some client' ∧ Agree client' r.1.uids) :
    (s.respond r).InStep := by
  obtain ⟨client', hc, ha⟩ := hr
  exact ⟨client', by simp [Session.respond, hs, hc], ha⟩

/-- **Step lemma.** Every event keeps client and server in step. -/
theorem inStep_step (s : Session) (e : MailboxEvent) (hs : s.InStep) : (s.step e).InStep := by
  obtain ⟨client, hc, ha⟩ := hs
  cases e with
  | report current expunge =>
      exact inStep_respond hc (reportMailboxChanges_followed s.conn current expunge ha)
  | expunge targets => exact inStep_respond hc (expungeEach_followed s.conn _ ha)
  | move srcUids => exact inStep_respond hc (expungeEach_followed s.conn srcUids ha)
  | fetched i => exact ⟨_, by simp [Session.step, hc], ha.learn i⟩

/-- **Sequence numbers agree.** After every run of a selected connection, from
every list of UIDs, the client could follow every response, its list has the
length of the connection's, and every entry it knows is the UID at the same
position. A report with EXPUNGE leaves exactly the reported UIDs. -/
theorem client_list_agrees (uids : List Nat) (events : List MailboxEvent) :
    (∃ client : ClientList,
      (exec Session.step (Session.selected uids) events).client = some client ∧
      client.length = (exec Session.step (Session.selected uids) events).conn.uids.length ∧
      ∀ (i u : Nat), client[i]? = some (some u) →
        (exec Session.step (Session.selected uids) events).conn.uids[i]? = some u) ∧
    ∀ current u,
      u ∈ ((exec Session.step (Session.selected uids) events).conn.reportMailboxChanges
        current true).1.uids ↔ u ∈ current := by
  have hstep : ∀ s e, Session.InStep s → True → (Session.step s e).InStep :=
    fun s e hs _ => inStep_step s e hs
  obtain ⟨client, hc, ha⟩ := exec_invariant hstep
    (show (Session.selected uids).InStep from ⟨_, rfl, agree_map_some uids⟩)
    (guarded_true Session.step (Session.selected uids) events)
  exact ⟨⟨client, hc, List.Forall₂.length_eq ha, fun i u hi => ha.getElem_of_learned hi⟩,
    mem_reportMailboxChanges_true _⟩

end AsterBridge.Imap
