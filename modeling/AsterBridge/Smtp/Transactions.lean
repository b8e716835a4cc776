import AsterBridge.Lib.Runs
import AsterBridge.Lib.Transcript
import AsterBridge.Smtp.Session

/-!
# SMTP transactions

What the server sends belongs to one transaction: the sender of the last MAIL, the
recipients accepted since, and the lines read since the last 354. The transcript says what
these are without the variables of the session, and `Good` ties the two together. Every
read keeps `Good`, whatever the state it meets.
-/

set_option autoImplicit false

namespace AsterBridge.Smtp

open AsterBridge.Lib AsterBridge.Lib.Runs AsterBridge.Lib.Transcript

/-! ## What the transcript says -/

/-- The connection has signed in, and has not started a new session since. -/
def SignedIn (t : List Event) : Prop :=
  ∃ id mid, Since (fun e => e ≠ .upgraded) (.signedIn id) t mid

/-- Events that neither open, close nor continue a transaction. -/
def Event.Between : Event → Prop
  | .senderAccepted _ => False
  | .startMailInput => False
  | .sendViaApi _ _ _ => False
  | .upgraded => False
  | _ => True

/-- The recipients accepted in a transcript, in order. -/
def recipients (t : List Event) : List String :=
  t.filterMap fun e => match e with
    | .recipientAccepted address => some address
    | _ => none

/-- `sender` is the last sender accepted, and `rcptTo` are the recipients accepted since;
no mail input and no send lies between. -/
def Envelope (t : List Event) (sender : String) (rcptTo : List String) : Prop :=
  ∃ mid, Since Event.Between (.senderAccepted sender) t mid ∧ recipients mid = rcptTo

/-- The transcript ends with the 354 to such an envelope and the lines read since. -/
def Reading (t : List Event) (sender : String) (rcptTo : List String) (lines : List Bytes) :
    Prop :=
  ∃ before, Envelope before sender rcptTo ∧
    t = before ++ .startMailInput :: lines.map Event.received

/-- The message that lines of DATA make. -/
def messageOf (lines : List Bytes) : Bytes := lines.flatMap dataLine

/-- The message as sent: the lines, after a Message-ID of the sender's domain if the header
parser finds none in them. -/
def Outgoing (x : Crates) (sender : String) (lines : List Bytes) (message : Bytes) : Prop :=
  message = messageOf lines ∨
    x.hasMessageId (messageOf lines) = some false ∧
      ∃ uuid domain, messageIdDomain (some sender) = some domain ∧
        message = messageIdHeader uuid domain ++ messageOf lines

/-- A call of `send_via_api` after the transcript `before` carries one transaction. -/
structure Lawful (x : Crates) (before : List Event) (mailFrom : Option String)
    (rcptTo : List String) (message : Bytes) : Prop where
  signedIn : SignedIn before
  count : 1 ≤ rcptTo.length ∧ rcptTo.length ≤ 100
  transaction : ∃ sender lines dot, mailFrom = some sender ∧
    Reading before sender rcptTo (lines ++ [dot]) ∧ stripLineEnd dot = [46] ∧
      Outgoing x sender lines message

/-- The condition on the events of a transcript. -/
def LawfulAfter (x : Crates) (before : List Event) : Event → Prop
  | .sendViaApi mailFrom rcptTo message => Lawful x before mailFrom rcptTo message
  | _ => True

/-! ## Plain events -/

/-- Lines, replies and the effects that follow a send. -/
def Event.Plain : Event → Prop
  | .received _ => True
  | .replied _ => True
  | .outboxInsert _ _ _ _ => True
  | .noteOutgoingMessage _ => True
  | _ => False

theorem Event.Plain.between {e : Event} (h : e.Plain) : e.Between := by
  cases e <;> trivial

theorem Event.Plain.ne_upgraded {e : Event} (h : e.Plain) : e ≠ .upgraded := by
  rintro rfl
  exact h

theorem Event.Plain.lawfulAfter {e : Event} (h : e.Plain) (x : Crates) (before : List Event) :
    LawfulAfter x before e := by
  cases e <;> trivial

/-- No recipient is accepted by plain events. -/
theorem recipients_of_plain {es : List Event} (h : ∀ e ∈ es, e.Plain) : recipients es = [] := by
  rw [recipients, List.filterMap_eq_nil_iff]
  intro e he
  have hplain := h e he
  cases e <;> first | rfl | exact hplain.elim

@[simp] theorem plain_replied {text : String} : ∀ e ∈ [Event.replied text], e.Plain := by
  intro e he
  obtain rfl := List.mem_singleton.1 he
  trivial

@[simp] theorem plain_received {line : Bytes} : ∀ e ∈ [Event.received line], e.Plain := by
  intro e he
  obtain rfl := List.mem_singleton.1 he
  trivial

theorem afterSend_plain (a : Answers) (smtp : SmtpSession) (raw outgoing : Bytes) :
    ∀ e ∈ Conn.afterSend a smtp raw outgoing, e.Plain := by
  intro e he
  unfold Conn.afterSend at he
  repeat' split at he
  all_goals
    simp only [List.cons_append, List.nil_append, List.mem_cons, List.not_mem_nil,
      or_false] at he
    rcases he with rfl | rfl | rfl | rfl <;> trivial

/-! ## How the readings of a transcript grow -/

variable {x : Crates} {t es : List Event} {c c' : Conn} {sender : String} {rcptTo : List String}

theorem SignedIn.append (h : SignedIn t) (hes : ∀ e ∈ es, e ≠ .upgraded) :
    SignedIn (t ++ es) := by
  obtain ⟨id, mid, hsince⟩ := h
  exact ⟨id, mid ++ es, hsince.append hes⟩

theorem signedIn_concat (t : List Event) (id : String) : SignedIn (t ++ [.signedIn id]) :=
  ⟨id, [], since_concat _ t _⟩

theorem envelope_concat (t : List Event) (sender : String) :
    Envelope (t ++ [.senderAccepted sender]) sender [] :=
  ⟨[], since_concat _ t _, rfl⟩

theorem Envelope.append (h : Envelope t sender rcptTo) (hes : ∀ e ∈ es, e.Between) :
    Envelope (t ++ es) sender (rcptTo ++ recipients es) := by
  obtain ⟨mid, hsince, rfl⟩ := h
  exact ⟨mid ++ es, hsince.append hes, List.filterMap_append⟩

theorem Envelope.plain (h : Envelope t sender rcptTo) (hes : ∀ e ∈ es, e.Plain) :
    Envelope (t ++ es) sender rcptTo := by
  have happend := h.append fun e he => (hes e he).between
  rwa [recipients_of_plain hes, List.append_nil] at happend

theorem Reading.received {lines : List Bytes} (h : Reading t sender rcptTo lines) (line : Bytes) :
    Reading (t ++ [.received line]) sender rcptTo (lines ++ [line]) := by
  obtain ⟨before, henvelope, rfl⟩ := h
  exact ⟨before, henvelope, by simp⟩

theorem messageOf_concat (lines : List Bytes) (line : Bytes) :
    messageOf (lines ++ [line]) = messageOf lines ++ dataLine line := by
  simp [messageOf]

/-! ## The invariant -/

/-- The states that belong to a transaction. -/
def InTransaction (s : SmtpState) : Prop := s = .mailFrom ∨ s = .rcptTo ∨ s = .data

/-- The phases of an AUTH exchange. -/
def Phase.IsAuth : Phase → Prop
  | .authPlain => True
  | .authLoginName => True
  | .authLoginPassword _ => True
  | _ => False

theorem Phase.not_isAuth {p : Phase} (h : p = .command) : ¬ p.IsAuth := by
  rw [h]
  exact id

/-- The variables of the session hold what the transcript says of its transaction. -/
structure Good (x : Crates) (c : Conn) (t : List Event) : Prop where
  sends : Each (LawfulAfter x) t
  signedIn : c.smtp.authenticated = true → SignedIn t
  safe : InTransaction c.smtp.state →
    c.smtp.authenticated = true ∧ c.smtp.mailFrom.isSome = true
  greeted : c.phase.IsAuth → c.smtp.state = .greeted
  envelope : c.phase = .command → c.smtp.state = .mailFrom ∨ c.smtp.state = .rcptTo →
    ∃ sender, c.smtp.mailFrom = some sender ∧ Envelope t sender c.smtp.rcptTo ∧
      c.smtp.rcptTo.length ≤ 100 ∧ (c.smtp.state = .rcptTo → 1 ≤ c.smtp.rcptTo.length)
  reading : c.phase = .command → c.smtp.state = .data →
    ∃ sender lines, c.smtp.mailFrom = some sender ∧ Reading t sender c.smtp.rcptTo lines ∧
      c.smtp.dataBuffer = messageOf lines ∧ 1 ≤ c.smtp.rcptTo.length ∧
        c.smtp.rcptTo.length ≤ 100

/-- Outside a transaction the session holds nothing that the transcript must account for. -/
theorem good_idle (hsends : Each (LawfulAfter x) t)
    (hauth : c.smtp.authenticated = true → SignedIn t) (hstate : ¬ InTransaction c.smtp.state)
    (hphase : c.phase.IsAuth → c.smtp.state = .greeted) : Good x c t where
  sends := hsends
  signedIn := hauth
  safe h := absurd h hstate
  greeted := hphase
  envelope _ h := absurd (h.imp_right Or.inl) hstate
  reading _ h := absurd (Or.inr (Or.inr h)) hstate

theorem good_start (x : Crates) (starttlsCapable : Bool) :
    Good x (.start starttlsCapable) [] :=
  good_idle (each_nil _) (fun h => absurd h Bool.false_ne_true)
    (by simp [InTransaction, Conn.start, SmtpSession.start]) (fun h => h.elim)

/-- The session leaves its transaction, with events that send nothing. -/
theorem Good.idle (h : Good x c t) (hes : ∀ e ∈ es, e.Plain)
    (hauth : c'.smtp.authenticated = true → c.smtp.authenticated = true)
    (hstate : ¬ InTransaction c'.smtp.state)
    (hphase : c'.phase.IsAuth → c'.smtp.state = .greeted) : Good x c' (t ++ es) := by
  refine good_idle (h.sends.append fun e he => (hes e he).lawfulAfter x) ?_ hstate hphase
  intro ha
  exact (h.signedIn (hauth ha)).append fun e he => (hes e he).ne_upgraded

/-- Nothing but plain events, and no mail input is being read. -/
theorem Good.plain (h : Good x c t) (hes : ∀ e ∈ es, e.Plain)
    (hdata : c.phase = .command → c.smtp.state ≠ .data) : Good x c (t ++ es) where
  sends := h.sends.append fun e he => (hes e he).lawfulAfter x
  signedIn ha := (h.signedIn ha).append fun e he => (hes e he).ne_upgraded
  safe := h.safe
  greeted := h.greeted
  envelope hphase hstate := by
    obtain ⟨sender, hfrom, henvelope, hcount⟩ := h.envelope hphase hstate
    exact ⟨sender, hfrom, henvelope.plain hes, hcount⟩
  reading hphase hstate := absurd hstate (hdata hphase)

/-- The main loop is left: only sign-in and sender still matter. -/
theorem Good.leave (h : Good x c t) (hes : ∀ e ∈ es, e.Plain)
    (hstate : c'.smtp.state = c.smtp.state)
    (hauth : c'.smtp.authenticated = c.smtp.authenticated)
    (hfrom : c'.smtp.mailFrom = c.smtp.mailFrom)
    (hphase : c'.phase = .draining ∨ c'.phase = .closed) : Good x c' (t ++ es) where
  sends := h.sends.append fun e he => (hes e he).lawfulAfter x
  signedIn ha :=
    (h.signedIn (hauth ▸ ha)).append fun e he => (hes e he).ne_upgraded
  safe := by
    rw [hstate, hauth, hfrom]
    exact h.safe
  greeted := by
    intro ha
    rcases hphase with hp | hp <;> rw [hp] at ha <;> exact ha.elim
  envelope := by
    intro hp
    rcases hphase with hp' | hp' <;> exact absurd (hp.symm.trans hp') (by simp)
  reading := by
    intro hp
    rcases hphase with hp' | hp' <;> exact absurd (hp.symm.trans hp') (by simp)

theorem Good.close (h : Good x c t) (hes : ∀ e ∈ es, e.Plain) : Good x c.close (t ++ es) :=
  h.leave hes rfl rfl rfl (Or.inr rfl)

/-! ## AUTH -/

/-- AUTH starts in the state `Greeted`, and ends there or signed in. -/
theorem Good.finishAuth (h : Good x c t) (hgreeted : c.smtp.state = .greeted) (a : Answers)
    (credentials : Option (Option String × String)) :
    Good x (c.finishAuth a credentials).1 (t ++ (c.finishAuth a credentials).2) := by
  have hstate : ¬ InTransaction c.smtp.state := by
    rw [hgreeted]
    simp [InTransaction]
  unfold Conn.finishAuth
  dsimp only
  split
  · -- signed in: the event is the last one
    rename_i id _
    refine good_idle (each_concat.2 ⟨h.sends, trivial⟩) (fun _ => signedIn_concat t id) ?_ ?_
    · simp [InTransaction]
    · exact fun hp => hp.elim
  · split
    · refine h.idle ?_ id hstate (fun hp => hp.elim)
      intro e he
      rcases List.mem_cons.1 he with rfl | he
      · trivial
      · exact plain_replied e he
    · exact h.idle plain_replied id hstate (fun hp => hp.elim)

theorem Good.auth (h : Good x c t) (hdata : c.smtp.state ≠ .data) (a : Answers)
    (args : List Char) :
    Good x (c.auth x a args).1 (t ++ (c.auth x a args).2) := by
  have hplain : ∀ text, Good x c (t ++ [.replied text]) := fun text =>
    h.plain plain_replied fun _ => hdata
  unfold Conn.auth
  split
  · exact hplain _
  · rename_i hgreeted
    have hgreeted := not_not.1 hgreeted
    have hstate : ¬ InTransaction c.smtp.state := by
      rw [hgreeted]
      simp [InTransaction]
    dsimp only
    split_ifs
    · exact hplain _
    · exact h.finishAuth hgreeted a _
    · exact h.idle plain_replied id hstate fun _ => hgreeted
    · exact h.idle plain_replied id hstate fun _ => hgreeted
    · exact hplain _

/-! ## The commands of a transaction -/

theorem Good.hello (h : Good x c t) (hphase : c.phase = .command) (verb : Verb) :
    Good x (c.hello verb).1 (t ++ (c.hello verb).2) := by
  unfold Conn.hello
  dsimp only
  split
  · exact h.idle plain_replied id (by simp [InTransaction]) fun hp =>
      absurd hp (Phase.not_isAuth hphase)
  · refine h.idle ?_ id (by simp [InTransaction]) fun hp =>
      absurd hp (Phase.not_isAuth hphase)
    intro e he
    split at he <;>
      simp only [List.cons_append, List.nil_append, List.mem_cons, List.not_mem_nil,
        or_false] at he
    · rcases he with rfl | rfl | rfl | rfl | rfl <;> trivial
    · rcases he with rfl | rfl | rfl | rfl <;> trivial

theorem Good.starttls (h : Good x c t) (hdata : c.smtp.state ≠ .data) (a : Answers) :
    Good x (c.starttls a).1 (t ++ (c.starttls a).2) := by
  unfold Conn.starttls
  dsimp only
  split_ifs
  · exact h.plain plain_replied fun _ => hdata
  · exact h.plain plain_replied fun _ => hdata
  · -- a new session: nothing is signed in
    refine good_idle ?_ (fun ha => absurd ha (by decide)) (by
      simp [InTransaction, Conn.start, SmtpSession.start]) (fun hp => hp.elim)
    refine h.sends.append fun e he before => ?_
    simp only [List.mem_cons, List.not_mem_nil, or_false] at he
    rcases he with rfl | rfl <;> trivial
  · exact h.close plain_replied

/-- MAIL opens a transaction; it keeps nothing of an earlier one. -/
theorem Good.mail (h : Good x c t) (hphase : c.phase = .command) (hdata : c.smtp.state ≠ .data)
    (a : Answers) (args : List Char) :
    Good x (c.mail a args).1 (t ++ (c.mail a args).2) := by
  have hplain : ∀ text refreshed,
      Good x { c with refreshedIdentities := refreshed } (t ++ [.replied text]) := by
    intro text refreshed
    have hgood := h.plain (@plain_replied text) fun _ => hdata
    exact ⟨hgood.sends, hgood.signedIn, hgood.safe, hgood.greeted, hgood.envelope, hgood.reading⟩
  unfold Conn.mail
  split
  · exact hplain _ c.refreshedIdentities
  · rename_i hauth
    have hauth : c.smtp.authenticated = true := by simpa using hauth
    split
    · exact hplain _ c.refreshedIdentities
    · split
      · exact hplain _ c.refreshedIdentities
      · rename_i start _
        dsimp only
        generalize (if (extractAddr (args.drop (start + 5))).isEmpty = true then
          a.session.defaultSenderAddress else extractAddr (args.drop (start + 5))) = sender
        split
        · exact hplain _ _
        · exact
            { sends := each_concat.2 ⟨h.sends, trivial⟩
              signedIn := fun _ => (h.signedIn hauth).append (by simp)
              safe := fun _ => ⟨hauth, rfl⟩
              greeted := fun hp => absurd hp (Phase.not_isAuth hphase)
              envelope := fun _ _ =>
                ⟨sender, rfl, envelope_concat t sender, Nat.zero_le _, fun hs => absurd hs (by simp)⟩
              reading := fun _ hs => absurd hs (by simp) }

theorem Good.rcpt (h : Good x c t) (hphase : c.phase = .command) (hdata : c.smtp.state ≠ .data)
    (args : List Char) : Good x (c.rcpt args).1 (t ++ (c.rcpt args).2) := by
  have hplain : ∀ text, Good x c (t ++ [.replied text]) := fun text =>
    h.plain plain_replied fun _ => hdata
  unfold Conn.rcpt
  split
  · exact hplain _
  · rename_i hstate
    have hstate : c.smtp.state = .mailFrom ∨ c.smtp.state = .rcptTo := by tauto
    split
    · exact hplain _
    · rename_i hroom
      split
      · exact hplain _
      · dsimp only
        split
        · exact hplain _
        · rename_i address _
          obtain ⟨sender, hfrom, henvelope, -, -⟩ := h.envelope hphase hstate
          have hin : InTransaction c.smtp.state := hstate.imp_right Or.inl
          exact
            { sends := each_concat.2 ⟨h.sends, trivial⟩
              signedIn := fun ha => (h.signedIn ha).append (by simp)
              safe := fun _ => h.safe hin
              greeted := fun hp => absurd hp (Phase.not_isAuth hphase)
              envelope := by
                intro _ _
                refine ⟨sender, hfrom, ?_, ?_, ?_⟩
                · exact henvelope.append (by simp [Event.Between])
                · simp only [maxRecipients, not_le] at hroom
                  simp only [List.length_append, List.length_singleton]
                  omega
                · simp
              reading := fun _ hs => absurd hs (by simp) }

/-- DATA starts the mail input with an empty buffer. -/
theorem Good.data (h : Good x c t) (hphase : c.phase = .command) (hdata : c.smtp.state ≠ .data) :
    Good x c.data.1 (t ++ c.data.2) := by
  unfold Conn.data
  split
  · exact h.plain plain_replied fun _ => hdata
  · rename_i hstate
    have hstate : c.smtp.state = .rcptTo := not_not.1 hstate
    obtain ⟨sender, hfrom, henvelope, hmax, hmin⟩ := h.envelope hphase (Or.inr hstate)
    have hin : InTransaction c.smtp.state := Or.inr (Or.inl hstate)
    exact
      { sends := each_concat.2 ⟨h.sends, trivial⟩
        signedIn := fun ha => (h.signedIn ha).append (by simp)
        safe := fun _ => h.safe hin
        greeted := fun hp => absurd hp (Phase.not_isAuth hphase)
        envelope := fun _ hs => absurd hs (by simp)
        reading := fun _ _ =>
          ⟨sender, [], hfrom, ⟨t, henvelope, rfl⟩, rfl, hmin hstate, hmax⟩ }

theorem Good.rset (h : Good x c t) (hphase : c.phase = .command) :
    Good x c.rset.1 (t ++ c.rset.2) := by
  refine h.idle plain_replied id ?_ ?_
  · cases hauth : c.smtp.authenticated <;> simp [Conn.rset, InTransaction, hauth]
  · exact fun hp => absurd hp (Phase.not_isAuth hphase)

theorem Good.command (h : Good x c t) (hphase : c.phase = .command)
    (hdata : c.smtp.state ≠ .data) (a : Answers) (line : Bytes) :
    Good x (c.command x a line).1 (t ++ (c.command x a line).2) := by
  unfold Conn.command
  dsimp only
  cases Verb.ofCmd (splitCmd (Text.trimEnd (Utf8.fromUtf8Lossy line))).1 with
  | ehlo => exact h.hello hphase .ehlo
  | helo => exact h.hello hphase .helo
  | starttls => exact h.starttls hdata a
  | auth => exact h.auth hdata a _
  | mail => exact h.mail hphase hdata a _
  | rcpt => exact h.rcpt hphase hdata _
  | data => exact h.data hphase hdata
  | rset => exact h.rset hphase
  | quit => exact h.close plain_replied
  | unknown => exact h.plain plain_replied fun _ => hdata

/-! ## Mail input -/

theorem outgoing_withMessageId (x : Crates) (uuid sender : String) (lines : List Bytes) :
    Outgoing x sender lines
      ((withMessageId x uuid (messageOf lines) (some sender)).getD (messageOf lines)) := by
  unfold withMessageId
  split
  · rename_i hnone
    cases hdomain : messageIdDomain (some sender) with
    | none => exact Or.inl rfl
    | some domain => exact Or.inr ⟨hnone, uuid, domain, hdomain, rfl⟩
  · exact Or.inl rfl

/-- The dot sends the transaction that the transcript tells of, and ends it. -/
theorem Good.endOfData {lines : List Bytes} {dot : Bytes} (h : Good x c t)
    (hphase : c.phase = .command) (hdata : c.smtp.state = .data)
    (hfrom : c.smtp.mailFrom = some sender) (hread : Reading t sender c.smtp.rcptTo lines)
    (hbuffer : c.smtp.dataBuffer = messageOf lines)
    (hcount : 1 ≤ c.smtp.rcptTo.length ∧ c.smtp.rcptTo.length ≤ 100)
    (hdot : stripLineEnd dot = [46]) (a : Answers) :
    Good x (c.endOfData x a).1 (t ++ .received dot :: (c.endOfData x a).2) := by
  have hsigned : SignedIn t := h.signedIn (h.safe (Or.inr (Or.inr hdata))).1
  have hnotAuth : ¬ c.phase.IsAuth := Phase.not_isAuth hphase
  unfold Conn.endOfData
  dsimp only
  split
  · -- refused before anything is sent
    refine Good.idle h ?_ id (by
      simp [InTransaction, Conn.resetTransaction]) (fun hp => absurd hp hnotAuth)
    intro e he
    rcases List.mem_cons.1 he with rfl | he
    · trivial
    · exact plain_replied e he
  · have hlawful : Lawful x (t ++ [.received dot]) c.smtp.mailFrom c.smtp.rcptTo
        ((withMessageId x a.uuid c.smtp.dataBuffer c.smtp.mailFrom).getD c.smtp.dataBuffer) := by
      refine ⟨hsigned.append (by simp), hcount, sender, lines, dot, hfrom, hread.received dot,
        hdot, ?_⟩
      rw [hfrom, hbuffer]
      exact outgoing_withMessageId x a.uuid sender lines
    have hafter := afterSend_plain a c.smtp c.smtp.dataBuffer
      ((withMessageId x a.uuid c.smtp.dataBuffer c.smtp.mailFrom).getD c.smtp.dataBuffer)
    refine good_idle ?_ ?_ (by simp [InTransaction, Conn.resetTransaction])
      (fun hp => absurd hp hnotAuth)
    · rw [List.append_cons, List.append_cons]
      refine Each.append (each_concat.2 ⟨each_concat.2 ⟨h.sends, trivial⟩, hlawful⟩) ?_
      exact fun e he before => (hafter e he).lawfulAfter x before
    · intro _
      refine hsigned.append fun e he => ?_
      rcases List.mem_cons.1 he with rfl | he
      · simp
      · rcases List.mem_cons.1 he with rfl | he
        · simp
        · exact (hafter e he).ne_upgraded

theorem Good.inData (h : Good x c t) (hphase : c.phase = .command) (hdata : c.smtp.state = .data)
    (a : Answers) (line : Bytes) :
    Good x (c.inData x a line).1 (t ++ .received line :: (c.inData x a line).2) := by
  obtain ⟨sender, lines, hfrom, hread, hbuffer, hmin, hmax⟩ := h.reading hphase hdata
  unfold Conn.inData
  split
  · rename_i hdot
    exact h.endOfData hphase hdata hfrom hread hbuffer ⟨hmin, hmax⟩ hdot a
  · split
    · -- oversize: the sender stays, but the main loop waits for the end of the input
      exact h.leave plain_received rfl rfl rfl (Or.inl rfl)
    · exact
        { sends := each_concat.2 ⟨h.sends, trivial⟩
          signedIn := fun ha => (h.signedIn ha).append (by simp)
          safe := h.safe
          greeted := h.greeted
          envelope := fun _ hs => absurd hs (by
            rw [show _ = SmtpState.data from hdata]
            simp)
          reading := by
            intro _ _
            refine ⟨sender, lines ++ [line], hfrom, hread.received line, ?_, hmin, hmax⟩
            rw [messageOf_concat, ← hbuffer] }

theorem Good.inDrain (h : Good x c t) (hphase : c.phase = .draining) (line : Bytes) :
    Good x (c.inDrain line).1 (t ++ (c.inDrain line).2) := by
  unfold Conn.inDrain
  split
  · exact h.idle plain_replied id (by simp [InTransaction]) (fun hp => hp.elim)
  · exact h.plain (fun _ he => absurd he List.not_mem_nil) fun hp =>
      absurd (hp.symm.trans hphase) (by simp)

/-! ## A read, and a run -/

theorem Good.readFailed (h : Good x c t) : Good x c.readFailed.1 (t ++ c.readFailed.2) := by
  unfold Conn.readFailed
  split
  · exact h.close plain_replied
  · exact h.close fun _ he => absurd he List.not_mem_nil

theorem Good.handleLine (h : Good x c t) (a : Answers) (line : Bytes) :
    Good x (c.handleLine x a line).1 (t ++ .received line :: (c.handleLine x a line).2) := by
  unfold Conn.handleLine
  split
  · rename_i hphase
    split
    · rename_i hdata
      exact h.inData hphase hdata a line
    · rename_i hdata
      rw [List.append_cons]
      exact (h.plain plain_received fun _ => hdata).command hphase hdata a line
  all_goals
    rename_i hphase
    have hline : Good x c (t ++ [.received line]) := h.plain plain_received fun hp =>
      absurd (hp.symm.trans hphase) (by simp)
    rw [List.append_cons]
  · exact hline.finishAuth (h.greeted (hphase ▸ trivial)) a _
  · have hgreeted := h.greeted (hphase ▸ trivial)
    refine hline.idle plain_replied id ?_ fun _ => hgreeted
    rw [show _ = SmtpState.greeted from hgreeted]
    simp [InTransaction]
  · exact hline.finishAuth (h.greeted (hphase ▸ trivial)) a _
  · exact hline.inDrain hphase line
  · rwa [List.append_nil]

/-- **Every read keeps the invariant.** -/
theorem Good.step (h : Good x c t) (i : Input) :
    Good x (c.step x i).1 (t ++ (c.step x i).2) := by
  have hsame : Good x c (t ++ []) := by rwa [List.append_nil]
  have hclose : Good x c.close (t ++ []) := h.close fun _ he => absurd he List.not_mem_nil
  cases i with
  | read line a =>
      simp only [Conn.step]
      split_ifs with hclosed hcap hcommand hempty hdrain
      · exact hsame
      · exact h.close plain_replied
      · exact h.readFailed
      · exact h.inDrain hdrain []
      · exact hclose
      · exact h.handleLine a line
  | readError =>
      simp only [Conn.step]
      split_ifs
      · exact hsame
      · exact h.readFailed
  | timeout =>
      simp only [Conn.step]
      split
      · split_ifs
        · exact hsame
        · exact h.close plain_replied
      · exact hsame
      · exact hclose
  | deadline =>
      simp only [Conn.step]
      split_ifs
      · exact hsame
      · exact hclose

theorem good_run (x : Crates) (starttlsCapable : Bool) (inputs : List Input) :
    Good x (exec (Traced.step x) (.start starttlsCapable) inputs).conn
      (exec (Traced.step x) (.start starttlsCapable) inputs).transcript :=
  exec_invariant (I := fun s : Traced => Good x s.conn s.transcript)
    (fun _ i h _ => h.step i) (good_start x starttlsCapable) (guarded_true _ _ inputs)

/-- **SMTP transactions keep their parts together.** Whatever a client sends, every call of
`send_via_api` happens after sign-in, with the sender of the last MAIL, the one to a hundred
recipients accepted since, and the lines read since the 354 of its own DATA, before which
the server may put a Message-ID. In a transaction the session is signed in and has a
sender. -/
theorem transactions_keep_their_parts (x : Crates) (starttlsCapable : Bool)
    (inputs : List Input) :
    let s := exec (Traced.step x) (.start starttlsCapable) inputs
    (∀ before mailFrom rcptTo message after,
      s.transcript = before ++ .sendViaApi mailFrom rcptTo message :: after →
        Lawful x before mailFrom rcptTo message) ∧
    (InTransaction s.conn.smtp.state →
      s.conn.smtp.authenticated = true ∧ s.conn.smtp.mailFrom.isSome = true) := by
  have hgood := good_run x starttlsCapable inputs
  refine ⟨?_, hgood.safe⟩
  intro before mailFrom rcptTo message after ht
  exact hgood.sends before _ after ht

/-! ## The line that the server adds -/

/-- The lines at the end of a transcript. -/
def linesRead (t : List Event) : List Bytes :=
  t.foldl (fun lines e => match e with
    | .received line => lines ++ [line]
    | _ => []) []

theorem Reading.linesRead {lines : List Bytes} (h : Reading t sender rcptTo lines) :
    linesRead t = lines := by
  obtain ⟨before, -, rfl⟩ := h
  have hfold : ∀ acc, (lines.map Event.received).foldl (fun lines e => match e with
      | .received line => lines ++ [line]
      | _ => []) acc = acc ++ lines := by
    induction lines with
    | nil => simp
    | cons line lines ih =>
        intro acc
        rw [List.map_cons, List.foldl_cons, ih]
        simp
  rw [Smtp.linesRead, List.foldl_append, List.foldl_cons]
  exact hfold []

/-- One account and no send-as list; every send succeeds. -/
def oneAccount : Answers where
  session := ⟨"a@b.c", [], none⟩
  sessionAgain := ⟨"a@b.c", [], none⟩
  passwordId := fun _ password => if password = "p" then some "id" else none
  tlsAccepted := false
  uuid := "u"
  sent := .ok false
  storesSentCopy := false
  outboxId := none

/-- The readers on the texts of `oneMessage`. -/
def plainCrates : Crates where
  base64Decode text :=
    if text = "AGFAYi5jAHA=".toList then some ([0] ++ Utf8.encode "a@b.c" ++ [0, 112]) else none
  hasMessageId raw := some (Text.contains raw (Utf8.encode "Message-ID:"))

/-- A sign-in and one message without a Message-ID. -/
def oneMessage : List Input :=
  ["EHLO x\r\n", "AUTH PLAIN AGFAYi5jAHA=\r\n", "MAIL FROM:<a@b.c>\r\n", "RCPT TO:<d@e.f>\r\n",
    "DATA\r\n", "Subject: s\r\n", ".\r\n"].map fun line => .read (Utf8.encode line) oneAccount

/-- The message of a send is not always made of the lines of its DATA alone. -/
theorem message_id_is_added :
    ¬ ∀ (x : Crates) (starttlsCapable : Bool) (inputs : List Input) (before : List Event)
        (mailFrom : Option String) (rcptTo : List String) (message : Bytes) (after : List Event),
      (exec (Traced.step x) (.start starttlsCapable) inputs).transcript =
          before ++ .sendViaApi mailFrom rcptTo message :: after →
        ∃ sender lines dot, mailFrom = some sender ∧
          Reading before sender rcptTo (lines ++ [dot]) ∧ message = messageOf lines := by
  intro h
  obtain ⟨sender, lines, dot, -, hread, hmessage⟩ :=
    h plainCrates false oneMessage
      ((exec (Traced.step plainCrates) (.start false) oneMessage).transcript.take 15)
      (some "a@b.c") ["d@e.f"] (Utf8.encode "Message-ID: <u@b.c>\r\nSubject: s\r\n")
      [.replied "250 OK Message accepted\r\n"] (by decide +kernel)
  have hlines : lines ++ [dot] =
      [Utf8.encode "Subject: s\r\n"] ++ [Utf8.encode ".\r\n"] := by
    rw [← hread.linesRead]
    decide +kernel
  obtain ⟨rfl, -⟩ := List.append_inj' hlines rfl
  exact absurd hmessage (by decide +kernel)

end AsterBridge.Smtp
