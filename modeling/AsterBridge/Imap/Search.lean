import AsterBridge.Address
import AsterBridge.Imap.SequenceSets
import AsterBridge.Lib.Unicode
import AsterBridge.Lib.Utf8
import AsterBridge.Lib.Words

/-!
# SEARCH

The criteria of SEARCH in `imap/server.rs`. `tokenize_search_criteria` makes a stream of tokens that
no longer says what was quoted; `search_eval` reads criteria from the stream and evaluates them at
once. A depth is given as the number of levels that are left.
-/

set_option autoImplicit false

namespace AsterBridge.Imap.Search

open AsterBridge.Lib AsterBridge.Lib.Text AsterBridge.Lib.Unicode

/-! ## Messages -/

/-- A year, a month and a day. -/
abbrev Date := Int × Nat × Nat

/-- Third-party code: the JSON reader, the tables of case, and the date readers of `chrono` with
the date that they give. -/
structure SearchCrates where
  fromStr : String → Option Json
  cases : CaseMaps
  rfc3339 : List Char → Option Date
  rfc2822 : List Char → Option Date
  fromFormat : List Char → String → Option Date

/-- What SEARCH reads of `CachedMessage`. -/
structure SearchMessage where
  subject : Option (List Char)
  sender : Option (List Char)
  recipients : Option (List Char)
  date : Option (List Char)
  size : Int
  flags : BitVec 64
  bodyText : Option (List Char)
  rawHeaders : Option String
  imapUid : Nat

/-- `SearchPosition` -/
structure SearchPosition where
  seq : Nat
  lastSeq : Nat
  lastUid : Nat

/-- What a criterion is evaluated against. -/
structure Target where
  msg : SearchMessage
  position : SearchPosition
  keywords : List (List Char)

/-- `parse` for `i64` -/
def parseI64 (s : List Char) : Option Int :=
  (parseInt (String.ofList s)).filter fun n => -2 ^ 63 ≤ n ∧ n < 2 ^ 63

/-- `parse` for `i32` -/
def parseI32 (s : List Char) : Option Int :=
  (parseInt (String.ofList s)).filter fun n => -2 ^ 31 ≤ n ∧ n < 2 ^ 31

/-- The names of the months in `parse_imap_search_date`. -/
def months : List (List Char) :=
  ["JAN", "FEB", "MAR", "APR", "MAY", "JUN", "JUL", "AUG", "SEP", "OCT", "NOV", "DEC"].map
    String.toList

/-- `parse_imap_search_date` -/
def parseImapSearchDate (s : List Char) : Option Date :=
  match s.splitOn '-' with
  | [day, month, year] => do
      let day ← parseUInt (2 ^ 32) (String.ofList day)
      let month ← months.idxOf? (month.map Char.toUpper)
      let year ← parseI32 year
      return (year, month + 1, day)
  | _ => none

/-- `parse_datetime_lenient`, and the date of its result. -/
def parseDatetimeLenient (x : SearchCrates) (s : List Char) : Option Date :=
  let t := trim s
  let noWeekday := match splitOnce ',' t with
    | some (_, rest) => trim rest
    | none => t
  (x.rfc3339 t).orElse fun _ => (x.rfc2822 t).orElse fun _ =>
    (x.fromFormat noWeekday "%d %b %Y %H:%M:%S %z").orElse fun _ =>
      x.fromFormat noWeekday "%d %b %Y %H:%M %z"

/-- The number of ASCII digits. -/
def digitsOf (bytes : List UInt8) : Nat :=
  Nat.ofDigitChars 10 (bytes.map fun b => Char.ofNat b.toNat) 0

/-- `parse_message_date_ymd` -/
def parseMessageDateYmd (x : SearchCrates) (date : List Char) : Option Date :=
  let b := Utf8.encode (String.ofList date)
  if 10 ≤ b.length ∧ (b.take 10).zipIdx.all fun (c, i) =>
      i == 4 || i == 7 || (Char.ofNat c.toNat).isDigit then
    some (digitsOf (b.take 4), digitsOf ((b.drop 5).take 2), digitsOf ((b.drop 8).take 2))
  else parseDatetimeLenient x date

/-- The order of dates. -/
def dateLt (a b : Date) : Bool :=
  a.1 < b.1 || (a.1 = b.1 && (a.2.1 < b.2.1 || (a.2.1 = b.2.1 && a.2.2 < b.2.2)))

/-- `trim_matches('"')` -/
def trimQuotes (s : List Char) : List Char := (s.dropWhile (· == '"')).rdropWhile (· == '"')

/-- `cached_header_value` -/
def cachedHeaderValue (x : SearchCrates) (msg : SearchMessage) (field : List Char) :
    Option (List Char) :=
  let metadata := (msg.rawHeaders.bind x.fromStr).getD .null
  let metaString (key : String) : Option (List Char) :=
    (((metadata.get? key).bind Json.asStr).map String.toList).filter (· ≠ [])
  if field = "subject".toList then msg.subject
  else if field = "from".toList ∨ field = "sender".toList then msg.sender
  else if field = "to".toList then msg.recipients
  else if field = "date".toList then msg.date
  else if field = "cc".toList then Address.metaAddressText metadata "cc"
  else if field = "bcc".toList then Address.metaAddressText metadata "bcc"
  else if field = "reply-to".toList then Address.metaAddressText metadata "reply_to"
  else if field = "message-id".toList then metaString "message_id"
  else if field = "in-reply-to".toList then metaString "in_reply_to"
  else if field = "references".toList then metaString "references"
  else none

/-- `header_search_matches` -/
def headerSearchMatches (x : SearchCrates) (msg : SearchMessage) (field pattern : List Char) :
    Bool :=
  let wanted := trimQuotes (trim pattern)
  match cachedHeaderValue x msg field with
  | some value =>
      wanted.isEmpty || contains (x.cases.toUppercase value) (x.cases.toUppercase wanted)
  | none => false

/-- `has_keyword` -/
def hasKeyword (keywords : List (List Char)) (wanted : List Char) : Bool :=
  keywords.any fun k => eqIgnoreAsciiCase k wanted

/-! ## Criteria -/

/-- The criteria without an argument. -/
inductive FlagKey where
  | all
  | unseen
  | seen
  | answered
  | unanswered
  | flagged
  | unflagged
  | deleted
  | undeleted
  | draft
  | undraft
  | recent
  | new
  | old
deriving DecidableEq, Repr

/-- The criteria with one argument, but for `UID`. -/
inductive ArgKey where
  | sender
  | recipients
  | subject
  | larger
  | smaller
  | before
  | sentBefore
  | since
  | sentSince
  | day
  | sentDay
  | body
  | text
  | cc
  | bcc
  | keyword
  | unkeyword
deriving DecidableEq, Repr

/-- A token that `search_eval` knows by name. -/
inductive Criterion where
  | opening
  | closing
  | flag (key : FlagKey)
  | not
  | or
  | arg (key : ArgKey)
  | header
  | uid
deriving DecidableEq, Repr

/-- The word of a criterion. -/
def FlagKey.name : FlagKey → String
  | .all => "ALL"
  | .unseen => "UNSEEN"
  | .seen => "SEEN"
  | .answered => "ANSWERED"
  | .unanswered => "UNANSWERED"
  | .flagged => "FLAGGED"
  | .unflagged => "UNFLAGGED"
  | .deleted => "DELETED"
  | .undeleted => "UNDELETED"
  | .draft => "DRAFT"
  | .undraft => "UNDRAFT"
  | .recent => "RECENT"
  | .new => "NEW"
  | .old => "OLD"

/-- The word of a criterion. -/
def ArgKey.name : ArgKey → String
  | .sender => "FROM"
  | .recipients => "TO"
  | .subject => "SUBJECT"
  | .larger => "LARGER"
  | .smaller => "SMALLER"
  | .before => "BEFORE"
  | .sentBefore => "SENTBEFORE"
  | .since => "SINCE"
  | .sentSince => "SENTSINCE"
  | .day => "ON"
  | .sentDay => "SENTON"
  | .body => "BODY"
  | .text => "TEXT"
  | .cc => "CC"
  | .bcc => "BCC"
  | .keyword => "KEYWORD"
  | .unkeyword => "UNKEYWORD"

/-- The word of a criterion. -/
def Criterion.name : Criterion → String
  | .opening => "("
  | .closing => ")"
  | .flag key => key.name
  | .not => "NOT"
  | .or => "OR"
  | .arg key => key.name
  | .header => "HEADER"
  | .uid => "UID"

/-- The arms of `search_eval` that name a token. -/
def criteria : List Criterion :=
  [.opening, .closing, .flag .all, .flag .unseen, .flag .seen, .flag .answered, .flag .unanswered,
    .flag .flagged, .flag .unflagged, .flag .deleted, .flag .undeleted, .flag .draft, .flag .undraft,
    .not, .or, .arg .sender, .arg .recipients, .arg .subject, .arg .larger, .arg .smaller,
    .arg .before, .arg .sentBefore, .arg .since, .arg .sentSince, .arg .day, .arg .sentDay,
    .arg .body, .arg .text, .arg .cc, .arg .bcc, .arg .keyword, .arg .unkeyword, .header, .uid,
    .flag .recent, .flag .new, .flag .old]

/-- The arm of a token. -/
def criterionOf (token : List Char) : Option Criterion :=
  criteria.find? fun c => c.name.toList = token

/-- The arms without an argument. -/
def FlagKey.holds (key : FlagKey) (msg : SearchMessage) : Bool :=
  match key with
  | .all => true
  | .unseen => !msg.flags.getLsbD 0
  | .seen => msg.flags.getLsbD 0
  | .answered => msg.flags.getLsbD 1
  | .unanswered => !msg.flags.getLsbD 1
  | .flagged => msg.flags.getLsbD 2
  | .unflagged => !msg.flags.getLsbD 2
  | .deleted => msg.flags.getLsbD 3
  | .undeleted => !msg.flags.getLsbD 3
  | .draft => msg.flags.getLsbD 4
  | .undraft => !msg.flags.getLsbD 4
  | .recent | .new => false
  | .old => true

/-- The date arms, where both dates can be read. -/
def dateHolds (x : SearchCrates) (msg : SearchMessage) (arg : List Char)
    (compare : Date → Date → Bool) : Bool :=
  match parseImapSearchDate arg, msg.date.bind (parseMessageDateYmd x) with
  | some search, some date => compare date search
  | _, _ => false

/-- The arms with one argument; at the end of the tokens there is none. -/
def ArgKey.holds (x : SearchCrates) (t : Target) (key : ArgKey) (arg : Option (List Char)) : Bool :=
  let text := arg.getD []
  let upper (s : Option (List Char)) : List Char := x.cases.toUppercase (s.getD [])
  let lower (s : Option (List Char)) : List Char := x.cases.toLowercase (s.getD [])
  let pattern := x.cases.toLowercase (trimQuotes text)
  match key with
  | .sender => contains (upper t.msg.sender) (x.cases.toUppercase text)
  | .recipients => contains (upper t.msg.recipients) (x.cases.toUppercase text)
  | .subject => contains (upper t.msg.subject) (x.cases.toUppercase (trimQuotes text))
  | .larger => (arg.bind parseI64).getD 0 < t.msg.size
  | .smaller => t.msg.size < (arg.bind parseI64).getD (2 ^ 63 - 1)
  | .before | .sentBefore => dateHolds x t.msg text dateLt
  | .since | .sentSince => dateHolds x t.msg text fun date search => !dateLt date search
  | .day | .sentDay => dateHolds x t.msg text fun date search => date = search
  | .body => pattern.isEmpty || contains (lower t.msg.bodyText) pattern
  | .text => pattern.isEmpty || contains (lower t.msg.bodyText) pattern ||
      contains (lower t.msg.subject) pattern
  | .cc => headerSearchMatches x t.msg "cc".toList text
  | .bcc => headerSearchMatches x t.msg "bcc".toList text
  | .keyword => hasKeyword t.keywords text
  | .unkeyword => !hasKeyword t.keywords text

/-- The arm `HEADER`. -/
def headerHolds (x : SearchCrates) (t : Target) (field pattern : List Char) : Bool :=
  headerSearchMatches x t.msg ((trimQuotes field).map Char.toLower) pattern

/-- The arm `UID`. -/
def uidHolds (t : Target) (set : Option (List Char)) : Bool :=
  set.any fun set => sequenceSetContains set t.msg.imapUid t.position.lastUid

/-- The arm of a sequence set. -/
def seqHolds (t : Target) (set : List Char) : Bool :=
  sequenceSetContains set t.position.seq t.position.lastSeq

/-- `KNOWN_UNSUPPORTED_CRITERIA` -/
def knownUnsupportedCriteria : List String :=
  ["MODSEQ", "OLDER", "YOUNGER", "SAVEDBEFORE", "SAVEDON", "SAVEDSINCE", "SAVEDATESUPPORTED",
    "FUZZY", "EMAILID", "THREADID", "ANNOTATION", "FILTER"]

/-- `loggable_criterion` -/
def loggableCriterion (token : List Char) : List Char :=
  let bytes := (Utf8.encode (String.ofList token)).length
  let isSet := !token.isEmpty && token.all fun c => c.isDigit || c == ':' || c == ',' || c == '*'
  let isName := 1 ≤ bytes && bytes ≤ 24 && token.all (fun c => c.isUpper || c == '-') &&
    ("X-".toList.isPrefixOf token || knownUnsupportedCriteria.any fun s => s.toList = token)
  if isSet || isName then token
  else '<' :: (toString bytes).toList ++ " byte token>".toList

/-! ## Tokens -/

/-- Where `tokenize_search_criteria` is. -/
inductive Mode where
  | plain
  | quoted
  | escaped
deriving DecidableEq

/-- The loop of `tokenize_search_criteria`. -/
def tokenizeFrom (current : List Char) : Mode → List Char → List (List Char)
  | _, [] => lastWord current
  | .escaped, c :: cs => tokenizeFrom (current ++ [c]) .quoted cs
  | .quoted, c :: cs =>
      if c = '"' then current :: tokenizeFrom [] .plain cs
      else if c = '\\' then tokenizeFrom current .escaped cs
      else tokenizeFrom (current ++ [c]) .quoted cs
  | .plain, c :: cs =>
      if c = '"' then tokenizeFrom current .quoted cs
      else if c = '(' ∨ c = ')' then lastWord current ++ [c] :: tokenizeFrom [] .plain cs
      else if isWhitespace c then lastWord current ++ tokenizeFrom [] .plain cs
      else tokenizeFrom (current ++ [c]) .plain cs

theorem tokenizeFrom_blank {rest : List Char} (current : List Char) :
    tokenizeFrom current .plain (' ' :: rest) = lastWord current ++ tokenizeFrom [] .plain rest := by
  rw [tokenizeFrom, if_neg (by decide), if_neg (by decide), if_pos (by decide)]

/-- A blank in front of a token is skipped. -/
theorem tokenizeFrom_skip {rest : List Char} :
    tokenizeFrom [] .plain (' ' :: rest) = tokenizeFrom [] .plain rest := by
  rw [tokenizeFrom_blank]
  rfl

theorem tokenizeFrom_closing {rest : List Char} (current : List Char) :
    tokenizeFrom current .plain (')' :: rest) =
      lastWord current ++ [')'] :: tokenizeFrom [] .plain rest := by
  rw [tokenizeFrom, if_neg (by decide), if_pos (Or.inr rfl)]

/-- `tokenize_search_criteria` -/
def tokenizeSearchCriteria (raw : List Char) : List (List Char) := tokenizeFrom [] .plain raw

/-- `quote_search_string` -/
def quoteSearchString (raw : List Char) : List Char :=
  '"' :: (raw.flatMap (fun c => if c = '"' ∨ c = '\\' then ['\\', c] else [c]) ++ ['"'])

/-! ## Evaluation -/

/-- The tokens from `idx` on, and `unsupported`. -/
structure Reader where
  rest : List (List Char)
  unsupported : Option (List Char)
deriving DecidableEq

/-- The next token, if there is one. -/
def Reader.next (r : Reader) : Option (List Char) × Reader :=
  (r.rest.head?, { r with rest := r.rest.tail })

/-- `SearchTooDeep`, or a value; with the reader in both cases. -/
abbrev Evaluated := Reader × Option Bool

/-- The `?` on a result of `search_eval`. -/
def Evaluated.andThen (e : Evaluated) (f : Reader → Bool → Evaluated) : Evaluated :=
  match e with
  | (r, some v) => f r v
  | (r, none) => (r, none)

@[simp]
theorem Evaluated.andThen_some (r : Reader) (v : Bool) (f : Reader → Bool → Evaluated) :
    Evaluated.andThen (r, some v) f = f r v := rfl

/-- The loop of a parenthesised list: up to the closing parenthesis, which it takes, or to the end.
-/
def searchList (eval : Reader → Evaluated) : Nat → Bool → Reader → Evaluated
  | 0, result, r => (r, some result)
  | fuel + 1, result, r =>
      match r.rest with
      | [] => (r, some result)
      | token :: rest =>
          if token = [')'] then ({ r with rest }, some result)
          else Evaluated.andThen (eval r) fun r v => searchList eval fuel (result && v) r

/-- `search_eval` with `levels` depths left. -/
def searchEval (x : SearchCrates) (t : Target) : Nat → Reader → Evaluated
  | 0, r => (r, none)
  | levels + 1, r =>
      match r.rest with
      | [] => (r, some true)
      | token :: rest =>
          let r : Reader := { r with rest }
          match criterionOf token with
          | some .opening => searchList (searchEval x t levels) (rest.length + 1) true r
          | some .closing => (r, some true)
          | some (.flag key) => (r, some (key.holds t.msg))
          | some .not =>
              Evaluated.andThen (searchEval x t levels r) fun r v => (r, some (!v))
          | some .or =>
              Evaluated.andThen (searchEval x t levels r) fun r a =>
                Evaluated.andThen (searchEval x t levels r) fun r b => (r, some (a || b))
          | some (.arg key) => (r.next.2, some (key.holds x t r.next.1))
          | some .header =>
              let field := r.next
              let pattern := field.2.next
              (pattern.2, some (headerHolds x t (field.1.getD []) (pattern.1.getD [])))
          | some .uid => (r.next.2, some (uidHolds t r.next.1))
          | none =>
              if isSequenceSet token then (r, some (seqHolds t token))
              else
                ({ r with unsupported := r.unsupported.or (some (loggableCriterion token)) },
                  some false)

/-- `MAX_SEARCH_NESTING` -/
def maxSearchNesting : Nat := 256

/-- The loop of `search_matches_noting`. -/
def searchAll (eval : Reader → Evaluated) : Nat → Bool → Reader → Evaluated
  | 0, matched, r => (r, some matched)
  | fuel + 1, matched, r =>
      match r.rest with
      | [] => (r, some matched)
      | _ :: _ => Evaluated.andThen (eval r) fun r v => searchAll eval fuel (matched && v) r

/-- `search_matches_noting`: the value with `unsupported` after it. -/
def searchMatchesNoting (x : SearchCrates) (t : Target) (criteria : List Char)
    (unsupported : Option (List Char)) : Option Bool × Option (List Char) :=
  let parts := tokenizeSearchCriteria criteria
  let (r, matched) := searchAll (searchEval x t maxSearchNesting) (parts.length + 1) true
    ⟨parts, unsupported⟩
  (matched, r.unsupported)

end AsterBridge.Imap.Search
