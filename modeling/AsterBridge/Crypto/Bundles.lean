import AsterBridge.Crypto.Attachment
import AsterBridge.Lib.JsonForms
import AsterBridge.Lib.Words

/-!
# Subject bundles

The envelope of `crypto/ratchet_recovery.rs` around the body of a message: the marker, and a JSON
object with the subject, the body and the attachment manifest. `sealed_plaintext` writes it and
`extract_subject_bundle` unwraps it, with a scanner behind the JSON reader for objects that are
not valid JSON.
-/

set_option autoImplicit false

namespace AsterBridge.Crypto.Bundles

open AsterBridge.Lib AsterBridge.Lib.Text AsterBridge.Crypto.Attachment

/-- `SUBJECT_BUNDLE_MARKER` -/
def subjectBundleMarker : List Char := "ASTER_BUNDLE_V2".toList

/-- `SUBJECT_BUNDLE_DELIMITER` -/
def subjectBundleDelimiter : Char := '\x01'

/-- `MAX_SUBJECT_BUNDLE_DEPTH` -/
def maxSubjectBundleDepth : Nat := 8

/-- `ATTACHMENT_MANIFEST_FIELD` -/
def attachmentManifestField : String := "attachment_manifest"

/-- `SubjectBundle` -/
structure SubjectBundle where
  subject : Option String
  body : String
  senderUnverified : Bool
  attachmentManifest : Option (List Json)

/-! ## The scanner -/

/-- `is_bundle_framing` -/
def isBundleFraming (c : Char) : Bool :=
  isWhitespace c || c.toNat ≤ 0x1F || c.toNat == 0x7F || c.toNat == 0xFEFF ||
    (0x200B ≤ c.toNat && c.toNat ≤ 0x200F)

/-- The character that a letter behind a backslash stands for. -/
def mapped (letter : Char) : Char :=
  match letter with
  | 'b' => '\x08'
  | 'f' => '\x0c'
  | 'n' => '\n'
  | 'r' => '\r'
  | 't' => '\t'
  | other => other

/-- Units before those that were read. -/
def push (units : List Nat) (p : List Nat × List Char) : List Nat × List Char :=
  (units ++ p.1, p.2)

/-- The loop of `read_lenient_json_string`: the units up to the closing quote, and what follows
it. -/
def readUnits : List Char → List Nat × List Char
  | [] => ([], [])
  | ['\\'] => ([], [])
  | '\\' :: 'u' :: a :: b :: c :: d :: rest =>
      match JsonForms.hexUnit a b c d with
      | some unit => push [unit] (readUnits rest)
      | none => push (Utf16.encodeChar 'u') (readUnits (a :: b :: c :: d :: rest))
  | '\\' :: letter :: rest => push (Utf16.encodeChar (mapped letter)) (readUnits rest)
  | c :: rest => if c = '"' then ([], rest) else push (Utf16.encodeChar c) (readUnits rest)

/-- `read_lenient_json_string`, behind the opening quote. -/
def readLenientJsonString (rest : List Char) : String × List Char :=
  (String.ofList (Utf16.decodeLossy (readUnits rest).1), (readUnits rest).2)

theorem readUnits_length (s : List Char) : (readUnits s).2.length ≤ s.length := by
  fun_induction readUnits s with
  | case1 => exact le_rfl
  | case2 => exact Nat.zero_le _
  | case3 a b c d rest unit h ih =>
      simp only [push, List.length_cons]
      omega
  | case4 a b c d rest h ih =>
      simp only [push, List.length_cons] at ih ⊢
      omega
  | case5 letter rest _ ih =>
      simp only [push, List.length_cons]
      omega
  | case6 rest =>
      simp only [List.length_cons]
      omega
  | case7 c rest _ _ _ _ ih =>
      simp only [push, List.length_cons]
      omega

/-- The subject and the body of an object, when there is a body. -/
def found (subject body : Option String) : Option (Option String × String) :=
  body.map fun b => (subject, b)

/-- The value of a name that the scanner looks for. -/
def noted (name : String) (key value : String) (old : Option String) : Option String :=
  if key = name then some value else old

/-- The loop of `scan_bundle_payload`, on what is behind `index`. -/
def scanPairs (subject body : Option String) (rest : List Char) :
    Option (Option String × String) :=
  match _hquote : splitOnce '"' rest with
  | none => found subject body
  | some (_, rest₁) =>
      let key := readLenientJsonString rest₁
      match _hcolon : splitOnce ':' key.2 with
      | none => found subject body
      | some (_, rest₂) =>
          match _hvalue : rest₂.dropWhile isWhitespace with
          | [] => found subject body
          | c :: rest₃ =>
              if c = '"' then
                let value := readLenientJsonString rest₃
                let subject := noted "s" key.1 value.1 subject
                let body := noted "b" key.1 value.1 body
                if subject.isSome && body.isSome then found subject body
                else scanPairs subject body value.2
              else
                match _hcomma : splitOnce ',' (c :: rest₃) with
                | none => found subject body
                | some (_, rest₄) => scanPairs subject body rest₄
termination_by rest.length
decreasing_by
  all_goals
    have hquote := splitOnce_length _hquote
    have hkey := readUnits_length rest₁
    have hcolon := splitOnce_length _hcolon
    have hvalue := (List.dropWhile_suffix (l := rest₂) isWhitespace).length_le
    rw [_hvalue] at hvalue
  · have hread := readUnits_length rest₃
    simp only [readLenientJsonString, List.length_cons, key] at *
    omega
  · have hcomma := splitOnce_length _hcomma
    simp only [readLenientJsonString, List.length_cons, key] at *
    omega

/-- `scan_bundle_payload` -/
def scanBundlePayload (payload : List Char) : Option (Option String × String) :=
  (splitOnce '\x7b' payload).bind fun parts => scanPairs none none parts.2

/-! ## Bundles -/

/-- `bundle_payload` -/
def bundlePayload (text : List Char) : Option (List Char) :=
  (find subjectBundleMarker text).bind fun i =>
    let front := text.take i
    let framing := if front.getLast? = some subjectBundleDelimiter then front.dropLast else front
    let payload := text.drop (i + subjectBundleMarker.length)
    if framing.all isBundleFraming then
      some (if payload.head? = some subjectBundleDelimiter then payload.tail else payload)
    else none

/-- `bundle_attachment_manifest` -/
def bundleAttachmentManifest (x : AttachmentCrates) (payload : List Char) : Option (List Json) :=
  match (x.fromStr (String.ofList payload)).bind (Json.get? · attachmentManifestField) with
  | some (.array entries) => if entries = [] then none else some entries
  | _ => none

/-- The object that `wrap_subject_bundle` writes. -/
def bundleObject (subject body : String) (attachmentManifest : List Json) : List Char :=
  "\x7b\"s\":".toList ++ (JsonText.write (.string subject) ++
    (",\"b\":".toList ++ (JsonText.write (.string body) ++
      (",\"".toList ++ (attachmentManifestField.toList ++ ("\":".toList ++
        (JsonText.write (.array attachmentManifest) ++ ['\x7d'])))))))

/-- `wrap_subject_bundle` -/
def wrapSubjectBundle (subject body : String) (attachmentManifest : List Json) : String :=
  String.ofList (subjectBundleDelimiter :: (subjectBundleMarker ++ subjectBundleDelimiter ::
    bundleObject subject body attachmentManifest))

/-- The subject and the body of an object. -/
def strictPair (j : Json) : Option (Option String × String) :=
  ((j.get? "s").bind Json.asStr).bind fun s =>
    ((j.get? "b").bind Json.asStr).map fun b => (some s, b)

/-- `unwrap_subject_bundle_layer` -/
def unwrapSubjectBundleLayer (x : AttachmentCrates) (text : String) :
    Option (Option String × String) :=
  (bundlePayload text.toList).bind fun payload =>
    ((x.fromStr (String.ofList payload)).bind strictPair).or (scanBundlePayload payload)

/-- The loop of `extract_subject_bundle`: the subject, the body, and whether a layer came off. -/
def peelLayers (x : AttachmentCrates) :
    Nat → Option String → String → Bool → Option String × String × Bool
  | 0, subject, body, unwrapped => (subject, body, unwrapped)
  | n + 1, subject, body, unwrapped =>
      match unwrapSubjectBundleLayer x body with
      | none => (subject, body, unwrapped)
      | some (layerSubject, layerBody) =>
          peelLayers x n (if subject.all (· = "") then layerSubject else subject) layerBody true

/-- `extract_subject_bundle` -/
def extractSubjectBundle (x : AttachmentCrates) (decrypted : String) : SubjectBundle :=
  let manifest := (bundlePayload decrypted.toList).bind (bundleAttachmentManifest x)
  let (subject, body, unwrapped) := peelLayers x maxSubjectBundleDepth none decrypted false
  if unwrapped then ⟨some (subject.getD ""), body, false, manifest⟩
  else ⟨none, body, false, none⟩

/-! ## The manifest of a sent message -/

/-- `manifest_entry` -/
def manifestEntry (x : AttachmentCrates) (seq : Nat) (sealed : Json) : Option Json := do
  let field := fun (name : String) => (sealed.get? name).bind Json.asStr
  let metaText ← field "recipient_encrypted_meta"
  let metaBytes ← (x.decode metaText.toList).toOption
  let info ← x.fromSlice metaBytes
  let key ← (info.get? "session_key").bind Json.asStr
  let dataText ← field "encrypted_data"
  let encryptedData ← (x.decode dataText.toList).toOption
  let nonceText ← field "data_nonce"
  let dataNonce ← (x.decode nonceText.toList).toOption
  if dataNonce.length ≠ 12 then none
  else
    let keyBytes ← (decodeSessionKey x key).toOption
    let plain ← x.decryptGcm keyBytes dataNonce encryptedData []
    let contentId :=
      ((info.get? "content_id").bind Json.asStr).filter fun c => trim c.toList ≠ []
    return .object
      ([("seq", .int seq), ("key", .string key), ("size", .int plain.length),
        ("sha256", .string (sha256Hex x plain)),
        ("filename", .string (((info.get? "filename").bind Json.asStr).getD "")),
        ("content_type",
          .string (normalizeContentType ((info.get? "content_type").bind Json.asStr)))] ++
        (contentId.map fun c => ("content_id", Json.string c)).toList ++
        [("is_inline", .bool (((info.get? "is_inline").bind Json.asBool).getD false))])

/-- `send_attachment_manifest` -/
def sendAttachmentManifest (x : AttachmentCrates) (payload : Json) : List Json :=
  match (payload.get? "attachments").bind Json.asArray with
  | none => []
  | some list => (list.zipIdx.mapM fun p => manifestEntry x p.2 p.1).getD []

/-- The text of a member of the payload. -/
def payloadText (payload : Json) (name : String) : String :=
  ((payload.get? name).bind Json.asStr).getD ""

/-- `sealed_plaintext` -/
def sealedPlaintext (x : AttachmentCrates) (payload : Json) : String :=
  let manifest := sendAttachmentManifest x payload
  if manifest.isEmpty then payloadText payload "body"
  else wrapSubjectBundle (payloadText payload "subject") (payloadText payload "body") manifest

/-! ## Valid objects -/

section Forms

open JsonForms

theorem push_push (u v : List Nat) (p : List Nat × List Char) :
    push u (push v p) = push (u ++ v) p := by
  rw [push, push, push, List.append_assoc]

theorem mapped_of_unescape {letter c : Char} (h : JsonText.unescape letter = some c) :
    mapped letter = c ∧ letter ≠ 'u' := by
  unfold JsonText.unescape at h
  split at h
  all_goals first | (cases h; exact ⟨rfl, by decide⟩) | (exact absurd h (by simp))

theorem readUnits_unit {a b c d : Char} {u : Nat} (h : hexUnit a b c d = some u)
    (rest : List Char) :
    readUnits ('\\' :: 'u' :: a :: b :: c :: d :: rest) = push [u] (readUnits rest) := by
  rw [readUnits, h]

theorem readUnits_quote (rest : List Char) : readUnits ('"' :: rest) = ([], rest) := by
  rw [readUnits]
  · exact if_pos rfl
  all_goals
    intros
    simp_all

/-- Each text of a character gives its units. -/
theorem readUnits_charForm {c : Char} {form : List Char} (h : CharForm c form)
    (rest : List Char) :
    readUnits (form ++ rest) = push (Utf16.encodeChar c) (readUnits rest) := by
  cases h with
  | plain hquote hslash hcontrol =>
      rw [List.singleton_append, readUnits]
      · exact if_neg hquote
      all_goals
        intros
        simp_all
  | @short letter _ h =>
      obtain ⟨hmapped, hu⟩ := mapped_of_unescape h
      rw [List.cons_append, List.singleton_append, readUnits, hmapped]
      intro _ _ _ _ _ hletter
      exact absurd hletter hu
  | unit h hu => rw [h, List.cons_append, List.cons_append, List.cons_append, List.cons_append,
      List.cons_append, List.singleton_append, readUnits_unit hu]
  | pair h hu hv =>
      simp only [List.cons_append, List.nil_append]
      rw [h, readUnits_unit hu, readUnits_unit hv, push_push]
      rfl

theorem readUnits_forms {s : List Char} {forms : List (List Char)}
    (h : List.Forall₂ CharForm s forms) (rest : List Char) :
    readUnits (forms.flatten ++ '"' :: rest) = (Utf16.encode s, rest) := by
  induction h with
  | nil => exact readUnits_quote rest
  | @cons c form s forms hc _ ih =>
      rw [List.flatten_cons, List.append_assoc, readUnits_charForm hc, ih, push, Utf16.encode,
        Utf16.encode, List.flatMap_cons]

/-- Each text of a string is read as the string. -/
theorem readLenient_stringForm {s text : List Char} (h : StringForm s text) :
    ∃ inner, text = '"' :: inner ∧
      ∀ rest, readLenientJsonString (inner ++ rest) = (String.ofList s, rest) := by
  obtain ⟨forms, hforms, rfl⟩ := h
  refine ⟨_, rfl, fun rest => ?_⟩
  have hread := readUnits_forms hforms rest
  rw [readLenientJsonString, List.append_assoc, List.singleton_append, hread,
    Utf16.decodeLossy_encode]

theorem scanPairs_done {subject body : Option String} {rest : List Char} (h : '"' ∉ rest) :
    scanPairs subject body rest = found subject body := by
  rw [scanPairs]
  split
  next => rfl
  next hquote => exact absurd (hquote.symm.trans (if_neg h)) (by simp)

/-- One turn of the loop, when the value is a string. -/
theorem scanPairs_quoted (subject body : Option String) {rest a b c d e : List Char}
    (hquote : splitOnce '"' rest = some (a, b))
    (hcolon : splitOnce ':' (readLenientJsonString b).2 = some (c, d))
    (hvalue : d.dropWhile isWhitespace = '"' :: e) :
    scanPairs subject body rest =
      if (noted "s" (readLenientJsonString b).1 (readLenientJsonString e).1 subject).isSome &&
        (noted "b" (readLenientJsonString b).1 (readLenientJsonString e).1 body).isSome
      then found (noted "s" (readLenientJsonString b).1 (readLenientJsonString e).1 subject)
        (noted "b" (readLenientJsonString b).1 (readLenientJsonString e).1 body)
      else scanPairs
        (noted "s" (readLenientJsonString b).1 (readLenientJsonString e).1 subject)
        (noted "b" (readLenientJsonString b).1 (readLenientJsonString e).1 body)
        (readLenientJsonString e).2 := by
  rw [scanPairs]
  split
  next h => exact absurd (h.symm.trans hquote) (by simp)
  next h =>
    obtain ⟨rfl, rfl⟩ := Prod.mk.inj (Option.some.inj (h.symm.trans hquote))
    dsimp only
    split
    next h => exact absurd (h.symm.trans hcolon) (by simp)
    next h =>
      obtain ⟨rfl, rfl⟩ := Prod.mk.inj (Option.some.inj (h.symm.trans hcolon))
      split
      next h => exact absurd (h.symm.trans hvalue) (by simp)
      next h =>
        obtain ⟨rfl, rfl⟩ := List.cons.inj (h.symm.trans hvalue)
        exact if_pos rfl

/-- One turn of the loop: a member is read in each of its texts. -/
theorem scanPairs_member {m : List Char × List Char} {text lead : List Char}
    (h : MemberForm m text) (hlead : '"' ∉ lead) (subject body : Option String) :
    ∃ blank, '"' ∉ blank ∧ ∀ rest, scanPairs subject body (lead ++ (text ++ rest)) =
      if (noted "s" (.ofList m.1) (.ofList m.2) subject).isSome &&
        (noted "b" (.ofList m.1) (.ofList m.2) body).isSome
      then found (noted "s" (.ofList m.1) (.ofList m.2) subject)
        (noted "b" (.ofList m.1) (.ofList m.2) body)
      else scanPairs (noted "s" (.ofList m.1) (.ofList m.2) subject)
        (noted "b" (.ofList m.1) (.ofList m.2) body) (blank ++ rest) := by
  obtain ⟨b₁, b₂, b₃, b₄, name, value, h₁, h₂, h₃, h₄, hname, hvalue, rfl⟩ := h
  obtain ⟨name, rfl, hreadName⟩ := readLenient_stringForm hname
  obtain ⟨value, rfl, hreadValue⟩ := readLenient_stringForm hvalue
  refine ⟨b₄, h₄.notMem (by decide), fun rest => ?_⟩
  have hfront : '"' ∉ lead ++ b₁ := by
    rw [List.mem_append, not_or]
    exact ⟨hlead, h₁.notMem (by decide)⟩
  have hkey := splitOnce_append hfront
    (b := name ++ (b₂ ++ ':' :: (b₃ ++ '"' :: (value ++ (b₄ ++ rest)))))
  have hcolon := splitOnce_append (h₂.notMem (by decide : isWhitespace ':' = false))
    (b := b₃ ++ '"' :: (value ++ (b₄ ++ rest)))
  have hskip : (b₃ ++ '"' :: (value ++ (b₄ ++ rest))).dropWhile isWhitespace =
      '"' :: (value ++ (b₄ ++ rest)) := by
    rw [List.dropWhile_append_of_pos h₃.whitespace, List.dropWhile_cons_of_neg (by decide)]
  have hturn := scanPairs_quoted subject body hkey (by rw [hreadName]; exact hcolon) hskip
  rw [hreadName, hreadValue] at hturn
  rw [← hturn]
  simp only [List.append_assoc, List.cons_append]

/-- The string under a name. -/
def valueOf (name : String) (members : List (List Char × List Char)) : Option String :=
  (members.lookup name.toList).map String.ofList

section Members

variable {name : String} {m : List Char × List Char} {members : List (List Char × List Char)}
  {old : Option String}

theorem noted_of_ne (h : m.1 ≠ name.toList) : noted name (.ofList m.1) (.ofList m.2) old = old := by
  refine if_neg fun heq => h ?_
  rw [← heq, String.toList_ofList]

theorem noted_or (h : old.isSome → name.toList ∉ (m :: members).map Prod.fst) :
    (noted name (.ofList m.1) (.ofList m.2) old).or (valueOf name members) =
      old.or (valueOf name (m :: members)) := by
  obtain ⟨key, value⟩ := m
  by_cases hkey : key = name.toList
  case pos =>
    -- the name is new, so nothing was noted for it
    have hold : old = none := by
      cases hcase : old with
      | none => rfl
      | some v => exact absurd (hkey ▸ List.mem_cons_self) (h (by rw [hcase]; rfl))
    subst hkey
    rw [hold, noted, if_pos String.ofList_toList, Option.none_or, valueOf, valueOf,
      List.lookup_cons_self]
    rfl
  case neg =>
    have hlookup : ((key, value) :: members).lookup name.toList = members.lookup name.toList := by
      rw [List.lookup_cons, beq_false_of_ne (Ne.symm hkey)]
    rw [noted_of_ne hkey, valueOf, valueOf, hlookup]

/-- What is noted is not met again. -/
theorem notMem_of_noted (h : old.isSome → name.toList ∉ (m :: members).map Prod.fst)
    (hkeys : ((m :: members).map Prod.fst).Nodup)
    (hnoted : (noted name (.ofList m.1) (.ofList m.2) old).isSome) :
    name.toList ∉ members.map Prod.fst := by
  by_cases hkey : m.1 = name.toList
  case pos => exact hkey ▸ (List.nodup_cons.1 hkeys).1
  case neg =>
    rw [noted_of_ne hkey] at hnoted
    exact fun hmem => h hnoted (List.mem_cons_of_mem _ hmem)

end Members

theorem scanPairs_members {members : List (List Char × List Char)} {texts : List (List Char)}
    (h : List.Forall₂ MemberForm members texts) (hkeys : (members.map Prod.fst).Nodup)
    {lead tail : List Char} (hlead : '"' ∉ lead) (htail : '"' ∉ tail)
    {subject body : Option String}
    (hsubject : subject.isSome → "s".toList ∉ members.map Prod.fst)
    (hbody : body.isSome → "b".toList ∉ members.map Prod.fst) :
    scanPairs subject body (lead ++ ([','].intercalate texts ++ tail)) =
      found (subject.or (valueOf "s" members)) (body.or (valueOf "b" members)) := by
  induction h generalizing lead subject body with
  | nil =>
      rw [scanPairs_done]
      · simp only [valueOf, List.lookup_nil, Option.map_none, Option.or_none]
      · rw [List.intercalate_nil, List.nil_append, List.mem_append, not_or]
        exact ⟨hlead, htail⟩
  | @cons m text members texts hm _ ih =>
      obtain ⟨blank, hblank, hturn⟩ := scanPairs_member hm hlead subject body
      -- what follows the member, with the comma when there is another one
      obtain ⟨rest, lead', hrest, hlead', hnext⟩ : ∃ rest lead',
          [','].intercalate (text :: texts) ++ tail = text ++ rest ∧ '"' ∉ lead' ∧
            blank ++ rest = lead' ++ ([','].intercalate texts ++ tail) := by
        cases texts with
        | nil =>
            refine ⟨tail, blank, ?_, hblank, ?_⟩
            · rw [List.intercalate_singleton]
            · rw [List.intercalate_nil, List.nil_append]
        | cons next texts =>
            refine ⟨',' :: ([','].intercalate (next :: texts) ++ tail), blank ++ [','], ?_, ?_, ?_⟩
            · rw [List.intercalate_cons_cons, List.append_assoc, List.append_assoc,
                List.singleton_append]
            · rw [List.mem_append, not_or]
              exact ⟨hblank, by decide⟩
            · rw [List.append_assoc, List.singleton_append]
      have hs := notMem_of_noted hsubject hkeys
      have hb := notMem_of_noted hbody hkeys
      rw [hrest, hturn, hnext, ih (List.nodup_cons.1 hkeys).2 hlead' hs hb, noted_or hsubject,
        noted_or hbody]
      split
      next hboth =>
        -- the loop ends with both strings, and no later member changes them
        rw [← noted_or hsubject, ← noted_or hbody]
        rw [Bool.and_eq_true] at hboth
        obtain ⟨s, hs⟩ := Option.isSome_iff_exists.1 hboth.1
        obtain ⟨b, hb⟩ := Option.isSome_iff_exists.1 hboth.2
        rw [hs, hb, Option.some_or, Option.some_or]
      next => rfl

/-- **The scanner reads every valid text of an object of strings.** -/
theorem scanBundlePayload_objectForm {members : List (List Char × List Char)} {text : List Char}
    (h : ObjectForm members text) (hkeys : (members.map Prod.fst).Nodup) :
    scanBundlePayload text = found (valueOf "s" members) (valueOf "b" members) := by
  obtain ⟨b₁, b₂, inner, h₁, h₂, rfl, hinner⟩ := h
  have hopen := splitOnce_append (h₁.notMem (by decide : isWhitespace '\x7b' = false))
    (b := inner ++ '\x7d' :: b₂)
  have htail : '"' ∉ '\x7d' :: b₂ := by
    rw [List.mem_cons, not_or]
    exact ⟨by decide, h₂.notMem (by decide)⟩
  rw [scanBundlePayload, hopen, Option.bind_some]
  rcases hinner with ⟨rfl, hblank⟩ | ⟨_, texts, htexts, rfl⟩
  case inl =>
    rw [scanPairs_done]
    · rfl
    · rw [List.mem_append, not_or]
      exact ⟨hblank.notMem (by decide), htail⟩
  case inr =>
    have hnone : ∀ name : String, (none : Option String).isSome →
        name.toList ∉ members.map Prod.fst := fun _ h => (nomatch h)
    have hread := scanPairs_members htexts hkeys List.not_mem_nil htail (hnone "s") (hnone "b")
    rw [List.nil_append, Option.none_or, Option.none_or] at hread
    exact hread

end Forms

/-! ## Layers -/

section Layers

variable {x : AttachmentCrates} {subject : Option String} {body : String} {s b : String}
  {m : List Json}

theorem peelLayers_stop (h : unwrapSubjectBundleLayer x body = none) (n : Nat)
    (unwrapped : Bool) :
    peelLayers x n subject body unwrapped = (subject, body, unwrapped) := by
  cases n with
  | zero => rfl
  | succ n => rw [peelLayers, h]

theorem peelLayers_unwrapped (n : Nat) (subject : Option String) (body : String) :
    (peelLayers x n subject body true).2.2 = true := by
  induction n generalizing subject body with
  | zero => rfl
  | succ n ih =>
      rw [peelLayers]
      split
      next => rfl
      next => exact ih _ _

/-- A text that is no bundle is left alone. -/
theorem extractSubjectBundle_of_none {text : String}
    (h : unwrapSubjectBundleLayer x text = none) :
    extractSubjectBundle x text = ⟨none, text, false, none⟩ := by
  rw [extractSubjectBundle, peelLayers_stop h]
  rfl

/-- The marker behind a visible character makes no bundle. -/
theorem bundlePayload_of_visible {text : List Char}
    (h : ∀ i, find subjectBundleMarker text = some i →
      ∃ c ∈ text.take i, isBundleFraming c = false) :
    bundlePayload text = none := by
  rw [bundlePayload]
  cases hfind : find subjectBundleMarker text with
  | none => rfl
  | some i =>
      obtain ⟨c, hc, hvisible⟩ := h i hfind
      rw [Option.bind_some]
      dsimp only
      refine if_neg fun hall => ?_
      rw [List.all_eq_true] at hall
      split at hall
      next hlast =>
        -- the delimiter that is cut off is not that character
        have hfront := List.dropLast_append_getLast? subjectBundleDelimiter hlast
        rw [← hfront, List.mem_append, List.mem_singleton] at hc
        rcases hc with hmem | rfl
        · exact absurd (hall c hmem) (by rw [hvisible]; exact Bool.false_ne_true)
        · exact absurd hvisible (by decide)
      next => exact absurd (hall c hc) (by rw [hvisible]; exact Bool.false_ne_true)

theorem bundlePayload_wrap (s b : String) (m : List Json) :
    bundlePayload (wrapSubjectBundle s b m).toList = some (bundleObject s b m) := by
  have hmarker : subjectBundleMarker = 'A' :: "STER_BUNDLE_V2".toList := by decide
  have hfind : find subjectBundleMarker (subjectBundleDelimiter :: (subjectBundleMarker ++
      subjectBundleDelimiter :: bundleObject s b m)) = some 1 := by
    have h := @find_append _ _ _ 'A' "STER_BUNDLE_V2".toList [subjectBundleDelimiter]
      (subjectBundleDelimiter :: bundleObject s b m) (by decide)
    rw [← hmarker] at h
    exact h
  rw [wrapSubjectBundle, String.toList_ofList, bundlePayload, hfind, Option.bind_some]
  have hdrop : (subjectBundleDelimiter :: (subjectBundleMarker ++
      subjectBundleDelimiter :: bundleObject s b m)).drop (1 + subjectBundleMarker.length) =
        subjectBundleDelimiter :: bundleObject s b m := by
    rw [Nat.add_comm, List.drop_succ_cons, List.drop_left]
  dsimp only
  rw [hdrop]
  rfl

/-- The JSON reader gives the three members of the object back. -/
def ReadsBack (x : AttachmentCrates) (s b : String) (m : List Json) : Prop :=
  ∃ j, x.fromStr (String.ofList (bundleObject s b m)) = some j ∧
    j.get? "s" = some (.string s) ∧ j.get? "b" = some (.string b) ∧
    j.get? attachmentManifestField = some (.array m)

theorem unwrapSubjectBundleLayer_wrap (h : ReadsBack x s b m) :
    unwrapSubjectBundleLayer x (wrapSubjectBundle s b m) = some (some s, b) := by
  obtain ⟨j, hread, hs, hb, _⟩ := h
  have hpair : strictPair j = some (some s, b) := by
    rw [strictPair, hs, hb]
    rfl
  rw [unwrapSubjectBundleLayer, bundlePayload_wrap, Option.bind_some, hread, Option.bind_some,
    hpair]
  rfl

theorem bundleAttachmentManifest_wrap (h : ReadsBack x s b m) :
    bundleAttachmentManifest x (bundleObject s b m) = if m = [] then none else some m := by
  obtain ⟨j, hread, _, _, hm⟩ := h
  rw [bundleAttachmentManifest, hread, Option.bind_some, hm]

/-- What was wrapped comes off in the first turn; the other turns see the body. -/
theorem extractSubjectBundle_wrap (h : ReadsBack x s b m) :
    extractSubjectBundle x (wrapSubjectBundle s b m) =
      ⟨some ((peelLayers x 7 (some s) b true).1.getD ""), (peelLayers x 7 (some s) b true).2.1,
        false, if m = [] then none else some m⟩ := by
  have hlayers : peelLayers x maxSubjectBundleDepth none (wrapSubjectBundle s b m) false =
      peelLayers x 7 (some s) b true := by
    rw [maxSubjectBundleDepth, peelLayers, unwrapSubjectBundleLayer_wrap h]
    rfl
  have hunwrapped := @peelLayers_unwrapped x 7 (some s) b
  rw [extractSubjectBundle, hlayers, bundlePayload_wrap, Option.bind_some,
    bundleAttachmentManifest_wrap h]
  dsimp only
  rw [hunwrapped]
  rfl

theorem extractSubjectBundle_wrap_plain (h : ReadsBack x s b m)
    (hbody : unwrapSubjectBundleLayer x b = none) :
    extractSubjectBundle x (wrapSubjectBundle s b m) =
      ⟨some s, b, false, if m = [] then none else some m⟩ := by
  rw [extractSubjectBundle_wrap h, peelLayers_stop hbody]
  rfl

end Layers

/-- **Subject bundles.** A bundle that the JSON reader gives back has the manifest it was made
with. Its subject and its body are those it was made with, when the body is not a bundle itself; a
body that is one is unwrapped for up to seven more layers. So a sent payload has its body back. A
text without the marker, or with a visible character before it, is left alone; and the scanner
reads every valid text of an object of strings. -/
theorem subject_bundles_round_trip (x : AttachmentCrates) :
    (∀ subject body manifest, ReadsBack x subject body manifest →
      (extractSubjectBundle x (wrapSubjectBundle subject body manifest)).attachmentManifest =
        (if manifest = [] then none else some manifest) ∧
      ((extractSubjectBundle x (wrapSubjectBundle subject body manifest)).subject,
        (extractSubjectBundle x (wrapSubjectBundle subject body manifest)).body) =
        (some ((peelLayers x 7 (some subject) body true).1.getD ""),
          (peelLayers x 7 (some subject) body true).2.1) ∧
      (unwrapSubjectBundleLayer x body = none →
        (extractSubjectBundle x (wrapSubjectBundle subject body manifest)).subject =
          some subject ∧
        (extractSubjectBundle x (wrapSubjectBundle subject body manifest)).body = body)) ∧
    (∀ payload, unwrapSubjectBundleLayer x (payloadText payload "body") = none →
      (sendAttachmentManifest x payload ≠ [] →
        ReadsBack x (payloadText payload "subject") (payloadText payload "body")
          (sendAttachmentManifest x payload)) →
      (extractSubjectBundle x (sealedPlaintext x payload)).body = payloadText payload "body") ∧
    (∀ text : String, (∀ i, find subjectBundleMarker text.toList = some i →
        ∃ c ∈ text.toList.take i, isBundleFraming c = false) →
      extractSubjectBundle x text = ⟨none, text, false, none⟩) ∧
    ∀ members text, JsonForms.ObjectForm members text → (members.map Prod.fst).Nodup →
      scanBundlePayload text = found (valueOf "s" members) (valueOf "b" members) := by
  refine ⟨?_, ?_, ?_, ?_⟩
  · intro subject body manifest hread
    have hextract := extractSubjectBundle_wrap hread
    refine ⟨?_, ?_, fun hbody => ?_⟩
    · rw [hextract]
    · rw [hextract]
    · rw [extractSubjectBundle_wrap_plain hread hbody]
      exact ⟨rfl, rfl⟩
  · intro payload hbody hread
    unfold sealedPlaintext
    dsimp only
    split
    next => rw [extractSubjectBundle_of_none hbody]
    next hmanifest =>
      have hne : sendAttachmentManifest x payload ≠ [] := by
        intro hnil
        exact hmanifest (by rw [hnil]; rfl)
      rw [extractSubjectBundle_wrap_plain (hread hne) hbody]
  · intro text hvisible
    apply extractSubjectBundle_of_none
    rw [unwrapSubjectBundleLayer, bundlePayload_of_visible hvisible]
    rfl
  · intro members text hform hkeys
    exact scanBundlePayload_objectForm hform hkeys

/-- The object is JSON as it is written. -/
theorem bundleObject_eq (s b : String) (m : List Json) :
    bundleObject s b m = JsonText.write
      (.object [("s", .string s), ("b", .string b), (attachmentManifestField, .array m)]) := by
  rfl

/-- A reader for integers and objects gives a plain manifest back. -/
theorem readsBack_of_plain {x : AttachmentCrates} (hx : x.fromStr = fun s => JsonText.read s.toList)
    (s b : String) {m : List Json} (hm : ∀ j ∈ m, JsonText.Plain j) : ReadsBack x s b m := by
  have hplain : JsonText.Plain
      (.object [("s", .string s), ("b", .string b), (attachmentManifestField, .array m)]) := by
    have hnames : ["s", "b", attachmentManifestField].Nodup := by decide
    refine .object hnames ?_
    intro member hmember
    fin_cases hmember
    · exact .string s
    · exact .string b
    · exact .array hm
  refine ⟨.object [("s", .string s), ("b", .string b), (attachmentManifestField, .array m)], ?_,
    rfl, rfl, rfl⟩
  rw [hx, bundleObject_eq]
  dsimp only
  rw [String.toList_ofList, JsonText.read_write hplain]

/-- Crates that read JSON and open nothing. -/
def readerCrates : AttachmentCrates where
  decode _ := .error "invalid"
  decryptGcm _ _ _ _ := none
  fromSlice _ := none
  fromStr s := JsonText.read s.toList
  sha256 _ := Vector.replicate 32 0
  decryptOwnPgp _ := none
  decryptPbkdf2Envelope _ := none

/-- A body that is a bundle does not come back: its own body does. -/
theorem wrapped_bundle_is_unwrapped :
    (extractSubjectBundle readerCrates
      (wrapSubjectBundle "out" (wrapSubjectBundle "in" "x" []) [])).body ≠
        wrapSubjectBundle "in" "x" [] := by
  have hempty : ∀ j ∈ ([] : List Json), JsonText.Plain j := fun j h => (nomatch h)
  have hinner := unwrapSubjectBundleLayer_wrap
    (readsBack_of_plain (x := readerCrates) rfl "in" "x" hempty)
  have hplain : unwrapSubjectBundleLayer readerCrates "x" = none := by
    rw [unwrapSubjectBundleLayer, bundlePayload_of_visible]
    · rfl
    · intro i h
      have hnone : find subjectBundleMarker "x".toList = none := by decide
      exact absurd (hnone.symm.trans h) (by simp)
  rw [extractSubjectBundle_wrap (readsBack_of_plain rfl _ _ hempty), peelLayers,
    hinner]
  dsimp only
  rw [peelLayers_stop hplain]
  decide

end AsterBridge.Crypto.Bundles
