import AsterBridge.Db.Cache
import AsterBridge.Render.Headers

/-!
# Rendering a message

`render_with` of `message_render.rs` with its writer `Out`, which makes the text of a message
or only counts its bytes.
-/

set_option autoImplicit false

namespace AsterBridge.Render

open AsterBridge.Lib AsterBridge.Lib.Text AsterBridge.Lib.Lines

/-! ## The writer -/

/-- `BASE64_LINE` -/
def base64Line : Nat := 76

/-- `base64_encoded_len` -/
def base64EncodedLen (rawLen : Nat) : Nat :=
  if rawLen = 0 then 0
  else
    let b64 := (rawLen + 2) / 3 * 4
    b64 + (b64 + (base64Line - 1)) / base64Line * 2

/-- `to_crlf` -/
def toCrlf : List Char → List Char
  | '\r' :: '\n' :: rest => '\r' :: '\n' :: toCrlf rest
  | '\r' :: rest => '\r' :: '\n' :: toCrlf rest
  | '\n' :: rest => '\r' :: '\n' :: toCrlf rest
  | c :: rest => c :: toCrlf rest
  | [] => []

theorem toCrlf_cons_of_plain {s : List Char} {c : Char} (h : c ≠ '\r' ∧ c ≠ '\n') :
    toCrlf (c :: s) = c :: toCrlf s := by
  rw [toCrlf]
  · exact fun _ hc => absurd hc h.1
  · exact h.1
  · exact h.2

theorem toCrlf_cr {s : List Char} (h : s.head? ≠ some '\n') :
    toCrlf ('\r' :: s) = '\r' :: '\n' :: toCrlf s := by
  cases s with
  | nil => rfl
  | cons d s =>
      rw [toCrlf]
      intro rest hrest
      exact h (by rw [hrest]; rfl)

theorem toCrlf_last (s : List Char) : (toCrlf s).getLast? ≠ some '\r' := by
  fun_induction toCrlf s with
  | case1 rest ih =>
      cases hrest : toCrlf rest with
      | nil => simp
      | cons d ds => rwa [hrest, ← List.getLast?_cons_cons, ← List.getLast?_cons_cons] at ih
  | case2 rest hrest ih =>
      cases hrest : toCrlf rest with
      | nil => simp
      | cons d ds => rwa [hrest, ← List.getLast?_cons_cons, ← List.getLast?_cons_cons] at ih
  | case3 rest ih =>
      cases hrest : toCrlf rest with
      | nil => simp
      | cons d ds => rwa [hrest, ← List.getLast?_cons_cons, ← List.getLast?_cons_cons] at ih
  | case4 c rest hcrlf hcr hlf ih =>
      cases hrest : toCrlf rest with
      | nil => simpa using hcr
      | cons d ds => rwa [hrest, ← List.getLast?_cons_cons] at ih
  | case5 => simp

/-- `Out` -/
structure Out where
  buf : List Char
  len : Nat
  materialize : Bool
  attachmentData : Bool
  onDemand : Bool
  gap : Option Nat

/-- The loop of `push_base64`: lines of `BASE64_LINE` characters. -/
def base64Lines (encoded : List Char) : List Char :=
  if h : encoded = [] then []
  else encoded.take base64Line ++ crlf ++ base64Lines (encoded.drop base64Line)
termination_by encoded.length
decreasing_by
  have hpos := List.length_pos_iff.2 h
  rw [List.length_drop]
  exact Nat.sub_lt hpos (by decide)

namespace Out

/-- `push` -/
def push (o : Out) (s : List Char) : Out :=
  { o with
    buf := if o.materialize ∧ o.gap = none then o.buf ++ s else o.buf
    len := o.len + utf8Len s }

/-- `push_base64` -/
def pushBase64 (x : RenderCrates) (o : Out) (data : Bytes) (sizeHint : Nat) : Out :=
  if o.materialize ∧ (!o.attachmentData ∨ (o.onDemand ∧ data = [])) then
    { o with gap := some (o.gap.getD o.len), len := o.len + base64EncodedLen sizeHint }
  else if o.materialize ∧ o.gap = none then
    let lines := base64Lines (x.base64 data)
    { o with buf := o.buf ++ lines, len := o.len + utf8Len lines }
  else { o with len := o.len + base64EncodedLen sizeHint }

end Out

/-- `RenderedPart` -/
structure RenderedPart where
  section_ : List Char
  headerStart : Nat
  headerEnd : Nat
  bodyStart : Nat
  bodyEnd : Nat

/-- `Rendered` -/
structure Rendered where
  text : List Char
  size : Nat
  headerEnd : Nat
  parts : List RenderedPart
  bodystructure : List Char
  missingFrom : Option Nat

/-- `TextPart` -/
structure TextPart where
  body : Option (List Char)
  bodyLenHint : Nat
  suffix : List Char
  isHtml : Bool

namespace TextPart

/-- `write` -/
def write (t : TextPart) (o : Out) : Out :=
  let o := match t.body with
    | some b =>
        if o.materialize then o.push (toCrlf b)
        else { o with len := o.len + Db.crlfNormalizedLen (String.ofList b) }
    | none => { o with len := o.len + t.bodyLenHint }
  o.push t.suffix

/-- `structure` -/
def structureText (t : TextPart) (text : List Char) : List Char :=
  "(\"TEXT\" \"".toList ++ (if t.isHtml then "HTML" else "PLAIN").toList ++
    "\" (\"CHARSET\" \"UTF-8\") NIL NIL \"8BIT\" ".toList ++ (toString (utf8Len text)).toList ++
    ' ' :: (toString (text.count '\n')).toList ++ [')']

end TextPart

/-- `Child` -/
inductive Child where
  | text (header : List Char)
  | attachment (a : CachedAttachment) (inline : Bool)
  | related (boundary : List Char) (children : List Child)

/-- `Ctx` without the text part. -/
structure Ctx where
  out : Out
  parts : List RenderedPart

namespace Ctx

variable (x : RenderCrates) (t : TextPart)

/-- The entry of a part in `parts`. -/
def note (c : Ctx) (section_ : List Char) (headerStart headerEnd : Nat) : Ctx :=
  { c with parts := c.parts ++ [⟨section_, headerStart, headerEnd, headerEnd, c.out.len⟩] }

/-- The text between two offsets in bytes. -/
def slice (c : Ctx) (start stop : Nat) : List Char :=
  Utf8.fromUtf8Lossy (((Utf8.encode (String.ofList c.out.buf)).take stop).drop start)

/-- `write_text_part`; the structure comes with the context. -/
def writeTextPart (c : Ctx) (section_ header : List Char) : Ctx × List Char :=
  let headerStart := c.out.len
  let c := { c with out := c.out.push header }
  let headerEnd := c.out.len
  let c := { c with out := t.write c.out }
  (c.note section_ headerStart headerEnd,
    if c.out.materialize then t.structureText (c.slice headerEnd c.out.len) else [])

/-- `write_attachment` -/
def writeAttachment (c : Ctx) (section_ : List Char) (a : CachedAttachment) (inline : Bool) :
    Ctx × List Char :=
  let headerStart := c.out.len
  let c := { c with out := c.out.push (attachmentHeaders x a inline) }
  let headerEnd := c.out.len
  let c := { c with out := c.out.pushBase64 x a.data (attachmentRawSize a) }
  (c.note section_ headerStart headerEnd, attachmentStructure a inline (c.out.len - headerEnd))

/-- The section of a child. -/
def childSection (section_ : List Char) (idx : Nat) : List Char :=
  if section_ = [] then (toString (idx + 1)).toList
  else section_ ++ '.' :: (toString (idx + 1)).toList

/-- The line before a part. -/
def boundaryLine (boundary : List Char) : List Char := "--".toList ++ boundary ++ crlf

/-- The line after the last part. -/
def closingLine (boundary : List Char) : List Char := "--".toList ++ boundary ++ "--".toList ++ crlf

/-- The end of `write_multipart`. -/
def closeMultipart (c : Ctx) (section_ : List Char) (subtype : String) (boundary : List Char)
    (headerStart headerEnd : Nat) (structures : List (List Char)) : Ctx × List Char :=
  let c := { c with out := c.out.push (closingLine boundary) }
  (if section_ = [] then c else c.note section_ headerStart headerEnd,
    '(' :: structures.flatten ++ " \"".toList ++ subtype.toList ++ "\" (\"BOUNDARY\" \"".toList ++
      boundary ++ "\") NIL NIL)".toList)

/-- The header of the related part. -/
def relatedHeader (boundary : List Char) : List Char :=
  "Content-Type: multipart/related; boundary=\"".toList ++ boundary ++ ['"'] ++ crlf ++ crlf

mutual

/-- A child of `write_multipart` after its boundary line; a related part is
`write_multipart` again. -/
def writeChild (c : Ctx) (section_ : List Char) : Child → Ctx × List Char
  | .text header => c.writeTextPart t section_ header
  | .attachment a inline => c.writeAttachment x section_ a inline
  | .related boundary children =>
      let headerStart := c.out.len
      let c := { c with out := c.out.push (relatedHeader boundary) }
      let headerEnd := c.out.len
      let (c, structures) := writeChildren c section_ boundary 0 children
      c.closeMultipart section_ "RELATED" boundary headerStart headerEnd structures

/-- The loop of `write_multipart`. -/
def writeChildren (c : Ctx) (section_ boundary : List Char) (idx : Nat) :
    List Child → Ctx × List (List Char)
  | [] => (c, [])
  | child :: rest =>
      let c := { c with out := c.out.push (boundaryLine boundary) }
      let (c, structure_) := writeChild c (childSection section_ idx) child
      let c := { c with out := c.out.push crlf }
      let (c, structures) := writeChildren c section_ boundary (idx + 1) rest
      (c, structure_ :: structures)

end

/-- `write_multipart` -/
def writeMultipart (c : Ctx) (section_ : List Char) (subtype : String) (boundary header : List Char)
    (children : List Child) : Ctx × List Char :=
  let headerStart := c.out.len
  let c := { c with out := c.out.push header }
  let headerEnd := c.out.len
  let (c, structures) := c.writeChildren x t section_ boundary 0 children
  c.closeMultipart section_ subtype boundary headerStart headerEnd structures

end Ctx

/-! ## Messages -/

/-- The attachment is shown inside an HTML text. -/
def goesInline (isHtml : Bool) (a : CachedAttachment) : Bool :=
  isHtml && a.isInline && a.contentId.any fun c => trim c.toList ≠ []

/-- The headers of a text part. -/
def textHeader (isHtml : Bool) : List Char :=
  textContentType isHtml ++ headerLine "Content-Transfer-Encoding" "8bit".toList ++ crlf

/-- The last header of a message with attachments. -/
def multipartHeader (subtype : String) (boundary : List Char) : List Char :=
  "Content-Type: multipart/".toList ++ subtype.toList ++ "; boundary=\"".toList ++ boundary ++
    ['"'] ++ crlf ++ crlf

/-- The subtype and the children of the outer part. -/
def outerParts (x : RenderCrates) (asterId : String) (isHtml : Bool)
    (attachments : List CachedAttachment) : String × List Child :=
  let text := Child.text (textHeader isHtml)
  let inline := attachments.filter (goesInline isHtml)
  let regular := attachments.filter fun a => !goesInline isHtml a
  if inline = [] then ("mixed", text :: regular.map (.attachment · false))
  else if regular = [] then ("related", text :: inline.map (.attachment · true))
  else
    ("mixed", .related (boundaryFor x asterId 1) (text :: inline.map (.attachment · true)) ::
      regular.map (.attachment · false))

/-- `render_with` -/
def renderWith (x : RenderCrates) (msg : StoredMessage) (attachments : List CachedAttachment)
    (materialize attachmentData : Bool) : Rendered :=
  let metadata := metadataOf x msg
  let bodyPresent := msg.bodyText.map String.toList
  let isHtml := detectHtml metadata (bodyPresent.getD [])
  let note := attachmentStatusNote x msg
  let text : TextPart :=
    { body := if materialize then some (bodyPresent.getD []) else bodyPresent
      bodyLenHint := msg.size.toNat
      suffix := trustNoteSuffix metadata isHtml ++ noteSuffix note isHtml
      isHtml }
  let ctx : Ctx :=
    { out :=
        { buf := [], len := 0, materialize, attachmentData
          onDemand := msg.attachmentsState = .onDemand, gap := none }
      parts := [] }
  let top := topHeaders x msg metadata
  let (top, ctx, bodystructure) :=
    if attachments = [] then
      let top := top ++ textHeader isHtml
      (top, ctx.writeTextPart text ['1'] top)
    else
      let boundary := boundaryFor x msg.asterId 0
      let (subtype, children) := outerParts x msg.asterId isHtml attachments
      let top := top ++ multipartHeader subtype boundary
      (top, ctx.writeMultipart x text [] subtype.toUpper boundary top children)
  { text := ctx.out.buf
    size := ctx.out.len
    headerEnd := utf8Len top
    parts := ctx.parts
    bodystructure
    missingFrom := ctx.out.gap }

/-- `render_text` -/
def renderText (x : RenderCrates) (msg : StoredMessage) (attachments : List CachedAttachment) :
    List Char :=
  (renderWith x msg attachments true true).text

/-- `rendered_size` -/
def renderedSize (x : RenderCrates) (msg : StoredMessage) (attachments : List CachedAttachment) :
    Nat :=
  (renderWith x msg attachments false true).size

end AsterBridge.Render
