import AsterBridge.Lib.Unicode
import AsterBridge.Render.LineBreaks

/-!
# Clean headers and sizes

Everything that `render_with` writes around a body and a status note is clean, and what the
writer counts is the length of what it writes.
-/

set_option autoImplicit false

namespace AsterBridge.Render

open AsterBridge.Lib AsterBridge.Lib.Text AsterBridge.Lib.Lines AsterBridge.Address

/-! ## Texts without a break -/

section NoBreak

variable {s : List Char} {c : Char}

theorem noBreak_of_isControl (h : ∀ c ∈ s, isControl c = false) : NoBreak s := by
  intro c hc
  have hcontrol := h c hc
  constructor
  · rintro rfl
    exact absurd hcontrol (by decide)
  · rintro rfl
    exact absurd hcontrol (by decide)

theorem noBreak_of_alphanum (h : c.isAlphanum = true) : c ≠ '\r' ∧ c ≠ '\n' := by
  constructor
  · rintro rfl
    exact absurd h (by decide)
  · rintro rfl
    exact absurd h (by decide)

theorem noBreak_sanitizeHeader (s : List Char) : NoBreak (sanitizeHeader s) := by
  intro c hc
  have hbreak := (List.mem_filter.1 hc).2
  constructor
  · rintro rfl
    exact absurd hbreak (by decide)
  · rintro rfl
    exact absurd hbreak (by decide)

theorem noBreak_safeFilename (name : String) : NoBreak (safeFilename name) := by
  unfold safeFilename
  dsimp only
  split
  · decide
  · apply NoBreak.mono _ fun c hc => mem_trim (List.mem_of_mem_take hc)
    intro c hc
    obtain ⟨d, hd, rfl⟩ := List.mem_map.1 hc
    have hplain := noBreak_of_isControl (s := name.toList.filter fun c => !isControl c)
      (fun c hc => by simpa using (List.mem_filter.1 hc).2) d hd
    split
    · decide
    · split
      · decide
      · exact hplain

theorem noBreak_hexDigits (upper : Bool) (b : UInt8) : NoBreak (hexDigits upper b) := by
  have hdigit : ∀ upper : Bool, ∀ n < 16,
      let c := Char.ofNat (if n < 10 then n + 48 else n + (if upper then 55 else 87))
      c ≠ '\r' ∧ c ≠ '\n' := by decide
  have hlow : b.toNat % 16 < 16 := Nat.mod_lt _ (by decide)
  have hhigh : b.toNat / 16 < 16 := Nat.div_lt_of_lt_mul b.toNat_lt
  intro c hc
  rcases List.mem_cons.1 hc with rfl | hc
  · exact hdigit upper _ hhigh
  · rw [List.mem_singleton.1 hc]
    exact hdigit upper _ hlow

theorem noBreak_percentEncode (s : List Char) : NoBreak (percentEncode s) := by
  apply NoBreak.flatMap
  intro b _
  dsimp only
  split
  · rename_i h
    apply NoBreak.cons _ noBreak_nil
    rcases h.2 with hc | hc | hc | hc
    · exact noBreak_of_alphanum hc
    · rw [hc]
      decide
    · rw [hc]
      decide
    · rw [hc]
      decide
  · exact (noBreak_hexDigits true b).cons (by decide)

theorem noBreak_base64 (x : RenderCrates) (data : Bytes) : NoBreak (x.base64 data) := by
  intro c hc
  have hbase := x.base64_chars data c hc
  constructor
  · rintro rfl
    exact absurd hbase (by decide)
  · rintro rfl
    exact absurd hbase (by decide)

theorem noBreak_headerNameParams (x : RenderCrates) (name : String) :
    NoBreak (headerNameParams x name).1 ∧ NoBreak (headerNameParams x name).2 := by
  have hsafe := noBreak_safeFilename name
  have hword := noBreak_base64 x (Utf8.encode (String.ofList (safeFilename name)))
  unfold headerNameParams
  dsimp only
  split
  · constructor
    · exact (NoBreak.append (by decide) hsafe).append (by decide)
    · exact (NoBreak.append (by decide) hsafe).append (by decide)
  · have hwrapped := (NoBreak.append (by decide : NoBreak "=?UTF-8?B?".toList) hword).append
      (by decide : NoBreak "?=".toList)
    constructor
    · exact (NoBreak.append (by decide) hwrapped).append (by decide)
    · exact ((NoBreak.append (by decide) hwrapped).append (by decide)).append
        (noBreak_percentEncode _)

theorem noBreak_cleanContentId (cid : String) : NoBreak (cleanContentId cid) := by
  apply (noBreak_sanitizeHeader cid.toList).mono
  intro c hc
  apply mem_trim
  apply (List.dropWhile_suffix _).subset
  exact (List.rdropWhile_prefix _ _).subset hc

theorem toLower_ne_break (h : c ≠ '\r' ∧ c ≠ '\n') : c.toLower ≠ '\r' ∧ c.toLower ≠ '\n' := by
  constructor
  · intro hcr
    rcases Unicode.eq_or_isAlpha_of_toLower_eq (d := '\r') hcr with heq | ⟨_, _, _, halpha⟩
    · exact h.1 heq
    · exact absurd halpha (by decide)
  · intro hlf
    rcases Unicode.eq_or_isAlpha_of_toLower_eq (d := '\n') hlf with heq | ⟨_, _, _, halpha⟩
    · exact h.2 heq
    · exact absurd halpha (by decide)

theorem noBreak_cleanContentType (ct : String) : NoBreak (cleanContentType ct) := by
  have hmain : NoBreak (mainType ct) := (noBreak_sanitizeHeader ct.toList).mono fun c hc =>
    (List.takeWhile_prefix _).subset (mem_trim hc)
  unfold cleanContentType
  split
  · intro c hc
    obtain ⟨d, hd, rfl⟩ := List.mem_map.1 hc
    exact toLower_ne_break (hmain d hd)
  · decide

theorem noBreak_boundaryFor (x : RenderCrates) (asterId : String) (level : Nat) :
    NoBreak (boundaryFor x asterId level) := by
  apply (NoBreak.append (by decide) (NoBreak.flatMap fun b _ => noBreak_hexDigits false b)).append
  exact (noBreak_toString level).cons (by decide)

end NoBreak

/-! ## Clean texts -/

section Clean

variable {s value : List Char}

theorem clean_headerLine {name : String} (hname : NoBreak name.toList) (hvalue : NoBreak value) :
    Clean (headerLine name value) := by
  have hline := ((hname.append (by decide : NoBreak ": ".toList)).append hvalue)
  exact (clean_of_noBreak hline).append clean_crlf

theorem clean_optionalHeader {label : String} (hlabel : NoBreak label.toList)
    {value : Option (List Char)} (hvalue : ∀ v, value = some v → NoBreak v) :
    Clean (optionalHeader label value) := by
  cases value with
  | none => exact clean_nil
  | some v => exact clean_headerLine hlabel (hvalue v rfl)

theorem noBreak_metadataText {metadata : Json} {key : String} {value : List Char}
    (h : metadataText metadata key = some value) : NoBreak value := by
  obtain ⟨hmap, _⟩ := Option.filter_eq_some_iff.1 h
  obtain ⟨s, _, rfl⟩ := Option.map_eq_some_iff.1 hmap
  exact noBreak_sanitizeHeader s.toList

theorem clean_messageIdHeader (metadata : Json) (asterId : String) :
    Clean (messageIdHeader metadata asterId) := by
  unfold messageIdHeader
  split
  · rename_i mid hmid
    have hplain := noBreak_metadataText hmid
    split
    · exact clean_headerLine (by decide) hplain
    · exact clean_headerLine (by decide) ((hplain.cons (by decide)).append (by decide))
  · exact clean_headerLine (by decide)
      (((noBreak_sanitizeHeader _).cons (by decide)).append (by decide))

theorem clean_referenceHeader (metadata : Json) {key label : String} (h : NoBreak label.toList) :
    Clean (referenceHeader metadata key label) := by
  unfold referenceHeader
  split
  · rename_i value hvalue
    exact clean_headerLine h (noBreak_metadataText hvalue)
  · exact clean_nil

theorem clean_topHeaders (x : RenderCrates) (msg : StoredMessage) (metadata : Json) :
    Clean (topHeaders x msg metadata) := by
  have haddress : ∀ key v, (metaAddressText metadata key).map sanitizeHeader = some v →
      NoBreak v := by
    intro key v hv
    obtain ⟨s, _, rfl⟩ := Option.map_eq_some_iff.1 hv
    exact noBreak_sanitizeHeader s
  have hto : ∀ v, (if sanitizeHeader (msg.recipients.getD "").toList = [] then none
      else some (sanitizeHeader (msg.recipients.getD "").toList)) = some v → NoBreak v := by
    intro v hv
    split at hv
    · exact absurd hv (by simp)
    · exact Option.some.inj hv ▸ noBreak_sanitizeHeader _
  have hvalue := fun s name (hname : NoBreak (String.toList name)) =>
    clean_headerLine hname (noBreak_sanitizeHeader s)
  unfold topHeaders
  apply Clean.append _ (clean_headerLine (by decide) (by decide))
  apply Clean.append _ (clean_referenceHeader metadata (by decide))
  apply Clean.append _ (clean_referenceHeader metadata (by decide))
  apply Clean.append _ (clean_messageIdHeader metadata msg.asterId)
  apply Clean.append _ (hvalue _ _ (by decide))
  apply Clean.append _ (clean_optionalHeader (by decide) (haddress "reply_to"))
  apply Clean.append _ (clean_optionalHeader (by decide) (haddress "bcc"))
  apply Clean.append _ (clean_optionalHeader (by decide) (haddress "cc"))
  apply Clean.append _ (clean_optionalHeader (by decide) hto)
  exact (hvalue _ _ (by decide)).append (hvalue _ _ (by decide))

theorem clean_textContentType (isHtml : Bool) : Clean (textContentType isHtml) := by
  cases isHtml
  · exact clean_headerLine (by decide) (by decide)
  · exact clean_headerLine (by decide) (by decide)

theorem clean_transferEncoding : Clean (headerLine "Content-Transfer-Encoding" "8bit".toList) :=
  clean_headerLine (by decide) (by decide)

theorem noBreak_contentIdValue {contentId : Option String} {v : List Char}
    (h : ((contentId.map cleanContentId).filter (· ≠ [])).map (fun cid => '<' :: cid ++ ['>']) =
      some v) : NoBreak v := by
  obtain ⟨cid, hcid, rfl⟩ := Option.map_eq_some_iff.1 h
  obtain ⟨hmap, _⟩ := Option.filter_eq_some_iff.1 hcid
  obtain ⟨s, _, rfl⟩ := Option.map_eq_some_iff.1 hmap
  exact ((noBreak_cleanContentId s).cons (by decide)).append (by decide)

theorem clean_attachmentHeaders (x : RenderCrates) (a : CachedAttachment) (inline : Bool) :
    Clean (attachmentHeaders x a inline) := by
  obtain ⟨hname, hfilename⟩ := noBreak_headerNameParams x a.name
  have hkind : NoBreak (if inline then "inline" else "attachment").toList := by
    cases inline
    · decide
    · decide
  unfold attachmentHeaders
  dsimp only
  apply Clean.append _ clean_crlf
  apply Clean.append _ (clean_optionalHeader (by decide) fun v => noBreak_contentIdValue)
  apply Clean.append
  · apply Clean.append
    · apply clean_headerLine (by decide)
      exact ((noBreak_cleanContentType _).append (by decide)).append hname
    · exact clean_headerLine (by decide) (by decide)
  · apply clean_headerLine (by decide)
    apply NoBreak.append _ (noBreak_toString _)
    exact ((hkind.append (by decide)).append hfilename).append (by decide)

end Clean

/-! ## Base64 lines -/

section Base64

variable {encoded : List Char}

theorem clean_base64Lines (h : NoBreak encoded) : Clean (base64Lines encoded) := by
  fun_induction base64Lines encoded with
  | case1 => exact clean_nil
  | case2 encoded hne ih =>
      have htake : NoBreak (encoded.take base64Line) := h.mono fun _ => List.mem_of_mem_take
      have hdrop : NoBreak (encoded.drop base64Line) := h.mono fun _ => List.mem_of_mem_drop
      exact ((clean_of_noBreak htake).append clean_crlf).append (ih hdrop)

/-- A CRLF for each line that is begun. -/
theorem utf8Len_base64Lines (h : ∀ c ∈ encoded, c.toNat < 0x80) :
    utf8Len (base64Lines encoded) =
      encoded.length + (encoded.length + (base64Line - 1)) / base64Line * 2 := by
  fun_induction base64Lines encoded with
  | case1 => rfl
  | case2 encoded hne ih =>
      have hpos := List.length_pos_iff.2 hne
      have htake := utf8Len_of_ascii (s := encoded.take base64Line)
        fun c hc => h c (List.mem_of_mem_take hc)
      have hcrlf : utf8Len crlf = 2 := rfl
      rw [utf8Len_append, utf8Len_append, htake, hcrlf,
        ih fun c hc => h c (List.mem_of_mem_drop hc), List.length_take, List.length_drop, base64Line]
      omega

theorem base64EncodedLen_eq (n : Nat) : base64EncodedLen n =
    (n + 2) / 3 * 4 + ((n + 2) / 3 * 4 + (base64Line - 1)) / base64Line * 2 := by
  unfold base64EncodedLen
  split
  · rename_i hzero
    rw [hzero, base64Line]
  · rfl

theorem toNat_lt_of_isBase64 {c : Char} (h : isBase64 c = true) : c.toNat < 0x80 := by
  simp only [isBase64, Bool.or_eq_true, beq_iff_eq] at h
  rcases h with ((halpha | rfl) | rfl) | rfl
  · simp only [Char.isAlphanum, Unicode.isAlpha_eq, Unicode.isUpper_eq, Unicode.isLower_eq,
      Char.isDigit, Bool.or_eq_true, Bool.and_eq_true, decide_eq_true_eq] at halpha
    rcases halpha with (hupper | hlower) | hdigit
    · exact Nat.lt_of_le_of_lt (UInt32.le_iff_toNat_le.1 hupper.2) (by decide)
    · exact Nat.lt_of_le_of_lt (UInt32.le_iff_toNat_le.1 hlower.2) (by decide)
    · exact Nat.lt_of_le_of_lt (UInt32.le_iff_toNat_le.1 hdigit.2) (by decide)
  · decide
  · decide
  · decide

/-- `base64_encoded_len` is the length of what `push_base64` writes. -/
theorem utf8Len_base64 (x : RenderCrates) (data : Bytes) :
    utf8Len (base64Lines (x.base64 data)) = base64EncodedLen data.length := by
  rw [utf8Len_base64Lines fun c hc => toNat_lt_of_isBase64 (x.base64_chars data c hc),
    x.base64_length, base64EncodedLen_eq]

end Base64

/-! ## The writer -/

/-- A writer that makes the text has all of it so far, clean, and has counted it. -/
def Out.Exact (o : Out) : Prop :=
  o.materialize = true → (o.attachmentData = true ∧ o.onDemand = false ∧ o.gap = none) ∧
    Clean o.buf ∧ o.len = utf8Len o.buf

/-- From `o`, the writer has come to `o'` over `n` bytes. -/
structure Writes (o o' : Out) (n : Nat) : Prop where
  materialize : o'.materialize = o.materialize
  exact : o'.Exact
  len : o'.len = o.len + n

section Writer

variable {o o' o'' : Out} {n n' : Nat} {s : List Char}

theorem Writes.refl (h : o.Exact) : Writes o o 0 := ⟨rfl, h, rfl⟩

theorem Writes.trans (h : Writes o o' n) (h' : Writes o' o'' n') : Writes o o'' (n + n') where
  materialize := h'.materialize.trans h.materialize
  exact := h'.exact
  len := by rw [h'.len, h.len, Nat.add_assoc]

theorem Writes.push (h : Writes o o' n) (hs : Clean s) : Writes o (o'.push s) (n + utf8Len s) where
  materialize := h.materialize
  exact := by
    intro hmaterialize
    obtain ⟨⟨hdata, hdemand, hgap⟩, hclean, hlen⟩ := h.exact hmaterialize
    have hmode : o'.materialize = true := hmaterialize
    refine ⟨⟨hdata, hdemand, hgap⟩, ?_, ?_⟩
    · rw [Out.push, if_pos ⟨hmode, hgap⟩]
      exact hclean.append hs
    · rw [Out.push, if_pos ⟨hmode, hgap⟩, utf8Len_append, hlen]
  len := by rw [Out.push, h.len, Nat.add_assoc]

/-- `push_base64` counts by the size that it is told, which must be the right one where the
text is made. -/
theorem Writes.pushBase64 (h : Writes o o' n) (x : RenderCrates) {data : Bytes} {hint : Nat}
    (hhint : o.materialize = true → data.length = hint) :
    Writes o (o'.pushBase64 x data hint) (n + base64EncodedLen hint) := by
  cases hmode : o'.materialize with
  | false =>
      have hcount : o'.pushBase64 x data hint =
          { o' with len := o'.len + base64EncodedLen hint } := by
        simp [Out.pushBase64, hmode]
      rw [hcount]
      refine ⟨h.materialize, ?_, ?_⟩
      · intro hmaterialize
        exact absurd (hmaterialize.symm.trans hmode) (by decide)
      · exact (congrArg (· + _) h.len).trans (Nat.add_assoc _ _ _)
  | true =>
      obtain ⟨⟨hdata, hdemand, hgap⟩, hclean, hlen⟩ := h.exact hmode
      have hwrite : o'.pushBase64 x data hint =
          { o' with
            buf := o'.buf ++ base64Lines (x.base64 data)
            len := o'.len + utf8Len (base64Lines (x.base64 data)) } := by
        simp [Out.pushBase64, hmode, hdata, hdemand, hgap]
      have hsize := utf8Len_base64 x data
      rw [hhint (h.materialize ▸ hmode)] at hsize
      rw [hwrite]
      refine ⟨h.materialize, ?_, ?_⟩
      · intro _
        refine ⟨⟨hdata, hdemand, hgap⟩, ?_, ?_⟩
        · exact hclean.append (clean_base64Lines (noBreak_base64 x data))
        · rw [utf8Len_append, hlen]
      · dsimp only
        rw [hsize, h.len, Nat.add_assoc]

end Writer

/-! ## The tree of parts -/

/-- The part writes `n` bytes, and what surrounds the body is clean. -/
structure TextPart.Sized (t : TextPart) (materialize : Bool) (n : Nat) : Prop where
  present : materialize = true → t.body.isSome
  clean : Clean t.suffix
  size : (match t.body with
    | some b => utf8Len (toCrlf b)
    | none => t.bodyLenHint) + utf8Len t.suffix = n

mutual

/-- The headers of the child are clean, and a writer that makes the text has the bytes that
the sizes say. -/
def Child.Ready (materialize : Bool) : Child → Prop
  | .text header => Clean header
  | .attachment a _ => materialize = true → a.data.length = attachmentRawSize a
  | .related boundary children => NoBreak boundary ∧ readyAll materialize children

/-- `Ready` for each of the children. -/
def readyAll (materialize : Bool) : List Child → Prop
  | [] => True
  | child :: rest => child.Ready materialize ∧ readyAll materialize rest

end

mutual

/-- The bytes of a child, where the text has `n`. -/
def childSize (x : RenderCrates) (n : Nat) : Child → Nat
  | .text header => utf8Len header + n
  | .attachment a inline =>
      utf8Len (attachmentHeaders x a inline) + base64EncodedLen (attachmentRawSize a)
  | .related boundary children =>
      utf8Len (Ctx.relatedHeader boundary) + childrenSize x n boundary children +
        utf8Len (Ctx.closingLine boundary)

/-- The bytes of the children with their boundary lines. -/
def childrenSize (x : RenderCrates) (n : Nat) (boundary : List Char) : List Child → Nat
  | [] => 0
  | child :: rest =>
      utf8Len (Ctx.boundaryLine boundary) + childSize x n child + utf8Len crlf +
        childrenSize x n boundary rest

end

section Tree

variable {x : RenderCrates} {t : TextPart} {o o' : Out} {n k : Nat} {boundary : List Char}

theorem Writes.text (h : Writes o o' k) (ht : t.Sized o.materialize n) :
    Writes o (t.write o') (k + n) := by
  have hbody : Writes o (match t.body with
      | some b =>
          if o'.materialize then o'.push (toCrlf b)
          else { o' with len := o'.len + Db.crlfNormalizedLen (String.ofList b) }
      | none => { o' with len := o'.len + t.bodyLenHint })
      (k + match t.body with
        | some b => utf8Len (toCrlf b)
        | none => t.bodyLenHint) := by
    have hcount : o'.materialize = false → ∀ m,
        Writes o { o' with len := o'.len + m } (k + m) := by
      intro hmode m
      refine ⟨h.materialize, ?_, ?_⟩
      · intro hmaterialize
        exact absurd (hmaterialize.symm.trans hmode) (by decide)
      · exact (congrArg (· + m) h.len).trans (Nat.add_assoc _ _ _)
    cases hb : t.body with
    | none =>
        apply hcount
        rw [h.materialize, ← Bool.not_eq_true]
        intro hmode
        have hsome := ht.present hmode
        rw [hb] at hsome
        exact absurd hsome (by decide)
    | some b =>
        dsimp only
        split
        · exact h.push (clean_toCrlf b)
        · rename_i hmode
          rw [crlfNormalizedLen_eq]
          exact hcount (by simpa using hmode) _
  have hall := hbody.push ht.clean
  rw [Nat.add_assoc, ht.size] at hall
  exact hall

theorem clean_boundaryLine (h : NoBreak boundary) : Clean (Ctx.boundaryLine boundary) :=
  (clean_of_noBreak ((by decide : NoBreak "--".toList).append h)).append clean_crlf

theorem clean_closingLine (h : NoBreak boundary) : Clean (Ctx.closingLine boundary) :=
  (clean_of_noBreak (((by decide : NoBreak "--".toList).append h).append
    (by decide : NoBreak "--".toList))).append clean_crlf

theorem clean_relatedHeader (h : NoBreak boundary) : Clean (Ctx.relatedHeader boundary) := by
  unfold Ctx.relatedHeader
  apply Clean.append _ clean_crlf
  apply Clean.append _ clean_crlf
  apply clean_of_noBreak
  exact (NoBreak.append (by decide) h).append (by decide)

theorem writes_textPart (c : Ctx) (section_ : List Char) {header : List Char}
    (ht : t.Sized o.materialize n) (hout : Writes o c.out k) (hheader : Clean header) :
    Writes o (c.writeTextPart t section_ header).1.out (k + (utf8Len header + n)) := by
  have hall := (hout.push hheader).text ht
  rw [Nat.add_assoc] at hall
  exact hall

theorem writes_attachment (c : Ctx) (section_ : List Char) {a : CachedAttachment} (inline : Bool)
    (hout : Writes o c.out k) (hdata : o.materialize = true → a.data.length = attachmentRawSize a) :
    Writes o (c.writeAttachment x section_ a inline).1.out
      (k + (utf8Len (attachmentHeaders x a inline) + base64EncodedLen (attachmentRawSize a))) := by
  have hall := (hout.push (clean_attachmentHeaders x a inline)).pushBase64 x hdata
  rw [Nat.add_assoc] at hall
  exact hall

theorem writes_closeMultipart {c : Ctx} (section_ : List Char) (subtype : String)
    (headerStart headerEnd : Nat) (structures : List (List Char)) (hout : Writes o c.out k)
    (hboundary : NoBreak boundary) :
    Writes o (c.closeMultipart section_ subtype boundary headerStart headerEnd structures).1.out
      (k + utf8Len (Ctx.closingLine boundary)) := by
  have hall := hout.push (clean_closingLine hboundary)
  unfold Ctx.closeMultipart
  dsimp only
  split
  · exact hall
  · exact hall

mutual

/-- **A child takes its size.** -/
theorem writes_child {k : Nat} (c : Ctx) (section_ : List Char) (ht : t.Sized o.materialize n)
    (hout : Writes o c.out k) (child : Child) (hready : child.Ready o.materialize) :
    Writes o (c.writeChild x t section_ child).1.out (k + childSize x n child) := by
  cases child with
  | text header =>
      rw [Ctx.writeChild, childSize]
      exact writes_textPart c section_ ht hout hready
  | attachment a inline =>
      rw [Ctx.writeChild, childSize]
      exact writes_attachment c section_ inline hout hready
  | related boundary children =>
      obtain ⟨hboundary, hready⟩ := hready
      have hheader := hout.push (clean_relatedHeader hboundary)
      have hchildren := writes_children { c with out := c.out.push (Ctx.relatedHeader boundary) }
        section_ boundary 0 ht hheader hboundary children hready
      rw [Ctx.writeChild, childSize, ← Nat.add_assoc, ← Nat.add_assoc]
      exact writes_closeMultipart section_ _ _ _ _ hchildren hboundary

/-- The children take their sizes. -/
theorem writes_children {k : Nat} (c : Ctx) (section_ boundary : List Char) (idx : Nat)
    (ht : t.Sized o.materialize n) (hout : Writes o c.out k) (hboundary : NoBreak boundary)
    (children : List Child) (hready : readyAll o.materialize children) :
    Writes o (c.writeChildren x t section_ boundary idx children).1.out
      (k + childrenSize x n boundary children) := by
  cases children with
  | nil =>
      rw [Ctx.writeChildren, childrenSize]
      exact hout
  | cons child rest =>
      obtain ⟨hchild, hrest⟩ := hready
      have hline := hout.push (clean_boundaryLine hboundary)
      have hwritten := (writes_child { c with out := c.out.push (Ctx.boundaryLine boundary) }
        (Ctx.childSection section_ idx) ht hline child hchild).push clean_crlf
      rw [Ctx.writeChildren, childrenSize, ← Nat.add_assoc, ← Nat.add_assoc, ← Nat.add_assoc]
      exact writes_children _ section_ boundary (idx + 1) ht hwritten hboundary rest hrest

end

end Tree

/-! ## Messages -/

/-- The body that `render_with` reads. -/
def StoredMessage.body (m : StoredMessage) : List Char := (m.bodyText.map String.toList).getD []

/-- The decision of `render_with` for HTML. -/
def StoredMessage.isHtml (x : RenderCrates) (m : StoredMessage) : Bool :=
  detectHtml (metadataOf x m) m.body

/-- What `render_with` puts after the body. -/
def StoredMessage.suffix (x : RenderCrates) (m : StoredMessage) : List Char :=
  trustNoteSuffix (metadataOf x m) (m.isHtml x) ++
    noteSuffix (attachmentStatusNote x m) (m.isHtml x)

/-- The text part of `render_with`. -/
def StoredMessage.textPart (x : RenderCrates) (m : StoredMessage) (materialize : Bool) : TextPart :=
  { body := if materialize then some m.body else m.bodyText.map String.toList
    bodyLenHint := m.size.toNat
    suffix := m.suffix x
    isHtml := m.isHtml x }

/-- The writer that `render_with` starts with. -/
def StoredMessage.writer (m : StoredMessage) (materialize : Bool) : Out :=
  { buf := [], len := 0, materialize, attachmentData := true
    onDemand := m.attachmentsState = .onDemand, gap := none }

/-- The bytes of a message with attachments after its own headers, where the text has `n`. -/
def multipartSize (x : RenderCrates) (asterId : String) (isHtml : Bool) (n : Nat)
    (attachments : List CachedAttachment) : Nat :=
  let boundary := boundaryFor x asterId 0
  let (subtype, children) := outerParts x asterId isHtml attachments
  utf8Len (multipartHeader subtype boundary) + childrenSize x n boundary children +
    utf8Len (Ctx.closingLine boundary)

section Messages

variable {x : RenderCrates} {m : StoredMessage} {attachments : List CachedAttachment}

theorem clean_textHeader (isHtml : Bool) : Clean (textHeader isHtml) :=
  ((clean_textContentType isHtml).append clean_transferEncoding).append clean_crlf

theorem clean_multipartHeader {subtype : String} {boundary : List Char}
    (hsubtype : NoBreak subtype.toList) (hboundary : NoBreak boundary) :
    Clean (multipartHeader subtype boundary) := by
  unfold multipartHeader
  apply Clean.append _ clean_crlf
  apply Clean.append _ clean_crlf
  apply clean_of_noBreak
  apply NoBreak.append _ (by decide)
  apply NoBreak.append _ hboundary
  exact (NoBreak.append (by decide) hsubtype).append (by decide)

theorem readyAll_attachments {materialize : Bool} {l : List CachedAttachment} (inline : Bool)
    (h : ∀ a ∈ l, materialize = true → a.data.length = attachmentRawSize a) :
    readyAll materialize (l.map (.attachment · inline)) := by
  induction l with
  | nil => trivial
  | cons a l ih =>
      exact ⟨h a List.mem_cons_self, ih fun b hb => h b (List.mem_cons_of_mem _ hb)⟩

/-- The parts of a message are ready, and the subtype is a word. -/
theorem ready_outerParts (asterId : String) (isHtml : Bool) {materialize : Bool}
    (h : ∀ a ∈ attachments, materialize = true → a.data.length = attachmentRawSize a) :
    NoBreak (outerParts x asterId isHtml attachments).1.toList ∧
      readyAll materialize (outerParts x asterId isHtml attachments).2 := by
  have hinline := readyAll_attachments (l := attachments.filter (goesInline isHtml)) true
    fun a ha => h a (List.mem_filter.1 ha).1
  have hregular := readyAll_attachments (l := attachments.filter fun a => !goesInline isHtml a)
    false fun a ha => h a (List.mem_filter.1 ha).1
  have htext := clean_textHeader isHtml
  have hmixed : NoBreak "mixed".toList := by decide
  have hrelated : NoBreak "related".toList := by decide
  unfold outerParts
  dsimp only
  split
  · exact ⟨hmixed, htext, hregular⟩
  · split
    · exact ⟨hrelated, htext, hinline⟩
    · exact ⟨hmixed, ⟨noBreak_boundaryFor x asterId 1, htext, hinline⟩, hregular⟩

/-- The text without attachments. -/
theorem renderText_nil : renderText x m [] =
    topHeaders x m (metadataOf x m) ++ textHeader (m.isHtml x) ++ toCrlf m.body ++ m.suffix x := by
  simp [renderText, renderWith, Ctx.writeTextPart, TextPart.write, Out.push, Ctx.note,
    StoredMessage.isHtml, StoredMessage.body, StoredMessage.suffix]

/-- The size without attachments and without the body. -/
theorem renderedSize_nil (h : m.bodyText = none) : renderedSize x m [] =
    utf8Len (topHeaders x m (metadataOf x m)) + utf8Len (textHeader (m.isHtml x)) +
      m.size.toNat + utf8Len (m.suffix x) := by
  simp [renderedSize, renderWith, Ctx.writeTextPart, TextPart.write, Out.push, Ctx.note,
    StoredMessage.isHtml, StoredMessage.body, StoredMessage.suffix, h]

/-- A multipart takes its header, its children and the closing line, and ends in CRLF. -/
theorem writes_multipart {t : TextPart} {c : Ctx} {n : Nat} {s : String}
    {boundary header : List Char} {children : List Child} (ht : t.Sized c.out.materialize n)
    (hexact : c.out.Exact) (hheader : Clean header) (hboundary : NoBreak boundary)
    (hready : readyAll c.out.materialize children) :
    let out := (c.writeMultipart x t [] s boundary header children).1.out
    Writes c.out out (utf8Len header + childrenSize x n boundary children +
        utf8Len (Ctx.closingLine boundary)) ∧
      (c.out.materialize = true → out.buf.getLast? = some '\n') := by
  have hwritten := writes_children (x := x) { c with out := c.out.push header } [] boundary 0 ht
    ((Writes.refl hexact).push hheader) hboundary children hready
  rw [Nat.zero_add] at hwritten
  have hclosed := hwritten.push (clean_closingLine hboundary)
  refine ⟨hclosed, ?_⟩
  intro hmode
  have hmode' := hwritten.materialize.trans hmode
  obtain ⟨⟨_, _, hgap⟩, _⟩ := hwritten.exact hmode'
  have hbuf : ((Ctx.writeChildren x t { c with out := c.out.push header } [] boundary 0
      children).1.out.push (Ctx.closingLine boundary)).buf.getLast? = some '\n' := by
    rw [Out.push, if_pos ⟨hmode', hgap⟩, Ctx.closingLine, crlf, ← List.append_assoc,
      List.append_cons _ '\r' ['\n'], ← List.append_assoc]
    exact List.getLast?_concat
  exact hbuf

/-- `render_with` for a message with attachments is one run of `write_multipart`. -/
theorem renderWith_eq (hparts : attachments ≠ []) (materialize : Bool) :
    let parts := outerParts x m.asterId (m.isHtml x) attachments
    let boundary := boundaryFor x m.asterId 0
    let out := (Ctx.writeMultipart x (m.textPart x materialize) ⟨m.writer materialize, []⟩ []
      parts.1.toUpper boundary
      (topHeaders x m (metadataOf x m) ++ multipartHeader parts.1 boundary) parts.2).1.out
    (renderWith x m attachments materialize true).text = out.buf ∧
      (renderWith x m attachments materialize true).size = out.len := by
  unfold renderWith
  extract_lets metadata bodyPresent isHtml note text ctx top
  rw [if_neg hparts]
  exact ⟨rfl, rfl⟩

theorem sized_body (hsuffix : Clean (m.suffix x)) : (m.textPart x true).Sized true
    (utf8Len (toCrlf m.body) + utf8Len (m.suffix x)) :=
  ⟨fun _ => rfl, hsuffix, rfl⟩

theorem sized_hint (hsuffix : Clean (m.suffix x)) (h : m.bodyText = none) :
    (m.textPart x false).Sized false (m.size.toNat + utf8Len (m.suffix x)) := by
  refine ⟨fun hmode => absurd hmode (by decide), hsuffix, ?_⟩
  have hbody : (m.textPart x false).body = none := by
    rw [StoredMessage.textPart, h]
    rfl
  rw [hbody]
  rfl

/-- **The text and the size of a message with attachments.** -/
theorem renderWith_parts {materialize : Bool} {n : Nat} (hparts : attachments ≠ [])
    (hdemand : materialize = true → m.attachmentsState ≠ .onDemand)
    (hready : ∀ a ∈ attachments, materialize = true → a.data.length = attachmentRawSize a)
    (ht : (m.textPart x materialize).Sized materialize n) :
    let r := renderWith x m attachments materialize true
    r.size = utf8Len (topHeaders x m (metadataOf x m)) +
        multipartSize x m.asterId (m.isHtml x) n attachments ∧
      (materialize = true → Clean r.text ∧ utf8Len r.text = r.size ∧
        r.text.getLast? = some '\n') := by
  have hexact : (m.writer materialize).Exact := by
    intro hmode
    exact ⟨⟨rfl, decide_eq_false (hdemand hmode), rfl⟩, clean_nil, rfl⟩
  obtain ⟨hsubtype, hchildren⟩ := ready_outerParts (x := x) m.asterId (m.isHtml x) hready
  have hboundary := noBreak_boundaryFor x m.asterId 0
  have hheader := (clean_topHeaders x m (metadataOf x m)).append
    (clean_multipartHeader hsubtype hboundary)
  obtain ⟨hwrites, hlast⟩ := writes_multipart (x := x) (c := ⟨m.writer materialize, []⟩)
    (s := (outerParts x m.asterId (m.isHtml x) attachments).1.toUpper)
    ht hexact hheader hboundary hchildren
  obtain ⟨htext, hsize⟩ := renderWith_eq (x := x) (m := m) hparts materialize
  have hlen := hwrites.len
  rw [← hsize] at hlen
  dsimp only
  constructor
  · rw [hlen, utf8Len_append, multipartSize]
    simp only [StoredMessage.writer]
    omega
  · intro hmode
    obtain ⟨_, hclean, hcount⟩ := hwrites.exact (hwrites.materialize.trans hmode)
    rw [htext, hsize]
    exact ⟨hclean, hcount.symm, hlast hmode⟩

end Messages

/-! ## HTML and plain text -/

/-- The bytes of an attachment with its boundary line and the CRLF after it. -/
def attachmentSize (x : RenderCrates) (a : CachedAttachment) (inline : Bool) : Nat :=
  utf8Len (attachmentHeaders x a inline) + base64EncodedLen (attachmentRawSize a) + 32

/-- The attachments that an HTML text shows. -/
def inlineCount (attachments : List CachedAttachment) : Nat :=
  (attachments.filter (goesInline true)).length

section Decision

variable (x : RenderCrates) {attachments : List CachedAttachment}

theorem utf8Len_hexDigits (upper : Bool) (b : UInt8) : utf8Len (hexDigits upper b) = 2 := by
  have hdigit : ∀ upper : Bool, ∀ n < 16,
      (Char.ofNat (if n < 10 then n + 48 else n + (if upper then 55 else 87))).utf8Size = 1 := by
    decide
  have hlow : b.toNat % 16 < 16 := Nat.mod_lt _ (by decide)
  have hhigh : b.toNat / 16 < 16 := Nat.div_lt_of_lt_mul b.toNat_lt
  rw [hexDigits, utf8Len_cons, utf8Len_cons, utf8Len_nil]
  dsimp only
  rw [hdigit upper _ hlow, hdigit upper _ hhigh]

theorem utf8Len_boundaryFor (asterId : String) {level : Nat} (h : level < 2) :
    utf8Len (boundaryFor x asterId level) = 26 := by
  have hlevel : ∀ level < 2, utf8Len ('_' :: (toString level).toList) = 2 := by decide
  have hdigits : ∀ l : List UInt8, utf8Len (l.flatMap (hexDigits false)) = 2 * l.length := by
    intro l
    induction l with
    | nil => rfl
    | cons b l ih =>
        rw [List.flatMap_cons, utf8Len_append, utf8Len_hexDigits, ih, List.length_cons]
        omega
  have hmark : utf8Len "=_aster_".toList = 8 := by decide
  unfold boundaryFor
  simp only [utf8Len_append, hdigits, hlevel level h, hmark, List.length_take,
    Vector.length_toList]
  rfl

theorem utf8Len_attachmentHeaders (a : CachedAttachment) :
    utf8Len (attachmentHeaders x a false) = utf8Len (attachmentHeaders x a true) + 4 := by
  have hinline : utf8Len "inline".toList = 6 := by decide
  have hattachment : utf8Len "attachment".toList = 10 := by decide
  simp only [attachmentHeaders, headerLine, utf8Len_append, if_true, Bool.false_eq_true, if_false,
    hinline, hattachment]
  omega

theorem utf8Len_textHeader : utf8Len (textHeader false) = utf8Len (textHeader true) + 1 := by
  have hplain : utf8Len (textContentType false) = utf8Len (textContentType true) + 1 := by decide
  rw [textHeader, textHeader, utf8Len_append, utf8Len_append, utf8Len_append, utf8Len_append,
    hplain]
  omega

theorem utf8Len_boundaryLine {boundary : List Char} (h : utf8Len boundary = 26) :
    utf8Len (Ctx.boundaryLine boundary) = 30 := by
  have hdashes : utf8Len "--".toList = 2 := by decide
  rw [Ctx.boundaryLine, utf8Len_append, utf8Len_append, h, hdashes]
  rfl

theorem utf8Len_closingLine {boundary : List Char} (h : utf8Len boundary = 26) :
    utf8Len (Ctx.closingLine boundary) = 32 := by
  have hdashes : utf8Len "--".toList = 2 := by decide
  rw [Ctx.closingLine, utf8Len_append, utf8Len_append, utf8Len_append, h, hdashes]
  rfl

theorem utf8Len_relatedHeader {boundary : List Char} (h : utf8Len boundary = 26) :
    utf8Len (Ctx.relatedHeader boundary) = 74 := by
  have htype : utf8Len "Content-Type: multipart/related; boundary=\"".toList = 43 := by
    decide +kernel
  have hcrlf : utf8Len crlf = 2 := rfl
  have hquote : utf8Len ['"'] = 1 := rfl
  unfold Ctx.relatedHeader
  simp only [utf8Len_append, h, htype, hcrlf, hquote]

theorem utf8Len_multipartHeader (subtype : String) (boundary : List Char) :
    utf8Len (multipartHeader subtype boundary) =
      utf8Len subtype.toList + utf8Len boundary + 41 := by
  have htype : utf8Len "Content-Type: multipart/".toList = 24 := by decide +kernel
  have hparam : utf8Len "; boundary=\"".toList = 12 := by decide +kernel
  have hcrlf : utf8Len crlf = 2 := rfl
  have hquote : utf8Len ['"'] = 1 := rfl
  unfold multipartHeader
  simp only [utf8Len_append, htype, hparam, hcrlf, hquote]
  omega

theorem childrenSize_attachments {n : Nat} {boundary : List Char} (h : utf8Len boundary = 26)
    (inline : Bool) (l : List CachedAttachment) :
    childrenSize x n boundary (l.map (.attachment · inline)) =
      (l.map (attachmentSize x · inline)).sum := by
  have hcrlf : utf8Len crlf = 2 := rfl
  induction l with
  | nil => rfl
  | cons a l ih =>
      rw [List.map_cons, childrenSize, ih, List.map_cons, List.sum_cons, childSize,
        utf8Len_boundaryLine h, hcrlf, attachmentSize]
      omega

theorem sum_attachmentSize (l : List CachedAttachment) :
    (l.map (attachmentSize x · false)).sum =
      (l.map (attachmentSize x · true)).sum + 4 * l.length := by
  induction l with
  | nil => rfl
  | cons a l ih =>
      rw [List.map_cons, List.sum_cons, List.map_cons, List.sum_cons, ih, List.length_cons,
        attachmentSize, attachmentSize, utf8Len_attachmentHeaders]
      omega

theorem sum_filter (f : CachedAttachment → Nat) (p : CachedAttachment → Bool)
    (l : List CachedAttachment) :
    ((l.filter p).map f).sum + ((l.filter fun a => !p a).map f).sum = (l.map f).sum := by
  induction l with
  | nil => rfl
  | cons a l ih =>
      cases hp : p a with
      | true =>
          rw [List.filter_cons_of_pos hp, List.filter_cons_of_neg (by simp [hp]), List.map_cons,
            List.sum_cons, List.map_cons, List.sum_cons, ← ih]
          omega
      | false =>
          rw [List.filter_cons_of_neg (by simp [hp]), List.filter_cons_of_pos (by simp [hp]),
            List.map_cons, List.sum_cons, List.map_cons, List.sum_cons, ← ih]
          omega

/-- What the structure of an HTML message costs: nothing, `related` for `mixed`, or a part
more. -/
def structureCost (attachments : List CachedAttachment) : Nat :=
  if inlineCount attachments = 0 then 0
  else if inlineCount attachments = attachments.length then 2
  else 138

theorem goesInline_false (a : CachedAttachment) : goesInline false a = false := rfl

theorem multipartSize_plain (asterId : String) (n : Nat) (attachments : List CachedAttachment) :
    multipartSize x asterId false n attachments =
      utf8Len (textHeader false) + n + (attachments.map (attachmentSize x · false)).sum + 136 := by
  have hboundary := utf8Len_boundaryFor x asterId (by decide : 0 < 2)
  have hinline : attachments.filter (goesInline false) = [] :=
    List.filter_eq_nil_iff.2 fun a _ => by rw [goesInline_false]; decide
  have hregular : (attachments.filter fun a => !goesInline false a) = attachments :=
    List.filter_eq_self.2 fun a _ => by rw [goesInline_false]; rfl
  have hmixed : utf8Len "mixed".toList = 5 := by decide
  have hcrlf : utf8Len crlf = 2 := rfl
  rw [multipartSize, outerParts]
  dsimp only
  rw [if_pos hinline, hregular]
  dsimp only
  rw [childrenSize, childrenSize_attachments x hboundary, childSize, utf8Len_multipartHeader,
    hmixed, hcrlf, hboundary, utf8Len_boundaryLine hboundary, utf8Len_closingLine hboundary]
  omega

theorem multipartSize_html (asterId : String) (n : Nat) (attachments : List CachedAttachment) :
    multipartSize x asterId true n attachments + 4 * inlineCount attachments =
      utf8Len (textHeader true) + n + (attachments.map (attachmentSize x · false)).sum + 136 +
        structureCost attachments := by
  have hboundary := utf8Len_boundaryFor x asterId (by decide : 0 < 2)
  have hinner := utf8Len_boundaryFor x asterId (by decide : 1 < 2)
  have hmixed : utf8Len "mixed".toList = 5 := by decide
  have hrelated : utf8Len "related".toList = 7 := by decide
  have hcrlf : utf8Len crlf = 2 := rfl
  have hparts := sum_filter (attachmentSize x · false) (goesInline true) attachments
  have hshort := sum_attachmentSize x (attachments.filter (goesInline true))
  have hlen := List.length_eq_length_filter_add (l := attachments) (goesInline true)
  rw [multipartSize, outerParts]
  dsimp only
  by_cases hinline : attachments.filter (goesInline true) = []
  · have hzero : inlineCount attachments = 0 := by rw [inlineCount, hinline]; rfl
    rw [hinline] at hparts
    rw [if_pos hinline, structureCost, if_pos hzero, hzero, ← hparts]
    dsimp only
    rw [childrenSize, childrenSize_attachments x hboundary, childSize, utf8Len_multipartHeader,
      hmixed, hcrlf, hboundary, utf8Len_boundaryLine hboundary, utf8Len_closingLine hboundary]
    simp only [List.map_nil, List.sum_nil]
    omega
  · have hpos : inlineCount attachments ≠ 0 := fun hzero => hinline (List.length_eq_zero_iff.1 hzero)
    rw [if_neg hinline, structureCost, if_neg hpos]
    by_cases hregular : (attachments.filter fun a => !goesInline true a) = []
    · have hall : inlineCount attachments = attachments.length := by
        rw [hregular] at hlen
        exact hlen.symm
      rw [hregular] at hparts
      rw [if_pos hall, if_pos hregular, ← hparts, hshort]
      dsimp only
      rw [childrenSize, childrenSize_attachments x hboundary, childSize, utf8Len_multipartHeader,
        hrelated, hcrlf, hboundary, utf8Len_boundaryLine hboundary, utf8Len_closingLine hboundary,
        inlineCount]
      simp only [List.map_nil, List.sum_nil]
      omega
    · have hsome : inlineCount attachments ≠ attachments.length := by
        intro hall
        rw [inlineCount, hlen] at hall
        apply hregular
        apply List.length_eq_zero_iff.1
        omega
      rw [if_neg hsome, if_neg hregular, ← hparts, hshort]
      dsimp only
      rw [childrenSize, childrenSize_attachments x hboundary, childSize, childrenSize,
        childrenSize_attachments x hinner, childSize, utf8Len_multipartHeader, hmixed, hcrlf,
        hboundary, utf8Len_boundaryLine hboundary, utf8Len_closingLine hboundary,
        utf8Len_boundaryLine hinner, utf8Len_closingLine hinner, utf8Len_relatedHeader hinner,
        inlineCount]
      omega

end Decision

end AsterBridge.Render
