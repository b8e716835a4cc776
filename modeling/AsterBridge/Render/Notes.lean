import AsterBridge.Render.LineBreaks

/-!
# Notes after a body

The trust notes are clean and cost five bytes more in HTML. Every note ends in a character
that is not a line break.
-/

set_option autoImplicit false

namespace AsterBridge.Render

open AsterBridge.Lib AsterBridge.Lib.Text AsterBridge.Lib.Lines

/-! ## One note -/

/-- The text ends in the last character of a note. -/
def EndsNote (s : List Char) : Prop := s.getLast? = some ']' ∨ s.getLast? = some '>'

section Note

variable {s t note : List Char}

theorem EndsNote.ne_nil (h : EndsNote s) : s ≠ [] := by
  rintro rfl
  rcases h with h | h
  · exact absurd h (by decide)
  · exact absurd h (by decide)

theorem EndsNote.append (s : List Char) (h : EndsNote t) : EndsNote (s ++ t) := by
  rw [EndsNote, List.getLast?_append_of_ne_nil s h.ne_nil]
  exact h

/-- A note ends its suffix, in HTML inside a paragraph. -/
theorem endsNote_noteSuffix (h : note.getLast? = some ']') (isHtml : Bool) :
    EndsNote (noteSuffix (some note) isHtml) := by
  cases isHtml with
  | true =>
      rw [noteSuffix, if_pos rfl]
      exact EndsNote.append _ (Or.inr (by decide))
  | false =>
      rw [noteSuffix, if_neg (by decide)]
      exact EndsNote.append _ (Or.inl h)

theorem utf8Len_noteSuffix_html : utf8Len (noteSuffix (some note) true) =
    utf8Len (escapeHtmlText note) + 9 := by
  have hopen : utf8Len "<p>".toList = 3 := by decide
  have hclose : utf8Len "</p>".toList = 4 := by decide
  have hcrlf : utf8Len crlf = 2 := rfl
  rw [noteSuffix, if_pos rfl]
  simp only [utf8Len_append, hopen, hclose, hcrlf]
  omega

theorem utf8Len_noteSuffix_plain : utf8Len (noteSuffix (some note) false) = utf8Len note + 4 := by
  have hcrlf : utf8Len crlf = 2 := rfl
  rw [noteSuffix, if_neg (by decide)]
  simp only [utf8Len_append, hcrlf]
  omega

theorem utf8Len_le_escapeHtmlText (s : List Char) : utf8Len s ≤ utf8Len (escapeHtmlText s) := by
  induction s with
  | nil => exact Nat.le_refl _
  | cons c s ih =>
      have hc : c.utf8Size ≤ utf8Len (escapeHtmlText [c]) := by
        rw [escapeHtmlText, List.flatMap_singleton]
        split
        · decide
        · decide
        · decide
        · decide
        · exact Nat.le_refl _
      have hsplit : escapeHtmlText (c :: s) = escapeHtmlText [c] ++ escapeHtmlText s := by
        rw [escapeHtmlText, List.flatMap_cons, escapeHtmlText, List.flatMap_singleton,
          escapeHtmlText]
      rw [hsplit, utf8Len_append, utf8Len_cons]
      exact Nat.add_le_add hc ih

theorem escapeHtmlText_of_plain {s : List Char} (h : ∀ c ∈ s, c ∉ (['&', '<', '>', '"'] : List Char)) :
    escapeHtmlText s = s := by
  unfold escapeHtmlText
  induction s with
  | nil => rfl
  | cons c s ih =>
      have hc := h c List.mem_cons_self
      rw [List.flatMap_cons, ih fun d hd => h d (List.mem_cons_of_mem _ hd)]
      split
      · exact absurd hc (by decide)
      · exact absurd hc (by decide)
      · exact absurd hc (by decide)
      · exact absurd hc (by decide)
      · rfl

end Note

/-! ## Trust notes -/

/-- The trust notes of a message. -/
def trustNotes (metadata : Json) : Nat :=
  (notEndToEndEncrypted metadata).toNat + (senderUnverified metadata).toNat +
    (attachmentsUnverified metadata).toNat

section Trust

variable (metadata : Json)

theorem trustNotes_le : trustNotes metadata ≤ 3 := by
  have hencrypted := Bool.toNat_le (notEndToEndEncrypted metadata)
  have hsender := Bool.toNat_le (senderUnverified metadata)
  have hattachments := Bool.toNat_le (attachmentsUnverified metadata)
  unfold trustNotes
  omega

/-- One line of plain text that HTML shows as it is, up to a bracket. -/
def isPlainNote (s : List Char) : Bool :=
  s.all (fun c => !(['\r', '\n', '&', '<', '>', '"'] : List Char).contains c) &&
    s.getLast? == some ']'

theorem isPlainNote_ofList {note : String} (s : List Char) (h : note = String.ofList s)
    (hs : isPlainNote s = true) : isPlainNote note.toList = true := by
  rw [h, String.toList_ofList, hs]

set_option maxRecDepth 8000 in
theorem plain_notes : ∀ note ∈ [notEndToEndEncryptedNote, senderUnverifiedNote,
    attachmentsUnverifiedNote], isPlainNote note.toList = true := by
  intro note hnote
  simp only [List.mem_cons, List.not_mem_nil, or_false] at hnote
  rcases hnote with rfl | rfl | rfl
  · exact isPlainNote_ofList _ rfl (by decide +kernel)
  · exact isPlainNote_ofList _ rfl (by decide +kernel)
  · exact isPlainNote_ofList _ rfl (by decide +kernel)

theorem isPlainNote_spec {s : List Char} (h : isPlainNote s = true) :
    NoBreak s ∧ escapeHtmlText s = s ∧ s.getLast? = some ']' := by
  simp only [isPlainNote, Bool.and_eq_true, beq_iff_eq] at h
  obtain ⟨hall, hlast⟩ := h
  have hplain : ∀ c ∈ s, c ∉ (['\r', '\n', '&', '<', '>', '"'] : List Char) := by
    intro c hc
    simpa using List.all_eq_true.1 hall c hc
  refine ⟨?_, ?_, hlast⟩
  · intro c hc
    have hne := hplain c hc
    simp only [List.mem_cons, not_or] at hne
    exact ⟨hne.1, hne.2.1⟩
  · exact escapeHtmlText_of_plain fun c hc hmem =>
      hplain c hc (List.mem_cons_of_mem _ (List.mem_cons_of_mem _ hmem))

/-- What `notes` trust notes add to plain text and to HTML. -/
structure TrustSuffix (notes : Nat) (plain html : List Char) : Prop where
  clean_plain : Clean plain
  clean_html : Clean html
  ends_plain : 0 < notes → EndsNote plain
  ends_html : 0 < notes → EndsNote html
  absent : notes = 0 → plain = [] ∧ html = []
  size : utf8Len html = utf8Len plain + 5 * notes

theorem trustSuffix_note (flag : Bool) {note : String} (h : note ∈ [notEndToEndEncryptedNote,
    senderUnverifiedNote, attachmentsUnverifiedNote]) :
    TrustSuffix flag.toNat (noteSuffix (thenSome flag note) false)
      (noteSuffix (thenSome flag note) true) := by
  obtain ⟨hbreak, hescape, hlast⟩ := isPlainNote_spec (plain_notes note h)
  cases flag with
  | false => exact ⟨clean_nil, clean_nil, fun h => absurd h (by decide),
      fun h => absurd h (by decide), fun _ => ⟨rfl, rfl⟩, rfl⟩
  | true =>
      have hsome : thenSome true note = some note.toList := rfl
      have hclean : Clean (noteSuffix (some note.toList) true) := by
        have hline := NoBreak.append (by decide : NoBreak "<p>".toList)
          (hbreak.append (by decide : NoBreak "</p>".toList))
        have hall := clean_crlf.append (clean_of_noBreak hline)
        rw [← List.append_assoc, ← List.append_assoc] at hall
        rw [noteSuffix, if_pos rfl, hescape]
        exact hall
      rw [hsome]
      refine ⟨?_, hclean, fun _ => endsNote_noteSuffix hlast _,
        fun _ => endsNote_noteSuffix hlast _, fun h => absurd h (by decide), ?_⟩
      · exact (clean_crlf.append clean_crlf).append (clean_of_noBreak hbreak)
      · rw [utf8Len_noteSuffix_html, utf8Len_noteSuffix_plain, hescape]
        rfl

theorem TrustSuffix.append {k k' : Nat} {plain html plain' html' : List Char}
    (h : TrustSuffix k plain html) (h' : TrustSuffix k' plain' html') :
    TrustSuffix (k + k') (plain ++ plain') (html ++ html') where
  clean_plain := h.clean_plain.append h'.clean_plain
  clean_html := h.clean_html.append h'.clean_html
  ends_plain := by
    intro hpos
    cases k' with
    | zero =>
        rw [(h'.absent rfl).1, List.append_nil]
        exact h.ends_plain hpos
    | succ k' => exact (h'.ends_plain (Nat.succ_pos k')).append plain
  ends_html := by
    intro hpos
    cases k' with
    | zero =>
        rw [(h'.absent rfl).2, List.append_nil]
        exact h.ends_html hpos
    | succ k' => exact (h'.ends_html (Nat.succ_pos k')).append html
  absent := by
    intro hzero
    obtain ⟨hleft, hright⟩ := Nat.add_eq_zero_iff.1 hzero
    obtain ⟨hplain, hhtml⟩ := h.absent hleft
    obtain ⟨hplain', hhtml'⟩ := h'.absent hright
    rw [hplain, hplain', hhtml, hhtml']
    exact ⟨rfl, rfl⟩
  size := by
    rw [utf8Len_append, utf8Len_append, h.size, h'.size]
    omega

/-- The trust notes together. -/
theorem trustSuffix (metadata : Json) : TrustSuffix (trustNotes metadata)
    (trustNoteSuffix metadata false) (trustNoteSuffix metadata true) :=
  ((trustSuffix_note _ List.mem_cons_self).append
    (trustSuffix_note _ (List.mem_cons_of_mem _ List.mem_cons_self))).append
      (trustSuffix_note _ (List.mem_cons_of_mem _ (List.mem_cons_of_mem _ List.mem_cons_self)))

theorem clean_trustNoteSuffix (isHtml : Bool) : Clean (trustNoteSuffix metadata isHtml) := by
  cases isHtml
  · exact (trustSuffix metadata).clean_plain
  · exact (trustSuffix metadata).clean_html

theorem endsNote_trustNoteSuffix (isHtml : Bool) (h : 0 < trustNotes metadata) :
    EndsNote (trustNoteSuffix metadata isHtml) := by
  cases isHtml
  · exact (trustSuffix metadata).ends_plain h
  · exact (trustSuffix metadata).ends_html h

theorem trustNoteSuffix_of_zero (isHtml : Bool) (h : trustNotes metadata = 0) :
    trustNoteSuffix metadata isHtml = [] := by
  cases isHtml
  · exact ((trustSuffix metadata).absent h).1
  · exact ((trustSuffix metadata).absent h).2

end Trust

/-! ## The status note -/

section Status

variable {x : RenderCrates} {m : StoredMessage} {note : List Char}

theorem replaceTheyAppears_of_not_mem {s : List Char} (h : 'T' ∉ s) (t : List Char) :
    replaceTheyAppears (s ++ t) = s ++ replaceTheyAppears t := by
  induction s with
  | nil => rfl
  | cons c s ih =>
      have hc : c ≠ 'T' := fun hc => h (hc ▸ List.mem_cons_self)
      have hprefix : ¬ "They appears".toList.isPrefixOf (c :: (s ++ t)) = true := by
        rw [List.isPrefixOf_iff_prefix]
        intro hprefix
        exact hc (List.cons_prefix_cons.1 hprefix).1.symm
      rw [List.cons_append, replaceTheyAppears, if_neg hprefix,
        ih fun hs => h (List.mem_cons_of_mem _ hs), List.cons_append]

theorem getLast?_replaceTheyAppears {s : List Char} (h : s.getLast? = some ']') :
    (replaceTheyAppears s).getLast? = some ']' := by
  fun_induction replaceTheyAppears s with
  | case1 => exact absurd h (by decide)
  | case2 c rest hprefix ih =>
      -- what follows the words is not empty, because the text does not end in their last letter
      obtain ⟨t, ht⟩ := List.isPrefixOf_iff_prefix.1 hprefix
      have hdrop : (c :: rest).drop "They appears".toList.length = t := by
        rw [← ht]
        exact List.drop_left
      have hne : t ≠ [] := by
        rintro rfl
        rw [List.append_nil] at ht
        rw [← ht] at h
        exact absurd h (by decide)
      have hlast : t.getLast? = some ']' := by
        rwa [← ht, List.getLast?_append_of_ne_nil _ hne] at h
      rw [hdrop] at ih ⊢
      have hih := ih hlast
      rw [List.getLast?_append_of_ne_nil _ fun hnil => by rw [hnil] at hih; exact absurd hih (by decide)]
      exact hih
  | case3 c rest hprefix ih =>
      cases rest with
      | nil =>
          rw [replaceTheyAppears]
          exact h
      | cons d rest =>
          rw [List.getLast?_cons_cons] at h
          have hih := ih h
          cases hreplaced : replaceTheyAppears (d :: rest) with
          | nil =>
              rw [hreplaced] at hih
              exact absurd hih (by decide)
          | cons e es =>
              rw [hreplaced] at hih
              rwa [List.getLast?_cons_cons]

theorem le_utf8Len (s : List Char) : s.length ≤ utf8Len s := by
  induction s with
  | nil => exact Nat.le_refl _
  | cons c s ih =>
      have hpos := Char.utf8Size_pos c
      rw [utf8Len_cons, List.length_cons]
      omega

/-- The bounds of a note from its first and last words. -/
theorem status_bounds {first last : List Char} (a b c : List Char) (hfirst : 13 ≤ first.length)
    (hlast : last.getLast? = some ']') :
    (first ++ a ++ b ++ c ++ last).getLast? = some ']' ∧
      13 ≤ utf8Len (first ++ a ++ b ++ c ++ last) := by
  have hne : last ≠ [] := by
    rintro rfl
    exact absurd hlast (by decide)
  have hlen := le_utf8Len first
  constructor
  · rw [List.getLast?_append_of_ne_nil _ hne]
    exact hlast
  · rw [utf8Len_append, utf8Len_append, utf8Len_append, utf8Len_append]
    omega

theorem status_bounds_replaced {first last : List Char} (a b c : List Char)
    (hfirst : 13 ≤ first.length) (hplain : 'T' ∉ first) (hlast : last.getLast? = some ']') :
    (replaceTheyAppears (first ++ a ++ b ++ c ++ last)).getLast? = some ']' ∧
      13 ≤ utf8Len (replaceTheyAppears (first ++ a ++ b ++ c ++ last)) := by
  have hlen := le_utf8Len first
  constructor
  · exact getLast?_replaceTheyAppears (status_bounds a b c hfirst hlast).1
  · rw [List.append_assoc, List.append_assoc, List.append_assoc,
      replaceTheyAppears_of_not_mem hplain, utf8Len_append]
    omega

/-- A status note starts with the name of the bridge and ends in a bracket. -/
theorem attachmentStatusNote_spec (h : attachmentStatusNote x m = some note) :
    note.getLast? = some ']' ∧ 13 ≤ utf8Len note := by
  unfold attachmentStatusNote at h
  split at h
  · exact absurd h (by simp)
  · split at h
    · exact absurd h (by simp)
    · generalize describedAttachments x (metadataOf x m) = described at h
      dsimp only at h
      split at h
      · exact absurd h (by simp)
      · split at h
        · rw [← Option.some.inj h]
          exact status_bounds_replaced _ _ _ (by decide) (by decide) (by decide)
        · rw [← Option.some.inj h]
          exact status_bounds _ _ _ (by decide) (by decide)

end Status

end AsterBridge.Render
