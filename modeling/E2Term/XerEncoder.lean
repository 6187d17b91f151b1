import E2Term.Lib.XerTypes
import E2Term.RanName

/-!
# The XER encoder

The basic XML encoding of the vendored `asn1c` skeletons, with the layout they print: a line for
every element, indented by its level, blanks between the octets of an OCTET STRING and lines inside
long OCTET STRINGs and BIT STRINGs. What the encoder prints is a text of the value.
-/

namespace E2Term

open Xer

/-- `ASN__TEXT_INDENT(1, level)`. -/
def textIndent (level : Nat) : Xer.Text := 10 :: List.replicate (4 * level) 32

/-- The loop of `OCTET_STRING_encode_xer` from the octet at `i` on, in a string of `size` octets:
sixteen octets a line, a blank behind each. -/
def octetLines (ilevel size i : Nat) : List UInt8 → Xer.Text
  | [] => []
  | b :: rest =>
    (if i % 16 = 0 ∧ (i ≠ 0 ∨ size > 16) then textIndent ilevel else []) ++
      [upperHexDigit (b.toNat / 16), upperHexDigit (b.toNat % 16), 32] ++
        octetLines ilevel size (i + 1) rest

/-- `OCTET_STRING_encode_xer`. -/
def octetStringEncodeXer (ilevel : Nat) (buf : List UInt8) : Xer.Text :=
  if buf = [] then []
  else (octetLines ilevel buf.length 0 buf).dropLast ++
    if buf.length > 16 then textIndent (ilevel - 1) else []

/-- The loop of `BIT_STRING_encode_xer` from the bit at `i` on: eight octets a line. -/
def bitLines (ilevel i : Nat) : List Bool → Xer.Text
  | [] => []
  | b :: rest =>
    (if i % 64 = 0 then textIndent ilevel else []) ++ [if b then 0x31 else 0x30] ++
      bitLines ilevel (i + 1) rest

/-- `BIT_STRING_encode_xer`. -/
def bitStringEncodeXer (ilevel : Nat) (bits : List Bool) : Xer.Text :=
  (if bits = [] then textIndent ilevel else bitLines ilevel 0 bits) ++ textIndent (ilevel - 1)

/-- `OCTET_STRING__xer_escape_table` for the control characters. -/
def xerEscapeTable : List String :=
  ["<nul/>", "<soh/>", "<stx/>", "<etx/>", "<eot/>", "<enq/>", "<ack/>", "<bel/>", "<bs/>", "\t",
    "\n", "<vt/>", "<ff/>", "\r", "<so/>", "<si/>", "<dle/>", "<de1/>", "<de2/>", "<de3/>",
    "<de4/>", "<nak/>", "<syn/>", "<etb/>", "<can/>", "<em/>", "<sub/>", "<esc/>", "<is4/>",
    "<is3/>", "<is2/>", "<is1/>"]

/-- What the encoder prints for a character of a string. -/
def xerEscape (ch : UInt8) : Xer.Text :=
  if ch = 38 then text "&amp;"
  else if ch = 60 then text "&lt;"
  else if ch = 62 then text "&gt;"
  else
    match xerEscapeTable[ch.toNat]? with
    | some s => text s
    | none => [ch]

/-- `OCTET_STRING_encode_xer_utf8`, the encoder of PrintableStrings. -/
def octetStringEncodeXerUtf8 (buf : List UInt8) : Xer.Text := buf.flatMap xerEscape

mutual

/-- The `xer_encoder` of a type. -/
def xerEncoder (ilevel : Nat) : Value → Xer.Text
  | .integer n => integerText n
  | .enumerated id => id.emptyTag
  | .octetString buf => octetStringEncodeXer ilevel buf
  | .bitString bits => bitStringEncodeXer ilevel bits
  | .printableString s => octetStringEncodeXerUtf8 s.chars
  | .elements es => elementsEncodeXer ilevel es ++ textIndent (ilevel - 1)

/-- The loop of `SEQUENCE_encode_xer` and `SEQUENCE_OF_encode_xer`; `CHOICE_encode_xer` and
`OPEN_TYPE_encode_xer` do the same for their one element. -/
def elementsEncodeXer (ilevel : Nat) : Elements → Xer.Text
  | .nil => []
  | .cons mname memb rest =>
    textIndent ilevel ++ mname.openTag ++ xerEncoder (ilevel + 1) memb ++ mname.closeTag ++
      elementsEncodeXer ilevel rest

end

/-- `xer_encode`. -/
def xerEncode (xmlTag : Xer.Name) (v : Value) : Xer.Text :=
  xmlTag.openTag ++ xerEncoder 1 v ++ xmlTag.closeTag ++ [10]

/-! ## The encoding is a text of the value -/

theorem textIndent_layout (level : Nat) : ∀ b ∈ textIndent level, isLayout b = true := by
  intro b hb
  rcases List.mem_cons.mp hb with rfl | hb
  · rfl
  · rw [List.eq_of_mem_replicate hb]
    rfl

theorem unlaid_textIndent (level : Nat) : Xer.unlaid (textIndent level) = [] :=
  unlaid_of_layout (textIndent_layout level)

theorem upperHexDigit_not_layout {d : Nat} (hd : d < 16) : isLayout (upperHexDigit d) = false := by
  have key : ∀ d < 16, isLayout (upperHexDigit d) = false := by decide
  exact key d hd

theorem unlaid_octetLines (ilevel size : Nat) (buf : List UInt8) :
    ∀ i, Xer.unlaid (octetLines ilevel size i buf) = octetText buf := by
  induction buf with
  | nil => exact fun _ => rfl
  | cons b rest ih =>
    intro i
    have hb := b.toNat_lt
    have hindent : Xer.unlaid (if i % 16 = 0 ∧ (i ≠ 0 ∨ size > 16) then textIndent ilevel else []) =
        [] := by
      split
      · exact unlaid_textIndent ilevel
      · rfl
    have hdigits : Xer.unlaid [upperHexDigit (b.toNat / 16), upperHexDigit (b.toNat % 16), 32] =
        [upperHexDigit (b.toNat / 16), upperHexDigit (b.toNat % 16)] := by
      have h1 := upperHexDigit_not_layout (d := b.toNat / 16) (by omega)
      have h2 := upperHexDigit_not_layout (d := b.toNat % 16) (by omega)
      have h3 : isLayout 32 = true := rfl
      simp [Xer.unlaid, h1, h2, h3]
    unfold octetLines
    rw [unlaid_append, unlaid_append, hindent, hdigits, ih]
    rfl

/-- Each octet has a blank behind it, the last one too. -/
theorem octetLines_concat (ilevel size : Nat) (buf : List UInt8) :
    ∀ i, buf ≠ [] → ∃ lines, octetLines ilevel size i buf = lines ++ [32] := by
  induction buf with
  | nil => exact fun _ hne => absurd rfl hne
  | cons b rest ih =>
    intro i _
    unfold octetLines
    by_cases hrest : rest = []
    · refine ⟨(if i % 16 = 0 ∧ (i ≠ 0 ∨ size > 16) then textIndent ilevel else []) ++
        [upperHexDigit (b.toNat / 16), upperHexDigit (b.toNat % 16)], ?_⟩
      rw [hrest]
      simp [octetLines]
    · obtain ⟨lines, hlines⟩ := ih (i + 1) hrest
      rw [hlines, ← List.append_assoc]
      exact ⟨_, rfl⟩

theorem unlaid_octetStringEncodeXer (ilevel : Nat) (buf : List UInt8) :
    Xer.unlaid (octetStringEncodeXer ilevel buf) = octetText buf := by
  unfold octetStringEncodeXer
  by_cases hnil : buf = []
  · rw [if_pos hnil, hnil]
    rfl
  · obtain ⟨lines, hlines⟩ := octetLines_concat ilevel buf.length buf 0 hnil
    have htext := unlaid_octetLines ilevel buf.length buf 0
    have hend : Xer.unlaid (if buf.length > 16 then textIndent (ilevel - 1) else []) = [] := by
      split
      · exact unlaid_textIndent _
      · rfl
    rw [hlines, unlaid_append] at htext
    rw [if_neg hnil, hlines, List.dropLast_concat, unlaid_append, hend, ← htext]
    rfl

theorem unlaid_bitLines (ilevel : Nat) (bits : List Bool) :
    ∀ i, Xer.unlaid (bitLines ilevel i bits) = bitText bits := by
  induction bits with
  | nil => exact fun _ => rfl
  | cons b rest ih =>
    intro i
    have hindent : Xer.unlaid (if i % 64 = 0 then textIndent ilevel else []) = [] := by
      split
      · exact unlaid_textIndent ilevel
      · rfl
    have hbit : Xer.unlaid [if b then (0x31 : UInt8) else 0x30] = [if b then 0x31 else 0x30] := by
      cases b <;> rfl
    unfold bitLines
    rw [unlaid_append, unlaid_append, hindent, hbit, ih]
    rfl

theorem unlaid_bitStringEncodeXer (ilevel : Nat) (bits : List Bool) :
    Xer.unlaid (bitStringEncodeXer ilevel bits) = bitText bits := by
  unfold bitStringEncodeXer
  rw [unlaid_append, unlaid_textIndent, List.append_nil]
  split
  · rename_i hnil
    rw [hnil, unlaid_textIndent]
    rfl
  · exact unlaid_bitLines ilevel bits 0

/-- No character of a PrintableString is escaped. -/
theorem xerEscape_printable {ch : UInt8} (h : isPrintable ch = true) : xerEscape ch = [ch] := by
  have hge : 32 ≤ ch.toNat := by
    simp only [isPrintable, Bool.or_eq_true, Bool.and_eq_true, decide_eq_true_eq,
      UInt8.le_iff_toNat_le] at h
    rcases h with (((((rfl | h) | h) | rfl) | rfl) | h) | h
    · decide
    · exact le_trans (by decide) h.1
    · exact le_trans (by decide) h.1
    · decide
    · decide
    · exact le_trans (by decide) h.1
    · exact le_trans (by decide) h.1
  have htable : xerEscapeTable[ch.toNat]? = none := List.getElem?_eq_none hge
  have hne {x : UInt8} (hx : isPrintable x = false) : ch ≠ x := by
    rintro rfl
    rw [h] at hx
    cases hx
  unfold xerEscape
  rw [if_neg (hne rfl), if_neg (hne rfl), if_neg (hne rfl), htable]

theorem octetStringEncodeXerUtf8_printable {buf : List UInt8}
    (hbuf : ∀ ch ∈ buf, isPrintable ch = true) : octetStringEncodeXerUtf8 buf = buf := by
  unfold octetStringEncodeXerUtf8
  induction buf with
  | nil => rfl
  | cons ch rest ih =>
    rw [List.forall_mem_cons] at hbuf
    rw [List.flatMap_cons, xerEscape_printable hbuf.1, ih hbuf.2]
    rfl

mutual

theorem xerEncoder_text : ∀ (v : Value) (ilevel : Nat), v.Text (xerEncoder ilevel v)
  | .integer _, _ => rfl
  | .enumerated _, _ => rfl
  | .octetString buf, ilevel => unlaid_octetStringEncodeXer ilevel buf
  | .bitString bits, ilevel => unlaid_bitStringEncodeXer ilevel bits
  | .printableString s, _ => octetStringEncodeXerUtf8_printable s.printable
  | .elements es, ilevel => elementsEncodeXer_text es ilevel (textIndent_layout (ilevel - 1))

theorem elementsEncodeXer_text : ∀ (es : Elements) (ilevel : Nat) {lay : Xer.Text},
    (∀ b ∈ lay, isLayout b = true) → es.Text (elementsEncodeXer ilevel es ++ lay)
  | .nil, _, _, hlay => hlay
  | .cons _ memb rest, ilevel, lay, hlay =>
    ⟨textIndent ilevel, xerEncoder (ilevel + 1) memb, elementsEncodeXer ilevel rest ++ lay,
      List.append_assoc _ _ _, textIndent_layout ilevel, xerEncoder_text memb (ilevel + 1),
      elementsEncodeXer_text rest ilevel hlay⟩

end

/-- What `xer_encode` prints is a document with the value. -/
theorem xerEncode_text (xmlTag : Xer.Name) (v : Value) :
    (Elements.cons xmlTag v .nil).Text (xerEncode xmlTag v) :=
  ⟨[], xerEncoder 1 v, [10], rfl, fun _ hb => absurd hb List.not_mem_nil, xerEncoder_text v 1,
    fun _ hb => by rw [List.mem_singleton.mp hb]; rfl⟩

end E2Term
