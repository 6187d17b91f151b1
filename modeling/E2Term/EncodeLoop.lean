import E2Term.Lib.Stores
import E2Term.SetupPayload

/-!
# The encode loop of a forwarded setup message

`buildAndSendSetupRequest` encodes a PDU into a buffer and, where the text does not fit, once more
into a larger one. A text as long as the buffer counts as one that fits, though its NUL does not;
and the size of the larger buffer is an `int`, which a text of two gigabytes overflows.
-/

namespace E2Term

open CString Stores

/-- `overrun_encoder_key`, with the stores to its buffer. -/
structure OverrunEncoderKey where
  stores : List (Int × UInt8)
  bufferSize : Nat
  computedSize : Nat

/-- `overrun_encoder_cb` on a piece of the encoding. -/
def overrunEncoderCb (key : OverrunEncoderKey) (data : List UInt8) : OverrunEncoderKey :=
  let key :=
    if key.computedSize + data.length > key.bufferSize then { key with bufferSize := 0 }
    else { key with stores := key.stores ++ stored key.computedSize data }
  { key with computedSize := key.computedSize + data.length }

/-- `asn_encode_to_buffer`: `er.encoded` and the stores to the buffer. `pieces` is what the XER
encoder passes to its callback for the PDU, `none` where it fails. -/
def asnEncodeToBuffer (pieces : Option (List (List UInt8))) (bufferSize : Nat) :
    Int × List (Int × UInt8) :=
  match pieces with
  | none => (-1, [])
  | some pieces =>
    let key := pieces.foldl overrunEncoderCb ⟨[], bufferSize, 0⟩
    (key.computedSize, key.stores)

/-- `(size_t)` of an `int`. -/
def sizeT (n : Int32) : Nat := (n.toInt % 2 ^ 64).toNat

/-- The variables `buffer_size` and `buffer`, with the size that `buffer` was allocated with. -/
structure XerBuffer where
  bufferSize : Int32
  allocated : Nat
  buffer : Int → UInt8

/-- How the loop ends: with the function, or behind `buffer[er.encoded] = '\0'`. -/
inductive EncodeEnd where
  | encodingFailed
  | outOfMemory
  | terminated (b : XerBuffer) (index : Int)

/-- The loop, for at most `fuel` encodings; `allocs` tells which sizes the allocator grants. -/
def encodeUntilFits (allocs : Nat → Bool) (pieces : Option (List (List UInt8))) :
    Nat → XerBuffer → Option EncodeEnd
  | 0, _ => none
  | fuel + 1, b =>
    let (encoded, stores) := asnEncodeToBuffer pieces (sizeT b.bufferSize)
    let buffer := replay b.buffer stores
    if encoded = -1 then some .encodingFailed
    else if encoded > b.bufferSize.toInt then
      let bufferSize := Int32.ofInt (encoded + 128)
      if allocs (sizeT bufferSize) then
        encodeUntilFits allocs pieces fuel ⟨bufferSize, sizeT bufferSize, buffer⟩
      else some .outOfMemory
    else some (.terminated { b with buffer := Function.update buffer encoded 0 } encoded)

/-- `calloc(buffer_size, 1)`. -/
def XerBuffer.zeroed (bufferSize : Int32) : XerBuffer := ⟨bufferSize, sizeT bufferSize, fun _ => 0⟩

/-- `buildAndSendSetupRequest` up to the end of the loop, for at most `fuel` encodings. -/
def encodeSetupRequest (allocs : Nat → Bool) (pieces : Option (List (List UInt8)))
    (fuel : Nat) : Option EncodeEnd :=
  let bufferSize := Int32.ofInt (receiveSctpBufferSize * 2)
  if allocs (sizeT bufferSize) then
    encodeUntilFits allocs pieces fuel (.zeroed bufferSize)
  else some .outOfMemory

/-- `string res((char *)buffer)`, where the loop does not end the function. -/
def EncodeEnd.res : EncodeEnd → Option (List UInt8)
  | .terminated b _ => some (chars (bytesAt b.buffer b.allocated))
  | _ => none

/-- The loop ends after at most two encodings, and the NUL goes inside the buffer. -/
def TerminatesInside (allocs : Nat → Bool) (pieces : List (List UInt8)) : Prop :=
  ∃ b index, encodeSetupRequest allocs (some pieces) 2 = some (.terminated b index) ∧
    0 ≤ index ∧ index < b.allocated

/-! ## One encoding -/

section Encoding

variable (pieces : List (List UInt8))

theorem overrunEncoderCb_computedSize (key : OverrunEncoderKey) (data : List UInt8) :
    (overrunEncoderCb key data).computedSize = key.computedSize + data.length := by
  unfold overrunEncoderCb
  split
  · rfl
  · rfl

theorem foldl_computedSize (key : OverrunEncoderKey) :
    (pieces.foldl overrunEncoderCb key).computedSize =
      key.computedSize + pieces.flatten.length := by
  induction pieces generalizing key with
  | nil => rfl
  | cons data rest ih =>
    rw [List.foldl_cons, ih, overrunEncoderCb_computedSize, List.flatten_cons, List.length_append,
      Nat.add_assoc]

/-- The length of the text is counted to its end, whatever fits of it. -/
theorem asnEncodeToBuffer_encoded (bufferSize : Nat) :
    (asnEncodeToBuffer (some pieces) bufferSize).1 = pieces.flatten.length := by
  show (((pieces.foldl overrunEncoderCb _).computedSize : Nat) : Int) = _
  rw [foldl_computedSize, Nat.zero_add]

theorem foldl_of_fits {key : OverrunEncoderKey}
    (hfits : key.computedSize + pieces.flatten.length ≤ key.bufferSize) :
    (pieces.foldl overrunEncoderCb key).stores =
      key.stores ++ stored key.computedSize pieces.flatten := by
  induction pieces generalizing key with
  | nil => exact (List.append_nil _).symm
  | cons data rest ih =>
    rw [List.flatten_cons, List.length_append] at hfits
    have hstep : overrunEncoderCb key data =
        { key with
          stores := key.stores ++ stored key.computedSize data
          computedSize := key.computedSize + data.length } := by
      unfold overrunEncoderCb
      rw [if_neg (by omega)]
    have hnext : (overrunEncoderCb key data).computedSize + rest.flatten.length ≤
        (overrunEncoderCb key data).bufferSize := by
      rw [hstep]
      dsimp only
      omega
    rw [List.foldl_cons, ih hnext, hstep, List.flatten_cons, stored_append, List.append_assoc]
    rfl

/-- A text that fits is copied whole. -/
theorem asnEncodeToBuffer_stores {bufferSize : Nat} (hfits : pieces.flatten.length ≤ bufferSize) :
    (asnEncodeToBuffer (some pieces) bufferSize).2 = stored 0 pieces.flatten := by
  show (pieces.foldl overrunEncoderCb _).stores = _
  rw [foldl_of_fits pieces (by simpa using hfits)]
  rfl

/-- A piece is stored inside the buffer, or not at all. -/
theorem overrunEncoderCb_inside {key : OverrunEncoderKey} {size : Nat}
    (hsize : key.bufferSize ≤ size) (hin : ∀ s ∈ key.stores, 0 ≤ s.1 ∧ s.1 < size)
    (data : List UInt8) :
    (overrunEncoderCb key data).bufferSize ≤ size ∧
      ∀ s ∈ (overrunEncoderCb key data).stores, 0 ≤ s.1 ∧ s.1 < size := by
  unfold overrunEncoderCb
  by_cases hover : key.computedSize + data.length > key.bufferSize
  · rw [if_pos hover]
    exact ⟨Nat.zero_le _, hin⟩
  · rw [if_neg hover]
    refine ⟨hsize, fun s hs => ?_⟩
    rcases List.mem_append.mp hs with hs | hs
    · exact hin s hs
    · have := mem_stored hs
      omega

/-- What is stored of a text is inside the buffer, whether the text fits or not. -/
theorem asnEncodeToBuffer_inside (bufferSize : Nat) :
    ∀ s ∈ (asnEncodeToBuffer (some pieces) bufferSize).2, 0 ≤ s.1 ∧ s.1 < bufferSize := by
  have hrun : ∀ key : OverrunEncoderKey, key.bufferSize ≤ bufferSize →
      (∀ s ∈ key.stores, 0 ≤ s.1 ∧ s.1 < bufferSize) →
      ∀ s ∈ (pieces.foldl overrunEncoderCb key).stores, 0 ≤ s.1 ∧ s.1 < bufferSize := by
    induction pieces with
    | nil => exact fun _ _ hin => hin
    | cons data rest ih =>
      intro key hsize hin
      obtain ⟨hsize', hin'⟩ := overrunEncoderCb_inside hsize hin data
      exact ih _ hsize' hin'
  exact hrun ⟨[], bufferSize, 0⟩ (Nat.le_refl _) fun _ hs => absurd hs List.not_mem_nil

end Encoding

/-! ## The loop -/

section Loop

variable {allocs : Nat → Bool} {pieces : List (List UInt8)} {b : XerBuffer}

/-- What is left behind a text that counts as fitting. -/
def XerBuffer.after (b : XerBuffer) (pieces : List (List UInt8)) : XerBuffer :=
  { b with
    buffer :=
      Function.update
        (replay b.buffer (asnEncodeToBuffer (some pieces) (sizeT b.bufferSize)).2)
        pieces.flatten.length 0 }

theorem encodeUntilFits_ends (hfits : (pieces.flatten.length : Int) ≤ b.bufferSize.toInt)
    (fuel : Nat) :
    encodeUntilFits allocs (some pieces) (fuel + 1) b =
      some (.terminated (b.after pieces) pieces.flatten.length) := by
  unfold encodeUntilFits XerBuffer.after
  dsimp only
  rw [asnEncodeToBuffer_encoded, if_neg (by omega), if_neg (by omega)]

theorem encodeUntilFits_grows (hover : b.bufferSize.toInt < pieces.flatten.length)
    (hallocs : ∀ size, allocs size = true) (fuel : Nat) :
    ∃ buffer, encodeUntilFits allocs (some pieces) (fuel + 1) b =
      encodeUntilFits allocs (some pieces) fuel
        ⟨Int32.ofInt (pieces.flatten.length + 128),
          sizeT (Int32.ofInt (pieces.flatten.length + 128)), buffer⟩ := by
  refine ⟨replay b.buffer (asnEncodeToBuffer (some pieces) (sizeT b.bufferSize)).2, ?_⟩
  rw [encodeUntilFits]
  dsimp only
  rw [asnEncodeToBuffer_encoded, if_neg (by omega), if_pos hover, if_pos (hallocs _)]

theorem toInt_grown {n : Nat} (hn : n < 2 ^ 31 - 128) :
    (Int32.ofInt ((n : Int) + 128)).toInt = n + 128 := by
  rw [Int32.toInt_ofInt]
  refine Int.bmod_eq_of_le ?_ ?_
  · show -(4294967296 / 2 : Int) ≤ _
    omega
  · show _ < (4294967296 + 1 : Int) / 2
    omega

/-- From two gigabytes on, the larger size is no larger than the text. -/
theorem toInt_grown_lt {n : Nat} (hn : 2 ^ 31 - 128 ≤ n) :
    (Int32.ofInt ((n : Int) + 128)).toInt < n := by
  rw [Int32.toInt_ofInt]
  show Int.bmod _ 4294967296 < _
  rw [Int.bmod_eq_emod]
  split
  · omega
  · omega

theorem sizeT_of_nonneg {n : Int32} (hn : 0 ≤ n.toInt) : (sizeT n : Int) = n.toInt := by
  have hlt := n.toInt_lt
  unfold sizeT
  omega

/-- A text from two gigabytes on is encoded again and again. -/
theorem encodeUntilFits_never (hallocs : ∀ size, allocs size = true)
    (hlong : 2 ^ 31 - 128 ≤ pieces.flatten.length) :
    ∀ (fuel : Nat) {b : XerBuffer}, b.bufferSize.toInt < pieces.flatten.length →
      encodeUntilFits allocs (some pieces) fuel b = none := by
  intro fuel
  induction fuel with
  | zero => exact fun _ => rfl
  | succ fuel ih =>
    intro b hover
    obtain ⟨buffer, hgrow⟩ := encodeUntilFits_grows hover hallocs fuel
    rw [hgrow]
    exact ih (toInt_grown_lt hlong)

/-- The text and its NUL are in the buffer, the text whole. -/
theorem XerBuffer.after_holds (hfits : pieces.flatten.length ≤ sizeT b.bufferSize)
    (htext : ∀ x ∈ pieces.flatten, x ≠ 0) :
    HoldsString (b.after pieces).buffer pieces.flatten := by
  refine .of_bytes htext ?_ (Function.update_self ..)
  have hwhole := bytesAt_replay b.buffer pieces.flatten []
  rw [List.append_nil] at hwhole
  calc bytesAt (b.after pieces).buffer pieces.flatten.length
      = bytesAt (replay b.buffer (stored 0 pieces.flatten)) pieces.flatten.length := by
        refine List.map_congr_left fun i hi => ?_
        have hne : (i : Int) ≠ pieces.flatten.length := by
          have := List.mem_range.mp hi
          omega
        show Function.update _ _ _ _ = _
        rw [Function.update_of_ne hne, asnEncodeToBuffer_stores pieces hfits]
    _ = pieces.flatten := hwhole

theorem chars_bytesAt {m : Int → UInt8} {s : List UInt8} (h : HoldsString m s) {size : Nat}
    (hsize : s.length < size) : chars (bytesAt m size) = s := by
  have hsplit : bytesAt m size = s ++ 0 :: (bytesAt m size).drop (s.length + 1) := by
    have := (List.take_append_drop (s.length + 1) (bytesAt m size)).symm
    rwa [take_bytesAt m hsize, h.bytes_eq, List.append_assoc] at this
  rw [hsplit]
  exact CharArray.chars_terminated h.nonzero _

end Loop

/-! ## The whole loop -/

section SetupRequest

variable {allocs : Nat → Bool} {pieces : List (List UInt8)}

/-- The buffer that the loop starts with. -/
def XerBuffer.first : XerBuffer := .zeroed (Int32.ofInt (receiveSctpBufferSize * 2))

theorem first_bufferSize : XerBuffer.first.bufferSize.toInt = 2 * receiveSctpBufferSize := by
  decide

theorem first_allocated : XerBuffer.first.allocated = 2 * receiveSctpBufferSize := by
  decide

theorem encodeSetupRequest_eq (hallocs : ∀ size, allocs size = true)
    (pieces : Option (List (List UInt8))) (fuel : Nat) :
    encodeSetupRequest allocs pieces fuel = encodeUntilFits allocs pieces fuel .first :=
  if_pos (hallocs _)

/-- A text that is no longer than the first buffer is encoded once. -/
theorem encodeSetupRequest_of_le (hallocs : ∀ size, allocs size = true)
    (hle : pieces.flatten.length ≤ 2 * receiveSctpBufferSize) (fuel : Nat) :
    encodeSetupRequest allocs (some pieces) (fuel + 1) =
      some (.terminated (XerBuffer.first.after pieces) pieces.flatten.length) := by
  rw [encodeSetupRequest_eq hallocs]
  refine encodeUntilFits_ends ?_ fuel
  rw [first_bufferSize]
  omega

/-- A longer one is encoded twice, the second time into a buffer that it fits into. -/
theorem encodeSetupRequest_of_grown (hallocs : ∀ size, allocs size = true)
    (hover : 2 * receiveSctpBufferSize < pieces.flatten.length)
    (hlt : pieces.flatten.length < 2 ^ 31 - 128) (fuel : Nat) :
    ∃ b : XerBuffer, b.allocated = pieces.flatten.length + 128 ∧ b.allocated = sizeT b.bufferSize ∧
      encodeSetupRequest allocs (some pieces) (fuel + 2) =
        some (.terminated (b.after pieces) pieces.flatten.length) := by
  have hfirst : XerBuffer.first.bufferSize.toInt < pieces.flatten.length := by
    rw [first_bufferSize]
    omega
  obtain ⟨buffer, hgrow⟩ := encodeUntilFits_grows hfirst hallocs (fuel + 1)
  obtain ⟨grown, hgrown⟩ :
      ∃ grown, grown = Int32.ofInt ((pieces.flatten.length : Int) + 128) := ⟨_, rfl⟩
  have hsize : grown.toInt = pieces.flatten.length + 128 := hgrown ▸ toInt_grown hlt
  rw [← hgrown] at hgrow
  refine ⟨⟨grown, sizeT grown, buffer⟩, ?_, rfl, ?_⟩
  · have := sizeT_of_nonneg (n := grown) (by omega)
    dsimp only
    omega
  · rw [encodeSetupRequest_eq hallocs, hgrow]
    refine encodeUntilFits_ends ?_ fuel
    dsimp only
    omega

theorem encodeSetupRequest_never (hallocs : ∀ size, allocs size = true)
    (hlong : 2 ^ 31 - 128 ≤ pieces.flatten.length) (fuel : Nat) :
    encodeSetupRequest allocs (some pieces) fuel = none := by
  rw [encodeSetupRequest_eq hallocs]
  refine encodeUntilFits_never hallocs hlong fuel ?_
  have hfirst : (2 : Int) * receiveSctpBufferSize < 2 ^ 31 - 128 := by decide
  rw [first_bufferSize]
  omega

/-- The NUL of a text as long as the first buffer goes behind the buffer. -/
theorem nul_behind_buffer (hallocs : ∀ size, allocs size = true)
    (hlen : pieces.flatten.length = 2 * receiveSctpBufferSize) :
    (∃ b, encodeSetupRequest allocs (some pieces) 2 =
        some (.terminated b (2 * receiveSctpBufferSize)) ∧
      b.allocated = 2 * receiveSctpBufferSize) ∧
      ¬ TerminatesInside allocs pieces := by
  have hend := encodeSetupRequest_of_le hallocs hlen.le 1
  have halloc : (XerBuffer.first.after pieces).allocated = 2 * receiveSctpBufferSize :=
    first_allocated
  rw [hlen] at hend
  refine ⟨⟨_, hend, halloc⟩, ?_⟩
  rintro ⟨b, index, hend', -, hindex⟩
  rw [hend] at hend'
  cases hend'
  omega

/-- A text that is terminated inside the buffer is not as long as the first buffer and does not
overflow the size of the second. -/
theorem TerminatesInside.length (hallocs : ∀ size, allocs size = true)
    (h : TerminatesInside allocs pieces) :
    pieces.flatten.length ≠ 2 * receiveSctpBufferSize ∧
      pieces.flatten.length < 2 ^ 31 - 128 := by
  refine ⟨fun hlen => (nul_behind_buffer hallocs hlen).2 h, ?_⟩
  rcases Nat.lt_or_ge pieces.flatten.length (2 ^ 31 - 128) with hlt | hlong
  · exact hlt
  · obtain ⟨_, _, hend, -⟩ := h
    rw [encodeSetupRequest_never hallocs hlong 2] at hend
    cases hend

theorem terminatesInside_of_length (hallocs : ∀ size, allocs size = true)
    (hne : pieces.flatten.length ≠ 2 * receiveSctpBufferSize)
    (hlt : pieces.flatten.length < 2 ^ 31 - 128) : TerminatesInside allocs pieces := by
  rcases Nat.lt_or_ge (2 * receiveSctpBufferSize) pieces.flatten.length with hover | hle
  · obtain ⟨b, hb, -, hend⟩ := encodeSetupRequest_of_grown hallocs hover hlt 0
    refine ⟨_, _, hend, by omega, ?_⟩
    show _ < (b.allocated : Int)
    omega
  · have halloc : (XerBuffer.first.after pieces).allocated = 2 * receiveSctpBufferSize :=
      first_allocated
    exact ⟨_, _, encodeSetupRequest_of_le hallocs hle 1, by omega, by omega⟩

/-- The NUL goes inside the buffer after at most two encodings, unless the text is as long as the
first buffer or overflows the size of the second. -/
theorem terminatesInside_iff (hallocs : ∀ size, allocs size = true) :
    TerminatesInside allocs pieces ↔
      pieces.flatten.length ≠ 2 * receiveSctpBufferSize ∧
        pieces.flatten.length < 2 ^ 31 - 128 :=
  ⟨TerminatesInside.length hallocs, fun h => terminatesInside_of_length hallocs h.1 h.2⟩

theorem terminatesInside_iff_short :
    TerminatesInside (fun _ => true) [text "<E2AP-PDU>", text "</E2AP-PDU>\n"] :=
  (terminatesInside_iff fun _ => rfl).mpr (by decide +kernel)

/-- Where the NUL goes inside the buffer, the string that is sent on is the text. -/
theorem encodeSetupRequest_res (hallocs : ∀ size, allocs size = true)
    (htext : ∀ x ∈ pieces.flatten, x ≠ 0) (h : TerminatesInside allocs pieces) :
    (encodeSetupRequest allocs (some pieces) 2).map EncodeEnd.res =
      some (some pieces.flatten) := by
  obtain ⟨hne, hlt⟩ := h.length hallocs
  have hres : ∀ b : XerBuffer, b.allocated = sizeT b.bufferSize →
      pieces.flatten.length < b.allocated →
      (EncodeEnd.terminated (b.after pieces) pieces.flatten.length).res = some pieces.flatten := by
    intro b hsize hfits
    have hholds := b.after_holds (hsize ▸ hfits.le) htext
    exact congrArg some (chars_bytesAt hholds hfits)
  rcases Nat.lt_or_ge (2 * receiveSctpBufferSize) pieces.flatten.length with hover | hle
  · obtain ⟨b, hb, hsize, hend⟩ := encodeSetupRequest_of_grown hallocs hover hlt 0
    rw [hend, Option.map_some, hres b hsize (by omega)]
  · have hfits : pieces.flatten.length < XerBuffer.first.allocated := by
      rw [first_allocated]
      omega
    rw [encodeSetupRequest_of_le hallocs hle 1, Option.map_some, hres _ rfl hfits]

/-- The text of a PDU goes on as the encoder prints it. -/
theorem encodeSetupRequest_pdu (hallocs : ∀ size, allocs size = true) {pdu : Xer.Value}
    (hpieces : pieces.flatten = xerEncode pduTag pdu) (h : TerminatesInside allocs pieces) :
    (encodeSetupRequest allocs (some pieces) 2).map EncodeEnd.res =
      some (some (xerEncode pduTag pdu)) := by
  have htext : ∀ x ∈ pieces.flatten, x ≠ 0 :=
    hpieces ▸ Xer.Elements.Text.ne_zero _ (xerEncode_text pduTag pdu)
  rw [encodeSetupRequest_res hallocs htext h, hpieces]

end SetupRequest

/-! ## A service update as long as the buffer -/

open Xer

/-- A function with a definition and an OID. -/
def definedFunction (id : Int) (definition : List UInt8) (oid : PrintableString) : Value :=
  elementsOf [("ranFunctionID", .integer id), ("ranFunctionDefinition", .octetString definition),
    ("ranFunctionRevision", .integer 1), ("ranFunctionOID", .printableString oid)]

/-- The element of a list of functions. -/
def functionElement (function : Value) : String × Value :=
  ("ProtocolIE-SingleContainer", sampleIE 8 "RANfunction-Item" function)

/-- The PDU of a RIC service update that adds functions. -/
def serviceUpdatePDU (functions : List Value) : Value :=
  let ies : List Value :=
    [sampleIE 49 "TransactionID" (.integer 1),
      sampleIE 10 "RANfunctions-List" (elementsOf (functions.map functionElement))]
  elementsOf [("initiatingMessage", elementsOf
    [("procedureCode", .integer 7),
      ("criticality", .enumerated (schemaName "reject")),
      ("value", elementsOf [("RICserviceUpdate", elementsOf
        [("protocolIEs", elementsOf (ies.map fun ie => ("RICserviceUpdate-IEs", ie)))])])])]

theorem length_textIndent (level : Nat) : (textIndent level).length = 4 * level + 1 := by
  unfold textIndent
  rw [List.length_cons, List.length_replicate]

/-- Three characters an octet and an indentation every sixteen octets. -/
theorem length_octetLines (ilevel : Nat) {size : Nat} (hsize : 16 < size) (buf : List UInt8) :
    ∀ i, (octetLines ilevel size i buf).length + (4 * ilevel + 1) * ((i + 15) / 16) =
      3 * buf.length + (4 * ilevel + 1) * ((i + buf.length + 15) / 16) := by
  induction buf with
  | nil => exact fun i => rfl
  | cons b rest ih =>
    intro i
    have hnext := ih (i + 1)
    rw [show i + 1 + rest.length + 15 = i + (rest.length + 1) + 15 by omega] at hnext
    unfold octetLines
    rw [List.length_append, List.length_append, List.length_cons]
    by_cases hline : i % 16 = 0
    · have hquot : (i + 1 + 15) / 16 = (i + 15) / 16 + 1 := by omega
      rw [hquot, Nat.mul_add, Nat.mul_one] at hnext
      rw [if_pos ⟨hline, .inr hsize⟩, length_textIndent]
      simp only [List.length_cons, List.length_nil]
      omega
    · have hquot : (i + 1 + 15) / 16 = (i + 15) / 16 := by omega
      rw [hquot] at hnext
      rw [if_neg fun h => hline h.1]
      simp only [List.length_cons, List.length_nil]
      omega

theorem length_octetStringEncodeXer (ilevel : Nat) {buf : List UInt8} (hbuf : 16 < buf.length) :
    (octetStringEncodeXer ilevel buf).length + 1 =
      3 * buf.length + (4 * ilevel + 1) * ((buf.length + 15) / 16) +
        (4 * (ilevel - 1) + 1) := by
  have hlines := length_octetLines ilevel hbuf buf 0
  have hnil : buf ≠ [] := by
    rintro rfl
    exact absurd hbuf (by decide)
  unfold octetStringEncodeXer
  rw [if_neg hnil, if_pos hbuf, List.length_append, List.length_dropLast, length_textIndent]
  have hfirst : (0 + 15) / 16 = 0 := rfl
  rw [hfirst, Nat.mul_zero, Nat.add_zero, Nat.zero_add] at hlines
  omega

/-- The text of an element in the list of functions. -/
def functionText (function : Value) : Xer.Text :=
  textIndent 8 ++ (schemaName "ProtocolIE-SingleContainer").openTag ++
    xerEncoder 9 (sampleIE 8 "RANfunction-Item" function) ++
    (schemaName "ProtocolIE-SingleContainer").closeTag

/-- The text of an update has those of its functions in it. -/
theorem length_serviceUpdatePDU (functions : List Value) :
    (xerEncode pduTag (serviceUpdatePDU functions)).length =
      (xerEncode pduTag (serviceUpdatePDU [])).length +
        (functions.map fun f => (functionText f).length).sum := by
  have hlist : ∀ l : List Value, (elementsEncodeXer 8 ((l.map functionElement).foldr
      (fun e rest => .cons (schemaName e.1) e.2 rest) .nil)).length =
        (l.map fun f => (functionText f).length).sum := by
    intro l
    induction l with
    | nil => rfl
    | cons f rest ih =>
      rw [List.map_cons, List.map_cons, List.sum_cons, List.foldr_cons, elementsEncodeXer,
        List.length_append, ih]
      rfl
  unfold serviceUpdatePDU sampleIE elementsOf xerEncode
  simp only [List.map_cons, List.map_nil, List.foldr_cons, List.foldr_nil, xerEncoder,
    elementsEncodeXer, List.length_append, Nat.reduceAdd]
  rw [hlist functions]
  simp only [List.length_nil]
  omega

/-- The text of a function has that of its definition in it. -/
theorem length_functionText (id : Int) (definition : List UInt8) (oid : PrintableString) :
    (functionText (definedFunction id definition oid)).length =
      (functionText (definedFunction id [] oid)).length +
        (octetStringEncodeXer 12 definition).length := by
  have hempty : octetStringEncodeXer 12 [] = [] := rfl
  unfold functionText definedFunction sampleIE elementsOf
  simp only [List.foldr_cons, List.foldr_nil, xerEncoder, elementsEncodeXer, List.length_append,
    Nat.reduceAdd, hempty, List.length_nil]
  omega

/-- The OID of a function. -/
def functionOID : PrintableString := ⟨text "1.3.6.1.4.1.53148.1.1", by decide +kernel⟩

/-- Three functions, with definitions that are short enough to be received. -/
def longFunctions : List (Int × List UInt8) :=
  [(2, List.replicate 14215 0x30), (3, List.replicate 14215 0x30),
    (147, List.replicate 14214 0x30)]

/-- A service update that adds them. -/
def longUpdatePDU : Value :=
  serviceUpdatePDU (longFunctions.map fun f => definedFunction f.1 f.2 functionOID)

theorem length_emptyUpdate :
    (xerEncode pduTag (serviceUpdatePDU [])).length = 971 ∧
      (functionText (definedFunction 2 [] functionOID)).length = 808 ∧
      (functionText (definedFunction 3 [] functionOID)).length = 808 ∧
      (functionText (definedFunction 147 [] functionOID)).length = 810 := by
  decide +kernel

theorem length_longUpdatePDU :
    (xerEncode pduTag longUpdatePDU).length = 2 * receiveSctpBufferSize := by
  have hlines : ∀ {n : Nat} {d : List UInt8}, d.length = n → 16 < n →
      (octetStringEncodeXer 12 d).length = 3 * n + 49 * ((n + 15) / 16) + 44 := by
    rintro _ d rfl hn
    have hlong := length_octetStringEncodeXer 12 hn
    omega
  obtain ⟨hframe, h2, h3, h147⟩ := length_emptyUpdate
  have hupdate : ∀ {d d' : List UInt8}, d.length = 14215 → d'.length = 14214 →
      (xerEncode pduTag (serviceUpdatePDU [definedFunction 2 d functionOID,
        definedFunction 3 d functionOID, definedFunction 147 d' functionOID])).length =
          2 * receiveSctpBufferSize := by
    intro d d' hd hd'
    rw [length_serviceUpdatePDU, hframe]
    simp only [List.map_cons, List.map_nil, List.sum_cons, List.sum_nil, length_functionText, h2,
      h3, h147, hlines hd (by decide), hlines hd' (by decide)]
    rfl
  exact hupdate List.length_replicate List.length_replicate

/-- A service update whose text is as long as the first buffer: its NUL goes behind the buffer. No
definition in it is too long to be received. -/
theorem text_of_buffer_size :
    AsnDef.ForwardedPDU.has longUpdatePDU = true ∧ (∀ f ∈ longFunctions, f.2.length < 16384) ∧
      ∀ pieces : List (List UInt8), pieces.flatten = xerEncode pduTag longUpdatePDU →
        ¬ TerminatesInside (fun _ => true) pieces := by
  refine ⟨by decide +kernel, ?_, fun pieces hpieces => ?_⟩
  · simp only [longFunctions, List.forall_mem_cons, List.length_replicate]
    exact ⟨by decide, by decide, by decide, nofun⟩
  · exact (nul_behind_buffer (fun _ => rfl) (hpieces ▸ length_longUpdatePDU)).2

end E2Term
