import E2Term.Base64Codec
import E2Term.Frame
import E2Term.Lib.Instrument

/-!
# Trace records

With tracing on, `buildJsonMessage` writes a record with the bytes that `asndata` and `asnLength`
stand for. They are set apart from the message that goes out, so whether the record shows that
message is a question about where `asndata` points to by then.
-/

namespace E2Term

open CString Effect Instrument Stores

/-! ## What is reported -/

/-- `sizeof(message.base64Data)`. -/
def base64DataSize : Nat := receiveSctpBufferSize * 2

/-- What `asndata` points to: the payload of the send buffer, that of a received RMR message, or
that of a message RMR has taken. -/
inductive AsnData where
  | sendMessage
  | rcvMessage (payload : List UInt8)
  | released

/-- The fields of a trace record that show a message. -/
structure TraceRecord where
  base64Length : Int
  asnBase64 : List UInt8

/-- A trace record, with the payload of the message it is written for. -/
structure TraceEntry where
  record : TraceRecord
  payload : List UInt8

/-- The record decodes to the payload, and gives the length of its text. -/
def TraceEntry.Right (e : TraceEntry) : Prop :=
  Base64.decode base64Alphabet e.record.asnBase64 = some e.payload ∧
    e.record.base64Length = e.record.asnBase64.length

/-- `ReportingMessages_t`, as far as the trace reads it, and the trace so far. `stray` is memory
that the model does not know: behind a payload, or where a message was that RMR has taken. -/
structure Reporting where
  asndata : AsnData
  asnLength : Int
  base64Data : Memory
  stray : Memory
  trace : List TraceEntry

/-- The memory behind `asndata`. -/
def Reporting.memory (t : Reporting) (w : World) : Memory :=
  match t.asndata with
  | .sendMessage => fun i => w.sendMessage.payload.getD i.toNat (t.stray i)
  | .rcvMessage payload => fun i => payload.getD i.toNat (t.stray i)
  | .released => t.stray

/-- A handler with tracing on. -/
abbrev TM := EStateM Fault (World × Reporting)

/-- `buildJsonMessage`. The return value of `base64::encode` is not looked at. -/
def buildJsonMessage : TM TraceRecord :=
  note fun w t =>
    let r := base64Encode (some (t.memory w)) (Int32.ofInt t.asnLength) (some t.base64Data)
      base64DataSize
    let base64Data := r.memory t.base64Data
    (⟨r.dstLen, chars (bytesAt base64Data base64DataSize)⟩, { t with base64Data := base64Data })

/-- `asndata` and `asnLength` are set. -/
def setAsn (asndata : AsnData) (asnLength : Int) : TM Unit :=
  note fun _ t => ((), { t with asndata := asndata, asnLength := asnLength })

/-- A record is written for a message with this payload. -/
def addEntry (record : TraceRecord) (payload : List UInt8) : TM Unit :=
  note fun _ t => ((), { t with trace := t.trace ++ [⟨record, payload⟩] })

/-! ## When a record shows a payload -/

theorem encode_ne_zero (s : List UInt8) : ∀ x ∈ Base64.encode base64Alphabet s, x ≠ 0 := by
  intro x hx hzero
  have hbase := isBase64_of_has (Base64.has_of_mem_encode base64Alphabet s x hx)
  rw [hzero] at hbase
  exact absurd hbase (by decide +kernel)

section Build

variable {w : World} {t : Reporting} {n : Nat} {p : List UInt8}

/-- The bytes that `asndata` and `asnLength` stand for. -/
def Reporting.bytes (t : Reporting) (w : World) : List UInt8 :=
  bytesAt (t.memory w) t.asnLength.toNat

/-- Some bytes, not more than fit, are shown in the record. -/
theorem buildJsonMessage_shown (hn : t.asnLength = n) (hpos : 0 < n)
    (hle : n ≤ receiveSctpBufferSize) :
    ∃ base64Data, buildJsonMessage (w, t) =
      .ok ⟨(Base64.encode base64Alphabet (t.bytes w)).length,
        Base64.encode base64Alphabet (t.bytes w)⟩ (w, { t with base64Data := base64Data }) := by
  have hsize : receiveSctpBufferSize = 131072 := rfl
  have hdata : base64DataSize = 262144 := rfl
  have hacc : ¬ EncodeRefuses (some (t.memory w)) (Int32.ofNat n) (some t.base64Data)
      base64DataSize := not_encodeRefuses hpos (by omega) (by omega) _ _
  have hlen : (Int32.ofNat n).toInt.toNat = n := by
    rw [Int32.toInt_ofNat_of_lt (by omega), Int.toNat_natCast]
  have hbytes : t.bytes w = bytesAt (t.memory w) n := by
    unfold Reporting.bytes
    rw [hn, Int.toNat_natCast]
  have henc := base64Encode_accepted hacc
  dsimp only at henc
  rw [hlen, ← hbytes] at henc
  -- the text stands at the start of the array, with its NUL
  have htext : chars (bytesAt (replay t.base64Data
      (stored 0 (Base64.encode base64Alphabet (t.bytes w) ++ [0]))) base64DataSize) =
      Base64.encode base64Alphabet (t.bytes w) := by
    have hfits : (Base64.encode base64Alphabet (t.bytes w) ++ [0]).length ≤ base64DataSize := by
      rw [List.length_append, Base64.length_encode, hbytes, length_bytesAt, List.length_singleton]
      omega
    have hstart := bytesAt_replay t.base64Data
      (Base64.encode base64Alphabet (t.bytes w) ++ [0]) []
    rw [List.append_nil] at hstart
    rw [← List.take_append_drop (Base64.encode base64Alphabet (t.bytes w) ++ [0]).length
      (bytesAt _ base64DataSize), take_bytesAt _ hfits, hstart, List.append_assoc]
    exact CharArray.chars_terminated (encode_ne_zero _) _
  rw [← Int32.ofInt_eq_ofNat, ← hn] at henc
  refine ⟨replay t.base64Data (stored 0 (Base64.encode base64Alphabet (t.bytes w) ++ [0])), ?_⟩
  unfold buildJsonMessage
  rw [note_eq, henc]
  unfold EncodeResult.memory
  dsimp only
  rw [htext]

/-- No bytes are refused: the record has the size of `base64Data` and what was there before. -/
theorem buildJsonMessage_refused (hn : t.asnLength = 0) :
    buildJsonMessage (w, t) =
      .ok ⟨base64DataSize, chars (bytesAt t.base64Data base64DataSize)⟩ (w, t) := by
  have href : EncodeRefuses (some (t.memory w)) (Int32.ofInt t.asnLength) (some t.base64Data)
      base64DataSize := .inr (.inl (by rw [hn]; decide))
  unfold buildJsonMessage
  rw [note_eq, base64Encode_refused href]
  rfl

/-- The record is right for a payload exactly when there are bytes and they are the payload. -/
theorem buildJsonMessage_ok (w : World) (hn : t.asnLength = n) (hle : n ≤ receiveSctpBufferSize) :
    ∃ record base64Data,
      buildJsonMessage (w, t) = .ok record (w, { t with base64Data := base64Data }) ∧
      ∀ p : List UInt8, p.length ≤ receiveSctpBufferSize →
        ((⟨record, p⟩ : TraceEntry).Right ↔ 0 < n ∧ t.bytes w = p) := by
  cases Nat.eq_zero_or_pos n with
  | inr hpos =>
    obtain ⟨base64Data, hrun⟩ := buildJsonMessage_shown (w := w) hn hpos hle
    refine ⟨_, base64Data, hrun, fun p _ => ?_⟩
    unfold TraceEntry.Right
    rw [Base64.decode_encode, and_iff_left rfl, and_iff_right hpos, Option.some.injEq]
  | inl hzero =>
    subst hzero
    refine ⟨_, t.base64Data, buildJsonMessage_refused hn, fun p hp => ?_⟩
    refine iff_of_false ?_ fun h => absurd h.1 (Nat.lt_irrefl 0)
    -- the text would have to be as long as the array
    rintro ⟨hdecode, hlen⟩
    have htext := Base64.length_of_decode base64Alphabet hdecode
    have hsize : receiveSctpBufferSize = 131072 := rfl
    have hdata : base64DataSize = 262144 := rfl
    dsimp only at hlen htext
    omega

/-- `asndata` points to the payload, so they are the same bytes exactly when they are as many. -/
theorem bytes_eq_iff (hn : t.asnLength = n)
    (hp : t.asndata = .sendMessage ∧ w.sendMessage.payload = p ∨ t.asndata = .rcvMessage p) :
    t.bytes w = p ↔ n = p.length := by
  have hmemory : t.memory w = fun i => p.getD i.toNat (t.stray i) := by
    unfold Reporting.memory
    rcases hp with ⟨hasn, hpay⟩ | hasn
    · rw [hasn, hpay]
    · rw [hasn]
  unfold Reporting.bytes
  rw [hn, Int.toNat_natCast, hmemory]
  constructor
  · intro h
    rw [← h, length_bytesAt]
  · rintro rfl
    refine bytesAt_eq fun i hi => ?_
    simp [hi]

end Build

end E2Term
