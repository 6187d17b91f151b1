import E2Term.Lib.Digits
import E2Term.Lib.Stores
import E2Term.Transport

/-!
# The hex dump of a received message

With debug logging on, `receiveDataFromSctp` prints every message into `printBuffer`, two digits an
octet. The buffer has the size of the longest message, so the digits of a message over half of that
size leave it; and the NUL that ends the text goes to the index `asnLength`, in the middle of the
digits.
-/

namespace E2Term

open Digits Stores

/-- `%02x` of an octet. -/
def hex02 (n : Nat) : List UInt8 := List.replicate (2 - (hex n).length) 48 ++ hex n

/-- `snprintf(tmp, size, ...)` of the text `s`, as stores. -/
def snprintfStores (tmp : Int) (size : Nat) (s : List UInt8) : List (Int × UInt8) :=
  stored tmp (s.take (size - 1) ++ [0])

/-- The loop over the octets, as stores to `printBuffer`. -/
def hexDumpLoop (tmp : Int) : List UInt8 → List (Int × UInt8)
  | [] => []
  | octet :: rest => snprintfStores tmp 3 (hex02 octet.toNat) ++ hexDumpLoop (tmp + 2) rest

/-- The dump of a message, as stores to `printBuffer`; `debug` is `loglevel >= MDCLOG_DEBUG`. -/
def hexDump (debug : Bool) (asndata : List UInt8) : List (Int × UInt8) :=
  if debug then hexDumpLoop 0 asndata ++ [((asndata.length : Int), 0)] else []

/-- `char printBuffer[RECEIVE_SCTP_BUFFER_SIZE]{}` after the dump, with what follows it. -/
def printBuffer (debug : Bool) (asndata : List UInt8) : Int → UInt8 :=
  replay (fun _ => 0) (hexDump debug asndata)

/-- The digits of a message. -/
def messageDigits (asndata : List UInt8) : List UInt8 := hexOctets (asndata.map UInt8.toNat)

/-- The dump stays inside `printBuffer` and leaves all digits of the message there. -/
structure DumpsWhole (debug : Bool) (asndata : List UInt8) : Prop where
  inside : ∀ s ∈ hexDump debug asndata, 0 ≤ s.1 ∧ s.1 < receiveSctpBufferSize
  whole : HoldsString (printBuffer debug asndata) (messageDigits asndata)

/-! ## The loop -/

theorem hex02_eq {n : Nat} (hn : n < 256) : hex02 n = [digitByte (n / 16), digitByte (n % 16)] := by
  have hlow : ∀ d, d < 16 → hex d = [digitByte d] := fun d hd => digitBytes_of_lt hd
  rcases Nat.lt_or_ge n 16 with hlt | hge
  · rw [hex02, hlow n hlt, Nat.div_eq_of_lt hlt, Nat.mod_eq_of_lt hlt]
    rfl
  · have hhex : hex n = [digitByte (n / 16), digitByte (n % 16)] := by
      show digitBytes 16 n = _
      rw [digitBytes_of_le (by decide) hge, digitBytes_of_lt (by omega)]
      rfl
    rw [hex02, hhex]
    rfl

/-- One pass stores both digits and a NUL, which the next pass overwrites. -/
theorem hexDumpLoop_cons (tmp : Int) (octet : UInt8) (rest : List UInt8) :
    hexDumpLoop tmp (octet :: rest) =
      stored tmp [digitByte (octet.toNat / 16), digitByte (octet.toNat % 16), 0] ++
        hexDumpLoop (tmp + 2) rest := by
  rw [hexDumpLoop, hex02_eq octet.toNat_lt]
  rfl

theorem messageDigits_cons (octet : UInt8) (rest : List UInt8) :
    messageDigits (octet :: rest) =
      digitByte (octet.toNat / 16) :: digitByte (octet.toNat % 16) :: messageDigits rest := rfl

theorem length_messageDigits (asndata : List UInt8) :
    (messageDigits asndata).length = 2 * asndata.length := by
  unfold messageDigits
  rw [length_hexOctets, List.length_map]

theorem messageDigits_ne_zero (asndata : List UInt8) : ∀ x ∈ messageDigits asndata, x ≠ 0 := by
  intro x hx
  refine (ne_of_mem_hexOctets (fun s hs => ?_) hx).1
  obtain ⟨octet, -, rfl⟩ := List.mem_map.mp hs
  exact octet.toNat_lt

theorem mem_hexDumpLoop {octets : List UInt8} {s : Int × UInt8} :
    ∀ {tmp : Int}, s ∈ hexDumpLoop tmp octets →
      tmp ≤ s.1 ∧ s.1 ≤ tmp + 2 * (octets.length : Int) := by
  induction octets with
  | nil => exact fun hs => absurd hs List.not_mem_nil
  | cons octet rest ih =>
    intro tmp hs
    rw [hexDumpLoop_cons] at hs
    rw [List.length_cons]
    rcases List.mem_append.mp hs with hs | hs
    · have := mem_stored hs
      simp only [List.length_cons, List.length_nil] at this
      omega
    · have := ih hs
      omega

/-- The NUL of the last pass stays behind the digits. -/
theorem last_mem_hexDumpLoop {octets : List UInt8} (hoctets : octets ≠ []) :
    ∀ tmp : Int, (tmp + 2 * (octets.length : Int), 0) ∈ hexDumpLoop tmp octets := by
  induction octets with
  | nil => exact absurd rfl hoctets
  | cons octet rest ih =>
    intro tmp
    rw [hexDumpLoop_cons, List.length_cons]
    by_cases hrest : rest = []
    · rw [hrest]
      refine List.mem_append_left _ ?_
      simp [stored]
      omega
    · have := ih hrest (tmp + 2)
      rw [show tmp + 2 + 2 * (rest.length : Int) = tmp + 2 * ((rest.length + 1 : Nat) : Int) by
        omega] at this
      exact List.mem_append_right _ this

/-- The loop leaves the digits one behind another. -/
theorem replay_hexDumpLoop (octets : List UInt8) :
    ∀ (m : Int → UInt8) (tmp : Int) {i : Nat}, i < 2 * octets.length →
      some (replay m (hexDumpLoop tmp octets) (tmp + i)) = (messageDigits octets)[i]? := by
  induction octets with
  | nil => exact fun _ _ _ hi => absurd hi (Nat.not_lt_zero _)
  | cons octet rest ih =>
    intro m tmp i hi
    rw [List.length_cons] at hi
    rw [hexDumpLoop_cons, messageDigits_cons, replay_append]
    -- the passes that follow store behind the first two digits
    have hbehind : ∀ {a : Int}, a < tmp + 2 → ∀ s ∈ hexDumpLoop (tmp + 2) rest, s.1 ≠ a := by
      intro a ha s hs
      have := (mem_hexDumpLoop hs).1
      omega
    match i with
    | 0 =>
      rw [replay_of_ne _ (hbehind (by omega)), replay_stored m tmp _ 0 (by simp)]
      rfl
    | 1 =>
      rw [replay_of_ne _ (hbehind (by omega)), replay_stored m tmp _ 1 (by simp)]
      rfl
    | j + 2 =>
      have haddr : tmp + ((j + 2 : Nat) : Int) = tmp + 2 + (j : Int) := by omega
      rw [haddr, ih _ (tmp + 2) (by omega), List.getElem?_cons_succ, List.getElem?_cons_succ]

/-! ## The dump -/

section Dump

variable {asndata : List UInt8}

/-- The stores stay inside `printBuffer` exactly when all digits and a NUL fit. -/
theorem hexDump_inside_iff (h : 0 < asndata.length) :
    (∀ s ∈ hexDump true asndata, 0 ≤ s.1 ∧ s.1 < receiveSctpBufferSize) ↔
      2 * asndata.length < receiveSctpBufferSize := by
  have hne : asndata ≠ [] := List.length_pos_iff.mp h
  unfold hexDump
  rw [if_pos rfl]
  constructor
  · intro hinside
    have := (hinside _ (List.mem_append_left _ (last_mem_hexDumpLoop hne 0))).2
    dsimp only at this
    omega
  · intro hfits s hs
    rcases List.mem_append.mp hs with hs | hs
    · have := mem_hexDumpLoop hs
      omega
    · rw [List.mem_singleton.mp hs]
      dsimp only
      omega

/-- The same for every message, also where nothing is dumped. -/
theorem hexDump_inside_iff_of_debug (debug : Bool) (asndata : List UInt8) :
    (∀ s ∈ hexDump debug asndata, 0 ≤ s.1 ∧ s.1 < receiveSctpBufferSize) ↔
      (debug = true → 2 * asndata.length < receiveSctpBufferSize) := by
  cases debug with
  | false => exact iff_of_true (fun _ hs => absurd hs List.not_mem_nil) nofun
  | true =>
    rw [forall_prop_of_true rfl]
    rcases Nat.eq_zero_or_pos asndata.length with hzero | hpos
    · rw [List.length_eq_zero_iff.mp hzero]
      refine iff_of_true (fun s hs => ?_) (by decide)
      rw [List.mem_singleton.mp hs]
      decide
    · exact hexDump_inside_iff hpos

theorem printBuffer_length : printBuffer true asndata asndata.length = 0 := by
  show replay _ (hexDumpLoop 0 asndata ++ [((asndata.length : Int), 0)]) _ = 0
  rw [replay_append]
  exact Function.update_self ..

/-- What is printed of a message: as many digits as it has octets. -/
theorem printBuffer_holds (h : 0 < asndata.length) :
    HoldsString (printBuffer true asndata) ((messageDigits asndata).take asndata.length) := by
  have hlen : ((messageDigits asndata).take asndata.length).length = asndata.length := by
    rw [List.length_take, length_messageDigits]
    omega
  refine .of_bytes (fun x hx => messageDigits_ne_zero asndata x (List.mem_of_mem_take hx)) ?_ ?_
  · refine bytesAt_eq fun i hi => ?_
    rw [hlen] at hi
    have hdigit := replay_hexDumpLoop asndata (fun _ => 0) 0 (i := i) (by omega)
    rw [Int.zero_add] at hdigit
    have hkeep : printBuffer true asndata i = replay (fun _ => 0) (hexDumpLoop 0 asndata) i := by
      show replay _ (hexDumpLoop 0 asndata ++ [((asndata.length : Int), 0)]) _ = _
      rw [replay_append]
      exact Function.update_of_ne (by omega) ..
    rw [hkeep, List.getElem_take]
    exact Option.some.inj (hdigit.trans (List.getElem?_eq_getElem _))
  · rw [hlen]
    exact printBuffer_length

/-- The NUL behind the dump leaves no more digits than the message has octets. -/
theorem length_le_of_holds {s : List UInt8} (h : HoldsString (printBuffer true asndata) s) :
    s.length ≤ asndata.length := h.length_le printBuffer_length

/-- No message is dumped whole: the NUL behind the dump cuts its digits in half, and those of a
message over half of the buffer leave it. -/
theorem dump_not_whole (h : 0 < asndata.length) :
    ¬ DumpsWhole true asndata ∧
      ((∀ s ∈ hexDump true asndata, 0 ≤ s.1 ∧ s.1 < receiveSctpBufferSize) ↔
        2 * asndata.length < receiveSctpBufferSize) ∧
      HoldsString (printBuffer true asndata) ((messageDigits asndata).take asndata.length) := by
  refine ⟨fun hdump => ?_, hexDump_inside_iff h, printBuffer_holds h⟩
  have hcut := length_le_of_holds hdump.whole
  rw [length_messageDigits] at hcut
  omega

theorem dump_not_whole_two_octets :
    ¬ DumpsWhole true [0x00, 0x2a] ∧ HoldsString (printBuffer true [0x00, 0x2a]) (text "00") := by
  have hlen : 0 < ([0x00, 0x2a] : List UInt8).length := by decide
  obtain ⟨hnot, -, hprinted⟩ := dump_not_whole hlen
  exact ⟨hnot, hprinted⟩

/-- The octet `2a` is printed as `2`. -/
theorem octet_printed_by_half :
    HoldsString (printBuffer true [0x2a]) (text "2") ∧ messageDigits [0x2a] = text "2a" ∧
      ¬ DumpsWhole true [0x2a] := by
  refine ⟨printBuffer_holds (by decide), by decide +kernel, fun hdump => ?_⟩
  exact absurd (length_le_of_holds hdump.whole) (by decide)

end Dump

end E2Term
