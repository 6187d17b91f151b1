import E2Term.Lib.BitCodec
import E2Term.Lib.Bits

/-!
# The bit streams of the codec

`asn_bit_data.c`: bits are taken from a buffer up to 31 at a time, and put into the 32 octets of
`tmpspace`, which goes out when there is no room for the next ones. Every state has its position
inside its buffer.
-/

namespace E2Term

open Bits Digits BitCodec

/-- How many octets the branches of `asn_get_few_bits` and `asn_put_few_bits` touch for bits that
end at the offset `off`. -/
def octetsFor (off : Nat) : Nat :=
  if off ≤ 8 then 1 else if off ≤ 16 then 2 else if off ≤ 24 then 3 else 4

theorem le_octetsFor {off : Nat} (h : off ≤ 32) : off ≤ 8 * octetsFor off := by
  unfold octetsFor
  split_ifs <;> omega

theorem octetsFor_le {off n : Nat} (hpos : 0 < off) (h : off ≤ 8 * n) : octetsFor off ≤ n := by
  unfold octetsFor
  split_ifs <;> omega

/-! ## Taking bits -/

/-- `asn_bit_data_t` without `refill`; `buffer` is what lies behind the pointer. -/
structure AsnBitData where
  buffer : List UInt8
  nboff : Nat
  nbits : Nat
  moved : Nat
  nboff_le : nboff ≤ nbits
  nbits_le : nbits ≤ 8 * buffer.length
  moved_mod : moved % 8 = nboff % 8

namespace AsnBitData

/-- A stream over the first `nbits` bits of a buffer. -/
def new (buffer : List UInt8) (nbits : Nat) (h : nbits ≤ 8 * buffer.length) : AsnBitData :=
  ⟨buffer, 0, nbits, 0, Nat.zero_le _, h, rfl⟩

/-- A stream over a whole buffer. -/
def ofBuffer (buffer : List UInt8) : AsnBitData := new buffer (8 * buffer.length) (Nat.le_refl _)

/-- The position indicator normalized, so that the next bit is in the first octet. -/
def normalize (pd : AsnBitData) : AsnBitData where
  buffer := pd.buffer.drop (pd.nboff / 8)
  nboff := pd.nboff % 8
  nbits := pd.nbits - 8 * (pd.nboff / 8)
  moved := pd.moved
  nboff_le := by
    have := pd.nboff_le
    omega
  nbits_le := by
    have := pd.nbits_le
    rw [List.length_drop]
    omega
  moved_mod := by rw [pd.moved_mod, Nat.mod_mod]

/-- `moved += n` and `nboff += n`. -/
def advance (pd : AsnBitData) (n : Nat) (h : pd.nboff + n ≤ pd.nbits) : AsnBitData where
  buffer := pd.buffer
  nboff := pd.nboff + n
  nbits := pd.nbits
  moved := pd.moved + n
  nboff_le := h
  nbits_le := pd.nbits_le
  moved_mod := by
    have := pd.moved_mod
    omega

/-- The number that the first `k` octets spell, which are in the buffer. -/
def leading (pd : AsnBitData) (k : Nat) (_ : k ≤ pd.buffer.length) : Nat :=
  octetsValue (pd.buffer.take k)

theorem room {pd : AsnBitData} {n : Nat} (h : n ≤ pd.nbits - pd.nboff) :
    pd.normalize.nboff + n ≤ pd.normalize.nbits := by
  have := pd.nboff_le
  show pd.nboff % 8 + n ≤ pd.nbits - 8 * (pd.nboff / 8)
  omega

theorem octetsFor_room {pd : AsnBitData} {n : Nat} (hn : n ≠ 0) (h : pd.nboff + n ≤ pd.nbits) :
    octetsFor (pd.nboff + n) ≤ pd.buffer.length :=
  octetsFor_le (by omega) (h.trans pd.nbits_le)

/-- `asn_get_few_bits`, with `again` for the two calls that it makes of itself; `none` is `-1`. -/
def getFewBitsWith (again : Nat → StateT AsnBitData Option Nat) (n : Nat) :
    StateT AsnBitData Option Nat := fun pd =>
  if h : n ≤ pd.nbits - pd.nboff then
    let next := pd.normalize.advance n (room h)
    let off := pd.normalize.nboff + n
    if hn : n = 0 then some (0, next)
    else if off ≤ 31 then
      let accum := pd.normalize.leading (octetsFor off) (octetsFor_room hn (room h)) >>>
        (8 * octetsFor off - off)
      some (accum &&& (2 ^ n - 1), next)
    else if n ≤ 31 then do
      let (high, tpd) ← again (n - 24) pd.normalize
      let (low, _) ← again 24 tpd
      some ((high <<< 24 ||| low) &&& (2 ^ n - 1), next)
    else none
  else none

end AsnBitData

/-- `asn_get_few_bits`. The calls of itself ask for at most 24 bits, and make no more calls. -/
def perGetFewBits (n : Nat) : StateT AsnBitData Option Nat :=
  AsnBitData.getFewBitsWith (AsnBitData.getFewBitsWith fun _ _ => none) n

/-- Steps of 24 bits. -/
def getTriples : Nat → StateT AsnBitData Option (List UInt8)
  | 0 => pure []
  | n + 1 => do
    let value ← perGetFewBits 24
    let dst ← getTriples n
    return octetsOfNat 3 value ++ dst

/-- `asn_get_many_bits` to `dst`, without right alignment. -/
def perGetManyBits (nbits : Nat) : StateT AsnBitData Option (List UInt8) := do
  let dst ← getTriples (nbits / 24)
  let value ← perGetFewBits (nbits % 24)
  return dst ++ octetsOfNat ((nbits % 24 + 7) / 8) (value <<< padding (nbits % 24))

/-! ## Putting bits -/

/-- `asn_bit_outp_t`: `buffer` is an offset into `tmpspace`, `flushed` what `output` was given. -/
structure AsnBitOutp where
  tmpspace : List UInt8
  buffer : Nat
  nboff : Nat
  nbits : Nat
  flushed : List UInt8
  length_tmpspace : tmpspace.length = 32
  nbits_eq : 8 * buffer + nbits = 256
  nboff_le : nboff ≤ nbits

namespace AsnBitOutp

/-- The stream that `aper_encode` starts with, over any octets in `tmpspace`. -/
def new (tmpspace : List UInt8) (h : tmpspace.length = 32) : AsnBitOutp :=
  ⟨tmpspace, 0, 0, 256, [], h, rfl, Nat.zero_le _⟩

/-- The stream over zeros. -/
def empty : AsnBitOutp := new (List.replicate 32 0) List.length_replicate

/-- The position indicator normalized. -/
def normalize (po : AsnBitOutp) : AsnBitOutp where
  tmpspace := po.tmpspace
  buffer := po.buffer + po.nboff / 8
  nboff := po.nboff % 8
  nbits := po.nbits - 8 * (po.nboff / 8)
  flushed := po.flushed
  length_tmpspace := po.length_tmpspace
  nbits_eq := by
    have := po.nbits_eq
    have := po.nboff_le
    omega
  nboff_le := by
    have := po.nboff_le
    omega

theorem buffer_lt {po : AsnBitOutp} (h : po.nboff ≠ 0) : po.buffer < po.tmpspace.length := by
  have := po.nbits_eq
  have := po.nboff_le
  have := po.length_tmpspace
  omega

/-- The complete octets go out, the bits of the one begun move to the front. -/
def flush (po : AsnBitOutp) (h : po.nboff < 8) : AsnBitOutp where
  tmpspace :=
    if hoff : po.nboff ≠ 0 then
      po.tmpspace.set 0 (po.tmpspace.get ⟨po.buffer, buffer_lt hoff⟩)
    else po.tmpspace
  buffer := 0
  nboff := po.nboff
  nbits := 256
  flushed := po.flushed ++ po.tmpspace.take po.buffer
  length_tmpspace := by
    have := po.length_tmpspace
    split
    · rw [List.length_set, this]
    · exact this
  nbits_eq := rfl
  nboff_le := by omega

/-- The flush, if the next `obits` bits do not fit. -/
def makeRoom (po : AsnBitOutp) (h : po.nboff < 8) (obits : Nat) : AsnBitOutp :=
  if po.nboff + obits > po.nbits then po.flush h else po

theorem makeRoom_room {po : AsnBitOutp} (h : po.nboff < 8) {obits : Nat} (ho : obits < 32) :
    (po.makeRoom h obits).nboff + obits ≤ (po.makeRoom h obits).nbits := by
  unfold makeRoom
  split
  · show po.nboff + obits ≤ 256
    omega
  · omega

theorem store_room {po : AsnBitOutp} {obits : Nat} (hpos : 0 < obits)
    (h : po.nboff + obits ≤ po.nbits) :
    po.buffer + octetsFor (po.nboff + obits) ≤ po.tmpspace.length := by
  have hnbits := po.nbits_eq
  have hlen := po.length_tmpspace
  have := octetsFor_le (n := 32 - po.buffer) (by omega : 0 < po.nboff + obits) (by omega)
  omega

/-- The octets that `bits` make with the bits that are in the first one already. -/
def merged (po : AsnBitOutp) (bits obits : Nat) (h : po.buffer < po.tmpspace.length) :
    List UInt8 :=
  let off := po.nboff + obits
  let omsk := 256 - 2 ^ (8 - po.nboff)
  let bits := bits <<< (8 * octetsFor off - off)
  let buf0 := (po.tmpspace.get ⟨po.buffer, h⟩).toNat
  (buf0 &&& omsk ||| bits >>> (8 * (octetsFor off - 1))).toUInt8 ::
    octetsOfNat (octetsFor off - 1) bits

theorem length_merged (po : AsnBitOutp) (bits obits : Nat) (h) :
    (po.merged bits obits h).length = octetsFor (po.nboff + obits) := by
  have hpos : 0 < octetsFor (po.nboff + obits) := by
    unfold octetsFor
    split_ifs <;> decide
  show (octetsOfNat _ _).length + 1 = _
  rw [length_octetsOfNat]
  omega

/-- The stores of `obits` bits, for which there is room. -/
def store (po : AsnBitOutp) (bits obits : Nat) (hpos : 0 < obits)
    (h : po.nboff + obits ≤ po.nbits) : AsnBitOutp :=
  have hroom := store_room hpos h
  have hbuffer : po.buffer < po.tmpspace.length := by
    have := po.nbits_eq
    have := po.length_tmpspace
    omega
  { po with
    tmpspace :=
      po.tmpspace.take po.buffer ++ po.merged bits obits hbuffer ++
        po.tmpspace.drop (po.buffer + octetsFor (po.nboff + obits))
    nboff := po.nboff + obits
    length_tmpspace := by
      have := po.length_tmpspace
      rw [List.length_append, List.length_append, length_merged, List.length_take,
        List.length_drop]
      omega
    nboff_le := h }

/-- `asn_put_few_bits`, with `again` for the two calls that it makes of itself; `none` is `-1`. -/
def putFewBitsWith (again : Nat → Nat → AsnBitOutp → Option AsnBitOutp) (bits obits : Nat)
    (po : AsnBitOutp) : Option AsnBitOutp :=
  if h0 : obits = 0 then some po
  else if h32 : obits ≥ 32 then none
  else
    have hoff : po.normalize.nboff < 8 := Nat.mod_lt _ (by decide)
    let po := po.normalize.makeRoom hoff obits
    let bits := bits &&& (2 ^ obits - 1)
    if po.nboff + obits ≤ 31 then
      some (po.store bits obits (by omega) (makeRoom_room hoff (by omega)))
    else do
      let po ← again (bits >>> (obits - 24)) 24 po
      again bits (obits - 24) po

end AsnBitOutp

/-- `asn_put_few_bits`. The calls of itself put at most 24 bits, and make no more calls. -/
def perPutFewBits (bits obits : Nat) : AsnBitOutp → Option AsnBitOutp :=
  AsnBitOutp.putFewBitsWith (AsnBitOutp.putFewBitsWith fun _ _ _ => none) bits obits

/-- Steps of 24 bits; `none` also for a read outside `src`. -/
def putTriples : Nat → List UInt8 → AsnBitOutp → Option AsnBitOutp
  | 0, _, po => some po
  | n + 1, src, po =>
    if 3 ≤ src.length then
      perPutFewBits (octetsValue (src.take 3)) 24 po >>= putTriples n (src.drop 3)
    else none

/-- `asn_put_many_bits` from `src`; `none` also for a read outside it. -/
def perPutManyBits (src : List UInt8) (nbits : Nat) (po : AsnBitOutp) : Option AsnBitOutp := do
  let po ← putTriples (nbits / 24) src po
  let last := (src.drop (3 * (nbits / 24))).take ((nbits % 24 + 7) / 8)
  if last.length = (nbits % 24 + 7) / 8 then
    perPutFewBits (octetsValue last >>> padding (nbits % 24)) (nbits % 24) po
  else none

/-- The buffer of `aper_encode_to_new_buffer` after `_aper_encode_flush_outp`: the bits behind the
last one are cleared. -/
def AsnBitOutp.finish (po : AsnBitOutp) : List UInt8 :=
  let po := po.normalize
  let buf := po.flushed ++ po.tmpspace.take po.buffer
  if hoff : po.nboff ≠ 0 then
    let octet := (po.tmpspace.get ⟨po.buffer, AsnBitOutp.buffer_lt hoff⟩).toNat
    buf ++ [(octet &&& (0xff <<< (8 - po.nboff))).toUInt8]
  else buf

/-! ## The bits taken -/

namespace AsnBitData

instance : BitSource AsnBitData where
  off pd := pd.moved
  rest pd := ((ofOctets pd.buffer).take pd.nbits).drop pd.nboff
  behind pd := 8 * pd.buffer.length - pd.nbits

theorem rest_eq (pd : AsnBitData) :
    BitSource.rest pd = ((ofOctets pd.buffer).take pd.nbits).drop pd.nboff := rfl

@[simp] theorem length_rest (pd : AsnBitData) :
    (BitSource.rest pd).length = pd.nbits - pd.nboff := by
  rw [rest_eq, List.length_drop, List.length_take, length_ofOctets, Nat.min_eq_left pd.nbits_le]

/-- A stream of just these bits, with any number of bits gone. -/
theorem exists_at (off : Nat) (bs : List Bool) :
    ∃ (pd : AsnBitData) (behind : Nat), At pd off behind bs := by
  have hlen : (List.replicate off false ++ bs).length = off + bs.length := by
    rw [List.length_append, List.length_replicate]
  have hle : off + bs.length ≤ 8 * (toOctets (List.replicate off false ++ bs)).length := by
    rw [length_toOctets, hlen]
    omega
  refine ⟨⟨toOctets (List.replicate off false ++ bs), off, off + bs.length, off,
    Nat.le_add_right _ _, hle, rfl⟩, _, rfl, ?_, rfl⟩
  show ((ofOctets (toOctets (List.replicate off false ++ bs))).take (off + bs.length)).drop off = bs
  rw [← hlen, take_ofOctets_toOctets, List.drop_left' List.length_replicate]

theorem rest_ofBuffer (buffer : List UInt8) :
    BitSource.rest (ofBuffer buffer) = ofOctets buffer :=
  List.take_of_length_le (Nat.le_of_eq (length_ofOctets buffer))

theorem rest_normalize (pd : AsnBitData) : BitSource.rest pd.normalize = BitSource.rest pd := by
  have hcut : pd.nboff = 8 * (pd.nboff / 8) + pd.nboff % 8 := by omega
  show ((ofOctets (pd.buffer.drop (pd.nboff / 8))).take
    (pd.nbits - 8 * (pd.nboff / 8))).drop (pd.nboff % 8) = _
  rw [← drop_ofOctets, ← List.drop_take, List.drop_drop, ← hcut, rest_eq]

/-- The stream over a whole buffer starts with all its bits. -/
theorem at_ofBuffer (buffer : List UInt8) : At (ofBuffer buffer) 0 0 (ofOctets buffer) :=
  ⟨rfl, rest_ofBuffer buffer, Nat.sub_self _⟩

theorem behind_normalize (pd : AsnBitData) :
    BitSource.behind pd.normalize = BitSource.behind pd := by
  have := pd.nboff_le
  have := pd.nbits_le
  show 8 * (pd.buffer.drop (pd.nboff / 8)).length - (pd.nbits - 8 * (pd.nboff / 8)) =
    8 * pd.buffer.length - pd.nbits
  rw [List.length_drop]
  omega

theorem rest_advance (pd : AsnBitData) (n : Nat) (h) :
    BitSource.rest (pd.advance n h) = (BitSource.rest pd).drop n := by
  rw [rest_eq pd, List.drop_drop]
  rfl

/-- The shift and the mask leave the bits between the offset and the end. -/
theorem toNat_take_rest {pd : AsnBitData} {n k : Nat} (hk : k ≤ pd.buffer.length)
    (hle : pd.nboff + n ≤ 8 * k) (h : pd.nboff + n ≤ pd.nbits) :
    (pd.leading k hk >>> (8 * k - (pd.nboff + n))) &&& (2 ^ n - 1) =
      toNat ((BitSource.rest pd).take n) := by
  have htake : (BitSource.rest pd).take n =
      ((ofOctets pd.buffer).take (pd.nboff + n)).drop pd.nboff := by
    rw [rest_eq, List.take_drop, List.take_take, Nat.min_eq_left h]
  have hlen : ((ofOctets pd.buffer).take (8 * k)).length = 8 * k := by
    rw [List.length_take, length_ofOctets]
    omega
  have hcut : toNat ((ofOctets pd.buffer).take (8 * k)) / 2 ^ (8 * k - (pd.nboff + n)) =
      toNat ((ofOctets pd.buffer).take (pd.nboff + n)) := by
    have hdiv := toNat_append_div (((ofOctets pd.buffer).take (8 * k)).take (pd.nboff + n))
      (((ofOctets pd.buffer).take (8 * k)).drop (pd.nboff + n))
    rwa [List.take_append_drop, List.length_drop, hlen, List.take_take,
      Nat.min_eq_left hle] at hdiv
  have hmod := toNat_append_mod (((ofOctets pd.buffer).take (pd.nboff + n)).take pd.nboff)
    (((ofOctets pd.buffer).take (pd.nboff + n)).drop pd.nboff)
  rw [List.take_append_drop, ← htake, List.length_take, length_rest, Nat.min_eq_left (by omega)]
    at hmod
  rw [Nat.and_two_pow_sub_one_eq_mod, Nat.shiftRight_eq_div_pow, leading, ← toNat_ofOctets,
    ← take_ofOctets, hcut, hmod]

/-- The call takes the next `n` bits, and returns their number. -/
def Took (n : Nat) (pd : AsnBitData) (r : Option (Nat × AsnBitData)) : Prop :=
  ∃ next, r = some (toNat ((BitSource.rest pd).take n), next) ∧
    next.moved = pd.moved + n ∧ BitSource.rest next = (BitSource.rest pd).drop n ∧
    BitSource.behind next = BitSource.behind pd

theorem getFewBitsWith_took {again : Nat → StateT AsnBitData Option Nat} {n : Nat}
    {pd : AsnBitData} (hn : n ≤ 31) (hrest : n ≤ (BitSource.rest pd).length)
    (hagain : 32 ≤ pd.nboff % 8 + n → ∀ m tpd, m ≤ 24 → m ≤ (BitSource.rest tpd).length →
      Took m tpd (again m tpd)) :
    Took n pd (getFewBitsWith again n pd) := by
  rw [length_rest] at hrest
  have hroom := room hrest
  have hnext : BitSource.rest (pd.normalize.advance n hroom) = (BitSource.rest pd).drop n ∧
      BitSource.behind (pd.normalize.advance n hroom) = BitSource.behind pd :=
    ⟨by rw [rest_advance, rest_normalize], behind_normalize pd⟩
  unfold getFewBitsWith
  rw [dif_pos hrest]
  by_cases h0 : n = 0
  · subst h0
    exact ⟨_, dif_pos rfl, rfl, hnext⟩
  have hoff : pd.normalize.nboff = pd.nboff % 8 := rfl
  by_cases h31 : pd.normalize.nboff + n ≤ 31
  · refine ⟨_, ?_, rfl, hnext⟩
    simp only [dif_neg h0, if_pos h31]
    rw [toNat_take_rest _ (le_octetsFor (by omega)) hroom, rest_normalize]
  · obtain ⟨tpd, htake, -, hdrop, -⟩ := hagain (by omega) (n - 24) pd.normalize (by omega)
      (by rw [rest_normalize, length_rest]; omega)
    rw [rest_normalize] at htake hdrop
    have hlow : 24 ≤ (BitSource.rest tpd).length := by
      rw [hdrop, List.length_drop, length_rest]
      omega
    obtain ⟨last, htake', -⟩ := hagain (by omega) 24 tpd (Nat.le_refl _) hlow
    refine ⟨_, ?_, rfl, hnext⟩
    simp only [dif_neg h0, if_neg h31, if_pos hn, htake, htake', hdrop, Option.bind_eq_bind,
      Option.bind_some]
    have hsplit : (BitSource.rest pd).take n =
        (BitSource.rest pd).take (n - 24) ++ ((BitSource.rest pd).drop (n - 24)).take 24 := by
      rw [← List.take_add]
      congr 1
      omega
    have hlen : (((BitSource.rest pd).drop (n - 24)).take 24).length = 24 := by
      rw [← hdrop, List.length_take, Nat.min_eq_left hlow]
    have hlt := toNat_lt (((BitSource.rest pd).drop (n - 24)).take 24)
    have hall := toNat_lt ((BitSource.rest pd).take n)
    have hvalue := toNat_append ((BitSource.rest pd).take (n - 24))
      (((BitSource.rest pd).drop (n - 24)).take 24)
    rw [hlen] at hlt
    rw [List.length_take, length_rest, Nat.min_eq_left hrest] at hall
    rw [← hsplit, hlen] at hvalue
    rw [← Nat.shiftLeft_add_eq_or_of_lt hlt, Nat.and_two_pow_sub_one_eq_mod,
      Nat.shiftLeft_eq, ← hvalue, Nat.mod_eq_of_lt hall]

end AsnBitData

theorem perGetFewBits_took {n : Nat} {pd : AsnBitData} (hn : n ≤ 31)
    (hrest : n ≤ (BitSource.rest pd).length) :
    AsnBitData.Took n pd (perGetFewBits n pd) :=
  AsnBitData.getFewBitsWith_took hn hrest fun _ m tpd hm htpd =>
    AsnBitData.getFewBitsWith_took (by omega) htpd fun h => absurd h (by omega)

theorem perGetFewBits_none {n : Nat} {pd : AsnBitData}
    (hrest : (BitSource.rest pd).length < n) : perGetFewBits n pd = none := by
  rw [AsnBitData.length_rest] at hrest
  exact dif_neg (by omega)

/-- The call returns the number of the next bits, whatever is behind them. -/
theorem gets_perGetFewBits {bs : List Bool} (h : bs.length ≤ 31) (off : Nat) :
    Gets (perGetFewBits bs.length) off bs (toNat bs) := by
  intro pd behind rest hpd
  have hle : bs.length ≤ (BitSource.rest pd).length := by
    rw [hpd.rest_eq, List.length_append]
    omega
  obtain ⟨next, htook, hmoved, hrest, hbehind⟩ := perGetFewBits_took h hle
  rw [hpd.rest_eq, List.take_left] at htook
  rw [hpd.rest_eq, List.drop_left] at hrest
  refine ⟨next, htook, ?_, hrest, hbehind.trans hpd.behind_eq⟩
  rw [← hpd.off_eq]
  exact hmoved

theorem gets_number {n value : Nat} (hn : n ≤ 31) (h : value < 2 ^ n) (off : Nat) :
    Gets (perGetFewBits n) off (ofNat n value) value := by
  have hget := gets_perGetFewBits (by rwa [length_ofNat] : (ofNat n value).length ≤ 31) off
  rwa [length_ofNat, toNat_ofNat_of_lt h] at hget

theorem gets_getTriples {n : Nat} {s : List UInt8} (h : s.length = 3 * n) (off : Nat) :
    Gets (getTriples n) off (ofOctets s) s := by
  induction n generalizing s off with
  | zero =>
    rw [List.length_eq_zero_iff.mp h]
    exact Gets.pure [] off
  | succ n ih =>
    have hthree : (s.take 3).length = 3 := by
      rw [List.length_take]
      omega
    have hbits : (ofOctets (s.take 3)).length = 24 := by rw [length_ofOctets, hthree]
    have hvalue : octetsOfNat 3 (toNat (ofOctets (s.take 3))) = s.take 3 := by
      have := octetsOfNat_toNat (s.take 3)
      rwa [hthree] at this
    have hfew := gets_perGetFewBits (by omega : (ofOctets (s.take 3)).length ≤ 31) off
    rw [hbits] at hfew
    have hrest := (ih (s := s.drop 3) (by rw [List.length_drop]; omega)
      (off + (ofOctets (s.take 3)).length)).map (octetsOfNat 3 (toNat (ofOctets (s.take 3))) ++ ·)
    have hall := hfew.bind (k := fun value => (octetsOfNat 3 value ++ ·) <$> getTriples n) hrest
    rwa [hvalue, ← ofOctets_append, List.take_append_drop] at hall

/-- The call stores the next bits, in octets of which the last one is filled up with zeros. -/
theorem gets_perGetManyBits (bs : List Bool) (off : Nat) :
    Gets (perGetManyBits bs.length) off bs (toOctets bs) := by
  have hlast : (bs.drop (24 * (bs.length / 24))).length = bs.length % 24 := by
    rw [List.length_drop]
    omega
  have hfirst : (bs.take (24 * (bs.length / 24))).length = 24 * (bs.length / 24) := by
    rw [List.length_take]
    omega
  have hwhole : ofOctets (toOctets (bs.take (24 * (bs.length / 24)))) =
      bs.take (24 * (bs.length / 24)) := by
    have hnone : padding (bs.take (24 * (bs.length / 24))).length = 0 := by
      unfold padding
      omega
    rw [ofOctets_toOctets, hnone, List.replicate_zero, List.append_nil]
  have htriples := gets_getTriples (n := bs.length / 24)
    (s := toOctets (bs.take (24 * (bs.length / 24)))) (by rw [length_toOctets]; omega) off
  rw [hwhole] at htriples
  have hfew := (gets_perGetFewBits (by omega : (bs.drop (24 * (bs.length / 24))).length ≤ 31)
    (off + (bs.take (24 * (bs.length / 24))).length)).map fun value =>
      toOctets (bs.take (24 * (bs.length / 24))) ++
        octetsOfNat ((bs.length % 24 + 7) / 8) (value <<< padding (bs.length % 24))
  have hall := htriples.bind (k := fun dst => (fun value =>
    dst ++ octetsOfNat ((bs.length % 24 + 7) / 8) (value <<< padding (bs.length % 24))) <$>
      perGetFewBits (bs.drop (24 * (bs.length / 24))).length) hfew
  rw [List.take_append_drop] at hall
  have hoctets : toOctets bs = toOctets (bs.take (24 * (bs.length / 24))) ++
      toOctets (bs.drop (24 * (bs.length / 24))) := by
    rw [← toOctets_append (by omega), List.take_append_drop]
  have hleft : toOctets (bs.drop (24 * (bs.length / 24))) = octetsOfNat ((bs.length % 24 + 7) / 8)
      (toNat (bs.drop (24 * (bs.length / 24))) <<< padding (bs.length % 24)) := by
    rw [toOctets, hlast, Nat.shiftLeft_eq]
  rw [hlast] at hall
  rw [hoctets, hleft]
  exact hall

/-! ## The bits put -/

namespace AsnBitOutp

instance : BitSink AsnBitOutp where
  bits po := ofOctets po.flushed ++ (ofOctets po.tmpspace).take (8 * po.buffer + po.nboff)

theorem bits_eq (po : AsnBitOutp) : BitSink.bits po =
    ofOctets po.flushed ++ (ofOctets po.tmpspace).take (8 * po.buffer + po.nboff) := rfl

theorem length_bits (po : AsnBitOutp) :
    (BitSink.bits po).length = 8 * (po.flushed.length + po.buffer) + po.nboff := by
  have := po.nbits_eq
  have := po.nboff_le
  have := po.length_tmpspace
  rw [bits_eq, List.length_append, List.length_take, length_ofOctets, length_ofOctets]
  omega

@[simp] theorem bits_new (tmpspace : List UInt8) (h) :
    BitSink.bits (new tmpspace h) = [] := rfl

theorem bits_normalize (po : AsnBitOutp) : BitSink.bits po.normalize = BitSink.bits po := by
  have hcut : 8 * (po.buffer + po.nboff / 8) + po.nboff % 8 = 8 * po.buffer + po.nboff := by
    omega
  show ofOctets po.flushed ++ (ofOctets po.tmpspace).take
    (8 * (po.buffer + po.nboff / 8) + po.nboff % 8) = _
  rw [hcut, bits_eq]

/-- The bits of the octet begun are those behind the complete octets. -/
theorem take_tmpspace {po : AsnBitOutp} (h : po.buffer < po.tmpspace.length)
    (hoff : po.nboff ≤ 8) : (ofOctets po.tmpspace).take (8 * po.buffer + po.nboff) =
      ofOctets (po.tmpspace.take po.buffer) ++
        (ofNat 8 (po.tmpspace.get ⟨po.buffer, h⟩).toNat).take po.nboff := by
  have hdrop : po.tmpspace.drop po.buffer =
      po.tmpspace.get ⟨po.buffer, h⟩ :: po.tmpspace.drop (po.buffer + 1) :=
    List.drop_eq_getElem_cons h
  rw [List.take_add, take_ofOctets, drop_ofOctets, hdrop, ofOctets_cons,
    List.take_append_of_le_length (by rw [length_ofNat]; exact hoff)]

theorem bits_flush (po : AsnBitOutp) (h) : BitSink.bits (po.flush h) = BitSink.bits po := by
  by_cases hoff : po.nboff = 0
  · have hcut : (ofOctets (po.flush h).tmpspace).take (8 * 0 + po.nboff) = [] := by
      rw [hoff]
      rfl
    have htake : (ofOctets po.tmpspace).take (8 * po.buffer + po.nboff) =
        ofOctets (po.tmpspace.take po.buffer) := by rw [hoff, Nat.add_zero, take_ofOctets]
    show ofOctets (po.flushed ++ po.tmpspace.take po.buffer) ++
      (ofOctets (po.flush h).tmpspace).take (8 * 0 + po.nboff) = _
    rw [hcut, List.append_nil, ofOctets_append, bits_eq, htake]
  · have hlt : po.buffer < po.tmpspace.length := buffer_lt hoff
    have hset : (po.flush h).tmpspace =
        po.tmpspace.set 0 (po.tmpspace.get ⟨po.buffer, hlt⟩) := dif_pos hoff
    have hzero : 0 < (po.flush h).tmpspace.length := by
      rw [(po.flush h).length_tmpspace]
      decide
    have hget : (po.flush h).tmpspace.get ⟨0, hzero⟩ = po.tmpspace.get ⟨po.buffer, hlt⟩ := by
      simp [hset]
    have hbuffer : (po.flush h).buffer < (po.flush h).tmpspace.length := hzero
    have htake := take_tmpspace hbuffer (Nat.le_of_lt h)
    rw [bits_eq, htake, bits_eq po, take_tmpspace hlt (Nat.le_of_lt h)]
    show ofOctets (po.flushed ++ po.tmpspace.take po.buffer) ++ (ofOctets ([] : List UInt8) ++
      (ofNat 8 ((po.flush h).tmpspace.get ⟨0, hzero⟩).toNat).take po.nboff) = _
    rw [hget, ofOctets_append, ofOctets_nil, List.nil_append, List.append_assoc]

theorem bits_makeRoom (po : AsnBitOutp) (h) (obits : Nat) :
    BitSink.bits (po.makeRoom h obits) = BitSink.bits po := by
  unfold makeRoom
  split
  · exact bits_flush po h
  · rfl

/-- The octets stored are the bits of the octet begun, the new ones, and zeros. -/
theorem ofOctets_merged {po : AsnBitOutp} {bits obits : Nat} (h) (hoff : po.nboff < 8)
    (hpos : 0 < obits) (hle : po.nboff + obits ≤ 31) (hlt : bits < 2 ^ obits) :
    ofOctets (po.merged bits obits h) =
      (ofNat 8 (po.tmpspace.get ⟨po.buffer, h⟩).toNat).take po.nboff ++ ofNat obits bits ++
        ofNat (8 * octetsFor (po.nboff + obits) - (po.nboff + obits)) 0 := by
  have hfor := le_octetsFor (by omega : po.nboff + obits ≤ 32)
  simp only [merged]
  generalize octetsFor (po.nboff + obits) = k at *
  generalize hx : po.tmpspace.get ⟨po.buffer, h⟩ = octet
  generalize hs : bits <<< (8 * k - (po.nboff + obits)) = shifted
  have hmul : shifted = bits * 2 ^ (8 * k - (po.nboff + obits)) + 0 := by
    rw [← hs, Nat.shiftLeft_eq, Nat.add_zero]
  have hhigh : shifted / 2 ^ (8 * (k - 1)) < 2 ^ (8 - po.nboff) := by
    have hexp : 8 * (k - 1) + (8 - po.nboff) = obits + (8 * k - (po.nboff + obits)) := by omega
    refine Nat.div_lt_of_lt_mul ?_
    rw [← Nat.pow_add, hexp, Nat.pow_add, hmul]
    exact Nat.mul_lt_mul_of_pos_right hlt (Nat.two_pow_pos _)
  have hor : octet.toNat &&& (256 - 2 ^ (8 - po.nboff)) ||| shifted >>> (8 * (k - 1)) =
      octet.toNat / 2 ^ (8 - po.nboff) * 2 ^ (8 - po.nboff) + shifted / 2 ^ (8 * (k - 1)) := by
    have hmask : 256 - 2 ^ (8 - po.nboff) = (2 ^ po.nboff - 1) <<< (8 - po.nboff) := by
      rw [Nat.shiftLeft_eq, Nat.sub_one_mul, ← Nat.pow_add, Nat.add_sub_cancel' (Nat.le_of_lt hoff)]
    have hwidth : 8 - po.nboff + po.nboff = 8 := by omega
    rw [hmask, and_mask_shiftLeft (by rw [hwidth]; exact octet.toNat_lt),
      Nat.shiftRight_eq_div_pow, ← Nat.shiftLeft_eq, Nat.shiftLeft_add_eq_or_of_lt hhigh]
  have hhead : ofNat 8 ((octet.toNat / 2 ^ (8 - po.nboff) * 2 ^ (8 - po.nboff) +
      shifted / 2 ^ (8 * (k - 1))).toUInt8).toNat =
      (ofNat 8 octet.toNat).take po.nboff ++
        ofNat (8 - po.nboff) (shifted / 2 ^ (8 * (k - 1))) := by
    rw [take_ofNat (Nat.le_of_lt hoff), ← ofNat_mul_add hhigh,
      Nat.add_sub_cancel' (Nat.le_of_lt hoff)]
    exact ofNat_congr (Nat.mod_mod _ _)
  have htail : ofNat (8 - po.nboff) (shifted / 2 ^ (8 * (k - 1))) ++ ofNat (8 * (k - 1)) shifted =
      ofNat obits bits ++ ofNat (8 * k - (po.nboff + obits)) 0 := by
    have hexp : 8 - po.nboff + 8 * (k - 1) = obits + (8 * k - (po.nboff + obits)) := by omega
    rw [← ofNat_append, hexp, hmul, ofNat_mul_add (Nat.two_pow_pos _)]
  rw [ofOctets_cons, ofOctets_octetsOfNat, hor, hhead, List.append_assoc, htail,
    List.append_assoc]

theorem bits_store {po : AsnBitOutp} {bits obits : Nat} (hoff : po.nboff < 8) (hpos : 0 < obits)
    (hroom : po.nboff + obits ≤ po.nbits) (hle : po.nboff + obits ≤ 31)
    (hlt : bits < 2 ^ obits) :
    BitSink.bits (po.store bits obits hpos hroom) = BitSink.bits po ++ ofNat obits bits := by
  have hbuffer : po.buffer < po.tmpspace.length := by
    have := po.nbits_eq
    have := po.length_tmpspace
    omega
  have hprefix : (ofOctets (po.tmpspace.take po.buffer)).length = 8 * po.buffer := by
    rw [length_ofOctets, List.length_take, Nat.min_eq_left (Nat.le_of_lt hbuffer)]
  have hbits : ((ofNat 8 (po.tmpspace.get ⟨po.buffer, hbuffer⟩).toNat).take po.nboff ++
      ofNat obits bits).length = po.nboff + obits := by
    rw [List.length_append, List.length_take, length_ofNat, length_ofNat]
    omega
  show ofOctets po.flushed ++ (ofOctets (po.tmpspace.take po.buffer ++
    po.merged bits obits hbuffer ++ po.tmpspace.drop (po.buffer +
      octetsFor (po.nboff + obits)))).take (8 * po.buffer + (po.nboff + obits)) = _
  rw [ofOctets_append, ofOctets_append, ofOctets_merged hbuffer hoff hpos hle hlt,
    List.append_assoc, ← hprefix, List.take_length_add_append, List.append_assoc, ← hbits,
    List.take_left, bits_eq, take_tmpspace hbuffer (Nat.le_of_lt hoff), List.append_assoc,
    List.append_assoc]

theorem putFewBitsWith_puts {again : Nat → Nat → AsnBitOutp → Option AsnBitOutp}
    {bits obits : Nat} (hobits : obits ≤ 31)
    (hagain : 25 ≤ obits → ∀ bits m, m ≤ 24 → Puts (again bits m) fun _ => ofNat m bits) :
    Puts (putFewBitsWith again bits obits) fun _ => ofNat obits bits := by
  intro po
  unfold putFewBitsWith
  by_cases h0 : obits = 0
  · subst h0
    exact ⟨po, dif_pos rfl, (List.append_nil _).symm⟩
  have hoff : po.normalize.nboff < 8 := Nat.mod_lt _ (by decide)
  have hoff' : (po.normalize.makeRoom hoff obits).nboff < 8 := by
    unfold makeRoom
    split
    · exact hoff
    · exact hoff
  have hsame : BitSink.bits (po.normalize.makeRoom hoff obits) = BitSink.bits po := by
    rw [bits_makeRoom, bits_normalize]
  have hlt : bits &&& (2 ^ obits - 1) < 2 ^ obits := by
    rw [Nat.and_two_pow_sub_one_eq_mod]
    exact Nat.mod_lt _ (Nat.two_pow_pos _)
  have hlow : ofNat obits (bits &&& (2 ^ obits - 1)) = ofNat obits bits := by
    rw [Nat.and_two_pow_sub_one_eq_mod, ofNat_mod]
  rw [dif_neg h0, dif_neg (by omega)]
  simp only
  by_cases h31 : (po.normalize.makeRoom hoff obits).nboff + obits ≤ 31
  · refine ⟨_, if_pos h31, ?_⟩
    rw [bits_store hoff' (by omega) _ h31 hlt, hsame, hlow]
  · obtain ⟨p1, hput1, hbits1⟩ := hagain (by omega)
      ((bits &&& (2 ^ obits - 1)) >>> (obits - 24)) 24 (Nat.le_refl _)
      (po.normalize.makeRoom hoff obits)
    obtain ⟨p2, hput2, hbits2⟩ := hagain (by omega) (bits &&& (2 ^ obits - 1)) (obits - 24)
      (by omega) p1
    refine ⟨p2, ?_, ?_⟩
    · rw [if_neg h31, hput1]
      exact hput2
    · have hexp : 24 + (obits - 24) = obits := by omega
      rw [hbits2, hbits1, List.append_assoc, Nat.shiftRight_eq_div_pow, ← ofNat_append, hexp,
        hsame, hlow]

end AsnBitOutp

theorem puts_perPutFewBits (bits : Nat) {obits : Nat} (h : obits ≤ 31) :
    Puts (perPutFewBits bits obits) fun _ => ofNat obits bits :=
  AsnBitOutp.putFewBitsWith_puts h fun _ _ _ hm =>
    AsnBitOutp.putFewBitsWith_puts (by omega) fun h => absurd h (by omega)

theorem puts_putTriples {n : Nat} {src : List UInt8} (h : 3 * n ≤ src.length) :
    Puts (putTriples n src) fun _ => ofOctets (src.take (3 * n)) := by
  induction n generalizing src with
  | zero =>
    intro po
    exact ⟨po, rfl, (List.append_nil _).symm⟩
  | succ n ih =>
    have hthree : (ofOctets (src.take 3)).length = 24 := by
      rw [length_ofOctets, List.length_take]
      omega
    have hvalue : ofNat 24 (octetsValue (src.take 3)) = ofOctets (src.take 3) := by
      rw [← toNat_ofOctets, ← hthree, ofNat_toNat]
    have hsplit : src.take (3 * (n + 1)) = src.take 3 ++ (src.drop 3).take (3 * n) := by
      rw [← List.take_add]
      congr 1
      omega
    have hput := (puts_perPutFewBits (octetsValue (src.take 3)) (by decide : 24 ≤ 31)).bind
      (ih (by rw [List.length_drop]; omega : 3 * n ≤ (src.drop 3).length))
    intro po
    obtain ⟨po', hpo', hbits⟩ := hput po
    refine ⟨po', ?_, ?_⟩
    · rw [putTriples, if_pos (by omega)]
      exact hpo'
    · rw [hbits, hvalue, hsplit, ofOctets_append]

/-- The call puts the first bits of the octets. -/
theorem puts_perPutManyBits {src : List UInt8} {nbits : Nat} (h : nbits ≤ 8 * src.length) :
    Puts (perPutManyBits src nbits) fun _ => (ofOctets src).take nbits := by
  let last := (src.drop (3 * (nbits / 24))).take ((nbits % 24 + 7) / 8)
  have hlast : last.length = (nbits % 24 + 7) / 8 := by
    rw [List.length_take, List.length_drop]
    omega
  have hvalue : ofNat (nbits % 24) (octetsValue last >>> padding (nbits % 24)) =
      (ofOctets last).take (nbits % 24) := by
    have hlen : (ofOctets last).length = nbits % 24 + padding (nbits % 24) := by
      rw [length_ofOctets, hlast, add_padding]
    have hall := ofNat_toNat (ofOctets last)
    rw [hlen, ofNat_append] at hall
    have hcut := congrArg (List.take (nbits % 24)) hall
    rw [List.take_left' (length_ofNat _ _)] at hcut
    rw [← toNat_ofOctets, Nat.shiftRight_eq_div_pow, hcut]
  have hbits : (ofOctets src).take nbits =
      ofOctets (src.take (3 * (nbits / 24))) ++ (ofOctets last).take (nbits % 24) := by
    have hsplit : nbits = 8 * (3 * (nbits / 24)) + nbits % 24 := by omega
    have hcut : (ofOctets last).take (nbits % 24) =
        (ofOctets (src.drop (3 * (nbits / 24)))).take (nbits % 24) := by
      rw [← take_ofOctets, List.take_take, Nat.min_eq_left (by omega)]
    rw [hcut]
    conv_lhs => rw [hsplit]
    rw [List.take_add, take_ofOctets, drop_ofOctets]
  have hput := (puts_putTriples (by omega : 3 * (nbits / 24) ≤ src.length)).bind
    (puts_perPutFewBits (octetsValue last >>> padding (nbits % 24)) (by omega : nbits % 24 ≤ 31))
  intro po
  obtain ⟨po', hpo', hbits'⟩ := hput po
  refine ⟨po', ?_, ?_⟩
  · show ((putTriples (nbits / 24) src po).bind fun po =>
      if last.length = (nbits % 24 + 7) / 8 then _ else none) = _
    simp only [if_pos hlast]
    exact hpo'
  · rw [hbits', hvalue, hbits]

/-- Any number of bits can be there already. -/
theorem AsnBitOutp.exists_bits (off : Nat) :
    ∃ po : AsnBitOutp, (BitSink.bits po).length = off := by
  obtain ⟨po, -, hbits⟩ := puts_perPutManyBits
    (by rw [List.length_replicate]; omega : off ≤ 8 * (List.replicate off (0 : UInt8)).length)
    AsnBitOutp.empty
  refine ⟨po, ?_⟩
  rw [hbits]
  show ([] ++ (ofOctets (List.replicate off 0)).take off).length = off
  rw [List.nil_append, List.length_take, length_ofOctets, List.length_replicate]
  omega

/-- The encoding is the bits that were put, the last octet filled up with zeros. -/
theorem AsnBitOutp.finish_eq (po : AsnBitOutp) : po.finish = toOctets (BitSink.bits po) := by
  have hoff : po.normalize.nboff < 8 := Nat.mod_lt _ (by decide)
  rw [← AsnBitOutp.bits_normalize, finish]
  generalize po.normalize = po at *
  refine ofOctets_injective ?_
  have hle : po.buffer ≤ po.tmpspace.length := by
    have := po.nbits_eq
    have := po.length_tmpspace
    omega
  rw [ofOctets_toOctets, length_bits]
  by_cases h0 : po.nboff = 0
  · have hpad : padding (8 * (po.flushed.length + po.buffer) + po.nboff) = 0 := by
      unfold padding
      omega
    simp only [h0, ne_eq, not_true_eq_false, dite_false]
    rw [← h0, hpad, List.replicate_zero, List.append_nil, bits_eq, h0, Nat.add_zero,
      take_ofOctets, ofOctets_append]
  · have hbuffer : po.buffer < po.tmpspace.length := buffer_lt h0
    have hpad : padding (8 * (po.flushed.length + po.buffer) + po.nboff) = 8 - po.nboff := by
      unfold padding
      omega
    generalize hx : po.tmpspace.get ⟨po.buffer, hbuffer⟩ = octet
    have hmask : octet.toNat &&& (0xff <<< (8 - po.nboff)) =
        octet.toNat / 2 ^ (8 - po.nboff) * 2 ^ (8 - po.nboff) :=
      and_mask_shiftLeft (w := 8) (octet.toNat_lt.trans_le
        (Nat.pow_le_pow_right Nat.two_pos (Nat.le_add_left 8 _)))
    have hlast : ofNat 8 ((octet.toNat &&& (0xff <<< (8 - po.nboff))).toUInt8).toNat =
        (ofNat 8 octet.toNat).take po.nboff ++ List.replicate (8 - po.nboff) false := by
      rw [take_ofNat (Nat.le_of_lt hoff), ← ofNat_zero, ← ofNat_mul_add (Nat.two_pow_pos _),
        hmask, Nat.add_zero, Nat.add_sub_cancel' (Nat.le_of_lt hoff)]
      exact ofNat_congr (Nat.mod_mod _ _)
    rw [dif_pos h0, hx, ofOctets_append, ofOctets_append, ofOctets_cons, hlast, hpad, bits_eq,
      take_tmpspace hbuffer (Nat.le_of_lt hoff), hx, ofOctets_nil]
    simp only [List.append_assoc, List.append_nil]

/-! ## Several numbers -/

/-- Numbers one after another, each with its bits. -/
theorem roundTrips_fields : ∀ {fields : List (Nat × Nat)},
    (∀ f ∈ fields, f.2 ≤ 31 ∧ f.1 < 2 ^ f.2) →
    RoundTrips (fun po => fields.foldlM (fun po f => perPutFewBits f.1 f.2 po) po)
      (fields.mapM fun f => perGetFewBits f.2) (fields.map (·.1))
  | [], _ => RoundTrips.pure []
  | f :: fields, h => by
    obtain ⟨hf, hfields⟩ := List.forall_mem_cons.mp h
    rw [List.mapM_cons]
    have hone : RoundTrips (perPutFewBits f.1 f.2) (perGetFewBits f.2) f.1 :=
      ⟨_, puts_perPutFewBits f.1 hf.1, fun off => gets_number hf.1 hf.2 off⟩
    exact hone.bind ((roundTrips_fields hfields).map (f.1 :: ·))

/-- The octets of an encoding are those of its bits, whatever `tmpspace` holds at first. -/
theorem finish_new {encode : AsnBitOutp → Option AsnBitOutp} {bs : Nat → List Bool}
    (hputs : Puts encode bs) {tmpspace : List UInt8} (h : tmpspace.length = 32) :
    ∃ po, encode (.new tmpspace h) = some po ∧ po.finish = toOctets (bs 0) := by
  obtain ⟨po, hpo, hbits⟩ := hputs (.new tmpspace h)
  rw [AsnBitOutp.bits_new] at hbits
  refine ⟨po, hpo, ?_⟩
  rw [AsnBitOutp.finish_eq, hbits]
  rfl

/-- Numbers that are put one after another come back from the octets, whatever is behind them and
whatever the scratch space of the encoder held. -/
theorem numbers_read_back {fields : List (Nat × Nat)}
    (h : ∀ f ∈ fields, f.2 ≤ 31 ∧ f.1 < 2 ^ f.2) {tmpspace : List UInt8}
    (htmp : tmpspace.length = 32) :
    ∃ po, fields.foldlM (fun po f => perPutFewBits f.1 f.2 po) (AsnBitOutp.new tmpspace htmp) =
        some po ∧
      ∀ trailing, ∃ pd, (fields.mapM fun f => perGetFewBits f.2)
        (AsnBitData.ofBuffer (po.finish ++ trailing)) = some (fields.map (·.1), pd) := by
  obtain ⟨bs, hputs, hgets⟩ := roundTrips_fields h
  obtain ⟨po, hpo, hfinish⟩ := finish_new hputs htmp
  refine ⟨po, hpo, fun trailing => ?_⟩
  have hat := AsnBitData.at_ofBuffer (po.finish ++ trailing)
  rw [hfinish, ofOctets_append, ofOctets_toOctets, List.append_assoc] at hat
  obtain ⟨pd, hpd, -⟩ := hgets 0 _ 0 _ hat
  rw [hfinish]
  exact ⟨pd, hpd⟩

/-- A number of three bits, a bit, and a number that crosses octets, put over other octets. -/
theorem numbers_read_back_three :
    ∃ po, [(5, 3), (1, 1), (2 ^ 31 - 1, 31)].foldlM (fun po f => perPutFewBits f.1 f.2 po)
        (AsnBitOutp.new (List.replicate 32 0xAA) List.length_replicate) = some po ∧
      ∀ trailing, ∃ pd, ([(5, 3), (1, 1), (2 ^ 31 - 1, 31)].mapM
        fun f : Nat × Nat => perGetFewBits f.2)
        (AsnBitData.ofBuffer (po.finish ++ trailing)) = some ([5, 1, 2 ^ 31 - 1], pd) :=
  numbers_read_back (by decide) List.length_replicate

end E2Term
