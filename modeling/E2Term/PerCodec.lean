import E2Term.PerStrings
import E2Term.Lib.XerTypes

/-!
# Types and their encodings

The constructed types of `constr_SEQUENCE.c`, `constr_SEQUENCE_OF.c`, `constr_SET_OF.c`,
`constr_CHOICE.c` and `OPEN_TYPE.c` over the primitive ones. A value has its members in the order of
the type. No SEQUENCE of E2AP has extension additions of its own and no member has a DEFAULT.
-/

namespace E2Term

open Bits Digits BitCodec

namespace Per

/-! ## Types and values -/

mutual

/-- A type descriptor with its PER constraints. The rows of an `object` give the alternative of its
open type that a key selects. -/
inductive Typ where
  | integer (ct : AsnPerConstraint)
  | enumerated (ct : AsnPerConstraint) (specs : AsnIntegerSpecifics) (ids : List Xer.Name)
  | octetString (csiz : AsnPerConstraint)
  | bitString (csiz : AsnPerConstraint)
  | printableString (csiz : AsnPerConstraint)
  | sequence (extensible : Bool) (fields : Fields)
  | choice (ct : AsnPerConstraint) (extStart : Option Nat) (alternatives : Fields)
  | sequenceOf (ct : AsnPerConstraint) (name : Xer.Name) (element : Typ)
  | object (key : Xer.Name) (id : AsnPerConstraint) (rows : List (Int × Nat))
      (alternatives : Fields)

inductive Fields where
  | nil
  | cons (name : Xer.Name) (optional : Bool) (type : Typ) (rest : Fields)

end

/-- What the decoder makes of an encoding. Members of a SEQUENCE that are not there are `none`; an
enumerated value, an alternative and the criticality of an `object` are counted from zero. -/
inductive Value where
  | integer (n : Int)
  | enumerated (value : Nat)
  | octets (buf : List UInt8)
  | bits (bits : List Bool)
  | sequence (members : List (Option Value))
  | choice (present : Nat) (value : Value)
  | sequenceOf (elements : List Value)
  | object (key : Int) (criticality present : Nat) (value : Value)

/-- `asn_DEF_Criticality`. -/
def criticality : AsnPerConstraint × AsnIntegerSpecifics :=
  (⟨false, 2, 2, 0, 2, by decide, by decide⟩, ⟨3, 0⟩)

/-- How many alternatives there are. -/
def Fields.count : Fields → Nat
  | .nil => 0
  | .cons _ _ _ rest => rest.count + 1

mutual

/-- What the types of E2AP have in common: their constraints are of the kinds that the codec tells
apart. -/
def Typ.wellFormed : Typ → Bool
  | .integer ct => 0 ≤ ct.rangeBits && ct.rangeBits ≤ 63 && ct.lowerBound = 0
  | .enumerated ct specs _ =>
    0 ≤ ct.rangeBits && ct.rangeBits ≤ 31 && specs.rootCount ≤ 2 ^ ct.rangeBits.toNat &&
      specs.rootCount ≤ specs.mapCount && ct.upperBound < 255
  | .octetString csiz | .bitString csiz | .printableString csiz => csiz.isSize
  | .sequence _ fields => fields.wellFormed
  | .choice ct _ alternatives =>
    0 ≤ ct.rangeBits && ct.rangeBits ≤ 31 && ct.lowerBound = 0 && alternatives.wellFormed
  | .sequenceOf ct _ element =>
    (ct.effectiveBits < 0 || 0 ≤ ct.lowerBound && ct.upperBound - ct.lowerBound < 65536) &&
      element.wellFormed
  | .object _ id _ alternatives =>
    0 ≤ id.rangeBits && id.rangeBits ≤ 63 && id.lowerBound = 0 && alternatives.wellFormed

def Fields.wellFormed : Fields → Bool
  | .nil => true
  | .cons _ _ type rest => type.wellFormed && rest.wellFormed

end

/-! ## Encoders -/

/-- The bits of the presence bitmap. -/
def Fields.presence : Fields → List (Option Value) → List Bool
  | .cons _ true _ rest, member :: members => member.isSome :: rest.presence members
  | .cons _ false _ rest, _ :: members => rest.presence members
  | _, _ => []

/-- `CHOICE_encode_aper`, with what encodes the alternative. -/
def choiceEncodeAper (ct : AsnPerConstraint) (extStart : Option Nat) (present : Nat)
    (put : AsnBitOutp → Option AsnBitOutp) (po : AsnBitOutp) : Option AsnBitOutp :=
  let inext := (present : Int) < ct.lowerBound || ct.upperBound < present
  putExtension ct.extensible inext po >>=
    if inext then fun po =>
      match extStart with
      | none => none
      | some start => aperPutNsnnwn ct.rangeBits (present - start) po >>= aperOpenTypePut put
    else fun po => perPutFewBits present ct.rangeBits.toNat po >>= put

/-- `SEQUENCE_OF_encode_aper`, with what encodes elements. -/
def sequenceOfEncodeAper {α : Type} (ct : AsnPerConstraint)
    (put : List α → AsnBitOutp → Option AsnBitOutp) (elements : List α) (po : AsnBitOutp) :
    Option AsnBitOutp :=
  let notInRoot := (elements.length : Int) < ct.lowerBound || ct.upperBound < elements.length
  let inext := notInRoot && (ct.extensible || 0 ≤ ct.effectiveBits)
  putExtension ct.extensible inext po >>=
    if !inext && 0 ≤ ct.effectiveBits then fun po => do
      let (po, _) ← aperPutLength (ct.upperBound - ct.lowerBound + 1)
        (elements.length - ct.lowerBound.toNat) po
      put elements po
    else putUnits put elements

mutual

/-- The `aper_encoder` of a type; a value of another type has none. -/
def Typ.aperEncoder : Typ → Value → AsnBitOutp → Option AsnBitOutp
  | .integer ct, .integer n => integerEncodeAper ct n
  | .enumerated ct specs _, .enumerated value => enumeratedEncodeAper ct specs value
  | .octetString csiz, .octets buf => stringEncodeAper charString csiz buf
  | .bitString csiz, .bits bits => stringEncodeAper bitString csiz bits
  | .printableString csiz, .octets buf => stringEncodeAper charString csiz buf
  | .sequence extensible fields, .sequence members => fun po => do
    let po ← putExtension extensible false po
    let po ← (fields.presence members).foldlM (fun po p => perPutFewBits p.toNat 1 po) po
    fields.encodeMembers members po
  | .choice ct extStart alternatives, .choice present value =>
    choiceEncodeAper ct extStart present (alternatives.encodeAlternative present value)
  | .sequenceOf ct _ element, .sequenceOf elements =>
    sequenceOfEncodeAper ct
      (fun chunk po => chunk.foldlM (fun po value => element.aperEncoder value po) po) elements
  | .object _ id _ alternatives, .object key crit present value => fun po => do
    let po ← integerEncodeAper id key po
    let po ← enumeratedEncodeAper criticality.1 criticality.2 crit po
    aperOpenTypePut (alternatives.encodeAlternative present value) po
  | _, _ => fun _ => none

/-- The root elements of a SEQUENCE. -/
def Fields.encodeMembers : Fields → List (Option Value) → AsnBitOutp → Option AsnBitOutp
  | .nil, [] => some
  | .cons _ _ type rest, some value :: members => fun po =>
    type.aperEncoder value po >>= rest.encodeMembers members
  | .cons _ optional _ rest, none :: members =>
    if optional then rest.encodeMembers members else fun _ => none
  | _, _ => fun _ => none

/-- One of several alternatives. -/
def Fields.encodeAlternative : Fields → Nat → Value → AsnBitOutp → Option AsnBitOutp
  | .nil, _, _ => fun _ => none
  | .cons _ _ type _, 0, value => type.aperEncoder value
  | .cons _ _ _ rest, present + 1, value => rest.encodeAlternative present value

end

/-! ## Decoders -/

/-- A bitmap, as the bits that come out of it. -/
def getBitmap (nbits : Nat) : StateT AsnBitData Option (List Bool) :=
  (fun octets => (ofOctets octets).take nbits) <$> perGetManyBits nbits

/-- `roms_count`. -/
def Fields.romsCount : Fields → Nat
  | .nil => 0
  | .cons _ optional _ rest => optional.toNat + rest.romsCount

/-- The extensions of a SEQUENCE that has none itself. The loop over them ends at the first one that
is present. -/
def skipExtensions : StateT AsnBitData Option Unit := do
  let bmlength ← aperGetNslength
  let epres ← getBitmap bmlength
  if epres.contains true then aperOpenTypeSkip

/-- `CHOICE_decode_aper`, with what decodes an alternative. -/
def choiceDecodeAper (ct : AsnPerConstraint) (extStart : Option Nat) (count : Nat)
    (get : Nat → StateT AsnBitData Option Value) : StateT AsnBitData Option Value := do
  let inext ← getExtension ct.extensible
  if inext then
    match extStart with
    | none => failure
    | some start =>
      let value ← aperGetNsnnwn ct.rangeBits
      if count ≤ value + start then failure
      else Value.choice (value + start) <$> aperOpenTypeGet (get (value + start))
  else
    let value ← perGetFewBits ct.rangeBits.toNat
    if ct.upperBound < value then failure
    else Value.choice value <$> get value

/-- `SET_OF_decode_aper`, with what decodes elements. -/
def sequenceOfDecodeAper {α : Type} (ct : AsnPerConstraint)
    (get : Nat → StateT AsnBitData Option (List α)) : StateT AsnBitData Option (List α) := do
  let inext ← getExtension ct.extensible
  if !inext && 0 ≤ ct.effectiveBits then
    let nelems ← aperGetNsnnwn (ct.upperBound - ct.lowerBound + 1)
    get (nelems + ct.lowerBound.toNat)
  else getAllFragments get

mutual

/-- The `aper_decoder` of a type. -/
def Typ.aperDecoder : Typ → StateT AsnBitData Option Value
  | .integer ct => Value.integer <$> integerDecodeAper ct
  | .enumerated ct specs _ => Value.enumerated <$> enumeratedDecodeAper ct specs
  | .octetString csiz => Value.octets <$> stringDecodeAper charString csiz
  | .bitString csiz => Value.bits <$> stringDecodeAper bitString csiz
  | .printableString csiz => Value.octets <$> stringDecodeAper charString csiz
  | .sequence extensible fields => do
    let extpresent ← getExtension extensible
    let opmd ← getBitmap fields.romsCount
    let members ← fields.decodeMembers opmd
    if extpresent then skipExtensions
    return Value.sequence members
  | .choice ct extStart alternatives =>
    choiceDecodeAper ct extStart alternatives.count fun present =>
      alternatives.decodeAlternative present
  | .sequenceOf ct _ element =>
    Value.sequenceOf <$> sequenceOfDecodeAper ct fun n => repeatGet element.aperDecoder n
  | .object _ id rows alternatives => do
    let key ← integerDecodeAper id
    let crit ← enumeratedDecodeAper criticality.1 criticality.2
    match rows.lookup key with
    | none => failure
    | some present =>
      Value.object key crit present <$> aperOpenTypeGet (alternatives.decodeAlternative present)

/-- The root elements of a SEQUENCE. -/
def Fields.decodeMembers : Fields → List Bool → StateT AsnBitData Option (List (Option Value))
  | .nil, _ => pure []
  | .cons _ true _ rest, false :: opmd => (none :: ·) <$> rest.decodeMembers opmd
  | .cons _ optional type rest, opmd => do
    let value ← type.aperDecoder
    (some value :: ·) <$> rest.decodeMembers (opmd.drop optional.toNat)

/-- One of several alternatives. -/
def Fields.decodeAlternative : Fields → Nat → StateT AsnBitData Option Value
  | .nil, _ => failure
  | .cons _ _ type _, 0 => type.aperDecoder
  | .cons _ _ _ rest, present + 1 => rest.decodeAlternative present

end

end Per

end E2Term
