import E2Term.E2AP
import E2Term.Lib.CString

/-!
# RAN names

`buildRanName` and its two helpers, on the 64-byte buffer `enodbName`. The buffer is passed as it
is: a name is built in front of what the buffer held before.
-/

namespace E2Term

open CString

/-- A name as a C string: the key of both maps and the MEID of RMR messages. -/
abbrev Name := List UInt8

/-- `MAX_ENODB_NAME_SIZE`. -/
def maxEnodbNameSize : Nat := 64

/-- `char enodbName[MAX_ENODB_NAME_SIZE]`. -/
abbrev NameBuf := Buf maxEnodbNameSize

instance : Fact (0 < maxEnodbNameSize) := ⟨by decide⟩

/-- The bytes of a string literal. -/
def text (s : String) : List UInt8 := s.toList.map fun c => c.toNat.toUInt8

/-- `%1d` and `%d` of a non-negative number. -/
def dec (n : Nat) : List UInt8 := (Nat.toDigits 10 n).map fun c => c.toNat.toUInt8

/-- `%1x` and `%lx` of a non-negative number. -/
def hex (n : Nat) : List UInt8 := (Nat.toDigits 16 n).map fun c => c.toNat.toUInt8

/-- `translatePlmnId`: the type and the digits of the PLMN, in at most 19 characters. -/
def translatePlmnId (plmnId : NameBuf) (data : PlmnId) (type : List UInt8) : Option NameBuf :=
  let mcc1 := data.octet0.toNat &&& 0x0F
  let mcc2 := (data.octet0.toNat &&& 0xF0) >>> 4
  let mcc3 := data.octet1.toNat &&& 0x0F
  let mnc1 := (data.octet1.toNat &&& 0xF0) >>> 4
  let mnc2 := data.octet2.toNat &&& 0x0F
  let mnc3 := (data.octet2.toNat &&& 0xF0) >>> 4
  if mnc1 ≠ 15 then
    plmnId.snprintf 20 (type ++ dec mcc1 ++ dec mcc2 ++ dec mcc3 ++ text "_" ++
      dec mnc1 ++ dec mnc2 ++ dec mnc3)
  else
    plmnId.snprintf 20 (type ++ dec mcc1 ++ dec mcc2 ++ dec mcc3 ++ text "_0" ++
      dec mnc2 ++ dec mnc3)

/-- `snprintf(buffer, 256, "%s…", ranName); memcpy(ranName, buffer, j)`: the string with `s`
behind it goes to the front, without a terminator. -/
def appendText (ranName : NameBuf) (s : List UInt8) : Option NameBuf :=
  ranName.write (ranName.str ++ s)

/-- The loop of `translateBitStringToChar` over the octets; `before` is the octet before them. -/
def translateOctets (ranName : NameBuf) (bitsUnused before : Nat) : List UInt8 → Option NameBuf
  | [] => some ranName
  | octet :: rest => do
    let tmpDigit := (before <<< (8 - bitsUnused)) ||| (octet.toNat >>> bitsUnused)
    let b1 := (tmpDigit &&& 0xF0) >>> 4
    let ranName ← appendText ranName (hex b1)
    let b2 := tmpDigit &&& 0x0F
    let ranName ← appendText ranName (hex b2)
    translateOctets ranName bitsUnused octet.toNat rest

/-- `translateBitStringToChar`. -/
def translateBitStringToChar (ranName : NameBuf) (data : BitString) (cuid duid : Int) :
    Option NameBuf := do
  let ranName ← appendText ranName (text "_")
  let ranName ← translateOctets ranName data.bitsUnused 0 data.buf
  if cuid ≥ 0 ∧ duid ≥ 0 then
    appendText ranName []
  else if cuid ≥ 0 then
    appendText ranName (text "_" ++ hex cuid.toNat)
  else if duid ≥ 0 then
    appendText ranName (text "_" ++ hex duid.toNat)
  else
    appendText ranName []

/-- A PLMN with its type, then the identity. -/
def plmnAndId (ranName : NameBuf) (plmn : PlmnId) (type : String) (b : BitString) :
    Option NameBuf := do
  let ranName ← translatePlmnId ranName plmn (text type)
  translateBitStringToChar ranName b (-1) (-1)

/-- `buildRanName`: what it returns and the buffer it leaves, or `none` where the name would
outgrow the buffer. -/
def buildRanName (ranName : NameBuf) : GlobalE2nodeID → Option (Int × NameBuf)
  | .gNB gnb =>
    match gnb.gnbId with
    | some gnbID => do
      let cuupid := gnb.gNBCUUPID.getD (-1)
      let duid := gnb.gNBDUID.getD (-1)
      let ranName ←
        if gnb.gNBCUUPID.isSome ∧ gnb.gNBDUID.isSome then
          translatePlmnId ranName gnb.plmnId (text "gnb_")
        else if gnb.gNBDUID = none ∧ gnb.gNBCUUPID = none then
          translatePlmnId ranName gnb.plmnId (text "gnb_")
        else if gnb.gNBCUUPID.isSome then
          translatePlmnId ranName gnb.plmnId (text "gnbc_")
        else
          translatePlmnId ranName gnb.plmnId (text "gnbd_")
      let ranName ← translateBitStringToChar ranName gnbID cuupid duid
      return (0, ranName)
    | none => do
      let ranName ← translatePlmnId ranName gnb.plmnId (text "gnb_")
      return (0, ranName)
  | .enGNB enGnb => do
    let ranName ← translatePlmnId ranName enGnb.plmnIdentity (text "en_gnb_")
    match enGnb.gNBID with
    | some gNBID => do
      let ranName ← translateBitStringToChar ranName gNBID (-1) (-1)
      return (0, ranName)
    | none => return (0, ranName)
  | .ngENB ngEnb =>
    match ngEnb.enbId with
    | ENBIDChoice.enbIDmacro b => do return (0, ← plmnAndId ranName ngEnb.plmnId "ng_enB_macro_" b)
    | ENBIDChoice.enbIDshortmacro b => do
      return (0, ← plmnAndId ranName ngEnb.plmnId "ng_enB_shortmacro_" b)
    | ENBIDChoice.enbIDlongmacro b => do
      return (0, ← plmnAndId ranName ngEnb.plmnId "ng_enB_longmacro_" b)
    | .nothing => return (0, ranName)
  | .eNB enb =>
    match enb.eNBID with
    | .macroENBID b => do return (0, ← plmnAndId ranName enb.plmnIdentity "enB_macro_" b)
    | .homeENBID b => do return (0, ← plmnAndId ranName enb.plmnIdentity "enB_home_" b)
    | .shortMacroENBID b => do return (0, ← plmnAndId ranName enb.plmnIdentity "enB_shortmacro_" b)
    | .longMacroENBID b => do return (0, ← plmnAndId ranName enb.plmnIdentity "enB_longmacro_" b)
    | .nothing => return (0, ranName)
  | .nothing => return (-1, ranName)

end E2Term
