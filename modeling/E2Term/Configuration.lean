import E2Term.Lib.CString
import E2Term.Lib.Digits
import E2Term.Lib.Numerals
import E2Term.NameText
import E2Term.ReadConfigFile

/-!
# The configuration of the process

`buildConfiguration` and the copy that `listener` makes of the keep-alive message.
-/

namespace E2Term

open CString Numerals

/-- `VOLUME_URL_SIZE`. -/
def volumeUrlSize : Nat := 256

/-- `KA_MESSAGE_SIZE`. -/
def kaMessageSize : Nat := 2048

/-- The size of `rmrAddress`. -/
def rmrAddressSize : Nat := 256

instance : NeZero volumeUrlSize := ⟨by decide⟩

instance : NeZero kaMessageSize := ⟨by decide⟩

instance : NeZero rmrAddressSize := ⟨by decide⟩

/-- The largest file that `buildConfiguration` reads. -/
def configFileSize : Nat := 2048

/-- What `buildConfiguration` finds: the file behind the path, whether it opens, and the
environment. -/
structure ConfigInput where
  file : Option (List UInt8)
  opens : Bool
  getenv : List UInt8 → Option (List UInt8)

/-- The fields of `sctp_params` that `buildConfiguration` sets. -/
structure ConfiguredParams where
  rmrPort : UInt16
  rmrAddress : CharArray rmrAddressSize
  volume : CharArray volumeUrlSize
  myIP : List UInt8
  sctpPort : UInt16
  fqdn : List UInt8
  podName : List UInt8
  trace : Bool
  epollTimeOut : Int
  prometheusPort : List UInt8
  kaMessage : CharArray kaMessageSize
  kaMessageLength : Int

/-- `sctp_params_t` as it is declared. What `volume` holds then is not said. -/
def ConfiguredParams.initial : ConfiguredParams where
  rmrPort := 0
  rmrAddress := CharArray.zeros _
  volume := CharArray.zeros _
  myIP := []
  sctpPort := 36422
  fqdn := []
  podName := []
  trace := true
  epollTimeOut := -1
  prometheusPort := text "8088"
  kaMessage := CharArray.zeros _
  kaMessageLength := 0

/-- What `buildConfiguration` returns and sets. `tmpLogFilespec` is `none` when a write has left
it, and is set only when the volume is copied. -/
structure ConfigResult where
  ret : Int
  sctpParams : ConfiguredParams
  tmpLogFilespec : Option (CharArray volumeUrlSize)

/-- The pattern of log file names behind the volume. -/
def logFilePattern : List UInt8 := text "/tmp/E2Term_%Y-%m-%d_%H-%M-%S.%N.tmpStr"

/-- `snprintf` returns the length of the whole text, as an `int`. -/
def snprintfRet (s : List UInt8) : Int := if s.length < 2 ^ 31 then s.length else -1

/-- The keep-alive message, whole. -/
def kaText (myIP : List UInt8) (rmrPort : UInt16) (fqdn podName : List UInt8) : List UInt8 :=
  text "\x7b\"address\": \"" ++ chars myIP ++ text ":" ++ dec rmrPort.toNat ++
    text "\",\"fqdn\": \"" ++ chars fqdn ++ text "\",\"pod_name\": \"" ++ chars podName ++
    text "\"\x7d"

/-- `tolower`. -/
def toLower (b : UInt8) : UInt8 := if 65 ≤ b ∧ b ≤ 90 then b + 32 else b

/-- `(uint16_t)` of an `int`. -/
def toPort (n : Int32) : UInt16 := n.toUInt32.toUInt16

/-- What `openConfigFile` returns and binds. -/
def ConfigInput.openConfigFile (input : ConfigInput) : Int × ReadConfigFile :=
  ReadConfigFile.empty.openConfigFile (if input.opens then input.file else none)

/-- The entries of the file. -/
def ConfigInput.conf (input : ConfigInput) : ReadConfigFile := input.openConfigFile.2

/-- `buildConfiguration`. -/
def buildConfiguration (input : ConfigInput) (sctpParams : ConfiguredParams) : ConfigResult :=
  match input.file with
  | none => ⟨-1, sctpParams, none⟩
  | some content =>
    if configFileSize < content.length then ⟨-1, sctpParams, none⟩
    else
    if input.openConfigFile.1 = -1 then ⟨-1, sctpParams, none⟩
    else
    let conf := input.conf
    let rmrPort := conf.getIntValue (text "nano")
    if rmrPort = -1 then ⟨-1, sctpParams, none⟩
    else
    let sctpParams := { sctpParams with
      rmrPort := toPort rmrPort
      rmrAddress := sctpParams.rmrAddress.snprintf (dec (toPort rmrPort).toNat) }
    let tmpStr := conf.getStringValue (text "volume")
    if tmpStr.length = 0 then ⟨-1, sctpParams, none⟩
    else
    let sctpParams := { sctpParams with volume := sctpParams.volume.snprintf (chars tmpStr) }
    let tmpLogFilespec := (CharArray.zeros volumeUrlSize).snprintf (chars tmpStr)
    let tmpLogFilespec := tmpLogFilespec.strcat logFilePattern
    let sctpParams := { sctpParams with myIP := conf.getStringValue (text "local-ip") }
    if sctpParams.myIP.length = 0 then ⟨-1, sctpParams, tmpLogFilespec⟩
    else
    let sctpPort := conf.getIntValue (text "sctp-port")
    if sctpPort = -1 then ⟨-1, sctpParams, tmpLogFilespec⟩
    else
    let sctpParams := { sctpParams with
      sctpPort := toPort sctpPort
      fqdn := conf.getStringValue (text "external-fqdn") }
    if sctpParams.fqdn.length = 0 then ⟨-1, sctpParams, tmpLogFilespec⟩
    else
    let pod := conf.getStringValue (text "pod_name")
    if pod.length = 0 then ⟨-1, sctpParams, tmpLogFilespec⟩
    else
    match input.getenv (chars pod) with
    | none => ⟨-1, sctpParams, tmpLogFilespec⟩
    | some podName =>
    let sctpParams := { sctpParams with podName := chars podName }
    if sctpParams.podName.length = 0 then ⟨-1, sctpParams, tmpLogFilespec⟩
    else
    let tmpStr := (conf.getStringValue (text "trace")).map toLower
    let sctpParams := { sctpParams with
      -- `stop` and every other value
      trace := if tmpStr = text "start" then true else false
      epollTimeOut := -1 }
    let tmpStr := conf.getStringValue (text "prometheusPort")
    let sctpParams := { sctpParams with
      prometheusPort := if tmpStr.length ≠ 0 then tmpStr else sctpParams.prometheusPort }
    let message := kaText sctpParams.myIP sctpParams.rmrPort sctpParams.fqdn sctpParams.podName
    ⟨0, { sctpParams with
      kaMessage := sctpParams.kaMessage.snprintf message
      kaMessageLength := snprintfRet message }, tmpLogFilespec⟩

/-- `(size_t)` of an `int`. -/
def toSizeT (n : Int) : Nat := (n % 2 ^ 64).toNat

/-- What `listener` leaves in `rmrMessageBuffer.ka_message`, unless a read or a write leaves the
arrays: the `memcpy` of `ka_message_length` bytes, and the terminator behind them. -/
def listenerKaMessage (params : ConfiguredParams) : Option (CharArray kaMessageSize) := do
  let size := toSizeT params.kaMessageLength
  if kaMessageSize < size then none
  else
    let kaMessage ← (CharArray.zeros kaMessageSize).memcpy 0 (params.kaMessage.bytes.take size)
    if params.kaMessageLength < 0 then none
    else kaMessage.memcpy params.kaMessageLength.toNat [0]

/-! ## Accepted configurations -/

/-- Everything that `buildConfiguration` checks. -/
structure Passes (input : ConfigInput) : Prop where
  file : ∃ content, input.file = some content ∧ content.length ≤ configFileSize
  opened : input.openConfigFile.1 ≠ -1
  nano : input.conf.getIntValue (text "nano") ≠ -1
  volume : input.conf.getStringValue (text "volume") ≠ []
  localIp : input.conf.getStringValue (text "local-ip") ≠ []
  sctpPort : input.conf.getIntValue (text "sctp-port") ≠ -1
  fqdn : input.conf.getStringValue (text "external-fqdn") ≠ []
  pod : input.conf.getStringValue (text "pod_name") ≠ []
  podName : ∃ value, input.getenv (chars (input.conf.getStringValue (text "pod_name"))) =
    some value ∧ chars value ≠ []

/-- The keep-alive message of a configuration. -/
def acceptedMessage (conf : ReadConfigFile) (podName : List UInt8) : List UInt8 :=
  kaText (conf.getStringValue (text "local-ip")) (toPort (conf.getIntValue (text "nano")))
    (conf.getStringValue (text "external-fqdn")) (chars podName)

/-- What `buildConfiguration` sets when nothing is amiss, for the value of the environment
variable. -/
def acceptedResult (conf : ReadConfigFile) (podName : List UInt8) (sctpParams : ConfiguredParams) :
    ConfigResult :=
  let rmrPort := toPort (conf.getIntValue (text "nano"))
  let volume := chars (conf.getStringValue (text "volume"))
  let prometheusPort := conf.getStringValue (text "prometheusPort")
  let message := acceptedMessage conf podName
  { ret := 0
    sctpParams := {
      rmrPort := rmrPort
      rmrAddress := sctpParams.rmrAddress.snprintf (dec rmrPort.toNat)
      volume := sctpParams.volume.snprintf volume
      myIP := conf.getStringValue (text "local-ip")
      sctpPort := toPort (conf.getIntValue (text "sctp-port"))
      fqdn := conf.getStringValue (text "external-fqdn")
      podName := chars podName
      trace :=
        if (conf.getStringValue (text "trace")).map toLower = text "start" then true else false
      epollTimeOut := -1
      prometheusPort :=
        if prometheusPort.length ≠ 0 then prometheusPort else sctpParams.prometheusPort
      kaMessage := sctpParams.kaMessage.snprintf message
      kaMessageLength := snprintfRet message }
    tmpLogFilespec := ((CharArray.zeros volumeUrlSize).snprintf volume).strcat logFilePattern }

/-- `buildConfiguration` accepts what passes. -/
theorem buildConfiguration_of_passes {input : ConfigInput} (h : Passes input)
    (sctpParams : ConfiguredParams) : ∃ podName,
      input.getenv (chars (input.conf.getStringValue (text "pod_name"))) = some podName ∧
      buildConfiguration input sctpParams = acceptedResult input.conf podName sctpParams := by
  obtain ⟨⟨content, hfile, hsize⟩, hopened, hnano, hvolume, hip, hsctp, hfqdn, hpod, hname⟩ := h
  obtain ⟨podName, hgetenv, hne⟩ := hname
  have hlen : ∀ {l : List UInt8}, l ≠ [] → ¬ l.length = 0 := mt List.length_eq_zero_iff.mp
  refine ⟨podName, hgetenv, ?_⟩
  unfold buildConfiguration
  simp only [hfile, if_neg (Nat.not_lt.mpr hsize), if_neg hopened, if_neg hnano,
    if_neg (hlen hvolume), if_neg (hlen hip), if_neg hsctp, if_neg (hlen hfqdn),
    if_neg (hlen hpod), hgetenv, if_neg (hlen hne)]
  rfl

/-- What does not pass is refused. -/
theorem buildConfiguration_of_not_passes {input : ConfigInput} (h : ¬ Passes input)
    (sctpParams : ConfiguredParams) : (buildConfiguration input sctpParams).ret = -1 := by
  have hlen : ∀ {l : List UInt8}, ¬ l.length = 0 → l ≠ [] := mt List.length_eq_zero_iff.mpr
  unfold buildConfiguration
  cases hfile : input.file with
  | none => rfl
  | some content =>
    dsimp only
    by_cases hsize : configFileSize < content.length
    · rw [if_pos hsize]
    rw [if_neg hsize]
    by_cases hopened : input.openConfigFile.1 = -1
    · rw [if_pos hopened]
    rw [if_neg hopened]
    by_cases hnano : input.conf.getIntValue (text "nano") = -1
    · rw [if_pos hnano]
    rw [if_neg hnano]
    by_cases hvolume : (input.conf.getStringValue (text "volume")).length = 0
    · rw [if_pos hvolume]
    rw [if_neg hvolume]
    by_cases hip : (input.conf.getStringValue (text "local-ip")).length = 0
    · rw [if_pos hip]
    rw [if_neg hip]
    by_cases hsctp : input.conf.getIntValue (text "sctp-port") = -1
    · rw [if_pos hsctp]
    rw [if_neg hsctp]
    by_cases hfqdn : (input.conf.getStringValue (text "external-fqdn")).length = 0
    · rw [if_pos hfqdn]
    rw [if_neg hfqdn]
    by_cases hpod : (input.conf.getStringValue (text "pod_name")).length = 0
    · rw [if_pos hpod]
    rw [if_neg hpod]
    cases hgetenv : input.getenv (chars (input.conf.getStringValue (text "pod_name"))) with
    | none => rfl
    | some podName =>
      dsimp only
      by_cases hname : (chars podName).length = 0
      · rw [if_pos hname]
      exact absurd ⟨⟨content, hfile, Nat.not_lt.mp hsize⟩, hopened, hnano, hlen hvolume, hlen hip,
        hsctp, hlen hfqdn, hlen hpod, podName, hgetenv, hlen hname⟩ h

theorem buildConfiguration_ret (input : ConfigInput) (sctpParams : ConfiguredParams) :
    (buildConfiguration input sctpParams).ret = 0 ↔ Passes input := by
  constructor
  · intro hret
    by_contra h
    rw [buildConfiguration_of_not_passes h] at hret
    cases hret
  · intro h
    obtain ⟨podName, -, heq⟩ := buildConfiguration_of_passes h sctpParams
    rw [heq]
    rfl

/-! ## Ports -/

/-- The value is a decimal numeral of the port. -/
def IsPort (value : Option (List UInt8)) (port : Nat) : Prop :=
  ∃ v, value = some v ∧ Numeral v port ∧ port ≤ 65535

/-- Ports are set to what the file says, or the file is rejected. -/
def PortsAsWritten (input : ConfigInput) (sctpParams : ConfiguredParams) : Prop :=
  let result := buildConfiguration input sctpParams
  result.ret = -1 ∨ (result.ret = 0 ∧
    IsPort (input.conf.find (text "nano")) result.sctpParams.rmrPort.toNat ∧
    IsPort (input.conf.find (text "sctp-port")) result.sctpParams.sctpPort.toNat)

/-- A number in the range of ports stays as it is. -/
theorem toPort_ofInt {n : Nat} (h : n ≤ 65535) : (toPort (Int32.ofInt n)).toNat = n := by
  have hbits : (Int32.ofInt n).toUInt32 = UInt32.ofNat n := by
    apply UInt32.toBitVec_inj.mp
    simp
    rfl
  unfold toPort
  rw [hbits]
  simp
  omega

/-- The cast of a numeral in the range of ports. -/
theorem IsPort.toPort_getIntValue {conf : ReadConfigFile} {key : List UInt8} {n : Nat}
    (h : IsPort (conf.find key) n) : (toPort (conf.getIntValue key)).toNat = n := by
  obtain ⟨v, hfind, hv, hn⟩ := h
  have hvalue : conf.getIntValue key = Int32.ofInt n := by
    have hchars : chars v = v := List.takeWhile_eq_self_iff.mpr (by simpa using hv.ne_zero)
    rw [ReadConfigFile.getIntValue, hfind]
    dsimp only
    rw [hchars, hv.strtol_eq, clampLong_of_le (by omega) (by omega)]
  rw [hvalue, toPort_ofInt hn]

/-- Ports are set to what the file says exactly when the file does not pass, or both values are
numerals of ports. -/
theorem ports_as_written_iff (input : ConfigInput) (sctpParams : ConfiguredParams) :
    PortsAsWritten input sctpParams ↔ (Passes input →
      (∃ n, IsPort (input.conf.find (text "nano")) n) ∧
        ∃ n, IsPort (input.conf.find (text "sctp-port")) n) := by
  constructor
  · rintro (hret | ⟨-, hnano, hsctp⟩) hpasses
    · rw [(buildConfiguration_ret input sctpParams).mpr hpasses] at hret
      cases hret
    · exact ⟨⟨_, hnano⟩, _, hsctp⟩
  · intro h
    by_cases hpasses : Passes input
    · obtain ⟨⟨n, hn⟩, m, hm⟩ := h hpasses
      obtain ⟨podName, -, heq⟩ := buildConfiguration_of_passes hpasses sctpParams
      refine .inr ⟨(buildConfiguration_ret input sctpParams).mpr hpasses, ?_, ?_⟩
      · rw [heq]
        exact hn.toPort_getIntValue.symm ▸ hn
      · rw [heq]
        exact hm.toPort_getIntValue.symm ▸ hm
    · exact .inl (buildConfiguration_of_not_passes hpasses sctpParams)

/-- A configuration with this port, volume and pod name. -/
def sampleConfig (nano volume podName : List UInt8) : ConfigInput where
  file := some (text "nano=" ++ nano ++ text "\nvolume=" ++ volume ++
    text "\nlocal-ip=127.0.0.1\nsctp-port=36422\nexternal-fqdn=e2t.com\npod_name=POD\n")
  opens := true
  getenv := fun name => if name = text "POD" then some podName else none

/-- The port 70000 is accepted, and becomes 4464. -/
theorem port_70000_accepted :
    (buildConfiguration (sampleConfig (text "70000") (text "log") (text "e2term"))
      .initial).sctpParams.rmrPort = 4464 ∧
    ¬ PortsAsWritten (sampleConfig (text "70000") (text "log") (text "e2term")) .initial := by
  constructor
  · decide +kernel
  · rintro (hret | ⟨-, ⟨v, hv, hnumeral, hle⟩, -⟩)
    · revert hret
      decide +kernel
    · have hfind : (sampleConfig (text "70000") (text "log") (text "e2term")).conf.find
          (text "nano") = some (text "70000") := by decide +kernel
      obtain rfl := Option.some.inj (hfind.symm.trans hv)
      have hstrtol : strtol (text "70000") = 70000 := by decide +kernel
      rw [hnumeral.strtol_eq, clampLong_of_le (by omega) (by omega)] at hstrtol
      omega

/-! ## Buffers -/

/-- The value of the environment variable with the pod name, as a C string. -/
def ConfigInput.podName (input : ConfigInput) : List UInt8 :=
  match input.getenv (chars (input.conf.getStringValue (text "pod_name"))) with
  | none => []
  | some podName => chars podName

/-- The buffers that are filled from the configuration hold everything that belongs into them, and
the copy in `listener` stays in its buffer. -/
def BuffersHold (input : ConfigInput) (sctpParams : ConfiguredParams) : Prop :=
  let result := buildConfiguration input sctpParams
  let params := result.sctpParams
  let volume := chars (input.conf.getStringValue (text "volume"))
  let message := kaText params.myIP params.rmrPort params.fqdn params.podName
  result.ret = 0 →
    params.rmrAddress.str = dec params.rmrPort.toNat ∧
    params.volume.str = volume ∧
    (∃ pattern, result.tmpLogFilespec = some pattern ∧ pattern.str = volume ++ logFilePattern) ∧
    params.kaMessageLength < kaMessageSize ∧
    params.kaMessage.str = message ∧
    ∃ copy, listenerKaMessage params = some copy ∧ copy.str = message

theorem length_dec_port (port : UInt16) : (dec port.toNat).length ≤ 5 :=
  Digits.length_digitBytes_le (b := 10) (by omega) (by omega) (by
    have := port.toNat_lt
    omega)

theorem kaText_ne_zero (myIP : List UInt8) (rmrPort : UInt16) (fqdn podName : List UInt8) :
    ∀ x ∈ kaText myIP rmrPort fqdn podName, x ≠ 0 := by
  have hchars : ∀ l : List UInt8, ∀ x ∈ chars l, x ≠ 0 := fun l x hx => chars_ne_zero hx
  unfold kaText
  simp only [List.forall_mem_append]
  exact ⟨⟨⟨⟨⟨⟨⟨⟨by decide, hchars _⟩, by decide⟩, dec_ne_zero⟩, by decide⟩, hchars _⟩,
    by decide⟩, hchars _⟩, by decide⟩

/-- What the keep-alive message has beside the values takes 42 characters. -/
theorem length_kaText (myIP : List UInt8) (rmrPort : UInt16) (fqdn podName : List UInt8) :
    (kaText myIP rmrPort fqdn podName).length = (chars myIP).length +
      (dec rmrPort.toNat).length + (chars fqdn).length + (chars podName).length + 42 := by
  have hopen : (text "\x7b\"address\": \"").length = 13 := by decide
  have hcolon : (text ":").length = 1 := by decide
  have hfqdn : (text "\",\"fqdn\": \"").length = 11 := by decide
  have hpod : (text "\",\"pod_name\": \"").length = 15 := by decide
  have hclose : (text "\"\x7d").length = 2 := by decide
  unfold kaText
  simp only [List.length_append, hopen, hcolon, hfqdn, hpod, hclose]
  omega

/-- `listener` copies a message that fits as it is. -/
theorem listenerKaMessage_of_fits {params : ConfiguredParams} {message : List UInt8}
    (hmessage : ∀ x ∈ message, x ≠ 0) (hfits : message.length < kaMessageSize)
    (hlen : params.kaMessageLength = message.length) (hstr : params.kaMessage.str = message) :
    ∃ copy, listenerKaMessage params = some copy ∧ copy.str = message := by
  have htake : params.kaMessage.bytes.take message.length = message := by
    rw [← hstr]
    exact (List.prefix_iff_eq_take.mp (List.takeWhile_prefix _)).symm
  have hsize : toSizeT params.kaMessageLength = message.length := by
    unfold kaMessageSize at hfits
    unfold toSizeT
    omega
  obtain ⟨copy, hcopy⟩ : ∃ copy, (CharArray.zeros kaMessageSize).memcpy 0 message = some copy :=
    Option.ne_none_iff_exists'.mp fun h => by
      have := (CharArray.memcpy_eq_none_iff _ _ _).mp h
      omega
  obtain ⟨copy', hcopy'⟩ : ∃ copy', copy.memcpy message.length [0] = some copy' :=
    Option.ne_none_iff_exists'.mp fun h => by
      have := (CharArray.memcpy_eq_none_iff _ _ _).mp h
      rw [List.length_singleton] at this
      omega
  refine ⟨copy', ?_, ?_⟩
  · unfold listenerKaMessage
    dsimp only
    rw [hsize, if_neg (Nat.not_lt.mpr hfits.le), htake, hcopy, hlen]
    show (if (message.length : Int) < 0 then none else copy.memcpy message.length [0]) = _
    rw [if_neg (by omega), hcopy']
  · have hfront : copy.bytes.take message.length = message := by
      rw [CharArray.memcpy_bytes hcopy, List.take_zero, List.nil_append, List.take_left]
    rw [CharArray.str, CharArray.memcpy_bytes hcopy', hfront, List.append_assoc]
    exact CharArray.chars_terminated hmessage _

/-- A volume, and the pattern of log file names behind it. -/
theorem logFileSpec_iff (buf : CharArray volumeUrlSize) {volume : List UInt8}
    (hvolume : ∀ x ∈ volume, x ≠ 0) :
    ((buf.snprintf volume).str = volume ∧ ∃ pattern,
      ((CharArray.zeros volumeUrlSize).snprintf volume).strcat logFilePattern = some pattern ∧
        pattern.str = volume ++ logFilePattern) ↔ volume.length ≤ 216 := by
  have hpattern : logFilePattern.length = 39 := by decide
  have hzero : ∀ x ∈ logFilePattern, x ≠ 0 := by decide
  constructor
  · rintro ⟨hfits, hspec⟩
    have hlt := (CharArray.str_snprintf_eq_iff buf hvolume).mp hfits
    have hstr := (CharArray.str_snprintf_eq_iff (CharArray.zeros volumeUrlSize) hvolume).mpr hlt
    have hroom := (CharArray.strcat_iff ((CharArray.zeros volumeUrlSize).snprintf volume) hzero).mp
      (by rw [hstr]; exact hspec)
    rw [hstr, hpattern] at hroom
    unfold volumeUrlSize at hroom
    omega
  · intro hle
    have hlt : volume.length < volumeUrlSize := by
      unfold volumeUrlSize
      omega
    have hstr := (CharArray.str_snprintf_eq_iff (CharArray.zeros volumeUrlSize) hvolume).mpr hlt
    have hspec := (CharArray.strcat_iff ((CharArray.zeros volumeUrlSize).snprintf volume) hzero).mpr
      (by
        rw [hstr, hpattern]
        unfold volumeUrlSize
        omega)
    rw [hstr] at hspec
    exact ⟨(CharArray.str_snprintf_eq_iff buf hvolume).mpr hlt, hspec⟩

/-- The keep-alive message in its two buffers. -/
theorem kaMessage_iff (params : ConfiguredParams) {message : List UInt8}
    (hmessage : ∀ x ∈ message, x ≠ 0) (buf : CharArray kaMessageSize)
    (hbuf : params.kaMessage = buf.snprintf message)
    (hlen : params.kaMessageLength = snprintfRet message) :
    (params.kaMessageLength < kaMessageSize ∧ params.kaMessage.str = message ∧
      ∃ copy, listenerKaMessage params = some copy ∧ copy.str = message) ↔
        message.length < kaMessageSize := by
  rw [hbuf, CharArray.str_snprintf_eq_iff buf hmessage]
  constructor
  · rintro ⟨-, hfits, -⟩
    exact hfits
  · intro hfits
    have hret : params.kaMessageLength = message.length := by
      unfold kaMessageSize at hfits
      rw [hlen, snprintfRet, if_pos (by omega)]
    have hstr : params.kaMessage.str = message := by
      rw [hbuf]
      exact (CharArray.str_snprintf_eq_iff buf hmessage).mpr hfits
    exact ⟨by omega, hfits, listenerKaMessage_of_fits hmessage hfits hret hstr⟩

theorem ConfigInput.podName_eq {input : ConfigInput} {podName : List UInt8}
    (h : input.getenv (chars (input.conf.getStringValue (text "pod_name"))) = some podName) :
    input.podName = chars podName := by
  rw [ConfigInput.podName, h]

theorem chars_chars (s : List UInt8) : chars (chars s) = chars s :=
  List.takeWhile_eq_self_iff.mpr fun x hx => by simpa using chars_ne_zero hx

section AcceptedResult

variable (conf : ReadConfigFile) (podName : List UInt8) (sctpParams : ConfiguredParams)

theorem acceptedMessage_ne_zero : ∀ x ∈ acceptedMessage conf podName, x ≠ 0 :=
  kaText_ne_zero _ _ _ _

theorem length_acceptedMessage : (acceptedMessage conf podName).length =
    (chars (conf.getStringValue (text "local-ip"))).length +
      (dec (toPort (conf.getIntValue (text "nano"))).toNat).length +
      (chars (conf.getStringValue (text "external-fqdn"))).length + (chars podName).length +
        42 := by
  rw [acceptedMessage, length_kaText, chars_chars]

theorem acceptedResult_kaMessage : (acceptedResult conf podName sctpParams).sctpParams.kaMessage =
    sctpParams.kaMessage.snprintf (acceptedMessage conf podName) := by
  simp only [acceptedResult]

theorem acceptedResult_kaMessageLength :
    (acceptedResult conf podName sctpParams).sctpParams.kaMessageLength =
      snprintfRet (acceptedMessage conf podName) := by
  simp only [acceptedResult]

/-- The message, from the values as they are set. -/
theorem acceptedResult_message :
    kaText (acceptedResult conf podName sctpParams).sctpParams.myIP
      (acceptedResult conf podName sctpParams).sctpParams.rmrPort
      (acceptedResult conf podName sctpParams).sctpParams.fqdn
      (acceptedResult conf podName sctpParams).sctpParams.podName =
        acceptedMessage conf podName := by
  simp only [acceptedResult, acceptedMessage]

end AcceptedResult

/-- The buffers hold everything exactly when, in a configuration that passes, the volume has at
most 216 characters and the values in the keep-alive message have at most 2005 together. -/
theorem buffers_hold_iff (input : ConfigInput) (sctpParams : ConfiguredParams) :
    BuffersHold input sctpParams ↔ (Passes input →
      (chars (input.conf.getStringValue (text "volume"))).length ≤ 216 ∧
      (chars (input.conf.getStringValue (text "local-ip"))).length +
          (dec (toPort (input.conf.getIntValue (text "nano"))).toNat).length +
          (chars (input.conf.getStringValue (text "external-fqdn"))).length +
          input.podName.length ≤ 2005) := by
  have hret := buildConfiguration_ret input sctpParams
  unfold BuffersHold
  dsimp only
  rw [hret]
  refine imp_congr_right fun hpasses => ?_
  obtain ⟨podName, hgetenv, heq⟩ := buildConfiguration_of_passes hpasses sctpParams
  have hvolume : ∀ x ∈ chars (input.conf.getStringValue (text "volume")), x ≠ 0 :=
    fun x hx => chars_ne_zero hx
  have hport := (CharArray.str_snprintf_eq_iff sctpParams.rmrAddress (dec_ne_zero
    (n := (toPort (input.conf.getIntValue (text "nano"))).toNat))).mpr (by
      have := length_dec_port (toPort (input.conf.getIntValue (text "nano")))
      unfold rmrAddressSize
      omega)
  have hka := kaMessage_iff (acceptedResult input.conf podName sctpParams).sctpParams
    (acceptedMessage_ne_zero _ _) sctpParams.kaMessage (acceptedResult_kaMessage _ _ _)
    (acceptedResult_kaMessageLength _ _ _)
  rw [length_acceptedMessage] at hka
  rw [heq, ConfigInput.podName_eq hgetenv, acceptedResult_message]
  constructor
  · rintro ⟨-, hfits, hspec, hmessage⟩
    have hsum := hka.mp hmessage
    unfold kaMessageSize at hsum
    exact ⟨(logFileSpec_iff _ hvolume).mp ⟨hfits, hspec⟩, by omega⟩
  · rintro ⟨hle, hsum⟩
    obtain ⟨hfits, hspec⟩ := (logFileSpec_iff sctpParams.volume hvolume).mpr hle
    refine ⟨hport, hfits, hspec, hka.mpr ?_⟩
    unfold kaMessageSize
    omega

/-- A volume of 217 characters is accepted, and the pattern behind it leaves `tmpLogFilespec`. -/
theorem long_volume_overflows : ¬ BuffersHold
    (sampleConfig (text "38000") (List.replicate 217 120) (text "e2term")) .initial := by
  intro h
  have hnone : (buildConfiguration (sampleConfig (text "38000") (List.replicate 217 120)
      (text "e2term")) .initial).tmpLogFilespec.isNone := by decide +kernel
  obtain ⟨-, -, ⟨pattern, hpattern, -⟩, -⟩ := h (by decide +kernel)
  rw [hpattern] at hnone
  cases hnone

end E2Term
