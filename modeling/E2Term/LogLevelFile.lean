import E2Term.Lib.Lines
import E2Term.RanName

/-!
# The log level in the ConfigMap file

`parse_file` reads the file with `fgets` into 128 bytes and takes the pieces apart with `strtok`.
The array `line` is read once more behind its block, with the bytes that it had in it.
-/

namespace E2Term

open CString Lines

/-- `trim` on a string. -/
def trim (s : List UInt8) : List UInt8 :=
  match s.dropWhile isspace with
  | [] => []
  | rest => rest.rdropWhile isspace

/-- What a call of `parse_file` comes to: it returns, or it passes a null pointer to `trim`. -/
inductive ParseResult
  | returned (token : Option (List UInt8))
  | trimmedNull
  deriving DecidableEq

/-- `:`. -/
def colon : UInt8 := 58

/-- `\n`. -/
def lineEnd : UInt8 := 10

/-- The bytes that `fgets` puts into `line`, without the NUL. -/
def pieceSize : Nat := 127

/-- `fgets` into `room + 1` bytes: what it reads, and what is left. -/
def fgets : Nat → List UInt8 → List UInt8 × List UInt8
  | 0, s => ([], s)
  | _ + 1, [] => ([], [])
  | room + 1, x :: s =>
    if x = lineEnd then ([x], s) else ((x :: (fgets room s).1), (fgets room s).2)

/-- The loop of `parse_file` over what `fgets` reads. -/
def parseLines : List (List UInt8) → ParseResult
  | [] => .returned none
  | line :: rest =>
    match strtok [colon] (chars line) with
    | none => .trimmedNull
    | some (token, left) =>
      if trim token = text "log-level" then
        match strtok [lineEnd] left with
        | none => .trimmedNull
        | some (token, _) => .returned (some (trim token))
      else parseLines rest

/-- `parse_file`; `none` is a file that does not open. -/
def parseFile (file : Option (List UInt8)) : ParseResult :=
  match file with
  | none => .returned none
  | some content => parseLines (pieces lineEnd pieceSize pieceSize content)

/-- The loop reads with `fgets`, piece by piece. -/
theorem pieces_eq_fgets {s : List UInt8} (hs : s ≠ []) {room : Nat} (hroom : 0 < room)
    (size : Nat) : pieces lineEnd size room s =
      (fgets room s).1 :: pieces lineEnd size size (fgets room s).2 := by
  induction s generalizing room with
  | nil => exact absurd rfl hs
  | cons x s ih =>
    obtain ⟨room, rfl⟩ := Nat.exists_eq_succ_of_ne_zero (Nat.ne_of_gt hroom)
    rw [pieces, fgets]
    by_cases hx : x = lineEnd
    · rw [if_pos (.inl hx), if_pos hx]
    · rw [if_neg hx]
      rcases Nat.eq_zero_or_pos room with rfl | hroom'
      · rw [if_pos (.inr (Nat.le_refl 1))]
        rfl
      · rw [if_neg (not_or.mpr ⟨hx, by omega⟩)]
        cases s with
        | nil =>
          obtain ⟨room, rfl⟩ := Nat.exists_eq_succ_of_ne_zero (Nat.ne_of_gt hroom')
          rfl
        | cons y s =>
          have hrest := ih (List.cons_ne_nil y s) hroom'
          rw [Nat.succ_sub_one, hrest]

/-! ## The meaning of the file -/

/-- The text behind the first colon, if what is in front of it is `log-level`. -/
def logLevelOf (line : List UInt8) : Option (List UInt8) :=
  match cut colon line with
  | none => none
  | some (key, value) =>
    if strip isspace key = text "log-level" then some (strip isspace value) else none

/-- The log level is what the first such line says. -/
def logLevel (content : List UInt8) : Option (List UInt8) :=
  (lines lineEnd content).findSome? logLevelOf

/-- The file is parsed as it is meant, and no null pointer is trimmed. -/
def ParsedAsMeant (file : Option (List UInt8)) : Prop :=
  parseFile file = .returned (file.bind logLevel)

/-! ## Line by line -/

/-- What the loop makes of a piece: nothing, a null pointer to trim, or a log level. -/
def readPiece (line : List UInt8) : Option (Option (List UInt8)) :=
  match strtok [colon] (chars line) with
  | none => some none
  | some (token, left) =>
    if trim token = text "log-level" then
      match strtok [lineEnd] left with
      | none => some none
      | some (token, _) => some (some (trim token))
    else none

/-- What the loop makes of a line. -/
def readLine (line : List UInt8) : Option (Option (List UInt8)) :=
  (pieces lineEnd pieceSize pieceSize line).findSome? readPiece

/-- What the line says. -/
def meantLine (line : List UInt8) : Option (Option (List UInt8)) := (logLevelOf line).map some

/-- What the loop comes to after a search. -/
def ParseResult.ofSearch : Option (Option (List UInt8)) → ParseResult
  | none => .returned none
  | some none => .trimmedNull
  | some (some token) => .returned (some token)

theorem trim_eq (s : List UInt8) : trim s = strip isspace s := by
  rw [strip_eq, trim]
  split
  · rename_i h
    rw [h]
    rfl
  · rfl

theorem parseLines_eq (ps : List (List UInt8)) :
    parseLines ps = .ofSearch (ps.findSome? readPiece) := by
  induction ps with
  | nil => rfl
  | cons line rest ih =>
    rw [parseLines, List.findSome?_cons, readPiece]
    cases strtok [colon] (chars line) with
    | none => rfl
    | some parts =>
      dsimp only
      by_cases hkey : trim parts.1 = text "log-level"
      · rw [if_pos hkey, if_pos hkey]
        cases strtok [lineEnd] parts.2 <;> rfl
      · rw [if_neg hkey, if_neg hkey, ih]

theorem ParseResult.ofSearch_eq_iff (o : Option (Option (List UInt8))) (r : Option (List UInt8)) :
    ParseResult.ofSearch o = .returned r ↔ o = r.map some := by
  rcases o with _ | _ | token <;> cases r <;> simp [ParseResult.ofSearch]

/-- The end of a line is white space behind its value. -/
theorem logLevelOf_takeWhile {content line : List UInt8} (h : line ∈ keepLines lineEnd content) :
    logLevelOf (line.takeWhile (· ≠ lineEnd)) = logLevelOf line := by
  obtain ⟨t, ht, hline⟩ := mem_keepLines h
  obtain rfl | ⟨rfl, -⟩ := hline
  · rw [takeWhile_of_cut (cut_eq_some_iff.mpr ⟨rfl, ht⟩)]
    unfold logLevelOf
    cases hcut : cut colon t with
    | none =>
      have hnone : cut colon (t ++ [lineEnd]) = none := cut_eq_none_iff.mpr (by
        simpa [colon, lineEnd] using cut_eq_none_iff.mp hcut)
      rw [hnone]
    | some parts =>
      rw [cut_append hcut]
      dsimp only
      rw [strip_concat_blank _ (by decide)]
  · rw [takeWhile_of_notMem ht]

/-- The reading of the file as a search through its lines. -/
theorem parseFile_eq (content : List UInt8) :
    parseFile (some content) = .ofSearch ((keepLines lineEnd content).findSome? readLine) := by
  rw [parseFile, parseLines_eq, pieces_eq_flatMap, findSome?_flatMap]
  rfl

/-- The meaning of the file as a search through its lines. -/
theorem logLevel_eq (content : List UInt8) :
    (logLevel content).map some = (keepLines lineEnd content).findSome? meantLine := by
  rw [logLevel, lines_eq_map, List.findSome?_map, List.map_findSome?]
  refine findSome?_congr fun line hline => ?_
  exact congrArg (Option.map some) (logLevelOf_takeWhile hline)

/-! ## Lines that fit -/

/-- A line that fits into `line` is parsed otherwise than it is meant when there is nothing but
colons in it, or when `log-level` is the first text in it, but behind colons, without a colon, or
without a value. -/
def MisparsedFitting (line : List UInt8) : Prop :=
  let rest := line.dropWhile (· = colon)
  rest = [] ∨ (strip isspace (rest.takeWhile (· ≠ colon)) = text "log-level" ∧
    (line.head? = some colon ∨ colon ∉ line ∨ rest.dropWhile (· ≠ colon) = [colon] ∨
      rest.dropWhile (· ≠ colon) = [colon, lineEnd]))

theorem strtok_singleton (c : UInt8) (s : List UInt8) : strtok [c] s =
    match s.dropWhile (· = c) with
    | [] => none
    | rest => some (rest.takeWhile (· ≠ c), (rest.dropWhile (· ≠ c)).tail) := by
  have hin : (fun b => decide (b ∈ [c])) = fun b => decide (b = c) :=
    funext fun b => decide_eq_decide.mpr List.mem_singleton
  have hout : (fun b => decide (b ∉ [c])) = fun b => decide (b ≠ c) :=
    funext fun b => decide_eq_decide.mpr (not_congr List.mem_singleton)
  exact congrArg₂ (fun p q : UInt8 → Bool => match s.dropWhile p with
    | [] => none
    | rest => some (rest.takeWhile q, (rest.dropWhile q).tail)) hin hout

/-- What the loop makes of a line that fits into `line` and has no NUL. -/
theorem readLine_of_fits {content line : List UInt8} (h : line ∈ keepLines lineEnd content)
    (hfits : line.length ≤ pieceSize) (hzero : (0 : UInt8) ∉ line) :
    readLine line = match line.dropWhile (· = colon) with
      | [] => some none
      | rest =>
        if strip isspace (rest.takeWhile (· ≠ colon)) = text "log-level" then
          some ((strtok [lineEnd] (rest.dropWhile (· ≠ colon)).tail).map fun parts =>
            strip isspace parts.1)
        else none := by
  have hchars : chars line = line := List.takeWhile_eq_self_iff.mpr fun x hx => by
    simpa using fun h0 : x = 0 => hzero (h0 ▸ hx)
  rw [readLine, pieces_of_fits h hfits, List.findSome?_singleton, readPiece, hchars,
    strtok_singleton]
  cases line.dropWhile (· = colon) with
  | nil => rfl
  | cons x rest =>
    dsimp only
    rw [trim_eq]
    by_cases hkey : strip isspace ((x :: rest).takeWhile (· ≠ colon)) = text "log-level"
    · rw [if_pos hkey, if_pos hkey]
      cases strtok [lineEnd] ((x :: rest).dropWhile (· ≠ colon)).tail with
      | none => rfl
      | some parts => simp [trim_eq]
    · rw [if_neg hkey, if_neg hkey]

theorem strtok_text {c : UInt8} {s : List UInt8} (hs : c ∉ s) (hne : s ≠ []) (t : List UInt8)
    (ht : t = [] ∨ t = [c]) : (strtok [c] (s ++ t)).map Prod.fst = some s := by
  obtain ⟨x, s, rfl⟩ := List.exists_cons_of_ne_nil hne
  have hx : x ≠ c := Ne.symm (List.ne_of_not_mem_cons hs)
  have hall : ∀ y ∈ x :: s, (decide (y ≠ c)) = true := fun y hy => by
    simpa using fun hyc : y = c => hs (hyc ▸ hy)
  have htail : t.takeWhile (· ≠ c) = [] := by
    rcases ht with rfl | rfl <;> simp
  have hdrop : (x :: s ++ t).dropWhile (· = c) = x :: (s ++ t) :=
    List.dropWhile_cons_of_neg (by simpa using hx)
  rw [strtok_singleton, hdrop]
  show some ((x :: s ++ t).takeWhile (· ≠ c)) = _
  rw [List.takeWhile_append_of_pos hall, htail, List.append_nil]

/-- The value behind a colon: `strtok` finds none exactly when nothing but the end of the line is
there. -/
theorem strtok_value {content : List UInt8} (key value : List UInt8)
    (h : key ++ colon :: value ∈ keepLines lineEnd content) :
    (strtok [lineEnd] value).map (fun parts => strip isspace parts.1) =
      if value = [] ∨ value = [lineEnd] then none else some (strip isspace value) := by
  have hparts : (strtok [lineEnd] value).map (fun parts => strip isspace parts.1) =
      ((strtok [lineEnd] value).map Prod.fst).map (strip isspace) := by
    rw [Option.map_map]
    rfl
  obtain ⟨v, hv, hvalue⟩ : ∃ v, lineEnd ∉ v ∧ (value = v ++ [lineEnd] ∨ value = v) := by
    obtain ⟨t, ht, hline | ⟨rfl, -⟩⟩ := mem_keepLines h
    · rcases value.eq_nil_or_concat' with rfl | ⟨v, y, rfl⟩
      · have := (List.append_inj' hline rfl).2
        exact absurd this (by decide)
      · rw [← List.cons_append, ← List.append_assoc] at hline
        obtain ⟨rfl, hy⟩ := List.append_inj' hline rfl
        refine ⟨v, fun hv => ht ?_, .inl (by rw [hy])⟩
        exact List.mem_append_right _ (List.mem_cons_of_mem _ hv)
    · exact ⟨value, fun hv => ht (List.mem_append_right _ (List.mem_cons_of_mem _ hv)), .inr rfl⟩
  rw [hparts]
  by_cases hnil : v = []
  · subst hnil
    obtain rfl | rfl := hvalue <;> rfl
  · obtain rfl | rfl := hvalue
    · rw [strtok_text hv hnil _ (.inr rfl), if_neg (by simpa using hnil),
        strip_concat_blank _ (by decide)]
      rfl
    · have hne : value ≠ [lineEnd] := by
        rintro rfl
        exact hv List.mem_cons_self
      have htext := strtok_text hv hnil [] (.inl rfl)
      rw [List.append_nil] at htext
      rw [htext, if_neg (by simp [hnil, hne])]
      rfl

/-- The lines of at most 127 bytes without NUL that are parsed otherwise than they are meant. -/
theorem readLine_ne_iff {content line : List UInt8} (h : line ∈ keepLines lineEnd content)
    (hfits : line.length ≤ pieceSize) (hzero : (0 : UInt8) ∉ line) :
    readLine line ≠ meantLine line ↔ MisparsedFitting line := by
  rw [readLine_of_fits h hfits hzero, meantLine, logLevelOf, MisparsedFitting]
  have hline : line ≠ [] := by
    obtain ⟨t, -, rfl | ⟨rfl, ht⟩⟩ := mem_keepLines h
    · simp
    · exact ht
  obtain ⟨x, s, rfl⟩ := List.exists_cons_of_ne_nil hline
  by_cases hx : x = colon
  · -- the text in front of the first colon is empty
    subst hx
    have hmeant : cut colon (colon :: s) = some ([], s) := cut_eq_some_iff.mpr ⟨rfl, by simp⟩
    have hkey : strip isspace ([] : List UInt8) ≠ text "log-level" := by decide
    rw [hmeant]
    dsimp only
    rw [if_neg hkey, Option.map_none, List.head?_cons]
    cases (colon :: s).dropWhile (· = colon) with
    | nil => simp
    | cons y rest =>
      by_cases htoken : strip isspace ((y :: rest).takeWhile (· ≠ colon)) = text "log-level"
      · simp only [htoken]
        simp
      · simp only [htoken]
        simp
  · have hdrop : (x :: s).dropWhile (· = colon) = x :: s :=
      List.dropWhile_cons_of_neg (by simpa using hx)
    rw [hdrop]
    dsimp only
    cases hcut : cut colon (x :: s) with
    | none =>
      have hmem := cut_eq_none_iff.mp hcut
      rw [takeWhile_of_notMem hmem, dropWhile_of_notMem hmem]
      by_cases hkey : strip isspace (x :: s) = text "log-level"
      · simp [hkey, hmem, strtok]
      · simp [hkey]
    | some parts =>
      have hvalue := strtok_value parts.1 parts.2 ((cut_eq_some_iff.mp hcut).1 ▸ h)
      have hmem : colon ∈ x :: s := by
        rw [(cut_eq_some_iff.mp hcut).1]
        simp
      rw [takeWhile_of_cut hcut, dropWhile_of_cut hcut, List.tail_cons, hvalue]
      by_cases hkey : strip isspace parts.1 = text "log-level"
      · by_cases hnone : parts.2 = [] ∨ parts.2 = [lineEnd]
        · simp [hkey, hnone]
        · simp [hkey, hnone, hmem, hx]
      · simp [hkey]

/-! ## Any line -/

/-- What `strtok` sees of a piece: the text up to a NUL, behind the colons in front. -/
def seen (piece : List UInt8) : List UInt8 := (chars piece).dropWhile (· = colon)

/-- The text up to the next colon is `log-level`. -/
def Keyed (piece : List UInt8) : Prop :=
  strip isspace ((seen piece).takeWhile (· ≠ colon)) = text "log-level"

instance (piece : List UInt8) : Decidable (Keyed piece) :=
  inferInstanceAs (Decidable (_ = _))

/-- The text behind that colon, up to the end of the line. -/
def valueText (piece : List UInt8) : List UInt8 :=
  (((seen piece).dropWhile (· ≠ colon)).tail.dropWhile (· = lineEnd)).takeWhile (· ≠ lineEnd)

/-- The loop stops at a piece that has nothing but colons, or begins with `log-level`. -/
def Stops (piece : List UInt8) : Prop := seen piece = [] ∨ Keyed piece

/-- The piece begins with `log-level`, and this is the value behind it. -/
def Shows (piece value : List UInt8) : Prop :=
  Keyed piece ∧ valueText piece ≠ [] ∧ strip isspace (valueText piece) = value

/-- The pieces of at most 127 bytes that a line is read in. -/
def linePieces (line : List UInt8) : List (List UInt8) := pieces lineEnd pieceSize pieceSize line

/-- The loop does not stop in the line. -/
def NoStop (line : List UInt8) : Prop := ∀ piece ∈ linePieces line, ¬ Stops piece

/-- The first piece that the loop stops at. -/
def FirstStop (ps : List (List UInt8)) (piece : List UInt8) : Prop :=
  ∃ before after, ps = before ++ piece :: after ∧ Stops piece ∧ ∀ p ∈ before, ¬ Stops p

/-- The ways in which a line is parsed otherwise than it is meant: where the loop stops there are
only colons, or `log-level` without a value, or another value than the line has, because of colons
in front or because a NUL or the end of a piece cuts it off; or the line has a log level, but no
piece of it begins with `log-level`. -/
inductive Misparsed (line : List UInt8) : Prop
  | onlyColons {piece : List UInt8} : FirstStop (linePieces line) piece → seen piece = [] →
      Misparsed line
  | noValue {piece : List UInt8} : FirstStop (linePieces line) piece → Keyed piece →
      valueText piece = [] → Misparsed line
  | otherValue {piece value : List UInt8} : FirstStop (linePieces line) piece → Shows piece value →
      logLevelOf line ≠ some value → Misparsed line
  | unseen {value : List UInt8} : NoStop line → logLevelOf line = some value → Misparsed line

/-- A misparsed line does no harm if a later line makes up for it: the value that it shows and does
not have is that of the next line with a log level, or the value that it has and does not show is
what the loop stops at. -/
inductive Cured (line : List UInt8) (later : List (List UInt8)) : Prop
  | had {piece value : List UInt8} : FirstStop (linePieces line) piece → Shows piece value →
      logLevelOf line = none → later.findSome? logLevelOf = some value → Cured line later
  | shown {piece value : List UInt8} : NoStop line → logLevelOf line = some value →
      FirstStop (later.flatMap linePieces) piece → Shows piece value → Cured line later

theorem not_keyed_of_seen {piece : List UInt8} (h : seen piece = []) : ¬ Keyed piece := by
  unfold Keyed
  rw [h]
  decide

theorem strtok_lineEnd (s : List UInt8) : (strtok [lineEnd] s).map Prod.fst =
    if (s.dropWhile (· = lineEnd)).takeWhile (· ≠ lineEnd) = [] then none
    else some ((s.dropWhile (· = lineEnd)).takeWhile (· ≠ lineEnd)) := by
  rw [strtok_singleton]
  cases hdrop : s.dropWhile (· = lineEnd) with
  | nil => rfl
  | cons x rest =>
    have hx : x ≠ lineEnd := by
      have := List.head?_dropWhile_not (fun b => decide (b = lineEnd)) s
      rw [hdrop] at this
      simpa using this
    have hne : (x :: rest).takeWhile (· ≠ lineEnd) ≠ [] := by
      rw [List.takeWhile_cons_of_pos (by simpa using hx)]
      exact List.cons_ne_nil _ _
    rw [if_neg hne]
    rfl

theorem strtok_colon (piece : List UInt8) : strtok [colon] (chars piece) =
    if seen piece = [] then none
    else some ((seen piece).takeWhile (· ≠ colon), ((seen piece).dropWhile (· ≠ colon)).tail) := by
  rw [strtok_singleton]
  unfold seen
  cases (chars piece).dropWhile (· = colon) <;> rfl

/-- What the loop makes of a piece, by the text in it. -/
theorem readPiece_eq (piece : List UInt8) : readPiece piece =
    if seen piece = [] then some none
    else if Keyed piece then
      some (if valueText piece = [] then none else some (strip isspace (valueText piece)))
    else none := by
  unfold readPiece
  rw [strtok_colon]
  by_cases hseen : seen piece = []
  · rw [if_pos hseen, if_pos hseen]
  · rw [if_neg hseen, if_neg hseen]
    dsimp only
    rw [trim_eq]
    by_cases hkey : Keyed piece
    · have hname : strip isspace ((seen piece).takeWhile (· ≠ colon)) = text "log-level" := hkey
      rw [if_pos hname, if_pos hkey]
      have hvalue := strtok_lineEnd ((seen piece).dropWhile (· ≠ colon)).tail
      change _ = if valueText piece = [] then none else some (valueText piece) at hvalue
      by_cases hnone : valueText piece = []
      · rw [if_pos hnone, Option.map_eq_none_iff] at hvalue
        rw [hvalue, if_pos hnone]
      · rw [if_neg hnone] at hvalue
        obtain ⟨parts, htoken, hparts⟩ := Option.map_eq_some_iff.mp hvalue
        rw [htoken, if_neg hnone, ← hparts, ← trim_eq]
    · have hname : ¬ strip isspace ((seen piece).takeWhile (· ≠ colon)) = text "log-level" := hkey
      rw [if_neg hname, if_neg hkey]

theorem readPiece_eq_none_iff (piece : List UInt8) : readPiece piece = none ↔ ¬ Stops piece := by
  rw [readPiece_eq, Stops]
  split_ifs <;> simp_all

theorem readPiece_trimsNull_iff (piece : List UInt8) :
    readPiece piece = some none ↔ seen piece = [] ∨ Keyed piece ∧ valueText piece = [] := by
  rw [readPiece_eq]
  split_ifs <;> simp_all

theorem readPiece_shows_iff (piece value : List UInt8) :
    readPiece piece = some (some value) ↔ Shows piece value := by
  rw [readPiece_eq, Shows]
  split_ifs with hseen hkey hvalue
  · simp [not_keyed_of_seen hseen]
  · simp [hvalue]
  · simp [hkey, hvalue]
  · simp [hkey]

theorem readPiece_stops {piece : List UInt8} {o : Option (List UInt8)}
    (h : readPiece piece = some o) : Stops piece := by
  by_contra hno
  rw [(readPiece_eq_none_iff piece).mpr hno] at h
  cases h

/-- A search through pieces finds what the loop makes of the first one that it stops at. -/
theorem findSome?_readPiece_iff {ps : List (List UInt8)} {o : Option (List UInt8)} :
    ps.findSome? readPiece = some o ↔ ∃ piece, FirstStop ps piece ∧ readPiece piece = some o := by
  rw [List.findSome?_eq_some_iff]
  constructor
  · rintro ⟨before, piece, after, rfl, hread, hbefore⟩
    exact ⟨piece, ⟨before, after, rfl, readPiece_stops hread, fun p hp =>
      (readPiece_eq_none_iff p).mp (hbefore p hp)⟩, hread⟩
  · rintro ⟨piece, ⟨before, after, rfl, -, hbefore⟩, hread⟩
    exact ⟨before, piece, after, rfl, hread, fun p hp =>
      (readPiece_eq_none_iff p).mpr (hbefore p hp)⟩

theorem readLine_eq_none_iff (line : List UInt8) : readLine line = none ↔ NoStop line := by
  rw [readLine, List.findSome?_eq_none_iff]
  exact forall₂_congr fun piece _ => readPiece_eq_none_iff piece

theorem meantLine_eq_some_iff (line : List UInt8) (o : Option (List UInt8)) :
    meantLine line = some o ↔ ∃ value, o = some value ∧ logLevelOf line = some value := by
  rw [meantLine, Option.map_eq_some_iff]
  exact exists_congr fun value => ⟨fun h => ⟨h.2.symm, h.1⟩, fun h => ⟨h.2, h.1.symm⟩⟩

theorem meantLine_eq_none_iff (line : List UInt8) :
    meantLine line = none ↔ logLevelOf line = none := Option.map_eq_none_iff

theorem readLine_of_firstStop {line piece : List UInt8} {o : Option (List UInt8)}
    (h : FirstStop (linePieces line) piece) (hread : readPiece piece = some o) :
    readLine line = some o := findSome?_readPiece_iff.mpr ⟨piece, h, hread⟩

/-- The loop and the format make different things of a line exactly when it is misparsed. -/
theorem misparsed_iff (line : List UInt8) : Misparsed line ↔ readLine line ≠ meantLine line := by
  constructor
  · have hnull : ∀ {piece}, FirstStop (linePieces line) piece → readPiece piece = some none →
        readLine line ≠ meantLine line := by
      intro piece hfirst hread heq
      rw [readLine_of_firstStop hfirst hread] at heq
      obtain ⟨_, hsome, -⟩ := (meantLine_eq_some_iff line none).mp heq.symm
      cases hsome
    rintro (⟨hfirst, hseen⟩ | ⟨hfirst, hkey, hvalue⟩ | ⟨hfirst, hshows, hne⟩ | ⟨hno, hhas⟩)
    · exact hnull hfirst ((readPiece_trimsNull_iff _).mpr (.inl hseen))
    · exact hnull hfirst ((readPiece_trimsNull_iff _).mpr (.inr ⟨hkey, hvalue⟩))
    · intro heq
      rw [readLine_of_firstStop hfirst ((readPiece_shows_iff _ _).mpr hshows)] at heq
      obtain ⟨_, hsome, hhas⟩ := (meantLine_eq_some_iff line _).mp heq.symm
      cases hsome
      exact hne hhas
    · intro heq
      rw [(readLine_eq_none_iff line).mpr hno, eq_comm, meantLine_eq_none_iff, hhas] at heq
      cases heq
  · intro hne
    cases hread : readLine line with
    | none =>
      cases hhas : logLevelOf line with
      | none => exact absurd (hread.trans ((meantLine_eq_none_iff line).mpr hhas).symm) hne
      | some value => exact .unseen ((readLine_eq_none_iff line).mp hread) hhas
    | some o =>
      obtain ⟨piece, hfirst, hpiece⟩ := findSome?_readPiece_iff.mp hread
      cases o with
      | none =>
        rcases (readPiece_trimsNull_iff piece).mp hpiece with hseen | ⟨hkey, hvalue⟩
        · exact .onlyColons hfirst hseen
        · exact .noValue hfirst hkey hvalue
      | some value =>
        refine .otherValue hfirst ((readPiece_shows_iff _ _).mp hpiece) fun hhas => hne ?_
        rw [hread, (meantLine_eq_some_iff line _).mpr ⟨value, rfl, hhas⟩]

/-- For a line that fits and has no NUL, these are the lines from above. -/
theorem misparsed_iff_fitting {content line : List UInt8} (h : line ∈ keepLines lineEnd content)
    (hfits : line.length ≤ pieceSize) (hzero : (0 : UInt8) ∉ line) :
    Misparsed line ↔ MisparsedFitting line :=
  (misparsed_iff line).trans (readLine_ne_iff h hfits hzero)

/-- The searches meet behind a line exactly when a later line makes up for it. -/
theorem cured_iff (line : List UInt8) (later : List (List UInt8)) : Cured line later ↔
    (∃ o, readLine line = some o ∧ meantLine line = none ∧ later.findSome? meantLine = some o) ∨
      ∃ o, readLine line = none ∧ meantLine line = some o ∧ later.findSome? readLine = some o := by
  have hmeant : later.findSome? meantLine = (later.findSome? logLevelOf).map some := by
    rw [List.map_findSome?]
    rfl
  have hread : later.findSome? readLine = (later.flatMap linePieces).findSome? readPiece :=
    (findSome?_flatMap _ _).symm
  rw [hmeant, hread]
  constructor
  · rintro (⟨hfirst, hshows, hhas, hlater⟩ | ⟨hno, hhas, hfirst, hshows⟩)
    · refine .inl ⟨_, readLine_of_firstStop hfirst ((readPiece_shows_iff _ _).mpr hshows),
        (meantLine_eq_none_iff line).mpr hhas, ?_⟩
      rw [hlater]
      rfl
    · exact .inr ⟨_, (readLine_eq_none_iff line).mpr hno,
        (meantLine_eq_some_iff line _).mpr ⟨_, rfl, hhas⟩,
        findSome?_readPiece_iff.mpr ⟨_, hfirst, (readPiece_shows_iff _ _).mpr hshows⟩⟩
  · rintro (⟨o, hline, hnone, hlater⟩ | ⟨o, hnone, hline, hlater⟩)
    · obtain ⟨value, hvalue, rfl⟩ := Option.map_eq_some_iff.mp hlater
      obtain ⟨piece, hfirst, hpiece⟩ := findSome?_readPiece_iff.mp hline
      exact .had hfirst ((readPiece_shows_iff _ _).mp hpiece)
        ((meantLine_eq_none_iff line).mp hnone)
        hvalue
    · obtain ⟨value, rfl, hhas⟩ := (meantLine_eq_some_iff line o).mp hline
      obtain ⟨piece, hfirst, hpiece⟩ := findSome?_readPiece_iff.mp hlater
      exact .shown ((readLine_eq_none_iff line).mp hnone) hhas hfirst
        ((readPiece_shows_iff _ _).mp hpiece)

/-- The loop goes on behind a line, and so does the search for the log level. -/
def Passed (line : List UInt8) : Prop := NoStop line ∧ logLevelOf line = none

theorem parsedAsMeant_iff (content : List UInt8) : ParsedAsMeant (some content) ↔
    ∀ before line later, keepLines lineEnd content = before ++ line :: later →
      (∀ l ∈ before, Passed l) → Misparsed line → Cured line later := by
  have hpassed (before : List (List UInt8)) :
      (∀ l ∈ before, readLine l = none ∧ meantLine l = none) ↔ ∀ l ∈ before, Passed l :=
    forall₂_congr fun l _ =>
      and_congr (readLine_eq_none_iff l) (meantLine_eq_none_iff l)
  rw [ParsedAsMeant, parseFile_eq, ParseResult.ofSearch_eq_iff, Option.bind_some, logLevel_eq,
    findSome?_eq_iff]
  unfold MeetLater
  refine forall₃_congr fun before line later => imp_congr_right fun _ => ?_
  rw [hpassed, misparsed_iff, cured_iff]

/-- A file is parsed as it is meant exactly when a later line makes up for its first misparsed line,
if the loop and the search for the log level get that far. -/
theorem parse_file_iff (file : Option (List UInt8)) : ParsedAsMeant file ↔
    ∀ content, file = some content → ∀ before line later,
      keepLines lineEnd content = before ++ line :: later → (∀ l ∈ before, Passed l) →
      Misparsed line → Cured line later := by
  cases file with
  | none => exact iff_of_true rfl fun _ h => by cases h
  | some content =>
    rw [parsedAsMeant_iff]
    exact ⟨fun h content' heq => by cases heq; exact h, fun h => h content rfl⟩

/-- A log level without a value makes `parse_file` trim a null pointer. -/
theorem log_level_without_value : ¬ ParsedAsMeant (some (text "log-level:\n")) := by
  unfold ParsedAsMeant
  decide

/-- Lines of at most 127 bytes without NUL, none of them misparsed, are parsed as they are meant. -/
theorem parsedAsMeant_of_regular {content : List UInt8}
    (h : ∀ line ∈ keepLines lineEnd content,
      line.length ≤ pieceSize ∧ (0 : UInt8) ∉ line ∧ ¬ MisparsedFitting line) :
    ParsedAsMeant (some content) := by
  rw [parsedAsMeant_iff]
  intro before line later hlines _ hmis
  have hmem : line ∈ keepLines lineEnd content := by
    rw [hlines]
    simp
  obtain ⟨hfits, hzero, hregular⟩ := h line hmem
  exact absurd ((misparsed_iff_fitting hmem hfits hzero).mp hmis) hregular

end E2Term
