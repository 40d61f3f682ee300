/-
# The records of the JSON log

`logger_log` formats a message, prints it, and appends a record to
`omni_logs.jsonl` in which the message stands with its quotation marks,
backslashes, line feeds, carriage returns and tabs escaped. The other control
characters are written as they are, and with one of them the line is not JSON.
-/

import OmniSocket.JsonEscape
import OmniSocket.Lib.Json

set_option autoImplicit false

namespace OmniSocket

open Lib

/-! ## The code -/

/-- `level_to_int`. -/
def levelToInt (level : Option String) : ℤ :=
  match level with
  | none => 1
  | some "DEBUG" => 0
  | some "INFO" => 1
  | some "WARN" => 2
  | some "ERROR" => 3
  | some _ => 1

/-- What `logger_log` reads. -/
structure LogState where
  /-- `g_min_level`. -/
  minLevel : ℤ
  /-- `g_json_fp` is not null. -/
  jsonOpen : Bool

/-- What a call appends. -/
structure LogOutput where
  stderr : List UInt8
  json : List UInt8

/-- `esc_buf`, with whatever is in it. -/
abbrev EscBuf : Type := { buf : List UInt8 // buf.length = logEscapedSize }

/-- `%llu`. -/
def decimal (n : UInt64) : List UInt8 := utf8 (Nat.toDigits 10 n.toNat)

/-- The record of a message that is escaped already. -/
def logJsonRecord (ts : UInt64) (lvl comp : String) (escaped : CString) : List UInt8 :=
  bytesOf "\x7b\"ts_ms\":" ++ decimal ts ++ bytesOf ",\"level\":\"" ++ bytesOf lvl ++
    bytesOf "\",\"component\":\"" ++ bytesOf comp ++ bytesOf "\",\"message\":\"" ++
    escaped.bytes ++ bytesOf "\"\x7d\n"

/-- `logger_log`, where `formatted` is what the format makes of the arguments. The clock is
read for either output. -/
def loggerLog (st : LogState) (level component : Option String) (formatted : CString)
    (esc : EscBuf) (stamp jsonStamp : UInt64) : Option LogOutput :=
  let lvl := level.getD "INFO"
  let comp := component.getD "general"
  if levelToInt (some lvl) < st.minLevel then some ⟨[], []⟩
  else
    -- `vsnprintf` into `msg_buf`
    let msg := formatted.take (logMessageSize - 1)
    let printed := bytesOf "ts=" ++ decimal stamp ++ bytesOf " level=" ++ bytesOf lvl ++
      bytesOf " component=" ++ bytesOf comp ++ bytesOf " " ++ msg.bytes ++ bytesOf "\n"
    if st.jsonOpen then
      (jsonEscape msg esc.1).map fun buf =>
        ⟨printed, logJsonRecord jsonStamp lvl comp (.ofMemory buf)⟩
    else some ⟨printed, []⟩

/-- The levels and components that `logger_log` is called with. -/
def logSites : List (String × String) :=
  [("DEBUG", "kcp"), ("DEBUG", "network"), ("DEBUG", "tcp"), ("ERROR", "client"),
    ("ERROR", "kcp"), ("ERROR", "network"), ("ERROR", "relay"), ("ERROR", "server"),
    ("ERROR", "tcp"), ("ERROR", "udp"), ("INFO", "client"), ("INFO", "kcp"), ("INFO", "network"),
    ("INFO", "relay"), ("INFO", "server"), ("INFO", "tcp"), ("INFO", "tcpinfo"), ("INFO", "test"),
    ("INFO", "udp")]

/-! ## What a record should be -/

/-- One line, which is a JSON text in UTF-8 whose `message` is the string `text`. -/
def Records (record text : List UInt8) : Prop :=
  ∃ body content value message, record = body ++ [byteOf '\n'] ∧ byteOf '\n' ∉ body ∧
    utf8 content = body ∧ Json.Denotes content value ∧ utf8 message = text ∧
    value.member (utf16 "message".toList) = some (.string (utf16 message))

/-- A byte that may be logged: no control character but a tab, a line feed or a carriage
return. -/
def IsLoggable (b : UInt8) : Prop := 0x20 ≤ b.toNat ∨ b = 9 ∨ b = 10 ∨ b = 13

instance (b : UInt8) : Decidable (IsLoggable b) := inferInstanceAs (Decidable (_ ∨ _))

/-! ## The message -/

/-- Escapes are written with bytes below 128. -/
theorem ascii_escape {text : List UInt8} (ascii : ∀ b ∈ text, b.toNat < 128) :
    ∀ b ∈ jsonEscaping.escape text, b.toNat < 128 := by
  refine jsonEscaping.forall_mem_escape ascii (by decide) fun a b letter => ?_
  rcases jsonLetter_cases letter with ⟨rfl, rfl | rfl⟩ | ⟨-, rfl⟩ | ⟨-, rfl⟩ | ⟨-, rfl⟩ <;> decide

/-- The escape of a message that may be logged is what stands in a JSON string for it. -/
theorem chars_escape {text : List UInt8} (loggable : ∀ b ∈ text, IsLoggable b) :
    Json.Chars ((jsonEscaping.escape text).map charOf) (utf16 (text.map charOf)) := by
  induction text with
  | nil => exact .nil
  | cons b text ih =>
    have rest := ih fun c member => loggable c (List.mem_cons_of_mem _ member)
    rw [Escaping.escape_cons, List.map_append, Escaping.escapeOne]
    split
    case h_1 plain =>
      -- what has no letter is neither a quotation mark, a backslash nor a control character
      have number := toNat_charOf b
      refine .plain ⟨?_, ?_, ?_⟩ rest
      · rw [number]
        rcases loggable b List.mem_cons_self with visible | rfl | rfl | rfl
        · exact visible
        all_goals exact absurd plain (by decide)
      all_goals
        intro same
        have mark : b = byteOf (charOf b) := by rw [byteOf, number, UInt8.ofNat_toNat]
        rw [same] at mark
        exact absurd plain (mark ▸ by decide)
    case h_2 letter escaped =>
      rcases jsonLetter_cases escaped with ⟨rfl, rfl | rfl⟩ | ⟨rfl, rfl⟩ | ⟨rfl, rfl⟩ | ⟨rfl, rfl⟩
      all_goals exact .escape (by decide) rest

/-! ## The record -/

/-- A positive number is not written with a leading zero. -/
theorem toDigits_head {n : ℕ} (pos : 0 < n) :
    ∃ d rest, Nat.toDigits 10 n = d :: rest ∧ d ≠ '0' := by
  induction n using Nat.strongRecOn with
  | ind n ih =>
    by_cases small : n < 10
    · have nonzero : ∀ n < 10, 0 < n → Nat.digitChar n ≠ '0' := by decide
      exact ⟨n.digitChar, [], Nat.toDigits_of_lt_base small, nonzero n small pos⟩
    · obtain ⟨d, rest, high, nonzero⟩ := ih (n / 10) (by omega) (by omega)
      refine ⟨d, rest ++ [(n % 10).digitChar], ?_, nonzero⟩
      rw [Nat.toDigits_of_base_le (by decide) (by omega), high, List.cons_append]

/-- The digits of a number are a JSON number. -/
theorem isNumber_toDigits (n : ℕ) : Json.IsNumber (Nat.toDigits 10 n) := by
  have digits : Json.IsDigits (Nat.toDigits 10 n) := ⟨Nat.toDigits_ne_nil, fun c member =>
    Nat.isDigit_of_mem_toDigits (by decide) (by decide) member⟩
  refine ⟨[], Nat.toDigits 10 n, [], [], by simp, .inl rfl, ?_, .inl rfl, .inl rfl⟩
  rcases Nat.eq_zero_or_pos n with rfl | pos
  · exact .inl (Nat.toDigits_zero 10)
  · obtain ⟨d, rest, written, nonzero⟩ := toDigits_head pos
    exact .inr ⟨d, rest, written, nonzero, digits⟩

private def quoted (s : List Char) : List Char := '"' :: s ++ ['"']

/-- A member with nothing around its name. -/
private def recordMember (name text : List Char) (value : Json) : Json.Member :=
  ⟨[], quoted name, [], text, utf16 name, value⟩

/-- The members of a record. -/
def recordMembers (ts : UInt64) (lvl comp escaped : List Char) (units : List UInt16) :
    List Json.Member :=
  [recordMember "ts_ms".toList (Nat.toDigits 10 ts.toNat) (.number (Nat.toDigits 10 ts.toNat)),
    recordMember "level".toList (quoted lvl) (.string (utf16 lvl)),
    recordMember "component".toList (quoted comp) (.string (utf16 comp)),
    recordMember "message".toList (quoted escaped) (.string units)]

/-- A record, without its line feed. -/
def recordText (members : List Json.Member) : List Char :=
  '{' :: Json.commas (members.map Json.Member.source) ++ ['}']

private theorem recordText_eq (a b c d digits lvl comp escaped : List Char) (u v w x : Json) :
    recordText [recordMember a digits u, recordMember b (quoted lvl) v,
        recordMember c (quoted comp) w, recordMember d (quoted escaped) x] =
      ('{' :: quoted a ++ [':']) ++ digits ++ (',' :: quoted b ++ [':', '"']) ++ lvl ++
        (['"', ','] ++ quoted c ++ [':', '"']) ++ comp ++ (['"', ','] ++ quoted d ++ [':', '"']) ++
        escaped ++ ['"', '}'] := by
  simp [recordText, recordMember, Json.Member.source, quoted]

/-- What is appended to the log is the record and a line feed. -/
theorem logJsonRecord_eq (ts : UInt64) (lvl comp : String) {escaped : CString}
    (units : List UInt16) (ascii : ∀ b ∈ escaped.bytes, b.toNat < 128) :
    logJsonRecord ts lvl comp escaped =
      utf8 (recordText
        (recordMembers ts lvl.toList comp.toList (escaped.bytes.map charOf) units)) ++
        [byteOf '\n'] := by
  have stamp : bytesOf "\x7b\"ts_ms\":" = utf8 ('{' :: quoted "ts_ms".toList ++ [':']) := by
    decide +kernel
  have first : bytesOf ",\"level\":\"" = utf8 (',' :: quoted "level".toList ++ [':', '"']) := by
    decide +kernel
  have second : bytesOf "\",\"component\":\"" =
      utf8 (['"', ','] ++ quoted "component".toList ++ [':', '"']) := by decide +kernel
  have third : bytesOf "\",\"message\":\"" =
      utf8 (['"', ','] ++ quoted "message".toList ++ [':', '"']) := by decide +kernel
  have last : bytesOf "\"\x7d\n" = utf8 ['"', '}'] ++ [byteOf '\n'] := by decide +kernel
  rw [recordMembers, recordText_eq, logJsonRecord, stamp, first, second, third, last]
  generalize "ts_ms".toList = a
  generalize "level".toList = b
  generalize "component".toList = c
  generalize "message".toList = d
  simp only [utf8_append, utf8_map_charOf ascii, List.append_assoc]
  rfl

private theorem denotes_quoted {s : List Char} {units : List UInt16} (chars : Json.Chars s units) :
    Json.Denotes (quoted s) (.string units) := .string ⟨s, rfl, chars⟩

/-- A record is an object if its level, its component and its message are strings. -/
theorem denotes_record (ts : UInt64) {lvl comp escaped : List Char} {units : List UInt16}
    (level : ∀ c ∈ lvl, Json.IsUnescaped c) (component : ∀ c ∈ comp, Json.IsUnescaped c)
    (message : Json.Chars escaped units) :
    Json.Denotes (recordText (recordMembers ts lvl comp escaped units))
      (.object ((recordMembers ts lvl comp escaped units).map fun m => (m.units, m.value))) := by
  have space : Json.IsSpace [] := by simp [Json.IsSpace]
  have names : ∀ name ∈ ["ts_ms", "level", "component", "message"],
      name.toList.all fun c => decide (Json.IsUnescaped c) := by decide +kernel
  have named : ∀ name ∈ ["ts_ms", "level", "component", "message"], ∀ text value,
      Json.IsSpace (recordMember name.toList text value).before ∧
      Json.IsSpace (recordMember name.toList text value).after ∧
      Json.IsString (recordMember name.toList text value).name
        (recordMember name.toList text value).units := fun name listed _ _ =>
    ⟨space, space, name.toList, rfl,
      .of_unescaped (List.all_iff_forall_prop.mp (names name listed))⟩
  refine .object (List.cons_ne_nil _ _) ?_ ?_
  · intro m member
    simp only [recordMembers, List.mem_cons, List.not_mem_nil, or_false] at member
    rcases member with rfl | rfl | rfl | rfl <;> exact named _ (by simp) _ _
  · intro m member
    simp only [recordMembers, List.mem_cons, List.not_mem_nil, or_false] at member
    rcases member with rfl | rfl | rfl | rfl
    · exact .number (isNumber_toDigits _)
    · exact denotes_quoted (.of_unescaped level)
    · exact denotes_quoted (.of_unescaped component)
    · exact denotes_quoted message

/-- Nothing in a record starts a new line. -/
theorem newline_recordText (ts : UInt64) {lvl comp escaped : List Char} {units : List UInt16}
    (level : '\n' ∉ lvl) (component : '\n' ∉ comp) (message : '\n' ∉ escaped) :
    '\n' ∉ recordText (recordMembers ts lvl comp escaped units) := by
  have digits : '\n' ∉ Nat.toDigits 10 ts.toNat := fun member =>
    absurd (Nat.isDigit_of_mem_toDigits (by decide) (by decide) member) (by decide)
  rw [recordMembers, recordText_eq]
  simp [quoted, digits, level, component, message]

/-! ## Exactly the messages that are recorded -/

/-- What any call site logs with is plain text. -/
theorem unescaped_of_mem_logSites {site : String × String} (listed : site ∈ logSites) :
    (∀ c ∈ site.1.toList, Json.IsUnescaped c) ∧ ∀ c ∈ site.2.toList, Json.IsUnescaped c := by
  have all : ∀ site ∈ logSites, (site.1.toList.all fun c => decide (Json.IsUnescaped c)) ∧
      site.2.toList.all fun c => decide (Json.IsUnescaped c) := by decide +kernel
  exact (all site listed).imp List.all_iff_forall_prop.mp List.all_iff_forall_prop.mp

theorem newline_not_unescaped {s : List Char} (unescaped : ∀ c ∈ s, Json.IsUnescaped c) :
    '\n' ∉ s := fun member => absurd (unescaped _ member).1 (by decide)

/-- What is escaped may be logged. -/
theorem isLoggable_of_letter {b letter : UInt8} (escaped : jsonLetter b = some letter) :
    IsLoggable b := by
  rcases jsonLetter_cases escaped with ⟨-, rfl | rfl⟩ | ⟨rfl, -⟩ | ⟨rfl, -⟩ | ⟨rfl, -⟩
  · exact .inl (by decide)
  · exact .inl (by decide)
  · exact .inr (.inr (.inl rfl))
  · exact .inr (.inr (.inr rfl))
  · exact .inr (.inl rfl)

/-- A byte whose character may occur in a JSON text may be logged. -/
theorem isLoggable_of_occurs {b : UInt8} (occurs : Json.Occurs (charOf b)) : IsLoggable b := by
  have number := toNat_charOf b
  have byte : ∀ c : Char, charOf b = c → b = UInt8.ofNat c.toNat := by
    rintro c rfl
    rw [number, UInt8.ofNat_toNat]
  rcases occurs with visible | tab | feed | carriage
  · exact .inl (number ▸ visible)
  · exact .inr (.inl (byte _ tab))
  · exact .inr (.inr (.inl (byte _ feed)))
  · exact .inr (.inr (.inr (byte _ carriage)))

/-- A line feed is never written as it is. -/
theorem newline_escape {text : List UInt8} : byteOf '\n' ∉ jsonEscaping.escape text := by
  intro member
  obtain ⟨c, -, written⟩ := List.mem_flatMap.mp member
  rw [Escaping.escapeOne] at written
  split at written
  case h_1 plain => exact absurd plain (List.mem_singleton.mp written ▸ by decide)
  case h_2 letter escaped =>
    rcases List.mem_pair.mp written with mark | rfl
    · exact absurd mark (by decide)
    · rcases jsonLetter_cases escaped with
        ⟨rfl, same | same⟩ | ⟨-, same⟩ | ⟨-, same⟩ | ⟨-, same⟩ <;>
        exact absurd same (by decide)

/-- The message is recorded exactly if it has no control characters but tabs, line feeds
and carriage returns. -/
theorem records_iff (ts : UInt64) {site : String × String} (listed : site ∈ logSites)
    {text : List UInt8} {escaped : CString} (ascii : ∀ b ∈ text, b.toNat < 128)
    (written : escaped.bytes = jsonEscaping.escape text) :
    Records (logJsonRecord ts site.1 site.2 escaped) text ↔ ∀ b ∈ text, IsLoggable b := by
  obtain ⟨level, component⟩ := unescaped_of_mem_logSites listed
  have plain : ∀ b ∈ escaped.bytes, b.toNat < 128 := written ▸ ascii_escape ascii
  have record := logJsonRecord_eq ts site.1 site.2 (utf16 (text.map charOf)) plain
  constructor
  · rintro ⟨body, content, value, -, split, -, encoded, denotes, -⟩ b inText
    by_contra control
    -- it has no escape, so it is in the line, where no JSON text has it
    have unescaped : jsonLetter b = none :=
      Option.eq_none_iff_forall_not_mem.mpr fun letter escape =>
        control (isLoggable_of_letter escape)
    have inRecord : b ∈ logJsonRecord ts site.1 site.2 escaped := by
      simp [logJsonRecord, written, jsonEscaping.mem_escape_of_plain unescaped inText]
    rw [split, List.mem_append, List.mem_singleton] at inRecord
    have inBody : b ∈ body := inRecord.resolve_right fun newline =>
      control (.inr (.inr (.inl newline)))
    rw [← encoded, mem_utf8_iff (ascii b inText)] at inBody
    exact control (isLoggable_of_occurs (denotes.occurs _ inBody))
  · intro loggable
    have message := chars_escape loggable
    rw [← written] at message
    have newline : '\n' ∉ escaped.bytes.map charOf := by
      have stored : byteOf '\n' ∉ utf8 (escaped.bytes.map charOf) := by
        rw [utf8_map_charOf plain, written]
        exact newline_escape
      rwa [mem_utf8_iff (by decide)] at stored
    refine ⟨_, _, _, text.map charOf, record, ?_, rfl, denotes_record ts level component message,
      utf8_map_charOf ascii, ?_⟩
    · rw [mem_utf8_iff (by decide)]
      exact newline_recordText ts (newline_not_unescaped level) (newline_not_unescaped component)
        newline
    · rfl

/-- `logger_log` escapes all of a message that fits into `msg_buf`. -/
theorem loggerLog_json {st : LogState} {level : String} (comp : String)
    (passes : st.minLevel ≤ levelToInt (some level)) (opened : st.jsonOpen = true)
    (formatted : CString) (short : formatted.bytes.length < logMessageSize) (esc : EscBuf)
    (stamp jsonStamp : UInt64) :
    ∃ out escaped, loggerLog st (some level) (some comp) formatted esc stamp jsonStamp = some out ∧
      out.json = logJsonRecord jsonStamp level comp escaped ∧
      escaped.bytes = jsonEscaping.escape formatted.bytes := by
  have msg : (formatted.take (logMessageSize - 1)).bytes = formatted.bytes :=
    List.take_of_length_le (Nat.le_sub_one_of_lt short)
  have room : 2 * (formatted.take (logMessageSize - 1)).bytes.length < esc.1.length := by
    rw [msg, esc.2, logEscapedSize]
    rw [logMessageSize] at short
    omega
  have some_room : 0 < esc.1.length := by omega
  obtain ⟨p, buf, -, escape, escaped, whole⟩ :=
    jsonEscape_spec (formatted.take (logMessageSize - 1)) some_room
  obtain rfl := (whole room).trans msg
  have json : (loggerLog st (some level) (some comp) formatted esc stamp jsonStamp).map
      LogOutput.json = some (logJsonRecord jsonStamp level comp (.ofMemory buf)) := by
    simp only [loggerLog, Option.getD_some, if_neg (not_lt.mpr passes), if_pos opened, escape,
      Option.map_some]
  obtain ⟨out, run, json⟩ := Option.map_eq_some_iff.mp json
  exact ⟨out, .ofMemory buf, run, json, escaped.string formatted.noNul⟩

/-- A message that `logger_log` appends to the log becomes one line that is a JSON text
with this message exactly if the message may be logged. -/
theorem log_line_iff {st : LogState} {site : String × String} (listed : site ∈ logSites)
    (passes : st.minLevel ≤ levelToInt (some site.1)) (opened : st.jsonOpen = true)
    (formatted : CString) (short : formatted.bytes.length < logMessageSize)
    (ascii : ∀ b ∈ formatted.bytes, b.toNat < 128) (esc : EscBuf) (stamp jsonStamp : UInt64) :
    ∃ out, loggerLog st (some site.1) (some site.2) formatted esc stamp jsonStamp = some out ∧
      (Records out.json formatted.bytes ↔ ∀ b ∈ formatted.bytes, IsLoggable b) := by
  obtain ⟨out, escaped, run, json, written⟩ :=
    loggerLog_json site.2 passes opened formatted short esc stamp jsonStamp
  exact ⟨out, run, json ▸ records_iff jsonStamp listed ascii written⟩

/-- The log is open and takes everything. -/
private def openLog : LogState := ⟨0, true⟩

private def zeroEscBuf : EscBuf := ⟨List.replicate logEscapedSize 0, List.length_replicate⟩

/-- A message in quotation marks, on two lines. -/
private def twoLines : CString := ⟨bytesOf "\"first\"\n\"second\"", by decide +kernel⟩

theorem log_line_iff_two_lines :
    ∃ out, loggerLog openLog (some "INFO") (some "test") twoLines zeroEscBuf 0 0 = some out ∧
      Records out.json twoLines.bytes := by
  have listed : ("INFO", "test") ∈ logSites := by decide +kernel
  have passes : openLog.minLevel ≤ levelToInt (some "INFO") := by decide +kernel
  obtain ⟨out, run, exact_iff⟩ :=
    log_line_iff listed passes rfl twoLines (by decide +kernel) (by decide +kernel) zeroEscBuf 0 0
  exact ⟨out, run, exact_iff.mpr (List.all_iff_forall_prop.mp (by decide +kernel))⟩

/-- What the relay logs after it was told to `set` an address of one character, the one
with number 1. -/
private def oddAddress : CString :=
  ⟨bytesOf "connect_target_failed ip=\x01 port=9000", by decide +kernel⟩

theorem log_line_counterexample :
    ¬ ∀ st site formatted esc stamp jsonStamp out, site ∈ logSites →
      st.minLevel ≤ levelToInt (some site.1) → st.jsonOpen = true →
      formatted.bytes.length < logMessageSize → (∀ b ∈ formatted.bytes, b.toNat < 128) →
      loggerLog st (some site.1) (some site.2) formatted esc stamp jsonStamp = some out →
        Records out.json formatted.bytes := by
  intro right
  have listed : ("ERROR", "relay") ∈ logSites := by decide +kernel
  have ascii : ∀ b ∈ oddAddress.bytes, b.toNat < 128 := by decide +kernel
  have passes : openLog.minLevel ≤ levelToInt (some "ERROR") := by decide +kernel
  have short : oddAddress.bytes.length < logMessageSize := by decide +kernel
  obtain ⟨out, escaped, run, json, written⟩ :=
    loggerLog_json "relay" passes rfl oddAddress short zeroEscBuf 0 0
  have recorded := right openLog ("ERROR", "relay") oddAddress zeroEscBuf 0 0 out listed passes rfl
    short ascii run
  rw [json] at recorded
  exact absurd ((records_iff 0 listed ascii written).mp recorded) (by decide +kernel)

end OmniSocket
