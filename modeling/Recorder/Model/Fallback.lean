import Recorder.Lib.Decimal
import Recorder.Model.EntryFormat

/-!
# `fallback_source.c`: records from the syslog socket and from `/dev/kmsg`

Without journald the recorder binds the syslog socket and reads the kernel's records itself.
Both inputs carry facility and severity as one decimal number in front of the text, `<n>` in a
datagram and `n,` in a kernel record, and each has its own parser here.

A `FallbackRecord` keeps what the two parsers fill: priority, `comm` and message. Its times, the
host and boot names, and the credentials of the sender are filled around them.
-/

set_option autoImplicit false

namespace Recorder.Model

open Recorder.Lib

/-- `FallbackRecord`, as far as the parsers fill it. The message is the copy they allocate.
SOURCE: fallback_source.h:16-28 -/
structure FallbackRecord where
  priority : UInt8 := 0
  comm : Bytes := []
  message : Option Bytes := none
  deriving DecidableEq, Repr

/-- The size of `FallbackRecord.comm`. -/
abbrev commSize : ℕ := 256

/-- The size of the buffer the digits of a priority are copied to. -/
abbrev priNumberSize : ℕ := 16

/-- `duplicate_message`; `allocOk` says whether the copy could be allocated.
SOURCE: fallback_source.c:75-82 -/
def duplicateMessage (allocOk : Bool) (record : FallbackRecord) (message : Bytes) :
    Bool × FallbackRecord :=
  if allocOk then (true, { record with message := some message })
  else (false, { record with message := none })

/-- `strtoul` with base 10 where `unsigned long` has 64 bits: the value, the largest one for a
number that is too large, and what is left of the text. -/
def strtoul (text : Bytes) : ℕ × Bytes :=
  ((strtoull text).1.getD (2 ^ 64 - 1), (strtoull text).2)

/-- The first half of `parse_syslog_payload`: `pri` and the message behind the prefix.
SOURCE: fallback_source.c:86-107 -/
def syslogPrefix (data : Bytes) : ℕ × Bytes :=
  if data.length ≥ 3 ∧ data.head? = some 60 then
    let number := ((data.drop 1).take (priNumberSize - 1)).takeWhile isDigit
    if number ≠ [] ∧ data[number.length + 1]? = some 62 then
      let r := strtoul number
      -- `pri` is overwritten before the range is checked
      if r.2 = [] ∧ r.1 ≤ 191 then (r.1, data.drop (number.length + 2)) else (r.1, data)
    else (13, data)
  else (13, data)

/-- The second half of `parse_syslog_payload`: the text in front of `": "` is the tag, up to a
bracket, unless it is empty or too long.
SOURCE: fallback_source.c:109-126 -/
def syslogTag (allocOk : Bool) (record : FallbackRecord) (message : Bytes) : FallbackRecord :=
  let front := message.takeWhile (· ≠ 58)
  let tag := front.takeWhile (· ≠ 91)
  if front.length < message.length ∧ message[front.length + 1]? = some 32 ∧
      front.length < commSize ∧ tag ≠ [] then
    (duplicateMessage allocOk { record with comm := tag } (message.drop (front.length + 2))).2
  else (duplicateMessage allocOk record message).2

/-- `parse_syslog_payload`.
SOURCE: fallback_source.c:84-127 -/
def parseSyslogPayload (allocOk : Bool) (record : FallbackRecord) (data : Bytes) :
    FallbackRecord :=
  let r := syslogPrefix data
  syslogTag allocOk { record with priority := UInt8.ofNat (r.1 % 8) } r.2

/-- What `read` on `/dev/kmsg` returns: nothing yet, an error, or the bytes of one record. -/
inductive KmsgRead
  | again
  | error
  | record (data : Bytes)
  deriving DecidableEq, Repr

/-- `kernel` -/
def kernelComm : Bytes := [107, 101, 114, 110, 101, 108]

/-- The number in front of the first comma of a kernel record; 6 where there is none.
SOURCE: fallback_source.c:169, 176-181 -/
def kmsgPriority (data : Bytes) : ℕ :=
  if 44 ∈ data then (strtoul (cString (data.takeWhile (· ≠ 44)))).1 else 6

/-- The text of a kernel record, from behind its first semicolon to the next zero byte.
SOURCE: fallback_source.c:175, 184-186 -/
def kmsgText (data : Bytes) : Bytes :=
  if 59 ∈ data then cString ((data.dropWhile (· ≠ 59)).drop 1) else cString data

/-- `receive_kmsg`: the result and the record.
SOURCE: fallback_source.c:163-188 -/
def receiveKmsg (allocOk : Bool) (record : FallbackRecord) (read : KmsgRead) :
    Int × FallbackRecord :=
  match read with
  | .again => (0, record)
  | .error => (-1, record)
  | .record [] => (0, record)
  | .record data =>
    let priority := kmsgPriority data
    let r := duplicateMessage allocOk
      { record with
        priority := if priority ≤ 7 then UInt8.ofNat priority else 6
        comm := kernelComm } (kmsgText data)
    (if r.1 then 1 else -1, r.2)

end Recorder.Model
