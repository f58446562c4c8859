import Recorder.Lib.Scanf
import Recorder.Model.Config
import Recorder.Model.Store

/-!
# `librecorder.c`: cursor strings

A cursor names an entry by the store, the group, the segment, the frame and the position in the
frame. `rec_player_get_cursor` prints these as one string and `parse_cursor` reads them back.
-/

set_option autoImplicit false

namespace Recorder.Model

open Recorder.Lib

/-- "rec1:" -/
def cursorTag : Bytes := [0x72, 0x65, 0x63, 0x31, 0x3a]

/-- The colon between the fields. -/
abbrev colon : UInt8 := 0x3a

/-- The room for a cursor in `rec_player_get_cursor`. -/
abbrev cursorSize : ℕ := 192

/-- "rec1:%016llx:%s:%llx:%llx:%x" with its arguments. -/
def cursorText (storeId : UInt64) (group : Bytes) (segmentSeq frameOffset : UInt64)
    (frameEntryIndex : UInt32) : Bytes :=
  cursorTag ++ hexPadded 16 storeId.toNat ++ colon :: (group ++ colon ::
    (hexadecimal segmentSeq.toNat ++ colon :: (hexadecimal frameOffset.toNat ++ colon ::
      hexadecimal frameEntryIndex.toNat)))

/-- `snprintf` into a buffer of the given size. -/
def snprintf (size : ℕ) (text : Bytes) : Bytes := text.take (size - 1)

/-- `rec_player_get_cursor`, for the store id and the current entry of the reader, where it has
them, and memory for the result.
SOURCE: librecorder.c:2978-2992 -/
def recPlayerGetCursor (storeId : Option UInt64) (current : Option StoredEntry) : Option Bytes :=
  match current, storeId with
  | some entry, some storeId =>
    if !readerValidGroupName entry.group then none
    else some (snprintf cursorSize (cursorText storeId entry.group entry.segmentSeq
      entry.frameOffset entry.frameEntryIndex))
  | _, _ => none

/-- "rec1:%llx:%63[^:]:%llx:%llx:%x%c" -/
def cursorFormat : List Directive :=
  cursorTag.map .literal ++ [.hex 64, .literal colon, .untilStop 63 colon, .literal colon, .hex 64,
    .literal colon, .hex 64, .literal colon, .hex 32, .char]

/-- What `parse_cursor` reads. -/
structure CursorFields where
  storeId : UInt64
  group : Bytes
  segmentSeq : UInt64
  frameOffset : UInt64
  frameEntryIndex : UInt32
  deriving DecidableEq, Repr

/-- `parse_cursor`, with a buffer of `groupSize` bytes for the group. All five fields have to
be there and nothing behind them.
SOURCE: librecorder.c:2482-2501 -/
def parseCursor (cursor : Option Bytes) (groupSize : ℕ) : Option CursorFields :=
  match cursor with
  | none => none
  | some cursor =>
    if groupSize < 64 then none
    else
      match sscanf cursorFormat cursor with
      | [.number store, .text group, .number segment, .number frame, .number entry] =>
        if !readerValidGroupName group then none
        else some ⟨UInt64.ofNat store, group, UInt64.ofNat segment, UInt64.ofNat frame,
          UInt32.ofNat entry⟩
      | _ => none

end Recorder.Model
