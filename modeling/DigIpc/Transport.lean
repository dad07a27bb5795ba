/-
`src/transport.rs`: the frame transport seam, the line transport, and the
engine's source of nonces.

`LineTransport` is generic over the writer as the source is; its reader is
`StdIo.BufReader`, so the way the peer's bytes arrive is part of its state.
`SessionEntropy` is the stream of everything `fill_nonce` will ever return:
nothing here makes its values distinct, a result that needs that says so.
-/
import DigIpc.StdIo
import DigIpc.Signer
import Mathlib.Data.List.DropRight

set_option autoImplicit false

open StdIo

namespace DigIpc

/-- `b'\n'` -/
def NEWLINE : UInt8 := 10

/-- `std::io::Write`. -/
class Write (W : Type) where
  write_all : W → Bytes → Except Error Unit × W
  flush : W → Except Error Unit × W

/-- `Vec<u8>` as a writer. -/
instance : Write Bytes where
  write_all w bs := (.ok (), w ++ bs)
  flush w := (.ok (), w)

/-- A newline-delimited frame transport. -/
class FrameTransport (T : Type) where
  send_frame : T → String → Except Error Unit × T
  recv_frame : T → Except Error String × T

/-- A `FrameTransport` over any byte-stream reader/writer pair. -/
structure LineTransport (W : Type) where
  reader : BufReader
  writer : W

/-- `str::trim_end_matches(['\n', '\r'])`. -/
def trim_end_newlines (text : String) : String :=
  String.ofList (text.toList.rdropWhile fun c => c = '\n' ∨ c = '\r')

/-- The line ending is trimmed. -/
theorem trim_end_newlines_newline (text : String) :
    trim_end_newlines (text ++ "\n") = trim_end_newlines text := by
  have hchars : (text ++ "\n").toList = text.toList ++ ['\n'] := by
    rw [String.toList_append]
    rfl
  unfold trim_end_newlines
  rw [hchars, List.rdropWhile_concat_pos _ _ _ (by decide)]

namespace LineTransport

variable {W : Type}

def send_frame [Write W] (self : LineTransport W) (frame : String) :
    Except Error Unit × LineTransport W :=
  match Write.write_all self.writer (as_bytes frame) with
  | (.error e, writer) => (.error e, { self with writer })
  | (.ok (), writer) =>
    match Write.write_all writer [NEWLINE] with
    | (.error e, writer) => (.error e, { self with writer })
    | (.ok (), writer) =>
      let (flushed, writer) := Write.flush writer
      (flushed, { self with writer })

/-- What `recv_frame` makes of the bytes one `read_until` appended, `read` of
them. -/
def frame_of (read : ℕ) (buf : Bytes) : Except Error String :=
  -- nothing at all before the end of the stream
  if read = 0 then .error (Error.fromKind .UnexpectedEof)
  -- the limit may have cut the line: only a newline at the end says that it is whole
  else if buf.getLast? ≠ some NEWLINE ∧ MAX_FRAME_BYTES ≤ buf.length then
    .error (Error.new .InvalidData "peer frame exceeds the maximum size")
  else match from_utf8 buf with
    | none => .error (Error.new .InvalidData "peer frame is not UTF-8")
    | some text => .ok (trim_end_newlines text)

/-- `recv_frame` with its limit as an argument. The vector is local to the
call: on a read error what was read is dropped with it. -/
def recv_limited (limit : ℕ) (self : LineTransport W) : Except Error String × LineTransport W :=
  match read_until NEWLINE { inner := self.reader, limit } [] 0 with
  -- the reader has moved on all the same
  | (.error e, _, taken) => (.error e, { self with reader := taken.inner })
  | (.ok read, buf, taken) => (frame_of read buf, { self with reader := taken.inner })

def recv_frame (self : LineTransport W) : Except Error String × LineTransport W :=
  recv_limited MAX_FRAME_BYTES self

/-- **What a call does to the stream**, chunks and buffer apart: it scans to the
first newline within the limit and makes a frame of what it scanned. -/
theorem recv_limited_scan (limit : ℕ) (self : LineTransport W) :
    ((recv_limited limit self).1, (recv_limited limit self).2.reader.items)
      = match scan NEWLINE limit self.reader.items [] with
        | (.error e, items) => (.error e, items)
        | (.ok buf, items) => (frame_of buf.length buf, items) := by
  have hscan := read_until_scan NEWLINE { inner := self.reader, limit } [] 0
  rcases hread : read_until NEWLINE { inner := self.reader, limit } [] 0 with ⟨result, buf, taken⟩
  rw [hread] at hscan
  obtain ⟨hstream, hcount⟩ := hscan
  simp only at hstream hcount
  rw [← hstream]
  cases result with
  | error e => simp only [recv_limited, hread, Except.map]
  | ok read =>
      have hlen : read = buf.length := by
        have := hcount read rfl
        simpa using this
      simp only [recv_limited, hread, Except.map, hlen]

theorem recv_frame_scan (self : LineTransport W) :
    ((recv_frame self).1, (recv_frame self).2.reader.items)
      = match scan NEWLINE MAX_FRAME_BYTES self.reader.items [] with
        | (.error e, items) => (.error e, items)
        | (.ok buf, items) => (frame_of buf.length buf, items) :=
  recv_limited_scan MAX_FRAME_BYTES self

end LineTransport

instance {W : Type} [Write W] : FrameTransport (LineTransport W) where
  send_frame := LineTransport.send_frame
  recv_frame := LineTransport.recv_frame

/-- The source of nonces and ids: the values `fill_nonce` will return, and how
many it has returned. -/
structure SessionEntropy where
  stream : ℕ → Nonce
  drawn : ℕ

/-- `SessionEntropy::fill_nonce`. -/
def SessionEntropy.fill_nonce (entropy : SessionEntropy) : Nonce × SessionEntropy :=
  (entropy.stream entropy.drawn, { entropy with drawn := entropy.drawn + 1 })

/-- No value was drawn twice. -/
def SessionEntropy.Distinct (entropy : SessionEntropy) : Prop :=
  ∀ i j, i < entropy.drawn → j < entropy.drawn → entropy.stream i = entropy.stream j → i = j

end DigIpc
