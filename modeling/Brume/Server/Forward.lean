import Brume.Config
import Brume.Lib.ByteStream
import Brume.Lib.Transition

/-!
# The TCP relay (`server.rs`)

`copy_direction` as a machine with one step for each read, each partial write of
`write_all` and the shutdown, and `forward_bidirectional` with an idle timeout
around two of them. The sockets, the clock and the branch that `select!` takes
are its input.
-/

namespace Brume.Server
open Lib

/-! ### One direction -/

def COPY_BUFFER_SIZE : ℕ := 65536

inductive CopyPc where
  | reading
  | writing (n sent : ℕ)
  | shuttingDown
  | returned (r : Except IoError UInt64)

/-- `copy_direction`, with what the reader still holds and what the writer has taken. -/
structure Copy where
  unread : Bytes
  delivered : Bytes
  shut : Bool
  buffer : Bytes
  total : UInt64
  pc : CopyPc

/-- What the sockets answer. -/
inductive Io where
  | read (n : ℕ)
  | readError (e : IoError)
  | write (n : ℕ)
  | writeError (e : IoError)
  | shutdown
  | shutdownError (e : IoError)

/-- `left` bytes of the `write_all` are still to be written. -/
inductive CopyEvent where
  | silent
  | wrote (bytes : Bytes) (left : ℕ)
  deriving DecidableEq

namespace Copy

def start (stream : Bytes) : Copy := ⟨stream, [], false, List.replicate COPY_BUFFER_SIZE 0, 0, .reading⟩

def fail (c : Copy) (e : IoError) : Copy := { c with pc := .returned (.error e) }

def step (c : Copy) (io : Io) : Option (CopyEvent × Copy) :=
  match c.pc, io with
  | .reading, .read 0 =>
    -- the end of the file is behind the last byte
    if c.unread = [] then some (.silent, { c with pc := .shuttingDown }) else none
  | .reading, .read n =>
    if n ≤ c.unread.length then
      match copyInto c.buffer 0 n (c.unread.take n) with
      | none => none
      | some buffer => some (.silent, { c with unread := c.unread.drop n, buffer, pc := .writing n 0 })
    else none
  | .reading, .readError e => some (.silent, c.fail e)
  | .writing _ _, .write 0 => some (.silent, c.fail tokio.zero)
  | .writing n sent, .write k =>
    if sent + k ≤ n then
      let bytes := ((c.buffer.take n).drop sent).take k
      let c := { c with delivered := c.delivered ++ bytes }
      if sent + k = n then
        some (.wrote bytes 0, { c with total := c.total + UInt64.ofNat n, pc := .reading })
      else some (.wrote bytes (n - (sent + k)), { c with pc := .writing n (sent + k) })
    else none
  | .writing _ _, .writeError e => some (.silent, c.fail e)
  | .shuttingDown, .shutdown => some (.silent, { c with shut := true, pc := .returned (.ok c.total) })
  | .shuttingDown, .shutdownError e => some (.silent, c.fail e)
  | _, _ => none

end Copy

/-! ### Both directions -/

inductive Direction where
  | c2r
  | r2c
  deriving DecidableEq

/-- `activity` and `changed` are the value of the watch channel and whether the
receiver has yet to see it; `deadline` is that of the `sleep_until` in progress. -/
structure Forward where
  c2r : Copy
  r2c : Copy
  activity : ℕ
  changed : Bool
  deadline : ℕ
  now : ℕ
  result : Option (Except IoError Unit)

inductive ForwardInput where
  | tick (nanos : ℕ)
  | copy (direction : Direction) (io : Io)
  | sleep
  | changed

inductive ForwardEvent where
  | silent
  | wrote (direction : Direction) (bytes : Bytes) (left : ℕ) (time : ℕ)
  | idle (time : ℕ)
  deriving DecidableEq

/-- `try_join!`, which returns with the first error or behind both results. -/
def tryJoin : CopyPc → CopyPc → Option (Except IoError Unit)
  | .returned (.error e), _ => some (.error e)
  | _, .returned (.error e) => some (.error e)
  | .returned (.ok _), .returned (.ok _) => some (.ok ())
  | _, _ => none

namespace Forward

def start (idleTimeout : Duration) (now : ℕ) (client remote : Bytes) : Forward where
  c2r := .start client
  r2c := .start remote
  activity := now
  changed := false
  deadline := now + idleTimeout.nanos
  now := now
  result := none

def copy (s : Forward) : Direction → Copy
  | .c2r => s.c2r
  | .r2c => s.r2c

def setCopy (s : Forward) (direction : Direction) (c : Copy) : Forward :=
  match direction with
  | .c2r => { s with c2r := c }
  | .r2c => { s with r2c := c }

/-- `activity.send_replace(Instant::now())` behind a `write_all` that is complete. -/
def record (s : Forward) : CopyEvent → Forward
  | .wrote _ 0 => { s with activity := s.now, changed := true }
  | _ => s

/-- The head of the loop. -/
def rearm (s : Forward) (idleTimeout : Duration) : Forward :=
  { s with deadline := s.activity + idleTimeout.nanos, changed := false }

def event (direction : Direction) (now : ℕ) : CopyEvent → ForwardEvent
  | .silent => .silent
  | .wrote bytes left => .wrote direction bytes left now

def step (idleTimeout : Duration) (s : Forward) (input : ForwardInput) : Option (ForwardEvent × Forward) :=
  match s.result, input with
  | some _, _ => none
  | none, .tick nanos => some (.silent, { s with now := s.now + nanos })
  | none, .copy direction io =>
    match (s.copy direction).step io with
    | none => none
    | some (e, c) =>
      let s := (s.setCopy direction c).record e
      some (event direction s.now e, { s with result := tryJoin s.c2r.pc s.r2c.pc })
  | none, .sleep =>
    if s.now < s.deadline then none
    else if idleTimeout.nanos ≤ s.now - s.activity then
      some (.idle s.now, { s with result := some (.error ⟨.timedOut, "TCP 连接空闲超时"⟩) })
    else some (.silent, s.rearm idleTimeout)
  | none, .changed => if s.changed then some (.silent, s.rearm idleTimeout) else none

end Forward

/-- `forward_bidirectional` with a `tcp_timeout`. -/
def forward (idleTimeout : Duration) : System Forward ForwardInput ForwardEvent := Forward.step idleTimeout

end Brume.Server
