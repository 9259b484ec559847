import NetworkUtility.Base.ByteOrder

/-! `http_download_request` and `http_upload_request`, with the local file system. Of httplib: `Get` calls
the response handler, then the content receiver and the progress function for each chunk, and gives a
result if none of them returned false and the transport did not fail. -/
namespace NetworkUtility.HttpClient

structure Response where
  status : Nat
  body : Bytes
  deriving DecidableEq, Repr

/-! ### Download -/

/-- The file system at `save_file_path`: whether the file opens, what was there before, how many bytes
of its k-th write a stream gets into the file, and how many of the last bytes are lost in `close`. -/
structure Disk where
  opens : Bool
  before : Option Bytes
  takes : Nat → Nat
  lost : Nat

/-- A `std::ofstream` and what is at the path. -/
structure OfStream where
  isOpen : Bool
  good : Bool
  writes : Nat
  file : Option Bytes
  deriving DecidableEq, Repr

namespace OfStream

def initial (d : Disk) : OfStream := ⟨false, true, 0, d.before⟩

/-- `open` with `binary | trunc`. -/
def openTrunc (d : Disk) (s : OfStream) : OfStream :=
  if d.opens then { s with isOpen := true, file := some [] } else { s with good := false }

/-- A write that is cut short makes the stream bad, and on a bad stream it does nothing. -/
def write (d : Disk) (s : OfStream) (data : Bytes) : OfStream :=
  if s.isOpen ∧ s.good then
    { s with
      good := data.length ≤ d.takes s.writes
      writes := s.writes + 1
      file := s.file.map (· ++ data.take (d.takes s.writes)) }
  else { s with good := false }

def close (d : Disk) (s : OfStream) : OfStream :=
  if s.isOpen then
    { s with isOpen := false, file := s.file.map fun file => file.take (file.length - d.lost) }
  else { s with good := false }

end OfStream

/-- What comes from the server, and whether the transport fails or something throws. -/
structure Exchange where
  status : Nat
  chunks : List Bytes
  total : Nat
  body : Bytes
  fails : Bool
  deriving DecidableEq, Repr

/-- The calls for the chunks; `current` bytes have come. False when the progress function returns
false. -/
def receive (d : Disk) (progress : Nat → Nat → Bool) (total current : Nat) :
    List Bytes → OfStream → Bool × OfStream
  | [], s => (true, s)
  | chunk :: chunks, s =>
    if progress (current + chunk.length) total then
      receive d progress total (current + chunk.length) chunks (s.write d chunk)
    else (false, s.write d chunk)

/-- `client.Get` with the three callbacks. -/
def get (d : Disk) (progress : Nat → Nat → Bool) (x : Exchange) : Option Response × OfStream :=
  if x.status = 200 then
    let done := receive d progress x.total 0 x.chunks ((OfStream.initial d).openTrunc d)
    (if done.1 && ! x.fails then some ⟨x.status, x.body⟩ else none, done.2)
  else (none, OfStream.initial d)

/-- From the k-th on, all writes are complete. -/
def completes (d : Disk) (k : Nat) : List Bytes → Bool
  | [] => true
  | chunk :: chunks => chunk.length ≤ d.takes k && completes d (k + 1) chunks

/-- The disk keeps the chunks, or it cannot be written and has them already. -/
def Keeps (d : Disk) (chunks : List Bytes) : Prop :=
  if d.opens then completes d 0 chunks = true ∧ (d.lost = 0 ∨ chunks.flatten = [])
  else d.before = some chunks.flatten

/-! ### Upload -/

/-- What is at `src_file_path`, whether it opens, and how many bytes can be read. -/
structure Source where
  content : Option Bytes
  opens : Bool
  readable : Nat
  deriving DecidableEq, Repr

/-- `buffer << file.rdbuf()`. -/
def Source.read (src : Source) : Bytes :=
  if src.opens then (src.content.getD []).take src.readable else []

variable {d : Disk} {progress : Nat → Nat → Bool} {x : Exchange} {s : OfStream} {file data : Bytes}
  {chunks : List Bytes} {total current k : Nat}

end NetworkUtility.HttpClient
