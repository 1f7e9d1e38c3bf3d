import Corsget.Library.Prog
import Corsget.Directory
import Corsget.Limit
import Corsget.Matcher

/-!
# The operations of the program

Everything a request does outside its own memory, as one signature of
operations for `Effect.Prog`: file operations, the two process-wide readings
(the temporary-file counter and the clock), the request limiter, the bandwidth
limiter, requests to the upstream and items handed to the consumer.

An upstream response carries the items its body stream will produce.  The
upstream chooses them; nothing the proxy does later changes them.
-/

namespace Corsget

open Text Effect

/-! ## Subjects of the limits -/

/-- `Origin`: the host of the requesting site. -/
structure Origin where
  host : Option Str
deriving DecidableEq

/-- `ClientIp`. -/
structure ClientIp where
  ip : Str
deriving DecidableEq

/-- `Origin::storage_key`. -/
def Origin.storageKey : Origin → Str
  | ⟨some host⟩ => "origin:".toList ++ host
  | ⟨none⟩ => "origin:unknown".toList

/-- `ClientIp::storage_key`. -/
def ClientIp.storageKey (c : ClientIp) : Str := "ip:".toList ++ c.ip

/-- `RateLimitKey`. -/
structure RateLimitKey where
  origin : Origin
  clientIp : ClientIp
deriving DecidableEq

/-- `RateLimitKey::bucket`. -/
def RateLimitKey.bucket (key : RateLimitKey) : Str :=
  key.origin.storageKey ++ '|' :: key.clientIp.storageKey

/-- `axum_limit::Quota`. -/
structure Quota where
  max : ℕ
  periodMs : ℕ
deriving DecidableEq

/-- What `LimitState::check` reports. -/
structure Snapshot where
  allowed : Bool
  /-- `to_headers`: the rate-limit headers of a rejection. -/
  headers : HeaderMap

/-! ## Upstream -/

/-- A request handed to the HTTP client. -/
structure UpstreamRequest where
  url : Url
  headers : HeaderMap
deriving DecidableEq

/-- An upstream response. -/
structure UpstreamResponse where
  status : ℕ
  headers : HeaderMap
  /-- `Response::content_length`. -/
  contentLength : Option ℕ
  /-- What the body stream produces. -/
  body : List (Except Str Bytes)

/-- `reqwest::Error`, as far as the code looks at it. -/
structure ClientError where
  isTimeout : Bool
  isRedirect : Bool
  text : Str

/-! ## The signature -/

/-- The operations of the program. -/
inductive IoOp where
  | fs (o : FsOp)
  /-- `TEMP_COUNTER.fetch_add(1)` -/
  | tempCounter
  /-- `SystemTime::now`, in nanoseconds since the epoch -/
  | systemTime
  /-- `LimitState::check` -/
  | checkLimit (key : RateLimitKey) (quota : Quota)
  /-- `RequestBuilder::send` -/
  | send (request : UpstreamRequest)
  /-- `BandwidthLimiter::charge` -/
  | charge (bucket : Str) (n : ℕ)
  /-- an item of the response body is handed to the consumer -/
  | yield (item : Except Str Bytes)

/-- What an operation answers. -/
@[reducible] def IoOp.Res : IoOp → Type
  | fs o => o.Res
  | tempCounter => ℕ
  | systemTime => ℕ
  | checkLimit _ _ => Except Str Snapshot
  | send _ => Except ClientError UpstreamResponse
  | charge _ _ => Except BandwidthError Unit
  | yield _ => Unit

/-- The signature of the program. -/
abbrev Io : Signature := ⟨IoOp, IoOp.Res⟩

namespace Io

/-- `fs::read`. -/
def read (path : Str) : Prog Io (Except IoError FileData) := @Prog.call Io (.fs (.read path))

/-- `fs::metadata`, for the length. -/
def metadata (path : Str) : Prog Io (Except IoError ℕ) := @Prog.call Io (.fs (.metadata path))

/-- `fs::remove_file`. -/
def removeFile (path : Str) : Prog Io (Except IoError Unit) :=
  @Prog.call Io (.fs (.removeFile path))

/-- `fs::rename`. -/
def rename (source target : Str) : Prog Io (Except IoError Unit) :=
  @Prog.call Io (.fs (.rename source target))

/-- `fs::write`. -/
def write (path : Str) (data : FileData) : Prog Io (Except IoError Unit) :=
  @Prog.call Io (.fs (.write path data))

/-- `File::create`. -/
def create (path : Str) : Prog Io (Except IoError Unit) := @Prog.call Io (.fs (.create path))

/-- `write_all` on an open file. -/
def writeAll (path : Str) (bytes : Bytes) : Prog Io (Except IoError Unit) :=
  @Prog.call Io (.fs (.writeAll path bytes))

/-- `flush` on an open file. -/
def flush (path : Str) : Prog Io (Except IoError Unit) := @Prog.call Io (.fs (.flush path))

/-- `File::open`, with what the handle then reads. -/
def openFile (path : Str) : Prog Io (Except IoError FileRead) :=
  @Prog.call Io (.fs (.openFile path))

/-- `fs::read_dir` of the cache directory. -/
def readDir : Prog Io (Except IoError (List (Except IoError Str))) :=
  @Prog.call Io (.fs .readDir)

/-- `TEMP_COUNTER.fetch_add(1)`. -/
def fetchAdd : Prog Io ℕ := @Prog.call Io .tempCounter

/-- `SystemTime::now`. -/
def systemTime : Prog Io ℕ := @Prog.call Io .systemTime

/-- `now_seconds`. -/
def nowSeconds : Prog Io ℕ := do
  let now ← systemTime
  return now / 10 ^ 9

/-- `LimitState::check`. -/
def checkLimit (key : RateLimitKey) (quota : Quota) : Prog Io (Except Str Snapshot) :=
  @Prog.call Io (.checkLimit key quota)

/-- `RequestBuilder::send`. -/
def send (request : UpstreamRequest) : Prog Io (Except ClientError UpstreamResponse) :=
  @Prog.call Io (.send request)

/-- `BandwidthLimiter::charge`. -/
def charge (bucket : Str) (n : ℕ) : Prog Io (Except BandwidthError Unit) :=
  @Prog.call Io (.charge bucket n)

/-- Hand an item to the consumer. -/
def yield (item : Except Str Bytes) : Prog Io Unit := @Prog.call Io (.yield item)

/-! ### Sequencing

An operation followed by a program is the operation's node. -/

section Bind

variable {α : Type}

@[simp] theorem read_bind (path : Str) (f : Except IoError FileData → Prog Io α) :
    (read path >>= f) = (Prog.op (.fs (.read path)) f : Prog Io α) := rfl

@[simp] theorem metadata_bind (path : Str) (f : Except IoError ℕ → Prog Io α) :
    (metadata path >>= f) = (Prog.op (.fs (.metadata path)) f : Prog Io α) := rfl

@[simp] theorem removeFile_bind (path : Str) (f : Except IoError Unit → Prog Io α) :
    (removeFile path >>= f) = (Prog.op (.fs (.removeFile path)) f : Prog Io α) := rfl

@[simp] theorem rename_bind (source target : Str) (f : Except IoError Unit → Prog Io α) :
    (rename source target >>= f) = (Prog.op (.fs (.rename source target)) f : Prog Io α) := rfl

@[simp] theorem write_bind (path : Str) (data : FileData) (f : Except IoError Unit → Prog Io α) :
    (write path data >>= f) = (Prog.op (.fs (.write path data)) f : Prog Io α) := rfl

@[simp] theorem create_bind (path : Str) (f : Except IoError Unit → Prog Io α) :
    (create path >>= f) = (Prog.op (.fs (.create path)) f : Prog Io α) := rfl

@[simp] theorem writeAll_bind (path : Str) (bytes : Bytes)
    (f : Except IoError Unit → Prog Io α) :
    (writeAll path bytes >>= f) = (Prog.op (.fs (.writeAll path bytes)) f : Prog Io α) := rfl

@[simp] theorem flush_bind (path : Str) (f : Except IoError Unit → Prog Io α) :
    (flush path >>= f) = (Prog.op (.fs (.flush path)) f : Prog Io α) := rfl

@[simp] theorem openFile_bind (path : Str) (f : Except IoError FileRead → Prog Io α) :
    (openFile path >>= f) = (Prog.op (.fs (.openFile path)) f : Prog Io α) := rfl

@[simp] theorem readDir_bind (f : Except IoError (List (Except IoError Str)) → Prog Io α) :
    (readDir >>= f) = (Prog.op (.fs .readDir) f : Prog Io α) := rfl

@[simp] theorem fetchAdd_bind (f : ℕ → Prog Io α) :
    (fetchAdd >>= f) = (Prog.op .tempCounter f : Prog Io α) := rfl

@[simp] theorem systemTime_bind (f : ℕ → Prog Io α) :
    (systemTime >>= f) = (Prog.op .systemTime f : Prog Io α) := rfl

@[simp] theorem nowSeconds_bind (f : ℕ → Prog Io α) :
    (nowSeconds >>= f) = (Prog.op .systemTime fun now : ℕ => f (now / 10 ^ 9) : Prog Io α) := rfl

@[simp] theorem checkLimit_bind (key : RateLimitKey) (quota : Quota)
    (f : Except Str Snapshot → Prog Io α) :
    (checkLimit key quota >>= f) = (Prog.op (.checkLimit key quota) f : Prog Io α) := rfl

@[simp] theorem send_bind (request : UpstreamRequest)
    (f : Except ClientError UpstreamResponse → Prog Io α) :
    (send request >>= f) = (Prog.op (.send request) f : Prog Io α) := rfl

@[simp] theorem charge_bind (bucket : Str) (n : ℕ) (f : Except BandwidthError Unit → Prog Io α) :
    (charge bucket n >>= f) = (Prog.op (.charge bucket n) f : Prog Io α) := rfl

@[simp] theorem yield_bind (item : Except Str Bytes) (f : Unit → Prog Io α) :
    (yield item >>= f) = (Prog.op (.yield item) f : Prog Io α) := rfl

end Bind

end Io

end Corsget
