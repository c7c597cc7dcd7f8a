import ImageServer.Lib.CString

/-!
# The handler object

The fields of `HttpHandler` (`http_conn.h`), in the groups the class declares them in, and the functions that set
them up and end a connection: `init`, `init_` and the assignments of `close`.  A pointer into `m_read_buf` is its
offset, with `none` for the null pointer.  The object of a slot of `users_` starts out zero-initialised (`zero`)
and is then used for one connection after the other, so what `init_` does not reset is what an earlier connection
or request left there.

The address of the peer (`m_address`) is only logged and is left out.
-/

namespace ImageServer

open CLib

def FILENAME_LEN : Nat := 200

def READ_BUFFER_SIZE : Nat := 2048

def WRITE_BUFFER_SIZE : Nat := 1024

inductive ClientType
  | invalidClient
  | httpClient
  | httpsClient
deriving DecidableEq

inductive Method
  | get
  | post
  | head
  | put
  | delete
  | trace
  | options
  | connect
  | path
deriving DecidableEq

/-- `PARSE_STATE`. -/
inductive ParseState
  | checkStateRequestline
  | checkStateHeader
  | checkStateContent
deriving DecidableEq

/-- `HTTP_STATE`. -/
inductive HttpState
  | parsering
  | errorFormat
  | readyRequest
  | errorAccessFailed
  | errorFileNotFound
  | finishedRequest
  | closedConnection
  | internalError
deriving DecidableEq

/-- `LINE_STATE`. -/
inductive LineState
  | lineOk
  | lineBad
  | lineOpen
deriving DecidableEq

/-- The values of `errno` the code distinguishes. -/
inductive Errno
  | eagain
  | einval
  | erange
  | other
deriving DecidableEq

/-- The fields of `struct stat` the code reads: `S_IROTH` and `S_ISDIR` of the mode, and the size. -/
structure FileStat where
  iroth : Bool
  isDir : Bool
  size : Nat
deriving DecidableEq

/-- The value of `m_file_address`: null, `MAP_FAILED`, or a mapping of the bytes of a file. -/
inductive FileAddress
  | null
  | mapFailed
  | mapped (file : List Byte)
deriving DecidableEq

/-- The address in an iovec. -/
inductive Base
  | null
  | writeBuf (off : Int)
  | file (addr : FileAddress) (off : Int)
deriving DecidableEq

/-- `struct iovec`. -/
structure IoVec where
  base : Base
  len : Int
deriving DecidableEq

/-- An SSL object, and the descriptor `SSL_set_fd` gave it. -/
structure Ssl where
  id : Nat
  fd : Nat
deriving DecidableEq

/-- The fields set from outside: by the event loop, the worker, and the acceptor. -/
structure Outside where
  timer : Option Nat
  mysql : Option Nat
  sockfd : Int
  type : ClientType
  sslcontent : Option Ssl
deriving DecidableEq

/-- The read buffer and everything the parser keeps. -/
structure Parser where
  readBuf : CharArray READ_BUFFER_SIZE
  readIdx : Int
  checkState : ParseState
  checkedIdx : Int
  startLine : Int
  method : Method
  cgi : Bool
  url : Option Nat
  version : Option Nat
  linger : Bool
  contentLength : Int
  host : Option Nat
  useragent : Option Nat
  origin : Option Nat
  contentType : Option Nat
  encoding : Option Nat
  upgrade : Option Nat
  accept : Option Nat
  referer : Option Nat
  language : Option Nat
  content : Option Nat
deriving DecidableEq

/-- The file a request resolves to. -/
structure Resource where
  realFile : CharArray FILENAME_LEN
  fileStat : FileStat
  fileAddress : FileAddress
deriving DecidableEq

/-- The response being sent: `m_iv` has the two elements `iv0` and `iv1`. -/
structure Writer where
  writeBuf : CharArray WRITE_BUFFER_SIZE
  writeIdx : Nat
  iv0 : IoVec
  iv1 : IoVec
  ivCount : Nat
  bytesToSend : Int
  bytesHaveSend : Int
deriving DecidableEq

structure HttpHandler extends Outside, Parser, Resource, Writer
deriving DecidableEq

/-- `HttpHandler::users`, the accounts by name. -/
abbrev Users := List Byte → Option (List Byte)

/-! ### Setting up a handler -/

def Outside.zero : Outside :=
  { timer := none, mysql := none, sockfd := 0, type := .invalidClient, sslcontent := none }

def Parser.zero : Parser :=
  { readBuf := CharArray.zeros _, readIdx := 0, checkState := .checkStateRequestline, checkedIdx := 0,
    startLine := 0, method := .get, cgi := false, url := none, version := none, linger := false,
    contentLength := 0, host := none, useragent := none, origin := none, contentType := none,
    encoding := none, upgrade := none, accept := none, referer := none, language := none, content := none }

def Resource.zero : Resource :=
  { realFile := CharArray.zeros _, fileStat := ⟨false, false, 0⟩, fileAddress := .null }

def Writer.zero : Writer :=
  { writeBuf := CharArray.zeros _, writeIdx := 0, iv0 := ⟨.null, 0⟩, iv1 := ⟨.null, 0⟩, ivCount := 0,
    bytesToSend := 0, bytesHaveSend := 0 }

/-- A zero-initialised object, as `users_` holds it before its slot is first used. -/
def HttpHandler.zero : HttpHandler :=
  { toOutside := .zero, toParser := .zero, toResource := .zero, toWriter := .zero }

/-- The parser fields `init_` sets; the header pointers other than `m_host`, and `m_content`, stay. -/
def Parser.init_ (p : Parser) : Parser :=
  { p with
    checkState := .checkStateRequestline, linger := true, method := .get, url := none, version := none,
    contentLength := 0, host := none, startLine := 0, checkedIdx := 0, readIdx := 0, cgi := false,
    readBuf := CharArray.zeros _ }

/-- Of the file fields `init_` clears the name only. -/
def Resource.init_ (r : Resource) : Resource := { r with realFile := CharArray.zeros _ }

/-- The writer fields `init_` sets; `m_iv` and `m_iv_count` stay. -/
def Writer.init_ (w : Writer) : Writer :=
  { w with bytesToSend := 0, bytesHaveSend := 0, writeIdx := 0, writeBuf := CharArray.zeros _ }

namespace HttpHandler

/-- `HttpHandler::init_`. -/
def init_ (h : HttpHandler) : HttpHandler :=
  { toOutside := { h.toOutside with mysql := none }, toParser := h.toParser.init_,
    toResource := h.toResource.init_, toWriter := h.toWriter.init_ }

/-- `HttpHandler::init`, less the registration with epoll and the count. -/
def init (h : HttpHandler) (sockfd : Int) (timer : Option Nat) (type : ClientType) (content : Option Ssl) :
    HttpHandler :=
  { h with sockfd := sockfd, timer := timer, type := type, sslcontent := content }.init_

/-- What `HttpHandler::close` assigns once `remove_fd` has returned.  `m_type` is set to `INVALID_CLIENT`
before it is compared with `HTTPS_CLIENT`, so the `SSL_free` in between is never reached. -/
def closeFields (h : HttpHandler) : HttpHandler :=
  { h with sockfd := -1, type := .invalidClient, sslcontent := none }

/-- A handler that has just been given its first connection. -/
def fresh (sockfd : Int) (timer : Option Nat) (type : ClientType) (content : Option Ssl) : HttpHandler :=
  zero.init sockfd timer type content

/-- `unmap`: the mapping is given back and the address forgotten. -/
def unmap (h : HttpHandler) : HttpHandler :=
  { h with fileAddress := .null }

end HttpHandler

end ImageServer
