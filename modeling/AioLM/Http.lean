import AioLM.Fallible
import AioLM.KeyMap
import AioLM.Search
import AioLM.TextBytes
import AioLM.Utf8
import Mathlib.Data.Char
import Mathlib.Data.List.Lex

/-!
Requests of the loopback API listener. The socket delivers the bytes of a
request in reads of any size; a read of no bytes is the end of the stream.
-/

set_option autoImplicit false

namespace AioLM.Gateway

open Fallible Search TextBytes

structure ApiError where
  status : Nat
  code : Text
  message : Text
  param : Option Text

def ApiError.new (status : Nat) (code message : Text) : ApiError := ⟨status, code, message, none⟩

def badRequest (message : Text) : ApiError := .new 400 "invalid_request".toList message

def maxBody : Nat := 32 * 1024 * 1024
def maxHeaderBytes : Nat := 64 * 1024

structure Request where
  method : Text
  path : Text
  headers : KeyMap Text Text
  body : Bytes

/-- The request line and headers, and the body bytes that came with them. -/
structure Head where
  method : Text
  path : Text
  headers : KeyMap Text Text
  contentLength : Nat
  received : Bytes

def headersTooLarge : ApiError :=
  .new 431 "headers_too_large".toList "request headers exceed the 64 KiB limit".toList

def closedInHead : ApiError := badRequest "client closed before the headers were complete".toList

def closedInBody : ApiError := badRequest "client closed before the body was complete".toList

/-- Reads until the head is complete: where it ends, the bytes read so far and
the reads still to come. -/
def readHeadLoop (bytes : Bytes) (reads : List Bytes) :
    Except ApiError (Nat × Bytes × List Bytes) :=
  match find blankLine bytes with
  | some index =>
    if maxHeaderBytes < index + 4 then .error headersTooLarge else .ok (index + 4, bytes, reads)
  | none =>
    if maxHeaderBytes < bytes.length then .error headersTooLarge
    else
      match reads with
      | [] => .error closedInHead
      | read :: reads =>
        if read = [] then .error closedInHead else readHeadLoop (bytes ++ read) reads

/-- Later headers replace earlier ones of the same name. -/
def readHeaderLines (lines : List Text) : KeyMap Text Text :=
  (lines.filter fun line => line ≠ []).foldl
    (fun headers line =>
      match Text.splitOnce ':' line with
      | some (name, value) => headers.insert (Text.toAsciiLower name.trim) value.trim
      | none => headers) .empty

def contentLengthOf (headers : KeyMap Text Text) : Except ApiError Nat :=
  match headers.get "content-length".toList with
  | none => .ok 0
  | some value =>
    orError (Text.parseUsize value) (badRequest "Content-Length is not a valid number".toList)

def parseHead (bytes : Bytes) : Except ApiError Head := do
  let lines := Text.splitCrlf (Utf8.lossy bytes)
  let words := Text.splitWhitespace (lines.headD [])
  let method := words.headD []
  let target := words.tail.headD []
  require (method ≠ [] ∧ target ≠ []) (badRequest "malformed request line".toList)
  let path := target.takeWhile (· ≠ '?')
  let headers := readHeaderLines lines.tail
  require ((headers.get "transfer-encoding".toList).isNone)
    (ApiError.new 411 "length_required".toList
      ("chunked request bodies are not supported; send a Content-Length header").toList)
  let contentLength ← contentLengthOf headers
  require (contentLength ≤ maxBody)
    (ApiError.new 413 "request_too_large".toList "request body exceeds the 32 MiB limit".toList)
  return ⟨method, path, headers, contentLength, []⟩

def readHead (reads : List Bytes) : Except ApiError (Head × List Bytes) := do
  let (headerEnd, bytes, reads) ← readHeadLoop [] reads
  let head ← parseHead (bytes.take headerEnd)
  return ({ head with received := bytes.drop headerEnd }, reads)

/-- Whether the caller is told to go on sending before the body is read. -/
def sendsContinue (head : Head) : Bool :=
  decide (head.received.length < head.contentLength) &&
    (head.headers.get "expect".toList).any (·.eqIgnoreAsciiCase "100-continue".toList)

def readBodyLoop (contentLength : Nat) (body : Bytes) (reads : List Bytes) :
    Except ApiError Bytes :=
  if body.length < contentLength then
    match reads with
    | [] => .error closedInBody
    | read :: reads =>
      if read = [] then .error closedInBody else readBodyLoop contentLength (body ++ read) reads
  else .ok (body.take contentLength)

def readBody (head : Head) (reads : List Bytes) : Except ApiError Request := do
  let body ← readBodyLoop head.contentLength head.received reads
  return ⟨head.method, head.path, head.headers, body⟩

def readRequest (reads : List Bytes) : Except ApiError Request := do
  let (head, reads) ← readHead reads
  readBody head reads

def headEnd (stream : Bytes) : Except ApiError Nat :=
  match find blankLine stream with
  | some index => if maxHeaderBytes < index + 4 then .error headersTooLarge else .ok (index + 4)
  | none => .error (if maxHeaderBytes < stream.length then headersTooLarge else closedInHead)

def parseRequest (stream : Bytes) : Except ApiError Request := do
  let headerEnd ← headEnd stream
  let head ← parseHead (stream.take headerEnd)
  let rest := stream.drop headerEnd
  require (head.contentLength ≤ rest.length) closedInBody
  return ⟨head.method, head.path, head.headers, rest.take head.contentLength⟩

theorem find_blankLine_le {bytes : Bytes} {index : Nat} (h : find blankLine bytes = some index) :
    index + 4 ≤ bytes.length := by
  have hlength := congrArg List.length (find_split h)
  have hblank : blankLine.length = 4 := by decide
  rw [List.length_append, List.length_append, List.length_take, hblank] at hlength
  have hle := (find_eq_some_iff.mp h).1
  omega

/-- However the stream arrives, the head ends where it ends in the whole stream,
and what was read and what is still to come make up the stream. -/
theorem readHeadLoop_eq (bytes : Bytes) {reads : List Bytes}
    (hreads : ∀ read ∈ reads, read ≠ []) :
    (∃ error, headEnd (bytes ++ reads.flatten) = .error error ∧
        readHeadLoop bytes reads = .error error) ∨
      ∃ headerEnd received left, headEnd (bytes ++ reads.flatten) = .ok headerEnd ∧
        readHeadLoop bytes reads = .ok (headerEnd, received, left) ∧
        received ++ left.flatten = bytes ++ reads.flatten ∧ headerEnd ≤ received.length ∧
        ∀ read ∈ left, read ≠ [] := by
  induction reads generalizing bytes with
  | nil =>
    rw [List.flatten_nil, List.append_nil, readHeadLoop, headEnd]
    cases hfind : find blankLine bytes with
    | none =>
      refine .inl ⟨_, rfl, ?_⟩
      simp only
      split <;> rfl
    | some index =>
      by_cases hlarge : maxHeaderBytes < index + 4
      · exact .inl ⟨headersTooLarge, by simp only [if_pos hlarge], by simp only [if_pos hlarge]⟩
      · exact .inr ⟨index + 4, bytes, [], by simp only [if_neg hlarge],
          by simp only [if_neg hlarge], by simp, find_blankLine_le hfind, by simp⟩
  | cons read reads ih =>
    obtain ⟨hread, hmore⟩ := List.forall_mem_cons.mp hreads
    have hstream : bytes ++ (read :: reads).flatten = (bytes ++ read) ++ reads.flatten := by
      rw [List.flatten_cons, List.append_assoc]
    rw [readHeadLoop]
    cases hfind : find blankLine bytes with
    | some index =>
      have hwhole := find_append hfind (read :: reads).flatten
      by_cases hlarge : maxHeaderBytes < index + 4
      · exact .inl ⟨headersTooLarge, by simp only [headEnd, hwhole, if_pos hlarge],
          by simp only [if_pos hlarge]⟩
      · exact .inr ⟨index + 4, bytes, read :: reads, by simp only [headEnd, hwhole, if_neg hlarge],
          by simp only [if_neg hlarge], rfl, find_blankLine_le hfind, hreads⟩
    | none =>
      by_cases hlarge : maxHeaderBytes < bytes.length
      · refine .inl ⟨headersTooLarge, ?_, by simp only [if_pos hlarge]⟩
        rw [headEnd]
        cases hwhole : find blankLine (bytes ++ (read :: reads).flatten) with
        | none =>
          have hlong : maxHeaderBytes < (bytes ++ (read :: reads).flatten).length := by
            rw [List.length_append]
            omega
          simp only [if_pos hlong]
        | some index =>
          have hlate : maxHeaderBytes < index + 4 :=
            Nat.lt_trans hlarge (length_lt_of_find hfind hwhole)
          simp only [if_pos hlate]
      · simp only [if_neg hlarge, if_neg hread, hstream]
        exact ih _ hmore

theorem readBodyLoop_eq {contentLength : Nat} {body : Bytes} {reads : List Bytes}
    (hreads : ∀ read ∈ reads, read ≠ []) : readBodyLoop contentLength body reads =
      if contentLength ≤ (body ++ reads.flatten).length then
        .ok ((body ++ reads.flatten).take contentLength)
      else .error closedInBody := by
  induction reads generalizing body with
  | nil =>
    rw [List.flatten_nil, List.append_nil, readBodyLoop]
    by_cases hshort : body.length < contentLength
    · rw [if_pos hshort, if_neg (Nat.not_le.mpr hshort)]
    · rw [if_neg hshort, if_pos (Nat.not_lt.mp hshort)]
  | cons read reads ih =>
    obtain ⟨hread, hmore⟩ := List.forall_mem_cons.mp hreads
    rw [readBodyLoop]
    by_cases hshort : body.length < contentLength
    · simp only [if_pos hshort, if_neg hread]
      rw [ih hmore, List.flatten_cons, List.append_assoc]
    · have hlong : contentLength ≤ (body ++ (read :: reads).flatten).length := by
        rw [List.length_append]
        omega
      rw [if_neg hshort, if_pos hlong, List.take_append_of_le_length (Nat.not_lt.mp hshort)]

theorem readRequest_eq {reads : List Bytes} (hreads : ∀ read ∈ reads, read ≠ []) :
    readRequest reads = parseRequest reads.flatten := by
  have hloop := readHeadLoop_eq [] hreads
  rw [List.nil_append] at hloop
  obtain ⟨error, hend, hread⟩ | ⟨headerEnd, received, left, hend, hread, hstream, hle, hleft⟩ := hloop
  · simp only [readRequest, readHead, hread, parseRequest, hend, bind, Except.bind]
  · have htake : reads.flatten.take headerEnd = received.take headerEnd := by
      rw [← hstream, List.take_append_of_le_length hle]
    have hdrop : reads.flatten.drop headerEnd = received.drop headerEnd ++ left.flatten := by
      rw [← hstream, List.drop_append_of_le_length hle]
    simp only [readRequest, readHead, hread, parseRequest, hend, htake, hdrop, bind, Except.bind]
    cases hhead : parseHead (received.take headerEnd) with
    | error error => rfl
    | ok head =>
      simp only [pure, Except.pure, readBody, readBodyLoop_eq hleft, require, bind, Except.bind]
      by_cases hlong : head.contentLength ≤ (received.drop headerEnd ++ left.flatten).length
      · simp only [if_pos hlong]
      · simp only [if_neg hlong]

theorem headEnd_ok {stream : Bytes} {headerEnd : Nat} (h : headEnd stream = .ok headerEnd) :
    ∃ index, find blankLine stream = some index ∧ headerEnd = index + 4 ∧
      index + 4 ≤ maxHeaderBytes := by
  unfold headEnd at h
  split at h
  · rename_i index hfind
    split at h
    · cases h
    · rename_i hsmall
      cases h
      exact ⟨index, hfind, rfl, Nat.not_lt.mp hsmall⟩
  · cases h

theorem parseHead_ok {bytes : Bytes} {head : Head} (h : parseHead bytes = .ok head) :
    contentLengthOf head.headers = .ok head.contentLength := by
  simp only [parseHead, bind_eq_ok, require_eq_ok, pure, Except.pure, Except.ok.injEq] at h
  obtain ⟨-, -, -, -, contentLength, hlength, -, -, rfl⟩ := h
  exact hlength

/-- Reading a request does not depend on the reads the stream arrives in: the
head is accepted only within its limit, and the body is exactly the declared
number of bytes behind it. -/
theorem read_request_packets {reads reads' : List Bytes} (hreads : ∀ read ∈ reads, read ≠ [])
    (hreads' : ∀ read ∈ reads', read ≠ []) (hstream : reads.flatten = reads'.flatten) :
    readRequest reads = readRequest reads' ∧
      (∀ head left, readHead reads = .ok (head, left) →
        ∃ index, find blankLine reads.flatten = some index ∧ index + 4 ≤ maxHeaderBytes) ∧
      ∀ request, readRequest reads = .ok request → ∃ index contentLength,
        find blankLine reads.flatten = some index ∧ index + 4 ≤ maxHeaderBytes ∧
          contentLengthOf request.headers = .ok contentLength ∧
          request.body.length = contentLength ∧
          request.body <+: reads.flatten.drop (index + 4) := by
  refine ⟨by rw [readRequest_eq hreads, readRequest_eq hreads', hstream], ?_, ?_⟩
  · intro head left hhead
    simp only [readHead, bind_eq_ok] at hhead
    obtain ⟨⟨headerEnd, bytes, rest⟩, hread, -⟩ := hhead
    obtain ⟨error, -, herror⟩ | ⟨headerEnd', received, left', hend, -⟩ :=
      readHeadLoop_eq [] hreads
    · rw [hread] at herror
      cases herror
    · rw [List.nil_append] at hend
      obtain ⟨index, hfind, -, hle⟩ := headEnd_ok hend
      exact ⟨index, hfind, hle⟩
  · intro request hrequest
    rw [readRequest_eq hreads] at hrequest
    simp only [parseRequest, bind_eq_ok, require_eq_ok, pure, Except.pure, Except.ok.injEq]
      at hrequest
    obtain ⟨headerEnd, hend, head, hhead, -, hlong, rfl⟩ := hrequest
    obtain ⟨index, hfind, rfl, hle⟩ := headEnd_ok hend
    exact ⟨index, head.contentLength, hfind, hle, parseHead_ok hhead, List.length_take_of_le hlong,
      List.take_prefix _ _⟩

def plainRequest : Bytes := ascii "POST /v1/models?x HTTP/1.1\r\nContent-Length: 2\r\n\r\nhi!"

/-- The same request in one read and with a read for each byte. -/
theorem read_request_packets_plain :
    readRequest [plainRequest] = readRequest (plainRequest.map fun b => [b]) :=
  (read_request_packets (by decide) (by decide) (by decide)).1

end AioLM.Gateway
