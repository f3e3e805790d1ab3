import EnterpriseCopilot.Attachment.Shelf
import EnterpriseCopilot.Lib.Framing
import EnterpriseCopilot.Python.Utf8
import Mathlib.Data.List.Infix

/-! The malware scan over a `clamd` socket. -/

namespace EnterpriseCopilot.Attachment

open EnterpriseCopilot.Lib EnterpriseCopilot.Python EnterpriseCopilot.Runtime

/-- What a scan raises; `MalwareDetected` and `MalwareScanUnavailable` are `AttachmentError`s. -/
inductive ScanError
  | malwareDetected (msg : String)
  | malwareScanUnavailable (msg : String)
  | osError (msg : String)
  | other (e : PyError)
  deriving DecidableEq

def ScanError.toFailure : ScanError → Failure
  | .malwareDetected msg => .attachmentError msg
  | .malwareScanUnavailable msg => .attachmentError msg
  | .osError _ => .other (.exception "OSError")
  | .other e => .other e

/-- How a call on the socket fails. -/
inductive SocketError
  | osError (msg : String)
  | other (e : PyError)

def SocketError.raised : SocketError → ScanError
  | .osError msg => .osError msg
  | .other e => .other e

namespace Socket

inductive Cmd
  | create_connection (host : String) (port : Int) (timeout : Rat)
  | settimeout (seconds : Rat)
  | sendall (data : Bytes)
  | recv (bufsize : Nat)
  | close

abbrev Reply : Cmd → Type
  | .recv _ => Except SocketError Bytes
  | _ => Except SocketError Unit

abbrev Code := Program Cmd Reply ScanError

def create_connection (host : String) (port : Int) (timeout : Rat) : Code Unit :=
  .cmd (.create_connection host port timeout) fun r => Program.ofExcept (r.mapError SocketError.raised)

def settimeout (seconds : Rat) : Code Unit :=
  .cmd (.settimeout seconds) fun r => Program.ofExcept (r.mapError SocketError.raised)

def sendall (data : Bytes) : Code Unit :=
  .cmd (.sendall data) fun r => Program.ofExcept (r.mapError SocketError.raised)

def recv (bufsize : Nat) : Code Bytes :=
  .cmd (.recv bufsize) fun r => Program.ofExcept (r.mapError SocketError.raised)

def close : Code Unit :=
  .cmd .close fun r => Program.ofExcept (r.mapError SocketError.raised)

/-- What was sent, in order. -/
def sent (log : Exchange Cmd Reply) : List Bytes :=
  log.filterMap fun x => match x.1 with
    | .sendall data => some data
    | _ => none

end Socket

/-- `n.to_bytes(length, "big")`. -/
def to_bytes (length n : Nat) : Except PyError Bytes :=
  if n < 256 ^ length then .ok (bigEndian length n) else .error (.overflowError "int too big to convert")

structure ClamAvScanner where
  host : String
  port : Int
  timeout_seconds : Rat
  host_valid : host.isEmpty = false ∧ host.length ≤ 255 ∧ '\r' ∉ host.toList ∧ '\n' ∉ host.toList
  port_valid : 1 ≤ port ∧ port ≤ 65535
  timeout_valid : 0 < timeout_seconds ∧ timeout_seconds ≤ 60

namespace ClamAvScanner

def make (host : String) (port : Int) (timeout_seconds : Rat) : Except PyError ClamAvScanner :=
  if hhost : host.isEmpty = false ∧ host.length ≤ 255 ∧ '\r' ∉ host.toList ∧ '\n' ∉ host.toList then
    if hport : 1 ≤ port ∧ port ≤ 65535 then
      if htimeout : 0 < timeout_seconds ∧ timeout_seconds ≤ 60 then
        .ok ⟨host, port, timeout_seconds, hhost, hport, htimeout⟩
      else .error (.valueError "ClamAV timeout must be between 0 and 60 seconds")
    else .error (.valueError "ClamAV port is invalid")
  else .error (.valueError "ClamAV host is invalid")

/-- The loop of `scan`. -/
def sendChunks : List Bytes → Socket.Code Unit
  | [] => .pure ()
  | chunk :: rest => do
    let length ← Program.ofExcept ((to_bytes 4 chunk.length).mapError .other)
    Socket.sendall (length ++ chunk)
    sendChunks rest

/-- The body of the `with` statement. -/
def converse (c : ClamAvScanner) (data : Bytes) : Socket.Code Bytes := do
  Socket.settimeout c.timeout_seconds
  Socket.sendall (utf8 "zINSTREAM\x00")
  sendChunks (pieces (64 * 1024) data)
  Socket.sendall [0, 0, 0, 0]
  Socket.recv 512

/-- What the scan makes of the response. -/
def verdict (response : Bytes) : Except ScanError Unit :=
  match decode response with
  | none => .error (.malwareScanUnavailable "malware scanner returned invalid data")
  | some text =>
    let message := (str_strip text).toList
    if !("stream: OK".toList.isSuffixOf message) then
      if "FOUND".toList <:+: message then .error (.malwareDetected "malware scanner rejected the upload")
      else .error (.malwareScanUnavailable "malware scanner did not confirm the upload")
    else .ok ()

def unavailable {α : Type} : ScanError → Socket.Code α
  | .osError _ => .throw (.malwareScanUnavailable "malware scanner is unavailable")
  | e => .throw e

def scan (c : ClamAvScanner) (data : Bytes) (_content_type : String) : Socket.Code Unit := do
  let response ← Program.tryCatch (do
    Socket.create_connection c.host c.port c.timeout_seconds
    Program.tryFinally (c.converse data) Socket.close) unavailable
  Program.ofExcept (verdict response)

end ClamAvScanner

/-- What `clamd` says of the bytes of a stream. -/
inductive Verdict
  | ok
  | found (name : Bytes)
  deriving DecidableEq

def Verdict.reply : Verdict → Bytes
  | .ok => utf8 "stream: OK" ++ [0]
  | .found name => utf8 "stream: " ++ name ++ utf8 " FOUND" ++ [0]

/-- A `clamd` that judges every stream, in answers that fit into one `recv`. -/
structure Clamd where
  verdict : Bytes → Verdict
  short : ∀ data, (verdict data).reply.length ≤ 512

/-- The side of the daemon: it waits for the end of the command, then it reads the chunks. -/
inductive Session
  | command (read : Bytes)
  | stream (reader : Reader)
  | refused
  deriving DecidableEq

def Session.receive : Session → UInt8 → Session
  | command read, b =>
    if b = 0 then if read = utf8 "zINSTREAM" then stream (.length [] []) else refused
    else command (read ++ [b])
  | stream reader, b => stream (reader.receive 4 b)
  | refused, _ => refused

namespace Clamd

variable (k : Clamd)

/-- The answer comes when the stream has ended; until then the client waits for it in vain. -/
def answer (s : Session) (bufsize : Nat) : Except SocketError Bytes :=
  match s with
  | .stream (.ended data) => .ok ((k.verdict data).reply.take bufsize)
  | _ => .error (.osError "timed out")

def serve (s : Session) (c : Socket.Cmd) (_ : Unit) : Socket.Reply c × Session :=
  match c with
  | .create_connection .. => (.ok (), .command [])
  | .settimeout _ => (.ok (), s)
  | .sendall data => (.ok (), data.foldl Session.receive s)
  | .recv bufsize => (k.answer s bufsize, s)
  | .close => (.ok (), s)

/-- A whole scan against the daemon. -/
def run (c : ClamAvScanner) (data : Bytes) (content_type : String) :=
  Program.run k.serve (c.scan data content_type) (fun _ => ()) .refused

end Clamd

/-- The bytes arrive in chunks that are not empty, and the scan does as the daemon says. -/
structure Obeyed (k : Clamd) (c : ClamAvScanner) (data : Bytes) (content_type : String) : Prop where
  chunks : ∃ chunks : List Bytes,
    Socket.sent (k.run c data content_type).log = [utf8 "zINSTREAM\x00"] ++ chunks.map (frame 4) ++ [frame 4 []] ∧
      chunks.flatten = data ∧ ∀ chunk ∈ chunks, chunk ≠ [] ∧ chunk.length < 256 ^ 4
  returns : (k.run c data content_type).result = .ok () ↔ k.verdict data = .ok
  detects : (∃ msg, (k.run c data content_type).result = .error (.malwareDetected msg)) ↔
    ∃ name, k.verdict data = .found name

section Conversation

variable {k : Clamd} {α β : Type} {c : ClamAvScanner} {data : Bytes} {s t u : Session} {xs ys : List Bytes}

/-- The daemon lets the program through to a result, and hears these texts. -/
def Hears (k : Clamd) (p : Socket.Code α) (s : Session) (xs : List Bytes) (a : α) (t : Session) : Prop :=
  ∀ log o t', Program.Exec k.serve p s log o t' → Socket.sent log = xs ∧ o = .ok a ∧ t' = t

theorem sent_append (l₁ l₂ : Exchange Socket.Cmd Socket.Reply) :
    Socket.sent (l₁ ++ l₂) = Socket.sent l₁ ++ Socket.sent l₂ := List.filterMap_append

theorem Hears.pure (a : α) : Hears k (.pure a) s [] a s := by
  intro log o t h
  obtain ⟨rfl, rfl, rfl⟩ := Program.exec_pure.mp h
  exact ⟨rfl, rfl, rfl⟩

theorem Hears.bind {p : Socket.Code α} {f : α → Socket.Code β} {a : α} {b : β} (hp : Hears k p s xs a u)
    (hf : Hears k (f a) u ys b t) : Hears k (p.bind f) s (xs ++ ys) b t := by
  intro log o t' h
  obtain ⟨e, h₁, -⟩ | ⟨a', u', l₁, l₂, h₁, h₂, rfl⟩ := Program.exec_bind.mp h
  · cases (hp _ _ _ h₁).2.1
  · obtain ⟨hsent, ha, rfl⟩ := hp _ _ _ h₁
    cases ha
    obtain ⟨hsent', rfl, rfl⟩ := hf _ _ _ h₂
    exact ⟨by rw [sent_append, hsent, hsent'], rfl, rfl⟩

/-- A call on the socket that the daemon answers. -/
theorem Hears.call {cmd : Socket.Cmd} {r : Socket.Reply cmd} {f : Socket.Reply cmd → Except ScanError α} {a : α}
    (hserve : k.serve s cmd () = (r, t)) (hf : f r = .ok a) :
    Hears k (.cmd cmd fun r => Program.ofExcept (f r)) s (Socket.sent [⟨cmd, r⟩]) a t := by
  intro log o t' h
  obtain ⟨ch, rest, rfl, hrest⟩ := Program.exec_issue.mp h
  rw [show k.serve s cmd ch = (r, t) from hserve] at hrest ⊢
  obtain ⟨rfl, rfl, rfl⟩ := Program.exec_ofExcept.mp hrest
  exact ⟨rfl, hf, rfl⟩

theorem hears_sendall (text : Bytes) : Hears k (Socket.sendall text) s [text] () (text.foldl Session.receive s) :=
  .call rfl rfl

theorem Hears.tryCatch {p : Socket.Code α} {f : ScanError → Socket.Code α} {a : α} (hp : Hears k p s xs a t) :
    Hears k (p.tryCatch f) s xs a t := by
  intro log o t' h
  obtain ⟨a', h₁, rfl⟩ | ⟨e, u, l₁, l₂, h₁, -⟩ := Program.exec_tryCatch.mp h
  · exact hp _ _ _ h₁
  · cases (hp _ _ _ h₁).2.1

theorem Hears.tryFinally {p : Socket.Code α} {q : Socket.Code Unit} {a : α} (hp : Hears k p s xs a u)
    (hq : Hears k q u ys () t) : Hears k (p.tryFinally q) s (xs ++ ys) a t := by
  intro log o t' h
  obtain ⟨o', u', l₁, l₂, h₁, rfl, h₂ | ⟨e, h₂, -⟩⟩ := Program.exec_tryFinally.mp h
  · obtain ⟨hsent, rfl, rfl⟩ := hp _ _ _ h₁
    obtain ⟨h₂, rfl⟩ := h₂
    obtain ⟨hsent', -, rfl⟩ := hq _ _ _ h₂
    exact ⟨by rw [sent_append, hsent, hsent'], rfl, rfl⟩
  · obtain ⟨-, -, rfl⟩ := hp _ _ _ h₁
    cases (hq _ _ _ h₂).2.1

theorem receive_stream (bytes : Bytes) (reader : Reader) :
    bytes.foldl Session.receive (.stream reader) = .stream (bytes.foldl (Reader.receive 4) reader) := by
  induction bytes generalizing reader with
  | nil => rfl
  | cons b bytes ih => exact ih _

/-- The loop sends one frame for each chunk. -/
theorem hears_sendChunks {chunks : List Bytes} (h : ∀ chunk ∈ chunks, chunk.length < 256 ^ 4) :
    Hears k (ClamAvScanner.sendChunks chunks) s (chunks.map (frame 4)) ()
      ((chunks.flatMap (frame 4)).foldl Session.receive s) := by
  induction chunks generalizing s with
  | nil => exact .pure ()
  | cons chunk chunks ih =>
    obtain ⟨hchunk, hrest⟩ := List.forall_mem_cons.mp h
    have hlength : to_bytes 4 chunk.length = .ok (bigEndian 4 chunk.length) := if_pos hchunk
    rw [ClamAvScanner.sendChunks, hlength, List.flatMap_cons, List.foldl_append]
    exact (hears_sendall (frame 4 chunk)).bind (ih hrest)

/-- The texts of the protocol. -/
theorem wire_checks : (utf8 "zINSTREAM\x00").foldl Session.receive (.command []) = .stream (.length [] []) ∧
    ClamAvScanner.verdict Verdict.ok.reply =
      .error (.malwareScanUnavailable "malware scanner did not confirm the upload") ∧
    utf8 " FOUND\x00" = utf8 " FOUND" ++ [0] ∧ (∀ b ∈ utf8 " FOUND" ++ [0], b < 128) ∧ ∀ b ∈ utf8 "stream: ", b < 128 := by
  decide +kernel

theorem hears_converse : Hears k (c.converse data) (.command [])
    ([utf8 "zINSTREAM\x00"] ++ (pieces (64 * 1024) data).map (frame 4) ++ [frame 4 []])
    (k.verdict data).reply (.stream (.ended data)) := by
  have hpieces : ∀ chunk ∈ pieces (64 * 1024) data, chunk ≠ [] ∧ chunk.length < 256 ^ 4 := fun chunk hchunk =>
    ⟨piece_ne_nil hchunk, Nat.lt_of_le_of_lt (length_piece_le hchunk) (by decide)⟩
  obtain ⟨hcommand, _⟩ := wire_checks
  have hstream : ((pieces (64 * 1024) data).flatMap (frame 4)).foldl Session.receive (.stream (.length [] [])) =
      .stream (.length [] data) := by
    rw [receive_stream, Reader.receive_frames hpieces, List.nil_append, flatten_pieces (by decide)]
  have hend : (frame 4 []).foldl Session.receive (.stream (.length [] data)) = .stream (.ended data) := by
    rw [receive_stream, Reader.receive_end (by decide)]
  have hanswer : k.answer (.stream (.ended data)) 512 = .ok (k.verdict data).reply :=
    congrArg Except.ok (List.take_of_length_le (k.short data))
  have hsend := hears_sendall (k := k) (s := .command []) (utf8 "zINSTREAM\x00")
  have hchunks := hears_sendChunks (k := k) (s := .stream (.length [] [])) fun chunk hchunk => (hpieces chunk hchunk).2
  have hlast := hears_sendall (k := k) (s := .stream (.length [] data)) (frame 4 [])
  rw [hcommand] at hsend
  rw [hstream] at hchunks
  rw [hend] at hlast
  have hrecv : Hears k (Socket.recv 512) (.stream (.ended data)) [] (k.verdict data).reply (.stream (.ended data)) :=
    .call (r := k.answer (.stream (.ended data)) 512) rfl (by rw [hanswer]; rfl)
  have hset : Hears k (Socket.settimeout c.timeout_seconds) (.command []) [] () (.command []) := .call rfl rfl
  have h := hset.bind (f := fun _ => _) (hsend.bind (f := fun _ => _) (hchunks.bind (f := fun _ => _)
    (hlast.bind (f := fun _ => _) hrecv)))
  have hzero : [0, 0, 0, 0] = frame 4 [] := by decide
  simpa -implicitDefEqProofs [ClamAvScanner.converse, hzero] using h

end Conversation

section Replies

variable {k : Clamd} {c : ClamAvScanner} {data name : Bytes} {content_type text : String}

/-- Every byte arrives, and the reply decides. -/
theorem run_scan (k : Clamd) (c : ClamAvScanner) (data : Bytes) (content_type : String) :
    Socket.sent (k.run c data content_type).log =
        [utf8 "zINSTREAM\x00"] ++ (pieces (64 * 1024) data).map (frame 4) ++ [frame 4 []] ∧
      (k.run c data content_type).result = ClamAvScanner.verdict (k.verdict data).reply := by
  have hconnect : Hears k (Socket.create_connection c.host c.port c.timeout_seconds) .refused [] () (.command []) :=
    .call rfl rfl
  have hclose : Hears k Socket.close (.stream (.ended data)) [] () (.stream (.ended data)) := .call rfl rfl
  have htalk := (hconnect.bind (f := fun _ => _) ((hears_converse (c := c)).tryFinally hclose)).tryCatch
    (f := ClamAvScanner.unavailable)
  rw [List.append_nil, List.nil_append] at htalk
  have hexec := Program.exec_of_run k.serve (c.scan data content_type) (fun _ => ()) .refused
  obtain ⟨e, h, -⟩ | ⟨response, u, l₁, l₂, h₁, h₂, hlog⟩ := Program.exec_bind.mp hexec
  · cases (htalk _ _ _ h).2.1
  · obtain ⟨hsent, hresponse, -⟩ := htalk _ _ _ h₁
    cases hresponse
    obtain ⟨rfl, hresult, -⟩ := Program.exec_ofExcept.mp h₂
    rw [List.append_nil] at hlog
    exact ⟨(congrArg Socket.sent hlog).trans hsent, hresult⟩

/-- The terminator stands behind the confirmation. -/
theorem verdict_ok : ClamAvScanner.verdict Verdict.ok.reply =
    .error (.malwareScanUnavailable "malware scanner did not confirm the upload") :=
  wire_checks.2.1

theorem strip_reply (text : String) :
    str_strip ("stream: " ++ text ++ " FOUND\x00") = "stream: " ++ text ++ " FOUND\x00" := by
  have hfront : ∀ rest, ("stream: ".toList ++ rest).dropWhile isSpace = "stream: ".toList ++ rest := fun rest => rfl
  have hback : ∀ rest, (" FOUND\x00".toList.reverse ++ rest).dropWhile isSpace = " FOUND\x00".toList.reverse ++ rest :=
    fun rest => rfl
  have hchars : ("stream: " ++ text ++ " FOUND\x00").toList =
      "stream: ".toList ++ (text.toList ++ " FOUND\x00".toList) := by simp
  unfold str_strip
  rw [hchars, hfront, ← List.append_assoc, List.reverse_append, hback, List.reverse_append, List.reverse_reverse,
    List.reverse_reverse, List.append_assoc, ← hchars, String.ofList_toList]

theorem verdict_found (h : utf8 text = name) : ClamAvScanner.verdict (Verdict.found name).reply =
    .error (.malwareDetected "malware scanner rejected the upload") := by
  have hreply : utf8 ("stream: " ++ text ++ " FOUND\x00") = (Verdict.found name).reply := by
    obtain ⟨_, _, hend, _⟩ := wire_checks
    rw [utf8_append, utf8_append, h, hend, Verdict.reply, List.append_assoc, List.append_assoc, List.append_assoc]
  have hsuffix : "stream: OK".toList.isSuffixOf ("stream: " ++ text ++ " FOUND\x00").toList = false := by
    rw [Bool.eq_false_iff, Ne, List.isSuffixOf_iff_suffix]
    rintro ⟨front, h⟩
    have hlast : some 'K' = some '\x00' := by
      have h' : (front ++ "stream: O".toList) ++ ['K'] = ("stream: ".toList ++ text.toList ++ " FOUND".toList) ++ ['\x00'] := by
        simpa using h
      simpa only [List.getLast?_concat] using congrArg List.getLast? h'
    cases hlast
  have hfound : "FOUND".toList <:+: ("stream: " ++ text ++ " FOUND\x00").toList :=
    ⟨"stream: ".toList ++ text.toList ++ [' '], ['\x00'], by simp⟩
  unfold ClamAvScanner.verdict
  rw [decode_eq_some.mpr hreply]
  dsimp only
  rw [strip_reply, hsuffix, Bool.not_false, if_pos rfl, if_pos hfound]

/-- A name that is no text is not understood. -/
theorem verdict_undecodable (h : ∀ text, utf8 text ≠ name) : ClamAvScanner.verdict (Verdict.found name).reply =
    .error (.malwareScanUnavailable "malware scanner returned invalid data") := by
  have hnone : decode (Verdict.found name).reply = none := by
    rw [Option.eq_none_iff_forall_ne_some]
    intro text htext
    have hreply := decode_eq_some.mp htext
    rw [Verdict.reply, List.append_assoc] at hreply
    obtain ⟨_, _, _, hsuffix, hprefix⟩ := wire_checks
    obtain ⟨front, hfront⟩ := utf8_of_suffix hsuffix hreply
    obtain ⟨rest, hrest⟩ := utf8_of_prefix hprefix hfront
    exact h rest hrest
  rw [ClamAvScanner.verdict, hnone]

/-- The scan does as the daemon says exactly if it says that it found something, under a name that is a text. -/
theorem obeyed_iff : Obeyed k c data content_type ↔ ∃ text, k.verdict data = .found (utf8 text) := by
  obtain ⟨hsent, hresult⟩ := run_scan k c data content_type
  constructor
  · intro h
    cases hverdict : k.verdict data with
    | ok =>
      have hok := h.returns.mpr hverdict
      rw [hresult, hverdict, verdict_ok] at hok
      cases hok
    | found name =>
      by_cases hname : ∃ text, utf8 text = name
      · obtain ⟨text, rfl⟩ := hname
        exact ⟨text, rfl⟩
      · obtain ⟨msg, hmsg⟩ := h.detects.mpr ⟨name, hverdict⟩
        rw [hresult, hverdict, verdict_undecodable fun text htext => hname ⟨text, htext⟩] at hmsg
        cases hmsg
  · rintro ⟨text, htext⟩
    rw [htext, verdict_found rfl] at hresult
    refine ⟨⟨_, hsent, flatten_pieces (by decide), fun chunk hchunk => ⟨piece_ne_nil hchunk,
      Nat.lt_of_le_of_lt (length_piece_le hchunk) (by decide)⟩⟩, ?_, ?_⟩
    · rw [hresult, htext]
      exact iff_of_false nofun nofun
    · exact iff_of_true ⟨_, hresult⟩ ⟨_, htext⟩

/-- No scan passes. -/
theorem run_error (k : Clamd) (c : ClamAvScanner) (data : Bytes) (content_type : String) :
    ∃ e, (k.run c data content_type).result = .error e := by
  rw [(run_scan k c data content_type).2]
  cases k.verdict data with
  | ok => exact ⟨_, verdict_ok⟩
  | found name =>
    by_cases hname : ∃ text, utf8 text = name
    · obtain ⟨text, htext⟩ := hname
      exact ⟨_, verdict_found htext⟩
    · exact ⟨_, verdict_undecodable fun text htext => hname ⟨text, htext⟩⟩

/-- Behind this scanner nothing is ever stored. -/
theorem upload_refused {S : AttachmentService} {W : World} {identity : IdentityContext} {filename : String}
    {oracle : Oracle} {s : State S.backend}
    (hscan : ∀ data content_type, oracle.scan data content_type =
      (k.run c data content_type).result.mapError ScanError.toFailure) :
    ∃ e, S.upload W identity filename content_type data oracle s = (.error e, s) := by
  cases hcheck : S.check identity filename content_type data oracle with
  | error e => exact ⟨e, by rw [AttachmentService.upload, hcheck]⟩
  | ok found =>
    obtain ⟨e, herror⟩ := run_error k c data content_type
    have hok := (check_ok hcheck).2.2.2
    rw [hscan, herror] at hok
    cases hok

end Replies

section Sample

theorem local_checks : Verdict.ok.reply.length ≤ 512 ∧ (0 < (10 : Rat) ∧ (10 : Rat) ≤ 60) ∧
    "127.0.0.1".isEmpty = false ∧ "127.0.0.1".length ≤ 255 ∧ '\r' ∉ "127.0.0.1".toList ∧ '\n' ∉ "127.0.0.1".toList := by
  decide +kernel

theorem nothing_found (_data : Bytes) : Verdict.ok.reply.length ≤ 512 := local_checks.1

/-- A daemon that finds nothing. -/
def cleanDaemon : Clamd := ⟨fun _ => .ok, nothing_found⟩

theorem local_host : "127.0.0.1".isEmpty = false ∧ "127.0.0.1".length ≤ 255 ∧ '\r' ∉ "127.0.0.1".toList ∧
    '\n' ∉ "127.0.0.1".toList := local_checks.2.2

theorem local_port : 1 ≤ (3310 : Int) ∧ (3310 : Int) ≤ 65535 := by
  decide

theorem local_timeout : 0 < (10 : Rat) ∧ (10 : Rat) ≤ 60 := local_checks.2.1

def localScanner : ClamAvScanner := ⟨"127.0.0.1", 3310, 10, local_host, local_port, local_timeout⟩

/-- A clean upload is refused. -/
theorem clean_refused : ¬ ∀ (k : Clamd) (c : ClamAvScanner) (data : Bytes) (content_type : String),
    Obeyed k c data content_type := by
  intro h
  have hok := (h cleanDaemon localScanner [71, 73, 70] "image/gif").returns.mpr rfl
  rw [(run_scan _ _ _ _).2] at hok
  cases verdict_ok.symm.trans hok

end Sample

end EnterpriseCopilot.Attachment
