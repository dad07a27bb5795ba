/-
A pipe that drops in the middle of a call.

What arrives is a stream of lines cut off at some byte: whole lines, and what is
left of the next one. Each whole line is a callback, and the call answers it and
reads on (`Pending.lines`, by induction on the lines). What is left of the next
line is then the last frame, newline or not, since `recv_frame` takes the end of
the stream for the end of a line. If nothing is left the call sees the end of the
stream; if the text of a whole callback is left, it sees the end one frame later;
anything else is a frame that does not parse, and the call ends with that.
-/
import DigIpc.CallbackReplies
import DigIpc.ReadLoop
import DigIpc.TransportFraming

set_option autoImplicit false

open Interaction Serde StdIo

namespace DigIpc

/-! ## Texts cut off -/

/-- A string whose encoding begins another's begins it. -/
theorem prefix_of_as_bytes {s whole : String} (h : as_bytes s <+: as_bytes whole) :
    ∃ t, whole = s ++ t := by
  obtain ⟨rest, hrest⟩ := h
  have hbytes : s.toList.utf8Encode ++ ⟨rest.toArray⟩ = whole.toList.utf8Encode := by
    rw [String.utf8Encode_toList, String.utf8Encode_toList]
    refine ByteArray.ext (Array.toList_inj.mp ?_)
    rw [ByteArray.data_append, Array.toList_append]
    exact hrest
  obtain ⟨t, ht⟩ := List.isPrefix_of_utf8Encode_append_eq_utf8Encode _ hbytes
  refine ⟨String.ofList t, String.toList_inj.mp ?_⟩
  rw [String.toList_append, String.toList_ofList, ht]

/-- What trimming takes off is blank. -/
theorem trim_end_newlines_blanks (s : String) :
    ∃ blanks, s = trim_end_newlines s ++ blanks ∧ ∀ c ∈ blanks.toList, c.isWhitespace := by
  refine ⟨String.ofList (s.toList.rtakeWhile fun c => c = '\n' ∨ c = '\r'), ?_, fun c hc => ?_⟩
  · refine String.toList_inj.mp ?_
    unfold trim_end_newlines
    rw [String.toList_append, String.toList_ofList, String.toList_ofList,
      List.rdropWhile_append_rtakeWhile]
  · rw [String.toList_ofList] at hc
    have hend := List.mem_rtakeWhile_imp hc
    rw [decide_eq_true_eq] at hend
    rcases hend with rfl | rfl <;> decide

/-- The length of a JSON text, without the blanks after it. -/
def json_length (text : String) : ℕ :=
  (as_bytes (String.ofList (text.toList.rdropWhile Char.isWhitespace))).length

theorem json_length_le (text : String) : json_length text ≤ (as_bytes text).length := by
  have hsplit : as_bytes text
      = as_bytes (String.ofList (text.toList.rdropWhile Char.isWhitespace))
        ++ as_bytes (String.ofList (text.toList.rtakeWhile Char.isWhitespace)) := by
    rw [← as_bytes_append, ← String.ofList_append, List.rdropWhile_append_rtakeWhile,
      String.ofList_toList]
  rw [hsplit, List.length_append]
  exact Nat.le_add_right _ _

/-- Short of its JSON text, more than blanks is missing. -/
theorem missing_of_length {s t : String} (h : (as_bytes s).length < json_length (s ++ t)) :
    ∃ c ∈ t.toList, ¬ c.isWhitespace := by
  by_contra hnone
  push Not at hnone
  have hdrop : (s ++ t).toList.rdropWhile Char.isWhitespace
      = s.toList.rdropWhile Char.isWhitespace := by
    rw [String.toList_append]
    generalize t.toList = cs at hnone
    induction cs using List.reverseRecOn with
    | nil => rw [List.append_nil]
    | append_singleton cs c ih =>
      rw [← List.append_assoc, List.rdropWhile_concat_pos _ _ _
        (hnone c (List.mem_append_right cs (List.mem_singleton_self c)))]
      exact ih fun c' hc' => hnone c' (List.mem_append_left _ hc')
  have hle := json_length_le s
  unfold json_length at h hle
  rw [hdrop] at h
  omega

section Codec

variable {X : Crates}

/-- What is read as a frame is bracketed. -/
theorem bracketed_of_from_str {text : String} {frame : IncomingFrame}
    (hparse : IncomingFrame.from_str X text = some frame) :
    ∃ j, X.json.from_str text = some j ∧ j.Bracketed ∧ IncomingFrame.decode j = some frame := by
  unfold IncomingFrame.from_str at hparse
  obtain ⟨j, hj, hdecode⟩ := Option.bind_eq_some_iff.mp hparse
  refine ⟨j, hj, ?_, hdecode⟩
  unfold IncomingFrame.decode at hdecode
  obtain ⟨field, hfields, -⟩ := Option.bind_eq_some_iff.mp hdecode
  exact bracketed_of_readFields hfields

/-- The text of a frame with more than blanks missing is none. -/
theorem from_str_cut (hX : X.json.Delimited) {cut rest : String} {frame : IncomingFrame}
    (hparse : IncomingFrame.from_str X (cut ++ rest) = some frame)
    (hrest : ∃ c ∈ rest.toList, ¬ c.isWhitespace) : IncomingFrame.from_str X cut = none := by
  obtain ⟨j, hj, hbracketed, -⟩ := bracketed_of_from_str hparse
  unfold IncomingFrame.from_str
  rw [hX.from_str_cut cut rest j hj hbracketed hrest]
  rfl

/-- With only blanks missing it is the same frame. -/
theorem from_str_pad (hX : X.json.Padded) {text blanks : String} {frame : IncomingFrame}
    (hparse : IncomingFrame.from_str X (text ++ blanks) = some frame)
    (hblanks : ∀ c ∈ blanks.toList, c.isWhitespace) :
    IncomingFrame.from_str X text = some frame := by
  obtain ⟨j, hj, hbracketed, hdecode⟩ := bracketed_of_from_str hparse
  unfold IncomingFrame.from_str
  rw [hX.from_str_pad text blanks j hj hbracketed hblanks]
  exact hdecode

/-- So a callback with decodable parameters, short of blanks, is still one when
its line ending is trimmed. -/
theorem DecodableCallback.pad (hX : X.json.Padded) {text blanks : String}
    (hcallback : DecodableCallback X (text ++ blanks))
    (hblanks : ∀ c ∈ blanks.toList, c.isWhitespace) :
    DecodableCallback X (trim_end_newlines text) := by
  obtain ⟨frame, hframe, hparams⟩ := hcallback
  obtain ⟨hparse, hmethod⟩ := callback_of_eq_some.mp hframe
  obtain ⟨ending, htext, hending⟩ := trim_end_newlines_blanks text
  have htrim := from_str_pad hX hparse hblanks
  rw [htext] at htrim
  exact ⟨frame, callback_of_eq_some.mpr ⟨from_str_pad hX htrim hending, hmethod⟩, hparams⟩

end Codec

/-! ## Lines cut off -/

namespace LineTransport

variable {W : Type}

/-- What `recv_frame` makes of a line that the end of the stream cuts off. -/
def part_of (part : Bytes) : Except Error String :=
  if part = [] then .error (Error.fromKind .UnexpectedEof)
  else match from_utf8 part with
    | none => .error (Error.new .InvalidData "peer frame is not UTF-8")
    | some text => .ok (trim_end_newlines text)

/-- **A line cut off is the last frame.** -/
theorem recv_frame_part (self : LineTransport W) {part : Bytes}
    (hitems : self.reader.items = part.map .byte) (hpart : NEWLINE ∉ part)
    (hlen : part.length < MAX_FRAME_BYTES) :
    (recv_frame self).1 = part_of part ∧ (recv_frame self).2.reader.items = [] := by
  have hrecv := recv_frame_scan self
  have hscan : scan NEWLINE MAX_FRAME_BYTES self.reader.items [] = (.ok part, []) := by
    have hblock := scan_block NEWLINE part hpart MAX_FRAME_BYTES [] [] hlen.le
    rw [List.append_nil, List.nil_append] at hblock
    rw [hitems, hblock]
    obtain ⟨n, hn⟩ : ∃ n, MAX_FRAME_BYTES - part.length = n + 1 :=
      ⟨MAX_FRAME_BYTES - part.length - 1, by omega⟩
    rw [hn, scan]
  rw [hscan] at hrecv
  obtain ⟨hresult, hrest⟩ := Prod.mk.inj hrecv
  refine ⟨?_, hrest⟩
  rw [hresult]
  unfold frame_of part_of
  by_cases hnil : part = []
  · rw [if_pos hnil, hnil]
    rfl
  · have hlength : ¬ part.length = 0 := fun h => hnil (List.length_eq_zero_iff.mp h)
    have hshort : ¬ (part.getLast? ≠ some NEWLINE ∧ MAX_FRAME_BYTES ≤ part.length) :=
      fun h => absurd h.2 (not_le.mpr hlen)
    cases from_utf8 part <;> simp only [if_neg hlength, if_neg hshort, if_neg hnil]

theorem lines_cons (text : String) (texts : List String) :
    lines (text :: texts) = as_bytes text ++ NEWLINE :: lines texts := by
  unfold lines
  rw [List.flatMap_cons, List.append_assoc]
  rfl

/-- **Where a cut falls**: after some of the lines, in the next one. -/
theorem cut_lines (callbacks : List String) (response : String) {k : ℕ}
    (hk : k < (lines callbacks).length + json_length response) :
    ∃ i part next, i ≤ callbacks.length ∧
      (lines (callbacks ++ [response])).take k = lines (callbacks.take i) ++ part ∧
      (callbacks ++ [response])[i]? = some next ∧ part <+: as_bytes next ∧
      (i = callbacks.length → part.length < json_length response) := by
  induction callbacks generalizing k with
  | nil =>
    have hk' : k < json_length response := by
      have hnil : (lines []).length = 0 := rfl
      omega
    have hle := json_length_le response
    refine ⟨0, (as_bytes response).take k, response, le_rfl, ?_, rfl, List.take_prefix k _, ?_⟩
    · rw [List.nil_append, lines_cons, List.take_append_of_le_length (by omega)]
      rfl
    · intro _
      rw [List.length_take]
      omega
  | cons callback callbacks ih =>
    rw [lines_cons, List.length_append, List.length_cons] at hk
    rw [List.cons_append, lines_cons]
    -- in the first line, its newline apart, or behind it
    by_cases hfirst : k ≤ (as_bytes callback).length
    · refine ⟨0, (as_bytes callback).take k, callback, Nat.zero_le _, ?_, rfl, List.take_prefix k _, nofun⟩
      rw [List.take_append_of_le_length hfirst]
      rfl
    · obtain ⟨k', rfl⟩ : ∃ k', k = (as_bytes callback).length + 1 + k' :=
        ⟨k - (as_bytes callback).length - 1, by omega⟩
      obtain ⟨i, part, next, hi, hcut, hnext, hpart, hlast⟩ := @ih k' (by omega)
      refine ⟨i + 1, part, next, Nat.succ_le_succ hi, ?_, hnext, hpart, fun h => hlast (Nat.succ.inj h)⟩
      rw [List.take_succ_cons, lines_cons, Nat.add_assoc, List.take_length_add_append, Nat.add_comm 1,
        List.take_succ_cons, hcut, List.append_assoc, List.cons_append]

end LineTransport

/-! ## A pending call -/

section Pending

variable {X : Crates} {env : Environment} {client : SessionClient} {op : ClientOp}
  {out : Except SessionError ClientOut} {h post : ClientHistory}

/-- The error a call ends with when a read gives no frame. -/
def read_error (X : Crates) : Except Error String → Option SessionError
  | .error e => some (.Io e)
  | .ok raw => match IncomingFrame.from_str X raw with
    | none => some .Frame
    | some _ => none

/-- No response, and no callback. -/
theorem read_error_parsed {raw : String} {frame : IncomingFrame} {err : SessionError}
    (hparse : IncomingFrame.from_str X raw = some frame) : read_error X (.ok raw) ≠ some err := by
  simp only [read_error, hparse]
  exact nofun

variable {r : Except Error String} {err : SessionError}

theorem CallEnds.read_failed {α : Type} {decode : Json → Option α} {id : UInt64} {request : String}
    {h₀ : ClientHistory} {res : Except SessionError α} (hfail : read_error X r = some err)
    (hends : CallEnds X decode id request h₀ res (h ++ [⟨.recv_frame, r⟩])) : res = .error err := by
  generalize hread : h ++ [(⟨.recv_frame, r⟩ : SeamEvent)] = h' at hends
  cases hends with
  | unsent => cases last_eq hread
  | awaited since ends =>
    cases ends with
    | recv_io =>
      cases last_eq hread
      cases hfail
      rfl
    | send_io => cases last_eq hread
    | unparsed parse =>
      cases last_eq hread
      simp only [read_error, parse] at hfail
      cases hfail
      rfl
    | undecodable parse sign params =>
      cases last_eq hread
      exact absurd hfail (read_error_parsed parse)
    | flooded parse sign reads =>
      cases last_eq hread
      exact absurd hfail (read_error_parsed parse)
    | response parse method =>
      cases last_eq hread
      exact absurd hfail (read_error_parsed parse)

/-- A call that ends on a read without a frame ends with its error. -/
theorem Ends.read_failed (hcall : op ≠ .handle_next_sign_callback)
    (hends : Ends X client op out (h ++ [⟨.recv_frame, r⟩])) (hfail : read_error X r = some err) :
    out = .error err := by
  generalize hread : h ++ [(⟨.recv_frame, r⟩ : SeamEvent)] = h' at hends
  cases hends with
  | begin_failed handshake ends =>
    rw [← hread] at ends
    cases ends.read_failed hfail
    rfl
  | bad_nonce handshake ends bad =>
    rw [← hread] at ends
    cases ends.read_failed hfail
  | locked challenged => cases last_eq hread
  | attach_failed challenged ends =>
    rw [← hread] at ends
    cases ends.read_failed hfail
    rfl
  | attached challenged ends =>
    rw [← hread] at ends
    cases ends.read_failed hfail
  | detach_failed detaching ends =>
    rw [← hread] at ends
    cases ends.read_failed hfail
    rfl
  | detached detaching ends =>
    rw [← hread] at ends
    cases ends.read_failed hfail
  | next_unread next => exact absurd next hcall
  | next_unparsed next parse => exact absurd next hcall
  | next_other next parse method => exact absurd next hcall
  | next_served next parse method served => exact absurd next hcall

/-- And does nothing more. -/
theorem ClientEvent.not_after_failed {e : SeamEvent} (hfail : read_error X r = some err) :
    ¬ ClientEvent X client op (h ++ [⟨.recv_frame, r⟩]) e := by
  intro hevent
  generalize hread : h ++ [(⟨.recv_frame, r⟩ : SeamEvent)] = h' at hevent
  -- what the client does after a read it does on account of the frame it has read
  have hparsed : ∀ {frame}, ¬ Reads X h' frame := by
    rintro frame ⟨h₀, raw, rfl, hparse⟩
    cases last_eq hread
    exact absurd hfail (read_error_parsed hparse)
  have hservice : ∀ {frame}, ¬ ServiceEvent X frame h' e := by
    intro frame hservice
    rw [← hread] at hservice
    obtain ⟨reads, -⟩ := hservice.of_read
    rw [hread] at reads
    exact hparsed reads
  cases hevent with
  | set_transport reattaching => simp at hread
  | public_key handshake r =>
    cases op with
    | reattach profile => cases @last_eq h [] _ _ hread
    | _ => simp [ClientOp.opening] at hread
  | challenge challenged r =>
    obtain ⟨pubkey_hex, hends⟩ := challenged.begun
    obtain ⟨-, frame, reads, -⟩ := hends.answered
    exact hparsed reads
  | request requests r =>
    cases requests with
    | begin handshake pubkey_hex => cases last_eq hread
    | attach challenged signature => cases last_eq hread
    | detach detaching => simp at hread
  | next_read next r => simp at hread
  | next_service next event => exact hservice event
  | await awaiting event =>
    cases event with
    | read r sent =>
      obtain ⟨h₀, text, rfl⟩ := sent
      cases last_eq hread
    | service event => exact hservice event

variable (X env client op out) in
/-- A call that awaits a response at `h`, with `post` still to happen in it. -/
structure Pending (h post : ClientHistory) : Prop where
  call : op ≠ .handle_next_sign_callback
  along : Proc.Along (ClientEvent X client op) h post
  replies : Proc.Along env.Rely h post
  ends : Ends X client op out (h ++ post)
  sent : AfterSend h

/-- It reads. -/
theorem Pending.read (hpending : Pending X env client op out h post) :
    ∃ rest, post = ⟨.recv_frame, env h .recv_frame⟩ :: rest := by
  cases post with
  | nil =>
    have hends := hpending.ends
    rw [List.append_nil] at hends
    exact absurd (hends.after_send hpending.sent).1 hpending.call
  | cons e rest =>
    obtain ⟨e, r⟩ := e
    obtain ⟨hread, -⟩ := hpending.along.1.after_send hpending.sent
    have hreply : r = env h e := hpending.replies.1
    cases hread
    exact ⟨rest, by rw [hreply]⟩

/-- A read without a frame ends it. -/
theorem Pending.failed (hpending : Pending X env client op out h post)
    (hfail : read_error X (env h .recv_frame) = some err) : out = .error err := by
  obtain ⟨rest, rfl⟩ := hpending.read
  cases rest with
  | nil => exact hpending.ends.read_failed hpending.call hfail
  | cons e rest => exact absurd hpending.along.2.1 (ClientEvent.not_after_failed hfail)

/-- What is neither a read nor a frame sent counts for nothing. -/
theorem Quiet.tally {asked : ClientHistory} (hasked : ∀ e ∈ asked, Quiet e) :
    tally X (h ++ asked) = tally X h ∧ reads (h ++ asked) = reads h := by
  induction asked using List.reverseRecOn with
  | nil =>
    rw [List.append_nil]
    exact ⟨rfl, rfl⟩
  | append_singleton asked e ih =>
    obtain ⟨htally, hreads⟩ := ih fun e' he' => hasked e' (List.mem_append_left _ he')
    obtain ⟨hread, hsend⟩ := hasked e (List.mem_append_right asked (List.mem_singleton_self e))
    rw [← List.append_assoc, tally_snoc, reads_append, htally, hreads]
    obtain ⟨e, r⟩ := e
    cases e with
    | recv_frame => exact absurd rfl hread
    | send_frame text => exact absurd rfl (hsend text)
    | _ => exact ⟨rfl, rfl⟩

/-- **A callback with decodable parameters is answered**, and the call is pending
again. -/
theorem Pending.served (hsends : env.Accepts) (hpending : Pending X env client op out h post)
    {raw : String} (hread : env h .recv_frame = .ok raw) (hcallback : DecodableCallback X raw)
    (hbudget : (tally X h).reads < MAX_INTERLEAVED_CALLBACKS) :
    ∃ h' post', Pending X env client op out h' post' ∧ reads h' = reads h + 1 ∧
      (tally X h').reads = (tally X h).reads + 1 := by
  obtain ⟨rest, rfl⟩ := hpending.read
  obtain ⟨frame, hframe, hparams⟩ := hcallback
  obtain ⟨hcall, ⟨hevent, halong⟩, ⟨-, hreplies⟩, hends, hsent⟩ := hpending
  rw [hread] at hevent halong hreplies hends
  have htally : tally X (h ++ [⟨.recv_frame, .ok raw⟩])
      = { tally X h with owed := some frame, reads := (tally X h).reads + 1 } := by
    rw [tally_snoc, ← hframe]
    rfl
  have hserve : ¬ GaveUp X frame (h ++ [⟨.recv_frame, .ok raw⟩]) := by
    rintro (hnone | hfull)
    · rw [hnone] at hparams
      cases hparams
    · rw [htally] at hfull
      exact absurd hfull (by simp only; omega)
  -- the reply does go out
  have haccepted : ∀ text r, (⟨.send_frame text, r⟩ : SeamEvent) ∈ rest → r = .ok () := by
    intro text r hmem
    obtain ⟨before, after, hsplit⟩ := List.append_of_mem hmem
    exact ((Proc.along_iff _ _).mp hreplies before _ after hsplit).trans (hsends _ text)
  rw [List.append_cons] at hends
  obtain ⟨asked, reply, rest, rfl, hasked⟩ := served_trace rest halong hends haccepted
    (by rw [htally]) hserve
  obtain ⟨hquiet, hcount⟩ := @Quiet.tally X (h ++ [⟨.recv_frame, .ok raw⟩]) asked hasked
  rw [List.append_cons asked, Proc.along_append] at halong hreplies
  rw [List.append_cons asked, ← List.append_assoc] at hends
  refine ⟨h ++ [⟨.recv_frame, .ok raw⟩] ++ (asked ++
    [⟨.send_frame (CallbackReply.text X (reply_id frame) reply), .ok ()⟩]), rest,
    ⟨hcall, halong.2, hreplies.2, hends, ?_⟩, ?_, ?_⟩
  · exact ⟨_, _, (List.append_assoc _ _ _).symm⟩
  · rw [← List.append_assoc, reads_append, hcount, reads_append]
    rfl
  · rw [← List.append_assoc, tally_snoc, hquiet, htally, Tally.count_send_of_owed rfl]

variable {W : Type} {self : LineTransport W}

/-- The call reads from this transport. -/
def Environment.Over (env : Environment) (self : LineTransport W) : Prop :=
  ∀ h, env h .recv_frame = (LineTransport.recv_frame (self.after (reads h))).1

/-- A line of the wire. -/
structure WireLine (text : String) : Prop where
  no_newline : '\n' ∉ text.toList
  fits : (as_bytes text).length < MAX_FRAME_BYTES

/-- **Line after line**: the call answers all the callbacks that arrived whole. -/
theorem Pending.lines (hX : X.json.Padded) (hsends : env.Accepts) (hover : env.Over self)
    {callbacks : List String} (hlines : ∀ text ∈ callbacks, WireLine text)
    (hcallbacks : ∀ text ∈ callbacks, DecodableCallback X text) {items : List Item} :
    ∀ {h post}, Pending X env client op out h post →
      (self.after (reads h)).reader.items = (LineTransport.lines callbacks).map .byte ++ items →
      (tally X h).reads + callbacks.length ≤ MAX_INTERLEAVED_CALLBACKS →
      ∃ h' post', Pending X env client op out h' post' ∧
        (self.after (reads h')).reader.items = items ∧
        (tally X h').reads = (tally X h).reads + callbacks.length := by
  induction callbacks with
  | nil =>
    intro h post hpending hitems hbudget
    exact ⟨h, post, hpending, hitems, rfl⟩
  | cons callback callbacks ih =>
    intro h post hpending hitems hbudget
    have hline := hlines callback List.mem_cons_self
    rw [List.length_cons] at hbudget ⊢
    have hitems₁ : (self.after (reads h)).reader.items = (as_bytes callback ++ [NEWLINE]).map .byte
        ++ ((LineTransport.lines callbacks).map .byte ++ items) := by
      rw [hitems, LineTransport.lines_cons]
      simp
    obtain ⟨hframe, hrest⟩ := LineTransport.recv_frame_line (self.after (reads h)) callback hitems₁
      (newline_notMem_as_bytes hline.no_newline) hline.fits
    -- a line that is read whole is the callback with nothing behind it
    have hcallback : DecodableCallback X (callback ++ "") := by
      rw [String.append_empty]
      exact hcallbacks callback List.mem_cons_self
    obtain ⟨h₁, post₁, hpending₁, hreads, htally⟩ := hpending.served hsends
      ((hover h).trans hframe) (hcallback.pad hX nofun) (by omega)
    obtain ⟨h', post', hpending', hitems', htally'⟩ := ih
      (fun text hmem => hlines text (List.mem_cons_of_mem callback hmem))
      (fun text hmem => hcallbacks text (List.mem_cons_of_mem callback hmem)) hpending₁
      (by rw [hreads, LineTransport.after_succ]; exact hrest) (by omega)
    exact ⟨h', post', hpending', hitems', by omega⟩

end Pending

/-! ## The drop -/

/-- What the peer sends: callbacks with decodable parameters, and then the
response to the request `id`, each on its line. -/
structure PeerStream (X : Crates) (id : UInt64) (callbacks : List String) (response : String) :
    Prop where
  lines : ∀ text ∈ callbacks ++ [response], WireLine text
  decodable : ∀ text ∈ callbacks, DecodableCallback X text
  count : callbacks.length ≤ MAX_INTERLEAVED_CALLBACKS
  response : ∃ frame, IncomingFrame.from_str X response = some frame ∧
    frame.method ≠ some METHOD_SIGN ∧ frame.id_u64 = some id

/-- A cut outside the JSON texts: between two lines, or between the text of a
callback and its newline. -/
def CleanCut (callbacks : List String) (delivered : Bytes) : Prop :=
  ∃ i ≤ callbacks.length, delivered = LineTransport.lines (callbacks.take i) ∨
    ∃ text blanks, callbacks[i]? = some (text ++ blanks) ∧
      (∀ c ∈ blanks.toList, c.isWhitespace) ∧
      delivered = LineTransport.lines (callbacks.take i) ++ as_bytes text

section Stream

variable {X : Crates} {id : UInt64} {callbacks : List String} {response : String}

/-- A part of a line fits, and has no newline. -/
theorem PeerStream.fits (hstream : PeerStream X id callbacks response) {part : Bytes}
    {next : String} (hnext : next ∈ callbacks ++ [response]) (hpart : part <+: as_bytes next) :
    NEWLINE ∉ part ∧ part.length < MAX_FRAME_BYTES := by
  have hline := hstream.lines next hnext
  refine ⟨fun hmem => newline_notMem_as_bytes hline.no_newline (hpart.subset hmem), ?_⟩
  exact lt_of_le_of_lt hpart.length_le hline.fits

/-- Every line is the text of a frame. -/
theorem PeerStream.parses (hstream : PeerStream X id callbacks response) {text : String}
    (htext : text ∈ callbacks ++ [response]) :
    ∃ frame, IncomingFrame.from_str X text = some frame := by
  rcases List.mem_append.mp htext with hcallback | hresponse
  · obtain ⟨frame, hframe, -⟩ := hstream.decodable text hcallback
    exact ⟨frame, (callback_of_eq_some.mp hframe).1⟩
  · obtain ⟨frame, hparse, -⟩ := hstream.response
    rw [List.mem_singleton.mp hresponse]
    exact ⟨frame, hparse⟩

/-- Cut inside its JSON text, a line makes no frame, and not the end of the
stream either. -/
theorem PeerStream.broken (hcut : X.json.Delimited) (hstream : PeerStream X id callbacks response)
    {part : Bytes} {next : String} (hnext : next ∈ callbacks ++ [response])
    (hpart : part <+: as_bytes next) (hnil : part ≠ []) :
    (∃ text rest, next = text ++ rest ∧ as_bytes text = part ∧ ∀ c ∈ rest.toList, c.isWhitespace) ∨
      ∃ err, read_error X (LineTransport.part_of part) = some err ∧
        ∀ e, err = .Io e → e.kind ≠ .UnexpectedEof := by
  unfold LineTransport.part_of
  rw [if_neg hnil]
  cases htext : from_utf8 part with
  | none =>
    -- cut inside a character
    refine Or.inr ⟨_, rfl, ?_⟩
    rintro e ⟨⟩
    exact nofun
  | some text =>
    rw [from_utf8_eq_some] at htext
    rw [← htext] at hpart
    obtain ⟨rest, rfl⟩ := prefix_of_as_bytes hpart
    by_cases hmissing : ∃ c ∈ rest.toList, ¬ c.isWhitespace
    · -- cut inside the JSON text, the line ending that is trimmed apart
      obtain ⟨frame, hparse⟩ := hstream.parses hnext
      obtain ⟨ending, hending, -⟩ := trim_end_newlines_blanks text
      rw [hending, String.append_assoc] at hparse
      obtain ⟨c, hc, hblank⟩ := hmissing
      have hnone := from_str_cut hcut hparse
        ⟨c, by rw [String.toList_append]; exact List.mem_append_right _ hc, hblank⟩
      exact Or.inr ⟨.Frame, by simp only [read_error, hnone], nofun⟩
    · push Not at hmissing
      exact Or.inl ⟨text, rest, rfl, htext, hmissing⟩

/-- **A cut is clean, or it breaks a frame.** -/
theorem PeerStream.cut_cases (hcut : X.json.Delimited)
    (hstream : PeerStream X id callbacks response) {k : ℕ}
    (hk : k < (LineTransport.lines callbacks).length + json_length response) :
    CleanCut callbacks ((LineTransport.lines (callbacks ++ [response])).take k) ∨
      ∃ i part err, i ≤ callbacks.length ∧
        (LineTransport.lines (callbacks ++ [response])).take k
          = LineTransport.lines (callbacks.take i) ++ part ∧
        NEWLINE ∉ part ∧ part.length < MAX_FRAME_BYTES ∧
        read_error X (LineTransport.part_of part) = some err ∧
        ∀ e, err = .Io e → e.kind ≠ .UnexpectedEof := by
  obtain ⟨i, part, next, hi, hdelivered, hnext, hpart, hlast⟩ :=
    LineTransport.cut_lines callbacks response hk
  have hmem : next ∈ callbacks ++ [response] := List.mem_of_getElem? hnext
  by_cases hnil : part = []
  · rw [hnil, List.append_nil] at hdelivered
    exact Or.inl ⟨i, hi, Or.inl hdelivered⟩
  obtain ⟨hnewline, hlen⟩ := hstream.fits hmem hpart
  rcases hstream.broken hcut hmem hpart hnil with ⟨text, rest, rfl, htext, hblanks⟩ | ⟨err, herr, heof⟩
  · have hbefore : i < callbacks.length := by
      by_contra hnot
      -- the response is not all there
      obtain rfl : i = callbacks.length := by omega
      rw [List.getElem?_concat_length, Option.some.injEq] at hnext
      have hshort := hlast rfl
      rw [← htext, hnext] at hshort
      obtain ⟨c, hc, hblank⟩ := missing_of_length hshort
      exact hblank (hblanks c hc)
    rw [List.getElem?_append_left hbefore] at hnext
    exact Or.inl ⟨i, hi, Or.inr ⟨text, rest, hnext, hblanks, by rw [htext]; exact hdelivered⟩⟩
  · exact Or.inr ⟨i, part, err, hi, hdelivered, hnewline, hlen, herr, heof⟩

variable {env : Environment} {client : SessionClient} {op : ClientOp}
  {out : Except SessionError ClientOut} {h post : ClientHistory} {W : Type} {self : LineTransport W}

/-- **What a call reads at a cut**: it answers the callbacks before it, and then
reads what is left of the next line. -/
theorem Pending.cut (hpad : X.json.Padded) (hsends : env.Accepts) (hover : env.Over self)
    (hstream : PeerStream X id callbacks response) (hpending : Pending X env client op out h post)
    (hstart : (tally X h).reads = 0) {delivered part : Bytes} {i : ℕ} (hi : i ≤ callbacks.length)
    (hitems : (self.after (reads h)).reader.items = delivered.map .byte)
    (hdelivered : delivered = LineTransport.lines (callbacks.take i) ++ part)
    (hpart : NEWLINE ∉ part) (hlen : part.length < MAX_FRAME_BYTES) :
    ∃ h' post', Pending X env client op out h' post' ∧
      env h' .recv_frame = LineTransport.part_of part ∧
      (self.after (reads h' + 1)).reader.items = [] ∧ (tally X h').reads = i := by
  have hlength : (callbacks.take i).length = i := List.length_take_of_le hi
  have hcount := hstream.count
  rw [hdelivered, List.map_append] at hitems
  obtain ⟨h', post', hpending', hitems', htally⟩ := hpending.lines hpad hsends hover
    (fun text hmem => hstream.lines text (List.mem_append_left _ (List.mem_of_mem_take hmem)))
    (fun text hmem => hstream.decodable text (List.mem_of_mem_take hmem)) hitems
    (by rw [hstart, hlength]; omega)
  obtain ⟨hframe, hrest⟩ := LineTransport.recv_frame_part _ hitems' hpart hlen
  refine ⟨h', post', hpending', (hover h').trans hframe, ?_, ?_⟩
  · rw [LineTransport.after_succ]
    exact hrest
  · rw [htally, hstart, hlength, Nat.zero_add]

/-- At the end of the stream a pending call says so. -/
theorem Pending.eof (hpending : Pending X env client op out h post)
    (heof : env h .recv_frame = .error (Error.fromKind .UnexpectedEof)) :
    ∃ e, out = .error (.Io e) ∧ e.kind = .UnexpectedEof :=
  ⟨_, hpending.failed (by rw [heof]; rfl), rfl⟩

/-- A call is pending right after its request. -/
theorem pending_of_request {request : String} (hrequest : Requests X client op id request h)
    (htrace : (env.run (op.program X) client []).1 = h ++ ⟨.send_frame request, .ok ()⟩ :: post) :
    Pending X env client op (env.run (op.program X) client []).2.1
      (h ++ [⟨.send_frame request, .ok ()⟩]) post := by
  obtain ⟨⟨tr, htr, halong⟩, hends⟩ := env.run_program X op client
  have hreplies : Proc.Along env.Rely [] (env.run (op.program X) client []).1 :=
    Proc.along_exec env (op.program X client) []
  rw [htrace] at htr hends hreplies
  rw [List.nil_append] at htr
  subst htr
  rw [List.append_cons, Proc.along_append, List.nil_append] at halong hreplies
  rw [List.append_cons] at hends
  refine ⟨?_, halong.2, hreplies.2, hends, h, request, rfl⟩
  rintro rfl
  cases hrequest with
  | begin handshake pubkey_hex => cases handshake
  | attach challenged signature => cases challenged.handshake
  | detach detaching => cases detaching

end Stream

/-- **A dropped pipe is told as the end of the stream exactly when the cut is
clean**, for every call with a request pending, every chunking and every cut
before the last byte of the response. -/
theorem dropped_pipe_iff {X : Crates} (hcut : X.json.Delimited) (hpad : X.json.Padded)
    {env : Environment} (hsends : env.Accepts) {W : Type} {self : LineTransport W}
    (hover : env.Over self) {op : ClientOp} {client : SessionClient} {pre post : ClientHistory}
    {id : UInt64} {request : String}
    (htrace : (env.run (op.program X) client []).1 = pre ++ ⟨.send_frame request, .ok ()⟩ :: post)
    (hrequest : Requests X client op id request pre) {callbacks : List String} {response : String}
    (hstream : PeerStream X id callbacks response) {k : ℕ}
    (hk : k < (LineTransport.lines callbacks).length + json_length response)
    (hitems : (self.after (reads pre)).reader.items
      = ((LineTransport.lines (callbacks ++ [response])).take k).map .byte) :
    (∃ e, (env.run (op.program X) client []).2.1 = .error (.Io e) ∧ e.kind = .UnexpectedEof) ↔
      CleanCut callbacks ((LineTransport.lines (callbacks ++ [response])).take k) := by
  have hpending := pending_of_request hrequest htrace
  generalize (env.run (op.program X) client []).2.1 = out at hpending ⊢
  have hstart : (tally X (pre ++ [⟨.send_frame request, .ok ()⟩])).reads = 0 := by
    rw [tally_snoc, Tally.count_send_of_none hrequest.owed]
  have hreads : reads (pre ++ [⟨.send_frame request, .ok ()⟩]) = reads pre := by
    rw [reads_append]
    rfl
  rw [← hreads] at hitems
  constructor
  · -- a cut that is not clean leaves part of a line, which ends the call in another way
    rintro ⟨e, hout, hkind⟩
    rcases hstream.cut_cases hcut hk with hclean | ⟨i, part, err, hi, hdelivered, hpart, hlen, herr, heof⟩
    · exact hclean
    · obtain ⟨h, post', hpending', hframe, -, -⟩ :=
        hpending.cut hpad hsends hover hstream hstart hi hitems hdelivered hpart hlen
      rw [← hframe] at herr
      have hfailed := hpending'.failed herr
      rw [hout] at hfailed
      exact absurd hkind (heof e (Except.error.inj hfailed).symm)
  · rintro ⟨i, hi, hdelivered | ⟨text, blanks, hnext, hblanks, hdelivered⟩⟩
    · obtain ⟨h, post', hpending', hframe, -, -⟩ := hpending.cut hpad hsends hover hstream hstart hi hitems
        (by rw [hdelivered, List.append_nil]) List.not_mem_nil (by unfold MAX_FRAME_BYTES; decide)
      exact hpending'.eof hframe
    · have hmem : text ++ blanks ∈ callbacks := List.mem_of_getElem? hnext
      have hlt : i < callbacks.length := (List.getElem?_eq_some_iff.mp hnext).1
      have hprefix : as_bytes text <+: as_bytes (text ++ blanks) := by
        rw [as_bytes_append]
        exact List.prefix_append _ _
      obtain ⟨hpart, hlen⟩ := hstream.fits (List.mem_append_left _ hmem) hprefix
      obtain ⟨h, post', hpending', hframe, hrest, htaken⟩ :=
        hpending.cut hpad hsends hover hstream hstart hi hitems hdelivered hpart hlen
      unfold LineTransport.part_of at hframe
      by_cases hnil : as_bytes text = []
      · rw [if_pos hnil] at hframe
        exact hpending'.eof hframe
      · -- the callback is all there: it is answered, and then the stream ends
        rw [if_neg hnil, from_utf8_eq_some.mpr rfl] at hframe
        have hcount := hstream.count
        obtain ⟨h', post'', hpending'', hreads', -⟩ := hpending'.served hsends hframe
          ((hstream.decodable _ hmem).pad hpad hblanks) (by omega)
        refine hpending''.eof ((hover h').trans ?_)
        rw [hreads']
        exact (LineTransport.recv_frame_end _ hrest).1

namespace Reference

/-- The transport of a peer that writes these bytes and hangs up. -/
def pipe (bytes : Bytes) : LineTransport Bytes := ⟨⟨bytes, []⟩, []⟩

def piped (bytes : Bytes) : Environment :=
  environment fun j => (LineTransport.recv_frame ((pipe bytes).after j)).1

theorem piped_over (bytes : Bytes) : (piped bytes).Over (pipe bytes) := by
  have hreads : ∀ (incoming : ℕ → Except Error String) (h : ClientHistory),
      environment incoming h .recv_frame = incoming (reads h) := fun _ _ => rfl
  exact hreads _

/-- A printed text is a line. -/
theorem wire_line_print {j : Json} (hlen : (CompactJson.print j).length < 262144) :
    WireLine (crates.json.to_string j) := by
  have hchars : (crates.json.to_string j).toList = CompactJson.print j := String.toList_ofList
  constructor
  · intro hmem
    rw [hchars] at hmem
    have hprint := CompactJson.printable_iff.mp (CompactJson.printable_print j) '\n' hmem
    exact absurd hprint (by decide)
  · -- no character takes more than four bytes
    have hbytes : ∀ cs : List Char, (cs.flatMap String.utf8EncodeChar).length ≤ 4 * cs.length := by
      intro cs
      induction cs with
      | nil => exact Nat.zero_le _
      | cons c cs ih =>
        have hchar : (String.utf8EncodeChar c).length ≤ 4 := by
          rw [String.length_utf8EncodeChar]
          exact c.utf8Size_le_four
        rw [List.flatMap_cons, List.length_append, List.length_cons]
        omega
    have hle := hbytes (CompactJson.print j)
    rw [as_bytes_eq_flatMap, hchars]
    unfold MAX_FRAME_BYTES
    omega

/-- A `detach` sends its request first. -/
theorem detach_sends {env : Environment} (hsends : env.Accepts) (client : SessionClient)
    (session : Session) : ∃ post, (env.run ((ClientOp.detach session).program crates) client []).1
      = [] ++ ⟨.send_frame (detach_frame crates client.next_id session), .ok ()⟩ :: post := by
  obtain ⟨k, hk⟩ : ∃ k, (ClientOp.detach session).program crates client
      = .vis (.send_frame (detach_frame crates client.next_id session)) k := ⟨_, rfl⟩
  unfold Environment.run
  rw [hk, Proc.exec, hsends]
  exact ⟨_, rfl⟩

theorem piped_accepts (bytes : Bytes) : (piped bytes).Accepts := fun _ _ => rfl

end Reference

/-- **A cut inside a frame**: of the answer to a `detach`, one byte arrives. The
caller is told of a bad frame, and not that the pipe was dropped. -/
theorem dropped_pipe_inside_frame :
    PeerStream Reference.crates 1 [] Reference.ack ∧
      1 < (LineTransport.lines []).length + json_length Reference.ack ∧
      (Reference.piped ((LineTransport.lines [Reference.ack]).take 1)).Accepts ∧
      ((Reference.piped ((LineTransport.lines [Reference.ack]).take 1)).run
        ((ClientOp.detach Reference.session).program Reference.crates) .new []).2.1 = .error .Frame := by
  refine ⟨⟨?_, nofun, Nat.zero_le _, _, Reference.from_str_ack, nofun, rfl⟩, by decide, fun _ _ => rfl, ?_⟩
  · intro text hmem
    rw [List.mem_singleton.mp hmem]
    exact Reference.wire_line_print (by decide)
  have hbrace : (LineTransport.lines [Reference.ack]).take 1 = as_bytes "\x7b" := by decide
  rw [hbrace]
  obtain ⟨post, htrace⟩ := Reference.detach_sends (Reference.piped_accepts (as_bytes "\x7b")) .new
    Reference.session
  refine (pending_of_request (.detach rfl) htrace).failed ?_
  -- the byte that is left makes a frame, which does not parse
  have hpart : NEWLINE ∉ as_bytes "\x7b" ∧ (as_bytes "\x7b").length < MAX_FRAME_BYTES := by
    unfold MAX_FRAME_BYTES
    decide
  obtain ⟨hframe, -⟩ := LineTransport.recv_frame_part
    (Reference.pipe (as_bytes "\x7b")) (List.append_nil _) hpart.1 hpart.2
  have hread : LineTransport.part_of (as_bytes "\x7b") = .ok "\x7b" := by decide
  have hfail : read_error Reference.crates (.ok "\x7b") = some .Frame := by decide
  rw [Reference.piped_over]
  exact (congrArg (read_error Reference.crates) (hframe.trans hread)).trans hfail

/-- The pipe drops after a callback, which is answered. -/
theorem dropped_pipe_iff_boundary :
    ∃ e, ((Reference.piped (LineTransport.lines [callback_frame Reference.crates 7 Reference.spend])).run
        ((ClientOp.detach Reference.session).program Reference.crates) .new []).2.1 = .error (.Io e) ∧
      e.kind = .UnexpectedEof := by
  have hX := Reference.faithful.json
  have hcallback : DecodableCallback Reference.crates (callback_frame Reference.crates 7 Reference.spend) := by
    refine ⟨callback_read 7 Reference.spend, ?_, ?_⟩
    · exact callback_of_eq_some.mpr ⟨from_str_callback_frame hX 7 Reference.spend trivial, rfl⟩
    · rw [callback_params_read]
      rfl
  generalize hline : callback_frame Reference.crates 7 Reference.spend = line at hcallback ⊢
  have hstream : PeerStream Reference.crates 1 [line] Reference.ack := by
    refine ⟨?_, by simpa using hcallback, Nat.one_le_iff_ne_zero.mpr nofun, _, Reference.from_str_ack, nofun, rfl⟩
    intro text hmem
    rcases List.mem_cons.mp hmem with rfl | hmem
    · exact hline ▸ Reference.wire_line_print (by decide +kernel)
    · exact List.mem_singleton.mp hmem ▸ Reference.wire_line_print (by decide)
  have htake : (LineTransport.lines ([line] ++ [Reference.ack])).take (LineTransport.lines [line]).length
      = LineTransport.lines [line] := by
    unfold LineTransport.lines
    rw [List.flatMap_append, List.take_left]
  have hack : 0 < json_length Reference.ack := by decide
  obtain ⟨post, htrace⟩ := Reference.detach_sends
    (Reference.piped_accepts (LineTransport.lines [line])) .new Reference.session
  refine (dropped_pipe_iff CompactJson.codec_delimited CompactJson.codec_padded
    (Reference.piped_accepts _) (Reference.piped_over _) htrace (.detach rfl) hstream
    (Nat.lt_add_of_pos_right hack) ?_).mpr ?_
  · rw [htake]
    exact List.append_nil _
  · rw [htake]
    exact ⟨1, le_rfl, Or.inl rfl⟩

end DigIpc
