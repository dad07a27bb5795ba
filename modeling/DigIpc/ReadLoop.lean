/-
The read loop against a sequence of frames.

`Serving done` is the loop invariant: the frames `done` have come in, all of them
callbacks with decodable parameters, each has had its reply, in order, and
nothing else has happened to the wire since the request. `LoopEnds` says how the
loop leaves that invariant; `call_trace` is the induction, once, for every
environment. What the claims need follows from comparing `done` with the frames
that the environment was going to deliver.
-/
import DigIpc.CallbackOutcome

set_option autoImplicit false

open Interaction Serde
open StdIo (Error ErrorKind)

namespace DigIpc

/-! ## Frames and replies -/

section Frames

variable (X : Crates)

/-- The text of a callback with decodable parameters. -/
def DecodableCallback (raw : String) : Prop :=
  ∃ frame, callback_of X raw = some frame ∧ (callback_params frame).isSome

/-- `reply` answers the callback `raw`. -/
def Answers (raw reply : String) : Prop :=
  ∃ frame outcome, callback_of X raw = some frame ∧
    reply = CallbackReply.text X (reply_id frame) outcome

/-- What a call for `decode` makes of the frame that is not a callback. -/
def outcome_of {α : Type} (decode : Json → Option α) (awaited_id : UInt64) (raw : String) :
    Except SessionError α :=
  match IncomingFrame.from_str X raw with
  | none => .error .Frame
  | some frame => response_of decode awaited_id frame

theorem outcome_of_unparsed {α : Type} (decode : Json → Option α) (awaited_id : UInt64)
    {raw : String} (hparse : IncomingFrame.from_str X raw = none) :
    outcome_of X decode awaited_id raw = .error .Frame := by
  unfold outcome_of
  rw [hparse]

theorem outcome_of_parsed {α : Type} (decode : Json → Option α) (awaited_id : UInt64)
    {raw : String} {frame : IncomingFrame} (hparse : IncomingFrame.from_str X raw = some frame) :
    outcome_of X decode awaited_id raw = response_of decode awaited_id frame := by
  unfold outcome_of
  rw [hparse]

/-- The environment delivers these frames, in order, as long as there are any. -/
def Environment.Delivers (env : Environment) (frames : ℕ → Option String) : Prop :=
  ∀ h raw, frames (reads h) = some raw → env h .recv_frame = .ok raw

end Frames

@[simp] theorem frames_sent_append (h h' : ClientHistory) :
    frames_sent (h ++ h') = frames_sent h ++ frames_sent h' := List.filterMap_append

@[simp] theorem frames_read_append (h h' : ClientHistory) :
    frames_read (h ++ h') = frames_read h ++ frames_read h' := List.filterMap_append

@[simp] theorem reads_append (h h' : ClientHistory) : reads (h ++ h') = reads h + reads h' :=
  List.countP_append

/-- Servicing a callback reads nothing. -/
theorem ServiceEvent.not_read {X : Crates} {frame : IncomingFrame} {h : ClientHistory} {e : SeamEvent}
    (he : ServiceEvent X frame h e) :
    reads (h ++ [e]) = reads h ∧ frames_read (h ++ [e]) = frames_read h := by
  rw [reads_append, frames_read_append]
  cases he <;> exact ⟨rfl, List.append_nil _⟩

/-! ## The loop -/

section Loop

variable (X : Crates) (env : Environment) (frames : ℕ → Option String) (request : String)

/-- **The loop invariant**: the request and then one reply for each frame of
`done` have gone out, and nothing but `done` has come in. -/
structure Serving (done : List String) (h : ClientHistory) : Prop where
  sent : ∃ replies, frames_sent h = request :: replies ∧ List.Forall₂ (Answers X) done replies
  read : frames_read h = done
  count : reads h = done.length
  callbacks : ∀ raw ∈ done, DecodableCallback X raw
  delivered : ∀ (j : ℕ) (hj : j < done.length) (raw : String), frames j = some raw → done[j] = raw
  bound : done.length ≤ MAX_INTERLEAVED_CALLBACKS

/-- After `done`, the loop stops at what it reads next, with this outcome. -/
inductive Stops {α : Type} (decode : Json → Option α) (awaited_id : UInt64) (done : List String) :
    Except Error String → Except SessionError α → Prop
  | decided {raw : String} (other : callback_of X raw = none) :
      Stops decode awaited_id done (.ok raw) (outcome_of X decode awaited_id raw)
  | flooded {raw : String} (callback : (callback_of X raw).isSome)
      (full : done.length = MAX_INTERLEAVED_CALLBACKS) :
      Stops decode awaited_id done (.ok raw) (.error .TooManyCallbacks)
  | undecodable {raw : String} {frame : IncomingFrame} (callback : callback_of X raw = some frame)
      (params : callback_params frame = none) : Stops decode awaited_id done (.ok raw) (.error .Frame)
  | unread {e : Error} : Stops decode awaited_id done (.error e) (.error (.Io e))

/-- How the loop ends, against the environment. -/
inductive LoopEnds {α : Type} (decode : Json → Option α) (awaited_id : UInt64) :
    Except SessionError α → ClientHistory → Prop
  | read {done : List String} {r : Except Error String} {out : Except SessionError α}
      {h : ClientHistory} (serving : Serving X frames request done h)
      (reply : env h .recv_frame = r) (stops : Stops X decode awaited_id done r out) :
      LoopEnds decode awaited_id out (h ++ [⟨.recv_frame, r⟩])
  | unsent {text : String} {e : Error} {h : ClientHistory}
      (count : reads h ≤ MAX_INTERLEAVED_CALLBACKS)
      (reply : env h (.send_frame text) = .error e) :
      LoopEnds decode awaited_id (.error (.Io e)) (h ++ [⟨.send_frame text, .error e⟩])

end Loop

section Trace

variable {X : Crates} {env : Environment} {frames : ℕ → Option String} {request : String}
  {done : List String} {h : ClientHistory}

/-- A callback read and answered extends `done`. -/
theorem Serving.next (hserving : Serving X frames request done h)
    (hroom : done.length < MAX_INTERLEAVED_CALLBACKS) {raw : String} {frame : IncomingFrame}
    {params : SignCallbackParams} (hcallback : callback_of X raw = some frame)
    (hdecoded : callback_params frame = some params)
    (hdelivered : ∀ raw', frames done.length = some raw' → raw = raw') {tr : ClientHistory}
    {reply : CallbackReply} (hreads : reads tr = 0) (hread : frames_read tr = [])
    (hsent : frames_sent tr = [CallbackReply.text X (reply_id frame) reply]) :
    Serving X frames request (done ++ [raw]) (h ++ [⟨.recv_frame, .ok raw⟩] ++ tr) := by
  obtain ⟨replies, hrequest, hanswers⟩ := hserving.sent
  have hanswer : Answers X raw (CallbackReply.text X (reply_id frame) reply) :=
    ⟨frame, reply, hcallback, rfl⟩
  constructor
  · refine ⟨replies ++ [CallbackReply.text X (reply_id frame) reply], ?_, ?_⟩
    · rw [frames_sent_append, frames_sent_append, hrequest, hsent]
      simp [frames_sent]
    · exact List.rel_append hanswers (.cons hanswer .nil)
  · rw [frames_read_append, frames_read_append, hserving.read, hread, List.append_nil]
    rfl
  · rw [reads_append, reads_append, hserving.count, hreads, List.length_append]
    rfl
  · intro raw' hmem
    rcases List.mem_append.mp hmem with hmem | hmem
    · exact hserving.callbacks raw' hmem
    · rw [List.mem_singleton.mp hmem]
      exact ⟨frame, hcallback, by rw [hdecoded]; rfl⟩
  · intro j hj raw' hframe
    by_cases hlt : j < done.length
    · rw [List.getElem_append_left hlt]
      exact hserving.delivered j hlt raw' hframe
    · have hlast : j = done.length := by
        rw [List.length_append, List.length_singleton] at hj
        omega
      subst hlast
      rw [List.getElem_concat_length rfl]
      exact hdelivered raw' hframe
  · rw [List.length_append, List.length_singleton]
    exact hroom

variable {α : Type} (decode : Json → Option α) (awaited_id : UInt64) (client : SessionClient)

/-- Servicing one callback keeps the invariant, unless its parameters are bad or
the transport fails. -/
theorem Serving.service (hserving : Serving X frames request done h)
    (hdelivers : env.Delivers frames) (hroom : done.length < MAX_INTERLEAVED_CALLBACKS)
    {raw : String} {frame : IncomingFrame} (hreply : env h .recv_frame = .ok raw)
    (hparse : IncomingFrame.from_str X raw = some frame)
    (hmethod : frame.method = some METHOD_SIGN) :
    Spec env.Rely (fun _ _ => True) (service_sign_callback X frame) client
      (fun out client' h' => client' = client ∧ match out with
        | .ok _ => Serving X frames request (done ++ [raw]) h'
        | .error e => LoopEnds X env frames request decode awaited_id (.error e) h')
      (h ++ [⟨.recv_frame, .ok raw⟩]) := by
  have hcallback : callback_of X raw = some frame := callback_of_eq_some.mpr ⟨hparse, hmethod⟩
  -- servicing reads nothing: after it there is the one read before it
  have hservice := Proc.wp_invariant
    (I := fun h' => reads h' = reads h + 1 ∧ frames_read h' = frames_read h ++ [raw])
    (fun h' e hI _ he => by rw [he.not_read.1, he.not_read.2]; exact hI)
    (show _ ∧ _ by rw [reads_append, frames_read_append]; exact ⟨rfl, rfl⟩)
    (service_sign_callback_spec (R := env.Rely) client ⟨h, raw, rfl, hparse⟩ hmethod)
  refine Proc.wp_mono (fun _ _ => id) (fun _ _ _ => trivial) ?_ hservice
  rintro ⟨out, client'⟩ h' ⟨⟨hreads, hread⟩, rfl, hserved⟩
  refine ⟨rfl, ?_⟩
  cases hserved with
  | undecodable params => exact .read hserving hreply (.undecodable hcallback params)
  | @io params h₁ text decision e decoded replies failed =>
    -- the sends of this environment may fail
    refine .unsent ?_ failed.symm
    have hcount : reads h₁ = reads h + 1 := by
      rw [reads_append] at hreads
      exact hreads
    rw [hcount, hserving.count]
    exact hroom
  | @replied params h₁ text decision decoded replies accepted =>
    obtain ⟨tr, reply, htr, hsent, -, -⟩ := replies.agrees
    rw [htr, reads_append, reads_append] at hreads
    rw [htr, frames_read_append, frames_read_append] at hread
    rw [htr]
    have hcount : reads tr = 0 := by
      have hone : reads [⟨.recv_frame, .ok raw⟩] = 1 := rfl
      omega
    have hnone : frames_read tr = [] := List.append_right_eq_self.mp hread
    refine hserving.next hroom hcallback decoded ?_ hcount hnone hsent
    intro raw' hframe
    rw [← hserving.count] at hframe
    rw [hdelivers h raw' hframe] at hreply
    exact (Except.ok.inj hreply).symm

/-- **The loop**, by its invariant. -/
theorem read_response_trace (hdelivers : env.Delivers frames)
    (hserving : Serving X frames request [] h) :
    Spec env.Rely (fun _ _ => True) (read_response X decode awaited_id) client
      (fun out client' h' => client' = client ∧ LoopEnds X env frames request decode awaited_id out h') h := by
  -- what is answered so far, and how many more may be
  let I : ℕ → ClientHistory → Prop := fun n h' =>
    ∃ done, Serving X frames request done h' ∧ done.length + n = MAX_INTERLEAVED_CALLBACKS
  refine spec_read_response_loop I (fun _ _ _ _ _ => trivial) ?_ ?_ ?_ ?_ ?_
    MAX_INTERLEAVED_CALLBACKS h ⟨[], hserving, Nat.zero_add _⟩
  · rintro n h' e ⟨done, hserving, -⟩ hr
    exact ⟨rfl, .read hserving hr.symm .unread⟩
  · rintro n h' raw ⟨done, hserving, -⟩ hr hparse
    have hother : callback_of X raw = none := by
      unfold callback_of
      rw [hparse]
      rfl
    rw [← outcome_of_unparsed X decode awaited_id hparse]
    exact ⟨rfl, .read hserving hr.symm (.decided hother)⟩
  · rintro n h' raw frame ⟨done, hserving, -⟩ hr hparse hmethod
    rw [← outcome_of_parsed X decode awaited_id hparse]
    exact ⟨rfl, .read hserving hr.symm (.decided (callback_of_eq_none hparse hmethod))⟩
  · rintro h' raw frame ⟨done, hserving, hfull⟩ hr hparse hmethod
    have hcallback : callback_of X raw = some frame := callback_of_eq_some.mpr ⟨hparse, hmethod⟩
    exact ⟨rfl, .read hserving hr.symm (.flooded (by rw [hcallback]; rfl) hfull)⟩
  · rintro n h' raw frame ⟨done, hserving, hbudget⟩ hr hparse hmethod
    have hservice := hserving.service decode awaited_id client hdelivers (by omega) hr.symm hparse
      hmethod
    refine spec_post hservice fun out client' h'' hout => ?_
    obtain ⟨rfl, hout⟩ := hout
    refine ⟨rfl, ?_⟩
    cases out with
    | error e => exact ⟨rfl, hout⟩
    | ok decision =>
      refine ⟨done ++ [raw], hout, ?_⟩
      rw [List.length_append, List.length_singleton]
      omega

/-- **A whole call**: its request, and the loop. -/
theorem call_trace (hdelivers : env.Delivers frames) (method : String) (params : Json) :
    Spec env.Rely (fun _ _ => True) (call X decode method params) client
      (fun out client' h' => client' = { next_id := client.next_id + 1 } ∧
        LoopEnds X env frames (request_frame X client.next_id method params) decode client.next_id
          out h') [] := by
  unfold call
  rw [spec_bind, spec_take_id]
  simp only
  rw [spec_bind]
  refine spec_send_frame (fun _ _ => trivial) (fun _ => ?_) (fun e hr => ?_)
  · refine read_response_trace decode client.next_id _ hdelivers ⟨⟨[], rfl, .nil⟩, rfl, rfl, ?_, ?_, Nat.zero_le _⟩
    · intro raw hmem
      cases hmem
    · intro j hj
      cases hj
  · exact ⟨rfl, .unsent (Nat.zero_le _) hr.symm⟩

end Trace

/-! ## What the deciding frame decides -/

/-- The outcome of a call, told by the frame that is not a callback. -/
structure DecidedBy (X : Crates) {α : Type} (decode : Json → Option α) (awaited_id : UInt64)
    (raw : String) (out : Except SessionError α) : Prop where
  ok : ∀ a, out = .ok a ↔ ∃ frame result, IncomingFrame.from_str X raw = some frame ∧
    frame.id_u64 = some awaited_id ∧ frame.error = none ∧ frame.result = some result ∧
    decode result.tree = some a
  engine : ∀ code message, out = .error (.Engine code message) ↔ ∃ frame,
    IncomingFrame.from_str X raw = some frame ∧ frame.id_u64 = some awaited_id ∧
    frame.error = some { code, message }
  mismatch : out = .error .IdMismatch ↔ ∃ frame, IncomingFrame.from_str X raw = some frame ∧
    frame.id_u64 ≠ some awaited_id
  malformed : out = .error .MalformedResponse ↔ ∃ frame, IncomingFrame.from_str X raw = some frame ∧
    frame.id_u64 = some awaited_id ∧ frame.error = none ∧ frame.result = none
  frame : out = .error .Frame ↔ IncomingFrame.from_str X raw = none ∨ ∃ frame result,
    IncomingFrame.from_str X raw = some frame ∧ frame.id_u64 = some awaited_id ∧
    frame.error = none ∧ frame.result = some result ∧ decode result.tree = none

/-- **The outcome is decided by that frame alone.** -/
theorem decided_by_outcome (X : Crates) {α : Type} (decode : Json → Option α) (awaited_id : UInt64)
    (raw : String) : DecidedBy X decode awaited_id raw (outcome_of X decode awaited_id raw) := by
  cases hparse : IncomingFrame.from_str X raw with
  | none =>
    rw [outcome_of_unparsed X decode awaited_id hparse]
    constructor <;> simp [hparse]
  | some frame =>
    rw [outcome_of_parsed X decode awaited_id hparse]
    unfold response_of
    by_cases hid : frame.id_u64 = some awaited_id
    case neg =>
      rw [if_pos hid]
      constructor <;> simp [hparse, hid]
    rw [if_neg (not_not.mpr hid)]
    cases herror : frame.error with
    | some error =>
      obtain ⟨code, message⟩ := error
      constructor <;> simp [hparse, hid, herror]
    | none =>
      cases hresult : frame.result with
      | none => constructor <;> simp [hparse, hid, herror, hresult]
      | some result =>
        simp only
        cases hdecode : decode result.tree with
        | none => constructor <;> simp [hparse, hid, herror, hresult, hdecode]
        | some a => constructor <;> simp [hparse, hid, herror, hresult, hdecode]

/-! ## Against a sequence of frames -/

section Sequence

variable {X : Crates} {env : Environment} {frames : ℕ → Option String} {request : String}
  {done callbacks : List String} {h : ClientHistory}

/-- The frames that come first. -/
def Leading (frames : ℕ → Option String) (callbacks : List String) : Prop :=
  ∀ (j : ℕ) (hj : j < callbacks.length), frames j = some callbacks[j]

/-- What has come in are the first of them. -/
theorem Serving.eq_take (hserving : Serving X frames request done h)
    (hlead : Leading frames callbacks) (hle : done.length ≤ callbacks.length) :
    done = callbacks.take done.length := by
  refine List.ext_getElem ?_ fun j hj hj' => ?_
  · rw [List.length_take, Nat.min_eq_left hle]
  · rw [List.getElem_take]
    exact hserving.delivered j hj _ (hlead j (by omega))

/-- And the next one is next. -/
theorem Serving.next_frame (hserving : Serving X frames request done h)
    (hdelivers : env.Delivers frames) (hlead : Leading frames callbacks)
    (hlt : done.length < callbacks.length) :
    env h .recv_frame = .ok callbacks[done.length] := by
  refine hdelivers h _ ?_
  rw [hserving.count]
  exact hlead _ hlt

/-- Where the first frames are callbacks and the next is not, the loop either has
them all, or is about to read one of them. -/
theorem Serving.cases (hserving : Serving X frames request done h) (hdelivers : env.Delivers frames)
    (hlead : Leading frames callbacks) (hcallbacks : ∀ raw ∈ callbacks, DecodableCallback X raw)
    {raw : String} (hnext : frames callbacks.length = some raw) (hother : callback_of X raw = none) :
    (done = callbacks ∧ env h .recv_frame = .ok raw) ∨
      done.length < callbacks.length ∧
        ∃ callback, DecodableCallback X callback ∧ env h .recv_frame = .ok callback := by
  rcases Nat.lt_trichotomy done.length callbacks.length with hlt | heq | hgt
  · refine Or.inr ⟨hlt, callbacks[done.length], ?_, hserving.next_frame hdelivers hlead hlt⟩
    exact hcallbacks _ (List.getElem_mem hlt)
  · refine Or.inl ⟨?_, hdelivers h raw ?_⟩
    · rw [hserving.eq_take hlead heq.le, heq, List.take_length]
    · rw [hserving.count, heq, hnext]
  · -- then the frame that is no callback would have been answered
    have hraw : done[callbacks.length] = raw := hserving.delivered _ hgt _ hnext
    obtain ⟨frame, hcallback, -⟩ := hserving.callbacks raw (hraw ▸ List.getElem_mem hgt)
    rw [hother] at hcallback
    cases hcallback

variable {α : Type} {decode : Json → Option α} {awaited_id : UInt64} {out : Except SessionError α}

/-- At a frame that is not a callback, the loop stops, decided by it. -/
theorem Stops.other {raw : String} (hstops : Stops X decode awaited_id done (.ok raw) out)
    (hother : callback_of X raw = none) : out = outcome_of X decode awaited_id raw := by
  cases hstops with
  | decided other => rfl
  | flooded callback full =>
    rw [hother] at callback
    cases callback
  | undecodable callback params =>
    rw [hother] at callback
    cases callback

/-- At a callback with decodable parameters, only its budget stops the loop. -/
theorem Stops.decodable {raw : String} (hstops : Stops X decode awaited_id done (.ok raw) out)
    (hdecodable : DecodableCallback X raw) :
    done.length = MAX_INTERLEAVED_CALLBACKS ∧ out = .error .TooManyCallbacks := by
  obtain ⟨frame, hcallback, hparams⟩ := hdecodable
  cases hstops with
  | decided other =>
    rw [hcallback] at other
    cases other
  | flooded callback full => exact ⟨full, rfl⟩
  | undecodable callback params =>
    rw [hcallback] at callback
    rw [Option.some.inj callback, params] at hparams
    cases hparams

/-- No loop awaits more frames than its budget and one. -/
theorem LoopEnds.count_le (hends : LoopEnds X env frames request decode awaited_id out h) :
    reads h ≤ MAX_INTERLEAVED_CALLBACKS + 1 := by
  cases hends with
  | @read done r out h serving reply stops =>
    have hbound := serving.bound
    have hone : reads [⟨.recv_frame, r⟩] = 1 := rfl
    rw [reads_append, serving.count, hone]
    omega
  | @unsent text e h count reply =>
    have hnone : reads [⟨.send_frame text, .error e⟩] = 0 := rfl
    rw [reads_append, hnone]
    omega

/-- What is on the wire when the loop stops at a frame it has read. -/
theorem Serving.wire (hserving : Serving X frames request done h) (raw : String) :
    ∃ replies, frames_sent (h ++ [⟨.recv_frame, .ok raw⟩]) = request :: replies ∧
      List.Forall₂ (Answers X) done replies ∧
      frames_read (h ++ [⟨.recv_frame, .ok raw⟩]) = done ++ [raw] ∧
      reads (h ++ [⟨.recv_frame, .ok raw⟩]) = done.length + 1 := by
  obtain ⟨replies, hrequest, hanswers⟩ := hserving.sent
  refine ⟨replies, ?_, hanswers, ?_, ?_⟩
  · rw [frames_sent_append, hrequest]
    exact List.append_nil _
  · rw [frames_read_append, hserving.read]
    rfl
  · rw [reads_append, hserving.count]
    rfl

end Sequence

/-- **The read loop is bounded, ordered and decided by one frame.** Sends succeed,
and the leading `callbacks` are callbacks with decodable parameters. If there are
at most 64 of them and another frame follows, which is no callback, then the call
answers them in order and that frame decides; if there are more, the first 64 are
answered. No call, against any environment, awaits more than 65 frames. -/
theorem read_loop_decided (X : Crates) {α : Type} (decode : Json → Option α) (method : String)
    (params : Json) (client : SessionClient) :
    (∀ (env : Environment) (frames : ℕ → Option String) (callbacks : List String),
      env.Accepts → env.Delivers frames → Leading frames callbacks →
      (∀ raw ∈ callbacks, DecodableCallback X raw) →
      (∀ raw, callbacks.length ≤ MAX_INTERLEAVED_CALLBACKS → frames callbacks.length = some raw →
        callback_of X raw = none →
        ∃ tr out replies, env.run (call X decode method params) client []
            = (tr, out, { next_id := client.next_id + 1 }) ∧
          frames_sent tr = request_frame X client.next_id method params :: replies ∧
          List.Forall₂ (Answers X) callbacks replies ∧
          frames_read tr = callbacks ++ [raw] ∧ reads tr = callbacks.length + 1 ∧
          DecidedBy X decode client.next_id raw out) ∧
      (callbacks.length = MAX_INTERLEAVED_CALLBACKS + 1 →
        ∃ tr replies, env.run (call X decode method params) client []
            = (tr, .error .TooManyCallbacks, { next_id := client.next_id + 1 }) ∧
          frames_sent tr = request_frame X client.next_id method params :: replies ∧
          List.Forall₂ (Answers X) (callbacks.take MAX_INTERLEAVED_CALLBACKS) replies ∧
          frames_read tr = callbacks ∧ reads tr = MAX_INTERLEAVED_CALLBACKS + 1)) ∧
    ∀ env : Environment, reads (env.run (call X decode method params) client []).1
      ≤ MAX_INTERLEAVED_CALLBACKS + 1 := by
  constructor
  · intro env frames callbacks hsends hdelivers hlead hcallbacks
    have htrace := env.run_spec (call_trace decode client hdelivers method params (X := X))
    generalize env.run (call X decode method params) client [] = ran at htrace ⊢
    obtain ⟨tr, out, client'⟩ := ran
    obtain ⟨rfl, hends⟩ := htrace
    rw [List.nil_append] at hends
    simp only at hends
    cases hends with
    | @unsent text e h count reply =>
      rw [hsends h text] at reply
      cases reply
    | @read done r out h serving reply stops =>
      constructor
      · intro raw hle hnext hother
        rcases serving.cases hdelivers hlead hcallbacks hnext hother with
          ⟨rfl, hraw⟩ | ⟨hlt, callback, hcallback, hreply⟩
        · obtain rfl := reply.symm.trans hraw
          obtain rfl := stops.other hother
          obtain ⟨replies, hsent, hanswers, hread, hcount⟩ := serving.wire raw
          exact ⟨_, _, replies, rfl, hsent, hanswers, hread, hcount, decided_by_outcome X decode _ raw⟩
        · -- one of the callbacks stops the loop only past the budget
          obtain rfl := reply.symm.trans hreply
          obtain ⟨hfull, -⟩ := stops.decodable hcallback
          omega
      · intro hlen
        -- one more callback than may be answered is there, so the loop stops at it
        have hbound := serving.bound
        have hlt : done.length < callbacks.length := by omega
        obtain rfl := reply.symm.trans (serving.next_frame hdelivers hlead hlt)
        obtain ⟨hfull, rfl⟩ := stops.decodable (hcallbacks _ (List.getElem_mem hlt))
        obtain ⟨replies, hsent, hanswers, hread, hcount⟩ := serving.wire callbacks[done.length]
        have htake := serving.eq_take hlead hlt.le
        refine ⟨_, replies, rfl, hsent, ?_, ?_, ?_⟩
        · rw [← hfull, ← htake]
          exact hanswers
        · rw [hread]
          nth_rewrite 1 [htake]
          rw [List.take_append_getElem hlt, List.take_of_length_le (by omega)]
        · rw [hcount, hfull]
  · intro env
    have hnone : env.Delivers fun _ => none := nofun
    have htrace := env.run_spec (call_trace decode client hnone method params (X := X))
    have hcount := htrace.2.count_le
    rwa [List.nil_append] at hcount

theorem Reference.delivers (texts : List String) :
    (Reference.delivering texts).Delivers fun j => texts[j]? := by
  intro h raw hraw
  have hframe : texts[reads h]? = some raw := hraw
  show ((texts[reads h]?).elim _ _ : Except Error String) = _
  rw [hframe]
  rfl

/-- One callback, and then the acknowledgement of a `detach`. -/
theorem read_loop_decided_detach :
    let ack := result_frame Reference.crates (Value.of (ofU64 1)) (DetachResult.encode {})
    let callback := callback_frame Reference.crates 7 Reference.spend
    ∃ tr reply, (Reference.delivering [callback, ack]).run (call Reference.crates DetachResult.decode
        METHOD_DETACH (DetachParams.mk "session").encode) .new []
        = (tr, .ok {}, { next_id := 2 }) ∧
      frames_sent tr = [detach_frame Reference.crates 1 ⟨"session", [], "did"⟩, reply] ∧
      frames_read tr = [callback, ack] := by
  intro ack callback
  have hX := Reference.faithful.json
  have hread : IncomingFrame.from_str Reference.crates ack = some
      { id := some (Value.of (ofU64 1)), method := none, params := none,
        result := some (Value.of (DetachResult.encode {})), error := none } := by
    exact Reference.from_str_ack
  have hcallback : DecodableCallback Reference.crates callback := by
    refine ⟨callback_read 7 Reference.spend, ?_, ?_⟩
    · exact callback_of_eq_some.mpr ⟨from_str_callback_frame hX 7 Reference.spend trivial, rfl⟩
    · rw [callback_params_read]
      rfl
  have hdelivers := Reference.delivers [callback, ack]
  have hlead : Leading (fun j => [callback, ack][j]?) [callback] := by
    intro j hj
    obtain rfl : j = 0 := Nat.lt_one_iff.mp hj
    rfl
  obtain ⟨tr, out, replies, hrun, hsent, hanswers, hframes, -, hdecided⟩ :=
    ((read_loop_decided Reference.crates DetachResult.decode METHOD_DETACH
      (DetachParams.mk "session").encode .new).1 _ _ [callback] (fun _ _ => rfl) hdelivers hlead
      (by simpa using hcallback)).1 ack (by decide) rfl (callback_of_eq_none hread nofun)
  have hout : out = .ok {} := (hdecided.ok {}).mpr ⟨_, _, hread, rfl, rfl, rfl, rfl⟩
  obtain ⟨reply, rfl⟩ := List.length_eq_one_iff.mp hanswers.length_eq.symm
  rw [hout] at hrun
  exact ⟨tr, reply, hrun, hsent, hframes⟩

end DigIpc
