/-
The system again, with pipes for connections.

`DigIpc.Network` has a queue of frames in either direction. Here either end of a
connection is a `LineTransport`, what one has written arrives at the other some
bytes at a time, and a `recv_frame` that finds no whole line there blocks until
it does. `Carries` relates the two: the bytes that the receiver has not taken
yet, buffered, readable or still on their way, are the lines of the frames in the
queue. Every step keeps it, so every run over pipes is a run over queues
(`pipes_refine`), and what is true of all of these is true of it. The other way
round, a run over queues is one over pipes in which all that is written arrives at
once (`queues_realised`).
-/
import DigIpc.NetworkTraces
import DigIpc.TransportFraming
import DigIpc.DroppedPipe

set_option autoImplicit false

open Interaction Serde StdIo

namespace DigIpc

/-! ## One direction -/

/-- A frame that a transport takes: one line, and not too long. -/
structure Fits (frame : String) : Prop where
  one_line : OneLine frame
  size : (as_bytes frame).length < MAX_FRAME_BYTES

namespace LineTransport

/-- What the sender has written and the receiver has not taken is the lines of
these frames. -/
structure Carries (sender receiver : LineTransport Bytes) (frames : List String) : Prop where
  bytes : receiver.reader.items ++ sender.writer.map .byte = (lines frames).map .byte
  fits : ∀ frame ∈ frames, Fits frame

variable {sender receiver : LineTransport Bytes} {frames : List String}

@[simp] theorem send_frame_bytes (self : LineTransport Bytes) (frame : String) :
    send_frame self frame
      = (.ok (), { self with writer := self.writer ++ as_bytes frame ++ [NEWLINE] }) := rfl

theorem recv_limited_writer {W : Type} (limit : ℕ) (self : LineTransport W) :
    (recv_limited limit self).2.writer = self.writer := by
  unfold recv_limited
  split <;> rfl

theorem recv_frame_writer {W : Type} (self : LineTransport W) :
    (recv_frame self).2.writer = self.writer := recv_limited_writer _ self

/-- Sending adds a frame. -/
theorem Carries.send (h : Carries sender receiver frames) {frame : String} (hfits : Fits frame)
    {result : Except Error Unit} {sender' : LineTransport Bytes}
    (hsend : send_frame sender frame = (result, sender')) :
    result = .ok () ∧ Carries sender' receiver (frames ++ [frame]) := by
  rw [send_frame_bytes] at hsend
  obtain ⟨rfl, rfl⟩ := Prod.mk.inj hsend
  refine ⟨rfl, ?_, List.forall_mem_append.mpr ⟨h.fits, List.forall_mem_singleton.mpr hfits⟩⟩
  have hlines : lines (frames ++ [frame]) = lines frames ++ (as_bytes frame ++ [NEWLINE]) := by
    simp [lines]
  rw [hlines, @List.map_append _ _ _ (lines frames), ← h.bytes]
  simp

/-- **Receiving takes the first frame**, as soon as its newline has arrived. -/
theorem Carries.recv (h : Carries sender receiver frames) (hline : NEWLINE ∈ receiver.rest)
    {result : Except Error String} {receiver' : LineTransport Bytes}
    (hrecv : recv_frame receiver = (result, receiver')) :
    ∃ frame rest, frames = frame :: rest ∧ result = .ok frame ∧ Carries sender receiver' rest := by
  obtain ⟨hbytes, hfits⟩ := h
  cases frames with
  | nil =>
    have hempty : receiver.reader.items = [] := (List.append_eq_nil_iff.mp hbytes).1
    rw [rest, hempty] at hline
    cases hline
  | cons frame rest =>
    have hone := (hfits frame List.mem_cons_self).one_line
    have hnotin := newline_notMem_as_bytes hone.no_newline
    have hsplit : receiver.reader.items ++ sender.writer.map .byte
        = (as_bytes frame ++ [NEWLINE]).map .byte ++ (lines rest).map .byte := by
      rw [hbytes, ← List.map_append]
      rfl
    -- the newline is there, so the line before it is too: what is still on its way
    -- begins behind it
    obtain ⟨items, hitems, hmore⟩ : ∃ items, receiver.reader.items
          = (as_bytes frame ++ [NEWLINE]).map .byte ++ items ∧
        items ++ sender.writer.map .byte = (lines rest).map .byte := by
      rcases List.append_eq_append_iff.mp hsplit with ⟨more, hline', hrest⟩ | ⟨items, hitems, hmore⟩
      · rcases List.eq_nil_or_concat more with rfl | ⟨more, last, rfl⟩
        · rw [List.append_nil] at hline'
          exact ⟨[], by rw [hline', List.append_nil], hrest⟩
        · exfalso
          rw [List.map_append, List.concat_eq_append, ← List.append_assoc] at hline'
          have hbody := congrArg bytesOf (List.append_inj' hline' rfl).1
          rw [bytesOf_map_byte, bytesOf_append] at hbody
          exact hnotin (by rw [hbody]; exact List.mem_append_left _ hline)
      · exact ⟨items, hitems, hmore.symm⟩
    obtain ⟨hresult, hleft⟩ := recv_frame_line receiver frame hitems hnotin
      (hfits frame List.mem_cons_self).size
    rw [hone.trim, hrecv] at hresult
    rw [hrecv] at hleft
    have hfits' : ∀ frame' ∈ rest, Fits frame' := fun frame' hframe' =>
      hfits frame' (List.mem_cons_of_mem _ hframe')
    exact ⟨frame, rest, rfl, hresult, by rw [hleft]; exact hmore, hfits'⟩

/-- Some bytes arrive. -/
def arrive (self : LineTransport Bytes) (b : UInt8) (bs : Bytes) : LineTransport Bytes :=
  { self with reader := { self.reader with source := self.reader.source ++ [.data b bs] } }

theorem arrive_items (self : LineTransport Bytes) (b : UInt8) (bs : Bytes) :
    (self.arrive b bs).reader.items = self.reader.items ++ (b :: bs).map .byte := by
  simp [arrive, BufReader.items, Read.items]

/-- Arriving takes nothing away. -/
theorem Carries.arrive (h : Carries sender receiver frames) {b : UInt8} {bs more : Bytes}
    (hwritten : sender.writer = b :: bs ++ more) :
    Carries { sender with writer := more } (receiver.arrive b bs) frames := by
  refine ⟨?_, h.fits⟩
  rw [← h.bytes, arrive_items, hwritten, List.map_append, List.append_assoc]

/-! What the two ends do in the other direction changes nothing in this one. -/

theorem Carries.of_recv (h : Carries sender receiver frames) {result : Except Error String}
    {sender' : LineTransport Bytes} (hrecv : recv_frame sender = (result, sender')) :
    Carries sender' receiver frames := by
  have hwriter := recv_frame_writer sender
  rw [hrecv] at hwriter
  exact ⟨by rw [hwriter]; exact h.bytes, h.fits⟩

theorem Carries.of_arrive (h : Carries sender receiver frames) (b : UInt8) (bs : Bytes) :
    Carries (sender.arrive b bs) receiver frames := ⟨h.bytes, h.fits⟩

theorem Carries.of_send (h : Carries sender receiver frames) {frame : String}
    {result : Except Error Unit} {receiver' : LineTransport Bytes}
    (hsend : send_frame receiver frame = (result, receiver')) : Carries sender receiver' frames := by
  rw [send_frame_bytes] at hsend
  obtain ⟨-, rfl⟩ := Prod.mk.inj hsend
  exact ⟨h.bytes, h.fits⟩

theorem Carries.of_written (h : Carries sender receiver frames) (more : Bytes) :
    Carries sender { receiver with writer := more } frames := ⟨h.bytes, h.fits⟩

/-- Once all has arrived, the first frame can be received. -/
theorem Carries.line (h : Carries sender receiver frames) (harrived : sender.writer = [])
    (hframes : frames ≠ []) : NEWLINE ∈ receiver.rest := by
  obtain ⟨frame, rest, rfl⟩ := List.exists_cons_of_ne_nil hframes
  have hbytes := h.bytes
  rw [harrived, List.map_nil, List.append_nil] at hbytes
  unfold LineTransport.rest
  rw [hbytes, bytesOf_map_byte]
  simp [lines]

/-- **A queue of frames, as the receiver sees it**: a line that is there is the
first frame, and once all has arrived, there is a line if there is a frame. -/
structure Delivers (sender receiver : LineTransport Bytes) (frames : List String) : Prop where
  first : NEWLINE ∈ receiver.rest →
    ∃ frame rest, frames = frame :: rest ∧ (recv_frame receiver).1 = .ok frame
  arrived : sender.writer = [] → frames ≠ [] → NEWLINE ∈ receiver.rest

theorem Carries.delivers (h : Carries sender receiver frames) : Delivers sender receiver frames where
  first hline := by
    obtain ⟨frame, rest, hframes, hresult, -⟩ := h.recv hline Prod.mk.eta.symm
    exact ⟨frame, rest, hframes, hresult⟩
  arrived := h.line

end LineTransport

/-! ## The system -/

/-- The two ends of a connection. -/
structure Port where
  client : LineTransport Bytes
  host : LineTransport Bytes

/-- Both directions of a connection. -/
structure Port.Carries (p : Port) (c : Connection) : Prop where
  to_engine : LineTransport.Carries p.client p.host c.to_engine
  to_client : LineTransport.Carries p.host p.client c.to_client

/-- Clients, pipes and engine. -/
structure PipeNet (ι : Type) where
  clients : ι → ClientState
  ports : ι → Port
  registry : EngineSessionRegistry

def PipeNet.start (ι : Type) (stream : ℕ → Nonce) : PipeNet ι :=
  { clients := fun _ => .idle .new
    ports := fun _ => ⟨⟨⟨[], []⟩, []⟩, ⟨⟨[], []⟩, []⟩⟩
    registry := .new stream }

/-- What is seen, or that some bytes arrive. -/
inductive PipeLabel (ι : Type)
  | net (l : NetLabel ι)
  | arrive

def PipeLabel.net_label {ι : Type} : PipeLabel ι → Option (NetLabel ι)
  | .net l => some l
  | .arrive => none

section Steps

variable (X : Crates) (resolver : DidSigningKeyResolver)

/-- What a client can do on its end. A frame is read when its line has arrived;
what has nothing to do with the transport is as before. -/
inductive PipeServes (key : SigningPublicKey) : ClientLabel → Port → Port → Prop
  | send_frame {text : String} {p : Port} {result : Except Error Unit}
      {client : LineTransport Bytes} (sends : p.client.send_frame text = (result, client)) :
      PipeServes key (.event ⟨.send_frame text, result⟩) p { p with client := client }
  | recv_frame {p : Port} {result : Except Error String} {client : LineTransport Bytes}
      (line : NEWLINE ∈ p.client.rest) (receives : p.client.recv_frame = (result, client)) :
      PipeServes key (.event ⟨.recv_frame, result⟩) p { p with client := client }
  | other {cl : ClientLabel} {p : Port} (serves : ∀ c, Serves X resolver key cl c c) :
      PipeServes key cl p p

variable {ι : Type} [DecidableEq ι] (keys : ι → SigningPublicKey)

/-- One step of the system. The host, too, reads a frame when its line has arrived. -/
inductive PipeStep : PipeNet ι → PipeLabel ι → PipeNet ι → Prop
  | client {s : PipeNet ι} {i : ι} {cl : ClientLabel} {client : ClientState} {p : Port}
      (step : ClientStep X (s.clients i) cl client)
      (serves : PipeServes X resolver (keys i) cl (s.ports i) p) :
      PipeStep s (.net (.client i cl))
        { s with
          clients := Function.update s.clients i client,
          ports := Function.update s.ports i p }
  | dispatch {s : PipeNet ι} {i : ι} {text : String} {id : Value} {op : EngineOp}
      {result : Except Error Unit} {host host' : LineTransport Bytes}
      (line : NEWLINE ∈ (s.ports i).host.rest)
      (receives : (s.ports i).host.recv_frame = (.ok text, host))
      (asks : requested X resolver text = some (id, op))
      (sends : host.send_frame ((op.apply X s.registry).1.frame X id) = (result, host')) :
      PipeStep s (.net (.dispatch i text op ((op.apply X s.registry).1.frame X id)))
        { s with
          ports := Function.update s.ports i { s.ports i with host := host' },
          registry := (op.apply X s.registry).2 }
  | skip {s : PipeNet ι} {i : ι} {text : String} {host : LineTransport Bytes}
      (line : NEWLINE ∈ (s.ports i).host.rest)
      (receives : (s.ports i).host.recv_frame = (.ok text, host))
      (reply : is_request X text = false) :
      PipeStep s (.net (.skip i text))
        { s with ports := Function.update s.ports i { s.ports i with host := host } }
  | callback {s : PipeNet ι} (i : ι) {text : String} {result : Except Error Unit}
      {host : LineTransport Bytes} (decodable : DecodableCallback X text) (one_line : OneLine text)
      (sends : (s.ports i).host.send_frame text = (result, host)) :
      PipeStep s (.net (.callback i text))
        { s with ports := Function.update s.ports i { s.ports i with host := host } }
  | other {s : PipeNet ι} (op : EngineOp) :
      PipeStep s (.net (.other op)) { s with registry := (op.apply X s.registry).2 }
  | arrive_at_host {s : PipeNet ι} (i : ι) {b : UInt8} {bs more : Bytes}
      (written : (s.ports i).client.writer = b :: bs ++ more) :
      PipeStep s .arrive
        { s with ports := Function.update s.ports i
                   { client := { (s.ports i).client with writer := more },
                     host := (s.ports i).host.arrive b bs } }
  | arrive_at_client {s : PipeNet ι} (i : ι) {b : UInt8} {bs more : Bytes}
      (written : (s.ports i).host.writer = b :: bs ++ more) :
      PipeStep s .arrive
        { s with ports := Function.update s.ports i
                   { client := (s.ports i).client.arrive b bs,
                     host := { (s.ports i).host with writer := more } } }

/-- The frame that is sent, if one is. -/
def PipeLabel.sent : PipeLabel ι → Option String
  | .net (.client _ (.event ⟨.send_frame text, _⟩)) => some text
  | .net (.dispatch _ _ _ response) => some response
  | .net (.callback _ text) => some text
  | _ => none

/-- No frame is sent that the other end would not read. -/
def Short (l : PipeLabel ι) : Prop :=
  ∀ frame, l.sent = some frame → (as_bytes frame).length < MAX_FRAME_BYTES

end Steps

section Refinement

variable {X : Crates} {resolver : DidSigningKeyResolver} {ι : Type} [DecidableEq ι]
  {keys : ι → SigningPublicKey} {stream : ℕ → Nonce}

/-- The two systems are in the same state. -/
structure PipeNet.Refines (s : PipeNet ι) (t : Net ι) : Prop where
  clients : s.clients = t.clients
  registry : s.registry = t.registry
  carries : ∀ i, (s.ports i).Carries (t.connections i)

omit [DecidableEq ι] in
theorem PipeNet.Refines.start : (PipeNet.start ι stream).Refines (.start ι stream) :=
  ⟨rfl, rfl, fun _ => ⟨⟨rfl, nofun⟩, ⟨rfl, nofun⟩⟩⟩

theorem carries_update {ports : ι → Port} {connections : ι → Connection}
    (h : ∀ i, (ports i).Carries (connections i)) {i : ι} {p : Port} {c : Connection}
    (hi : p.Carries c) (j : ι) :
    (Function.update ports i p j).Carries (Function.update connections i c j) := by
  by_cases hji : j = i
  · subst hji
    rw [Function.update_self, Function.update_self]
    exact hi
  · rw [Function.update_of_ne hji, Function.update_of_ne hji]
    exact h j

/-- Bytes that arrive change nothing that is seen. -/
theorem PipeNet.Refines.arrive_at_host {s : PipeNet ι} {t : Net ι} (h : s.Refines t) {i : ι}
    {b : UInt8} {bs more : Bytes} (hwritten : (s.ports i).client.writer = b :: bs ++ more) :
    PipeNet.Refines { s with ports := Function.update s.ports i
                               { client := { (s.ports i).client with writer := more },
                                 host := (s.ports i).host.arrive b bs } } t := by
  obtain ⟨hto_engine, hto_client⟩ := h.carries i
  have hport : Port.Carries ⟨{ (s.ports i).client with writer := more },
      (s.ports i).host.arrive b bs⟩ (t.connections i) :=
    ⟨hto_engine.arrive hwritten, (hto_client.of_arrive b bs).of_written more⟩
  have hports := carries_update h.carries (i := i) hport
  rw [Function.update_eq_self] at hports
  exact ⟨h.clients, h.registry, hports⟩

theorem PipeNet.Refines.arrive_at_client {s : PipeNet ι} {t : Net ι} (h : s.Refines t) {i : ι}
    {b : UInt8} {bs more : Bytes} (hwritten : (s.ports i).host.writer = b :: bs ++ more) :
    PipeNet.Refines { s with ports := Function.update s.ports i
                               { client := (s.ports i).client.arrive b bs,
                                 host := { (s.ports i).host with writer := more } } } t := by
  obtain ⟨hto_engine, hto_client⟩ := h.carries i
  have hport : Port.Carries ⟨(s.ports i).client.arrive b bs,
      { (s.ports i).host with writer := more }⟩ (t.connections i) :=
    ⟨(hto_engine.of_arrive b bs).of_written more, hto_client.arrive hwritten⟩
  have hports := carries_update h.carries (i := i) hport
  rw [Function.update_eq_self] at hports
  exact ⟨h.clients, h.registry, hports⟩

/-- What a client sends is the text of a value. -/
theorem ClientEvent.sends_json {client : SessionClient} {op : ClientOp} {h : ClientHistory}
    {text : String} {r : Except Error Unit}
    (hevent : ClientEvent X client op h ⟨.send_frame text, r⟩) : ∃ j, text = X.json.to_string j := by
  rcases hevent.sends with ⟨-, id, hrequests⟩ | ⟨frame, reply, -, rfl⟩
  · obtain ⟨method, params, rfl, -⟩ := hrequests.text
    exact ⟨_, rfl⟩
  · cases reply <;> exact ⟨_, rfl⟩

/-- So is a response of the host. -/
theorem EngineOut.frame_json (out : EngineOut) (id : Value) :
    ∃ j, out.frame X id = X.json.to_string j := by
  cases out with
  | begin result => cases result <;> exact ⟨_, rfl⟩
  | attach result => cases result <;> exact ⟨_, rfl⟩
  | detach removed => exact ⟨_, rfl⟩

variable (hline : ∀ j, OneLine (X.json.to_string j))

include hline

/-- What a client sends fits, if it is not too long. -/
theorem sent_fits {state client : ClientState} {text : String} {r : Except Error Unit}
    (hsound : state.Sound X) (hstep : ClientStep X state (.event ⟨.send_frame text, r⟩) client)
    (hsize : (as_bytes text).length < MAX_FRAME_BYTES) : Fits text := by
  refine ⟨?_, hsize⟩
  cases hstep with
  | event =>
    obtain ⟨j, rfl⟩ := (hsound.2 r trivial).1.sends_json
    exact hline j

/-- So does what the host sends. -/
theorem response_fits {out : EngineOut} {id : Value}
    (hsize : (as_bytes (out.frame X id)).length < MAX_FRAME_BYTES) : Fits (out.frame X id) := by
  refine ⟨?_, hsize⟩
  obtain ⟨j, hj⟩ := out.frame_json (X := X) id
  rw [hj]
  exact hline j

omit [DecidableEq ι] in
/-- A client's step over pipes is one over queues. -/
theorem pipe_client_refines {port p : Port} {c : Connection} (hport : port.Carries c) {i : ι}
    {state client : ClientState} {cl : ClientLabel} (hsound : state.Sound X)
    (hstep : ClientStep X state cl client)
    (hserves : PipeServes X resolver (keys i) cl port p) (hshort : Short (.net (.client i cl))) :
    ∃ c', Serves X resolver (keys i) cl c c' ∧ p.Carries c' := by
  obtain ⟨hto_engine, hto_client⟩ := hport
  cases hserves with
  | @send_frame text _ result to_engine sends =>
    obtain ⟨rfl, hcarries⟩ :=
      hto_engine.send (sent_fits hline hsound hstep (hshort text rfl)) sends
    exact ⟨_, .send_frame text, hcarries, hto_client.of_send sends⟩
  | @recv_frame _ result to_client line receives =>
    obtain ⟨raw, rest, hnext, rfl, hcarries⟩ := hto_client.recv line receives
    exact ⟨_, .recv_frame hnext, hto_engine.of_recv receives, hcarries⟩
  | other serves => exact ⟨_, serves _, hto_engine, hto_client⟩

/-- **Every step over pipes is one over queues**, or some bytes arrive. -/
theorem pipe_step_refines {ls : List (NetLabel ι)} {s s' : PipeNet ι} {t : Net ι} {l : PipeLabel ι}
    (hrun : Machine.Run (NetStep X resolver keys) (.start ι stream) ls t) (hrefines : s.Refines t)
    (hstep : PipeStep X resolver keys s l s') (hshort : Short l) :
    (l.net_label = none ∧ s'.Refines t) ∨
      ∃ l' t', l.net_label = some l' ∧ NetStep X resolver keys t l' t' ∧ s'.Refines t' := by
  obtain ⟨hclients, hregistry, hcarries⟩ := hrefines
  cases hstep with
  | @client i cl client p step serves =>
    right
    rw [hclients] at step
    have hsound := ((net_has_client X resolver keys stream i).sound hrun).1
    obtain ⟨c, hserves, hport⟩ := pipe_client_refines hline (hcarries i) hsound step serves hshort
    exact ⟨_, _, rfl, .client step hserves,
      congrArg (fun f => Function.update f i client) hclients, hregistry,
      carries_update hcarries hport⟩
  | @dispatch i text id op result host host' line receives asks sends =>
    right
    obtain ⟨hto_engine, hto_client⟩ := hcarries i
    -- what a whole line gives is the first frame of the queue
    obtain ⟨frame, rest, hnext, hframe, htaken⟩ := hto_engine.recv line receives
    obtain rfl := Except.ok.inj hframe
    obtain ⟨-, hanswered⟩ :=
      (hto_client.of_recv receives).send (response_fits hline (hshort _ rfl)) sends
    rw [hregistry] at hanswered ⊢
    exact ⟨_, _, rfl, .dispatch hnext asks, hclients, rfl,
      carries_update hcarries ⟨htaken.of_send sends, hanswered⟩⟩
  | @skip i text host line receives reply =>
    right
    obtain ⟨hto_engine, hto_client⟩ := hcarries i
    obtain ⟨frame, rest, hnext, hframe, htaken⟩ := hto_engine.recv line receives
    obtain rfl := Except.ok.inj hframe
    exact ⟨_, _, rfl, .skip hnext reply, hclients, hregistry,
      carries_update hcarries ⟨htaken, hto_client.of_recv receives⟩⟩
  | @callback i text result host decodable one_line sends =>
    right
    obtain ⟨hto_engine, hto_client⟩ := hcarries i
    obtain ⟨-, hasked⟩ := hto_client.send ⟨one_line, hshort text rfl⟩ sends
    exact ⟨_, _, rfl, .callback i decodable, hclients, hregistry,
      carries_update hcarries ⟨hto_engine.of_send sends, hasked⟩⟩
  | other op =>
    right
    rw [hregistry]
    exact ⟨_, _, rfl, .other op, hclients, rfl, hcarries⟩
  | arrive_at_host i written =>
    left
    -- bytes on the move are not seen on the queues
    exact ⟨rfl, PipeNet.Refines.arrive_at_host ⟨hclients, hregistry, hcarries⟩ written⟩
  | arrive_at_client i written =>
    left
    exact ⟨rfl, PipeNet.Refines.arrive_at_client ⟨hclients, hregistry, hcarries⟩ written⟩

end Refinement

/-! ## The other way round -/

/-- All that either end has written has arrived. -/
structure Port.Arrived (p : Port) : Prop where
  at_host : p.client.writer = []
  at_client : p.host.writer = []

section Realisation

variable {X : Crates} {resolver : DidSigningKeyResolver} {ι : Type} [DecidableEq ι]
  {keys : ι → SigningPublicKey} {stream : ℕ → Nonce}

/-- The line of the first frame has arrived, and it is read. -/
theorem LineTransport.Carries.first {sender receiver : LineTransport Bytes} {frame : String}
    {rest : List String} (h : LineTransport.Carries sender receiver (frame :: rest))
    (harrived : sender.writer = []) :
    NEWLINE ∈ receiver.rest ∧ ∃ receiver', receiver.recv_frame = (.ok frame, receiver') ∧
      LineTransport.Carries sender receiver' rest := by
  have hline := h.line harrived (List.cons_ne_nil _ _)
  -- the result is named first: unfolding `recv_frame` would run it
  cases hrecv : receiver.recv_frame with
  | mk result receiver' =>
    obtain ⟨frame', rest', hframes, rfl, hcarries⟩ := h.recv hline hrecv
    obtain ⟨rfl, rfl⟩ := List.cons.inj hframes
    exact ⟨hline, receiver', rfl, hcarries⟩

omit [DecidableEq ι] in
/-- What a client does on a queue it can do on a pipe. -/
theorem client_realised (hline : ∀ j, OneLine (X.json.to_string j)) {port : Port} {c c' : Connection}
    (hport : port.Carries c) (harrived : port.Arrived) {i : ι} {state client : ClientState}
    {cl : ClientLabel} (hsound : state.Sound X) (hstep : ClientStep X state cl client)
    (hserves : Serves X resolver (keys i) cl c c') (hshort : Short (.net (.client i cl))) :
    ∃ p, PipeServes X resolver (keys i) cl port p ∧ p.Carries c' := by
  obtain ⟨hto_engine, hto_client⟩ := hport
  cases hserves with
  | send_frame text =>
    have hfits := sent_fits hline hsound hstep (hshort text rfl)
    have hsends := LineTransport.send_frame_bytes port.client text
    exact ⟨_, .send_frame hsends, (hto_engine.send hfits hsends).2, hto_client.of_send hsends⟩
  | @recv_frame raw rest _ next =>
    rw [next] at hto_client
    obtain ⟨hnewline, client', hreceives, hcarries⟩ := hto_client.first harrived.at_client
    exact ⟨_, .recv_frame hnewline hreceives, hto_engine.of_recv hreceives, hcarries⟩
  | begin_and_attach published =>
    exact ⟨_, .other fun _ => .begin_and_attach published, hto_engine, hto_client⟩
  | detach session => exact ⟨_, .other fun _ => .detach session, hto_engine, hto_client⟩
  | signing_public_key_hex =>
    exact ⟨_, .other fun _ => .signing_public_key_hex, hto_engine, hto_client⟩
  | try_sign verifies => exact ⟨_, .other fun _ => .try_sign verifies, hto_engine, hto_client⟩
  | authorize request verdict =>
    exact ⟨_, .other fun _ => .authorize request verdict, hto_engine, hto_client⟩
  | ret out => exact ⟨_, .other fun _ => .ret out, hto_engine, hto_client⟩

/-- What is done on the queues can be done on the pipes, if all has arrived, and it
puts something on the way on one connection at most. -/
theorem net_step_realised (hline : ∀ j, OneLine (X.json.to_string j)) {ls : List (NetLabel ι)}
    {s : PipeNet ι} {t t' : Net ι} {l : NetLabel ι}
    (hrun : Machine.Run (NetStep X resolver keys) (.start ι stream) ls t) (hrefines : s.Refines t)
    (harrived : ∀ i, (s.ports i).Arrived) (hstep : NetStep X resolver keys t l t')
    (hshort : Short (.net l)) (hone : ∀ i text, l = .callback i text → OneLine text) :
    ∃ s', PipeStep X resolver keys s (.net l) s' ∧ s'.Refines t' ∧
      ((∀ j, (s'.ports j).Arrived) ∨ ∃ i, ∀ j, j ≠ i → (s'.ports j).Arrived) := by
  obtain ⟨hclients, hregistry, hcarries⟩ := hrefines
  -- only the connection of the step changes
  have hothers : ∀ (i : ι) (p : Port),
      (∀ j, (Function.update s.ports i p j).Arrived) ∨
        ∃ i', ∀ j, j ≠ i' → (Function.update s.ports i p j).Arrived := by
    intro i p
    refine Or.inr ⟨i, fun j hj => ?_⟩
    rw [Function.update_of_ne hj]
    exact harrived j
  cases hstep with
  | @client i cl client c step serves =>
    -- that the client sends JSON is known of reached states only
    have hsound := ((net_has_client X resolver keys stream i).sound hrun).1
    obtain ⟨p, hserves, hport⟩ :=
      client_realised hline (hcarries i) (harrived i) hsound step serves hshort
    rw [← hclients] at step
    exact ⟨_, .client step hserves, ⟨congrArg (fun f => Function.update f i client) hclients,
      hregistry, carries_update hcarries hport⟩, hothers i p⟩
  | @dispatch i text rest id op next asks =>
    obtain ⟨hto_engine, hto_client⟩ := hcarries i
    rw [next] at hto_engine
    obtain ⟨hnewline, host, hreceives, htaken⟩ := hto_engine.first (harrived i).at_host
    rw [← hregistry] at hshort ⊢
    have hfits := response_fits hline (hshort _ rfl)
    cases hsends : host.send_frame ((op.apply X s.registry).1.frame X id) with
    | mk result host' =>
      obtain ⟨-, hanswered⟩ := (hto_client.of_recv hreceives).send hfits hsends
      exact ⟨_, .dispatch hnewline hreceives asks hsends, ⟨hclients, rfl,
        carries_update hcarries ⟨htaken.of_send hsends, hanswered⟩⟩, hothers i _⟩
  | @skip i text rest next reply =>
    obtain ⟨hto_engine, hto_client⟩ := hcarries i
    rw [next] at hto_engine
    obtain ⟨hnewline, host, hreceives, htaken⟩ := hto_engine.first (harrived i).at_host
    exact ⟨_, .skip hnewline hreceives reply, ⟨hclients, hregistry,
      carries_update hcarries ⟨htaken, hto_client.of_recv hreceives⟩⟩, hothers i _⟩
  | @callback i text decodable =>
    obtain ⟨hto_engine, hto_client⟩ := hcarries i
    have hsends := LineTransport.send_frame_bytes (s.ports i).host text
    obtain ⟨-, hasked⟩ := hto_client.send ⟨hone i text rfl, hshort text rfl⟩ hsends
    exact ⟨_, .callback i decodable (hone i text rfl) hsends, ⟨hclients, hregistry,
      carries_update hcarries ⟨hto_engine.of_send hsends, hasked⟩⟩, hothers i _⟩
  | other op =>
    rw [← hregistry]
    exact ⟨_, .other op, ⟨hclients, rfl, hcarries⟩, Or.inl harrived⟩

/-- What a client has written arrives. -/
theorem arrives_at_host {ls : List (PipeLabel ι)} {s : PipeNet ι} {t : Net ι}
    (hrun : Machine.Run (PipeStep X resolver keys) (.start ι stream) ls s) (hrefines : s.Refines t)
    (i : ι) :
    ∃ (n : ℕ) (s' : PipeNet ι),
      Machine.Run (PipeStep X resolver keys) (.start ι stream) (ls ++ List.replicate n .arrive) s' ∧
      s'.Refines t ∧ (s'.ports i).client.writer = [] ∧ ∀ j, j ≠ i → s'.ports j = s.ports j := by
  cases hwritten : (s.ports i).client.writer with
  | nil => exact ⟨0, s, by simpa using hrun, hrefines, hwritten, fun _ _ => rfl⟩
  | cons b bs =>
    have hall : (s.ports i).client.writer = b :: bs ++ [] := by rw [hwritten, List.append_nil]
    refine ⟨1, _, hrun.step (.arrive_at_host i hall), hrefines.arrive_at_host hall, ?_, ?_⟩
    · simp
    · intro j hj
      exact Function.update_of_ne hj _ _

/-- What the host has written arrives. -/
theorem arrives_at_client {ls : List (PipeLabel ι)} {s : PipeNet ι} {t : Net ι}
    (hrun : Machine.Run (PipeStep X resolver keys) (.start ι stream) ls s) (hrefines : s.Refines t)
    {i : ι} (harrived : (s.ports i).client.writer = []) :
    ∃ (n : ℕ) (s' : PipeNet ι),
      Machine.Run (PipeStep X resolver keys) (.start ι stream) (ls ++ List.replicate n .arrive) s' ∧
      s'.Refines t ∧ (s'.ports i).Arrived ∧ ∀ j, j ≠ i → s'.ports j = s.ports j := by
  cases hwritten : (s.ports i).host.writer with
  | nil => exact ⟨0, s, by simpa using hrun, hrefines, ⟨harrived, hwritten⟩, fun _ _ => rfl⟩
  | cons b bs =>
    have hall : (s.ports i).host.writer = b :: bs ++ [] := by rw [hwritten, List.append_nil]
    refine ⟨1, _, hrun.step (.arrive_at_client i hall), hrefines.arrive_at_client hall, ?_, ?_⟩
    · show (Function.update s.ports i _ i).Arrived
      rw [Function.update_self]
      exact ⟨harrived, rfl⟩
    · intro j hj
      exact Function.update_of_ne hj _ _

/-- Once all has arrived on the other connections, all can arrive. -/
theorem arrives {ls : List (PipeLabel ι)} {s : PipeNet ι} {t : Net ι}
    (hrun : Machine.Run (PipeStep X resolver keys) (.start ι stream) ls s) (hrefines : s.Refines t)
    {i : ι} (hothers : ∀ j, j ≠ i → (s.ports j).Arrived) :
    ∃ (n : ℕ) (s' : PipeNet ι),
      Machine.Run (PipeStep X resolver keys) (.start ι stream) (ls ++ List.replicate n .arrive) s' ∧
      s'.Refines t ∧ ∀ j, (s'.ports j).Arrived := by
  -- one direction after the other
  obtain ⟨n, s₁, hrun₁, hrefines₁, hhost, hsame₁⟩ := arrives_at_host hrun hrefines i
  obtain ⟨m, s₂, hrun₂, hrefines₂, harrived, hsame₂⟩ := arrives_at_client hrun₁ hrefines₁ hhost
  rw [List.append_assoc, List.replicate_append_replicate] at hrun₂
  refine ⟨n + m, s₂, hrun₂, hrefines₂, fun j => ?_⟩
  by_cases hj : j = i
  · rw [hj]
    exact harrived
  · rw [hsame₂ j hj, hsame₁ j hj]
    exact hothers j hj

/-- Whatever is done over the queues can be done over pipes, with everything arriving at once. -/
theorem net_realised (hline : ∀ j, OneLine (X.json.to_string j)) {ls : List (NetLabel ι)} {t : Net ι}
    (hrun : Machine.Run (NetStep X resolver keys) (.start ι stream) ls t)
    (hshort : ∀ l ∈ ls, Short (.net l)) (hone : ∀ i text, .callback i text ∈ ls → OneLine text) :
    ∃ (pls : List (PipeLabel ι)) (s : PipeNet ι),
      Machine.Run (PipeStep X resolver keys) (.start ι stream) pls s ∧
      pls.filterMap PipeLabel.net_label = ls ∧ s.Refines t ∧ ∀ i, (s.ports i).Arrived := by
  induction hrun with
  | start => exact ⟨[], _, .start, rfl, PipeNet.Refines.start, fun _ => ⟨rfl, rfl⟩⟩
  | @step ls t t' l hrun hstep ih =>
    obtain ⟨pls, s, hpipe, hseen, hrefines, harrived⟩ :=
      ih (fun l hl => hshort l (List.mem_append_left _ hl))
        fun i text hmem => hone i text (List.mem_append_left _ hmem)
    obtain ⟨s₁, hstep₁, hrefines₁, hsettled⟩ := net_step_realised hline hrun hrefines harrived hstep
      (hshort l (by simp)) fun i text htext => hone i text (by simp [htext])
    have hpipe₁ := hpipe.step hstep₁
    have hseen₁ : (pls ++ [PipeLabel.net l]).filterMap PipeLabel.net_label = ls ++ [l] := by
      rw [List.filterMap_append, hseen]
      rfl
    rcases hsettled with harrived₁ | ⟨i, hothers⟩
    · exact ⟨_, s₁, hpipe₁, hseen₁, hrefines₁, harrived₁⟩
    · obtain ⟨n, s₂, hpipe₂, hrefines₂, harrived₂⟩ := arrives hpipe₁ hrefines₁ hothers
      refine ⟨_, s₂, hpipe₂, ?_, hrefines₂, harrived₂⟩
      -- that bytes arrive is not seen
      have hunseen :
          (List.replicate n (.arrive : PipeLabel ι)).filterMap PipeLabel.net_label = [] :=
        List.filterMap_replicate_of_none rfl
      rw [List.filterMap_append, hseen₁, hunseen, List.append_nil]

end Realisation

/-! ## The two theorems -/

/-- That bytes arrive sends nothing. -/
theorem short_of_seen {ι : Type} {pls : List (PipeLabel ι)}
    (hshort : ∀ l ∈ pls.filterMap PipeLabel.net_label, Short (.net l)) : ∀ l ∈ pls, Short l := by
  intro l hl
  cases l with
  | net l => exact hshort l (List.mem_filterMap.mpr ⟨_, hl, rfl⟩)
  | arrive => exact nofun

namespace Reference

/-- A printed text is one line. -/
theorem one_line (j : Json) : OneLine (crates.json.to_string j) := by
  have hprintable : ∀ c ∈ (crates.json.to_string j).toList, 32 ≤ c.toNat := by
    have hchars : (crates.json.to_string j).toList = CompactJson.print j := String.toList_ofList
    rw [hchars]
    exact CompactJson.printable_iff.mp (CompactJson.printable_print j)
  refine ⟨fun hmem => ?_, fun hlast => ?_⟩
  · exact absurd (hprintable _ hmem) (by decide)
  · exact absurd (hprintable _ (List.mem_of_getLast? hlast)) (by decide)

/-- A client makes its handshake and detaches its session, and is asked to sign meanwhile. -/
def conversation : List (NetLabel Unit) :=
  handshake_log crates (fun _ => some key) key stream () ⟨"did", [], ""⟩
      (sign (challenge_message (stream 0).val "did"))
    ++ (net_detach_callback_log crates () 3 (session_drawn crates stream 2 ⟨"did", [], ""⟩)
          (callback_frame crates 7 spend) (sign_request spend [0, 1, 2]) "not now"
          (refusal_frame crates (callback_read 7 spend) .SignDenied "not now")
        ++ [.client () (.ret (.ok .detached))])

theorem conversation_run : ∃ t, Machine.Run (NetStep crates (fun _ => some key) fun _ => key)
    (.start Unit stream) conversation t ∧ t.clients () = .idle { next_id := 4 } := by
  obtain ⟨s, hrun, hidle, hempty⟩ := @handshake_run crates (fun _ => some key) Unit _ (fun _ => key)
    stream () faithful ⟨"did", [], ""⟩ _ rfl (verify_signature_iff.mpr ⟨by decide, rfl⟩)
  have hcallback : callback_of crates (callback_frame crates 7 spend) = some (callback_read 7 spend) :=
    callback_of_eq_some.mpr ⟨from_str_callback_frame faithful.json 7 spend trivial, rfl⟩
  have hpayload : crates.base64_decode spend.payload_b64 = some [0, 1, 2] := by decide
  exact ⟨_, net_detaches_callback faithful hrun hidle hempty
    (session_drawn crates stream 2 ⟨"did", [], ""⟩) hcallback (callback_params_read 7 spend) hpayload
    "not now", put_clients _ _ _ _ _⟩

/-- What is sent in it. -/
def conversation_sent : List Json :=
  [(RpcRequest.mk JSONRPC_VERSION 1 METHOD_BEGIN (BeginParams.mk "did" (key.to_hex crates)).encode).encode,
    (RpcResult.mk JSONRPC_VERSION (Value.of (ofU64 1)) (offered crates stream 0).encode).encode,
    (RpcRequest.mk JSONRPC_VERSION 2 METHOD_ATTACH (AttachParams.mk (crates.hex_encode (stream 1).val)
      (crates.base64_encode (sign (challenge_message (stream 0).val "did")).as_bytes)
      ⟨"did", [], ""⟩).encode).encode,
    (RpcResult.mk JSONRPC_VERSION (Value.of (ofU64 2)) (AttachResult.mk (crates.hex_encode (stream 2).val)
      ENGINE_CAPABILITIES).encode).encode,
    (RpcRequest.mk JSONRPC_VERSION 3 METHOD_DETACH (DetachParams.mk
      (crates.hex_encode (stream 2).val)).encode).encode,
    (RpcRequest.mk JSONRPC_VERSION 7 METHOD_SIGN spend.encode).encode,
    (RpcResult.mk JSONRPC_VERSION (Value.of (ofU64 3)) (DetachResult.encode {})).encode,
    (RpcErrorReply.mk JSONRPC_VERSION (Value.of (ofU64 7))
      { code := SignErrorCode.SignDenied.code, message := "not now" }).encode]

/-- It is short. -/
theorem conversation_short : ∀ l ∈ conversation, Short (.net l) := by
  intro l hl frame hsent
  have hmem : frame ∈ conversation.filterMap fun l => (PipeLabel.net l).sent :=
    List.mem_filterMap.mpr ⟨l, hl, hsent⟩
  have htexts : (conversation.filterMap fun l => (PipeLabel.net l).sent)
      = conversation_sent.map crates.json.to_string := rfl
  have hsizes : ∀ j ∈ conversation_sent, (CompactJson.print j).length < 262144 := by
    -- the long texts are taken as lists of characters, not out of strings
    simp only [conversation_sent, RpcRequest.encode, RpcResult.encode, BeginParams.encode,
      BeginResult.encode, AttachParams.encode, AttachResult.encode, DetachParams.encode, offered,
      SigningPublicKey.to_hex, crates, CompactJson.print, CompactJson.printFields,
      List.forall_mem_cons, String.toList_ofList]
    decide +kernel
  rw [htexts] at hmem
  obtain ⟨j, hj, rfl⟩ := List.mem_map.mp hmem
  exact (wire_line_print (hsizes j hj)).fits

/-- The callback in it is one line. -/
theorem conversation_one_line : ∀ i text, .callback i text ∈ conversation → OneLine text := by
  intro i text hmem
  simp [conversation, handshake_log, begin_log, session_log, attach_log, net_detach_callback_log] at hmem
  rw [hmem]
  exact one_line _

/-- Over pipes it is the same. -/
theorem conversation_piped : ∃ (pls : List (PipeLabel Unit)) (s : PipeNet Unit),
    Machine.Run (PipeStep crates (fun _ => some key) fun _ => key) (.start Unit stream) pls s ∧
    pls.filterMap PipeLabel.net_label = conversation := by
  obtain ⟨t, hrun, -⟩ := conversation_run
  obtain ⟨pls, s, hpipe, hseen, -⟩ :=
    net_realised one_line hrun conversation_short conversation_one_line
  exact ⟨pls, s, hpipe, hseen⟩

end Reference

/-- **Pipes carry queues of frames.** If the JSON text of a value is one line and no
frame is too long, every run of clients and engine over byte streams, with what is
written arriving in any portions at any time, is a run over queues of frames, and
leaves clients and engine in the same state. What either end finds in its stream is
its queue: a line that has arrived is the first frame that was sent and not received,
whole and unchanged, and once all has arrived, no frame is missing. -/
theorem pipes_refine {X : Crates} (hline : ∀ j, OneLine (X.json.to_string j))
    {resolver : DidSigningKeyResolver} {ι : Type} [DecidableEq ι] {keys : ι → SigningPublicKey}
    {stream : ℕ → Nonce} {ls : List (PipeLabel ι)} {s : PipeNet ι}
    (hrun : Machine.Run (PipeStep X resolver keys) (.start ι stream) ls s)
    (hshort : ∀ l ∈ ls, Short l) :
    ∃ t, Machine.Run (NetStep X resolver keys) (.start ι stream)
        (ls.filterMap PipeLabel.net_label) t ∧
      s.clients = t.clients ∧ s.registry = t.registry ∧
      ∀ i, LineTransport.Delivers (s.ports i).client (s.ports i).host (t.connections i).to_engine ∧
        LineTransport.Delivers (s.ports i).host (s.ports i).client (t.connections i).to_client := by
  obtain ⟨t, ht, hclients, hregistry, hcarries⟩ :=
    hrun.simulated (P := Short) PipeNet.Refines.start
      (fun _ _ _ _ _ hnet hrefines hstep hl => pipe_step_refines hline hnet hrefines hstep hl) hshort
  exact ⟨t, ht, hclients, hregistry, fun i =>
    ⟨(hcarries i).to_engine.delivers, (hcarries i).to_client.delivers⟩⟩

/-- A conversation over pipes is one over queues, and afterwards nothing is missing. -/
theorem pipes_refine_conversation : ∃ (pls : List (PipeLabel Unit)) (s : PipeNet Unit) (t : Net Unit),
    Machine.Run (PipeStep Reference.crates (fun _ => some Reference.key) fun _ => Reference.key)
      (.start Unit Reference.stream) pls s ∧
    pls.filterMap PipeLabel.net_label = Reference.conversation ∧
    Machine.Run (NetStep Reference.crates (fun _ => some Reference.key) fun _ => Reference.key)
      (.start Unit Reference.stream) Reference.conversation t ∧
    s.clients = t.clients ∧ s.registry = t.registry ∧
    LineTransport.Delivers (s.ports ()).client (s.ports ()).host (t.connections ()).to_engine ∧
    LineTransport.Delivers (s.ports ()).host (s.ports ()).client (t.connections ()).to_client := by
  obtain ⟨pls, s, hrun, hseen⟩ := Reference.conversation_piped
  have hshort : ∀ l ∈ pls.filterMap PipeLabel.net_label, Short (.net l) := by
    rw [hseen]
    exact Reference.conversation_short
  obtain ⟨t, ht, hclients, hregistry, hports⟩ :=
    pipes_refine Reference.one_line hrun (short_of_seen hshort)
  rw [hseen] at ht
  exact ⟨pls, s, t, hrun, hseen, ht, hclients, hregistry, (hports ()).1, (hports ()).2⟩

/-- **Every run over queues is one over pipes.** If the JSON text of a value is one
line, callbacks are one line and no frame is too long, then whatever clients and
engine do over queues of frames they can do over byte streams, which leaves clients
and engine in the same state and nothing on the way. -/
theorem queues_realised {X : Crates} (hline : ∀ j, OneLine (X.json.to_string j))
    {resolver : DidSigningKeyResolver} {ι : Type} [DecidableEq ι] {keys : ι → SigningPublicKey}
    {stream : ℕ → Nonce} {ls : List (NetLabel ι)} {t : Net ι}
    (hrun : Machine.Run (NetStep X resolver keys) (.start ι stream) ls t)
    (hshort : ∀ l ∈ ls, Short (.net l)) (hone : ∀ i text, .callback i text ∈ ls → OneLine text) :
    ∃ (pls : List (PipeLabel ι)) (s : PipeNet ι),
      Machine.Run (PipeStep X resolver keys) (.start ι stream) pls s ∧
      pls.filterMap PipeLabel.net_label = ls ∧ s.clients = t.clients ∧ s.registry = t.registry ∧
      ∀ i, (s.ports i).client.writer = [] ∧ (s.ports i).host.writer = [] := by
  obtain ⟨pls, s, hpipe, hseen, hrefines, harrived⟩ := net_realised hline hrun hshort hone
  exact ⟨pls, s, hpipe, hseen, hrefines.clients, hrefines.registry,
    fun i => ⟨(harrived i).at_host, (harrived i).at_client⟩⟩

/-- A conversation over queues is one over pipes, and afterwards all has arrived. -/
theorem queues_realised_conversation : ∃ (pls : List (PipeLabel Unit)) (s : PipeNet Unit),
    Machine.Run (PipeStep Reference.crates (fun _ => some Reference.key) fun _ => Reference.key)
      (.start Unit Reference.stream) pls s ∧
    pls.filterMap PipeLabel.net_label = Reference.conversation ∧
    s.clients () = .idle { next_id := 4 } ∧ (s.ports ()).client.writer = [] ∧
    (s.ports ()).host.writer = [] := by
  obtain ⟨t, hrun, hidle⟩ := Reference.conversation_run
  obtain ⟨pls, s, hpipe, hseen, hclients, -, harrived⟩ := queues_realised Reference.one_line hrun
    Reference.conversation_short Reference.conversation_one_line
  exact ⟨pls, s, hpipe, hseen, by rw [hclients, hidle], (harrived ()).1, (harrived ()).2⟩

end DigIpc
