/-
The wire types decode what they encode, and a frame has one direction.

A payload is decoded out of a `Value`, whose objects are maps: the decoder does
not see the fields in the order they were written. `readFields_normalize` says
that it need not, because their names are distinct, and each record's round trip
is read off its fields from there.

`IncomingFrame` is decoded out of the text itself, so a peer may add fields to
it, before, between and after the declared ones. `decode_known` says they do not
matter; which of the two directions a frame has is then decided by its `method`,
which every request has and no reply does.
-/
import DigIpc.Client
import DigIpc.Reference

set_option autoImplicit false

open Serde
open StdIo (Error)

namespace DigIpc

/-! ## The payloads -/

theorem BeginParams.decode_normalize (v : BeginParams) :
    BeginParams.decode v.encode.normalize = some v := by
  unfold BeginParams.decode BeginParams.encode
  rw [readFields_normalize _ _ (by simp)]
  simp [List.lookup_cons]

theorem BeginResult.decode_normalize (v : BeginResult) :
    BeginResult.decode v.encode.normalize = some v := by
  unfold BeginResult.decode BeginResult.encode
  rw [readFields_normalize _ _ (by simp)]
  simp [List.lookup_cons]

theorem ProfileAttachment.decode_normalize (v : ProfileAttachment) :
    ProfileAttachment.decode v.encode.normalize = some v := by
  unfold ProfileAttachment.decode ProfileAttachment.encode
  rw [readFields_normalize _ _ (by simp)]
  simp [List.lookup_cons]

theorem AttachParams.decode_normalize (v : AttachParams) :
    AttachParams.decode v.encode.normalize = some v := by
  unfold AttachParams.decode AttachParams.encode
  rw [readFields_normalize _ _ (by simp)]
  simp [List.lookup_cons, ProfileAttachment.decode_normalize]

theorem AttachResult.decode_normalize (v : AttachResult) :
    AttachResult.decode v.encode.normalize = some v := by
  unfold AttachResult.decode AttachResult.encode
  rw [readFields_normalize _ _ (by simp)]
  simp [List.lookup_cons]

theorem DetachParams.decode_normalize (v : DetachParams) :
    DetachParams.decode v.encode.normalize = some v := by
  unfold DetachParams.decode DetachParams.encode
  rw [readFields_normalize _ _ (by simp)]
  simp [List.lookup_cons]

theorem DetachResult.decode_normalize (v : DetachResult) :
    DetachResult.decode v.encode.normalize = some v := by
  unfold DetachResult.decode DetachResult.encode
  rw [readFields_normalize [] [] (by simp)]
  rfl

theorem SignCallbackParams.decode_normalize (v : SignCallbackParams) :
    SignCallbackParams.decode v.encode.normalize
      = some { v with context := v.context.bind nullable } := by
  have hcontext : nullable (Value.of (ofOption v.context)) = v.context.bind nullable := by
    have h := option_value_ofOption v.context
    rw [option_value] at h
    exact Option.some.inj h
  unfold SignCallbackParams.decode SignCallbackParams.encode
  rw [readFields_normalize _ _ (by simp)]
  simp [List.lookup_cons, hcontext]

theorem SignCallbackResult.decode_normalize (v : SignCallbackResult) :
    SignCallbackResult.decode v.encode.normalize = some v := by
  unfold SignCallbackResult.decode SignCallbackResult.encode
  rw [readFields_normalize _ _ (by simp)]
  simp [List.lookup_cons]

/-- An object without repeated fields is read field by field. -/
theorem readFields_object {names : List String} {fields : List (String × Json)}
    (h : ∀ name ∈ names, (fields.map Prod.fst).count name ≤ 1) :
    readFields names (.object fields) = some fun name => fields.lookup name := if_pos h

theorem RpcError.decode_encode (e : RpcError) : RpcError.decode e.encode = some e := by
  unfold RpcError.decode RpcError.encode
  rw [readFields_object (by simp)]
  simp [List.lookup_cons]

/-- The types that travel as `params` or as `result`. -/
inductive PayloadType
  | BeginParams
  | BeginResult
  | AttachParams
  | AttachResult
  | DetachParams
  | DetachResult
  | SignCallbackParams
  | SignCallbackResult
  deriving DecidableEq

namespace PayloadType

@[reducible] def Carrier : PayloadType → Type
  | .BeginParams => DigIpc.BeginParams
  | .BeginResult => DigIpc.BeginResult
  | .AttachParams => DigIpc.AttachParams
  | .AttachResult => DigIpc.AttachResult
  | .DetachParams => DigIpc.DetachParams
  | .DetachResult => DigIpc.DetachResult
  | .SignCallbackParams => DigIpc.SignCallbackParams
  | .SignCallbackResult => DigIpc.SignCallbackResult

def encode : (t : PayloadType) → t.Carrier → Json
  | .BeginParams => DigIpc.BeginParams.encode
  | .BeginResult => DigIpc.BeginResult.encode
  | .AttachParams => DigIpc.AttachParams.encode
  | .AttachResult => DigIpc.AttachResult.encode
  | .DetachParams => DigIpc.DetachParams.encode
  | .DetachResult => DigIpc.DetachResult.encode
  | .SignCallbackParams => DigIpc.SignCallbackParams.encode
  | .SignCallbackResult => DigIpc.SignCallbackResult.encode

def decode : (t : PayloadType) → Json → Option t.Carrier
  | .BeginParams => DigIpc.BeginParams.decode
  | .BeginResult => DigIpc.BeginResult.decode
  | .AttachParams => DigIpc.AttachParams.decode
  | .AttachResult => DigIpc.AttachResult.decode
  | .DetachParams => DigIpc.DetachParams.decode
  | .DetachResult => DigIpc.DetachResult.decode
  | .SignCallbackParams => DigIpc.SignCallbackParams.decode
  | .SignCallbackResult => DigIpc.SignCallbackResult.decode

/-- A payload as it reads: only a context of `Some(null)` changes. -/
def reads : (t : PayloadType) → t.Carrier → t.Carrier
  | .SignCallbackParams, v => { v with context := v.context.bind nullable }
  | .BeginParams, v => v
  | .BeginResult, v => v
  | .AttachParams, v => v
  | .AttachResult, v => v
  | .DetachParams, v => v
  | .DetachResult, v => v
  | .SignCallbackResult, v => v

/-- **Every payload reads back.** -/
theorem decode_normalize (t : PayloadType) (v : t.Carrier) :
    t.decode (t.encode v).normalize = some (t.reads v) := by
  cases t with
  | BeginParams => exact DigIpc.BeginParams.decode_normalize v
  | BeginResult => exact DigIpc.BeginResult.decode_normalize v
  | AttachParams => exact DigIpc.AttachParams.decode_normalize v
  | AttachResult => exact DigIpc.AttachResult.decode_normalize v
  | DetachParams => exact DigIpc.DetachParams.decode_normalize v
  | DetachResult => exact DigIpc.DetachResult.decode_normalize v
  | SignCallbackParams => exact DigIpc.SignCallbackParams.decode_normalize v
  | SignCallbackResult => exact DigIpc.SignCallbackResult.decode_normalize v

/-- A payload is an object, so never `null`. -/
theorem nullable_encode (t : PayloadType) (v : t.Carrier) :
    nullable (Value.of (t.encode v)) = some (Value.of (t.encode v)) := by
  cases t <;> rfl

/-- Only the context of a callback can be anything but strings. -/
theorem plain (t : PayloadType) (ht : t ≠ .SignCallbackParams) (v : t.Carrier) :
    (t.encode v).Plain 126 := by
  cases t with
  | BeginParams => simp [encode, DigIpc.BeginParams.encode]
  | BeginResult => simp [encode, DigIpc.BeginResult.encode]
  | AttachParams =>
    simp [encode, DigIpc.AttachParams.encode, DigIpc.ProfileAttachment.encode]
  | AttachResult => simp [encode, DigIpc.AttachResult.encode]
  | DetachParams => simp [encode, DigIpc.DetachParams.encode]
  | DetachResult => simp [encode, DigIpc.DetachResult.encode]
  | SignCallbackParams => exact absurd rfl ht
  | SignCallbackResult => simp [encode, DigIpc.SignCallbackResult.encode]

end PayloadType

theorem BeginParams.plain (v : BeginParams) : v.encode.Plain 126 :=
  PayloadType.plain .BeginParams nofun v

theorem AttachParams.plain (v : AttachParams) : v.encode.Plain 126 :=
  PayloadType.plain .AttachParams nofun v

theorem DetachParams.plain (v : DetachParams) : v.encode.Plain 126 :=
  PayloadType.plain .DetachParams nofun v

/-! ## The envelopes -/

theorem RpcRequest.decode_encode (v : RpcRequest) :
    IncomingFrame.decode v.encode = some
      { id := some (Value.of (ofU64 v.id)), method := some v.method,
        params := nullable (Value.of v.params), result := none, error := none } := by
  have hid : nullable (Value.of (ofU64 v.id)) = some (Value.of (ofU64 v.id)) := rfl
  have hmethod : option string (.string v.method) = some (some v.method) := rfl
  unfold IncomingFrame.decode RpcRequest.encode
  rw [readFields_object (by simp)]
  simp [List.lookup_cons, hid, hmethod]

theorem RpcResult.decode_encode (v : RpcResult) :
    IncomingFrame.decode v.encode = some
      { id := nullable v.id, method := none, params := none,
        result := nullable (Value.of v.result), error := none } := by
  unfold IncomingFrame.decode RpcResult.encode
  rw [readFields_object (by simp)]
  simp [List.lookup_cons]

theorem RpcErrorReply.decode_encode (v : RpcErrorReply) :
    IncomingFrame.decode v.encode = some
      { id := nullable v.id, method := none, params := none, result := none,
        error := some v.error } := by
  have herror : option RpcError.decode v.error.encode = some (some v.error) := by
    show (RpcError.decode v.error.encode).map some = _
    rw [RpcError.decode_encode]
    rfl
  unfold IncomingFrame.decode RpcErrorReply.encode
  rw [readFields_object (by simp)]
  simp [List.lookup_cons, herror]

/-- What is read from the text of a tree. -/
theorem IncomingFrame.from_str_to_string {X : Crates} (hX : X.json.Lossless) (j : Json) :
    IncomingFrame.from_str X (X.json.to_string j) = IncomingFrame.decode j := by
  unfold IncomingFrame.from_str
  rw [hX.from_str_to_string, Option.bind_some]

/-! ### What the codec promises of them

A request has an integer for its id, so it is as plain as its params. The id of a
reply is whatever stood in the callback, which may be a float or nested as deep as
the parser goes. -/

section Faithful

variable {X : Crates} (hX : X.json.Faithful)

include hX

theorem IncomingFrame.from_str_plain {j : Json} (hj : j.Plain MAX_NESTING) :
    IncomingFrame.from_str X (X.json.to_string j) = IncomingFrame.decode j := by
  unfold IncomingFrame.from_str
  rw [hX.plain j hj, Option.bind_some]

/-- A request reads back. -/
theorem RpcRequest.from_str (v : RpcRequest) (hparams : v.params.Plain 126) :
    IncomingFrame.from_str X (X.json.to_string v.encode) = some
      { id := some (Value.of (ofU64 v.id)), method := some v.method,
        params := nullable (Value.of v.params), result := none, error := none } := by
  have hplain : v.encode.Plain MAX_NESTING := by simp [RpcRequest.encode, MAX_NESTING, hparams]
  rw [IncomingFrame.from_str_plain hX hplain, RpcRequest.decode_encode]

/-- What is read from the text of an object, if anything is. -/
theorem IncomingFrame.of_object {fields : List (String × Json)} {frame : IncomingFrame}
    (hparse : IncomingFrame.from_str X (X.json.to_string (.object fields)) = some frame) :
    ∃ fields', List.Forall₂ Reread fields fields' ∧
      defaulted none (option string) (fields'.lookup "method") = some frame.method ∧
      defaulted none (option RpcError.decode) (fields'.lookup "error") = some frame.error := by
  obtain ⟨j, hread, hdecode⟩ := Option.bind_eq_some_iff.mp hparse
  obtain ⟨fields', rfl, hfields⟩ := hX.object _ _ hread
  refine ⟨fields', hfields, ?_⟩
  unfold IncomingFrame.decode at hdecode
  obtain ⟨field, hfield, hdecode⟩ := Option.bind_eq_some_iff.mp hdecode
  obtain ⟨id, -, hdecode⟩ := Option.bind_eq_some_iff.mp hdecode
  obtain ⟨method, hmethod, hdecode⟩ := Option.bind_eq_some_iff.mp hdecode
  obtain ⟨params, -, hdecode⟩ := Option.bind_eq_some_iff.mp hdecode
  obtain ⟨result, -, hdecode⟩ := Option.bind_eq_some_iff.mp hdecode
  obtain ⟨error, herror, hdecode⟩ := Option.bind_eq_some_iff.mp hdecode
  obtain rfl := Option.some.inj hdecode
  by_cases hone : ∀ name ∈ ["id", "method", "params", "result", "error"],
      (fields'.map Prod.fst).count name ≤ 1
  · rw [readFields_object hone] at hfield
    obtain rfl := Option.some.inj hfield
    exact ⟨hmethod, herror⟩
  · rw [readFields, if_neg hone] at hfield
    cases hfield

/-- A success reply, if it reads back, is one. -/
theorem RpcResult.from_str {v : RpcResult} {frame : IncomingFrame}
    (hparse : IncomingFrame.from_str X (X.json.to_string v.encode) = some frame) :
    frame.method = none ∧ frame.error = none := by
  obtain ⟨fields, hfields, hmethod, herror⟩ := IncomingFrame.of_object hX hparse
  rw [lookup_reread_none hfields rfl] at hmethod herror
  exact ⟨(Option.some.inj hmethod).symm, (Option.some.inj herror).symm⟩

/-- An error reply, if it reads back, carries its error. -/
theorem RpcErrorReply.from_str {v : RpcErrorReply} {frame : IncomingFrame}
    (hparse : IncomingFrame.from_str X (X.json.to_string v.encode) = some frame) :
    frame.method = none ∧ frame.error = some v.error := by
  obtain ⟨fields, hfields, hmethod, herror⟩ := IncomingFrame.of_object hX hparse
  have hplain : v.error.encode.Plain MAX_NESTING := by simp [RpcError.encode, MAX_NESTING]
  have hdecode : option RpcError.decode v.error.encode = some (some v.error) := by
    show (RpcError.decode v.error.encode).map some = _
    rw [RpcError.decode_encode]
    rfl
  rw [lookup_reread_none hfields rfl] at hmethod
  rw [lookup_reread hfields rfl hplain, defaulted_some, hdecode] at herror
  exact ⟨(Option.some.inj hmethod).symm, (Option.some.inj herror).symm⟩

end Faithful

/-! ## Fields the peer adds -/

/-- The declared fields of a frame. -/
def IncomingFrame.declared (name : String) : Bool :=
  decide (name ∈ ["id", "method", "params", "result", "error"])

/-- The object with these fields is `j`, up to fields that no frame declares. -/
def Extends (fields : List (String × Json)) (j : Json) : Prop :=
  ∃ declared, j = .object declared ∧
    fields.filter (fun field => IncomingFrame.declared field.1)
      = declared.filter fun field => IncomingFrame.declared field.1

/-- **Undeclared fields do not matter**, wherever they stand. -/
theorem IncomingFrame.decode_known {fields : List (String × Json)} {j : Json}
    (h : Extends fields j) : IncomingFrame.decode (.object fields) = IncomingFrame.decode j := by
  obtain ⟨declared, rfl, hsame⟩ := h
  have hdeclared : ∀ name ∈ ["id", "method", "params", "result", "error"],
      IncomingFrame.declared name = true := fun name hname => decide_eq_true hname
  have hlookup : ∀ name ∈ ["id", "method", "params", "result", "error"],
      fields.lookup name = declared.lookup name := by
    intro name hname
    rw [← lookup_filter_keys _ fields (hdeclared name hname), hsame,
      lookup_filter_keys _ declared (hdeclared name hname)]
  have hcount : ∀ name ∈ ["id", "method", "params", "result", "error"],
      (fields.map Prod.fst).count name = (declared.map Prod.fst).count name := by
    intro name hname
    rw [← count_filter_keys _ fields (hdeclared name hname), hsame,
      count_filter_keys _ declared (hdeclared name hname)]
  unfold IncomingFrame.decode
  by_cases hone : ∀ name ∈ ["id", "method", "params", "result", "error"],
      (declared.map Prod.fst).count name ≤ 1
  · have hone' : ∀ name ∈ ["id", "method", "params", "result", "error"],
        (fields.map Prod.fst).count name ≤ 1 := by
      intro name hname
      rw [hcount name hname]
      exact hone name hname
    rw [readFields_object hone, readFields_object hone']
    simp only [Option.bind_eq_bind, Option.bind_some, hlookup "id" (by simp),
      hlookup "method" (by simp), hlookup "params" (by simp), hlookup "result" (by simp),
      hlookup "error" (by simp)]
  · have hone' : ¬ ∀ name ∈ ["id", "method", "params", "result", "error"],
        (fields.map Prod.fst).count name ≤ 1 := by
      intro hall
      refine hone fun name hname => ?_
      rw [← hcount name hname]
      exact hall name hname
    have hrefuse : ∀ {m : List (String × Json)},
        (¬ ∀ name ∈ ["id", "method", "params", "result", "error"], (m.map Prod.fst).count name ≤ 1) →
        readFields ["id", "method", "params", "result", "error"] (.object m) = none :=
      fun hm => if_neg hm
    rw [hrefuse hone, hrefuse hone']

/-! ## The direction of a frame -/

section Direction

variable {X : Crates} {α : Type}

/-- What the read loop does with a frame that parses. -/
theorem read_turn_parsed (decode : Json → Option α) (awaited_id : UInt64)
    (on_callback : IncomingFrame → ClientM α) (client : SessionClient) {raw : String}
    {frame : IncomingFrame} (hparse : IncomingFrame.from_str X raw = some frame) :
    ∃ k, read_turn X decode awaited_id on_callback client = .vis .recv_frame k ∧
      k (.ok raw) = if frame.method = some METHOD_SIGN then on_callback frame client
        else .ret (response_of decode awaited_id frame, client) := by
  refine ⟨_, rfl, ?_⟩
  show ((ClientM.orFrame (IncomingFrame.from_str X raw) : ClientM IncomingFrame) >>= _) client = _
  rw [hparse]
  show (if frame.method = some METHOD_SIGN then on_callback frame else _ : ClientM α) client = _
  by_cases hsign : frame.method = some METHOD_SIGN
  · rw [if_pos hsign, if_pos hsign]
  · rw [if_neg hsign, if_neg hsign]
    cases response_of decode awaited_id frame <;> rfl

/-- The text of an object is parsed as the frame it extends. -/
theorem from_str_of_extends {raw : String} {fields : List (String × Json)} {j : Json}
    (htext : X.json.from_str raw = some (.object fields)) (hextends : Extends fields j) :
    IncomingFrame.from_str X raw = IncomingFrame.decode j := by
  unfold IncomingFrame.from_str
  rw [htext, Option.bind_some, IncomingFrame.decode_known hextends]

end Direction

/-- **The wire types decode what they encode and keep their direction.** A
request parses to its id, method and params and nothing else, a reply to its id
and its result or its error and nothing else, and the payload reads back. And
whatever fields the peer adds, and whatever tree the params or the result are,
the read loop hands every request whose method is `sign` to its callback branch,
and neither kind of reply. -/
theorem wire_round_trip {X : Crates} (hX : X.json.Lossless) :
    (∀ (t : PayloadType) (v : t.Carrier) (jsonrpc method : String) (id : UInt64),
      ∃ params, IncomingFrame.from_str X
          (X.json.to_string (RpcRequest.mk jsonrpc id method (t.encode v)).encode)
        = some { id := some (Value.of (ofU64 id)), method := some method, params := some params,
                 result := none, error := none } ∧ t.decode params.tree = some (t.reads v)) ∧
    (∀ (t : PayloadType) (v : t.Carrier) (jsonrpc : String) (id : Value),
      ∃ result, IncomingFrame.from_str X
          (X.json.to_string (RpcResult.mk jsonrpc id (t.encode v)).encode)
        = some { id := nullable id, method := none, params := none, result := some result,
                 error := none } ∧ t.decode result.tree = some (t.reads v)) ∧
    (∀ (e : RpcError) (jsonrpc : String) (id : Value),
      IncomingFrame.from_str X (X.json.to_string (RpcErrorReply.mk jsonrpc id e).encode)
        = some { id := nullable id, method := none, params := none, result := none,
                 error := some e }) ∧
    ∀ (α : Type) (decode : Json → Option α) (awaited_id : UInt64)
      (on_callback : IncomingFrame → ClientM α) (client : SessionClient) (raw : String)
      (fields : List (String × Json)), X.json.from_str raw = some (.object fields) →
      (∀ request : RpcRequest, request.method = METHOD_SIGN → Extends fields request.encode →
        ∃ frame k, IncomingFrame.from_str X raw = some frame ∧
          read_turn X decode awaited_id on_callback client = .vis .recv_frame k ∧
          k (.ok raw) = on_callback frame client) ∧
      ((∃ reply : RpcResult, Extends fields reply.encode) ∨
        (∃ reply : RpcErrorReply, Extends fields reply.encode) →
        ∃ frame k, IncomingFrame.from_str X raw = some frame ∧
          read_turn X decode awaited_id on_callback client = .vis .recv_frame k ∧
          k (.ok raw) = .ret (response_of decode awaited_id frame, client)) := by
  refine ⟨?_, ?_, ?_, ?_⟩
  · intro t v jsonrpc method id
    refine ⟨Value.of (t.encode v), ?_, t.decode_normalize v⟩
    rw [IncomingFrame.from_str_to_string hX, RpcRequest.decode_encode, t.nullable_encode]
  · intro t v jsonrpc id
    refine ⟨Value.of (t.encode v), ?_, t.decode_normalize v⟩
    rw [IncomingFrame.from_str_to_string hX, RpcResult.decode_encode, t.nullable_encode]
  · intro e jsonrpc id
    rw [IncomingFrame.from_str_to_string hX, RpcErrorReply.decode_encode]
  · intro α decode awaited_id on_callback client raw fields htext
    constructor
    · intro request hmethod hextends
      have hframe := from_str_of_extends htext hextends
      rw [RpcRequest.decode_encode] at hframe
      obtain ⟨k, hread, hk⟩ := read_turn_parsed decode awaited_id on_callback client hframe
      refine ⟨_, k, hframe, hread, ?_⟩
      rw [hk, if_pos (congrArg some hmethod)]
    · -- neither kind of reply has a method
      have hother : ∀ frame : IncomingFrame, IncomingFrame.from_str X raw = some frame →
          frame.method = none → ∃ frame k, IncomingFrame.from_str X raw = some frame ∧
            read_turn X decode awaited_id on_callback client = .vis .recv_frame k ∧
            k (.ok raw) = .ret (response_of decode awaited_id frame, client) := by
        intro frame hframe hmethod
        obtain ⟨k, hread, hk⟩ := read_turn_parsed decode awaited_id on_callback client hframe
        have hne : ¬ frame.method = some METHOD_SIGN := by
          rw [hmethod]
          exact nofun
        refine ⟨frame, k, hframe, hread, ?_⟩
        rw [hk, if_neg hne]
      rintro (⟨reply, hextends⟩ | ⟨reply, hextends⟩)
      · have hframe := from_str_of_extends htext hextends
        rw [RpcResult.decode_encode] at hframe
        exact hother _ hframe rfl
      · have hframe := from_str_of_extends htext hextends
        rw [RpcErrorReply.decode_encode] at hframe
        exact hother _ hframe rfl

/-- A callback whose context is `Some(null)`, read without one. -/
theorem wire_round_trip_null_context :
    ∃ params, IncomingFrame.from_str Reference.crates (Reference.crates.json.to_string
        (RpcRequest.mk JSONRPC_VERSION 7 METHOD_SIGN
          (SignCallbackParams.mk "session" "op" "spend" "AAEC" (some Value.Null)).encode).encode)
      = some { id := some (Value.of (ofU64 7)), method := some METHOD_SIGN, params := some params,
               result := none, error := none } ∧
      SignCallbackParams.decode params.tree
        = some (SignCallbackParams.mk "session" "op" "spend" "AAEC" none) :=
  (wire_round_trip Reference.lossless.json).1 .SignCallbackParams
    (SignCallbackParams.mk "session" "op" "spend" "AAEC" (some Value.Null)) JSONRPC_VERSION
    METHOD_SIGN 7

end DigIpc
