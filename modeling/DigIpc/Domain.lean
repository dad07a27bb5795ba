/-
`src/domain.rs` and `src/bounds.rs`: the signed-message builders, the key and
signature newtypes, `verify_signature`, and the constants that bound the
channel.

A Rust `[u8; N]` is a byte list that carries its length, so a nonce, a key or a
signature of the wrong size cannot be built. A `&str` is used by the builders
only through `as_bytes`, its UTF-8 encoding.

Four crates the repository calls are not part of it: `serde_json` (its text
codec), `base64`, `hex` and `chia_bls`. They enter as the one parameter
`Crates`; what a result assumes of them it says with `Crates.Faithful`.
-/
import DigIpc.Serde
import Mathlib.Data.List.Basic

set_option autoImplicit false

namespace DigIpc

/-! ## Bytes -/

/-- A Rust byte slice or `Vec<u8>`. -/
abbrev Bytes : Type := List UInt8

/-- `str::as_bytes`: the UTF-8 encoding. -/
def as_bytes (s : String) : Bytes := s.toUTF8.data.toList

/-- `String::from_utf8`. -/
def from_utf8 (bs : Bytes) : Option String := String.fromUTF8? ⟨bs.toArray⟩

/-- A Rust `[u8; N]`. -/
abbrev U8Array (N : ℕ) : Type := { bs : Bytes // bs.length = N }

/-- `TryInto<[u8; N]>` of a byte vector. -/
def try_into (N : ℕ) (bs : Bytes) : Option (U8Array N) :=
  if h : bs.length = N then some ⟨bs, h⟩ else none

@[simp] theorem try_into_val {N : ℕ} (a : U8Array N) : try_into N a.val = some a := by
  simp [try_into, a.property]

theorem try_into_eq_some {N : ℕ} {bs : Bytes} {a : U8Array N} :
    try_into N bs = some a ↔ bs = a.val := by
  constructor
  · intro h
    simp only [try_into] at h
    split at h
    · exact congrArg Subtype.val (Option.some.inj h)
    · cases h
  · rintro rfl
    exact try_into_val a

/-- UTF-8 loses nothing. -/
theorem as_bytes_injective : Function.Injective as_bytes := by
  intro s t h
  apply String.toByteArray_inj.mp
  exact ByteArray.ext (Array.toList_inj.mp h)

theorem as_bytes_append (s t : String) : as_bytes (s ++ t) = as_bytes s ++ as_bytes t := by
  unfold as_bytes
  rw [String.toUTF8_eq_toByteArray, String.toByteArray_append]
  simp

/-- The bytes that decode are the encodings, each of its own string. -/
theorem from_utf8_eq_some {bs : Bytes} {s : String} : from_utf8 bs = some s ↔ as_bytes s = bs := by
  unfold from_utf8 String.fromUTF8?
  constructor
  · intro h
    split at h
    · cases h
      rfl
    · cases h
  · rintro rfl
    have hvalid : ByteArray.IsValidUTF8 ⟨(as_bytes s).toArray⟩ := s.isValidUTF8
    rw [dif_pos hvalid]
    rfl

/-! ## The crates outside the repository -/

/-- `chia_bls`: the point types, their decompression and AugScheme
verification. -/
structure ChiaBls where
  PublicKey : Type
  Signature : Type
  public_key_from_bytes : U8Array 48 → Option PublicKey
  signature_from_bytes : U8Array 96 → Option Signature
  verify : Signature → PublicKey → Bytes → Bool

/-- The third-party crates the repository links against. -/
structure Crates where
  json : Serde.JsonText
  base64_encode : Bytes → String
  base64_decode : String → Option Bytes
  hex_encode : Bytes → String
  hex_decode : String → Option Bytes
  bls : ChiaBls

/-- The three encodings read back what they write: `serde_json` what it promises,
`base64` and `hex` all bytes. -/
structure Crates.Faithful (X : Crates) : Prop where
  json : X.json.Faithful
  base64 : ∀ bs, X.base64_decode (X.base64_encode bs) = some bs
  hex : ∀ bs, X.hex_decode (X.hex_encode bs) = some bs

/-- The three encodings read back all that they write. -/
structure Crates.Lossless (X : Crates) : Prop where
  json : X.json.Lossless
  base64 : ∀ bs, X.base64_decode (X.base64_encode bs) = some bs
  hex : ∀ bs, X.hex_decode (X.hex_encode bs) = some bs

theorem Crates.Lossless.faithful {X : Crates} (hX : X.Lossless) : X.Faithful :=
  ⟨hX.json.faithful, hX.base64, hX.hex⟩

theorem Crates.Faithful.hex_injective {X : Crates} (hX : X.Faithful) :
    Function.Injective X.hex_encode := by
  intro bs bs' h
  have hdec := hX.hex bs
  rw [h, hX.hex] at hdec
  exact (Option.some.inj hdec).symm

/-! ## `src/bounds.rs` -/

/-- The largest single IPC frame a line transport will read. Irreducible, so
that no proof counts up to it by accident. -/
@[irreducible] def MAX_FRAME_BYTES : ℕ := 1024 * 1024

/-- The most `sign` callbacks serviced while awaiting a single response. -/
def MAX_INTERLEAVED_CALLBACKS : ℕ := 64

/-- The most outstanding session candidates the engine holds. -/
def MAX_PENDING_CANDIDATES : ℕ := 256

/-- The capabilities the engine advertises to an attached session. -/
def ENGINE_CAPABILITIES : List String := ["content.serve", "content.fetch", "sync", "subscribe"]

/-! ## Keys, signatures, nonces -/

def SIGNING_KEY_LEN : ℕ := 48
def SIGNATURE_LEN : ℕ := 96
def NONCE_LEN : ℕ := 32

/-- A session-attach challenge nonce. -/
abbrev Nonce : Type := U8Array NONCE_LEN

/-- A compressed G1 signing public key. -/
structure SigningPublicKey where
  bytes : U8Array SIGNING_KEY_LEN
  deriving DecidableEq

namespace SigningPublicKey

def as_bytes (key : SigningPublicKey) : Bytes := key.bytes.val

/-- The lowercase-hex encoding, the form carried on the wire. -/
def to_hex (X : Crates) (key : SigningPublicKey) : String := X.hex_encode key.bytes.val

/-- Parse a hex public key; `none` unless it is exactly `SIGNING_KEY_LEN` bytes. -/
def from_hex (X : Crates) (hex_str : String) : Option SigningPublicKey := do
  let bytes ← X.hex_decode hex_str
  return ⟨← try_into SIGNING_KEY_LEN bytes⟩

theorem from_hex_to_hex {X : Crates} (hX : X.Faithful) (key : SigningPublicKey) :
    from_hex X (key.to_hex X) = some key := by
  simp [from_hex, to_hex, hX.hex]

end SigningPublicKey

/-- A compressed G2 signature. -/
structure Signature where
  bytes : U8Array SIGNATURE_LEN
  deriving DecidableEq

/-- The raw signature bytes. -/
def Signature.as_bytes (signature : Signature) : Bytes := signature.bytes.val

/-! ## The signed messages -/

/-- `b"DIGNET-SESSION-v1"` -/
def SESSION_CHALLENGE_DOMAIN : Bytes := as_bytes "DIGNET-SESSION-v1"

/-- `b"DIGNET-SIGN-v1"` -/
def SIGN_CALLBACK_DOMAIN : Bytes := as_bytes "DIGNET-SIGN-v1"

/-- `b"DIGNET-USER-SIGN-v1"` -/
def USER_SIGN_DOMAIN : Bytes := as_bytes "DIGNET-USER-SIGN-v1"

/-- `u16::try_from` of a length. -/
def u16_try_from (n : ℕ) : Option UInt16 :=
  if n < 2 ^ 16 then some (UInt16.ofNat n) else none

/-- `u16::to_be_bytes`. -/
def to_be_bytes (n : UInt16) : Bytes := [(n >>> 8).toUInt8, n.toUInt8]

/-- The bytes signed to attach a session: `DOMAIN ‖ nonce ‖ profile_did`. The
builder takes a nonce of any length; its callers hold it to `NONCE_LEN`. -/
def challenge_message (nonce : Bytes) (profile_did : String) : Bytes :=
  SESSION_CHALLENGE_DOMAIN ++ nonce ++ DigIpc.as_bytes profile_did

/-- The bytes signed for an engine `sign` callback:
`DOMAIN ‖ len16(payload_type) ‖ payload_type ‖ payload`. -/
def sign_callback_message (payload_type : String) (payload : Bytes) : Option Bytes := do
  let type_len ← u16_try_from (DigIpc.as_bytes payload_type).length
  return SIGN_CALLBACK_DOMAIN ++ to_be_bytes type_len ++ DigIpc.as_bytes payload_type ++ payload

/-- The bytes signed for a user-initiated `dign sign`: `DOMAIN ‖ message`. -/
def user_sign_message (message : Bytes) : Bytes := USER_SIGN_DOMAIN ++ message

/-- Verify a signature over `message`; malformed key or signature bytes fail
closed. -/
def verify_signature (X : Crates) (signing_public_key : SigningPublicKey) (message : Bytes)
    (signature : Signature) : Bool :=
  match X.bls.public_key_from_bytes signing_public_key.bytes,
    X.bls.signature_from_bytes signature.bytes with
  | some public_key, some signature => X.bls.verify signature public_key message
  | _, _ => false

end DigIpc
