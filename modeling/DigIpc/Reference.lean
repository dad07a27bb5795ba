/-
A concrete choice of the crates outside the repository, with what results assume
of them proved.

The codecs are the real formats. The signature scheme is a stand-in with one
signer: a signature is the message itself, padded to length with its length in
front, so a signature verifies exactly one message and only short messages are
ever signed. The entropy repeats after 2^16 draws.
-/
import DigIpc.CompactJson
import DigIpc.Transport

set_option autoImplicit false

namespace DigIpc

namespace Reference

/-! ## The signature scheme -/

/-- The longest message the stand-in signs. -/
def MAX_MESSAGE : ℕ := 95

/-- The one signer's signature. -/
def sign (message : Bytes) : Signature :=
  ⟨⟨(UInt8.ofNat message.length :: message ++ List.replicate 96 0).take 96, by
    rw [List.length_take, List.length_append, List.length_replicate]
    exact Nat.min_eq_left (Nat.le_add_left _ _)⟩⟩

/-- Whether a signature is the signer's on this message. -/
def verify (signature : U8Array 96) (_ : U8Array 48) (message : Bytes) : Bool :=
  decide (message.length ≤ MAX_MESSAGE ∧ signature.val = (sign message).bytes.val)

def bls : ChiaBls where
  PublicKey := U8Array 48
  Signature := U8Array 96
  public_key_from_bytes := some
  signature_from_bytes := some
  verify := verify

/-- A short message, read back from its signature. -/
theorem sign_injective {m m' : Bytes} (hm : m.length ≤ MAX_MESSAGE) (hm' : m'.length ≤ MAX_MESSAGE)
    (h : sign m = sign m') : m = m' := by
  have hbytes : (UInt8.ofNat m.length :: m ++ List.replicate 96 0).take 96
      = (UInt8.ofNat m'.length :: m' ++ List.replicate 96 0).take 96 :=
    congrArg (fun s : Signature => s.bytes.val) h
  unfold MAX_MESSAGE at hm hm'
  have htake : ∀ n : Bytes, n.length ≤ 95 →
      (UInt8.ofNat n.length :: n ++ List.replicate 96 0).take 96
        = UInt8.ofNat n.length :: (n ++ List.replicate (95 - n.length) 0) := by
    intro n hn
    rw [List.cons_append, List.take_succ_cons, List.take_append, List.take_of_length_le hn,
      List.take_replicate, Nat.min_eq_left (by omega)]
  rw [htake m hm, htake m' hm'] at hbytes
  obtain ⟨hlen, hbody⟩ := List.cons.inj hbytes
  have hlen' : m.length = m'.length := by
    have := congrArg UInt8.toNat hlen
    rw [UInt8.toNat_ofNat', UInt8.toNat_ofNat'] at this
    omega
  exact List.append_inj_left hbody hlen'

/-! ## The crates -/

def crates : Crates where
  json := CompactJson.codec
  base64_encode bs := String.ofList (Encodings.Base64.encode bs)
  base64_decode s := Encodings.Base64.decode s.toList
  hex_encode bs := String.ofList (Encodings.Hex.encode bs)
  hex_decode s := Encodings.Hex.decode s.toList
  bls := bls

theorem lossless : crates.Lossless where
  json := CompactJson.codec_lossless
  base64 bs := by
    simp only [crates, String.toList_ofList]
    exact Encodings.Base64.decode_encode bs
  hex bs := by
    simp only [crates, String.toList_ofList]
    exact Encodings.Hex.decode_encode bs

theorem faithful : crates.Faithful := lossless.faithful

theorem verify_signature_iff {key : SigningPublicKey} {message : Bytes} {signature : Signature} :
    verify_signature crates key message signature = true ↔
      message.length ≤ MAX_MESSAGE ∧ signature = sign message := by
  have hsig : signature.bytes.val = (sign message).bytes.val ↔ signature = sign message := by
    constructor
    · intro h
      cases signature
      exact congrArg Signature.mk (Subtype.ext h)
    · rintro rfl
      rfl
  simp only [verify_signature, crates, bls, verify, decide_eq_true_eq, hsig]

/-! ## Keys and entropy -/

def key : SigningPublicKey := ⟨⟨List.replicate 48 1, by decide⟩⟩

def stream (n : ℕ) : Nonce :=
  ⟨UInt8.ofNat (n / 256) :: List.replicate 31 (UInt8.ofNat n), by simp [NONCE_LEN]⟩

theorem distinct {entropy : SessionEntropy} (hstream : entropy.stream = stream)
    (hdrawn : entropy.drawn ≤ 2 ^ 16) : entropy.Distinct := by
  intro i j hi hj heq
  rw [hstream] at heq
  obtain ⟨hhi, hlo⟩ := List.cons.inj (congrArg Subtype.val heq)
  have hlo' : UInt8.ofNat i = UInt8.ofNat j := (List.replicate_right_inj (by decide)).mp hlo
  have hhi_nat := congrArg UInt8.toNat hhi
  have hlo_nat := congrArg UInt8.toNat hlo'
  rw [UInt8.toNat_ofNat', UInt8.toNat_ofNat'] at hhi_nat hlo_nat
  omega

end Reference

end DigIpc
