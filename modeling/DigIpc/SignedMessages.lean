/-
The three signed-message formats, together: one injective encoding of
*(purpose, fields)*.

The three layouts are delimited in three ways: the challenge by the fixed length
of its nonce, the callback by a `u16` length prefix, the user message not at
all. Injectivity of each is the matching cancellation. That no message of one
purpose is, or starts, a message of another needs nothing of the fields: the
tags are pairwise apart (`SESSION` and `SIGN` differ at byte 8, `USER` from both
at byte 7), and `Tagged.Apart.append` does the rest.
-/
import DigIpc.Domain
import DigIpc.Tagged

set_option autoImplicit false

open Tagged

namespace DigIpc

/-! ## The tags -/

theorem session_apart_callback : Apart SESSION_CHALLENGE_DOMAIN SIGN_CALLBACK_DOMAIN :=
  Apart.of_getElem?_ne (i := 8) rfl rfl (by decide)

theorem session_apart_user : Apart SESSION_CHALLENGE_DOMAIN USER_SIGN_DOMAIN :=
  Apart.of_getElem?_ne (i := 7) rfl rfl (by decide)

theorem callback_apart_user : Apart SIGN_CALLBACK_DOMAIN USER_SIGN_DOMAIN :=
  Apart.of_getElem?_ne (i := 7) rfl rfl (by decide)

/-! ## The length prefix -/

/-- The two bytes of a `u16`, read back. -/
theorem to_be_bytes_value (n : UInt16) :
    ∃ hi lo, to_be_bytes n = [hi, lo] ∧ 256 * hi.toNat + lo.toNat = n.toNat := by
  refine ⟨(n >>> 8).toUInt8, n.toUInt8, rfl, ?_⟩
  have hn : n.toNat < 2 ^ 16 := n.toNat_lt
  have hhi : (n >>> 8).toUInt8.toNat = n.toNat / 256 % 256 := by
    simp [Nat.shiftRight_eq_div_pow]
  have hlo : n.toUInt8.toNat = n.toNat % 256 := by simp
  rw [hhi, hlo]
  omega

/-- What a built callback message looks like: the length prefix is the length. -/
theorem sign_callback_message_eq_some {payload_type : String} {payload message : Bytes} :
    sign_callback_message payload_type payload = some message ↔
      (as_bytes payload_type).length < 2 ^ 16 ∧
      message = SIGN_CALLBACK_DOMAIN ++ to_be_bytes (UInt16.ofNat (as_bytes payload_type).length)
        ++ as_bytes payload_type ++ payload := by
  by_cases hlt : (as_bytes payload_type).length < 2 ^ 16
  · simp only [sign_callback_message, u16_try_from, if_pos hlt]
    exact ⟨fun h => ⟨hlt, (Option.some.inj h).symm⟩, fun h => congrArg some h.2.symm⟩
  · simp only [sign_callback_message, u16_try_from, if_neg hlt]
    constructor
    · intro h; cases h
    · intro h; exact absurd h.1 hlt

theorem sign_callback_message_eq_none {payload_type : String} {payload : Bytes} :
    sign_callback_message payload_type payload = none ↔
      65535 < (as_bytes payload_type).length := by
  rw [← Option.not_isSome_iff_eq_none, Option.isSome_iff_exists]
  simp only [sign_callback_message_eq_some, exists_and_left, exists_eq, and_true]
  omega

/-- The prefix of a built message is the exact length of its payload type. -/
theorem sign_callback_message_prefix {payload_type : String} {payload message : Bytes}
    (h : sign_callback_message payload_type payload = some message) :
    ∃ hi lo, message = SIGN_CALLBACK_DOMAIN ++ hi :: lo :: (as_bytes payload_type ++ payload) ∧
      256 * hi.toNat + lo.toNat = (as_bytes payload_type).length := by
  obtain ⟨hlt, rfl⟩ := sign_callback_message_eq_some.mp h
  obtain ⟨hi, lo, hbytes, hval⟩ := to_be_bytes_value (UInt16.ofNat (as_bytes payload_type).length)
  refine ⟨hi, lo, by rw [hbytes]; simp, ?_⟩
  rw [hval, UInt16.toNat_ofNat']
  exact Nat.mod_eq_of_lt hlt

/-! ## Injectivity of each builder -/

/-- The fixed length of the nonce is the delimiter. -/
theorem challenge_message_injective {n n' : Nonce} {d d' : String}
    (h : challenge_message n.val d = challenge_message n'.val d') : n = n' ∧ d = d' := by
  simp only [challenge_message, List.append_assoc, List.append_cancel_left_eq] at h
  obtain ⟨hn, hd⟩ := List.append_inj h (n.property.trans n'.property.symm)
  exact ⟨Subtype.ext hn, as_bytes_injective hd⟩

/-- The length prefix is the delimiter. -/
theorem sign_callback_message_injective {t t' : String} {p p' c : Bytes}
    (h : sign_callback_message t p = some c) (h' : sign_callback_message t' p' = some c) :
    t = t' ∧ p = p' := by
  obtain ⟨hi, lo, hc, hlen⟩ := sign_callback_message_prefix h
  obtain ⟨hi', lo', hc', hlen'⟩ := sign_callback_message_prefix h'
  rw [hc, List.append_cancel_left_eq] at hc'
  obtain ⟨rfl, rfl, hbody⟩ : hi = hi' ∧ lo = lo' ∧ as_bytes t ++ p = as_bytes t' ++ p' := by
    simpa using hc'
  obtain ⟨ht, hp⟩ := List.append_inj hbody (hlen.symm.trans hlen')
  exact ⟨as_bytes_injective ht, hp⟩

theorem user_sign_message_injective {m m' : Bytes} (h : user_sign_message m = user_sign_message m') :
    m = m' := List.append_cancel_left h

/-! ## Separation of the purposes -/

/-- A built callback message starts with its tag. -/
theorem sign_callback_message_tagged {t : String} {p c : Bytes}
    (h : sign_callback_message t p = some c) : ∃ rest, c = SIGN_CALLBACK_DOMAIN ++ rest := by
  obtain ⟨hi, lo, hc, -⟩ := sign_callback_message_prefix h
  exact ⟨_, hc⟩

theorem challenge_apart_callback (nonce : Bytes) (d : String) {t : String} {p c : Bytes}
    (h : sign_callback_message t p = some c) : Apart (challenge_message nonce d) c := by
  obtain ⟨rest, rfl⟩ := sign_callback_message_tagged h
  rw [challenge_message, List.append_assoc]
  exact session_apart_callback.append _ _

theorem challenge_apart_user (nonce : Bytes) (d : String) (m : Bytes) :
    Apart (challenge_message nonce d) (user_sign_message m) := by
  rw [challenge_message, List.append_assoc]
  exact session_apart_user.append _ _

theorem callback_apart_user_message {t : String} {p c : Bytes}
    (h : sign_callback_message t p = some c) (m : Bytes) : Apart c (user_sign_message m) := by
  obtain ⟨rest, rfl⟩ := sign_callback_message_tagged h
  exact callback_apart_user.append _ _

/-! ## The contract -/

/-- **The formats are one injective encoding.** Each builder is injective (the
challenge builder on nonces of the contract's length, the callback builder on
the payload types it accepts), messages of different purposes are apart, and
the callback builder refuses exactly the payload types whose length does not
fit its prefix, so the prefix it writes is the length. -/
theorem signed_messages_contract :
    (∀ (n n' : Nonce) (d d' : String),
      challenge_message n.val d = challenge_message n'.val d' → n = n' ∧ d = d') ∧
    (∀ (t t' : String) (p p' : Bytes), (as_bytes t).length ≤ 65535 →
      (as_bytes t').length ≤ 65535 →
      sign_callback_message t p = sign_callback_message t' p' → t = t' ∧ p = p') ∧
    (∀ m m' : Bytes, user_sign_message m = user_sign_message m' → m = m') ∧
    (∀ (nonce : Bytes) (d t : String) (p c m : Bytes), sign_callback_message t p = some c →
      Apart (challenge_message nonce d) c ∧
      Apart (challenge_message nonce d) (user_sign_message m) ∧
      Apart c (user_sign_message m)) ∧
    (∀ (t : String) (p : Bytes),
      sign_callback_message t p = none ↔ 65535 < (as_bytes t).length) ∧
    (∀ (t : String) (p c : Bytes), sign_callback_message t p = some c →
      ∃ hi lo, c = SIGN_CALLBACK_DOMAIN ++ hi :: lo :: (as_bytes t ++ p) ∧
        256 * hi.toNat + lo.toNat = (as_bytes t).length) := by
  refine ⟨fun _ _ _ _ h => challenge_message_injective h, ?_,
    fun _ _ h => user_sign_message_injective h, ?_,
    fun _ _ => sign_callback_message_eq_none, fun _ _ _ h => sign_callback_message_prefix h⟩
  · intro t t' p p' ht ht' h
    obtain ⟨c, hc⟩ : ∃ c, sign_callback_message t p = some c :=
      ⟨_, sign_callback_message_eq_some.mpr ⟨by omega, rfl⟩⟩
    exact sign_callback_message_injective hc (h ▸ hc)
  · intro nonce d t p c m h
    exact ⟨challenge_apart_callback nonce d h, challenge_apart_user nonce d m,
      callback_apart_user_message h m⟩

/-- The boundary between payload type and payload cannot be shifted. -/
theorem signed_messages_contract_boundary :
    sign_callback_message "a" (as_bytes "bc") ≠ sign_callback_message "ab" (as_bytes "c") := by
  intro h
  have := (signed_messages_contract.2.1 "a" "ab" _ _ (by decide) (by decide) h).1
  exact absurd this (by decide)

end DigIpc
