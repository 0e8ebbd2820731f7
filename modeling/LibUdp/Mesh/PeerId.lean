import LibUdp.Mesh.Peer

/-!
# Peer ids from outside

`from_peer_id` reads the port with `std::stoi`, which skips white space, takes a sign and stops at
the first character that is no digit, and cuts the number down to 16 bits. It cuts a peer id at the
first colon, `to_peer_id` puts the port behind the last one.
-/

namespace Mesh

open Text

/-- Decimal digits that denote a port. -/
def IsPort (digits : Text) : Prop :=
  digits ≠ [] ∧ (∀ c ∈ digits, c.isDigit = true) ∧ ofDigits 10 digits ≤ 65535

instance (digits : Text) : Decidable (IsPort digits) :=
  inferInstanceAs (Decidable (digits ≠ [] ∧ (∀ c ∈ digits, c.isDigit = true) ∧
    ofDigits 10 digits ≤ 65535))

namespace Endpoint

/-- Unless it is the error endpoint, the result has the address and the port of the peer id. -/
def AcceptsExactly (peerId : Text) : Prop :=
  fromPeerId peerId ≠ ⟨[], 0⟩ →
    ':' ∈ peerId ∧ IsPort (after ':' peerId) ∧
      (fromPeerId peerId).address = before ':' peerId ∧
      (fromPeerId peerId).port.toNat = ofDigits 10 (after ':' peerId)

variable {peerId : Text}

lemma fromPeerId_of_ok (hcolon : ':' ∈ peerId) {number : Int32} {pos : ℕ}
    (h : stoi (after ':' peerId) = .ok (number, pos)) :
    fromPeerId peerId = ⟨before ':' peerId, .ofInt number.toInt⟩ := by
  simp [fromPeerId, hcolon, h]

/-- The conversion to 16 bits. -/
lemma toNat_ofInt (n : ℤ) : (UInt16.ofInt n).toNat = (n % 65536).toNat := by
  have hlt : (n % 65536).toNat < 2 ^ 16 := by omega
  exact UInt16.toNat_ofNat_of_lt' hlt

/-- Where the text after the colon is a port, that is what is read. -/
lemma stoi_of_isPort {digits : Text} (h : IsPort digits) :
    ∃ number pos, stoi digits = .ok (number, pos) ∧ number.toInt = ofDigits 10 digits := by
  obtain ⟨hne, hdigits, hle⟩ := h
  rw [stoi_of_isDigit hne hdigits, toInt32?, if_pos (by omega)]
  exact ⟨_, _, rfl, Int32.toInt_ofInt_of_le (by omega) (by omega)⟩

lemma acceptsExactly_of_isPort (hcolon : ':' ∈ peerId) (h : IsPort (after ':' peerId)) :
    AcceptsExactly peerId := by
  obtain ⟨number, pos, hstoi, hnumber⟩ := stoi_of_isPort h
  intro _
  rw [fromPeerId_of_ok hcolon hstoi, hnumber]
  refine ⟨hcolon, h, rfl, ?_⟩
  have hle := h.2.2
  rw [toNat_ofInt]
  omega

lemma fromPeerId_eq_error_iff (hcolon : ':' ∈ peerId) {number : Int32} {pos : ℕ}
    (h : stoi (after ':' peerId) = .ok (number, pos)) :
    fromPeerId peerId = ⟨[], 0⟩ ↔ before ':' peerId = [] ∧ (65536 : ℤ) ∣ number.toInt := by
  rw [fromPeerId_of_ok hcolon h, Endpoint.mk.injEq, ← UInt16.toNat_inj, toNat_ofInt]
  refine and_congr_right fun _ => ?_
  rw [UInt16.toNat_zero]
  omega

/-- The peer ids that are taken for what they are: those without a colon or with a text after it
that `std::stoi` rejects, those with a port, and those for which the error endpoint is made out of
an empty address and a multiple of 65536. -/
theorem acceptsExactly_iff (peerId : Text) :
    AcceptsExactly peerId ↔ ∀ number pos, ':' ∈ peerId →
      stoi (after ':' peerId) = .ok (number, pos) →
        IsPort (after ':' peerId) ∨ before ':' peerId = [] ∧ (65536 : ℤ) ∣ number.toInt := by
  constructor
  · intro h number pos hcolon hstoi
    by_cases herror : fromPeerId peerId = ⟨[], 0⟩
    · exact .inr ((fromPeerId_eq_error_iff hcolon hstoi).mp herror)
    · exact .inl (h herror).2.1
  · intro h hne
    by_cases hcolon : ':' ∈ peerId
    · cases hstoi : stoi (after ':' peerId) with
      | error e => simp [fromPeerId, hcolon, hstoi] at hne
      | ok result =>
        obtain ⟨number, pos⟩ := result
        rcases h number pos hcolon hstoi with hport | herror
        · exact acceptsExactly_of_isPort hcolon hport hne
        · exact absurd ((fromPeerId_eq_error_iff hcolon hstoi).mpr herror) hne
    · simp [fromPeerId, hcolon] at hne

/-- Numbers that are too large, negative or followed by other text become valid ports. -/
theorem not_acceptsExactly :
    fromPeerId "10.0.0.1:70000".toList = ⟨"10.0.0.1".toList, 4464⟩ ∧
      fromPeerId "10.0.0.1:-1".toList = ⟨"10.0.0.1".toList, 65535⟩ ∧
      fromPeerId "10.0.0.1:80abc".toList = ⟨"10.0.0.1".toList, 80⟩ ∧
      ¬ ∀ peerId, AcceptsExactly peerId := by
  refine ⟨rfl, rfl, rfl, ?_⟩
  intro h
  obtain ⟨-, ⟨-, -, hle⟩, -⟩ := h "10.0.0.1:70000".toList (by decide)
  have hvalue : ofDigits 10 (after ':' "10.0.0.1:70000".toList) = 70000 := rfl
  omega

/-! ### Peer ids of endpoints -/

lemma isPort_decimal (port : UInt16) : IsPort (decimal port.toNat) := by
  refine ⟨decimal_ne_nil _, fun c hc => isDigit_of_mem_decimal hc, ?_⟩
  have hlt : port.toNat < 65536 := port.toNat_lt
  rw [ofDigits_decimal]
  omega

/-- The address that is read has no colon, as the peer id is cut at the first one. -/
lemma not_mem_address_fromPeerId (peerId : Text) : ':' ∉ (fromPeerId peerId).address := by
  by_cases hcolon : ':' ∈ peerId
  · cases hstoi : stoi (after ':' peerId) with
    | error e => simp [fromPeerId, hcolon, hstoi]
    | ok result =>
      obtain ⟨number, pos⟩ := result
      rw [fromPeerId_of_ok hcolon hstoi]
      exact not_mem_before ':' peerId
  · simp [fromPeerId, hcolon]

lemma fromPeerId_toPeerId {e : Endpoint} (h : ':' ∉ e.address) : fromPeerId e.toPeerId = e := by
  have hcolon : ':' ∈ e.toPeerId := by
    rw [toPeerId_eq]
    exact List.mem_append_right _ List.mem_cons_self
  have hbefore : before ':' e.toPeerId = e.address := by
    rw [toPeerId_eq, before_append_cons h]
  have hafter : after ':' e.toPeerId = decimal e.port.toNat := by
    rw [toPeerId_eq, after_append_cons h]
  obtain ⟨number, pos, hstoi, hnumber⟩ := stoi_of_isPort (isPort_decimal e.port)
  rw [ofDigits_decimal] at hnumber
  have hport : UInt16.ofInt number.toInt = e.port := by
    have hlt : e.port.toNat < 65536 := e.port.toNat_lt
    rw [← UInt16.toNat_inj, toNat_ofInt, hnumber]
    omega
  rw [fromPeerId_of_ok hcolon (by rw [hafter]; exact hstoi), hbefore, hport]

/-- An endpoint is read back from its peer id if and only if its address has no colon. -/
theorem fromPeerId_toPeerId_iff (e : Endpoint) :
    fromPeerId e.toPeerId = e ↔ ':' ∉ e.address := by
  constructor
  · intro h
    rw [← h]
    exact not_mem_address_fromPeerId e.toPeerId
  · exact fromPeerId_toPeerId

end Endpoint

end Mesh
