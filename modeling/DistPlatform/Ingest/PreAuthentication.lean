import DistPlatform.Library.Framing
import DistPlatform.Ingest.Signatures

/-!
# The pre-authentication encoding (`_pae`)

A signature covers the payload type and the payload, each behind its length in bytes. The
encoding is two frames behind a fixed header, so it is read back in one way, whatever digits and
spaces the type and the payload hold.
-/

namespace DistPlatform.Ingest

open Fallible

/-! ## The encoding -/

/-- The header, the type's frame, a space and the payload's frame. -/
theorem pae_eq_frames (payloadType : String) (payload : Bytes) :
    pae payloadType payload = Utf8.bytes "DSSEv1 " ++
      (decimalCode.frame (Utf8.bytes payloadType) ++ 32 :: decimalCode.frame payload) := by
  have hspace : Utf8.bytes " " = [32] := by
    rw [Utf8.bytes_eq]
    decide
  have hpae : pae payloadType payload = Utf8.bytes "DSSEv1 " ++
      decimalBytes (Utf8.bytes payloadType).length ++ Utf8.bytes " " ++ Utf8.bytes payloadType ++
        Utf8.bytes " " ++ decimalBytes payload.length ++ Utf8.bytes " " ++ payload := rfl
  simp [hpae, hspace, LengthCode.frame, decimalCode]

theorem pae_injective {payloadType payloadType' : String} {payload payload' : Bytes}
    (h : pae payloadType payload = pae payloadType' payload') :
    payloadType = payloadType' ∧ payload = payload' := by
  rw [pae_eq_frames, pae_eq_frames] at h
  have hframes := List.append_cancel_left h
  obtain ⟨htype, hrest⟩ := decimalCode.frame_append_inj.mp hframes
  have hpayload := (List.cons.inj hrest).2
  exact ⟨Utf8.bytes_injective htype, decimalCode.frame_inj.mp hpayload⟩

/-- Typed payloads are told apart by their encodings. -/
theorem pae_eq_iff {payloadType payloadType' : String} {payload payload' : Bytes} :
    pae payloadType payload = pae payloadType' payload' ↔
      payloadType = payloadType' ∧ payload = payload' := by
  constructor
  · exact pae_injective
  · rintro ⟨rfl, rfl⟩
    rfl

end DistPlatform.Ingest
