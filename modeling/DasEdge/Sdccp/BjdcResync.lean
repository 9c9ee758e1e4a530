import DasEdge.Sdccp.BjdcRoundTrip

/-!
# Finding BJDC frames behind noise

When four bytes are no header, the receiver goes back to its third place and leaves the first two
bytes in the buffer. They are compared with everything that comes, so a header is found only when
the noise began with the first half of one. A frame behind noise is therefore received only when the
noise itself was taken for frames up to its last byte. A frame with an end marker in its data, far
enough behind its beginning, is lost even without noise.
-/

namespace DasEdge.Sdccp

open DasEdge.Library

/-- The last byte of the frame for a string makes the receiver call the parser with that frame's
package. -/
def BjdcReceiver.Delivers (aes : Aes) (r : BjdcReceiver) (xml : List UInt8) : Prop :=
  ∃ xPack, (ccBjdcPutBytes aes r (ccBjdcSendXmlpack aes xml)).parsed =
      (ccBjdcPutBytes aes r (ccBjdcSendXmlpack aes xml).dropLast).parsed ++ [xPack] ∧
    xPack.ulLen = bjdcUlLen xml ∧ TextAt xPack.pData xml

/-- The place at which a package is accepted follows from the length that it states. -/
theorem bjdcAccepted_place {aes : Aes} {xml : List UInt8} {pBuffer : ℕ → UInt8} {nPos : ℕ}
    (hfits : (ccBjdcSendXmlpack aes xml).length < ccBjdcBufSize) (hnPos : nPos < ccBjdcBufSize)
    (h : bjdcAccepted pBuffer nPos = true) (hulLen : (bjdcPackage pBuffer nPos).ulLen = bjdcUlLen xml) :
    nPos = (ccBjdcSendXmlpack aes xml).length := by
  unfold bjdcAccepted at h
  rw [Bool.and_eq_true, decide_eq_true_eq, hulLen] at h
  have hnat := congrArg UInt32.toNat h.1
  rw [UInt32.toNat_add, bjdcUlLen_toNat hfits, Nat.toUInt32_eq] at hnat
  rw [ccBjdcSendXmlpack_length] at hfits ⊢
  rw [ccBjdcBufSize] at hfits hnPos
  rw [UInt32.toNat_ofNat_of_lt' (by change nPos < 2 ^ 32; omega)] at hnat
  change (_ + 14) % 2 ^ 32 = nPos at hnat
  omega

/-- A frame is delivered exactly when the receiver stores it from the beginning of its buffer on and
it has no early end. -/
theorem delivers_iff {aes : Aes} (haes : aes.Inverts) {xml : List UInt8} (hxml : 0 ∉ xml)
    {r : BjdcReceiver} {s : Scan UInt8}
    (hfollows : r.Follows s) (hfits : (ccBjdcSendXmlpack aes xml).length < ccBjdcBufSize) :
    r.Delivers aes xml ↔ bjdcFormat.place s = 0 ∧
      bjdcFormat.NoEarlyEnd (ccBjdcSendXmlpack aes xml) := by
  obtain ⟨init, last, hframe⟩ : ∃ init last, ccBjdcSendXmlpack aes xml = init ++ [last] := by
    have hne : ccBjdcSendXmlpack aes xml ≠ [] := by
      refine List.ne_nil_of_length_pos ?_
      rw [ccBjdcSendXmlpack_length]
      exact Nat.zero_lt_succ _
    exact ⟨_, _, (List.dropLast_concat_getLast hne).symm⟩
  have hleast : bjdcFormat.least ≤ (init ++ [last]).length := by
    rw [← hframe, ccBjdcSendXmlpack_length]
    exact Nat.le_add_left 18 _
  have hheader : bjdcFormat.half ++ bjdcFormat.half <+: init ++ [last] :=
    hframe ▸ header_prefix_frame aes xml
  have hmarker : bjdcFormat.marker <:+ init ++ [last] := hframe ▸ marker_suffix_frame aes xml
  have hsmall : (init ++ [last]).length < bjdcFormat.size := hframe ▸ hfits
  obtain ⟨-, cuts, hcuts, hparsed⟩ := (hfollows.run aes init).1.step aes last
  have hstep : ccBjdcPutBytes aes r (init ++ [last]) =
      ccBjdcPutByte aes (ccBjdcPutBytes aes r init) last :=
    List.foldl_append
  have hinit : (ccBjdcSendXmlpack aes xml).dropLast = init := by rw [hframe, List.dropLast_concat]
  rw [← hstep, ← hframe] at hparsed
  unfold BjdcReceiver.Delivers
  rw [hinit, hparsed]
  constructor
  · rintro ⟨xPack, hdelivered, hulLen, -⟩
    have hdelivered := List.append_cancel_left hdelivered
    cases hother : (bjdcFormat.scanStep (bjdcFormat.scan s init).1 last).2 with
    | none =>
      rw [hother, Option.toList_none, List.forall₂_nil_left_iff] at hcuts
      rw [hcuts] at hdelivered
      cases hdelivered
    | some other =>
      rw [hother, Option.toList_some, List.forall₂_cons_left_iff] at hcuts
      obtain ⟨⟨pBuffer, nPos⟩, rest, hcut, hrest, rfl⟩ := hcuts
      obtain rfl := List.forall₂_nil_left_iff.mp hrest
      rw [bjdcDeliveries_singleton] at hdelivered
      split at hdelivered
      · next haccepted =>
        obtain rfl := List.singleton_inj.mp hdelivered
        have hnPos : nPos < ccBjdcBufSize := hcut.2.trans_lt (Nat.mod_lt _ (by decide))
        have hplace := bjdcAccepted_place hfits hnPos haccepted hulLen
        rw [hframe] at hplace ⊢
        exact bjdcFormat.of_scan_last hheader hmarker hsmall hfollows.2.1 hother
          (hcut.2.symm.trans hplace)
      · cases hdelivered
  · rintro ⟨hplace, hearly⟩
    rw [hframe] at hearly
    obtain ⟨left, hother, hlength⟩ := bjdcFormat.scan_last hheader hmarker hsmall hplace hearly hleast
    rw [← hframe] at hother hlength
    rw [hother, Option.toList_some, List.forall₂_cons_left_iff] at hcuts
    obtain ⟨⟨pBuffer, nPos⟩, rest, hcut, hrest, rfl⟩ := hcuts
    obtain rfl := List.forall₂_nil_left_iff.mp hrest
    obtain ⟨hshows, rfl⟩ := hcut.showsAt hlength
    rw [bjdcDeliveries_singleton, if_pos (bjdcAccepted_frame hfits hshows)]
    exact ⟨_, rfl, (showsAt_frame hshows).1, textAt_bjdcDelivered haes hxml hfits hshows⟩

/-- A frame behind noise is delivered exactly when the noise was taken for frames up to its end and
the frame has no early end. -/
theorem delivers_behind_noise_iff (aes : Aes) (xml : List UInt8) (r : BjdcReceiver)
    (noise : List UInt8) (haes : aes.Inverts)
    (hxml : 0 ∉ xml) (hidle : r.Idle) (hfits : (ccBjdcSendXmlpack aes xml).length < ccBjdcBufSize) :
    (ccBjdcPutBytes aes r noise).Delivers aes xml ↔
      bjdcFormat.Absorbed noise ∧ bjdcFormat.NoEarlyEnd (ccBjdcSendXmlpack aes xml) := by
  rw [delivers_iff haes hxml (hidle.follows.run aes noise).1 hfits, FrameFormat.place_scan_eq_zero_iff]

/-- A string in a frame behind one stray byte. -/
theorem delivers_behind_noise_iff_root :
    (ccBjdcPutBytes rootAes ⟨fun _ => 0, 0, .head, []⟩ [0]).Delivers rootAes rootXml ↔
      bjdcFormat.Absorbed [0] ∧ bjdcFormat.NoEarlyEnd (ccBjdcSendXmlpack rootAes rootXml) :=
  delivers_behind_noise_iff rootAes rootXml ⟨fun _ => 0, 0, .head, []⟩ [0]
    (fun data _ => swapRoot_swapRoot data)
    (by decide) ⟨rfl, rfl⟩ (by decide)

/-- One stray byte is enough to lose a frame. -/
theorem delivers_behind_noise_fails :
    ¬ ∀ (aes : Aes) (xml : List UInt8) (r : BjdcReceiver) (noise : List UInt8), aes.Inverts →
      0 ∉ xml → r.Idle →
      (∀ left right, noise ++ ccBjdcSendXmlpack aes xml = left ++ (uint32Bytes ccBjdcPre ++ right) →
        noise.length ≤ left.length) →
      (ccBjdcSendXmlpack aes xml).length < ccBjdcBufSize →
      (ccBjdcPutBytes aes r noise).Delivers aes xml := by
  intro h
  have hidle : (⟨fun _ => 0, 0, .head, []⟩ : BjdcReceiver).Idle := ⟨rfl, rfl⟩
  have hinverts : rootAes.Inverts := fun data _ => swapRoot_swapRoot data
  have hfirst : ∀ left right, [0] ++ ccBjdcSendXmlpack rootAes rootXml =
    left ++ (uint32Bytes ccBjdcPre ++ right) →
      ([0] : List UInt8).length ≤ left.length := by
    intro left right heq
    cases left with
    | nil => exact absurd (List.cons.inj heq).1 (by decide)
    | cons byte left => exact Nat.le_add_left 1 _
  have hdelivers := h rootAes rootXml _ [0] hinverts (by decide) hidle hfirst (by decide)
  have hplace :=
    ((delivers_iff hinverts (by decide) (hidle.follows.run rootAes [0]).1 (by decide)).mp
    hdelivers).1
  exact absurd hplace (by decide)

end DasEdge.Sdccp
