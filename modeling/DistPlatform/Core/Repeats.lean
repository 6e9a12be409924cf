import DistPlatform.Core.Continuity

/-!
# Operations that leave the snapshot as it is

Where the last snapshot records the next version of a role already, an operation that writes that
version has nothing left to publish, and needs no keys for it. The same holds when it is killed
and run again.

## Main results

* `perform_repeats` — where such an operation is killed, only its own role has changed.
* `Repeats.again` — what publishing takes is there for the second run.
-/

namespace DistPlatform.Core

open DistPlatform
open Runs History

section Stands

variable {β : Type} {out : Outside β} {s s' : Session β} {role other : String} {md : Metadata}

theorem Reads.open_congr (hs : Reads s) (hs' : Reads s') (hseen : Seen role)
    (hlast : lastOf role s'.dir.log = lastOf role s.dir.log) :
    s'.repo.openRole s'.dir role = s.repo.openRole s.dir role := by
  obtain ⟨md, hopen, hmd⟩ := hs.openRole hseen
  obtain ⟨md', hopen', hmd'⟩ := hs'.openRole hseen
  rw [hopen, hopen']
  rw [hlast] at hmd'
  obtain ⟨hnone, rfl⟩ | hsome := hmd
  · obtain ⟨-, rfl⟩ | hsome' := hmd'
    · rfl
    · cases hnone.symm.trans hsome'
  · obtain ⟨hnone, -⟩ | hsome' := hmd'
    · cases hnone.symm.trans hsome
    · rw [Option.some.inj (hsome.symm.trans hsome')]

/-- There is a snapshot that stands. -/
theorem SnapshotStands.last (h : SnapshotStands out s) (hs : Reads s) :
    ∃ snapshot, lastOf SNAPSHOT s.dir.log = some snapshot := by
  obtain ⟨md, recorded, hopen, -, hskip⟩ := h
  obtain ⟨-, rfl⟩ | hlast := hs.open_eq seen_snapshot hopen
  · cases ((out.tuf.snapshot_skips _ _ _).mp hskip).1
  · exact ⟨md, hlast⟩

theorem SnapshotStands.of_reported (h : SnapshotStands out s) (hs : Reads s) (hs' : Reads s')
    (hlast : lastOf SNAPSHOT s'.dir.log = lastOf SNAPSHOT s.dir.log)
    (hreported : ∀ file version, s'.targetsInfos.get file = some version →
      s.targetsInfos.get file = some version) : SnapshotStands out s' := by
  obtain ⟨md, recorded, hopen, hsigned, hskip⟩ := h
  obtain ⟨hsignatures, hsame⟩ := (out.tuf.snapshot_skips _ _ _).mp hskip
  exact ⟨md, recorded, (hs.open_congr hs' seen_snapshot hlast).trans hopen, hsigned,
    (out.tuf.snapshot_skips _ _ _).mpr ⟨hsignatures, fun file version hget =>
      hsame file version (hreported file version hget)⟩⟩

theorem TimestampStands.of_last (h : TimestampStands out s) (hs : Reads s) (hs' : Reads s')
    {snapshot : Metadata} (hsnapshot : lastOf SNAPSHOT s.dir.log = some snapshot)
    (hlast : lastOf SNAPSHOT s'.dir.log = lastOf SNAPSHOT s.dir.log)
    (hlast' : lastOf TIMESTAMP s'.dir.log = lastOf TIMESTAMP s.dir.log) :
    TimestampStands out s' := by
  obtain ⟨md, recorded, hopen, hsigned, hskip⟩ := h
  refine ⟨md, recorded, (hs.open_congr hs' seen_timestamp hlast').trans hopen, hsigned, ?_⟩
  rwa [snapshotInfo_last hs' (hlast.trans hsnapshot), ← snapshotInfo_last hs hsnapshot]

theorem WroteNext.lastOf_of_ne (h : WroteNext role s s') (hne : other ≠ role) :
    lastOf other s'.dir.log = lastOf other s.dir.log := by
  obtain ⟨-, path, payload, signed, hadded⟩ := h
  exact hadded.toExtended.lastOf_of_ne hne

theorem WroteNext.version (h : WroteNext role s s') (other : String) :
    s'.repo.version other =
      if other = role then s.repo.version role + 1 else s.repo.version other := by
  obtain ⟨-, path, payload, signed, hadded⟩ := h
  split
  next heq => rw [heq, hadded.version]
  next hne => rw [hadded.versions other hne]

theorem WroteNext.appRoles (h : WroteNext role s s') : s'.repo.appRoles = s.repo.appRoles := by
  obtain ⟨-, path, payload, signed, hadded⟩ := h
  exact hadded.appRoles

end Stands

/-! ## One run -/

section Repeating

variable {β : Type} {out : Outside β} {s s' : Session β} {role : String} {md : Metadata}

/-- What the snapshot then records. -/
theorem Repeats.recorded (h : Repeats out role s) (hs : Informed s)
    (hopen : s.repo.openRole s.dir SNAPSHOT = .ok md) {metas : Table String Nat}
    (hsigned : md.signed = .snapshot metas) :
    metas.get (role ++ ".json") = some (s.repo.version role + 1) ∧
      ∀ other ≠ role, other ∈ s.repo.appRoles → s.repo.version other ≠ 0 →
        metas.get (other ++ ".json") = some (s.repo.version other) := by
  obtain ⟨hmem, s₁, hwrote, ⟨md', recorded, hopen', hsigned', hskip⟩, -⟩ := h
  have hne : SNAPSHOT ≠ role := Ne.symm ((appRole_of_informed hs hmem).ne (by decide))
  rw [hs.toReads.open_congr hwrote.1.toReads seen_snapshot (hwrote.lastOf_of_ne hne)] at hopen'
  obtain rfl := Except.ok.inj (hopen.symm.trans hopen')
  obtain rfl := Signed.snapshot.inj (hsigned.symm.trans hsigned')
  have hsame := ((out.tuf.snapshot_skips _ _ _).mp hskip).2
  have hreported (other : String) (hother : other ∈ s.repo.appRoles)
      (hpos : 0 < s₁.repo.version other) :
      metas.get (other ++ ".json") = some (s₁.repo.version other) :=
    hsame _ _ (targetsInfos_known (.inr (hwrote.appRoles ▸ hother)) hpos)
  refine ⟨?_, fun other hother hmem' hversion => ?_⟩
  · have hversion := (hwrote.version role).trans (if_pos rfl)
    rw [← hversion]
    exact hreported role hmem (by omega)
  · have hsame := (hwrote.version other).trans (if_neg hother)
    rw [← hsame]
    exact hreported other hmem' (by omega)

/-- Where publishing leaves the snapshot as it is, it is killed before it has written. -/
theorem publish_stands {K : Directory β → Prop} (hs : Informed s)
    (htargets : (lastOf TARGETS s.dir.log).isSome) (hlists : ListsReported out.tuf)
    (hstands : SnapshotStands out s) (hK : K s.dir) :
    (publish out).Ensures s (fun _ _ => True) (fun _ => True) (fun s' => K s'.dir) := by
  refine .bind (doSnapshot_added hs htargets hlists (.inl trivial) hK) ?_
  rintro - s₁ ⟨hsnapshotted, ⟨rfl, -⟩ | ⟨hnot, -⟩⟩
  · exact (doTimestamp_added hs htargets hsnapshotted (.inl trivial) hK).mono fun _ _ _ => trivial
  · exact absurd hstands hnot

theorem publishTarget_repeats (hs : Informed s) (hlists : ListsReported out.tuf)
    (hmem : role ∈ s.repo.appRoles) (hstands : ∀ s', WroteNext role s s' → SnapshotStands out s')
    (path : String) (payload : β) (info : ReleaseInfo) :
    (publishTarget out role path payload info).Ensures s (fun _ _ => True) (fun _ => True)
      (fun s' => ∀ other ≠ role, lastOf other s'.dir.log = lastOf other s.dir.log) := by
  have happ := appRole_of_informed hs hmem
  have hne : role ≠ TARGETS := happ.ne (by decide)
  let s₁ : Session β :=
    { s with dir := s.dir.store (payloadPath path (out.sha256 payload)) payload }
  have hs₁ : Informed s₁ := hs.store _ _
  let Same (dir : Directory β) : Prop :=
    ∀ other ≠ role, lastOf other dir.log = lastOf other s.dir.log
  have hsame₁ : Same s₁.dir := fun _ _ => rfl
  refine .bind (.write (fun _ _ => rfl) (Q := fun _ s' => s' = s₁) rfl) ?_
  rintro - s' rfl
  refine .bind (editTargets_added (K := Same) hs₁.toReads (.inr happ) onTargets_of_signed
    (mends_put hne _ _) (.inl trivial) hsame₁) ?_
  rintro - s₂ ⟨-, signed, hadded, -⟩
  have hsame := hadded.delegated_of_ne hne
  have hs₂ := hadded.informed hs₁ hsame
  have hwrote : WroteNext role s s₂ := ⟨hs₂, _, _, signed, hadded⟩
  have hdelegated : role ∈ delegated s₂.dir.log := hsame ▸ (hs.appRoles role).mp hmem
  exact publish_stands (K := Same) hs₂ (isSome_targets_of_mem hdelegated) hlists
    (hstands s₂ hwrote) fun _ => hwrote.lastOf_of_ne

/-- Where such an operation is killed, only its own role has changed. -/
theorem perform_repeats (hs : Informed s) (hlists : ListsReported out.tuf) {call : Call β}
    (htarget : call.targetPath.isSome) (hcall : call.Own role)
    (hstands : ∀ s', WroteNext role s s' → SnapshotStands out s') :
    (call.perform out).Ensures s (fun _ _ => True) (fun _ => True)
      (fun s' => ∀ other ≠ role, lastOf other s'.dir.log = lastOf other s.dir.log) := by
  obtain ⟨appId, happ, hrole⟩ := hcall
  let Same (dir : Directory β) : Prop :=
    ∀ other ≠ role, lastOf other dir.log = lastOf other s.dir.log
  have hdelegated : (delegatedRole appId : Work β String).Ensures s
      (fun role s' => s = s' ∧ appRoleName appId = .ok role ∧ role ∈ s.repo.appRoles)
      (fun _ => True) (fun s' => Same s'.dir) := delegatedRole_performed (.inl trivial)
  have hpublish {name : String} (hname : appRoleName appId = .ok name)
      (hmem : name ∈ s.repo.appRoles) (path : String) (payload : β) (info : ReleaseInfo) :
      (publishTarget out name path payload info).Ensures s (fun _ _ => True) (fun _ => True)
        (fun s' => Same s'.dir) := by
    obtain rfl := Except.ok.inj (hrole.symm.trans hname)
    exact publishTarget_repeats hs hlists hmem hstands path payload info
  cases call with
  | initialise | addApp => cases htarget
  | addRelease key payload info =>
    obtain rfl := Option.some.inj happ
    refine .bind (Q := fun _ _ => True) (.lift_cases (fun _ _ => trivial) fun _ _ =>
      hdelegated.bind ?_) fun _ _ _ => .pure trivial
    rintro name s' ⟨rfl, hname, hmem⟩
    exact (hpublish hname hmem _ _ _).bind fun _ _ _ => .pure trivial
  | setCurrent key =>
    obtain rfl := Option.some.inj happ
    refine .bind (Q := fun _ _ => True) (hdelegated.bind ?_) fun _ _ _ => .pure trivial
    rintro name s' ⟨rfl, hname, hmem⟩
    refine .read_bind (.lift_cases (fun _ _ => trivial) fun published _ => ?_)
    split
    · exact .lift_cases (fun _ _ => trivial) fun _ _ => .lift_cases (fun _ _ => trivial) fun _ _ =>
        (hpublish hname hmem _ _ _).bind fun _ _ _ => .pure trivial
    · exact .raise trivial

end Repeating

/-! ## Two runs -/

/-- Another instance reports nothing but what this one does, and has the role before it. -/
structure Resumes {β : Type} (role : String) (s s' : Session β) : Prop where
  informed : Informed s'
  snapshot : lastOf SNAPSHOT s'.dir.log = lastOf SNAPSHOT s.dir.log
  version : s'.repo.version role = s.repo.version role
  reported : ∀ other ≠ role, (other = TARGETS ∨ other ∈ s'.repo.appRoles) →
    s'.repo.version other ≠ 0 → (other = TARGETS ∨ other ∈ s.repo.appRoles) ∧
      s.repo.version other = s'.repo.version other

section Resuming

variable {β : Type} {out : Outside β} {s s' s₁ s₁' : Session β} {role : String}

theorem Resumes.refl (hs : Informed s) : Resumes role s s :=
  ⟨hs, rfl, rfl, fun _ _ h _ => ⟨h, rfl⟩⟩

/-- A fresh instance reports nothing else where only the role has changed, and begins with it. -/
theorem Resumes.of_last (hs : Informed s) (hs' : Informed s') (hrole : AppRole role)
    (hlast : ∀ other ≠ role, lastOf other s'.dir.log = lastOf other s.dir.log)
    (hzero : ∀ other, ¬ Seen other → s'.repo.version other = 0)
    (hversion : s'.repo.version role = s.repo.version role) : Resumes role s s' := by
  refine ⟨hs', hlast SNAPSHOT (Ne.symm (hrole.ne (by decide))), hversion,
    fun other hne hother hpos => ⟨hother.imp_right fun hmem => ?_, ?_⟩⟩
  · have hdelegated : delegated s'.dir.log = delegated s.dir.log := by
      rw [delegated, delegated, hlast TARGETS (Ne.symm (hrole.ne (by decide)))]
    exact (hs.appRoles other).mpr (hdelegated ▸ (hs'.appRoles other).mp hmem)
  · have hseen : Seen other := by
      by_contra hunseen
      exact hpos (hzero other hunseen)
    rw [hs.versions other hseen, hs'.versions other hseen, lastVersion, lastVersion,
      hlast other hne]

theorem Resumes.stands (h : Resumes role s s') (hs : Informed s) (hmem : role ∈ s.repo.appRoles)
    (hwrote : WroteNext role s s₁) (hwrote' : WroteNext role s' s₁')
    (hstands : SnapshotStands out s₁) : SnapshotStands out s₁' := by
  have hne : SNAPSHOT ≠ role := Ne.symm ((appRole_of_informed hs hmem).ne (by decide))
  refine hstands.of_reported hwrote.1.toReads hwrote'.1.toReads ?_ fun file version hget => ?_
  · rw [hwrote'.lastOf_of_ne hne, hwrote.lastOf_of_ne hne, h.snapshot]
  obtain ⟨other, hother, rfl, rfl, hpos⟩ := targetsInfos_sound hget
  rw [hwrote'.version] at hpos ⊢
  rw [hwrote'.appRoles] at hother
  have hsame : (other = TARGETS ∨ other ∈ s.repo.appRoles) ∧ s₁.repo.version other =
      if other = role then s'.repo.version role + 1 else s'.repo.version other := by
    rw [hwrote.version]
    split at hpos
    next heq => exact ⟨.inr (heq ▸ hmem), by rw [if_pos heq, if_pos heq, h.version]⟩
    next hne =>
      obtain ⟨hother, hversion⟩ := h.reported other hne hother (Nat.ne_of_gt hpos)
      exact ⟨hother, by rw [if_neg hne, if_neg hne, hversion]⟩
  rw [← hsame.2] at hpos ⊢
  exact targetsInfos_known (hwrote.appRoles ▸ hsame.1) hpos

/-- What publishing takes is there for the second run. -/
theorem Repeats.again (h : Repeats out role s) (hs : Informed s) (hresumes : Resumes role s s')
    (htimestamp : lastOf TIMESTAMP s'.dir.log = lastOf TIMESTAMP s.dir.log)
    (hkeyed : Keyed TIMESTAMP s → Keyed TIMESTAMP s') (hadvances : Advances out s')
    (hfound : Found role s') (hwrote' : WroteNext role s' s₁') : CanPublish out s₁' := by
  obtain ⟨hmem, s₁, hwrote, hstands, hstamped⟩ := h
  have happ := appRole_of_informed hs hmem
  have hsnapshot : SNAPSHOT ≠ role := Ne.symm (happ.ne (by decide))
  have htime : TIMESTAMP ≠ role := Ne.symm (happ.ne (by decide))
  have hstands' := hresumes.stands hs hmem hwrote hwrote' hstands
  refine ⟨hwrote'.advances hadvances happ hfound, .inr hstands', hstamped.imp (fun hkeyed₁ => ?_)
    fun hstamped => ⟨hstands', ?_⟩⟩
  · exact (hwrote'.keyed_iff _).mpr (hkeyed ((hwrote.keyed_iff _).mp hkeyed₁))
  · obtain ⟨snapshot, hlast⟩ := hstands.last hwrote.1.toReads
    refine hstamped.of_last hwrote.1.toReads hwrote'.1.toReads hlast ?_ ?_
    · rw [hwrote'.lastOf_of_ne hsnapshot, hwrote.lastOf_of_ne hsnapshot, hresumes.snapshot]
    · rw [hwrote'.lastOf_of_ne htime, hwrote.lastOf_of_ne htime, htimestamp]

end Resuming

end DistPlatform.Core
