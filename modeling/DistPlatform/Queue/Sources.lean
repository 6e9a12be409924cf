import DistPlatform.Queue.Approved

/-!
# The sources of a run

Who writes the status of a source: a handler marks it as being validated, a worker records an
identity or a failure, an operator pauses it, and the ceremony tool activates it. A source that
was never validated, or is invalid, reaches the ceremony tool only by a pause; and the ids of a
repository are written again by every validation.

## Main definitions

* `StatusCases` — the turns that write a status, by the places they are made from.
* `Mark`, `IdentifiedSince` — what a run says about the validation of a source.
* `PausesValidated` — no pause is of a source that waits for its validation.
* `OneIdentity` — the forge reports one identity for each source.
-/

namespace DistPlatform.Queue

open Runs
open Ingest (Identity IngestPorts Quarantine Validated doValidate)
open Registry (Source SourceId SourceStatus Statement Store)

/-! ## Who writes a status -/

/-- The statements that write the status of a source that is there. -/
def setsStatus : QueueStatement → Bool
  | .setStatus .. | .recordIdentity .. | .markDelegated _ => true
  | _ => false

inductive StatusCases : ∀ p, Place p → QueueStatement → Place p → Prop
  | validating (request : Nat) (id : SourceId) :
      StatusCases (.request request) (.marking id) (.setStatus id .VALIDATING none) .idle
  | paused (request : Nat) (source : Source) :
      StatusCases (.request request) (.acting source .pause) (.setStatus source.id .PAUSED none)
        .idle
  | identified (worker : Nat) (job : QueueJob) (source : Source) (result : Validated) :
      StatusCases (.ingest worker) (.recording job source result)
        (.recordIdentity source.id result.identity.repositoryId result.identity.repositoryOwnerId)
        (.finishing job source (.validated result))
  | invalid (worker : Nat) (source : Source) (message : String) :
      StatusCases (.ingest worker) (.invalidating source message)
        (.setStatus source.id .INVALID (some message)) .idle
  | delegated (appId : String) : StatusCases .ceremony () (.markDelegated appId) ()
  | other {p : Party} {place next : Place p} {statement : QueueStatement}
      (same : setsStatus statement = false) : StatusCases p place statement next

theorem claimJob_status {p : Party} {db : Db} {kinds : List Registry.JobKind} {now : Nat}
    {job : Option QueueJob} {start place : Place p} {claimed : QueueJob → Place p}
    {turn : Turn (Place p)} (h : claimJob db kinds now job start claimed = some turn) :
    StatusCases p place turn.statement turn.next := by
  obtain rfl | ⟨row, -, -, -, rfl⟩ := claimJob_eq_some h <;> exact .other rfl

theorem turnOf_status {ports : IngestPorts} {db : Db} {quarantine : Quarantine} {p : Party}
    {act : Act p} {place : Place p} {turn : Turn (Place p)}
    (h : turnOf ports db quarantine p act place = some turn) :
    StatusCases p place turn.statement turn.next := by
  cases p with
  | ceremony =>
    obtain rfl := Option.some.inj h
    exact .delegated act
  | request id =>
    obtain rfl := Option.some.inj h
    simp only [Admin.adminTurn]
    split
    · split <;> exact .other rfl
    · exact .other rfl
    · unfold Admin.actionTurn
      split
      · exact .other rfl
      · split <;> exact .other rfl
      · exact .paused id _
      · exact .other rfl
      · exact .other rfl
    · exact .validating id _
  | signer worker =>
    cases place with
    | claiming => exact claimJob_status h
    | publishing job source =>
      simp only [turnOf, Sign.signerTurn] at h
      split at h <;> obtain rfl := Option.some.inj h <;> exact .other rfl
    | _ =>
      obtain rfl := Option.some.inj h
      exact .other rfl
  | ingest worker =>
    cases place with
    | recording job source result =>
      obtain rfl := Option.some.inj h
      exact .identified worker job source result
    | invalidating source message =>
      obtain rfl := Option.some.inj h
      exact .invalid worker source message
    | selecting =>
      simp only [turnOf, Ingest.ingestTurn] at h
      split at h
      · obtain rfl := Option.some.inj h
        exact .other rfl
      · cases h
    | scanning due =>
      cases due with
      | nil => exact claimJob_status h
      | cons source due =>
        simp only [turnOf, Ingest.ingestTurn] at h
        split at h
        · obtain rfl := Option.some.inj h
          exact .other rfl
        · cases h
    | working job source =>
      obtain rfl := Option.some.inj h
      refine .other ?_
      rw [Ingest.workTurn_cases.1]
      rfl
    | _ =>
      obtain rfl := Option.some.inj h
      exact .other rfl

/-! ## What a run says about validations -/

inductive Mark
  | registered (source : SourceId)
  | identified (source : SourceId)
  | invalid (source : SourceId)
  deriving DecidableEq

/-- What a statement adds to the record of a run; one about a source that is gone, nothing. -/
def marks (db : Db) : QueueStatement → List Mark
  | .addSource source => (((Statement.addSource source).registered db).map (.registered ·.id)).toList
  | .recordIdentity id _ _ => if db.sources.any (·.id == id) then [.identified id] else []
  | .setStatus id .INVALID _ => if db.sources.any (·.id == id) then [.invalid id] else []
  | _ => []

def moveMarks (ports : IngestPorts) (c : QueueConfig) : QueueMove → List Mark
  | .turn p act => match turnOf ports c.shared.db c.shared.quarantine p act (c.place p) with
    | some turn => marks c.shared.db turn.statement
    | none => []
  | .crash _ => []

/-- The system, with the record of its validations. -/
def recorded (ports : IngestPorts) (quarantine : Quarantine) :
    System (QueueConfig × List Mark) QueueMove :=
  .ofNext ((parties ports quarantine).initial, [])
    (System.recordNext (parties ports quarantine).next (moveMarks ports))

/-- An identity was recorded for the source since its registration, and since it was last
marked as invalid. -/
def IdentifiedSince (record : List Mark) (source : SourceId) : Prop :=
  ∃ newer older, record = newer ++ .identified source :: older ∧
    .registered source ∉ newer ∧ .invalid source ∉ newer

theorem IdentifiedSince.append {record new : List Mark} {source : SourceId}
    (h : IdentifiedSince record source) (hregistered : .registered source ∉ new)
    (hinvalid : .invalid source ∉ new) : IdentifiedSince (new ++ record) source := by
  obtain ⟨newer, older, rfl, hr, hi⟩ := h
  exact ⟨new ++ newer, older, (List.append_assoc ..).symm,
    fun h => (List.mem_append.mp h).elim hregistered hr,
    fun h => (List.mem_append.mp h).elim hinvalid hi⟩

/-- The states in which a source has been validated, unless an operator paused it early. -/
def AfterValidation (status : SourceStatus) : Prop :=
  status = .PENDING_DELEGATION ∨ status = .ACTIVE ∨ status = .PAUSED

instance (status : SourceStatus) : Decidable (AfterValidation status) :=
  inferInstanceAs (Decidable (_ ∨ _ ∨ _))

/-- The source that a statement pauses. -/
def pauses : QueueStatement → Option SourceId
  | .setStatus id .PAUSED _ => some id
  | _ => none

/-- A pause finds a source that waits for its delegation, is active, or is paused already. -/
def PausesValidated (ports : IngestPorts) (c : QueueConfig) : QueueMove → Prop
  | .turn p act => ∀ turn ∈ turnOf ports c.shared.db c.shared.quarantine p act (c.place p),
      ∀ row ∈ c.shared.db.sources, pauses turn.statement = some row.id →
        AfterValidation row.status
  | .crash _ => True

instance (ports : IngestPorts) (c : QueueConfig) : ∀ move, Decidable (PausesValidated ports c move)
  | .crash _ => .isTrue trivial
  | .turn p act => inferInstanceAs (Decidable (∀ turn ∈ turnOf ports c.shared.db
      c.shared.quarantine p act (c.place p), ∀ row ∈ c.shared.db.sources, _ → _))

/-! ## Activation -/

section Activation

variable {db : Db} {record : List Mark} {statement : QueueStatement}

/-- A statement that a turn may make keeps validated sources validated, in the record. -/
theorem identified_exec {p : Party} {place next : Place p} (hnumbered : db.Numbered)
    (hcases : StatusCases p place statement next)
    (hpause : ∀ row ∈ db.sources, pauses statement = some row.id → AfterValidation row.status)
    (h : ∀ row ∈ db.sources, AfterValidation row.status → IdentifiedSince record row.id) :
    ∀ row ∈ (statement.exec db).sources, AfterValidation row.status →
      IdentifiedSince (marks db statement ++ record) row.id := by
  intro row hrow hvalidated
  obtain ⟨old, hold, -, rfl⟩ | hregistered := Statement.mem_sources_exec.mp hrow
  · rw [Statement.id_updateRow]
    have hpresent : db.sources.any (·.id == old.id) = true :=
      List.any_eq_true.mpr ⟨old, hold, beq_self_eq_true _⟩
    cases hcases with
    | validating _ id | invalid _ source message =>
      simp only [Statement.updateRow] at hvalidated
      split at hvalidated
      · simp [AfterValidation] at hvalidated
      next hother =>
        refine (h old hold hvalidated).append ?_ ?_ <;>
          simp only [marks] <;> grind
    | paused _ source =>
      simp only [Statement.updateRow] at hvalidated
      split at hvalidated
      next hsame =>
        exact (h old hold (hpause old hold (congrArg some hsame.1.symm))).append List.not_mem_nil
          List.not_mem_nil
      · exact (h old hold hvalidated).append List.not_mem_nil List.not_mem_nil
    | identified _ job source result =>
      simp only [Statement.updateRow] at hvalidated
      split at hvalidated
      next hsame =>
        rw [hsame] at hpresent ⊢
        rw [marks, if_pos hpresent]
        exact ⟨[], record, rfl, List.not_mem_nil, List.not_mem_nil⟩
      · refine (h old hold hvalidated).append ?_ ?_ <;>
          simp only [marks] <;> grind
    | delegated appId =>
      simp only [Statement.updateRow] at hvalidated
      refine IdentifiedSince.append ?_ List.not_mem_nil List.not_mem_nil
      split at hvalidated
      · exact h old hold hvalidated
      next source hfound =>
        split at hvalidated
        next hsame =>
          rw [hsame.1]
          refine h source (List.mem_of_find?_eq_some hfound) ?_
          have hwaiting := List.find?_some hfound
          simp only [Bool.and_eq_true, Bool.or_eq_true, beq_iff_eq] at hwaiting
          exact hwaiting.2.imp id fun hpaused => .inr hpaused
        · exact h old hold hvalidated
    | other hsame =>
      cases statement with
      | setStatus | recordIdentity | markDelegated => cases hsame
      | updateSource id edit =>
        refine (h old hold ?_).append List.not_mem_nil List.not_mem_nil
        simp only [Statement.updateRow] at hvalidated
        split at hvalidated <;> exact hvalidated
      | addSource source =>
        refine (h old hold hvalidated).append ?_ ?_
        · simp only [marks, Option.mem_toList, Option.map_eq_some_iff, not_exists, not_and]
          intro created hcreated heq
          obtain ⟨hid, -⟩ := Statement.registered_eq_some hcreated
          have hlt := hnumbered old hold
          rw [← Mark.registered.inj heq, hid] at hlt
          exact Nat.lt_irrefl _ hlt
        · simp [marks]
      | _ => exact (h old hold hvalidated).append List.not_mem_nil List.not_mem_nil
  · obtain ⟨-, hdraft, -⟩ := Statement.registered_eq_some hregistered
    rw [hdraft] at hvalidated
    simp [AfterValidation] at hvalidated

end Activation

/-- What the record says of every source that is past its validation. -/
structure Activation (t : QueueConfig × List Mark) : Prop where
  numbered : t.1.shared.db.Numbered
  identified : ∀ row ∈ t.1.shared.db.sources, AfterValidation row.status →
    IdentifiedSince t.2 row.id

theorem activation_step {ports : IngestPorts} {quarantine : Quarantine}
    {t t' : QueueConfig × List Mark} {move : QueueMove} (ht : Activation t)
    (hok : PausesValidated ports t.1 move)
    (h : System.recordNext (parties ports quarantine).next (moveMarks ports) t move = some t') :
    Activation t' := by
  obtain ⟨hnext, hrecord⟩ := System.recordNext_eq_some.mp h
  obtain ⟨c, record⟩ := t
  obtain ⟨c', record'⟩ := t'
  cases move with
  | crash p =>
    obtain rfl := Parties.next_crash hnext
    obtain rfl : record' = record := hrecord
    exact ⟨ht.numbered, ht.identified⟩
  | turn p act =>
    obtain ⟨shared, place, hcommit, rfl⟩ := Parties.next_turn hnext
    obtain ⟨turn, hturn, hcommit⟩ := Option.map_eq_some_iff.mp hcommit
    obtain ⟨rfl, rfl⟩ := Prod.mk.inj hcommit
    obtain rfl : record' = marks c.shared.db turn.statement ++ record := by
      simpa only [moveMarks, hturn] using hrecord
    exact ⟨ht.numbered.exec turn.statement,
      identified_exec ht.numbered (turnOf_status hturn) (hok turn hturn) ht.identified⟩

theorem activation {ports : IngestPorts} {quarantine : Quarantine} {t : QueueConfig × List Mark}
    (ht : ((recorded ports quarantine).when fun t => PausesValidated ports t.1).Reachable t) :
    Activation t := by
  induction ht with
  | start h0 =>
    obtain rfl := h0
    exact ⟨fun _ h => absurd h List.not_mem_nil, fun _ h => absurd h List.not_mem_nil⟩
  | step _ hstep ih => exact activation_step ih hstep.1 hstep.2

/-! ## A project on GitLab -/

section Runner

open Ingest (editorPorts editorSource)
open Registry (JobKind)

/-- The editor from a GitLab project, whose provenance needs no id of the repository. -/
def gitlabSource : Source :=
  { editorSource with
    forge := .GITLAB
    builderId := some "https://gitlab.example/runner"
    builderKeyid := some "runner"
    builderPublicKeyPem := some "-----BEGIN PUBLIC KEY-----" }

/-- What a run of the editor's system and its record end with. -/
def recordOf (moves : List QueueMove) : Option (QueueConfig × List Mark) :=
  System.exec (System.recordNext editorParties.next (moveMarks editorPorts)) moves
    (editorParties.initial, [])

theorem reachable_recordOf {moves : List QueueMove} {t : QueueConfig × List Mark}
    (h : recordOf moves = some t) : (recorded editorPorts ⟨1000, []⟩).Reachable t :=
  System.reachable_exec (.start rfl) h

/-- Registered, validated and activated; then paused, and activated again. -/
def resumed : List QueueMove :=
  registration ++ List.replicate 2 (requestMove 1 (.act 1 .pause)) ++ [.turn .ceremony "editor"]

/-- Registered, and paused before the worker has looked at it. -/
def pausedEarly : List QueueMove :=
  List.replicate 3 (requestMove 0 (.create gitlabSource)) ++
    List.replicate 2 (requestMove 1 (.act 1 .pause)) ++ [.turn .ceremony "editor"]

def statuses (t : QueueConfig × List Mark) : List (SourceId × SourceStatus) :=
  t.1.shared.db.sources.map fun row => (row.id, row.status)

end Runner

/-! ## The result on activation -/

/-- Where every pause is of a source past its validation, a source is active only if an identity
was recorded for it since its registration, and since it was last invalid. -/
theorem active_identified {ports : IngestPorts} {quarantine : Quarantine}
    {t : QueueConfig × List Mark}
    (ht : ((recorded ports quarantine).when fun t => PausesValidated ports t.1).Reachable t)
    {row : Source} (hrow : row ∈ t.1.shared.db.sources) (hactive : row.status = .ACTIVE) :
    IdentifiedSince t.2 row.id :=
  (activation ht).identified row hrow (.inr (.inl hactive))

theorem active_identified_resumed : ∃ t, recordOf resumed = some t ∧
    statuses t = [(1, .ACTIVE)] ∧ IdentifiedSince t.2 1 := by
  have hrun : (System.exec (fun t move => if PausesValidated Ingest.editorPorts t.1 move then
        System.recordNext editorParties.next (moveMarks Ingest.editorPorts) t move else none)
        resumed (editorParties.initial, [])).map statuses = some [(1, .ACTIVE)] := by
    decide +kernel
  obtain ⟨t, ht, hstatuses⟩ := Option.map_eq_some_iff.mp hrun
  have hreach := System.reachable_exec_when (.start rfl) ht
  obtain ⟨row, hrow, heq⟩ : ∃ row ∈ t.1.shared.db.sources, (row.id, row.status) = (1, .ACTIVE) :=
    List.mem_map.mp (by rw [← statuses, hstatuses]; exact List.mem_singleton_self _)
  obtain ⟨hid, hactive⟩ := Prod.mk.inj heq
  exact ⟨t, System.exec_of_when ht, hstatuses, hid ▸ active_identified hreach hrow hactive⟩

theorem active_unidentified :
    ¬ ∀ (ports : IngestPorts) (quarantine : Quarantine) (t : QueueConfig × List Mark),
      (recorded ports quarantine).Reachable t → ∀ row ∈ t.1.shared.db.sources,
        row.status = .ACTIVE → IdentifiedSince t.2 row.id := by
  intro hclaim
  have hrun : (recordOf pausedEarly).map (fun t => (statuses t, t.2)) =
      some ([(1, .ACTIVE)], [.registered 1]) := by
    decide +kernel
  obtain ⟨t, ht, hend⟩ := Option.map_eq_some_iff.mp hrun
  obtain ⟨hstatuses, hrecord⟩ := Prod.mk.inj hend
  obtain ⟨row, hrow, heq⟩ : ∃ row ∈ t.1.shared.db.sources, (row.id, row.status) = (1, .ACTIVE) :=
    List.mem_map.mp (by rw [← statuses, hstatuses]; exact List.mem_singleton_self _)
  obtain ⟨newer, older, hsplit, -⟩ :=
    hclaim _ _ t (reachable_recordOf ht) row hrow (Prod.mk.inj heq).2
  have hmem : Mark.identified row.id ∈ [Mark.registered 1] := by
    rw [← hrecord, hsplit]
    simp
  simp at hmem

/-! ## The pinned identity -/

/-- The ids of a repository and of its owner that a validation reports. -/
def Validated.pins (result : Validated) : String × String :=
  (result.identity.repositoryId, result.identity.repositoryOwnerId)

/-- Where a validation of a source succeeds, the forge has reported the ids of `ids`. -/
def ReportsIds (ids : SourceId → String × String) (act : Ingest.IngestAct) :
    Ingest.IngestPlace → Prop
  | .working job source => job.kind = .VALIDATE →
      ∀ result, doValidate source act.answers = .ok result → Validated.pins result = ids source.id
  | _ => True

instance (ids : SourceId → String × String) (act : Ingest.IngestAct) (place : Ingest.IngestPlace) :
    Decidable (ReportsIds ids act place) := by
  cases place with
  | working job source => exact inferInstanceAs (Decidable (_ → _))
  | _ => exact .isTrue trivial

/-- The forge reports one identity for each source. -/
def OneIdentity (ids : SourceId → String × String) (c : QueueConfig) : QueueMove → Prop
  | .turn (.ingest worker) act => ReportsIds ids act (c.place (.ingest worker))
  | _ => True

instance (ids : SourceId → String × String) (c : QueueConfig) :
    ∀ move, Decidable (OneIdentity ids c move)
  | .turn (.ingest worker) act =>
    inferInstanceAs (Decidable (ReportsIds ids act (c.place (.ingest worker))))
  | .turn (.signer _) _ | .turn (.request _) _ | .turn .ceremony _ | .crash _ => .isTrue trivial

/-- What a worker is about to record. -/
def RecordsIdentity (ids : SourceId → String × String) : ∀ p, Place p → Prop
  | .ingest _, .recording _ source result => Validated.pins result = ids source.id
  | _, _ => True

theorem recordsIdentity_turn {ports : IngestPorts} {ids : SourceId → String × String}
    {c : QueueConfig} {p : Party} {act : Act p} {turn : Turn (Place p)}
    (hok : OneIdentity ids c (.turn p act))
    (h : turnOf ports c.shared.db c.shared.quarantine p act (c.place p) = some turn) :
    RecordsIdentity ids p turn.next := by
  cases p with
  | ingest worker =>
    simp only [OneIdentity] at hok
    generalize c.place (.ingest worker) = place at hok h
    cases place with
    | working job source =>
      obtain rfl := Option.some.inj h
      obtain ⟨-, hwork⟩ := @Ingest.workTurn_cases ports act c.shared.quarantine job source
      generalize Ingest.workTurn ports act c.shared.quarantine job source = turn at hwork ⊢
      obtain ⟨_, next, _, effect⟩ := turn
      cases hwork with
      | validated hkind hvalid => exact hok hkind _ hvalid
      | _ => trivial
    | scanning due =>
      cases due with
      | nil => obtain rfl | ⟨row, -, -, -, rfl⟩ := claimJob_eq_some h <;> trivial
      | cons source due =>
        simp only [turnOf, Ingest.ingestTurn] at h
        split at h
        · obtain rfl := Option.some.inj h
          trivial
        · cases h
    | selecting =>
      simp only [turnOf, Ingest.ingestTurn] at h
      split at h
      · obtain rfl := Option.some.inj h
        trivial
      · cases h
    | scheduling source unchanged due =>
      obtain rfl := Option.some.inj h
      dsimp only
      split <;> trivial
    | fetching job =>
      obtain rfl := Option.some.inj h
      dsimp only [Queue.fetchSource]
      split <;> trivial
    | finishing job source result | failing job source result =>
      obtain rfl := Option.some.inj h
      dsimp only
      split <;> trivial
    | _ =>
      obtain rfl := Option.some.inj h
      trivial
  | _ => trivial

/-- The pinned ids of a row. -/
def pinned (row : Source) : Option String × Option String :=
  (row.repositoryId, row.repositoryOwnerId)

def bothPins (ids : String × String) : Option String × Option String := (some ids.1, some ids.2)

theorem pinned_updateRow (db : Db) (statement : QueueStatement) (row : Source) :
    pinned (statement.updateRow db row) = pinned row ∨ ∃ repositoryId ownerId,
      statement = .recordIdentity row.id repositoryId ownerId ∧
        pinned (statement.updateRow db row) = bothPins (repositoryId, ownerId) := by
  cases statement with
  | recordIdentity id repositoryId repositoryOwnerId =>
    simp only [Statement.updateRow]
    split
    next hsame => exact .inr ⟨repositoryId, repositoryOwnerId, by rw [hsame], rfl⟩
    · exact .inl rfl
  | updateSource | setStatus =>
    simp only [Statement.updateRow]
    split <;> exact .inl rfl
  | markDelegated appId =>
    simp only [Statement.updateRow]
    split
    · exact .inl rfl
    · split <;> exact .inl rfl
  | _ => exact .inl rfl

/-- What is recorded of a source is what the forge reports of it. -/
theorem ids_of_recordIdentity {ports : IngestPorts} {ids : SourceId → String × String}
    {db : Db} {quarantine : Quarantine} {p : Party} {act : Act p} {place : Place p}
    {turn : Turn (Place p)} {id : SourceId} {repositoryId ownerId : String}
    (hplace : RecordsIdentity ids p place)
    (h : turnOf ports db quarantine p act place = some turn)
    (hstatement : turn.statement = .recordIdentity id repositoryId ownerId) :
    (repositoryId, ownerId) = ids id := by
  have hcases := turnOf_status h
  rw [hstatement] at hcases
  generalize turn.next = next at hcases
  cases hcases with
  | identified worker job source result => exact hplace
  | other same => cases same

/-- A source has no pins, or those of the repository that the forge reports. -/
structure PinsSound (ids : SourceId → String × String) (db : Db) : Prop where
  numbered : db.Numbered
  pins : ∀ id row, db.getSource id = some row →
    pinned row = (none, none) ∨ pinned row = bothPins (ids id)

theorem PinsSound.exec {ports : IngestPorts} {ids : SourceId → String × String} {db : Db}
    {quarantine : Quarantine} {p : Party} {act : Act p} {place : Place p} {turn : Turn (Place p)}
    (h : PinsSound ids db) (hplace : RecordsIdentity ids p place)
    (hturn : turnOf ports db quarantine p act place = some turn) :
    PinsSound ids (turn.statement.exec db) := by
  refine ⟨h.numbered.exec turn.statement, fun id row hrow => ?_⟩
  obtain ⟨old, hold, rfl⟩ | ⟨-, hregistered⟩ := Statement.getSource_exec_eq_some hrow
  · obtain hsame | ⟨_, _, hstatement, hpins⟩ := pinned_updateRow db turn.statement old
    · rw [hsame]
      exact h.pins id old hold
    · rw [hpins, ids_of_recordIdentity hplace hturn hstatement, Store.id_of_getSource hold]
      exact .inr rfl
  · obtain ⟨-, -, hid, howner, -⟩ := Statement.registered_eq_some hregistered
    exact .inl (by rw [pinned, hid, howner])

theorem pins_sound {ports : IngestPorts} {quarantine : Quarantine}
    {ids : SourceId → String × String} {c : QueueConfig}
    (hc : ((system ports quarantine).when (OneIdentity ids)).Reachable c) :
    PinsSound ids c.shared.db ∧ ∀ p, RecordsIdentity ids p (c.place p) := by
  have hinvariant : (parties ports quarantine).Invariant (OneIdentity ids)
      (fun s => PinsSound ids s.db) (fun p _ place => RecordsIdentity ids p place) :=
    { start := ⟨fun _ h => absurd h List.not_mem_nil, fun _ _ h => (Option.some_ne_none _ h.symm).elim⟩
      idle := fun p _ => by cases p <;> trivial
      own := fun c p act shared place hok hI hL h => by
        obtain ⟨turn, hturn, hcommit⟩ := Option.map_eq_some_iff.mp h
        obtain ⟨rfl, rfl⟩ := Prod.mk.inj hcommit
        exact ⟨hI.exec (hL p) hturn, recordsIdentity_turn hok hturn⟩
      other := fun c p act shared place q _ _ _ hL _ => hL q }
  exact hinvariant.holds hc

/-- The pins of a source, while it is there. -/
def Pinned (c : QueueConfig) (id : SourceId) (ids : String × String) : Prop :=
  id < c.shared.db.nextSource ∧
    ∀ row, c.shared.db.getSource id = some row → pinned row = bothPins ids

theorem pinned_step {ports : IngestPorts} {quarantine : Quarantine}
    {ids : SourceId → String × String} {c c' : QueueConfig} {move : QueueMove} {id : SourceId}
    (hplaces : ∀ p, RecordsIdentity ids p (c.place p)) (h : Pinned c id (ids id))
    (hstep : (parties ports quarantine).next c move = some c') : Pinned c' id (ids id) := by
  cases move with
  | crash p =>
    obtain rfl := Parties.next_crash hstep
    exact h
  | turn p act =>
    obtain ⟨shared, place, hcommit, rfl⟩ := Parties.next_turn hstep
    obtain ⟨turn, hturn, hcommit⟩ := Option.map_eq_some_iff.mp hcommit
    obtain ⟨rfl, rfl⟩ := Prod.mk.inj hcommit
    refine ⟨Nat.lt_of_lt_of_le h.1 turn.statement.nextSource_le, fun row hrow => ?_⟩
    obtain ⟨old, hold, rfl⟩ | ⟨-, hregistered⟩ := Statement.getSource_exec_eq_some hrow
    · obtain hsame | ⟨_, _, hstatement, hpins⟩ :=
        pinned_updateRow c.shared.db turn.statement old
      · rw [hsame]
        exact h.2 old hold
      · rw [hpins, ids_of_recordIdentity (hplaces p) hturn hstatement, Store.id_of_getSource hold]
    · -- an id that was given out is not given out again
      obtain ⟨hid, -⟩ := Statement.registered_eq_some hregistered
      have hlt := h.1
      rw [← Store.id_of_getSource hrow, hid] at hlt
      exact absurd hlt (Nat.lt_irrefl _)

/-! ## A repository that is created again -/

section Recreated

open Ingest (editorPorts)

/-- A turn of worker 0 on the forge where the repository has other ids. -/
def recreatedMove (job : Option QueueJob) : QueueMove :=
  .turn (.ingest 0) ⟨0, [], none, none, job, { editorForge "v1.0" with
    project := .ok (some (.obj [("id", .int 70), ("owner", .obj [("id", .int 80)])])) },
    ["malware", "publisher", "sbom"]⟩

def revalidation (move : Option QueueJob → QueueMove) : List QueueMove :=
  List.replicate 3 (requestMove 1 (.act 1 .validate)) ++
    [none, none, some (queuedJob 2 .VALIDATE "alice" none), none, none, none, none].map move

def pinsOf (c : QueueConfig) (id : SourceId) : Option (Option String × Option String) :=
  (c.shared.db.getSource id).map pinned

end Recreated

/-! ## The result on the pins -/

/-- Where the forge reports one identity for each source, the pins of a source stay as they
are once they are recorded. -/
theorem pins_kept {ports : IngestPorts} {quarantine : Quarantine}
    {ids : SourceId → String × String} {c c' : QueueConfig}
    (hc : ((system ports quarantine).when (OneIdentity ids)).Reachable c)
    (h : ((system ports quarantine).when (OneIdentity ids)).Leads c c') {id : SourceId}
    {recorded : String × String} {pins : Option String × Option String}
    (hrecorded : pinsOf c id = some (bothPins recorded)) (hpins : pinsOf c' id = some pins) :
    pins = bothPins recorded := by
  obtain ⟨row, hrow, hboth⟩ := Option.map_eq_some_iff.mp hrecorded
  obtain ⟨hsound, -⟩ := pins_sound hc
  have hids : recorded = ids id := by
    obtain hnone | hsome := hsound.pins id row hrow
    · cases hnone.symm.trans hboth
    · obtain ⟨hfirst, hsecond⟩ := Prod.mk.inj (hboth.symm.trans hsome)
      exact Prod.ext (Option.some.inj hfirst) (Option.some.inj hsecond)
  have hkept : Pinned c' id (ids id) := by
    clear hpins
    induction h with
    | refl =>
      refine ⟨hsound.numbered.id_lt hrow, fun other hother => ?_⟩
      obtain rfl := Option.some.inj (hother.symm.trans hrow)
      rw [hboth, hids]
    | step hleads hstep ih => exact pinned_step (pins_sound (hleads.reachable hc)).2 ih hstep.2
  obtain ⟨row', hrow', rfl⟩ := Option.map_eq_some_iff.mp hpins
  rw [hkept.2 row' hrow', hids]

theorem pins_kept_editor : ∃ c c', pinsOf c 1 = some (bothPins ("7", "8")) ∧
    c'.shared.db.jobs.length = 2 ∧
    ∀ pins, pinsOf c' 1 = some pins → pins = bothPins ("7", "8") := by
  let next c move := if OneIdentity (fun _ => ("7", "8")) c move then editorParties.next c move
    else none
  have hrun : (System.exec next registration editorParties.initial).bind (fun c =>
      (System.exec next (revalidation (ingestMove 0 0)) c).map fun c' =>
        (pinsOf c 1, c'.shared.db.jobs.length)) = some (some (bothPins ("7", "8")), 2) := by
    decide +kernel
  obtain ⟨c, hc, hrest⟩ := Option.bind_eq_some_iff.mp hrun
  obtain ⟨c', hc', hend⟩ := Option.map_eq_some_iff.mp hrest
  obtain ⟨hpins, hjobs⟩ := Prod.mk.inj hend
  have hreach : ((system Ingest.editorPorts ⟨1000, []⟩).when
      (OneIdentity fun _ => ("7", "8"))).Reachable c := System.reachable_exec_when (.start rfl) hc
  have hleads : ((system Ingest.editorPorts ⟨1000, []⟩).when
      (OneIdentity fun _ => ("7", "8"))).Leads c c' := System.leads_exec_when (.refl c) hc'
  exact ⟨c, c', hpins, hjobs, fun pins h => pins_kept hreach hleads hpins h⟩

/-- A second validation writes the ids of whatever repository has the name by then. -/
theorem pins_rewritten :
    ¬ ∀ (ports : IngestPorts) (quarantine : Quarantine) (c c' : QueueConfig),
      (system ports quarantine).Reachable c → (system ports quarantine).Leads c c' →
      ∀ id recorded pins, pinsOf c id = some (bothPins recorded) → pinsOf c' id = some pins →
        pins = bothPins recorded := by
  intro hclaim
  have hrun : (endOf registration).bind (fun c =>
      (System.exec editorParties.next (revalidation recreatedMove) c).map fun c' =>
        (pinsOf c 1, pinsOf c' 1)) =
      some (some (bothPins ("7", "8")), some (bothPins ("70", "80"))) := by
    decide +kernel
  obtain ⟨c, hc, hrest⟩ := Option.bind_eq_some_iff.mp hrun
  obtain ⟨c', hc', hend⟩ := Option.map_eq_some_iff.mp hrest
  obtain ⟨hpins, hpins'⟩ := Prod.mk.inj hend
  have hleads : (system Ingest.editorPorts ⟨1000, []⟩).Leads c c' :=
    System.leads_exec (.refl c) hc'
  exact absurd (hclaim _ _ c c' (reachable_endOf hc) hleads 1 _ _ hpins hpins') (by decide)

end DistPlatform.Queue
