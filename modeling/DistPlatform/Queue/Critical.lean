import DistPlatform.Queue.Approved

/-!
# Critical sources and the signing worker

Whether a source is critical is asked once, when a poll decides. The signer does not ask
again, so what it signs depends on the edits made between that decision and its claim.

## Main definitions

* `lastClaim` — the job a worker claimed last, with the source's row at that moment.
* `underway` — the source for which a worker is on its way to a publish job.
* `CriticalSafe` — the edits that come too late for neither.
-/

namespace DistPlatform.Queue

open Runs History
open Ingest (IngestPorts Quarantine handOffPayload)
open Registry (Job JobId Source SourceId Statement Store)

def lastClaim (p : Party) : Log → Option (JobId × Option Source) :=
  latest fun
    | (q, .claimed job stored) => if q = p then some (job, stored) else none
    | _ => none

/-- An ingest worker that read the row as not critical, and may still promote or hand off. -/
def underway : ∀ p, Place p → Option SourceId
  | .ingest _, place => match place with
    | .working job source => if job.kind = .POLL ∧ source.critical = false then some source.id
        else none
    | .finishing job source result => (handOffPayload job.kind result).map fun _ => source.id
    | .handingOff _ source _ => some source.id
    | _ => none
  | .signer _, _ => none
  | .request _, _ => none
  | .ceremony, _ => none

/-- The source that an edit makes critical. -/
def makesCritical : QueueStatement → Option SourceId
  | .updateSource id edit => if edit.critical = some true then some id else none
  | _ => none

/-- An edit makes a source critical only while no publish job of it is open and no worker is
on its way to queue one. -/
def CriticalSafe (ports : IngestPorts) (c : QueueConfig) : QueueMove → Prop
  | .crash _ => True
  | .turn p act => ∀ turn ∈ turnOf ports c.shared.db c.shared.quarantine p act (c.place p),
      ∀ id ∈ makesCritical turn.statement,
        (∀ job ∈ c.shared.db.jobs, job.kind = .PUBLISH → job.sourceId = id →
          job.isOpen = false) ∧
        ∀ q, underway q (c.place q) ≠ some id

/-- The source is not critical, as long as it is there. -/
def Clear (db : Db) (id : SourceId) : Prop :=
  id < db.nextSource ∧ ∀ row, db.getSource id = some row → row.critical = false

/-- The row of the job's source was not critical when the job was claimed. -/
def ClaimedClear (p : Party) (job : QueueJob) (log : Log) : Prop :=
  ∃ stored, lastClaim p log = some (job.id, stored) ∧
    ∀ row ∈ stored, row.id = job.sourceId ∧ row.critical = false

def AddedSound (event : Party × Event) (older : Log) : Prop :=
  match event with
  | (p, .effect (.added job source _ _)) => source.id = job.sourceId ∧ ClaimedClear p job older
  | _ => True

/-! ## The row of a source -/

theorem critical_updateRow {db : Db} (statement : QueueStatement) (row : Source) :
    (statement.updateRow db row).critical = row.critical ∨ ∃ edit flag,
      statement = .updateSource row.id edit ∧ edit.critical = some flag ∧
        (statement.updateRow db row).critical = flag := by
  cases statement with
  | updateSource id edit =>
    simp only [Statement.updateRow]
    split
    next hid =>
      cases hflag : edit.critical with
      | none => exact .inl (by simp [Registry.SourceEdit.apply, hflag])
      | some flag =>
        exact .inr ⟨edit, flag, hid ▸ rfl, hflag, by simp [Registry.SourceEdit.apply, hflag]⟩
    · exact .inl rfl
  | setStatus | recordIdentity =>
    simp only [Statement.updateRow]
    split <;> exact .inl rfl
  | markDelegated appId =>
    simp only [Statement.updateRow]
    split
    · exact .inl rfl
    · split <;> exact .inl rfl
  | _ => exact .inl rfl

/-- Only an edit makes a source critical. -/
theorem Clear.exec {db : Db} {id : SourceId} {statement : QueueStatement} (h : Clear db id)
    (hedit : makesCritical statement ≠ some id) :
    Clear (statement.exec db) id := by
  refine ⟨Nat.lt_of_lt_of_le h.1 statement.nextSource_le, fun row hrow => ?_⟩
  obtain ⟨old, hold, rfl⟩ | ⟨-, hnew⟩ := Statement.getSource_exec_eq_some hrow
  · have hid := Store.id_of_getSource hold
    obtain hsame | ⟨edit, flag, rfl, hflag, hwritten⟩ := @critical_updateRow db statement old
    · exact hsame.trans (h.2 old hold)
    · rw [hwritten]
      cases flag with
      | false => rfl
      | true => exact absurd (by simp [makesCritical, hflag, hid]) hedit
  · have hid := (Statement.registered_eq_some hnew).1
    exact absurd ((Store.id_of_getSource hrow).symm.trans hid) h.1.ne

/-! ## One turn -/

section Turn

variable {ports : IngestPorts} {s : Shared} {p q : Party} {act : Act p} {place : Place p}
  {turn : Turn (Place p)} {worker : Nat}

/-- A worker gets underway with a row it has just read, and stays so by promoting it. -/
theorem underway_ingest {act : Ingest.IngestAct} {place : Ingest.IngestPlace}
    {turn : Turn Ingest.IngestPlace} {id : SourceId} (hnum : s.db.Numbered)
    (hplace : ∀ id, underway (.ingest worker) place = some id → Clear s.db id)
    (h : Ingest.ingestTurn ports act s.db s.quarantine place = some turn)
    (hnext : underway (.ingest worker) turn.next = some id) : Clear s.db id := by
  cases place with
  | fetching job =>
    obtain rfl := Option.some.inj h
    cases hsource : s.db.getSource job.sourceId with
    | none => simp [Queue.fetchSource, hsource, underway] at hnext
    | some source =>
      simp only [Queue.fetchSource, hsource, underway] at hnext
      split at hnext
      next hclear =>
        obtain rfl := Option.some.inj hnext
        have hid := Store.id_of_getSource hsource
        refine ⟨hid ▸ hnum.id_lt hsource, fun row hrow => ?_⟩
        rw [hid, hsource] at hrow
        exact Option.some.inj hrow ▸ hclear.2
      · cases hnext
  | working job source =>
    obtain ⟨-, hwork⟩ := @Ingest.workTurn_cases ports act s.quarantine job source
    rw [Option.some.inj h] at hwork
    generalize turn.next = next at hwork hnext
    generalize turn.effect = effect at hwork
    cases hwork with
    | failed message => cases hnext
    | validated => cases hnext
    | noRelease => cases hnext
    | decided pollable decides =>
      obtain ⟨payload, hpayload, rfl⟩ := Option.map_eq_some_iff.mp hnext
      obtain ⟨hkind, record, hrecord, hpromote, -⟩ := Ingest.handOffPayload_eq_some hpayload
      obtain rfl := Ingest.JobResult.polled.inj hrecord
      exact hplace _ (if_pos ⟨hkind, Ingest.noncritical_of_promoted decides hpromote⟩)
  | finishing job source result =>
    obtain rfl := Option.some.inj h
    cases hpayload : handOffPayload job.kind result with
    | none => simp [hpayload, underway] at hnext
    | some payload =>
      simp only [hpayload, underway] at hnext
      refine hplace id ?_
      simp only [underway, hpayload, Option.map_some]
      exact hnext
  | selecting =>
    simp only [Ingest.ingestTurn] at h
    split at h
    · obtain rfl := Option.some.inj h
      cases hnext
    · cases h
  | scanning due =>
    cases due with
    | nil => obtain rfl | ⟨row, -, -, -, rfl⟩ := claimJob_eq_some h <;> cases hnext
    | cons source due =>
      simp only [Ingest.ingestTurn] at h
      split at h
      · obtain rfl := Option.some.inj h
        cases hnext
      · cases h
  | scheduling source unchanged due =>
    obtain rfl := Option.some.inj h
    dsimp only at hnext
    split at hnext <;> cases hnext
  | failing job source message =>
    obtain rfl := Option.some.inj h
    dsimp only at hnext
    split at hnext <;> cases hnext
  | _ =>
    obtain rfl := Option.some.inj h
    cases hnext

theorem underway_own {id : SourceId} (hnum : s.db.Numbered)
    (hplace : ∀ id, underway p place = some id → Clear s.db id)
    (h : turnOf ports s.db s.quarantine p act place = some turn)
    (hnext : underway p turn.next = some id) : Clear s.db id := by
  cases p with
  | ingest worker => exact underway_ingest hnum hplace h hnext
  | _ => cases hnext

/-- No worker edits a source. -/
theorem makesCritical_ingest {act : Ingest.IngestAct} {place : Ingest.IngestPlace}
    {turn : Turn Ingest.IngestPlace}
    (h : Ingest.ingestTurn ports act s.db s.quarantine place = some turn) :
    makesCritical turn.statement = none := by
  cases place with
  | selecting =>
    simp only [Ingest.ingestTurn] at h
    split at h
    · obtain rfl := Option.some.inj h
      rfl
    · cases h
  | scanning due =>
    cases due with
    | nil => obtain rfl | ⟨row, -, -, -, rfl⟩ := claimJob_eq_some h <;> rfl
    | cons source due =>
      simp only [Ingest.ingestTurn] at h
      split at h
      · obtain rfl := Option.some.inj h
        rfl
      · cases h
  | working job source =>
    obtain rfl := Option.some.inj h
    rw [Ingest.workTurn_cases.1]
    rfl
  | scheduling source unchanged due =>
    obtain rfl := Option.some.inj h
    rfl
  | _ =>
    obtain rfl := Option.some.inj h
    rfl

/-- A publish job is queued for a source that is underway. -/
theorem clear_of_inserted {job : QueueJob}
    (hplace : ∀ id, underway p place = some id → Clear s.db id)
    (h : turnOf ports s.db s.quarantine p act place = some turn)
    (hjob : turn.statement.inserted s.db = some job) (hkind : job.kind = .PUBLISH) :
    Clear s.db job.sourceId := by
  cases p with
  | ingest worker =>
    obtain hpoll | ⟨poll, source, payload, rfl, -, hsource, -⟩ := ingestTurn_inserted h hjob
    · cases hkind.symm.trans hpoll
    · exact hplace _ (congrArg some hsource.symm)
  | signer worker => cases (signerTurn_inserted h).symm.trans hjob
  | request id =>
    obtain rfl := Option.some.inj h
    exact absurd hkind (adminTurn_inserted hjob).1
  | ceremony =>
    obtain rfl := Option.some.inj h
    cases hjob

/-- No turn opens a closed job. -/
theorem isOpen_of_update (hI : Accounted s)
    (h : turnOf ports s.db s.quarantine p act place = some turn) {old : QueueJob}
    (hold : old ∈ s.db.jobs) (hopen : (turn.statement.update old).isOpen = true) :
    old.isOpen = true := by
  by_contra hclosed
  rw [Bool.not_eq_true] at hclosed
  have hcases := turnOf_cases h
  generalize turn.statement = statement at hcases hopen
  by_cases htarget : statement.target = some old.id
  · cases hcases with
    | @claim row now present queued =>
      obtain rfl := hI.ids row present old hold (Option.some.inj htarget)
      simp [Job.isOpen, queued] at hclosed
    | @finish held state _ _ _ _ closes =>
      simp only [Statement.update, if_pos (Option.some.inj htarget).symm] at hopen
      obtain rfl | rfl := closes <;> cases hopen
    | file inserted =>
      obtain ⟨_, _, _, _, _, rfl, -⟩ := Statement.inserted_eq_some inserted
      cases htarget
    | keep _ target => cases target.symm.trans htarget
  · rw [Statement.update_of_closed hclosed htarget, hclosed] at hopen
    cases hopen

theorem lastClaim_commit (h : turnOf ports s.db s.quarantine p act place = some turn)
    (hclaim : p = q → turn.statement.target = none ∨ ∃ id state result error now,
      turn.statement = .finish id state result error now) :
    lastClaim q (s.commit p turn).log = lastClaim q s.log := by
  refine latest_commit h (fun event hevent => ?_) fun _ _ => rfl
  cases event with
  | claimed job stored =>
    refine if_neg fun hpq => ?_
    unfold eventOf at hevent
    split at hevent
    next found now hstatement =>
      obtain hnone | ⟨_, _, _, _, _, hfinish⟩ := hclaim hpq
      · rw [hstatement] at hnone
        cases hnone
      · cases hstatement.symm.trans hfinish
    · simp at hevent
  | _ => rfl

/-- The claim of an open publish job finds its source not critical. -/
theorem claimedClear_claim {row : QueueJob} {now : Nat} (hI : Accounted s)
    (hclear : Clear s.db row.sourceId) (hrow : row ∈ s.db.jobs)
    (hclaim : turn.statement = .claim row.id now) :
    ClaimedClear p row (s.commit p turn).log := by
  refine ⟨(s.db.jobs.find? (·.id == row.id)).bind fun found => s.db.getSource found.sourceId,
    ?_, fun stored hstored => ?_⟩
  · simp only [Shared.commit, hclaim, eventOf, Option.toList_some, List.cons_append,
      List.map_cons]
    exact latest_cons_of_some (if_pos rfl)
  · obtain ⟨found, hfound, hget⟩ := Option.bind_eq_some_iff.mp hstored
    have hsame : found = row := hI.ids found (List.mem_of_find?_eq_some hfound) row hrow
      (by simpa using List.find?_some hfound)
    rw [hsame] at hget
    exact ⟨Store.id_of_getSource hget, hclear.2 stored hget⟩

end Turn

/-! ## The runs -/

/-- The shared part of the invariant. -/
structure CriticalClear (s : Shared) : Prop where
  numbered : s.db.Numbered
  publishes : ∀ job ∈ s.db.jobs, job.kind = .PUBLISH → job.isOpen = true →
    Clear s.db job.sourceId
  log : Justified AddedSound s.log

/-- A party's part: what it is on its way to, and what it claimed. -/
structure PlaceClear (s : Shared) (p : Party) (place : Place p) : Prop where
  underway : ∀ id, underway p place = some id → Clear s.db id
  claimed : ∀ job, hold p place = some (.running job) → job.kind = .PUBLISH →
    ClaimedClear p job s.log

section Step

variable {ports : IngestPorts} {c : QueueConfig} {p q : Party} {act : Act p}
  {turn : Turn (Place p)}

/-- A safe turn edits no source that an open publish job or a worker rests on. -/
theorem clear_commit (hsafe : CriticalSafe ports c (.turn p act))
    (hturn : turnOf ports c.shared.db c.shared.quarantine p act (c.place p) = some turn)
    {id : SourceId} (hclear : Clear c.shared.db id)
    (hneeded : (∃ job ∈ c.shared.db.jobs, job.kind = .PUBLISH ∧ job.sourceId = id ∧
      job.isOpen = true) ∨ ∃ q, underway q (c.place q) = some id) :
    Clear (c.shared.commit p turn).db id := by
  refine hclear.exec fun hcritical => ?_
  obtain ⟨hjobs, hnobody⟩ := hsafe turn hturn id hcritical
  obtain ⟨job, hjob, hkind, hsource, hopen⟩ | ⟨q, hq⟩ := hneeded
  · cases hopen.symm.trans (hjobs job hjob hkind hsource)
  · exact hnobody q hq

theorem criticalClear_commit (hs : Standing ports c) (hheld : HeldSound c)
    (hsafe : CriticalSafe ports c (.turn p act)) (hI : CriticalClear c.shared)
    (hL : PlaceClear c.shared p (c.place p))
    (hturn : turnOf ports c.shared.db c.shared.quarantine p act (c.place p) = some turn) :
    CriticalClear (c.shared.commit p turn) := by
  refine ⟨hI.numbered.exec turn.statement, fun job hjob hkind hopen => ?_, ?_⟩
  · obtain ⟨old, hold, -, rfl⟩ | hinserted := Statement.mem_exec.mp hjob
    · obtain ⟨-, hsource, hkind', -⟩ := Job.fixed_inj.mp (turn.statement.fixed_update old)
      have hopen' := isOpen_of_update hs.accounted hturn hold hopen
      have hpublish := hkind'.symm.trans hkind
      rw [hsource]
      exact clear_commit hsafe hturn (hI.publishes old hold hpublish hopen')
        (.inl ⟨old, hold, hpublish, rfl, hopen'⟩)
    · refine (clear_of_inserted hL.underway hturn hinserted hkind).exec fun hcritical => ?_
      obtain ⟨_, _, _, _, _, henqueue, -⟩ := Statement.inserted_eq_some hinserted
      rw [henqueue] at hcritical
      cases hcritical
  · obtain hsame | ⟨event, hevent, hnew⟩ | ⟨effect, heffect, hnew⟩ := commit_log hturn
    · exact hsame ▸ hI.log
    · refine hnew ▸ hI.log.cons ?_
      cases event with
      | effect effect => exact absurd hevent eventOf_ne_effect
      | _ => trivial
    · refine hnew ▸ hI.log.cons ?_
      cases p with
      | signer worker =>
        have hrunning := hheld (.signer worker)
        generalize hat : c.place (.signer worker) = place at hL hturn hrunning
        obtain ⟨-, job, source, ⟨-, -, -, rfl⟩ | ⟨release, rfl, rfl⟩⟩ :=
          signerTurn_effect hturn heffect
        · trivial
        · have hplace := hs.places (.signer worker)
          rw [hat] at hplace
          exact ⟨hplace.1, hL.claimed job rfl (List.mem_singleton.mp (hrunning job rfl).2)⟩
      | ingest worker =>
        obtain ⟨-, job, source, ⟨-, -, -, rfl⟩ | ⟨polled, -, rfl, -⟩⟩ :=
          ingestTurn_effect hturn heffect <;> trivial
      | request id =>
        obtain rfl := Option.some.inj hturn
        cases adminTurn_effect.symm.trans heffect
      | ceremony =>
        obtain rfl := Option.some.inj hturn
        cases heffect

theorem placeClear_own (hs : Standing ports c) (hsafe : CriticalSafe ports c (.turn p act))
    (hI : CriticalClear c.shared) (hL : PlaceClear c.shared p (c.place p))
    (hturn : turnOf ports c.shared.db c.shared.quarantine p act (c.place p) = some turn) :
    PlaceClear (c.shared.commit p turn) p turn.next := by
  refine ⟨fun id hid => ?_, fun job hjob hkind => ?_⟩
  · have hclear := underway_own hI.numbered hL.underway hturn hid
    refine hclear.exec ?_
    cases p with
    | ingest worker => simp [makesCritical_ingest hturn]
    | _ => cases hid
  · have hcases := turnOf_cases hturn
    generalize hstatement : turn.statement = statement at hcases
    cases hcases with
    | @claim row now present queued _ _ hnext =>
      obtain rfl := Hold.running.inj (Option.some.inj (hnext.symm.trans hjob))
      have hclear := hI.publishes row present hkind (by simp [Job.isOpen, queued])
      have hclaimed := claimedClear_claim hs.accounted hclear present hstatement
      exact hclaimed
    | finish _ _ free => cases free.symm.trans hjob
    | file _ _ hnext => cases hnext.symm.trans hjob
    | keep same target =>
      obtain ⟨stored, hlast, hclear⟩ := hL.claimed job (same.symm.trans hjob) hkind
      refine ⟨stored, ?_, hclear⟩
      rw [lastClaim_commit hturn fun _ => .inl (hstatement ▸ target)]
      exact hlast

theorem placeClear_other (hsafe : CriticalSafe ports c (.turn p act))
    (hL : PlaceClear c.shared q (c.place q)) (hpq : p ≠ q)
    (hturn : turnOf ports c.shared.db c.shared.quarantine p act (c.place p) = some turn) :
    PlaceClear (c.shared.commit p turn) q (c.place q) := by
  refine ⟨fun id hid => clear_commit hsafe hturn (hL.underway id hid) (.inr ⟨q, hid⟩), ?_⟩
  intro job hjob hkind
  obtain ⟨stored, hlast, hclear⟩ := hL.claimed job hjob hkind
  exact ⟨stored, (lastClaim_commit hturn fun h => absurd h hpq).trans hlast, hclear⟩

end Step

theorem critical_invariant (ports : IngestPorts) (quarantine : Quarantine) :
    (parties ports quarantine).Invariant
      (fun c move => CriticalSafe ports c move ∧ Standing ports c ∧ HeldSound c) CriticalClear
      (fun p s place => PlaceClear s p place) where
  start := ⟨fun _ h => absurd h List.not_mem_nil, fun _ h => absurd h List.not_mem_nil, trivial⟩
  idle p s := by cases p <;> exact ⟨fun _ h => (by cases h), fun _ h => (by cases h)⟩
  own c p act shared place hok hI hL h := by
    obtain ⟨turn, hturn, hcommit⟩ := Option.map_eq_some_iff.mp h
    obtain ⟨rfl, rfl⟩ := Prod.mk.inj hcommit
    exact ⟨criticalClear_commit hok.2.1 hok.2.2 hok.1 hI (hL p) hturn,
      placeClear_own hok.2.1 hok.1 hI (hL p) hturn⟩
  other c p act shared place q hq hok _ hL h := by
    obtain ⟨turn, hturn, hcommit⟩ := Option.map_eq_some_iff.mp h
    obtain ⟨rfl, rfl⟩ := Prod.mk.inj hcommit
    exact placeClear_other hok.1 (hL q) hq.symm hturn

/-- A release is added for a source that was not critical when its publish job was claimed, in
every run whose edits come in time. -/
theorem added_not_critical {ports : IngestPorts} {quarantine : Quarantine} {c : QueueConfig}
    (hc : ((system ports quarantine).when (CriticalSafe ports)).Reachable c)
    {newer older : Log} {p : Party} {job : QueueJob} {source : Source} {key : Core.TargetKey}
    {artifact : Ingest.Bytes}
    (hsplit : c.shared.log = newer ++ (p, .effect (.added job source key artifact)) :: older) :
    source.id = job.sourceId ∧ ClaimedClear p job older := by
  have hreach := hc.when_and fun _ h => And.intro (standing h.of_when) (heldSound h.of_when)
  have hlog := ((critical_invariant ports quarantine).holds hreach).1.log
  rw [hsplit] at hlog
  exact hlog.of_append

/-- The latest event of a run, where a release was added: whether the worker's last claim was of
its job, and the `critical` flag stored then. -/
def addedCritical : Log → Option (Bool × Option Bool)
  | (p, .effect (.added job _ _ _)) :: older => (lastClaim p older).map fun (id, stored) =>
      (id == job.id, stored.map (·.critical))
  | _ => none

theorem addedCritical_eq_some {log : Log} {same : Bool} {critical : Option Bool}
    (h : addedCritical log = some (same, critical)) : ∃ p job source key artifact older,
      log = [] ++ (p, .effect (.added job source key artifact)) :: older ∧ ∃ id stored,
        lastClaim p older = some (id, stored) ∧ (id == job.id) = same ∧
          stored.map (·.critical) = critical := by
  unfold addedCritical at h
  split at h
  next p job source key artifact older =>
    obtain ⟨⟨id, stored⟩, hlast, heq⟩ := Option.map_eq_some_iff.mp h
    obtain ⟨hsame, hcritical⟩ := Prod.mk.inj heq
    exact ⟨p, job, source, key, artifact, older, rfl, id, stored, hlast, hsame, hcritical⟩
  · cases h

/-- No edit at all makes a source critical. -/
def Uncritical (ports : IngestPorts) (c : QueueConfig) : QueueMove → Prop
  | .crash _ => True
  | .turn p act => (turnOf ports c.shared.db c.shared.quarantine p act (c.place p)).all
      fun turn => (makesCritical turn.statement).isNone

instance (ports : IngestPorts) (c : QueueConfig) : ∀ move, Decidable (Uncritical ports c move)
  | .crash _ => .isTrue trivial
  | .turn p act => inferInstanceAs (Decidable
      ((turnOf ports c.shared.db c.shared.quarantine p act (c.place p)).all
        (fun turn => (makesCritical turn.statement).isNone) = true))

theorem Uncritical.safe {ports : IngestPorts} {c : QueueConfig} {move : QueueMove}
    (h : Uncritical ports c move) : CriticalSafe ports c move := by
  cases move with
  | crash p => trivial
  | turn p act =>
    intro turn hturn id hid
    rw [Uncritical, Option.mem_def.mp hturn, Option.all_some, Option.mem_def.mp hid] at h
    cases h

/-- Up to the signer's call of `add_release`. -/
def adding : List QueueMove := registration ++ polling ++ signing.take 6

theorem added_not_critical_editor : ∃ (c : QueueConfig) (p : Party) (job : QueueJob)
    (source : Source) (key : Core.TargetKey) (artifact : Ingest.Bytes) (older : Log),
    endOf adding = some c ∧
      c.shared.log = [] ++ (p, .effect (.added job source key artifact)) :: older ∧
      source.id = job.sourceId ∧ ClaimedClear p job older := by
  have hrun : (System.exec (fun c move => if Uncritical Ingest.editorPorts c move then
        editorParties.next c move else none) adding editorParties.initial).map
        (fun c => addedCritical c.shared.log) = some (some (true, some false)) := by
    decide +kernel
  obtain ⟨c, hc, hadded⟩ := Option.map_eq_some_iff.mp hrun
  obtain ⟨p, job, source, key, artifact, older, hlog, -⟩ := addedCritical_eq_some hadded
  have hreach := System.reachable_exec_when (.start rfl) hc
  exact ⟨c, p, job, source, key, artifact, older, System.exec_of_when hc, hlog,
    added_not_critical (hreach.mono fun _ _ => Uncritical.safe) hlog⟩

/-- The source is made critical once its publish job is queued. -/
def markedLate : List QueueMove :=
  registration ++ polling ++ signing.take 1 ++
    List.replicate 2 (requestMove 2 (.act 1 (.edit { critical := some true }))) ++
    (signing.drop 1).take 5

theorem added_though_critical :
    ¬ ∀ (ports : IngestPorts) (quarantine : Quarantine) (c : QueueConfig),
      (system ports quarantine).Reachable c → ∀ (newer older : Log) (p : Party) (job : QueueJob)
      (source : Source) (key : Core.TargetKey) (artifact : Ingest.Bytes),
      c.shared.log = newer ++ (p, .effect (.added job source key artifact)) :: older →
      source.id = job.sourceId ∧ ClaimedClear p job older := by
  intro hclaim
  have hrun : (endOf markedLate).map (fun c => addedCritical c.shared.log) =
      some (some (true, some true)) := by
    decide +kernel
  obtain ⟨c, hc, hadded⟩ := Option.map_eq_some_iff.mp hrun
  obtain ⟨p, job, source, key, artifact, older, hlog, id, stored, hlast, -, hcritical⟩ :=
    addedCritical_eq_some hadded
  obtain ⟨row, rfl, hflag⟩ := Option.map_eq_some_iff.mp hcritical
  obtain ⟨-, found, hfound, hclear⟩ :=
    hclaim _ _ c (reachable_endOf hc) [] older p job source key artifact hlog
  obtain rfl := (Prod.mk.inj (Option.some.inj (hlast.symm.trans hfound))).2
  cases (hclear row rfl).2.symm.trans hflag

end DistPlatform.Queue
