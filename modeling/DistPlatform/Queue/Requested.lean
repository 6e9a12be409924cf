import DistPlatform.Admin.Sessions
import DistPlatform.Ingest.AttestedVersion
import DistPlatform.Queue.System

/-!
# Jobs that operators asked for

The requests that work on the queue are those whose session and form were accepted: a handler
runs once for a form, under the name of the operator whose session it is, and answers when it
has run.

## Main definitions

* `Plane`, `plane` — the sessions and the queue, and the system of both.
* `formsOf`, `jobsOf` — the forms of a request that were accepted, and the jobs it has queued.
-/

namespace DistPlatform.Queue

open Runs
open Admin (AdminAct Hashing Operator Request RequestPlace SiteAct SiteConfig SiteEvent SitePlace
  adminTurn)
open Ingest (IngestPorts Quarantine)

structure Plane where
  site : SiteConfig Nat Request
  queue : QueueConfig

inductive PlaneMove
  /-- A statement on the operators or the sessions. -/
  | site (id : Nat) (act : SiteAct Request)
  /-- A statement of the handler of an accepted form. -/
  | handler (id : Nat) (now : Nat)
  /-- A statement of a worker or of the ceremony tool. -/
  | worker (p : Party) (act : Act p)
  | crash (id : Nat)
  | crashWorker (p : Party)

section System

variable (hashing : Hashing) (ports : IngestPorts) (quarantine : Quarantine)

/-- The form that the request handles. -/
def handled : SitePlace Request → Option (Operator × Request)
  | .handling operator request => some (operator, request)
  | _ => none

def isRequest : Party → Bool
  | .request _ => true
  | _ => false

/-- The request has been answered. -/
def Plane.answered (c : Plane) (id : Nat) : SiteConfig Nat Request :=
  ⟨c.site.shared, Function.update c.site.place id .idle⟩

def Plane.next (c : Plane) : PlaneMove → Option Plane
  | .site id act =>
    match handled (c.site.place id) with
    | some _ => none
    | none => ((Admin.site Nat Request hashing).next c.site (.turn id act)).map fun site =>
        ⟨site, c.queue⟩
  | .handler id now =>
    match handled (c.site.place id) with
    | none => none
    | some (operator, request) =>
      let act : AdminAct := ⟨now, operator.username, request⟩
      ((parties ports quarantine).next c.queue (.turn (.request id) act)).map fun queue =>
        ⟨if queue.place (.request id) = RequestPlace.idle then c.answered id else c.site, queue⟩
  | .worker p act =>
    if isRequest p then none
    else ((parties ports quarantine).next c.queue (.turn p act)).map fun queue => ⟨c.site, queue⟩
  | .crash id => do
    let site ← (Admin.site Nat Request hashing).next c.site (.crash id)
    let queue ← (parties ports quarantine).next c.queue (.crash (.request id))
    return ⟨site, queue⟩
  | .crashWorker p =>
    if isRequest p then none
    else ((parties ports quarantine).next c.queue (.crash p)).map fun queue => ⟨c.site, queue⟩

def plane : System Plane PlaneMove :=
  .ofNext ⟨(Admin.site Nat Request hashing).initial, (parties ports quarantine).initial⟩
    (Plane.next hashing ports quarantine)

end System

/-- The operator whose form the request has been let in with. -/
def form (id : Nat) : SiteEvent Nat → Option Operator
  | .admitted p _ operator (some _) _ => if p = id then some operator else none
  | _ => none

def formsOf (id : Nat) (log : List (SiteEvent Nat)) : List Operator := log.filterMap (form id)

/-- The job that the request has queued. -/
def queued (id : Nat) : Party × Event → Option QueueJob
  | (.request p, .enqueued job) => if p = id then some job else none
  | _ => none

def jobsOf (id : Nat) (log : List (Party × Event)) : List QueueJob := log.filterMap (queued id)

/-- The handler may still queue a job. -/
def owes : RequestPlace → Bool
  | .marking _ => false
  | _ => true

/-- Every job has a form of its own, of the operator it names; and a handler that may still
queue a job has the newest form left for it. -/
structure Asked (c : Plane) (id : Nat) : Prop where
  jobs : ((jobsOf id c.queue.shared.log).map (·.requestedBy)).Sublist
    ((formsOf id c.site.shared.log).map (·.username))
  idle : handled (c.site.place id) = none → c.queue.place (.request id) = RequestPlace.idle
  form : ∀ operator request, handled (c.site.place id) = some (operator, request) →
    ∃ older, formsOf id c.site.shared.log = operator :: older ∧
      (owes (c.queue.place (.request id)) = true →
        ((jobsOf id c.queue.shared.log).map (·.requestedBy)).Sublist (older.map (·.username)))

/-! ## The handlers -/

section Handlers

variable {act : AdminAct} {db : Db} {place : RequestPlace}

/-- A handler queues at most one job, under the operator's name. -/
theorem adminTurn_queues {job : QueueJob}
    (h : (adminTurn act db place).statement.inserted db = some job) :
    job.requestedBy = act.operator ∧ owes place = true ∧
      ((adminTurn act db place).next = .idle ∨ owes (adminTurn act db place).next = false) := by
  obtain ⟨_, _, _, _, _, hstatement, -, -, rfl, -⟩ := Registry.Statement.inserted_eq_some h
  cases place with
  | idle =>
    simp only [adminTurn] at hstatement
    split at hstatement <;> cases hstatement
  | queueing source =>
    cases hstatement
    refine ⟨rfl, rfl, ?_⟩
    simp only [adminTurn]
    split
    · exact .inl rfl
    · exact .inr rfl
  | acting source action =>
    cases action with
    | validate =>
      cases hstatement
      refine ⟨rfl, rfl, ?_⟩
      simp only [adminTurn, Admin.actionTurn]
      split
      · exact .inl rfl
      · exact .inr rfl
    | poll =>
      simp only [adminTurn, Admin.actionTurn] at hstatement ⊢
      split at hstatement
      next hpollable =>
        cases hstatement
        rw [if_pos hpollable]
        exact ⟨rfl, rfl, .inl rfl⟩
      · cases hstatement
    | pause | delete | edit => cases hstatement
  | marking => cases hstatement

theorem adminTurn_next (h : owes place = false) : (adminTurn act db place).next = .idle := by
  cases place with
  | marking => rfl
  | _ => cases h

end Handlers

/-! ## The logs -/

section Logs

variable {hashing : Hashing} {ports : IngestPorts} {quarantine : Quarantine} {id : Nat}

/-- What others do is no job of the request. -/
theorem jobsOf_of_ne {p : Party} (hp : p ≠ .request id) (events : List Event)
    (log : List (Party × Event)) : jobsOf id (events.map (p, ·) ++ log) = jobsOf id log := by
  have hnone : (events.map (p, ·)).filterMap (queued id) = [] := by
    rw [List.filterMap_eq_nil_iff]
    intro entry hmem
    obtain ⟨event, -, rfl⟩ := List.mem_map.mp hmem
    cases p with
    | request q =>
      cases event with
      | enqueued job => exact if_neg fun hq => hp (congrArg Party.request hq)
      | _ => rfl
    | _ => rfl
  rw [jobsOf, List.filterMap_append, hnone]
  rfl

/-- A statement of a handler that queues a job logs it, and any other logs nothing. -/
theorem jobsOf_commit {s : Shared} {act : AdminAct} {place : RequestPlace} :
    jobsOf id (s.commit (.request id) (adminTurn act s.db place)).log =
      ((adminTurn act s.db place).statement.inserted s.db).toList ++ jobsOf id s.log := by
  have hevent : eventOf s.db (adminTurn act s.db place).statement =
      ((adminTurn act s.db place).statement.inserted s.db).map .enqueued := by
    have htarget := adminTurn_target act s.db place
    generalize (adminTurn act s.db place).statement = statement at htarget
    cases statement with
    | claim => cases htarget
    | _ => rfl
  simp only [Shared.commit, hevent, adminTurn_effect, Option.map_none, Option.toList_none,
    List.append_nil, jobsOf, List.filterMap_append]
  cases (adminTurn act s.db place).statement.inserted s.db with
  | none => rfl
  | some job => simp [queued]

/-- A statement that lets no form in, and the one that does. -/
inductive Lets (id : Nat) (s : Admin.Site Nat) : Admin.Site Nat → SitePlace Request → Prop
  | none {s' : Admin.Site Nat} {place : SitePlace Request} (free : handled place = none)
      (forms : ∀ q, formsOf q s'.log = formsOf q s.log) : Lets id s s' place
  | one {s' : Admin.Site Nat} {operator : Operator} {request : Request}
      (own : formsOf id s'.log = operator :: formsOf id s.log)
      (others : ∀ q ≠ id, formsOf q s'.log = formsOf q s.log) :
      Lets id s s' (.handling operator request)

theorem beginTurn_lets {s s' : Admin.Site Nat} {act : SiteAct Request} {place : SitePlace Request}
    (h : Admin.beginTurn hashing id s act = some (s', place)) : Lets id s s' place := by
  cases act with
  | submit cookie csrf request now =>
    simp only [Admin.beginTurn] at h
    split at h
    · obtain ⟨rfl, rfl⟩ := Prod.mk.inj (Option.some.inj h)
      exact .none rfl fun _ => rfl
    next operator _ =>
      split at h
      · obtain ⟨rfl, rfl⟩ := Prod.mk.inj (Option.some.inj h)
        exact .none rfl fun _ => rfl
      next hcsrf =>
        obtain ⟨rfl, rfl⟩ := Prod.mk.inj (Option.some.inj h)
        obtain ⟨rfl, -⟩ := Admin.checkCsrf_eq_ok hcsrf
        refine .one (List.filterMap_cons_some (if_pos rfl)) fun q hq => ?_
        exact List.filterMap_cons_none (if_neg (Ne.symm hq))
  | proceed => cases h
  | start password =>
    cases password <;> simp only [Admin.beginTurn] at h <;> (try split at h) <;>
      obtain ⟨rfl, rfl⟩ := Prod.mk.inj (Option.some.inj h) <;> exact .none rfl fun _ => rfl
  | login | logout | view | operators | disable =>
    simp only [Admin.beginTurn] at h
    (repeat' split at h) <;> obtain ⟨rfl, rfl⟩ := Prod.mk.inj (Option.some.inj h) <;>
      exact .none rfl fun _ => rfl

theorem siteTurn_lets {s s' : Admin.Site Nat} {act : SiteAct Request}
    {place place' : SitePlace Request}
    (h : Admin.siteTurn hashing id s act place = some (s', place')) : Lets id s s' place' := by
  unfold Admin.siteTurn at h
  split at h
  · -- a program that is under way lets nobody in
    cases place <;> simp only [Admin.proceedTurn, reduceCtorEq] at h <;> (repeat' split at h) <;>
      obtain ⟨rfl, rfl⟩ := Prod.mk.inj (Option.some.inj h) <;> exact .none rfl fun _ => rfl
  · exact beginTurn_lets h
  · cases h

end Logs

/-! ## Every state -/

section States

variable {hashing : Hashing} {ports : IngestPorts} {quarantine : Quarantine} {c c' : Plane}
  {id q : Nat}

theorem Asked.congr (h : Asked c q)
    (hjobs : jobsOf q c'.queue.shared.log = jobsOf q c.queue.shared.log)
    (hforms : formsOf q c'.site.shared.log = formsOf q c.site.shared.log)
    (hqueue : c'.queue.place (.request q) = c.queue.place (.request q))
    (hsite : c'.site.place q = c.site.place q) : Asked c' q := by
  obtain ⟨hsub, hidle, hform⟩ := h
  rw [← hjobs, ← hforms] at hsub
  rw [← hsite, ← hqueue] at hidle
  rw [← hsite, ← hqueue, ← hforms, ← hjobs] at hform
  exact ⟨hsub, hidle, hform⟩

/-- A statement on the sessions. -/
theorem asked_site {act : SiteAct Request} (h : ∀ q, Asked c q)
    (hnext : c.next hashing ports quarantine (.site id act) = some c') : Asked c' q := by
  simp only [Plane.next] at hnext
  split at hnext
  · cases hnext
  next hfree =>
    obtain ⟨site, hsite, rfl⟩ := Option.map_eq_some_iff.mp hnext
    obtain ⟨shared, place, hturn, rfl⟩ := Parties.next_turn hsite
    have hlets := siteTurn_lets hturn
    by_cases hq : q = id
    · subst hq
      obtain ⟨hsub, hidle, -⟩ := h q
      have hidle := hidle hfree
      cases hlets with
      | none hfree' hforms =>
        refine ⟨?_, fun _ => hidle, fun operator request hhandled => ?_⟩
        · dsimp only
          rw [hforms]
          exact hsub
        · simp only [Function.update_self, hfree', reduceCtorEq] at hhandled
      | @one operator request hown hothers =>
        refine ⟨?_, fun _ => hidle, fun operator' request' hhandled => ?_⟩
        · dsimp only
          rw [hown]
          exact hsub.cons _
        · simp only [Function.update_self, handled, Option.some.injEq, Prod.mk.injEq] at hhandled
          obtain ⟨rfl, rfl⟩ := hhandled
          exact ⟨_, hown, fun _ => hsub⟩
    · refine (h q).congr rfl ?_ rfl (Function.update_of_ne hq _ _)
      cases hlets with
      | none _ hforms => exact hforms q
      | one _ hothers => exact hothers q hq

theorem next_request {queue queue' : QueueConfig} {act : AdminAct}
    (h : (parties ports quarantine).next queue (.turn (.request id) act) = some queue') :
    queue' = ⟨queue.shared.commit (.request id)
        (adminTurn act queue.shared.db (queue.place (.request id))),
      Function.update queue.place (.request id)
        (adminTurn act queue.shared.db (queue.place (.request id))).next⟩ :=
  (Option.some.inj h).symm

/-- The request's own form: the job that its handler queues, if any, goes with it. -/
theorem asked_own {operator : Operator} {request : Request} {older : List Operator} {now : Nat}
    (hhandled : handled (c.site.place id) = some (operator, request))
    (hforms : formsOf id c.site.shared.log = operator :: older)
    (hsub : ((jobsOf id c.queue.shared.log).map (·.requestedBy)).Sublist
      ((formsOf id c.site.shared.log).map (·.username)))
    (howed : owes (c.queue.place (.request id)) = true →
      ((jobsOf id c.queue.shared.log).map (·.requestedBy)).Sublist (older.map (·.username))) :
    let turn := adminTurn ⟨now, operator.username, request⟩ c.queue.shared.db
      (c.queue.place (.request id))
    let queue : QueueConfig := ⟨c.queue.shared.commit (.request id) turn,
      Function.update c.queue.place (.request id) turn.next⟩
    Asked ⟨if queue.place (.request id) = RequestPlace.idle then c.answered id else c.site, queue⟩
      id := by
  intro turn queue
  have hplace : queue.place (.request id) = turn.next := Function.update_self _ _ _
  have hjobs : jobsOf id queue.shared.log =
      (turn.statement.inserted c.queue.shared.db).toList ++ jobsOf id c.queue.shared.log :=
    jobsOf_commit
  have hlog : ∀ site, site = c.answered id ∨ site = c.site →
      formsOf id site.shared.log = operator :: older := by
    rintro site (rfl | rfl) <;> exact hforms
  have hsub' : ((jobsOf id queue.shared.log).map (·.requestedBy)).Sublist
      ((operator :: older).map (·.username)) := by
    rw [hjobs]
    cases hjob : turn.statement.inserted c.queue.shared.db with
    | none => exact hforms ▸ hsub
    | some job =>
      obtain ⟨hname, howes, -⟩ := adminTurn_queues hjob
      have hcons := (howed howes).cons_cons job.requestedBy
      rw [hname] at hcons
      simpa [hname] using hcons
  by_cases hidle : turn.next = RequestPlace.idle
  · rw [hplace, if_pos hidle]
    refine ⟨?_, fun _ => hplace.trans hidle, fun operator' request' hnone => ?_⟩
    · rwa [hlog _ (.inl rfl)]
    · simp only [Plane.answered, Function.update_self] at hnone
      cases hnone
  · rw [hplace, if_neg hidle]
    refine ⟨?_, fun hnone => ?_, fun operator' request' hhandled' => ⟨older, ?_, fun howes => ?_⟩⟩
    · rwa [hlog _ (.inr rfl)]
    · rw [hhandled] at hnone
      cases hnone
    · obtain ⟨rfl, rfl⟩ := Prod.mk.inj (Option.some.inj (hhandled.symm.trans hhandled'))
      exact hforms
    · dsimp only at howes ⊢
      rw [hplace] at howes
      rw [hjobs]
      cases hjob : turn.statement.inserted c.queue.shared.db with
      | none =>
        refine howed ?_
        by_contra hdone
        exact hidle (adminTurn_next (Bool.eq_false_iff.mpr hdone))
      | some job =>
        -- a handler that has queued its job owes none
        obtain ⟨-, -, hnext | hnext⟩ := adminTurn_queues hjob
        · exact absurd hnext hidle
        · rw [hnext] at howes
          cases howes

/-- A statement of a handler. -/
theorem asked_handler {now : Nat} (h : ∀ q, Asked c q)
    (hnext : c.next hashing ports quarantine (.handler id now) = some c') : Asked c' q := by
  simp only [Plane.next] at hnext
  split at hnext
  · cases hnext
  next operator request hhandled =>
    obtain ⟨queue, hqueue, rfl⟩ := Option.map_eq_some_iff.mp hnext
    obtain rfl := next_request hqueue
    by_cases hq : q = id
    · subst hq
      obtain ⟨hsub, -, hform⟩ := h q
      obtain ⟨older, hforms, howed⟩ := hform operator request hhandled
      exact asked_own hhandled hforms hsub howed
    · have hjobs : (Party.request id) ≠ .request q := fun heq => hq (Party.request.inj heq).symm
      refine (h q).congr (jobsOf_of_ne hjobs _ _) ?_ (Function.update_of_ne hjobs.symm _ _) ?_
      · dsimp only
        split <;> rfl
      · dsimp only
        split
        · exact Function.update_of_ne hq _ _
        · rfl

theorem asked_next {move : PlaneMove} (h : ∀ q, Asked c q)
    (hnext : c.next hashing ports quarantine move = some c') : Asked c' q := by
  cases move with
  | site id act => exact asked_site h hnext
  | handler id now => exact asked_handler h hnext
  | worker p act =>
    simp only [Plane.next] at hnext
    split at hnext
    · cases hnext
    next hother =>
      obtain ⟨queue, hqueue, rfl⟩ := Option.map_eq_some_iff.mp hnext
      obtain ⟨shared, place, hturn, rfl⟩ := Parties.next_turn hqueue
      obtain ⟨turn, -, hturn⟩ := Option.map_eq_some_iff.mp hturn
      obtain ⟨rfl, rfl⟩ := Prod.mk.inj hturn
      have hp : p ≠ .request q := fun heq => hother (heq ▸ rfl)
      exact (h q).congr (jobsOf_of_ne hp _ _) rfl (Function.update_of_ne hp.symm _ _) rfl
  | crash id =>
    simp only [Plane.next, Fallible.bind_eq_some] at hnext
    obtain ⟨site, hsite, queue, hqueue, hc⟩ := hnext
    obtain rfl := Option.some.inj hc
    obtain rfl := Parties.next_crash hsite
    obtain rfl := Parties.next_crash hqueue
    by_cases hq : q = id
    · subst hq
      refine ⟨(h q).jobs, fun _ => Function.update_self _ _ _, fun operator request hhandled => ?_⟩
      simp only [Function.update_self] at hhandled
      cases hhandled
    · refine (h q).congr rfl rfl (Function.update_of_ne ?_ _ _) (Function.update_of_ne hq _ _)
      exact fun heq => hq (Party.request.inj heq)
  | crashWorker p =>
    simp only [Plane.next] at hnext
    split at hnext
    · cases hnext
    next hother =>
      obtain ⟨queue, hqueue, rfl⟩ := Option.map_eq_some_iff.mp hnext
      obtain rfl := Parties.next_crash hqueue
      have hp : p ≠ .request q := fun heq => hother (heq ▸ rfl)
      exact (h q).congr rfl rfl (Function.update_of_ne hp.symm _ _) rfl

theorem asked_of_reachable (h : (plane hashing ports quarantine).Reachable c) :
    ∀ q, Asked c q := by
  induction h with
  | start h0 =>
    obtain rfl : _ = (⟨_, _⟩ : Plane) := h0
    exact fun q => ⟨.slnil, fun _ => rfl, fun _ _ hnone => (by cases hnone)⟩
  | step _ hnext ih => exact fun q => asked_next ih hnext

/-- The sessions of the plane are sessions of the site. -/
theorem site_of_reachable (h : (plane hashing ports quarantine).Reachable c) :
    (Admin.site Nat Request hashing).system.Reachable c.site := by
  induction h with
  | start h0 =>
    obtain rfl : _ = (⟨_, _⟩ : Plane) := h0
    exact .start rfl
  | @step c move c' _ hnext ih =>
    have hnext : c.next hashing ports quarantine move = some c' := hnext
    cases move with
    | site id act =>
      simp only [Plane.next] at hnext
      split at hnext
      · cases hnext
      · obtain ⟨site, hsite, rfl⟩ := Option.map_eq_some_iff.mp hnext
        exact .step ih hsite
    | handler id now =>
      simp only [Plane.next] at hnext
      split at hnext
      · cases hnext
      · obtain ⟨queue, -, rfl⟩ := Option.map_eq_some_iff.mp hnext
        dsimp only
        split
        · -- to answer is to go back to the start, as after a crash
          have hcrash : (Admin.site Nat Request hashing).next c.site (.crash id) =
              some (c.answered id) := rfl
          exact .step ih hcrash
        · exact ih
    | worker | crashWorker =>
      simp only [Plane.next] at hnext
      split at hnext
      · cases hnext
      · obtain ⟨queue, -, rfl⟩ := Option.map_eq_some_iff.mp hnext
        exact ih
    | crash id =>
      simp only [Plane.next, Fallible.bind_eq_some] at hnext
      obtain ⟨site, hsite, queue, -, hc⟩ := hnext
      obtain rfl := Option.some.inj hc
      exact .step ih hsite

end States

/-! ## The result -/

/-- Each job that a request has queued goes with a form of its own: one with the token of the
session that it was sent from, whose operator, the one that the job names, had logged in. -/
theorem requested_by_operator {hashing : Hashing} {ports : IngestPorts} {quarantine : Quarantine}
    {c : Plane} (h : (plane hashing ports quarantine).Reachable c) (id : Nat) :
    ((jobsOf id c.queue.shared.log).map (·.requestedBy)).Sublist
        ((formsOf id c.site.shared.log).map (·.username)) ∧
      ∀ job, (Party.request id, Event.enqueued job) ∈ c.queue.shared.log →
        ∃ newer token operator now older, operator.username = job.requestedBy ∧
          c.site.shared.log =
            newer ++ .admitted id token operator (some operator.csrf) now :: older ∧
          Admin.LoggedIn hashing token operator now older := by
  have hsub := (asked_of_reachable h id).jobs
  refine ⟨hsub, fun job hjob => ?_⟩
  have hqueued : job ∈ jobsOf id c.queue.shared.log :=
    List.mem_filterMap.mpr ⟨_, hjob, if_pos rfl⟩
  have hname := hsub.subset (List.mem_map_of_mem (f := fun job => job.requestedBy) hqueued)
  obtain ⟨operator, hform, hname⟩ := List.mem_map.mp hname
  obtain ⟨event, hmem, hform⟩ := List.mem_filterMap.mp hform
  obtain ⟨token, csrf, now, rfl⟩ : ∃ token csrf now,
      event = .admitted id token operator (some csrf) now := by
    cases event with
    | admitted p token operator' csrf now =>
      cases csrf with
      | none => cases hform
      | some csrf =>
        simp only [form, Option.ite_none_right_eq_some, Option.some.injEq] at hform
        obtain ⟨rfl, rfl⟩ := hform
        exact ⟨token, csrf, now, rfl⟩
    | _ => cases hform
  obtain ⟨newer, older, hlog⟩ := List.append_of_mem hmem
  have hsound := (Admin.holds_of_reachable (site_of_reachable h)).1.sound
  rw [hlog] at hsound
  obtain ⟨hlogin, -, hcsrf⟩ := Admin.loggedIn_of_sound (History.Justified.older hsound)
  obtain ⟨rfl, -⟩ := hcsrf csrf rfl
  exact ⟨newer, token, operator, now, older, hname, hlog, hlogin⟩

/-- The application starts, its operator logs in and sends the form of a new source, which the
handler takes in three statements. -/
def sourceSent : List PlaneMove :=
  let input : Admin.Input := ⟨Admin.adminToken, Admin.adminCsrf, Admin.adminSalt, 1000, none⟩
  [.site 0 (.start (some "correct horse battery")), .site 0 (.proceed input),
    .site 0 (.proceed input), .site 0 (.proceed input),
    .site 1 (.login "admin" "correct horse battery"), .site 1 (.proceed input),
    .site 1 (.proceed input),
    .site 2 (.submit (some Admin.adminToken) (some Admin.adminCsrf) (.create Ingest.editorSource)
      1060),
    .handler 2 1060, .handler 2 1060, .handler 2 1060]

def sourceJob : QueueJob where
  id := 1
  sourceId := 1
  kind := .VALIDATE
  state := .QUEUED
  requestedBy := "admin"
  requestedAt := 1060
  startedAt := none
  finishedAt := none
  attempts := 0
  payload := none
  result := none
  error := none

theorem requested_by_operator_admin : ∃ c : Plane,
    jobsOf 2 c.queue.shared.log = [sourceJob] ∧
      ∃ newer token operator now older, operator.username = "admin" ∧
        Admin.formLog = newer ++ .admitted 2 token operator (some operator.csrf) now :: older ∧
        Admin.LoggedIn Admin.adminHashing token operator now older := by
  have hrun : (System.exec (Plane.next Admin.adminHashing Ingest.editorPorts ⟨1000, []⟩) sourceSent
      ⟨(Admin.site Nat Request Admin.adminHashing).initial,
        (parties Ingest.editorPorts ⟨1000, []⟩).initial⟩).map
      (fun c => (c.queue.shared.log, c.site.shared.log)) =
      some ([(.request 2, .enqueued sourceJob)], Admin.formLog) := by
    decide +kernel
  obtain ⟨c, hc, hlogs⟩ := Option.map_eq_some_iff.mp hrun
  obtain ⟨hqueue, hsite⟩ := Prod.mk.inj hlogs
  have hreach : (plane Admin.adminHashing Ingest.editorPorts ⟨1000, []⟩).Reachable c :=
    System.reachable_exec (.start rfl) hc
  have hjob : (Party.request 2, Event.enqueued sourceJob) ∈ c.queue.shared.log := by
    rw [hqueue]
    exact List.mem_singleton_self _
  have hasked := (requested_by_operator hreach 2).2 sourceJob hjob
  rw [hsite] at hasked
  refine ⟨c, ?_, hasked⟩
  rw [hqueue]
  rfl

end DistPlatform.Queue
