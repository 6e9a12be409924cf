import DistPlatform.Queue.Turn

/-!
# The operator's requests (`dist_admin.app`)

The handlers that write to `sources` or queue a job. Any number of requests run at once, and
each is a few statements that commit one by one.

## Main definitions

* `Action`, `Request` — what an operator may ask for.
* `RequestPlace`, `adminTurn` — the statements of the handlers.
-/

namespace DistPlatform.Admin

open Ingest (PublishPayload)
open Queue (Db Turn)
open Registry (JobKind Source SourceEdit SourceId SourceStatus)

/-- The actions of `source_action`, and the edit form's. -/
inductive Action
  | validate
  | poll
  | pause
  | delete
  | edit (changed : SourceEdit)
  deriving DecidableEq, Repr

/-- A form that was accepted, with the session's operator and CSRF token. -/
inductive Request
  | create (source : Source)
  | act (source : SourceId) (action : Action)

inductive RequestPlace
  | idle
  | queueing (source : SourceId)
  | acting (source : Source) (action : Action)
  | marking (source : SourceId)
  deriving DecidableEq

structure AdminAct where
  now : Nat
  operator : String
  request : Request

/-- The second statement of `source_action`, for the source the first one read. -/
def actionTurn (act : AdminAct) (db : Db) (source : Source) : Action → Turn RequestPlace
  | .validate =>
    { statement := .enqueue source.id .VALIDATE act.operator none act.now
      next := match db.enqueue source.id .VALIDATE act.operator (none : Option PublishPayload)
          act.now with
        | .error _ => .idle
        | .ok _ => .marking source.id }
  | .poll =>
    if source.pollable then
      { statement := .enqueue source.id .POLL act.operator none act.now, next := .idle }
    else .goto .idle
  | .pause => { statement := .setStatus source.id .PAUSED none, next := .idle }
  | .delete => { statement := .deleteSource source.id, next := .idle }
  | .edit changed => { statement := .updateSource source.id changed, next := .idle }

def adminTurn (act : AdminAct) (db : Db) : RequestPlace → Turn RequestPlace
  | .idle => match act.request with
    | .create source =>
      { statement := .addSource source
        next := match db.addSource source with
          | .error _ => .idle
          | .ok (created, _) => .queueing created.id }
    | .act source action => .goto (match db.getSource source with
        | none => .idle
        | some found => .acting found action)
  | .queueing source =>
    { statement := .enqueue source .VALIDATE act.operator none act.now
      next := match db.enqueue source .VALIDATE act.operator (none : Option PublishPayload)
          act.now with
        | .error _ => .idle
        | .ok _ => .marking source }
  | .acting source action => actionTurn act db source action
  | .marking source => { statement := .setStatus source .VALIDATING none, next := .idle }

end DistPlatform.Admin
