import PowerOfAttorney.Change.Script
import PowerOfAttorney.Command.Refusal
import PowerOfAttorney.Document.Basic

/-!
# `PowerOfAttorney.Command.Standing` — who acts, who has left, and who decides

Parties opt out before they have signed; attorneys are moved between active, inactive and removed; and
attorneys are excepted from joint decisions.

## Contents
- **Opting out.** `OptOut` of an attorney, a trust corporation or the certificate provider. The
  document cannot be registered any more if those who are left cannot act.
- **Moving.** `ChangeAttorneys`, and which moves are refused.
- **Joint decisions.** `AttorneyDecisions`, for groups that decide jointly on some matters.

The lists of the last two are carried out as a whole or not at all.
-/

namespace PowerOfAttorney

/-! ## Opting out -/

/-- A party that opts out. -/
inductive OptOut
  | attorney (uid : String)
  | trustCorporation (uid : String)
  | certificateProvider
deriving DecidableEq

namespace Document

/-- The document after someone appointed as `left` has been removed: it cannot be registered if the
    others cannot act without them. -/
def afterLeaving (d : Document) (left : Appointment) : Document :=
  if d.canRegisterWithout left then d else { d with status := .cannotRegister }

end Document

namespace OptOut

/-- Removes an attorney who has not signed. -/
def applyAttorney (uid : String) (d : Document) : Except Refusal Document :=
  match d.attorneyIndex? uid with
  | none => .error .attorneyNotFound
  | some i =>
    match d.attorneys[i]? with
    | none => .error .attorneyNotFound
    | some a =>
      if a.signedAt.isSome then .error .attorneyLeavesSigned
      else
        let d := { d with attorneys := d.attorneys.set i { a with status := .removed } }
        .ok (d.afterLeaving a.appointment)

/-- Removes a trust corporation for which no one has signed. -/
def applyTrustCorporation (uid : String) (d : Document) : Except Refusal Document :=
  match d.trustCorporationIndex? uid with
  | none => .error .trustCorporationNotFound
  | some i =>
    match d.trustCorporations[i]? with
    | none => .error .trustCorporationNotFound
    | some t =>
      if t.signatories.any Signatory.isSigned then .error .trustCorporationLeavesSigned
      else
        let d := { d with trustCorporations := d.trustCorporations.set i { t with status := .removed } }
        .ok (d.afterLeaving t.appointment)

/-- Carries out an opt-out. Without a certificate the document cannot be registered. -/
def apply : OptOut → Document → Except Refusal Document
  | .attorney uid, d => applyAttorney uid d
  | .trustCorporation uid, d => applyTrustCorporation uid d
  | .certificateProvider, d =>
    if d.certificateProvider.signedAt.isSome then .error .certificateProviderLeavesSigned
    else .ok { d with status := .cannotRegister }

end OptOut

/-! ## Moving attorneys -/

/-- New statuses of attorneys, each with the attorney's place. -/
structure ChangeAttorneys where
  moves : List (Nat × AttorneyStatus)
deriving DecidableEq

namespace ChangeAttorneys

/-- The moves of the attorneys of a document, each read against the status it starts from. -/
def script (d : Document) : Script ChangeAttorneys :=
  .under "/attorneys" true
    (.each []
      (fun i =>
        match d.attorneys[i]? with
        | none => .outOfRange .done
        | some a =>
          .field "/status"
            (.word .attorneyStatus (fun _ => a.status) fun v s => ⟨s.moves ++ [(i, v)]⟩)
            (.checking .needs .chosen) <|
          .consumed .done) <|
    .consumed .done) <|
  .consumed .done

/-- Why an attorney may not be moved from one status to another. -/
def blocked? : (current next : AttorneyStatus) → Option BlockedMove
  | .inactive, .removed => some .removeInactive
  | .active, .inactive => some .deactivate
  | .removed, .active => some .reinstate
  | _, _ => none

/-- The first rule that a move breaks. -/
def refusal? (d : Document) : List (Nat × AttorneyStatus) → Option Refusal
  | [] => none
  | (i, next) :: rest =>
    match d.attorneys[i]? with
    | none => some .attorneyNotFound
    | some a =>
      match blocked? a.status next with
      | some why => some (.attorneyStatus i why)
      | none => refusal? d rest

/-- Moves all attorneys, if all may move. -/
def apply (c : ChangeAttorneys) (d : Document) : Except Refusal Document :=
  match refusal? d c.moves with
  | some why => .error why
  | none =>
    .ok { d with
      attorneys := c.moves.foldl
        (fun attorneys (i, next) => attorneys.modify i fun a => { a with status := next })
        d.attorneys }

end ChangeAttorneys

/-! ## Joint decisions -/

/-- Who takes part in joint decisions and who does not, each with the attorney's place. -/
structure AttorneyDecisions where
  exceptions : List (Nat × Bool)
deriving DecidableEq

namespace AttorneyDecisions

/-- The exceptions of the attorneys of a document, who are named by their uid. -/
def script (d : Document) : Script AttorneyDecisions :=
  .under "/attorneys" true
    (.eachKey
      (fun uid =>
        match d.attorneyIndex? uid with
        | none => .outOfRange .done
        | some i =>
          .field "/cannotMakeJointDecisions"
            (.flag (fun _ => d.attorneys[i]?.any (·.cannotMakeJointDecisions))
              fun v s => ⟨s.exceptions ++ [(i, v)]⟩)
            .needs <|
          .consumed .done) <|
    .consumed .done) <|
  .consumed .done

/-- How the group that an attorney belongs to decides. -/
def modeOf (d : Document) (a : Attorney) : Option DecisionMode :=
  match a.appointment with
  | .original => d.decisions.attorneysDecide
  | .replacement => d.decisions.replacementsDecide

/-- The first rule that an exception breaks: the attorney's group has to decide jointly on some
    matters and severally on others. -/
def refusal? (d : Document) : List (Nat × Bool) → Option Refusal
  | [] => none
  | (i, _) :: rest =>
    match d.attorneys[i]? with
    | none => some .attorneyNotFound
    | some a =>
      if modeOf d a = some .jointlyForSomeSeverallyForOthers then refusal? d rest
      else some (.notMixed i)

/-- Records all exceptions, if all are allowed. -/
def apply (c : AttorneyDecisions) (d : Document) : Except Refusal Document :=
  match refusal? d c.exceptions with
  | some why => .error why
  | none =>
    .ok { d with
      attorneys := c.exceptions.foldl
        (fun attorneys (i, v) =>
          attorneys.modify i fun a => { a with cannotMakeJointDecisions := v })
        d.attorneys }

end AttorneyDecisions

end PowerOfAttorney
