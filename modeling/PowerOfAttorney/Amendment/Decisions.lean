import PowerOfAttorney.Change.Script
import PowerOfAttorney.Document.Basic

/-!
# `PowerOfAttorney.Amendment.Decisions` — correcting how attorneys act

Which decisions may be sent depends on the document: how attorneys decide matters only where more than
one acts, how replacements step in only where there are some, and the kind of document says which of
the last two decisions it has. The wording of a decision goes with the modes that call for it.

## Contents
- **Reading.** `Decisions.script`, on the decisions of the document as they stand.
- **Settling.** `Decisions.settled` drops wording that the modes do not call for.
-/

namespace PowerOfAttorney.Decisions

/-- The demands on the wording of a decision: needed when a mode is newly set that calls for it, not
    to be emptied while one stands, and to be empty otherwise. -/
def wordingRule (called newlySet : Bool) : Rule :=
  match called, newlySet with
  | true, true => .checking .needs .notEmpty
  | true, false => .checking .allows .notEmpty
  | false, _ => .checking .allows .empty

/-- The attorneys decide jointly on some matters and severally on others. -/
def attorneysMixed (s : Decisions) : Bool :=
  s.attorneysDecide == some .jointlyForSomeSeverallyForOthers

/-- So do the replacements. -/
def replacementsMixed (s : Decisions) : Bool :=
  s.replacementsDecide == some .jointlyForSomeSeverallyForOthers

/-- The replacements step in in a way of their own. -/
def stepInAnotherWay (s : Decisions) : Bool :=
  s.replacementsStepIn == some .anotherWay

/-- The attorneys decide jointly and severally. -/
def attorneysSeveral (s : Decisions) : Bool :=
  s.attorneysDecide == some .jointlyAndSeverally

/-- Reads a decision where a condition holds. -/
def fieldIf (condition : Decisions → Bool) (field : Script Decisions → Script Decisions)
    (next : Script Decisions) : Script Decisions :=
  .look fun s => if condition s then field next else next

/-- How the attorneys decide. -/
def attorneysField : Script Decisions → Script Decisions :=
  .field "/howAttorneysMakeDecisions"
    (.maybeWord .decisionMode (·.attorneysDecide) fun v s => { s with attorneysDecide := v })
    (.checking .allows .chosen)

/-- When the replacements step in. -/
def stepInField : Script Decisions → Script Decisions :=
  .field "/howReplacementAttorneysStepIn"
    (.maybeWord .stepIn (·.replacementsStepIn) fun v s => { s with replacementsStepIn := v })
    (.checking .allows .chosen)

/-- How the replacements decide. -/
def replacementsField : Script Decisions → Script Decisions :=
  .field "/howReplacementAttorneysMakeDecisions"
    (.maybeWord .decisionMode (·.replacementsDecide) fun v s => { s with replacementsDecide := v })
    (.checking .allows .chosen)

/-- The decision that only one kind of document has. -/
def kindField : Kind → Script Decisions → Script Decisions
  | .personalWelfare =>
    .field "/lifeSustainingTreatmentOption"
      (.maybeWord .lifeSustainingTreatment (·.lifeSustainingTreatment)
        fun v s => { s with lifeSustainingTreatment := v })
      (.checking .allows .chosen)
  | .propertyAndAffairs =>
    .field "/whenTheLpaCanBeUsed"
      (.maybeWord .usableWhen (·.usableWhen) fun v s => { s with usableWhen := v })
      (.checking .allows .chosen)

/-- Reads the decisions that the document allows to be corrected, and goes on. Each condition looks at
    the decisions as read so far. -/
def script (d : Document) (after : Script Decisions) : Script Decisions :=
  fieldIf (fun _ => 1 < d.activeCount) attorneysField <|
  .look fun s =>
  .field "/howAttorneysMakeDecisionsDetails"
    (.text (·.attorneysDecideDetails) fun v s => { s with attorneysDecideDetails := v })
    (wordingRule s.attorneysMixed (s.attorneysDecide != d.decisions.attorneysDecide)) <|
  fieldIf (fun s => 0 < d.replacementCount && s.attorneysSeveral) stepInField <|
  .look fun s =>
  .field "/howReplacementAttorneysStepInDetails"
    (.text (·.replacementsStepInDetails) fun v s => { s with replacementsStepInDetails := v })
    (wordingRule s.stepInAnotherWay (s.replacementsStepIn != d.decisions.replacementsStepIn)) <|
  fieldIf
    (fun s => 1 < d.replacementCount &&
      (s.replacementsStepIn == some .allCanNoLongerAct || !s.attorneysSeveral))
    replacementsField <|
  .look fun s =>
  .field "/howReplacementAttorneysMakeDecisionsDetails"
    (.text (·.replacementsDecideDetails) fun v s => { s with replacementsDecideDetails := v })
    (wordingRule s.replacementsMixed (s.replacementsDecide != d.decisions.replacementsDecide)) <|
  kindField d.kind after

/-- The decisions without wording that no mode calls for. -/
def settled (s : Decisions) : Decisions :=
  { s with
    attorneysDecideDetails := if s.attorneysMixed then s.attorneysDecideDetails else ""
    replacementsDecideDetails := if s.replacementsMixed then s.replacementsDecideDetails else ""
    replacementsStepInDetails := if s.stepInAnotherWay then s.replacementsStepInDetails else "" }

end PowerOfAttorney.Decisions
