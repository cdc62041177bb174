import Pagewright.Template.Element

/-!
# Page scheduling

Which pages an element is on. A pin to a page decides alone; else the rule for repeating does. Flowing
text has pages of its own, and the rule says where in the document these are shown.
-/

namespace Pagewright

/-- Rules for repeating an element. A rule that is not known counts as the first page for elements and
as all pages for flowing text. -/
inductive RepeatRule where
  | all
  | first
  | afterFirst
  | middle
  | last
  | unknown
  deriving Repr, DecidableEq

namespace RepeatRule

/-- The rule that a value names. -/
def ofValue : Value → RepeatRule
  | .text "all" => all
  | .text "first" => first
  | .text "afterFirst" => afterFirst
  | .text "middle" => middle
  | .text "last" => last
  | _ => unknown

/-- Whether a rule puts an element on page `page` of `count`, pages being counted from zero. -/
def covers (rule : RepeatRule) (page count : Int) : Bool :=
  match rule with
  | all => true
  | first => page == 0
  | afterFirst => 0 < page
  | middle => 0 < page && page < count - 1
  | last => page == count - 1
  | unknown => page == 0

/-- Pages of the document that `flowPages` pages of flowing text need. -/
def pagesNeeded (rule : RepeatRule) (flowPages : Int) : Int :=
  match rule with
  | first => 1
  | afterFirst => flowPages + 1
  | last => flowPages + 1
  | middle => flowPages + 2
  | all => flowPages
  | unknown => flowPages

/-- The page of a flowing text that page `page` of `count` would show, in range or not. -/
def flowOffset? (rule : RepeatRule) (page count flowPages : Int) : Option Int :=
  match rule with
  | first => if page == 0 then some 0 else none
  | afterFirst => if 0 < page then some (page - 1) else none
  | middle => if 0 < page && page < count - 1 then some (page - 1) else none
  | last => some (page - (count - flowPages))
  | all | unknown => if flowPages == 1 then some 0 else some page

/-- The page of a flowing text that page `page` of `count` shows. -/
def flowPage? (rule : RepeatRule) (page count flowPages : Int) : Option Nat :=
  match rule.flowOffset? page count flowPages with
  | some i => if 0 ≤ i && i < flowPages then some i.toNat else none
  | none => none

end RepeatRule

namespace Element

/-- The rule for repeating an element. -/
def rule (e : Element) : RepeatRule := .ofValue e.effectiveRepeat

/-- Whether an element is scheduled on page `page` of `count`. -/
def isOnPage (e : Element) (page count : Nat) : Bool :=
  match e.page with
  | some pin => page + 1 == pin
  | none => e.rule.covers page count

/-- Whether a rule is one of some; a list or object cannot be a rule. -/
def ruleAmong (e : Element) (rules : List RepeatRule) : Outcome Bool :=
  if e.effectiveRepeat.isContainer then undefinedOn (.notAKey e.effectiveRepeat)
  else .ok (rules.contains e.rule)

/-- Whether an element counts as standing on the first page. -/
def isOnFirstPage (e : Element) : Outcome Bool :=
  match e.page with
  | some pin => .ok (pin == 1)
  | none => e.ruleAmong [.first, .all]

/-- Whether an element counts as standing on a page after the first. -/
def isOnLaterPages (e : Element) : Outcome Bool :=
  match e.page with
  | some pin => .ok (1 < pin)
  | none => e.ruleAmong [.all, .afterFirst, .middle, .last]

end Element

end Pagewright
