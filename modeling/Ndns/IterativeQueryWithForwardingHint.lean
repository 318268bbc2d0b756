import Ndns.IterativeQuery

/-!
# Iterative queries with forwarding hints

`iterative-query-with-forwarding-hint.cpp`: between an NS answer and the next
zone the strategy asks the zone for the forwarding hint of the first name server
that was named, and every Interest carries the hint of its zone.  The labels are
counted when the hint arrives, not when the delegation does.

Reading an RR that is not there and names that cannot be parsed end the
resolution; such a state is `none`.
-/

namespace Ndns

structure IterativeQueryWithForwardingHint extends IterativeQuery where
  forwardingHint : Name
  /-- Works with `lastFinishedLabelNum`. -/
  lastForwardingHint : Name
  forwardingHintIndex : Nat
deriving DecidableEq

namespace IterativeQueryWithForwardingHint

/-- The constructor, and the hint of the root zone that
`NameCachingResolver::onInterest` sets. -/
def init (query : Query) (rootHint : Name) :
    IterativeQueryWithForwardingHint where
  toIterativeQuery := IterativeQuery.init query
  forwardingHint := rootHint
  lastForwardingHint := rootHint
  forwardingHintIndex := 0

/-- The step behind a Nack. -/
def nackStep (iq : IterativeQueryWithForwardingHint) : QuerySteps :=
  if iq.step = .NSQuery then
    if iq.query.rrType = .NS then .AnswerStub else .RRQuery
  else if iq.step = .RRQuery then .AnswerStub
  else if iq.step = .FHQuery then .Abort
  else iq.step

/-- An NS answer: the labels are not counted yet. -/
def delegate (iq : IterativeQueryWithForwardingHint) (re : Response) :
    IterativeQueryWithForwardingHint :=
  { iq with
    lastResponse := re
    step :=
      if iq.query.rrType = .NS ∧
          iq.finishedLabelNum = iq.query.rrLabel.length then
        .AnswerStub
      else .FHQuery }

/-- An FH answer moves the query behind the label that was delegated. -/
def advance (P : NameParser) (iq : IterativeQueryWithForwardingHint)
    (re : Response) : Option IterativeQueryWithForwardingHint := do
  let rr ← re.rrs[iq.forwardingHintIndex]?
  let hint ← P.ofUri rr.rrData
  return { iq with
    step := .NSQuery
    lastFinishedLabelNum := iq.finishedLabelNum
    lastForwardingHint := iq.forwardingHint
    finishedLabelNum := iq.finishedLabelNum + iq.rrLabelLen
    rrLabelLen := 1
    authZoneIndex := 0
    forwardingHint := hint }

/-- `IterativeQueryWithForwardingHint::doData` behind the decoding of the
response. -/
def doResponse (P : NameParser) (iq : IterativeQueryWithForwardingHint)
    (re : Response) : Option IterativeQueryWithForwardingHint :=
  if re.responseType = .UNKNOWN then some { iq with step := .Abort }
  else if re.responseType = .NDNS_Nack then
    some { iq with step := iq.nackStep, lastResponse := re }
  else if re.responseType = .NDNS_Auth then
    some { iq with rrLabelLen := iq.rrLabelLen + 1 }
  else if re.responseType = .NDNS_Resp then
    if iq.step = .NSQuery then some (iq.delegate re)
    else if iq.step = .FHQuery then iq.advance P re
    else if iq.step = .RRQuery then
      some { iq with step := .AnswerStub, lastResponse := re }
    else some iq
  else some iq

/-- `IterativeQueryWithForwardingHint::doData`; `none` also when the Data cannot
be decoded. -/
def doData (P : NameParser) (iq : IterativeQueryWithForwardingHint)
    (data : Data) : Option IterativeQueryWithForwardingHint :=
  (Response.init.fromData P data).bind (iq.doResponse P)

/-- The zone that is asked. -/
def zone (iq : IterativeQueryWithForwardingHint) : Name :=
  iq.query.rrLabel.take iq.finishedLabelNum

/-- The name of the server that an FH query asks about. -/
def serverName (P : NameParser) (iq : IterativeQueryWithForwardingHint) :
    Option Name := do
  let rr ← iq.lastResponse.rrs[iq.authZoneIndex]?
  P.ofUri rr.rrData

/-- The query of `IterativeQueryWithForwardingHint::toLatestInterest`, which is
called in three of the steps only. -/
def latestQuery (P : NameParser) (iq : IterativeQueryWithForwardingHint) :
    Option Query :=
  let dstLabel := iq.query.rrLabel
  let authZone := dstLabel.getPrefix iq.finishedLabelNum
  let query := { Query.init with
    queryType := .DNS
    authorityZone := authZone
    forwardingHint := iq.forwardingHint }
  if iq.step = .RRQuery then
    some { query with
      rrLabel := dstLabel.getSubNameFrom iq.finishedLabelNum
      rrType := iq.query.rrType }
  else if iq.step = .NSQuery then
    some { query with
      rrLabel := dstLabel.getSubName iq.finishedLabelNum iq.rrLabelLen
      rrType := .NS }
  else if iq.step = .FHQuery then
    (iq.serverName P).map (fun label =>
      { query with rrLabel := label, rrType := .FH })
  else none

def toLatestInterest (P : NameParser)
    (iq : IterativeQueryWithForwardingHint) : Option Interest :=
  (iq.latestQuery P).map Query.toInterest

end IterativeQueryWithForwardingHint

/-- A question with a forwarding hint. -/
def hintedQuestion (hint zone label : Name) (type : RRType) : Query :=
  { question zone label type with forwardingHint := hint }

/-- `NameCachingResolver<IterativeQueryWithForwardingHint>`; every question
comes with the step it is asked in. -/
def hintedResolver (P : NameParser) :
    Dialogue.Client (Option IterativeQueryWithForwardingHint)
      (QuerySteps × Query) Response where
  ask s := s.bind (fun iq =>
    (iq.latestQuery P).map (fun query => (iq.step, query)))
  tell s re := s.bind (fun iq => iq.doResponse P re)

namespace IterativeQueryWithForwardingHint

variable (P : NameParser) (iq : IterativeQueryWithForwardingHint)
variable (re : Response)

section Steps

theorem doResponse_nack (h : re.responseType = .NDNS_Nack) :
    iq.doResponse P re =
      some { iq with step := iq.nackStep, lastResponse := re } := by
  simp [doResponse, h]

theorem doResponse_auth (h : re.responseType = .NDNS_Auth) :
    iq.doResponse P re =
      some { iq with rrLabelLen := iq.rrLabelLen + 1 } := by
  simp [doResponse, h]

theorem doResponse_resp (h : re.responseType = .NDNS_Resp) :
    iq.doResponse P re =
      if iq.step = .NSQuery then some (iq.delegate re)
      else if iq.step = .FHQuery then iq.advance P re
      else if iq.step = .RRQuery then
        some { iq with step := .AnswerStub, lastResponse := re }
      else some iq := by
  simp [doResponse, h]

end Steps

section Questions

theorem ask_of_NSQuery (h : iq.step = .NSQuery) :
    (hintedResolver P).ask (some iq) =
      some (.NSQuery, hintedQuestion iq.forwardingHint
        (iq.query.rrLabel.take iq.finishedLabelNum)
        ((iq.query.rrLabel.drop iq.finishedLabelNum).take iq.rrLabelLen)
        .NS) := by
  simp [hintedResolver, latestQuery, h, hintedQuestion, question,
    Name.getPrefix_eq_take, Name.getSubName]

theorem ask_of_RRQuery (h : iq.step = .RRQuery) :
    (hintedResolver P).ask (some iq) =
      some (.RRQuery, hintedQuestion iq.forwardingHint
        (iq.query.rrLabel.take iq.finishedLabelNum)
        (iq.query.rrLabel.drop iq.finishedLabelNum) iq.query.rrType) := by
  simp [hintedResolver, latestQuery, h, hintedQuestion, question,
    Name.getPrefix_eq_take, Name.getSubNameFrom]

theorem ask_of_FHQuery (h : iq.step = .FHQuery) :
    (hintedResolver P).ask (some iq) =
      (iq.serverName P).map (fun label =>
        (.FHQuery, hintedQuestion iq.forwardingHint
          (iq.query.rrLabel.take iq.finishedLabelNum) label .FH)) := by
  simp [hintedResolver, latestQuery, h, hintedQuestion, question,
    Name.getPrefix_eq_take, Function.comp_def]

end Questions

end IterativeQueryWithForwardingHint

end Ndns
