import Ndns.Lib.Dialogue
import Ndns.Query
import Ndns.Response

/-!
# Iterative queries

`iterative-query.cpp`: the state of a resolution, what it asks next and what a
decoded response does to it, and the loop of `NameCachingResolver` that sends
the next Interest as long as the step calls for one.  Time-outs abort a
resolution without a change to its state.
-/

namespace Ndns

structure IterativeQuery where
  step : QuerySteps
  /-- The original query. -/
  query : Query
  finishedLabelNum : Nat
  lastFinishedLabelNum : Nat
  rrLabelLen : Nat
  lastResponse : Response
  authZoneIndex : Nat
deriving DecidableEq

namespace IterativeQuery

/-- `IterativeQuery::IterativeQuery(const Query&)` -/
def init (query : Query) : IterativeQuery where
  step := .NSQuery
  query := query
  finishedLabelNum := 0
  lastFinishedLabelNum := 0
  rrLabelLen := 1
  lastResponse := Response.init
  authZoneIndex := 0

/-- The step behind a Nack. -/
def nackStep (iq : IterativeQuery) : QuerySteps :=
  if iq.step = .NSQuery then
    if iq.query.rrType = .NS then .AnswerStub else .RRQuery
  else if iq.step = .RRQuery then .AnswerStub
  else iq.step

/-- An NS answer moves the query behind the label that was asked. -/
def advance (iq : IterativeQuery) (re : Response) : IterativeQuery :=
  let finished := iq.finishedLabelNum + iq.rrLabelLen
  { iq with
    lastFinishedLabelNum := iq.finishedLabelNum
    finishedLabelNum := finished
    rrLabelLen := 1
    authZoneIndex := 0
    lastResponse := re
    step :=
      if iq.query.rrType = .NS ∧ finished = iq.query.rrLabel.length then
        .AnswerStub
      else iq.step }

/-- `IterativeQuery::doData` behind the decoding of the response. -/
def doResponse (iq : IterativeQuery) (re : Response) : IterativeQuery :=
  if re.responseType = .UNKNOWN then { iq with step := .Abort }
  else if re.responseType = .NDNS_Nack then
    { iq with step := iq.nackStep, lastResponse := re }
  else if re.responseType = .NDNS_Auth then
    { iq with rrLabelLen := iq.rrLabelLen + 1 }
  else if re.responseType = .NDNS_Resp then
    if iq.step = .NSQuery then iq.advance re
    else if iq.step = .RRQuery then
      { iq with step := .AnswerStub, lastResponse := re }
    else iq
  else iq

/-- `IterativeQuery::doData`; `none` when the Data cannot be decoded. -/
def doData (P : NameParser) (iq : IterativeQuery) (data : Data) :
    Option IterativeQuery :=
  (Response.init.fromData P data).map iq.doResponse

/-- The query of `IterativeQuery::toLatestInterest`. -/
def latestQuery (iq : IterativeQuery) : Query :=
  let dstLabel := iq.query.rrLabel
  let query := { Query.init with
    authorityZone := dstLabel.getPrefix iq.finishedLabelNum
    rrLabel :=
      if iq.step = .RRQuery then
        dstLabel.getSubNameFrom iq.finishedLabelNum
      else dstLabel.getSubName iq.finishedLabelNum iq.rrLabelLen }
  if iq.step = .NSQuery then
    { query with rrType := .NS, queryType := .DNS }
  else if iq.step = .RRQuery ∨ iq.step = .AnswerStub then
    { query with rrType := iq.query.rrType, queryType := .DNS }
  else query

def toLatestInterest (iq : IterativeQuery) : Interest :=
  iq.latestQuery.toInterest

end IterativeQuery

/-- A question of a resolution. -/
def question (zone label : Name) (type : RRType) : Query :=
  { Query.init with
    authorityZone := zone
    rrLabel := label
    rrType := type
    queryType := .DNS }

@[simp] theorem question_authorityZone (zone label : Name) (type : RRType) :
    (question zone label type).authorityZone = zone := rfl

@[simp] theorem question_rrLabel (zone label : Name) (type : RRType) :
    (question zone label type).rrLabel = label := rfl

@[simp] theorem question_rrType (zone label : Name) (type : RRType) :
    (question zone label type).rrType = type := rfl

theorem question_name (zone label : Name) (type : RRType) :
    (question zone label type).toInterest.name =
      zone ++ ascii "DNS" :: (label ++ [type.toString]) := by
  simp [question, Query.toInterest, Query.hintComponents, Query.init,
    QueryType.toString]

/-- `NameCachingResolver::onData` sends an Interest in these steps only. -/
def QuerySteps.resolves : QuerySteps → Bool
  | .NSQuery | .RRQuery | .FHQuery => true
  | _ => false

/-- `NameCachingResolver<IterativeQuery>`: the authority zone of the question
says which server the Interest is sent to. -/
def plainResolver : Dialogue.Client IterativeQuery Query Response where
  ask iq := if iq.step.resolves then some iq.latestQuery else none
  tell iq re := iq.doResponse re

namespace IterativeQuery

variable (iq : IterativeQuery) (re : Response)

section Steps

theorem doResponse_nack (h : re.responseType = .NDNS_Nack) :
    iq.doResponse re =
      { iq with step := iq.nackStep, lastResponse := re } := by
  simp [doResponse, h]

theorem doResponse_auth (h : re.responseType = .NDNS_Auth) :
    iq.doResponse re = { iq with rrLabelLen := iq.rrLabelLen + 1 } := by
  simp [doResponse, h]

theorem doResponse_resp (h : re.responseType = .NDNS_Resp) :
    iq.doResponse re =
      if iq.step = .NSQuery then iq.advance re
      else if iq.step = .RRQuery then
        { iq with step := .AnswerStub, lastResponse := re }
      else iq := by
  simp [doResponse, h]

/-- The original query never changes. -/
@[simp] theorem doResponse_query :
    (iq.doResponse re).query = iq.query := by
  simp only [doResponse, advance]
  split_ifs <;> rfl

end Steps

section Questions

theorem latestQuery_of_NSQuery (h : iq.step = .NSQuery) :
    iq.latestQuery =
      question (iq.query.rrLabel.take iq.finishedLabelNum)
        ((iq.query.rrLabel.drop iq.finishedLabelNum).take iq.rrLabelLen)
        .NS := by
  simp [latestQuery, question, h, Name.getPrefix_eq_take, Name.getSubName]

theorem latestQuery_of_RRQuery (h : iq.step = .RRQuery) :
    iq.latestQuery =
      question (iq.query.rrLabel.take iq.finishedLabelNum)
        (iq.query.rrLabel.drop iq.finishedLabelNum)
        iq.query.rrType := by
  simp [latestQuery, question, h, Name.getPrefix_eq_take,
    Name.getSubNameFrom]

theorem ask_of_NSQuery (h : iq.step = .NSQuery) :
    plainResolver.ask iq =
      some (question (iq.query.rrLabel.take iq.finishedLabelNum)
        ((iq.query.rrLabel.drop iq.finishedLabelNum).take iq.rrLabelLen)
        .NS) := by
  rw [← iq.latestQuery_of_NSQuery h]
  simp [plainResolver, h, QuerySteps.resolves]

theorem ask_of_RRQuery (h : iq.step = .RRQuery) :
    plainResolver.ask iq =
      some (question (iq.query.rrLabel.take iq.finishedLabelNum)
        (iq.query.rrLabel.drop iq.finishedLabelNum)
        iq.query.rrType) := by
  rw [← iq.latestQuery_of_RRQuery h]
  simp [plainResolver, h, QuerySteps.resolves]

theorem ask_of_AnswerStub (h : iq.step = .AnswerStub) :
    plainResolver.ask iq = none := by
  simp [plainResolver, h, QuerySteps.resolves]

theorem ask_eq_some {q : Query}
    (h : plainResolver.ask iq = some q) :
    iq.step.resolves = true ∧ iq.latestQuery = q := by
  simp only [plainResolver] at h
  split at h
  · next hs => exact ⟨hs, Option.some.inj h⟩
  · simp at h

end Questions

end IterativeQuery

end Ndns
