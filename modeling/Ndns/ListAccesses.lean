import Ndns.HintPairs
import Ndns.Lib.Walk
import Ndns.NameCachingResolver

/-!
# The RR lists that a resolution reads

`IterativeQueryWithForwardingHint` reads two lists without looking at their
lengths: `doData` the RRs of the answer to an FH query, and `toLatestInterest`,
one message later, the RRs of the NS answer that it kept.  Here both functions
end out of bounds when the RR is not there, and apart from that as they do in the
rest of the development.

**Results.**
* `doDataAt_toOption`, `toLatestInterestAt_toOption`: the functions agree with
  the ones that do not tell a missing RR from an error;
* `resolution_inBounds_iff`: the resolutions all of whose reads are in bounds.
-/

namespace Ndns

open Walk

namespace IterativeQueryWithForwardingHint

/-- `doData` at the answer to an FH query. -/
def advanceAt (P : NameParser) (iq : IterativeQueryWithForwardingHint)
    (re : Response) : Walk Bytes IterativeQueryWithForwardingHint := do
  let rr ← index re.rrs iq.forwardingHintIndex
  let hint ← ofOption [] (P.ofUri rr.rrData)
  return { iq with
    step := .NSQuery
    lastFinishedLabelNum := iq.finishedLabelNum
    lastForwardingHint := iq.forwardingHint
    finishedLabelNum := iq.finishedLabelNum + iq.rrLabelLen
    rrLabelLen := 1
    authZoneIndex := 0
    forwardingHint := hint }

/-- `IterativeQueryWithForwardingHint::doData` behind the decoding of the
response. -/
def doResponseAt (P : NameParser) (iq : IterativeQueryWithForwardingHint)
    (re : Response) : Walk Bytes IterativeQueryWithForwardingHint :=
  if re.responseType = .UNKNOWN then .ok { iq with step := .Abort }
  else if re.responseType = .NDNS_Nack then
    .ok { iq with step := iq.nackStep, lastResponse := re }
  else if re.responseType = .NDNS_Auth then
    .ok { iq with rrLabelLen := iq.rrLabelLen + 1 }
  else if re.responseType = .NDNS_Resp then
    if iq.step = .NSQuery then .ok (iq.delegate re)
    else if iq.step = .FHQuery then iq.advanceAt P re
    else if iq.step = .RRQuery then
      .ok { iq with step := .AnswerStub, lastResponse := re }
    else .ok iq
  else .ok iq

/-- `IterativeQueryWithForwardingHint::doData` -/
def doDataAt (P : NameParser) (iq : IterativeQueryWithForwardingHint)
    (data : Data) : Walk Bytes IterativeQueryWithForwardingHint := do
  let re ← ofOption [] (Response.init.fromData P data)
  doResponseAt P iq re

/-- The query of `IterativeQueryWithForwardingHint::toLatestInterest`; `none` in
the steps that it is not called in. -/
def latestQueryAt (P : NameParser) (iq : IterativeQueryWithForwardingHint) :
    Walk Bytes (Option Query) :=
  let dstLabel := iq.query.rrLabel
  let authZone := dstLabel.getPrefix iq.finishedLabelNum
  let query := { Query.init with
    queryType := .DNS
    authorityZone := authZone
    forwardingHint := iq.forwardingHint }
  if iq.step = .RRQuery then
    .ok (some { query with
      rrLabel := dstLabel.getSubNameFrom iq.finishedLabelNum
      rrType := iq.query.rrType })
  else if iq.step = .NSQuery then
    .ok (some { query with
      rrLabel := dstLabel.getSubName iq.finishedLabelNum iq.rrLabelLen
      rrType := .NS })
  else if iq.step = .FHQuery then do
    let rr ← index iq.lastResponse.rrs iq.authZoneIndex
    let label ← ofOption [] (P.ofUri rr.rrData)
    return some { query with rrLabel := label, rrType := .FH }
  else .ok none

def toLatestInterestAt (P : NameParser)
    (iq : IterativeQueryWithForwardingHint) : Walk Bytes (Option Interest) := do
  let query ← latestQueryAt P iq
  return query.map Query.toInterest

/-- `NameCachingResolver::onData` behind `doData`: the next Interest is built in
three of the steps. -/
def resolveAt (P : NameParser) (iq : IterativeQueryWithForwardingHint) :
    Walk Bytes IterativeQueryWithForwardingHint :=
  match iq.step with
  | .NSQuery | .RRQuery | .FHQuery => do
      let _ ← toLatestInterestAt P iq
      return iq
  | _ => return iq

/-- `NameCachingResolver::onData`, up to the packets. -/
def onDataAt (P : NameParser) (data : Data)
    (iq : IterativeQueryWithForwardingHint) :
    Walk Bytes IterativeQueryWithForwardingHint := do
  let iq ← doDataAt P iq data
  resolveAt P iq

/-- A resolution: the first Interest, and one more for each reply. -/
def resolution (P : NameParser) (rootHint : Name) (query : Query)
    (datas : List Data) : Walk Bytes IterativeQueryWithForwardingHint := do
  let _ ← toLatestInterestAt P (init query rootHint)
  run (onDataAt P) datas (init query rootHint)

section Agreement

variable (P : NameParser) (iq : IterativeQueryWithForwardingHint)

theorem doDataAt_toOption (data : Data) :
    (doDataAt P iq data).toOption = iq.doData P data := by
  have hadvance (re : Response) :
      (iq.advanceAt P re).toOption = iq.advance P re := by
    unfold advanceAt advance
    rw [toOption_bind, toOption_index]
    refine congrArg (Option.bind _) (funext fun rr => ?_)
    rw [toOption_bind, toOption_ofOption]
    rfl
  have hresponse (re : Response) :
      (doResponseAt P iq re).toOption = iq.doResponse P re := by
    unfold doResponseAt doResponse
    split_ifs
    · rfl
    · rfl
    · rfl
    · rfl
    · exact hadvance re
    · rfl
    · rfl
    · rfl
  rw [doDataAt, toOption_bind, toOption_ofOption]
  exact congrArg (Option.bind _) (funext hresponse)

theorem toLatestInterestAt_toOption :
    (toLatestInterestAt P iq).toOption.join = iq.toLatestInterest P := by
  have hquery : (latestQueryAt P iq).toOption.join = iq.latestQuery P := by
    unfold latestQueryAt latestQuery
    split_ifs
    · rfl
    · rfl
    · rw [toOption_bind, toOption_index, serverName]
      cases iq.lastResponse.rrs[iq.authZoneIndex]? with
      | none => rfl
      | some rr =>
          rw [Option.bind_some, toOption_bind, toOption_ofOption]
          cases hname : P.ofUri rr.rrData <;>
            simp [hname, Except.toOption, pure, Except.pure]
    · rfl
  rw [toLatestInterest, ← hquery, toLatestInterestAt, toOption_bind]
  cases (latestQueryAt P iq).toOption <;> rfl

end Agreement

/-- The indices are zero, and there is an RR to read in step FHQuery. -/
structure Indexed (iq : IterativeQueryWithForwardingHint) : Prop where
  authZoneIndex_eq : iq.authZoneIndex = 0
  forwardingHintIndex_eq : iq.forwardingHintIndex = 0
  rrs_ne_nil : iq.step = .FHQuery → iq.lastResponse.rrs ≠ []

/-- The reply has an RR if it is an NDNS-Resp one of whose RRs is read: the
answer to an FH query, or one to an NS query that does not end the resolution. -/
def Stocked (iq : IterativeQueryWithForwardingHint) (re : Response) : Prop :=
  re.responseType = .NDNS_Resp →
    (iq.step = .FHQuery ∨ iq.step = .NSQuery ∧
      ¬ (iq.query.rrType = .NS ∧
        iq.finishedLabelNum = iq.query.rrLabel.length)) →
    re.rrs ≠ []

section Bounds

variable {P : NameParser} {iq iq' : IterativeQueryWithForwardingHint}

theorem toLatestInterestAt_inBounds_iff (h : iq.authZoneIndex = 0) :
    InBounds (toLatestInterestAt P iq) ↔
      (iq.step = .FHQuery → iq.lastResponse.rrs ≠ []) := by
  have hquery : InBounds (latestQueryAt P iq) ↔
      (iq.step = .FHQuery → iq.lastResponse.rrs ≠ []) := by
    unfold latestQueryAt
    split_ifs with hrr hns hfh
    · exact iff_of_true (inBounds_ok _) (by simp [hrr])
    · exact iff_of_true (inBounds_ok _) (by simp [hns])
    · rw [inBounds_bind_iff, inBounds_index_iff, h, List.length_pos_iff]
      have hrest (rr : RR) : InBounds (do
          let label ← ofOption [] (P.ofUri rr.rrData)
          return some { Query.init with
            queryType := .DNS
            authorityZone := iq.query.rrLabel.getPrefix iq.finishedLabelNum
            forwardingHint := iq.forwardingHint
            rrLabel := label
            rrType := .FH } : Walk Bytes (Option Query)) :=
        (inBounds_ofOption _ _).bind (fun _ _ => inBounds_ok _)
      exact ⟨fun hne _ => hne.1, fun hne => ⟨hne hfh, fun rr _ => hrest rr⟩⟩
    · exact iff_of_true (inBounds_ok _) (fun hstep => absurd hstep hfh)
  rw [toLatestInterestAt, inBounds_bind_iff, hquery]
  exact and_iff_left (fun _ _ => inBounds_ok _)

/-- The next Interest reads the RRs that were kept in step FHQuery. -/
theorem resolveAt_inBounds_iff (h : iq.authZoneIndex = 0) :
    InBounds (resolveAt P iq) ↔
      (iq.step = .FHQuery → iq.lastResponse.rrs ≠ []) := by
  have hnext : InBounds (toLatestInterestAt P iq >>= fun _ =>
      (pure iq : Walk Bytes _)) ↔
        (iq.step = .FHQuery → iq.lastResponse.rrs ≠ []) := by
    rw [inBounds_bind_iff, toLatestInterestAt_inBounds_iff h]
    exact and_iff_left (fun _ _ => inBounds_ok _)
  unfold resolveAt
  split
  · exact hnext
  · exact hnext
  · exact hnext
  · next hns hrr hfh =>
      exact iff_of_true (inBounds_ok _) (fun hstep => absurd hstep hfh)

theorem resolveAt_eq_ok (h : resolveAt P iq = .ok iq') : iq' = iq := by
  unfold resolveAt at h
  split at h
  · obtain ⟨_, -, h⟩ := (bind_eq_ok_iff _ _ _).mp h
    exact (Except.ok.inj h).symm
  · obtain ⟨_, -, h⟩ := (bind_eq_ok_iff _ _ _).mp h
    exact (Except.ok.inj h).symm
  · obtain ⟨_, -, h⟩ := (bind_eq_ok_iff _ _ _).mp h
    exact (Except.ok.inj h).symm
  · exact (Except.ok.inj h).symm

theorem inBounds_of_eq_ok {α : Type} {w : Walk Bytes α} {a : α}
    (h : w = .ok a) : InBounds w := by
  rw [h]
  exact inBounds_ok a

/-- No reply moves an index. -/
theorem doResponseAt_indices
    {re : Response} (hI : Indexed iq) (h : doResponseAt P iq re = .ok iq') :
    iq'.authZoneIndex = 0 ∧ iq'.forwardingHintIndex = 0 := by
  have hkeep := And.intro hI.authZoneIndex_eq hI.forwardingHintIndex_eq
  unfold doResponseAt at h
  split_ifs at h
  · rw [← Except.ok.inj h]
    exact hkeep
  · rw [← Except.ok.inj h]
    exact hkeep
  · rw [← Except.ok.inj h]
    exact hkeep
  · rw [← Except.ok.inj h]
    exact hkeep
  · obtain ⟨rr, -, h⟩ := (bind_eq_ok_iff _ _ _).mp h
    obtain ⟨hint, -, h⟩ := (bind_eq_ok_iff _ _ _).mp h
    rw [← Except.ok.inj h]
    exact ⟨rfl, hkeep.2⟩
  · rw [← Except.ok.inj h]
    exact hkeep
  · rw [← Except.ok.inj h]
    exact hkeep
  · rw [← Except.ok.inj h]
    exact hkeep

/-- The next Interest reads the RR of the last response, if it is an FH query. -/
theorem exchange_inBounds_iff_of_ok
    {re : Response} (hI : Indexed iq) (hok : doResponseAt P iq re = .ok iq') :
    InBounds (doResponseAt P iq re >>= resolveAt P) ↔
      (iq'.step = .FHQuery → iq'.lastResponse.rrs ≠ []) := by
  rw [← resolveAt_inBounds_iff (P := P) (doResponseAt_indices hI hok).1, hok]
  rfl

/-- An FH answer is read for its hint, and the NS query behind it reads nothing. -/
theorem exchange_inBounds_iff_of_FHQuery
    {re : Response} (hI : Indexed iq)
    (hresp : re.responseType = .NDNS_Resp) (hfh : iq.step = .FHQuery) :
    InBounds (doResponseAt P iq re >>= resolveAt P) ↔ re.rrs ≠ [] := by
  have hadvance : doResponseAt P iq re = iq.advanceAt P re := by
    simp [doResponseAt, hresp, hfh]
  have hread : InBounds (iq.advanceAt P re) ↔ re.rrs ≠ [] := by
    rw [advanceAt, inBounds_bind_iff, inBounds_index_iff,
      hI.forwardingHintIndex_eq, List.length_pos_iff]
    exact and_iff_left (fun rr _ =>
      (inBounds_ofOption _ _).bind (fun _ _ => inBounds_ok _))
  have hnext (iq₁ : IterativeQueryWithForwardingHint)
      (hok : iq.advanceAt P re = .ok iq₁) :
      InBounds (resolveAt P iq₁) := by
    have hindex := (doResponseAt_indices hI (hadvance.trans hok)).1
    rw [resolveAt_inBounds_iff hindex]
    obtain ⟨rr, -, hok⟩ := (bind_eq_ok_iff _ _ _).mp hok
    obtain ⟨hint, -, hok⟩ := (bind_eq_ok_iff _ _ _).mp hok
    rw [← Except.ok.inj hok]
    exact QuerySteps.noConfusion
  rw [hadvance, inBounds_bind_iff, hread, and_iff_left hnext]

/-- What is not an NDNS-Resp is not read, and keeps what was. -/
theorem exchange_inBounds_of_not_resp
    {re : Response} (hI : Indexed iq)
    (hresp : re.responseType ≠ .NDNS_Resp) :
    InBounds (doResponseAt P iq re >>= resolveAt P) := by
  by_cases hunknown : re.responseType = .UNKNOWN
  · have hok : doResponseAt P iq re = .ok { iq with step := .Abort } := by
      simp [doResponseAt, hunknown]
    exact (exchange_inBounds_iff_of_ok hI hok).mpr QuerySteps.noConfusion
  · by_cases hnack : re.responseType = .NDNS_Nack
    · have hok : doResponseAt P iq re =
          .ok { iq with step := iq.nackStep, lastResponse := re } := by
        simp [doResponseAt, hnack]
      exact (exchange_inBounds_iff_of_ok hI hok).mpr
        (fun h => absurd h (nackStep_ne iq))
    · by_cases hauth : re.responseType = .NDNS_Auth
      · have hok : doResponseAt P iq re =
            .ok { iq with rrLabelLen := iq.rrLabelLen + 1 } := by
          simp [doResponseAt, hauth]
        exact (exchange_inBounds_iff_of_ok hI hok).mpr hI.rrs_ne_nil
      · have hok : doResponseAt P iq re = .ok iq := by
          simp [doResponseAt, hunknown, hnack, hauth, hresp]
        exact (exchange_inBounds_iff_of_ok hI hok).mpr hI.rrs_ne_nil

/-- A reply is handled within bounds exactly if it has the RR that is read. -/
theorem exchange_inBounds_iff (re : Response) (hI : Indexed iq) :
    InBounds (doResponseAt P iq re >>= resolveAt P) ↔ Stocked iq re := by
  by_cases hresp : re.responseType = .NDNS_Resp
  · by_cases hns : iq.step = .NSQuery
    · have hok : doResponseAt P iq re = .ok (iq.delegate re) := by
        simp [doResponseAt, hresp, hns]
      rw [exchange_inBounds_iff_of_ok hI hok]
      by_cases hend : iq.query.rrType = .NS ∧
          iq.finishedLabelNum = iq.query.rrLabel.length
      · simp [Stocked, delegate, hend, hns]
      · simp [Stocked, delegate, hend, hns, hresp]
    · by_cases hfh : iq.step = .FHQuery
      · rw [exchange_inBounds_iff_of_FHQuery hI hresp hfh]
        simp [Stocked, hresp, hfh]
      · have hstocked : Stocked iq re := by
          rintro - (h | h)
          · exact absurd h hfh
          · exact absurd h.1 hns
        by_cases hrr : iq.step = .RRQuery
        · have hok : doResponseAt P iq re =
              .ok { iq with step := .AnswerStub, lastResponse := re } := by
            simp [doResponseAt, hresp, hrr]
          rw [exchange_inBounds_iff_of_ok hI hok]
          exact iff_of_true QuerySteps.noConfusion hstocked
        · have hok : doResponseAt P iq re = .ok iq := by
            simp [doResponseAt, hresp, hns, hfh, hrr]
          rw [exchange_inBounds_iff_of_ok hI hok]
          exact iff_of_true hI.rrs_ne_nil hstocked
  · exact iff_of_true (exchange_inBounds_of_not_resp hI hresp)
      (fun h => absurd h hresp)

/-- Behind an exchange the invariant holds again. -/
theorem exchange_indexed
    {re : Response} (hI : Indexed iq)
    (h : (doResponseAt P iq re >>= resolveAt P) = .ok iq') :
    Indexed iq' := by
  obtain ⟨iq₁, hok, hresolve⟩ := (bind_eq_ok_iff _ _ _).mp h
  obtain rfl := resolveAt_eq_ok hresolve
  obtain ⟨hzone, hhint⟩ := doResponseAt_indices hI hok
  exact ⟨hzone, hhint,
    (resolveAt_inBounds_iff hzone).mp (inBounds_of_eq_ok hresolve)⟩

/-- What the packet is decoded to has the RR that is read. -/
def StockedData (P : NameParser) (data : Data)
    (iq : IterativeQueryWithForwardingHint) : Prop :=
  ∀ re, Response.init.fromData P data = some re → Stocked iq re

theorem onDataAt_eq (data : Data) :
    onDataAt P data iq =
      ofOption [] (Response.init.fromData P data) >>= fun re =>
        doResponseAt P iq re >>= resolveAt P := by
  unfold onDataAt doDataAt
  rw [bind_assoc]

theorem onDataAt_inBounds_iff (data : Data) (hI : Indexed iq) :
    InBounds (onDataAt P data iq) ↔ StockedData P data iq := by
  rw [onDataAt_eq, inBounds_bind_iff_of_inBounds (inBounds_ofOption _ _)]
  refine forall_congr' (fun re => ?_)
  rw [ofOption_eq_ok_iff, exchange_inBounds_iff re hI]

theorem onDataAt_indexed
    {data : Data} (hI : Indexed iq) (h : onDataAt P data iq = .ok iq') :
    Indexed iq' := by
  rw [onDataAt_eq] at h
  obtain ⟨re, -, h⟩ := (bind_eq_ok_iff _ _ _).mp h
  exact exchange_indexed hI h

/-- A resolution reads within its RR lists exactly as long as the NDNS-Resp that
it reads have RRs. -/
theorem resolution_inBounds_iff
    (P : NameParser) (rootHint : Name) (query : Query) (datas : List Data) :
    InBounds (resolution P rootHint query datas) ↔
      Along (onDataAt P) (StockedData P) datas (init query rootHint) := by
  have hstart : Indexed (init query rootHint) :=
    ⟨rfl, rfl, QuerySteps.noConfusion⟩
  have hfirst : InBounds (toLatestInterestAt P (init query rootHint)) :=
    (toLatestInterestAt_inBounds_iff rfl).mpr QuerySteps.noConfusion
  have hrun : InBounds (run (onDataAt P) datas (init query rootHint)) ↔
      Along (onDataAt P) (StockedData P) datas (init query rootHint) :=
    inBounds_run_iff (I := Indexed)
      (fun data _ hI => onDataAt_inBounds_iff data hI)
      (fun _ _ _ hI h => onDataAt_indexed hI h) hstart
  rw [resolution, inBounds_bind_iff_of_inBounds hfirst, ← hrun]
  constructor
  · intro h
    have hask : toLatestInterestAt P (init query rootHint) =
        .ok (some (Query.toInterest { Query.init with
          forwardingHint := rootHint
          rrLabel := (init query rootHint).query.rrLabel.take 1
          rrType := .NS })) := rfl
    exact h _ hask
  · exact fun h _ _ => h

end Bounds

/-- A positive answer without RRs. -/
def hollowAnswer : Data :=
  Response.init.packet

theorem fromData_hollowAnswer (P : NameParser) :
    Response.init.fromData P hollowAnswer =
      some { Response.init with wire := some Response.init.toBlock } := by
  have hread : Response.init.readName P Response.init.queryName =
      some Response.init :=
    Response.readName_root P Response.init
  rw [hollowAnswer, Response.fromData_packet P _ _ (by simp [Response.init])
    (by decide) (by decide) (by decide +kernel), hread]
  rfl

/-- The answer to the first NS query has no RRs; building the FH query reads the
first of them. -/
theorem hollowAnswer_out_of_bounds :
    (Response.init.fromData uriParser hollowAnswer).isSome = true ∧
      resolution uriParser [ascii "root"] Query.zoneQuery [hollowAnswer] =
        .error .outOfBounds := by
  refine ⟨by rw [fromData_hollowAnswer]; rfl, ?_⟩
  have hdata : onDataAt uriParser hollowAnswer
      (init Query.zoneQuery [ascii "root"]) = .error .outOfBounds := by
    rw [onDataAt_eq, fromData_hollowAnswer]
    rfl
  have hrun : run (onDataAt uriParser) [hollowAnswer]
      (init Query.zoneQuery [ascii "root"]) = .error .outOfBounds := by
    rw [run, hdata]
    rfl
  exact hrun

end IterativeQueryWithForwardingHint

end Ndns
