import Ndns.NameCachingResolver
import Ndns.QueryVerdicts
import Ndns.ResponseCache
import Ndns.Retransmission
import Ndns.VersionedNames

/-!
# The dig tool

`name-dig.cpp`: the tool asks a resolver for a name and a type and prints the RRs
of the answer.  A reply of a server reaches it in two steps.  The resolver decodes
the reply, and puts the block it has kept in a packet of its own.  The tool
decodes that, takes the label from the name of the answer, and drops as many
components as the zone in each RR has.

**Results.**
* `Answers.content_eq`: the last reply of a run is the content of its answer;
* `onData_delivers`: the RRs of a server reach the tool.
-/

namespace Ndns

structure NameDig where
  resolverName : Name
  dstLabel : Name
  rrType : RRType
  /-- Milliseconds. -/
  interestLifetime : Int
  response : Response
  rrs : List RR
  stopped : Bool
deriving DecidableEq

namespace NameDig

/-- `NameDig::NameDig`; the label is parsed from an argument of the tool. -/
def init (dstLabel : Name) : NameDig where
  resolverName := []
  dstLabel := dstLabel
  rrType := .TXT
  interestLifetime := 10000
  response := Response.init
  rrs := []
  stopped := false

/-- The query of `NameDig::toInterest`. -/
def query (dig : NameDig) : Query :=
  { Query.init with
    authorityZone := dig.resolverName
    rrLabel := dig.dstLabel
    queryType := .DNS_R
    rrType := dig.rrType }

def toInterest (dig : NameDig) : Interest :=
  { dig.query.toInterest with interestLifetime := dig.interestLifetime }

/-- The loop of `NameDig::onData` for one RR. -/
def cutLabel (rr : RR) : RR :=
  rr.setLabel
    (rr.rrset.label.getSubNameFrom rr.zone.authorizedName.length)

/-- `NameDig::onData`; `none` for a thrown error. -/
def onData (P : NameParser) (dig : NameDig) (data : Data) :
    Option NameDig := do
  let re ← Response.init.fromData P data
  return { dig with
    response := re
    rrs := re.rrs.map cutLabel
    stopped := true }

end NameDig

/-- A name is parsed back to a label and a type. -/
def ParsedBack (P : NameParser) (name label : Name) (type : RRType) :
    Prop :=
  ∃ map, matchQueryName name.toUri = some map ∧
    P.ofUri map.rrLabel = some label ∧ toRRType map.rrType = type

/-- An RR of a zone at the end of its way. -/
structure RR.Delivered (zone label : Name) (type : RRType)
    (sent got : RR) : Prop where
  id_eq : got.id = sent.id
  rrData_eq : got.rrData = sent.rrData
  zone_eq : got.zone.authorizedName = zone
  type_eq : got.rrset.type = type
  label_eq : got.rrset.label = label

/-- The tool reads an answer unless some text in its name is none of a name, and
then has all RRs in their order. -/
structure NameDig.Gets (P : NameParser) (zone label : Name) (type : RRType)
    (sent : List RR) (answer : Data) : Prop where
  isSome_iff : ∀ dig : NameDig, (dig.onData P answer).isSome ↔
    (Response.init.readName P answer.name).isSome
  delivered : ∀ dig dig' : NameDig, dig.onData P answer = some dig' →
    List.Forall₂ (RR.Delivered zone label type) sent dig'.rrs

/-- The server makes a response to a question and puts it in a packet. -/
structure NameServer.Replies
    (P : NameParser) (S : Sqlite) (K : PacketCodec) (server : NameServer)
    (version : Version) (interest : Interest) (disk : Disk)
    (question : Query) (response : Response) (reply : Data) : Prop where
  query : (matchUpdateName interest.name.toUri).isSome = false
  read : ∃ understood, Query.init.fromInterest P interest =
    some (understood, question)
  answer : ∃ d, (NameServer.answer P S server question
    (server.queryReply version interest)).run disk = .ok (some response) d
  put : (server.onInterest P S K version interest disk).1 =
    .returned [reply]

namespace NameServer

variable {P : NameParser} {S : Sqlite} {K : PacketCodec}
variable {server : NameServer} {question : Query}

/-- Whatever its type is, a response holds what is found. -/
theorem answer_triple (response : Response) (disk : Disk) :
    Effect.Triple (· = disk) (answer P S server question response)
      (fun x _ => ∀ re, x = some re →
        ∃ type, re = answered server question response disk.db type)
      (fun _ => True) := by
  unfold answer
  refine Effect.Triple.bind ((QueryMgr.lookup_triple P S server.zone
    question response disk).conseq (fun _ h => h) (fun _ _ h => h)
      (fun _ _ => trivial)) (fun re => ?_)
  refine Effect.triple_of_forall ?_
  rintro d ⟨-, -, rfl⟩
  split_ifs with hfound hns
  · exact Effect.triple_pure (fun _ _ re hre =>
      ⟨.NDNS_Resp, (Option.some.inj hre).symm⟩)
  · intro s _
    rw [EStateM.run_bind]
    cases (QueryMgr.hasAuth S server.zone question).run s with
    | error e _ =>
        trivial
    | ok count _ =>
        dsimp only
        split_ifs
        · exact fun re hre => absurd hre (by simp)
        · exact fun re hre => ⟨.NDNS_Auth, (Option.some.inj hre).symm⟩
        · exact fun re hre => ⟨.NDNS_Nack, (Option.some.inj hre).symm⟩
  · exact Effect.triple_pure (fun _ _ re hre =>
      ⟨.NDNS_Nack, (Option.some.inj hre).symm⟩)

/-- A reply is the packet of what is found. -/
theorem Replies.exists_answered
    {version : Version} {interest : Interest} {disk : Disk}
    {response : Response} {reply : Data}
    (h : Replies P S K server version interest disk question response reply)
    (hfits : response.toBlock.value.length < 2 ^ 64) :
    reply = response.packet ∧ ∃ type, response = answered server question
      (server.queryReply version interest) disk.db type := by
  obtain ⟨understood, hread⟩ := h.read
  obtain ⟨d, hanswer⟩ := h.answer
  have htriple : Effect.Triple (· = disk) (NameServer.answer P S server
      question (server.queryReply version interest)) _ _ :=
    answer_triple (server.queryReply version interest) disk
  have hends := htriple disk rfl
  rw [hanswer] at hends
  obtain ⟨type, htype⟩ := hends response rfl
  have hwire : response.wire = none := by
    rw [htype]
    rfl
  have hput := h.put
  rw [onInterest, if_neg (by simp [h.query])] at hput
  split_ifs at hput with hquery
  · simp only [onQuery, hread, hanswer, Response.toData_eq hwire hfits]
      at hput
    exact ⟨(List.cons.inj (Outcome.returned.inj hput)).1.symm, type, htype⟩
  · simp at hput

/-- What a server replies it can encode. -/
theorem Replies.typed
    {version : Version} {interest : Interest} {disk : Disk}
    {response : Response} {reply : Data}
    (h : Replies P S K server version interest disk question response reply)
    (hfits : response.toBlock.value.length < 2 ^ 64) :
    response.Typed ∧
      response.rrs = QueryMgr.found server.zone question disk.db := by
  obtain ⟨-, type, rfl⟩ := h.exists_answered hfits
  exact ⟨⟨fun _ hrr => id_lt_of_found hrr, server.contentFreshness_lo,
    server.contentFreshness_hi⟩, rfl⟩

/-- What the statements of a query read is replied. -/
theorem replies_of_queryPlan
    {version : Version} {interest : Interest} {disk : Disk}
    {understood : Bool}
    (hupdate : (matchUpdateName interest.name.toUri).isSome = false)
    (hquery : (matchQueryName interest.name.toUri).isSome)
    (hread : Query.init.fromInterest P interest =
      some (understood, question))
    (hsql : (S.execute (queryPlan server question disk.db) disk).isSome)
    (hfits : (answered server question (server.queryReply version interest)
      disk.db (replyType server question disk.db)).toBlock.value.length <
        2 ^ 64) :
    server.Replies P S K version interest disk question
      (answered server question (server.queryReply version interest)
        disk.db (replyType server question disk.db))
      (answered server question (server.queryReply version interest)
        disk.db (replyType server question disk.db)).packet := by
  refine ⟨hupdate, ⟨understood, hread⟩, ?_, ?_⟩
  · have hsends : Sends S (fun S => answer P S server question
        (server.queryReply version interest))
        (queryPlan server question disk.db) disk _ :=
      sends_answer_replyType server question _
    obtain ⟨d, hrun⟩ := Option.isSome_iff_exists.mp hsql
    unfold Sends at hsends
    rw [hrun] at hsends
    obtain ⟨x, rfl, hok⟩ := hsends
    exact ⟨d, hok S.foreign⟩
  · rw [onInterest, if_neg (by simp [hupdate]), if_pos hquery]
    exact onQuery_eq hread hsql hfits

end NameServer

namespace NameCachingResolver

variable {σ : Type} {S : IQStrategy σ} {resolver : NameCachingResolver}
variable {P : NameParser}

/-- A strategy that answers with the response it has just decoded. -/
def AnswersWithLast (P : NameParser) (S : IQStrategy σ) : Prop :=
  (∀ query, S.getStep (S.init query) ≠ .AnswerStub) ∧
    ∀ iq iq' data, S.getStep iq ≠ .AnswerStub →
      S.doData iq data = some iq' → S.getStep iq' = .AnswerStub →
        Response.init.fromData P data = some (S.getLastResponse iq')

theorem answersWithLast_plain (P : NameParser) :
    AnswersWithLast P (plainStrategy P) := by
  refine ⟨fun query => by simp [plainStrategy, IterativeQuery.init], ?_⟩
  intro iq iq' data hpending hdo hstub
  obtain ⟨re, hre, hdo⟩ := Option.map_eq_some_iff.mp hdo
  have hmoved : IterativeQuery.Moved iq re iq' := hdo ▸ iq.moved re
  rw [hre, Option.some.injEq]
  cases hmoved with
  | unknown htype => simp [plainStrategy] at hstub
  | nack htype => rfl
  | auth htype => exact absurd hstub hpending
  | advance htype hstep => rfl
  | final htype hstep => rfl
  | ignored => exact absurd hstub hpending

theorem answersWithLast_hinted (P : NameParser) (rootHint : Name) :
    AnswersWithLast P (hintedStrategy P rootHint) := by
  refine ⟨fun query => by
    simp [hintedStrategy, IterativeQueryWithForwardingHint.init,
      IterativeQuery.init], ?_⟩
  intro iq iq' data hpending hdo hstub
  obtain ⟨re, hre, hdo⟩ := Option.bind_eq_some_iff.mp hdo
  rw [hre, Option.some.injEq]
  cases IterativeQueryWithForwardingHint.moved hdo with
  | unknown htype => simp [hintedStrategy] at hstub
  | nack htype => rfl
  | auth htype => exact absurd hstub hpending
  | delegate htype hstep => rfl
  | advance rr hint htype hstep hrr hhint => simp [hintedStrategy] at hstub
  | final htype hstep => rfl
  | ignored => exact absurd hstub hpending

/-- A response that is encoded again is the block that was decoded. -/
theorem toData_content
    {data : Data} {re : Response}
    (hread : Response.init.fromData P data = some re)
    (htype : data.content.type = tlv.Content) :
    ∃ d, re.toData = some d ∧ d.content = data.content := by
  have hwire : re.wire = some data.content := by
    obtain ⟨s, -, hdecode⟩ := Option.bind_eq_some_iff.mp hread
    rw [Response.wireDecode_eq] at hdecode
    obtain ⟨x, -, rfl⟩ := Option.map_eq_some_iff.mp hdecode
    rfl
  simp [Response.toData, Response.wireEncode, hwire, Data.setContent, htype]

/-- A resolution that goes on is not answered yet. -/
theorem getStep_of_express
    {version : Version} {iq iq' : σ} {data : Data} {interest : Interest}
    (h : resolver.onData S version iq data =
      some (iq', .expressInterest interest)) :
    S.getStep iq' ≠ .AnswerStub := by
  intro hstub
  obtain ⟨hdo, -⟩ := onData_eq_some h
  simp only [onData, hdo, hstub, Option.bind_eq_bind, Option.bind_some,
    Option.bind_eq_some_iff] at h
  obtain ⟨d, -, h⟩ := h
  simp at h

/-- The content of an answer is that of the last reply. -/
theorem Answers.content_eq
    (hlast : AnswersWithLast P S) {iq : σ} {datas : List Data}
    {answer : Data} (h : Answers S resolver iq datas answer)
    (hpending : S.getStep iq ≠ .AnswerStub) :
    ∀ reply ∈ datas.getLast?, reply.content.type = tlv.Content →
      answer.content = reply.content := by
  induction h with
  | @put iq iq' data answer version h =>
      intro reply hreply htype
      obtain rfl : data = reply := by simpa using hreply
      obtain ⟨hdo, hput⟩ := onData_eq_some h
      have hstub := (hput _ rfl).1
      have hread := hlast.2 _ _ _ hpending hdo hstub
      obtain ⟨d, hdata, hcontent⟩ := toData_content hread htype
      have hputs := resolver.onData_put version hdo hstub hdata
      obtain ⟨-, hanswer⟩ := Prod.mk.inj (Option.some.inj (h.symm.trans hputs))
      rw [FaceAction.put.inj hanswer]
      exact hcontent
  | @express iq iq' data answer datas interest version h hrest ih =>
      intro reply hreply
      refine ih (getStep_of_express h) reply ?_
      cases datas with
      | nil => cases hrest
      | cons d datas => simpa using hreply

end NameCachingResolver

namespace NameDig

variable {P : NameParser} {S : Sqlite} {K : PacketCodec}
variable {server : NameServer} {version : Version} {interest : Interest}
variable {disk : Disk} {question : Query} {response : Response}
variable {reply answer : Data}

/-- The end of the way of an RR: the name of its zone goes off the label. -/
theorem delivered_cutLabel {zone label : Name} {type : RRType} {sent : RR}
    (hzone : sent.zone.authorizedName = zone) :
    RR.Delivered zone label type sent
      (cutLabel (Response.received (zone ++ label) type sent)) where
  id_eq := rfl
  rrData_eq := rfl
  zone_eq := hzone
  type_eq := rfl
  label_eq := by
    subst hzone
    exact List.drop_left

/-- A content that a server has encoded is read under any name. -/
theorem gets_of_content
    {zone label : Name} {type : RRType}
    (htyped : response.Typed)
    (hfits : response.toBlock.value.length < 2 ^ 64)
    (hzone : ∀ rr ∈ response.rrs, rr.zone.authorizedName = zone)
    (hcontent : answer.content = response.toBlock)
    (hname : ParsedBack P answer.name (zone ++ label) type) :
    Gets P zone label type response.rrs answer := by
  have hdecode := Response.fromData_content P response Response.init
    htyped.id_lt htyped.freshness_ge htyped.freshness_lt hfits hcontent
  obtain ⟨map, hmatch, hlabel, htype⟩ := hname
  constructor
  · intro dig
    unfold onData
    rw [hdecode]
    cases Response.init.readName P answer.name <;> rfl
  · intro dig dig' hdig
    obtain ⟨re, hre, hdig⟩ := Option.bind_eq_some_iff.mp hdig
    obtain rfl := Option.some.inj hdig
    rw [hdecode] at hre
    obtain ⟨s, hread, hre⟩ := Option.map_eq_some_iff.mp hre
    have hnil : s.rrs = [] := Response.readName_rrs hread
    obtain ⟨-, hs, hstype⟩ := Response.readName_of_match hmatch hread
    have hslabel : s.rrLabel = zone ++ label :=
      Option.some.inj (hs.symm.trans hlabel)
    rw [← hre]
    simp only [hnil, hslabel, hstype, htype, List.nil_append, List.map_map,
      List.forall₂_map_right_iff, List.forall₂_same]
    exact fun rr hrr => delivered_cutLabel (hzone rr hrr)

/-- Whatever a resolver was asked for, if the last reply of its run is that of
the server, the tool gets the RRs of the server. -/
def Relayed (P : NameParser) {σ : Type} (S : IQStrategy σ)
    (zone label : Name) (type : RRType) (sent : List RR)
    (reply : Data) : Prop :=
  ∀ (resolver : NameCachingResolver) (query : Query) (datas : List Data)
    (answer : Data),
    NameCachingResolver.Answers S resolver (S.init query) datas answer →
      datas.getLast? = some reply →
        ParsedBack P answer.name (zone ++ label) type →
          Gets P zone label type sent answer

theorem relayed_of_replies
    {σ : Type} {strategy : IQStrategy σ}
    (hlast : NameCachingResolver.AnswersWithLast P strategy)
    (h : server.Replies P S K version interest disk question response reply)
    (hfits : response.toBlock.value.length < 2 ^ 64) :
    Relayed P strategy server.zone.authorizedName question.rrLabel
      question.rrType response.rrs reply := by
  intro resolver query datas answer hrun hreply hname
  obtain ⟨htyped, hrrs⟩ := h.typed hfits
  obtain ⟨rfl, -⟩ := h.exists_answered hfits
  have hcontent : answer.content = response.toBlock :=
    hrun.content_eq hlast (hlast.1 query) _ hreply rfl
  refine gets_of_content htyped hfits ?_ hcontent hname
  intro rr hrr
  rw [hrrs] at hrr
  obtain ⟨r, -, rfl⟩ := List.mem_map.mp hrr
  rfl

/-- The RRs that a server finds for a label and a type reach the tool behind a
resolver, in their order and with the label behind the zone. -/
theorem onData_delivers
    (h : server.Replies P S K version interest disk question response reply)
    (hfits : response.toBlock.value.length < 2 ^ 64) :
    Relayed P (plainStrategy P) server.zone.authorizedName
        question.rrLabel question.rrType response.rrs reply ∧
      ∀ rootHint, Relayed P (hintedStrategy P rootHint)
        server.zone.authorizedName question.rrLabel question.rrType
          response.rrs reply :=
  ⟨relayed_of_replies (NameCachingResolver.answersWithLast_plain P) h hfits,
    fun rootHint => relayed_of_replies
      (NameCachingResolver.answersWithLast_hinted P rootHint) h hfits⟩

section Hosts

open DyndnsMgr DynamicDNSUpdate NameServer Network NameCachingResolver

/-- `/www` has a second text record. -/
def bothDisk : Disk :=
  { addedDisk with
    db := ((addedDisk.db.insertRr { newRow (hostRecord .ADD) 2 with
      rrdata := ascii "/dsl" }).map Prod.snd).getD addedDisk.db }

/-- What the server of `/net` makes for the text records of `/www`. -/
def hostResponse : Response :=
  answered netServer (stubQuery [])
    (netServer.queryReply firstVersion (stubQuery []).toInterest)
    bothDisk.db .NDNS_Resp

theorem fits_hostResponse :
    hostResponse.toBlock.value.length < 2 ^ 64 := by
  decide +kernel

theorem replies_host :
    netServer.Replies uriParser reliable (ndnCodec digestSignature)
      firstVersion (stubQuery []).toInterest bothDisk (stubQuery [])
      hostResponse hostResponse.packet := by
  have htype : replyType netServer (stubQuery []) bothDisk.db =
      .NDNS_Resp := by
    decide +kernel
  have hfits := fits_hostResponse
  rw [hostResponse, ← htype] at hfits ⊢
  exact replies_of_queryPlan (by decide +kernel) (by decide +kernel)
    (fromInterest_stubQuery []) (by decide +kernel) hfits

/-- The question of the tool for the text records of `/net/www`, as the resolver
reads it. -/
def hostQuestion : Query :=
  { (NameDig.init [ascii "net", ascii "www"]).query with
    interestLifetime := 10000 }

theorem fromInterest_hostQuestion :
    Query.init.fromInterest uriParser
      (NameDig.init [ascii "net", ascii "www"]).toInterest =
        some (true, hostQuestion) := by
  decide +kernel

/-- There is no delegation of `/net`, and the records are asked for. -/
theorem exists_answers_host :
    ∃ answer, Answers (plainStrategy uriParser) ⟨60000, 2000⟩
        (IterativeQuery.init hostQuestion) [denial, hostResponse.packet]
        answer ∧
      answer.name = answerName hostQuestion ++ [firstVersion.component] := by
  have hdenied : (plainStrategy uriParser).doData
      (IterativeQuery.init hostQuestion) denial =
        some ((IterativeQuery.init hostQuestion).doResponse denied) := by
    simp [plainStrategy, IterativeQuery.doData, fromData_denial]
  have hread : (Response.init.fromData uriParser hostResponse.packet).map
      Response.responseType = some .NDNS_Resp := by
    decide +kernel
  obtain ⟨re, hre, htype⟩ := Option.map_eq_some_iff.mp hread
  have hdo : (plainStrategy uriParser).doData
      ((IterativeQuery.init hostQuestion).doResponse denied)
        hostResponse.packet =
          some (((IterativeQuery.init hostQuestion).doResponse
            denied).doResponse re) := by
    simp [plainStrategy, IterativeQuery.doData, hre]
  obtain ⟨d, hdata, -⟩ := toData_content hre rfl
  have hanswered :
      (((IterativeQuery.init hostQuestion).doResponse denied).doResponse
        re).step = .AnswerStub ∧
      (((IterativeQuery.init hostQuestion).doResponse denied).doResponse
        re).lastResponse = re := by
    rw [IterativeQuery.doResponse_resp _ _ htype]
    exact ⟨rfl, rfl⟩
  refine ⟨_, Answers.express firstVersion (onData_express _ _ hdenied rfl rfl)
    (Answers.put firstVersion (onData_put _ _ hdo hanswered.1
      ((congrArg Response.toData hanswered.2).trans hdata))), ?_⟩
  simp [plainStrategy]
  rfl

theorem onData_delivers_host :
    Query.init.fromInterest uriParser
        (NameDig.init [ascii "net", ascii "www"]).toInterest =
          some (true, hostQuestion) ∧
    ∃ answer dig,
      Answers (plainStrategy uriParser) ⟨60000, 2000⟩
          (IterativeQuery.init hostQuestion) [denial, hostResponse.packet]
          answer ∧
        (NameDig.init [ascii "net", ascii "www"]).onData uriParser answer =
          some dig ∧
        hostResponse.rrs.map RR.rrData = [ascii "/isp", ascii "/dsl"] ∧
        List.Forall₂ (RR.Delivered [ascii "net"] [ascii "www"] .TXT)
          hostResponse.rrs dig.rrs := by
  obtain ⟨answer, hrun, hname⟩ := exists_answers_host
  have hback : ParsedBack uriParser answer.name
      ([ascii "net"] ++ [ascii "www"]) .TXT := by
    rw [hname]
    exact ⟨⟨[], ascii "/", ascii "DNS-R", ascii "/net/www", ascii "TXT"⟩,
      by decide +kernel, by decide +kernel, by decide⟩
  have hgets := (onData_delivers replies_host fits_hostResponse).1 _ _ _ _
    hrun rfl hback
  have hsome : ((NameDig.init [ascii "net", ascii "www"]).onData uriParser
      answer).isSome := by
    rw [hgets.isSome_iff, hname]
    decide +kernel
  obtain ⟨dig, hdig⟩ := Option.isSome_iff_exists.mp hsome
  exact ⟨fromInterest_hostQuestion, answer, dig, hrun, hdig,
    by decide +kernel, hgets.delivered _ _ hdig⟩

end Hosts

end NameDig

end Ndns
