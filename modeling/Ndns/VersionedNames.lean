import Ndns.QueryUpdate
import Ndns.ResponseCache

/-!
# Names with a version behind them

The server names an answer after the Interest and puts a version behind it.  A
version starts with a byte that a URI escapes, so no record type stands at its
front: whatever the name is cut as, the version joins the tail that the pattern
leaves over.

**Results.**
* `matchName_append`: segments that start with no type do not move a cut;
* `fromData_version`: server and receiver read the same zone, label and type.
-/

namespace Ndns

section Cuts

variable {ws ts : List Bytes} {es tail : List Bytes}

/-- A reading of the segments in front of some others. -/
def Reading.inFront
    (tail : List Bytes) (htail : ∀ e ∈ tail, wordAt ts e = none)
    (r : Reading ws ts es) :
    Reading ws ts (es ++ tail) :=
  { r with
    tail := r.tail ++ tail
    es_eq := (congrArg (· ++ tail) r.es_eq).trans (by simp)
    tail_clean := fun e he =>
      (List.mem_append.mp he).elim (r.tail_clean e) (htail e) }

theorem Segments.of_prefix (h : Segments (es ++ tail)) : Segments es where
  slash := fun e he => h.slash e (List.mem_append_left tail he)
  dot := fun b hb => h.dot b (by
    rw [uriPath_append]
    exact List.mem_append_left _ hb)

/-- Segments that start with no type do not move a cut. -/
theorem matchName_append
    (hv : Vocabulary ws ts) (hes : Segments (es ++ tail))
    (htail : ∀ e ∈ tail, wordAt ts e = none)
    (hcut : Cuttable ws ts es) :
    matchName ws ts (uriPath (es ++ tail)) =
      matchName ws ts (uriPath es) := by
  obtain ⟨r⟩ := exists_reading hcut
  have hfront := hes.of_prefix
  by_cases hm : ∃ e ∈ r.pre, marker <:+ e
  · obtain ⟨ph, e, pz, hpre, ⟨y, rfl⟩, hpz⟩ :=
      exists_last_split (fun e => marker <:+ e) r.pre hm
    have hshort := matchName_of_hint hv hfront r ph y pz hpre hpz
    have hlong :=
      matchName_of_hint hv hes (r.inFront tail htail) ph y pz hpre hpz
    exact hlong.trans hshort.symm
  · have hfree : ∀ e ∈ r.pre, ¬ marker <:+ e :=
      fun e he hsuf => hm ⟨e, he, hsuf⟩
    have hshort := matchName_of_reading hv hfront r hfree
    have hlong := matchName_of_reading hv hes (r.inFront tail htail) hfree
    exact hlong.trans hshort.symm

end Cuts

/-- A name with a version behind it is matched as the name is. -/
theorem matchQueryName_concat_version
    {n : Name} {map : NameMap} (version : Version)
    (h : matchQueryName n.toUri = some map) :
    matchQueryName (Name.toUri (n ++ [version.component])) = some map := by
  obtain ⟨hn, hcut⟩ := cuttable_of_matchQueryName h
  have hsegments : Name.segments (n ++ [version.component]) =
      n.segments ++ [Component.toUri version.component] := by
    simp [Name.segments]
  have hes := segments_of_name (n ++ [version.component])
  rw [Name.toUri_of_ne_nil (by simp), hsegments]
  rw [Name.toUri_of_ne_nil hn] at h
  rw [hsegments] at hes
  refine (matchName_append queryVocabulary hes ?_ hcut).trans h
  intro e he
  obtain rfl := List.mem_singleton.mp he
  exact queryType_version version

section Readers

variable {P : NameParser} {map : NameMap}

/-- An Interest is accepted because its name is matched. -/
theorem exists_match_of_fromInterest
    {q q' : Query} {interest : Interest}
    (h : q.fromInterest P interest = some (true, q')) :
    ∃ map, matchQueryName interest.name.toUri = some map := by
  cases hmatch : matchQueryName interest.name.toUri with
  | none => simp [Query.fromInterest, hmatch] at h
  | some map => exact ⟨map, rfl⟩

/-- What an accepted Interest is read as. -/
theorem fromInterest_of_match
    {q q' : Query} {interest : Interest}
    (hmatch : matchQueryName interest.name.toUri = some map)
    (h : q.fromInterest P interest = some (true, q')) :
    P.ofUri map.zone = some q'.authorityZone ∧
      P.ofUri map.rrLabel = some q'.rrLabel ∧
      q.hintOfMap P map = some q'.forwardingHint ∧
      q'.queryType = toQueryType map.queryType ∧
      q'.rrType = toRRType map.rrType := by
  unfold Query.fromInterest at h
  rw [hmatch] at h
  obtain ⟨q'', hread, hq⟩ := Option.map_eq_some_iff.mp h
  obtain rfl := (Prod.mk.inj hq).2
  unfold Query.fromInterestMap at hread
  simp only [Option.bind_eq_bind, Option.bind_eq_some_iff] at hread
  obtain ⟨zone, hzone, label, hlabel, hint, hhint, hread⟩ := hread
  obtain rfl := Option.some.inj hread
  exact ⟨hzone, hlabel, hhint, rfl, rfl⟩

namespace Response

/-- What the name of an answer is read as. -/
theorem readName_of_match
    {r r' : Response} {n : Name}
    (hmatch : matchQueryName n.toUri = some map)
    (h : r.readName P n = some r') :
    P.ofUri map.zone = some r'.authorityZone ∧
      P.ofUri map.rrLabel = some r'.rrLabel ∧
      r'.rrType = toRRType map.rrType := by
  unfold readName at h
  rw [hmatch] at h
  simp only [Option.bind_eq_bind, Option.bind_eq_some_iff] at h
  obtain ⟨zone, hzone, label, hlabel, hint, -, hread⟩ := h
  obtain rfl := Option.some.inj hread
  exact ⟨hzone, hlabel, rfl⟩

/-- The name of an answer can be read when the Interest can. -/
theorem isSome_readName
    {q : Query} {interest : Interest} {r : Response} {n : Name}
    (hquestion : matchQueryName interest.name.toUri = some map)
    (hanswer : matchQueryName n.toUri = some map) :
    (r.readName P n).isSome = (q.fromInterest P interest).isSome := by
  unfold readName Query.fromInterest Query.fromInterestMap Query.hintOfMap
  rw [hquestion, hanswer]
  dsimp only
  cases P.ofUri map.zone with
  | none => rfl
  | some zone =>
      cases P.ofUri map.rrLabel with
      | none => rfl
      | some label =>
          by_cases hhint : map.hint = []
          · simp [hhint]
          · cases P.ofUri map.hint <;> simp [hhint]

/-- Decoding hands what the name was read as to each RR of the block. -/
theorem wireDecode_labels
    {r r' : Response} {wire : Tlv.Block}
    (h : r.wireDecode P wire = some r') :
    r'.authorityZone = r.authorityZone ∧ r'.rrLabel = r.rrLabel ∧
      r'.rrType = r.rrType ∧
      ∃ added, r'.rrs = r.rrs ++ added ∧
        ∀ rr ∈ added, rr.rrset.label = r.rrLabel ∧
          rr.rrset.type = r.rrType := by
  rw [wireDecode_eq] at h
  obtain ⟨d, -, rfl⟩ := Option.map_eq_some_iff.mp h
  refine ⟨rfl, rfl, rfl, _, rfl, ?_⟩
  intro rr hrr
  obtain ⟨rr', -, rfl⟩ := List.mem_map.mp hrr
  exact ⟨rfl, rfl⟩

/-- An answer is read if its name is and its content can be decoded. -/
theorem isSome_fromData (r : Response) (data : Data) :
    (r.fromData P data).isSome =
      ((r.readName P data.name).isSome &&
        (Response.init.wireDecode P data.content).isSome) := by
  unfold fromData
  cases r.readName P data.name with
  | none => rfl
  | some s =>
      simp only [Option.bind_eq_bind, Option.bind_some, wireDecode_eq,
        Option.isSome_map, Option.isSome_some, Bool.true_and]

end Response

end Readers

/-- A version behind the name of a question moves no part of it, so a server
that reads the question and a receiver that reads the answer agree. -/
theorem fromData_version
    (P : NameParser) (version : Version) {n : Name} {map : NameMap}
    (h : matchQueryName n.toUri = some map) :
    matchQueryName (Name.toUri (n ++ [version.component])) = some map ∧
      ∀ (q : Query) (interest : Interest) (r : Response) (data : Data),
        interest.name = n → data.name = n ++ [version.component] →
        (r.readName P data.name).isSome =
            (q.fromInterest P interest).isSome ∧
          (r.fromData P data).isSome =
            ((q.fromInterest P interest).isSome &&
              (Response.init.wireDecode P data.content).isSome) ∧
          ∀ (q' : Query) (r' : Response),
            q.fromInterest P interest = some (true, q') →
            r.fromData P data = some r' →
            r'.authorityZone = q'.authorityZone ∧
              r'.rrLabel = q'.rrLabel ∧ r'.rrType = q'.rrType ∧
              ∃ added, r'.rrs = r.rrs ++ added ∧
                ∀ rr ∈ added, rr.rrset.label = q'.rrLabel ∧
                  rr.rrset.type = q'.rrType := by
  have hlong := matchQueryName_concat_version version h
  refine ⟨hlong, ?_⟩
  rintro q interest r data rfl hdata
  have hname : (r.readName P data.name).isSome =
      (q.fromInterest P interest).isSome :=
    Response.isSome_readName h (hdata ▸ hlong)
  refine ⟨hname, (Response.isSome_fromData r data).trans (by rw [hname]), ?_⟩
  intro q' r' hquery hanswer
  obtain ⟨hzone, hlabel, -, -, htype⟩ := fromInterest_of_match h hquery
  unfold Response.fromData at hanswer
  rw [hdata] at hanswer
  simp only [Option.bind_eq_bind, Option.bind_eq_some_iff] at hanswer
  obtain ⟨s, hread, hdecode⟩ := hanswer
  obtain ⟨hzone', hlabel', htype'⟩ :=
    Response.readName_of_match hlong hread
  obtain ⟨hz, hl, ht, added, hadded, hall⟩ :=
    Response.wireDecode_labels hdecode
  have hsZone : s.authorityZone = q'.authorityZone :=
    Option.some.inj (hzone'.symm.trans hzone)
  have hsLabel : s.rrLabel = q'.rrLabel :=
    Option.some.inj (hlabel'.symm.trans hlabel)
  have hsType : s.rrType = q'.rrType := htype'.trans htype.symm
  have hrrs : s.rrs = r.rrs := Response.readName_rrs hread
  refine ⟨hz.trans hsZone, hl.trans hsLabel, ht.trans hsType, added,
    hadded.trans (congrArg (· ++ added) hrrs), ?_⟩
  intro rr hrr
  obtain ⟨hrrLabel, hrrType⟩ := hall rr hrr
  exact ⟨hrrLabel.trans hsLabel, hrrType.trans hsType⟩

/-- The name of a question for `/www` of `/net`. -/
def wwwName : Name :=
  [ascii "net", ascii "DNS", ascii "www", ascii "TXT"]

/-- A version with the bytes of `DNS` in it. -/
def wordVersion : Version :=
  ⟨[0xFD] ++ ascii "/DNS", rfl⟩

/-- An answer with one record. -/
def wwwData : Data where
  name := wwwName ++ [wordVersion.component]
  contentType := QueryType.DNS.code
  freshnessPeriod := 4000
  content := Response.toBlock { Response.init with
    queryName := wwwName ++ [wordVersion.component]
    rrs := [{ RR.init with id := 1, rrData := ascii "/isp" }] }

/-- It changes nothing, either. -/
theorem fromData_version_word :
    matchQueryName (Name.toUri (wwwName ++ [wordVersion.component])) =
      some {
        hint := []
        zone := ascii "/net/"
        queryType := ascii "DNS"
        rrLabel := ascii "/www"
        rrType := ascii "TXT" } ∧
    ∃ q r, Query.init.fromInterest uriParser ⟨wwwName, 4000⟩ =
        some (true, q) ∧
      Response.init.fromData uriParser wwwData = some r ∧
      r.authorityZone = q.authorityZone ∧ r.rrLabel = q.rrLabel ∧
      r.rrType = q.rrType ∧ r.rrs.length = 1 ∧
      ∀ rr ∈ r.rrs, rr.rrset.label = q.rrLabel ∧
        rr.rrset.type = q.rrType := by
  have hname : matchQueryName wwwName.toUri = some {
      hint := []
      zone := ascii "/net/"
      queryType := ascii "DNS"
      rrLabel := ascii "/www"
      rrType := ascii "TXT" } := by
    decide +kernel
  obtain ⟨hmatch, hread⟩ := fromData_version uriParser wordVersion hname
  refine ⟨hmatch, ?_⟩
  obtain ⟨-, hsome, hagree⟩ := hread Query.init ⟨wwwName, 4000⟩
    Response.init wwwData rfl rfl
  have hquery : (Query.init.fromInterest uriParser ⟨wwwName, 4000⟩).map
      Prod.fst = some true := by
    decide +kernel
  obtain ⟨⟨understood, q⟩, hq, rfl⟩ := Option.map_eq_some_iff.mp hquery
  have hcontent : (Response.init.wireDecode uriParser
      wwwData.content).isSome = true := by
    decide +kernel
  rw [hq, hcontent, Option.isSome_some, Bool.and_self] at hsome
  obtain ⟨r, hr⟩ := Option.isSome_iff_exists.mp hsome
  have hone : (Response.init.fromData uriParser wwwData).map
      (fun r => r.rrs.length) = some 1 := by
    decide +kernel
  rw [hr] at hone
  obtain ⟨hzone, hlabel, htype, added, hadded, hall⟩ := hagree q r hq hr
  refine ⟨q, r, hq, hr, hzone, hlabel, htype, Option.some.inj hone,
    fun rr hrr => ?_⟩
  rw [hadded] at hrr
  exact hall rr hrr

end Ndns
