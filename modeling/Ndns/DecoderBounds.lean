import Ndns.Lib.Walk
import Ndns.ResponseUpdate
import Ndns.SqlStatement
import Ndns.UriParser

/-!
# The decoders and their iterators

`RR::wireDecode`, `Response::wireDecode` and `ResponseUpdate::wireDecode` once
more, with the iterators that they walk the elements of a block with, the check
whether the block has a wire and the texts of their errors.  Each element is read
behind a comparison with the end, but for two error messages that print the type
of the first element of a content blob: when the blob is empty there is none.

**Results.**
* `wireDecodeIt_toOption`: the decoders agree with the ones on lists;
* `safelyDecoded_iff`: the blocks on which each decoder stays within its lists;
* `Response.wireDecodeIt_rrs`: a response has the declared number of RRs.
-/

namespace Ndns

open Walk

/-- Has an element the type? -/
def hasType (type : Nat) (b : Tlv.Block) : Bool :=
  b.type == type

/-- `std::to_string((int) type)` -/
def intText (type : Nat) : Bytes :=
  if type < 2 ^ 31 then decimal type
  else 45 :: decimal (2 ^ 32 - type)

def noWire : Bytes :=
  ascii "The supplied block does not contain wire format"

/-- `RR::wireDecode`; `none` is a block without a wire. -/
def RR.wireDecodeIt (P : NameParser) (rr : RR) :
    Option Tlv.Block → Walk Bytes RR
  | none => thrown noWire
  | some wire => do
      if wire.type ≠ tlv.RRData then
        thrown (ascii "Unexpected TLV type when decoding Content")
      else
        let elements ← ofOption [] wire.parse
        let it := Iterator.start elements
        let (sub1, it) ← it.expect (hasType tlv.RRDataSub1)
          (ascii "not the RRDataSub1 Type")
        let id ← ofOption [] (Tlv.readNonNegativeInteger sub1.value)
        let (zone, it) ← it.expect (hasType tlv.RRZone)
          (ascii "not the RRZone Type")
        let name ← ofOption [] (P.ofUri zone.value)
        let (record, it) ← it.expect (hasType tlv.RRDataRecord)
          (ascii "not the RRDataRecord Type")
        let (action, _) ← it.expect (hasType tlv.RRUpdateAction)
          (ascii "not the RRUpdateAction Type")
        return { rr.setZoneName name with
          id := id % 2 ^ 32
          rrData := record.value
          updateAction := toUpdateAction action.value
          wire := some wire }

/-- What a response and a response to an update have in front of their blob. -/
structure Head where
  queryName : Name
  responseType : ResponseType
  freshness : Int
  blob : Tlv.Block

/-- The part that `Response::wireDecode` and `ResponseUpdate::wireDecode`
share. -/
def Head.wireDecodeIt (wire : Tlv.Block) : Walk Bytes Head := do
  let elements ← ofOption [] wire.parse
  let it := Iterator.start elements
  let (name, it) ← it.expect (hasType tlv.Name)
    (ascii "not the ndn::Tlv::Name type")
  let queryName ← ofOption [] (Name.ofBlock name)
  let (type, it) ← it.expect (hasType tlv.ResponseType)
    (ascii "not the ndn::ndns::tlv::ReponseType type")
  let (fresh, it) ← it.expect (hasType tlv.ResponseFressness)
    (ascii "not the ndn::ndns::tlv::ReponseFreshness type")
  let freshness ← ofOption [] (Tlv.readNonNegativeInteger fresh.value)
  let (blob, _) ← it.expect (hasType tlv.ResponseContentBlob)
    (ascii "not the ndn::ndns::tlv::ResponseContentBlob type")
  return {
    queryName := queryName
    responseType := toResponseType type.value
    freshness := milliseconds freshness
    blob := blob }

namespace Response

/-- The loop of `Response::wireDecode`, with `n` RRs to go. -/
def decodeRrsIt (P : NameParser) (r : Response) :
    Nat → Iterator Tlv.Block → Walk Bytes Response
  | 0, _ => return r
  | n + 1, it2 => do
      let (b, it2) ← it2.expect (hasType tlv.RRData)
        (ascii "not the ndn::ndns::tlv::RRData type")
      let rr ← RR.init.wireDecodeIt P (some b)
      decodeRrsIt P
        (r.addRr ((rr.setLabel r.rrLabel).setType r.rrType)) n it2

/-- `Response::wireDecode`; `none` is a block without a wire. -/
def wireDecodeIt (P : NameParser) (r : Response) :
    Option Tlv.Block → Walk Bytes Response
  | none => thrown noWire
  | some wire => do
      let head ← Head.wireDecodeIt wire
      let elements ← ofOption [] head.blob.parse
      let (number, it2) ← (Iterator.start elements).expectTelling
        (hasType tlv.ResponseNumberOfRRData)
        (fun b => ascii
          "not the ndn::ndns::tlv::ResponseNumberOfRRData type. but its: " ++
            intText b.type)
      let rrlen ← ofOption [] (Tlv.readNonNegativeInteger number.value)
      decodeRrsIt P { r with
        wire := some wire
        queryName := head.queryName
        responseType := head.responseType
        freshness := head.freshness } rrlen it2

end Response

/-- `ResponseUpdate::wireDecode`; `none` is a block without a wire. -/
def ResponseUpdate.wireDecodeIt (r : ResponseUpdate) :
    Option Tlv.Block → Walk Bytes ResponseUpdate
  | none => thrown noWire
  | some wire => do
      let head ← Head.wireDecodeIt wire
      let elements ← ofOption [] head.blob.parse
      let (result, _) ← (Iterator.start elements).expectTelling
        (hasType tlv.UpdateResult)
        (fun b => ascii
          "not the ndn::ndns::tlv::UpdateResult type. but its: " ++
            intText b.type)
      return { r with
        wire := some wire
        queryName := head.queryName
        responseType := head.responseType
        freshness := head.freshness
        result := result.value }

section Agreement

variable {β : Type} {type : Nat} {what : Bytes} {it : Iterator Tlv.Block}

/-- A checked step takes the element off that `Tlv.expect` takes off. -/
theorem toOption_expect
    {k : Tlv.Block × Iterator Tlv.Block → Walk Bytes β}
    {g : Tlv.Block × List Tlv.Block → Option β}
    {es : List Tlv.Block} (hes : it.rest = es)
    (h : ∀ b rest, it.next.rest = rest →
      (k (b, it.next)).toOption = g (b, rest)) :
    (it.expect (hasType type) what >>= k).toOption =
      (Tlv.expect type es).bind g := by
  rw [toOption_bind, Iterator.expect_eq, hes]
  cases es with
  | nil => rfl
  | cons b es =>
      have hnext : it.next.rest = es := by
        rw [it.rest_next, hes, List.tail_cons]
      by_cases hb : b.type = type
      · simp [hasType, hb, Tlv.expect, Except.toOption, ← h b es hnext]
      · simp [hasType, hb, Tlv.expect, Except.toOption, thrown]

theorem toOption_expectTelling
    {tell : Tlv.Block → Bytes}
    {k : Tlv.Block × Iterator Tlv.Block → Walk Bytes β}
    {g : Tlv.Block × List Tlv.Block → Option β}
    {es : List Tlv.Block} (hes : it.rest = es)
    (h : ∀ b rest, it.next.rest = rest →
      (k (b, it.next)).toOption = g (b, rest)) :
    (it.expectTelling (hasType type) tell >>= k).toOption =
      (Tlv.expect type es).bind g := by
  rw [toOption_bind, Iterator.expectTelling_eq, hes]
  cases es with
  | nil => rfl
  | cons b es =>
      have hnext : it.next.rest = es := by
        rw [it.rest_next, hes, List.tail_cons]
      by_cases hb : b.type = type
      · simp [hasType, hb, Tlv.expect, Except.toOption, ← h b es hnext]
      · simp [hasType, hb, Tlv.expect, Except.toOption, thrown]

theorem toOption_ofOption_bind
    {α : Type} {o : Option α} {k : α → Walk Bytes β} {g : α → Option β}
    (h : ∀ a, (k a).toOption = g a) :
    (ofOption what o >>= k).toOption = o.bind g := by
  rw [toOption_bind, toOption_ofOption]
  cases o with
  | none => rfl
  | some a => exact h a

/-- With iterators an RR is decoded as it is on lists. -/
theorem RR.wireDecodeIt_toOption (P : NameParser) (rr : RR) (b : Tlv.Block) :
    (rr.wireDecodeIt P (some b)).toOption = rr.wireDecode P b := by
  unfold wireDecodeIt wireDecode
  by_cases htype : b.type ≠ tlv.RRData
  · rw [if_pos htype]
    simp [htype, thrown, Except.toOption]
  · rw [if_neg htype]
    simp only [if_neg htype]
    refine toOption_ofOption_bind (fun elements => ?_)
    refine toOption_expect (Iterator.rest_start elements)
      (fun sub1 it₁ h₁ => ?_)
    refine toOption_ofOption_bind (fun id => ?_)
    refine toOption_expect h₁ (fun zone it₂ h₂ => ?_)
    refine toOption_ofOption_bind (fun name => ?_)
    refine toOption_expect h₂ (fun record it₃ h₃ => ?_)
    refine toOption_expect h₃ (fun action it₄ h₄ => ?_)
    rfl

theorem Response.decodeRrsIt_toOption
    (P : NameParser) (r : Response) (n : Nat) {es : List Tlv.Block}
    (hes : it.rest = es) :
    (decodeRrsIt P r n it).toOption = decodeRrs P r n es := by
  induction n generalizing r it es with
  | zero => rfl
  | succ n ih =>
      unfold decodeRrsIt decodeRrs
      refine toOption_expect hes (fun b rest hrest => ?_)
      rw [toOption_bind, RR.wireDecodeIt_toOption]
      refine congrArg (Option.bind _) (funext fun rr => ?_)
      exact ih _ hrest

/-- The same steps in a part of a decoder. -/
theorem toOption_expect_part
    {α : Type} {k : Tlv.Block × Iterator Tlv.Block → Walk Bytes α}
    {k' : α → Walk Bytes β} {g : Tlv.Block × List Tlv.Block → Option β}
    {es : List Tlv.Block} (hes : it.rest = es)
    (h : ∀ b rest, it.next.rest = rest →
      (k (b, it.next) >>= k').toOption = g (b, rest)) :
    (it.expect (hasType type) what >>= k >>= k').toOption =
      (Tlv.expect type es).bind g := by
  rw [bind_assoc]
  exact toOption_expect hes h

theorem toOption_ofOption_part
    {α γ : Type} {o : Option α} {k : α → Walk Bytes γ}
    {k' : γ → Walk Bytes β} {g : α → Option β}
    (h : ∀ a, (k a >>= k').toOption = g a) :
    (ofOption what o >>= k >>= k').toOption = o.bind g := by
  rw [bind_assoc]
  exact toOption_ofOption_bind h

/-- With iterators a response is decoded as it is on lists. -/
theorem Response.wireDecodeIt_toOption
    (P : NameParser) (r : Response) (wire : Tlv.Block) :
    (r.wireDecodeIt P (some wire)).toOption = r.wireDecode P wire := by
  unfold wireDecodeIt wireDecode Head.wireDecodeIt
  refine toOption_ofOption_part (fun elements => ?_)
  refine toOption_expect_part (Iterator.rest_start elements)
    (fun name it₁ h₁ => ?_)
  refine toOption_ofOption_part (fun queryName => ?_)
  refine toOption_expect_part h₁ (fun type it₂ h₂ => ?_)
  refine toOption_expect_part h₂ (fun fresh it₃ h₃ => ?_)
  refine toOption_ofOption_part (fun freshness => ?_)
  refine toOption_expect_part h₃ (fun blob it₄ h₄ => ?_)
  rw [pure_bind]
  refine toOption_ofOption_bind (fun elements => ?_)
  refine toOption_expectTelling (Iterator.rest_start elements)
    (fun number it₅ h₅ => ?_)
  refine toOption_ofOption_bind (fun rrlen => ?_)
  exact decodeRrsIt_toOption P _ rrlen h₅

/-- With iterators a response to an update is decoded as it is on lists. -/
theorem ResponseUpdate.wireDecodeIt_toOption
    (r : ResponseUpdate) (wire : Tlv.Block) :
    (r.wireDecodeIt (some wire)).toOption = r.wireDecode wire := by
  unfold wireDecodeIt wireDecode Head.wireDecodeIt
  refine toOption_ofOption_part (fun elements => ?_)
  refine toOption_expect_part (Iterator.rest_start elements)
    (fun name it₁ h₁ => ?_)
  refine toOption_ofOption_part (fun queryName => ?_)
  refine toOption_expect_part h₁ (fun type it₂ h₂ => ?_)
  refine toOption_expect_part h₂ (fun fresh it₃ h₃ => ?_)
  refine toOption_ofOption_part (fun freshness => ?_)
  refine toOption_expect_part h₃ (fun blob it₄ h₄ => ?_)
  rw [pure_bind]
  refine toOption_ofOption_bind (fun elements => ?_)
  refine toOption_expectTelling (Iterator.rest_start elements)
    (fun result it₅ h₅ => ?_)
  rfl

end Agreement

section Bounds

/-- An RR is decoded without leaving the list of its elements. -/
theorem RR.wireDecodeIt_inBounds
    (P : NameParser) (rr : RR) (wire : Option Tlv.Block) :
    InBounds (rr.wireDecodeIt P wire) := by
  cases wire with
  | none => exact inBounds_thrown _
  | some wire =>
      unfold wireDecodeIt
      dsimp only
      by_cases htype : wire.type ≠ tlv.RRData
      · rw [if_pos htype]
        exact inBounds_thrown _
      · rw [if_neg htype]
        refine (inBounds_ofOption _ _).bind (fun elements _ => ?_)
        refine (Iterator.expect_inBounds _ _ _).bind (fun sub1 _ => ?_)
        refine (inBounds_ofOption _ _).bind (fun id _ => ?_)
        refine (Iterator.expect_inBounds _ _ _).bind (fun zone _ => ?_)
        refine (inBounds_ofOption _ _).bind (fun name _ => ?_)
        refine (Iterator.expect_inBounds _ _ _).bind (fun record _ => ?_)
        refine (Iterator.expect_inBounds _ _ _).bind (fun action _ => ?_)
        exact inBounds_ok _

theorem Head.wireDecodeIt_inBounds (wire : Tlv.Block) :
    InBounds (Head.wireDecodeIt wire) := by
  unfold wireDecodeIt
  refine (inBounds_ofOption _ _).bind (fun elements _ => ?_)
  refine (Iterator.expect_inBounds _ _ _).bind (fun name _ => ?_)
  refine (inBounds_ofOption _ _).bind (fun queryName _ => ?_)
  refine (Iterator.expect_inBounds _ _ _).bind (fun type _ => ?_)
  refine (Iterator.expect_inBounds _ _ _).bind (fun fresh _ => ?_)
  refine (inBounds_ofOption _ _).bind (fun freshness _ => ?_)
  refine (Iterator.expect_inBounds _ _ _).bind (fun blob _ => ?_)
  exact inBounds_ok _

/-- However many RRs are declared, the loop compares with the end each time. -/
theorem Response.decodeRrsIt_inBounds
    (P : NameParser) (r : Response) (n : Nat) (it : Iterator Tlv.Block) :
    InBounds (decodeRrsIt P r n it) := by
  induction n generalizing r it with
  | zero => exact inBounds_ok _
  | succ n ih =>
      unfold decodeRrsIt
      refine (Iterator.expect_inBounds _ _ _).bind (fun b _ => ?_)
      refine (RR.wireDecodeIt_inBounds P _ _).bind (fun rr _ => ?_)
      exact ih _ _

/-- The elements in front of a content blob can be decoded. -/
def HasBlob (wire blob : Tlv.Block) : Prop :=
  ∃ name type fresh rest,
    wire.parse = some (name :: type :: fresh :: blob :: rest) ∧
      name.type = tlv.Name ∧ (Name.ofBlock name).isSome = true ∧
      type.type = tlv.ResponseType ∧
      fresh.type = tlv.ResponseFressness ∧
      (Tlv.readNonNegativeInteger fresh.value).isSome = true ∧
      blob.type = tlv.ResponseContentBlob

/-- Everything in front of the content blob can be decoded, and the blob is
empty. -/
def EmptyBlob (wire : Tlv.Block) : Prop :=
  ∃ blob, HasBlob wire blob ∧ blob.value = []

theorem hasBlob_of_wireDecodeIt
    {wire : Tlv.Block} {head : Head} (h : Head.wireDecodeIt wire = .ok head) :
    HasBlob wire head.blob := by
  unfold Head.wireDecodeIt at h
  simp only [bind_eq_ok_iff, ofOption_eq_ok_iff,
    Iterator.expect_eq_ok_iff] at h
  obtain ⟨elements, hparse, ⟨name, it₁⟩, ⟨hname, hrest₁, -⟩, queryName,
    hqueryName, ⟨type, it₂⟩, ⟨htype, hrest₂, -⟩, ⟨fresh, it₃⟩,
    ⟨hfresh, hrest₃, -⟩, freshness, hfreshness, ⟨blob, it₄⟩,
    ⟨hblob, hrest₄, -⟩, h⟩ := h
  obtain rfl := Except.ok.inj h
  simp only [hasType, beq_iff_eq] at hname htype hfresh hblob
  refine ⟨name, type, fresh, it₄.rest, ?_, hname,
    Option.isSome_of_eq_some hqueryName, htype, hfresh,
    Option.isSome_of_eq_some hfreshness, hblob⟩
  rw [Iterator.rest_start] at hrest₁
  rw [hparse, hrest₁, hrest₂, hrest₃, hrest₄]

theorem exists_head {wire blob : Tlv.Block} (h : HasBlob wire blob) :
    ∃ head, Head.wireDecodeIt wire = .ok head ∧ head.blob = blob := by
  obtain ⟨name, type, fresh, rest, hparse, hname, hqueryName, htype, hfresh,
    hfreshness, hblob⟩ := h
  obtain ⟨queryName, hqueryName⟩ := Option.isSome_iff_exists.mp hqueryName
  obtain ⟨freshness, hfreshness⟩ := Option.isSome_iff_exists.mp hfreshness
  let it := Iterator.start (name :: type :: fresh :: blob :: rest)
  refine ⟨⟨queryName, toResponseType type.value, milliseconds freshness,
    blob⟩, ?_, rfl⟩
  unfold Head.wireDecodeIt
  simp only [bind_eq_ok_iff, ofOption_eq_ok_iff, Iterator.expect_eq_ok_iff]
  exact ⟨_, hparse, (name, it.next), ⟨by simp [hasType, hname], rfl, rfl⟩,
    queryName, hqueryName, (type, it.next.next),
    ⟨by simp [hasType, htype], rfl, rfl⟩, (fresh, it.next.next.next),
    ⟨by simp [hasType, hfresh], rfl, rfl⟩, freshness, hfreshness,
    (blob, it.next.next.next.next), ⟨by simp [hasType, hblob], rfl, rfl⟩,
    rfl⟩

/-- A message about the first element of a blob needs one. -/
theorem blob_inBounds_iff
    {β : Type} {blob : Tlv.Block} {p : Tlv.Block → Bool}
    {tell : Tlv.Block → Bytes}
    {k : Tlv.Block × Iterator Tlv.Block → Walk Bytes β}
    (hk : ∀ x, InBounds (k x)) :
    InBounds (ofOption [] blob.parse >>= fun elements =>
        (Iterator.start elements).expectTelling p tell >>= k) ↔
      blob.value ≠ [] := by
  have hstep (elements : List Tlv.Block) :
      InBounds ((Iterator.start elements).expectTelling p tell >>= k) ↔
        elements ≠ [] := by
    rw [inBounds_bind_iff, Iterator.expectTelling_inBounds_iff,
      Iterator.rest_start]
    exact and_iff_left (fun x _ => hk x)
  rw [inBounds_bind_iff_of_inBounds (inBounds_ofOption _ _), Ne,
    ← Tlv.Block.parse_eq_nil_iff]
  constructor
  · intro h hparse
    exact (hstep []).mp (h [] ((ofOption_eq_ok_iff _ _ _).mpr hparse)) rfl
  · intro h elements hparse
    rw [hstep]
    rintro rfl
    exact h ((ofOption_eq_ok_iff _ _ _).mp hparse)

/-- Behind the common part, a decoder is in bounds when it is so on the blob. -/
theorem head_inBounds_iff
    {β : Type} {wire : Tlv.Block} {k : Head → Walk Bytes β}
    (hk : ∀ head, InBounds (k head) ↔ head.blob.value ≠ []) :
    InBounds (Head.wireDecodeIt wire >>= k) ↔ ¬ EmptyBlob wire := by
  rw [inBounds_bind_iff_of_inBounds (Head.wireDecodeIt_inBounds wire)]
  constructor
  · rintro h ⟨blob, hblob, hempty⟩
    obtain ⟨head, hhead, rfl⟩ := exists_head hblob
    exact (hk head).mp (h head hhead) hempty
  · intro h head hhead
    rw [hk]
    intro hempty
    exact h ⟨head.blob, hasBlob_of_wireDecodeIt hhead, hempty⟩

/-- A response reads behind its elements exactly at an empty blob. -/
theorem Response.wireDecodeIt_inBounds_iff
    (P : NameParser) (r : Response) (wire : Tlv.Block) :
    InBounds (r.wireDecodeIt P (some wire)) ↔ ¬ EmptyBlob wire := by
  unfold wireDecodeIt
  refine head_inBounds_iff (fun head => blob_inBounds_iff (fun x => ?_))
  refine (inBounds_ofOption _ _).bind (fun rrlen _ => ?_)
  exact decodeRrsIt_inBounds P _ rrlen x.2

/-- A response to an update does so, too. -/
theorem ResponseUpdate.wireDecodeIt_inBounds_iff
    (r : ResponseUpdate) (wire : Tlv.Block) :
    InBounds (r.wireDecodeIt (some wire)) ↔ ¬ EmptyBlob wire := by
  unfold wireDecodeIt
  exact head_inBounds_iff (fun head =>
    blob_inBounds_iff (fun x => inBounds_ok _))

end Bounds

section Counts

variable {P : NameParser}

/-- The RR is the decoding of the element, with label and type of the
response. -/
def DecodedAs (P : NameParser) (label : Name) (type : RRType)
    (b : Tlv.Block) (rr : RR) : Prop :=
  b.type = tlv.RRData ∧ ∃ decoded,
    RR.init.wireDecodeIt P (some b) = .ok decoded ∧
      rr = (decoded.setLabel label).setType type

/-- The loop decodes one RR an element. -/
theorem Response.decodeRrsIt_rrs
    {r r' : Response} {n : Nat} {it : Iterator Tlv.Block}
    (h : decodeRrsIt P r n it = .ok r') :
    ∃ rrs, r' = { r with rrs := r.rrs ++ rrs } ∧ rrs.length = n ∧
      List.Forall₂ (DecodedAs P r.rrLabel r.rrType) (it.rest.take n)
        rrs := by
  induction n generalizing r it with
  | zero =>
      obtain rfl := Except.ok.inj h
      exact ⟨[], by simp, rfl, by simp⟩
  | succ n ih =>
      unfold decodeRrsIt at h
      simp only [bind_eq_ok_iff, Iterator.expect_eq_ok_iff] at h
      obtain ⟨⟨b, it'⟩, ⟨hb, hrest, -⟩, decoded, hdecoded, h⟩ := h
      obtain ⟨rrs, rfl, hlength, hall⟩ := ih h
      refine ⟨(decoded.setLabel r.rrLabel).setType r.rrType :: rrs,
        by simp [addRr], by simp [hlength], ?_⟩
      rw [hrest, List.take_succ_cons]
      refine List.Forall₂.cons ⟨?_, decoded, hdecoded, rfl⟩ hall
      simpa [hasType] using hb

/-- The response holds the decodings of the leading elements of its blob, as many
as the blob declares. -/
def HoldsDeclared (P : NameParser) (wire : Tlv.Block) (r : Response) : Prop :=
  ∃ blob number elements rrlen, HasBlob wire blob ∧
    blob.parse = some (number :: elements) ∧
    number.type = tlv.ResponseNumberOfRRData ∧
    Tlv.readNonNegativeInteger number.value = some rrlen ∧
    r.rrs.length = rrlen ∧
    List.Forall₂ (DecodedAs P r.rrLabel r.rrType) (elements.take rrlen)
      r.rrs

/-- A fresh response holds what its block declares. -/
theorem Response.wireDecodeIt_rrs
    {r : Response} {wire : Tlv.Block}
    (h : init.wireDecodeIt P (some wire) = .ok r) :
    HoldsDeclared P wire r := by
  unfold wireDecodeIt at h
  simp only [bind_eq_ok_iff, ofOption_eq_ok_iff,
    Iterator.expectTelling_eq_ok_iff _ _ ([] : Bytes),
    Iterator.expect_eq_ok_iff, Iterator.rest_start] at h
  obtain ⟨head, hhead, elements, hparse, ⟨number, it⟩,
    ⟨hnumber, hrest, -⟩, rrlen, hrrlen, h⟩ := h
  obtain ⟨rrs, rfl, hlength, hall⟩ := decodeRrsIt_rrs h
  refine ⟨head.blob, number, it.rest, rrlen, hasBlob_of_wireDecodeIt hhead,
    ?_, ?_, hrrlen, ?_, ?_⟩
  · rw [hparse, hrest]
  · simpa [hasType] using hnumber
  · simpa [init] using hlength
  · simpa [init] using hall

/-- A block is decoded within bounds into each kind of object, and into as many
RRs as it declares. -/
structure SafelyDecoded
    (P : NameParser) (r : Response) (u : ResponseUpdate) (rr : RR)
    (wire : Option Tlv.Block) : Prop where
  response : InBounds (r.wireDecodeIt P wire)
  update : InBounds (u.wireDecodeIt wire)
  rr : InBounds (rr.wireDecodeIt P wire)
  declared : ∀ b r', wire = some b →
    Response.init.wireDecodeIt P wire = .ok r' → HoldsDeclared P b r'

/-- The decoders are safe on every block but those with an empty content blob
behind elements that can be decoded. -/
theorem safelyDecoded_iff
    (P : NameParser) (r : Response) (u : ResponseUpdate) (rr : RR)
    (wire : Option Tlv.Block) :
    SafelyDecoded P r u rr wire ↔ ∀ b, wire = some b → ¬ EmptyBlob b := by
  constructor
  · rintro h b rfl
    exact (Response.wireDecodeIt_inBounds_iff P r b).mp h.response
  · intro h
    refine ⟨?_, ?_, RR.wireDecodeIt_inBounds P rr wire, ?_⟩
    · cases wire with
      | none => exact inBounds_thrown _
      | some b =>
          exact (Response.wireDecodeIt_inBounds_iff P r b).mpr (h b rfl)
    · cases wire with
      | none => exact inBounds_thrown _
      | some b =>
          exact (ResponseUpdate.wireDecodeIt_inBounds_iff u b).mpr (h b rfl)
    · rintro b r' rfl hdecode
      exact Response.wireDecodeIt_rrs hdecode

/-- A response whose content blob has no elements. -/
def hollowWire : Tlv.Block :=
  ⟨tlv.Content, Tlv.flatten [⟨tlv.Name, []⟩,
    ⟨tlv.ResponseType, ascii "NDNS-Resp"⟩, ⟨tlv.ResponseFressness, [0]⟩,
    ⟨tlv.ResponseContentBlob, []⟩]⟩

/-- Both decoders read behind the elements of the blob. -/
theorem hollowWire_out_of_bounds :
    Response.init.wireDecodeIt uriParser (some hollowWire) =
        .error .outOfBounds ∧
      ResponseUpdate.init.wireDecodeIt (some hollowWire) =
        .error .outOfBounds :=
  ⟨rfl, rfl⟩

end Counts

end Ndns
