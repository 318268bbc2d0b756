import Ndns.Name

/-!
# Enumerations of the protocol

The enumerations of `ndns-enum.hpp` with their texts.  Every `toString` has a
reader; a reader maps any other text to the `UNKNOWN` value of its enumeration.
The readers that the server and the update tool rely on give back the value
that a text was written for.
-/

namespace Ndns

inductive RRType where
  | NS
  | TXT
  | FH
  | ID_CERT
  | DYNDNS_UPDATE
  | A
  | AAAA
  | UNKNOWN
deriving DecidableEq, Repr

namespace RRType

def toString : RRType → Bytes
  | NS => ascii "NS"
  | TXT => ascii "TXT"
  | FH => ascii "FH"
  | A => ascii "A"
  | AAAA => ascii "AAAA"
  | ID_CERT => ascii "ID-CERT"
  | DYNDNS_UPDATE => ascii "DYNDNSUPDATE"
  | UNKNOWN => ascii "UNKNOWN"

end RRType

def toRRType (str : Bytes) : RRType :=
  if str = ascii "NS" then .NS
  else if str = ascii "TXT" then .TXT
  else if str = ascii "FH" then .FH
  else if str = ascii "A" then .A
  else if str = ascii "AAAA" then .AAAA
  else if str = ascii "ID-CERT" then .ID_CERT
  else if str = ascii "DYNDNSUPDATE" then .DYNDNS_UPDATE
  else .UNKNOWN

inductive ResponseType where
  | NDNS_Resp
  | NDNS_Nack
  | NDNS_Auth
  | DyNDNS_OK
  | DyNDNS_FAIL
  | UNKNOWN
deriving DecidableEq, Repr

namespace ResponseType

def toString : ResponseType → Bytes
  | NDNS_Resp => ascii "NDNS-Resp"
  | NDNS_Nack => ascii "NDNS-Nack"
  | NDNS_Auth => ascii "NDNS-Auth"
  | DyNDNS_OK => ascii "DyNDNS-OK"
  | DyNDNS_FAIL => ascii "DyNDNS-Fail"
  | UNKNOWN => ascii "UNKNOWN"

end ResponseType

def toResponseType (str : Bytes) : ResponseType :=
  if str = ascii "NDNS-Resp" then .NDNS_Resp
  else if str = ascii "NDNS-Nack" then .NDNS_Nack
  else if str = ascii "NDNS-Auth" then .NDNS_Auth
  else if str = ascii "DyNDNS-OK" then .DyNDNS_OK
  else if str = ascii "DyNDNS-Fail" then .DyNDNS_FAIL
  else .UNKNOWN

inductive QueryType where
  | DNS
  | DNS_R
  | KEY
  | UNKNOWN
deriving DecidableEq, Repr

namespace QueryType

def toString : QueryType → Bytes
  | DNS => ascii "DNS"
  | DNS_R => ascii "DNS-R"
  | KEY => ascii "KEY"
  | UNKNOWN => ascii "UNKNOWN"

end QueryType

def toQueryType (str : Bytes) : QueryType :=
  if str = ascii "DNS" then .DNS
  else if str = ascii "DNS-R" then .DNS_R
  else if str = ascii "KEY" then .KEY
  else .UNKNOWN

/-- The steps of a resolution. -/
inductive QuerySteps where
  | NSQuery
  | NackNS
  | RRQuery
  | NackRR
  | FHQuery
  | AnswerStub
  | Abort
  | FinishedSuccessfully
  | UNKNOWN
deriving DecidableEq, Repr

inductive UpdateAction where
  /-- The value of a record that is not part of an update. -/
  | NONE
  | ADD
  | REMOVE
  | REPLACE_ALL
  | REPLACE
  | UNKNOWN
deriving DecidableEq, Repr

namespace UpdateAction

def toString : UpdateAction → Bytes
  | NONE => ascii "NONE"
  | ADD => ascii "ADD"
  | REMOVE => ascii "REMOVE"
  | REPLACE => ascii "REPLACE"
  | REPLACE_ALL => ascii "REPLACE-ALL"
  | UNKNOWN => ascii "UNKNOWN"

end UpdateAction

def toUpdateAction (str : Bytes) : UpdateAction :=
  if str = ascii "NONE" then .NONE
  else if str = ascii "ADD" then .ADD
  else if str = ascii "REMOVE" then .REMOVE
  else if str = ascii "REPLACE-ALL" then .REPLACE_ALL
  else if str = ascii "REPLACE" then .REPLACE
  else if str = ascii "UNKNOWN" then .UNKNOWN
  else .UNKNOWN

@[simp] theorem toRRType_toString (t : RRType) :
    toRRType t.toString = t := by
  cases t <;> decide

@[simp] theorem toResponseType_toString (t : ResponseType) :
    toResponseType t.toString = t := by
  cases t <;> decide

@[simp] theorem toQueryType_toString (t : QueryType) :
    toQueryType t.toString = t := by
  cases t <;> decide

@[simp] theorem toUpdateAction_toString (a : UpdateAction) :
    toUpdateAction a.toString = a := by
  cases a <;> decide

theorem RRType.toString_injective {t u : RRType}
    (h : t.toString = u.toString) :
    t = u := by
  rw [← toRRType_toString t, h, toRRType_toString]

end Ndns
