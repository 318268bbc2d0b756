import Mathlib.Data.List.TakeWhile
import Mathlib.Data.Nat.Digits.Lemmas
import Ndns.Lib.SqlText
import Ndns.Rr

/-!
# SQL statements

The texts that `zone-mgr.cpp`, `rrset-mgr.cpp`, `rr-mgr.cpp` and `query-mgr.cpp`
hand to SQLite, each with the shape it is meant to have.  Names are pasted in as
URIs, which hold neither quotes nor NULs; the data of a record are pasted in as
they are.

**Results.**
* `raw_shape`: a text is its shape with the values pasted between quotes;
* `Clean.lexes`, `lexes_iff`: a text is lexed as the statement it is meant to be
  exactly when data and class hold neither a quote nor a NUL.
-/

namespace Ndns

/-- `std::to_string` of a number. -/
def decimal (n : Nat) : Bytes :=
  if n = 0 then [48]
  else (Nat.digits 10 n).reverse.map (fun d => UInt8.ofNat (48 + d))

def isDigit (b : UInt8) : Bool :=
  48 ≤ b && b ≤ 57

/-- The number of the digits in front of a text. -/
def digitsValue (s : Bytes) : Nat :=
  Nat.ofDigits 10
    ((s.takeWhile isDigit).reverse.map (fun b => b.toNat - 48))

/-- `std::atoi` of a text without sign, kept in 32 bits: what a `long` does not hold
becomes the largest one, and the upper half of it is lost. -/
def atoi (s : Bytes) : Nat :=
  min (digitsValue s) (2 ^ 63 - 1) % 2 ^ 32

section Decimal

theorem digit_facts {d : Nat} (h : d < 10) :
    isDigit (UInt8.ofNat (48 + d)) = true ∧
      (UInt8.ofNat (48 + d)).toNat - 48 = d ∧
      Sql.plainByte (UInt8.ofNat (48 + d)) = true := by
  revert d
  decide

theorem exists_digit_of_mem
    {n : Nat} {b : UInt8} (h : b ∈ decimal n) :
    ∃ d < 10, b = UInt8.ofNat (48 + d) := by
  unfold decimal at h
  split at h
  · exact ⟨0, by decide, by simpa using h⟩
  · obtain ⟨d, hd, rfl⟩ := List.mem_map.mp h
    exact ⟨d, Nat.digits_lt_base (by decide) (List.mem_reverse.mp hd), rfl⟩

theorem digitsValue_decimal (n : Nat) : digitsValue (decimal n) = n := by
  have hdigits : (decimal n).takeWhile isDigit = decimal n := by
    rw [List.takeWhile_eq_self_iff]
    intro b hb
    obtain ⟨d, hd, rfl⟩ := exists_digit_of_mem hb
    exact (digit_facts hd).1
  unfold digitsValue
  rw [hdigits]
  unfold decimal
  split
  · next h =>
      subst h
      rfl
  · have hmap :
        (Nat.digits 10 n).map
            ((fun b : UInt8 => b.toNat - 48) ∘
              fun d => UInt8.ofNat (48 + d)) =
          Nat.digits 10 n := by
      refine (List.map_congr_left (fun d hd => ?_)).trans (List.map_id _)
      exact (digit_facts (Nat.digits_lt_base (by decide) hd)).2.1
    rw [← List.map_reverse, List.reverse_reverse, List.map_map, hmap,
      Nat.ofDigits_digits]

/-- A number of 32 bits is read back from its text. -/
theorem atoi_decimal {n : Nat} (h : n < 2 ^ 32) : atoi (decimal n) = n := by
  have hlong : n ≤ 2 ^ 63 - 1 := by omega
  rw [atoi, digitsValue_decimal, min_eq_left hlong, Nat.mod_eq_of_lt h]

theorem decimal_ne_nil (n : Nat) : decimal n ≠ [] := by
  unfold decimal
  split
  · simp
  · next h =>
      simpa [Nat.digits_eq_nil_iff_eq_zero] using h

theorem plain_decimal (n : Nat) :
    ∀ b ∈ decimal n, Sql.plainByte b = true := by
  intro b hb
  obtain ⟨d, hd, rfl⟩ := exists_digit_of_mem hb
  exact (digit_facts hd).2.2

end Decimal

/-- The statements that the managers build. -/
inductive Stmt where
  /-- `ZoneMgr::lookupId` -/
  | selectZoneId (name : Name)
  /-- `ZoneMgr::insert` -/
  | insertZone (name : Name)
  /-- `RRSetMgr::lookupIds` -/
  | selectRrsetId (zoneId : Nat) (label : Name) (type : RRType)
  /-- `RRSetMgr::insert` -/
  | insertRrset (zoneId : Nat) (label : Name) (clazz : Bytes)
      (type : RRType)
  /-- `RRSetMgr::removeRelatedRRs` -/
  | deleteRrs (rrsetId : Nat)
  /-- `RRMgr::lookupIds` -/
  | selectRrId (rrsetId : Nat) (rrData : Bytes)
  /-- `RRMgr::insert` -/
  | insertRr (rrsetId ttl : Nat) (rrData : Bytes)
  /-- `RRMgr::remove` -/
  | deleteRr (id : Nat)
  /-- `QueryMgr::lookup` -/
  | selectRrs (rrsetId : Nat)
  /-- `QueryMgr::hasAuth` -/
  | countAuth (zoneId : Nat) (type : RRType) (label : Name)
deriving DecidableEq

namespace Stmt

def quote : Bytes := [39]

/-- The text of a statement. -/
def text : Stmt → Bytes
  | selectZoneId name =>
      ascii "SELECT id FROM zones WHERE name=" ++ quote ++ name.toUri ++
        quote
  | insertZone name =>
      ascii "INSERT INTO zones (name) VALUES (" ++ quote ++ name.toUri ++
        quote ++ ascii ")"
  | selectRrsetId zoneId label type =>
      ascii "SELECT id FROM rrsets WHERE zone_id=" ++ decimal zoneId ++
        ascii " AND label=" ++ quote ++ label.toUri ++ quote ++
        ascii " AND type=" ++ quote ++ type.toString ++ quote
  | insertRrset zoneId label clazz type =>
      ascii "INSERT INTO rrsets (zone_id, label, class, type, ndndata) VALUES" ++
        ascii " (" ++ decimal zoneId ++ ascii ", " ++
        quote ++ label.toUri ++ quote ++ ascii ", " ++
        quote ++ clazz ++ quote ++ ascii ", " ++
        quote ++ type.toString ++ quote ++ ascii ", " ++
        ascii "NULL" ++ ascii ")"
  | deleteRrs rrsetId =>
      ascii "DELETE FROM rrs where rrset_id=" ++ decimal rrsetId
  | selectRrId rrsetId rrData =>
      ascii "SELECT id FROM rrs WHERE rrset_id=" ++ decimal rrsetId ++
        ascii " AND rrdata=" ++ quote ++ rrData ++ quote
  | insertRr rrsetId ttl rrData =>
      ascii "INSERT INTO rrs(rrset_id, ttl, rrdata) VALUES (" ++
        decimal rrsetId ++ ascii ", " ++ decimal ttl ++ ascii ", " ++
        quote ++ rrData ++ quote ++ ascii ")"
  | deleteRr id =>
      ascii "DELETE from rrs WHERE id=" ++ decimal id
  | selectRrs rrsetId =>
      ascii "SELECT id, ttl, rrdata FROM rrs WHERE rrset_id=" ++
        decimal rrsetId ++ ascii " ORDER BY id"
  | countAuth zoneId type label =>
      ascii "SELECT count(*) FROM rrs INNER JOIN rrsets ON " ++
        ascii "rrs.rrset_id=rrsets.id" ++
        ascii " WHERE rrsets.zone_id=" ++ decimal zoneId ++ ascii " AND " ++
        ascii "rrsets.type=" ++ quote ++ type.toString ++ quote ++
        ascii " AND " ++ ascii "rrsets.label LIKE " ++ quote ++
        label.toUri ++ ascii "/%" ++ quote

/-- The code and the literals that a statement is meant to consist of. -/
def shape : Stmt → List Sql.Piece
  | selectZoneId name =>
      [.code (ascii "SELECT id FROM zones WHERE name="),
        .literal name.toUri]
  | insertZone name =>
      [.code (ascii "INSERT INTO zones (name) VALUES ("),
        .literal name.toUri, .code (ascii ")")]
  | selectRrsetId zoneId label type =>
      [.code (ascii "SELECT id FROM rrsets WHERE zone_id=" ++
          decimal zoneId ++ ascii " AND label="),
        .literal label.toUri, .code (ascii " AND type="),
        .literal type.toString]
  | insertRrset zoneId label clazz type =>
      [.code
          (ascii "INSERT INTO rrsets (zone_id, label, class, type, ndndata) VALUES" ++
            ascii " (" ++ decimal zoneId ++ ascii ", "),
        .literal label.toUri, .code (ascii ", "), .literal clazz,
        .code (ascii ", "), .literal type.toString,
        .code (ascii ", " ++ ascii "NULL" ++ ascii ")")]
  | deleteRrs rrsetId =>
      [.code (ascii "DELETE FROM rrs where rrset_id=" ++ decimal rrsetId)]
  | selectRrId rrsetId rrData =>
      [.code (ascii "SELECT id FROM rrs WHERE rrset_id=" ++
          decimal rrsetId ++ ascii " AND rrdata="),
        .literal rrData]
  | insertRr rrsetId ttl rrData =>
      [.code (ascii "INSERT INTO rrs(rrset_id, ttl, rrdata) VALUES (" ++
          decimal rrsetId ++ ascii ", " ++ decimal ttl ++ ascii ", "),
        .literal rrData, .code (ascii ")")]
  | deleteRr id =>
      [.code (ascii "DELETE from rrs WHERE id=" ++ decimal id)]
  | selectRrs rrsetId =>
      [.code (ascii "SELECT id, ttl, rrdata FROM rrs WHERE rrset_id=" ++
        decimal rrsetId ++ ascii " ORDER BY id")]
  | countAuth zoneId type label =>
      [.code (ascii "SELECT count(*) FROM rrs INNER JOIN rrsets ON " ++
          ascii "rrs.rrset_id=rrsets.id" ++
          ascii " WHERE rrsets.zone_id=" ++ decimal zoneId ++
          ascii " AND " ++ ascii "rrsets.type="),
        .literal type.toString,
        .code (ascii " AND " ++ ascii "rrsets.label LIKE "),
        .literal (label.toUri ++ ascii "/%")]

/-- Neither a quote nor a NUL. -/
def CleanText (s : Bytes) : Prop :=
  (39 : UInt8) ∉ s ∧ (0 : UInt8) ∉ s

instance (s : Bytes) : Decidable (CleanText s) :=
  inferInstanceAs (Decidable (_ ∧ _))

/-- The data and the class of a statement are clean. -/
def Clean : Stmt → Prop
  | insertRrset _ _ clazz _ => CleanText clazz
  | selectRrId _ rrData => CleanText rrData
  | insertRr _ _ rrData => CleanText rrData
  | _ => True

instance (stmt : Stmt) : Decidable stmt.Clean := by
  cases stmt <;> unfold Clean <;> infer_instance

/-- SQLite takes the text for the one statement it is meant to be, with the
values that were pasted in as the values of its literals. -/
def Lexes (stmt : Stmt) : Prop :=
  Sql.lex .code (Sql.cString stmt.text) =
    some (stmt.shape.flatMap Sql.Piece.items)

section Shapes

theorem raw_shape (stmt : Stmt) :
    stmt.shape.flatMap Sql.Piece.raw = stmt.text := by
  cases stmt <;> show _ = _ ++ _ <;>
    simp [shape, Sql.Piece.raw, quote]

theorem plain_append
    {s t : Bytes}
    (hs : ∀ b ∈ s, Sql.plainByte b = true)
    (ht : ∀ b ∈ t, Sql.plainByte b = true) :
    ∀ b ∈ s ++ t, Sql.plainByte b = true := by
  intro b hb
  rcases List.mem_append.mp hb with hb | hb
  · exact hs b hb
  · exact ht b hb

/-- Code with a number in it. -/
theorem plain_number
    (s : Bytes) (n : Nat) (t : Bytes)
    (hs : ∀ b ∈ s, Sql.plainByte b = true)
    (ht : ∀ b ∈ t, Sql.plainByte b = true) :
    ∀ b ∈ s ++ decimal n ++ t, Sql.plainByte b = true :=
  plain_append (plain_append hs (plain_decimal n)) ht

theorem plain_const {s : Bytes} (h : s ≠ [] ∧ s.all Sql.plainByte = true) :
    (Sql.Piece.code s).Plain :=
  ⟨h.1, List.all_eq_true.mp h.2⟩

theorem plain_code
    (s : Bytes) (n : Nat) (t : Bytes)
    (hs : s ≠ [] ∧ s.all Sql.plainByte = true)
    (ht : t.all Sql.plainByte = true) :
    (Sql.Piece.code (s ++ decimal n ++ t)).Plain :=
  ⟨by simp [hs.1],
    plain_number s n t (List.all_eq_true.mp hs.2) (List.all_eq_true.mp ht)⟩

theorem plain_shape (stmt : Stmt) : ∀ p ∈ stmt.shape, p.Plain := by
  cases stmt with
  | selectZoneId name =>
      have hhead := plain_const
        (s := ascii "SELECT id FROM zones WHERE name=") (by decide)
      simpa [shape, Sql.Piece.Plain] using hhead
  | insertZone name =>
      have hhead := plain_const
        (s := ascii "INSERT INTO zones (name) VALUES (") (by decide)
      have hlast := plain_const (s := ascii ")") (by decide)
      simpa [shape, Sql.Piece.Plain] using And.intro hhead hlast
  | selectRrsetId zoneId label type =>
      have hhead := plain_code (ascii "SELECT id FROM rrsets WHERE zone_id=")
        zoneId (ascii " AND label=") (by decide) (by decide)
      have hmid := plain_const (s := ascii " AND type=") (by decide)
      simpa [shape, Sql.Piece.Plain] using And.intro hhead hmid
  | insertRrset zoneId label clazz type =>
      have hhead := plain_code
        (ascii "INSERT INTO rrsets (zone_id, label, class, type, ndndata) VALUES" ++
          ascii " (")
        zoneId (ascii ", ") (by decide) (by decide)
      have hcomma := plain_const (s := ascii ", ") (by decide)
      have hlast := plain_const
        (s := ascii ", " ++ ascii "NULL" ++ ascii ")") (by decide)
      simpa [shape, Sql.Piece.Plain] using
        And.intro hhead (And.intro hcomma hlast)
  | deleteRrs rrsetId =>
      have hhead := plain_code (ascii "DELETE FROM rrs where rrset_id=")
        rrsetId [] (by decide) (by decide)
      simpa [shape, Sql.Piece.Plain] using hhead
  | selectRrId rrsetId rrData =>
      have hhead := plain_code (ascii "SELECT id FROM rrs WHERE rrset_id=")
        rrsetId (ascii " AND rrdata=") (by decide) (by decide)
      simpa [shape, Sql.Piece.Plain] using hhead
  | insertRr rrsetId ttl rrData =>
      have hcomma : ∀ b ∈ ascii ", ", Sql.plainByte b = true :=
        List.all_eq_true.mp (by decide)
      have hrrset := plain_number
        (ascii "INSERT INTO rrs(rrset_id, ttl, rrdata) VALUES (") rrsetId
        (ascii ", ") (List.all_eq_true.mp (by decide)) hcomma
      have hhead : (Sql.Piece.code
          (ascii "INSERT INTO rrs(rrset_id, ttl, rrdata) VALUES (" ++
            decimal rrsetId ++ ascii ", " ++ decimal ttl ++
              ascii ", ")).Plain :=
        ⟨by simp [decimal_ne_nil],
          plain_append (plain_append hrrset (plain_decimal ttl)) hcomma⟩
      have hlast := plain_const (s := ascii ")") (by decide)
      simpa [shape, Sql.Piece.Plain] using And.intro hhead hlast
  | deleteRr id =>
      have hhead := plain_code (ascii "DELETE from rrs WHERE id=") id []
        (by decide) (by decide)
      simpa [shape, Sql.Piece.Plain] using hhead
  | selectRrs rrsetId =>
      have hhead := plain_code
        (ascii "SELECT id, ttl, rrdata FROM rrs WHERE rrset_id=") rrsetId
        (ascii " ORDER BY id") (by decide) (by decide)
      simpa [shape, Sql.Piece.Plain] using hhead
  | countAuth zoneId type label =>
      have hhead := plain_code
        (ascii "SELECT count(*) FROM rrs INNER JOIN rrsets ON " ++
          ascii "rrs.rrset_id=rrsets.id" ++ ascii " WHERE rrsets.zone_id=")
        zoneId (ascii " AND " ++ ascii "rrsets.type=")
        (by decide) (by decide)
      have hmid := plain_const
        (s := ascii " AND " ++ ascii "rrsets.label LIKE ") (by decide)
      simpa [shape, Sql.Piece.Plain] using And.intro hhead hmid

theorem wellShaped_shape (stmt : Stmt) : Sql.WellShaped stmt.shape where
  plain := plain_shape stmt
  apart := by
    cases stmt <;> simp [shape, Sql.Piece.isLiteral]

end Shapes

section Values

theorem cleanText_toUri (n : Name) : CleanText n.toUri := by
  have hall : ∀ b ∈ n.toUri, b ≠ 39 ∧ b ≠ 0 := by
    intro b hb
    unfold Name.toUri at hb
    split at hb
    · simp only [List.mem_singleton] at hb
      subst hb
      decide
    · obtain ⟨e, he, hb⟩ := List.mem_flatMap.mp hb
      rcases List.mem_cons.mp hb with rfl | hb
      · decide
      · obtain ⟨c, -, rfl⟩ := List.mem_map.mp he
        have huri := uriByte_of_mem_toUri hb
        constructor <;> rintro rfl <;> revert huri <;> decide
  exact ⟨fun h => (hall 39 h).1 rfl, fun h => (hall 0 h).2 rfl⟩

theorem cleanText_type (t : RRType) : CleanText t.toString := by
  cases t <;> decide

theorem CleanText.append {s t : Bytes} (hs : CleanText s) (ht : CleanText t) :
    CleanText (s ++ t) :=
  ⟨by simp [hs.1, ht.1], by simp [hs.2, ht.2]⟩

/-- The values of a statement are clean if data and class are. -/
theorem literals_clean_iff (stmt : Stmt) :
    (∀ v, .literal v ∈ stmt.shape → CleanText v) ↔ stmt.Clean := by
  have htype := cleanText_type
  have hname := cleanText_toUri
  have hlike (n : Name) : CleanText (n.toUri ++ ascii "/%") :=
    (hname n).append (by decide)
  cases stmt <;> simp [shape, Clean, htype, hname, hlike]

theorem lexes_iff_literals (stmt : Stmt) :
    stmt.Lexes ↔ ∀ v, .literal v ∈ stmt.shape → CleanText v := by
  rw [Lexes, ← raw_shape]
  exact Sql.lex_raw_iff (wellShaped_shape stmt)

theorem Clean.lexes {stmt : Stmt} (h : stmt.Clean) : stmt.Lexes :=
  (lexes_iff_literals stmt).mpr ((literals_clean_iff stmt).mpr h)

/-- A text is taken for the one statement it is meant to be exactly when its
data and its class hold neither a quote nor a NUL. -/
theorem lexes_iff (stmt : Stmt) : stmt.Lexes ↔ stmt.Clean :=
  (lexes_iff_literals stmt).trans (literals_clean_iff stmt)

/-- The data of a record close their literal and add statements of their own. -/
def hostileInsert : Stmt :=
  .insertRr 1 3600 (ascii "x'); DELETE FROM rrs; --")

/-- The text of `hostileInsert` is lexed as three statements. -/
theorem hostileInsert_not_lexes :
    (Sql.lex .code (Sql.cString hostileInsert.text)).map
        (fun is => is.count .semicolon) = some 2 ∧
      ¬ hostileInsert.Lexes := by
  constructor
  · decide +kernel
  · unfold Lexes
    decide +kernel

end Values

end Stmt

end Ndns
