import Mathlib.Data.List.Infix
import Mathlib.Data.List.TakeDrop

/-!
# Names and their URIs

A name is a list of components and a component is a byte string.  The resolver
cuts names with `getPrefix` and `getSubName`, and the name server recognises an
Interest by the text of its URI, so both views are modelled.

`Component.toUri` is the NDN URI scheme: letters, digits and `+ - . _` stand for
themselves, every other byte is percent-escaped with upper-case digits, and a
component of periods only is written with three periods in front.  Reading a
URI back, the constructor `Name(const std::string&)`, is left to a parameter
`NameParser`: it has to undo `toUri`, to ignore one trailing slash and to give
one component for each further segment.  `uriParser` is such a parser.
-/

namespace Ndns

/-- `std::string` and byte buffers. -/
abbrev Bytes := List UInt8

/-- The bytes of a literal. -/
def ascii (s : String) : Bytes :=
  s.toUTF8.data.toList

abbrev Component := Bytes

abbrev Name := List Component

namespace Name

/-- Components `start`, …, `min (start + len) size - 1`. -/
def getSubName (n : Name) (start len : Nat) : Name :=
  (n.drop start).take len

/-- All components from `start` on. -/
def getSubNameFrom (n : Name) (start : Nat) : Name :=
  n.drop start

def getPrefix (n : Name) (len : Nat) : Name :=
  n.getSubName 0 len

theorem getPrefix_eq_take (n : Name) (len : Nat) :
    n.getPrefix len = n.take len := by
  simp [getPrefix, getSubName]

end Name

section Escape

/-- Bytes that a URI shows as they are. -/
def unreserved (b : UInt8) : Bool :=
  (48 ≤ b && b ≤ 57) || (65 ≤ b && b ≤ 90) || (97 ≤ b && b ≤ 122) ||
    b == 43 || b == 45 || b == 46 || b == 95

/-- Bytes that may occur in the URI of a component. -/
def uriByte (b : UInt8) : Bool :=
  unreserved b || b == 37

def hexDigit (d : UInt8) : UInt8 :=
  if d < 10 then 48 + d else 55 + d

def escapeByte (b : UInt8) : Bytes :=
  if unreserved b then [b] else [37, hexDigit (b / 16), hexDigit (b % 16)]

/-- `Component::toUri`. -/
def Component.toUri (c : Component) : Bytes :=
  if c.all (· == 46) then [46, 46, 46] ++ c else c.flatMap escapeByte

/-- The segments of a URI, each with its slash in front. -/
def uriPath (es : List Bytes) : Bytes :=
  es.flatMap (fun e => 47 :: e)

/-- The segments that the components of a name are written as. -/
def Name.segments (n : Name) : List Bytes :=
  n.map Component.toUri

/-- `Name::toUri`. -/
def Name.toUri (n : Name) : Bytes :=
  if n = [] then [47] else uriPath n.segments

@[simp] theorem uriPath_nil : uriPath [] = [] := rfl

@[simp] theorem uriPath_cons (e : Bytes) (es : List Bytes) :
    uriPath (e :: es) = 47 :: (e ++ uriPath es) := by
  simp [uriPath]

@[simp] theorem uriPath_append (es fs : List Bytes) :
    uriPath (es ++ fs) = uriPath es ++ uriPath fs := by
  simp [uriPath]

theorem Name.toUri_of_ne_nil {n : Name} (h : n ≠ []) :
    n.toUri = uriPath n.segments := by
  simp [Name.toUri, h]

/-- A property of bytes may be checked byte by byte. -/
theorem forall_byte {p : UInt8 → Prop}
    (h : ∀ i : Fin 256, p (UInt8.ofFin i)) (b : UInt8) :
    p b := by
  have := h b.toFin
  simpa using this

theorem uriByte_hexDigit (b : UInt8) :
    uriByte (hexDigit (b / 16)) = true ∧
      uriByte (hexDigit (b % 16)) = true := by
  revert b
  apply forall_byte
  decide +kernel

theorem uriByte_of_mem_escapeByte {b x : UInt8}
    (h : x ∈ escapeByte b) :
    uriByte x = true := by
  unfold escapeByte at h
  split at h
  · next hb =>
      simp only [List.mem_singleton] at h
      simp [uriByte, h, hb]
  · simp only [List.mem_cons, List.not_mem_nil, or_false] at h
    rcases h with rfl | rfl | rfl
    · rfl
    · exact (uriByte_hexDigit b).1
    · exact (uriByte_hexDigit b).2

theorem uriByte_of_mem_toUri {c : Component} {x : UInt8}
    (h : x ∈ c.toUri) :
    uriByte x = true := by
  unfold Component.toUri at h
  split at h
  · next hc =>
      have hx : x = 46 := by
        rcases List.mem_append.mp h with h | h
        · simpa using h
        · simpa using List.all_eq_true.mp hc x h
      subst hx
      rfl
  · obtain ⟨b, -, hb⟩ := List.mem_flatMap.mp h
    exact uriByte_of_mem_escapeByte hb

theorem slash_notMem_toUri (c : Component) : (47 : UInt8) ∉ c.toUri := by
  intro h
  exact absurd (uriByte_of_mem_toUri h) (by decide)

/-- The front of a component that is cut is text of a URI, too. -/
theorem uriByte_of_mem_stem
    {c : Component} {stem word : Bytes} (h : c.toUri = stem ++ word) :
    ∀ b ∈ stem, uriByte b = true := by
  intro b hb
  refine uriByte_of_mem_toUri (c := c) ?_
  rw [h]
  exact List.mem_append_left _ hb

theorem escapeByte_ne_nil (b : UInt8) : escapeByte b ≠ [] := by
  unfold escapeByte
  split <;> simp

theorem Component.toUri_ne_nil (c : Component) : c.toUri ≠ [] := by
  unfold Component.toUri
  split
  · simp
  · next hc =>
      cases c with
      | nil => simp at hc
      | cons b c => simp [escapeByte_ne_nil]

theorem slash_notMem_segments (n : Name) :
    ∀ e ∈ n.segments, (47 : UInt8) ∉ e := by
  intro e he
  obtain ⟨c, -, rfl⟩ := List.mem_map.mp he
  exact slash_notMem_toUri c

end Escape

/-- `Name(const std::string&)`: `none` stands for a thrown error. -/
structure NameParser where
  ofUri : Bytes → Option Name
  ofUri_toUri : ∀ n : Name, ofUri n.toUri = some n
  /-- A trailing slash does not add a component. -/
  ofUri_slash : ∀ n : Name, n ≠ [] → ofUri (n.toUri ++ [47]) = some n
  /-- A further segment of a URI is either refused or read as one component. -/
  ofUri_segment : ∀ (n m : Name) (t : Bytes),
    (∀ b ∈ t, uriByte b = true) → t ≠ [] →
    ofUri (uriPath n.segments ++ 47 :: t) = some m →
    ∃ c, m = n ++ [c]

namespace NameParser

variable (P : NameParser)

/-- `Name` of a path whose last segment is empty. -/
theorem ofUri_path_slash (n : Name) :
    P.ofUri (uriPath n.segments ++ [47]) = some n := by
  by_cases h : n = []
  · subst h
    exact P.ofUri_toUri []
  · rw [← Name.toUri_of_ne_nil h]
    exact P.ofUri_slash n h

theorem ofUri_path {n : Name} (h : n ≠ []) :
    P.ofUri (uriPath n.segments) = some n := by
  rw [← Name.toUri_of_ne_nil h]
  exact P.ofUri_toUri n

end NameParser

end Ndns
