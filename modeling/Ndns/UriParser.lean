import Ndns.Name

/-!
# A URI parser

`uriParser` is a `NameParser`: it cuts a URI at its slashes, drops the empty
segments that a leading and a trailing slash leave, and reads each further
segment as one component.  A segment is percent-decoded; if nothing but periods
is left, three of them are taken off, and fewer than three are refused.
-/

namespace Ndns

/-- The value of a hexadecimal digit. -/
def hexVal (x : UInt8) : Option UInt8 :=
  if 48 ≤ x && x ≤ 57 then some (x - 48)
  else if 65 ≤ x && x ≤ 70 then some (x - 55)
  else if 97 ≤ x && x ≤ 102 then some (x - 87)
  else none

/-- Percent-decoding; an incomplete escape stands for itself. -/
def unescape : Bytes → Bytes
  | x :: y :: z :: s =>
      if x = 37 then
        match hexVal y, hexVal z with
        | some a, some b => (a * 16 + b) :: unescape s
        | _, _ => x :: unescape (y :: z :: s)
      else x :: unescape (y :: z :: s)
  | s => s

/-- `Component::fromEscapedString`. -/
def parseComponent (s : Bytes) : Option Component :=
  let v := unescape s
  if v.all (· == 46) then
    if v.length ≤ 2 then none else some (v.drop 3)
  else some v

/-- The segments between the slashes of a string. -/
def splitSlash : Bytes → List Bytes
  | [] => [[]]
  | x :: s =>
      if x = 47 then [] :: splitSlash s
      else
        match splitSlash s with
        | [] => [[x]]
        | e :: es => (x :: e) :: es

/-- Segments without the empty one behind a trailing slash. -/
def dropTrailing (es : List Bytes) : List Bytes :=
  if es.getLast? = some [] then es.dropLast else es

def parseUri (s : Bytes) : Option Name :=
  match splitSlash s with
  | [] :: es => (dropTrailing es).mapM parseComponent
  | es => (dropTrailing es).mapM parseComponent

section Component

theorem unescape_cons_of_ne {x : UInt8} (s : Bytes) (h : x ≠ 37) :
    unescape (x :: s) = x :: unescape s := by
  match s with
  | [] => rfl
  | [_] => rfl
  | _ :: _ :: _ => simp [unescape, h]

theorem hexVal_hexDigit (b : UInt8) :
    hexVal (hexDigit (b / 16)) = some (b / 16) ∧
      hexVal (hexDigit (b % 16)) = some (b % 16) := by
  revert b
  apply forall_byte
  decide +kernel

theorem join_nibbles (b : UInt8) : b / 16 * 16 + b % 16 = b := by
  revert b
  apply forall_byte
  decide +kernel

theorem unescape_escapeByte (b : UInt8) (s : Bytes) :
    unescape (escapeByte b ++ s) = b :: unescape s := by
  unfold escapeByte
  split
  · next hb =>
      refine unescape_cons_of_ne s ?_
      rintro rfl
      exact absurd hb (by decide)
  · simp [unescape, (hexVal_hexDigit b).1, (hexVal_hexDigit b).2,
      join_nibbles b]

theorem unescape_flatMap :
    ∀ c : Bytes, unescape (c.flatMap escapeByte) = c
  | [] => rfl
  | b :: c => by
      rw [List.flatMap_cons, unescape_escapeByte, unescape_flatMap c]

theorem unescape_periods :
    ∀ c : Bytes, c.all (· == 46) = true → unescape c = c
  | [], _ => rfl
  | b :: c, h => by
      simp only [List.all_cons, Bool.and_eq_true, beq_iff_eq] at h
      obtain ⟨rfl, hc⟩ := h
      rw [unescape_cons_of_ne c (by decide), unescape_periods c hc]

theorem parseComponent_toUri (c : Component) :
    parseComponent c.toUri = some c := by
  unfold Component.toUri
  split
  · next hc =>
      have hdots : ([46, 46, 46] ++ c : Bytes).all (· == 46) = true := by
        simpa using hc
      simp only [parseComponent, unescape_periods _ hdots, hdots]
      simp
  · next hc =>
      simp [parseComponent, unescape_flatMap, hc]

end Component

section Segments

theorem splitSlash_append :
    ∀ (e s : Bytes), (47 : UInt8) ∉ e →
      splitSlash (e ++ 47 :: s) = e :: splitSlash s
  | [], s, _ => by simp [splitSlash]
  | x :: e, s, h => by
      simp only [List.mem_cons, not_or] at h
      have ih := splitSlash_append e s h.2
      have hx : x ≠ 47 := fun hx => h.1 hx.symm
      simp [splitSlash, ih, hx]

theorem splitSlash_of_notMem :
    ∀ e : Bytes, (47 : UInt8) ∉ e → splitSlash e = [e]
  | [], _ => rfl
  | x :: e, h => by
      simp only [List.mem_cons, not_or] at h
      have hx : x ≠ 47 := fun hx => h.1 hx.symm
      simp [splitSlash, splitSlash_of_notMem e h.2, hx]

/-- Splitting a path gives back its segments. -/
theorem splitSlash_path :
    ∀ (es : List Bytes) (t : Bytes),
      (∀ e ∈ es, (47 : UInt8) ∉ e) → (47 : UInt8) ∉ t →
      splitSlash (uriPath es ++ 47 :: t) = [] :: (es ++ [t])
  | [], t, _, ht => by
      simp [splitSlash, splitSlash_of_notMem t ht]
  | e :: es, t, hes, ht => by
      have he : (47 : UInt8) ∉ e := hes e (by simp)
      have ih := splitSlash_path es t
        (fun f hf => hes f (by simp [hf])) ht
      have hcut :
          splitSlash (e ++ (uriPath es ++ 47 :: t)) =
            e :: (es ++ [t]) := by
        obtain ⟨s, hs⟩ : ∃ s, uriPath es ++ 47 :: t = 47 :: s := by
          cases es with
          | nil => exact ⟨t, rfl⟩
          | cons f es => exact ⟨f ++ uriPath es ++ 47 :: t, by simp⟩
        have htail : splitSlash s = es ++ [t] := by
          rw [hs] at ih
          simpa [splitSlash] using ih
        rw [hs, splitSlash_append e s he, htail]
      simp [splitSlash, hcut]

theorem dropTrailing_concat_ne {es : List Bytes} {t : Bytes}
    (h : t ≠ []) :
    dropTrailing (es ++ [t]) = es ++ [t] := by
  simp [dropTrailing, h]

theorem dropTrailing_concat_nil (es : List Bytes) :
    dropTrailing (es ++ [[]]) = es := by
  simp [dropTrailing]

theorem mapM_segments (n : Name) :
    n.segments.mapM parseComponent = some n := by
  induction n with
  | nil => rfl
  | cons c n ih =>
      simp only [Name.segments] at ih ⊢
      simp [parseComponent_toUri, ih]

theorem parseUri_path_slash (n : Name) :
    parseUri (uriPath n.segments ++ [47]) = some n := by
  unfold parseUri
  rw [splitSlash_path n.segments [] (slash_notMem_segments n) (by simp)]
  simp only [dropTrailing_concat_nil]
  exact mapM_segments n

theorem parseUri_path_segment (n : Name) (t : Bytes)
    (ht : (47 : UInt8) ∉ t) (hne : t ≠ []) :
    parseUri (uriPath n.segments ++ 47 :: t) =
      (parseComponent t).map (fun c => n ++ [c]) := by
  unfold parseUri
  rw [splitSlash_path n.segments t (slash_notMem_segments n) ht]
  simp only [dropTrailing_concat_ne hne, List.mapM_append,
    mapM_segments]
  cases hc : parseComponent t <;> simp [hc]

theorem parseUri_toUri (n : Name) : parseUri n.toUri = some n := by
  rcases n.eq_nil_or_concat with rfl | ⟨m, c, rfl⟩
  · rfl
  · have h := parseUri_path_segment m c.toUri (slash_notMem_toUri c)
      c.toUri_ne_nil
    rw [parseComponent_toUri] at h
    rw [Name.toUri_of_ne_nil (by simp)]
    simpa [Name.segments] using h

theorem Name.toUri_injective {n m : Name} (h : n.toUri = m.toUri) :
    n = m := by
  have hn := parseUri_toUri n
  rw [h, parseUri_toUri m] at hn
  exact (Option.some.inj hn).symm

end Segments

/-- The parser of the NDN URI scheme. -/
def uriParser : NameParser where
  ofUri := parseUri
  ofUri_toUri := parseUri_toUri
  ofUri_slash := fun n hn => by
    rw [Name.toUri_of_ne_nil hn]
    exact parseUri_path_slash n
  ofUri_segment := fun n m t ht hne h => by
    have hslash : (47 : UInt8) ∉ t := by
      intro hmem
      exact absurd (ht 47 hmem) (by decide)
    rw [parseUri_path_segment n t hslash hne] at h
    cases hc : parseComponent t with
    | none => simp [hc] at h
    | some c => exact ⟨c, by simpa [hc] using h.symm⟩

end Ndns
