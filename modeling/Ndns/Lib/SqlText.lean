import Mathlib.Algebra.Ring.Nat
import Mathlib.Data.List.Basic
import Mathlib.Data.List.Chain
import Mathlib.Tactic.Common

/-!
# String literals in SQL texts

A lexer for the part of SQL that decides where a string literal ends: literals
with doubled quotes, quoted names, the two kinds of comments, and the semicolons
between statements.  A text that is put together from code and values is compared
with the shape that it was meant to have.

**Results.**
* `render_lex`: the lexer loses nothing but the doubling of quotes;
* `semicolon_notMem_scan`: what a text without quotes holds in front of its end;
* `lex_raw_iff`: values that are pasted between quotes come out as literals
  exactly when none of them holds a quote or ends the C string.
-/

namespace Sql

abbrev Text := List UInt8

/-- What a byte of a text is part of. -/
inductive Item where
  | code (b : UInt8)
  | opening
  | char (b : UInt8)
  | closing
  | semicolon
  /-- A byte of a comment or of a quoted name. -/
  | other (b : UInt8)
deriving DecidableEq

inductive Mode where
  | code
  | string
  /-- Behind a quote inside a literal. -/
  | quote
  | quoted (stop : UInt8)
  /-- Behind a dash, which may start a comment. -/
  | dash
  | slash
  | line
  | block
  | star
deriving DecidableEq

def startStep (b : UInt8) : List Item × Mode :=
  if b = 39 then ([.opening], .string)
  else if b = 59 then ([.semicolon], .code)
  else if b = 34 ∨ b = 96 then ([.other b], .quoted b)
  else if b = 91 then ([.other b], .quoted 93)
  else if b = 45 then ([], .dash)
  else if b = 47 then ([], .slash)
  else ([.code b], .code)

def step : Mode → UInt8 → List Item × Mode
  | .code, b => startStep b
  | .string, b =>
      if b = 39 then ([], .quote) else ([.char b], .string)
  | .quote, b =>
      if b = 39 then ([.char 39], .string)
      else (.closing :: (startStep b).1, (startStep b).2)
  | .quoted stop, b =>
      if b = stop then ([.other b], .code) else ([.other b], .quoted stop)
  | .dash, b =>
      if b = 45 then ([.other 45, .other 45], .line)
      else (.code 45 :: (startStep b).1, (startStep b).2)
  | .slash, b =>
      if b = 42 then ([.other 47, .other 42], .block)
      else (.code 47 :: (startStep b).1, (startStep b).2)
  | .line, b =>
      if b = 10 then ([.other b], .code) else ([.other b], .line)
  | .block, b =>
      if b = 42 then ([.other b], .star) else ([.other b], .block)
  | .star, b =>
      if b = 47 then ([.other b], .code)
      else if b = 42 then ([.other b], .star)
      else ([.other b], .block)

/-- A text may not end inside a literal or a quoted name. -/
def finish : Mode → Option (List Item)
  | .code => some []
  | .string => none
  | .quote => some [.closing]
  | .quoted _ => none
  | .dash => some [.code 45]
  | .slash => some [.code 47]
  | .line => some []
  | .block => some []
  | .star => some []

/-- The items of a text; `none` for an unterminated literal or name. -/
def lex : Mode → Text → Option (List Item)
  | m, [] => finish m
  | m, b :: s => (lex (step m b).2 s).map ((step m b).1 ++ ·)

/-- The items of a text up to its end, which may be inside a literal. -/
def scan : Mode → Text → List Item
  | _, [] => []
  | m, b :: s => (step m b).1 ++ scan (step m b).2 s

section Render

/-- The bytes that an item was lexed from. -/
def Item.render : Item → Text
  | .code b => [b]
  | .opening => [39]
  | .char b => if b = 39 then [39, 39] else [b]
  | .closing => [39]
  | .semicolon => [59]
  | .other b => [b]

def render (is : List Item) : Text :=
  is.flatMap Item.render

/-- Bytes that have been read and not yet been decided on. -/
def Mode.pending : Mode → Text
  | .quote => [39]
  | .dash => [45]
  | .slash => [47]
  | _ => []

theorem render_startStep (b : UInt8) :
    render (startStep b).1 ++ (startStep b).2.pending = [b] := by
  unfold startStep
  split_ifs with h₁ h₂ h₃ h₄ h₅ h₆ <;>
    simp_all [render, Item.render, Mode.pending]

theorem render_step (m : Mode) (b : UInt8) :
    render (step m b).1 ++ (step m b).2.pending = m.pending ++ [b] := by
  have hstart := render_startStep b
  cases m with
  | code =>
      exact hstart
  | string =>
      simp only [step]
      split_ifs with h <;> simp [render, Item.render, Mode.pending, h]
  | quote =>
      simp only [step]
      split_ifs with h
      · simp [render, Item.render, Mode.pending, h]
      · simpa [render, Item.render, Mode.pending] using hstart
  | dash =>
      simp only [step]
      split_ifs with h
      · simp [render, Item.render, Mode.pending, h]
      · simpa [render, Item.render, Mode.pending] using hstart
  | slash =>
      simp only [step]
      split_ifs with h
      · simp [render, Item.render, Mode.pending, h]
      · simpa [render, Item.render, Mode.pending] using hstart
  | quoted stop =>
      simp only [step]
      split_ifs with h <;> simp [render, Item.render, Mode.pending]
  | line =>
      simp only [step]
      split_ifs with h <;> simp [render, Item.render, Mode.pending]
  | block =>
      simp only [step]
      split_ifs with h <;> simp [render, Item.render, Mode.pending]
  | star =>
      simp only [step]
      split_ifs with h₁ h₂ <;> simp [render, Item.render, Mode.pending]

/-- Putting the items together gives the text back. -/
theorem render_lex
    {s : Text} {m : Mode} {is : List Item}
    (h : lex m s = some is) :
    render is = m.pending ++ s := by
  induction s generalizing m is with
  | nil =>
      cases m <;> simp_all [lex, finish, Mode.pending]
      all_goals subst h; rfl
  | cons b s ih =>
      simp only [lex, Option.map_eq_some_iff] at h
      obtain ⟨js, hjs, rfl⟩ := h
      calc
        render ((step m b).1 ++ js)
            = render (step m b).1 ++ render js := by
              simp [render]
        _ = (render (step m b).1 ++ (step m b).2.pending) ++ s := by
              rw [ih hjs, List.append_assoc]
        _ = m.pending ++ b :: s := by
              rw [render_step]
              simp

end Render

/-- A piece of the shape that a text is meant to have. -/
inductive Piece where
  | code (s : Text)
  | literal (v : Text)
deriving DecidableEq

namespace Piece

def isLiteral : Piece → Bool
  | code _ => false
  | literal _ => true

/-- The items that a piece stands for. -/
def items : Piece → List Item
  | code s => s.map .code
  | literal v => .opening :: (v.map .char ++ [.closing])

/-- The bytes of a piece whose value is pasted between two quotes. -/
def raw : Piece → Text
  | code s => s
  | literal v => 39 :: (v ++ [39])

end Piece

/-- A byte that stands for itself outside literals. -/
def plainByte (b : UInt8) : Bool :=
  ! [0, 34, 39, 45, 47, 59, 91, 96].contains b

def Piece.Plain : Piece → Prop
  | code s => s ≠ [] ∧ ∀ b ∈ s, plainByte b = true
  | literal _ => True

/-- The code of a shape is plain, and keeps literals apart. -/
structure WellShaped (ps : List Piece) : Prop where
  plain : ∀ p ∈ ps, p.Plain
  apart : ps.IsChain (fun p q => ¬ (p.isLiteral ∧ q.isLiteral))

/-- What a C function sees of a text. -/
def cString : Text → Text
  | [] => []
  | b :: s => if b = 0 then [] else b :: cString s

section Lexing

theorem startStep_of_plain {b : UInt8} (h : plainByte b = true) :
    startStep b = ([.code b], .code) := by
  simp only [plainByte, List.contains_eq_mem, List.mem_cons,
    List.not_mem_nil, or_false, Bool.not_eq_true', decide_eq_false_iff_not,
    not_or] at h
  simp [startStep, h]

theorem lex_code
    {s : Text} (h : ∀ b ∈ s, plainByte b = true) (t : Text) :
    lex .code (s ++ t) = (lex .code t).map (s.map Item.code ++ ·) := by
  induction s with
  | nil =>
      simp
  | cons b s ih =>
      have hb := startStep_of_plain (h b (by simp))
      have hs := ih (fun c hc => h c (by simp [hc]))
      simp [lex, step, hb, hs, Function.comp_def]

theorem scan_code
    {s : Text} (h : ∀ b ∈ s, plainByte b = true) (t : Text) :
    scan .code (s ++ t) = s.map Item.code ++ scan .code t := by
  induction s with
  | nil =>
      rfl
  | cons b s ih =>
      have hb := startStep_of_plain (h b (by simp))
      have hs := ih (fun c hc => h c (by simp [hc]))
      simp [scan, step, hb, hs]

theorem scan_string {v : Text} (h : (39 : UInt8) ∉ v) :
    scan .string v = v.map Item.char := by
  induction v with
  | nil =>
      rfl
  | cons b v ih =>
      have hb : b ≠ 39 := fun hb => h (by simp [hb])
      have hv := ih (fun hmem => h (List.mem_cons_of_mem b hmem))
      simp [scan, step, hb, hv]

theorem lex_string
    {v : Text} (h : (39 : UInt8) ∉ v) (t : Text) :
    lex .string (v ++ t) = (lex .string t).map (v.map Item.char ++ ·) := by
  induction v with
  | nil =>
      simp
  | cons b v ih =>
      have hb : b ≠ 39 := fun hb => h (by simp [hb])
      have hv := ih (fun hmem => h (List.mem_cons_of_mem b hmem))
      simp [lex, step, hb, hv, Function.comp_def]

/-- A quote that no quote follows ends the literal. -/
theorem lex_quote {t : Text} (h : t.head? ≠ some 39) :
    lex .quote t = (lex .code t).map (.closing :: ·) := by
  cases t with
  | nil =>
      rfl
  | cons b t =>
      have hb : b ≠ 39 := by simpa using h
      simp [lex, step, hb, Function.comp_def]

theorem lex_literal
    {v : Text} (hv : (39 : UInt8) ∉ v)
    {t : Text} (ht : t.head? ≠ some 39) :
    lex .code (39 :: (v ++ 39 :: t)) =
      (lex .code t).map ((Piece.literal v).items ++ ·) := by
  have hstring := lex_string hv (39 :: t)
  have hquote : lex .string (39 :: t) =
      (lex .code t).map (.closing :: ·) := by
    simp [lex, step, lex_quote ht, Function.comp_def]
  rw [hquote] at hstring
  simp only [lex, step, startStep, if_true, hstring, Option.map_map]
  simp [Piece.items, Function.comp_def]

/-- The text of a shape never goes on with a quote behind a literal. -/
theorem head_raw_ne_quote
    {v : Text} {ps : List Piece}
    (h : WellShaped (.literal v :: ps)) :
    (ps.flatMap Piece.raw).head? ≠ some 39 := by
  cases ps with
  | nil =>
      simp
  | cons p ps =>
      cases p with
      | literal w =>
          have hapart := (List.isChain_cons_cons.mp h.apart).1
          exact absurd ⟨rfl, rfl⟩ hapart
      | code s =>
          cases s with
          | nil =>
              exact absurd rfl (h.plain (.code []) (by simp)).1
          | cons b s =>
              have hb := (h.plain (.code (b :: s)) (by simp)).2 b (by simp)
              simp only [List.flatMap_cons, Piece.raw, List.cons_append,
                List.head?_cons, ne_eq, Option.some.injEq]
              rintro rfl
              simp [plainByte] at hb

theorem WellShaped.tail
    {p : Piece} {ps : List Piece}
    (h : WellShaped (p :: ps)) :
    WellShaped ps where
  plain q hq := h.plain q (List.mem_cons_of_mem p hq)
  apart := h.apart.tail

/-- Values without quotes come out as literals. -/
theorem lex_raw
    {ps : List Piece} (h : WellShaped ps)
    (hv : ∀ v, .literal v ∈ ps → (39 : UInt8) ∉ v) :
    lex .code (ps.flatMap Piece.raw) = some (ps.flatMap Piece.items) := by
  induction ps with
  | nil =>
      rfl
  | cons p ps ih =>
      have hrest := ih h.tail
        (fun v hmem => hv v (List.mem_cons_of_mem p hmem))
      cases p with
      | code s =>
          have hcode := lex_code (h.plain (.code s) (by simp)).2
            (ps.flatMap Piece.raw)
          simpa [Piece.raw, Piece.items, hrest] using hcode
      | literal v =>
          have hlit := lex_literal (hv v (by simp))
            (head_raw_ne_quote h)
          simpa [Piece.raw, hrest] using hlit

end Lexing

section CString

theorem cString_eq_self {s : Text} (h : (0 : UInt8) ∉ s) :
    cString s = s := by
  induction s with
  | nil =>
      rfl
  | cons b s ih =>
      have hb : b ≠ 0 := fun hb => h (by simp [hb])
      have hs := ih (fun hmem => h (List.mem_cons_of_mem b hmem))
      rw [cString, if_neg hb, hs]

theorem cString_isPrefix (s : Text) : cString s <+: s := by
  induction s with
  | nil =>
      exact List.prefix_refl []
  | cons b s ih =>
      unfold cString
      split
      · exact List.nil_prefix
      · exact List.cons_prefix_cons.mpr ⟨rfl, ih⟩

theorem notMem_cString_zero (s : Text) : (0 : UInt8) ∉ cString s := by
  induction s with
  | nil =>
      simp [cString]
  | cons b s ih =>
      unfold cString
      split
      · simp
      · next hb =>
          intro hmem
          rcases List.mem_cons.mp hmem with h | h
          · exact hb h.symm
          · exact ih h

theorem cString_append
    {s : Text} (h : (0 : UInt8) ∉ s) (t : Text) :
    cString (s ++ t) = s ++ cString t := by
  induction s with
  | nil =>
      rfl
  | cons b s ih =>
      have hb : b ≠ 0 := fun hb => h (by simp [hb])
      have hs := ih (fun hmem => h (List.mem_cons_of_mem b hmem))
      rw [List.cons_append, cString, if_neg hb, hs, List.cons_append]

/-- A C string ends inside a value that holds a NUL. -/
theorem cString_append_of_mem
    {s : Text} (h : (0 : UInt8) ∈ s) (t : Text) :
    cString (s ++ t) = cString s := by
  induction s with
  | nil =>
      simp at h
  | cons b s ih =>
      by_cases hb : b = 0
      · rw [List.cons_append, cString, cString, if_pos hb, if_pos hb]
      · have hmem : (0 : UInt8) ∈ s := by
          rcases List.mem_cons.mp h with h | h
          · exact absurd h.symm hb
          · exact h
        rw [List.cons_append, cString, cString, if_neg hb, if_neg hb,
          ih hmem]

section Unterminated

variable {s v : Text} {ps : List Piece}

/-- A text whose first literal has a value that ends the C string. -/
theorem cString_unterminated
    (h : WellShaped (.code s :: .literal v :: ps))
    (hzero : (0 : UInt8) ∈ v) :
    cString ((Piece.code s :: .literal v :: ps).flatMap Piece.raw) =
      s ++ 39 :: cString v := by
  have hplain : (0 : UInt8) ∉ s := by
    intro hmem
    have h0 := (h.plain (.code s) (by simp)).2 0 hmem
    simp [plainByte] at h0
  have hcut (t : Text) : cString (39 :: (v ++ t)) = 39 :: cString v := by
    rw [cString, if_neg (by decide), cString_append_of_mem hzero]
  simp only [List.flatMap_cons, Piece.raw, List.cons_append,
    List.append_assoc]
  rw [cString_append hplain, hcut]

theorem quote_notMem_cString (hquote : (39 : UInt8) ∉ v) :
    (39 : UInt8) ∉ cString v :=
  fun hmem => hquote ((cString_isPrefix v).subset hmem)

/-- It is not lexed. -/
theorem lex_unterminated
    (h : WellShaped (.code s :: .literal v :: ps))
    (hquote : (39 : UInt8) ∉ v) (hzero : (0 : UInt8) ∈ v) :
    lex .code (cString ((Piece.code s :: .literal v :: ps).flatMap
      Piece.raw)) = none := by
  have hstring := lex_string (quote_notMem_cString hquote) []
  rw [List.append_nil] at hstring
  rw [cString_unterminated h hzero,
    lex_code (h.plain (.code s) (by simp)).2]
  simp [lex, step, startStep, hstring, finish]

/-- No statement is complete in front of its end. -/
theorem semicolon_notMem_scan
    (h : WellShaped (.code s :: .literal v :: ps))
    (hquote : (39 : UInt8) ∉ v) (hzero : (0 : UInt8) ∈ v) :
    Item.semicolon ∉ scan .code (cString ((Piece.code s :: .literal v ::
      ps).flatMap Piece.raw)) := by
  rw [cString_unterminated h hzero,
    scan_code (h.plain (.code s) (by simp)).2]
  simp [scan, step, startStep, scan_string (quote_notMem_cString hquote)]

end Unterminated

end CString

section Exact

/-- The quotes in the value of a piece. -/
def Piece.quotes : Piece → Nat
  | code _ => 0
  | literal v => v.count 39

theorem length_render_char (v : Text) :
    (render (v.map Item.char)).length = v.length + v.count 39 := by
  induction v with
  | nil =>
      rfl
  | cons b v ih =>
      have hcons :
          (render ((b :: v).map Item.char)).length =
            (Item.render (.char b)).length +
              (render (v.map Item.char)).length := by
        simp [render]
      rw [hcons, ih, List.length_cons, List.count_cons]
      by_cases hb : b = 39
      · simp [Item.render, hb]
        omega
      · simp [Item.render, hb]
        omega

/-- A quote in a value is one byte in the text and two in its literal. -/
theorem length_render_items (p : Piece) :
    (render p.items).length = p.raw.length + p.quotes := by
  cases p with
  | code s =>
      simp [render, Piece.items, Piece.raw, Piece.quotes, Item.render,
        List.flatMap_map]
  | literal v =>
      have hv := length_render_char v
      have hsplit :
          (render (Piece.literal v).items).length =
            1 + (render (v.map Item.char)).length + 1 := by
        simp only [render, Piece.items, List.flatMap_cons,
          List.flatMap_append, List.length_append, List.flatMap_nil,
          Item.render, List.length_cons, List.length_nil]
        omega
      rw [hsplit, hv]
      simp only [Piece.raw, Piece.quotes, List.length_cons,
        List.length_append, List.length_nil]
      omega

theorem length_render_shape (ps : List Piece) :
    (render (ps.flatMap Piece.items)).length =
      (ps.flatMap Piece.raw).length + (ps.map Piece.quotes).sum := by
  induction ps with
  | nil =>
      rfl
  | cons p ps ih =>
      have hp := length_render_items p
      have hsplit :
          (render ((p :: ps).flatMap Piece.items)).length =
            (render p.items).length +
              (render (ps.flatMap Piece.items)).length := by
        simp [render]
      rw [hsplit, ih, hp]
      simp only [List.flatMap_cons, List.length_append, List.map_cons,
        List.sum_cons]
      omega

/-- Pasted values come out as literals exactly when they hold no quote and do
not end the C string. -/
theorem lex_raw_iff {ps : List Piece} (h : WellShaped ps) :
    lex .code (cString (ps.flatMap Piece.raw)) =
        some (ps.flatMap Piece.items) ↔
      ∀ v, .literal v ∈ ps → (39 : UInt8) ∉ v ∧ (0 : UInt8) ∉ v := by
  constructor
  · intro hlex v hv
    have hrender : render (ps.flatMap Piece.items) =
        cString (ps.flatMap Piece.raw) := by
      simpa [Mode.pending] using render_lex hlex
    have hlength := length_render_shape ps
    have hprefix := cString_isPrefix (ps.flatMap Piece.raw)
    have hle := hprefix.length_le
    rw [hrender] at hlength
    have hquotes : (ps.map Piece.quotes).sum = 0 := by omega
    have hself := hprefix.eq_of_length (by omega)
    constructor
    · intro hmem
      have hcount : v.count 39 = 0 :=
        List.sum_eq_zero_iff_forall_eq_nat.mp hquotes _
          (List.mem_map_of_mem hv)
      exact List.count_eq_zero.mp hcount hmem
    · intro hmem
      refine notMem_cString_zero (ps.flatMap Piece.raw) ?_
      rw [hself]
      exact List.mem_flatMap.mpr ⟨_, hv, by simp [Piece.raw, hmem]⟩
  · intro hv
    have hzero : (0 : UInt8) ∉ ps.flatMap Piece.raw := by
      intro hmem
      obtain ⟨p, hp, hb⟩ := List.mem_flatMap.mp hmem
      cases p with
      | code s =>
          have hplain := (h.plain (.code s) hp).2 0 hb
          simp [plainByte] at hplain
      | literal v =>
          have hb' : (0 : UInt8) ∈ v := by
            simpa [Piece.raw] using hb
          exact (hv v hp).2 hb'
    rw [cString_eq_self hzero]
    exact lex_raw h (fun v hmem => (hv v hmem).1)

end Exact

end Sql
