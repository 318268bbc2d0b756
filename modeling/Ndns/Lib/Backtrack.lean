import Mathlib.Data.List.Infix
import Mathlib.Data.List.TakeDrop

/-!
# Backtracking regular expressions

The matching discipline of ECMAScript (and of `std::regex` in its default
grammar): alternatives are tried from left to right, a repetition takes as many
symbols as it can and gives them back one at a time, and the first way through
the whole expression wins.

The matcher is written in continuation-passing style: `run r s c k` matches `r`
at the front of `s` with the captures `c` collected so far and hands the
remaining input to `k`.  When `k` fails, the matcher goes back to its last
choice.  Repetition is over one symbol class, which is what keeps the recursion
structural.

**Results.**
* `runMany_eq_none`: a repetition fails when its continuation fails on every
  suffix of the input;
* `runMany_append`: a repetition stops at the shortest suffix on which its
  continuation succeeds;
* `run_words`: an alternation of literal words is a left-to-right search.
-/

namespace Backtrack

universe u v

variable {α : Type u} {β : Type v}

/-- Regular expressions with numbered capture groups. -/
inductive Regex (α : Type u) where
  | fail
  | lit (w : List α)
  | many (p : α → Bool)
  | seq (r t : Regex α)
  | alt (r t : Regex α)
  | opt (r : Regex α)
  | group (i : Nat) (r : Regex α)

/-- The text captured by each group, `none` for a group that took no part. -/
abbrev Captures (α : Type u) := Nat → Option (List α)

namespace Captures

/-- Set the text of one group. -/
def record (c : Captures α) (i : Nat) (w : List α) : Captures α :=
  fun j => if j = i then some w else c j

end Captures

/-- Greedy repetition of one symbol class: longest match first. -/
def runMany (p : α → Bool) :
    List α → (List α → Option β) → Option β
  | [], k => k []
  | x :: s, k =>
      (if p x then runMany p s k else none) <|> k (x :: s)

variable [DecidableEq α]

/-- Match `r` at the front of `s`, then continue with `k`. -/
def run :
    Regex α → List α → Captures α →
      (List α → Captures α → Option β) → Option β
  | .fail, _, _, _ => none
  | .lit w, s, c, k =>
      if w <+: s then k (s.drop w.length) c else none
  | .many p, s, c, k => runMany p s (fun s' => k s' c)
  | .seq r t, s, c, k =>
      run r s c (fun s' c' => run t s' c' k)
  | .alt r t, s, c, k => run r s c k <|> run t s c k
  | .opt r, s, c, k => run r s c k <|> k s c
  | .group i r, s, c, k =>
      run r s c (fun s' c' =>
        k s' (c'.record i (s.take (s.length - s'.length))))

/-- The continuation that accepts at the end of the input only. -/
def atEnd (s : List α) (c : Captures α) : Option (Captures α) :=
  if s = [] then some c else none

/-- `std::regex_match`: the expression has to consume the whole input. -/
def fullMatch (r : Regex α) (s : List α) : Option (Captures α) :=
  run r s (fun _ => none) atEnd

/-- The alternation `w₁|w₂|…` of literal words. -/
def words : List (List α) → Regex α
  | [] => .fail
  | w :: ws => .alt (.lit w) (words ws)

section Repetition

variable (p : α → Bool) (k : List α → Option β)

omit [DecidableEq α] in
theorem runMany_eq_none :
    ∀ s : List α, (∀ v, v <:+ s → k v = none) →
      runMany p s k = none
  | [], h => h [] (List.suffix_refl [])
  | x :: s, h => by
      have htail : runMany p s k = none :=
        runMany_eq_none s
          (fun v hv => h v (hv.trans (List.suffix_cons x s)))
      have hhead : k (x :: s) = none := h _ (List.suffix_refl _)
      simp [runMany, htail, hhead]

omit [DecidableEq α] in
/-- A repetition gives back symbols until its continuation succeeds. -/
theorem runMany_append {b : β} :
    ∀ (u v : List α), (∀ x ∈ u, p x = true) →
      (∀ w, w <:+ v → w ≠ v → k w = none) → k v = some b →
      runMany p (u ++ v) k = some b
  | [], [], _, _, hv => by simpa [runMany] using hv
  | [], x :: v, _, hs, hv => by
      have htail : runMany p v k = none := by
        refine runMany_eq_none p k v (fun w hw => ?_)
        refine hs w (hw.trans (List.suffix_cons x v)) ?_
        intro he
        have hle := hw.length_le
        simp only [he, List.length_cons] at hle
        omega
      simp [runMany, htail, hv]
  | x :: u, v, hu, hs, hv => by
      have hx : p x = true := hu x (by simp)
      have ih := runMany_append u v
        (fun y hy => hu y (by simp [hy])) hs hv
      simp [runMany, hx, ih]

end Repetition

section Matching

variable (c : Captures α) (k : List α → Captures α → Option β)

@[simp] theorem run_lit_append (w s : List α) :
    run (.lit w) (w ++ s) c k = k s c := by
  simp [run]

theorem run_lit_eq_none {w s : List α} (h : ¬ w <+: s) :
    run (.lit w) s c k = none := by
  simp [run, h]

@[simp] theorem run_seq (r t : Regex α) (s : List α) :
    run (.seq r t) s c k =
      run r s c (fun s' c' => run t s' c' k) := rfl

@[simp] theorem run_alt (r t : Regex α) (s : List α) :
    run (.alt r t) s c k = (run r s c k <|> run t s c k) := rfl

@[simp] theorem run_opt (r : Regex α) (s : List α) :
    run (.opt r) s c k = (run r s c k <|> k s c) := rfl

@[simp] theorem run_many (p : α → Bool) (s : List α) :
    run (.many p) s c k = runMany p s (fun s' => k s' c) := rfl

@[simp] theorem run_group (i : Nat) (r : Regex α) (s : List α) :
    run (.group i r) s c k =
      run r s c (fun s' c' =>
        k s' (c'.record i (s.take (s.length - s'.length)))) := rfl

/-- An alternation of words tries them in order. -/
theorem run_words (ws : List (List α)) (s : List α) :
    run (words ws) s c k =
      ws.findSome? (fun w =>
        if w <+: s then k (s.drop w.length) c else none) := by
  induction ws with
  | nil => rfl
  | cons w ws ih =>
      rw [words, run_alt, ih, List.findSome?_cons]
      simp only [run]
      cases (if w <+: s then k (s.drop w.length) c else none) <;> rfl

/-- A closing `(.*)` takes everything that is left. -/
theorem run_group_many_atEnd
    (i : Nat) (p : α → Bool) (s : List α)
    (hs : ∀ x ∈ s, p x = true) :
    run (.group i (.many p)) s c atEnd = some (c.record i s) := by
  have hend :
      atEnd ([] : List α)
          (c.record i (s.take (s.length - ([] : List α).length))) =
        some (c.record i s) := by
    simp [atEnd]
  have h := runMany_append p
    (fun s' => atEnd s' (c.record i (s.take (s.length - s'.length))))
    s [] hs (fun w hw hne => absurd (List.suffix_nil.mp hw) hne) hend
  simpa using h

end Matching

end Backtrack
