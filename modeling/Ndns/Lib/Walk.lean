import Mathlib.Data.List.Basic
import Mathlib.Data.List.TakeDrop

/-!
# Walks

Code that indexes a list, or walks it with a hand-written iterator, compares with
the end before it reads an element, or forgets to.  A walk ends with a value, with
a thrown error or, when it reads at or past the end of a list, out of bounds.

**Results.**
* `inBounds_bind_iff`: a walk stays in bounds when each of its parts does;
* `inBounds_run_iff`: the same for one step after the other;
* `Iterator.expect_inBounds`: an element that is checked before it is taken;
* `Iterator.expectTelling_inBounds_iff`: an error message about the element that
  the iterator stands on;
* `Iterator.expect_eq_ok_iff`: what such a step takes off the rest of the list.
-/

namespace Walk

/-- How a walk may end without a value. -/
inductive Fault (ε : Type) where
  | thrown (what : ε)
  | outOfBounds
deriving DecidableEq

end Walk

open Walk

/-- A walk along lists, with errors of type `ε`. -/
abbrev Walk (ε α : Type) := Except (Fault ε) α

namespace Walk

variable {ε α β : Type}

def thrown (what : ε) : Walk ε α :=
  .error (.thrown what)

def ofOption (what : ε) : Option α → Walk ε α
  | none => thrown what
  | some a => .ok a

/-- No element is read at or past the end of its list. -/
def InBounds (w : Walk ε α) : Prop :=
  w ≠ .error .outOfBounds

theorem inBounds_ok (a : α) : InBounds (.ok a : Walk ε α) := by
  simp [InBounds]

theorem inBounds_thrown (what : ε) : InBounds (thrown what : Walk ε α) := by
  simp [InBounds, thrown]

theorem inBounds_ofOption (what : ε) (o : Option α) :
    InBounds (ofOption what o) := by
  cases o with
  | none => exact inBounds_thrown what
  | some a => exact inBounds_ok a

/-- A walk stays in bounds when each of its parts does. -/
theorem inBounds_bind_iff (w : Walk ε α) (f : α → Walk ε β) :
    InBounds (w >>= f) ↔ InBounds w ∧ ∀ a, w = .ok a → InBounds (f a) := by
  cases w with
  | error e =>
      simp [InBounds, bind, Except.bind]
  | ok a =>
      simp [InBounds, bind, Except.bind]

theorem InBounds.bind {w : Walk ε α} {f : α → Walk ε β}
    (hw : InBounds w) (hf : ∀ a, w = .ok a → InBounds (f a)) :
    InBounds (w >>= f) :=
  (inBounds_bind_iff w f).mpr ⟨hw, hf⟩

/-- A part that cannot leave its list only decides what comes next. -/
theorem inBounds_bind_iff_of_inBounds {w : Walk ε α} {f : α → Walk ε β}
    (hw : InBounds w) :
    InBounds (w >>= f) ↔ ∀ a, w = .ok a → InBounds (f a) := by
  rw [inBounds_bind_iff]
  exact and_iff_right hw

theorem bind_eq_ok_iff (w : Walk ε α) (f : α → Walk ε β) (b : β) :
    (w >>= f) = .ok b ↔ ∃ a, w = .ok a ∧ f a = .ok b := by
  cases w with
  | error e => simp [bind, Except.bind]
  | ok a => simp [bind, Except.bind]

@[simp] theorem toOption_ofOption (what : ε) (o : Option α) :
    (ofOption what o).toOption = o := by
  cases o <;> rfl

theorem toOption_bind (w : Walk ε α) (f : α → Walk ε β) :
    (w >>= f).toOption = w.toOption.bind (fun a => (f a).toOption) := by
  cases w <;> rfl

theorem toOption_eq_some_iff (w : Walk ε α) (a : α) :
    w.toOption = some a ↔ w = .ok a := by
  cases w with
  | error e => simp [Except.toOption]
  | ok b => simp [Except.toOption]

theorem ofOption_eq_ok_iff (what : ε) (o : Option α) (a : α) :
    ofOption what o = .ok a ↔ o = some a := by
  rw [← toOption_eq_some_iff, toOption_ofOption]

/-- `xs[i]` -/
def index (xs : List α) (i : Nat) : Walk ε α :=
  match xs[i]? with
  | none => .error .outOfBounds
  | some a => .ok a

theorem inBounds_index_iff (xs : List α) (i : Nat) :
    InBounds (index xs i : Walk ε α) ↔ i < xs.length := by
  rw [index]
  by_cases h : i < xs.length
  · rw [List.getElem?_eq_getElem h]
    exact iff_of_true (inBounds_ok _) h
  · rw [List.getElem?_eq_none (Nat.le_of_not_lt h)]
    exact iff_of_false (by simp [InBounds]) h

@[simp] theorem toOption_index (xs : List α) (i : Nat) :
    (index xs i : Walk ε α).toOption = xs[i]? := by
  rw [index]
  cases xs[i]? <;> rfl

section Runs

variable {σ ι : Type}

/-- One step after the other, as long as none of them fails. -/
def run (step : ι → σ → Walk ε σ) : List ι → σ → Walk ε σ
  | [], s => .ok s
  | i :: is, s => do
      let s ← step i s
      run step is s

/-- Every step of a run that is taken meets a condition on its input and the
state in front of it. -/
def Along (step : ι → σ → Walk ε σ) (ok : ι → σ → Prop) :
    List ι → σ → Prop
  | [], _ => True
  | i :: is, s => ok i s ∧ ∀ s', step i s = .ok s' → Along step ok is s'

/-- A run stays in bounds exactly when each of its steps is one that does. -/
theorem inBounds_run_iff
    {step : ι → σ → Walk ε σ} {ok : ι → σ → Prop} {I : σ → Prop}
    (hstep : ∀ i s, I s → (InBounds (step i s) ↔ ok i s))
    (hkeep : ∀ i s s', I s → step i s = .ok s' → I s')
    {is : List ι} {s : σ} (hs : I s) :
    InBounds (run step is s) ↔ Along step ok is s := by
  induction is generalizing s with
  | nil =>
      exact iff_of_true (inBounds_ok s) trivial
  | cons i is ih =>
      rw [run, inBounds_bind_iff, Along, hstep i s hs]
      refine and_congr_right (fun _ => forall₂_congr (fun s' hs' => ?_))
      exact ih (hkeep i s s' hs hs')

end Runs

end Walk

/-- A position in a list. -/
structure Iterator (α : Type) where
  elems : List α
  pos : Nat

namespace Iterator

variable {ε α : Type}

/-- `begin()` -/
def start (elems : List α) : Iterator α :=
  ⟨elems, 0⟩

/-- `it == end()` -/
def atEnd (it : Iterator α) : Bool :=
  decide (it.elems.length ≤ it.pos)

/-- `it++` -/
def next (it : Iterator α) : Iterator α :=
  { it with pos := it.pos + 1 }

/-- `*it` -/
def get (it : Iterator α) : Walk ε α :=
  index it.elems it.pos

/-- What lies in front of the iterator. -/
def rest (it : Iterator α) : List α :=
  it.elems.drop it.pos

/-- `it != end() && p(*it)` -/
def holds (p : α → Bool) (it : Iterator α) : Walk ε Bool :=
  if it.atEnd then .ok false
  else do
    let a ← it.get
    return p a

/-- `if (it != end() && p(*it)) { … *it …; it++; } else throw` -/
def expect (p : α → Bool) (what : ε) (it : Iterator α) :
    Walk ε (α × Iterator α) := do
  if ← it.holds p then
    let a ← it.get
    return (a, it.next)
  else
    thrown what

/-- The same with an error that is made from `*it`. -/
def expectTelling (p : α → Bool) (what : α → ε) (it : Iterator α) :
    Walk ε (α × Iterator α) := do
  if ← it.holds p then
    let a ← it.get
    return (a, it.next)
  else
    let a ← it.get
    thrown (what a)

@[simp] theorem rest_start (elems : List α) : (start elems).rest = elems := by
  simp [start, rest]

theorem rest_next (it : Iterator α) : it.next.rest = it.rest.tail := by
  simp [next, rest]

theorem get_eq (it : Iterator α) :
    (it.get : Walk ε α) =
      match it.rest with
      | [] => .error .outOfBounds
      | a :: _ => .ok a := by
  have hhead : it.elems[it.pos]? = it.rest.head? := by
    rw [rest, List.head?_drop]
  rw [get, index, hhead]
  cases it.rest <;> rfl

theorem atEnd_eq (it : Iterator α) : it.atEnd = it.rest.isEmpty := by
  rw [atEnd, rest, Bool.eq_iff_iff, decide_eq_true_iff, List.isEmpty_iff,
    List.drop_eq_nil_iff]

theorem holds_eq (p : α → Bool) (it : Iterator α) :
    (it.holds p : Walk ε Bool) = .ok (it.rest.head?.any p) := by
  rw [holds, atEnd_eq, get_eq]
  cases it.rest <;> rfl

theorem expect_eq (p : α → Bool) (what : ε) (it : Iterator α) :
    it.expect p what =
      match it.rest with
      | [] => thrown what
      | a :: _ => if p a then .ok (a, it.next) else thrown what := by
  rw [expect, holds_eq, get_eq]
  cases it.rest with
  | nil => rfl
  | cons a es =>
      cases hp : p a <;> simp [hp, bind, Except.bind, pure, Except.pure]

theorem expectTelling_eq (p : α → Bool) (what : α → ε) (it : Iterator α) :
    it.expectTelling p what =
      match it.rest with
      | [] => .error .outOfBounds
      | a :: _ => if p a then .ok (a, it.next) else thrown (what a) := by
  rw [expectTelling, holds_eq, get_eq]
  cases it.rest with
  | nil => rfl
  | cons a es =>
      cases hp : p a <;> simp [hp, bind, Except.bind, pure, Except.pure]

/-- An element is read only where there is one. -/
theorem expect_inBounds (p : α → Bool) (what : ε) (it : Iterator α) :
    InBounds (it.expect p what) := by
  rw [expect_eq]
  cases it.rest with
  | nil => exact inBounds_thrown what
  | cons a es =>
      dsimp only
      split
      · exact inBounds_ok _
      · exact inBounds_thrown what

/-- A message about the element needs one. -/
theorem expectTelling_inBounds_iff
    (p : α → Bool) (what : α → ε) (it : Iterator α) :
    InBounds (it.expectTelling p what) ↔ it.rest ≠ [] := by
  rw [expectTelling_eq]
  cases it.rest with
  | nil => simp [InBounds]
  | cons a es =>
      dsimp only
      split
      · simpa using inBounds_ok _
      · simpa using inBounds_thrown _

theorem expect_eq_ok_iff
    (p : α → Bool) (what : ε) (it : Iterator α) (x : α × Iterator α) :
    it.expect p what = .ok x ↔
      p x.1 = true ∧ it.rest = x.1 :: x.2.rest ∧ x.2 = it.next := by
  rw [expect_eq]
  have htail := it.rest_next
  cases hrest : it.rest with
  | nil => simp [thrown]
  | cons b es =>
      rw [hrest, List.tail_cons] at htail
      by_cases hp : p b = true
      · simp only [if_pos hp, Except.ok.injEq, List.cons.injEq]
        constructor
        · rintro rfl
          exact ⟨hp, ⟨rfl, htail.symm⟩, rfl⟩
        · rintro ⟨-, ⟨hb, -⟩, hnext⟩
          exact Prod.ext hb hnext.symm
      · simp only [if_neg hp, thrown, List.cons.injEq]
        refine iff_of_false (by simp) ?_
        rintro ⟨hx, ⟨rfl, -⟩, -⟩
        exact hp hx

/-- What is taken does not depend on the message. -/
theorem expectTelling_eq_ok_iff
    (p : α → Bool) (tell : α → ε) (what : ε) (it : Iterator α)
    (x : α × Iterator α) :
    it.expectTelling p tell = .ok x ↔ it.expect p what = .ok x := by
  rw [expectTelling_eq, expect_eq]
  cases it.rest with
  | nil => simp [thrown]
  | cons b es =>
      by_cases hp : p b = true
      · simp only [if_pos hp]
      · simp [hp, thrown]

end Iterator
