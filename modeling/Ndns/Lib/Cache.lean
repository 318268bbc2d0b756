import Mathlib.Logic.Basic

/-!
# Cached encodings

An object that keeps the block it was encoded to, or decoded from, and hands it
out again.  The cache is coherent when the kept block decodes to the fields that
the object has now.  The lemmas say for each kind of step when it leaves a
coherent cache behind.

**Results.**
* `Coherent.assign_iff`, `Coherent.set_iff`: a step that leaves the cache alone;
* `coherent_iff_of_load`: a step that fills it with a block;
* `Coherent.encode`: a step that fills it if it is empty;
* `coherent_decode_iff`: a step that fills it with a block and loads the fields;
* `coherent_of_empty`: a step that empties it.
-/

namespace Cache

variable {σ φ β : Type}

/-- How objects of type `σ` are looked at. -/
structure View (σ φ β : Type) where
  cache : σ → Option β
  /-- The fields that are encoded. -/
  fields : σ → φ
  decode : β → Option φ

/-- The kept block, if any, decodes to the fields. -/
def Coherent (V : View σ φ β) (s : σ) : Prop :=
  ∀ b, V.cache s = some b → V.decode b = some (V.fields s)

variable {V : View σ φ β} {s s' : σ}

theorem coherent_of_empty (h : V.cache s = none) : Coherent V s := by
  intro b hb
  rw [h] at hb
  exact absurd hb (by simp)

/-- A step that changes neither the cache nor the fields. -/
theorem coherent_congr
    (hcache : V.cache s' = V.cache s) (hfields : V.fields s' = V.fields s) :
    Coherent V s' ↔ Coherent V s := by
  unfold Coherent
  rw [hcache, hfields]

/-- A step that leaves the cache alone may change the fields only while there is
nothing in it. -/
theorem Coherent.assign_iff
    (h : Coherent V s) (hcache : V.cache s' = V.cache s) :
    Coherent V s' ↔ V.cache s = none ∨ V.fields s' = V.fields s := by
  constructor
  · intro h'
    cases hb : V.cache s with
    | none =>
        exact Or.inl rfl
    | some b =>
        have hdecode := h b hb
        rw [h' b (hcache.trans hb)] at hdecode
        exact Or.inr (Option.some.inj hdecode)
  · rintro (hempty | hfields)
    · exact coherent_of_empty (hcache.trans hempty)
    · exact (coherent_congr hcache hfields).mpr h

/-- The same, said of what is set. -/
theorem Coherent.set_iff
    {unchanged : Prop} (h : Coherent V s) (hcache : V.cache s' = V.cache s)
    (hfields : V.fields s' = V.fields s ↔ unchanged) :
    Coherent V s' ↔ V.cache s = none ∨ unchanged :=
  (h.assign_iff hcache).trans (or_congr Iff.rfl hfields)

/-- A step that puts a block in the cache. -/
theorem coherent_iff_of_load
    {b : β} (hcache : V.cache s' = some b) :
    Coherent V s' ↔ V.decode b = some (V.fields s') := by
  constructor
  · intro h
    exact h b hcache
  · rintro h b' hb'
    obtain rfl := Option.some.inj (hcache.symm.trans hb')
    exact h

/-- A step that encodes the fields if there is no block yet. -/
theorem Coherent.encode
    {b : β} (h : Coherent V s) (hfields : V.fields s' = V.fields s)
    (hempty : V.cache s = none →
      V.cache s' = some b ∧ V.decode b = some (V.fields s))
    (hkept : ∀ b', V.cache s = some b' → V.cache s' = some b') :
    Coherent V s' := by
  cases hcache : V.cache s with
  | none =>
      obtain ⟨hfilled, hdecode⟩ := hempty hcache
      rw [coherent_iff_of_load hfilled, hfields]
      exact hdecode
  | some b' =>
      rw [coherent_iff_of_load (hkept b' hcache), hfields]
      exact h b' hcache

/-- A step that keeps the block it decodes, also when that fails and anything is
left in the fields. -/
theorem coherent_decode_iff
    {δ : Type} {decoded : Option δ} {load : δ → σ} {left : σ} {b : β}
    (hload : ∀ d, V.cache (load d) = some b) (hleft : V.cache left = some b)
    (hfails : decoded = none → V.decode b = none) :
    Coherent V ((decoded.map load).getD left) ↔
      ∃ d, decoded = some d ∧ V.decode b = some (V.fields (load d)) := by
  cases decoded with
  | none =>
      have hnone := hfails rfl
      simp [coherent_iff_of_load hleft, hnone]
  | some d =>
      simp [coherent_iff_of_load (hload d)]

end Cache
