import Ndns.Lib.Backtrack
import Ndns.Name
import Mathlib.Data.List.Basic

/-!
# The name patterns

The server tells queries from updates, and takes them apart, with expressions
of one shape,

  `((/.*)%F0\.)?(/.*)/?(w₁|w₂|…)(/.*)/(t₁|t₂|…)(.*)`,

matched against the whole URI of a name.  Nothing in it is tied to the
boundaries of components, so what it captures has to be worked out from the
order in which the matcher tries things.

A `Reading` says where the matcher ends up on a URI with the segments `es`:
`(t₁|…)` is at the front of the *last* segment that starts with one of the types
and has a label in front of it, and `(w₁|…)` is at the end of the *last* segment
that ends with one of the words and leaves a label in between.

**Results.**
* `exists_reading`: a word followed by a label and a type can always be moved
  to a reading;
* `matchName_of_reading`, `matchName_of_hint`: what a reading captures;
* `isSome_matchName_iff`: there is a match exactly where there is a cut.
-/

namespace Ndns

open Backtrack

/-- What `.` stands for: any byte but a line terminator. -/
def dot (b : UInt8) : Bool :=
  b != 10 && b != 13

/-- The text that the forwarding-hint marker has in a URI. -/
def marker : Bytes := ascii "%F0."

/-- `/.*` -/
def slashAny : Regex UInt8 :=
  .seq (.lit (ascii "/")) (.many dot)

/-- `/(t₁|t₂|…)(.*)` -/
def typeRegex (ts : List Bytes) : Regex UInt8 :=
  .seq (.lit (ascii "/")) (.seq (.group 6 (words ts)) (.group 7 (.many dot)))

/-- `(/.*)/(t₁|t₂|…)(.*)` -/
def labelRegex (ts : List Bytes) : Regex UInt8 :=
  .seq (.group 5 slashAny) (typeRegex ts)

/-- `(w₁|w₂|…)(/.*)/(t₁|t₂|…)(.*)` -/
def wordRegex (ws ts : List Bytes) : Regex UInt8 :=
  .seq (.group 4 (words ws)) (labelRegex ts)

/-- `(/.*)/?(w₁|w₂|…)(/.*)/(t₁|t₂|…)(.*)` -/
def zoneRegex (ws ts : List Bytes) : Regex UInt8 :=
  .seq (.group 3 slashAny) (.seq (.opt (.lit (ascii "/"))) (wordRegex ws ts))

/-- `((/.*)%F0\.)?(/.*)/?(w₁|w₂|…)(/.*)/(t₁|t₂|…)(.*)` -/
def nameRegex (ws ts : List Bytes) : Regex UInt8 :=
  .seq (.opt (.group 1 (.seq (.group 2 slashAny) (.lit marker))))
    (zoneRegex ws ts)

/-- The first word that a segment starts with. -/
def wordAt (ts : List Bytes) (e : Bytes) : Option Bytes :=
  ts.find? (fun t => decide (t <+: e))

/-- A nonempty label and, behind it, a segment that starts with a type. -/
def Typed (ts : List Bytes) (es : List Bytes) : Prop :=
  ∃ label e tail,
    es = label ++ e :: tail ∧ label ≠ [] ∧ wordAt ts e ≠ none

/-- Where the pattern with the words `ws` and the types `ts` cuts a URI. -/
structure Reading (ws ts : List Bytes) (es : List Bytes) where
  pre : List Bytes
  stem : Bytes
  word : Bytes
  label : List Bytes
  rrType : Bytes
  rest : Bytes
  tail : List Bytes
  es_eq :
    es = pre ++ (stem ++ word) :: (label ++ (rrType ++ rest) :: tail)
  word_mem : word ∈ ws
  label_ne_nil : label ≠ []
  type_eq : wordAt ts (rrType ++ rest) = some rrType
  tail_clean : ∀ e ∈ tail, wordAt ts e = none
  label_clean : ∀ e ∈ label.dropLast, ∀ w ∈ ws, ¬ w <:+ e

section Lists

variable {α : Type*}

theorem take_length_sub (u v : List α) :
    (u ++ v).take ((u ++ v).length - v.length) = u := by
  simp

/-- The last element with a property splits its list. -/
theorem exists_last_split (p : α → Prop) :
    ∀ l : List α, (∃ x ∈ l, p x) →
      ∃ a x b, l = a ++ x :: b ∧ p x ∧ ∀ y ∈ b, ¬ p y
  | [], h => by simp at h
  | x :: l, h => by
      by_cases hl : ∃ y ∈ l, p y
      · obtain ⟨a, y, b, rfl, hy, hb⟩ := exists_last_split p l hl
        exact ⟨x :: a, y, b, rfl, hy, hb⟩
      · have hx : p x := by
          obtain ⟨y, hy, hpy⟩ := h
          rcases List.mem_cons.mp hy with rfl | hy
          · exact hpy
          · exact absurd ⟨y, hy, hpy⟩ hl
        refine ⟨[], x, l, rfl, hx, fun y hy hpy => hl ⟨y, hy, hpy⟩⟩

/-- A search in which one candidate only can succeed. -/
theorem findSome?_eq_of_mem {β : Type*}
    (f : α → Option β) {x : α} :
    ∀ {l : List α}, x ∈ l → (∀ y ∈ l, y ≠ x → f y = none) →
      l.findSome? f = f x
  | [], hx, _ => by simp at hx
  | y :: l, hx, h => by
      rw [List.findSome?_cons]
      by_cases hy : y = x
      · subst hy
        cases hf : f y with
        | some b => rfl
        | none =>
            have hnone : l.findSome? f = none := by
              rw [List.findSome?_eq_none_iff]
              intro z hz
              by_cases hzy : z = y
              · rw [hzy, hf]
              · exact h z (by simp [hz]) hzy
            simp [hnone]
      · have hx' : x ∈ l := by
          rcases List.mem_cons.mp hx with hx | hx
          · exact absurd hx.symm hy
          · exact hx
        rw [h y (by simp) hy]
        exact findSome?_eq_of_mem f hx'
          (fun z hz => h z (by simp [hz]))

end Lists

section Segments

/-- A suffix of a path is a suffix of one segment and all later segments. -/
theorem suffix_path {e v : Bytes} {es : List Bytes}
    (h : v <:+ e ++ uriPath es) :
    ∃ pre y x post,
      e :: es = pre ++ (y ++ x) :: post ∧ v = x ++ uriPath post := by
  induction es generalizing e with
  | nil =>
      obtain ⟨y, hy⟩ := h
      exact ⟨[], y, v, [], by simpa using hy.symm, by simp⟩
  | cons f es ih =>
      obtain ⟨y, hy⟩ := h
      rcases List.append_eq_append_iff.mp hy with
        ⟨x, rfl, hv⟩ | ⟨x, rfl, hpath⟩
      · exact ⟨[], y, x, f :: es, rfl, hv⟩
      · cases x with
        | nil =>
            refine ⟨[], e, [], f :: es, by simp, ?_⟩
            simpa using hpath.symm
        | cons b x =>
            simp only [uriPath_cons, List.cons_append,
              List.cons.injEq] at hpath
            have hsuf : v <:+ f ++ uriPath es := ⟨x, hpath.2.symm⟩
            obtain ⟨pre, y', x', post, hes, hv⟩ := ih hsuf
            exact ⟨e :: pre, y', x', post, by simp [hes], hv⟩

/-- A word without slashes cannot reach past the end of a segment. -/
theorem prefix_path {w x : Bytes} {es : List Bytes}
    (hw : (47 : UInt8) ∉ w)
    (h : w <+: x ++ uriPath es) :
    w <+: x := by
  obtain ⟨t, ht⟩ := h
  rcases List.append_eq_append_iff.mp ht with
    ⟨r, rfl, -⟩ | ⟨r, rfl, hr⟩
  · exact List.prefix_append w r
  · cases r with
    | nil => simp
    | cons b r =>
        cases es with
        | nil => simp at hr
        | cons e es =>
            simp only [uriPath_cons, List.cons_append,
              List.cons.injEq] at hr
            refine absurd ?_ hw
            simp [← hr.1]

end Segments

section Matching

variable {ws ts : List Bytes}
variable (c : Captures UInt8)

theorem run_slash (s : Bytes)
    (k : Bytes → Captures UInt8 → Option (Captures UInt8)) :
    run (.lit (ascii "/")) (47 :: s) c k = k s c :=
  run_lit_append c k [47] s

theorem run_slash_eq_none {s : Bytes}
    (k : Bytes → Captures UInt8 → Option (Captures UInt8))
    (hs : ∀ s', s ≠ 47 :: s') :
    run (.lit (ascii "/")) s c k = none := by
  refine run_lit_eq_none c k ?_
  rintro ⟨s', hs'⟩
  exact hs s' hs'.symm

/-- The type is the first alternative that the segment starts with. -/
theorem run_typeRegex
    (hts : ∀ t ∈ ts, (47 : UInt8) ∉ t)
    (e : Bytes) (es : List Bytes)
    (hdot : ∀ x ∈ e ++ uriPath es, dot x = true) :
    run (typeRegex ts) (uriPath (e :: es)) c atEnd =
      (wordAt ts e).map (fun t =>
        (c.record 6 t).record 7 (e.drop t.length ++ uriPath es)) := by
  rw [uriPath_cons, typeRegex, run_seq, run_slash, run_seq, run_group,
    run_words]
  induction ts with
  | nil => rfl
  | cons t ts ih =>
      have ih := ih (fun t' ht' => hts t' (by simp [ht']))
      rw [List.findSome?_cons, wordAt, List.find?_cons]
      by_cases ht : t <+: e
      · obtain ⟨r, rfl⟩ := ht
        have hpre : t <+: t ++ r ++ uriPath es :=
          ⟨r ++ uriPath es, by simp⟩
        have hrest : ∀ x ∈ r ++ uriPath es, dot x = true :=
          fun x hx => hdot x (by
            rw [List.append_assoc]
            exact List.mem_append_right t hx)
        have hdrop :
            (t ++ r ++ uriPath es).drop t.length = r ++ uriPath es := by
          simp
        have htake :
            (t ++ r ++ uriPath es).take
                ((t ++ r ++ uriPath es).length -
                  (r ++ uriPath es).length) = t := by
          rw [List.append_assoc]
          exact take_length_sub t _
        rw [if_pos hpre, hdrop, htake,
          run_group_many_atEnd (c.record 6 t) 7 dot _ hrest]
        have hfind : decide (t <+: t ++ r) = true := by simp
        rw [hfind]
        simp
      · have hpre : ¬ t <+: e ++ uriPath es := fun h =>
          ht (prefix_path (hts t (by simp)) h)
        have hfind : decide (t <+: e) = false := by simpa using ht
        rw [if_neg hpre, hfind]
        exact ih

theorem run_typeRegex_eq_none {s : Bytes}
    (hs : ∀ s', s ≠ 47 :: s') :
    run (typeRegex ts) s c atEnd = none := by
  rw [typeRegex, run_seq]
  exact run_slash_eq_none c _ hs

/-- The type needs a slash in front and a matching segment behind it. -/
theorem run_typeRegex_suffix_eq_none
    (hts : ∀ t ∈ ts, (47 : UInt8) ∉ t)
    {x : Bytes} {post : List Bytes}
    (hx : (47 : UInt8) ∉ x)
    (hdot : ∀ b ∈ x ++ uriPath post, dot b = true)
    (hpost : ∀ e tail, x = [] → post = e :: tail → wordAt ts e = none) :
    run (typeRegex ts) (x ++ uriPath post) c atEnd = none := by
  cases x with
  | cons b x =>
      refine run_typeRegex_eq_none c (fun s' hs' => hx ?_)
      simp only [List.cons_append, List.cons.injEq] at hs'
      simp [hs'.1]
  | nil =>
      cases post with
      | nil => exact run_typeRegex_eq_none c (by simp)
      | cons e tail =>
          have hdot' : ∀ b ∈ e ++ uriPath tail, dot b = true :=
            fun b hb => hdot b (by simpa using Or.inr (by simpa using hb))
          rw [List.nil_append, run_typeRegex c hts e tail hdot',
            hpost e tail rfl rfl]
          rfl

/-- A group for everything behind a slash takes all up to the last place, inside
or behind a segment, from which the rest is matched. -/
theorem run_slashAny
    {i : Nat} {k : Bytes → Captures UInt8 → Option (Captures UInt8)}
    {pre : List Bytes} {stem rest : Bytes} {post : List Bytes}
    {d : Captures UInt8}
    (hdot : ∀ b ∈ uriPath (pre ++ (stem ++ rest) :: post), dot b = true)
    (hrest : ∀ (y x : Bytes) (c' : Captures UInt8),
      rest = y ++ x → y ≠ [] → k (x ++ uriPath post) c' = none)
    (hpost : ∀ (pre' : List Bytes) (y x : Bytes) (post' : List Bytes)
      (c' : Captures UInt8), post = pre' ++ (y ++ x) :: post' →
        k (x ++ uriPath post') c' = none)
    (hhere : k (rest ++ uriPath post)
      (c.record i (uriPath pre ++ 47 :: stem)) = some d) :
    run (.group i slashAny) (uriPath (pre ++ (stem ++ rest) :: post)) c k =
      some d := by
  obtain ⟨u, hu⟩ : ∃ u, uriPath pre ++ 47 :: stem = 47 :: u := by
    cases pre with
    | nil => exact ⟨stem, rfl⟩
    | cons f pre => exact ⟨f ++ uriPath pre ++ 47 :: stem, by simp⟩
  have hsplit :
      uriPath (pre ++ (stem ++ rest) :: post) =
        47 :: (u ++ (rest ++ uriPath post)) := by
    calc uriPath (pre ++ (stem ++ rest) :: post)
        = (uriPath pre ++ 47 :: stem) ++ (rest ++ uriPath post) := by simp
      _ = _ := by rw [hu, List.cons_append]
  rw [hsplit] at hdot ⊢
  rw [run_group, slashAny, run_seq, run_slash, run_many]
  refine runMany_append dot _ u _ ?_ ?_ ?_
  · exact fun b hb => hdot b (by simp [hb])
  · intro v hv hne
    obtain ⟨pre', y, x, post', hcut, rfl⟩ := suffix_path hv
    cases pre' with
    | nil =>
        obtain ⟨hyx, rfl⟩ := List.cons.inj hcut
        refine hrest y x _ hyx ?_
        rintro rfl
        exact hne (by rw [hyx, List.nil_append])
    | cons f pre' =>
        exact hpost pre' y x post' _ (List.cons.inj hcut).2
  · have htake :
        (47 :: (u ++ (rest ++ uriPath post))).take
            ((47 :: (u ++ (rest ++ uriPath post))).length -
              (rest ++ uriPath post).length) = 47 :: u :=
      take_length_sub (47 :: u) _
    rw [htake, ← hu]
    exact hhere

/-- The label takes everything up to the last segment with a type. -/
theorem run_labelRegex
    (hts : ∀ t ∈ ts, (47 : UInt8) ∉ t)
    {label tail : List Bytes} {e t : Bytes}
    (hslash : ∀ f ∈ label ++ e :: tail, (47 : UInt8) ∉ f)
    (hdot : ∀ b ∈ uriPath (label ++ e :: tail), dot b = true)
    (hlabel : label ≠ [])
    (ht : wordAt ts e = some t)
    (htail : ∀ f ∈ tail, wordAt ts f = none) :
    run (labelRegex ts) (uriPath (label ++ e :: tail)) c atEnd =
      some (((c.record 5 (uriPath label)).record 6 t).record 7
        (e.drop t.length ++ uriPath tail)) := by
  obtain ⟨pre, stem, rfl⟩ : ∃ pre stem, label = pre ++ [stem] :=
    ⟨_, _, (List.dropLast_append_getLast hlabel).symm⟩
  have hsplit :
      pre ++ [stem] ++ e :: tail = pre ++ (stem ++ []) :: (e :: tail) := by
    simp
  have hpath : uriPath (pre ++ [stem]) = uriPath pre ++ 47 :: stem := by
    simp
  have hbehind : ∀ b ∈ uriPath (e :: tail), dot b = true := by
    intro b hb
    refine hdot b ?_
    rw [uriPath_append]
    exact List.mem_append_right _ hb
  rw [hsplit] at hdot ⊢
  rw [labelRegex, run_seq, hpath]
  refine run_slashAny c hdot ?_ ?_ ?_
  · intro y x c' hyx hne
    exact absurd (List.append_eq_nil_iff.mp hyx.symm).1 hne
  · intro pre' y x post c' hcut
    refine run_typeRegex_suffix_eq_none c' hts ?_ ?_ ?_
    · have hseg : (47 : UInt8) ∉ y ++ x :=
        hslash (y ++ x) (List.mem_append_right _ (by simp [hcut]))
      exact fun hx => hseg (List.mem_append_right y hx)
    · intro b hb
      refine hbehind b ?_
      rw [hcut, uriPath_append, uriPath_cons, List.append_assoc]
      exact List.mem_append_right _
        (List.mem_cons_of_mem _ (List.mem_append_right y hb))
    · rintro f tail' rfl rfl
      refine htail f ?_
      cases pre' with
      | nil =>
          simp [(List.cons.inj hcut).2]
      | cons g pre' =>
          simp [(List.cons.inj hcut).2]
  · have hdot' : ∀ b ∈ e ++ uriPath tail, dot b = true := by
      intro b hb
      refine hbehind b ?_
      rw [uriPath_cons]
      exact List.mem_cons_of_mem _ hb
    rw [List.nil_append, run_typeRegex _ hts e tail hdot', ht]
    rfl

/-- A group for everything behind a slash fails if what follows it fails wherever
a segment is cut. -/
theorem run_slashAny_eq_none
    {i : Nat} {k : Bytes → Captures UInt8 → Option (Captures UInt8)}
    {es : List Bytes}
    (h : ∀ (pre : List Bytes) (y x : Bytes) (post : List Bytes)
      (c' : Captures UInt8), es = pre ++ (y ++ x) :: post →
        (∀ b ∈ x ++ uriPath post, b ∈ uriPath es) →
          k (x ++ uriPath post) c' = none) :
    run (.group i slashAny) (uriPath es) c k = none := by
  rw [run_group, slashAny, run_seq]
  cases es with
  | nil => exact run_slash_eq_none c _ (by simp)
  | cons f es =>
      rw [uriPath_cons, run_slash, run_many]
      refine runMany_eq_none dot _ _ (fun v hv => ?_)
      obtain ⟨pre, y, x, post, hes, rfl⟩ := suffix_path hv
      refine h pre y x post _ hes ?_
      intro b hb
      rw [uriPath_cons]
      exact List.mem_cons_of_mem _ (hv.subset hb)

theorem run_labelRegex_eq_none
    (hts : ∀ t ∈ ts, (47 : UInt8) ∉ t)
    {es : List Bytes}
    (hslash : ∀ f ∈ es, (47 : UInt8) ∉ f)
    (hdot : ∀ b ∈ uriPath es, dot b = true)
    (h : ¬ Typed ts es) :
    run (labelRegex ts) (uriPath es) c atEnd = none := by
  rw [labelRegex, run_seq]
  refine run_slashAny_eq_none c (fun pre y x post c' hes hmem => ?_)
  refine run_typeRegex_suffix_eq_none c' hts ?_
    (fun b hb => hdot b (hmem b hb)) ?_
  · have hseg : (47 : UInt8) ∉ y ++ x :=
      hslash (y ++ x) (by simp [hes])
    exact fun hx => hseg (List.mem_append_right y hx)
  · rintro e tail rfl rfl
    by_contra he
    refine h ⟨pre ++ [y ++ []], e, tail, ?_, by simp, he⟩
    rw [hes]
    simp

theorem run_labelRegex_of_ne_slash {s : Bytes}
    (hs : ∀ s', s ≠ 47 :: s') :
    run (labelRegex ts) s c atEnd = none := by
  rw [labelRegex, run_seq, run_group, slashAny, run_seq]
  exact run_slash_eq_none c _ hs

/-- A word that does not fill the rest of its segment is given up. -/
theorem run_word_eq_none
    {w x : Bytes} (post : List Bytes)
    (hw : (47 : UInt8) ∉ w) (hx : (47 : UInt8) ∉ x) (hne : w ≠ x) :
    (if w <+: x ++ uriPath post then
      run (labelRegex ts) ((x ++ uriPath post).drop w.length)
        (c.record 4 ((x ++ uriPath post).take
          ((x ++ uriPath post).length -
            ((x ++ uriPath post).drop w.length).length))) atEnd
      else none) = none := by
  by_cases hpre : w <+: x ++ uriPath post
  · obtain ⟨r, rfl⟩ := prefix_path hw hpre
    have hdrop :
        (w ++ r ++ uriPath post).drop w.length = r ++ uriPath post := by
      simp
    rw [if_pos hpre, hdrop]
    cases r with
    | nil => simp at hne
    | cons b r =>
        refine run_labelRegex_of_ne_slash _ (fun s' hs' => hx ?_)
        simp only [List.cons_append, List.cons.injEq] at hs'
        simp [hs'.1]
  · rw [if_neg hpre]

theorem run_wordRegex_of_mem
    (hws : ∀ w ∈ ws, (47 : UInt8) ∉ w)
    {x : Bytes} (post : List Bytes)
    (hmem : x ∈ ws) :
    run (wordRegex ws ts) (x ++ uriPath post) c atEnd =
      run (labelRegex ts) (uriPath post) (c.record 4 x) atEnd := by
  have hdrop : (x ++ uriPath post).drop x.length = uriPath post := by
    simp
  rw [wordRegex, run_seq, run_group, run_words,
    findSome?_eq_of_mem _ hmem (fun w hw hne =>
      run_word_eq_none c post (hws w hw) (hws x hmem) hne),
    if_pos (List.prefix_append x _), hdrop, take_length_sub]

theorem run_wordRegex_of_notMem
    (hws : ∀ w ∈ ws, (47 : UInt8) ∉ w)
    {x : Bytes} (post : List Bytes)
    (hx : (47 : UInt8) ∉ x) (hmem : x ∉ ws) :
    run (wordRegex ws ts) (x ++ uriPath post) c atEnd = none := by
  rw [wordRegex, run_seq, run_group, run_words,
    List.findSome?_eq_none_iff]
  intro w hw
  exact run_word_eq_none c post (hws w hw) hx
    (fun h => hmem (h ▸ hw))

/-- A segment that ends with a word, a label and a type behind it. -/
def Cuttable (ws ts : List Bytes) (es : List Bytes) : Prop :=
  ∃ pre stem word post,
    es = pre ++ (stem ++ word) :: post ∧ word ∈ ws ∧ Typed ts post

/-- `/?(w₁|w₂|…)…` at a suffix of the path. -/
theorem run_optWord_eq_none
    (hts : ∀ t ∈ ts, (47 : UInt8) ∉ t)
    (hws : ∀ w ∈ ws, (47 : UInt8) ∉ w ∧ w ≠ [])
    {x : Bytes} {post : List Bytes}
    (hx : (47 : UInt8) ∉ x)
    (hslash : ∀ e ∈ post, (47 : UInt8) ∉ e)
    (hdot : ∀ b ∈ uriPath post, dot b = true)
    (hword : x ∈ ws → ¬ Typed ts post)
    (hnext : ∀ e tail, post = e :: tail → e ∈ ws → ¬ Typed ts tail) :
    run (.seq (.opt (.lit (ascii "/"))) (wordRegex ws ts))
      (x ++ uriPath post) c atEnd = none := by
  have hws' : ∀ w ∈ ws, (47 : UInt8) ∉ w := fun w hw => (hws w hw).1
  have hhere :
      run (wordRegex ws ts) (x ++ uriPath post) c atEnd = none := by
    by_cases hmem : x ∈ ws
    · rw [run_wordRegex_of_mem c hws' post hmem]
      exact run_labelRegex_eq_none _ hts hslash hdot (hword hmem)
    · exact run_wordRegex_of_notMem c hws' post hx hmem
  rw [run_seq, run_opt, hhere]
  cases x with
  | cons b x =>
      have hb : ∀ s', b :: x ++ uriPath post ≠ 47 :: s' := by
        intro s' hs'
        simp only [List.cons_append, List.cons.injEq] at hs'
        exact hx (by simp [hs'.1])
      rw [run_slash_eq_none c _ hb]
      rfl
  | nil =>
      cases post with
      | nil =>
          rw [run_slash_eq_none c _ (by simp)]
          rfl
      | cons e tail =>
          have he : (47 : UInt8) ∉ e := hslash e (by simp)
          rw [List.nil_append, uriPath_cons, run_slash]
          by_cases hmem : e ∈ ws
          · rw [run_wordRegex_of_mem c hws' tail hmem,
              run_labelRegex_eq_none _ hts
                (fun f hf => hslash f (by simp [hf]))
                (fun b hb => hdot b (by simp [uriPath_cons, hb]))
                (hnext e tail rfl hmem)]
            rfl
          · rw [run_wordRegex_of_notMem c hws' tail he hmem]
            rfl

theorem run_zoneRegex_eq_none
    (hts : ∀ t ∈ ts, (47 : UInt8) ∉ t)
    (hws : ∀ w ∈ ws, (47 : UInt8) ∉ w ∧ w ≠ [])
    {es : List Bytes}
    (hslash : ∀ f ∈ es, (47 : UInt8) ∉ f)
    (hdot : ∀ b ∈ uriPath es, dot b = true)
    (h : ¬ Cuttable ws ts es) :
    run (zoneRegex ws ts) (uriPath es) c atEnd = none := by
  rw [zoneRegex, run_seq]
  refine run_slashAny_eq_none c (fun pre y x post c' hes hmem => ?_)
  have hseg : (47 : UInt8) ∉ y ++ x :=
    hslash (y ++ x) (by simp [hes])
  refine run_optWord_eq_none c' hts hws ?_ ?_ ?_ ?_ ?_
  · exact fun hx => hseg (List.mem_append_right y hx)
  · exact fun e he => hslash e (by simp [hes, he])
  · intro b hb
    exact hdot b (hmem b (List.mem_append_right x hb))
  · exact fun hx ht => h ⟨pre, y, x, post, hes, hx, ht⟩
  · rintro e tail rfl he ht
    refine h ⟨pre ++ [y ++ x], [], e, tail, ?_, he, ht⟩
    rw [hes]
    simp

end Matching

section Readings

variable {ws ts : List Bytes} {es : List Bytes}

namespace Reading

/-- The segments behind the one that holds the word. -/
def post (r : Reading ws ts es) : List Bytes :=
  r.label ++ (r.rrType ++ r.rest) :: r.tail

/-- Behind its word a reading leaves nothing to cut. -/
theorem not_cuttable_post (r : Reading ws ts es) :
    ¬ Cuttable ws ts r.post := by
  rintro ⟨pre, stem, word, post, heq, hword, label, e, tail, rfl, hne, he⟩
  have hsplit :
      r.label ++ (r.rrType ++ r.rest) :: r.tail =
        (pre ++ (stem ++ word) :: label) ++ e :: tail := by
    rw [← Reading.post, heq]
    simp
  -- the type of the other cut lies at or before the type of the reading
  have hle : (pre ++ (stem ++ word) :: label) <+: r.label := by
    rcases List.append_eq_append_iff.mp hsplit with
      ⟨d, hd, ht⟩ | ⟨d, hd, -⟩
    · cases d with
      | nil => rw [List.append_nil] at hd; rw [← hd]
      | cons f d =>
          have hmem : e ∈ r.tail := by
            have := (List.cons.inj ht).2
            simp [this]
          exact absurd (r.tail_clean e hmem) he
    · exact ⟨d, hd.symm⟩
  obtain ⟨d, hd⟩ := hle
  refine r.label_clean (stem ++ word) ?_ word hword
    (List.suffix_append stem word)
  rw [← hd, List.append_assoc, List.cons_append,
    List.dropLast_append_of_ne_nil (by simp)]
  refine List.mem_append_right pre ?_
  rw [List.dropLast_cons_of_ne_nil (by simp [hne])]
  exact List.mem_cons_self

end Reading

/-- A word followed by a label and a type can be moved to a reading. -/
theorem exists_reading (h : Cuttable ws ts es) :
    Nonempty (Reading ws ts es) := by
  obtain ⟨pre, stem, word, post, rfl, hword, label, e, tail, rfl, hne, he⟩ :=
    h
  obtain ⟨mid, f, tail', hmid, hf, htail⟩ :=
    exists_last_split (fun g => wordAt ts g ≠ none) (e :: tail)
      ⟨e, by simp, he⟩
  obtain ⟨t, ht⟩ := Option.ne_none_iff_exists'.mp hf
  have htf : t <+: f := by
    simpa using List.find?_some ht
  obtain ⟨rest, rfl⟩ := htf
  have hlab : label ++ mid ≠ [] := by simp [hne]
  obtain ⟨a, d, b, hab, hd, hb⟩ :=
    exists_last_split (fun g => ∃ w ∈ ws, w <:+ g)
      ((stem ++ word) :: (label ++ mid).dropLast)
      ⟨stem ++ word, by simp, word, hword, List.suffix_append stem word⟩
  obtain ⟨w, hw, stem', rfl⟩ := hd
  refine ⟨{
    pre := pre ++ a
    stem := stem'
    word := w
    label := b ++ [(label ++ mid).getLast hlab]
    rrType := t
    rest := rest
    tail := tail'
    es_eq := ?_
    word_mem := hw
    label_ne_nil := by simp
    type_eq := ht
    tail_clean := fun g hg => by simpa using htail g hg
    label_clean := ?_ }⟩
  · have hlast :
        (stem ++ word) :: (label ++ mid) =
          a ++ (stem' ++ w) :: (b ++ [(label ++ mid).getLast hlab]) := by
      have hab' := congrArg (· ++ [(label ++ mid).getLast hlab]) hab
      simpa [List.dropLast_append_getLast] using hab'
    have hcons :
        (stem ++ word) :: (label ++ e :: tail) =
          ((stem ++ word) :: (label ++ mid)) ++ (t ++ rest) :: tail' := by
      rw [hmid]
      simp
    rw [hcons, hlast]
    simp
  · intro g hg w' hw' hsuf
    rw [List.dropLast_concat] at hg
    exact hb g hg ⟨w', hw', hsuf⟩

end Readings

section Captures

variable {ws ts : List Bytes} {es : List Bytes}

/-- What the groups 3 to 7 hold after a match. -/
def Reading.captures
    (r : Reading ws ts es) (c : Captures UInt8) : Captures UInt8 :=
  ((((c.record 3 (uriPath r.pre ++ 47 :: r.stem)).record 4
    r.word).record 5 (uriPath r.label)).record 6 r.rrType).record 7
      (r.rest ++ uriPath r.tail)

/-- A URI that the patterns can be tried on. -/
structure Segments (es : List Bytes) : Prop where
  slash : ∀ e ∈ es, (47 : UInt8) ∉ e
  dot : ∀ b ∈ uriPath es, dot b = true

/-- The words of a pattern. -/
structure Vocabulary (ws ts : List Bytes) : Prop where
  types : ∀ t ∈ ts, (47 : UInt8) ∉ t
  words : ∀ w ∈ ws, (47 : UInt8) ∉ w ∧ w ≠ []
  suffix : ∀ w ∈ ws, ∀ w' ∈ ws, w <:+ w' → w = w'

/-- Behind a cut there is no slash in the segment, and segments follow. -/
theorem Segments.cut
    {pre : List Bytes} {y x : Bytes} {post : List Bytes}
    (h : Segments es) (hcut : es = pre ++ (y ++ x) :: post) :
    (47 : UInt8) ∉ x ∧ Segments post := by
  subst hcut
  refine ⟨?_, ?_, ?_⟩
  · have hseg : (47 : UInt8) ∉ y ++ x := h.slash (y ++ x) (by simp)
    exact fun hx => hseg (List.mem_append_right y hx)
  · exact fun e he => h.slash e (by simp [he])
  · intro b hb
    refine h.dot b ?_
    rw [uriPath_append, uriPath_cons]
    exact List.mem_append_right _
      (List.mem_cons_of_mem _ (List.mem_append_right _ hb))

/-- Without a marker in the way, a reading is what the pattern captures. -/
theorem run_zoneRegex
    (hv : Vocabulary ws ts) (hes : Segments es)
    (r : Reading ws ts es) (c : Captures UInt8) :
    run (zoneRegex ws ts) (uriPath es) c atEnd = some (r.captures c) := by
  have hws : ∀ w ∈ ws, (47 : UInt8) ∉ w := fun w hw => (hv.words w hw).1
  have hsplit : es = r.pre ++ (r.stem ++ r.word) :: r.post := r.es_eq
  have hpost : Segments r.post := (hes.cut hsplit).2
  have hdot := hes.dot
  rw [hsplit] at hdot
  conv_lhs => rw [hsplit]
  rw [zoneRegex, run_seq]
  refine run_slashAny c hdot ?_ ?_ ?_
  · -- a shorter suffix of the word itself
    intro y x c' hyx hne
    refine run_optWord_eq_none c' hv.types hv.words ?_ hpost.slash
      hpost.dot ?_ ?_
    · intro hx
      refine hws r.word r.word_mem ?_
      rw [hyx]
      exact List.mem_append_right y hx
    · intro hx
      have hxw : x = r.word :=
        hv.suffix x hx r.word r.word_mem ⟨y, hyx.symm⟩
      rw [hxw] at hyx
      exact absurd (List.self_eq_append_left.mp hyx) hne
    · intro e tail htail he ht
      exact r.not_cuttable_post ⟨[], [], e, tail, by simp [htail], he, ht⟩
  · intro pre y x post c' hcut
    obtain ⟨hx, hlater⟩ := hpost.cut hcut
    refine run_optWord_eq_none c' hv.types hv.words hx hlater.slash
      hlater.dot ?_ ?_
    · exact fun hx ht =>
        r.not_cuttable_post ⟨pre, y, x, post, hcut, hx, ht⟩
    · rintro e tail rfl he ht
      exact r.not_cuttable_post
        ⟨pre ++ [y ++ x], [], e, tail, by simp [hcut], he, ht⟩
  · have hnot : ∀ s', r.word ++ uriPath r.post ≠ 47 :: s' := by
      intro s' hs'
      obtain ⟨hslash, hne⟩ := hv.words r.word r.word_mem
      cases hw : r.word with
      | nil => exact hne hw
      | cons b w =>
          rw [hw, List.cons_append, List.cons.injEq] at hs'
          exact hslash (by simp [hw, hs'.1])
    rw [run_seq, run_opt, run_slash_eq_none _ _ hnot,
      run_wordRegex_of_mem _ hws r.post r.word_mem]
    have hlabel := run_labelRegex
      ((c.record 3 (uriPath r.pre ++ 47 :: r.stem)).record 4 r.word)
      hv.types hpost.slash hpost.dot r.label_ne_nil r.type_eq
      r.tail_clean
    have hrest :
        (r.rrType ++ r.rest).drop r.rrType.length = r.rest := by
      simp
    rw [hrest] at hlabel
    exact hlabel

/-- The hint ends at a segment that ends with the marker. -/
theorem run_marker_eq_none
    (hv : Vocabulary ws ts)
    {x : Bytes} {post : List Bytes} (c : Captures UInt8)
    (f : Bytes → Captures UInt8 → Captures UInt8)
    (hx : (47 : UInt8) ∉ x) (hpost : Segments post)
    (hcut : x = marker → ¬ Cuttable ws ts post) :
    run (.lit marker) (x ++ uriPath post) c
      (fun s' c' => run (zoneRegex ws ts) s' (f s' c') atEnd) = none := by
  by_cases hpre : marker <+: x ++ uriPath post
  · obtain ⟨r, rfl⟩ := prefix_path (by decide) hpre
    rw [List.append_assoc, run_lit_append]
    cases r with
    | nil =>
        exact run_zoneRegex_eq_none _ hv.types hv.words hpost.slash
          hpost.dot (hcut (by simp))
    | cons b r =>
        rw [zoneRegex, run_seq, run_group, slashAny, run_seq]
        refine run_slash_eq_none _ _ (fun s' hs' => hx ?_)
        simp only [List.cons_append, List.cons.injEq] at hs'
        simp [hs'.1]
  · exact run_lit_eq_none c _ hpre

/-- `(/.*)%F0\.` with the rest of the pattern behind it. -/
def runHint (ws ts : List Bytes) (s : Bytes) (c : Captures UInt8) :
    Option (Captures UInt8) :=
  run (.group 1 (.seq (.group 2 slashAny) (.lit marker))) s c
    (fun s' c' => run (zoneRegex ws ts) s' c' atEnd)

theorem fullMatch_nameRegex (s : Bytes) :
    fullMatch (nameRegex ws ts) s =
      (runHint ws ts s (fun _ => none) <|>
        run (zoneRegex ws ts) s (fun _ => none) atEnd) := rfl

theorem runHint_eq_none
    (hv : Vocabulary ws ts) (hes : Segments es) (c : Captures UInt8)
    (h : ∀ pre y post, es = pre ++ (y ++ marker) :: post →
      ¬ Cuttable ws ts post) :
    runHint ws ts (uriPath es) c = none := by
  rw [runHint, run_group, run_seq]
  refine run_slashAny_eq_none c (fun pre y x post c' hcut _ => ?_)
  obtain ⟨hx, hpost⟩ := hes.cut hcut
  refine run_marker_eq_none hv _
    (fun s' c' => c'.record 1
      ((uriPath es).take ((uriPath es).length - s'.length)))
    hx hpost ?_
  rintro rfl
  exact h pre y post hcut

theorem runHint_eq_some
    (hv : Vocabulary ws ts)
    {ph : List Bytes} {y : Bytes} {post : List Bytes}
    (hes : Segments (ph ++ (y ++ marker) :: post))
    (r : Reading ws ts post) (c : Captures UInt8)
    (h : ∀ pre y' post', post = pre ++ (y' ++ marker) :: post' →
      ¬ Cuttable ws ts post') :
    ∃ w, runHint ws ts (uriPath (ph ++ (y ++ marker) :: post)) c =
      some (r.captures
        ((c.record 2 (uriPath ph ++ 47 :: y)).record 1 w)) := by
  have hpost : Segments post := (hes.cut rfl).2
  rw [runHint, run_group, run_seq]
  refine ⟨uriPath ph ++ 47 :: y ++ marker, ?_⟩
  refine run_slashAny c hes.dot ?_ ?_ ?_
  · intro y' x c' hyx hne
    refine run_marker_eq_none hv c'
      (fun s' c' => c'.record 1
        ((uriPath (ph ++ (y ++ marker) :: post)).take
          ((uriPath (ph ++ (y ++ marker) :: post)).length - s'.length)))
      ?_ hpost ?_
    · intro hx
      have hmem : (47 : UInt8) ∈ marker := by
        rw [hyx]
        exact List.mem_append_right y' hx
      exact absurd hmem (by decide)
    · rintro rfl
      exact absurd (List.self_eq_append_left.mp hyx) hne
  · intro pre y' x post' c' hcut
    obtain ⟨hx, hlater⟩ := hpost.cut hcut
    refine run_marker_eq_none hv c'
      (fun s' c' => c'.record 1
        ((uriPath (ph ++ (y ++ marker) :: post)).take
          ((uriPath (ph ++ (y ++ marker) :: post)).length - s'.length)))
      hx hlater ?_
    rintro rfl
    exact h pre y' post' hcut
  · have htake :
        (uriPath (ph ++ (y ++ marker) :: post)).take
            ((uriPath (ph ++ (y ++ marker) :: post)).length -
              (uriPath post).length) = uriPath ph ++ 47 :: y ++ marker := by
      have := take_length_sub (uriPath ph ++ 47 :: y ++ marker)
        (uriPath post)
      simpa using this
    rw [run_lit_append, htake]
    exact run_zoneRegex hv hpost r _

end Captures

section Match

/-- The keys of the map that a match fills. -/
structure NameMap where
  hint : Bytes
  zone : Bytes
  queryType : Bytes
  rrLabel : Bytes
  rrType : Bytes
deriving DecidableEq

/-- A group that took no part reads as the empty string. -/
def NameMap.ofCaptures (c : Captures UInt8) : NameMap where
  hint := (c 2).getD []
  zone := (c 3).getD []
  queryType := (c 4).getD []
  rrLabel := (c 5).getD []
  rrType := (c 6).getD []

def matchName (ws ts : List Bytes) (str : Bytes) : Option NameMap :=
  (fullMatch (nameRegex ws ts) str).map NameMap.ofCaptures

variable {ws ts : List Bytes} {es : List Bytes}

theorem matchName_eq_none
    (hv : Vocabulary ws ts) (hes : Segments es)
    (h : ¬ Cuttable ws ts es) :
    matchName ws ts (uriPath es) = none := by
  have hhint : runHint ws ts (uriPath es) (fun _ => none) = none := by
    refine runHint_eq_none hv hes _ ?_
    rintro pre y post rfl ⟨pre', stem, word, post', rfl, hword, ht⟩
    exact h ⟨pre ++ (y ++ marker) :: pre', stem, word, post',
      by simp, hword, ht⟩
  rw [matchName, fullMatch_nameRegex, hhint,
    run_zoneRegex_eq_none _ hv.types hv.words hes.slash hes.dot h]
  rfl

/-- Segments in front of the word do not help to cut what is behind it. -/
theorem Reading.not_cuttable_of_split
    (r : Reading ws ts es)
    {pre : List Bytes} {e : Bytes} {post : List Bytes}
    (hsplit : es = pre ++ e :: post) (he : e ∉ r.pre) :
    ¬ Cuttable ws ts post := by
  intro hcut
  have heq :
      r.pre ++ (r.stem ++ r.word) :: r.post = pre ++ e :: post := by
    rw [← hsplit]
    exact r.es_eq.symm
  obtain ⟨d, hd⟩ : post <:+ r.post := by
    rcases List.append_eq_append_iff.mp heq with
      ⟨d, rfl, hd⟩ | ⟨d, hd, hpost⟩
    · cases d with
      | nil =>
          have hpost := (List.cons.inj hd).2
          rw [hpost]
      | cons f d =>
          have hpost := (List.cons.inj hd).2
          rw [hpost]
          exact ⟨d ++ [e], by simp⟩
    · cases d with
      | nil =>
          rw [(List.cons.inj hpost).2]
      | cons f d =>
          have hf := (List.cons.inj hpost).1
          refine absurd ?_ he
          rw [hd, hf]
          simp
  obtain ⟨pre', stem, word, post', hpost', hword, ht⟩ := hcut
  refine r.not_cuttable_post ⟨d ++ pre', stem, word, post', ?_, hword, ht⟩
  rw [← hd, hpost']
  simp

/-- A reading without a hint in front of it. -/
theorem matchName_of_reading
    (hv : Vocabulary ws ts) (hes : Segments es)
    (r : Reading ws ts es)
    (hpre : ∀ e ∈ r.pre, ¬ marker <:+ e) :
    matchName ws ts (uriPath es) =
      some {
        hint := []
        zone := uriPath r.pre ++ 47 :: r.stem
        queryType := r.word
        rrLabel := uriPath r.label
        rrType := r.rrType } := by
  have hhint : runHint ws ts (uriPath es) (fun _ => none) = none := by
    refine runHint_eq_none hv hes _ ?_
    intro pre y post hsplit
    refine r.not_cuttable_of_split hsplit (fun hmem => ?_)
    exact hpre _ hmem (List.suffix_append y marker)
  rw [matchName, fullMatch_nameRegex, hhint, run_zoneRegex hv hes r]
  simp [NameMap.ofCaptures, Reading.captures, Captures.record]

/-- A reading whose hint ends at the last segment with a marker. -/
theorem matchName_of_hint
    (hv : Vocabulary ws ts) (hes : Segments es)
    (r : Reading ws ts es)
    (ph : List Bytes) (y : Bytes) (pz : List Bytes)
    (hpre : r.pre = ph ++ (y ++ marker) :: pz)
    (hpz : ∀ e ∈ pz, ¬ marker <:+ e) :
    matchName ws ts (uriPath es) =
      some {
        hint := uriPath ph ++ 47 :: y
        zone := uriPath pz ++ 47 :: r.stem
        queryType := r.word
        rrLabel := uriPath r.label
        rrType := r.rrType } := by
  -- the same reading of the segments behind the hint
  let r' : Reading ws ts (pz ++ (r.stem ++ r.word) :: r.post) :=
    { pre := pz
      stem := r.stem
      word := r.word
      label := r.label
      rrType := r.rrType
      rest := r.rest
      tail := r.tail
      es_eq := rfl
      word_mem := r.word_mem
      label_ne_nil := r.label_ne_nil
      type_eq := r.type_eq
      tail_clean := r.tail_clean
      label_clean := r.label_clean }
  have heq :
      es = ph ++ (y ++ marker) :: (pz ++ (r.stem ++ r.word) :: r.post) := by
    refine r.es_eq.trans ?_
    rw [hpre]
    simp [Reading.post]
  have hes' := hes
  rw [heq] at hes'
  obtain ⟨w, hw⟩ := runHint_eq_some hv hes' r' (fun _ => none) (by
    intro pre y' post' hsplit
    refine r'.not_cuttable_of_split hsplit (fun hmem => ?_)
    exact hpz _ hmem (List.suffix_append y' marker))
  rw [← heq] at hw
  rw [matchName, fullMatch_nameRegex, hw]
  simp [NameMap.ofCaptures, Reading.captures, Captures.record, r']

/-- A reading of the segments behind some others. -/
def Reading.behind (front : List Bytes) (r : Reading ws ts es) :
    Reading ws ts (front ++ es) :=
  { r with
    pre := front ++ r.pre
    es_eq := (congrArg (front ++ ·) r.es_eq).trans (by simp) }

/-- Whatever stands in front of it, a reading decides word, label and type. -/
theorem matchName_reading
    (hv : Vocabulary ws ts) (hes : Segments es)
    (r : Reading ws ts es) :
    ∃ hint zone, matchName ws ts (uriPath es) =
      some ⟨hint, zone, r.word, uriPath r.label, r.rrType⟩ := by
  by_cases hm : ∃ e ∈ r.pre, marker <:+ e
  · obtain ⟨ph, e, pz, hpre, ⟨y, rfl⟩, hpz⟩ :=
      exists_last_split (fun e => marker <:+ e) r.pre hm
    exact ⟨_, _, matchName_of_hint hv hes r ph y pz hpre hpz⟩
  · refine ⟨_, _, matchName_of_reading hv hes r ?_⟩
    exact fun e he hsuf => hm ⟨e, he, hsuf⟩

/-- There is a match exactly where there is a cut. -/
theorem isSome_matchName_iff
    (hv : Vocabulary ws ts) (hes : Segments es) :
    (matchName ws ts (uriPath es)).isSome = true ↔ Cuttable ws ts es := by
  constructor
  · intro h
    by_contra hcut
    rw [matchName_eq_none hv hes hcut] at h
    simp at h
  · intro hcut
    obtain ⟨r⟩ := exists_reading hcut
    obtain ⟨hint, zone, hmatch⟩ := matchName_reading hv hes r
    rw [hmatch]
    rfl

end Match

end Ndns
