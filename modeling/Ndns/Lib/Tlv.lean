import Mathlib.Data.List.Basic
import Mathlib.Data.List.Induction
import Mathlib.Data.List.TakeDrop
import Mathlib.Tactic.Ring
import Mathlib.Tactic.SplitIfs

/-!
# Type-length-value blocks

Blocks are written back to front: an encoder prepends to a buffer and returns how
many bytes it wrote, and an enclosing block takes its length from that count.
They are read front to back: `readBlock` takes one block off a buffer and
`Block.parse` cuts the value of a block into its elements.

Types and lengths are variable-size numbers of one, three, five or nine bytes,
and non-negative integers are one, two, four or eight bytes, all big-endian.

**Results.**
* `readVarNumber_append`, `readNonNegativeInteger_encode`: numbers are read back;
* `Writes`: an encoder writes given bytes and returns their number, with rules
  for sequences (`Writes.append`), loops (`writes_prependEach`) and enclosing
  blocks (`Writes.enclose`);
* `Block.parse_flatten`: the elements of a value are read back.
-/

namespace Tlv

abbrev Buffer := List UInt8

section BigEndian

/-- The `k` low-order bytes of a number, the most significant one first. -/
def bigEndian : Nat → Nat → Buffer
  | 0, _ => []
  | k + 1, n => bigEndian k (n / 256) ++ [UInt8.ofNat n]

def ofBigEndian (bs : Buffer) : Nat :=
  bs.foldl (fun acc b => acc * 256 + b.toNat) 0

@[simp] theorem length_bigEndian
    (k n : Nat) :
    (bigEndian k n).length = k := by
  induction k generalizing n with
  | zero =>
      rfl
  | succ k ih =>
      simp [bigEndian, ih]

theorem ofBigEndian_bigEndian
    {k n : Nat}
    (h : n < 256 ^ k) :
    ofBigEndian (bigEndian k n) = n := by
  induction k generalizing n with
  | zero =>
      have hn : n = 0 := by
        simpa using h
      simp [bigEndian, ofBigEndian, hn]
  | succ k ih =>
      have hdiv : n / 256 < 256 ^ k := by
        rw [pow_succ] at h
        omega
      have hlow : (UInt8.ofNat n).toNat = n % 256 := by
        simp
      have hrec := ih hdiv
      unfold ofBigEndian at hrec ⊢
      rw [bigEndian, List.foldl_append, hrec]
      simp only [List.foldl_cons, List.foldl_nil, hlow]
      omega

theorem ofBigEndian_lt (bs : Buffer) :
    ofBigEndian bs < 256 ^ bs.length := by
  induction bs using List.reverseRecOn with
  | nil =>
      simp [ofBigEndian]
  | append_singleton bs b ih =>
      have hb := b.toNat_lt
      unfold ofBigEndian at ih ⊢
      rw [List.foldl_append, List.length_append, pow_add]
      simp only [List.foldl_cons, List.foldl_nil, List.length_singleton,
        pow_one]
      omega

end BigEndian

section Numbers

/-- A variable-size number. -/
def varNumber (n : Nat) : Buffer :=
  if n < 253 then [UInt8.ofNat n]
  else if n ≤ 0xFFFF then 253 :: bigEndian 2 n
  else if n ≤ 0xFFFFFFFF then 254 :: bigEndian 4 n
  else 255 :: bigEndian 8 n

/-- The number of bytes behind the first byte of a long number. -/
def numberSize (b : UInt8) : Nat :=
  if b = 253 then 2 else if b = 254 then 4 else 8

def readVarNumber : Buffer → Option (Nat × Buffer)
  | [] => none
  | b :: bs =>
      if b.toNat < 253 then some (b.toNat, bs)
      else if bs.length < numberSize b then none
      else
        some (ofBigEndian (bs.take (numberSize b)), bs.drop (numberSize b))

theorem readVarNumber_long
    {b : UInt8} (k : Nat) {n : Nat}
    (hb : ¬ b.toNat < 253) (hk : numberSize b = k)
    (hn : n < 256 ^ k) (s : Buffer) :
    readVarNumber (b :: bigEndian k n ++ s) = some (n, s) := by
  have hlen : ¬ (bigEndian k n ++ s).length < k := by
    simp
  rw [List.cons_append, readVarNumber, if_neg hb, hk, if_neg hlen]
  have htake : (bigEndian k n ++ s).take k = bigEndian k n :=
    List.take_left' (length_bigEndian k n)
  have hdrop : (bigEndian k n ++ s).drop k = s :=
    List.drop_left' (length_bigEndian k n)
  rw [htake, hdrop, ofBigEndian_bigEndian hn]

/-- A variable-size number is read back. -/
theorem readVarNumber_append
    {n : Nat}
    (h : n < 2 ^ 64) (s : Buffer) :
    readVarNumber (varNumber n ++ s) = some (n, s) := by
  unfold varNumber
  split
  · next hn =>
      have hval : (UInt8.ofNat n).toNat = n := by
        simp
        omega
      simp [readVarNumber, hval, hn]
  · split
    · exact readVarNumber_long 2 (by decide) rfl (by omega) s
    · split
      · exact readVarNumber_long 4 (by decide) rfl (by omega) s
      · exact readVarNumber_long 8 (by decide) rfl (by omega) s

theorem readVarNumber_length
    {s t : Buffer} {n : Nat}
    (h : readVarNumber s = some (n, t)) :
    t.length < s.length := by
  cases s with
  | nil =>
      simp [readVarNumber] at h
  | cons b bs =>
      rw [readVarNumber] at h
      split at h
      · simp only [Option.some.injEq, Prod.mk.injEq] at h
        simp [← h.2]
      · split at h
        · simp at h
        · simp only [Option.some.injEq, Prod.mk.injEq] at h
          rw [← h.2, List.length_drop, List.length_cons]
          omega

/-- A non-negative integer in the shortest of its four sizes. -/
def nonNegativeInteger (n : Nat) : Buffer :=
  if n ≤ 0xFF then bigEndian 1 n
  else if n ≤ 0xFFFF then bigEndian 2 n
  else if n ≤ 0xFFFFFFFF then bigEndian 4 n
  else bigEndian 8 n

def readNonNegativeInteger (value : Buffer) : Option Nat :=
  if value.length ∈ [1, 2, 4, 8] then some (ofBigEndian value) else none

theorem readNonNegativeInteger_bigEndian
    {k n : Nat}
    (hk : k ∈ [1, 2, 4, 8]) (hn : n < 256 ^ k) :
    readNonNegativeInteger (bigEndian k n) = some n := by
  rw [readNonNegativeInteger, length_bigEndian, if_pos hk,
    ofBigEndian_bigEndian hn]

theorem readNonNegativeInteger_lt
    {value : Buffer} {n : Nat}
    (h : readNonNegativeInteger value = some n) :
    n < 2 ^ 64 := by
  unfold readNonNegativeInteger at h
  split at h
  · next hlength =>
      obtain rfl := Option.some.inj h
      have hle : value.length ≤ 8 := by
        simp only [List.mem_cons, List.not_mem_nil, or_false] at hlength
        omega
      calc ofBigEndian value < 256 ^ value.length := ofBigEndian_lt value
        _ ≤ 256 ^ 8 := Nat.pow_le_pow_right (by omega) hle
        _ = 2 ^ 64 := by norm_num
  · exact absurd h (by simp)

/-- A non-negative integer is read back. -/
theorem readNonNegativeInteger_encode
    {n : Nat}
    (h : n < 2 ^ 64) :
    readNonNegativeInteger (nonNegativeInteger n) = some n := by
  unfold nonNegativeInteger
  split
  · exact readNonNegativeInteger_bigEndian (by simp) (by omega)
  · split
    · exact readNonNegativeInteger_bigEndian (by simp) (by omega)
    · split
      · exact readNonNegativeInteger_bigEndian (by simp) (by omega)
      · exact readNonNegativeInteger_bigEndian (by simp) (by omega)

end Numbers

/-- One type-length-value element. -/
structure Block where
  type : Nat
  value : Buffer
deriving DecidableEq

namespace Block

def encode (b : Block) : Buffer :=
  varNumber b.type ++ (varNumber b.value.length ++ b.value)

/-- The numbers in front of the value can be written. -/
structure Fits (b : Block) : Prop where
  type_lt : b.type < 2 ^ 32
  length_lt : b.value.length < 2 ^ 64

end Block

/-- The bytes of a sequence of elements. -/
def flatten (bs : List Block) : Buffer :=
  bs.flatMap Block.encode

@[simp] theorem flatten_nil : flatten [] = [] := rfl

@[simp] theorem flatten_cons
    (b : Block) (bs : List Block) :
    flatten (b :: bs) = b.encode ++ flatten bs := by
  simp [flatten]

@[simp] theorem flatten_append
    (bs cs : List Block) :
    flatten (bs ++ cs) = flatten bs ++ flatten cs := by
  simp [flatten]

/-- A piece of a value is not longer than the value. -/
theorem length_le_flatten
    {b : Block} {bs : List Block}
    (h : b ∈ bs) :
    b.value.length ≤ (flatten bs).length := by
  obtain ⟨u, v, rfl⟩ := List.append_of_mem h
  simp only [flatten_append, flatten_cons, Block.encode,
    List.length_append]
  omega

theorem varNumber_ne_nil (n : Nat) : varNumber n ≠ [] := by
  unfold varNumber
  split_ifs <;> simp

/-- There are no more elements than bytes. -/
theorem length_le_length_flatten (bs : List Block) :
    bs.length ≤ (flatten bs).length := by
  induction bs with
  | nil =>
      simp
  | cons b bs ih =>
      have := List.length_pos_of_ne_nil (varNumber_ne_nil b.type)
      simp only [flatten_cons, Block.encode, List.length_append,
        List.length_cons]
      omega

section Reading

/-- Take one element off a buffer. -/
def readBlock (s : Buffer) : Option (Block × Buffer) := do
  let (type, s) ← readVarNumber s
  if type < 2 ^ 32 then
    let (length, s) ← readVarNumber s
    if length ≤ s.length then
      return (⟨type, s.take length⟩, s.drop length)
    else none
  else none

theorem readBlock_encode
    {b : Block}
    (h : b.Fits) (s : Buffer) :
    readBlock (b.encode ++ s) = some (b, s) := by
  have hlt := h.type_lt
  have htype := readVarNumber_append
    (show b.type < 2 ^ 64 by omega)
    (varNumber b.value.length ++ (b.value ++ s))
  have hlength := readVarNumber_append h.length_lt (b.value ++ s)
  simp only [Block.encode, List.append_assoc] at htype ⊢
  simp only [readBlock, htype, hlength, Option.bind_eq_bind,
    Option.bind_some, if_pos hlt]
  simp

theorem readBlock_length
    {s t : Buffer} {b : Block}
    (h : readBlock s = some (b, t)) :
    t.length < s.length := by
  simp only [readBlock, Option.bind_eq_bind, Option.bind_eq_some_iff,
    Prod.exists] at h
  obtain ⟨type, s₁, hs₁, h⟩ := h
  split at h
  · simp only [Option.bind_eq_some_iff, Prod.exists] at h
    obtain ⟨length, s₂, hs₂, h⟩ := h
    split at h
    · simp only [Option.pure_def, Option.some.injEq, Prod.mk.injEq] at h
      have h₁ := readVarNumber_length hs₁
      have h₂ := readVarNumber_length hs₂
      rw [← h.2, List.length_drop]
      omega
    · simp at h
  · simp at h

/-- The elements of a buffer, at most `fuel` of them. -/
def readBlocks : Nat → Buffer → Option (List Block)
  | _, [] => some []
  | 0, _ :: _ => none
  | fuel + 1, x :: s =>
      match readBlock (x :: s) with
      | none => none
      | some (b, t) => (readBlocks fuel t).map (b :: ·)

/-- A buffer has no more elements than bytes. -/
theorem readBlocks_fuel
    {fuel : Nat} {s : Buffer}
    (h : s.length ≤ fuel) :
    readBlocks fuel s = readBlocks s.length s := by
  induction fuel using Nat.strong_induction_on generalizing s with
  | _ fuel ih =>
      cases s with
      | nil =>
          cases fuel <;> rfl
      | cons x s =>
          cases fuel with
          | zero =>
              simp at h
          | succ fuel =>
              simp only [readBlocks, List.length_cons]
              cases hb : readBlock (x :: s) with
              | none =>
                  rfl
              | some bt =>
                  obtain ⟨b, t⟩ := bt
                  have ht := readBlock_length hb
                  simp only [List.length_cons] at h ht
                  have hleft := ih fuel (by omega) (s := t) (by omega)
                  have hright :
                      readBlocks s.length t = readBlocks t.length t := by
                    by_cases hs : s.length = fuel
                    · rw [hs, hleft]
                    · exact ih s.length (by omega) (by omega)
                  simp only [hleft, hright]

/-- `Block::parse`: the elements of a value. -/
def Block.parse (b : Block) : Option (List Block) :=
  readBlocks b.value.length b.value

/-- A block without elements is an empty one. -/
theorem Block.parse_eq_nil_iff (b : Block) :
    b.parse = some [] ↔ b.value = [] := by
  rw [Block.parse]
  cases b.value with
  | nil => simp [readBlocks]
  | cons x s =>
      rw [List.length_cons, readBlocks]
      cases readBlock (x :: s) with
      | none => simp
      | some bt => simp

/-- Take the next element of an element list, which must have this type. -/
def expect (type : Nat) : List Block → Option (Block × List Block)
  | [] => none
  | b :: it => if b.type = type then some (b, it) else none

@[simp] theorem expect_cons
    (type : Nat) (value : Buffer) (it : List Block) :
    expect type (⟨type, value⟩ :: it) = some (⟨type, value⟩, it) := by
  simp [expect]

theorem expect_eq_some
    {type : Nat} {it it' : List Block} {b : Block}
    (h : expect type it = some (b, it')) : it = b :: it' := by
  cases it with
  | nil =>
      exact absurd h (by simp [expect])
  | cons c it =>
      simp only [expect, Option.ite_none_right_eq_some] at h
      obtain ⟨-, h⟩ := h
      obtain ⟨rfl, rfl⟩ := Prod.mk.inj (Option.some.inj h)
      rfl

theorem readBlocks_flatten
    {bs : List Block}
    (h : ∀ b ∈ bs, b.Fits) :
    readBlocks (flatten bs).length (flatten bs) = some bs := by
  induction bs with
  | nil =>
      rfl
  | cons b bs ih =>
      have hb := readBlock_encode (h b (by simp)) (flatten bs)
      have hlen := readBlock_length hb
      have hrec := ih (fun c hc => h c (by simp [hc]))
      rw [flatten_cons] at *
      cases hs : b.encode ++ flatten bs with
      | nil =>
          simp [hs] at hlen
      | cons x s =>
          rw [hs] at hb hlen
          simp only [List.length_cons] at hlen ⊢
          simp only [readBlocks, hb]
          rw [readBlocks_fuel (by omega), hrec]
          rfl

/-- The elements of a value are read back. -/
theorem Block.parse_flatten
    (type : Nat) {bs : List Block}
    (h : ∀ b ∈ bs, b.Fits) :
    (Block.mk type (flatten bs)).parse = some bs :=
  readBlocks_flatten h

/-- A block in another one is its only element. -/
theorem Block.parse_encode
    (type : Nat) {b : Block} (h : b.Fits) :
    (Block.mk type b.encode).parse = some [b] := by
  have hone : ∀ b' ∈ [b], b'.Fits := by simpa using h
  simpa using Block.parse_flatten type hone

end Reading

section Writing

/-- Prepends to a buffer and returns the number of bytes written. -/
abbrev Encoder := StateM Buffer Nat

/-- The block at the front of the buffer that an encoder leaves. -/
def Encoder.block (e : Encoder) : Option Block :=
  (readBlock (e []).2).map Prod.fst

def prepend (bs : Buffer) : Encoder :=
  fun block => (bs.length, bs ++ block)

def prependVarNumber (n : Nat) : Encoder :=
  prepend (varNumber n)

/-- Close a block whose value has just been written. -/
def enclose (type : Nat) (body : Encoder) : Encoder := do
  let mut totalLength ← body
  totalLength := totalLength + (← prependVarNumber totalLength)
  totalLength := totalLength + (← prependVarNumber type)
  return totalLength

def prependByteArrayBlock (type : Nat) (bytes : Buffer) : Encoder :=
  enclose type (prepend bytes)

def prependNonNegativeIntegerBlock (type n : Nat) : Encoder :=
  enclose type (prepend (nonNegativeInteger n))

/-- Write one thing and then another one in front of it. -/
def andThen (e f : Encoder) : Encoder := do
  let mut totalLength ← e
  totalLength := totalLength + (← f)
  return totalLength

/-- Write all elements of a list, each in front of the ones before. -/
def prependEach {α : Type} (f : α → Encoder) : List α → Encoder
  | [] => pure 0
  | x :: xs => andThen (f x) (prependEach f xs)

/-- The encoder writes these bytes and returns their number. -/
def Writes (e : Encoder) (w : Buffer) : Prop :=
  ∀ block, e block = (w.length, w ++ block)

theorem Writes.block
    {e : Encoder} {b : Block}
    (h : Writes e b.encode) (hfits : b.Fits) :
    e.block = some b := by
  rw [Encoder.block, h [], readBlock_encode hfits]
  rfl

theorem writes_prepend (bs : Buffer) : Writes (prepend bs) bs :=
  fun _ => rfl

theorem run_bind
    {α β : Type} (e : StateM Buffer α) (f : α → StateM Buffer β)
    (block : Buffer) :
    (e >>= f) block = f (e block).1 (e block).2 := rfl

theorem run_pure {α : Type} (a : α) (block : Buffer) :
    (pure a : StateM Buffer α) block = (a, block) := rfl

theorem Writes.append
    {e f : Encoder} {v w : Buffer}
    (he : Writes e v) (hf : Writes f w) :
    Writes (andThen e f) (w ++ v) := by
  intro block
  have h₁ := he block
  have h₂ := hf (v ++ block)
  simp only [andThen, run_bind, run_pure, h₁, h₂]
  simp [Nat.add_comm]

/-- The length of an enclosing block is the length of what it encloses. -/
theorem Writes.enclose
    {e : Encoder} {w : Buffer}
    (he : Writes e w) (type : Nat) :
    Writes (enclose type e) (Block.mk type w).encode := by
  intro block
  have h := he block
  simp only [Tlv.enclose, run_bind, run_pure, h, prependVarNumber, prepend,
    Block.encode]
  have hlen :
      w.length + (varNumber w.length).length + (varNumber type).length =
        (varNumber type ++ (varNumber w.length ++ w)).length := by
    simp only [List.length_append]
    omega
  rw [← hlen]
  simp only [List.append_assoc]

theorem writes_prependByteArrayBlock
    (type : Nat) (bytes : Buffer) :
    Writes (prependByteArrayBlock type bytes)
      (Block.mk type bytes).encode :=
  (writes_prepend bytes).enclose type

theorem writes_prependNonNegativeIntegerBlock (type n : Nat) :
    Writes (prependNonNegativeIntegerBlock type n)
      (Block.mk type (nonNegativeInteger n)).encode :=
  (writes_prepend _).enclose type

/-- What a loop writes comes out in the opposite order. -/
theorem writes_prependEach
    {α : Type} {f : α → Encoder} {w : α → Buffer}
    (h : ∀ x, Writes (f x) (w x)) (xs : List α) :
    Writes (prependEach f xs) (xs.reverse.flatMap w) := by
  induction xs with
  | nil =>
      intro block
      rfl
  | cons x xs ih =>
      rw [List.reverse_cons, List.flatMap_append]
      simpa [prependEach] using (h x).append ih

end Writing

end Tlv
