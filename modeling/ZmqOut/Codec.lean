import Mathlib.Data.List.Induction
import Mathlib.Data.Nat.ModEq
import Mathlib.InformationTheory.Coding.UniquelyDecodable

/-!
Decoders that take a value off the front of their input, the encoders they
invert, and codes whose words can be told apart when they are written one after
another. Numbers travel as big-endian bytes of a fixed width.
-/
namespace ZmqOut.Codec
universe u v w
variable {Symbol : Type u} {α : Type v} {β : Type w}

/-- A decoder returns the first value of its input and what follows it. -/
abbrev Decoder (Symbol : Type u) (α : Type v) := List Symbol → Option (α × List Symbol)

/-- The decoder reads every valid value back, whatever follows its encoding, and
    accepts nothing but encodings. -/
structure Inverts (decode : Decoder Symbol α) (encode : α → List Symbol) (valid : α → Prop) : Prop where
  complete : ∀ a, valid a → ∀ rest, decode (encode a ++ rest) = some (a,rest)
  sound : ∀ input a rest, decode input = some (a,rest) → input = encode a ++ rest

/-- One decoder after the other. -/
def pair (first : Decoder Symbol α) (second : Decoder Symbol β) : Decoder Symbol (α × β) := fun input =>
  (first input).bind fun (a,rest) => (second rest).bind fun (b,rest') => some ((a,b),rest')

theorem pair_inverts {first : Decoder Symbol α} {second : Decoder Symbol β} {encodeFirst : α → List Symbol}
    {encodeSecond : β → List Symbol} {validFirst : α → Prop} {validSecond : β → Prop}
    (invertsFirst : Inverts first encodeFirst validFirst) (invertsSecond : Inverts second encodeSecond validSecond) :
    Inverts (pair first second) (fun ab => encodeFirst ab.1 ++ encodeSecond ab.2)
      (fun ab => validFirst ab.1 ∧ validSecond ab.2) := by
  constructor
  · rintro ⟨a,b⟩ ⟨validA,validB⟩ rest
    simp only [pair,List.append_assoc,invertsFirst.complete a validA,Option.bind_some,
      invertsSecond.complete b validB]
  · rintro input ⟨a,b⟩ rest decoded
    simp only [pair,Option.bind_eq_some_iff,Prod.exists,Option.some.injEq,Prod.mk.injEq] at decoded
    obtain ⟨a',middle,readFirst,b',rest',readSecond,⟨rfl,rfl⟩,rfl⟩ := decoded
    rw [invertsFirst.sound _ _ _ readFirst,invertsSecond.sound _ _ _ readSecond,List.append_assoc]

/-- Decoding value after value until the input is used up; the number bounds how
    many values are taken. -/
def decodeAll (decode : Decoder Symbol α) : Nat → List Symbol → Option (List α)
  | _, [] => some []
  | 0, _ :: _ => none
  | n+1, s :: input => (decode (s :: input)).bind fun (a,rest) => (decodeAll decode n rest).map (a :: ·)

/-- Any concatenation of encodings decodes to the values it was made from. -/
theorem decodeAll_flatMap {decode : Decoder Symbol α} {encode : α → List Symbol} {valid : α → Prop}
    (inverts : Inverts decode encode valid) (nonempty : ∀ a, encode a ≠ []) (values : List α)
    (allValid : ∀ a ∈ values, valid a) (bound : Nat) (enough : values.length ≤ bound) :
    decodeAll decode bound (values.flatMap encode) = some values := by
  induction values generalizing bound with
  | nil => cases bound <;> rfl
  | cons a rest ih =>
    cases bound with
    | zero => simp at enough
    | succ n =>
      obtain ⟨s,tail,split⟩ := List.exists_cons_of_ne_nil (nonempty a)
      have head := inverts.complete a (allValid a (by simp)) (rest.flatMap encode)
      have later := ih (fun b member => allValid b (by simp [member])) n (by simpa using enough)
      rw [List.flatMap_cons,split,List.cons_append,decodeAll,← List.cons_append,← split,head]
      simp only [Option.bind_some,later,Option.map_some]

/-! ### Big-endian numbers -/

/-- The last `width` base-256 digits of a number, most significant first. -/
def toBigEndian : Nat → Nat → List UInt8
  | 0, _ => []
  | width+1, n => toBigEndian width (n / 256) ++ [UInt8.ofNat n]

/-- The number that big-endian bytes denote. -/
def ofBigEndian (bytes : List UInt8) : Nat := bytes.foldl (fun n b => n * 256 + b.toNat) 0

@[simp] theorem toBigEndian_length (width n : Nat) : (toBigEndian width n).length = width := by
  induction width generalizing n with
  | zero => rfl
  | succ width ih => simp [toBigEndian,ih]

theorem ofBigEndian_append_one (bytes : List UInt8) (b : UInt8) :
    ofBigEndian (bytes ++ [b]) = ofBigEndian bytes * 256 + b.toNat := by
  simp [ofBigEndian]

theorem ofBigEndian_toBigEndian (width n : Nat) : ofBigEndian (toBigEndian width n) = n % 256 ^ width := by
  induction width generalizing n with
  | zero => simp [toBigEndian,ofBigEndian,Nat.mod_one]
  | succ width ih =>
    rw [toBigEndian,ofBigEndian_append_one,ih,Nat.pow_succ,Nat.mul_comm (256 ^ width),Nat.mod_mul]
    simp only [UInt8.toNat_ofNat']
    omega

theorem ofBigEndian_lt (bytes : List UInt8) : ofBigEndian bytes < 256 ^ bytes.length := by
  induction bytes using List.reverseRecOn with
  | nil => simp [ofBigEndian]
  | append_singleton bytes b ih =>
    have digit : b.toNat < 256 := b.toNat_lt
    rw [ofBigEndian_append_one,List.length_append,List.length_singleton,Nat.pow_succ]
    omega

theorem toBigEndian_ofBigEndian (bytes : List UInt8) : toBigEndian bytes.length (ofBigEndian bytes) = bytes := by
  induction bytes using List.reverseRecOn with
  | nil => rfl
  | append_singleton bytes b ih =>
    have digit : b.toNat < 256 := b.toNat_lt
    have high : (ofBigEndian bytes * 256 + b.toNat) / 256 = ofBigEndian bytes := by omega
    have low : UInt8.ofNat (ofBigEndian bytes * 256 + b.toNat) = b := by
      apply UInt8.toNat_inj.mp
      simp only [UInt8.toNat_ofNat']
      omega
    rw [ofBigEndian_append_one,List.length_append,List.length_singleton,toBigEndian,high,low,ih]

/-! ### Prefix codes -/

/-- No word is a proper prefix of another. -/
def PrefixFree (words : Set (List Symbol)) : Prop :=
  ∀ v ∈ words, ∀ w ∈ words, v <+: w → v = w

/-- A prefix-free code without the empty word is uniquely decodable. -/
theorem PrefixFree.uniquelyDecodable {words : Set (List Symbol)} (free : PrefixFree words)
    (nonempty : [] ∉ words) : InformationTheory.UniquelyDecodable words := by
  intro left
  induction left with
  | nil =>
    intro right _ inRight same
    cases right with
    | nil => rfl
    | cons w rest =>
      have empty : w = [] := (List.append_eq_nil_iff.mp same.symm).1
      exact absurd (empty ▸ inRight w (by simp)) nonempty
  | cons v rest ih =>
    intro right inLeft inRight same
    cases right with
    | nil =>
      have empty : v = [] := (List.append_eq_nil_iff.mp same).1
      exact absurd (empty ▸ inLeft v (by simp)) nonempty
    | cons w rest' =>
      have vIn := inLeft v (by simp)
      have wIn := inRight w (by simp)
      rw [List.flatten_cons,List.flatten_cons] at same
      have heads : v = w := by
        rcases List.prefix_or_prefix_of_prefix (List.prefix_append v rest.flatten)
          (same ▸ List.prefix_append w rest'.flatten) with shorter | longer
        · exact free v vIn w wIn shorter
        · exact (free w wIn v vIn longer).symm
      subst heads
      rw [ih rest' (fun x member => inLeft x (by simp [member])) (fun x member => inRight x (by simp [member]))
        (List.append_cancel_left same)]

/-- Lists with the same words agree in everything that a word determines. -/
theorem map_determined {γ : Type u} {encode : α → β} {g : α → γ} {left right : List α}
    (determines : ∀ a ∈ left, ∀ b ∈ right, encode a = encode b → g a = g b)
    (same : left.map encode = right.map encode) : left.map g = right.map g := by
  induction left generalizing right with
  | nil =>
    cases right with
    | nil => rfl
    | cons b rest' => cases same
  | cons a rest ih =>
    cases right with
    | nil => cases same
    | cons b rest' =>
      obtain ⟨head,tail⟩ := List.cons.inj same
      have later := ih (fun c member d member' =>
        determines c (List.mem_cons_of_mem a member) d (List.mem_cons_of_mem b member')) tail
      rw [List.map_cons,List.map_cons,determines a List.mem_cons_self b List.mem_cons_self head,later]

end ZmqOut.Codec
