import ZmqOut.DataStream

/-!
Frames that are cut short. The stream notices every cut, and what operator>> makes of
the bytes that are left depends on where the cut is: a count that is cut reads as an
empty value, one whose bytes are cut as a null value, and a value is never
shortened.
-/
namespace ZmqOut.Truncation
open ZmqOut.Codec ZmqOut.DataStream

/-- The stream when it has met its end. -/
def ended : QDataStream := ⟨[],.ReadPastEnd⟩

/-! ### One value -/

theorem readQuint32_short {bytes : List UInt8} (short : bytes.length < 4) :
    QDataStream.readQuint32 ⟨bytes,.Ok⟩ = (0,ended) := by
  have width : ¬ (bytes.take 4).length = 4 := by
    rw [List.length_take]
    omega
  have rest : bytes.drop 4 = [] := List.drop_eq_nil_of_le (by omega)
  rw [readQuint32_eq,if_neg width,rest]
  rfl

/-- A cut leaves a part of the count, or the count and a part of the bytes. -/
theorem writeBytes_take {bytes : List UInt8} {n : Nat} (cut : n < (writeBytes bytes).length) :
    ((writeBytes bytes).take n).length < 4 ∧ n < 4 ∨ 4 ≤ n ∧ n - 4 < bytes.length ∧
      (writeBytes bytes).take n = writeQuint32 bytes.length ++ bytes.take (n - 4) := by
  have width : (writeQuint32 bytes.length).length = 4 := toBigEndian_length 4 _
  rw [writeBytes,List.length_append,width] at cut
  by_cases part : n < 4
  · refine .inl ⟨?_,part⟩
    rw [List.length_take]
    omega
  · refine .inr ⟨by omega,by omega,?_⟩
    rw [writeBytes,List.take_append,width,List.take_of_length_le (by omega)]

section
variable {bytes : List UInt8} {n : Nat}

theorem readQString_short (short : bytes.length < 4) : readQString ⟨bytes,.Ok⟩ = (some [],ended) := by
  rw [readQString_eq (readQuint32_short short)]
  rfl

theorem readQByteArray_short (short : bytes.length < 4) : readQByteArray ⟨bytes,.Ok⟩ = (some [],ended) := by
  rw [readQByteArray_eq (readQuint32_short short)]
  rfl

/-- The bytes that are left do not make up the count. -/
theorem take_short (missing : n < bytes.length) :
    ¬ ((bytes.take n).take bytes.length).length = bytes.length ∧ (bytes.take n).drop bytes.length = [] := by
  refine ⟨?_,List.drop_eq_nil_of_le ?_⟩
  · simp only [List.length_take]
    omega
  · rw [List.length_take]
    omega

/-- A count below the limit is not the mark of null. -/
theorem not_nullMarker {count : Nat} (small : count < 2 ^ 31) : count ≠ nullMarker := by
  rw [nullMarker]
  omega

theorem readQByteArray_cut (small : bytes.length < 2 ^ 31) (missing : n < bytes.length) :
    readQByteArray ⟨writeQuint32 bytes.length ++ bytes.take n,.Ok⟩ = (none,ended) := by
  obtain ⟨shorter,rest⟩ := take_short missing
  rw [readQByteArray_eq (readQuint32_write (by omega) _),if_neg (not_nullMarker small),if_neg shorter,rest]
  rfl

theorem readQString_cut (small : bytes.length < 2 ^ 31) (even : bytes.length % 2 = 0) (missing : n < bytes.length) :
    readQString ⟨writeQuint32 bytes.length ++ bytes.take n,.Ok⟩ = (none,ended) := by
  obtain ⟨shorter,rest⟩ := take_short missing
  have units : ¬ bytes.length % 2 = 1 := by omega
  rw [readQString_eq (readQuint32_write (by omega) _),if_neg (not_nullMarker small),if_neg units,if_neg shorter,rest]
  rfl

end

/-- What a text that is cut reads as: empty when its count is cut, null otherwise. -/
theorem readQString_take {s : QString} (fits : FitsString s) {n : Nat} (cut : n < (writeQString s).length) :
    readQString ⟨(writeQString s).take n,.Ok⟩ = (if n < 4 then some [] else none,ended) := by
  cases s with
  | none =>
    have width : (writeQString none).length = 4 := toBigEndian_length 4 _
    rw [width] at cut
    rw [if_pos cut,readQString_short (by rw [List.length_take]; omega)]
  | some units =>
    have small := fits units rfl
    rw [← toUtf16_length] at small
    rcases writeBytes_take cut with ⟨short,part⟩ | ⟨whole,missing,taken⟩
    · rw [if_pos part]
      exact readQString_short short
    · rw [if_neg (by omega),writeQString,taken]
      exact readQString_cut small (by rw [toUtf16_length]; omega) missing

theorem readQByteArray_take {a : QByteArray} (fits : FitsArray a) {n : Nat} (cut : n < (writeQByteArray a).length) :
    readQByteArray ⟨(writeQByteArray a).take n,.Ok⟩ = (if n < 4 then some [] else none,ended) := by
  cases a with
  | none =>
    have width : (writeQByteArray none).length = 4 := toBigEndian_length 4 _
    rw [width] at cut
    rw [if_pos cut,readQByteArray_short (by rw [List.length_take]; omega)]
  | some bytes =>
    rcases writeBytes_take cut with ⟨short,part⟩ | ⟨whole,missing,taken⟩
    · rw [if_pos part]
      exact readQByteArray_short short
    · rw [if_neg (by omega),writeQByteArray,taken]
      exact readQByteArray_cut (fits bytes rfl) missing

/-! ### Frames -/

/-- What the first `n` bytes of a frame read as. -/
def remnant (f : data_frame) (n : Nat) : data_frame :=
  let c := (writeQString f.context).length
  ⟨if c ≤ n then f.context else if n < 4 then some [] else none,if c + 4 ≤ n then none else some []⟩

/-- A frame that is cut anywhere ends the stream before its time, and it reads as a frame without
    image: its context is whole, null or empty, and its image null or empty. -/
theorem cut_frames (f : data_frame) (fits : Fits f) (n : Nat) (cut : n < f.write.length) :
    data_frame.read ⟨f.write.take n,.Ok⟩ = (remnant f n,ended) := by
  rw [data_frame.write,List.length_append] at cut
  rw [data_frame.write,List.take_append]
  by_cases whole : (writeQString f.context).length ≤ n
  · -- The cut is behind the context.
    have context := decoded_some.mp (readQString_inverts.complete f.context fits.1
      ((writeQByteArray f.image).take (n - (writeQString f.context).length)))
    have image := readQByteArray_take fits.2 (n := n - (writeQString f.context).length) (by omega)
    rw [List.take_of_length_le whole]
    simp only [data_frame.read,context,image,remnant,whole,↓reduceIte]
    by_cases counted : (writeQString f.context).length + 4 ≤ n
    · simp [counted,show ¬ n - (writeQString f.context).length < 4 by omega]
    · simp [counted,show n - (writeQString f.context).length < 4 by omega]
  · have nothing : (writeQByteArray f.image).take (n - (writeQString f.context).length) = [] := by
      rw [show n - (writeQString f.context).length = 0 by omega]
      rfl
    have context := readQString_take fits.1 (n := n) (by omega)
    have image : readQByteArray ended = (some [],ended) := rfl
    rw [nothing,List.append_nil]
    simp only [data_frame.read,context,image,remnant,whole,↓reduceIte,
      show ¬ (writeQString f.context).length + 4 ≤ n by omega]

/-- A frame reads back from its first bytes if they hold its context and only the count of an empty image
    is cut, or if the count of an empty context is. -/
theorem remnant_whole {f : data_frame} {n : Nat} (cut : n < f.write.length) :
    remnant f n = f ↔ f.image = some [] ∧ ((writeQString f.context).length ≤ n ∨ n < 4 ∧ f.context = some []) := by
  obtain ⟨context,image⟩ := f
  have counted : (writeQByteArray none).length = 4 := toBigEndian_length 4 _
  have marked : (writeQString none).length = 4 := toBigEndian_length 4 _
  have emptied : (writeQByteArray (some [])).length = 4 := toBigEndian_length 4 _
  simp only [data_frame.write,List.length_append] at cut
  simp only [remnant,data_frame.mk.injEq]
  by_cases whole : (writeQString context).length ≤ n
  · simp only [whole,↓reduceIte,true_and,true_or,and_true]
    by_cases behind : (writeQString context).length + 4 ≤ n
    · -- A null image would have ended here, and an empty one as well.
      rw [if_pos behind]
      constructor
      · rintro rfl
        omega
      · rintro rfl
        omega
    · rw [if_neg behind,eq_comm]
  · have image_cut : ¬ (writeQString context).length + 4 ≤ n := by omega
    simp only [whole,image_cut,↓reduceIte,false_or]
    by_cases part : n < 4
    · rw [if_pos part,eq_comm,@eq_comm _ (some []) image]
      simp only [part,true_and]
      exact and_comm
    · rw [if_neg part]
      simp only [part,false_and,and_false,iff_false]
      rintro ⟨rfl,-⟩
      omega

/-- A frame whose image has lost its last byte. -/
theorem cut_frames_last : data_frame.read ⟨(data_frame.write ⟨some [97],some [1,2]⟩).take 11,.Ok⟩ = (⟨some [97],none⟩,ended) := by
  have fits : Fits ⟨some [97],some [1,2]⟩ := by
    constructor
    · rintro units ⟨⟩
      decide
    · rintro bytes ⟨⟩
      decide
  exact cut_frames ⟨some [97],some [1,2]⟩ fits 11 (by decide)

end ZmqOut.Truncation
